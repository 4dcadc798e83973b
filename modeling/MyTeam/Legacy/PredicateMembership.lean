import MyTeam.Legacy.PredicateGate

/-!
# Membership as a disjunction

A test whether a field is one of some values could be written as a disjunction of comparisons. The test goes by
the equality of Python, by which `True` is `1`, and by identity, by which a `nan` is itself; a comparison tells bools
from numbers, and no `nan` is equal to any. So the two agree, in any predicate, where no bool is among the values by way
of a number, no number by way of a bool, and no `nan` is the one of the set.
-/

namespace MyTeam.Legacy.Predicate

open MyTeam.Py

/-- The elements of a list that are reached when it is gone through. -/
def visited {α : Type} (conj : Bool) (test : α → Except Raised Bool) : List α → List α
  | [] => []
  | x :: xs =>
    match test x with
    | .ok result => x :: if result = conj then visited conj test xs else []
    | .error _ => [x]

/-- A predicate with a hole. -/
inductive Context where
  | hole
  | quant (every : Bool) (field : String) (c : Context)
  | chain (conj : Bool) (before : List Form) (c : Context) (after : List Form)
  | not (c : Context)

namespace Context

/-- The hole is filled. -/
def fill (p : Form) : Context → Form
  | hole => p
  | quant every field c => .quant every field (c.fill p)
  | chain conj before c after => .chain conj (before ++ c.fill p :: after)
  | not c => .not (c.fill p)

/-- The scopes in which what fills the hole is evaluated: the one of the predicate, or elements of its lists. -/
def reached (p : Form) : Context → Json → List Json
  | hole, scope => [scope]
  | quant every field c, scope =>
    match elements (quantOp every).text (.str field) scope with
    | .ok (some xs) => (visited every (c.fill p).eval xs).flatMap (c.reached p)
    | _ => []
  | chain conj before c _, scope =>
    match scan conj (fun p => p.eval scope) before with
    | .ok result => if result = conj then c.reached p scope else []
    | .error _ => []
  | not c, scope => c.reached p scope

end Context

/-- The disjunction of the comparisons with some values. -/
def alternatives (field : String) (members : List Json) : Form :=
  .chain false (members.map fun m => .compare .eq field m)

/-- The value of a field is a scalar or null, or there is none. -/
def Plain (field : String) (scope : Json) : Prop :=
  ∀ v, resolve scope (.str field) = .ok (some v) → isScalar v = true ∨ v = .null

/-- If the value of a field is one of the values, it is equal to one that is a bool exactly if it is one. -/
def Agrees (field : String) (members : List Json) (scope : Json) : Prop :=
  ∀ v, resolve scope (.str field) = .ok (some v) → ∀ m ∈ members, isMember v m = true →
    ∃ m' ∈ members, v.eq m' = true ∧ isBool m' = isBool v

section Scan

variable {α : Type} {conj : Bool} {test test' : α → Except Raised Bool} {xs : List α}

/-- A list is gone through alike by tests that agree on the elements that are reached. -/
theorem scan_visited (h : ∀ x ∈ visited conj test xs, test x = test' x) : scan conj test xs = scan conj test' xs := by
  induction xs with
  | nil => rfl
  | cons x xs ih =>
    rw [visited] at h
    rw [scan, scan]
    cases hx : test x with
    | error raised =>
      rw [hx, List.forall_mem_singleton, hx] at h
      rw [← h]
      rfl
    | ok result =>
      rw [hx] at h
      obtain ⟨hfirst, hrest⟩ := List.forall_mem_cons.mp h
      rw [← hfirst, hx, ok_bind, ok_bind]
      split_ifs with hresult
      · rw [if_pos hresult] at hrest
        exact ih hrest
      · rfl

/-- A list is gone through by a test that always returns. -/
theorem scan_ok {f : α → Bool} (h : ∀ x ∈ xs, test x = .ok (f x)) : scan false test xs = .ok (xs.any f) := by
  induction xs with
  | nil => rfl
  | cons x xs ih =>
    obtain ⟨hx, hxs⟩ := List.forall_mem_cons.mp h
    rw [scan, hx, ok_bind, ih hxs, List.any_cons]
    cases f x <;> rfl

end Scan

section Replacement

variable {p q : Form} {field : String} {members : List Json} {scope v m : Json}

/-- A predicate keeps its value if what fills the hole does in each scope in which it is evaluated. -/
theorem eval_fill (c : Context) (h : ∀ s ∈ c.reached p scope, p.eval s = q.eval s) :
    (c.fill p).eval scope = (c.fill q).eval scope := by
  induction c generalizing scope with
  | hole => exact h scope (List.mem_singleton_self scope)
  | quant every field c ih =>
    rw [Context.fill, Context.fill, Form.eval, Form.eval]
    rw [Context.reached] at h
    cases hfound : elements (quantOp every).text (.str field) scope with
    | error raised => rfl
    | ok found =>
      rw [hfound] at h
      cases found with
      | none => rfl
      | some xs => exact scan_visited fun x hx => ih fun s hs => h s (List.mem_flatMap.mpr ⟨x, hx, hs⟩)
  | chain conj before c after ih =>
    rw [Context.fill, Context.fill, Form.eval_chain, Form.eval_chain, scan_append, scan_append]
    rw [Context.reached] at h
    cases hbefore : scan conj (fun p => p.eval scope) before with
    | error raised => rfl
    | ok result =>
      rw [hbefore] at h
      dsimp only at h
      rw [ok_bind, ok_bind]
      split_ifs with hresult
      · rw [if_pos hresult] at h
        rw [scan, scan, ih h]
      · rfl
  | not c ih => rw [Context.fill, Context.fill, Form.eval, Form.eval, ih h]

/-- Strict equality of a scalar and a value is equality of two that are bools, or both are not. -/
theorem strictEq_iff : strictEq v m = true ↔ v.eq m = true ∧ isBool m = isBool v := by
  unfold strictEq
  cases isBool v <;> cases isBool m <;> simp

/-- What is strictly equal to a value is a member by way of it. -/
theorem isMember_of_strictEq (h : strictEq v m = true) : isMember v m = true := by
  rw [isMember, (strictEq_iff.mp h).1, Bool.or_true]

/-- A test for membership. -/
theorem eval_member (h : resolve scope (.str field) = .ok (some v)) :
    (Form.mem field members).eval scope = .ok (members.any (isMember v)) := by
  rw [Form.eval, evalMem, h]
  rfl

/-- A comparison of a plain value. -/
theorem eval_equal (h : resolve scope (.str field) = .ok (some v)) (hplain : isScalar v = true ∨ v = .null) :
    (Form.compare .eq field m).eval scope = .ok (strictEq v m) := by
  rw [Form.eval, evalLeaf, h]
  rcases hplain with hscalar | rfl
  · cases v with
    | list => cases hscalar
    | dict => cases hscalar
    | _ => rfl
  · rfl

/-- A disjunction of comparisons of a plain value. -/
theorem eval_alternatives (h : resolve scope (.str field) = .ok (some v)) (hplain : isScalar v = true ∨ v = .null) :
    (alternatives field members).eval scope = .ok (members.any (strictEq v)) := by
  rw [alternatives, Form.eval_chain, scan_map]
  exact scan_ok fun m _ => eval_equal h hplain

/-- A value that is missing is no member, and equal to none. -/
theorem eval_missing (h : resolve scope (.str field) = .ok none) :
    (Form.mem field members).eval scope = .ok false ∧ (alternatives field members).eval scope = .ok false := by
  constructor
  · rw [Form.eval, evalMem, h]
    rfl
  · have hnever : members.any (fun _ => false) = false := by simp
    rw [alternatives, Form.eval_chain, scan_map]
    refine (scan_ok fun m _ => ?_).trans (congrArg Except.ok hnever)
    rw [Form.eval, evalLeaf, h]
    rfl

/-- The two agree in a scope exactly if the value of the field is a member by way of its own kind, if it is one. -/
theorem eval_mem_eq_iff (hplain : Plain field scope) :
    (Form.mem field members).eval scope = (alternatives field members).eval scope ↔ Agrees field members scope := by
  obtain ⟨found, hfound⟩ := resolve_str scope field
  cases found with
  | none =>
    obtain ⟨hmem, halternatives⟩ := eval_missing hfound
    refine iff_of_true (hmem.trans halternatives.symm) fun v hv => ?_
    rw [hfound] at hv
    cases hv
  | some v =>
    rw [eval_member hfound, eval_alternatives hfound (hplain v hfound), Except.ok.injEq, Bool.eq_iff_iff,
      List.any_eq_true, List.any_eq_true]
    constructor
    · intro h w hw m hm hmember
      obtain rfl := Option.some.inj (Except.ok.inj (hfound.symm.trans hw))
      obtain ⟨m', hm', hstrict⟩ := h.mp ⟨m, hm, hmember⟩
      exact ⟨m', hm', strictEq_iff.mp hstrict⟩
    · intro h
      constructor
      · rintro ⟨m, hm, hmember⟩
        obtain ⟨m', hm', hstrict⟩ := h v hfound m hm hmember
        exact ⟨m', hm', strictEq_iff.mpr hstrict⟩
      · exact fun ⟨m, hm, hstrict⟩ => ⟨m, hm, isMember_of_strictEq hstrict⟩

end Replacement

section Evaluate

variable {sha256 : List Char → String} {limit : ℕ} {c : Context} {p q : Form} {field : String} {members : List Json}
  {inQuant : Bool}
  {F : String → Prop} {L : Json → Prop} {kvs : List (String × Json)} {state : Json}

/-- A predicate is still accepted when its hole is filled with something that is. -/
theorem valid_fill (hpq : ∀ inQuant, p.Valid inQuant → q.Valid inQuant) (h : (c.fill p).Valid inQuant) :
    (c.fill q).Valid inQuant := by
  induction c generalizing inQuant with
  | hole => exact hpq inQuant h
  | quant every field c ih => exact ⟨h.1, ih h.2⟩
  | chain conj before c after ih =>
    refine ⟨by simp, Form.allValid_iff.mpr fun r hr => ?_⟩
    have hall := Form.allValid_iff.mp h.2
    rcases List.mem_append.mp hr with hr | hr
    · exact hall r (List.mem_append_left _ hr)
    · rcases List.mem_cons.mp hr with rfl | hr
      · exact ih (hall _ (List.mem_append_right _ List.mem_cons_self))
      · exact hall r (List.mem_append_right _ (List.mem_cons_of_mem _ hr))
  | not c ih => exact ih h

/-- Fields and literals still have their properties when the hole is filled with something whose do. -/
theorem each_fill (hpq : p.Each F L → q.Each F L) (h : (c.fill p).Each F L) : (c.fill q).Each F L := by
  induction c with
  | hole => exact hpq h
  | quant every field c ih => exact ⟨h.1, ih h.2⟩
  | chain conj before c after ih =>
    refine Form.allEach_iff.mpr fun r hr => ?_
    have hall := Form.allEach_iff.mp h
    rcases List.mem_append.mp hr with hr | hr
    · exact hall r (List.mem_append_left _ hr)
    · rcases List.mem_cons.mp hr with rfl | hr
      · exact ih (hall _ (List.mem_append_right _ List.mem_cons_self))
      · exact hall r (List.mem_append_right _ (List.mem_cons_of_mem _ hr))
  | not c ih => exact ih h

/-- The disjunction is accepted where the test is. -/
theorem valid_alternatives (h : (Form.mem field members).Valid inQuant) :
    (alternatives field members).Valid inQuant := by
  obtain ⟨hfield, hne, hscalar⟩ := h
  refine ⟨by simpa using hne, Form.allValid_iff.mpr fun r hr => ?_⟩
  obtain ⟨m, hm, rfl⟩ := List.mem_map.mp hr
  exact ⟨hfield, hscalar m hm, Or.inl rfl⟩

/-- The disjunction has the field and the literals of the test. -/
theorem each_alternatives (h : (Form.mem field members).Each F L) : (alternatives field members).Each F L := by
  refine Form.allEach_iff.mpr fun r hr => ?_
  obtain ⟨m, hm, rfl⟩ := List.mem_map.mp hr
  exact ⟨h.1, h.2 m hm⟩

/-- It takes no fewer calls when its hole is filled with something that does not. -/
theorem depth_fill (hpq : p.depth ≤ q.depth) : (c.fill p).depth ≤ (c.fill q).depth := by
  induction c with
  | hole => exact hpq
  | quant every field c ih => exact Nat.add_le_add_right ih 2
  | chain conj before c after ih =>
    refine Nat.add_le_add_right (Form.depths_le_iff.mpr fun r hr => ?_) 1
    have hall := Form.depths_le_iff.mp (le_refl (Form.depths (before ++ c.fill q :: after)))
    rcases List.mem_append.mp hr with hr | hr
    · exact hall r (List.mem_append_left _ hr)
    · rcases List.mem_cons.mp hr with rfl | hr
      · exact ih.trans (hall _ (List.mem_append_right _ List.mem_cons_self))
      · exact hall r (List.mem_append_right _ (List.mem_cons_of_mem _ hr))
  | not c ih => exact Nat.add_le_add_right ih 2

/-- What the evaluation of an accepted predicate comes to. -/
theorem evaluate_node (hvalid : p.Valid false) (hloaded : p.Each (fun _ => True) Json.Loaded)
    (hroom : p.depth + 3 ≤ limit) :
    evaluate sha256 limit p.node (.dict kvs) = p.eval (.dict kvs) := by
  obtain ⟨n, rfl⟩ := Nat.exists_eq_add_of_le' (le_trans (Nat.le_add_left 1 _) hroom)
  rw [← evaluateTraced_value hvalid hloaded (by omega : p.depth + 2 ≤ n)]
  obtain ⟨args, hargs⟩ := p.exists_args
  rw [hargs]
  rfl

/-- Nothing is evaluated in a state that is no dictionary. -/
theorem evaluate_other (h : ∀ kvs, state ≠ .dict kvs) :
    evaluate sha256 (limit + 2) p.node state = .error (.typeError (.state state.typeName)) := by
  obtain ⟨args, hargs⟩ := p.exists_args
  rw [hargs]
  cases state with
  | dict kvs => exact absurd rfl (h kvs)
  | _ => rfl

/-- A test for membership in an accepted predicate can be replaced by the disjunction of the comparisons, if the two
agree in each scope in which it is evaluated, and there is room for the disjunction; and on its own only then. -/
theorem evaluate_membership (sha256 : List Char → String) (limit : ℕ) (field : String) (members : List Json)
    (c : Context)
    (state : Json) (hvalid : (c.fill (.mem field members)).Valid false)
    (hloaded : (c.fill (.mem field members)).node.Loaded)
    (hplain : ∀ s ∈ c.reached (.mem field members) state, Plain field s)
    (hroom : (c.fill (alternatives field members)).depth + 3 ≤ limit) :
    ((∀ s ∈ c.reached (.mem field members) state, Agrees field members s) →
      evaluate sha256 limit (c.fill (.mem field members)).node state =
        evaluate sha256 limit (c.fill (alternatives field members)).node state) ∧
    ∀ kvs, c = .hole → state = .dict kvs → evaluate sha256 limit (Form.mem field members).node state =
      evaluate sha256 limit (alternatives field members).node state → Agrees field members state := by
  have heach : (c.fill (.mem field members)).Each (fun _ => True) Json.Loaded := Form.each_loaded hloaded
  have hdepth : (Form.mem field members).depth ≤ (alternatives field members).depth := Nat.le_add_left 1 _
  have hless : (c.fill (.mem field members)).depth + 3 ≤ limit :=
    le_trans (Nat.add_le_add_right (depth_fill hdepth) 3) hroom
  have hmem {kvs : List (String × Json)} := @evaluate_node sha256 limit _ kvs hvalid heach hless
  have halternatives {kvs : List (String × Json)} := @evaluate_node sha256 limit _ kvs
    (valid_fill (fun _ => valid_alternatives) hvalid) (each_fill each_alternatives heach) hroom
  constructor
  · intro hagrees
    by_cases hdict : ∃ kvs, state = .dict kvs
    · obtain ⟨kvs, rfl⟩ := hdict
      rw [hmem, halternatives]
      exact eval_fill c fun s hs => (eval_mem_eq_iff (hplain s hs)).mpr (hagrees s hs)
    · have hother : ∀ kvs, state ≠ .dict kvs := fun kvs h => hdict ⟨kvs, h⟩
      obtain ⟨n, rfl⟩ := Nat.exists_eq_add_of_le' (le_trans (by omega : 2 ≤ _ + 3) hroom)
      rw [evaluate_other hother, evaluate_other hother]
  · rintro kvs rfl rfl hsame
    exact (eval_mem_eq_iff (hplain _ (List.mem_singleton_self _))).mp (hmem.symm.trans (hsame.trans halternatives))

end Evaluate

/-- A state with a flag. -/
def flagged : Json := .dict [("x", .bool true)]

/-- A state with a name. -/
def named : Json := .dict [("x", .str "a")]

/-- The field is read. -/
theorem resolve_x (v : Json) : resolve (.dict [("x", v)]) (.str "x") = .ok (some v) := by
  have hparts : pathParts "x" = ["x"] := by decide +kernel
  change Except.ok (follow (.dict [("x", v)]) (pathParts "x")) = _
  rw [hparts]
  rfl

/-- The field can be named. -/
theorem fieldFits_x : Form.FieldFits false "x" := by
  unfold Form.FieldFits
  rw [if_neg (by decide)]
  decide +kernel

/-- A name that is none of two names, in both ways. -/
theorem evaluate_membership_named :
    (∀ s ∈ (Context.not .hole).reached (.mem "x" [.str "a", .str "b"]) named, Agrees "x" [.str "a", .str "b"] s) ∧
      evaluate (fun _ => "") 1000 ((Context.not .hole).fill (.mem "x" [.str "a", .str "b"])).node named =
        evaluate (fun _ => "") 1000 ((Context.not .hole).fill (alternatives "x" [.str "a", .str "b"])).node named := by
  have hvalid : ((Context.not .hole).fill (.mem "x" [.str "a", .str "b"])).Valid false :=
    ⟨fieldFits_x, List.cons_ne_nil _ _, List.forall_mem_cons.mpr ⟨rfl, List.forall_mem_singleton.mpr rfl⟩⟩
  have hloaded : ((Context.not .hole).fill (.mem "x" [.str "a", .str "b"])).node.Loaded :=
    Form.node_loaded ⟨trivial, List.forall_mem_cons.mpr ⟨trivial, List.forall_mem_singleton.mpr trivial⟩⟩
  have hread (v : Json) (hv : resolve named (.str "x") = .ok (some v)) : v = .str "a" :=
    (Option.some.inj (Except.ok.inj ((resolve_x _).symm.trans hv))).symm
  have hagrees : ∀ s ∈ (Context.not .hole).reached (.mem "x" [.str "a", .str "b"]) named,
      Agrees "x" [.str "a", .str "b"] s := by
    intro s hs v hv m _ _
    rw [List.mem_singleton.mp hs] at hv
    rw [hread v hv]
    exact ⟨.str "a", List.mem_cons_self, by decide, rfl⟩
  refine ⟨hagrees, (evaluate_membership (fun _ => "") 1000 "x" [.str "a", .str "b"] (.not .hole) named hvalid hloaded ?_
    (by decide)).1 hagrees⟩
  intro s hs v hv
  rw [List.mem_singleton.mp hs] at hv
  rw [hread v hv]
  exact Or.inl rfl

/-- A flag is one of the numbers, by way of one, and not equal to one. -/
theorem flag_is_one : ¬∀ (sha256 : List Char → String) (limit : ℕ) (field : String) (members : List Json) (c : Context)
    (state : Json), (c.fill (.mem field members)).Valid false → (c.fill (.mem field members)).node.Loaded →
    (∀ s ∈ c.reached (.mem field members) state, Plain field s) →
    (c.fill (alternatives field members)).depth + 3 ≤ limit →
      evaluate sha256 limit (c.fill (.mem field members)).node state =
        evaluate sha256 limit (c.fill (alternatives field members)).node state := by
  intro h
  have hvalid : (Context.hole.fill (.mem "x" [.int 1])).Valid false :=
    ⟨fieldFits_x, List.cons_ne_nil _ _, List.forall_mem_singleton.mpr rfl⟩
  have hloaded : (Context.hole.fill (.mem "x" [.int 1])).node.Loaded :=
    Form.node_loaded ⟨trivial, List.forall_mem_singleton.mpr loaded_one⟩
  have hplain : ∀ s ∈ Context.hole.reached (.mem "x" [.int 1]) flagged, Plain "x" s := by
    intro s hs v hv
    rw [List.mem_singleton.mp hs] at hv
    obtain rfl := Option.some.inj (Except.ok.inj ((resolve_x _).symm.trans hv))
    exact Or.inl rfl
  have hsame := h (fun _ => "") 1000 "x" [.int 1] .hole flagged hvalid hloaded hplain (by decide)
  revert hsame
  decide +kernel

end MyTeam.Legacy.Predicate
