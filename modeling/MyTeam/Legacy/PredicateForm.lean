import MyTeam.Legacy.Predicate

/-!
# The forms of predicates

The nodes that `validate` accepts are those of a form, which holds an operator with all that it needs: fields that
can be named in its scope, literals that can be compared. `walk` gathers errors and never takes one back, so that
a node without errors has such a form. A form has a value in every scope, which is what `eval_node` returns, unless the
stack has too little room.
-/

namespace MyTeam.Legacy.Predicate

open MyTeam.Py

/-- A predicate, with `all` or `any` and with `and` or `or` as one case each. -/
inductive Form where
  | compare (op : CmpOp) (field : String) (lit : Json)
  | mem (field : String) (members : List Json)
  | quant (every : Bool) (field : String) (p : Form)
  | present (field : String)
  | count (field : String) (op : CmpOp) (bound : Json)
  | chain (conj : Bool) (ps : List Form)
  | not (p : Form)

/-- `all` or `any`. -/
def quantOp (every : Bool) : PredicateOp := if every then .all else .any

/-- `and` or `or`. -/
def chainOp (conj : Bool) : PredicateOp := if conj then .and else .or

namespace Form

mutual

/-- The node of a form. -/
def node : Form → Json
  | compare op field lit => .list [.str op.text, .str field, lit]
  | mem field members => .list [.str "in", .str field, .list members]
  | quant every field p => .list [.str (quantOp every).text, .str field, p.node]
  | present field => .list [.str "exists", .str field]
  | count field op bound => .list [.str "count", .str field, .str op.text, bound]
  | chain conj ps => .list (.str (chainOp conj).text :: nodes ps)
  | not p => .list [.str "not", p.node]

/-- The nodes of forms. -/
def nodes : List Form → List Json
  | [] => []
  | p :: ps => p.node :: nodes ps

end

/-- The nodes are those of each. -/
theorem nodes_eq_map (ps : List Form) : nodes ps = ps.map node := by
  induction ps with
  | nil => rfl
  | cons p ps ih => rw [nodes, ih, List.map_cons]

/-- The operator of a form. -/
def op : Form → PredicateOp
  | compare op _ _ => .cmp op
  | mem _ _ => .mem
  | quant every _ _ => quantOp every
  | present _ => .exist
  | count _ _ _ => .count
  | chain conj _ => chainOp conj
  | not _ => .not

/-- A node begins with the operator of its form. -/
theorem exists_args (p : Form) : ∃ args, p.node = .list (.str p.op.text :: args) := by
  cases p <;> exact ⟨_, rfl⟩

/-- What holds of a form if it holds of its parts holds of every form. -/
theorem induct {motive : Form → Prop} (compare : ∀ op field lit, motive (.compare op field lit))
    (mem : ∀ field members, motive (.mem field members))
    (quant : ∀ every field p, motive p → motive (.quant every field p)) (present : ∀ field, motive (.present field))
    (count : ∀ field op bound, motive (.count field op bound))
    (chain : ∀ conj ps, (∀ p ∈ ps, motive p) → motive (.chain conj ps)) (not : ∀ p, motive p → motive (.not p))
    (p : Form) : motive p := by
  refine @Form.rec motive (fun ps => ∀ p ∈ ps, motive p) compare mem quant present count chain not ?_ ?_ p
  · exact fun p hp => absurd hp List.not_mem_nil
  · exact fun p ps hp hps => List.forall_mem_cons.mpr ⟨hp, hps⟩

/-- A field that can be named in a scope: `.` is the element that a quantifier is at. -/
def FieldFits (inQuant : Bool) (field : String) : Prop :=
  if field = "." then inQuant = true else isFieldPath field = true

mutual

/-- A form that `validate` accepts. -/
def Valid : Bool → Form → Prop
  | inQuant, compare op field lit =>
    FieldFits inQuant field ∧ isScalar lit = true ∧ (op = .eq ∨ op = .ne ∨ isNumber lit = true)
  | inQuant, mem field members => FieldFits inQuant field ∧ members ≠ [] ∧ ∀ m ∈ members, isScalar m = true
  | inQuant, quant _ field p => FieldFits inQuant field ∧ Valid true p
  | inQuant, present field => FieldFits inQuant field
  | inQuant, count field _ bound => FieldFits inQuant field ∧ isNumber bound = true
  | inQuant, chain _ ps => ps ≠ [] ∧ AllValid inQuant ps
  | inQuant, not p => Valid inQuant p

/-- Forms that `validate` accepts. -/
def AllValid : Bool → List Form → Prop
  | _, [] => True
  | inQuant, p :: ps => Valid inQuant p ∧ AllValid inQuant ps

end

/-- Each of them is. -/
theorem allValid_iff {inQuant : Bool} {ps : List Form} : AllValid inQuant ps ↔ ∀ p ∈ ps, p.Valid inQuant := by
  induction ps with
  | nil => simp [AllValid]
  | cons p ps ih => rw [AllValid, ih, List.forall_mem_cons]

end Form

/-- Errors are only added. -/
def Findings.Grows (w w' : Findings) : Prop := w.errors <+: w'.errors

namespace Findings

variable {w w' w'' : Findings}

/-- Nothing is added. -/
theorem Grows.refl (w : Findings) : w.Grows w := List.prefix_rfl

/-- One addition after the other. -/
theorem Grows.trans (h : w.Grows w') (h' : w'.Grows w'') : w.Grows w'' := List.IsPrefix.trans h h'

/-- An error is added. -/
theorem grows_error (w : Findings) (message : String) : w.Grows (w.error message) := List.prefix_append _ _

/-- An error is not taken back. -/
theorem Grows.ne_of_error {message : String} (h : (w.error message).Grows w') : w'.errors ≠ w.errors := by
  intro heq
  have hlength := h.length_le
  rw [heq, error, List.length_append, List.length_singleton] at hlength
  omega

/-- If nothing has been added in the end, then nothing was in between. -/
theorem Grows.errors_eq (h : w.Grows w') (h' : w'.Grows w'') (heq : w''.errors = w.errors) :
    w'.errors = w.errors ∧ w''.errors = w'.errors := by
  have hlength := h.length_le
  have hlength' := h'.length_le
  rw [heq] at hlength'
  have hsame : w'.errors = w.errors := (h.eq_of_length (by omega)).symm
  exact ⟨hsame, heq.trans hsame.symm⟩

end Findings

/-- A step that did not raise. -/
@[simp] theorem ok_bind {α β : Type} (a : α) (f : α → Except Raised β) : (Except.ok a >>= f) = f a := rfl

/-- What follows on a step that did not raise. -/
theorem bind_eq_ok {α β : Type} {x : Except Raised α} {f : α → Except Raised β} {y : β} (h : (x >>= f) = .ok y) :
    ∃ a, x = .ok a ∧ f a = .ok y := by
  cases x with
  | error e => cases h
  | ok a => exact ⟨a, rfl, h⟩

section Checks

variable {f members cmp num lit node : Json} {inQuant : Bool} {op : CmpOp} {w w' : Findings}

/-- A check that ends in an error, or not at all. -/
theorem check_error {message : String} {P : Prop} (h : w' = w.error message) :
    w.Grows w' ∧ (w'.errors = w.errors → P) := by
  subst h
  exact ⟨w.grows_error message, fun heq => absurd heq (Findings.Grows.refl _).ne_of_error⟩

/-- The check of a field. -/
theorem checkField_spec (h : checkField f inQuant w = .ok w') :
    w.Grows w' ∧ (w'.errors = w.errors → ∃ field, f = .str field ∧ Form.FieldFits inQuant field) := by
  unfold checkField at h
  split at h
  next field =>
    split_ifs at h with hdot hquant hpath
    · cases h
      exact ⟨List.prefix_rfl, fun _ => ⟨field, rfl, by rw [Form.FieldFits, if_pos hdot, hquant]⟩⟩
    · exact check_error (Except.ok.inj h).symm
    · cases h
      exact ⟨List.prefix_rfl, fun _ => ⟨field, rfl, by rw [Form.FieldFits, if_neg hdot, hpath]⟩⟩
    · exact check_error (Except.ok.inj h).symm
  next =>
    obtain ⟨text, -, h⟩ := bind_eq_ok h
    exact check_error (Except.ok.inj h).symm

/-- The check of the members of a set. -/
theorem checkMembers_spec {ms : List Json} (h : checkMembers ms w = .ok w') :
    w.Grows w' ∧ (w'.errors = w.errors → ∀ m ∈ ms, isScalar m = true) := by
  induction ms generalizing w with
  | nil =>
    cases h
    exact ⟨.refl _, fun _ m hm => absurd hm List.not_mem_nil⟩
  | cons m ms ih =>
    unfold checkMembers at h
    split_ifs at h with hscalar
    · obtain ⟨hgrows, hall⟩ := ih h
      exact ⟨hgrows, fun heq => List.forall_mem_cons.mpr ⟨hscalar, hall heq⟩⟩
    · obtain ⟨text, -, h⟩ := bind_eq_ok h
      obtain ⟨hgrows, -⟩ := ih h
      exact ⟨(w.grows_error _).trans hgrows, fun heq => absurd heq hgrows.ne_of_error⟩

/-- The check of a set. -/
theorem checkSet_spec (h : checkSet members w = .ok w') :
    w.Grows w' ∧ (w'.errors = w.errors → ∃ ms, members = .list ms ∧ ms ≠ [] ∧ ∀ m ∈ ms, isScalar m = true) := by
  unfold checkSet at h
  split at h
  next m rest =>
    obtain ⟨hgrows, hall⟩ := checkMembers_spec h
    exact ⟨hgrows, fun heq => ⟨_, rfl, List.cons_ne_nil _ _, hall heq⟩⟩
  next => exact check_error (Except.ok.inj h).symm

/-- The check of the operator of a `count`. -/
theorem checkComparator_spec (h : checkComparator cmp w = .ok w') :
    w.Grows w' ∧ (w'.errors = w.errors → ∃ op : CmpOp, cmp = .str op.text) := by
  obtain ⟨found, hfound, h⟩ := bind_eq_ok h
  cases found with
  | some op =>
    cases h
    refine ⟨.refl _, fun _ => ⟨op, ?_⟩⟩
    unfold cmpOf at hfound
    split at hfound
    next text => rw [CmpOp.text_of_ofText (Except.ok.inj hfound)]
    all_goals cases hfound
  | none =>
    obtain ⟨text, -, h⟩ := bind_eq_ok h
    exact check_error (Except.ok.inj h).symm

/-- The check of the bound of a `count`. -/
theorem checkBound_spec (h : checkBound num w = .ok w') :
    w.Grows w' ∧ (w'.errors = w.errors → isNumber num = true) := by
  unfold checkBound at h
  split_ifs at h with hnumber
  · cases h
    exact ⟨.refl _, fun _ => hnumber⟩
  · obtain ⟨text, -, h⟩ := bind_eq_ok h
    exact check_error (Except.ok.inj h).symm

/-- The check that a literal is a scalar. -/
theorem checkScalar_spec (h : checkScalar op lit w = .ok w') :
    w.Grows w' ∧ (w'.errors = w.errors → isScalar lit = true) := by
  unfold checkScalar at h
  split_ifs at h with hscalar
  · cases h
    exact ⟨.refl _, fun _ => hscalar⟩
  · obtain ⟨text, -, h⟩ := bind_eq_ok h
    exact check_error (Except.ok.inj h).symm

/-- The check that a literal has an order. -/
theorem checkOrdered_spec (h : checkOrdered op lit w = .ok w') :
    w.Grows w' ∧ (w'.errors = w.errors → op = .eq ∨ op = .ne ∨ isNumber lit = true) := by
  unfold checkOrdered at h
  split_ifs at h with hordered
  · cases h
    exact ⟨.refl _, fun _ => hordered⟩
  · obtain ⟨text, -, h⟩ := bind_eq_ok h
    exact check_error (Except.ok.inj h).symm

end Checks

/-- The children of `and` or `or` have forms. -/
theorem walk_chain {name : String} {args : List Json} {inQuant : Bool} (conj : Bool)
    (hop : PredicateOp.ofText name = some (chainOp conj)) (hne : args = [] → False)
    (h : ∃ ps, Form.nodes ps = args ∧ Form.AllValid inQuant ps) :
    ∃ p : Form, p.node = .list (.str name :: args) ∧ p.Valid inQuant := by
  obtain ⟨ps, rfl, hvalid⟩ := h
  refine ⟨.chain conj ps, by rw [Form.node, PredicateOp.text_of_ofText hop], ?_, hvalid⟩
  rintro rfl
  exact hne rfl

/-- The child of `all` or `any` has a form. -/
theorem walk_quant {name : String} {f child : Json} {inQuant : Bool} {w u w' : Findings} (every : Bool)
    (hop : PredicateOp.ofText name = some (quantOp every)) (hgrows : w.Grows u) (hgrows' : u.Grows w')
    (hfield : u.errors = w.errors → ∃ field, f = .str field ∧ Form.FieldFits inQuant field)
    (hchild : w'.errors = u.errors → ∃ p : Form, p.node = child ∧ p.Valid true) (heq : w'.errors = w.errors) :
    ∃ p : Form, p.node = .list [.str name, f, child] ∧ p.Valid inQuant := by
  obtain ⟨hfirst, hlast⟩ := hgrows.errors_eq hgrows' heq
  obtain ⟨field, rfl, hfits⟩ := hfield hfirst
  obtain ⟨p, rfl, hvalid⟩ := hchild hlast
  exact ⟨.quant every field p, by rw [Form.node, PredicateOp.text_of_ofText hop], hfits, hvalid⟩

/-- Children without errors are nodes of forms, if each of them is. -/
theorem walkAll_spec {self : Json → Bool → Findings → Except Raised Findings} {inQuant : Bool}
    (ih : ∀ node {inQuant : Bool} {w w' : Findings}, self node inQuant w = .ok w' →
      w.Grows w' ∧ (w'.errors = w.errors → ∃ p : Form, p.node = node ∧ p.Valid inQuant))
    {nodes : List Json} {w w' : Findings} (h : nodes.foldlM (fun w child => self child inQuant w) w = .ok w') :
    w.Grows w' ∧ (w'.errors = w.errors → ∃ ps, Form.nodes ps = nodes ∧ Form.AllValid inQuant ps) := by
  induction nodes generalizing w with
  | nil =>
    cases h
    exact ⟨.refl _, fun _ => ⟨[], rfl, trivial⟩⟩
  | cons node nodes ihnodes =>
    rw [List.foldlM_cons] at h
    obtain ⟨u, hu, hrest⟩ := bind_eq_ok h
    obtain ⟨hgrows, hnode⟩ := ih node hu
    obtain ⟨hgrows', hnodes⟩ := ihnodes hrest
    refine ⟨hgrows.trans hgrows', fun heq => ?_⟩
    obtain ⟨hfirst, hlast⟩ := hgrows.errors_eq hgrows' heq
    obtain ⟨p, hp, hvalid⟩ := hnode hfirst
    obtain ⟨ps, hps, hvalids⟩ := hnodes hlast
    exact ⟨p :: ps, by rw [Form.nodes, hp, hps], hvalid, hvalids⟩

/-- A node without errors is that of a form. -/
theorem walk_spec {n : ℕ} (node : Json) {inQuant : Bool} {w w' : Findings} (h : walk n node inQuant w = .ok w') :
    w.Grows w' ∧ (w'.errors = w.errors → ∃ p : Form, p.node = node ∧ p.Valid inQuant) := by
  induction n generalizing node inQuant w w' with
  | zero => cases h
  | succ n ih =>
    rw [walk] at h
    unfold walkStep at h
    split at h
    next name args =>
      have hnone {message : String}
          (h : Except.ok ((w.op name).error message) = (Except.ok w' : Except Raised Findings)) :
          w.Grows w' ∧ (w'.errors = w.errors → ∃ p : Form, p.node = .list (.str name :: args) ∧ p.Valid inQuant) :=
        @check_error (w.op name) w' message _ (Except.ok.inj h).symm
      split at h
      next => exact check_error (Except.ok.inj h).symm
      next => exact hnone h
      next hop _ =>
        obtain ⟨hgrows, hall⟩ := walkAll_spec ih h
        exact ⟨hgrows, fun heq => walk_chain true hop ‹_› (hall heq)⟩
      next => exact hnone h
      next hop _ =>
        obtain ⟨hgrows, hall⟩ := walkAll_spec ih h
        exact ⟨hgrows, fun heq => walk_chain false hop ‹_› (hall heq)⟩
      next child hop =>
        obtain ⟨hgrows, hchild⟩ := ih child h
        refine ⟨hgrows, fun heq => ?_⟩
        obtain ⟨p, rfl, hvalid⟩ := hchild heq
        exact ⟨.not p, by rw [Form.node, ← PredicateOp.text_of_ofText hop]; rfl, hvalid⟩
      next => exact hnone h
      next f child hop =>
        obtain ⟨u, hu, h⟩ := bind_eq_ok h
        obtain ⟨hgrows, hfield⟩ := checkField_spec hu
        obtain ⟨hgrows', hchild⟩ := ih child h
        exact ⟨hgrows.trans hgrows', fun heq => walk_quant true hop hgrows hgrows' hfield hchild heq⟩
      next f child hop =>
        obtain ⟨u, hu, h⟩ := bind_eq_ok h
        obtain ⟨hgrows, hfield⟩ := checkField_spec hu
        obtain ⟨hgrows', hchild⟩ := ih child h
        exact ⟨hgrows.trans hgrows', fun heq => walk_quant false hop hgrows hgrows' hfield hchild heq⟩
      next f hop =>
        obtain ⟨hgrows, hfield⟩ := checkField_spec h
        refine ⟨hgrows, fun heq => ?_⟩
        obtain ⟨field, rfl, hfits⟩ := hfield heq
        exact ⟨.present field, by rw [Form.node, ← PredicateOp.text_of_ofText hop]; rfl, hfits⟩
      next f cmp num hop =>
        obtain ⟨u, hu, h⟩ := bind_eq_ok h
        obtain ⟨v, hv, h⟩ := bind_eq_ok h
        obtain ⟨hgrows, hfield⟩ := checkField_spec hu
        obtain ⟨hgrows', hcmp⟩ := checkComparator_spec hv
        obtain ⟨hgrows'', hbound⟩ := checkBound_spec h
        refine ⟨hgrows.trans (hgrows'.trans hgrows''), fun heq => ?_⟩
        obtain ⟨hfirst, hlater⟩ := hgrows.errors_eq (hgrows'.trans hgrows'') heq
        obtain ⟨hsecond, hlast⟩ := hgrows'.errors_eq hgrows'' hlater
        obtain ⟨field, rfl, hfits⟩ := hfield hfirst
        obtain ⟨op, rfl⟩ := hcmp hsecond
        exact ⟨.count field op num, by rw [Form.node, ← PredicateOp.text_of_ofText hop]; rfl, hfits, hbound hlast⟩
      next f members hop =>
        obtain ⟨u, hu, h⟩ := bind_eq_ok h
        obtain ⟨hgrows, hfield⟩ := checkField_spec hu
        obtain ⟨hgrows', hset⟩ := checkSet_spec h
        refine ⟨hgrows.trans hgrows', fun heq => ?_⟩
        obtain ⟨hfirst, hlast⟩ := hgrows.errors_eq hgrows' heq
        obtain ⟨field, rfl, hfits⟩ := hfield hfirst
        obtain ⟨ms, rfl, hne, hall⟩ := hset hlast
        exact ⟨.mem field ms, by rw [Form.node, ← PredicateOp.text_of_ofText hop]; rfl, hfits, hne, hall⟩
      next => exact hnone h
      next op f lit hop =>
        obtain ⟨u, hu, h⟩ := bind_eq_ok h
        obtain ⟨v, hv, h⟩ := bind_eq_ok h
        obtain ⟨hgrows, hfield⟩ := checkField_spec hu
        obtain ⟨hgrows', hscalar⟩ := checkScalar_spec hv
        obtain ⟨hgrows'', hordered⟩ := checkOrdered_spec h
        refine ⟨hgrows.trans (hgrows'.trans hgrows''), fun heq => ?_⟩
        obtain ⟨hfirst, hlater⟩ := hgrows.errors_eq (hgrows'.trans hgrows'') heq
        obtain ⟨hsecond, hlast⟩ := hgrows'.errors_eq hgrows'' hlater
        obtain ⟨field, rfl, hfits⟩ := hfield hfirst
        exact ⟨.compare op field lit, by rw [Form.node, ← PredicateOp.text_of_ofText hop]; rfl, hfits, hscalar hsecond,
          hordered hlast⟩
      next => exact hnone h
    next =>
      obtain ⟨text, -, h⟩ := bind_eq_ok h
      exact check_error (Except.ok.inj h).symm

/-- `and` and `all` with `true`, `or` and `any` with `false`: a list is gone through up to the first other result. -/
def scan {α : Type} (conj : Bool) (test : α → Except Raised Bool) : List α → Except Raised Bool
  | [] => .ok conj
  | x :: xs => test x >>= fun result => if result = conj then scan conj test xs else .ok !conj

section Scan

variable {α : Type} {conj : Bool} {test : α → Except Raised Bool} {xs ys : List α}

/-- `all` goes through a list. -/
theorem allOf_eq_scan (test : Json → Except Raised Bool) (xs : List Json) : allOf test xs = scan true test xs := by
  induction xs with
  | nil => rfl
  | cons x xs ih => rw [allOf, scan, ih]; rfl

/-- `any` goes through a list. -/
theorem anyOf_eq_scan (test : Json → Except Raised Bool) (xs : List Json) : anyOf test xs = scan false test xs := by
  induction xs with
  | nil => rfl
  | cons x xs ih =>
    rw [anyOf, scan, ih]
    congr 1
    funext result
    cases result <;> rfl

/-- The elements of a list, each from another. -/
theorem scan_map {β : Type} (test : α → Except Raised Bool) {f : β → α} {zs : List β} :
    scan conj test (zs.map f) = scan conj (fun z => test (f z)) zs := by
  induction zs with
  | nil => rfl
  | cons z zs ih => rw [List.map_cons, scan, scan, ih]

end Scan

namespace Form

mutual

/-- The value of a form in a scope. -/
def eval : Form → Json → Except Raised Bool
  | compare op field lit, scope => evalLeaf op (.str field) lit scope
  | mem field members, scope => evalMem (.str field) (.list members) scope
  | quant every field p, scope => do
    match ← elements (quantOp every).text (.str field) scope with
    | some xs => scan every p.eval xs
    | none => return false
  | present field, scope => evalExists (.str field) scope
  | count field op bound, scope => evalCount (.str field) (.str op.text) bound scope
  | chain conj ps, scope => evalChain conj ps scope
  | not p, scope => do return !(← p.eval scope)

/-- The value of a chain of forms. -/
def evalChain : Bool → List Form → Json → Except Raised Bool
  | conj, [], _ => .ok conj
  | conj, p :: ps, scope => p.eval scope >>= fun result => if result = conj then evalChain conj ps scope else .ok !conj

end

/-- A chain is gone through. -/
theorem eval_chain (conj : Bool) (ps : List Form) (scope : Json) :
    (chain conj ps).eval scope = scan conj (fun p => p.eval scope) ps := by
  rw [eval]
  induction ps with
  | nil => rfl
  | cons p ps ih => rw [evalChain, scan, ih]

mutual

/-- The calls that `canonical` makes for a node, one in another. `eval_node` and `walk` make no more. -/
def depth : Form → ℕ
  | mem _ _ => 1
  | quant _ _ p => p.depth + 2
  | chain _ ps => depths ps + 1
  | not p => p.depth + 2
  | _ => 3

/-- The most calls for one of some nodes. -/
def depths : List Form → ℕ
  | [] => 0
  | p :: ps => max p.depth (depths ps)

end

/-- No node needs more calls than all. -/
theorem depths_le_iff {ps : List Form} {n : ℕ} : depths ps ≤ n ↔ ∀ p ∈ ps, p.depth ≤ n := by
  induction ps with
  | nil => simp [depths]
  | cons p ps ih => rw [depths, max_le_iff, ih, List.forall_mem_cons]

end Form

section Room

variable {α : Type} {conj : Bool} {test test' : α → Except Raised Bool} {xs : List α} {P : Prop}

/-- A list is gone through by a test that has too little room. -/
theorem scan_room (h : ∀ x ∈ xs, test x = test' x ∨ P ∧ test x = .error .recursion) :
    scan conj test xs = scan conj test' xs ∨ P ∧ scan conj test xs = .error .recursion := by
  induction xs with
  | nil => exact Or.inl rfl
  | cons x xs ih =>
    obtain ⟨hx, hxs⟩ := List.forall_mem_cons.mp h
    rw [scan, scan]
    rcases hx with hx | ⟨hP, hx⟩
    · rw [hx]
      cases test' x with
      | error raised => exact Or.inl rfl
      | ok result =>
        rw [ok_bind, ok_bind]
        split_ifs
        · exact ih hxs
        · exact Or.inl rfl
    · rw [hx]
      exact Or.inr ⟨hP, rfl⟩

end Room

section Evaluation

variable {n : ℕ} {scope : Json}

namespace Form

/-- One step of the evaluation of a form; `self` evaluates the forms in it. -/
def step (self : Form → Json → Except Raised Bool) : Form → Json → Except Raised Bool
  | compare op field lit, scope => evalLeaf op (.str field) lit scope
  | mem field members, scope => evalMem (.str field) (.list members) scope
  | quant every field p, scope =>
    elements (quantOp every).text (.str field) scope >>= fun found => found.elim (.ok false) (scan every (self p))
  | present field, scope => evalExists (.str field) scope
  | count field op bound, scope => evalCount (.str field) (.str op.text) bound scope
  | chain conj ps, scope => scan conj (fun p => self p scope) ps
  | not p, scope => self p scope >>= fun result => .ok !result

/-- What `eval_node` does with the node of an accepted form. -/
theorem evalNode_node {p : Form} {inQuant : Bool} (h : p.Valid inQuant) :
    evalNode (n + 1) p.node scope = p.step (fun p => evalNode n p.node) scope := by
  cases p with
  | compare op field lit =>
    have hop : PredicateOp.ofText op.text = some (.cmp op) := (PredicateOp.cmp op).ofText_text
    simp only [evalNode, evalStep, node, step, hop]
  | mem field members =>
    have hop : PredicateOp.ofText "in" = some .mem := PredicateOp.mem.ofText_text
    simp only [evalNode, evalStep, node, step, hop]
  | quant every field p =>
    simp only [evalNode, evalStep, node, step, PredicateOp.ofText_text]
    cases every
    all_goals
      change elements _ _ _ >>= _ = elements _ _ _ >>= _
      congr 1
      funext found
      cases found with
      | none => rfl
      | some xs => first | exact anyOf_eq_scan _ xs | exact allOf_eq_scan _ xs
  | present field =>
    have hop : PredicateOp.ofText "exists" = some .exist := PredicateOp.exist.ofText_text
    simp only [evalNode, evalStep, node, step, hop]
  | count field op bound =>
    have hop : PredicateOp.ofText "count" = some .count := PredicateOp.count.ofText_text
    simp only [evalNode, evalStep, node, step, hop]
  | chain conj ps =>
    obtain ⟨p, ps, rfl⟩ := List.exists_cons_of_ne_nil h.1
    rw [step, ← scan_map (fun node => evalNode n node scope), List.map_cons, ← nodes_eq_map]
    simp only [evalNode, evalStep, node, PredicateOp.ofText_text]
    cases conj
    · exact anyOf_eq_scan _ _
    · exact allOf_eq_scan _ _
  | not p =>
    have hop : PredicateOp.ofText "not" = some .not := PredicateOp.not.ofText_text
    simp only [evalNode, evalStep, node, step, hop]
    rfl

/-- `eval_node` returns the value of an accepted form, if there is room for it. -/
theorem evalNode_eval (p : Form) : ∀ {inQuant : Bool}, p.Valid inQuant → ∀ n scope,
    evalNode n p.node scope = p.eval scope ∨ n < p.depth ∧ evalNode n p.node scope = .error .recursion := by
  induction p using Form.induct with
  | compare op field lit =>
    rintro inQuant h (_ | n) scope
    · exact Or.inr ⟨Nat.succ_pos _, rfl⟩
    · exact Or.inl (evalNode_node h)
  | mem field members =>
    rintro inQuant h (_ | n) scope
    · exact Or.inr ⟨Nat.succ_pos _, rfl⟩
    · exact Or.inl (evalNode_node h)
  | quant every field p ih =>
    rintro inQuant h (_ | n) scope
    · exact Or.inr ⟨Nat.succ_pos _, rfl⟩
    · rw [evalNode_node h, eval, step]
      cases elements (quantOp every).text (.str field) scope with
      | error raised => exact Or.inl rfl
      | ok found =>
        cases found with
        | none => exact Or.inl rfl
        | some xs =>
          rcases scan_room fun x _ => ih h.2 n x with hsame | ⟨hlt, hraised⟩
          · exact Or.inl hsame
          · exact Or.inr ⟨by rw [depth]; omega, hraised⟩
  | present field =>
    rintro inQuant h (_ | n) scope
    · exact Or.inr ⟨Nat.succ_pos _, rfl⟩
    · exact Or.inl (evalNode_node h)
  | count field op bound =>
    rintro inQuant h (_ | n) scope
    · exact Or.inr ⟨Nat.succ_pos _, rfl⟩
    · exact Or.inl (evalNode_node h)
  | chain conj ps ih =>
    rintro inQuant h (_ | n) scope
    · exact Or.inr ⟨Nat.succ_pos _, rfl⟩
    · rw [evalNode_node h, step, eval_chain, depth, Nat.succ_lt_succ_iff]
      refine scan_room fun p hp => (ih p hp (allValid_iff.mp h.2 p hp) n scope).imp_right (And.imp_left fun hlt => ?_)
      exact lt_of_lt_of_le hlt (depths_le_iff.mp le_rfl p hp)
  | not p ih =>
    rintro inQuant h (_ | n) scope
    · exact Or.inr ⟨Nat.succ_pos _, rfl⟩
    · rw [evalNode_node h, step, eval, depth]
      rcases ih h n scope with hsame | ⟨hlt, hraised⟩
      · rw [hsame]
        exact Or.inl rfl
      · rw [hraised]
        exact Or.inr ⟨by omega, rfl⟩

/-- Where there is room, it returns the value. -/
theorem evalNode_of_depth {p : Form} {inQuant : Bool} (h : p.Valid inQuant) (hroom : p.depth ≤ n) :
    evalNode n p.node scope = p.eval scope :=
  (p.evalNode_eval h n scope).resolve_right fun hless => absurd hless.1 (not_lt.mpr hroom)

end Form

end Evaluation

/-- An error about the type of the value that a field has. -/
def TypeFault.OfField : TypeFault → Prop
  | notList _ _ typeName => typeName ≠ "list"
  | container _ _ typeName => typeName = "dict" ∨ typeName = "list"
  | notNumber _ _ typeName _ => typeName ≠ "int" ∧ typeName ≠ "float"
  | _ => False

/-- A bool is returned, or an error about the type of the value of a field is raised. -/
def Answers (r : Except Raised Bool) : Prop :=
  (∃ b, r = .ok b) ∨ ∃ fault, r = .error (.typeError fault) ∧ fault.OfField

/-- A step after an answer. -/
theorem Answers.bind {r : Except Raised Bool} {f : Bool → Except Raised Bool} (h : Answers r)
    (hf : ∀ b, Answers (f b)) :
    Answers (r >>= f) := by
  rcases h with ⟨b, rfl⟩ | ⟨fault, rfl, hfault⟩
  · exact hf b
  · exact Or.inr ⟨fault, rfl, hfault⟩

/-- A list is gone through. -/
theorem answers_scan {α : Type} {conj : Bool} {test : α → Except Raised Bool} {xs : List α}
    (h : ∀ x ∈ xs, Answers (test x)) : Answers (scan conj test xs) := by
  induction xs with
  | nil => exact Or.inl ⟨conj, rfl⟩
  | cons x xs ih =>
    obtain ⟨hx, hxs⟩ := List.forall_mem_cons.mp h
    apply hx.bind
    intro b
    split_ifs
    · exact ih hxs
    · exact Or.inl ⟨_, rfl⟩

/-- The path of a field can be followed. -/
theorem resolve_str (scope : Json) (field : String) : ∃ found, resolve scope (.str field) = .ok found := by
  unfold resolve
  split
  · exact ⟨_, rfl⟩
  · exact ⟨_, rfl⟩
  next h => exact absurd rfl (h field)

/-- A number that is no bool has a value. -/
theorem exists_number {v : Json} (h : isNumber v = true) : ∃ x, v.number = some x := by
  cases v with
  | int n => exact ⟨_, rfl⟩
  | float x => exact ⟨_, rfl⟩
  | _ => cases h

/-- A comparison with a literal that fits. -/
theorem answers_evalLeaf {op : CmpOp} {field : String} {lit scope : Json}
    (h : op = .eq ∨ op = .ne ∨ isNumber lit = true) : Answers (evalLeaf op (.str field) lit scope) := by
  obtain ⟨found, hfound⟩ := resolve_str scope field
  unfold evalLeaf
  rw [hfound, ok_bind]
  cases found with
  | none => exact Or.inl ⟨false, rfl⟩
  | some v =>
    dsimp only
    by_cases hequal : op = .eq ∨ op = .ne
    · rw [if_pos hequal]
      cases v with
      | list xs => exact Or.inr ⟨_, rfl, Or.inr rfl⟩
      | dict kvs => exact Or.inr ⟨_, rfl, Or.inl rfl⟩
      | _ => exact Or.inl ⟨_, rfl⟩
    · rw [if_neg hequal]
      have hlit : isNumber lit = true := by
        rcases h with rfl | rfl | hnumber
        · exact absurd (Or.inl rfl) hequal
        · exact absurd (Or.inr rfl) hequal
        · exact hnumber
      obtain ⟨y, hy⟩ := exists_number hlit
      cases hv : isNumber v with
      | true =>
        obtain ⟨x, hx⟩ := exists_number hv
        rw [hlit, hx, hy]
        exact Or.inl ⟨_, rfl⟩
      | false =>
        refine Or.inr ⟨_, rfl, ?_⟩
        cases v with
        | int => cases hv
        | float => cases hv
        | _ => simp [TypeFault.OfField, Json.typeName]

/-- A set of values. -/
theorem answers_evalMem {field : String} {members : List Json} {scope : Json} :
    Answers (evalMem (.str field) (.list members) scope) := by
  obtain ⟨found, hfound⟩ := resolve_str scope field
  unfold evalMem
  rw [hfound, ok_bind]
  cases found <;> exact Or.inl ⟨_, rfl⟩

/-- A test that a field is there. -/
theorem answers_evalExists {field : String} {scope : Json} : Answers (evalExists (.str field) scope) := by
  obtain ⟨found, hfound⟩ := resolve_str scope field
  unfold evalExists
  rw [hfound, ok_bind]
  exact Or.inl ⟨_, rfl⟩

/-- A value that is no list. -/
theorem typeName_ne_list {v : Json} (h : ∀ xs, v ≠ .list xs) : v.typeName ≠ "list" := by
  cases v with
  | list xs => exact absurd rfl (h xs)
  | _ => simp [Json.typeName]

/-- A length. -/
theorem answers_evalCount {field : String} {op : CmpOp} {bound scope : Json} (h : isNumber bound = true) :
    Answers (evalCount (.str field) (.str op.text) bound scope) := by
  obtain ⟨found, hfound⟩ := resolve_str scope field
  obtain ⟨x, hx⟩ := exists_number h
  have hcmp : cmpOf (.str op.text) = .ok (some op) := by rw [cmpOf, CmpOp.ofText_text]
  unfold evalCount
  rw [hfound, ok_bind]
  cases found with
  | none => exact Or.inl ⟨false, rfl⟩
  | some v =>
    cases v with
    | list xs =>
      dsimp only
      rw [hcmp, ok_bind, hx]
      exact Or.inl ⟨_, rfl⟩
    | _ => exact Or.inr ⟨_, rfl, typeName_ne_list (by simp)⟩

/-- The elements that a quantifier goes through, if there are any. -/
theorem elements_str {op field : String} {scope : Json} : (∃ found, elements op (.str field) scope = .ok found) ∨
    ∃ fault, elements op (.str field) scope = .error (.typeError fault) ∧ fault.OfField := by
  obtain ⟨found, hfound⟩ := resolve_str scope field
  unfold elements
  rw [hfound, ok_bind]
  cases found with
  | none => exact Or.inl ⟨none, rfl⟩
  | some v =>
    cases v with
    | list xs => exact Or.inl ⟨some xs, rfl⟩
    | _ => exact Or.inr ⟨_, rfl, typeName_ne_list (by simp)⟩

/-- An accepted form has a value in every scope. -/
theorem answers_of_valid (p : Form) : ∀ {inQuant : Bool}, p.Valid inQuant → ∀ scope, Answers (p.eval scope) := by
  induction p using Form.induct with
  | compare op field lit => exact fun h scope => answers_evalLeaf h.2.2
  | mem field members => exact fun h scope => answers_evalMem
  | quant every field p ih =>
    intro inQuant h scope
    rw [Form.eval]
    rcases @elements_str (quantOp every).text field scope with ⟨found, hfound⟩ | ⟨fault, hfault, hfield⟩
    · rw [hfound, ok_bind]
      cases found with
      | none => exact Or.inl ⟨false, rfl⟩
      | some xs => exact answers_scan fun x _ => ih h.2 x
    · rw [hfault]
      exact Or.inr ⟨fault, rfl, hfield⟩
  | present field => exact fun h scope => answers_evalExists
  | count field op bound => exact fun h scope => answers_evalCount h.2
  | chain conj ps ih =>
    intro inQuant h scope
    rw [Form.eval_chain]
    exact answers_scan fun p hp => ih p hp (Form.allValid_iff.mp h.2 p hp) scope
  | not p ih => exact fun h scope => (ih h scope).bind fun b => Or.inl ⟨!b, rfl⟩

end MyTeam.Legacy.Predicate
