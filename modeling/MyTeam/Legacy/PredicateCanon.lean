import MyTeam.Legacy.PredicateParse

/-!
# Canonical predicates

`canonical` takes the node of a form to the node of a form with the same fields and literals, in which no `and`
is a child of an `and` and no `or` of an `or`, and in which the members of sets are in order. It has the same
value in every scope, found in the same steps, but for a `nan` in a set, of which the text does not tell the object.
-/

namespace MyTeam.Legacy.Predicate

open MyTeam.Py

/-- A computation that does not raise. -/
def Returns {α : Type} (x : Except Raised α) : Prop := ∃ a, x = .ok a

section Returns

variable {α β : Type} {x : Except Raised α} {f : α → Except Raised β} {P Q : Prop}

/-- It returns what it returns. -/
@[simp] theorem returns_ok (a : α) : Returns (.ok a) := ⟨a, rfl⟩

/-- Two computations, one after the other, return if both do. -/
theorem returns_bind_iff (hx : Returns x ↔ P) (hf : ∀ a, Returns (f a) ↔ Q) : Returns (x >>= f) ↔ P ∧ Q := by
  constructor
  · rintro ⟨b, hb⟩
    obtain ⟨a, ha, hb⟩ := bind_eq_ok hb
    exact ⟨hx.mp ⟨a, ha⟩, (hf a).mp ⟨b, hb⟩⟩
  · rintro ⟨hP, hQ⟩
    obtain ⟨a, rfl⟩ := hx.mpr hP
    exact (hf a).mpr hQ

/-- Two computations that return. -/
theorem Returns.bind (hx : Returns x) (hf : ∀ a, Returns (f a)) : Returns (x >>= f) := by
  obtain ⟨a, rfl⟩ := hx
  exact hf a

/-- A computation that returns if there is room for it on the stack. -/
def ReturnsIf (P : Prop) (x : Except Raised α) : Prop := (P → Returns x) ∧ (¬P → x = .error .recursion)

/-- Without any room it does not return. -/
theorem returnsIf_error (hP : ¬P) : ReturnsIf P (.error .recursion : Except Raised α) :=
  ⟨fun h => absurd h hP, fun _ => rfl⟩

/-- A computation that does not raise needs no room. -/
theorem ReturnsIf.bind_returns (h : ReturnsIf P x) (hf : ∀ a, Returns (f a)) : ReturnsIf P (x >>= f) :=
  ⟨fun hP => (h.1 hP).bind hf, fun hP => by rw [h.2 hP]; rfl⟩

/-- Two computations return if there is room for both. -/
theorem ReturnsIf.bind (h : ReturnsIf P x) (hf : ∀ a, ReturnsIf Q (f a)) : ReturnsIf (P ∧ Q) (x >>= f) := by
  constructor
  · exact fun hroom => (h.1 hroom.1).bind fun a => (hf a).1 hroom.2
  · intro hroom
    by_cases hP : P
    · obtain ⟨a, rfl⟩ := h.1 hP
      exact (hf a).2 fun hQ => hroom ⟨hP, hQ⟩
    · rw [h.2 hP]
      rfl

end Returns

section Scan

variable {α β : Type} {conj : Bool} {test : α → Except Raised Bool} {xs ys : List α}

/-- Going through a list, and from its end through another. -/
theorem scan_append : scan conj test (xs ++ ys) =
    scan conj test xs >>= fun result => if result = conj then scan conj test ys else .ok !conj := by
  induction xs with
  | nil =>
    rw [List.nil_append, scan, ok_bind, if_pos rfl]
  | cons x xs ih =>
    rw [List.cons_append, scan, scan, ih]
    cases test x with
    | error raised => rfl
    | ok result =>
      rw [ok_bind, ok_bind]
      split_ifs with hresult
      · rfl
      · rw [ok_bind, if_neg (by simp)]

/-- A list of one element. -/
theorem scan_singleton (x : α) : scan conj test [x] = test x := by
  rw [scan, scan]
  cases test x with
  | error raised => rfl
  | ok result => cases result <;> cases conj <;> rfl

/-- A list of lists is gone through one list after the other. -/
theorem scan_flatMap {f : β → List α} {test' : β → Except Raised Bool} {zs : List β}
    (h : ∀ z ∈ zs, scan conj test (f z) = test' z) : scan conj test (zs.flatMap f) = scan conj test' zs := by
  induction zs with
  | nil => rfl
  | cons z zs ih =>
    obtain ⟨hz, hzs⟩ := List.forall_mem_cons.mp h
    rw [List.flatMap_cons, scan_append, hz, ih hzs, scan]

end Scan

section Sets

variable {ms : List Json} {items : List (List Char × Json)}

/-- The members of a set, each with its own text: of several with one text there is one. -/
theorem uniq_spec (hplain : ∀ m ∈ ms, m.Plain) (h : uniq ms = .ok items) :
    (∀ item ∈ items, item.2 ∈ ms ∧ item.2.dumps = .ok item.1) ∧ ∀ m ∈ ms, ∃ item ∈ items,
      item.2.readBack = m.readBack := by
  induction ms generalizing items with
  | nil =>
    cases h
    simp
  | cons m ms ih =>
    obtain ⟨hm, hms⟩ := List.forall_mem_cons.mp hplain
    obtain ⟨text, htext, h⟩ := bind_eq_ok h
    obtain ⟨rest, hrest, h⟩ := bind_eq_ok h
    obtain ⟨htexts, hfound⟩ := ih hms hrest
    have hdumps : m.dumps = .ok text := by
      cases hdumps : m.dumps with
      | error e =>
        rw [hdumps] at htext
        cases htext
      | ok found =>
        rw [hdumps] at htext
        exact congrArg Except.ok (Except.ok.inj htext)
    have htexts' : ∀ item ∈ rest, item.2 ∈ m :: ms ∧ item.2.dumps = .ok item.1 :=
      fun item hitem => (htexts item hitem).imp_left (List.mem_cons_of_mem m)
    cases h
    split_ifs with hany
    · -- a member with the same text is the same, but for a `nan`
      obtain ⟨item, hitem, hsame⟩ := List.any_eq_true.mp hany
      obtain ⟨hin, hitems⟩ := htexts item hitem
      have heq : item.2.readBack = m.readBack :=
        Json.dumps_inj (hms _ hin) hm (hitems.trans (by rw [of_decide_eq_true hsame])) hdumps
      exact ⟨htexts', List.forall_mem_cons.mpr ⟨⟨item, hitem, heq⟩, hfound⟩⟩
    · refine ⟨List.forall_mem_cons.mpr ⟨⟨List.mem_cons_self, hdumps⟩, htexts'⟩, List.forall_mem_cons.mpr ⟨?_, ?_⟩⟩
      · exact ⟨_, List.mem_cons_self, rfl⟩
      · exact fun m' hm' => (hfound m' hm').imp fun item hitem => hitem.imp_left (List.mem_cons_of_mem _)

/-- A set in place of another, which may have another `nan`. -/
structure SameSet (ms' ms : List Json) : Prop where
  subset : ms' ⊆ ms
  found : ∀ m ∈ ms, ∃ m' ∈ ms', m'.readBack = m.readBack

/-- The canonical set is in place of the set. -/
theorem canonicalSet_spec {c : Json} (hplain : ∀ m ∈ ms, m.Plain) (h : canonicalSet (.list ms) = .ok c) :
    ∃ ms', c = .list ms' ∧ SameSet ms' ms := by
  have hbind : uniq ms >>= (fun items => .ok (.list ((items.mergeSort fun x y => x.1 ≤ y.1).map Prod.snd))) = .ok c := h
  obtain ⟨items, hitems, hc⟩ := bind_eq_ok hbind
  cases hc
  obtain ⟨hin, hfound⟩ := uniq_spec hplain hitems
  have hmem (m : Json) : m ∈ (items.mergeSort fun x y => x.1 ≤ y.1).map Prod.snd ↔ m ∈ items.map Prod.snd :=
    ((List.mergeSort_perm items _).map Prod.snd).mem_iff
  refine ⟨_, rfl, fun m hm => ?_, fun m hm => ?_⟩
  · obtain ⟨item, hitem, rfl⟩ := List.mem_map.mp ((hmem m).mp hm)
    exact (hin item hitem).1
  · obtain ⟨item, hitem, hsame⟩ := hfound m hm
    exact ⟨item.2, (hmem _).mpr (List.mem_map_of_mem hitem), hsame⟩

/-- Where each `nan` is that of `json`, they contain the same. -/
theorem contains_congr {ms' : List Json} (h : SameSet ms' ms) (hown : ∀ m ∈ ms, m.readBack = m) (v : Json) :
    contains (.list ms') v = contains (.list ms) v := by
  have hany : ms'.any (isMember v) = ms.any (isMember v) := by
    rw [Bool.eq_iff_iff, List.any_eq_true, List.any_eq_true]
    constructor
    · exact fun ⟨m, hm, hmember⟩ => ⟨m, h.subset hm, hmember⟩
    · rintro ⟨m, hm, hmember⟩
      obtain ⟨m', hm', hsame⟩ := h.found m hm
      rw [hown m hm, hown m' (h.subset hm')] at hsame
      exact ⟨m', hm', hsame ▸ hmember⟩
  cases v <;> exact congrArg some hany

/-- Members have texts. -/
theorem uniq_returns (h : ∀ m ∈ ms, m.Loaded) : Returns (uniq ms) := by
  induction ms with
  | nil => exact returns_ok []
  | cons m ms ih =>
    obtain ⟨hm, hms⟩ := List.forall_mem_cons.mp h
    obtain ⟨text, htext⟩ := m.dumps_ok hm
    rw [uniq, htext]
    exact (ih hms).bind fun rest => returns_ok _

end Sets

namespace Form

/-- The forms that take the place of a child of `and` or `or`. -/
def flat (conj : Bool) : Form → List Form
  | chain other ps => if other = conj then ps else [chain other ps]
  | p => [p]

mutual

/-- A `nan` that is a member of a set is that of `json`. -/
def Own : Form → Prop
  | mem _ members => ∀ m ∈ members, m.readBack = m
  | quant _ _ p => p.Own
  | chain _ ps => AllOwn ps
  | not p => p.Own
  | _ => True

/-- So it is in each of them. -/
def AllOwn : List Form → Prop
  | [] => True
  | p :: ps => p.Own ∧ AllOwn ps

end

/-- Each of them is on its own. -/
theorem allOwn_iff {ps : List Form} : AllOwn ps ↔ ∀ p ∈ ps, p.Own := by
  induction ps with
  | nil => simp [AllOwn]
  | cons p ps ih => rw [AllOwn, ih, List.forall_mem_cons]

/-- A form in place of another: it is accepted where that is, its literals have texts where those do, and it means
the same. -/
structure Replaces (p' p : Form) : Prop where
  valid : ∀ inQuant, p.Valid inQuant → p'.Valid inQuant
  loaded : p'.Each (fun _ => True) Json.Loaded ↔ p.Each (fun _ => True) Json.Loaded
  own : p.Own → p'.Own
  eval : ∀ inQuant, p.Valid inQuant → p.Own → ∀ scope, p'.eval scope = p.eval scope

/-- Nothing is in place of another. -/
theorem Replaces.refl (p : Form) : p.Replaces p where
  valid := fun _ h => h
  loaded := Iff.rfl
  own := fun h => h
  eval := fun _ _ _ _ => rfl

variable {p : Form} {ps ps' : List Form} {conj : Bool} {inQuant : Bool}

/-- The operators of chains have texts of their own. -/
theorem chainOp_text_inj {conj other : Bool} : (chainOp other).text = (chainOp conj).text ↔ other = conj := by
  revert conj other
  decide +kernel

/-- The children that take the place of a node are the nodes of the forms that take the place of its form. -/
theorem splice_node (conj : Bool) (p : Form) : splice (chainOp conj).text p.node = nodes (p.flat conj) := by
  have hother {op : PredicateOp} {args : List Json} (hop : op.text ≠ "and" ∧ op.text ≠ "or") :
      splice (chainOp conj).text (.list (.str op.text :: args)) = [.list (.str op.text :: args)] := by
    rw [splice, if_neg]
    cases conj
    · exact hop.2
    · exact hop.1
  cases p with
  | compare op field lit => exact @hother (.cmp op) _ (by cases op <;> decide)
  | mem field members => exact @hother .mem _ (by decide)
  | quant every field p =>
    cases every
    · exact @hother .any _ (by decide)
    · exact @hother .all _ (by decide)
  | present field => exact @hother .exist _ (by decide)
  | count field op bound => exact @hother .count _ (by decide)
  | chain other ps =>
    rw [node, splice, flat]
    simp only [chainOp_text_inj]
    split_ifs <;> rfl
  | not p => exact @hother .not _ (by decide)

/-- They are accepted where the form is. -/
theorem valid_of_mem_flat {q : Form} (h : p.Valid inQuant) (hq : q ∈ p.flat conj) : q.Valid inQuant := by
  cases p with
  | chain other ps =>
    rw [flat] at hq
    split_ifs at hq
    · exact allValid_iff.mp h.2 q hq
    · rwa [List.mem_singleton.mp hq]
  | _ => rwa [List.mem_singleton.mp hq]

/-- There are some. -/
theorem flat_ne_nil (h : p.Valid inQuant) : p.flat conj ≠ [] := by
  cases p with
  | chain other ps =>
    rw [flat]
    split_ifs
    · exact h.1
    · exact List.cons_ne_nil _ _
  | _ => exact List.cons_ne_nil _ _

/-- They have its fields and literals. -/
theorem forall_flat_each {F : String → Prop} {L : Json → Prop} : (∀ q ∈ p.flat conj, q.Each F L) ↔ p.Each F L := by
  cases p with
  | chain other ps =>
    rw [flat]
    split_ifs
    · exact allEach_iff.symm
    · exact List.forall_mem_singleton
  | _ => exact List.forall_mem_singleton

/-- They are on their own where it is. -/
theorem own_of_mem_flat {q : Form} (h : p.Own) (hq : q ∈ p.flat conj) : q.Own := by
  cases p with
  | chain other ps =>
    rw [flat] at hq
    split_ifs at hq
    · exact allOwn_iff.mp h q hq
    · rwa [List.mem_singleton.mp hq]
  | _ => rwa [List.mem_singleton.mp hq]

/-- They mean what it means. -/
theorem scan_flat (scope : Json) : scan conj (fun q => q.eval scope) (p.flat conj) = p.eval scope := by
  cases p with
  | chain other ps =>
    rw [flat]
    split_ifs with heq
    · rw [← heq, eval_chain]
    · exact scan_singleton _
  | _ => exact scan_singleton _

section Chains

variable (h : List.Forall₂ Replaces ps' ps)

include h

/-- Forms in place of accepted forms are accepted. -/
theorem valid_of_replaces (hvalid : ∀ p ∈ ps, p.Valid inQuant) : ∀ p' ∈ ps', p'.Valid inQuant := by
  induction h with
  | nil => exact fun p hp => absurd hp List.not_mem_nil
  | cons hp _ ih =>
    obtain ⟨hfirst, hrest⟩ := List.forall_mem_cons.mp hvalid
    exact List.forall_mem_cons.mpr ⟨hp.valid inQuant hfirst, ih hrest⟩

/-- Their literals have texts where those of those do. -/
theorem forall_loaded_iff :
    (∀ p' ∈ ps', p'.Each (fun _ => True) Json.Loaded) ↔ ∀ p ∈ ps, p.Each (fun _ => True) Json.Loaded := by
  induction h with
  | nil => exact Iff.rfl
  | cons hp _ ih => rw [List.forall_mem_cons, List.forall_mem_cons, hp.loaded, ih]

/-- They are on their own where those are. -/
theorem own_of_replaces (hown : ∀ p ∈ ps, p.Own) : ∀ p' ∈ ps', p'.Own := by
  induction h with
  | nil => exact hown
  | cons hp _ ih =>
    obtain ⟨hfirst, hrest⟩ := List.forall_mem_cons.mp hown
    exact List.forall_mem_cons.mpr ⟨hp.own hfirst, ih hrest⟩

/-- They mean what those mean. -/
theorem scan_of_replaces (hvalid : ∀ p ∈ ps, p.Valid inQuant) (hown : ∀ p ∈ ps, p.Own) (scope : Json) :
    scan conj (fun p => p.eval scope) ps' = scan conj (fun p => p.eval scope) ps := by
  induction h with
  | nil => rfl
  | cons hp _ ih =>
    obtain ⟨hfirst, hrest⟩ := List.forall_mem_cons.mp hvalid
    obtain ⟨hownFirst, hownRest⟩ := List.forall_mem_cons.mp hown
    rw [scan, scan, hp.eval inQuant hfirst hownFirst scope, ih hrest hownRest]

/-- Where there are forms, there are forms in their place. -/
theorem flatMap_flat_ne_nil (hne : ps ≠ []) (hvalid : ∀ p ∈ ps, p.Valid inQuant) : ps'.flatMap (flat conj) ≠ [] := by
  have hvalid' := valid_of_replaces h hvalid
  obtain ⟨p, rest, rfl⟩ := List.exists_cons_of_ne_nil hne
  cases h with
  | cons hp hrest =>
    rw [List.flatMap_cons]
    exact List.append_ne_nil_of_left_ne_nil (flat_ne_nil (hvalid' _ List.mem_cons_self)) _

/-- A chain, of whose children others take the place. -/
theorem replaces_chain : (chain conj (ps'.flatMap (flat conj))).Replaces (chain conj ps) where
  valid := by
    rintro inQuant ⟨hne, hvalid⟩
    have hvalid' := valid_of_replaces h (allValid_iff.mp hvalid)
    constructor
    · exact flatMap_flat_ne_nil h hne (allValid_iff.mp hvalid)
    · apply allValid_iff.mpr
      intro q hq
      obtain ⟨p', hp', hq⟩ := List.mem_flatMap.mp hq
      exact valid_of_mem_flat (hvalid' p' hp') hq
  loaded := by
    rw [Each, Each, allEach_iff, allEach_iff, ← forall_loaded_iff h, List.forall_mem_flatMap]
    exact forall₂_congr fun p' _ => forall_flat_each
  own := by
    intro hown
    have hown' := own_of_replaces h (allOwn_iff.mp hown)
    exact allOwn_iff.mpr (List.forall_mem_flatMap.mpr fun p' hp' q hq => own_of_mem_flat (hown' p' hp') hq)
  eval := by
    intro inQuant hvalid hown scope
    rw [eval_chain, eval_chain, scan_flatMap fun p' _ => scan_flat scope]
    exact scan_of_replaces h (allValid_iff.mp hvalid.2) (allOwn_iff.mp hown) scope

end Chains

end Form

section Canonical

variable {n : ℕ} {lit : Json} {args : List Json} {name : String}

/-- A node that is neither set nor chain goes to the generator. -/
theorem canonical_other (h : name ∉ ["in", "and", "or"]) : canonical (n + 1) (.list (.str name :: args)) =
    generated n (.str name :: args) >>= fun cs => .ok (.list cs) := by
  simp only [List.mem_cons, List.not_mem_nil, or_false, not_or] at h
  rw [canonical, canonicalStep.eq_def]
  split
  next heq => exact absurd (Json.str.inj (List.cons.inj (Json.list.inj heq)).1) h.1
  next heq =>
    obtain ⟨hname, rfl⟩ := List.cons.inj (Json.list.inj heq)
    obtain rfl := Json.str.inj hname
    rw [if_neg (not_or.mpr h.2)]
    rfl
  next hnone heq =>
    obtain rfl := Json.list.inj heq
    exact absurd rfl (hnone _ _)
  next hnone => exact absurd rfl (hnone _)

/-- A chain. -/
theorem canonical_chain (conj : Bool) : canonical (n + 1) (.list (.str (chainOp conj).text :: args)) =
    args.mapM (canonical n) >>= fun cs =>
      .ok (.list (.str (chainOp conj).text :: cs.flatMap (splice (chainOp conj).text))) := by
  rw [canonical, canonicalStep.eq_def]
  cases conj <;> rfl

/-- A scalar is canonical. -/
theorem canonical_scalar (h : isScalar lit = true) : canonical (n + 1) lit = .ok lit := by
  cases lit with
  | list xs => cases h
  | _ => rw [canonical, canonicalStep.eq_def]

/-- Scalars are canonical. -/
theorem mapM_scalars (h : ∀ lit ∈ args, isScalar lit = true) : args.mapM (canonical (n + 1)) = .ok args := by
  induction args with
  | nil => rfl
  | cons lit args ih =>
    obtain ⟨hlit, hargs⟩ := List.forall_mem_cons.mp h
    rw [List.mapM_cons, canonical_scalar hlit, ih hargs]
    rfl

/-- A node with scalars after its operator is canonical, if there is room. -/
theorem canonical_leaf (hname : name ∉ ["in", "and", "or"]) (h : ∀ lit ∈ args, isScalar lit = true) :
    canonical n (.list (.str name :: args)) = if 3 ≤ n then .ok (.list (.str name :: args)) else .error .recursion := by
  match n with
  | 0 => rfl
  | 1 => rw [canonical_other hname]; rfl
  | 2 => rw [canonical_other hname, generated, List.mapM_cons]; rfl
  | n + 3 =>
    rw [canonical_other hname, generated, mapM_scalars (List.forall_mem_cons.mpr ⟨rfl, h⟩),
      if_pos (Nat.le_add_left 3 n)]
    rfl

/-- A set. -/
theorem canonical_mem (field : String) (members : List Json) : canonical (n + 1) (Form.mem field members).node =
    canonicalSet (.list members) >>= fun set => .ok (.list [.str "in", .str field, set]) := by
  rw [Form.node, canonical, canonicalStep.eq_def]
  rfl

/-- A quantifier. -/
theorem canonical_quant (every : Bool) (field : String) (p : Form) : canonical (n + 2) (Form.quant every field p).node =
    canonical n p.node >>= fun c => .ok (.list [.str (quantOp every).text, .str field, c]) := by
  have hname : (quantOp every).text ∉ ["in", "and", "or"] := by cases every <;> decide
  rw [Form.node, canonical_other hname, generated, List.mapM_cons, List.mapM_cons, List.mapM_cons, List.mapM_nil]
  cases n with
  | zero => rfl
  | succ n =>
    rw [canonical_scalar rfl, canonical_scalar rfl]
    cases canonical (n + 1) p.node <;> rfl

/-- A negation. -/
theorem canonical_not (p : Form) :
    canonical (n + 2) (Form.not p).node = canonical n p.node >>= fun c => .ok (.list [.str "not", c]) := by
  rw [Form.node, canonical_other (by decide), generated, List.mapM_cons, List.mapM_cons, List.mapM_nil]
  cases n with
  | zero => rfl
  | succ n =>
    rw [canonical_scalar rfl]
    cases canonical (n + 1) p.node <;> rfl

/-- A number is a scalar. -/
theorem isScalar_of_isNumber (h : isNumber lit = true) : isScalar lit = true := by
  cases lit with
  | int => rfl
  | float => rfl
  | _ => cases h

/-- A scalar is plain. -/
theorem plain_of_isScalar (h : isScalar lit = true) : lit.Plain := by
  cases lit with
  | list => cases h
  | dict => cases h
  | _ => trivial

namespace Form

variable {p : Form} {inQuant : Bool}

/-- A comparison is canonical. -/
theorem canonical_compare {op : CmpOp} {field : String} (h : (compare op field lit).Valid inQuant) :
    canonical n (compare op field lit).node = if 3 ≤ n then .ok (compare op field lit).node else .error .recursion := by
  apply canonical_leaf (by cases op <;> decide)
  exact List.forall_mem_cons.mpr ⟨rfl, List.forall_mem_singleton.mpr h.2.1⟩

/-- A length is canonical. -/
theorem canonical_count {op : CmpOp} {field : String} (h : (count field op lit).Valid inQuant) :
    canonical n (count field op lit).node = if 3 ≤ n then .ok (count field op lit).node else .error .recursion := by
  apply canonical_leaf (by decide)
  exact List.forall_mem_cons.mpr
    ⟨rfl, List.forall_mem_cons.mpr ⟨rfl, List.forall_mem_singleton.mpr (isScalar_of_isNumber h.2)⟩⟩

/-- A test that a field is there is canonical. -/
theorem canonical_present (field : String) :
    canonical n (present field).node = if 3 ≤ n then .ok (present field).node else .error .recursion :=
  canonical_leaf (by decide) (by simp [isScalar])

/-- A set in place of another. -/
theorem replaces_mem {field : String} {members members' : List Json} (h : SameSet members' members) :
    (mem field members').Replaces (mem field members) where
  valid := by
    rintro inQuant ⟨hfits, hne, hscalar⟩
    obtain ⟨m, hm⟩ := List.exists_mem_of_ne_nil _ hne
    obtain ⟨m', hm', -⟩ := h.found m hm
    exact ⟨hfits, List.ne_nil_of_mem hm', fun m hm => hscalar m (h.subset hm)⟩
  loaded := by
    refine and_congr_right' ⟨fun hloaded m hm => ?_, fun hloaded m hm => hloaded m (h.subset hm)⟩
    obtain ⟨m', hm', hsame⟩ := h.found m hm
    rw [← Json.loaded_readBack, ← hsame, Json.loaded_readBack]
    exact hloaded m' hm'
  own := fun hown m hm => hown m (h.subset hm)
  eval := by
    intro inQuant _ hown scope
    rw [eval, eval]
    unfold evalMem
    simp only [contains_congr h hown]

/-- A quantifier, of whose child another takes the place. -/
theorem replaces_quant {every : Bool} {field : String} {p' : Form} (h : p'.Replaces p) :
    (quant every field p').Replaces (quant every field p) where
  valid := fun inQuant hvalid => ⟨hvalid.1, h.valid true hvalid.2⟩
  loaded := and_congr_right' h.loaded
  own := h.own
  eval := by
    intro inQuant hvalid hown scope
    have hsame : p'.eval = p.eval := funext (h.eval true hvalid.2 hown)
    rw [eval, eval, hsame]

/-- A negation, of whose child another takes the place. -/
theorem replaces_not {p' : Form} (h : p'.Replaces p) : (not p').Replaces (not p) where
  valid := h.valid
  loaded := h.loaded
  own := h.own
  eval := by
    intro inQuant hvalid hown scope
    rw [eval, eval, h.eval inQuant hvalid hown scope]

/-- The canonical nodes of forms are those of forms in their place. -/
theorem mapM_canonical_spec {ps : List Form} {cs : List Json} (hvalid : ∀ p ∈ ps, p.Valid inQuant)
    (ih : ∀ p ∈ ps, ∀ {c : Json}, p.Valid inQuant → canonical n p.node = .ok c → ∃ p' : Form, p'.Replaces p ∧
      p'.node = c)
    (h : (nodes ps).mapM (canonical n) = .ok cs) : ∃ ps', List.Forall₂ Replaces ps' ps ∧ nodes ps' = cs := by
  induction ps generalizing cs with
  | nil =>
    obtain rfl := Except.ok.inj h
    exact ⟨[], .nil, rfl⟩
  | cons p ps ihps =>
    obtain ⟨hp, hps⟩ := List.forall_mem_cons.mp hvalid
    obtain ⟨ihp, ihs⟩ := List.forall_mem_cons.mp ih
    rw [nodes, List.mapM_cons] at h
    obtain ⟨c, hc, h⟩ := bind_eq_ok h
    obtain ⟨rest, hrest, h⟩ := bind_eq_ok h
    obtain rfl := Except.ok.inj h
    obtain ⟨p', hp', rfl⟩ := ihp hp hc
    obtain ⟨ps', hps', rfl⟩ := ihps hps ihs hrest
    exact ⟨p' :: ps', .cons hp' hps', rfl⟩

/-- A leaf is canonical, if there is room. -/
theorem leaf_spec {P : Prop} [Decidable P] {c : Json}
    (h : (if P then .ok p.node else .error .recursion : Except Raised Json) = .ok c) :
    ∃ p' : Form, p'.Replaces p ∧ p'.node = c := by
  split_ifs at h
  exact ⟨p, .refl p, Except.ok.inj h⟩

/-- The canonical node of a form is that of a form in its place. -/
theorem canonical_spec (p : Form) :
    ∀ {inQuant : Bool} {n : ℕ} {c : Json}, p.Valid inQuant → canonical n p.node = .ok c →
    ∃ p' : Form, p'.Replaces p ∧ p'.node = c := by
  induction p using Form.induct with
  | compare op field lit => exact fun hvalid h => leaf_spec ((canonical_compare hvalid).symm.trans h)
  | mem field members =>
    rintro inQuant (_ | n) c hvalid h
    · cases h
    · rw [canonical_mem] at h
      obtain ⟨set, hset, h⟩ := bind_eq_ok h
      obtain ⟨members', rfl, hsame⟩ := canonicalSet_spec (fun m hm => plain_of_isScalar (hvalid.2.2 m hm)) hset
      exact ⟨mem field members', replaces_mem hsame, Except.ok.inj h⟩
  | quant every field p ih =>
    rintro inQuant (_ | _ | n) c hvalid h
    · cases h
    · cases every <;> cases h
    · rw [canonical_quant] at h
      obtain ⟨c', hc', h⟩ := bind_eq_ok h
      obtain ⟨p', hp', rfl⟩ := ih hvalid.2 hc'
      exact ⟨quant every field p', replaces_quant hp', Except.ok.inj h⟩
  | present field => exact fun _ h => leaf_spec ((canonical_present field).symm.trans h)
  | count field op bound => exact fun hvalid h => leaf_spec ((canonical_count hvalid).symm.trans h)
  | chain conj ps ih =>
    rintro inQuant (_ | n) c hvalid h
    · cases h
    · rw [node, canonical_chain] at h
      obtain ⟨cs, hcs, h⟩ := bind_eq_ok h
      obtain ⟨ps', hps', rfl⟩ := mapM_canonical_spec (allValid_iff.mp hvalid.2) (fun p hp => ih p hp) hcs
      refine ⟨_, replaces_chain hps', ?_⟩
      rw [← Except.ok.inj h, node, nodes_eq_map, nodes_eq_map, List.flatMap_map, List.map_flatMap]
      simp only [splice_node, nodes_eq_map]
  | not p ih =>
    rintro inQuant (_ | _ | n) c hvalid h
    · cases h
    · cases h
    · rw [canonical_not] at h
      obtain ⟨c', hc', h⟩ := bind_eq_ok h
      obtain ⟨p', hp', rfl⟩ := ih hvalid hc'
      exact ⟨not p', replaces_not hp', Except.ok.inj h⟩

/-- The canonical nodes of forms are found if there is room for each. -/
theorem mapM_canonical_returnsIf {ps : List Form} (h : ∀ p ∈ ps, ReturnsIf (p.depth ≤ n) (canonical n p.node)) :
    ReturnsIf (depths ps ≤ n) ((nodes ps).mapM (canonical n)) := by
  induction ps with
  | nil => exact ⟨fun _ => returns_ok [], fun hroom => absurd (Nat.zero_le n) hroom⟩
  | cons p ps ih =>
    obtain ⟨hp, hps⟩ := List.forall_mem_cons.mp h
    rw [nodes, List.mapM_cons, depths, max_le_iff]
    exact hp.bind fun c => (ih hps).bind_returns fun cs => returns_ok _

/-- A form whose literals have texts has a canonical node, if there is room for as many calls as it needs. -/
theorem canonical_returnsIf (p : Form) : ∀ {inQuant : Bool}, p.Valid inQuant → p.Each (fun _ => True) Json.Loaded →
    ∀ n, ReturnsIf (p.depth ≤ n) (canonical n p.node) := by
  have hleaf {node : Json} {n : ℕ} (h : canonical n node = if 3 ≤ n then .ok node else .error .recursion) :
      ReturnsIf (3 ≤ n) (canonical n node) := by
    rw [h]
    split_ifs with hroom
    · exact ⟨fun _ => returns_ok node, fun hless => absurd hroom hless⟩
    · exact returnsIf_error hroom
  induction p using Form.induct with
  | compare op field lit => exact fun hvalid _ n => hleaf (canonical_compare hvalid)
  | mem field members =>
    rintro inQuant hvalid hloaded (_ | n)
    · exact returnsIf_error (by simp [depth])
    · refine ⟨fun _ => ?_, fun hroom => absurd (Nat.le_add_left 1 n) hroom⟩
      rw [canonical_mem]
      exact ((uniq_returns hloaded.2).bind fun items => returns_ok _).bind fun set => returns_ok _
  | quant every field p ih =>
    rintro inQuant hvalid hloaded (_ | _ | n)
    · exact returnsIf_error (by simp [depth])
    · cases every <;> exact returnsIf_error (by simp [depth])
    · rw [canonical_quant, depth, Nat.add_le_add_iff_right]
      exact (ih hvalid.2 hloaded.2 n).bind_returns fun c => returns_ok _
  | present field => exact fun _ _ n => hleaf (canonical_present field)
  | count field op bound => exact fun hvalid _ n => hleaf (canonical_count hvalid)
  | chain conj ps ih =>
    rintro inQuant hvalid hloaded (_ | n)
    · exact returnsIf_error (by simp [depth])
    · rw [node, canonical_chain, depth, Nat.add_le_add_iff_right]
      apply (mapM_canonical_returnsIf fun p hp => ?_).bind_returns fun cs => returns_ok _
      exact ih p hp (allValid_iff.mp hvalid.2 p hp) (allEach_iff.mp hloaded p hp) n
  | not p ih =>
    rintro inQuant hvalid hloaded (_ | _ | n)
    · exact returnsIf_error (by simp [depth])
    · exact returnsIf_error (by simp [depth])
    · rw [canonical_not, depth, Nat.add_le_add_iff_right]
      exact (ih hvalid hloaded n).bind_returns fun c => returns_ok _

/-- So it has a canonical text. -/
theorem canonicalJson_returns (hvalid : p.Valid inQuant) (hloaded : p.Each (fun _ => True) Json.Loaded)
    (hroom : p.depth ≤ n) :
    Returns (canonicalJson n p.node) := by
  obtain ⟨c, hc⟩ := (canonical_returnsIf p hvalid hloaded n).1 hroom
  obtain ⟨p', hp', rfl⟩ := canonical_spec p hvalid hc
  obtain ⟨text, htext⟩ := p'.node.dumps_ok (node_loaded (hp'.loaded.mpr hloaded))
  unfold canonicalJson
  rw [hc, ok_bind, htext]
  exact returns_ok text

end Form

end Canonical

end MyTeam.Legacy.Predicate
