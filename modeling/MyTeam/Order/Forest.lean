import Mathlib.Order.WellFoundedSet

/-!
# Forests

A forest is given twice, by the parent of each node and by the children of each. The two agree if a
node is among the children of another exactly once when this is its parent, and never otherwise. If
no node is its own ancestor and finitely many have a parent, walks in the forest end: the one that
climbs from a node to its root, and the one that visits all nodes below a node, with a stack.
-/

namespace MyTeam.Order

open Relation

variable {α : Type*} {parent parent' : α → Option α} {children children' : α → List α} {a b c p t x y : α}
  {stack l l' : List α}

/-- A node is a child of another by its parent. -/
def IsChild (parent : α → Option α) (c p : α) : Prop :=
  parent c = some p

/-- A child has one parent. -/
theorem IsChild.unique (h : IsChild parent c p) (h' : IsChild parent c t) : p = t :=
  Option.some_injective _ (h.symm.trans h')

/-- The ancestors of a node, and the node itself, are in a line. -/
theorem ancestors_linear (h : ReflTransGen (IsChild parent) x a) (h' : ReflTransGen (IsChild parent) x b) :
    ReflTransGen (IsChild parent) a b ∨ ReflTransGen (IsChild parent) b a :=
  ReflTransGen.total_of_right_unique (fun _ _ _ hp ht => hp.unique ht) h h'

/-- No node is its own ancestor. -/
def Acyclic (parent : α → Option α) : Prop :=
  ∀ a, ¬TransGen (IsChild parent) a a

/-- An edge back to an ancestor closes a cycle. -/
theorem Acyclic.not_child (h : Acyclic parent) (hancestor : ReflTransGen (IsChild parent) p c) : ¬IsChild parent c p :=
  fun hchild => h c (TransGen.head' hchild hancestor)

/-- A walk up: the nodes from one to its root. -/
inductive Climbs (parent : α → Option α) : Option α → List α → Prop
  | root : Climbs parent none []
  | up {a : α} {l : List α} : Climbs parent (parent a) l → Climbs parent (some a) (a :: l)

/-- A walk down with a stack: a node is taken from the stack, and its children are put on it, the last one on top. -/
inductive Visits (children : α → List α) : List α → List α → Prop
  | done : Visits children [] []
  | pop {a : α} {stack l : List α} :
      Visits children ((children a).reverse ++ stack) l → Visits children (a :: stack) (a :: l)

/-- What is below in the stack is visited after what is above. -/
theorem Visits.append {stack' : List α} (h : Visits children stack l) (h' : Visits children stack' l') :
    Visits children (stack ++ stack') (l ++ l') := by
  induction h with
  | done => exact h'
  | pop _ ih =>
    rw [List.append_assoc] at ih
    exact .pop ih

/-- A path with a new edge either does without it, or leads from its start and to its end. -/
theorem transGen_link (new : ∀ a b, IsChild parent' a b → IsChild parent a b ∨ a = c ∧ b = p)
    (h : TransGen (IsChild parent') a b) : TransGen (IsChild parent) a b ∨
      ReflTransGen (IsChild parent) a c ∧ ReflTransGen (IsChild parent) p b := by
  induction h with
  | single hab =>
    obtain hab | ⟨rfl, rfl⟩ := new _ _ hab
    · exact Or.inl (.single hab)
    · exact Or.inr ⟨.refl, .refl⟩
  | tail _ hbd ih =>
    obtain hbd | ⟨rfl, rfl⟩ := new _ _ hbd
    · exact ih.imp (fun h => h.tail hbd) (And.imp_right fun h => h.tail hbd)
    · exact Or.inr ⟨ih.elim TransGen.to_reflTransGen And.left, .refl⟩

/-- A new edge to a node that is not below closes no cycle. -/
theorem Acyclic.link (h : Acyclic parent) (new : ∀ a b, IsChild parent' a b → IsChild parent a b ∨ a = c ∧ b = p)
    (hbelow : ¬ReflTransGen (IsChild parent) p c) : Acyclic parent' := by
  intro a hcycle
  obtain hold | ⟨hac, hpa⟩ := transGen_link new hcycle
  · exact h a hold
  · exact hbelow (hpa.trans hac)

/-- Without an edge there are no more cycles. -/
theorem Acyclic.mono (h : Acyclic parent) (old : ∀ a b, IsChild parent' a b → IsChild parent a b) : Acyclic parent' :=
  fun a hcycle => h a (TransGen.mono old a a hcycle)

/-- The nodes that are in an edge. -/
theorem finite_edges (finite : {a | parent a ≠ none}.Finite) :
    {a | parent a ≠ none ∨ ∃ c, IsChild parent c a}.Finite := by
  refine finite.union ((finite.image fun c => (parent c).getD c).subset ?_)
  rintro a ⟨c, hchild⟩
  have hchild : parent c = some a := hchild
  exact ⟨c, by simp [hchild], by simp [hchild]⟩

/-- The walk to the children of nodes, or to their parents, ends. -/
theorem wellFounded_of_edges (finite : {a | parent a ≠ none}.Finite) {r : α → α → Prop}
    (irreflexive : ∀ a, ¬TransGen r a a)
    (edges : ∀ {a b}, r a b → IsChild parent a b ∨ IsChild parent b a) : WellFounded r := by
  have hnode {a b : α} (hab : r a b) : (parent a ≠ none ∨ ∃ c, IsChild parent c a) ∧
      (parent b ≠ none ∨ ∃ c, IsChild parent c b) := by
    have hsome {c p : α} (hchild : IsChild parent c p) : parent c ≠ none := by
      rw [show parent c = some p from hchild]
      exact Option.some_ne_none p
    obtain hchild | hchild := edges hab
    · exact ⟨Or.inl (hsome hchild), Or.inr ⟨_, hchild⟩⟩
    · exact ⟨Or.inr ⟨_, hchild⟩, Or.inl (hsome hchild)⟩
  have hstrict : IsStrictOrder α (TransGen r) := { irrefl := irreflexive, trans := fun _ _ _ => TransGen.trans }
  have hwell := Set.wellFoundedOn_iff.mp (@Set.Finite.wellFoundedOn _ (TransGen r) hstrict _ (finite_edges finite))
  exact Subrelation.wf (fun hab => ⟨TransGen.single hab, hnode hab⟩) hwell

/-- The walk down ends. -/
theorem Acyclic.wellFounded_child (h : Acyclic parent) (finite : {a | parent a ≠ none}.Finite) :
    WellFounded (IsChild parent) :=
  wellFounded_of_edges finite h Or.inl

/-- The walk up ends. -/
theorem Acyclic.wellFounded_parent (h : Acyclic parent) (finite : {a | parent a ≠ none}.Finite) :
    WellFounded fun p c => IsChild parent c p :=
  wellFounded_of_edges finite (fun a hcycle => h a (transGen_swap.mp hcycle)) Or.inr

/-- The walk up from a node reaches its ancestors. -/
theorem Acyclic.exists_climbs (h : Acyclic parent) (finite : {a | parent a ≠ none}.Finite) (a : α) :
    ∃ l, Climbs parent (some a) l ∧ ∀ x, x ∈ l ↔ ReflTransGen (IsChild parent) a x := by
  induction a using (h.wellFounded_parent finite).induction with
  | _ a ih =>
    cases hparent : parent a with
    | none =>
      refine ⟨[a], .up (hparent ▸ .root), fun x => ?_⟩
      rw [List.mem_singleton]
      constructor
      · rintro rfl
        exact .refl
      · intro hancestor
        obtain rfl | ⟨p, hchild, -⟩ := hancestor.cases_head
        · rfl
        · rw [show parent a = some p from hchild] at hparent
          cases hparent
    | some p =>
      obtain ⟨l, hclimbs, hmem⟩ := ih p hparent
      refine ⟨a :: l, .up (hparent ▸ hclimbs), fun x => ?_⟩
      rw [List.mem_cons, hmem]
      constructor
      · rintro (rfl | hancestor)
        · exact .refl
        · exact .head hparent hancestor
      · intro hancestor
        obtain rfl | ⟨q, hchild, hrest⟩ := hancestor.cases_head
        · exact Or.inl rfl
        · exact Or.inr (hchild.unique hparent ▸ hrest)

variable [DecidableEq α]

/-- The parents and the children of nodes agree, no node is its own ancestor, and finitely many have a parent. -/
structure Forest (parent : α → Option α) (children : α → List α) : Prop where
  finite : {a | parent a ≠ none}.Finite
  agree : ∀ p c, (children p).count c = if parent c = some p then 1 else 0
  acyclic : Acyclic parent

namespace Forest

/-- A node is among the children of another exactly if this is its parent. -/
theorem mem_children (h : Forest parent children) : c ∈ children p ↔ IsChild parent c p := by
  rw [← List.count_pos_iff, h.agree]
  unfold IsChild
  split
  next hchild => exact iff_of_true Nat.one_pos hchild
  next hother => exact iff_of_false (Nat.lt_irrefl 0) hother

/-- No node is among the children of another twice. -/
theorem nodup_children (h : Forest parent children) (p : α) : (children p).Nodup := by
  refine List.nodup_iff_count_le_one.mpr fun c => ?_
  rw [h.agree]
  split
  · exact le_rfl
  · exact Nat.zero_le 1

/-- The walk down from a node visits the nodes below it, each of them once. -/
theorem exists_visits (h : Forest parent children) (t : α) :
    ∃ l, Visits children [t] l ∧ l.Nodup ∧ ∀ x, x ∈ l ↔ ReflTransGen (IsChild parent) x t := by
  induction t using (h.acyclic.wellFounded_child h.finite).induction with
  | _ t ih =>
    -- The subtrees of children, from the last one on.
    have hstack : ∀ stack : List α, stack.Nodup → (∀ c ∈ stack, IsChild parent c t) → ∃ l, Visits children stack l ∧
        l.Nodup ∧
        ∀ x, x ∈ l ↔ ∃ c ∈ stack, ReflTransGen (IsChild parent) x c := by
      intro stack hnodup hchildren
      induction stack with
      | nil => exact ⟨[], .done, List.nodup_nil, by simp⟩
      | cons c stack ihstack =>
        obtain ⟨hnew, hrest⟩ := List.nodup_cons.mp hnodup
        obtain ⟨l, hvisits, hl, hmem⟩ := ih c (hchildren c List.mem_cons_self)
        obtain ⟨l', hvisits', hl', hmem'⟩ := ihstack hrest fun d hd => hchildren d (List.mem_cons_of_mem _ hd)
        refine ⟨l ++ l', hvisits.append hvisits', List.nodup_append.mpr ⟨hl, hl', fun x hx y hy => ?_⟩, fun x => ?_⟩
        · rintro rfl
          obtain ⟨d, hd, hbelow⟩ := (hmem' x).mp hy
          have hc := hchildren c List.mem_cons_self
          have hdt := hchildren d (List.mem_cons_of_mem _ hd)
          have hne : c ≠ d := fun hsame => hnew (hsame ▸ hd)
          have hapart {c d : α} (hc : IsChild parent c t) (hd : IsChild parent d t) (hne : c ≠ d)
              (hcd : ReflTransGen (IsChild parent) c d) : False := by
            obtain rfl | ⟨q, hq, hrest⟩ := hcd.cases_head
            · exact hne rfl
            · obtain rfl := hq.unique hc
              exact h.acyclic.not_child hrest hd
          obtain hcd | hdc := ancestors_linear ((hmem x).mp hx) hbelow
          · exact hapart hc hdt hne hcd
          · exact hapart hdt hc hne.symm hdc
        · rw [List.mem_append, hmem, hmem', List.exists_mem_cons_iff]
    obtain ⟨l, hvisits, hl, hmem⟩ := hstack (children t).reverse (List.nodup_reverse.mpr (h.nodup_children t))
      fun c hc => h.mem_children.mp (List.mem_reverse.mp hc)
    refine ⟨t :: l, .pop (by rwa [List.append_nil]), List.nodup_cons.mpr ⟨fun ht => ?_, hl⟩, fun x => ?_⟩
    · obtain ⟨c, hc, hbelow⟩ := (hmem t).mp ht
      exact h.acyclic.not_child hbelow (h.mem_children.mp (List.mem_reverse.mp hc))
    · rw [List.mem_cons, hmem]
      constructor
      · rintro (rfl | ⟨c, hc, hbelow⟩)
        · exact .refl
        · exact hbelow.tail (h.mem_children.mp (List.mem_reverse.mp hc))
      · intro hbelow
        obtain rfl | ⟨c, hrest, hc⟩ := hbelow.cases_tail
        · exact Or.inl rfl
        · exact Or.inr ⟨c, List.mem_reverse.mpr (h.mem_children.mpr hc), hrest⟩

/-- A root becomes a child of a node that is not below it. -/
theorem link (h : Forest parent children) (hroot : parent c = none) (hbelow : ¬ReflTransGen (IsChild parent) p c)
    (hparent : parent' = Function.update parent c (some p))
    (hchildren : ∀ q, children' q = if q = p then children q ++ [c] else children q) : Forest parent' children' := by
  subst hparent
  constructor
  case finite =>
    refine (h.finite.insert c).subset fun a ha => ?_
    by_cases hac : a = c
    · exact Or.inl hac
    · refine Or.inr ?_
      rw [Set.mem_ofPred_eq, Function.update_of_ne hac] at ha
      exact ha
  case agree =>
    intro q d
    rw [hchildren]
    by_cases hdc : d = c
    · subst hdc
      rw [Function.update_self]
      have hnone : (children q).count d = 0 := by rw [h.agree, hroot, if_neg (Option.some_ne_none q).symm]
      by_cases hqp : q = p
      · simp [hqp ▸ hnone, hqp]
      · rw [if_neg hqp, hnone, if_neg fun heq => hqp (Option.some_injective _ heq).symm]
    · rw [Function.update_of_ne hdc]
      have hother : c ≠ d := Ne.symm hdc
      split
      · rw [List.count_append, List.count_singleton, if_neg (by simpa using hother), h.agree, Nat.add_zero]
      · exact h.agree q d
  case acyclic =>
    refine h.acyclic.link (fun a b hab => ?_) hbelow
    unfold IsChild at hab ⊢
    by_cases hac : a = c
    · subst hac
      rw [Function.update_self] at hab
      exact Or.inr ⟨rfl, (Option.some_injective _ hab).symm⟩
    · rw [Function.update_of_ne hac] at hab
      exact Or.inl hab

/-- A child becomes a root. -/
theorem unlink (h : Forest parent children) (hparent : parent' = Function.update parent c none)
    (hchildren : ∀ q, children' q = if parent c = some q then (children q).erase c else children q) :
    Forest parent' children' := by
  subst hparent
  constructor
  case finite =>
    refine h.finite.subset fun a ha => ?_
    rw [Set.mem_ofPred_eq] at ha ⊢
    by_cases hac : a = c
    · rw [hac, Function.update_self] at ha
      exact absurd rfl ha
    · rwa [Function.update_of_ne hac] at ha
  case agree =>
    intro q d
    rw [hchildren]
    by_cases hdc : d = c
    · subst hdc
      rw [Function.update_self, if_neg (Option.some_ne_none q).symm]
      split
      next hq => rw [List.count_erase_self, h.agree, if_pos hq]
      next hq => rw [h.agree, if_neg hq]
    · rw [Function.update_of_ne hdc]
      have hother : d ≠ c := hdc
      split
      · rw [List.count_erase_of_ne hother, h.agree]
      · exact h.agree q d
  case acyclic =>
    refine h.acyclic.mono fun a b hab => ?_
    unfold IsChild at hab ⊢
    by_cases hac : a = c
    · rw [hac, Function.update_self] at hab
      cases hab
    · rwa [Function.update_of_ne hac] at hab

end Forest

end MyTeam.Order
