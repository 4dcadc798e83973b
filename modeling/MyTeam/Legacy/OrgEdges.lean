import MyTeam.Legacy.OrgStructure

/-!
# The edges of an organisation

Superiors and subordinates agree if a position has a superior exactly when it is among the subordinates of this.
The edits of edges write both ends, and keep the agreement. Where tasks are delegated to subordinates, a cycle of
superiors would be one of delegations, which the validation excludes.
-/

namespace MyTeam.Legacy

open MyTeam.Py MyTeam.Order Relation

namespace Positions

/-- The superiors and the subordinates of positions agree. -/
def TwoWay (positions : List Position) : Prop :=
  ∀ x p, superiorOf positions x = some p ↔ x ∈ subordinatesOf positions p

variable {positions positions' : List Position} {p q : Position} {f : Position → Position}
  {id x sub manager other : String} {sup : Option String} {semantics : EdgeSemantics}

section Lookup

/-- What is looked up has the id. -/
theorem positionId_of_lookup (h : lookup positions id = some p) : p.positionId = id := by
  simpa using List.find?_some h

/-- What is looked up is a position. -/
theorem mem_of_lookup (h : lookup positions id = some p) : p ∈ positions :=
  List.mem_of_find?_eq_some h

/-- A position is missing. -/
theorem lookup_eq_none : lookup positions id = none ↔ id ∉ positions.map Position.positionId := by
  unfold lookup
  rw [List.find?_eq_none]
  simp

/-- A lookup after a position is stored. -/
theorem lookup_store : lookup (store p positions) x = if x = p.positionId then some p else lookup positions x := by
  unfold lookup
  induction positions with
  | nil =>
    by_cases hx : x = p.positionId
    · simp [store, hx]
    · simp [store, hx, Ne.symm hx]
  | cons q rest ih =>
    rw [store]
    by_cases hq : q.positionId = p.positionId
    · by_cases hx : x = p.positionId
      · simp [hq, hx]
      · simp [hq, hx, Ne.symm hx]
    · rw [if_neg hq, List.find?_cons, List.find?_cons, ih]
      by_cases hx : q.positionId = x
      · have hxp : x ≠ p.positionId := fun heq => hq (hx.trans heq)
        simp [hx, hxp]
      · simp [hx]

/-- The ids after a position is stored. -/
theorem mem_ids_store : x ∈ (store p positions).map Position.positionId ↔
    x = p.positionId ∨ x ∈ positions.map Position.positionId := by
  rw [← not_iff_not, not_or, ← lookup_eq_none, ← lookup_eq_none, lookup_store]
  by_cases hx : x = p.positionId <;> simp [hx]

/-- No id is stored twice. -/
theorem nodup_ids_store (unique : (positions.map Position.positionId).Nodup) :
    ((store p positions).map Position.positionId).Nodup := by
  induction positions with
  | nil => exact List.nodup_singleton p.positionId
  | cons q rest ih =>
    obtain ⟨hnew, hrest⟩ := List.nodup_cons.mp unique
    rw [store]
    split
    next heq =>
      rw [List.map_cons, ← heq]
      exact unique
    next hne =>
      refine List.nodup_cons.mpr ⟨fun hmem => ?_, ih hrest⟩
      obtain heq | hmem := mem_ids_store.mp hmem
      · exact hne heq
      · exact hnew hmem

/-- The positions after one is stored. -/
theorem mem_of_mem_store (h : q ∈ store p positions) : q = p ∨ q ∈ positions := by
  induction positions with
  | nil => exact Or.inl (List.mem_singleton.mp h)
  | cons first rest ih =>
    rw [store] at h
    split at h
    · exact (List.mem_cons.mp h).imp_right (List.mem_cons_of_mem _)
    · obtain rfl | h := List.mem_cons.mp h
      · exact Or.inr List.mem_cons_self
      · exact (ih h).imp_right (List.mem_cons_of_mem _)

/-- A new position comes last. -/
theorem store_of_new (h : lookup positions p.positionId = none) : store p positions = positions ++ [p] := by
  rw [lookup_eq_none] at h
  induction positions with
  | nil => rfl
  | cons q rest ih =>
    rw [List.map_cons, List.mem_cons, not_or] at h
    rw [store, if_neg (Ne.symm h.1), ih h.2, List.cons_append]

/-- The positions that are stored by `bootstrap`. -/
def storeAll (new positions : List Position) : List Position :=
  new.foldl (fun positions p => store p positions) positions

/-- The positions after `bootstrap`. -/
theorem mem_of_mem_storeAll {new : List Position} (h : q ∈ storeAll new positions) : q ∈ positions ++ new := by
  induction new generalizing positions with
  | nil => rwa [List.append_nil]
  | cons p rest ih =>
    obtain h | h := List.mem_append.mp (ih h)
    · obtain rfl | h := mem_of_mem_store h
      · exact List.mem_append_right _ List.mem_cons_self
      · exact List.mem_append_left _ h
    · exact List.mem_append_right _ (List.mem_cons_of_mem _ h)

/-- The ids after `bootstrap`. -/
theorem mem_ids_storeAll {new : List Position} : x ∈ (storeAll new positions).map Position.positionId ↔
    x ∈ (positions ++ new).map Position.positionId := by
  induction new generalizing positions with
  | nil => rw [List.append_nil]; rfl
  | cons p rest ih =>
    refine ih.trans ?_
    rw [List.map_append, List.mem_append, mem_ids_store, List.map_append, List.mem_append, List.map_cons, List.mem_cons,
      or_comm (a := x = p.positionId), or_assoc]

/-- The ids after a position is written. -/
theorem ids_modify (named : ∀ p, (f p).positionId = p.positionId) :
    (modify id f positions).map Position.positionId = positions.map Position.positionId := by
  unfold modify
  rw [List.map_map]
  refine List.map_congr_left fun p _ => ?_
  rw [Function.comp_apply]
  split
  · exact named p
  · rfl

/-- A lookup after a position is written. -/
theorem lookup_modify (named : ∀ p, (f p).positionId = p.positionId) :
    lookup (modify id f positions) x = if x = id then (lookup positions x).map f else lookup positions x := by
  unfold lookup modify
  rw [List.find?_map]
  have hsame : ((fun p : Position => decide (p.positionId = x)) ∘ fun p => if p.positionId = id then f p else p) =
      fun p => decide (p.positionId = x) := by
    funext p
    rw [Function.comp_apply]
    split
    · rw [named]
    · rfl
  rw [hsame]
  cases hfind : positions.find? fun p => p.positionId = x with
  | none => simp
  | some p =>
    obtain rfl : p.positionId = x := positionId_of_lookup hfind
    rw [Option.map_some]
    split <;> simp

end Lookup

section Edges

/-- A position with an edge is there. -/
theorem lookup_of_superiorOf (h : superiorOf positions x = some id) :
    ∃ p, lookup positions x = some p ∧ p.superiorId = some id :=
  Option.bind_eq_some_iff.mp h

/-- The subordinates of a position that is there. -/
theorem mem_subordinatesOf :
    x ∈ subordinatesOf positions id ↔ ∃ p, lookup positions id = some p ∧ x ∈ p.subordinateIds := by
  unfold subordinatesOf
  cases lookup positions id <;> simp

/-- A position is named. -/
theorem mem_ids_of_lookup (h : lookup positions x = some p) : x ∈ positions.map Position.positionId := by
  by_contra hmissing
  rw [lookup_eq_none.mpr hmissing] at h
  cases h

/-- Without dangling edges it is enough to compare the positions. -/
theorem twoWay_of_ids (attached : ∀ p ∈ positions, ∀ t ∈ p.targets, t ∈ positions.map Position.positionId)
    (h : ∀ x ∈ positions.map Position.positionId, ∀ p ∈ positions.map Position.positionId,
      (superiorOf positions x = some p ↔ x ∈ subordinatesOf positions p)) : TwoWay positions := by
  intro x p
  constructor
  · intro hsuperior
    obtain ⟨q, hq, hedge⟩ := lookup_of_superiorOf hsuperior
    have htarget : p ∈ q.targets := List.mem_append_left _ (List.mem_append_left _ (by simp [hedge]))
    exact (h x (mem_ids_of_lookup hq) p (attached q (mem_of_lookup hq) p htarget)).mp hsuperior
  · intro hmem
    obtain ⟨q, hq, hedge⟩ := mem_subordinatesOf.mp hmem
    have htarget : x ∈ q.targets := List.mem_append_left _ (List.mem_append_right _ hedge)
    exact (h x (attached q (mem_of_lookup hq) x htarget) p (mem_ids_of_lookup hq)).mpr hmem

/-- The superiors after a position is written. -/
theorem superiorOf_modify (named : ∀ p, (f p).positionId = p.positionId) : superiorOf (modify id f positions) x =
    if x = id then (lookup positions x).bind fun p => (f p).superiorId else superiorOf positions x := by
  unfold superiorOf
  rw [lookup_modify named]
  split
  · cases lookup positions x <;> rfl
  · rfl

/-- The subordinates after a position is written. -/
theorem mem_subordinatesOf_modify (named : ∀ p, (f p).positionId = p.positionId) : x ∈
    subordinatesOf (modify id f positions) sub ↔
    if sub = id then ∃ p, lookup positions sub = some p ∧ x ∈ (f p).subordinateIds
      else x ∈ subordinatesOf positions sub := by
  simp only [mem_subordinatesOf, lookup_modify named]
  split <;> simp

/-- The ids after the old superior lost the subordinate. -/
theorem ids_leaveSuperior {old : Option String} :
    (leaveSuperior sub sup old positions).map Position.positionId = positions.map Position.positionId := by
  unfold leaveSuperior
  split
  · rfl
  · split
    · rfl
    · exact ids_modify fun _ => rfl

/-- The ids after the new superior got the subordinate. -/
theorem ids_joinSuperior :
    (joinSuperior sub sup positions).map Position.positionId = positions.map Position.positionId := by
  unfold joinSuperior
  split
  · rfl
  · refine ids_modify fun p => ?_
    unfold Position.addSubordinate
    split <;> rfl

/-- The ids after `_link_superior`. -/
theorem ids_linkSuperior (h : linkSuperior sub sup positions = .ok positions') :
    positions'.map Position.positionId = positions.map Position.positionId := by
  unfold linkSuperior at h
  split at h
  · cases h
  · split at h
    · cases h
    · split at h
      · cases h
      · obtain rfl := Except.ok.inj h
        rw [ids_joinSuperior, ids_modify (f := Position.withSuperior sup) fun _ => rfl, ids_leaveSuperior]

/-- No position becomes its own superior. -/
theorem ne_of_linkSuperior (h : linkSuperior sub sup positions = .ok positions') : sup ≠ some sub := by
  unfold linkSuperior at h
  split at h
  · cases h
  next hself => exact hself

/-- The ids after `remove_subordinate`. -/
theorem ids_unlinkSubordinate (h : unlinkSubordinate manager sub positions = .ok positions') :
    positions'.map Position.positionId = positions.map Position.positionId := by
  unfold unlinkSubordinate at h
  split at h
  · cases h
  · obtain rfl := Except.ok.inj h
    rw [ids_modify (f := Position.dropSuperior manager) fun _ => rfl,
      ids_modify (f := Position.dropSubordinate sub) fun _ => rfl]

/-- A position that gets a collaborator keeps its id and its other edges. -/
theorem same_addCollaborator : (p.addCollaborator other).positionId = p.positionId ∧
    (p.addCollaborator other).superiorId = p.superiorId ∧
    (p.addCollaborator other).subordinateIds = p.subordinateIds := by
  unfold Position.addCollaborator
  split <;> exact ⟨rfl, rfl, rfl⟩

/-- What `add_collaborator` writes. -/
theorem eq_of_linkCollaborator (h : linkCollaborator id other positions = .ok positions') :
    positions' = modify id (Position.addCollaborator other) positions := by
  unfold linkCollaborator at h
  split at h
  · cases h
  · exact (Except.ok.inj h).symm

/-- What `remove_collaborator` writes. -/
theorem eq_of_unlinkCollaborator (h : unlinkCollaborator id other positions = .ok positions') :
    positions' = modify id (Position.dropCollaborator other) positions := by
  unfold unlinkCollaborator at h
  split at h
  · cases h
  · exact (Except.ok.inj h).symm

/-- The ids after `add_collaborator`. -/
theorem ids_linkCollaborator (h : linkCollaborator id other positions = .ok positions') :
    positions'.map Position.positionId = positions.map Position.positionId := by
  rw [eq_of_linkCollaborator h, ids_modify fun p => same_addCollaborator.1]

/-- The ids after `remove_collaborator`. -/
theorem ids_unlinkCollaborator (h : unlinkCollaborator id other positions = .ok positions') :
    positions'.map Position.positionId = positions.map Position.positionId := by
  rw [eq_of_unlinkCollaborator h, ids_modify (f := Position.dropCollaborator other) fun _ => rfl]

/-- An edit of an edge: the position has the superior now, the others have theirs, and both ends agree. -/
structure Linked (sub : String) (sup : Option String) (positions positions' : List Position) : Prop where
  superiorOf : ∀ x, superiorOf positions' x = if x = sub then sup else superiorOf positions x
  twoWay : TwoWay positions'

/-- The old superior loses the subordinate. -/
theorem left_of_leaveSuperior (twoWay : TwoWay positions) :
    (∀ x, superiorOf (leaveSuperior sub sup (superiorOf positions sub) positions) x = superiorOf positions x) ∧
      ∀ x p, x ∈ subordinatesOf (leaveSuperior sub sup (superiorOf positions sub) positions) p ↔
        x ∈ subordinatesOf positions p ∧ (x = sub → some p = sup) := by
  unfold leaveSuperior
  cases hold : superiorOf positions sub with
  | none =>
    refine ⟨fun x => rfl, fun x p => (and_iff_left_of_imp fun hmem hx => ?_).symm⟩
    subst hx
    rw [(twoWay x p).mpr hmem] at hold
    cases hold
  | some old =>
    dsimp only
    have hchief : ∀ p, sub ∈ subordinatesOf positions p ↔ p = old := fun p => by
      rw [← twoWay, hold, Option.some_inj, eq_comm]
    split
    next hsame =>
      refine ⟨fun x => rfl, fun x p => (and_iff_left_of_imp fun hmem hx => ?_).symm⟩
      subst hx
      rw [(hchief p).mp hmem, hsame]
    next hother =>
      refine ⟨fun x => ?_, fun x p => ?_⟩
      · rw [superiorOf_modify (f := Position.dropSubordinate sub) fun _ => rfl]
        split <;> rfl
      · rw [mem_subordinatesOf_modify (f := Position.dropSubordinate sub) fun _ => rfl]
        by_cases hp : p = old
        · subst hp
          rw [if_pos rfl]
          simp only [Position.dropSubordinate, List.mem_filter, decide_eq_true_eq, mem_subordinatesOf, hother,
            imp_false, ne_eq]
          exact ⟨fun ⟨q, hq, hx, hne⟩ => ⟨⟨q, hq, hx⟩, hne⟩, fun ⟨⟨q, hq, hx⟩, hne⟩ => ⟨q, hq, hx, hne⟩⟩
        · rw [if_neg hp]
          refine (and_iff_left_of_imp fun hmem hx => ?_).symm
          subst hx
          exact absurd ((hchief p).mp hmem) hp

/-- A position that comes to the subordinates keeps its superior and its id. -/
theorem same_addSubordinate : (p.addSubordinate sub).positionId = p.positionId ∧
    (p.addSubordinate sub).superiorId = p.superiorId := by
  unfold Position.addSubordinate
  split <;> exact ⟨rfl, rfl⟩

/-- The subordinates after one comes to them. -/
theorem mem_addSubordinate : x ∈ (p.addSubordinate sub).subordinateIds ↔ x ∈ p.subordinateIds ∨ x = sub := by
  unfold Position.addSubordinate
  split
  next hmem => exact (or_iff_left_of_imp fun hx => hx ▸ hmem).symm
  · simp

/-- The new superior gets the subordinate. -/
theorem joined_of_joinSuperior (present : ∀ id ∈ sup, lookup positions id ≠ none) :
    (∀ x, superiorOf (joinSuperior sub sup positions) x = superiorOf positions x) ∧
      ∀ x p, x ∈ subordinatesOf (joinSuperior sub sup positions) p ↔
      x ∈ subordinatesOf positions p ∨ x = sub ∧ sup = some p := by
  unfold joinSuperior
  cases sup with
  | none => exact ⟨fun x => rfl, fun x p => by simp⟩
  | some id =>
    have hnamed : ∀ p : Position, (p.addSubordinate sub).positionId = p.positionId := fun _ => same_addSubordinate.1
    refine ⟨fun x => ?_, fun x p => ?_⟩
    · rw [superiorOf_modify hnamed]
      simp only [same_addSubordinate.2]
      split <;> rfl
    · rw [mem_subordinatesOf_modify hnamed, Option.some_inj]
      split
      next hp =>
        subst hp
        obtain ⟨q, hq⟩ := Option.ne_none_iff_exists'.mp (present p rfl)
        simp [mem_addSubordinate, mem_subordinatesOf, hq]
      next hp => exact (or_iff_left fun h => hp h.2.symm).symm

/-- `_link_superior` writes both ends. -/
theorem linked_of_linkSuperior (twoWay : TwoWay positions) (h : linkSuperior sub sup positions = .ok positions') :
    Linked sub sup positions positions' := by
  unfold linkSuperior at h
  split at h
  · cases h
  · split at h
    · cases h
    next hsup =>
      split at h
      · cases h
      next pos hpos =>
        obtain rfl := Except.ok.inj h
        have hold : superiorOf positions sub = pos.superiorId := by
          unfold superiorOf
          rw [hpos, Option.bind_some]
        obtain ⟨hsuperior, hsubordinates⟩ := @left_of_leaveSuperior positions sub sup twoWay
        have hids := @ids_leaveSuperior positions sub sup pos.superiorId
        rw [hold] at hsuperior hsubordinates
        generalize leaveSuperior sub sup pos.superiorId positions = unlinked at hids hsuperior hsubordinates
        have hpresent (x : String) (hx : lookup positions x ≠ none) : lookup unlinked x ≠ none := by
          rw [ne_eq, lookup_eq_none] at hx ⊢
          rwa [hids]
        have hpointed (x : String) : lookup (modify sub (Position.withSuperior sup) unlinked) x ≠ none ↔
            lookup unlinked x ≠ none := by
          rw [ne_eq, lookup_eq_none, ids_modify (f := Position.withSuperior sup) fun _ => rfl, ← lookup_eq_none]
        obtain ⟨hsuperior', hsubordinates'⟩ := @joined_of_joinSuperior
          (modify sub (Position.withSuperior sup) unlinked) sub sup fun id hid =>
            (hpointed id).mpr (hpresent id fun hnone => by
              rw [Option.mem_def] at hid
              simp [hid, hnone] at hsup)
        have hsuperior'' (x : String) :
            superiorOf (joinSuperior sub sup (modify sub (Position.withSuperior sup) unlinked)) x =
            if x = sub then sup else superiorOf positions x := by
          rw [hsuperior', superiorOf_modify (f := Position.withSuperior sup) fun _ => rfl]
          split
          next hx =>
            obtain ⟨q, hq⟩ := Option.ne_none_iff_exists'.mp (hpresent sub (hpos ▸ Option.some_ne_none pos))
            rw [hx, hq]
            rfl
          · exact hsuperior x
        refine ⟨hsuperior'', fun x p => ?_⟩
        have hsubordinatesOf : x ∈ subordinatesOf (modify sub (Position.withSuperior sup) unlinked) p ↔
            x ∈ subordinatesOf unlinked p := by
          rw [mem_subordinatesOf_modify (f := Position.withSuperior sup) fun _ => rfl, mem_subordinatesOf]
          split <;> rfl
        rw [hsuperior'', hsubordinates', hsubordinatesOf, hsubordinates]
        by_cases hx : x = sub
        · subst hx
          rw [if_pos rfl]
          constructor
          · exact fun hsup => Or.inr ⟨rfl, hsup⟩
          · rintro (⟨-, hsup⟩ | ⟨-, hsup⟩)
            · exact (hsup rfl).symm
            · exact hsup
        · rw [if_neg hx, twoWay x p]
          simp [hx]

/-- `remove_subordinate` writes both ends: the edge is gone, if there was one. -/
theorem linked_of_unlinkSubordinate (twoWay : TwoWay positions)
    (h : unlinkSubordinate manager sub positions = .ok positions') :
    Linked sub ((superiorOf positions sub).filter (· ≠ manager)) positions positions' := by
  unfold unlinkSubordinate at h
  split at h
  · cases h
  next hpresent =>
    obtain ⟨hmanager, hsub⟩ := not_or.mp hpresent
    obtain rfl := Except.ok.inj h
    obtain ⟨q, hq⟩ : ∃ q, lookup positions sub = some q :=
      Option.ne_none_iff_exists'.mp (by simpa using hsub)
    have hsame (x : String) :
        superiorOf (modify manager (Position.dropSubordinate sub) positions) x = superiorOf positions x := by
      rw [superiorOf_modify (f := Position.dropSubordinate sub) fun _ => rfl]
      split <;> rfl
    have hsuperior (x : String) : superiorOf
        (modify sub (Position.dropSuperior manager) (modify manager (Position.dropSubordinate sub) positions)) x =
          if x = sub then (superiorOf positions sub).filter (· ≠ manager) else superiorOf positions x := by
      rw [superiorOf_modify (f := Position.dropSuperior manager) fun _ => rfl, hsame]
      split
      next hx =>
        subst hx
        rw [lookup_modify (f := Position.dropSubordinate x) fun _ => rfl]
        unfold superiorOf
        rw [hq]
        split <;> rfl
      · rfl
    refine ⟨hsuperior, fun x p => ?_⟩
    have hsubordinates : x ∈ subordinatesOf
        (modify sub (Position.dropSuperior manager) (modify manager (Position.dropSubordinate sub) positions)) p ↔
          x ∈ subordinatesOf positions p ∧ (p = manager → x ≠ sub) := by
      have hpointed : ∀ p : Position, (p.dropSuperior manager).subordinateIds = p.subordinateIds := fun _ => rfl
      rw [mem_subordinatesOf_modify (f := Position.dropSuperior manager) fun _ => rfl]
      simp only [hpointed, ← mem_subordinatesOf, ite_self]
      rw [mem_subordinatesOf_modify (f := Position.dropSubordinate sub) fun _ => rfl]
      split
      next hp => simp [Position.dropSubordinate, mem_subordinatesOf, hp, ← and_assoc, exists_and_right]
      next hp => simp [hp]
    rw [hsuperior, hsubordinates]
    by_cases hx : x = sub
    · subst hx
      rw [if_pos rfl, Option.filter_eq_some_iff, twoWay]
      simp
    · rw [if_neg hx, twoWay]
      simp [hx]

/-- A lookup after a position is removed. -/
theorem lookup_remove : lookup (remove id positions) x =
    if x = id then none else (lookup positions x).map fun p =>
      ((p.dropSuperior id).dropSubordinate id).dropCollaborator id := by
  unfold lookup remove
  rw [List.find?_map, List.find?_filter]
  by_cases hx : x = id
  · subst hx
    rw [if_pos rfl, Option.map_eq_none_iff, List.find?_eq_none]
    intro p _
    simp [Position.dropSuperior, Position.dropSubordinate, Position.dropCollaborator]
  · rw [if_neg hx]
    congr 2
    funext p
    by_cases hp : p.positionId = x
    · simp [Position.dropSuperior, Position.dropSubordinate, Position.dropCollaborator, hp, hx]
    · simp [Position.dropSuperior, Position.dropSubordinate, Position.dropCollaborator, hp]

/-- The superiors after a position is removed. -/
theorem superiorOf_remove : superiorOf (remove id positions) x =
    if x = id then none else (superiorOf positions x).filter (· ≠ id) := by
  unfold superiorOf
  rw [lookup_remove]
  split
  · rfl
  · cases lookup positions x <;> rfl

/-- No id is there twice after a position is removed. -/
theorem nodup_ids_remove (unique : (positions.map Position.positionId).Nodup) :
    ((remove id positions).map Position.positionId).Nodup := by
  unfold remove
  rw [List.map_map]
  exact unique.sublist (List.filter_sublist.map _)

/-- The superiors after a position is stored. -/
theorem superiorOf_store :
    superiorOf (store p positions) x = if x = p.positionId then p.superiorId else superiorOf positions x := by
  unfold superiorOf
  rw [lookup_store]
  split <;> rfl

/-- The subordinates after a position is stored. -/
theorem subordinatesOf_store :
    subordinatesOf (store p positions) x = if x = p.positionId then p.subordinateIds
      else subordinatesOf positions x := by
  unfold subordinatesOf
  rw [lookup_store]
  split <;> rfl

/-- A new position that names no other keeps the agreement. -/
theorem twoWay_store (twoWay : TwoWay positions)
    (attached : ∀ p ∈ positions, ∀ t ∈ p.targets, t ∈ positions.map Position.positionId)
    (new : lookup positions p.positionId = none) (superior : p.superiorId = none)
    (subordinates : p.subordinateIds = []) :
    TwoWay (store p positions) := by
  intro x q
  rw [superiorOf_store, subordinatesOf_store]
  by_cases hx : x = p.positionId
  · rw [if_pos hx, superior]
    refine iff_of_false (Option.some_ne_none q).symm fun hmem => ?_
    split at hmem
    · exact absurd hmem (subordinates ▸ List.not_mem_nil)
    · have hnone : superiorOf positions x = none := by rw [superiorOf, hx, new, Option.bind_none]
      rw [(twoWay x q).mpr hmem] at hnone
      cases hnone
  · rw [if_neg hx]
    by_cases hq : q = p.positionId
    · rw [if_pos hq, subordinates]
      refine iff_of_false (fun hsuperior => ?_) List.not_mem_nil
      obtain ⟨r, hr, hedge⟩ := lookup_of_superiorOf hsuperior
      have htarget : q ∈ r.targets := by
        unfold Position.targets
        rw [hedge]
        exact List.mem_append_left _ (List.mem_append_left _ List.mem_cons_self)
      exact lookup_eq_none.mp new (hq ▸ attached r (mem_of_lookup hr) q htarget)
    · rw [if_neg hq]
      exact twoWay x q

/-- The removal of a position keeps the agreement. -/
theorem twoWay_remove (twoWay : TwoWay positions) : TwoWay (remove id positions) := by
  intro x p
  rw [superiorOf_remove]
  have hsubordinates : x ∈ subordinatesOf (remove id positions) p ↔
      p ≠ id ∧ x ≠ id ∧ x ∈ subordinatesOf positions p := by
    rw [mem_subordinatesOf, lookup_remove]
    by_cases hp : p = id
    · simp [hp]
    · rw [if_neg hp, mem_subordinatesOf]
      simp only [Option.map_eq_some_iff, exists_exists_and_eq_and, Position.dropCollaborator, Position.dropSubordinate,
        Position.dropSuperior, List.mem_filter, decide_eq_true_eq, ne_eq, hp, not_false_eq_true, true_and]
      exact ⟨fun ⟨q, hq, hmem, hx⟩ => ⟨hx, q, hq, hmem⟩, fun ⟨hx, q, hq, hmem⟩ => ⟨q, hq, hmem, hx⟩⟩
  rw [hsubordinates, ← twoWay]
  by_cases hx : x = id
  · simp [hx]
  · rw [if_neg hx, Option.filter_eq_some_iff]
    simp [hx, and_comm]

/-- A position is written, but not its superior or its subordinates. -/
theorem twoWay_modify (twoWay : TwoWay positions) (named : ∀ p, (f p).positionId = p.positionId)
    (superior : ∀ p, (f p).superiorId = p.superiorId) (subordinates : ∀ p, (f p).subordinateIds = p.subordinateIds) :
    TwoWay (modify id f positions) ∧ superiorOf (modify id f positions) = superiorOf positions := by
  have hsuperior : superiorOf (modify id f positions) = superiorOf positions := by
    funext x
    rw [superiorOf_modify named]
    simp only [superior]
    split <;> rfl
  refine ⟨fun x p => ?_, hsuperior⟩
  rw [hsuperior, twoWay, mem_subordinatesOf_modify named]
  simp only [subordinates, ← mem_subordinatesOf, ite_self]

end Edges

section Chains

/-- Finitely many positions have a superior. -/
theorem finite_superiorOf : {x | superiorOf positions x ≠ none}.Finite := by
  refine (List.finite_toSet (positions.map Position.positionId)).subset fun x hx => ?_
  by_contra hmissing
  exact hx (by rw [superiorOf, lookup_eq_none.mpr hmissing, Option.bind_none])

/-- The chain of superiors of each position comes to an end. -/
theorem exists_climbs (acyclic : Acyclic (superiorOf positions)) (x : String) :
    ∃ l, Climbs (superiorOf positions) (some x) l :=
  (acyclic.exists_climbs finite_superiorOf x).imp fun _ h => h.1

/-- Tasks are delegated to subordinates, and so superiors have no cycle. -/
theorem acyclic_of_governed (twoWay : TwoWay positions) (governed : Governed positions semantics)
    (delegates : semantics.orDefault.delegates .subordinate = true) : Acyclic (superiorOf positions) := by
  have hedge (x p : String) (h : IsChild (superiorOf positions) x p) :
      x ∈ delegationGraph positions semantics.orDefault p := by
    obtain ⟨q, hq, hx⟩ := mem_subordinatesOf.mp ((twoWay x p).mp h)
    refine mem_delegationGraph.mpr ⟨q, mem_of_lookup hq, positionId_of_lookup hq, ?_⟩
    unfold Position.delegatees
    rw [delegates]
    exact List.mem_append_left _ hx
  intro x hcycle
  exact governed.monotone x (TransGen.mono (fun a b hab => hedge b a hab) x x (transGen_swap.mpr hcycle))

/-- Positions that have no edges but those of positions that keep to the rules. -/
theorem governed_mono (governed : Governed positions semantics)
    (ids : ∀ id ∈ positions.map Position.positionId, id ∈ positions'.map Position.positionId)
    (edges : ∀ q ∈ positions', ∃ p ∈ positions, p.positionId = q.positionId ∧ p.targets = q.targets ∧
      p.delegatees semantics.orDefault = q.delegatees semantics.orDefault) : Governed positions' semantics := by
  refine ⟨fun q hq t ht => ?_, fun a hcycle => governed.monotone a (TransGen.mono (fun a b hab => ?_) a a hcycle)⟩
  · obtain ⟨p, hp, -, htargets, -⟩ := edges q hq
    exact ids t (governed.attached p hp t (htargets ▸ ht))
  · obtain ⟨q, hq, hname, hedge⟩ := mem_delegationGraph.mp hab
    obtain ⟨p, hp, hsame, -, hdelegatees⟩ := edges q hq
    exact mem_delegationGraph.mpr ⟨p, hp, hsame.trans hname, hdelegatees ▸ hedge⟩

/-- Positions that are installed keep to the rules if all of them do together. -/
theorem governed_storeAll {new : List Position} (governed : Governed (positions ++ new) semantics) :
    Governed (storeAll new positions) semantics :=
  governed_mono governed (fun _ => mem_ids_storeAll.mpr) fun q hq => ⟨q, mem_of_mem_storeAll hq, rfl, rfl, rfl⟩

/-- A new description changes no edge. -/
theorem governed_withJd {jd : String} (governed : Governed positions semantics) :
    Governed (modify id (Position.withJd jd) positions) semantics := by
  have hids := @ids_modify positions (Position.withJd jd) id fun _ => rfl
  refine governed_mono governed (fun x hx => hids ▸ hx) fun q hq => ?_
  obtain ⟨p, hp, rfl⟩ := List.mem_map.mp hq
  refine ⟨p, hp, ?_⟩
  split <;> exact ⟨rfl, rfl, rfl⟩

end Chains

end Positions

end MyTeam.Legacy
