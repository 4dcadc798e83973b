import MyTeam.Legacy.ContextCompiler
import MyTeam.Order.Stable

/-!
# Memory and the order of sets

The positions of an agent are a set, and what they give is met in the order in which the set is iterated. The
fixed slots do not depend on that order, because they are sorted by priority and entity. The others are sorted by
priority only, so entities of one priority stay in the order in which they are met.
-/

namespace MyTeam.Legacy

open MyTeam.Py MyTeam.Order List

namespace ContextCompiler

variable {raw raw' : List MemoryInjection} {inj i j x y : MemoryInjection} {e : String}

section Best

/-- One more injection. -/
theorem best_concat : best (raw ++ [inj]) = match (best raw).lookup inj.entityId with
    | none => assign inj.entityId inj (best raw)
    | some old => if inj.priority < old.priority then assign inj.entityId inj (best raw) else best raw := by
  rw [best, foldl_append]
  rfl

/-- What is under an entity after one more injection. -/
theorem best_concat_eq : best (raw ++ [inj]) = assign inj.entityId inj (best raw) ∧
      (∀ old, (best raw).lookup inj.entityId = some old → inj.priority < old.priority) ∨
    best (raw ++ [inj]) = best raw ∧ ∃ old, (best raw).lookup inj.entityId = some old ∧
    old.priority ≤ inj.priority := by
  rw [best_concat]
  cases hold : (best raw).lookup inj.entityId with
  | none => exact .inl ⟨rfl, by simp⟩
  | some old =>
    by_cases hlt : inj.priority < old.priority
    · exact .inl ⟨if_pos hlt, by simpa using hlt⟩
    · exact .inr ⟨if_neg hlt, old, rfl, not_lt.mp hlt⟩

/-- No entity counts twice. -/
theorem nodup_best : ((best raw).map Prod.fst).Nodup := by
  induction raw using List.reverseRecOn with
  | nil => exact nodup_nil
  | append_singleton raw inj ih =>
    rcases @best_concat_eq raw inj with ⟨heq, -⟩ | ⟨heq, -⟩
    · exact heq ▸ nodup_keys_assign ih
    · exact heq ▸ ih

/-- Entities count in the order in which they are met. -/
theorem find?_best {p : String → Bool} :
    ((best raw).map Prod.fst).find? p = (raw.map MemoryInjection.entityId).find? p := by
  induction raw using List.reverseRecOn with
  | nil => rfl
  | append_singleton raw inj ih =>
    rw [map_append, find?_append, ← ih]
    by_cases hmem : inj.entityId ∈ (best raw).map Prod.fst
    · have hkeys : (best (raw ++ [inj])).map Prod.fst = (best raw).map Prod.fst := by
        rcases @best_concat_eq raw inj with ⟨heq, -⟩ | ⟨heq, -⟩
        · rw [heq, keys_assign_of_mem hmem]
        · rw [heq]
      rw [hkeys]
      cases hfind : ((best raw).map Prod.fst).find? p with
      | some k => rfl
      | none =>
        have hnot := find?_eq_none.mp hfind _ hmem
        simp [hnot]
    · have hkeys : (best (raw ++ [inj])).map Prod.fst = (best raw).map Prod.fst ++ [inj.entityId] := by
        have hnone := lookup_eq_none_iff_keys.mpr hmem
        rw [best_concat, hnone, assign_of_not_mem hmem, map_append]
        rfl
      rw [hkeys, find?_append]
      rfl

/-- Every entity that is given counts. -/
theorem exists_best (h : i ∈ raw) : ∃ j, (best raw).lookup i.entityId = some j := by
  have hmem : i.entityId ∈ (best raw).map Prod.fst := by
    have hfind := @find?_best raw fun k => k = i.entityId
    have hsome : ((raw.map MemoryInjection.entityId).find? fun k => k = i.entityId).isSome := by
      rw [find?_isSome]
      exact ⟨_, mem_map_of_mem h, by simp⟩
    rw [← hfind] at hsome
    obtain ⟨k, hk⟩ := Option.isSome_iff_exists.mp hsome
    have hkey : k = i.entityId := by simpa using find?_some hk
    exact hkey ▸ mem_of_find?_eq_some hk
  cases hlookup : (best raw).lookup i.entityId with
  | none => exact absurd hmem (lookup_eq_none_iff_keys.mp hlookup)
  | some j => exact ⟨j, rfl⟩

/-- What counts for an entity is the first of those at its lowest priority. -/
theorem lookup_best (h : (best raw).lookup e = some i) :
    i ∈ raw ∧ i.entityId = e ∧ ∀ j ∈ raw, j.entityId = e → i.priority ≤ j.priority := by
  induction raw using List.reverseRecOn generalizing i with
  | nil => cases h
  | append_singleton raw inj ih =>
    rcases @best_concat_eq raw inj with ⟨heq, hlower⟩ | ⟨heq, old, hold, hle⟩
    · rw [heq, lookup_assign] at h
      split at h
      next hsame =>
        obtain rfl := Option.some.inj h
        refine ⟨mem_append_right _ (mem_singleton_self _), hsame.symm, fun j hj hje => ?_⟩
        rcases mem_append.mp hj with hj | hj
        · obtain ⟨old, hold⟩ := exists_best hj
          rw [hje, hsame] at hold
          exact (hlower old hold).le.trans ((ih (hsame ▸ hold)).2.2 j hj hje)
        · rw [mem_singleton.mp hj]
      next hother =>
        obtain ⟨hi, hie, hlowest⟩ := ih h
        refine ⟨mem_append_left _ hi, hie, fun j hj hje => ?_⟩
        rcases mem_append.mp hj with hj | hj
        · exact hlowest j hj hje
        · exact absurd (mem_singleton.mp hj ▸ hje) (Ne.symm hother)
    · rw [heq] at h
      obtain ⟨hi, hie, hlowest⟩ := ih h
      refine ⟨mem_append_left _ hi, hie, fun j hj hje => ?_⟩
      rcases mem_append.mp hj with hj | hj
      · exact hlowest j hj hje
      · obtain rfl := mem_singleton.mp hj
        rw [hje, h] at hold
        exact Option.some.inj hold ▸ hle

end Best

section Awarded

/-- For which position something is given does not count. -/
def anonymous (inj : MemoryInjection) : MemoryInjection := { inj with positionId := "" }

/-- What counts, in the order in which it is met. -/
def awarded (raw : List MemoryInjection) : List MemoryInjection := ((best raw).map Prod.snd).map anonymous

/-- What is given for an entity differs by the priority and the position only. -/
def Uniform (raw : List MemoryInjection) : Prop :=
  ∀ i ∈ raw, ∀ j ∈ raw, i.entityId = j.entityId → i.priority = j.priority → anonymous i = anonymous j

/-- The entities of what counts. -/
theorem ids_awarded : (awarded raw).map MemoryInjection.entityId = (best raw).map Prod.fst := by
  rw [awarded, map_map, map_map]
  apply map_congr_left
  intro entry hentry
  exact (lookup_best (lookup_of_mem nodup_best hentry)).2.1

/-- No entity counts twice. -/
theorem nodup_ids_awarded : ((awarded raw).map MemoryInjection.entityId).Nodup := ids_awarded ▸ nodup_best

/-- Entities count in the order in which they are met. -/
theorem find?_awarded {p : String → Bool} :
    ((awarded raw).map MemoryInjection.entityId).find? p = (raw.map MemoryInjection.entityId).find? p := by
  rw [ids_awarded, find?_best]

/-- What counts is what is given at the lowest priority. -/
theorem mem_awarded (huniform : Uniform raw) : x ∈ awarded raw ↔
    ∃ i ∈ raw, anonymous i = x ∧ ∀ j ∈ raw, j.entityId = i.entityId → i.priority ≤ j.priority := by
  rw [awarded, map_map, mem_map]
  constructor
  · rintro ⟨⟨e, i⟩, hentry, rfl⟩
    obtain ⟨hi, rfl, hlowest⟩ := lookup_best (lookup_of_mem nodup_best hentry)
    exact ⟨i, hi, rfl, hlowest⟩
  · rintro ⟨i, hi, rfl, hlowest⟩
    obtain ⟨j, hj⟩ := exists_best hi
    obtain ⟨hjmem, hje, hlowest'⟩ := lookup_best hj
    have hpriority : j.priority = i.priority := le_antisymm (hlowest' i hi rfl) (hlowest j hjmem hje)
    exact ⟨(i.entityId, j), mem_of_lookup hj, huniform j hjmem i hi hje hpriority⟩

/-- The order in which it is met does not matter to what counts. -/
theorem awarded_perm (huniform : Uniform raw) (hperm : raw.Perm raw') : (awarded raw).Perm (awarded raw') := by
  have huniform' : Uniform raw' := fun i hi j hj => huniform i (hperm.mem_iff.mpr hi) j (hperm.mem_iff.mpr hj)
  refine (perm_ext_iff_of_nodup nodup_ids_awarded.of_map nodup_ids_awarded.of_map).mpr fun x => ?_
  rw [mem_awarded huniform, mem_awarded huniform']
  simp only [hperm.mem_iff]

/-- The fixed injections, up to positions. -/
theorem anonymous_fixedInjections : (fixedInjections raw).map anonymous =
    ((awarded raw).filter fun inj => inj.priority < 10).mergeSort fun x y =>
      toLex (x.priority, x.entityId) ≤ toLex (y.priority, y.entityId) := by
  let le (x y : MemoryInjection) : Bool := decide (toLex (x.priority, x.entityId) ≤ toLex (y.priority, y.entityId))
  have hsort (xs : List MemoryInjection) : (xs.mergeSort le).map anonymous = (xs.map anonymous).mergeSort le :=
    map_mergeSort fun _ _ _ _ => rfl
  have hfilter (xs : List MemoryInjection) : (xs.filter fun inj => inj.priority < 10).map anonymous =
      (xs.map anonymous).filter fun inj => inj.priority < 10 := by
    rw [filter_map]
    rfl
  exact (hsort _).trans (congrArg (mergeSort · le) (hfilter _))

/-- The other injections, up to positions. -/
theorem anonymous_triggered : (triggered raw).map anonymous =
    ((awarded raw).mergeSort fun x y => x.priority ≤ y.priority).filter fun inj =>
      decide (10 ≤ inj.priority) && inj.trusted := by
  let le (x y : MemoryInjection) : Bool := decide (x.priority ≤ y.priority)
  have hsort : (((best raw).map Prod.snd).mergeSort le).map anonymous = (awarded raw).mergeSort le :=
    map_mergeSort fun _ _ _ _ => rfl
  rw [triggered, ← hsort, filter_map]
  rfl

/-- The order does not matter to the fixed injections. -/
theorem fixedInjections_congr (huniform : Uniform raw) (hperm : raw.Perm raw') :
    (fixedInjections raw).map anonymous = (fixedInjections raw').map anonymous := by
  have hnodup := @nodup_ids_awarded raw
  rw [anonymous_fixedInjections, anonymous_fixedInjections]
  have hsorted := @filter_mergeSort_congr _ _ _ _ _ (fun inj : MemoryInjection => toLex (inj.priority, inj.entityId))
    (fun _ => true) (hnodup.of_map.filter fun inj => inj.priority < 10) ((awarded_perm huniform hperm).filter _)
    fun {x y} _ _ hkey h => ?_
  · simpa only [filter_true] using hsorted
  · have hsame : x.entityId = y.entityId := congrArg Prod.snd hkey
    have hpair : [x, y] <+ awarded raw := h.trans filter_sublist
    have := hnodup.sublist (hpair.map MemoryInjection.entityId)
    simp [hsame] at this

/-- The order does not matter to the other injections either, if those of one priority are met in the same order. -/
theorem triggered_congr (huniform : Uniform raw) (hperm : raw.Perm raw')
    (hties : ∀ x ∈ awarded raw, ∀ y ∈ awarded raw, x.priority = y.priority → 10 ≤ x.priority → x.trusted = true →
      y.trusted = true → (raw.map MemoryInjection.entityId).find? (fun k => k = x.entityId ∨ k = y.entityId) =
        (raw'.map MemoryInjection.entityId).find? fun k => k = x.entityId ∨ k = y.entityId) :
    (triggered raw).map anonymous = (triggered raw').map anonymous := by
  have hawarded := awarded_perm huniform hperm
  rw [anonymous_triggered, anonymous_triggered]
  apply filter_mergeSort_congr nodup_ids_awarded.of_map hawarded
  intro x y hx hy hpriority h
  have hxmem : x ∈ awarded raw := h.subset (by simp)
  have hymem : y ∈ awarded raw := h.subset (by simp)
  rw [Bool.and_eq_true, decide_eq_true_eq] at hx hy
  have hfirst := @find?_of_pair_sublist _ _ _ _ _ _ MemoryInjection.entityId nodup_ids_awarded h
  rw [find?_awarded, hties x hxmem y hymem hpriority hx.1 hx.2 hy.2, ← find?_awarded] at hfirst
  refine pair_sublist_of_find? nodup_ids_awarded (hawarded.mem_iff.mp hxmem) (hawarded.mem_iff.mp hymem)
    (fun hsame => ?_)
    hfirst
  have := nodup_ids_awarded.sublist (h.map MemoryInjection.entityId)
  simp [hsame] at this

end Awarded

section Slots

variable {c : ContextCompiler} {xs ys : List MemoryInjection} {slots : List InjectionSlot} {used : ℕ} {budget : ℤ}

/-- One more injection comes first. -/
theorem fillFixed_cons : c.fillFixed used (inj :: xs) =
    if inj.trusted then
      if (used + estimateTokens inj.content : ℤ) > c.fixedMemoryTokens then
        ((c.fillFixed used xs).1, true, estimateTokens inj.content + (c.fillFixed used xs).2.2)
      else
        (c.slotOf "fixed" inj :: (c.fillFixed (used + estimateTokens inj.content) xs).1,
          (c.fillFixed (used + estimateTokens inj.content) xs).2.1,
          estimateTokens inj.content + (c.fillFixed (used + estimateTokens inj.content) xs).2.2)
    else c.fillFixed used xs := rfl

/-- The fixed slots do not show positions. -/
theorem fillFixed_congr (h : xs.map anonymous = ys.map anonymous) : c.fillFixed used xs = c.fillFixed used ys := by
  have hanonymous (xs : List MemoryInjection) (used : ℕ) :
      c.fillFixed used (xs.map anonymous) = c.fillFixed used xs := by
    induction xs generalizing used with
    | nil => rfl
    | cons inj rest ih =>
      rw [map_cons, fillFixed_cons, fillFixed_cons, ih, ih]
      rfl
  rw [← hanonymous xs, ← hanonymous ys, h]

/-- Slots do not show positions. -/
theorem map_slotOf_congr {priorityClass : String} (h : xs.map anonymous = ys.map anonymous) :
    xs.map (c.slotOf priorityClass) = ys.map (c.slotOf priorityClass) := by
  have hanonymous (xs : List MemoryInjection) :
      (xs.map anonymous).map (c.slotOf priorityClass) = xs.map (c.slotOf priorityClass) := by
    rw [map_map]
    rfl
  rw [← hanonymous xs, ← hanonymous ys, h]

/-- The fixed slots stay in their budget. -/
theorem fillFixed_tokens (h : (used : ℤ) ≤ c.fixedMemoryTokens) :
    (used + slotTokens (c.fillFixed used xs).1 : ℤ) ≤ c.fixedMemoryTokens := by
  induction xs generalizing used with
  | nil => simpa [fillFixed, slotTokens] using h
  | cons inj rest ih =>
    rw [fillFixed_cons]
    split
    · split
      · exact ih h
      next hfits =>
        have hrest := @ih (used + estimateTokens inj.content) (by push_cast; omega)
        have hcons : slotTokens (c.slotOf "fixed" inj :: (c.fillFixed (used + estimateTokens inj.content) rest).1) =
            estimateTokens inj.content + slotTokens (c.fillFixed (used + estimateTokens inj.content) rest).1 := rfl
        rw [hcons]
        push_cast at hrest ⊢
        omega
    · exact ih h

/-- No fixed slot has an untrusted tag. -/
theorem fillFixed_trusted {slot : InjectionSlot} (h : slot ∈ (c.fillFixed used xs).1) :
    slot.sourceTag ∉ untrustedSourceTags := by
  induction xs generalizing used with
  | nil => cases h
  | cons inj rest ih =>
    rw [fillFixed_cons] at h
    split at h
    next htrusted =>
      split at h
      · exact ih h
      · rcases mem_cons.mp h with rfl | h
        · exact of_decide_eq_true htrusted
        · exact ih h
    next => exact ih h

/-- The other slots stay in their budget. -/
theorem applyDetailBudget_tokens (h : (used : ℤ) ≤ budget) :
    (used + slotTokens (applyDetailBudget budget used slots) : ℤ) ≤ budget := by
  induction slots generalizing used with
  | nil => simpa [applyDetailBudget, slotTokens] using h
  | cons slot rest ih =>
    rw [applyDetailBudget]
    split
    · exact ih h
    next level content hlevel =>
      have hfits : (used + estimateTokens content : ℤ) ≤ budget := by simpa using find?_some hlevel
      have hrest := @ih (used + estimateTokens content) (by exact_mod_cast hfits)
      have hcons : slotTokens ({ slot with detailLevel := level, content := content } ::
          applyDetailBudget budget (used + estimateTokens content) rest) =
          estimateTokens content + slotTokens (applyDetailBudget budget (used + estimateTokens content) rest) := rfl
      rw [hcons]
      push_cast at hrest ⊢
      omega

/-- Where the budget has room for all slots in full, they are put in as they are. -/
theorem applyDetailBudget_of_le (hfull : ∀ slot ∈ slots, slot.detailLevel = .full)
    (h : (used + slotTokens slots : ℤ) ≤ budget) : applyDetailBudget budget used slots = slots := by
  induction slots generalizing used with
  | nil => rfl
  | cons slot rest ih =>
    have hcons : slotTokens (slot :: rest) = estimateTokens slot.content + slotTokens rest := rfl
    rw [hcons] at h
    push_cast at h
    have hfits : (used + estimateTokens slot.content : ℤ) ≤ budget := by omega
    have hlevel : slot.levels.find? (fun level => (used + estimateTokens level.2 : ℤ) ≤ budget) =
        some (.full, slot.content) :=
      find?_cons_of_pos (by simpa using hfits)
    rw [applyDetailBudget, hlevel]
    dsimp only
    rw [ih (fun other hother => hfull other (mem_cons_of_mem _ hother)) (by push_cast; omega),
      ← hfull slot mem_cons_self]

end Slots

section Ties

/-- Of two entities that tie, the one that is met first comes first. -/
theorem find?_triggered (hx : x ∈ awarded raw) (hy : y ∈ awarded raw) (hne : x.entityId ≠ y.entityId)
    (hpriority : x.priority = y.priority) (hlow : 10 ≤ x.priority) (htrusted : x.trusted = true)
    (htrusted' : y.trusted = true) :
    ((triggered raw).map MemoryInjection.entityId).find? (fun k => k = x.entityId ∨ k = y.entityId) =
      (raw.map MemoryInjection.entityId).find? fun k => k = x.entityId ∨ k = y.entityId := by
  have hids : (triggered raw).map MemoryInjection.entityId =
      ((triggered raw).map anonymous).map MemoryInjection.entityId := by
    rw [map_map]
    rfl
  have hnodup : (((triggered raw).map anonymous).map MemoryInjection.entityId).Nodup := by
    rw [anonymous_triggered]
    have hsorted := (mergeSort_perm (awarded raw) fun x y => x.priority ≤ y.priority).map MemoryInjection.entityId
    exact (hsorted.nodup_iff.mpr nodup_ids_awarded).sublist (filter_sublist.map _)
  -- whichever of the two comes first among what counts still does so when it is sorted
  have hkeeps {x y : MemoryInjection} (hpriority : x.priority = y.priority) (hlow : 10 ≤ x.priority)
      (htrusted : x.trusted = true) (htrusted' : y.trusted = true) (h : [x, y] <+ awarded raw) :
      [x, y] <+ (triggered raw).map anonymous := by
    have hsorted : [x, y] <+ (awarded raw).mergeSort fun x y => x.priority ≤ y.priority :=
      pair_sublist_mergeSort_key h hpriority.le
    replace hsorted := hsorted.filter fun inj => decide (10 ≤ inj.priority) && inj.trusted
    rw [anonymous_triggered]
    rwa [filter_cons_of_pos (by simp [hlow, htrusted]),
      filter_cons_of_pos (by simp [← hpriority, hlow, htrusted'])] at hsorted
  have hswap : (fun k => decide (k = x.entityId ∨ k = y.entityId)) =
      fun k => decide (k = y.entityId ∨ k = x.entityId) := by
    funext k
    simp only [or_comm]
  rw [hids, ← @find?_awarded raw]
  rcases pair_sublist_or hx hy (fun hsame => hne (congrArg _ hsame)) with h | h
  · rw [find?_of_pair_sublist nodup_ids_awarded h,
      find?_of_pair_sublist hnodup (hkeeps hpriority hlow htrusted htrusted' h)]
  · rw [hswap, find?_of_pair_sublist nodup_ids_awarded h,
      find?_of_pair_sublist hnodup (hkeeps hpriority.symm (hpriority ▸ hlow) htrusted' htrusted h)]

end Ties

end ContextCompiler

namespace Authority

variable (a : Authority) (agentId : String)

/-- What a position gives. -/
def given (positionId : String) : List MemoryInjection :=
  (a.capabilities positionId).filterMap (a.injectionOf positionId)

/-- Which of two entities a position gives first. -/
def firstGiven (x y positionId : String) : Option String :=
  ((a.given positionId).map MemoryInjection.entityId).find? fun k => k = x ∨ k = y

/-- Something is given to an agent at the lowest priority for its entity. -/
def Counts (i : MemoryInjection) : Prop :=
  i ∈ a.injectionFor agentId ∧ ∀ k ∈ a.injectionFor agentId, k.entityId = i.entityId → i.priority ≤ k.priority

/-- Of two trusted entities that the agent is given at the same lowest priority, which is not below 10, all its
positions that give one of them give the same one first. -/
def TiesSettled : Prop :=
  ∀ i j, a.Counts agentId i → a.Counts agentId j → i.priority = j.priority → 10 ≤ i.priority →
    i.trusted = true → j.trusted = true →
    ∀ p ∈ a.memberships agentId, ∀ q ∈ a.memberships agentId, ∀ e ∈ a.firstGiven i.entityId j.entityId p,
      ∀ e' ∈ a.firstGiven i.entityId j.entityId q, e = e'

variable {a agentId} {order order' : List String}

/-- What is given is uniform. -/
theorem uniform_given : ContextCompiler.Uniform (order.flatMap a.given) := by
  intro i hi j hj hid hpriority
  obtain ⟨p, -, hi⟩ := mem_flatMap.mp hi
  obtain ⟨q, -, hj⟩ := mem_flatMap.mp hj
  obtain ⟨g, -, hi⟩ := mem_filterMap.mp hi
  obtain ⟨g', -, hj⟩ := mem_filterMap.mp hj
  obtain ⟨hname, entity, injection, hentity, hinjection, rfl⟩ := injectionOf_eq_some hi
  obtain ⟨hname', entity', injection', hentity', hinjection', rfl⟩ := injectionOf_eq_some hj
  change g.entityId = g'.entityId at hid
  change g.priority = g'.priority at hpriority
  rw [hid, hentity', Option.some.injEq] at hentity
  obtain rfl := hentity
  obtain rfl := Option.some.inj (hinjection.symm.trans hinjection')
  rw [ContextCompiler.anonymous, ContextCompiler.anonymous, hid, hpriority]

/-- What is given does not depend on the order in which positions are met. -/
theorem perm_given (h : order.Perm order') : (order.flatMap a.given).Perm (order'.flatMap a.given) := h.flatMap_right _

/-- Which of two entities is met first. -/
theorem find?_given {x y : String} :
    ((order.flatMap a.given).map MemoryInjection.entityId).find? (fun k => k = x ∨ k = y) =
      order.findSome? (a.firstGiven x y) := by
  rw [map_flatMap, find?_flatMap]
  rfl

end Authority

namespace ContextCompiler

variable {c : ContextCompiler} {a : Authority} {agentId : String} {order order' terms : List String}

/-- The compiler where the positions of an agent are met in this order. -/
def meeting (c : ContextCompiler) (a : Authority) (agentId : String) (order : List String) : ContextCompiler :=
  { c with authority := some { a with memberships := Function.update a.memberships agentId order } }

/-- What is injected is the same for every order in which positions are met, stays in its budgets, and no fixed slot has
an untrusted tag. -/
structure Steady (c : ContextCompiler) (a : Authority) (agentId : String) : Prop where
  fixed : ∀ {order order'}, order.Perm (a.memberships agentId) → order'.Perm (a.memberships agentId) →
    (c.meeting a agentId order).buildFixedInjection agentId = (c.meeting a agentId order').buildFixedInjection agentId
  recalled : ∀ {order order'} terms, order.Perm (a.memberships agentId) → order'.Perm (a.memberships agentId) →
    (c.meeting a agentId order).buildRecalledInjection agentId terms =
      (c.meeting a agentId order').buildRecalledInjection agentId terms
  fixedTokens : ∀ {order}, order.Perm (a.memberships agentId) →
    (slotTokens ((c.meeting a agentId order).buildFixedInjection agentId).1 : ℤ) ≤ c.fixedMemoryTokens
  recalledTokens : ∀ {order} terms, order.Perm (a.memberships agentId) →
    (slotTokens ((c.meeting a agentId order).buildRecalledInjection agentId terms) : ℤ) ≤ c.recallMemoryTokens
  trusted : ∀ {order}, order.Perm (a.memberships agentId) →
    ∀ slot ∈ ((c.meeting a agentId order).buildFixedInjection agentId).1, slot.sourceTag ∉ untrustedSourceTags

/-- What is given where positions are met in this order. -/
theorem injectionFor_meeting :
    ({ a with memberships := Function.update a.memberships agentId order } : Authority).injectionFor agentId =
      order.flatMap a.given := by
  have hmemberships : Function.update a.memberships agentId order agentId = order := Function.update_self _ _ _
  exact congrArg (fun positions => positions.flatMap a.given) hmemberships

/-- The order is no matter of the loop over the fixed injections. -/
theorem fillFixed_meeting {used : ℕ} {xs : List MemoryInjection} :
    (c.meeting a agentId order).fillFixed used xs = c.fillFixed used xs := by
  induction xs generalizing used with
  | nil => rfl
  | cons inj rest ih =>
    rw [fillFixed_cons, fillFixed_cons, ih, ih]
    rfl

/-- The fixed slots where positions are met in this order. -/
theorem buildFixedInjection_meeting : (c.meeting a agentId order).buildFixedInjection agentId =
    ((c.fillFixed 0 (fixedInjections (order.flatMap a.given))).1,
      (c.fillFixed 0 (fixedInjections (order.flatMap a.given))).2.1,
      if 0 < c.fixedMemoryTokens then
        ((c.fillFixed 0 (fixedInjections (order.flatMap a.given))).2.2 : ℚ) / (c.fixedMemoryTokens : ℚ)
      else if 0 < (c.fillFixed 0 (fixedInjections (order.flatMap a.given))).2.2 then 1 else 0) := by
  rw [← @injectionFor_meeting a agentId order, ← @fillFixed_meeting c a agentId order]
  rfl

/-- The slots that are triggered where positions are met in this order. -/
theorem triggeredSlots_meeting : (c.meeting a agentId order).triggeredSlots agentId =
    (triggered (order.flatMap a.given)).map (c.slotOf "recalled") := by
  rw [← @injectionFor_meeting a agentId order]
  rfl

/-- What counts is among what counts for the agent. -/
theorem counts_of_mem_awarded (horder : order.Perm (a.memberships agentId)) (hx : x ∈ awarded (order.flatMap a.given)) :
    ∃ i, a.Counts agentId i ∧ anonymous i = x := by
  obtain ⟨i, hi, hsame, hlowest⟩ := (mem_awarded Authority.uniform_given).mp hx
  have hmem (k : MemoryInjection) : k ∈ a.injectionFor agentId ↔ k ∈ order.flatMap a.given :=
    (Authority.perm_given horder).symm.mem_iff
  exact ⟨i, ⟨(hmem i).mpr hi, fun k hk => hlowest k ((hmem k).mp hk)⟩, hsame⟩

/-- What counts for the agent counts. -/
theorem mem_awarded_of_counts (horder : order.Perm (a.memberships agentId)) (hi : a.Counts agentId i) :
    anonymous i ∈ awarded (order.flatMap a.given) := by
  have hmem (k : MemoryInjection) : k ∈ a.injectionFor agentId ↔ k ∈ order.flatMap a.given :=
    (Authority.perm_given horder).symm.mem_iff
  exact (mem_awarded Authority.uniform_given).mpr ⟨i, (hmem i).mp hi.1, rfl, fun k hk => hi.2 k ((hmem k).mpr hk)⟩

/-- Where ties are settled, the slots that are triggered do not depend on the order. -/
theorem triggeredSlots_congr (hties : a.TiesSettled agentId) (horder : order.Perm (a.memberships agentId))
    (horder' : order'.Perm (a.memberships agentId)) :
    (c.meeting a agentId order).triggeredSlots agentId = (c.meeting a agentId order').triggeredSlots agentId := by
  rw [triggeredSlots_meeting, triggeredSlots_meeting]
  apply map_slotOf_congr
  apply triggered_congr Authority.uniform_given (Authority.perm_given (horder.trans horder'.symm))
  intro x hx y hy hpriority hlow htrusted htrusted'
  obtain ⟨i, hi, rfl⟩ := counts_of_mem_awarded horder hx
  obtain ⟨j, hj, rfl⟩ := counts_of_mem_awarded horder hy
  have hfound {order : List String} (horder : order.Perm (a.memberships agentId)) :
      ∃ p ∈ a.memberships agentId, ∃ e ∈ a.firstGiven i.entityId j.entityId p,
        order.findSome? (a.firstGiven i.entityId j.entityId) = some e := by
    have hsome : (((order.flatMap a.given).map MemoryInjection.entityId).find?
        fun k => k = i.entityId ∨ k = j.entityId).isSome := by
      rw [find?_isSome]
      exact ⟨i.entityId, mem_map_of_mem ((Authority.perm_given horder).symm.mem_iff.mp hi.1), by simp⟩
    rw [Authority.find?_given] at hsome
    obtain ⟨e, he⟩ := Option.isSome_iff_exists.mp hsome
    obtain ⟨p, hp, hfirst⟩ := exists_of_findSome?_eq_some he
    exact ⟨p, horder.mem_iff.mp hp, e, hfirst, he⟩
  obtain ⟨p, hp, e, he, hfirst⟩ := hfound horder
  obtain ⟨q, hq, e', he', hfirst'⟩ := hfound horder'
  have hsame := hties i j hi hj hpriority hlow htrusted htrusted' p hp q hq e he e' he'
  change ((order.flatMap a.given).map MemoryInjection.entityId).find? (fun k => k = i.entityId ∨ k = j.entityId) =
    ((order'.flatMap a.given).map MemoryInjection.entityId).find? fun k => k = i.entityId ∨ k = j.entityId
  rw [Authority.find?_given, Authority.find?_given, hfirst, hfirst', hsame]

/-- Where ties are settled and the budgets are not negative, what is injected is steady. -/
theorem steady_of_tiesSettled (hties : a.TiesSettled agentId) (hfixed : 0 ≤ c.fixedMemoryTokens)
    (hrecall : 0 ≤ c.recallMemoryTokens) : c.Steady a agentId where
  fixed horder horder' := by
    have hperm := @Authority.perm_given a _ _ (horder.trans horder'.symm)
    have hsame := @fillFixed_congr c _ _ 0 (fixedInjections_congr Authority.uniform_given hperm)
    rw [buildFixedInjection_meeting, buildFixedInjection_meeting, hsame]
  recalled terms horder horder' := by
    rw [buildRecalledInjection, buildRecalledInjection, triggeredSlots_congr hties horder horder']
    rfl
  fixedTokens {order} horder := by
    rw [buildFixedInjection_meeting]
    have htokens := @fillFixed_tokens c (fixedInjections (order.flatMap a.given)) 0 (by simpa using hfixed)
    simpa using htokens
  recalledTokens {order} terms horder := by
    rw [buildRecalledInjection]
    have htokens := @applyDetailBudget_tokens
      (addCandidates ((c.meeting a agentId order).triggeredSlots agentId)
        ((c.recallCandidates agentId terms).getD [])) 0
      c.recallMemoryTokens (by simpa using hrecall)
    rw [Nat.cast_zero, zero_add] at htokens
    exact htokens
  trusted horder slot hslot := by
    rw [buildFixedInjection_meeting] at hslot
    exact fillFixed_trusted hslot

/-- A budget that is negative is not kept. -/
theorem Steady.nonneg (h : c.Steady a agentId) : 0 ≤ c.fixedMemoryTokens ∧ 0 ≤ c.recallMemoryTokens := by
  have hfixed := h.fixedTokens (Perm.refl _)
  have hrecall := h.recalledTokens [] (Perm.refl _)
  omega

/-- A compiler that recalls nothing by itself. -/
def quiet (recallMemoryTokens : ℤ) : ContextCompiler where
  authority := none
  fixedMemoryTokens := 0
  recallMemoryTokens := recallMemoryTokens
  sha256 := id
  recallCandidates := fun _ _ => none

/-- Where the budget has room for everything, the entities are in the order in which they are triggered. -/
theorem refs_of_room (hrecall : ∀ terms, c.recallCandidates agentId terms = none)
    (hroom : (slotTokens ((c.meeting a agentId order).triggeredSlots agentId) : ℤ) ≤ c.recallMemoryTokens) :
    ((c.meeting a agentId order).buildRecalledInjection agentId []).map InjectionSlot.entryRef =
      (triggered (order.flatMap a.given)).map MemoryInjection.entityId := by
  have hnone : (c.meeting a agentId order).recallCandidates agentId [] = none := hrecall []
  have hfull : ∀ slot ∈ (c.meeting a agentId order).triggeredSlots agentId, slot.detailLevel = .full := by
    rw [triggeredSlots_meeting]
    intro slot hslot
    obtain ⟨inj, -, rfl⟩ := mem_map.mp hslot
    rfl
  rw [buildRecalledInjection, hnone, Option.getD_none, addCandidates,
    applyDetailBudget_of_le hfull (by rw [Nat.cast_zero, zero_add]; exact hroom), triggeredSlots_meeting, map_map]
  rfl

/-- Where what is injected is steady whatever the budgets are, ties are settled. -/
theorem tiesSettled_of_steady (h : ∀ c : ContextCompiler, 0 ≤ c.fixedMemoryTokens → 0 ≤ c.recallMemoryTokens →
    c.Steady a agentId) : a.TiesSettled agentId := by
  intro i j hi hj hpriority hlow htrusted htrusted' p hp q hq e he e' he'
  by_cases hne : i.entityId = j.entityId
  · have hof {p e : String} (he : e ∈ a.firstGiven i.entityId j.entityId p) : e = i.entityId := by
      simpa [hne] using find?_some he
    rw [hof he, hof he']
  -- a compiler with room for everything meets the one position first, or the other
  have horder := (perm_cons_erase hp).symm
  have horder' := (perm_cons_erase hq).symm
  let tokens (order : List String) : ℕ := slotTokens (((quiet 0).meeting a agentId order).triggeredSlots agentId)
  let room : ℤ := tokens (p :: (a.memberships agentId).erase p) + tokens (q :: (a.memberships agentId).erase q)
  have hsteady := h (quiet room) le_rfl (Int.add_nonneg (Int.natCast_nonneg _) (Int.natCast_nonneg _))
  have hrefs := congrArg (map InjectionSlot.entryRef) (hsteady.recalled [] horder horder')
  rw [refs_of_room (fun _ => rfl) (Int.le_add_of_nonneg_right (Int.natCast_nonneg _)),
    refs_of_room (fun _ => rfl) (Int.le_add_of_nonneg_left (Int.natCast_nonneg _))] at hrefs
  have hmet {order : List String} {p e : String} (horder : (p :: order).Perm (a.memberships agentId))
      (he : e ∈ a.firstGiven i.entityId j.entityId p) :
      ((triggered ((p :: order).flatMap a.given)).map MemoryInjection.entityId).find?
        (fun k => k = i.entityId ∨ k = j.entityId) = some e := by
    have hfirst := find?_triggered (mem_awarded_of_counts horder hi)
      (mem_awarded_of_counts horder hj) hne hpriority hlow
      htrusted htrusted'
    refine hfirst.trans ((Authority.find?_given).trans ?_)
    rw [findSome?_cons, show a.firstGiven (anonymous i).entityId (anonymous j).entityId p = some e from he]
  have hfirst := hmet horder he
  rw [hrefs, hmet horder' he'] at hfirst
  exact (Option.some.inj hfirst).symm

/-- For every state of the Authority: budgets have to be non-negative, and what is injected is steady for all such
budgets and everything that is recalled exactly if ties are settled. -/
theorem steady_iff (a : Authority) (agentId : String) :
    (∀ c : ContextCompiler, c.Steady a agentId → 0 ≤ c.fixedMemoryTokens ∧ 0 ≤ c.recallMemoryTokens) ∧
      ((∀ c : ContextCompiler, 0 ≤ c.fixedMemoryTokens → 0 ≤ c.recallMemoryTokens → c.Steady a agentId) ↔
        a.TiesSettled agentId) := by
  refine ⟨fun c h => h.nonneg, fun h => tiesSettled_of_steady h, fun hties c hfixed hrecall => ?_⟩
  exact steady_of_tiesSettled hties hfixed hrecall

/-- Where nothing is registered, every entity is registered under its id. -/
theorem named_none (id : String) (e : RegisteredEntity) (h : (none : Option RegisteredEntity) = some e) :
    e.entityId = id := by
  cases h

/-- Two positions, and a manual for each of them. -/
def twoManuals : Authority where
  deviceId := "authority"
  teamId := "team"
  ownerAgentId := "owner"
  entities := ⟨fun _ => none, named_none⟩
  registry := ((⟨fun _ => none, named_none⟩ : Registry).add
    ⟨"deploy", "wiki", .data, "deploy", some ⟨"How to deploy.", "[SKILL]"⟩⟩).add
    ⟨"review", "wiki", .data, "review", some ⟨"How to review.", "[SKILL]"⟩⟩
  memberships := fun _ => ["developer", "reviewer"]
  capabilities := fun position =>
    if position = "developer" then [⟨"developer", "deploy", .allowed, 10⟩]
    else if position = "reviewer" then [⟨"reviewer", "review", .allowed, 10⟩] else []

/-- With one position there are no ties to settle. -/
theorem steady_iff_one : (quiet 8000).Steady { twoManuals with memberships := fun _ => ["developer"] } "bob" := by
  refine (steady_iff _ _).2.mpr ?_ _ (by decide) (by decide)
  intro i j _ _ _ _ _ _ p hp q hq e he e' he'
  obtain rfl := mem_singleton.mp hp
  obtain rfl := mem_singleton.mp hq
  exact Option.mem_unique he he'

/-- Of two entities of the same priority, the one comes first whose position is met first. -/
theorem unsteady_ties : ¬ ∀ (c : ContextCompiler) (a : Authority) (agentId : String), 0 ≤ c.fixedMemoryTokens →
    0 ≤ c.recallMemoryTokens → c.Steady a agentId := by
  intro h
  have hsettled : twoManuals.TiesSettled "bob" := tiesSettled_of_steady fun c => h c twoManuals "bob"
  let deploy : MemoryInjection := ⟨"deploy", "wiki", "How to deploy.", "[SKILL]", "developer", 10⟩
  let review : MemoryInjection := ⟨"review", "wiki", "How to review.", "[SKILL]", "reviewer", 10⟩
  have hdeploy : twoManuals.Counts "bob" deploy := ⟨by decide +kernel, by decide +kernel⟩
  have hreview : twoManuals.Counts "bob" review := ⟨by decide +kernel, by decide +kernel⟩
  have hsame := hsettled deploy review hdeploy hreview rfl (by decide) (by decide) (by decide) "developer" (by decide)
    "reviewer" (by decide) "deploy" (by decide +kernel) "review" (by decide +kernel)
  exact absurd hsame (by decide)

end ContextCompiler

end MyTeam.Legacy
