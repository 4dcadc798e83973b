import MyTeam.Py.Value
import Mathlib.Data.List.Nodup
import Mathlib.Data.List.Perm.Basic

/-!
# Dictionaries

A dictionary is the list of its items in the order in which the keys were inserted. What is
stored under a key does not depend on this order, but iteration does: two dictionaries with the
same contents are permutations of each other.
-/

namespace MyTeam.Py

variable {κ β : Type} [DecidableEq κ]

/-- `items.update(new)`. -/
def update (items new : List (κ × β)) : List (κ × β) :=
  new.foldl (fun items entry => assign entry.1 entry.2 items) items

/-- One update after the other. -/
theorem update_append (items new more : List (κ × β)) :
    update items (new ++ more) = update (update items new) more :=
  List.foldl_append

/-- The keys after an assignment. -/
theorem mem_keys_assign {key k : κ} {x : β} {items : List (κ × β)} :
    k ∈ (assign key x items).map Prod.fst ↔ k = key ∨ k ∈ items.map Prod.fst := by
  induction items with
  | nil => simp [assign]
  | cons item rest ih =>
    rw [assign]
    split
    next heq => simp [← heq]
    next => simp only [List.map_cons, List.mem_cons, ih]; tauto

/-- The items after an assignment. -/
theorem mem_items_assign {key : κ} {x : β} {items : List (κ × β)} {entry : κ × β}
    (h : entry ∈ assign key x items) : entry = (key, x) ∨ entry ∈ items := by
  induction items with
  | nil => exact Or.inl (by simpa [assign] using h)
  | cons item rest ih =>
    rw [assign] at h
    split at h
    next heq =>
      rcases List.mem_cons.mp h with h | h
      · exact Or.inl (heq ▸ h)
      · exact Or.inr (List.mem_cons_of_mem _ h)
    next =>
      rcases List.mem_cons.mp h with h | h
      · exact Or.inr (h ▸ List.mem_cons_self)
      · exact (ih h).imp_right (List.mem_cons_of_mem _)

/-- The item that was assigned. -/
theorem mem_assign_self {key : κ} {x : β} {items : List (κ × β)} : (key, x) ∈ assign key x items := by
  induction items with
  | nil => exact List.mem_cons_self
  | cons item rest ih =>
    rw [assign]
    split
    next heq => exact heq ▸ List.mem_cons_self
    next => exact List.mem_cons_of_mem _ ih

/-- The items under other keys are left. -/
theorem mem_assign_of_ne {key : κ} {x : β} {items : List (κ × β)} {entry : κ × β} (hne : entry.1 ≠ key)
    (h : entry ∈ items) : entry ∈ assign key x items := by
  induction items with
  | nil => cases h
  | cons item rest ih =>
    rw [assign]
    rcases List.mem_cons.mp h with rfl | hrest
    · rw [if_neg hne]
      exact List.mem_cons_self
    · split
      · exact List.mem_cons_of_mem _ hrest
      · exact List.mem_cons_of_mem _ (ih hrest)

/-- The items after an assignment that replaces nothing else. -/
theorem mem_assign_iff {key : κ} {x : β} {items : List (κ × β)} (agree : ∀ entry ∈ items, entry.1 = key → entry.2 = x)
    {entry : κ × β} : entry ∈ assign key x items ↔ entry = (key, x) ∨ entry ∈ items := by
  refine ⟨mem_items_assign, ?_⟩
  rintro (rfl | hmem)
  · exact mem_assign_self
  · by_cases hkey : entry.1 = key
    · have heq : entry = (key, x) := Prod.ext hkey (agree entry hmem hkey)
      exact heq ▸ mem_assign_self
    · exact mem_assign_of_ne hkey hmem

/-- A new key goes to the end of a dictionary. -/
theorem assign_of_not_mem {key : κ} {x : β} {items : List (κ × β)}
    (h : key ∉ items.map Prod.fst) : assign key x items = items ++ [(key, x)] := by
  induction items with
  | nil => rfl
  | cons entry rest ih =>
    rw [List.map_cons, List.mem_cons, not_or] at h
    rw [assign, if_neg (Ne.symm h.1), ih h.2, List.cons_append]

/-- A key that is there stays in its place. -/
theorem keys_assign_of_mem {key : κ} {x : β} {items : List (κ × β)} (h : key ∈ items.map Prod.fst) :
    (assign key x items).map Prod.fst = items.map Prod.fst := by
  induction items with
  | nil => cases h
  | cons entry rest ih =>
    rw [assign]
    split
    next heq => rw [List.map_cons, List.map_cons, heq]
    next hne =>
      rw [List.map_cons, List.map_cons]
      rw [List.map_cons, List.mem_cons] at h
      rw [ih (h.resolve_left (Ne.symm hne))]

/-- The items after an update. -/
theorem mem_items_update {items new : List (κ × β)} {entry : κ × β} (h : entry ∈ update items new) :
    entry ∈ items ∨ entry ∈ new := by
  induction new generalizing items with
  | nil => exact Or.inl h
  | cons first rest ih =>
    rcases ih h with h | h
    · exact (mem_items_assign h).symm.imp_right fun heq => by simp [heq]
    · exact Or.inr (List.mem_cons_of_mem _ h)

/-- An assignment adds no key twice. -/
theorem nodup_keys_assign {key : κ} {x : β} {items : List (κ × β)} (h : (items.map Prod.fst).Nodup) :
    ((assign key x items).map Prod.fst).Nodup := by
  induction items with
  | nil => simp [assign]
  | cons item rest ih =>
    rw [List.map_cons, List.nodup_cons] at h
    rw [assign]
    split
    · exact List.nodup_cons.mpr h
    next hne =>
      refine List.nodup_cons.mpr ⟨fun hmem => ?_, ih h.2⟩
      rcases mem_keys_assign.mp hmem with heq | hmem
      · exact hne heq
      · exact h.1 hmem

/-- An update adds no key twice. -/
theorem nodup_keys_update {items new : List (κ × β)} (h : (items.map Prod.fst).Nodup) :
    ((update items new).map Prod.fst).Nodup := by
  induction new generalizing items with
  | nil => exact h
  | cons entry rest ih => exact ih (nodup_keys_assign h)

/-- What stands under a key that is filtered out, and under the others. -/
theorem lookup_filter_key {p : κ → Bool} {k : κ} {items : List (κ × β)} :
    (items.filter fun entry => p entry.1).lookup k = if p k then items.lookup k else none := by
  induction items with
  | nil => simp
  | cons item rest ih =>
    obtain ⟨key, x⟩ := item
    rw [List.filter_cons]
    by_cases hkey : k = key
    · subst hkey
      cases hp : p k <;> simp [hp, ih]
    · cases hp : p key <;> simp [List.lookup_cons, beq_false_of_ne hkey, ih]

/-- What stands under a key after an update: the last new item, else the old one. -/
theorem lookup_update {k : κ} {items new : List (κ × β)} :
    (update items new).lookup k = (new.reverse.lookup k).or (items.lookup k) := by
  induction new generalizing items with
  | nil => rfl
  | cons entry rest ih =>
    obtain ⟨key, x⟩ := entry
    rw [update, List.foldl_cons, ← update, ih, lookup_assign, List.reverse_cons, List.lookup_append]
    by_cases hkey : k = key
    · simp [hkey]
    · simp [hkey, List.lookup_cons, beq_false_of_ne hkey]

/-- A key is stored. -/
theorem lookup_eq_none_iff_keys {k : κ} {items : List (κ × β)} :
    items.lookup k = none ↔ k ∉ items.map Prod.fst := by
  induction items with
  | nil => simp
  | cons item rest ih =>
    obtain ⟨key, x⟩ := item
    by_cases hkey : k = key
    · simp [hkey]
    · simp [List.lookup_cons, beq_false_of_ne hkey, hkey, ih]

/-- Without repeated keys, every item can be looked up. -/
theorem lookup_of_mem {k : κ} {x : β} {items : List (κ × β)} (h : (items.map Prod.fst).Nodup)
    (hmem : (k, x) ∈ items) : items.lookup k = some x := by
  induction items with
  | nil => cases hmem
  | cons item rest ih =>
    obtain ⟨key, y⟩ := item
    rw [List.map_cons, List.nodup_cons] at h
    rcases List.mem_cons.mp hmem with heq | hrest
    · obtain ⟨rfl, rfl⟩ := Prod.mk.inj heq
      exact List.lookup_cons_self
    · have hne : k ≠ key := by
        rintro rfl
        exact h.1 (List.mem_map.mpr ⟨(k, x), hrest, rfl⟩)
      rw [List.lookup_cons, beq_false_of_ne hne]
      exact ih h.2 hrest

/-- What can be looked up is an item. -/
theorem mem_of_lookup {k : κ} {x : β} {items : List (κ × β)} (h : items.lookup k = some x) :
    (k, x) ∈ items := by
  obtain ⟨before, after, hitems, -⟩ := List.lookup_eq_some_iff.mp h
  simp [hitems]

/-- Dictionaries with the same contents have the same items. -/
theorem perm_of_lookup_eq {xs ys : List (κ × β)} (hxs : (xs.map Prod.fst).Nodup)
    (hys : (ys.map Prod.fst).Nodup) (h : ∀ k, xs.lookup k = ys.lookup k) : xs.Perm ys := by
  refine (List.perm_ext_iff_of_nodup hxs.of_map hys.of_map).mpr fun entry => ?_
  obtain ⟨k, x⟩ := entry
  constructor
  · exact fun hmem => mem_of_lookup (h k ▸ lookup_of_mem hxs hmem)
  · exact fun hmem => mem_of_lookup (h k ▸ lookup_of_mem hys hmem)

/-- The order of a dictionary does not matter to what is stored. -/
theorem lookup_reverse {k : κ} {items : List (κ × β)} (h : (items.map Prod.fst).Nodup) :
    items.reverse.lookup k = items.lookup k := by
  have hreverse : (items.reverse.map Prod.fst).Nodup := by
    rw [List.map_reverse]
    exact List.nodup_reverse.mpr h
  cases hlookup : items.lookup k with
  | some x => exact lookup_of_mem hreverse (List.mem_reverse.mpr (mem_of_lookup hlookup))
  | none =>
    rw [lookup_eq_none_iff_keys] at hlookup ⊢
    simpa using hlookup

end MyTeam.Py
