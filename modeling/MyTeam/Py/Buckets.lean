import MyTeam.Py.Dict

/-!
# Dictionaries of sets

A dictionary whose values are sets, kept as lists without repetition. What is added goes into the
set under its key, which is made if there is none; a set from which the last element is discarded
goes. An index from elements to their keys, which is changed by the difference of the keys alone,
stays the inverse of what the elements have.
-/

namespace MyTeam.Py

variable {κ β : Type} [DecidableEq κ] [DecidableEq β]

/-- `items[key]` of a `defaultdict(set)`. -/
def bucket (key : κ) (items : List (κ × List β)) : List β := (items.lookup key).getD []

/-- `items[key].add(x)`. -/
def addTo (x : β) (items : List (κ × List β)) (key : κ) : List (κ × List β) :=
  if x ∈ bucket key items then items else assign key (bucket key items ++ [x]) items

/-- `items[key].discard(x)`, and `del items[key]` if the set is empty. -/
def discardFrom (x : β) (items : List (κ × List β)) (key : κ) : List (κ × List β) :=
  let rest := (bucket key items).filter fun y => y ≠ x
  if rest = [] then items.filter fun item => item.1 ≠ key else assign key rest items

/-- An element whose keys change: it is discarded where it was and is no longer, and added where it was not yet. -/
def reindex (x : β) (old new : List κ) (items : List (κ × List β)) : List (κ × List β) :=
  (new.filter (· ∉ old)).foldl (addTo x) ((old.filter (· ∉ new)).foldl (discardFrom x) items)

variable {items : List (κ × List β)} {key k : κ} {x y : β} {keys old new : List κ}

/-- What is in the sets after an addition. -/
theorem mem_bucket_addTo : y ∈ bucket k (addTo x items key) ↔ y ∈ bucket k items ∨ k = key ∧ y = x := by
  unfold addTo
  split_ifs with hmem
  · constructor
    · exact Or.inl
    · rintro (h | ⟨rfl, rfl⟩)
      · exact h
      · exact hmem
  · by_cases hkey : k = key
    · subst hkey
      simp [bucket, lookup_assign]
    · simp [bucket, lookup_assign, hkey]

/-- What is in the sets after something was discarded. -/
theorem mem_bucket_discardFrom : y ∈ bucket k (discardFrom x items key) ↔ y ∈ bucket k items ∧ ¬(k = key ∧ y = x) := by
  have hrest : y ∈ (bucket key items).filter (fun y => y ≠ x) ↔ y ∈ bucket key items ∧ y ≠ x := by
    simp [List.mem_filter]
  have hlookup : (items.filter fun item => item.1 ≠ key).lookup k = if decide (k ≠ key) then items.lookup k else none :=
    lookup_filter_key (p := fun k => decide (k ≠ key))
  unfold discardFrom
  dsimp only
  by_cases hkey : k = key
  · subst hkey
    have hgone : y ∈ bucket k items ∧ ¬(k = k ∧ y = x) ↔ y ∈ bucket k items ∧ y ≠ x := by simp
    rw [hgone, ← hrest]
    split_ifs with hempty
    · rw [hempty, bucket, hlookup, if_neg (by simp)]
      rfl
    · rw [bucket, lookup_assign, if_pos rfl]
      rfl
  · have hkept : y ∈ bucket k items ∧ ¬(k = key ∧ y = x) ↔ y ∈ bucket k items := by simp [hkey]
    rw [hkept]
    split_ifs with hempty
    · rw [bucket, hlookup, if_pos (by simpa using hkey), bucket]
    · rw [bucket, lookup_assign, if_neg hkey, bucket]

/-- What is in the sets after additions. -/
theorem mem_bucket_foldl_addTo :
    y ∈ bucket k (keys.foldl (addTo x) items) ↔ y ∈ bucket k items ∨ k ∈ keys ∧ y = x := by
  induction keys generalizing items with
  | nil => simp
  | cons key keys ih =>
    rw [List.foldl_cons, ih, mem_bucket_addTo, List.mem_cons, or_and_right, or_assoc]

/-- What is in the sets after an element was discarded from some of them. -/
theorem mem_bucket_foldl_discardFrom :
    y ∈ bucket k (keys.foldl (discardFrom x) items) ↔ y ∈ bucket k items ∧ ¬(k ∈ keys ∧ y = x) := by
  induction keys generalizing items with
  | nil => simp
  | cons key keys ih =>
    rw [List.foldl_cons, ih, mem_bucket_discardFrom, List.mem_cons, or_and_right, not_or, and_assoc]

/-- Where the sets of an element were those of its old keys, they are those of its new keys, and nothing else
changes. -/
theorem mem_bucket_reindex (hold : ∀ k, x ∈ bucket k items ↔ k ∈ old) :
    y ∈ bucket k (reindex x old new items) ↔ if y = x then k ∈ new else y ∈ bucket k items := by
  rw [reindex, mem_bucket_foldl_addTo, mem_bucket_foldl_discardFrom]
  by_cases hy : y = x
  · subst hy
    rw [if_pos rfl, hold]
    simp only [List.mem_filter, decide_eq_true_eq]
    tauto
  · simp [hy]

/-- Additions keep every key once. -/
theorem nodup_keys_addTo (h : (items.map Prod.fst).Nodup) : ((addTo x items key).map Prod.fst).Nodup := by
  unfold addTo
  split_ifs
  · exact h
  · exact nodup_keys_assign h

/-- So does what is discarded. -/
theorem nodup_keys_discardFrom (h : (items.map Prod.fst).Nodup) : ((discardFrom x items key).map Prod.fst).Nodup := by
  unfold discardFrom
  dsimp only
  split_ifs
  · exact h.sublist (List.filter_sublist.map _)
  · exact nodup_keys_assign h

/-- And so does a change of keys. -/
theorem nodup_keys_reindex (h : (items.map Prod.fst).Nodup) : ((reindex x old new items).map Prod.fst).Nodup := by
  have hless := List.foldlRecOn (motive := fun items : List (κ × List β) => (items.map Prod.fst).Nodup)
    (old.filter (· ∉ new)) (discardFrom x) h fun _ hkept _ _ => nodup_keys_discardFrom hkept
  exact List.foldlRecOn (motive := fun items : List (κ × List β) => (items.map Prod.fst).Nodup)
    (new.filter (· ∉ old)) (addTo x) hless fun _ hkept _ _ => nodup_keys_addTo hkept

omit [DecidableEq β] in
/-- What is in the sets, by the items. -/
theorem mem_bucket_iff (h : (items.map Prod.fst).Nodup) : y ∈ bucket k items ↔ ∃ ys, (k, ys) ∈ items ∧ y ∈ ys := by
  unfold bucket
  constructor
  · intro hmem
    cases hlookup : items.lookup k with
    | none => simp [hlookup] at hmem
    | some ys =>
      rw [hlookup] at hmem
      exact ⟨ys, mem_of_lookup hlookup, hmem⟩
  · rintro ⟨ys, hitem, hmem⟩
    rw [lookup_of_mem h hitem]
    exact hmem

end MyTeam.Py
