import MyTeam.Py.Dict
import Mathlib.Data.List.Sort

/-!
# Gathering under keys

A dictionary into which what comes with a key is gathered under the key. Under every key stands
what was gathered from the entries with this key, in their order, however the entries of other keys
lie between them. So the items, in the order of the keys, depend on the strands of the keys alone.
-/

namespace MyTeam.Py

variable {κ β γ : Type} [DecidableEq κ]

/-- `items.setdefault(key, d)`, changed by what comes with the key. -/
def gather (f : β → γ → β) (d : β) (items : List (κ × β)) (entry : κ × γ) : List (κ × β) :=
  assign entry.1 (f ((items.lookup entry.1).getD d) entry.2) items

/-- What came with a key, in order. -/
def strand (k : κ) (entries : List (κ × γ)) : List γ :=
  (entries.filter fun entry => entry.1 = k).map Prod.snd

variable {f : β → γ → β} {d : β} {items : List (κ × β)} {entries : List (κ × γ)} {k : κ}

/-- What stands under a key comes from its strand. -/
theorem lookup_gather : (entries.foldl (gather f d) items).lookup k =
    if strand k entries = [] then items.lookup k else some ((strand k entries).foldl f ((items.lookup k).getD d)) := by
  induction entries generalizing items with
  | nil => rfl
  | cons entry entries ih =>
    rw [List.foldl_cons, ih, gather, lookup_assign, strand, strand]
    by_cases hkey : entry.1 = k
    · rw [List.filter_cons_of_pos (by simpa using hkey), if_pos hkey.symm, hkey]
      by_cases hrest : (entries.filter fun entry => entry.1 = k).map Prod.snd = []
      · simp [hrest]
      · simp [hrest]
    · rw [List.filter_cons_of_neg (by simpa using hkey), if_neg (Ne.symm hkey)]

/-- Every key stands once. -/
theorem nodup_keys_gather (h : (items.map Prod.fst).Nodup) :
    ((entries.foldl (gather f d) items).map Prod.fst).Nodup := by
  induction entries generalizing items with
  | nil => exact h
  | cons entry entries ih => exact ih (nodup_keys_assign h)

/-- In the order of the keys stand those that something came with, each with what was gathered from its strand. -/
theorem mergeSort_gather [LinearOrder κ] (f : β → γ → β) (d : β) (entries : List (κ × γ)) :
    ∃ keys : List κ, keys.Pairwise (· < ·) ∧
    (∀ k, k ∈ keys ↔ strand k entries ≠ []) ∧
    ((entries.foldl (gather f d) []).mergeSort fun x y => x.1 ≤ y.1) =
      keys.map fun k => (k, (strand k entries).foldl f d) := by
  have hnodup : ((entries.foldl (gather f d) []).map Prod.fst).Nodup := nodup_keys_gather (by simp)
  have hperm := List.mergeSort_perm (entries.foldl (gather f d) []) fun x y => decide (x.1 ≤ y.1)
  have hsorted : ((entries.foldl (gather f d) []).mergeSort fun x y => x.1 ≤ y.1).Pairwise
      fun x y => decide (x.1 ≤ y.1) = true :=
    List.pairwise_mergeSort (fun _ _ _ => by simpa using le_trans) (fun _ _ => by simpa using le_total _ _) _
  have hlookup (k : κ) (x : β) (hmem : (k, x) ∈ entries.foldl (gather f d) []) :
      strand k entries ≠ [] ∧ x = (strand k entries).foldl f d := by
    have hfound := lookup_of_mem hnodup hmem
    rw [lookup_gather] at hfound
    split_ifs at hfound with hstrand
    · cases hfound
    · exact ⟨hstrand, (Option.some.inj hfound).symm⟩
  refine ⟨((entries.foldl (gather f d) []).mergeSort fun x y => x.1 ≤ y.1).map Prod.fst, ?_, fun k => ?_, ?_⟩
  · have hdistinct := (hperm.map Prod.fst).nodup_iff.mpr hnodup
    refine (List.pairwise_map.mpr (hsorted.imp fun h => of_decide_eq_true h)).imp₂ (fun _ _ hle hne => ?_) hdistinct
    exact lt_of_le_of_ne hle hne
  · rw [(hperm.map Prod.fst).mem_iff]
    constructor
    · intro hk
      obtain ⟨entry, hentry, rfl⟩ := List.mem_map.mp hk
      exact (hlookup _ _ hentry).1
    · intro hstrand
      have hfound : (entries.foldl (gather f d) []).lookup k = some ((strand k entries).foldl f d) := by
        rw [lookup_gather, if_neg hstrand]
        rfl
      exact List.mem_map.mpr ⟨_, mem_of_lookup hfound, rfl⟩
  · rw [List.map_map]
    refine (List.map_id _).symm.trans (List.map_congr_left fun entry hentry => ?_)
    exact Prod.ext rfl (hlookup _ _ (hperm.subset hentry)).2

end MyTeam.Py
