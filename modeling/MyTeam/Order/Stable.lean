import Mathlib.Data.List.Perm.Basic
import Mathlib.Data.List.Sort

/-!
# Stable sorting

Sorting by a key leaves elements with the same key in the order in which they come. So what is
sorted depends on the elements, and on the order of those that tie. Of two elements of a list
without repetition, the one that is found first is the one that comes first.
-/

namespace MyTeam.Order

open List

variable {α κ : Type*} {xs ys : List α} {x y : α}

section First

variable [DecidableEq κ] {f : α → κ}

/-- Of two elements, the one that comes first is found. -/
theorem find?_of_pair_sublist (hnodup : (xs.map f).Nodup) (h : [x, y] <+ xs) :
    (xs.map f).find? (fun k => k = f x ∨ k = f y) = some (f x) := by
  induction xs with
  | nil => cases h
  | cons first rest ih =>
    rw [map_cons, nodup_cons] at hnodup
    rw [map_cons]
    rcases sublist_cons_iff.mp h with h | ⟨_, hpair, h⟩
    · -- neither of them is the first, since both come later
      have hx : f x ∈ rest.map f := mem_map_of_mem (h.subset (by simp))
      have hy : f y ∈ rest.map f := mem_map_of_mem (h.subset (by simp))
      rw [find?_cons_of_neg, ih hnodup.2 h]
      rw [decide_eq_true_eq]
      rintro (heq | heq)
      · exact hnodup.1 (heq ▸ hx)
      · exact hnodup.1 (heq ▸ hy)
    · obtain ⟨rfl, -⟩ := cons_eq_cons.mp hpair
      exact find?_cons_of_pos (by simp)

/-- Of two elements, the one that is found comes first. -/
theorem pair_sublist_of_find? (hnodup : (xs.map f).Nodup) (hx : x ∈ xs) (hy : y ∈ xs) (hne : f x ≠ f y)
    (h : (xs.map f).find? (fun k => k = f x ∨ k = f y) = some (f x)) : [x, y] <+ xs := by
  induction xs with
  | nil => cases hx
  | cons first rest ih =>
    rw [map_cons, nodup_cons] at hnodup
    rw [map_cons] at h
    rcases mem_cons.mp hx with rfl | hx
    · rcases mem_cons.mp hy with rfl | hy
      · exact absurd rfl hne
      · exact cons_sublist_cons.mpr (singleton_sublist.mpr hy)
    · rcases mem_cons.mp hy with rfl | hy
      · rw [find?_cons_of_pos (by simp)] at h
        exact absurd (Option.some.inj h).symm hne
      · apply Sublist.cons
        apply ih hnodup.2 hx hy
        rwa [find?_cons_of_neg] at h
        rw [decide_eq_true_eq]
        rintro (heq | heq)
        · exact hnodup.1 (heq ▸ mem_map_of_mem hx)
        · exact hnodup.1 (heq ▸ mem_map_of_mem hy)

end First

section Pairs

/-- Two elements of a list come in one order or in the other. -/
theorem pair_sublist_or (hx : x ∈ xs) (hy : y ∈ xs) (hne : x ≠ y) : [x, y] <+ xs ∨ [y, x] <+ xs := by
  induction xs with
  | nil => cases hx
  | cons first rest ih =>
    rcases mem_cons.mp hx with rfl | hx'
    · rcases mem_cons.mp hy with rfl | hy'
      · exact absurd rfl hne
      · exact .inl (cons_sublist_cons.mpr (singleton_sublist.mpr hy'))
    · rcases mem_cons.mp hy with rfl | hy'
      · exact .inr (cons_sublist_cons.mpr (singleton_sublist.mpr hx'))
      · exact (ih hx' hy').imp (Sublist.cons _) (Sublist.cons _)

/-- Two elements do not come in both orders. -/
theorem not_pair_sublist (hnodup : xs.Nodup) (h : [x, y] <+ xs) : ¬ [y, x] <+ xs := by
  classical
  intro h'
  have hmap : (xs.map id).Nodup := by rwa [map_id]
  have hfirst := find?_of_pair_sublist hmap h
  have hlast := find?_of_pair_sublist hmap h'
  have hswap : (fun k => decide (k = id y ∨ k = id x)) = fun k => decide (k = id x ∨ k = id y) := by
    funext k
    simp only [or_comm]
  rw [hswap, hfirst] at hlast
  obtain rfl : x = y := Option.some.inj hlast
  exact absurd (hnodup.sublist h) (by simp)

end Pairs

section Sorting

variable [LinearOrder κ] {key : α → κ} {p : α → Bool}

/-- Elements that tie stay in order. -/
theorem pair_sublist_mergeSort_key (h : [x, y] <+ xs) (hle : key x ≤ key y) :
    [x, y] <+ xs.mergeSort fun x y => key x ≤ key y :=
  pair_sublist_mergeSort (fun _ _ _ => by simpa using le_trans) (fun _ _ => by simpa using le_total _ _)
    (by simpa using hle) h

/-- A sorted list is in the order of the keys. -/
theorem key_le_of_pair_sublist (h : [x, y] <+ xs.mergeSort fun x y => key x ≤ key y) : key x ≤ key y := by
  have hsorted : (xs.mergeSort fun x y => key x ≤ key y).Pairwise fun x y => decide (key x ≤ key y) = true :=
    pairwise_mergeSort (fun _ _ _ => by simpa using le_trans) (fun _ _ => by simpa using le_total _ _) xs
  exact of_decide_eq_true (hsorted.forall_sublist h)

/-- What is left of a sorted list is determined by the elements, and by the order of those that are left and tie. -/
theorem filter_mergeSort_congr (hnodup : xs.Nodup) (hperm : xs.Perm ys)
    (hties : ∀ {x y}, p x = true → p y = true → key x = key y → [x, y] <+ xs → [x, y] <+ ys) :
    (xs.mergeSort fun x y => key x ≤ key y).filter p = (ys.mergeSort fun x y => key x ≤ key y).filter p := by
  have hnodup' : ys.Nodup := hperm.nodup_iff.mp hnodup
  -- both lists are in the order of the keys, and of `ys` where keys agree
  have hordered (zs : List α) (hzs : zs.Nodup)
      (hkeeps : ∀ {x y}, p x = true → p y = true → key x = key y → [x, y] <+ zs → [x, y] <+ ys) :
      ((zs.mergeSort fun x y => key x ≤ key y).filter p).Pairwise
        fun x y => key x < key y ∨ key x = key y ∧ [x, y] <+ ys := by
    apply pairwise_of_forall_sublist
    intro x y h
    have hsorted : [x, y] <+ zs.mergeSort fun x y => key x ≤ key y := h.trans filter_sublist
    have hne : x ≠ y := by
      rintro rfl
      exact absurd (((mergeSort_perm zs _).nodup_iff.mpr hzs).sublist hsorted) (by simp)
    rcases (key_le_of_pair_sublist hsorted).lt_or_eq with hlt | heq
    · exact .inl hlt
    · refine .inr ⟨heq, hkeeps (mem_filter.mp (h.subset (by simp))).2 (mem_filter.mp (h.subset (by simp))).2 heq ?_⟩
      have hx : x ∈ zs := mem_mergeSort.mp (hsorted.subset (by simp))
      have hy : y ∈ zs := mem_mergeSort.mp (hsorted.subset (by simp))
      apply (pair_sublist_or hx hy hne).resolve_right
      intro hswapped
      exact not_pair_sublist ((mergeSort_perm zs _).nodup_iff.mpr hzs) hsorted
        (pair_sublist_mergeSort_key hswapped heq.ge)
  apply Perm.eq_of_pairwise _ (hordered xs hnodup hties) (hordered ys hnodup' fun _ _ _ h => h)
  · exact (((mergeSort_perm xs _).trans hperm).trans (mergeSort_perm ys _).symm).filter p
  · rintro x y - - (hlt | ⟨heq, hxy⟩) (hlt' | ⟨heq', hyx⟩)
    · exact absurd hlt' hlt.not_gt
    · exact absurd heq' hlt.ne'
    · exact absurd heq hlt'.ne'
    · exact absurd hyx (not_pair_sublist hnodup' hxy)

end Sorting

end MyTeam.Order
