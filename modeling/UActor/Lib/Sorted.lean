import Mathlib.Data.List.Pairwise
import Mathlib.Order.Lattice
import Mathlib.Data.List.TakeWhile

/-!
# Lower bounds

The place that a lower bound search finds in a list with strictly increasing keys.
-/

namespace Sorted

variable {α κ : Type} [LinearOrder κ] {k : α → κ} {x : κ} {l : List α}

theorem lt_of_mem_takeWhile {i : α} (h : i ∈ l.takeWhile fun i => decide (k i < x)) : k i < x := by
  simpa using List.all_eq_true.mp List.all_takeWhile i h

theorem le_of_mem_dropWhile (hl : l.Pairwise fun i j => k i < k j) {i : α}
    (h : i ∈ l.dropWhile fun i => decide (k i < x)) : x ≤ k i := by
  induction l with
  | nil => simp at h
  | cons a l ih =>
    rw [List.pairwise_cons] at hl
    rw [List.dropWhile_cons] at h
    split at h
    · exact ih hl.2 h
    · rename_i ha
      have hxa : x ≤ k a := by simpa using ha
      rcases List.mem_cons.mp h with rfl | h
      · exact hxa
      · exact le_trans hxa (le_of_lt (hl.1 i h))

theorem pairwise_insert {before after : List α} {i : α}
    (hl : (before ++ after).Pairwise fun i j => k i < k j) (hb : ∀ j ∈ before, k j < k i)
    (ha : ∀ j ∈ after, k i < k j) : (before ++ i :: after).Pairwise fun i j => k i < k j := by
  rw [List.pairwise_append] at hl ⊢
  refine ⟨hl.1, List.pairwise_cons.mpr ⟨ha, hl.2.1⟩, ?_⟩
  intro j hj m hm
  rcases List.mem_cons.mp hm with rfl | hm
  · exact hb j hj
  · exact hl.2.2 j hj m hm

end Sorted
