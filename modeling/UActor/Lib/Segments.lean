import Mathlib.Data.List.Basic

/-!
# Segments

Lists that are joined with a separator, and the places where a segment stands between separators
or ends.
-/

namespace Segments

variable {α : Type} {sep : α} {pat s : List α}

/-- The pattern stands in the list with a separator or an end on both sides. -/
def Delimited (sep : α) (pat s : List α) : Prop :=
  ∃ pre post, s = pre ++ pat ++ post ∧ (pre = [] ∨ ∃ p, pre = p ++ [sep]) ∧
    (post = [] ∨ ∃ q, post = sep :: q)

theorem delimited_of_mem {l : List (List α)} (h : pat ∈ l) :
    Delimited sep pat ([sep].intercalate l) := by
  induction l with
  | nil => simp at h
  | cons a l ih =>
    by_cases hl : l = []
    · subst hl
      obtain rfl := List.mem_singleton.mp h
      exact ⟨[], [], by simp, Or.inl rfl, Or.inl rfl⟩
    · rw [List.intercalate_cons_of_ne_nil hl]
      rcases List.mem_cons.mp h with rfl | h
      · exact ⟨[], sep :: [sep].intercalate l, by simp, Or.inl rfl, Or.inr ⟨_, rfl⟩⟩
      · obtain ⟨pre, post, hs, hpre, hpost⟩ := ih h
        rw [hs]
        refine ⟨a ++ [sep] ++ pre, post, by simp, Or.inr ?_, hpost⟩
        rcases hpre with rfl | ⟨p, rfl⟩
        · exact ⟨a, by simp⟩
        · exact ⟨a ++ [sep] ++ p, by simp⟩

theorem delimited_iff [DecidableEq α] (hpat : sep ∉ pat) :
    Delimited sep pat s ↔ pat ∈ s.splitOn sep := by
  constructor
  · rintro ⟨pre, post, rfl, hpre, hpost⟩
    have htail : pat ∈ (pat ++ post).splitOn sep := by
      rcases hpost with rfl | ⟨q, rfl⟩
      · rw [List.append_nil, List.splitOn_eq_singleton hpat]
        exact List.mem_singleton.mpr rfl
      · rw [List.splitOn_append_cons_self_of_not_mem hpat]
        exact List.mem_cons_self
    rcases hpre with rfl | ⟨p, rfl⟩
    · exact htail
    · rw [List.append_assoc, List.append_assoc, List.singleton_append,
        List.splitOn_append_cons_self]
      exact List.mem_append_right _ htail
  · intro h
    have hmem : Delimited sep pat _ := delimited_of_mem h
    rwa [List.intercalate_splitOn] at hmem

theorem delimited_intercalate [DecidableEq α] (hpat : sep ∉ pat) (hne : pat ≠ [])
    {l : List (List α)} (hl : ∀ a ∈ l, sep ∉ a) :
    Delimited sep pat ([sep].intercalate l) ↔ pat ∈ l := by
  rw [delimited_iff hpat]
  by_cases hnil : l = []
  · subst hnil
    simp [hne]
  · rw [List.splitOn_intercalate sep hl hnil]

theorem intercalate_snoc {l : List (List α)} (hl : l ≠ []) (a : List α) :
    [sep].intercalate (l ++ [a]) = [sep].intercalate l ++ sep :: a := by
  induction l with
  | nil => exact absurd rfl hl
  | cons b l ih =>
    by_cases hb : l = []
    · subst hb
      simp
    · rw [List.cons_append, List.intercalate_cons_of_ne_nil (by simp),
        List.intercalate_cons_of_ne_nil hb, ih hb]
      simp

end Segments
