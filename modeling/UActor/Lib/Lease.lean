import Mathlib.Data.List.Induction

/-!
# Leases

A lease is given ends, one after the other, and is meant to hold until the last of them. The least
value stands for no end at all.
-/

namespace Lease

theorem max?_snoc {α : Type} [LE α] [Max α] [Std.IsLinearOrder α] [Std.LawfulOrderMax α]
    (l : List α) (x : α) :
    (l ++ [x]).max? = some (l.max?.elim x fun y => max x y) := by
  rw [List.max?_eq_some_iff]
  cases hl : l.max? with
  | none =>
    obtain rfl := List.max?_eq_none_iff.mp hl
    simp [Std.le_refl]
  | some y =>
    obtain ⟨hy, htop⟩ := List.max?_eq_some_iff.mp hl
    refine ⟨?_, ?_⟩
    · rcases Std.max_eq_or (a := x) (b := y) with h | h
      · simp [h]
      · simp [h, hy]
    · intro b hb
      rcases List.mem_append.mp hb with hb | hb
      · exact Std.le_trans (htop b hb) Std.right_le_max
      · rw [List.mem_singleton.mp hb]
        exact Std.left_le_max

section

variable {α : Type} [Max α] [DecidableEq α]

/-- An end is given to what may have one. -/
def extend (forever : α) (held : Option α) (x : α) : Option α :=
  match held with
  | none => some x
  | some y => if x = forever then some forever else some (max x y)

def granted (forever : α) (l : List α) : Option α := l.foldl (extend forever) none

/-- What the ends amount to, whatever their order. -/
def due (forever : α) (l : List α) : Option α := if forever ∈ l then some forever else l.max?

@[simp] theorem granted_nil (forever : α) : granted forever [] = none := rfl

theorem granted_snoc (forever : α) (l : List α) (x : α) :
    granted forever (l ++ [x]) = extend forever (granted forever l) x := by
  simp [granted]

/-- Once the lease has no end, it keeps none while it is given none. -/
theorem granted_forever {forever : α} {l : List α} (hne : l ≠ []) (h : ∀ x ∈ l, x = forever) :
    granted forever l = some forever := by
  induction l using List.reverseRecOn with
  | nil => exact absurd rfl hne
  | append_singleton l x _ =>
    have hx := h x (by simp)
    rw [granted_snoc]
    unfold extend
    split
    · rw [hx]
    · rw [if_pos hx]

end

section

variable {α : Type} [LE α] [Max α] [DecidableEq α] [Std.IsLinearOrder α] [Std.LawfulOrderMax α]
  {forever : α} {l : List α}

theorem granted_of_finite (h : forever ∉ l) : granted forever l = l.max? := by
  induction l using List.reverseRecOn with
  | nil => rfl
  | append_singleton l x ih =>
    simp only [List.mem_append, List.mem_singleton, not_or] at h
    rw [granted_snoc, ih h.1, max?_snoc]
    unfold extend
    cases l.max? with
    | none => rfl
    | some y => exact if_neg (Ne.symm h.2)

theorem due_perm {l' : List α} (h : l'.Perm l) : due forever l' = due forever l := by
  unfold due
  simp only [h.mem_iff]
  congr 1
  cases hl : l.max? with
  | none =>
    obtain rfl := List.max?_eq_none_iff.mp hl
    rw [h.eq_nil]
    rfl
  | some x =>
    obtain ⟨hx, htop⟩ := List.max?_eq_some_iff.mp hl
    exact List.max?_eq_some_iff.mpr ⟨h.mem_iff.mpr hx, fun y hy => htop y (h.mem_iff.mp hy)⟩

theorem granted_snoc_ne (hleast : ∀ x : α, forever ≤ x) {x : α} (hx : x ≠ forever) :
    granted forever (l ++ [x]) ≠ some forever := by
  rw [granted_snoc]
  unfold extend
  split
  · simpa using hx
  · rename_i y _
    rw [if_neg hx, Ne, Option.some_inj]
    intro hmax
    have hle : x ≤ forever := hmax ▸ Std.left_le_max
    exact hx (Std.le_antisymm hle (hleast x))

/-- The order in which items give the ends is without effect exactly if they are all ends, or none
is. -/
theorem unordered_iff {β : Type} (f : β → α) {l : List β} (hleast : ∀ x : α, forever ≤ x) :
    (∀ l' : List β, l'.Perm l → granted forever (l'.map f) = due forever (l.map f)) ↔
      (∀ b ∈ l, f b ≠ forever) ∨ ∀ b ∈ l, f b = forever := by
  constructor
  · intro h
    by_contra hmixed
    rw [not_or] at hmixed
    simp only [not_forall, ne_eq, not_not] at hmixed
    obtain ⟨⟨a, ha, hforever⟩, b, hb, hne⟩ := hmixed
    obtain ⟨pre, post, rfl⟩ := List.append_of_mem hb
    have hperm : ((pre ++ post) ++ [b]).Perm (pre ++ b :: post) :=
      (List.perm_append_singleton b (pre ++ post)).trans List.perm_middle.symm
    have hlast := h _ hperm
    rw [due, if_pos (hforever ▸ List.mem_map_of_mem ha), List.map_append] at hlast
    exact granted_snoc_ne hleast hne hlast
  · rintro h l' hperm
    rw [← due_perm (hperm.map f)]
    rcases h with h | h
    · have h' : forever ∉ l'.map f := by
        intro hmem
        obtain ⟨b, hb, heq⟩ := List.mem_map.mp hmem
        exact h b (hperm.mem_iff.mp hb) heq
      rw [due, if_neg h', granted_of_finite h']
    · have h' : ∀ x ∈ l'.map f, x = forever := by
        intro x hx
        obtain ⟨b, hb, rfl⟩ := List.mem_map.mp hx
        exact h b (hperm.mem_iff.mp hb)
      cases l' with
      | nil => simp [due]
      | cons b l' =>
        have hmem : forever ∈ (b :: l').map f := by
          have hb := h' (f b) (by simp)
          simp [hb]
        rw [granted_forever (by simp) h', due, if_pos hmem]

end

end Lease
