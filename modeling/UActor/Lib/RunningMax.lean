import Mathlib.Data.List.Basic
import Mathlib.Data.List.Induction
import Mathlib.Data.List.Nodup
import Mathlib.Data.List.Pairwise

/-!
# A running maximum

One pass over a list that keeps what the items of the highest rank so far put out. The rank is
kept in a register of `k` values, so a higher one is kept modulo `k`.
-/

namespace RunningMax

variable {α β : Type} {k : Nat} {rank : α → Nat} {out : α → List β}

/-- A higher rank discards what was collected, a lower one is skipped. -/
def offer (k : Nat) (rank : α → Nat) (out : α → List β) (st : Nat × List β) (x : α) :
    Nat × List β :=
  if st.1 < rank x then (rank x % k, out x)
  else if rank x < st.1 then st
  else (st.1, st.2 ++ out x)

def collect (k : Nat) (rank : α → Nat) (out : α → List β) (l : List α) (st : Nat × List β) :
    Nat × List β :=
  l.foldl (offer k rank out) st

def IsTop (rank : α → Nat) (l : List α) (x : α) : Prop := x ∈ l ∧ ∀ y ∈ l, rank y ≤ rank x

theorem exists_isTop {l : List α} (hne : l ≠ []) : ∃ x, IsTop rank l x := by
  induction l with
  | nil => exact absurd rfl hne
  | cons a l ih =>
    by_cases hl : l = []
    · subst hl
      exact ⟨a, by simp [IsTop]⟩
    · obtain ⟨x, hx, htop⟩ := ih hl
      by_cases ha : rank x ≤ rank a
      · refine ⟨a, List.mem_cons_self, List.forall_mem_cons.mpr ⟨Nat.le_refl _, fun y hy => ?_⟩⟩
        exact Nat.le_trans (htop y hy) ha
      · exact ⟨x, List.mem_cons_of_mem _ hx, List.forall_mem_cons.mpr ⟨by omega, htop⟩⟩

/-- What the pass should collect: the output of the top items, each once. -/
def Right (k : Nat) (rank : α → Nat) (out : α → List β) (l : List α) : Prop :=
  (collect k rank out l (0, [])).2.Nodup ∧
    ∀ b, b ∈ (collect k rank out l (0, [])).2 ↔ ∃ x, IsTop rank l x ∧ b ∈ out x

/-- The outputs of the items can be told apart. -/
structure Apart (out : α → List β) (l : List α) : Prop where
  disjoint : l.Pairwise fun x y => (out x).Disjoint (out y)
  nodup : ∀ x ∈ l, (out x).Nodup
  nonempty : ∀ x ∈ l, out x ≠ []

theorem Apart.eq_of_mem {l : List α} (h : Apart out l) {x y : α} (hx : x ∈ l) (hy : y ∈ l) {b : β}
    (hbx : b ∈ out x) (hby : b ∈ out y) : x = y := by
  by_contra hne
  have hsymm : Std.Symm fun x y => (out x).Disjoint (out y) := ⟨fun _ _ h _ hy hx => h hx hy⟩
  exact h.disjoint.forall hx hy hne hbx hby

/-! ## Ranks that fit -/

/-- While all ranks fit into the register, it holds the highest one. -/
theorem collect_of_fits (l : List α) (hfits : ∀ x ∈ l, rank x < k) :
    ∃ n, collect k rank out l (0, []) = (n, (l.filter fun x => rank x = n).flatMap out) ∧
      (∀ x ∈ l, rank x ≤ n) ∧ (n = 0 ∨ ∃ x ∈ l, rank x = n) := by
  induction l using List.reverseRecOn with
  | nil => exact ⟨0, rfl, by simp, Or.inl rfl⟩
  | append_singleton l a ih =>
    obtain ⟨n, hcol, hle, hn⟩ := ih fun x hx => hfits x (List.mem_append_left _ hx)
    have ha : rank a % k = rank a := Nat.mod_eq_of_lt (hfits a (by simp))
    have hfold : collect k rank out (l ++ [a]) (0, []) =
        offer k rank out (n, (l.filter fun x => rank x = n).flatMap out) a := by
      rw [← hcol]
      simp [collect]
    rw [hfold]
    unfold offer
    dsimp only
    by_cases hlt : n < rank a
    · refine ⟨rank a, ?_, ?_, Or.inr ⟨a, by simp, rfl⟩⟩
      · have hnone : l.filter (fun x => rank x = rank a) = [] := by
          rw [List.filter_eq_nil_iff]
          intro x hx
          have := hle x hx
          simp only [decide_eq_true_eq]
          omega
        rw [if_pos hlt, ha, List.filter_append, hnone]
        simp
      · intro x hx
        rcases List.mem_append.mp hx with hx | hx
        · have := hle x hx
          omega
        · exact Nat.le_of_eq (congrArg rank (List.mem_singleton.mp hx))
    · rw [if_neg hlt]
      have hup : ∀ x ∈ l ++ [a], rank x ≤ n := by
        intro x hx
        rcases List.mem_append.mp hx with hx | hx
        · exact hle x hx
        · rw [List.mem_singleton.mp hx]
          omega
      have hreached : n = 0 ∨ ∃ x ∈ l ++ [a], rank x = n := by
        rcases hn with hn | ⟨x, hx, hxn⟩
        · exact Or.inl hn
        · exact Or.inr ⟨x, List.mem_append_left _ hx, hxn⟩
      refine ⟨n, ?_, hup, hreached⟩
      rw [List.filter_append, List.flatMap_append]
      split
      · have hne : ¬ rank a = n := by omega
        simp [hne]
      · have heq : rank a = n := by omega
        simp [heq]

theorem right_of_fits {l : List α} (h : Apart out l) (hfits : ∀ x ∈ l, rank x < k) :
    Right k rank out l := by
  obtain ⟨n, hcol, hle, hn⟩ : ∃ n, collect k rank out l (0, []) =
      (n, (l.filter fun x => rank x = n).flatMap out) ∧ _ := collect_of_fits l hfits
  unfold Right
  rw [hcol]
  constructor
  · rw [List.nodup_flatMap]
    exact ⟨fun x hx => h.nodup x (List.mem_of_mem_filter hx),
      h.disjoint.sublist List.filter_sublist⟩
  · intro b
    simp only [List.mem_flatMap, List.mem_filter, decide_eq_true_eq]
    constructor
    · rintro ⟨x, ⟨hx, hxn⟩, hb⟩
      exact ⟨x, ⟨hx, fun y hy => hxn ▸ hle y hy⟩, hb⟩
    · rintro ⟨x, ⟨hx, htop⟩, hb⟩
      refine ⟨x, ⟨hx, ?_⟩, hb⟩
      have hxn := hle x hx
      rcases hn with rfl | ⟨y, hy, rfl⟩
      · omega
      · have := htop y hy
        omega

/-! ## A rank that does not fit -/

theorem collect_append (l₁ l₂ : List α) (st : Nat × List β) :
    collect k rank out (l₁ ++ l₂) st = collect k rank out l₂ (collect k rank out l₁ st) := by
  simp [collect]

theorem collect_lt (hk : 0 < k) (l : List α) {st : Nat × List β} (h : st.1 < k) :
    (collect k rank out l st).1 < k := by
  induction l generalizing st with
  | nil => exact h
  | cons a l ih =>
    apply ih
    unfold offer
    split
    · exact Nat.mod_lt _ hk
    · split
      · exact h
      · exact h

/-- A rank beyond the register discards whatever was collected before it. -/
theorem collect_wide (hk : 0 < k) (l₁ l₂ : List α) {x : α} (hx : k ≤ rank x) :
    collect k rank out (l₁ ++ x :: l₂) (0, []) = collect k rank out l₂ (rank x % k, out x) := by
  have hlt : (collect k rank out l₁ (0, [])).1 < k := collect_lt hk l₁ hk
  rw [collect_append]
  have hstep : offer k rank out (collect k rank out l₁ (0, [])) x = (rank x % k, out x) := by
    unfold offer
    rw [if_pos (by omega)]
  simp only [collect, List.foldl_cons] at hstep ⊢
  rw [hstep]

theorem collect_lower {l : List α} {st : Nat × List β} (h : ∀ y ∈ l, rank y < st.1) :
    collect k rank out l st = st := by
  induction l with
  | nil => rfl
  | cons a l ih =>
    rw [List.forall_mem_cons] at h
    have hstep : offer k rank out st a = st := by
      unfold offer
      rw [if_neg (by omega), if_pos h.1]
    have hrest := ih h.2
    simp only [collect, List.foldl_cons] at hrest ⊢
    rw [hstep, hrest]

theorem mem_collect {l : List α} {st : Nat × List β} {b : β}
    (hb : b ∈ (collect k rank out l st).2) :
    b ∈ st.2 ∨ ∃ y ∈ l, b ∈ out y := by
  induction l generalizing st with
  | nil => exact Or.inl hb
  | cons a l ih =>
    have hst : b ∈ (offer k rank out st a).2 → b ∈ st.2 ∨ b ∈ out a := by
      unfold offer
      split
      · exact Or.inr
      · split
        · exact Or.inl
        · exact List.mem_append.mp
    rcases ih hb with hb | ⟨y, hy, hb⟩
    · rcases hst hb with hb | hb
      · exact Or.inl hb
      · exact Or.inr ⟨a, List.mem_cons_self, hb⟩
    · exact Or.inr ⟨y, List.mem_cons_of_mem _ hy, hb⟩

theorem collect_keeps {l : List α} {s : List α} {st : Nat × List β} (h : ∃ y ∈ s, out y ⊆ st.2) :
    ∃ y ∈ s ++ l, out y ⊆ (collect k rank out l st).2 := by
  induction l generalizing s st with
  | nil =>
    obtain ⟨y, hy, hsub⟩ := h
    exact ⟨y, List.mem_append_left _ hy, hsub⟩
  | cons a l ih =>
    have hstep : ∃ y ∈ s ++ [a], out y ⊆ (offer k rank out st a).2 := by
      obtain ⟨y, hy, hsub⟩ := h
      unfold offer
      split
      · exact ⟨a, by simp, List.Subset.refl _⟩
      · split
        · exact ⟨y, List.mem_append_left _ hy, hsub⟩
        · exact ⟨y, List.mem_append_left _ hy, fun b hb => List.mem_append_left _ (hsub hb)⟩
    have hrest := ih hstep
    rw [List.append_assoc, List.singleton_append] at hrest
    exact hrest

theorem collect_reached {l : List α} {st : Nat × List β} (h : ∃ y ∈ l, st.1 ≤ rank y) :
    ∃ y ∈ l, out y ⊆ (collect k rank out l st).2 := by
  induction l generalizing st with
  | nil => simp at h
  | cons a l ih =>
    by_cases ha : st.1 ≤ rank a
    · have hput : out a ⊆ (offer k rank out st a).2 := by
        unfold offer
        split
        · exact List.Subset.refl _
        · rw [if_neg (by omega)]
          exact fun b hb => List.mem_append_right _ hb
      exact collect_keeps (s := [a]) ⟨a, by simp, hput⟩
    · have hskip : offer k rank out st a = st := by
        unfold offer
        rw [if_neg (by omega), if_pos (by omega)]
      obtain ⟨y, hy, hle⟩ := h
      rcases List.mem_cons.mp hy with rfl | hy
      · exact absurd hle ha
      · obtain ⟨z, hz, hsub⟩ := ih ⟨y, hy, hle⟩
        refine ⟨z, List.mem_cons_of_mem _ hz, ?_⟩
        simp only [collect, List.foldl_cons] at hsub ⊢
        rwa [hskip]

theorem right_of_wide (hk : 0 < k) {l₁ l₂ : List α} {x : α} (h : Apart out (l₁ ++ x :: l₂))
    (hx : k ≤ rank x) (hone : ∀ y ∈ l₁ ++ l₂, rank y < rank x)
    (hafter : ∀ y ∈ l₂, rank y < rank x % k) :
    Right k rank out (l₁ ++ x :: l₂) := by
  unfold Right
  rw [collect_wide hk l₁ l₂ hx, collect_lower hafter]
  refine ⟨h.nodup x (by simp), fun b => ⟨fun hb => ⟨x, ⟨by simp, ?_⟩, hb⟩, ?_⟩⟩
  · intro y hy
    rcases List.mem_append.mp hy with hy | hy
    · exact Nat.le_of_lt (hone y (List.mem_append_left _ hy))
    · rcases List.mem_cons.mp hy with rfl | hy
      · exact Nat.le_refl _
      · exact Nat.le_of_lt (hone y (List.mem_append_right _ hy))
  · rintro ⟨y, ⟨hy, htop⟩, hb⟩
    have hxy := htop x (by simp)
    rcases List.mem_append.mp hy with hy | hy
    · have := hone y (List.mem_append_left _ hy)
      omega
    · rcases List.mem_cons.mp hy with rfl | hy
      · exact hb
      · have := hone y (List.mem_append_right _ hy)
        omega

theorem before_wide (hk : 0 < k) {l₁ l₂ : List α} {x : α} (h : Apart out (l₁ ++ x :: l₂))
    (hx : k ≤ rank x) (hr : Right k rank out (l₁ ++ x :: l₂)) {w : α} (hw : w ∈ l₁) :
    ¬ IsTop rank (l₁ ++ x :: l₂) w := by
  intro htop
  obtain ⟨b, hb⟩ := List.exists_mem_of_ne_nil _ (h.nonempty w (List.mem_append_left _ hw))
  have hmem := (hr.2 b).mpr ⟨w, htop, hb⟩
  rw [collect_wide hk l₁ l₂ hx] at hmem
  have hapart := (List.pairwise_append.mp h.disjoint).2.2 w hw
  rcases mem_collect hmem with hbx | ⟨y, hy, hby⟩
  · exact hapart x (by simp) hb hbx
  · exact hapart y (List.mem_cons_of_mem _ hy) hb hby

theorem wide_of_right (hk : 0 < k) {l₁ l₂ : List α} {x : α} (h : Apart out (l₁ ++ x :: l₂))
    (hx : k ≤ rank x) (htop : IsTop rank (l₁ ++ x :: l₂) x)
    (hr : Right k rank out (l₁ ++ x :: l₂)) :
    (∀ y ∈ l₁ ++ l₂, rank y < rank x) ∧ ∀ y ∈ l₂, rank y < rank x % k := by
  have hone : ∀ y ∈ l₁ ++ l₂, rank y < rank x := by
    intro y hy
    have hle : rank y ≤ rank x := by
      apply htop.2
      rcases List.mem_append.mp hy with hy | hy
      · exact List.mem_append_left _ hy
      · exact List.mem_append_right _ (List.mem_cons_of_mem _ hy)
    rcases Nat.lt_or_eq_of_le hle with hlt | heq
    · exact hlt
    · exfalso
      rcases List.mem_append.mp hy with hy | hy
      · exact before_wide hk h hx hr hy ⟨List.mem_append_left _ hy, fun z hz => heq ▸ htop.2 z hz⟩
      · -- then `x` stands before the wide item `y`
        obtain ⟨a, b, rfl⟩ := List.append_of_mem hy
        have hsplit : l₁ ++ x :: (a ++ y :: b) = (l₁ ++ x :: a) ++ y :: b := by simp
        rw [hsplit] at h hr htop
        exact before_wide hk h (heq ▸ hx) hr (by simp) htop
  refine ⟨hone, ?_⟩
  intro y hy
  by_contra hlt
  obtain ⟨z, hz, hsub⟩ : ∃ z ∈ l₂, out z ⊆ (collect k rank out l₂ (rank x % k, out x)).2 :=
    collect_reached ⟨y, hy, Nat.le_of_not_lt hlt⟩
  have hzl : z ∈ l₁ ++ x :: l₂ := List.mem_append_right _ (List.mem_cons_of_mem _ hz)
  obtain ⟨b, hb⟩ := List.exists_mem_of_ne_nil _ (h.nonempty z hzl)
  have hmem := hsub hb
  rw [← collect_wide hk l₁ l₂ hx] at hmem
  obtain ⟨w, hw, hbw⟩ := (hr.2 b).mp hmem
  have hzw := h.eq_of_mem hzl hw.1 hb hbw
  have hxw := hw.2 x (by simp)
  have hzx := hone z (List.mem_append_right _ hz)
  rw [hzw] at hzx
  omega

theorem wide_of_right_front (hk : 0 < k) {l : List α} {x : α} (h : Apart out (x :: l))
    (hx : k ≤ rank x) (htop : IsTop rank (x :: l) x) (hr : Right k rank out (x :: l)) :
    (∀ y ∈ l, rank y < rank x) ∧ ∀ y ∈ l, rank y < rank x % k := by
  rw [← List.nil_append (x :: l)] at h htop hr
  exact wide_of_right hk h hx htop hr

theorem collect_congr {out' : α → List β} {l l' : List α}
    (h : List.Forall₂ (fun x y => rank x = rank y ∧ out x = out' y) l l') (st : Nat × List β) :
    collect k rank out l st = collect k rank out' l' st := by
  induction h generalizing st with
  | nil => rfl
  | cons hxy h ih =>
    have hstep : ∀ x y, rank x = rank y ∧ out x = out' y →
        offer k rank out st x = offer k rank out' st y := by
      rintro x y ⟨hr, ho⟩
      unfold offer
      rw [hr, ho]
    unfold collect at ih ⊢
    rw [List.foldl_cons, List.foldl_cons, hstep _ _ hxy]
    exact ih _

end RunningMax
