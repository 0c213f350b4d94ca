import Mathlib.Data.List.Basic

/-!
# Turns

Some steps of a run serve the head of a queue, and what is new goes to its back. So whoever stands
in the queue is served after those before it.
-/

namespace Turns

variable {σ α κ : Type} [DecidableEq κ] {f : σ → α → Option σ} {q : σ → List κ} {serves : α → Bool}

/-- A step takes the head of the queue if it serves, and adds to the back. -/
def Fifo (f : σ → α → Option σ) (q : σ → List κ) (serves : α → Bool) : Prop :=
  ∀ s a s', f s a = some s' → ∃ more, q s' = (if serves a then (q s).tail else q s) ++ more

theorem Fifo.moves (h : Fifo f q serves) {s s' : σ} {a : α} {k : κ} (hstep : f s a = some s')
    (hk : k ∈ q s) (hturn : serves a = true → (q s).head? ≠ some k) :
    k ∈ q s' ∧ (q s).idxOf k = (q s').idxOf k + (serves a).toNat := by
  obtain ⟨more, hq⟩ := h s a s' hstep
  cases hserves : serves a with
  | false =>
    rw [hserves, if_neg Bool.false_ne_true] at hq
    rw [hq, List.idxOf_append_of_mem hk]
    exact ⟨List.mem_append_left _ hk, rfl⟩
  | true =>
    rw [hserves, if_pos rfl] at hq
    obtain ⟨x, rest, heq⟩ := List.exists_cons_of_ne_nil (List.ne_nil_of_mem hk)
    rw [heq] at hk hq
    have hne : x ≠ k := by
      rintro rfl
      exact hturn hserves (by rw [heq]; rfl)
    have hrest : k ∈ rest := (List.mem_cons.mp hk).resolve_left hne.symm
    rw [heq, hq, List.tail_cons, List.idxOf_cons_ne _ hne, List.idxOf_append_of_mem hrest]
    exact ⟨List.mem_append_left _ hrest, rfl⟩

/-- It is served after exactly as many others as stand before it. -/
theorem Fifo.served (h : Fifo f q serves) {s s' : σ} {l : List α} {k : κ}
    (hrun : l.foldlM f s = some s') (hk : k ∈ q s) (hcount : (q s).idxOf k < l.countP serves) :
    ∃ before a after t, l = before ++ a :: after ∧ serves a = true ∧ before.foldlM f s = some t ∧
      before.countP serves = (q s).idxOf k ∧ (q t).head? = some k := by
  induction l generalizing s with
  | nil => simp at hcount
  | cons a l ih =>
    rw [List.foldlM_cons] at hrun
    obtain ⟨t, hfirst, hrest⟩ := Option.bind_eq_some_iff.mp hrun
    by_cases hturn : serves a = true ∧ (q s).head? = some k
    · obtain ⟨rest, hq⟩ := List.head?_eq_some_iff.mp hturn.2
      exact ⟨[], a, l, s, rfl, hturn.1, rfl, by rw [hq]; simp, hturn.2⟩
    · obtain ⟨hk', hplace⟩ := h.moves hfirst hk fun hserves hhead => hturn ⟨hserves, hhead⟩
      have hsum : l.countP serves + (serves a).toNat = (a :: l).countP serves := by
        rw [List.countP_cons]
        cases serves a <;> rfl
      obtain ⟨before, b, after, u, rfl, hb, hbefore, hcount', hhead⟩ := ih hrest hk' (by omega)
      refine ⟨a :: before, b, after, u, rfl, hb, ?_, ?_, hhead⟩
      · rw [List.foldlM_cons, hfirst]
        exact hbefore
      · rw [List.countP_cons, hcount', hplace]
        cases serves a <;> rfl

end Turns
