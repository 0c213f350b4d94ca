import Mathlib.Data.List.Induction

/-!
# Runs

A run folds a step that may fail over a list of inputs.
-/

namespace Runs

variable {σ α : Type} {f : σ → α → Option σ} {init s : σ} {l : List α}

theorem foldlM_snoc (f : σ → α → Option σ) (init : σ) (l : List α) (a : α) :
    (l ++ [a]).foldlM f init = (l.foldlM f init).bind fun s => f s a := by
  rw [List.foldlM_append, Option.bind_eq_bind]
  congr 1
  funext s
  simp [List.foldlM]

theorem foldlM_singleton (f : σ → α → Option σ) (init : σ) (a : α) : [a].foldlM f init = f init a :=
  foldlM_snoc f init [] a

theorem invariant_of (P : σ → Prop) (C : σ → α → Prop) (hinit : P init)
    (hstep : ∀ s a s', P s → C s a → f s a = some s' → P s')
    (hmeets : ∀ pre a post before, l = pre ++ a :: post → pre.foldlM f init = some before →
      C before a)
    (hrun : l.foldlM f init = some s) : P s := by
  induction l using List.reverseRecOn generalizing s with
  | nil =>
    rw [← Option.some.inj hrun]
    exact hinit
  | append_singleton l a ih =>
    rw [foldlM_snoc] at hrun
    obtain ⟨before, hbefore, hlast⟩ := Option.bind_eq_some_iff.mp hrun
    have hP := ih (fun pre b post t heq ht =>
      hmeets pre b (post ++ [a]) t (by rw [heq, List.append_assoc, List.cons_append]) ht) hbefore
    exact hstep before a s hP (hmeets l a [] before rfl hbefore) hlast

theorem invariant (P : σ → Prop) (hinit : P init) (hstep : ∀ s a s', P s → f s a = some s' → P s')
    (hrun : l.foldlM f init = some s) : P s :=
  invariant_of P (fun _ _ => True) hinit (fun s a s' h _ => hstep s a s' h) (fun _ _ _ _ _ _ =>
    trivial) hrun

theorem meets_cons {C : σ → α → Prop} {a : α} (hfirst : f init a = some s) (hC : C init a)
    (hrest : ∀ pre b post before, l = pre ++ b :: post → pre.foldlM f s = some before →
      C before b) :
    ∀ pre b post before, a :: l = pre ++ b :: post → pre.foldlM f init = some before →
    C before b := by
  intro pre b post before heq hbefore
  cases pre with
  | nil =>
    obtain ⟨rfl, -⟩ := List.cons.inj heq
    obtain rfl : init = before := Option.some.inj hbefore
    exact hC
  | cons c pre =>
    obtain ⟨rfl, hl⟩ := List.cons.inj heq
    rw [List.foldlM_cons, hfirst] at hbefore
    exact hrest pre b post before hl hbefore

theorem meets_nil {C : σ → α → Prop} :
    ∀ pre b post before, [] = pre ++ b :: post → pre.foldlM f init = some before → C before b := by
  intro pre b post before heq
  simp at heq

/-- What one step keeps exactly if it meets a condition holds all along a run exactly if all steps
meet it. -/
theorem always_iff (Q P : σ → Prop) (C : σ → α → Prop) (hQ : Q init) (hP : P init)
    (hkeep : ∀ s a s', Q s → f s a = some s' → Q s')
    (hstep : ∀ s a s', Q s → P s → f s a = some s' → (P s' ↔ C s a))
    (hstuck : ∀ s a, Q s → P s → f s a = none → C s a) :
    (∀ pre post s, l = pre ++ post → pre.foldlM f init = some s → P s) ↔
      ∀ pre a post s, l = pre ++ a :: post → pre.foldlM f init = some s → C s a := by
  have hinv : ∀ {pre : List α} {s : σ}, pre.foldlM f init = some s → Q s := fun hrun =>
    invariant Q hQ hkeep hrun
  constructor
  · intro hall pre a post s heq hrun
    have hs := hall pre (a :: post) s heq hrun
    cases hnext : f s a with
    | none => exact hstuck s a (hinv hrun) hs hnext
    | some s' =>
      have hrun' : (pre ++ [a]).foldlM f init = some s' := by
        rw [foldlM_snoc, hrun, Option.bind_some, hnext]
      exact (hstep s a s' (hinv hrun) hs hnext).mp (hall (pre ++ [a]) post s' (by simp [heq]) hrun')
  · intro hmeets pre post s heq hrun
    have hboth : Q s ∧ P s := by
      refine invariant_of (fun s => Q s ∧ P s) C ⟨hQ, hP⟩ ?_ ?_ hrun
      · rintro s a s' ⟨hq, hp⟩ hc hnext
        exact ⟨hkeep s a s' hq hnext, (hstep s a s' hq hp hnext).mpr hc⟩
      · intro pre' a post' before heq' hrun'
        exact hmeets pre' a (post' ++ post) before (by simp [heq, heq']) hrun'
    exact hboth.2

/-- What refers to the inputs so far holds all along a run, and no step fails, exactly if all inputs
meet a condition. -/
theorem history_iff (P : List α → σ → Prop) (C : List α → α → Prop) (hP : P [] init)
    (hstep : ∀ pre a post s, l = pre ++ a :: post → P pre s →
      ((∃ s', f s a = some s' ∧ P (pre ++ [a]) s') ↔ C pre a)) :
    (∀ pre post, l = pre ++ post → ∃ s, pre.foldlM f init = some s ∧ P pre s) ↔
      ∀ pre a post, l = pre ++ a :: post → C pre a := by
  constructor
  · intro hall pre a post heq
    obtain ⟨s, hrun, hs⟩ := hall pre (a :: post) heq
    obtain ⟨s', hrun', hs'⟩ := hall (pre ++ [a]) post (by simp [heq])
    rw [foldlM_snoc, hrun] at hrun'
    exact (hstep pre a post s heq hs).mp ⟨s', hrun', hs'⟩
  · intro hmeets pre
    induction pre using List.reverseRecOn with
    | nil => exact fun _ _ => ⟨init, rfl, hP⟩
    | append_singleton pre a ih =>
      intro post heq
      rw [List.append_assoc, List.singleton_append] at heq
      obtain ⟨s, hrun, hs⟩ := ih (a :: post) heq
      obtain ⟨s', hnext, hs'⟩ := (hstep pre a post s heq hs).mpr (hmeets pre a post heq)
      refine ⟨s', ?_, hs'⟩
      rw [foldlM_snoc, hrun]
      exact hnext

theorem forall_split_iff {C : List α → α → Prop} : (∀ pre a post, l = pre ++ a :: post → C pre a) ↔
    ∀ i : Fin l.length, C (l.take i) l[i] := by
  constructor
  · intro h i
    exact h _ _ (l.drop (i + 1)) (by simp)
  · rintro h pre a post rfl
    have hi := h ⟨pre.length, by simp⟩
    simpa using hi

theorem forall_upTo_cons {P Q : α → Prop} {a : α} :
    (∀ pre b post, a :: l = pre ++ b :: post → (∀ x ∈ pre, Q x) → P b) ↔
      P a ∧ (Q a → ∀ pre b post, l = pre ++ b :: post → (∀ x ∈ pre, Q x) → P b) := by
  constructor
  · intro h
    refine ⟨h [] a l rfl (by simp), fun hq pre b post heq hpre => ?_⟩
    refine h (a :: pre) b post (by rw [heq]; rfl) ?_
    rw [List.forall_mem_cons]
    exact ⟨hq, hpre⟩
  · rintro ⟨hfirst, hrest⟩ pre b post heq hpre
    cases pre with
    | nil =>
      obtain ⟨rfl, -⟩ := List.cons.inj heq
      exact hfirst
    | cons a' pre =>
      obtain ⟨rfl, htail⟩ := List.cons.inj heq
      rw [List.forall_mem_cons] at hpre
      exact hrest hpre.1 pre b post htail hpre.2

theorem foldlM_error_iff {ε : Type} {g : σ → α → Except ε σ} {e : ε} : l.foldlM g init = .error e ↔
    ∃ pre a post s, l = pre ++ a :: post ∧ pre.foldlM g init = .ok s ∧ g s a = .error e := by
  induction l generalizing init with
  | nil =>
    refine iff_of_false (by simp [List.foldlM, pure, Except.pure]) ?_
    rintro ⟨pre, a, post, s, heq, -⟩
    simp at heq
  | cons a l ih =>
    rw [List.foldlM_cons]
    cases hfirst : g init a with
    | error e' =>
      constructor
      · intro h
        exact ⟨[], a, l, init, rfl, rfl, hfirst.trans h⟩
      · rintro ⟨pre, b, post, s, heq, hpre, hb⟩
        cases pre with
        | nil =>
          obtain ⟨rfl, -⟩ := List.cons.inj heq
          obtain rfl : init = s := Except.ok.inj hpre
          exact hfirst.symm.trans hb
        | cons b' pre =>
          obtain ⟨rfl, -⟩ := List.cons.inj heq
          rw [List.foldlM_cons, hfirst] at hpre
          simp [bind, Except.bind] at hpre
    | ok s₁ =>
      refine ih.trans ⟨?_, ?_⟩
      · rintro ⟨pre, b, post, s, heq, hpre, hb⟩
        refine ⟨a :: pre, b, post, s, by rw [heq, List.cons_append], ?_, hb⟩
        rw [List.foldlM_cons, hfirst]
        exact hpre
      · rintro ⟨pre, b, post, s, heq, hpre, hb⟩
        cases pre with
        | nil =>
          obtain ⟨rfl, -⟩ := List.cons.inj heq
          obtain rfl : init = s := Except.ok.inj hpre
          rw [hfirst] at hb
          simp at hb
        | cons b' pre =>
          obtain ⟨rfl, hrest⟩ := List.cons.inj heq
          rw [List.foldlM_cons, hfirst] at hpre
          exact ⟨pre, b, post, s, hrest, hpre, hb⟩

theorem snoc_eq_append_cons {l pre post : List α} {a b : α} (h : l ++ [a] = pre ++ b :: post) :
    (l = pre ∧ a = b) ∨ ∃ post', l = pre ++ b :: post' := by
  rcases List.eq_nil_or_concat post with rfl | ⟨post', c, rfl⟩
  · obtain ⟨hl, ha⟩ := List.append_inj' h rfl
    exact Or.inl ⟨hl, List.singleton_inj.mp ha⟩
  · rw [List.concat_eq_append, ← List.cons_append, ← List.append_assoc] at h
    exact Or.inr ⟨post', (List.append_inj' h rfl).1⟩

theorem mem_of_append_cons_eq {pre post pre' post' : List α} {a b c : α}
    (h : pre' ++ b :: post' = pre ++ a :: post) (hb : b ∉ pre) (hc : c ∈ pre) : c ∈ pre' := by
  rcases List.append_eq_append_iff.mp h with ⟨mid, rfl, hmid⟩ | ⟨mid, rfl, -⟩
  · cases mid with
    | nil => simpa using hc
    | cons x mid =>
      obtain ⟨rfl, -⟩ := List.cons.inj hmid
      exact absurd (by simp) hb
  · exact List.mem_append_left _ hc

theorem getElem?_snoc {l : List α} {a b : α} {k : Nat} :
    (l ++ [a])[k]? = some b ↔ l[k]? = some b ∨ (k = l.length ∧ a = b) := by
  rcases Nat.lt_trichotomy k l.length with hk | hk | hk
  · rw [List.getElem?_append_left hk]
    constructor
    · exact Or.inl
    · rintro (h | ⟨h, -⟩)
      · exact h
      · omega
  · subst hk
    simp
  · rw [List.getElem?_eq_none (by simp; omega), List.getElem?_eq_none (by omega)]
    simp
    omega

end Runs
