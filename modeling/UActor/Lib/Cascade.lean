import Mathlib.Data.List.Induction

/-!
# Cascades

A function that goes through a list of targets and may call itself at each of them. `one f s b` is
the state after the target `b`, where `f` stands for the recursive calls. A call is made with less
left to do than before.
-/

namespace Cascade

variable {σ α β : Type}

section

variable (targets : σ → α → List β) (one : (σ → α → σ) → σ → β → σ)

/-- The cascade, cut off at a depth. -/
def upTo : Nat → σ → α → σ
  | 0, s, _ => s
  | depth + 1, s, a => (targets s a).foldl (one (upTo depth)) s

variable (μ : σ → Nat)

def eval (s : σ) (a : α) : σ := upTo targets one (μ s + 1) s a

/-- No target leaves more to do than there was, and the calls are made with less. -/
structure Bounded : Prop where
  shrinks : ∀ f s b, (∀ s' a, μ s' < μ s → μ (f s' a) ≤ μ s') → μ (one f s b) ≤ μ s
  inner : ∀ f g s b, (∀ s' a, μ s' < μ s → f s' a = g s' a) → one f s b = one g s b

end

variable {targets : σ → α → List β} {one : (σ → α → σ) → σ → β → σ} {μ : σ → Nat}

/-! ## Depth -/

theorem foldl_shrinks (h : Bounded one μ) {f : σ → α → σ} {n : Nat}
    (hf : ∀ s a, μ s < n → μ (f s a) ≤ μ s) (l : List β) (s : σ) (hs : μ s ≤ n) :
    μ (l.foldl (one f) s) ≤ μ s := by
  induction l generalizing s with
  | nil => exact Nat.le_refl _
  | cons b l ih =>
    have hone : μ (one f s b) ≤ μ s := h.shrinks f s b fun s' a hlt => hf s' a (by omega)
    rw [List.foldl_cons]
    exact Nat.le_trans (ih _ (by omega)) hone

theorem upTo_shrinks (h : Bounded one μ) (n : Nat) (s : σ) (a : α) : μ (upTo targets one n s a) ≤ μ s := by
  induction n generalizing s a with
  | zero => exact Nat.le_refl _
  | succ n ih => exact foldl_shrinks h (fun s' a' (_ : μ s' < μ s) => ih s' a') (targets s a) s (Nat.le_refl _)

theorem foldl_inner (h : Bounded one μ) {f g : σ → α → σ} {n : Nat}
    (hf : ∀ s a, μ s < n → μ (f s a) ≤ μ s) (hfg : ∀ s a, μ s < n → f s a = g s a) (l : List β)
    (s : σ) (hs : μ s ≤ n) :
    l.foldl (one f) s = l.foldl (one g) s := by
  induction l generalizing s with
  | nil => rfl
  | cons b l ih =>
    have hone : μ (one f s b) ≤ μ s := h.shrinks f s b fun s' a hlt => hf s' a (by omega)
    rw [List.foldl_cons, List.foldl_cons, ← h.inner f g s b fun s' a hlt => hfg s' a (by omega)]
    exact ih _ (by omega)

theorem upTo_stable (h : Bounded one μ) (n m : Nat) (s : σ) (a : α) (hn : μ s < n) (hm : μ s < m) :
    upTo targets one n s a = upTo targets one m s a := by
  induction n generalizing m s a with
  | zero => omega
  | succ n ih =>
    cases m with
    | zero => omega
    | succ m =>
      refine foldl_inner h (fun s' a' _ => upTo_shrinks h n s' a') (fun s' a' hlt => ?_)
        (targets s a) s (Nat.le_refl _)
      exact ih m s' a' (by omega) (by omega)

theorem eval_shrinks (h : Bounded one μ) (s : σ) (a : α) : μ (eval targets one μ s a) ≤ μ s :=
  upTo_shrinks h _ s a

theorem eval_eq (h : Bounded one μ) (s : σ) (a : α) :
    eval targets one μ s a = (targets s a).foldl (one (eval targets one μ)) s := by
  refine foldl_inner h (fun s' a' _ => upTo_shrinks h _ s' a') (fun s' a' hlt => ?_) (targets s a) s
    (Nat.le_refl _)
  exact upTo_stable h _ _ s' a' hlt (Nat.lt_succ_self _)

/-! ## Calls that may fail -/

/-- The cascade, which fails if it is cut off, and if what a loop goes through is not the same after
a step of it. -/
def within (targets : σ → α → List β) (one : (σ → α → Option σ) → σ → β → Option σ)
    (same : α → σ → σ → Bool) :
    Nat → σ → α → Option σ
  | 0, _, _ => none
  | depth + 1, s, a => (targets s a).foldlM
      (fun s' b => (one (within targets one same depth) s' b).filter (same a s)) s

/-- If a step succeeds when the calls below do, and a loop goes on as it began, enough depth gives
the cascade. -/
theorem within_eq {one' : (σ → α → Option σ) → σ → β → Option σ} {same : α → σ → σ → Bool}
    (h : Bounded one μ) (hone : ∀ f g s b, (∀ s' a, μ s' < μ s → f s' a = some (g s' a)) →
      one' f s b = some (one g s b))
    (hrefl : ∀ a s, same a s s = true)
    (hsame : ∀ a s s' b, same a s s' = true → same a s (one (eval targets one μ) s' b) = true)
    (n : Nat) (s : σ) (a : α) (hn : μ s < n) :
    within targets one' same n s a = some (eval targets one μ s a) := by
  induction n generalizing s a with
  | zero => omega
  | succ n ih =>
    have hloop : ∀ (l : List β) (s' : σ), μ s' ≤ μ s → same a s s' = true →
        l.foldlM (fun s' b => (one' (within targets one' same n) s' b).filter (same a s)) s' =
          some (l.foldl (one (eval targets one μ)) s') := by
      intro l
      induction l with
      | nil => exact fun _ _ _ => rfl
      | cons b l ihl =>
        intro s' hle hsame'
        have hstep : one' (within targets one' same n) s' b =
            some (one (eval targets one μ) s' b) :=
          hone _ _ s' b fun s'' a' hlt => ih s'' a' (by omega)
        have hnext := h.shrinks (eval targets one μ) s' b fun s'' a' _ => eval_shrinks h s'' a'
        have hkept := hsame a s s' b hsame'
        rw [List.foldlM_cons, List.foldl_cons, hstep, Option.filter_some, if_pos hkept]
        exact ihl _ (by omega) hkept
    rw [eval_eq h]
    exact hloop _ s (Nat.le_refl _) (hrefl a s)

/-! ## Induction -/

theorem eval_ind (h : Bounded one μ) {P : σ → α → List β → σ → Prop} (hinit : ∀ s a, P s a [] s)
    (hstep : ∀ s a pre b post, targets s a = pre ++ b :: post →
      P s a pre (pre.foldl (one (eval targets one μ)) s) →
      (∀ s' a', μ s' < μ (pre.foldl (one (eval targets one μ)) s) →
        P s' a' (targets s' a') (eval targets one μ s' a')) →
      P s a (pre ++ [b]) (one (eval targets one μ) (pre.foldl (one (eval targets one μ)) s) b))
    (s : σ) (a : α) : P s a (targets s a) (eval targets one μ s a) := by
  have hmain : ∀ n s a, μ s < n → P s a (targets s a) (eval targets one μ s a) := by
    intro n
    induction n with
    | zero => intro s a hlt; omega
    | succ n ih =>
      intro s a hlt
      have hpre : ∀ pre post, targets s a = pre ++ post →
          P s a pre (pre.foldl (one (eval targets one μ)) s) := by
        intro pre
        induction pre using List.reverseRecOn with
        | nil => intro _ _; exact hinit s a
        | append_singleton pre b ih' =>
          intro post heq
          rw [List.append_assoc, List.singleton_append] at heq
          have hcalls : ∀ s' a', μ s' < μ s → μ (eval targets one μ s' a') ≤ μ s' := fun s' a' _ =>
            eval_shrinks h s' a'
          have hle := foldl_shrinks h hcalls pre s (Nat.le_refl _)
          rw [List.foldl_append]
          exact hstep s a pre b post heq (ih' _ heq) fun s' a' hlt' => ih s' a' (by omega)
      rw [eval_eq h]
      exact hpre _ [] (List.append_nil _).symm
  exact hmain (μ s + 1) s a (Nat.lt_succ_self _)

theorem eval_rel {R : σ → σ → Prop} (hrefl : ∀ s, R s s)
    (htrans : ∀ {s₁ s₂ s₃}, R s₁ s₂ → R s₂ s₃ → R s₁ s₃) (h : Bounded one μ)
    (hone : ∀ s b, (∀ s' a, μ s' < μ s → R s' (eval targets one μ s' a)) →
      R s (one (eval targets one μ) s b))
    (s : σ) (a : α) : R s (eval targets one μ s a) :=
  eval_ind h (P := fun s _ _ s' => R s s') (fun s _ => hrefl s)
    (fun _ _ _ b _ _ hpre hcalls => htrans hpre (hone _ b hcalls)) s a

/-! ## Turns -/

/-- The cascade comes to a target in a state, itself or in one of the calls that it makes: at the
target `b` in the state `s`, it makes those in `calls s b`. -/
inductive Turn (targets : σ → α → List β) (one : (σ → α → σ) → σ → β → σ) (μ : σ → Nat)
    (calls : σ → β → σ → α → Prop) : σ → α → σ → β → Prop
  | own {s : σ} {a : α} {pre : List β} {b : β} {post : List β}
      (heq : targets s a = pre ++ b :: post) :
    Turn targets one μ calls s a (pre.foldl (one (eval targets one μ)) s) b
  | nested {s : σ} {a : α} {pre : List β} {b : β} {post : List β} {s' s'' : σ} {a' : α} {c : β}
    (heq : targets s a = pre ++ b :: post)
    (hcall : calls (pre.foldl (one (eval targets one μ)) s) b s' a')
    (hturn : Turn targets one μ calls s' a' s'' c) : Turn targets one μ calls s a s'' c

theorem Turn.trans {calls : σ → β → σ → α → Prop} {s s' s₁ s'' : σ} {a a' : α} {b c : β}
    (hturn : Turn targets one μ calls s a s' b) (hcall : calls s' b s₁ a')
    (h : Turn targets one μ calls s₁ a' s'' c) :
    Turn targets one μ calls s a s'' c := by
  induction hturn with
  | own heq => exact .nested heq hcall h
  | nested heq hcall' _ ih => exact .nested heq hcall' (ih hcall)

theorem Turn.targets_ne_nil {calls : σ → β → σ → α → Prop} {s s' : σ} {a : α} {b : β}
    (hturn : Turn targets one μ calls s a s' b) : targets s a ≠ [] := by
  intro hnil
  cases hturn with
  | own heq => simp [hnil] at heq
  | nested heq _ _ => simp [hnil] at heq

theorem foldl_rel {R : σ → σ → Prop} {f : σ → β → σ} (hrefl : ∀ s, R s s)
    (htrans : ∀ {s₁ s₂ s₃}, R s₁ s₂ → R s₂ s₃ → R s₁ s₃) (hone : ∀ s b, R s (f s b)) (l : List β)
    (s : σ) :
    R s (l.foldl f s) := by
  induction l generalizing s with
  | nil => exact hrefl s
  | cons b l ih => exact htrans (hone s b) (ih _)

theorem foldl_rel_of {R : σ → σ → Prop} {f : σ → β → σ} (hrefl : ∀ s, R s s)
    (htrans : ∀ {s₁ s₂ s₃}, R s₁ s₂ → R s₂ s₃ → R s₁ s₃) {s : σ} {l : List β}
    (hone : ∀ pre b post, l = pre ++ b :: post → R (pre.foldl f s) (f (pre.foldl f s) b)) :
    R s (l.foldl f s) := by
  induction l using List.reverseRecOn with
  | nil => exact hrefl s
  | append_singleton l b ih =>
    rw [List.foldl_append, List.foldl_cons, List.foldl_nil]
    refine htrans (ih fun pre c post heq => hone pre c (post ++ [b]) (by rw [heq]; simp))
      (hone l b [] rfl)

section

variable {calls : σ → β → σ → α → Prop} {R : σ → σ → Prop} {C : σ → β → Prop} (h : Bounded one μ)
  (hrefl : ∀ s, R s s) (htrans : ∀ {s₁ s₂ s₃}, R s₁ s₂ → R s₂ s₃ → R s₁ s₃)
  (hone : ∀ s b, C s b → (∀ s' a', calls s b s' a' → μ s' < μ s → R s' (eval targets one μ s' a')) →
    R s (one (eval targets one μ) s b))

include h hrefl htrans hone

/-- What a turn keeps that meets a condition, if the calls below keep it, a cascade keeps whose
turns all meet it. -/
theorem eval_rel_of_turns {s : σ} {a : α}
    (hturns : ∀ s' b, Turn targets one μ calls s a s' b → C s' b) :
    R s (eval targets one μ s a) := by
  refine eval_ind h (P := fun s a _ s' => (∀ t b, Turn targets one μ calls s a t b → C t b) →
    R s s') (fun s _ _ => hrefl s) (fun s a pre b post heq hpre hcalls hturns => ?_) s a hturns
  refine htrans (hpre hturns) (hone _ b (hturns _ b (.own heq)) fun s' a' hcall hlt => ?_)
  exact hcalls s' a' hlt fun t c hturn => hturns t c (.nested heq hcall hturn)

theorem Turn.reached (hcall : ∀ {s b s' a'}, calls s b s' a' → R s s') {s s' : σ} {a : α} {b : β}
    (hturn : Turn targets one μ calls s a s' b)
    (hturns : ∀ s' b, Turn targets one μ calls s a s' b → C s' b) :
    R s s' := by
  have hpre : ∀ {s : σ} {a : α} {pre post : List β} {b : β}, targets s a = pre ++ b :: post →
      (∀ s' b, Turn targets one μ calls s a s' b → C s' b) →
      R s (pre.foldl (one (eval targets one μ)) s) := by
    intro s a pre post b heq hturns
    refine foldl_rel_of hrefl htrans fun pre' c post' heq' => ?_
    have hown : targets s a = pre' ++ c :: (post' ++ b :: post) := by rw [heq, heq']; simp
    refine hone _ c (hturns _ c (.own hown)) fun s' a' hcall' _ => ?_
    exact eval_rel_of_turns h hrefl htrans hone fun t d hturn =>
      hturns t d (.nested hown hcall' hturn)
  induction hturn with
  | own heq => exact hpre heq hturns
  | nested heq hcall' _ ih =>
    exact htrans (htrans (hpre heq hturns) (hcall hcall')) (ih fun t d hturn =>
      hturns t d (.nested heq hcall' hturn))

end

theorem Turn.after {calls : σ → β → σ → α → Prop} {R : σ → σ → Prop} (h : Bounded one μ)
    (hrefl : ∀ s, R s s) (htrans : ∀ {s₁ s₂ s₃}, R s₁ s₂ → R s₂ s₃ → R s₁ s₃)
    (hone : ∀ s b, R s (one (eval targets one μ) s b))
    (hcall : ∀ {s b s' a'}, calls s b s' a' →
      R (eval targets one μ s' a') (one (eval targets one μ) s b)) {s s' : σ} {a : α} {b : β}
      (hturn : Turn targets one μ calls s a s' b) :
    R (one (eval targets one μ) s' b) (eval targets one μ s a) := by
  induction hturn with
  | own heq =>
    rw [eval_eq h, heq, List.foldl_append, List.foldl_cons]
    exact foldl_rel hrefl htrans hone _ _
  | nested heq hc _ ih =>
    refine htrans ih (htrans (hcall hc) ?_)
    rw [eval_eq h, heq, List.foldl_append, List.foldl_cons]
    exact foldl_rel hrefl htrans hone _ _

theorem Turn.before {calls : σ → β → σ → α → Prop} {R : σ → σ → Prop} (hrefl : ∀ s, R s s)
    (htrans : ∀ {s₁ s₂ s₃}, R s₁ s₂ → R s₂ s₃ → R s₁ s₃)
    (hone : ∀ s b, R s (one (eval targets one μ) s b))
    (hcall : ∀ {s b s' a'}, calls s b s' a' → R s s') {s s' : σ} {a : α} {b : β}
    (hturn : Turn targets one μ calls s a s' b) : R s s' := by
  induction hturn with
  | own heq => exact foldl_rel hrefl htrans hone _ _
  | nested heq hc _ ih => exact htrans (htrans (foldl_rel hrefl htrans hone _ _) (hcall hc)) ih

theorem eval_cause {calls : σ → β → σ → α → Prop} {Q : σ → Prop} {C : σ → β → Prop}
    (h : Bounded one μ) (hone : ∀ s b, Q (one (eval targets one μ) s b) → Q s ∨ C s b ∨
      ∃ s' a', calls s b s' a' ∧ μ s' < μ s ∧ (Q s' → Q s) ∧ Q (eval targets one μ s' a'))
    {s : σ} {a : α} (hQ : Q (eval targets one μ s a)) :
    Q s ∨ ∃ s' b, Turn targets one μ calls s a s' b ∧ C s' b := by
  refine eval_ind h (P := fun s a _ s' => Q s' → Q s ∨ ∃ t b, Turn targets one μ calls s a t b ∧
    C t b) (fun s a hs => Or.inl hs) (fun s a pre b post heq hpre hcalls hafter => ?_) s a hQ
  rcases hone _ b hafter with hbefore | hcaused | ⟨s', a', hcall, hlt, hback, hbelow⟩
  · exact hpre hbefore
  · exact Or.inr ⟨_, b, .own heq, hcaused⟩
  · rcases hcalls s' a' hlt hbelow with hs' | ⟨t, c, hturn, hcaused⟩
    · exact hpre (hback hs')
    · exact Or.inr ⟨t, c, .nested heq hcall hturn, hcaused⟩

end Cascade
