import Mathlib.Data.List.Basic
import Mathlib.Data.List.Nodup
import Mathlib.Data.List.Count
import Mathlib.Data.List.Perm.Basic
import Mathlib.Data.List.Lex

/-!
# Buckets

An inverted index: a list of buckets, each with a key and the tagged members filed under it. The
relations `Insert` and `Remove` say what one change does to the list. All other facts about a
change come from them.
-/

namespace Buckets

variable {K S B : Type}

def keys (l : List (K × List (S × B))) : List K := l.map Prod.fst

/-- The member `s` is filed under `k` with the tag `b`. -/
def Filed (l : List (K × List (S × B))) (k : K) (s : S) (b : B) : Prop :=
  ∃ ms, (k, ms) ∈ l ∧ (s, b) ∈ ms

structure Wf (l : List (K × List (S × B))) : Prop where
  keys_nodup : (keys l).Nodup
  nonempty : ∀ e ∈ l, e.2 ≠ []
  members_nodup : ∀ e ∈ l, (e.2.map Prod.fst).Nodup

theorem Filed.append {l l' : List (K × List (S × B))} {k : K} {s : S} {b : B} :
    Filed (l ++ l') k s b ↔ Filed l k s b ∨ Filed l' k s b := by
  simp only [Filed, List.mem_append]
  constructor
  · rintro ⟨ms, h | h, hs⟩
    · exact Or.inl ⟨ms, h, hs⟩
    · exact Or.inr ⟨ms, h, hs⟩
  · rintro (⟨ms, h, hs⟩ | ⟨ms, h, hs⟩)
    · exact ⟨ms, Or.inl h, hs⟩
    · exact ⟨ms, Or.inr h, hs⟩

theorem filed_cons {k k' : K} {ms : List (S × B)} {l : List (K × List (S × B))} {s : S} {b : B} :
    Filed ((k', ms) :: l) k s b ↔ (k = k' ∧ (s, b) ∈ ms) ∨ Filed l k s b := by
  simp only [Filed, List.mem_cons, Prod.mk.injEq]
  constructor
  · rintro ⟨ms', ⟨rfl, rfl⟩ | h, hs⟩
    · exact Or.inl ⟨rfl, hs⟩
    · exact Or.inr ⟨ms', h, hs⟩
  · rintro (⟨rfl, hs⟩ | ⟨ms', h, hs⟩)
    · exact ⟨ms, Or.inl ⟨rfl, rfl⟩, hs⟩
    · exact ⟨ms', Or.inr h, hs⟩

/-! ## One insertion -/

/-- The member joins the bucket of `e`, or gets a new bucket of its own. -/
inductive Insert (l : List (K × List (S × B))) (s : S) (b : B) (e : K) :
    List (K × List (S × B)) → Prop
  | join (l₁ l₂ : List (K × List (S × B))) (ms : List (S × B)) (hl : l = l₁ ++ (e, ms) :: l₂)
      (hs : s ∉ ms.map Prod.fst) : Insert l s b e (l₁ ++ (e, ms ++ [(s, b)]) :: l₂)
  | fresh (l₁ l₂ : List (K × List (S × B))) (hl : l = l₁ ++ l₂) (he : e ∉ keys l) :
      Insert l s b e (l₁ ++ (e, [(s, b)]) :: l₂)

theorem Insert.filed {l l' : List (K × List (S × B))} {s : S} {b : B} {e : K}
    (h : Insert l s b e l') (k : K) (s' : S) (b' : B) :
    Filed l' k s' b' ↔ Filed l k s' b' ∨ (k = e ∧ s' = s ∧ b' = b) := by
  cases h with
  | join l₁ l₂ ms hl hs =>
    subst hl
    simp only [Filed.append, filed_cons, List.mem_append, List.mem_singleton, Prod.mk.injEq]
    tauto
  | fresh l₁ l₂ hl he =>
    subst hl
    simp only [Filed.append, filed_cons, List.mem_singleton, Prod.mk.injEq]
    tauto

theorem Insert.wf {l l' : List (K × List (S × B))} {s : S} {b : B} {e : K}
    (h : Insert l s b e l') (hw : Wf l) : Wf l' := by
  cases h with
  | join l₁ l₂ ms hl hs =>
    subst hl
    refine ⟨by simpa [keys] using hw.keys_nodup, ?_, ?_⟩
    · intro x hx
      rcases List.mem_append.mp hx with hx | hx
      · exact hw.nonempty x (List.mem_append_left _ hx)
      · rcases List.mem_cons.mp hx with rfl | hx
        · simp
        · exact hw.nonempty x (List.mem_append_right _ (List.mem_cons_of_mem _ hx))
    · intro x hx
      rcases List.mem_append.mp hx with hx | hx
      · exact hw.members_nodup x (List.mem_append_left _ hx)
      · rcases List.mem_cons.mp hx with rfl | hx
        · have hms := hw.members_nodup (e, ms) (by simp)
          simp only [List.map_append, List.map_cons, List.map_nil]
          exact List.nodup_append.mpr ⟨hms, by simp, fun a ha c hc hac => hs (by
            obtain rfl : c = s := by simpa using hc
            exact hac ▸ ha)⟩
        · exact hw.members_nodup x (List.mem_append_right _ (List.mem_cons_of_mem _ hx))
  | fresh l₁ l₂ hl he =>
    subst hl
    refine ⟨?_, ?_, ?_⟩
    · have hk := hw.keys_nodup
      simp only [keys, List.map_append, List.map_cons] at hk he ⊢
      exact List.nodup_middle.mpr (List.nodup_cons.mpr ⟨he, hk⟩)
    · intro x hx
      rcases List.mem_append.mp hx with hx | hx
      · exact hw.nonempty x (List.mem_append_left _ hx)
      · rcases List.mem_cons.mp hx with rfl | hx
        · simp
        · exact hw.nonempty x (List.mem_append_right _ hx)
    · intro x hx
      rcases List.mem_append.mp hx with hx | hx
      · exact hw.members_nodup x (List.mem_append_left _ hx)
      · rcases List.mem_cons.mp hx with rfl | hx
        · simp
        · exact hw.members_nodup x (List.mem_append_right _ hx)

/-! ## One removal -/

variable [DecidableEq S]

/-- The last member takes its bucket away, any other one leaves the bucket of `e`. -/
inductive Remove (l : List (K × List (S × B))) (s : S) (e : K) : List (K × List (S × B)) → Prop
  | last (l₁ l₂ : List (K × List (S × B))) (b : B) (hl : l = l₁ ++ (e, [(s, b)]) :: l₂) :
      Remove l s e (l₁ ++ l₂)
  | leave (l₁ l₂ : List (K × List (S × B))) (ms : List (S × B)) (hl : l = l₁ ++ (e, ms) :: l₂)
      (hs : s ∈ ms.map Prod.fst) (hlen : ms.length ≠ 1) :
      Remove l s e (l₁ ++ (e, ms.eraseP fun m => m.1 = s) :: l₂)

theorem mem_eraseP_fst {ms : List (S × B)} (hms : (ms.map Prod.fst).Nodup) (s s' : S) (b' : B) :
    (s', b') ∈ ms.eraseP (fun m => m.1 = s) ↔ (s', b') ∈ ms ∧ s' ≠ s := by
  induction ms with
  | nil => simp
  | cons m ms ih =>
    simp only [List.map_cons, List.nodup_cons] at hms
    by_cases hm : m.1 = s
    · rw [List.eraseP_cons_of_pos (by simpa using hm)]
      constructor
      · intro h
        refine ⟨List.mem_cons_of_mem _ h, ?_⟩
        rintro rfl
        exact hms.1 (List.mem_map.mpr ⟨_, h, hm.symm⟩)
      · rintro ⟨h, hne⟩
        rcases List.mem_cons.mp h with rfl | h
        · exact absurd hm hne
        · exact h
    · rw [List.eraseP_cons_of_neg (by simpa using hm)]
      simp only [List.mem_cons, ih hms.2]
      constructor
      · rintro (rfl | ⟨h, hne⟩)
        · exact ⟨Or.inl rfl, hm⟩
        · exact ⟨Or.inr h, hne⟩
      · rintro ⟨rfl | h, hne⟩
        · exact Or.inl rfl
        · exact Or.inr ⟨h, hne⟩

theorem Remove.filed {l l' : List (K × List (S × B))} {s : S} {e : K} (h : Remove l s e l')
    (hw : Wf l) (k : K) (s' : S) (b' : B) :
    Filed l' k s' b' ↔ Filed l k s' b' ∧ ¬ (k = e ∧ s' = s) := by
  have key : ∀ l₁ l₂ ms, l = l₁ ++ (e, ms) :: l₂ → Filed (l₁ ++ l₂) k s' b' → k ≠ e := by
    rintro l₁ l₂ ms rfl ⟨ms', hk, -⟩ rfl
    have hn := hw.keys_nodup
    simp only [keys, List.map_append, List.map_cons] at hn
    have hno := (List.nodup_cons.mp (List.nodup_middle.mp hn)).1
    exact hno (by rw [← List.map_append]; exact List.mem_map.mpr ⟨(k, ms'), hk, rfl⟩)
  cases h with
  | last l₁ l₂ b hl =>
    have hk := key l₁ l₂ _ hl
    subst hl
    simp only [Filed.append, filed_cons, List.mem_singleton, Prod.mk.injEq] at hk ⊢
    tauto
  | leave l₁ l₂ ms hl hs hlen =>
    have hk := key l₁ l₂ _ hl
    subst hl
    have hms := hw.members_nodup (e, ms) (by simp)
    simp only [Filed.append, filed_cons, mem_eraseP_fst hms] at hk ⊢
    tauto

theorem Remove.wf {l l' : List (K × List (S × B))} {s : S} {e : K} (h : Remove l s e l')
    (hw : Wf l) : Wf l' := by
  cases h with
  | last l₁ l₂ b hl =>
    subst hl
    have hsub : (l₁ ++ l₂).Sublist (l₁ ++ (e, [(s, b)]) :: l₂) := by simp
    exact ⟨hw.keys_nodup.sublist (hsub.map _), fun x hx => hw.nonempty x (hsub.subset hx),
      fun x hx => hw.members_nodup x (hsub.subset hx)⟩
  | leave l₁ l₂ ms hl hs hlen =>
    subst hl
    refine ⟨by simpa [keys] using hw.keys_nodup, ?_, ?_⟩
    · intro x hx
      rcases List.mem_append.mp hx with hx | hx
      · exact hw.nonempty x (List.mem_append_left _ hx)
      · rcases List.mem_cons.mp hx with rfl | hx
        · intro hnil
          obtain ⟨m, hm, hms⟩ := List.mem_map.mp hs
          have := List.length_eraseP_of_mem hm (p := fun m => m.1 = s) (by simpa using hms)
          have hpos := List.length_pos_of_mem hm
          simp only at hnil
          rw [hnil, List.length_nil] at this
          omega
        · exact hw.nonempty x (List.mem_append_right _ (List.mem_cons_of_mem _ hx))
    · intro x hx
      rcases List.mem_append.mp hx with hx | hx
      · exact hw.members_nodup x (List.mem_append_left _ hx)
      · rcases List.mem_cons.mp hx with rfl | hx
        · have hms := hw.members_nodup (e, ms) (by simp)
          exact hms.sublist (List.eraseP_sublist.map _)
        · exact hw.members_nodup x (List.mem_append_right _ (List.mem_cons_of_mem _ hx))

/-! ## All traces of one member -/

/-- The list without the member `s`. -/
def purge (s : S) (l : List (K × List (S × B))) : List (K × List (S × B)) :=
  l.filterMap fun e =>
    match e.2.filter fun m => m.1 ≠ s with
    | [] => none
    | ms => some (e.1, ms)

theorem purge_append (s : S) (l l' : List (K × List (S × B))) :
    purge s (l ++ l') = purge s l ++ purge s l' :=
  List.filterMap_append

theorem purge_cons_congr (s : S) {k : K} {ms ms' : List (S × B)} (l : List (K × List (S × B)))
    (h : ms.filter (fun m => m.1 ≠ s) = ms'.filter fun m => m.1 ≠ s) :
    purge s ((k, ms) :: l) = purge s ((k, ms') :: l) := by
  simp only [purge, List.filterMap_cons, h]

theorem purge_cons_of_only (s : S) {k : K} {b : B} (l : List (K × List (S × B))) :
    purge s ((k, [(s, b)]) :: l) = purge s l := by
  simp [purge]

theorem Insert.purge_eq {l l' : List (K × List (S × B))} {s : S} {b : B} {e : K}
    (h : Insert l s b e l') : purge s l' = purge s l := by
  cases h with
  | join l₁ l₂ ms hl hs =>
    subst hl
    have hms : (ms ++ [(s, b)]).filter (fun m => m.1 ≠ s) = ms.filter fun m => m.1 ≠ s := by simp
    rw [purge_append, purge_append, purge_cons_congr s l₂ hms]
  | fresh l₁ l₂ hl he =>
    subst hl
    rw [purge_append, purge_append, purge_cons_of_only]

theorem filter_eraseP_fst (ms : List (S × B)) (s : S) :
    (ms.eraseP fun m => m.1 = s).filter (fun m => m.1 ≠ s) = ms.filter fun m => m.1 ≠ s := by
  induction ms with
  | nil => rfl
  | cons m ms ih =>
    by_cases hm : m.1 = s
    · rw [List.eraseP_cons_of_pos (by simpa using hm), List.filter_cons_of_neg (by simpa using hm)]
    · rw [List.eraseP_cons_of_neg (by simpa using hm), List.filter_cons_of_pos (by simpa using hm),
        List.filter_cons_of_pos (by simpa using hm), ih]

theorem Remove.purge_eq {l l' : List (K × List (S × B))} {s : S} {e : K} (h : Remove l s e l') :
    purge s l' = purge s l := by
  cases h with
  | last l₁ l₂ b hl =>
    subst hl
    rw [purge_append, purge_append, purge_cons_of_only]
  | leave l₁ l₂ ms hl hs hlen =>
    subst hl
    rw [purge_append, purge_append, purge_cons_congr s l₂ (filter_eraseP_fst ms s)]

theorem purge_of_not_filed {l : List (K × List (S × B))} {s : S} (hne : ∀ e ∈ l, e.2 ≠ [])
    (h : ∀ k b, ¬ Filed l k s b) : purge s l = l := by
  induction l with
  | nil => rfl
  | cons e l ih =>
    obtain ⟨k, ms⟩ := e
    have hms : ms.filter (fun m => m.1 ≠ s) = ms := by
      rw [List.filter_eq_self]
      rintro ⟨s', b⟩ hm
      simp only [ne_eq, decide_not, Bool.not_eq_true', decide_eq_false_iff_not]
      rintro rfl
      exact h k b ⟨ms, List.mem_cons_self, hm⟩
    have hrest := ih (fun e he => hne e (List.mem_cons_of_mem _ he)) fun k' b hf =>
      h k' b (filed_cons.mpr (Or.inr hf))
    have hnil : ms ≠ [] := hne (k, ms) List.mem_cons_self
    simp only [purge, List.filterMap_cons, hms] at hrest ⊢
    cases ms with
    | nil => exact absurd rfl hnil
    | cons m ms => exact congrArg _ hrest

/-! ## Counting -/

/-- The members of the buckets whose key passes `p`. -/
def members (p : K → Bool) (l : List (K × List (S × B))) : List (S × B) :=
  (l.filter fun e => p e.1).flatMap Prod.snd

omit [DecidableEq S] in
theorem members_append (p : K → Bool) (l l' : List (K × List (S × B))) :
    members p (l ++ l') = members p l ++ members p l' := by
  simp [members]

omit [DecidableEq S] in
theorem members_eq_nil {p : K → Bool} {l : List (K × List (S × B))}
    (h : ∀ k ∈ keys l, p k = false) :
    members p l = [] := by
  have hnil : l.filter (fun e => p e.1) = [] := by
    rw [List.filter_eq_nil_iff]
    intro e he
    rw [h e.1 (List.mem_map.mpr ⟨e, he, rfl⟩)]
    simp
  rw [members, hnil, List.flatMap_nil]

omit [DecidableEq S] in
theorem members_cons (p : K → Bool) (k : K) (ms : List (S × B)) (l : List (K × List (S × B))) :
    members p ((k, ms) :: l) = (if p k then ms else []) ++ members p l := by
  unfold members
  rw [List.filter_cons]
  split
  · rfl
  · rfl

omit [DecidableEq S] in
theorem mem_members {p : K → Bool} {l : List (K × List (S × B))} {s : S} {b : B} :
    (s, b) ∈ members p l ↔ ∃ k, p k = true ∧ Filed l k s b := by
  simp only [members, List.mem_flatMap, List.mem_filter, Filed]
  constructor
  · rintro ⟨⟨k, ms⟩, ⟨he, hp⟩, hs⟩
    exact ⟨k, hp, ms, he, hs⟩
  · rintro ⟨k, hp, ms, he, hs⟩
    exact ⟨(k, ms), ⟨he, hp⟩, hs⟩

omit [DecidableEq S] in
/-- Up to their order, an insertion adds one member to the buckets that pass if its own one does. -/
theorem Insert.members_perm {l l' : List (K × List (S × B))} {s : S} {b : B} {e : K}
    (h : Insert l s b e l') (p : K → Bool) :
    (members p l').Perm (members p l ++ if p e then [(s, b)] else []) := by
  cases h with
  | join l₁ l₂ ms hl hs =>
    subst hl
    rw [members_append, members_append, members_cons, members_cons, List.append_assoc]
    refine List.Perm.append_left _ ?_
    split
    · rw [List.append_assoc, List.append_assoc]
      exact List.perm_append_comm.append_left ms
    · simp
  | fresh l₁ l₂ hl he =>
    subst hl
    rw [members_append, members_append, members_cons, List.append_assoc]
    exact List.perm_append_comm.append_left _

omit [DecidableEq S] in
theorem Wf.eq_of_keys {l₁ l₂ : List (K × List (S × B))} {k : K} {ms ms' : List (S × B)}
    (hw : Wf (l₁ ++ (k, ms) :: l₂)) (h : (k, ms') ∈ l₁ ++ (k, ms) :: l₂) : ms' = ms := by
  have hn := hw.keys_nodup
  simp only [keys, List.map_append, List.map_cons] at hn
  have hno := (List.nodup_cons.mp (List.nodup_middle.mp hn)).1
  rw [← List.map_append] at hno
  rcases List.mem_append.mp h with h | h
  · exact absurd (List.mem_map.mpr ⟨_, List.mem_append_left _ h, rfl⟩) hno
  · rcases List.mem_cons.mp h with h | h
    · exact (Prod.mk.inj h).2
    · exact absurd (List.mem_map.mpr ⟨_, List.mem_append_right _ h, rfl⟩) hno

theorem perm_eraseP_fst {ms : List (S × B)} {s : S} {b : B} (hms : (ms.map Prod.fst).Nodup)
    (h : (s, b) ∈ ms) :
    ms.Perm (ms.eraseP (fun m => m.1 = s) ++ [(s, b)]) := by
  obtain ⟨⟨s', b'⟩, before, after, -, hs', hsplit, herase⟩ :=
    List.exists_of_eraseP (p := fun m : S × B => decide (m.1 = s)) h (by simp)
  obtain rfl : s' = s := by simpa using hs'
  have hb : b' = b := by
    have hinj := List.inj_on_of_nodup_map hms (x := (s', b')) (y := (s', b)) (by rw [hsplit]; simp)
      h rfl
    exact (Prod.mk.inj hinj).2
  subst hb
  rw [herase, hsplit, List.append_assoc]
  exact (List.perm_append_singleton (s', b') after).symm.append_left before

/-- Up to their order, a removal takes one member from the buckets that pass if its own one does. -/
theorem Remove.members_perm {l l' : List (K × List (S × B))} {s : S} {b : B} {e : K}
    (h : Remove l s e l') (hw : Wf l) (hf : Filed l e s b) (p : K → Bool) :
    (members p l).Perm (members p l' ++ if p e then [(s, b)] else []) := by
  obtain ⟨ms', hms', hs'⟩ := hf
  cases h with
  | last l₁ l₂ b' hl =>
    subst hl
    obtain rfl := hw.eq_of_keys hms'
    obtain ⟨-, rfl⟩ := Prod.mk.inj (List.mem_singleton.mp hs')
    rw [members_append, members_append, members_cons, List.append_assoc]
    exact List.perm_append_comm.append_left _
  | leave l₁ l₂ ms hl hs hlen =>
    subst hl
    obtain rfl := hw.eq_of_keys hms'
    have hperm := perm_eraseP_fst (hw.members_nodup (e, ms') (by simp)) hs'
    rw [members_append, members_append, members_cons, members_cons, List.append_assoc]
    refine List.Perm.append_left _ ?_
    split
    · refine (hperm.append_right _).trans ?_
      rw [List.append_assoc, List.append_assoc]
      exact List.perm_append_comm.append_left _
    · simp

omit [DecidableEq S] in
theorem foldl_members {β : Type} (p : K → Bool) (f : β → S × B → β) (l : List (K × List (S × B)))
    (b : β) : l.foldl (fun b e => if p e.1 then e.2.foldl f b else b) b =
      (members p l).foldl f b := by
  induction l generalizing b with
  | nil => rfl
  | cons e l ih =>
    rw [List.foldl_cons, ih]
    by_cases hp : p e.1 = true <;> simp [members, hp]

variable [DecidableEq B]

/-- The keys that `s` is filed under with the tag `b`. -/
def keysOf (s : S) (b : B) (l : List (K × List (S × B))) : List K :=
  (l.filter fun e => e.2.contains (s, b)).map Prod.fst

theorem mem_keysOf {s : S} {b : B} {l : List (K × List (S × B))} {k : K} :
    k ∈ keysOf s b l ↔ Filed l k s b := by
  simp only [keysOf, List.mem_map, List.mem_filter, List.contains_iff_mem, Prod.exists,
    exists_and_right, exists_eq_right, Filed]

theorem count_members_eq (p : K → Bool) (s : S) (b : B) (l : List (K × List (S × B)))
    (hm : ∀ e ∈ l, (e.2.map Prod.fst).Nodup) :
    (members p l).count (s, b) = (keysOf s b l).countP p := by
  induction l with
  | nil => rfl
  | cons e l ih =>
    have hrest := ih fun e he => hm e (List.mem_cons_of_mem _ he)
    have hcount : e.2.count (s, b) = if (s, b) ∈ e.2 then 1 else 0 :=
      (List.Nodup.of_map _ (hm e List.mem_cons_self)).count
    simp only [members, keysOf] at hrest ⊢
    by_cases hp : p e.1 = true <;> by_cases hs : (s, b) ∈ e.2
    · simp [hp, hs, hrest, hcount]; omega
    · simp [hp, hs, hrest, hcount]
    · simp [hp, hs, hrest]
    · simp [hp, hs, hrest]

theorem count_members (p : K → Bool) {s : S} {b : B} {l : List (K × List (S × B))} (hw : Wf l)
    {ks : List K} (hks : ks.Nodup) (h : ∀ k, k ∈ ks ↔ Filed l k s b) :
    (members p l).count (s, b) = ks.countP p := by
  rw [count_members_eq p s b l hw.members_nodup]
  have hn : (keysOf s b l).Nodup := hw.keys_nodup.sublist (List.filter_sublist.map _)
  have hperm : (keysOf s b l).Perm ks :=
    (List.perm_ext_iff_of_nodup hn hks).mpr fun k => by rw [mem_keysOf, h]
  exact hperm.countP_eq p

end Buckets
