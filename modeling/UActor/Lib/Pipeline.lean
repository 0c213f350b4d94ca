import Mathlib.Data.List.Basic
import Mathlib.Data.List.Induction
import Mathlib.Data.List.Nodup
import Mathlib.Data.List.Perm.Basic

/-!
# Pipelines that aggregate

Items go through a list of stages. A stage drops an item, refuses its label, rewrites it, or
counts it: of the items that a stage counts, only the first one that comes and the last one that
goes pass, as one aggregate. The counters of a pipeline are those of the items it holds.
-/

namespace Pipeline

inductive Stage (φ α : Type) where
  | drop (d : φ → Bool)
  | refuse (d : α → Bool)
  | count (b : φ → Bool) (r : φ) (n : Nat)
  | rewrite (s : φ → φ)

variable {φ α : Type}

/-- An item comes to a stage: the stage and the item after it, and whether the item ends here. -/
def Stage.come : Stage φ α → φ → α → Stage φ α × φ × Bool
  | .drop d, f, _ => (.drop d, f, d f)
  | .refuse d, f, a => (.refuse d, f, d a)
  | .count b r n, f, _ =>
    if b f then if n = 0 then (.count b r (n + 1), r, false) else (.count b r (n + 1), f, true)
    else (.count b r n, f, false)
  | .rewrite s, f, _ => (.rewrite s, s f, false)

/-- An item goes. -/
def Stage.go : Stage φ α → φ → α → Stage φ α × φ × Bool
  | .count b r n, f, _ =>
    if b f then if n = 1 then (.count b r (n - 1), r, false) else (.count b r (n - 1), f, true)
    else (.count b r n, f, false)
  | c, f, a => c.come f a

def pass (one : Stage φ α → φ → α → Stage φ α × φ × Bool) :
    List (Stage φ α) → φ → α → List (Stage φ α) × Option φ
  | [], f, _ => ([], some f)
  | c :: cs, f, a =>
    if (one c f a).2.2 then ((one c f a).1 :: cs, none)
    else ((one c f a).1 :: (pass one cs (one c f a).2.1 a).1, (pass one cs (one c f a).2.1 a).2)

def add : List (Stage φ α) → φ → α → List (Stage φ α) × Option φ := pass Stage.come

def remove : List (Stage φ α) → φ → α → List (Stage φ α) × Option φ := pass Stage.go

section

variable (cs : List (Stage φ α)) (f : φ) (a : α)

theorem add_drop (d : φ → Bool) : add (.drop d :: cs) f a =
    if d f then (.drop d :: cs, none) else (.drop d :: (add cs f a).1, (add cs f a).2) := rfl

theorem add_refuse (d : α → Bool) : add (.refuse d :: cs) f a =
    if d a then (.refuse d :: cs, none) else (.refuse d :: (add cs f a).1, (add cs f a).2) := rfl

theorem add_rewrite (s : φ → φ) : add (.rewrite s :: cs) f a =
    (.rewrite s :: (add cs (s f) a).1, (add cs (s f) a).2) := rfl

theorem add_count (b : φ → Bool) (r : φ) (n : Nat) :
    add (.count b r n :: cs) f a = if b f then
      if n = 0 then (.count b r (n + 1) :: (add cs r a).1, (add cs r a).2)
      else (.count b r (n + 1) :: cs, none)
    else (.count b r n :: (add cs f a).1, (add cs f a).2) := by
  simp only [add, pass, Stage.come]
  split
  · split <;> simp
  · simp

theorem remove_drop (d : φ → Bool) : remove (.drop d :: cs) f a =
    if d f then (.drop d :: cs, none) else (.drop d :: (remove cs f a).1, (remove cs f a).2) := rfl

theorem remove_refuse (d : α → Bool) : remove (.refuse d :: cs) f a =
    if d a then (.refuse d :: cs, none) else (.refuse d :: (remove cs f a).1, (remove cs f a).2) :=
      rfl

theorem remove_rewrite (s : φ → φ) : remove (.rewrite s :: cs) f a =
    (.rewrite s :: (remove cs (s f) a).1, (remove cs (s f) a).2) := rfl

theorem remove_count (b : φ → Bool) (r : φ) (n : Nat) :
    remove (.count b r n :: cs) f a = if b f then
      if n = 1 then (.count b r (n - 1) :: (remove cs r a).1, (remove cs r a).2)
      else (.count b r (n - 1) :: cs, none)
    else (.count b r n :: (remove cs f a).1, (remove cs f a).2) := by
  simp only [remove, pass, Stage.go]
  split
  · split <;> simp
  · simp

end

/-! ## The fate of an item -/

/-- What an item becomes on its own, if its label is not refused. -/
def fate : List (Stage φ α) → φ → Option φ
  | [], f => some f
  | .drop d :: cs, f => if d f then none else fate cs f
  | .refuse _ :: cs, f => fate cs f
  | .count b r _ :: cs, f => if b f then fate cs r else fate cs f
  | .rewrite s :: cs, f => fate cs (s f)

def counted : List (Stage φ α) → φ → Bool
  | [], _ => false
  | .drop d :: cs, f => !d f && counted cs f
  | .refuse _ :: cs, f => counted cs f
  | .count b _ _ :: cs, f => b f || counted cs f
  | .rewrite s :: cs, f => counted cs (s f)

def refused : List (Stage φ α) → α → Bool
  | [], _ => false
  | .refuse d :: cs, a => d a || refused cs a
  | .drop _ :: cs, a | .count .. :: cs, a | .rewrite _ :: cs, a => refused cs a

/-- Labels are refused after all counters. -/
def Late : List (Stage φ α) → Prop
  | [] => True
  | .refuse _ :: cs => (∀ f, counted cs f = false) ∧ Late cs
  | .drop _ :: cs | .count .. :: cs | .rewrite _ :: cs => Late cs

/-- What passes as an aggregate does not pass otherwise. -/
def Apart : List (Stage φ α) → Prop
  | [] => True
  | .count _ r _ :: cs => (∀ f, fate cs f = fate cs r → fate cs r ≠ none →
      counted cs f = counted cs r) ∧ Apart cs
  | .drop _ :: cs | .refuse _ :: cs | .rewrite _ :: cs => Apart cs

theorem late_append {cs cs' : List (Stage φ α)} (h : ∀ d, .refuse d ∉ cs) (h' : Late cs') :
    Late (cs ++ cs') := by
  induction cs with
  | nil => exact h'
  | cons c cs ih =>
    have htail := ih fun d hd => h d (List.mem_cons_of_mem _ hd)
    cases c with
    | refuse d => exact absurd List.mem_cons_self (h d)
    | drop | count | rewrite => exact htail

theorem fate_preserves {P : φ → Prop} {cs : List (Stage φ α)}
    (hcount : ∀ b r n, .count b r n ∈ cs → ∀ f, b f = true → P f → P r)
    (hrewrite : ∀ s, .rewrite s ∈ cs → ∀ f, P f → P (s f)) {f g : φ} (hf : P f)
    (hg : fate cs f = some g) : P g := by
  induction cs generalizing f with
  | nil => exact Option.some.inj hg ▸ hf
  | cons c cs ih =>
    have ih : ∀ {f}, P f → fate cs f = some g → P g := fun hf hg =>
      ih (fun b r n h => hcount b r n (List.mem_cons_of_mem _ h))
        (fun s h => hrewrite s (List.mem_cons_of_mem _ h)) hf hg
    cases c with
    | drop d =>
      simp only [fate] at hg
      split at hg
      · simp at hg
      · exact ih hf hg
    | refuse d => exact ih hf hg
    | count b r n =>
      simp only [fate] at hg
      split at hg
      · rename_i hb
        exact ih (hcount b r n List.mem_cons_self f hb hf) hg
      · exact ih hf hg
    | rewrite s => exact ih (hrewrite s List.mem_cons_self f hf) hg

section

variable {κ : Type}

/-- Counters look at the key of an item, and would count their aggregate. Nothing changes a key. -/
structure Keyed (key : φ → κ) (cs : List (Stage φ α)) : Prop where
  congr : ∀ b r n, .count b r n ∈ cs → ∀ f g, key f = key g → b f = b g
  self : ∀ b r n, .count b r n ∈ cs → b r = true
  rewrite : ∀ s, .rewrite s ∈ cs → ∀ f, key (s f) = key f

theorem Keyed.tail {key : φ → κ} {c : Stage φ α} {cs : List (Stage φ α)} (h : Keyed key (c :: cs)) :
    Keyed key cs :=
  ⟨fun b r n hm => h.congr b r n (List.mem_cons_of_mem _ hm), fun b r n hm =>
    h.self b r n (List.mem_cons_of_mem _ hm), fun s hm => h.rewrite s (List.mem_cons_of_mem _ hm)⟩

theorem Keyed.of_uncounted {key : φ → κ} {cs : List (Stage φ α)} (h : Keyed key cs) {f g : φ}
    (hc : counted cs f = false) (hg : fate cs f = some g) :
    key g = key f ∧ ∀ b r n, .count b r n ∈ cs → b f = false := by
  induction cs generalizing f with
  | nil => exact ⟨by rw [Option.some.inj hg], by simp⟩
  | cons c cs ih =>
    cases c with
    | drop d =>
      simp only [fate] at hg
      split at hg
      · simp at hg
      · rename_i hd
        simp only [counted, Bool.and_eq_false_iff, Bool.not_eq_false'] at hc
        have hrest := ih h.tail (hc.resolve_left hd) hg
        exact ⟨hrest.1, fun b r n hm => hrest.2 b r n (by simpa using hm)⟩
    | refuse d =>
      have hrest := ih h.tail hc hg
      exact ⟨hrest.1, fun b r n hm => hrest.2 b r n (by simpa using hm)⟩
    | count b r n =>
      simp only [counted, Bool.or_eq_false_iff] at hc
      simp only [fate, hc.1, Bool.false_eq_true, if_false] at hg
      have hrest := ih h.tail hc.2 hg
      refine ⟨hrest.1, ?_⟩
      intro b' r' n' hm
      rcases List.mem_cons.mp hm with heq | hm
      · injection heq with hb
        rw [hb]
        exact hc.1
      · exact hrest.2 b' r' n' hm
    | rewrite s =>
      have hrest := ih h.tail hc hg
      have hkey := h.rewrite s List.mem_cons_self f
      refine ⟨hrest.1.trans hkey, ?_⟩
      intro b r n hm
      have hm : .count b r n ∈ cs := by simpa using hm
      rw [← h.tail.congr b r n hm _ _ hkey]
      exact hrest.2 b r n hm

theorem Keyed.of_counted {key : φ → κ} {cs : List (Stage φ α)} (h : Keyed key cs) {f g : φ}
    (hc : counted cs f = true) (hg : fate cs f = some g) :
    ∃ b r n, .count b r n ∈ cs ∧ b g = true := by
  induction cs generalizing f with
  | nil => simp [counted] at hc
  | cons c cs ih =>
    have up : (∃ b r n, .count b r n ∈ cs ∧ b g = true) → ∃ b r n, .count b r n ∈ c :: cs ∧
        b g = true := by
      rintro ⟨b, r, n, hm, hb⟩
      exact ⟨b, r, n, List.mem_cons_of_mem _ hm, hb⟩
    cases c with
    | drop d =>
      simp only [fate] at hg
      split at hg
      · simp at hg
      · simp only [counted, Bool.and_eq_true] at hc
        exact up (ih h.tail hc.2 hg)
    | refuse d => exact up (ih h.tail hc hg)
    | count b r n =>
      simp only [fate] at hg
      split at hg
      · cases hr : counted cs r with
        | true => exact up (ih h.tail hr hg)
        | false =>
          have hkey := (h.tail.of_uncounted hr hg).1
          refine ⟨b, r, n, List.mem_cons_self, ?_⟩
          rw [h.congr b r n List.mem_cons_self g r hkey]
          exact h.self b r n List.mem_cons_self
      · rename_i hb
        simp only [counted, Bool.or_eq_true] at hc
        exact up (ih h.tail (hc.resolve_left hb) hg)
    | rewrite s => exact up (ih h.tail hc hg)

theorem Keyed.counted_eq {key : φ → κ} {cs : List (Stage φ α)} (h : Keyed key cs) {f f' g : φ}
    (hf : fate cs f = some g) (hf' : fate cs f' = some g) (hc : counted cs f = true) :
    counted cs f' = true := by
  cases hc' : counted cs f' with
  | true => rfl
  | false =>
    obtain ⟨b, r, n, hm, hb⟩ := h.of_counted hc hf
    obtain ⟨hkey, hall⟩ := h.of_uncounted hc' hf'
    rw [h.congr b r n hm g f' hkey, hall b r n hm] at hb
    simp at hb

theorem Keyed.apart {key : φ → κ} {cs : List (Stage φ α)} (h : Keyed key cs) : Apart cs := by
  induction cs with
  | nil => trivial
  | cons c cs ih =>
    cases c with
    | count b r n =>
      refine ⟨?_, ih h.tail⟩
      intro f heq hne
      obtain ⟨g, hg⟩ := Option.ne_none_iff_exists'.mp hne
      rw [Bool.eq_iff_iff]
      exact ⟨h.tail.counted_eq (heq.trans hg) hg, h.tail.counted_eq hg (heq.trans hg)⟩
    | drop | refuse | rewrite => exact ih h.tail

end

/-! ## The items that a pipeline holds -/

/-- The items behind a counter. -/
def passOn (b : φ → Bool) (r : φ) (F : List φ) : List φ :=
  if F.any b then r :: F.filter (fun f => !b f) else F.filter fun f => !b f

/-- The pipeline with the counters for the items `F`. -/
def load : List (Stage φ α) → List φ → List (Stage φ α)
  | [], _ => []
  | .drop d :: cs, F => .drop d :: load cs (F.filter fun f => !d f)
  | .refuse d :: cs, F => .refuse d :: load cs F
  | .count b r _ :: cs, F => .count b r (F.countP b) :: load cs (passOn b r F)
  | .rewrite s :: cs, F => .rewrite s :: load cs (F.map s)

theorem load_nil {cs : List (Stage φ α)} (h : ∀ b r n, .count b r n ∈ cs → n = 0) :
    load cs [] = cs := by
  induction cs with
  | nil => rfl
  | cons c cs ih =>
    have ih := ih fun b r n hm => h b r n (List.mem_cons_of_mem _ hm)
    cases c with
    | drop | refuse | rewrite => simp [load, ih]
    | count b r n => simp [load, passOn, ih, h b r n List.mem_cons_self]

theorem any_eq_of_perm {b : φ → Bool} {F G : List φ} (h : F.Perm G) : F.any b = G.any b := by
  rw [Bool.eq_iff_iff, List.any_eq_true, List.any_eq_true]
  simp only [h.mem_iff]

theorem passOn_perm {b : φ → Bool} {r : φ} {F G : List φ} (h : F.Perm G) :
    (passOn b r F).Perm (passOn b r G) := by
  unfold passOn
  rw [any_eq_of_perm h]
  split
  · exact (h.filter _).cons r
  · exact h.filter _

theorem load_perm (cs : List (Stage φ α)) {F G : List φ} (h : F.Perm G) :
    load cs F = load cs G := by
  induction cs generalizing F G with
  | nil => rfl
  | cons c cs ih =>
    cases c with
    | drop d => simp only [load, ih (h.filter _)]
    | refuse d => simp only [load, ih h]
    | count b r n => simp only [load, h.countP_eq, ih (passOn_perm h)]
    | rewrite s => simp only [load, ih (h.map s)]

theorem passOn_cons {b : φ → Bool} {f : φ} (hf : b f = false) (r : φ) (F : List φ) :
    (passOn b r (f :: F)).Perm (f :: passOn b r F) := by
  unfold passOn
  simp only [List.any_cons, hf, Bool.false_or, Bool.not_false, List.filter_cons_of_pos]
  split
  · exact List.Perm.swap _ _ _
  · exact List.Perm.refl _

theorem load_uncounted (cs : List (Stage φ α)) {f : φ} (hf : counted cs f = false) (F : List φ) :
    load cs (f :: F) = load cs F := by
  induction cs generalizing f F with
  | nil => rfl
  | cons c cs ih =>
    cases c with
    | drop d =>
      simp only [counted, Bool.and_eq_false_iff, Bool.not_eq_false'] at hf
      simp only [load, List.filter_cons]
      rcases hf with hd | hf
      · simp [hd]
      · split
        · rw [ih hf]
        · rfl
    | refuse d => simp only [load, ih hf]
    | count b r n =>
      simp only [counted, Bool.or_eq_false_iff] at hf
      simp only [load, List.countP_cons, hf.1, load_perm cs (passOn_cons hf.1 r F), ih hf.2]
      simp
    | rewrite s => simp only [load, List.map_cons, ih hf]

/-- A held item passes in the same form, as an aggregate. -/
def Shadowed (cs : List (Stage φ α)) (F : List φ) (f : φ) : Prop :=
  counted cs f = true ∧ ∃ f' ∈ F, counted cs f' = true ∧ fate cs f' = fate cs f

theorem shadowed_drop {d : φ → Bool} {f : φ} (hf : d f = false) (cs : List (Stage φ α))
    (F : List φ) :
    Shadowed (.drop d :: cs) F f ↔ Shadowed cs (F.filter fun f => !d f) f := by
  unfold Shadowed
  simp only [counted, fate, hf, Bool.not_false, Bool.true_and, List.mem_filter, Bool.and_eq_true,
    Bool.not_eq_true', Bool.false_eq_true, if_false]
  refine and_congr_right fun _ => ⟨?_, ?_⟩
  · rintro ⟨f', hmem, ⟨hd, hc⟩, hfate⟩
    rw [if_neg (by simp [hd])] at hfate
    exact ⟨f', ⟨hmem, hd⟩, hc, hfate⟩
  · rintro ⟨f', ⟨hmem, hd⟩, hc, hfate⟩
    exact ⟨f', hmem, ⟨hd, hc⟩, by rwa [if_neg (by simp [hd])]⟩

theorem shadowed_rewrite (s : φ → φ) (cs : List (Stage φ α)) (F : List φ) (f : φ) :
    Shadowed (.rewrite s :: cs) F f ↔ Shadowed cs (F.map s) (s f) := by
  unfold Shadowed
  simp only [counted, fate, List.mem_map]
  refine and_congr_right fun _ => ⟨?_, ?_⟩
  · rintro ⟨f', hmem, hc, hfate⟩
    exact ⟨s f', ⟨f', hmem, rfl⟩, hc, hfate⟩
  · rintro ⟨_, ⟨f', hmem, rfl⟩, hc, hfate⟩
    exact ⟨f', hmem, hc, hfate⟩

theorem mem_passOn {b : φ → Bool} {r f : φ} {F : List φ} :
    f ∈ passOn b r F ↔ (f = r ∧ ∃ x ∈ F, b x = true) ∨ (f ∈ F ∧ b f = false) := by
  unfold passOn
  split
  · rename_i h
    rw [List.any_eq_true] at h
    simp [h]
  · rename_i h
    rw [List.any_eq_true] at h
    simp [h]

/-- Behind a counter, the aggregate stands for the items that it counts. -/
theorem shadowed_count {b : φ → Bool} {r : φ} {n : Nat} {cs : List (Stage φ α)}
    (h : Apart (.count b r n :: cs)) {f : φ} (hf : b f = false) (hfate : fate cs f ≠ none)
    (F : List φ) :
    Shadowed (.count b r n :: cs) F f ↔ Shadowed cs (passOn b r F) f := by
  unfold Shadowed
  simp only [counted, fate, hf, Bool.false_or, Bool.or_eq_true, Bool.false_eq_true, if_false,
    mem_passOn]
  refine and_congr_right fun hc => ⟨?_, ?_⟩
  · rintro ⟨f', hmem, hcount, heq⟩
    by_cases hb : b f' = true
    · rw [if_pos hb] at heq
      refine ⟨r, Or.inl ⟨rfl, f', hmem, hb⟩, ?_, heq⟩
      rw [← h.1 f heq.symm (heq ▸ hfate)]
      exact hc
    · rw [if_neg hb] at heq
      exact ⟨f', Or.inr ⟨hmem, by simpa using hb⟩, hcount.resolve_left hb, heq⟩
  · rintro ⟨f', ⟨rfl, x, hx, hb⟩ | ⟨hmem, hb⟩, hcount, heq⟩
    · exact ⟨x, hx, Or.inl hb, by rwa [if_pos hb]⟩
    · exact ⟨f', hmem, Or.inr hcount, by rwa [if_neg (by simp [hb])]⟩

/-! ## Coming and going -/

/-- What passes of an item, where `F` are the other items. -/
def Passes (cs : List (Stage φ α)) (F : List φ) (f : φ) (a : α) (out : Option φ) : Prop :=
  (out = none ∧ (refused cs a = true ∨ Shadowed cs F f)) ∨
  (out = fate cs f ∧ refused cs a = false ∧ (fate cs f ≠ none → ¬ Shadowed cs F f))

theorem Passes.congr {cs cs' : List (Stage φ α)} {F F' : List φ} {f f' : φ} {a : α} {out : Option φ}
    (h : Passes cs F f a out) (hfate : fate cs' f' = fate cs f)
    (href : refused cs' a = refused cs a)
    (hsh : fate cs f ≠ none → (Shadowed cs' F' f' ↔ Shadowed cs F f)) : Passes cs' F' f' a out := by
  unfold Passes at *
  rw [hfate, href]
  rcases h with ⟨rfl, h | h⟩ | ⟨rfl, hr, h⟩
  · exact Or.inl ⟨rfl, Or.inl h⟩
  · by_cases hnone : fate cs f = none
    · cases hr : refused cs a with
      | true => exact Or.inl ⟨rfl, Or.inl rfl⟩
      | false => exact Or.inr ⟨hnone.symm, rfl, fun hne => absurd hnone hne⟩
    · exact Or.inl ⟨rfl, Or.inr ((hsh hnone).mpr h)⟩
  · exact Or.inr ⟨rfl, hr, fun hne hs => h hne ((hsh hne).mp hs)⟩

theorem passes_none {cs : List (Stage φ α)} {F : List φ} {f : φ} {a : α} (h : fate cs f = none) :
    Passes cs F f a none := by
  unfold Passes
  cases hr : refused cs a with
  | true => exact Or.inl ⟨rfl, Or.inl rfl⟩
  | false => exact Or.inr ⟨h.symm, rfl, fun hne => absurd h hne⟩

section

variable {b : φ → Bool} {r : φ} {n : Nat} {cs : List (Stage φ α)} {F : List φ} {f : φ} {a : α}
  {out : Option φ}

theorem passes_count_first (h : Apart (.count b r n :: cs)) (hf : b f = true) (hF : F.any b = false)
    (hout : Passes cs F r a out) : Passes (.count b r n :: cs) F f a out := by
  refine hout.congr (by simp [fate, hf]) rfl ?_
  intro hne
  rw [List.any_eq_false] at hF
  unfold Shadowed
  simp only [counted, fate, hf, Bool.true_or, if_true, true_and, Bool.or_eq_true]
  constructor
  · rintro ⟨f', hmem, hc, heq⟩
    rw [if_neg (hF f' hmem)] at heq
    have hcount := hc.resolve_left (hF f' hmem)
    exact ⟨by rw [← h.1 f' heq hne]; exact hcount, f', hmem, hcount, heq⟩
  · rintro ⟨-, f', hmem, hc, heq⟩
    exact ⟨f', hmem, Or.inr hc, by rwa [if_neg (hF f' hmem)]⟩

theorem passes_count_more (hf : b f = true) (hF : F.any b = true) :
    Passes (.count b r n :: cs) F f a none := by
  rw [List.any_eq_true] at hF
  obtain ⟨f', hmem, hb⟩ := hF
  refine Or.inl ⟨rfl, Or.inr ⟨by simp [counted, hf], f', hmem, by simp [counted, hb], ?_⟩⟩
  simp [fate, hf, hb]

theorem passes_count_other (h : Apart (.count b r n :: cs)) (hf : b f = false)
    (hout : Passes cs (passOn b r F) f a out) : Passes (.count b r n :: cs) F f a out :=
  hout.congr (by simp [fate, hf]) rfl fun hne => shadowed_count h hf hne F

end

theorem any_of_countP {b : φ → Bool} {F : List φ} (h : F.countP b ≠ 0) : F.any b = true := by
  rw [ne_eq, List.countP_eq_zero] at h
  simp only [not_forall] at h
  obtain ⟨f, hf, hb⟩ := h
  rw [List.any_eq_true]
  exact ⟨f, hf, by simpa using hb⟩

theorem not_any_of_countP {b : φ → Bool} {F : List φ} (h : F.countP b = 0) : F.any b = false := by
  rw [List.countP_eq_zero] at h
  rw [List.any_eq_false]
  exact h

theorem filter_of_not_any {b : φ → Bool} {F : List φ} (h : F.any b = false) :
    (F.filter fun f => !b f) = F := by
  rw [List.filter_eq_self]
  intro x hx
  have := List.any_eq_false.mp h x hx
  simpa using this

theorem add_load {cs : List (Stage φ α)} (hlate : Late cs) (hapart : Apart cs) (F : List φ) (f : φ)
    (a : α) :
    (add (load cs F) f a).1 = load cs (f :: F) ∧ Passes cs F f a (add (load cs F) f a).2 := by
  induction cs generalizing F f with
  | nil => exact ⟨rfl, Or.inr ⟨rfl, rfl, fun _ h => by simp [Shadowed, counted] at h⟩⟩
  | cons c cs ih =>
    cases c with
    | drop d =>
      simp only [load, add_drop]
      split
      · rename_i hd
        exact ⟨by simp [hd], passes_none (by simp [fate, hd])⟩
      · rename_i hd
        rw [Bool.not_eq_true] at hd
        obtain ⟨h1, h2⟩ := ih hlate hapart (F.filter fun f => !d f) f
        refine ⟨by simp [hd, h1], h2.congr (by simp [fate, hd]) rfl ?_⟩
        exact fun _ => shadowed_drop hd cs F
    | refuse d =>
      obtain ⟨h1, h2⟩ := ih hlate.2 hapart F f
      simp only [load, add_refuse]
      split
      · rename_i hd
        refine ⟨by rw [load_uncounted cs (hlate.1 f)], Or.inl ⟨rfl, Or.inl ?_⟩⟩
        simp [refused, hd]
      · rename_i hd
        rw [Bool.not_eq_true] at hd
        exact ⟨by rw [h1], h2.congr rfl (by simp [refused, hd]) fun _ => Iff.rfl⟩
    | count b r n =>
      simp only [load, add_count]
      split
      · rename_i hb
        split
        · rename_i hn
          have hany := not_any_of_countP hn
          have hF : passOn b r F = F := by
            simp [passOn, hany, filter_of_not_any hany]
          obtain ⟨h1, h2⟩ := ih hlate hapart.2 F r
          rw [hF]
          refine ⟨?_, passes_count_first hapart hb hany h2⟩
          rw [h1, hn, List.countP_cons, if_pos hb, hn]
          simp [passOn, hb, filter_of_not_any hany]
        · rename_i hn
          have hany := any_of_countP hn
          refine ⟨?_, passes_count_more hb hany⟩
          rw [List.countP_cons, if_pos hb]
          simp [passOn, hb, hany]
      · rename_i hb
        rw [Bool.not_eq_true] at hb
        obtain ⟨h1, h2⟩ := ih hlate hapart.2 (passOn b r F) f
        refine ⟨?_, passes_count_other hapart hb h2⟩
        rw [h1, List.countP_cons, if_neg (by simp [hb]), load_perm cs (passOn_cons hb r F)]
        rfl
    | rewrite s =>
      obtain ⟨h1, h2⟩ := ih hlate hapart (F.map s) (s f)
      simp only [load, add_rewrite]
      exact ⟨by rw [h1, List.map_cons], h2.congr rfl rfl fun _ => shadowed_rewrite s cs F f⟩

theorem remove_load {cs : List (Stage φ α)} (hlate : Late cs) (hapart : Apart cs) (F : List φ)
    (f : φ) (a : α) :
    (remove (load cs (f :: F)) f a).1 = load cs F ∧
    Passes cs F f a (remove (load cs (f :: F)) f a).2 := by
  induction cs generalizing F f with
  | nil => exact ⟨rfl, Or.inr ⟨rfl, rfl, fun _ h => by simp [Shadowed, counted] at h⟩⟩
  | cons c cs ih =>
    cases c with
    | drop d =>
      simp only [load, remove_drop]
      split
      · rename_i hd
        exact ⟨by simp [hd], passes_none (by simp [fate, hd])⟩
      · rename_i hd
        rw [Bool.not_eq_true] at hd
        obtain ⟨h1, h2⟩ := ih hlate hapart (F.filter fun f => !d f) f
        rw [List.filter_cons_of_pos (by simp [hd])]
        refine ⟨by rw [h1], h2.congr (by simp [fate, hd]) rfl ?_⟩
        exact fun _ => shadowed_drop hd cs F
    | refuse d =>
      obtain ⟨h1, h2⟩ := ih hlate.2 hapart F f
      simp only [load, remove_refuse]
      split
      · rename_i hd
        refine ⟨by rw [load_uncounted cs (hlate.1 f)], Or.inl ⟨rfl, Or.inl ?_⟩⟩
        simp [refused, hd]
      · rename_i hd
        rw [Bool.not_eq_true] at hd
        exact ⟨by rw [h1], h2.congr rfl (by simp [refused, hd]) fun _ => Iff.rfl⟩
    | count b r n =>
      simp only [load, remove_count]
      by_cases hb : b f = true
      · have hpass : passOn b r (f :: F) = r :: F.filter fun f => !b f := by
          simp [passOn, hb]
        rw [if_pos hb, List.countP_cons, if_pos hb, hpass]
        by_cases hn : F.countP b = 0
        · have hany := not_any_of_countP hn
          obtain ⟨h1, h2⟩ := ih hlate hapart.2 (F.filter fun f => !b f) r
          have hF := filter_of_not_any hany
          rw [if_pos (by omega), h1]
          rw [hF] at h2 ⊢
          refine ⟨?_, passes_count_first hapart hb hany h2⟩
          simp [passOn, hany, hF]
        · have hany := any_of_countP hn
          rw [if_neg (by omega)]
          refine ⟨?_, passes_count_more hb hany⟩
          simp [passOn, hany]
      · rw [Bool.not_eq_true] at hb
        obtain ⟨h1, h2⟩ := ih hlate hapart.2 (passOn b r F) f
        rw [if_neg (by simp [hb]), List.countP_cons, if_neg (by simp [hb]),
          load_perm cs (passOn_cons hb r F)]
        exact ⟨by rw [h1]; rfl, passes_count_other hapart hb h2⟩
    | rewrite s =>
      obtain ⟨h1, h2⟩ := ih hlate hapart (F.map s) (s f)
      simp only [load, remove_rewrite, List.map_cons]
      exact ⟨by rw [h1], h2.congr rfl rfl fun _ => shadowed_rewrite s cs F f⟩

/-- Every counter that the item would meet on its way out has counted it. -/
def Holds : List (Stage φ α) → φ → Prop
  | [], _ => True
  | .drop d :: cs, f => d f = false → Holds cs f
  | .refuse _ :: cs, f => Holds cs f
  | .count b r n :: cs, f => (b f = true → 0 < n ∧ (n = 1 → Holds cs r)) ∧
      (b f = false → Holds cs f)
  | .rewrite s :: cs, f => Holds cs (s f)

theorem holds_load (cs : List (Stage φ α)) (f : φ) (F : List φ) : Holds (load cs (f :: F)) f := by
  induction cs generalizing f F with
  | nil => trivial
  | cons c cs ih =>
    cases c with
    | drop d =>
      intro hd
      simp only [List.filter_cons_of_pos, hd, Bool.not_false]
      exact ih f _
    | refuse d => exact ih f F
    | count b r n =>
      refine ⟨?_, ?_⟩
      · intro hb
        rw [List.countP_cons, if_pos hb]
        refine ⟨by omega, fun _ => ?_⟩
        simp only [passOn, List.any_cons, hb, Bool.true_or, if_true]
        exact ih r _
      · intro hb
        rw [load_perm cs (passOn_cons hb r F)]
        exact ih f _
    | rewrite s => exact ih (s f) _

/-- No stage tells the two items apart, up to where they are counted or dropped. -/
def SameWay : List (Stage φ α) → φ → φ → Prop
  | [], _, _ => True
  | .drop d :: cs, f, g => d f = d g ∧ (d f = false → SameWay cs f g)
  | .refuse _ :: cs, f, g => SameWay cs f g
  | .count b _ _ :: cs, f, g => b f = b g ∧ (b f = false → SameWay cs f g)
  | .rewrite s :: cs, f, g => SameWay cs (s f) (s g)

theorem sameWay_refl (cs : List (Stage φ α)) (f : φ) : SameWay cs f f := by
  induction cs generalizing f with
  | nil => trivial
  | cons c cs ih =>
    cases c with
    | drop | count => exact ⟨rfl, fun _ => ih f⟩
    | refuse => exact ih f
    | rewrite s => exact ih (s f)

theorem sameWay_load (cs : List (Stage φ α)) (F : List φ) (f g : φ) :
    SameWay (load cs F) f g ↔ SameWay cs f g := by
  induction cs generalizing F f g with
  | nil => rfl
  | cons c cs ih =>
    cases c with
    | drop d => simp only [load, SameWay, ih]
    | refuse d => exact ih _ _ _
    | count b r n => simp only [load, SameWay, ih]
    | rewrite s => exact ih _ _ _

theorem SameWay.holds {cs : List (Stage φ α)} {f g : φ} (h : SameWay cs f g) (hf : Holds cs f) :
    Holds cs g := by
  induction cs generalizing f g with
  | nil => trivial
  | cons c cs ih =>
    cases c with
    | drop d =>
      intro hd
      have hdf : d f = false := h.1.trans hd
      exact ih (h.2 hdf) (hf hdf)
    | refuse d => exact ih h hf
    | count b r n =>
      refine ⟨fun hb => hf.1 (h.1.trans hb), fun hb => ?_⟩
      have hbf : b f = false := h.1.trans hb
      exact ih (h.2 hbf) (hf.2 hbf)
    | rewrite s => exact ih h hf

theorem SameWay.holds_load {cs : List (Stage φ α)} {f g : φ} (h : SameWay cs f g) (F : List φ) :
    Holds (load cs (f :: F)) g :=
  ((sameWay_load cs (f :: F) f g).mpr h).holds (Pipeline.holds_load cs f F)

theorem SameWay.remove_fst {cs : List (Stage φ α)} {f g : φ} (h : SameWay cs f g) (a : α) :
    (remove cs f a).1 = (remove cs g a).1 := by
  induction cs generalizing f g with
  | nil => rfl
  | cons c cs ih =>
    cases c with
    | drop d =>
      rw [remove_drop, remove_drop, ← h.1]
      split
      · rfl
      · rename_i hd
        rw [ih (h.2 (by simpa using hd))]
    | refuse d =>
      rw [remove_refuse, remove_refuse]
      split
      · rfl
      · rw [ih h]
    | count b r n =>
      rw [remove_count, remove_count, ← h.1]
      split
      · rfl
      · rename_i hb
        rw [ih (h.2 (by simpa using hb))]
    | rewrite s =>
      rw [remove_rewrite, remove_rewrite, ih h]

/-- No counter exceeds the number of items. -/
theorem count_le_of_load {cs : List (Stage φ α)} {F : List φ} {b : φ → Bool} {r : φ} {n : Nat}
    (h : .count b r n ∈ load cs F) : n ≤ F.length := by
  induction cs generalizing F with
  | nil => simp [load] at h
  | cons c cs ih =>
    cases c with
    | drop d =>
      simp only [load, List.mem_cons, reduceCtorEq, false_or] at h
      exact Nat.le_trans (ih h) (List.length_filter_le _ _)
    | refuse d =>
      simp only [load, List.mem_cons, reduceCtorEq, false_or] at h
      exact ih h
    | count b' r' n' =>
      simp only [load, List.mem_cons, Stage.count.injEq] at h
      rcases h with ⟨-, -, rfl⟩ | h
      · exact List.countP_le_length
      · refine Nat.le_trans (ih h) ?_
        unfold passOn
        split
        · rename_i hany
          obtain ⟨x, hx, hb⟩ := List.any_eq_true.mp hany
          have hlt : (F.filter fun f => !b' f).length < F.length := by
            rw [List.length_filter_lt_length_iff_exists]
            exact ⟨x, hx, by simp [hb]⟩
          rw [List.length_cons]
          omega
        · exact List.length_filter_le _ _
    | rewrite s =>
      simp only [load, List.mem_cons, reduceCtorEq, false_or] at h
      simpa using ih h

/-! ## Several items -/

/-- Adds the items one after the other. -/
def addAll : List (Stage φ α) → List (φ × α) → List (Stage φ α) × List φ
  | cs, [] => (cs, [])
  | cs, x :: xs =>
    ((addAll (add cs x.1 x.2).1 xs).1, (add cs x.1 x.2).2.toList ++
      (addAll (add cs x.1 x.2).1 xs).2)

/-- The item `x` comes out as `g` after the items `F` were added. -/
def Emerges (cs : List (Stage φ α)) (F : List φ) (x : φ × α) (g : φ) : Prop :=
  refused cs x.2 = false ∧ fate cs x.1 = some g ∧ ¬ Shadowed cs F x.1

/-- Some item comes out as `g`. -/
def Yields (cs : List (Stage φ α)) (F : List φ) (xs : List (φ × α)) (g : φ) : Prop :=
  ∃ pre x post, xs = pre ++ x :: post ∧ Emerges cs (pre.map Prod.fst ++ F) x g

section

variable {cs : List (Stage φ α)} {F G : List φ} {f g : φ} {x y : φ × α} {pre post xs : List (φ × α)}

theorem Shadowed.mono (h : Shadowed cs F f) (hsub : ∀ y, counted cs y = true → y ∈ F → y ∈ G) :
    Shadowed cs G f := by
  obtain ⟨hf, f', hf', hc, hfate⟩ := h
  exact ⟨hf, f', hsub f' hc hf', hc, hfate⟩

theorem emerges_congr (h : ∀ y, counted cs y = true → (y ∈ F ↔ y ∈ G)) :
    Emerges cs F x g ↔ Emerges cs G x g := by
  have hsh : Shadowed cs F x.1 ↔ Shadowed cs G x.1 :=
    ⟨fun hs => hs.mono fun y hy => (h y hy).mp, fun hs => hs.mono fun y hy => (h y hy).mpr⟩
  unfold Emerges
  rw [hsh]

theorem emerges_cons : Emerges cs (pre.map Prod.fst ++ x.1 :: F) y g ↔
    Emerges cs ((x :: pre).map Prod.fst ++ F) y g := by
  refine emerges_congr fun z _ => ?_
  simp only [List.map_cons, List.cons_append, List.mem_append, List.mem_cons]
  tauto

theorem passes_iff_emerges {out : Option φ} (h : Passes cs F x.1 x.2 out) :
    out = some g ↔ Emerges cs F x g := by
  unfold Emerges
  rcases h with ⟨rfl, hr | hs⟩ | ⟨rfl, hr, hs⟩
  · simp [hr]
  · simp [hs]
  · constructor
    · intro hg
      exact ⟨hr, hg, hs (by simp [hg])⟩
    · exact fun hg => hg.2.1

theorem yields_cons : Yields cs F (x :: xs) g ↔ Emerges cs F x g ∨ Yields cs (x.1 :: F) xs g := by
  constructor
  · rintro ⟨pre, y, post, heq, hy⟩
    cases pre with
    | nil =>
      obtain ⟨rfl, rfl⟩ := List.cons.inj heq
      exact Or.inl hy
    | cons z pre =>
      obtain ⟨rfl, rfl⟩ := List.cons.inj heq
      exact Or.inr ⟨pre, y, post, rfl, emerges_cons.mpr hy⟩
  · rintro (hx | ⟨pre, y, post, rfl, hy⟩)
    · exact ⟨[], x, xs, rfl, hx⟩
    · exact ⟨x :: pre, y, post, rfl, emerges_cons.mp hy⟩

theorem yields_congr (h : ∀ y, counted cs y = true → (y ∈ F ↔ y ∈ G)) :
    Yields cs F xs g ↔ Yields cs G xs g := by
  have hiff : ∀ pre : List (φ × α), ∀ y, counted cs y = true →
      (y ∈ pre.map Prod.fst ++ F ↔ y ∈ pre.map Prod.fst ++ G) := by
    intro pre y hy
    rw [List.mem_append, List.mem_append, h y hy]
  unfold Yields
  simp only [emerges_congr (hiff _)]

theorem mem_addAll (hlate : Late cs) (hapart : Apart cs) :
    g ∈ (addAll (load cs F) xs).2 ↔ Yields cs F xs g := by
  induction xs generalizing F with
  | nil => simp [addAll, Yields]
  | cons x xs ih =>
    obtain ⟨hload, hpass⟩ := add_load hlate hapart F x.1 x.2
    unfold addAll
    rw [hload, List.mem_append, Option.mem_toList, passes_iff_emerges hpass, ih, yields_cons]

theorem yields_after (hx : refused cs x.2 = false) :
    Emerges cs F x g ∨ Yields cs (x.1 :: F) xs g ↔ Yields cs F xs g ∨ Emerges cs F x g := by
  constructor
  · rintro (h | ⟨pre, y, post, rfl, hr, hfate, hsh⟩)
    · exact Or.inr h
    · refine Or.inl ⟨pre, y, post, rfl, hr, hfate, fun h => hsh (h.mono ?_)⟩
      intro z _ hz
      simp only [List.mem_append, List.mem_cons] at hz ⊢
      tauto
  · rintro (⟨pre, y, post, rfl, hr, hfate, hsh⟩ | h)
    · by_cases hby : Shadowed cs (pre.map Prod.fst ++ x.1 :: F) y.1
      · obtain ⟨hcy, f', hf', hc', hfate'⟩ := hby
        have hself : f' = x.1 := by
          by_contra hne
          refine hsh ⟨hcy, f', ?_, hc', hfate'⟩
          simpa [hne] using hf'
        subst hself
        refine Or.inl ⟨hx, hfate'.trans hfate, fun h => ?_⟩
        obtain ⟨-, f'', hf'', hc'', hfate''⟩ := h
        exact hsh ⟨hcy, f'', List.mem_append_right _ hf'', hc'', hfate''.trans hfate'⟩
      · exact Or.inr ⟨pre, y, post, rfl, hr, hfate, hby⟩
    · exact Or.inl h

/-- What one more item adds, wherever it stands. -/
theorem yields_insert (hx : refused cs x.2 = false) :
    Yields cs F (pre ++ x :: post) g ↔ Yields cs F (pre ++ post) g ∨
    Emerges cs (pre.map Prod.fst ++ F) x g := by
  induction pre generalizing F with
  | nil => exact yields_cons.trans (yields_after hx)
  | cons y pre ih =>
    rw [List.cons_append, List.cons_append, yields_cons, yields_cons, ih, or_assoc, emerges_cons]

theorem yields_insert_dropped (hfate : fate cs x.1 = none) (hc : counted cs x.1 = false) :
    Yields cs F (pre ++ x :: post) g ↔ Yields cs F (pre ++ post) g := by
  induction pre generalizing F with
  | nil =>
    have hnone : ¬ Emerges cs F x g := by simp [Emerges, hfate]
    rw [List.nil_append, yields_cons, or_iff_right hnone]
    refine yields_congr fun y hy => ?_
    rw [List.mem_cons, or_iff_right]
    rintro rfl
    rw [hc] at hy
    simp at hy
  | cons y pre ih =>
    rw [List.cons_append, List.cons_append, yields_cons, yields_cons, ih]

theorem yields_append_dropped {zs : List (φ × α)}
    (h : ∀ z ∈ zs, fate cs z.1 = none ∧ counted cs z.1 = false) :
    Yields cs F (xs ++ zs) g ↔ Yields cs F xs g := by
  induction zs with
  | nil => rw [List.append_nil]
  | cons z zs ih =>
    rw [List.forall_mem_cons] at h
    rw [yields_insert_dropped h.1.1 h.1.2, ih h.2]

end

end Pipeline
