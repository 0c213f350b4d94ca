import UActor.PubSub.ConstraintIndex
import UActor.Lib.Sorted
import Mathlib.Data.String.Basic

/-!
# What the index does

`insert`, `remove` and `check` on the list of all items of an index. The sorted vector and the
scanned one behave alike there.
-/

namespace UActor

namespace Constraint

theorem stringEqual?_of_eqv {a b : Constraint} (h : eqv a b = true) :
    a.stringEqual? = b.stringEqual? := by
  cases a <;> cases b <;> simp only [eqv, Bool.and_eq_true, beq_iff_eq, Bool.false_eq_true] at h
  case str.str =>
    obtain ⟨-, rfl, rfl⟩ := h
    rename_i op _
    cases op <;> rfl
  all_goals rfl

theorem eq_str_of_stringEqual? {c : Constraint} {x : String} (h : c.stringEqual? = some x) :
    c = .str c.attr x .EQ c.optional := by
  unfold stringEqual? at h
  split at h
  · obtain rfl := Option.some.inj h
    rfl
  · exact absurd h (by simp)

theorem eqv_str_iff {a x y : String} {opt opt' : Bool} :
    eqv (.str a y .EQ opt) (.str a x .EQ opt') = true ↔ y = x := by
  simp only [eqv, beq_self_eq_true, Bool.true_and, Bool.and_true, beq_iff_eq]
  exact eq_comm

end Constraint

namespace ConstraintIndex

open Buckets (keys)

/-- All items of an index. -/
def items (ix : ConstraintIndex) : List ConstraintItem := ix.string_equal ++ ix.index

structure SoundStrings (a : String) (l : List ConstraintItem) : Prop where
  strings : ∀ d ∈ keys l, ∃ x opt, d = .str a x .EQ opt
  sorted : (keys l).Pairwise fun d e => d.operandStr < e.operandStr

structure SoundRest (a : String) (l : List ConstraintItem) : Prop where
  rest : ∀ d ∈ keys l, d.attr = a ∧ d.stringEqual? = none
  apart : (keys l).Pairwise fun d e => d.eqv e = false

structure Filled (l : List ConstraintItem) : Prop where
  nonempty : ∀ i ∈ l, i.2 ≠ []
  members_nodup : ∀ i ∈ l, (i.2.map Prod.fst).Nodup

/-- The index of the attribute `a`, after any calls. -/
structure Sound (a : String) (ix : ConstraintIndex) : Prop where
  strings : SoundStrings a ix.string_equal
  rest : SoundRest a ix.index
  filled : Filled ix.items

theorem SoundStrings.items_sorted {a : String} {l : List ConstraintItem} (h : SoundStrings a l) :
    l.Pairwise fun i j => i.1.operandStr < j.1.operandStr := by
  simpa only [keys, List.pairwise_map] using h.sorted

theorem sound_empty (a : String) : Sound a empty :=
  ⟨⟨by simp [empty, keys], by simp [empty, keys]⟩, ⟨by simp [empty, keys], by simp [empty, keys]⟩,
    ⟨by simp [empty, items], by simp [empty, items]⟩⟩

theorem mem_keys {l : List ConstraintItem} {i : ConstraintItem} (h : i ∈ l) : i.1 ∈ keys l :=
  List.mem_map.mpr ⟨i, h, rfl⟩

theorem Sound.attr_eq {a : String} {ix : ConstraintIndex} (h : Sound a ix) :
    ∀ d ∈ keys ix.items, d.attr = a := by
  intro d hd
  rw [items, keys, List.map_append, List.mem_append] at hd
  rcases hd with hd | hd
  · obtain ⟨x, opt, rfl⟩ := h.strings.strings d hd
    rfl
  · exact (h.rest.rest d hd).1

theorem SoundStrings.eqv_other {a : String} {l : List ConstraintItem} (h : SoundStrings a l)
    {c : Constraint} (hc : c.stringEqual? = none) : ∀ d ∈ keys l, d.eqv c = false := by
  intro d hd
  rw [Bool.eq_false_iff]
  intro he
  obtain ⟨x, opt, rfl⟩ := h.strings d hd
  have := Constraint.stringEqual?_of_eqv he
  rw [hc] at this
  simp [Constraint.stringEqual?] at this

theorem SoundRest.eqv_other {a : String} {l : List ConstraintItem} (h : SoundRest a l)
    {c : Constraint} (hc : c.stringEqual? ≠ none) : ∀ d ∈ keys l, d.eqv c = false := by
  intro d hd
  rw [Bool.eq_false_iff]
  intro he
  exact hc (by rw [← Constraint.stringEqual?_of_eqv he, (h.rest d hd).2])

/-! ## The search -/

theorem SoundStrings.eqv_iff {a : String} {l : List ConstraintItem} (h : SoundStrings a l)
    {c : Constraint} {x : String} (hc : c.stringEqual? = some x) (ha : c.attr = a) {d : Constraint}
    (hd : d ∈ keys l) : d.eqv c = true ↔ d.operandStr = x := by
  obtain ⟨y, opt, rfl⟩ := h.strings d hd
  rw [Constraint.eq_str_of_stringEqual? hc, ha]
  exact Constraint.eqv_str_iff

theorem lowerBound_spec {a : String} {l : List ConstraintItem} (h : SoundStrings a l)
    {c : Constraint} {x : String} (hc : c.stringEqual? = some x) (ha : c.attr = a) :
    (∃ item rest, l.dropWhile (below x) = item :: rest ∧ item.1.operandStr = x ∧
      item.1.eqv c = true ∧ ∀ d ∈ keys (l.takeWhile (below x)), d.eqv c = false) ∨
    ((∀ item rest, l.dropWhile (below x) = item :: rest → item.1.operandStr ≠ x) ∧
      (∀ d ∈ keys l, d.eqv c = false) ∧ ∀ i ∈ l.dropWhile (below x), x < i.1.operandStr) := by
  have hsplit := List.takeWhile_append_dropWhile (p := below x) (l := l)
  have hsort : l.Pairwise fun i j => i.1.operandStr < j.1.operandStr := h.items_sorted
  have hmem : ∀ i, i ∈ l.takeWhile (below x) ∨ i ∈ l.dropWhile (below x) ↔ i ∈ l := by
    intro i
    rw [← List.mem_append, hsplit]
  have hbefore : ∀ d ∈ keys (l.takeWhile (below x)), d.eqv c = false := by
    intro d hd
    obtain ⟨i, hi, rfl⟩ := List.mem_map.mp hd
    have hlt := Sorted.lt_of_mem_takeWhile (k := fun i : ConstraintItem => i.1.operandStr) hi
    rw [Bool.eq_false_iff, Ne, h.eqv_iff hc ha (mem_keys ((hmem i).mp (Or.inl hi)))]
    exact ne_of_lt hlt
  have hafter : ∀ i ∈ l.dropWhile (below x), x ≤ i.1.operandStr := fun i hi =>
    Sorted.le_of_mem_dropWhile (k := fun i : ConstraintItem => i.1.operandStr) hsort hi
  by_cases hx : ∃ item rest, l.dropWhile (below x) = item :: rest ∧ item.1.operandStr = x
  · obtain ⟨item, rest, hd, hx⟩ := hx
    have hi : item ∈ l := (hmem item).mp (Or.inr (by rw [hd]; exact List.mem_cons_self))
    exact Or.inl ⟨item, rest, hd, hx, (h.eqv_iff hc ha (mem_keys hi)).mpr hx, hbefore⟩
  · -- The head is above `x`, and so is everything after it.
    have hgt : ∀ i ∈ l.dropWhile (below x), x < i.1.operandStr := by
      intro i hi
      refine lt_of_le_of_ne (hafter i hi) ?_
      intro heq
      cases hd : l.dropWhile (below x) with
      | nil => rw [hd] at hi; simp at hi
      | cons item rest =>
        have hle := hafter item (by rw [hd]; exact List.mem_cons_self)
        have hpair := hsort.sublist (List.dropWhile_sublist (p := below x))
        rw [hd] at hi hpair
        rcases List.mem_cons.mp hi with rfl | hi
        · exact hx ⟨i, rest, hd, heq.symm⟩
        · have hlt := (List.pairwise_cons.mp hpair).1 i hi
          rw [← heq] at hlt
          exact absurd hle (not_le_of_gt hlt)
    refine Or.inr ⟨fun item rest hd h => hx ⟨item, rest, hd, h⟩, ?_, hgt⟩
    intro d hd
    obtain ⟨i, hi, rfl⟩ := List.mem_map.mp hd
    rcases (hmem i).mpr hi with hb | hb
    · exact hbefore _ (mem_keys hb)
    · rw [Bool.eq_false_iff, Ne, h.eqv_iff hc ha hd]
      exact ne_of_gt (hgt i hb)

/-! ## One insertion -/

/-- What one insertion does to a list of items. The constraint `e` is the stored one. -/
inductive Inserted (l : List ConstraintItem) (c : Constraint) (sub : Nat) (opt : Bool) :
    List ConstraintItem → Constraint → Prop
  | found (l₁ l₂ : List ConstraintItem) (e : Constraint) (ms : List (Nat × Bool))
      (hl : l = l₁ ++ (e, ms) :: l₂) (he : e.eqv c = true)
      (hfirst : ∀ d ∈ keys l₁, d.eqv c = false) :
      Inserted l c sub opt (l₁ ++ (e, addPair sub opt ms) :: l₂) e
  | new (l₁ l₂ : List ConstraintItem) (hl : l = l₁ ++ l₂) (hnone : ∀ d ∈ keys l, d.eqv c = false)
      (hend : l₂ = [] ∨ c.stringEqual? ≠ none) :
      Inserted l c sub opt (l₁ ++ (c, [(sub, opt)]) :: l₂) c

variable {l l' l₀ : List ConstraintItem} {c e : Constraint} {sub : Nat} {opt : Bool}

theorem Inserted.append_left (h : Inserted l c sub opt l' e) (h₀ : ∀ d ∈ keys l₀, d.eqv c = false) :
    Inserted (l₀ ++ l) c sub opt (l₀ ++ l') e := by
  cases h with
  | found l₁ l₂ e ms hl he hfirst =>
    rw [← List.append_assoc]
    refine .found _ l₂ e ms (by rw [hl, List.append_assoc]) he ?_
    rw [keys, List.map_append]
    exact List.forall_mem_append.mpr ⟨h₀, hfirst⟩
  | new l₁ l₂ hl hnone hend =>
    rw [← List.append_assoc]
    refine .new _ l₂ (by rw [hl, List.append_assoc]) ?_ hend
    rw [keys, List.map_append]
    exact List.forall_mem_append.mpr ⟨h₀, hnone⟩

theorem Inserted.append_right (h : Inserted l c sub opt l' e) (h₀ : ∀ d ∈ keys l₀, d.eqv c = false)
    (hc : c.stringEqual? ≠ none) : Inserted (l ++ l₀) c sub opt (l' ++ l₀) e := by
  cases h with
  | found l₁ l₂ e ms hl he hfirst =>
    rw [List.append_assoc, List.cons_append]
    exact .found l₁ (l₂ ++ l₀) e ms (by rw [hl]; simp) he hfirst
  | new l₁ l₂ hl hnone hend =>
    rw [List.append_assoc, List.cons_append]
    refine .new l₁ (l₂ ++ l₀) (by rw [hl]; simp) ?_ (Or.inr hc)
    rw [keys, List.map_append]
    exact List.forall_mem_append.mpr ⟨hnone, h₀⟩

theorem Inserted.mem (h : Inserted l c sub opt l' e) {i : ConstraintItem} (hi : i ∈ l') :
    i ∈ l ∨ (∃ ms, i = (e, addPair sub opt ms) ∧ (e, ms) ∈ l) ∨ i = (c, [(sub, opt)]) := by
  cases h with
  | found l₁ l₂ e ms hl he hfirst =>
    subst hl
    simp only [List.mem_append, List.mem_cons] at hi ⊢
    rcases hi with hi | rfl | hi
    · exact Or.inl (Or.inl hi)
    · exact Or.inr (Or.inl ⟨ms, rfl, Or.inr (Or.inl rfl)⟩)
    · exact Or.inl (Or.inr (Or.inr hi))
  | new l₁ l₂ hl hnone hend =>
    subst hl
    simp only [List.mem_append, List.mem_cons] at hi ⊢
    tauto

theorem Inserted.mem_keys (h : Inserted l c sub opt l' e) {d : Constraint} (hd : d ∈ keys l') :
    d ∈ keys l ∨ d = c := by
  obtain ⟨i, hi, rfl⟩ := List.mem_map.mp hd
  rcases h.mem hi with hi | ⟨ms, rfl, hms⟩ | rfl
  · exact Or.inl (ConstraintIndex.mem_keys hi)
  · exact Or.inl (List.mem_map.mpr ⟨(e, ms), hms, rfl⟩)
  · exact Or.inr rfl

theorem addPair_ne_nil {ms : List (Nat × Bool)} (h : ms ≠ []) : addPair sub opt ms ≠ [] := by
  unfold addPair
  split
  · exact h
  · simp

theorem any_fst_iff {ms : List (Nat × Bool)} :
    (ms.any fun m => m.1 == sub) = true ↔ sub ∈ ms.map Prod.fst := by
  simp [List.any_eq_true]

theorem addPair_nodup {ms : List (Nat × Bool)} (h : (ms.map Prod.fst).Nodup) :
    ((addPair sub opt ms).map Prod.fst).Nodup := by
  unfold addPair
  split
  · exact h
  · rename_i hany
    rw [any_fst_iff] at hany
    rw [List.map_append, List.nodup_append]
    refine ⟨h, by simp, ?_⟩
    intro s hs t ht hst
    obtain rfl : t = sub := by simpa using ht
    exact hany (hst ▸ hs)

theorem Inserted.filled (h : Inserted l c sub opt l' e) (hl : Filled l) : Filled l' := by
  constructor
  · intro i hi
    rcases h.mem hi with hi | ⟨ms, rfl, hms⟩ | rfl
    · exact hl.nonempty i hi
    · exact addPair_ne_nil (hl.nonempty _ hms)
    · simp
  · intro i hi
    rcases h.mem hi with hi | ⟨ms, rfl, hms⟩ | rfl
    · exact hl.members_nodup i hi
    · exact addPair_nodup (hl.members_nodup _ hms)
    · simp

theorem insertString_spec {a x : String} (h : SoundStrings a l) (hc : c.stringEqual? = some x)
    (ha : c.attr = a) :
    Inserted l c sub opt (insertString c x sub opt l).1 (insertString c x sub opt l).2 ∧
      SoundStrings a (insertString c x sub opt l).1 := by
  have hsplit := List.takeWhile_append_dropWhile (p := below x) (l := l)
  have hcs := Constraint.eq_str_of_stringEqual? hc
  have hcx : c.operandStr = x := by rw [hcs]; rfl
  rcases lowerBound_spec h hc ha with ⟨item, rest, hd, hx, heq, hfirst⟩ | ⟨hx, hnone, hgt⟩
  · have hl : l = l.takeWhile (below x) ++ item :: rest := by rw [← hd, hsplit]
    simp only [insertString, hd, if_pos hx]
    refine ⟨.found _ rest item.1 item.2 hl heq hfirst, ?_⟩
    have hk : keys (l.takeWhile (below x) ++ (item.1, addPair sub opt item.2) :: rest) =
        keys l := by
      conv_rhs => rw [hl]
      simp [keys]
    exact ⟨by rw [hk]; exact h.strings, by rw [hk]; exact h.sorted⟩
  · have hr : insertString c x sub opt l =
        (l.takeWhile (below x) ++ (c, [(sub, opt)]) :: l.dropWhile (below x), c) := by
      unfold insertString
      split
      · rename_i hd; rw [hd]
      · rename_i item rest hd
        rw [if_neg (hx item rest hd), hd]
    rw [hr]
    have hins : Inserted l c sub opt _ c := .new _ _ hsplit.symm hnone (Or.inr (by rw [hc]; simp))
    refine ⟨hins, ?_, ?_⟩
    · intro d hd
      rcases hins.mem_keys hd with hd | rfl
      · exact h.strings d hd
      · exact ⟨x, d.optional, by rw [← ha]; exact hcs⟩
    · rw [keys, List.pairwise_map]
      refine Sorted.pairwise_insert (k := fun i : ConstraintItem => i.1.operandStr) ?_ ?_ ?_
      · rw [hsplit]; exact h.items_sorted
      · intro i hi
        simpa [hcx] using Sorted.lt_of_mem_takeWhile (k := fun i : ConstraintItem => i.1.operandStr)
          hi
      · intro i hi
        simpa [hcx] using hgt i hi

theorem insertFallback_keys (c : Constraint) (sub : Nat) (opt : Bool) (l : List ConstraintItem) :
    keys (insertFallback c sub opt l).1 = keys l ∨
    (keys (insertFallback c sub opt l).1 = keys l ++ [c] ∧ ∀ d ∈ keys l, d.eqv c = false) := by
  induction l with
  | nil => exact Or.inr ⟨rfl, by simp [keys]⟩
  | cons item l ih =>
    unfold insertFallback
    split
    · exact Or.inl rfl
    · rename_i he
      have he : item.1.eqv c = false := by simpa using he
      simp only [keys, List.map_cons] at ih ⊢
      rcases ih with ih | ⟨ih, hnone⟩
      · exact Or.inl (by rw [ih])
      · exact Or.inr ⟨by rw [ih]; rfl, List.forall_mem_cons.mpr ⟨he, hnone⟩⟩

theorem insertFallback_inserted (c : Constraint) (sub : Nat) (opt : Bool)
    (l : List ConstraintItem) :
    Inserted l c sub opt (insertFallback c sub opt l).1 (insertFallback c sub opt l).2 := by
  induction l with
  | nil => exact .new [] [] rfl (by simp [keys]) (Or.inl rfl)
  | cons item l ih =>
    unfold insertFallback
    split
    · rename_i he
      exact .found [] l item.1 item.2 rfl he (by simp [keys])
    · rename_i he
      have he : ∀ d ∈ keys [item], d.eqv c = false := by simpa [keys] using he
      exact ih.append_left he

theorem insertFallback_spec {a : String} (h : SoundRest a l) (hc : c.stringEqual? = none)
    (ha : c.attr = a) :
    Inserted l c sub opt (insertFallback c sub opt l).1 (insertFallback c sub opt l).2 ∧
      SoundRest a (insertFallback c sub opt l).1 := by
  refine ⟨insertFallback_inserted c sub opt l, ?_⟩
  rcases insertFallback_keys c sub opt l with hk | ⟨hk, hnone⟩
  · exact ⟨by rw [hk]; exact h.rest, by rw [hk]; exact h.apart⟩
  · refine ⟨?_, ?_⟩
    · rw [hk]
      exact List.forall_mem_append.mpr ⟨h.rest, by simpa using ⟨ha, hc⟩⟩
    · rw [hk, List.pairwise_append]
      exact ⟨h.apart, List.pairwise_singleton _ _, by simpa using hnone⟩

/-- `insert` files the subscription under the first equal constraint, or under the new one. -/
theorem insert_spec {a : String} {ix : ConstraintIndex} (h : Sound a ix) (ha : c.attr = a)
    (sub : Nat) (opt : Bool) :
    Inserted ix.items c sub opt (ix.insert c sub opt).1.items (ix.insert c sub opt).2 ∧
      Sound a (ix.insert c sub opt).1 := by
  unfold insert
  split
  · rename_i x hc
    obtain ⟨hins, hs⟩ : Inserted ix.string_equal c sub opt _ _ ∧ _ :=
      insertString_spec h.strings hc ha
    have hstr : c.stringEqual? ≠ none := by rw [hc]; simp
    have hall := hins.append_right (h.rest.eqv_other hstr) hstr
    exact ⟨hall, hs, h.rest, hall.filled h.filled⟩
  · rename_i hc
    obtain ⟨hins, hr⟩ : Inserted ix.index c sub opt _ _ ∧ _ := insertFallback_spec h.rest hc ha
    have hall := hins.append_left (h.strings.eqv_other hc)
    exact ⟨hall, h.strings, hr, hall.filled h.filled⟩

/-! ## One removal -/

/-- What one removal does to a list of items. -/
inductive Removed (l : List ConstraintItem) (c : Constraint) (sub : Nat) :
    List ConstraintItem → Prop
  | found (l₁ l₂ : List ConstraintItem) (item : ConstraintItem) (hl : l = l₁ ++ item :: l₂)
      (he : item.1.eqv c = true) (hfirst : ∀ d ∈ keys l₁, d.eqv c = false) :
      Removed l c sub (l₁ ++ (removePair sub item ++ l₂))
  | absent (hnone : ∀ d ∈ keys l, d.eqv c = false) : Removed l c sub l

theorem Removed.append_left (h : Removed l c sub l') (h₀ : ∀ d ∈ keys l₀, d.eqv c = false) :
    Removed (l₀ ++ l) c sub (l₀ ++ l') := by
  have happ : ∀ l₁, (∀ d ∈ keys l₁, d.eqv c = false) → ∀ d ∈ keys (l₀ ++ l₁), d.eqv c = false := by
    intro l₁ h₁
    rw [keys, List.map_append]
    exact List.forall_mem_append.mpr ⟨h₀, h₁⟩
  cases h with
  | found l₁ l₂ item hl he hfirst =>
    rw [← List.append_assoc]
    exact .found _ l₂ item (by rw [hl, List.append_assoc]) he (happ l₁ hfirst)
  | absent hnone => exact .absent (happ l hnone)

theorem Removed.append_right (h : Removed l c sub l') (h₀ : ∀ d ∈ keys l₀, d.eqv c = false) :
    Removed (l ++ l₀) c sub (l' ++ l₀) := by
  cases h with
  | found l₁ l₂ item hl he hfirst =>
    rw [List.append_assoc, List.append_assoc]
    exact .found l₁ (l₂ ++ l₀) item (by rw [hl]; simp) he hfirst
  | absent hnone =>
    refine .absent ?_
    rw [keys, List.map_append]
    exact List.forall_mem_append.mpr ⟨hnone, h₀⟩

theorem removePair_keys (sub : Nat) (item : ConstraintItem) :
    (keys (removePair sub item)).Sublist [item.1] := by
  unfold removePair
  split
  · exact List.nil_sublist _
  · exact List.Sublist.refl _

theorem Removed.keys_sublist (h : Removed l c sub l') : (keys l').Sublist (keys l) := by
  cases h with
  | found l₁ l₂ item hl he hfirst =>
    subst hl
    have hpair := removePair_keys sub item
    simp only [keys, List.map_append, List.map_cons] at hpair ⊢
    exact (List.Sublist.refl _).append (hpair.append (List.Sublist.refl _))
  | absent hnone => exact List.Sublist.refl _

theorem Removed.mem (h : Removed l c sub l') {i : ConstraintItem} (hi : i ∈ l') :
    i ∈ l ∨ ∃ ms, (i.1, ms) ∈ l ∧ ms.length ≠ 1 ∧ i.2 = ms.eraseP fun e => e.1 = sub := by
  cases h with
  | found l₁ l₂ item hl he hfirst =>
    subst hl
    simp only [List.mem_append, List.mem_cons] at hi ⊢
    rcases hi with hi | hi | hi
    · exact Or.inl (Or.inl hi)
    · unfold removePair at hi
      split at hi
      · simp at hi
      · rename_i hlen
        obtain rfl := List.mem_singleton.mp hi
        exact Or.inr ⟨item.2, Or.inr (Or.inl rfl), hlen, rfl⟩
    · exact Or.inl (Or.inr (Or.inr hi))
  | absent hnone => exact Or.inl hi

theorem eraseP_ne_nil {ms : List (Nat × Bool)} (h : ms ≠ []) (hlen : ms.length ≠ 1)
    (p : Nat × Bool → Bool) : ms.eraseP p ≠ [] := by
  intro hnil
  rcases List.eraseP_eq_nil_iff.mp hnil with hms | ⟨m, -, rfl⟩
  · exact h hms
  · exact hlen rfl

theorem Removed.filled (h : Removed l c sub l') (hl : Filled l) : Filled l' := by
  constructor
  · intro i hi
    rcases h.mem hi with hi | ⟨ms, hms, hlen, heq⟩
    · exact hl.nonempty i hi
    · rw [heq]
      exact eraseP_ne_nil (hl.nonempty _ hms) hlen _
  · intro i hi
    rcases h.mem hi with hi | ⟨ms, hms, hlen, heq⟩
    · exact hl.members_nodup i hi
    · rw [heq]
      exact (hl.members_nodup _ hms).sublist (List.eraseP_sublist.map _)

theorem removeFallback_removed (c : Constraint) (sub : Nat) (l : List ConstraintItem) :
    Removed l c sub (removeFallback c sub l) := by
  induction l with
  | nil => exact .absent (by simp [keys])
  | cons item l ih =>
    unfold removeFallback
    split
    · rename_i he
      exact .found [] l item rfl he (by simp [keys])
    · rename_i he
      have he : ∀ d ∈ keys [item], d.eqv c = false := by simpa [keys] using he
      exact ih.append_left he

theorem removeString_removed {a x : String} (h : SoundStrings a l) (hc : c.stringEqual? = some x)
    (ha : c.attr = a) (sub : Nat) : Removed l c sub (removeString x sub l) := by
  have hsplit := List.takeWhile_append_dropWhile (p := below x) (l := l)
  rcases lowerBound_spec h hc ha with ⟨item, rest, hd, hx, heq, hfirst⟩ | ⟨hx, hnone, -⟩
  · have hl : l = l.takeWhile (below x) ++ item :: rest := by rw [← hd, hsplit]
    simp only [removeString, hd, if_pos hx, List.append_assoc]
    exact .found _ rest item hl heq hfirst
  · have hr : removeString x sub l = l := by
      unfold removeString
      split
      · rfl
      · rename_i item rest hd
        rw [if_neg (hx item rest hd)]
    rw [hr]
    exact .absent hnone

/-- `remove` takes the subscription from the first equal constraint. -/
theorem remove_spec {a : String} {ix : ConstraintIndex} (h : Sound a ix) (ha : c.attr = a)
    (sub : Nat) :
    Removed ix.items c sub (ix.remove c sub).1.items ∧ Sound a (ix.remove c sub).1 := by
  unfold remove
  split
  · rename_i x hc
    have hrem := removeString_removed h.strings hc ha sub
    have hall := hrem.append_right (h.rest.eqv_other (by rw [hc]; simp))
    have hsub := hrem.keys_sublist
    refine ⟨hall, ⟨?_, h.strings.sorted.sublist hsub⟩, h.rest, hall.filled h.filled⟩
    exact fun d hd => h.strings.strings d (hsub.subset hd)
  · rename_i hc
    have hrem := removeFallback_removed c sub ix.index
    have hall := hrem.append_left (h.strings.eqv_other hc)
    have hsub := hrem.keys_sublist
    refine ⟨hall, h.strings, ⟨?_, h.rest.apart.sublist hsub⟩, hall.filled h.filled⟩
    exact fun d hd => h.rest.rest d (hsub.subset hd)

theorem remove_flag (ix : ConstraintIndex) (c : Constraint) (sub : Nat) :
    (ix.remove c sub).2 = true ↔ (ix.remove c sub).1.items = [] := by
  unfold remove items
  simp only [Bool.and_eq_true, List.isEmpty_iff, List.append_eq_nil_iff]
  exact and_comm

/-! ## Buckets

Under constraints that are equal to themselves, the items are buckets.
-/

theorem Sound.items_apart {a : String} {ix : ConstraintIndex} (h : Sound a ix) :
    (keys ix.items).Pairwise fun d e => d.eqv e = false := by
  rw [items, keys, List.map_append, List.pairwise_append]
  refine ⟨?_, h.rest.apart, ?_⟩
  · refine h.strings.sorted.imp_of_mem ?_
    intro d e hd he hlt
    obtain ⟨x, opt, rfl⟩ := h.strings.strings d hd
    obtain ⟨y, opt', rfl⟩ := h.strings.strings e he
    rw [Bool.eq_false_iff, Ne, Constraint.eqv_str_iff]
    exact ne_of_lt hlt
  · intro d hd e he
    exact h.strings.eqv_other (h.rest.rest e he).2 d hd

theorem Sound.wf {a : String} {ix : ConstraintIndex} (h : Sound a ix)
    (hrefl : ∀ d ∈ keys ix.items, d.eqv d = true) : Buckets.Wf ix.items := by
  refine ⟨h.items_apart.imp_of_mem ?_, h.filled.nonempty, h.filled.members_nodup⟩
  rintro d e hd - hapart rfl
  rw [hrefl d hd] at hapart
  exact absurd hapart (by simp)

theorem Inserted.toInsert (h : Inserted l c sub opt l' e) (hc : c.eqv c = true)
    (hnot : ∀ d b, d.eqv c = true → ¬ Buckets.Filed l d sub b) : Buckets.Insert l sub opt e l' := by
  cases h with
  | found l₁ l₂ e ms hl he hfirst =>
    have hs : sub ∉ ms.map Prod.fst := by
      intro hmem
      obtain ⟨⟨s, b⟩, hm, rfl⟩ := List.mem_map.mp hmem
      exact hnot e b he ⟨ms, by rw [hl]; simp, hm⟩
    have hadd : addPair sub opt ms = ms ++ [(sub, opt)] := by
      unfold addPair
      rw [if_neg (by rwa [any_fst_iff])]
    rw [hadd]
    exact .join l₁ l₂ ms hl hs
  | new l₁ l₂ hl hnone hend =>
    refine .fresh l₁ l₂ hl ?_
    intro hmem
    have := hnone _ hmem
    rw [hc] at this
    exact absurd this (by simp)

theorem Removed.toRemove_of_eqv (h : Removed l c sub l') (he : e.eqv c = true)
    (hapart : (keys l).Pairwise fun d d' => d.eqv d' = false)
    (hanswers : ∀ d ∈ keys l, d.eqv c = true → d.eqv e = true) {b : Bool}
    (hf : Buckets.Filed l e sub b) :
    Buckets.Remove l sub e l' := by
  obtain ⟨ms, hmem, hsub⟩ := hf
  cases h with
  | found l₁ l₂ item hl hitem hfirst =>
    subst hl
    -- The first item that answers to `c` is the one of `e`.
    have hitem : item = (e, ms) := by
      rcases List.mem_append.mp hmem with hmem | hmem
      · have := hfirst _ (mem_keys hmem)
        rw [he] at this
        exact absurd this (by simp)
      · rcases List.mem_cons.mp hmem with rfl | hmem
        · rfl
        · have hall := hanswers item.1 (mem_keys (List.mem_append_right _ List.mem_cons_self)) hitem
          simp only [keys, List.map_append, List.map_cons, List.pairwise_append, List.pairwise_cons]
            at hapart
          have := hapart.2.1.1 e (mem_keys hmem)
          rw [hall] at this
          exact absurd this (by simp)
    subst hitem
    unfold removePair
    split
    · rename_i hlen
      obtain ⟨m, rfl⟩ := List.length_eq_one_iff.mp hlen
      obtain rfl := List.mem_singleton.mp hsub
      exact .last l₁ l₂ b rfl
    · rename_i hlen
      exact .leave l₁ l₂ ms rfl (List.mem_map.mpr ⟨_, hsub, rfl⟩) hlen
  | absent hnone =>
    have := hnone e (mem_keys hmem)
    rw [he] at this
    exact absurd this (by simp)

theorem Removed.toRemove (h : Removed l c sub l') (hc : c.eqv c = true)
    (hapart : (keys l).Pairwise fun d e => d.eqv e = false) {b : Bool}
    (hf : Buckets.Filed l c sub b) : Buckets.Remove l sub c l' :=
  h.toRemove_of_eqv hc hapart (fun _ _ hd => hd) hf

theorem Inserted.stored (h : Inserted l c sub opt l' e) (hc : c.eqv c = true) :
    e.eqv c = true ∧ (e = c ∨ e ∈ keys l) := by
  cases h with
  | found l₁ l₂ e ms hl he hfirst =>
    exact ⟨he, Or.inr (by rw [hl]; simp [keys])⟩
  | new l₁ l₂ hl hnone hend => exact ⟨hc, Or.inl rfl⟩

/-! ## The check -/

theorem SoundStrings.accepts_iff {a : String} (h : SoundStrings a l) {d : Constraint}
    (hd : d ∈ keys l) (x : String) : d.accepts (.str x) = true ↔ d.operandStr = x := by
  obtain ⟨y, opt, rfl⟩ := h.strings d hd
  simp only [Constraint.accepts, Constraint.acceptsStr, Constraint.matchStr, Constraint.matchWith,
    Constraint.operandStr, beq_iff_eq]
  exact eq_comm

theorem sortedHits_str {a : String} (h : SoundStrings a l) (x : String) :
    sortedHits l (.str x) = Buckets.members (fun d => d.accepts (.str x)) l := by
  have hsplit := List.takeWhile_append_dropWhile (p := below x) (l := l)
  have hno : ∀ d ∈ keys l, d.operandStr ≠ x → d.accepts (.str x) = false := by
    intro d hd hne
    rw [Bool.eq_false_iff, Ne, h.accepts_iff hd]
    exact hne
  have hc : (Constraint.str a x .EQ false).stringEqual? = some x := rfl
  rcases lowerBound_spec h hc rfl with ⟨item, rest, hd, hx, -, hfirst⟩ | ⟨hx, hnone, -⟩
  · have hl : l = l.takeWhile (below x) ++ item :: rest := by rw [← hd, hsplit]
    have hin : ∀ i ∈ l.takeWhile (below x) ++ item :: rest, i.1 ∈ keys l := by
      rw [← hl]
      exact fun i hi => mem_keys hi
    have hbefore : Buckets.members (fun d => d.accepts (.str x)) (l.takeWhile (below x)) = [] := by
      apply Buckets.members_eq_nil
      intro d hdk
      obtain ⟨i, hi, rfl⟩ := List.mem_map.mp hdk
      refine hno _ (hin i (List.mem_append_left _ hi)) ?_
      exact ne_of_lt (Sorted.lt_of_mem_takeWhile (k := fun i : ConstraintItem => i.1.operandStr) hi)
    have hafter : Buckets.members (fun d => d.accepts (.str x)) rest = [] := by
      apply Buckets.members_eq_nil
      intro d hdk
      obtain ⟨i, hi, rfl⟩ := List.mem_map.mp hdk
      refine hno _ (hin i (List.mem_append_right _ (List.mem_cons_of_mem _ hi))) ?_
      have hsort := h.items_sorted
      rw [hl, List.pairwise_append, List.pairwise_cons] at hsort
      rw [← hx]
      exact ne_of_gt (hsort.2.1.1 i hi)
    have hitem : item.1.accepts (.str x) = true :=
      (h.accepts_iff (hin item (by simp)) x).mpr hx
    have hhits : sortedHits l (.str x) = item.2 := by
      simp only [sortedHits, hd]
      exact if_pos hx
    rw [hhits, hl, Buckets.members_append, hbefore, ← List.singleton_append, Buckets.members_append,
      hafter]
    simp [Buckets.members, hitem]
  · have hhits : sortedHits l (.str x) = [] := by
      simp only [sortedHits]
      split
      · rfl
      · rename_i item rest hd
        exact if_neg (hx item rest hd)
    rw [hhits, Buckets.members_eq_nil]
    intro d hd
    refine hno d hd fun hdx => ?_
    have heq := (h.eqv_iff hc rfl hd).mpr hdx
    rw [hnone d hd] at heq
    exact absurd heq (by simp)

theorem sortedHits_eq {a : String} (h : SoundStrings a l) (v : Variant) :
    sortedHits l v = Buckets.members (fun d => d.accepts v) l := by
  cases v with
  | str x => exact sortedHits_str h x
  | int | float | bin | map =>
    rw [Buckets.members_eq_nil]
    · rfl
    · intro d hd
      obtain ⟨y, opt, rfl⟩ := h.strings d hd
      rfl

/-- `check` counts every pair of every item that accepts the value. -/
theorem check_eq {a : String} {ix : ConstraintIndex} (h : Sound a ix) (v : Variant)
    (counter : Counter) :
    ix.check v counter = (Buckets.members (fun d => d.accepts v) ix.items).foldl Counter.bump
      counter := by
  unfold check items
  rw [sortedHits_eq h.strings, Buckets.members_append, List.foldl_append]
  exact Buckets.foldl_members (fun d => d.accepts v) Counter.bump ix.index _

end ConstraintIndex

theorem Counter.counted_foldl_bump (c : Counter) (hits : List (Nat × Bool)) (sub : Nat) :
    Counter.counted (hits.foldl Counter.bump c) sub =
      ⟨(c.counted sub).required + hits.count (sub, false), (c.counted sub).optional +
        hits.count (sub, true)⟩ := by
  induction hits using List.reverseRecOn with
  | nil => rfl
  | append_singleton hits hit ih =>
    obtain ⟨sub', b⟩ := hit
    rw [List.foldl_append, List.foldl_cons, List.foldl_nil]
    generalize hits.foldl Counter.bump c = c' at ih
    unfold Counter.counted Counter.bump at *
    dsimp only
    rw [Assoc.find_put]
    by_cases hs : sub' = sub
    · subst hs
      rw [if_pos rfl, ih]
      cases b <;> simp [Nat.add_assoc]
    · have hcount : ∀ b', (hits ++ [(sub', b)]).count (sub, b') = hits.count (sub, b') := by
        intro b'
        rw [List.count_append, List.count_cons_of_ne (by simp [hs]), List.count_nil, Nat.add_zero]
      rw [if_neg hs, ih, hcount, hcount]

end UActor
