import UActor.Lib.Assoc
import Mathlib.Data.List.Induction

/-!
# Watermarks

A table keeps, for each key, the last value that passed. A value passes if it is newer than the
last one of its key, or the first.
-/

namespace Watermark

variable {κ β : Type} [DecidableEq κ]

def offer (newer : β → β → Bool) (m : List (κ × β)) (k : κ) (v : β) : List (κ × β) × Bool :=
  match Assoc.find k m with
  | none => (Assoc.put k v m, true)
  | some w => if newer w v then (Assoc.put k v m, true) else (m, false)

/-- The values `l` passed for the key, each of them newer than all before. -/
structure Passed (newer : β → β → Bool) (m : List (κ × β)) (k : κ) (l : List β) : Prop where
  increasing : l.Pairwise fun v w => newer v w = true
  last : Assoc.find k m = l.getLast?

variable {newer : β → β → Bool} {m : List (κ × β)} {k : κ} {l : List β}

theorem passed_nil (newer : β → β → Bool) (k : κ) : Passed newer ([] : List (κ × β)) k [] :=
  ⟨List.Pairwise.nil, rfl⟩

theorem offer_snd (newer : β → β → Bool) (m : List (κ × β)) (k : κ) (v : β) :
    (offer newer m k v).2 = ((Assoc.find k m).all fun w => newer w v) := by
  unfold offer
  split
  · rename_i h
    rw [h]
    rfl
  · rename_i w h
    rw [h, Option.all_some]
    split
    · rename_i hn
      exact hn.symm
    · rename_i hn
      simpa using hn

theorem find_offer (newer : β → β → Bool) (m : List (κ × β)) (k k' : κ) (v : β) :
    Assoc.find k (offer newer m k' v).1 =
      if k' = k ∧ (offer newer m k' v).2 = true then some v else Assoc.find k m := by
  unfold offer
  split
  · simp [Assoc.find_put]
  · split
    · simp [Assoc.find_put]
    · simp

theorem Passed.newer_of_last (h : Passed newer m k l)
    (htrans : ∀ u v w, newer u v = true → newer v w = true → newer u w = true)
    {v : β} (hv : ∀ w, Assoc.find k m = some w → newer w v = true) : ∀ u ∈ l, newer u v = true := by
  intro u hu
  induction l using List.reverseRecOn with
  | nil => simp at hu
  | append_singleton l w _ =>
    have hlast : Assoc.find k m = some w := by rw [h.last]; simp
    rcases List.mem_append.mp hu with hu | hu
    · have huw := (List.pairwise_append.mp h.increasing).2.2 u hu w (by simp)
      exact htrans u w v huw (hv w hlast)
    · rw [List.mem_singleton] at hu
      rw [hu]
      exact hv w hlast

theorem Passed.offer (h : Passed newer m k l)
    (htrans : ∀ u v w, newer u v = true → newer v w = true → newer u w = true) (k' : κ) (v : β) :
    Passed newer (offer newer m k' v).1 k
      (if k' = k ∧ (Watermark.offer newer m k' v).2 = true then l ++ [v] else l) := by
  have hfind := find_offer newer m k k' v
  split at hfind
  · rename_i hk
    rw [if_pos hk]
    obtain ⟨rfl, hpass⟩ := hk
    rw [offer_snd, Option.all_eq_true] at hpass
    refine ⟨?_, by rw [hfind]; simp⟩
    refine List.pairwise_append.mpr ⟨h.increasing, List.pairwise_singleton _ _, ?_⟩
    intro u hu w hw
    rw [List.mem_singleton] at hw
    rw [hw]
    exact h.newer_of_last htrans (fun w hw => by simpa using hpass w hw) u hu
  · rename_i hk
    rw [if_neg hk]
    exact ⟨h.increasing, hfind.trans h.last⟩

/-! ## What was offered -/

/-- The table has the newest of the values `l` that were offered for the key, whether they passed or
not. -/
structure Newest (newer : β → β → Bool) (m : List (κ × β)) (k : κ) (l : List β) : Prop where
  none : Assoc.find k m = none → l = []
  some : ∀ w, Assoc.find k m = some w → w ∈ l ∧ ∀ v ∈ l, newer w v = false

theorem newest_nil (newer : β → β → Bool) (k : κ) : Newest newer ([] : List (κ × β)) k [] :=
  ⟨fun _ => rfl, fun _ h => absurd h (by simp)⟩

/-- `newer` orders the values, up to ties. -/
structure Weak (newer : β → β → Bool) : Prop where
  irrefl : ∀ v, newer v v = false
  trans : ∀ u v w, newer u v = true → newer v w = true → newer u w = true
  between : ∀ u v w, newer u w = true → newer u v = true ∨ newer v w = true

/-- A value passes exactly if it is newer than all that were offered before. -/
theorem Newest.passes_iff (h : Newest newer m k l) (hweak : Weak newer) (v : β) :
    (Watermark.offer newer m k v).2 = true ↔ ∀ u ∈ l, newer u v = true := by
  rw [offer_snd, Option.all_eq_true]
  constructor
  · intro hpass u hu
    cases hfind : Assoc.find k m with
    | none =>
      rw [h.none hfind] at hu
      exact absurd hu List.not_mem_nil
    | some w =>
      rcases hweak.between w u v (hpass w hfind) with hwu | huv
      · rw [(h.some w hfind).2 u hu] at hwu
        exact absurd hwu (by simp)
      · exact huv
  · intro hall w hw
    exact hall w (h.some w hw).1

theorem Newest.offer (h : Newest newer m k l) (hweak : Weak newer) (v : β) :
    Newest newer (Watermark.offer newer m k v).1 k (l ++ [v]) := by
  have hfind := find_offer newer m k k v
  have hpasses := h.passes_iff hweak v
  by_cases hpass : (Watermark.offer newer m k v).2 = true
  · rw [if_pos ⟨rfl, hpass⟩] at hfind
    refine ⟨fun hnone => absurd (hfind.symm.trans hnone) (by simp), ?_⟩
    intro w hw
    obtain rfl := Option.some.inj (hfind.symm.trans hw)
    refine ⟨by simp, ?_⟩
    intro u hu
    rw [Bool.eq_false_iff]
    intro hvu
    rcases List.mem_append.mp hu with hu | hu
    · have hloop := hweak.trans _ _ _ (hpasses.mp hpass u hu) hvu
      rw [hweak.irrefl] at hloop
      exact absurd hloop (by simp)
    · rw [List.mem_singleton.mp hu, hweak.irrefl] at hvu
      exact absurd hvu (by simp)
  · rw [if_neg fun hk => hpass hk.2] at hfind
    rw [offer_snd, Option.all_eq_true] at hpass
    cases hw : Assoc.find k m with
    | none => exact absurd (fun w hw' => absurd (hw.symm.trans hw') (by simp)) hpass
    | some w =>
      obtain ⟨hmem, hnewest⟩ := h.some w hw
      refine ⟨fun hnone => absurd (hfind.symm.trans hnone) (by simp [hw]), ?_⟩
      intro w' hw'
      obtain rfl : w = w' := Option.some.inj (hw.symm.trans (hfind.symm.trans hw'))
      refine ⟨List.mem_append_left _ hmem, ?_⟩
      intro u hu
      rcases List.mem_append.mp hu with hu | hu
      · exact hnewest u hu
      · rw [List.mem_singleton.mp hu, Bool.eq_false_iff]
        intro hnewer
        apply hpass
        intro w' hw'
        rw [← Option.some.inj (hw.symm.trans hw')]
        exact hnewer

theorem Newest.congr {m' : List (κ × β)} (h : Newest newer m k l)
    (hfind : Assoc.find k m' = Assoc.find k m) :
    Newest newer m' k l :=
  ⟨fun hnone => h.none (hfind.symm.trans hnone), fun w hw => h.some w (hfind.symm.trans hw)⟩

/-! ## Room -/

/-- How many of the values, each of them with its key, would still pass. -/
def room (newer : β → β → Bool) (m : List (κ × β)) (values : List (κ × β)) : Nat :=
  values.countP fun e => (offer newer m e.1 e.2).2

theorem offer_of_not_pass {v : β} (h : (offer newer m k v).2 = false) :
    (offer newer m k v).1 = m := by
  unfold offer at h ⊢
  split at h
  · simp at h
  · split at h
    · simp at h
    · rename_i hnewer
      rw [if_neg hnewer]

theorem passes_of_passes (htrans : ∀ u v w, newer u v = true → newer v w = true → newer u w = true)
    {k' : κ} {u v : β} (h : (offer newer (offer newer m k v).1 k' u).2 = true) :
    (offer newer m k' u).2 = true := by
  rw [offer_snd, find_offer, Option.all_eq_true] at h
  rw [offer_snd, Option.all_eq_true]
  intro w hw
  split at h
  · rename_i hk
    obtain ⟨rfl, hpass⟩ := hk
    rw [offer_snd, Option.all_eq_true] at hpass
    exact htrans w v u (hpass w hw) (h v rfl)
  · exact h w hw

theorem room_offer_le (htrans : ∀ u v w, newer u v = true → newer v w = true → newer u w = true)
    (k : κ) (v : β) (values : List (κ × β)) :
    room newer (offer newer m k v).1 values ≤ room newer m values :=
  List.countP_mono_left fun _ _ h => passes_of_passes htrans h

theorem room_offer_lt (hweak : Weak newer) {v v₀ : β} {values : List (κ × β)}
    (hmem : (k, v₀) ∈ values) (halike : ∀ w, newer w v = newer w v₀ ∧ newer v w = newer v₀ w)
    (hpass : (offer newer m k v).2 = true) :
    room newer (offer newer m k v).1 values < room newer m values := by
  obtain ⟨before, after, rfl⟩ := List.append_of_mem hmem
  have hle := room_offer_le (m := m) hweak.trans k v
  have hold : (offer newer m k v₀).2 = true := by
    rw [offer_snd] at hpass ⊢
    simpa only [halike] using hpass
  have hnew : (offer newer (offer newer m k v).1 k v₀).2 = false := by
    rw [offer_snd, find_offer, if_pos ⟨rfl, hpass⟩, Option.all_some, (halike v₀).2]
    exact hweak.irrefl v₀
  have hbefore := hle before
  have hafter := hle after
  unfold room at hbefore hafter ⊢
  rw [List.countP_append, List.countP_append, List.countP_cons, List.countP_cons, if_pos hold,
    if_neg (by simp [hnew])]
  omega

/-! ## One after the other -/

section

variable {α : Type} {stamp : α → β} {mark mark' : Option β} {a : α}

/-- Which of the items pass when they are offered one after the other, after `mark` passed last. -/
def passing (newer : β → β → Bool) (stamp : α → β) : Option β → List α → List α
  | _, [] => []
  | mark, a :: items =>
    if mark.all fun w => newer w (stamp a) then a :: passing newer stamp (some (stamp a)) items
    else passing newer stamp mark items

theorem passing_congr (h : ∀ v, (mark.all fun w => newer w v) = mark'.all fun w => newer w v)
    (items : List α) :
    passing newer stamp mark items = passing newer stamp mark' items := by
  induction items with
  | nil => rfl
  | cons b items ih =>
    unfold passing
    rw [h, ih]

theorem passing_replicate (hirrefl : ∀ v, newer v v = false) (count : Nat) :
    passing newer stamp (some (stamp a)) (List.replicate count a) = [] := by
  induction count with
  | zero => rfl
  | succ count ih =>
    rw [List.replicate_succ, passing, if_neg (by simp [hirrefl])]
    exact ih

/-- Of the copies of an item that is newer than all others, the first passes. -/
theorem passing_newest (hirrefl : ∀ v, newer v v = false) {items : List α}
    (hmark : ∀ w ∈ mark, newer w (stamp a) = true)
    (hitems : ∀ b ∈ items, newer (stamp b) (stamp a) = true) (count : Nat) :
    passing newer stamp mark (items ++ List.replicate count a) =
      passing newer stamp mark items ++ if count = 0 then [] else [a] := by
  induction items generalizing mark with
  | nil =>
    cases count with
    | zero => rfl
    | succ count =>
      have hpass : (mark.all fun w => newer w (stamp a)) = true :=
        (Option.all_eq_true _ _).mpr hmark
      rw [List.nil_append, List.replicate_succ, passing, passing, if_pos hpass,
        passing_replicate hirrefl]
      rfl
  | cons b items ih =>
    obtain ⟨hb, hitems⟩ := List.forall_mem_cons.mp hitems
    rw [List.cons_append, passing, passing]
    split
    · rw [ih (by simpa using hb) hitems, List.cons_append]
    · exact ih hmark hitems

end

end Watermark
