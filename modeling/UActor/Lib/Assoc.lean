import Mathlib.Data.List.Basic
import Mathlib.Data.List.Induction
import Mathlib.Data.List.Nodup

/-!
# Association lists

The finite maps of the development. A list of pairs stands for a map, in the order in which
an iteration visits it.
-/

namespace Assoc

variable {κ ν : Type} [DecidableEq κ]

def find (k : κ) : List (κ × ν) → Option ν
  | [] => none
  | (k', v) :: m => if k' = k then some v else find k m

/-- Replaces the value in place, or appends a new entry. -/
def put (k : κ) (v : ν) : List (κ × ν) → List (κ × ν)
  | [] => [(k, v)]
  | (k', v') :: m => if k' = k then (k, v) :: m else (k', v') :: put k v m

def erase (k : κ) (m : List (κ × ν)) : List (κ × ν) := m.filter fun e => e.1 ≠ k

def keys (m : List (κ × ν)) : List κ := m.map Prod.fst

@[simp] theorem find_nil (k : κ) : find k ([] : List (κ × ν)) = none := rfl

@[simp] theorem find_put_self (k : κ) (v : ν) (m : List (κ × ν)) : find k (put k v m) = some v := by
  induction m with
  | nil => simp [put, find]
  | cons e m ih =>
    simp only [put]
    split
    · simp [find]
    · rename_i h
      simp [find, h, ih]

theorem find_put_ne {k k' : κ} (h : k' ≠ k) (v : ν) (m : List (κ × ν)) :
    find k (put k' v m) = find k m := by
  induction m with
  | nil => simp [put, find, h]
  | cons e m ih =>
    simp only [put]
    split
    · rename_i he
      have hek : e.1 ≠ k := fun hk => h (he ▸ hk)
      simp [find, h, hek]
    · simp [find, ih]

theorem find_put (k k' : κ) (v : ν) (m : List (κ × ν)) :
    find k (put k' v m) = if k' = k then some v else find k m := by
  split
  · rename_i h; rw [h, find_put_self]
  · rename_i h; rw [find_put_ne h]

theorem find_erase (k k' : κ) (m : List (κ × ν)) :
    find k (erase k' m) = if k' = k then none else find k m := by
  induction m with
  | nil => simp [erase]
  | cons e m ih =>
    simp only [erase] at ih ⊢
    by_cases hek : e.1 = k'
    · rw [List.filter_cons_of_neg (by simp [hek]), ih]
      split
      · rfl
      · rename_i h; simp [find, hek, h]
    · rw [List.filter_cons_of_pos (by simp [hek])]
      simp only [find, ih]
      split
      · rename_i h
        rw [if_neg fun hk => hek (h.trans hk.symm)]
      · rfl

theorem find_append (k : κ) (m m' : List (κ × ν)) :
    find k (m ++ m') = (find k m).or (find k m') := by
  induction m with
  | nil => rfl
  | cons e m ih =>
    simp only [List.cons_append, find]
    split
    · rfl
    · exact ih

theorem mem_of_find {k : κ} {v : ν} {m : List (κ × ν)} (h : find k m = some v) : (k, v) ∈ m := by
  induction m with
  | nil => simp at h
  | cons e m ih =>
    simp only [find] at h
    split at h
    · rename_i he
      obtain rfl : e.2 = v := by simpa using h
      exact List.mem_cons.mpr (Or.inl (by rw [← he]))
    · exact List.mem_cons_of_mem _ (ih h)

theorem put_of_find {k : κ} {v : ν} {m : List (κ × ν)} (h : find k m = some v) : put k v m = m := by
  induction m with
  | nil => simp [find] at h
  | cons e m ih =>
    unfold find at h
    unfold put
    split at h
    · rename_i heq
      rw [if_pos heq, ← Option.some.inj h, ← heq]
    · rename_i hne
      rw [if_neg hne, ih h]

theorem mem_put {k : κ} {v : ν} {m : List (κ × ν)} {e : κ × ν} (h : e ∈ put k v m) :
    e ∈ m ∨ e = (k, v) := by
  induction m with
  | nil => exact Or.inr (by simpa [put] using h)
  | cons e' m ih =>
    simp only [put] at h
    split at h
    · rcases List.mem_cons.mp h with rfl | h
      · exact Or.inr rfl
      · exact Or.inl (List.mem_cons_of_mem _ h)
    · rcases List.mem_cons.mp h with rfl | h
      · exact Or.inl List.mem_cons_self
      · rcases ih h with h | h
        · exact Or.inl (List.mem_cons_of_mem _ h)
        · exact Or.inr h

theorem find_of_mem {k : κ} {v : ν} {m : List (κ × ν)} (hm : (keys m).Nodup) (h : (k, v) ∈ m) :
    find k m = some v := by
  induction m with
  | nil => simp at h
  | cons e m ih =>
    simp only [keys, List.map_cons, List.nodup_cons] at hm
    rcases List.mem_cons.mp h with rfl | h
    · simp [find]
    · have hne : e.1 ≠ k := fun he => hm.1 (List.mem_map.mpr ⟨(k, v), h, he.symm⟩)
      simpa [find, hne] using ih hm.2 h

theorem find_eq_none {k : κ} {m : List (κ × ν)} : find k m = none ↔ k ∉ keys m := by
  induction m with
  | nil => simp [keys]
  | cons e m ih =>
    simp only [find, keys, List.map_cons, List.mem_cons, not_or] at ih ⊢
    by_cases he : e.1 = k
    · simp [he]
    · simp [he, ih, Ne.symm he]

theorem find_filter {m : List (κ × ν)} (hm : (keys m).Nodup) (p : κ × ν → Bool) (k : κ) :
    find k (m.filter p) = (find k m).filter fun v => p (k, v) := by
  induction m with
  | nil => rfl
  | cons e m ih =>
    obtain ⟨k', v⟩ := e
    simp only [keys, List.map_cons, List.nodup_cons] at hm
    have ih := ih hm.2
    rw [List.filter_cons]
    by_cases hk : k' = k
    · subst hk
      have habsent : find k' m = none := find_eq_none.mpr hm.1
      rw [habsent] at ih
      by_cases hp : p (k', v) = true
      · simp [find, Option.filter_some, hp]
      · simp [find, Option.filter_some, hp, ih]
    · by_cases hp : p (k', v) = true
      · simp [find, hp, hk, ih]
      · simp [find, hp, hk, ih]

theorem keys_put (k : κ) (v : ν) (m : List (κ × ν)) :
    keys (put k v m) = if k ∈ keys m then keys m else keys m ++ [k] := by
  induction m with
  | nil => simp [keys, put]
  | cons e m ih =>
    simp only [put, keys, List.map_cons, List.mem_cons] at ih ⊢
    by_cases he : e.1 = k
    · simp [he]
    · simp only [he, if_false, Ne.symm he, false_or, List.map_cons, ih]
      by_cases hk : k ∈ m.map Prod.fst <;> simp [hk]

theorem put_of_absent {k : κ} {m : List (κ × ν)} (h : k ∉ keys m) (v : ν) :
    put k v m = m ++ [(k, v)] := by
  induction m with
  | nil => rfl
  | cons e m ih =>
    simp only [keys, List.map_cons, List.mem_cons, not_or] at h ih
    simp only [put, if_neg (Ne.symm h.1), ih h.2, List.cons_append]

theorem keys_put_nodup {m : List (κ × ν)} (hm : (keys m).Nodup) (k : κ) (v : ν) :
    (keys (put k v m)).Nodup := by
  rw [keys_put]
  split
  · exact hm
  · rename_i h
    refine List.nodup_append.mpr ⟨hm, by simp, ?_⟩
    intro a ha b hb hab
    obtain rfl : b = k := by simpa using hb
    exact h (hab ▸ ha)

theorem keys_erase_nodup {m : List (κ × ν)} (hm : (keys m).Nodup) (k : κ) :
    (keys (erase k m)).Nodup :=
  hm.sublist (List.filter_sublist.map _)

theorem map_put {ρ : Type} (k : κ) (v : ν) (g : ν → ρ) (m : List (κ × ν)) :
    (put k v m).map (fun e => (e.1, g e.2)) = put k (g v) (m.map fun e => (e.1, g e.2)) := by
  induction m with
  | nil => rfl
  | cons e m ih =>
    by_cases he : e.1 = k
    · simp [put, he]
    · simp [put, he, ih]

theorem find_map_keyed {ρ : Type} (k : κ) (g : κ → ν → ρ) (m : List (κ × ν)) :
    find k (m.map fun e => (e.1, g e.1 e.2)) = (find k m).map (g k) := by
  induction m with
  | nil => rfl
  | cons e m ih =>
    simp only [List.map_cons, find, ih]
    split
    · rename_i heq
      rw [heq, Option.map_some]
    · rfl

theorem find_map {ρ : Type} (k : κ) (g : ν → ρ) (m : List (κ × ν)) :
    find k (m.map fun e => (e.1, g e.2)) = (find k m).map g :=
  find_map_keyed k (fun _ => g) m

theorem mem_keys_iff {k : κ} {m : List (κ × ν)} : k ∈ keys m ↔ ∃ v, find k m = some v := by
  rw [← Option.ne_none_iff_exists', ne_eq, find_eq_none, not_not]

theorem put_put (k : κ) (v v' : ν) (m : List (κ × ν)) : put k v (put k v' m) = put k v m := by
  induction m with
  | nil => simp [put]
  | cons e m ih =>
    by_cases heq : e.1 = k
    · simp [put, heq]
    · simp [put, heq, ih]

theorem map_put_of_find {ρ : Type} {k : κ} {v v' : ν} {m : List (κ × ν)} (g : κ × ν → ρ)
    (hk : find k m = some v) (hg : g (k, v') = g (k, v)) : (put k v' m).map g = m.map g := by
  induction m with
  | nil => simp [find] at hk
  | cons e m ih =>
    unfold find at hk
    unfold put
    split at hk
    · rename_i heq
      rw [if_pos heq, List.map_cons, List.map_cons, hg, ← heq, ← Option.some.inj hk]
    · rename_i hne
      rw [if_neg hne, List.map_cons, List.map_cons, ih hk]

theorem length_erase_lt {k : κ} {v : ν} {m : List (κ × ν)} (h : find k m = some v) :
    (erase k m).length < m.length := by
  refine List.length_filter_lt_length_iff_exists.mpr ⟨(k, v), mem_of_find h, by simp⟩

theorem countP_put {k : κ} {v : ν} {m : List (κ × ν)} (p : κ × ν → Bool) (h : find k m = some v)
    (v' : ν) :
    (put k v' m).countP p + (p (k, v)).toNat = m.countP p + (p (k, v')).toNat := by
  induction m with
  | nil => simp [find] at h
  | cons e m ih =>
    obtain ⟨k', w⟩ := e
    unfold find at h
    unfold put
    split at h
    · rename_i heq
      obtain rfl : k' = k := heq
      obtain rfl : w = v := Option.some.inj h
      rw [if_pos rfl, List.countP_cons, List.countP_cons]
      cases p (k', w) <;> cases p (k', v') <;> simp
    · rename_i hne
      rw [if_neg hne, List.countP_cons, List.countP_cons]
      have hrest := ih h
      omega

theorem countP_erase {k : κ} {v : ν} {m : List (κ × ν)} (p : κ × ν → Bool) (hm : (keys m).Nodup)
    (h : find k m = some v) : (erase k m).countP p + (p (k, v)).toNat = m.countP p := by
  induction m with
  | nil => simp [find] at h
  | cons e m ih =>
    obtain ⟨k', w⟩ := e
    unfold keys at hm ih
    rw [List.map_cons, List.nodup_cons] at hm
    unfold find at h
    unfold erase at ih ⊢
    split at h
    · rename_i heq
      obtain rfl : k' = k := heq
      obtain rfl : w = v := Option.some.inj h
      rw [List.filter_cons_of_neg (by simp), List.countP_cons]
      have hrest : m.filter (fun e => decide (e.1 ≠ k')) = m := by
        refine List.filter_eq_self.mpr fun e he => ?_
        have hne : e.1 ≠ k' := fun heq => hm.1 (List.mem_map.mpr ⟨e, he, heq⟩)
        simpa using hne
      rw [hrest]
      cases p (k', w) <;> simp
    · rename_i hne
      have hne : k' ≠ k := hne
      rw [List.filter_cons_of_pos (by simpa using hne), List.countP_cons, List.countP_cons]
      have hrest := ih hm.2 h
      omega

/-! ## Numbered entries -/

theorem toString_injective {i j : Nat} (h : toString i = toString j) : i = j := by
  have hdigits : Nat.toDigits 10 i = Nat.toDigits 10 j := by
    rw [← Nat.toList_repr, ← Nat.toList_repr]
    exact congrArg String.toList h
  rw [← Nat.ofDigitChars_ten_toDigits (n := i), hdigits, Nat.ofDigitChars_ten_toDigits]

/-- The values of a list under the numbers from `i` on. -/
def numbered : Nat → List ν → List (String × ν)
  | _, [] => []
  | i, v :: vs => (toString i, v) :: numbered (i + 1) vs

@[simp] theorem length_numbered (i : Nat) (vs : List ν) : (numbered i vs).length = vs.length := by
  induction vs generalizing i with
  | nil => rfl
  | cons v vs ih => simp only [numbered, List.length_cons, ih]

theorem find_numbered (i n : Nat) (vs : List ν) :
    find (toString (i + n)) (numbered i vs) = vs[n]? := by
  induction vs generalizing i n with
  | nil => rfl
  | cons v vs ih =>
    cases n with
    | zero => simp [numbered, find]
    | succ n =>
      have hne : toString i ≠ toString (i + (n + 1)) := fun h => by
        have := toString_injective h
        omega
      rw [numbered, find, if_neg hne, List.getElem?_cons_succ, ← ih (i + 1) n]
      congr 2
      omega

theorem put_numbered (i : Nat) (vs : List ν) (v : ν) :
    put (toString (i + vs.length)) v (numbered i vs) = numbered i (vs ++ [v]) := by
  induction vs generalizing i with
  | nil => rfl
  | cons w vs ih =>
    have hne : toString i ≠ toString (i + (w :: vs).length) := fun h => by
      have := toString_injective h
      simp only [List.length_cons] at this
      omega
    rw [numbered, put, if_neg hne, List.cons_append, numbered, ← ih (i + 1)]
    congr 3
    simp only [List.length_cons]
    omega

theorem eq_numbered {m : List (String × ν)} {i : Nat}
    (h : keys m = (List.range' i m.length).map toString) :
    m = numbered i (m.map Prod.snd) := by
  induction m generalizing i with
  | nil => rfl
  | cons e m ih =>
    rw [List.length_cons, List.range'_succ, List.map_cons] at h
    obtain ⟨hhead, htail⟩ := List.cons.inj h
    have hrest := ih htail
    rw [List.map_cons, numbered, ← hrest, ← hhead]

theorem filterMap_numbered {β : Type} (vs : List ν) (f : ν → Option β) :
    (List.range vs.length).filterMap (fun i => (find (toString i) (numbered 0 vs)).bind f) =
      vs.filterMap f := by
  have hfind : ∀ i : Nat, find (toString i) (numbered 0 vs) = vs[i]? := by
    intro i
    have := find_numbered 0 i vs
    rwa [Nat.zero_add] at this
  simp only [hfind]
  clear hfind
  induction vs using List.reverseRecOn with
  | nil => rfl
  | append_singleton vs v ih =>
    have hinit : (List.range vs.length).filterMap (fun i => (vs ++ [v])[i]?.bind f) =
        vs.filterMap f := by
      rw [← ih]
      apply List.filterMap_congr
      intro i hi
      rw [List.getElem?_append_left (List.mem_range.mp hi)]
    rw [List.length_append, List.length_singleton, List.range_succ, List.filterMap_append,
      List.filterMap_append, hinit]
    simp [List.filterMap_cons]
/-! ## Grouping by key -/

theorem groups_perm {α : Type} (key : α → κ) (ks : List κ) (hks : ks.Nodup) (as : List α) :
    (as.filter fun a => decide (key a ∈ ks)).Perm (ks.flatMap fun k => as.filter fun a =>
      decide (key a = k)) := by
  induction ks with
  | nil => simp
  | cons k ks ih =>
    obtain ⟨hk, hks⟩ := List.nodup_cons.mp hks
    have hsplit := List.filter_append_perm (fun a => decide (key a = k)) (as.filter fun a =>
      decide (key a ∈ k :: ks))
    have hfst : ((as.filter fun a => decide (key a ∈ k :: ks)).filter fun a => decide (key a = k)) =
        as.filter fun a => decide (key a = k) := by
      rw [List.filter_filter]
      refine List.filter_congr fun a _ => ?_
      by_cases ha : key a = k <;> simp [ha]
    have hsnd : ((as.filter fun a => decide (key a ∈ k :: ks)).filter fun a =>
        !decide (key a = k)) =
        as.filter fun a => decide (key a ∈ ks) := by
      rw [List.filter_filter]
      refine List.filter_congr fun a _ => ?_
      by_cases ha : key a = k
      · simp [ha, hk]
      · simp [ha]
    rw [hfst, hsnd] at hsplit
    rw [List.flatMap_cons]
    exact hsplit.symm.trans ((ih hks).append_left _)

end Assoc
