import UActor.Lib.Assoc

/-!
# Maps to sets

A map from keys to ordered sets that holds no empty set: a key whose last member leaves is erased.
-/

namespace Multimap

variable {κ ν : Type} [DecidableEq κ]

def members (k : κ) (m : List (κ × List ν)) : List ν := (Assoc.find k m).getD []

/-- No set is empty. -/
def Full (m : List (κ × List ν)) : Prop := ∀ e ∈ m, e.2 ≠ []

variable {m : List (κ × List ν)}

theorem Full.mem_keys (h : Full m) {k : κ} : k ∈ Assoc.keys m ↔ members k m ≠ [] := by
  unfold members
  cases hfind : Assoc.find k m with
  | none => simpa using Assoc.find_eq_none.mp hfind
  | some set =>
    have hk : k ∈ Assoc.keys m := by
      by_contra hk
      rw [Assoc.find_eq_none.mpr hk] at hfind
      simp at hfind
    exact iff_of_true hk (h _ (Assoc.mem_of_find hfind))

section Insert

variable [DecidableEq ν] [LT ν] [DecidableLT ν]

/-- Inserts into an ordered set. -/
def insertInto (v : ν) (set : List ν) : List ν :=
  if v ∈ set then set
  else set.takeWhile (fun x => decide (x < v)) ++ v :: set.dropWhile (fun x => decide (x < v))

def insert (k : κ) (v : ν) (m : List (κ × List ν)) : List (κ × List ν) :=
  Assoc.put k (insertInto v (members k m)) m

theorem mem_insertInto {v x : ν} {set : List ν} : x ∈ insertInto v set ↔ x = v ∨ x ∈ set := by
  unfold insertInto
  split
  · rename_i hv
    constructor
    · exact Or.inr
    · rintro (rfl | h)
      · exact hv
      · exact h
  · have hsplit := List.takeWhile_append_dropWhile (p := fun x => decide (x < v)) (l := set)
    have hmem : x ∈ set ↔ x ∈ set.takeWhile (fun x => decide (x < v)) ∨
      x ∈ set.dropWhile (fun x => decide (x < v)) := by
      rw [← List.mem_append, hsplit]
    rw [List.mem_append, List.mem_cons, hmem]
    tauto

theorem nodup_insertInto {v : ν} {set : List ν} (h : set.Nodup) : (insertInto v set).Nodup := by
  unfold insertInto
  split
  · exact h
  · rename_i hv
    rw [List.perm_middle.nodup_iff, List.takeWhile_append_dropWhile]
    exact List.nodup_cons.mpr ⟨hv, h⟩

@[simp] theorem insertInto_ne_nil (v : ν) (set : List ν) : insertInto v set ≠ [] :=
  List.ne_nil_of_mem (mem_insertInto.mpr (Or.inl rfl))

theorem members_insert (k : κ) (v : ν) (m : List (κ × List ν)) (k' : κ) :
    members k' (insert k v m) = if k = k' then insertInto v (members k m) else members k' m := by
  unfold insert members
  rw [Assoc.find_put]
  split <;> rfl

theorem mem_members_insert {k k' : κ} {v x : ν} :
    x ∈ members k' (insert k v m) ↔ (k = k' ∧ x = v) ∨ x ∈ members k' m := by
  rw [members_insert]
  split
  · rename_i h
    subst h
    rw [mem_insertInto]
    simp
  · rename_i h
    simp [h]

theorem nodup_insert (h : ∀ k, (members k m).Nodup) (k : κ) (v : ν) (k' : κ) :
    (members k' (insert k v m)).Nodup := by
  rw [members_insert]
  split
  · exact nodup_insertInto (h k)
  · exact h k'

theorem Full.insert (h : Full m) (k : κ) (v : ν) : Full (insert k v m) := by
  intro e he
  rcases Assoc.mem_put he with he | rfl
  · exact h e he
  · exact insertInto_ne_nil v _

theorem mem_members_insertAll (ks : List κ) (v : ν) (m : List (κ × List ν)) (k : κ) (x : ν) :
    x ∈ members k (ks.foldl (fun m k => insert k v m) m) ↔ (k ∈ ks ∧ x = v) ∨ x ∈ members k m := by
  induction ks generalizing m with
  | nil => simp
  | cons k' ks ih =>
    rw [List.foldl_cons, ih, mem_members_insert, List.mem_cons, eq_comm (a := k)]
    tauto

theorem Full.insertAll (h : Full m) (ks : List κ) (v : ν) :
    Full (ks.foldl (fun m k => Multimap.insert k v m) m) := by
  induction ks generalizing m with
  | nil => exact h
  | cons k ks ih => exact ih (h.insert k v)

end Insert

section Remove

variable [DecidableEq ν]

/-- Says also whether the set became empty. -/
def remove (k : κ) (v : ν) (m : List (κ × List ν)) : List (κ × List ν) × Bool :=
  match Assoc.find k m with
  | none => (m, false)
  | some set =>
    if set.filter (fun x => x ≠ v) = [] then (Assoc.erase k m, true)
    else (Assoc.put k (set.filter fun x => x ≠ v) m, false)

theorem members_remove (k : κ) (v : ν) (m : List (κ × List ν)) (k' : κ) :
    members k' (remove k v m).1 =
      if k = k' then (members k m).filter (fun x => x ≠ v) else members k' m := by
  unfold remove
  cases hfind : Assoc.find k m with
  | none =>
    by_cases hk : k = k'
    · subst hk
      simp [members, hfind]
    · rw [if_neg hk]
  | some set =>
    dsimp only
    by_cases hnil : set.filter (fun x => x ≠ v) = []
    · rw [if_pos hnil]
      unfold members
      rw [Assoc.find_erase, hfind, Option.getD_some, hnil]
      split <;> rfl
    · rw [if_neg hnil]
      unfold members
      rw [Assoc.find_put, hfind, Option.getD_some]
      split <;> rfl

theorem mem_members_remove {k k' : κ} {v x : ν} :
    x ∈ members k' (remove k v m).1 ↔ x ∈ members k' m ∧ ¬ (k = k' ∧ x = v) := by
  rw [members_remove]
  split
  · rename_i h
    subst h
    simp
  · rename_i h
    simp [h]

theorem nodup_remove (h : ∀ k, (members k m).Nodup) (k : κ) (v : ν) (k' : κ) :
    (members k' (remove k v m).1).Nodup := by
  rw [members_remove]
  split
  · exact (h k).filter _
  · exact h k'

theorem Full.remove (h : Full m) (k : κ) (v : ν) : Full (remove k v m).1 := by
  intro e he
  unfold Multimap.remove at he
  split at he
  · exact h e he
  · split at he
    · exact h e (List.mem_of_mem_filter he)
    · rename_i hne
      rcases Assoc.mem_put he with he | rfl
      · exact h e he
      · exact hne

theorem mem_members_removeAll (ks : List κ) (v : ν) (m : List (κ × List ν)) (k : κ) (x : ν) :
    x ∈ members k (ks.foldl (fun m k => (remove k v m).1) m) ↔ x ∈ members k m ∧
    ¬ (k ∈ ks ∧ x = v) := by
  induction ks generalizing m with
  | nil => simp
  | cons k' ks ih =>
    rw [List.foldl_cons, ih, mem_members_remove, List.mem_cons, eq_comm (a := k)]
    tauto

theorem Full.removeAll (h : Full m) (ks : List κ) (v : ν) :
    Full (ks.foldl (fun m k => (Multimap.remove k v m).1) m) := by
  induction ks generalizing m with
  | nil => exact h
  | cons k ks ih => exact ih (h.remove k v)

theorem remove_emptied {k : κ} {v : ν} :
    (remove k v m).2 = true ↔ k ∈ Assoc.keys m ∧ members k (remove k v m).1 = [] := by
  rw [members_remove, if_pos rfl]
  unfold remove members
  cases hfind : Assoc.find k m with
  | none => simp [Assoc.find_eq_none.mp hfind]
  | some set =>
    have hk : k ∈ Assoc.keys m := by
      by_contra hk
      rw [Assoc.find_eq_none.mpr hk] at hfind
      simp at hfind
    dsimp only
    split
    · rename_i hnil
      exact iff_of_true rfl ⟨hk, hnil⟩
    · rename_i hne
      exact iff_of_false Bool.false_ne_true fun hand => hne hand.2

theorem remove_eq_true (h : Full m) {k : κ} {v : ν} :
    (remove k v m).2 = true ↔ v ∈ members k m ∧ ∀ x ∈ members k m, x = v := by
  rw [remove_emptied, h.mem_keys]
  constructor
  · rintro ⟨hne, hnil⟩
    have hall : ∀ x ∈ members k m, x = v := by
      intro x hx
      by_contra hother
      have hmem : x ∈ members k (remove k v m).1 :=
        mem_members_remove.mpr ⟨hx, fun hand => hother hand.2⟩
      rw [hnil] at hmem
      simp at hmem
    obtain ⟨x, hx⟩ := List.exists_mem_of_ne_nil _ hne
    exact ⟨hall x hx ▸ hx, hall⟩
  · rintro ⟨hmem, hall⟩
    refine ⟨List.ne_nil_of_mem hmem, List.eq_nil_iff_forall_not_mem.mpr fun x hx => ?_⟩
    obtain ⟨hx, hne⟩ := mem_members_remove.mp hx
    exact hne ⟨rfl, hall x hx⟩

end Remove

end Multimap
