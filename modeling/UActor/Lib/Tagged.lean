import UActor.Lib.Multimap

/-!
# Tagged items

A map of items, each with an identity and with tags, and an index from tags to the identities of the
items that have them. The tags of an item may repeat.
-/

structure Tagged (κ ι τ : Type) where
  items : List (κ × ι × List τ)
  index : List (τ × List ι)

namespace Tagged

variable {κ ι τ : Type}

def empty : Tagged κ ι τ := ⟨[], []⟩

/-- The keys and the tags, without identities. -/
def shape (t : Tagged κ ι τ) : List (κ × List τ) := t.items.map fun e => (e.1, e.2.2)

variable [DecidableEq κ] [DecidableEq τ]

/-- The index has each item under its tags and nothing else. -/
structure Exact (t : Tagged κ ι τ) : Prop where
  apart : ∀ k k' i tags tags', Assoc.find k t.items = some (i, tags) →
    Assoc.find k' t.items = some (i, tags') → k = k'
  full : Multimap.Full t.index
  index : ∀ tag i, i ∈ Multimap.members tag t.index ↔
    ∃ k tags, Assoc.find k t.items = some (i, tags) ∧ tag ∈ tags

variable {t : Tagged κ ι τ}

theorem exact_empty : (empty : Tagged κ ι τ).Exact := by
  refine ⟨fun k k' i tags tags' h => ?_, fun e he => ?_, fun tag i => ?_⟩
  · simp [empty] at h
  · simp [empty] at he
  · simp [empty, Multimap.members]

theorem Exact.mem_keys (h : t.Exact) {tag : τ} :
    tag ∈ Assoc.keys t.index ↔ ∃ k i tags, Assoc.find k t.items = some (i, tags) ∧ tag ∈ tags := by
  rw [h.full.mem_keys]
  constructor
  · intro hne
    obtain ⟨i, hi⟩ := List.exists_mem_of_ne_nil _ hne
    obtain ⟨k, tags, hfind, htag⟩ := (h.index tag i).mp hi
    exact ⟨k, i, tags, hfind, htag⟩
  · rintro ⟨k, i, tags, hfind, htag⟩
    exact List.ne_nil_of_mem ((h.index tag i).mpr ⟨k, tags, hfind, htag⟩)

variable [DecidableEq ι]

def remove (t : Tagged κ ι τ) (k : κ) : Tagged κ ι τ :=
  match Assoc.find k t.items with
  | some (i, tags) =>
    ⟨Assoc.erase k t.items, tags.foldl (fun m tag => (Multimap.remove tag i m).1) t.index⟩
  | none => t

theorem find_remove (k k' : κ) :
    Assoc.find k' (t.remove k).items = if k = k' then none else Assoc.find k' t.items := by
  unfold Tagged.remove
  split
  · exact Assoc.find_erase k' k t.items
  · rename_i hk
    split
    · rename_i heq
      rw [← heq, hk]
    · rfl

theorem find_remove_eq_some {k k' : κ} {e : ι × List τ} :
    Assoc.find k' (t.remove k).items = some e ↔ k ≠ k' ∧ Assoc.find k' t.items = some e := by
  rw [find_remove]
  split
  · rename_i heq
    simp [heq]
  · rename_i hne
    simp [hne]

theorem mem_members_remove {k : κ} {i : ι} {tags : List τ}
    (hk : Assoc.find k t.items = some (i, tags)) (tag : τ) (i' : ι) :
    i' ∈ Multimap.members tag (t.remove k).index ↔
      i' ∈ Multimap.members tag t.index ∧ ¬ (tag ∈ tags ∧ i' = i) := by
  unfold Tagged.remove
  rw [hk]
  exact Multimap.mem_members_removeAll tags i t.index tag i'

theorem remove_absent {k : κ} (hk : Assoc.find k t.items = none) : t.remove k = t := by
  unfold Tagged.remove
  rw [hk]

theorem full_remove (h : Multimap.Full t.index) (k : κ) : Multimap.Full (t.remove k).index := by
  unfold Tagged.remove
  split
  · exact h.removeAll _ _
  · exact h

theorem Exact.remove (h : t.Exact) (k : κ) : (t.remove k).Exact := by
  cases hk : Assoc.find k t.items with
  | none =>
    rw [remove_absent hk]
    exact h
  | some e =>
    obtain ⟨i, tags⟩ := e
    refine ⟨?_, full_remove h.full k, fun tag i' => ?_⟩
    · intro k₁ k₂ i' tags₁ tags₂ h₁ h₂
      exact h.apart k₁ k₂ i' tags₁ tags₂ (find_remove_eq_some.mp h₁).2 (find_remove_eq_some.mp h₂).2
    · rw [mem_members_remove hk, h.index]
      constructor
      · rintro ⟨⟨k', tags', hk', htag⟩, hnot⟩
        refine ⟨k', tags', find_remove_eq_some.mpr ⟨?_, hk'⟩, htag⟩
        rintro rfl
        obtain ⟨rfl, rfl⟩ := Prod.mk.inj (Option.some.inj (hk.symm.trans hk'))
        exact hnot ⟨htag, rfl⟩
      · rintro ⟨k', tags', hk', htag⟩
        obtain ⟨hne, hkept⟩ := find_remove_eq_some.mp hk'
        refine ⟨⟨k', tags', hkept, htag⟩, ?_⟩
        rintro ⟨-, rfl⟩
        exact hne (h.apart k k' i' tags tags' hk hkept)

theorem shape_remove (k : κ) : (t.remove k).shape = Assoc.erase k t.shape := by
  cases hk : Assoc.find k t.items with
  | none =>
    have habsent : ∀ e ∈ t.shape, e.1 ≠ k := by
      intro e he heq
      obtain ⟨e', he', rfl⟩ := List.mem_map.mp he
      exact Assoc.find_eq_none.mp hk (List.mem_map.mpr ⟨e', he', heq⟩)
    rw [remove_absent hk]
    exact (List.filter_eq_self.mpr fun e he => by simpa using habsent e he).symm
  | some e =>
    unfold Tagged.remove shape Assoc.erase
    rw [hk, List.filter_map]
    rfl

section Add

variable [LT ι] [DecidableLT ι]

def add (t : Tagged κ ι τ) (k : κ) (i : ι) (tags : List τ) : Tagged κ ι τ :=
  ⟨Assoc.put k (i, tags) t.items, tags.foldl (fun m tag => Multimap.insert tag i m) t.index⟩

theorem find_add_eq_some {k k' : κ} {i : ι} {tags : List τ} {e : ι × List τ}
    (hk : Assoc.find k t.items = none) :
    Assoc.find k' (t.add k i tags).items = some e ↔ (k' = k ∧ e = (i, tags)) ∨
    Assoc.find k' t.items = some e := by
  show Assoc.find k' (Assoc.put k (i, tags) t.items) = some e ↔ _
  rw [Assoc.find_put]
  split
  · rename_i heq
    subst heq
    simp [hk, eq_comm]
  · rename_i hne
    simp [Ne.symm hne]

/-- An item with a new key and a new identity. -/
theorem Exact.add (h : t.Exact) {k : κ} {i : ι} (hk : Assoc.find k t.items = none)
    (hi : ∀ k' tags, Assoc.find k' t.items ≠ some (i, tags)) (tags : List τ) :
    (t.add k i tags).Exact := by
  refine ⟨?_, h.full.insertAll tags i, fun tag i' => ?_⟩
  · intro k₁ k₂ i' tags₁ tags₂ h₁ h₂
    rcases (find_add_eq_some hk).mp h₁ with ⟨rfl, heq₁⟩ | hold₁
    · rcases (find_add_eq_some hk).mp h₂ with ⟨rfl, -⟩ | hold₂
      · rfl
      · obtain ⟨rfl, -⟩ := Prod.mk.inj heq₁
        exact absurd hold₂ (hi k₂ tags₂)
    · rcases (find_add_eq_some hk).mp h₂ with ⟨-, heq₂⟩ | hold₂
      · obtain ⟨rfl, -⟩ := Prod.mk.inj heq₂
        exact absurd hold₁ (hi k₁ tags₁)
      · exact h.apart k₁ k₂ i' tags₁ tags₂ hold₁ hold₂
  · show i' ∈ Multimap.members tag (tags.foldl _ t.index) ↔ _
    rw [Multimap.mem_members_insertAll, h.index]
    constructor
    · rintro (⟨htag, rfl⟩ | ⟨k', tags', hk', htag⟩)
      · exact ⟨k, tags, (find_add_eq_some hk).mpr (Or.inl ⟨rfl, rfl⟩), htag⟩
      · exact ⟨k', tags', (find_add_eq_some hk).mpr (Or.inr hk'), htag⟩
    · rintro ⟨k', tags', hk', htag⟩
      rcases (find_add_eq_some hk).mp hk' with ⟨rfl, heq⟩ | hold
      · obtain ⟨rfl, rfl⟩ := Prod.mk.inj heq
        exact Or.inl ⟨htag, rfl⟩
      · exact Or.inr ⟨k', tags', hold, htag⟩

theorem shape_add (k : κ) (i : ι) (tags : List τ) :
    (t.add k i tags).shape = Assoc.put k tags t.shape :=
  Assoc.map_put k (i, tags) Prod.snd t.items

end Add

end Tagged
