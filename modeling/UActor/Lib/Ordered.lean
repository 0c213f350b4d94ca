import UActor.Lib.Assoc
import Mathlib.Order.Lattice

/-!
# Maps with a comparison

A map that finds its keys by a comparison, as `std::map` does. What it does is defined where the
comparison is a strict weak order, on the keys that it compares.
-/

namespace Ordered

variable {κ ν : Type} (lt : κ → κ → Bool)

/-! ## Comparisons -/

/-- What the map asks of the comparison. -/
structure StrictWeak (ks : List κ) : Prop where
  irrefl : ∀ a ∈ ks, lt a a = false
  trans : ∀ a ∈ ks, ∀ b ∈ ks, ∀ c ∈ ks, lt a b = true → lt b c = true → lt a c = true
  incomparable : ∀ a ∈ ks, ∀ b ∈ ks, ∀ c ∈ ks, lt a b = false → lt b a = false → lt b c = false →
    lt c b = false →
    lt a c = false ∧ lt c a = false

theorem strictWeak_iff {ks : List κ} : StrictWeak lt ks ↔ (∀ a ∈ ks, lt a a = false) ∧
    (∀ a ∈ ks, ∀ b ∈ ks, ∀ c ∈ ks, lt a b = true → lt b c = true → lt a c = true) ∧
      ∀ a ∈ ks, ∀ b ∈ ks, ∀ c ∈ ks, lt a b = false → lt b a = false → lt b c = false →
      lt c b = false →
        lt a c = false ∧ lt c a = false :=
  ⟨fun ⟨hirrefl, htrans, hincomparable⟩ => ⟨hirrefl, htrans, hincomparable⟩,
    fun ⟨hirrefl, htrans, hincomparable⟩ => ⟨hirrefl, htrans, hincomparable⟩⟩

instance decidableStrictWeak (ks : List κ) : Decidable (StrictWeak lt ks) :=
  decidable_of_iff' _ (strictWeak_iff lt)

/-- The comparison is a strict total order on a set of keys. -/
structure StrictTotal (S : κ → Prop) : Prop where
  irrefl : ∀ a, S a → lt a a = false
  asymm : ∀ a b, S a → S b → lt a b = true → lt b a = false
  trans : ∀ a b c, S a → S b → S c → lt a b = true → lt b c = true → lt a c = true
  connected : ∀ a b, S a → S b → (lt a b = false ∧ lt b a = false ↔ a = b)

variable {lt} {S : κ → Prop}

theorem StrictTotal.strictWeak (h : StrictTotal lt S) {ks : List κ} (hks : ∀ k ∈ ks, S k) :
    StrictWeak lt ks := by
  refine ⟨fun a ha => h.irrefl a (hks a ha), ?_, ?_⟩
  · intro a ha b hb c hc
    exact h.trans a b c (hks a ha) (hks b hb) (hks c hc)
  · intro a ha b hb c hc hab hba hbc hcb
    obtain rfl := (h.connected a b (hks a ha) (hks b hb)).mp ⟨hab, hba⟩
    exact ⟨hbc, hcb⟩

/-- A comparison that has all of a linear order is a strict total order where it has no more. -/
theorem strictTotal_iff {α : Type} [LinearOrder α] {key : κ → α}
    (hkey : ∀ a b, key a = key b → a = b) (hirrefl : ∀ a, lt a a = false)
    (hlt : ∀ a b, key a < key b → lt a b = true) :
    StrictTotal lt S ↔ ∀ a b, S a → S b → key a < key b → lt b a = false := by
  constructor
  · intro h a b ha hb hab
    exact h.asymm a b ha hb (hlt a b hab)
  · intro h
    have hiff : ∀ a b, S a → S b → (lt a b = true ↔ key a < key b) := by
      intro a b ha hb
      refine ⟨fun hab => ?_, hlt a b⟩
      rcases lt_trichotomy (key a) (key b) with hless | heq | hmore
      · exact hless
      · rw [hkey a b heq, hirrefl] at hab
        exact absurd hab (by simp)
      · rw [h b a hb ha hmore] at hab
        exact absurd hab (by simp)
    refine ⟨fun a _ => hirrefl a, ?_, ?_, ?_⟩
    · intro a b ha hb hab
      exact h a b ha hb ((hiff a b ha hb).mp hab)
    · intro a b c ha hb hc hab hbc
      exact hlt a c (lt_trans ((hiff a b ha hb).mp hab) ((hiff b c hb hc).mp hbc))
    · intro a b ha hb
      rw [Bool.eq_false_iff, Bool.eq_false_iff, Ne, Ne, hiff a b ha hb, hiff b a hb ha,
        not_lt, not_lt]
      constructor
      · rintro ⟨hba, hab⟩
        exact hkey a b (le_antisymm hab hba)
      · rintro rfl
        exact ⟨le_refl _, le_refl _⟩

/-! ## The map -/

/-- The entry that `try_emplace` returns an iterator to, between those before and after it. -/
structure Placed (κ ν : Type) where
  before : List (κ × ν)
  entry : κ × ν
  after : List (κ × ν)
  inserted : Bool

/-- The map with another value in this entry. -/
def Placed.write (p : Placed κ ν) (v : ν) : List (κ × ν) := p.before ++ (p.entry.1, v) :: p.after

variable (lt)

/-- `try_emplace`, by a lower bound. -/
def tryEmplace (k : κ) (v : ν) (m : List (κ × ν)) : Option (Placed κ ν) :=
  if StrictWeak lt (k :: Assoc.keys m) then
    match m.dropWhile fun e => lt e.1 k with
    | [] => some ⟨m, (k, v), [], true⟩
    | e :: rest =>
      if lt k e.1 then some ⟨m.takeWhile fun e => lt e.1 k, (k, v), e :: rest, true⟩
      else some ⟨m.takeWhile fun e => lt e.1 k, e, rest, false⟩
  else none

/-- `erase` of a key, with all that compares equal to it. -/
def erase (k : κ) (m : List (κ × ν)) : Option (List (κ × ν)) :=
  if StrictWeak lt (k :: Assoc.keys m) then some (m.filter fun e => lt e.1 k || lt k e.1) else none

variable {lt}

theorem tryEmplace_entry {k : κ} {v : ν} {m : List (κ × ν)} {p : Placed κ ν}
    (h : tryEmplace lt k v m = some p) :
    (p.inserted = true ∧ p.entry = (k, v) ∧ p.before ++ p.after = m) ∨
      (p.inserted = false ∧ p.before ++ p.entry :: p.after = m) := by
  have hsplit := List.takeWhile_append_dropWhile (p := fun e : κ × ν => lt e.1 k) (l := m)
  unfold tryEmplace at h
  split at h
  · split at h
    · rw [← Option.some.inj h]
      exact Or.inl ⟨rfl, rfl, List.append_nil m⟩
    · rename_i e rest hdrop
      rw [hdrop] at hsplit
      split at h
      · rw [← Option.some.inj h]
        exact Or.inl ⟨rfl, rfl, hsplit⟩
      · rw [← Option.some.inj h]
        exact Or.inr ⟨rfl, hsplit⟩
  · exact absurd h (by simp)

theorem StrictTotal.weak_cons (h : StrictTotal lt S) {k : κ} {m : List (κ × ν)} (hk : S k)
    (hm : ∀ a ∈ Assoc.keys m, S a) : StrictWeak lt (k :: Assoc.keys m) := by
  refine h.strictWeak ?_
  rw [List.forall_mem_cons]
  exact ⟨hk, hm⟩

theorem tryEmplace_defined (h : StrictTotal lt S) {k : κ} {m : List (κ × ν)} (hk : S k)
    (hm : ∀ a ∈ Assoc.keys m, S a) (v : ν) : ∃ p, tryEmplace lt k v m = some p := by
  unfold tryEmplace
  rw [if_pos (h.weak_cons hk hm)]
  split
  · exact ⟨_, rfl⟩
  · split
    · exact ⟨_, rfl⟩
    · exact ⟨_, rfl⟩

theorem tryEmplace_keys {k : κ} {v v' : ν} {m : List (κ × ν)} {p : Placed κ ν}
    (h : tryEmplace lt k v m = some p) {a : κ} (ha : a ∈ Assoc.keys (p.write v')) :
    a = k ∨ a ∈ Assoc.keys m := by
  unfold Placed.write Assoc.keys at ha
  unfold Assoc.keys
  rw [List.map_append, List.map_cons, List.mem_append, List.mem_cons] at ha
  rcases tryEmplace_entry h with ⟨-, hentry, hm⟩ | ⟨-, hm⟩
  · rw [← hm, List.map_append, List.mem_append]
    rw [hentry] at ha
    tauto
  · rw [← hm, List.map_append, List.map_cons, List.mem_append, List.mem_cons]
    exact Or.inr ha

theorem tryEmplace_absent (h : StrictTotal lt S) {k : κ} {m : List (κ × ν)} (hk : S k)
    (hm : ∀ a ∈ Assoc.keys m, S a) (habsent : k ∉ Assoc.keys m) {v : ν} {p : Placed κ ν}
    (hp : tryEmplace lt k v m = some p) : p.inserted = true := by
  unfold tryEmplace at hp
  split at hp
  · split at hp
    · rw [← Option.some.inj hp]
    · rename_i e rest hdrop
      have he : e.1 ∈ Assoc.keys m :=
        List.mem_map.mpr ⟨e, (List.dropWhile_sublist _).subset
          (by rw [hdrop]; exact List.mem_cons_self), rfl⟩
      have hnot : lt e.1 k = false := by
        have hhead := List.head?_dropWhile_not (fun e : κ × ν => lt e.1 k) m
        rw [hdrop] at hhead
        simpa using hhead
      split at hp
      · rw [← Option.some.inj hp]
      · rename_i hneither
        have heq := (h.connected k e.1 hk (hm _ he)).mp ⟨by simpa using hneither, hnot⟩
        exact absurd (heq ▸ he) habsent
  · exact absurd hp (by simp)

theorem eraseAll_keys (h : StrictTotal lt S) {ks : List κ} {m : List (κ × ν)} (hks : ∀ k ∈ ks, S k)
    (hm : ∀ a ∈ Assoc.keys m, S a) :
    ∃ m', ks.foldlM (fun m k => erase lt k m) m = some m' ∧ ∀ a ∈ Assoc.keys m',
    a ∈ Assoc.keys m := by
  induction ks generalizing m with
  | nil => exact ⟨m, rfl, fun _ ha => ha⟩
  | cons k ks ih =>
    have hsub : ∀ a ∈ Assoc.keys (m.filter fun e => lt e.1 k || lt k e.1), a ∈ Assoc.keys m :=
      fun a ha => (List.filter_sublist.map Prod.fst).subset ha
    have herase : erase lt k m = some (m.filter fun e => lt e.1 k || lt k e.1) :=
      if_pos (h.weak_cons (hks k List.mem_cons_self) hm)
    obtain ⟨m', hrun, hkeys⟩ := ih (fun a ha => hks a (List.mem_cons_of_mem k ha)) fun a ha =>
      hm a (hsub a ha)
    refine ⟨m', ?_, fun a ha => hsub a (hkeys a ha)⟩
    rw [List.foldlM_cons, herase]
    exact hrun

/-! ## The map as a finite map -/

/-- The entries are in the order of the comparison. -/
def Sorted (lt : κ → κ → Bool) (m : List (κ × ν)) : Prop := m.Pairwise fun a b => lt a.1 b.1 = true

theorem Sorted.sublist {m m' : List (κ × ν)} (h : Sorted lt m) (hsub : m'.Sublist m) :
    Sorted lt m' :=
  List.Pairwise.sublist hsub h

theorem sorted_iff_keys {m : List (κ × ν)} :
    Sorted lt m ↔ (Assoc.keys m).Pairwise fun a b => lt a b = true := by
  rw [Sorted, Assoc.keys, List.pairwise_map]

theorem keys_write (p : Placed κ ν) (v : ν) :
    Assoc.keys (p.write v) = Assoc.keys p.before ++ p.entry.1 :: Assoc.keys p.after := by
  simp [Placed.write, Assoc.keys]

theorem StrictTotal.ne_of_lt (h : StrictTotal lt S) {k k' : κ} (hk : S k) (hlt : lt k k' = true) :
    k ≠ k' := by
  rintro rfl
  rw [h.irrefl k hk] at hlt
  exact Bool.false_ne_true hlt

theorem Sorted.keys_nodup (h : StrictTotal lt S) {m : List (κ × ν)} (hm : ∀ a ∈ Assoc.keys m, S a)
    (hs : Sorted lt m) : (Assoc.keys m).Nodup :=
  List.Pairwise.imp_of_mem (fun ha _ hlt => h.ne_of_lt (hm _ ha) hlt) (sorted_iff_keys.mp hs)

theorem Sorted.place (h : StrictTotal lt S) {m : List (κ × ν)} {k : κ} {v : ν} (hk : S k)
    (hm : ∀ a ∈ Assoc.keys m, S a) (hs : Sorted lt m) {p : Placed κ ν}
    (hp : tryEmplace lt k v m = some p) :
    (∀ a ∈ Assoc.keys p.before, lt a k = true) ∧ (∀ a ∈ Assoc.keys p.after, lt k a = true) ∧
    p.entry.1 = k := by
  have hbefore : ∀ a ∈ Assoc.keys (m.takeWhile fun e => lt e.1 k), lt a k = true := by
    intro a ha
    obtain ⟨e, he, rfl⟩ := List.mem_map.mp ha
    exact List.all_eq_true.mp List.all_takeWhile e he
  have hsplit := List.takeWhile_append_dropWhile (p := fun e : κ × ν => lt e.1 k) (l := m)
  unfold tryEmplace at hp
  split at hp
  · split at hp
    · rename_i hdrop
      rw [← Option.some.inj hp]
      rw [hdrop, List.append_nil] at hsplit
      rw [hsplit] at hbefore
      exact ⟨hbefore, by simp [Assoc.keys], rfl⟩
    · rename_i e rest hdrop
      rw [hdrop] at hsplit
      have he : S e.1 := hm _ (List.mem_map.mpr ⟨e, by rw [← hsplit]; simp, rfl⟩)
      have hnot : lt e.1 k = false := by
        have hhead := List.head?_dropWhile_not (fun e : κ × ν => lt e.1 k) m
        rw [hdrop] at hhead
        simpa using hhead
      have hrest : ∀ a ∈ Assoc.keys rest, lt e.1 a = true ∧ S a := by
        intro a ha
        obtain ⟨e', he', rfl⟩ := List.mem_map.mp ha
        have htail : Sorted lt (e :: rest) :=
          hs.sublist (by rw [← hsplit]; exact List.sublist_append_right _ _)
        refine ⟨(List.pairwise_cons.mp htail).1 e' he', hm _ (List.mem_map.mpr ⟨e', ?_, rfl⟩)⟩
        rw [← hsplit]
        exact List.mem_append_right _ (List.mem_cons_of_mem e he')
      split at hp
      · rename_i hless
        rw [← Option.some.inj hp]
        refine ⟨hbefore, fun a ha => ?_, rfl⟩
        rcases List.mem_cons.mp ha with rfl | ha
        · exact hless
        · obtain ⟨hea, hSa⟩ := hrest a ha
          exact h.trans k e.1 a hk he hSa hless hea
      · rename_i hneither
        rw [← Option.some.inj hp]
        have heq : k = e.1 := (h.connected k e.1 hk he).mp ⟨by simpa using hneither, hnot⟩
        exact ⟨hbefore, fun a ha => heq ▸ (hrest a ha).1, heq.symm⟩
  · cases hp

section

variable [DecidableEq κ] {m : List (κ × ν)} {k : κ} {v : ν}

theorem find_middle {before after : List (κ × ν)} (hk : k ∉ Assoc.keys before) (v : ν) (k' : κ) :
    Assoc.find k' (before ++ (k, v) :: after) =
      if k = k' then some v else Assoc.find k' (before ++ after) := by
  rw [Assoc.find_append, Assoc.find_append]
  split
  · rename_i heq
    subst heq
    rw [Assoc.find_eq_none.mpr hk]
    simp [Assoc.find]
  · rename_i hne
    simp [Assoc.find, hne]

theorem tryEmplace_find (h : StrictTotal lt S) (hk : S k) (hm : ∀ a ∈ Assoc.keys m, S a)
    (hs : Sorted lt m) {p : Placed κ ν} (hp : tryEmplace lt k v m = some p) :
    Assoc.find k m = (if p.inserted then none else some p.entry.2) ∧
      ∀ v', Sorted lt (p.write v') ∧
        ∀ k', Assoc.find k' (p.write v') = if k = k' then some v' else Assoc.find k' m := by
  obtain ⟨hbefore, hafter, hentry⟩ := hs.place h hk hm hp
  have hsub : ∀ a ∈ Assoc.keys p.before, S a := by
    intro a ha
    refine hm a ?_
    rcases tryEmplace_entry hp with ⟨-, -, rfl⟩ | ⟨-, rfl⟩
    · exact (List.sublist_append_left _ _).map Prod.fst |>.subset ha
    · exact (List.sublist_append_left _ _).map Prod.fst |>.subset ha
  have habsent : k ∉ Assoc.keys p.before := fun hmem =>
    h.ne_of_lt (hsub k hmem) (hbefore k hmem) rfl
  have hlast : k ∉ Assoc.keys p.after := fun hmem => h.ne_of_lt hk (hafter k hmem) rfl
  have hwrite : ∀ v', p.write v' = p.before ++ (k, v') :: p.after := fun v' => by
    rw [Placed.write, hentry]
  have hsorted : ∀ v', Sorted lt (p.write v') := by
    intro v'
    rw [sorted_iff_keys, keys_write, hentry]
    rcases tryEmplace_entry hp with ⟨-, -, heq⟩ | ⟨-, heq⟩
    · rw [← heq, Sorted, List.pairwise_append] at hs
      obtain ⟨hsb, hsa, hba⟩ := hs
      refine List.pairwise_append.mpr ⟨sorted_iff_keys.mp hsb, ?_, ?_⟩
      · exact List.pairwise_cons.mpr ⟨hafter, sorted_iff_keys.mp hsa⟩
      · intro a ha b hb
        rcases List.mem_cons.mp hb with rfl | hb
        · exact hbefore a ha
        · obtain ⟨e, he, rfl⟩ := List.mem_map.mp ha
          obtain ⟨e', he', rfl⟩ := List.mem_map.mp hb
          exact hba e he e' he'
    · rw [sorted_iff_keys, ← heq] at hs
      simpa [Assoc.keys, hentry] using hs
  refine ⟨?_, fun v' => ⟨hsorted v', fun k' => ?_⟩⟩
  · rcases tryEmplace_entry hp with ⟨hinserted, -, rfl⟩ | ⟨hinserted, rfl⟩
    · rw [hinserted, if_pos rfl, Assoc.find_append, Assoc.find_eq_none.mpr habsent,
        Assoc.find_eq_none.mpr hlast]
      rfl
    · have hpair : p.entry = (k, p.entry.2) := by rw [← hentry]
      rw [hinserted, if_neg Bool.false_ne_true, hpair, find_middle habsent, if_pos rfl]
  · rw [hwrite, find_middle habsent]
    rcases tryEmplace_entry hp with ⟨-, -, rfl⟩ | ⟨-, rfl⟩
    · rfl
    · have hpair : p.entry = (k, p.entry.2) := by rw [← hentry]
      rw [hpair, find_middle habsent]
      split <;> rfl

theorem erase_eq (h : StrictTotal lt S) (hk : S k) (hm : ∀ a ∈ Assoc.keys m, S a) :
    erase lt k m = some (Assoc.erase k m) := by
  unfold erase
  rw [if_pos (h.weak_cons hk hm)]
  refine congrArg some (List.filter_congr fun e he => ?_)
  have hconnected := h.connected e.1 k (hm _ (List.mem_map.mpr ⟨e, he, rfl⟩)) hk
  by_cases heq : e.1 = k
  · obtain ⟨hless, hmore⟩ := hconnected.mpr heq
    rw [hless, hmore]
    simp [heq]
  · have hneither := mt hconnected.mp heq
    cases hless : lt e.1 k with
    | true => simp [heq]
    | false =>
      have hmore : lt k e.1 = true := by
        rw [hless] at hneither
        simpa using hneither
      simp [hmore, heq]

theorem eraseAll_find (h : StrictTotal lt S) {ks : List κ} (hks : ∀ k ∈ ks, S k)
    (hm : ∀ a ∈ Assoc.keys m, S a) (hs : Sorted lt m) :
    ∃ m', ks.foldlM (fun m k => erase lt k m) m = some m' ∧ Sorted lt m' ∧
      ∀ k', Assoc.find k' m' = if k' ∈ ks then none else Assoc.find k' m := by
  induction ks generalizing m with
  | nil => exact ⟨m, rfl, hs, fun k' => (if_neg (List.not_mem_nil)).symm⟩
  | cons k ks ih =>
    rw [List.forall_mem_cons] at hks
    have hsub : (Assoc.erase k m).Sublist m := List.filter_sublist
    obtain ⟨m', hrun, hs', hfind⟩ := ih hks.2 (fun a ha => hm a ((hsub.map Prod.fst).subset ha))
      (hs.sublist hsub)
    refine ⟨m', ?_, hs', fun k' => ?_⟩
    · rw [List.foldlM_cons, erase_eq h hks.1 hm]
      exact hrun
    · rw [hfind k', Assoc.find_erase]
      by_cases heq : k = k'
      · simp [heq]
      · simp [heq, Ne.symm heq]

end

end Ordered
