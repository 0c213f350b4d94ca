import UActor.Lib.Pipeline

/-!
# A set fed by a pipeline

What comes out of a pipeline is put into a set, and taken out of it. The set compares entries
with a relation of its own.
-/

namespace Pipeline

variable {φ α : Type}

/-! ## Events -/

inductive Event (φ α : Type) where
  | added (f : φ) (a : α)
  | removed (f : φ) (a : α)

section

variable [DecidableEq φ] [DecidableEq α]

def liveAfter (l : List (φ × α)) : Event φ α → List (φ × α)
  | .added f a => if (f, a) ∈ l then l else l ++ [(f, a)]
  | .removed f a => l.erase (f, a)

/-- The items that were added and not removed since. -/
def live (evs : List (Event φ α)) : List (φ × α) := evs.foldl liveAfter []

/-- Only live items are removed. -/
def Legal (evs : List (Event φ α)) : Prop :=
  ∀ pre f a, pre ++ [.removed f a] <+: evs → (f, a) ∈ live pre

theorem live_added (evs : List (Event φ α)) (f : φ) (a : α) :
    live (evs ++ [.added f a]) = if (f, a) ∈ live evs then live evs else live evs ++ [(f, a)] := by
  unfold live
  rw [List.foldl_append]
  rfl

theorem live_removed (evs : List (Event φ α)) (f : φ) (a : α) :
    live (evs ++ [.removed f a]) = (live evs).erase (f, a) := by
  unfold live
  rw [List.foldl_append]
  rfl

theorem legal_nil : Legal ([] : List (Event φ α)) := by
  intro pre f a hp
  simp at hp

theorem Legal.added {evs : List (Event φ α)} (h : Legal evs) (f : φ) (a : α) :
    Legal (evs ++ [.added f a]) := by
  intro pre f' a' hp
  rcases List.prefix_concat_iff.mp hp with heq | hp
  · have := (List.append_inj' heq rfl).2
    simp at this
  · exact h pre f' a' hp

theorem Legal.removed {evs : List (Event φ α)} (h : Legal evs) {f : φ} {a : α}
    (hmem : (f, a) ∈ live evs) :
    Legal (evs ++ [.removed f a]) := by
  intro pre f' a' hp
  rcases List.prefix_concat_iff.mp hp with heq | hp
  · obtain ⟨rfl, hev⟩ := List.append_inj' heq rfl
    simp only [List.cons.injEq, Event.removed.injEq, and_true] at hev
    rw [hev.1, hev.2]
    exact hmem
  · exact h pre f' a' hp

theorem Legal.of_prefix {evs pre : List (Event φ α)} (h : Legal evs) (hpre : pre <+: evs) :
    Legal pre :=
  fun pre' f a hp => h pre' f a (hp.trans hpre)

theorem Legal.init {evs : List (Event φ α)} {ev : Event φ α} (h : Legal (evs ++ [ev])) :
    Legal evs :=
  h.of_prefix (List.prefix_append _ _)

theorem Legal.last {evs : List (Event φ α)} {f : φ} {a : α} (h : Legal (evs ++ [.removed f a])) :
    (f, a) ∈ live evs :=
  h evs f a (List.prefix_refl _)

theorem mem_live_added {evs : List (Event φ α)} {f : φ} {a : α} {x : φ × α}
    (hx : x ∈ live (evs ++ [.added f a])) : x ∈ live evs ∨ x = (f, a) := by
  rw [live_added] at hx
  split at hx
  · exact Or.inl hx
  · simpa using hx

theorem live_nodup (evs : List (Event φ α)) : (live evs).Nodup := by
  induction evs using List.reverseRecOn with
  | nil => exact List.nodup_nil
  | append_singleton evs ev ih =>
    cases ev with
    | added f a =>
      rw [live_added]
      split
      · exact ih
      · rename_i hmem
        refine List.nodup_append.mpr ⟨ih, by simp, ?_⟩
        intro x hx y hy hxy
        rw [List.mem_singleton] at hy
        exact hmem (hy ▸ hxy ▸ hx)
    | removed f a =>
      rw [live_removed]
      exact ih.erase _

theorem mem_live_removed {evs : List (Event φ α)} {f : φ} {a : α} {x : φ × α} :
    x ∈ live (evs ++ [.removed f a]) ↔ x ≠ (f, a) ∧ x ∈ live evs := by
  rw [live_removed]
  exact (live_nodup evs).mem_erase_iff

end

/-! ## The items of a pipeline -/

/-- The pipeline holds the items `held`, which are those that were added more often than removed. -/
structure Loaded (cs : List (Stage φ α)) (L held : List (φ × α)) (chain : List (Stage φ α)) :
    Prop where
  eq : chain = load cs (held.map Prod.fst)
  live_held : ∀ x ∈ L, x ∈ held

theorem Loaded.added {cs chain : List (Stage φ α)} {L L' held : List (φ × α)}
    {f : φ} {a : α} (h : Loaded cs L held chain) (hlate : Late cs) (hapart : Apart cs)
    (hL : ∀ x ∈ L', x ∈ L ∨ x = (f, a)) :
    Loaded cs L' ((f, a) :: held) (add chain f a).1 ∧ Passes cs (held.map Prod.fst) f a
      (add chain f a).2 := by
  obtain ⟨h1, h2⟩ := add_load hlate hapart (held.map Prod.fst) f a
  rw [← h.eq] at h1 h2
  refine ⟨⟨h1, ?_⟩, h2⟩
  intro x hx
  rcases hL x hx with hx | rfl
  · exact List.mem_cons_of_mem _ (h.live_held x hx)
  · exact List.mem_cons_self

/-! ## The set -/

section

variable [DecidableEq α]

/-- The entry of the set that an item with the label `a` meets. -/
def meets (same : φ → φ → Bool) (g : φ) (a : α) (e : φ × α) : Bool := same e.1 g && decide (e.2 = a)

def insertEntry (same : φ → φ → Bool) (V : List (φ × α)) (g : φ) (a : α) : List (φ × α) :=
  if V.any (meets same g a) then V else V ++ [(g, a)]

def deleteEntry (same : φ → φ → Bool) (V : List (φ × α)) (g : φ) (a : α) : List (φ × α) :=
  V.eraseP (meets same g a)

def feed (same : φ → φ → Bool) (st : List (Stage φ α) × List (φ × α)) :
    Event φ α → List (Stage φ α) × List (φ × α)
  | .added f a => ((add st.1 f a).1, ((add st.1 f a).2.map fun g => insertEntry same st.2 g a).getD
      st.2)
  | .removed f a => ((remove st.1 f a).1,
      ((remove st.1 f a).2.map fun g => deleteEntry same st.2 g a).getD st.2)

/-- The pipeline and the set after some events. -/
def fed (same : φ → φ → Bool) (cs : List (Stage φ α)) (evs : List (Event φ α)) :
    List (Stage φ α) × List (φ × α) :=
  evs.foldl (feed same) (load cs [], [])

theorem fed_snoc (same : φ → φ → Bool) (cs : List (Stage φ α)) (evs : List (Event φ α))
    (ev : Event φ α) :
    fed same cs (evs ++ [ev]) = feed same (fed same cs evs) ev := by
  simp [fed]

/-! ## Nothing is lost -/

variable {same : φ → φ → Bool}

theorem mem_insertEntry {V : List (φ × α)} {e : φ × α} (he : e ∈ V) (g : φ) (a : α) :
    e ∈ insertEntry same V g a := by
  unfold insertEntry
  split
  · exact he
  · exact List.mem_append_left _ he

theorem insertEntry_self (same : φ → φ → Bool) (V : List (φ × α)) (g : φ) (a : α) :
    (g, a) ∈ insertEntry same V g a ∨ ∃ e ∈ V, same e.1 g = true ∧ e.2 = a := by
  unfold insertEntry
  split
  · rename_i h
    obtain ⟨e, he, hm⟩ := List.any_eq_true.mp h
    exact Or.inr ⟨e, he, by simpa [meets] using hm⟩
  · exact Or.inl (by simp)

theorem mem_of_mem_insertEntry {V : List (φ × α)} {e : φ × α} {g : φ} {a : α}
    (he : e ∈ insertEntry same V g a) : e ∈ V ∨ e = (g, a) := by
  unfold insertEntry at he
  split at he
  · exact Or.inl he
  · simpa using he

theorem mem_deleteEntry (same : φ → φ → Bool) {V : List (φ × α)} {e : φ × α} (he : e ∈ V) (g : φ)
    (a : α) :
    e ∈ deleteEntry same V g a ∨ (same e.1 g = true ∧ e.2 = a) := by
  by_cases hm : meets same g a e = true
  · exact Or.inr (by simpa [meets] using hm)
  · exact Or.inl ((List.mem_eraseP_of_neg hm).mpr he)

/-- The filters of `U` that are sent and compare equal are the same item, or one aggregate. -/
def Separate (same : φ → φ → Bool) (cs : List (Stage φ α)) (U : φ × α → Prop) : Prop :=
  ∀ x y, U x → U y → refused cs x.2 = false → refused cs y.2 = false → ∀ g h, fate cs x.1 = some g →
    fate cs y.1 = some h → same g h = true →
    (x.2 = y.2 ∨ counted cs x.1 = true ∨ counted cs y.1 = true) →
    x = y ∨ (counted cs x.1 = true ∧ counted cs y.1 = true ∧ g = h)

/-- Items of one aggregate are all refused, or none of them. -/
def Uniform (cs : List (Stage φ α)) (U : φ × α → Prop) : Prop :=
  ∀ x y, U x → U y → counted cs x.1 = true → counted cs y.1 = true → fate cs x.1 = fate cs y.1 →
    refused cs x.2 = refused cs y.2

/-- The set holds what every live item becomes, and what every aggregate of held ones becomes. -/
structure Covers (cs : List (Stage φ α)) (U : φ × α → Prop) (L held : List (φ × α))
    (st : List (Stage φ α) × List (φ × α)) : Prop where
  loaded : Loaded cs L held st.1
  held_mem : ∀ x ∈ held, U x
  entries : ∀ e ∈ st.2, ∃ f, U (f, e.2) ∧ refused cs e.2 = false ∧ fate cs f = some e.1
  single : ∀ x ∈ L, counted cs x.1 = false → refused cs x.2 = false → ∀ g, fate cs x.1 = some g →
    (g, x.2) ∈ st.2
  aggregate : ∀ x ∈ held, counted cs x.1 = true → refused cs x.2 = false →
    ∀ g, fate cs x.1 = some g →
    ∃ b, (g, b) ∈ st.2

section

variable {cs : List (Stage φ α)} {U : φ × α → Prop} {L L' held : List (φ × α)}
  {st : List (Stage φ α) × List (φ × α)} {f : φ} {a : α}

omit [DecidableEq α] in
theorem Separate.eq_of_same (hsep : Separate same cs U) {f' : φ} {e : φ × α} (hU' : U (f', e.2))
    (hr' : refused cs e.2 = false) (hg' : fate cs f' = some e.1) (hU : U (f, a))
    (hr : refused cs a = false) {g : φ} (hg : fate cs f = some g) (hsame : same e.1 g = true)
    (ha : e.2 = a) : e = (g, a) := by
  refine Prod.ext ?_ ha
  rcases hsep (f', e.2) (f, a) hU' hU hr' hr e.1 g hg' hg hsame (Or.inl ha) with heq | ⟨-, -, heq⟩
  · have hff : f' = f := congrArg Prod.fst heq
    rw [hff, hg] at hg'
    exact (Option.some.inj hg').symm
  · exact heq

theorem Covers.mem_insert (h : Covers cs U L held st) (hsep : Separate same cs U) (hU : U (f, a))
    (hr : refused cs a = false) {g : φ} (hg : fate cs f = some g) :
    (g, a) ∈ insertEntry same st.2 g a := by
  rcases insertEntry_self same st.2 g a with hmem | ⟨e, he, hsame, hea⟩
  · exact hmem
  · obtain ⟨f', hU', hr', hg'⟩ := h.entries e he
    have heq : e = (g, a) := hsep.eq_of_same hU' hr' hg' hU hr hg hsame hea
    exact mem_insertEntry (heq ▸ he) g a

omit [DecidableEq α] in
theorem Covers.extend (h : Covers cs U L held st) {chain : List (Stage φ α)} {V : List (φ × α)}
    (hloaded : Loaded cs L' ((f, a) :: held) chain) (hU : U (f, a))
    (hL : ∀ x ∈ L', x ∈ L ∨ x = (f, a)) (hV : ∀ e ∈ st.2, e ∈ V)
    (hentries : ∀ e ∈ V, ∃ f, U (f, e.2) ∧ refused cs e.2 = false ∧ fate cs f = some e.1)
    (hsingle : counted cs f = false → refused cs a = false → ∀ g, fate cs f = some g → (g, a) ∈ V)
    (haggregate : counted cs f = true → refused cs a = false → ∀ g, fate cs f = some g →
      ∃ b, (g, b) ∈ V) :
    Covers cs U L' ((f, a) :: held) (chain, V) := by
  refine ⟨hloaded, List.forall_mem_cons.mpr ⟨hU, h.held_mem⟩, hentries, ?_, ?_⟩
  · intro x hx hc hr g hg
    rcases hL x hx with hx | rfl
    · exact hV _ (h.single x hx hc hr g hg)
    · exact hsingle hc hr g hg
  · intro x hx hc hr g hg
    rcases List.mem_cons.mp hx with rfl | hx
    · exact haggregate hc hr g hg
    · obtain ⟨b, hb⟩ := h.aggregate x hx hc hr g hg
      exact ⟨b, hV _ hb⟩

theorem Covers.added (h : Covers cs U L held st) (hlate : Late cs) (hapart : Apart cs)
    (hsep : Separate same cs U) (huni : Uniform cs U) (hU : U (f, a))
    (hL : ∀ x ∈ L', x ∈ L ∨ x = (f, a)) :
    Covers cs U L' ((f, a) :: held) (feed same st (.added f a)) := by
  obtain ⟨h1, h2⟩ := h.loaded.added hlate hapart hL
  simp only [feed]
  rcases h2 with ⟨hout, hwhy⟩ | ⟨hout, hr, hwhy⟩
  · rw [hout]
    refine h.extend h1 hU hL (fun _ he => he) h.entries ?_ ?_
    · intro hc hr
      rcases hwhy with hr' | hs
      · rw [hr] at hr'; simp at hr'
      · rw [hs.1] at hc; simp at hc
    · intro hc hr g hg
      rcases hwhy with hr' | ⟨-, f', hf', hc', hfate⟩
      · rw [hr] at hr'; simp at hr'
      · obtain ⟨y, hy, rfl⟩ := List.mem_map.mp hf'
        have hry := huni y (f, a) (h.held_mem y hy) hU hc' hc hfate
        exact h.aggregate y hy hc' (hry.trans hr) g (hfate.trans hg)
  · rw [hout]
    cases hg : fate cs f with
    | none =>
      refine h.extend h1 hU hL (fun _ he => he) h.entries ?_ ?_
      · intro _ _ g hg'
        rw [hg] at hg'; simp at hg'
      · intro _ _ g hg'
        rw [hg] at hg'; simp at hg'
    | some g =>
      have hmem : (g, a) ∈ insertEntry same st.2 g a := h.mem_insert hsep hU hr hg
      refine h.extend h1 hU hL (fun e he => mem_insertEntry he g a) ?_ ?_ ?_
      · intro e he
        rcases mem_of_mem_insertEntry he with he | rfl
        · exact h.entries e he
        · exact ⟨f, hU, hr, hg⟩
      · intro _ _ g' hg'
        rw [hg] at hg'
        exact Option.some.inj hg' ▸ hmem
      · intro _ _ g' hg'
        rw [hg] at hg'
        exact ⟨a, Option.some.inj hg' ▸ hmem⟩

section

variable [DecidableEq φ]

theorem Loaded.eq_cons {chain : List (Stage φ α)} (h : Loaded cs L held chain) (hmem : (f, a) ∈ L) :
    chain = load cs (f :: (held.erase (f, a)).map Prod.fst) :=
  h.eq.trans (load_perm cs ((List.perm_cons_erase (h.live_held _ hmem)).map Prod.fst))

theorem Loaded.removed {chain : List (Stage φ α)} (h : Loaded cs L held chain) (hlate : Late cs)
    (hapart : Apart cs) (hmem : (f, a) ∈ L) (hL : ∀ x ∈ L', x ≠ (f, a) ∧ x ∈ L) :
    Loaded cs L' (held.erase (f, a)) (remove chain f a).1 ∧
      Passes cs ((held.erase (f, a)).map Prod.fst) f a (remove chain f a).2 := by
  have hload := h.eq_cons hmem
  obtain ⟨h1, h2⟩ := remove_load hlate hapart ((held.erase (f, a)).map Prod.fst) f a
  rw [← hload] at h1 h2
  refine ⟨⟨h1, ?_⟩, h2⟩
  intro x hx
  obtain ⟨hne, hx⟩ := hL x hx
  exact (List.mem_erase_of_ne hne).mpr (h.live_held x hx)

theorem Loaded.holds {chain : List (Stage φ α)} (h : Loaded cs L held chain) (hmem : (f, a) ∈ L) :
    Holds chain f := by
  rw [h.eq_cons hmem]
  exact holds_load cs f _

theorem Covers.removed (h : Covers cs U L held st) (hlate : Late cs) (hapart : Apart cs)
    (hsep : Separate same cs U) (hmem : (f, a) ∈ L) (hL : ∀ x ∈ L', x ≠ (f, a) ∧ x ∈ L) :
    Covers cs U L' (held.erase (f, a)) (feed same st (.removed f a)) := by
  obtain ⟨h1, h2⟩ := h.loaded.removed hlate hapart hmem hL
  have hsub : ∀ x ∈ held.erase (f, a), x ∈ held := fun x hx => List.mem_of_mem_erase hx
  have hU : U (f, a) := h.held_mem _ (h.loaded.live_held _ hmem)
  have hsame : Covers cs U L' (held.erase (f, a)) ((remove st.1 f a).1, st.2) :=
    ⟨h1, fun x hx => h.held_mem x (hsub x hx), h.entries, fun x hx => h.single x (hL x hx).2,
      fun x hx => h.aggregate x (hsub x hx)⟩
  simp only [feed]
  rcases h2 with ⟨hout, -⟩ | ⟨hout, hr, hshadow⟩
  · rw [hout]
    exact hsame
  · rw [hout]
    cases hg : fate cs f with
    | none => exact hsame
    | some g =>
      refine ⟨h1, hsame.held_mem, ?_, ?_, ?_⟩
      · exact fun e he => h.entries e (List.mem_of_mem_eraseP he)
      · intro x hx hc hrx g' hg'
        obtain ⟨hne, hx⟩ := hL x hx
        rcases mem_deleteEntry same (h.single x hx hc hrx g' hg') g a with he | ⟨heq, ha⟩
        · exact he
        · rcases hsep x (f, a) (h.held_mem x (h.loaded.live_held x hx)) hU hrx hr g' g hg' hg heq
              (Or.inl ha) with
            hxf | ⟨hcx, -, -⟩
          · exact absurd hxf hne
          · rw [hc] at hcx; simp at hcx
      · intro x hx hc hrx g' hg'
        obtain ⟨b, hb⟩ := h.aggregate x (hsub x hx) hc hrx g' hg'
        rcases mem_deleteEntry same hb g a with he | ⟨heq, ha⟩
        · exact ⟨b, he⟩
        · -- the aggregate would go although another of its items stays
          have hboth : counted cs f = true ∧ fate cs x.1 = fate cs f := by
            rcases hsep x (f, a) (h.held_mem x (hsub x hx)) hU hrx hr g' g hg' hg heq
                (Or.inr (Or.inl hc)) with
              rfl | ⟨-, hcf, hgg⟩
            · exact ⟨hc, rfl⟩
            · exact ⟨hcf, by rw [hg', hg, hgg]⟩
          exact absurd ⟨hboth.1, x.1, List.mem_map_of_mem hx, hc, hboth.2⟩ (hshadow (by simp [hg]))

theorem loaded_fed (same : φ → φ → Bool) (hlate : Late cs) (hapart : Apart cs)
    {evs : List (Event φ α)} (hlegal : Legal evs) :
    ∃ held, Loaded cs (live evs) held (fed same cs evs).1 ∧ held.length ≤ evs.length := by
  induction evs using List.reverseRecOn with
  | nil => exact ⟨[], ⟨rfl, by simp [live]⟩, by simp⟩
  | append_singleton evs ev ih =>
    obtain ⟨held, h, hlen⟩ := ih hlegal.init
    rw [fed_snoc, List.length_append, List.length_singleton]
    cases ev with
    | added f a => exact ⟨_, (h.added hlate hapart fun x => mem_live_added).1, by simpa using hlen⟩
    | removed f a =>
      refine ⟨_, (h.removed hlate hapart hlegal.last fun x hx => mem_live_removed.mp hx).1, ?_⟩
      have := List.length_erase_le (a := (f, a)) (l := held)
      omega

theorem covers_fed (hlate : Late cs) (hapart : Apart cs) (hsep : Separate same cs U)
    (huni : Uniform cs U) {evs : List (Event φ α)} (hlegal : Legal evs)
    (hU : ∀ f a, .added f a ∈ evs → U (f, a)) :
    ∃ held, Covers cs U (live evs) held (fed same cs evs) := by
  induction evs using List.reverseRecOn with
  | nil => exact ⟨[], ⟨rfl, by simp [live]⟩, by simp, by simp [fed], by simp [live], by simp⟩
  | append_singleton evs ev ih =>
    obtain ⟨held, h⟩ := ih hlegal.init fun f a hev => hU f a (List.mem_append_left _ hev)
    rw [fed_snoc]
    cases ev with
    | added f a => exact ⟨_, h.added hlate hapart hsep huni (hU f a (by simp)) fun x =>
        mem_live_added⟩
    | removed f a => exact ⟨_, h.removed hlate hapart hsep hlegal.last fun x hx =>
        mem_live_removed.mp hx⟩

/-- Every item that is not dropped or refused is in the set, as what it becomes. -/
theorem fed_covers (hlate : Late cs) (hapart : Apart cs) (hsep : Separate same cs U)
    (huni : Uniform cs U) {evs : List (Event φ α)} (hlegal : Legal evs)
    (hU : ∀ f a, .added f a ∈ evs → U (f, a)) {x : φ × α} (hx : x ∈ live evs)
    (hr : refused cs x.2 = false) {g : φ} (hg : fate cs x.1 = some g) :
    ∃ b, (g, b) ∈ (fed same cs evs).2 := by
  obtain ⟨held, h⟩ := covers_fed hlate hapart hsep huni hlegal hU
  cases hc : counted cs x.1 with
  | true => exact h.aggregate x (h.loaded.live_held x hx) hc hr g hg
  | false => exact ⟨x.2, h.single x hx hc hr g hg⟩

end

/-! ## Nothing is left behind -/

/-- Items of one aggregate have one label. -/
def Alike (cs : List (Stage φ α)) (U : φ × α → Prop) : Prop :=
  ∀ x y, U x → U y → counted cs x.1 = true → counted cs y.1 = true → fate cs x.1 = fate cs y.1 →
    fate cs x.1 ≠ none → x.2 = y.2

/-- What is sent compares equal to itself. -/
def SelfSame (same : φ → φ → Bool) (cs : List (Stage φ α)) (U : φ × α → Prop) : Prop :=
  ∀ x, U x → refused cs x.2 = false → ∀ g, fate cs x.1 = some g → same g g = true

/-- A counted item is not added again while it is live. -/
def Once [DecidableEq φ] (cs : List (Stage φ α)) (evs : List (Event φ α)) : Prop :=
  ∀ pre f a, pre ++ [.added f a] <+: evs → counted cs f = true → (f, a) ∉ live pre

/-- The set holds what the live items become, and nothing else. -/
structure Mirrors (cs : List (Stage φ α)) (L : List (φ × α))
    (st : List (Stage φ α) × List (φ × α)) : Prop where
  chain : st.1 = load cs (L.map Prod.fst)
  entries : ∀ e ∈ st.2, ∃ f, (f, e.2) ∈ L ∧ refused cs e.2 = false ∧ fate cs f = some e.1
  sent : ∀ x ∈ L, refused cs x.2 = false → ∀ g, fate cs x.1 = some g → (g, x.2) ∈ st.2
  nodup : st.2.Nodup

theorem Mirrors.eq_of_meets (h : Mirrors cs L st) (hU : ∀ x ∈ L, U x) (hsep : Separate same cs U)
    (hUf : U (f, a)) (hr : refused cs a = false) {g : φ} (hg : fate cs f = some g) {e : φ × α}
    (he : e ∈ st.2) (hm : meets same g a e = true) : e = (g, a) := by
  obtain ⟨f', hL, hr', hg'⟩ := h.entries e he
  simp only [meets, Bool.and_eq_true, decide_eq_true_eq] at hm
  exact hsep.eq_of_same (hU _ hL) hr' hg' hUf hr hg hm.1 hm.2

theorem Mirrors.insert (h : Mirrors cs L st) (hU : ∀ x ∈ L, U x) (hsep : Separate same cs U)
    (hself : SelfSame same cs U) (hUf : U (f, a)) (hr : refused cs a = false) {g : φ}
    (hg : fate cs f = some g) :
    (∀ e, e ∈ insertEntry same st.2 g a ↔ e ∈ st.2 ∨ e = (g, a)) ∧
    (insertEntry same st.2 g a).Nodup := by
  unfold insertEntry
  split
  · rename_i hany
    obtain ⟨e, he, hm⟩ := List.any_eq_true.mp hany
    have heq := h.eq_of_meets hU hsep hUf hr hg he hm
    refine ⟨fun e' => ⟨Or.inl, ?_⟩, h.nodup⟩
    rintro (he' | rfl)
    · exact he'
    · exact heq ▸ he
  · rename_i hany
    refine ⟨by simp, List.nodup_append.mpr ⟨h.nodup, by simp, ?_⟩⟩
    intro e he e' he' heq
    rw [List.mem_singleton] at he'
    refine hany (List.any_eq_true.mpr ⟨e, he, ?_⟩)
    rw [heq, he']
    simpa [meets] using hself (f, a) hUf hr g hg

variable [DecidableEq φ]

omit [DecidableEq φ] [DecidableEq α] in
theorem Mirrors.extend (h : Mirrors cs L st) {L' : List (φ × α)} {chain : List (Stage φ α)}
    {V : List (φ × α)} (hchain : chain = load cs (L'.map Prod.fst))
    (hL' : ∀ x, x ∈ L' ↔ x ∈ L ∨ x = (f, a)) (hnodup : V.Nodup)
    (hV : ∀ e, e ∈ V ↔ e ∈ st.2 ∨ (refused cs a = false ∧ fate cs f = some e.1 ∧ e.2 = a)) :
    Mirrors cs L' (chain, V) := by
  refine ⟨hchain, ?_, ?_, hnodup⟩
  · intro e he
    rcases (hV e).mp he with he | ⟨hr, hg, ha⟩
    · obtain ⟨f', hL, hr, hg⟩ := h.entries e he
      exact ⟨f', (hL' _).mpr (Or.inl hL), hr, hg⟩
    · exact ⟨f, (hL' _).mpr (Or.inr (by rw [ha])), by rwa [ha], hg⟩
  · intro x hx hr g hg
    rcases (hL' x).mp hx with hx | rfl
    · exact (hV _).mpr (Or.inl (h.sent x hx hr g hg))
    · exact (hV _).mpr (Or.inr ⟨hr, hg, rfl⟩)

theorem Mirrors.added (h : Mirrors cs L st) (hlate : Late cs) (hapart : Apart cs)
    (hsep : Separate same cs U) (halike : Alike cs U) (hself : SelfSame same cs U)
    (hU : ∀ x ∈ L, U x) (hUf : U (f, a)) (honce : counted cs f = true → (f, a) ∉ L) :
    Mirrors cs (if (f, a) ∈ L then L else L ++ [(f, a)]) (feed same st (.added f a)) := by
  obtain ⟨h1, h2⟩ := add_load hlate hapart (L.map Prod.fst) f a
  rw [← h.chain] at h1 h2
  have hmem : ∀ x, x ∈ (if (f, a) ∈ L then L else L ++ [(f, a)]) ↔ x ∈ L ∨ x = (f, a) := by
    intro x
    split
    · rename_i hfa
      exact ⟨Or.inl, fun hx => hx.elim id fun heq => heq ▸ hfa⟩
    · simp
  have hchain : (add st.1 f a).1 =
      load cs ((if (f, a) ∈ L then L else L ++ [(f, a)]).map Prod.fst) := by
    rw [h1]
    split
    · rename_i hfa
      cases hc : counted cs f with
      | true => exact absurd hfa (honce hc)
      | false => exact load_uncounted cs hc _
    · rw [List.map_append, List.map_singleton]
      exact load_perm cs (List.perm_append_singleton f _).symm
  simp only [feed]
  rcases h2 with ⟨hout, hwhy⟩ | ⟨hout, hr, -⟩
  · rw [hout]
    refine h.extend hchain hmem h.nodup ?_
    intro e
    refine ⟨Or.inl, ?_⟩
    rintro (he | ⟨hr, hg, ha⟩)
    · exact he
    · rcases hwhy with hr' | ⟨hc, f', hf', hc', hfate⟩
      · rw [hr] at hr'; simp at hr'
      · obtain ⟨y, hy, rfl⟩ := List.mem_map.mp hf'
        have hya := halike y (f, a) (hU y hy) hUf hc' hc hfate (by rw [hfate, hg]; simp)
        have := h.sent y hy (by rw [hya]; exact hr) e.1 (hfate.trans hg)
        rwa [hya, ← ha] at this
  · rw [hout]
    cases hg : fate cs f with
    | none =>
      refine h.extend hchain hmem h.nodup ?_
      intro e
      simp [hg]
    | some g =>
      obtain ⟨hmemV, hnodup⟩ := h.insert hU hsep hself hUf hr hg
      refine h.extend hchain hmem hnodup ?_
      intro e
      dsimp only [Option.map_some, Option.getD_some]
      rw [hmemV, hg]
      refine or_congr Iff.rfl ⟨?_, ?_⟩
      · rintro rfl
        exact ⟨hr, rfl, rfl⟩
      · rintro ⟨-, heq, ha⟩
        exact Prod.ext (Option.some.inj heq).symm ha

theorem Mirrors.delete (h : Mirrors cs L st) (hU : ∀ x ∈ L, U x) (hsep : Separate same cs U)
    (hself : SelfSame same cs U) (hfa : (f, a) ∈ L) (hr : refused cs a = false) {g : φ}
    (hg : fate cs f = some g) :
    deleteEntry same st.2 g a = st.2.erase (g, a) := by
  have hown : meets same g a (g, a) = true := by
    simpa [meets] using hself (f, a) (hU _ hfa) hr g hg
  obtain ⟨e, before, after, hbefore, hm, hsplit, herase⟩ :=
    List.exists_of_eraseP (h.sent (f, a) hfa hr g hg) hown
  obtain rfl := h.eq_of_meets hU hsep (hU _ hfa) hr hg (by rw [hsplit]; simp) hm
  have hnotin : (g, a) ∉ before := fun hmem => hbefore _ hmem hown
  unfold deleteEntry
  rw [herase, hsplit, List.erase_append_right _ hnotin, List.erase_cons_head]

theorem Mirrors.kept (h : Mirrors cs L st) (hL : L.Nodup) {chain : List (Stage φ α)}
    (hchain : chain = load cs ((L.erase (f, a)).map Prod.fst))
    (hother : ∀ g, refused cs a = false → fate cs f = some g → ∃ y ∈ L.erase (f, a), y.2 = a ∧
      fate cs y.1 = some g) :
    Mirrors cs (L.erase (f, a)) (chain, st.2) := by
  refine ⟨hchain, ?_, fun x hx => h.sent x (List.mem_of_mem_erase hx), h.nodup⟩
  intro e he
  obtain ⟨f', hf', hr, hg⟩ := h.entries e he
  by_cases heq : (f', e.2) = (f, a)
  · obtain ⟨rfl, hea⟩ := Prod.mk.inj heq
    obtain ⟨y, hy, hya, hgy⟩ := hother e.1 (hea ▸ hr) hg
    have hye : (y.1, e.2) = y := by rw [hea, ← hya]
    exact ⟨y.1, by rw [hye]; exact hy, hr, hgy⟩
  · exact ⟨f', hL.mem_erase_iff.mpr ⟨heq, hf'⟩, hr, hg⟩

theorem Mirrors.removed (h : Mirrors cs L st) (hlate : Late cs) (hapart : Apart cs)
    (hsep : Separate same cs U) (halike : Alike cs U) (hself : SelfSame same cs U)
    (hU : ∀ x ∈ L, U x) (hL : L.Nodup) (hfa : (f, a) ∈ L) :
    Mirrors cs (L.erase (f, a)) (feed same st (.removed f a)) := by
  have hload : st.1 = load cs (f :: (L.erase (f, a)).map Prod.fst) :=
    h.chain.trans (load_perm cs ((List.perm_cons_erase hfa).map Prod.fst))
  obtain ⟨h1, h2⟩ := remove_load hlate hapart ((L.erase (f, a)).map Prod.fst) f a
  rw [← hload] at h1 h2
  simp only [feed]
  rcases h2 with ⟨hout, hwhy⟩ | ⟨hout, hr, hshadow⟩
  · rw [hout]
    refine h.kept hL h1 ?_
    intro g hr hg
    rcases hwhy with hr' | ⟨hc, f', hf', hc', hfate⟩
    · rw [hr] at hr'; simp at hr'
    · obtain ⟨y, hy, rfl⟩ := List.mem_map.mp hf'
      have hyU : U y := hU y (List.mem_of_mem_erase hy)
      exact ⟨y, hy, halike y (f, a) hyU (hU _ hfa) hc' hc hfate (by rw [hfate, hg]; simp),
        hfate.trans hg⟩
  · rw [hout]
    cases hg : fate cs f with
    | none =>
      refine h.kept hL h1 ?_
      intro g _ hg'
      rw [hg] at hg'
      simp at hg'
    | some g =>
      dsimp only [Option.map_some, Option.getD_some]
      rw [h.delete hU hsep hself hfa hr hg]
      refine ⟨h1, ?_, ?_, h.nodup.erase _⟩
      · intro e he
        obtain ⟨hne, he⟩ := h.nodup.mem_erase_iff.mp he
        obtain ⟨f', hf', hr', hg'⟩ := h.entries e he
        refine ⟨f', hL.mem_erase_iff.mpr ⟨?_, hf'⟩, hr', hg'⟩
        intro heq
        obtain ⟨rfl, hea⟩ := Prod.mk.inj heq
        exact hne (Prod.ext (Option.some.inj (hg'.symm.trans hg)) hea)
      · intro x hx hrx g' hg'
        obtain ⟨hne, hxL⟩ := hL.mem_erase_iff.mp hx
        refine h.nodup.mem_erase_iff.mpr ⟨?_, h.sent x hxL hrx g' hg'⟩
        intro heq
        obtain ⟨rfl, hxa⟩ := Prod.mk.inj heq
        have hgg := hself (f, a) (hU _ hfa) hr g' hg
        rcases hsep x (f, a) (hU x hxL) (hU _ hfa) hrx hr g' g' hg' hg hgg (Or.inl hxa) with
            rfl | ⟨hcx, hcf, -⟩
        · exact hne rfl
        · exact hshadow (by simp [hg]) ⟨hcf, x.1, List.mem_map_of_mem hx, hcx, hg'.trans hg.symm⟩

theorem Once.of_prefix {evs pre : List (Event φ α)} (h : Once cs evs) (hpre : pre <+: evs) :
    Once cs pre :=
  fun pre' f a hp => h pre' f a (hp.trans hpre)

theorem once_nil : Once cs ([] : List (Event φ α)) := by
  intro pre f a hp
  simp at hp

theorem Once.added {evs : List (Event φ α)} (h : Once cs evs) (hmem : (f, a) ∉ live evs) :
    Once cs (evs ++ [.added f a]) := by
  intro pre f' a' hp hc
  rcases List.prefix_concat_iff.mp hp with heq | hp
  · obtain ⟨rfl, hev⟩ := List.append_inj' heq rfl
    simp only [List.cons.injEq, Event.added.injEq, and_true] at hev
    rw [hev.1, hev.2]
    exact hmem
  · exact h pre f' a' hp hc

theorem Once.removed {evs : List (Event φ α)} (h : Once cs evs) (f : φ) (a : α) :
    Once cs (evs ++ [.removed f a]) := by
  intro pre f' a' hp
  rcases List.prefix_concat_iff.mp hp with heq | hp
  · have := (List.append_inj' heq rfl).2
    simp at this
  · exact h pre f' a' hp

theorem live_added_mem {evs : List (Event φ α)} (hU : ∀ f a, .added f a ∈ evs → U (f, a)) :
    ∀ x ∈ live evs, U x := by
  induction evs using List.reverseRecOn with
  | nil => simp [live]
  | append_singleton evs ev ih =>
    have ih := ih fun f a hev => hU f a (List.mem_append_left _ hev)
    intro x hx
    cases ev with
    | added f a =>
      rcases mem_live_added hx with hx | rfl
      · exact ih x hx
      · exact hU f a (by simp)
    | removed f a => exact ih x (mem_live_removed.mp hx).2

theorem mirrors_fed (hlate : Late cs) (hapart : Apart cs) (hsep : Separate same cs U)
    (halike : Alike cs U) (hself : SelfSame same cs U) {evs : List (Event φ α)} (hlegal : Legal evs)
    (honce : Once cs evs) (hU : ∀ f a, .added f a ∈ evs → U (f, a)) :
    Mirrors cs (live evs) (fed same cs evs) := by
  induction evs using List.reverseRecOn with
  | nil => exact ⟨rfl, by simp [fed], by simp [live], by simp [fed]⟩
  | append_singleton evs ev ih =>
    have hU' : ∀ f a, .added f a ∈ evs → U (f, a) := fun f a hev =>
      hU f a (List.mem_append_left _ hev)
    have h := ih hlegal.init (honce.of_prefix (List.prefix_append _ _)) hU'
    rw [fed_snoc]
    cases ev with
    | added f a =>
      rw [live_added]
      exact h.added hlate hapart hsep halike hself (live_added_mem hU') (hU f a (by simp))
        (honce evs f a (List.prefix_refl _))
    | removed f a =>
      rw [live_removed]
      exact h.removed hlate hapart hsep halike hself (live_added_mem hU') (live_nodup evs)
        hlegal.last

end

end

end Pipeline
