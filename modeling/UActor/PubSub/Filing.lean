import UActor.PubSub.Router
import UActor.PubSub.IndexProofs

/-!
# Filing a filter

What the two loops of index maintenance do to the indexes of all attributes.
-/

namespace UActor

namespace Router

open Buckets (keys Filed)

abbrev IndexMap := List (String × ConstraintIndex)

/-- The index of an attribute. It is empty where the router has none. -/
def indexAt (m : IndexMap) (a : String) : ConstraintIndex :=
  (Assoc.find a m).getD ConstraintIndex.empty

def itemsAt (m : IndexMap) (a : String) : List ConstraintItem := (indexAt m a).items

theorem indexAt_put (m : IndexMap) (a a' : String) (ix : ConstraintIndex) :
    indexAt (Assoc.put a ix m) a' = if a = a' then ix else indexAt m a' := by
  unfold indexAt
  rw [Assoc.find_put]
  split <;> rfl

theorem indexAt_erase (m : IndexMap) (a a' : String) :
    indexAt (Assoc.erase a m) a' = if a = a' then ConstraintIndex.empty else indexAt m a' := by
  unfold indexAt
  rw [Assoc.find_erase]
  split <;> rfl

def Sound (m : IndexMap) : Prop := ∀ a, (indexAt m a).Sound a

theorem sound_nil : Sound [] := fun a => ConstraintIndex.sound_empty a

theorem Sound.attr_eq {m : IndexMap} (h : Sound m) {a : String} {d : Constraint}
    (hd : d ∈ keys (itemsAt m a)) : d.attr = a := (h a).attr_eq d hd

theorem mem_keys_of_filed {l : List ConstraintItem} {d : Constraint} {s : Nat} {b : Bool}
    (h : Filed l d s b) : d ∈ keys l := by
  obtain ⟨ms, hmem, -⟩ := h
  exact ConstraintIndex.mem_keys hmem

/-! ## One constraint -/

/-- The map after one round of the first loop. -/
def fileOne (sub : Nat) (opt : Bool) (c : Constraint) (m : IndexMap) : IndexMap × Constraint :=
  let r := (indexAt m c.attr).insert c sub opt
  (Assoc.put c.attr r.1 m, r.2)

theorem fileConstraints_cons (sub : Nat) (opt : Bool) (c : Constraint) (cs : List Constraint)
    (m : IndexMap) :
    fileConstraints sub opt (c :: cs) m =
      ((fileConstraints sub opt cs (fileOne sub opt c m).1).1,
        (fileOne sub opt c m).2 :: (fileConstraints sub opt cs (fileOne sub opt c m).1).2) := rfl

theorem itemsAt_fileOne_ne {sub : Nat} {opt : Bool} {c : Constraint} {m : IndexMap} {a : String}
    (h : c.attr ≠ a) : itemsAt (fileOne sub opt c m).1 a = itemsAt m a := by
  unfold itemsAt fileOne
  rw [indexAt_put, if_neg h]

theorem fileOne_spec {m : IndexMap} (hm : Sound m) (sub : Nat) (opt : Bool) (c : Constraint) :
    ConstraintIndex.Inserted (itemsAt m c.attr) c sub opt (itemsAt (fileOne sub opt c m).1 c.attr)
      (fileOne sub opt c m).2 ∧ Sound (fileOne sub opt c m).1 := by
  have hspec := ConstraintIndex.insert_spec (hm c.attr) rfl sub opt
  have hself : indexAt (fileOne sub opt c m).1 c.attr =
      ((indexAt m c.attr).insert c sub opt).1 := by
    unfold fileOne
    rw [indexAt_put, if_pos rfl]
  refine ⟨by unfold itemsAt; rw [hself]; exact hspec.1, ?_⟩
  intro a
  by_cases ha : c.attr = a
  · subst ha
    rw [hself]
    exact hspec.2
  · unfold fileOne
    rw [indexAt_put, if_neg ha]
    exact hm a

/-- The map after one round of the second loop. -/
def dropOne (sub : Nat) (c : Constraint) (m : IndexMap) : IndexMap :=
  match Assoc.find c.attr m with
  | none => m
  | some ix =>
    if (ix.remove c sub).2 then Assoc.erase c.attr m
    else Assoc.put c.attr (ix.remove c sub).1 m

theorem dropConstraints_cons (sub : Nat) (c : Constraint) (cs : List Constraint) (m : IndexMap) :
    dropConstraints sub (c :: cs) m = dropConstraints sub cs (dropOne sub c m) := by
  unfold dropOne
  rw [dropConstraints]
  split <;> simp_all

theorem eq_empty_of_items {ix : ConstraintIndex} (h : ix.items = []) :
    ix = ConstraintIndex.empty := by
  obtain ⟨l, l'⟩ := ix
  simp only [ConstraintIndex.items, List.append_eq_nil_iff] at h
  obtain ⟨rfl, rfl⟩ := h
  rfl

theorem remove_empty (c : Constraint) (sub : Nat) :
    (ConstraintIndex.empty.remove c sub).1 = ConstraintIndex.empty := by
  unfold ConstraintIndex.remove
  split <;> rfl

theorem indexAt_dropOne (sub : Nat) (c : Constraint) (m : IndexMap) (a : String) :
    indexAt (dropOne sub c m) a =
      if c.attr = a then ((indexAt m a).remove c sub).1 else indexAt m a := by
  unfold dropOne
  split
  · rename_i hnone
    split
    · rename_i ha
      subst ha
      have hempty : indexAt m c.attr = ConstraintIndex.empty := by simp [indexAt, hnone]
      rw [hempty, remove_empty]
    · rfl
  · rename_i ix hsome
    have hix : indexAt m c.attr = ix := by simp [indexAt, hsome]
    split
    · rename_i hflag
      rw [indexAt_erase]
      split
      · rename_i ha
        rw [← ha, hix]
        exact (eq_empty_of_items ((ConstraintIndex.remove_flag ix c sub).mp hflag)).symm
      · rfl
    · rw [indexAt_put]
      split
      · rename_i ha
        rw [← ha, hix]
      · rfl

theorem dropOne_spec {m : IndexMap} (hm : Sound m) (sub : Nat) (c : Constraint) :
    ConstraintIndex.Removed (itemsAt m c.attr) c sub (itemsAt (dropOne sub c m) c.attr) ∧
      Sound (dropOne sub c m) := by
  have hspec := ConstraintIndex.remove_spec (hm c.attr) rfl sub
  refine ⟨by unfold itemsAt; rw [indexAt_dropOne, if_pos rfl]; exact hspec.1, ?_⟩
  intro a
  rw [indexAt_dropOne]
  split
  · rename_i ha
    subst ha
    exact hspec.2
  · exact hm a

theorem itemsAt_dropOne_ne {sub : Nat} {c : Constraint} {m : IndexMap} {a : String}
    (h : c.attr ≠ a) :
    itemsAt (dropOne sub c m) a = itemsAt m a := by
  unfold itemsAt
  rw [indexAt_dropOne, if_neg h]

/-! ## Whole lists -/

theorem sound_fileConstraints (sub : Nat) (opt : Bool) (cs : List Constraint) {m : IndexMap}
    (hm : Sound m) : Sound (fileConstraints sub opt cs m).1 := by
  induction cs generalizing m with
  | nil => exact hm
  | cons c cs ih =>
    rw [fileConstraints_cons]
    exact ih (fileOne_spec hm sub opt c).2

theorem sound_dropConstraints (sub : Nat) (cs : List Constraint) {m : IndexMap} (hm : Sound m) :
    Sound (dropConstraints sub cs m) := by
  induction cs generalizing m with
  | nil => exact hm
  | cons c cs ih =>
    rw [dropConstraints_cons]
    exact ih (dropOne_spec hm sub c).2

theorem fileConstraints_length (sub : Nat) (opt : Bool) (cs : List Constraint) (m : IndexMap) :
    (fileConstraints sub opt cs m).2.length = cs.length := by
  induction cs generalizing m with
  | nil => rfl
  | cons c cs ih => rw [fileConstraints_cons]; simp [ih]

/-- Under `d`, subscription `s` is filed with the flag `b`. -/
def FiledIn (m : IndexMap) (d : Constraint) (s : Nat) (b : Bool) : Prop :=
  Filed (itemsAt m d.attr) d s b

/-- No constraint in play answers to two constraints of the list. -/
def Apart (U : Constraint → Prop) (cs : List Constraint) : Prop :=
  cs.Pairwise fun c c' => ∀ e, U e → e.eqv c = true → e.eqv c' = false

/-- All constraints of the indexes are in play. -/
def KeysIn (U : Constraint → Prop) (m : IndexMap) : Prop := ∀ a, ∀ d ∈ keys (itemsAt m a), U d

section

variable {U : Constraint → Prop} (hU : ∀ c, U c → c.eqv c = true)

include hU

theorem wf_itemsAt {m : IndexMap} (hm : Sound m) (hk : KeysIn U m) (a : String) :
    Buckets.Wf (itemsAt m a) :=
  (hm a).wf fun d hd => hU d (hk a d hd)

theorem fileOne_insert {m : IndexMap} (hm : Sound m) (sub : Nat) (opt : Bool) {c : Constraint}
    (hc : U c) (hnot : ∀ d b, d.eqv c = true → ¬ FiledIn m d sub b) :
    Buckets.Insert (itemsAt m c.attr) sub opt (fileOne sub opt c m).2
      (itemsAt (fileOne sub opt c m).1 c.attr) := by
  obtain ⟨hins, -⟩ := fileOne_spec hm sub opt c
  refine hins.toInsert (hU c hc) ?_
  intro d b hd hf
  apply hnot d b hd
  unfold FiledIn
  rwa [Constraint.eqv_attr hd]

theorem fileOne_stored {m : IndexMap} (hm : Sound m) (hk : KeysIn U m) (sub : Nat) (opt : Bool)
    {c : Constraint} (hc : U c) :
    (fileOne sub opt c m).2.eqv c = true ∧ U (fileOne sub opt c m).2 := by
  obtain ⟨hins, -⟩ := fileOne_spec hm sub opt c
  obtain ⟨heq, he | he⟩ := hins.stored (hU c hc)
  · exact ⟨heq, by rwa [he]⟩
  · exact ⟨heq, hk _ _ he⟩

theorem fileOne_filedIn {m : IndexMap} (hm : Sound m) (hk : KeysIn U m) (sub : Nat) (opt : Bool)
    {c : Constraint} (hc : U c) (hnot : ∀ d b, d.eqv c = true → ¬ FiledIn m d sub b)
    (d : Constraint) (s : Nat) (b : Bool) :
    FiledIn (fileOne sub opt c m).1 d s b ↔
      FiledIn m d s b ∨ (d = (fileOne sub opt c m).2 ∧ s = sub ∧ b = opt) := by
  have hins := fileOne_insert hU hm sub opt hc hnot
  have he := Constraint.eqv_attr (fileOne_stored hU hm hk sub opt hc).1
  unfold FiledIn
  by_cases ha : c.attr = d.attr
  · rw [← ha]
    exact hins.filed d s b
  · rw [itemsAt_fileOne_ne ha]
    constructor
    · exact Or.inl
    · rintro (h | ⟨rfl, -, -⟩)
      · exact h
      · exact absurd he.symm ha

theorem fileOne_purge {m : IndexMap} (hm : Sound m) (sub : Nat) (opt : Bool) {c : Constraint}
    (hc : U c) (hnot : ∀ d b, d.eqv c = true → ¬ FiledIn m d sub b) (a : String) :
    Buckets.purge sub (itemsAt (fileOne sub opt c m).1 a) = Buckets.purge sub (itemsAt m a) := by
  by_cases ha : c.attr = a
  · subst ha
    exact (fileOne_insert hU hm sub opt hc hnot).purge_eq
  · rw [itemsAt_fileOne_ne ha]

omit hU in
theorem fileOne_keysIn {m : IndexMap} (hm : Sound m) (hk : KeysIn U m) (sub : Nat) (opt : Bool)
    {c : Constraint} (hc : U c) : KeysIn U (fileOne sub opt c m).1 := by
  intro a d hd
  by_cases ha : c.attr = a
  · subst ha
    rcases (fileOne_spec hm sub opt c).1.mem_keys hd with hd | rfl
    · exact hk _ d hd
    · exact hc
  · rw [itemsAt_fileOne_ne ha] at hd
    exact hk a d hd

/-- The map `m'` is `m` with subscription `sub` filed under the constraints `es`. -/
structure FiledAs (U : Constraint → Prop) (m m' : IndexMap) (sub : Nat) (opt : Bool)
    (cs es : List Constraint) : Prop where
  sound : Sound m'
  keysIn : KeysIn U m'
  stored : List.Forall₂ (fun e c => e.eqv c = true ∧ U e) es cs
  filed : ∀ d s b, FiledIn m' d s b ↔ FiledIn m d s b ∨ (d ∈ es ∧ s = sub ∧ b = opt)
  purge : ∀ a, Buckets.purge sub (itemsAt m' a) = Buckets.purge sub (itemsAt m a)

theorem fileConstraints_spec (sub : Nat) (opt : Bool) (cs : List Constraint) {m : IndexMap}
    (hm : Sound m) (hk : KeysIn U m) (hcs : ∀ c ∈ cs, U c) (hap : Apart U cs)
    (hnot : ∀ c ∈ cs, ∀ d b, d.eqv c = true → ¬ FiledIn m d sub b) :
    FiledAs U m (fileConstraints sub opt cs m).1 sub opt cs (fileConstraints sub opt cs m).2 := by
  induction cs generalizing m with
  | nil => exact ⟨hm, hk, .nil, by simp [fileConstraints], fun a => rfl⟩
  | cons c cs ih =>
    rw [fileConstraints_cons]
    rw [List.forall_mem_cons] at hcs
    obtain ⟨hc, hcs⟩ := hcs
    obtain ⟨hfirst, hap⟩ := List.pairwise_cons.mp hap
    have hnotc := hnot c List.mem_cons_self
    have hone := fileOne_filedIn hU hm hk sub opt hc hnotc
    have hstored := fileOne_stored hU hm hk sub opt hc
    -- The stored constraint answers to `c`, so it answers to no other constraint of the list.
    have hnot' : ∀ c' ∈ cs, ∀ d b, d.eqv c' = true → ¬ FiledIn (fileOne sub opt c m).1 d sub b := by
      intro c' hc' d b hd hf
      rcases (hone d sub b).mp hf with hf | ⟨rfl, -, -⟩
      · exact hnot c' (List.mem_cons_of_mem _ hc') d b hd hf
      · rw [hfirst c' hc' _ hstored.2 hstored.1] at hd
        exact absurd hd (by simp)
    have hrest := ih (fileOne_spec hm sub opt c).2 (fileOne_keysIn hm hk sub opt hc) hcs hap hnot'
    refine ⟨hrest.sound, hrest.keysIn, .cons hstored hrest.stored, ?_, ?_⟩
    · intro d s b
      rw [hrest.filed, hone, List.mem_cons]
      tauto
    · intro a
      rw [hrest.purge, fileOne_purge hU hm sub opt hc hnotc]

omit hU in
theorem stored_mem {es cs : List Constraint}
    (h : List.Forall₂ (fun e c => e.eqv c = true ∧ U e) es cs) {e : Constraint} (he : e ∈ es) :
    ∃ c ∈ cs, e.eqv c = true ∧ U e := by
  induction h with
  | nil => simp at he
  | cons hec h ih =>
    rcases List.mem_cons.mp he with rfl | he
    · exact ⟨_, List.mem_cons_self, hec⟩
    · obtain ⟨c, hc, hec⟩ := ih he
      exact ⟨c, List.mem_cons_of_mem _ hc, hec⟩

omit hU in
theorem stored_nodup {es cs : List Constraint}
    (h : List.Forall₂ (fun e c => e.eqv c = true ∧ U e) es cs) (hap : Apart U cs) : es.Nodup := by
  induction h with
  | nil => exact List.nodup_nil
  | cons hec h ih =>
    obtain ⟨hfirst, hap⟩ := List.pairwise_cons.mp hap
    refine List.nodup_cons.mpr ⟨?_, ih hap⟩
    intro hmem
    obtain ⟨c', hc', hec'⟩ := stored_mem h hmem
    rw [hfirst c' hc' _ hec.2 hec.1] at hec'
    exact absurd hec'.1 (by simp)

theorem dropOne_remove {m : IndexMap} (hm : Sound m) {sub : Nat} {c : Constraint} (hc : U c)
    {b : Bool} (hf : FiledIn m c sub b) :
    Buckets.Remove (itemsAt m c.attr) sub c (itemsAt (dropOne sub c m) c.attr) :=
  (dropOne_spec hm sub c).1.toRemove (hU c hc) (hm c.attr).items_apart hf

theorem dropOne_filedIn {m : IndexMap} (hm : Sound m) (hk : KeysIn U m) {sub : Nat} {c : Constraint}
    (hc : U c) {b : Bool} (hf : FiledIn m c sub b) (d : Constraint) (s : Nat) (b' : Bool) :
    FiledIn (dropOne sub c m) d s b' ↔ FiledIn m d s b' ∧ ¬ (d = c ∧ s = sub) := by
  unfold FiledIn
  by_cases ha : c.attr = d.attr
  · rw [← ha]
    exact (dropOne_remove hU hm hc hf).filed (wf_itemsAt hU hm hk c.attr) d s b'
  · rw [itemsAt_dropOne_ne ha]
    refine ⟨fun h => ⟨h, ?_⟩, And.left⟩
    rintro ⟨rfl, -⟩
    exact ha rfl

omit hU in
theorem dropOne_keysIn {m : IndexMap} (hm : Sound m) (hk : KeysIn U m) (sub : Nat)
    (c : Constraint) :
    KeysIn U (dropOne sub c m) := by
  intro a d hd
  by_cases ha : c.attr = a
  · subst ha
    exact hk _ d ((dropOne_spec hm sub c).1.keys_sublist.subset hd)
  · rw [itemsAt_dropOne_ne ha] at hd
    exact hk a d hd

/-- The map `m'` is `m` without subscription `sub` under the constraints `cs`. -/
structure DroppedAs (U : Constraint → Prop) (m m' : IndexMap) (sub : Nat) (cs : List Constraint) :
    Prop where
  sound : Sound m'
  keysIn : KeysIn U m'
  filed : ∀ d s b, FiledIn m' d s b ↔ FiledIn m d s b ∧ ¬ (d ∈ cs ∧ s = sub)
  purge : ∀ a, Buckets.purge sub (itemsAt m' a) = Buckets.purge sub (itemsAt m a)

theorem dropConstraints_spec (sub : Nat) (cs : List Constraint) {m : IndexMap} (hm : Sound m)
    (hk : KeysIn U m) (hn : cs.Nodup) (hcs : ∀ c ∈ cs, U c ∧ ∃ b, FiledIn m c sub b) :
    DroppedAs U m (dropConstraints sub cs m) sub cs := by
  induction cs generalizing m with
  | nil => exact ⟨hm, hk, by simp [dropConstraints], fun a => rfl⟩
  | cons c cs ih =>
    rw [dropConstraints_cons]
    obtain ⟨hnc, hn⟩ := List.nodup_cons.mp hn
    rw [List.forall_mem_cons] at hcs
    obtain ⟨⟨hc, b, hf⟩, hcs⟩ := hcs
    have hone := dropOne_filedIn hU hm hk hc hf
    have hcs' : ∀ c' ∈ cs, U c' ∧ ∃ b, FiledIn (dropOne sub c m) c' sub b := by
      intro c' hc'
      obtain ⟨hUc', b', hf'⟩ := hcs c' hc'
      refine ⟨hUc', b', (hone c' sub b').mpr ⟨hf', ?_⟩⟩
      rintro ⟨rfl, -⟩
      exact hnc hc'
    have hrest := ih (dropOne_spec hm sub c).2 (dropOne_keysIn hm hk sub c) hn hcs'
    refine ⟨hrest.sound, hrest.keysIn, ?_, ?_⟩
    · intro d s b'
      rw [hrest.filed, hone, List.mem_cons]
      tauto
    · intro a
      rw [hrest.purge]
      by_cases ha : c.attr = a
      · subst ha
        exact (dropOne_remove hU hm hc hf).purge_eq
      · rw [itemsAt_dropOne_ne ha]

end

end Router

end UActor
