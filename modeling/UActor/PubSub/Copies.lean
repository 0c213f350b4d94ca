import UActor.PubSub.Sharing

/-!
# What copies of a map hold

The copy constructor and `operator=` of `Publication::Map`, and what a write to a shared publication
leaves of its attributes. Both have no case for binary values, and `operator=` writes into the map
that is there.
-/

namespace UActor

open Handles

/-! ## The two copies of a map -/

namespace Map

/-- One step of the loop of `operator=`. -/
def assignEntry (data : Map) (e : String × Variant) : Map :=
  match e.2.copy with
  | some v => Assoc.put e.1 v data
  | none => data

/-- `Map::operator=(const Map& old)`. -/
def assign (data old : Map) : Map := old.foldl assignEntry data

/-- The entry is a binary value that the map has already. -/
def present (data : Map) (e : String × Variant) : Prop :=
  ∃ v, e.2 = .bin v ∧ Assoc.find e.1 data = some (.bin v)

end Map

theorem Map.copy_length_le (m : Map) : (Map.copy m).length ≤ m.length := by
  have h := (Map.copy_keys_sublist m).length_le
  simpa [Assoc.keys] using h

mutual

theorem Variant.plain_of_copy : ∀ v : Variant, v.copy = some v → v.plain = true
  | .str _, _ | .int _, _ | .float _, _ => rfl
  | .bin _, h => by cases h
  | .map m, h => by
    rw [Variant.copy, Option.some.injEq, Variant.map.injEq] at h
    exact Map.plain_of_copy m h

theorem Map.plain_of_copy : ∀ m : List (String × Variant), Map.copy m = m → Map.plain m = true
  | [], _ => rfl
  | (k, v) :: m, h => by
    rw [Map.copy] at h
    cases hv : v.copy with
    | none =>
      -- a map that lost an entry is shorter
      rw [hv] at h
      have hlen := congrArg List.length h
      have := Map.copy_length_le m
      rw [List.length_cons] at hlen
      simp only at hlen
      omega
    | some v' =>
      rw [hv] at h
      obtain ⟨hhead, hm⟩ := List.cons.inj h
      have hv' := hv.trans (congrArg some (Prod.mk.inj hhead).2)
      rw [Map.plain, Variant.plain_of_copy v hv', Map.plain_of_copy m hm]
      rfl

end

/-- A value is copied as it is if and only if there is nothing binary in it. -/
theorem Map.find_copy_eq_iff {m : Map} (hm : (Assoc.keys m).Nodup) (P : String → Prop) :
    (∀ k, P k → Assoc.find k (Map.copy m) = Assoc.find k m) ↔ ∀ e ∈ m, P e.1 →
      e.2.plain = true := by
  constructor
  · intro h e he hP
    have hfind := Assoc.find_of_mem hm he
    have hk := h e.1 hP
    rw [Map.find_copy hm, hfind, Option.bind_some] at hk
    exact Variant.plain_of_copy e.2 hk
  · intro h k hP
    rw [Map.find_copy hm]
    cases hfind : Assoc.find k m with
    | none => rfl
    | some v => exact Variant.copy_of_plain v (h (k, v) (Assoc.mem_of_find hfind) hP)

theorem Map.find_copy_all_iff {m : Map} (hm : (Assoc.keys m).Nodup) :
    (∀ k, Assoc.find k (Map.copy m) = Assoc.find k m) ↔ Map.plain m = true := by
  rw [Map.plain_iff]
  have h := Map.find_copy_eq_iff hm fun _ => True
  simpa using h

theorem Map.find_assign {m : Map} (hm : (Assoc.keys m).Nodup) (x : Map) (k : String) :
    Assoc.find k (Map.assign x m) = ((Assoc.find k m).bind Variant.copy).or (Assoc.find k x) := by
  unfold Map.assign
  induction m generalizing x with
  | nil => rfl
  | cons e m ih =>
    obtain ⟨k', v⟩ := e
    simp only [Assoc.keys, List.map_cons, List.nodup_cons] at hm
    rw [List.foldl_cons, ih hm.2]
    unfold Map.assignEntry
    simp only [Assoc.find]
    by_cases hk : k' = k
    · have habsent : Assoc.find k m = none := Assoc.find_eq_none.mpr (hk ▸ hm.1)
      rw [if_pos hk, habsent]
      cases hv : v.copy with
      | none => simp [hv]
      | some v' => simp [hv, hk]
    · rw [if_neg hk]
      cases hv : v.copy with
      | none => rfl
      | some v' => rw [Assoc.find_put_ne hk]

theorem Map.find_assign_iff {m : Map} (hm : (Assoc.keys m).Nodup) (x : Map) :
    (∀ k, Assoc.find k (Map.assign x m) = Assoc.find k m) ↔
      (∀ k ∈ Assoc.keys x, k ∈ Assoc.keys m) ∧ ∀ e ∈ m, e.2.plain = true ∨ Map.present x e := by
  constructor
  · intro h
    refine ⟨fun k hk => ?_, fun e he => ?_⟩
    · by_contra habsent
      have hnone := Assoc.find_eq_none.mpr habsent
      have hfind := h k
      rw [Map.find_assign hm, hnone] at hfind
      exact Assoc.find_eq_none.mp hfind hk
    · have hfind := h e.1
      rw [Map.find_assign hm, Assoc.find_of_mem hm he, Option.bind_some] at hfind
      cases hv : e.2 with
      | bin v =>
        rw [hv] at hfind
        exact Or.inr ⟨v, hv, hfind⟩
      | str | int | float => exact Or.inl rfl
      | map m' =>
        rw [hv] at hfind
        exact Or.inl (Variant.plain_of_copy _ hfind)
  · rintro ⟨hkeys, hm'⟩ k
    rw [Map.find_assign hm]
    cases hfind : Assoc.find k m with
    | none =>
      refine Assoc.find_eq_none.mpr fun hk => ?_
      exact Assoc.find_eq_none.mp hfind (hkeys k hk)
    | some v =>
      rw [Option.bind_some]
      rcases hm' (k, v) (Assoc.mem_of_find hfind) with hplain | ⟨b, rfl, hb⟩
      · rw [Variant.copy_of_plain v hplain]
        rfl
      · exact hb

/-! ## Publications -/

namespace Objects

/-- The attributes that the object at `self` shows. -/
def shown (s : Objects) (self : Nat) : Option Map := s.view[self]?.join

/-- `Publication::deep_copy`. An object that was moved from has no map to copy. -/
def deepCopy (s : Objects) (self : Nat) : Option Objects :=
  (s.source self).map fun (_, m) => (s.alloc (Map.copy m)).seat self ⟨some s.cells.length, false⟩

/-- The object at `self` is a shallow copy. -/
def isShallowCopy (s : Objects) (self : Nat) : Bool :=
  (s.handles[self]?.map Handle.shallow).getD false

theorem shown_seat_alloc {s : Objects} {self : Nat} (hself : self < s.handles.length) (m : Map) :
    shown ((s.alloc m).seat self ⟨some s.cells.length, false⟩) self = some m := by
  unfold shown
  have hlen : self < (s.alloc m).view.length := by simpa [Heap.view, Heap.alloc] using hself
  rw [view_seat, List.getElem?_set_self hlen, read_alloc]
  rfl

theorem source_of_shown {s : Objects} {self : Nat} {m : Map} (h : s.shown self = some m) :
    ∃ r x, s.source self = some (r, m) ∧ s.handles[self]? = some x ∧ x.ref = some r ∧
      s.cells[r]? = some m := by
  unfold shown at h
  rw [join_view, Option.map_eq_some_iff] at h
  obtain ⟨⟨r, m'⟩, hsource, rfl⟩ := h
  obtain ⟨x, hx, hr, hm⟩ := source_eq_some.mp hsource
  exact ⟨r, x, hsource, hx, hr, hm⟩

theorem deepCopy_spec {s : Objects} {self : Nat} {m : Map} (h : s.shown self = some m) :
    ∃ s', s.deepCopy self = some s' ∧ s'.shown self = some (Map.copy m) := by
  obtain ⟨r, x, hsource, hx, -, -⟩ := source_of_shown h
  refine ⟨_, by rw [deepCopy, hsource]; rfl, ?_⟩
  exact shown_seat_alloc (List.getElem?_eq_some_iff.mp hx).1 _

theorem update_spec {s : Objects} {self : Nat} {m : Map} (h : s.shown self = some m)
    (hshallow : s.isShallowCopy self = true) (f : Map → Map) :
    ∃ s', s.update self f = some s' ∧ s'.shown self = some (f (Map.copy m)) := by
  obtain ⟨r, x, -, hx, hr, hm⟩ := source_of_shown h
  have hflag : x.shallow = true := by simpa [isShallowCopy, hx] using hshallow
  refine ⟨(s.alloc (f (Map.copy m))).seat self ⟨some s.cells.length, false⟩, ?_, ?_⟩
  · simp only [update, hx, Option.bind_some, hr, hm, Option.map_some, hflag, if_true]
  · exact shown_seat_alloc (List.getElem?_eq_some_iff.mp hx).1 _

end Objects

/-- The attributes that `P` picks are the same in the two maps. -/
def Map.AgreeOn (P : String → Prop) (m m' : Map) : Prop :=
  ∀ k, P k → Assoc.find k m' = Assoc.find k m

theorem Map.agreeOn_setAttr (m m' : Map) (name : String) (v : Variant) :
    Map.AgreeOn (· ≠ name) m (m'.setAttr name v) ↔ Map.AgreeOn (· ≠ name) m m' := by
  refine forall₂_congr fun k hk => ?_
  rw [Map.setAttr, Assoc.find_put_ne (Ne.symm hk)]

theorem Map.agreeOn_eraseAttr (m m' : Map) (name : String) :
    Map.AgreeOn (· ≠ name) m (m'.eraseAttr name) ↔ Map.AgreeOn (· ≠ name) m m' := by
  refine forall₂_congr fun k hk => ?_
  rw [Map.eraseAttr, Assoc.find_erase, if_neg (Ne.symm hk)]

/-- When each of the copies is complete. -/
theorem copies_complete_iff (m : Map) (hm : (Assoc.keys m).Nodup) :
    ((∀ k, Assoc.find k (Map.copy m) = Assoc.find k m) ↔ Map.plain m = true) ∧
    (∀ x : Map, (∀ k, Assoc.find k (Map.assign x m) = Assoc.find k m) ↔
      (∀ k ∈ Assoc.keys x, k ∈ Assoc.keys m) ∧ ∀ e ∈ m, e.2.plain = true ∨ Map.present x e) ∧
    (∀ (s : Objects) (self : Nat), s.shown self = some m →
      ∃ s' m', s.deepCopy self = some s' ∧ s'.shown self = some m' ∧
        ((∀ k, Assoc.find k m' = Assoc.find k m) ↔ Map.plain m = true)) ∧
    (∀ (s : Objects) (self : Nat), s.shown self = some m → s.isShallowCopy self = true →
      ∀ (name : String) (v : Variant),
      ∃ s' m', s.step (.setAttr self name v) = some s' ∧ s'.shown self = some m' ∧
        (Map.AgreeOn (· ≠ name) m m' ↔ ∀ e ∈ m, e.1 ≠ name → e.2.plain = true)) ∧
    ∀ (s : Objects) (self : Nat), s.shown self = some m → s.isShallowCopy self = true → ∀ name :
    String,
      ∃ s' m', s.step (.eraseAttr self name) = some s' ∧ s'.shown self = some m' ∧
        (Map.AgreeOn (· ≠ name) m m' ↔ ∀ e ∈ m, e.1 ≠ name → e.2.plain = true) := by
  refine ⟨Map.find_copy_all_iff hm, Map.find_assign_iff hm, ?_, ?_, ?_⟩
  · intro s self h
    obtain ⟨s', hs', hshown⟩ := Objects.deepCopy_spec h
    exact ⟨s', _, hs', hshown, Map.find_copy_all_iff hm⟩
  · intro s self h hshallow name v
    obtain ⟨s', hs', hshown⟩ := Objects.update_spec h hshallow fun m => m.setAttr name v
    exact ⟨s', _, hs', hshown, (Map.agreeOn_setAttr _ _ _ _).trans (Map.find_copy_eq_iff hm _)⟩
  · intro s self h hshallow name
    obtain ⟨s', hs', hshown⟩ := Objects.update_spec h hshallow fun m => m.eraseAttr name
    exact ⟨s', _, hs', hshown, (Map.agreeOn_eraseAttr _ _ _).trans (Map.find_copy_eq_iff hm _)⟩

/-- A map in a map is copied as a whole. -/
theorem copies_complete_nested :
    (∀ k, Assoc.find k (Map.copy [("a", .str "x"), ("b", .map [("c", .int 1)])]) =
      Assoc.find k [("a", .str "x"), ("b", .map [("c", .int 1)])]) ∧
    ∀ k, Assoc.find k (Map.assign [("b", .float ⟨0⟩)]
      [("a", .str "x"), ("b", .map [("c", .int 1)])]) =
      Assoc.find k [("a", .str "x"), ("b", .map [("c", .int 1)])] := by
  have h := copies_complete_iff [("a", .str "x"), ("b", .map [("c", .int 1)])] (by decide)
  refine ⟨h.1.mpr (by decide), (h.2.1 _).mpr ⟨by decide, fun e he => Or.inl ?_⟩⟩
  exact Map.plain_iff.mp (by decide) e he

/-- A publication with a binary attribute is shared, and the copy is written to: the attribute is
gone. An assigned map keeps a key that the other one does not have. -/
theorem binary_attribute_lost :
    (∃ s s', Objects.run [.construct [("type", .str "t"), ("code", .bin [1, 2])], .copyConstruct
      0] = some s ∧
      s.shown 1 = some [("type", .str "t"), ("code", .bin [1, 2])] ∧ s.isShallowCopy 1 = true ∧
      s.step (.setAttr 1 "seq" (.int 1)) = some s' ∧
      s'.shown 1 = some [("type", .str "t"), ("seq", .int 1)]) ∧
    Map.copy [("code", .bin [1, 2])] = [] ∧
    Map.assign [("old", .int 1)] [("new", .int 2)] = [("old", .int 1), ("new", .int 2)] ∧
    ¬ ∀ k, Assoc.find k (Map.copy [("code", .bin [1, 2])]) =
      Assoc.find k [("code", .bin [1, 2])] := by
  refine ⟨⟨_, _, rfl, rfl, rfl, rfl, rfl⟩, rfl, rfl, fun h => ?_⟩
  have := h "code"
  cases this

end UActor
