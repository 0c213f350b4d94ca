import UActor.Lib.Assoc

/-!
# Publications

`publication.hpp` and `publication.cpp`. A `String` stands for a byte string, one character for
each byte, so its order and its length are those of `std::string`.
-/

namespace UActor

/-! ## Floats -/

/-- A C++ `float`: the 32 bits of the IEEE format. Only its comparisons are used. -/
structure F32 where
  bits : BitVec 32
deriving DecidableEq, Repr

namespace F32

def magnitude (x : F32) : Nat := (x.bits &&& 0x7FFFFFFF).toNat

def isNaN (x : F32) : Bool := 0x7F800000 < x.magnitude

/-- Numbers compare as this key does. Both zeros have the key 0. -/
def key (x : F32) : Int := if x.bits.msb then -x.magnitude else x.magnitude

def eq (x y : F32) : Bool := !x.isNaN && !y.isNaN && x.key == y.key

def lt (x y : F32) : Bool := !x.isNaN && !y.isNaN && x.key < y.key

def le (x y : F32) : Bool := !x.isNaN && !y.isNaN && x.key ≤ y.key

theorem eq_comm (x y : F32) : eq x y = eq y x := by
  simp only [eq, Bool.and_comm (!x.isNaN), Bool.beq_comm (a := x.key)]

theorem eq_iff (x y : F32) : eq x y = true ↔ x.isNaN = false ∧ y.isNaN = false ∧ x.key = y.key := by
  simp [eq, and_assoc]

theorem compare_congr {x y : F32} (h : eq x y = true) (z : F32) :
    eq z x = eq z y ∧ lt z x = lt z y ∧ lt x z = lt y z ∧ le z x = le z y ∧ le x z = le y z := by
  obtain ⟨hx, hy, hk⟩ := (eq_iff x y).mp h
  simp [eq, lt, le, hx, hy, hk]

end F32

/-! ## Values and maps -/

/-- `Publication::Map::VariantType`. -/
inductive Variant where
  | str (v : String)
  | int (v : Int32)
  | float (v : F32)
  | bin (v : List UInt8)
  | map (m : List (String × Variant))
deriving Repr

/-- The value is a string, an integer or a float. -/
def Variant.isScalar : Variant → Bool
  | .str _ | .int _ | .float _ => true
  | .bin _ | .map _ => false

abbrev Map := List (String × Variant)

namespace Map

def hasAttr (m : Map) (name : String) : Bool := (Assoc.find name m).isSome

def getAttr (m : Map) (name : String) : Option Variant := Assoc.find name m

def getStrAttr (m : Map) (name : String) : Option String :=
  match Assoc.find name m with
  | some (.str v) => some v
  | _ => none

def getIntAttr (m : Map) (name : String) : Option Int32 :=
  match Assoc.find name m with
  | some (.int v) => some v
  | _ => none

def getFloatAttr (m : Map) (name : String) : Option F32 :=
  match Assoc.find name m with
  | some (.float v) => some v
  | _ => none

def getNestedComponent (m : Map) (name : String) : Option Map :=
  match Assoc.find name m with
  | some (.map v) => some v
  | _ => none

def setAttr (m : Map) (name : String) (v : Variant) : Map := Assoc.put name v m

def eraseAttr (m : Map) (name : String) : Map := Assoc.erase name m

def hasMapAttrs (m : Map) : Bool := m.any fun e => match e.2 with | .map _ => true | _ => false

end Map

mutual

/-- One assignment of the copy constructor of `Map`. It has no case for binary values. -/
def Variant.copy : Variant → Option Variant
  | .str v => some (.str v)
  | .int v => some (.int v)
  | .float v => some (.float v)
  | .bin _ => none
  | .map m => some (.map (Map.copy m))

def Map.copy : List (String × Variant) → List (String × Variant)
  | [] => []
  | (k, v) :: m =>
    match Variant.copy v with
    | some v' => (k, v') :: Map.copy m
    | none => Map.copy m

end

theorem Map.copy_keys_sublist (m : Map) : (Assoc.keys (Map.copy m)).Sublist (Assoc.keys m) := by
  induction m with
  | nil => exact List.Sublist.refl _
  | cons e m ih =>
    simp only [Map.copy, Assoc.keys, List.map_cons] at ih ⊢
    cases e.2.copy with
    | some v => exact ih.cons_cons _
    | none => exact ih.cons _

theorem Map.find_copy {m : Map} (hm : (Assoc.keys m).Nodup) (name : String) :
    Assoc.find name (Map.copy m) = (Assoc.find name m).bind Variant.copy := by
  induction m with
  | nil => rfl
  | cons e m ih =>
    obtain ⟨k, v⟩ := e
    simp only [Assoc.keys, List.map_cons, List.nodup_cons] at hm
    have ih := ih hm.2
    simp only [Map.copy, Assoc.find]
    by_cases hk : k = name
    · rw [if_pos hk, Option.bind_some]
      cases hv : v.copy with
      | some v' => simp [Assoc.find, hk]
      | none =>
        -- a value that is not copied leaves no other one behind
        have habsent : Assoc.find name m = none := Assoc.find_eq_none.mpr (hk ▸ hm.1)
        simp [ih, habsent]
    · rw [if_neg hk, ← ih]
      cases hv : v.copy with
      | some v' => simp [Assoc.find, hk]
      | none => rfl

mutual

/-- There is no binary value, at any depth. -/
def Variant.plain : Variant → Bool
  | .bin _ => false
  | .map m => Map.plain m
  | .str _ | .int _ | .float _ => true

def Map.plain : List (String × Variant) → Bool
  | [] => true
  | (_, v) :: m => Variant.plain v && Map.plain m

end

mutual

theorem Variant.copy_of_plain : ∀ v : Variant, v.plain = true → v.copy = some v
  | .str _, _ => rfl
  | .int _, _ => rfl
  | .float _, _ => rfl
  | .bin _, h => by simp [Variant.plain] at h
  | .map m, h => by rw [Variant.copy, Map.copy_of_plain m h]

theorem Map.copy_of_plain : ∀ m : List (String × Variant), Map.plain m = true → Map.copy m = m
  | [], _ => rfl
  | (k, v) :: m, h => by
    obtain ⟨hv, hm⟩ := (Bool.and_eq_true _ _).mp h
    rw [Map.copy, Variant.copy_of_plain v hv, Map.copy_of_plain m hm]

end

theorem Map.plain_iff {m : Map} : Map.plain m = true ↔ ∀ e ∈ m, e.2.plain = true := by
  induction m with
  | nil => simp [Map.plain]
  | cons e m ih => simp [Map.plain, ih]

/-! ## Publications -/

/-- The attributes of a publication that holds its map, that is, was not moved from. -/
structure Publication where
  attributes : Map
  unique : (Assoc.keys attributes).Nodup

namespace Publication

def empty : Publication := ⟨[], List.nodup_nil⟩

def hasAttr (p : Publication) (name : String) : Bool := p.attributes.hasAttr name

def getAttr (p : Publication) (name : String) : Option Variant := p.attributes.getAttr name

def getStrAttr (p : Publication) (name : String) : Option String := p.attributes.getStrAttr name

def getIntAttr (p : Publication) (name : String) : Option Int32 := p.attributes.getIntAttr name

def setAttr (p : Publication) (name : String) (v : Variant) : Publication :=
  ⟨p.attributes.setAttr name v, Assoc.keys_put_nodup p.unique name v⟩

/-- `Publication(publisher_node_id, publisher_actor_type, publisher_instance_id)`. -/
def ofPublisher (node_id actor_type instance_id : String) : Publication :=
  ((empty.setAttr "publisher_node_id" (.str node_id)).setAttr "publisher_instance_id"
    (.str instance_id)).setAttr "publisher_actor_type" (.str actor_type)

def isScalar (p : Publication) : Bool := p.attributes.all fun e => e.2.isScalar

/-- The copy constructor: it shares the map unless an attribute is a map itself. -/
def copy (p : Publication) : Publication :=
  if p.attributes.hasMapAttrs then
    ⟨Map.copy p.attributes, p.unique.sublist (Map.copy_keys_sublist p.attributes)⟩
  else p

theorem copy_eq_of_plain {p : Publication} (h : Map.plain p.attributes = true) : p.copy = p := by
  unfold copy
  split
  · cases p
    simp only [Publication.mk.injEq]
    exact Map.copy_of_plain _ h
  · rfl

@[simp] theorem setAttr_attributes (p : Publication) (name : String) (v : Variant) :
    (p.setAttr name v).attributes = Assoc.put name v p.attributes := rfl

theorem hasAttr_of_getStrAttr {p : Publication} {name value : String}
    (h : p.getStrAttr name = some value) :
    p.hasAttr name = true := by
  unfold getStrAttr Map.getStrAttr at h
  unfold hasAttr Map.hasAttr
  cases hfind : Assoc.find name p.attributes with
  | none =>
    rw [hfind] at h
    exact absurd h (by simp)
  | some v => rfl

theorem getAttr_setAttr (p : Publication) (name name' : String) (v : Variant) :
    (p.setAttr name' v).getAttr name = if name' = name then some v else p.getAttr name :=
  Assoc.find_put name name' v p.attributes

theorem getStrAttr_setAttr_ne (p : Publication) {name name' : String} (h : name' ≠ name)
    (v : Variant) :
    (p.setAttr name' v).getStrAttr name = p.getStrAttr name := by
  simp only [getStrAttr, Map.getStrAttr, setAttr_attributes, Assoc.find_put_ne h]

theorem getIntAttr_setAttr_ne (p : Publication) {name name' : String} (h : name' ≠ name)
    (v : Variant) :
    (p.setAttr name' v).getIntAttr name = p.getIntAttr name := by
  simp only [getIntAttr, Map.getIntAttr, setAttr_attributes, Assoc.find_put_ne h]

theorem hasAttr_setAttr_ne (p : Publication) {name name' : String} (h : name' ≠ name)
    (v : Variant) :
    (p.setAttr name' v).hasAttr name = p.hasAttr name := by
  simp only [hasAttr, Map.hasAttr, setAttr_attributes, Assoc.find_put_ne h]

@[simp] theorem getStrAttr_setAttr_self (p : Publication) (name v : String) :
    (p.setAttr name (.str v)).getStrAttr name = some v := by
  simp [getStrAttr, Map.getStrAttr]

@[simp] theorem getIntAttr_setAttr_self (p : Publication) (name : String) (v : Int32) :
    (p.setAttr name (.int v)).getIntAttr name = some v := by
  simp [getIntAttr, Map.getIntAttr]

theorem getStrAttr_copy (p : Publication) (name : String) :
    p.copy.getStrAttr name = p.getStrAttr name := by
  unfold copy
  split
  · simp only [getStrAttr, Map.getStrAttr, Map.find_copy p.unique]
    rcases Assoc.find name p.attributes with _ | (_ | _ | _ | _ | _) <;> simp [Variant.copy]
  · rfl

theorem getIntAttr_copy (p : Publication) (name : String) :
    p.copy.getIntAttr name = p.getIntAttr name := by
  unfold copy
  split
  · simp only [getIntAttr, Map.getIntAttr, Map.find_copy p.unique]
    rcases Assoc.find name p.attributes with _ | (_ | _ | _ | _ | _) <;> simp [Variant.copy]
  · rfl

theorem hasAttr_copy {p : Publication} {name : String} (h : p.hasAttr name = false) :
    p.copy.hasAttr name = false := by
  unfold copy
  split
  · have hfind : Assoc.find name p.attributes = none := by simpa [hasAttr, Map.hasAttr] using h
    simp [hasAttr, Map.hasAttr, Map.find_copy p.unique, hfind]
  · exact h

end Publication

end UActor
