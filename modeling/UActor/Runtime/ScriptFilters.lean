import Mathlib.Algebra.Group.Nat.Defs
import UActor.PubSub.FilterMap

/-!
# Filters of scripts

`ManagedLuaActor::parse_constraint` and `V8Runtime::TypeUtils::parse_constraint`. A parser has no
result (`none`) if it throws or raises an error, and an empty one (`some none`) if it returns
`std::nullopt`. A double is its 64 bits. Lua is built with `LUA_32BITS`: a `lua_Integer` has 32
bits, and a `lua_Number` is a `float`.
-/

namespace UActor

namespace Predicate

def index : Predicate → Nat
  | EQ => 1 | NE => 2 | LT => 3 | GT => 4 | GE => 5 | LE => 6 | PF => 7 | SF => 8 | CT =>
      9 | MAP_ALL => 10

def ofIndex (i : Int32) : Option Predicate :=
  [EQ, NE, LT, GT, GE, LE, PF, SF, CT, MAP_ALL].find? fun p => Int32.ofNat p.index == i

end Predicate

namespace ScriptFilters

/-- A `std::string` that is made from a C string. -/
def cString (s : String) : String := String.ofList (s.toList.takeWhile fun c => c != '\x00')

abbrev Parsed := Option (Option Constraint)

/-! ## Doubles -/

def exponent (x : BitVec 64) : Nat := ((x >>> 52) &&& 0x7FF).toNat

def mantissa (x : BitVec 64) : Nat := (x &&& 0xFFFFFFFFFFFFF).toNat

/-- `std::modf` leaves nothing behind the point. -/
def isWhole (x : BitVec 64) : Bool :=
  if exponent x = 0 ∨ exponent x = 2047 then mantissa x = 0
  else 1075 ≤ exponent x || (2 ^ 52 + mantissa x) % 2 ^ (1075 - exponent x) == 0

/-- The cast to an integer. -/
def truncate (x : BitVec 64) : Int :=
  let magnitude : Nat :=
    if exponent x = 0 then 0
    else if 1075 ≤ exponent x then (2 ^ 52 + mantissa x) * 2 ^ (exponent x - 1075)
    else (2 ^ 52 + mantissa x) / 2 ^ (1075 - exponent x)
  if x.msb then -magnitude else magnitude

/-! ## Lua -/

inductive LuaKey where
  | index (i : Nat)
  | field (name : String)
deriving DecidableEq, Repr

/-- A table lists its entries in the order of `lua_next`. -/
inductive LuaValue where
  | boolean (b : Bool)
  | integer (i : Int32)
  | number (x : F32)
  | string (s : String)
  | table (entries : List (LuaKey × LuaValue))

def LuaKey.tostring : LuaKey → String
  | .index i => toString i
  | .field name => name

namespace Lua

/-- The constraints that were parsed. The empty results among them are left out. -/
def gather : List Parsed → Option (List Constraint)
  | [] => some []
  | none :: _ => none
  | some none :: parsed => gather parsed
  | some (some c) :: parsed => (gather parsed).map (c :: ·)

def predicate : Option LuaValue → Option Predicate
  | some (.integer i) => Predicate.ofIndex i
  | _ => none

def optional : Option LuaValue → Bool
  | some (.boolean b) => b
  | _ => false

/-- The conversions to `float`: of the strings that Lua takes for numbers, and of doubles. -/
structure Conversions where
  tonumber : String → Option F32
  narrow : BitVec 64 → F32

variable (conv : Conversions)

/-- The operand of a complex operator. A string that Lua can convert is a number too. -/
def withOperand (key : String) (operation : Predicate) (opt : Bool)
    (nested : Option (List Constraint)) :
    Option LuaValue → Parsed
  | some (.integer number) => (Constraint.ofInt key number operation opt).map some
  | some (.number number) => (Constraint.ofFloat key number operation opt).map some
  | some (.string value) =>
    match conv.tonumber value with
    | some number => (Constraint.ofFloat key number operation opt).map some
    | none => (Constraint.ofStr key (cString value) operation opt).map some
  | some (.table _) => nested.bind fun constraints =>
      (Constraint.ofList key constraints operation opt).map some
  | some (.boolean _) | none => some none

mutual

def parseConstraint (key : String) : LuaValue → Parsed
  | .string value => (Constraint.ofStr key (cString value) .EQ false).map some
  | .integer value => (Constraint.ofInt key value .EQ false).map some
  | .number value => (Constraint.ofFloat key value .EQ false).map some
  | .table entries =>
    (predicate (Assoc.find (.index 1) entries)).bind fun operation =>
      withOperand conv key operation (optional (Assoc.find (.field "optional") entries))
        (gather (second entries)) (Assoc.find (.index 2) entries)
  | .boolean _ => some none

/-- The constraints in the table that stands at the second place. -/
def second : List (LuaKey × LuaValue) → List Parsed
  | [] => []
  | (k, v) :: entries => if k = .index 2 then nested v else second entries

def nested : LuaValue → List Parsed
  | .table entries => parseEntries entries
  | .boolean _ | .integer _ | .number _ | .string _ => []

def parseEntries : List (LuaKey × LuaValue) → List Parsed
  | [] => []
  | (k, v) :: entries => parseConstraint (cString k.tostring) v :: parseEntries entries

end

end Lua

/-! ## JavaScript -/

/-- The kinds of values that V8 tells apart. -/
inductive JsValue where
  | boolean (b : Bool)
  | int32 (i : Int32)
  | uint32 (i : UInt32)
  | double (x : BitVec 64)
  | string (s : String)
  | array (elements : List JsValue)
  | object (fields : List (String × JsValue))

namespace Js

/-- `parse_number`, with the casts that follow it. -/
def parseNumber (narrow : BitVec 64 → F32) : JsValue → Option (Int32 ⊕ F32)
  | .int32 i => some (.inl i)
  | .uint32 i => some (.inl i.toInt32)
  | .double x => some (if isWhole x then .inl (Int32.ofInt (truncate x)) else .inr (narrow x))
  | .boolean _ | .string _ | .array _ | .object _ => none

def optional : Option JsValue → Option Bool
  | none => some false
  | some (.boolean b) => some b
  | some _ => none

/-- The predicate is looked at, and its value is dropped. -/
def predicate : Option JsValue → Option Predicate
  | none => some .EQ
  | some (.int32 i) => if 0 ≤ i then some .EQ else none
  | some (.uint32 _) => some .EQ
  | some _ => none

def withOperand (narrow : BitVec 64 → F32) (attr : String) (predicate : Predicate) (opt : Bool)
    (filters : Option (Option (List Constraint))) (operand : JsValue) : Parsed :=
  match parseNumber narrow operand with
  | some (.inl number) => (Constraint.ofInt attr number predicate opt).map some
  | some (.inr number) => (Constraint.ofFloat attr number predicate opt).map some
  | none =>
    match operand with
    | .string value => (Constraint.ofStr attr (cString value) predicate opt).map some
    | .array _ => filters.bind fun filters =>
      match filters with
      | some filters => (Constraint.ofList attr filters predicate opt).map some
      | none => some none
    | _ => some none

mutual

def parseConstraint (narrow : BitVec 64 → F32) : JsValue → Parsed
  | .object fields =>
    match Assoc.find "attribute" fields, optional (Assoc.find "optional" fields),
      predicate (Assoc.find "predicate" fields), Assoc.find "operand" fields with
    | some (.string attr), some opt, some p, some operand =>
      withOperand narrow (cString attr) p opt (operandFilters narrow fields) operand
    | _, _, _, _ => some none
  | .boolean _ | .int32 _ | .uint32 _ | .double _ | .string _ | .array _ => some none

def operandFilters (narrow : BitVec 64 → F32) :
    List (String × JsValue) → Option (Option (List Constraint))
  | [] => some none
  | (k, v) :: fields =>
    if k = "operand" then parseElements narrow v else operandFilters narrow fields

def parseElements (narrow : BitVec 64 → F32) : JsValue → Option (Option (List Constraint))
  | .array elements => parseFilterList narrow elements
  | .boolean _ | .int32 _ | .uint32 _ | .double _ | .string _ | .object _ => some none

def parseFilterList (narrow : BitVec 64 → F32) : List JsValue → Option (Option (List Constraint))
  | [] => some (some [])
  | v :: constraints =>
    (parseConstraint narrow v).bind fun parsed =>
      match parsed with
      | none => some none
      | some c => (parseFilterList narrow constraints).map fun rest => rest.map (c :: ·)

end

end Js

/-! ## Descriptions -/

/-- What a script writes down as a constraint. Numbers with a fraction are kept as doubles. -/
inductive Description where
  | str (attr operand : String) (op : Predicate) (opt : Bool)
  | int (attr : String) (operand : Int32) (op : Predicate) (opt : Bool)
  | float (attr : String) (operand : { x : BitVec 64 // isWhole x = false }) (op : Predicate)
      (opt : Bool)
  | list (attr : String) (operand : List Description) (op : Predicate) (opt : Bool)

namespace Description

def attr : Description → String
  | .str a _ _ _ | .int a _ _ _ | .float a _ _ _ | .list a _ _ _ => a

end Description

/-- The order in which `lua_next` goes through a table. -/
structure TableOrder where
  visit : List (LuaKey × LuaValue) → List (LuaKey × LuaValue)
  perm : ∀ entries, (visit entries).Perm entries

def constraintTable (op : Predicate) (opt : Bool) (operand : LuaValue) : LuaValue :=
  .table [(.index 1, .integer (Int32.ofNat op.index)), (.index 2, operand),
    (.field "optional", .boolean opt)]

mutual

/-- The value of a constraint in a table of filters. Its key is the attribute. -/
def luaForm (narrow : BitVec 64 → F32) (order : TableOrder) : Description → LuaValue
  | .str _ operand op opt => constraintTable op opt (.string operand)
  | .int _ operand op opt => constraintTable op opt (.integer operand)
  | .float _ operand op opt => constraintTable op opt (.number (narrow operand.1))
  | .list _ operand op opt => constraintTable op opt
      (.table (order.visit (luaEntries narrow order operand)))

def luaEntries (narrow : BitVec 64 → F32) (order : TableOrder) :
    List Description → List (LuaKey × LuaValue)
  | [] => []
  | d :: ds => (.field d.attr, luaForm narrow order d) :: luaEntries narrow order ds

end

def constraintObject (attr : String) (op : Predicate) (opt : Bool) (operand : JsValue) : JsValue :=
  .object [("attribute", .string attr), ("predicate", .int32 (Int32.ofNat op.index)),
    ("optional", .boolean opt), ("operand", operand)]

mutual

def jsForm : Description → JsValue
  | .str attr operand op opt => constraintObject attr op opt (.string operand)
  | .int attr operand op opt => constraintObject attr op opt (.int32 operand)
  | .float attr operand op opt => constraintObject attr op opt (.double operand.1)
  | .list attr operand op opt => constraintObject attr op opt (.array (jsForms operand))

def jsForms : List Description → List JsValue
  | [] => []
  | d :: ds => jsForm d :: jsForms ds

end

mutual

/-- What a description stands for if predicates are read by `pred`, and strings by `num` where they
are numbers. -/
def meaning (pred : Predicate → Predicate) (num : String → Option F32) (narrow : BitVec 64 → F32) :
    Description → Option Constraint
  | .str attr operand op opt =>
    match num operand with
    | some number => Constraint.ofFloat (cString attr) number (pred op) opt
    | none => Constraint.ofStr (cString attr) (cString operand) (pred op) opt
  | .int attr operand op opt => Constraint.ofInt (cString attr) operand (pred op) opt
  | .float attr operand op opt => Constraint.ofFloat (cString attr) (narrow operand.1) (pred op) opt
  | .list attr operand op opt =>
    (meanings pred num narrow operand).bind fun cs => Constraint.ofList (cString attr) cs
      (pred op) opt

def meanings (pred : Predicate → Predicate) (num : String → Option F32) (narrow : BitVec 64 → F32) :
    List Description → Option (List Constraint)
  | [] => some []
  | d :: ds => (meaning pred num narrow d).bind fun c => (meanings pred num narrow ds).map (c :: ·)

end

/-! ## Constraints up to the order of what is nested in them -/

mutual

inductive Same : Constraint → Constraint → Prop
  | str (a x : String) (p : Predicate) (o : Bool) : Same (.str a x p o) (.str a x p o)
  | int (a : String) (x : Int32) (p : Predicate) (o : Bool) : Same (.int a x p o) (.int a x p o)
  | float (a : String) (x : F32) (p : Predicate) (o : Bool) : Same (.float a x p o) (.float a x p o)
  | list (a : String) (p : Predicate) (o : Bool) {xs ys : List Constraint} (h : SameList xs ys) :
    Same (.list a xs p o) (.list a ys p o)

inductive SameList : List Constraint → List Constraint → Prop
  | nil : SameList [] []
  | cons {x y : Constraint} {xs ys : List Constraint} (h : Same x y) (hs : SameList xs ys) :
    SameList (x :: xs) (y :: ys)
  | perm {xs xs' ys : List Constraint} (h : xs.Perm xs') (hs : SameList xs' ys) : SameList xs ys

end

/-- Both parsers have no result, or both build the same constraint. -/
def Agree : Parsed → Parsed → Prop
  | none, none | some none, some none => True
  | some (some c), some (some c') => Same c c'
  | _, _ => False

/-! ## JavaScript reads the operands -/

theorem js_predicate (op : Predicate) :
    Js.predicate (some (.int32 (Int32.ofNat op.index))) = some .EQ := by
  cases op <;> rfl

theorem js_constraintObject (narrow : BitVec 64 → F32) (attr : String) (op : Predicate) (opt : Bool)
    (operand : JsValue) : Js.parseConstraint narrow (constraintObject attr op opt operand) =
      Js.withOperand narrow (cString attr) .EQ opt (Js.parseElements narrow operand) operand := by
  have hfilters : Js.operandFilters narrow [("attribute", .string attr),
      ("predicate", .int32 (Int32.ofNat op.index)), ("optional", .boolean opt),
      ("operand", operand)] =
        Js.parseElements narrow operand := by
    simp [Js.operandFilters]
  have hpredicate := js_predicate op
  unfold constraintObject
  rw [Js.parseConstraint, hfilters]
  simp [Assoc.find, Js.optional, hpredicate]

mutual

theorem js_meaning (narrow : BitVec 64 → F32) :
    ∀ d : Description, Js.parseConstraint narrow (jsForm d) =
    (meaning (fun _ => .EQ) (fun _ => none) narrow d).map some
  | .str attr operand op opt => by
    rw [jsForm, js_constraintObject]
    simp [Js.withOperand, Js.parseNumber, meaning]
  | .int attr operand op opt => by
    rw [jsForm, js_constraintObject]
    simp [Js.withOperand, Js.parseNumber, meaning]
  | .float attr operand op opt => by
    rw [jsForm, js_constraintObject]
    simp [Js.withOperand, Js.parseNumber, operand.2, meaning]
  | .list attr operand op opt => by
    rw [jsForm, js_constraintObject, meaning, Js.parseElements, js_meanings narrow operand]
    simp only [Js.withOperand, Js.parseNumber]
    cases meanings (fun _ => .EQ) (fun _ => none) narrow operand with
    | none => rfl
    | some cs => rfl

theorem js_meanings (narrow : BitVec 64 → F32) :
    ∀ ds : List Description, Js.parseFilterList narrow (jsForms ds) =
    (meanings (fun _ => .EQ) (fun _ => none) narrow ds).map some
  | [] => rfl
  | d :: ds => by
    rw [jsForms, Js.parseFilterList, js_meaning narrow d, js_meanings narrow ds, meanings]
    cases meaning (fun _ => .EQ) (fun _ => none) narrow d with
    | none => rfl
    | some c =>
      cases meanings (fun _ => .EQ) (fun _ => none) narrow ds with
      | none => rfl
      | some cs => rfl

end

/-! ## Lua reads some strings as numbers -/

theorem lua_predicate (op : Predicate) :
    Lua.predicate (some (.integer (Int32.ofNat op.index))) = some op := by
  cases op <;> rfl

theorem lua_constraintTable (conv : Lua.Conversions) (key : String) (op : Predicate) (opt : Bool)
    (operand : LuaValue) : Lua.parseConstraint conv key (constraintTable op opt operand) =
      Lua.withOperand conv key op opt (Lua.gather (Lua.nested conv operand)) (some operand) := by
  have hpredicate := lua_predicate op
  have hsecond : Lua.second conv [(.index 1, .integer (Int32.ofNat op.index)), (.index 2, operand),
      (.field "optional", .boolean opt)] = Lua.nested conv operand := by
    simp [Lua.second]
  unfold constraintTable
  rw [Lua.parseConstraint, hsecond]
  simp [Assoc.find, hpredicate, Lua.optional]

theorem parseEntries_eq (conv : Lua.Conversions) (entries : List (LuaKey × LuaValue)) :
    Lua.parseEntries conv entries = entries.map fun e =>
      Lua.parseConstraint conv (cString e.1.tostring) e.2 := by
  induction entries with
  | nil => rfl
  | cons e entries ih => rw [Lua.parseEntries, ih, List.map_cons]

theorem gather_perm {l l' : List Parsed} (h : l.Perm l') {cs : List Constraint}
    (hcs : Lua.gather l = some cs) :
    ∃ cs', Lua.gather l' = some cs' ∧ cs.Perm cs' := by
  induction h generalizing cs with
  | nil => exact ⟨cs, hcs, .refl _⟩
  | cons x _ ih =>
    match x with
    | none => simp [Lua.gather] at hcs
    | some none => exact ih hcs
    | some (some c) =>
      obtain ⟨rest, hrest, rfl⟩ := Option.map_eq_some_iff.mp hcs
      obtain ⟨rest', hrest', hperm⟩ := ih hrest
      exact ⟨c :: rest', by rw [Lua.gather, hrest', Option.map_some], hperm.cons c⟩
  | swap x y l =>
    match x, y with
    | none, none | none, some none | some none, none | none, some (some _) | some (some _), none =>
      simp [Lua.gather] at hcs
    | some none, some none => exact ⟨cs, hcs, .refl _⟩
    | some none, some (some c) => exact ⟨cs, hcs, .refl _⟩
    | some (some c), some none => exact ⟨cs, hcs, .refl _⟩
    | some (some c), some (some c') =>
      simp only [Lua.gather, Option.map_map, Option.map_eq_some_iff] at hcs ⊢
      obtain ⟨rest, hrest, rfl⟩ := hcs
      exact ⟨_, ⟨rest, hrest, rfl⟩, List.Perm.swap _ _ _⟩
  | trans _ _ ih ih' =>
    obtain ⟨cs', hcs', hperm⟩ := ih hcs
    obtain ⟨cs'', hcs'', hperm'⟩ := ih' hcs'
    exact ⟨cs'', hcs'', hperm.trans hperm'⟩

mutual

theorem Same.refl : ∀ c : Constraint, Same c c
  | .str a x p o => .str a x p o
  | .int a x p o => .int a x p o
  | .float a x p o => .float a x p o
  | .list a cs p o => .list a p o (SameList.refl cs)

theorem SameList.refl : ∀ cs : List Constraint, SameList cs cs
  | [] => .nil
  | c :: cs => .cons (Same.refl c) (SameList.refl cs)

end

theorem Agree.refl : ∀ parsed : Parsed, Agree parsed parsed
  | none | some none => trivial
  | some (some c) => Same.refl c

theorem Agree.eq_none : ∀ {parsed : Parsed}, Agree parsed none → parsed = none
  | none, _ => rfl

theorem Agree.built : ∀ {parsed : Parsed} {c : Constraint}, Agree parsed (some (some c)) →
    ∃ c', parsed = some (some c') ∧ Same c' c
  | some (some c'), _, h => ⟨c', rfl, h⟩

mutual

/-- The Lua parser reads a description with its predicates, and with numbers in place of some
strings. -/
theorem lua_meaning (conv : Lua.Conversions) (order : TableOrder) : ∀ d : Description,
    Agree (Lua.parseConstraint conv (cString d.attr) (luaForm conv.narrow order d))
      ((meaning id conv.tonumber conv.narrow d).map some)
  | .str attr operand op opt => by
    have hagree : Lua.withOperand conv (cString attr) op opt
        (Lua.gather (Lua.nested conv (.string operand))) (some (.string operand)) =
          (meaning id conv.tonumber conv.narrow (.str attr operand op opt)).map some := by
      cases htonumber : conv.tonumber operand with
      | none => simp [Lua.withOperand, meaning, htonumber]
      | some number => simp [Lua.withOperand, meaning, htonumber]
    rw [luaForm, lua_constraintTable, ← hagree]
    exact Agree.refl _
  | .int attr operand op opt => by
    rw [luaForm, lua_constraintTable, Lua.withOperand]
    exact Agree.refl _
  | .float attr operand op opt => by
    rw [luaForm, lua_constraintTable]
    exact Agree.refl _
  | .list attr operand op opt => by
    have hperm : (Lua.parseEntries conv (order.visit (luaEntries conv.narrow order operand))).Perm
        (Lua.parseEntries conv (luaEntries conv.narrow order operand)) := by
      rw [parseEntries_eq, parseEntries_eq]
      exact (order.perm _).map _
    obtain ⟨hthrown, hbuilt⟩ := lua_meanings conv order operand
    rw [luaForm, lua_constraintTable, Lua.nested, meaning, Lua.withOperand]
    cases hmeanings : meanings id conv.tonumber conv.narrow operand with
    | none =>
      have hnone : Lua.gather (Lua.parseEntries conv
          (order.visit (luaEntries conv.narrow order operand))) = none := by
        cases hgather : Lua.gather
          (Lua.parseEntries conv (order.visit (luaEntries conv.narrow order operand))) with
        | none => rfl
        | some cs =>
          obtain ⟨cs', hcs', -⟩ := gather_perm hperm hgather
          rw [hthrown hmeanings] at hcs'
          simp at hcs'
      rw [hnone]
      trivial
    | some cs =>
      obtain ⟨cs', hcs', hsame⟩ := hbuilt cs hmeanings
      obtain ⟨visited, hvisited, hvisitedPerm⟩ := gather_perm hperm.symm hcs'
      rw [hvisited, Option.bind_some, Option.bind_some]
      unfold Constraint.ofList
      rw [Description.attr]
      cases Constraint.attributeOf (cString attr) opt with
      | none => trivial
      | some a => exact Same.list a.1 op a.2 (.perm hvisitedPerm.symm hsame)

theorem lua_meanings (conv : Lua.Conversions) (order : TableOrder) : ∀ ds : List Description,
    (meanings id conv.tonumber conv.narrow ds = none →
      Lua.gather (Lua.parseEntries conv (luaEntries conv.narrow order ds)) = none) ∧
      ∀ cs, meanings id conv.tonumber conv.narrow ds = some cs →
        ∃ cs', Lua.gather (Lua.parseEntries conv (luaEntries conv.narrow order ds)) = some cs' ∧
        SameList cs' cs
  | [] => ⟨fun h => by simp [meanings] at h, fun cs h => ⟨[], rfl, by
      rw [← Option.some.inj h]
      exact .nil⟩⟩
  | d :: ds => by
    have hd := lua_meaning conv order d
    obtain ⟨hthrown, hbuilt⟩ := lua_meanings conv order ds
    rw [meanings, luaEntries, Lua.parseEntries, LuaKey.tostring]
    cases hmeaning : meaning id conv.tonumber conv.narrow d with
    | none =>
      rw [hmeaning] at hd
      rw [hd.eq_none]
      exact ⟨fun _ => rfl, fun cs h => by simp at h⟩
    | some c =>
      rw [hmeaning] at hd
      obtain ⟨c', hc', hsame⟩ := hd.built
      rw [hc', Option.bind_some, Lua.gather]
      cases hmeanings : meanings id conv.tonumber conv.narrow ds with
      | none =>
        rw [hthrown hmeanings]
        exact ⟨fun _ => rfl, fun cs h => by simp at h⟩
      | some cs =>
        obtain ⟨cs', hcs', hsameList⟩ := hbuilt cs hmeanings
        rw [hcs']
        refine ⟨fun h => by simp at h, fun all h => ⟨c' :: cs', rfl, ?_⟩⟩
        rw [← Option.some.inj h]
        exact .cons hsame hsameList

end

/-! ## Counting -/

mutual

/-- How many nodes of a constraint there are of some kind. It may depend on the predicate, and on
whether the operand is a string. -/
def tally (kind : Bool → Predicate → Bool) : Constraint → Nat
  | .str _ _ p _ => (kind true p).toNat
  | .int _ _ p _ | .float _ _ p _ => (kind false p).toNat
  | .list _ cs p _ => (kind false p).toNat + tallyAll kind cs

def tallyAll (kind : Bool → Predicate → Bool) : List Constraint → Nat
  | [] => 0
  | c :: cs => tally kind c + tallyAll kind cs

end

theorem tallyAll_perm (kind : Bool → Predicate → Bool) {cs cs' : List Constraint}
    (h : cs.Perm cs') :
    tallyAll kind cs = tallyAll kind cs' := by
  induction h with
  | nil => rfl
  | cons c _ ih => rw [tallyAll, tallyAll, ih]
  | swap c c' cs =>
    simp only [tallyAll]
    omega
  | trans _ _ ih ih' => exact ih.trans ih'

mutual

theorem Same.tally_eq (kind : Bool → Predicate → Bool) : ∀ {c c' : Constraint}, Same c c' →
    tally kind c = tally kind c'
  | _, _, .str .. => rfl
  | _, _, .int .. => rfl
  | _, _, .float .. => rfl
  | _, _, .list _ _ _ h => by rw [tally, tally, SameList.tallyAll_eq kind h]

theorem SameList.tallyAll_eq (kind : Bool → Predicate → Bool) :
    ∀ {cs cs' : List Constraint}, SameList cs cs' →
    tallyAll kind cs = tallyAll kind cs'
  | _, _, .nil => rfl
  | _, _, .cons h hs => by rw [tallyAll, tallyAll, Same.tally_eq kind h,
      SameList.tallyAll_eq kind hs]
  | _, _, .perm h hs => (tallyAll_perm kind h).trans (SameList.tallyAll_eq kind hs)

end

namespace Description

def predicate : Description → Predicate
  | .str _ _ p _ | .int _ _ p _ | .float _ _ p _ | .list _ _ p _ => p

/-- The string operand. -/
def text : Description → Option String
  | .str _ operand _ _ => some operand
  | .int .. | .float .. | .list .. => none

mutual

/-- The description and all those that are nested in it. -/
def nodes : Description → List Description
  | .str attr operand op opt => [.str attr operand op opt]
  | .int attr operand op opt => [.int attr operand op opt]
  | .float attr operand op opt => [.float attr operand op opt]
  | .list attr operand op opt => .list attr operand op opt :: nodesAll operand

def nodesAll : List Description → List Description
  | [] => []
  | d :: ds => nodes d ++ nodesAll ds

end

end Description

section

variable (pred : Predicate → Predicate) (num : String → Option F32) (narrow : BitVec 64 → F32)
  (kind : Bool → Predicate → Bool)

/-- A node of a description, as its meaning shows it. -/
def shown (n : Description) : Bool := kind (n.text.elim false fun s => (num s).isNone)
    (pred n.predicate)

theorem countP_single (p : Description → Bool) (n : Description) : [n].countP p = (p n).toNat := by
  rw [List.countP_singleton]
  cases p n <;> rfl

section

variable {attr : String} {p : Predicate} {opt : Bool} {c : Constraint}

theorem tally_ofStr {x : String} (h : Constraint.ofStr attr x p opt = some c) :
    tally kind c = (kind true p).toNat := by
  obtain ⟨a, -, rfl⟩ := Option.map_eq_some_iff.mp h
  rfl

theorem tally_ofInt {x : Int32} (h : Constraint.ofInt attr x p opt = some c) :
    tally kind c = (kind false p).toNat := by
  obtain ⟨a, -, rfl⟩ := Option.map_eq_some_iff.mp h
  rfl

theorem tally_ofFloat {x : F32} (h : Constraint.ofFloat attr x p opt = some c) :
    tally kind c = (kind false p).toNat := by
  obtain ⟨a, -, rfl⟩ := Option.map_eq_some_iff.mp h
  rfl

theorem tally_ofList {cs : List Constraint} (h : Constraint.ofList attr cs p opt = some c) :
    tally kind c = (kind false p).toNat + tallyAll kind cs := by
  obtain ⟨a, -, rfl⟩ := Option.map_eq_some_iff.mp h
  rfl

end

mutual

theorem tally_meaning : ∀ (d : Description) (c : Constraint), meaning pred num narrow d = some c →
    tally kind c = d.nodes.countP (shown pred num kind)
  | .str attr operand op opt, c, h => by
    rw [Description.nodes, countP_single]
    cases hnum : num operand with
    | none =>
      simp only [meaning, hnum] at h
      simp [tally_ofStr kind h, shown, Description.text, Description.predicate, hnum]
    | some number =>
      simp only [meaning, hnum] at h
      simp [tally_ofFloat kind h, shown, Description.text, Description.predicate, hnum]
  | .int attr operand op opt, c, h => by
    rw [Description.nodes, countP_single]
    exact tally_ofInt kind h
  | .float attr operand op opt, c, h => by
    rw [Description.nodes, countP_single]
    exact tally_ofFloat kind h
  | .list attr operand op opt, c, h => by
    obtain ⟨cs, hcs, hc⟩ := Option.bind_eq_some_iff.mp h
    rw [Description.nodes, ← List.singleton_append, List.countP_append, countP_single,
      tally_ofList kind hc, tally_meanings operand cs hcs]
    rfl

theorem tally_meanings : ∀ (ds : List Description) (cs : List Constraint), meanings pred num narrow
    ds = some cs →
    tallyAll kind cs = (Description.nodesAll ds).countP (shown pred num kind)
  | [], cs, h => by
    rw [← Option.some.inj h]
    rfl
  | d :: ds, cs, h => by
    obtain ⟨c, hc, h⟩ := Option.bind_eq_some_iff.mp h
    obtain ⟨rest, hrest, rfl⟩ := Option.map_eq_some_iff.mp h
    rw [tallyAll, Description.nodesAll, List.countP_append, tally_meaning d c hc,
      tally_meanings ds rest hrest]

end

theorem ofList_isSome {attr : String} {cs : List Constraint} {p : Predicate} {opt : Bool} :
    (Constraint.ofList attr cs p opt).isSome = (Constraint.attributeOf attr opt).isSome :=
      Option.isSome_map

theorem attributeOf_isSome (attr : String) (opt : Bool) :
    (Constraint.attributeOf attr opt).isSome = true ↔ attr ≠ "" := by
  rw [Option.isSome_iff_exists]
  exact Constraint.attributeOf_isSome attr opt

mutual

theorem meaning_isSome : ∀ d : Description,
    (meaning pred num narrow d).isSome = true ↔ ∀ n ∈ d.nodes, cString n.attr ≠ ""
  | .str attr operand op opt => by
    have hsome : (meaning pred num narrow (.str attr operand op opt)).isSome =
        (Constraint.attributeOf (cString attr) opt).isSome := by
      cases hnum : num operand with
      | none => simp [meaning, hnum, Constraint.ofStr]
      | some number => simp [meaning, hnum, Constraint.ofFloat]
    rw [hsome, attributeOf_isSome, Description.nodes, List.forall_mem_singleton]
    exact Iff.rfl
  | .int attr operand op opt => by
    rw [meaning, Constraint.ofInt, Option.isSome_map, attributeOf_isSome, Description.nodes,
      List.forall_mem_singleton]
    exact Iff.rfl
  | .float attr operand op opt => by
    rw [meaning, Constraint.ofFloat, Option.isSome_map, attributeOf_isSome, Description.nodes,
      List.forall_mem_singleton]
    exact Iff.rfl
  | .list attr operand op opt => by
    have hsome : (meaning pred num narrow (.list attr operand op opt)).isSome =
        ((meanings pred num narrow operand).isSome &&
          (Constraint.attributeOf (cString attr) opt).isSome) := by
      rw [meaning]
      cases meanings pred num narrow operand with
      | none => rfl
      | some cs => exact ofList_isSome
    rw [hsome, Bool.and_eq_true, meanings_isSome operand, attributeOf_isSome, Description.nodes,
      List.forall_mem_cons]
    exact and_comm

theorem meanings_isSome : ∀ ds : List Description,
    (meanings pred num narrow ds).isSome = true ↔ ∀ n ∈ Description.nodesAll ds, cString n.attr ≠ ""
  | [] => by simp [meanings, Description.nodesAll]
  | d :: ds => by
    have hsome : (meanings pred num narrow (d :: ds)).isSome =
        ((meaning pred num narrow d).isSome && (meanings pred num narrow ds).isSome) := by
      rw [meanings]
      cases meaning pred num narrow d with
      | none => rfl
      | some c => exact Option.isSome_map
    rw [hsome, Bool.and_eq_true, meaning_isSome d, meanings_isSome ds, Description.nodesAll,
      List.forall_mem_append]

end

end

/-! ## Agreement -/

/-- Both parsers read the node alike. -/
def ReadAlike (conv : Lua.Conversions) (n : Description) : Prop :=
  n.predicate = .EQ ∧ ∀ s, n.text = some s → conv.tonumber s = none

mutual

theorem meaning_congr (conv : Lua.Conversions) (narrow : BitVec 64 → F32) : ∀ d : Description,
    (∀ n ∈ d.nodes, ReadAlike conv n) →
      meaning id conv.tonumber narrow d = meaning (fun _ => .EQ) (fun _ => none) narrow d
  | .str attr operand op opt, h => by
    obtain ⟨hop, htext⟩ := h _ List.mem_cons_self
    obtain rfl : op = .EQ := hop
    simp [meaning, htext operand rfl]
  | .int attr operand op opt, h => by
    obtain rfl : op = .EQ := (h _ List.mem_cons_self).1
    rfl
  | .float attr operand op opt, h => by
    obtain rfl : op = .EQ := (h _ List.mem_cons_self).1
    rfl
  | .list attr operand op opt, h => by
    rw [Description.nodes, List.forall_mem_cons] at h
    obtain rfl : op = .EQ := h.1.1
    rw [meaning, meaning, meanings_congr conv narrow operand h.2]
    rfl

theorem meanings_congr (conv : Lua.Conversions) (narrow : BitVec 64 → F32) :
    ∀ ds : List Description, (∀ n ∈ Description.nodesAll ds, ReadAlike conv n) →
      meanings id conv.tonumber narrow ds = meanings (fun _ => .EQ) (fun _ => none) narrow ds
  | [], _ => rfl
  | d :: ds, h => by
    rw [Description.nodesAll, List.forall_mem_append] at h
    rw [meanings, meanings, meaning_congr conv narrow d h.1, meanings_congr conv narrow ds h.2]

end

theorem of_countP_eq {α : Type} {p q : α → Bool} {l : List α} (himp : ∀ a, p a = true → q a = true)
    (heq : l.countP p = l.countP q) : ∀ a ∈ l, q a = true → p a = true := by
  induction l with
  | nil => simp
  | cons a l ih =>
    have hle : l.countP p ≤ l.countP q := List.countP_mono_left fun b _ => himp b
    rw [List.countP_cons, List.countP_cons] at heq
    rw [List.forall_mem_cons]
    by_cases hq : q a = true
    · by_cases hp : p a = true
      · rw [if_pos hp, if_pos hq] at heq
        exact ⟨fun _ => hp, ih (by omega)⟩
      · rw [if_neg hp, if_pos hq] at heq
        omega
    · rw [if_neg fun hp => hq (himp a hp), if_neg hq] at heq
      exact ⟨fun h => absurd h hq, ih (by omega)⟩

/-- One constraint can be read from both forms of a description only if all its nodes are read
alike. -/
theorem readAlike_of_tally (conv : Lua.Conversions) (narrow : BitVec 64 → F32) {d : Description}
    {c c' : Constraint} (hc : meaning id conv.tonumber narrow d = some c)
    (hc' : meaning (fun _ => .EQ) (fun _ => none) narrow d = some c')
    (h : ∀ kind, tally kind c = tally kind c') :
    ∀ n ∈ d.nodes, ReadAlike conv n := by
  intro n hn
  have hpredicates := h fun _ p => p != .EQ
  have htexts := h fun text _ => text
  rw [tally_meaning _ _ _ _ d c hc, tally_meaning _ _ _ _ d c' hc'] at hpredicates htexts
  constructor
  · have hnone : d.nodes.countP (shown (fun _ => .EQ) (fun _ => none) fun _ p => p != .EQ) = 0 :=
      List.countP_eq_zero.mpr fun n _ => by simp [shown]
    rw [hnone] at hpredicates
    have hn' := List.countP_eq_zero.mp hpredicates n hn
    simpa [shown] using hn'
  · intro s hs
    have hall := of_countP_eq (fun n => by cases ht : n.text <;> simp [shown, ht]) htexts n hn
    simpa [shown, hs] using hall

/-- Lua and JavaScript actors subscribe alike exactly if all predicates are `EQ` and no string is
read as a number, or some name is empty and neither can subscribe. -/
theorem parsers_agree_iff (conv : Lua.Conversions) (order : TableOrder) (d : Description) :
    Agree (Lua.parseConstraint conv (cString d.attr) (luaForm conv.narrow order d))
    (Js.parseConstraint conv.narrow (jsForm d)) ↔
      (∃ n ∈ d.nodes, cString n.attr = "") ∨
        ∀ n ∈ d.nodes, n.predicate = .EQ ∧ ∀ s, n.text = some s → conv.tonumber s = none := by
  have hlua := lua_meaning conv order d
  rw [js_meaning]
  by_cases hnamed : ∀ n ∈ d.nodes, cString n.attr ≠ ""
  · obtain ⟨c, hc⟩ := Option.isSome_iff_exists.mp
      ((meaning_isSome id conv.tonumber conv.narrow d).mpr hnamed)
    obtain ⟨c', hc'⟩ := Option.isSome_iff_exists.mp
      ((meaning_isSome (fun _ => .EQ) (fun _ => none) conv.narrow d).mpr hnamed)
    rw [hc] at hlua
    obtain ⟨parsed, hparsed, hsame⟩ := hlua.built
    rw [hparsed, hc']
    constructor
    · intro hagree
      refine Or.inr (readAlike_of_tally conv conv.narrow hc hc' fun kind => ?_)
      exact (hsame.tally_eq kind).symm.trans (Same.tally_eq kind hagree)
    · rintro (⟨n, hn, hempty⟩ | halike)
      · exact absurd hempty (hnamed n hn)
      · rw [meaning_congr conv conv.narrow d halike, hc'] at hc
        rw [Option.some.inj hc]
        exact hsame
  · have hempty : ∃ n ∈ d.nodes, cString n.attr = "" := by
      by_contra hnone
      exact hnamed fun n hn heq => hnone ⟨n, hn, heq⟩
    have hnone : ∀ pred num, meaning pred num conv.narrow d = none :=
      fun pred num => Option.not_isSome_iff_eq_none.mp
        (mt (meaning_isSome pred num conv.narrow d).mp hnamed)
    rw [hnone] at hlua
    rw [hnone, hlua.eq_none]
    exact iff_of_true trivial (Or.inl hempty)

/-- Conversions that are right about "12". -/
def decimal : Lua.Conversions :=
  ⟨fun s => if s = "12" then some ⟨0x41400000⟩ else none,
    fun x => if x = 0x4028000000000000 then ⟨0x41400000⟩ else ⟨0⟩⟩

def TableOrder.plain : TableOrder := ⟨id, fun _ => .refl _⟩

/-- A Lua actor that waits for `x ≠ 5` gets what a JavaScript actor does not, and the other way
round; and the string that one of them compares with is a number for the other. -/
theorem parsers_differ :
    ¬ Agree (Lua.parseConstraint decimal "x" (luaForm decimal.narrow .plain (.int "x" 5 .NE false)))
        (Js.parseConstraint decimal.narrow (jsForm (.int "x" 5 .NE false))) ∧
      Js.parseConstraint decimal.narrow (jsForm (.int "x" 5 .NE false)) =
        some (some (.int "x" 5 .EQ false)) ∧
      ¬ Agree (Lua.parseConstraint decimal "x"
        (luaForm decimal.narrow .plain (.str "x" "12" .EQ false)))
        (Js.parseConstraint decimal.narrow (jsForm (.str "x" "12" .EQ false))) := by
  have hlua : Lua.parseConstraint decimal "x"
      (luaForm decimal.narrow .plain (.int "x" 5 .NE false)) =
      some (some (.int "x" 5 .NE false)) := rfl
  have hjs : Js.parseConstraint decimal.narrow (jsForm (.int "x" 5 .NE false)) =
      some (some (.int "x" 5 .EQ false)) := rfl
  have hnumber : Lua.parseConstraint decimal "x"
      (luaForm decimal.narrow .plain (.str "x" "12" .EQ false)) =
      some (some (.float "x" ⟨0x41400000⟩ .EQ false)) := rfl
  have htext : Js.parseConstraint decimal.narrow (jsForm (.str "x" "12" .EQ false)) =
      some (some (.str "x" "12" .EQ false)) := rfl
  refine ⟨?_, hjs, ?_⟩
  · rw [hlua, hjs]
    intro hagree
    cases hagree
  · rw [hnumber, htext]
    intro hagree
    cases hagree

end ScriptFilters

end UActor
