import UActor.PubSub.Constraint

/-!
# Filters

`filter.hpp`, `filter.cpp` and `internal_filter.hpp`. The router keeps an `InternalFilter`, whose
constraints it shares with the index. They are constant, so the model holds them by value.
-/

namespace UActor

/-- The constraints of a subscription, as the constructors of `Filter` split them. -/
structure Filter where
  required : List Constraint
  optional : List Constraint
deriving DecidableEq, Repr

namespace Filter

/-- The constructors of `Filter`. -/
def ofConstraints (cs : List Constraint) : Filter :=
  ⟨cs.filter fun c => !c.optional, cs.filter fun c => c.optional⟩

/-- The constraints in the order in which the router files them. -/
def constraints (f : Filter) : List Constraint := f.required ++ f.optional

/-- A value that is there, under `check_required` and `check_optionals`. Binary values are not
looked at. -/
def passes (c : Constraint) : Variant → Bool
  | .str v => c.acceptsStr v
  | .int v => c.acceptsInt v
  | .float v => c.acceptsFloat v
  | .map v => c.acceptsMap v
  | .bin _ => true

def checkRequired (f : Filter) (p : Publication) : Bool :=
  f.required.all fun c =>
    match p.getAttr c.attr with
    | some v => passes c v
    | none => false

def checkOptionals (f : Filter) (p : Publication) : Bool :=
  f.optional.all fun c =>
    match p.getAttr c.attr with
    | some v => passes c v
    | none => true

/-- Both loops of the comparison operators: as many constraints, and each of the first list is
found in the second. -/
def sameConstraints (cs other : List Constraint) : Bool :=
  cs.length == other.length && cs.all fun c => other.any fun d => d.eqv c

/-- `Filter::operator==`. -/
def eqFilter (f other : Filter) : Bool :=
  sameConstraints f.required other.required && sameConstraints f.optional other.optional

/-! ## The wire format -/

/-- The three attributes of a constraint description. -/
def description (op : Predicate) (operand : Variant) (opt : Bool) : Map :=
  [("operator", .str op.name), ("operand", operand), ("optional", .int (if opt then 1 else 0))]

/-- The end of `add_constraint_to_map`: several constraints on one attribute go into a numbered
container. -/
def addDescription (m : Map) (attr : String) (current : Map) : Map :=
  match m.getNestedComponent attr with
  | some handle =>
    if handle.hasAttr "_m" then
      m.setAttr attr (.map (handle.setAttr (toString (handle.length - 1)) (.map current)))
    else m.setAttr attr (.map [("_m", .int 1), ("0", .map handle), ("1", .map current)])
  | none => m.setAttr attr (.map current)

mutual

/-- The description that `add_constraint_to_map` builds for one constraint. -/
def describe : Constraint → Map
  | .str _ x op opt => description op (.str x) opt
  | .int _ x op opt => description op (.int x) opt
  | .float _ x op opt => description op (.float x) opt
  | .list _ cs op opt => description op (.map (addConstraintsToMap cs [])) opt

def addConstraintsToMap : List Constraint → Map → Map
  | [], m => m
  | c :: cs, m => addConstraintsToMap cs (addDescription m c.attr (describe c))

end

/-- `Filter::to_publication_map`. -/
def toPublicationMap (f : Filter) : Map :=
  addConstraintsToMap f.optional (addConstraintsToMap f.required [])

end Filter

/-- `Filter::matches`. -/
def Filter.matches (f : Filter) (p : Publication) : Bool := f.checkRequired p && f.checkOptionals p

/-! ## The filter of the router -/

structure InternalFilter where
  required : List Constraint
  optional : List Constraint
deriving DecidableEq, Repr

namespace InternalFilter

def toFilter (f : InternalFilter) : Filter := ⟨f.required, f.optional⟩

/-- `InternalFilter::operator==(const Filter&)`. -/
def eqFilter (f : InternalFilter) (other : Filter) : Bool :=
  Filter.sameConstraints f.required other.required && Filter.sameConstraints f.optional
    other.optional

/-- Unlike the loops of `Filter`, these have no case for maps. -/
def passes (c : Constraint) : Variant → Bool
  | .str v => c.acceptsStr v
  | .int v => c.acceptsInt v
  | .float v => c.acceptsFloat v
  | .map _ => true
  | .bin _ => true

def checkRequired (f : InternalFilter) (p : Publication) : Bool :=
  f.required.all fun c =>
    match p.getAttr c.attr with
    | some v => passes c v
    | none => false

def checkOptionals (f : InternalFilter) (p : Publication) : Bool :=
  f.optional.all fun c =>
    match p.getAttr c.attr with
    | some v => passes c v
    | none => true

/-- The stored constraints of one kind: the optional ones or the required ones. -/
def constraintsOf (f : InternalFilter) (opt : Bool) : List Constraint :=
  if opt then f.optional else f.required

@[simp] theorem constraintsOf_true (f : InternalFilter) : f.constraintsOf true = f.optional := rfl
@[simp] theorem constraintsOf_false (f : InternalFilter) : f.constraintsOf false = f.required := rfl

end InternalFilter

end UActor
