import UActor.PubSub.Publication
import Mathlib.Data.List.Infix

/-!
# Constraints

`constraint.hpp` and `constraint.cpp`: what a constraint accepts, and when two constraints
compare equal.
-/

namespace UActor

/-- `ConstraintPredicates::Predicate`. -/
inductive Predicate where
  | EQ | NE | LT | GT | GE | LE | PF | SF | CT | MAP_ALL
deriving DecidableEq, Repr

namespace Predicate

/-- `ConstraintPredicates::name`. -/
def name : Predicate → String
  | EQ => "EQ" | NE => "NE" | LT => "LT" | GT => "GT" | GE => "GE" | LE => "LE"
  | PF => "PF" | SF => "SF" | CT => "CT" | MAP_ALL => "MAP_ALL"

/-- `ConstraintPredicates::from_string`. -/
def fromString (s : String) : Option Predicate :=
  [EQ, NE, LT, GT, GE, LE, PF, SF, CT, MAP_ALL].find? fun p => p.name == s

end Predicate

/-- A constraint: its attribute, the `Container` with the operand and the predicate, and its
flag. The list operand is the one of nested constraints. -/
inductive Constraint where
  | str (attr : String) (operand : String) (op : Predicate) (opt : Bool)
  | int (attr : String) (operand : Int32) (op : Predicate) (opt : Bool)
  | float (attr : String) (operand : F32) (op : Predicate) (opt : Bool)
  | list (attr : String) (operand : List Constraint) (op : Predicate) (opt : Bool)
deriving Repr

namespace Constraint

mutual

def decEq : (a b : Constraint) → Decidable (a = b)
  | .str a x o t, .str a' x' o' t' | .int a x o t, .int a' x' o' t'
  | .float a x o t, .float a' x' o' t' =>
    decidable_of_iff (a = a' ∧ x = x' ∧ o = o' ∧ t = t') (by simp)
  | .list a xs o t, .list a' xs' o' t' =>
    have := decEqList xs xs'
    decidable_of_iff (a = a' ∧ xs = xs' ∧ o = o' ∧ t = t') (by simp)
  | .str .., .int .. | .str .., .float .. | .str .., .list ..
  | .int .., .str .. | .int .., .float .. | .int .., .list ..
  | .float .., .str .. | .float .., .int .. | .float .., .list ..
  | .list .., .str .. | .list .., .int .. | .list .., .float .. => isFalse (by simp)

def decEqList : (as bs : List Constraint) → Decidable (as = bs)
  | [], [] => isTrue rfl
  | [], _ :: _ | _ :: _, [] => isFalse (by simp)
  | a :: as, b :: bs =>
    have := decEq a b
    have := decEqList as bs
    decidable_of_iff (a = b ∧ as = bs) (by simp)

end

instance : DecidableEq Constraint := decEq

/-- `Constraint::attribute`. -/
def attr : Constraint → String
  | .str a _ _ _ | .int a _ _ _ | .float a _ _ _ | .list a _ _ _ => a

def predicate : Constraint → Predicate
  | .str _ _ o _ | .int _ _ o _ | .float _ _ o _ | .list _ _ o _ => o

def optional : Constraint → Bool
  | .str _ _ _ t | .int _ _ _ t | .float _ _ _ t | .list _ _ _ t => t

/-- The operand is a string, an integer or a float. -/
def isScalar : Constraint → Bool
  | .list .. => false
  | _ => true

/-- What the constructors do with a leading question mark. They throw on an empty attribute. -/
def attributeOf (attr : String) (opt : Bool) : Option (String × Bool) :=
  match attr.toList with
  | [] => none
  | '?' :: rest => some (String.ofList rest, true)
  | _ => some (attr, opt)

/-- `Constraint(attribute, oper, op, optional)` for a string operand. -/
def ofStr (attr oper : String) (op : Predicate) (opt : Bool) : Option Constraint :=
  (attributeOf attr opt).map fun a => .str a.1 oper op a.2

/-! ## Matching -/

/-- `Container<T>::match`, over the comparisons of the operand's type. -/
def matchWith {α : Type} (eq lt le : α → α → Bool) (op : Predicate) (input operand : α) : Bool :=
  match op with
  | .EQ => eq input operand
  | .LT => lt input operand
  | .GT => lt operand input
  | .GE => le operand input
  | .LE => le input operand
  | .NE => !eq input operand
  | _ => false

/-- `Container<AString>::match`: strings add prefix, suffix and substring. -/
def matchStr (op : Predicate) (input operand : String) : Bool :=
  match op with
  | .PF => operand.toList.isPrefixOf input.toList
  | .SF => operand.toList.isSuffixOf input.toList
  | .CT => decide (operand.toList <:+: input.toList)
  | _ => matchWith (· == ·) (fun a b => decide (a < b)) (fun a b => !decide (b < a)) op
      input operand

def matchInt (op : Predicate) (input operand : Int32) : Bool :=
  matchWith (· == ·) (fun a b => decide (a < b)) (fun a b => decide (a ≤ b)) op input operand

def matchFloat (op : Predicate) (input operand : F32) : Bool :=
  matchWith F32.eq F32.lt F32.le op input operand

def acceptsStr : Constraint → String → Bool
  | .str _ x op _, input => matchStr op input x
  | _, _ => false

def acceptsInt : Constraint → Int32 → Bool
  | .int _ x op _, input => matchInt op input x
  | _, _ => false

def acceptsFloat : Constraint → F32 → Bool
  | .float _ x op _, input => matchFloat op input x
  | _, _ => false

mutual

/-- One round of the loop over nested constraints. An absent attribute passes an optional
constraint only when it has no value of another type. -/
def nestedOk : Constraint → Map → Bool
  | .str a x op opt, m =>
    match m.getStrAttr a with
    | none => opt && !m.hasAttr a
    | some v => matchStr op v x
  | .int a x op opt, m =>
    match m.getIntAttr a with
    | none => opt && !m.hasAttr a
    | some v => matchInt op v x
  | .float a x op opt, m =>
    match m.getFloatAttr a with
    | none => opt && !m.hasAttr a
    | some v => matchFloat op v x
  | .list a cs op opt, m =>
    match m.getNestedComponent a with
    | none => opt && !m.hasAttr a
    | some v => op == .MAP_ALL && matchAll cs v

/-- `Container<std::vector<Constraint>>::match` for `MAP_ALL`. -/
def matchAll : List Constraint → Map → Bool
  | [], _ => true
  | c :: cs, m => nestedOk c m && matchAll cs m

end

def acceptsMap : Constraint → Map → Bool
  | .list _ cs op _, m => op == .MAP_ALL && matchAll cs m
  | _, _ => false

/-- `Constraint::operator()` on a value of the index. A binary value is never passed to it. -/
def accepts (c : Constraint) : Variant → Bool
  | .str v => c.acceptsStr v
  | .int v => c.acceptsInt v
  | .float v => c.acceptsFloat v
  | .map v => c.acceptsMap v
  | .bin _ => false

/-! ## Equality -/

mutual

/-- `Constraint::operator==`: `eqv this other`. The flag is not compared. -/
def eqv : Constraint → Constraint → Bool
  | .str a x op _, .str a' x' op' _ => a' == a && (x' == x && op' == op)
  | .int a x op _, .int a' x' op' _ => a' == a && (x' == x && op' == op)
  | .float a x op _, .float a' x' op' _ => a' == a && (F32.eq x' x && op' == op)
  | .list a cs op _, .list a' cs' op' _ =>
    a' == a && (op' == op && op' == .MAP_ALL && allFound cs' cs)
  | _, _ => false

/-- The loop of `Container<std::vector<Constraint>>::operator==`: every constraint of the first
list is found in the second. -/
def allFound : List Constraint → List Constraint → Bool
  | [], _ => true
  | c :: cs, other => other.any (fun d => eqv d c) && allFound cs other

end

theorem eqv_attr {a b : Constraint} (h : eqv a b = true) : a.attr = b.attr := by
  cases a <;> cases b <;> simp_all [eqv, attr]

theorem allFound_iff (cs other : List Constraint) :
    allFound cs other = true ↔ ∀ c ∈ cs, ∃ d ∈ other, eqv d c = true := by
  induction cs with
  | nil => simp [allFound]
  | cons c cs ih => simp [allFound, ih]

theorem matchAll_iff (cs : List Constraint) (m : Map) :
    matchAll cs m = true ↔ ∀ c ∈ cs, nestedOk c m = true := by
  induction cs with
  | nil => simp [matchAll]
  | cons c cs ih => simp [matchAll, ih]

/-! ### Scalar operands -/

theorem eqv_comm_of_scalar {a b : Constraint} (ha : a.isScalar = true) : eqv a b = eqv b a := by
  cases a <;> cases b <;> simp_all [eqv, isScalar, F32.eq_comm, Bool.beq_comm]

theorem eqv_trans_of_scalar {a b c : Constraint} (ha : a.isScalar = true)
    (hab : eqv a b = true) (hbc : eqv b c = true) : eqv a c = true := by
  cases a <;> cases b <;> cases c <;> simp_all [eqv, isScalar, F32.eq_iff]

theorem isScalar_of_eqv {a b : Constraint} (h : eqv a b = true) : a.isScalar = b.isScalar := by
  cases a <;> cases b <;> simp_all [eqv, isScalar]

theorem matchFloat_congr {x y : F32} (h : F32.eq x y = true) (op : Predicate) (z : F32) :
    matchFloat op z x = matchFloat op z y := by
  obtain ⟨h1, h2, h3, h4, h5⟩ := F32.compare_congr h z
  cases op <;> simp [matchFloat, matchWith, *]

theorem accepts_congr_of_scalar {a b : Constraint} (ha : a.isScalar = true) (h : eqv a b = true)
    (v : Variant) : a.accepts v = b.accepts v := by
  cases a with
  | list => simp [isScalar] at ha
  | str a x op opt =>
    cases b <;> simp_all [eqv, accepts]
    cases v <;> simp [acceptsStr, acceptsInt, acceptsFloat, acceptsMap]
  | int a x op opt =>
    cases b <;> simp_all [eqv, accepts]
    cases v <;> simp [acceptsStr, acceptsInt, acceptsFloat, acceptsMap]
  | float a x op opt =>
    cases b with
    | float a' x' op' opt' =>
      simp only [eqv, Bool.and_eq_true, beq_iff_eq] at h
      obtain ⟨-, hx, rfl⟩ := h
      rw [F32.eq_comm] at hx
      cases v <;> simp [accepts, acceptsStr, acceptsInt, acceptsFloat, acceptsMap,
        matchFloat_congr hx]
    | str | int | list => simp [eqv] at h

end Constraint

end UActor
