import UActor.PubSub.Filter
import UActor.Lib.Buckets

/-!
# The constraint index

`constraint_index.hpp`. One index holds the constraints on one attribute: string equality in a
sorted vector, all other constraints in a second one that is scanned. `Subscription*` is the id
of the subscription.
-/

namespace UActor

/-- A constraint and the subscriptions that list it, each with its optional flag. -/
abbrev ConstraintItem := Constraint × List (Nat × Bool)

structure SubscriptionCounter where
  required : Nat
  optional : Nat
deriving DecidableEq, Repr

abbrev Counter := List (Nat × SubscriptionCounter)

/-- `try_emplace` and the increment after it. -/
def Counter.bump (c : Counter) (hit : Nat × Bool) : Counter :=
  let n := (Assoc.find hit.1 c).getD ⟨0, 0⟩
  Assoc.put hit.1
    (if hit.2 then { n with optional := n.optional + 1 }
      else { n with required := n.required + 1 }) c

/-- What is counted for a subscription. -/
def Counter.counted (c : Counter) (sub : Nat) : SubscriptionCounter :=
  (Assoc.find sub c).getD ⟨0, 0⟩

/-- The operand of a string equality constraint. -/
def Constraint.stringEqual? : Constraint → Option String
  | .str _ x .EQ _ => some x
  | _ => none

/-- `std::get<std::string_view>(operand())`. The index asks string constraints only. -/
def Constraint.operandStr : Constraint → String
  | .str _ x _ _ => x
  | _ => ""

structure ConstraintIndex where
  string_equal : List ConstraintItem
  index : List ConstraintItem
deriving DecidableEq, Repr

namespace ConstraintIndex

def empty : ConstraintIndex := ⟨[], []⟩

/-- The comparison of `std::lower_bound` over the sorted vector. -/
def below (x : String) (item : ConstraintItem) : Bool := decide (item.1.operandStr < x)

/-- The new pair goes to the end unless the subscription is there already. -/
def addPair (sub : Nat) (opt : Bool) (subs : List (Nat × Bool)) : List (Nat × Bool) :=
  if subs.any (fun e => e.1 == sub) then subs else subs ++ [(sub, opt)]

/-- A single pair takes its item with it, whosever it is. -/
def removePair (sub : Nat) (item : ConstraintItem) : List ConstraintItem :=
  if item.2.length = 1 then [] else [(item.1, item.2.eraseP fun e => e.1 = sub)]

def insertString (c : Constraint) (x : String) (sub : Nat) (opt : Bool)
    (items : List ConstraintItem) :
    List ConstraintItem × Constraint :=
  let before := items.takeWhile (below x)
  match items.dropWhile (below x) with
  | [] => (before ++ [(c, [(sub, opt)])], c)
  | item :: rest =>
    if item.1.operandStr = x then (before ++ (item.1, addPair sub opt item.2) :: rest, item.1)
    else (before ++ (c, [(sub, opt)]) :: item :: rest, c)

def insertFallback (c : Constraint) (sub : Nat) (opt : Bool) :
    List ConstraintItem → List ConstraintItem × Constraint
  | [] => ([(c, [(sub, opt)])], c)
  | item :: rest =>
    if item.1.eqv c then ((item.1, addPair sub opt item.2) :: rest, item.1)
    else
      let r := insertFallback c sub opt rest
      (item :: r.1, r.2)

/-- `ConstraintIndex::insert`, with the constraint that it returns. -/
def insert (ix : ConstraintIndex) (c : Constraint) (sub : Nat) (opt : Bool) :
    ConstraintIndex × Constraint :=
  match c.stringEqual? with
  | some x =>
    let r := insertString c x sub opt ix.string_equal
    ({ ix with string_equal := r.1 }, r.2)
  | none =>
    let r := insertFallback c sub opt ix.index
    ({ ix with index := r.1 }, r.2)

def removeString (x : String) (sub : Nat) (items : List ConstraintItem) : List ConstraintItem :=
  match items.dropWhile (below x) with
  | [] => items
  | item :: rest =>
    if item.1.operandStr = x then items.takeWhile (below x) ++ removePair sub item ++ rest
    else items

def removeFallback (c : Constraint) (sub : Nat) : List ConstraintItem → List ConstraintItem
  | [] => []
  | item :: rest =>
    if item.1.eqv c then removePair sub item ++ rest else item :: removeFallback c sub rest

/-- `ConstraintIndex::remove`. The flag says that the index is empty now. -/
def remove (ix : ConstraintIndex) (c : Constraint) (sub : Nat) : ConstraintIndex × Bool :=
  let ix' : ConstraintIndex :=
    match c.stringEqual? with
    | some x => { ix with string_equal := removeString x sub ix.string_equal }
    | none => { ix with index := removeFallback c sub ix.index }
  (ix', ix'.index.isEmpty && ix'.string_equal.isEmpty)

/-- The pairs that a value hits in the sorted vector. -/
def sortedHits (items : List ConstraintItem) : Variant → List (Nat × Bool)
  | .str x =>
    match items.dropWhile (below x) with
    | [] => []
    | item :: _ => if item.1.operandStr = x then item.2 else []
  | _ => []

/-- `ConstraintIndex::check`. -/
def check (ix : ConstraintIndex) (value : Variant) (counter : Counter) : Counter :=
  ix.index.foldl
    (fun counter item =>
      if item.1.accepts value then item.2.foldl Counter.bump counter else counter)
    ((sortedHits ix.string_equal value).foldl Counter.bump counter)

end ConstraintIndex

end UActor
