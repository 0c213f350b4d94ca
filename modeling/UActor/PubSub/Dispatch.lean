import UActor.PubSub.Filter

/-!
# The two filters

`Filter` and `InternalFilter` write the dispatch on the type of a value out twice each. A type
without a branch passes, and their branches differ.
-/

namespace UActor

/-! ## Types -/

/-- The operand of the constraint has the type of the value. -/
def Constraint.sameType : Constraint → Variant → Bool
  | .str .., .str _ | .int .., .int _ | .float .., .float _ | .list .., .map _ => true
  | _, _ => false

theorem Constraint.accepts_of_otherType {c : Constraint} {v : Variant} (h : c.sameType v = false) :
    c.accepts v = false := by
  cases c <;> cases v <;> first | rfl | simp [sameType] at h

theorem Constraint.nestedOk_of_otherType {c : Constraint} {m : Map} {v : Variant}
    (hv : m.getAttr c.attr = some v) (h : c.sameType v = false) : c.nestedOk m = false := by
  unfold Map.getAttr at hv
  have hhas : m.hasAttr c.attr = true := by simp [Map.hasAttr, hv]
  cases c with
  | str a x op opt =>
    have hget : m.getStrAttr a = none := by
      cases v <;> simp_all [sameType, Map.getStrAttr, attr]
    simp_all [nestedOk, attr]
  | int a x op opt =>
    have hget : m.getIntAttr a = none := by
      cases v <;> simp_all [sameType, Map.getIntAttr, attr]
    simp_all [nestedOk, attr]
  | float a x op opt =>
    have hget : m.getFloatAttr a = none := by
      cases v <;> simp_all [sameType, Map.getFloatAttr, attr]
    simp_all [nestedOk, attr]
  | list a cs op opt =>
    have hget : m.getNestedComponent a = none := by
      cases v <;> simp_all [sameType, Map.getNestedComponent, attr]
    simp_all [nestedOk, attr]

/-! ## One loop -/

namespace Filter

/-- One round of the four loops, over what the loop does with a value that is there. -/
def test (passes : Constraint → Variant → Bool) (needed : Bool) (p : Publication) (c : Constraint) :
    Bool :=
  match p.getAttr c.attr with
  | some v => passes c v
  | none => !needed

/-- The `InternalFilter` with the constraints of `f`. -/
def toInternal (f : Filter) : InternalFilter := ⟨f.required, f.optional⟩

theorem checkRequired_eq (f : Filter) (p : Publication) :
    f.checkRequired p = f.required.all (test passes true p) :=
  rfl

theorem checkOptionals_eq (f : Filter) (p : Publication) :
    f.checkOptionals p = f.optional.all (test passes false p) :=
  rfl

theorem toInternal_checkRequired (f : Filter) (p : Publication) :
    f.toInternal.checkRequired p = f.required.all (test InternalFilter.passes true p) :=
  rfl

theorem toInternal_checkOptionals (f : Filter) (p : Publication) :
    f.toInternal.checkOptionals p = f.optional.all (test InternalFilter.passes false p) :=
  rfl

/-- The constraint fails without a look into a map: its attribute is absent but needed, or has a
string, an integer or a float that the constraint refuses. -/
def refuses (needed : Bool) (p : Publication) (c : Constraint) : Bool :=
  match p.getAttr c.attr with
  | some v => v.isScalar && !c.accepts v
  | none => needed

/-- Where the attribute is a map, the constraint accepts it. -/
def MapFits (p : Publication) (c : Constraint) : Prop :=
  ∀ m, p.getAttr c.attr = some (.map m) → c.acceptsMap m = true

theorem test_internal (needed : Bool) (p : Publication) (c : Constraint) :
    test InternalFilter.passes needed p c = !refuses needed p c := by
  unfold test refuses
  cases p.getAttr c.attr with
  | none => rfl
  | some v => cases v <;> simp [InternalFilter.passes, Variant.isScalar, Constraint.accepts]

theorem test_filter (needed : Bool) (p : Publication) (c : Constraint) :
    test passes needed p c = true ↔ refuses needed p c = false ∧ MapFits p c := by
  unfold test refuses MapFits
  cases p.getAttr c.attr with
  | none => simp
  | some v => cases v <;> simp [passes, Variant.isScalar, Constraint.accepts]

/-- The loop with the missing branch is right if another constraint fails, or if no map does. -/
theorem loops_agree_iff (needed : Bool) (p : Publication) (cs : List Constraint) :
    cs.all (test InternalFilter.passes needed p) = cs.all (test passes needed p) ↔
      (∃ c ∈ cs, refuses needed p c = true) ∨ ∀ c ∈ cs, MapFits p c := by
  rw [Bool.eq_iff_iff]
  simp only [List.all_eq_true, test_filter, test_internal, Bool.not_eq_true']
  by_cases hr : ∃ c ∈ cs, refuses needed p c = true
  · obtain ⟨c, hc, href⟩ := hr
    have hno : ¬ ∀ x ∈ cs, refuses needed p x = false := fun h => by simp [h c hc] at href
    have hno' : ¬ ∀ x ∈ cs, refuses needed p x = false ∧ MapFits p x := fun h => hno fun x hx =>
      (h x hx).1
    exact ⟨fun _ => Or.inl ⟨c, hc, href⟩, fun _ => iff_of_false hno hno'⟩
  · have hall : ∀ x ∈ cs, refuses needed p x = false := by
      intro x hx
      rw [Bool.eq_false_iff]
      exact fun h => hr ⟨x, hx, h⟩
    constructor
    · exact fun h => Or.inr fun c hc => (h.mp hall c hc).2
    · rintro (h | h)
      · exact absurd h hr
      · exact ⟨fun _ x hx => ⟨hall x hx, h x hx⟩, fun _ => hall⟩

/-! ## Both filters -/

/-- The two implementations give one answer, and no constraint is satisfied by a value of another
type, at the top level or inside a map. -/
structure Agrees (f : Filter) (p : Publication) : Prop where
  required : f.toInternal.checkRequired p = f.checkRequired p
  optional : f.toInternal.checkOptionals p = f.checkOptionals p
  types : ∀ c ∈ f.constraints, ∀ v, p.getAttr c.attr = some v → c.sameType v = false →
    passes c v = false ∧ InternalFilter.passes c v = false
  nested : ∀ (c : Constraint) (m : Map) (v : Variant), m.getAttr c.attr = some v →
    c.sameType v = false →
    c.nestedOk m = false

/-- No constraint meets a binary value, or a map without having a list operand. In each of the two
lists, no map fails a constraint, or some constraint fails without a look into a map. -/
structure Covered (f : Filter) (p : Publication) : Prop where
  types : ∀ c ∈ f.constraints, ∀ v, p.getAttr c.attr = some v → c.sameType v = true ∨
    v.isScalar = true
  required : (∃ c ∈ f.required, refuses true p c = true) ∨ ∀ c ∈ f.required, MapFits p c
  optional : (∃ c ∈ f.optional, refuses false p c = true) ∨ ∀ c ∈ f.optional, MapFits p c

theorem otherType_refused_iff {c : Constraint} {v : Variant} (h : c.sameType v = false) :
    (passes c v = false ∧ InternalFilter.passes c v = false) ↔ v.isScalar = true := by
  have hacc := Constraint.accepts_of_otherType h
  cases v <;> simp_all [passes, InternalFilter.passes, Variant.isScalar, Constraint.accepts]

theorem agrees_iff_covered (f : Filter) (p : Publication) : f.Agrees p ↔ f.Covered p := by
  have htypes : (∀ c ∈ f.constraints, ∀ v, p.getAttr c.attr = some v → c.sameType v = false →
      passes c v = false ∧ InternalFilter.passes c v = false) ↔
      ∀ c ∈ f.constraints, ∀ v, p.getAttr c.attr = some v → c.sameType v = true ∨
        v.isScalar = true := by
    refine forall₂_congr fun c _ => forall₂_congr fun v _ => ?_
    cases ht : c.sameType v with
    | true => simp
    | false => simp [otherType_refused_iff ht]
  constructor
  · intro h
    refine ⟨htypes.mp h.types, ?_, ?_⟩
    · have hrequired := h.required
      rwa [toInternal_checkRequired, checkRequired_eq, loops_agree_iff] at hrequired
    · have hoptional := h.optional
      rwa [toInternal_checkOptionals, checkOptionals_eq, loops_agree_iff] at hoptional
  · intro h
    refine ⟨?_, ?_, htypes.mpr h.types, fun c m v => Constraint.nestedOk_of_otherType⟩
    · rw [toInternal_checkRequired, checkRequired_eq, loops_agree_iff]
      exact h.required
    · rw [toInternal_checkOptionals, checkOptionals_eq, loops_agree_iff]
      exact h.optional

/-- A required nested constraint and a map that it refuses. -/
theorem not_agrees_on_map :
    ¬ Agrees ⟨[.list "m" [.int "x" 1 .EQ false] .MAP_ALL false], []⟩
      ((Publication.ofPublisher "node" "a" "1").setAttr "m" (.map [("x", .int 2)])) := by
  intro h
  exact absurd h.required (by decide)

end Filter

end UActor
