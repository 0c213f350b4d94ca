import UActor.PubSub.Faults

/-!
# The grammar of filters

The maps that describe a filter, and what `from_publication_map` answers to all others.
-/

namespace UActor

namespace Filter

open Fault

/-! ## The grammar -/

mutual

/-- The description of a constraint on an attribute. An `operator` that is no string counts as
absent. -/
inductive Description : String → Map → Prop
  | intro {key : String} {item : Map} {operand : Variant} (hkey : key ≠ "")
      (hoperator : ∀ raw_pred, item.getStrAttr "operator" = some raw_pred →
        (Predicate.fromString raw_pred).isSome)
      (hoperand : item.getAttr "operand" = some operand) (hfits : Operand operand) :
      Description key item

/-- What a constraint may compare with. -/
inductive Operand : Variant → Prop
  | str (operand : String) : Operand (.str operand)
  | int (operand : Int32) : Operand (.int operand)
  | float (operand : F32) : Operand (.float operand)
  | map {operand : Map} (h : ∀ entry ∈ operand, Entry entry) : Operand (.map operand)

/-- One description of an attribute, or a container with numbered ones. -/
inductive Entry : String × Variant → Prop
  | single {attr : String} {item : Map} (hmarker : item.hasAttr "_m" = false)
      (h : Description attr item) :
      Entry (attr, .map item)
  | container {attr : String} {item : Map} (parts : Nat → Map) (hmarker : item.hasAttr "_m" = true)
      (hparts : ∀ i < item.length - 1, item.getNestedComponent (toString i) = some (parts i))
      (h : ∀ i < item.length - 1, Description attr (parts i)) : Entry (attr, .map item)

end

/-- The map of a filter. -/
def Grammatical (m : Map) : Prop := ∀ entry ∈ m, Entry entry

theorem entry_iff (attr : String) (item : Map) : Entry (attr, .map item) ↔
    if item.hasAttr "_m" then
      ∀ i < item.length - 1, ∃ part, item.getNestedComponent (toString i) = some part ∧
        Description attr part
    else Description attr item := by
  constructor
  · intro h
    cases h with
    | single hmarker h => simpa [hmarker] using h
    | container parts hmarker hparts h =>
      rw [if_pos hmarker]
      exact fun i hi => ⟨parts i, hparts i hi, h i hi⟩
  · intro h
    split at h
    · rename_i hmarker
      -- past the last part the choice does not matter
      have hpart : ∀ i, ∃ part, i < item.length - 1 →
          item.getNestedComponent (toString i) = some part ∧ Description attr part := by
        intro i
        by_cases hi : i < item.length - 1
        · obtain ⟨part, hpart⟩ := h i hi
          exact ⟨part, fun _ => hpart⟩
        · exact ⟨[], fun hlt => absurd hlt hi⟩
      obtain ⟨parts, hparts⟩ := Classical.axiomOfChoice hpart
      exact .container parts hmarker (fun i hi => (hparts i hi).1) fun i hi => (hparts i hi).2
    · rename_i hmarker
      exact .single (by simpa using hmarker) h

/-! ## What is read -/

section

variable {read : String → Map → Except Fault Constraint} {items : Map → Prop}
  (h : ∀ attr item, items item → ((∃ c, read attr item = .ok c) ↔ Description attr item))

include h

theorem readItem_ok {attr : String} {item : Map} (hitem : items item)
    (hparts : ∀ name part, item.getNestedComponent name = some part → items part) :
    (∃ cs, readItem read attr item = .ok cs) ↔ Entry (attr, .map item) := by
  rw [entry_iff]
  unfold readItem
  split
  · rw [mapM_ok]
    simp only [List.mem_range, bind_ok, deref_ok]
    constructor
    · intro hall i hi
      obtain ⟨c, part, hpart, hc⟩ := hall i hi
      exact ⟨part, hpart, (h attr part (hparts _ _ hpart)).mp ⟨c, hc⟩⟩
    · intro hall i hi
      obtain ⟨part, hpart, hdesc⟩ := hall i hi
      obtain ⟨c, hc⟩ := (h attr part (hparts _ _ hpart)).mpr hdesc
      exact ⟨c, part, hpart, hc⟩
  · rw [← h attr item hitem]
    simp only [map_ok]
    constructor
    · rintro ⟨cs, c, hc, -⟩
      exact ⟨c, hc⟩
    · rintro ⟨c, hc⟩
      exact ⟨[c], c, hc, rfl⟩

theorem readEntries_ok {entries : List (String × Variant)}
    (hitems : ∀ attr item, (attr, Variant.map item) ∈ entries → items item ∧
      ∀ name part, Map.getNestedComponent item name = some part → items part) :
    (∃ cs, readEntries read entries = .ok cs) ↔ ∀ entry ∈ entries, Entry entry := by
  induction entries with
  | nil => exact iff_of_true ⟨[], rfl⟩ (by simp)
  | cons entry entries ih =>
    have hrest := ih fun attr item hmem => hitems attr item (List.mem_cons_of_mem _ hmem)
    rw [List.forall_mem_cons, ← hrest]
    obtain ⟨attr, v⟩ := entry
    cases v with
    | str | int | float | bin =>
      refine iff_of_false (by simp [readEntries]) ?_
      rintro ⟨hentry, -⟩
      cases hentry
    | map item =>
      obtain ⟨hitem, hparts⟩ := hitems attr item List.mem_cons_self
      rw [← readItem_ok h hitem hparts, readEntries]
      simp only [bind_ok, map_ok]
      constructor
      · rintro ⟨_, cs, hcs, cs', hcs', -⟩
        exact ⟨⟨cs, hcs⟩, cs', hcs'⟩
      · rintro ⟨⟨cs, hcs⟩, cs', hcs'⟩
        exact ⟨_, cs, hcs, cs', hcs', rfl⟩

end

theorem depth_lt_of_mem {m item : Map} {attr : String} (h : (attr, Variant.map item) ∈ m) :
    Map.depth item < Map.depth m := by
  have := depth_le_of_mem h
  rw [Variant.depth] at this
  omega

theorem depth_lt_of_part {item part : Map} {name : String}
    (h : item.getNestedComponent name = some part) :
    Map.depth part < Map.depth item := by
  unfold Map.getNestedComponent at h
  split at h
  · rename_i m hm
    obtain rfl := Option.some.inj h
    exact depth_lt_of_mem (Assoc.mem_of_find hm)
  · cases h

theorem description_iff (key : String) (item : Map) : Description key item ↔ key ≠ "" ∧
    (∀ raw_pred, item.getStrAttr "operator" = some raw_pred →
      (Predicate.fromString raw_pred).isSome) ∧
    ∃ operand, item.getAttr "operand" = some operand ∧ Operand operand := by
  constructor
  · intro h
    cases h with
    | intro hkey hoperator hoperand hfits => exact ⟨hkey, hoperator, _, hoperand, hfits⟩
  · rintro ⟨hkey, hoperator, operand, hoperand, hfits⟩
    exact .intro hkey hoperator hoperand hfits

/-- The operator of a description, `EQ` if there is none. -/
def operatorOf : Option String → Option Predicate
  | some raw_pred => Predicate.fromString raw_pred
  | none => some .EQ

theorem operatorOf_ok (raw : Option String) : (∃ pred, operatorOf raw = some pred) ↔
    ∀ raw_pred, raw = some raw_pred → (Predicate.fromString raw_pred).isSome := by
  cases raw with
  | none => simp [operatorOf]
  | some raw_pred => simp [operatorOf, Option.isSome_iff_exists]

/-- The branches of `parse_constraint_from_map` on the operand. -/
def readOperand (read : String → Map → Except Fault Constraint) (order : MapOrder) (key : String)
    (pred : Predicate) (opt : Bool) : Option Variant → Except Fault Constraint
  | some (.str operand) => orThrow (Constraint.ofStr key operand pred opt)
  | some (.int operand) => orThrow (Constraint.ofInt key operand pred opt)
  | some (.float operand) => orThrow (Constraint.ofFloat key operand pred opt)
  | some (.map operand) =>
    (readEntries read (order.visit operand)).bind fun constraints =>
      orThrow (Constraint.ofList key constraints pred opt)
  | some (.bin _) | none => .error .absent

/-- The flag of a description. -/
def flagOf : Option Int32 → Bool
  | some raw_optional => raw_optional == 1
  | none => false

theorem readConstraintFromMap_eq (order : MapOrder) (depth : Nat) (key : String) (item : Map) :
    readConstraintFromMap order (depth + 1) key item =
      (deref (operatorOf (item.getStrAttr "operator"))).bind fun pred =>
        readOperand (readConstraintFromMap order depth) order key pred
          (flagOf (item.getIntAttr "optional")) (item.getAttr "operand") := by
  unfold readConstraintFromMap operatorOf flagOf
  dsimp only
  congr 1

theorem operand_map_iff (operand : Map) :
    Operand (.map operand) ↔ ∀ entry ∈ operand, Entry entry := by
  constructor
  · intro h
    cases h with
    | map h => exact h
  · exact .map

theorem readOperand_ok {depth : Nat} (order : MapOrder)
    {read : String → Map → Except Fault Constraint}
    (hread : ∀ key item, Map.depth item < depth →
      ((∃ c, read key item = .ok c) ↔ Description key item)) (key : String) (pred : Predicate)
      (opt : Bool) {operand : Variant} (hdepth : operand.depth ≤ depth) :
    (∃ c, readOperand read order key pred opt (some operand) = .ok c) ↔ key ≠ "" ∧
    Operand operand := by
  have hattr := Constraint.attributeOf_isSome key opt
  cases operand with
  | str x => exact (orThrow_map_ok _ _).trans (hattr.trans (iff_self_and.mpr fun _ => .str x))
  | int x => exact (orThrow_map_ok _ _).trans (hattr.trans (iff_self_and.mpr fun _ => .int x))
  | float x => exact (orThrow_map_ok _ _).trans (hattr.trans (iff_self_and.mpr fun _ => .float x))
  | bin x =>
    refine iff_of_false (by simp [readOperand]) ?_
    rintro ⟨-, hfits⟩
    cases hfits
  | map operand =>
    rw [Variant.depth] at hdepth
    have hitems : ∀ attr item, (attr, Variant.map item) ∈ order.visit operand →
        Map.depth item < depth ∧
        ∀ name part, Map.getNestedComponent item name = some part → Map.depth part < depth := by
      intro attr item hmem
      have hitem := depth_lt_of_mem ((order.perm operand).mem_iff.mp hmem)
      refine ⟨by omega, fun name part hpart => ?_⟩
      have := depth_lt_of_part hpart
      omega
    have hvisit : (∀ entry ∈ operand, Entry entry) ↔ ∀ entry ∈ order.visit operand,
        Entry entry := by
      simp only [(order.perm operand).mem_iff]
    rw [operand_map_iff, hvisit, ← readEntries_ok hread hitems, ← hattr]
    simp only [readOperand, bind_ok]
    constructor
    · rintro ⟨c, cs, hcs, hc⟩
      exact ⟨(orThrow_map_ok _ _).mp ⟨c, hc⟩, cs, hcs⟩
    · rintro ⟨hkey, cs, hcs⟩
      obtain ⟨c, hc⟩ := (orThrow_map_ok _ fun a => Constraint.list a.1 cs pred a.2).mpr hkey
      exact ⟨c, cs, hcs, hc⟩

/-- A description is read exactly if it follows the grammar. -/
theorem readConstraintFromMap_ok (order : MapOrder) (depth : Nat) (key : String) (item : Map)
    (hdepth : Map.depth item < depth) :
    (∃ c, readConstraintFromMap order depth key item = .ok c) ↔ Description key item := by
  -- By induction on the depth: the descriptions in an operand are further down.
  induction depth generalizing key item with
  | zero => omega
  | succ depth ih =>
    rw [description_iff, ← operatorOf_ok, readConstraintFromMap_eq]
    simp only [bind_ok, deref_ok]
    cases hget : item.getAttr "operand" with
    | none => simp [readOperand]
    | some operand =>
      have hle : operand.depth ≤ Map.depth item := depth_le_of_mem (Assoc.mem_of_find hget)
      have hoperand := fun pred opt => readOperand_ok order ih key pred opt
        (show operand.depth ≤ depth by omega)
      simp only [Option.some.injEq, exists_eq_left']
      constructor
      · rintro ⟨c, pred, hpred, hc⟩
        obtain ⟨hkey, hfits⟩ := (hoperand pred _).mp ⟨c, hc⟩
        exact ⟨hkey, ⟨pred, hpred⟩, hfits⟩
      · rintro ⟨hkey, ⟨pred, hpred⟩, hfits⟩
        obtain ⟨c, hc⟩ := (hoperand pred _).mpr ⟨hkey, hfits⟩
        exact ⟨c, pred, hpred, hc⟩

/-! ## What is answered -/

/-- The result of `parse_constraint_from_map`: a constraint, `std::nullopt`, or it throws. -/
def attempt {α : Type} : Except Fault α → Except Fault (Option α)
  | .ok a => .ok (some a)
  | .error .absent => .ok none
  | .error .exception => .error .exception

/-- What the loops of `from_publication_map` do with it. The flag is asked for first. -/
def addChecked (f : Filter) (c : Option Constraint) : Except Fault (Option Filter) :=
  (deref (c.map Constraint.optional)).map fun opt =>
    if opt then c.map fun c => { f with optional := f.optional ++ [c] }
    else c.map fun c => { f with required := f.required ++ [c] }

/-- The loops, which leave the function with `std::nullopt`. -/
def checkDescriptions (read : String → Map → Except Fault Constraint) :
    Filter → List (String × Map) → Except Fault (Option Filter)
  | f, [] => .ok (some f)
  | f, (attr, item) :: rest =>
    (attempt (read attr item)).bind fun c => (addChecked f c).bind fun
      | some f' => checkDescriptions read f' rest
      | none => .ok none

/-- `Filter::from_publication_map`, with `std::nullopt` told apart from what it does not return
from. -/
def checkPublicationMap (order : MapOrder) (m : Map) : Except Fault (Option Filter) :=
  checkDescriptions (readConstraintFromMap order (Map.depth m)) ⟨[], []⟩
    (descriptions (order.visit m))

/-- There is no `std::nullopt`: the flag of a failed constraint has been asked for by then. -/
theorem checkDescriptions_eq (read : String → Map → Except Fault Constraint) (f : Filter)
    (ds : List (String × Map)) :
    checkDescriptions read f ds = (ds.foldlM (fun f d => (read d.1 d.2).map (addParsed f)) f).map
      some := by
  induction ds generalizing f with
  | nil => rfl
  | cons d ds ih =>
    obtain ⟨attr, item⟩ := d
    rw [checkDescriptions, List.foldlM_cons]
    cases read attr item with
    | error e => cases e <;> rfl
    | ok c =>
      have hadd : addChecked f (some c) = .ok (some (addParsed f c)) := by
        unfold addChecked addParsed
        cases hopt : c.optional <;> simp [deref, Except.map, hopt]
      dsimp only [attempt, Except.bind]
      rw [hadd]
      exact ih _

theorem checkPublicationMap_eq (order : MapOrder) (m : Map) :
    checkPublicationMap order m = (readPublicationMap order m).map some :=
  checkDescriptions_eq _ _ _

theorem described_of_grammatical {entries : List (String × Variant)}
    (h : ∀ entry ∈ entries, Entry entry) :
    ∀ d ∈ descriptions entries, Description d.1 d.2 := by
  intro d hd
  obtain ⟨entry, hentry, hd⟩ := List.mem_flatMap.mp hd
  cases h entry hentry with
  | single hmarker hdesc =>
    simp only [hmarker, Bool.false_eq_true, if_false, List.mem_singleton] at hd
    exact hd ▸ hdesc
  | container parts hmarker hparts hdesc =>
    simp only [hmarker, if_true, List.mem_filterMap, List.mem_range] at hd
    obtain ⟨i, hi, hd⟩ := hd
    rw [hparts i hi] at hd
    exact Option.some.inj hd ▸ hdesc i hi

theorem depth_lt_of_description {m entries : Map} (hsub : ∀ entry ∈ entries, entry ∈ m)
    {d : String × Map} (h : d ∈ descriptions entries) : Map.depth d.2 < Map.depth m := by
  obtain ⟨⟨attr, v⟩, hentry, hd⟩ := List.mem_flatMap.mp h
  cases v with
  | str | int | float | bin => simp at hd
  | map item =>
    have hitem := depth_lt_of_mem (hsub _ hentry)
    dsimp only at hd
    split at hd
    · obtain ⟨i, -, hfound⟩ := List.mem_filterMap.mp hd
      obtain ⟨part, hpart, rfl⟩ := Option.map_eq_some_iff.mp hfound
      exact (depth_lt_of_part hpart).trans hitem
    · rw [List.mem_singleton.mp hd]
      exact hitem

theorem readPublicationMap_grammatical (order : MapOrder) {m : Map} (h : Grammatical m) :
    ∃ f, readPublicationMap order m = .ok f := by
  refine foldlM_map_ok.mpr fun d hd => ?_
  have hsub : ∀ entry ∈ order.visit m, entry ∈ m := fun entry hmem => (order.perm m).mem_iff.mp hmem
  have hdesc := described_of_grammatical (fun entry hmem => h entry (hsub entry hmem)) d hd
  exact (readConstraintFromMap_ok order _ d.1 d.2 (depth_lt_of_description hsub hd)).mpr hdesc

/-- A filter for a map in the grammar, and `std::nullopt` for every other. -/
def AnswersGrammar (order : MapOrder) (m : Map) : Prop :=
  (∃ f, checkPublicationMap order m = .ok (some f)) ∧ Grammatical m ∨
    checkPublicationMap order m = .ok none ∧ ¬ Grammatical m

/-- The parser is right about the maps in the grammar, and about no other map. -/
theorem answersGrammar_iff (order : MapOrder) (m : Map) :
    AnswersGrammar order m ↔ Grammatical m := by
  constructor
  · rintro (⟨-, hgrammar⟩ | ⟨hnone, -⟩)
    · exact hgrammar
    · rw [checkPublicationMap_eq, map_ok] at hnone
      obtain ⟨f, -, hf⟩ := hnone
      cases hf
  · intro h
    obtain ⟨f, hf⟩ := readPublicationMap_grammatical order h
    exact .inl ⟨⟨f, by rw [checkPublicationMap_eq, hf]; rfl⟩, h⟩

/-- A description without an operand is asked for its flag. -/
theorem not_answersGrammar : ¬ AnswersGrammar ⟨id, fun m => .refl m⟩
    [("x", .map [("operator", .str "EQ")])] := by
  rintro (⟨⟨f, hf⟩, -⟩ | ⟨hnone, -⟩)
  · cases hf
  · cases hnone

end Filter

end UActor
