import Mathlib.Algebra.Ring.Nat
import UActor.PubSub.FilterMap

/-!
# Filters that come back

A description stands under its attribute, and the constructors look for a question mark in it once
more. So the filters that come back from the wire are those whose attributes have none in front.
-/

namespace UActor

namespace Constraint

mutual

/-- The length of the attributes, at every level. -/
def weight : Constraint → Nat
  | .str attr _ _ _ | .int attr _ _ _ | .float attr _ _ _ => attr.length
  | .list attr cs _ _ => attr.length + weightAll cs

def weightAll : List Constraint → Nat
  | [] => 0
  | c :: cs => weight c + weightAll cs

end

theorem weightAll_eq (cs : List Constraint) : weightAll cs = (cs.map weight).sum := by
  induction cs with
  | nil => rfl
  | cons c cs ih => rw [weightAll, ih, List.map_cons, List.sum_cons]

theorem weightAll_perm {cs cs' : List Constraint} (h : cs.Perm cs') :
    weightAll cs = weightAll cs' := by
  rw [weightAll_eq, weightAll_eq]
  exact (h.map weight).sum_nat

mutual

theorem weight_same {c c' : Constraint} : Same c c' → weight c = weight c'
  | .str _ _ _ _ | .int _ _ _ _ | .float _ _ _ _ => rfl
  | .list attr op opt hperm hsame => by
    rw [weight, weight, weightAll_perm hperm, weightAll_same hsame]

theorem weightAll_same {cs cs' : List Constraint} :
    List.Forall₂ Same cs cs' → weightAll cs = weightAll cs'
  | .nil => rfl
  | .cons h hs => by rw [weightAll, weightAll, weight_same h, weightAll_same hs]

end

theorem weightAll_sameAll {cs cs' : List Constraint} (h : SameAll cs cs') :
    weightAll cs = weightAll cs' := by
  obtain ⟨mid, hperm, hall⟩ := h
  exact (weightAll_perm hperm).trans (weightAll_same hall)

theorem weightAll_append (cs cs' : List Constraint) :
    weightAll (cs ++ cs') = weightAll cs + weightAll cs' := by
  simp [weightAll_eq]

theorem namedAll_iff {cs : List Constraint} : namedAll cs = true ↔ ∀ c ∈ cs, named c = true := by
  induction cs with
  | nil => simp [namedAll]
  | cons c cs ih => rw [namedAll, Bool.and_eq_true, ih, List.forall_mem_cons]

theorem attributeOf_length {attr : String} {opt : Bool} {a : String × Bool}
    (h : attributeOf attr opt = some a) :
    a.1.length ≤ attr.length ∧ (attr.length ≤ a.1.length → namedAttribute attr = true) := by
  unfold attributeOf at h
  unfold namedAttribute
  rw [← String.length_toList, ← String.length_toList]
  split at h
  · cases h
  · rename_i rest hrest
    cases h
    simp [hrest]
  · rename_i hnil hmark
    cases h
    refine ⟨le_rfl, fun _ => ?_⟩
    match hcs : attr.toList with
    | [] => exact absurd hcs hnil
    | c :: cs =>
      simp only [bne_iff_ne, ne_eq]
      rintro rfl
      exact hmark cs hcs

/-- The constraint read comes from this one, and is as long only if no question mark was taken
off. -/
def Shortens (c c' : Constraint) : Prop :=
  weight c' ≤ weight c ∧ (weight c ≤ weight c' → named c = true)

theorem shortens_all {f : Constraint → Option Constraint} {cs cs' : List Constraint}
    (hf : ∀ c c', f c = some c' → Shortens c c') (h : cs.mapM f = some cs') :
    weightAll cs' ≤ weightAll cs ∧ (weightAll cs ≤ weightAll cs' → namedAll cs = true) := by
  induction cs generalizing cs' with
  | nil =>
    obtain rfl : [] = cs' := by simpa using h
    exact ⟨le_rfl, fun _ => rfl⟩
  | cons c cs ih =>
    simp only [List.mapM_cons, Option.bind_eq_bind, Option.bind_eq_some_iff, Option.pure_def,
      Option.some.injEq] at h
    obtain ⟨c₁, hc₁, cs₁, hcs₁, rfl⟩ := h
    obtain ⟨hle, hnamed⟩ := hf c c₁ hc₁
    obtain ⟨hle', hnamed'⟩ := ih hcs₁
    refine ⟨by rw [weightAll, weightAll]; omega, fun hge => ?_⟩
    rw [weightAll, weightAll] at hge
    rw [namedAll, hnamed (by omega), hnamed' (by omega)]
    rfl

end Constraint

namespace Filter

open Constraint

theorem shortens_reread (order : MapOrder) (depth : Nat) (c c' : Constraint)
    (h : reread (parseConstraintFromMap order depth) c = some c') : Shortens c c' := by
  induction depth generalizing c c' with
  | zero => cases h
  | succ depth ih =>
    unfold reread at h
    match c with
    | .str attr x op opt =>
      rw [describe, parseConstraintFromMap_description] at h
      obtain ⟨a, ha, rfl⟩ := Option.map_eq_some_iff.mp h
      exact attributeOf_length ha
    | .int attr x op opt =>
      rw [describe, parseConstraintFromMap_description] at h
      obtain ⟨a, ha, rfl⟩ := Option.map_eq_some_iff.mp h
      exact attributeOf_length ha
    | .float attr x op opt =>
      rw [describe, parseConstraintFromMap_description] at h
      obtain ⟨a, ha, rfl⟩ := Option.map_eq_some_iff.mp h
      exact attributeOf_length ha
    | .list attr cs op opt =>
      have hholds : Holds (addConstraintsToMap cs []) cs := by simpa using holds_nil.addAll cs
      obtain ⟨hentries, hperm⟩ := hholds.visit order
      rw [describe, parseConstraintFromMap_description] at h
      obtain ⟨cs', hcs', h⟩ := Option.bind_eq_some_iff.mp h
      obtain ⟨a, ha, rfl⟩ := Option.map_eq_some_iff.mp h
      rw [parseEntries_groups _ hentries] at hcs'
      obtain ⟨hattr, hattr'⟩ := attributeOf_length ha
      obtain ⟨hle, hnamed⟩ := shortens_all ih hcs'
      rw [← weightAll_perm hperm] at hle hnamed
      simp only [Constraint.attr] at hattr hattr'
      refine ⟨by rw [weight, weight]; omega, fun hge => ?_⟩
      rw [weight, weight] at hge
      rw [named, hattr' (by omega), Bool.true_and, namedAll_iff]
      intro c hc
      exact namedAll_iff.mp (hnamed (by omega)) c (hperm.mem_iff.mp hc)

/-! ## The loop over the map of a filter -/

section

variable (parse : String → Map → Option Constraint)

theorem foldlM_addParsed {α : Type} {cs : List α} (f : Filter) (p : α → Option Constraint) :
    cs.foldlM (fun f c => (p c).map (addParsed f)) f = (cs.mapM p).map fun cs' =>
      cs'.foldl addParsed f := by
  induction cs generalizing f with
  | nil => rfl
  | cons c cs ih =>
    rw [List.foldlM_cons, List.mapM_cons]
    cases p c with
    | none => rfl
    | some c' =>
      refine (ih (addParsed f c')).trans ?_
      cases cs.mapM p <;> simp

theorem foldlM_container {s : Filter → Nat → Option Filter} {p : Map → Option Constraint}
    {ds : List Map} (f : Filter) (hs : ∀ f i d, ds[i]? = some d → s f i = (p d).map (addParsed f)) :
    (List.range ds.length).foldlM s f = ds.foldlM (fun f m => (p m).map (addParsed f)) f := by
  induction ds generalizing s f with
  | nil => rfl
  | cons d ds ih =>
    rw [List.length_cons, List.range_succ_eq_map, List.foldlM_cons, List.foldlM_cons, hs f 0 d rfl]
    simp only [List.foldlM_map]
    cases p d with
    | none => rfl
    | some c => exact ih (addParsed f c) fun f i d hd => hs f (i + 1) d hd

theorem addEntry_grouped {cs : List Constraint} {attr : String} {item : Map} (f : Filter)
    (hattr : ∀ c ∈ cs, c.attr = attr) (hitem : grouped (cs.map describe) = some item) :
    addEntry parse f (attr, .map item) = (cs.mapM (reread parse)).map fun cs' =>
      cs'.foldl addParsed f := by
  rw [← mapM_describe parse hattr]
  unfold addEntry
  match cs with
  | [] => simp [grouped] at hitem
  | [c] =>
    obtain rfl : describe c = item := by simpa [grouped] using hitem
    simp only [describe_hasAttr, Bool.false_eq_true, if_false]
    cases hc : parse attr (describe c) <;> simp [hc]
  | a :: b :: cs =>
    obtain rfl : container ((a :: b :: cs).map describe) = item := by simpa [grouped] using hitem
    simp only [container_hasAttr, if_true]
    have hlen : (container ((a :: b :: cs).map describe)).length - 1 =
        ((a :: b :: cs).map describe).length := by
      simp [container]
    rw [hlen]
    refine Eq.trans (foldlM_container f ?_) (foldlM_addParsed f (parse attr))
    intro f i d hd
    rw [container_getNestedComponent, hd]

theorem foldlM_groups {cs : List Constraint} {entries : List (String × Variant)} (f : Filter)
    (hentries : ∀ e ∈ entries, some e.2 = (grouped ((group cs e.1).map describe)).map .map) :
    entries.foldlM (addEntry parse) f =
      ((entries.flatMap fun e => group cs e.1).mapM (reread parse)).map fun cs' =>
        cs'.foldl addParsed f := by
  induction entries generalizing f with
  | nil => rfl
  | cons e entries ih =>
    obtain ⟨attr, v⟩ := e
    obtain ⟨item, hitem, rfl⟩ :=
      Option.map_eq_some_iff.mp (hentries (attr, v) List.mem_cons_self).symm
    have hrest : ∀ e ∈ entries, some e.2 = (grouped ((group cs e.1).map describe)).map .map :=
      fun e he => hentries e (List.mem_cons_of_mem _ he)
    rw [List.foldlM_cons, addEntry_grouped parse f (fun c hc => (group_attr hc).2) hitem,
      List.flatMap_cons, List.mapM_append]
    cases (group cs attr).mapM (reread parse) with
    | none => rfl
    | some cs₁ =>
      refine (ih (cs₁.foldl addParsed f) hrest).trans ?_
      cases (entries.flatMap fun e => group cs e.1).mapM (reread parse) <;> simp

end

/-- The same constraints, as required and as optional ones. -/
def SameFilter (f g : Filter) : Prop :=
  SameAll f.required g.required ∧ SameAll f.optional g.optional

/-- The constructors sort the constraints by their flag. -/
def sorted (f : Filter) : Bool := (f.required.all fun c => !c.optional) && f.optional.all fun c =>
    c.optional

/-- Sorted, and with attributes that the constructors leave as they are. -/
def carried (f : Filter) : Bool := f.sorted && namedAll f.constraints

theorem sameAll_flag {cs cs' : List Constraint} (h : SameAll cs cs') {opt : Bool}
    (hcs' : ∀ c ∈ cs', c.optional = opt) :
    ∀ c ∈ cs, c.optional = opt := by
  obtain ⟨mid, hperm, hall⟩ := h
  suffices hmid : ∀ c ∈ mid, c.optional = opt from fun c hc => hmid c (hperm.mem_iff.mp hc)
  clear hperm
  induction hall with
  | nil => simp
  | cons hsame _ ih =>
    rw [List.forall_mem_cons] at hcs' ⊢
    exact ⟨(same_optional hsame).trans hcs'.1, ih hcs'.2⟩

theorem sorted_of_same {f : Filter} {cs : List Constraint}
    (h : SameFilter f (addAllParsed ⟨[], []⟩ cs)) :
    f.sorted = true := by
  rw [sorted, Bool.and_eq_true, List.all_eq_true, List.all_eq_true]
  have hrequired : ∀ c ∈ f.required, c.optional = false := sameAll_flag h.1 (by simp [addAllParsed])
  exact ⟨fun c hc => by simp [hrequired c hc], sameAll_flag h.2 (by simp [addAllParsed])⟩

theorem ofConstraints_of_sorted {f : Filter} (h : f.sorted = true) :
    ofConstraints f.constraints = f := by
  rw [sorted, Bool.and_eq_true, List.all_eq_true, List.all_eq_true] at h
  have hrequired : ∀ c ∈ f.required, c.optional = false := fun c hc => by simpa using h.1 c hc
  unfold ofConstraints Filter.constraints
  rw [List.filter_append, List.filter_append, List.filter_eq_self.mpr h.1,
    List.filter_eq_self.mpr h.2, List.filter_eq_nil_iff.mpr fun c hc => by simp [h.2 c hc],
    List.filter_eq_nil_iff.mpr fun c hc => by
      simp [hrequired c hc], List.append_nil, List.nil_append]

/-- A filter comes back from the wire if and only if its attributes do. -/
theorem comes_back_iff (order : MapOrder) (f : Filter) :
    (∃ g, fromPublicationMap order f.toPublicationMap = some g ∧ SameFilter f g) ↔
      f.carried = true := by
  unfold carried
  rw [Bool.and_eq_true]
  constructor
  · rintro ⟨g, hg, hsame⟩
    have hholds : Holds f.toPublicationMap f.constraints := (holds_nil.addAll _).addAll _
    obtain ⟨hentries, hperm⟩ := hholds.visit order
    unfold fromPublicationMap at hg
    rw [foldlM_groups _ _ hentries] at hg
    obtain ⟨cs', hcs', rfl⟩ := Option.map_eq_some_iff.mp hg
    rw [foldl_addParsed] at hsame
    obtain ⟨-, hnamed⟩ := shortens_all (shortens_reread order _) hcs'
    rw [← weightAll_perm hperm] at hnamed
    -- reading it shortened no attribute, since the filter is the same
    have hweight : weightAll f.constraints = weightAll cs' := by
      have hsplit := weightAll_perm (List.filter_append_perm (fun c : Constraint => c.optional) cs')
      rw [weightAll_append] at hsplit
      have hrequired := weightAll_sameAll hsame.1
      have hoptional := weightAll_sameAll hsame.2
      simp only [addAllParsed, List.nil_append] at hrequired hoptional
      rw [Filter.constraints, weightAll_append, hrequired, hoptional]
      omega
    refine ⟨sorted_of_same hsame, namedAll_iff.mpr fun c hc => ?_⟩
    exact namedAll_iff.mp (hnamed hweight.le) c (hperm.mem_iff.mp hc)
  · rintro ⟨hsorted, hnamed⟩
    have hf := fromPublicationMap_ofConstraints order hnamed
    rwa [ofConstraints_of_sorted hsorted] at hf

end Filter

end UActor
