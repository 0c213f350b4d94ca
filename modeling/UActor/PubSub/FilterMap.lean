import UActor.PubSub.Filter

/-!
# Filters on the wire

`parse_constraint_from_map` and `from_publication_map`, and that they undo `to_publication_map`. The
loops go over hash maps, so they may see the entries in any order.
-/

namespace UActor

/-- The order in which a loop sees the entries of a map. -/
structure MapOrder where
  visit : Map → Map
  perm : ∀ m, (visit m).Perm m

/-- The order in which this model lists the entries. -/
def MapOrder.plain : MapOrder := ⟨id, fun m => .refl m⟩

mutual

/-- How deep the maps are nested. -/
def Variant.depth : Variant → Nat
  | .map m => Map.depth m + 1
  | .str _ | .int _ | .float _ | .bin _ => 0

def Map.depth : List (String × Variant) → Nat
  | [] => 0
  | (_, v) :: m => max (Variant.depth v) (Map.depth m)

end

namespace Constraint

/-- The other constructors, for operands that are no strings. -/
def ofInt (attr : String) (oper : Int32) (op : Predicate) (opt : Bool) : Option Constraint :=
  (attributeOf attr opt).map fun a => .int a.1 oper op a.2

def ofFloat (attr : String) (oper : F32) (op : Predicate) (opt : Bool) : Option Constraint :=
  (attributeOf attr opt).map fun a => .float a.1 oper op a.2

def ofList (attr : String) (oper : List Constraint) (op : Predicate) (opt : Bool) :
    Option Constraint :=
  (attributeOf attr opt).map fun a => .list a.1 oper op a.2

theorem attributeOf_isSome (attr : String) (opt : Bool) :
    (∃ a, attributeOf attr opt = some a) ↔ attr ≠ "" := by
  unfold attributeOf
  split
  · rename_i hnil
    simp [String.toList_eq_nil_iff.mp hnil]
  · rename_i rest hrest
    refine iff_of_true ⟨_, rfl⟩ ?_
    rintro rfl
    cases hrest
  · rename_i hne _
    exact iff_of_true ⟨_, rfl⟩ fun heq => hne (by rw [heq]; rfl)

end Constraint

namespace Filter

/-- The constraints of one attribute: one description, or a container with numbered ones. -/
def parseItem (parse : String → Map → Option Constraint) (attr : String) (item : Map) :
    Option (List Constraint) :=
  if item.hasAttr "_m" then
    (List.range (item.length - 1)).mapM fun i => (item.getNestedComponent (toString i)).bind
      (parse attr)
  else (parse attr item).map fun c => [c]

/-- The loop over the operand of a nested constraint. -/
def parseEntries (parse : String → Map → Option Constraint) :
    List (String × Variant) → Option (List Constraint)
  | [] => some []
  | (attr, .map item) :: entries =>
    (parseItem parse attr item).bind fun cs => (parseEntries parse entries).map fun cs' => cs ++ cs'
  | _ :: _ => none

/-- `Filter::parse_constraint_from_map`, for maps up to a depth. -/
def parseConstraintFromMap (order : MapOrder) : Nat → String → Map → Option Constraint
  | 0, _, _ => none
  | depth + 1, key, item =>
    let pred := match item.getStrAttr "operator" with
      | some raw_pred => Predicate.fromString raw_pred
      | none => some .EQ
    let optional := match item.getIntAttr "optional" with
      | some raw_optional => raw_optional == 1
      | none => false
    pred.bind fun pred =>
      match item.getAttr "operand" with
      | some (.str operand) => Constraint.ofStr key operand pred optional
      | some (.int operand) => Constraint.ofInt key operand pred optional
      | some (.float operand) => Constraint.ofFloat key operand pred optional
      | some (.map operand) =>
        (parseEntries (parseConstraintFromMap order depth) (order.visit operand)).bind
          fun constraints =>
          Constraint.ofList key constraints pred optional
      | some (.bin _) | none => none

def addParsed (f : Filter) (c : Constraint) : Filter :=
  if c.optional then { f with optional := f.optional ++ [c] }
  else { f with required := f.required ++ [c] }

/-- The body of the loop of `from_publication_map`. It passes over what is no map, unlike the loop
over an operand, and reads the flag before it looks whether there is a constraint: `none` stands for
that too. -/
def addEntry (parse : String → Map → Option Constraint) (f : Filter) :
    String × Variant → Option Filter
  | (attr, .map item) =>
    if Map.hasAttr item "_m" then
      (List.range (item.length - 1)).foldlM (fun f i =>
        match Map.getNestedComponent item (toString i) with
        | some m => (parse attr m).map (addParsed f)
        | none => some f) f
    else (parse attr item).map (addParsed f)
  | _ => some f

/-- `Filter::from_publication_map`. -/
def fromPublicationMap (order : MapOrder) (m : Map) : Option Filter :=
  (order.visit m).foldlM (addEntry (parseConstraintFromMap order (Map.depth m))) ⟨[], []⟩

end Filter

/-! ## Filters up to the order of their constraints -/

namespace Constraint

/-- The same constraint, but for the order of nested constraints. -/
inductive Same : Constraint → Constraint → Prop
  | str (attr operand : String) (op : Predicate) (opt : Bool) :
      Same (.str attr operand op opt) (.str attr operand op opt)
  | int (attr : String) (operand : Int32) (op : Predicate) (opt : Bool) :
    Same (.int attr operand op opt) (.int attr operand op opt)
  | float (attr : String) (operand : F32) (op : Predicate) (opt : Bool) :
    Same (.float attr operand op opt) (.float attr operand op opt)
  | list (attr : String) {cs mid cs' : List Constraint} (op : Predicate) (opt : Bool)
      (hperm : cs.Perm mid)
    (hsame : List.Forall₂ Same mid cs') : Same (.list attr cs op opt) (.list attr cs' op opt)

/-- The same multiset of constraints. -/
def SameAll (cs cs' : List Constraint) : Prop := ∃ mid, cs.Perm mid ∧ List.Forall₂ Same mid cs'

/-- The attribute is not empty and has no question mark in front. -/
def namedAttribute (attr : String) : Bool :=
  match attr.toList with
  | [] => false
  | c :: _ => c != '?'

mutual

/-- So have all attributes, at every level. -/
def named : Constraint → Bool
  | .str attr _ _ _ | .int attr _ _ _ | .float attr _ _ _ => namedAttribute attr
  | .list attr cs _ _ => namedAttribute attr && namedAll cs

def namedAll : List Constraint → Bool
  | [] => true
  | c :: cs => named c && namedAll cs

end

end Constraint

/-! ## What the map holds -/

namespace Filter

/-- The container for several descriptions of one attribute. -/
def container (ds : List Map) : Map := ("_m", .int 1) :: Assoc.numbered 0 (ds.map .map)

/-- What stands under an attribute, by the descriptions added for it. -/
def grouped : List Map → Option Map
  | [] => none
  | [d] => some d
  | ds => some (container ds)

theorem describe_hasAttr (c : Constraint) : (describe c).hasAttr "_m" = false := by
  cases c <;> rfl

theorem container_hasAttr (ds : List Map) : (container ds).hasAttr "_m" = true := rfl

theorem toString_ne_marker (i : Nat) : "_m" ≠ toString i := by
  intro h
  have hmem : '_' ∈ Nat.toDigits 10 i := by
    rw [← Nat.toList_repr]
    exact (congrArg String.toList h) ▸ (by decide : '_' ∈ "_m".toList)
  exact absurd (Nat.isDigit_of_mem_toDigits (by decide) (by decide) hmem) (by decide)

theorem container_setAttr (ds : List Map) (d : Map) :
    (container ds).setAttr (toString ((container ds).length - 1)) (.map d) =
      container (ds ++ [d]) := by
  have hput := Assoc.put_numbered 0 (ds.map Variant.map) (.map d)
  rw [Nat.zero_add] at hput
  have hlen : (container ds).length - 1 = (ds.map Variant.map).length := by simp [container]
  rw [hlen, Map.setAttr, container, Assoc.put, if_neg (toString_ne_marker _), hput]
  simp [container]

theorem container_getNestedComponent (ds : List Map) (i : Nat) :
    (container ds).getNestedComponent (toString i) = ds[i]? := by
  have hfind := Assoc.find_numbered 0 i (ds.map Variant.map)
  rw [Nat.zero_add] at hfind
  rw [Map.getNestedComponent, container, Assoc.find, if_neg (toString_ne_marker i), hfind,
    List.getElem?_map]
  cases ds[i]? <;> rfl

/-- The descriptions of the constraints on one attribute. -/
def group (cs : List Constraint) (attr : String) : List Constraint :=
  cs.filter fun c => decide (c.attr = attr)

/-- The map holds these constraints, grouped by their attribute. -/
structure Holds (m : Map) (cs : List Constraint) : Prop where
  keys_nodup : (Assoc.keys m).Nodup
  find_eq : ∀ attr, Assoc.find attr m = (grouped ((group cs attr).map describe)).map .map

theorem holds_nil : Holds [] [] := ⟨List.nodup_nil, fun _ => rfl⟩

theorem addDescription_eq (m : Map) (attr : String) (cs : List Constraint) (c : Constraint)
    (h : Assoc.find attr m = (grouped (cs.map describe)).map .map) :
    ∃ item, addDescription m attr (describe c) = m.setAttr attr (.map item) ∧
      grouped ((cs ++ [c]).map describe) = some item := by
  unfold addDescription Map.getNestedComponent
  rw [h]
  match cs with
  | [] => exact ⟨describe c, rfl, rfl⟩
  | [b] =>
    refine ⟨container [describe b, describe c], ?_, rfl⟩
    simp only [List.map_cons, List.map_nil, grouped, Option.map_some, describe_hasAttr]
    rfl
  | a :: b :: cs =>
    refine ⟨container ((a :: b :: cs).map describe ++ [describe c]), ?_, by simp [grouped]⟩
    simp only [List.map_cons, grouped, Option.map_some, container_hasAttr, if_true,
      container_setAttr]

theorem Holds.add {m : Map} {cs : List Constraint} (h : Holds m cs) (c : Constraint) :
    Holds (addDescription m c.attr (describe c)) (cs ++ [c]) := by
  obtain ⟨item, heq, hitem⟩ := addDescription_eq m c.attr (group cs c.attr) c (h.find_eq c.attr)
  rw [heq]
  refine ⟨Assoc.keys_put_nodup h.keys_nodup _ _, fun attr => ?_⟩
  rw [Map.setAttr, Assoc.find_put]
  unfold group at hitem ⊢
  rw [List.filter_append]
  by_cases hattr : c.attr = attr
  · subst hattr
    rw [List.filter_cons_of_pos (by simp), List.filter_nil, hitem, if_pos rfl, Option.map_some]
  · simp only [hattr, decide_false, Bool.false_eq_true, not_false_eq_true, List.filter_cons_of_neg,
      List.filter_nil, List.append_nil, if_false]
    exact h.find_eq attr

theorem Holds.addAll {m : Map} {cs : List Constraint} (h : Holds m cs) (cs' : List Constraint) :
    Holds (addConstraintsToMap cs' m) (cs ++ cs') := by
  induction cs' generalizing m cs with
  | nil => simpa [addConstraintsToMap] using h
  | cons c cs' ih =>
    have hstep := ih (h.add c)
    rwa [List.append_assoc] at hstep

/-! ## Parsing it back -/

open Constraint (Same SameAll named namedAll namedAttribute)

theorem depth_le_of_mem {m : Map} {e : String × Variant} (h : e ∈ m) : e.2.depth ≤ Map.depth m := by
  induction m with
  | nil => simp at h
  | cons e' m ih =>
    rw [Map.depth]
    rcases List.mem_cons.mp h with rfl | h
    · exact le_max_left _ _
    · exact (ih h).trans (le_max_right _ _)

theorem depth_le_grouped {ds : List Map} {d item : Map} (hd : d ∈ ds) (h : grouped ds = some item) :
    Map.depth d ≤ Map.depth item := by
  match ds with
  | [] => simp at hd
  | [d'] =>
    obtain rfl : d' = item := by simpa [grouped] using h
    rw [List.mem_singleton.mp hd]
  | d₁ :: d₂ :: ds =>
    obtain rfl : container (d₁ :: d₂ :: ds) = item := by simpa [grouped] using h
    obtain ⟨i, hi, rfl⟩ := List.mem_iff_getElem.mp hd
    have hmem : (toString i, Variant.map (d₁ :: d₂ :: ds)[i]) ∈ container (d₁ :: d₂ :: ds) := by
      refine Assoc.mem_of_find ?_
      have hget := container_getNestedComponent (d₁ :: d₂ :: ds) i
      rw [List.getElem?_eq_getElem hi, Map.getNestedComponent] at hget
      split at hget
      · rename_i v hv
        rw [hv, Option.some.inj hget]
      · simp at hget
    have := depth_le_of_mem hmem
    rw [Variant.depth] at this
    omega

variable (parse : String → Map → Option Constraint)

/-- The parser gives the constraint back, up to the order of nested ones. -/
def Parses (c : Constraint) : Prop := ∃ c', parse c.attr (describe c) = some c' ∧ Same c c'

/-- What the parser makes of a description. -/
def reread (c : Constraint) : Option Constraint := parse c.attr (describe c)

theorem mapM_reread {cs : List Constraint} (hparse : ∀ c ∈ cs, Parses parse c) :
    ∃ cs', cs.mapM (reread parse) = some cs' ∧ List.Forall₂ Same cs cs' := by
  induction cs with
  | nil => exact ⟨[], rfl, .nil⟩
  | cons c cs ih =>
    obtain ⟨c', hc, hsame⟩ := hparse c List.mem_cons_self
    obtain ⟨cs', hcs, hall⟩ := ih fun c hc => hparse c (List.mem_cons_of_mem _ hc)
    have hc : reread parse c = some c' := hc
    refine ⟨c' :: cs', ?_, .cons hsame hall⟩
    simp [List.mapM_cons, hc, hcs]

theorem mapM_describe {cs : List Constraint} {attr : String} (hattr : ∀ c ∈ cs, c.attr = attr) :
    (cs.map describe).mapM (parse attr) = cs.mapM (reread parse) := by
  induction cs with
  | nil => rfl
  | cons c cs ih =>
    obtain ⟨rfl, hcs⟩ := List.forall_mem_cons.mp hattr
    rw [List.map_cons, List.mapM_cons, List.mapM_cons, ih hcs]
    rfl

theorem mapM_range_getElem? {α β : Type} (f : α → Option β) (as : List α) :
    (List.range as.length).mapM (fun i => as[i]?.bind f) = as.mapM f := by
  induction as with
  | nil => rfl
  | cons a as ih =>
    have hshift : (fun i => (a :: as)[i]?.bind f) ∘ Nat.succ = fun i => as[i]?.bind f := rfl
    rw [List.length_cons, List.range_succ_eq_map, List.mapM_cons, List.mapM_cons, List.mapM_map,
      hshift, ih]
    rfl

theorem parseItem_grouped {cs : List Constraint} {attr : String} {item : Map}
    (hattr : ∀ c ∈ cs, c.attr = attr) (hitem : grouped (cs.map describe) = some item) :
    parseItem parse attr item = cs.mapM (reread parse) := by
  rw [← mapM_describe parse hattr]
  unfold parseItem
  match cs with
  | [] => simp [grouped] at hitem
  | [c] =>
    obtain rfl : describe c = item := by simpa [grouped] using hitem
    obtain rfl : c.attr = attr := hattr c List.mem_cons_self
    rw [if_neg (by simp [describe_hasAttr]), List.map_cons, List.map_nil, List.mapM_cons,
      List.mapM_nil]
    exact Option.map_eq_bind
  | a :: b :: cs =>
    obtain rfl : container ((a :: b :: cs).map describe) = item := by simpa [grouped] using hitem
    rw [if_pos (container_hasAttr _), ← mapM_range_getElem? (parse attr)
      ((a :: b :: cs).map describe)]
    simp only [container_getNestedComponent]
    simp [container]

theorem group_attr {cs : List Constraint} {attr : String} {c : Constraint} (h : c ∈ group cs attr) :
    c ∈ cs ∧ c.attr = attr := by
  simpa [group] using h

theorem parseEntries_groups {cs : List Constraint} {entries : List (String × Variant)}
    (hentries : ∀ e ∈ entries, some e.2 = (grouped ((group cs e.1).map describe)).map .map) :
    parseEntries parse entries = (entries.flatMap fun e => group cs e.1).mapM (reread parse) := by
  induction entries with
  | nil => rfl
  | cons e entries ih =>
    obtain ⟨attr, v⟩ := e
    obtain ⟨item, hitem, rfl⟩ :=
      Option.map_eq_some_iff.mp (hentries (attr, v) List.mem_cons_self).symm
    rw [parseEntries, parseItem_grouped parse (fun c hc => (group_attr hc).2) hitem,
      ih fun e he => hentries e (List.mem_cons_of_mem _ he), List.flatMap_cons, List.mapM_append]
    simp only [Option.map_eq_bind]
    rfl

theorem Holds.grouped_of_mem {m : Map} {cs : List Constraint} (h : Holds m cs) {c : Constraint}
    (hc : c ∈ cs) :
    ∃ item, (c.attr, Variant.map item) ∈ m ∧ c ∈ group cs c.attr ∧
      grouped ((group cs c.attr).map describe) = some item := by
  have hmem : c ∈ group cs c.attr := by simp [group, hc]
  have hfind := h.find_eq c.attr
  match hg : grouped ((group cs c.attr).map describe) with
  | some item =>
    rw [hg, Option.map_some] at hfind
    exact ⟨item, Assoc.mem_of_find hfind, hmem, rfl⟩
  | none =>
    match hcs : group cs c.attr with
    | [] => simp [hcs] at hmem
    | [_] | _ :: _ :: _ => simp [hcs, grouped] at hg

theorem Holds.visit (order : MapOrder) {m : Map} {cs : List Constraint} (h : Holds m cs) :
    (∀ e ∈ order.visit m, some e.2 = (grouped ((group cs e.1).map describe)).map .map) ∧
      cs.Perm ((order.visit m).flatMap fun e => group cs e.1) := by
  have hperm := order.perm m
  refine ⟨fun e he => ?_, ?_⟩
  · rw [← h.find_eq e.1]
    exact (Assoc.find_of_mem h.keys_nodup (hperm.mem_iff.mp he)).symm
  · -- Every constraint is in the group of its attribute, and every attribute has one entry.
    have hkeys : ∀ c ∈ cs, c.attr ∈ Assoc.keys (order.visit m) := by
      intro c hc
      refine (hperm.map Prod.fst).mem_iff.mpr ?_
      obtain ⟨item, hitem, _⟩ := h.grouped_of_mem hc
      exact List.mem_map_of_mem hitem
    have hnodup : (Assoc.keys (order.visit m)).Nodup :=
      (hperm.map Prod.fst).nodup_iff.mpr h.keys_nodup
    have hgroups := Assoc.groups_perm Constraint.attr _ hnodup cs
    rw [List.filter_eq_self.mpr fun c
      hc => by simpa using hkeys c hc, Assoc.keys, List.flatMap_map] at hgroups
    exact hgroups

theorem parseEntries_visit (order : MapOrder) {m : Map} {cs : List Constraint} (h : Holds m cs)
    (hparse : ∀ c ∈ cs, Parses parse c) :
    ∃ cs', parseEntries parse (order.visit m) = some cs' ∧ SameAll cs cs' := by
  obtain ⟨hentries, hperm⟩ := h.visit order
  obtain ⟨cs', hcs', hall⟩ := mapM_reread parse fun c hc => hparse c (hperm.mem_iff.mpr hc)
  exact ⟨cs', (parseEntries_groups parse hentries).trans hcs', _, hperm, hall⟩

theorem Holds.depth_lt {m : Map} {cs : List Constraint} (h : Holds m cs) {c : Constraint}
    (hc : c ∈ cs) :
    Map.depth (describe c) < Map.depth m := by
  obtain ⟨item, hitem, hgroup, hg⟩ := h.grouped_of_mem hc
  have hle := depth_le_grouped (List.mem_map_of_mem hgroup) hg
  have := depth_le_of_mem hitem
  rw [Variant.depth] at this
  omega

theorem fromString_name (op : Predicate) : Predicate.fromString op.name = some op := by
  cases op <;> decide

theorem attributeOf_named {attr : String} (h : namedAttribute attr = true) (opt : Bool) :
    Constraint.attributeOf attr opt = some (attr, opt) := by
  unfold namedAttribute at h
  unfold Constraint.attributeOf
  split at h
  · simp at h
  · rename_i c cs hcs
    rw [hcs]
    simp only [bne_iff_ne, ne_eq] at h
    split
    · simp_all
    · simp_all
    · rfl

theorem parseConstraintFromMap_description (order : MapOrder) (depth : Nat) (key : String)
    (op : Predicate) (operand : Variant) (opt : Bool) :
    parseConstraintFromMap order (depth + 1) key (description op operand opt) =
      match operand with
      | .str x => Constraint.ofStr key x op opt
      | .int x => Constraint.ofInt key x op opt
      | .float x => Constraint.ofFloat key x op opt
      | .map m => (parseEntries (parseConstraintFromMap order depth) (order.visit m)).bind
          fun constraints =>
          Constraint.ofList key constraints op opt
      | .bin _ => none := by
  have hpred : Map.getStrAttr (description op operand opt) "operator" = some op.name := rfl
  have hopt : Map.getIntAttr (description op operand opt) "optional" =
      some (if opt then 1 else 0) := rfl
  have hoperand : Map.getAttr (description op operand opt) "operand" = some operand := rfl
  have hflag : ((if opt then 1 else 0 : Int32) == 1) = opt := by cases opt <;> decide
  simp only [parseConstraintFromMap, hpred, hopt, hoperand, fromString_name,
    Option.bind_some, hflag]
  cases operand <;> rfl

theorem named_of_mem {cs : List Constraint} (hcs : namedAll cs = true) {c : Constraint}
    (hc : c ∈ cs) :
    named c = true := by
  induction cs with
  | nil => simp at hc
  | cons d cs ih =>
    rw [namedAll, Bool.and_eq_true] at hcs
    rcases List.mem_cons.mp hc with rfl | hc
    · exact hcs.1
    · exact ih hcs.2 hc

theorem parses_describe (order : MapOrder) (depth : Nat) (c : Constraint) (hc : named c = true)
    (hdepth : Map.depth (describe c) < depth) : Parses (parseConstraintFromMap order depth) c := by
  -- By induction on the depth: the constraints of an operand are one level down.
  induction depth generalizing c with
  | zero => omega
  | succ depth ih =>
    unfold Parses
    match c with
    | .str attr x op opt =>
      refine ⟨_, ?_, .str attr x op opt⟩
      rw [describe, parseConstraintFromMap_description]
      simp only [Constraint.ofStr, Constraint.attr, attributeOf_named hc, Option.map_some]
    | .int attr x op opt =>
      refine ⟨_, ?_, .int attr x op opt⟩
      rw [describe, parseConstraintFromMap_description]
      simp only [Constraint.ofInt, Constraint.attr, attributeOf_named hc, Option.map_some]
    | .float attr x op opt =>
      refine ⟨_, ?_, .float attr x op opt⟩
      rw [describe, parseConstraintFromMap_description]
      simp only [Constraint.ofFloat, Constraint.attr, attributeOf_named hc, Option.map_some]
    | .list attr cs op opt =>
      rw [named, Bool.and_eq_true] at hc
      have hholds : Holds (addConstraintsToMap cs []) cs := by simpa using holds_nil.addAll cs
      have hle : Map.depth (addConstraintsToMap cs []) < depth := by
        have hmem : ("operand", Variant.map (addConstraintsToMap cs [])) ∈ describe
            (.list attr cs op opt) := by
          simp [describe, description]
        have := depth_le_of_mem hmem
        rw [Variant.depth] at this
        omega
      obtain ⟨cs', hcs', mid, hperm, hall⟩ :=
        parseEntries_visit (parseConstraintFromMap order depth) order hholds fun c hmem =>
          ih c (named_of_mem hc.2 hmem) ((hholds.depth_lt hmem).trans hle)
      refine ⟨_, ?_, .list attr op opt hperm hall⟩
      rw [describe, parseConstraintFromMap_description]
      simp only [hcs', Option.bind_some, Constraint.ofList, Constraint.attr, attributeOf_named hc.1,
        Option.map_some]

/-! ## The loop over the map of a filter -/

/-- The parsed constraints, sorted into required and optional ones. -/
def addAllParsed (f : Filter) (cs : List Constraint) : Filter :=
  ⟨f.required ++ cs.filter fun c => !c.optional, f.optional ++ cs.filter fun c => c.optional⟩

theorem foldl_addParsed (f : Filter) (cs : List Constraint) :
    cs.foldl addParsed f = addAllParsed f cs := by
  induction cs generalizing f with
  | nil => simp [addAllParsed]
  | cons c cs ih =>
    rw [List.foldl_cons, ih]
    unfold addParsed addAllParsed
    cases hc : c.optional <;> simp [hc]

theorem addEntry_of_parseItem {attr : String} {item : Map} {cs : List Constraint} (f : Filter)
    (h : parseItem parse attr item = some cs) :
    addEntry parse f (attr, .map item) = some (cs.foldl addParsed f) := by
  unfold parseItem at h
  unfold addEntry
  split at h
  · rename_i hm
    simp only [hm, if_true]
    generalize List.range (item.length - 1) = is at h
    induction is generalizing f cs with
    | nil =>
      obtain rfl : [] = cs := by simpa using h
      rfl
    | cons i is ih =>
      simp only [List.mapM_cons, Option.bind_eq_bind, Option.bind_eq_some_iff, Option.pure_def] at h
      obtain ⟨c, ⟨d, hd, hc⟩, cs', hcs', heq⟩ := h
      obtain rfl := Option.some.inj heq
      rw [List.foldlM_cons, List.foldl_cons, ← ih (addParsed f c) hcs', hd]
      simp [hc]
  · rename_i hm
    obtain ⟨c, hc, rfl⟩ := Option.map_eq_some_iff.mp h
    simp [hm, hc]

theorem foldlM_addEntry {entries : List (String × Variant)} {cs : List Constraint} (f : Filter)
    (h : parseEntries parse entries = some cs) :
    entries.foldlM (addEntry parse) f = some (cs.foldl addParsed f) := by
  induction entries generalizing f cs with
  | nil =>
    obtain rfl : [] = cs := by simpa [parseEntries] using h
    rfl
  | cons e entries ih =>
    unfold parseEntries at h
    split at h
    · rename_i heq
      cases heq
    · rename_i attr item entries' heq
      obtain ⟨rfl, rfl⟩ := List.cons.inj heq
      obtain ⟨cs₁, hcs₁, hrest⟩ := Option.bind_eq_some_iff.mp h
      obtain ⟨cs₂, hcs₂, rfl⟩ := Option.map_eq_some_iff.mp hrest
      rw [List.foldlM_cons, addEntry_of_parseItem parse f hcs₁, List.foldl_append]
      exact ih _ hcs₂
    · cases h

theorem same_optional {c c' : Constraint} (h : Same c c') : c.optional = c'.optional := by
  cases h <;> rfl

theorem sameAll_filter {cs cs' : List Constraint} (h : SameAll cs cs') (p : Bool → Bool) :
    SameAll (cs.filter fun c => p c.optional) (cs'.filter fun c => p c.optional) := by
  obtain ⟨mid, hperm, hall⟩ := h
  refine ⟨_, hperm.filter _, List.rel_filter ?_ hall⟩
  intro c c' hsame
  simp only [same_optional hsame]

theorem sameAll_str {cs cs' : List Constraint} (h : SameAll cs cs') {attr operand : String}
    {op : Predicate} {opt : Bool} (hmem : .str attr operand op opt ∈ cs) :
    .str attr operand op opt ∈ cs' := by
  obtain ⟨mid, hperm, hall⟩ := h
  have hmid := hperm.mem_iff.mp hmem
  clear hperm hmem
  induction hall with
  | nil => simp at hmid
  | cons hsame _ ih =>
    rcases List.mem_cons.mp hmid with rfl | hmid
    · cases hsame
      exact List.mem_cons_self
    · exact List.mem_cons_of_mem _ (ih hmid)

theorem fromPublicationMap_ofConstraints (order : MapOrder) {cs : List Constraint}
    (hcs : namedAll cs = true) :
    ∃ f, fromPublicationMap order (toPublicationMap (ofConstraints cs)) = some f ∧
      SameAll (ofConstraints cs).required f.required ∧ SameAll (ofConstraints cs).optional
        f.optional := by
  have hmem : ∀ c ∈ (ofConstraints cs).required ++ (ofConstraints cs).optional, c ∈ cs := by
    intro c hc
    rcases List.mem_append.mp hc with hc | hc
    · exact List.mem_of_mem_filter hc
    · exact List.mem_of_mem_filter hc
  have hholds : Holds (toPublicationMap (ofConstraints cs))
      ((ofConstraints cs).required ++ (ofConstraints cs).optional) := (holds_nil.addAll _).addAll _
  obtain ⟨cs', hcs', hsame⟩ := parseEntries_visit (parseConstraintFromMap order _) order hholds
    fun c hc => parses_describe order _ c (named_of_mem hcs (hmem c hc)) (hholds.depth_lt hc)
  refine ⟨_, foldlM_addEntry _ _ hcs', ?_⟩
  rw [foldl_addParsed]
  -- The flags sort the constraints as the constructor did.
  have hrequired := sameAll_filter hsame fun opt => !opt
  have hoptional := sameAll_filter hsame fun opt => opt
  simp only [ofConstraints, List.filter_append, List.filter_filter, Bool.and_self,
    Bool.not_and_self, Bool.and_not_self, List.filter_false, List.append_nil,
    List.nil_append] at hrequired hoptional
  exact ⟨hrequired, hoptional⟩

/-- Filters survive the wire, whatever the order in which the maps are read. -/
theorem filter_map_round_trip (order : MapOrder) (cs : List Constraint) (hcs : namedAll cs = true) :
    ∃ f, fromPublicationMap order (toPublicationMap (ofConstraints cs)) = some f ∧
      SameAll (ofConstraints cs).required f.required ∧ SameAll (ofConstraints cs).optional
        f.optional :=
  fromPublicationMap_ofConstraints order hcs

/-- Two constraints on one attribute, and a nested one. -/
theorem filter_map_round_trip_container :
    ∃ f, fromPublicationMap ⟨List.reverse, fun m => List.reverse_perm m⟩
      (toPublicationMap (ofConstraints [.int "x" 1 .GT false, .int "x" 5 .LT true,
        .list "y" [.str "z" "a" .EQ false] .MAP_ALL false])) = some f ∧
      SameAll [.int "x" 1 .GT false, .list "y" [.str "z" "a" .EQ false] .MAP_ALL false] f.required ∧
      SameAll [.int "x" 5 .LT true] f.optional :=
  filter_map_round_trip _ [.int "x" 1 .GT false, .int "x" 5 .LT true,
    .list "y" [.str "z" "a" .EQ false] .MAP_ALL false] (by decide)

end Filter

end UActor
