import UActor.PubSub.Faults
import UActor.Remote.Processors

/-!
# Operands that are no strings

Which filters the subscription processors can take. The aggregators and the gateway read the
operands of the constraints on their keys as strings, without a look at the type.
-/

namespace UActor

/-! ## The filters that there are -/

namespace Constraint

/-- What a constructor leaves of an attribute and a flag. -/
def Built (c : Constraint) : Prop := ∃ attr opt, attributeOf attr opt = some (c.attr, c.optional)

theorem Built.attr_ne {c : Constraint} (h : c.Built) (hopt : c.optional = false) : c.attr ≠ "" := by
  obtain ⟨attr, opt, hattr⟩ := h
  unfold attributeOf at hattr
  split at hattr
  · cases hattr
  · have hflag := congrArg Prod.snd (Option.some.inj hattr)
    rw [hopt] at hflag
    cases hflag
  · rename_i hne _
    obtain ⟨hname, -⟩ := Prod.mk.inj (Option.some.inj hattr)
    rw [← hname]
    exact fun hnil => hne (by rw [hnil]; rfl)

end Constraint

namespace Filter

/-- A filter of the constructors or of `from_publication_map`. -/
inductive Produced : Filter → Prop
  | constructed {cs : List Constraint} (h : ∀ c ∈ cs, c.Built) : Produced (ofConstraints cs)
  | parsed {order : MapOrder} {m : Map} {f : Filter} (h : fromPublicationMap order m = some f) :
      Produced f

theorem built_of_parse {order : MapOrder} {depth : Nat} {key : String} {item : Map} {c : Constraint}
    (h : parseConstraintFromMap order depth key item = some c) : c.Built := by
  cases depth with
  | zero => cases h
  | succ depth =>
    obtain ⟨pred, -, h⟩ := Option.bind_eq_some_iff.mp h
    split at h
    · obtain ⟨a, ha, rfl⟩ := Option.map_eq_some_iff.mp h
      exact ⟨_, _, ha⟩
    · obtain ⟨a, ha, rfl⟩ := Option.map_eq_some_iff.mp h
      exact ⟨_, _, ha⟩
    · obtain ⟨a, ha, rfl⟩ := Option.map_eq_some_iff.mp h
      exact ⟨_, _, ha⟩
    · obtain ⟨cs, -, h⟩ := Option.bind_eq_some_iff.mp h
      obtain ⟨a, ha, rfl⟩ := Option.map_eq_some_iff.mp h
      exact ⟨_, _, ha⟩
    all_goals cases h

/-- The required constraints of a filter are constructed as such. -/
def RequiredBuilt (f : Filter) : Prop := ∀ c ∈ f.required, c.Built ∧ c.optional = false

theorem RequiredBuilt.addParsed {f : Filter} (h : f.RequiredBuilt) {c : Constraint} (hc : c.Built) :
    (f.addParsed c).RequiredBuilt := by
  unfold Filter.addParsed
  split
  · exact h
  · rename_i hopt
    intro d hd
    rcases List.mem_append.mp hd with hd | hd
    · exact h d hd
    · rw [List.mem_singleton.mp hd]
      exact ⟨hc, by simpa using hopt⟩

theorem Produced.requiredBuilt {f : Filter} (h : Produced f) : f.RequiredBuilt := by
  cases h with
  | constructed h =>
    intro c hc
    obtain ⟨hc, hopt⟩ := List.mem_filter.mp hc
    exact ⟨h c hc, by simpa using hopt⟩
  | parsed h =>
    unfold fromPublicationMap at h
    rw [← foldlM_descriptions] at h
    refine Runs.invariant RequiredBuilt (by simp [RequiredBuilt]) (fun g d g' hg hstep => ?_) h
    obtain ⟨c, hc, rfl⟩ := Option.map_eq_some_iff.mp hstep
    exact hg.addParsed (built_of_parse hc)

end Filter

/-! ## The scan -/

namespace Constraint

/-- The constraint that a scan for `key` stops at. -/
def Hits (key : String) (test : String → Bool) (c : Constraint) : Prop :=
  c.attr = key ∧ (∃ x, c.getStr = some x ∧ test x = true) ∧ c.predicate = .EQ

end Constraint

open Constraint (Hits)

/-- Every constraint on the key up to the one at which the scan stops compares with a string. -/
def StringsUpTo (key : String) (test : String → Bool) (cs : List Constraint) : Prop :=
  ∀ pre c post, cs = pre ++ c :: post → (∀ d ∈ pre, ¬ Hits key test d) → c.attr = key →
    c.getStr.isSome = true

theorem stringsUpTo_nil (key : String) (test : String → Bool) : StringsUpTo key test [] := by
  intro pre c post heq
  cases pre <;> cases heq

theorem stringsUpTo_cons {key : String} {test : String → Bool} {c : Constraint}
    {cs : List Constraint} :
    StringsUpTo key test (c :: cs) ↔
      (c.attr = key → c.getStr.isSome = true) ∧ (¬ Hits key test c → StringsUpTo key test cs) :=
  Runs.forall_upTo_cons

theorem hasEqualityConstraint_some {key : String} {test : String → Bool} {cs : List Constraint}
    (h : StringsUpTo key test cs) :
    ∃ found, hasEqualityConstraint key test cs = some found ∧
    (found = true ↔ ∃ c ∈ cs, Hits key test c) := by
  induction cs with
  | nil => exact ⟨false, rfl, by simp⟩
  | cons c cs ih =>
    obtain ⟨hfirst, hrest⟩ := stringsUpTo_cons.mp h
    unfold hasEqualityConstraint
    by_cases hhit : Hits key test c
    · obtain ⟨hattr, ⟨x, hx, htest⟩, heq⟩ := hhit
      refine ⟨true, ?_, iff_of_true rfl ⟨c, List.mem_cons_self, hattr, ⟨x, hx, htest⟩, heq⟩⟩
      rw [if_pos hattr, hx, Option.bind_some, if_pos ⟨htest, heq⟩]
    · obtain ⟨found, hfound, hiff⟩ := ih (hrest hhit)
      refine ⟨found, ?_, hiff.trans (by simp [hhit])⟩
      split
      · rename_i hattr
        obtain ⟨x, hx⟩ := Option.isSome_iff_exists.mp (hfirst hattr)
        rw [hx, Option.bind_some, if_neg fun hand => hhit ⟨hattr, ⟨x, hx, hand.1⟩, hand.2⟩]
        exact hfound
      · exact hfound

theorem stringsUpTo_of_some {key : String} {test : String → Bool} {cs : List Constraint}
    {found : Bool} (h : hasEqualityConstraint key test cs = some found) :
    StringsUpTo key test cs := by
  induction cs with
  | nil => exact stringsUpTo_nil key test
  | cons c cs ih =>
    refine stringsUpTo_cons.mpr ?_
    unfold hasEqualityConstraint at h
    split at h
    · rename_i hattr
      obtain ⟨x, hx, h⟩ := Option.bind_eq_some_iff.mp h
      refine ⟨fun _ => by rw [hx]; rfl, fun hmiss => ?_⟩
      rw [if_neg fun hand => hmiss ⟨hattr, ⟨x, hx, hand.1⟩, hand.2⟩] at h
      exact ih h
    · rename_i hattr
      exact ⟨fun heq => absurd heq hattr, fun _ => ih h⟩

/-- The loop over the labels reads only strings, as far as it gets. -/
def LabelStrings (labels : ClusterLabels) (cs : List Constraint) : Prop :=
  ∀ pre e post, labels = pre ++ e :: post →
    (∀ d ∈ pre, ∃ c ∈ cs, Hits d.1 (· == d.2.local_label) c) →
    StringsUpTo e.1 (· == e.2.local_label) cs

theorem labelStrings_cons {e : String × ClusterLabelValuePair} {labels : ClusterLabels}
    {cs : List Constraint} :
    LabelStrings (e :: labels) cs ↔ StringsUpTo e.1 (· == e.2.local_label) cs ∧
      ((∃ c ∈ cs, Hits e.1 (· == e.2.local_label) c) → LabelStrings labels cs) :=
  Runs.forall_upTo_cons

namespace ClusterLabels

theorem allRequired_some {labels : ClusterLabels} {cs : List Constraint}
    (h : LabelStrings labels cs) :
    ∃ found, labels.allRequired cs = some found ∧
      (found = true → ∀ e ∈ labels, ∃ c ∈ cs, Hits e.1 (· == e.2.local_label) c) := by
  induction labels with
  | nil => exact ⟨true, rfl, by simp⟩
  | cons e labels ih =>
    obtain ⟨hfirst, hrest⟩ := labelStrings_cons.mp h
    obtain ⟨found, hfound, hiff⟩ := hasEqualityConstraint_some hfirst
    rw [allRequired, hfound, Option.bind_some]
    cases found with
    | false => exact ⟨false, rfl, by simp⟩
    | true =>
      obtain ⟨all, hall, hlabels⟩ := ih (hrest (hiff.mp rfl))
      exact ⟨all, hall, fun htrue => List.forall_mem_cons.mpr ⟨hiff.mp rfl, hlabels htrue⟩⟩

theorem labelStrings_of_some {labels : ClusterLabels} {cs : List Constraint} {found : Bool}
    (h : labels.allRequired cs = some found) : LabelStrings labels cs := by
  induction labels with
  | nil =>
    intro pre e post heq
    cases pre <;> cases heq
  | cons e labels ih =>
    obtain ⟨first, hfirst, h⟩ := Option.bind_eq_some_iff.mp h
    have hstrings := stringsUpTo_of_some hfirst
    refine labelStrings_cons.mpr ⟨hstrings, fun hex => ?_⟩
    obtain ⟨first', hfirst', hiff⟩ := hasEqualityConstraint_some hstrings
    rw [hfirst] at hfirst'
    obtain rfl := Option.some.inj hfirst'
    rw [if_pos (hiff.mpr hex)] at h
    exact ih h

theorem aggregate_some {labels : ClusterLabels} (h : ∀ e ∈ labels, e.1 ≠ "") :
    ∃ f, labels.aggregate = some f := by
  have hmap : ∃ cs, labels.mapM (fun e => Constraint.ofStr e.1 e.2.local_label .EQ false) =
      some cs := by
    induction labels with
    | nil => exact ⟨[], rfl⟩
    | cons e labels ih =>
      obtain ⟨hkey, hrest⟩ := List.forall_mem_cons.mp h
      obtain ⟨cs, hcs⟩ := ih hrest
      obtain ⟨a, ha⟩ := (Constraint.attributeOf_isSome e.1 false).mpr hkey
      rw [List.mapM_cons, hcs, Constraint.ofStr, ha]
      exact ⟨_, rfl⟩
  obtain ⟨cs, hcs⟩ := hmap
  exact ⟨_, by rw [aggregate, hcs]; rfl⟩

end ClusterLabels

/-! ## The processors -/

namespace Processor

/-- The operands that the processor reads are strings. -/
def ReadsStrings (f : Filter) : Processor → Prop
  | nodeIdAggregator local_node_id _ => StringsUpTo "node_id" (· == local_node_id) f.required
  | leafNodeIdGateway local_node_id _ => StringsUpTo "node_id" (· != local_node_id) f.required
  | clusterAggregator labels _ => labels.sameCluster = false → LabelStrings labels f.required
  | _ => True

/-- The processor returns, and leaves a filter that it drops as it was. -/
def Takes (result : Option (Processor × Filter × Bool)) (f : Filter) : Prop :=
  ∃ r, result = some r ∧ (r.2.2 = true → r.2.1 = f)

theorem unchanged_of_counted (found first : Bool) (p counted : Processor) (f g : Filter) :
    let r :=
      if found then if first then (counted, g, false) else (counted, f, true)
      else (p, f, false)
    r.2.2 = true → r.2.1 = f := by
  cases found <;> cases first <;> simp

/-- A processor that scans the filter for one key, and gives another filter only to the first that
it counts. -/
theorem scan_takes {key : String} {test : String → Bool} {f g : Filter} {first : Bool}
    {p counted : Processor} :
    Takes ((hasEqualityConstraint key test f.required).map fun found =>
        if found then if first then (counted, g, false) else (counted, f, true) else (p, f, false))
          f ↔
      StringsUpTo key test f.required := by
  constructor
  · rintro ⟨r, hr, -⟩
    obtain ⟨found, hfound, -⟩ := Option.map_eq_some_iff.mp hr
    exact stringsUpTo_of_some hfound
  · intro h
    obtain ⟨found, hfound, -⟩ := hasEqualityConstraint_some h
    exact ⟨_, by rw [hfound, Option.map_some], unchanged_of_counted found first p counted f g⟩

theorem cluster_takes {f : Filter} (hf : f.Produced) (counter : UInt32 → UInt32 × Bool) (labels : ClusterLabels)
    (n : UInt32) (arguments : SubscriptionArguments) :
    Takes (process counter (clusterAggregator labels n) f arguments) f ↔
      (clusterAggregator labels n).ReadsStrings f := by
  cases hsame : labels.sameCluster with
  | true => exact iff_of_true ⟨_, by rw [process, if_pos hsame], fun _ => rfl⟩ fun hno => by simp [hsame] at hno
  | false =>
    have hprocess : process counter (clusterAggregator labels n) f arguments =
        (labels.allRequired f.required).bind fun found =>
          if found then
            if (counter n).2 then labels.aggregate.map fun r => (clusterAggregator labels (counter n).1, r, false)
            else some (clusterAggregator labels (counter n).1, f, true)
          else some (clusterAggregator labels n, f, false) := by
      rw [process, hsame, if_neg Bool.false_ne_true]
    rw [hprocess]
    constructor
    · rintro ⟨r, hr, -⟩ -
      obtain ⟨found, hfound, -⟩ := Option.bind_eq_some_iff.mp hr
      exact ClusterLabels.labelStrings_of_some hfound
    · intro h
      obtain ⟨found, hfound, hlabels⟩ := ClusterLabels.allRequired_some (h hsame)
      rw [hfound, Option.bind_some]
      cases found with
      | false => exact ⟨_, rfl, fun _ => rfl⟩
      | true =>
        rw [if_pos rfl]
        split
        · -- every label is an attribute of a required constraint, which has a name
          have hkeys : ∀ e ∈ labels, e.1 ≠ "" := by
            intro e he
            obtain ⟨c, hc, hhit⟩ := hlabels rfl e he
            obtain ⟨hbuilt, hopt⟩ := hf.requiredBuilt c hc
            exact hhit.1 ▸ hbuilt.attr_ne hopt
          obtain ⟨g, hg⟩ := ClusterLabels.aggregate_some hkeys
          exact ⟨_, by rw [hg, Option.map_some], fun hdrop => by cases hdrop⟩
        · exact ⟨_, rfl, fun _ => rfl⟩

theorem process_takes {f : Filter} (hf : f.Produced) (counter : UInt32 → UInt32 × Bool)
    (p : Processor) (arguments : SubscriptionArguments) :
    Takes (process counter p f arguments) f ↔ p.ReadsStrings f := by
  cases p with
  | nodeLocalFilterDrop id => exact iff_of_true ⟨_, rfl, fun _ => rfl⟩ trivial
  | clusterBarrier labels drop_keys => exact iff_of_true ⟨_, rfl, fun _ => rfl⟩ trivial
  | scopeLocal => exact iff_of_true ⟨_, rfl, fun _ => rfl⟩ trivial
  | scopeCluster other_cluster => exact iff_of_true ⟨_, rfl, fun _ => rfl⟩ trivial
  | optionalConstraintDrop cs => exact iff_of_true ⟨_, rfl, fun hdrop => by cases hdrop⟩ trivial
  | nodeIdAggregator id n => exact scan_takes
  | leafNodeIdGateway id n => exact scan_takes
  | clusterAggregator labels n => exact cluster_takes hf counter labels n arguments

/-- Both directions of a processor can take a filter exactly if the operands that it reads are
strings. -/
theorem takes_iff {f : Filter} (hf : f.Produced) (p : Processor)
    (arguments : SubscriptionArguments) :
    Takes (p.processAdded f arguments) f ∧ Takes (p.processRemoved f arguments) f ↔
    p.ReadsStrings f := by
  unfold processAdded processRemoved
  rw [process_takes hf, process_takes hf, and_self]

/-- A filter that a matching constraint keeps the integer of from being read. -/
def matchedFirst : Filter := Filter.ofConstraints
    [.str "node_id" "n" .EQ false, .int "node_id" 5 .EQ false]

theorem matchedFirst_produced : matchedFirst.Produced := by
  refine .constructed fun c hc => ?_
  rcases List.mem_cons.mp hc with rfl | hc
  · exact ⟨"node_id", false, rfl⟩
  · rw [List.mem_singleton.mp hc]
    exact ⟨"node_id", false, rfl⟩

theorem takes_iff_matched_first :
    Takes ((nodeIdAggregator "n" 0).processAdded matchedFirst .default) matchedFirst ∧
      Takes ((nodeIdAggregator "n" 0).processRemoved matchedFirst .default) matchedFirst ↔
      (nodeIdAggregator "n" 0).ReadsStrings matchedFirst :=
  takes_iff matchedFirst_produced _ _

/-- A filter with an integer for a node id. -/
theorem not_takes_integer : ∃ f : Filter, f.Produced ∧ f = ⟨[.int "node_id" 5 .EQ false], []⟩ ∧
    ¬ Takes ((nodeIdAggregator "n" 0).processAdded f .default) f := by
  refine ⟨Filter.ofConstraints [.int "node_id" 5 .EQ false], .constructed fun c hc => ?_, rfl, ?_⟩
  · rw [List.mem_singleton.mp hc]
    exact ⟨"node_id", false, rfl⟩
  · rintro ⟨r, hr, -⟩
    cases hr

end Processor

end UActor
