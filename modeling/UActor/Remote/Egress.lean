import Mathlib.Algebra.Group.Nat.Defs
import UActor.Lib.Feed
import UActor.Remote.Processors

/-!
# Egress aggregation

The egress chain of a connection is a pipeline, as far as its counters do not overflow. What its
peer holds is the set that this pipeline feeds.
-/

namespace UActor

open Pipeline

namespace Processor

/-! ## Processors as stages -/

def stage : Processor → Stage Filter SubscriptionArguments
  | nodeLocalFilterDrop local_node_id => .drop (nodeLocal local_node_id)
  | nodeIdAggregator local_node_id n =>
    .count (fun f => hasEqualityConstraint "node_id" (· == local_node_id) f.required == some true)
      (nodeIdFilter local_node_id) n.toNat
  | clusterAggregator labels n =>
    if labels.sameCluster then .drop fun _ => false
    else .count (fun f => labels.allRequired f.required == some true)
      (labels.aggregate.getD ⟨[], []⟩) n.toNat
  | clusterBarrier labels drop_keys => .drop (crossesBarrier labels drop_keys)
  | scopeLocal => .refuse fun arguments => arguments.scope = .LOCAL
  | scopeCluster other_cluster => .refuse fun arguments => decide (arguments.scope = .CLUSTER) &&
      other_cluster
  | optionalConstraintDrop constraints_to_drop => .rewrite (withoutOptional constraints_to_drop)
  | leafNodeIdGateway local_node_id n =>
    .count (fun f => hasEqualityConstraint "node_id" (· != local_node_id) f.required == some true)
      (foreignFilter local_node_id) n.toNat

/-- The processor as it was built. -/
def reset : Processor → Processor
  | nodeIdAggregator local_node_id _ => nodeIdAggregator local_node_id 0
  | clusterAggregator labels _ => clusterAggregator labels 0
  | leafNodeIdGateway local_node_id _ => leafNodeIdGateway local_node_id 0
  | p => p

theorem toNat_countUp {n : UInt32} (h : n.toNat + 1 < 2 ^ 32) :
    (countUp n).1.toNat = n.toNat + 1 := by
  unfold countUp
  rw [UInt32.toNat_add]
  exact Nat.mod_eq_of_lt h

theorem countUp_first (n : UInt32) : (countUp n).2 = true ↔ n.toNat = 0 := by
  unfold countUp
  rw [decide_eq_true_eq, ← UInt32.toNat_inj]
  rfl

theorem toNat_countDown {n : UInt32} (h : 0 < n.toNat) : (countDown n).1.toNat = n.toNat - 1 := by
  unfold countDown
  rw [UInt32.toNat_sub_of_le]
  · rfl
  · rw [UInt32.le_iff_toNat_le]
    exact h

theorem countDown_last {n : UInt32} (h : 0 < n.toNat) : (countDown n).2 = true ↔ n.toNat = 1 := by
  have hn := toNat_countDown h
  unfold countDown at hn ⊢
  rw [decide_eq_true_eq, ← UInt32.toNat_inj, hn, UInt32.toNat_zero]
  omega

theorem process_stage {counter : UInt32 → UInt32 × Bool}
    {one : Stage Filter SubscriptionArguments → Filter → SubscriptionArguments →
      Stage Filter SubscriptionArguments × Filter × Bool}
    {p : Processor} {f : Filter} {arguments : SubscriptionArguments}
    (hother : ∀ c : Stage Filter SubscriptionArguments, (∀ b r n, c ≠ .count b r n) →
      one c f arguments = c.come f arguments)
    (hcount : ∀ b r (n : UInt32), stage p = .count b r n.toNat →
      one (stage p) f arguments = if b f then
        if (counter n).2 then (.count b r (counter n).1.toNat, r, false)
        else (.count b r (counter n).1.toNat, f, true)
      else (.count b r n.toNat, f, false))
    {out : Processor × Filter × Bool} (h : process counter p f arguments = some out) :
    one (stage p) f arguments = (stage out.1, out.2) := by
  cases p with
  | nodeLocalFilterDrop l =>
    obtain rfl := Option.some.inj h
    exact hother _ (by simp [stage])
  | clusterBarrier labels keys =>
    obtain rfl := Option.some.inj h
    exact hother _ (by simp [stage])
  | scopeLocal =>
    obtain rfl := Option.some.inj h
    exact hother _ (by simp [stage])
  | scopeCluster o =>
    obtain rfl := Option.some.inj h
    exact hother _ (by simp [stage])
  | optionalConstraintDrop ks =>
    obtain rfl := Option.some.inj h
    exact hother _ (by simp [stage])
  | nodeIdAggregator l n | leafNodeIdGateway l n =>
    rw [hcount _ _ n rfl]
    simp only [process, Option.map_eq_some_iff] at h
    obtain ⟨found, hfound, rfl⟩ := h
    rw [hfound]
    cases found with
    | false => simp [stage]
    | true =>
      simp only [beq_self_eq_true, if_true]
      split <;> simp [stage]
  | clusterAggregator labels n =>
    simp only [process] at h
    split at h
    · rename_i hsame
      obtain rfl := Option.some.inj h
      rw [hother _ (by simp [stage, hsame])]
      simp [stage, hsame, Stage.come]
    · rename_i hsame
      rw [Bool.not_eq_true] at hsame
      have hstage : ∀ k, stage (clusterAggregator labels k) =
          .count (fun f => labels.allRequired f.required == some true)
            (labels.aggregate.getD ⟨[], []⟩) k.toNat := by
        simp [stage, hsame]
      rw [hcount _ _ n (hstage n)]
      obtain ⟨found, hfound, h⟩ := Option.bind_eq_some_iff.mp h
      rw [hfound]
      cases found with
      | false =>
        obtain rfl := Option.some.inj h
        simp [hstage]
      | true =>
        simp only [beq_self_eq_true, if_true] at h ⊢
        split at h
        · rename_i hlast
          obtain ⟨r, hr, rfl⟩ := Option.map_eq_some_iff.mp h
          rw [if_pos hlast]
          simp [hstage, hr]
        · rename_i hlast
          obtain rfl := Option.some.inj h
          rw [if_neg hlast]
          simp [hstage]

section

variable {p : Processor} {f : Filter} {arguments : SubscriptionArguments}
  {out : Processor × Filter × Bool}

theorem processAdded_stage (hbound : ∀ b r n, stage p = .count b r n → n + 1 < 2 ^ 32)
    (h : processAdded p f arguments = some out) :
    (stage p).come f arguments = (stage out.1, out.2) := by
  refine process_stage (fun _ _ => rfl) ?_ h
  intro b r n hp
  rw [hp, toNat_countUp (hbound b r _ hp)]
  simp only [Stage.come, countUp_first]

theorem processRemoved_stage (hpos : ∀ b r n, stage p = .count b r n → b f = true → 0 < n)
    (h : processRemoved p f arguments = some out) :
    (stage p).go f arguments = (stage out.1, out.2) := by
  refine process_stage ?_ ?_ h
  · intro c hc
    cases c with
    | count b r n => exact absurd rfl (hc b r n)
    | drop | refuse | rewrite => rfl
  · intro b r n hp
    rw [hp]
    simp only [Stage.go]
    split
    · rename_i hb
      have hn := hpos b r _ hp hb
      simp only [toNat_countDown hn, countDown_last hn]
    · rfl

theorem reset_process {counter : UInt32 → UInt32 × Bool}
    (h : process counter p f arguments = some out) :
    reset out.1 = reset p := by
  cases p with
  | nodeLocalFilterDrop | clusterBarrier | scopeLocal | scopeCluster | optionalConstraintDrop =>
    obtain rfl := Option.some.inj h
    rfl
  | nodeIdAggregator l n | leafNodeIdGateway l n =>
    obtain ⟨found, -, rfl⟩ := Option.map_eq_some_iff.mp h
    split
    · split <;> rfl
    · rfl
  | clusterAggregator labels n =>
    simp only [process] at h
    split at h
    · obtain rfl := Option.some.inj h
      rfl
    · obtain ⟨found, -, h⟩ := Option.bind_eq_some_iff.mp h
      split at h
      · split at h
        · obtain ⟨r, -, rfl⟩ := Option.map_eq_some_iff.mp h
          rfl
        · obtain rfl := Option.some.inj h
          rfl
      · obtain rfl := Option.some.inj h
        rfl

theorem process_of_reset (counter : UInt32 → UInt32 × Bool)
    (h : processAdded (reset p) f arguments = some out) :
    ∃ out', process counter p f arguments = some out' ∧
      (out'.2.2 = false → out.2.2 = false ∧ out'.2.1 = out.2.1) := by
  cases p with
  | nodeLocalFilterDrop | clusterBarrier | scopeLocal | scopeCluster | optionalConstraintDrop =>
    exact ⟨out, h, fun hf => ⟨hf, rfl⟩⟩
  | nodeIdAggregator l n | leafNodeIdGateway l n =>
    simp only [processAdded, reset, process, Option.map_eq_some_iff] at h ⊢
    obtain ⟨found, hfound, rfl⟩ := h
    refine ⟨_, ⟨found, hfound, rfl⟩, ?_⟩
    cases found with
    | false => simp
    | true => by_cases hc : (counter n).2 = true <;> simp [hc, countUp]
  | clusterAggregator labels n =>
    simp only [processAdded, reset, process] at h ⊢
    by_cases hsame : labels.sameCluster = true
    · rw [if_pos hsame] at h ⊢
      obtain rfl := Option.some.inj h
      exact ⟨_, rfl, by simp⟩
    · rw [if_neg hsame] at h ⊢
      obtain ⟨found, hfound, h⟩ := Option.bind_eq_some_iff.mp h
      rw [hfound]
      cases found with
      | false =>
        obtain rfl := Option.some.inj h
        exact ⟨_, rfl, by simp⟩
      | true =>
        have hfirst : (countUp 0).2 = true := rfl
        simp only [if_true, hfirst, Option.map_eq_some_iff] at h
        obtain ⟨r, hr, rfl⟩ := h
        by_cases hc : (counter n).2 = true
        · exact ⟨(clusterAggregator labels (counter n).1, r, false), by simp [hc, hr], by simp⟩
        · exact ⟨(clusterAggregator labels (counter n).1, f, true), by simp [hc], by simp⟩

end

/-! ## The chain as a pipeline -/

theorem through_of_reset (counter : UInt32 → UInt32 × Bool) {ps : List Processor} {f : Filter}
    {arguments : SubscriptionArguments}
    (h : (through processAdded (ps.map reset) f arguments).isSome = true) :
    ∃ o, through (process counter) ps f arguments = some o := by
  induction ps generalizing f with
  | nil => exact ⟨_, rfl⟩
  | cons p ps ih =>
    obtain ⟨o, ho⟩ := Option.isSome_iff_exists.mp h
    simp only [List.map_cons, through] at ho
    obtain ⟨out, hout, ho⟩ := Option.bind_eq_some_iff.mp ho
    obtain ⟨out', hout', hpass⟩ := process_of_reset counter hout
    simp only [through, hout', Option.bind_some]
    by_cases hdrop : out'.2.2 = true
    · exact ⟨_, if_pos hdrop⟩
    · rw [Bool.not_eq_true] at hdrop
      obtain ⟨hdrop', heq⟩ := hpass hdrop
      rw [hdrop', if_neg (by simp)] at ho
      obtain ⟨rest, hrest, -⟩ := Option.map_eq_some_iff.mp ho
      obtain ⟨o', ho'⟩ := ih (f := out'.2.1) (by rw [heq, hrest]; rfl)
      rw [hdrop, ho']
      exact ⟨_, rfl⟩

theorem reset_through {counter : UInt32 → UInt32 × Bool} {ps : List Processor} {f : Filter}
    {arguments : SubscriptionArguments} {o : List Processor × Option Filter}
    (h : through (process counter) ps f arguments = some o) : o.1.map reset = ps.map reset := by
  induction ps generalizing f o with
  | nil =>
    obtain rfl := Option.some.inj h
    rfl
  | cons p ps ih =>
    obtain ⟨out, hout, h⟩ := Option.bind_eq_some_iff.mp h
    have hp := reset_process hout
    split at h
    · obtain rfl := Option.some.inj h
      simp [hp]
    · obtain ⟨rest, hrest, rfl⟩ := Option.map_eq_some_iff.mp h
      simp [hp, ih hrest]

theorem through_added {ps : List Processor} {f : Filter} {arguments : SubscriptionArguments}
    {o : List Processor × Option Filter}
    (hbound : ∀ b r n, .count b r n ∈ ps.map stage → n + 1 < 2 ^ 32)
    (h : through processAdded ps f arguments = some o) :
    add (ps.map stage) f arguments = (o.1.map stage, o.2) := by
  induction ps generalizing f o with
  | nil =>
    obtain rfl := Option.some.inj h
    rfl
  | cons p ps ih =>
    obtain ⟨out, hout, h⟩ := Option.bind_eq_some_iff.mp h
    have hcome := processAdded_stage (fun b r n hp => hbound b r n (by simp [hp])) hout
    rw [List.map_cons]
    simp only [add, Pipeline.pass, hcome]
    split at h
    · rename_i hdrop
      obtain rfl := Option.some.inj h
      simp [hdrop]
    · rename_i hdrop
      obtain ⟨rest, hrest, rfl⟩ := Option.map_eq_some_iff.mp h
      have hadd := ih (fun b r n hm => hbound b r n (List.mem_cons_of_mem _ hm)) hrest
      unfold add at hadd
      simp [hdrop, hadd]

section

variable {p : Processor} {ps : List Processor} {f : Filter} {arguments : SubscriptionArguments}
  {out : Processor × Filter × Bool}

theorem go_of_holds (hholds : Holds (stage p :: ps.map stage) f)
    (hout : processRemoved p f arguments = some out) :
    (stage p).go f arguments = (stage out.1, out.2) := by
  refine processRemoved_stage ?_ hout
  intro b r n hp hb
  rw [hp] at hholds
  exact (hholds.1 hb).1

theorem holds_tail (hholds : Holds (stage p :: ps.map stage) f)
    (hout : processRemoved p f arguments = some out) (hdrop : out.2.2 = false) :
    Holds (ps.map stage) out.2.1 := by
  have hgo := go_of_holds hholds hout
  generalize stage p = c at hgo hholds
  cases c with
  | drop d =>
    obtain ⟨-, hout⟩ := Prod.mk.inj hgo
    rw [← hout] at hdrop ⊢
    exact hholds hdrop
  | refuse d =>
    obtain ⟨-, hout⟩ := Prod.mk.inj hgo
    rw [← hout]
    exact hholds
  | rewrite g =>
    obtain ⟨-, hout⟩ := Prod.mk.inj hgo
    rw [← hout]
    exact hholds
  | count b r n =>
    simp only [Stage.go] at hgo
    split at hgo
    · rename_i hb
      split at hgo
      · rename_i hn
        obtain ⟨-, hout⟩ := Prod.mk.inj hgo
        rw [← hout]
        exact (hholds.1 hb).2 hn
      · obtain ⟨-, hout⟩ := Prod.mk.inj hgo
        rw [← hout] at hdrop
        simp at hdrop
    · rename_i hb
      obtain ⟨-, hout⟩ := Prod.mk.inj hgo
      rw [← hout]
      exact hholds.2 (by simpa using hb)

end

theorem through_removed {ps : List Processor} {f : Filter} {arguments : SubscriptionArguments}
    {o : List Processor × Option Filter} (hholds : Holds (ps.map stage) f)
    (h : through processRemoved ps f arguments = some o) :
    remove (ps.map stage) f arguments = (o.1.map stage, o.2) := by
  induction ps generalizing f o with
  | nil =>
    obtain rfl := Option.some.inj h
    rfl
  | cons p ps ih =>
    obtain ⟨out, hout, h⟩ := Option.bind_eq_some_iff.mp h
    rw [List.map_cons] at hholds ⊢
    simp only [remove, Pipeline.pass, go_of_holds hholds hout]
    split at h
    · rename_i hdrop
      obtain rfl := Option.some.inj h
      simp [hdrop]
    · rename_i hdrop
      obtain ⟨rest, hthrough, rfl⟩ := Option.map_eq_some_iff.mp h
      have hremove := ih (holds_tail hholds hout (by simpa using hdrop)) hthrough
      unfold remove at hremove
      simp [hdrop, hremove]

end Processor

/-! ## What the stages do to filters -/

theorem mem_of_hasEqualityConstraint {key value : String} {cs : List Constraint}
    (h : hasEqualityConstraint key (· == value) cs = some true) :
    ∃ opt, .str key value .EQ opt ∈ cs := by
  induction cs with
  | nil => simp [hasEqualityConstraint] at h
  | cons c cs ih =>
    have up : (∃ opt, .str key value .EQ opt ∈ cs) → ∃ opt, .str key value .EQ opt ∈ c :: cs := by
      rintro ⟨opt, hm⟩
      exact ⟨opt, List.mem_cons_of_mem _ hm⟩
    simp only [hasEqualityConstraint] at h
    split at h
    · rename_i hattr
      obtain ⟨x, hx, h⟩ := Option.bind_eq_some_iff.mp h
      split at h
      · rename_i htest
        cases c with
        | str a y op opt =>
          simp only [Constraint.getStr, Option.some.injEq, Constraint.attr, Constraint.predicate,
            beq_iff_eq] at hx hattr htest
          exact ⟨opt, by rw [← hattr, ← htest.1, ← hx, ← htest.2]; exact List.mem_cons_self⟩
        | int | float | list => simp [Constraint.getStr] at hx
      · exact up (ih h)
    · exact up (ih h)

theorem hasEqualityConstraint_of_mem {key value : String} {cs : List Constraint}
    (hstr : ∀ c ∈ cs, c.getStr.isSome = true) {opt : Bool} (h : .str key value .EQ opt ∈ cs) :
    hasEqualityConstraint key (· == value) cs = some true := by
  induction cs with
  | nil => simp at h
  | cons c cs ih =>
    have hrest := fun hm => ih (fun d hd => hstr d (List.mem_cons_of_mem _ hd)) hm
    obtain ⟨x, hx⟩ := Option.isSome_iff_exists.mp (hstr c List.mem_cons_self)
    simp only [hasEqualityConstraint, hx, Option.bind_some]
    rcases List.mem_cons.mp h with rfl | hm
    · simp only [Constraint.getStr, Option.some.injEq] at hx
      simp [Constraint.attr, Constraint.predicate, hx]
    · rw [hrest hm]
      split
      · split <;> rfl
      · rfl

/-- A key that the constructor of a constraint takes as it is. -/
def PlainKey (key : String) : Prop := ∀ opt, Constraint.attributeOf key opt = some (key, opt)

def ClusterLabels.constraints (labels : ClusterLabels) : List Constraint :=
  labels.map fun e => .str e.1 e.2.local_label .EQ false

theorem ClusterLabels.aggregate_eq {labels : ClusterLabels} (h : ∀ e ∈ labels, PlainKey e.1) :
    labels.aggregate = some ⟨labels.constraints, []⟩ := by
  have hmap : labels.mapM (fun e => Constraint.ofStr e.1 e.2.local_label .EQ false) =
      some labels.constraints := by
    unfold constraints
    induction labels with
    | nil => rfl
    | cons e labels ih =>
      have he : Constraint.ofStr e.1 e.2.local_label .EQ false =
          some (.str e.1 e.2.local_label .EQ false) := by
        simp [Constraint.ofStr, h e List.mem_cons_self false]
      rw [List.mapM_cons, he, ih fun d hd => h d (List.mem_cons_of_mem _ hd)]
      rfl
  unfold aggregate
  rw [hmap]
  unfold constraints Filter.ofConstraints
  rw [Option.map_some, List.filter_eq_self.mpr, List.filter_eq_nil_iff.mpr]
  · intro c hc
    obtain ⟨e, -, rfl⟩ := List.mem_map.mp hc
    simp [Constraint.optional]
  · intro c hc
    obtain ⟨e, -, rfl⟩ := List.mem_map.mp hc
    simp [Constraint.optional]

theorem ClusterLabels.allRequired_iff {labels : ClusterLabels} {cs : List Constraint} :
    labels.allRequired cs = some true ↔
      ∀ e ∈ labels, hasEqualityConstraint e.1 (· == e.2.local_label) cs = some true := by
  induction labels with
  | nil => simp [allRequired]
  | cons e labels ih =>
    simp only [allRequired, Option.bind_eq_some_iff, List.forall_mem_cons, ← ih]
    constructor
    · rintro ⟨found, hfound, h⟩
      split at h
      · rename_i hf
        exact ⟨by rw [hfound, hf], h⟩
      · simp at h
    · rintro ⟨hfound, h⟩
      exact ⟨true, hfound, h⟩

theorem ClusterLabels.allRequired_constraints (labels : ClusterLabels) :
    labels.allRequired labels.constraints = some true := by
  rw [allRequired_iff]
  intro e he
  have hmem : .str e.1 e.2.local_label .EQ false ∈ labels.constraints :=
    List.mem_map.mpr ⟨e, he, rfl⟩
  refine hasEqualityConstraint_of_mem ?_ hmem
  intro c hc
  obtain ⟨e', -, rfl⟩ := List.mem_map.mp hc
  rfl

/-! ## The stages of a connection -/

namespace Hello

open Processor

def stages (h : Hello) : List (Stage Filter SubscriptionArguments) := h.egressProcessors.map stage

theorem keys_emplace {key : String} {v : ClusterLabelValuePair} {labels : ClusterLabels}
    {e : String × ClusterLabelValuePair} (he : e ∈ labels.emplace key v) :
    e ∈ labels ∨ e.1 = key := by
  induction labels with
  | nil =>
    rw [ClusterLabels.emplace, List.mem_singleton] at he
    exact Or.inr (by rw [he])
  | cons d labels ih =>
    unfold ClusterLabels.emplace at he
    split at he
    · rcases List.mem_cons.mp he with rfl | he
      · exact Or.inr rfl
      · exact Or.inl he
    · split at he
      · exact Or.inl he
      · rcases List.mem_cons.mp he with rfl | he
        · exact Or.inl List.mem_cons_self
        · rcases ih he with he | he
          · exact Or.inl (List.mem_cons_of_mem _ he)
          · exact Or.inr he

theorem keys_clusterLabels (h : Hello) (keys : List String) :
    ∀ e ∈ h.clusterLabels keys, e.1 ∈ keys := by
  unfold clusterLabels
  induction keys using List.reverseRecOn with
  | nil => simp
  | append_singleton keys key ih =>
    intro e he
    rw [List.foldl_append] at he
    rcases keys_emplace he with he | he
    · exact List.mem_append_left _ (ih e he)
    · simp [he]

variable {h : Hello}

theorem count_mem {b : Filter → Bool} {r : Filter} {n : Nat} (hm : .count b r n ∈ h.stages) :
    n = 0 ∧
    ((b = (fun f => hasEqualityConstraint "node_id" (· == h.NODE_ID) f.required == some true) ∧
      r = nodeIdFilter h.NODE_ID) ∨
    ∃ keys ∈ h.clusters, b = (fun f => (h.clusterLabels keys).allRequired f.required == some true) ∧
      r = (h.clusterLabels keys).aggregate.getD ⟨[], []⟩) := by
  obtain ⟨p, hp, heq⟩ := List.mem_map.mp hm
  simp only [egressProcessors, List.mem_append, List.mem_cons, List.mem_flatMap, clusterProcessors,
    List.not_mem_nil, or_false] at hp
  rcases hp with ((rfl | rfl) | ⟨keys, hkeys, rfl | rfl⟩) | rfl | rfl | rfl
  · simp [stage] at heq
  · simp only [stage, Stage.count.injEq] at heq
    obtain ⟨rfl, rfl, rfl⟩ := heq
    exact ⟨rfl, Or.inl ⟨rfl, rfl⟩⟩
  · simp only [stage] at heq
    split at heq
    · simp at heq
    · simp only [Stage.count.injEq] at heq
      obtain ⟨rfl, rfl, rfl⟩ := heq
      exact ⟨rfl, Or.inr ⟨keys, hkeys, rfl, rfl⟩⟩
  all_goals simp [stage] at heq

theorem rewrite_mem {s : Filter → Filter} (hm : .rewrite s ∈ h.stages) :
    s = withoutOptional [.str "node_id" h.NODE_ID .EQ true] := by
  obtain ⟨p, hp, heq⟩ := List.mem_map.mp hm
  simp only [egressProcessors, List.mem_append, List.mem_cons, List.mem_flatMap, clusterProcessors,
    List.not_mem_nil, or_false] at hp
  rcases hp with ((rfl | rfl) | ⟨keys, hkeys, rfl | rfl⟩) | rfl | rfl | rfl
  · simp [stage] at heq
  · simp [stage] at heq
  · simp only [stage] at heq
    split at heq <;> simp at heq
  · simp [stage] at heq
  · simp [stage] at heq
  · simp [stage] at heq
  · simp only [stage, Stage.rewrite.injEq] at heq
    exact heq.symm

/-- No cluster of the connection has an empty key, or one with a leading question mark. -/
def PlainKeys (h : Hello) : Prop := ∀ keys ∈ h.clusters, ∀ key ∈ keys, PlainKey key

theorem PlainKeys.aggregate_eq (hplain : h.PlainKeys) {keys : List String}
    (hkeys : keys ∈ h.clusters) :
    (h.clusterLabels keys).aggregate = some ⟨(h.clusterLabels keys).constraints, []⟩ :=
  ClusterLabels.aggregate_eq fun e he => hplain keys hkeys e.1 (keys_clusterLabels h keys e he)

theorem PlainKeys.keyed (hplain : h.PlainKeys) : Keyed Filter.required h.stages := by
  refine ⟨?_, ?_, ?_⟩
  · intro b r n hm f g hfg
    rcases (count_mem hm).2 with ⟨rfl, -⟩ | ⟨keys, -, rfl, -⟩ <;> simp only [hfg]
  · intro b r n hm
    rcases (count_mem hm).2 with ⟨rfl, rfl⟩ | ⟨keys, hkeys, rfl, rfl⟩
    · simp [nodeIdFilter, hasEqualityConstraint, Constraint.attr, Constraint.getStr,
        Constraint.predicate]
    · rw [hplain.aggregate_eq hkeys]
      simp [ClusterLabels.allRequired_constraints]
  · intro s hm f
    rw [rewrite_mem hm]
    rfl

theorem late_stages (h : Hello) : Late h.stages := by
  have hlast : Late ([scopeLocal, scopeCluster (h.cluster != h.peer_cluster),
      optionalConstraintDrop [.str "node_id" h.NODE_ID .EQ true]].map stage) :=
    ⟨fun _ => rfl, fun _ => rfl, trivial⟩
  unfold stages egressProcessors
  rw [List.map_append]
  refine late_append ?_ hlast
  intro d hd
  obtain ⟨p, hp, heq⟩ := List.mem_map.mp hd
  simp only [List.mem_append, List.mem_cons, List.mem_flatMap, clusterProcessors, List.not_mem_nil,
    or_false] at hp
  rcases hp with (rfl | rfl) | ⟨keys, -, rfl | rfl⟩
  · simp [stage] at heq
  · simp [stage] at heq
  · simp only [stage] at heq
    split at heq <;> simp at heq
  · simp [stage] at heq

theorem matches_of_required {f : Filter} {p : Publication} (hf : f.matches p = true) {cs : List Constraint}
    (hcs : ∀ c ∈ cs, ∃ d ∈ f.required, d.attr = c.attr ∧ Filter.passes d = Filter.passes c) :
    Filter.matches ⟨cs, []⟩ p = true := by
  unfold Filter.matches at hf ⊢
  simp only [Bool.and_eq_true, Filter.checkRequired, Filter.checkOptionals, List.all_eq_true] at hf ⊢
  refine ⟨?_, by simp⟩
  intro c hc
  obtain ⟨d, hd, hattr, hpass⟩ := hcs c hc
  have hdp := hf.1 d hd
  rwa [hattr, hpass] at hdp

theorem passes_str (key value : String) (opt opt' : Bool) :
    Filter.passes (.str key value .EQ opt) = Filter.passes (.str key value .EQ opt') := by
  funext v
  cases v <;> rfl

theorem PlainKeys.matches_fate (hplain : h.PlainKeys) {f g : Filter} {p : Publication}
    (hf : f.matches p = true) (hg : fate h.stages f = some g) : g.matches p = true := by
  refine fate_preserves (P := fun f => f.matches p = true) ?_ ?_ hf hg
  · intro b r n hm f hb hf
    rcases (count_mem hm).2 with ⟨rfl, rfl⟩ | ⟨keys, hkeys, rfl, rfl⟩
    · simp only [beq_iff_eq] at hb
      obtain ⟨opt, hmem⟩ := mem_of_hasEqualityConstraint hb
      refine matches_of_required hf ?_
      intro c hc
      rw [List.mem_singleton] at hc
      rw [hc]
      exact ⟨_, hmem, rfl, passes_str _ _ _ _⟩
    · simp only [beq_iff_eq, ClusterLabels.allRequired_iff] at hb
      rw [hplain.aggregate_eq hkeys]
      refine matches_of_required hf ?_
      intro c hc
      obtain ⟨e, he, rfl⟩ := List.mem_map.mp hc
      obtain ⟨opt, hmem⟩ := mem_of_hasEqualityConstraint (hb e he)
      exact ⟨_, hmem, rfl, passes_str _ _ _ _⟩
  · intro s hm f hf
    rw [rewrite_mem hm]
    unfold Filter.matches at hf ⊢
    rw [Bool.and_eq_true] at hf ⊢
    refine ⟨hf.1, ?_⟩
    have hopt := hf.2
    simp only [Filter.checkOptionals, List.all_eq_true] at hopt ⊢
    exact fun c hc => hopt c (List.mem_of_mem_filter hc)

/-! ## Runs -/

/-- One call: the chain, and the view of the peer after the message that was sent. -/
def egressStep (st : List Processor × List (Filter × SubscriptionArguments)) :
    Event Filter SubscriptionArguments →
    Option (List Processor × List (Filter × SubscriptionArguments))
  | .added f arguments =>
    (handleLocalSubscriptionAdded st.1 f arguments).map fun r =>
      (r.1, (r.2.map fun e => insertEntry Filter.eqFilter st.2 e.1 e.2).getD st.2)
  | .removed f arguments =>
    (handleLocalSubscriptionRemoved st.1 f arguments).map fun r =>
      (r.1, (r.2.map fun e => deleteEntry Filter.eqFilter st.2 e.1 e.2).getD st.2)

/-- The chain of a new connection and the view of its peer after some calls. -/
def egressRun (h : Hello) (evs : List (Event Filter SubscriptionArguments)) :
    Option (List Processor × List (Filter × SubscriptionArguments)) :=
  evs.foldlM egressStep (h.egressProcessors, [])

/-- The subscriptions that are added in some calls. -/
def Added (evs : List (Event Filter SubscriptionArguments)) (x : Filter × SubscriptionArguments) :
    Prop :=
  .added x.1 x.2 ∈ evs

/-- A newly built chain has a result for every added subscription. -/
def Readable (h : Hello) (evs : List (Event Filter SubscriptionArguments)) : Prop :=
  ∀ x, Added evs x → (through processAdded h.egressProcessors x.1 x.2).isSome = true

theorem Readable.of_prefix {evs pre : List (Event Filter SubscriptionArguments)}
    (hread : h.Readable evs) (hpre : pre <+: evs) : h.Readable pre :=
  fun x hx => hread x (hpre.subset hx)

theorem load_stages (h : Hello) : load h.stages [] = h.stages :=
  load_nil fun _ _ _ hm => (count_mem hm).1

theorem egressProcessors_reset (h : Hello) : h.egressProcessors.map reset = h.egressProcessors := by
  unfold egressProcessors
  simp only [List.map_append, List.map_flatMap]
  rfl

/-- The calls of a connection feed the view of its peer as the pipeline of its stages does. -/
theorem egressRun_fed (hplain : h.PlainKeys) {evs : List (Event Filter SubscriptionArguments)}
    (hlegal : Legal evs) (hread : h.Readable evs) (hlen : evs.length < 2 ^ 32) :
    ∃ ps, h.egressRun evs = some (ps, (fed Filter.eqFilter h.stages evs).2) ∧
      ps.map stage = (fed Filter.eqFilter h.stages evs).1 ∧ ps.map reset = h.egressProcessors := by
  induction evs using List.reverseRecOn with
  | nil => exact ⟨h.egressProcessors, rfl, h.load_stages.symm, h.egressProcessors_reset⟩
  | append_singleton evs ev ih =>
    rw [List.length_append, List.length_singleton] at hlen
    have hread' := hread.of_prefix (List.prefix_append evs [ev])
    obtain ⟨ps, hrun, hstage, hreset⟩ := ih hlegal.init hread' (by omega)
    obtain ⟨held, hloaded, hheld⟩ :=
      loaded_fed Filter.eqFilter h.late_stages hplain.keyed.apart hlegal.init
    have hstep : h.egressRun (evs ++ [ev]) = egressStep (ps, (fed Filter.eqFilter h.stages evs).2)
        ev := by
      unfold egressRun at hrun ⊢
      rw [List.foldlM_append, hrun]
      simp [List.foldlM]
    rw [hstep, fed_snoc]
    cases ev with
    | added f a =>
      have hnew : (through processAdded (ps.map reset) f a).isSome = true := by
        rw [hreset]
        exact hread (f, a) (by simp [Added])
      obtain ⟨o, ho⟩ := through_of_reset countUp hnew
      have hadd := through_added (o := o) ?_ ho
      · rw [hstage] at hadd
        refine ⟨o.1, ?_, ?_, (reset_through ho).trans hreset⟩
        · have hthrough : through processAdded ps f a = some o := ho
          simp only [egressStep, handleLocalSubscriptionAdded, hthrough, Option.map_some, feed,
            hadd, Option.map_map]
          rfl
        · simp only [feed, hadd]
      · intro b r n hm
        rw [hstage, hloaded.eq] at hm
        have := count_le_of_load hm
        rw [List.length_map] at this
        omega
    | removed f a =>
      have hmem := hlegal.last
      have hnew : (through processAdded (ps.map reset) f a).isSome = true := by
        rw [hreset]
        exact hread' (f, a) (live_added_mem (U := Added evs) (fun _ _ hev => hev) _ hmem)
      obtain ⟨o, ho⟩ := through_of_reset countDown hnew
      have hremove := through_removed (o := o) ?_ ho
      · rw [hstage] at hremove
        refine ⟨o.1, ?_, ?_, (reset_through ho).trans hreset⟩
        · have hthrough : through processRemoved ps f a = some o := ho
          simp only [egressStep, handleLocalSubscriptionRemoved, hthrough, Option.map_some, feed,
            hremove, Option.map_map]
          rfl
        · simp only [feed, hremove]
      · rw [hstage]
        exact hloaded.holds hmem

theorem fate_of_through {f g : Filter} {arguments : SubscriptionArguments} {ps : List Processor}
    (hplain : h.PlainKeys) (hthrough : through processAdded h.egressProcessors f arguments =
      some (ps, some g)) :
    refused h.stages arguments = false ∧ fate h.stages f = some g := by
  have hadd := through_added (fun b r n hm => by rw [(count_mem hm).1]; decide) hthrough
  have hload := (add_load h.late_stages hplain.keyed.apart [] f arguments).2
  have hstages : h.egressProcessors.map stage = load h.stages [] := h.load_stages.symm
  rw [hstages] at hadd
  rw [hadd] at hload
  rcases hload with ⟨hnone, -⟩ | ⟨hfate, hr, -⟩
  · simp at hnone
  · exact ⟨hr, hfate.symm⟩

/-! ## Nothing is lost -/

/-- Every publication for a live subscription that a new chain sends matches a filter at the peer,
if no aggregate stands for subscriptions of which only some are refused for their scope, and no
other filters that are sent compare equal. -/
theorem egress_loses_nothing (h : Hello) (evs : List (Event Filter SubscriptionArguments))
    (hplain : h.PlainKeys) (hlegal : Legal evs) (hread : h.Readable evs)
    (hlen : evs.length < 2 ^ 32) (huni : Uniform h.stages (Added evs))
    (hsep : Separate Filter.eqFilter h.stages (Added evs))
    (pre : List (Event Filter SubscriptionArguments)) (hpre : pre <+: evs) :
    ∃ ps view, h.egressRun pre = some (ps, view) ∧
      ∀ x ∈ live pre, ∀ ps' g, through processAdded h.egressProcessors x.1 x.2 =
        some (ps', some g) →
        ∀ p, x.1.matches p = true → ∃ e ∈ view, e.1.matches p = true := by
  have hlen' : pre.length < 2 ^ 32 := Nat.lt_of_le_of_lt hpre.length_le hlen
  obtain ⟨ps, hrun, -, -⟩ := egressRun_fed hplain (hlegal.of_prefix hpre) (hread.of_prefix hpre)
    hlen'
  refine ⟨ps, _, hrun, ?_⟩
  intro x hx ps' g hthrough p hp
  obtain ⟨hr, hg⟩ := fate_of_through hplain hthrough
  have hadded : ∀ f a, .added f a ∈ pre → Added evs (f, a) := fun f a hev => hpre.subset hev
  obtain ⟨b, hb⟩ := fed_covers h.late_stages hplain.keyed.apart hsep huni (hlegal.of_prefix hpre)
    hadded hx hr hg
  exact ⟨(g, b), hb, hplain.matches_fate hp hg⟩

/-- A connection between nodes without clusters. -/
def plainHello : Hello := ⟨"n", [], [], [], "c", "c"⟩

def nodeFilter : Filter := ⟨[.str "node_id" "n" .EQ false], []⟩

def nodeFilterX : Filter := ⟨[.str "node_id" "n" .EQ false, .int "x" 1 .EQ false], []⟩

/-- Two subscriptions for the node come, and one goes. -/
def sharedEvents : List (Event Filter SubscriptionArguments) :=
  [.added nodeFilterX .default, .added nodeFilter .default, .removed nodeFilter .default]

theorem sharedEvents_added {x : Filter × SubscriptionArguments} (hx : Added sharedEvents x) :
    x = (nodeFilterX, .default) ∨ x = (nodeFilter, .default) := by
  obtain ⟨f, a⟩ := x
  simpa [Added, sharedEvents] using hx

theorem sharedEvents_legal : Legal sharedEvents := by
  have h1 := legal_nil.added nodeFilterX SubscriptionArguments.default
  have h2 := h1.added nodeFilter SubscriptionArguments.default
  exact h2.removed (f := nodeFilter) (a := .default) (by decide)

theorem sharedEvents_readable : plainHello.Readable sharedEvents := by
  intro x hx
  rcases sharedEvents_added hx with rfl | rfl <;> decide

theorem sharedEvents_separate :
    Separate Filter.eqFilter plainHello.stages (Added sharedEvents) := by
  intro x y hx hy _ _ g g' hg hg' _ _
  have hnode : ∀ z, Added sharedEvents z →
      counted plainHello.stages z.1 = true ∧ fate plainHello.stages z.1 = some nodeFilter := by
    intro z hz
    rcases sharedEvents_added hz with rfl | rfl <;> decide
  rw [(hnode x hx).2] at hg
  rw [(hnode y hy).2] at hg'
  exact Or.inr ⟨(hnode x hx).1, (hnode y hy).1, Option.some.inj (hg.symm.trans hg')⟩

/-- The aggregate of two subscriptions stays while one of them does. -/
theorem egress_loses_nothing_aggregated :
    ∃ ps view, plainHello.egressRun sharedEvents = some (ps, view) ∧
      ∃ e ∈ view, e.1.matches ((Publication.empty.setAttr "node_id" (.str "n")).setAttr "x"
        (.int 1)) = true := by
  have huni : Uniform plainHello.stages (Added sharedEvents) := by
    intro x y hx hy _ _ _
    rcases sharedEvents_added hx with rfl | rfl <;> rcases sharedEvents_added hy with
        rfl | rfl <;> rfl
  obtain ⟨ps, view, hrun, hcover⟩ := egress_loses_nothing plainHello sharedEvents
    (by simp [PlainKeys, plainHello]) sharedEvents_legal sharedEvents_readable (by decide) huni
      sharedEvents_separate _ (List.prefix_refl _)
  exact ⟨ps, view, hrun, hcover (nodeFilterX, .default) (by decide) _ nodeFilter rfl _ (by decide)⟩

/-- The first subscription of an aggregate is refused for its scope. -/
def refusedEvents : List (Event Filter SubscriptionArguments) :=
  [.added nodeFilterX ⟨.LOCAL, 0, .FUTURE⟩, .added nodeFilter ⟨.GLOBAL, 0, .FUTURE⟩]

/-- Two subscriptions are sent as the same filter, and one of them goes. -/
def strippedEvents : List (Event Filter SubscriptionArguments) :=
  [.added ⟨[.int "x" 1 .EQ false], []⟩ .default,
    .added ⟨[.int "x" 1 .EQ false], [.str "node_id" "n" .EQ true]⟩ .default,
    .removed ⟨[.int "x" 1 .EQ false], [.str "node_id" "n" .EQ true]⟩ .default]

/-- In both runs a live subscription that a new chain sends has no filter at the peer. -/
theorem egress_loses_subscriptions :
    (Legal refusedEvents ∧ (nodeFilter, ⟨.GLOBAL, 0, .FUTURE⟩) ∈ live refusedEvents ∧
      (plainHello.egressRun refusedEvents).map Prod.snd = some [] ∧
      (through processAdded plainHello.egressProcessors nodeFilter ⟨.GLOBAL, 0, .FUTURE⟩).map
        Prod.snd =
        some (some nodeFilter) ∧
      nodeFilter.matches (Publication.empty.setAttr "node_id" (.str "n")) = true) ∧
    (Legal strippedEvents ∧ (⟨[.int "x" 1 .EQ false], []⟩, .default) ∈ live strippedEvents ∧
      (plainHello.egressRun strippedEvents).map Prod.snd = some [] ∧
      (through processAdded plainHello.egressProcessors ⟨[.int "x" 1 .EQ false], []⟩ .default).map
        Prod.snd =
        some (some ⟨[.int "x" 1 .EQ false], []⟩) ∧
      Filter.matches ⟨[.int "x" 1 .EQ false], []⟩ (Publication.empty.setAttr "x" (.int 1)) =
        true) := by
  have h1 : Legal refusedEvents := by
    have h := legal_nil.added nodeFilterX (SubscriptionArguments.mk .LOCAL 0 .FUTURE)
    exact h.added nodeFilter ⟨.GLOBAL, 0, .FUTURE⟩
  have h2 : Legal strippedEvents := by
    have h := legal_nil.added (Filter.mk [.int "x" 1 .EQ false] []) SubscriptionArguments.default
    have h' := h.added ⟨[.int "x" 1 .EQ false], [.str "node_id" "n" .EQ true]⟩ .default
    exact h'.removed (f := ⟨[.int "x" 1 .EQ false], [.str "node_id" "n" .EQ true]⟩) (a := .default)
      (by decide)
  refine ⟨⟨h1, ?_, ?_, ?_, ?_⟩, h2, ?_, ?_, ?_, ?_⟩ <;> decide

/-! ## Nothing is left behind -/

/-- Without live subscriptions the peer holds nothing, if the subscriptions of an aggregate have the
same arguments and are not added twice, and the filters that are sent compare equal to themselves
only. -/
theorem egress_leaves_nothing (h : Hello) (evs : List (Event Filter SubscriptionArguments))
    (hplain : h.PlainKeys) (hlegal : Legal evs) (hread : h.Readable evs)
    (hlen : evs.length < 2 ^ 32) (halike : Alike h.stages (Added evs)) (honce : Once h.stages evs)
    (hself : SelfSame Filter.eqFilter h.stages (Added evs))
    (hsep : Separate Filter.eqFilter h.stages (Added evs))
    (pre : List (Event Filter SubscriptionArguments)) (hpre : pre <+: evs) (hnone : live pre = []) :
    ∃ ps, h.egressRun pre = some (ps, []) := by
  have hlen' : pre.length < 2 ^ 32 := Nat.lt_of_le_of_lt hpre.length_le hlen
  obtain ⟨ps, hrun, -, -⟩ := egressRun_fed hplain (hlegal.of_prefix hpre) (hread.of_prefix hpre)
    hlen'
  have hmirrors := mirrors_fed h.late_stages hplain.keyed.apart hsep halike hself
    (hlegal.of_prefix hpre) (honce.of_prefix hpre) fun f a hev => hpre.subset hev
  have hview : (fed Filter.eqFilter h.stages pre).2 = [] := by
    rw [List.eq_nil_iff_forall_not_mem]
    intro e he
    obtain ⟨f, hf, -⟩ := hmirrors.entries e he
    rw [hnone] at hf
    simp at hf
  exact ⟨ps, by rw [hrun, hview]⟩

theorem egress_leaves_nothing_aggregated :
    ∃ ps, plainHello.egressRun (sharedEvents ++ [.removed nodeFilterX .default]) =
      some (ps, []) := by
  have hadded : ∀ x, Added (sharedEvents ++ [.removed nodeFilterX .default]) x →
      Added sharedEvents x := by
    intro x hx
    rcases List.mem_append.mp hx with hx | hx
    · exact hx
    · simp at hx
  have halike : Alike plainHello.stages
      (Added (sharedEvents ++ [.removed nodeFilterX .default])) := by
    intro x y hx hy _ _ _ _
    rcases sharedEvents_added (hadded x hx) with rfl | rfl <;>
      rcases sharedEvents_added (hadded y hy) with rfl | rfl <;> rfl
  have hself : SelfSame Filter.eqFilter plainHello.stages
    (Added (sharedEvents ++ [.removed nodeFilterX .default])) := by
    intro x hx _ g hg
    have hnode : fate plainHello.stages x.1 = some nodeFilter := by
      rcases sharedEvents_added (hadded x hx) with rfl | rfl <;> decide
    rw [hnode] at hg
    obtain rfl := Option.some.inj hg
    decide
  have honce : Once plainHello.stages (sharedEvents ++ [.removed nodeFilterX .default]) := by
    have h0 : Once plainHello.stages ([] : List (Event Filter SubscriptionArguments)) := once_nil
    have h1 := h0.added (f := nodeFilterX) (a := .default) (by decide)
    have h2 := h1.added (f := nodeFilter) (a := .default) (by decide)
    exact (h2.removed nodeFilter .default).removed nodeFilterX .default
  exact egress_leaves_nothing plainHello _ (by simp [PlainKeys, plainHello])
    (sharedEvents_legal.removed (f := nodeFilterX) (a := .default) (by decide))
    (fun x hx => sharedEvents_readable x (hadded x hx)) (by decide) halike honce hself
    (fun x y hx hy => sharedEvents_separate x y (hadded x hx) (hadded y hy)) _ (List.prefix_refl _)
      (by decide)

/-- The first and the last subscription of an aggregate have different priorities. -/
def unlikeEvents : List (Event Filter SubscriptionArguments) :=
  [.added nodeFilterX ⟨.GLOBAL, 0, .FUTURE⟩, .added nodeFilter ⟨.GLOBAL, 1, .FUTURE⟩,
    .removed nodeFilterX ⟨.GLOBAL, 0, .FUTURE⟩, .removed nodeFilter ⟨.GLOBAL, 1, .FUTURE⟩]

/-- The aggregate was sent with other arguments than it is taken back with. -/
theorem egress_leaves_aggregate :
    Legal unlikeEvents ∧ live unlikeEvents = [] ∧
      (plainHello.egressRun unlikeEvents).map Prod.snd =
        some [(nodeFilter, ⟨.GLOBAL, 0, .FUTURE⟩)] := by
  have h1 := legal_nil.added nodeFilterX (SubscriptionArguments.mk .GLOBAL 0 .FUTURE)
  have h2 := h1.added nodeFilter ⟨.GLOBAL, 1, .FUTURE⟩
  have h3 := h2.removed (f := nodeFilterX) (a := ⟨.GLOBAL, 0, .FUTURE⟩) (by decide)
  have h4 : Legal unlikeEvents := h3.removed (f := nodeFilter) (a := ⟨.GLOBAL, 1, .FUTURE⟩)
    (by decide)
  exact ⟨h4, by decide, by decide⟩

end Hello

end UActor
