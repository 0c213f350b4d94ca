import UActor.PubSub.Alternation
import UActor.PubSub.FilterMap
import UActor.PubSub.Stored
import UActor.Remote.Egress

/-!
# Updates at a connection

How a connection selects the updates of the router and reads them: `handle_local_subscription_added`
and `handle_local_subscription_removed`, with the filters that `handle_remote_hello` subscribes.
-/

namespace UActor

open Pipeline

namespace SubscriptionArguments

def scopeFromString (s : String) : Scope :=
  if s = "LOCAL" then .LOCAL
  else if s = "CLUSTER" then .CLUSTER
  else if s = "GLOBAL" then .GLOBAL
  else .NONE

def fetchPolicyFromString (s : String) : FetchPolicy :=
  if s = "FETCH" then .FETCH else if s = "FETCH_FUTURE" then .FETCH_FUTURE
  else if s = "FUTURE" then .FUTURE else .NONE

/-- `SubscriptionArguments::from_map`. What is missing keeps its default. -/
def fromMap (m : Map) : SubscriptionArguments where
  priority := ((m.getIntAttr "priority").map Int32.toUInt32).getD default.priority
  fetch_policy := ((m.getStrAttr "fetch_policy").map fetchPolicyFromString).getD
    default.fetch_policy
  scope := ((m.getStrAttr "scope").map scopeFromString).getD default.scope

end SubscriptionArguments

def ActorIdentifier.fromPublicationMap (m : Map) : Option ActorIdentifier :=
  match m.getStrAttr "node_id", m.getStrAttr "actor_type", m.getStrAttr "instance_id" with
  | some node_id, some actor_type, some instance_id => some ⟨node_id, actor_type, instance_id⟩
  | _, _, _ => none

namespace RemoteConnection

open Processor

/-- The filters behind `local_sub_added_id` and `local_sub_removed_id`. -/
def updateFilter (NODE_ID partner_node_id type : String) : Filter :=
  .ofConstraints [.str "type" type .EQ false, .str "include_node_id" partner_node_id .EQ true,
    .str "exclude_node_id" partner_node_id .NE true, .str "publisher_node_id" NODE_ID .EQ false]

/-- A filter as the other side of a message reads it. -/
def received (order : MapOrder) (f : Filter) : Option Filter :=
  Filter.fromPublicationMap order f.toPublicationMap

/-- The filter and the arguments of an update. A message without them is passed over, a filter that
is no map is not looked for: there is no result then. -/
def readUpdate (order : MapOrder) (p : Publication) :
    Option (Option (Filter × SubscriptionArguments)) :=
  if p.hasAttr "subscription" then
    (p.attributes.getNestedComponent "subscription").map fun subscription =>
      (Filter.fromPublicationMap order subscription).bind fun f =>
        (p.attributes.getNestedComponent "subscription_arguments").map fun raw_args =>
          (f, SubscriptionArguments.fromMap raw_args)
  else some none

/-- `RemoteConnection::handle_local_subscription_removed`: the processors and the message that it
sends. -/
def handleLocalSubscriptionRemoved (order : MapOrder) (ps : List Processor) (p : Publication) :
    Option (List Processor × Option (Filter × SubscriptionArguments)) :=
  (readUpdate order p).bind fun update =>
    match update with
    | some (f, arguments) => Processor.handleLocalSubscriptionRemoved ps f arguments
    | none => some (ps, none)

/-- `RemoteConnection::handle_local_subscription_added`. The subscriber has to be there too. -/
def handleLocalSubscriptionAdded (order : MapOrder) (ps : List Processor) (p : Publication) :
    Option (List Processor × Option (Filter × SubscriptionArguments)) :=
  (readUpdate order p).bind fun update =>
    match update, (p.attributes.getNestedComponent "subscriber").bind
      ActorIdentifier.fromPublicationMap with
    | some (f, arguments), some _ => Processor.handleLocalSubscriptionAdded ps f arguments
    | _, _ => some (ps, none)

/-- The connection gets what one of its two filters matches. -/
def update (order : MapOrder) (NODE_ID partner_node_id : String) (ps : List Processor)
    (p : Publication) :
    Option (List Processor × Option (Filter × SubscriptionArguments)) :=
  if (updateFilter NODE_ID partner_node_id "local_subscription_added").matches p then
    handleLocalSubscriptionAdded order ps p
  else if (updateFilter NODE_ID partner_node_id "local_subscription_removed").matches p then
    handleLocalSubscriptionRemoved order ps p
  else some (ps, none)

/-- The processors of a new connection after some updates. -/
def processorsAfter (order : MapOrder) (h : Hello) (partner_node_id : String)
    (us : List Publication) :
    Option (List Processor) :=
  us.foldlM (fun ps u => (update order h.NODE_ID partner_node_id ps u).map Prod.fst)
    h.egressProcessors

end RemoteConnection

/-! ## Counting below zero -/

namespace Processor

/-- The processor would count a removal of the filter, and its counter is zero. -/
def exhausted : Processor → Filter → Bool
  | nodeIdAggregator local_node_id n, f =>
    n == 0 && hasEqualityConstraint "node_id" (· == local_node_id) f.required == some true
  | clusterAggregator labels n, f => n == 0 &&
      (!labels.sameCluster && labels.allRequired f.required == some true)
  | leafNodeIdGateway local_node_id n, f =>
    n == 0 && hasEqualityConstraint "node_id" (· != local_node_id) f.required == some true
  | _, _ => false

/-- Some counter that the removal reaches is decremented below zero. -/
def underflows : List Processor → Filter → SubscriptionArguments → Bool
  | [], _, _ => false
  | p :: ps, f, arguments =>
    p.exhausted f ||
      match processRemoved p f arguments with
      | some r => !r.2.2 && underflows ps r.2.1 arguments
      | none => false

theorem exhausted_stage {p : Processor} {f : Filter} (h : p.exhausted f = true) :
    ∃ b r, stage p = .count b r 0 ∧ b f = true := by
  cases p with
  | nodeIdAggregator l n | leafNodeIdGateway l n =>
    simp only [exhausted, Bool.and_eq_true, beq_iff_eq] at h
    obtain ⟨rfl, hfound⟩ := h
    exact ⟨_, _, rfl, by simp [hfound]⟩
  | clusterAggregator labels n =>
    simp only [exhausted, Bool.and_eq_true, beq_iff_eq, Bool.not_eq_true'] at h
    obtain ⟨rfl, hsame, hfound⟩ := h
    refine ⟨fun f => labels.allRequired f.required == some true, labels.aggregate.getD ⟨[], []⟩,
      ?_, by simp [hfound]⟩
    simp [stage, hsame]
  | nodeLocalFilterDrop | clusterBarrier | scopeLocal | scopeCluster | optionalConstraintDrop =>
    simp [exhausted] at h

theorem underflows_of_holds {ps : List Processor} {f : Filter} (h : Holds (ps.map stage) f)
    (arguments : SubscriptionArguments) : underflows ps f arguments = false := by
  induction ps generalizing f with
  | nil => rfl
  | cons p ps ih =>
    rw [List.map_cons] at h
    have hself : p.exhausted f = false := by
      rw [Bool.eq_false_iff]
      intro hex
      obtain ⟨b, r, hstage, hb⟩ := exhausted_stage hex
      rw [hstage] at h
      exact absurd (h.1 hb).1 (by simp)
    unfold underflows
    rw [hself, Bool.false_or]
    cases hout : processRemoved p f arguments with
    | none => rfl
    | some out =>
      cases hdrop : out.2.2 with
      | true => simp [hdrop]
      | false => simp [hdrop, ih (holds_tail h hout hdrop)]

end Processor

/-- Handling the update takes a counter below zero. -/
def RemoteConnection.underflows (order : MapOrder) (NODE_ID partner_node_id : String)
    (ps : List Processor) (p : Publication) : Bool :=
  (updateFilter NODE_ID partner_node_id "local_subscription_removed").matches p &&
    match readUpdate order p with
    | some (some (f, arguments)) => Processor.underflows ps f arguments
    | _ => false

/-! ## Selected updates -/

namespace RemoteConnection

theorem updateFilter_eq (NODE_ID X type : String) : updateFilter NODE_ID X type =
    ⟨[.str "type" type .EQ false, .str "publisher_node_id" NODE_ID .EQ false],
      [.str "include_node_id" X .EQ true, .str "exclude_node_id" X .NE true]⟩ := rfl

theorem matches_address {u : Publication} {t n : String} (htype : u.getAttr "type" = some (.str t))
    (hpub : u.getAttr "publisher_node_id" = some (.str n))
    (hinc : u.getAttr "include_node_id" = none) (hexc : u.getAttr "exclude_node_id" = none)
    (NODE_ID X type exclude include_ : String) :
    (updateFilter NODE_ID X type).matches (Router.address u exclude include_) = true ↔
      t = type ∧ n = NODE_ID ∧ Router.reaches X exclude include_ := by
  unfold Router.address Router.reaches
  by_cases hx : exclude = "" <;> by_cases hi : include_ = "" <;>
    simp [updateFilter_eq, Filter.matches, Filter.checkRequired, Filter.checkOptionals,
      Filter.passes, Constraint.attr, Constraint.acceptsStr, Constraint.matchStr,
      Constraint.matchWith, Publication.getAttr_setAttr, htype, hpub, hinc, hexc, hx, hi, and_assoc]

section

variable (board : Board) (X type : String) (f : Filter) (F : InternalFilter)
  (args : SubscriptionArguments) (who : ActorIdentifier) (exclude include_ : String)

theorem matches_added :
    (updateFilter board.NODE_ID X type).matches (Router.publishSubscriptionAdded f args who exclude
      include_) = true ↔
      type = "local_subscription_added" ∧ who.node_id = board.NODE_ID ∧
      Router.reaches X exclude include_ := by
  unfold Router.publishSubscriptionAdded
  rw [matches_address (t := "local_subscription_added") (n := who.node_id) rfl rfl rfl rfl,
    eq_comm (a := type)]

theorem matches_removed :
    (updateFilter board.NODE_ID X type).matches (Router.publishSubscriptionRemoved board F args
      exclude include_) =
      true ↔ type = "local_subscription_removed" ∧ Router.reaches X exclude include_ := by
  unfold Router.publishSubscriptionRemoved
  rw [matches_address (t := "local_subscription_removed") (n := board.NODE_ID) rfl rfl rfl rfl,
    eq_comm (a := type)]
  simp

end

theorem getNestedComponent_eq (p : Publication) (name : String) :
    p.attributes.getNestedComponent name = match p.getAttr name with
      | some (.map m) => some m
      | _ => none := rfl

section

variable (order : MapOrder) (board : Board) (f : Filter) (F : InternalFilter)
  (args : SubscriptionArguments) (who : ActorIdentifier) (exclude include_ : String)

theorem readUpdate_of {p : Publication} {m m' : Map}
    (hsub : p.getAttr "subscription" = some (.map m))
    (hargs : p.getAttr "subscription_arguments" = some (.map m')) :
    readUpdate order p =
      some ((Filter.fromPublicationMap order m).map fun g =>
        (g, SubscriptionArguments.fromMap m')) := by
  have hhas : p.hasAttr "subscription" = true := by
    have hfind : Assoc.find "subscription" p.attributes = some (.map m) := hsub
    simp [Publication.hasAttr, Map.hasAttr, hfind]
  unfold readUpdate
  rw [hhas, if_pos rfl, getNestedComponent_eq p "subscription", hsub,
    getNestedComponent_eq p "subscription_arguments", hargs]
  simp only [Option.map_some]
  cases Filter.fromPublicationMap order m <;> rfl

theorem readUpdate_added : readUpdate order
    (Router.publishSubscriptionAdded f args who exclude include_) =
    some ((received order f).map fun g => (g, SubscriptionArguments.fromMap args.toMap)) := by
  unfold Router.publishSubscriptionAdded
  refine readUpdate_of order ?_ ?_
  · rw [Router.getAttr_address _ _ _ (by decide) (by decide)]
    rfl
  · rw [Router.getAttr_address _ _ _ (by decide) (by decide)]
    rfl

theorem readUpdate_removed : readUpdate order
    (Router.publishSubscriptionRemoved board F args exclude include_) =
    some ((received order F.toFilter).map fun g =>
      (g, SubscriptionArguments.fromMap args.toMap)) := by
  unfold Router.publishSubscriptionRemoved
  refine readUpdate_of order ?_ ?_
  · rw [Router.getAttr_address _ _ _ (by decide) (by decide)]
    rfl
  · rw [Router.getAttr_address _ _ _ (by decide) (by decide)]
    rfl

theorem readSubscriber_added :
    ((Router.publishSubscriptionAdded f args who exclude include_).attributes.getNestedComponent
      "subscriber").bind ActorIdentifier.fromPublicationMap = some who := by
  unfold Router.publishSubscriptionAdded
  rw [getNestedComponent_eq, Router.getAttr_address _ _ _ (by decide) (by decide)]
  rfl

end

theorem handle_added {order : MapOrder} {ps : List Processor} {f g : Filter}
    {args : SubscriptionArguments} {who : ActorIdentifier} {exclude include_ : String}
    (hg : received order f = some g) :
    handleLocalSubscriptionAdded order ps (Router.publishSubscriptionAdded f args who exclude
      include_) =
      Processor.handleLocalSubscriptionAdded ps g (SubscriptionArguments.fromMap args.toMap) := by
  unfold handleLocalSubscriptionAdded
  rw [readUpdate_added, hg, readSubscriber_added]
  rfl

theorem handle_removed {order : MapOrder} {board : Board} {ps : List Processor} {F : InternalFilter}
    {g : Filter} {args : SubscriptionArguments} {exclude include_ : String}
    (hg : received order F.toFilter = some g) :
    handleLocalSubscriptionRemoved order ps (Router.publishSubscriptionRemoved board F args exclude
      include_) =
      Processor.handleLocalSubscriptionRemoved ps g (SubscriptionArguments.fromMap args.toMap) := by
  unfold handleLocalSubscriptionRemoved
  rw [readUpdate_removed, hg]
  rfl

section

variable {order : MapOrder} {board : Board} {X : String} {ps : List Processor} {f g : Filter}
  {F : InternalFilter} {args : SubscriptionArguments} {who : ActorIdentifier}
  {exclude include_ : String}

theorem not_removed_added : (updateFilter board.NODE_ID X "local_subscription_removed").matches
    (Router.publishSubscriptionAdded f args who exclude include_) = false := by
  rw [Bool.eq_false_iff, ne_eq, matches_added]
  simp

theorem not_added_removed : (updateFilter board.NODE_ID X "local_subscription_added").matches
    (Router.publishSubscriptionRemoved board F args exclude include_) = false := by
  rw [Bool.eq_false_iff, ne_eq, matches_removed]
  simp

theorem update_added (hg : received order f = some g) (hwho : who.node_id = board.NODE_ID)
    (h : Router.reaches X exclude include_) :
    update order board.NODE_ID X ps (Router.publishSubscriptionAdded f args who exclude include_) =
      Processor.handleLocalSubscriptionAdded ps g (SubscriptionArguments.fromMap args.toMap) := by
  unfold update
  rw [if_pos ((matches_added ..).mpr ⟨rfl, hwho, h⟩), handle_added hg]

theorem update_added_passed (h : ¬ (who.node_id = board.NODE_ID ∧
    Router.reaches X exclude include_)) :
    update order board.NODE_ID X ps (Router.publishSubscriptionAdded f args who exclude include_) =
      some (ps, none) := by
  unfold update
  rw [not_removed_added, if_neg, if_neg (by simp)]
  rw [matches_added]
  exact fun hsel => h hsel.2

theorem update_removed (hg : received order F.toFilter = some g)
    (h : Router.reaches X exclude include_) :
    update order board.NODE_ID X ps (Router.publishSubscriptionRemoved board F args exclude
      include_) =
      Processor.handleLocalSubscriptionRemoved ps g (SubscriptionArguments.fromMap args.toMap) := by
  unfold update
  rw [not_added_removed, if_neg (by simp), if_pos ((matches_removed ..).mpr ⟨rfl, h⟩),
    handle_removed hg]

theorem update_removed_passed (h : ¬ Router.reaches X exclude include_) :
    update order board.NODE_ID X ps (Router.publishSubscriptionRemoved board F args exclude
      include_) =
      some (ps, none) := by
  unfold update
  rw [not_added_removed, if_neg (by simp), if_neg]
  rw [matches_removed]
  exact fun hsel => h hsel.2

end

end RemoteConnection

end UActor
