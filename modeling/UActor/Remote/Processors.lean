import UActor.PubSub.Subscription

/-!
# Subscription processors

`remote/subscription_processors` and the egress part of `remote_connection.cpp`. A processor may
change the filter it is given, and says whether to drop it. `std::get` throws on an operand that is
no string, and so does the constructor of a constraint without an attribute: then there is no
result.
-/

namespace UActor

/-! ## Looking for constraints -/

/-- `std::get<std::string_view>(constraint.operand())`. -/
def Constraint.getStr : Constraint → Option String
  | .str _ x _ _ => some x
  | _ => none

/-- The loop of the aggregators over the required constraints: one on `key` with `EQ` and an
operand that passes the test. -/
def hasEqualityConstraint (key : String) (test : String → Bool) : List Constraint → Option Bool
  | [] => some false
  | c :: cs =>
    if c.attr = key then
      c.getStr.bind fun x =>
        if test x ∧ c.predicate = .EQ then some true else hasEqualityConstraint key test cs
    else hasEqualityConstraint key test cs

/-- `ClusterBarrier::has_equality_constraint`. -/
def hasEqualityOn (key : String) (cs : List Constraint) : Bool :=
  cs.any fun c => c.attr == key && c.predicate == .EQ

/-! ## Cluster labels -/

structure ClusterLabelValuePair where
  local_label : String
  remote_label : String
deriving DecidableEq, Repr

/-- A `std::map`: sorted by the keys, each of which occurs once. -/
abbrev ClusterLabels := List (String × ClusterLabelValuePair)

namespace ClusterLabels

def emplace (key : String) (v : ClusterLabelValuePair) : ClusterLabels → ClusterLabels
  | [] => [(key, v)]
  | e :: m =>
    if key < e.1 then (key, v) :: e :: m
    else if key = e.1 then e :: m
    else e :: emplace key v m

def sameCluster (labels : ClusterLabels) : Bool :=
  labels.all fun e => e.2.local_label == e.2.remote_label

/-- The loop of `ClusterAggregator`: every label is asked for. -/
def allRequired (cs : List Constraint) : ClusterLabels → Option Bool
  | [] => some true
  | e :: labels =>
    (hasEqualityConstraint e.1 (· == e.2.local_label) cs).bind fun found =>
      if found then allRequired cs labels else some false

/-- The filter that stands for a cluster. -/
def aggregate (labels : ClusterLabels) : Option Filter :=
  (labels.mapM fun e => Constraint.ofStr e.1 e.2.local_label .EQ false).map Filter.ofConstraints

end ClusterLabels

/-! ## Processors -/

inductive Processor where
  | nodeLocalFilterDrop (local_node_id : String)
  | nodeIdAggregator (local_node_id : String) (node_id_count : UInt32)
  | clusterAggregator (cluster_labels : ClusterLabels) (published_count : UInt32)
  | clusterBarrier (cluster_labels : ClusterLabels) (drop_keys : List String)
  | scopeLocal
  | scopeCluster (other_cluster : Bool)
  | optionalConstraintDrop (constraints_to_drop : List Constraint)
  | leafNodeIdGateway (local_node_id : String) (remote_node_id_count : UInt32)
deriving DecidableEq, Repr

namespace Processor

def nodeLocal (local_node_id : String) (f : Filter) : Bool :=
  f.required.any fun c =>
    c.attr == "publisher_node_id" && (c.getStr == some local_node_id && c.predicate == .EQ)

/-- `Filter{Constraint{"node_id", local_node_id}}`. -/
def nodeIdFilter (local_node_id : String) : Filter := ⟨[.str "node_id" local_node_id .EQ false], []⟩

/-- `Filter{Constraint{"node_id", local_node_id, NE, false}}`. -/
def foreignFilter (local_node_id : String) : Filter :=
  ⟨[.str "node_id" local_node_id .NE false], []⟩

def crossesBarrier (labels : ClusterLabels) (drop_keys : List String) (f : Filter) : Bool :=
  !labels.sameCluster && drop_keys.any fun key => hasEqualityOn key f.required

/-- `constraints_to_drop.find(item)`. The constraints to drop have string operands, and such a
constraint is equivalent to another one only if it is the same. -/
def withoutOptional (constraints_to_drop : List Constraint) (f : Filter) : Filter :=
  { f with optional := f.optional.filter fun c => c ∉ constraints_to_drop }

/-- `count++ == 0`. -/
def countUp (count : UInt32) : UInt32 × Bool := (count + 1, count = 0)

/-- `--count == 0`. -/
def countDown (count : UInt32) : UInt32 × Bool := (count - 1, count - 1 = 0)

/-- What both directions of a processor have in common. They differ in how they count. -/
def process (counter : UInt32 → UInt32 × Bool) (p : Processor) (f : Filter)
    (arguments : SubscriptionArguments) :
    Option (Processor × Filter × Bool) :=
  match p with
  | nodeLocalFilterDrop local_node_id => some (p, f, nodeLocal local_node_id f)
  | nodeIdAggregator local_node_id n =>
    (hasEqualityConstraint "node_id" (· == local_node_id) f.required).map fun found =>
      if found then
        if (counter n).2 then
          (nodeIdAggregator local_node_id (counter n).1, nodeIdFilter local_node_id, false)
        else (nodeIdAggregator local_node_id (counter n).1, f, true)
      else (p, f, false)
  | clusterAggregator labels n =>
    if labels.sameCluster then some (p, f, false)
    else
      (labels.allRequired f.required).bind fun found =>
        if found then
          if (counter n).2 then
            labels.aggregate.map fun r => (clusterAggregator labels (counter n).1, r, false)
          else some (clusterAggregator labels (counter n).1, f, true)
        else some (p, f, false)
  | clusterBarrier labels drop_keys => some (p, f, crossesBarrier labels drop_keys f)
  | scopeLocal => some (p, f, arguments.scope = .LOCAL)
  | scopeCluster other_cluster => some (p, f, decide (arguments.scope = .CLUSTER) && other_cluster)
  | optionalConstraintDrop constraints_to_drop =>
      some (p, withoutOptional constraints_to_drop f, false)
  | leafNodeIdGateway local_node_id n =>
    (hasEqualityConstraint "node_id" (· != local_node_id) f.required).map fun found =>
      if found then
        if (counter n).2 then
          (leafNodeIdGateway local_node_id (counter n).1, foreignFilter local_node_id, false)
        else (leafNodeIdGateway local_node_id (counter n).1, f, true)
      else (p, f, false)

def processAdded : Processor → Filter → SubscriptionArguments →
    Option (Processor × Filter × Bool) := process countUp

def processRemoved : Processor → Filter → SubscriptionArguments →
    Option (Processor × Filter × Bool) :=
  process countDown

/-- The loops over `egress_subscription_processors`: they end with the first processor that
drops. -/
def through (processor : Processor → Filter → SubscriptionArguments →
    Option (Processor × Filter × Bool)) :
    List Processor → Filter → SubscriptionArguments → Option (List Processor × Option Filter)
  | [], f, _ => some ([], some f)
  | p :: ps, f, arguments =>
    (processor p f arguments).bind fun r =>
      if r.2.2 then some (r.1 :: ps, none)
      else (through processor ps r.2.1 arguments).map fun rest => (r.1 :: rest.1, rest.2)

end Processor

/-! ## The egress chain -/

/-- What `handle_remote_hello` builds the egress chain from. -/
structure Hello where
  NODE_ID : String
  clusters : List (List String)
  local_location_labels : List (String × String)
  partner_location_labels : List (String × String)
  cluster : String
  peer_cluster : String

namespace Hello

def clusterLabels (h : Hello) (keys : List String) : ClusterLabels :=
  keys.foldl (fun cl key => cl.emplace key
    ⟨(Assoc.find key h.local_location_labels).getD "",
      (Assoc.find key h.partner_location_labels).getD ""⟩) []

def clusterProcessors (h : Hello) (keys : List String) : List Processor :=
  [.clusterAggregator (h.clusterLabels keys) 0, .clusterBarrier (h.clusterLabels keys) ["node_id"]]

def egressProcessors (h : Hello) : List Processor :=
  [.nodeLocalFilterDrop h.NODE_ID, .nodeIdAggregator h.NODE_ID 0] ++
  h.clusters.flatMap h.clusterProcessors ++
  [.scopeLocal, .scopeCluster (h.cluster != h.peer_cluster),
    .optionalConstraintDrop [.str "node_id" h.NODE_ID .EQ true]]

end Hello

namespace Processor

/-- `handle_local_subscription_added`, for a message that can be read: the `subscriptions_added`
message that it sends. -/
def handleLocalSubscriptionAdded (ps : List Processor) (f : Filter)
    (arguments : SubscriptionArguments) :
    Option (List Processor × Option (Filter × SubscriptionArguments)) :=
  (through processAdded ps f arguments).map fun r => (r.1, r.2.map fun g => (g, arguments))

/-- `handle_local_subscription_removed`, for a message that can be read: the `subscriptions_removed`
message that it sends. -/
def handleLocalSubscriptionRemoved (ps : List Processor) (f : Filter)
    (arguments : SubscriptionArguments) :
    Option (List Processor × Option (Filter × SubscriptionArguments)) :=
  (through processRemoved ps f arguments).map fun r => (r.1, r.2.map fun g => (g, arguments))

end Processor

end UActor
