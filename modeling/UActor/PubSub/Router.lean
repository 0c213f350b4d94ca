import UActor.PubSub.Subscription
import UActor.PubSub.ConstraintIndex

/-!
# The router

`router.hpp` and `router.cpp`. A call of `add_subscription` or `remove_subscription` returns, next
to its result, the publications that it passes to `publish_internal`. The source counts ids in
`uint32_t`, and here they are natural numbers: below `2^32 - 11` calls and snapshots, where no
counter wraps, they are the same (`Router.ids_fit`).
-/

namespace UActor

/-- `BoardFunctions`. -/
structure Board where
  NODE_ID : String
  epoch : Int32
deriving DecidableEq, Repr

structure Router where
  next_sub_id : Nat
  subscriptions : List Subscription
  constraints : List (String × ConstraintIndex)
  no_requirements : List Nat
  peer_node_ids : List (String × Nat)
  next_node_id : Nat
deriving DecidableEq, Repr

namespace Router

def init (board : Board) : Router := ⟨11, [], [], [], [(board.NODE_ID, 1)], 2⟩

def findSub (rt : Router) (id : Nat) : Option Subscription :=
  rt.subscriptions.find? fun s => s.subscription_id = id

def setSub (rt : Router) (sub : Subscription) : Router :=
  { rt with subscriptions := rt.subscriptions.map fun s =>
      if s.subscription_id = sub.subscription_id then sub else s }

/-- `peer_node_ids.try_emplace(node, false, next_node_id++)`. The counter moves in any case. -/
def internNode (rt : Router) (node : String) : Router × Nat :=
  match Assoc.find node rt.peer_node_ids with
  | some n => ({ rt with next_node_id := rt.next_node_id + 1 }, n)
  | none =>
    ({ rt with peer_node_ids := Assoc.put node rt.next_node_id rt.peer_node_ids,
               next_node_id := rt.next_node_id + 1 }, rt.next_node_id)

/-- The name of an internal node id. Every node of a subscription has one. -/
def nodeName (rt : Router) (n : Nat) : String :=
  ((rt.peer_node_ids.find? fun e => e.2 = n).map Prod.fst).getD ""

/-! ## Routing -/

/-- The stamp at the start of `publish_internal`. -/
def stamp (board : Board) (seq : UInt32) (p : Publication) : Publication × UInt32 :=
  if p.getStrAttr "publisher_node_id" = some board.NODE_ID ∧
      p.hasAttr "_internal_sequence_number" = false then
    ((p.setAttr "_internal_sequence_number" (.int seq.toInt32)).setAttr "_internal_epoch"
      (.int board.epoch), seq + 1)
  else (p, seq)

/-- One round of the loop over the attributes. -/
def countAttribute (rt : Router) (c : Counter) (e : String × Variant) : Counter :=
  match Assoc.find e.1 rt.constraints with
  | some ix => ix.check e.2 c
  | none => c

def count (rt : Router) (p : Publication) : Counter := p.attributes.foldl rt.countAttribute []

/-- The maps and sets with pointers as keys are visited in the order of the addresses. -/
structure VisitOrder where
  counter : Counter → Counter
  no_requirements : List Nat → List Nat
  receivers : List (Nat × List Nat) → List (Nat × List Nat)
  counter_perm : ∀ c, (counter c).Perm c
  no_requirements_perm : ∀ l, (no_requirements l).Perm l
  receivers_perm : ∀ l, (receivers l).Perm l

/-- The order in which this model lists the entries. -/
def VisitOrder.plain : VisitOrder :=
  ⟨id, id, id, fun _ => List.Perm.refl _, fun _ => List.Perm.refl _, fun _ => List.Perm.refl _⟩

structure Selection where
  current_priority : UInt8
  current_receivers : List (Nat × Nat)

/-- A higher priority discards the receivers so far, a lower one is skipped. -/
def Selection.offer (order : VisitOrder) (sel : Selection) (sub : Subscription) : Selection :=
  let receivers := (order.receivers sub.receivers).map fun e => (e.1, sub.subscription_id)
  if sel.current_priority.toUInt32 < sub.arguments.priority then
    ⟨sub.arguments.priority.toUInt8, receivers⟩
  else if sub.arguments.priority < sel.current_priority.toUInt32 then sel
  else { sel with current_receivers := sel.current_receivers ++ receivers }

/-- The body of the loop over the counted subscriptions. A dangling pointer is `none`. -/
def selectCounted (rt : Router) (order : VisitOrder) (p : Publication) (sel : Selection)
    (entry : Nat × SubscriptionCounter) : Option Selection :=
  match rt.findSub entry.1 with
  | none => none
  | some sub =>
    if entry.2.required = sub.countRequired ∧
        (entry.2.optional = sub.countOptional ∨ sub.filter.checkOptionals p = true) then
      some (sel.offer order sub)
    else some sel

/-- The body of the loop over the subscriptions without required constraints. -/
def selectUncounted (rt : Router) (order : VisitOrder) (p : Publication) (counter : Counter)
    (sel : Selection) (id : Nat) : Option Selection :=
  if (Assoc.find id counter).isSome then some sel
  else
    match rt.findSub id with
    | none => none
    | some sub => if sub.filter.checkOptionals p then some (sel.offer order sub) else some sel

structure Delivery where
  receiver : Nat
  subscription_id : Nat
  publication : Publication

/-- All receivers but the last get a copy. -/
def fanOut (p : Publication) : List (Nat × Nat) → List Delivery
  | [] => []
  | [(r, s)] => [⟨r, s, p⟩]
  | (r, s) :: rest => ⟨r, s, p.copy⟩ :: fanOut p rest

/-- The receivers that `publish_internal` selects for a stamped publication. -/
def select (rt : Router) (order : VisitOrder) (p : Publication) : Option Selection :=
  let counter := rt.count p
  ((order.counter counter).foldlM (rt.selectCounted order p) ⟨0, []⟩).bind fun sel =>
    (order.no_requirements rt.no_requirements).foldlM (rt.selectUncounted order p counter) sel

/-- `Router::publish_internal`: the calls of `Receiver::publish` and the next sequence number. -/
def publishInternal (board : Board) (rt : Router) (order : VisitOrder) (seq : UInt32)
    (p : Publication) :
    Option (List Delivery) × UInt32 :=
  let stamped := stamp board seq p
  ((rt.select order stamped.1).map fun sel => fanOut stamped.1 sel.current_receivers, stamped.2)

/-! ## Announcements -/

/-- The end of both announcements: an empty node id stays out of the publication. -/
def address (update : Publication) (exclude include_ : String) : Publication :=
  let update := if exclude = "" then update else update.setAttr "exclude_node_id" (.str exclude)
  if include_ = "" then update else update.setAttr "include_node_id" (.str include_)

def publishSubscriptionAdded (f : Filter) (args : SubscriptionArguments) (actor : ActorIdentifier)
    (exclude include_ : String) : Publication :=
  address
    (((((Publication.ofPublisher actor.node_id actor.actor_type actor.instance_id).setAttr
      "type" (.str "local_subscription_added")).setAttr
      "subscriber" (.map actor.toPublicationMap)).setAttr
      "subscription_arguments" (.map args.toMap)).setAttr
      "subscription" (.map f.toPublicationMap)) exclude include_

def publishSubscriptionRemoved (board : Board) (f : InternalFilter) (args : SubscriptionArguments)
    (exclude include_ : String) : Publication :=
  address
    ((((Publication.ofPublisher board.NODE_ID "router" "1").setAttr
      "type" (.str "local_subscription_removed")).setAttr
      "subscription" (.map f.toFilter.toPublicationMap)).setAttr
      "subscription_arguments" (.map args.toMap)) exclude include_

/-! ## Meta subscriptions -/

def isFetchMetaSubscription (f : Filter) (args : SubscriptionArguments) : Bool :=
  (args.fetch_policy == .FETCH || args.fetch_policy == .FETCH_FUTURE) &&
    f.required.any fun c => c.attr == "type" && c.stringEqual? == some "local_subscription_added"

def findSubscriptionsForMetaFilter (rt : Router) (filter : Filter) : List Subscription :=
  match filter.required.find? fun c => c.attr == "subscription" with
  | none => []
  | some c => rt.subscriptions.filter fun s => c.acceptsMap s.filter.toFilter.toPublicationMap

/-- `Router::handle_meta_subscription`. -/
def handleMetaSubscription (board : Board) (rt : Router) (f : Filter)
    (subscriber : ActorIdentifier) :
    List Publication :=
  (rt.findSubscriptionsForMetaFilter f).map fun s =>
    (((((Publication.ofPublisher board.NODE_ID "router" "1").setAttr "node_id"
      (.str subscriber.node_id)).setAttr "actor_type" (.str subscriber.actor_type)).setAttr
      "instance_id" (.str subscriber.instance_id)).setAttr
      "type" (.str "__unicast_wrapper")).setAttr
      "__wrapped" (.map [("type", .str "local_subscription_added"),
        ("subscription", .map s.filter.toFilter.toPublicationMap),
        ("subscription_arguments", .map s.arguments.toMap)])

/-! ## Adding -/

/-- The index maintenance for one of the two lists of a filter, with the stored constraints. -/
def fileConstraints (sub : Nat) (opt : Bool) : List Constraint → List (String × ConstraintIndex) →
    List (String × ConstraintIndex) × List Constraint
  | [], m => (m, [])
  | c :: cs, m =>
    let ix := (Assoc.find c.attr m).getD ConstraintIndex.empty
    let r := ix.insert c sub opt
    let rest := fileConstraints sub opt cs (Assoc.put c.attr r.1 m)
    (rest.1, r.2 :: rest.2)

/-- The branch for a new subscription. -/
def createSubscription (rt : Router) (f : Filter) (r node : Nat) (args : SubscriptionArguments) :
    Router :=
  let id := rt.next_sub_id
  let req := fileConstraints id false f.required rt.constraints
  let opt := fileConstraints id true f.optional req.1
  { rt with
    next_sub_id := id + 1
    subscriptions := rt.subscriptions ++ [⟨id, ⟨req.2, opt.2⟩, args, [(r, [node])]⟩]
    constraints := opt.1
    no_requirements := if req.2.length = 0 then rt.no_requirements ++ [id] else rt.no_requirements }

/-- The subscription that a new subscriber joins. -/
def findEqual (rt : Router) (f : Filter) (args : SubscriptionArguments) : Option Subscription :=
  rt.subscriptions.find? fun s => s.filter.eqFilter f && s.arguments == args

/-- `Router::find_sub_id`. -/
def findSubId (rt : Router) (f : Filter) (args : SubscriptionArguments) : Nat :=
  ((rt.findEqual f args).map (·.subscription_id)).getD 0

/-- An announcement does not go back to the peer that it came from. -/
def excludeFor (board : Board) (source_peer : String) : String :=
  if source_peer = board.NODE_ID then "" else source_peer

/-- The announcement after a node was added to the subscription `sub`. -/
def announceJoin (board : Board) (rt : Router) (sub : Subscription) (f : Filter)
    (args : SubscriptionArguments) (subscriber : ActorIdentifier) (source_peer : String)
    (node : Nat) : List Publication :=
  if sub.nodes.length = 2 then
    let other_sub := (sub.nodes.find? (· ≠ node)).getD 0
    [publishSubscriptionAdded f args subscriber "" (rt.nodeName other_sub)]
  else if args.fetch_policy = .FETCH_FUTURE then
    [publishSubscriptionAdded f args subscriber (excludeFor board source_peer) ""]
  else if source_peer = board.NODE_ID then
    [publishSubscriptionAdded f args subscriber "" board.NODE_ID]
  else []

/-- `Router::add_subscription`. -/
def addSubscription (board : Board) (rt : Router) (f : Filter) (r : Nat)
    (subscriber : ActorIdentifier) (source_peer : String) (args : SubscriptionArguments) :
    Router × Nat × List Publication :=
  let fetched :=
    if isFetchMetaSubscription f args then handleMetaSubscription board rt f subscriber else []
  let added := publishSubscriptionAdded f args subscriber (excludeFor board source_peer) ""
  if args.fetch_policy = .FETCH then
    (rt, 1, fetched ++ [added])
  else
    let interned := rt.internNode source_peer
    let rt := interned.1
    let node := interned.2
    match rt.findEqual f args with
    | some sub =>
      let joined := sub.addReceiver r node
      let rt := rt.setSub joined.1
      let updates :=
        if joined.2 then announceJoin board rt joined.1 f args subscriber source_peer node else []
      (rt, sub.subscription_id, fetched ++ updates)
    | none => (rt.createSubscription f r node args, rt.next_sub_id, fetched ++ [added])

/-! ## Removing -/

/-- The index maintenance for one of the two lists of a filter. -/
def dropConstraints (sub : Nat) : List Constraint → List (String × ConstraintIndex) →
    List (String × ConstraintIndex)
  | [], m => m
  | c :: cs, m =>
    match Assoc.find c.attr m with
    | none => dropConstraints sub cs m
    | some ix =>
      let r := ix.remove c sub
      dropConstraints sub cs (if r.2 then Assoc.erase c.attr m else Assoc.put c.attr r.1 m)

/-- The branch for a subscription without receivers. -/
def eraseSubscription (rt : Router) (sub : Subscription) : Router :=
  { rt with
    no_requirements :=
      if sub.countRequired = 0 then rt.no_requirements.filter (· ≠ sub.subscription_id)
      else rt.no_requirements
    constraints := dropConstraints sub.subscription_id sub.filter.optional
      (dropConstraints sub.subscription_id sub.filter.required rt.constraints)
    subscriptions := rt.subscriptions.filter fun s => s.subscription_id ≠ sub.subscription_id }

/-- The announcement after a node was removed from the subscription `sub`, which has others left. -/
def announceLeave (board : Board) (rt : Router) (sub : Subscription) : List Publication :=
  match sub.nodes with
  | [n] =>
    if n ≠ 1 then [publishSubscriptionRemoved board sub.filter sub.arguments "" (rt.nodeName n)]
    else []
  | _ => []

/-- `Router::remove_subscription`. -/
def removeSubscription (board : Board) (rt : Router) (sub_id r : Nat) (node_id : String) :
    Router × Nat × List Publication :=
  let node := (Assoc.find node_id rt.peer_node_ids).getD 0
  match rt.findSub sub_id with
  | none => (rt, 0, [])
  | some sub =>
    let removed := sub.removeReceiver r node
    if removed.2.1 then
      (rt.eraseSubscription removed.1, removed.2.2,
        [publishSubscriptionRemoved board sub.filter sub.arguments "" ""])
    else
      (rt.setSub removed.1, removed.2.2, announceLeave board rt removed.1)

/-! ## Snapshots -/

/-- The loop of `subscription_lists_for`. The chain is stateful, may change the filter, and says
whether to drop it. -/
def listSubscriptions {σ : Type} (board : Board)
    (chain : σ → Filter → SubscriptionArguments → σ × Filter × Bool) (num_subs node : Nat) :
    List Subscription → σ → List Map → Map → σ × List Map
  | [], st, full, back => (st, full ++ [back])
  | sub :: subs, st, full, back =>
    if 2 ≤ sub.nodes.length ∨ node ∉ sub.nodes then
      let processed := chain st sub.filter.toFilter sub.arguments
      if processed.2.2 then listSubscriptions board chain num_subs node subs processed.1 full back
      else
        let current_sub : Map := [("subscription", .map processed.2.1.toPublicationMap),
          ("subscription_arguments", .map sub.arguments.toMap),
          ("subscriber", .map (ActorIdentifier.toPublicationMap ⟨board.NODE_ID, "replay", "1"⟩))]
        if 0 < num_subs ∧ num_subs ≤ back.length then
          listSubscriptions board chain num_subs node subs processed.1 (full ++ [back])
            (Map.setAttr [] (toString 0) (.map current_sub))
        else
          listSubscriptions board chain num_subs node subs processed.1 full
            (back.setAttr (toString back.length) (.map current_sub))
    else listSubscriptions board chain num_subs node subs st full back

/-- `Router::subscription_lists_for`. -/
def subscriptionListsFor {σ : Type} (board : Board) (rt : Router) (node_id : String)
    (chain : σ → Filter → SubscriptionArguments → σ × Filter × Bool) (st : σ) (num_subs : Nat) :
    Router × σ × List Map :=
  let interned := rt.internNode node_id
  (interned.1, listSubscriptions board chain num_subs interned.2 rt.subscriptions st [] [])

/-! ## Runs -/

/-- A call of the two functions that change the subscriptions. -/
inductive Op where
  | add (f : Filter) (r : Nat) (subscriber : ActorIdentifier) (source_peer : String)
      (args : SubscriptionArguments)
  | remove (sub_id r : Nat) (node_id : String)

def step (board : Board) (rt : Router) : Op → Router × Nat × List Publication
  | .add f r subscriber source_peer args => rt.addSubscription board f r subscriber source_peer args
  | .remove sub_id r node_id => rt.removeSubscription board sub_id r node_id

/-- The router after a sequence of calls. -/
def run (board : Board) (ops : List Op) : Router :=
  ops.foldl (fun rt op => (rt.step board op).1) (init board)

theorem run_snoc (board : Board) (ops : List Op) (op : Op) :
    run board (ops ++ [op]) = ((run board ops).step board op).1 := by
  simp [run]

end Router

end UActor
