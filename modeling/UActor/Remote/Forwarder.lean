import UActor.Lib.Multimap
import UActor.PubSub.Receivers
import UActor.Remote.Session

/-!
# The forwarder

`tcp_forwarder.cpp` and `remote_connection.cpp`, as far as they decide who subscribes to what. All
connections share one receiver of the router: the forwarder keeps the connections behind each of its
subscriptions.
-/

namespace UActor

/-- `RemoteConnection`, without what it sends. -/
structure RemoteConnection where
  local_id : UInt32
  subscription_ids : List Nat
  update_sub_id : Nat
  local_sub_added_id : Nat
  local_sub_removed_id : Nat
  remote_subs_added_id : Nat
  remote_subs_removed_id : Nat
  partner_node_id : String
  ingress_subscription_processors : List Processor

/-- The names of the node, and the options of the build. -/
structure ForwarderSettings where
  board : Board
  order : MapOrder
  /-- `CONFIG_UACTOR_IS_LEAF`. -/
  is_leaf : Bool

/-- `handle` is the receiver of the forwarder in the hub, which other receivers use too. -/
structure Forwarder where
  hub : Hub
  handle : Nat
  forwarder_subscription_id : Nat
  peer_announcement_subscription_id : Nat
  next_local_id : UInt32
  remotes : List (UInt32 × RemoteConnection)
  subscription_mapping : List (Nat × List UInt32)

namespace RemoteConnection

open Processor

/-- One entry of a list of subscriptions to remove, if it can be read. -/
def readRemovedEntry (order : MapOrder) (current_subscription_map : Map) :
    Option (Filter × SubscriptionArguments) :=
  match current_subscription_map.getNestedComponent "subscription",
    current_subscription_map.getNestedComponent "subscription_arguments" with
  | some filter_raw, some arguments_raw =>
    (Filter.fromPublicationMap order filter_raw).map fun f =>
      (f, SubscriptionArguments.fromMap arguments_raw)
  | _, _ => none

/-- The loop over `ingress_subscription_processors` for a removal. -/
def processIngressRemoved : List Processor → Filter → SubscriptionArguments →
    Option (List Processor × Filter × Bool)
  | [], f, _ => some ([], f, false)
  | p :: ps, f, arguments =>
    (processRemoved p f arguments).bind fun r =>
      (processIngressRemoved ps r.2.1 arguments).map fun rest =>
        (r.1 :: rest.1, rest.2.1, r.2.2 || rest.2.2)

/-- The subscriptions of a message that are to be removed. -/
def removedSubscriptions (order : MapOrder) (ingress : List Processor) (p : Publication) :
    Option (List Processor × List (Filter × SubscriptionArguments)) :=
  match p.attributes.getNestedComponent "subscriptions" with
  | none => some (ingress, [])
  | some subscription_list_map =>
    ((List.range subscription_list_map.length).filterMap fun i =>
      (subscription_list_map.getNestedComponent (toString i)).bind (readRemovedEntry order)).foldlM
        (fun st e =>
        (processIngressRemoved st.1 e.1 e.2).map fun r =>
          (r.1, if r.2.2 then st.2 else st.2 ++ [(r.2.1, e.2)]))
      (ingress, [])

/-- The filter behind `update_sub_id`. -/
def updateReceiverFilter (NODE_ID : String) (local_id : UInt32) : Filter :=
  .ofConstraints [.str "type" "subscription_update" .EQ false, .str "update_receiver_id"
    (toString local_id) .EQ false, .str "publisher_node_id" NODE_ID .EQ false]

/-- The ids of what `handle_remote_hello` subscribes to, 0 before. -/
def helloIds (c : RemoteConnection) : List Nat :=
  [c.remote_subs_added_id, c.remote_subs_removed_id, c.local_sub_added_id, c.local_sub_removed_id]

/-- The ids of the subscriptions that the connection has made for itself. -/
def controlIds (c : RemoteConnection) : List Nat :=
  c.update_sub_id :: c.helloIds.filter fun sub_id => sub_id ≠ 0

/-- The ids that the destructor gives up, in this order. -/
def recorded (c : RemoteConnection) : List Nat := c.controlIds ++ c.subscription_ids

end RemoteConnection

namespace Forwarder

open RemoteConnection

section

variable (cfg : ForwarderSettings)

/-! ## The mapping -/

def addRemoteSubscription (fwd : Forwarder) (local_id : UInt32) (f : Filter) (node_id : String)
    (subscriber : ActorIdentifier) (arguments : SubscriptionArguments) : Forwarder × Nat :=
  let subscribed := fwd.hub.subscribe cfg.board fwd.handle f subscriber node_id arguments
  ({ fwd with
    hub := subscribed.1
    subscription_mapping := Multimap.insert subscribed.2 local_id fwd.subscription_mapping },
      subscribed.2)

def addLocalSubscription (fwd : Forwarder) (local_id : UInt32) (f : Filter) : Forwarder × Nat :=
  fwd.addRemoteSubscription cfg local_id f cfg.board.NODE_ID ⟨cfg.board.NODE_ID, "tcp_forwarder",
    "1"⟩ .default

/-- `remove_remote_subscription`, which drops its node id, and `remove_local_subscription`. -/
def removeSubscription (fwd : Forwarder) (local_id : UInt32) (sub_id : Nat) : Forwarder :=
  let removed := Multimap.remove sub_id local_id fwd.subscription_mapping
  { fwd with
    hub := if removed.2 then fwd.hub.unsubscribe cfg.board fwd.handle sub_id "" else fwd.hub
    subscription_mapping := removed.1 }

/-! ## Connections -/

/-- The constructor. -/
def construct (fwd : Forwarder) (local_id : UInt32) : Forwarder × RemoteConnection :=
  let update := fwd.addLocalSubscription cfg local_id
    (updateReceiverFilter cfg.board.NODE_ID local_id)
  (update.1, ⟨local_id, [], update.2, 0, 0, 0, 0, "", []⟩)

/-- `handle_remote_hello`. Only the first one counts, unless the name of the peer is empty. -/
def handleRemoteHello (fwd : Forwarder) (c : RemoteConnection) (new_partner_id : String) :
    Forwarder × RemoteConnection :=
  if c.partner_node_id ≠ "" then (fwd, c)
  else
    let NODE_ID := cfg.board.NODE_ID
    let added := fwd.addLocalSubscription cfg c.local_id
      (updateFilter NODE_ID new_partner_id "local_subscription_added")
    let removed := added.1.addLocalSubscription cfg c.local_id
      (updateFilter NODE_ID new_partner_id "local_subscription_removed")
    let subs_added := removed.1.addRemoteSubscription cfg c.local_id
      (subscriptionsFilter NODE_ID "subscriptions_added" c.local_id.toInt32) NODE_ID
      ⟨NODE_ID, "remote_connection", "1"⟩ .default
    let subs_removed := subs_added.1.addRemoteSubscription cfg c.local_id
      (subscriptionsFilter NODE_ID "subscriptions_removed" c.local_id.toInt32) NODE_ID
      ⟨NODE_ID, "remote_connection", "1"⟩ .default
    -- the snapshot gives the peer a number
    ({ subs_removed.1 with
      hub := { subs_removed.1.hub with router :=
        (subs_removed.1.hub.router.internNode new_partner_id).1 } },
      { c with
        partner_node_id := new_partner_id
        local_sub_added_id := added.2
        local_sub_removed_id := removed.2
        remote_subs_added_id := subs_added.2
        remote_subs_removed_id := subs_removed.2
        ingress_subscription_processors := c.ingress_subscription_processors ++
          if cfg.is_leaf then [.leafNodeIdGateway NODE_ID 0] else [] })

/-- One subscription of a peer. -/
def addEntry (st : Forwarder × RemoteConnection)
    (e : Filter × ActorIdentifier × SubscriptionArguments) :
    Forwarder × RemoteConnection :=
  let added := st.1.addRemoteSubscription cfg st.2.local_id e.1 st.2.partner_node_id e.2.1 e.2.2
  (added.1, { st.2 with subscription_ids := Multimap.insertInto added.2 st.2.subscription_ids })

def handleRemoteSubscriptionsAdded (fwd : Forwarder) (c : RemoteConnection) (p : Publication) :
    Option (Forwarder × RemoteConnection) :=
  (remoteSubscriptions cfg.order c.ingress_subscription_processors p).map fun out =>
    out.2.foldl (addEntry cfg) (fwd, { c with ingress_subscription_processors := out.1 })

/-- A peer takes one subscription back. Its id is looked for. -/
def removeEntry (st : Forwarder × RemoteConnection) (e : Filter × SubscriptionArguments) :
    Forwarder × RemoteConnection :=
  let sub_id := st.1.hub.router.findSubId e.1 e.2
  (st.1.removeSubscription cfg st.2.local_id sub_id,
    { st.2 with subscription_ids := st.2.subscription_ids.filter fun id => id ≠ sub_id })

def handleRemoteSubscriptionsRemoved (fwd : Forwarder) (c : RemoteConnection) (p : Publication) :
    Option (Forwarder × RemoteConnection) :=
  (removedSubscriptions cfg.order c.ingress_subscription_processors p).map fun out =>
    out.2.foldl (removeEntry cfg) (fwd, { c with ingress_subscription_processors := out.1 })

def removeEach (fwd : Forwarder) (local_id : UInt32) (ids : List Nat) : Forwarder :=
  ids.foldl (fun fwd sub_id => fwd.removeSubscription cfg local_id sub_id) fwd

/-- The destructor. -/
def destruct (fwd : Forwarder) (c : RemoteConnection) : Forwarder :=
  fwd.removeEach cfg c.local_id c.recorded

/-! ## Runs -/

/-- What happens to the forwarder. Other receivers use the router at any time. -/
inductive Event where
  | accept
  | hello (local_id : UInt32) (p : Publication)
  | added (local_id : UInt32) (p : Publication)
  | removed (local_id : UInt32) (p : Publication)
  | disconnect (local_id : UInt32)
  | others (ev : Hub.Event)

def setRemote (st : Forwarder × RemoteConnection) : Forwarder :=
  { st.1 with remotes := Assoc.put st.2.local_id st.2 st.1.remotes }

/-- `add_remote_connection`. -/
def addRemoteConnection (fwd : Forwarder) : Forwarder :=
  let remote_id := fwd.next_local_id
  let fwd := { fwd with next_local_id := fwd.next_local_id + 1 }
  if (Assoc.find remote_id fwd.remotes).isSome then fwd else setRemote (fwd.construct cfg remote_id)

/-- A hello without the name of the peer, and a message at which a processor throws, have no
result. -/
def step (fwd : Forwarder) : Event → Option Forwarder
  | .accept => some (fwd.addRemoteConnection cfg)
  | .hello local_id p =>
    (Assoc.find local_id fwd.remotes).bind fun c =>
      (p.getStrAttr "subscription_node_id").map fun new_partner_id =>
        setRemote (fwd.handleRemoteHello cfg c new_partner_id)
  | .added local_id p =>
    (Assoc.find local_id fwd.remotes).bind fun c => (fwd.handleRemoteSubscriptionsAdded cfg c p).map
      setRemote
  | .removed local_id p =>
    (Assoc.find local_id fwd.remotes).bind fun c =>
      (fwd.handleRemoteSubscriptionsRemoved cfg c p).map setRemote
  | .disconnect local_id =>
    (Assoc.find local_id fwd.remotes).map fun c =>
      destruct cfg { fwd with remotes := Assoc.erase local_id fwd.remotes } c
  | .others ev =>
    if ev.receiver = fwd.handle then none
    else (fwd.hub.step cfg.board ev).map fun hub => { fwd with hub }

def primaryFilter (NODE_ID : String) : Filter :=
  .ofConstraints [.str "node_id" NODE_ID .EQ false, .str "actor_type" "forwarder" .EQ false,
    .str "instance_id" "1" .EQ false]

def connectionRequests (NODE_ID : String) : Filter :=
  .ofConstraints [.str "type" "tcp_client_connect" .EQ false, .str "node_id" NODE_ID .EQ false]

/-- The constructor of the forwarder. -/
def create (hub : Hub) (handle : Nat) : Option Forwarder :=
  (hub.step cfg.board (.create handle)).map fun hub =>
    let NODE_ID := cfg.board.NODE_ID
    let forwarder := hub.subscribe cfg.board handle (primaryFilter NODE_ID)
      ⟨NODE_ID, "tcp_forwarder", "1"⟩ NODE_ID .default
    let announcements := forwarder.1.subscribe cfg.board handle (connectionRequests NODE_ID)
      ⟨NODE_ID, "tcp_forwarder", "1"⟩ NODE_ID .default
    ⟨announcements.1, handle, forwarder.2, announcements.2, 0, [], []⟩

/-- A forwarder that starts with its receiver at `handle`. -/
def run (hub : Hub) (handle : Nat) (events : List Event) : Option Forwarder :=
  (create cfg hub handle).bind fun fwd => events.foldlM (step cfg) fwd

end

/-! ## Specifications -/

variable {cfg : ForwarderSettings} {fwd : Forwarder} {c : RemoteConnection}

/-- The connection is the only one behind a subscription. -/
def Only (fwd : Forwarder) (local_id : UInt32) (sub_id : Nat) : Prop :=
  local_id ∈ Multimap.members sub_id fwd.subscription_mapping ∧
    ∀ other ∈ Multimap.members sub_id fwd.subscription_mapping, other = local_id

instance (fwd : Forwarder) (l : UInt32) (s : Nat) : Decidable (fwd.Only l s) :=
  inferInstanceAs (Decidable (_ ∧ _))

/-- What a step can do. -/
inductive Step (cfg : ForwarderSettings) (fwd : Forwarder) : Event → Forwarder → Prop
  | taken (c : RemoteConnection) (hfind : Assoc.find fwd.next_local_id fwd.remotes = some c) :
      Step cfg fwd .accept { fwd with next_local_id := fwd.next_local_id + 1 }
  | accept (hnew : Assoc.find fwd.next_local_id fwd.remotes = none) :
      Step cfg fwd .accept (setRemote (construct cfg
        { fwd with next_local_id := fwd.next_local_id + 1 } fwd.next_local_id))
  | hello (l : UInt32) (p : Publication) (c : RemoteConnection) (x : String)
      (hfind : Assoc.find l fwd.remotes = some c)
      (hx : p.getStrAttr "subscription_node_id" = some x) :
      Step cfg fwd (.hello l p) (setRemote (fwd.handleRemoteHello cfg c x))
  | added (l : UInt32) (p : Publication) (c : RemoteConnection) (ps : List Processor)
      (es : List (Filter × ActorIdentifier × SubscriptionArguments))
      (hfind : Assoc.find l fwd.remotes = some c)
      (hread : remoteSubscriptions cfg.order c.ingress_subscription_processors p = some (ps, es)) :
      Step cfg fwd (.added l p) (setRemote
        (es.foldl (addEntry cfg) (fwd, { c with ingress_subscription_processors := ps })))
  | removed (l : UInt32) (p : Publication) (c : RemoteConnection) (ps : List Processor)
      (es : List (Filter × SubscriptionArguments)) (hfind : Assoc.find l fwd.remotes = some c)
      (hread : removedSubscriptions cfg.order c.ingress_subscription_processors p = some (ps, es)) :
      Step cfg fwd (.removed l p)
        (setRemote (es.foldl (removeEntry cfg)
          (fwd, { c with ingress_subscription_processors := ps })))
  | disconnect (l : UInt32) (c : RemoteConnection) (hfind : Assoc.find l fwd.remotes = some c) :
      Step cfg fwd (.disconnect l)
      (destruct cfg { fwd with remotes := Assoc.erase l fwd.remotes } c)
  | others (ev : Hub.Event) (hub : Hub) (hne : ev.receiver ≠ fwd.handle)
      (hhub : fwd.hub.step cfg.board ev = some hub) :
      Step cfg fwd (.others ev) { fwd with hub }

theorem step_cases {fwd' : Forwarder} {e : Event} (h : fwd.step cfg e = some fwd') :
    Step cfg fwd e fwd' := by
  cases e with
  | accept =>
    rw [← Option.some.inj h]
    unfold addRemoteConnection
    dsimp only
    split
    · rename_i hsome
      obtain ⟨c, hfind⟩ := Option.isSome_iff_exists.mp hsome
      exact .taken c hfind
    · rename_i hnone
      exact .accept (by simpa using hnone)
  | hello l p =>
    obtain ⟨c, hfind, h⟩ := Option.bind_eq_some_iff.mp h
    obtain ⟨x, hx, rfl⟩ := Option.map_eq_some_iff.mp h
    exact .hello l p c x hfind hx
  | added l p =>
    obtain ⟨c, hfind, h⟩ := Option.bind_eq_some_iff.mp h
    obtain ⟨_, hadded, rfl⟩ := Option.map_eq_some_iff.mp h
    obtain ⟨out, hread, rfl⟩ := Option.map_eq_some_iff.mp hadded
    exact .added l p c out.1 out.2 hfind hread
  | removed l p =>
    obtain ⟨c, hfind, h⟩ := Option.bind_eq_some_iff.mp h
    obtain ⟨_, hremoved, rfl⟩ := Option.map_eq_some_iff.mp h
    obtain ⟨out, hread, rfl⟩ := Option.map_eq_some_iff.mp hremoved
    exact .removed l p c out.1 out.2 hfind hread
  | disconnect l =>
    obtain ⟨c, hfind, rfl⟩ := Option.map_eq_some_iff.mp h
    exact .disconnect l c hfind
  | others ev =>
    simp only [step] at h
    split at h
    · simp at h
    · rename_i hne
      obtain ⟨hub, hhub, rfl⟩ := Option.map_eq_some_iff.mp h
      exact .others ev hub hne hhub

/-- What a call of the forwarder leaves alone. -/
structure Frames (fwd fwd' : Forwarder) : Prop where
  handle : fwd'.handle = fwd.handle
  forwarder_subscription_id : fwd'.forwarder_subscription_id = fwd.forwarder_subscription_id
  peer_announcement_subscription_id : fwd'.peer_announcement_subscription_id =
    fwd.peer_announcement_subscription_id
  remotes : fwd'.remotes = fwd.remotes

theorem Frames.refl (fwd : Forwarder) : Frames fwd fwd := ⟨rfl, rfl, rfl, rfl⟩

theorem Frames.trans {a b d : Forwarder} (h : Frames a b) (h' : Frames b d) : Frames a d :=
  ⟨h'.handle.trans h.handle, h'.forwarder_subscription_id.trans h.forwarder_subscription_id,
    h'.peer_announcement_subscription_id.trans h.peer_announcement_subscription_id,
    h'.remotes.trans h.remotes⟩

theorem addRemoteSubscription_frames (l : UInt32) (f : Filter) (node_id : String)
    (who : ActorIdentifier) (args : SubscriptionArguments) :
    Frames fwd (fwd.addRemoteSubscription cfg l f node_id who args).1 :=
  ⟨rfl, rfl, rfl, rfl⟩

theorem router_addRemoteSubscription (l : UInt32) (f : Filter) (node_id : String)
    (who : ActorIdentifier) (args : SubscriptionArguments) :
    (fwd.addRemoteSubscription cfg l f node_id who args).1.hub.router =
      (fwd.hub.router.step cfg.board (.add f fwd.handle who node_id args)).1 := rfl

theorem removeSubscription_frames (l : UInt32) (s : Nat) :
    Frames fwd (fwd.removeSubscription cfg l s) :=
  ⟨rfl, rfl, rfl, rfl⟩

theorem mem_members_addRemoteSubscription {l : UInt32} {f : Filter} {node_id : String}
    {who : ActorIdentifier} {args : SubscriptionArguments} {s : Nat} {d : UInt32} :
    d ∈ Multimap.members s (fwd.addRemoteSubscription cfg l f node_id who
      args).1.subscription_mapping ↔
      ((fwd.addRemoteSubscription cfg l f node_id who args).2 = s ∧ d = l) ∨
        d ∈ Multimap.members s fwd.subscription_mapping :=
  Multimap.mem_members_insert

theorem nodesAt_addRemoteSubscription (h : Hub.Inv cfg.board fwd.hub) (l : UInt32) (f : Filter)
    (node_id : String) (who : ActorIdentifier) (args : SubscriptionArguments) (s : Nat) :
    (fwd.addRemoteSubscription cfg l f node_id who args).1.hub.router.nodesAt s fwd.handle =
      if args.fetch_policy ≠ .FETCH ∧
          (fwd.addRemoteSubscription cfg l f node_id who args).2 = s then
        Subscription.emplace (fwd.hub.router.internNode node_id).2
          (fwd.hub.router.nodesAt s fwd.handle)
      else fwd.hub.router.nodesAt s fwd.handle := by
  have hnodes := Router.nodesAt_add h.router.subs cfg.board f fwd.handle who node_id args s
    fwd.handle
  simp only [and_true] at hnodes
  exact hnodes

theorem mem_members_removeSubscription {l : UInt32} {s s' : Nat} {d : UInt32} :
    d ∈ Multimap.members s' (fwd.removeSubscription cfg l s).subscription_mapping ↔
      d ∈ Multimap.members s' fwd.subscription_mapping ∧ ¬ (s = s' ∧ d = l) :=
  Multimap.mem_members_remove

theorem emptied_iff (hfull : Multimap.Full fwd.subscription_mapping) (l : UInt32) (s : Nat) :
    (Multimap.remove s l fwd.subscription_mapping).2 = true ↔ fwd.Only l s :=
      Multimap.remove_eq_true hfull

theorem nodesAt_removeSubscription (h : Hub.Inv cfg.board fwd.hub)
    (hfull : Multimap.Full fwd.subscription_mapping) (l : UInt32) (s s' : Nat) :
    (fwd.removeSubscription cfg l s).hub.router.nodesAt s' fwd.handle =
      if s = s' ∧ fwd.Only l s then fwd.hub.router.left (fwd.hub.router.nodesAt s' fwd.handle)
      else fwd.hub.router.nodesAt s' fwd.handle := by
  unfold removeSubscription
  dsimp only
  by_cases honly : fwd.Only l s
  · rw [if_pos ((emptied_iff hfull l s).mpr honly)]
    refine (Router.nodesAt_remove_all h.router s fwd.handle s' fwd.handle).trans ?_
    by_cases hs : s = s'
    · subst hs
      simp [honly]
    · simp [hs]
  · rw [if_neg (mt (emptied_iff hfull l s).mp honly), if_neg fun hand => honly hand.2]

theorem removeSubscription_peers (l : UInt32) (s : Nat) :
    (fwd.removeSubscription cfg l s).hub.router.peer_node_ids = fwd.hub.router.peer_node_ids := by
  unfold removeSubscription
  dsimp only
  split
  · exact Router.remove_peers cfg.board fwd.hub.router s fwd.handle ""
  · rfl

theorem addRemoteSubscription_id_ne_zero (h : Hub.Inv cfg.board fwd.hub) (l : UInt32) (f : Filter)
    (node_id : String) (who : ActorIdentifier) (args : SubscriptionArguments) :
    (fwd.addRemoteSubscription cfg l f node_id who args).2 ≠ 0 := by
  show (fwd.hub.router.step cfg.board (.add f fwd.handle who node_id args)).2.1 ≠ 0
  have hstep := Router.step_cases cfg.board fwd.hub.router (.add f fwd.handle who node_id args)
  generalize fwd.hub.router.step cfg.board (.add f fwd.handle who node_id args) = out at hstep
  cases hstep with
  | fetch => exact Nat.one_ne_zero
  | join _ _ _ _ _ S _ hsub =>
    have hid := (h.router.subs.ids S (Router.mem_of_findEqual hsub).1).1
    dsimp only
    omega
  | create =>
    have hnext := h.router.subs.next_ge
    dsimp only
    omega

/-! ## The hello -/

/-- A subscription that a connection makes for itself. -/
def Subscribed (cfg : ForwarderSettings) (l : UInt32) (fwd fwd' : Forwarder) (id : Nat) : Prop :=
  ∃ f who, fwd.addRemoteSubscription cfg l f cfg.board.NODE_ID who .default = (fwd', id)

namespace Subscribed

variable {fwd' : Forwarder} {l : UInt32} {id s : Nat}

theorem frames (h : Subscribed cfg l fwd fwd' id) : Frames fwd fwd' := by
  obtain ⟨f, who, heq⟩ := h
  obtain rfl : (fwd.addRemoteSubscription cfg l f cfg.board.NODE_ID who .default).1 = fwd' := by
    rw [heq]
  exact addRemoteSubscription_frames l f cfg.board.NODE_ID who .default

theorem mem_members (h : Subscribed cfg l fwd fwd' id) {d : UInt32} :
    d ∈ Multimap.members s fwd'.subscription_mapping ↔
      (s = id ∧ d = l) ∨ d ∈ Multimap.members s fwd.subscription_mapping := by
  obtain ⟨f, who, heq⟩ := h
  obtain ⟨rfl, rfl⟩ := Prod.mk.inj heq.symm
  rw [eq_comm (a := s)]
  exact mem_members_addRemoteSubscription

theorem inv (h : Subscribed cfg l fwd fwd' id) (hinv : Hub.Inv cfg.board fwd.hub) :
    Hub.Inv cfg.board fwd'.hub := by
  obtain ⟨f, who, heq⟩ := h
  obtain rfl : (fwd.addRemoteSubscription cfg l f cfg.board.NODE_ID who .default).1 = fwd' := by
    rw [heq]
  exact hinv.subscribe ..

theorem id_ne_zero (h : Subscribed cfg l fwd fwd' id) (hinv : Hub.Inv cfg.board fwd.hub) :
    id ≠ 0 := by
  obtain ⟨f, who, heq⟩ := h
  obtain rfl : (fwd.addRemoteSubscription cfg l f cfg.board.NODE_ID who .default).2 = id := by
    rw [heq]
  exact addRemoteSubscription_id_ne_zero hinv l f cfg.board.NODE_ID who .default

theorem nodesAt (h : Subscribed cfg l fwd fwd' id) (hinv : Hub.Inv cfg.board fwd.hub)
    (hne : s ≠ id) :
    fwd'.hub.router.nodesAt s fwd.handle = fwd.hub.router.nodesAt s fwd.handle := by
  obtain ⟨f, who, heq⟩ := h
  have hnodes := nodesAt_addRemoteSubscription hinv l f cfg.board.NODE_ID who .default s
  rw [heq, if_neg fun hand => hne hand.2.symm] at hnodes
  exact hnodes

theorem peers (h : Subscribed cfg l fwd fwd' id) : fwd.hub.router.Extends fwd'.hub.router := by
  obtain ⟨f, who, heq⟩ := h
  obtain rfl : (fwd.addRemoteSubscription cfg l f cfg.board.NODE_ID who .default).1 = fwd' := by
    rw [heq]
  exact Router.extends_step cfg.board fwd.hub.router
    (.add f fwd.handle who cfg.board.NODE_ID .default)

end Subscribed

theorem handleRemoteHello_router (hempty : c.partner_node_id = "") (x : String) :
    (fwd.handleRemoteHello cfg c x).1.hub.router =
      ((calls cfg.board fwd.hub.router (ownCalls cfg.board.NODE_ID fwd.handle
        (ownSubscriptions cfg.board.NODE_ID x c.local_id.toInt32))).1.internNode x).1 := by
  unfold handleRemoteHello ownCalls ownSubscriptions
  rw [if_neg (not_not_intro hempty)]
  simp only [List.map_cons, List.map_nil, calls_cons, calls_nil, addLocalSubscription,
    router_addRemoteSubscription, (addRemoteSubscription_frames _ _ _ _ _).handle]

theorem addEntries_router (st : Forwarder × RemoteConnection)
    (es : List (Filter × ActorIdentifier × SubscriptionArguments)) :
    (es.foldl (addEntry cfg) st).1.hub.router = (calls cfg.board st.1.hub.router
      (es.map fun e => .add e.1 st.1.handle e.2.1 st.2.partner_node_id e.2.2)).1 := by
  induction es generalizing st with
  | nil => rfl
  | cons e es ih =>
    rw [List.foldl_cons, ih, List.map_cons, calls_cons]
    rfl

theorem handleRemoteSubscriptionsAdded_router (p : Publication) :
    (fwd.handleRemoteSubscriptionsAdded cfg c p).map (fun st => st.1.hub.router) =
      (RemoteConnection.handleRemoteSubscriptionsAdded cfg.order cfg.board fwd.handle
        c.partner_node_id c.ingress_subscription_processors p fwd.hub.router).map Prod.fst := by
  unfold handleRemoteSubscriptionsAdded RemoteConnection.handleRemoteSubscriptionsAdded
  rw [Option.map_map, Option.map_map]
  congr 1
  funext out
  exact addEntries_router _ out.2

/-- A hello makes four subscriptions, and the snapshot gives the peer a number. -/
theorem handleRemoteHello_eq (cfg : ForwarderSettings) (fwd : Forwarder)
    (hempty : c.partner_node_id = "") (x : String) :
    ∃ fwd₁ fwd₂ fwd₃ fwd₄ id₁ id₂ id₃ id₄ ps, Subscribed cfg c.local_id fwd fwd₁ id₁ ∧
      Subscribed cfg c.local_id fwd₁ fwd₂ id₂ ∧ Subscribed cfg c.local_id fwd₂ fwd₃ id₃ ∧
      Subscribed cfg c.local_id fwd₃ fwd₄ id₄ ∧ fwd.handleRemoteHello cfg c x =
        ({ fwd₄ with hub := { fwd₄.hub with router := (fwd₄.hub.router.internNode x).1 } },
          ⟨c.local_id, c.subscription_ids, c.update_sub_id, id₁, id₂, id₃, id₄, x, ps⟩) := by
  unfold handleRemoteHello
  rw [if_neg (not_not_intro hempty)]
  dsimp only
  generalize h₁ : fwd.addLocalSubscription cfg c.local_id
    (updateFilter cfg.board.NODE_ID x "local_subscription_added") = added
  generalize h₂ : added.1.addLocalSubscription cfg c.local_id
    (updateFilter cfg.board.NODE_ID x "local_subscription_removed") = removed
  generalize h₃ : removed.1.addRemoteSubscription cfg c.local_id
    (subscriptionsFilter cfg.board.NODE_ID "subscriptions_added" c.local_id.toInt32)
      cfg.board.NODE_ID
    ⟨cfg.board.NODE_ID, "remote_connection", "1"⟩ .default = subs_added
  generalize h₄ : subs_added.1.addRemoteSubscription cfg c.local_id
    (subscriptionsFilter cfg.board.NODE_ID "subscriptions_removed" c.local_id.toInt32)
      cfg.board.NODE_ID
    ⟨cfg.board.NODE_ID, "remote_connection", "1"⟩ .default = subs_removed
  exact ⟨added.1, removed.1, subs_added.1, subs_removed.1, added.2, removed.2, subs_added.2,
    subs_removed.2, _, ⟨_, _, h₁⟩, ⟨_, _, h₂⟩, ⟨_, _, h₃⟩, ⟨_, _, h₄⟩, rfl⟩

theorem handleRemoteHello_again (hne : c.partner_node_id ≠ "") (x : String) :
    fwd.handleRemoteHello cfg c x = (fwd, c) := by
  unfold handleRemoteHello
  rw [if_pos hne]

/-- What a hello does that counts. -/
structure HelloSpec (fwd : Forwarder) (c : RemoteConnection) (x : String)
    (st : Forwarder × RemoteConnection) :
    Prop where
  frames : Frames fwd st.1
  local_id : st.2.local_id = c.local_id
  subscription_ids : st.2.subscription_ids = c.subscription_ids
  update_sub_id : st.2.update_sub_id = c.update_sub_id
  partner_node_id : st.2.partner_node_id = x
  ids_ne_zero : ∀ id ∈ st.2.helloIds, id ≠ 0
  mem_members : ∀ s d, d ∈ Multimap.members s st.1.subscription_mapping ↔
    (s ∈ st.2.helloIds ∧ d = c.local_id) ∨ d ∈ Multimap.members s fwd.subscription_mapping
  peers : fwd.hub.router.Extends st.1.hub.router
  nodesAt : ∀ s, s ∉ st.2.helloIds → st.1.hub.router.nodesAt s fwd.handle = fwd.hub.router.nodesAt s
    fwd.handle

theorem handleRemoteHello_spec (hinv : Hub.Inv cfg.board fwd.hub) (hempty : c.partner_node_id = "")
    (x : String) :
    HelloSpec fwd c x (fwd.handleRemoteHello cfg c x) := by
  obtain ⟨fwd₁, fwd₂, fwd₃, fwd₄, id₁, id₂, id₃, id₄, ps, h₁, h₂, h₃, h₄, heq⟩ :=
    handleRemoteHello_eq cfg fwd hempty x
  have hinv₁ := h₁.inv hinv
  have hinv₂ := h₂.inv hinv₁
  have hinv₃ := h₃.inv hinv₂
  have hframes₂ := h₁.frames.trans h₂.frames
  have hframes₃ := hframes₂.trans h₃.frames
  have hframes₄ := hframes₃.trans h₄.frames
  rw [heq]
  refine ⟨⟨hframes₄.handle, hframes₄.forwarder_subscription_id,
    hframes₄.peer_announcement_subscription_id, hframes₄.remotes⟩, rfl, rfl, rfl, rfl, ?_,
    fun s d => ?_, ?_, fun s hs => ?_⟩
  · intro id hid
    simp only [helloIds, List.mem_cons, List.not_mem_nil, or_false] at hid
    rcases hid with rfl | rfl | rfl | rfl
    · exact h₃.id_ne_zero hinv₂
    · exact h₄.id_ne_zero hinv₃
    · exact h₁.id_ne_zero hinv
    · exact h₂.id_ne_zero hinv₁
  · dsimp only
    rw [h₄.mem_members, h₃.mem_members, h₂.mem_members, h₁.mem_members]
    simp only [helloIds, List.mem_cons, List.not_mem_nil, or_false]
    tauto
  · have hpeers := ((h₁.peers.trans h₂.peers).trans h₃.peers).trans h₄.peers
    exact hpeers.trans (Router.extends_internNode fwd₄.hub.router x)
  · simp only [helloIds, List.mem_cons, List.not_mem_nil, or_false, not_or] at hs
    obtain ⟨hs₃, hs₄, hs₁, hs₂⟩ := hs
    have hnodes₂ := h₂.nodesAt hinv₁ hs₂
    have hnodes₃ := h₃.nodesAt hinv₂ hs₃
    have hnodes₄ := h₄.nodesAt hinv₃ hs₄
    rw [h₁.frames.handle, h₁.nodesAt hinv hs₁] at hnodes₂
    rw [hframes₂.handle, hnodes₂] at hnodes₃
    rw [hframes₃.handle, hnodes₃] at hnodes₄
    exact (Router.nodesAt_internNode fwd₄.hub.router x s fwd.handle).trans hnodes₄

/-- A condition on each removal of a message. -/
def EachEntry (cfg : ForwarderSettings) (C : Forwarder × RemoteConnection → Nat → Prop) :
    Forwarder × RemoteConnection → List (Filter × SubscriptionArguments) → Prop
  | _, [] => True
  | st, e :: es => C st (st.1.hub.router.findSubId e.1 e.2) ∧
      EachEntry cfg C (removeEntry cfg st e) es

theorem EachEntry.foldl {C : Forwarder × RemoteConnection → Nat → Prop}
    {P : Forwarder × RemoteConnection → Prop} {st : Forwarder × RemoteConnection}
    {es : List (Filter × SubscriptionArguments)} (h : EachEntry cfg C st es) (hP : P st)
    (hstep : ∀ st e, P st → C st (st.1.hub.router.findSubId e.1 e.2) → P (removeEntry cfg st e)) :
    P (es.foldl (removeEntry cfg) st) := by
  induction es generalizing st with
  | nil => exact hP
  | cons e es ih => exact ih h.2 (hstep st e hP h.1)

/-! ## The destructor -/

theorem removeEach_frames (l : UInt32) (ids : List Nat) : Frames fwd (fwd.removeEach cfg l ids) :=
  List.foldlRecOn ids _ (Frames.refl fwd) fun _ h s _ => h.trans (removeSubscription_frames l s)

theorem mem_members_removeEach {l d : UInt32} {ids : List Nat} {s : Nat} :
    d ∈ Multimap.members s (fwd.removeEach cfg l ids).subscription_mapping ↔
      d ∈ Multimap.members s fwd.subscription_mapping ∧ ¬ (s ∈ ids ∧ d = l) := by
  induction ids generalizing fwd with
  | nil => simp [removeEach]
  | cons s₀ ids ih =>
    refine ih.trans ?_
    rw [mem_members_removeSubscription, List.mem_cons]
    constructor
    · rintro ⟨⟨hmem, hfirst⟩, hrest⟩
      refine ⟨hmem, ?_⟩
      rintro ⟨rfl | hs, hd⟩
      · exact hfirst ⟨rfl, hd⟩
      · exact hrest ⟨hs, hd⟩
    · rintro ⟨hmem, hnot⟩
      exact ⟨⟨hmem, fun hand => hnot ⟨Or.inl hand.1.symm, hand.2⟩⟩, fun hand =>
        hnot ⟨Or.inr hand.1, hand.2⟩⟩

theorem only_removeSubscription {l : UInt32} {s₀ s : Nat} :
    (fwd.removeSubscription cfg l s₀).Only l s ↔ fwd.Only l s ∧ s₀ ≠ s := by
  unfold Only
  constructor
  · rintro ⟨hmem, hall⟩
    obtain ⟨hmem, hnot⟩ := mem_members_removeSubscription.mp hmem
    have hne : s₀ ≠ s := fun heq => hnot ⟨heq, rfl⟩
    exact ⟨⟨hmem, fun d hd => hall d
      (mem_members_removeSubscription.mpr ⟨hd, fun hand => hne hand.1⟩)⟩, hne⟩
  · rintro ⟨⟨hmem, hall⟩, hne⟩
    exact ⟨mem_members_removeSubscription.mpr ⟨hmem, fun hand => hne hand.1⟩,
      fun d hd => hall d (mem_members_removeSubscription.mp hd).1⟩

theorem left_removeSubscription (l : UInt32) (s : Nat) (nodes : List Nat) :
    (fwd.removeSubscription cfg l s).hub.router.left nodes = fwd.hub.router.left nodes := by
  unfold Router.left
  rw [removeSubscription_peers]

/-! ## What holds in every run -/

/-- Before its hello a connection has made one subscription for itself. -/
def Staged (c : RemoteConnection) : Prop :=
  c.local_sub_added_id = 0 → c.controlIds = [c.update_sub_id]

structure Inv (cfg : ForwarderSettings) (fwd : Forwarder) : Prop where
  hub : Hub.Inv cfg.board fwd.hub
  full : Multimap.Full fwd.subscription_mapping
  ids : ∀ l c, Assoc.find l fwd.remotes = some c → c.local_id = l
  staged : ∀ l c, Assoc.find l fwd.remotes = some c → Staged c

/-- The same while a connection handles a message. -/
structure Running (cfg : ForwarderSettings) (st : Forwarder × RemoteConnection) : Prop where
  inv : Inv cfg st.1
  staged : Staged st.2

namespace Inv

theorem addRemoteSubscription (h : Inv cfg fwd) (l : UInt32) (f : Filter) (node_id : String)
    (who : ActorIdentifier) (args : SubscriptionArguments) :
    Inv cfg (fwd.addRemoteSubscription cfg l f node_id who args).1 :=
  ⟨h.hub.subscribe .., h.full.insert _ _, h.ids, h.staged⟩

theorem removeSubscription (h : Inv cfg fwd) (l : UInt32) (s : Nat) :
    Inv cfg (fwd.removeSubscription cfg l s) := by
  refine ⟨?_, h.full.remove _ _, h.ids, h.staged⟩
  unfold Forwarder.removeSubscription
  dsimp only
  split
  · exact h.hub.unsubscribe ..
  · exact h.hub

theorem removeEach (h : Inv cfg fwd) (l : UInt32) (ids : List Nat) :
    Inv cfg (fwd.removeEach cfg l ids) :=
  List.foldlRecOn ids _ h fun _ hfwd s _ => hfwd.removeSubscription l s

theorem internNode (h : Inv cfg fwd) (node : String) :
    Inv cfg { fwd with hub := { fwd.hub with router := (fwd.hub.router.internNode node).1 } } :=
  ⟨⟨h.hub.router.internNode node, h.hub.nodup⟩, h.full, h.ids, h.staged⟩

theorem erase (h : Inv cfg fwd) (l : UInt32) :
    Inv cfg { fwd with remotes := Assoc.erase l fwd.remotes } := by
  have hgone : ∀ l' c', Assoc.find l' (Assoc.erase l fwd.remotes) = some c' →
      Assoc.find l' fwd.remotes = some c' := by
    intro l' c' hfind
    rw [Assoc.find_erase] at hfind
    split at hfind
    · simp at hfind
    · exact hfind
  exact ⟨h.hub, h.full, fun l' c' hfind => h.ids l' c' (hgone l' c' hfind),
    fun l' c' hfind => h.staged l' c' (hgone l' c' hfind)⟩

end Inv

theorem nodesAt_removeEach (h : Inv cfg fwd) (l : UInt32) (ids : List Nat) (s : Nat) :
    (fwd.removeEach cfg l ids).hub.router.nodesAt s fwd.handle =
      if s ∈ ids ∧ fwd.Only l s then fwd.hub.router.left (fwd.hub.router.nodesAt s fwd.handle)
      else fwd.hub.router.nodesAt s fwd.handle := by
  induction ids generalizing fwd with
  | nil => simp [removeEach]
  | cons s₀ ids ih =>
    refine (ih (h.removeSubscription l s₀)).trans ?_
    simp only [only_removeSubscription, left_removeSubscription]
    have hnodes := nodesAt_removeSubscription h.hub h.full l s₀ s
    by_cases hs : s₀ = s
    · subst hs
      rw [if_neg fun hand => hand.2.2 rfl]
      refine hnodes.trans ?_
      simp
    · rw [if_neg fun hand => hs hand.1] at hnodes
      have hnodes' : (fwd.removeSubscription cfg l s₀).hub.router.nodesAt s
          (fwd.removeSubscription cfg l s₀).handle =
        fwd.hub.router.nodesAt s fwd.handle := hnodes
      rw [hnodes']
      simp [hs, Ne.symm hs]

namespace Running

variable {st : Forwarder × RemoteConnection}

theorem setRemote (h : Running cfg st) : Inv cfg (setRemote st) := by
  refine ⟨h.inv.hub, h.inv.full, fun l c' hfind => ?_, fun l c' hfind => ?_⟩
  · rw [Forwarder.setRemote, Assoc.find_put] at hfind
    split at hfind
    · rename_i heq
      rw [← Option.some.inj hfind]
      exact heq
    · exact h.inv.ids l c' hfind
  · rw [Forwarder.setRemote, Assoc.find_put] at hfind
    split at hfind
    · rw [← Option.some.inj hfind]
      exact h.staged
    · exact h.inv.staged l c' hfind

theorem construct (h : Inv cfg fwd) (l : UInt32) : Running cfg (fwd.construct cfg l) :=
  ⟨h.addRemoteSubscription .., fun _ => rfl⟩

theorem handleRemoteHello (h : Running cfg (fwd, c)) (x : String) :
    Running cfg (fwd.handleRemoteHello cfg c x) := by
  unfold Forwarder.handleRemoteHello
  split
  · exact h
  · have hadded := addRemoteSubscription_id_ne_zero h.inv.hub c.local_id
      (updateFilter cfg.board.NODE_ID x "local_subscription_added") cfg.board.NODE_ID
      ⟨cfg.board.NODE_ID, "tcp_forwarder", "1"⟩ .default
    refine ⟨Inv.internNode ?_ x, fun hzero => absurd hzero hadded⟩
    refine Inv.addRemoteSubscription ?_ ..
    refine Inv.addRemoteSubscription ?_ ..
    refine Inv.addRemoteSubscription ?_ ..
    exact h.inv.addRemoteSubscription ..

theorem addEntry (h : Running cfg st) (e : Filter × ActorIdentifier × SubscriptionArguments) :
    Running cfg (addEntry cfg st e) :=
  ⟨h.inv.addRemoteSubscription .., h.staged⟩

theorem removeEntry (h : Running cfg st) (e : Filter × SubscriptionArguments) :
    Running cfg (removeEntry cfg st e) :=
  ⟨h.inv.removeSubscription .., h.staged⟩

end Running

theorem Inv.running {l : UInt32} (h : Inv cfg fwd) (hfind : Assoc.find l fwd.remotes = some c) :
    Running cfg (fwd, c) :=
  ⟨h, h.staged l c hfind⟩

theorem Inv.step {fwd' : Forwarder} {e : Event} (h : Inv cfg fwd)
    (hstep : fwd.step cfg e = some fwd') :
    Inv cfg fwd' := by
  cases step_cases hstep with
  | taken => exact ⟨h.hub, h.full, h.ids, h.staged⟩
  | accept =>
    have hnext : Inv cfg { fwd with next_local_id := fwd.next_local_id + 1 } :=
      ⟨h.hub, h.full, h.ids, h.staged⟩
    exact (Running.construct hnext _).setRemote
  | hello l p c x hfind => exact ((h.running hfind).handleRemoteHello x).setRemote
  | added l p c ps es hfind =>
    have hrunning : Running cfg (fwd, { c with ingress_subscription_processors := ps }) :=
      ⟨h, h.staged l c hfind⟩
    exact (List.foldlRecOn es _ hrunning fun _ hst e _ => hst.addEntry e : Running cfg _).setRemote
  | removed l p c ps es hfind =>
    have hrunning : Running cfg (fwd, { c with ingress_subscription_processors := ps }) :=
      ⟨h, h.staged l c hfind⟩
    exact (List.foldlRecOn es _ hrunning fun _ hst e _ => hst.removeEntry e : Running cfg
      _).setRemote
  | disconnect l c hfind =>
    exact (h.erase l).removeEach ..
  | others ev hub hne hhub => exact ⟨h.hub.step hhub, h.full, h.ids, h.staged⟩

theorem run_append (cfg : ForwarderSettings) (hub : Hub) (handle : Nat) (pre post : List Event) :
    run cfg hub handle (pre ++ post) = (run cfg hub handle pre).bind fun fwd =>
      post.foldlM (Forwarder.step cfg) fwd := by
  unfold run
  rw [Option.bind_assoc]
  congr 1
  funext fwd
  rw [List.foldlM_append, Option.bind_eq_bind]

theorem inv_create {hub : Hub} {handle : Nat} (hhub : Hub.Inv cfg.board hub)
    (h : create cfg hub handle = some fwd) :
    Inv cfg fwd := by
  obtain ⟨hub', hstep, rfl⟩ := Option.map_eq_some_iff.mp h
  refine ⟨((hhub.step hstep).subscribe ..).subscribe .., by simp [Multimap.Full], ?_, ?_⟩
  · simp [Assoc.find]
  · simp [Assoc.find]

theorem inv_run {setup : List Hub.Event} {hub : Hub} {handle : Nat} {events : List Event}
    (hhub : Hub.run cfg.board setup = some hub) (hrun : run cfg hub handle events = some fwd) :
    Inv cfg fwd := by
  have hinv : Hub.Inv cfg.board hub := Runs.invariant (Hub.Inv cfg.board) (Hub.inv_init cfg.board)
    (fun _ _ _ h hstep => h.step hstep) hhub
  obtain ⟨fwd₀, hcreate, hsteps⟩ := Option.bind_eq_some_iff.mp hrun
  exact Runs.invariant (Inv cfg) (inv_create hinv hcreate) (fun _ _ _ h hstep => h.step hstep)
    hsteps

end Forwarder

end UActor
