import UActor.Lib.Runs
import UActor.PubSub.Filter
import UActor.PubSub.Subscription

/-!
# The topology manager

`topology_manager.hpp` and `topology_manager.cpp`. What its runtime does with a subscription, a
publication or a wakeup is an effect.
-/

namespace UActor

structure TCPPeer where
  node_id : String
  ip : String
  port : UInt16
deriving DecidableEq, Repr

/-- The names of the actor, and `BoardFunctions::SERVER_NODES`. -/
structure TopologySettings where
  identifier : ActorIdentifier
  SERVER_NODES : List String

structure TopologyManager where
  reachable_peers : List String
  connection_in_progress : List (String × UInt32)
  persistent_peers : List TCPPeer
  persistent_announcement_active : Bool
deriving DecidableEq, Repr

namespace TopologyManager

inductive Effect where
  | subscribe (f : Filter)
  | publish (p : Publication)
  | enqueueWakeup (delay : UInt32) (wakeup_id : String)

/-- A publication, and the clock when `should_connect` and `receive_peer_announcement` read it. -/
structure Input where
  publication : Publication
  checked_at : UInt32
  connected_at : UInt32

variable (cfg : TopologySettings) (st : TopologyManager)

def init : TopologyManager := ⟨[], [], [], false⟩

/-! ## Messages -/

def subscriptions : List Filter :=
  [.ofConstraints [.str "type" "peer_announcement" .EQ false, .str "node_id" cfg.identifier.node_id
    .EQ true], .ofConstraints [.str "type" "local_peer_announcement" .EQ false,
      .str "publisher_node_id" cfg.identifier.node_id .EQ false],
    .ofConstraints [.str "type" "peer_update" .EQ false, .str "publisher_node_id"
      cfg.identifier.node_id .EQ false],
    .ofConstraints [.str "type" "add_static_peer" .EQ false, .str "node_id" cfg.identifier.node_id
      .EQ false]]

/-- The message that starts the announcements. -/
def triggerMessage : Publication :=
  (((Publication.empty.setAttr "node_id" (.str cfg.identifier.node_id)).setAttr "actor_type"
    (.str cfg.identifier.actor_type)).setAttr "instance_id"
      (.str cfg.identifier.instance_id)).setAttr "type"
    (.str "trigger_static_peer")

def connectMessage (peer_ip : String) (peer_port : Int32) : Publication :=
  (((Publication.empty.setAttr "type" (.str "tcp_client_connect")).setAttr "node_id"
    (.str cfg.identifier.node_id)).setAttr "peer_ip" (.str peer_ip)).setAttr "peer_port"
      (.int peer_port)

def dataPoint (connections : Int32) : Publication :=
  (((((Publication.empty.setAttr "type" (.str "data_point")).setAttr "measurement"
    (.str "system")).setAttr "values" (.str "connections")).setAttr "connections"
      (.int connections)).setAttr "tags" (.str "node")).setAttr "node"
    (.str cfg.identifier.node_id)

/-- The announcement of a static peer. -/
def announcement (peer : TCPPeer) : Publication :=
  ((((Publication.empty.setAttr "type" (.str "local_peer_announcement")).setAttr "peer_type"
    (.str "tcp_server")).setAttr "peer_node_id" (.str peer.node_id)).setAttr "peer_ip"
      (.str peer.ip)).setAttr
    "peer_port" (.int peer.port.toUInt32.toInt32)

/-! ## Handlers -/

def publishPersistentPeers : List Effect :=
  (if st.persistent_announcement_active then
      st.persistent_peers.map fun peer => .publish (announcement peer)
    else []) ++ [.enqueueWakeup 30000 "trigger_static_peer"]

def isCandidate (peer_id : String) (forced_mode : Bool) : Bool :=
  !st.reachable_peers.contains peer_id && (forced_mode || cfg.SERVER_NODES.contains peer_id)

/-- An attempt whose time is up is forgotten. -/
def shouldConnect (now : UInt32) (peer_id : String) (forced_mode : Bool) : TopologyManager × Bool :=
  match Assoc.find peer_id st.connection_in_progress with
  | none => (st, st.isCandidate cfg peer_id forced_mode)
  | some until_time =>
    if until_time < now then
      ({ st with connection_in_progress := Assoc.erase peer_id st.connection_in_progress },
        st.isCandidate cfg peer_id forced_mode)
    else (st, false)

/-- `emplace` keeps an entry that is there. -/
def attempt (peer_id : String) (until_time : UInt32) : TopologyManager :=
  match Assoc.find peer_id st.connection_in_progress with
  | none => { st with connection_in_progress := Assoc.put peer_id until_time st.connection_in_progress }
  | some _ => st

def receivePeerAnnouncement (m : Input) : Option (TopologyManager × List Effect) :=
  let p := m.publication
  if p.getStrAttr "peer_type" = some "tcp_server" ∧ p.hasAttr "peer_ip" = true ∧ p.hasAttr "peer_port" = true ∧
      p.hasAttr "peer_node_id" = true then
    (p.getStrAttr "peer_node_id").bind fun peer_node_id =>
      let checked := st.shouldConnect cfg m.checked_at peer_node_id
        (decide (p.getStrAttr "forced" = some cfg.identifier.node_id))
      if checked.2 then
        (p.getStrAttr "peer_ip").bind fun peer_ip => (p.getIntAttr "peer_port").map fun peer_port =>
          (checked.1.attempt peer_node_id (m.connected_at + 5000), [.publish (connectMessage cfg peer_ip peer_port)])
      else some (checked.1, [])
  else some (st, [])

/-- A peer that is gone. The set is looked at before the peer is erased. -/
def removePeer (peer_node_id : String) : TopologyManager :=
  { st with
    persistent_announcement_active :=
      st.persistent_announcement_active ||
        (!st.persistent_announcement_active && st.reachable_peers.isEmpty)
    reachable_peers := st.reachable_peers.filter fun peer => peer ≠ peer_node_id }

def receivePeerUpdate (p : Publication) : Option (TopologyManager × List Effect) :=
  if p.getStrAttr "publisher_node_id" = some cfg.identifier.node_id ∧
    p.hasAttr "update_type" = true ∧
      p.hasAttr "peer_node_id" = true then
    if p.getStrAttr "update_type" = some "peer_added" then
      (p.getStrAttr "peer_node_id").map fun peer_node_id =>
        ({ st with
            reachable_peers := st.reachable_peers.insert peer_node_id
            connection_in_progress := Assoc.erase peer_node_id st.connection_in_progress },
          [.publish (dataPoint cfg 1)])
    else if p.getStrAttr "update_type" = some "peer_removed" then
      (p.getStrAttr "peer_node_id").map fun peer_node_id =>
        (st.removePeer peer_node_id, [.publish (dataPoint cfg (-1))])
    else some (st, [])
  else some (st, [])

def addStaticPeer (p : Publication) : Option (TopologyManager × List Effect) :=
  if p.hasAttr "peer_node_id" = true ∧ p.hasAttr "peer_ip" = true ∧
      p.hasAttr "peer_port" = true then
    (p.getStrAttr "peer_node_id").bind fun node_id => (p.getStrAttr "peer_ip").bind fun ip =>
      (p.getIntAttr "peer_port").map fun port =>
        ({ st with
            persistent_peers := st.persistent_peers ++ [⟨node_id, ip, port.toUInt32.toUInt16⟩]
            persistent_announcement_active :=
              st.persistent_announcement_active ||
                (!st.persistent_announcement_active && st.reachable_peers.isEmpty) },
          [])
  else some (st, [])

/-- The message of `init`, or the wakeup that `publish_persistent_peers` asked for. -/
def isTrigger (p : Publication) : Prop :=
  p.getStrAttr "type" = some "trigger_static_peer" ∨
    (p.getStrAttr "type" = some "wakeup" ∧ p.getStrAttr "wakeup_id" = some "trigger_static_peer")

instance (p : Publication) : Decidable (isTrigger p) := inferInstanceAs (Decidable (_ ∨ _))

def receive (m : Input) : Option (TopologyManager × List Effect) :=
  let type := m.publication.getStrAttr "type"
  if type = some "init" then
    some (st, (subscriptions cfg).map .subscribe ++ [.publish (triggerMessage cfg)])
  else if isTrigger m.publication then some (st, st.publishPersistentPeers)
  else if type = some "peer_announcement" ∨ type = some "local_peer_announcement" then
    st.receivePeerAnnouncement cfg m
  else if type = some "peer_update" then st.receivePeerUpdate cfg m.publication
  else if type = some "add_static_peer" then st.addStaticPeer m.publication
  else some (st, [])

def run (inputs : List Input) : Option TopologyManager :=
  inputs.foldlM (fun st m => (st.receive cfg m).map Prod.fst) init

/-! ## Announcements -/

/-- Without peers, the next trigger announces every static peer. -/
def Announcing : Prop :=
  st.persistent_peers ≠ [] → st.reachable_peers = [] → st.persistent_announcement_active = true ∧
    ∀ m : Input, isTrigger m.publication → ∃ effects, st.receive cfg m = some (st, effects) ∧
      ∀ peer ∈ st.persistent_peers, .publish (announcement peer) ∈ effects

/-- The message says that a peer is gone. -/
def Removes (p : Publication) (peer_node_id : String) : Prop :=
  p.getStrAttr "type" = some "peer_update" ∧
    p.getStrAttr "publisher_node_id" = some cfg.identifier.node_id ∧
    p.getStrAttr "update_type" = some "peer_removed" ∧
      p.getStrAttr "peer_node_id" = some peer_node_id

/-- What a message does to the peers. -/
inductive Changes (m : Input) : TopologyManager → Prop
  | kept {st' : TopologyManager} (hpersistent : st'.persistent_peers = st.persistent_peers)
      (hreachable : st'.reachable_peers = st.reachable_peers)
      (hactive : st'.persistent_announcement_active = st.persistent_announcement_active) :
      Changes m st'
  | added {st' : TopologyManager} (hreachable : st'.reachable_peers ≠ []) : Changes m st'
  | removed {peer_node_id : String} (h : Removes cfg m.publication peer_node_id) :
      Changes m (st.removePeer peer_node_id)
  | static {st' : TopologyManager} (hreachable : st'.reachable_peers = st.reachable_peers)
      (hactive : st.reachable_peers = [] → st'.persistent_announcement_active = true) :
      Changes m st'

variable {cfg st} {st' : TopologyManager} {m : Input} {effects : List Effect}

theorem receive_trigger (h : isTrigger m.publication) :
    st.receive cfg m = some (st, st.publishPersistentPeers) := by
  have hinit : m.publication.getStrAttr "type" ≠ some "init" := by
    rcases h with h | ⟨h, -⟩
    · rw [h]
      decide
    · rw [h]
      decide
  unfold receive
  dsimp only
  rw [if_neg hinit, if_pos h]

theorem announcing_iff_active : Announcing cfg st ↔
    (st.persistent_peers ≠ [] → st.reachable_peers = [] →
      st.persistent_announcement_active = true) := by
  constructor
  · intro h hpersistent hreachable
    exact (h hpersistent hreachable).1
  · intro h hpersistent hreachable
    have hactive := h hpersistent hreachable
    refine ⟨hactive, fun m hm => ⟨_, receive_trigger hm, ?_⟩⟩
    intro peer hpeer
    rw [publishPersistentPeers, if_pos hactive]
    exact List.mem_append_left _ (List.mem_map_of_mem hpeer)

theorem shouldConnect_kept (cfg : TopologySettings) (st : TopologyManager) (now : UInt32)
    (peer_id : String) (forced_mode : Bool) :
    (st.shouldConnect cfg now peer_id forced_mode).1.persistent_peers = st.persistent_peers ∧
      (st.shouldConnect cfg now peer_id forced_mode).1.reachable_peers = st.reachable_peers ∧
      (st.shouldConnect cfg now peer_id forced_mode).1.persistent_announcement_active =
        st.persistent_announcement_active := by
  unfold shouldConnect
  split
  · exact ⟨rfl, rfl, rfl⟩
  · split
    · exact ⟨rfl, rfl, rfl⟩
    · exact ⟨rfl, rfl, rfl⟩

theorem attempt_kept (st : TopologyManager) (peer_id : String) (until_time : UInt32) :
    (st.attempt peer_id until_time).persistent_peers = st.persistent_peers ∧
      (st.attempt peer_id until_time).reachable_peers = st.reachable_peers ∧
      (st.attempt peer_id until_time).persistent_announcement_active = st.persistent_announcement_active := by
  unfold attempt
  split
  · exact ⟨rfl, rfl, rfl⟩
  · exact ⟨rfl, rfl, rfl⟩

theorem changes_announcement (h : st.receivePeerAnnouncement cfg m = some (st', effects)) :
    Changes cfg st m st' := by
  unfold receivePeerAnnouncement at h
  dsimp only at h
  split at h
  · obtain ⟨peer_node_id, -, h⟩ := Option.bind_eq_some_iff.mp h
    have hchecked := shouldConnect_kept cfg st m.checked_at peer_node_id
      (decide (m.publication.getStrAttr "forced" = some cfg.identifier.node_id))
    generalize st.shouldConnect cfg m.checked_at peer_node_id
      (decide (m.publication.getStrAttr "forced" = some cfg.identifier.node_id)) =
        checked at h hchecked
    obtain ⟨hpersistent, hreachable, hactive⟩ := hchecked
    split at h
    · obtain ⟨peer_ip, -, h⟩ := Option.bind_eq_some_iff.mp h
      obtain ⟨peer_port, -, h⟩ := Option.map_eq_some_iff.mp h
      obtain ⟨hpersistent', hreachable', hactive'⟩ :=
        attempt_kept checked.1 peer_node_id (m.connected_at + 5000)
      rw [← (Prod.mk.inj h).1]
      exact .kept (hpersistent'.trans hpersistent) (hreachable'.trans hreachable)
        (hactive'.trans hactive)
    · rw [← (Prod.mk.inj (Option.some.inj h)).1]
      exact .kept hpersistent hreachable hactive
  · rw [← (Prod.mk.inj (Option.some.inj h)).1]
    exact .kept rfl rfl rfl

theorem changes_update (htype : m.publication.getStrAttr "type" = some "peer_update")
    (h : st.receivePeerUpdate cfg m.publication = some (st', effects)) : Changes cfg st m st' := by
  unfold receivePeerUpdate at h
  split at h
  · rename_i hread
    split at h
    · obtain ⟨peer_node_id, -, h⟩ := Option.map_eq_some_iff.mp h
      rw [← (Prod.mk.inj h).1]
      exact .added (List.ne_nil_of_mem List.mem_insert_self)
    · split at h
      · rename_i hremoved
        obtain ⟨peer_node_id, hpeer, h⟩ := Option.map_eq_some_iff.mp h
        rw [← (Prod.mk.inj h).1]
        exact .removed ⟨htype, hread.1, hremoved, hpeer⟩
      · rw [← (Prod.mk.inj (Option.some.inj h)).1]
        exact .kept rfl rfl rfl
  · rw [← (Prod.mk.inj (Option.some.inj h)).1]
    exact .kept rfl rfl rfl

theorem changes_static (h : st.addStaticPeer m.publication = some (st', effects)) :
    Changes cfg st m st' := by
  unfold addStaticPeer at h
  split at h
  · obtain ⟨node_id, -, h⟩ := Option.bind_eq_some_iff.mp h
    obtain ⟨ip, -, h⟩ := Option.bind_eq_some_iff.mp h
    obtain ⟨port, -, h⟩ := Option.map_eq_some_iff.mp h
    rw [← (Prod.mk.inj h).1]
    refine .static rfl ?_
    intro hreachable
    simp [hreachable]
  · rw [← (Prod.mk.inj (Option.some.inj h)).1]
    exact .kept rfl rfl rfl

theorem receive_changes (h : st.receive cfg m = some (st', effects)) : Changes cfg st m st' := by
  have hkept : ∀ {effects' : List Effect}, some (st, effects') = some (st', effects) →
      Changes cfg st m st' := by
    intro effects' heq
    rw [← (Prod.mk.inj (Option.some.inj heq)).1]
    exact .kept rfl rfl rfl
  unfold receive at h
  dsimp only at h
  split at h
  · exact hkept h
  · split at h
    · exact hkept h
    · split at h
      · exact changes_announcement h
      · split at h
        · rename_i htype
          exact changes_update htype h
        · split at h
          · exact changes_static h
          · exact hkept h

/-! ## Runs -/

/-- The last peer must not go while there are static peers that are not announced. -/
def Safe (cfg : TopologySettings) (st : TopologyManager) (m : Input) : Prop :=
  ∀ peer_node_id, Removes cfg m.publication peer_node_id → st.persistent_peers ≠ [] →
    st.persistent_announcement_active = false → ∃ peer ∈ st.reachable_peers, peer ≠ peer_node_id

theorem removePeer_active (hactive : st.persistent_announcement_active = true)
    (peer_node_id : String) :
    (st.removePeer peer_node_id).persistent_announcement_active = true := by
  simp [removePeer, hactive]

theorem removePeer_empty_iff {peer_node_id : String} :
    (st.removePeer peer_node_id).reachable_peers = [] ↔ ¬ ∃ peer ∈ st.reachable_peers,
    peer ≠ peer_node_id := by
  simp [removePeer, List.filter_eq_nil_iff]

theorem receive_removes {peer_node_id : String} (h : Removes cfg m.publication peer_node_id) :
    st.receive cfg m = some (st.removePeer peer_node_id, [.publish (dataPoint cfg (-1))]) := by
  obtain ⟨htype, hpublisher, hupdate, hpeer⟩ := h
  have htrigger : ¬ isTrigger m.publication := by
    simp [isTrigger, htype]
  have hread := Publication.hasAttr_of_getStrAttr hupdate
  have hread' := Publication.hasAttr_of_getStrAttr hpeer
  simp [receive, htype, htrigger, receivePeerUpdate, hpublisher, hread, hread', hupdate, hpeer]

theorem announcing_removePeer (hannouncing : Announcing cfg st) (peer_node_id : String) :
    Announcing cfg (st.removePeer peer_node_id) ↔ (st.persistent_peers ≠ [] →
      st.persistent_announcement_active = false → ∃ peer ∈ st.reachable_peers,
      peer ≠ peer_node_id) := by
  rw [announcing_iff_active] at hannouncing ⊢
  constructor
  · intro h hpersistent hinactive
    by_contra hlast
    have hactive := h hpersistent (removePeer_empty_iff.mpr hlast)
    have hreachable : st.reachable_peers = [] := by simpa [removePeer, hinactive] using hactive
    rw [hannouncing hpersistent hreachable] at hinactive
    simp at hinactive
  · intro h hpersistent hempty
    cases hactive : st.persistent_announcement_active with
    | true => exact removePeer_active hactive peer_node_id
    | false => exact absurd (h hpersistent hactive) (removePeer_empty_iff.mp hempty)

/-- The announcements go on after one message exactly if it is safe. -/
theorem announcing_receive (hannouncing : Announcing cfg st)
    (h : st.receive cfg m = some (st', effects)) :
    Announcing cfg st' ↔ Safe cfg st m := by
  by_cases hremoves : ∃ peer_node_id, Removes cfg m.publication peer_node_id
  · obtain ⟨peer_node_id, hpeer⟩ := hremoves
    have hsafe : Safe cfg st m ↔
        (st.persistent_peers ≠ [] → st.persistent_announcement_active = false →
        ∃ peer ∈ st.reachable_peers, peer ≠ peer_node_id) := by
      refine ⟨fun h => h peer_node_id hpeer, ?_⟩
      intro h other hother
      obtain rfl : peer_node_id = other := Option.some.inj (hpeer.2.2.2.symm.trans hother.2.2.2)
      exact h
    rw [receive_removes hpeer] at h
    rw [← (Prod.mk.inj (Option.some.inj h)).1, hsafe]
    exact announcing_removePeer hannouncing peer_node_id
  · refine iff_of_true ?_ fun peer_node_id hpeer => absurd ⟨peer_node_id, hpeer⟩ hremoves
    rw [announcing_iff_active] at hannouncing ⊢
    cases receive_changes h with
    | kept hpersistent hreachable hactive =>
      rw [hpersistent, hreachable, hactive]
      exact hannouncing
    | added hreachable => exact fun _ hempty => absurd hempty hreachable
    | removed hpeer => exact absurd ⟨_, hpeer⟩ hremoves
    | static hreachable hactive =>
      rw [hreachable]
      exact fun _ => hactive

/-- A node without peers announces its static peers in every state of a run exactly if no message
takes away the last peer too early. -/
theorem announcing_iff (cfg : TopologySettings) (inputs : List Input) :
    (∀ pre post st, inputs = pre ++ post → run cfg pre = some st → Announcing cfg st) ↔
      ∀ pre m post st, inputs = pre ++ m :: post → run cfg pre = some st → Safe cfg st m := by
  refine Runs.always_iff (fun _ => True) (Announcing cfg) (Safe cfg) trivial ?_ (fun _ _ _ _ _ =>
    trivial) ?_ ?_
  · exact announcing_iff_active.mpr fun hpersistent => absurd rfl hpersistent
  · intro st m st' _ hannouncing hstep
    obtain ⟨⟨st'', effects⟩, hreceive, rfl⟩ := Option.map_eq_some_iff.mp hstep
    exact announcing_receive hannouncing hreceive
  · intro st m _ _ hstuck peer_node_id hpeer
    rw [receive_removes hpeer] at hstuck
    simp at hstuck

def node : TopologySettings := ⟨⟨"node", "topology_manager", "1"⟩, []⟩

def peerUpdate (update_type : String) : Input :=
  ⟨((((Publication.ofPublisher "node" "remote_connection" "1").setAttr "type"
    (.str "peer_update")).setAttr "update_type" (.str update_type)).setAttr "peer_node_id"
      (.str "base")), 0, 0⟩

def staticPeer : Input :=
  ⟨((((Publication.empty.setAttr "type" (.str "add_static_peer")).setAttr "peer_node_id"
    (.str "base")).setAttr "peer_ip" (.str "10.0.0.1")).setAttr "peer_port" (.int 5000)), 0, 0⟩

/-- The static peer is added while it is connected, and its connection breaks. -/
theorem announcements_stop : ∃ st,
    run node [peerUpdate "peer_added", staticPeer, peerUpdate "peer_removed"] = some st ∧
    st.persistent_peers = [⟨"base", "10.0.0.1", 5000⟩] ∧ st.reachable_peers = [] ∧
    st.persistent_announcement_active = false ∧ ¬ Announcing node st := by
  refine ⟨⟨[], [], [⟨"base", "10.0.0.1", 5000⟩], false⟩, by decide, rfl, rfl, rfl, ?_⟩
  rw [announcing_iff_active]
  decide

end TopologyManager

end UActor
