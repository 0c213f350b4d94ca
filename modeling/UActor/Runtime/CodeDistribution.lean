import UActor.Runtime.CodeMisses
import UActor.Runtime.Replies
import UActor.Runtime.Scheduling

/-!
# The distribution of code

`code_store_actor.cpp` as a whole, in front of the code store of its node, and a network of nodes.
Messages are lost, repeated and overtaken, and anybody may publish anything but code responses.
-/

namespace UActor

/-- The code store of a node and the actor in front of it. -/
structure CodeNode where
  store : CodeStore
  actor : CodeStoreActor
  code_fetch_subscription_id : Nat

namespace CodeNode

/-- What a message comes upon: the readings of the clock, by the actor, the store and the executor,
and the number of a new subscription for requests. -/
structure Occasion where
  now : Nat → UInt32
  current_timestamp : UInt32
  scheduled : UInt32
  sub_id : Nat

def init : CodeNode := ⟨.empty, .init, 0⟩

def highPriority : SubscriptionArguments := { SubscriptionArguments.default with priority := 1 }

def localFetches (node_id : String) : Filter :=
  Filter.ofConstraints [.str "type" "code_fetch_request" .EQ false, .str "publisher_node_id" node_id
    .EQ false, .str "last_cache_miss_node_id" node_id .NE true]

def remoteFetches (node_id : String) : Filter :=
  Filter.ofConstraints [.str "type" "code_fetch_request" .EQ false, .str "last_cache_miss_node_id"
    node_id .NE true]

/-- A message type of the own node. -/
def ownMessages (node_id type : String) : Filter :=
  Filter.ofConstraints [.str "publisher_node_id" node_id .EQ false, .str "type" type .EQ false]

def nextCleanup (o : Occasion) : Call := .enqueueWakeup o.scheduled 30000 "periodic_cleanup"

section

variable (who : ActorIdentifier) (o : Occasion) (n : CodeNode) (p : Publication)

def receiveInit : CodeNode × List Call :=
  ({ n with code_fetch_subscription_id := o.sub_id },
    [.subscribe (ownMessages who.node_id "actor_code") .default,
      .subscribe (ownMessages who.node_id "actor_code_lifetime_update") .default,
      .subscribe (localFetches who.node_id) highPriority,
      .subscribe (Filter.ofConstraints [.str "type" "code_unavailable" .EQ false,
        .str "publisher_node_id" who.node_id .EQ false]) .default,
      .subscribe (Filter.ofConstraints [.str "type" "remote_fetch_control_command" .EQ false,
        .str "publisher_node_id" who.node_id .EQ false]) .default,
      nextCleanup o])

/-- A command other than the two does nothing. -/
def receiveRemoteFetchControlCommand : Option (CodeNode × List Call) :=
  if p.hasAttr "command" then
    (p.getStrAttr "command").map fun command =>
      if command = "enable" then
        ({ n with code_fetch_subscription_id := o.sub_id },
          [.unsubscribe n.code_fetch_subscription_id, .subscribe (remoteFetches who.node_id)
            highPriority])
      else if command = "disable" then
        ({ n with code_fetch_subscription_id := o.sub_id },
          [.unsubscribe n.code_fetch_subscription_id, .subscribe (localFetches who.node_id)
            highPriority])
      else (n, [])
  else some (n, [])

/-- The store is changed, and nothing is published. -/
def stored (store : Option CodeStore) : Option (CodeNode × List Call) :=
  store.map fun store => ({ n with store := store }, [])

/-- The actor changed, and what it published. -/
def published (r : Option (CodeStoreActor × List Publication)) : Option (CodeNode × List Call) :=
  r.map fun r => ({ n with actor := r.1 }, r.2.map .publish)

/-- `CodeStoreActor::receive`. -/
def receive : Option (CodeNode × List Call) :=
  if p.getStrAttr "type" = some "init" then some (receiveInit who o n)
  else if p.getStrAttr "type" = some "wakeup" ∧
      p.getStrAttr "wakeup_id" = some "periodic_cleanup" then
    (CodeStoreActor.cleanup ⟨o.now, n.store⟩ n.actor).map fun actor =>
      ({ n with actor := actor, store := n.store.cleanup o.current_timestamp }, [nextCleanup o])
  else if p.getStrAttr "type" = some "actor_code" then n.stored (n.store.receiveCodeStore p)
  else if p.getStrAttr "type" = some "actor_code_lifetime_update" then
    n.stored (n.store.receiveLifetimeUpdate p)
  else if p.getStrAttr "type" = some "code_unavailable" then
    n.published (CodeStoreActor.receiveCodeUnavailableNotification who ⟨o.now, n.store⟩ n.actor p)
  else if p.getStrAttr "type" = some "code_fetch_request" then
    n.published (CodeStoreActor.receiveCodeFetchRequest who ⟨o.now, n.store⟩ n.actor p)
  else if p.getStrAttr "type" = some "code_fetch_response" then
    n.stored (n.store.receiveCodeFetchResponse p)
  else if p.getStrAttr "type" = some "remote_fetch_control_command" then
    receiveRemoteFetchControlCommand who o n p
  else some (n, [])

end

/-! ## What a node stores and sends -/

/-- The message carries this code for this identifier. -/
inductive Carries (p : Publication) (identifier : CodeIdentifier) (code : String) : Prop where
  | package (hp : p.getStrAttr "type" = some "actor_code")
    (htype : p.getStrAttr "actor_code_type" = some identifier.type)
    (hversion : p.getStrAttr "actor_code_version" = some identifier.version)
    (hruntime : p.getStrAttr "actor_code_runtime_type" = some identifier.runtime_type)
    (hcode : p.getStrAttr "actor_code" = some code)
  | response (hp : p.getStrAttr "type" = some "code_fetch_response")
    (htype : p.getStrAttr "fetch_actor_type" = some identifier.type)
    (hversion : p.getStrAttr "fetch_actor_version" = some identifier.version)
    (hruntime : p.getStrAttr "fetch_actor_runtime_type" = some identifier.runtime_type)
    (hcode : p.getStrAttr "fetch_actor_code" = some code)

/-- The code of a packet, if it is there. -/
def content (packet : CodePacket) : Option String :=
  if packet.code_available then some packet.code else none

theorem retrieve_eq (st : CodeStore) (identifier : CodeIdentifier) :
    st.retrieve identifier = (st.find identifier).bind content :=
  rfl

@[simp] theorem content_create (lifetime_end : UInt32) (code : Option String) :
    content (.create lifetime_end code) = code := by
  cases code with
  | none => rfl
  | some code => rfl

@[simp] theorem content_addCode (packet : CodePacket) (code : Option String) :
    content (packet.addCode code) = (content packet).or code := by
  obtain ⟨lifetime_end, code_available, old⟩ := packet
  cases code with
  | none => simp [CodePacket.addCode]
  | some code =>
    cases code_available with
    | true => rfl
    | false => rfl

@[simp] theorem content_refresh (packet : CodePacket) (lifetime_end : UInt32)
    (code : Option String) :
    content (packet.refresh lifetime_end code) = (content packet).or code := by
  unfold CodePacket.refresh
  split
  · exact content_addCode _ code
  · exact content_addCode _ code

theorem retrieve_insertOrRefresh (st : CodeStore) (identifier identifier' : CodeIdentifier)
    (lifetime_end : UInt32) (new : Option String) :
    (st.insertOrRefresh identifier' lifetime_end new).retrieve identifier =
      if identifier' = identifier then (st.retrieve identifier).or new
      else st.retrieve identifier := by
  rw [retrieve_eq, retrieve_eq]
  split
  · rename_i hid
    subst hid
    rw [CodeStore.find_insertOrRefresh_self, Option.bind_some]
    cases st.find identifier' with
    | none => simp
    | some packet => simp
  · rename_i hid
    rw [CodeStore.find_insertOrRefresh_ne _ _ hid]

section

variable {st st' : CodeStore} {identifier : CodeIdentifier} {code : String} {p : Publication}

theorem of_retrieve_insertOrRefresh {identifier' : CodeIdentifier} {lifetime_end : UInt32}
    {new : Option String} (h : (st.insertOrRefresh identifier' lifetime_end new).retrieve
      identifier = some code) :
    st.retrieve identifier = some code ∨ (identifier' = identifier ∧ new = some code) := by
  rw [retrieve_insertOrRefresh] at h
  split at h
  · rename_i hid
    exact (Option.or_eq_some_iff.mp h).imp_right fun hnew => ⟨hid, hnew.2⟩
  · exact Or.inl h

theorem retrieve_cleanup {t : UInt32} (h : (st.cleanup t).retrieve identifier = some code) :
    st.retrieve identifier = some code := by
  rw [retrieve_eq, CodeStore.find_cleanup] at h
  obtain ⟨packet, hfind, hcode⟩ := Option.bind_eq_some_iff.mp h
  rw [retrieve_eq, (Option.filter_eq_some_iff.mp hfind).1]
  exact hcode

theorem receiveCodeStore_spec (hp : p.getStrAttr "type" = some "actor_code")
    (h : st.receiveCodeStore p = some st') (hcode : st'.retrieve identifier = some code) :
    st.retrieve identifier = some code ∨ Carries p identifier code := by
  unfold CodeStore.receiveCodeStore at h
  split at h
  · obtain ⟨type, htype, h⟩ := Option.bind_eq_some_iff.mp h
    obtain ⟨version, hversion, h⟩ := Option.bind_eq_some_iff.mp h
    obtain ⟨runtime_type, hruntime, h⟩ := Option.bind_eq_some_iff.mp h
    obtain ⟨lifetime_end, -, h⟩ := Option.bind_eq_some_iff.mp h
    obtain ⟨new, hnew, h⟩ := Option.bind_eq_some_iff.mp h
    rw [← Option.some.inj h] at hcode
    rcases of_retrieve_insertOrRefresh hcode with hthere | ⟨rfl, heq⟩
    · exact Or.inl hthere
    · exact Or.inr (.package hp htype hversion hruntime (hnew.trans heq))
  · rw [← Option.some.inj h] at hcode
    exact Or.inl hcode

theorem receiveLifetimeUpdate_spec (h : st.receiveLifetimeUpdate p = some st')
    (hcode : st'.retrieve identifier = some code) : st.retrieve identifier = some code := by
  unfold CodeStore.receiveLifetimeUpdate at h
  split at h
  · obtain ⟨type, -, h⟩ := Option.bind_eq_some_iff.mp h
    obtain ⟨version, -, h⟩ := Option.bind_eq_some_iff.mp h
    obtain ⟨runtime_type, -, h⟩ := Option.bind_eq_some_iff.mp h
    obtain ⟨lifetime_end, -, h⟩ := Option.bind_eq_some_iff.mp h
    rw [← Option.some.inj h] at hcode
    rcases of_retrieve_insertOrRefresh hcode with hthere | ⟨-, hnone⟩
    · exact hthere
    · cases hnone
  · rw [← Option.some.inj h] at hcode
    exact hcode

theorem receiveCodeFetchResponse_spec (hp : p.getStrAttr "type" = some "code_fetch_response")
    (h : st.receiveCodeFetchResponse p = some st') (hcode : st'.retrieve identifier = some code) :
    st.retrieve identifier = some code ∨ Carries p identifier code := by
  unfold CodeStore.receiveCodeFetchResponse at h
  split at h
  · obtain ⟨type, htype, h⟩ := Option.bind_eq_some_iff.mp h
    obtain ⟨version, hversion, h⟩ := Option.bind_eq_some_iff.mp h
    obtain ⟨new, hnew, h⟩ := Option.bind_eq_some_iff.mp h
    obtain ⟨runtime_type, hruntime, h⟩ := Option.bind_eq_some_iff.mp h
    rw [← Option.some.inj h] at hcode
    rcases of_retrieve_insertOrRefresh hcode with hthere | ⟨rfl, heq⟩
    · exact Or.inl hthere
    · exact Or.inr (.response hp htype hversion hruntime (hnew.trans heq))
  · rw [← Option.some.inj h] at hcode
    exact Or.inl hcode

end

/-- What a message does to a node: code in the store was there or is in the message, and what is
published is a request, or a response with code of the store. -/
structure Handed (who : ActorIdentifier) (n : CodeNode) (p : Publication) (n' : CodeNode)
    (calls : List Call) :
    Prop where
  store : ∀ identifier code, n'.store.retrieve identifier = some code →
    n.store.retrieve identifier = some code ∨ Carries p identifier code
  sends : ∀ q, .publish q ∈ calls →
    (∃ identifier, q = CodeStoreActor.codeFetchRequest who identifier) ∨
    ∃ identifier code node_id actor_type instance_id, n.store.retrieve identifier = some code ∧
      q = CodeStoreActor.codeFetchResponse who identifier code node_id actor_type instance_id

section

variable {who : ActorIdentifier} {o : Occasion} {n n' : CodeNode} {p : Publication}
  {calls : List Call}

theorem miss_published {env : CodeStoreActor.Surroundings} {st st' : CodeStoreActor}
    {identifier : CodeIdentifier} {ps : List Publication}
    (h : CodeStoreActor.miss who env st identifier = some (st', ps)) {q : Publication}
    (hq : q ∈ ps) : q = CodeStoreActor.codeFetchRequest who identifier := by
  obtain ⟨debounce, -, h⟩ := Option.map_eq_some_iff.mp h
  split at h
  · rw [← (Prod.mk.inj h).2] at hq
    exact List.mem_singleton.mp hq
  · split at h
    · rw [← (Prod.mk.inj h).2] at hq
      exact List.mem_singleton.mp hq
    · rw [← (Prod.mk.inj h).2] at hq
      cases hq

theorem receiveCodeUnavailableNotification_published {env : CodeStoreActor.Surroundings}
    {st st' : CodeStoreActor} {ps : List Publication}
    (h : CodeStoreActor.receiveCodeUnavailableNotification who env st p = some (st', ps))
    {q : Publication} (hq : q ∈ ps) :
    ∃ identifier, q = CodeStoreActor.codeFetchRequest who identifier := by
  unfold CodeStoreActor.receiveCodeUnavailableNotification at h
  split at h
  · obtain ⟨type, -, h⟩ := Option.bind_eq_some_iff.mp h
    obtain ⟨version, -, h⟩ := Option.bind_eq_some_iff.mp h
    obtain ⟨runtime_type, -, h⟩ := Option.bind_eq_some_iff.mp h
    exact ⟨_, miss_published h hq⟩
  · rw [← (Prod.mk.inj (Option.some.inj h)).2] at hq
    cases hq

theorem receiveCodeFetchRequest_published {env : CodeStoreActor.Surroundings}
    {st st' : CodeStoreActor} {ps : List Publication}
    (h : CodeStoreActor.receiveCodeFetchRequest who env st p = some (st', ps)) {q : Publication}
    (hq : q ∈ ps) : (∃ identifier, q = CodeStoreActor.codeFetchRequest who identifier) ∨
      ∃ identifier code node_id actor_type instance_id, env.store.retrieve identifier = some code ∧
        q = CodeStoreActor.codeFetchResponse who identifier code node_id actor_type
          instance_id := by
  unfold CodeStoreActor.receiveCodeFetchRequest at h
  split at h
  · obtain ⟨type, -, h⟩ := Option.bind_eq_some_iff.mp h
    obtain ⟨version, -, h⟩ := Option.bind_eq_some_iff.mp h
    obtain ⟨runtime_type, -, h⟩ := Option.bind_eq_some_iff.mp h
    split at h
    · rename_i code hcode
      obtain ⟨node_id, -, h⟩ := Option.bind_eq_some_iff.mp h
      obtain ⟨actor_type, -, h⟩ := Option.bind_eq_some_iff.mp h
      obtain ⟨instance_id, -, h⟩ := Option.bind_eq_some_iff.mp h
      rw [← (Prod.mk.inj (Option.some.inj h)).2] at hq
      exact Or.inr ⟨_, code, node_id, actor_type, instance_id, hcode, List.mem_singleton.mp hq⟩
    · exact Or.inl ⟨_, miss_published h hq⟩
  · rw [← (Prod.mk.inj (Option.some.inj h)).2] at hq
    cases hq

theorem Handed.silent (hstore : ∀ identifier code, n'.store.retrieve identifier = some code →
      n.store.retrieve identifier = some code ∨ Carries p identifier code)
    (hcalls : ∀ q, .publish q ∉ calls) : Handed who n p n' calls :=
  ⟨hstore, fun q hq => absurd hq (hcalls q)⟩

theorem Handed.stored {store : Option CodeStore} (h : n.stored store = some (n', calls))
    (hstore : ∀ st, store = some st → ∀ identifier code, st.retrieve identifier = some code →
      n.store.retrieve identifier = some code ∨ Carries p identifier code) :
      Handed who n p n' calls := by
  obtain ⟨st, hst, heq⟩ := Option.map_eq_some_iff.mp h
  obtain ⟨rfl, rfl⟩ := Prod.mk.inj heq
  exact .silent (hstore st hst) (by simp)

theorem Handed.published {r : Option (CodeStoreActor × List Publication)}
    (h : n.published r = some (n', calls))
    (hr : ∀ st ps, r = some (st, ps) →
      ∀ q ∈ ps, (∃ identifier, q = CodeStoreActor.codeFetchRequest who identifier) ∨
      ∃ identifier code node_id actor_type instance_id, n.store.retrieve identifier = some code ∧
        q = CodeStoreActor.codeFetchResponse who identifier code node_id actor_type instance_id) :
    Handed who n p n' calls := by
  obtain ⟨⟨st, ps⟩, hst, heq⟩ := Option.map_eq_some_iff.mp h
  obtain ⟨rfl, rfl⟩ := Prod.mk.inj heq
  refine ⟨fun _ _ hcode => Or.inl hcode, fun q hq => ?_⟩
  obtain ⟨q', hq', heq'⟩ := List.mem_map.mp hq
  obtain rfl : q' = q := Call.publish.inj heq'
  exact hr st ps hst q' hq'

theorem command_same (h : receiveRemoteFetchControlCommand who o n p = some (n', calls)) :
    n'.store = n.store ∧ n'.actor = n.actor ∧ ∀ q, .publish q ∉ calls := by
  unfold receiveRemoteFetchControlCommand at h
  split at h
  · obtain ⟨command, -, heq⟩ := Option.map_eq_some_iff.mp h
    split at heq
    · obtain ⟨rfl, rfl⟩ := Prod.mk.inj heq
      exact ⟨rfl, rfl, by simp⟩
    · split at heq
      · obtain ⟨rfl, rfl⟩ := Prod.mk.inj heq
        exact ⟨rfl, rfl, by simp⟩
      · obtain ⟨rfl, rfl⟩ := Prod.mk.inj heq
        exact ⟨rfl, rfl, by simp⟩
  · obtain ⟨rfl, rfl⟩ := Prod.mk.inj (Option.some.inj h)
    exact ⟨rfl, rfl, by simp⟩

theorem receive_handed (h : receive who o n p = some (n', calls)) : Handed who n p n' calls := by
  unfold receive at h
  split at h
  · obtain ⟨rfl, rfl⟩ := Prod.mk.inj (Option.some.inj h)
    exact .silent (fun _ _ hcode => Or.inl hcode) (by simp [nextCleanup])
  · split at h
    · obtain ⟨actor, -, heq⟩ := Option.map_eq_some_iff.mp h
      obtain ⟨rfl, rfl⟩ := Prod.mk.inj heq
      exact .silent (fun _ _ hcode => Or.inl (retrieve_cleanup hcode)) (by simp [nextCleanup])
    · split at h
      · rename_i hp
        exact .stored h fun st hst identifier code hcode => receiveCodeStore_spec hp hst hcode
      · split at h
        · exact .stored h fun st hst identifier code hcode =>
            Or.inl (receiveLifetimeUpdate_spec hst hcode)
        · split at h
          · exact .published h fun st ps hst q hq =>
              Or.inl (receiveCodeUnavailableNotification_published hst hq)
          · split at h
            · exact .published h fun st ps hst q hq => receiveCodeFetchRequest_published hst hq
            · split at h
              · rename_i hp
                exact .stored h fun st hst identifier code hcode => receiveCodeFetchResponse_spec hp
                  hst hcode
              · split at h
                · obtain ⟨hstore, -, hcalls⟩ := command_same h
                  exact .silent (fun _ _ hcode => Or.inl (hstore ▸ hcode)) hcalls
                · obtain ⟨rfl, rfl⟩ := Prod.mk.inj (Option.some.inj h)
                  exact .silent (fun _ _ hcode => Or.inl hcode) (by simp)

end

end CodeNode

/-! ## The network -/

/-- All nodes, and what was published so far. -/
structure CodeNetwork where
  nodes : String → CodeNode
  sent : List Publication

namespace CodeNetwork

/-- The attributes that the handling of code reads. Routers and connections write others. -/
def carried : List String :=
  ["type", "actor_code_type", "actor_code_version", "actor_code_runtime_type", "actor_code",
    "fetch_actor_type", "fetch_actor_version", "fetch_actor_runtime_type", "fetch_actor_code"]

/-- A message on its way. -/
def underway (p q : Publication) : Bool :=
  carried.all fun name => q.getStrAttr name == p.getStrAttr name

/-- The message of `code_unavailable_hook`. -/
def codeUnavailable (node_id : String) (identifier : CodeIdentifier) : Publication :=
  ((((Publication.ofPublisher node_id "code_store" "1").setAttr "type"
    (.str "code_unavailable")).setAttr "unavailable_actor_type" (.str identifier.type)).setAttr
      "unavailable_actor_version"
    (.str identifier.version)).setAttr "unavailable_actor_runtime_type"
      (.str identifier.runtime_type)

inductive Event where
  /-- Anything but a code response, from any actor. -/
  | publish (p : Publication)
  /-- The deployment manager writes to the store of its node. -/
  | push (node_id : String) (identifier : CodeIdentifier) (lifetime_end : UInt32)
      (code : Option String)
  /-- An actor looks for its code. -/
  | retrieve (node_id : String) (identifier : CodeIdentifier)
  /-- The executor sends a message of its own: the first one, or a wakeup. -/
  | executor (node_id : String) (o : CodeNode.Occasion) (p : Publication)
  /-- The actor in front of a store gets `q`, which was published as the message `i`. -/
  | deliver (node_id : String) (o : CodeNode.Occasion) (i : Nat) (q : Publication)

/-- The actor that `LaunchUtils` spawns. -/
def codeStore (node_id : String) : ActorIdentifier := ⟨node_id, "code_store", "0"⟩

def init : CodeNetwork := ⟨fun _ => .init, []⟩

def setNode (net : CodeNetwork) (node_id : String) (n : CodeNode) : CodeNetwork :=
  { net with nodes := fun id => if id = node_id then n else net.nodes id }

def outgoing (who : ActorIdentifier) (calls : List Call) : List Publication :=
  calls.filterMap fun c =>
    match c with
    | .publish p => some (ManagedActor.publish who p)
    | _ => none

/-- The actor in front of a store handles a message. -/
def handle (net : CodeNetwork) (node_id : String) (o : CodeNode.Occasion) (p : Publication) :
    Option CodeNetwork :=
  ((net.nodes node_id).receive (codeStore node_id) o p).map fun r =>
    { net.setNode node_id r.1 with sent := net.sent ++ outgoing (codeStore node_id) r.2 }

def step (net : CodeNetwork) : Event → Option CodeNetwork
  | .publish p =>
    if p.getStrAttr "type" = some "code_fetch_response" then none else some { net with sent := net.sent ++ [p] }
  | .push node_id identifier lifetime_end code =>
    let n := net.nodes node_id
    some (net.setNode node_id { n with store := n.store.insertOrRefresh identifier lifetime_end code })
  | .retrieve node_id identifier =>
    if ((net.nodes node_id).store.retrieve identifier).isSome then some net
    else some { net with sent := net.sent ++ [codeUnavailable node_id identifier] }
  | .executor node_id o p =>
    if p.getStrAttr "type" = some "init" ∨ p.getStrAttr "type" = some "wakeup" then net.handle node_id o p else none
  | .deliver node_id o i q =>
    net.sent[i]?.bind fun p => if underway p q then net.handle node_id o q else none

def run (events : List Event) : Option CodeNetwork := events.foldlM step init

/-- This code was deployed under this identifier. -/
inductive Deployed (events : List Event) (identifier : CodeIdentifier) (code : String) : Prop where
  | published {p : Publication} (hp : .publish p ∈ events)
      (hcarries : CodeNode.Carries p identifier code)
  | pushed {node_id : String} {lifetime_end : UInt32}
      (hp : .push node_id identifier lifetime_end (some code) ∈ events)

/-! ## Runs -/

section

variable {D : CodeIdentifier → String → Prop} {net net' : CodeNetwork}

/-- Responses have a name for their code, and what is stored or sent is as `D` says. -/
structure Sound (D : CodeIdentifier → String → Prop) (net : CodeNetwork) : Prop where
  stores : ∀ node_id identifier code, (net.nodes node_id).store.retrieve identifier = some code →
    D identifier code
  sent : ∀ p ∈ net.sent, ∀ identifier code, CodeNode.Carries p identifier code → D identifier code
  named : ∀ p ∈ net.sent, p.getStrAttr "type" = some "code_fetch_response" →
    ∃ identifier code, CodeNode.Carries p identifier code

theorem getStrAttr_underway {p q : Publication} {name : String} (h : underway p q = true)
    (hname : name ∈ carried) :
    q.getStrAttr name = p.getStrAttr name := by
  simpa using List.all_eq_true.mp h name hname

theorem carries_underway {p q : Publication} {identifier : CodeIdentifier} {code : String}
    (h : underway p q = true) (hcarries : CodeNode.Carries q identifier code) :
    CodeNode.Carries p identifier code := by
  have hsame : ∀ {name value : String}, name ∈ carried → q.getStrAttr name = some value →
      p.getStrAttr name = some value :=
    fun hname hvalue => (getStrAttr_underway h hname).symm.trans hvalue
  cases hcarries with
  | package hp htype hversion hruntime hcode =>
    exact .package (hsame (by decide) hp) (hsame (by decide) htype) (hsame (by decide) hversion)
      (hsame (by decide) hruntime) (hsame (by decide) hcode)
  | response hp htype hversion hruntime hcode =>
    exact .response (hsame (by decide) hp) (hsame (by decide) htype) (hsame (by decide) hversion)
      (hsame (by decide) hruntime) (hsame (by decide) hcode)

theorem getStrAttr_setAttr (p : Publication) (name name' v : String) :
    (p.setAttr name' (.str v)).getStrAttr name =
      if name' = name then some v else p.getStrAttr name := by
  split
  · rename_i h
    rw [h, Publication.getStrAttr_setAttr_self]
  · rename_i h
    rw [Publication.getStrAttr_setAttr_ne p h]

theorem getStrAttr_publish {who : ActorIdentifier} {p : Publication} {name : String}
    (h : name.toList.head? ≠ some 'p') :
    (ManagedActor.publish who p).getStrAttr name = p.getStrAttr name :=
  Replies.getStrAttr_congr (Replies.getAttr_publish h)

theorem carries_response (who : ActorIdentifier) (identifier : CodeIdentifier)
    (code node_id actor_type instance_id : String) :
    CodeNode.Carries (ManagedActor.publish who
      (CodeStoreActor.codeFetchResponse who identifier code node_id actor_type instance_id))
        identifier code := by
  refine .response ?_ ?_ ?_ ?_ ?_
  all_goals
    rw [getStrAttr_publish (by decide)]
    simp [CodeStoreActor.codeFetchResponse, getStrAttr_setAttr]

theorem type_request (who : ActorIdentifier) (identifier : CodeIdentifier) :
    (ManagedActor.publish who (CodeStoreActor.codeFetchRequest who identifier)).getStrAttr "type" =
      some "code_fetch_request" := by
  rw [getStrAttr_publish (by decide)]
  simp [CodeStoreActor.codeFetchRequest, getStrAttr_setAttr]

theorem type_codeUnavailable (node_id : String) (identifier : CodeIdentifier) :
    (codeUnavailable node_id identifier).getStrAttr "type" = some "code_unavailable" := by
  simp [codeUnavailable, getStrAttr_setAttr]

theorem carries_unique {p : Publication} {identifier identifier' : CodeIdentifier}
    {code code' : String} (h : CodeNode.Carries p identifier code)
    (h' : CodeNode.Carries p identifier' code') :
    identifier = identifier' ∧ code = code' := by
  obtain ⟨type, version, runtime_type⟩ := identifier
  obtain ⟨type', version', runtime_type'⟩ := identifier'
  cases h with
  | package hp htype hversion hruntime hcode =>
    cases h' with
    | package hp' htype' hversion' hruntime' hcode' => simp_all
    | response hp' => simp [hp] at hp'
  | response hp htype hversion hruntime hcode =>
    cases h' with
    | package hp' => simp [hp] at hp'
    | response hp' htype' hversion' hruntime' hcode' => simp_all

theorem not_carries {p : Publication} {type : String} (hp : p.getStrAttr "type" = some type)
    (hpackage : type ≠ "actor_code") (hresponse : type ≠ "code_fetch_response")
    {identifier : CodeIdentifier} {code : String} : ¬ CodeNode.Carries p identifier code := by
  intro h
  cases h with
  | package hp' => exact hpackage (Option.some.inj (hp.symm.trans hp'))
  | response hp' => exact hresponse (Option.some.inj (hp.symm.trans hp'))

theorem Sound.send (h : Sound D net) {qs : List Publication}
    (hcarries : ∀ q ∈ qs, ∀ identifier code, CodeNode.Carries q identifier code → D identifier code)
    (hnamed : ∀ q ∈ qs, q.getStrAttr "type" = some "code_fetch_response" →
      ∃ identifier code, CodeNode.Carries q identifier code) :
      Sound D { net with sent := net.sent ++ qs } := by
  refine ⟨h.stores, fun p hp => ?_, fun p hp => ?_⟩
  · rcases List.mem_append.mp hp with hp | hp
    · exact h.sent p hp
    · exact hcarries p hp
  · rcases List.mem_append.mp hp with hp | hp
    · exact h.named p hp
    · exact hnamed p hp

theorem Sound.setNode (h : Sound D net) (node_id : String) {n : CodeNode}
    (hn : ∀ identifier code, n.store.retrieve identifier = some code → D identifier code) :
    Sound D (net.setNode node_id n) := by
  refine ⟨fun id identifier code hcode => ?_, h.sent, h.named⟩
  simp only [CodeNetwork.setNode] at hcode
  split at hcode
  · exact hn identifier code hcode
  · exact h.stores id identifier code hcode

theorem Sound.handle (h : Sound D net) {node_id : String} {o : CodeNode.Occasion} {p : Publication}
    (hp : ∀ identifier code, CodeNode.Carries p identifier code → D identifier code)
    (hstep : net.handle node_id o p = some net') : Sound D net' := by
  obtain ⟨⟨n, calls⟩, hreceive, rfl⟩ := Option.map_eq_some_iff.mp hstep
  have hhanded := CodeNode.receive_handed hreceive
  have hnode := h.setNode node_id fun identifier code hcode =>
    (hhanded.store identifier code hcode).elim (h.stores node_id identifier code)
      (hp identifier code)
  have hsends : ∀ q ∈ outgoing (codeStore node_id) calls, q.getStrAttr "type" =
      some "code_fetch_request" ∨
      ∃ identifier code, CodeNode.Carries q identifier code ∧ D identifier code := by
    intro q hq
    obtain ⟨c, hc, hpublish⟩ := List.mem_filterMap.mp hq
    cases c with
    | publish q' =>
      obtain rfl := Option.some.inj hpublish
      rcases hhanded.sends q' hc with ⟨identifier, rfl⟩ | ⟨identifier, code, _, actor_type,
          instance_id, hcode, rfl⟩
      · exact Or.inl (type_request _ identifier)
      · exact Or.inr ⟨identifier, code, carries_response .., h.stores _ identifier code hcode⟩
    | subscribe | unsubscribe | addReplySubscription | defferedBlockFor | triggerCodeFetch
    | republish | delayedPublish |
      enqueueWakeup => cases hpublish
  refine hnode.send (fun q hq identifier code hcarries => ?_) (fun q hq hresponse => ?_)
  · rcases hsends q hq with hrequest | ⟨identifier', code', hcarries', hD⟩
    · exact absurd hcarries (not_carries hrequest (by decide) (by decide))
    · obtain ⟨rfl, rfl⟩ := carries_unique hcarries hcarries'
      exact hD
  · rcases hsends q hq with hrequest | ⟨identifier', code', hcarries', -⟩
    · rw [hrequest] at hresponse
      exact absurd (Option.some.inj hresponse) (by decide)
    · exact ⟨identifier', code', hcarries'⟩

/-- A step keeps it so, if what it publishes or pushes is as `D` says. -/
theorem Sound.step (h : Sound D net) {ev : Event}
    (hpublish : ∀ p, ev = .publish p → ∀ identifier code, CodeNode.Carries p identifier code → D identifier code)
    (hpush : ∀ node_id identifier lifetime_end code, ev = .push node_id identifier lifetime_end (some code) →
      D identifier code) (hstep : net.step ev = some net') : Sound D net' := by
  cases ev with
  | publish p =>
    simp only [CodeNetwork.step] at hstep
    split at hstep
    · cases hstep
    · rename_i hother
      rw [← Option.some.inj hstep]
      refine h.send ?_ ?_
      · rintro q hq
        rw [List.mem_singleton.mp hq]
        exact hpublish p rfl
      · rintro q hq hresponse
        rw [List.mem_singleton.mp hq] at hresponse
        exact absurd hresponse hother
  | push node_id identifier lifetime_end new =>
    rw [← Option.some.inj hstep]
    refine h.setNode node_id fun identifier' code hcode => ?_
    rcases CodeNode.of_retrieve_insertOrRefresh hcode with hthere | ⟨rfl, rfl⟩
    · exact h.stores node_id identifier' code hthere
    · exact hpush node_id identifier lifetime_end code rfl
  | retrieve node_id identifier =>
    simp only [CodeNetwork.step] at hstep
    split at hstep
    · rw [← Option.some.inj hstep]
      exact h
    · rw [← Option.some.inj hstep]
      refine h.send ?_ ?_
      · rintro q hq identifier' code hcarries
        rw [List.mem_singleton.mp hq] at hcarries
        exact absurd hcarries (not_carries (type_codeUnavailable node_id identifier) (by decide) (by decide))
      · rintro q hq hresponse
        rw [List.mem_singleton.mp hq, type_codeUnavailable] at hresponse
        exact absurd (Option.some.inj hresponse) (by decide)
  | executor node_id o p =>
    simp only [CodeNetwork.step] at hstep
    split at hstep
    · rename_i htype
      refine h.handle (fun identifier code hcarries => absurd hcarries ?_) hstep
      rcases htype with htype | htype
      · exact not_carries htype (by decide) (by decide)
      · exact not_carries htype (by decide) (by decide)
    · cases hstep
  | deliver node_id o i q =>
    obtain ⟨p, hp, hstep⟩ := Option.bind_eq_some_iff.mp hstep
    split at hstep
    · rename_i hunderway
      exact h.handle (fun identifier code hcarries =>
        h.sent p (List.mem_of_getElem? hp) identifier code (carries_underway hunderway hcarries)) hstep
    · cases hstep

theorem sound_run {events : List Event} (hrun : run events = some net) :
    Sound (Deployed events) net := by
  refine Runs.invariant_of (Sound (Deployed events)) (fun _ ev => ev ∈ events) ?_ ?_ ?_ hrun
  · refine ⟨fun node_id identifier code hcode => ?_, fun p hp => ?_, fun p hp => ?_⟩
    · cases hcode
    · cases hp
    · cases hp
  · intro net ev net' h hmem hstep
    refine h.step ?_ ?_ hstep
    · rintro p rfl identifier code hcarries
      exact .published hmem hcarries
    · rintro node_id identifier lifetime_end code rfl
      exact .pushed hmem
  · rintro pre ev post before rfl -
    simp

/-- No code but what was deployed: a store holds code only under an identifier under which it was
deployed, and an actor starts only with code that was deployed for its type. -/
theorem code_was_deployed {events : List Event} (hrun : run events = some net) :
    (∀ node_id identifier code, (net.nodes node_id).store.retrieve identifier = some code →
      Deployed events identifier code) ∧
    ∀ p ∈ net.sent, ∀ q, underway p q = true → ∀ (actor : ManagedActor) (code : String),
      Executor.carriesCode actor q = true →
        q.getStrAttr "fetch_actor_type" = some actor.identifier.actor_type →
      q.getStrAttr "fetch_actor_code" = some code →
      ∃ version runtime_type, Deployed events ⟨actor.identifier.actor_type, version, runtime_type⟩
        code := by
  have hsound := sound_run hrun
  refine ⟨hsound.stores, ?_⟩
  intro p hp q hunderway actor code hcode hactor hfetched
  have hresponse := (getStrAttr_underway hunderway (by decide)).symm.trans
    (Executor.type_of_carriesCode hcode)
  obtain ⟨⟨type, version, runtime_type⟩, code', hcarries⟩ := hsound.named p hp hresponse
  have hdeployed := hsound.sent p hp _ _ hcarries
  cases hcarries with
  | package hpackage =>
    rw [hpackage] at hresponse
    exact absurd (Option.some.inj hresponse) (by decide)
  | response _ htype _ _ hcarried =>
    rw [← getStrAttr_underway hunderway (by decide), hactor] at htype
    rw [← getStrAttr_underway hunderway (by decide), hfetched] at hcarried
    obtain rfl := Option.some.inj htype
    obtain rfl := Option.some.inj hcarried
    exact ⟨version, runtime_type, hdeployed⟩

end

def sensorCode : CodeIdentifier := ⟨"sensor", "1", "lua"⟩

/-- At one time, with no new subscription. -/
def atTime (t : UInt32) : CodeNode.Occasion := ⟨fun _ => t, t, t, 0⟩

/-- The code is deployed on one node, missed on another one, asked for, and handed over. -/
def fetched : List Event :=
  [.publish (CodeStore.codePackage 0), .deliver "b" (atTime 5) 0 (CodeStore.codePackage 0),
    .retrieve "a" sensorCode, .deliver "a" (atTime 5) 1 (codeUnavailable "a" sensorCode),
    .deliver "b" (atTime 5) 2
      (ManagedActor.publish (codeStore "a") (CodeStoreActor.codeFetchRequest (codeStore "a")
        sensorCode)),
    .deliver "a" (atTime 6) 3 (ManagedActor.publish (codeStore "b")
      (CodeStoreActor.codeFetchResponse (codeStore "b") sensorCode "code" "a" "code_store" "0"))]

/-- The response, as the code store of `b` published it. -/
def response : Publication :=
  ManagedActor.publish (codeStore "b") (CodeStoreActor.codeFetchResponse (codeStore "b") sensorCode
    "code" "a" "code_store" "0")

theorem code_was_deployed_fetched :
    ∃ net, run fetched = some net ∧ (net.nodes "a").store.retrieve sensorCode = some "code" ∧
      Deployed fetched sensorCode "code" ∧ response ∈ net.sent ∧
      Executor.carriesCode (ManagedActor.create 1 ⟨"b", "sensor", "1"⟩ "1") response = true ∧
      ∃ version runtime_type, Deployed fetched ⟨"sensor", version, runtime_type⟩ "code" := by
  obtain ⟨net, hrun, hcode, hsent⟩ : ∃ net, run fetched = some net ∧
      (net.nodes "a").store.retrieve sensorCode = some "code" ∧ net.sent[3]? = some response := ⟨_, rfl, rfl, rfl⟩
  obtain ⟨hstores, hactors⟩ := code_was_deployed hrun
  have hmem := List.mem_of_getElem? hsent
  exact ⟨net, hrun, hcode, hstores "a" sensorCode "code" hcode, hmem, by decide,
    hactors response hmem response (by decide) (ManagedActor.create 1 ⟨"b", "sensor", "1"⟩ "1") "code" (by decide)
      (by decide) (by decide)⟩

end CodeNetwork

end UActor
