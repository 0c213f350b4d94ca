import UActor.Runtime.ManagedActor

/-!
# The executor

`executor.hpp`, with the functions of `managed_actor.cpp` that call it. What the code of the actors
does is an input: any calls, in any order, with any arguments.
-/

namespace UActor

/-- `Executor::Timeout`. -/
structure Timeout where
  timeout : UInt32
  actor_id : UInt32
  user_defined : Bool
  trigger_id : String
deriving DecidableEq, Repr

namespace Timeout

/-- `Timeout::operator<`. -/
def before (t other : Timeout) : Bool :=
  if other.timeout ≠ t.timeout then t.timeout < other.timeout
  else if other.actor_id ≠ t.actor_id then t.actor_id < other.actor_id
  else if other.user_defined ≠ t.user_defined then !t.user_defined && other.user_defined
  else t.trigger_id < other.trigger_id

def emplace (t : Timeout) (timeouts : List Timeout) : List Timeout :=
  if t ∈ timeouts then timeouts
  else timeouts.takeWhile (fun u => u.before t) ++ t :: timeouts.dropWhile (fun u => u.before t)

end Timeout

/-- The names of the executor, the runtime of its actors and the options of the build. -/
structure ExecutorSettings where
  board : Board
  identifier : ActorIdentifier
  actor_runtime_type : String
  /-- `CONFIG_UACTOR_HIBERNATION`. -/
  hibernation : Bool
  /-- `UACTOR_EXPERIMENTAL_REPLY_SUB_OPTIONAL`. -/
  reply_sub_optional : Bool

/-- `router_handle` is the receiver of the executor in the hub, which other receivers use too. -/
structure Executor where
  hub : Hub
  router_handle : Nat
  actors : List (UInt32 × ManagedActor)
  next_id : UInt32
  subscription_mapping : List (Nat × List UInt32)
  ready_queue : List UInt32
  timeouts : List Timeout
  delayed_messages : List (UInt32 × Publication)
  executor_subscription_id : Nat
  /-- What was passed to `Router::publish` so far. -/
  published : List Publication

namespace Executor

variable (cfg : ExecutorSettings)

/-- The filter for what is addressed to one actor. -/
def addressOf (who : ActorIdentifier) : Filter :=
  Filter.ofConstraints [.str "node_id" who.node_id .EQ false, .str "actor_type" who.actor_type
    .EQ false, .str "instance_id" who.instance_id .EQ false]

/-- The constructor of the executor. It makes a new receiver. -/
def create (hub : Hub) (handle : Nat) : Option Executor :=
  (hub.step cfg.board (.create handle)).map fun hub =>
    let subscribed := hub.subscribe cfg.board handle
      (addressOf cfg.identifier) cfg.identifier cfg.board.NODE_ID .default
    ⟨subscribed.1, handle, [], 1, [], [], [], [], subscribed.2, []⟩

/-! ## The `ExecutorApi` -/

def addSubscription (e : Executor) (local_id : UInt32) (f : Filter)
    (arguments : SubscriptionArguments) :
    Executor × Nat :=
  match Assoc.find local_id e.actors with
  | none => (e, 0)
  | some actor =>
    let subscribed := e.hub.subscribe cfg.board e.router_handle f actor.identifier
      cfg.identifier.node_id arguments
    ({ e with
       hub := subscribed.1
       subscription_mapping := Multimap.insert subscribed.2 local_id e.subscription_mapping },
         subscribed.2)

def removeSubscription (e : Executor) (local_id : UInt32) (sub_id : Nat) : Executor :=
  let removed := Multimap.remove sub_id local_id e.subscription_mapping
  { e with
    hub := if removed.2 then e.hub.unsubscribe cfg.board e.router_handle sub_id "" else e.hub
    subscription_mapping := removed.1 }

def delayedPublish (e : Executor) (now : UInt32) (p : Publication) (delay : UInt32) : Executor :=
  { e with
    delayed_messages := e.delayed_messages.takeWhile (fun d => d.1 ≤ now + delay) ++
      (now + delay, p) :: e.delayed_messages.dropWhile (fun d => d.1 ≤ now + delay) }

def enqueueWakeup (e : Executor) (now : UInt32) (actor_id delay : UInt32) (wakeup_id : String) :
    Executor :=
  { e with timeouts := Timeout.emplace ⟨now + delay, actor_id, true, wakeup_id⟩ e.timeouts }

def publish (e : Executor) (p : Publication) : Executor :=
  { e with published := e.published ++ [p] }

/-! ## Actors that run

While an actor runs it is apart from the table, which holds it as it was before. -/

abbrev Frame := ManagedActor × Executor

def subscribe (s : Frame) (f : Filter) (arguments : SubscriptionArguments) : Frame :=
  let added := s.2.addSubscription cfg s.1.id f arguments
  ({ s.1 with subscriptions := Multimap.insertInto added.2 s.1.subscriptions }, added.1)

/-- One call of the code of an actor. -/
def call (s : Frame) : Call → Frame
  | .subscribe f arguments => subscribe cfg s f arguments
  | .unsubscribe sub_id =>
    ({ s.1 with subscriptions := s.1.subscriptions.filter fun x => x ≠ sub_id },
      s.2.removeSubscription cfg s.1.id sub_id)
  | .addReplySubscription => subscribe cfg s (addressOf s.1.identifier) .default
  | .defferedBlockFor f timeout => (s.1.defferedBlockFor f timeout, s.2)
  | .triggerCodeFetch =>
    ({ s.1 with waiting_for_code := true }.defferedBlockFor
        (Filter.ofConstraints [.str "type" "code_fetch_response" .EQ false]) 1000,
      s.2.publish (ManagedActor.publish s.1.identifier
        (s.1.codeFetchRequest cfg.actor_runtime_type)))
  | .publish p => (s.1, s.2.publish (ManagedActor.publish s.1.identifier p))
  | .republish p =>
    (s.1, s.2.publish (((p.setAttr "processor_node_id" (.str s.1.identifier.node_id)).setAttr
      "processor_instance_id" (.str s.1.identifier.instance_id)).setAttr "processor_actor_type"
        (.str s.1.identifier.actor_type)))
  | .delayedPublish now p delay => (s.1, s.2.delayedPublish now p delay)
  | .enqueueWakeup now delay wakeup_id => (s.1, s.2.enqueueWakeup now s.1.id delay wakeup_id)

def perform (s : Frame) (calls : List Call) : Frame := calls.foldl (call cfg) s

/-- `ManagedActor::~ManagedActor`. -/
def release (e : Executor) (actor : ManagedActor) : Executor :=
  actor.subscriptions.foldl (fun e sub_id => e.removeSubscription cfg actor.id sub_id) e

/-! ## Messages for an actor -/

/-- What the handling of a message led to: whether `receive_next_internal` returns at once, and what
the `receive` function of the actor got. -/
structure Handled where
  frame : Frame
  ret : RuntimeReturnValue
  returns : Bool
  passed : Option Publication

def lateInitialize (s : Frame) (r : Reaction) : Handled :=
  let s := perform cfg s r.calls
  if r.result = .OK then ⟨({ s.1 with initialized := true }, s.2), .OK, false, none⟩
  else ⟨({ s.1 with initialized := false }, s.2.publish (s.1.exitMessage "initialization_failure")),
    .INITIALIZATION_ERROR, false, none⟩

/-- A message with code. The names in it are read even for the log. -/
def handleCode (s : Frame) (b : Behaviour) (p : Publication) : Option Handled :=
  if s.1.initialized then some ⟨s, .NONE, false, none⟩
  else
    let s : Frame := ({ s.1 with waiting_for_code := false }, s.2)
    if p.getStrAttr "fetch_actor_type" = some s.1.identifier.actor_type then
      (p.getStrAttr "fetch_actor_code").map fun _ => lateInitialize cfg s b.late
    else (p.getStrAttr "fetch_actor_type").map fun _ => ⟨s, .NONE, false, none⟩

/-- A timeout of an actor that waits for its code. -/
def retryCode (s : Frame) : Handled :=
  if s.1.code_fetch_retries < 20 then
    let s := call cfg s .triggerCodeFetch
    ⟨({ s.1 with code_fetch_retries := s.1.code_fetch_retries + 1 }, s.2), .NONE, true, none⟩
  else ⟨s, .INITIALIZATION_ERROR, false, none⟩

/-- `ManagedActor::wakeup`. -/
def wakeup (s : Frame) (r : Reaction) : Frame :=
  let s := perform cfg s r.calls
  ({ s.1 with initialized := s.1.initialized || decide (r.result = .OK) }, s.2)

/-- The object that `receive` gets. -/
def content (p : Publication) : Option Publication :=
  if p.getStrAttr "type" = some "__unicast_wrapper" then p.unwrap else some p

/-- The call of `receive`. An actor cannot say that it is not ready. -/
def receive (s : Frame) (b : Behaviour) (p : Publication) : Option Handled :=
  if p.repliable then
    (content p).map fun passed =>
      let s := perform cfg s b.receive.calls
      let s : Frame := ({ s.1 with initialized := s.1.initialized &&
        !(cfg.hibernation && b.hibernates) }, s.2)
      ⟨s, if b.receive.result = .NOT_READY then .RUNTIME_ERROR else b.receive.result, false,
        some passed⟩
  else none

/-- Any other message wakes the actor up if it sleeps. -/
def handleMessage (s : Frame) (b : Behaviour) (p : Publication) : Option Handled :=
  if s.1.initialized then receive cfg s b p
  else
    let s := wakeup cfg s b.wakeup
    match b.wakeup.result with
    | .NONE | .OK => receive cfg s b p
    | .NOT_READY =>
      some ⟨({ s.1 with message_queue := p :: s.1.message_queue }, s.2), .NOT_READY, false, none⟩
    | ret => some ⟨s, ret, false, none⟩

def carriesCode (actor : ManagedActor) (p : Publication) : Bool :=
  p.getStrAttr "type" == some "code_fetch_response" && actor.identifier.actor_type != "code_store"

def handle (s : Frame) (b : Behaviour) (p : Publication) : Option Handled :=
  if carriesCode s.1 p then handleCode cfg s b p
  else if p.getStrAttr "type" = some "timeout" ∧ s.1.waiting_for_code = true then
    some (retryCode cfg s)
  else handleMessage cfg s b p

/-- `ManagedActor::ReceiveResult`, and the message that `receive` got. -/
structure Received where
  frame : Frame
  exit : Bool
  next_timeout : UInt32
  passed : Option Publication

/-- The end of `receive_next_internal`. -/
def finish (p : Publication) (h : Handled) : Received :=
  if h.returns then ⟨h.frame, false, h.frame.1.timeout, h.passed⟩
  else if h.ret = .INITIALIZATION_ERROR ∨ h.ret = .RUNTIME_ERROR ∨ ManagedActor.isExit p = true then
    let reason := match h.ret with
      | .OK => "clean_exit"
      | .INITIALIZATION_ERROR => "initialization_failure"
      | .NONE | .NOT_READY | .RUNTIME_ERROR => "runtime_failure"
    ⟨(h.frame.1, h.frame.2.publish (h.frame.1.exitMessage reason)), true, 0, h.passed⟩
  else
    let settled := h.frame.1.settle
    ⟨(settled.1, h.frame.2), false, settled.2, h.passed⟩

/-- The start of `receive_next_internal`: the block is over. -/
def unblock (actor : ManagedActor) (queue : List Publication) : ManagedActor :=
  { actor with waiting := false, pattern := ⟨[], []⟩, timeout := UINT32_MAX, message_queue :=
    queue }

/-- `ManagedActor::receive_next_internal`. There is no front of an empty queue. -/
def receiveNextInternal (s : Frame) (b : Behaviour) : Option Received :=
  match s.1.message_queue with
  | [] => none
  | p :: queue => (handle cfg (unblock s.1 queue, s.2) b p).map (finish p)

/-! ## The loop -/

def pushReady (e : Executor) (id : UInt32) : Executor :=
  if id ∈ e.ready_queue then e else { e with ready_queue := e.ready_queue ++ [id] }

def setActor (e : Executor) (id : UInt32) (actor : ManagedActor) : Executor :=
  { e with actors := Assoc.put id actor e.actors }

def initMessage : Publication :=
  (Publication.ofPublisher cfg.identifier.node_id cfg.identifier.actor_type
    cfg.identifier.instance_id).setAttr "type" (.str "init")

/-- What follows the construction of an actor in `add_actor_base`. -/
def startActor (s : Frame) (b : Behaviour) (now : UInt32) : Executor :=
  let s := if cfg.reply_sub_optional then s else call cfg s .addReplySubscription
  let s : Frame := (s.1, s.2.publish s.1.creationMessage)
  let s := perform cfg s b.early.calls
  let actor : ManagedActor := { s.1 with initialized := decide (b.early.result = .OK) }
  let e := if actor.timeout < UINT32_MAX then
      { s.2 with timeouts := Timeout.emplace ⟨now + actor.timeout, actor.id, false, ""⟩ s.2.timeouts }
    else s.2
  let e := e.setActor actor.id (actor.enqueue (initMessage cfg)).1
  { e with ready_queue := e.ready_queue ++ [actor.id] }

/-- `Executor::add_actor_base`. The constructor of the actor runs before it is in the table. -/
def addActorBase (e : Executor) (p : Publication) (b : Behaviour) (now : UInt32) :
    Option Executor :=
  match p.getStrAttr "spawn_node_id", p.getStrAttr "spawn_actor_type",
    p.getStrAttr "spawn_actor_version", p.getStrAttr "spawn_instance_id" with
  | some node_id, some actor_type, some actor_version, some instance_id =>
    let local_id := e.next_id
    let e := { e with next_id := e.next_id + 1 }
    if (Assoc.find local_id e.actors).isSome then some e
    else
      let s := perform cfg (ManagedActor.create local_id ⟨node_id, actor_type, instance_id⟩
        actor_version, e) b.construct
      some (startActor cfg (s.1, s.2.setActor local_id s.1) b now)
  | _, _, _, _ => none

/-- A timeout that the executor set itself is over when a message arrives. -/
def dropTimeout (e : Executor) (id : UInt32) : Executor :=
  { e with timeouts := e.timeouts.eraseP fun t => t.actor_id = id ∧ t.user_defined = false }

/-- The publication for one of the receivers of a subscription. -/
def offer (e : Executor) (id : UInt32) (actor : ManagedActor) (p : Publication) : Executor :=
  let enqueued := actor.enqueue p
  let e := e.setActor id enqueued.1
  if enqueued.2 then (e.pushReady id).dropTimeout id else e

/-- The loop over the receivers of a subscription: the last one gets the object itself. -/
def offerAll (p : Publication) : Nat → List UInt32 → Executor → Executor
  | _, [], e => e
  | count, id :: ids, e =>
    match Assoc.find id e.actors with
    | none => offerAll p count ids e
    | some actor => offerAll p (count - 1) ids (e.offer id actor (if count = 1 then p else p.copy))

/-- What the body of one of the loops of `event_loop` can do next. The loop runs its parts in turn;
here they come in any order, so that every run of the loop is one of these. Other receivers use the
router at any time, and a script may write to a map that a queued message shares. -/
inductive Event where
  | deliver (subscription_id : Nat) (p : Publication) (b : Behaviour) (now : UInt32)
  | flush (now : UInt32)
  | expire (start : UInt32)
  | process (b : Behaviour) (now : UInt32)
  | others (ev : Hub.Event)
  | overwrite (id : UInt32) (i : Nat) (p : Publication)

/-- Any message to the executor that spawns nothing ends the loop. -/
def deliver (e : Executor) (subscription_id : Nat) (p : Publication) (b : Behaviour)
    (now : UInt32) : Option Executor :=
  if subscription_id = e.executor_subscription_id then
    if p.hasAttr "spawn_actor_type" then e.addActorBase cfg p b now else none
  else
    let receivers := Multimap.members subscription_id e.subscription_mapping
    some (offerAll p receivers.length receivers e)

def flush (e : Executor) (now : UInt32) : Executor :=
  match e.delayed_messages with
  | [] => e
  | d :: rest => if d.1 < now then { e with delayed_messages := rest }.publish d.2 else e

def expire (e : Executor) (start : UInt32) : Executor :=
  match e.timeouts with
  | [] => e
  | t :: rest =>
    if t.timeout < start then
      let e := { e with timeouts := rest }
      match Assoc.find t.actor_id e.actors with
      | none => e
      | some actor => (e.setActor t.actor_id
          (actor.triggerTimeout t.user_defined t.trigger_id)).pushReady t.actor_id
    else e

/-- What the loop does with a `ReceiveResult`. -/
def dispose (task : UInt32) (now : UInt32) (r : Received) : Executor :=
  if r.exit then
    release cfg { r.frame.2 with actors := Assoc.erase task r.frame.2.actors } r.frame.1
  else
    let e := r.frame.2.setActor task r.frame.1
    if r.next_timeout = 0 then { e with ready_queue := e.ready_queue ++ [task] }
    else if r.next_timeout < UINT32_MAX then
      { e with timeouts := Timeout.emplace ⟨now + r.next_timeout, task, false, ""⟩ e.timeouts }
    else e

def process (e : Executor) (b : Behaviour) (now : UInt32) : Option Executor :=
  match e.ready_queue with
  | [] => some e
  | task :: ready_queue =>
    let e := { e with ready_queue := ready_queue }
    match Assoc.find task e.actors with
    | none => some e
    | some actor => (receiveNextInternal cfg (actor, e) b).map (dispose cfg task now)

def overwrite (e : Executor) (id : UInt32) (i : Nat) (p : Publication) : Executor :=
  match Assoc.find id e.actors with
  | none => e
  | some actor => e.setActor id { actor with message_queue := actor.message_queue.set i p }

def step (e : Executor) : Event → Option Executor
  | .deliver subscription_id p b now => e.deliver cfg subscription_id p b now
  | .flush now => some (e.flush now)
  | .expire start => some (e.expire start)
  | .process b now => e.process cfg b now
  | .others ev =>
    if ev.receiver = e.router_handle then none
    else (e.hub.step cfg.board ev).map fun hub => { e with hub := hub }
  | .overwrite id i p => some (e.overwrite id i p)

def run (hub : Hub) (handle : Nat) (events : List Event) : Option Executor :=
  (create cfg hub handle).bind fun e => events.foldlM (step cfg) e

/-! ## What a running actor leaves alone -/

/-- The parts that no call of an actor changes. -/
structure Frames (s s' : Frame) : Prop where
  id : s'.1.id = s.1.id
  identifier : s'.1.identifier = s.1.identifier
  actors : s'.2.actors = s.2.actors
  ready_queue : s'.2.ready_queue = s.2.ready_queue
  router_handle : s'.2.router_handle = s.2.router_handle

namespace Frames

variable {s s' s'' : Frame}

theorem refl (s : Frame) : Frames s s := ⟨rfl, rfl, rfl, rfl, rfl⟩

theorem trans (h : Frames s s') (h' : Frames s' s'') : Frames s s'' :=
  ⟨h'.id.trans h.id, h'.identifier.trans h.identifier, h'.actors.trans h.actors,
    h'.ready_queue.trans h.ready_queue, h'.router_handle.trans h.router_handle⟩

end Frames

theorem addSubscription_rest (cfg : ExecutorSettings) (e : Executor) (local_id : UInt32)
    (f : Filter) (arguments : SubscriptionArguments) :
    (e.addSubscription cfg local_id f arguments).1.actors = e.actors ∧
      (e.addSubscription cfg local_id f arguments).1.ready_queue = e.ready_queue ∧
      (e.addSubscription cfg local_id f arguments).1.router_handle = e.router_handle := by
  unfold addSubscription
  split <;> exact ⟨rfl, rfl, rfl⟩

theorem subscribe_frames (cfg : ExecutorSettings) (s : Frame) (f : Filter)
    (arguments : SubscriptionArguments) :
    Frames s (subscribe cfg s f arguments) := by
  obtain ⟨hactors, hready, hhandle⟩ := addSubscription_rest cfg s.2 s.1.id f arguments
  exact ⟨rfl, rfl, hactors, hready, hhandle⟩

theorem call_frames (cfg : ExecutorSettings) (s : Frame) (c : Call) :
    Frames s (call cfg s c) ∧ (call cfg s c).1.message_queue = s.1.message_queue := by
  cases c with
  | subscribe f arguments => exact ⟨subscribe_frames cfg s f arguments, rfl⟩
  | addReplySubscription => exact ⟨subscribe_frames cfg s _ _, rfl⟩
  | unsubscribe | defferedBlockFor | triggerCodeFetch | publish | republish | delayedPublish
  | enqueueWakeup =>
    exact ⟨⟨rfl, rfl, rfl, rfl, rfl⟩, rfl⟩

theorem perform_frames (cfg : ExecutorSettings) (s : Frame) (calls : List Call) :
    Frames s (perform cfg s calls) ∧ (perform cfg s calls).1.message_queue = s.1.message_queue := by
  induction calls generalizing s with
  | nil => exact ⟨Frames.refl s, rfl⟩
  | cons c calls ih =>
    obtain ⟨hcall, hqueue⟩ := call_frames cfg s c
    obtain ⟨hrest, hqueue'⟩ := ih (call cfg s c)
    exact ⟨hcall.trans hrest, hqueue'.trans hqueue⟩

theorem release_rest (cfg : ExecutorSettings) (e : Executor) (actor : ManagedActor) :
    (e.release cfg actor).actors = e.actors ∧ (e.release cfg actor).ready_queue = e.ready_queue ∧
      (e.release cfg actor).router_handle = e.router_handle := by
  unfold release
  generalize actor.subscriptions = subscriptions
  induction subscriptions generalizing e with
  | nil => exact ⟨rfl, rfl, rfl⟩
  | cons sub_id subscriptions ih => exact ih (e.removeSubscription cfg actor.id sub_id)

/-- The same subscriptions, of the actor and of all others. -/
structure SameSubs (s s' : Frame) : Prop where
  id : s'.1.id = s.1.id
  subscriptions : s'.1.subscriptions = s.1.subscriptions
  actors : s'.2.actors = s.2.actors
  hub : s'.2.hub = s.2.hub
  router_handle : s'.2.router_handle = s.2.router_handle
  subscription_mapping : s'.2.subscription_mapping = s.2.subscription_mapping

/-- What holds of the subscriptions and survives every call. -/
structure Keeps (cfg : ExecutorSettings) (R : Frame → Prop) : Prop where
  call : ∀ s c, R s → R (call cfg s c)
  same : ∀ {s s'}, R s → SameSubs s s' → R s'

/-! ## Which code runs

The branches of `receive_next_internal`, by the state of the actor and the message alone. -/

/-- The calls that are made while a message is handled. -/
def callsFor (actor : ManagedActor) (b : Behaviour) (p : Publication) : List Call :=
  if carriesCode actor p then
    if actor.initialized = false ∧
        p.getStrAttr "fetch_actor_type" = some actor.identifier.actor_type then b.late.calls
    else []
  else if p.getStrAttr "type" = some "timeout" ∧ actor.waiting_for_code = true then
    if actor.code_fetch_retries < 20 then [.triggerCodeFetch] else []
  else if actor.initialized then b.receive.calls
  else
    match b.wakeup.result with
    | .NONE | .OK => b.wakeup.calls ++ b.receive.calls
    | _ => b.wakeup.calls

/-- The message goes back to the queue. -/
def putsBack (actor : ManagedActor) (b : Behaviour) (p : Publication) : Bool :=
  !carriesCode actor p && !(p.getStrAttr "type" == some "timeout" && actor.waiting_for_code) &&
    !actor.initialized && decide (b.wakeup.result = .NOT_READY)

/-- The actor ends with this message. -/
def exits (actor : ManagedActor) (b : Behaviour) (p : Publication) : Bool :=
  if carriesCode actor p then
    decide (actor.initialized = false ∧ p.getStrAttr "fetch_actor_type" =
      some actor.identifier.actor_type ∧
      b.late.result ≠ .OK)
  else if p.getStrAttr "type" = some "timeout" ∧ actor.waiting_for_code = true then
    decide (20 ≤ actor.code_fetch_retries)
  else
    ManagedActor.isExit p ||
      decide (actor.initialized = false ∧
        (b.wakeup.result = .RUNTIME_ERROR ∨ b.wakeup.result = .INITIALIZATION_ERROR)) ||
      (!putsBack actor b p && decide (b.receive.result = .NOT_READY ∨
        b.receive.result = .RUNTIME_ERROR ∨
        b.receive.result = .INITIALIZATION_ERROR))

end Executor

end UActor
