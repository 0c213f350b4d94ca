import UActor.Lib.Multimap
import UActor.PubSub.Receivers
import UActor.Runtime.Node

/-!
# Actors

`managed_actor.hpp` and `managed_actor.cpp`, less what goes through the `ExecutorApi`.
-/

namespace UActor

def UINT32_MAX : UInt32 := 4294967295

/-- `ManagedActor::RuntimeReturnValue`. -/
inductive RuntimeReturnValue where
  | NONE | OK | NOT_READY | RUNTIME_ERROR | INITIALIZATION_ERROR
deriving DecidableEq, Repr

structure ManagedActor where
  id : UInt32
  identifier : ActorIdentifier
  actor_version : String
  waiting : Bool
  pattern : Filter
  timeout : UInt32
  message_queue : List Publication
  subscriptions : List Nat
  initialized : Bool
  code_fetch_retries : Nat
  waiting_for_code : Bool

/-- What the code of an actor can call. The clock is read in two of the calls. -/
inductive Call where
  | subscribe (f : Filter) (arguments : SubscriptionArguments)
  | unsubscribe (sub_id : Nat)
  | addReplySubscription
  | defferedBlockFor (f : Filter) (timeout : UInt32)
  | triggerCodeFetch
  | publish (p : Publication)
  | republish (p : Publication)
  | delayedPublish (now : UInt32) (p : Publication) (delay : UInt32)
  | enqueueWakeup (now delay : UInt32) (wakeup_id : String)

/-- What the code of an actor does when it is called: any calls, and any return value. -/
structure Reaction where
  calls : List Call
  result : RuntimeReturnValue

/-- The virtual functions of `ManagedActor`, as they behave this time. -/
structure Behaviour where
  construct : List Call
  early : Reaction
  late : Reaction
  wakeup : Reaction
  receive : Reaction
  hibernates : Bool

/-- `Publication::unwrap`. -/
def Publication.unwrap (p : Publication) : Option Publication :=
  match p.getStrAttr "publisher_node_id", p.getStrAttr "publisher_actor_type",
    p.getStrAttr "publisher_instance_id", p.attributes.getNestedComponent "__wrapped" with
  | some node_id, some actor_type, some instance_id, some wrapped =>
    let pub := wrapped.foldl (fun (pub : Publication) e =>
      match e.2 with
      | .bin _ => pub
      | .map m => pub.setAttr e.1 (.map (Map.copy m))
      | .str _ | .int _ | .float _ => pub.setAttr e.1 e.2)
          (Publication.ofPublisher node_id actor_type instance_id)
    some (pub.setAttr "__unwrapped" (.int 1))
  | _, _, _, _ => none

/-- `ReplyContext::set` reads all three names of the publisher. -/
def Publication.repliable (p : Publication) : Bool :=
  (p.getStrAttr "publisher_node_id").isSome && (p.getStrAttr "publisher_actor_type").isSome &&
    (p.getStrAttr "publisher_instance_id").isSome

namespace ManagedActor

/-- The constructor of `ManagedActor`. -/
def create (id : UInt32) (identifier : ActorIdentifier) (actor_version : String) : ManagedActor :=
  ⟨id, identifier, actor_version, false, ⟨[], []⟩, UINT32_MAX, [], [], false, 0, false⟩

/-! ## Messages -/

/-- A publication with the names of the actor. -/
def message (actor : ManagedActor) : Publication :=
  Publication.ofPublisher actor.identifier.node_id actor.identifier.actor_type
    actor.identifier.instance_id

def lifetimeMessage (actor : ManagedActor) (p : Publication) : Publication :=
  ((p.setAttr "lifetime_node_id" (.str actor.identifier.node_id)).setAttr "lifetime_actor_type"
    (.str actor.identifier.actor_type)).setAttr "lifetime_instance_id"
      (.str actor.identifier.instance_id)

/-- The publication of `publish_exit_message`. -/
def exitMessage (actor : ManagedActor) (exit_reason : String) : Publication :=
  actor.lifetimeMessage (((actor.message.setAttr "category" (.str "actor_lifetime")).setAttr "type"
    (.str "actor_exit")).setAttr "exit_reason" (.str exit_reason))

/-- The publication of `publish_creation_message`. -/
def creationMessage (actor : ManagedActor) : Publication :=
  actor.lifetimeMessage ((actor.message.setAttr "category" (.str "actor_lifetime")).setAttr "type"
    (.str "actor_creation"))

/-- The publication of `trigger_code_fetch`. -/
def codeFetchRequest (actor : ManagedActor) (actor_runtime_type : String) : Publication :=
  (((actor.message.setAttr "type" (.str "code_fetch_request")).setAttr "fetch_actor_type"
    (.str actor.identifier.actor_type)).setAttr "fetch_actor_version"
      (.str actor.actor_version)).setAttr
    "fetch_actor_runtime_type" (.str actor_runtime_type)

/-- The message of `trigger_timeout`. -/
def timeoutMessage (actor : ManagedActor) (user_defined : Bool) (wakeup_id : String) :
    Publication :=
  if user_defined then
    (actor.message.setAttr "type" (.str "wakeup")).setAttr "wakeup_id" (.str wakeup_id)
  else (actor.message.setAttr "_internal_timeout" (.str "_timeout")).setAttr "type" (.str "timeout")

def isExit (p : Publication) : Bool := p.getStrAttr "type" == some "exit"

/-! ## The queue -/

/-- `ManagedActor::enqueue` says whether the actor is ready now. -/
def enqueue (actor : ManagedActor) (p : Publication) : ManagedActor × Bool :=
  if isExit p then ({ actor with message_queue := p :: actor.message_queue }, true)
  else if actor.waiting then
    if actor.pattern.matches p then ({ actor with message_queue := p :: actor.message_queue }, true)
    else ({ actor with message_queue := actor.message_queue ++ [p] }, false)
  else ({ actor with message_queue := actor.message_queue ++ [p] }, true)

def triggerTimeout (actor : ManagedActor) (user_defined : Bool) (wakeup_id : String) :
    ManagedActor :=
  { actor with message_queue := actor.timeoutMessage user_defined wakeup_id :: actor.message_queue }

def defferedBlockFor (actor : ManagedActor) (f : Filter) (timeout : UInt32) : ManagedActor :=
  { actor with waiting := true, pattern := f, timeout := timeout }

/-- The end of `receive_next_internal`: the first message that an actor waits for comes to the
front. The number is the timeout that the executor gets. -/
def settle (actor : ManagedActor) : ManagedActor × UInt32 :=
  if actor.waiting then
    match actor.message_queue.find? actor.pattern.matches with
    | some p => ({ actor with message_queue :=
        p :: actor.message_queue.eraseP actor.pattern.matches }, 0)
    | none => (actor, actor.timeout)
  else if actor.message_queue.isEmpty then (actor, actor.timeout)
  else (actor, 0)

/-! ## What the queue functions leave alone -/

theorem enqueue_cases (actor : ManagedActor) (p : Publication) :
    (actor.enqueue p = ({ actor with message_queue := p :: actor.message_queue }, true) ∧
        (isExit p = true ∨ actor.waiting = true ∧ actor.pattern.matches p = true)) ∨
      (∃ ready, actor.enqueue p = ({ actor with message_queue := actor.message_queue ++ [p] },
        ready) ∧
        (ready = true → actor.waiting = false)) := by
  unfold enqueue
  split
  · rename_i hexit
    exact Or.inl ⟨rfl, Or.inl hexit⟩
  · split
    · rename_i hwaiting
      split
      · rename_i hmatches
        exact Or.inl ⟨rfl, Or.inr ⟨hwaiting, hmatches⟩⟩
      · exact Or.inr ⟨false, rfl, by simp⟩
    · rename_i hwaiting
      exact Or.inr ⟨true, rfl, by simpa using hwaiting⟩

theorem enqueue_eq (actor : ManagedActor) (p : Publication) :
    ∃ queue, queue ≠ [] ∧ (actor.enqueue p).1 = { actor with message_queue := queue } := by
  rcases actor.enqueue_cases p with ⟨h, -⟩ | ⟨_, h, -⟩
  · exact ⟨p :: actor.message_queue, List.cons_ne_nil _ _, by rw [h]⟩
  · exact ⟨actor.message_queue ++ [p], by simp, by rw [h]⟩

theorem settle_eq (actor : ManagedActor) :
    ∃ queue, actor.settle.1 = { actor with message_queue := queue } ∧
    (queue = [] ↔ actor.message_queue = []) := by
  unfold settle
  split
  · split
    · rename_i p hfind
      refine ⟨_, rfl, iff_of_false (List.cons_ne_nil _ _) ?_⟩
      rintro hnil
      rw [hnil] at hfind
      simp at hfind
    · exact ⟨_, rfl, Iff.rfl⟩
  · split <;> exact ⟨_, rfl, Iff.rfl⟩

end ManagedActor

end UActor
