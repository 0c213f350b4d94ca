import UActor.Runtime.Blocking

/-!
# Exit notices

What is published from the creation of an actor to its removal: what the code of the actors
publishes, the creation messages, and the messages of `publish_exit_message`. It is called at the
end of `receive_next_internal`, and in `late_initialize`.
-/

namespace UActor

namespace Executor

/-! ## What is published for an actor -/

/-- What a call of the code of an actor publishes. -/
def said (cfg : ExecutorSettings) (actor : ManagedActor) : Call → List Publication
  | .triggerCodeFetch => [ManagedActor.publish actor.identifier
      (actor.codeFetchRequest cfg.actor_runtime_type)]
  | .publish p => [ManagedActor.publish actor.identifier p]
  | .republish p =>
    [((p.setAttr "processor_node_id" (.str actor.identifier.node_id)).setAttr
      "processor_instance_id" (.str actor.identifier.instance_id)).setAttr "processor_actor_type"
        (.str actor.identifier.actor_type)]
  | .subscribe _ _ | .unsubscribe _ | .addReplySubscription | .defferedBlockFor _ _
  | .delayedPublish _ _ _
  | .enqueueWakeup _ _ _ => []

/-- The code of the actor arrives, and does not run. -/
def lateFails (actor : ManagedActor) (b : Behaviour) (p : Publication) : Bool :=
  carriesCode actor p && !actor.initialized && p.getStrAttr "fetch_actor_type" == some
    actor.identifier.actor_type && decide (b.late.result ≠ .OK)

/-- The value with which the branches of `receive_next_internal` end. -/
def returned (actor : ManagedActor) (b : Behaviour) (p : Publication) : RuntimeReturnValue :=
  if carriesCode actor p then
    if actor.initialized = false ∧
        p.getStrAttr "fetch_actor_type" = some actor.identifier.actor_type then
      if b.late.result = .OK then .OK else .INITIALIZATION_ERROR
    else .NONE
  else if p.getStrAttr "type" = some "timeout" ∧ actor.waiting_for_code = true then
    if actor.code_fetch_retries < 20 then .NONE else .INITIALIZATION_ERROR
  else if actor.initialized = true ∨ b.wakeup.result = .NONE ∨ b.wakeup.result = .OK then
    if b.receive.result = .NOT_READY then .RUNTIME_ERROR else b.receive.result
  else b.wakeup.result

def exitReason : RuntimeReturnValue → String
  | .OK => "clean_exit"
  | .INITIALIZATION_ERROR => "initialization_failure"
  | .NONE | .NOT_READY | .RUNTIME_ERROR => "runtime_failure"

/-- What `publish_exit_message` publishes while a message is handled. -/
def notices (actor : ManagedActor) (b : Behaviour) (p : Publication) : List Publication :=
  (if lateFails actor b p then [actor.exitMessage "initialization_failure"] else []) ++
    if exits actor b p then [actor.exitMessage (exitReason (returned actor b p))] else []

/-! ## One message -/

/-- The names in the publications of an actor. -/
structure SameNames (a a' : ManagedActor) : Prop where
  identifier : a'.identifier = a.identifier
  actor_version : a'.actor_version = a.actor_version

theorem SameNames.said {a a' : ManagedActor} (h : SameNames a a') (cfg : ExecutorSettings)
    (c : Call) :
    Executor.said cfg a' c = Executor.said cfg a c := by
  have hversion := h.actor_version
  cases c <;> simp only [Executor.said, ManagedActor.codeFetchRequest, ManagedActor.message,
    h.identifier, hversion]

theorem SameNames.exitMessage {a a' : ManagedActor} (h : SameNames a a') (reason : String) :
    a'.exitMessage reason = a.exitMessage reason := by
  simp only [ManagedActor.exitMessage, ManagedActor.lifetimeMessage, ManagedActor.message,
    h.identifier]

theorem SameNames.creationMessage {a a' : ManagedActor} (h : SameNames a a') :
    a'.creationMessage = a.creationMessage := by
  simp only [ManagedActor.creationMessage, ManagedActor.lifetimeMessage, ManagedActor.message,
    h.identifier]

theorem SameNames.trans {a a' a'' : ManagedActor} (h : SameNames a a') (h' : SameNames a' a'') :
    SameNames a a'' :=
  ⟨h'.identifier.trans h.identifier, h'.actor_version.trans h.actor_version⟩

/-- These calls were made, and what they published was. -/
structure Said (cfg : ExecutorSettings) (s : Frame) (calls : List Call) (s' : Frame) : Prop where
  names : SameNames s.1 s'.1
  published : s'.2.published = s.2.published ++ calls.flatMap (said cfg s.1)

theorem addSubscription_published (cfg : ExecutorSettings) (e : Executor) (local_id : UInt32)
    (f : Filter) (arguments : SubscriptionArguments) :
    (e.addSubscription cfg local_id f arguments).1.published = e.published := by
  unfold addSubscription
  split <;> rfl

theorem said_call (cfg : ExecutorSettings) (s : Frame) (c : Call) :
    Said cfg s [c] (call cfg s c) := by
  cases c with
  | subscribe f arguments =>
    refine ⟨⟨rfl, rfl⟩, ?_⟩
    rw [List.flatMap_singleton, said, List.append_nil]
    exact addSubscription_published cfg s.2 s.1.id f arguments
  | addReplySubscription =>
    refine ⟨⟨rfl, rfl⟩, ?_⟩
    rw [List.flatMap_singleton, said, List.append_nil]
    exact addSubscription_published cfg s.2 s.1.id _ _
  | unsubscribe | defferedBlockFor | delayedPublish | enqueueWakeup =>
    exact ⟨⟨rfl, rfl⟩, (List.append_nil _).symm⟩
  | triggerCodeFetch | publish | republish => exact ⟨⟨rfl, rfl⟩, rfl⟩

theorem Said.trans {cfg : ExecutorSettings} {s s' s'' : Frame} {calls calls' : List Call}
    (h : Said cfg s calls s') (h' : Said cfg s' calls' s'') : Said cfg s (calls ++ calls') s'' := by
  refine ⟨h.names.trans h'.names, ?_⟩
  rw [h'.published, h.published, List.flatMap_append, List.append_assoc]
  congr 2
  exact List.flatMap_congr fun c _ => h.names.said cfg c

theorem said_perform (cfg : ExecutorSettings) (s : Frame) (calls : List Call) :
    Said cfg s calls (perform cfg s calls) := by
  induction calls generalizing s with
  | nil => exact ⟨⟨rfl, rfl⟩, (List.append_nil _).symm⟩
  | cons c calls ih => exact (said_call cfg s c).trans (ih (call cfg s c))

/-- What is published up to the end of a handling, and its value. -/
structure Ended (cfg : ExecutorSettings) (s : Frame) (b : Behaviour) (p : Publication)
    (h : Handled) : Prop where
  names : SameNames s.1 h.frame.1
  published : h.frame.2.published = s.2.published ++ (callsFor s.1 b p).flatMap (said cfg s.1) ++
    if lateFails s.1 b p then [s.1.exitMessage "initialization_failure"] else []
  ret : h.ret = returned s.1 b p

section

variable {cfg : ExecutorSettings} {s : Frame} {b : Behaviour} {p : Publication} {h : Handled}

theorem Said.ended {calls : List Call} (hsaid : Said cfg s calls h.frame)
    (hcalls : callsFor s.1 b p = calls) (hlate : lateFails s.1 b p = false)
    (hret : h.ret = returned s.1 b p) : Ended cfg s b p h := by
  refine ⟨hsaid.names, ?_, hret⟩
  rw [hlate, hcalls, hsaid.published]
  simp

theorem ended_lateInitialize (hcode : carriesCode s.1 p = true) (hinit : s.1.initialized = false)
    (htype : p.getStrAttr "fetch_actor_type" = some s.1.identifier.actor_type) :
    Ended cfg s b p (lateInitialize cfg ({ s.1 with waiting_for_code := false }, s.2) b.late) := by
  have hsaid := said_perform cfg ({ s.1 with waiting_for_code := false }, s.2) b.late.calls
  have hnames : SameNames s.1 (perform cfg ({ s.1 with waiting_for_code := false }, s.2)
    b.late.calls).1 :=
    ⟨hsaid.names.identifier, hsaid.names.actor_version⟩
  have hcalls : callsFor s.1 b p = b.late.calls := by simp [callsFor, hcode, hinit, htype]
  have hpublished : (perform cfg ({ s.1 with waiting_for_code := false }, s.2)
    b.late.calls).2.published =
      s.2.published ++ b.late.calls.flatMap (said cfg s.1) := hsaid.published
  unfold lateInitialize
  dsimp only
  by_cases hok : b.late.result = .OK
  · rw [if_pos hok]
    refine ⟨⟨hnames.identifier, hnames.actor_version⟩,
      ?_, by simp [returned, hcode, hinit, htype, hok]⟩
    simp [hcalls, hpublished, lateFails, hok]
  · rw [if_neg hok]
    refine ⟨⟨hnames.identifier, hnames.actor_version⟩,
      ?_, by simp [returned, hcode, hinit, htype, hok]⟩
    have hfails : lateFails s.1 b p = true := by simp [lateFails, hcode, hinit, htype, hok]
    have hnotice := hnames.exitMessage "initialization_failure"
    rw [hfails, if_pos rfl, hcalls]
    simp only [Executor.publish, hpublished, ← hnotice]

theorem ended_handleCode (hcode : carriesCode s.1 p = true) (hh : handleCode cfg s b p = some h) :
    Ended cfg s b p h := by
  have hnil := said_perform cfg s []
  unfold handleCode at hh
  split at hh
  · rename_i hinit
    rw [← Option.some.inj hh]
    refine hnil.ended (by simp [callsFor, hcode, hinit]) (by simp [lateFails, hinit]) ?_
    simp [returned, hcode, hinit]
  · rename_i hinit
    have hinit : s.1.initialized = false := by simpa using hinit
    dsimp only at hh
    split at hh
    · rename_i htype
      obtain ⟨_, -, rfl⟩ := Option.map_eq_some_iff.mp hh
      exact ended_lateInitialize hcode hinit htype
    · rename_i htype
      obtain ⟨_, -, rfl⟩ := Option.map_eq_some_iff.mp hh
      refine ⟨⟨rfl, rfl⟩, ?_, by simp [returned, hcode, htype]⟩
      simp [callsFor, hcode, htype, lateFails]

theorem ended_retryCode (b : Behaviour) (hcode : carriesCode s.1 p = false)
    (htimeout : p.getStrAttr "type" = some "timeout" ∧ s.1.waiting_for_code = true) :
    Ended cfg s b p (retryCode cfg s) := by
  have hlate : lateFails s.1 b p = false := by simp [lateFails, hcode]
  unfold retryCode
  split
  · rename_i hretries
    have hsaid := said_call cfg s .triggerCodeFetch
    have hframe : Said cfg s [.triggerCodeFetch] ({ (call cfg s .triggerCodeFetch).1 with
        code_fetch_retries := (call cfg s .triggerCodeFetch).1.code_fetch_retries + 1 },
        (call cfg s .triggerCodeFetch).2) :=
      ⟨⟨hsaid.names.identifier, hsaid.names.actor_version⟩, hsaid.published⟩
    exact Said.ended hframe (by simp [callsFor, hcode, htimeout, hretries]) hlate
      (by simp [returned, hcode, htimeout, hretries])
  · rename_i hretries
    exact (said_perform cfg s []).ended (by simp [callsFor, hcode, htimeout, hretries]) hlate
      (by simp [returned, hcode, htimeout, hretries])

theorem said_receive (hh : receive cfg s b p = some h) : Said cfg s b.receive.calls h.frame ∧
    h.ret = if b.receive.result = .NOT_READY then .RUNTIME_ERROR else b.receive.result := by
  have hsaid := said_perform cfg s b.receive.calls
  unfold receive at hh
  split at hh
  · obtain ⟨_, -, rfl⟩ := Option.map_eq_some_iff.mp hh
    exact ⟨⟨⟨hsaid.names.identifier, hsaid.names.actor_version⟩, hsaid.published⟩, rfl⟩
  · cases hh

theorem ended_handleMessage (hcode : carriesCode s.1 p = false)
    (htimeout : ¬ (p.getStrAttr "type" = some "timeout" ∧ s.1.waiting_for_code = true))
    (hh : handleMessage cfg s b p = some h) : Ended cfg s b p h := by
  have hlate : lateFails s.1 b p = false := by simp [lateFails, hcode]
  unfold handleMessage at hh
  by_cases hinit : s.1.initialized = true
  · rw [if_pos hinit] at hh
    obtain ⟨hsaid, hret⟩ := said_receive hh
    refine hsaid.ended (by simp [callsFor, hcode, htimeout, hinit]) hlate ?_
    rw [hret]
    simp [returned, hcode, htimeout, hinit]
  · rw [if_neg hinit] at hh
    have hperform := said_perform cfg s b.wakeup.calls
    have hwake : Said cfg s b.wakeup.calls (wakeup cfg s b.wakeup) :=
      ⟨⟨hperform.names.identifier, hperform.names.actor_version⟩, hperform.published⟩
    have hreceives : (b.wakeup.result = .NONE ∨ b.wakeup.result = .OK) →
        receive cfg (wakeup cfg s b.wakeup) b p = some h → Ended cfg s b p h := by
      intro hresult hr
      obtain ⟨hsaid, hret⟩ := said_receive hr
      refine (hwake.trans hsaid).ended ?_ hlate ?_
      · rcases hresult with hresult | hresult <;> simp [callsFor, hcode, htimeout, hinit, hresult]
      · rw [hret]
        rcases hresult with hresult | hresult <;> simp [returned, hcode, htimeout, hinit, hresult]
    dsimp only at hh
    cases hresult : b.wakeup.result with
    | NONE =>
      rw [hresult] at hh
      exact hreceives (Or.inl hresult) hh
    | OK =>
      rw [hresult] at hh
      exact hreceives (Or.inr hresult) hh
    | NOT_READY | RUNTIME_ERROR | INITIALIZATION_ERROR =>
      rw [hresult] at hh
      have hsaid : Said cfg s b.wakeup.calls h.frame := by
        rw [← Option.some.inj hh]
        exact ⟨⟨hwake.names.identifier, hwake.names.actor_version⟩, hwake.published⟩
      refine hsaid.ended (by simp [callsFor, hcode, htimeout, hinit, hresult]) hlate ?_
      rw [← Option.some.inj hh]
      simp [returned, hcode, htimeout, hinit, hresult]

theorem ended_handle (hh : handle cfg s b p = some h) : Ended cfg s b p h := by
  unfold handle at hh
  split at hh
  · rename_i hcode
    exact ended_handleCode hcode hh
  · rename_i hcode
    have hcode : carriesCode s.1 p = false := by simpa using hcode
    split at hh
    · rename_i htimeout
      rw [← Option.some.inj hh]
      exact ended_retryCode b hcode htimeout
    · rename_i htimeout
      exact ended_handleMessage hcode htimeout hh

/-- All that is published while a message is handled: what the code of the actor publishes, then the
notices. -/
theorem finish_published (hh : handle cfg s b p = some h) : (finish p h).frame.2.published =
    s.2.published ++ (callsFor s.1 b p).flatMap (said cfg s.1) ++ notices s.1 b p := by
  have hended := ended_handle hh
  have hexit := (handle_spec hh).exit
  unfold notices
  rw [← hexit, ← List.append_assoc, ← hended.published, ← hended.ret]
  unfold finish
  split
  · simp
  · split
    · have hnotice := hended.names.exitMessage (exitReason h.ret)
      rw [if_pos rfl, ← hnotice]
      rfl
    · simp

end

/-! ## The step of an actor -/

/-- The actor that is next, and its next message. -/
def next (e : Executor) : Option (UInt32 × ManagedActor × Publication) :=
  match e.ready_queue with
  | [] => none
  | task :: _ =>
    (Assoc.find task e.actors).bind fun actor => actor.message_queue.head?.map fun p =>
      (task, actor, p)

/-- The exit notices for an actor in a step. -/
def noticesIn (id : UInt32) (e : Executor) : Event → List Publication
  | .process b _ =>
    match e.next with
    | some (task, actor, p) => if task = id then notices actor b p else []
    | none => []
  | .deliver .. | .flush _ | .expire _ | .others _ | .overwrite .. => []

/-- Where a publication comes from: the code of an actor or the request for it, or
`publish_creation_message` and `publish_exit_message` of the actor `id`. -/
inductive Origin where
  | code
  | lifetime (id : UInt32)
deriving DecidableEq

/-- The actor that a message to the executor creates. -/
def createdBy (e : Executor) (subscription_id : Nat) (p : Publication) : Option ManagedActor :=
  if subscription_id = e.executor_subscription_id then
    match p.getStrAttr "spawn_node_id", p.getStrAttr "spawn_actor_type",
      p.getStrAttr "spawn_actor_version", p.getStrAttr "spawn_instance_id" with
    | some node_id, some actor_type, some actor_version, some instance_id =>
      if (Assoc.find e.next_id e.actors).isSome then none
      else some (ManagedActor.create e.next_id ⟨node_id, actor_type, instance_id⟩ actor_version)
    | _, _, _, _ => none
  else none

def fromCode (ps : List Publication) : List (Origin × Publication) := ps.map fun p => (.code, p)

def fromLifetime (id : UInt32) (ps : List Publication) : List (Origin × Publication) :=
  ps.map fun p => (.lifetime id, p)

/-- What a step publishes, in order. -/
def emits (cfg : ExecutorSettings) (e : Executor) : Event → List (Origin × Publication)
  | .deliver subscription_id p b _ =>
    match e.createdBy subscription_id p with
    | some actor =>
      fromCode (b.construct.flatMap (said cfg actor)) ++
        fromLifetime actor.id [actor.creationMessage] ++
          fromCode (b.early.calls.flatMap (said cfg actor))
    | none => []
  | .flush now => fromCode ((e.delayed_messages.head?.filter fun d => d.1 < now).map
      Prod.snd).toList
  | .process b _ =>
    match e.next with
    | some (task, actor, p) =>
      fromCode ((callsFor actor b p).flatMap (said cfg actor)) ++
        fromLifetime task (notices actor b p)
    | none => []
  | .expire _ | .others _ | .overwrite .. => []

/-- What a run publishes. -/
def emitted (cfg : ExecutorSettings) : Executor → List Event → List (Origin × Publication)
  | _, [] => []
  | e, ev :: events => emits cfg e ev ++ ((e.step cfg ev).map fun e' => emitted cfg e' events).getD
      []

/-- An `actor_exit` of the actor `id`. -/
def exitOf (id : UInt32) (m : Origin × Publication) : Bool :=
  m.1 == .lifetime id && m.2.getStrAttr "type" == some "actor_exit"

/-- The step ends an actor with the failure of its late initialisation. -/
def lateFailure (e : Executor) : Event → Bool
  | .process b _ =>
    match e.next with
    | some (_, actor, p) => lateFails actor b p
    | none => false
  | .deliver .. | .flush _ | .expire _ | .others _ | .overwrite .. => false

theorem release_published (cfg : ExecutorSettings) (e : Executor) (actor : ManagedActor) :
    (e.release cfg actor).published = e.published := by
  unfold release
  generalize actor.subscriptions = subscriptions
  induction subscriptions generalizing e with
  | nil => rfl
  | cons sub_id subscriptions ih => exact ih (e.removeSubscription cfg actor.id sub_id)

theorem dispose_published (cfg : ExecutorSettings) (task now : UInt32) (r : Received) :
    (dispose cfg task now r).published = r.frame.2.published := by
  unfold dispose
  split
  · exact release_published cfg _ _
  · dsimp only
    split
    · rfl
    · split <;> rfl

theorem dispose_find (cfg : ExecutorSettings) (task now : UInt32) (r : Received) :
    Assoc.find task (dispose cfg task now r).actors = none ↔ r.exit = true := by
  unfold dispose
  by_cases hexit : r.exit = true
  · rw [if_pos hexit, (release_rest cfg _ _).1, Assoc.find_erase, if_pos rfl]
    exact iff_of_true rfl hexit
  · rw [if_neg hexit]
    refine iff_of_false ?_ hexit
    have hput : Assoc.find task (r.frame.2.setActor task r.frame.1).actors = some r.frame.1 :=
      Assoc.find_put_self _ _ _
    dsimp only
    split
    · simp [hput]
    · split <;> simp [hput]

section

variable {cfg : ExecutorSettings} {e e' : Executor} {b : Behaviour} {now : UInt32}

theorem next_ran {task : UInt32} {actor : ManagedActor} {p : Publication}
    (hnext : e.next = some (task, actor, p)) (h : e.process cfg b now = some e') :
    ∃ rest queue hd, e.ready_queue = task :: rest ∧ Assoc.find task e.actors = some actor ∧
      actor.message_queue = p :: queue ∧
      handle cfg (unblock actor queue, { e with ready_queue := rest }) b p = some hd ∧
      e' = dispose cfg task now (finish p hd) := by
  unfold next at hnext
  cases process_cases h with
  | idle hready =>
    rw [hready] at hnext
    cases hnext
  | gone task' rest hready hfind =>
    rw [hready] at hnext
    simp [hfind] at hnext
  | ran task' rest actor' p' queue hd hready hfind hqueue hhandle =>
    rw [hready] at hnext
    simp only [hfind, Option.bind_some, hqueue, List.head?_cons, Option.map_some, Option.some.injEq,
      Prod.mk.injEq] at hnext
    obtain ⟨rfl, rfl, rfl⟩ := hnext
    exact ⟨rest, queue, hd, hready, hfind, hqueue, hhandle, rfl⟩

theorem process_next {task : UInt32} {actor : ManagedActor} {p : Publication}
    (hnext : e.next = some (task, actor, p)) (h : e.process cfg b now = some e') :
    e'.published = e.published ++ (callsFor actor b p).flatMap (said cfg actor) ++
      notices actor b p ∧
      (Assoc.find task e'.actors = none ↔ exits actor b p = true) := by
  obtain ⟨rest, queue, hd, -, -, -, hhandle, rfl⟩ := next_ran hnext h
  refine ⟨?_, (dispose_find cfg task now _).trans ?_⟩
  · rw [dispose_published]
    exact finish_published hhandle
  · have hexit : (finish p hd).exit = exits actor b p := (handle_spec hhandle).exit
    rw [hexit]

theorem next_of_run (h : e.process cfg b now = some e') {id : UInt32}
    (hhead : e.ready_queue.head? = some id) (hid : (Assoc.find id e.actors).isSome = true) :
    ∃ actor p, e.next = some (id, actor, p) := by
  obtain ⟨rest, hready⟩ := List.head?_eq_some_iff.mp hhead
  obtain ⟨actor, hfind⟩ := Option.isSome_iff_exists.mp hid
  obtain ⟨p, queue, hd, hqueue, -, -⟩ := process_ran hready hfind h
  exact ⟨actor, p, by simp [next, hready, hfind, hqueue]⟩

end

/-! ## What a step publishes -/

theorem startActor_published (cfg : ExecutorSettings) (s : Frame) (b : Behaviour) (now : UInt32) :
    (startActor cfg s b now).published =
      s.2.published ++ s.1.creationMessage :: b.early.calls.flatMap (said cfg s.1) := by
  have hreply : Said cfg s [] (if cfg.reply_sub_optional then s else call cfg
      s .addReplySubscription) := by
    split
    · exact said_perform cfg s []
    · have hcall := said_call cfg s .addReplySubscription
      exact ⟨hcall.names, hcall.published⟩
  unfold startActor
  dsimp only
  generalize (if cfg.reply_sub_optional then s else call cfg s .addReplySubscription) =
    s₁ at hreply ⊢
  have hcreated : SameNames s.1 s₁.1 := hreply.names
  have hearly := said_perform cfg (s₁.1, s₁.2.publish s₁.1.creationMessage) b.early.calls
  generalize perform cfg (s₁.1, s₁.2.publish s₁.1.creationMessage) b.early.calls = s₂ at hearly ⊢
  have hsaid : b.early.calls.flatMap (said cfg s₁.1) = b.early.calls.flatMap (said cfg s.1) :=
    List.flatMap_congr fun c _ => hcreated.said cfg c
  have hpublished : s₂.2.published = s.2.published ++ s.1.creationMessage :: b.early.calls.flatMap
      (said cfg s.1) := by
    rw [hearly.published, ← hcreated.creationMessage, ← hsaid]
    simp [publish, hreply.published]
  rw [← hpublished]
  split <;> rfl

theorem createdBy_of_named {e : Executor} {p : Publication}
    {node_id actor_type actor_version instance_id : String}
    (hnode : p.getStrAttr "spawn_node_id" = some node_id)
    (htype : p.getStrAttr "spawn_actor_type" = some actor_type)
    (hversion : p.getStrAttr "spawn_actor_version" = some actor_version)
    (hinstance : p.getStrAttr "spawn_instance_id" = some instance_id) :
    e.createdBy e.executor_subscription_id p =
      if (Assoc.find e.next_id e.actors).isSome then none
      else some (ManagedActor.create e.next_id ⟨node_id, actor_type, instance_id⟩ actor_version) := by
  unfold createdBy
  rw [if_pos rfl, hnode, htype, hversion, hinstance]

theorem addActorBase_published {cfg : ExecutorSettings} {e e' : Executor} {p : Publication}
    {b : Behaviour} {now : UInt32} (hadd : e.addActorBase cfg p b now = some e') :
    e'.published = e.published ++ (emits cfg e (.deliver e.executor_subscription_id p b now)).map
      Prod.snd := by
  unfold addActorBase at hadd
  split at hadd
  · rename_i node_id actor_type actor_version instance_id hnode htype hversion hinstance
    dsimp only [emits]
    rw [createdBy_of_named hnode htype hversion hinstance]
    dsimp only at hadd ⊢
    by_cases htaken : (Assoc.find e.next_id e.actors).isSome = true
    · rw [if_pos htaken] at hadd ⊢
      rw [← Option.some.inj hadd]
      simp
    · rw [if_neg htaken] at hadd ⊢
      have hbuilt := said_perform cfg
        (ManagedActor.create e.next_id ⟨node_id, actor_type, instance_id⟩ actor_version,
          { e with next_id := e.next_id + 1 }) b.construct
      rw [← Option.some.inj hadd, startActor_published]
      have hearly : b.early.calls.flatMap (said cfg (perform cfg (ManagedActor.create e.next_id
          ⟨node_id, actor_type, instance_id⟩ actor_version, { e with next_id := e.next_id + 1 })
            b.construct).1) =
          b.early.calls.flatMap
            (said cfg (ManagedActor.create e.next_id ⟨node_id, actor_type, instance_id⟩
              actor_version)) :=
        List.flatMap_congr fun c _ => hbuilt.names.said cfg c
      rw [hearly, hbuilt.names.creationMessage]
      simp [setActor, hbuilt.published, fromCode, fromLifetime]
  · simp at hadd

theorem offerAll_published (p : Publication) (count : Nat) (ids : List UInt32) (e : Executor) :
    (offerAll p count ids e).published = e.published := by
  induction ids generalizing e count with
  | nil => rfl
  | cons id ids ih =>
    have hoffer : ∀ a q, (e.offer id a q).published = e.published := by
      intro a q
      unfold offer pushReady
      dsimp only
      split
      · split <;> rfl
      · rfl
    unfold offerAll
    split
    · exact ih count e
    · rename_i a _
      exact (ih _ _).trans (hoffer a _)

theorem flush_published (cfg : ExecutorSettings) (e : Executor) (now : UInt32) :
    (e.flush now).published = e.published ++ (emits cfg e (.flush now)).map Prod.snd := by
  unfold flush emits
  cases e.delayed_messages with
  | nil => simp [fromCode]
  | cons d rest =>
    by_cases hdue : d.1 < now
    · simp [hdue, publish, fromCode, Option.filter]
    · simp [hdue, fromCode, Option.filter]

theorem expire_published (e : Executor) (start : UInt32) :
    (e.expire start).published = e.published := by
  unfold expire
  split
  · rfl
  · split
    · dsimp only
      split
      · rfl
      · unfold pushReady
        split <;> rfl
    · rfl

theorem process_published {cfg : ExecutorSettings} {e e' : Executor} {b : Behaviour} {now : UInt32}
    (h : e.process cfg b now = some e') :
    e'.published = e.published ++ (emits cfg e (.process b now)).map Prod.snd := by
  unfold emits
  cases hnext : e.next with
  | some n =>
    obtain ⟨task, actor, p⟩ := n
    rw [(process_next hnext h).1]
    simp [fromCode, fromLifetime]
  | none =>
    dsimp only
    rw [List.map_nil, List.append_nil]
    cases process_cases h with
    | idle => rfl
    | gone => rfl
    | ran task rest actor p queue hd hready hfind hqueue hhandle =>
      simp [next, hready, hfind, hqueue] at hnext

theorem step_published {cfg : ExecutorSettings} {e e' : Executor} {ev : Event}
    (h : e.step cfg ev = some e') :
    e'.published = e.published ++ (emits cfg e ev).map Prod.snd := by
  cases ev with
  | deliver subscription_id p b now =>
    simp only [step, deliver] at h
    split at h
    · rename_i hid
      subst hid
      split at h
      · exact addActorBase_published h
      · cases h
    · rename_i hid
      rw [← Option.some.inj h, offerAll_published]
      simp [emits, createdBy, hid]
  | flush now =>
    rw [← Option.some.inj h]
    exact flush_published cfg e now
  | expire start =>
    rw [← Option.some.inj h]
    exact (expire_published e start).trans (List.append_nil _).symm
  | process b now => exact process_published h
  | others ev =>
    simp only [step] at h
    split at h
    · cases h
    · obtain ⟨hub, -, rfl⟩ := Option.map_eq_some_iff.mp h
      exact (List.append_nil _).symm
  | overwrite id i p =>
    rw [← Option.some.inj h]
    refine Eq.trans ?_ (List.append_nil _).symm
    unfold overwrite
    split <;> rfl

theorem run_published {cfg : ExecutorSettings} {e e' : Executor} {events : List Event}
    (h : events.foldlM (step cfg) e = some e') :
    e'.published = e.published ++ (emitted cfg e events).map Prod.snd := by
  induction events generalizing e with
  | nil =>
    rw [← Option.some.inj h]
    exact (List.append_nil _).symm
  | cons ev events ih =>
    rw [List.foldlM_cons] at h
    obtain ⟨e₁, hstep, hrest⟩ := Option.bind_eq_some_iff.mp h
    rw [ih hrest, step_published hstep]
    simp [emitted, hstep]

theorem emitted_append {cfg : ExecutorSettings} {e e' : Executor} {events : List Event}
    (h : events.foldlM (step cfg) e = some e') (more : List Event) :
    emitted cfg e (events ++ more) = emitted cfg e events ++ emitted cfg e' more := by
  induction events generalizing e with
  | nil =>
    rw [← Option.some.inj h]
    rfl
  | cons ev events ih =>
    rw [List.foldlM_cons] at h
    obtain ⟨e₁, hstep, hrest⟩ := Option.bind_eq_some_iff.mp h
    simp only [List.cons_append, emitted, hstep, Option.map_some, Option.getD_some, ih hrest,
      List.append_assoc]

/-! ### The exit notices among it -/

theorem filter_fromCode (id : UInt32) (ps : List Publication) :
    (fromCode ps).filter (exitOf id) = [] := by
  simp [fromCode, exitOf]

theorem type_creationMessage (actor : ManagedActor) :
    actor.creationMessage.getStrAttr "type" = some "actor_creation" := by
  unfold ManagedActor.creationMessage ManagedActor.lifetimeMessage
  rw [Publication.getStrAttr_setAttr_ne _ (by decide), Publication.getStrAttr_setAttr_ne _
    (by decide), Publication.getStrAttr_setAttr_ne _ (by decide),
    Publication.getStrAttr_setAttr_self]

theorem type_exitMessage (actor : ManagedActor) (reason : String) :
    (actor.exitMessage reason).getStrAttr "type" = some "actor_exit" := by
  unfold ManagedActor.exitMessage ManagedActor.lifetimeMessage
  rw [Publication.getStrAttr_setAttr_ne _ (by decide), Publication.getStrAttr_setAttr_ne _
    (by decide), Publication.getStrAttr_setAttr_ne _ (by decide), Publication.getStrAttr_setAttr_ne
      _ (by decide),
    Publication.getStrAttr_setAttr_self]

theorem filter_notices (id task : UInt32) (actor : ManagedActor) (b : Behaviour) (p : Publication) :
    (fromLifetime task (notices actor b p)).filter (exitOf id) =
      if task = id then fromLifetime task (notices actor b p) else [] := by
  have htype : ∀ q ∈ notices actor b p, q.getStrAttr "type" = some "actor_exit" := by
    intro q hq
    unfold notices at hq
    rcases List.mem_append.mp hq with hq | hq
    · split at hq
      · rw [List.mem_singleton.mp hq, type_exitMessage]
      · cases hq
    · split at hq
      · rw [List.mem_singleton.mp hq, type_exitMessage]
      · cases hq
  unfold fromLifetime
  rw [List.filter_map]
  by_cases htask : task = id
  · rw [if_pos htask, List.filter_eq_self.mpr]
    intro q hq
    simp [exitOf, htask, htype q hq]
  · rw [if_neg htask, List.filter_eq_nil_iff.mpr, List.map_nil]
    intro q _
    simp [exitOf, htask]

/-- Neither the code of an actor nor its creation is in the way. -/
theorem filter_emits (cfg : ExecutorSettings) (id : UInt32) (e : Executor) (ev : Event) :
    (emits cfg e ev).filter (exitOf id) = fromLifetime id (noticesIn id e ev) := by
  cases ev with
  | deliver subscription_id p b now =>
    dsimp only [emits, noticesIn]
    split
    · rename_i actor _
      rw [List.filter_append, List.filter_append, filter_fromCode, filter_fromCode]
      simp [fromLifetime, exitOf, type_creationMessage]
    · rfl
  | flush now => exact filter_fromCode id _
  | process b now =>
    dsimp only [emits, noticesIn]
    split
    · rename_i task actor p _
      rw [List.filter_append, filter_fromCode, List.nil_append, filter_notices]
      split
      · rename_i htask
        rw [htask]
      · rfl
    · rfl
  | expire | others | overwrite => rfl

/-! ## The life of an actor -/

/-- The first of the steps `life` creates the actor, and the step `last` after them removes it. -/
structure Lifetime (cfg : ExecutorSettings) (id : UInt32) (e : Executor) (life : List Event)
    (before : Executor) (last : Event) (after : Executor) : Prop where
  absent : Assoc.find id e.actors = none
  run : life.foldlM (step cfg) e = some before
  present : ∀ pre post s, life = pre ++ post → pre ≠ [] → pre.foldlM (step cfg) e = some s →
    (Assoc.find id s.actors).isSome = true
  created : life ≠ []
  ended : before.step cfg last = some after
  removed : Assoc.find id after.actors = none

theorem exits_of_lateFails {actor : ManagedActor} {b : Behaviour} {p : Publication}
    (h : lateFails actor b p = true) :
    exits actor b p = true := by
  unfold lateFails at h
  simp only [Bool.and_eq_true, Bool.not_eq_true', beq_iff_eq, decide_eq_true_eq] at h
  obtain ⟨⟨⟨hcode, hinit⟩, htype⟩, hfail⟩ := h
  simp [exits, hcode, hinit, htype, hfail]

theorem notices_of_not_exits {actor : ManagedActor} {b : Behaviour} {p : Publication}
    (h : exits actor b p = false) :
    notices actor b p = [] := by
  have hlate : lateFails actor b p = false := by
    rw [Bool.eq_false_iff]
    intro hlate
    rw [exits_of_lateFails hlate] at h
    cases h
  simp [notices, hlate, h]

theorem noticesIn_of_present {cfg : ExecutorSettings} {id : UInt32} {e e' : Executor} {ev : Event}
    (hstep : e.step cfg ev = some e') (h : (Assoc.find id e'.actors).isSome = true) :
    noticesIn id e ev = [] := by
  cases ev with
  | process b now =>
    unfold noticesIn
    cases hnext : e.next with
    | none => rfl
    | some n =>
      obtain ⟨task, actor, p⟩ := n
      dsimp only
      split
      · rename_i htask
        subst htask
        have hfind := (process_next hnext hstep).2
        refine notices_of_not_exits (Bool.eq_false_iff.mpr fun hexit => ?_)
        rw [hfind.mpr hexit] at h
        cases h
      · rfl
  | deliver | flush | expire | others | overwrite => rfl

theorem emitted_of_present {cfg : ExecutorSettings} {id : UInt32} {e before : Executor}
    {life : List Event} (hrun : life.foldlM (step cfg) e = some before)
    (h : ∀ pre post s, life = pre ++ post → pre ≠ [] → pre.foldlM (step cfg) e = some s →
      (Assoc.find id s.actors).isSome = true) : (emitted cfg e life).filter (exitOf id) = [] := by
  induction life generalizing e with
  | nil => rfl
  | cons ev life ih =>
    rw [List.foldlM_cons] at hrun
    obtain ⟨e', hstep, hrest⟩ := Option.bind_eq_some_iff.mp hrun
    have hfirst := h [ev] life e' rfl (List.cons_ne_nil _ _) (by rw [Runs.foldlM_singleton, hstep])
    unfold emitted
    rw [List.filter_append, filter_emits, noticesIn_of_present hstep hfirst, hstep, Option.map_some,
      Option.getD_some]
    refine ih hrest fun pre post s heq _ hpre => h (ev :: pre) post s (by rw [heq]; rfl)
      (List.cons_ne_nil _ _) ?_
    rw [List.foldlM_cons, hstep]
    exact hpre

/-- The call of `receive_next_internal` in a step says that the actor exits. -/
def ReportsExit (cfg : ExecutorSettings) (id : UInt32) (e : Executor) (ev : Event) : Prop :=
  ∃ b now rest actor r, ev = .process b now ∧ e.ready_queue = id :: rest ∧
    Assoc.find id e.actors = some actor ∧
    receiveNextInternal cfg (actor, { e with ready_queue := rest }) b = some r ∧ r.exit = true

section

variable {cfg : ExecutorSettings} {id : UInt32} {e before after : Executor} {life : List Event}
  {last : Event}

theorem Lifetime.last_step (h : Lifetime cfg id e life before last after) :
    ∃ b now actor p, last = .process b now ∧ before.next = some (id, actor, p) ∧
      exits actor b p = true := by
  have hpresent := h.present life [] before (by simp) h.created h.run
  have hgone : ¬ (Assoc.find id after.actors).isSome = true := by simp [h.removed]
  have hown : ∃ b now, last = .process b now ∧ before.ready_queue.head? = some id := by
    by_contra hother
    refine hgone (isSome_step hpresent (fun b now hlast hhead => hother ⟨b, now, hlast, hhead⟩)
      h.ended)
  obtain ⟨b, now, rfl, hhead⟩ := hown
  obtain ⟨actor, p, hnext⟩ := next_of_run h.ended hhead hpresent
  exact ⟨b, now, actor, p, rfl, hnext, (process_next hnext h.ended).2.mp h.removed⟩

theorem Lifetime.reportsExit (h : Lifetime cfg id e life before last after) :
    ReportsExit cfg id before last := by
  obtain ⟨b, now, actor, p, rfl, hnext, hexits⟩ := h.last_step
  obtain ⟨rest, queue, hd, hready, hfind, hqueue, hhandle, -⟩ := next_ran hnext h.ended
  refine ⟨b, now, rest, actor, finish p hd, rfl, hready, hfind, ?_,
    (handle_spec hhandle).exit.trans hexits⟩
  unfold receiveNextInternal
  simp only [hqueue, hhandle, Option.map_some]

/-- In its life an actor has exactly one exit notice, in the step in which it exits, if and only if
this step is not the failure of its late initialisation. -/
theorem one_notice_iff (h : Lifetime cfg id e life before last after) :
    ReportsExit cfg id before last ∧
    after.published = e.published ++ (emitted cfg e (life ++ [last])).map Prod.snd ∧
    (∀ pre s, pre <+: life ++ [last] → pre.foldlM (step cfg) e = some s →
      s.published = e.published ++ (emitted cfg e pre).map Prod.snd) ∧
    emitted cfg e (life ++ [last]) = emitted cfg e life ++ emits cfg before last ∧
    (((emitted cfg e life).filter (exitOf id) = [] ∧
      ((emits cfg before last).filter (exitOf id)).length = 1) ↔
      before.lateFailure last = false) ∧
    (((emitted cfg e (life ++ [last])).filter (exitOf id)).length = 1 ↔
      before.lateFailure last = false) := by
  have hrun : (life ++ [last]).foldlM (step cfg) e = some after := by
    rw [List.foldlM_append, h.run]
    exact (Runs.foldlM_singleton _ _ _).trans h.ended
  have hsplit : emitted cfg e (life ++ [last]) = emitted cfg e life ++ emits cfg before last := by
    rw [emitted_append h.run]
    simp [emitted, h.ended]
  have hbefore := emitted_of_present h.run h.present
  have hlast : ((emits cfg before last).filter (exitOf id)).length = 1 ↔
      before.lateFailure last = false := by
    obtain ⟨b, now, actor, p, rfl, hnext, hexits⟩ := h.last_step
    have hnotices : noticesIn id before (.process b now) = notices actor b p := by
      simp [noticesIn, hnext]
    have hlate : before.lateFailure (.process b now) = lateFails actor b p := by
      simp [lateFailure, hnext]
    rw [filter_emits, hnotices, hlate]
    cases hfails : lateFails actor b p with
    | false => simp [notices, fromLifetime, hfails, hexits]
    | true => simp [notices, fromLifetime, hfails, hexits]
  refine ⟨h.reportsExit, run_published hrun, fun _ _ _ hpre => run_published hpre, hsplit, ?_, ?_⟩
  · rw [hbefore, ← hlast]
    exact and_iff_right rfl
  · rw [hsplit, List.filter_append, hbefore, List.nil_append]
    exact hlast

theorem present_cons {ev : Event} {e' : Executor} (hstep : e.step cfg ev = some e')
    (hfirst : (Assoc.find id e'.actors).isSome = true)
    (hrest : ∀ pre post s, life = pre ++ post → pre ≠ [] → pre.foldlM (step cfg) e' = some s →
      (Assoc.find id s.actors).isSome = true) :
    ∀ pre post s, ev :: life = pre ++ post → pre ≠ [] → pre.foldlM (step cfg) e = some s →
      (Assoc.find id s.actors).isSome = true := by
  intro pre post s heq hne hrun
  cases pre with
  | nil => exact absurd rfl hne
  | cons ev' pre =>
    obtain ⟨rfl, hlife⟩ := List.cons.inj heq
    rw [List.foldlM_cons, hstep] at hrun
    cases pre with
    | nil =>
      obtain rfl : e' = s := Option.some.inj hrun
      exact hfirst
    | cons ev'' pre => exact hrest _ post s hlife (List.cons_ne_nil _ _) hrun

theorem present_nil : ∀ pre post s, [] = pre ++ post → pre ≠ [] → pre.foldlM (step cfg) e = some s →
    (Assoc.find id s.actors).isSome = true := by
  intro pre post s heq hne
  simp at heq
  exact absurd heq.1 hne

end

/-- An actor that fails with its first message. -/
def failing : Behaviour := ⟨[], ⟨[], .OK⟩, ⟨[], .OK⟩, ⟨[], .OK⟩, ⟨[], .RUNTIME_ERROR⟩, false⟩

theorem one_notice_failing :
    ∃ e before after, run luaSettings (Hub.init ⟨"node", 3⟩) 1 [] = some e ∧
      Lifetime luaSettings 1 e [.deliver 11 (spawnMessage "failing") (receiving []) 0] before
      (.process failing 0) after ∧
      ((emitted luaSettings e ([.deliver 11 (spawnMessage "failing") (receiving []) 0] ++
        [.process failing 0])).filter (exitOf 1)).length = 1 := by
  obtain ⟨e, before, after, hrun, hspawn, hlast, habsent, hpresent, hremoved, hlate⟩ :
      ∃ e before after, run luaSettings (Hub.init ⟨"node", 3⟩) 1 [] = some e ∧
        e.step luaSettings (.deliver 11 (spawnMessage "failing") (receiving []) 0) = some before ∧
        before.step luaSettings (.process failing 0) = some after ∧ Assoc.find 1 e.actors = none ∧
        (Assoc.find 1 before.actors).isSome = true ∧ Assoc.find 1 after.actors = none ∧
        before.lateFailure (.process failing 0) = false :=
    ⟨_, _, _, rfl, rfl, rfl, rfl, rfl, rfl, rfl⟩
  have hlife : Lifetime luaSettings 1 e [.deliver 11 (spawnMessage "failing") (receiving []) 0]
      before (.process failing 0) after :=
    ⟨habsent, by rw [Runs.foldlM_singleton, hspawn], present_cons hspawn hpresent present_nil,
      List.cons_ne_nil _ _, hlast,
      hremoved⟩
  exact ⟨e, before, after, hrun, hlife, (one_notice_iff hlife).2.2.2.2.2.mpr hlate⟩

/-- The code that does not run. -/
def codeMessage : Publication :=
  (messageWith "code_fetch_response" "fetch_actor_type" "broken").setAttr "fetch_actor_code"
    (.str "not lua")

def broken : Behaviour :=
  ⟨[], ⟨[.triggerCodeFetch], .NOT_READY⟩, ⟨[], .RUNTIME_ERROR⟩, ⟨[], .NOT_READY⟩, ⟨[], .OK⟩, false⟩

/-- An actor gets its code, and the code does not run: it has two exit notices. -/
theorem two_notices :
    ∃ e before after, run luaSettings (Hub.init ⟨"node", 3⟩) 1 [] = some e ∧
      Lifetime luaSettings 1 e [.deliver 11 (spawnMessage "broken") broken 0,
        .deliver 12 codeMessage broken 0] before (.process broken 0) after ∧
      after.published = e.published ++
        (emitted luaSettings e ([.deliver 11 (spawnMessage "broken") broken 0,
          .deliver 12 codeMessage broken 0] ++ [.process broken 0])).map Prod.snd ∧
      ((emitted luaSettings e ([.deliver 11 (spawnMessage "broken") broken 0,
        .deliver 12 codeMessage broken 0] ++ [.process broken 0])).filter (exitOf 1)).length =
          2 := by
  obtain ⟨e, e₁, before, after, hrun, hspawn, hcode, hlast, habsent, hpresent, hpresent', hremoved,
      hnotices⟩ :
      ∃ e e₁ before after, run luaSettings (Hub.init ⟨"node", 3⟩) 1 [] = some e ∧
        e.step luaSettings (.deliver 11 (spawnMessage "broken") broken 0) = some e₁ ∧
        e₁.step luaSettings (.deliver 12 codeMessage broken 0) = some before ∧
        before.step luaSettings (.process broken 0) = some after ∧ Assoc.find 1 e.actors = none ∧
        (Assoc.find 1 e₁.actors).isSome = true ∧ (Assoc.find 1 before.actors).isSome = true ∧
        Assoc.find 1 after.actors = none ∧ (noticesIn 1 before (.process broken 0)).length = 2 :=
    ⟨_, _, _, _, rfl, rfl, rfl, rfl, rfl, rfl, rfl, rfl, rfl⟩
  have hlife : [.deliver 11 (spawnMessage "broken") broken 0, .deliver 12 codeMessage broken
      0].foldlM (step luaSettings) e = some before := by
    rw [List.foldlM_cons, hspawn]
    exact (Runs.foldlM_singleton _ _ _).trans hcode
  have hall := present_cons hspawn hpresent (present_cons hcode hpresent' present_nil)
  refine ⟨e, before, after, hrun, ⟨habsent, hlife, hall, List.cons_ne_nil _ _, hlast, hremoved⟩, ?_,
    ?_⟩
  · refine run_published ?_
    rw [List.foldlM_append, hlife]
    exact (Runs.foldlM_singleton _ _ _).trans hlast
  · rw [emitted_append hlife, List.filter_append, emitted_of_present hlife hall]
    simp [emitted, hlast, filter_emits, fromLifetime, hnotices]

end Executor

end UActor
