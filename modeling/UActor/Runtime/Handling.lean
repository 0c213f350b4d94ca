import UActor.Runtime.Blocking

/-!
# What a running actor does to the executor

While an actor handles a message, its code makes calls, and else only its flags, its queue and what
was published change. So what every call keeps holds in the end. The timeouts and the delayed
messages are followed with this.
-/

namespace UActor

namespace Timeout

theorem mem_emplace {t u : Timeout} {timeouts : List Timeout} :
    u ∈ t.emplace timeouts ↔ u = t ∨ u ∈ timeouts := by
  unfold emplace
  split
  · rename_i hmem
    refine ⟨Or.inr, ?_⟩
    rintro (rfl | hu)
    · exact hmem
    · exact hu
  · rw [List.mem_append, List.mem_cons]
    have hsplit : u ∈ timeouts ↔ u ∈ timeouts.takeWhile (fun v => v.before t) ∨
        u ∈ timeouts.dropWhile (fun v => v.before t) := by
      rw [← List.mem_append, List.takeWhile_append_dropWhile]
    rw [hsplit]
    exact or_left_comm

end Timeout

namespace Executor

/-- The same but for the flags and the queue of the actor, and for what was published. -/
structure Touches (s s' : Frame) : Prop where
  id : s'.1.id = s.1.id
  identifier : s'.1.identifier = s.1.identifier
  waiting : s'.1.waiting = s.1.waiting
  timeout : s'.1.timeout = s.1.timeout
  subscriptions : s'.1.subscriptions = s.1.subscriptions
  rest : ∃ published, s'.2 = { s.2 with published := published }

theorem Touches.refl (s : Frame) : Touches s s := ⟨rfl, rfl, rfl, rfl, rfl, s.2.published, rfl⟩

theorem Touches.trans {s s' s'' : Frame} (h : Touches s s') (h' : Touches s' s'') :
    Touches s s'' := by
  obtain ⟨published, hrest⟩ := h.rest
  obtain ⟨published', hrest'⟩ := h'.rest
  exact ⟨h'.id.trans h.id, h'.identifier.trans h.identifier, h'.waiting.trans h.waiting,
    h'.timeout.trans h.timeout, h'.subscriptions.trans h.subscriptions,
    published', by rw [hrest', hrest]⟩

section

variable {cfg : ExecutorSettings} {R : Frame → Prop}

theorem perform_keeps {s : Frame} {calls : List Call}
    (hcall : ∀ c ∈ calls, ∀ s, R s → R (call cfg s c)) (hs : R s) :
    R (perform cfg s calls) := by
  induction calls generalizing s with
  | nil => exact hs
  | cons c calls ih =>
    rw [List.forall_mem_cons] at hcall
    exact ih hcall.2 (hcall.1 s hs)

variable {s : Frame} {b : Behaviour} {p : Publication} {h : Handled}

theorem lateInitialize_keeps {r : Reaction} (hcall : ∀ c ∈ r.calls, ∀ s, R s → R (call cfg s c))
    (htouch : ∀ {s s'}, R s → Touches s s' → R s') (hs : R s) :
    R (lateInitialize cfg s r).frame := by
  have hperform := perform_keeps hcall hs
  unfold lateInitialize
  dsimp only
  split <;> exact htouch hperform ⟨rfl, rfl, rfl, rfl, rfl, _, rfl⟩

theorem handleCode_keeps (hcode : carriesCode s.1 p = true) (hh : handleCode cfg s b p = some h)
    (hcall : ∀ c ∈ callsFor s.1 b p, ∀ s, R s → R (call cfg s c))
    (htouch : ∀ {s s'}, R s → Touches s s' → R s') (hs : R s) : R h.frame := by
  unfold handleCode at hh
  split at hh
  · rw [← Option.some.inj hh]
    exact hs
  · rename_i hinit
    have hflag : R ({ s.1 with waiting_for_code := false }, s.2) :=
      htouch hs ⟨rfl, rfl, rfl, rfl, rfl, _, rfl⟩
    dsimp only at hh
    split at hh
    · rename_i htype
      have hcalls : callsFor s.1 b p = b.late.calls := by simp [callsFor, hcode, hinit, htype]
      rw [hcalls] at hcall
      obtain ⟨_, -, rfl⟩ := Option.map_eq_some_iff.mp hh
      exact lateInitialize_keeps hcall htouch hflag
    · obtain ⟨_, -, rfl⟩ := Option.map_eq_some_iff.mp hh
      exact hflag

theorem retryCode_keeps (hcode : carriesCode s.1 p = false)
    (htimeout : p.getStrAttr "type" = some "timeout" ∧ s.1.waiting_for_code = true)
    (hcall : ∀ c ∈ callsFor s.1 b p, ∀ s, R s → R (call cfg s c))
    (htouch : ∀ {s s'}, R s → Touches s s' → R s') (hs : R s) : R (retryCode cfg s).frame := by
  unfold retryCode
  split
  · rename_i hretries
    have hcalls : callsFor s.1 b p = [.triggerCodeFetch] := by
      simp [callsFor, hcode, htimeout, hretries]
    rw [hcalls] at hcall
    exact htouch (hcall _ (List.mem_singleton.mpr rfl) s hs) ⟨rfl, rfl, rfl, rfl, rfl, _, rfl⟩
  · exact hs

theorem receive_keeps (hh : receive cfg s b p = some h)
    (hcall : ∀ c ∈ b.receive.calls, ∀ s, R s → R (call cfg s c))
    (htouch : ∀ {s s'}, R s → Touches s s' → R s') (hs : R s) : R h.frame := by
  unfold receive at hh
  split at hh
  · obtain ⟨_, -, rfl⟩ := Option.map_eq_some_iff.mp hh
    exact htouch (perform_keeps hcall hs) ⟨rfl, rfl, rfl, rfl, rfl, _, rfl⟩
  · cases hh

theorem handleMessage_keeps (hcode : carriesCode s.1 p = false)
    (htimeout : ¬ (p.getStrAttr "type" = some "timeout" ∧ s.1.waiting_for_code = true))
    (hh : handleMessage cfg s b p = some h)
    (hcall : ∀ c ∈ callsFor s.1 b p, ∀ s, R s → R (call cfg s c))
    (htouch : ∀ {s s'}, R s → Touches s s' → R s') (hs : R s) : R h.frame := by
  unfold handleMessage at hh
  by_cases hinit : s.1.initialized = true
  · have hcalls : callsFor s.1 b p = b.receive.calls := by simp [callsFor, hcode, htimeout, hinit]
    rw [if_pos hinit] at hh
    rw [hcalls] at hcall
    exact receive_keeps hh hcall htouch hs
  · rw [if_neg hinit] at hh
    dsimp only at hh
    have hwake : (∀ c ∈ b.wakeup.calls, ∀ s, R s → R (call cfg s c)) → R (wakeup cfg s b.wakeup) :=
      fun hcalls => htouch (perform_keeps hcalls hs) ⟨rfl, rfl, rfl, rfl, rfl, _, rfl⟩
    cases hresult : b.wakeup.result with
    | NONE | OK =>
      have hcalls : callsFor s.1 b p = b.wakeup.calls ++ b.receive.calls := by
        simp [callsFor, hcode, htimeout, hinit, hresult]
      rw [hresult] at hh
      rw [hcalls, List.forall_mem_append] at hcall
      exact receive_keeps hh hcall.2 htouch (hwake hcall.1)
    | NOT_READY | RUNTIME_ERROR | INITIALIZATION_ERROR =>
      have hcalls : callsFor s.1 b p = b.wakeup.calls := by
        simp [callsFor, hcode, htimeout, hinit, hresult]
      rw [hresult] at hh
      rw [hcalls] at hcall
      rw [← Option.some.inj hh]
      exact htouch (hwake hcall) ⟨rfl, rfl, rfl, rfl, rfl, _, rfl⟩

/-- What the calls keep, and what does not depend on the flags, holds after a message was
handled. -/
theorem handle_keeps (hh : handle cfg s b p = some h)
    (hcall : ∀ c ∈ callsFor s.1 b p, ∀ s, R s → R (call cfg s c))
    (htouch : ∀ {s s'}, R s → Touches s s' → R s') (hs : R s) : R h.frame := by
  unfold handle at hh
  split at hh
  · rename_i hcode
    exact handleCode_keeps hcode hh hcall htouch hs
  · rename_i hcode
    have hcode : carriesCode s.1 p = false := by simpa using hcode
    split at hh
    · rename_i htimeout
      rw [← Option.some.inj hh]
      exact retryCode_keeps hcode htimeout hcall htouch hs
    · rename_i htimeout
      exact handleMessage_keeps hcode htimeout hh hcall htouch hs

theorem finish_touches (p : Publication) (h : Handled) : Touches h.frame (finish p h).frame := by
  unfold finish
  split
  · exact Touches.refl _
  · split
    · exact ⟨rfl, rfl, rfl, rfl, rfl, _, rfl⟩
    · obtain ⟨queue, heq, -⟩ := h.frame.1.settle_eq
      dsimp only
      rw [heq]
      exact ⟨rfl, rfl, rfl, rfl, rfl, h.frame.2.published, rfl⟩

theorem received_keeps (hh : handle cfg s b p = some h)
    (hcall : ∀ c ∈ callsFor s.1 b p, ∀ s, R s → R (call cfg s c))
    (htouch : ∀ {s s'}, R s → Touches s s' → R s') (hs : R s) : R (finish p h).frame :=
  htouch (handle_keeps hh hcall htouch hs) (finish_touches p h)

end

/-! ## What the calls schedule -/

/-- A wakeup from one of these calls. -/
def Wakes (id : UInt32) (calls : List Call) (t : Timeout) : Prop :=
  ∃ now delay wakeup_id, .enqueueWakeup now delay wakeup_id ∈ calls ∧
    t = ⟨now + delay, id, true, wakeup_id⟩

/-- A publication from one of these calls, with its deadline. -/
def Delays (calls : List Call) (d : UInt32 × Publication) : Prop :=
  ∃ now p delay, .delayedPublish now p delay ∈ calls ∧ d = (now + delay, p)

/-- The schedule of `e`, with nothing more than what these calls of the actor add. -/
structure Schedules (id : UInt32) (calls : List Call) (e : Executor) (s : Frame) : Prop where
  actor_id : s.1.id = id
  timeouts : ∀ t ∈ s.2.timeouts, t ∈ e.timeouts ∨ Wakes id calls t
  delayed_messages : ∀ d ∈ s.2.delayed_messages, d ∈ e.delayed_messages ∨ Delays calls d

namespace Schedules

variable {cfg : ExecutorSettings} {id : UInt32} {calls : List Call} {e : Executor} {s : Frame}

theorem congr {s' : Frame} (h : Schedules id calls e s) (hid : s'.1.id = s.1.id)
    (htimeouts : s'.2.timeouts = s.2.timeouts)
    (hdelayed : s'.2.delayed_messages = s.2.delayed_messages) : Schedules id calls e s' :=
  ⟨hid.trans h.actor_id, by rw [htimeouts]; exact h.timeouts, by rw [hdelayed]; exact h.delayed_messages⟩

theorem touches {s' : Frame} (h : Schedules id calls e s) (ht : Touches s s') :
    Schedules id calls e s' := by
  obtain ⟨published, hrest⟩ := ht.rest
  exact h.congr ht.id (by rw [hrest]) (by rw [hrest])

theorem mono {calls' : List Call} (h : Schedules id calls e s) (hsub : ∀ c ∈ calls, c ∈ calls') :
    Schedules id calls' e s := by
  refine ⟨h.actor_id, fun t ht => (h.timeouts t ht).imp_right ?_, fun d hd =>
    (h.delayed_messages d hd).imp_right ?_⟩
  · rintro ⟨now, delay, wakeup_id, hmem, rfl⟩
    exact ⟨now, delay, wakeup_id, hsub _ hmem, rfl⟩
  · rintro ⟨now, p, delay, hmem, rfl⟩
    exact ⟨now, p, delay, hsub _ hmem, rfl⟩

theorem subscribe (h : Schedules id calls e s) (f : Filter) (arguments : SubscriptionArguments) :
    Schedules id calls e (Executor.subscribe cfg s f arguments) := by
  unfold Executor.subscribe addSubscription
  dsimp only
  split <;> exact h.congr rfl rfl rfl

theorem call {c : Call} (hc : c ∈ calls) (h : Schedules id calls e s) :
    Schedules id calls e (Executor.call cfg s c) := by
  cases c with
  | subscribe f arguments => exact h.subscribe f arguments
  | addReplySubscription => exact h.subscribe _ _
  | enqueueWakeup now delay wakeup_id =>
    refine ⟨h.actor_id, fun t ht => ?_, h.delayed_messages⟩
    rcases Timeout.mem_emplace.mp ht with rfl | ht
    · exact Or.inr ⟨now, delay, wakeup_id, hc, by rw [h.actor_id]⟩
    · exact h.timeouts t ht
  | delayedPublish now p delay =>
    refine ⟨h.actor_id, h.timeouts, fun d hd => ?_⟩
    have hd : d ∈ s.2.delayed_messages.takeWhile (fun d => d.1 ≤ now + delay) ++
        (now + delay, p) :: s.2.delayed_messages.dropWhile (fun d => d.1 ≤ now + delay) := hd
    rw [List.mem_append, List.mem_cons, or_left_comm, ← List.mem_append,
      List.takeWhile_append_dropWhile] at hd
    rcases hd with rfl | hd
    · exact Or.inr ⟨now, p, delay, hc, rfl⟩
    · exact h.delayed_messages d hd
  | unsubscribe | defferedBlockFor | triggerCodeFetch | publish | republish =>
      exact h.congr rfl rfl rfl

theorem perform {made : List Call} (h : Schedules id calls e s) (hmade : ∀ c ∈ made, c ∈ calls) :
    Schedules id calls e (Executor.perform cfg s made) :=
  perform_keeps (fun _ hc _ h => h.call (hmade _ hc)) h

end Schedules

theorem schedules_received {cfg : ExecutorSettings} {s : Frame} {b : Behaviour} {p : Publication}
    {h : Handled} (hh : handle cfg s b p = some h) :
    Schedules s.1.id (callsFor s.1 b p) s.2 (finish p h).frame :=
  received_keeps hh (fun _ hc _ hs => hs.call hc) (fun hs ht => hs.touches ht)
    ⟨rfl, fun _ ht => Or.inl ht, fun _ hd => Or.inl hd⟩

/-! ## The end of a step -/

theorem release_schedule (cfg : ExecutorSettings) (e : Executor) (actor : ManagedActor) :
    (e.release cfg actor).timeouts = e.timeouts ∧
      (e.release cfg actor).delayed_messages = e.delayed_messages := by
  unfold release
  generalize actor.subscriptions = subscriptions
  induction subscriptions generalizing e with
  | nil => exact ⟨rfl, rfl⟩
  | cons sub_id subscriptions ih => exact ih (e.removeSubscription cfg actor.id sub_id)

/-- The timeout that a step sets for its actor, if any. -/
def ownTimeout (task now : UInt32) (r : Received) : Option Timeout :=
  if r.exit = false ∧ r.next_timeout ≠ 0 ∧ r.next_timeout < UINT32_MAX then
    some ⟨now + r.next_timeout, task, false, ""⟩
  else none

theorem dispose_schedule (cfg : ExecutorSettings) (task now : UInt32) (r : Received) :
    (dispose cfg task now r).timeouts =
      ((ownTimeout task now r).map fun t => t.emplace r.frame.2.timeouts).getD
        r.frame.2.timeouts ∧
      (dispose cfg task now r).delayed_messages = r.frame.2.delayed_messages := by
  unfold dispose ownTimeout
  cases hexit : r.exit with
  | true =>
    simp only [if_true, Bool.true_eq_false, false_and, if_false, Option.map_none, Option.getD_none]
    exact release_schedule cfg _ _
  | false =>
    simp only [Bool.false_eq_true, if_false, true_and]
    by_cases hzero : r.next_timeout = 0
    · simp [hzero, setActor]
    · by_cases hmax : r.next_timeout < UINT32_MAX
      · simp [hzero, hmax, setActor]
      · simp [hzero, hmax, setActor]

section

variable {cfg : ExecutorSettings} {e e' : Executor} {b : Behaviour} {now : UInt32}

theorem mem_dispose_timeouts {task : UInt32} {r : Received} {t : Timeout}
    (ht : t ∈ (dispose cfg task now r).timeouts) :
    t ∈ r.frame.2.timeouts ∨ ownTimeout task now r = some t := by
  rw [(dispose_schedule cfg task now r).1] at ht
  cases hown : ownTimeout task now r with
  | none =>
    rw [hown] at ht
    exact Or.inl ht
  | some u =>
    rw [hown] at ht
    rcases Timeout.mem_emplace.mp ht with rfl | ht
    · exact Or.inr rfl
    · exact Or.inl ht

theorem dispose_find_other {task id : UInt32} (hne : task ≠ id) (r : Received) :
    Assoc.find id (dispose cfg task now r).actors = Assoc.find id r.frame.2.actors := by
  unfold dispose
  split
  · rw [(release_rest cfg _ _).1, Assoc.find_erase, if_neg hne]
  · have hput : Assoc.find id (r.frame.2.setActor task r.frame.1).actors =
        Assoc.find id r.frame.2.actors :=
      Assoc.find_put_ne hne _ _
    dsimp only
    split
    · exact hput
    · split <;> exact hput

theorem dispose_find_self {task : UInt32} {r : Received} (hexit : r.exit = false) :
    Assoc.find task (dispose cfg task now r).actors = some r.frame.1 := by
  have hput : Assoc.find task (r.frame.2.setActor task r.frame.1).actors = some r.frame.1 :=
    Assoc.find_put_self _ _ _
  unfold dispose
  rw [hexit]
  dsimp only
  split
  · rename_i h
    cases h
  · split
    · exact hput
    · split <;> exact hput

theorem block_of_timeout {a : ManagedActor} {block : Option (Filter × UInt32)} (h : Blocked a block)
    (ht : a.timeout < UINT32_MAX) : a.waiting = true ∧ ∃ f, block = some (f, a.timeout) := by
  cases block with
  | none =>
    rw [h.2] at ht
    exact absurd ht (by decide)
  | some block => exact ⟨h.1, block.1, by rw [h.2.2]⟩

theorem finish_timeout {s : Frame} {p : Publication} {h : Handled} (hh : handle cfg s b p = some h)
    (hs : Blocked s.1 none) (hexit : (finish p h).exit = false)
    (hzero : (finish p h).next_timeout ≠ 0) (hmax : (finish p h).next_timeout < UINT32_MAX) :
    (finish p h).next_timeout = (finish p h).frame.1.timeout ∧ (finish p h).frame.1.waiting = true ∧
      ∃ f, lastBlock (callsFor s.1 b p) = some (f, (finish p h).frame.1.timeout) := by
  have hblocked := (handle_spec hh).blocked hs
  have htimeout : (finish p h).next_timeout = h.frame.1.timeout := by
    unfold finish at hexit hzero ⊢
    split
    · rfl
    · rename_i hreturns
      rw [if_neg hreturns] at hexit hzero
      split
      · rename_i hret
        rw [if_pos hret] at hexit
        cases hexit
      · rename_i hret
        rw [if_neg hret] at hzero
        dsimp only at hzero ⊢
        unfold ManagedActor.settle at hzero ⊢
        split
        · rename_i hwaiting
          rw [if_pos hwaiting] at hzero
          split
          · rename_i hfind
            rw [hfind] at hzero
            exact absurd rfl hzero
          · rfl
        · rename_i hwaiting
          rw [if_neg hwaiting] at hzero
          split
          · rfl
          · rename_i hempty
            rw [if_neg hempty] at hzero
            exact absurd rfl hzero
  have htouches := finish_touches p h
  rw [htimeout] at hmax
  obtain ⟨hwaiting, hblock⟩ := block_of_timeout hblocked hmax
  rw [htouches.timeout, htouches.waiting]
  exact ⟨htimeout, hwaiting, hblock⟩

/-! ## New actors -/

/-- What these calls of a new actor leave: its queue, its block and the schedule, with the timeout
of the block. -/
structure Started (cfg : ExecutorSettings) (e : Executor) (id now : UInt32) (calls : List Call)
    (e' : Executor) (a : ManagedActor) : Prop where
  find : Assoc.find id e'.actors = some a
  queue : a.message_queue = [initMessage cfg]
  others : ∀ id', id' ≠ id → Assoc.find id' e'.actors = Assoc.find id' e.actors
  blocked : Blocked a (lastBlock calls)
  timeouts : ∀ t ∈ e'.timeouts, t ∈ e.timeouts ∨ Wakes id calls t ∨
    (a.timeout < UINT32_MAX ∧ t = ⟨now + a.timeout, id, false, ""⟩)
  delayed_messages : ∀ d ∈ e'.delayed_messages, d ∈ e.delayed_messages ∨ Delays calls d

theorem started_startActor {s : Frame} (hblocked : Blocked s.1 (lastBlock b.construct))
    (hqueue : s.1.message_queue = [])
    (hs : Schedules s.1.id b.construct e s)
    (hothers : ∀ id, id ≠ s.1.id → Assoc.find id s.2.actors = Assoc.find id e.actors) :
    ∃ a, Started cfg e s.1.id now (b.construct ++ b.early.calls) (startActor cfg s b now) a := by
  have hs : Schedules s.1.id (b.construct ++ b.early.calls) e s := hs.mono fun _ hc =>
    List.mem_append_left _ hc
  have hreply : Frames s (if cfg.reply_sub_optional then s else call cfg s .addReplySubscription) ∧
      (if cfg.reply_sub_optional then s else call cfg s .addReplySubscription).1.message_queue =
        [] ∧
      Blocked (if cfg.reply_sub_optional then s else call cfg s .addReplySubscription).1
        (lastBlock b.construct) ∧
      Schedules s.1.id (b.construct ++ b.early.calls) e
        (if cfg.reply_sub_optional then s else call cfg s .addReplySubscription) := by
    split
    · exact ⟨Frames.refl s, hqueue, hblocked, hs⟩
    · obtain ⟨hframes, hq⟩ := call_frames cfg s .addReplySubscription
      exact ⟨hframes, hq.trans hqueue, blocked_call hblocked .addReplySubscription,
        hs.subscribe _ _⟩
  unfold startActor
  dsimp only
  generalize (if cfg.reply_sub_optional then s else call cfg s .addReplySubscription) = s₁ at hreply
  obtain ⟨hframes, hq, hblocked₁, hs₁⟩ := hreply
  obtain ⟨hearly, hq₂⟩ := perform_frames cfg (s₁.1, s₁.2.publish s₁.1.creationMessage) b.early.calls
  have hblocked₂ : Blocked (perform cfg (s₁.1, s₁.2.publish s₁.1.creationMessage) b.early.calls).1
      (lastBlock (b.construct ++ b.early.calls)) := by
    have hpublish : Blocked (s₁.1, s₁.2.publish s₁.1.creationMessage).1 (lastBlock b.construct) :=
      hblocked₁
    rw [lastBlock, List.foldl_append]
    exact blocked_perform hpublish b.early.calls
  have hcreation : Schedules s.1.id (b.construct ++ b.early.calls) e
      (s₁.1, s₁.2.publish s₁.1.creationMessage) :=
    hs₁.congr rfl rfl rfl
  have hs₂ : Schedules s.1.id (b.construct ++ b.early.calls) e
      (perform cfg (s₁.1, s₁.2.publish s₁.1.creationMessage) b.early.calls) :=
    hcreation.perform fun _ hc => List.mem_append_right _ hc
  generalize perform cfg (s₁.1, s₁.2.publish s₁.1.creationMessage) b.early.calls =
    s₂ at hearly hq₂ hblocked₂ hs₂
  have hid : s₂.1.id = s.1.id := hearly.id.trans hframes.id
  have hactors : s₂.2.actors = s.2.actors := hearly.actors.trans hframes.actors
  have hempty : s₂.1.message_queue = [] := hq₂.trans hq
  have heq : (ManagedActor.enqueue { s₂.1 with initialized := decide (b.early.result = .OK) }
    (initMessage cfg)).1 =
      { s₂.1 with initialized := decide (b.early.result = .OK), message_queue :=
        [initMessage cfg] } := by
    rcases ManagedActor.enqueue_cases { s₂.1 with initialized := decide (b.early.result = .OK) }
      (initMessage cfg) with
      ⟨h, -⟩ | ⟨_, h, -⟩
    · rw [h, hempty]
    · rw [h, hempty]
      rfl
  rw [heq, hid]
  refine ⟨{ s₂.1 with initialized := decide (b.early.result = .OK), message_queue :=
    [initMessage cfg] }, Assoc.find_put_self _ _ _, rfl, ?_, hblocked₂.congr rfl rfl rfl, ?_, ?_⟩
  · intro id' hne
    rw [setActor, Assoc.find_put_ne (Ne.symm hne)]
    have : Assoc.find id' s₂.2.actors = Assoc.find id' e.actors := by
      rw [hactors]; exact hothers id' hne
    split <;> exact this
  · intro t ht
    simp only [setActor] at ht
    split at ht
    · rename_i hmax
      rcases Timeout.mem_emplace.mp ht with rfl | ht
      · exact Or.inr (Or.inr ⟨hmax, rfl⟩)
      · exact (hs₂.timeouts t ht).imp_right Or.inl
    · exact (hs₂.timeouts t ht).imp_right Or.inl
  · intro d hd
    refine hs₂.delayed_messages d ?_
    simp only [setActor] at hd
    split at hd <;> exact hd

theorem started_of_construct {s : Frame} (hblocked : Blocked s.1 (lastBlock b.construct))
    (hqueue : s.1.message_queue = [])
    (hid : s.1.id = e.next_id) (hactors : s.2.actors = e.actors)
    (hs : Schedules s.1.id b.construct e s) :
    ∃ a, Started cfg e e.next_id now (b.construct ++ b.early.calls)
      (startActor cfg (s.1, s.2.setActor e.next_id s.1) b now) a := by
  generalize hentered : s.2.setActor e.next_id s.1 = entered
  have hschedule : Schedules s.1.id b.construct e (s.1, entered) := by
    rw [← hentered]
    exact hs.congr rfl rfl rfl
  have hothers : ∀ id, id ≠ s.1.id → Assoc.find id entered.actors = Assoc.find id e.actors := by
    intro id hne
    have hne : e.next_id ≠ id := by rw [← hid]; exact Ne.symm hne
    rw [← hentered, setActor, Assoc.find_put_ne hne, hactors]
  have hstarted : ∃ a, Started cfg e s.1.id now (b.construct ++ b.early.calls)
    (startActor cfg (s.1, entered) b now) a :=
    started_startActor (e := e) (s := (s.1, entered)) hblocked hqueue hschedule hothers
  rw [hid] at hstarted
  exact hstarted

theorem addActorBase_cases {p : Publication} (h : e.addActorBase cfg p b now = some e') :
    (e' = { e with next_id := e.next_id + 1 } ∧ (Assoc.find e.next_id e.actors).isSome = true) ∨
      (Assoc.find e.next_id e.actors = none ∧
        ∃ a, Started cfg e e.next_id now (b.construct ++ b.early.calls) e' a) := by
  unfold addActorBase at h
  split at h
  · rename_i node_id actor_type actor_version instance_id _ _ _ _
    dsimp only at h
    split at h
    · rename_i htaken
      exact Or.inl ⟨(Option.some.inj h).symm, htaken⟩
    · rename_i hfree
      refine Or.inr ⟨by simpa using hfree, ?_⟩
      rw [← Option.some.inj h]
      generalize hnew : ManagedActor.create e.next_id ⟨node_id, actor_type, instance_id⟩
        actor_version = new at h ⊢
      have hfirst : Blocked (new, { e with next_id := e.next_id + 1 }).1 none := by
        rw [← hnew]
        exact ⟨rfl, rfl⟩
      have hblocked : Blocked (perform cfg (new, { e with next_id := e.next_id + 1 }) b.construct).1
          (lastBlock b.construct) := blocked_perform hfirst b.construct
      obtain ⟨hframes, hqueue⟩ := perform_frames cfg (new, { e with next_id := e.next_id + 1 })
        b.construct
      have hbefore : Schedules new.id b.construct e (new, { e with next_id := e.next_id + 1 }) :=
        ⟨rfl, fun _ ht => Or.inl ht, fun _ hd => Or.inl hd⟩
      have hs : Schedules new.id b.construct e
          (perform cfg (new, { e with next_id := e.next_id + 1 }) b.construct) :=
        hbefore.perform fun _ hc => hc
      generalize perform cfg (new, { e with next_id := e.next_id + 1 }) b.construct =
        s at hblocked hframes hqueue hs ⊢
      have hid : s.1.id = e.next_id := hframes.id.trans (by rw [← hnew]; rfl)
      rw [← hs.actor_id] at hs
      exact started_of_construct hblocked (hqueue.trans (by rw [← hnew]; rfl)) hid hframes.actors hs
  · cases h

end

end Executor

end UActor
