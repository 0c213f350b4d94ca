import UActor.Runtime.Scheduling

/-!
# Blocked actors

What an actor gets that waits for a pattern.
-/

namespace UActor

namespace Executor

variable {cfg : ExecutorSettings}

/-- The message that the next actor gets in its `receive` function. -/
def passes (cfg : ExecutorSettings) (e : Executor) (b : Behaviour) :
    Option (UInt32 × Publication) :=
  match e.ready_queue with
  | [] => none
  | task :: ready_queue =>
    match Assoc.find task e.actors with
    | none => none
    | some actor =>
      (receiveNextInternal cfg (actor, { e with ready_queue := ready_queue }) b).bind fun r =>
        r.passed.map fun p => (task, p)

/-- What the `receive` functions get in a run. -/
def received (cfg : ExecutorSettings) : Executor → List Event → List (UInt32 × Publication)
  | _, [] => []
  | e, ev :: events =>
    let now := match ev with
      | .process b _ => (e.passes cfg b).toList
      | .deliver .. | .flush _ | .expire _ | .others _ | .overwrite .. => []
    now ++ ((e.step cfg ev).map fun e' => received cfg e' events).getD []

/-- An initialised actor, or one that just woke up, handles a message, blocks, and lives on. -/
structure BlockStep (cfg : ExecutorSettings) (e : Executor) (b : Behaviour) (now : UInt32)
    (e' : Executor) (id : UInt32) (actor : ManagedActor) (f : Filter) (timeout : UInt32) :
    Prop where
  find : Assoc.find id e.actors = some actor
  initialized : actor.initialized = true ∨ b.wakeup.result = .OK
  passed : ∃ p, e.passes cfg b = some (id, p)
  block : lastBlock b.receive.calls = some (f, timeout)
  step : e.process cfg b now = some e'
  alive : (Assoc.find id e'.actors).isSome = true

/-- If the message matches, `receive` gets it, and what it gets matches too. -/
def Plain (actor_type : String) (f : Filter) (p : Publication) : Prop :=
  f.matches p = true → (p.getStrAttr "type" = some "code_fetch_response" →
    actor_type = "code_store") ∧
    ∀ c, content p = some c → f.matches c = true

/-- What arrives for the actor is plain, and no script writes to what it was sent. -/
def Undisturbed (id : UInt32) (actor_type : String) (f : Filter) (e : Executor) : Event → Prop
  | .deliver sub_id p _ _ =>
    sub_id ≠ e.executor_subscription_id → id ∈ Multimap.members sub_id e.subscription_mapping →
      Plain actor_type f p ∧ Plain actor_type f p.copy
  | .overwrite id' _ _ => id' ≠ id
  | .flush _ | .expire _ | .process _ _ | .others _ => True

/-- A timeout of the actor expired in the run, and this is its message. -/
def Triggered (cfg : ExecutorSettings) (e : Executor) (actor : ManagedActor) (events : List Event)
    (p : Publication) :
    Prop :=
  ∃ before start after e' t, events = before ++ .expire start :: after ∧
    before.foldlM (step cfg) e = some e' ∧
    e'.timeouts.head? = some t ∧ t.timeout < start ∧ t.actor_id = actor.id ∧
    p = actor.timeoutMessage t.user_defined t.trigger_id

/-! ## What the queue of a blocked actor holds -/

section Waiting

variable (actor : ManagedActor) (f : Filter) (Sent : Publication → Prop)

/-- The actor is blocked, and has its code. -/
def WaitsFor (id : UInt32) (a : ManagedActor) : Prop :=
  id = actor.id → a.identifier = actor.identifier ∧ a.waiting = true ∧ a.pattern = f ∧
    a.initialized = true ∧
    a.waiting_for_code = false

/-- A message that ends the block. -/
def Awaited (p : Publication) : Prop :=
  ManagedActor.isExit p = true ∨ Sent p ∨ f.matches p = true ∧ Plain actor.identifier.actor_type f p

/-- The next message of the actor ends the block. -/
def Served (id : UInt32) (a : ManagedActor) : Prop :=
  id = actor.id → ∃ p queue, a.message_queue = p :: queue ∧ Awaited actor f Sent p

end Waiting

variable {actor : ManagedActor} {f : Filter} {Sent Sent' : Publication → Prop}

theorem allows_waiting {id : UInt32} {p : Publication}
    (hp : id = actor.id → Plain actor.identifier.actor_type f p) :
    Allows (WaitsFor actor f) (Served actor f Sent) id p := by
  have hsame : ∀ a : ManagedActor, WaitsFor actor f id a → WaitsFor actor f id (a.enqueue p).1 := by
    intro a ha hid
    obtain ⟨queue, -, heq⟩ := a.enqueue_eq p
    rw [heq]
    exact ha hid
  refine ⟨hsame, fun a ha hready hid => ?_, fun a ha hserved hid => ?_⟩
  · obtain ⟨-, hwaiting, hpattern, -, -⟩ := ha hid
    rcases a.enqueue_cases p with ⟨heq, hwhy⟩ | ⟨ready, heq, hwhy⟩
    · refine ⟨p, a.message_queue, by rw [heq], ?_⟩
      rcases hwhy with hexit | ⟨-, hmatches⟩
      · exact Or.inl hexit
      · rw [hpattern] at hmatches
        exact Or.inr (Or.inr ⟨hmatches, hp hid⟩)
    · rw [heq] at hready
      rw [hwhy hready] at hwaiting
      simp at hwaiting
  · obtain ⟨q, queue, hqueue, hawaited⟩ := hserved hid
    rcases a.enqueue_cases p with ⟨heq, hwhy⟩ | ⟨ready, heq, -⟩
    · refine ⟨p, a.message_queue, by rw [heq], ?_⟩
      rcases hwhy with hexit | ⟨-, hmatches⟩
      · exact Or.inl hexit
      · rw [(ha hid).2.2.1] at hmatches
        exact Or.inr (Or.inr ⟨hmatches, hp hid⟩)
    · exact ⟨q, queue ++ [p], by rw [heq, hqueue]; rfl, hawaited⟩

theorem Served.mono (hsent : ∀ p, Sent p → Sent' p) {id : UInt32} {a : ManagedActor}
    (h : Served actor f Sent id a) :
    Served actor f Sent' id a := by
  intro hid
  obtain ⟨p, queue, hqueue, hawaited⟩ := h hid
  exact ⟨p, queue, hqueue, hawaited.imp_right (Or.imp_left (hsent p))⟩

theorem Ready.mono {A P P' : UInt32 → ManagedActor → Prop} {e : Executor} (h : Ready A P e)
    (hP : ∀ id a, P id a → P' id a) : Ready A P' e := by
  refine ⟨h.every, h.nodup, fun id hid => ?_⟩
  obtain ⟨a, hfind, hready⟩ := h.alive id hid
  exact ⟨a, hfind, hP id a hready⟩

/-! ## What an initialised actor gets -/

theorem finish_passed (p : Publication) (h : Handled) : (finish p h).passed = h.passed := by
  unfold finish
  split
  · rfl
  · split <;> rfl

theorem receive_passed {s : Frame} {b : Behaviour} {p : Publication} {h : Handled}
    (hh : receive cfg s b p = some h) :
    ∃ c, content p = some c ∧ h.passed = some c := by
  unfold receive at hh
  split at hh
  · obtain ⟨c, hc, rfl⟩ := Option.map_eq_some_iff.mp hh
    exact ⟨c, hc, rfl⟩
  · simp at hh

theorem handle_initialized {s : Frame} {b : Behaviour} {p : Publication}
    (hinit : s.1.initialized = true) (hcode : carriesCode s.1 p = false)
    (hwaiting : s.1.waiting_for_code = false) :
    handle cfg s b p = receive cfg s b p := by
  unfold handle handleMessage
  rw [hcode, hwaiting, hinit]
  simp

theorem carriesCode_eq_false {a : ManagedActor} {p : Publication}
    (h : p.getStrAttr "type" = some "code_fetch_response" →
      a.identifier.actor_type = "code_store") :
    carriesCode a p = false := by
  unfold carriesCode
  by_cases htype : p.getStrAttr "type" = some "code_fetch_response"
  · simp [h htype]
  · simp [htype]

theorem content_eq_self {p : Publication} {type : String} (h : p.getStrAttr "type" = some type)
    (hne : type ≠ "__unicast_wrapper") : content p = some p := by
  unfold content
  rw [if_neg]
  rw [h]
  exact fun heq => hne (Option.some.inj heq)

theorem type_timeoutMessage (a : ManagedActor) (user_defined : Bool) (wakeup_id : String) :
    (a.timeoutMessage user_defined wakeup_id).getStrAttr "type" = some
    (if user_defined then "wakeup" else "timeout") := by
  unfold ManagedActor.timeoutMessage
  cases user_defined with
  | false => simp
  | true =>
    rw [if_pos rfl, Publication.getStrAttr_setAttr_ne _ (by decide)]
    simp

theorem timeoutMessage_congr {a a' : ManagedActor} (h : a.identifier = a'.identifier)
    (user_defined : Bool) (wakeup_id : String) :
    a.timeoutMessage user_defined wakeup_id = a'.timeoutMessage user_defined wakeup_id := by
  unfold ManagedActor.timeoutMessage ManagedActor.message
  rw [h]

theorem type_of_isExit {p : Publication} (h : ManagedActor.isExit p = true) :
    p.getStrAttr "type" = some "exit" := by
  simpa [ManagedActor.isExit] using h

theorem Awaited.code {p : Publication} (h : Awaited actor f Sent p)
    (hsent : ∀ p, Sent p → ∃ user_defined wakeup_id, p = actor.timeoutMessage user_defined
      wakeup_id)
    (htype : p.getStrAttr "type" = some "code_fetch_response") :
    actor.identifier.actor_type = "code_store" := by
  rcases h with hexit | hp | ⟨hmatches, hplain⟩
  · rw [type_of_isExit hexit] at htype
    exact absurd (Option.some.inj htype) (by decide)
  · obtain ⟨user_defined, wakeup_id, rfl⟩ := hsent p hp
    rw [type_timeoutMessage] at htype
    have htype := Option.some.inj htype
    split at htype
    · exact absurd htype (by decide)
    · exact absurd htype (by decide)
  · exact (hplain hmatches).1 htype

theorem Awaited.content {p c : Publication} (h : Awaited actor f Sent p)
    (hsent : ∀ p, Sent p → ∃ user_defined wakeup_id, p = actor.timeoutMessage user_defined
      wakeup_id)
    (hc : content p = some c) : f.matches c = true ∨ ManagedActor.isExit c = true ∨ Sent c := by
  rcases h with hexit | hp | ⟨hmatches, hplain⟩
  · rw [content_eq_self (type_of_isExit hexit) (by decide)] at hc
    rw [← Option.some.inj hc]
    exact Or.inr (Or.inl hexit)
  · have hself : Executor.content p = some p := by
      obtain ⟨user_defined, wakeup_id, rfl⟩ := hsent p hp
      refine content_eq_self (type_timeoutMessage _ _ _) ?_
      split <;> decide
    rw [hself] at hc
    rw [← Option.some.inj hc]
    exact Or.inr (Or.inr hp)
  · exact Or.inl ((hplain hmatches).2 c hc)

/-! ## Actors that stay -/

theorem isSome_put {e : Executor} {id id' : UInt32} {a : ManagedActor}
    (h : (Assoc.find id e.actors).isSome = true) :
    (Assoc.find id (Assoc.put id' a e.actors)).isSome = true := by
  rw [Assoc.find_put]
  split
  · rfl
  · exact h

theorem isSome_pushReady {e : Executor} {id id' : UInt32}
    (h : (Assoc.find id e.actors).isSome = true) :
    (Assoc.find id (e.pushReady id').actors).isSome = true := by
  unfold Executor.pushReady
  split <;> exact h

theorem isSome_offer {e : Executor} {id id' : UInt32} {a : ManagedActor} {p : Publication}
    (h : (Assoc.find id e.actors).isSome = true) :
    (Assoc.find id (e.offer id' a p).actors).isSome = true := by
  have hset : (Assoc.find id (e.setActor id' (a.enqueue p).1).actors).isSome = true := isSome_put h
  unfold Executor.offer
  dsimp only
  split
  · exact isSome_pushReady hset
  · exact hset

theorem isSome_offerAll {e : Executor} {id : UInt32} {p : Publication} {count : Nat}
    {ids : List UInt32} (h : (Assoc.find id e.actors).isSome = true) :
    (Assoc.find id (offerAll p count ids e).actors).isSome = true := by
  induction ids generalizing e count with
  | nil => exact h
  | cons id' ids ih =>
    unfold Executor.offerAll
    split
    · exact ih h
    · exact ih (isSome_offer h)

theorem isSome_addActorBase {e e' : Executor} {id : UInt32} {p : Publication} {b : Behaviour}
    {now : UInt32} (h : (Assoc.find id e.actors).isSome = true)
    (hadd : e.addActorBase cfg p b now = some e') :
    (Assoc.find id e'.actors).isSome = true := by
  unfold Executor.addActorBase at hadd
  split at hadd
  · rename_i node_id actor_type actor_version instance_id _ _ _ _
    dsimp only at hadd
    split at hadd
    · rw [← Option.some.inj hadd]
      exact h
    · have hactors := (perform_frames cfg
        (ManagedActor.create e.next_id ⟨node_id, actor_type, instance_id⟩ actor_version,
          { e with next_id := e.next_id + 1 })
        b.construct).1.actors
      generalize perform cfg (ManagedActor.create e.next_id ⟨node_id, actor_type, instance_id⟩
        actor_version, { e with next_id := e.next_id + 1 }) b.construct = s at hadd hactors
      obtain ⟨a, -, -, hput, -⟩ := startActor_spec cfg (s.1, s.2.setActor e.next_id s.1) b now
      rw [← Option.some.inj hadd, hput]
      refine isSome_put (isSome_put ?_)
      rw [hactors]
      exact h
  · simp at hadd

theorem isSome_process {e e' : Executor} {id : UInt32} {b : Behaviour} {now : UInt32}
    (h : (Assoc.find id e.actors).isSome = true) (hother : e.ready_queue.head? ≠ some id)
    (hproc : e.process cfg b now = some e') : (Assoc.find id e'.actors).isSome = true := by
  cases process_cases hproc with
  | idle => exact h
  | gone => exact h
  | ran task rest a p queue hd hready hfind hqueue hhandle =>
    have hne : task ≠ id := by
      rintro rfl
      exact hother (by rw [hready]; rfl)
    have hactors := ((handle_spec hhandle).frames.trans (finish_frames p hd).1).actors
    unfold Executor.dispose
    split
    · rw [(release_rest cfg _ (finish p hd).frame.1).1, Assoc.find_erase, if_neg hne, hactors]
      exact h
    · have hset : (Assoc.find id
          ((finish p hd).frame.2.setActor task (finish p hd).frame.1).actors).isSome = true := by
        refine isSome_put ?_
        rw [hactors]
        exact h
      dsimp only
      split
      · exact hset
      · split <;> exact hset

/-- Only its own task ends an actor. -/
theorem isSome_step {e e' : Executor} {id : UInt32} {ev : Event}
    (h : (Assoc.find id e.actors).isSome = true)
    (hother : ∀ b now, ev = .process b now → e.ready_queue.head? ≠ some id)
    (hstep : e.step cfg ev = some e') :
    (Assoc.find id e'.actors).isSome = true := by
  cases ev with
  | deliver sub_id p b now =>
    simp only [Executor.step, Executor.deliver] at hstep
    split at hstep
    · split at hstep
      · exact isSome_addActorBase h hstep
      · simp at hstep
    · rw [← Option.some.inj hstep]
      exact isSome_offerAll h
  | flush now =>
    rw [← Option.some.inj hstep]
    unfold Executor.flush
    split
    · exact h
    · split <;> exact h
  | expire start =>
    rw [← Option.some.inj hstep]
    unfold Executor.expire
    split
    · exact h
    · split
      · dsimp only
        split
        · exact h
        · exact isSome_pushReady (isSome_put h)
      · exact h
  | process b now => exact isSome_process h (hother b now rfl) hstep
  | others ev =>
    simp only [Executor.step] at hstep
    split at hstep
    · simp at hstep
    · obtain ⟨hub, -, rfl⟩ := Option.map_eq_some_iff.mp hstep
      exact h
  | overwrite id' i p =>
    rw [← Option.some.inj hstep]
    unfold Executor.overwrite
    split
    · exact h
    · exact isSome_put h

/-! ## Runs -/

theorem passes_eq {e : Executor} {b : Behaviour} {task : UInt32} {rest : List UInt32}
    {a : ManagedActor} {p : Publication}
    {queue : List Publication} {h : Handled} (hready : e.ready_queue = task :: rest)
    (hfind : Assoc.find task e.actors = some a) (hqueue : a.message_queue = p :: queue)
    (hhandle : handle cfg (unblock a queue, { e with ready_queue := rest }) b p = some h) :
    e.passes cfg b = h.passed.map fun c => (task, c) := by
  unfold passes receiveNextInternal
  rw [hready]
  dsimp only
  rw [hfind]
  dsimp only
  rw [hqueue]
  dsimp only
  rw [hhandle, Option.map_some, Option.bind_some, finish_passed]

theorem ran_of_passes {e e' : Executor} {b : Behaviour} {now id : UInt32} {c : Publication}
    (hpasses : e.passes cfg b = some (id, c)) (h : e.process cfg b now = some e') :
    ∃ rest actor p queue hd, e.ready_queue = id :: rest ∧ Assoc.find id e.actors = some actor ∧
      actor.message_queue = p :: queue ∧
      handle cfg (unblock actor queue, { e with ready_queue := rest }) b p = some hd ∧
      e' = dispose cfg id now (finish p hd) ∧ hd.passed = some c := by
  cases process_cases h with
  | idle hready =>
    unfold passes at hpasses
    rw [hready] at hpasses
    cases hpasses
  | gone task rest hready hfind =>
    unfold passes at hpasses
    simp [hready, hfind] at hpasses
  | ran task rest actor p queue hd hready hfind hqueue hhandle =>
    rw [passes_eq hready hfind hqueue hhandle] at hpasses
    obtain ⟨c', hpassed, heq⟩ := Option.map_eq_some_iff.mp hpasses
    obtain ⟨rfl, rfl⟩ := Prod.mk.inj heq
    exact ⟨rest, actor, p, queue, hd, hready, hfind, hqueue, hhandle, rfl, hpassed⟩

theorem passes_of_waiting {e e' : Executor} {b : Behaviour} {now : UInt32}
    (h : Ready (WaitsFor actor f) (Served actor f Sent) e)
    (hsent : ∀ p, Sent p → ∃ user_defined wakeup_id, p = actor.timeoutMessage user_defined
      wakeup_id)
    (hhead : e.ready_queue.head? = some actor.id) (hproc : e.process cfg b now = some e') :
    ∃ p c, Awaited actor f Sent p ∧ content p = some c ∧ e.passes cfg b = some (actor.id, c) := by
  obtain ⟨rest, hready⟩ := List.head?_eq_some_iff.mp hhead
  obtain ⟨a, hfind, hserved⟩ := h.alive actor.id (by rw [hready]; exact List.mem_cons_self)
  obtain ⟨p, queue, hd, hqueue, hhandle, -⟩ := process_ran hready hfind hproc
  obtain ⟨hident, -, -, hinit, hcode⟩ := (h.every actor.id a hfind).2 rfl
  obtain ⟨p', queue', hqueue', hawaited⟩ := hserved rfl
  rw [hqueue] at hqueue'
  obtain ⟨rfl, rfl⟩ := List.cons.inj hqueue'
  have hcarries : carriesCode (unblock a queue) p = false := by
    refine carriesCode_eq_false fun htype => ?_
    have : (unblock a queue).identifier = actor.identifier := hident
    rw [this]
    exact hawaited.code hsent htype
  have hhandle' := hhandle
  rw [handle_initialized hinit hcarries hcode] at hhandle'
  obtain ⟨c, hc, hpassed⟩ := receive_passed hhandle'
  refine ⟨p, c, hawaited, hc, ?_⟩
  rw [passes_eq hready hfind hqueue hhandle, hpassed, Option.map_some]

theorem waiting_step {e e' : Executor} {ev : Event}
    (h : Ready (WaitsFor actor f) (Served actor f Sent) e)
    (halive : (Assoc.find actor.id e.actors).isSome = true)
    (hsent : ∀ p, Sent p → ∃ user_defined wakeup_id, p = actor.timeoutMessage user_defined
      wakeup_id) (hmono : ∀ p, Sent p → Sent' p) (hstep : e.step cfg ev = some e')
    (hquiet : ∀ b now, ev = .process b now → ∀ m, e.passes cfg b ≠ some (actor.id, m))
    (hplain : Undisturbed actor.id actor.identifier.actor_type f e ev)
    (htimeout : ∀ start t, ev = .expire start → e.timeouts.head? = some t → t.timeout < start →
      t.actor_id = actor.id →
      Sent' (actor.timeoutMessage t.user_defined t.trigger_id)) :
    Ready (WaitsFor actor f) (Served actor f Sent') e' ∧
      (Assoc.find actor.id e'.actors).isSome = true := by
  have hother : ∀ b now, ev = .process b now → e.ready_queue.head? ≠ some actor.id := by
    rintro b now rfl hhead
    obtain ⟨_, c, -, -, hpasses⟩ := passes_of_waiting h hsent hhead hstep
    exact hquiet b now rfl c hpasses
  have hfresh : ∀ a, Assoc.find e.next_id e.actors = none → WaitsFor actor f e.next_id a ∧
    Served actor f Sent' e.next_id a := by
    intro a hfree
    have hne : e.next_id ≠ actor.id := by
      intro heq
      rw [heq] at hfree
      rw [hfree] at halive
      simp at halive
    exact ⟨fun heq => absurd heq hne, fun heq => absurd heq hne⟩
  have hmore : Ready (WaitsFor actor f) (Served actor f Sent') e := h.mono fun _ _ =>
    Served.mono hmono
  refine ⟨hmore.step hstep ?_ ?_ ?_ ?_ ?_, isSome_step halive hother hstep⟩
  · rintro sub p b now rfl hne id hid
    have hp : id = actor.id → Plain actor.identifier.actor_type f p ∧
        Plain actor.identifier.actor_type f p.copy :=
      fun heq => hplain hne (heq ▸ hid)
    exact ⟨allows_waiting fun heq => (hp heq).1, allows_waiting fun heq => (hp heq).2⟩
  · exact fun a hfree _ _ => hfresh a hfree
  · rintro start rfl t a hhead hdue hwaits
    refine ⟨hwaits, fun heq => ⟨_, _, rfl, Or.inr (Or.inl ?_)⟩⟩
    rw [timeoutMessage_congr (hwaits heq).1]
    exact htimeout start t rfl hhead hdue heq
  · rintro id i p rfl a -
    exact ⟨fun hwaits => hwaits, fun _ heq => absurd heq hplain⟩
  · rintro b now rfl hproc
    refine hmore.process hproc fun task rest _ _ _ _ hready _ _ _ _ => ?_
    have hne : task ≠ actor.id := by
      rintro rfl
      exact hother b now rfl (by rw [hready]; rfl)
    exact ⟨fun heq => absurd heq hne, fun _ heq => absurd heq hne⟩

/-- All steps of a run in which the actor gets no message. -/
theorem waiting_run {e₁ e₂ : Executor} {events : List Event}
    (h : Ready (WaitsFor actor f) (Served actor f fun _ => False) e₁)
    (halive : (Assoc.find actor.id e₁.actors).isSome = true)
    (hrun : events.foldlM (step cfg) e₁ = some e₂)
    (hquiet : ∀ before b now after e, events = before ++ .process b now :: after →
      before.foldlM (step cfg) e₁ = some e → ∀ m, e.passes cfg b ≠ some (actor.id, m))
    (hplain : ∀ before ev after e, events = before ++ ev :: after →
      before.foldlM (step cfg) e₁ = some e →
      Undisturbed actor.id actor.identifier.actor_type f e ev) :
    Ready (WaitsFor actor f) (Served actor f (Triggered cfg e₁ actor events)) e₂ ∧
      (Assoc.find actor.id e₂.actors).isSome = true := by
  induction events using List.reverseRecOn generalizing e₂ with
  | nil =>
    rw [← Option.some.inj hrun]
    exact ⟨h.mono fun _ _ => Served.mono fun _ hfalse => hfalse.elim, halive⟩
  | append_singleton events ev ih =>
    rw [Runs.foldlM_snoc] at hrun
    obtain ⟨e, hbefore, hlast⟩ := Option.bind_eq_some_iff.mp hrun
    obtain ⟨hready, hstill⟩ := ih hbefore
      (fun before b now after e' heq => hquiet before b now (after ++ [ev]) e' (by simp [heq]))
      (fun before ev' after e' heq => hplain before ev' (after ++ [ev]) e' (by simp [heq]))
    refine waiting_step hready hstill ?_ ?_ hlast ?_ (hplain events ev [] e rfl hbefore) ?_
    · rintro p ⟨_, _, _, _, t, -, -, -, -, -, hp⟩
      exact ⟨t.user_defined, t.trigger_id, hp⟩
    · rintro p ⟨before, start, after, e', t, heq, hrest⟩
      exact ⟨before, start, after ++ [ev], e', t, by simp [heq], hrest⟩
    · rintro b now rfl
      exact hquiet events b now [] e rfl hbefore
    · rintro start t rfl hhead hdue hid
      exact ⟨events, start, [], e, t, rfl, hbefore, hhead, hdue, hid, rfl⟩

/-! ## The block -/

theorem perform_flags (cfg : ExecutorSettings) (s : Frame) (calls : List Call) :
    (perform cfg s calls).1.initialized = s.1.initialized ∧
      (Call.triggerCodeFetch ∉ calls → (perform cfg s calls).1.waiting_for_code =
        s.1.waiting_for_code) := by
  induction calls generalizing s with
  | nil => exact ⟨rfl, fun _ => rfl⟩
  | cons c calls ih =>
    obtain ⟨hinit, hcode⟩ := ih (call cfg s c)
    have hcall : (call cfg s c).1.initialized = s.1.initialized ∧
        (c ≠ .triggerCodeFetch → (call cfg s c).1.waiting_for_code = s.1.waiting_for_code) := by
      cases c with
      | triggerCodeFetch => exact ⟨rfl, fun hne => absurd rfl hne⟩
      | subscribe | unsubscribe | addReplySubscription | defferedBlockFor | publish | republish
      | delayedPublish
      | enqueueWakeup => exact ⟨rfl, fun _ => rfl⟩
    refine ⟨hinit.trans hcall.1, fun hno => ?_⟩
    rw [List.mem_cons, not_or] at hno
    exact (hcode hno.2).trans (hcall.2 (Ne.symm hno.1))

theorem settle_served {a : ManagedActor} {timeout : UInt32}
    (hblocked : Blocked a (some (f, timeout))) (ht : timeout ≠ 0)
    (hplain : ∀ p ∈ a.message_queue, Plain actor.identifier.actor_type f p) (hzero : a.settle.2 = 0)
    (id : UInt32) :
    Served actor f Sent id a.settle.1 := by
  intro _
  obtain ⟨hwaiting, hpattern, htimeout⟩ := hblocked
  unfold ManagedActor.settle at hzero ⊢
  rw [if_pos hwaiting] at hzero ⊢
  cases hfind : a.message_queue.find? a.pattern.matches with
  | none =>
    rw [hfind] at hzero
    exact absurd (htimeout.symm.trans hzero) ht
  | some p =>
    refine ⟨p, _, rfl, Or.inr (Or.inr ⟨?_, hplain p (List.mem_of_find?_eq_some hfind)⟩)⟩
    rw [← hpattern]
    exact List.find?_some hfind

theorem lateInitialize_passed (s : Frame) (r : Reaction) :
    (lateInitialize cfg s r).passed = none := by
  unfold lateInitialize
  dsimp only
  split <;> rfl

theorem handle_passed {s : Frame} {b : Behaviour} {p c : Publication} {h : Handled}
    (hh : handle cfg s b p = some h) (hc : h.passed = some c) :
    carriesCode s.1 p = false ∧ content p = some c := by
  have hreceive : ∀ {s : Frame}, receive cfg s b p = some h → content p = some c := by
    intro s hr
    obtain ⟨c', hcontent, hpassed⟩ := receive_passed hr
    rw [hcontent, ← hpassed, hc]
  unfold handle at hh
  split at hh
  · unfold handleCode at hh
    dsimp only at hh
    split at hh
    · rw [← Option.some.inj hh] at hc
      cases hc
    · split at hh
      · obtain ⟨_, -, rfl⟩ := Option.map_eq_some_iff.mp hh
        rw [lateInitialize_passed] at hc
        cases hc
      · obtain ⟨_, -, rfl⟩ := Option.map_eq_some_iff.mp hh
        cases hc
  · rename_i hcode
    refine ⟨by simpa using hcode, ?_⟩
    split at hh
    · rw [← Option.some.inj hh] at hc
      unfold retryCode at hc
      split at hc <;> cases hc
    · unfold handleMessage at hh
      dsimp only at hh
      split at hh
      · exact hreceive hh
      · split at hh
        · exact hreceive hh
        · exact hreceive hh
        · rw [← Option.some.inj hh] at hc
          cases hc
        · rw [← Option.some.inj hh] at hc
          cases hc

theorem foldl_blockAfter {calls : List Call} {x : Filter × UInt32} (h : lastBlock calls = some x)
    (block : Option (Filter × UInt32)) : calls.foldl blockAfter block = some x := by
  induction calls using List.reverseRecOn with
  | nil => simp [lastBlock] at h
  | append_singleton calls c ih =>
    rw [lastBlock, List.foldl_append] at h
    rw [List.foldl_append]
    cases c with
    | defferedBlockFor | triggerCodeFetch => exact h
    | subscribe | unsubscribe | addReplySubscription | publish | republish | delayedPublish
    | enqueueWakeup => exact ih h

theorem handle_receives (cfg : ExecutorSettings) {s : Frame} {b : Behaviour} {p : Publication}
    (hinit : s.1.initialized = true ∨ b.wakeup.result = .OK) (hcode : carriesCode s.1 p = false)
    (hwaiting : s.1.waiting_for_code = false)
    (hno : s.1.initialized = false → Call.triggerCodeFetch ∉ b.wakeup.calls) :
    ∃ s', handle cfg s b p = receive cfg s' b p ∧ s'.1.initialized = true ∧
    s'.1.waiting_for_code = false ∧
      putsBack s.1 b p = false ∧ ∃ calls, callsFor s.1 b p = calls ++ b.receive.calls := by
  cases hnow : s.1.initialized with
  | true =>
    refine ⟨s, handle_initialized hnow hcode hwaiting, hnow,
      hwaiting, by simp [putsBack, hnow], [], ?_⟩
    simp [callsFor, hcode, hwaiting, hnow]
  | false =>
    have hok : b.wakeup.result = .OK := hinit.resolve_left (by simp [hnow])
    refine ⟨wakeup cfg s b.wakeup, ?_, ?_, ?_, by simp [putsBack, hok], b.wakeup.calls, ?_⟩
    · simp [handle, handleMessage, hcode, hwaiting, hnow, hok]
    · simp [wakeup, hok]
    · exact ((perform_flags cfg s b.wakeup.calls).2 (hno hnow)).trans hwaiting
    · simp [callsFor, hcode, hwaiting, hnow, hok]

theorem block_step {e e' : Executor} {b : Behaviour} {now timeout : UInt32} (hids : Ready Any Any e)
    (hhibernation : cfg.hibernation = false) (h : BlockStep cfg e b now e' actor.id actor f timeout)
    (ht : timeout ≠ 0) (hcode : actor.waiting_for_code = false)
    (hno : Call.triggerCodeFetch ∉ b.receive.calls)
    (hwake : actor.initialized = false → Call.triggerCodeFetch ∉ b.wakeup.calls)
    (hplain : ∀ p ∈ actor.message_queue.tail, Plain actor.identifier.actor_type f p) :
    Ready (WaitsFor actor f) (Served actor f Sent) e' := by
  obtain ⟨p₀, hpasses⟩ := h.passed
  obtain ⟨rest, a, p, queue, hd, hready, hfind, hqueue, hhandle, rfl, hpassed⟩ :=
    ran_of_passes hpasses h.step
  obtain rfl := Option.some.inj (hfind.symm.trans h.find)
  have hcarries := (handle_passed hhandle hpassed).1
  obtain ⟨s, hhandle', hinit, hcode', hback, calls, hcalls⟩ := handle_receives cfg
    (s := (unblock a queue, { e with ready_queue := rest })) h.initialized hcarries hcode hwake
  have hreceive := hhandle'.symm.trans hhandle
  have hspec := handle_spec hhandle
  have hblocked : Blocked hd.frame.1 (some (f, timeout)) := by
    have := hspec.blocked ⟨rfl, rfl⟩
    rwa [hcalls, lastBlock, List.foldl_append, foldl_blockAfter h.block] at this
  have hflags : hd.frame.1.initialized = true ∧ hd.frame.1.waiting_for_code = false := by
    obtain ⟨hperform, hperform'⟩ := perform_flags cfg s b.receive.calls
    unfold receive at hreceive
    split at hreceive
    · obtain ⟨_, -, rfl⟩ := Option.map_eq_some_iff.mp hreceive
      refine ⟨?_, (hperform' hno).trans hcode'⟩
      dsimp only
      rw [hperform, hinit, hhibernation]
      rfl
    · simp at hreceive
  obtain ⟨hpop, htask⟩ := hids.pop hready
  have herased := hpop.erase htask
  have hframes := hspec.frames.trans (finish_frames p hd).1
  have hreturns := (receive_spec hreceive).2.returns
  -- the actor is not gone, so it settles with its queue
  have hfinish : (finish p hd).exit = false → (finish p hd).frame.1 = hd.frame.1.settle.1 ∧
      (finish p hd).next_timeout = hd.frame.1.settle.2 := by
    intro hexit
    unfold finish at hexit ⊢
    rw [hreturns, if_neg Bool.false_ne_true] at hexit ⊢
    split at hexit
    · simp at hexit
    · rename_i hret
      rw [if_neg hret]
      exact ⟨rfl, rfl⟩
  have hqueue' : hd.frame.1.message_queue = queue := by
    rw [hspec.queue]
    exact if_neg (by rw [hback]; decide)
  have hbase : Ready (WaitsFor a f) (Served a f Sent)
      { e with ready_queue := rest, actors := Assoc.erase a.id e.actors } := by
    refine ⟨fun id b hb => ⟨(herased.every id b hb).1, ?_⟩, herased.nodup, fun id hid => ?_⟩
    · rintro rfl
      rw [Assoc.find_erase, if_pos rfl] at hb
      simp at hb
    · obtain ⟨b, hb, -⟩ := herased.alive id hid
      refine ⟨b, hb, ?_⟩
      rintro rfl
      exact absurd hid htask
  refine Ready.dispose hbase htask hframes.id hframes.actors hframes.ready_queue ?_ ?_
  · intro hexit _
    obtain ⟨queue', hsettle, -⟩ := hd.frame.1.settle_eq
    rw [(hfinish hexit).1, hsettle]
    exact ⟨hspec.frames.identifier, hblocked.1, hblocked.2.1, hflags.1, hflags.2⟩
  · intro hexit hzero
    rw [(hfinish hexit).2] at hzero
    rw [(hfinish hexit).1]
    refine settle_served hblocked ht ?_ hzero a.id
    rw [hqueue']
    rw [hqueue] at hplain
    exact hplain

theorem mem_received {e e' : Executor} {before after : List Event} {b : Behaviour}
    {now : UInt32} {m : UInt32 × Publication}
    (hrun : before.foldlM (step cfg) e = some e') (hpasses : e'.passes cfg b = some m) :
    m ∈ received cfg e (before ++ .process b now :: after) := by
  induction before generalizing e with
  | nil =>
    rw [← Option.some.inj hrun] at hpasses
    simp [received, hpasses]
  | cons ev before ih =>
    rw [List.foldlM_cons] at hrun
    obtain ⟨next, hstep, hrest⟩ := Option.bind_eq_some_iff.mp hrun
    simp only [List.cons_append, received]
    rw [hstep]
    exact List.mem_append_right _ (ih hrest)

theorem process_of_passes {e : Executor} {b : Behaviour} {m : UInt32 × Publication}
    (h : e.passes cfg b = some m) (now : UInt32) :
    e.ready_queue.head? = some m.1 ∧ ∃ e', e.process cfg b now = some e' := by
  unfold passes at h
  split at h
  · simp at h
  · rename_i task rest hready
    split at h
    · simp at h
    · rename_i a hfind
      obtain ⟨r, hr, hpassed⟩ := Option.bind_eq_some_iff.mp h
      obtain ⟨c, -, rfl⟩ := Option.map_eq_some_iff.mp hpassed
      refine ⟨by rw [hready]; rfl, dispose cfg task now r, ?_⟩
      unfold process
      rw [hready]
      dsimp only
      rw [hfind]
      dsimp only
      rw [hr, Option.map_some]

/-- The next message of a blocked actor is one that it waits for, an exit message or that of a
timeout, if the actor has its code and what matches its pattern is plain. -/
theorem blocked_receives_awaited {cfg : ExecutorSettings} {hub : Hub} {handle : Nat}
    {pre events : List Event} {e e₁ e₂ : Executor} {b b' : Behaviour} {now timeout : UInt32}
    {actor : ManagedActor} {f : Filter} {m : Publication} (hhibernation : cfg.hibernation = false)
    (hrun : run cfg hub handle pre = some e)
    (hblock : BlockStep cfg e b now e₁ actor.id actor f timeout) (htimeout : 1 ≤ timeout)
    (hevents : events.foldlM (step cfg) e₁ = some e₂)
    (hnext : ∀ m, (actor.id, m) ∉ received cfg e₁ events)
    (hpasses : e₂.passes cfg b' = some (actor.id, m))
    (hcode : actor.waiting_for_code = false ∧ Call.triggerCodeFetch ∉ b.receive.calls ∧
      (actor.initialized = false → Call.triggerCodeFetch ∉ b.wakeup.calls))
    (hqueued : ∀ p ∈ actor.message_queue.tail, Plain actor.identifier.actor_type f p)
    (harriving : ∀ before ev after e, events = before ++ ev :: after →
      before.foldlM (step cfg) e₁ = some e →
      Undisturbed actor.id actor.identifier.actor_type f e ev) :
    f.matches m = true ∨ ManagedActor.isExit m = true ∨ Triggered cfg e₁ actor events m := by
  obtain ⟨e₀, hcreate, hsteps⟩ := Option.bind_eq_some_iff.mp hrun
  have hids : Ready Any Any e :=
    Runs.invariant (Ready Any Any) (ready_create hcreate).1 (fun _ _ _ h hstep => h.any_step hstep)
      hsteps
  have hne : timeout ≠ 0 := by
    rintro rfl
    exact absurd htimeout (by decide)
  have hblocked : Ready (WaitsFor actor f) (Served actor f fun _ => False) e₁ :=
    block_step hids hhibernation hblock hne hcode.1 hcode.2.1 hcode.2.2 hqueued
  have hquiet : ∀ before b now after e, events = before ++ .process b now :: after →
      before.foldlM (step cfg) e₁ = some e → ∀ m, e.passes cfg b ≠ some (actor.id, m) := by
    rintro before b now after e rfl hbefore m hm
    exact hnext m (mem_received hbefore hm)
  obtain ⟨hwaiting, -⟩ := waiting_run hblocked hblock.alive hevents hquiet harriving
  have hsent : ∀ p, Triggered cfg e₁ actor events p → ∃ user_defined wakeup_id,
      p = actor.timeoutMessage user_defined wakeup_id := by
    rintro p ⟨_, _, _, _, t, -, -, -, -, -, hp⟩
    exact ⟨t.user_defined, t.trigger_id, hp⟩
  obtain ⟨hhead, e', hproc⟩ := process_of_passes hpasses now
  obtain ⟨p, c, hawaited, hcontent, hpasses'⟩ := passes_of_waiting hwaiting hsent hhead hproc
  rw [hpasses] at hpasses'
  obtain rfl : m = c := (Prod.mk.inj (Option.some.inj hpasses')).2
  exact hawaited.content hsent hcontent

/-! ## Two runs -/

/-- The pattern of the test of `deferred_block_for`. -/
def fooBar : Filter := ⟨[.str "foo" "bar" .EQ false], []⟩

/-- A message with one more attribute. -/
def messageWith (type name value : String) : Publication :=
  ((Publication.ofPublisher "node" "sender" "1").setAttr "type" (.str type)).setAttr name
    (.str value)

/-- The code of the actor is not there at first, and is found when the init message is handled. -/
def foundLate (calls : List Call) : Behaviour :=
  ⟨[], ⟨[.triggerCodeFetch], .NOT_READY⟩, ⟨[], .OK⟩, ⟨[], .OK⟩, ⟨calls, .OK⟩, false⟩

/-- The run up to the block: the actor looks for its code, and blocks with its first message. -/
def blockLate : List Event := [.deliver 11 (spawnMessage "blocker") (foundLate []) 0]

/-- The block ends, the code comes late, and another message was there before. -/
def codeComesLate : List Event :=
  [.deliver 12 (messageWith "other" "node_id" "node") (receiving []) 0, .expire 501,
    .process (receiving []) 501, .deliver 12 (messageWith "code_fetch_response" "node_id" "node")
      (receiving []) 502, .process (receiving []) 502]

/-- An actor that waits for `foo = bar` gets another message. -/
theorem blocked_receives_other :
    ∃ e e₁ e₂ actor, run luaSettings (Hub.init ⟨"node", 3⟩) 1 blockLate = some e ∧
      BlockStep luaSettings e (foundLate [.defferedBlockFor fooBar 500]) 0 e₁ 1 actor fooBar 500 ∧
      codeComesLate.foldlM (step luaSettings) e₁ = some e₂ ∧
      (∀ m, (1, m) ∉ received luaSettings e₁ codeComesLate) ∧
      ∃ m, e₂.passes luaSettings (receiving []) = some (1, m) ∧ fooBar.matches m = false ∧
        ManagedActor.isExit m = false ∧ ¬ Triggered luaSettings e₁ actor codeComesLate m := by
  obtain ⟨e, e₁, e₂, actor, m, hrun, hblock, hevents, hreceived, hpasses, hmatches, hexit, htype⟩ :
      ∃ e e₁ e₂ actor m, run luaSettings (Hub.init ⟨"node", 3⟩) 1 blockLate = some e ∧
        BlockStep luaSettings e (foundLate [.defferedBlockFor fooBar 500]) 0 e₁ 1 actor fooBar 500 ∧
        codeComesLate.foldlM (step luaSettings) e₁ = some e₂ ∧
        received luaSettings e₁ codeComesLate = [] ∧
        e₂.passes luaSettings (receiving []) = some (1, m) ∧ fooBar.matches m = false ∧
        ManagedActor.isExit m = false ∧ m.getStrAttr "type" = some "other" :=
    ⟨_, _, _, _, _, rfl, ⟨rfl, Or.inr rfl, ⟨_, rfl⟩, rfl, rfl, rfl⟩, rfl, rfl, rfl, rfl, rfl, rfl⟩
  refine ⟨e, e₁, e₂, actor, hrun, hblock,
    hevents, by simp [hreceived], m, hpasses, hmatches, hexit, ?_⟩
  rintro ⟨_, _, _, _, t, -, -, -, -, -, rfl⟩
  rw [type_timeoutMessage] at htype
  cases huser : t.user_defined <;> simp [huser] at htype

/-- The message that the actor waits for arrives. -/
def fooBarArrives : List Event := [.deliver 12 (messageWith "answer" "foo" "bar") (receiving []) 0]

theorem plain_answer (actor_type : String) :
    Plain actor_type fooBar (messageWith "answer" "foo" "bar") := by
  intro _
  refine ⟨fun htype => absurd htype (by decide), fun c hc => ?_⟩
  obtain rfl : messageWith "answer" "foo" "bar" = c := Option.some.inj hc
  rfl

theorem blocked_receives_awaited_answer :
    ∃ e e₁ e₂ actor m,
      run luaSettings (Hub.init ⟨"node", 3⟩) 1 [.deliver 11 (spawnMessage "blocker") (receiving [])
        0] = some e ∧
      BlockStep luaSettings e (receiving [.defferedBlockFor fooBar 100]) 0 e₁ actor.id actor
        fooBar 100 ∧
      fooBarArrives.foldlM (step luaSettings) e₁ = some e₂ ∧
        e₂.passes luaSettings (receiving []) = some (actor.id, m) ∧
      (fooBar.matches m = true ∨ ManagedActor.isExit m = true ∨
        Triggered luaSettings e₁ actor fooBarArrives m) := by
  obtain ⟨e, e₁, e₂, actor, m, hrun, hblock, hid, hqueue, hcode, hinit, hevents, hreceived,
      hpasses⟩ :
      ∃ e e₁ e₂ actor m, run luaSettings (Hub.init ⟨"node", 3⟩) 1
          [.deliver 11 (spawnMessage "blocker") (receiving []) 0] = some e ∧
        BlockStep luaSettings e (receiving [.defferedBlockFor fooBar 100]) 0 e₁ 1 actor fooBar 100 ∧
        actor.id = 1 ∧
        actor.message_queue.tail = [] ∧ actor.waiting_for_code = false ∧ actor.initialized = true ∧
        fooBarArrives.foldlM (step luaSettings) e₁ = some e₂ ∧
        received luaSettings e₁ fooBarArrives = [] ∧
        e₂.passes luaSettings (receiving []) = some (1, m) :=
    ⟨_, _, _, _, _, rfl, ⟨rfl, Or.inl rfl, ⟨_, rfl⟩, rfl, rfl, rfl⟩, rfl, rfl, rfl, rfl, rfl,
      rfl, rfl⟩
  rw [← hid] at hblock hpasses
  refine ⟨e, e₁, e₂, actor, m, hrun, hblock, hevents, hpasses, ?_⟩
  refine blocked_receives_awaited rfl hrun hblock (by decide) hevents (by simp [hreceived]) hpasses
    ⟨hcode, by simp [receiving], by simp [hinit]⟩ (by simp [hqueue]) ?_
  intro before ev after e' heq _
  have hmem : ev ∈ fooBarArrives := by simp [heq]
  obtain rfl := List.mem_singleton.mp hmem
  exact fun _ _ => ⟨plain_answer _, plain_answer _⟩

end Executor

end UActor
