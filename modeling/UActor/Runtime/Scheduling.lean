import UActor.Runtime.Executor

/-!
# Scheduling

Which actors stand in the ready queue, and with which messages.
-/

namespace UActor

namespace Executor

variable {cfg : ExecutorSettings}

/-! ## Blocks -/

/-- The block that is in force after a call. -/
def blockAfter (block : Option (Filter × UInt32)) : Call → Option (Filter × UInt32)
  | .defferedBlockFor f timeout => some (f, timeout)
  | .triggerCodeFetch => some (Filter.ofConstraints [.str "type" "code_fetch_response" .EQ false],
      1000)
  | .subscribe .. | .unsubscribe .. | .addReplySubscription | .publish .. | .republish ..
  | .delayedPublish ..
  | .enqueueWakeup .. => block

/-- The last block of a list of calls. -/
def lastBlock (calls : List Call) : Option (Filter × UInt32) := calls.foldl blockAfter none

/-- How an actor keeps its block. -/
def Blocked (actor : ManagedActor) : Option (Filter × UInt32) → Prop
  | none => actor.waiting = false ∧ actor.timeout = UINT32_MAX
  | some (f, timeout) => actor.waiting = true ∧ actor.pattern = f ∧ actor.timeout = timeout

theorem Blocked.congr {a a' : ManagedActor} {block : Option (Filter × UInt32)} (h : Blocked a block)
    (hwaiting : a'.waiting = a.waiting) (hpattern : a'.pattern = a.pattern)
    (htimeout : a'.timeout = a.timeout) :
    Blocked a' block := by
  cases block with
  | none => exact ⟨hwaiting.trans h.1, htimeout.trans h.2⟩
  | some _ => exact ⟨hwaiting.trans h.1, hpattern.trans h.2.1, htimeout.trans h.2.2⟩

theorem blocked_call {s : Frame} {block : Option (Filter × UInt32)} (h : Blocked s.1 block)
    (c : Call) :
    Blocked (call cfg s c).1 (blockAfter block c) := by
  cases c with
  | defferedBlockFor | triggerCodeFetch => exact ⟨rfl, rfl, rfl⟩
  | subscribe | unsubscribe | addReplySubscription | publish | republish | delayedPublish
  | enqueueWakeup =>
    exact h.congr rfl rfl rfl

theorem blocked_perform {s : Frame} {block : Option (Filter × UInt32)} (h : Blocked s.1 block)
    (calls : List Call) :
    Blocked (perform cfg s calls).1 (calls.foldl blockAfter block) := by
  induction calls generalizing s block with
  | nil => exact h
  | cons c calls ih => exact ih (blocked_call h c)

/-! ## One message -/

/-- These calls were made, and nothing else happened to the block, the queue and the subscriptions
of the actor. -/
structure Ran (cfg : ExecutorSettings) (s : Frame) (calls : List Call) (s' : Frame) : Prop where
  frames : Frames s s'
  queue : s'.1.message_queue = s.1.message_queue
  blocked : ∀ {block}, Blocked s.1 block → Blocked s'.1 (calls.foldl blockAfter block)
  kept : ∀ {R}, Keeps cfg R → R s → R s'

theorem Keeps.perform {R : Frame → Prop} (h : Keeps cfg R) {s : Frame} (hs : R s)
    (calls : List Call) :
    R (perform cfg s calls) := by
  induction calls generalizing s with
  | nil => exact hs
  | cons c calls ih => exact ih (h.call s c hs)

theorem ran_perform (cfg : ExecutorSettings) (s : Frame) (calls : List Call) :
    Ran cfg s calls (perform cfg s calls) :=
  ⟨(perform_frames cfg s calls).1, (perform_frames cfg s calls).2, fun h => blocked_perform h calls,
    fun hR hs => hR.perform hs calls⟩

theorem Ran.trans {s s' s'' : Frame} {calls calls' : List Call} (h : Ran cfg s calls s')
    (h' : Ran cfg s' calls' s'') :
    Ran cfg s (calls ++ calls') s'' := by
  refine ⟨h.frames.trans h'.frames, h'.queue.trans h.queue, fun hb => ?_, fun hR hs =>
    h'.kept hR (h.kept hR hs)⟩
  rw [List.foldl_append]
  exact h'.blocked (h.blocked hb)

theorem ran_flags (cfg : ExecutorSettings) (a : ManagedActor) (e : Executor)
    (initialized waiting_for_code : Bool) (code_fetch_retries : Nat)
    (published : List Publication) :
    Ran cfg (a, e) [] ({ a with initialized, waiting_for_code, code_fetch_retries },
      { e with published }) :=
  ⟨⟨rfl, rfl, rfl, rfl, rfl⟩, rfl, fun h => h.congr rfl rfl rfl,
    fun hR hs => hR.same hs ⟨rfl, rfl, rfl, rfl, rfl, rfl⟩⟩

theorem Ran.flags {s s' : Frame} {calls : List Call} (h : Ran cfg s calls s')
    (initialized waiting_for_code : Bool) (code_fetch_retries : Nat)
    (published : List Publication) :
    Ran cfg s calls ({ s'.1 with initialized, waiting_for_code, code_fetch_retries },
      { s'.2 with published }) := by
  have := h.trans (ran_flags cfg s'.1 s'.2 initialized waiting_for_code code_fetch_retries
    published)
  rwa [List.append_nil] at this

/-- A handling that does not return at once, with its return value. -/
structure Ends (h : Handled) (ret : RuntimeReturnValue) : Prop where
  returns : h.returns = false
  ret_eq : h.ret = ret

theorem lateInitialize_spec (cfg : ExecutorSettings) (s : Frame) (r : Reaction) :
    Ran cfg s r.calls (lateInitialize cfg s r).frame ∧
      Ends (lateInitialize cfg s r) (if r.result = .OK then .OK else .INITIALIZATION_ERROR) := by
  have hran := ran_perform cfg s r.calls
  unfold lateInitialize
  dsimp only
  split
  · exact ⟨hran.flags _ _ _ _, rfl, rfl⟩
  · exact ⟨hran.flags _ _ _ _, rfl, rfl⟩

theorem wakeup_spec (cfg : ExecutorSettings) (s : Frame) (r : Reaction) :
    Ran cfg s r.calls (wakeup cfg s r) :=
  (ran_perform cfg s r.calls).flags _ _ _ _

theorem receive_spec {s : Frame} {b : Behaviour} {p : Publication} {h : Handled}
    (hh : receive cfg s b p = some h) :
    Ran cfg s b.receive.calls h.frame ∧
      Ends h (if b.receive.result = .NOT_READY then .RUNTIME_ERROR else b.receive.result) := by
  unfold receive at hh
  split at hh
  · obtain ⟨_, -, rfl⟩ := Option.map_eq_some_iff.mp hh
    exact ⟨(ran_perform cfg s b.receive.calls).flags _ _ _ _, rfl, rfl⟩
  · simp at hh

/-- What the handling of a message does to the actor, by the branches of `receive_next_internal`. -/
structure HandleSpec (cfg : ExecutorSettings) (s : Frame) (b : Behaviour) (p : Publication)
    (h : Handled) : Prop where
  frames : Frames s h.frame
  blocked : Blocked s.1 none → Blocked h.frame.1 (lastBlock (callsFor s.1 b p))
  queue : h.frame.1.message_queue =
    if putsBack s.1 b p then p :: s.1.message_queue else s.1.message_queue
  exit : (finish p h).exit = exits s.1 b p
  returns : h.returns = true → h.frame.1.timeout = 1000
  kept : ∀ {R}, Keeps cfg R → R s → R h.frame

theorem isExit_eq_false {p : Publication} {type : String} (h : p.getStrAttr "type" = some type)
    (hne : type ≠ "exit") :
    ManagedActor.isExit p = false := by
  simpa [ManagedActor.isExit, h] using hne

theorem type_of_carriesCode {actor : ManagedActor} {p : Publication}
    (h : carriesCode actor p = true) :
    p.getStrAttr "type" = some "code_fetch_response" := by
  unfold carriesCode at h
  simpa using ((Bool.and_eq_true _ _).mp h).1

theorem Ends.exit {h : Handled} {ret : RuntimeReturnValue} (hends : Ends h ret) (p : Publication) :
    (finish p h).exit = (decide (ret = .INITIALIZATION_ERROR) || decide
      (ret = .RUNTIME_ERROR) || ManagedActor.isExit p) := by
  unfold finish
  rw [hends.returns, hends.ret_eq]
  rw [if_neg Bool.false_ne_true]
  by_cases hret : ret = .INITIALIZATION_ERROR ∨ ret = .RUNTIME_ERROR ∨ ManagedActor.isExit p = true
  · rw [if_pos hret]
    simpa using (or_assoc.mpr hret)
  · rw [if_neg hret]
    push Not at hret
    simp [hret.1, hret.2.1, hret.2.2]

theorem Ran.handleSpec {s : Frame} {b : Behaviour} {p : Publication} {h : Handled}
    {ret : RuntimeReturnValue} (hran : Ran cfg s (callsFor s.1 b p) h.frame) (hends : Ends h ret)
    (hback : putsBack s.1 b p = false)
    (hexit : (decide (ret = .INITIALIZATION_ERROR) || decide (ret = .RUNTIME_ERROR) ||
      ManagedActor.isExit p) =
      exits s.1 b p) : HandleSpec cfg s b p h := by
  refine ⟨hran.frames, fun hs => hran.blocked hs, ?_, (hends.exit p).trans hexit, ?_, hran.kept⟩
  · rw [hran.queue, hback, if_neg Bool.false_ne_true]
  · intro hreturns
    rw [hends.returns] at hreturns
    simp at hreturns

theorem handleCode_spec {s : Frame} {b : Behaviour} {p : Publication} {h : Handled}
    (hcode : carriesCode s.1 p = true) (hh : handleCode cfg s b p = some h) :
    HandleSpec cfg s b p h := by
  have hexit := isExit_eq_false (type_of_carriesCode hcode) (by decide)
  have hback : putsBack s.1 b p = false := by simp [putsBack, hcode]
  unfold handleCode at hh
  split at hh
  · rename_i hinit
    obtain rfl := Option.some.inj hh
    have hcalls : callsFor s.1 b p = [] := by simp [callsFor, hcode, hinit]
    refine Ran.handleSpec ?_ ⟨rfl, rfl⟩ hback (by simp [hexit, exits, hcode, hinit])
    rw [hcalls]
    exact ran_perform cfg s []
  · rename_i hinit
    dsimp only at hh
    have hfirst := ran_flags cfg s.1 s.2 s.1.initialized false s.1.code_fetch_retries s.2.published
    split at hh
    · rename_i htype
      obtain ⟨_, -, rfl⟩ := Option.map_eq_some_iff.mp hh
      obtain ⟨hran, hends⟩ := lateInitialize_spec cfg ({ s.1 with waiting_for_code := false }, s.2)
        b.late
      have hcalls : callsFor s.1 b p = b.late.calls := by simp [callsFor, hcode, hinit, htype]
      refine Ran.handleSpec ?_ hends hback ?_
      · rw [hcalls]
        exact hfirst.trans hran
      · by_cases hok : b.late.result = .OK
        · simp [hexit, exits, hcode, hok]
        · simp [exits, hcode, hok, hinit, htype]
    · rename_i htype
      obtain ⟨_, -, rfl⟩ := Option.map_eq_some_iff.mp hh
      have hcalls : callsFor s.1 b p = [] := by simp [callsFor, hcode, htype]
      refine Ran.handleSpec ?_ ⟨rfl, rfl⟩ hback (by simp [hexit, exits, hcode, htype])
      rw [hcalls]
      exact hfirst

theorem retryCode_spec {s : Frame} (b : Behaviour) {p : Publication}
    (hcode : carriesCode s.1 p = false)
    (htimeout : p.getStrAttr "type" = some "timeout" ∧ s.1.waiting_for_code = true) :
    HandleSpec cfg s b p (retryCode cfg s) := by
  have hexit := isExit_eq_false htimeout.1 (by decide)
  have hback : putsBack s.1 b p = false := by simp [putsBack, htimeout]
  unfold retryCode
  split
  · rename_i hretries
    have hcalls : callsFor s.1 b p = [.triggerCodeFetch] := by
      simp [callsFor, hcode, htimeout, hretries]
    have hcall := ran_perform cfg s [.triggerCodeFetch]
    have hran := hcall.flags s.1.initialized true (s.1.code_fetch_retries + 1)
      (call cfg s .triggerCodeFetch).2.published
    refine ⟨hran.frames, fun hs => ?_, ?_, ?_, fun _ => rfl, hran.kept⟩
    · rw [hcalls]
      exact hran.blocked hs
    · rw [hback, if_neg Bool.false_ne_true]
      exact hran.queue
    · simp [finish, exits, hcode, htimeout, hretries]
  · rename_i hretries
    have hcalls : callsFor s.1 b p = [] := by simp [callsFor, hcode, htimeout, hretries]
    refine Ran.handleSpec ?_ ⟨rfl, rfl⟩ hback
      (by simp [exits, hcode, htimeout, Nat.not_lt.mp hretries])
    rw [hcalls]
    exact ran_perform cfg s []

theorem receive_exit (r : RuntimeReturnValue) (p : Publication) :
    (decide ((if r = .NOT_READY then .RUNTIME_ERROR else r) =
      RuntimeReturnValue.INITIALIZATION_ERROR) ||
        decide ((if r = .NOT_READY then .RUNTIME_ERROR else r) =
          RuntimeReturnValue.RUNTIME_ERROR) ||
        ManagedActor.isExit p) =
      (ManagedActor.isExit p || decide (r = .NOT_READY ∨ r = .RUNTIME_ERROR ∨
        r = .INITIALIZATION_ERROR)) := by
  cases r <;> cases ManagedActor.isExit p <;> rfl

theorem handleWoken_spec {s : Frame} {b : Behaviour} {p : Publication} {h : Handled}
    (hcode : carriesCode s.1 p = false)
    (htimeout : ¬ (p.getStrAttr "type" = some "timeout" ∧ s.1.waiting_for_code = true))
    (hinit : s.1.initialized = false) (hresult : b.wakeup.result = .NONE ∨ b.wakeup.result = .OK)
    (hh : receive cfg (wakeup cfg s b.wakeup) b p = some h) : HandleSpec cfg s b p h := by
  have hwake := wakeup_spec cfg s b.wakeup
  obtain ⟨hran, hends⟩ := receive_spec hh
  have hcalls : callsFor s.1 b p = b.wakeup.calls ++ b.receive.calls := by
    rcases hresult with hresult | hresult <;> simp [callsFor, hcode, htimeout, hinit, hresult]
  have hback : putsBack s.1 b p = false := by
    rcases hresult with hresult | hresult <;> simp [putsBack, hresult]
  refine Ran.handleSpec ?_ hends hback ?_
  · rw [hcalls]
    exact hwake.trans hran
  · rw [receive_exit]
    rcases hresult with hresult | hresult <;> simp [exits, hcode, htimeout, hback, hresult]

theorem handleMessage_spec {s : Frame} {b : Behaviour} {p : Publication} {h : Handled}
    (hcode : carriesCode s.1 p = false)
    (htimeout : ¬ (p.getStrAttr "type" = some "timeout" ∧ s.1.waiting_for_code = true))
    (hh : handleMessage cfg s b p = some h) : HandleSpec cfg s b p h := by
  have hother : (p.getStrAttr "type" == some "timeout" && s.1.waiting_for_code) = false := by
    simpa [Bool.and_eq_true] using htimeout
  unfold handleMessage at hh
  split at hh
  · rename_i hinit
    obtain ⟨hran, hends⟩ := receive_spec hh
    have hcalls : callsFor s.1 b p = b.receive.calls := by simp [callsFor, hcode, htimeout, hinit]
    have hback : putsBack s.1 b p = false := by simp [putsBack, hinit]
    rw [← hcalls] at hran
    refine hran.handleSpec hends hback ?_
    rw [receive_exit]
    simp [exits, hcode, htimeout, hback, hinit]
  · rename_i hinit
    have hwake := wakeup_spec cfg s b.wakeup
    dsimp only at hh
    -- the code of the actor is there, or was not found, or does not run
    split at hh
    · rename_i hresult
      exact handleWoken_spec hcode htimeout (by simpa using hinit) (Or.inl hresult) hh
    · rename_i hresult
      exact handleWoken_spec hcode htimeout (by simpa using hinit) (Or.inr hresult) hh
    · rename_i hresult
      obtain rfl := Option.some.inj hh
      have hcalls : callsFor s.1 b p = b.wakeup.calls := by
        simp [callsFor, hcode, htimeout, hinit, hresult]
      have hback : putsBack s.1 b p = true := by simp [putsBack, hcode, hother, hinit, hresult]
      refine ⟨⟨hwake.frames.id, hwake.frames.identifier, hwake.frames.actors,
        hwake.frames.ready_queue, hwake.frames.router_handle⟩, fun hs => ?_, ?_, ?_, by simp,
        fun hR hs => hR.same (hwake.kept hR hs) ⟨rfl, rfl, rfl, rfl, rfl, rfl⟩⟩
      · rw [hcalls]
        exact (hwake.blocked hs).congr rfl rfl rfl
      · rw [hback, if_pos rfl]
        exact congrArg _ hwake.queue
      · rw [Ends.exit ⟨rfl, rfl⟩]
        simp [exits, hcode, htimeout, hback, hresult]
    · rename_i hnone hok hready
      obtain rfl := Option.some.inj hh
      have herror : b.wakeup.result = .RUNTIME_ERROR ∨ b.wakeup.result = .INITIALIZATION_ERROR := by
        cases hresult : b.wakeup.result with
        | NONE => exact absurd hresult hnone
        | OK => exact absurd hresult hok
        | NOT_READY => exact absurd hresult hready
        | RUNTIME_ERROR => exact Or.inl rfl
        | INITIALIZATION_ERROR => exact Or.inr rfl
      have hcalls : callsFor s.1 b p = b.wakeup.calls := by
        rcases herror with hresult | hresult <;> simp [callsFor, hcode, htimeout, hinit, hresult]
      have hback : putsBack s.1 b p = false := by
        rcases herror with hresult | hresult <;> simp [putsBack, hresult]
      refine Ran.handleSpec ?_ ⟨rfl, rfl⟩ hback ?_
      · rw [hcalls]
        exact hwake
      · rcases herror with hresult | hresult <;> simp [exits, hcode, htimeout, hinit, hresult]

theorem handle_spec {s : Frame} {b : Behaviour} {p : Publication} {h : Handled}
    (hh : handle cfg s b p = some h) :
    HandleSpec cfg s b p h := by
  unfold handle at hh
  split at hh
  · rename_i hcode
    exact handleCode_spec hcode hh
  · rename_i hcode
    split at hh
    · rename_i htimeout
      rw [← Option.some.inj hh]
      exact retryCode_spec b (by simpa using hcode) htimeout
    · rename_i htimeout
      exact handleMessage_spec (by simpa using hcode) htimeout hh

/-! ## The ready queue -/

/-- Every actor is as `A` says, no actor is ready twice, and those that are ready exist and are as
`P` says. -/
structure Ready (A P : UInt32 → ManagedActor → Prop) (e : Executor) : Prop where
  every : ∀ id actor, Assoc.find id e.actors = some actor → actor.id = id ∧ A id actor
  nodup : e.ready_queue.Nodup
  alive : ∀ id ∈ e.ready_queue, ∃ actor, Assoc.find id e.actors = some actor ∧ P id actor

/-- What an actor becomes with a message is as it should be. -/
structure Allows (A P : UInt32 → ManagedActor → Prop) (id : UInt32) (p : Publication) : Prop where
  every : ∀ actor, A id actor → A id (actor.enqueue p).1
  ready : ∀ actor, A id actor → (actor.enqueue p).2 = true → P id (actor.enqueue p).1
  still : ∀ actor, A id actor → P id actor → P id (actor.enqueue p).1

namespace Ready

variable {A P : UInt32 → ManagedActor → Prop} {e e' : Executor}

theorem congr (h : Ready A P e) (hactors : ∀ id, Assoc.find id e'.actors = Assoc.find id e.actors)
    (hready : e'.ready_queue = e.ready_queue) : Ready A P e' := by
  refine ⟨fun id actor hfind =>
    h.every id actor ((hactors id).symm.trans hfind), by rw [hready]; exact h.nodup, ?_⟩
  intro id hid
  rw [hready] at hid
  rw [hactors]
  exact h.alive id hid

theorem setActor (h : Ready A P e) {id : UInt32} {actor : ManagedActor} (hid : actor.id = id)
    (hA : A id actor) (hP : id ∈ e.ready_queue → P id actor) : Ready A P (e.setActor id actor) := by
  refine ⟨fun id' actor' hfind => ?_, h.nodup, fun id' hid' => ?_⟩
  · rw [Executor.setActor, Assoc.find_put] at hfind
    split at hfind
    · rename_i heq
      subst heq
      rw [← Option.some.inj hfind]
      exact ⟨hid, hA⟩
    · exact h.every id' actor' hfind
  · obtain ⟨actor', hfind, hP'⟩ := h.alive id' hid'
    by_cases heq : id = id'
    · subst heq
      exact ⟨actor, Assoc.find_put_self _ _ _, hP hid'⟩
    · exact ⟨actor', (Assoc.find_put_ne heq _ _).trans hfind, hP'⟩

theorem push (h : Ready A P e) {id : UInt32} {actor : ManagedActor} (hnew : id ∉ e.ready_queue)
    (hfind : Assoc.find id e.actors = some actor) (hP : P id actor) :
    Ready A P { e with ready_queue := e.ready_queue ++ [id] } := by
  refine ⟨h.every, ?_, fun id' hid' => ?_⟩
  · refine List.nodup_append.mpr ⟨h.nodup, List.nodup_singleton id, fun a ha b hb hab => ?_⟩
    rw [List.mem_singleton.mp hb] at hab
    exact hnew (hab ▸ ha)
  · rcases List.mem_append.mp hid' with hid' | hid'
    · exact h.alive id' hid'
    · rw [List.mem_singleton.mp hid']
      exact ⟨actor, hfind, hP⟩

theorem pushReady (h : Ready A P e) {id : UInt32} {actor : ManagedActor}
    (hfind : Assoc.find id e.actors = some actor) (hP : P id actor) :
    Ready A P (e.pushReady id) := by
  unfold Executor.pushReady
  split
  · exact h
  · rename_i hnew
    exact h.push hnew hfind hP

theorem pop (h : Ready A P e) {task : UInt32} {rest : List UInt32}
    (hready : e.ready_queue = task :: rest) :
    Ready A P { e with ready_queue := rest } ∧ task ∉ rest := by
  have hnodup := h.nodup
  rw [hready, List.nodup_cons] at hnodup
  refine ⟨⟨h.every, hnodup.2, fun id hid => h.alive id ?_⟩, hnodup.1⟩
  rw [hready]
  exact List.mem_cons_of_mem _ hid

theorem erase (h : Ready A P e) {task : UInt32} (htask : task ∉ e.ready_queue) :
    Ready A P { e with actors := Assoc.erase task e.actors } := by
  refine ⟨fun id actor hfind => ?_, h.nodup, fun id hid => ?_⟩
  · rw [Assoc.find_erase] at hfind
    split at hfind
    · simp at hfind
    · exact h.every id actor hfind
  · obtain ⟨actor, hfind, hP⟩ := h.alive id hid
    refine ⟨actor, ?_, hP⟩
    rw [Assoc.find_erase, if_neg, hfind]
    rintro rfl
    exact htask hid

/-! ## The steps of the loop -/

theorem offer (h : Ready A P e) {id : UInt32} {actor : ManagedActor} {p : Publication}
    (hfind : Assoc.find id e.actors = some actor) (hp : Allows A P id p) :
    Ready A P (e.offer id actor p) := by
  obtain ⟨hid, hA⟩ := h.every id actor hfind
  have hset : Ready A P (e.setActor id (actor.enqueue p).1) := by
    refine h.setActor ?_ (hp.every actor hA) fun hmem => ?_
    · obtain ⟨queue, -, heq⟩ := actor.enqueue_eq p
      rw [heq]
      exact hid
    · obtain ⟨actor', hfind', hP⟩ := h.alive id hmem
      obtain rfl := Option.some.inj (hfind.symm.trans hfind')
      exact hp.still actor hA hP
  unfold Executor.offer
  dsimp only
  split
  · rename_i hnow
    exact (hset.pushReady (Assoc.find_put_self _ _ _) (hp.ready actor hA hnow)).congr
      (fun _ => rfl) rfl
  · exact hset

theorem offerAll (h : Ready A P e) {p : Publication} {count : Nat} {ids : List UInt32}
    (hp : ∀ id ∈ ids, Allows A P id p ∧ Allows A P id p.copy) :
    Ready A P (Executor.offerAll p count ids e) := by
  induction ids generalizing e count with
  | nil => exact h
  | cons id ids ih =>
    have hrest := fun id' hid' => hp id' (List.mem_cons_of_mem id hid')
    obtain ⟨hself, hcopy⟩ := hp id List.mem_cons_self
    unfold Executor.offerAll
    split
    · exact ih h hrest
    · rename_i actor hfind
      refine ih (h.offer hfind ?_) hrest
      split
      · exact hself
      · exact hcopy

theorem expire (h : Ready A P e) (start : UInt32)
    (hP : ∀ t actor, e.timeouts.head? = some t → t.timeout < start → A t.actor_id actor →
      A t.actor_id (actor.triggerTimeout t.user_defined t.trigger_id) ∧
        P t.actor_id (actor.triggerTimeout t.user_defined t.trigger_id)) :
        Ready A P (e.expire start) := by
  unfold Executor.expire
  split
  · exact h
  · rename_i t rest htimeouts
    split
    · rename_i hdue
      dsimp only
      split
      · exact h.congr (fun _ => rfl) rfl
      · rename_i actor hfind
        obtain ⟨hid, hA⟩ := h.every _ actor hfind
        obtain ⟨hA', hP'⟩ := hP t actor (by rw [htimeouts]; rfl) hdue hA
        refine Ready.pushReady ?_ (Assoc.find_put_self _ _ _) hP'
        have hrest : Ready A P { e with timeouts := rest } := h.congr (fun _ => rfl) rfl
        exact hrest.setActor hid hA' fun _ => hP'
    · exact h

theorem flush (h : Ready A P e) (now : UInt32) : Ready A P (e.flush now) := by
  unfold Executor.flush
  split
  · exact h
  · split
    · exact h.congr (fun _ => rfl) rfl
    · exact h

theorem overwrite (h : Ready A P e) (id : UInt32) (i : Nat) (p : Publication)
    (hP : ∀ actor, Assoc.find id e.actors = some actor →
      (A id actor → A id { actor with message_queue := actor.message_queue.set i p }) ∧
      (P id actor → P id { actor with message_queue := actor.message_queue.set i p })) :
    Ready A P (e.overwrite id i p) := by
  unfold Executor.overwrite
  split
  · exact h
  · rename_i actor hfind
    obtain ⟨hid, hA⟩ := h.every id actor hfind
    refine h.setActor hid ((hP actor hfind).1 hA) fun hmem => ?_
    obtain ⟨actor', hfind', hready⟩ := h.alive id hmem
    obtain rfl := Option.some.inj (hfind.symm.trans hfind')
    exact (hP actor hfind).2 hready

end Ready

/-! ## New actors -/

theorem startActor_spec (cfg : ExecutorSettings) (s : Frame) (b : Behaviour) (now : UInt32) :
    ∃ actor, actor.id = s.1.id ∧ actor.message_queue ≠ [] ∧
      (startActor cfg s b now).actors = Assoc.put s.1.id actor s.2.actors ∧
      (startActor cfg s b now).ready_queue = s.2.ready_queue ++ [s.1.id] := by
  have hreply : Frames s (if cfg.reply_sub_optional then s else call cfg
      s .addReplySubscription) := by
    split
    · exact Frames.refl s
    · exact (call_frames cfg s .addReplySubscription).1
  unfold startActor
  dsimp only
  generalize (if cfg.reply_sub_optional then s else call cfg s .addReplySubscription) = s₁ at hreply
  have hearly := (perform_frames cfg (s₁.1, s₁.2.publish s₁.1.creationMessage) b.early.calls).1
  generalize perform cfg (s₁.1, s₁.2.publish s₁.1.creationMessage) b.early.calls = s₂ at hearly
  have hpublish : Frames s₁ (s₁.1, s₁.2.publish s₁.1.creationMessage) := ⟨rfl, rfl, rfl, rfl, rfl⟩
  obtain ⟨hid, -, hactors, hready, -⟩ := hreply.trans (hpublish.trans hearly)
  obtain ⟨queue, hqueue, heq⟩ := ManagedActor.enqueue_eq
    { s₂.1 with initialized := decide (b.early.result = .OK) } (initMessage cfg)
  rw [heq]
  refine ⟨{ s₂.1 with initialized := decide (b.early.result = .OK), message_queue := queue }, hid,
    hqueue, ?_, ?_⟩
  · rw [← hactors, ← hid]
    split <;> rfl
  · rw [← hready, ← hid]
    split <;> rfl

theorem Ready.addActorBase {A P : UInt32 → ManagedActor → Prop} {e e' : Executor} {p : Publication}
    {b : Behaviour} {now : UInt32} (h : Ready A P e) (hadd : e.addActorBase cfg p b now = some e')
    (hnew : ∀ actor, Assoc.find e.next_id e.actors = none → actor.id = e.next_id →
      actor.message_queue ≠ [] →
      A e.next_id actor ∧ P e.next_id actor) : Ready A P e' := by
  unfold Executor.addActorBase at hadd
  split at hadd
  · rename_i node_id actor_type actor_version instance_id _ _ _ _
    dsimp only at hadd
    split at hadd
    · rw [← Option.some.inj hadd]
      exact h.congr (fun _ => rfl) rfl
    · rename_i hfree
      have hfree : Assoc.find e.next_id e.actors = none := by simpa using hfree
      have habsent : e.next_id ∉ e.ready_queue := by
        intro hmem
        obtain ⟨_, hfind, -⟩ := h.alive _ hmem
        rw [hfree] at hfind
        simp at hfind
      obtain ⟨hid, -, hactors, hready, -⟩ := (perform_frames cfg
        (ManagedActor.create e.next_id ⟨node_id, actor_type, instance_id⟩ actor_version,
          { e with next_id := e.next_id + 1 })
        b.construct).1
      generalize perform cfg (ManagedActor.create e.next_id ⟨node_id, actor_type, instance_id⟩
        actor_version, { e with next_id := e.next_id + 1 }) b.construct =
          s at hadd hid hactors hready
      obtain ⟨actor, hactor, hqueue, hput, hpush⟩ :=
        startActor_spec cfg (s.1, s.2.setActor e.next_id s.1) b now
      have hid : s.1.id = e.next_id := hid
      have hactors : s.2.actors = e.actors := hactors
      have hready : s.2.ready_queue = e.ready_queue := hready
      dsimp only at hactor hput hpush
      rw [hid] at hactor hput hpush
      obtain ⟨hA, hP⟩ := hnew actor hfree hactor hqueue
      rw [← Option.some.inj hadd]
      have hset := h.setActor hactor hA fun _ => hP
      refine (hset.push habsent (Assoc.find_put_self _ _ _) hP).congr (fun id => ?_) ?_
      · rw [hput, Executor.setActor, hactors, Executor.setActor]
        simp only [Assoc.find_put]
        split <;> rfl
      · rw [hpush, Executor.setActor, hready]
        rfl
  · simp at hadd

/-! ## One task -/

/-- What `process` can do. -/
inductive Processed (cfg : ExecutorSettings) (b : Behaviour) (now : UInt32) (e : Executor) :
    Executor → Prop where
  | idle (hready : e.ready_queue = []) : Processed cfg b now e e
  | gone (task rest) (hready : e.ready_queue = task :: rest)
      (hfind : Assoc.find task e.actors = none) :
    Processed cfg b now e { e with ready_queue := rest }
  | ran (task rest actor p queue h) (hready : e.ready_queue = task :: rest)
    (hfind : Assoc.find task e.actors = some actor) (hqueue : actor.message_queue = p :: queue)
    (hhandle : handle cfg (unblock actor queue, { e with ready_queue := rest }) b p = some h) :
    Processed cfg b now e (dispose cfg task now (finish p h))

theorem process_cases {e e' : Executor} {b : Behaviour} {now : UInt32}
    (h : e.process cfg b now = some e') :
    Processed cfg b now e e' := by
  unfold process at h
  split at h
  · rename_i hready
    rw [← Option.some.inj h]
    exact .idle hready
  · rename_i task rest hready
    dsimp only at h
    split at h
    · rename_i hfind
      rw [← Option.some.inj h]
      exact .gone task rest hready hfind
    · rename_i actor hfind
      obtain ⟨r, hr, rfl⟩ := Option.map_eq_some_iff.mp h
      unfold receiveNextInternal at hr
      dsimp only at hr
      split at hr
      · simp at hr
      · rename_i p queue hqueue
        obtain ⟨hd, hhandle, rfl⟩ := Option.map_eq_some_iff.mp hr
        exact .ran task rest actor p queue hd hready hfind hqueue hhandle

theorem process_ran {e e' : Executor} {b : Behaviour} {now task : UInt32} {rest : List UInt32}
    {actor : ManagedActor} (hready : e.ready_queue = task :: rest)
    (hfind : Assoc.find task e.actors = some actor) (h : e.process cfg b now = some e') :
    ∃ p queue hd, actor.message_queue = p :: queue ∧
      handle cfg (unblock actor queue, { e with ready_queue := rest }) b p = some hd ∧
      e' = dispose cfg task now (finish p hd) := by
  cases process_cases h with
  | idle hempty =>
    rw [hready] at hempty
    cases hempty
  | gone task' rest' hready' hgone =>
    rw [hready] at hready'
    obtain ⟨rfl, rfl⟩ := List.cons.inj hready'
    rw [hfind] at hgone
    cases hgone
  | ran task' rest' actor' p queue hd hready' hfind' hqueue hhandle =>
    rw [hready] at hready'
    obtain ⟨rfl, rfl⟩ := List.cons.inj hready'
    obtain rfl := Option.some.inj (hfind.symm.trans hfind')
    exact ⟨p, queue, hd, hqueue, hhandle, rfl⟩

theorem finish_frames (p : Publication) (h : Handled) :
    Frames h.frame (finish p h).frame ∧
      ((finish p h).frame.1.message_queue = [] ↔ h.frame.1.message_queue = []) := by
  unfold finish
  split
  · exact ⟨Frames.refl _, Iff.rfl⟩
  · split
    · exact ⟨⟨rfl, rfl, rfl, rfl, rfl⟩, Iff.rfl⟩
    · obtain ⟨queue, heq, hnil⟩ := h.frame.1.settle_eq
      dsimp only
      rw [heq]
      exact ⟨⟨rfl, rfl, rfl, rfl, rfl⟩, hnil⟩

theorem finish_sameSubs (p : Publication) (h : Handled) : SameSubs h.frame (finish p h).frame := by
  unfold finish
  split
  · exact ⟨rfl, rfl, rfl, rfl, rfl, rfl⟩
  · split
    · exact ⟨rfl, rfl, rfl, rfl, rfl, rfl⟩
    · obtain ⟨queue, heq, -⟩ := h.frame.1.settle_eq
      dsimp only
      rw [heq]
      exact ⟨rfl, rfl, rfl, rfl, rfl, rfl⟩

theorem Ready.dispose {A P : UInt32 → ManagedActor → Prop} {e : Executor} {task : UInt32}
    {now : UInt32} {r : Received} (h : Ready A P { e with actors := Assoc.erase task e.actors })
    (htask : task ∉ e.ready_queue) (hid : r.frame.1.id = task)
    (hactors : r.frame.2.actors = e.actors) (hready : r.frame.2.ready_queue = e.ready_queue)
    (hA : r.exit = false → A task r.frame.1)
    (hP : r.exit = false → r.next_timeout = 0 → P task r.frame.1) :
    Ready A P (Executor.dispose cfg task now r) := by
  have herased : Ready A P { r.frame.2 with actors := Assoc.erase task r.frame.2.actors } :=
    h.congr (fun _ => by rw [hactors]) hready
  have hnew : task ∉ r.frame.2.ready_queue := by rwa [hready]
  unfold Executor.dispose
  split
  · obtain ⟨hrest, hrest', -⟩ := release_rest cfg
      { r.frame.2 with actors := Assoc.erase task r.frame.2.actors } r.frame.1
    exact herased.congr (fun _ => by rw [hrest]) hrest'
  · rename_i hexit
    have hexit : r.exit = false := by simpa using hexit
    have hset : Ready A P (r.frame.2.setActor task r.frame.1) := by
      refine (herased.setActor hid (hA hexit) fun hmem => absurd hmem hnew).congr (fun id => ?_) rfl
      simp only [Executor.setActor, Assoc.find_put, Assoc.find_erase]
      split <;> rfl
    dsimp only
    split
    · rename_i hzero
      exact hset.push hnew (Assoc.find_put_self _ _ _) (hP hexit hzero)
    · split
      · exact hset.congr (fun _ => rfl) rfl
      · exact hset

theorem Ready.process {A P : UInt32 → ManagedActor → Prop} {e e' : Executor} {b : Behaviour}
    {now : UInt32} (h : Ready A P e) (hproc : e.process cfg b now = some e')
    (hnext : ∀ task rest actor p queue hd, e.ready_queue = task :: rest →
      Assoc.find task e.actors = some actor →
      actor.message_queue = p :: queue →
      handle cfg (unblock actor queue, { e with ready_queue := rest }) b p = some hd →
      (finish p hd).exit = false → A task (finish p hd).frame.1 ∧
        ((finish p hd).next_timeout = 0 → P task (finish p hd).frame.1)) : Ready A P e' := by
  cases process_cases hproc with
  | idle => exact h
  | gone task rest hready => exact (h.pop hready).1
  | ran task rest actor p queue hd hready hfind hqueue hhandle =>
    obtain ⟨hpop, htask⟩ := h.pop hready
    have hspec := (handle_spec hhandle).frames.trans (finish_frames p hd).1
    have hnext := hnext task rest actor p queue hd hready hfind hqueue hhandle
    exact (hpop.erase htask).dispose htask (hspec.id.trans (h.every task actor hfind).1)
      hspec.actors hspec.ready_queue (fun hexit => (hnext hexit).1) (fun hexit => (hnext hexit).2)

/-! ## Messages for all that are ready -/

/-- No actor is ready twice, and the actors that are ready have a message. -/
def Scheduled (e : Executor) : Prop :=
  e.ready_queue.Nodup ∧
    ∀ id ∈ e.ready_queue, ∀ actor, Assoc.find id e.actors = some actor → actor.message_queue ≠ []

/-- The next actor handles its only message, which does not come back, lives on, and blocks last
with a timeout of zero. -/
def BlocksForZero (e : Executor) (b : Behaviour) : Prop :=
  ∃ task rest actor p f, e.ready_queue = task :: rest ∧ Assoc.find task e.actors = some actor ∧
    actor.message_queue = [p] ∧ putsBack actor b p = false ∧ exits actor b p = false ∧
    lastBlock (callsFor actor b p) = some (f, 0)

def Any (_ : UInt32) (_ : ManagedActor) : Prop := True

def HasMessage (_ : UInt32) (actor : ManagedActor) : Prop := actor.message_queue ≠ []

theorem scheduled_iff {e : Executor} (h : Ready Any Any e) :
    e.Scheduled ↔ Ready Any HasMessage e := by
  constructor
  · intro hs
    refine ⟨h.every, h.nodup, fun id hid => ?_⟩
    obtain ⟨actor, hfind, -⟩ := h.alive id hid
    exact ⟨actor, hfind, hs.2 id hid actor hfind⟩
  · intro hr
    refine ⟨hr.nodup, fun id hid actor hfind => ?_⟩
    obtain ⟨actor', hfind', hne⟩ := hr.alive id hid
    obtain rfl := Option.some.inj (hfind.symm.trans hfind')
    exact hne

theorem allows_any (id : UInt32) (p : Publication) : Allows Any Any id p :=
  ⟨fun _ _ => trivial, fun _ _ _ => trivial, fun _ _ _ => trivial⟩

theorem allows_message (id : UInt32) (p : Publication) : Allows Any HasMessage id p := by
  have hne : ∀ actor : ManagedActor, HasMessage id (actor.enqueue p).1 := by
    intro actor
    obtain ⟨queue, hqueue, heq⟩ := actor.enqueue_eq p
    rw [heq]
    exact hqueue
  exact ⟨fun _ _ => trivial, fun actor _ _ => hne actor, fun actor _ _ => hne actor⟩

/-- All steps but the processing of a task keep the ready queue in order. -/
theorem Ready.step {A P : UInt32 → ManagedActor → Prop} {e e' : Executor} {ev : Event}
    (h : Ready A P e) (hstep : e.step cfg ev = some e')
    (hdeliver : ∀ sub p b now, ev = .deliver sub p b now → sub ≠ e.executor_subscription_id →
      ∀ id ∈ Multimap.members sub e.subscription_mapping, Allows A P id p ∧ Allows A P id p.copy)
    (hnew : ∀ actor, Assoc.find e.next_id e.actors = none → actor.id = e.next_id →
      actor.message_queue ≠ [] →
      A e.next_id actor ∧ P e.next_id actor)
    (htimeout : ∀ start, ev = .expire start → ∀ t actor, e.timeouts.head? = some t →
      t.timeout < start →
      A t.actor_id actor → A t.actor_id (actor.triggerTimeout t.user_defined t.trigger_id) ∧
        P t.actor_id (actor.triggerTimeout t.user_defined t.trigger_id))
    (hwrite : ∀ id i p, ev = .overwrite id i p → ∀ actor, Assoc.find id e.actors = some actor →
      (A id actor → A id { actor with message_queue := actor.message_queue.set i p }) ∧
      (P id actor → P id { actor with message_queue := actor.message_queue.set i p }))
    (hproc : ∀ b now, ev = .process b now → e.process cfg b now = some e' → Ready A P e') :
    Ready A P e' := by
  cases ev with
  | deliver sub p b now =>
    simp only [Executor.step, Executor.deliver] at hstep
    split at hstep
    · split at hstep
      · exact h.addActorBase hstep hnew
      · simp at hstep
    · rename_i hother
      rw [← Option.some.inj hstep]
      exact h.offerAll (hdeliver sub p b now rfl hother)
  | flush now =>
    rw [← Option.some.inj hstep]
    exact h.flush now
  | expire start =>
    rw [← Option.some.inj hstep]
    exact h.expire start (htimeout start rfl)
  | process b now => exact hproc b now rfl hstep
  | others ev =>
    simp only [Executor.step] at hstep
    split at hstep
    · simp at hstep
    · obtain ⟨hub, -, rfl⟩ := Option.map_eq_some_iff.mp hstep
      exact h.congr (fun _ => rfl) rfl
  | overwrite id i p =>
    rw [← Option.some.inj hstep]
    exact h.overwrite id i p (hwrite id i p rfl)

theorem Ready.any_step {e e' : Executor} {ev : Event} (h : Ready Any Any e)
    (hstep : e.step cfg ev = some e') :
    Ready Any Any e' :=
  h.step hstep (fun _ p _ _ _ _ id _ => ⟨allows_any id p, allows_any id p.copy⟩) (fun _ _ _ _ =>
    ⟨trivial, trivial⟩) (fun _ _ _ _ _ _ _ => ⟨trivial, trivial⟩) (fun _ _ _ _ _ _ =>
      ⟨fun _ => trivial, fun _ => trivial⟩)
    (fun _ _ _ hproc => h.process hproc fun _ _ _ _ _ _ _ _ _ _ _ => ⟨trivial, fun _ => trivial⟩)

theorem settle_nil {actor : ManagedActor} (h : actor.message_queue = []) :
    actor.settle = (actor, actor.timeout) := by
  unfold ManagedActor.settle
  rw [h]
  split <;> rfl

theorem settle_zero {actor : ManagedActor} {block : Option (Filter × UInt32)}
    (h : Blocked actor block) :
    actor.settle.2 = 0 ∧ actor.settle.1.message_queue = [] ↔
      actor.message_queue = [] ∧ ∃ f, block = some (f, 0) := by
  have htimeout : actor.timeout = 0 ↔ ∃ f, block = some (f, 0) := by
    cases block with
    | none =>
      rw [h.2]
      simp [UINT32_MAX]
    | some block =>
      obtain ⟨f, timeout⟩ := block
      rw [h.2.2]
      simp
  obtain ⟨queue, heq, hnil⟩ := actor.settle_eq
  constructor
  · rintro ⟨hzero, hqueue⟩
    rw [heq] at hqueue
    have hempty := hnil.mp hqueue
    rw [settle_nil hempty] at hzero
    exact ⟨hempty, htimeout.mp hzero⟩
  · rintro ⟨hempty, hblock⟩
    rw [settle_nil hempty]
    exact ⟨htimeout.mpr hblock, hempty⟩

theorem finish_zero {s : Frame} {b : Behaviour} {p : Publication} {h : Handled}
    (hs : Blocked s.1 none) (hspec : HandleSpec cfg s b p h) (hexit : (finish p h).exit = false) :
    (finish p h).next_timeout = 0 ∧ (finish p h).frame.1.message_queue = [] ↔
      h.frame.1.message_queue = [] ∧ ∃ f, lastBlock (callsFor s.1 b p) = some (f, 0) := by
  have hblocked := hspec.blocked hs
  by_cases hreturns : h.returns = true
  · -- the block of a code fetch lasts a second
    have hlong := hspec.returns hreturns
    refine iff_of_false ?_ ?_
    · rintro ⟨hzero, -⟩
      have hthousand : (finish p h).next_timeout = 1000 := by rw [finish, if_pos hreturns, hlong]
      rw [hthousand] at hzero
      exact absurd hzero (by decide)
    · rintro ⟨-, f, hblock⟩
      rw [hblock] at hblocked
      have hzero := hblocked.2.2
      rw [hlong] at hzero
      exact absurd hzero (by decide)
  · unfold finish at hexit ⊢
    rw [if_neg hreturns] at hexit ⊢
    split at hexit
    · simp at hexit
    · rename_i hret
      rw [if_neg hret]
      exact settle_zero hblocked

/-- A step of the loop keeps the order exactly if its actor does not block for no time at all. -/
theorem process_scheduled {e e' : Executor} {b : Behaviour} {now : UInt32} (h : Ready Any Any e) (hs : e.Scheduled)
    (hproc : e.process cfg b now = some e') : e'.Scheduled ↔ ¬ e.BlocksForZero b := by
  have hunblocked : ∀ (actor : ManagedActor) (queue : List Publication), Blocked (unblock actor queue) none :=
    fun _ _ => ⟨rfl, rfl⟩
  have hstep : e.step cfg (.process b now) = some e' := hproc
  have hany : Ready Any Any e' := h.any_step hstep
  constructor
  · rintro hs' ⟨task, rest, actor, p, f, hready, hfind, hqueue, hback, hexits, hblock⟩
    obtain ⟨p', queue, hd, hqueue', hhandle, rfl⟩ := process_ran hready hfind hproc
    rw [hqueue] at hqueue'
    obtain ⟨rfl, rfl⟩ := List.cons.inj hqueue'
    have hspec := handle_spec hhandle
    have hexit : (finish p hd).exit = false := hspec.exit.trans hexits
    have hempty : hd.frame.1.message_queue = [] := by
      rw [hspec.queue]
      exact if_neg (by rw [show putsBack (unblock actor []) b p = putsBack actor b p from rfl, hback]; decide)
    obtain ⟨hzero, hnil⟩ := (finish_zero (hunblocked actor []) hspec hexit).mpr ⟨hempty, f, hblock⟩
    have hdispose : Executor.dispose cfg task now (finish p hd) =
        { (finish p hd).frame.2.setActor task (finish p hd).frame.1 with
          ready_queue := (finish p hd).frame.2.ready_queue ++ [task] } := by
      unfold Executor.dispose
      rw [hexit, hzero]
      rfl
    rw [hdispose] at hs'
    exact hs'.2 task (by simp) _ (Assoc.find_put_self _ _ _) hnil
  · intro hno
    refine (scheduled_iff hany).mpr (((scheduled_iff h).mp hs).process hproc ?_)
    intro task rest actor p queue hd hready hfind hqueue hhandle hexit
    refine ⟨trivial, fun hzero hnil => hno ?_⟩
    have hspec := handle_spec hhandle
    obtain ⟨hempty, f, hblock⟩ := (finish_zero (hunblocked actor queue) hspec hexit).mp ⟨hzero, hnil⟩
    rw [hspec.queue] at hempty
    split at hempty
    · simp at hempty
    · rename_i hback
      have hqueue' : queue = [] := hempty
      subst hqueue'
      exact ⟨task, rest, actor, p, f, hready, hfind, hqueue, Bool.not_eq_true _ ▸ hback, hspec.exit.symm.trans hexit,
        hblock⟩

theorem ready_create {hub : Hub} {handle : Nat} {e : Executor}
    (h : create cfg hub handle = some e) :
    Ready Any Any e ∧ e.Scheduled := by
  obtain ⟨_, -, rfl⟩ := Option.map_eq_some_iff.mp h
  exact ⟨⟨by simp, List.nodup_nil, by simp⟩, List.nodup_nil, by simp⟩

/-- The actors that are ready always have a message exactly if no actor that is left without one
blocks with a timeout of zero. -/
theorem scheduled_iff_no_zero_block (cfg : ExecutorSettings) (hub : Hub) (handle : Nat)
    (events : List Event) :
    (∀ pre post e, events = pre ++ post → run cfg hub handle pre = some e → e.Scheduled) ↔
      ∀ pre b now post e, events = pre ++ .process b now :: post → run cfg hub handle pre = some e →
        (e.process cfg b now).isSome = true → ¬ e.BlocksForZero b := by
  cases hcreate : create cfg hub handle with
  | none => simp [run, hcreate]
  | some e₀ =>
    obtain ⟨hready, hscheduled⟩ := ready_create hcreate
    have hrun : ∀ pre, run cfg hub handle pre = pre.foldlM (step cfg) e₀ := fun pre => by
      simp [run, hcreate]
    simp only [hrun]
    have hstep : ∀ (e : Executor) (ev : Event) (e' : Executor), Ready Any Any e → e.Scheduled →
        e.step cfg ev = some e' → (e'.Scheduled ↔ ∀ b now, ev = .process b now →
          ¬ e.BlocksForZero b) := by
      intro e ev e' h hs hnext
      by_cases hproc : ∃ b now, ev = .process b now
      · obtain ⟨b, now, rfl⟩ := hproc
        rw [process_scheduled h hs hnext]
        constructor
        · rintro hno _ _ ⟨rfl, rfl⟩
          exact hno
        · exact fun hall => hall b now rfl
      · refine iff_of_true ?_ fun b now heq => absurd ⟨b, now, heq⟩ hproc
        refine (scheduled_iff (h.any_step hnext)).mpr (((scheduled_iff h).mp hs).step hnext ?_ ?_
          ?_ ?_ ?_)
        · exact fun _ p _ _ _ _ id _ => ⟨allows_message id p, allows_message id p.copy⟩
        · exact fun _ _ _ hne => ⟨trivial, hne⟩
        · exact fun _ _ _ _ _ _ _ => ⟨trivial, List.cons_ne_nil _ _⟩
        · intro id i p _ actor _
          refine ⟨fun _ => trivial, fun hne hnil => hne ?_⟩
          simpa using hnil
        · exact fun b now heq => absurd ⟨b, now, heq⟩ hproc
    have hiff := Runs.always_iff (f := step cfg) (l := events) (Ready Any Any) Scheduled
      (fun e ev => ∀ e', e.step cfg ev = some e' → ∀ b now, ev = .process b now →
        ¬ e.BlocksForZero b)
      hready hscheduled (fun _ _ _ h hnext => h.any_step hnext)
      (fun e ev e' h hs hnext => (hstep e ev e' h hs hnext).trans
        ⟨fun hno _ _ => hno, fun hall => hall e' hnext⟩)
      (fun e ev _ _ hnone e' hnext => by rw [hnone] at hnext; simp at hnext)
    refine hiff.trans ⟨?_, ?_⟩
    · intro hall pre b now post e heq hpre hsome
      obtain ⟨e', hnext⟩ := Option.isSome_iff_exists.mp hsome
      exact hall pre _ post e heq hpre e' hnext b now rfl
    · rintro hall pre ev post e heq hpre e' hnext b now rfl
      exact hall pre b now post e heq hpre (Option.isSome_iff_exists.mpr ⟨e', hnext⟩)

/-- An executor for scripts, as it is built by default. -/
def luaSettings : ExecutorSettings :=
    ⟨⟨"node", 3⟩, ⟨"node", "lua_executor", "1"⟩, "lua", false, false⟩

def spawnMessage (actor_type : String) : Publication :=
  ((((Publication.ofPublisher "node" "manager" "1").setAttr "spawn_node_id" (.str "node")).setAttr
    "spawn_actor_type" (.str actor_type)).setAttr "spawn_actor_version" (.str "1")).setAttr
      "spawn_instance_id" (.str "1")

/-- An actor whose code is there, and that makes these calls when it receives a message. -/
def receiving (calls : List Call) : Behaviour :=
  ⟨[], ⟨[], .OK⟩, ⟨[], .OK⟩, ⟨[], .OK⟩, ⟨calls, .OK⟩, false⟩

/-- An actor waits for `foo = bar` with a timeout of zero. It is ready again, and has no message. -/
theorem zero_block_without_message :
    ∃ e, run luaSettings (Hub.init ⟨"node", 3⟩) 1
        [.deliver 11 (spawnMessage "blocker") (receiving []) 0,
          .process (receiving [.defferedBlockFor ⟨[.str "foo" "bar" .EQ false], []⟩ 0]) 0] =
            some e ∧
      ¬ e.Scheduled ∧ ∀ b now, e.process luaSettings b now = none := by
  refine ⟨_, rfl, fun hs => ?_, fun b now => rfl⟩
  exact hs.2 1 (by decide) _ rfl rfl

end Executor

end UActor
