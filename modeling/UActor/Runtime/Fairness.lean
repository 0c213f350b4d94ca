import UActor.Lib.Turns
import UActor.Runtime.ArrivalOrder

/-!
# Turns of the actors

An actor that has something to do stands in the ready queue, and the queue is served in order.
-/

namespace UActor

/-- The actor waits for nothing, and has a message. -/
def ManagedActor.Eager (actor : ManagedActor) : Prop :=
  actor.waiting = false ∧ actor.message_queue ≠ []

/-- The actor waits for a message that it has, and not for its code. -/
def ManagedActor.Answered (actor : ManagedActor) : Prop :=
  actor.waiting = true ∧ actor.waiting_for_code = false ∧ ∃ p ∈ actor.message_queue,
    actor.pattern.matches p = true

namespace Executor

/-- The loop takes the next task. -/
def Event.takes : Event → Bool
  | .process .. => true
  | .deliver .. | .flush _ | .expire _ | .others _ | .overwrite .. => false

/-- What makes an actor due is noticed: when a message comes, and when the actor has handled one. -/
structure Noticed (D : ManagedActor → Prop) : Prop where
  enqueue : ∀ (actor : ManagedActor) p, D (actor.enqueue p).1 → (actor.enqueue p).2 = true ∨ D actor
  settle : ∀ actor : ManagedActor, D actor.settle.1 → actor.settle.2 = 0
  retry : ∀ actor, D actor → ¬ (actor.waiting = true ∧ actor.waiting_for_code = true)

/-- Every actor that is due is in the ready queue. -/
def Queued (D : ManagedActor → Prop) (e : Executor) : Prop :=
  ∀ id actor, Assoc.find id e.actors = some actor → D actor → id ∈ e.ready_queue

theorem noticed_eager : Noticed ManagedActor.Eager := by
  refine ⟨fun actor p h => Or.inl ?_, fun actor h => ?_, fun actor h hblocked => ?_⟩
  · obtain ⟨queue, -, heq⟩ := actor.enqueue_eq p
    rw [heq] at h
    have hwaiting : actor.waiting = false := h.1
    unfold ManagedActor.enqueue
    rw [hwaiting]
    split <;> rfl
  · obtain ⟨queue, heq, hnil⟩ := actor.settle_eq
    rw [heq] at h
    have hwaiting : actor.waiting = false := h.1
    have hqueue : actor.message_queue ≠ [] := mt hnil.mpr h.2
    unfold ManagedActor.settle
    rw [hwaiting, if_neg Bool.false_ne_true, if_neg (by simpa using hqueue)]
  · rw [h.1] at hblocked
    exact Bool.false_ne_true hblocked.1

theorem noticed_answered : Noticed ManagedActor.Answered := by
  refine ⟨fun actor p h => ?_, fun actor h => ?_, fun actor h hblocked => ?_⟩
  · unfold ManagedActor.enqueue at h ⊢
    split at h
    · rename_i hexit
      rw [if_pos hexit]
      exact Or.inl rfl
    · rename_i hexit
      rw [if_neg hexit]
      split at h
      · rename_i hwaiting
        rw [if_pos hwaiting]
        split at h
        · rename_i hmatches
          rw [if_pos hmatches]
          exact Or.inl rfl
        · -- the new message is not the one that the actor waits for
          rename_i hother
          obtain ⟨hwaits, hcode, m, hm, hmatches⟩ := h
          refine Or.inr ⟨hwaits, hcode, m, ?_, hmatches⟩
          rcases List.mem_append.mp hm with hm | hm
          · exact hm
          · rw [List.mem_singleton.mp hm] at hmatches
            exact absurd hmatches hother
      · rename_i hwaiting
        rw [if_neg hwaiting]
        exact Or.inl rfl
  · unfold ManagedActor.settle at h ⊢
    split at h
    · rename_i hwaiting
      rw [if_pos hwaiting]
      split at h
      · rfl
      · rename_i hnone
        obtain ⟨-, -, m, hm, hmatches⟩ := h
        exact absurd hmatches (List.find?_eq_none.mp hnone m hm)
    · rename_i hwaiting
      split at h <;> exact absurd h.1 hwaiting
  · rw [h.2.1] at hblocked
    exact Bool.false_ne_true hblocked.2

variable {cfg : ExecutorSettings} {D : ManagedActor → Prop} {e e' : Executor}

/-! ## The order of the queue -/

theorem dispose_ready (cfg : ExecutorSettings) (task now : UInt32) (r : Received) :
    ∃ more, (dispose cfg task now r).ready_queue = r.frame.2.ready_queue ++ more := by
  unfold dispose
  split
  · exact ⟨[], by rw [(release_rest cfg _ _).2.1, List.append_nil]⟩
  · dsimp only
    split
    · exact ⟨[task], rfl⟩
    · split <;> exact ⟨[], (List.append_nil _).symm⟩

theorem pushReady_ready (e : Executor) (id : UInt32) :
    ∃ more, (e.pushReady id).ready_queue = e.ready_queue ++ more := by
  unfold pushReady
  split
  · exact ⟨[], (List.append_nil _).symm⟩
  · exact ⟨[id], rfl⟩

theorem offerAll_ready (p : Publication) (count : Nat) (ids : List UInt32) (e : Executor) :
    ∃ more, (offerAll p count ids e).ready_queue = e.ready_queue ++ more := by
  induction ids generalizing e count with
  | nil => exact ⟨[], (List.append_nil _).symm⟩
  | cons id ids ih =>
    unfold offerAll
    split
    · exact ih count e
    · rename_i actor hfind
      have hoffer : ∀ q, ∃ more, (e.offer id actor q).ready_queue = e.ready_queue ++ more := by
        intro q
        unfold offer
        dsimp only
        split
        · exact pushReady_ready (e.setActor id (actor.enqueue q).1) id
        · exact ⟨[], (List.append_nil _).symm⟩
      obtain ⟨first, hfirst⟩ := hoffer (if count = 1 then p else p.copy)
      obtain ⟨rest, hrest⟩ := ih (count - 1) (e.offer id actor (if count = 1 then p else p.copy))
      exact ⟨first ++ rest, by rw [hrest, hfirst, List.append_assoc]⟩

theorem expire_ready (e : Executor) (start : UInt32) :
    ∃ more, (e.expire start).ready_queue = e.ready_queue ++ more := by
  unfold expire
  split
  · exact ⟨[], (List.append_nil _).symm⟩
  · rename_i t rest htimeouts
    split
    · dsimp only
      split
      · exact ⟨[], (List.append_nil _).symm⟩
      · rename_i actor hfind
        exact pushReady_ready (Executor.setActor { e with timeouts := rest } t.actor_id
          (actor.triggerTimeout t.user_defined t.trigger_id)) t.actor_id
    · exact ⟨[], (List.append_nil _).symm⟩

theorem addActorBase_ready {p : Publication} {b : Behaviour} {now : UInt32}
    (h : e.addActorBase cfg p b now = some e') :
    (e'.actors = e.actors ∧ e'.ready_queue = e.ready_queue) ∨
      ∃ actor, e'.actors = Assoc.put e.next_id actor e.actors ∧ e'.ready_queue = e.ready_queue ++
        [e.next_id] := by
  unfold addActorBase at h
  split at h
  · rename_i node_id actor_type actor_version instance_id _ _ _ _
    dsimp only at h
    split at h
    · rw [← Option.some.inj h]
      exact Or.inl ⟨rfl, rfl⟩
    · obtain ⟨hid, -, hactors, hready, -⟩ := (perform_frames cfg
        (ManagedActor.create e.next_id ⟨node_id, actor_type, instance_id⟩ actor_version,
          { e with next_id := e.next_id + 1 })
        b.construct).1
      generalize perform cfg (ManagedActor.create e.next_id ⟨node_id, actor_type, instance_id⟩
        actor_version, { e with next_id := e.next_id + 1 }) b.construct = s at h hid hactors hready
      obtain ⟨actor, -, -, hput, hpush⟩ :=
        startActor_spec cfg (s.1, s.2.setActor e.next_id s.1) b now
      have hid : s.1.id = e.next_id := hid
      have hactors : s.2.actors = e.actors := hactors
      have hready : s.2.ready_queue = e.ready_queue := hready
      rw [← Option.some.inj h]
      refine Or.inr ⟨actor, ?_, ?_⟩
      · rw [hput, setActor, hid, Assoc.put_put, hactors]
      · rw [hpush, setActor, hid, hready]
  · cases h

/-! ## The steps of the loop -/

namespace Queued

theorem congr (h : Queued D e) (hactors : ∀ id, Assoc.find id e'.actors = Assoc.find id e.actors)
    (hready : ∀ id ∈ e.ready_queue, id ∈ e'.ready_queue) : Queued D e' :=
  fun id actor hfind hdue => hready id (h id actor (hactors id ▸ hfind) hdue)

theorem mem_pushReady {id id' : UInt32} : id' ∈ (e.pushReady id).ready_queue ↔ id' ∈ e.ready_queue ∨
    id' = id := by
  unfold Executor.pushReady
  split
  · rename_i hmem
    refine ⟨Or.inl, ?_⟩
    rintro (h | rfl)
    · exact h
    · exact hmem
  · simp

theorem setActor (h : Queued D e) {id : UInt32} {actor : ManagedActor}
    (hdue : D actor → id ∈ e.ready_queue) :
    Queued D (e.setActor id actor) := by
  intro id' actor' hfind hD
  rw [Executor.setActor, Assoc.find_put] at hfind
  split at hfind
  · rename_i heq
    obtain rfl := Option.some.inj hfind
    exact heq ▸ hdue hD
  · exact h id' actor' hfind hD

theorem setActor_pushReady (h : Queued D e) (id : UInt32) (actor : ManagedActor) :
    Queued D ((e.setActor id actor).pushReady id) := by
  intro id' actor' hfind hD
  rw [mem_pushReady]
  have hactors : ((e.setActor id actor).pushReady id).actors = Assoc.put id actor e.actors := by
    unfold Executor.pushReady
    split <;> rfl
  rw [hactors, Assoc.find_put] at hfind
  split at hfind
  · rename_i heq
    exact Or.inr heq.symm
  · exact Or.inl (h id' actor' hfind hD)

theorem offer (h : Queued D e) (hD : Noticed D) {id : UInt32} {actor : ManagedActor}
    (hfind : Assoc.find id e.actors = some actor) (p : Publication) :
    Queued D (e.offer id actor p) := by
  unfold Executor.offer
  dsimp only
  split
  · exact (h.setActor_pushReady id _).congr (fun _ => rfl) fun _ hid => hid
  · rename_i hnow
    refine h.setActor fun hdue => ?_
    rcases hD.enqueue actor p hdue with hready | hdue
    · exact absurd hready hnow
    · exact h id actor hfind hdue

theorem offerAll (h : Queued D e) (hD : Noticed D) (p : Publication) (count : Nat)
    (ids : List UInt32) :
    Queued D (Executor.offerAll p count ids e) := by
  induction ids generalizing e count with
  | nil => exact h
  | cons id ids ih =>
    unfold Executor.offerAll
    split
    · exact ih h count
    · rename_i actor hfind
      exact ih (h.offer hD hfind _) _

theorem expire (h : Queued D e) (start : UInt32) : Queued D (e.expire start) := by
  unfold Executor.expire
  split
  · exact h
  · rename_i t rest htimeouts
    split
    · have hrest : Queued D { e with timeouts := rest } := h.congr (fun _ => rfl) fun _ hid => hid
      dsimp only
      split
      · exact hrest
      · exact hrest.setActor_pushReady _ _
    · exact h

theorem flush (h : Queued D e) (now : UInt32) : Queued D (e.flush now) := by
  unfold Executor.flush
  split
  · exact h
  · split
    · exact h.congr (fun _ => rfl) fun _ hid => hid
    · exact h

theorem addActorBase (h : Queued D e) {p : Publication} {b : Behaviour} {now : UInt32}
    (hadd : e.addActorBase cfg p b now = some e') : Queued D e' := by
  rcases addActorBase_ready hadd with ⟨hactors, hready⟩ | ⟨actor, hactors, hready⟩
  · exact h.congr (fun _ => by rw [hactors]) fun _ hid => hready ▸ hid
  · intro id actor' hfind hdue
    rw [hready, List.mem_append, List.mem_singleton]
    rw [hactors, Assoc.find_put] at hfind
    split at hfind
    · rename_i heq
      exact Or.inr heq.symm
    · exact Or.inl (h id actor' hfind hdue)

/-- The loop gets a block without a look at the queue only from an actor that asks for its code
again. -/
theorem waits_of_returns {s : Frame} {b : Behaviour} {p : Publication} {h : Handled}
    (hh : handle cfg s b p = some h) (hreturns : h.returns = true) :
    h.frame.1.waiting = true ∧ h.frame.1.waiting_for_code = true := by
  rw [handle_returns hh] at hreturns
  simp only [retries, Bool.and_eq_true, Bool.not_eq_true', beq_iff_eq,
    decide_eq_true_eq] at hreturns
  obtain ⟨⟨⟨hcode, htype⟩, hwaiting⟩, hretries⟩ := hreturns
  unfold handle at hh
  rw [hcode, if_neg Bool.false_ne_true, if_pos ⟨htype, hwaiting⟩] at hh
  rw [← Option.some.inj hh, retryCode, if_pos hretries]
  exact ⟨rfl, rfl⟩

theorem next_timeout_of_due (hD : Noticed D) {s : Frame} {b : Behaviour} {p : Publication}
    {h : Handled} (hh : handle cfg s b p = some h) (hdue : D (finish p h).frame.1) :
    (finish p h).next_timeout = 0 := by
  unfold finish at hdue ⊢
  split
  · rename_i hret
    rw [if_pos hret] at hdue
    exact absurd (waits_of_returns hh hret) (hD.retry _ hdue)
  · rename_i hret
    rw [if_neg hret] at hdue
    split
    · rfl
    · rename_i hends
      rw [if_neg hends] at hdue
      exact hD.settle _ hdue

theorem process (h : Queued D e) (hD : Noticed D) {b : Behaviour} {now : UInt32}
    (hproc : e.process cfg b now = some e') : Queued D e' := by
  cases process_cases hproc with
  | idle => exact h
  | gone task rest hready hfind =>
    intro id actor hid hdue
    have hmem := h id actor hid hdue
    rw [hready] at hmem
    refine (List.mem_cons.mp hmem).resolve_left ?_
    rintro rfl
    rw [hfind] at hid
    cases hid
  | ran task rest actor p queue hd hready hfind hqueue hhandle =>
    obtain ⟨-, -, hactors, hrest, -⟩ := (handle_spec hhandle).frames.trans (finish_frames p hd).1
    have hactors : (finish p hd).frame.2.actors = e.actors := hactors
    have hrest : (finish p hd).frame.2.ready_queue = rest := hrest
    obtain ⟨more, hmore⟩ := dispose_ready cfg task now (finish p hd)
    rw [hrest] at hmore
    intro id actor' hid hdue
    by_cases htask : task = id
    · subst htask
      cases hexit : (finish p hd).exit with
      | true =>
        rw [(dispose_find cfg task now _).mpr hexit] at hid
        cases hid
      | false =>
        rw [dispose_find_self hexit] at hid
        obtain rfl := Option.some.inj hid
        have hzero := next_timeout_of_due hD hhandle hdue
        unfold dispose
        rw [hexit, if_neg Bool.false_ne_true, hzero]
        exact List.mem_append_right _ (List.mem_singleton.mpr rfl)
    · rw [dispose_find_other htask, hactors] at hid
      have hmem := h id actor' hid hdue
      rw [hready] at hmem
      rw [hmore]
      exact List.mem_append_left _ ((List.mem_cons.mp hmem).resolve_left (Ne.symm htask))

theorem overwrite (h : Queued D e) (id : UInt32) (i : Nat) (p : Publication)
    (hD : ∀ actor : ManagedActor, D { actor with message_queue := actor.message_queue.set i p } →
      D actor) :
    Queued D (e.overwrite id i p) := by
  unfold Executor.overwrite
  split
  · exact h
  · rename_i actor hfind
    exact h.setActor fun hdue => h id actor hfind (hD actor hdue)

theorem step {ev : Event} (h : Queued D e) (hD : Noticed D)
    (hwrite : ∀ id i p, ev = .overwrite id i p →
      ∀ actor : ManagedActor, D { actor with message_queue := actor.message_queue.set i p } →
      D actor)
    (hstep : e.step cfg ev = some e') : Queued D e' := by
  cases ev with
  | deliver sub p b now =>
    simp only [Executor.step, deliver] at hstep
    split at hstep
    · split at hstep
      · exact h.addActorBase hstep
      · cases hstep
    · rw [← Option.some.inj hstep]
      exact h.offerAll hD p _ _
  | flush now =>
    rw [← Option.some.inj hstep]
    exact h.flush now
  | expire start =>
    rw [← Option.some.inj hstep]
    exact h.expire start
  | process b now => exact h.process hD hstep
  | others ev =>
    simp only [Executor.step] at hstep
    split at hstep
    · cases hstep
    · obtain ⟨hub, -, rfl⟩ := Option.map_eq_some_iff.mp hstep
      exact h.congr (fun _ => rfl) fun _ hid => hid
  | overwrite id i p =>
    rw [← Option.some.inj hstep]
    exact h.overwrite id i p (hwrite id i p rfl)

end Queued

theorem fifo_ready_queue (cfg : ExecutorSettings) :
    Turns.Fifo (step cfg) Executor.ready_queue Event.takes := by
  intro e ev e' hstep
  cases ev with
  | deliver sub p b now =>
    simp only [Executor.step, deliver] at hstep
    split at hstep
    · split at hstep
      · rcases addActorBase_ready hstep with ⟨-, hready⟩ | ⟨actor, -, hready⟩
        · exact ⟨[], hready.trans (List.append_nil _).symm⟩
        · exact ⟨[e.next_id], hready⟩
      · cases hstep
    · rw [← Option.some.inj hstep]
      exact offerAll_ready p _ _ e
  | flush now =>
    rw [← Option.some.inj hstep]
    refine ⟨[], ?_⟩
    rw [List.append_nil]
    unfold flush
    split
    · rfl
    · split <;> rfl
  | expire start =>
    rw [← Option.some.inj hstep]
    exact expire_ready e start
  | process b now =>
    cases process_cases hstep with
    | idle hready => exact ⟨[], by rw [hready]; rfl⟩
    | gone task rest hready hfind => exact ⟨[], by rw [hready]; exact (List.append_nil _).symm⟩
    | ran task rest actor p queue hd hready hfind hqueue hhandle =>
      obtain ⟨more, hmore⟩ := dispose_ready cfg task now (finish p hd)
      refine ⟨more, ?_⟩
      rw [hmore, ((handle_spec hhandle).frames.trans (finish_frames p hd).1).ready_queue, hready]
      rfl
  | others ev =>
    simp only [Executor.step] at hstep
    split at hstep
    · cases hstep
    · obtain ⟨hub, -, rfl⟩ := Option.map_eq_some_iff.mp hstep
      exact ⟨[], (List.append_nil _).symm⟩
  | overwrite id i p =>
    rw [← Option.some.inj hstep]
    refine ⟨[], ?_⟩
    rw [List.append_nil]
    unfold overwrite
    split <;> rfl

/-! ## Whole runs -/

section

variable {hub : Hub} {handle : Nat} {events : List Event}

theorem queued_create (h : create cfg hub handle = some e) : Queued D e := by
  obtain ⟨_, -, rfl⟩ := Option.map_eq_some_iff.mp h
  intro id actor hfind
  cases hfind

theorem ready_run (hrun : run cfg hub handle events = some e) : Ready Any Any e := by
  obtain ⟨init, hcreate, hevents⟩ := Option.bind_eq_some_iff.mp hrun
  exact Runs.invariant (Ready Any Any) (ready_create hcreate).1 (fun _ _ _ h hstep =>
    h.any_step hstep) hevents

theorem queued_run (hD : Noticed D)
    (hwrite : ∀ id i p, .overwrite id i p ∈ events →
      ∀ actor : ManagedActor, D { actor with message_queue := actor.message_queue.set i p } →
      D actor)
    (hrun : run cfg hub handle events = some e) : Queued D e := by
  obtain ⟨init, hcreate, hevents⟩ := Option.bind_eq_some_iff.mp hrun
  refine Runs.invariant_of (Queued D) (fun _ ev => ev ∈ events) (queued_create hcreate) ?_
    ?_ hevents
  · intro e ev e' h hmem hstep
    exact h.step hD (fun id i p heq => hwrite id i p (heq ▸ hmem)) hstep
  · rintro pre ev post before rfl -
    simp

/-- An actor that has something to do stands in the ready queue. -/
theorem mem_ready_queue {id : UInt32} {actor : ManagedActor}
    (hrun : run cfg hub handle events = some e) (hfind : Assoc.find id e.actors = some actor)
    (hdue : actor.Eager ∨ actor.Answered ∧ ∀ id i p, .overwrite id i p ∉ events) :
    id ∈ e.ready_queue := by
  rcases hdue with heager | ⟨hanswered, hno⟩
  · refine queued_run noticed_eager (fun id i p _ actor h => ⟨h.1, fun hnil => h.2 ?_⟩) hrun id
      actor hfind heager
    simp [hnil]
  · exact queued_run noticed_answered (fun id i p hmem => absurd hmem (hno id i p)) hrun id actor
      hfind hanswered

/-- An actor that has something to do is never forgotten and never starves: it handles a message
after as many turns of others as stand before it in the ready queue, fewer than there are actors. -/
theorem turn_comes {id : UInt32} {actor : ManagedActor} {later : List Event}
    (hrun : run cfg hub handle events = some e) (hfind : Assoc.find id e.actors = some actor)
    (hdue : actor.Eager ∨ actor.Answered ∧ ∀ id i p, .overwrite id i p ∉ events)
    (hlater : later.foldlM (step cfg) e = some e')
    (hturns : e.ready_queue.idxOf id < later.countP Event.takes) :
    id ∈ e.ready_queue ∧ e.ready_queue.idxOf id < e.actors.length ∧
      ∃ before b now after t actor' p, later = before ++ .process b now :: after ∧
        before.foldlM (step cfg) e = some t ∧ before.countP Event.takes = e.ready_queue.idxOf id ∧
        t.next = some (id, actor', p) := by
  have hmem := mem_ready_queue hrun hfind hdue
  have hready := ready_run hrun
  have hlength : e.ready_queue.length ≤ e.actors.length := by
    have hsub : e.ready_queue ⊆ Assoc.keys e.actors := by
      intro id' hid'
      obtain ⟨actor', hfind', -⟩ := hready.alive id' hid'
      exact Assoc.mem_keys_iff.mpr ⟨actor', hfind'⟩
    have hle := (List.subperm_of_subset hready.nodup hsub).length_le
    simpa [Assoc.keys] using hle
  have hplace : e.ready_queue.idxOf id < e.actors.length :=
    Nat.lt_of_lt_of_le (List.idxOf_lt_length_iff.mpr hmem) hlength
  obtain ⟨before, ev, after, t, rfl, htakes, hbefore, hcount, hhead⟩ :=
    (fifo_ready_queue cfg).served hlater hmem hturns
  cases ev with
  | process b now =>
    have hthere : Ready Any Any t := by
      refine Runs.invariant (Ready Any Any) hready (fun _ _ _ h hstep => h.any_step hstep) hbefore
    obtain ⟨actor', hfind', -⟩ := hthere.alive id (List.mem_of_mem_head? (Option.mem_def.mpr hhead))
    rw [List.foldlM_append, hbefore, Option.bind_eq_bind, Option.bind_some,
      List.foldlM_cons] at hlater
    obtain ⟨t', hnow, -⟩ := Option.bind_eq_some_iff.mp hlater
    obtain ⟨actor'', p, hnext⟩ := next_of_run hnow hhead (by rw [hfind']; rfl)
    exact ⟨hmem, hplace, before, b, now, after, t, actor'', p, rfl, hbefore, hcount, hnext⟩
  | deliver | flush | expire | others | overwrite => cases htakes

end

/-- Two actors start, and both have their first message. -/
theorem turn_comes_second :
    ∃ e, run luaSettings (Hub.init ⟨"node", 3⟩) 1 [spawned, spawned] = some e ∧
      e.ready_queue = [1, 2] ∧
      ∃ before b now after t actor p,
        [Event.process (receiving []) 0, .process (receiving []) 0] = before ++
          .process b now :: after ∧
          before.foldlM (step luaSettings) e = some t ∧ before.countP Event.takes = 1 ∧
          t.next = some (2, actor, p) := by
  obtain ⟨e, actor, e', m, hrun, hready, hfind, hwaiting, hqueue, hlater⟩ :
      ∃ (e : Executor) (actor : ManagedActor) (e' : Executor) (m : Publication),
      run luaSettings (Hub.init ⟨"node", 3⟩) 1 [spawned, spawned] = some e ∧
        e.ready_queue = [1, 2] ∧
        Assoc.find 2 e.actors = some actor ∧ actor.waiting = false ∧ actor.message_queue = [m] ∧
        [Event.process (receiving []) 0, .process (receiving []) 0].foldlM (step luaSettings) e =
          some e' :=
    ⟨_, _, _, _, rfl, rfl, rfl, rfl, rfl, rfl⟩
  have heager : actor.Eager := ⟨hwaiting, by rw [hqueue]; exact List.cons_ne_nil _ _⟩
  have hplace : e.ready_queue.idxOf 2 = 1 := by rw [hready]; rfl
  obtain ⟨-, -, before, b, now, after, t, actor', p, heq, hbefore, hcount, hnext⟩ :=
    turn_comes hrun hfind (Or.inl heager) hlater (by rw [hplace]; decide)
  exact ⟨e, hrun, hready, before, b, now, after, t, actor', p, heq, hbefore,
    hcount.trans hplace, hnext⟩

end Executor

end UActor
