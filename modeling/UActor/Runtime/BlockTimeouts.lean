import UActor.Runtime.ExitNotices
import UActor.Runtime.Handling

/-!
# Timeouts of a block

`deferred_block_for` ends up in an entry of the executor, which expires into a message. Entry and
message outlive the block when the actor handles another message, unless that message withdrew the
entry as it arrived.
-/

namespace UActor

namespace Executor

/-! ## What is left of a block -/

/-- No message of a timeout, and none in a wrapper. -/
def Genuine (p : Publication) : Prop :=
  p.hasAttr "_internal_timeout" = false ∧ ∀ c, content p = some c →
    c.hasAttr "_internal_timeout" = false

/-- The entry comes from a block of the actor. -/
def OfBlock (id : UInt32) (t : Timeout) : Prop := t.actor_id = id ∧ t.user_defined = false

/-- A timeout of a block is pending, or its message is in the queue. -/
def Outstanding (id : UInt32) (e : Executor) : Prop :=
  (∃ t ∈ e.timeouts, OfBlock id t) ∨
    ∃ a, Assoc.find id e.actors = some a ∧ ∃ m ∈ a.message_queue, ¬ Genuine m

def Waiting (id : UInt32) (e : Executor) : Prop :=
  ∃ a, Assoc.find id e.actors = some a ∧ a.waiting = true

/-- The actor handles a message in this step. -/
def Handles (id : UInt32) (e : Executor) (ev : Event) : Prop :=
  ∃ b now, ev = .process b now ∧ e.ready_queue.head? = some id ∧
    (Assoc.find id e.actors).isSome = true

/-- In this step, in which it handles a message or is created, the actor blocks with a timeout, and
nothing else is outstanding. -/
def Blocks (id : UInt32) (e : Executor) (ev : Event) (e' : Executor) : Prop :=
  ∃ now a, ((∃ b, ev = .process b now ∧ Handles id e ev) ∨
      ∃ sub_id p b, ev = .deliver sub_id p b now ∧ Assoc.find id e.actors = none) ∧
    Assoc.find id e'.actors = some a ∧ a.waiting = true ∧
    (∀ t, t ∈ e'.timeouts ∧ OfBlock id t ↔ t = ⟨now + a.timeout, id, false, ""⟩) ∧
    ∀ m ∈ a.message_queue, Genuine m

/-- The messages from elsewhere are genuine, and an actor handles a message only when no other
timeout of its is pending or queued. -/
def Orderly (e : Executor) : Event → Prop
  | .deliver sub_id p _ _ => sub_id ≠ e.executor_subscription_id → Genuine p ∧ Genuine p.copy
  | .process b _ => ∀ id a m, e.next = some (id, a, m) →
      (∀ t ∈ e.timeouts, ¬ OfBlock id t) ∧ (∀ m' ∈ a.message_queue.tail, Genuine m') ∧
        (putsBack a b m = true → Genuine m)
  | .overwrite _ _ p => Genuine p
  | .flush _ | .expire _ | .others _ => True

/-! ## Steps of others -/

/-- What a step leaves of the actor if the actor neither is created nor handles a message. -/
structure Untouched (id : UInt32) (e e' : Executor) : Prop where
  own : ∀ t ∈ e'.timeouts, OfBlock id t → t ∈ e.timeouts
  actor : ∀ a', Assoc.find id e'.actors = some a' → ∃ a, Assoc.find id e.actors = some a ∧
    a'.waiting = a.waiting ∧
    ∀ m ∈ a'.message_queue, m ∈ a.message_queue ∨ Genuine m ∨ ∃ t ∈ e.timeouts, OfBlock id t

namespace Untouched

variable {id : UInt32} {e e' e'' : Executor}

theorem of_eq (htimeouts : ∀ t ∈ e'.timeouts, OfBlock id t → t ∈ e.timeouts)
    (hactors : Assoc.find id e'.actors = Assoc.find id e.actors) : Untouched id e e' :=
  ⟨htimeouts, fun a' ha' => ⟨a', hactors ▸ ha', rfl, fun _ hm => Or.inl hm⟩⟩

theorem refl (id : UInt32) (e : Executor) : Untouched id e e := of_eq (fun _ h _ => h) rfl

theorem trans (h : Untouched id e e') (h' : Untouched id e' e'') : Untouched id e e'' := by
  refine ⟨fun t ht hown => h.own t (h'.own t ht hown) hown, fun a'' ha'' => ?_⟩
  obtain ⟨a', ha', hwaiting', hqueue'⟩ := h'.actor a'' ha''
  obtain ⟨a, ha, hwaiting, hqueue⟩ := h.actor a' ha'
  refine ⟨a, ha, hwaiting'.trans hwaiting, fun m hm => ?_⟩
  rcases hqueue' m hm with hm | hm | ⟨t, ht, hown⟩
  · exact hqueue m hm
  · exact Or.inr (Or.inl hm)
  · exact Or.inr (Or.inr ⟨t, h.own t ht hown, hown⟩)

theorem outstanding (h : Untouched id e e') (hout : Outstanding id e') : Outstanding id e := by
  rcases hout with ⟨t, ht, hown⟩ | ⟨a', ha', m, hm, hgenuine⟩
  · exact Or.inl ⟨t, h.own t ht hown, hown⟩
  · obtain ⟨a, ha, -, hqueue⟩ := h.actor a' ha'
    rcases hqueue m hm with hm | hm | ht
    · exact Or.inr ⟨a, ha, m, hm, hgenuine⟩
    · exact absurd hm hgenuine
    · exact Or.inl ht

theorem waiting (h : Untouched id e e') (hpresent : (Assoc.find id e'.actors).isSome = true)
    (hw : Waiting id e) :
    Waiting id e' := by
  obtain ⟨a, ha, hwaiting⟩ := hw
  obtain ⟨a', ha'⟩ := Option.isSome_iff_exists.mp hpresent
  obtain ⟨a₀, ha₀, heq, -⟩ := h.actor a' ha'
  obtain rfl := Option.some.inj (ha.symm.trans ha₀)
  exact ⟨a', ha', heq.trans hwaiting⟩

theorem setQueue {id' : UInt32} {a : ManagedActor} {queue : List Publication}
    (hfind : Assoc.find id' e.actors = some a)
    (hqueue : ∀ m ∈ queue, m ∈ a.message_queue ∨ Genuine m ∨
      (id' = id ∧ ∃ t ∈ e.timeouts, OfBlock id t)) :
    Untouched id e (e.setActor id' { a with message_queue := queue }) := by
  refine ⟨fun t ht _ => ht, fun a' ha' => ?_⟩
  rw [setActor, Assoc.find_put] at ha'
  split at ha'
  · rename_i hid
    obtain rfl := Option.some.inj ha'
    refine ⟨a, hid ▸ hfind, rfl, fun m hm => ?_⟩
    rcases hqueue m hm with hm | hm | ⟨-, ht⟩
    · exact Or.inl hm
    · exact Or.inr (Or.inl hm)
    · exact Or.inr (Or.inr ht)
  · exact ⟨a', ha', rfl, fun _ hm => Or.inl hm⟩

theorem pushReady (h : Untouched id e e') (id' : UInt32) : Untouched id e (e'.pushReady id') := by
  unfold Executor.pushReady
  split
  · exact h
  · exact ⟨h.own, h.actor⟩

theorem dropTimeout (h : Untouched id e e') (id' : UInt32) : Untouched id e (e'.dropTimeout id') :=
  ⟨fun t ht hown => h.own t (List.mem_of_mem_eraseP ht) hown, h.actor⟩

theorem offer {id' : UInt32} {a : ManagedActor} {p : Publication}
    (hfind : Assoc.find id' e.actors = some a) (hp : Genuine p) :
    Untouched id e (e.offer id' a p) := by
  have hset : Untouched id e (e.setActor id' (a.enqueue p).1) := by
    rcases a.enqueue_cases p with ⟨heq, -⟩ | ⟨_, heq, -⟩
    · rw [heq]
      refine setQueue hfind fun m hm => ?_
      rcases List.mem_cons.mp hm with rfl | hm
      · exact Or.inr (Or.inl hp)
      · exact Or.inl hm
    · rw [heq]
      refine setQueue hfind fun m hm => ?_
      rcases List.mem_append.mp hm with hm | hm
      · exact Or.inl hm
      · rw [List.mem_singleton.mp hm]
        exact Or.inr (Or.inl hp)
  unfold Executor.offer
  dsimp only
  split
  · exact (hset.pushReady id').dropTimeout id'
  · exact hset

theorem offerAll {p : Publication} {count : Nat} {ids : List UInt32} (hp : Genuine p)
    (hcopy : Genuine p.copy) :
    Untouched id e (Executor.offerAll p count ids e) := by
  induction ids generalizing e count with
  | nil => exact refl id e
  | cons id' ids ih =>
    unfold Executor.offerAll
    split
    · exact ih
    · rename_i a hfind
      refine trans (offer hfind ?_) ih
      split
      · exact hp
      · exact hcopy

theorem expire (start : UInt32) : Untouched id e (e.expire start) := by
  unfold Executor.expire
  split
  · exact refl id e
  · rename_i t rest htimeouts
    split
    · have hrest : Untouched id e { e with timeouts := rest } :=
        of_eq (fun u hu _ => by rw [htimeouts]; exact List.mem_cons_of_mem _ hu) rfl
      dsimp only
      split
      · exact hrest
      · rename_i a hfind
        suffices hset : Untouched id e ({ e with timeouts := rest }.setActor t.actor_id
            (a.triggerTimeout t.user_defined t.trigger_id)) from hset.pushReady t.actor_id
        refine ⟨hrest.own, fun a' ha' => ?_⟩
        rw [setActor, Assoc.find_put] at ha'
        split at ha'
        · rename_i hid
          obtain rfl := Option.some.inj ha'
          refine ⟨a, hid ▸ hfind, rfl, fun m hm => ?_⟩
          rcases List.mem_cons.mp hm with rfl | hm
          · right
            cases huser : t.user_defined with
            | true =>
              refine Or.inl ⟨rfl, fun c hc => ?_⟩
              have htype := type_timeoutMessage a true t.trigger_id
              rw [content_eq_self htype (by decide)] at hc
              rw [← Option.some.inj hc]
              rfl
            | false => exact Or.inr ⟨t, by rw [htimeouts]; exact List.mem_cons_self, hid, huser⟩
          · exact Or.inl hm
        · exact ⟨a', ha', rfl, fun _ hm => Or.inl hm⟩
    · exact refl id e

theorem flush (now : UInt32) : Untouched id e (e.flush now) := by
  unfold Executor.flush
  split
  · exact refl id e
  · split
    · exact ⟨fun _ ht _ => ht, fun a' ha' => ⟨a', ha', rfl, fun _ hm => Or.inl hm⟩⟩
    · exact refl id e

theorem overwrite (id' : UInt32) (i : Nat) {p : Publication} (hp : Genuine p) :
    Untouched id e (e.overwrite id' i p) := by
  unfold Executor.overwrite
  split
  · exact refl id e
  · rename_i a hfind
    refine setQueue hfind fun m hm => ?_
    rcases List.mem_or_eq_of_mem_set hm with hm | rfl
    · exact Or.inl hm
    · exact Or.inr (Or.inl hp)

end Untouched

/-! ## Running actors -/

section

variable {cfg : ExecutorSettings} {e e' : Executor} {b : Behaviour} {now : UInt32}

theorem Wakes.not_ofBlock {id id' : UInt32} {calls : List Call} {t : Timeout}
    (h : Wakes id calls t) :
    ¬ OfBlock id' t := by
  obtain ⟨now, delay, wakeup_id, -, rfl⟩ := h
  rintro ⟨-, huser⟩
  cases huser

theorem received_own {s : Frame} {p : Publication} {h : Handled} (id : UInt32)
    (hh : handle cfg s b p = some h) :
    ∀ t ∈ (finish p h).frame.2.timeouts, OfBlock id t → t ∈ s.2.timeouts :=
  fun t ht hown => ((schedules_received hh).timeouts t ht).resolve_right fun hwakes =>
    hwakes.not_ofBlock hown

theorem Started.own {id : UInt32} {calls : List Call} {a : ManagedActor}
    (h : Started cfg e id now calls e' a) (id' : UInt32) (t : Timeout) (ht : t ∈ e'.timeouts)
    (hown : OfBlock id' t) :
    t ∈ e.timeouts ∨ (a.waiting = true ∧ t = ⟨now + a.timeout, id, false, ""⟩) := by
  rcases h.timeouts t ht with ht | hwakes | ⟨hmax, heq⟩
  · exact Or.inl ht
  · exact absurd hown hwakes.not_ofBlock
  · exact Or.inr ⟨(block_of_timeout h.blocked hmax).1, heq⟩

theorem finish_queue {s : Frame} {p : Publication} {h : Handled} (hh : handle cfg s b p = some h) :
    ∀ m ∈ (finish p h).frame.1.message_queue, m ∈ s.1.message_queue ∨
    (putsBack s.1 b p = true ∧ m = p) := by
  have hqueue := (handle_spec hh).queue
  have hback : ∀ m ∈ h.frame.1.message_queue, m ∈ s.1.message_queue ∨
      (putsBack s.1 b p = true ∧ m = p) := by
    intro m hm
    rw [hqueue] at hm
    split at hm
    · rename_i hback
      rcases List.mem_cons.mp hm with rfl | hm
      · exact Or.inr ⟨hback, rfl⟩
      · exact Or.inl hm
    · exact Or.inl hm
  intro m hm
  refine hback m ?_
  unfold finish at hm
  split at hm
  · exact hm
  · split at hm
    · exact hm
    · dsimp only at hm
      unfold ManagedActor.settle at hm
      split at hm
      · split at hm
        · rename_i q hfind
          rcases List.mem_cons.mp hm with rfl | hm
          · exact List.mem_of_find?_eq_some hfind
          · exact List.mem_of_mem_eraseP hm
        · exact hm
      · split at hm <;> exact hm

theorem untouched_process {id : UInt32} (h : e.process cfg b now = some e')
    (hnot : ¬ Handles id e (.process b now)) : Untouched id e e' := by
  cases process_cases h with
  | idle => exact Untouched.refl id e
  | gone task rest hready hfind => exact Untouched.of_eq (fun _ ht _ => ht) rfl
  | ran task rest actor p queue hd hready hfind hqueue hhandle =>
    have hne : task ≠ id := by
      rintro rfl
      exact hnot ⟨b, now, rfl, by rw [hready]; rfl, by rw [hfind]; rfl⟩
    have hactors := ((handle_spec hhandle).frames.trans (finish_frames p hd).1).actors
    refine Untouched.of_eq (fun t ht hown => ?_) ?_
    · rcases mem_dispose_timeouts ht with ht | ht
      · exact received_own id hhandle t ht hown
      · unfold ownTimeout at ht
        split at ht
        · rw [← Option.some.inj ht] at hown
          exact absurd hown.1 hne
        · cases ht
    · rw [dispose_find_other hne, hactors]

theorem blocks_process {id : UInt32} (h : e.process cfg b now = some e')
    (hhandles : Handles id e (.process b now)) (horderly : e.Orderly (.process b now))
    (hout : Outstanding id e') : Blocks id e (.process b now) e' := by
  obtain ⟨b', now', heq, hhead, hpresent⟩ := hhandles
  obtain ⟨rfl, rfl⟩ := Event.process.inj heq
  obtain ⟨rest, hready⟩ := List.head?_eq_some_iff.mp hhead
  obtain ⟨actor, hfind⟩ := Option.isSome_iff_exists.mp hpresent
  obtain ⟨p, queue, hd, hqueue, hhandle, rfl⟩ := process_ran hready hfind h
  have hnext : e.next = some (id, actor, p) := by simp [next, hready, hfind, hqueue]
  obtain ⟨hpending, htail, hback⟩ := horderly id actor p hnext
  have hnone : ∀ t ∈ (finish p hd).frame.2.timeouts, ¬ OfBlock id t := by
    intro t ht hown
    exact hpending t (received_own id hhandle t ht hown) hown
  have hgenuine : ∀ m ∈ (finish p hd).frame.1.message_queue, Genuine m := by
    intro m hm
    rcases finish_queue hhandle m hm with hm | ⟨hputs, rfl⟩
    · exact htail m (by rw [hqueue]; exact hm)
    · exact hback hputs
  have hentry : ∀ t ∈ (dispose cfg id now (finish p hd)).timeouts, OfBlock id t →
      ownTimeout id now (finish p hd) = some t := by
    intro t ht hown
    exact (mem_dispose_timeouts ht).resolve_left fun ht => hnone t ht hown
  rcases hout with ⟨t, ht, hown⟩ | ⟨a, ha, m, hm, hnot⟩
  · have hset := hentry t ht hown
    unfold ownTimeout at hset
    split at hset
    · rename_i hcond
      obtain ⟨hexit, hzero, hmax⟩ := hcond
      obtain ⟨htimeout, hwaiting, -⟩ := finish_timeout hhandle ⟨rfl, rfl⟩ hexit hzero hmax
      refine ⟨now, (finish p hd).frame.1, Or.inl ⟨b, rfl, b, now, rfl, hhead, hpresent⟩,
        dispose_find_self hexit, hwaiting, fun u => ⟨fun hu => ?_, ?_⟩, hgenuine⟩
      · have hu := hentry u hu.1 hu.2
        unfold ownTimeout at hu
        rw [if_pos ⟨hexit, hzero, hmax⟩, htimeout] at hu
        exact (Option.some.inj hu).symm
      · rintro rfl
        rw [← htimeout, Option.some.inj hset]
        exact ⟨ht, hown⟩
    · cases hset
  · cases hexit : (finish p hd).exit with
    | true =>
      have hgone := (dispose_find cfg id now (finish p hd)).mpr hexit
      rw [hgone] at ha
      cases ha
    | false =>
      rw [dispose_find_self hexit] at ha
      rw [← Option.some.inj ha] at hm
      exact absurd (hgenuine m hm) hnot

/-! ## New actors -/

theorem initMessage_genuine (cfg : ExecutorSettings) : Genuine (initMessage cfg) := by
  refine ⟨rfl, fun c hc => ?_⟩
  have htype : (initMessage cfg).getStrAttr "type" = some "init" := by simp [initMessage]
  rw [content_eq_self htype (by decide)] at hc
  rw [← Option.some.inj hc]
  rfl

/-! ## Each step -/

theorem Untouched.addActorBase {id : UInt32} {p : Publication}
    (h : e.addActorBase cfg p b now = some e')
    (hold : (Assoc.find id e.actors).isSome = true ∨ Assoc.find id e'.actors = none) :
    Untouched id e e' := by
  rcases addActorBase_cases h with ⟨rfl, -⟩ | ⟨hfree, a, ha⟩
  · exact of_eq (fun _ ht _ => ht) rfl
  · have hne : id ≠ e.next_id := by
      rintro rfl
      rcases hold with hsome | hnone
      · rw [hfree] at hsome
        cases hsome
      · rw [ha.find] at hnone
        cases hnone
    refine of_eq (fun t ht hown => ?_) (ha.others id hne)
    rcases ha.own id t ht hown with ht | ⟨-, rfl⟩
    · exact ht
    · exact absurd hown.1 (Ne.symm hne)

theorem untouched_step {id : UInt32} {ev : Event} (horderly : e.Orderly ev)
    (hstep : e.step cfg ev = some e') (hnot : ¬ Handles id e ev)
    (hold : (Assoc.find id e.actors).isSome = true ∨ Assoc.find id e'.actors = none) :
    Untouched id e e' := by
  cases ev with
  | deliver sub_id p b now =>
    simp only [Executor.step, Executor.deliver] at hstep
    split at hstep
    · split at hstep
      · exact Untouched.addActorBase hstep hold
      · cases hstep
    · rename_i hsub
      rw [← Option.some.inj hstep]
      exact Untouched.offerAll (horderly hsub).1 (horderly hsub).2
  | flush now =>
    rw [← Option.some.inj hstep]
    exact Untouched.flush now
  | expire start =>
    rw [← Option.some.inj hstep]
    exact Untouched.expire start
  | process b now => exact untouched_process hstep hnot
  | others ev =>
    simp only [Executor.step] at hstep
    split at hstep
    · cases hstep
    · obtain ⟨hub, -, rfl⟩ := Option.map_eq_some_iff.mp hstep
      exact Untouched.of_eq (fun _ ht _ => ht) rfl
  | overwrite id' i p =>
    rw [← Option.some.inj hstep]
    exact Untouched.overwrite id' i horderly

theorem started_of_new {id : UInt32} {ev : Event} (horderly : e.Orderly ev)
    (hstep : e.step cfg ev = some e') (hnone : Assoc.find id e.actors = none)
    (hsome : (Assoc.find id e'.actors).isSome = true) :
    ∃ sub_id p b now a, ev = .deliver sub_id p b now ∧
    Started cfg e id now (b.construct ++ b.early.calls) e' a := by
  have hnot : ¬ Handles id e ev := by
    rintro ⟨_, _, -, -, hpresent⟩
    rw [hnone] at hpresent
    cases hpresent
  have hgone : Untouched id e e' → False := by
    intro h
    obtain ⟨a', ha'⟩ := Option.isSome_iff_exists.mp hsome
    obtain ⟨a, ha, -⟩ := h.actor a' ha'
    rw [hnone] at ha
    cases ha
  cases ev with
  | deliver sub_id p b now =>
    have hstep' := hstep
    simp only [Executor.step, Executor.deliver] at hstep
    split at hstep
    · split at hstep
      · rcases addActorBase_cases hstep with ⟨rfl, -⟩ | ⟨-, a, ha⟩
        · exact (hgone (Untouched.of_eq (fun _ ht _ => ht) rfl)).elim
        · have hid : id = e.next_id := by
            by_contra hne
            rw [ha.others id hne, hnone] at hsome
            cases hsome
          rw [← hid] at ha
          exact ⟨sub_id, p, b, now, a, rfl, ha⟩
      · cases hstep
    · rename_i hsub
      rw [← Option.some.inj hstep] at hgone
      exact (hgone (Untouched.offerAll (horderly hsub).1 (horderly hsub).2)).elim
  | flush now =>
    rw [← Option.some.inj hstep] at hgone
    exact (hgone (Untouched.flush now)).elim
  | expire start =>
    rw [← Option.some.inj hstep] at hgone
    exact (hgone (Untouched.expire start)).elim
  | process b now => exact (hgone (untouched_process hstep hnot)).elim
  | others ev =>
    simp only [Executor.step] at hstep
    split at hstep
    · cases hstep
    · obtain ⟨hub, -, rfl⟩ := Option.map_eq_some_iff.mp hstep
      exact (hgone (Untouched.of_eq (fun _ ht _ => ht) rfl)).elim
  | overwrite id' i p =>
    rw [← Option.some.inj hstep] at hgone
    exact (hgone (Untouched.overwrite id' i horderly)).elim

theorem outstanding_step {id : UInt32} {ev : Event} (horderly : e.Orderly ev) (hstep : e.step cfg ev = some e')
    (hwaits : Outstanding id e → Waiting id e) (hout : Outstanding id e') :
    Blocks id e ev e' ∨ (Outstanding id e ∧ ¬ Handles id e ev ∧ Waiting id e') := by
  by_cases hhandles : Handles id e ev
  · have hhandles' := hhandles
    obtain ⟨b, now, rfl, -⟩ := hhandles'
    exact Or.inl (blocks_process hstep hhandles horderly hout)
  · cases hfind : Assoc.find id e.actors with
    | some a =>
      have hpresent : (Assoc.find id e.actors).isSome = true := by rw [hfind]; rfl
      have huntouched := untouched_step horderly hstep hhandles (Or.inl hpresent)
      have hout' := huntouched.outstanding hout
      refine Or.inr ⟨hout', hhandles, huntouched.waiting ?_ (hwaits hout')⟩
      exact isSome_step hpresent (fun b now heq hhead => hhandles ⟨b, now, heq, hhead, hpresent⟩) hstep
    | none =>
      have hno : ¬ Outstanding id e := by
        intro hout'
        obtain ⟨a, ha, -⟩ := hwaits hout'
        rw [hfind] at ha
        cases ha
      cases hfind' : Assoc.find id e'.actors with
      | none => exact absurd ((untouched_step horderly hstep hhandles (Or.inr hfind')).outstanding hout) hno
      | some a' =>
        obtain ⟨sub_id, p, b, now, a, rfl, ha⟩ := started_of_new horderly hstep hfind (by rw [hfind']; rfl)
        rcases hout with ⟨t, ht, hown⟩ | ⟨a₀, ha₀, m, hm, hgenuine⟩
        · rcases ha.own id t ht hown with ht' | ⟨hwaiting, rfl⟩
          · exact absurd (Or.inl ⟨t, ht', hown⟩) hno
          · refine Or.inl ⟨now, a, Or.inr ⟨sub_id, p, b, rfl, hfind⟩, ha.find,
              hwaiting, fun u => ⟨fun hu => ?_, ?_⟩, ?_⟩
            · exact (ha.own id u hu.1 hu.2).elim (fun hu' => absurd (Or.inl ⟨u, hu', hu.2⟩) hno) And.right
            · rintro rfl
              exact ⟨ht, hown⟩
            · rw [ha.queue]
              intro m hm
              rw [List.mem_singleton.mp hm]
              exact initMessage_genuine cfg
        · rw [ha.find] at ha₀
          rw [← Option.some.inj ha₀, ha.queue, List.mem_singleton] at hm
          exact absurd (hm ▸ initMessage_genuine cfg) hgenuine

end

/-! ## Every run -/

/-- From `e` on the actor waits, and handles no message in these steps. -/
def StaysBlocked (cfg : ExecutorSettings) (id : UInt32) (e : Executor) (events : List Event) :
    Prop :=
  ∀ pre post s, events = pre ++ post → pre.foldlM (step cfg) e = some s →
    Waiting id s ∧ ∀ ev post', post = ev :: post' → ¬ Handles id s ev

/-- The actor blocked with a timeout in one of these steps, and stayed blocked. -/
def BlockedSince (cfg : ExecutorSettings) (id : UInt32) (init : Executor) (events : List Event) :
    Prop :=
  ∃ pre ev post e e', events = pre ++ ev :: post ∧ pre.foldlM (step cfg) init = some e ∧
    e.step cfg ev = some e' ∧
    Blocks id e ev e' ∧ StaysBlocked cfg id e' post

section

variable {cfg : ExecutorSettings} {id : UInt32}

theorem StaysBlocked.snoc {e s s' : Executor} {events : List Event} {ev : Event}
    (h : StaysBlocked cfg id e events) (hrun : events.foldlM (step cfg) e = some s)
    (hstep : s.step cfg ev = some s') (hnot : ¬ Handles id s ev) (hwaiting : Waiting id s') :
    StaysBlocked cfg id e (events ++ [ev]) := by
  intro pre post t heq ht
  rcases List.eq_nil_or_concat post with rfl | ⟨post', ev', rfl⟩
  · rw [List.append_nil] at heq
    rw [← heq, Runs.foldlM_snoc, hrun, Option.bind_some, hstep] at ht
    rw [← Option.some.inj ht]
    exact ⟨hwaiting, fun ev post' hnil => absurd hnil (List.cons_ne_nil _ _).symm⟩
  · rw [List.concat_eq_append, ← List.append_assoc] at heq
    obtain ⟨hevents, hev⟩ := List.append_inj' heq rfl
    obtain rfl := List.singleton_inj.mp hev
    obtain ⟨hw, hsteps⟩ := h pre post' t hevents ht
    refine ⟨hw, fun ev₁ post₁ hpost => ?_⟩
    cases post' with
    | nil =>
      obtain ⟨rfl, -⟩ := List.cons.inj hpost
      rw [List.append_nil] at hevents
      rw [← hevents, hrun] at ht
      rw [← Option.some.inj ht]
      exact hnot
    | cons ev₂ post₂ =>
      obtain ⟨rfl, -⟩ := List.cons.inj hpost
      exact hsteps ev₂ post₂ rfl

theorem BlockedSince.waiting {init s : Executor} {events : List Event}
    (h : BlockedSince cfg id init events) (hrun : events.foldlM (step cfg) init = some s) :
    Waiting id s := by
  obtain ⟨pre, ev, post, e, e', rfl, hpre, hstep, -, hstays⟩ := h
  rw [List.foldlM_append, hpre] at hrun
  have hrun : (ev :: post).foldlM (step cfg) e = some s := hrun
  rw [List.foldlM_cons, hstep] at hrun
  exact (hstays post [] s (by simp) hrun).1

theorem BlockedSince.snoc {init s s' : Executor} {events : List Event} {ev : Event}
    (h : BlockedSince cfg id init events)
    (hrun : events.foldlM (step cfg) init = some s) (hstep : s.step cfg ev = some s')
    (hnot : ¬ Handles id s ev) (hwaiting : Waiting id s') :
    BlockedSince cfg id init (events ++ [ev]) := by
  obtain ⟨pre, ev₀, post, e, e', rfl, hpre, hfirst, hblocks, hstays⟩ := h
  rw [List.foldlM_append, hpre] at hrun
  have hrun : (ev₀ :: post).foldlM (step cfg) e = some s := hrun
  rw [List.foldlM_cons, hfirst] at hrun
  exact ⟨pre, ev₀, post ++ [ev], e,
    e', by simp, hpre, hfirst, hblocks, hstays.snoc hrun hstep hnot hwaiting⟩

/-- In an orderly run whatever is outstanding belongs to the block in which the actor is. -/
theorem blockedSince_of_outstanding {init s : Executor} {events : List Event}
    (hinit : ∀ id, ¬ Outstanding id init)
    (horderly : ∀ pre ev post e, events = pre ++ ev :: post → pre.foldlM (step cfg) init = some e →
      e.Orderly ev) (hrun : events.foldlM (step cfg) init = some s) (hout : Outstanding id s) :
      BlockedSince cfg id init events := by
  induction events using List.reverseRecOn generalizing s with
  | nil =>
    rw [← Option.some.inj hrun] at hout
    exact absurd hout (hinit id)
  | append_singleton events ev ih =>
    rw [Runs.foldlM_snoc] at hrun
    obtain ⟨e, he, hstep⟩ := Option.bind_eq_some_iff.mp hrun
    have ih : Outstanding id e → BlockedSince cfg id init events := fun hout => ih
      (fun pre ev' post e' heq he' => horderly pre ev' (post ++ [ev]) e' (by simp [heq]) he') he
        hout
    have hlast := horderly events ev [] e rfl he
    rcases outstanding_step hlast hstep (fun hout => (ih hout).waiting he) hout with
        hblocks | ⟨hout', hnot, hwaiting⟩
    · refine ⟨events, ev, [], e, s, rfl, he, hstep, hblocks, fun pre post t heq ht => ?_⟩
      obtain ⟨rfl, rfl⟩ := List.nil_eq_append_iff.mp heq
      rw [← Option.some.inj ht]
      obtain ⟨now, a, -, hfind, hw, -⟩ := hblocks
      exact ⟨⟨a, hfind, hw⟩, fun _ _ h => absurd h (List.cons_ne_nil _ _).symm⟩
    · exact (ih hout').snoc he hstep hnot hwaiting

theorem passes_front {e : Executor} {b : Behaviour} {c : Publication}
    (h : e.passes cfg b = some (id, c)) :
    ∃ a m, Assoc.find id e.actors = some a ∧ m ∈ a.message_queue ∧ content m = some c := by
  obtain ⟨-, e', hproc⟩ := process_of_passes h 0
  obtain ⟨rest, actor, m, queue, hd, -, hfind, hqueue, hhandle, -, hpassed⟩ := ran_of_passes h hproc
  exact ⟨actor, m, hfind, by rw [hqueue]; exact List.mem_cons_self, (handle_passed hhandle
    hpassed).2⟩

theorem outstanding_of_passes {e : Executor} {b : Behaviour} {c : Publication}
    (h : e.passes cfg b = some (id, c)) (htimeout : c.hasAttr "_internal_timeout" = true) :
    Outstanding id e := by
  obtain ⟨a, m, hfind, hm, hcontent⟩ := passes_front h
  refine Or.inr ⟨a, hfind, m, hm, fun hgenuine => ?_⟩
  rw [hgenuine.2 c hcontent] at htimeout
  cases htimeout

theorem not_outstanding_create {hub : Hub} {handle : Nat} {e : Executor}
    (h : create cfg hub handle = some e) :
    ¬ Outstanding id e := by
  obtain ⟨_, -, rfl⟩ := Option.map_eq_some_iff.mp h
  rintro (⟨t, ht, -⟩ | ⟨a, ha, -⟩)
  · cases ht
  · cases ha

/-- Whatever timeout message is passed to an actor in the run, the actor stayed blocked since the
block with this timeout. -/
def TimeoutsBelong (cfg : ExecutorSettings) (init : Executor) (events : List Event) : Prop :=
  ∀ pre b now post e id c, events = pre ++ .process b now :: post →
    pre.foldlM (step cfg) init = some e →
    e.passes cfg b = some (id, c) → c.hasAttr "_internal_timeout" = true →
    BlockedSince cfg id init pre

/-- Timeouts belong to the current block in a run in which no actor handles a message while another
timeout of its is pending or queued, and no one else sends a timeout. -/
theorem timeouts_of_current_block {hub : Hub} {handle : Nat} {init : Executor} {events : List Event}
    (hcreate : create cfg hub handle = some init)
    (horderly : ∀ pre ev post e, events = pre ++ ev :: post → pre.foldlM (step cfg) init = some e →
      e.Orderly ev) :
    TimeoutsBelong cfg init events := by
  rintro pre b now post e id c rfl hrun hpasses htimeout
  refine blockedSince_of_outstanding (fun _ => not_outstanding_create hcreate) ?_ hrun
    (outstanding_of_passes hpasses htimeout)
  rintro pre' ev post' e' rfl hrun'
  exact horderly pre' ev (post' ++ .process b now :: post) e' (by simp) hrun'

end

/-! ## Two runs -/

/-- The actor blocks for 100 ms with its first message. -/
def blocking : Behaviour := receiving [.defferedBlockFor fooBar 100]

/-- The block times out. -/
def blockTimesOut : List Event :=
  [.deliver 11 (spawnMessage "blocker") (receiving []) 0, .process blocking 0, .expire 101,
    .process (receiving []) 101]

theorem genuine_spawnMessage (actor_type : String) : Genuine (spawnMessage actor_type) := by
  refine ⟨rfl, fun c hc => ?_⟩
  obtain rfl : spawnMessage actor_type = c := Option.some.inj hc
  rfl

theorem timeouts_of_current_block_expired :
    ∃ init, create luaSettings (Hub.init ⟨"node", 3⟩) 1 = some init ∧
    TimeoutsBelong luaSettings init blockTimesOut := by
  obtain ⟨init, e₁, e₂, e₃, e₄, a₁, m₁, a₃, m₃, hcreate, hspawn, hblock, hexpire, hlast, hnext₁,
      htimeouts₁, hqueue₁, hback₁, hnext₃, htimeouts₃, hqueue₃, hback₃⟩ :
      ∃ init e₁ e₂ e₃ e₄ a₁ m₁ a₃ m₃, create luaSettings (Hub.init ⟨"node", 3⟩) 1 = some init ∧
        init.step luaSettings (.deliver 11 (spawnMessage "blocker") (receiving []) 0) = some e₁ ∧
        e₁.step luaSettings (.process blocking 0) = some e₂ ∧
          e₂.step luaSettings (.expire 101) = some e₃ ∧
        e₃.step luaSettings (.process (receiving []) 101) = some e₄ ∧ e₁.next = some (1, a₁, m₁) ∧
        e₁.timeouts = [] ∧
        a₁.message_queue.tail = [] ∧ putsBack a₁ blocking m₁ = false ∧ e₃.next = some (1, a₃, m₃) ∧
        e₃.timeouts = [] ∧ a₃.message_queue.tail = [] ∧ putsBack a₃ (receiving []) m₃ = false :=
    ⟨_, _, _, _, _, _, _, _, _, rfl, rfl, rfl, rfl, rfl, rfl, rfl, rfl, rfl, rfl, rfl, rfl, rfl⟩
  refine ⟨init, hcreate, timeouts_of_current_block hcreate ?_⟩
  refine Runs.meets_cons hspawn ?_
    (Runs.meets_cons hblock ?_ (Runs.meets_cons hexpire ?_
      (Runs.meets_cons hlast ?_ Runs.meets_nil)))
  · exact fun _ => ⟨genuine_spawnMessage _, genuine_spawnMessage _⟩
  · intro id a m hnext
    obtain ⟨rfl, rfl, rfl⟩ : 1 = id ∧ a₁ = a ∧ m₁ = m := by simpa using hnext₁.symm.trans hnext
    simp [htimeouts₁, hqueue₁, hback₁]
  · exact trivial
  · intro id a m hnext
    obtain ⟨rfl, rfl, rfl⟩ : 1 = id ∧ a₃ = a ∧ m₃ = m := by simpa using hnext₃.symm.trans hnext
    simp [htimeouts₃, hqueue₃, hback₃]

/-- The actor wakes itself up before its block is over, and handles the wakeup. -/
def wakesInBlock : List Event :=
  [.deliver 11 (spawnMessage "blocker") (receiving []) 0,
    .process (receiving [.defferedBlockFor fooBar 100, .enqueueWakeup 0 10 "tick"]) 0, .expire 11,
    .process (receiving []) 11, .expire 101]

/-- The timeout of a block that the actor left with another message is passed to it, when it does
not wait. -/
theorem timeout_of_past_block :
    ∃ init e, create luaSettings (Hub.init ⟨"node", 3⟩) 1 = some init ∧
      (wakesInBlock ++ [Event.process (receiving []) 101]).foldlM (step luaSettings) init = some e ∧
      ¬ TimeoutsBelong luaSettings init (wakesInBlock ++ [.process (receiving []) 101]) := by
  obtain ⟨init, e, e', a, c, hcreate, hrun, hlast, hpasses, htimeout, hfind, hwaiting⟩ :
      ∃ init e e' a c, create luaSettings (Hub.init ⟨"node", 3⟩) 1 = some init ∧
        wakesInBlock.foldlM (step luaSettings) init = some e ∧
        e.step luaSettings (.process (receiving []) 101) = some e' ∧
        e.passes luaSettings (receiving []) = some (1, c) ∧ c.hasAttr "_internal_timeout" = true ∧
        Assoc.find 1 e.actors = some a ∧ a.waiting = false :=
    ⟨_, _, _, _, _, rfl, rfl, rfl, rfl, rfl, rfl, rfl⟩
  refine ⟨init, e', hcreate, by rw [Runs.foldlM_snoc, hrun, Option.bind_some, hlast], fun h => ?_⟩
  have hsince := h wakesInBlock (receiving []) 101 [] e 1 c rfl hrun hpasses htimeout
  obtain ⟨a', ha', hw⟩ := hsince.waiting hrun
  rw [hfind] at ha'
  rw [← Option.some.inj ha', hwaiting] at hw
  cases hw

end Executor

end UActor
