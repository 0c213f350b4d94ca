import UActor.Lib.Mailbox
import UActor.Runtime.BlockTimeouts

/-!
# The order of messages

What each step of the executor does to the queue of one actor, as operations of a mailbox.
-/

namespace UActor

namespace Executor

open Mailbox (Op)

/-! ## The queue of an actor -/

/-- An actor that is not there has no messages. -/
def queueOf (id : UInt32) (e : Executor) : List Publication :=
  ((Assoc.find id e.actors).map (·.message_queue)).getD []

def enqueueOp (actor : ManagedActor) (p : Publication) : Op Publication :=
  if ManagedActor.isExit p || (actor.waiting && actor.pattern.matches p) then .front p else .back p

def offerOps (id : UInt32) (p : Publication) : Nat → List UInt32 → Executor → List (Op Publication)
  | _, [], _ => []
  | count, id' :: ids, e =>
    match Assoc.find id' e.actors with
    | none => offerOps id p count ids e
    | some actor =>
      let q := if count = 1 then p else p.copy
      (if id' = id then [enqueueOp actor q] else []) ++
        offerOps id p (count - 1) ids (e.offer id' actor q)

/-- The actor asks for its code again, and does not look at its queue. -/
def retries (actor : ManagedActor) (p : Publication) : Bool :=
  !carriesCode actor p && p.getStrAttr "type" == some "timeout" && actor.waiting_for_code &&
    decide (actor.code_fetch_retries < 20)

/-- The end of `receive_next_internal`. -/
def settleOps (actor : ManagedActor) (b : Behaviour) (p : Publication) : List (Op Publication) :=
  if retries actor p then []
  else
    match lastBlock (callsFor actor b p) with
    | some block => [.pick block.1.matches]
    | none => []

def handleOps (actor : ManagedActor) (b : Behaviour) (p : Publication) : List (Op Publication) :=
  (if putsBack actor b p then [] else [.take]) ++
    if exits actor b p then [.clear] else settleOps actor b p

/-- What a step does to the queue of an actor. -/
def queueOps (cfg : ExecutorSettings) (id : UInt32) (e : Executor) : Event → List (Op Publication)
  | .deliver sub_id p _ _ =>
    if sub_id = e.executor_subscription_id then
      if id = e.next_id ∧ Assoc.find id e.actors = none then [.back (initMessage cfg)] else []
    else
      let receivers := Multimap.members sub_id e.subscription_mapping
      offerOps id p receivers.length receivers e
  | .expire start =>
    match e.timeouts with
    | [] => []
    | t :: _ =>
      if t.timeout < start ∧ t.actor_id = id then
        match Assoc.find id e.actors with
        | none => []
        | some actor => [.front (actor.timeoutMessage t.user_defined t.trigger_id)]
      else []
  | .process b _ =>
    match e.next with
    | some (task, actor, p) => if task = id then handleOps actor b p else []
    | none => []
  | .overwrite id' i p => if id' = id then [.edit i p] else []
  | .flush _ | .others _ => []

section

variable {cfg : ExecutorSettings} {id : UInt32} {e e' : Executor}

theorem queueOf_of_find {a : ManagedActor} (h : Assoc.find id e.actors = some a) :
    e.queueOf id = a.message_queue := by
  simp [queueOf, h]

theorem queueOf_of_none (h : Assoc.find id e.actors = none) : e.queueOf id = [] := by
  simp [queueOf, h]

theorem queueOf_congr (h : Assoc.find id e'.actors = Assoc.find id e.actors) :
    e'.queueOf id = e.queueOf id := by
  rw [queueOf, queueOf, h]

theorem queueOf_setActor (id' : UInt32) (a : ManagedActor) :
    (e.setActor id' a).queueOf id = if id' = id then a.message_queue else e.queueOf id := by
  unfold queueOf setActor
  rw [Assoc.find_put]
  split <;> rfl

theorem enqueue_queue (a : ManagedActor) (p : Publication) :
    (a.enqueue p).1.message_queue = Mailbox.apply a.message_queue (enqueueOp a p) := by
  unfold ManagedActor.enqueue enqueueOp
  cases hexit : ManagedActor.isExit p with
  | true => rfl
  | false =>
    cases hwaiting : a.waiting with
    | false => rfl
    | true => cases hmatches : a.pattern.matches p <;> simp [Mailbox.apply]

theorem queueOf_pushReady (e : Executor) (id' : UInt32) :
    (e.pushReady id').queueOf id = e.queueOf id := by
  unfold pushReady
  split <;> rfl

theorem queueOf_offer {id' : UInt32} {a : ManagedActor} (hfind : Assoc.find id' e.actors = some a)
    (p : Publication) :
    (e.offer id' a p).queueOf id = (if id' = id then [enqueueOp a p] else []).foldl Mailbox.apply
      (e.queueOf id) := by
  have hset : (e.setActor id' (a.enqueue p).1).queueOf id =
      (if id' = id then [enqueueOp a p] else []).foldl Mailbox.apply (e.queueOf id) := by
    rw [queueOf_setActor]
    split
    · rename_i hid
      rw [enqueue_queue, ← hid, queueOf_of_find hfind]
      rfl
    · rfl
  have hdrop : ∀ e : Executor, (e.dropTimeout id').queueOf id = e.queueOf id := fun _ => rfl
  unfold offer
  dsimp only
  split
  · rw [hdrop, queueOf_pushReady, hset]
  · exact hset

theorem find_offer (id' : UInt32) (a : ManagedActor) (p : Publication) :
    Assoc.find id (e.offer id' a p).actors =
      if id' = id then some (a.enqueue p).1 else Assoc.find id e.actors := by
  have hset : Assoc.find id (e.setActor id' (a.enqueue p).1).actors =
      if id' = id then some (a.enqueue p).1 else Assoc.find id e.actors := Assoc.find_put _ _ _ _
  unfold offer
  dsimp only
  split
  · unfold pushReady
    split <;> exact hset
  · exact hset

theorem queueOf_offerAll (p : Publication) (count : Nat) (ids : List UInt32) :
    (offerAll p count ids e).queueOf id = (offerOps id p count ids e).foldl Mailbox.apply
      (e.queueOf id) := by
  induction ids generalizing e count with
  | nil => rfl
  | cons id' ids ih =>
    unfold offerAll offerOps
    cases hfind : Assoc.find id' e.actors with
    | none => exact ih count
    | some a => rw [ih, queueOf_offer hfind, List.foldl_append]

theorem handle_returns {s : Frame} {b : Behaviour} {p : Publication} {h : Handled}
    (hh : handle cfg s b p = some h) :
    h.returns = retries s.1 p := by
  have hreceive : ∀ {s : Frame}, receive cfg s b p = some h → h.returns = false := by
    intro s hr
    unfold receive at hr
    split at hr
    · obtain ⟨_, -, rfl⟩ := Option.map_eq_some_iff.mp hr
      rfl
    · cases hr
  unfold handle at hh
  unfold retries
  cases hcode : carriesCode s.1 p with
  | true =>
    rw [hcode, if_pos rfl] at hh
    unfold handleCode at hh
    dsimp only at hh
    split at hh
    · rw [← Option.some.inj hh]
      rfl
    · split at hh
      · obtain ⟨_, -, rfl⟩ := Option.map_eq_some_iff.mp hh
        unfold lateInitialize
        dsimp only
        split <;> rfl
      · obtain ⟨_, -, rfl⟩ := Option.map_eq_some_iff.mp hh
        rfl
  | false =>
    rw [hcode, if_neg Bool.false_ne_true] at hh
    split at hh
    · rename_i htimeout
      obtain ⟨htype, hwaiting⟩ := htimeout
      rw [← Option.some.inj hh, htype, hwaiting]
      unfold retryCode
      by_cases hretries : s.1.code_fetch_retries < 20
      · simp [hretries]
      · simp [hretries]
    · rename_i htimeout
      have hno : (p.getStrAttr "type" == some "timeout" && s.1.waiting_for_code) = false := by
        simpa using htimeout
      rw [Bool.not_false, Bool.true_and, hno, Bool.false_and]
      unfold handleMessage at hh
      dsimp only at hh
      split at hh
      · exact hreceive hh
      · split at hh
        · exact hreceive hh
        · exact hreceive hh
        · rw [← Option.some.inj hh]
        · rw [← Option.some.inj hh]

theorem settle_queue {a : ManagedActor} {block : Option (Filter × UInt32)} (h : Blocked a block) :
    a.settle.1.message_queue = (match block with
      | some block => [Op.pick block.1.matches]
      | none => []).foldl Mailbox.apply a.message_queue := by
  unfold ManagedActor.settle
  cases block with
  | none =>
    rw [h.1, if_neg Bool.false_ne_true]
    split <;> rfl
  | some block =>
    obtain ⟨hwaiting, hpattern, -⟩ := h
    rw [if_pos hwaiting, hpattern]
    simp only [List.foldl_cons, List.foldl_nil, Mailbox.apply, Mailbox.pickFirst]
    cases a.message_queue.find? block.1.matches <;> rfl

theorem queue_received {s : Frame} {b : Behaviour} {p : Publication} {h : Handled}
    (hh : handle cfg s b p = some h) (hs : Blocked s.1 none) (hexit : exits s.1 b p = false) :
    (finish p h).frame.1.message_queue = (handleOps s.1 b p).foldl Mailbox.apply
      (p :: s.1.message_queue) := by
  have hspec := handle_spec hh
  have htaken : h.frame.1.message_queue =
      (if putsBack s.1 b p then [] else [Op.take]).foldl Mailbox.apply
        (p :: s.1.message_queue) := by
    rw [hspec.queue]
    split <;> rfl
  have hlives : (finish p h).exit = false := hspec.exit.trans hexit
  unfold handleOps
  rw [hexit, if_neg Bool.false_ne_true, List.foldl_append, ← htaken, settleOps, ← handle_returns hh]
  unfold finish at hlives ⊢
  cases hreturns : h.returns with
  | true => rfl
  | false =>
    rw [hreturns, if_neg Bool.false_ne_true] at hlives
    rw [if_neg Bool.false_ne_true]
    split
    · rename_i hends
      rw [if_pos hends] at hlives
      cases hlives
    · exact settle_queue (hspec.blocked hs)

theorem queueOf_process {b : Behaviour} {now : UInt32} (h : e.process cfg b now = some e') :
    e'.queueOf id = (queueOps cfg id e (.process b now)).foldl Mailbox.apply (e.queueOf id) := by
  have hidle : e.next = none → queueOps cfg id e (.process b now) = [] := by
    intro hnext
    simp [queueOps, hnext]
  cases process_cases h with
  | idle hready =>
    rw [hidle (by simp [next, hready])]
    rfl
  | gone task rest hready hfind =>
    rw [hidle (by simp [next, hready, hfind])]
    rfl
  | ran task rest actor p queue hd hready hfind hqueue hhandle =>
    have hnext : e.next = some (task, actor, p) := by simp [next, hready, hfind, hqueue]
    have hops : queueOps cfg id e (.process b now) =
        if task = id then handleOps actor b p else [] := by
      simp [queueOps, hnext]
    have hactors := ((handle_spec hhandle).frames.trans (finish_frames p hd).1).actors
    rw [hops]
    split
    · rename_i hid
      subst hid
      rw [queueOf_of_find hfind, hqueue]
      cases hexit : exits actor b p with
      | true =>
        have hgone := (process_next hnext h).2.mpr hexit
        have hclear : handleOps actor b p = (if putsBack actor b p then [] else [.take]) ++
            [.clear] := by
          rw [handleOps, hexit, if_pos rfl]
        rw [queueOf_of_none hgone, hclear, List.foldl_append]
        rfl
      | false =>
        have hlives : (finish p hd).exit = false := (handle_spec hhandle).exit.trans hexit
        rw [queueOf_of_find (dispose_find_self hlives)]
        exact queue_received hhandle ⟨rfl, rfl⟩ hexit
    · rename_i hne
      exact queueOf_congr ((dispose_find_other hne _).trans (by rw [hactors]))

theorem queueOf_addActorBase {p : Publication} {b : Behaviour} {now : UInt32}
    (h : e.addActorBase cfg p b now = some e') :
    e'.queueOf id =
      (if id = e.next_id ∧ Assoc.find id e.actors = none then [Op.back (initMessage cfg)]
        else []).foldl Mailbox.apply (e.queueOf id) := by
  rcases addActorBase_cases h with ⟨rfl, htaken⟩ | ⟨hfree, a, ha⟩
  · rw [if_neg]
    · rfl
    · rintro ⟨rfl, hnone⟩
      rw [hnone] at htaken
      cases htaken
  · by_cases hid : id = e.next_id
    · rw [hid, if_pos ⟨rfl, hfree⟩, queueOf_of_find ha.find, ha.queue, queueOf_of_none hfree]
      rfl
    · rw [if_neg fun h => hid h.1]
      exact queueOf_congr (ha.others id hid)

theorem queueOf_expire (start : UInt32) :
    (e.expire start).queueOf id = (queueOps cfg id e (.expire start)).foldl Mailbox.apply
      (e.queueOf id) := by
  unfold expire
  simp only [queueOps]
  cases htimeouts : e.timeouts with
  | nil => rfl
  | cons t rest =>
    dsimp only
    by_cases hdue : t.timeout < start
    · have hrest : Executor.queueOf id { e with timeouts := rest } = e.queueOf id := rfl
      rw [if_pos hdue]
      cases hfind : Assoc.find t.actor_id e.actors with
      | none =>
        by_cases hid : t.actor_id = id
        · rw [if_pos ⟨hdue, hid⟩, ← hid, hfind]
          rfl
        · rw [if_neg fun h => hid h.2]
          rfl
      | some a =>
        dsimp only
        rw [queueOf_pushReady, queueOf_setActor, hrest]
        by_cases hid : t.actor_id = id
        · rw [if_pos hid, if_pos ⟨hdue, hid⟩, ← hid, hfind, queueOf_of_find hfind]
          rfl
        · rw [if_neg hid, if_neg fun h => hid h.2]
          rfl
    · rw [if_neg hdue, if_neg fun h => hdue h.1]
      rfl

theorem queueOf_overwrite (id' : UInt32) (i : Nat) (p : Publication) :
    (e.overwrite id' i p).queueOf id = (queueOps cfg id e (.overwrite id' i p)).foldl Mailbox.apply
      (e.queueOf id) := by
  unfold overwrite
  simp only [queueOps]
  cases hfind : Assoc.find id' e.actors with
  | none =>
    dsimp only
    split
    · rename_i hid
      rw [← hid, queueOf_of_none hfind]
      rfl
    · rfl
  | some a =>
    dsimp only
    rw [queueOf_setActor]
    split
    · rename_i hid
      rw [← hid, queueOf_of_find hfind]
      rfl
    · rfl

theorem queueOf_step {ev : Event} (h : e.step cfg ev = some e') :
    e'.queueOf id = (queueOps cfg id e ev).foldl Mailbox.apply (e.queueOf id) := by
  cases ev with
  | deliver sub_id p b now =>
    simp only [Executor.step, deliver] at h
    simp only [queueOps]
    split at h
    · rename_i hsub
      rw [if_pos hsub]
      split at h
      · exact queueOf_addActorBase h
      · cases h
    · rename_i hsub
      rw [if_neg hsub, ← Option.some.inj h]
      exact queueOf_offerAll p _ _
  | flush now =>
    rw [← Option.some.inj h]
    unfold flush
    split
    · rfl
    · split <;> rfl
  | expire start =>
    rw [← Option.some.inj h]
    exact queueOf_expire start
  | process b now => exact queueOf_process h
  | others ev =>
    simp only [Executor.step] at h
    split at h
    · cases h
    · obtain ⟨hub, -, rfl⟩ := Option.map_eq_some_iff.mp h
      rfl
  | overwrite id' i p =>
    rw [← Option.some.inj h]
    exact queueOf_overwrite id' i p

end

/-! ## Labelled messages -/

/-- A run and the queue of one of its actors, in which each message has the number of the step in
which it arrived. -/
structure Watched where
  executor : Executor
  steps : Nat
  queue : List (Nat × Publication)

def watch (cfg : ExecutorSettings) (id : UInt32) (w : Watched) (ev : Event) : Option Watched :=
  (w.executor.step cfg ev).map fun e =>
    ⟨e, w.steps + 1, (queueOps cfg id w.executor ev).foldl (Mailbox.label w.steps) w.queue⟩

def watchRun (cfg : ExecutorSettings) (id : UInt32) (init : Executor) (events : List Event) :
    Option Watched :=
  events.foldlM (watch cfg id) ⟨init, 0, []⟩

/-- The step `n` of the run is one of these. -/
def At (cfg : ExecutorSettings) (id : UInt32) (init : Executor) (events : List Event) (n : Nat)
    (Q : Executor → Event → Prop) : Prop :=
  ∃ pre ev post w, events = pre ++ ev :: post ∧ pre.length = n ∧ watchRun cfg id init pre = some w ∧
    Q w.executor ev

/-- A message that ends no actor is enqueued, and the actor is not blocked. -/
def EnqueuedFree (id : UInt32) (e : Executor) (ev : Event) : Prop :=
  ∃ sub_id p b now a, ev = .deliver sub_id p b now ∧ sub_id ≠ e.executor_subscription_id ∧
    id ∈ Multimap.members sub_id e.subscription_mapping ∧ ManagedActor.isExit p = false ∧
    Assoc.find id e.actors = some a ∧ a.waiting = false

/-- A message that ends no actor is enqueued, and the actor is blocked and waits for it. -/
def EnqueuedMatching (id : UInt32) (e : Executor) (ev : Event) : Prop :=
  ∃ sub_id p b now a, ev = .deliver sub_id p b now ∧ sub_id ≠ e.executor_subscription_id ∧
    id ∈ Multimap.members sub_id e.subscription_mapping ∧ ManagedActor.isExit p = false ∧
    Assoc.find id e.actors = some a ∧ a.waiting = true ∧ a.pattern.matches p = true

/-- A wakeup with this deadline expires. -/
def WakeupExpires (id : UInt32) (deadline : UInt32) (e : Executor) (ev : Event) : Prop :=
  ∃ start trigger_id, ev = .expire start ∧
    e.timeouts.head? = some ⟨deadline, id, true, trigger_id⟩ ∧ deadline < start

/-- In this step the message `n` is passed to `receive`, and the message `m` is in the queue. -/
def Overtakes (cfg : ExecutorSettings) (id : UInt32) (m n : Nat) (w : Watched) (ev : Event) :
    Prop :=
  ∃ b now c p rest, ev = .process b now ∧ w.executor.passes cfg b = some (id, c) ∧
    w.queue = (n, p) :: rest ∧
    m ∈ rest.map Prod.fst

def InOrder (cfg : ExecutorSettings) (id : UInt32) (init : Executor) (events : List Event)
    (m n : Nat) : Prop :=
  ∀ pre ev post w, events = pre ++ ev :: post → watchRun cfg id init pre = some w →
    ¬ Overtakes cfg id m n w ev

/-- Messages of the same standing keep their order: two that come while the actor is not blocked,
two that it waits for in one block, and two wakeups. -/
structure KeepsArrivalOrder (cfg : ExecutorSettings) (id : UInt32) (init : Executor)
    (events : List Event) : Prop where
  free : ∀ m n, m < n → At cfg id init events m (EnqueuedFree id) →
    At cfg id init events n (EnqueuedFree id) →
    InOrder cfg id init events m n
  matching : ∀ m n, m < n → At cfg id init events m (EnqueuedMatching id) →
    At cfg id init events n (EnqueuedMatching id) →
    (∀ k, m < k → k < n → At cfg id init events k fun e ev => ¬ Handles id e ev) →
    InOrder cfg id init events m n
  wakeups : ∀ m n s t, s < t → At cfg id init events m (WakeupExpires id s) →
    At cfg id init events n (WakeupExpires id t) → InOrder cfg id init events m n

/-- Between the arrival of `n` and the end of the run the actor blocks, and waits for `n` and not
for `m`, which are both in its queue. -/
def PassedOver (cfg : ExecutorSettings) (id : UInt32) (init : Executor) (events : List Event)
    (m n : Nat) : Prop :=
  ∃ pre b now post w actor p block x y, events = pre ++ .process b now :: post ∧ n < pre.length ∧
    watchRun cfg id init pre = some w ∧ w.executor.next = some (id, actor, p) ∧
    lastBlock (callsFor actor b p) = some block ∧ (m, x) ∈ w.queue ∧ (n, y) ∈ w.queue ∧
    block.1.matches x = false ∧ block.1.matches y = true

section

variable {cfg : ExecutorSettings} {id : UInt32} {init : Executor} {events : List Event}
  {w : Watched} {m n : Nat}

theorem watchRun_spec (hinit : init.queueOf id = []) (h : watchRun cfg id init events = some w) :
    w.steps = events.length ∧ events.foldlM (step cfg) init = some w.executor ∧
      w.queue.map Prod.snd = w.executor.queueOf id ∧ ∀ l ∈ w.queue.map Prod.fst, l < w.steps := by
  induction events using List.reverseRecOn generalizing w with
  | nil =>
    rw [← Option.some.inj h]
    exact ⟨rfl, rfl, hinit.symm, fun l hl => absurd hl List.not_mem_nil⟩
  | append_singleton events ev ih =>
    unfold watchRun at h
    rw [Runs.foldlM_snoc] at h
    obtain ⟨w₀, hw₀, hlast⟩ := Option.bind_eq_some_iff.mp h
    obtain ⟨e', hstep, rfl⟩ := Option.map_eq_some_iff.mp hlast
    obtain ⟨hsteps, hrun, hqueue, hlabels⟩ := ih hw₀
    refine ⟨by simp [hsteps], ?_, ?_, fun l hl => ?_⟩
    · rw [Runs.foldlM_snoc, hrun]
      exact hstep
    · rw [Mailbox.map_labels, hqueue, queueOf_step hstep]
    · rcases Mailbox.mem_labels_labels hl with rfl | hl
      · exact Nat.lt_succ_self _
      · exact Nat.lt_succ_of_lt (hlabels l hl)

theorem offerOps_free {e : Executor} {p : Publication} {count : Nat} {ids : List UInt32}
    {a : ManagedActor} (hfind : Assoc.find id e.actors = some a) (hwaiting : a.waiting = false)
    (hp : ManagedActor.isExit p = false) :
    ∀ op ∈ offerOps id p count ids e, ∃ q, op = .back q := by
  have hcopy : ManagedActor.isExit p.copy = false := by
    unfold ManagedActor.isExit at hp ⊢
    rw [Publication.getStrAttr_copy]
    exact hp
  induction ids generalizing e count a with
  | nil => exact fun op hop => absurd hop List.not_mem_nil
  | cons id' ids ih =>
    unfold offerOps
    cases hfind' : Assoc.find id' e.actors with
    | none => exact ih hfind hwaiting
    | some a' =>
      dsimp only
      intro op hop
      have hq : ManagedActor.isExit (if count = 1 then p else p.copy) = false := by
        split
        · exact hp
        · exact hcopy
      generalize (if count = 1 then p else p.copy) = q at hop hq
      rcases List.mem_append.mp hop with hop | hop
      · split at hop
        · rename_i hid
          obtain rfl : a = a' := by rw [hid, hfind] at hfind'; exact Option.some.inj hfind'
          refine ⟨q, ?_⟩
          rw [List.mem_singleton.mp hop, enqueueOp, hq, hwaiting]
          rfl
        · cases hop
      · obtain ⟨a₁, hfind₁, hwaiting₁⟩ : ∃ a₁, Assoc.find id (e.offer id' a' q).actors = some a₁ ∧
          a₁.waiting = false := by
          rw [find_offer]
          split
          · rename_i hid
            obtain rfl : a = a' := by rw [hid, hfind] at hfind'; exact Option.some.inj hfind'
            obtain ⟨queue, -, heq⟩ := a.enqueue_eq q
            exact ⟨_, rfl, by rw [heq]; exact hwaiting⟩
          · exact ⟨a, hfind, hwaiting⟩
        exact ih hfind₁ hwaiting₁ op hop

theorem pick_notMem_offerOps {e : Executor} {p : Publication} {count : Nat}
    {ids : List UInt32} (P : Publication → Bool) :
    .pick P ∉ offerOps id p count ids e := by
  induction ids generalizing e count with
  | nil => exact List.not_mem_nil
  | cons id' ids ih =>
    unfold offerOps
    cases hfind : Assoc.find id' e.actors with
    | none => exact ih
    | some a =>
      dsimp only
      generalize (if count = 1 then p else p.copy) = q
      intro hop
      rcases List.mem_append.mp hop with hop | hop
      · split at hop
        · have heq := List.mem_singleton.mp hop
          unfold enqueueOp at heq
          split at heq <;> cases heq
        · cases hop
      · exact ih hop

theorem ahead_step {e : Executor} {ev : Event} {k : Nat} {q : List (Nat × Publication)}
    (h : Mailbox.Ahead m n q) (hm : k ≠ m) (hn : k ≠ n)
    (hnot : ∀ b now actor p block x y, ev = .process b now → e.next = some (id, actor, p) →
      lastBlock (callsFor actor b p) = some block → (m, x) ∈ q → (n, y) ∈ q →
      block.1.matches x = false →
      block.1.matches y = false) :
    Mailbox.Ahead m n ((queueOps cfg id e ev).foldl (Mailbox.label k) q) := by
  cases ev with
  | deliver sub_id p b now =>
    refine Mailbox.ahead_labels h hm hn fun P hop => ?_
    simp only [queueOps] at hop
    split at hop
    · split at hop
      · cases List.mem_singleton.mp hop
      · cases hop
    · exact pick_notMem_offerOps P hop
  | expire start =>
    refine Mailbox.ahead_labels h hm hn fun P hop => ?_
    simp only [queueOps] at hop
    split at hop
    · cases hop
    · split at hop
      · split at hop
        · cases hop
        · cases List.mem_singleton.mp hop
      · cases hop
  | overwrite id' i p =>
    refine Mailbox.ahead_labels h hm hn fun P hop => ?_
    simp only [queueOps] at hop
    split at hop
    · cases List.mem_singleton.mp hop
    · cases hop
  | flush | others => exact h
  | process b now =>
    simp only [queueOps]
    split
    · rename_i task actor p hnext
      split
      · rename_i hid
        rw [hid] at hnext
        unfold handleOps
        rw [List.foldl_append]
        have hsub : ∀ x ∈ (if putsBack actor b p then [] else [Op.take]).foldl (Mailbox.label k) q,
            x ∈ q := by
          intro x hx
          split at hx
          · exact hx
          · exact List.mem_of_mem_tail hx
        have htaken : Mailbox.Ahead m n ((if putsBack actor b p then [] else [Op.take]).foldl
            (Mailbox.label k) q) := by
          refine Mailbox.ahead_labels h hm hn fun P hop => ?_
          split at hop
          · cases hop
          · cases List.mem_singleton.mp hop
        generalize (if putsBack actor b p then [] else [Op.take]).foldl (Mailbox.label k) q =
          q' at hsub htaken
        split
        · exact List.Pairwise.nil
        · unfold settleOps
          split
          · exact htaken
          · split
            · rename_i block hblock
              have hpick : ¬ Mailbox.PicksOver m n q' (.pick block.1.matches) := by
                rintro ⟨x, y, hx, hy, hPx, hPy⟩
                have hno := hnot b now actor p block x y rfl hnext hblock (hsub _ hx)
                  (hsub _ hy) hPx
                rw [hno] at hPy
                cases hPy
              exact Mailbox.ahead_label htaken hm hn hpick
            · exact htaken
      · exact h
    · exact h

theorem queueOf_create {hub : Hub} {handle : Nat} (h : create cfg hub handle = some init) :
    init.queueOf id = [] := by
  obtain ⟨_, -, rfl⟩ := Option.map_eq_some_iff.mp h
  rfl

theorem ahead_enqueued {e : Executor} {ev : Event} {q : List (Nat × Publication)}
    (h : EnqueuedFree id e ev) (hm : m ≠ n) (hnew : n ∉ q.map Prod.fst) :
    Mailbox.Ahead m n ((queueOps cfg id e ev).foldl (Mailbox.label n) q) := by
  obtain ⟨sub_id, p, b, now, a, rfl, hsub, -, hp, hfind, hwaiting⟩ := h
  refine Mailbox.ahead_of_back hm hnew ?_
  simp only [queueOps, if_neg hsub]
  exact offerOps_free hfind hwaiting hp

/-- A message that comes while the actor is not blocked stays behind those that are there, unless
the actor waits for it and not for them. -/
theorem ahead_watchRun (hinit : init.queueOf id = []) (hmn : m < n)
    (hfree : At cfg id init events n (EnqueuedFree id)) {pre post : List Event}
    (hevents : events = pre ++ post) (hw : watchRun cfg id init pre = some w)
    (hnot : ¬ PassedOver cfg id init pre m n) (hn : n < w.steps) : Mailbox.Ahead m n w.queue := by
  obtain ⟨pre₀, ev₀, post₀, w₀, heq₀, hlen₀, hw₀, hfree⟩ := hfree
  have hrun : pre.foldlM (watch cfg id) ⟨init, 0, []⟩ = some w := hw
  refine Runs.invariant_of (fun w => n < w.steps → Mailbox.Ahead m n w.queue)
    (fun w ev => (∀ l ∈ w.queue.map Prod.fst, l < w.steps) ∧
      (w.steps = n → EnqueuedFree id w.executor ev) ∧
      (n < w.steps → ∀ b now actor p block x y, ev = .process b now →
        w.executor.next = some (id, actor, p) →
        lastBlock (callsFor actor b p) = some block → (m, x) ∈ w.queue → (n, y) ∈ w.queue →
        block.1.matches x = false → block.1.matches y = false)) ?_ ?_ ?_ hrun hn
  · exact fun h => absurd h (Nat.not_lt_zero n)
  · rintro s ev s' hahead ⟨hlabels, hn, hlater⟩ hstep hlt
    obtain ⟨e', -, rfl⟩ := Option.map_eq_some_iff.mp hstep
    rcases Nat.lt_succ_iff_lt_or_eq.mp hlt with hlt | heq
    · exact ahead_step (hahead hlt) (Nat.ne_of_gt (hmn.trans hlt)) (Nat.ne_of_gt hlt) (hlater hlt)
    · have hnew : n ∉ s.queue.map Prod.fst := fun hmem =>
        absurd (hlabels n hmem) (by rw [← heq]; exact Nat.lt_irrefl n)
      rw [← heq]
      exact ahead_enqueued (hn heq.symm) (Nat.ne_of_lt hmn) hnew
  · rintro before ev after s rfl hs
    obtain ⟨hsteps, -, -, hlabels⟩ := watchRun_spec hinit hs
    refine ⟨hlabels, fun hlen => ?_, fun hlt b now actor p block x y hev hnext hblock hx hy hmx =>
      ?_⟩
    · rw [heq₀, List.append_assoc] at hevents
      obtain ⟨hpre, hpost⟩ := List.append_inj hevents (hlen₀.trans (hlen.symm.trans hsteps))
      obtain ⟨rfl, -⟩ := List.cons.inj hpost
      have hs : watchRun cfg id init before = some s := hs
      rw [← hpre, hw₀] at hs
      rw [← Option.some.inj hs]
      exact hfree
    · rw [Bool.eq_false_iff]
      intro hmy
      rw [hsteps] at hlt
      exact hnot ⟨before, b, now, after, s, actor, p, block, x, y, by rw [hev],
        hlt, hs, hnext, hblock, hx, hy, hmx, hmy⟩

/-- A message that comes while the actor is not blocked is passed to `receive` before one that was
there only after the actor blocked, waiting for it and not for the other one. -/
theorem arrival_order_kept {hub : Hub} {handle : Nat} (hcreate : create cfg hub handle = some init)
    (hmn : m < n) (hfree : At cfg id init events n (EnqueuedFree id)) {pre post : List Event}
    {ev : Event} (hevents : events = pre ++ ev :: post) (hw : watchRun cfg id init pre = some w)
    (hover : Overtakes cfg id m n w ev) :
    PassedOver cfg id init pre m n := by
  have hinit : init.queueOf id = [] := queueOf_create hcreate
  obtain ⟨b, now, c, p, rest, rfl, -, hqueue, hm⟩ := hover
  obtain ⟨-, -, -, hlabels⟩ := watchRun_spec hinit hw
  have hn : n < w.steps := hlabels n (by rw [hqueue]; exact List.mem_cons_self)
  by_contra hnot
  have hahead := ahead_watchRun hinit hmn hfree hevents hw hnot hn
  rw [hqueue] at hahead
  exact Mailbox.not_ahead_cons hm hahead

end

/-! ## Three runs -/

def spawned : Event := .deliver 11 (spawnMessage "blocker") (receiving []) 0

def answers : Event := .deliver 12 (messageWith "answer" "foo" "bar") (receiving []) 0

/-- Two messages come before the actor blocks, and it waits for the second one. -/
def awaitedSecond : List Event :=
  [spawned, .deliver 12 (messageWith "other" "node_id" "node") (receiving []) 0, answers,
    .process blocking 0]

/-- Two messages come for which the actor waits. -/
def twoAnswers : List Event := [spawned, .process blocking 0, answers, answers]

/-- Two wakeups expire in one pass. -/
def twoWakeups : List Event :=
  [spawned, .process (receiving [.enqueueWakeup 0 10 "first", .enqueueWakeup 0 20 "second"]) 0,
    .expire 21, .expire 21]

theorem arrival_order_kept_awaited :
    ∃ init w, create luaSettings (Hub.init ⟨"node", 3⟩) 1 = some init ∧
      watchRun luaSettings 1 init awaitedSecond = some w ∧
      Overtakes luaSettings 1 1 2 w (.process (receiving []) 0) ∧
      PassedOver luaSettings 1 init awaitedSecond 1 2 := by
  obtain ⟨init, w, e, a, c, p, q, hcreate, hpre, hsub, hmember, hfind, hwaiting, hw, hpasses,
      hqueue⟩ :
      ∃ init w, ∃ e : Watched, ∃ a c p q, create luaSettings (Hub.init ⟨"node", 3⟩) 1 = some init ∧
        watchRun luaSettings 1 init (awaitedSecond.take 2) = some e ∧
        12 ≠ e.executor.executor_subscription_id ∧
        1 ∈ Multimap.members 12 e.executor.subscription_mapping ∧
          Assoc.find 1 e.executor.actors = some a ∧
        a.waiting = false ∧ watchRun luaSettings 1 init awaitedSecond = some w ∧
        w.executor.passes luaSettings (receiving []) = some (1, c) ∧ w.queue = [(2, p), (1, q)] :=
    ⟨_, _, _, _, _, _, _, rfl, rfl, by decide, by decide, rfl, rfl, rfl, rfl, rfl⟩
  have hover : Overtakes luaSettings 1 1 2 w (.process (receiving []) 0) :=
    ⟨receiving [], 0, c, p, _, rfl, hpasses, hqueue, List.mem_cons_self⟩
  refine ⟨init, w, hcreate, hw, hover, ?_⟩
  have hfree : At luaSettings 1 init (awaitedSecond ++ [.process (receiving []) 0]) 2
      (EnqueuedFree 1) :=
    ⟨awaitedSecond.take 2, answers, [.process blocking 0, .process (receiving []) 0], e, rfl,
      rfl, hpre, 12, _, _, _, a, rfl, hsub, hmember, by decide, hfind, hwaiting⟩
  exact arrival_order_kept hcreate (by decide) hfree rfl hw hover

/-- The second message comes first: one that the actor waits for, when both came before the block or
in it, and the later of two wakeups. -/
theorem order_reversed :
    ∃ init, create luaSettings (Hub.init ⟨"node", 3⟩) 1 = some init ∧
      ¬ KeepsArrivalOrder luaSettings 1 init (awaitedSecond ++ [.process (receiving []) 0]) ∧
      ¬ KeepsArrivalOrder luaSettings 1 init (twoAnswers ++ [.process (receiving []) 0]) ∧
      ¬ KeepsArrivalOrder luaSettings 1 init (twoWakeups ++ [.process (receiving []) 21]) := by
  refine ⟨_, rfl, fun h => ?_, fun h => ?_, fun h => ?_⟩
  · refine h.free 1 2 (by decide) ?_ ?_ awaitedSecond (.process (receiving []) 0) [] _ rfl rfl ?_
    · exact ⟨awaitedSecond.take 1, _, _, _, rfl, rfl, rfl, 12, _, _, _, _, rfl,
        by decide, by decide, by decide, rfl, rfl⟩
    · exact ⟨awaitedSecond.take 2, _, _, _, rfl, rfl, rfl, 12, _, _, _, _, rfl,
        by decide, by decide, by decide, rfl, rfl⟩
    · exact ⟨_, _, _, _, _, rfl, rfl, rfl, List.mem_cons_self⟩
  · refine h.matching 2 3 (by decide) ?_ ?_ (fun k hk hk' => absurd hk' (Nat.not_lt_of_ge hk))
      twoAnswers (.process (receiving []) 0) [] _ rfl rfl ?_
    · exact ⟨twoAnswers.take 2, _, _, _, rfl, rfl, rfl, 12, _, _, _, _, rfl,
        by decide, by decide, by decide, rfl, rfl, rfl⟩
    · exact ⟨twoAnswers.take 3, _, _, _, rfl, rfl, rfl, 12, _, _, _, _, rfl,
        by decide, by decide, by decide, rfl, rfl, rfl⟩
    · exact ⟨_, _, _, _, _, rfl, rfl, rfl, List.mem_cons_self⟩
  · refine h.wakeups 2 3 10 20 (by decide) ?_ ?_ twoWakeups (.process (receiving []) 21) [] _
      rfl rfl ?_
    · exact ⟨twoWakeups.take 2, _, _, _, rfl, rfl, rfl, 21, "first", rfl, rfl, by decide⟩
    · exact ⟨twoWakeups.take 3, _, _, _, rfl, rfl, rfl, 21, "second", rfl, rfl, by decide⟩
    · exact ⟨_, _, _, _, _, rfl, rfl, rfl, List.mem_cons_self⟩

end Executor

end UActor
