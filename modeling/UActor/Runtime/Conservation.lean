import UActor.Runtime.ArrivalOrder

/-!
# The account of the messages

What came for an actor, and what became of it.
-/

namespace UActor

namespace Executor

open Mailbox (Op)

/-! ## One entry for each actor -/

/-- No actor stands twice under one subscription. -/
def Distinct (e : Executor) : Prop :=
    ∀ sub_id, (Multimap.members sub_id e.subscription_mapping).Nodup

section

variable {cfg : ExecutorSettings} {e e' : Executor}

theorem Distinct.congr (h : Distinct e)
    (hmapping : e'.subscription_mapping = e.subscription_mapping) :
    Distinct e' := by
  unfold Distinct
  rw [hmapping]
  exact h

theorem Distinct.removeSubscription (h : Distinct e) (id : UInt32) (sub_id : Nat) :
    Distinct (e.removeSubscription cfg id sub_id) :=
  Multimap.nodup_remove h sub_id id

theorem Distinct.release (h : Distinct e) (actor : ManagedActor) :
    Distinct (e.release cfg actor) := by
  unfold Executor.release
  generalize actor.subscriptions = subscriptions
  induction subscriptions generalizing e with
  | nil => exact h
  | cons sub_id subscriptions ih => exact ih (h.removeSubscription actor.id sub_id)

theorem keeps_distinct : Keeps cfg fun s => Distinct s.2 where
  call s c h := by
    have hsubscribe : ∀ f args, Distinct (subscribe cfg s f args).2 := by
      intro f args
      unfold subscribe addSubscription
      split
      · exact h
      · exact Multimap.nodup_insert h _ _
    cases c with
    | subscribe f args => exact hsubscribe f args
    | addReplySubscription => exact hsubscribe _ _
    | unsubscribe sub_id => exact h.removeSubscription s.1.id sub_id
    | defferedBlockFor | triggerCodeFetch | publish | republish | delayedPublish
    | enqueueWakeup => exact h
  same h hsame := Distinct.congr h hsame.subscription_mapping

theorem offer_mapping (id : UInt32) (actor : ManagedActor) (p : Publication) :
    (e.offer id actor p).subscription_mapping = e.subscription_mapping := by
  unfold offer pushReady
  dsimp only
  split
  · split <;> rfl
  · rfl

theorem offerAll_mapping (p : Publication) (count : Nat) (ids : List UInt32) :
    (offerAll p count ids e).subscription_mapping = e.subscription_mapping := by
  induction ids generalizing e count with
  | nil => rfl
  | cons id ids ih =>
    unfold offerAll
    split
    · exact ih count
    · rw [ih, offer_mapping]

theorem Distinct.startActor {s : Frame} (h : Distinct s.2) (b : Behaviour) (now : UInt32) :
    Distinct (startActor cfg s b now) := by
  have hreply : Distinct (if cfg.reply_sub_optional then s else call cfg
      s .addReplySubscription).2 := by
    split
    · exact h
    · exact keeps_distinct.call s .addReplySubscription h
  unfold Executor.startActor
  dsimp only
  generalize (if cfg.reply_sub_optional then s else call cfg s .addReplySubscription) = s₁ at hreply
  have hcreated : Distinct (s₁.1, s₁.2.publish s₁.1.creationMessage).2 := Distinct.congr hreply rfl
  have hearly : Distinct (perform cfg (s₁.1, s₁.2.publish s₁.1.creationMessage) b.early.calls).2 :=
    keeps_distinct.perform hcreated _
  generalize perform cfg (s₁.1, s₁.2.publish s₁.1.creationMessage) b.early.calls = s₂ at hearly
  split <;> exact Distinct.congr hearly rfl

theorem Distinct.addActorBase {p : Publication} {b : Behaviour} {now : UInt32} (h : Distinct e)
    (hadd : e.addActorBase cfg p b now = some e') : Distinct e' := by
  unfold Executor.addActorBase at hadd
  split at hadd
  · rename_i node_id actor_type actor_version instance_id _ _ _ _
    have hnext : Distinct (ManagedActor.create e.next_id ⟨node_id, actor_type, instance_id⟩
        actor_version, { e with next_id := e.next_id + 1 }).2 := h.congr rfl
    dsimp only at hadd
    split at hadd
    · rw [← Option.some.inj hadd]
      exact hnext
    · have hconstruct : Distinct
          (perform cfg (ManagedActor.create e.next_id ⟨node_id, actor_type, instance_id⟩
            actor_version, { e with next_id := e.next_id + 1 }) b.construct).2 :=
              keeps_distinct.perform hnext _
      generalize perform cfg (ManagedActor.create e.next_id ⟨node_id, actor_type, instance_id⟩
        actor_version, { e with next_id := e.next_id + 1 }) b.construct = s at hadd hconstruct
      have hput : Distinct (s.1, s.2.setActor e.next_id s.1).2 := Distinct.congr hconstruct rfl
      rw [← Option.some.inj hadd]
      exact hput.startActor b now
  · cases hadd

theorem Distinct.dispose {r : Received} (h : Distinct r.frame.2) (task now : UInt32) :
    Distinct (dispose cfg task now r) := by
  unfold Executor.dispose
  split
  · have herased : Distinct { r.frame.2 with actors := Assoc.erase task r.frame.2.actors } :=
      h.congr rfl
    exact herased.release r.frame.1
  · dsimp only
    split
    · exact h.congr rfl
    · split <;> exact h.congr rfl

theorem Distinct.process {b : Behaviour} {now : UInt32} (h : Distinct e)
    (hproc : e.process cfg b now = some e') :
    Distinct e' := by
  cases process_cases hproc with
  | idle => exact h
  | gone => exact h.congr rfl
  | ran task rest actor p queue hd hready hfind hqueue hhandle =>
    have hrunning : Distinct (unblock actor queue, { e with ready_queue := rest }).2 := h.congr rfl
    have hhandled : Distinct hd.frame.2 := (handle_spec hhandle).kept keeps_distinct hrunning
    have hfinished : Distinct (finish p hd).frame.2 :=
      hhandled.congr (finish_sameSubs p hd).subscription_mapping
    exact hfinished.dispose task now

theorem Distinct.step {ev : Event} (h : Distinct e) (hstep : e.step cfg ev = some e') :
    Distinct e' := by
  cases ev with
  | deliver sub_id p b now =>
    simp only [Executor.step, deliver] at hstep
    split at hstep
    · split at hstep
      · exact h.addActorBase hstep
      · cases hstep
    · rw [← Option.some.inj hstep]
      exact h.congr (offerAll_mapping p _ _)
  | flush now =>
    rw [← Option.some.inj hstep]
    refine h.congr ?_
    unfold flush
    split
    · rfl
    · split <;> rfl
  | expire start =>
    rw [← Option.some.inj hstep]
    refine h.congr ?_
    unfold expire pushReady
    split
    · rfl
    · split
      · dsimp only
        split
        · rfl
        · split <;> rfl
      · rfl
  | process b now => exact h.process hstep
  | others ev =>
    simp only [Executor.step] at hstep
    split at hstep
    · cases hstep
    · obtain ⟨hub, -, rfl⟩ := Option.map_eq_some_iff.mp hstep
      exact h
  | overwrite id i p =>
    rw [← Option.some.inj hstep]
    refine h.congr ?_
    unfold overwrite
    split <;> rfl

end

/-! ## The account -/

/-- A message comes for the actor. -/
def arrives (id : UInt32) (e : Executor) : Event → Bool
  | .deliver sub_id _ _ _ =>
    if sub_id = e.executor_subscription_id then
      decide (id = e.next_id) && (Assoc.find id e.actors).isNone
    else
      decide (id ∈ Multimap.members sub_id e.subscription_mapping) &&
        (Assoc.find id e.actors).isSome
  | .expire start =>
    match e.timeouts with
    | [] => false
    | t :: _ => decide (t.timeout < start ∧ t.actor_id = id) && (Assoc.find id e.actors).isSome
  | .flush _ | .process .. | .others _ | .overwrite .. => false

/-- The message in front is handled, and does not go back to the queue. -/
def handledIn (id : UInt32) (w : Watched) : Event → List Nat
  | .process b _ =>
    match w.executor.next with
    | some (task, actor, p) =>
      if task = id then if putsBack actor b p then [] else (w.queue.take 1).map Prod.fst else []
    | none => []
  | .deliver .. | .flush _ | .expire _ | .others _ | .overwrite .. => []

/-- The messages that `receive` gets. -/
def receivedIn (cfg : ExecutorSettings) (id : UInt32) (w : Watched) : Event → List Nat
  | .process b _ =>
    match w.executor.passes cfg b with
    | some (task, _) => if task = id then (w.queue.take 1).map Prod.fst else []
    | none => []
  | .deliver .. | .flush _ | .expire _ | .others _ | .overwrite .. => []

/-- The messages that are in the queue when the actor ends. -/
def lostIn (id : UInt32) (w : Watched) : Event → List Nat
  | .process b _ =>
    match w.executor.next with
    | some (task, actor, p) =>
      if task = id ∧ exits actor b p = true then
        (if putsBack actor b p then w.queue else w.queue.tail).map Prod.fst
      else []
    | none => []
  | .deliver .. | .flush _ | .expire _ | .others _ | .overwrite .. => []

/-- What came for one actor in a run, and what became of it. A message is the number of the step in
which it came. -/
structure Account where
  watched : Watched
  arrived : List Nat
  handled : List Nat
  received : List Nat
  lost : List Nat

def keepAccount (cfg : ExecutorSettings) (id : UInt32) (a : Account) (ev : Event) :
    Option Account :=
  (watch cfg id a.watched ev).map fun w =>
    ⟨w, a.arrived ++ (if arrives id a.watched.executor ev then [a.watched.steps] else []),
      a.handled ++ handledIn id a.watched ev, a.received ++ receivedIn cfg id a.watched ev,
      a.lost ++ lostIn id a.watched ev⟩

def accountRun (cfg : ExecutorSettings) (id : UInt32) (init : Executor) (events : List Event) :
    Option Account :=
  events.foldlM (keepAccount cfg id) ⟨⟨init, 0, []⟩, [], [], [], []⟩

/-- Each message that came was handled, or is in the queue, or was lost with the actor, and only one
of these and once. What `receive` got it got in the order in which it was handled, and nothing
twice. -/
structure Account.Balanced (id : UInt32) (a : Account) : Prop where
  queue : a.watched.queue.map Prod.snd = a.watched.executor.queueOf id
  once : a.arrived.Pairwise (· < ·)
  kept : (a.handled ++ a.lost ++ a.watched.queue.map Prod.fst).Perm a.arrived
  received : a.received.Sublist a.handled

section

variable {cfg : ExecutorSettings} {id : UInt32} {e : Executor} {n : Nat}
  {q : List (Nat × Publication)}

theorem enqueueOp_cases (a : ManagedActor) (p : Publication) :
    enqueueOp a p = .front p ∨ enqueueOp a p = .back p := by
  unfold enqueueOp
  split
  · exact Or.inl rfl
  · exact Or.inr rfl

theorem arrival_of_mem_offerOps {p : Publication} {count : Nat} {ids : List UInt32}
    {op : Op Publication} (h : op ∈ offerOps id p count ids e) :
    ∃ m, op = .front m ∨ op = .back m := by
  induction ids generalizing e count with
  | nil => cases h
  | cons id' ids ih =>
    unfold offerOps at h
    cases hfind : Assoc.find id' e.actors with
    | none =>
      rw [hfind] at h
      exact ih h
    | some a =>
      rw [hfind] at h
      rcases List.mem_append.mp h with h | h
      · split at h
        · rw [List.mem_singleton.mp h]
          exact ⟨_, enqueueOp_cases a _⟩
        · cases h
      · exact ih h

/-- An actor that stands once among the receivers gets one message. -/
theorem brings_offerOps {p : Publication} {count : Nat} {ids : List UInt32} (hids : ids.Nodup) :
    (offerOps id p count ids e).flatMap (Mailbox.brings n) =
      if decide (id ∈ ids) && (Assoc.find id e.actors).isSome then [n] else [] := by
  induction ids generalizing e count with
  | nil => simp [offerOps]
  | cons id' ids ih =>
    obtain ⟨hnew, hids⟩ := List.nodup_cons.mp hids
    unfold offerOps
    cases hfind : Assoc.find id' e.actors with
    | none =>
      rw [ih hids]
      by_cases hid : id = id'
      · rw [hid, hfind]
        simp
      · simp [hid]
    | some a =>
      dsimp only
      generalize (if count = 1 then p else p.copy) = m
      rw [List.flatMap_append, ih hids, find_offer]
      by_cases hid : id' = id
      · subst hid
        have hone : [enqueueOp a m].flatMap (Mailbox.brings n) = [n] := by
          rcases enqueueOp_cases a m with h | h <;> rw [h] <;> rfl
        rw [if_pos rfl, if_pos rfl, hone, hfind]
        simp [hnew]
      · rw [if_neg hid, if_neg hid]
        simp [Ne.symm hid]

theorem dropsAll_handleOps (actor : ManagedActor) (b : Behaviour) (p : Publication) :
    Mailbox.dropsAll n q (handleOps actor b p) =
      (if putsBack actor b p then [] else (q.take 1).map Prod.fst) ++
        if exits actor b p then (if putsBack actor b p then q else q.tail).map Prod.fst
          else [] := by
  have hsettle : ∀ q : List (Nat × Publication), Mailbox.dropsAll n q (settleOps actor b p) =
      [] := by
    refine fun q => Mailbox.dropsAll_eq_nil fun op hop q => ?_
    unfold settleOps at hop
    split at hop
    · cases hop
    · split at hop
      · rw [List.mem_singleton.mp hop]
        rfl
      · cases hop
  unfold handleOps
  rw [Mailbox.dropsAll_append]
  cases putsBack actor b p with
  | true =>
    cases exits actor b p with
    | true => simp [Mailbox.dropsAll, Mailbox.drops]
    | false => simp [Mailbox.dropsAll, hsettle]
  | false =>
    cases exits actor b p with
    | true => simp [Mailbox.dropsAll, Mailbox.drops, Mailbox.label]
    | false => simp [Mailbox.dropsAll, Mailbox.drops, hsettle]

theorem brings_handleOps (actor : ManagedActor) (b : Behaviour) (p : Publication) :
    (handleOps actor b p).flatMap (Mailbox.brings n) = [] := by
  refine List.flatMap_eq_nil_iff.mpr fun op hop => ?_
  unfold handleOps settleOps at hop
  rcases List.mem_append.mp hop with hop | hop
  · split at hop
    · cases hop
    · rw [List.mem_singleton.mp hop]
      rfl
  · split at hop
    · rw [List.mem_singleton.mp hop]
      rfl
    · split at hop
      · cases hop
      · split at hop
        · rw [List.mem_singleton.mp hop]
          rfl
        · cases hop

theorem brings_queueOps {ev : Event} (h : Distinct e) :
    (queueOps cfg id e ev).flatMap (Mailbox.brings n) = if arrives id e ev then [n] else [] := by
  cases ev with
  | deliver sub_id p b now =>
    simp only [queueOps, arrives]
    split
    · by_cases hnext : id = e.next_id ∧ Assoc.find id e.actors = none
      · rw [if_pos hnext, hnext.2, ← hnext.1]
        simp [Mailbox.brings]
      · rw [if_neg hnext]
        have hfalse : (decide (id = e.next_id) && (Assoc.find id e.actors).isNone) = false := by
          rw [Bool.eq_false_iff]
          intro hboth
          exact hnext (by simpa using hboth)
        simp [hfalse]
    · exact brings_offerOps (h sub_id)
  | expire start =>
    cases htimeouts : e.timeouts with
    | nil => simp [queueOps, arrives, htimeouts]
    | cons t rest =>
      simp only [queueOps, arrives, htimeouts]
      by_cases hdue : t.timeout < start ∧ t.actor_id = id
      · rw [if_pos hdue, decide_eq_true hdue, Bool.true_and]
        cases Assoc.find id e.actors with
        | none => rfl
        | some a => rfl
      · rw [if_neg hdue, decide_eq_false hdue]
        rfl
  | process b now =>
    simp only [queueOps, arrives]
    split
    · split
      · exact brings_handleOps ..
      · rfl
    · rfl
  | overwrite id' i p =>
    simp only [queueOps, arrives]
    split <;> rfl
  | flush | others => rfl

theorem dropsAll_queueOps {w : Watched} {ev : Event} :
    Mailbox.dropsAll n w.queue (queueOps cfg id w.executor ev) = handledIn id w ev ++
      lostIn id w ev := by
  have harrivals : ∀ ops : List (Op Publication), (∀ op ∈ ops, ∃ m, op = .front m ∨ op = .back m) →
      Mailbox.dropsAll n w.queue ops = [] := by
    intro ops hops
    refine Mailbox.dropsAll_eq_nil fun op hop q => ?_
    obtain ⟨m, rfl | rfl⟩ := hops op hop <;> rfl
  cases ev with
  | deliver sub_id p b now =>
    refine harrivals _ fun op hop => ?_
    simp only [queueOps] at hop
    split at hop
    · split at hop
      · exact ⟨_, Or.inr (List.mem_singleton.mp hop)⟩
      · cases hop
    · exact arrival_of_mem_offerOps hop
  | expire start =>
    refine harrivals _ fun op hop => ?_
    simp only [queueOps] at hop
    split at hop
    · cases hop
    · split at hop
      · split at hop
        · cases hop
        · exact ⟨_, Or.inl (List.mem_singleton.mp hop)⟩
      · cases hop
  | process b now =>
    rcases hnext : w.executor.next with _ | ⟨task, actor, p⟩
    · simp [queueOps, handledIn, lostIn, hnext, Mailbox.dropsAll]
    · simp only [queueOps, handledIn, lostIn, hnext]
      by_cases htask : task = id
      · rw [if_pos htask, if_pos htask, dropsAll_handleOps]
        simp only [htask, true_and]
      · rw [if_neg htask, if_neg htask, if_neg fun h => htask h.1]
        rfl
  | overwrite id' i p =>
    simp only [queueOps]
    split <;> rfl
  | flush | others => rfl

theorem putsBack_passed {s : Frame} {b : Behaviour} {p : Publication} {h : Handled}
    (hh : handle cfg s b p = some h) (hputs : putsBack s.1 b p = true) : h.passed = none := by
  unfold putsBack at hputs
  simp only [Bool.and_eq_true, Bool.not_eq_true', decide_eq_true_eq] at hputs
  obtain ⟨⟨⟨hcode, htimeout⟩, hinit⟩, hready⟩ := hputs
  have htimeout : ¬ (p.getStrAttr "type" = some "timeout" ∧ s.1.waiting_for_code = true) := by
    rintro ⟨htype, hwaiting⟩
    simp [htype, hwaiting] at htimeout
  unfold handle at hh
  rw [hcode, if_neg Bool.false_ne_true, if_neg htimeout] at hh
  unfold handleMessage at hh
  rw [hinit, if_neg Bool.false_ne_true, hready] at hh
  rw [← Option.some.inj hh]

theorem receivedIn_sublist (w : Watched) (ev : Event) :
    (receivedIn cfg id w ev).Sublist (handledIn id w ev) := by
  cases ev with
  | process b now =>
    simp only [receivedIn, handledIn]
    split
    · rename_i task c hpasses
      obtain ⟨-, e', hproc⟩ := process_of_passes hpasses now
      obtain ⟨rest, actor, p, queue, hd, hready, hfind, hqueue, hhandle, -, hpassed⟩ :=
        ran_of_passes hpasses hproc
      have hnext : w.executor.next = some (task, actor, p) := by simp [next, hready, hfind, hqueue]
      have hputs : putsBack actor b p = false := by
        rw [Bool.eq_false_iff]
        intro hputs
        rw [putsBack_passed hhandle hputs] at hpassed
        cases hpassed
      rw [hnext]
      simp [hputs]
    · exact List.nil_sublist _
  | deliver | flush | expire | others | overwrite => exact List.nil_sublist _

theorem Account.Balanced.step {a a' : Account} {ev : Event} (h : a.Balanced id)
    (hdistinct : Distinct a.watched.executor)
    (hpast : ∀ l ∈ a.arrived, l < a.watched.steps) (hstep : keepAccount cfg id a ev = some a') :
    a'.Balanced id ∧ Distinct a'.watched.executor ∧ ∀ l ∈ a'.arrived, l < a'.watched.steps := by
  obtain ⟨w, hw, rfl⟩ := Option.map_eq_some_iff.mp hstep
  obtain ⟨e', he', rfl⟩ := Option.map_eq_some_iff.mp hw
  refine ⟨⟨?_, ?_, ?_, h.received.append (receivedIn_sublist a.watched ev)⟩, hdistinct.step he',
    fun l hl => ?_⟩
  · rw [Mailbox.map_labels, h.queue, queueOf_step he']
  · refine List.pairwise_append.mpr ⟨h.once, ?_, fun l hl n hn => ?_⟩
    · split <;> simp
    · split at hn
      · rw [List.mem_singleton.mp hn]
        exact hpast l hl
      · cases hn
  · have hbalance := Mailbox.labels_balance_all (n := a.watched.steps) (q := a.watched.queue)
      (queueOps cfg id a.watched.executor ev)
    rw [dropsAll_queueOps, brings_queueOps hdistinct] at hbalance
    generalize ((queueOps cfg id a.watched.executor ev).foldl (Mailbox.label a.watched.steps)
      a.watched.queue).map Prod.fst = labels at hbalance ⊢
    generalize (if arrives id a.watched.executor ev = true then [a.watched.steps] else []) =
      new at hbalance ⊢
    refine List.perm_iff_count.mpr fun l => ?_
    have hbefore := h.kept.count_eq l
    have hnow := hbalance.count_eq l
    simp only [List.count_append] at hbefore hnow ⊢
    omega
  · rcases List.mem_append.mp hl with hl | hl
    · exact Nat.lt_succ_of_lt (hpast l hl)
    · split at hl
      · rw [List.mem_singleton.mp hl]
        exact Nat.lt_succ_self _
      · cases hl

/-- Every message that comes for an actor is handled once, or still in its queue, or lost with the
actor, and it is passed to `receive` at most once. -/
theorem messages_accounted {hub : Hub} {handle : Nat} {init : Executor} {events : List Event}
    {a : Account} (hcreate : create cfg hub handle = some init)
    (h : accountRun cfg id init events = some a) : a.Balanced id := by
  have hstart : Account.Balanced id ⟨⟨init, 0, []⟩, [], [], [], []⟩ :=
    ⟨(queueOf_create hcreate).symm, List.Pairwise.nil, List.Perm.nil, List.Sublist.refl _⟩
  have hdistinct : Distinct init := by
    obtain ⟨_, -, rfl⟩ := Option.map_eq_some_iff.mp hcreate
    exact fun _ => List.nodup_nil
  have hbalanced := Runs.invariant
    (fun a : Account => a.Balanced id ∧ Distinct a.watched.executor ∧ ∀ l ∈ a.arrived,
      l < a.watched.steps)
    ⟨hstart, hdistinct, fun l hl => absurd hl List.not_mem_nil⟩ (fun _ _ _ h hstep =>
      h.1.step h.2.1 h.2.2 hstep) h
  exact hbalanced.1

end

/-- An exit message comes while another message waits. -/
def exitsEarly : List Event :=
  awaitedSecond ++ [.process (receiving []) 0, .deliver 12 (messageWith "exit" "node_id" "node")
    (receiving []) 0, .process (receiving []) 0]

theorem messages_accounted_exit :
    ∃ init a, create luaSettings (Hub.init ⟨"node", 3⟩) 1 = some init ∧
      accountRun luaSettings 1 init exitsEarly = some a ∧ a.arrived = [0, 1, 2, 5] ∧
        a.handled = [0, 2, 5] ∧
      a.received = [0, 2, 5] ∧ a.lost = [1] ∧ a.Balanced 1 := by
  obtain ⟨init, a, hcreate, hrun, harrived, hhandled, hreceived, hlost⟩ :
      ∃ init a, create luaSettings (Hub.init ⟨"node", 3⟩) 1 = some init ∧
        accountRun luaSettings 1 init exitsEarly = some a ∧ a.arrived = [0, 1, 2, 5] ∧
          a.handled = [0, 2, 5] ∧
        a.received = [0, 2, 5] ∧ a.lost = [1] :=
    ⟨_, _, rfl, rfl, by decide, by decide, by decide, by decide⟩
  exact ⟨init, a, hcreate, hrun, harrived, hhandled, hreceived, hlost,
    messages_accounted hcreate hrun⟩

end Executor

end UActor
