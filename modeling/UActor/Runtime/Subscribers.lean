import UActor.Runtime.Conservation
import UActor.Runtime.Mapping
import UActor.Runtime.RouterCalls

/-!
# From publishers to subscribers

An executor with the queue of its receiver. Any thread publishes at any time; the loop takes the
messages out one by one, and passes each to the actors that stand under its subscription.
-/

namespace UActor

open Router (Leads Regular)

/-- An executor, and the `MatchedPublication`s at its receiver. -/
structure Reception where
  executor : Executor
  queue : List (Nat × Publication)

namespace Reception

inductive Event where
  | publish (order : Router.VisitOrder) (seq : UInt32) (p : Publication)
  | receive (b : Behaviour) (now : UInt32)
  | loop (ev : Executor.Event)

section

variable (cfg : ExecutorSettings)

def create (hub : Hub) (handle : Nat) : Option Reception :=
  (Executor.create cfg hub handle).map fun e => ⟨e, []⟩

/-- `Router::publish_internal`, as far as it calls `Receiver::publish` of this receiver. -/
def publish (st : Reception) (order : Router.VisitOrder) (seq : UInt32) (p : Publication) :
    Option Reception :=
  (st.executor.hub.router.received cfg.board st.executor.router_handle order seq p).map fun ms =>
    { st with queue := st.queue ++ ms }

/-- The loop calls `receive` of its receiver. -/
def receive (st : Reception) (b : Behaviour) (now : UInt32) : Option Reception :=
  match st.queue with
  | [] => some st
  | (sub_id, p) :: rest => (st.executor.step cfg (.deliver sub_id p b now)).map fun e => ⟨e, rest⟩

/-- Messages come from the receiver only. -/
def step (st : Reception) : Event → Option Reception
  | .publish order seq p => st.publish cfg order seq p
  | .receive b now => st.receive cfg b now
  | .loop (.deliver ..) => none
  | .loop ev => (st.executor.step cfg ev).map fun e => { st with executor := e }

def run (hub : Hub) (handle : Nat) (events : List Event) : Option Reception :=
  (create cfg hub handle).bind fun st => events.foldlM (step cfg) st

end

/-- Scalar publications, and subscriptions that the index can tell apart. -/
def Event.Regular : Event → Prop
  | .publish _ _ p => p.isScalar = true
  | .receive b _ => b.Asks Router.Regular
  | .loop ev => ev.Asks Router.Regular

instance : (ev : Event) → Decidable ev.Regular
  | .publish _ _ p => inferInstanceAs (Decidable (p.isScalar = true))
  | .receive b _ => inferInstanceAs (Decidable (b.Asks Router.Regular))
  | .loop ev => inferInstanceAs (Decidable (ev.Asks Router.Regular))

/-! ## What is published and what comes -/

/-- The messages that wait under a subscription. -/
def waiting (st : Reception) (sub_id : Nat) : List Publication :=
  (st.queue.filter fun m => m.1 = sub_id).map Prod.snd

/-- What the next message puts into the queue of the actor, if it is one of the subscription. -/
def came (cfg : ExecutorSettings) (id : UInt32) (sub_id : Nat) (st : Reception) :
    Event → List Publication
  | .receive b now =>
    match st.queue with
    | [] => []
    | (s, p) :: _ =>
      if s = sub_id then
        (Executor.queueOps cfg id st.executor (.deliver s p b now)).flatMap Mailbox.enters
      else []
  | .publish .. | .loop _ => []

/-- The publication, stamped, if the subscription is one of the winners. -/
def won (cfg : ExecutorSettings) (S : Subscription) (st : Reception) : Event → List Publication
  | .publish _ seq p =>
    if st.executor.hub.router.Wins (Router.stamp cfg.board seq p).1 S then
      [(Router.stamp cfg.board seq p).1]
    else []
  | .receive .. | .loop _ => []

/-- What came to an actor under a subscription so far, and what the subscription won so far. -/
structure Ledger where
  reception : Reception
  came : List Publication
  won : List Publication

def keep (cfg : ExecutorSettings) (id : UInt32) (S : Subscription) (l : Ledger) (ev : Event) :
    Option Ledger :=
  (l.reception.step cfg ev).map fun st =>
    ⟨st, l.came ++ l.reception.came cfg id S.subscription_id ev, l.won ++ l.reception.won cfg S ev⟩

/-- The actor has this subscription, and the executor does not share it. -/
def Listens (id : UInt32) (sub_id : Nat) (st : Reception) : Prop :=
  sub_id ≠ st.executor.executor_subscription_id ∧ sub_id ∈ st.executor.subscriptionsOf id

section

variable {cfg : ExecutorSettings} {id : UInt32} {S : Subscription} {st st' : Reception}

/-! ## One step -/

theorem regular_address (who : ActorIdentifier) : Regular (Executor.addressOf who) .default := by
  simp [Regular, Executor.addressOf, Filter.ofConstraints, Filter.constraints, Constraint.isScalar,
    Constraint.eqv, Constraint.optional, SubscriptionArguments.default]

structure Sound (cfg : ExecutorSettings) (st : Reception) : Prop where
  maps : Executor.MapsAll cfg st.executor
  ready : Executor.Ready Executor.Any Executor.Any st.executor
  distinct : Executor.Distinct st.executor
  router : Leads cfg.board Regular (Router.init cfg.board) st.executor.hub.router
  scalar : ∀ m ∈ st.queue, m.2.isScalar = true

/-- The filter and the arguments of the subscription are those that it has in the router. -/
def Keeps (S : Subscription) (st : Reception) : Prop :=
  ∀ T ∈ st.executor.hub.router.subscriptions, T.subscription_id = S.subscription_id →
    T.filter = S.filter ∧ T.arguments = S.arguments

theorem step_loop {ev : Executor.Event} (h : st.step cfg (.loop ev) = some st') :
    ∃ e, st.executor.step cfg ev = some e ∧ st' = ⟨e, st.queue⟩ := by
  cases ev with
  | deliver => cases h
  | flush | expire | process | others | overwrite =>
    simp only [Reception.step] at h
    obtain ⟨e, hnext, rfl⟩ := Option.map_eq_some_iff.mp h
    exact ⟨e, hnext, rfl⟩

theorem leads_step {ev : Event} (hev : ev.Regular) (hstep : st.step cfg ev = some st') :
    Leads cfg.board Regular st.executor.hub.router st'.executor.hub.router := by
  cases ev with
  | publish order seq p =>
    obtain ⟨_, -, rfl⟩ := Option.map_eq_some_iff.mp hstep
    exact .refl cfg.board Regular _
  | receive b now =>
    simp only [Reception.step, receive] at hstep
    split at hstep
    · rw [← Option.some.inj hstep]
      exact .refl cfg.board Regular _
    · rename_i sub_id p rest _
      obtain ⟨e, hdeliver, rfl⟩ := Option.map_eq_some_iff.mp hstep
      have hasks : (Executor.Event.deliver sub_id p b now).Asks Regular := hev
      exact Executor.leads_step regular_address hasks hdeliver
  | loop ev =>
    obtain ⟨e, hnext, rfl⟩ := step_loop hstep
    exact Executor.leads_step regular_address hev hnext

theorem Sound.executor {e : Executor} {ev : Executor.Event} {queue : List (Nat × Publication)}
    (h : Sound cfg st) (hev : ev.Asks Regular) (hstep : st.executor.step cfg ev = some e)
    (hqueue : ∀ m ∈ queue, m ∈ st.queue) :
    Sound cfg ⟨e, queue⟩ :=
  ⟨h.maps.step h.ready hstep, h.ready.any_step hstep, h.distinct.step hstep,
    h.router.trans (Executor.leads_step regular_address hev hstep), fun m hm =>
      h.scalar m (hqueue m hm)⟩

theorem Sound.published {order : Router.VisitOrder} {seq : UInt32} {p : Publication}
    (h : Sound cfg st) (hp : p.isScalar = true) (hstep : st.publish cfg order seq p = some st') :
    ∃ ms, st' = ⟨st.executor, st.queue ++ ms⟩ ∧
      st.executor.hub.router.Received st.executor.router_handle (Router.stamp cfg.board seq p).1
        ms := by
  obtain ⟨ms, hms, rfl⟩ := Option.map_eq_some_iff.mp hstep
  exact ⟨ms, rfl, h.router.orderly.received hp hms⟩

theorem Sound.step {ev : Event} (h : Sound cfg st) (hev : ev.Regular)
    (hstep : st.step cfg ev = some st') :
    Sound cfg st' := by
  cases ev with
  | publish order seq p =>
    obtain ⟨ms, rfl, hms⟩ := h.published hev hstep
    refine ⟨h.maps, h.ready, h.distinct, h.router, fun m hm => ?_⟩
    rcases List.mem_append.mp hm with hm | hm
    · exact h.scalar m hm
    · rw [hms.publication m hm]
      exact Router.isScalar_stamp hev cfg.board seq
  | receive b now =>
    simp only [Reception.step, receive] at hstep
    split at hstep
    · rw [← Option.some.inj hstep]
      exact h
    · rename_i sub_id p rest hqueue
      obtain ⟨e, hdeliver, rfl⟩ := Option.map_eq_some_iff.mp hstep
      have hasks : (Executor.Event.deliver sub_id p b now).Asks Regular := hev
      refine h.executor hasks hdeliver fun m hm => ?_
      rw [hqueue]
      exact List.mem_cons_of_mem _ hm
  | loop ev =>
    obtain ⟨e, hnext, rfl⟩ := step_loop hstep
    exact h.executor hev hnext fun m hm => hm

theorem enters_offerOps {e : Executor} {p : Publication} (hp : p.copy = p) {count : Nat}
    {ids : List UInt32} (hids : ids.Nodup) :
    (Executor.offerOps id p count ids e).flatMap Mailbox.enters =
      if id ∈ ids ∧ (Assoc.find id e.actors).isSome = true then [p] else [] := by
  induction ids generalizing e count with
  | nil => simp [Executor.offerOps]
  | cons id' ids ih =>
    obtain ⟨hnew, hids⟩ := List.nodup_cons.mp hids
    unfold Executor.offerOps
    cases hfind : Assoc.find id' e.actors with
    | none =>
      rw [ih hids]
      by_cases hid : id = id'
      · rw [hid, hfind]
        simp
      · simp [hid]
    | some a =>
      dsimp only
      rw [hp, ite_self, List.flatMap_append, ih hids, Executor.find_offer]
      by_cases hid : id' = id
      · subst hid
        have hone : [Executor.enqueueOp a p].flatMap Mailbox.enters = [p] := by
          rcases Executor.enqueueOp_cases a p with h | h <;> rw [h] <;> rfl
        rw [if_pos rfl, if_pos rfl, hone, hfind]
        simp [hnew]
      · rw [if_neg hid, if_neg hid]
        simp [Ne.symm hid]

theorem Sound.listed (h : Sound cfg st) (hS : 11 ≤ S.subscription_id)
    (hlistens : st.Listens id S.subscription_id) :
    id ∈ Multimap.members S.subscription_id st.executor.subscription_mapping ∧
      (Assoc.find id st.executor.actors).isSome = true ∧
      st.executor.hub.router.Registered S.subscription_id st.executor.router_handle := by
  have hmember := (h.maps.agrees id S.subscription_id (by omega)).mpr hlistens.2
  refine ⟨hmember, ?_, ?_⟩
  · have hsubs := hlistens.2
    unfold Executor.subscriptionsOf at hsubs
    cases hfind : Assoc.find id st.executor.actors with
    | none =>
      rw [hfind] at hsubs
      cases hsubs
    | some actor => rfl
  · exact (Router.registered_iff h.maps.hub.router.subs _ _).mpr
      (h.maps.registered _ hS (List.ne_nil_of_mem hmember))

/-- What was waiting and what is won is what comes and what is waiting then. -/
theorem Sound.balance {ev : Event} (h : Sound cfg st) (hev : ev.Regular)
    (hS : 11 ≤ S.subscription_id) (hkeeps : st.Keeps S) (hlistens : st.Listens id S.subscription_id)
    (hstep : st.step cfg ev = some st') :
    st.came cfg id S.subscription_id ev ++ st'.waiting S.subscription_id =
      st.waiting S.subscription_id ++ st.won cfg S ev := by
  obtain ⟨hmember, halive, T, hT, hid, hreceiver⟩ := h.listed hS hlistens
  cases ev with
  | publish order seq p =>
    obtain ⟨ms, rfl, hms⟩ := h.published hev hstep
    obtain ⟨hfilter, hargs⟩ := hkeeps T hT hid
    have hwins : st.executor.hub.router.Wins (Router.stamp cfg.board seq p).1 T ↔
        st.executor.hub.router.Wins (Router.stamp cfg.board seq p).1 S := by
      unfold Router.Wins
      rw [hfilter, hargs]
    have hwaiting := hms.once T hT hreceiver
    simp only [hwins, hid] at hwaiting
    unfold waiting won came
    rw [List.filter_append, List.map_append, hwaiting, List.nil_append]
  | receive b now =>
    simp only [Reception.step, receive] at hstep
    unfold came waiting won
    cases hqueue : st.queue with
    | nil =>
      rw [hqueue] at hstep
      rw [← Option.some.inj hstep, hqueue]
      rfl
    | cons m rest =>
      obtain ⟨s, p⟩ := m
      rw [hqueue] at hstep
      obtain ⟨e, hdeliver, rfl⟩ := Option.map_eq_some_iff.mp hstep
      dsimp only
      by_cases hs : s = S.subscription_id
      · have hp : p.copy = p :=
          Router.copy_eq_of_scalar (h.scalar (s, p) (by rw [hqueue]; exact List.mem_cons_self))
        have hother : s ≠ st.executor.executor_subscription_id := hs ▸ hlistens.1
        have hone : (Executor.queueOps cfg id st.executor (.deliver s p b now)).flatMap
            Mailbox.enters = [p] := by
          have hops : Executor.queueOps cfg id st.executor (.deliver s p b now) =
              Executor.offerOps id p _ (Multimap.members s st.executor.subscription_mapping)
                st.executor :=
            if_neg hother
          rw [hops, enters_offerOps hp (h.distinct s), if_pos ⟨hs ▸ hmember, halive⟩]
        rw [if_pos hs, hone, List.filter_cons_of_pos (by simpa using hs)]
        simp
      · rw [if_neg hs, List.filter_cons_of_neg (by simpa using hs)]
        simp
  | loop ev =>
    obtain ⟨e, -, rfl⟩ := step_loop hstep
    unfold came waiting won
    simp

/-! ## Runs -/

theorem sound_run {before : List Hub.Event} {hub : Hub} {handle : Nat} {events : List Event}
    (hhub : Hub.run cfg.board before = some hub) (hbefore : ∀ ev ∈ before, ev.Asks Regular)
    (hrun : run cfg hub handle events = some st) (hevents : ∀ ev ∈ events, ev.Regular) :
    Sound cfg st := by
  obtain ⟨st₀, hcreate, hsteps⟩ := Option.bind_eq_some_iff.mp hrun
  obtain ⟨e, hcreated, rfl⟩ := Option.map_eq_some_iff.mp hcreate
  have hinv : Hub.Inv cfg.board hub := Runs.invariant (Hub.Inv cfg.board) (Hub.inv_init cfg.board)
    (fun _ _ _ h hstep => h.step hstep) hhub
  have hstart : Sound cfg ⟨e, []⟩ := by
    refine ⟨Executor.maps_create hinv hcreated, (Executor.ready_create hcreated).1, ?_, ?_, ?_⟩
    · obtain ⟨_, -, rfl⟩ := Option.map_eq_some_iff.mp hcreated
      exact fun _ => List.nodup_nil
    · exact (Hub.leads_run hbefore hhub).trans (Executor.leads_create regular_address hcreated)
    · exact fun m hm => absurd hm List.not_mem_nil
  refine Runs.invariant_of (Sound cfg) (fun _ ev => ev.Regular) hstart (fun _ _ _ h hev hstep =>
    h.step hev hstep) ?_ hsteps
  rintro pre ev post _ rfl -
  exact hevents ev (by simp)

/-- A subscriber gets exactly what its subscription wins, each publication once and in the order of
publication: what came to its queue, with what still waits at the receiver, is what had been waiting
before and what was won. -/
theorem subscriber_gets_each {before : List Hub.Event} {hub : Hub} {handle : Nat}
    {events later : List Event} {l : Ledger} (hhub : Hub.run cfg.board before = some hub)
    (hbefore : ∀ ev ∈ before, ev.Asks Regular) (hrun : run cfg hub handle events = some st)
    (hevents : ∀ ev ∈ events, ev.Regular) (hS : S ∈ st.executor.hub.router.subscriptions)
    (hlater : later.foldlM (keep cfg id S) ⟨st, [], []⟩ = some l)
    (hlistens : ∀ pre ev post l', later = pre ++ ev :: post →
      pre.foldlM (keep cfg id S) ⟨st, [], []⟩ = some l' →
      ev.Regular ∧ l'.reception.Listens id S.subscription_id) :
    l.came ++ l.reception.waiting S.subscription_id = st.waiting S.subscription_id ++ l.won := by
  have hstart := sound_run hhub hbefore hrun hevents
  have hsubs := hstart.maps.hub.router.subs
  have hle : 11 ≤ S.subscription_id := (hsubs.ids S hS).1
  have hkeeps : ∀ st' : Reception, Leads cfg.board Regular st.executor.hub.router
      st'.executor.hub.router →
      st'.Keeps S := by
    intro st' hleads T hT hid
    obtain ⟨R, hR, hid', hfilter, hargs⟩ := hleads.subscription hT (hid ▸ (hsubs.ids S hS).2)
    rw [hsubs.eq_of_id hR hS (hid'.symm.trans hid)] at hfilter hargs
    exact ⟨hfilter, hargs⟩
  have hall := Runs.invariant_of
    (fun l : Ledger => Sound cfg l.reception ∧
      Leads cfg.board Regular st.executor.hub.router l.reception.executor.hub.router ∧
      l.came ++ l.reception.waiting S.subscription_id = st.waiting S.subscription_id ++ l.won)
    (fun l ev => ev.Regular ∧ l.reception.Listens id S.subscription_id)
    ⟨hstart, .refl cfg.board Regular _, by simp⟩ ?_ hlistens hlater
  · exact hall.2.2
  · rintro l ev l' ⟨hsound, hleads, hbalance⟩ ⟨hev, hlisten⟩ hstep
    obtain ⟨st', hnext, rfl⟩ := Option.map_eq_some_iff.mp hstep
    refine ⟨hsound.step hev hnext, hleads.trans (leads_step hev hnext), ?_⟩
    have hone := hsound.balance hev hle (hkeeps _ hleads) hlisten hnext
    dsimp only
    rw [List.append_assoc, hone, ← List.append_assoc, hbalance, List.append_assoc]

end

/-! ## A run -/

open Executor (luaSettings receiving spawnMessage)

/-- An actor is spawned and subscribes to pings. -/
def listening : List Event :=
  [.publish .plain 0 ((((spawnMessage "listener").setAttr "node_id" (.str "node")).setAttr
    "actor_type"
      (.str "lua_executor")).setAttr "instance_id" (.str "1")),
    .receive (receiving []) 0,
    .loop (.process (receiving [.subscribe ⟨[.str "type" "ping" .EQ false], []⟩ .default]) 0)]

def typed (type : String) : Publication := (Publication.ofPublisher "node" "sender" "1").setAttr
    "type" (.str type)

def pings : List Event :=
  [.publish .plain 1 (typed "ping"), .publish .plain 2 (typed "pong"), .receive (receiving []) 0,
    .publish .plain 3 (typed "ping")]

theorem subscriber_gets_each_ping :
    ∃ st S l, run luaSettings (Hub.init ⟨"node", 3⟩) 1 listening = some st ∧
      S ∈ st.executor.hub.router.subscriptions ∧
        pings.foldlM (keep luaSettings 1 S) ⟨st, [], []⟩ = some l ∧
      l.came.map (·.getIntAttr "_internal_sequence_number") = [some 1] ∧
      l.came ++ l.reception.waiting S.subscription_id = st.waiting S.subscription_id ++ l.won := by
  obtain ⟨st, S, l, hrun, hfind, hlater, hcame, hlistens⟩ :
      ∃ st S l, run luaSettings (Hub.init ⟨"node", 3⟩) 1 listening = some st ∧
        st.executor.hub.router.findSub 13 = some S ∧ pings.foldlM (keep luaSettings 1 S)
          ⟨st, [], []⟩ = some l ∧
        l.came.map (·.getIntAttr "_internal_sequence_number") = [some 1] ∧
        ∀ pre ev post l', pings = pre ++ ev :: post → pre.foldlM (keep luaSettings 1 S)
          ⟨st, [], []⟩ = some l' →
          ev.Regular ∧ l'.reception.Listens 1 S.subscription_id := by
    refine ⟨_, _, _, rfl, rfl, rfl, rfl, ?_⟩
    exact Runs.meets_cons rfl ⟨by decide, by decide, by decide⟩
      (Runs.meets_cons rfl ⟨by decide, by decide, by decide⟩
        (Runs.meets_cons rfl ⟨by decide, by decide, by decide⟩
          (Runs.meets_cons rfl ⟨by decide, by decide, by decide⟩ Runs.meets_nil)))
  have hS := (Router.mem_of_findSub hfind).1
  have hhub : Hub.run luaSettings.board [] = some (Hub.init ⟨"node", 3⟩) := rfl
  exact ⟨st, S, l, hrun, hS, hlater, hcame,
    subscriber_gets_each hhub (by simp) hrun (by decide) hS hlater hlistens⟩

end Reception

end UActor
