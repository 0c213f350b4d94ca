import UActor.PubSub.Winners
import UActor.Remote.Forwarder
import UActor.Remote.Relay

/-!
# The whole forwarder

Who subscribes to what (`Remote.Forwarder`), and what goes through the connections (`Remote.Relay`),
together with the queue of the receiver between the router and the forwarder.
-/

namespace UActor

open Router (Leads Regular)

/-- The forwarder, what goes through its connections, and the `MatchedPublication`s at its
receiver. -/
structure Gateway where
  forwarder : Forwarder
  lanes : List (UInt32 × Lane)
  queue : List (Nat × Publication)

namespace Gateway

inductive Event where
  | publish (order : Router.VisitOrder) (seq : UInt32) (p : Publication)
  | receive (sends : UInt32 → Send) (now seconds : UInt32)
  | accept (socket_id : Int32) (seconds : UInt32)
  | hello (id : UInt32) (p : Publication)
  | added (id : UInt32) (p : Publication)
  | removed (id : UInt32) (p : Publication)
  | writeHandler (id : UInt32) (sends : Nat → Send) (seconds : UInt32)
  | dataHandler (id : UInt32) (closed : Bool) (seconds : UInt32)
  | keepalive (sends : UInt32 → Send) (seconds : UInt32)
  | partnerReads (id : UInt32) (len : Nat)
  | others (ev : Hub.Event)

/-- What `Remote.Relay` sees of it. -/
def relay (g : Gateway) : Relay :=
  ⟨g.forwarder.forwarder_subscription_id, g.forwarder.subscription_mapping,
    g.forwarder.next_local_id, g.lanes⟩

section

variable (cfg : ForwarderSettings) (build : List UInt8 → Option Publication)

def create (hub : Hub) (handle : Nat) : Option Gateway :=
  (Forwarder.create cfg hub handle).map fun forwarder => ⟨forwarder, [], []⟩

def publish (g : Gateway) (order : Router.VisitOrder) (seq : UInt32) (p : Publication) :
    Option Gateway :=
  (g.forwarder.hub.router.received cfg.board g.forwarder.handle order seq p).map fun ms =>
    { g with queue := g.queue ++ ms }

/-- `os_task` gives the next message to `receive`. -/
def receive (g : Gateway) (sends : UInt32 → Send) (now seconds : UInt32) : Option Gateway :=
  match g.queue with
  | [] => some g
  | (sub_id, p) :: rest => (g.relay.receive sub_id p sends now seconds).map fun r =>
      { g with lanes := r.remotes, queue := rest }

def manage (g : Gateway) (ev : Forwarder.Event) : Option Gateway :=
  (g.forwarder.step cfg ev).map fun forwarder => { g with forwarder := forwarder }

def wire (g : Gateway) (ev : RelayEvent) : Option Gateway :=
  (g.relay.step build ev).map fun r => { g with lanes := r.remotes }

/-- A connection that has ended is destroyed. -/
def sweep (g : Gateway) (id : UInt32) : Option Gateway :=
  match Assoc.find id g.lanes, Assoc.find id g.forwarder.remotes with
  | none, some _ => g.manage cfg (.disconnect id)
  | _, _ => some g

def step (g : Gateway) : Event → Option Gateway
  | .publish order seq p => g.publish cfg order seq p
  | .receive sends now seconds => g.receive sends now seconds
  | .accept socket_id seconds => (g.wire build (.addRemoteConnection socket_id seconds)).bind
      (manage cfg · .accept)
  | .hello id p => (g.manage cfg (.hello id p)).bind fun g =>
      (Assoc.find id g.forwarder.remotes).bind fun c => g.wire build (.hello id c.partner_node_id)
  | .added id p => g.manage cfg (.added id p)
  | .removed id p => g.manage cfg (.removed id p)
  | .writeHandler id sends seconds => (g.wire build (.writeHandler id sends seconds)).bind
      (sweep cfg · id)
  | .dataHandler id closed seconds => (g.wire build (.dataHandler id closed seconds)).bind
      (sweep cfg · id)
  | .keepalive sends seconds => g.wire build (.keepalive sends seconds)
  | .partnerReads id len => g.wire build (.partnerReads id len)
  | .others ev => g.manage cfg (.others ev)

end

end Gateway

/-! ## What a step of the forwarder is made of -/

namespace Forwarder

open RemoteConnection

variable {cfg : ForwarderSettings} {fwd fwd' : Forwarder}

/-- The subscriptions of a peer are regular, and those of other receivers. -/
def Event.Regular (cfg : ForwarderSettings) (fwd : Forwarder) : Event → Prop
  | .added l p => ∀ c ∈ Assoc.find l fwd.remotes,
      ∀ out ∈ remoteSubscriptions cfg.order c.ingress_subscription_processors p, ∀ e ∈ out.2,
      Router.Regular e.1 e.2.2
  | .others ev => ev.Asks Router.Regular
  | .accept | .hello .. | .removed .. | .disconnect _ => True

instance : (ev : Event) → Decidable (ev.Regular cfg fwd)
  | .added l p => inferInstanceAs (Decidable (∀ c ∈ Assoc.find l fwd.remotes,
      ∀ out ∈ remoteSubscriptions cfg.order c.ingress_subscription_processors p,
        ∀ e ∈ out.2, Router.Regular e.1 e.2.2))
  | .others ev => inferInstanceAs (Decidable (ev.Asks Router.Regular))
  | .accept | .hello .. | .removed .. | .disconnect _ => isTrue trivial

/-- One call, or a note about the connections. -/
inductive Act (cfg : ForwarderSettings) (fwd : Forwarder) : Forwarder → Prop
  | add (l : UInt32) (f : Filter) (node_id : String) (who : ActorIdentifier)
      (args : SubscriptionArguments) (hregular : Router.Regular f args) :
      Act cfg fwd (fwd.addRemoteSubscription cfg l f node_id who args).1
  | remove (l : UInt32) (s : Nat) : Act cfg fwd (fwd.removeSubscription cfg l s)
  | number (node : String) :
      Act cfg fwd { fwd with hub := { fwd.hub with router := (fwd.hub.router.internNode node).1 } }
  | note (remotes : List (UInt32 × RemoteConnection)) : Act cfg fwd { fwd with remotes := remotes }
  | others (ev : Hub.Event) (hub : Hub) (hne : ev.receiver ≠ fwd.handle)
      (hev : ev.Asks Router.Regular) (hhub : fwd.hub.step cfg.board ev = some hub) :
      Act cfg fwd { fwd with hub }

abbrev Acts (cfg : ForwarderSettings) : Forwarder → Forwarder → Prop :=
  Relation.ReflTransGen (Act cfg)

theorem regular_updateReceiverFilter (NODE_ID : String) (l : UInt32) :
    Router.Regular (updateReceiverFilter NODE_ID l) .default := by
  simp [Router.Regular, updateReceiverFilter, Filter.ofConstraints, Filter.constraints,
    Constraint.isScalar, Constraint.eqv, Constraint.optional, SubscriptionArguments.default]

theorem regular_updateFilter (NODE_ID x type : String) :
    Router.Regular (updateFilter NODE_ID x type) .default := by
  simp [Router.Regular, updateFilter_eq, Filter.constraints, Constraint.isScalar, Constraint.eqv,
    SubscriptionArguments.default]

theorem regular_subscriptionsFilter (NODE_ID type : String) (id : Int32) :
    Router.Regular (subscriptionsFilter NODE_ID type id) .default := by
  simp [Router.Regular, subscriptionsFilter, Filter.ofConstraints, Filter.constraints,
    Constraint.isScalar, Constraint.eqv, Constraint.optional, SubscriptionArguments.default]

theorem acts_setRemote {st : Forwarder × RemoteConnection} (h : Acts cfg fwd st.1) :
    Acts cfg fwd (setRemote st) :=
  h.tail (.note (Assoc.put st.2.local_id st.2 st.1.remotes))

theorem acts_handleRemoteHello (c : RemoteConnection) (x : String) :
    Acts cfg fwd (fwd.handleRemoteHello cfg c x).1 := by
  unfold handleRemoteHello
  split
  · exact .refl
  · have hadded : Act cfg fwd (fwd.addLocalSubscription cfg c.local_id
        (updateFilter cfg.board.NODE_ID x "local_subscription_added")).1 :=
          .add _ _ _ _ _ (regular_updateFilter ..)
    refine Relation.ReflTransGen.tail ?_ (.number x)
    refine Relation.ReflTransGen.tail ?_ (.add _ _ _ _ _ (regular_subscriptionsFilter ..))
    refine Relation.ReflTransGen.tail ?_ (.add _ _ _ _ _ (regular_subscriptionsFilter ..))
    exact Relation.ReflTransGen.tail (.single hadded) (.add _ _ _ _ _ (regular_updateFilter ..))

theorem acts_addEntries (st : Forwarder × RemoteConnection)
    {es : List (Filter × ActorIdentifier × SubscriptionArguments)}
    (hes : ∀ e ∈ es, Router.Regular e.1 e.2.2) :
    Acts cfg st.1 (es.foldl (addEntry cfg) st).1 := by
  induction es generalizing st with
  | nil => exact .refl
  | cons e es ih =>
    have hfirst : Act cfg st.1 (addEntry cfg st e).1 := .add _ _ _ _ _ (hes e List.mem_cons_self)
    exact .head hfirst (ih _ fun e' he' => hes e' (List.mem_cons_of_mem _ he'))

theorem acts_removeEntries (st : Forwarder × RemoteConnection)
    (es : List (Filter × SubscriptionArguments)) :
    Acts cfg st.1 (es.foldl (removeEntry cfg) st).1 := by
  induction es generalizing st with
  | nil => exact .refl
  | cons e es ih =>
    have hfirst : Act cfg st.1 (removeEntry cfg st e).1 := .remove _ _
    exact .head hfirst (ih _)

theorem acts_removeEach (l : UInt32) (ids : List Nat) : Acts cfg fwd (fwd.removeEach cfg l ids) :=
  List.foldlRecOn ids _ .refl fun _ h s _ => h.tail (.remove l s)

/-- A new connection takes the next id. -/
def Event.begin (fwd : Forwarder) : Event → Forwarder
  | .accept => { fwd with next_local_id := fwd.next_local_id + 1 }
  | .hello .. | .added .. | .removed .. | .disconnect _ | .others _ => fwd

theorem acts_step {ev : Event} (hev : ev.Regular cfg fwd) (hstep : fwd.step cfg ev = some fwd') :
    Acts cfg (ev.begin fwd) fwd' := by
  cases step_cases hstep with
  | taken => exact .refl
  | accept => exact acts_setRemote (.single (.add _ _ _ _ _ (regular_updateReceiverFilter ..)))
  | hello l p c x hfind => exact acts_setRemote (acts_handleRemoteHello c x)
  | added l p c ps es hfind hread =>
    exact acts_setRemote (acts_addEntries (fwd, { c with ingress_subscription_processors := ps })
      (hev c hfind (ps, es) hread))
  | removed l p c ps es =>
    exact acts_setRemote (acts_removeEntries (fwd, { c with ingress_subscription_processors := ps })
      es)
  | disconnect l c =>
    exact .head (.note (Assoc.erase l fwd.remotes)) (acts_removeEach c.local_id c.recorded)
  | others ev hub hne hhub => exact .single (.others ev hub hne hev hhub)

/-! ## What every call keeps -/

/-- The receiver stands under every subscription that has connections. -/
structure Serves (cfg : ForwarderSettings) (fwd : Forwarder) : Prop where
  hub : Hub.Inv cfg.board fwd.hub
  full : Multimap.Full fwd.subscription_mapping
  sets : ∀ s, (Multimap.members s fwd.subscription_mapping).Nodup
  stands : ∀ s, 11 ≤ s → Multimap.members s fwd.subscription_mapping ≠ [] →
    fwd.hub.router.nodesAt s fwd.handle ≠ []

theorem Serves.act (h : Serves cfg fwd) (hact : Act cfg fwd fwd') : Serves cfg fwd' := by
  cases hact with
  | add l f node_id who args =>
    refine ⟨h.hub.subscribe .., h.full.insert _ _, Multimap.nodup_insert h.sets _ _,
      fun s hs hmembers => ?_⟩
    have hnodes := nodesAt_addRemoteSubscription h.hub l f node_id who args s
    rw [(addRemoteSubscription_frames l f node_id who args).handle, hnodes]
    split
    · exact List.ne_nil_of_mem ((Subscription.mem_emplace _ _ _).mpr (Or.inr rfl))
    · rename_i hnew
      obtain ⟨d, hd⟩ := List.exists_mem_of_ne_nil _ hmembers
      rcases mem_members_addRemoteSubscription.mp hd with ⟨hid, -⟩ | hd
      · -- what is only fetched has the id 1
        have hfetch : args.fetch_policy = .FETCH := by
          by_contra hne
          exact hnew ⟨hne, hid⟩
        have hone : (fwd.addRemoteSubscription cfg l f node_id who args).2 = 1 :=
          Router.add_fetch cfg.board fwd.hub.router f fwd.handle who node_id hfetch
        omega
      · exact h.stands s hs (List.ne_nil_of_mem hd)
  | remove l s₀ =>
    have hinv : Inv cfg { fwd with remotes := [] } :=
      ⟨h.hub, h.full, by simp [Assoc.find], by simp [Assoc.find]⟩
    refine ⟨(hinv.removeSubscription l s₀).hub, h.full.remove _ _, Multimap.nodup_remove h.sets _ _,
      fun s hs hmembers => ?_⟩
    obtain ⟨d, hd⟩ := List.exists_mem_of_ne_nil _ hmembers
    obtain ⟨hold, hleft⟩ := mem_members_removeSubscription.mp hd
    have hnodes := nodesAt_removeSubscription h.hub h.full l s₀ s
    rw [(removeSubscription_frames l s₀).handle, hnodes, if_neg]
    · exact h.stands s hs (List.ne_nil_of_mem hold)
    · rintro ⟨rfl, -, honly⟩
      exact hleft ⟨rfl, honly d hold⟩
  | number node =>
    refine ⟨⟨h.hub.router.internNode node, h.hub.nodup⟩, h.full, h.sets, fun s hs hmembers => ?_⟩
    rw [Router.nodesAt_internNode]
    exact h.stands s hs hmembers
  | note => exact ⟨h.hub, h.full, h.sets, h.stands⟩
  | others ev hub hne hev hhub =>
    refine ⟨h.hub.step hhub, h.full, h.sets, fun s hs hmembers => ?_⟩
    rw [Hub.nodesAt_other h.hub hhub hne]
    exact h.stands s hs hmembers

theorem Act.leads (h : Act cfg fwd fwd') : Leads cfg.board Router.Regular fwd.hub.router fwd'.hub.router := by
  cases h with
  | add l f node_id who args hregular => exact Leads.step (.add f fwd.handle who node_id args) hregular
  | remove l s =>
    unfold removeSubscription
    dsimp only
    split
    · exact Leads.step (.remove s fwd.handle "") trivial
    · exact .refl cfg.board Router.Regular _
  | number node => exact Leads.number _ node
  | note => exact .refl cfg.board Router.Regular _
  | others ev hub hne hev hhub => exact Hub.leads_step hev hhub

theorem Acts.leads (h : Acts cfg fwd fwd') :
    Leads cfg.board Router.Regular fwd.hub.router fwd'.hub.router := by
  induction h with
  | refl => exact .refl cfg.board Router.Regular _
  | tail _ hact ih => exact ih.trans hact.leads

theorem Serves.acts (h : Serves cfg fwd) (hacts : Acts cfg fwd fwd') : Serves cfg fwd' := by
  induction hacts with
  | refl => exact h
  | tail _ hact ih => exact ih.act hact

theorem Acts.frames (h : Acts cfg fwd fwd') : fwd'.handle = fwd.handle ∧
    fwd'.forwarder_subscription_id = fwd.forwarder_subscription_id ∧
      fwd'.next_local_id = fwd.next_local_id := by
  induction h with
  | refl => exact ⟨rfl, rfl, rfl⟩
  | tail _ hact ih => cases hact <;> exact ih

end Forwarder

namespace Gateway

variable {cfg : ForwarderSettings} {build : List UInt8 → Option Publication} {g g' : Gateway}

/-! ## The data side -/

/-- Events of `Remote.Relay` lead from one state to the other. -/
def Follows (build : List UInt8 → Option Publication) (s s' : Relay) : Prop :=
  ∃ events : List RelayEvent, events.foldlM (Relay.step build) s = some s'

theorem Follows.trans {s s' s'' : Relay} (h : Follows build s s') (h' : Follows build s' s'') :
    Follows build s s'' := by
  obtain ⟨events, hevents⟩ := h
  obtain ⟨more, hmore⟩ := h'
  exact ⟨events ++ more, by rw [List.foldlM_append, hevents]; exact hmore⟩

theorem Follows.single {s s' : Relay} {ev : RelayEvent} (h : s.step build ev = some s') :
    Follows build s s' :=
  ⟨[ev], by rw [Runs.foldlM_singleton, h]⟩

theorem follows_acts {fwd fwd' : Forwarder} (h : Forwarder.Acts cfg fwd fwd')
    (lanes : List (UInt32 × Lane)) (queue : List (Nat × Publication)) :
    Follows build (relay ⟨fwd, lanes, queue⟩) (relay ⟨fwd', lanes, queue⟩) := by
  induction h with
  | refl => exact ⟨[], rfl⟩
  | tail _ hact ih =>
    refine ih.trans ?_
    cases hact with
    | add l f node_id who args => exact ⟨[.addSubscription l _], rfl⟩
    | remove l s => exact ⟨[.removeSubscription l s], rfl⟩
    | number | note | others => exact ⟨[], rfl⟩

/-- Scalar publications, and regular subscriptions. -/
def Event.Regular (cfg : ForwarderSettings) (g : Gateway) : Event → Prop
  | .publish _ _ p => p.isScalar = true
  | .added id p => (Forwarder.Event.added id p).Regular cfg g.forwarder
  | .others ev => ev.Asks Router.Regular
  | .receive .. | .accept .. | .hello .. | .removed .. | .writeHandler .. | .dataHandler ..
  | .keepalive .. |
    .partnerReads .. => True

instance : (ev : Event) → Decidable (ev.Regular cfg g)
  | .publish _ _ p => inferInstanceAs (Decidable (p.isScalar = true))
  | .added id p => inferInstanceAs
      (Decidable ((Forwarder.Event.added id p).Regular cfg g.forwarder))
  | .others ev => inferInstanceAs (Decidable (ev.Asks Router.Regular))
  | .receive .. | .accept .. | .hello .. | .removed .. | .writeHandler .. | .dataHandler ..
  | .keepalive .. |
    .partnerReads .. => isTrue trivial

/-- The events of a connection after which it has forwarded what it had. -/
def Quiet : RelayEvent → Prop
  | .hello .. | .writeHandler .. | .keepalive .. | .dataHandler .. | .partnerReads .. => True
  | .addRemoteConnection .. | .addSubscription .. | .removeSubscription .. | .receive .. => False

/-- What the connections that last have forwarded stays. -/
def Keeps (lanes lanes' : List (UInt32 × Lane)) : Prop :=
  ∀ l lane lane', Assoc.find l lanes = some lane → Assoc.find l lanes' = some lane' →
    lane'.forwarded = lane.forwarded ∧ lane'.outgoing_sequence_infos = lane.outgoing_sequence_infos

theorem Keeps.refl (lanes : List (UInt32 × Lane)) : Keeps lanes lanes := by
  intro l lane lane' h h'
  obtain rfl := Option.some.inj (h.symm.trans h')
  exact ⟨rfl, rfl⟩

theorem keeps_withRemote (s : Relay) (id : UInt32) {f : Lane → Option Lane}
    (hf : ∀ lane lane', f lane = some lane' → lane'.forwarded = lane.forwarded ∧
      lane'.outgoing_sequence_infos = lane.outgoing_sequence_infos) :
      Keeps s.remotes (s.withRemote id f).remotes := by
  intro l lane lane' hfind hfind'
  unfold Relay.withRemote at hfind'
  cases hid : Assoc.find id s.remotes with
  | none =>
    rw [hid] at hfind'
    exact Keeps.refl s.remotes l lane lane' hfind hfind'
  | some old =>
    rw [hid] at hfind'
    dsimp only at hfind'
    cases hnew : f old with
    | none =>
      rw [hnew] at hfind'
      rw [Assoc.find_erase] at hfind'
      split at hfind'
      · cases hfind'
      · exact Keeps.refl s.remotes l lane lane' hfind hfind'
    | some new =>
      rw [hnew] at hfind'
      rw [Assoc.find_put] at hfind'
      split at hfind'
      · rename_i heq
        subst heq
        obtain rfl := Option.some.inj (hid.symm.trans hfind)
        obtain rfl := Option.some.inj hfind'
        exact hf old new hnew
      · exact Keeps.refl s.remotes l lane lane' hfind hfind'

theorem step_quiet {s s' : Relay} {ev : RelayEvent} (hev : Quiet ev)
    (h : s.step build ev = some s') :
    s' = { s with remotes := s'.remotes } ∧ Keeps s.remotes s'.remotes := by
  have hwith : ∀ id f, s.withRemote id f = { s with remotes := (s.withRemote id f).remotes } := by
    intro id f
    unfold Relay.withRemote
    split
    · rfl
    · split <;> rfl
  cases ev with
  | hello id partner_node_id =>
    obtain rfl := Option.some.inj h
    refine ⟨hwith _ _, keeps_withRemote s id fun lane lane' heq => ?_⟩
    obtain rfl := Option.some.inj heq
    exact ⟨rfl, rfl⟩
  | writeHandler id sends seconds =>
    obtain rfl := Option.some.inj h
    refine ⟨hwith _ _, keeps_withRemote s id fun lane lane' heq => ?_⟩
    split at heq
    · cases heq
    · obtain rfl := Option.some.inj heq
      exact ⟨rfl, rfl⟩
  | dataHandler id closed seconds =>
    obtain rfl := Option.some.inj h
    refine ⟨hwith _ _, keeps_withRemote s id fun lane lane' heq => ?_⟩
    split at heq
    · cases heq
    · obtain rfl := Option.some.inj heq
      exact ⟨rfl, rfl⟩
  | partnerReads id len =>
    obtain rfl := Option.some.inj h
    refine ⟨hwith _ _, keeps_withRemote s id fun lane lane' heq => ?_⟩
    obtain rfl := Option.some.inj heq
    exact ⟨rfl, rfl⟩
  | keepalive sends seconds =>
    obtain rfl := Option.some.inj h
    refine ⟨rfl, fun l lane lane' hfind hfind' => ?_⟩
    dsimp only at hfind'
    rw [Assoc.find_map_keyed l (fun id lane => Lane.keepalive (sends id) seconds lane), hfind,
      Option.map_some] at hfind'
    obtain rfl := Option.some.inj hfind'
    exact ⟨rfl, rfl⟩
  | addRemoteConnection | addSubscription | removeSubscription
  | receive => exact absurd hev not_false

/-- What holds after a step that neither publishes nor receives. -/
structure Rests (cfg : ForwarderSettings) (build : List UInt8 → Option Publication)
    (g g' : Gateway) : Prop where
  serves : g.forwarder.Serves cfg → g'.forwarder.Serves cfg
  leads : Leads cfg.board Regular g.forwarder.hub.router g'.forwarder.hub.router
  follows : Follows build g.relay g'.relay
  queue : g'.queue = g.queue
  keeps : Keeps g.lanes g'.lanes

theorem Rests.refl (cfg : ForwarderSettings) (build : List UInt8 → Option Publication)
    (g : Gateway) :
    Rests cfg build g g :=
  ⟨id, .refl cfg.board Regular _, ⟨[], rfl⟩, rfl, Keeps.refl _⟩

theorem Rests.trans {g'' : Gateway} (h : Rests cfg build g g') (h' : Rests cfg build g' g'')
    (hsame : g'.lanes = g.lanes ∨ g''.lanes = g'.lanes) : Rests cfg build g g'' := by
  refine ⟨h'.serves ∘ h.serves, h.leads.trans h'.leads, h.follows.trans h'.follows,
    h'.queue.trans h.queue, ?_⟩
  rcases hsame with hsame | hsame
  · rw [← hsame]
    exact h'.keeps
  · rw [hsame]
    exact h.keeps

theorem rests_acts {fwd : Forwarder} (h : Forwarder.Acts cfg g.forwarder fwd) :
    Rests cfg build g { g with forwarder := fwd } :=
  ⟨fun hserves => hserves.acts h, h.leads, follows_acts h g.lanes g.queue, rfl, Keeps.refl _⟩

theorem rests_manage {ev : Forwarder.Event} (h : g.manage cfg ev = some g')
    (hev : ev.Regular cfg g.forwarder) (hold : ev.begin g.forwarder = g.forwarder) :
    Rests cfg build g g' ∧ g'.lanes = g.lanes := by
  obtain ⟨fwd, hstep, rfl⟩ := Option.map_eq_some_iff.mp h
  have hacts := Forwarder.acts_step hev hstep
  rw [hold] at hacts
  exact ⟨rests_acts hacts, rfl⟩

theorem rests_wire {ev : RelayEvent} (h : g.wire build ev = some g') (hev : Quiet ev) :
    Rests cfg build g g' ∧ g'.forwarder = g.forwarder := by
  obtain ⟨r, hstep, rfl⟩ := Option.map_eq_some_iff.mp h
  obtain ⟨heq, hkeeps⟩ := step_quiet hev hstep
  refine ⟨⟨id, .refl cfg.board Regular _, ?_, rfl, hkeeps⟩, rfl⟩
  rw [heq] at hstep
  exact .single hstep

theorem rests_sweep {id : UInt32} (h : g.sweep cfg id = some g') :
    Rests cfg build g g' ∧ g'.lanes = g.lanes := by
  unfold sweep at h
  split at h
  · exact rests_manage h trivial rfl
  · rw [← Option.some.inj h]
    exact ⟨Rests.refl cfg build g, rfl⟩

theorem rests_accept {g₁ : Gateway} {socket_id : Int32} {seconds : UInt32}
    (hwire : g.wire build (.addRemoteConnection socket_id seconds) = some g₁)
    (hmanage : g₁.manage cfg .accept = some g') : Rests cfg build g g' := by
  obtain ⟨r, hstep, rfl⟩ := Option.map_eq_some_iff.mp hwire
  obtain ⟨fwd, haccept, rfl⟩ := Option.map_eq_some_iff.mp hmanage
  have hregular : Forwarder.Event.accept.Regular cfg g.forwarder := trivial
  have hacts := Forwarder.acts_step hregular haccept
  obtain rfl : g.relay.addRemoteConnection socket_id seconds = r := Option.some.inj hstep
  refine ⟨fun hserves => ?_, hacts.leads, ?_, rfl, fun l lane lane' hfind hfind' => ?_⟩
  · have hbegin : (Forwarder.Event.accept.begin g.forwarder).Serves cfg :=
      ⟨hserves.hub, hserves.full, hserves.sets, hserves.stands⟩
    exact hbegin.acts hacts
  · exact (Follows.single hstep).trans
      (follows_acts hacts (g.relay.addRemoteConnection socket_id seconds).remotes g.queue)
  · dsimp only [Relay.addRemoteConnection] at hfind'
    split at hfind'
    · exact Keeps.refl g.lanes l lane lane' hfind hfind'
    · rename_i hnone
      rw [Assoc.find_put] at hfind'
      split at hfind'
      · rename_i heq
        subst heq
        exact absurd (hfind.symm.trans hnone) (by simp)
      · exact Keeps.refl g.lanes l lane lane' hfind hfind'

/-! ## Runs -/

/-- What a step can do. -/
inductive Step (cfg : ForwarderSettings) (build : List UInt8 → Option Publication) (g : Gateway) :
    Event → Gateway → Prop
  | publish (order : Router.VisitOrder) (seq : UInt32) (p : Publication)
      (ms : List (Nat × Publication))
      (hms : g.forwarder.hub.router.received cfg.board g.forwarder.handle order seq p = some ms) :
      Step cfg build g (.publish order seq p) { g with queue := g.queue ++ ms }
  | idle (sends : UInt32 → Send) (now seconds : UInt32) (hqueue : g.queue = []) :
      Step cfg build g (.receive sends now seconds) g
  | receive (sends : UInt32 → Send) (now seconds : UInt32) (s : Nat) (p : Publication)
      (rest : List (Nat × Publication)) (r : Relay) (hqueue : g.queue = (s, p) :: rest)
      (hreceive : g.relay.receive s p sends now seconds = some r) :
      Step cfg build g (.receive sends now seconds) { g with lanes := r.remotes, queue := rest }
  | other (ev : Event) (g' : Gateway) (hev : ∀ order seq p, ev ≠ .publish order seq p)
      (h : Rests cfg build g g') :
      Step cfg build g ev g'

theorem step_cases {ev : Event} (h : g.step cfg build ev = some g') (hev : ev.Regular cfg g) :
    Step cfg build g ev g' := by
  cases ev with
  | publish order seq p =>
    obtain ⟨ms, hms, rfl⟩ := Option.map_eq_some_iff.mp h
    exact .publish order seq p ms hms
  | receive sends now seconds =>
    simp only [step, receive] at h
    split at h
    · rename_i hqueue
      rw [← Option.some.inj h]
      exact .idle sends now seconds hqueue
    · rename_i s p rest hqueue
      obtain ⟨r, hreceive, rfl⟩ := Option.map_eq_some_iff.mp h
      exact .receive sends now seconds s p rest r hqueue hreceive
  | accept socket_id seconds =>
    simp only [step] at h
    obtain ⟨g₁, hwire, hmanage⟩ := Option.bind_eq_some_iff.mp h
    exact .other _ _ (by simp) (rests_accept hwire hmanage)
  | hello id p =>
    obtain ⟨g₁, hmanage, h⟩ := Option.bind_eq_some_iff.mp h
    obtain ⟨c, -, hwire⟩ := Option.bind_eq_some_iff.mp h
    obtain ⟨hfirst, hlanes⟩ := rests_manage hmanage trivial rfl
    exact .other _ _ (by simp) (hfirst.trans (rests_wire hwire trivial).1 (Or.inl hlanes))
  | added id p => exact .other _ _ (by simp) (rests_manage h hev rfl).1
  | removed id p => exact .other _ _ (by simp) (rests_manage h trivial rfl).1
  | writeHandler id sends seconds =>
    simp only [step] at h
    obtain ⟨g₁, hwire, hsweep⟩ := Option.bind_eq_some_iff.mp h
    obtain ⟨hlast, hlanes⟩ := rests_sweep hsweep
    have hquiet : Quiet (.writeHandler id sends seconds) := trivial
    exact .other _ _ (by simp) ((rests_wire hwire hquiet).1.trans hlast (Or.inr hlanes))
  | dataHandler id closed seconds =>
    simp only [step] at h
    obtain ⟨g₁, hwire, hsweep⟩ := Option.bind_eq_some_iff.mp h
    obtain ⟨hlast, hlanes⟩ := rests_sweep hsweep
    have hquiet : Quiet (.dataHandler id closed seconds) := trivial
    exact .other _ _ (by simp) ((rests_wire hwire hquiet).1.trans hlast (Or.inr hlanes))
  | keepalive sends seconds => exact .other _ _ (by simp) (rests_wire h trivial).1
  | partnerReads id len => exact .other _ _ (by simp) (rests_wire h trivial).1
  | others ev => exact .other _ _ (by simp) (rests_manage h hev rfl).1

theorem follows_step {ev : Event} (h : g.step cfg build ev = some g') (hev : ev.Regular cfg g) :
    Follows build g.relay g'.relay := by
  cases step_cases h hev with
  | publish | idle => exact ⟨[], rfl⟩
  | receive sends now seconds s p rest r hqueue hreceive =>
    have hmapping : r = { g.relay with remotes := r.remotes } := by
      unfold Relay.receive at hreceive
      split at hreceive
      · obtain ⟨remotes, -, rfl⟩ := Option.map_eq_some_iff.mp hreceive
        rfl
      · rw [← Option.some.inj hreceive]
    have hstep : g.relay.step build (.receive s p sends now seconds) = some r := hreceive
    rw [hmapping] at hstep
    exact .single hstep
  | other _ _ _ hrests => exact hrests.follows

structure Sound (cfg : ForwarderSettings) (g : Gateway) : Prop where
  serves : g.forwarder.Serves cfg
  router : Leads cfg.board Regular (Router.init cfg.board) g.forwarder.hub.router

theorem Sound.step {ev : Event} (h : Sound cfg g) (hev : ev.Regular cfg g)
    (hstep : g.step cfg build ev = some g') :
    Sound cfg g' := by
  cases step_cases hstep hev with
  | publish | idle | receive => exact ⟨h.serves, h.router⟩
  | other _ _ _ hrests => exact ⟨hrests.serves h.serves, h.router.trans hrests.leads⟩

theorem regular_primaryFilter (NODE_ID : String) :
    Regular (Forwarder.primaryFilter NODE_ID) .default := by
  simp [Regular, Forwarder.primaryFilter, Filter.ofConstraints, Filter.constraints,
    Constraint.isScalar, Constraint.eqv, Constraint.optional, SubscriptionArguments.default]

theorem regular_connectionRequests (NODE_ID : String) :
    Regular (Forwarder.connectionRequests NODE_ID) .default := by
  simp [Regular, Forwarder.connectionRequests, Filter.ofConstraints, Filter.constraints,
    Constraint.isScalar, Constraint.eqv, Constraint.optional, SubscriptionArguments.default]

theorem sound_create {before : List Hub.Event} {hub : Hub} {handle : Nat}
    (hhub : Hub.run cfg.board before = some hub) (hbefore : ∀ ev ∈ before, ev.Asks Regular)
    (hcreate : create cfg hub handle = some g) : Sound cfg g := by
  obtain ⟨fwd, hfwd, rfl⟩ := Option.map_eq_some_iff.mp hcreate
  have hinv : Hub.Inv cfg.board hub := Runs.invariant (Hub.Inv cfg.board) (Hub.inv_init cfg.board)
    (fun _ _ _ h hstep => h.step hstep) hhub
  have hfull := Forwarder.inv_create hinv hfwd
  obtain ⟨hub', hcreated, rfl⟩ := Option.map_eq_some_iff.mp hfwd
  refine ⟨⟨hfull.hub, hfull.full, fun _ => List.nodup_nil, fun s _ hmembers => absurd rfl hmembers⟩,
    ?_⟩
  have hasks : (Hub.Event.create handle).Asks Regular := trivial
  have hready := (Hub.leads_run hbefore hhub).trans (Hub.leads_step hasks hcreated)
  have hfirst : Leads cfg.board Regular hub'.router _ :=
    Leads.step (.add (Forwarder.primaryFilter cfg.board.NODE_ID) handle
      ⟨cfg.board.NODE_ID, "tcp_forwarder", "1"⟩ cfg.board.NODE_ID .default)
        (regular_primaryFilter cfg.board.NODE_ID)
  exact (hready.trans hfirst).trans
    (Leads.step (.add _ handle _ _ _) (regular_connectionRequests cfg.board.NODE_ID))

/-- The data side of a run is a run of `Remote.Relay`. -/
theorem relay_run {before : List Hub.Event} {hub : Hub} {handle : Nat} {g₀ : Gateway}
    {events : List Event} (hhub : Hub.run cfg.board before = some hub)
    (hbefore : ∀ ev ∈ before, ev.Asks Regular) (hcreate : create cfg hub handle = some g₀)
    (hrun : events.foldlM (step cfg build) g₀ = some g)
    (hregular : ∀ pre ev post g', events = pre ++ ev :: post →
      pre.foldlM (step cfg build) g₀ = some g' →
      ev.Regular cfg g') : Sound cfg g ∧
      ∃ relayEvents, Relay.run build g₀.forwarder.forwarder_subscription_id relayEvents =
        some g.relay := by
  have hstart : Follows build (Relay.init g₀.forwarder.forwarder_subscription_id) g₀.relay := by
    obtain ⟨fwd, hfwd, rfl⟩ := Option.map_eq_some_iff.mp hcreate
    obtain ⟨hub', -, rfl⟩ := Option.map_eq_some_iff.mp hfwd
    exact ⟨[], rfl⟩
  exact Runs.invariant_of
    (fun g => Sound cfg g ∧ Follows build (Relay.init g₀.forwarder.forwarder_subscription_id)
      g.relay)
    (fun g ev => ev.Regular cfg g) ⟨sound_create hhub hbefore hcreate, hstart⟩
    (fun _ _ _ h hev hstep => ⟨h.1.step hev hstep, h.2.trans (follows_step hstep hev)⟩)
      hregular hrun

end Gateway

end UActor
