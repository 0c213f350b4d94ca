import UActor.Remote.Forwarder
import UActor.Runtime.Blocking
import UActor.Runtime.Mapping

/-!
# The subscriptions of a component itself

An executor and a forwarder share one receiver with those that use them, and count their users for
each id. The subscriptions that they make for themselves are not counted.
-/

namespace UActor

/-! ## A shared receiver -/

/-- The receiver of a component and the users behind each of its subscriptions. -/
structure Shared where
  hub : Hub
  handle : Nat
  subscription_mapping : List (Nat × List UInt32)

namespace Shared

variable (board : Board)

/-- Calls of the users. Other receivers use the router at any time, and it gets to know nodes. -/
inductive Call where
  | add (local_id : UInt32) (f : Filter) (subscriber : ActorIdentifier)
      (node_id : String) (arguments : SubscriptionArguments)
  | remove (local_id : UInt32) (sub_id : Nat)
  | others (ev : Hub.Event)
  | intern (node : String)

def step (s : Shared) : Call → Option Shared
  | .add local_id f subscriber node_id arguments =>
    let subscribed := s.hub.subscribe board s.handle f subscriber node_id arguments
    some ⟨subscribed.1, s.handle, Multimap.insert subscribed.2 local_id s.subscription_mapping⟩
  | .remove local_id sub_id =>
    let removed := Multimap.remove sub_id local_id s.subscription_mapping
    some ⟨if removed.2 then s.hub.unsubscribe board s.handle sub_id "" else s.hub, s.handle,
      removed.1⟩
  | .others ev =>
    if ev.receiver = s.handle then none
    else (s.hub.step board ev).map fun hub => { s with hub := hub }
  | .intern node => some { s with hub := { s.hub with router := (s.hub.router.internNode node).1 } }

/-- The component has the receiver at this id. -/
def Holds (s : Shared) (own : Nat) : Prop := s.hub.router.Registered own s.handle

/-- A user leaves the id as the last one, and the receiver leaves with it. -/
def GivesUp (s : Shared) (own : Nat) : Call → Prop
  | .remove local_id sub_id => sub_id = own ∧
      local_id ∈ Multimap.members own s.subscription_mapping ∧
      (∀ other ∈ Multimap.members own s.subscription_mapping, other = local_id) ∧
      s.hub.router.RemovesAll own s.handle
  | .add .. | .others _ | .intern _ => False

structure Inv (s : Shared) : Prop where
  hub : Hub.Inv board s.hub
  full : Multimap.Full s.subscription_mapping

section

variable {board} {s s' : Shared} {c : Call}

theorem Inv.step (h : Inv board s) (hstep : s.step board c = some s') : Inv board s' := by
  cases c with
  | add l f who node_id args =>
    rw [← Option.some.inj hstep]
    exact ⟨h.hub.subscribe .., h.full.insert _ _⟩
  | remove l sub_id =>
    rw [← Option.some.inj hstep]
    refine ⟨?_, h.full.remove _ _⟩
    dsimp only
    split
    · exact h.hub.unsubscribe ..
    · exact h.hub
  | others ev =>
    simp only [Shared.step] at hstep
    split at hstep
    · cases hstep
    · obtain ⟨hub, hhub, rfl⟩ := Option.map_eq_some_iff.mp hstep
      exact ⟨h.hub.step hhub, h.full⟩
  | intern node =>
    rw [← Option.some.inj hstep]
    exact ⟨⟨h.hub.router.internNode node, h.hub.nodup⟩, h.full⟩

theorem Inv.holds_iff (h : Inv board s) (own : Nat) :
    s.Holds own ↔ s.hub.router.nodesAt own s.handle ≠ [] :=
  Router.registered_iff h.hub.router.subs own s.handle

theorem nodes_subscribe {hub : Hub} (h : Hub.Inv board hub) {handle own : Nat}
    (hown : hub.router.nodesAt own handle ≠ [])
    (f : Filter) (who : ActorIdentifier) (node_id : String) (args : SubscriptionArguments) :
    (hub.subscribe board handle f who node_id args).1.router.nodesAt own handle ≠ [] := by
  refine (Router.nodesAt_add h.router.subs board f handle who node_id args own handle).symm ▸ ?_
  split
  · exact List.ne_nil_of_mem ((Subscription.mem_emplace _ _ _).mpr (Or.inr rfl))
  · exact hown

/-- Only the last user of the id makes the component lose it. -/
theorem holds_step (h : Inv board s) {own : Nat} (hown : s.Holds own)
    (hstep : s.step board c = some s') :
    s'.Holds own ↔ ¬ s.GivesUp own c := by
  have hinv := h.step hstep
  rw [h.holds_iff] at hown
  rw [hinv.holds_iff]
  cases c with
  | add l f who node_id args =>
    rw [← Option.some.inj hstep]
    exact iff_of_true (nodes_subscribe h.hub hown f who node_id args) not_false
  | remove l sub_id =>
    rw [← Option.some.inj hstep]
    have hnodes := Router.nodesAt_remove_all h.hub.router sub_id s.handle own s.handle
    unfold GivesUp
    dsimp only
    by_cases hsub : sub_id = own
    · subst hsub
      rw [if_pos ⟨rfl, rfl⟩] at hnodes
      by_cases hlast : (Multimap.remove sub_id l s.subscription_mapping).2 = true
      · rw [if_pos hlast]
        refine (not_congr ((iff_of_eq (congrArg (· = []) hnodes)).trans
          (Router.left_eq_nil h.hub.router))).trans ?_
        obtain ⟨hmem, hall⟩ := (Multimap.remove_eq_true h.full).mp hlast
        exact not_congr ⟨fun hall' => ⟨rfl, hmem, hall, hall'⟩, fun hand => hand.2.2.2⟩
      · rw [if_neg hlast]
        refine iff_of_true hown ?_
        rintro ⟨-, hmem, hall, -⟩
        exact hlast ((Multimap.remove_eq_true h.full).mpr ⟨hmem, hall⟩)
    · rw [if_neg fun hand => hsub hand.1] at hnodes
      refine iff_of_true ?_ fun hand => hsub hand.1
      split
      · exact hnodes.symm ▸ hown
      · exact hown
  | others ev =>
    simp only [Shared.step] at hstep
    split at hstep
    · cases hstep
    · rename_i hne
      obtain ⟨hub, hhub, rfl⟩ := Option.map_eq_some_iff.mp hstep
      refine iff_of_true ?_ not_false
      rw [Hub.nodesAt_other h.hub hhub hne own]
      exact hown
  | intern node =>
    rw [← Option.some.inj hstep]
    refine iff_of_true ?_ not_false
    exact (Router.nodesAt_internNode s.hub.router node own s.handle).symm ▸ hown

theorem holds_subscribe {hub : Hub} (h : Hub.Inv board hub) (handle : Nat) (f : Filter)
    (who : ActorIdentifier) (node_id : String) :
    (hub.subscribe board handle f who node_id .default).1.router.nodesAt
      (hub.subscribe board handle f who node_id .default).2 handle ≠ [] := by
  have hnodes := Router.nodesAt_add h.router.subs board f handle who node_id .default
    (hub.subscribe board handle f who node_id .default).2 handle
  rw [if_pos ⟨by decide, rfl, rfl⟩] at hnodes
  refine hnodes.symm ▸ ?_
  exact List.ne_nil_of_mem ((Subscription.mem_emplace _ _ _).mpr (Or.inr rfl))

end

end Shared

/-! ## The executor -/

namespace Executor

def shared (e : Executor) : Shared := ⟨e.hub, e.router_handle, e.subscription_mapping⟩

/-- Calls on the subscriptions of an executor. Actors come and go, other receivers use the router,
and it gets to know nodes. -/
inductive SubscriptionCall where
  | add (local_id : UInt32) (f : Filter) (arguments : SubscriptionArguments)
  | remove (local_id : UInt32) (sub_id : Nat)
  | actors (actors : List (UInt32 × ManagedActor))
  | others (ev : Hub.Event)
  | intern (node : String)

def subscriptionStep (cfg : ExecutorSettings) (e : Executor) : SubscriptionCall → Option Executor
  | .add local_id f arguments => some (e.addSubscription cfg local_id f arguments).1
  | .remove local_id sub_id => some (e.removeSubscription cfg local_id sub_id)
  | .actors actors => some { e with actors := actors }
  | .others ev =>
    if ev.receiver = e.router_handle then none
    else (e.hub.step cfg.board ev).map fun hub => { e with hub := hub }
  | .intern node => some { e with hub := { e.hub with router := (e.hub.router.internNode node).1 } }

/-- The executor is still subscribed to what spawns actors. -/
def KeepsOwn (e : Executor) : Prop := e.hub.router.Registered e.executor_subscription_id
    e.router_handle

/-- An actor leaves the subscription of the executor as the last one that shares it. -/
def GivesUpOwn (e : Executor) : SubscriptionCall → Prop
  | .remove local_id sub_id => e.shared.GivesUp e.executor_subscription_id (.remove local_id sub_id)
  | .add .. | .actors _ | .others _ | .intern _ => False

section

variable {cfg : ExecutorSettings} {e e' : Executor} {c : SubscriptionCall}

theorem shared_step (h : e.subscriptionStep cfg c = some e') :
    e'.executor_subscription_id = e.executor_subscription_id ∧
    ((e'.shared = e.shared ∧ ¬ e.GivesUpOwn c) ∨
      ∃ c', e.shared.step cfg.board c' = some e'.shared ∧
        (e.GivesUpOwn c ↔ e.shared.GivesUp e.executor_subscription_id c')) := by
  cases c with
  | add l f args =>
    rw [← Option.some.inj h]
    unfold addSubscription
    split
    · exact ⟨rfl, Or.inl ⟨rfl, not_false⟩⟩
    · rename_i actor hfind
      exact ⟨rfl, Or.inr ⟨.add l f actor.identifier cfg.identifier.node_id args, rfl, Iff.rfl⟩⟩
  | remove l sub_id =>
    rw [← Option.some.inj h]
    exact ⟨rfl, Or.inr ⟨.remove l sub_id, rfl, Iff.rfl⟩⟩
  | actors actors =>
    rw [← Option.some.inj h]
    exact ⟨rfl, Or.inl ⟨rfl, not_false⟩⟩
  | others ev =>
    simp only [subscriptionStep] at h
    split at h
    · cases h
    · rename_i hne
      obtain ⟨hub, hhub, rfl⟩ := Option.map_eq_some_iff.mp h
      refine ⟨rfl, Or.inr ⟨.others ev, ?_, Iff.rfl⟩⟩
      have hne : ¬ ev.receiver = e.shared.handle := hne
      have hhub : e.shared.hub.step cfg.board ev = some hub := hhub
      simp only [Shared.step, if_neg hne, hhub, Option.map_some]
      rfl
  | intern node =>
    rw [← Option.some.inj h]
    exact ⟨rfl, Or.inr ⟨.intern node, rfl, Iff.rfl⟩⟩

theorem keepsOwn_step (hinv : Shared.Inv cfg.board e.shared) (hown : e.KeepsOwn)
    (h : e.subscriptionStep cfg c = some e') :
    e'.KeepsOwn ↔ ¬ e.GivesUpOwn c := by
  obtain ⟨hid, hcase⟩ := shared_step h
  have heq : e'.KeepsOwn ↔ e'.shared.Holds e.executor_subscription_id := by
    unfold KeepsOwn
    rw [hid]
    exact Iff.rfl
  rw [heq]
  rcases hcase with ⟨hsame, hnot⟩ | ⟨c', hstep, hgives⟩
  · rw [hsame]
    exact iff_of_true hown hnot
  · rw [hgives]
    exact Shared.holds_step hinv hown hstep

theorem sharedInv_step (hinv : Shared.Inv cfg.board e.shared)
    (h : e.subscriptionStep cfg c = some e') :
    Shared.Inv cfg.board e'.shared := by
  rcases (shared_step h).2 with ⟨hsame, -⟩ | ⟨c', hstep, -⟩
  · rw [hsame]
    exact hinv
  · exact hinv.step hstep

theorem keepsOwn_create {hub : Hub} {handle : Nat} (hhub : Hub.Inv cfg.board hub)
    (h : create cfg hub handle = some e) :
    Shared.Inv cfg.board e.shared ∧ e.KeepsOwn := by
  obtain ⟨hub', hstep, rfl⟩ := Option.map_eq_some_iff.mp h
  have hinv := hhub.step hstep
  refine ⟨⟨hinv.subscribe .., by simp [Multimap.Full, shared]⟩, ?_⟩
  have hsub := (hinv.subscribe handle (addressOf cfg.identifier) cfg.identifier cfg.board.NODE_ID
    .default).router.subs
  exact (Router.registered_iff hsub _ _).mpr (Shared.holds_subscribe hinv handle _ _ _)

theorem keepsOwn_iff {hub : Hub} {handle : Nat} (hhub : Hub.Inv cfg.board hub)
    (h : create cfg hub handle = some e) (calls : List SubscriptionCall) :
    (∀ pre post s, calls = pre ++ post → pre.foldlM (subscriptionStep cfg) e = some s →
      s.KeepsOwn) ↔
      ∀ pre c post s, calls = pre ++ c :: post → pre.foldlM (subscriptionStep cfg) e = some s →
      ¬ s.GivesUpOwn c := by
  obtain ⟨hinv, hown⟩ := keepsOwn_create hhub h
  refine Runs.always_iff (fun e => Shared.Inv cfg.board e.shared) KeepsOwn
    (fun e c => ¬ e.GivesUpOwn c) hinv hown (fun _ _ _ hinv hstep => sharedInv_step hinv hstep)
      (fun _ _ _ hinv hown hstep => keepsOwn_step hinv hown hstep) ?_
  intro s c _ _ hnone
  cases c with
  | remove => cases hnone
  | add | actors | others | intern => exact not_false

end

end Executor

/-! ## The forwarder -/

namespace Forwarder

def shared (fwd : Forwarder) : Shared := ⟨fwd.hub, fwd.handle, fwd.subscription_mapping⟩

def subscriptionStep (cfg : ForwarderSettings) (fwd : Forwarder) : Shared.Call → Option Forwarder
  | .add local_id f subscriber node_id arguments =>
    some (fwd.addRemoteSubscription cfg local_id f node_id subscriber arguments).1
  | .remove local_id sub_id => some (fwd.removeSubscription cfg local_id sub_id)
  | .others ev =>
    if ev.receiver = fwd.handle then none
    else (fwd.hub.step cfg.board ev).map fun hub => { fwd with hub := hub }
  | .intern node => some { fwd with hub :=
      { fwd.hub with router := (fwd.hub.router.internNode node).1 } }

/-- The forwarder is still subscribed to what is sent to it, and to the announcements of peers. -/
def KeepsOwn (fwd : Forwarder) : Prop :=
  fwd.hub.router.Registered fwd.forwarder_subscription_id fwd.handle ∧
    fwd.hub.router.Registered fwd.peer_announcement_subscription_id fwd.handle

/-- A connection leaves one of the two as the last one that shares it. -/
def GivesUpOwn (fwd : Forwarder) (c : Shared.Call) : Prop :=
  fwd.shared.GivesUp fwd.forwarder_subscription_id c ∨
    fwd.shared.GivesUp fwd.peer_announcement_subscription_id c

section

variable {cfg : ForwarderSettings} {fwd fwd' : Forwarder} {c : Shared.Call}

theorem shared_step (h : fwd.subscriptionStep cfg c = some fwd') :
    fwd.shared.step cfg.board c = some fwd'.shared ∧
      fwd'.forwarder_subscription_id = fwd.forwarder_subscription_id ∧
      fwd'.peer_announcement_subscription_id = fwd.peer_announcement_subscription_id := by
  cases c with
  | add | remove | intern =>
    rw [← Option.some.inj h]
    exact ⟨rfl, rfl, rfl⟩
  | others ev =>
    simp only [subscriptionStep] at h
    split at h
    · cases h
    · rename_i hne
      obtain ⟨hub, hhub, rfl⟩ := Option.map_eq_some_iff.mp h
      have hne : ¬ ev.receiver = fwd.shared.handle := hne
      have hhub : fwd.shared.hub.step cfg.board ev = some hub := hhub
      refine ⟨?_, rfl, rfl⟩
      simp only [Shared.step, if_neg hne, hhub, Option.map_some]
      rfl

theorem keepsOwn_step (hinv : Shared.Inv cfg.board fwd.shared) (hown : fwd.KeepsOwn)
    (h : fwd.subscriptionStep cfg c = some fwd') : fwd'.KeepsOwn ↔ ¬ fwd.GivesUpOwn c := by
  obtain ⟨hstep, hforwarder, hannouncement⟩ := shared_step h
  unfold KeepsOwn GivesUpOwn
  rw [hforwarder, hannouncement, not_or]
  exact and_congr (Shared.holds_step hinv hown.1 hstep) (Shared.holds_step hinv hown.2 hstep)

theorem keepsOwn_create {hub : Hub} {handle : Nat} (hhub : Hub.Inv cfg.board hub)
    (h : create cfg hub handle = some fwd) :
    Shared.Inv cfg.board fwd.shared ∧ fwd.KeepsOwn := by
  obtain ⟨hub', hstep, rfl⟩ := Option.map_eq_some_iff.mp h
  have hinv := hhub.step hstep
  refine ⟨⟨(hinv.subscribe ..).subscribe .., by simp [Multimap.Full, shared]⟩, ?_⟩
  generalize hfirst : hub'.subscribe cfg.board handle (primaryFilter cfg.board.NODE_ID)
    ⟨cfg.board.NODE_ID, "tcp_forwarder", "1"⟩ cfg.board.NODE_ID .default = forwarder
  have hforwarder : Hub.Inv cfg.board forwarder.1 := by
    rw [← hfirst]
    exact hinv.subscribe ..
  have hfirstNodes : forwarder.1.router.nodesAt forwarder.2 handle ≠ [] := by
    rw [← hfirst]
    exact Shared.holds_subscribe hinv handle _ _ _
  have hsub := (hforwarder.subscribe handle (connectionRequests cfg.board.NODE_ID)
    ⟨cfg.board.NODE_ID, "tcp_forwarder", "1"⟩ cfg.board.NODE_ID .default).router.subs
  unfold KeepsOwn
  dsimp only
  rw [hfirst]
  exact ⟨(Router.registered_iff hsub _ _).mpr (Shared.nodes_subscribe hforwarder hfirstNodes
    _ _ _ _), (Router.registered_iff hsub _ _).mpr (Shared.holds_subscribe hforwarder handle _ _ _)⟩

theorem keepsOwn_iff {hub : Hub} {handle : Nat} (hhub : Hub.Inv cfg.board hub)
    (h : create cfg hub handle = some fwd) (calls : List Shared.Call) :
    (∀ pre post s, calls = pre ++ post → pre.foldlM (subscriptionStep cfg) fwd = some s →
      s.KeepsOwn) ↔
      ∀ pre c post s, calls = pre ++ c :: post → pre.foldlM (subscriptionStep cfg) fwd = some s →
      ¬ s.GivesUpOwn c := by
  obtain ⟨hinv, hown⟩ := keepsOwn_create hhub h
  have hkeep : ∀ (fwd : Forwarder) (c : Shared.Call) (fwd' : Forwarder),
      Shared.Inv cfg.board fwd.shared →
      fwd.subscriptionStep cfg c = some fwd' → Shared.Inv cfg.board fwd'.shared := by
    intro fwd c fwd' hinv hstep
    exact hinv.step (shared_step hstep).1
  refine Runs.always_iff (fun fwd => Shared.Inv cfg.board fwd.shared) KeepsOwn
    (fun fwd c => ¬ fwd.GivesUpOwn c) hinv hown hkeep
    (fun _ _ _ hinv hown hstep => keepsOwn_step hinv hown hstep) ?_
  intro s c _ _ hnone
  cases c with
  | add | remove | intern => cases hnone
  | others =>
    rintro (h | h)
    · exact h
    · exact h

end

end Forwarder

/-! ## Both -/

/-- An executor and a forwarder keep their own subscriptions through all calls of their users if and
only if no user leaves one of them as the last one that shares it. -/
theorem own_subscriptions_kept_iff (ecfg : ExecutorSettings) (fcfg : ForwarderSettings)
    (setup : List Hub.Event) (hub : Hub) (handle : Nat) :
    (∀ (init : Executor) (calls : List Executor.SubscriptionCall),
      Hub.run ecfg.board setup = some hub → Executor.create ecfg hub handle = some init →
      ((∀ pre post e, calls = pre ++ post →
        pre.foldlM (Executor.subscriptionStep ecfg) init = some e → e.KeepsOwn) ↔
        ∀ pre c post e, calls = pre ++ c :: post → pre.foldlM (Executor.subscriptionStep ecfg)
          init = some e →
          ¬ e.GivesUpOwn c)) ∧
    ∀ (init : Forwarder) (calls : List Shared.Call),
      Hub.run fcfg.board setup = some hub → Forwarder.create fcfg hub handle = some init →
      ((∀ pre post fwd, calls = pre ++ post →
        pre.foldlM (Forwarder.subscriptionStep fcfg) init = some fwd →
          fwd.KeepsOwn) ↔
        ∀ pre c post fwd, calls = pre ++ c :: post → pre.foldlM (Forwarder.subscriptionStep fcfg)
          init = some fwd →
          ¬ fwd.GivesUpOwn c) := by
  have hinv : ∀ {board : Board} {setup : List Hub.Event} {hub : Hub}, Hub.run board setup =
      some hub →
    Hub.Inv board hub :=
    fun hrun => Runs.invariant (Hub.Inv _) (Hub.inv_init _) (fun _ _ _ h hstep => h.step hstep) hrun
  constructor
  · intro init calls hsetup hcreate
    exact Executor.keepsOwn_iff (hinv hsetup) hcreate calls
  · intro init calls hsetup hcreate
    exact Forwarder.keepsOwn_iff (hinv hsetup) hcreate calls

/-- The names of a node with a forwarder. -/
def nodeSettings : ForwarderSettings := ⟨⟨"node", 3⟩, .plain, false⟩

/-- An actor of the executor that no message concerns. -/
def idleActor : UInt32 × ManagedActor := (1, ManagedActor.create 1 ⟨"node", "idle", "1"⟩ "1")

/-- A user with a subscription of its own. -/
theorem own_subscriptions_kept_other :
    (∃ init, Executor.create Executor.luaSettings (Hub.init ⟨"node", 3⟩) 1 = some init ∧
      ∀ pre post e, [.actors [idleActor], .add 1 Executor.fooBar .default, .remove 1 12] =
        pre ++ post →
        pre.foldlM (Executor.subscriptionStep Executor.luaSettings) init = some e → e.KeepsOwn) ∧
    ∃ init, Forwarder.create nodeSettings (Hub.init ⟨"node", 3⟩) 1 = some init ∧
      ∀ pre post fwd, [.add 0 Executor.fooBar ⟨"peer", "any", "1"⟩ "peer" .default, .remove 0 13] =
        pre ++ post →
        pre.foldlM (Forwarder.subscriptionStep nodeSettings) init = some fwd → fwd.KeepsOwn := by
  constructor
  · refine ⟨_, rfl, ((own_subscriptions_kept_iff _ nodeSettings [] _ _).1 _ _ rfl rfl).mpr ?_⟩
    refine Runs.meets_cons rfl not_false
      (Runs.meets_cons rfl not_false (Runs.meets_cons rfl ?_ Runs.meets_nil))
    exact fun h => absurd h.1 (by decide)
  · refine ⟨_, rfl, ((own_subscriptions_kept_iff Executor.luaSettings _ [] _ _).2 _ _ rfl rfl).mpr
      ?_⟩
    refine Runs.meets_cons rfl ?_ (Runs.meets_cons rfl ?_ Runs.meets_nil)
    · exact fun h => h.elim id id
    · exact fun h => h.elim (fun h => absurd h.1 (by decide)) fun h => absurd h.1 (by decide)

/-- An actor subscribes to what is sent to the executor, and unsubscribes. -/
def asExecutor : List Executor.SubscriptionCall :=
  [.actors [idleActor], .add 1 (Executor.addressOf Executor.luaSettings.identifier) .default,
    .remove 1 11]

/-- A peer subscribes to what is sent to the forwarder, and unsubscribes. -/
def asForwarder : List Shared.Call :=
  [.add 0 (Forwarder.primaryFilter "node") ⟨"peer", "any", "1"⟩ "peer" .default, .remove 0 11]

/-- The same in a run of the executor. -/
def actsAsExecutor : List Executor.Event :=
  [.deliver 11 (Executor.spawnMessage "any") (Executor.receiving []) 0,
    .process (Executor.receiving [.subscribe (Executor.addressOf Executor.luaSettings.identifier)
      .default, .unsubscribe 11]) 0]

theorem own_subscriptions_lost :
    (∃ init e, Executor.create Executor.luaSettings (Hub.init ⟨"node", 3⟩) 1 = some init ∧
      asExecutor.foldlM (Executor.subscriptionStep Executor.luaSettings) init = some e ∧
      ¬ e.KeepsOwn) ∧
    (∃ init fwd, Forwarder.create nodeSettings (Hub.init ⟨"node", 3⟩) 1 = some init ∧
      asForwarder.foldlM (Forwarder.subscriptionStep nodeSettings) init = some fwd ∧
      ¬ fwd.KeepsOwn) ∧
    ∃ e, Executor.run Executor.luaSettings (Hub.init ⟨"node", 3⟩) 1 actsAsExecutor = some e ∧
    ¬ e.KeepsOwn := by
  refine ⟨⟨_, _, rfl, rfl, ?_⟩, ⟨_, _, rfl, rfl, ?_⟩, _, rfl, ?_⟩
  · unfold Executor.KeepsOwn Router.Registered
    decide
  · unfold Forwarder.KeepsOwn Router.Registered
    decide
  · unfold Executor.KeepsOwn Router.Registered
    decide

end UActor
