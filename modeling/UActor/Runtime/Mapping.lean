import UActor.Runtime.Scheduling

/-!
# Subscriptions of actors

Three tables say who subscribes to what: the set of each actor, the mapping of the executor and the
receivers of the router.
-/

namespace UActor

namespace Executor

variable {cfg : ExecutorSettings} {e e' : Executor} {subs : UInt32 → List Nat}

/-- The sets of the actors, the mapping and the router agree. -/
structure Maps (cfg : ExecutorSettings) (subs : UInt32 → List Nat) (e : Executor) : Prop where
  hub : Hub.Inv cfg.board e.hub
  full : Multimap.Full e.subscription_mapping
  agrees : ∀ id sub_id, sub_id ≠ 0 → (id ∈ Multimap.members sub_id e.subscription_mapping ↔
    sub_id ∈ subs id)
  registered : ∀ sub_id, 11 ≤ sub_id → Multimap.members sub_id e.subscription_mapping ≠ [] →
    e.hub.router.nodesAt sub_id e.router_handle ≠ []

def subscriptionsOf (e : Executor) (id : UInt32) : List Nat :=
  ((Assoc.find id e.actors).map ManagedActor.subscriptions).getD []

/-- The actor that runs counts with its own set. -/
def runningSubs (s : Frame) (id : UInt32) : List Nat :=
  if id = s.1.id then s.1.subscriptions else s.2.subscriptionsOf id

namespace Maps

theorem congr {subs' : UInt32 → List Nat} (h : Maps cfg subs e)
    (hsubs : ∀ id sub_id, sub_id ≠ 0 → (sub_id ∈ subs' id ↔ sub_id ∈ subs id))
    (hhub : e'.hub = e.hub) (hhandle : e'.router_handle = e.router_handle)
    (hmapping : e'.subscription_mapping = e.subscription_mapping) :
    Maps cfg subs' e' := by
  refine ⟨by rw [hhub]; exact h.hub, by rw [hmapping]; exact h.full, fun id sub_id hne => ?_, ?_⟩
  · rw [hmapping, hsubs id sub_id hne]
    exact h.agrees id sub_id hne
  · rw [hmapping, hhub, hhandle]
    exact h.registered

/-! ## The two calls -/

theorem addSubscription (h : Maps cfg subs e) (id : UInt32) (f : Filter)
    (args : SubscriptionArguments) :
    Maps cfg
      (fun i =>
        if i = id then Multimap.insertInto (e.addSubscription cfg id f args).2 (subs id)
        else subs i)
      (e.addSubscription cfg id f args).1 := by
  unfold Executor.addSubscription
  split
  · refine h.congr (fun i sub_id hne => ?_) rfl rfl rfl
    dsimp only
    split
    · rename_i hi
      subst hi
      rw [Multimap.mem_insertInto]
      exact or_iff_right hne
    · exact Iff.rfl
  · rename_i actor hfind
    have hsubs := h.hub.router.subs
    have hnodes := Router.nodesAt_add hsubs cfg.board f e.router_handle actor.identifier
      cfg.identifier.node_id args
    refine ⟨h.hub.subscribe .., h.full.insert _ _, fun i sub_id hne =>
      ?_, fun sub_id hle hmembers => ?_⟩
    · rw [Multimap.mem_members_insert, h.agrees i sub_id hne]
      dsimp only
      by_cases hi : i = id
      · subst hi
        rw [if_pos rfl, Multimap.mem_insertInto]
        simp [eq_comm]
      · rw [if_neg hi]
        simp [hi]
    · refine (hnodes sub_id e.router_handle).symm ▸ ?_
      split
      · exact List.ne_nil_of_mem ((Subscription.mem_emplace _ _ _).mpr (Or.inr rfl))
      · -- the subscription has a new member only if it is kept
        rename_i hother
        rw [Multimap.members_insert] at hmembers
        split at hmembers
        · rename_i hsame
          refine absurd ⟨fun hfetch => ?_, hsame, rfl⟩ hother
          have hone : sub_id = 1 := hsame.symm.trans (Router.add_fetch cfg.board _ f _ _ _ hfetch)
          omega
        · exact h.registered sub_id hle hmembers

theorem removeSubscription (h : Maps cfg subs e) (id : UInt32) (sub_id : Nat) :
    Maps cfg (fun i => if i = id then (subs id).filter (fun x => x ≠ sub_id) else subs i)
      (e.removeSubscription cfg id sub_id) := by
  unfold Executor.removeSubscription
  refine ⟨?_, h.full.remove _ _, fun i sub_id' hne => ?_, fun sub_id' hle hmembers => ?_⟩
  · dsimp only
    split
    · exact h.hub.unsubscribe ..
    · exact h.hub
  · rw [Multimap.mem_members_remove, h.agrees i sub_id' hne]
    by_cases hi : i = id
    · subst hi
      rw [if_pos rfl, List.mem_filter, eq_comm (a := sub_id)]
      simp
    · rw [if_neg hi]
      simp [hi]
  · have hbefore : Multimap.members sub_id' e.subscription_mapping ≠ [] := by
      intro hnil
      obtain ⟨x, hx⟩ := List.exists_mem_of_ne_nil _ hmembers
      have := (Multimap.mem_members_remove.mp hx).1
      rw [hnil] at this
      simp at this
    dsimp only
    split
    · -- only the subscription without members is given up
      rename_i hempty
      have hgone := (Multimap.remove_emptied.mp hempty).2
      have hother : sub_id ≠ sub_id' := by
        rintro rfl
        exact hmembers hgone
      have hnodes := Router.nodesAt_remove h.hub.router.subs cfg.board sub_id e.router_handle ""
        sub_id' e.router_handle
      rw [if_neg fun hand => hother hand.1] at hnodes
      refine hnodes.symm ▸ ?_
      exact h.registered sub_id' hle hbefore
    · exact h.registered sub_id' hle hbefore

theorem release {actor : ManagedActor} (h : Maps cfg subs e)
    (hsubs : subs actor.id = actor.subscriptions) :
    Maps cfg (fun i => if i = actor.id then [] else subs i) (e.release cfg actor) := by
  have hloop : ∀ (l : List Nat) (subs : UInt32 → List Nat) (e : Executor), Maps cfg subs e →
      Maps cfg (fun i => if i = actor.id then (subs actor.id).filter (fun x => x ∉ l) else subs i)
        (l.foldl (fun e sub_id => e.removeSubscription cfg actor.id sub_id) e) := by
    intro l
    induction l with
    | nil =>
      intro subs e h
      refine h.congr (fun i sub_id _ => ?_) rfl rfl rfl
      split
      · rename_i hi
        simp [hi]
      · exact Iff.rfl
    | cons sub_id l ih =>
      intro subs e h
      refine (ih _ _ (h.removeSubscription actor.id sub_id)).congr (fun i sub_id' _ => ?_)
        rfl rfl rfl
      by_cases hi : i = actor.id
      · simp [hi, and_comm]
      · simp [hi]
  refine (hloop actor.subscriptions subs e h).congr (fun i sub_id _ => ?_) rfl rfl rfl
  split
  · rw [hsubs]
    simp
  · exact Iff.rfl

end Maps

/-! ## Actors that run -/

/-- The tables agree while an actor runs. -/
def MapsRunning (cfg : ExecutorSettings) (s : Frame) : Prop := Maps cfg (runningSubs s) s.2

theorem keeps_maps : Keeps cfg (MapsRunning cfg) where
  call s c h := by
    have hframes := (call_frames cfg s c).1
    have hsubscribe : ∀ f args, MapsRunning cfg (subscribe cfg s f args) := by
      intro f args
      refine (Maps.addSubscription h s.1.id f args).congr (fun i sub_id _ => ?_) rfl rfl rfl
      unfold runningSubs subscriptionsOf
      rw [(subscribe_frames cfg s f args).actors, (subscribe_frames cfg s f args).id, if_pos rfl]
      split
      · exact Iff.rfl
      · exact Iff.rfl
    have hsame : (call cfg s c).1.subscriptions = s.1.subscriptions →
        (call cfg s c).2.hub = s.2.hub →
        (call cfg s c).2.subscription_mapping = s.2.subscription_mapping →
        MapsRunning cfg (call cfg s c) := by
      intro hsubs hhub hmapping
      refine Maps.congr h (fun i sub_id _ => ?_) hhub hframes.router_handle hmapping
      unfold runningSubs subscriptionsOf
      rw [hframes.actors, hframes.id, hsubs]
    cases c with
    | subscribe f args => exact hsubscribe f args
    | addReplySubscription => exact hsubscribe _ _
    | unsubscribe sub_id =>
      refine (Maps.removeSubscription h s.1.id sub_id).congr (fun i sub_id' _ => ?_) rfl rfl rfl
      by_cases hi : i = s.1.id
      · subst hi
        simp [call, runningSubs]
      · simp [call, runningSubs, hi, subscriptionsOf, Executor.removeSubscription]
    | defferedBlockFor | triggerCodeFetch | publish | republish | delayedPublish | enqueueWakeup =>
      exact hsame rfl rfl rfl
  same := by
    intro s s' h hsame
    refine Maps.congr h (fun i sub_id _ => ?_) hsame.hub hsame.router_handle
      hsame.subscription_mapping
    unfold runningSubs subscriptionsOf
    rw [hsame.actors, hsame.id, hsame.subscriptions]

/-! ## The loop -/

/-- The tables agree between two steps. -/
def MapsAll (cfg : ExecutorSettings) (e : Executor) : Prop := Maps cfg e.subscriptionsOf e

namespace MapsAll

theorem congr (h : MapsAll cfg e) (hactors : e'.actors = e.actors) (hhub : e'.hub = e.hub)
    (hhandle : e'.router_handle = e.router_handle)
    (hmapping : e'.subscription_mapping = e.subscription_mapping) :
    MapsAll cfg e' := by
  refine Maps.congr h (fun id sub_id _ => ?_) hhub hhandle hmapping
  unfold subscriptionsOf
  rw [hactors]

theorem setActor (h : MapsAll cfg e) {id : UInt32} {actor actor' : ManagedActor}
    (hfind : Assoc.find id e.actors = some actor)
    (hsubs : actor'.subscriptions = actor.subscriptions) :
    MapsAll cfg (e.setActor id actor') := by
  refine Maps.congr h (fun id' sub_id _ => ?_) rfl rfl rfl
  unfold subscriptionsOf Executor.setActor
  rw [Assoc.find_put]
  split
  · rename_i heq
    rw [← heq, hfind, Option.map_some, Option.map_some, hsubs]
  · exact Iff.rfl

theorem pushReady (h : MapsAll cfg e) (id : UInt32) : MapsAll cfg (e.pushReady id) := by
  unfold Executor.pushReady
  split
  · exact h
  · exact h.congr rfl rfl rfl rfl

theorem offer (h : MapsAll cfg e) {id : UInt32} {actor : ManagedActor}
    (hfind : Assoc.find id e.actors = some actor) (p : Publication) :
    MapsAll cfg (e.offer id actor p) := by
  obtain ⟨queue, -, heq⟩ := actor.enqueue_eq p
  have hset : MapsAll cfg (e.setActor id (actor.enqueue p).1) := h.setActor hfind (by rw [heq])
  unfold Executor.offer
  dsimp only
  split
  · exact (hset.pushReady id).congr rfl rfl rfl rfl
  · exact hset

theorem offerAll (h : MapsAll cfg e) (p : Publication) (count : Nat) (ids : List UInt32) :
    MapsAll cfg (Executor.offerAll p count ids e) := by
  induction ids generalizing e count with
  | nil => exact h
  | cons id ids ih =>
    unfold Executor.offerAll
    split
    · exact ih h count
    · rename_i actor hfind
      exact ih (h.offer hfind _) (count - 1)

theorem flush (h : MapsAll cfg e) (now : UInt32) : MapsAll cfg (e.flush now) := by
  unfold Executor.flush
  split
  · exact h
  · split
    · exact h.congr rfl rfl rfl rfl
    · exact h

theorem expire (h : MapsAll cfg e) (start : UInt32) : MapsAll cfg (e.expire start) := by
  unfold Executor.expire
  split
  · exact h
  · rename_i t rest _
    have hrest : MapsAll cfg { e with timeouts := rest } := h.congr rfl rfl rfl rfl
    split
    · dsimp only
      split
      · exact hrest
      · rename_i actor hfind
        have hset : MapsAll cfg (Executor.setActor { e with timeouts := rest } t.actor_id
            (actor.triggerTimeout t.user_defined t.trigger_id)) := hrest.setActor hfind rfl
        exact hset.pushReady _
    · exact h

theorem overwrite (h : MapsAll cfg e) (id : UInt32) (i : Nat) (p : Publication) :
    MapsAll cfg (e.overwrite id i p) := by
  unfold Executor.overwrite
  split
  · exact h
  · rename_i actor hfind
    exact h.setActor hfind rfl

theorem of_running {s : Frame} (h : MapsRunning cfg s) : MapsAll cfg (s.2.setActor s.1.id s.1) := by
  refine Maps.congr h (fun id sub_id _ => ?_) rfl rfl rfl
  unfold runningSubs subscriptionsOf Executor.setActor
  rw [Assoc.find_put]
  by_cases hid : s.1.id = id
  · subst hid
    simp
  · rw [if_neg hid, if_neg (Ne.symm hid)]

theorem running {actor : ManagedActor} (h : MapsAll cfg e)
    (hfind : Assoc.find actor.id e.actors = some actor) :
    MapsRunning cfg (actor, e) := by
  refine Maps.congr h (fun id sub_id _ => ?_) rfl rfl rfl
  unfold runningSubs subscriptionsOf
  split
  · rename_i hid
    rw [hid, hfind]
    simp
  · exact Iff.rfl

theorem running_create (h : MapsAll cfg e) {id : UInt32} (hfree : Assoc.find id e.actors = none)
    (who : ActorIdentifier) (actor_version : String) :
    MapsRunning cfg (ManagedActor.create id who actor_version, e) := by
  refine Maps.congr h (fun id' sub_id _ => ?_) rfl rfl rfl
  unfold runningSubs subscriptionsOf
  split
  · rename_i hid
    have hid : id' = id := hid
    rw [hid, hfree]
    simp [ManagedActor.create]
  · exact Iff.rfl

theorem startActor {s : Frame} (h : MapsRunning cfg s) (b : Behaviour) (now : UInt32) :
    MapsAll cfg (startActor cfg s b now) := by
  have hreply : MapsRunning cfg (if cfg.reply_sub_optional then s else call cfg
      s .addReplySubscription) := by
    split
    · exact h
    · exact keeps_maps.call s .addReplySubscription h
  unfold Executor.startActor
  dsimp only
  generalize (if cfg.reply_sub_optional then s else call cfg s .addReplySubscription) = s₁ at hreply
  have hcreated : MapsRunning cfg (s₁.1, s₁.2.publish s₁.1.creationMessage) :=
    keeps_maps.same hreply ⟨rfl, rfl, rfl, rfl, rfl, rfl⟩
  have hearly := keeps_maps.perform hcreated b.early.calls
  generalize perform cfg (s₁.1, s₁.2.publish s₁.1.creationMessage) b.early.calls = s₂ at hearly
  obtain ⟨queue, -, heq⟩ := ManagedActor.enqueue_eq
    { s₂.1 with initialized := decide (b.early.result = .OK) } (initMessage cfg)
  rw [heq]
  have hinit : MapsRunning cfg
      ({ s₂.1 with initialized := decide (b.early.result = .OK), message_queue := queue }, s₂.2) :=
    keeps_maps.same hearly ⟨rfl, rfl, rfl, rfl, rfl, rfl⟩
  have hlast := MapsAll.of_running hinit
  split
  · exact hlast.congr rfl rfl rfl rfl
  · exact hlast.congr rfl rfl rfl rfl

theorem addActorBase {p : Publication} {b : Behaviour} {now : UInt32} (h : MapsAll cfg e)
    (hadd : e.addActorBase cfg p b now = some e') : MapsAll cfg e' := by
  unfold Executor.addActorBase at hadd
  split at hadd
  · rename_i node_id actor_type actor_version instance_id _ _ _ _
    have hnext : MapsAll cfg { e with next_id := e.next_id + 1 } := h.congr rfl rfl rfl rfl
    dsimp only at hadd
    split at hadd
    · rw [← Option.some.inj hadd]
      exact hnext
    · rename_i hfree
      have hfree : Assoc.find e.next_id e.actors = none := by simpa using hfree
      have hconstruct := keeps_maps.perform
        (hnext.running_create hfree ⟨node_id, actor_type, instance_id⟩ actor_version)
        b.construct
      have hid := (perform_frames cfg
        (ManagedActor.create e.next_id ⟨node_id, actor_type, instance_id⟩ actor_version,
          { e with next_id := e.next_id + 1 })
        b.construct).1.id
      generalize perform cfg (ManagedActor.create e.next_id ⟨node_id, actor_type, instance_id⟩
        actor_version, { e with next_id := e.next_id + 1 }) b.construct = s at hadd hconstruct hid
      have hid : s.1.id = e.next_id := hid
      have hput := MapsAll.of_running hconstruct
      rw [hid] at hput
      rw [← Option.some.inj hadd]
      refine startActor (hput.running ?_) b now
      rw [hid]
      exact Assoc.find_put_self _ _ _
  · simp at hadd

theorem dispose {r : Received} (h : MapsRunning cfg r.frame) (now : UInt32) :
    MapsAll cfg (dispose cfg r.frame.1.id now r) := by
  unfold Executor.dispose
  split
  · have herase : Maps cfg (runningSubs r.frame)
        { r.frame.2 with actors := Assoc.erase r.frame.1.id r.frame.2.actors } :=
      Maps.congr h (fun _ _ _ => Iff.rfl) rfl rfl rfl
    have hown : runningSubs r.frame r.frame.1.id = r.frame.1.subscriptions := by simp [runningSubs]
    have hreleased := herase.release hown
    refine hreleased.congr (fun id sub_id _ => ?_) rfl rfl rfl
    unfold subscriptionsOf
    rw [(release_rest cfg { r.frame.2 with actors := Assoc.erase r.frame.1.id r.frame.2.actors }
      r.frame.1).1, Assoc.find_erase]
    by_cases hid : r.frame.1.id = id
    · simp [hid]
    · simp [hid, Ne.symm hid, runningSubs, subscriptionsOf]
  · have hset := MapsAll.of_running h
    dsimp only
    split
    · exact hset.congr rfl rfl rfl rfl
    · split
      · exact hset.congr rfl rfl rfl rfl
      · exact hset

theorem process {b : Behaviour} {now : UInt32} (h : MapsAll cfg e) (hids : Ready Any Any e)
    (hproc : e.process cfg b now = some e') : MapsAll cfg e' := by
  cases process_cases hproc with
  | idle => exact h
  | gone => exact h.congr rfl rfl rfl rfl
  | ran task rest actor p queue hd hready hfind hqueue hhandle =>
    obtain ⟨rfl, -⟩ := hids.every task actor hfind
    have hpop : MapsAll cfg { e with ready_queue := rest } := h.congr rfl rfl rfl rfl
    have hrunning : MapsRunning cfg (unblock actor queue, { e with ready_queue := rest }) :=
      keeps_maps.same (hpop.running hfind) ⟨rfl, rfl, rfl, rfl, rfl, rfl⟩
    have hspec := handle_spec hhandle
    have hhandled := hspec.kept keeps_maps hrunning
    have hfinished : MapsRunning cfg (finish p hd).frame :=
      keeps_maps.same hhandled (finish_sameSubs p hd)
    have hid := (hspec.frames.trans (finish_frames p hd).1).id
    have hdispose := dispose hfinished now
    rw [hid] at hdispose
    exact hdispose

theorem step {ev : Event} (h : MapsAll cfg e) (hids : Ready Any Any e)
    (hstep : e.step cfg ev = some e') :
    MapsAll cfg e' := by
  cases ev with
  | deliver sub_id p b now =>
    simp only [Executor.step, Executor.deliver] at hstep
    split at hstep
    · split at hstep
      · exact h.addActorBase hstep
      · simp at hstep
    · rw [← Option.some.inj hstep]
      exact h.offerAll p _ _
  | flush now =>
    rw [← Option.some.inj hstep]
    exact h.flush now
  | expire start =>
    rw [← Option.some.inj hstep]
    exact h.expire start
  | process b now => exact h.process hids hstep
  | others ev =>
    simp only [Executor.step] at hstep
    split at hstep
    · simp at hstep
    · rename_i hne
      obtain ⟨hub, hnext, rfl⟩ := Option.map_eq_some_iff.mp hstep
      refine ⟨h.hub.step hnext, h.full, h.agrees, fun sub_id hle hmembers => ?_⟩
      have hnodes := Hub.nodesAt_other h.hub hnext hne sub_id
      rw [hnodes]
      exact h.registered sub_id hle hmembers
  | overwrite id i p =>
    rw [← Option.some.inj hstep]
    exact h.overwrite id i p

end MapsAll

theorem maps_create {hub : Hub} {handle : Nat} (hhub : Hub.Inv cfg.board hub)
    (h : create cfg hub handle = some e) :
    MapsAll cfg e := by
  obtain ⟨hub', hstep, rfl⟩ := Option.map_eq_some_iff.mp h
  refine ⟨(hhub.step hstep).subscribe .., by simp [Multimap.Full], fun id sub_id _ => ?_, ?_⟩
  · simp [Multimap.members, subscriptionsOf, Assoc.find]
  · simp [Multimap.members, Assoc.find]

/-- In every state of an executor the sets of its actors, its mapping and the receivers of the
router agree. -/
theorem subscriptions_agree {cfg : ExecutorSettings} {before : List Hub.Event} {hub : Hub}
    {handle : Nat} {events : List Event} {e : Executor} (hhub : Hub.run cfg.board before = some hub)
    (hrun : run cfg hub handle events = some e) :
    (∀ sub_id, sub_id ≠ 0 → ∀ id, id ∈ Multimap.members sub_id e.subscription_mapping ↔
      ∃ actor, Assoc.find id e.actors = some actor ∧ sub_id ∈ actor.subscriptions) ∧
    (∀ entry ∈ e.subscription_mapping, entry.2 ≠ []) ∧
    (∀ sub_id ∈ Assoc.keys e.subscription_mapping, 11 ≤ sub_id →
      e.hub.router.Registered sub_id e.router_handle) ∧
    ∀ id actor sub_id, Assoc.find id e.actors = some actor → sub_id ∈ actor.subscriptions →
    11 ≤ sub_id →
      id ∈ Multimap.members sub_id e.subscription_mapping ∧
      e.hub.router.Registered sub_id e.router_handle := by
  obtain ⟨e₀, hcreate, hsteps⟩ := Option.bind_eq_some_iff.mp hrun
  have hinv : Hub.Inv cfg.board hub := Runs.invariant (Hub.Inv cfg.board) (Hub.inv_init cfg.board)
    (fun _ _ _ h hstep => h.step hstep) hhub
  have hboth : MapsAll cfg e ∧ Ready Any Any e :=
    Runs.invariant (fun e => MapsAll cfg e ∧ Ready Any Any e) ⟨maps_create hinv hcreate,
      (ready_create hcreate).1⟩ (fun _ _ _ h hstep => ⟨h.1.step h.2 hstep, h.2.any_step hstep⟩)
        hsteps
  obtain ⟨hmaps, -⟩ := hboth
  have hmem : ∀ sub_id id, sub_id ∈ e.subscriptionsOf id ↔
      ∃ actor, Assoc.find id e.actors = some actor ∧ sub_id ∈ actor.subscriptions := by
    intro sub_id id
    unfold subscriptionsOf
    cases Assoc.find id e.actors <;> simp
  have hregistered : ∀ sub_id, 11 ≤ sub_id → Multimap.members sub_id e.subscription_mapping ≠ [] →
      e.hub.router.Registered sub_id e.router_handle := fun sub_id hle hne =>
    (Router.registered_iff hmaps.hub.router.subs sub_id _).mpr (hmaps.registered sub_id hle hne)
  refine ⟨fun sub_id hne id => (hmaps.agrees id sub_id hne).trans (hmem sub_id id),
    hmaps.full, ?_, ?_⟩
  · exact fun sub_id hkey hle => hregistered sub_id hle (hmaps.full.mem_keys.mp hkey)
  · intro id actor sub_id hfind hsub hle
    have hmember := (hmaps.agrees id sub_id (by omega)).mpr
      ((hmem sub_id id).mpr ⟨actor, hfind, hsub⟩)
    exact ⟨hmember, hregistered sub_id hle (List.ne_nil_of_mem hmember)⟩

/-- Two actors subscribe to the same, and then the first one unsubscribes. -/
def sharing : List Event :=
  [.deliver 11 (spawnMessage "first") (receiving []) 0, .deliver 11 (spawnMessage "second")
    (receiving []) 0, .process (receiving [.subscribe ⟨[.str "foo" "bar" .EQ false], []⟩ .default])
      0,
    .process (receiving [.subscribe ⟨[.str "foo" "bar" .EQ false], []⟩ .default]) 0,
    .deliver 14 (spawnMessage "any") (receiving []) 0, .process (receiving [.unsubscribe 14]) 0]

/-- The second actor keeps the subscription, in all three tables. -/
theorem subscriptions_agree_sharing :
    ∃ e, run luaSettings (Hub.init ⟨"node", 3⟩) 1 sharing = some e ∧ e.subscriptionsOf 1 = [12] ∧
      2 ∈ Multimap.members 14 e.subscription_mapping ∧
      e.hub.router.Registered 14 e.router_handle := by
  have hends : (run luaSettings (Hub.init ⟨"node", 3⟩) 1 sharing).any (fun e =>
      e.subscriptionsOf 1 = [12] ∧
        (Assoc.find 2 e.actors).any (fun actor => 14 ∈ actor.subscriptions) = true) = true := by
    decide +kernel
  obtain ⟨e, hrun, hends⟩ := (Option.any_eq_true _ _).mp hends
  obtain ⟨hfirst, hends⟩ := of_decide_eq_true hends
  obtain ⟨actor, hfind, hsub⟩ := (Option.any_eq_true _ _).mp hends
  have hsub : 14 ∈ actor.subscriptions := of_decide_eq_true hsub
  have hhub : Hub.run luaSettings.board [] = some (Hub.init ⟨"node", 3⟩) := rfl
  have hagree := subscriptions_agree hhub hrun
  exact ⟨e, hrun, hfirst, hagree.2.2.2 2 actor 14 hfind hsub (by decide)⟩

end Executor

end UActor
