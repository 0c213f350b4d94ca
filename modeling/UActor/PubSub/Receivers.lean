import UActor.Lib.Runs
import UActor.PubSub.RouterInv

/-!
# Receivers

`receiver.cpp`. A receiver keeps the ids of its subscriptions, and removes itself from them when it
is destroyed. The router holds bare pointers to its receivers.
-/

namespace UActor

namespace Router

/-! ## The nodes of a receiver -/

/-- The nodes that a receiver stands for at a subscription id. -/
def nodesAt (rt : Router) (s r : Nat) : List Nat :=
  ((rt.findSub s).map fun S => S.nodesOf r).getD []

variable {board : Board} {rt : Router}

theorem nodesAt_of_findSub {s : Nat} {S : Subscription} (h : rt.findSub s = some S) (r : Nat) :
    rt.nodesAt s r = S.nodesOf r := by
  simp [nodesAt, h]

theorem nodesAt_of_none {s : Nat} (h : rt.findSub s = none) (r : Nat) : rt.nodesAt s r = [] := by
  simp [nodesAt, h]

/-- The router lists a receiver at a subscription exactly if it stands for some node there. -/
theorem mem_receivers_iff (h : SubsInv rt) {S : Subscription} (hS : S ∈ rt.subscriptions)
    (r : Nat) :
    r ∈ Assoc.keys S.receivers ↔ rt.nodesAt S.subscription_id r ≠ [] := by
  rw [nodesAt_of_findSub (h.findSub_eq hS), (h.wf S hS).mem_keys]

/-- The router lists the receiver at a subscription. -/
def Registered (rt : Router) (sub_id r : Nat) : Prop :=
  ∃ S ∈ rt.subscriptions, S.subscription_id = sub_id ∧ r ∈ Assoc.keys S.receivers

theorem registered_iff (h : SubsInv rt) (sub_id r : Nat) :
    rt.Registered sub_id r ↔ rt.nodesAt sub_id r ≠ [] := by
  constructor
  · rintro ⟨S, hS, rfl, hr⟩
    exact (mem_receivers_iff h hS r).mp hr
  · intro hne
    cases hsub : rt.findSub sub_id with
    | none => exact absurd (nodesAt_of_none hsub r) hne
    | some S =>
      obtain ⟨hS, rfl⟩ := mem_of_findSub hsub
      exact ⟨S, hS, rfl, (mem_receivers_iff h hS r).mpr hne⟩

theorem SubsInv.nodesAt_nodup (h : SubsInv rt) (s r : Nat) : (rt.nodesAt s r).Nodup := by
  unfold nodesAt
  cases hsub : rt.findSub s with
  | none => exact List.nodup_nil
  | some S => exact (h.wf S (mem_of_findSub hsub).1).nodesOf_nodup r

theorem SubsInv.ge_of_nodesAt (h : SubsInv rt) {s r : Nat} (hne : rt.nodesAt s r ≠ []) :
    11 ≤ s ∧ s < rt.next_sub_id := by
  cases hsub : rt.findSub s with
  | none => exact absurd (nodesAt_of_none hsub r) hne
  | some S =>
    obtain ⟨hS, rfl⟩ := mem_of_findSub hsub
    exact h.ids S hS

theorem findSub_congr {rt rt' : Router} (h : rt'.subscriptions = rt.subscriptions) (s : Nat) :
    rt'.findSub s = rt.findSub s := by
  unfold findSub
  rw [h]

theorem nodesAt_internNode (rt : Router) (node : String) (s r : Nat) :
    (rt.internNode node).1.nodesAt s r = rt.nodesAt s r := by
  unfold nodesAt
  rw [findSub_congr (internNode_subscriptions rt node)]

theorem findSub_setSub (h : SubsInv rt) {S S' : Subscription} (hS : S ∈ rt.subscriptions)
    (hid : S'.subscription_id = S.subscription_id) (hwf : S'.Wf) (s : Nat) :
    (rt.setSub S').findSub s = if s = S.subscription_id then some S' else rt.findSub s := by
  have hinv := h.setSub hS hid hwf
  have hmem : S' ∈ (rt.setSub S').subscriptions := (mem_setSub hS hid S').mpr (Or.inr rfl)
  split
  · rename_i heq
    rw [heq, ← hid, hinv.findSub_eq hmem]
  · rename_i hne
    cases hsub : rt.findSub s with
    | none =>
      cases hnew : (rt.setSub S').findSub s with
      | none => rfl
      | some T =>
        obtain ⟨hT, rfl⟩ := mem_of_findSub hnew
        rcases (mem_setSub hS hid T).mp hT with ⟨hT, -⟩ | rfl
        · rw [h.findSub_eq hT] at hsub
          simp at hsub
        · exact absurd hid hne
    | some T =>
      obtain ⟨hT, rfl⟩ := mem_of_findSub hsub
      exact hinv.findSub_eq ((mem_setSub hS hid T).mpr (Or.inl ⟨hT, hne⟩))

theorem findSub_erase (h : SubsInv rt) (S : Subscription) (s : Nat) :
    (rt.eraseSubscription S).findSub s = if s = S.subscription_id then none else rt.findSub s := by
  have hinv := h.erase S
  split
  · rename_i heq
    cases hnew : (rt.eraseSubscription S).findSub s with
    | none => rfl
    | some T =>
      obtain ⟨hT, rfl⟩ := mem_of_findSub hnew
      have hne := (List.mem_filter.mp hT).2
      simp [heq] at hne
  · rename_i hne
    cases hsub : rt.findSub s with
    | none =>
      cases hnew : (rt.eraseSubscription S).findSub s with
      | none => rfl
      | some T =>
        obtain ⟨hT, rfl⟩ := mem_of_findSub hnew
        rw [h.findSub_eq (List.mem_of_mem_filter hT)] at hsub
        simp at hsub
    | some T =>
      obtain ⟨hT, rfl⟩ := mem_of_findSub hsub
      exact hinv.findSub_eq (List.mem_filter.mpr ⟨hT, by simpa using hne⟩)

theorem nodesAt_next (h : SubsInv rt) (r : Nat) : rt.nodesAt rt.next_sub_id r = [] := by
  by_contra hne
  exact absurd (h.ge_of_nodesAt hne).2 (Nat.lt_irrefl _)

theorem nodesAt_create (h : SubsInv rt) (f : Filter) (r n : Nat) (args : SubscriptionArguments)
    (s r' : Nat) :
    (rt.createSubscription f r n args).nodesAt s r' =
      if s = rt.next_sub_id ∧ r = r' then [n] else rt.nodesAt s r' := by
  have hfind : ∃ F, (rt.createSubscription f r n args).findSub s = (rt.findSub s).or
      (if rt.next_sub_id = s then some ⟨rt.next_sub_id, F, args, [(r, [n])]⟩ else none) := by
    refine ⟨⟨(fileConstraints rt.next_sub_id false f.required rt.constraints).2,
      (fileConstraints rt.next_sub_id true f.optional
        (fileConstraints rt.next_sub_id false f.required rt.constraints).1).2⟩, ?_⟩
    unfold createSubscription findSub
    simp only [List.find?_append, List.find?_singleton, decide_eq_true_eq]
  obtain ⟨F, hfind⟩ := hfind
  by_cases hs : s = rt.next_sub_id
  · have hnone : rt.findSub s = none := by
      cases hsub : rt.findSub s with
      | none => rfl
      | some S =>
        obtain ⟨hS, hid⟩ := mem_of_findSub hsub
        have := (h.ids S hS).2
        omega
    rw [nodesAt_of_none hnone]
    rw [hnone, Option.none_or, if_pos hs.symm] at hfind
    rw [nodesAt_of_findSub hfind]
    by_cases hr : r = r'
    · simp [Subscription.nodesOf, Assoc.find, hs, hr]
    · simp [Subscription.nodesOf, Assoc.find, hr]
  · rw [if_neg (Ne.symm hs), Option.or_none] at hfind
    rw [if_neg fun hand => hs hand.1]
    unfold nodesAt
    rw [hfind]

/-! ## Calls -/

theorem removeReceiver_count (S : Subscription) (r k : Nat) :
    (S.removeReceiver r k).2.2 = ((S.removeReceiver r k).1.nodesOf r).length := by
  unfold Subscription.removeReceiver
  cases hfind : Assoc.find r S.receivers with
  | none => simp [Subscription.nodesOf, hfind]
  | some l =>
    dsimp only
    split
    · simp [Subscription.nodesOf, Assoc.find_erase]
    · simp [Subscription.nodesOf]

theorem nodesAt_remove_some (h : SubsInv rt) (board : Board) {S : Subscription} {s : Nat}
    (hsub : rt.findSub s = some S) (r : Nat) (node_id : String) (s' r' : Nat) :
    (rt.step board (.remove s r node_id)).1.nodesAt s' r' =
      if s = s' then (S.removeReceiver r ((Assoc.find node_id rt.peer_node_ids).getD 0)).1.nodesOf
        r'
      else rt.nodesAt s' r' := by
  obtain ⟨hS, rfl⟩ := mem_of_findSub hsub
  have hid := (S.removeReceiver_rest r ((Assoc.find node_id rt.peer_node_ids).getD 0)).1
  have hstep := step_cases board rt (.remove S.subscription_id r node_id)
  generalize rt.step board (.remove S.subscription_id r node_id) = out at hstep
  unfold nodesAt
  cases hstep with
  | unknown _ _ _ hnone =>
    rw [hsub] at hnone
    simp at hnone
  | erase _ _ _ T hT hempty =>
    obtain rfl : S = T := Option.some.inj (hsub.symm.trans hT)
    have hnil := (Subscription.removeReceiver_flag (h.wf S hS) _ _).mp hempty
    rw [findSub_erase h, hid]
    by_cases hs : S.subscription_id = s'
    · simp [hs, Subscription.nodesOf, hnil]
    · rw [if_neg (Ne.symm hs), if_neg hs]
  | leave _ _ _ T hT hempty =>
    obtain rfl : S = T := Option.some.inj (hsub.symm.trans hT)
    have hne := receivers_ne_of_flag (h.wf S hS) hempty
    rw [findSub_setSub h hS hid (Subscription.removeReceiver_wf (h.wf S hS) _ _ hne)]
    by_cases hs : S.subscription_id = s'
    · simp [hs]
    · rw [if_neg (Ne.symm hs), if_neg hs]

theorem nodesAt_remove (h : SubsInv rt) (board : Board) (s r : Nat) (node_id : String)
    (s' r' : Nat) :
    (rt.step board (.remove s r node_id)).1.nodesAt s' r' =
      if s = s' ∧ r = r' then
        if (Assoc.find node_id rt.peer_node_ids).getD 0 = 0 then []
        else (rt.nodesAt s r).erase ((Assoc.find node_id rt.peer_node_ids).getD 0)
      else rt.nodesAt s' r' := by
  cases hsub : rt.findSub s with
  | none =>
    have hunchanged : (rt.step board (.remove s r node_id)).1 = rt := by
      unfold step removeSubscription
      simp [hsub]
    rw [hunchanged]
    split
    · rename_i hsame
      simp [← hsame.1, nodesAt_of_none hsub]
    · rfl
  | some S =>
    rw [nodesAt_remove_some h board hsub, Subscription.nodesOf_removeReceiver,
      nodesAt_of_findSub hsub]
    by_cases hs : s = s'
    · subst hs
      rw [if_pos rfl, nodesAt_of_findSub hsub]
      simp only [true_and]
    · rw [if_neg hs, if_neg fun hand => hs hand.1]

theorem remove_count (h : SubsInv rt) (board : Board) (s r : Nat) (node_id : String) :
    (rt.step board (.remove s r node_id)).2.1 =
      ((rt.step board (.remove s r node_id)).1.nodesAt s r).length := by
  cases hsub : rt.findSub s with
  | none =>
    unfold step removeSubscription
    simp [hsub, nodesAt]
  | some S =>
    rw [nodesAt_remove_some h board hsub, if_pos rfl, ← removeReceiver_count]
    unfold step removeSubscription
    simp only [hsub]
    split <;> rfl

@[simp] theorem remove_peers (board : Board) (rt : Router) (s r : Nat) (node_id : String) :
    (rt.step board (.remove s r node_id)).1.peer_node_ids = rt.peer_node_ids := by
  have hstep := step_cases board rt (.remove s r node_id)
  generalize rt.step board (.remove s r node_id) = out at hstep
  cases hstep <;> rfl

theorem nodesAt_add (h : SubsInv rt) (board : Board) (f : Filter) (r : Nat) (who : ActorIdentifier)
    (src : String) (args : SubscriptionArguments) (s' r' : Nat) :
    (rt.step board (.add f r who src args)).1.nodesAt s' r' =
      if args.fetch_policy ≠ .FETCH ∧ (rt.step board (.add f r who src args)).2.1 = s' ∧ r = r' then
        Subscription.emplace (rt.internNode src).2 (rt.nodesAt s' r')
      else rt.nodesAt s' r' := by
  have hstep := step_cases board rt (.add f r who src args)
  generalize rt.step board (.add f r who src args) = out at hstep
  have hinv := h.internNode src
  cases hstep with
  | fetch _ _ _ _ _ hf => rw [if_neg fun hand => hand.1 hf]
  | join _ _ _ _ _ S hf hsub =>
    have hS := (mem_of_findEqual hsub).1
    have hSi : S ∈ (rt.internNode src).1.subscriptions := by rwa [internNode_subscriptions]
    unfold nodesAt
    rw [findSub_setSub hinv hSi (Subscription.addReceiver_id S r _)
      (Subscription.addReceiver_wf (h.wf S hS) _ _),
      findSub_congr (internNode_subscriptions rt src)]
    by_cases hs : S.subscription_id = s'
    · subst hs
      rw [if_pos rfl, h.findSub_eq hS]
      simp only [Option.map_some, Option.getD_some, Subscription.nodesOf_addReceiver]
      by_cases hr : r = r'
      · subst hr
        simp [hf]
      · simp [hr]
    · rw [if_neg (Ne.symm hs), if_neg fun hand => hs hand.2.1]
  | create _ _ _ _ _ hf _ =>
    rw [nodesAt_create hinv, nodesAt_internNode, internNode_next_sub_id]
    by_cases hs : s' = rt.next_sub_id ∧ r = r'
    · obtain ⟨rfl, rfl⟩ := hs
      simp [hf, nodesAt_next h, Subscription.emplace]
    · rw [if_neg hs, if_neg fun hand => hs ⟨hand.2.1.symm, hand.2.2⟩]

/-- Nodes keep their numbers. -/
def Extends (rt rt' : Router) : Prop :=
  ∀ name n, Assoc.find name rt.peer_node_ids = some n → Assoc.find name rt'.peer_node_ids = some n

theorem Extends.refl (rt : Router) : Extends rt rt := fun _ _ h => h

theorem Extends.trans {a b d : Router} (h : Extends a b) (h' : Extends b d) : Extends a d :=
  fun name n hfind => h' name n (h name n hfind)

theorem extends_internNode (rt : Router) (node : String) : Extends rt (rt.internNode node).1 :=
  fun _ _ h => find_internNode_of_some h node

theorem extends_step (board : Board) (rt : Router) (op : Op) : Extends rt (rt.step board op).1 := by
  have hstep := step_cases board rt op
  generalize rt.step board op = out at hstep
  cases hstep with
  | join => exact extends_internNode rt _
  | create => exact extends_internNode rt _
  | fetch | unknown | erase | leave => exact Extends.refl rt

theorem add_fetch (board : Board) (rt : Router) (f : Filter) (r : Nat) (who : ActorIdentifier)
    (src : String) {args : SubscriptionArguments} (hfetch : args.fetch_policy = .FETCH) :
    (rt.addSubscription board f r who src args).2.1 = 1 := by
  unfold addSubscription
  simp [hfetch]

/-- The loop of `Receiver::~Receiver`. -/
def removeAll (board : Board) (r : Nat) (subscriptions : List Nat) (rt : Router) : Router :=
  subscriptions.foldl (fun rt s => (rt.removeSubscription board s r "").1) rt

end Router

/-! ## Receiver objects -/

/-- The router, and the receivers that exist, each with its set `subscriptions`. -/
structure Hub where
  router : Router
  receivers : List (Nat × List Nat)
deriving DecidableEq, Repr

namespace Hub

def init (board : Board) : Hub := ⟨Router.init board, []⟩

/-- `Receiver::subscriptions`. -/
def subscriptionsOf (hub : Hub) (r : Nat) : List Nat := (Assoc.find r hub.receivers).getD []

/-- `Receiver::subscribe`. -/
def subscribe (board : Board) (hub : Hub) (r : Nat) (f : Filter) (subscriber : ActorIdentifier)
    (source_peer : String) (arguments : SubscriptionArguments) : Hub × Nat :=
  let added := hub.router.addSubscription board f r subscriber source_peer arguments
  (⟨added.1, Assoc.put r (Subscription.emplace added.2.1 (hub.subscriptionsOf r)) hub.receivers⟩,
    added.2.1)

/-- `Receiver::unsubscribe`. -/
def unsubscribe (board : Board) (hub : Hub) (r sub_id : Nat) (node_id : String) : Hub :=
  let removed := hub.router.removeSubscription board sub_id r node_id
  ⟨removed.1,
    if removed.2.1 = 0 then Assoc.put r ((hub.subscriptionsOf r).erase sub_id) hub.receivers
    else hub.receivers⟩

/-- `Receiver::~Receiver`. -/
def destroy (board : Board) (hub : Hub) (r : Nat) : Hub :=
  ⟨hub.router.removeAll board r (hub.subscriptionsOf r), Assoc.erase r hub.receivers⟩

/-- Calls on receivers. A new one may get the address of one that was destroyed. -/
inductive Event where
  | create (r : Nat)
  | subscribe (r : Nat) (f : Filter) (subscriber : ActorIdentifier) (source_peer : String)
      (arguments : SubscriptionArguments)
  | unsubscribe (r sub_id : Nat) (node_id : String)
  | destroy (r : Nat)

def Event.receiver : Event → Nat
  | .create r | .subscribe r .. | .unsubscribe r .. | .destroy r => r

/-- There is no call on a receiver that does not exist. -/
def step (board : Board) (hub : Hub) : Event → Option Hub
  | .create r =>
    if (Assoc.find r hub.receivers).isSome then none
    else some ⟨hub.router, Assoc.put r [] hub.receivers⟩
  | .subscribe r f subscriber source_peer arguments =>
    if (Assoc.find r hub.receivers).isSome then
      some (hub.subscribe board r f subscriber source_peer arguments).1
    else none
  | .unsubscribe r sub_id node_id =>
    if (Assoc.find r hub.receivers).isSome then some (hub.unsubscribe board r sub_id node_id)
    else none
  | .destroy r => if (Assoc.find r hub.receivers).isSome then some (hub.destroy board r) else none

def run (board : Board) (events : List Event) : Option Hub :=
  events.foldlM (step board) (init board)

/-- Every receiver that the router lists exists and knows of it, and every subscription has a
receiver. -/
def Sound (hub : Hub) : Prop :=
  ∀ S ∈ hub.router.subscriptions, S.receivers ≠ [] ∧
    ∀ r ∈ Assoc.keys S.receivers, ∃ subscriptions, Assoc.find r hub.receivers = some subscriptions ∧
      S.subscription_id ∈ subscriptions

end Hub

/-! ## Removals without a node id -/

namespace Router

variable {board : Board} {rt : Router} {s r : Nat}

/-- The router knows no node with the empty name, or the receiver stands for no other one. -/
def RemovesAll (rt : Router) (s r : Nat) : Prop :=
  Assoc.find "" rt.peer_node_ids = none ∨
    ∀ n ∈ rt.nodesAt s r, Assoc.find "" rt.peer_node_ids = some n

instance (rt : Router) (s r : Nat) : Decidable (rt.RemovesAll s r) :=
  inferInstanceAs (Decidable (_ ∨ _))

/-- What a removal without a node id leaves of the nodes of a receiver. -/
def left (rt : Router) (nodes : List Nat) : List Nat :=
  match Assoc.find "" rt.peer_node_ids with
  | none => []
  | some n => nodes.erase n

theorem left_nil (rt : Router) : rt.left [] = [] := by
  unfold left
  split <;> rfl

theorem nodesAt_remove_all (h : Inv board rt) (s r s' r' : Nat) :
    (rt.step board (.remove s r "")).1.nodesAt s' r' =
      if s = s' ∧ r = r' then rt.left (rt.nodesAt s r) else rt.nodesAt s' r' := by
  rw [nodesAt_remove h.subs]
  unfold left
  cases hfind : Assoc.find "" rt.peer_node_ids with
  | none => simp
  | some n =>
    have hpos := (h.peers.bound _ (Assoc.mem_of_find hfind)).1
    dsimp only at hpos
    rw [Option.getD_some, if_neg (by omega : ¬ n = 0)]

theorem left_eq_nil (h : Inv board rt) : rt.left (rt.nodesAt s r) = [] ↔ rt.RemovesAll s r := by
  have hnodup := h.subs.nodesAt_nodup s r
  unfold left RemovesAll
  generalize rt.nodesAt s r = nodes at hnodup
  cases hfind : Assoc.find "" rt.peer_node_ids with
  | none => simp
  | some n =>
    simp only [reduceCtorEq, Option.some.injEq, false_or]
    constructor
    · intro hnil k hk
      by_contra hne
      have hmem : k ∈ nodes.erase n := (List.mem_erase_of_ne (Ne.symm hne)).mpr hk
      rw [hnil] at hmem
      simp at hmem
    · intro hall
      refine List.eq_nil_iff_forall_not_mem.mpr fun k hk => ?_
      obtain ⟨hne, hmem⟩ := hnodup.mem_erase_iff.mp hk
      exact hne (hall k hmem).symm

theorem removeAll_rest (h : Inv board rt) (r : Nat) (subscriptions : List Nat) :
    Inv board (rt.removeAll board r subscriptions) ∧
      (rt.removeAll board r subscriptions).peer_node_ids = rt.peer_node_ids := by
  induction subscriptions generalizing rt with
  | nil => exact ⟨h, rfl⟩
  | cons s subscriptions ih =>
    obtain ⟨hinv, hpeers⟩ := ih (h.step (.remove s r ""))
    exact ⟨hinv, hpeers.trans (remove_peers board rt s r "")⟩

theorem nodesAt_removeAll (h : Inv board rt) (r : Nat) {subscriptions : List Nat}
    (hnodup : subscriptions.Nodup) (s' r' : Nat) :
    (rt.removeAll board r subscriptions).nodesAt s' r' =
      if s' ∈ subscriptions ∧ r = r' then rt.left (rt.nodesAt s' r) else rt.nodesAt s' r' := by
  induction subscriptions generalizing rt with
  | nil => simp [removeAll]
  | cons s subscriptions ih =>
    rw [List.nodup_cons] at hnodup
    have hnext := h.step (.remove s r "")
    have hleft : ∀ nodes, (rt.step board (.remove s r "")).1.left nodes = rt.left nodes := by
      intro nodes
      unfold left
      rw [remove_peers]
    show ((rt.step board (.remove s r "")).1.removeAll board r subscriptions).nodesAt s' r' = _
    rw [ih hnext hnodup.2, hleft, nodesAt_remove_all h, nodesAt_remove_all h]
    by_cases hs : s = s'
    · subst hs
      simp [hnodup.1]
    · simp [hs, Ne.symm hs]

end Router

namespace Hub

open Router

variable {board : Board} {hub hub' : Hub}

theorem sound_iff (h : SubsInv hub.router) :
    hub.Sound ↔ ∀ s r, hub.router.nodesAt s r ≠ [] →
      ∃ subscriptions, Assoc.find r hub.receivers = some subscriptions ∧
      s ∈ subscriptions := by
  constructor
  · intro hsound s r hne
    cases hsub : hub.router.findSub s with
    | none => exact absurd (nodesAt_of_none hsub r) hne
    | some S =>
      obtain ⟨hS, rfl⟩ := mem_of_findSub hsub
      exact (hsound S hS).2 r ((mem_receivers_iff h hS r).mpr hne)
  · intro hall S hS
    refine ⟨(h.wf S hS).receivers_ne, fun r hr => ?_⟩
    exact hall _ r ((mem_receivers_iff h hS r).mp hr)

/-- What holds after any calls. -/
structure Inv (board : Board) (hub : Hub) : Prop where
  router : Router.Inv board hub.router
  nodup : ∀ e ∈ hub.receivers, e.2.Nodup

theorem inv_init (board : Board) : Inv board (init board) := ⟨Router.inv_init board, by simp [init]⟩

theorem Inv.subscriptionsOf_nodup (h : Inv board hub) (r : Nat) :
    (hub.subscriptionsOf r).Nodup := by
  unfold subscriptionsOf
  cases hfind : Assoc.find r hub.receivers with
  | none => exact List.nodup_nil
  | some subscriptions => exact h.nodup _ (Assoc.mem_of_find hfind)

theorem Inv.put (h : Inv board hub) {rt : Router} (hrt : Router.Inv board rt) (r : Nat)
    {subscriptions : List Nat} (hnodup : subscriptions.Nodup) :
    Inv board ⟨rt, Assoc.put r subscriptions hub.receivers⟩ := by
  refine ⟨hrt, fun e he => ?_⟩
  rcases Assoc.mem_put he with he | rfl
  · exact h.nodup e he
  · exact hnodup

theorem Inv.subscribe (h : Inv board hub) (r : Nat) (f : Filter) (who : ActorIdentifier)
    (src : String) (args : SubscriptionArguments) :
    Inv board (hub.subscribe board r f who src args).1 :=
  h.put (h.router.step (.add f r who src args)) r
    (Subscription.emplace_nodup (h.subscriptionsOf_nodup r))

theorem Inv.unsubscribe (h : Inv board hub) (r s : Nat) (node_id : String) :
    Inv board (hub.unsubscribe board r s node_id) := by
  have hrt := h.router.step (.remove s r node_id)
  unfold Hub.unsubscribe
  dsimp only
  split
  · exact h.put hrt r ((h.subscriptionsOf_nodup r).erase s)
  · exact ⟨hrt, h.nodup⟩

theorem Inv.step {e : Event} (h : Inv board hub) (hstep : hub.step board e = some hub') :
    Inv board hub' := by
  cases e with
  | create r =>
    simp only [Hub.step] at hstep
    split at hstep
    · simp at hstep
    · rw [← Option.some.inj hstep]
      exact h.put h.router r List.nodup_nil
  | subscribe r f who src args =>
    simp only [Hub.step] at hstep
    split at hstep
    · rw [← Option.some.inj hstep]
      exact h.subscribe r f who src args
    · simp at hstep
  | unsubscribe r s node_id =>
    simp only [Hub.step] at hstep
    split at hstep
    · rw [← Option.some.inj hstep]
      exact h.unsubscribe r s node_id
    · simp at hstep
  | destroy r =>
    simp only [Hub.step] at hstep
    split at hstep
    · rw [← Option.some.inj hstep]
      exact ⟨(removeAll_rest h.router r _).1, fun e he => h.nodup e (List.mem_of_mem_filter he)⟩
    · simp at hstep

theorem Inv.nodesAt_subscribe_ne (h : Inv board hub) {r s : Nat} {f : Filter}
    {who : ActorIdentifier} {src : String} {args : SubscriptionArguments}
    (hne : (hub.subscribe board r f who src args).2 ≠ s) (r' : Nat) :
    (hub.subscribe board r f who src args).1.router.nodesAt s r' = hub.router.nodesAt s r' :=
  (nodesAt_add h.router.subs board f r who src args s r').trans (if_neg fun hand => hne hand.2.1)

theorem nodesAt_other {e : Event} (h : Inv board hub) (hstep : hub.step board e = some hub')
    {r : Nat} (hne : e.receiver ≠ r) (s : Nat) :
    hub'.router.nodesAt s r = hub.router.nodesAt s r := by
  cases e with
  | create r' =>
    simp only [Hub.step] at hstep
    split at hstep
    · simp at hstep
    · rw [← Option.some.inj hstep]
  | subscribe r' f who src args =>
    simp only [Hub.step] at hstep
    split at hstep
    · rw [← Option.some.inj hstep]
      exact (nodesAt_add h.router.subs board f r' who src args s r).trans (if_neg fun hand =>
        hne hand.2.2)
    · simp at hstep
  | unsubscribe r' sub_id node_id =>
    simp only [Hub.step] at hstep
    split at hstep
    · rw [← Option.some.inj hstep]
      exact (nodesAt_remove h.router.subs board sub_id r' node_id s r).trans (if_neg fun hand =>
        hne hand.2)
    · simp at hstep
  | destroy r' =>
    simp only [Hub.step] at hstep
    split at hstep
    · rw [← Option.some.inj hstep]
      exact (nodesAt_removeAll h.router r' (h.subscriptionsOf_nodup r') s r).trans
        (if_neg fun hand => hne hand.2)
    · simp at hstep

theorem extends_removeAll (board : Board) (r : Nat) (subscriptions : List Nat) (rt : Router) :
    rt.Extends (rt.removeAll board r subscriptions) := by
  induction subscriptions generalizing rt with
  | nil => exact Extends.refl rt
  | cons s subscriptions ih => exact (Router.extends_step board rt (.remove s r "")).trans (ih _)

theorem extends_step {e : Event} (hstep : hub.step board e = some hub') :
    hub.router.Extends hub'.router := by
  cases e with
  | create r =>
    simp only [Hub.step] at hstep
    split at hstep
    · simp at hstep
    · rw [← Option.some.inj hstep]
      exact Extends.refl hub.router
  | subscribe r f who src args =>
    simp only [Hub.step] at hstep
    split at hstep
    · rw [← Option.some.inj hstep]
      exact Router.extends_step board hub.router (.add f r who src args)
    · simp at hstep
  | unsubscribe r sub_id node_id =>
    simp only [Hub.step] at hstep
    split at hstep
    · rw [← Option.some.inj hstep]
      exact Router.extends_step board hub.router (.remove sub_id r node_id)
    · simp at hstep
  | destroy r =>
    simp only [Hub.step] at hstep
    split at hstep
    · rw [← Option.some.inj hstep]
      exact extends_removeAll board r _ hub.router
    · simp at hstep

/-! ## Receivers that exist -/

/-- A receiver leaves all of its subscriptions when it is destroyed: the router knows no node with
the empty name, or the receiver stands for that one only. -/
def Releases (hub : Hub) (r : Nat) : Prop :=
  ∀ S ∈ hub.router.subscriptions, r ∈ Assoc.keys S.receivers →
    hub.router.RemovesAll S.subscription_id r

instance (hub : Hub) (r : Nat) : Decidable (hub.Releases r) :=
  inferInstanceAs (Decidable (∀ _ ∈ _, _ → _))

theorem releases_iff (h : SubsInv hub.router) (r : Nat) :
    hub.Releases r ↔ ∀ s, hub.router.nodesAt s r ≠ [] → hub.router.RemovesAll s r := by
  constructor
  · intro hall s hne
    cases hsub : hub.router.findSub s with
    | none => exact absurd (nodesAt_of_none hsub r) hne
    | some S =>
      obtain ⟨hS, rfl⟩ := mem_of_findSub hsub
      exact hall S hS ((mem_receivers_iff h hS r).mpr hne)
  · exact fun hall S hS hr => hall _ ((mem_receivers_iff h hS r).mp hr)

theorem Sound.create (h : SubsInv hub.router) (hs : hub.Sound) {r : Nat}
    (hnew : Assoc.find r hub.receivers = none) :
    Sound ⟨hub.router, Assoc.put r [] hub.receivers⟩ := by
  rw [sound_iff h] at hs
  refine (@sound_iff ⟨hub.router, Assoc.put r [] hub.receivers⟩ h).mpr fun s r' hne => ?_
  obtain ⟨subscriptions, hfind, hmem⟩ := hs s r' hne
  refine ⟨subscriptions, ?_, hmem⟩
  dsimp only
  rw [Assoc.find_put, if_neg]
  · exact hfind
  · rintro rfl
    rw [hnew] at hfind
    simp at hfind

theorem Sound.subscribe (h : Inv board hub) (hs : hub.Sound) (r : Nat) (f : Filter)
    (who : ActorIdentifier) (src : String) (args : SubscriptionArguments) :
    (hub.subscribe board r f who src args).1.Sound := by
  rw [sound_iff h.router.subs] at hs
  refine (sound_iff (h.subscribe r f who src args).router.subs).mpr fun s r' hne => ?_
  have hnodes := nodesAt_add h.router.subs board f r who src args s r'
  unfold Hub.subscribe subscriptionsOf at hne ⊢
  dsimp only at hne ⊢
  by_cases hnew : (hub.router.step board (.add f r who src args)).2.1 = s ∧ r = r'
  · obtain ⟨rfl, rfl⟩ := hnew
    exact ⟨_, Assoc.find_put_self _ _ _, (Subscription.mem_emplace _ _ _).mpr (Or.inr rfl)⟩
  · rw [if_neg fun hand => hnew hand.2] at hnodes
    obtain ⟨subscriptions, hfind, hmem⟩ := hs s r' (hnodes ▸ hne)
    by_cases hr : r = r'
    · subst hr
      refine ⟨_, Assoc.find_put_self _ _ _, (Subscription.mem_emplace _ _ _).mpr (Or.inl ?_)⟩
      rw [hfind]
      exact hmem
    · exact ⟨subscriptions, (Assoc.find_put_ne hr _ _).trans hfind, hmem⟩

theorem Sound.unsubscribe (h : Inv board hub) (hs : hub.Sound) (r s : Nat) (node_id : String) :
    (hub.unsubscribe board r s node_id).Sound := by
  rw [sound_iff h.router.subs] at hs
  refine (sound_iff (h.unsubscribe r s node_id).router.subs).mpr fun s' r' hne => ?_
  have hnodes := nodesAt_remove h.router.subs board s r node_id s' r'
  have hcount := remove_count h.router.subs board s r node_id
  have hbefore : hub.router.nodesAt s' r' ≠ [] := by
    intro hnil
    refine hne (hnodes.trans ?_)
    split
    · rename_i hsame
      obtain ⟨rfl, rfl⟩ := hsame
      simp [hnil]
    · exact hnil
  obtain ⟨subscriptions, hfind, hmem⟩ := hs s' r' hbefore
  unfold Hub.unsubscribe at hne ⊢
  dsimp only at hne ⊢
  split
  · -- nothing is left, so this is another subscription or another receiver
    rename_i hzero
    have hnil := List.length_eq_zero_iff.mp (hcount.symm.trans hzero)
    by_cases hr : r = r'
    · subst hr
      have hs' : s' ≠ s := by
        rintro rfl
        exact hne hnil
      refine ⟨_, Assoc.find_put_self _ _ _, ?_⟩
      unfold subscriptionsOf
      rw [hfind]
      exact (List.mem_erase_of_ne hs').mpr hmem
    · exact ⟨subscriptions, (Assoc.find_put_ne hr _ _).trans hfind, hmem⟩
  · exact ⟨subscriptions, hfind, hmem⟩

/-- A destroyed receiver is gone exactly if it leaves all of its subscriptions. -/
theorem sound_destroy (h : Inv board hub) (hs : hub.Sound) (r : Nat) :
    (hub.destroy board r).Sound ↔ hub.Releases r := by
  rw [sound_iff h.router.subs] at hs
  rw [releases_iff h.router.subs, sound_iff (removeAll_rest h.router r _).1.subs]
  have hknown : ∀ s, hub.router.nodesAt s r ≠ [] → s ∈ hub.subscriptionsOf r := by
    intro s hne
    obtain ⟨subscriptions, hfind, hmem⟩ := hs s r hne
    simp [subscriptionsOf, hfind, hmem]
  have hnodes : ∀ s r', (hub.destroy board r).router.nodesAt s r' =
      if s ∈ hub.subscriptionsOf r ∧ r = r' then hub.router.left (hub.router.nodesAt s r)
      else hub.router.nodesAt s r' := nodesAt_removeAll h.router r (h.subscriptionsOf_nodup r)
  have hothers : ∀ r', Assoc.find r' (hub.destroy board r).receivers =
      if r = r' then none else Assoc.find r' hub.receivers := fun r' => Assoc.find_erase r' r _
  constructor
  · intro hall s hne
    rw [← left_eq_nil h.router]
    by_contra hleft
    have hne' : (hub.destroy board r).router.nodesAt s r ≠ [] := by
      rw [hnodes, if_pos ⟨hknown s hne, rfl⟩]
      exact hleft
    obtain ⟨_, hfind, -⟩ := hall s r hne'
    rw [hothers, if_pos rfl] at hfind
    simp at hfind
  · intro hall s r' hne
    rw [hnodes] at hne
    by_cases hr : r = r'
    · subst hr
      have hbefore : hub.router.nodesAt s r ≠ [] := by
        intro hnil
        rw [hnil, left_nil, ite_self] at hne
        exact hne rfl
      rw [if_pos ⟨hknown s hbefore, rfl⟩] at hne
      exact absurd ((left_eq_nil h.router).mpr (hall s hbefore)) hne
    · rw [if_neg fun hand => hr hand.2] at hne
      rw [hothers, if_neg hr]
      exact hs s r' hne

/-- The condition on one call. -/
def Event.Releases (hub : Hub) : Event → Prop
  | .destroy r => hub.Releases r
  | .create _ | .subscribe .. | .unsubscribe .. => True

theorem step_sound {e : Event} (h : Inv board hub) (hs : hub.Sound)
    (hstep : hub.step board e = some hub') :
    hub'.Sound ↔ e.Releases hub := by
  cases e with
  | create r =>
    simp only [Hub.step] at hstep
    split at hstep
    · simp at hstep
    · rename_i hnew
      rw [← Option.some.inj hstep]
      exact iff_of_true (hs.create h.router.subs (by simpa using hnew)) trivial
  | subscribe r f who src args =>
    simp only [Hub.step] at hstep
    split at hstep
    · rw [← Option.some.inj hstep]
      exact iff_of_true (hs.subscribe h r f who src args) trivial
    · simp at hstep
  | unsubscribe r s node_id =>
    simp only [Hub.step] at hstep
    split at hstep
    · rw [← Option.some.inj hstep]
      exact iff_of_true (hs.unsubscribe h r s node_id) trivial
    · simp at hstep
  | destroy r =>
    simp only [Hub.step] at hstep
    split at hstep
    · rw [← Option.some.inj hstep]
      exact sound_destroy h hs r
    · simp at hstep

theorem releases_of_absent (hs : hub.Sound) {r : Nat} (hnew : Assoc.find r hub.receivers = none) :
    hub.Releases r := by
  intro S hS hr
  obtain ⟨_, hfind, -⟩ := (hs S hS).2 r hr
  rw [hnew] at hfind
  simp at hfind

/-- The router never lists a destroyed receiver exactly if every receiver leaves all of its
subscriptions. -/
theorem receivers_alive_iff (board : Board) (events : List Event) :
    (∀ pre post hub, events = pre ++ post → run board pre = some hub → hub.Sound) ↔
      ∀ pre r post hub, events = pre ++ .destroy r :: post → run board pre = some hub →
      hub.Releases r := by
  have hinit : (init board).Sound := by simp [Sound, init, Router.init]
  have hstuck : ∀ (hub : Hub) (e : Event), Inv board hub → hub.Sound → hub.step board e = none →
      e.Releases hub := by
    intro hub e _ hs hnone
    cases e with
    | destroy r =>
      simp only [Hub.step] at hnone
      split at hnone
      · simp at hnone
      · rename_i hnew
        exact releases_of_absent hs (by simpa using hnew)
    | create | subscribe | unsubscribe => trivial
  have hiff := Runs.always_iff (f := step board) (l := events) (Inv board) Sound
    (fun hub e => e.Releases hub) (inv_init board) hinit (fun _ _ _ h hstep => h.step hstep)
      (fun _ _ _ h hs hstep => step_sound h hs hstep) hstuck
  refine hiff.trans ⟨fun hall pre r post hub heq hrun => hall pre _ post hub heq hrun, ?_⟩
  intro hall pre e post hub heq hrun
  cases e with
  | destroy r => exact hall pre r post hub heq hrun
  | create | subscribe | unsubscribe => trivial

/-- A peer subscribes before it has told its name, and then another receiver is destroyed. -/
theorem destroyed_receiver_listed :
    ∃ hub, run ⟨"node", 3⟩ [.create 1, .create 2,
        .subscribe 1 ⟨[.int "x" 1 .EQ false], []⟩ ⟨"peer", "t", "1"⟩ "" .default,
        .subscribe 2 ⟨[.int "y" 1 .EQ false], []⟩ ⟨"node", "t", "1"⟩ "node" .default, .destroy 2] =
          some hub ∧
      (∃ S ∈ hub.router.subscriptions, 2 ∈ Assoc.keys S.receivers) ∧
        Assoc.find 2 hub.receivers = none ∧
      ¬ hub.Sound := by
  refine ⟨_, rfl, by decide, by decide, fun hsound => ?_⟩
  have hlisted := hsound _ (List.mem_cons_of_mem _ List.mem_cons_self)
  obtain ⟨_, hfind, -⟩ := hlisted.2 2 (by decide)
  cases hfind

end Hub

end UActor
