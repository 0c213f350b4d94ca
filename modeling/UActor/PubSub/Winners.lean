import UActor.PubSub.Priorities
import UActor.PubSub.Receivers
import UActor.PubSub.Stored

/-!
# Who gets a publication

Routing by `Filter::matches` and priorities, for subscriptions that the index can tell apart.
-/

namespace UActor

namespace Router

variable {board : Board} {rt rt' : Router}

/-! ## More calls -/

/-- The filters and arguments of a call are as `P` says. -/
def Op.Asks (P : Filter → SubscriptionArguments → Prop) : Op → Prop
  | .add f _ _ _ args => P f args
  | .remove .. => True

instance {P : Filter → SubscriptionArguments → Prop} [∀ f args, Decidable (P f args)] :
    (op : Op) → Decidable (op.Asks P)
  | .add f _ _ _ args => inferInstanceAs (Decidable (P f args))
  | .remove .. => isTrue trivial

/-- A call with such a filter and arguments, or a number for a node. -/
inductive Change (board : Board) (P : Filter → SubscriptionArguments → Prop) (rt : Router) :
    Router → Prop
  | call (op : Op) (hop : op.Asks P) : Change board P rt (rt.step board op).1
  | number (node : String) : Change board P rt (rt.internNode node).1

/-- Such changes lead from one router to the other. -/
def Leads (board : Board) (P : Filter → SubscriptionArguments → Prop) : Router → Router → Prop :=
  Relation.ReflTransGen (Change board P)

namespace Leads

variable {P : Filter → SubscriptionArguments → Prop}

theorem refl (board : Board) (P : Filter → SubscriptionArguments → Prop) (rt : Router) :
    Leads board P rt rt :=
  Relation.ReflTransGen.refl

theorem trans {rt'' : Router} (h : Leads board P rt rt') (h' : Leads board P rt' rt'') :
    Leads board P rt rt'' :=
  Relation.ReflTransGen.trans h h'

theorem step (op : Op) (hop : op.Asks P) : Leads board P rt (rt.step board op).1 :=
  Relation.ReflTransGen.single (.call op hop)

theorem number (rt : Router) (node : String) : Leads board P rt (rt.internNode node).1 :=
  Relation.ReflTransGen.single (.number node)

theorem next_le (h : Leads board P rt rt') : rt.next_sub_id ≤ rt'.next_sub_id := by
  induction h with
  | refl => exact Nat.le_refl _
  | tail _ hchange ih =>
    cases hchange with
    | number node => rwa [internNode_next_sub_id]
    | call op =>
      rw [step_next_sub_id]
      split
      · exact Nat.le_succ_of_le ih
      · exact ih

theorem subscription (h : Leads board P rt rt') {T : Subscription} (hT : T ∈ rt'.subscriptions)
    (hold : T.subscription_id < rt.next_sub_id) :
    ∃ S ∈ rt.subscriptions, T.subscription_id = S.subscription_id ∧ T.filter = S.filter ∧
      T.arguments = S.arguments := by
  induction h generalizing T with
  | refl => exact ⟨T, hT, rfl, rfl, rfl⟩
  | tail hled hchange ih =>
    cases hchange with
    | number node =>
      rw [internNode_subscriptions] at hT
      exact ih hT hold
    | call op =>
      rcases step_subscription hT with ⟨S, hS, hid, hfilter, hargs⟩ | ⟨_, _, _, _, _, -, -,
          -, -, rfl⟩
      · obtain ⟨R, hR, hid', hfilter', hargs'⟩ := ih hS (hid ▸ hold)
        exact ⟨R, hR, hid.trans hid', hfilter.trans hfilter', hargs.trans hargs'⟩
      · exact absurd (Nat.lt_of_lt_of_le hold (next_le hled)) (Nat.lt_irrefl _)

end Leads

/-! ## The winners -/

/-- A subscription that the index can tell apart from others, with a priority that fits into the
register of `publish_internal`. -/
def Regular (f : Filter) (args : SubscriptionArguments) : Prop :=
  (∀ c ∈ f.constraints, c.isScalar = true ∧ c.eqv c = true) ∧
    (f.constraints.Pairwise fun c d => c.eqv d = false) ∧ args.priority.toNat < 256

instance (f : Filter) (args : SubscriptionArguments) : Decidable (Regular f args) :=
  inferInstanceAs (Decidable ((∀ c ∈ f.constraints, c.isScalar = true ∧ c.eqv c = true) ∧
    (f.constraints.Pairwise fun c d => c.eqv d = false) ∧ args.priority.toNat < 256))

/-- The subscription matches, and no other one that does has a higher priority. -/
def Wins (rt : Router) (p : Publication) (S : Subscription) : Prop :=
  S.filter.toFilter.matches p = true ∧
    ∀ T ∈ rt.subscriptions, T.filter.toFilter.matches p = true →
    T.arguments.priority ≤ S.arguments.priority

instance (rt : Router) (p : Publication) (S : Subscription) : Decidable (rt.Wins p S) :=
  inferInstanceAs (Decidable (S.filter.toFilter.matches p = true ∧
    ∀ T ∈ rt.subscriptions, T.filter.toFilter.matches p = true →
    T.arguments.priority ≤ S.arguments.priority))

theorem fits_of_regular {op : Op} (h : op.Asks Regular) :
    op.Fits fun c => c.isScalar = true ∧ c.eqv c = true := by
  cases op with
  | add f r who src args => exact fun _ => ⟨h.1, apart_of_scalar h.2.1⟩
  | remove => trivial

/-- What holds of a router whose subscriptions are all regular. -/
structure Orderly (board : Board) (rt : Router) : Prop where
  inv : Inv board rt
  listed : NoReqInv rt
  linked : Linked (fun c => c.isScalar = true ∧ c.eqv c = true) rt
  priorities : ∀ S ∈ rt.subscriptions, S.arguments.priority.toNat < 256

theorem orderly_init (board : Board) : Orderly board (init board) :=
  ⟨inv_init board, ⟨List.nodup_nil, by simp [init]⟩, linked_init _ board, by simp [init]⟩

theorem Orderly.change (h : Orderly board rt) (hchange : Change board Regular rt rt') :
    Orderly board rt' := by
  cases hchange with
  | number node =>
    refine ⟨h.inv.internNode node, h.listed.internNode node, h.linked.internNode node, ?_⟩
    rw [internNode_subscriptions]
    exact h.priorities
  | call op hop =>
    refine ⟨h.inv.step op, h.listed.step h.inv.subs op,
      h.linked.step (fun c hc => hc.2) h.inv (fits_of_regular hop), fun T hT => ?_⟩
    rcases step_subscription hT with ⟨S, hS, -, -, hargs⟩ | ⟨_, _, _, _, _, rfl, -, -, -, rfl⟩
    · rw [hargs]
      exact h.priorities S hS
    · exact hop.2.2

theorem Leads.orderly (h : Leads board Regular (init board) rt) : Orderly board rt := by
  induction h with
  | refl => exact orderly_init board
  | tail _ hchange ih => exact ih.change hchange

/-- Exactly the receivers of the winners get the publication, each once for each of these. -/
theorem Orderly.delivered (h : Orderly board rt) (order : VisitOrder) (seq : UInt32)
    {p : Publication} (hp : p.isScalar = true) :
    ∃ ds, (publishInternal board rt order seq p).1 = some ds ∧
      (∀ d ∈ ds, d.publication = (stamp board seq p).1) ∧ (ds.map Delivery.target).Nodup ∧
      ∀ r s, (r, s) ∈ ds.map Delivery.target ↔ ∃ S ∈ rt.subscriptions, S.subscription_id = s ∧
        r ∈ Assoc.keys S.receivers ∧ rt.Wins (stamp board seq p).1 S := by
  obtain ⟨hinv, hn, hlinked, hpriority⟩ := h
  have hstamped := isScalar_stamp hp board seq
  have hmatching : ∀ S ∈ rt.subscriptions, rt.Matching (stamp board seq p).1 S ↔
      S.filter.toFilter.matches (stamp board seq p).1 = true := fun S hS =>
    matching_iff_matches (fun c hc => hc.2) hlinked hinv.subs hinv.sound hstamped hS
  have hwins : ∀ S ∈ rt.subscriptions, rt.Highest (stamp board seq p).1 S ↔
      rt.Wins (stamp board seq p).1 S := by
    intro S hS
    unfold Highest Wins
    rw [hmatching S hS]
    refine and_congr_right fun _ => forall₂_congr fun T hT => ?_
    rw [hmatching T hT]
  have hfit : rt.PrioritiesFit (stamp board seq p).1 :=
    ⟨fun id hcounted => live_of_hit hlinked hinv.sound hcounted, Or.inl fun S hS _ =>
      hpriority S hS⟩
  have hright := right_of_fit hinv.subs hinv.sound hn hfit order
  obtain ⟨sel, hsel, hnodup, hmem⟩ :=
    (delivers_iff hinv.subs hinv.sound hn hfit.live order).mpr hright
  refine ⟨_, (publishInternal_eq board rt order seq p _).mpr ⟨sel, hsel, rfl⟩,
    fanOut_publication hstamped _, ?_, ?_⟩
  · rw [fanOut_targets]
    exact hnodup
  · intro r s
    rw [fanOut_targets, hmem]
    refine exists_congr fun S => and_congr_right fun hS => and_congr_right fun _ =>
      and_congr_right fun _ => ?_
    exact hwins S hS

/-! ## One receiver -/

/-- What `publish_internal` puts into the queue of a receiver. -/
def received (board : Board) (rt : Router) (r : Nat) (order : VisitOrder) (seq : UInt32)
    (p : Publication) :
    Option (List (Nat × Publication)) :=
  (publishInternal board rt order seq p).1.map fun ds =>
    (ds.filter fun d => d.receiver = r).map fun d => (d.subscription_id, d.publication)

theorem delivered_to {q : Publication} {ds : List Delivery} (hds : ∀ d ∈ ds, d.publication = q)
    (hnodup : (ds.map Delivery.target).Nodup) (r s : Nat) :
    (ds.filter fun d => d.receiver = r ∧ d.subscription_id = s).map (·.publication) =
      if (r, s) ∈ ds.map Delivery.target then [q] else [] := by
  induction ds with
  | nil => simp
  | cons d ds ih =>
    obtain ⟨hfirst, hrest⟩ := List.nodup_cons.mp hnodup
    have ih := ih (fun d hd => hds d (List.mem_cons_of_mem _ hd)) hrest
    have htarget : d.target = (r, s) ↔ d.receiver = r ∧ d.subscription_id = s := by
      simp [Delivery.target]
    by_cases hd : d.receiver = r ∧ d.subscription_id = s
    · rw [htarget.mpr hd] at hfirst
      rw [if_neg hfirst] at ih
      rw [List.filter_cons_of_pos (by simpa using hd), List.map_cons, ih, hds d List.mem_cons_self,
        List.map_cons, htarget.mpr hd, if_pos List.mem_cons_self]
    · rw [List.filter_cons_of_neg (by simpa using hd), ih]
      have hne : ¬ (r, s) = d.target := fun h => hd (htarget.mp h.symm)
      simp [hne]

/-- Under its subscriptions a receiver gets what they win, each once, and nothing else. -/
structure Received (rt : Router) (r : Nat) (q : Publication) (ms : List (Nat × Publication)) :
    Prop where
  publication : ∀ m ∈ ms, m.2 = q
  winner : ∀ m ∈ ms, ∃ S ∈ rt.subscriptions, S.subscription_id = m.1 ∧ rt.Wins q S
  once : ∀ S ∈ rt.subscriptions, r ∈ Assoc.keys S.receivers →
    (ms.filter fun m => m.1 = S.subscription_id).map Prod.snd = if rt.Wins q S then [q] else []

theorem Orderly.received (h : Orderly board rt) {r : Nat} {order : VisitOrder} {seq : UInt32}
    {p : Publication} (hp : p.isScalar = true) {ms : List (Nat × Publication)}
    (hms : rt.received board r order seq p = some ms) :
    rt.Received r (stamp board seq p).1 ms := by
  obtain ⟨ds, hds, hall, hnodup, htargets⟩ := h.delivered order seq hp
  obtain ⟨ds', hds', rfl⟩ := Option.map_eq_some_iff.mp hms
  obtain rfl : ds = ds' := Option.some.inj (hds.symm.trans hds')
  refine ⟨fun m hm => ?_, fun m hm => ?_, fun S hS hr => ?_⟩
  · obtain ⟨d, hd, rfl⟩ := List.mem_map.mp hm
    exact hall d (List.mem_of_mem_filter hd)
  · obtain ⟨d, hd, rfl⟩ := List.mem_map.mp hm
    have htarget : (d.receiver, d.subscription_id) ∈ ds.map Delivery.target :=
      List.mem_map_of_mem (List.mem_of_mem_filter hd)
    obtain ⟨S, hS, hid, -, hwins⟩ := (htargets _ _).mp htarget
    exact ⟨S, hS, hid, hwins⟩
  · have hto := delivered_to hall hnodup r S.subscription_id
    have hmem : (r, S.subscription_id) ∈ ds.map Delivery.target ↔
        rt.Wins (stamp board seq p).1 S := by
      rw [htargets]
      constructor
      · rintro ⟨T, hT, hid, -, hwins⟩
        rwa [h.inv.subs.eq_of_id hT hS hid] at hwins
      · exact fun hwins => ⟨S, hS, rfl, hr, hwins⟩
    simp only [hmem] at hto
    rw [← hto, List.filter_map, List.map_map, List.filter_filter]
    refine congrArg (List.map fun d : Delivery => d.publication) (List.filter_congr fun d _ => ?_)
    rw [Bool.decide_and]
    exact Bool.and_comm _ _

end Router

/-! ## Other receivers -/

namespace Hub

open Router (Leads)

variable {P : Filter → SubscriptionArguments → Prop} {board : Board}

def Event.Asks (P : Filter → SubscriptionArguments → Prop) : Event → Prop
  | .subscribe _ f _ _ arguments => P f arguments
  | .create _ | .unsubscribe .. | .destroy _ => True

instance [∀ f args, Decidable (P f args)] : (ev : Event) → Decidable (ev.Asks P)
  | .subscribe _ f _ _ args => inferInstanceAs (Decidable (P f args))
  | .create _ | .unsubscribe .. | .destroy _ => isTrue trivial

theorem leads_removeAll (r : Nat) (subscriptions : List Nat) (rt : Router) :
    Leads board P rt (rt.removeAll board r subscriptions) := by
  induction subscriptions generalizing rt with
  | nil => exact .refl board P rt
  | cons s subscriptions ih =>
    have hfirst : Leads board P rt (rt.removeSubscription board s r "").1 :=
      Leads.step (.remove s r "") trivial
    exact hfirst.trans (ih _)

theorem leads_step {hub hub' : Hub} {ev : Event} (hev : ev.Asks P)
    (h : hub.step board ev = some hub') :
    Leads board P hub.router hub'.router := by
  cases ev with
  | create r =>
    simp only [step] at h
    split at h
    · cases h
    · rw [← Option.some.inj h]
      exact .refl board P _
  | subscribe r f who src args =>
    simp only [step] at h
    split at h
    · rw [← Option.some.inj h]
      exact Leads.step (.add f r who src args) hev
    · cases h
  | unsubscribe r sub_id node_id =>
    simp only [step] at h
    split at h
    · rw [← Option.some.inj h]
      exact Leads.step (.remove sub_id r node_id) trivial
    · cases h
  | destroy r =>
    simp only [step] at h
    split at h
    · rw [← Option.some.inj h]
      exact leads_removeAll r _ _
    · cases h

theorem leads_run {events : List Event} {hub : Hub} (hevents : ∀ ev ∈ events, ev.Asks P)
    (h : run board events = some hub) : Leads board P (Router.init board) hub.router := by
  refine Runs.invariant_of (fun hub => Leads board P (Router.init board) hub.router)
    (fun _ ev => ev.Asks P) (.refl board P _) (fun _ _ _ hled hev hstep =>
      hled.trans (leads_step hev hstep)) ?_ h
  rintro pre ev post _ rfl -
  exact hevents ev (by simp)

end Hub

end UActor
