import UActor.PubSub.Routing
import UActor.Lib.RunningMax

/-!
# Priorities

The priority selection of `publish_internal` is a running maximum over two loops. Its register has
8 bits, the priorities have 32.
-/

namespace UActor

namespace Router

open RunningMax (collect Right)

/-! ## The subscriptions without required constraints -/

/-- `no_requirements` lists live subscriptions, each once. -/
structure NoReqInv (rt : Router) : Prop where
  nodup : rt.no_requirements.Nodup
  live : ∀ id ∈ rt.no_requirements, ∃ S ∈ rt.subscriptions, S.subscription_id = id ∧
    S.filter.required = []

theorem NoReqInv.setSub {rt : Router} (h : NoReqInv rt) {S S' : Subscription}
    (hS : S ∈ rt.subscriptions) (hs : SubsInv rt) (hid : S'.subscription_id = S.subscription_id)
    (hf : S'.filter = S.filter) :
    NoReqInv (rt.setSub S') := by
  refine ⟨h.nodup, fun id hmem => ?_⟩
  obtain ⟨T, hT, rfl, hreq⟩ := h.live id hmem
  by_cases hTS : T.subscription_id = S.subscription_id
  · rw [hs.eq_of_id hT hS hTS] at hreq ⊢
    exact ⟨S', (mem_setSub hS hid S').mpr (Or.inr rfl), hid, by rw [hf]; exact hreq⟩
  · exact ⟨T, (mem_setSub hS hid T).mpr (Or.inl ⟨hT, hTS⟩), rfl, hreq⟩

theorem NoReqInv.internNode {rt : Router} (h : NoReqInv rt) (node : String) :
    NoReqInv (rt.internNode node).1 := by
  refine ⟨by rw [internNode_no_requirements]; exact h.nodup, ?_⟩
  rw [internNode_no_requirements, internNode_subscriptions]
  exact h.live

theorem NoReqInv.create {rt : Router} (h : NoReqInv rt) (hs : SubsInv rt) (f : Filter) (r n : Nat)
    (args : SubscriptionArguments) : NoReqInv (rt.createSubscription f r n args) := by
  have hnew : rt.next_sub_id ∉ rt.no_requirements := by
    intro hmem
    obtain ⟨S, hS, hid, -⟩ := h.live _ hmem
    have := (hs.ids S hS).2
    omega
  have hold : ∀ id ∈ rt.no_requirements, ∃ S ∈ (rt.createSubscription f r n args).subscriptions,
      S.subscription_id = id ∧ S.filter.required = [] := by
    intro id hmem
    obtain ⟨S, hS, hid, hreq⟩ := h.live id hmem
    exact ⟨S, List.mem_append_left _ hS, hid, hreq⟩
  unfold createSubscription at hold ⊢
  dsimp only at hold ⊢
  by_cases hz : (fileConstraints rt.next_sub_id false f.required rt.constraints).2.length = 0
  · refine ⟨?_, ?_⟩
    · rw [if_pos hz]
      exact List.nodup_append.mpr ⟨h.nodup, by simp, fun a ha b hb hab => hnew (by
        rw [List.mem_singleton.mp hb] at hab
        exact hab ▸ ha)⟩
    · dsimp only
      rw [if_pos hz]
      intro id hmem
      rcases List.mem_append.mp hmem with hmem | hmem
      · exact hold id hmem
      · exact ⟨_, List.mem_append_right _ (List.mem_singleton.mpr rfl),
          (List.mem_singleton.mp hmem).symm, List.length_eq_zero_iff.mp hz⟩
  · refine ⟨?_, ?_⟩
    · rw [if_neg hz]
      exact h.nodup
    · dsimp only
      rw [if_neg hz]
      exact hold

theorem NoReqInv.erase {rt : Router} (h : NoReqInv rt) (hs : SubsInv rt) {S S' : Subscription}
    (hS : S ∈ rt.subscriptions) (hid : S'.subscription_id = S.subscription_id)
    (hf : S'.filter = S.filter) :
    NoReqInv (rt.eraseSubscription S') := by
  have hkeep : ∀ id ∈ rt.no_requirements, id ≠ S.subscription_id →
      ∃ T ∈ (rt.eraseSubscription S').subscriptions, T.subscription_id = id ∧
        T.filter.required = [] := by
    intro id hmem hne
    obtain ⟨T, hT, rfl, hreq⟩ := h.live id hmem
    exact ⟨T, List.mem_filter.mpr ⟨hT, by simpa [hid] using hne⟩, rfl, hreq⟩
  unfold eraseSubscription at hkeep ⊢
  by_cases hz : S'.countRequired = 0
  · refine ⟨?_, ?_⟩
    · dsimp only
      rw [if_pos hz]
      exact h.nodup.filter _
    · dsimp only
      rw [if_pos hz]
      intro id hmem
      obtain ⟨hmem, hne⟩ := List.mem_filter.mp hmem
      exact hkeep id hmem (by simpa [hid] using hne)
  · refine ⟨?_, ?_⟩
    · dsimp only
      rw [if_neg hz]
      exact h.nodup
    · dsimp only
      rw [if_neg hz]
      intro id hmem
      refine hkeep id hmem ?_
      rintro rfl
      -- the erased subscription requires something, so it is not listed
      obtain ⟨T, hT, hTid, hreq⟩ := h.live _ hmem
      rw [hs.eq_of_id hT hS hTid, ← hf] at hreq
      exact hz (List.length_eq_zero_iff.mpr hreq)

theorem NoReqInv.step {board : Board} {rt : Router} (h : NoReqInv rt) (hs : SubsInv rt) (op : Op) :
    NoReqInv (rt.step board op).1 := by
  have hstep := step_cases board rt op
  generalize rt.step board op = out at hstep
  cases hstep with
  | fetch | unknown => exact h
  | join f r who src args sub hf hsub =>
    have hsub' : sub ∈ (rt.internNode src).1.subscriptions := by
      rw [internNode_subscriptions]
      exact (mem_of_findEqual hsub).1
    exact (h.internNode src).setSub hsub' (hs.internNode src) (Subscription.addReceiver_id sub r _)
      (Subscription.addReceiver_filter sub r _)
  | create f r who src args hf hsub => exact (h.internNode src).create (hs.internNode src) f r _ args
  | erase sub_id r node_id sub hsub hempty =>
    obtain ⟨hid, hf, -⟩ := sub.removeReceiver_rest r ((Assoc.find node_id rt.peer_node_ids).getD 0)
    exact h.erase hs (mem_of_findSub hsub).1 hid hf
  | leave sub_id r node_id sub hsub hempty =>
    obtain ⟨hid, hf, -⟩ := sub.removeReceiver_rest r ((Assoc.find node_id rt.peer_node_ids).getD 0)
    exact h.setSub (mem_of_findSub hsub).1 hs hid hf

theorem noReq_run (board : Board) (ops : List Op) : NoReqInv (run board ops) := by
  induction ops using List.reverseRecOn with
  | nil => exact ⟨List.nodup_nil, by simp [run, init]⟩
  | append_singleton ops op ih =>
    rw [run_snoc]
    exact ih.step (inv_run board ops).subs op

/-! ## The subscriptions that the loops take -/

/-- The publication hits a constraint that the subscription is filed under. -/
def Counted (rt : Router) (p : Publication) (id : Nat) : Prop := id ∈ (rt.hits p).map Prod.fst

instance (rt : Router) (p : Publication) (id : Nat) : Decidable (rt.Counted p id) :=
  inferInstanceAs (Decidable (id ∈ (rt.hits p).map Prod.fst))

/-- The subscription passes the test of the loop that meets it. -/
def Matching (rt : Router) (p : Publication) (S : Subscription) : Prop :=
  if rt.Counted p S.subscription_id then
    (rt.hits p).count (S.subscription_id, false) = S.countRequired ∧
      ((rt.hits p).count (S.subscription_id, true) = S.countOptional ∨
        S.filter.checkOptionals p = true)
  else S.subscription_id ∈ rt.no_requirements ∧ S.filter.checkOptionals p = true

instance (rt : Router) (p : Publication) : DecidablePred (rt.Matching p) := fun S =>
  inferInstanceAs (Decidable (if rt.Counted p S.subscription_id then
    (rt.hits p).count (S.subscription_id, false) = S.countRequired ∧
      ((rt.hits p).count (S.subscription_id, true) = S.countOptional ∨
        S.filter.checkOptionals p = true)
    else S.subscription_id ∈ rt.no_requirements ∧ S.filter.checkOptionals p = true))

/-- The subscription `id`, if it passes. -/
def taken (rt : Router) (p : Publication) (id : Nat) : Option Subscription :=
  (rt.findSub id).filter fun S => rt.Matching p S

/-- What the first loop offers, in its order. -/
def takenCounted (rt : Router) (order : VisitOrder) (p : Publication) : List Subscription :=
  (Assoc.keys (order.counter (rt.count p))).filterMap (rt.taken p)

/-- What the second loop offers. -/
def takenUncounted (rt : Router) (order : VisitOrder) (p : Publication) : List Subscription :=
  ((order.no_requirements rt.no_requirements).filter fun id => ¬ rt.Counted p id).filterMap
    (rt.taken p)

theorem taken_eq_some {rt : Router} (hs : SubsInv rt) {p : Publication} {id : Nat}
    {S : Subscription} :
    rt.taken p id = some S ↔ S ∈ rt.subscriptions ∧ S.subscription_id = id ∧ rt.Matching p S := by
  unfold taken
  rw [Option.filter_eq_some_iff, decide_eq_true_eq]
  constructor
  · rintro ⟨hfind, hm⟩
    exact ⟨(mem_of_findSub hfind).1, (mem_of_findSub hfind).2, hm⟩
  · rintro ⟨hS, rfl, hm⟩
    exact ⟨hs.findSub_eq hS, hm⟩

theorem mem_keys_count {rt : Router} (hm : Sound rt.constraints) (order : VisitOrder)
    (p : Publication) (id : Nat) :
    id ∈ Assoc.keys (order.counter (rt.count p)) ↔ rt.Counted p id := by
  have hkeys : (Assoc.keys (order.counter (rt.count p))).Perm (Assoc.keys (rt.count p)) :=
    (order.counter_perm _).map _
  unfold Counted
  rw [hkeys.mem_iff, count_eq hm, ← isSome_foldl_bump, Option.isSome_iff_ne_none, Ne,
    Assoc.find_eq_none, not_not]

theorem mem_takenCounted {rt : Router} (hs : SubsInv rt) (hm : Sound rt.constraints)
    (order : VisitOrder) {p : Publication} {S : Subscription} : S ∈ rt.takenCounted order p ↔
      S ∈ rt.subscriptions ∧ rt.Counted p S.subscription_id ∧ rt.Matching p S := by
  unfold takenCounted
  simp only [List.mem_filterMap, mem_keys_count hm, taken_eq_some hs]
  constructor
  · rintro ⟨id, hc, hS, rfl, hmat⟩
    exact ⟨hS, hc, hmat⟩
  · rintro ⟨hS, hc, hmat⟩
    exact ⟨_, hc, hS, rfl, hmat⟩

theorem mem_takenUncounted {rt : Router} (hs : SubsInv rt) (order : VisitOrder) {p : Publication}
    {S : Subscription} : S ∈ rt.takenUncounted order p ↔
      S ∈ rt.subscriptions ∧ ¬ rt.Counted p S.subscription_id ∧ rt.Matching p S := by
  unfold takenUncounted
  simp only [List.mem_filterMap, List.mem_filter, (order.no_requirements_perm _).mem_iff,
    taken_eq_some hs, decide_eq_true_eq]
  constructor
  · rintro ⟨id, ⟨-, hc⟩, hS, rfl, hmat⟩
    exact ⟨hS, hc, hmat⟩
  · rintro ⟨hS, hc, hmat⟩
    have hmat' := hmat
    unfold Matching at hmat'
    rw [if_neg hc] at hmat'
    exact ⟨_, ⟨hmat'.1, hc⟩, hS, rfl, hmat⟩

theorem mem_taken {rt : Router} (hs : SubsInv rt) (hm : Sound rt.constraints) (order : VisitOrder)
    {p : Publication} {S : Subscription} :
    S ∈ rt.takenCounted order p ++ rt.takenUncounted order p ↔ S ∈ rt.subscriptions ∧
    rt.Matching p S := by
  rw [List.mem_append, mem_takenCounted hs hm, mem_takenUncounted hs]
  tauto

theorem matching_iff_matches {U : Constraint → Prop} (hU : ∀ c, U c → c.eqv c = true) {rt : Router}
    (h : Linked U rt) (hs : SubsInv rt) (hm : Sound rt.constraints) {p : Publication}
    (hp : p.isScalar = true) {S : Subscription} (hS : S ∈ rt.subscriptions) :
    rt.Matching p S ↔ S.filter.toFilter.matches p = true := by
  unfold Matching
  by_cases hc : rt.Counted p S.subscription_id
  · rw [if_pos hc]
    exact counts_iff_matches hU h hs hm hp hS
  · rw [if_neg hc]
    by_cases hreq : S.filter.required = []
    · have hmat : S.filter.toFilter.matches p = S.filter.checkOptionals p := by
        unfold Filter.matches
        rw [checkOptionals_eq hp]
        simp [Filter.checkRequired, InternalFilter.toFilter, hreq]
      rw [hmat]
      exact and_iff_right ((h.no_req _).mpr ⟨S, hS, rfl, hreq⟩)
    · rw [not_matches_of_not_hit hU h hs hm hp hS hc hreq]
      refine iff_of_false ?_ (by simp)
      rintro ⟨hno, -⟩
      obtain ⟨T, hT, hid, hnil⟩ := (h.no_req _).mp hno
      rw [hs.eq_of_id hT hS hid] at hnil
      exact hreq hnil

/-! ## The two loops -/

def Selection.pair (sel : Selection) : Nat × List (Nat × Nat) :=
  (sel.current_priority.toNat, sel.current_receivers)

def rank (S : Subscription) : Nat := S.arguments.priority.toNat

/-- The body of both loops is one step of the running maximum with a register of 8 bits. -/
theorem pair_offer (order : VisitOrder) (sel : Selection) (S : Subscription) :
    (sel.offer order S).pair = RunningMax.offer 256 rank (receiversOf order) sel.pair S := by
  unfold Selection.offer RunningMax.offer Selection.pair rank receiversOf
  simp only [UInt32.lt_iff_toNat_lt, UInt8.toNat_toUInt32]
  split
  · simp
  · split <;> rfl

theorem pair_foldl (order : VisitOrder) (l : List Subscription) (sel : Selection) :
    (l.foldl (Selection.offer order) sel).pair = collect 256 rank (receiversOf order) l
      sel.pair := by
  induction l generalizing sel with
  | nil => rfl
  | cons S l ih =>
    rw [List.foldl_cons, ih, pair_offer]
    rfl

theorem foldlM_taken {α : Type} (order : VisitOrder) (g : Selection → α → Option Selection)
    (pick : α → Option Subscription) (l : List α)
    (hg : ∀ sel, ∀ x ∈ l, g sel x = some ((pick x).elim sel (sel.offer order))) (sel : Selection) :
    l.foldlM g sel = some ((l.filterMap pick).foldl (Selection.offer order) sel) := by
  induction l generalizing sel with
  | nil => rfl
  | cons x l ih =>
    rw [List.foldlM_cons, hg sel x List.mem_cons_self, Option.bind_eq_bind, Option.bind_some,
      ih fun sel y hy => hg sel y (List.mem_cons_of_mem _ hy)]
    cases hx : pick x <;> simp [hx]

theorem foldlM_eq_none {α β : Type} {g : β → α → Option β} {l : List α} {x : α} (hx : x ∈ l)
    (hg : ∀ b, g b x = none) (b : β) : l.foldlM g b = none := by
  induction l generalizing b with
  | nil => simp at hx
  | cons y l ih =>
    rw [List.foldlM_cons]
    rcases List.mem_cons.mp hx with rfl | hx
    · rw [hg]
      rfl
    · cases g b y with
      | none => rfl
      | some b' => exact ih hx b'

/-- No hit is on a subscription that is gone. -/
def HitsLive (rt : Router) (p : Publication) : Prop :=
  ∀ id, rt.Counted p id → ∃ S ∈ rt.subscriptions, S.subscription_id = id

section

variable {rt : Router} (hs : SubsInv rt) (hm : Sound rt.constraints)

include hs hm

theorem selectCounted_taken {p : Publication} (hlive : rt.HitsLive p) (order : VisitOrder)
    (sel : Selection) {entry : Nat × SubscriptionCounter} (hentry : entry ∈ rt.count p) :
    rt.selectCounted order p sel entry =
      some ((rt.taken p entry.1).elim sel (sel.offer order)) := by
  rw [count_eq hm] at hentry
  have hfind := Assoc.find_of_mem (keys_foldl_bump (rt.hits p)) hentry
  have hcounted : rt.Counted p entry.1 := (isSome_foldl_bump (rt.hits p) entry.1).mp
    (by rw [hfind]; rfl)
  have hcounts := getD_foldl_bump (rt.hits p) entry.1
  rw [hfind, Option.getD_some] at hcounts
  obtain ⟨S, hS, hid⟩ := hlive _ hcounted
  have hcond : rt.Matching p S ↔ entry.2.required = S.countRequired ∧
      (entry.2.optional = S.countOptional ∨ S.filter.checkOptionals p = true) := by
    unfold Matching
    rw [hid, if_pos hcounted, hcounts]
  unfold selectCounted taken
  rw [← hid, hs.findSub_eq hS]
  dsimp only
  by_cases hmat : rt.Matching p S
  · rw [if_pos (hcond.mp hmat), Option.filter_some, if_pos (decide_eq_true hmat)]
    rfl
  · rw [if_neg (fun hc => hmat (hcond.mpr hc)), Option.filter_some, if_neg (by simpa using hmat)]
    rfl

theorem selectUncounted_taken {p : Publication} (hn : NoReqInv rt) (order : VisitOrder)
    (sel : Selection) {id : Nat} (hid : id ∈ rt.no_requirements) :
    rt.selectUncounted order p (rt.count p) sel id =
      some ((if rt.Counted p id then none else rt.taken p id).elim sel (sel.offer order)) := by
  obtain ⟨S, hS, rfl, -⟩ := hn.live id hid
  unfold selectUncounted
  rw [count_eq hm]
  by_cases hc : rt.Counted p S.subscription_id
  · rw [if_pos ((isSome_foldl_bump _ _).mpr hc), if_pos hc]
    rfl
  · rw [if_neg (fun h => hc ((isSome_foldl_bump _ _).mp h)), if_neg hc, taken, hs.findSub_eq hS]
    have hcond : rt.Matching p S ↔ S.filter.checkOptionals p = true := by
      unfold Matching
      rw [if_neg hc]
      exact and_iff_right hid
    dsimp only
    by_cases hmat : rt.Matching p S
    · rw [if_pos (hcond.mp hmat), Option.filter_some, if_pos (decide_eq_true hmat)]
      rfl
    · rw [if_neg (fun h => hmat (hcond.mpr h)), Option.filter_some, if_neg (by simpa using hmat)]
      rfl

/-- Where no hit dangles, the selection is the running maximum over what the loops take. -/
theorem select_taken {p : Publication} (hlive : rt.HitsLive p) (hn : NoReqInv rt)
    (order : VisitOrder) :
    ∃ sel, rt.select order p = some sel ∧ sel.pair =
      collect 256 rank (receiversOf order) (rt.takenCounted order p ++ rt.takenUncounted order p)
      (0, []) := by
  have hfirst := foldlM_taken order (rt.selectCounted order p) (fun e => rt.taken p e.1)
    (order.counter (rt.count p))
    (fun sel e he => selectCounted_taken hs hm hlive order sel
      ((order.counter_perm _).mem_iff.mp he)) ⟨0, []⟩
  have hsecond := foldlM_taken order (rt.selectUncounted order p (rt.count p))
    (fun id => if rt.Counted p id then none else rt.taken p id)
      (order.no_requirements rt.no_requirements)
    (fun sel id hid => selectUncounted_taken hs hm hn order sel
      ((order.no_requirements_perm _).mem_iff.mp hid))
  refine ⟨(rt.takenCounted order p ++ rt.takenUncounted order p).foldl (Selection.offer order)
    ⟨0, []⟩, ?_, ?_⟩
  · have h₁ : (order.counter (rt.count p)).filterMap (fun e => rt.taken p e.1) =
        rt.takenCounted order p := by
      unfold takenCounted Assoc.keys
      rw [List.filterMap_map]
      rfl
    have h₂ : (order.no_requirements rt.no_requirements).filterMap
        (fun id => if rt.Counted p id then none else rt.taken p id) =
          rt.takenUncounted order p := by
      unfold takenUncounted
      rw [List.filterMap_filter]
      refine List.filterMap_congr fun id _ => ?_
      by_cases hc : rt.Counted p id <;> simp [hc]
    unfold select
    dsimp only
    rw [hfirst, Option.bind_some, hsecond, h₁, h₂, List.foldl_append]
  · rw [pair_foldl]
    rfl

omit hs in
theorem hitsLive_of_select {p : Publication} {order : VisitOrder} {sel : Selection}
    (h : rt.select order p = some sel) : rt.HitsLive p := by
  intro id hc
  by_contra hdead
  obtain ⟨e, he, rfl⟩ := List.mem_map.mp ((mem_keys_count hm order p id).mpr hc)
  have hfind : rt.findSub e.1 = none := by
    cases hf : rt.findSub e.1 with
    | none => rfl
    | some S => exact absurd ⟨S, mem_of_findSub hf⟩ hdead
  have hnone : (order.counter (rt.count p)).foldlM (rt.selectCounted order p) ⟨0, []⟩ = none :=
    foldlM_eq_none he (fun sel => by unfold selectCounted; rw [hfind]) _
  unfold select at h
  dsimp only at h
  rw [hnone] at h
  simp at h

end

/-! ## The highest priority -/

theorem takenCounted_nodup {rt : Router} (hs : SubsInv rt) (hm : Sound rt.constraints)
    (order : VisitOrder) (p : Publication) : (rt.takenCounted order p).Nodup := by
  have hkeys : (Assoc.keys (order.counter (rt.count p))).Perm (Assoc.keys (rt.count p)) :=
    (order.counter_perm _).map _
  refine List.Nodup.filterMap ?_ ?_
  · intro a b S ha hb
    rw [← ((taken_eq_some hs).mp ha).2.1, ← ((taken_eq_some hs).mp hb).2.1]
  · rw [hkeys.nodup_iff, count_eq hm]
    exact keys_foldl_bump _

theorem takenUncounted_nodup {rt : Router} (hs : SubsInv rt) (hn : NoReqInv rt) (order : VisitOrder)
    (p : Publication) : (rt.takenUncounted order p).Nodup := by
  refine List.Nodup.filterMap ?_ (List.Nodup.filter _ ?_)
  · intro a b S ha hb
    rw [← ((taken_eq_some hs).mp ha).2.1, ← ((taken_eq_some hs).mp hb).2.1]
  · exact (order.no_requirements_perm _).nodup_iff.mpr hn.nodup

theorem taken_nodup {rt : Router} (hs : SubsInv rt) (hm : Sound rt.constraints) (hn : NoReqInv rt)
    (order : VisitOrder) (p : Publication) :
    (rt.takenCounted order p ++ rt.takenUncounted order p).Nodup := by
  refine List.nodup_append.mpr ⟨takenCounted_nodup hs hm order p, takenUncounted_nodup hs hn
    order p, ?_⟩
  rintro S hS T hT rfl
  exact ((mem_takenUncounted hs order).mp hT).2.1 ((mem_takenCounted hs hm order).mp hS).2.1

theorem mem_receiversOf (order : VisitOrder) (S : Subscription) (r s : Nat) :
    (r, s) ∈ receiversOf order S ↔ r ∈ Assoc.keys S.receivers ∧ S.subscription_id = s := by
  unfold receiversOf Assoc.keys
  simp only [List.mem_map, (order.receivers_perm _).mem_iff, Prod.mk.injEq]
  constructor
  · rintro ⟨e, he, rfl, hs⟩
    exact ⟨⟨e, he, rfl⟩, hs⟩
  · rintro ⟨⟨e, he, rfl⟩, hs⟩
    exact ⟨e, he, rfl, hs⟩

theorem receiversOf_apart {rt : Router} (hs : SubsInv rt) (order : VisitOrder)
    {l : List Subscription} (hl : l.Nodup) (hsub : ∀ S ∈ l, S ∈ rt.subscriptions) :
    RunningMax.Apart (receiversOf order) l := by
  refine ⟨?_, ?_, ?_⟩
  · refine hl.imp_of_mem ?_
    intro S T hS hT hne b hb hb'
    obtain ⟨r, s⟩ := b
    have hid := ((mem_receiversOf order S r s).mp hb).2
    have hid' := ((mem_receiversOf order T r s).mp hb').2
    exact hne (hs.eq_of_id (hsub S hS) (hsub T hT) (hid.trans hid'.symm))
  · intro S hS
    have hperm : (receiversOf order S).Perm ((Assoc.keys S.receivers).map fun r =>
        (r, S.subscription_id)) := by
      unfold receiversOf Assoc.keys
      rw [List.map_map]
      exact (order.receivers_perm S.receivers).map _
    rw [hperm.nodup_iff]
    exact (hs.wf S (hsub S hS)).keys_nodup.map fun a b hab => (Prod.mk.inj hab).1
  · intro S hS hnil
    obtain ⟨e, he⟩ := List.exists_mem_of_ne_nil _ (hs.wf S (hsub S hS)).receivers_ne
    have hmem := (mem_receiversOf order S e.1 S.subscription_id).mpr ⟨List.mem_map_of_mem he, rfl⟩
    rw [hnil] at hmem
    simp at hmem

/-- No matching subscription has a higher priority. -/
def Highest (rt : Router) (p : Publication) (S : Subscription) : Prop :=
  rt.Matching p S ∧ ∀ T ∈ rt.subscriptions, rt.Matching p T →
    T.arguments.priority ≤ S.arguments.priority

instance (rt : Router) (p : Publication) (S : Subscription) : Decidable (rt.Highest p S) :=
  inferInstanceAs (Decidable (rt.Matching p S ∧ ∀ T ∈ rt.subscriptions, rt.Matching p T →
    T.arguments.priority ≤ S.arguments.priority))

/-- In every order, exactly the receivers of the matching subscriptions with the highest priority
get the publication, each once for each of these. -/
def HighestWins (board : Board) (rt : Router) (seq : UInt32) (p : Publication) : Prop :=
  ∀ order : VisitOrder, ∃ ds, (publishInternal board rt order seq p).1 = some ds ∧
    (ds.map Delivery.target).Nodup ∧ ∀ r s, (r, s) ∈ ds.map Delivery.target ↔
      ∃ S ∈ rt.subscriptions, S.subscription_id = s ∧ r ∈ Assoc.keys S.receivers ∧
        rt.Highest (stamp board seq p).1 S

/-- The priorities of the matching subscriptions fit into 8 bits. Or a single one has the highest,
and those that may be visited after it are below its last 8 bits: the counted ones come first. -/
structure PrioritiesFit (rt : Router) (p : Publication) : Prop where
  live : rt.HitsLive p
  fit : (∀ S ∈ rt.subscriptions, rt.Matching p S → S.arguments.priority.toNat < 256) ∨
    ∃ T ∈ rt.subscriptions, rt.Matching p T ∧ ∀ S ∈ rt.subscriptions, rt.Matching p S → S ≠ T →
      S.arguments.priority < T.arguments.priority ∧
        ((rt.Counted p S.subscription_id → rt.Counted p T.subscription_id) →
          S.arguments.priority.toNat < T.arguments.priority.toNat % 256)

/-- The order that visits the subscription `id` first in its loop. -/
def VisitOrder.front (id : Nat) : VisitOrder where
  counter c := c.filter (fun e => e.1 = id) ++ c.filter fun e => ¬ e.1 = id
  no_requirements l := l.filter (fun n => n = id) ++ l.filter fun n => ¬ n = id
  receivers l := l
  counter_perm c := by simpa using List.filter_append_perm (fun e : Nat × SubscriptionCounter => e.1 = id) c
  no_requirements_perm l := by simpa using List.filter_append_perm (fun n => n = id) l
  receivers_perm l := List.Perm.refl l

theorem filter_eq_self_of_nodup {l : List Nat} (hl : l.Nodup) {id : Nat} (hid : id ∈ l) :
    l.filter (fun n => n = id) = [id] := by
  rw [List.filter_eq, List.count_eq_one_of_mem hl hid, List.replicate_one]

section

variable {rt : Router} (hs : SubsInv rt) (hm : Sound rt.constraints) (hn : NoReqInv rt)
  {p : Publication}

include hs hm

theorem isTop_iff (order : VisitOrder) {S : Subscription} :
    RunningMax.IsTop rank (rt.takenCounted order p ++ rt.takenUncounted order p) S ↔
      S ∈ rt.subscriptions ∧ rt.Highest p S := by
  unfold RunningMax.IsTop Highest
  simp only [mem_taken hs hm, UInt32.le_iff_toNat_le, and_assoc]
  constructor
  · rintro ⟨hS, hmat, htop⟩
    exact ⟨hS, hmat, fun T hT hmatT => htop T ⟨hT, hmatT⟩⟩
  · rintro ⟨hS, hmat, htop⟩
    exact ⟨hS, hmat, fun T hT => htop T hT.1 hT.2⟩

theorem front_counted {T : Subscription} (hT : T ∈ rt.subscriptions) (hmat : rt.Matching p T)
    (hc : rt.Counted p T.subscription_id) :
    ∃ l, rt.takenCounted (.front T.subscription_id) p = T :: l := by
  have hkeys : T.subscription_id ∈ Assoc.keys (rt.count p) := (mem_keys_count hm .plain p _).mpr hc
  have hnodup : (Assoc.keys (rt.count p)).Nodup := by
    rw [count_eq hm]
    exact keys_foldl_bump _
  have hfirst : Assoc.keys ((rt.count p).filter fun e => e.1 = T.subscription_id) =
      [T.subscription_id] := by
    rw [← filter_eq_self_of_nodup hnodup hkeys]
    unfold Assoc.keys
    rw [List.filter_map]
    rfl
  unfold takenCounted VisitOrder.front
  dsimp only
  rw [show Assoc.keys ((rt.count p).filter (fun e => e.1 = T.subscription_id) ++
      (rt.count p).filter fun e => ¬ e.1 = T.subscription_id) =
      [T.subscription_id] ++ Assoc.keys ((rt.count p).filter fun e => ¬ e.1 = T.subscription_id) by
    rw [← hfirst]; exact List.map_append]
  rw [List.filterMap_append, List.filterMap_cons, (taken_eq_some hs).mpr ⟨hT, rfl, hmat⟩]
  exact ⟨_, rfl⟩

omit hm in
include hn in
theorem front_uncounted {T : Subscription} (hT : T ∈ rt.subscriptions) (hmat : rt.Matching p T)
    (hc : ¬ rt.Counted p T.subscription_id) :
    ∃ l, rt.takenUncounted (.front T.subscription_id) p = T :: l := by
  have hreq : T.subscription_id ∈ rt.no_requirements := by
    unfold Matching at hmat
    rw [if_neg hc] at hmat
    exact hmat.1
  unfold takenUncounted VisitOrder.front
  dsimp only
  rw [filter_eq_self_of_nodup hn.nodup hreq, List.filter_append, List.filter_cons_of_pos
    (by simpa using hc), List.filterMap_append, List.filterMap_cons, (taken_eq_some hs).mpr
      ⟨hT, rfl, hmat⟩]
  exact ⟨_, rfl⟩

include hn

theorem taken_apart (order : VisitOrder) :
    RunningMax.Apart (receiversOf order) (rt.takenCounted order p ++ rt.takenUncounted order p) :=
  receiversOf_apart hs order (taken_nodup hs hm hn order p) fun _ hS =>
    ((mem_taken hs hm order).mp hS).1

/-- What is delivered in one order is right if the running maximum is. -/
theorem delivers_iff (hlive : rt.HitsLive p) (order : VisitOrder) :
    (∃ sel, rt.select order p = some sel ∧ sel.current_receivers.Nodup ∧
      ∀ r s, (r, s) ∈ sel.current_receivers ↔
        ∃ S ∈ rt.subscriptions, S.subscription_id = s ∧ r ∈ Assoc.keys S.receivers ∧
        rt.Highest p S) ↔
      Right 256 rank (receiversOf order) (rt.takenCounted order p ++
        rt.takenUncounted order p) := by
  obtain ⟨sel, hsel, hpair⟩ := select_taken hs hm hlive hn order
  have hcol := congrArg Prod.snd hpair
  have htop : ∀ r s, (∃ S ∈ rt.subscriptions, S.subscription_id = s ∧ r ∈ Assoc.keys S.receivers ∧
      rt.Highest p S) ↔ ∃ S, RunningMax.IsTop rank (rt.takenCounted order p ++
        rt.takenUncounted order p) S ∧
        (r, s) ∈ receiversOf order S := by
    intro r s
    simp only [isTop_iff hs hm, mem_receiversOf]
    constructor
    · rintro ⟨S, hS, hid, hr, hhigh⟩
      exact ⟨S, ⟨hS, hhigh⟩, hr, hid⟩
    · rintro ⟨S, ⟨hS, hhigh⟩, hr, hid⟩
      exact ⟨S, hS, hid, hr, hhigh⟩
  unfold Right
  rw [← hcol]
  simp only [htop]
  constructor
  · rintro ⟨sel', hsel', hnodup, hmem⟩
    obtain rfl : sel = sel' := Option.some.inj (hsel.symm.trans hsel')
    exact ⟨hnodup, fun b => hmem b.1 b.2⟩
  · rintro ⟨hnodup, hmem⟩
    exact ⟨sel, hsel, hnodup, fun r s => hmem (r, s)⟩

theorem right_of_fit (h : rt.PrioritiesFit p) (order : VisitOrder) :
    Right 256 rank (receiversOf order) (rt.takenCounted order p ++ rt.takenUncounted order p) := by
  have hapart := taken_apart hs hm hn (p := p) order
  have hmem := fun S => mem_taken hs hm order (p := p) (S := S)
  by_cases hfits : ∀ S ∈ rt.subscriptions, rt.Matching p S → rank S < 256
  · exact RunningMax.right_of_fits hapart fun S hS => hfits S ((hmem S).mp hS).1 ((hmem S).mp hS).2
  · obtain ⟨T, hT, hmat, hrest⟩ := h.fit.resolve_left hfits
    have hwide : 256 ≤ rank T := by
      by_contra hlt
      refine hfits fun S hS hmatS => ?_
      by_cases hST : S = T
      · rw [hST]
        omega
      · have := UInt32.lt_iff_toNat_lt.mp (hrest S hS hmatS hST).1
        unfold rank at hlt ⊢
        omega
    have hnodup := taken_nodup hs hm hn order p
    -- everything else in the list is another matching subscription
    have hsplit : ∀ l₁ l₂, rt.takenCounted order p ++ rt.takenUncounted order p = l₁ ++ T :: l₂ →
        (∀ S ∈ l₂, rt.Counted p S.subscription_id → rt.Counted p T.subscription_id) →
        Right 256 rank (receiversOf order) (rt.takenCounted order p ++
          rt.takenUncounted order p) := by
      intro l₁ l₂ heq hafter
      rw [heq] at hapart hnodup hmem ⊢
      have hother : ∀ S ∈ l₁ ++ l₂, S ∈ rt.subscriptions ∧ rt.Matching p S ∧ S ≠ T := by
        intro S hS
        have hin : S ∈ l₁ ++ T :: l₂ := by
          rcases List.mem_append.mp hS with hS | hS
          · exact List.mem_append_left _ hS
          · exact List.mem_append_right _ (List.mem_cons_of_mem _ hS)
        refine ⟨((hmem S).mp hin).1, ((hmem S).mp hin).2, ?_⟩
        rintro rfl
        exact (List.nodup_cons.mp (List.nodup_middle.mp hnodup)).1 hS
      refine RunningMax.right_of_wide (by omega) hapart hwide ?_ ?_
      · intro S hS
        obtain ⟨hS, hmatS, hne⟩ := hother S hS
        exact UInt32.lt_iff_toNat_lt.mp (hrest S hS hmatS hne).1
      · intro S hS
        obtain ⟨hSs, hmatS, hne⟩ := hother S (List.mem_append_right _ hS)
        exact (hrest S hSs hmatS hne).2 (hafter S hS)
    by_cases hc : rt.Counted p T.subscription_id
    · obtain ⟨a, b, hab⟩ := List.append_of_mem ((mem_takenCounted hs hm order).mpr ⟨hT, hc, hmat⟩)
      refine hsplit a (b ++ rt.takenUncounted order p) ?_ fun _ _ _ => hc
      rw [hab, List.append_assoc, List.cons_append]
    · obtain ⟨a, b, hab⟩ := List.append_of_mem ((mem_takenUncounted hs order).mpr ⟨hT, hc, hmat⟩)
      refine hsplit (rt.takenCounted order p ++ a) b ?_ ?_
      · rw [hab, List.append_assoc]
      · intro S hS hcS
        have hun : S ∈ rt.takenUncounted order p := by
          rw [hab]
          exact List.mem_append_right _ (List.mem_cons_of_mem _ hS)
        exact absurd hcS ((mem_takenUncounted hs order).mp hun).2.1

theorem fit_of_right (hright : ∀ order : VisitOrder,
    Right 256 rank (receiversOf order) (rt.takenCounted order p ++ rt.takenUncounted order p)) :
    (∀ S ∈ rt.subscriptions, rt.Matching p S → S.arguments.priority.toNat < 256) ∨
    ∃ T ∈ rt.subscriptions, rt.Matching p T ∧ ∀ S ∈ rt.subscriptions, rt.Matching p S → S ≠ T →
      S.arguments.priority < T.arguments.priority ∧
        ((rt.Counted p S.subscription_id → rt.Counted p T.subscription_id) →
          S.arguments.priority.toNat < T.arguments.priority.toNat % 256) := by
  by_cases hfits : ∀ S ∈ rt.subscriptions, rt.Matching p S → S.arguments.priority.toNat < 256
  · exact Or.inl hfits
  · right
    push Not at hfits
    obtain ⟨W, hW, hmatW, hwide⟩ := hfits
    have hmem := fun order S => mem_taken hs hm order (p := p) (S := S)
    have hne := List.ne_nil_of_mem ((hmem .plain W).mpr ⟨hW, hmatW⟩)
    obtain ⟨T, htop⟩ : ∃ T, RunningMax.IsTop rank _ T := RunningMax.exists_isTop hne
    obtain ⟨hT, hmat, hhigh⟩ := (isTop_iff hs hm .plain).mp htop
    have hwideT : 256 ≤ rank T := by
      have := UInt32.le_iff_toNat_le.mp (hhigh W hW hmatW)
      unfold rank
      omega
    refine ⟨T, hT, hmat, fun S hS hmatS hne => ?_⟩
    have htop' := (isTop_iff hs hm (.front T.subscription_id)).mpr ⟨hT, hmat, hhigh⟩
    have hr := hright (.front T.subscription_id)
    have hapart := taken_apart hs hm hn (p := p) (.front T.subscription_id)
    have hin := (hmem (.front T.subscription_id) S).mpr ⟨hS, hmatS⟩
    by_cases hc : rt.Counted p T.subscription_id
    · obtain ⟨l, hl⟩ := front_counted hs hm hT hmat hc
      rw [hl] at hr hapart hin htop'
      obtain ⟨hone, hafter⟩ := RunningMax.wide_of_right_front (by omega) hapart hwideT htop' hr
      have hS' := (List.mem_cons.mp hin).resolve_left hne
      exact ⟨UInt32.lt_iff_toNat_lt.mpr (hone S hS'), fun _ => hafter S hS'⟩
    · obtain ⟨l, hl⟩ := front_uncounted hs hn hT hmat hc
      rw [hl] at hr hapart hin htop'
      obtain ⟨hone, hafter⟩ := RunningMax.wide_of_right (by omega) hapart hwideT htop' hr
      constructor
      · apply UInt32.lt_iff_toNat_lt.mpr
        apply hone
        rcases List.mem_append.mp hin with hin | hin
        · exact List.mem_append_left _ hin
        · exact List.mem_append_right _ ((List.mem_cons.mp hin).resolve_left hne)
      · intro hfollow
        have hcS : ¬ rt.Counted p S.subscription_id := fun hcS => hc (hfollow hcS)
        have hun := (mem_takenUncounted hs (.front T.subscription_id)).mpr ⟨hS, hcS, hmatS⟩
        rw [hl] at hun
        exact hafter S ((List.mem_cons.mp hun).resolve_left hne)

end

theorem publishInternal_eq (board : Board) (rt : Router) (order : VisitOrder) (seq : UInt32)
    (p : Publication) (ds : List Delivery) : (publishInternal board rt order seq p).1 = some ds ↔
      ∃ sel, rt.select order (stamp board seq p).1 = some sel ∧
        fanOut (stamp board seq p).1 sel.current_receivers = ds := by
  unfold publishInternal
  dsimp only
  rw [Option.map_eq_some_iff]

theorem highestWins_iff (board : Board) (ops : List Op) (seq : UInt32) (p : Publication) :
    HighestWins board (run board ops) seq p ↔
    (run board ops).PrioritiesFit (stamp board seq p).1 := by
  have hinv := inv_run board ops
  have hn := noReq_run board ops
  generalize run board ops = rt at hinv hn
  have hs := hinv.subs
  have hm := hinv.sound
  have hselect : ∀ order : VisitOrder,
      (∃ ds, (publishInternal board rt order seq p).1 = some ds ∧ (ds.map Delivery.target).Nodup ∧
        ∀ r s, (r, s) ∈ ds.map Delivery.target ↔ ∃ S ∈ rt.subscriptions, S.subscription_id = s ∧
          r ∈ Assoc.keys S.receivers ∧ rt.Highest (stamp board seq p).1 S) ↔
      ∃ sel, rt.select order (stamp board seq p).1 = some sel ∧ sel.current_receivers.Nodup ∧
        ∀ r s, (r, s) ∈ sel.current_receivers ↔ ∃ S ∈ rt.subscriptions, S.subscription_id = s ∧
          r ∈ Assoc.keys S.receivers ∧ rt.Highest (stamp board seq p).1 S := by
    intro order
    constructor
    · rintro ⟨ds, hds, hgood⟩
      obtain ⟨sel, hsel, rfl⟩ := (publishInternal_eq board rt order seq p ds).mp hds
      rw [fanOut_targets] at hgood
      exact ⟨sel, hsel, hgood⟩
    · rintro ⟨sel, hsel, hgood⟩
      refine ⟨_, (publishInternal_eq board rt order seq p _).mpr ⟨sel, hsel, rfl⟩, ?_⟩
      rw [fanOut_targets]
      exact hgood
  unfold HighestWins
  simp only [hselect]
  constructor
  · intro h
    obtain ⟨sel, hsel, -⟩ := h .plain
    have hlive := hitsLive_of_select hm hsel
    exact ⟨hlive, fit_of_right hs hm hn fun order => (delivers_iff hs hm hn hlive order).mp
      (h order)⟩
  · intro h order
    exact (delivers_iff hs hm hn h.live order).mpr (right_of_fit hs hm hn h order)

/-- The priority 256 is kept as 0, so the priority 1 after it wins. -/
theorem not_highestWins_256 : ¬ HighestWins ⟨"node", 3⟩
    (run ⟨"node", 3⟩
      [.add ⟨[.str "type" "ping" .EQ false], []⟩ 1 ⟨"node", "a", "1"⟩ "node"
        ⟨.CLUSTER, 256, .FUTURE⟩, .add ⟨[.str "type" "ping" .EQ false], []⟩ 2 ⟨"node", "b", "1"⟩
          "node" ⟨.CLUSTER, 1, .FUTURE⟩])
    0 ((Publication.ofPublisher "peer" "a" "1").setAttr "type" (.str "ping")) := by
  intro h
  obtain ⟨ds, hds, -, hmem⟩ := h .plain
  obtain ⟨sel, hsel, rfl⟩ := (publishInternal_eq _ _ _ _ _ _).mp hds
  rw [fanOut_targets] at hmem
  have hsome := congrArg (Option.map Selection.current_receivers) hsel
  have hrec : sel.current_receivers = [(2, 12)] := Option.some.inj (hsome.symm.trans (by decide))
  rw [hrec] at hmem
  exact absurd ((hmem 2 12).mp (by simp)) (by decide)

end Router

end UActor
