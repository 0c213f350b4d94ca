import UActor.PubSub.Linked

/-!
# Routing

`publish_internal` never looks at a filter as a whole: it counts hits. Here the counts become
`Filter::matches` again.
-/

namespace UActor

namespace Router

open Buckets (Filed)

/-! ## The counter -/

theorem getD_foldl_bump (hits : List (Nat × Bool)) (s : Nat) :
    (Assoc.find s (hits.foldl Counter.bump [])).getD ⟨0, 0⟩ =
      ⟨hits.count (s, false), hits.count (s, true)⟩ := by
  have hcounted := Counter.counted_foldl_bump [] hits s
  simpa [Counter.counted] using hcounted

theorem isSome_foldl_bump (hits : List (Nat × Bool)) (s : Nat) :
    (Assoc.find s (hits.foldl Counter.bump [])).isSome = true ↔ s ∈ hits.map Prod.fst := by
  induction hits using List.reverseRecOn with
  | nil => simp
  | append_singleton hits hit ih =>
    rw [List.foldl_append, List.foldl_cons, List.foldl_nil]
    generalize hits.foldl Counter.bump [] = c at ih
    unfold Counter.bump
    dsimp only
    rw [Assoc.find_put, List.map_append, List.mem_append]
    split
    · rename_i hs
      simp [hs]
    · rename_i hs
      simp [ih, Ne.symm hs]

theorem keys_foldl_bump (hits : List (Nat × Bool)) :
    (Assoc.keys (hits.foldl Counter.bump [])).Nodup := by
  induction hits using List.reverseRecOn with
  | nil => exact List.nodup_nil
  | append_singleton hits hit ih =>
    rw [List.foldl_append]
    exact Assoc.keys_put_nodup ih _ _

/-- All hits of a publication, in the order of its attributes. -/
def hits (rt : Router) (p : Publication) : List (Nat × Bool) :=
  p.attributes.flatMap fun e => Buckets.members (fun d => d.accepts e.2)
    (itemsAt rt.constraints e.1)

theorem countAttribute_eq {rt : Router} (h : Sound rt.constraints) (c : Counter)
    (e : String × Variant) :
    rt.countAttribute c e =
      (Buckets.members (fun d => d.accepts e.2) (itemsAt rt.constraints e.1)).foldl
        Counter.bump c := by
  have hs := h e.1
  unfold countAttribute itemsAt indexAt at *
  cases hf : Assoc.find e.1 rt.constraints with
  | none => rfl
  | some ix =>
    rw [hf] at hs
    exact ConstraintIndex.check_eq hs e.2 c

theorem count_eq {rt : Router} (h : Sound rt.constraints) (p : Publication) :
    rt.count p = (rt.hits p).foldl Counter.bump [] := by
  unfold count hits
  generalize ([] : Counter) = c
  induction p.attributes generalizing c with
  | nil => rfl
  | cons e m ih =>
    rw [List.foldl_cons, ih, List.flatMap_cons, List.foldl_append, countAttribute_eq h]

/-- The publication has a value that the constraint accepts. -/
def hit (m : Map) (c : Constraint) : Bool :=
  match Assoc.find c.attr m with
  | some v => c.accepts v
  | none => false

theorem countP_hit_cons {e : String × Variant} {m : Map} (he : e.1 ∉ Assoc.keys m)
    (cs : List Constraint) :
    cs.countP (hit (e :: m)) =
      (cs.filter fun c => c.attr = e.1).countP (fun c => c.accepts e.2) + cs.countP (hit m) := by
  induction cs with
  | nil => rfl
  | cons c cs ih =>
    by_cases hc : c.attr = e.1
    · have hno : hit m c = false := by
        unfold hit
        rw [hc, Assoc.find_eq_none.mpr he]
      have hyes : hit (e :: m) c = c.accepts e.2 := by
        unfold hit Assoc.find
        rw [if_pos hc.symm]
      rw [List.countP_cons, List.countP_cons, List.filter_cons_of_pos (by simpa using hc),
        List.countP_cons, hno, hyes, ih]
      simp only [Bool.false_eq_true, if_false]
      omega
    · have hsame : hit (e :: m) c = hit m c := by
        unfold hit
        rw [Assoc.find, if_neg (Ne.symm hc)]
      rw [List.countP_cons, List.countP_cons, List.filter_cons_of_neg (by simpa using hc),
        hsame, ih]
      omega

theorem count_hits {U : Constraint → Prop} (hU : ∀ c, U c → c.eqv c = true) {rt : Router}
    (h : Linked U rt) (hs : SubsInv rt) (hm : Sound rt.constraints) {S : Subscription}
    (hS : S ∈ rt.subscriptions) (b : Bool) (p : Publication) :
    (rt.hits p).count (S.subscription_id, b) = (S.filter.constraintsOf b).countP
      (hit p.attributes) := by
  have hone : ∀ e : String × Variant,
      (Buckets.members (fun d => d.accepts e.2) (itemsAt rt.constraints e.1)).count
        (S.subscription_id, b) =
        ((S.filter.constraintsOf b).filter fun c => c.attr = e.1).countP fun c =>
          c.accepts e.2 := by
    intro e
    have hn : (S.filter.constraintsOf b).Nodup := by
      have := List.nodup_append.mp (h.nodup S hS)
      cases b with
      | false => exact this.1
      | true => exact this.2.1
    refine Buckets.count_members _ (wf_itemsAt hU hm h.keysIn e.1) (hn.filter _) ?_
    intro c
    simp only [List.mem_filter, decide_eq_true_eq]
    constructor
    · rintro ⟨hc, ha⟩
      rw [← ha]
      exact (h.filed c _ b).mpr ⟨S, hS, rfl, hc⟩
    · intro hf
      have ha := hm.attr_eq (mem_keys_of_filed hf)
      rw [← ha] at hf
      obtain ⟨T, hT, hid, hc⟩ := (h.filed c _ b).mp hf
      exact ⟨hs.eq_of_id hT hS hid ▸ hc, ha⟩
  unfold hits
  have hu := p.unique
  generalize p.attributes = m at hu
  induction m with
  | nil =>
    have hnone : (S.filter.constraintsOf b).countP (hit []) = 0 :=
      List.countP_eq_zero.mpr (by simp [hit])
    rw [hnone]
    rfl
  | cons e m ih =>
    obtain ⟨he, hu⟩ := List.nodup_cons.mp hu
    rw [List.flatMap_cons, List.count_append, hone, ih hu, countP_hit_cons he]

/-! ## Counts and filters -/

theorem passes_eq {v : Variant} (hv : v.isScalar = true) (c : Constraint) :
    Filter.passes c v = c.accepts v := by
  cases v <;> simp_all [Variant.isScalar, Filter.passes, Constraint.accepts]

theorem internal_passes_eq {v : Variant} (hv : v.isScalar = true) (c : Constraint) :
    InternalFilter.passes c v = c.accepts v := by
  cases v <;> simp_all [Variant.isScalar, InternalFilter.passes, Constraint.accepts]

theorem isScalar_of_getAttr {p : Publication} (hp : p.isScalar = true) {a : String} {v : Variant}
    (h : p.getAttr a = some v) : v.isScalar = true := by
  unfold Publication.isScalar at hp
  rw [List.all_eq_true] at hp
  exact hp (a, v) (Assoc.mem_of_find h)

theorem checkRequired_iff {p : Publication} (hp : p.isScalar = true) (f : Filter) :
    f.checkRequired p = true ↔ f.required.countP (hit p.attributes) = f.required.length := by
  rw [List.countP_eq_length]
  unfold Filter.checkRequired
  rw [List.all_eq_true]
  refine forall₂_congr fun c _ => ?_
  unfold hit Publication.getAttr Map.getAttr
  cases hf : Assoc.find c.attr p.attributes with
  | none => simp
  | some v =>
    have hv := isScalar_of_getAttr hp hf
    simp only [passes_eq hv]

theorem checkOptionals_eq {p : Publication} (hp : p.isScalar = true) (f : InternalFilter) :
    f.checkOptionals p = f.toFilter.checkOptionals p := by
  unfold InternalFilter.checkOptionals Filter.checkOptionals InternalFilter.toFilter
  dsimp only
  refine List.all_congr rfl fun c => ?_
  cases hf : p.getAttr c.attr with
  | none => rfl
  | some v =>
    have hv := isScalar_of_getAttr hp hf
    simp only [internal_passes_eq hv, passes_eq hv]

theorem checkOptionals_of_hits {p : Publication} (hp : p.isScalar = true) {f : Filter}
    (h : ∀ c ∈ f.optional, hit p.attributes c = true) : f.checkOptionals p = true := by
  unfold Filter.checkOptionals
  rw [List.all_eq_true]
  intro c hc
  have hhit := h c hc
  unfold hit at hhit
  unfold Publication.getAttr Map.getAttr
  cases hf : Assoc.find c.attr p.attributes with
  | none => rfl
  | some v =>
    rw [hf] at hhit
    simpa only [passes_eq (isScalar_of_getAttr hp hf)] using hhit

theorem checkOptionals_of_count {p : Publication} (hp : p.isScalar = true) (f : InternalFilter)
    (h : f.optional.countP (hit p.attributes) = f.optional.length) : f.checkOptionals p = true := by
  rw [checkOptionals_eq hp]
  exact checkOptionals_of_hits hp (List.countP_eq_length.mp h)

/-! ## The selection -/

def receiversOf (order : VisitOrder) (S : Subscription) : List (Nat × Nat) :=
  (order.receivers S.receivers).map fun e => (e.1, S.subscription_id)

/-- The selection so far, where all subscriptions have the priority `priority`. -/
def Level (priority : UInt32) (sel : Selection) : Prop :=
  sel.current_priority.toUInt32 = priority ∨ (sel.current_priority = 0 ∧ sel.current_receivers = [])

theorem toUInt8_toUInt32 {priority : UInt32} (h : priority ≤ 255) :
    priority.toUInt8.toUInt32 = priority := by
  have hlt : priority.toNat ≤ 255 := UInt32.le_iff_toNat_le.mp h
  apply UInt32.toNat_inj.mp
  simp only [UInt8.toNat_toUInt32, UInt32.toNat_toUInt8]
  omega

theorem offer_level {priority : UInt32} (hpr : priority ≤ 255) (order : VisitOrder)
    {sel : Selection} (h : Level priority sel) {S : Subscription}
    (hS : S.arguments.priority = priority) :
    Level priority (sel.offer order S) ∧
      (sel.offer order S).current_receivers = sel.current_receivers ++ receiversOf order S := by
  unfold Selection.offer
  dsimp only
  rw [hS]
  rcases h with h | ⟨h0, hnil⟩
  · rw [h, if_neg (UInt32.lt_irrefl _), if_neg (UInt32.lt_irrefl _)]
    exact ⟨Or.inl h, rfl⟩
  · rw [h0, hnil]
    split
    · exact ⟨Or.inl (toUInt8_toUInt32 hpr), rfl⟩
    · rename_i hlt
      rw [if_neg (by simp)]
      have hz : priority = 0 := by
        apply UInt32.toNat_inj.mp
        have hnat : ¬ (0 : UInt32).toNat < priority.toNat := fun hpos =>
          hlt (UInt32.lt_iff_toNat_lt.mpr hpos)
        simp only [UInt32.toNat_zero] at hnat ⊢
        omega
      exact ⟨Or.inl hz.symm, rfl⟩

theorem foldlM_offer {α : Type} {priority : UInt32} (hpr : priority ≤ 255) (order : VisitOrder)
    (g : Selection → α → Option Selection) (pick : α → Option Subscription) (L : List α)
    (hg : ∀ sel, ∀ x ∈ L, g sel x = some ((pick x).elim sel (sel.offer order)))
    (hp : ∀ x ∈ L, ∀ S, pick x = some S → S.arguments.priority = priority) (sel : Selection)
    (hsel : Level priority sel) :
    ∃ sel', L.foldlM g sel = some sel' ∧ Level priority sel' ∧
      sel'.current_receivers =
        sel.current_receivers ++ L.flatMap fun x => (pick x).elim [] (receiversOf order) := by
  induction L generalizing sel with
  | nil => exact ⟨sel, rfl, hsel, by simp⟩
  | cons x L ih =>
    rw [List.foldlM_cons, hg sel x List.mem_cons_self]
    have hrest := ih (fun sel y hy => hg sel y (List.mem_cons_of_mem _ hy))
      fun y hy => hp y (List.mem_cons_of_mem _ hy)
    cases hx : pick x with
    | none =>
      obtain ⟨sel', hf, hl, hr⟩ := hrest sel hsel
      exact ⟨sel', hf, hl, by rw [hr, List.flatMap_cons, hx]; rfl⟩
    | some S =>
      obtain ⟨hlev, hrec⟩ := offer_level hpr order hsel (hp x List.mem_cons_self S hx)
      obtain ⟨sel', hf, hl, hr⟩ := hrest _ hlev
      refine ⟨sel', hf, hl, ?_⟩
      rw [hr, hrec, List.flatMap_cons, hx, List.append_assoc]
      rfl

theorem count_receiversOf (order : VisitOrder) {S : Subscription} (h : S.Wf) (r s : Nat) :
    (receiversOf order S).count (r, s) =
      if r ∈ Assoc.keys S.receivers ∧ S.subscription_id = s then 1 else 0 := by
  have hperm : (receiversOf order S).Perm ((Assoc.keys S.receivers).map fun r =>
      (r, S.subscription_id)) := by
    unfold receiversOf Assoc.keys
    rw [List.map_map]
    exact (order.receivers_perm S.receivers).map _
  rw [hperm.count_eq]
  have hnodup : ((Assoc.keys S.receivers).map fun r => (r, S.subscription_id)).Nodup :=
    h.keys_nodup.map fun a b hab => (Prod.mk.inj hab).1
  rw [hnodup.count]
  refine if_congr ?_ rfl rfl
  rw [List.mem_map]
  constructor
  · rintro ⟨r', hr', he⟩
    obtain ⟨rfl, hs⟩ := Prod.mk.inj he
    exact ⟨hr', hs⟩
  · rintro ⟨hr, rfl⟩
    exact ⟨r, hr, rfl⟩

theorem count_flatMap_picks (order : VisitOrder) (q : Nat → Option Subscription)
    (hq : ∀ id S, q id = some S → S.subscription_id = id) (ids : List Nat) (hids : ids.Nodup)
    (r s : Nat) :
    (ids.flatMap fun id => (q id).elim [] (receiversOf order)).count (r, s) =
      if s ∈ ids then (q s).elim 0 fun S => (receiversOf order S).count (r, s) else 0 := by
  have hzero : ∀ id, id ≠ s → ((q id).elim [] (receiversOf order)).count (r, s) = 0 := by
    intro id hne
    cases hp : q id with
    | none => rfl
    | some S =>
      rw [List.count_eq_zero]
      intro hmem
      obtain ⟨e, -, he⟩ := List.mem_map.mp hmem
      exact hne (by rw [← hq id S hp]; exact (Prod.mk.inj he).2)
  induction ids with
  | nil => rfl
  | cons id ids ih =>
    obtain ⟨hid, hids⟩ := List.nodup_cons.mp hids
    rw [List.flatMap_cons, List.count_append, ih hids]
    by_cases hs : id = s
    · subst hs
      rw [if_neg hid, if_pos List.mem_cons_self]
      cases q id <;> simp
    · rw [hzero id hs, Nat.zero_add]
      simp only [List.mem_cons, Ne.symm hs, false_or]

/-! ## The two loops -/

/-- The subscription `id`, if its filter matches. -/
def pick (rt : Router) (p : Publication) (id : Nat) : Option Subscription :=
  (rt.findSub id).filter fun S => S.filter.toFilter.matches p

theorem pick_eq {rt : Router} (hs : SubsInv rt) (p : Publication) {S : Subscription}
    (hS : S ∈ rt.subscriptions) :
    rt.pick p S.subscription_id = if S.filter.toFilter.matches p then some S else none := by
  unfold pick
  rw [hs.findSub_eq hS]
  rfl

theorem mem_of_pick {rt : Router} {p : Publication} {id : Nat} {S : Subscription}
    (h : rt.pick p id = some S) :
    S ∈ rt.subscriptions ∧ S.subscription_id = id := by
  unfold pick at h
  rw [Option.filter_eq_some_iff] at h
  exact mem_of_findSub h.1

/-- The second loop skips what the first one counted. -/
def pickUncounted (rt : Router) (p : Publication) (id : Nat) : Option Subscription :=
  if id ∈ (rt.hits p).map Prod.fst then none else rt.pick p id

theorem mem_of_pickUncounted {rt : Router} {p : Publication} {id : Nat} {S : Subscription}
    (h : rt.pickUncounted p id = some S) : S ∈ rt.subscriptions ∧ S.subscription_id = id := by
  unfold pickUncounted at h
  split at h
  · simp at h
  · exact mem_of_pick h

section

variable {U : Constraint → Prop} (hU : ∀ c, U c → c.eqv c = true) {rt : Router} (h : Linked U rt)
  (hs : SubsInv rt) (hm : Sound rt.constraints)

include h hm in
theorem live_of_hit {p : Publication} {s : Nat} (hmem : s ∈ (rt.hits p).map Prod.fst) :
    ∃ S ∈ rt.subscriptions, S.subscription_id = s := by
  obtain ⟨⟨s, b⟩, hhit, rfl⟩ := List.mem_map.mp hmem
  obtain ⟨e, -, he⟩ := List.mem_flatMap.mp hhit
  obtain ⟨⟨c, ms⟩, hitem, hms⟩ := List.mem_flatMap.mp he
  have hf : Filed (itemsAt rt.constraints e.1) c s b := ⟨ms, List.mem_of_mem_filter hitem, hms⟩
  rw [← hm.attr_eq (mem_keys_of_filed hf)] at hf
  obtain ⟨S, hS, hid, -⟩ := (h.filed c s b).mp hf
  exact ⟨S, hS, hid⟩

include hU h hs hm

theorem counts_iff_matches {p : Publication} (hp : p.isScalar = true) {S : Subscription}
    (hS : S ∈ rt.subscriptions) :
    ((rt.hits p).count (S.subscription_id, false) = S.countRequired ∧
      ((rt.hits p).count (S.subscription_id, true) = S.countOptional ∨
        S.filter.checkOptionals p = true)) ↔
      S.filter.toFilter.matches p = true := by
  have hreq := checkRequired_iff hp S.filter.toFilter
  have hopt := checkOptionals_eq hp S.filter
  have hopt' := checkOptionals_of_count hp S.filter
  rw [count_hits hU h hs hm hS, count_hits hU h hs hm hS, InternalFilter.constraintsOf_false,
    InternalFilter.constraintsOf_true]
  unfold Filter.matches Subscription.countRequired Subscription.countOptional
  rw [Bool.and_eq_true, hreq, ← hopt]
  constructor
  · rintro ⟨h1, h2 | h2⟩
    · exact ⟨h1, hopt' h2⟩
    · exact ⟨h1, h2⟩
  · rintro ⟨h1, h2⟩
    exact ⟨h1, Or.inr h2⟩

theorem selectCounted_eq {p : Publication} (hp : p.isScalar = true) (order : VisitOrder)
    (sel : Selection) {entry : Nat × SubscriptionCounter} (hentry : entry ∈ rt.count p) :
    rt.selectCounted order p sel entry = some ((rt.pick p entry.1).elim sel (sel.offer order)) := by
  rw [count_eq hm] at hentry
  have hfind := Assoc.find_of_mem (keys_foldl_bump (rt.hits p)) hentry
  have hmem := (isSome_foldl_bump (rt.hits p) entry.1).mp (by rw [hfind]; rfl)
  have hcounts := getD_foldl_bump (rt.hits p) entry.1
  rw [hfind] at hcounts
  obtain ⟨S, hS, hid⟩ := live_of_hit h hm hmem
  rw [← hid, Option.getD_some] at hcounts
  have hcond : (entry.2.required = S.countRequired ∧
      (entry.2.optional = S.countOptional ∨ S.filter.checkOptionals p = true)) ↔
      S.filter.toFilter.matches p = true := by
    rw [hcounts]
    exact counts_iff_matches hU h hs hm hp hS
  unfold selectCounted
  rw [← hid, pick_eq hs p hS, hs.findSub_eq hS]
  dsimp only
  by_cases hmat : S.filter.toFilter.matches p = true
  · rw [if_pos (hcond.mpr hmat), if_pos hmat]
    rfl
  · rw [if_neg (fun hc => hmat (hcond.mp hc)), if_neg hmat]
    rfl

omit hU in
theorem selectUncounted_eq {p : Publication} (hp : p.isScalar = true) (order : VisitOrder)
    (sel : Selection) {id : Nat} (hid : id ∈ rt.no_requirements) :
    rt.selectUncounted order p (rt.count p) sel id =
      some ((rt.pickUncounted p id).elim sel (sel.offer order)) := by
  obtain ⟨S, hS, rfl, hreq⟩ := (h.no_req id).mp hid
  unfold selectUncounted pickUncounted
  rw [count_eq hm]
  simp only [isSome_foldl_bump]
  split
  · rfl
  · rw [pick_eq hs p hS, hs.findSub_eq hS]
    dsimp only
    have hmat : S.filter.toFilter.matches p = S.filter.checkOptionals p := by
      unfold Filter.matches
      rw [checkOptionals_eq hp]
      simp [Filter.checkRequired, InternalFilter.toFilter, hreq]
    rw [hmat]
    split <;> rfl

theorem not_matches_of_not_hit {p : Publication} (hp : p.isScalar = true) {S : Subscription}
    (hS : S ∈ rt.subscriptions) (hno : S.subscription_id ∉ (rt.hits p).map Prod.fst)
    (hreq : S.filter.required ≠ []) : S.filter.toFilter.matches p = false := by
  have hcount := count_hits hU h hs hm hS false p
  have hzero : (rt.hits p).count (S.subscription_id, false) = 0 := by
    rw [List.count_eq_zero]
    intro hmem
    exact hno (List.mem_map.mpr ⟨_, hmem, rfl⟩)
  rw [hzero] at hcount
  unfold Filter.matches
  rw [Bool.and_eq_false_iff]
  left
  rw [Bool.eq_false_iff, Ne, checkRequired_iff hp]
  intro hlen
  have hpos := List.length_pos_of_ne_nil hreq
  have : S.filter.required.countP (hit p.attributes) = S.filter.required.length := hlen
  rw [InternalFilter.constraintsOf_false] at hcount
  omega

theorem select_eq {priority : UInt32} (hpr : priority ≤ 255)
    (hall : ∀ S ∈ rt.subscriptions, S.arguments.priority = priority) {p : Publication}
    (hp : p.isScalar = true) (order : VisitOrder) :
    ∃ sel, rt.select order p = some sel ∧
      sel.current_receivers = (Assoc.keys (order.counter (rt.count p))).flatMap
        (fun id => (rt.pick p id).elim [] (receiversOf order)) ++
      (order.no_requirements rt.no_requirements).flatMap fun id =>
        (rt.pickUncounted p id).elim [] (receiversOf order) := by
  obtain ⟨sel₁, hf₁, hl₁, hr₁⟩ := foldlM_offer hpr order (rt.selectCounted order p)
    (fun e => rt.pick p e.1) (order.counter (rt.count p))
    (fun sel e he => selectCounted_eq hU h hs hm hp order sel
      ((order.counter_perm _).mem_iff.mp he))
    (fun e _ S hS => hall S (mem_of_pick hS).1) ⟨0, []⟩ (Or.inr ⟨rfl, rfl⟩)
  obtain ⟨sel₂, hf₂, -, hr₂⟩ := foldlM_offer hpr order (rt.selectUncounted order p (rt.count p))
    (rt.pickUncounted p) (order.no_requirements rt.no_requirements)
    (fun sel id hid => selectUncounted_eq h hs hm hp order sel
      ((order.no_requirements_perm _).mem_iff.mp hid))
    (fun id _ S hS => hall S (mem_of_pickUncounted hS).1) sel₁ hl₁
  refine ⟨sel₂, ?_, ?_⟩
  · simp only [select, hf₁]
    exact hf₂
  · rw [hr₂, hr₁, Assoc.keys, List.flatMap_map]
    rfl

/-- Exactly one of the two loops meets a live subscription that matches. -/
theorem picked_once {p : Publication} (hp : p.isScalar = true) {S : Subscription}
    (hS : S ∈ rt.subscriptions) (n : Nat) :
    ((if S.subscription_id ∈ (rt.hits p).map Prod.fst then
        (rt.pick p S.subscription_id).elim 0 (fun _ => n) else 0) +
      if S.subscription_id ∈ rt.no_requirements then
        (rt.pickUncounted p S.subscription_id).elim 0 (fun _ => n) else 0) =
      if S.filter.toFilter.matches p = true then n else 0 := by
  unfold pickUncounted
  rw [pick_eq hs p hS]
  by_cases hhit : S.subscription_id ∈ (rt.hits p).map Prod.fst
  · rw [if_pos hhit, if_pos hhit]
    cases S.filter.toFilter.matches p <;> simp
  · rw [if_neg hhit, if_neg hhit, Nat.zero_add]
    by_cases hreq : S.filter.required = []
    · rw [if_pos ((h.no_req _).mpr ⟨S, hS, rfl, hreq⟩)]
      cases S.filter.toFilter.matches p <;> simp
    · rw [not_matches_of_not_hit hU h hs hm hp hS hhit hreq]
      simp

/-- Each registered receiver of each matching subscription is selected once, and no other one. -/
theorem select_spec {priority : UInt32} (hpr : priority ≤ 255)
    (hall : ∀ S ∈ rt.subscriptions, S.arguments.priority = priority) {p : Publication}
    (hp : p.isScalar = true) (order : VisitOrder) :
    ∃ sel, rt.select order p = some sel ∧ ∀ r s, sel.current_receivers.count (r, s) =
      if ∃ S ∈ rt.subscriptions, S.subscription_id = s ∧ r ∈ Assoc.keys S.receivers ∧
        S.filter.toFilter.matches p = true then 1 else 0 := by
  obtain ⟨sel, hsel, hrec⟩ := select_eq hU h hs hm hpr hall hp order
  refine ⟨sel, hsel, ?_⟩
  intro r s
  have hkeys : (Assoc.keys (order.counter (rt.count p))).Perm (Assoc.keys (rt.count p)) :=
    (order.counter_perm _).map _
  have hin₁ : s ∈ Assoc.keys (order.counter (rt.count p)) ↔ s ∈ (rt.hits p).map Prod.fst := by
    rw [hkeys.mem_iff, count_eq hm, ← isSome_foldl_bump, Option.isSome_iff_ne_none, Ne,
      Assoc.find_eq_none, not_not]
  have hin₂ : s ∈ order.no_requirements rt.no_requirements ↔ s ∈ rt.no_requirements :=
    (order.no_requirements_perm _).mem_iff
  have hn₁ : (Assoc.keys (order.counter (rt.count p))).Nodup := by
    rw [hkeys.nodup_iff, count_eq hm]
    exact keys_foldl_bump _
  have hn₂ := (order.no_requirements_perm rt.no_requirements).nodup_iff.mpr h.no_req_nodup
  rw [hrec, List.count_append, count_flatMap_picks order _ (fun id S hS => (mem_of_pick hS).2) _
    hn₁, count_flatMap_picks order _ (fun id S hS => (mem_of_pickUncounted hS).2) _ hn₂]
  simp only [hin₁, hin₂]
  by_cases hlive : ∃ S ∈ rt.subscriptions, S.subscription_id = s
  · obtain ⟨S, hS, rfl⟩ := hlive
    have hself : ∀ o : Option Subscription,
        (∀ T, o = some T → T ∈ rt.subscriptions ∧ T.subscription_id = S.subscription_id) →
        (o.elim 0 fun T => (receiversOf order T).count (r, S.subscription_id)) =
          o.elim 0 fun _ => (receiversOf order S).count (r, S.subscription_id) := by
      intro o ho
      cases o with
      | none => rfl
      | some T =>
        obtain rfl := hs.eq_of_id (ho T rfl).1 hS (ho T rfl).2
        rfl
    have hrhs : (∃ T ∈ rt.subscriptions, T.subscription_id = S.subscription_id ∧
        r ∈ Assoc.keys T.receivers ∧
        T.filter.toFilter.matches p = true) ↔ S.filter.toFilter.matches p = true ∧
        r ∈ Assoc.keys S.receivers := by
      constructor
      · rintro ⟨T, hT, hid, hr, hmat⟩
        rw [hs.eq_of_id hT hS hid] at hr hmat
        exact ⟨hmat, hr⟩
      · rintro ⟨hmat, hr⟩
        exact ⟨S, hS, rfl, hr, hmat⟩
    rw [hself _ fun T hT => mem_of_pick hT, hself _ fun T hT => mem_of_pickUncounted hT,
      picked_once hU h hs hm hp hS, count_receiversOf order (hs.wf S hS)]
    simp only [hrhs, and_true]
    by_cases hmat : S.filter.toFilter.matches p = true <;> simp [hmat]
  · -- A dead subscription is in neither loop.
    have hdead : s ∉ (rt.hits p).map Prod.fst := fun hmem => hlive (live_of_hit h hm hmem)
    have hdead' : s ∉ rt.no_requirements := by
      intro hmem
      obtain ⟨S, hS, hid, -⟩ := (h.no_req s).mp hmem
      exact hlive ⟨S, hS, hid⟩
    rw [if_neg hdead, if_neg hdead', if_neg]
    rintro ⟨S, hS, hid, -⟩
    exact hlive ⟨S, hS, hid⟩

end

/-! ## Deliveries -/

def Delivery.target (d : Delivery) : Nat × Nat := (d.receiver, d.subscription_id)

theorem fanOut_targets (p : Publication) (l : List (Nat × Nat)) :
    (fanOut p l).map Delivery.target = l := by
  induction l with
  | nil => rfl
  | cons e l ih =>
    cases l with
    | nil => rfl
    | cons e' l => simpa [fanOut, Delivery.target] using ih

theorem copy_eq_of_scalar {p : Publication} (hp : p.isScalar = true) : p.copy = p := by
  unfold Publication.copy
  rw [if_neg]
  unfold Map.hasMapAttrs
  rw [Bool.not_eq_true, List.any_eq_false]
  intro e he
  have hv := List.all_eq_true.mp hp e he
  cases hv' : e.2 <;> simp_all [Variant.isScalar]

theorem fanOut_publication {p : Publication} (hp : p.isScalar = true) (l : List (Nat × Nat)) :
    ∀ d ∈ fanOut p l, d.publication = p := by
  induction l with
  | nil => simp [fanOut]
  | cons e l ih =>
    cases l with
    | nil => simp [fanOut]
    | cons e' l =>
      intro d hd
      rcases List.mem_cons.mp hd with rfl | hd
      · exact copy_eq_of_scalar hp
      · exact ih d hd

theorem isScalar_setAttr {p : Publication} (hp : p.isScalar = true) (a : String) {v : Variant}
    (hv : v.isScalar = true) : (p.setAttr a v).isScalar = true := by
  unfold Publication.isScalar at *
  rw [List.all_eq_true] at *
  intro e he
  rw [Publication.setAttr_attributes] at he
  rcases Assoc.mem_put he with he | rfl
  · exact hp e he
  · exact hv

theorem isScalar_stamp {p : Publication} (hp : p.isScalar = true) (board : Board) (seq : UInt32) :
    (stamp board seq p).1.isScalar = true := by
  unfold stamp
  split
  · exact isScalar_setAttr (isScalar_setAttr hp _ rfl) _ rfl
  · exact hp

/-- A call as plain routing needs it: one priority, operands without lists that are equal to
themselves, and no two equal constraints in a filter. -/
def Op.Plain (priority : UInt32) : Op → Prop
  | .add f _ _ _ args => args.fetch_policy ≠ .FETCH ∧ args.priority = priority ∧
      (∀ c ∈ f.constraints, c.isScalar = true ∧ c.eqv c = true) ∧
      f.constraints.Pairwise fun c d => c.eqv d = false
  | .remove .. => True

instance {n : UInt32} : (op : Op) → Decidable (op.Plain n)
  | .add f _ _ _ args => inferInstanceAs
      (Decidable (args.fetch_policy ≠ .FETCH ∧ args.priority = n ∧
      (∀ c ∈ f.constraints, c.isScalar = true ∧ c.eqv c = true) ∧
      f.constraints.Pairwise fun c d => c.eqv d = false))
  | .remove .. => isTrue trivial

theorem apart_of_scalar {cs : List Constraint} (h : cs.Pairwise fun c d => c.eqv d = false) :
    Apart (fun c => c.isScalar = true ∧ c.eqv c = true) cs := by
  refine h.imp ?_
  intro c d hcd e he hec
  rw [Bool.eq_false_iff]
  intro hed
  rw [Constraint.eqv_comm_of_scalar he.1] at hec
  have hc : c.isScalar = true := by rw [Constraint.isScalar_of_eqv hec]; exact he.1
  rw [Constraint.eqv_trans_of_scalar hc hec hed] at hcd
  exact absurd hcd (by simp)

/-- The routed publication is the stamped one. -/
theorem publishInternal_delivers_matches (board : Board) (priority : UInt32) (hpr : priority ≤ 255)
    (ops : List Op) (hops : ∀ op ∈ ops, op.Plain priority) (order : VisitOrder) (seq : UInt32)
    (p : Publication) (hp : p.isScalar = true) :
    ∃ ds, (publishInternal board (run board ops) order seq p).1 = some ds ∧
      (∀ d ∈ ds, d.publication = (stamp board seq p).1) ∧
      ∀ r s, (ds.map Delivery.target).count (r, s) =
        if ∃ S ∈ (run board ops).subscriptions, S.subscription_id = s ∧ r ∈ Assoc.keys S.receivers ∧
          S.filter.toFilter.matches (stamp board seq p).1 = true then 1 else 0 := by
  have hfits : ∀ op ∈ ops, op.Fits fun c => c.isScalar = true ∧ c.eqv c = true := by
    intro op hop
    cases op with
    | add f r who src args =>
      intro _
      obtain ⟨-, -, hscalar, hpair⟩ := hops _ hop
      exact ⟨hscalar, apart_of_scalar hpair⟩
    | remove => trivial
  have hinv := inv_run board ops
  have hlinked : Linked _ (run board ops) := linked_run (fun c hc => hc.2) ops hfits
  have hall := arguments_run board (fun a => a.priority = priority) ops
    fun f r who src args hmem _ => (hops _ hmem).2.1
  have hstamped := isScalar_stamp hp board seq
  obtain ⟨sel, hsel, hcount⟩ := select_spec (fun c hc => hc.2) hlinked hinv.subs hinv.sound hpr hall
    hstamped order
  refine ⟨fanOut (stamp board seq p).1 sel.current_receivers, ?_, fanOut_publication hstamped _, ?_⟩
  · simp only [publishInternal, hsel, Option.map_some]
  · intro r s
    rw [fanOut_targets]
    exact hcount r s

/-- Two receivers of one subscription, and one of a second subscription that does not match. -/
theorem publishInternal_delivers_matches_to_both :
    ∃ ds, (publishInternal ⟨"node", 3⟩
        (run ⟨"node", 3⟩
          [.add ⟨[.str "type" "ping" .EQ false], [.int "size" 4 .LT true]⟩ 1 ⟨"node", "a", "1"⟩
            "node" .default, .add ⟨[.str "type" "ping" .EQ false], [.int "size" 4 .LT true]⟩ 2
              ⟨"peer", "b", "1"⟩ "peer" .default,
            .add ⟨[.str "type" "pong" .EQ false], []⟩ 2 ⟨"peer", "b", "1"⟩ "peer" .default])
        .plain 0 ((Publication.ofPublisher "node" "a" "1").setAttr "type" (.str "ping"))).1 =
          some ds ∧
      (ds.map Delivery.target).count (1, 11) = 1 ∧ (ds.map Delivery.target).count (2, 11) = 1 ∧
      (ds.map Delivery.target).count (2, 12) = 0 := by
  obtain ⟨ds, hds, -, hcount⟩ := publishInternal_delivers_matches ⟨"node", 3⟩ 0 (by decide)
    [.add ⟨[.str "type" "ping" .EQ false], [.int "size" 4 .LT true]⟩ 1 ⟨"node", "a", "1"⟩
      "node" .default, .add ⟨[.str "type" "ping" .EQ false], [.int "size" 4 .LT true]⟩ 2
        ⟨"peer", "b", "1"⟩ "peer" .default,
      .add ⟨[.str "type" "pong" .EQ false], []⟩ 2 ⟨"peer", "b", "1"⟩ "peer" .default]
    (by decide) .plain 0
    ((Publication.ofPublisher "node" "a" "1").setAttr "type" (.str "ping")) (by decide)
  refine ⟨ds, hds, ?_, ?_, ?_⟩
  · rw [hcount]; decide
  · rw [hcount]; decide
  · rw [hcount]; decide

end Router

end UActor
