import UActor.PubSub.Priorities
import UActor.PubSub.Refiling

/-!
# Repeated constraints

The match test compares the hits of a subscription with the length of its list, and a repeated
constraint is hit once.
-/

namespace UActor

namespace Router

open Buckets (members)

/-! ## A new subscription -/

/-- The subscription that `createSubscription` adds. -/
def newSub (rt : Router) (f : Filter) (r node : Nat) (args : SubscriptionArguments) :
    Subscription :=
  ⟨rt.next_sub_id, ⟨(fileConstraints rt.next_sub_id false f.required rt.constraints).2,
    (fileConstraints rt.next_sub_id true f.optional
      (fileConstraints rt.next_sub_id false f.required rt.constraints).1).2⟩, args, [(r, [node])]⟩

/-- All operands are strings, integers or floats. -/
def Scalar (f : Filter) : Prop := ∀ c ∈ f.constraints, c.isScalar = true

instance (f : Filter) : Decidable (Scalar f) :=
  inferInstanceAs (Decidable (∀ c ∈ f.constraints, c.isScalar = true))

theorem all_of_answers {P : Constraint → Bool}
    (hP : ∀ e c, c.isScalar = true → e.eqv c = true ∨ e = c → P e = P c) {es cs : List Constraint}
    (h : List.Forall₂ (fun e c => e.eqv c = true ∨ e = c) es cs)
    (hcs : ∀ c ∈ cs, c.isScalar = true) : es.all P = cs.all P := by
  induction h with
  | nil => rfl
  | cons hec h ih =>
    rw [List.forall_mem_cons] at hcs
    rw [List.all_cons, List.all_cons, ih hcs.2, hP _ _ hcs.1 hec]

section

variable {rt : Router} (hs : SubsInv rt) (hm : Sound rt.constraints) (hn : NoReqInv rt)
  (hb : FiledBelow rt.next_sub_id rt.constraints) {f : Filter} (hf : Scalar f) (r node : Nat)
  (args : SubscriptionArguments) (p : Publication)

include hb in
theorem new_not_hit (b : Bool) : (rt.hits p).count (rt.next_sub_id, b) = 0 := by
  rw [List.count_eq_zero]
  intro hmem
  obtain ⟨e, -, he⟩ := List.mem_flatMap.mp hmem
  obtain ⟨i, hi, hid⟩ := List.mem_flatMap.mp he
  have hlt := hb e.1 i (List.mem_of_mem_filter hi) rt.next_sub_id (List.mem_map.mpr ⟨_, hid, rfl⟩)
  exact Nat.lt_irrefl _ hlt

include hm hb hf

/-- The hits of the new subscription, and of no other one, depend on its filter. -/
theorem create_count (x : Nat × Bool) :
    ((rt.createSubscription f r node args).hits p).count x = (rt.hits p).count x +
      ((if x = (rt.next_sub_id, false) then (firsts [] f.required).countP (hit p.attributes)
        else 0) +
      if x = (rt.next_sub_id, true) then (firsts f.required f.optional).countP (hit p.attributes)
        else 0) := by
  have hreq := fun c hc => hf c (List.mem_append_left _ hc)
  have hopt := fun c hc => hf c (List.mem_append_right _ hc)
  obtain ⟨hplaced, -, hcount⟩ := fileConstraints_count rt.next_sub_id false f.required hreq
    (placed_nil hb) hm
  obtain ⟨-, -, hcount'⟩ := fileConstraints_count rt.next_sub_id true f.optional hopt hplaced
    (sound_fileConstraints _ _ _ hm)
  rw [hits_eq, hits_eq, ← Nat.add_assoc, ← hcount p.unique x]
  exact hcount' p.unique x

theorem newSub_checkOptionals {p : Publication} (hp : p.isScalar = true) :
    (rt.newSub f r node args).filter.checkOptionals p = f.checkOptionals p := by
  have hreq := fun c hc => hf c (List.mem_append_left _ hc)
  have hopt := fun c hc => hf c (List.mem_append_right _ hc)
  obtain ⟨hplaced, -, -⟩ := fileConstraints_count rt.next_sub_id false f.required hreq
    (placed_nil hb) hm
  obtain ⟨-, hstored, -⟩ := fileConstraints_count rt.next_sub_id true f.optional hopt hplaced
    (sound_fileConstraints _ _ _ hm)
  rw [checkOptionals_eq hp]
  refine all_of_answers ?_ hstored hopt
  intro e c hc hec
  rw [attr_of_answers hec]
  cases hv : p.getAttr c.attr with
  | none => rfl
  | some v =>
    dsimp only
    rw [passes_eq (isScalar_of_getAttr hp hv), passes_eq (isScalar_of_getAttr hp hv),
      accepts_of_answers hc hec]

omit hm hb hf in
theorem counted_iff (id : Nat) : rt.Counted p id ↔ ∃ b, 0 < (rt.hits p).count (id, b) := by
  unfold Counted
  simp only [List.count_pos_iff, List.mem_map]
  constructor
  · rintro ⟨e, he, rfl⟩
    exact ⟨e.2, he⟩
  · rintro ⟨b, hb⟩
    exact ⟨_, hb, rfl⟩

theorem create_counted_old {id : Nat} (hid : id ≠ rt.next_sub_id) :
    (rt.createSubscription f r node args).Counted p id ↔ rt.Counted p id := by
  simp only [counted_iff, create_count hm hb hf, Prod.mk.injEq, hid, false_and, if_false,
    Nat.add_zero]

theorem create_counted_new : (rt.createSubscription f r node args).Counted p rt.next_sub_id ↔
    ∃ c ∈ f.constraints, hit p.attributes c = true := by
  have hresp : ∀ c d : Constraint, c.isScalar = true → d.eqv c = true →
      hit p.attributes d = hit p.attributes c := fun c d hc hdc => hit_of_answers hc (Or.inl hdc)
        p.attributes
  have hreq := exists_firsts (fun c hc => hf c (List.mem_append_left _ hc)) hresp []
  have hopt := exists_firsts (fun c hc => hf c (List.mem_append_right _ hc)) hresp f.required
  simp only [List.not_mem_nil, false_and, exists_false, false_or, List.nil_append] at hreq
  rw [counted_iff]
  simp only [Bool.exists_bool, create_count hm hb hf, new_not_hit hb, Prod.mk.injEq, true_and,
    if_true, Bool.false_eq_true, if_false, Bool.true_eq_false, Nat.zero_add, Nat.add_zero,
    List.countP_pos_iff]
  rw [Filter.constraints, ← hopt, hreq]

include hs

theorem create_matching_old {S : Subscription} (hS : S ∈ rt.subscriptions) :
    (rt.createSubscription f r node args).Matching p S ↔ rt.Matching p S := by
  have hid : S.subscription_id ≠ rt.next_sub_id := Nat.ne_of_lt (hs.ids S hS).2
  have hnoreq : S.subscription_id ∈ (rt.createSubscription f r node args).no_requirements ↔
      S.subscription_id ∈ rt.no_requirements := by
    unfold createSubscription
    dsimp only
    split
    · simp [hid]
    · rfl
  unfold Matching
  simp only [create_counted_old hm hb hf r node args p hid, create_count hm hb hf, hnoreq,
    Prod.mk.injEq, hid, false_and, if_false, Nat.add_zero]

include hn

omit hm hb hf in
theorem newSub_no_requirements :
    rt.next_sub_id ∈ (rt.createSubscription f r node args).no_requirements ↔ f.required = [] := by
  have hnew : rt.next_sub_id ∉ rt.no_requirements := by
    intro hmem
    obtain ⟨S, hS, hid, -⟩ := hn.live _ hmem
    exact Nat.ne_of_lt (hs.ids S hS).2 hid
  unfold createSubscription
  dsimp only
  rw [fileConstraints_length, ← List.length_eq_zero_iff]
  split
  · rename_i hz
    simp [hz]
  · rename_i hz
    simp [hz, hnew]

/-- The match test of the router is right about filters that repeat no required constraint, and
fails for all others. -/
theorem create_matching_new {p : Publication} (hp : p.isScalar = true) :
    (rt.createSubscription f r node args).Matching p (rt.newSub f r node args) ↔
      Distinct f.required ∧ f.matches p = true := by
  have hstored := newSub_checkOptionals hm hb hf r node args hp
  have hreq_hits : f.checkRequired p = true ↔ ∀ c ∈ f.required, hit p.attributes c = true := by
    rw [checkRequired_iff hp, List.countP_eq_length]
  have hfalse : ((rt.createSubscription f r node args).hits p).count (rt.next_sub_id, false) =
      (firsts [] f.required).countP (hit p.attributes) := by
    simp [create_count hm hb hf, new_not_hit hb]
  have htrue : ((rt.createSubscription f r node args).hits p).count (rt.next_sub_id, true) =
      (firsts f.required f.optional).countP (hit p.attributes) := by
    simp [create_count hm hb hf, new_not_hit hb]
  have hlen : (rt.newSub f r node args).countRequired = f.required.length := by
    exact fileConstraints_length _ _ _ _
  have hlen' : (rt.newSub f r node args).countOptional = f.optional.length := by
    exact fileConstraints_length _ _ _ _
  have hid : (rt.newSub f r node args).subscription_id = rt.next_sub_id := rfl
  unfold Matching Filter.matches
  rw [hid, hstored, Bool.and_eq_true, hreq_hits]
  by_cases hc : (rt.createSubscription f r node args).Counted p rt.next_sub_id
  · rw [if_pos hc, hfalse, htrue, hlen, hlen', countP_firsts_eq, countP_firsts_eq]
    have hshort : (∀ c ∈ f.optional, hit p.attributes c = true) → f.checkOptionals p = true :=
      checkOptionals_of_hits hp
    have hnil : ∀ c ∈ f.required, Fresh [] c := fun c _ => by simp [Fresh]
    constructor
    · rintro ⟨⟨-, hd, hall⟩, ⟨-, -, hopt⟩ | hopt⟩
      · exact ⟨hd, hall, hshort hopt⟩
      · exact ⟨hd, hall, hopt⟩
    · rintro ⟨hd, hall, hopt⟩
      exact ⟨⟨hnil, hd, hall⟩, Or.inr hopt⟩
  · rw [if_neg hc, newSub_no_requirements hs hn]
    rw [create_counted_new hm hb hf] at hc
    constructor
    · rintro ⟨hnil, hopt⟩
      rw [hnil]
      exact ⟨List.Pairwise.nil, by simp, hopt⟩
    · rintro ⟨-, hall, hopt⟩
      refine ⟨?_, hopt⟩
      -- a required constraint that is hit would count the subscription
      rw [List.eq_nil_iff_forall_not_mem]
      exact fun c hcr => hc ⟨c, List.mem_append_left _ hcr, hall c hcr⟩

end

/-! ## Filters with the same constraints -/

/-- `g` lists the constraints of `f`, some of them more often. -/
structure Repeats (f g : Filter) : Prop where
  required : List.Subperm f.required g.required ∧ g.required ⊆ f.required
  optional : List.Subperm f.optional g.optional ∧ g.optional ⊆ f.optional

/-- A publication of the state `rt` reaches `receiver` under the id `sub`. -/
def Delivered (board : Board) (rt : Router) (order : VisitOrder) (seq : UInt32) (p : Publication)
    (receiver sub : Nat) : Prop :=
  ∃ ds, (publishInternal board rt order seq p).1 = some ds ∧
    (receiver, sub) ∈ ds.map Delivery.target

/-- Both loops visit the same subscriptions in the same order in the two states. -/
structure SameVisits (rt rt' : Router) (p : Publication) (order order' : VisitOrder) : Prop where
  counter : Assoc.keys (order.counter (rt.count p)) = Assoc.keys (order'.counter (rt'.count p))
  no_requirements : order.no_requirements rt.no_requirements =
    order'.no_requirements rt'.no_requirements
  receivers : order.receivers = order'.receivers

/-- In every state, a new subscription with `g` gets what a new one with `f` would get. -/
def Interchangeable (f g : Filter) : Prop :=
  ∀ (board : Board) (ops : List Op) (r : Nat) (who : ActorIdentifier) (src : String)
    (args : SubscriptionArguments) (seq : UInt32) (p : Publication) (order order' : VisitOrder),
    args.fetch_policy ≠ .FETCH → (run board ops).findEqual f args = none →
    (run board ops).findEqual g args = none → p.isScalar = true →
    SameVisits (run board (ops ++ [.add f r who src args]))
      (run board (ops ++ [.add g r who src args])) (stamp board seq p).1 order order' →
    (Delivered board (run board (ops ++ [.add f r who src args])) order seq p r
      (run board ops).next_sub_id ↔
      Delivered board (run board (ops ++ [.add g r who src args])) order' seq p r
        (run board ops).next_sub_id)

theorem run_add_new {board : Board} {ops : List Op} {f : Filter} (r : Nat) (who : ActorIdentifier)
    (src : String) {args : SubscriptionArguments} (hfetch : args.fetch_policy ≠ .FETCH)
    (hnone : (run board ops).findEqual f args = none) :
    run board (ops ++ [.add f r who src args]) =
      ((run board ops).internNode src).1.createSubscription f r ((run board ops).internNode src).2
        args := by
  rw [run_snoc]
  generalize run board ops = rt at hnone
  have hstep := step_cases board rt (.add f r who src args)
  generalize rt.step board (.add f r who src args) = out at hstep
  cases hstep with
  | fetch _ _ _ _ _ hf => exact absurd hf hfetch
  | join _ _ _ _ _ sub hf hsub =>
    rw [hnone] at hsub
    simp at hsub
  | create => rfl

theorem delivered_iff (board : Board) (rt : Router) (order : VisitOrder) (seq : UInt32)
    (p : Publication) (receiver sub : Nat) : Delivered board rt order seq p receiver sub ↔
      ∃ sel, rt.select order (stamp board seq p).1 = some sel ∧
      (receiver, sub) ∈ sel.current_receivers := by
  unfold Delivered
  constructor
  · rintro ⟨ds, hds, hmem⟩
    obtain ⟨sel, hsel, rfl⟩ := (publishInternal_eq board rt order seq p ds).mp hds
    rw [fanOut_targets] at hmem
    exact ⟨sel, hsel, hmem⟩
  · rintro ⟨sel, hsel, hmem⟩
    refine ⟨_, (publishInternal_eq board rt order seq p _).mpr ⟨sel, hsel, rfl⟩, ?_⟩
    rw [fanOut_targets]
    exact hmem

/-- The selection reads the receivers and the priority of a subscription. -/
def Alike (S T : Subscription) : Prop :=
  S.subscription_id = T.subscription_id ∧ S.arguments = T.arguments ∧ S.receivers = T.receivers

theorem filterMap_alike {a b : Nat → Option Subscription} {ids : List Nat}
    (h : ∀ id, Option.Rel Alike (a id) (b id)) :
    List.Forall₂ Alike (ids.filterMap a) (ids.filterMap b) := by
  induction ids with
  | nil => exact .nil
  | cons id ids ih =>
    rw [List.filterMap_cons, List.filterMap_cons]
    have hid := h id
    generalize a id = x, b id = y at hid
    cases hid with
    | none => exact ih
    | some hST => exact .cons hST ih

section

variable {rt : Router} (hs : SubsInv rt) (hm : Sound rt.constraints)
  (hb : FiledBelow rt.next_sub_id rt.constraints) {f g : Filter} (hf : Scalar f) (hg : Scalar g)
  (r node : Nat) (args : SubscriptionArguments) (p : Publication)

theorem mem_createSubscription {S : Subscription} :
    S ∈ (rt.createSubscription f r node args).subscriptions ↔
      S ∈ rt.subscriptions ∨ S = rt.newSub f r node args := by
  unfold createSubscription newSub
  simp

include hm hb hf hg

theorem create_counted_iff
    (hhit : (∃ c ∈ f.constraints, hit p.attributes c = true) ↔ ∃ c ∈ g.constraints,
      hit p.attributes c = true)
    (id : Nat) : (rt.createSubscription f r node args).Counted p id ↔
      (rt.createSubscription g r node args).Counted p id := by
  by_cases hid : id = rt.next_sub_id
  · rw [hid, create_counted_new hm hb hf, create_counted_new hm hb hg, hhit]
  · rw [create_counted_old hm hb hf r node args p hid, create_counted_old hm hb hg r node
      args p hid]

theorem create_hitsLive
    (hhit : (∃ c ∈ f.constraints, hit p.attributes c = true) ↔ ∃ c ∈ g.constraints,
      hit p.attributes c = true)
    (h : (rt.createSubscription f r node args).HitsLive p) :
    (rt.createSubscription g r node args).HitsLive p := by
  intro id hc
  obtain ⟨S, hS, rfl⟩ := h id ((create_counted_iff hm hb hf hg r node args p hhit id).mpr hc)
  rcases (mem_createSubscription r node args).mp hS with hS | rfl
  · exact ⟨S, (mem_createSubscription r node args).mpr (Or.inl hS), rfl⟩
  · exact ⟨rt.newSub g r node args, (mem_createSubscription r node args).mpr (Or.inr rfl), rfl⟩

include hs

theorem create_taken (hsf : SubsInv (rt.createSubscription f r node args))
    (hsg : SubsInv (rt.createSubscription g r node args))
    (hnew : (rt.createSubscription f r node args).Matching p (rt.newSub f r node args) ↔
      (rt.createSubscription g r node args).Matching p (rt.newSub g r node args)) (id : Nat) :
    Option.Rel Alike ((rt.createSubscription f r node args).taken p id)
      ((rt.createSubscription g r node args).taken p id) := by
  have hone : ∀ {f' : Filter} (hf' : Scalar f')
      (hsf' : SubsInv (rt.createSubscription f' r node args)) {S},
      (rt.createSubscription f' r node args).taken p id = some S ↔
        (S ∈ rt.subscriptions ∧ S.subscription_id = id ∧ rt.Matching p S) ∨
        (S = rt.newSub f' r node args ∧ S.subscription_id = id ∧
          (rt.createSubscription f' r node args).Matching p (rt.newSub f' r node args)) := by
    intro f' hf' hsf' S
    rw [taken_eq_some hsf', mem_createSubscription]
    constructor
    · rintro ⟨hS | rfl, hid, hmat⟩
      · exact Or.inl ⟨hS, hid, (create_matching_old hs hm hb hf' r node args p hS).mp hmat⟩
      · exact Or.inr ⟨rfl, hid, hmat⟩
    · rintro (⟨hS, hid, hmat⟩ | ⟨rfl, hid, hmat⟩)
      · exact ⟨Or.inl hS, hid, (create_matching_old hs hm hb hf' r node args p hS).mpr hmat⟩
      · exact ⟨Or.inr rfl, hid, hmat⟩
  cases hF : (rt.createSubscription f r node args).taken p id with
  | some S =>
    rcases (hone hf hsf).mp hF with hold | ⟨rfl, hid, hmat⟩
    · rw [(hone hg hsg).mpr (Or.inl hold)]
      exact .some ⟨rfl, rfl, rfl⟩
    · rw [(hone hg hsg).mpr (Or.inr ⟨rfl, hid, hnew.mp hmat⟩)]
      exact .some ⟨rfl, rfl, rfl⟩
  | none =>
    cases hG : (rt.createSubscription g r node args).taken p id with
    | none => exact .none
    | some S =>
      rcases (hone hg hsg).mp hG with hold | ⟨rfl, hid, hmat⟩
      · rw [(hone hf hsf).mpr (Or.inl hold)] at hF
        simp at hF
      · rw [(hone hf hsf).mpr (Or.inr ⟨rfl, hid, hnew.mpr hmat⟩)] at hF
        simp at hF

end

theorem delivered_congr {rt rt' : Router} (hi : SubsInv rt) (hi' : SubsInv rt')
    (hm : Sound rt.constraints) (hm' : Sound rt'.constraints) (hn : NoReqInv rt)
    (hn' : NoReqInv rt') {board : Board} {seq : UInt32} {p : Publication}
    {order order' : VisitOrder} (hlive : rt.HitsLive (stamp board seq p).1)
    (hlive' : rt'.HitsLive (stamp board seq p).1)
    (hv : SameVisits rt rt' (stamp board seq p).1 order order')
    (hcounted : ∀ id, rt.Counted (stamp board seq p).1 id ↔ rt'.Counted (stamp board seq p).1 id)
    (htaken : ∀ id, Option.Rel Alike (rt.taken (stamp board seq p).1 id)
      (rt'.taken (stamp board seq p).1 id)) (r s : Nat) :
      Delivered board rt order seq p r s ↔ Delivered board rt' order' seq p r s := by
  obtain ⟨sel, hsel, hpair⟩ := select_taken hi hm hlive hn order
  obtain ⟨sel', hsel', hpair'⟩ := select_taken hi' hm' hlive' hn' order'
  have hlists : List.Forall₂ Alike
      (rt.takenCounted order (stamp board seq p).1 ++ rt.takenUncounted order (stamp board seq p).1)
      (rt'.takenCounted order' (stamp board seq p).1 ++ rt'.takenUncounted order'
        (stamp board seq p).1) := by
    unfold takenCounted takenUncounted
    rw [← hv.counter, ← hv.no_requirements]
    simp only [hcounted]
    exact List.rel_append (filterMap_alike htaken) (filterMap_alike htaken)
  have hsame : sel.pair = sel'.pair := by
    rw [hpair, hpair']
    refine RunningMax.collect_congr (hlists.imp ?_) _
    rintro S T ⟨hid, harg, hrec⟩
    refine ⟨by unfold rank; rw [harg], ?_⟩
    unfold receiversOf
    rw [hid, hrec, hv.receivers]
  have hrec : sel.current_receivers = sel'.current_receivers := congrArg Prod.snd hsame
  rw [delivered_iff, delivered_iff]
  constructor
  · rintro ⟨_, h, hmem⟩
    obtain rfl := Option.some.inj (hsel.symm.trans h)
    exact ⟨sel', hsel', hrec ▸ hmem⟩
  · rintro ⟨_, h, hmem⟩
    obtain rfl := Option.some.inj (hsel'.symm.trans h)
    exact ⟨sel, hsel, hrec ▸ hmem⟩

theorem Repeats.matches_eq {f g : Filter} (h : Repeats f g) (p : Publication) :
    f.matches p = g.matches p := by
  have hall : ∀ {cs ds : List Constraint} (P : Constraint → Bool), List.Subperm cs ds → ds ⊆ cs →
      cs.all P = ds.all P := by
    intro cs ds P hsub hsub'
    rw [Bool.eq_iff_iff, List.all_eq_true, List.all_eq_true]
    exact ⟨fun hP c hc => hP c (hsub' hc), fun hP c hc => hP c (hsub.subset hc)⟩
  unfold Filter.matches Filter.checkRequired Filter.checkOptionals
  rw [hall _ h.required.1 h.required.2, hall _ h.optional.1 h.optional.2]

theorem Repeats.mem_constraints {f g : Filter} (h : Repeats f g) (c : Constraint) :
    c ∈ f.constraints ↔ c ∈ g.constraints := by
  unfold Filter.constraints
  rw [List.mem_append, List.mem_append]
  exact or_congr ⟨fun hc => h.required.1.subset hc, fun hc => h.required.2 hc⟩
    ⟨fun hc => h.optional.1.subset hc, fun hc => h.optional.2 hc⟩

theorem Repeats.scalar {f g : Filter} (h : Repeats f g) (hf : Scalar f) : Scalar g :=
  fun c hc => hf c ((h.mem_constraints c).mpr hc)

theorem Repeats.distinct {f g : Filter} (h : Repeats f g) (hf : Scalar f)
    (hd : Distinct g.required) :
    Distinct f.required := by
  obtain ⟨l, hperm, hsub⟩ := h.required.1
  have hl : l.Pairwise fun c d => c.eqv d = false := hd.sublist hsub
  have hsymm : ∀ {c d : Constraint}, c ∈ l → d ∈ l → c.eqv d = false → d.eqv c = false := by
    intro c d hc hd' hcd
    have hcf := hf c (List.mem_append_left _ (hperm.subset hc))
    rwa [Constraint.eqv_comm_of_scalar hcf] at hcd
  have hboth : l.Pairwise fun c d => c.eqv d = false ∧ d.eqv c = false :=
    hl.imp_of_mem fun hc hd' hcd => ⟨hcd, hsymm hc hd' hcd⟩
  have hperm' : f.required.Pairwise fun c d => c.eqv d = false ∧ d.eqv c = false :=
    (hperm.pairwise_iff fun hcd => ⟨hcd.2, hcd.1⟩).mp hboth
  exact hperm'.imp And.left

/-- Where the match test agrees on the two filters, they are interchangeable. -/
theorem interchangeable_of {f g : Filter} (h : Repeats f g) (hf : Scalar f)
    (hagree : ∀ p : Publication, p.isScalar = true →
      ((Distinct f.required ∧ f.matches p = true) ↔ Distinct g.required ∧ g.matches p = true)) :
    Interchangeable f g := by
  intro board ops r who src args seq p order order' hfetch hnf hng hp hv
  have hg := h.scalar hf
  have hinv := inv_run board ops
  have hnr := noReq_run board ops
  have hb := filedBelow_run board ops
  have hF := run_add_new r who src hfetch hnf
  have hG := run_add_new r who src hfetch hng
  have hinvF := inv_run board (ops ++ [.add f r who src args])
  have hinvG := inv_run board (ops ++ [.add g r who src args])
  have hnF := noReq_run board (ops ++ [.add f r who src args])
  have hnG := noReq_run board (ops ++ [.add g r who src args])
  rw [hF] at hinvF hnF hv ⊢
  rw [hG] at hinvG hnG hv ⊢
  have hi := hinv.internNode src
  have hn := hnr.internNode src
  rw [← internNode_next_sub_id _ src, ← internNode_constraints _ src] at hb
  have hp' := isScalar_stamp hp board seq
  have hhit : (∃ c ∈ f.constraints, hit (stamp board seq p).1.attributes c = true) ↔
      ∃ c ∈ g.constraints, hit (stamp board seq p).1.attributes c = true := by
    simp only [h.mem_constraints]
  have hnew := (create_matching_new hi.subs hi.sound hn hb hf r ((run board ops).internNode src).2
    args hp').trans ((hagree _ hp').trans
      (create_matching_new hi.subs hi.sound hn hb hg r ((run board ops).internNode src).2 args
        hp').symm)
  by_cases hlive : (((run board ops).internNode src).1.createSubscription f r
      ((run board ops).internNode src).2 args).HitsLive (stamp board seq p).1
  · exact delivered_congr hinvF.subs hinvG.subs hinvF.sound hinvG.sound hnF hnG hlive
      (create_hitsLive hi.sound hb hf hg r _ args _ hhit hlive) hv
      (create_counted_iff hi.sound hb hf hg r _ args _ hhit)
      (create_taken hi.subs hi.sound hb hf hg r _ args _ hinvF.subs hinvG.subs hnew) r _
  · rw [delivered_iff, delivered_iff]
    refine iff_of_false ?_ ?_
    · rintro ⟨sel, hsel, -⟩
      exact hlive (hitsLive_of_select hinvF.sound hsel)
    · rintro ⟨sel, hsel, -⟩
      exact hlive (create_hitsLive hi.sound hb hg hf r _ args _ hhit.symm
        (hitsLive_of_select hinvG.sound hsel))

/-! ## The first subscription -/

/-- The board of a node that did not publish `p`. -/
def otherBoard (p : Publication) : Board := ⟨(p.getStrAttr "publisher_node_id").getD "" ++ "x", 0⟩

theorem stamp_otherBoard (p : Publication) (seq : UInt32) : (stamp (otherBoard p) seq p).1 = p := by
  unfold stamp otherBoard
  rw [if_neg]
  rintro ⟨hself, -⟩
  cases hv : p.getStrAttr "publisher_node_id" with
  | none =>
    rw [hv] at hself
    simp at hself
  | some v =>
    rw [hv] at hself
    have hlen := congrArg String.length (Option.some.inj hself)
    simp at hlen

/-- The router of a node whose first call adds `f`. -/
def firstRun (p : Publication) (f : Filter) : Router :=
  run (otherBoard p) ([] ++ [.add f 1 ⟨"", "", ""⟩ "" .default])

section

variable {f g : Filter} (hf : Scalar f) (p : Publication)

theorem firstRun_eq (f : Filter) (p : Publication) :
    firstRun p f = ((init (otherBoard p)).internNode "").1.createSubscription f 1
      ((init (otherBoard p)).internNode "").2 .default :=
  run_add_new 1 ⟨"", "", ""⟩ "" (by decide) rfl

theorem mem_firstRun {S : Subscription} : S ∈ (firstRun p f).subscriptions ↔
    S = ((init (otherBoard p)).internNode "").1.newSub f 1 ((init (otherBoard p)).internNode "").2
      .default := by
  rw [firstRun_eq, mem_createSubscription, internNode_subscriptions]
  simp [init]

theorem first_facts : SubsInv ((init (otherBoard p)).internNode "").1 ∧
    Sound ((init (otherBoard p)).internNode "").1.constraints ∧
    NoReqInv ((init (otherBoard p)).internNode "").1 ∧
    FiledBelow ((init (otherBoard p)).internNode "").1.next_sub_id
      ((init (otherBoard p)).internNode "").1.constraints := by
  have hinv := (inv_run (otherBoard p) []).internNode ""
  have hb := filedBelow_run (otherBoard p) []
  rw [← internNode_next_sub_id _ "", ← internNode_constraints _ ""] at hb
  exact ⟨hinv.subs, hinv.sound, (noReq_run (otherBoard p) []).internNode "", hb⟩

include hf

theorem firstRun_counted (id : Nat) : (firstRun p f).Counted p id ↔
    id = 11 ∧ ∃ c ∈ f.constraints, hit p.attributes c = true := by
  obtain ⟨-, hm, -, hb⟩ := first_facts p
  have hnext : ((init (otherBoard p)).internNode "").1.next_sub_id = 11 :=
    internNode_next_sub_id _ _
  rw [firstRun_eq]
  by_cases hid : id = ((init (otherBoard p)).internNode "").1.next_sub_id
  · rw [hid, create_counted_new hm hb hf, hnext]
    simp
  · rw [create_counted_old hm hb hf _ _ _ p hid]
    rw [hnext] at hid
    refine iff_of_false ?_ (fun h => hid h.1)
    -- the indexes are empty
    unfold Counted hits
    rw [internNode_constraints]
    simp [init, itemsAt, indexAt, ConstraintIndex.items, ConstraintIndex.empty, members]

theorem firstRun_live : (firstRun p f).HitsLive p := by
  intro id hc
  obtain ⟨rfl, -⟩ := (firstRun_counted hf p id).mp hc
  exact ⟨_, (mem_firstRun p).mpr rfl, internNode_next_sub_id _ _⟩

theorem firstRun_delivered (hp : p.isScalar = true) :
    Delivered (otherBoard p) (firstRun p f) .plain 0 p 1 11 ↔ Distinct f.required ∧
      f.matches p = true := by
  obtain ⟨hs, hm, hn, hb⟩ := first_facts p
  have hinv : Inv (otherBoard p) (firstRun p f) := inv_run _ _
  have hnr : NoReqInv (firstRun p f) := noReq_run _ _
  have hlive := firstRun_live hf p
  have hnew := create_matching_new hs hm hn hb hf 1 ((init (otherBoard p)).internNode "").2
    .default hp
  rw [← firstRun_eq] at hnew
  have hright : RunningMax.Right 256 rank (receiversOf .plain)
      ((firstRun p f).takenCounted .plain p ++ (firstRun p f).takenUncounted .plain p) := by
    refine RunningMax.right_of_fits (taken_apart hinv.subs hinv.sound hnr .plain) fun S hS => ?_
    obtain rfl := (mem_firstRun p).mp ((mem_taken hinv.subs hinv.sound .plain).mp hS).1
    exact Nat.zero_lt_succ 255
  obtain ⟨sel, hsel, -, hmem⟩ := (delivers_iff hinv.subs hinv.sound hnr hlive .plain).mpr hright
  rw [delivered_iff, stamp_otherBoard, ← hnew]
  constructor
  · rintro ⟨_, h, hin⟩
    obtain rfl := Option.some.inj (hsel.symm.trans h)
    obtain ⟨S, hS, -, -, hhigh⟩ := (hmem 1 11).mp hin
    obtain rfl := (mem_firstRun p).mp hS
    exact hhigh.1
  · intro hmat
    refine ⟨sel, hsel, (hmem 1 11).mpr ⟨_, (mem_firstRun p).mpr rfl, internNode_next_sub_id _ _, ?_,
      hmat, ?_⟩⟩
    · simp [newSub, Assoc.keys]
    · intro T hT _
      rw [(mem_firstRun p).mp hT]
      exact UInt32.le_refl _

end

theorem eq_of_only {l l' : List Nat} {a : Nat} (hl : l.Nodup) (hl' : l'.Nodup) (h : ∀ x ∈ l, x = a)
    (hiff : ∀ x, x ∈ l ↔ x ∈ l') : l = l' := by
  have hperm := (List.perm_ext_iff_of_nodup hl hl').mpr hiff
  have hrep : l = List.replicate l.length a := List.eq_replicate_iff.mpr ⟨rfl, h⟩
  rw [hrep] at hperm ⊢
  exact (List.perm_replicate.mp hperm.symm).symm

theorem not_interchangeable_of {f g : Filter} (h : Repeats f g) (hf : Scalar f)
    (hgd : ¬ Distinct g.required) (hfd : Distinct f.required) {p : Publication}
    (hp : p.isScalar = true) (hmat : f.matches p = true) :
    ¬ Interchangeable f g := by
  intro hall
  have hg := h.scalar hf
  have hcount : ∀ id, (firstRun p f).Counted p id ↔ (firstRun p g).Counted p id := by
    intro id
    simp only [firstRun_counted hf, firstRun_counted hg, h.mem_constraints]
  have hmf : Sound (firstRun p f).constraints := (inv_run _ _).sound
  have hmg : Sound (firstRun p g).constraints := (inv_run _ _).sound
  have hvisits : SameVisits (firstRun p f) (firstRun p g) (stamp (otherBoard p) 0 p).1 .plain
      .plain := by
    refine ⟨?_, ?_, rfl⟩
    · rw [stamp_otherBoard]
      have hkeys : (Assoc.keys ((firstRun p f).count p)).Nodup := by
        rw [count_eq hmf]
        exact keys_foldl_bump _
      have hkeys' : (Assoc.keys ((firstRun p g).count p)).Nodup := by
        rw [count_eq hmg]
        exact keys_foldl_bump _
      refine eq_of_only (a := 11) hkeys hkeys' ?_ ?_
      · intro id hid
        exact ((firstRun_counted hf p id).mp ((mem_keys_count hmf .plain p id).mp hid)).1
      · intro id
        exact (mem_keys_count hmf .plain p id).trans
          ((hcount id).trans (mem_keys_count hmg .plain p id).symm)
    · have hnil : f.required = [] ↔ g.required = [] := by
        simp only [List.eq_nil_iff_forall_not_mem]
        exact ⟨fun hn c hc => hn c (h.required.2 hc), fun hn c hc => hn c (h.required.1.subset hc)⟩
      rw [firstRun_eq, firstRun_eq]
      unfold VisitOrder.plain createSubscription
      simp only [fileConstraints_length, List.length_eq_zero_iff, hnil, id]
  have hiff := hall (otherBoard p) [] 1 ⟨"", "", ""⟩ "" .default 0 p .plain .plain (by decide)
    rfl rfl hp hvisits
  have hgot := (firstRun_delivered hf p hp).mpr ⟨hfd, hmat⟩
  exact hgd ((firstRun_delivered hg p hp).mp (hiff.mp hgot)).1

/-- Repeating constraints changes nothing as long as no required one is repeated, and where `f` gets
nothing anyway. -/
theorem interchangeable_iff {f g : Filter} (h : Repeats f g) (hf : Scalar f) :
    Interchangeable f g ↔ Distinct g.required ∨ ¬ Distinct f.required ∨
      ∀ p : Publication, p.isScalar = true → f.matches p = false := by
  constructor
  · intro hall
    by_contra hno
    rw [not_or, not_or, not_not] at hno
    obtain ⟨hgd, hfd, hsome⟩ := hno
    push Not at hsome
    obtain ⟨p, hp, hmat⟩ := hsome
    exact not_interchangeable_of h hf hgd hfd hp (by simpa using hmat) hall
  · intro hcond
    refine interchangeable_of h hf fun p hp => ?_
    rw [← h.matches_eq p]
    rcases hcond with hgd | hfd | hnever
    · exact ⟨fun hm => ⟨hgd, hm.2⟩, fun hm => ⟨h.distinct hf hgd, hm.2⟩⟩
    · exact ⟨fun hm => absurd hm.1 hfd, fun hm => absurd (h.distinct hf hm.1) hfd⟩
    · rw [hnever p hp]
      simp

/-- An optional constraint may be repeated. -/
theorem interchangeable_optional :
    Interchangeable ⟨[.str "type" "ping" .EQ false], [.int "size" 4 .LT true]⟩
      ⟨[.str "type" "ping" .EQ false], [.int "size" 4 .LT true, .int "size" 4 .LT true]⟩ := by
  have hrep : Repeats ⟨[.str "type" "ping" .EQ false], [.int "size" 4 .LT true]⟩
      ⟨[.str "type" "ping" .EQ false], [.int "size" 4 .LT true, .int "size" 4 .LT true]⟩ :=
    ⟨⟨List.Subperm.refl _, by decide⟩, ⟨List.Sublist.subperm (by decide), by decide⟩⟩
  exact (interchangeable_iff hrep (by decide)).mpr (Or.inl (by decide))

/-- A required one may not. -/
theorem not_interchangeable_required :
    Repeats ⟨[.str "type" "ping" .EQ false], []⟩
      ⟨[.str "type" "ping" .EQ false, .str "type" "ping" .EQ false], []⟩ ∧
    Scalar ⟨[.str "type" "ping" .EQ false], []⟩ ∧
    ¬ Interchangeable ⟨[.str "type" "ping" .EQ false], []⟩
      ⟨[.str "type" "ping" .EQ false, .str "type" "ping" .EQ false], []⟩ := by
  have hrep : Repeats ⟨[.str "type" "ping" .EQ false], []⟩
      ⟨[.str "type" "ping" .EQ false, .str "type" "ping" .EQ false], []⟩ :=
    ⟨⟨List.Sublist.subperm (by decide), by decide⟩, ⟨List.Subperm.refl _, by decide⟩⟩
  have hscalar : Scalar ⟨[.str "type" "ping" .EQ false], []⟩ := by decide
  exact ⟨hrep, hscalar, not_interchangeable_of hrep hscalar (by decide) (by decide)
    (p := (Publication.ofPublisher "peer" "a" "1").setAttr "type" (.str "ping")) (by decide)
      (by decide)⟩

end Router

end UActor
