import UActor.PubSub.RouterInv

/-!
# The index and the subscriptions

The index lists a subscription under a constraint exactly when the filter of the subscription
holds that constraint. This needs filters whose constraints can be told apart.
-/

namespace UActor

namespace Router

open Buckets (keys Filed)

/-- The constraints of a call are in play, and no constraint in play answers to two of them. -/
def Op.Fits (U : Constraint → Prop) : Op → Prop
  | .add f _ _ _ args => args.fetch_policy ≠ .FETCH → (∀ c ∈ f.constraints, U c) ∧
      Apart U f.constraints
  | .remove .. => True

structure Linked (U : Constraint → Prop) (rt : Router) : Prop where
  keysIn : KeysIn U rt.constraints
  filed : ∀ c s b, FiledIn rt.constraints c s b ↔
    ∃ S ∈ rt.subscriptions, S.subscription_id = s ∧ c ∈ S.filter.constraintsOf b
  nodup : ∀ S ∈ rt.subscriptions, (S.filter.required ++ S.filter.optional).Nodup
  no_req : ∀ s, s ∈ rt.no_requirements ↔
    ∃ S ∈ rt.subscriptions, S.subscription_id = s ∧ S.filter.required = []
  no_req_nodup : rt.no_requirements.Nodup

variable {U : Constraint → Prop} {board : Board} {rt : Router}

theorem linked_init (U : Constraint → Prop) (board : Board) : Linked U (init board) := by
  refine ⟨?_, ?_, ?_, ?_, ?_⟩
  · intro a d hd
    simp [itemsAt, indexAt, init, ConstraintIndex.items, ConstraintIndex.empty, keys] at hd
  · intro c s b
    simp [FiledIn, Filed, itemsAt, indexAt, init, ConstraintIndex.items, ConstraintIndex.empty]
  · simp [init]
  · simp [init]
  · simp [init]

theorem Linked.stored_in (h : Linked U rt) {S : Subscription} (hS : S ∈ rt.subscriptions) {b : Bool}
    {c : Constraint} (hc : c ∈ S.filter.constraintsOf b) : U c := by
  have hf := (h.filed c S.subscription_id b).mpr ⟨S, hS, rfl, hc⟩
  exact h.keysIn _ c (mem_keys_of_filed hf)

theorem Linked.of_filters (h : Linked U rt) {rt' : Router} (hc : rt'.constraints = rt.constraints)
    (hn : rt'.no_requirements = rt.no_requirements)
    (hs : ∀ id f, (∃ S ∈ rt'.subscriptions, S.subscription_id = id ∧ S.filter = f) ↔
      ∃ S ∈ rt.subscriptions, S.subscription_id = id ∧ S.filter = f) : Linked U rt' := by
  have hex : ∀ (p : InternalFilter → Prop) id,
      (∃ S ∈ rt'.subscriptions, S.subscription_id = id ∧ p S.filter) ↔
        ∃ S ∈ rt.subscriptions, S.subscription_id = id ∧ p S.filter := by
    intro p id
    constructor
    · rintro ⟨S, hS, hid, hp⟩
      obtain ⟨T, hT, hid', hf⟩ := (hs id S.filter).mp ⟨S, hS, hid, rfl⟩
      exact ⟨T, hT, hid', by rwa [hf]⟩
    · rintro ⟨S, hS, hid, hp⟩
      obtain ⟨T, hT, hid', hf⟩ := (hs id S.filter).mpr ⟨S, hS, hid, rfl⟩
      exact ⟨T, hT, hid', by rwa [hf]⟩
  refine ⟨by rw [hc]; exact h.keysIn, ?_, ?_, ?_, by rw [hn]; exact h.no_req_nodup⟩
  · intro c s b
    rw [hc, h.filed]
    exact (hex (fun f => c ∈ f.constraintsOf b) s).symm
  · intro S hS
    obtain ⟨T, hT, -, hf⟩ := (hs S.subscription_id S.filter).mp ⟨S, hS, rfl, rfl⟩
    rw [← hf]
    exact h.nodup T hT
  · intro s
    rw [hn, h.no_req]
    exact (hex (fun f => f.required = []) s).symm

theorem Linked.setSub (h : Linked U rt) (hs : SubsInv rt) {S S' : Subscription}
    (hS : S ∈ rt.subscriptions) (hid : S'.subscription_id = S.subscription_id)
    (hf : S'.filter = S.filter) : Linked U (rt.setSub S') := by
  refine h.of_filters rfl rfl ?_
  intro id f
  constructor
  · rintro ⟨T, hT, rfl, rfl⟩
    rcases (mem_setSub hS hid T).mp hT with ⟨hT, -⟩ | rfl
    · exact ⟨T, hT, rfl, rfl⟩
    · exact ⟨S, hS, hid.symm, hf.symm⟩
  · rintro ⟨T, hT, rfl, rfl⟩
    by_cases hTS : T.subscription_id = S.subscription_id
    · obtain rfl := hs.eq_of_id hT hS hTS
      exact ⟨S', (mem_setSub hS hid S').mpr (Or.inr rfl), hid, hf⟩
    · exact ⟨T, (mem_setSub hS hid T).mpr (Or.inl ⟨hT, hTS⟩), rfl, rfl⟩

theorem Linked.internNode (h : Linked U rt) (node : String) : Linked U (rt.internNode node).1 := by
  refine h.of_filters (internNode_constraints rt node) (internNode_no_requirements rt node) ?_
  intro id f
  rw [internNode_subscriptions]

section

variable (hU : ∀ c, U c → c.eqv c = true)

include hU

/-- Both loops over the lists of a new filter. -/
structure CreatedAs (U : Constraint → Prop) (m m' : IndexMap) (id : Nat) (f : Filter)
    (g : InternalFilter) :
    Prop where
  sound : Sound m'
  keysIn : KeysIn U m'
  stored : List.Forall₂ (fun e c => e.eqv c = true ∧ U e) (g.required ++ g.optional) f.constraints
  required_length : g.required.length = f.required.length
  filed : ∀ d s b, FiledIn m' d s b ↔ FiledIn m d s b ∨ (d ∈ g.constraintsOf b ∧ s = id)
  purge : ∀ a, Buckets.purge id (itemsAt m' a) = Buckets.purge id (itemsAt m a)

theorem create_spec {m : IndexMap} (hm : Sound m) (hk : KeysIn U m) {id : Nat}
    (hnot : ∀ d b, ¬ FiledIn m d id b) {f : Filter} (hf : ∀ c ∈ f.constraints, U c)
    (hap : Apart U f.constraints) :
    CreatedAs U m (fileConstraints id true f.optional (fileConstraints id false f.required m).1).1
      id f ⟨(fileConstraints id false f.required m).2,
        (fileConstraints id true f.optional (fileConstraints id false f.required m).1).2⟩ := by
  unfold Filter.constraints at hf hap
  obtain ⟨hap₁, hap₂, hcross⟩ := List.pairwise_append.mp hap
  have hr := fileConstraints_spec hU id false f.required hm hk
    (fun c hc => hf c (List.mem_append_left _ hc)) hap₁ fun c _ d b _ => hnot d b
  -- What the required constraints were stored under answers to no optional one.
  have hnot' : ∀ c ∈ f.optional, ∀ d b, d.eqv c = true →
      ¬ FiledIn (fileConstraints id false f.required m).1 d id b := by
    intro c hc d b hd hfd
    rcases (hr.filed d id b).mp hfd with hfd | ⟨hmem, -, -⟩
    · exact hnot d b hfd
    · obtain ⟨c', hc', heq, hUd⟩ := stored_mem hr.stored hmem
      rw [hcross c' hc' c hc d hUd heq] at hd
      exact absurd hd (by simp)
  have ho := fileConstraints_spec hU id true f.optional hr.sound hr.keysIn
    (fun c hc => hf c (List.mem_append_right _ hc)) hap₂ hnot'
  refine ⟨ho.sound, ho.keysIn, ?_, fileConstraints_length _ _ _ _, ?_, ?_⟩
  · exact List.rel_append hr.stored ho.stored
  · intro d s b
    rw [ho.filed, hr.filed]
    cases b <;> simp
  · intro a
    rw [ho.purge, hr.purge]

omit hU in
theorem Linked.fresh (h : Linked U rt) (hs : SubsInv rt) (d : Constraint) (b : Bool) :
    ¬ FiledIn rt.constraints d rt.next_sub_id b := by
  intro hf
  obtain ⟨S, hS, hid, -⟩ := (h.filed d _ b).mp hf
  have := (hs.ids S hS).2
  omega

theorem Linked.create (h : Linked U rt) (hs : SubsInv rt) (hm : Sound rt.constraints) {f : Filter}
    (hf : ∀ c ∈ f.constraints, U c) (hap : Apart U f.constraints) (r n : Nat)
    (args : SubscriptionArguments) :
    Linked U (rt.createSubscription f r n args) := by
  have hspec := create_spec hU hm h.keysIn (h.fresh hs) hf hap
  unfold createSubscription
  refine ⟨hspec.keysIn, ?_, ?_, ?_, ?_⟩
  · intro c s b
    dsimp only
    rw [hspec.filed, h.filed]
    simp only [List.mem_append, List.mem_singleton]
    constructor
    · rintro (⟨S, hS, hid, hc⟩ | ⟨hc, rfl⟩)
      · exact ⟨S, Or.inl hS, hid, hc⟩
      · exact ⟨_, Or.inr rfl, rfl, hc⟩
    · rintro ⟨S, hS | rfl, hid, hc⟩
      · exact Or.inl ⟨S, hS, hid, hc⟩
      · exact Or.inr ⟨hc, hid.symm⟩
  · intro S hS
    rcases List.mem_append.mp hS with hS | hS
    · exact h.nodup S hS
    · rw [List.mem_singleton] at hS
      subst hS
      exact stored_nodup hspec.stored hap
  · intro s
    dsimp only
    split
    · rename_i hlen
      simp only [List.mem_append, List.mem_singleton, h.no_req]
      constructor
      · rintro (⟨S, hS, hid, hreq⟩ | rfl)
        · exact ⟨S, Or.inl hS, hid, hreq⟩
        · exact ⟨_, Or.inr rfl, rfl, List.length_eq_zero_iff.mp hlen⟩
      · rintro ⟨S, hS | rfl, hid, hreq⟩
        · exact Or.inl ⟨S, hS, hid, hreq⟩
        · exact Or.inr hid.symm
    · rename_i hlen
      simp only [List.mem_append, List.mem_singleton, h.no_req]
      constructor
      · rintro ⟨S, hS, hid, hreq⟩
        exact ⟨S, Or.inl hS, hid, hreq⟩
      · rintro ⟨S, hS | rfl, hid, hreq⟩
        · exact ⟨S, hS, hid, hreq⟩
        · exact absurd (List.length_eq_zero_iff.mpr hreq) hlen
  · dsimp only
    split
    · refine List.nodup_append.mpr ⟨h.no_req_nodup, by simp, ?_⟩
      intro i hi j hj hij
      obtain ⟨S, hS, hid, -⟩ := (h.no_req i).mp hi
      have hlt := (hs.ids S hS).2
      rw [List.mem_singleton] at hj
      omega
    · exact h.no_req_nodup

theorem erase_spec (h : Linked U rt) (hm : Sound rt.constraints) {S : Subscription}
    (hS : S ∈ rt.subscriptions) :
    DroppedAs U rt.constraints (dropConstraints S.subscription_id S.filter.optional
      (dropConstraints S.subscription_id S.filter.required rt.constraints)) S.subscription_id
      (S.filter.required ++ S.filter.optional) := by
  obtain ⟨hn₁, hn₂, hdisj⟩ := List.nodup_append.mp (h.nodup S hS)
  have hin : ∀ b, ∀ c ∈ S.filter.constraintsOf b, U c ∧
      ∃ b, FiledIn rt.constraints c S.subscription_id b :=
    fun b c hc => ⟨h.stored_in hS hc, b, (h.filed c _ b).mpr ⟨S, hS, rfl, hc⟩⟩
  have hr := dropConstraints_spec hU S.subscription_id S.filter.required hm h.keysIn hn₁ (hin false)
  have hin' : ∀ c ∈ S.filter.optional, U c ∧ ∃ b,
      FiledIn (dropConstraints S.subscription_id S.filter.required rt.constraints) c
        S.subscription_id b := by
    intro c hc
    obtain ⟨hUc, b, hf⟩ := hin true c hc
    refine ⟨hUc, b, (hr.filed c _ b).mpr ⟨hf, ?_⟩⟩
    rintro ⟨hmem, -⟩
    exact hdisj c hmem c hc rfl
  have ho := dropConstraints_spec hU S.subscription_id S.filter.optional hr.sound hr.keysIn hn₂ hin'
  refine ⟨ho.sound, ho.keysIn, ?_, ?_⟩
  · intro d s b
    rw [ho.filed, hr.filed, List.mem_append]
    tauto
  · intro a
    rw [ho.purge, hr.purge]

theorem Linked.erase (h : Linked U rt) (hs : SubsInv rt) (hm : Sound rt.constraints)
    {S S' : Subscription} (hS : S ∈ rt.subscriptions) (hid : S'.subscription_id = S.subscription_id)
    (hf : S'.filter = S.filter) :
    Linked U (rt.eraseSubscription S') := by
  have hspec := erase_spec hU h hm hS
  unfold eraseSubscription Subscription.countRequired
  rw [hid, hf]
  refine ⟨hspec.keysIn, ?_, ?_, ?_, ?_⟩
  · intro c s b
    dsimp only
    rw [hspec.filed, h.filed]
    constructor
    · rintro ⟨⟨T, hT, rfl, hc⟩, hno⟩
      refine ⟨T, List.mem_filter.mpr ⟨hT, ?_⟩, rfl, hc⟩
      rw [decide_eq_true_eq]
      intro hTS
      obtain rfl := hs.eq_of_id hT hS hTS
      refine hno ⟨?_, rfl⟩
      rw [List.mem_append]
      cases b with
      | false => exact Or.inl hc
      | true => exact Or.inr hc
    · rintro ⟨T, hT, rfl, hc⟩
      obtain ⟨hT, hne⟩ := List.mem_filter.mp hT
      rw [decide_eq_true_eq] at hne
      exact ⟨⟨T, hT, rfl, hc⟩, fun hcon => hne hcon.2⟩
  · intro T hT
    exact h.nodup T (List.mem_of_mem_filter hT)
  · intro s
    dsimp only
    have hrest : ∀ T ∈ rt.subscriptions, T.subscription_id = S.subscription_id →
        T.filter.required = [] →
        S.filter.required.length = 0 := by
      intro T hT hTS hreq
      rw [← hs.eq_of_id hT hS hTS, hreq]
      rfl
    split
    · simp only [List.mem_filter, decide_eq_true_eq, h.no_req]
      constructor
      · rintro ⟨⟨T, hT, rfl, hreq⟩, hne⟩
        exact ⟨T, ⟨hT, hne⟩, rfl, hreq⟩
      · rintro ⟨T, ⟨hT, hne⟩, rfl, hreq⟩
        exact ⟨⟨T, hT, rfl, hreq⟩, hne⟩
    · rename_i hlen
      simp only [List.mem_filter, decide_eq_true_eq, h.no_req]
      constructor
      · rintro ⟨T, hT, rfl, hreq⟩
        exact ⟨T, ⟨hT, fun hTS => hlen (hrest T hT hTS hreq)⟩, rfl, hreq⟩
      · rintro ⟨T, ⟨hT, hne⟩, rfl, hreq⟩
        exact ⟨T, hT, rfl, hreq⟩
  · dsimp only
    split
    · exact h.no_req_nodup.filter _
    · exact h.no_req_nodup

theorem Linked.step (h : Linked U rt) (hi : Inv board rt) {op : Op} (hop : op.Fits U) :
    Linked U (rt.step board op).1 := by
  have hstep := step_cases board rt op
  generalize rt.step board op = out at hstep
  cases hstep with
  | fetch | unknown => exact h
  | join f r who src args sub hf hsub =>
    have hS := (mem_of_findEqual hsub).1
    have hSi : sub ∈ (rt.internNode src).1.subscriptions := by rwa [internNode_subscriptions]
    exact (h.internNode src).setSub (hi.subs.internNode src) hSi
      (Subscription.addReceiver_id sub r _) (Subscription.addReceiver_filter sub r _)
  | create f r who src args hf hsub =>
    obtain ⟨hfU, hap⟩ := hop hf
    have hm : Sound (rt.internNode src).1.constraints := by
      rw [internNode_constraints]; exact hi.sound
    exact (h.internNode src).create hU (hi.subs.internNode src) hm hfU hap r _ args
  | erase sub_id r node_id sub hsub hempty =>
    obtain ⟨hS, -⟩ := mem_of_findSub hsub
    obtain ⟨hid, hf, -⟩ := sub.removeReceiver_rest r ((Assoc.find node_id rt.peer_node_ids).getD 0)
    exact h.erase hU hi.subs hi.sound hS hid hf
  | leave sub_id r node_id sub hsub hempty =>
    obtain ⟨hS, -⟩ := mem_of_findSub hsub
    obtain ⟨hid, hf, -⟩ := sub.removeReceiver_rest r ((Assoc.find node_id rt.peer_node_ids).getD 0)
    exact h.setSub hi.subs hS hid hf

theorem linked_run (ops : List Op) (hops : ∀ op ∈ ops, op.Fits U) : Linked U (run board ops) := by
  induction ops using List.reverseRecOn with
  | nil => exact linked_init U board
  | append_singleton ops op ih =>
    rw [run_snoc]
    exact (ih fun o ho => hops o (List.mem_append_left _ ho)).step hU (inv_run board ops)
      (hops op (List.mem_append_right _ (List.mem_singleton.mpr rfl)))

end

end Router

end UActor
