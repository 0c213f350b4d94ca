import UActor.PubSub.Routing

/-!
# Unsubscribing

Adding a subscription and removing it again, as the other subscriptions see it.
-/

namespace UActor

namespace Router

open Buckets (keys Filed)

/-! ## What a selection depends on -/

theorem hits_congr {rt rt' : Router} (h : ∀ a, itemsAt rt'.constraints a = itemsAt rt.constraints a)
    (p : Publication) : rt'.hits p = rt.hits p := by
  unfold hits
  simp only [h]

theorem count_congr {rt rt' : Router} (hm : Sound rt.constraints) (hm' : Sound rt'.constraints)
    (h : ∀ a, itemsAt rt'.constraints a = itemsAt rt.constraints a) (p : Publication) :
    rt'.count p = rt.count p := by
  rw [count_eq hm, count_eq hm', hits_congr h]

/-- The state of a selection without the subscription `id`. -/
def Selection.others (id : Nat) (sel : Selection) : UInt8 × List (Nat × Nat) :=
  (sel.current_priority, sel.current_receivers.filter fun e => e.2 ≠ id)

theorem receivers_filter_self (order : VisitOrder) (S : Subscription) :
    (receiversOf order S).filter (fun e => e.2 ≠ S.subscription_id) = [] := by
  rw [List.filter_eq_nil_iff]
  intro e he
  obtain ⟨e', -, rfl⟩ := List.mem_map.mp he
  simp

theorem offer_others (order : VisitOrder) {id : Nat} {sel sel' : Selection} {S S' : Subscription}
    (h : sel'.others id = sel.others id) (hargs : S'.arguments = S.arguments)
    (hsame : S' = S ∨ (S.subscription_id = id ∧ S'.subscription_id = id)) :
    (sel'.offer order S').others id = (sel.offer order S).others id := by
  obtain ⟨hprio, hrec⟩ := Prod.mk.inj h
  have hown : (receiversOf order S').filter (fun e => e.2 ≠ id) = (receiversOf order S).filter
      fun e => e.2 ≠ id := by
    rcases hsame with rfl | ⟨hid, hid'⟩
    · rfl
    · have h1 := receivers_filter_self order S
      have h2 := receivers_filter_self order S'
      rw [hid] at h1
      rw [hid'] at h2
      rw [h1, h2]
  unfold Selection.offer
  rw [hprio, hargs]
  dsimp only
  split
  · exact Prod.ext rfl hown
  · split
    · exact h
    · refine Prod.ext rfl ?_
      simp only [Selection.others, List.filter_append, hrec]
      exact congrArg _ hown

theorem foldlM_others {α : Type} (id : Nat) (g g' : Selection → α → Option Selection)
    (hg : ∀ sel sel' x, sel'.others id = sel.others id →
      (g' sel' x).map (·.others id) = (g sel x).map (·.others id)) (L : List α)
      {sel sel' : Selection}
    (h : sel'.others id = sel.others id) :
    (L.foldlM g' sel').map (·.others id) = (L.foldlM g sel).map (·.others id) := by
  induction L generalizing sel sel' with
  | nil => simpa using h
  | cons x L ih =>
    rw [List.foldlM_cons, List.foldlM_cons]
    have hx := hg sel sel' x h
    cases h1 : g sel x with
    | none =>
      rw [h1, Option.map_none, Option.map_eq_none_iff] at hx
      rw [hx]
      rfl
    | some s1 =>
      cases h2 : g' sel' x with
      | none => rw [h1, h2] at hx; simp at hx
      | some s2 =>
        rw [h1, h2] at hx
        exact ih (by simpa using hx)

/-- Nobody else notices who receives for the subscription `id`. -/
structure SameBut (id : Nat) (rt rt' : Router) : Prop where
  items : ∀ a, itemsAt rt'.constraints a = itemsAt rt.constraints a
  no_req : rt'.no_requirements = rt.no_requirements
  subs : ∀ s, (rt.findSub s = none ∧ rt'.findSub s = none) ∨
    ∃ S S', rt.findSub s = some S ∧ rt'.findSub s = some S' ∧ S'.filter = S.filter ∧
      S'.arguments = S.arguments ∧ (S' = S ∨ (S.subscription_id = id ∧ S'.subscription_id = id))

theorem SameBut.select {id : Nat} {rt rt' : Router} (h : SameBut id rt rt')
    (hm : Sound rt.constraints) (hm' : Sound rt'.constraints) (order : VisitOrder)
    (p : Publication) :
    (rt'.select order p).map (·.others id) = (rt.select order p).map (·.others id) := by
  have hcount := count_congr hm hm' h.items p
  have hcounted : ∀ sel sel' x, sel'.others id = sel.others id →
      (rt'.selectCounted order p sel' x).map (·.others id) =
        (rt.selectCounted order p sel x).map (·.others id) := by
    intro sel sel' x hsel
    unfold selectCounted
    rcases h.subs x.1 with ⟨hS, hS'⟩ | ⟨S, S', hS, hS', hf, ha, hsame⟩
    · rw [hS, hS']
    · rw [hS, hS']
      dsimp only
      unfold Subscription.countRequired Subscription.countOptional
      rw [hf]
      split
      · exact congrArg some (offer_others order hsel ha hsame)
      · exact congrArg some hsel
  have huncounted : ∀ sel sel' x, sel'.others id = sel.others id →
      (rt'.selectUncounted order p (rt.count p) sel' x).map (·.others id) =
        (rt.selectUncounted order p (rt.count p) sel x).map (·.others id) := by
    intro sel sel' x hsel
    unfold selectUncounted
    split
    · exact congrArg some hsel
    · rcases h.subs x with ⟨hS, hS'⟩ | ⟨S, S', hS, hS', hf, ha, hsame⟩
      · rw [hS, hS']
      · rw [hS, hS']
        dsimp only
        rw [hf]
        split
        · exact congrArg some (offer_others order hsel ha hsame)
        · exact congrArg some hsel
  have hstart : Selection.others id ⟨0, []⟩ = Selection.others id ⟨0, []⟩ := rfl
  have hfirst := foldlM_others id _ _ hcounted (order.counter (rt.count p)) hstart
  unfold Router.select
  rw [hcount, h.no_req]
  dsimp only
  cases h1 : (order.counter (rt.count p)).foldlM (rt.selectCounted order p) ⟨0, []⟩ with
  | none =>
    rw [h1, Option.map_none, Option.map_eq_none_iff] at hfirst
    rw [hfirst]
    rfl
  | some s1 =>
    cases h2 : (order.counter (rt.count p)).foldlM (rt'.selectCounted order p) ⟨0, []⟩ with
    | none => rw [h1, h2] at hfirst; simp at hfirst
    | some s2 =>
      rw [h1, h2] at hfirst
      exact foldlM_others id _ _ huncounted _ (by simpa using hfirst)

/-! ## No dangling pointers -/

theorem foldlM_isSome {α β : Type} (g : β → α → Option β) (L : List α) (b : β)
    (hg : ∀ b, ∀ x ∈ L, (g b x).isSome = true) : (L.foldlM g b).isSome = true := by
  induction L generalizing b with
  | nil => rfl
  | cons x L ih =>
    rw [List.foldlM_cons]
    obtain ⟨b', hb'⟩ := Option.isSome_iff_exists.mp (hg b x List.mem_cons_self)
    rw [hb']
    exact ih b' fun b y hy => hg b y (List.mem_cons_of_mem _ hy)

theorem select_isSome {U : Constraint → Prop} {rt : Router} (h : Linked U rt) (hs : SubsInv rt)
    (hm : Sound rt.constraints) (order : VisitOrder) (p : Publication) :
    (rt.select order p).isSome = true := by
  have hcounted : ∀ sel, ∀ x ∈ order.counter (rt.count p), (rt.selectCounted order p sel x).isSome =
      true := by
    intro sel x hx
    rw [(order.counter_perm _).mem_iff, count_eq hm] at hx
    have hfind := Assoc.find_of_mem (keys_foldl_bump (rt.hits p)) hx
    obtain ⟨S, hS, hid⟩ := live_of_hit h hm ((isSome_foldl_bump _ _).mp (by rw [hfind]; rfl))
    unfold selectCounted
    rw [← hid, hs.findSub_eq hS]
    dsimp only
    split <;> rfl
  have huncounted : ∀ sel, ∀ x ∈ order.no_requirements rt.no_requirements,
      (rt.selectUncounted order p (rt.count p) sel x).isSome = true := by
    intro sel x hx
    rw [(order.no_requirements_perm _).mem_iff] at hx
    obtain ⟨S, hS, rfl, -⟩ := (h.no_req x).mp hx
    unfold selectUncounted
    rw [hs.findSub_eq hS]
    split
    · rfl
    · dsimp only
      split <;> rfl
  unfold select
  dsimp only
  obtain ⟨sel, hsel⟩ := Option.isSome_iff_exists.mp (foldlM_isSome _ _ ⟨0, []⟩ hcounted)
  rw [hsel]
  exact foldlM_isSome _ _ _ huncounted

/-! ## Adding and removing -/

/-- The receiver alone holds the equal subscription already, and the removal ends it. -/
def EndsEarlier (rt : Router) (f : Filter) (args : SubscriptionArguments) (r : Nat)
    (src node_id : String) : Prop :=
  ∃ S, rt.findEqual f args = some S ∧ Assoc.keys S.receivers = [r] ∧
    (node_id ≠ src ∨ S.nodesOf r = [(rt.internNode src).2])

section

variable {U : Constraint → Prop} {board : Board} {rt : Router} {src node_id : String}

/-- The removal goes for the node of the addition, or for all nodes of the receiver. -/
theorem removal_node (hi : Inv board rt)
    (hnode : node_id = src ∨ Assoc.find node_id rt.peer_node_ids = none) :
    (Assoc.find node_id (rt.internNode src).1.peer_node_ids).getD 0 =
      (if node_id = src then (rt.internNode src).2 else 0) ∧ (rt.internNode src).2 ≠ 0 := by
  have hself : Assoc.find src (rt.internNode src).1.peer_node_ids = some (rt.internNode src).2 := by
    rw [find_internNode, if_pos rfl]
  refine ⟨?_, ?_⟩
  · split
    · rename_i h
      rw [h, hself]
      rfl
    · rename_i h
      rw [find_internNode, if_neg (Ne.symm h)]
      rcases hnode with rfl | hnone
      · exact absurd rfl h
      · rw [hnone]
        rfl
  · have := (hi.peers.internNode src).bound _ (Assoc.mem_of_find hself)
    dsimp only at this
    omega

theorem not_filed_of_not_filedIn {m : IndexMap} (hm : Sound m) {id : Nat}
    (h : ∀ d b, ¬ FiledIn m d id b) (a : String) (d : Constraint) (b : Bool) :
    ¬ Filed (itemsAt m a) d id b := by
  intro hf
  rw [← hm.attr_eq (mem_keys_of_filed hf)] at hf
  exact h d b hf

theorem purge_itemsAt {m : IndexMap} (hm : Sound m) {id : Nat} (h : ∀ d b, ¬ FiledIn m d id b)
    (a : String) :
    Buckets.purge id (itemsAt m a) = itemsAt m a :=
  Buckets.purge_of_not_filed (hm a).filled.nonempty fun d b => not_filed_of_not_filedIn hm h a d b

/-- Filing a new subscription and dropping it gives the old items back. -/
theorem itemsAt_create_erase (hU : ∀ c, U c → c.eqv c = true) (h : Linked U rt) (hs : SubsInv rt)
    (hm : Sound rt.constraints) {f : Filter} (hf : ∀ c ∈ f.constraints, U c)
    (hap : Apart U f.constraints) (r n : Nat) (args : SubscriptionArguments) {S : Subscription}
    (hS : S ∈ (rt.createSubscription f r n args).subscriptions)
    (hid : S.subscription_id = rt.next_sub_id) (a : String) :
    itemsAt ((rt.createSubscription f r n args).eraseSubscription S).constraints a =
      itemsAt rt.constraints a := by
  have hcreated := create_spec hU hm h.keysIn (h.fresh hs) hf hap
  have hlinked := h.create hU hs hm hf hap r n args
  have hdropped := erase_spec hU hlinked hcreated.sound hS
  have hgone : ∀ d b, ¬ FiledIn ((rt.createSubscription f r n args).eraseSubscription S).constraints
      d rt.next_sub_id b := by
    intro d b hfd
    have herased := hlinked.erase hU (hs.create f r n args) hcreated.sound hS rfl rfl
    obtain ⟨T, hT, hTid, -⟩ := (herased.filed d _ b).mp hfd
    have hne := (List.mem_filter.mp hT).2
    rw [decide_eq_true_eq] at hne
    exact hne (hTid.trans hid.symm)
  calc itemsAt ((rt.createSubscription f r n args).eraseSubscription S).constraints a
      = Buckets.purge rt.next_sub_id
          (itemsAt ((rt.createSubscription f r n args).eraseSubscription S).constraints a) :=
        (purge_itemsAt hdropped.sound hgone a).symm
    _ = Buckets.purge rt.next_sub_id (itemsAt (rt.createSubscription f r n args).constraints
      a) := by
        rw [← hid]
        exact hdropped.purge a
    _ = Buckets.purge rt.next_sub_id (itemsAt rt.constraints a) := hcreated.purge a
    _ = itemsAt rt.constraints a := purge_itemsAt hm (h.fresh hs) a

theorem sameBut_of_subscriptions {id : Nat} {rt rt' : Router}
    (hitems : ∀ a, itemsAt rt'.constraints a = itemsAt rt.constraints a)
    (hno : rt'.no_requirements = rt.no_requirements)
    (hsubs : rt'.subscriptions = rt.subscriptions) :
    SameBut id rt rt' := by
  refine ⟨hitems, hno, ?_⟩
  intro s
  have hfind : rt'.findSub s = rt.findSub s := by
    unfold findSub
    rw [hsubs]
  rw [hfind]
  cases hS : rt.findSub s with
  | none => exact Or.inl ⟨rfl, rfl⟩
  | some S => exact Or.inr ⟨S, S, rfl, rfl, rfl, rfl, Or.inl rfl⟩

theorem sameBut_create_erase (hU : ∀ c, U c → c.eqv c = true) (h : Linked U rt) (hs : SubsInv rt)
    (hm : Sound rt.constraints) {f : Filter} (hf : ∀ c ∈ f.constraints, U c)
    (hap : Apart U f.constraints) (r n : Nat) (args : SubscriptionArguments) {S S' : Subscription}
    (hS : (rt.createSubscription f r n args).findSub rt.next_sub_id = some S)
    (hid' : S'.subscription_id = S.subscription_id) (hf' : S'.filter = S.filter) :
    SameBut rt.next_sub_id rt ((rt.createSubscription f r n args).eraseSubscription S') := by
  obtain ⟨hmem, hid⟩ := mem_of_findSub hS
  have hnew : S = ⟨rt.next_sub_id,
      ⟨(fileConstraints rt.next_sub_id false f.required rt.constraints).2,
        (fileConstraints rt.next_sub_id true f.optional
          (fileConstraints rt.next_sub_id false f.required rt.constraints).1).2⟩, args,
          [(r, [n])]⟩ := by
    rcases List.mem_append.mp hmem with hold | hnew
    · have := (hs.ids S hold).2
      omega
    · exact List.mem_singleton.mp hnew
  have heq : (rt.createSubscription f r n args).eraseSubscription S' =
      (rt.createSubscription f r n args).eraseSubscription S := by
    unfold eraseSubscription Subscription.countRequired
    rw [hid', hf']
  rw [heq]
  refine sameBut_of_subscriptions (itemsAt_create_erase hU h hs hm hf hap r n args hmem hid) ?_ ?_
  · have hno : rt.next_sub_id ∉ rt.no_requirements := by
      intro hin
      obtain ⟨T, hT, hTid, -⟩ := (h.no_req _).mp hin
      have := (hs.ids T hT).2
      omega
    have hkeep : rt.no_requirements.filter (fun i => i ≠ rt.next_sub_id) = rt.no_requirements := by
      rw [List.filter_eq_self]
      intro i hi
      rw [decide_eq_true_eq]
      rintro rfl
      exact hno hi
    unfold eraseSubscription createSubscription Subscription.countRequired
    rw [hnew]
    dsimp only
    split
    · rw [List.filter_append, hkeep]
      simp
    · rfl
  · unfold eraseSubscription createSubscription
    dsimp only
    rw [hid, List.filter_append]
    have hkeep : rt.subscriptions.filter (fun T => T.subscription_id ≠ rt.next_sub_id) =
        rt.subscriptions := by
      rw [List.filter_eq_self]
      intro T hT
      have := (hs.ids T hT).2
      rw [decide_eq_true_eq]
      omega
    rw [hkeep]
    simp

theorem sameBut_setSub (hs : SubsInv rt) {rt' : Router} {S S' : Subscription}
    (hS : S ∈ rt.subscriptions) (hs' : SubsInv rt') (hc : rt'.constraints = rt.constraints)
    (hno : rt'.no_requirements = rt.no_requirements) (hid : S'.subscription_id = S.subscription_id)
    (hf : S'.filter = S.filter) (ha : S'.arguments = S.arguments)
    (hsubs : ∀ T, T ∈ rt'.subscriptions ↔
      (T ∈ rt.subscriptions ∧ T.subscription_id ≠ S.subscription_id) ∨ T = S') :
    SameBut S.subscription_id rt rt' := by
  refine ⟨fun a => by rw [hc], hno, ?_⟩
  intro s
  by_cases hsS : s = S.subscription_id
  · subst hsS
    have hfind := hs'.findSub_eq ((hsubs S').mpr (Or.inr rfl))
    rw [hid] at hfind
    exact Or.inr ⟨S, S', hs.findSub_eq hS, hfind, hf, ha, Or.inr ⟨rfl, hid⟩⟩
  · cases hT : rt.findSub s with
    | some T =>
      obtain ⟨hmem, rfl⟩ := mem_of_findSub hT
      exact Or.inr ⟨T, T, rfl, hs'.findSub_eq ((hsubs T).mpr (Or.inl ⟨hmem, hsS⟩)), rfl, rfl,
        Or.inl rfl⟩
    | none =>
      refine Or.inl ⟨rfl, ?_⟩
      cases hT' : rt'.findSub s with
      | none => rfl
      | some T =>
        obtain ⟨hmem, rfl⟩ := mem_of_findSub hT'
        rcases (hsubs T).mp hmem with ⟨hmem, -⟩ | rfl
        · rw [hs.findSub_eq hmem] at hT
          simp at hT
        · exact absurd hid hsS

theorem only_receiver {S : Subscription} (h : S.Wf) {r n k : Nat} (hk : k = 0 ∨ k = n)
    (hempty : ((S.addReceiver r n).1.removeReceiver r k).2.1 = true) :
    Assoc.keys S.receivers = [r] ∧ (k = 0 ∨ S.nodesOf r = [n]) := by
  rw [Subscription.removeReceiver_flag (Subscription.addReceiver_wf h r n)] at hempty
  have hnone : ∀ r', ((S.addReceiver r n).1.removeReceiver r k).1.nodesOf r' = [] := by
    intro r'
    simp [Subscription.nodesOf, hempty]
  have hother : ∀ r' ∈ Assoc.keys S.receivers, r' = r := by
    intro r' hr'
    by_contra hne
    have hr := hnone r'
    rw [Subscription.nodesOf_removeReceiver, if_neg (Ne.symm hne), Subscription.nodesOf_addReceiver,
      if_neg (Ne.symm hne)] at hr
    exact (h.mem_keys r').mp hr' hr
  obtain ⟨e, he⟩ := List.exists_mem_of_ne_nil _ h.receivers_ne
  have hmem : r ∈ Assoc.keys S.receivers := hother e.1 (List.mem_map.mpr ⟨e, he, rfl⟩) ▸
    List.mem_map.mpr ⟨e, he, rfl⟩
  have hr := (h.mem_keys r).mp hmem
  refine ⟨?_, ?_⟩
  · have hrep := List.eq_replicate_of_mem hother
    have hlen : (Assoc.keys S.receivers).length ≤ 1 := by
      rw [← List.nodup_replicate (a := r), ← hrep]
      exact h.keys_nodup
    have hpos := List.length_pos_of_mem hmem
    rw [hrep, show (Assoc.keys S.receivers).length = 1 by omega]
    rfl
  · have hlast := hnone r
    rw [Subscription.nodesOf_removeReceiver, if_pos rfl, Subscription.nodesOf_addReceiver,
      if_pos rfl] at hlast
    by_cases hk0 : k = 0
    · exact Or.inl hk0
    · obtain rfl : k = n := hk.resolve_left hk0
      rw [if_neg hk0] at hlast
      refine Or.inr ?_
      unfold Subscription.emplace at hlast
      split at hlast
      · exact (List.erase_eq_nil_iff.mp hlast).resolve_left hr
      · rename_i hnot
        rw [List.erase_append_right _ hnot, List.erase_cons_head, List.append_nil] at hlast
        exact absurd hlast hr

theorem removeReceiver_only (id : Nat) (f : InternalFilter) (args : SubscriptionArguments) (r : Nat)
    {n k : Nat} (hk : k = 0 ∨ k = n) :
    (Subscription.removeReceiver ⟨id, f, args, [(r, [n])]⟩ r k).2.1 = true := by
  have hcond : k = 0 ∨ [n].erase k = [] := by
    rcases hk with hk | rfl
    · exact Or.inl hk
    · exact Or.inr (by simp)
  unfold Subscription.removeReceiver
  simp only [Assoc.find, if_true, if_pos hcond]
  simp [Assoc.erase]

theorem step_remove_none {id r : Nat} (h : rt.findSub id = none) :
    (rt.step board (.remove id r node_id)).1 = rt := by
  have hstep := step_cases board rt (.remove id r node_id)
  generalize rt.step board (.remove id r node_id) = out at hstep
  cases hstep with
  | unknown => rfl
  | erase _ _ _ sub hsub hempty => rw [h] at hsub; simp at hsub
  | leave _ _ _ sub hsub hempty => rw [h] at hsub; simp at hsub

theorem step_remove_some (board : Board) (r : Nat) (node_id : String) {id : Nat} {S : Subscription}
    (h : rt.findSub id = some S) :
    ((S.removeReceiver r ((Assoc.find node_id rt.peer_node_ids).getD 0)).2.1 = true ∧
      (rt.step board (.remove id r node_id)).1 =
        rt.eraseSubscription (S.removeReceiver r ((Assoc.find node_id rt.peer_node_ids).getD
          0)).1) ∨
    ((S.removeReceiver r ((Assoc.find node_id rt.peer_node_ids).getD 0)).2.1 = false ∧
      (rt.step board (.remove id r node_id)).1 =
        rt.setSub (S.removeReceiver r ((Assoc.find node_id rt.peer_node_ids).getD 0)).1) := by
  have hstep := step_cases board rt (.remove id r node_id)
  generalize rt.step board (.remove id r node_id) = out at hstep
  cases hstep with
  | unknown _ _ _ hsub => rw [h] at hsub; simp at hsub
  | erase _ _ _ sub hsub hempty =>
    obtain rfl : S = sub := Option.some.inj (h.symm.trans hsub)
    exact Or.inl ⟨hempty, rfl⟩
  | leave _ _ _ sub hsub hempty =>
    obtain rfl : S = sub := Option.some.inj (h.symm.trans hsub)
    exact Or.inr ⟨hempty, rfl⟩

theorem sameBut_join_leave (hi : Inv board rt) {sub : Subscription} (hS : sub ∈ rt.subscriptions)
    {r : Nat} (hinv : Inv board
      ((rt.internNode src).1.setSub (sub.addReceiver r (rt.internNode src).2).1))
    (hnode : node_id = src ∨ Assoc.find node_id rt.peer_node_ids = none)
    (hends : ¬ (Assoc.keys sub.receivers = [r] ∧
      (node_id ≠ src ∨ sub.nodesOf r = [(rt.internNode src).2]))) :
    SameBut sub.subscription_id rt
      ((((rt.internNode src).1.setSub (sub.addReceiver r (rt.internNode src).2).1).step board
        (.remove sub.subscription_id r node_id)).1) := by
  obtain ⟨hk, hn0⟩ := removal_node hi hnode
  have hSi : sub ∈ (rt.internNode src).1.subscriptions := by rwa [internNode_subscriptions]
  have hmem := mem_setSub hSi (Subscription.addReceiver_id sub r (rt.internNode src).2)
  have hnew := (hmem _).mpr (Or.inr rfl)
  have hfind : ((rt.internNode src).1.setSub (sub.addReceiver r (rt.internNode src).2).1).findSub
      sub.subscription_id = some (sub.addReceiver r (rt.internNode src).2).1 :=
        hinv.subs.findSub_eq hnew
  have hnext := hinv.step (.remove sub.subscription_id r node_id)
  rcases step_remove_some board r node_id hfind with ⟨hempty, hrt⟩ | ⟨hempty, hrt⟩
  · -- The subscription would be gone: the receiver had it before, and alone.
    exfalso
    apply hends
    have hcase : (Assoc.find node_id (rt.internNode src).1.peer_node_ids).getD 0 = 0 ∨
        (Assoc.find node_id (rt.internNode src).1.peer_node_ids).getD 0 =
          (rt.internNode src).2 := by
      rw [hk]
      split
      · exact Or.inr rfl
      · exact Or.inl rfl
    obtain ⟨hkeys, hlast⟩ := only_receiver (hi.subs.wf sub hS) hcase hempty
    refine ⟨hkeys, ?_⟩
    rw [hk] at hlast
    by_cases hsrc : node_id = src
    · rw [if_pos hsrc] at hlast
      exact Or.inr (hlast.resolve_left hn0)
    · exact Or.inl hsrc
  · rw [hrt] at hnext ⊢
    obtain ⟨hid, hf, ha⟩ := (sub.addReceiver r (rt.internNode src).2).1.removeReceiver_rest r
      ((Assoc.find node_id (rt.internNode src).1.peer_node_ids).getD 0)
    refine sameBut_setSub hi.subs hS hnext.subs (internNode_constraints rt src)
      (internNode_no_requirements rt src) hid hf ha ?_
    intro T
    refine (mem_setSub hnew hid T).trans ?_
    simp only [hmem, internNode_subscriptions, Subscription.addReceiver_id]
    constructor
    · rintro (⟨h | rfl, hne⟩ | h)
      · exact Or.inl h
      · exact absurd rfl hne
      · exact Or.inr h
    · rintro (h | h)
      · exact Or.inl ⟨Or.inl h, h.2⟩
      · exact Or.inr h

theorem SameBut.of_internNode {id : Nat} {rt' : Router} (h : SameBut id (rt.internNode src).1 rt') :
    SameBut id rt rt' := by
  refine ⟨fun a => ?_, ?_, fun s => ?_⟩
  · rw [h.items, internNode_constraints]
  · rw [h.no_req, internNode_no_requirements]
  · have hfind : (rt.internNode src).1.findSub s = rt.findSub s := by
      unfold findSub
      rw [internNode_subscriptions]
    rw [← hfind]
    exact h.subs s

theorem sameBut_create_remove (hU : ∀ c, U c → c.eqv c = true) (hi : Inv board rt) (h : Linked U rt)
    {f : Filter} (hf : ∀ c ∈ f.constraints, U c) (hap : Apart U f.constraints) {r : Nat}
    {args : SubscriptionArguments}
    (hnode : node_id = src ∨ Assoc.find node_id rt.peer_node_ids = none) :
    SameBut rt.next_sub_id rt
      ((((rt.internNode src).1.createSubscription f r (rt.internNode src).2 args).step board
        (.remove rt.next_sub_id r node_id)).1) := by
  obtain ⟨hk, hn0⟩ := removal_node hi hnode
  have hs := hi.subs.internNode src
  have hm : Sound (rt.internNode src).1.constraints := by
    rw [internNode_constraints]; exact hi.sound
  have hfind := (hs.create f r (rt.internNode src).2 args).findSub_eq
    (List.mem_append_right _ List.mem_cons_self)
  dsimp only at hfind
  rw [← internNode_next_sub_id rt src]
  rcases step_remove_some board r node_id hfind with ⟨hempty, hrt⟩ | ⟨hempty, hrt⟩
  · rw [hrt]
    obtain ⟨hid, hfilter, -⟩ := Subscription.removeReceiver_rest _ r
      ((Assoc.find node_id (rt.internNode src).1.peer_node_ids).getD 0)
    exact (sameBut_create_erase hU (h.internNode src) hs hm hf hap r _ args hfind hid
      hfilter).of_internNode
  · -- Its only receiver goes, with all its nodes.
    exfalso
    have hcase : (Assoc.find node_id (rt.internNode src).1.peer_node_ids).getD 0 = 0 ∨
        (Assoc.find node_id (rt.internNode src).1.peer_node_ids).getD 0 =
          (rt.internNode src).2 := by
      rw [hk]
      split
      · exact Or.inr rfl
      · exact Or.inl rfl
    exact absurd (hempty.symm.trans (removeReceiver_only _ _ args r hcase)) (by simp)

theorem sameBut_add_remove (hU : ∀ c, U c → c.eqv c = true) (hi : Inv board rt) (h : Linked U rt)
    (f : Filter) (r : Nat) (who : ActorIdentifier) (args : SubscriptionArguments)
    (hfits : (Op.add f r who src args).Fits U)
    (hnode : node_id = src ∨ Assoc.find node_id rt.peer_node_ids = none)
    (hends : ¬ EndsEarlier rt f args r src node_id) :
    SameBut (rt.step board (.add f r who src args)).2.1 rt
      (((rt.step board (.add f r who src args)).1.step board
        (.remove (rt.step board (.add f r who src args)).2.1 r node_id)).1) := by
  have hinv := hi.step (.add f r who src args)
  have hadd := step_cases board rt (.add f r who src args)
  generalize rt.step board (.add f r who src args) = out at hadd hinv
  cases hadd with
  | fetch _ _ _ _ _ hf =>
    have hnone : rt.findSub 1 = none := by
      cases hS : rt.findSub 1 with
      | none => rfl
      | some S =>
        obtain ⟨hmem, hid⟩ := mem_of_findSub hS
        have := (hi.subs.ids S hmem).1
        omega
    dsimp only
    rw [step_remove_none hnone]
    exact sameBut_of_subscriptions (fun a => rfl) rfl rfl
  | join _ _ _ _ _ sub hf hsub =>
    exact sameBut_join_leave hi (mem_of_findEqual hsub).1 hinv hnode
      fun hbad => hends ⟨sub, hsub, hbad⟩
  | create _ _ _ _ _ hf hsub =>
    obtain ⟨hfU, hap⟩ := hfits hf
    exact sameBut_create_remove hU hi h hfU hap hnode

end

/-! ## Deliveries to the others -/

/-- The deliveries of all subscriptions but `id`. -/
def othersOf (id : Nat) (ds : List Delivery) : List (Nat × Nat) :=
  (ds.map Delivery.target).filter fun e => e.2 ≠ id

theorem SameBut.deliveries {id : Nat} {rt rt' : Router} (h : SameBut id rt rt')
    (hm : Sound rt.constraints) (hm' : Sound rt'.constraints) (board : Board) (order : VisitOrder)
    (seq : UInt32) (p : Publication) :
    (publishInternal board rt' order seq p).1.map (othersOf id) =
      (publishInternal board rt order seq p).1.map (othersOf id) := by
  have hsel := h.select hm hm' order (stamp board seq p).1
  have hview : ∀ o : Option Selection,
      (o.map fun sel => fanOut (stamp board seq p).1 sel.current_receivers).map (othersOf id) =
        (o.map (·.others id)).map Prod.snd := by
    intro o
    cases o with
    | none => rfl
    | some sel => simp [othersOf, fanOut_targets, Selection.others]
  simp only [publishInternal]
  rw [hview, hview, hsel]

/-- Adding a subscription and removing it again leaves the deliveries of all others as they are,
after any calls with filters whose constraints can be told apart. -/
theorem add_remove_keeps_others (board : Board) (U : Constraint → Prop)
    (hU : ∀ c, U c → c.eqv c = true) (ops : List Op) (hops : ∀ op ∈ ops, op.Fits U) (f : Filter)
    (r : Nat) (who : ActorIdentifier) (src node_id : String) (args : SubscriptionArguments)
    (hfits : (Op.add f r who src args).Fits U)
    (hnode : node_id = src ∨ Assoc.find node_id (run board ops).peer_node_ids = none)
    (hends : ¬ EndsEarlier (run board ops) f args r src node_id) (order : VisitOrder) (seq : UInt32)
    (p : Publication) :
    ∃ ds ds', (publishInternal board (run board ops) order seq p).1 = some ds ∧
      (publishInternal board (run board (ops ++ [.add f r who src args,
        .remove ((run board ops).step board (.add f r who src args)).2.1 r node_id])) order seq
          p).1 = some ds' ∧
      othersOf ((run board ops).step board (.add f r who src args)).2.1 ds' =
        othersOf ((run board ops).step board (.add f r who src args)).2.1 ds := by
  have hi := inv_run board ops
  have hl : Linked U (run board ops) := linked_run hU ops hops
  have hsame := sameBut_add_remove hU hi hl f r who args hfits hnode hends
  have hrun : run board (ops ++ [.add f r who src args,
      .remove ((run board ops).step board (.add f r who src args)).2.1 r node_id]) =
      (((run board ops).step board (.add f r who src args)).1.step board
        (.remove ((run board ops).step board (.add f r who src args)).2.1 r node_id)).1 := by
    simp [run]
  have hi' := (hi.step (.add f r who src args)).step
    (.remove ((run board ops).step board (.add f r who src args)).2.1 r node_id)
  rw [← hrun] at hsame hi'
  have hds := hsame.deliveries hi.sound hi'.sound board order seq p
  obtain ⟨sel, hsel⟩ := Option.isSome_iff_exists.mp
    (select_isSome hl hi.subs hi.sound order (stamp board seq p).1)
  have hbefore : (publishInternal board (run board ops) order seq p).1 =
      some (fanOut (stamp board seq p).1 sel.current_receivers) := by
    simp only [publishInternal, hsel, Option.map_some]
  rw [hbefore, Option.map_some, Option.map_eq_some_iff] at hds
  obtain ⟨ds', hafter, heq⟩ := hds
  exact ⟨_, ds', hbefore, hafter, heq⟩

/-- A filter with two constraints comes and goes. The subscriber of one of them stays. -/
theorem add_remove_keeps_others_sharing :
    ∃ ds', (publishInternal ⟨"node", 3⟩ (run ⟨"node", 3⟩
        ([.add ⟨[.int "x" 1 .EQ false], []⟩ 1 ⟨"node", "a", "1"⟩ "node" .default] ++
          [.add ⟨[.int "x" 1 .EQ false, .int "y" 2 .EQ false], []⟩ 2 ⟨"peer", "b", "1"⟩
            "peer" .default, .remove ((run ⟨"node", 3⟩
              [.add ⟨[.int "x" 1 .EQ false], []⟩ 1 ⟨"node", "a", "1"⟩ "node" .default]).step
                ⟨"node", 3⟩
              (.add ⟨[.int "x" 1 .EQ false, .int "y" 2 .EQ false], []⟩ 2 ⟨"peer", "b", "1"⟩ "peer"
                .default)).2.1 2 "peer"]))
        .plain 0 (Publication.empty.setAttr "x" (.int 1))).1 = some ds' ∧
          othersOf 12 ds' = [(1, 11)] := by
  have hplain : ∀ c ∈ [Constraint.int "x" 1 .EQ false, .int "y" 2 .EQ false], c.eqv c = true := by
    decide
  obtain ⟨ds, ds', hbefore, hafter, heq⟩ := add_remove_keeps_others ⟨"node", 3⟩
    (fun c => c ∈ [Constraint.int "x" 1 .EQ false, .int "y" 2 .EQ false]) hplain
    [.add ⟨[.int "x" 1 .EQ false], []⟩ 1 ⟨"node", "a", "1"⟩ "node" .default]
    (by
      intro op hop
      rw [List.mem_singleton] at hop
      subst hop
      intro _
      exact ⟨by decide, List.pairwise_singleton _ _⟩)
    ⟨[.int "x" 1 .EQ false, .int "y" 2 .EQ false], []⟩ 2 ⟨"peer", "b", "1"⟩ "peer" "peer" .default
    (by
      intro _
      refine ⟨by decide, List.pairwise_pair.mpr ?_⟩
      decide)
    (Or.inl rfl)
    (by
      rintro ⟨S, hS, -⟩
      have hnone : (run ⟨"node", 3⟩ [.add ⟨[.int "x" 1 .EQ false], []⟩ 1 ⟨"node", "a", "1"⟩ "node"
          .default]).findEqual ⟨[.int "x" 1 .EQ false, .int "y" 2 .EQ false], []⟩ .default =
            none := by decide
      rw [hnone] at hS
      exact absurd hS (by simp))
    .plain 0 (Publication.empty.setAttr "x" (.int 1))
  refine ⟨ds', hafter, ?_⟩
  have hid : ((run ⟨"node", 3⟩ [.add ⟨[.int "x" 1 .EQ false], []⟩ 1 ⟨"node", "a", "1"⟩
      "node" .default]).step ⟨"node", 3⟩ (.add ⟨[.int "x" 1 .EQ false, .int "y" 2 .EQ false], []⟩ 2
        ⟨"peer", "b", "1"⟩ "peer" .default)).2.1 = 12 := by decide
  have hds : (publishInternal ⟨"node", 3⟩ (run ⟨"node", 3⟩
      [.add ⟨[.int "x" 1 .EQ false], []⟩ 1 ⟨"node", "a", "1"⟩ "node" .default]) .plain 0
      (Publication.empty.setAttr "x" (.int 1))).1.map (othersOf 12) = some [(1, 11)] := by decide
  rw [hid] at heq
  rw [hbefore, Option.map_some] at hds
  rw [heq]
  exact Option.some.inj hds

/-- A filter that lists one constraint twice takes the entry of another subscriber away. -/
theorem add_remove_drops_other_subscriber :
    (publishInternal ⟨"node", 3⟩ (run ⟨"node", 3⟩
      [.add ⟨[.int "x" 1 .EQ false], []⟩ 1 ⟨"node", "a", "1"⟩ "node" .default]) .plain 0
      (Publication.empty.setAttr "x" (.int 1))).1.map (othersOf 12) = some [(1, 11)] ∧
    ((run ⟨"node", 3⟩ [.add ⟨[.int "x" 1 .EQ false], []⟩ 1 ⟨"node", "a", "1"⟩ "node" .default]).step
      ⟨"node", 3⟩ (.add ⟨[.int "x" 1 .EQ false, .int "x" 1 .EQ false], []⟩ 2 ⟨"node", "b", "1"⟩
        "node" .default)).2.1 = 12 ∧
    (publishInternal ⟨"node", 3⟩ (run ⟨"node", 3⟩
      [.add ⟨[.int "x" 1 .EQ false], []⟩ 1 ⟨"node", "a", "1"⟩ "node" .default,
        .add ⟨[.int "x" 1 .EQ false, .int "x" 1 .EQ false], []⟩ 2 ⟨"node", "b", "1"⟩
          "node" .default,
        .remove 12 2 "node"]) .plain 0
      (Publication.empty.setAttr "x" (.int 1))).1.map (othersOf 12) = some [] := by
  refine ⟨?_, ?_, ?_⟩ <;> decide

end Router

end UActor
