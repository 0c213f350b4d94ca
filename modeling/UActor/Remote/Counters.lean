import UActor.Remote.Connection

/-!
# The counters of a connection

The processors of a connection count the subscriptions that its partner was told of. Along every run
of calls they are compared with what the router announced.
-/

namespace UActor

open Pipeline Processor

namespace Router

/-- The filter that the router keeps for the subscription of the call. -/
def storedFilter (rt : Router) (f : Filter) (args : SubscriptionArguments) : Filter :=
  match rt.findEqual f args with
  | some sub => sub.filter.toFilter
  | none =>
    let req := fileConstraints rt.next_sub_id false f.required rt.constraints
    ⟨req.2, (fileConstraints rt.next_sub_id true f.optional req.1).2⟩

/-- If the call is to tell `X` about a subscription, it names a subscriber of this node, which the
connection selects, and no processor tells the filter of the call from the one that the router
keeps. -/
def Op.Seen (board : Board) (order : MapOrder) (h : Hello) (rt : Router) (X : String) : Op → Prop
  | .add f _ who src args => src ≠ X → (∀ sub ∈ rt.findEqual f args, ¬ Other rt X sub) →
    who.node_id = board.NODE_ID ∧ ∃ g g', RemoteConnection.received order f = some g ∧
      RemoteConnection.received order (rt.storedFilter f args) = some g' ∧ SameWay h.stages g g'
  | .remove .. => True

/-! ## The updates of a call -/

/-- A call publishes no update, or one for an addition, or one for a removal. -/
inductive Notice (board : Board) (rt : Router) : Op → List Publication → Prop
  | quiet (op : Op) : Notice board rt op []
  | added (f : Filter) (r : Nat) (who : ActorIdentifier) (src : String)
      (args : SubscriptionArguments) (exclude include_ : String) :
      Notice board rt (.add f r who src args) [publishSubscriptionAdded f args who exclude include_]
  | removed (sub_id r : Nat) (node_id : String) (sub : Subscription) (args : SubscriptionArguments)
      (exclude include_ : String) (hsub : rt.findSub sub_id = some sub) :
      Notice board rt (.remove sub_id r node_id) [publishSubscriptionRemoved board sub.filter args
        exclude include_]

theorem Notice.nil_or_singleton {board : Board} {rt : Router} {op : Op} {us : List Publication}
    (h : Notice board rt op us) : us = [] ∨ ∃ u, us = [u] := by
  cases h with
  | quiet => exact Or.inl rfl
  | added => exact Or.inr ⟨_, rfl⟩
  | removed => exact Or.inr ⟨_, rfl⟩

theorem updates_cases (board : Board) (rt : Router) (f : Filter) (r : Nat) (who : ActorIdentifier)
    (src : String) (args : SubscriptionArguments) :
    (rt.step board (.add f r who src args)).2.2 = replies board rt f args who ∨
      ∃ exclude include_, (rt.step board (.add f r who src args)).2.2 =
        replies board rt f args who ++ [publishSubscriptionAdded f args who exclude include_] := by
  have hstep := step_cases board rt (.add f r who src args)
  generalize rt.step board (.add f r who src args) = out at hstep
  cases hstep with
  | fetch => exact Or.inr ⟨_, _, rfl⟩
  | create => exact Or.inr ⟨_, _, rfl⟩
  | join _ _ _ _ _ sub _ hsub =>
    dsimp only
    unfold announceJoin
    split
    · split
      · exact Or.inr ⟨_, _, rfl⟩
      · split
        · exact Or.inr ⟨_, _, rfl⟩
        · split
          · exact Or.inr ⟨_, _, rfl⟩
          · exact Or.inl (List.append_nil _)
    · exact Or.inl (List.append_nil _)

theorem updates_add {board : Board} {rt : Router} {f : Filter} {r : Nat} {who : ActorIdentifier}
    {src : String} {args : SubscriptionArguments} (hf : args.fetch_policy = .FUTURE) :
    (rt.step board (.add f r who src args)).2.2 = [] ∨ ∃ exclude include_,
      (rt.step board (.add f r who src args)).2.2 =
        [publishSubscriptionAdded f args who exclude include_] := by
  have hcases := updates_cases board rt f r who src args
  rw [replies_future hf] at hcases
  exact hcases

theorem notice_step {board : Board} {rt : Router} {op : Op} (hop : op.Future) :
    Notice board rt op (rt.step board op).2.2 := by
  cases op with
  | add f r who src args =>
    have hus : (rt.step board (.add f r who src args)).2.2 = [] ∨ ∃ exclude include_, _ = [_] :=
      updates_add hop.1
    rcases hus with hus | ⟨exclude, include_, hus⟩
    · rw [hus]
      exact .quiet _
    · rw [hus]
      exact .added ..
  | remove sub_id r node_id =>
    have hstep := step_cases board rt (.remove sub_id r node_id)
    generalize rt.step board (.remove sub_id r node_id) = out at hstep
    cases hstep with
    | unknown => exact .quiet _
    | erase _ _ _ sub hsub hempty => exact .removed _ _ _ _ _ _ _ hsub
    | leave _ _ _ sub hsub hempty =>
      have hfilter := (Subscription.removeReceiver_rest sub r
        ((Assoc.find node_id rt.peer_node_ids).getD 0)).2.1
      dsimp only
      unfold announceLeave
      split
      · split
        · rw [hfilter]
          exact .removed _ _ _ _ _ _ _ hsub
        · exact .quiet _
      · exact .quiet _

theorem filter_step {board : Board} {rt : Router} {op : Op} (hop : op.Future) {S : Subscription}
    (hS : S ∈ (rt.step board op).1.subscriptions) :
    (∃ S₀ ∈ rt.subscriptions, S₀.subscription_id = S.subscription_id ∧ S₀.filter = S.filter) ∨
      S.subscription_id = rt.next_sub_id := by
  have hstep := step_cases board rt op
  generalize rt.step board op = out at hstep hS
  cases hstep with
  | fetch f r who src args hf => exact absurd (hop.1.symm.trans hf) (by simp)
  | unknown => exact Or.inl ⟨S, hS, rfl, rfl⟩
  | join f r who src args sub hf hsub =>
    have hmem := (mem_of_findEqual hsub).1
    have hmemi : sub ∈ (rt.internNode src).1.subscriptions := by rwa [internNode_subscriptions]
    rcases (mem_setSub hmemi (Subscription.addReceiver_id sub r _) S).mp hS with ⟨hS, -⟩ | rfl
    · rw [internNode_subscriptions] at hS
      exact Or.inl ⟨S, hS, rfl, rfl⟩
    · exact Or.inl ⟨sub, hmem, rfl, rfl⟩
  | create f r who src args hf hsub =>
    rcases List.mem_append.mp hS with hS | hS
    · rw [internNode_subscriptions] at hS
      exact Or.inl ⟨S, hS, rfl, rfl⟩
    · rw [List.mem_singleton.mp hS]
      exact Or.inr (internNode_next_sub_id rt src)
  | erase sub_id r node_id sub hsub hempty =>
    exact Or.inl ⟨S, (List.mem_filter.mp hS).1, rfl, rfl⟩
  | leave sub_id r node_id sub hsub hempty =>
    have hmem := (mem_of_findSub hsub).1
    obtain ⟨hid, hfilter, -⟩ :=
      Subscription.removeReceiver_rest sub r ((Assoc.find node_id rt.peer_node_ids).getD 0)
    rcases (mem_setSub hmem hid S).mp hS with ⟨hS, -⟩ | rfl
    · exact Or.inl ⟨S, hS, rfl, rfl⟩
    · exact Or.inl ⟨sub, hmem, hid.symm, hfilter.symm⟩

theorem filter_kept (board : Board) {rt : Router} (hinv : SubsInv rt) {op : Op} (hop : op.Future)
    (X : String) :
    ∀ S ∈ (rt.step board op).1.subscriptions, Heard rt X S.subscription_id →
      ∃ S₀ ∈ rt.subscriptions, S₀.subscription_id = S.subscription_id ∧ S₀.filter = S.filter := by
  intro S hS hold
  refine (filter_step hop hS).resolve_right fun heq => ?_
  obtain ⟨T, hT, hT', -⟩ := hold
  have := (hinv.ids T hT).2
  omega

theorem filter_added {board : Board} {rt : Router} (h : Inv board rt) {f : Filter} {r : Nat}
    {who : ActorIdentifier} {src : String} {args : SubscriptionArguments}
    (hf : args.fetch_policy = .FUTURE) {S : Subscription}
    (hS : S ∈ (rt.step board (.add f r who src args)).1.subscriptions)
    (hid : S.subscription_id = (rt.step board (.add f r who src args)).2.1) :
    S.filter.toFilter = rt.storedFilter f args := by
  have hinv : SubsInv (rt.step board (.add f r who src args)).1 := h.subs.step board _
  have hstep := step_cases board rt (.add f r who src args)
  generalize rt.step board (.add f r who src args) = out at hstep hS hid hinv
  unfold storedFilter
  cases hstep with
  | fetch _ _ _ _ _ hfetch => exact absurd (hf.symm.trans hfetch) (by simp)
  | join _ _ _ _ _ sub _ hsub =>
    have hmem := (mem_of_findEqual hsub).1
    have hmemi : sub ∈ (rt.internNode src).1.subscriptions := by rwa [internNode_subscriptions]
    rw [hsub]
    have hsame : (sub.addReceiver r (rt.internNode src).2).1 ∈
        ((rt.internNode src).1.setSub (sub.addReceiver r (rt.internNode src).2).1).subscriptions :=
      (mem_setSub hmemi (Subscription.addReceiver_id sub r _) _).mpr (Or.inr rfl)
    rw [hinv.eq_of_id hS hsame hid]
    rfl
  | create _ _ _ _ _ _ hsub =>
    rw [hsub]
    rcases List.mem_append.mp hS with hS | hS
    · rw [internNode_subscriptions] at hS
      have := (h.subs.ids S hS).2
      dsimp only at hid
      omega
    · rw [List.mem_singleton.mp hS]
      simp only [internNode_constraints, internNode_next_sub_id]
      rfl

end Router

/-! ## What the processors hold -/

namespace RemoteConnection

open Router

/-- The processors hold one filter for each subscription that `X` was told of, and no processor
tells it from the filter that a removal would bring. -/
structure Counted (order : MapOrder) (h : Hello) (X : String) (rt : Router) (ps : List Processor)
    (held : List (Nat × Filter)) : Prop where
  chain : ps.map stage = load h.stages (held.map Prod.snd)
  nodup : (held.map Prod.fst).Nodup
  heard : ∀ s, s ∈ held.map Prod.fst ↔ Heard rt X s
  alike : ∀ e ∈ held, ∀ S ∈ rt.subscriptions, S.subscription_id = e.1 →
    ∃ g, received order S.filter.toFilter = some g ∧ SameWay h.stages e.2 g

variable {order : MapOrder} {board : Board} {h : Hello} {X : String} {rt : Router}
  {ps ps' : List Processor} {held : List (Nat × Filter)}

theorem Counted.alike_of_kept {rt' : Router} (hc : Counted order h X rt ps held)
    (hfilter : ∀ S ∈ rt'.subscriptions, Heard rt X S.subscription_id →
      ∃ S₀ ∈ rt.subscriptions, S₀.subscription_id = S.subscription_id ∧ S₀.filter = S.filter)
    {e : Nat × Filter} (he : e ∈ held) {S : Subscription} (hS : S ∈ rt'.subscriptions)
    (hid : S.subscription_id = e.1) :
    ∃ g, received order S.filter.toFilter = some g ∧ SameWay h.stages e.2 g := by
  have hold : Heard rt X S.subscription_id := by
    rw [hid]
    exact (hc.heard e.1).mp (List.mem_map_of_mem he)
  obtain ⟨S₀, hS₀, hid₀, hfilter₀⟩ := hfilter S hS hold
  rw [← hfilter₀]
  exact hc.alike e he S₀ hS₀ (hid₀.trans hid)

theorem Counted.congr {rt' : Router} (hc : Counted order h X rt ps held)
    (hheard : ∀ s, Heard rt' X s ↔ Heard rt X s)
    (hfilter : ∀ S ∈ rt'.subscriptions, Heard rt X S.subscription_id →
      ∃ S₀ ∈ rt.subscriptions, S₀.subscription_id = S.subscription_id ∧ S₀.filter = S.filter) :
    Counted order h X rt' ps held := by
  refine ⟨hc.chain, hc.nodup, fun s => (hc.heard s).trans (hheard s).symm, ?_⟩
  intro e he S hS hid
  exact hc.alike_of_kept hfilter he hS hid

theorem Counted.added {rt' : Router} (hc : Counted order h X rt ps held) (hplain : h.PlainKeys)
    (hlen : held.length + 1 < 2 ^ 32) {s : Nat} {g : Filter} {args : SubscriptionArguments}
    {o : List Processor × Option Filter}
    (hthrough : through processAdded ps g args = some o) (hnew : ¬ Heard rt X s)
    (hheard : ∀ s', Heard rt' X s' ↔ s' = s ∨ Heard rt X s')
    (hfilter : ∀ S ∈ rt'.subscriptions, Heard rt X S.subscription_id →
      ∃ S₀ ∈ rt.subscriptions, S₀.subscription_id = S.subscription_id ∧ S₀.filter = S.filter)
    (halike : ∀ S ∈ rt'.subscriptions, S.subscription_id = s →
      ∃ g', received order S.filter.toFilter = some g' ∧ SameWay h.stages g g') :
    Counted order h X rt' o.1 ((s, g) :: held) := by
  have hadd := through_added ?_ hthrough
  · rw [hc.chain] at hadd
    refine ⟨?_, ?_, ?_, ?_⟩
    · have hload := (add_load h.late_stages hplain.keyed.apart (held.map Prod.snd) g args).1
      rw [hadd] at hload
      exact hload
    · rw [List.map_cons, List.nodup_cons, hc.heard]
      exact ⟨hnew, hc.nodup⟩
    · intro s'
      rw [List.map_cons, List.mem_cons, hc.heard, hheard]
    · intro e he S hS hid
      rcases List.mem_cons.mp he with rfl | he
      · exact halike S hS hid
      · exact hc.alike_of_kept hfilter he hS hid
  · intro b r n hm
    rw [hc.chain] at hm
    have := count_le_of_load hm
    rw [List.length_map] at this
    omega

theorem Counted.split (hc : Counted order h X rt ps held) {sub : Subscription}
    (hsub : sub ∈ rt.subscriptions) (hheard : Heard rt X sub.subscription_id) :
    ∃ g g', (sub.subscription_id, g) ∈ held ∧ received order sub.filter.toFilter = some g' ∧
    SameWay h.stages g g' ∧
      ps.map stage = load h.stages (g :: (held.erase (sub.subscription_id, g)).map Prod.snd) := by
  obtain ⟨⟨s, g⟩, he, hs⟩ := List.mem_map.mp ((hc.heard _).mpr hheard)
  obtain rfl : s = sub.subscription_id := hs
  obtain ⟨g', hg', hway⟩ := hc.alike _ he sub hsub rfl
  refine ⟨g, g', he, hg', hway, ?_⟩
  rw [hc.chain]
  exact load_perm _ ((List.perm_cons_erase he).map Prod.snd)

theorem Counted.removed {rt' : Router} (hc : Counted order h X rt ps held) (hplain : h.PlainKeys)
    {s : Nat} {g g' : Filter} {args : SubscriptionArguments} {o : List Processor × Option Filter}
    (he : (s, g) ∈ held) (hway : SameWay h.stages g g')
    (hload : ps.map stage = load h.stages (g :: (held.erase (s, g)).map Prod.snd))
    (hthrough : through processRemoved ps g' args = some o)
    (hheard : ∀ s', Heard rt' X s' ↔ s' ≠ s ∧ Heard rt X s')
    (hfilter : ∀ S ∈ rt'.subscriptions, Heard rt X S.subscription_id →
      ∃ S₀ ∈ rt.subscriptions, S₀.subscription_id = S.subscription_id ∧ S₀.filter = S.filter) :
    Counted order h X rt' o.1 (held.erase (s, g)) := by
  have hwayl := (sameWay_load h.stages (g :: (held.erase (s, g)).map Prod.snd) g g').mpr hway
  have hremove := through_removed (by rw [hload]; exact hway.holds_load _) hthrough
  have hsub : ∀ e ∈ held.erase (s, g), e ∈ held ∧ e.1 ≠ s := by
    intro e hmem
    have hnodup : held.Nodup := List.Nodup.of_map _ hc.nodup
    obtain ⟨hne, hmem⟩ := (hnodup.mem_erase_iff).mp hmem
    exact ⟨hmem, fun hs => hne (List.inj_on_of_nodup_map hc.nodup hmem he hs)⟩
  refine ⟨?_, ?_, ?_, ?_⟩
  · have hfst := (remove_load h.late_stages hplain.keyed.apart ((held.erase (s, g)).map Prod.snd)
      g args).1
    rw [hwayl.remove_fst, ← hload, hremove] at hfst
    exact hfst
  · exact hc.nodup.sublist (List.erase_sublist.map _)
  · intro s'
    rw [hheard, ← hc.heard]
    constructor
    · intro hs'
      obtain ⟨e, hmem, rfl⟩ := List.mem_map.mp hs'
      exact ⟨(hsub e hmem).2, List.mem_map_of_mem (hsub e hmem).1⟩
    · rintro ⟨hne, hs'⟩
      obtain ⟨e, hmem, rfl⟩ := List.mem_map.mp hs'
      refine List.mem_map_of_mem ((List.mem_erase_of_ne ?_).mpr hmem)
      rintro rfl
      exact hne rfl
  · intro e hmem S hS hid
    exact hc.alike_of_kept hfilter (hsub e hmem).1 hS hid

/-! ## One call -/

/-- What a tidy call tells `X`, and what `X` has been told of then. -/
inductive Told (X : String) (rt rt' : Router) (s : Nat) : List Bool → Prop
  | nothing (hheard : ∀ s', Heard rt' X s' ↔ Heard rt X s') : Told X rt rt' s []
  | added (hnew : ¬ Heard rt X s) (hheard : ∀ s', Heard rt' X s' ↔ s' = s ∨ Heard rt X s') :
      Told X rt rt' s [true]
  | removed (hold : Heard rt X s) (hheard : ∀ s', Heard rt' X s' ↔ s' ≠ s ∧ Heard rt X s') :
      Told X rt rt' s [false]

theorem told_step {op : Op} (hinv : Inv board rt) (hnamed : Named board rt)
    (hid : board.NODE_ID ≠ "") (hX : X ≠ board.NODE_ID) (hop : op.Future) (htidy : op.Tidy rt X) :
    Told X rt (rt.step board op).1 (op.subject (rt.step board op))
    (kinds X (rt.step board op).2.2) := by
  classical
  have hturn : Turn rt X op (decide (Heard rt X (op.subject (rt.step board op))))
      (rt.step board op).2.2 :=
    turn_step hinv hnamed hid hX hop (by rw [decide_eq_true_eq])
  have hnext := heard_step hinv hnamed (hop.sourced board) hX
    (b := decide (Heard rt X (op.subject (rt.step board op)))) (by rw [decide_eq_true_eq])
  rw [foldl_hear] at hnext
  have hframe := fun s' hs => heard_step_frame (X := X) hinv (hop.sourced board) (s := s') hs
  generalize rt.step board op = out at hturn hnext hframe
  generalize op.subject out = s at hturn hnext hframe
  rcases hturn with ⟨hkinds, -⟩ | ⟨b, hkinds, hb⟩
  · rw [hkinds] at hnext ⊢
    refine .nothing fun s' => ?_
    by_cases hs : s = s'
    · rw [← hs, ← hnext]
      exact decide_eq_true_iff
    · exact hframe s' hs
  · rw [hkinds] at hnext ⊢
    have hb := hb.mp htidy
    cases b with
    | true =>
      have hnew : ¬ Heard rt X s := by simpa using hb
      refine .added hnew fun s' => ?_
      by_cases hs : s = s'
      · rw [← hs, ← hnext]
        simp
      · rw [hframe s' hs]
        simp [Ne.symm hs]
    | false =>
      have hold : Heard rt X s := by simpa using hb
      refine .removed hold fun s' => ?_
      by_cases hs : s = s'
      · rw [← hs, ← hnext]
        simp
      · rw [hframe s' hs]
        simp [Ne.symm hs]

theorem source_of_news {f : Filter} {r : Nat} {who : ActorIdentifier} {src : String}
    {args : SubscriptionArguments} (hinv : Inv board rt) (hop : (Op.add f r who src args).Future)
    (hold : ¬ Heard rt X (rt.step board (.add f r who src args)).2.1)
    (hnew : Heard (rt.step board (.add f r who src args)).1 X
      (rt.step board (.add f r who src args)).2.1) :
    src ≠ X ∧ ∀ sub ∈ rt.findEqual f args, ¬ Other rt X sub := by
  have hname := hinv.peers.nodeName_self src
  have hstep := step_cases board rt (.add f r who src args)
  generalize rt.step board (.add f r who src args) = out at hstep hold hnew
  cases hstep with
  | fetch _ _ _ _ _ hf => exact absurd (hop.1.symm.trans hf) (by simp)
  | join _ _ _ _ _ sub hf hsub =>
    have hmem := (mem_of_findEqual hsub).1
    have hmemi : sub ∈ (rt.internNode src).1.subscriptions := by rwa [internNode_subscriptions]
    have hnodes := Subscription.mem_nodes_addReceiver (hinv.subs.wf sub hmem) r
      (rt.internNode src).2
    dsimp only at hold hnew
    rw [heard_iff hinv.subs hmem] at hold
    refine ⟨?_, fun T hT => ?_⟩
    · rw [heard_setSub hmemi (Subscription.addReceiver_id sub r _), if_pos rfl] at hnew
      obtain ⟨n, hn, hnX⟩ := hnew
      rcases (hnodes n).mp hn with hn | rfl
      · exact absurd ((other_internNode hinv.peers hmem src X).mp ⟨n, hn, hnX⟩) hold
      · rwa [hname] at hnX
    · rw [hsub] at hT
      rwa [← Option.some.inj hT]
  | create _ _ _ _ _ hf hsub =>
    dsimp only at hnew
    rw [heard_createSubscription (hinv.subs.internNode src), internNode_next_sub_id, if_pos rfl,
      hname] at hnew
    exact ⟨hnew, by simp [hsub]⟩

theorem underflows_removed {F : InternalFilter} {g : Filter} {args : SubscriptionArguments}
    {exclude include_ : String} (hg : received order F.toFilter = some g)
    (hholds : Holds (ps.map stage) g) :
    underflows order board.NODE_ID X ps (publishSubscriptionRemoved board F args exclude include_) =
      false := by
  unfold underflows
  rw [readUpdate_removed, hg]
  simp [underflows_of_holds hholds]

theorem underflows_removed_passed {F : InternalFilter} {args : SubscriptionArguments}
    {exclude include_ : String} (hreach : ¬ reaches X exclude include_) :
    underflows order board.NODE_ID X ps (publishSubscriptionRemoved board F args exclude include_) =
      false := by
  have hsel : (updateFilter board.NODE_ID X "local_subscription_removed").matches
      (publishSubscriptionRemoved board F args exclude include_) = false := by
    rw [Bool.eq_false_iff, ne_eq, matches_removed]
    exact fun hsel => hreach hsel.2
  simp [underflows, hsel]

theorem Counted.update_added {f : Filter} {r : Nat} {who : ActorIdentifier} {src : String}
    {args : SubscriptionArguments} {exclude include_ : String} (hc : Counted order h X rt ps held)
    (hplain : h.PlainKeys) (hlen : held.length + 1 < 2 ^ 32) (hinv : Inv board rt)
    (hop : (Op.add f r who src args).Future)
    (hseen : (Op.add f r who src args).Seen board order h rt X)
    (htold : Told X rt (rt.step board (.add f r who src args)).1
      (rt.step board (.add f r who src args)).2.1
        (kinds X [publishSubscriptionAdded f args who exclude include_]))
    (hps : (update order board.NODE_ID X ps
      (publishSubscriptionAdded f args who exclude include_)).map Prod.fst =
      some ps') :
    ∃ held', Counted order h X (rt.step board (.add f r who src args)).1 ps' held' ∧
      held'.length ≤ held.length + 1 := by
  classical
  have hfilter := filter_kept board hinv.subs hop X
  rw [kinds_added] at htold
  by_cases hreach : reaches X exclude include_
  · rw [if_pos hreach] at htold
    cases htold with
    | added hnew hheard =>
      have hsource := source_of_news hinv hop hnew ((hheard _).mpr (Or.inl rfl))
      obtain ⟨hwho, g, g', hg, hg', hway⟩ := hseen hsource.1 hsource.2
      rw [RemoteConnection.update_added hg hwho hreach] at hps
      obtain ⟨out, hout, rfl⟩ := Option.map_eq_some_iff.mp hps
      obtain ⟨o, hthrough, rfl⟩ := Option.map_eq_some_iff.mp hout
      refine ⟨_, hc.added hplain hlen hthrough hnew hheard hfilter ?_, by simp⟩
      intro S hS hS'
      refine ⟨g', ?_, hway⟩
      rwa [filter_added hinv hop.1 hS hS']
  · rw [if_neg hreach] at htold
    rw [update_added_passed fun hsel => hreach hsel.2] at hps
    obtain rfl : ps = ps' := Option.some.inj hps
    cases htold with
    | nothing hheard => exact ⟨held, hc.congr hheard hfilter, by omega⟩

theorem Counted.update_removed {sub : Subscription} {r : Nat} {node_id : String}
    {args : SubscriptionArguments} {exclude include_ : String} (hc : Counted order h X rt ps held)
    (hplain : h.PlainKeys) (hinv : Inv board rt)
    (hop : (Op.remove sub.subscription_id r node_id).Future) (hmem : sub ∈ rt.subscriptions)
    (htold : Told X rt (rt.step board (.remove sub.subscription_id r node_id)).1 sub.subscription_id
      (kinds X [publishSubscriptionRemoved board sub.filter args exclude include_])) :
    underflows order board.NODE_ID X ps (publishSubscriptionRemoved board sub.filter args exclude
      include_) = false ∧
    ∀ ps', (update order board.NODE_ID X ps
        (publishSubscriptionRemoved board sub.filter args exclude include_)).map Prod.fst =
          some ps' →
      ∃ held', Counted order h X (rt.step board (.remove sub.subscription_id r node_id)).1
        ps' held' ∧
        held'.length ≤ held.length + 1 := by
  classical
  have hfilter := filter_kept board hinv.subs hop X
  rw [kinds_removed] at htold
  by_cases hreach : reaches X exclude include_
  · rw [if_pos hreach] at htold
    cases htold with
    | removed hold hheard =>
      obtain ⟨g, g', he, hg', hway, hload⟩ := hc.split hmem hold
      have hholds : Holds (ps.map stage) g' := by
        rw [hload]
        exact hway.holds_load _
      refine ⟨underflows_removed hg' hholds, fun ps' hps => ?_⟩
      rw [RemoteConnection.update_removed hg' hreach] at hps
      obtain ⟨out, hout, rfl⟩ := Option.map_eq_some_iff.mp hps
      obtain ⟨o, hthrough, rfl⟩ := Option.map_eq_some_iff.mp hout
      refine ⟨_, hc.removed hplain he hway hload hthrough hheard hfilter, ?_⟩
      rw [List.length_erase_of_mem he]
      omega
  · rw [if_neg hreach] at htold
    refine ⟨underflows_removed_passed hreach, fun ps' hps => ?_⟩
    rw [update_removed_passed hreach] at hps
    obtain rfl : ps = ps' := Option.some.inj hps
    cases htold with
    | nothing hheard => exact ⟨held, hc.congr hheard hfilter, by omega⟩

theorem Counted.step {op : Op} (hc : Counted order h X rt ps held)
    (hNODE : h.NODE_ID = board.NODE_ID) (hplain : h.PlainKeys) (hlen : held.length + 1 < 2 ^ 32)
    (hinv : Inv board rt) (hnamed : Named board rt) (hid : board.NODE_ID ≠ "")
    (hX : X ≠ board.NODE_ID) (hop : op.Future) (htidy : op.Tidy rt X)
    (hseen : op.Seen board order h rt X) :
    (∀ u ∈ (rt.step board op).2.2, underflows order h.NODE_ID X ps u = false) ∧
    ∀ ps', (rt.step board op).2.2.foldlM (fun ps u => (update order h.NODE_ID X ps u).map Prod.fst)
      ps = some ps' →
      ∃ held', Counted order h X (rt.step board op).1 ps' held' ∧
      held'.length ≤ held.length + 1 := by
  have htold := told_step hinv hnamed hid hX hop htidy
  have hnotice : Notice board rt op (rt.step board op).2.2 := notice_step hop
  rw [hNODE]
  generalize (rt.step board op).2.2 = us at htold hnotice
  cases hnotice with
  | quiet =>
    refine ⟨by simp, fun ps' hps => ⟨held, ?_, by omega⟩⟩
    rw [← Option.some.inj hps]
    cases htold with
    | nothing hheard => exact hc.congr hheard (filter_kept board hinv.subs hop X)
  | added f r who src args exclude include_ =>
    refine ⟨by simp [underflows, not_removed_added], fun ps' hps => ?_⟩
    rw [Runs.foldlM_singleton] at hps
    exact hc.update_added hplain hlen hinv hop hseen htold hps
  | removed sub_id r node_id sub args exclude include_ hsub =>
    obtain ⟨hmem, rfl⟩ := mem_of_findSub hsub
    obtain ⟨hflow, hheld⟩ := hc.update_removed hplain hinv hop hmem htold
    refine ⟨by simpa using hflow, fun ps' hps => ?_⟩
    rw [Runs.foldlM_singleton] at hps
    exact hheld ps' hps

/-! ## Every run -/

theorem counted_init (order : MapOrder) (board : Board) (h : Hello) (X : String) :
    Counted order h X (init board) h.egressProcessors [] := by
  refine ⟨h.load_stages.symm, List.nodup_nil, ?_, by simp⟩
  simp [Heard, init]

/-- Along a run the processors hold what `X` was told of. -/
theorem counted_run {ops : List Op} (hops : ∀ op ∈ ops, op.Future) (hid : board.NODE_ID ≠ "")
    (hX : X ≠ board.NODE_ID) (hNODE : h.NODE_ID = board.NODE_ID) (hplain : h.PlainKeys)
    (hlen : ops.length < 2 ^ 32) (hmeets : ∀ pre op post, ops = pre ++ op :: post →
      op.Tidy (run board pre) X ∧ op.Seen board order h (run board pre) X) :
    (∀ pre u post, (updates board ops).map Prod.snd = pre ++ u :: post →
      ∀ ps, processorsAfter order h X pre = some ps → underflows order h.NODE_ID X ps u = false) ∧
    ∀ ps, processorsAfter order h X ((updates board ops).map Prod.snd) = some ps →
      ∃ held, Counted order h X (run board ops) ps held ∧ held.length ≤ ops.length := by
  induction ops using List.reverseRecOn with
  | nil =>
    refine ⟨by simp [updates], fun ps hps => ⟨[], ?_, by simp⟩⟩
    rw [← Option.some.inj hps]
    exact counted_init order board h X
  | append_singleton ops op ih =>
    rw [List.length_append, List.length_singleton] at hlen
    have hops' : ∀ o ∈ ops, o.Future := fun o ho => hops o (List.mem_append_left _ ho)
    have hop : op.Future := hops op (by simp)
    obtain ⟨hsafe, hcounted⟩ := ih hops' (by omega) fun pre o post heq =>
      hmeets pre o (post ++ [op]) (by rw [heq, List.append_assoc, List.cons_append])
    obtain ⟨htidy, hseen⟩ := hmeets ops op [] rfl
    have hnamed := named_run fun o ho => (hops' o ho).sourced board
    have hus : (updates board (ops ++ [op])).map Prod.snd =
        (updates board ops).map Prod.snd ++ ((run board ops).step board op).2.2 := by
      rw [updates_snoc, List.map_append, List.map_map]
      congr 1
      exact List.map_id _
    rw [hus, run_snoc]
    have hnotice : Notice board (run board ops) op ((run board ops).step board op).2.2 :=
      notice_step hop
    refine ⟨?_, ?_⟩
    · intro pre u post heq ps hps
      rcases hnotice.nil_or_singleton with hnil | ⟨v, hv⟩
      · rw [hnil, List.append_nil] at heq
        exact hsafe pre u post heq ps hps
      · rw [hv] at heq
        rcases Runs.snoc_eq_append_cons heq with ⟨rfl, rfl⟩ | ⟨post', heq⟩
        · obtain ⟨held, hc, hheld⟩ := hcounted ps hps
          refine (hc.step hNODE hplain (by omega) (inv_run board ops) hnamed hid hX hop htidy
            hseen).1 v ?_
          rw [hv]
          exact List.mem_singleton_self v
        · exact hsafe pre u post' heq ps hps
    · intro ps' hps
      unfold processorsAfter at hps
      rw [List.foldlM_append] at hps
      obtain ⟨ps, hps, hlast⟩ := Option.bind_eq_some_iff.mp hps
      obtain ⟨held, hc, hheld⟩ := hcounted ps hps
      obtain ⟨held', hc', hheld'⟩ :=
        (hc.step hNODE hplain (by omega) (inv_run board ops) hnamed hid hX hop htidy hseen).2
          ps' hlast
      refine ⟨held', hc', ?_⟩
      rw [List.length_append, List.length_singleton]
      omega

/-- The updates for a peer alternate exactly if every call is tidy, and no counter is then
decremented below zero if the connection selects the additions too. -/
theorem updates_alternate_iff_tidy (board : Board) (X : String) (ops : List Op)
    (hops : ∀ op ∈ ops, op.Future) (hid : board.NODE_ID ≠ "") (hX : X ≠ board.NODE_ID) :
    ((∀ s, alternates true (announced board X s ops) = true) ↔
      ∀ pre op post, ops = pre ++ op :: post → op.Tidy (run board pre) X) ∧
    ∀ (order : MapOrder) (h : Hello), h.NODE_ID = board.NODE_ID → h.PlainKeys →
    ops.length < 2 ^ 32 →
      (∀ pre op post, ops = pre ++ op :: post →
        op.Tidy (run board pre) X ∧ op.Seen board order h (run board pre) X) →
      ∀ pre u post, (updates board ops).map Prod.snd = pre ++ u :: post →
        ∀ ps, processorsAfter order h X pre = some ps → underflows order h.NODE_ID X ps u = false :=
  ⟨alternates_iff_tidy hops hid hX, fun _ _ hNODE hplain hlen hmeets =>
    (counted_run hops hid hX hNODE hplain hlen hmeets).1⟩

/-- A local subscription that comes and goes. -/
theorem updates_alternate_iff_tidy_local :
    (∀ s, alternates true (announced ⟨"node", 3⟩ "a" s
      [.add ⟨[.str "node_id" "node" .EQ false], []⟩ 1 ⟨"node", "t", "1"⟩ "node" .default,
        .remove 11 1 "node"]) =
        true) ∧
    ∀ pre u post, (updates ⟨"node", 3⟩
      [.add ⟨[.str "node_id" "node" .EQ false], []⟩ 1 ⟨"node", "t", "1"⟩ "node" .default,
        .remove 11 1 "node"]).map Prod.snd = pre ++ u :: post →
      ∀ ps, processorsAfter ⟨List.reverse, fun m => List.reverse_perm m⟩ ⟨"node", [], [], [], "",
        ""⟩ "a" pre =
        some ps → underflows ⟨List.reverse, fun m => List.reverse_perm m⟩ "node" "a" ps u =
          false := by
  have hmeets : ∀ pre op post,
      [Op.add ⟨[.str "node_id" "node" .EQ false], []⟩ 1 ⟨"node", "t", "1"⟩ "node" .default,
        .remove 11 1 "node"] =
        pre ++ op :: post →
      op.Tidy (run ⟨"node", 3⟩ pre) "a" ∧
      op.Seen ⟨"node", 3⟩ ⟨List.reverse, fun m => List.reverse_perm m⟩
        ⟨"node", [], [], [], "", ""⟩ (run ⟨"node", 3⟩ pre) "a" := by
    intro pre op post heq
    rcases pre with _ | ⟨a, _ | ⟨b, pre⟩⟩
    · obtain ⟨rfl, rfl⟩ := List.cons.inj heq
      exact ⟨by decide, fun _ _ => ⟨rfl, _, _, rfl, rfl, sameWay_refl _ _⟩⟩
    · obtain ⟨rfl, htail⟩ := List.cons.inj heq
      obtain ⟨rfl, rfl⟩ := List.cons.inj htail
      exact ⟨by decide, trivial⟩
    · simp at heq
  have hrun := updates_alternate_iff_tidy ⟨"node", 3⟩ "a"
    [.add ⟨[.str "node_id" "node" .EQ false], []⟩ 1 ⟨"node", "t", "1"⟩ "node" .default,
      .remove 11 1 "node"]
    (by decide) (by decide) (by decide)
  exact ⟨hrun.1.mpr fun pre op post heq => (hmeets pre op post heq).1,
    hrun.2 ⟨List.reverse, fun m => List.reverse_perm m⟩ ⟨"node", [], [], [], "", ""⟩
      rfl (by simp [Hello.PlainKeys]) (by decide) hmeets⟩

/-- The peer that alone holds a subscription hears of its end, and a counter of its connection
wraps. -/
theorem removal_before_addition :
    announced ⟨"node", 3⟩ "a" 11
      [.add ⟨[.str "node_id" "node" .EQ false], []⟩ 1 ⟨"a", "t", "1"⟩ "a" .default,
        .remove 11 1 "a"] = [false] ∧
    alternates true [false] = false ∧
    ∃ pre u ps, (updates ⟨"node", 3⟩
      [.add ⟨[.str "node_id" "node" .EQ false], []⟩ 1 ⟨"a", "t", "1"⟩ "a" .default,
        .remove 11 1 "a"]).map Prod.snd = pre ++ [u] ∧
      processorsAfter ⟨List.reverse, fun m => List.reverse_perm m⟩ ⟨"node", [], [], [], "", ""⟩ "a"
        pre = some ps ∧
      underflows ⟨List.reverse, fun m => List.reverse_perm m⟩ "node" "a" ps u = true := by
  refine ⟨by decide, by decide, [_], _, _, rfl, rfl, by decide⟩

end RemoteConnection

end UActor
