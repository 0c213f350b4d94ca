import UActor.Remote.Session

/-!
# The order of connections

A subscription of one peer arrives at a node, before or after another peer connects. What the second
peer is told of in the two orders is compared.
-/

namespace UActor

open Pipeline Processor

namespace Router

/-- The routers of a node: after calls, and after snapshots, which give the peer they are for a
number. -/
inductive Reachable (board : Board) : Router → Prop
  | init : Reachable board (init board)
  | step {rt : Router} (h : Reachable board rt) (op : Op) : Reachable board (rt.step board op).1
  | snapshot {rt : Router} (h : Reachable board rt) (node_id : String) :
      Reachable board (rt.internNode node_id).1

theorem Reachable.inv {board : Board} {rt : Router} (h : Reachable board rt) : Inv board rt := by
  induction h with
  | init => exact inv_init board
  | step _ op ih => exact ih.step op
  | snapshot _ node_id ih => exact ih.internNode node_id

/-! ## Calls to add -/

theorem stored_str {m : IndexMap} (hm : Sound m) (sub : Nat) (opt : Bool)
    {cs : List Constraint} {attr x : String} {b : Bool}
    (hmem : .str attr x .EQ b ∈ cs) :
    ∃ b', .str attr x .EQ b' ∈ (fileConstraints sub opt cs m).2 := by
  induction cs generalizing m with
  | nil => simp at hmem
  | cons c cs ih =>
    rw [fileConstraints_cons]
    rcases List.mem_cons.mp hmem with rfl | hmem
    · rw [fileOne_stored_eq hm]
      cases hfirst : firstEqual m (.str attr x .EQ b) with
      | none => exact ⟨b, List.mem_cons_self⟩
      | some d =>
        have heq : d.eqv (.str attr x .EQ b) = true := by
          unfold firstEqual at hfirst
          simpa using List.find?_some hfirst
        cases d with
        | str a y op b' =>
          simp only [Constraint.eqv, Bool.and_eq_true, beq_iff_eq] at heq
          obtain ⟨rfl, rfl, rfl⟩ := heq
          exact ⟨b', List.mem_cons_self⟩
        | int | float | list => simp [Constraint.eqv] at heq
    · obtain ⟨b', hb'⟩ := ih (fileOne_spec hm sub opt c).2 hmem
      exact ⟨b', List.mem_cons_of_mem _ hb'⟩

theorem subscriptions_add (board : Board) (rt : Router) (f : Filter) (r : Nat)
    (who : ActorIdentifier) (src : String) {args : SubscriptionArguments}
    (hf : args.fetch_policy = .FUTURE) :
    (∃ sub, rt.findEqual f args = some sub ∧
      (rt.step board (.add f r who src args)).1.subscriptions = rt.subscriptions.map fun S =>
        if S.subscription_id = sub.subscription_id then (sub.addReceiver r (rt.internNode src).2).1
          else S) ∨
    (rt.findEqual f args = none ∧ ∃ S,
      (rt.step board (.add f r who src args)).1.subscriptions = rt.subscriptions ++ [S] ∧
      S.filter.toFilter = rt.storedFilter f args ∧ S.arguments = args ∧
        S.nodes = [(rt.internNode src).2]) := by
  have hstep := step_cases board rt (.add f r who src args)
  generalize rt.step board (.add f r who src args) = out at hstep
  cases hstep with
  | fetch _ _ _ _ _ hfetch => exact absurd (hf.symm.trans hfetch) (by simp)
  | join _ _ _ _ _ sub _ hsub =>
    refine Or.inl ⟨sub, hsub, ?_⟩
    rw [← internNode_subscriptions rt src]
    rfl
  | create _ _ _ _ _ _ hsub =>
    refine Or.inr ⟨hsub, ⟨rt.next_sub_id,
      ⟨(rt.storedFilter f args).required, (rt.storedFilter f args).optional⟩, args,
      [(r, [(rt.internNode src).2])]⟩, ?_, rfl, rfl, by simp [Subscription.nodes]⟩
    unfold createSubscription storedFilter
    rw [hsub]
    simp only [internNode_subscriptions, internNode_next_sub_id, internNode_constraints]

theorem length_add_le (board : Board) (rt : Router) (f : Filter) (r : Nat) (who : ActorIdentifier)
    (src : String) {args : SubscriptionArguments} (hf : args.fetch_policy = .FUTURE) :
    (rt.step board (.add f r who src args)).1.subscriptions.length ≤ rt.subscriptions.length +
      1 := by
  rcases subscriptions_add board rt f r who src hf with ⟨sub, -, hadd⟩ | ⟨-, S, hadd, -⟩
  · rw [hadd, List.length_map]
    exact Nat.le_succ _
  · rw [hadd, List.length_append, List.length_singleton]

theorem internNode_self {board : Board} {rt : Router} (h : PeersInv board rt) :
    (rt.internNode board.NODE_ID).2 = 1 ∧
      (rt.internNode board.NODE_ID).1.peer_node_ids = rt.peer_node_ids := by
  unfold internNode
  rw [h.self]
  exact ⟨rfl, rfl⟩

theorem other_congr {rt rt' : Router} (h : rt.peer_node_ids = rt'.peer_node_ids) (X : String)
    (S : Subscription) :
    Other rt X S ↔ Other rt' X S := by
  unfold Other nodeName
  rw [h]

end Router

/-! ## Equal filters -/

/-- The same constraints, but for their order. -/
def Filter.Alike (f g : Filter) : Prop :=
  Constraint.SameAll f.required g.required ∧ Constraint.SameAll f.optional g.optional

namespace Constraint

mutual

theorem same_refl : (c : Constraint) → Same c c
  | .str .. => .str ..
  | .int .. => .int ..
  | .float .. => .float ..
  | .list attr cs op opt => .list attr op opt (.refl cs) (forall₂_same_refl cs)

theorem forall₂_same_refl : (cs : List Constraint) → List.Forall₂ Same cs cs
  | [] => .nil
  | c :: cs => .cons (same_refl c) (forall₂_same_refl cs)

end

end Constraint

theorem Filter.alike_refl (f : Filter) : f.Alike f :=
  ⟨⟨_, .refl _, Constraint.forall₂_same_refl _⟩, ⟨_, .refl _, Constraint.forall₂_same_refl _⟩⟩

namespace RemoteConnection

open Router

/-- The same set of filters. -/
def SameFilters (fs gs : List Filter) : Prop :=
  (∀ f ∈ fs, ∃ g ∈ gs, f.Alike g) ∧ ∀ g ∈ gs, ∃ f ∈ fs, g.Alike f

/-! ## The two orders -/

section

variable (order : MapOrder) (board : Board) (h : Hello) (X Y : String) (local_id : Int32) (r : Nat)
  (ingress : List Processor) (p : Publication) (rt : Router)

/-- `X` completes its hello, then the message of `Y` arrives. -/
def helloThenArrival : Option State :=
  (handleRemoteHello order board h X local_id r rt).bind fun hello =>
    (handleRemoteSubscriptionsAdded order board r Y ingress p hello.1).bind fun arrival =>
      arrival.2.foldlM (State.deliver order h.NODE_ID X) hello.2

/-- The message of `Y` arrives, then `X` completes its hello. -/
def arrivalThenHello : Option State :=
  (handleRemoteSubscriptionsAdded order board r Y ingress p rt).bind fun arrival =>
    (handleRemoteHello order board h X local_id r arrival.1).map Prod.snd

end

/-! ## The subscriptions of a connection -/

/-- The test of `find_if` in `add_subscription`. -/
def isEqual (f : Filter) (args : SubscriptionArguments) (S : Subscription) : Bool :=
  S.filter.eqFilter f && S.arguments == args

/-- The subscription `sub` gets this node for the receiver. -/
def joined (sub : Subscription) (r : Nat) (S : Subscription) : Subscription :=
  if S.subscription_id = sub.subscription_id then (sub.addReceiver r 1).1 else S

/-- The first of the given subscriptions that is equal is joined. -/
def touch (f : Filter) (r : Nat) (subs : List Subscription) : Subscription → Subscription :=
  match subs.find? (isEqual f .default) with
  | some sub => joined sub r
  | none => id

/-- The subscriptions of the router: some, and behind them those of a connection. -/
def Frames (NODE_ID : String) (rt : Router) (pre mid post : List Subscription) : Prop :=
  ∃ own, rt.subscriptions = pre ++ mid ++ post ++ own ∧
    ∀ S ∈ own, nodeLocal NODE_ID S.filter.toFilter = true ∧ S.arguments = .default

section

variable {board : Board} {rt : Router} {pre mid post own : List Subscription} {f : Filter} {r : Nat}

theorem nodeLocal_stored (hinv : Inv board rt) {NODE_ID : String} (hf : Own NODE_ID f)
    {args : SubscriptionArguments} (hsub : rt.findEqual f args = none) :
    nodeLocal NODE_ID (rt.storedFilter f args) = true := by
  unfold storedFilter
  rw [hsub]
  obtain ⟨b, hb⟩ := stored_str hinv.sound rt.next_sub_id false hf.required
  exact nodeLocal_of_mem hb

theorem not_isEqual {S : Subscription} {args : SubscriptionArguments} (h : S.arguments ≠ args)
    (f : Filter) :
    isEqual f args S = false := by
  simp [isEqual, h]

theorem findEqual_default (hsubs : rt.subscriptions = pre ++ mid ++ post ++ own)
    (hmid : ∀ S ∈ mid, S.arguments ≠ .default) (f : Filter) :
    rt.findEqual f .default = ((pre ++ post).find? (isEqual f .default)).or
      (own.find? (isEqual f .default)) := by
  have hnone : mid.find? (isEqual f .default) = none := by
    rw [List.find?_eq_none]
    intro S hS
    simp [not_isEqual (hmid S hS)]
  change rt.subscriptions.find? (isEqual f .default) = _
  rw [hsubs, List.find?_append, List.find?_append, List.find?_append, hnone, Option.or_none,
    ← List.find?_append]

theorem map_replace_of_ne {id : Nat} {new : Subscription} {l : List Subscription}
    (hl : ∀ S ∈ l, S.subscription_id ≠ id) :
    (l.map fun S => if S.subscription_id = id then new else S) = l := by
  conv_rhs => rw [← List.map_id l]
  apply List.map_congr_left
  intro S hS
  rw [if_neg (hl S hS)]
  rfl

theorem map_joined_of_not_equal (hinv : Inv board rt) {sub : Subscription}
    (hsub : rt.findEqual f .default = some sub) {l : List Subscription}
    (hl : ∀ S ∈ l, S ∈ rt.subscriptions ∧ isEqual f .default S = false) :
    l.map (joined sub r) = l := by
  obtain ⟨hmem, heq, hargs⟩ := mem_of_findEqual hsub
  refine map_replace_of_ne ?_
  intro S hS hid
  have hfalse := (hl S hS).2
  rw [hinv.subs.eq_of_id (hl S hS).1 hmem hid] at hfalse
  simp [isEqual, heq, hargs] at hfalse

theorem map_joined (hinv : Inv board rt) (hsubs : rt.subscriptions = pre ++ mid ++ post ++ own)
    (hmid : ∀ S ∈ mid, S.arguments ≠ .default) {sub : Subscription}
    (hsub : rt.findEqual f .default = some sub) {l : List Subscription}
    (hl : ∀ S ∈ l, S ∈ pre ++ post) :
    l.map (joined sub r) = l.map (touch f r (pre ++ post)) := by
  have hfind := findEqual_default hsubs hmid f
  unfold touch
  cases hfirst : (pre ++ post).find? (isEqual f .default) with
  | some sub' =>
    rw [hsub, hfirst] at hfind
    rw [Option.some.inj hfind]
  | none =>
    rw [List.find?_eq_none] at hfirst
    rw [List.map_id, map_joined_of_not_equal hinv hsub]
    intro S hS
    have hmem := hl S hS
    refine ⟨?_, by simpa using hfirst S hmem⟩
    rw [hsubs]
    simp only [List.mem_append] at hmem ⊢
    tauto

theorem Frames.add (hfr : Frames board.NODE_ID rt pre mid post) (hinv : Inv board rt)
    (hmid : ∀ S ∈ mid, S.arguments ≠ .default) (hf : Own board.NODE_ID f) (r : Nat)
    (who : ActorIdentifier) :
    Frames board.NODE_ID (rt.step board (.add f r who board.NODE_ID .default)).1
      (pre.map (touch f r (pre ++ post))) mid (post.map (touch f r (pre ++ post))) := by
  obtain ⟨own, hsubs, hown⟩ := hfr
  have hpolicy : SubscriptionArguments.default.fetch_policy = .FUTURE := rfl
  rcases subscriptions_add board rt f r who board.NODE_ID hpolicy with
    ⟨sub, hsub, hadd⟩ | ⟨hsub, S, hadd, hstored, hargs, -⟩
  · rw [(internNode_self hinv.peers).1, hsubs] at hadd
    refine ⟨own.map (joined sub r), ?_, ?_⟩
    · rw [← map_joined hinv hsubs hmid hsub fun S => List.mem_append_left _,
        ← map_joined hinv hsubs hmid hsub fun S => List.mem_append_right _, hadd, List.map_append,
        List.map_append, List.map_append]
      congr 3
      refine map_joined_of_not_equal hinv hsub fun S hS => ⟨?_, not_isEqual (hmid S hS) f⟩
      rw [hsubs]
      simp [hS]
    · intro T hT
      obtain ⟨S, hS, rfl⟩ := List.mem_map.mp hT
      unfold joined
      split
      · rename_i hid
        have hmem : S ∈ rt.subscriptions := by
          rw [hsubs]
          exact List.mem_append_right _ hS
        have hsame : S = sub := hinv.subs.eq_of_id hmem (mem_of_findEqual hsub).1 hid
        exact hsame ▸ hown S hS
      · exact hown S hS
  · have hfind := findEqual_default hsubs hmid f
    rw [hsub] at hfind
    have htouch : touch f r (pre ++ post) = id := by
      unfold touch
      rw [(Option.or_eq_none_iff.mp hfind.symm).1]
    refine ⟨own ++ [S], ?_, ?_⟩
    · rw [htouch, List.map_id, List.map_id, ← List.append_assoc, ← hsubs, hadd]
    · intro T hT
      rcases List.mem_append.mp hT with hT | hT
      · exact hown T hT
      · rw [List.mem_singleton.mp hT, hstored]
        exact ⟨nodeLocal_stored hinv hf hsub, hargs⟩

/-- The calls of a connection join some of the subscriptions. -/
def touchAll (r : Nat) : List (Filter × ActorIdentifier) → List Subscription × List Subscription →
    List Subscription × List Subscription
  | [], l => l
  | e :: es, l => touchAll r es (l.1.map (touch e.1 r (l.1 ++ l.2)),
      l.2.map (touch e.1 r (l.1 ++ l.2)))

theorem Frames.calls {es : List (Filter × ActorIdentifier)} (hes : ∀ e ∈ es, Own board.NODE_ID e.1)
    (hfr : Frames board.NODE_ID rt pre mid post) (hinv : Inv board rt)
    (hmid : ∀ S ∈ mid, S.arguments ≠ .default) (r : Nat) :
    Frames board.NODE_ID (calls board rt (ownCalls board.NODE_ID r es)).1
      (touchAll r es (pre, post)).1 mid (touchAll r es (pre, post)).2 := by
  induction es generalizing rt pre post with
  | nil => exact hfr
  | cons e es ih =>
    rw [List.forall_mem_cons] at hes
    rw [ownCalls, List.map_cons, calls_cons]
    exact ih hes.2 (hfr.add hinv hmid hes.1 r e.2) (hinv.step _)

theorem ownCalls_rest (hinv : Inv board rt) (r : Nat) (es : List (Filter × ActorIdentifier)) :
    Inv board (calls board rt (ownCalls board.NODE_ID r es)).1 ∧
    (calls board rt (ownCalls board.NODE_ID r es)).1.peer_node_ids = rt.peer_node_ids ∧
    (calls board rt (ownCalls board.NODE_ID r es)).1.subscriptions.length ≤
      rt.subscriptions.length + es.length := by
  induction es generalizing rt with
  | nil => exact ⟨hinv, rfl, Nat.le_refl _⟩
  | cons e es ih =>
    have hpolicy : SubscriptionArguments.default.fetch_policy = .FUTURE := rfl
    obtain ⟨hinv', hpeers, hlen⟩ := ih (hinv.step (.add e.1 r e.2 board.NODE_ID .default))
    have hkept : SubscriptionArguments.default.fetch_policy ≠ .FETCH := by decide
    rw [peers_add board rt _ r _ _ hkept, (internNode_self hinv.peers).2] at hpeers
    rw [ownCalls, List.map_cons, calls_cons, List.length_cons]
    refine ⟨hinv', hpeers, Nat.le_trans hlen ?_⟩
    have hone := length_add_le board rt e.1 r e.2 board.NODE_ID hpolicy
    omega

theorem touch_cases (f : Filter) (r : Nat) (subs : List Subscription) (S : Subscription) :
    touch f r subs S = S ∨ (touch f r subs S).arguments = .default := by
  unfold touch
  cases hfirst : subs.find? (isEqual f .default) with
  | none => exact Or.inl rfl
  | some sub =>
    have heq := List.find?_some hfirst
    simp only [isEqual, Bool.and_eq_true, beq_iff_eq] at heq
    dsimp only
    unfold joined
    split
    · exact Or.inr heq.2
    · exact Or.inl rfl

theorem not_isEqual_touchAll {args : SubscriptionArguments} (hargs : args ≠ .default) (r : Nat)
    (es : List (Filter × ActorIdentifier)) {l : List Subscription × List Subscription}
    (hl : ∀ S ∈ l.1, isEqual f args S = false) :
    ∀ S ∈ (touchAll r es l).1, isEqual f args S = false := by
  induction es generalizing l with
  | nil => exact hl
  | cons e es ih =>
    refine ih ?_
    intro T hT
    obtain ⟨S, hS, rfl⟩ := List.mem_map.mp hT
    rcases touch_cases e.1 r (l.1 ++ l.2) S with heq | hdefault
    · rw [heq]
      exact hl S hS
    · refine not_isEqual ?_ f
      rw [hdefault]
      exact hargs.symm

theorem arrival_split (hinv : Inv board rt) (f : Filter) (r : Nat) (who : ActorIdentifier)
    (src : String) {args : SubscriptionArguments} (hpolicy : args.fetch_policy = .FUTURE) :
    ∃ pre mid post S', rt.subscriptions = pre ++ mid ++ post ∧
      (rt.step board (.add f r who src args)).1.subscriptions = pre ++ [S'] ++ post ∧
      item S' = (rt.storedFilter f args, args) ∧ (rt.internNode src).2 ∈ S'.nodes ∧
      (∀ S ∈ pre, isEqual f args S = false) ∧
      ((mid = [] ∧ post = [] ∧ rt.findEqual f args = none) ∨
        ∃ sub, mid = [sub] ∧ rt.findEqual f args = some sub ∧ item sub = item S') := by
  rcases subscriptions_add board rt f r who src hpolicy with
    ⟨sub, hsub, hadd⟩ | ⟨hsub, S, hadd, hstored, hargs, hnodes⟩
  · obtain ⟨hmem, -, hargs⟩ := mem_of_findEqual hsub
    obtain ⟨-, pre, post, hsubs, hpre⟩ := List.find?_eq_some_iff_append.mp hsub
    have hnodup := hinv.subs.ids_nodup
    rw [hsubs, List.map_append, List.map_cons, List.nodup_append, List.nodup_cons] at hnodup
    refine ⟨pre, [sub], post, (sub.addReceiver r
      (rt.internNode src).2).1, by simp [hsubs], ?_, ?_, ?_, ?_, Or.inr ⟨sub, rfl, hsub, rfl⟩⟩
    · rw [hadd, hsubs, List.map_append, List.map_cons, if_pos rfl, map_replace_of_ne,
        map_replace_of_ne]
      · simp
      · intro S hS hid
        exact hnodup.2.1.1 (hid ▸ List.mem_map_of_mem hS)
      · intro S hS hid
        exact hnodup.2.2 _ (List.mem_map_of_mem hS) _ List.mem_cons_self hid
    · unfold storedFilter
      rw [hsub, ← hargs]
      rfl
    · exact (Subscription.mem_nodes_addReceiver (hinv.subs.wf sub hmem) r _ _).mpr (Or.inr rfl)
    · intro S hS
      unfold isEqual
      simpa only [Bool.not_eq_true'] using hpre S hS
  · refine ⟨rt.subscriptions, [], [],
      S, by simp, by simp [hadd], ?_, by simp [hnodes], ?_, Or.inl ⟨rfl, rfl, hsub⟩⟩
    · unfold item
      rw [hstored, hargs]
    · intro S hS
      unfold isEqual
      simpa only [Bool.not_eq_true] using List.find?_eq_none.mp hsub S hS

/-! ## What is listed in the two orders -/

/-- The filters that a snapshot for `X` comes to before a subscription that equals the given one. -/
def before (rt : Router) (X : String) (f : Filter) (args : SubscriptionArguments) : List Filter :=
  ((rt.subscriptions.takeWhile fun S => !isEqual f args S).filter fun S => Other rt X S).map
    fun S => S.filter.toFilter

theorem dropped_of_nodeLocal {h : Hello} (hlocal : nodeLocal h.NODE_ID f = true) :
    fate h.stages f = none ∧ counted h.stages f = false := by
  simp [Hello.stages, Hello.egressProcessors, stage, fate, counted, hlocal]

theorem touchAll_nil (r : Nat) (es : List (Filter × ActorIdentifier)) (pre : List Subscription) :
    (touchAll r es (pre, [])).2 = [] := by
  induction es generalizing pre with
  | nil => rfl
  | cons e es ih => exact ih _

/-- The routers of the two orders have the same subscriptions, but for the one that arrives and
those of the connection itself. -/
structure Twins (NODE_ID X : String) (f : Filter) (args : SubscriptionArguments)
    (rt late early : Router) (pre mid post own own' : List Subscription) (S' : Subscription) :
    Prop where
  late_eq : late.subscriptions = pre ++ mid ++ post ++ own
  early_eq : early.subscriptions = pre ++ [S'] ++ post ++ own'
  own_local : ∀ S ∈ own, nodeLocal NODE_ID S.filter.toFilter = true ∧ S.arguments = .default
  own_local' : ∀ S ∈ own', nodeLocal NODE_ID S.filter.toFilter = true ∧ S.arguments = .default
  arrives : item S' = (rt.storedFilter f args, args) ∧ Other early X S'
  other : ∀ S ∈ late.subscriptions, Other early X S ↔ Other late X S
  not_equal : ∀ S ∈ pre, isEqual f args S = false
  mid_eq : (mid = [] ∧ post = [] ∧ rt.findEqual f args = none) ∨
    ∃ sub, mid = [sub] ∧ rt.findEqual f args = some sub ∧ item sub = item S' ∧
    (Other late X sub ↔ Other rt X sub)

theorem twins {h : Hello} {X Y : String} {args : SubscriptionArguments} (hinv : Inv board rt)
    (hNODE : h.NODE_ID = board.NODE_ID) (hYX : Y ≠ X) (hargs : args ≠ .default)
    (hpolicy : args.fetch_policy = .FUTURE) (local_id : Int32) (f : Filter) (r : Nat)
    (who : ActorIdentifier) :
    ∃ pre mid post own own' S', Twins board.NODE_ID X f args rt
      (routerWithOwn board h X local_id r rt)
      (routerWithOwn board h X local_id r (rt.step board (.add f r who Y args)).1) pre mid post own
        own' S' := by
  obtain ⟨pre, mid, post, S', hsubs, hsubs', hitem, hnode, hpre, hcase⟩ :=
    arrival_split hinv f r who Y hpolicy
  have hinv' := hinv.step (.add f r who Y args)
  have hargs' : S'.arguments = args := congrArg Prod.snd hitem
  have hmid : ∀ S ∈ mid, S.arguments ≠ .default := by
    intro S hS
    rcases hcase with ⟨rfl, -⟩ | ⟨sub, rfl, hsub, -⟩
    · simp at hS
    · rw [List.mem_singleton.mp hS, (mem_of_findEqual hsub).2.2]
      exact hargs
  have hmid' : ∀ S ∈ [S'], S.arguments ≠ .default := by
    intro S hS
    rw [List.mem_singleton.mp hS, hargs']
    exact hargs
  have hown := own_ownSubscriptions board.NODE_ID X local_id
  have hfr : Frames board.NODE_ID rt pre mid post := ⟨[], by simp [hsubs], by simp⟩
  have hfr' : Frames board.NODE_ID (rt.step board (.add f r who Y args)).1 pre [S'] post :=
    ⟨[], by simp [hsubs'], by simp⟩
  obtain ⟨own, hlate, hlocal⟩ := hfr.calls hown hinv hmid r
  obtain ⟨own', hearly, hlocal'⟩ := hfr'.calls hown hinv' hmid' r
  obtain ⟨hinvl, hpeersl, -⟩ := ownCalls_rest hinv r (ownSubscriptions board.NODE_ID X local_id)
  obtain ⟨-, hpeerse, -⟩ := ownCalls_rest hinv' r (ownSubscriptions board.NODE_ID X local_id)
  rw [peers_add board rt f r who Y (by simp [hpolicy])] at hpeerse
  have hnot : ∀ S ∈ (touchAll r (ownSubscriptions board.NODE_ID X local_id) (pre, post)).1,
      isEqual f args S = false :=
    not_isEqual_touchAll hargs r _ hpre
  have hnil := touchAll_nil r (ownSubscriptions board.NODE_ID X local_id) pre
  unfold routerWithOwn
  rw [hNODE]
  generalize (calls board rt (ownCalls board.NODE_ID r
    (ownSubscriptions board.NODE_ID X local_id))).1 = late at hlate hinvl hpeersl ⊢
  generalize (calls board (rt.step board (.add f r who Y args)).1
    (ownCalls board.NODE_ID r (ownSubscriptions board.NODE_ID X local_id))).1 =
      early at hearly hpeerse ⊢
  refine ⟨_, mid, _, own, own', S', hlate, hearly, hlocal, hlocal', ⟨hitem, ?_⟩, ?_, hnot, ?_⟩
  · refine ⟨_, hnode, ?_⟩
    have hname := hinv.peers.nodeName_self Y
    unfold nodeName at hname ⊢
    rw [hpeerse, hname]
    exact hYX
  · intro S hS
    have hknown : ∀ n ∈ S.nodes, n ∈ rt.peer_node_ids.map Prod.snd := by
      rw [← hpeersl]
      exact hinvl.peers.known S hS
    have hnames : ∀ n ∈ S.nodes, early.nodeName n = late.nodeName n := by
      intro n hn
      have hname := hinv.peers.nodeName_internNode Y (hknown n hn)
      unfold nodeName at hname ⊢
      rw [hpeerse, hpeersl, hname]
    unfold Other
    constructor
    · rintro ⟨n, hn, hX⟩
      exact ⟨n, hn, by rwa [← hnames n hn]⟩
    · rintro ⟨n, hn, hX⟩
      exact ⟨n, hn, by rwa [hnames n hn]⟩
  · rcases hcase with ⟨rfl, rfl, hsub⟩ | ⟨sub, rfl, hsub, hsame⟩
    · exact Or.inl ⟨rfl, hnil, hsub⟩
    · exact Or.inr ⟨sub, rfl, hsub, hsame, other_congr hpeersl X sub⟩

end

section

variable {h : Hello} {X : String} {f : Filter} {args : SubscriptionArguments}
  {rt late early : Router} {pre mid post own own' : List Subscription} {S' : Subscription}

/-- Some of the subscriptions, as a snapshot for `X` takes them. -/
def taken (rt : Router) (X : String) (subs : List Subscription) :
    List (Filter × SubscriptionArguments) :=
  (subs.filter fun S => Other rt X S).map item

theorem taken_append (rt : Router) (X : String) (subs subs' : List Subscription) :
    taken rt X (subs ++ subs') = taken rt X subs ++ taken rt X subs' := by
  simp [taken]

theorem taken_congr {subs : List Subscription} (h : ∀ S ∈ subs, Other early X S ↔ Other late X S) :
    taken early X subs = taken late X subs := by
  unfold taken
  congr 1
  apply List.filter_congr
  intro S hS
  rw [decide_eq_decide]
  exact h S hS

theorem Twins.listed_late (ht : Twins h.NODE_ID X f args rt late early pre mid post own own' S') :
    listed late X = taken late X pre ++ taken late X mid ++ taken late X post ++
      taken late X own := by
  rw [← taken_append, ← taken_append, ← taken_append, ← ht.late_eq]
  rfl

theorem Twins.listed_early (ht : Twins h.NODE_ID X f args rt late early pre mid post own own' S') :
    listed early X = taken late X pre ++ (rt.storedFilter f args, args) :: taken late X post ++
      taken early X own' := by
  have hpre : taken early X pre = taken late X pre := taken_congr fun S hS =>
    ht.other S (by simp [ht.late_eq, hS])
  have hpost : taken early X post = taken late X post := taken_congr fun S hS =>
    ht.other S (by simp [ht.late_eq, hS])
  have hself : taken early X [S'] = [(rt.storedFilter f args, args)] := by
    simp [taken, ht.arrives.1, ht.arrives.2]
  change taken early X early.subscriptions = _
  rw [ht.early_eq, taken_append, taken_append, taken_append, hpre, hpost, hself]
  simp

theorem taken_local (rt : Router) (X : String) {subs : List Subscription}
    (hlocal : ∀ S ∈ subs, nodeLocal h.NODE_ID S.filter.toFilter = true ∧ S.arguments = .default) :
    ∀ e ∈ taken rt X subs, nodeLocal h.NODE_ID e.1 = true := by
  intro e he
  obtain ⟨S, hS, rfl⟩ := List.mem_map.mp he
  exact (hlocal S (List.mem_filter.mp hS).1).1

theorem yields_own {xs zs : List (Filter × SubscriptionArguments)}
    (hzs : ∀ e ∈ zs, nodeLocal h.NODE_ID e.1 = true) {F : List Filter} {g : Filter} :
    Yields h.stages F (xs ++ zs) g ↔ Yields h.stages F xs g :=
  yields_append_dropped fun z hz => dropped_of_nodeLocal (hzs z hz)

theorem Twins.before_iff (ht : Twins h.NODE_ID X f args rt late early pre mid post own own' S')
    (hargs : args ≠ .default) {e : Filter} (he : counted h.stages e = true) :
    e ∈ before late X f args ↔ e ∈ (taken late X pre).map Prod.fst := by
  have hpre : ∀ S ∈ pre, (!isEqual f args S) = true := fun S hS => by rw [ht.not_equal S hS]; rfl
  have hmap : ∀ subs : List Subscription, ((subs.filter fun S => Other late X S).map fun S =>
      S.filter.toFilter) =
      (taken late X subs).map Prod.fst := by
    intro subs
    unfold taken
    rw [List.map_map]
    rfl
  unfold before
  rcases ht.mid_eq with ⟨rfl, rfl, -⟩ | ⟨sub, rfl, hsub, -⟩
  · have hown : ∀ S ∈ own, (!isEqual f args S) = true := by
      intro S hS
      rw [not_isEqual _ f]
      · rfl
      · rw [(ht.own_local S hS).2]
        exact hargs.symm
    rw [ht.late_eq, List.append_nil, List.append_nil, List.takeWhile_append_of_pos hpre,
      List.takeWhile_eq_self_iff.mpr hown, hmap, taken_append, List.map_append, List.mem_append,
      or_iff_left]
    intro hmem
    obtain ⟨e', he', rfl⟩ := List.mem_map.mp hmem
    rw [(dropped_of_nodeLocal (taken_local late X ht.own_local e' he')).2] at he
    simp at he
  · have hequal : isEqual f args sub = true := by
      obtain ⟨-, heq, hsame⟩ := mem_of_findEqual hsub
      simp [isEqual, heq, hsame]
    rw [ht.late_eq, List.append_assoc, List.append_assoc, List.takeWhile_append_of_pos hpre,
      List.singleton_append, List.takeWhile_cons_of_neg (by simp [hequal]), List.append_nil, hmap]

theorem Twins.taken_mid (ht : Twins h.NODE_ID X f args rt late early pre mid post own own' S') :
    ((∃ sub ∈ rt.findEqual f args, Other rt X sub) →
      taken late X mid = [(rt.storedFilter f args, args)]) ∧
    ((¬ ∃ sub ∈ rt.findEqual f args, Other rt X sub) → taken late X mid = []) := by
  rcases ht.mid_eq with ⟨rfl, -, hsub⟩ | ⟨sub, rfl, hsub, hsame, hother⟩
  · simp [hsub, taken]
  · have hiff : (∃ sub' ∈ rt.findEqual f args, Other rt X sub') ↔ Other late X sub := by
      simp [hsub, hother]
    rw [hiff]
    constructor
    · intro hlate
      simp [taken, hlate, hsame, ht.arrives.1]
    · intro hlate
      simp [taken, hlate]

/-- What the late snapshot misses: nothing if the subscription was listed before, else what comes
out for it. -/
theorem Twins.compare (ht : Twins h.NODE_ID X f args rt late early pre mid post own own' S')
    (hargs : args ≠ .default) (hscope : refused h.stages args = false) :
    ((∃ sub ∈ rt.findEqual f args, Other rt X sub) →
      (∀ g, Yields h.stages [] (listed early X) g ↔ Yields h.stages [] (listed late X) g) ∧
      ((∀ e ∈ listed early X, readable h.NODE_ID e.1 = true) ↔ ∀ e ∈ listed late X,
        readable h.NODE_ID e.1 = true)) ∧
    ((¬ ∃ sub ∈ rt.findEqual f args, Other rt X sub) →
      (∀ g, Yields h.stages [] (listed early X) g ↔ Yields h.stages [] (listed late X) g ∨
        Emerges h.stages (before late X f args) (rt.storedFilter f args, args) g) ∧
      ((∀ e ∈ listed early X, readable h.NODE_ID e.1 = true) ↔
        (∀ e ∈ listed late X, readable h.NODE_ID e.1 = true) ∧
          readable h.NODE_ID (rt.storedFilter f args) = true)) := by
  have hlocal : ∀ zs : List (Filter × SubscriptionArguments),
      (∀ e ∈ zs, nodeLocal h.NODE_ID e.1 = true) →
      ∀ e ∈ zs, readable h.NODE_ID e.1 = true := by
    intro zs hzs e he
    simp [readable, hzs e he]
  have hown := taken_local late X ht.own_local
  have hown' := taken_local early X ht.own_local'
  have hemerges : ∀ g, Emerges h.stages (before late X f args) (rt.storedFilter f args, args) g ↔
      Emerges h.stages ((taken late X pre).map Prod.fst ++ []) (rt.storedFilter f args, args)
        g := by
    intro g
    rw [List.append_nil]
    exact emerges_congr fun e he => ht.before_iff hargs he
  rw [ht.listed_late, ht.listed_early]
  simp only [yields_own hown, yields_own hown', hemerges, List.forall_mem_append,
    List.forall_mem_cons, iff_true_intro (hlocal _ hown), iff_true_intro (hlocal _ hown'), and_true]
  obtain ⟨hlisted, hnew⟩ := ht.taken_mid
  refine ⟨fun halready => ?_, fun halready => ?_⟩
  · rw [hlisted halready]
    simp only [List.append_assoc, List.singleton_append, List.forall_mem_singleton, and_assoc,
      implies_true, true_and]
  · rw [hnew halready]
    refine ⟨fun g => ?_, ?_⟩
    · rw [List.append_nil]
      exact yields_insert hscope
    · simp only [List.not_mem_nil, false_imp_iff, implies_true, and_true]
      tauto

end

/-! ## Independence of the order -/

section

variable {order : MapOrder} {board : Board} {h : Hello} {X Y : String} {local_id : Int32} {r : Nat}
  {ingress ingress' : List Processor} {p : Publication} {f : Filter} {who : ActorIdentifier}
  {args : SubscriptionArguments}

theorem arrival_eq (hmessage : remoteSubscriptions order ingress p =
    some (ingress', [(f, who, args)])) (rt : Router) :
    handleRemoteSubscriptionsAdded order board r Y ingress p rt =
      some ((rt.step board (.add f r who Y args)).1,
        (rt.step board (.add f r who Y args)).2.2) := by
  unfold handleRemoteSubscriptionsAdded
  rw [hmessage]
  rfl

theorem helloThenArrival_eq (hNODE : h.NODE_ID = board.NODE_ID)
    (hmessage : remoteSubscriptions order ingress p = some (ingress', [(f, who, args)]))
    (hwho : who.node_id ≠ board.NODE_ID) (hpolicy : args.fetch_policy = .FUTURE) (rt : Router) :
    helloThenArrival order board h X Y local_id r ingress p rt =
      (handleRemoteHello order board h X local_id r rt).map Prod.snd := by
  unfold helloThenArrival
  cases handleRemoteHello order board h X local_id r rt with
  | none => rfl
  | some hello =>
    rw [Option.bind_some, arrival_eq hmessage, Option.bind_some, Option.map_some, hNODE]
    dsimp only
    refine foldlM_deliver fun u hu => ?_
    rcases updates_add (f := f) hpolicy with hus | ⟨exclude, include_, hus⟩
    · rw [hus] at hu
      simp at hu
    · rw [hus] at hu
      rw [List.mem_singleton.mp hu]
      unfold State.deliver
      rw [update_added_passed fun hsel => hwho hsel.1]
      rfl

theorem arrivalThenHello_eq (hmessage : remoteSubscriptions order ingress p =
    some (ingress', [(f, who, args)])) (rt : Router) :
    arrivalThenHello order board h X Y local_id r ingress p rt =
      (handleRemoteHello order board h X local_id r (rt.step board (.add f r who Y args)).1).map
        Prod.snd := by
  unfold arrivalThenHello
  rw [arrival_eq hmessage, Option.bind_some]

theorem hello_sent {rt : Router} (hinv : Inv board rt) (hNODE : h.NODE_ID = board.NODE_ID)
    (hclusters : h.clusters = []) (hsize : rt.subscriptions.length + 4 < 2 ^ 32) (order : MapOrder)
    (X : String) (local_id : Int32) (r : Nat) :
    ((∃ a, (handleRemoteHello order board h X local_id r rt).map Prod.snd = some a) ↔
      ∀ e ∈ listed (routerWithOwn board h X local_id r rt) X, readable h.NODE_ID e.1 = true) ∧
    ∀ a, (handleRemoteHello order board h X local_id r rt).map Prod.snd = some a →
    ∀ k, k ∈ a.announced order ↔
      ∃ g, Yields h.stages [] (listed (routerWithOwn board h X local_id r rt) X) g ∧
      received order g = some k := by
  obtain ⟨hinv', -, hlen⟩ := ownCalls_rest hinv r (ownSubscriptions board.NODE_ID X local_id)
  rw [← hNODE] at hinv' hlen
  have hown : (ownSubscriptions h.NODE_ID X local_id).length = 4 := rfl
  have hlen' : (routerWithOwn board h X local_id r rt).subscriptions.length < 2 ^ 32 := by
    unfold routerWithOwn
    omega
  obtain ⟨hgood, hbad⟩ := handleRemoteHello_spec order hNODE hclusters hinv' hlen'
  by_cases hread : ∀ e ∈ listed (routerWithOwn board h X local_id r rt) X, readable h.NODE_ID e.1 =
    true
  · obtain ⟨st, hst, hannounced⟩ := hgood hread
    rw [hst]
    refine ⟨iff_of_true ⟨st, rfl⟩ hread, ?_⟩
    rintro a ha
    rw [← Option.some.inj ha]
    exact hannounced
  · have hnone := hbad (by simpa using hread)
    rw [hnone]
    refine ⟨iff_of_false (by simp) hread, ?_⟩
    rintro a ⟨⟩

/-- No processor throws at the filter that the router keeps for the subscription, and what comes out
for it is one of the filters that a snapshot sends without it. -/
def NothingNew (order : MapOrder) (h : Hello) (X : String) (rt late : Router) (f : Filter)
    (args : SubscriptionArguments) : Prop :=
  readable h.NODE_ID (rt.storedFilter f args) = true ∧
    ∀ g k, Emerges h.stages (before late X f args) (rt.storedFilter f args, args) g →
    received order g = some k →
      ∃ g' k', Yields h.stages [] (listed late X) g' ∧ received order g' = some k' ∧ k.Alike k'

/-- The order of the connections makes no difference exactly if the subscription is no news for
`X`. -/
theorem propagation_independent_iff (order : MapOrder) (board : Board) (h : Hello) (X Y : String)
    (local_id : Int32) (r : Nat) (ingress ingress' : List Processor) (p : Publication) (f : Filter)
    (who : ActorIdentifier) (args : SubscriptionArguments) (rt : Router) (hrt : Reachable board rt)
    (hNODE : h.NODE_ID = board.NODE_ID) (hclusters : h.clusters = []) (hYX : Y ≠ X)
    (hmessage : remoteSubscriptions order ingress p = some (ingress', [(f, who, args)]))
    (hwho : who.node_id ≠ board.NODE_ID) (hscope : args.scope = .GLOBAL)
    (hpolicy : args.fetch_policy = .FUTURE) (hsize : rt.subscriptions.length + 5 < 2 ^ 32) :
    (∃ a b, helloThenArrival order board h X Y local_id r ingress p rt = some a ∧
      arrivalThenHello order board h X Y local_id r ingress p rt = some b ∧
      SameFilters (a.announced order) (b.announced order)) ↔
    (∀ e ∈ listed (routerWithOwn board h X local_id r rt) X, readable h.NODE_ID e.1 = true) ∧
      ((∃ sub ∈ rt.findEqual f args, Other rt X sub) ∨
        NothingNew order h X rt (routerWithOwn board h X local_id r rt) f args) := by
  have hinv := hrt.inv
  have hargs : args ≠ .default := by
    rintro rfl
    simp [SubscriptionArguments.default] at hscope
  have hrefused : refused h.stages args = false := by
    simp [Hello.stages, Hello.egressProcessors, hclusters, refused, stage, hscope]
  obtain ⟨pre, mid, post, own, own', S', ht⟩ := twins hinv hNODE hYX hargs hpolicy local_id f r who
  rw [← hNODE] at ht
  obtain ⟨hlisted, hnew⟩ := ht.compare hargs hrefused
  have hsize' : (rt.step board (.add f r who Y args)).1.subscriptions.length + 4 < 2 ^ 32 := by
    have := length_add_le board rt f r who Y hpolicy
    omega
  obtain ⟨hsent, hannounced⟩ := hello_sent hinv hNODE hclusters (by omega) order X local_id r
  obtain ⟨hsent', hannounced'⟩ := hello_sent (hinv.step _) hNODE hclusters hsize' order X local_id r
  rw [helloThenArrival_eq hNODE hmessage hwho hpolicy, arrivalThenHello_eq hmessage]
  generalize (handleRemoteHello order board h X local_id r rt).map Prod.snd =
    first at hsent hannounced ⊢
  generalize (handleRemoteHello order board h X local_id r
    (rt.step board (.add f r who Y args)).1).map Prod.snd =
    second at hsent' hannounced' ⊢
  generalize routerWithOwn board h X local_id r rt = late at *
  generalize routerWithOwn board h X local_id r (rt.step board (.add f r who Y args)).1 = early at *
  constructor
  · rintro ⟨a, b, ha, hb, -, hsame⟩
    have hread := hsent.mp ⟨a, ha⟩
    refine ⟨hread, ?_⟩
    by_cases halready : ∃ sub ∈ rt.findEqual f args, Other rt X sub
    · exact Or.inl halready
    · obtain ⟨hyields, hreads⟩ := hnew halready
      refine Or.inr ⟨(hreads.mp (hsent'.mp ⟨b, hb⟩)).2, ?_⟩
      intro g k hg hk
      obtain ⟨k', hk', halike⟩ :=
        hsame k ((hannounced' b hb k).mpr ⟨g, (hyields g).mpr (Or.inr hg), hk⟩)
      obtain ⟨g', hg', hk'⟩ := (hannounced a ha k').mp hk'
      exact ⟨g', k', hg', hk', halike⟩
  · rintro ⟨hread, hcase⟩
    obtain ⟨a, ha⟩ := hsent.mpr hread
    by_cases halready : ∃ sub ∈ rt.findEqual f args, Other rt X sub
    · obtain ⟨hyields, hreads⟩ := hlisted halready
      obtain ⟨b, hb⟩ := hsent'.mpr (hreads.mpr hread)
      have hequal : ∀ k, k ∈ b.announced order ↔ k ∈ a.announced order := by
        intro k
        simp only [hannounced a ha, hannounced' b hb, hyields]
      exact ⟨a, b, ha, hb, fun k hk => ⟨k, (hequal k).mpr hk, k.alike_refl⟩,
        fun k hk => ⟨k, (hequal k).mp hk, k.alike_refl⟩⟩
    · obtain ⟨hyields, hreads⟩ := hnew halready
      obtain ⟨hself, hnothing⟩ := hcase.resolve_left halready
      obtain ⟨b, hb⟩ := hsent'.mpr (hreads.mpr ⟨hread, hself⟩)
      refine ⟨a, b, ha, hb, fun k hk => ?_, fun k hk => ?_⟩
      · obtain ⟨g, hg, hk⟩ := (hannounced a ha k).mp hk
        exact ⟨k, (hannounced' b hb k).mpr ⟨g, (hyields g).mpr (Or.inl hg), hk⟩, k.alike_refl⟩
      · obtain ⟨g, hg, hk⟩ := (hannounced' b hb k).mp hk
        rcases (hyields g).mp hg with hg | hg
        · exact ⟨k, (hannounced a ha k).mpr ⟨g, hg, hk⟩, k.alike_refl⟩
        · obtain ⟨g', k', hg', hk', halike⟩ := hnothing g k hg hk
          exact ⟨k', (hannounced a ha k').mpr ⟨g', hg', hk'⟩, halike⟩

/-- A node whose own actor subscribes to the same. -/
theorem propagation_independent_iff_stored :
    ∃ a b, helloThenArrival ⟨List.reverse, fun m => List.reverse_perm m⟩ ⟨"node", 3⟩
      ⟨"node", [], [], [], "", ""⟩
        "x" "y" 1 7 []
        (subscriptionsAdded "y" 1 ⟨[.int "x" 1 .EQ false], []⟩ ⟨"y", "t", "1"⟩
          ⟨.GLOBAL, 0, .FUTURE⟩)
        (run ⟨"node", 3⟩ [.add ⟨[.int "x" 1 .EQ false], []⟩ 1 ⟨"node", "t", "1"⟩ "node"
          ⟨.GLOBAL, 0, .FUTURE⟩]) =
          some a ∧
      arrivalThenHello ⟨List.reverse, fun m => List.reverse_perm m⟩ ⟨"node", 3⟩
        ⟨"node", [], [], [], "", ""⟩ "x" "y" 1 7 []
        (subscriptionsAdded "y" 1 ⟨[.int "x" 1 .EQ false], []⟩ ⟨"y", "t", "1"⟩
          ⟨.GLOBAL, 0, .FUTURE⟩)
        (run ⟨"node", 3⟩ [.add ⟨[.int "x" 1 .EQ false], []⟩ 1 ⟨"node", "t", "1"⟩ "node"
          ⟨.GLOBAL, 0, .FUTURE⟩]) =
          some b ∧
      SameFilters (a.announced ⟨List.reverse, fun m => List.reverse_perm m⟩)
        (b.announced ⟨List.reverse, fun m => List.reverse_perm m⟩) :=
  (propagation_independent_iff ⟨List.reverse, fun m => List.reverse_perm m⟩ ⟨"node", 3⟩
    ⟨"node", [], [], [], "", ""⟩ "x" "y" 1 7 [] []
    (subscriptionsAdded "y" 1 ⟨[.int "x" 1 .EQ false], []⟩ ⟨"y", "t", "1"⟩ ⟨.GLOBAL, 0, .FUTURE⟩)
    ⟨[.int "x" 1 .EQ false], []⟩ ⟨"y", "t", "1"⟩ ⟨.GLOBAL, 0, .FUTURE⟩
    (run ⟨"node", 3⟩ [.add ⟨[.int "x" 1 .EQ false], []⟩ 1 ⟨"node", "t", "1"⟩ "node"
      ⟨.GLOBAL, 0, .FUTURE⟩])
    (.step .init _) rfl rfl (by decide) (by decide) (by decide) rfl rfl (by decide)).mpr
    ⟨by decide, Or.inl (by decide)⟩

/-- On a new node the peer is told of the subscription only if it connects later. -/
theorem late_subscription_not_announced :
    (helloThenArrival ⟨List.reverse, fun m => List.reverse_perm m⟩ ⟨"node", 3⟩
      ⟨"node", [], [], [], "", ""⟩ "x" "y" 1 7 []
      (subscriptionsAdded "y" 1 ⟨[.int "x" 1 .EQ false], []⟩ ⟨"y", "t", "1"⟩ ⟨.GLOBAL, 0, .FUTURE⟩)
      (init ⟨"node", 3⟩)).map (State.announced ⟨List.reverse, fun m => List.reverse_perm m⟩) =
        some [] ∧
    (arrivalThenHello ⟨List.reverse, fun m => List.reverse_perm m⟩ ⟨"node", 3⟩
      ⟨"node", [], [], [], "", ""⟩ "x" "y" 1 7 []
      (subscriptionsAdded "y" 1 ⟨[.int "x" 1 .EQ false], []⟩ ⟨"y", "t", "1"⟩ ⟨.GLOBAL, 0, .FUTURE⟩)
      (init ⟨"node", 3⟩)).map (State.announced ⟨List.reverse, fun m => List.reverse_perm m⟩) =
        some [⟨[.int "x" 1 .EQ false], []⟩] ∧
    ¬ SameFilters [] [⟨[.int "x" 1 .EQ false], []⟩] := by
  refine ⟨by decide, by decide, ?_⟩
  simp [SameFilters]

end

end RemoteConnection

end UActor
