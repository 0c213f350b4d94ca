import UActor.Remote.Counters

/-!
# Connections

A node with a connection to `X`: `handle_remote_hello` with its snapshot,
`handle_remote_subscriptions_added` for the subscriptions of another peer, and the messages that go
to `X`.
-/

namespace UActor

open Pipeline Processor

/-- No processor throws at the filter: it is dropped at first, or its constraints on `node_id` have
strings. -/
def Processor.readable (NODE_ID : String) (f : Filter) : Bool :=
  nodeLocal NODE_ID f || (hasEqualityConstraint "node_id" (· == NODE_ID) f.required).isSome

namespace RemoteConnection

open Router

/-! ## Subscriptions in a message -/

/-- One entry of a list of subscriptions, if it can be read. -/
def readEntry (order : MapOrder) (current_sub_map : Map) :
    Option (Filter × ActorIdentifier × SubscriptionArguments) :=
  match current_sub_map.getNestedComponent "subscription",
    current_sub_map.getNestedComponent "subscription_arguments", current_sub_map.getNestedComponent
      "subscriber" with
  | some subscription_raw, some arguments_raw, some subscriber_raw =>
    (Filter.fromPublicationMap order subscription_raw).bind fun f =>
      (ActorIdentifier.fromPublicationMap subscriber_raw).map fun subscriber =>
        (f, subscriber, SubscriptionArguments.fromMap arguments_raw)
  | _, _, _ => none

/-- The loop of `handle_remote_subscriptions_added`, which finds the entries by their numbers. -/
def readSubscriptions (order : MapOrder) (subscription_list : Map) :
    List (Filter × ActorIdentifier × SubscriptionArguments) :=
  (List.range subscription_list.length).filterMap fun i =>
    (subscription_list.getNestedComponent (toString i)).bind (readEntry order)

/-- The loop over `ingress_subscription_processors`, which goes on behind a processor that drops. -/
def processIngress : List Processor → Filter → SubscriptionArguments →
    Option (List Processor × Filter × Bool)
  | [], f, _ => some ([], f, false)
  | p :: ps, f, arguments =>
    (processAdded p f arguments).bind fun r =>
      (processIngress ps r.2.1 arguments).map fun rest =>
        (r.1 :: rest.1, rest.2.1, r.2.2 || rest.2.2)

/-- The subscriptions of a message that are to be added. -/
def remoteSubscriptions (order : MapOrder) (ingress : List Processor) (p : Publication) :
    Option (List Processor × List (Filter × ActorIdentifier × SubscriptionArguments)) :=
  match p.attributes.getNestedComponent "subscriptions" with
  | none => some (ingress, [])
  | some subscription_list =>
    (readSubscriptions order subscription_list).foldlM (fun st e =>
      (processIngress st.1 e.1 e.2.2).map fun r =>
        (r.1, if r.2.2 then st.2 else st.2 ++ [(r.2.1, e.2)]))
      (ingress, [])

/-- The message for one subscription, as `handle_local_subscription_added` of a peer builds it. -/
def subscriptionsAdded (NODE_ID : String) (local_id : Int32) (f : Filter) (who : ActorIdentifier)
    (args : SubscriptionArguments) : Publication :=
  (((Publication.ofPublisher NODE_ID "remote_connection" (toString local_id)).setAttr
    "type" (.str "subscriptions_added")).setAttr
    "remote_id" (.int local_id)).setAttr
    "subscriptions" (.map [("0", .map [("subscription", .map f.toPublicationMap),
      ("subscription_arguments", .map args.toMap), ("subscriber", .map who.toPublicationMap)])])

/-! ## Calls -/

/-- The router after some calls, and the updates that they published. -/
def calls (board : Board) (rt : Router) (ops : List Op) : Router × List Publication :=
  ops.foldl (fun st op => ((st.1.step board op).1, st.2 ++ (st.1.step board op).2.2)) (rt, [])

/-- `handle_remote_subscriptions_added`, on the connection to `partner_node_id`. -/
def handleRemoteSubscriptionsAdded (order : MapOrder) (board : Board) (r : Nat)
    (partner_node_id : String) (ingress : List Processor) (p : Publication) (rt : Router) :
    Option (Router × List Publication) :=
  (remoteSubscriptions order ingress p).map fun out =>
    calls board rt (out.2.map fun e => .add e.1 r e.2.1 partner_node_id e.2.2)

/-- The filters behind `remote_subs_added_id` and `remote_subs_removed_id`. -/
def subscriptionsFilter (NODE_ID type : String) (local_id : Int32) : Filter :=
  .ofConstraints [.str "type" type .EQ false, .int "remote_id" local_id .EQ false,
    .str "publisher_node_id" NODE_ID .EQ false]

/-- What `handle_remote_hello` subscribes to, all with the default arguments. -/
def ownSubscriptions (NODE_ID partner_node_id : String) (local_id : Int32) :
    List (Filter × ActorIdentifier) :=
  [(updateFilter NODE_ID partner_node_id "local_subscription_added",
    ⟨NODE_ID, "tcp_forwarder", "1"⟩),
    (updateFilter NODE_ID partner_node_id "local_subscription_removed",
      ⟨NODE_ID, "tcp_forwarder", "1"⟩), (subscriptionsFilter NODE_ID "subscriptions_added" local_id,
      ⟨NODE_ID, "remote_connection", "1"⟩),
    (subscriptionsFilter NODE_ID "subscriptions_removed" local_id,
      ⟨NODE_ID, "remote_connection", "1"⟩)]

def ownCalls (NODE_ID : String) (r : Nat) (own : List (Filter × ActorIdentifier)) : List Op :=
  own.map fun e => .add e.1 r e.2 NODE_ID .default

/-! ## The connection to a peer -/

/-- The processors of a connection, and the lists of the messages `subscriptions_added` and
`subscriptions_removed` that it sent. -/
structure State where
  processors : List Processor
  added : List Map
  removed : List Map

/-- A message has a list of one entry. -/
def State.deliver (order : MapOrder) (NODE_ID partner_node_id : String) (st : State)
    (p : Publication) :
    Option State :=
  (update order NODE_ID partner_node_id st.processors p).map fun r =>
    match r.2 with
    | none => { st with processors := r.1 }
    | some (f, arguments) =>
      let sub : Map := [("subscription", .map f.toPublicationMap),
        ("subscription_arguments", .map arguments.toMap)]
      if (updateFilter NODE_ID partner_node_id "local_subscription_added").matches p then
        let subscriber := (p.attributes.getNestedComponent "subscriber").getD []
        { st with processors := r.1, added :=
          st.added ++ [[("0", .map (sub ++ [("subscriber", .map subscriber)]))]] }
      else { st with processors := r.1, removed := st.removed ++ [[("0", .map sub)]] }

/-- The chain of the snapshot. There is no state after an exception. -/
def egressChain : Option (List Processor) → Filter → SubscriptionArguments →
    Option (List Processor) × Filter × Bool
  | none, f, _ => (none, f, true)
  | some ps, f, arguments =>
    match through processAdded ps f arguments with
    | some (ps', some g) => (some ps', g, false)
    | some (ps', none) => (some ps', f, true)
    | none => (none, f, true)

/-- `handle_remote_hello` for the partner `X`, up to the last of its own updates. -/
def handleRemoteHello (order : MapOrder) (board : Board) (h : Hello) (X : String) (local_id : Int32)
    (r : Nat) (rt : Router) : Option (Router × State) :=
  let own := calls board rt (ownCalls h.NODE_ID r (ownSubscriptions h.NODE_ID X local_id))
  let lists := own.1.subscriptionListsFor board X egressChain (some h.egressProcessors) 5
  lists.2.1.bind fun ps =>
    (own.2.foldlM (State.deliver order h.NODE_ID X) ⟨ps, lists.2.2, []⟩).map fun st => (lists.1, st)

/-- The filters that `X` reads in the messages of the connection. -/
def State.announced (order : MapOrder) (st : State) : List Filter :=
  (st.added.flatMap (readSubscriptions order)).map Prod.fst

/-! ## Reading a snapshot -/

def readVariant (order : MapOrder) :
    Variant → Option (Filter × ActorIdentifier × SubscriptionArguments)
  | .map m => readEntry order m
  | _ => none

theorem readSubscriptions_numbered {m : Map} (h : Numbered m) (order : MapOrder) :
    readSubscriptions order m = (m.map Prod.snd).filterMap (readVariant order) := by
  have heq : m = Assoc.numbered 0 (m.map Prod.snd) := by
    refine Assoc.eq_numbered ?_
    rw [← List.range_eq_range']
    exact h
  generalize m.map Prod.snd = vs at heq
  subst heq
  rw [← Assoc.filterMap_numbered]
  unfold readSubscriptions
  rw [Assoc.length_numbered]
  apply List.filterMap_congr
  intro i _
  unfold Map.getNestedComponent
  cases Assoc.find (toString i) (Assoc.numbered 0 vs) with
  | none => rfl
  | some v => cases v <;> rfl

theorem readVariant_replay (order : MapOrder) (board : Board) (g : Filter)
    (args : SubscriptionArguments) :
    (readVariant order (.map (replay board g args))).map Prod.fst = received order g := by
  have hentry : readVariant order (.map (replay board g args)) = (received order g).bind fun f =>
      some (f, ⟨board.NODE_ID, "replay", "1"⟩, SubscriptionArguments.fromMap args.toMap) := rfl
  rw [hentry]
  cases received order g <;> rfl

theorem announced_of_numbered {st : State} (h : ∀ m ∈ st.added, Numbered m) (order : MapOrder) :
    st.announced order = (entries st.added).filterMap fun v =>
      (readVariant order v).map Prod.fst := by
  unfold State.announced entries
  generalize st.added = lists at h
  induction lists with
  | nil => rfl
  | cons m lists ih =>
    rw [List.forall_mem_cons] at h
    rw [List.flatMap_cons, List.flatMap_cons, List.map_append, List.filterMap_append, ih h.2,
      readSubscriptions_numbered h.1, List.map_filterMap]

/-! ## The chain of a snapshot -/

variable {board : Board} {rt : Router} {h : Hello} {order : MapOrder} {X : String}
  {ps : List Processor}

theorem chain_eq (hclusters : h.clusters = []) (hreset : ps.map reset = h.egressProcessors) :
    ∃ n, ps = [.nodeLocalFilterDrop h.NODE_ID, .nodeIdAggregator h.NODE_ID n, .scopeLocal,
      .scopeCluster (h.cluster != h.peer_cluster), .optionalConstraintDrop
        [.str "node_id" h.NODE_ID .EQ true]] := by
  unfold Hello.egressProcessors at hreset
  rw [hclusters] at hreset
  simp only [List.flatMap_nil, List.append_nil, List.cons_append, List.nil_append,
    List.map_eq_cons_iff, List.map_eq_nil_iff] at hreset
  obtain ⟨a, _, rfl, ha, b, _, rfl, hb, c, _, rfl, hc, d, _, rfl, hd, e, _, rfl, he, rfl⟩ := hreset
  have hd' : d = .scopeCluster (h.cluster != h.peer_cluster) := by
    cases d <;> simp [reset] at hd ⊢; exact hd
  cases b with
  | nodeIdAggregator l n =>
    obtain rfl : l = h.NODE_ID := by simpa [reset] using hb
    refine ⟨n, ?_⟩
    cases a <;> simp [reset] at ha
    cases c <;> simp [reset] at hc
    cases e <;> simp [reset] at he
    rw [ha, hd', he]
  | _ => simp [reset] at hb

theorem through_cons_isSome {p : Processor} {f : Filter} {args : SubscriptionArguments}
    {r : Processor × Filter × Bool} (hr : processAdded p f args = some r)
    (hps : (through processAdded ps r.2.1 args).isSome = true) :
    (through processAdded (p :: ps) f args).isSome = true := by
  unfold through
  rw [hr, Option.bind_some]
  split
  · rfl
  · rwa [Option.isSome_map]

theorem through_total (hps : ∀ p ∈ ps, ∀ f args, (processAdded p f args).isSome = true) (f : Filter)
    (args : SubscriptionArguments) : (through processAdded ps f args).isSome = true := by
  induction ps generalizing f with
  | nil => rfl
  | cons p ps ih =>
    rw [List.forall_mem_cons] at hps
    obtain ⟨r, hr⟩ := Option.isSome_iff_exists.mp (hps.1 f args)
    exact through_cons_isSome hr (ih hps.2 r.2.1)

theorem through_isSome (hclusters : h.clusters = []) (hreset : ps.map reset = h.egressProcessors)
    (f : Filter) (args : SubscriptionArguments) :
    (through processAdded ps f args).isSome = readable h.NODE_ID f := by
  obtain ⟨n, rfl⟩ := chain_eq hclusters hreset
  unfold readable
  cases hlocal : nodeLocal h.NODE_ID f with
  | true => simp [through, processAdded, process, hlocal]
  | false =>
    -- behind the first processor only the aggregator can throw
    cases hfound : hasEqualityConstraint "node_id" (· == h.NODE_ID) f.required with
    | none => simp [through, processAdded, process, hlocal, hfound]
    | some found =>
      have hfirst : processAdded (.nodeLocalFilterDrop h.NODE_ID) f args =
          some (.nodeLocalFilterDrop h.NODE_ID, f, false) := by simp [processAdded, process, hlocal]
      obtain ⟨r, hr⟩ : ∃ r, processAdded (.nodeIdAggregator h.NODE_ID n) f args = some r := by
        simp [processAdded, process, hfound]
      refine through_cons_isSome hfirst (through_cons_isSome hr (through_total ?_ r.2.1 args))
      simp [processAdded, process]

/-- What a subscription is to the chain. -/
def item (S : Subscription) : Filter × SubscriptionArguments := (S.filter.toFilter, S.arguments)

theorem listing_none (board : Board) (subs : List Subscription) :
    listing board egressChain none subs = (none, []) := by
  induction subs with
  | nil => rfl
  | cons S subs ih => simp [listing, egressChain, ih]

section

variable (board : Board) {S : Subscription} (subs : List Subscription)

theorem listing_throws (hthrough : through processAdded ps S.filter.toFilter S.arguments = none) :
    listing board egressChain (some ps) (S :: subs) = (none, []) := by
  have hchain : egressChain (some ps) S.filter.toFilter S.arguments =
      (none, S.filter.toFilter, true) := by
    simp only [egressChain, hthrough]
  simp [listing, hchain, listing_none]

theorem listing_passes {o : List Processor × Option Filter}
    (hthrough : through processAdded ps S.filter.toFilter S.arguments = some o) :
    listing board egressChain (some ps) (S :: subs) =
      ((listing board egressChain (some o.1) subs).1,
        (o.2.toList.map fun g => .map (replay board g S.arguments)) ++
      (listing board egressChain (some o.1) subs).2) := by
  obtain ⟨ps', out⟩ := o
  cases out with
  | none =>
    have hchain : egressChain (some ps) S.filter.toFilter S.arguments =
        (some ps', S.filter.toFilter, true) := by
      simp only [egressChain, hthrough]
    simp [listing, hchain]
  | some g =>
    have hchain : egressChain (some ps) S.filter.toFilter S.arguments = (some ps', g, false) := by
      simp only [egressChain, hthrough]
    simp [listing, hchain]

end

theorem listing_egress (board : Board) (order : MapOrder) (hclusters : h.clusters = [])
    (hreset : ps.map reset = h.egressProcessors) {F : List Filter}
    (hload : ps.map stage = load h.stages F) {subs : List Subscription}
    (hlen : F.length + subs.length < 2 ^ 32) :
    ((∀ S ∈ subs, readable h.NODE_ID S.filter.toFilter = true) →
      ∃ ps', (listing board egressChain (some ps) subs).1 = some ps' ∧
        ps'.map reset = h.egressProcessors ∧
        ((listing board egressChain (some ps) subs).2.filterMap fun v =>
          (readVariant order v).map Prod.fst) =
          (addAll (load h.stages F) (subs.map item)).2.filterMap (received order)) ∧
    ((∃ S ∈ subs, readable h.NODE_ID S.filter.toFilter = false) →
      (listing board egressChain (some ps) subs).1 = none) := by
  induction subs generalizing ps F with
  | nil => exact ⟨fun _ => ⟨ps, rfl, hreset, rfl⟩, by simp⟩
  | cons S subs ih =>
    have hplain : h.PlainKeys := by simp [Hello.PlainKeys, hclusters]
    rw [List.length_cons] at hlen
    have hsome := through_isSome hclusters hreset S.filter.toFilter S.arguments
    cases hthrough : through processAdded ps S.filter.toFilter S.arguments with
    | none =>
      rw [hthrough] at hsome
      rw [listing_throws board subs hthrough]
      refine ⟨fun hall => ?_, fun _ => rfl⟩
      have := hall S List.mem_cons_self
      rw [← hsome] at this
      simp at this
    | some o =>
      rw [hthrough] at hsome
      have hread : readable h.NODE_ID S.filter.toFilter = true := hsome.symm
      have hadd := through_added ?_ hthrough
      · rw [hload] at hadd
        have hnext : o.1.map stage = load h.stages (S.filter.toFilter :: F) := by
          have := (add_load h.late_stages hplain.keyed.apart F S.filter.toFilter S.arguments).1
          rwa [hadd] at this
        obtain ⟨hgood, hbad⟩ := ih ((reset_through hthrough).trans hreset) hnext
          (by rw [List.length_cons]; omega)
        rw [listing_passes board subs hthrough]
        refine ⟨fun hall => ?_, ?_⟩
        · obtain ⟨ps', hps', hreset', heq⟩ := hgood fun T hT => hall T (List.mem_cons_of_mem _ hT)
          refine ⟨ps', hps', hreset', ?_⟩
          have hitem : add (load h.stages F) (item S).1 (item S).2 = (o.1.map stage, o.2) := hadd
          dsimp only
          rw [List.filterMap_append, heq, List.map_cons, addAll, hitem, List.filterMap_append,
            hnext]
          congr 1
          cases o.2 with
          | none => rfl
          | some g => simp [List.filterMap_cons, readVariant_replay]
        · rintro ⟨T, hT, hfalse⟩
          rcases List.mem_cons.mp hT with rfl | hT
          · rw [hread] at hfalse
            simp at hfalse
          · exact hbad ⟨T, hT, hfalse⟩
      · intro b r n hm
        rw [hload] at hm
        have := count_le_of_load hm
        omega

/-! ## Own subscriptions -/

theorem calls_from (board : Board) (rt : Router) (us : List Publication) (ops : List Op) :
    ops.foldl (fun st op => ((st.1.step board op).1, st.2 ++ (st.1.step board op).2.2)) (rt, us) =
      ((calls board rt ops).1, us ++ (calls board rt ops).2) := by
  unfold calls
  induction ops generalizing rt us with
  | nil => simp
  | cons op ops ih =>
    rw [List.foldl_cons, List.foldl_cons, ih, ih _ ([] ++ _)]
    simp

@[simp] theorem calls_nil (board : Board) (rt : Router) : calls board rt [] = (rt, []) := rfl

theorem calls_cons (board : Board) (rt : Router) (op : Op) (ops : List Op) :
    calls board rt (op :: ops) = ((calls board (rt.step board op).1 ops).1,
      (rt.step board op).2.2 ++ (calls board (rt.step board op).1 ops).2) := by
  have h := calls_from board (rt.step board op).1 (rt.step board op).2.2 ops
  rw [← h]
  rfl

theorem nodeLocal_of_mem {NODE_ID : String} {f : Filter} {opt : Bool}
    (h : .str "publisher_node_id" NODE_ID .EQ opt ∈ f.required) : nodeLocal NODE_ID f = true := by
  unfold nodeLocal
  rw [List.any_eq_true]
  exact ⟨_, h, by simp [Constraint.attr, Constraint.getStr, Constraint.predicate]⟩

/-- A filter for what this node publishes, as it is and as the other side of a message reads it. -/
structure Own (NODE_ID : String) (f : Filter) : Prop where
  required : .str "publisher_node_id" NODE_ID .EQ false ∈ f.required
  read : ∀ order, ∃ g, received order f = some g ∧ nodeLocal NODE_ID g = true

theorem own_of_constraints {NODE_ID : String} {cs : List Constraint}
    (hnamed : Constraint.namedAll cs = true)
    (hmem : .str "publisher_node_id" NODE_ID .EQ false ∈ cs) : Own NODE_ID (.ofConstraints cs) := by
  have hrequired : .str "publisher_node_id" NODE_ID .EQ false ∈
      (Filter.ofConstraints cs).required :=
    List.mem_filter.mpr ⟨hmem, rfl⟩
  refine ⟨hrequired, fun order => ?_⟩
  obtain ⟨g, hg, hsame, -⟩ := Filter.fromPublicationMap_ofConstraints order hnamed
  exact ⟨g, hg, nodeLocal_of_mem (Filter.sameAll_str hsame hrequired)⟩

theorem own_ownSubscriptions (NODE_ID X : String) (local_id : Int32) :
    ∀ e ∈ ownSubscriptions NODE_ID X local_id, Own NODE_ID e.1 := by
  intro e he
  simp only [ownSubscriptions, List.mem_cons, List.not_mem_nil, or_false] at he
  rcases he with rfl | rfl | rfl | rfl
  all_goals exact own_of_constraints rfl (by simp)

theorem deliver_own {st : State} {f : Filter} (hf : Own board.NODE_ID f)
    (hNODE : h.NODE_ID = board.NODE_ID) (hclusters : h.clusters = [])
    (hreset : st.processors.map reset = h.egressProcessors) (args : SubscriptionArguments)
    (who : ActorIdentifier) (exclude include_ : String) :
    st.deliver order board.NODE_ID X (publishSubscriptionAdded f args who exclude include_) =
      some st := by
  have hupdate : update order board.NODE_ID X st.processors
      (publishSubscriptionAdded f args who exclude include_) =
      some (st.processors, none) := by
    by_cases hsel : who.node_id = board.NODE_ID ∧ reaches X exclude include_
    · obtain ⟨g, hg, hlocal⟩ := hf.read order
      obtain ⟨n, hps⟩ := chain_eq hclusters hreset
      rw [update_added hg hsel.1 hsel.2, Processor.handleLocalSubscriptionAdded, hps, hNODE]
      simp [through, processAdded, process, hlocal]
    · exact update_added_passed hsel
  unfold State.deliver
  rw [hupdate]
  rfl

theorem updates_ownCalls (rt : Router) {own : List (Filter × ActorIdentifier)}
    (hown : ∀ e ∈ own, Own board.NODE_ID e.1) (r : Nat) :
    ∀ u ∈ (calls board rt (ownCalls board.NODE_ID r own)).2, ∃ f args who exclude include_,
      Own board.NODE_ID f ∧ u = publishSubscriptionAdded f args who exclude include_ := by
  induction own generalizing rt with
  | nil => simp [ownCalls, calls]
  | cons e own ih =>
    rw [List.forall_mem_cons] at hown
    intro u hu
    rw [ownCalls, List.map_cons, calls_cons] at hu
    rcases List.mem_append.mp hu with hu | hu
    · have hpolicy : SubscriptionArguments.default.fetch_policy = .FUTURE := rfl
      rcases updates_add hpolicy with hus | ⟨exclude, include_, hus⟩
      · rw [hus] at hu
        simp at hu
      · rw [hus] at hu
        exact ⟨_, _, _, _, _, hown.1, List.mem_singleton.mp hu⟩
    · exact ih _ hown.2 u hu

theorem foldlM_deliver {st : State} {us : List Publication} {NODE_ID : String}
    (h : ∀ u ∈ us, st.deliver order NODE_ID X u = some st) :
    us.foldlM (State.deliver order NODE_ID X) st = some st := by
  induction us with
  | nil => rfl
  | cons u us ih =>
    rw [List.forall_mem_cons] at h
    rw [List.foldlM_cons, h.1]
    exact ih h.2

/-! ## A new connection -/

/-- The router after the subscriptions of the connection. -/
def routerWithOwn (board : Board) (h : Hello) (X : String) (local_id : Int32) (r : Nat)
    (rt : Router) : Router :=
  (calls board rt (ownCalls h.NODE_ID r (ownSubscriptions h.NODE_ID X local_id))).1

/-- What a snapshot for `X` is made from. -/
def listed (rt : Router) (X : String) : List (Filter × SubscriptionArguments) :=
  (rt.subscriptions.filter fun S => Other rt X S).map item

/-- A new connection has sent what the pipeline makes of the subscriptions of others, if no
processor throws. -/
theorem handleRemoteHello_spec (order : MapOrder) {local_id : Int32} {r : Nat}
    (hNODE : h.NODE_ID = board.NODE_ID) (hclusters : h.clusters = [])
    (hinv : Inv board (routerWithOwn board h X local_id r rt))
    (hlen : (routerWithOwn board h X local_id r rt).subscriptions.length < 2 ^ 32) :
    ((∀ e ∈ listed (routerWithOwn board h X local_id r rt) X, readable h.NODE_ID e.1 = true) →
      ∃ st, handleRemoteHello order board h X local_id r rt =
          some (((routerWithOwn board h X local_id r rt).internNode X).1, st) ∧
        ∀ k, k ∈ st.announced order ↔
          ∃ g, Yields h.stages [] (listed (routerWithOwn board h X local_id r rt) X) g ∧
          received order g = some k) ∧
    ((∃ e ∈ listed (routerWithOwn board h X local_id r rt) X, readable h.NODE_ID e.1 = false) →
      handleRemoteHello order board h X local_id r rt = none) := by
  have hown := own_ownSubscriptions board.NODE_ID X local_id
  have hus := updates_ownCalls rt hown r
  unfold routerWithOwn at hinv hlen ⊢
  unfold handleRemoteHello listed
  rw [hNODE] at hinv hlen ⊢
  generalize calls board rt (ownCalls board.NODE_ID r (ownSubscriptions board.NODE_ID X local_id)) =
    own at hinv hlen hus ⊢
  obtain ⟨hst, hentries, hnumbered⟩ := subscriptionListsFor_listing hinv egressChain X
    (some h.egressProcessors) 5
  dsimp only
  generalize hsubs : (own.1.subscriptions.filter fun S => Other own.1 X S) = subs at hst hentries
  have hsubslen : subs.length < 2 ^ 32 := by
    rw [← hsubs]
    exact Nat.lt_of_le_of_lt (List.length_filter_le _ _) hlen
  have hplain : h.PlainKeys := by simp [Hello.PlainKeys, hclusters]
  obtain ⟨hgood, hbad⟩ := listing_egress board order hclusters h.egressProcessors_reset
    h.load_stages.symm (show ([] : List Filter).length + subs.length < 2 ^
      32 by simpa using hsubslen)
  rw [hNODE] at hgood hbad
  refine ⟨fun hall => ?_, fun hnot => ?_⟩
  · obtain ⟨ps, hps, hreset, hread⟩ := hgood fun S hS => hall (item S) (List.mem_map_of_mem hS)
    have hrouter : (own.1.subscriptionListsFor board X egressChain (some h.egressProcessors) 5).1 =
        (own.1.internNode X).1 := rfl
    generalize own.1.subscriptionListsFor board X egressChain (some h.egressProcessors) 5 = lists
      at hst hentries hnumbered hrouter ⊢
    have hdeliver : own.2.foldlM (State.deliver order board.NODE_ID X) ⟨ps, lists.2.2, []⟩ =
        some ⟨ps, lists.2.2, []⟩ := by
      refine foldlM_deliver fun u hu => ?_
      obtain ⟨f, args, who, exclude, include_, hf, rfl⟩ := hus u hu
      exact deliver_own hf hNODE hclusters hreset args who exclude include_
    refine ⟨⟨ps, lists.2.2, []⟩, ?_, ?_⟩
    · rw [hst, hps, Option.bind_some, hdeliver, Option.map_some, hrouter]
    · intro k
      rw [announced_of_numbered hnumbered, hentries, hread, List.mem_filterMap]
      simp only [mem_addAll h.late_stages hplain.keyed.apart]
  · obtain ⟨e, he, hfalse⟩ := hnot
    obtain ⟨S, hS, rfl⟩ := List.mem_map.mp he
    rw [hst, hbad ⟨S, hS, hfalse⟩]
    rfl

end RemoteConnection

end UActor
