import UActor.Lib.Runs
import UActor.PubSub.RouterInv
import UActor.Remote.Ingress

/-!
# A node with its actors

The router, the counter of sequence numbers and the table of accepted stamps, as the actors and the
peers of a node use them. Actors publish what they built, and also what they received.
-/

namespace UActor

/-- The object that `ManagedActor::publish` passes to the router. -/
def ManagedActor.publish (actor : ActorIdentifier) (p : Publication) : Publication :=
  ((p.setAttr "publisher_node_id" (.str actor.node_id)).setAttr "publisher_instance_id"
    (.str actor.instance_id)).setAttr "publisher_actor_type" (.str actor.actor_type)

/-- The publications of `handle_meta_subscription`, which come before the subscription is stored. -/
def Router.Op.fetched (board : Board) (rt : Router) : Router.Op → List Publication
  | .add f _ subscriber _ args => Router.replies board rt f args subscriber
  | .remove .. => []

structure Node where
  router : Router
  sequence_number : UInt32
  incomming_sequence_infos : SequenceInfos
  /-- What each call of `publish_internal` delivered. -/
  delivered : List (List Router.Delivery)

namespace Node

def init (board : Board) : Node := ⟨Router.init board, 1, [], []⟩

def publish (board : Board) (order : Router.VisitOrder) (node : Node) (p : Publication) :
    Option Node :=
  (Router.publishInternal board node.router order node.sequence_number p).1.map fun ds =>
    { node with
      sequence_number := (Router.publishInternal board node.router order node.sequence_number p).2
      delivered := node.delivered ++ [ds] }

inductive Event where
  /-- A component of the node or a peer subscribes or unsubscribes. -/
  | call (op : Router.Op)
  /-- An actor or a component of the node publishes an object that it built. -/
  | publishBuilt (actor : ActorIdentifier) (p : Publication)
  /-- An actor publishes an object that was delivered before. -/
  | publishReceived (actor : ActorIdentifier) (i : Nat)
  | arrive (link : Link) (now : UInt32) (p : Publication)

/-- An object that an actor can hold. -/
def received (node : Node) (i : Nat) : Option Publication :=
  (node.delivered.flatten[i]?).map Router.Delivery.publication

def call (board : Board) (order : Router.VisitOrder) (node : Node) (op : Router.Op) : Option Node :=
  let fetched := op.fetched board node.router
  let called := node.router.step board op
  (fetched.foldlM (publish board order) node).bind fun node =>
    (called.2.2.drop fetched.length).foldlM (publish board order) { node with router := called.1 }

def arrive (board : Board) (order : Router.VisitOrder) (node : Node) (link : Link) (now : UInt32)
    (p : Publication) : Option Node :=
  (link.processRemotePublication board node.incomming_sequence_infos now p).bind fun processed =>
    let node := { node with incomming_sequence_infos := processed.1 }
    match processed.2 with
    | .publish q => node.publish board order q
    | _ => some node

def step (board : Board) (node : Node) (e : Router.VisitOrder × Event) : Option Node :=
  match e.2 with
  | .call op => node.call board e.1 op
  | .publishBuilt actor p => node.publish board e.1 (ManagedActor.publish actor p)
  | .publishReceived actor i =>
    (node.received i).bind fun p => node.publish board e.1 (ManagedActor.publish actor p)
  | .arrive link now p => node.arrive board e.1 link now p

def run (board : Board) (events : List (Router.VisitOrder × Event)) : Option Node :=
  events.foldlM (step board) (init board)

/-! ## Stamps -/

def Own (board : Board) (p : Publication) : Prop :=
  p.getStrAttr "publisher_node_id" = some board.NODE_ID

instance (board : Board) (p : Publication) : Decidable (Own board p) :=
  inferInstanceAs (Decidable (p.getStrAttr "publisher_node_id" = some board.NODE_ID))

/-- What the node delivers as its own has the epoch of the node and a number that nothing else
has. -/
def StampsFresh (board : Board) (node : Node) : Prop :=
  (∀ ds ∈ node.delivered, ∀ d ∈ ds, Own board d.publication →
    d.publication.getIntAttr "_internal_epoch" = some board.epoch ∧
    (d.publication.getIntAttr "_internal_sequence_number").isSome = true) ∧
  node.delivered.Pairwise fun ds ds' => ∀ d ∈ ds, ∀ d' ∈ ds', Own board d.publication →
    Own board d'.publication →
    d.publication.getIntAttr "_internal_sequence_number" ≠ d'.publication.getIntAttr
      "_internal_sequence_number"

instance (board : Board) (node : Node) : Decidable (StampsFresh board node) :=
  inferInstanceAs (Decidable (_ ∧ _))

/-- The publication gets a stamp, or is not one of this node. -/
def Stampable (board : Board) (p : Publication) : Prop :=
  Own board p → p.hasAttr "_internal_sequence_number" = false

/-- No actor of this node publishes an object that has a number, and peers do not speak in the name
of this node. -/
def Event.Fresh (board : Board) (node : Node) : Event → Prop
  | .call _ => True
  | .publishBuilt actor p =>
    actor.node_id = board.NODE_ID → p.hasAttr "_internal_sequence_number" = false
  | .publishReceived actor i =>
    actor.node_id = board.NODE_ID → ∀ p, node.received i = some p →
      p.hasAttr "_internal_sequence_number" = false
  | .arrive link _ _ => link.KeepsPublisher board

/-! ## One call of `publish_internal` -/

theorem mem_fanOut {p : Publication} {targets : List (Nat × Nat)} {d : Router.Delivery}
    (h : d ∈ Router.fanOut p targets) : d.publication = p ∨ d.publication = p.copy := by
  induction targets with
  | nil => simp [Router.fanOut] at h
  | cons t targets ih =>
    cases targets with
    | nil =>
      obtain rfl := List.mem_singleton.mp h
      exact Or.inl rfl
    | cons t' targets =>
      rcases List.mem_cons.mp h with rfl | h
      · exact Or.inr rfl
      · exact ih h

theorem copy_attrs {p c : Publication} (h : c = p ∨ c = p.copy) (name : String) :
    c.getStrAttr name = p.getStrAttr name ∧ c.getIntAttr name = p.getIntAttr name := by
  rcases h with rfl | rfl
  · exact ⟨rfl, rfl⟩
  · exact ⟨Publication.getStrAttr_copy p name, Publication.getIntAttr_copy p name⟩

theorem publish_own {board : Board} {order : Router.VisitOrder} {node node' : Node}
    {p : Publication} (hp : Stampable board p) (h : node.publish board order p = some node') :
    ∃ ds, node'.delivered = node.delivered ++ [ds] ∧
      (node'.sequence_number = node.sequence_number ∧ (∀ d ∈ ds, ¬ Own board d.publication) ∨
        node'.sequence_number = node.sequence_number + 1 ∧
          ∀ d ∈ ds, d.publication.getIntAttr "_internal_epoch" = some board.epoch ∧
            d.publication.getIntAttr "_internal_sequence_number" =
              some node.sequence_number.toInt32) := by
  obtain ⟨ds, hds, rfl⟩ := Option.map_eq_some_iff.mp h
  obtain ⟨sel, -, rfl⟩ := Option.map_eq_some_iff.mp hds
  refine ⟨_, rfl, ?_⟩
  simp only [Router.publishInternal, Router.stamp]
  by_cases hown : Own board p
  · rw [if_pos ⟨hown, hp hown⟩]
    refine Or.inr ⟨rfl, ?_⟩
    intro d hd
    have hcopy := mem_fanOut hd
    rw [(copy_attrs hcopy _).2, (copy_attrs hcopy _).2, Publication.getIntAttr_setAttr_self,
      Publication.getIntAttr_setAttr_ne _ (by decide), Publication.getIntAttr_setAttr_self]
    exact ⟨rfl, rfl⟩
  · rw [if_neg fun h => hown h.1]
    refine Or.inl ⟨rfl, ?_⟩
    intro d hd
    unfold Own
    rw [(copy_attrs (mem_fanOut hd) _).1]
    exact hown

/-- The counter is one more than the numbers that were given away. -/
structure Issued (board : Board) (node : Node) : Prop where
  count : ∃ n ≤ node.delivered.length, node.sequence_number = UInt32.ofNat (n + 1) ∧
    ∀ ds ∈ node.delivered, ∀ d ∈ ds, Own board d.publication →
      ∃ k, 1 ≤ k ∧ k ≤ n ∧ d.publication.getIntAttr "_internal_sequence_number" =
        some (UInt32.ofNat k).toInt32
  fresh : node.delivered.length < 2 ^ 32 → StampsFresh board node

theorem toInt32_ofNat_ne {k n : Nat} (hk : k < n) (hn : n < 2 ^ 32) :
    (UInt32.ofNat k).toInt32 ≠ (UInt32.ofNat n).toInt32 := by
  intro h
  have h := congrArg (fun x : Int32 => x.toUInt32.toNat) h
  simp only [UInt32.toUInt32_toInt32, UInt32.toNat_ofNat'] at h
  omega

theorem StampsFresh.snoc {board : Board} {node node' : Node} {ds : List Router.Delivery}
    (h : StampsFresh board node) (hds : node'.delivered = node.delivered ++ [ds])
    (hstamp : ∀ d ∈ ds, Own board d.publication →
      d.publication.getIntAttr "_internal_epoch" = some board.epoch ∧
      (d.publication.getIntAttr "_internal_sequence_number").isSome = true)
    (hnew : ∀ ds' ∈ node.delivered, ∀ d' ∈ ds', ∀ d ∈ ds, Own board d'.publication →
      Own board d.publication →
      d'.publication.getIntAttr "_internal_sequence_number" ≠ d.publication.getIntAttr
        "_internal_sequence_number") :
    StampsFresh board node' := by
  unfold StampsFresh
  rw [hds]
  refine ⟨?_, List.pairwise_append.mpr ⟨h.2, List.pairwise_singleton _ _, ?_⟩⟩
  · intro ds' hds' d hd hown
    rcases List.mem_append.mp hds' with hds' | hds'
    · exact h.1 ds' hds' d hd hown
    · rw [List.mem_singleton.mp hds'] at hd
      exact hstamp d hd hown
  · intro ds₁ hds₁ ds₂ hds₂ d hd d' hd'
    rw [List.mem_singleton.mp hds₂] at hd'
    exact hnew ds₁ hds₁ d hd d' hd'

theorem Issued.publish {board : Board} {order : Router.VisitOrder} {node node' : Node}
    {p : Publication} (h : Issued board node) (hp : Stampable board p)
    (hpub : node.publish board order p = some node') :
    Issued board node' := by
  obtain ⟨n, hn, hseq, hknown⟩ := h.count
  obtain ⟨ds, hds, ⟨hsame, hforeign⟩ | ⟨hnext, hstamp⟩⟩ := publish_own hp hpub
  · refine ⟨⟨n, ?_, hsame.trans hseq, ?_⟩, ?_⟩
    · rw [hds, List.length_append]
      omega
    · intro ds' hds' d hd hown
      rw [hds] at hds'
      rcases List.mem_append.mp hds' with hds' | hds'
      · exact hknown ds' hds' d hd hown
      · rw [List.mem_singleton.mp hds'] at hd
        exact absurd hown (hforeign d hd)
    · intro hlen
      rw [hds, List.length_append] at hlen
      apply (h.fresh (by omega)).snoc hds
      · intro d hd hown
        exact absurd hown (hforeign d hd)
      · intro ds' _ d' _ d hd _ hown
        exact absurd hown (hforeign d hd)
  · refine ⟨⟨n + 1, ?_, ?_, ?_⟩, ?_⟩
    · rw [hds, List.length_append, List.length_singleton]
      omega
    · rw [hnext, hseq, UInt32.ofNat_add (n + 1) 1]
      rfl
    · intro ds' hds' d hd hown
      rw [hds] at hds'
      rcases List.mem_append.mp hds' with hds' | hds'
      · obtain ⟨k, hk, hkn, hnumber⟩ := hknown ds' hds' d hd hown
        exact ⟨k, hk, by omega, hnumber⟩
      · rw [List.mem_singleton.mp hds'] at hd
        exact ⟨n + 1, by omega, le_refl _, by rw [(hstamp d hd).2, hseq]⟩
    · intro hlen
      rw [hds, List.length_append, List.length_singleton] at hlen
      apply (h.fresh (by omega)).snoc hds
      · intro d hd _
        exact ⟨(hstamp d hd).1, by rw [(hstamp d hd).2]; rfl⟩
      · -- all numbers so far are below the new one, and none of them wrapped
        intro ds' hds' d' hd' d hd hown' _
        obtain ⟨k, -, hkn, hnumber⟩ := hknown ds' hds' d' hd' hown'
        rw [hnumber, (hstamp d hd).2, hseq]
        intro heq
        exact toInt32_ofNat_ne (Nat.lt_succ_of_le hkn) (by omega) (Option.some.inj heq)

theorem Issued.publishAll {board : Board} {order : Router.VisitOrder} {ps : List Publication}
    {node node' : Node} (h : Issued board node) (hps : ∀ p ∈ ps, Stampable board p)
    (hpub : ps.foldlM (Node.publish board order) node = some node') : Issued board node' := by
  apply Runs.invariant_of (Issued board) (fun _ p => Stampable board p) h _ _ hpub
  · intro before p after hbefore hp hstep
    exact hbefore.publish hp hstep
  · intro pre p post _ heq _
    exact hps p (by rw [heq]; simp)

/-! ## The publications of the router -/

theorem hasAttr_address (u : Publication) (exclude include_ : String) :
    (Router.address u exclude include_).hasAttr "_internal_sequence_number" =
      u.hasAttr "_internal_sequence_number" := by
  unfold Router.address
  split <;> split <;> simp [Publication.hasAttr_setAttr_ne]

theorem hasAttr_ofPublisher (node_id actor_type instance_id : String) :
    (Publication.ofPublisher node_id actor_type instance_id).hasAttr "_internal_sequence_number" =
      false := by
  unfold Publication.ofPublisher
  simp [Publication.hasAttr_setAttr_ne]
  rfl

theorem added_unstamped (f : Filter) (args : SubscriptionArguments) (actor : ActorIdentifier)
    (exclude include_ : String) :
    (Router.publishSubscriptionAdded f args actor exclude include_).hasAttr
      "_internal_sequence_number" = false := by
  unfold Router.publishSubscriptionAdded
  rw [hasAttr_address]
  simp [Publication.hasAttr_setAttr_ne, hasAttr_ofPublisher]

theorem removed_unstamped (board : Board) (f : InternalFilter) (args : SubscriptionArguments)
    (exclude include_ : String) :
    (Router.publishSubscriptionRemoved board f args exclude include_).hasAttr
      "_internal_sequence_number" = false := by
  unfold Router.publishSubscriptionRemoved
  rw [hasAttr_address]
  simp [Publication.hasAttr_setAttr_ne, hasAttr_ofPublisher]

theorem replies_unstamped {board : Board} {rt : Router} {f : Filter} {args : SubscriptionArguments}
    {who : ActorIdentifier} {u : Publication} (hu : u ∈ Router.replies board rt f args who) :
    u.hasAttr "_internal_sequence_number" = false := by
  unfold Router.replies at hu
  split at hu
  · obtain ⟨s, -, rfl⟩ := List.mem_map.mp hu
    simp [Publication.hasAttr_setAttr_ne, hasAttr_ofPublisher]
  · simp at hu

theorem fetched_unstamped {board : Board} {rt : Router} {op : Router.Op} {u : Publication}
    (hu : u ∈ op.fetched board rt) : u.hasAttr "_internal_sequence_number" = false := by
  cases op with
  | remove => simp [Router.Op.fetched] at hu
  | add f r subscriber source_peer args => exact replies_unstamped hu

theorem updates_unstamped {board : Board} {rt : Router} {op : Router.Op} {u : Publication}
    (hu : u ∈ (rt.step board op).2.2) : u.hasAttr "_internal_sequence_number" = false := by
  have hstep := Router.step_cases board rt op
  generalize rt.step board op = out at hstep hu
  cases hstep with
  | fetch f r who src args | create f r who src args =>
    rcases List.mem_append.mp hu with hu | hu
    · exact replies_unstamped hu
    · rw [List.mem_singleton.mp hu]
      exact added_unstamped ..
  | join f r who src args sub hf hsub =>
    rcases List.mem_append.mp hu with hu | hu
    · exact replies_unstamped hu
    · unfold Router.announceJoin at hu
      dsimp only at hu
      have hadded : ∃ exclude include_, u = Router.publishSubscriptionAdded f args who exclude
          include_ := by
        split at hu
        · split at hu
          · exact ⟨_, _, List.mem_singleton.mp hu⟩
          · split at hu
            · exact ⟨_, _, List.mem_singleton.mp hu⟩
            · split at hu
              · exact ⟨_, _, List.mem_singleton.mp hu⟩
              · simp at hu
        · simp at hu
      obtain ⟨exclude, include_, rfl⟩ := hadded
      exact added_unstamped ..
  | unknown => simp at hu
  | erase =>
    rw [List.mem_singleton.mp hu]
    exact removed_unstamped ..
  | leave =>
    unfold Router.announceLeave at hu
    split at hu
    · split at hu
      · rw [List.mem_singleton.mp hu]
        exact removed_unstamped ..
      · simp at hu
    · simp at hu

/-! ## Runs -/

theorem stampable_of_unstamped {board : Board} {p : Publication}
    (h : p.hasAttr "_internal_sequence_number" = false) : Stampable board p := fun _ => h

theorem stampable_publish {board : Board} {actor : ActorIdentifier} {p : Publication}
    (h : actor.node_id = board.NODE_ID → p.hasAttr "_internal_sequence_number" = false) :
    Stampable board (ManagedActor.publish actor p) := by
  intro hown
  unfold ManagedActor.publish at hown ⊢
  unfold Own at hown
  rw [Publication.getStrAttr_setAttr_ne _ (by decide), Publication.getStrAttr_setAttr_ne _
    (by decide), Publication.getStrAttr_setAttr_self] at hown
  rw [Publication.hasAttr_setAttr_ne _ (by decide), Publication.hasAttr_setAttr_ne _ (by decide),
    Publication.hasAttr_setAttr_ne _ (by decide)]
  exact h (Option.some.inj hown)

theorem issued_init (board : Board) : Issued board (init board) :=
  ⟨⟨0, le_refl _, rfl, by simp [init]⟩, fun _ => ⟨by simp [init], List.Pairwise.nil⟩⟩

theorem Issued.congr {board : Board} {node node' : Node} (h : Issued board node)
    (hseq : node'.sequence_number = node.sequence_number) (hds : node'.delivered = node.delivered) :
    Issued board node' := by
  obtain ⟨hcount, hfresh⟩ := h
  unfold StampsFresh at hfresh
  rw [← hseq, ← hds] at hcount
  rw [← hds] at hfresh
  exact ⟨hcount, hfresh⟩

theorem Issued.step {board : Board} {node node' : Node} {e : Router.VisitOrder × Event}
    (h : Issued board node) (he : e.2.Fresh board node) (hstep : node.step board e = some node') :
    Issued board node' := by
  obtain ⟨order, e⟩ := e
  cases e with
  | call op =>
    obtain ⟨next, hnext, hstep⟩ := Option.bind_eq_some_iff.mp hstep
    have hfetched := h.publishAll (fun u hu => stampable_of_unstamped (fetched_unstamped hu)) hnext
    have hcalled : Issued board { next with router := (node.router.step board op).1 } :=
      hfetched.congr rfl rfl
    exact hcalled.publishAll
      (fun u hu => stampable_of_unstamped (updates_unstamped (List.mem_of_mem_drop hu))) hstep
  | publishBuilt actor p => exact h.publish (stampable_publish he) hstep
  | publishReceived actor i =>
    obtain ⟨p, hp, hstep⟩ := Option.bind_eq_some_iff.mp hstep
    exact h.publish (stampable_publish fun hactor => he hactor p hp) hstep
  | arrive link now p =>
    obtain ⟨⟨infos, outcome⟩, hprocessed, hstep⟩ := Option.bind_eq_some_iff.mp hstep
    have hnext : Issued board { node with incomming_sequence_infos := infos } := h.congr rfl rfl
    cases outcome with
    | publish q =>
      have hforeign := Link.processRemotePublication_publisher he hprocessed
      exact hnext.publish (fun hown => absurd hown hforeign) hstep
    | drop | remoteHello | remoteSubscriptionsAdded | remoteSubscriptionsRemoved =>
      rw [← Option.some.inj hstep]
      exact hnext

/-- As long as actors of this node only publish objects without a number, and no location label
makes this node the publisher of what comes from peers, all stamps of the node are fresh. -/
theorem stamps_fresh (board : Board) (events : List (Router.VisitOrder × Event)) (node : Node)
    (hrun : run board events = some node)
    (hsteps : ∀ pre e post before, events = pre ++ e :: post → run board pre = some before →
      e.2.Fresh board before)
    (hlen : node.delivered.length < 2 ^ 32) : StampsFresh board node := by
  have hissued : Issued board node :=
    Runs.invariant_of (Issued board) (fun before e => e.2.Fresh board before) (issued_init board)
      (fun before e after h he hstep => h.step he hstep) hsteps hrun
  exact hissued.fresh hlen

/-- A subscription, and two publications that it matches, of an actor and of a peer. -/
def pingRun : List (Router.VisitOrder × Event) :=
  [(.plain, .call (.add ⟨[.str "type" "ping" .EQ false], []⟩ 1 ⟨"node", "t", "1"⟩ "node" .default)),
    (.plain, .publishBuilt ⟨"node", "t", "1"⟩ (Publication.empty.setAttr "type" (.str "ping"))),
    (.plain, .arrive ⟨"b", [], [], []⟩ 5 (((((Publication.ofPublisher "b" "t" "1").setAttr
      "type" (.str "ping")).setAttr "_internal_sequence_number" (.int 7))).setAttr "_internal_epoch"
        (.int 9)))]

/-- The announcement and the publication of the actor get the numbers 1 and 2. -/
theorem stamps_fresh_ping :
    ∃ node, run ⟨"node", 3⟩ pingRun = some node ∧ node.sequence_number = 3 ∧
    StampsFresh ⟨"node", 3⟩ node := by
  have hrun : (run ⟨"node", 3⟩ pingRun).any (fun node =>
      decide (node.sequence_number = 3) && decide (node.delivered.length < 2 ^ 32)) =
        true := by decide
  obtain ⟨node, hnode, hprop⟩ := (Option.any_eq_true _ _).mp hrun
  rw [Bool.and_eq_true, decide_eq_true_eq, decide_eq_true_eq] at hprop
  refine ⟨node, hnode, hprop.1, stamps_fresh _ _ node hnode ?_ hprop.2⟩
  intro pre e post before heq _
  have he : e ∈ pingRun := by rw [heq]; simp
  simp only [pingRun, List.mem_cons, List.not_mem_nil, or_false] at he
  rcases he with rfl | rfl | rfl
  · trivial
  · exact fun _ => by decide
  · exact fun cluster hcluster => absurd hcluster List.not_mem_nil

/-- An actor publishes what it received from itself, and then what it received from the peer. -/
theorem received_stamps_stale :
    (∃ node, run ⟨"node", 3⟩ (pingRun ++ [(.plain, .publishReceived ⟨"node", "t", "1"⟩ 0)]) =
      some node ∧
      node.delivered.length < 2 ^ 32 ∧ ¬ StampsFresh ⟨"node", 3⟩ node) ∧
    ∃ node, run ⟨"node", 3⟩ (pingRun ++ [(.plain, .publishReceived ⟨"node", "t", "1"⟩ 1)]) =
      some node ∧
      node.delivered.length < 2 ^ 32 ∧ ¬ StampsFresh ⟨"node", 3⟩ node := by
  have hstale : ∀ i ∈ [0, 1],
      (run ⟨"node", 3⟩ (pingRun ++ [(.plain, .publishReceived ⟨"node", "t", "1"⟩ i)])).any
        (fun node =>
        decide (node.delivered.length < 2 ^ 32 ∧ ¬ StampsFresh ⟨"node", 3⟩ node)) =
          true := by decide
  refine ⟨?_, ?_⟩
  · obtain ⟨node, hnode, hprop⟩ := (Option.any_eq_true _ _).mp (hstale 0 (by decide))
    exact ⟨node, hnode, of_decide_eq_true hprop⟩
  · obtain ⟨node, hnode, hprop⟩ := (Option.any_eq_true _ _).mp (hstale 1 (by decide))
    exact ⟨node, hnode, of_decide_eq_true hprop⟩

end Node

end UActor
