import UActor.PubSub.RouterInv

/-!
# Announcements

Peers learn about subscriptions from the updates of the router. What a peer has been told is
compared with the nodes that subscribe, after any calls.
-/

namespace UActor

namespace Router

/-! ## What a peer is told -/

/-- The update goes to the peer `X`. -/
def addressed (X : String) (u : Publication) : Bool :=
  (match u.getStrAttr "include_node_id" with
    | none => true
    | some i => i == X) &&
  (match u.getStrAttr "exclude_node_id" with
    | none => true
    | some e => e != X)

/-- What the peer `X` believes after an update, where `told` is what it believed before. -/
def hear (X : String) (told : Bool) (u : Publication) : Bool :=
  if addressed X u then
    if u.getStrAttr "type" = some "local_subscription_added" then true
    else if u.getStrAttr "type" = some "local_subscription_removed" then false
    else told
  else told

/-- The subscription that a call is about: the one it returns, or the one it was given. -/
def Op.subject : Op → Router × Nat × List Publication → Nat
  | .add .., out => out.2.1
  | .remove sub_id _ _, _ => sub_id

/-- All updates of a run, each with the subscription it is about. -/
def updates (board : Board) (ops : List Op) : List (Nat × Publication) :=
  (ops.foldl (fun (st : Router × List (Nat × Publication)) op =>
    let out := st.1.step board op
    (out.1, st.2 ++ out.2.2.map fun u => (op.subject out, u))) (init board, [])).2

/-- What `X` has been told about the subscription `s`. -/
def told (board : Board) (X : String) (s : Nat) (ops : List Op) : Bool :=
  ((updates board ops).filter fun e => e.1 = s).foldl (fun b e => hear X b e.2) false

theorem updates_snoc (board : Board) (ops : List Op) (op : Op) :
    updates board (ops ++ [op]) = updates board ops ++
      ((run board ops).step board op).2.2.map fun u =>
        (op.subject ((run board ops).step board op), u) := by
  have hrun : ∀ ops, (ops.foldl (fun (st : Router × List (Nat × Publication)) op =>
      let out := st.1.step board op
      (out.1, st.2 ++ out.2.2.map fun u => (op.subject out, u))) (init board, [])).1 =
        run board ops := by
    intro ops
    induction ops using List.reverseRecOn with
    | nil => rfl
    | append_singleton ops op ih => rw [List.foldl_append, run_snoc, ← ih]; rfl
  unfold updates
  rw [List.foldl_append, List.foldl_cons, List.foldl_nil]
  dsimp only
  rw [hrun]

theorem told_snoc (board : Board) (X : String) (s : Nat) (ops : List Op) (op : Op) :
    told board X s (ops ++ [op]) =
      if op.subject ((run board ops).step board op) = s then
        ((run board ops).step board op).2.2.foldl (hear X) (told board X s ops)
      else told board X s ops := by
  unfold told
  rw [updates_snoc, List.filter_append, List.foldl_append]
  generalize (run board ops).step board op = out
  split
  · rename_i hs
    have hall : (out.2.2.map fun u => (op.subject out, u)).filter (fun e => e.1 = s) =
        out.2.2.map fun u => (op.subject out, u) := by
      rw [List.filter_eq_self]
      intro e he
      obtain ⟨u, -, rfl⟩ := List.mem_map.mp he
      simpa using hs
    rw [hall, List.foldl_map]
  · rename_i hs
    have hnone : (out.2.2.map fun u => (op.subject out, u)).filter (fun e => e.1 = s) = [] := by
      rw [List.filter_eq_nil_iff]
      intro e he
      obtain ⟨u, -, rfl⟩ := List.mem_map.mp he
      simpa using hs
    rw [hnone, List.foldl_nil]

/-! ## The updates themselves -/

/-- The addresses of an update as they were given to it. -/
def reaches (X exclude include_ : String) : Prop :=
  (include_ = "" ∨ include_ = X) ∧ (exclude = "" ∨ exclude ≠ X)

theorem getStrAttr_eq (p : Publication) (name : String) :
    p.getStrAttr name = match p.getAttr name with
      | some (.str v) => some v
      | _ => none := rfl

theorem addressed_address {u : Publication} (hi : u.getAttr "include_node_id" = none)
    (he : u.getAttr "exclude_node_id" = none) (X exclude include_ : String) :
    addressed X (address u exclude include_) = true ↔ reaches X exclude include_ := by
  have hne : "include_node_id" ≠ "exclude_node_id" := by decide
  unfold addressed address reaches
  by_cases hx : exclude = "" <;> by_cases hn : include_ = "" <;>
    simp [getStrAttr_eq, Publication.getAttr_setAttr, hx, hn, hi, he, hne, hne.symm]

theorem getStrAttr_type_address (u : Publication) (exclude include_ : String) :
    (address u exclude include_).getStrAttr "type" = u.getStrAttr "type" := by
  unfold address
  split <;> split <;> simp [getStrAttr_eq, Publication.getAttr_setAttr]

section

variable (X : String) (board : Board) (f : Filter) (F : InternalFilter)
  (args : SubscriptionArguments) (who : ActorIdentifier) (exclude include_ : String)

theorem addressed_added :
    addressed X (publishSubscriptionAdded f args who exclude include_) = true ↔
    reaches X exclude include_ :=
  addressed_address (by simp [Publication.getAttr_setAttr, Publication.ofPublisher]; rfl)
    (by simp [Publication.getAttr_setAttr, Publication.ofPublisher]; rfl) X exclude include_

theorem type_added : (publishSubscriptionAdded f args who exclude include_).getStrAttr "type" =
    some "local_subscription_added" := by
  unfold publishSubscriptionAdded
  rw [getStrAttr_type_address]
  simp [getStrAttr_eq, Publication.getAttr_setAttr]

theorem addressed_removed :
    addressed X (publishSubscriptionRemoved board F args exclude include_) = true ↔
    reaches X exclude include_ :=
  addressed_address (by simp [Publication.getAttr_setAttr, Publication.ofPublisher]; rfl)
    (by simp [Publication.getAttr_setAttr, Publication.ofPublisher]; rfl) X exclude include_

theorem type_removed : (publishSubscriptionRemoved board F args exclude include_).getStrAttr
    "type" =
    some "local_subscription_removed" := by
  unfold publishSubscriptionRemoved
  rw [getStrAttr_type_address]
  simp [getStrAttr_eq, Publication.getAttr_setAttr]

theorem hear_added (b : Bool) [Decidable (reaches X exclude include_)] :
    hear X b (publishSubscriptionAdded f args who exclude include_) =
      if reaches X exclude include_ then true else b := by
  unfold hear
  simp only [addressed_added, type_added, if_true]

theorem hear_removed (b : Bool) [Decidable (reaches X exclude include_)] :
    hear X b (publishSubscriptionRemoved board F args exclude include_) =
      if reaches X exclude include_ then false else b := by
  unfold hear
  simp only [addressed_removed, type_removed]
  rfl

end

theorem hear_replies (X : String) (b : Bool) (board : Board) (rt : Router) (f : Filter)
    (args : SubscriptionArguments) (who : ActorIdentifier) :
    (replies board rt f args who).foldl (hear X) b = b := by
  have hone : ∀ u ∈ replies board rt f args who, ∀ b, hear X b u = b := by
    intro u hu b
    unfold replies at hu
    split at hu
    · obtain ⟨S, -, rfl⟩ := List.mem_map.mp hu
      unfold hear
      simp [getStrAttr_eq, Publication.getAttr_setAttr]
    · simp at hu
  generalize replies board rt f args who = us at hone
  induction us with
  | nil => rfl
  | cons u us ih =>
    rw [List.foldl_cons, hone u List.mem_cons_self]
    exact ih fun v hv => hone v (List.mem_cons_of_mem _ hv)

/-! ## The nodes of a subscription -/

/-- Some node other than `X` subscribes. -/
def Other (rt : Router) (X : String) (S : Subscription) : Prop := ∃ n ∈ S.nodes, rt.nodeName n ≠ X

/-- Every peer has a name of its own, and only the name of this node may be empty. -/
def Named (board : Board) (rt : Router) : Prop :=
  ∀ e ∈ rt.peer_node_ids, e.1 = board.NODE_ID ∨ e.1 ≠ ""

section

variable {board : Board} {rt : Router}

theorem PeersInv.nodeName_inj (h : PeersInv board rt) {n k : Nat}
    (hn : n ∈ rt.peer_node_ids.map Prod.snd) (hk : k ∈ rt.peer_node_ids.map Prod.snd)
    (heq : rt.nodeName n = rt.nodeName k) : n = k := by
  have h1 := h.find_nodeName hn
  have h2 := h.find_nodeName hk
  rw [heq, h2] at h1
  exact (Option.some.inj h1).symm

theorem PeersInv.nodeName_internNode (h : PeersInv board rt) (node : String) {n : Nat}
    (hn : n ∈ rt.peer_node_ids.map Prod.snd) : (rt.internNode node).1.nodeName n = rt.nodeName n :=
  (h.internNode node).nodeName_eq (find_internNode_of_some (h.find_nodeName hn) node)

theorem PeersInv.nodeName_self (h : PeersInv board rt) (node : String) :
    (rt.internNode node).1.nodeName (rt.internNode node).2 = node :=
  (h.internNode node).nodeName_eq (by rw [find_internNode, if_pos rfl])

theorem other_of_two (h : PeersInv board rt) {S : Subscription}
    (hS : ∀ n ∈ S.nodes, n ∈ rt.peer_node_ids.map Prod.snd) (hlen : 2 ≤ S.nodes.length)
    (X : String) : Other rt X S := by
  have hnodup := S.nodes_nodup
  match hnodes : S.nodes with
  | [] => rw [hnodes] at hlen; simp at hlen
  | [n] => rw [hnodes] at hlen; simp at hlen
  | n :: k :: rest =>
    have hn : n ∈ S.nodes := by rw [hnodes]; simp
    have hk : k ∈ S.nodes := by rw [hnodes]; simp
    by_cases hX : rt.nodeName n = X
    · refine ⟨k, hk, ?_⟩
      intro hkX
      have := h.nodeName_inj (hS n hn) (hS k hk) (hX.trans hkX.symm)
      rw [hnodes, this] at hnodup
      simp at hnodup
    · exact ⟨n, hn, hX⟩

theorem Other.mono {X : String} {S T : Subscription} (h : Other rt X S)
    (hsub : ∀ n ∈ S.nodes, n ∈ T.nodes) :
    Other rt X T := by
  obtain ⟨n, hn, hX⟩ := h
  exact ⟨n, hsub n hn, hX⟩

theorem other_internNode (h : PeersInv board rt) {S : Subscription} (hS : S ∈ rt.subscriptions)
    (src X : String) :
    Other (rt.internNode src).1 X S ↔ Other rt X S := by
  unfold Other
  constructor
  · rintro ⟨n, hn, hX⟩
    rw [h.nodeName_internNode src (h.known S hS n hn)] at hX
    exact ⟨n, hn, hX⟩
  · rintro ⟨n, hn, hX⟩
    rw [← h.nodeName_internNode src (h.known S hS n hn)] at hX
    exact ⟨n, hn, hX⟩

/-! ## A node joins -/

/-- The call adds the node `n`, which is the source `src`, to the subscription `S`. -/
structure Joins (board : Board) (rt : Router) (src : String) (n : Nat) (S S' : Subscription) :
    Prop where
  peers : PeersInv board rt
  name : rt.nodeName n = src
  fresh : src = board.NODE_ID ∨ src ≠ ""
  known : ∀ k ∈ S'.nodes, k ∈ rt.peer_node_ids.map Prod.snd
  nodes : ∀ k, k ∈ S'.nodes ↔ k ∈ S.nodes ∨ k = n

variable {src X : String} {n : Nat} {S S' : Subscription}

theorem Joins.other (h : Joins board rt src n S S') : Other rt X S' ↔ Other rt X S ∨ src ≠ X := by
  unfold Other
  constructor
  · rintro ⟨k, hk, hX⟩
    rcases (h.nodes k).mp hk with hk | rfl
    · exact Or.inl ⟨k, hk, hX⟩
    · exact Or.inr (by rwa [h.name] at hX)
  · rintro (⟨k, hk, hX⟩ | hX)
    · exact ⟨k, (h.nodes k).mpr (Or.inl hk), hX⟩
    · exact ⟨n, (h.nodes n).mpr (Or.inr rfl), by rwa [h.name]⟩

theorem reaches_excludeFor (hfresh : src = board.NODE_ID ∨ src ≠ "") (hX : X ≠ board.NODE_ID) :
    reaches X (excludeFor board src) "" ↔ src ≠ X := by
  unfold reaches excludeFor
  by_cases hsrc : src = board.NODE_ID
  · simp [hsrc, hX.symm]
  · simp [hsrc, hfresh.resolve_left hsrc]

theorem Joins.find_other (h : Joins board rt src n S S') (hlen : S'.nodes.length = 2) :
    (S'.nodes.find? (· ≠ n)).getD 0 ∈ S.nodes ∧ (S'.nodes.find? (· ≠ n)).getD 0 ≠ n := by
  cases hf : S'.nodes.find? (· ≠ n) with
  | none =>
    have hall := List.find?_eq_none.mp hf
    simp only [ne_eq, decide_not, Bool.not_eq_true', decide_eq_false_iff_not, not_not] at hall
    have hnodup := S'.nodes_nodup
    match hnodes : S'.nodes with
    | [] | [_] => rw [hnodes] at hlen; simp at hlen
    | a :: c :: rest =>
      rw [hnodes] at hall hnodup
      have ha := hall a (by simp)
      have hc := hall c (by simp)
      rw [ha, hc] at hnodup
      simp at hnodup
  | some k =>
    have hk := List.mem_of_find?_eq_some hf
    have hne : k ≠ n := by simpa using List.find?_some hf
    exact ⟨((h.nodes k).mp hk).resolve_right hne, hne⟩

/-- With another number of nodes than two, the new node makes no difference to any peer: it was
there already, or there were two others. -/
theorem Joins.other_before (h : Joins board rt src n S S') (hS : S.nodes ≠ [])
    (hlen : S'.nodes.length ≠ 2) (X : String) : Other rt X S ↔ Other rt X S' := by
  have hsub : ∀ k ∈ S.nodes, k ∈ S'.nodes := fun k hk => (h.nodes k).mpr (Or.inl hk)
  refine ⟨fun hO => hO.mono hsub, ?_⟩
  intro hO
  by_cases hn : n ∈ S.nodes
  · refine hO.mono ?_
    intro k hk
    rcases (h.nodes k).mp hk with hk | rfl
    · exact hk
    · exact hn
  · have hperm : S'.nodes.Perm (n :: S.nodes) := by
      refine (List.perm_ext_iff_of_nodup S'.nodes_nodup
        (List.nodup_cons.mpr ⟨hn, S.nodes_nodup⟩)).mpr ?_
      intro k
      rw [h.nodes, List.mem_cons, or_comm]
    have hcount := hperm.length_eq
    have hpos := List.length_pos_of_ne_nil hS
    rw [List.length_cons] at hcount
    exact other_of_two h.peers (fun k hk => h.known k (hsub k hk)) (by omega) X

theorem Joins.hear_announce (h : Joins board rt src n S S') (hS : S.nodes ≠ [])
    (hX : X ≠ board.NODE_ID) (f : Filter) (args : SubscriptionArguments) (who : ActorIdentifier)
    {b : Bool} (hb : b = true ↔ Other rt X S) :
    (announceJoin board rt S' f args who src n).foldl (hear X) b = true ↔ Other rt X S' := by
  classical
  have hlen := other_of_two h.peers h.known (X := X)
  unfold announceJoin
  split
  · rename_i htwo
    have hother : Other rt X S' := hlen (by omega)
    have hmem := (h.find_other htwo).1
    simp only [List.foldl_cons, List.foldl_nil, hear_added]
    refine iff_of_true ?_ hother
    split
    · rfl
    · rename_i hreach
      refine hb.mpr ⟨_, hmem, ?_⟩
      intro heq
      exact hreach ⟨Or.inr heq, Or.inl rfl⟩
  · rename_i htwo
    split
    · simp only [List.foldl_cons, List.foldl_nil, hear_added, h.other, reaches_excludeFor h.fresh
        hX, ← hb]
      split
      · simp [*]
      · rename_i hsrc
        simp [hsrc]
    · have hbefore := h.other_before hS htwo X
      split
      · rename_i hsrc
        have hother : Other rt X S' := h.other.mpr (Or.inr (by rw [hsrc]; exact hX.symm))
        simp only [List.foldl_cons, List.foldl_nil, hear_added]
        refine iff_of_true ?_ hother
        split
        · rfl
        · exact hb.mpr (hbefore.mpr hother)
      · exact hb.trans hbefore

/-! ## A node leaves -/

theorem hear_announceLeave (h : PeersInv board rt) (hnamed : Named board rt)
    (hX : X ≠ board.NODE_ID) (hknown : ∀ k ∈ S.nodes, k ∈ rt.peer_node_ids.map Prod.snd)
    (hne : S'.nodes ≠ []) (hsub : ∀ k ∈ S'.nodes, k ∈ S.nodes) {b : Bool}
    (hb : b = true ↔ Other rt X S) :
    (announceLeave board rt S').foldl (hear X) b = true ↔ Other rt X S' := by
  classical
  have hknown' : ∀ k ∈ S'.nodes, k ∈ rt.peer_node_ids.map Prod.snd := fun k hk =>
    hknown k (hsub k hk)
  have hself : rt.nodeName 1 = board.NODE_ID := h.nodeName_eq h.self
  unfold announceLeave
  split
  · rename_i k hnodes
    have hk : k ∈ S'.nodes := by rw [hnodes]; simp
    have hone : Other rt X S' ↔ rt.nodeName k ≠ X := by
      unfold Other
      simp [hnodes]
    split
    · rename_i hk1
      have hname : rt.nodeName k ≠ "" := by
        have hmem := Assoc.mem_of_find (h.find_nodeName (hknown' k hk))
        refine (hnamed _ hmem).resolve_left ?_
        intro hnode
        refine hk1 (h.nodeName_inj (hknown' k hk) ?_ (hnode.trans hself.symm))
        exact List.mem_map.mpr ⟨_, Assoc.mem_of_find h.self, rfl⟩
      have hreach : reaches X "" (rt.nodeName k) ↔ rt.nodeName k = X := by
        unfold reaches
        simp [hname]
      simp only [List.foldl_cons, List.foldl_nil, hear_removed, hone, hreach]
      split
      · rename_i heq
        simp [heq]
      · rename_i hneX
        refine iff_of_true ?_ hneX
        exact hb.mpr ⟨k, hsub k hk, hneX⟩
    · rename_i hk1
      rw [not_not] at hk1
      have hother : Other rt X S' := by
        rw [hone, hk1, hself]
        exact hX.symm
      exact iff_of_true (hb.mpr (hother.mono hsub)) hother
  · rename_i hlen
    have htwo : 2 ≤ S'.nodes.length := by
      match hnodes : S'.nodes with
      | [] => exact absurd hnodes hne
      | [k] => exact absurd hnodes (hlen k)
      | _ :: _ :: _ => simp
    have hother := other_of_two h hknown' htwo X
    exact iff_of_true (hb.mpr (hother.mono hsub)) hother

/-! ## One call -/

/-- A node other than `X` subscribes to the subscription `s`. -/
def Heard (rt : Router) (X : String) (s : Nat) : Prop :=
  ∃ S ∈ rt.subscriptions, S.subscription_id = s ∧ Other rt X S

theorem heard_iff (h : SubsInv rt) (hS : S ∈ rt.subscriptions) :
    Heard rt X S.subscription_id ↔ Other rt X S := by
  constructor
  · rintro ⟨T, hT, hid, hO⟩
    rwa [h.eq_of_id hT hS hid] at hO
  · exact fun hO => ⟨S, hS, rfl, hO⟩

theorem heard_internNode (h : PeersInv board rt) (src X : String) (s : Nat) :
    Heard (rt.internNode src).1 X s ↔ Heard rt X s := by
  unfold Heard
  rw [internNode_subscriptions]
  constructor
  · rintro ⟨T, hT, hid, hO⟩
    exact ⟨T, hT, hid, (other_internNode h hT src X).mp hO⟩
  · rintro ⟨T, hT, hid, hO⟩
    exact ⟨T, hT, hid, (other_internNode h hT src X).mpr hO⟩

theorem heard_setSub (hS : S ∈ rt.subscriptions) (hid : S'.subscription_id = S.subscription_id)
    (s : Nat) :
    Heard (rt.setSub S') X s ↔ if S.subscription_id = s then Other rt X S' else Heard rt X s := by
  unfold Heard
  simp only [mem_setSub hS hid]
  split
  · rename_i hs
    constructor
    · rintro ⟨T, ⟨-, hne⟩ | rfl, hT, hO⟩
      · exact absurd (hT.trans hs.symm) hne
      · exact hO
    · exact fun hO => ⟨S', Or.inr rfl, hid.trans hs, hO⟩
  · rename_i hs
    constructor
    · rintro ⟨T, ⟨hmem, -⟩ | rfl, hT, hO⟩
      · exact ⟨T, hmem, hT, hO⟩
      · exact absurd (hid.symm.trans hT) hs
    · rintro ⟨T, hmem, hT, hO⟩
      exact ⟨T, Or.inl ⟨hmem, fun heq => hs (heq.symm.trans hT)⟩, hT, hO⟩

theorem heard_eraseSubscription (S : Subscription) (X : String) (s : Nat) :
    Heard (rt.eraseSubscription S) X s ↔ s ≠ S.subscription_id ∧ Heard rt X s := by
  unfold Heard eraseSubscription
  simp only [List.mem_filter, decide_eq_true_eq]
  constructor
  · rintro ⟨T, ⟨hT, hne⟩, rfl, hO⟩
    exact ⟨hne, T, hT, rfl, hO⟩
  · rintro ⟨hne, T, hT, rfl, hO⟩
    exact ⟨T, ⟨hT, hne⟩, rfl, hO⟩

theorem heard_createSubscription (h : SubsInv rt) (f : Filter) (r n : Nat)
    (args : SubscriptionArguments) (X : String) (s : Nat) :
    Heard (rt.createSubscription f r n args) X s ↔
      if rt.next_sub_id = s then rt.nodeName n ≠ X else Heard rt X s := by
  have hone : ∀ F, Other rt X ⟨rt.next_sub_id, F, args, [(r, [n])]⟩ ↔ rt.nodeName n ≠ X := by
    intro F
    simp [Other, Subscription.nodes]
  have hlt : ∀ T ∈ rt.subscriptions, T.subscription_id ≠ rt.next_sub_id := by
    intro T hT
    have := (h.ids T hT).2
    omega
  unfold Heard createSubscription
  simp only [List.mem_append, List.mem_singleton]
  by_cases hs : rt.next_sub_id = s
  · rw [if_pos hs]
    constructor
    · rintro ⟨T, hT | rfl, hid, hO⟩
      · exact absurd (hid.trans hs.symm) (hlt T hT)
      · exact (hone _).mp hO
    · exact fun hX => ⟨_, Or.inr rfl, hs, (hone _).mpr hX⟩
  · rw [if_neg hs]
    constructor
    · rintro ⟨T, hT | rfl, hid, hO⟩
      · exact ⟨T, hT, hid, hO⟩
      · exact absurd hid hs
    · rintro ⟨T, hT, hid, hO⟩
      exact ⟨T, Or.inl hT, hid, hO⟩

/-- A call of the two announcing policies whose source has a name. -/
def Op.Sourced (board : Board) : Op → Prop
  | .add _ _ _ src args => args.fetch_policy ≠ .FETCH ∧ (src = board.NODE_ID ∨ src ≠ "")
  | .remove .. => True

theorem Named.internNode (h : Named board rt) (hsrc : src = board.NODE_ID ∨ src ≠ "") :
    Named board (rt.internNode src).1 := by
  unfold Named
  rcases peers_internNode rt src with hp | ⟨hp, -⟩
  · rw [hp]
    exact h
  · rw [hp]
    intro e he
    rcases List.mem_append.mp he with he | he
    · exact h e he
    · rw [List.mem_singleton] at he
      rw [he]
      exact hsrc

theorem Named.step {op : Op} (h : Named board rt) (hop : op.Sourced board) :
    Named board (rt.step board op).1 := by
  have hstep := step_cases board rt op
  generalize rt.step board op = out at hstep
  cases hstep with
  | fetch | unknown | erase | leave => exact h
  | join | create => exact h.internNode hop.2

theorem heard_step_frame {op : Op} (h : Inv board rt) (hop : op.Sourced board) {s : Nat}
    (hs : op.subject (rt.step board op) ≠ s) : Heard (rt.step board op).1 X s ↔ Heard rt X s := by
  have hstep := step_cases board rt op
  generalize rt.step board op = out at hstep hs
  cases hstep with
  | fetch f r who src args hf => exact absurd hf hop.1
  | unknown => rfl
  | join f r who src args sub hf hsub =>
    have hmem : sub ∈ (rt.internNode src).1.subscriptions := by
      rw [internNode_subscriptions]
      exact (mem_of_findEqual hsub).1
    have hid : sub.subscription_id ≠ s := hs
    rw [heard_setSub hmem (Subscription.addReceiver_id sub r _), if_neg hid,
      heard_internNode h.peers]
  | create f r who src args hf hsub =>
    have hid : rt.next_sub_id ≠ s := hs
    rw [heard_createSubscription (h.subs.internNode src), internNode_next_sub_id, if_neg hid,
      heard_internNode h.peers]
  | erase sub_id r node_id sub hsub hempty =>
    obtain ⟨-, rfl⟩ := mem_of_findSub hsub
    have hid : s ≠ sub.subscription_id := Ne.symm hs
    rw [heard_eraseSubscription, (Subscription.removeReceiver_rest _ _ _).1]
    simp [hid]
  | leave sub_id r node_id sub hsub hempty =>
    obtain ⟨hmem, rfl⟩ := mem_of_findSub hsub
    have hid : sub.subscription_id ≠ s := hs
    rw [heard_setSub hmem (Subscription.removeReceiver_rest _ _ _).1, if_neg hid]

/-- What `X` has been told about the subscription of the call stays right. -/
theorem heard_step {op : Op} (h : Inv board rt) (hnamed : Named board rt) (hop : op.Sourced board)
    (hX : X ≠ board.NODE_ID) {b : Bool}
    (hb : b = true ↔ Heard rt X (op.subject (rt.step board op))) :
    (rt.step board op).2.2.foldl (hear X) b = true ↔
      Heard (rt.step board op).1 X (op.subject (rt.step board op)) := by
  classical
  have hstep := step_cases board rt op
  generalize rt.step board op = out at hstep hb
  cases hstep with
  | fetch f r who src args hf => exact absurd hf hop.1
  | unknown sub_id r node_id hsub => exact hb
  | join f r who src args sub hf hsub =>
    have hmem := (mem_of_findEqual hsub).1
    have hwf := h.subs.wf sub hmem
    have hi := h.peers.internNode src
    have hmemi : sub ∈ (rt.internNode src).1.subscriptions := by rwa [internNode_subscriptions]
    change b = true ↔ Heard rt X sub.subscription_id at hb
    rw [heard_iff h.subs hmem, ← other_internNode h.peers hmem src] at hb
    dsimp only [Op.subject]
    rw [heard_setSub hmemi (Subscription.addReceiver_id sub r _), if_pos rfl, List.foldl_append,
      hear_replies]
    have hnodes := Subscription.mem_nodes_addReceiver hwf r (rt.internNode src).2
    by_cases hflag : (sub.addReceiver r (rt.internNode src).2).2 = true
    · rw [if_pos hflag]
      refine Joins.hear_announce ⟨hi, h.peers.nodeName_self src, hop.2, ?_, hnodes⟩ hwf.nodes_ne hX
        f args who hb
      intro k hk
      rcases (hnodes k).mp hk with hk | rfl
      · exact hi.known sub hmemi k hk
      · exact internNode_known rt src
    · rw [if_neg hflag]
      rw [Subscription.addReceiver_flag, not_not] at hflag
      refine hb.trans ⟨fun hO => hO.mono fun k hk => (hnodes k).mpr (Or.inl hk), fun hO =>
        hO.mono ?_⟩
      intro k hk
      rcases (hnodes k).mp hk with hk | rfl
      · exact hk
      · exact (hwf.mem_nodes _).mpr ⟨r, hflag⟩
  | create f r who src args hf hsub =>
    dsimp only [Op.subject] at hb ⊢
    have hfresh : b = false := by
      rw [Bool.eq_false_iff, ne_eq, hb]
      rintro ⟨T, hT, hid, -⟩
      have := (h.subs.ids T hT).2
      omega
    rw [heard_createSubscription (h.subs.internNode src), internNode_next_sub_id, if_pos rfl,
      h.peers.nodeName_self, List.foldl_append, hear_replies, List.foldl_cons, List.foldl_nil,
      hear_added, hfresh]
    simp only [reaches_excludeFor hop.2 hX]
    split <;> simp_all
  | erase sub_id r node_id sub hsub hempty =>
    obtain ⟨hmem, hid⟩ := mem_of_findSub hsub
    have hreach : reaches X "" "" := ⟨Or.inl rfl, Or.inl rfl⟩
    rw [heard_eraseSubscription, (Subscription.removeReceiver_rest _ _ _).1]
    simp [hear_removed, hreach, hid, Op.subject]
  | leave sub_id r node_id sub hsub hempty =>
    obtain ⟨hmem, rfl⟩ := mem_of_findSub hsub
    have hwf := h.subs.wf sub hmem
    have hne := receivers_ne_of_flag hwf hempty
    dsimp only [Op.subject] at hb ⊢
    rw [heard_setSub hmem (Subscription.removeReceiver_rest _ _ _).1, if_pos rfl]
    exact hear_announceLeave h.peers hnamed hX (h.peers.known sub hmem)
      (Subscription.removeReceiver_wf hwf _ _ hne).nodes_ne
      (fun k hk => mem_nodes_removeReceiver hwf hne hk) (hb.trans (heard_iff h.subs hmem))

/-! ## Every run -/

theorem named_run {ops : List Op} (hops : ∀ op ∈ ops, op.Sourced board) :
    Named board (run board ops) := by
  induction ops using List.reverseRecOn with
  | nil => simp [Named, run, init]
  | append_singleton ops op ih =>
    rw [run_snoc]
    exact (ih fun o ho => hops o (List.mem_append_left _ ho)).step (hops op (by simp))

theorem told_run {ops : List Op} (hops : ∀ op ∈ ops, op.Sourced board) (hX : X ≠ board.NODE_ID)
    (s : Nat) :
    told board X s ops = true ↔ Heard (run board ops) X s := by
  induction ops using List.reverseRecOn generalizing s with
  | nil => simp [told, updates, Heard, run, init]
  | append_singleton ops op ih =>
    have hops' : ∀ o ∈ ops, o.Sourced board := fun o ho => hops o (List.mem_append_left _ ho)
    have hop := hops op (by simp)
    have hinv := inv_run board ops
    rw [told_snoc, run_snoc]
    split
    · rename_i hs
      rw [← hs]
      exact heard_step hinv (named_run hops') hop hX (ih hops' _)
    · rename_i hs
      rw [heard_step_frame hinv hop hs]
      exact ih hops' s

/-! ## Snapshots -/

instance (rt : Router) (X : String) (S : Subscription) : Decidable (Other rt X S) :=
  inferInstanceAs (Decidable (∃ n ∈ S.nodes, rt.nodeName n ≠ X))

/-- The entries of some lists, without their numbers. -/
def entries (lists : List Map) : List Variant := lists.flatMap fun m => m.map Prod.snd

variable {σ : Type}

/-- One entry for each of the subscriptions, with the filter that the chain made of it. -/
def snapshot (board : Board) (chain : σ → Filter → SubscriptionArguments → σ × Filter × Bool) :
    σ → List Subscription → List Variant
  | _, [] => []
  | st, S :: subs =>
    .map [("subscription", .map (chain st S.filter.toFilter S.arguments).2.1.toPublicationMap),
      ("subscription_arguments", .map S.arguments.toMap),
      ("subscriber", .map (ActorIdentifier.toPublicationMap ⟨board.NODE_ID, "replay", "1"⟩))] ::
    snapshot board chain (chain st S.filter.toFilter S.arguments).1 subs

/-- The entries of a list are numbered from 0 on. -/
def Numbered (m : Map) : Prop := Assoc.keys m = (List.range m.length).map toString

theorem Numbered.setAttr {m : Map} (h : Numbered m) (v : Variant) :
    m.setAttr (toString m.length) v = m ++ [(toString m.length, v)] ∧
      Numbered (m.setAttr (toString m.length) v) := by
  have habs : toString m.length ∉ Assoc.keys m := by
    rw [h]
    intro hmem
    obtain ⟨i, hi, heq⟩ := List.mem_map.mp hmem
    have hlen : i = m.length := Assoc.toString_injective heq
    have := List.mem_range.mp hi
    omega
  have happ : m.setAttr (toString m.length) v = m ++ [(toString m.length, v)] :=
    Assoc.put_of_absent habs v
  refine ⟨happ, ?_⟩
  unfold Numbered at h ⊢
  rw [happ, List.length_append, List.length_singleton, List.range_succ, List.map_append, ← h]
  simp [Assoc.keys]

/-- The description of a subscription in a snapshot. -/
def replay (board : Board) (f : Filter) (args : SubscriptionArguments) : Map :=
  [("subscription", .map f.toPublicationMap), ("subscription_arguments", .map args.toMap),
    ("subscriber", .map (ActorIdentifier.toPublicationMap ⟨board.NODE_ID, "replay", "1"⟩))]

/-- The entries for the subscriptions that the chain keeps, and its state then. -/
def listing (board : Board) (chain : σ → Filter → SubscriptionArguments → σ × Filter × Bool) :
    σ → List Subscription → σ × List Variant
  | st, [] => (st, [])
  | st, S :: subs =>
    let processed := chain st S.filter.toFilter S.arguments
    let rest := listing board chain processed.1 subs
    (rest.1,
      if processed.2.2 then rest.2
      else .map (replay board processed.2.1 S.arguments) :: rest.2)

theorem listing_of_keep {chain : σ → Filter → SubscriptionArguments → σ × Filter × Bool}
    (hkeep : ∀ st f args, (chain st f args).2.2 = false) (st : σ) (subs : List Subscription) :
    (listing board chain st subs).2 = snapshot board chain st subs := by
  induction subs generalizing st with
  | nil => rfl
  | cons S subs ih =>
    unfold listing snapshot
    dsimp only
    rw [if_neg (by simp [hkeep]), ih]
    rfl

/-- What the loop adds does not depend on where a list ends. -/
theorem listSubscriptions_listing (chain : σ → Filter → SubscriptionArguments → σ × Filter × Bool)
    (num_subs node : Nat) (subs : List Subscription) (st : σ) {full : List Map} {back : Map}
    (hfull : ∀ m ∈ full, Numbered m) (hback : Numbered back) :
    (listSubscriptions board chain num_subs node subs st full back).1 =
      (listing board chain st (subs.filter fun S => 2 ≤ S.nodes.length ∨ node ∉ S.nodes)).1 ∧
    entries (listSubscriptions board chain num_subs node subs st full back).2 =
      entries (full ++ [back]) ++
        (listing board chain st (subs.filter fun S => 2 ≤ S.nodes.length ∨ node ∉ S.nodes)).2 ∧
    ∀ m ∈ (listSubscriptions board chain num_subs node subs st full back).2, Numbered m := by
  induction subs generalizing st full back with
  | nil => exact ⟨rfl, by simp [listSubscriptions,
      listing], List.forall_mem_append.mpr ⟨hfull, by simpa using hback⟩⟩
  | cons S subs ih =>
    have hnil : Numbered [] := rfl
    unfold listSubscriptions
    by_cases hS : 2 ≤ S.nodes.length ∨ node ∉ S.nodes
    · rw [if_pos hS, List.filter_cons_of_pos (by simpa using hS)]
      unfold listing
      dsimp only
      generalize chain st S.filter.toFilter S.arguments = processed
      by_cases hdrop : processed.2.2 = true
      · rw [if_pos hdrop, if_pos hdrop]
        exact ih _ hfull hback
      · rw [if_neg hdrop, if_neg hdrop]
        split
        · have hnew : ∀ v, Numbered (Map.setAttr [] (toString 0) v) := fun v => (hnil.setAttr v).2
          have hsnoc : ∀ m ∈ full ++ [back], Numbered m :=
            List.forall_mem_append.mpr ⟨hfull, by simpa using hback⟩
          obtain ⟨hst, hentries, hall⟩ :=
            ih processed.1 hsnoc (hnew (.map (replay board processed.2.1 S.arguments)))
          refine ⟨hst, hentries.trans ?_, hall⟩
          simp [entries, Map.setAttr, Assoc.put]
        · obtain ⟨happ, hnew⟩ := hback.setAttr (.map (replay board processed.2.1 S.arguments))
          obtain ⟨hst, hentries, hall⟩ := ih processed.1 hfull hnew
          refine ⟨hst, hentries.trans ?_, hall⟩
          rw [happ]
          simp [entries]
    · rw [if_neg hS, List.filter_cons_of_neg (by simpa using hS)]
      exact ih st hfull hback

theorem other_iff_listed (h : PeersInv board rt) (hS : S ∈ rt.subscriptions) (hwf : S.Wf)
    (X : String) :
    Other rt X S ↔ 2 ≤ S.nodes.length ∨ (rt.internNode X).2 ∉ S.nodes := by
  rw [← other_internNode h hS X]
  have hi := h.internNode X
  have hname := h.nodeName_self X
  have hknown : ∀ k ∈ S.nodes, k ∈ (rt.internNode X).1.peer_node_ids.map Prod.snd :=
    hi.known S (by rwa [internNode_subscriptions])
  constructor
  · rintro ⟨k, hk, hX⟩
    by_cases hmem : (rt.internNode X).2 ∈ S.nodes
    · left
      match hnodes : S.nodes with
      | [] => rw [hnodes] at hk; simp at hk
      | [a] =>
        rw [hnodes, List.mem_singleton] at hk hmem
        rw [hk, ← hmem] at hX
        exact absurd hname hX
      | _ :: _ :: _ => simp
    · exact Or.inr hmem
  · rintro (hlen | hmem)
    · exact other_of_two hi hknown hlen X
    · obtain ⟨k, hk⟩ := List.exists_mem_of_ne_nil _ hwf.nodes_ne
      refine ⟨k, hk, ?_⟩
      intro hX
      have := hi.nodeName_inj (hknown k hk) (internNode_known rt X) (hX.trans hname.symm)
      exact hmem (this ▸ hk)

/-- A snapshot for `X` lists what others than `X` subscribe to. -/
theorem subscriptionListsFor_listing (h : Inv board rt)
    (chain : σ → Filter → SubscriptionArguments → σ × Filter × Bool) (X : String) (st : σ)
    (num_subs : Nat) :
    (rt.subscriptionListsFor board X chain st num_subs).2.1 =
      (listing board chain st (rt.subscriptions.filter fun S => Other rt X S)).1 ∧
    entries (rt.subscriptionListsFor board X chain st num_subs).2.2 =
      (listing board chain st (rt.subscriptions.filter fun S => Other rt X S)).2 ∧
    ∀ m ∈ (rt.subscriptionListsFor board X chain st num_subs).2.2, Numbered m := by
  have hfilter : (rt.subscriptions.filter fun S => Other rt X S) =
      rt.subscriptions.filter fun S => 2 ≤ S.nodes.length ∨ (rt.internNode X).2 ∉ S.nodes := by
    apply List.filter_congr
    intro S hS
    simp only [other_iff_listed h.peers hS (h.subs.wf S hS)]
  rw [hfilter]
  exact listSubscriptions_listing chain num_subs _ _ st (by simp) (show Numbered [] from rfl)

theorem entries_subscriptionListsFor (h : Inv board rt)
    {chain : σ → Filter → SubscriptionArguments → σ × Filter × Bool}
    (hkeep : ∀ st f args, (chain st f args).2.2 = false) (X : String) (st : σ) (num_subs : Nat) :
    entries (rt.subscriptionListsFor board X chain st num_subs).2.2 =
      snapshot board chain st (rt.subscriptions.filter fun S => Other rt X S) := by
  rw [(subscriptionListsFor_listing h chain X st num_subs).2.1, listing_of_keep hkeep]

/-! ## Reflection -/

/-- What a peer is told and what a snapshot lists for it are the subscriptions of other nodes. -/
theorem announcements_and_snapshots_agree (board : Board) (ops : List Op)
    (hops : ∀ op ∈ ops, op.Sourced board) (X : String) (hX : X ≠ board.NODE_ID) :
    (∀ s, told board X s ops = true ↔
      ∃ S ∈ (run board ops).subscriptions, S.subscription_id = s ∧ Other (run board ops) X S) ∧
    ∀ (σ : Type) (chain : σ → Filter → SubscriptionArguments → σ × Filter × Bool) (st : σ)
    (num_subs : Nat),
      (∀ st f args, (chain st f args).2.2 = false) →
      entries ((run board ops).subscriptionListsFor board X chain st num_subs).2.2 =
        snapshot board chain st ((run board ops).subscriptions.filter fun S =>
          Other (run board ops) X S) := by
  refine ⟨fun s => told_run hops hX s, ?_⟩
  intro σ chain st num_subs hkeep
  exact entries_subscriptionListsFor (inv_run board ops) hkeep X st num_subs

/-- A peer joins a local subscription, and the local subscriber leaves. -/
theorem announcements_and_snapshots_agree_join :
    (told ⟨"node", 3⟩ "a" 11 [.add ⟨[.int "x" 1 .EQ false], []⟩ 1 ⟨"node", "t", "1"⟩
      "node" .default, .add ⟨[.int "x" 1 .EQ false], []⟩ 2 ⟨"a", "t", "1"⟩ "a" .default] = true) ∧
    told ⟨"node", 3⟩ "a" 11 [.add ⟨[.int "x" 1 .EQ false], []⟩ 1 ⟨"node", "t", "1"⟩ "node" .default,
      .add ⟨[.int "x" 1 .EQ false], []⟩ 2 ⟨"a", "t", "1"⟩ "a" .default, .remove 11 1 "node"] =
        false := by
  constructor
  · exact ((announcements_and_snapshots_agree ⟨"node", 3⟩ _ (by simp [Op.Sourced]; decide) "a"
      (by decide)).1 11).mpr (by decide)
  · rw [Bool.eq_false_iff]
    refine mt ((announcements_and_snapshots_agree ⟨"node", 3⟩ _ ?_ "a" (by decide)).1 11).mp ?_
    · simp [Op.Sourced]
      decide
    · decide

/-- An empty source is no address: the peer `""` hears of a subscription that only it holds. -/
theorem unnamed_peer_told_of_itself :
    told ⟨"node", 3⟩ "" 11 [.add ⟨[.int "x" 1 .EQ false], []⟩ 1 ⟨"", "t", "1"⟩ "" .default] = true ∧
    ¬ ∃ S ∈ (run ⟨"node", 3⟩ [.add ⟨[.int "x" 1 .EQ false], []⟩ 1 ⟨"", "t", "1"⟩
      "" .default]).subscriptions, S.subscription_id = 11 ∧
        Other (run ⟨"node", 3⟩ [.add ⟨[.int "x" 1 .EQ false], []⟩ 1 ⟨"", "t", "1"⟩ "" .default])
          "" S := by
  decide

end

end Router

end UActor
