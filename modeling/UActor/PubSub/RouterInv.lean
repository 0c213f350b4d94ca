import UActor.PubSub.Filing

/-!
# The state of the router

What one call can do, and what holds after any sequence of calls.
-/

namespace UActor

namespace Router

open Buckets (keys)

/-! ## One call -/

/-- The replies to a meta subscription. -/
def replies (board : Board) (rt : Router) (f : Filter) (args : SubscriptionArguments)
    (subscriber : ActorIdentifier) : List Publication :=
  if isFetchMetaSubscription f args then handleMetaSubscription board rt f subscriber else []

/-- The cases of a call: the state after it, its result and its announcements. -/
inductive Step (board : Board) (rt : Router) : Op → Router × Nat × List Publication → Prop
  | fetch (f : Filter) (r : Nat) (who : ActorIdentifier) (src : String)
      (args : SubscriptionArguments) (hf : args.fetch_policy = .FETCH) :
      Step board rt (.add f r who src args)
        (rt, 1, replies board rt f args who ++
          [publishSubscriptionAdded f args who (excludeFor board src) ""])
  | join (f : Filter) (r : Nat) (who : ActorIdentifier) (src : String)
      (args : SubscriptionArguments) (sub : Subscription) (hf : args.fetch_policy ≠ .FETCH)
      (hsub : rt.findEqual f args = some sub) :
      Step board rt (.add f r who src args)
        ((rt.internNode src).1.setSub (sub.addReceiver r (rt.internNode src).2).1,
          sub.subscription_id, replies board rt f args who ++
            if (sub.addReceiver r (rt.internNode src).2).2 then
              announceJoin board (rt.internNode src).1 (sub.addReceiver r (rt.internNode src).2).1 f
                args who src (rt.internNode src).2
            else [])
  | create (f : Filter) (r : Nat) (who : ActorIdentifier) (src : String)
      (args : SubscriptionArguments) (hf : args.fetch_policy ≠ .FETCH)
      (hsub : rt.findEqual f args = none) :
      Step board rt (.add f r who src args)
        ((rt.internNode src).1.createSubscription f r (rt.internNode src).2 args, rt.next_sub_id,
          replies board rt f args who ++
            [publishSubscriptionAdded f args who (excludeFor board src) ""])
  | unknown (sub_id r : Nat) (node_id : String) (hsub : rt.findSub sub_id = none) :
      Step board rt (.remove sub_id r node_id) (rt, 0, [])
  | erase (sub_id r : Nat) (node_id : String) (sub : Subscription)
      (hsub : rt.findSub sub_id = some sub)
      (hempty : (sub.removeReceiver r ((Assoc.find node_id rt.peer_node_ids).getD 0)).2.1 = true) :
      Step board rt (.remove sub_id r node_id)
        (rt.eraseSubscription (sub.removeReceiver r
          ((Assoc.find node_id rt.peer_node_ids).getD 0)).1,
          (sub.removeReceiver r ((Assoc.find node_id rt.peer_node_ids).getD 0)).2.2,
          [publishSubscriptionRemoved board sub.filter sub.arguments "" ""])
  | leave (sub_id r : Nat) (node_id : String) (sub : Subscription)
      (hsub : rt.findSub sub_id = some sub)
      (hempty : (sub.removeReceiver r ((Assoc.find node_id rt.peer_node_ids).getD 0)).2.1 = false) :
      Step board rt (.remove sub_id r node_id)
        (rt.setSub (sub.removeReceiver r ((Assoc.find node_id rt.peer_node_ids).getD 0)).1,
          (sub.removeReceiver r ((Assoc.find node_id rt.peer_node_ids).getD 0)).2.2,
          announceLeave board rt
            (sub.removeReceiver r ((Assoc.find node_id rt.peer_node_ids).getD 0)).1)

@[simp] theorem internNode_subscriptions (rt : Router) (node : String) :
    (rt.internNode node).1.subscriptions = rt.subscriptions := by
  unfold internNode; split <;> rfl

@[simp] theorem internNode_constraints (rt : Router) (node : String) :
    (rt.internNode node).1.constraints = rt.constraints := by
  unfold internNode; split <;> rfl

@[simp] theorem internNode_no_requirements (rt : Router) (node : String) :
    (rt.internNode node).1.no_requirements = rt.no_requirements := by
  unfold internNode; split <;> rfl

@[simp] theorem internNode_next_sub_id (rt : Router) (node : String) :
    (rt.internNode node).1.next_sub_id = rt.next_sub_id := by
  unfold internNode; split <;> rfl

theorem findEqual_internNode (rt : Router) (node : String) (f : Filter)
    (args : SubscriptionArguments) :
    (rt.internNode node).1.findEqual f args = rt.findEqual f args := by
  unfold findEqual
  rw [internNode_subscriptions]

theorem step_cases (board : Board) (rt : Router) (op : Op) :
    Step board rt op (rt.step board op) := by
  cases op with
  | add f r who src args =>
    unfold step addSubscription
    dsimp only
    split
    · rename_i hf
      exact .fetch f r who src args hf
    · rename_i hf
      rw [findEqual_internNode]
      cases hsub : rt.findEqual f args with
      | some sub => exact .join f r who src args sub hf hsub
      | none =>
        dsimp only
        rw [internNode_next_sub_id]
        exact .create f r who src args hf hsub
  | remove sub_id r node_id =>
    unfold step removeSubscription
    dsimp only
    cases hsub : rt.findSub sub_id with
    | none => exact .unknown sub_id r node_id hsub
    | some sub =>
      dsimp only
      by_cases hempty : (sub.removeReceiver r ((Assoc.find node_id rt.peer_node_ids).getD 0)).2.1 =
        true
      · rw [if_pos hempty]
        exact .erase sub_id r node_id sub hsub hempty
      · rw [if_neg hempty]
        exact .leave sub_id r node_id sub hsub (by simpa using hempty)

/-! ## Subscriptions -/

theorem peers_add (board : Board) (rt : Router) (f : Filter) (r : Nat) (who : ActorIdentifier)
    (src : String) {args : SubscriptionArguments} (hf : args.fetch_policy ≠ .FETCH) :
    (rt.step board (.add f r who src args)).1.peer_node_ids =
      (rt.internNode src).1.peer_node_ids := by
  have hstep := step_cases board rt (.add f r who src args)
  generalize rt.step board (.add f r who src args) = out at hstep
  cases hstep with
  | fetch _ _ _ _ _ hfetch => exact absurd hfetch hf
  | join => rfl
  | create => rfl

theorem receivers_ne_of_flag {S : Subscription} (h : S.Wf) {r k : Nat}
    (hflag : (S.removeReceiver r k).2.1 = false) : (S.removeReceiver r k).1.receivers ≠ [] := by
  intro hnil
  rw [(Subscription.removeReceiver_flag h r k).mpr hnil] at hflag
  exact absurd hflag (by simp)

structure SubsInv (rt : Router) : Prop where
  ids_nodup : (rt.subscriptions.map (·.subscription_id)).Nodup
  next_ge : 11 ≤ rt.next_sub_id
  ids : ∀ S ∈ rt.subscriptions, 11 ≤ S.subscription_id ∧ S.subscription_id < rt.next_sub_id
  wf : ∀ S ∈ rt.subscriptions, S.Wf

theorem SubsInv.eq_of_id {rt : Router} (h : SubsInv rt) {S T : Subscription}
    (hS : S ∈ rt.subscriptions) (hT : T ∈ rt.subscriptions)
    (hid : S.subscription_id = T.subscription_id) : S = T :=
  List.inj_on_of_nodup_map h.ids_nodup hS hT hid

theorem mem_of_findSub {rt : Router} {id : Nat} {S : Subscription} (h : rt.findSub id = some S) :
    S ∈ rt.subscriptions ∧ S.subscription_id = id :=
  ⟨List.mem_of_find?_eq_some h, by simpa using List.find?_some h⟩

theorem SubsInv.findSub_eq {rt : Router} (h : SubsInv rt) {S : Subscription}
    (hS : S ∈ rt.subscriptions) :
    rt.findSub S.subscription_id = some S := by
  cases hf : rt.findSub S.subscription_id with
  | none =>
    have := List.find?_eq_none.mp hf S hS
    simp at this
  | some T =>
    obtain ⟨hT, hid⟩ := mem_of_findSub hf
    rw [h.eq_of_id hT hS hid]

theorem mem_of_findEqual {rt : Router} {f : Filter} {args : SubscriptionArguments}
    {S : Subscription} (h : rt.findEqual f args = some S) :
    S ∈ rt.subscriptions ∧ S.filter.eqFilter f = true ∧ S.arguments = args := by
  have hp := List.find?_some h
  simp only [Bool.and_eq_true, beq_iff_eq] at hp
  exact ⟨List.mem_of_find?_eq_some h, hp.1, hp.2⟩

@[simp] theorem setSub_ids (rt : Router) (S' : Subscription) :
    (rt.setSub S').subscriptions.map (·.subscription_id) =
      rt.subscriptions.map (·.subscription_id) := by
  unfold setSub
  rw [List.map_map]
  apply List.map_congr_left
  intro T hT
  simp only [Function.comp_apply]
  split
  · rename_i h
    exact h.symm
  · rfl

theorem mem_setSub {rt : Router} {S S' : Subscription} (hS : S ∈ rt.subscriptions)
    (hid : S'.subscription_id = S.subscription_id) (T : Subscription) :
    T ∈ (rt.setSub S').subscriptions ↔
      (T ∈ rt.subscriptions ∧ T.subscription_id ≠ S.subscription_id) ∨ T = S' := by
  unfold setSub
  rw [List.mem_map]
  constructor
  · rintro ⟨T', hT', rfl⟩
    split
    · exact Or.inr rfl
    · rename_i h
      exact Or.inl ⟨hT', by rwa [← hid]⟩
  · rintro (⟨hT, hne⟩ | rfl)
    · exact ⟨T, hT, if_neg (by rwa [hid])⟩
    · exact ⟨S, hS, if_pos hid.symm⟩

theorem SubsInv.setSub {rt : Router} (h : SubsInv rt) {S S' : Subscription}
    (hS : S ∈ rt.subscriptions) (hid : S'.subscription_id = S.subscription_id) (hwf : S'.Wf) :
    SubsInv (rt.setSub S') := by
  refine ⟨by rw [setSub_ids]; exact h.ids_nodup, h.next_ge, ?_, ?_⟩
  · intro T hT
    rcases (mem_setSub hS hid T).mp hT with ⟨hT, -⟩ | rfl
    · exact h.ids T hT
    · rw [hid]
      exact h.ids S hS
  · intro T hT
    rcases (mem_setSub hS hid T).mp hT with ⟨hT, -⟩ | rfl
    · exact h.wf T hT
    · exact hwf

theorem SubsInv.internNode {rt : Router} (h : SubsInv rt) (node : String) :
    SubsInv (rt.internNode node).1 := by
  constructor
  · rw [internNode_subscriptions]; exact h.ids_nodup
  · rw [internNode_next_sub_id]; exact h.next_ge
  · rw [internNode_subscriptions, internNode_next_sub_id]; exact h.ids
  · rw [internNode_subscriptions]; exact h.wf

theorem new_wf (id : Nat) (f : InternalFilter) (args : SubscriptionArguments) (r n : Nat) :
    Subscription.Wf ⟨id, f, args, [(r, [n])]⟩ :=
  ⟨by simp [Assoc.keys], by simp, by simp, by simp⟩

theorem SubsInv.create {rt : Router} (h : SubsInv rt) (f : Filter) (r n : Nat)
    (args : SubscriptionArguments) :
    SubsInv (rt.createSubscription f r n args) := by
  unfold createSubscription
  refine ⟨?_, by dsimp only; have := h.next_ge; omega, ?_, ?_⟩
  · dsimp only
    rw [List.map_append, List.nodup_append]
    refine ⟨h.ids_nodup, by simp, ?_⟩
    intro i hi j hj hij
    obtain ⟨S, hS, rfl⟩ := List.mem_map.mp hi
    have hlt := (h.ids S hS).2
    simp only [List.map_cons, List.map_nil, List.mem_singleton] at hj
    omega
  · intro S hS
    have hge := h.next_ge
    rcases List.mem_append.mp hS with hS | hS
    · have := h.ids S hS
      dsimp only
      omega
    · rw [List.mem_singleton] at hS
      subst hS
      dsimp only
      omega
  · intro S hS
    rcases List.mem_append.mp hS with hS | hS
    · exact h.wf S hS
    · rw [List.mem_singleton] at hS
      subst hS
      exact new_wf _ _ _ _ _

theorem SubsInv.erase {rt : Router} (h : SubsInv rt) (S : Subscription) :
    SubsInv (rt.eraseSubscription S) := by
  unfold eraseSubscription
  refine ⟨h.ids_nodup.sublist (List.filter_sublist.map _), h.next_ge, ?_, ?_⟩
  · exact fun T hT => h.ids T (List.mem_of_mem_filter hT)
  · exact fun T hT => h.wf T (List.mem_of_mem_filter hT)

theorem SubsInv.step {rt : Router} (h : SubsInv rt) (board : Board) (op : Op) :
    SubsInv (rt.step board op).1 := by
  have hstep := step_cases board rt op
  generalize rt.step board op = out at hstep
  cases hstep with
  | fetch => exact h
  | unknown => exact h
  | join f r who src args sub hf hsub =>
    have hS := (mem_of_findEqual hsub).1
    exact (h.internNode src).setSub (S := sub) (by rwa [internNode_subscriptions]) rfl
      (Subscription.addReceiver_wf (h.wf sub hS) _ _)
  | create f r who src args hf hsub => exact (h.internNode src).create f r _ args
  | erase sub_id r node_id sub hsub hempty => exact h.erase _
  | leave sub_id r node_id sub hsub hempty =>
    obtain ⟨hS, -⟩ := mem_of_findSub hsub
    exact h.setSub hS (Subscription.removeReceiver_rest _ _ _).1
      (Subscription.removeReceiver_wf (h.wf sub hS) _ _ (receivers_ne_of_flag (h.wf sub hS) hempty))

/-! ## Peers -/

structure PeersInv (board : Board) (rt : Router) : Prop where
  names_nodup : (Assoc.keys rt.peer_node_ids).Nodup
  ids_nodup : (rt.peer_node_ids.map Prod.snd).Nodup
  bound : ∀ e ∈ rt.peer_node_ids, 1 ≤ e.2 ∧ e.2 < rt.next_node_id
  self : Assoc.find board.NODE_ID rt.peer_node_ids = some 1
  known : ∀ S ∈ rt.subscriptions, ∀ n ∈ S.nodes, n ∈ rt.peer_node_ids.map Prod.snd

theorem PeersInv.nodeName_eq {board : Board} {rt : Router} (h : PeersInv board rt) {name : String}
    {n : Nat} (hf : Assoc.find name rt.peer_node_ids = some n) : rt.nodeName n = name := by
  have hmem := Assoc.mem_of_find hf
  unfold nodeName
  cases hn : rt.peer_node_ids.find? fun e => e.2 = n with
  | none =>
    have := List.find?_eq_none.mp hn _ hmem
    simp at this
  | some e =>
    have he := List.mem_of_find?_eq_some hn
    have hen : e.2 = n := by simpa using List.find?_some hn
    have := List.inj_on_of_nodup_map h.ids_nodup he hmem hen
    rw [this]
    rfl

theorem PeersInv.find_nodeName {board : Board} {rt : Router} (h : PeersInv board rt) {n : Nat}
    (hn : n ∈ rt.peer_node_ids.map Prod.snd) :
    Assoc.find (rt.nodeName n) rt.peer_node_ids = some n := by
  obtain ⟨⟨name, n'⟩, he, rfl⟩ := List.mem_map.mp hn
  have hf := Assoc.find_of_mem h.names_nodup he
  rw [h.nodeName_eq hf]
  exact hf

theorem find_internNode (rt : Router) (node name : String) :
    Assoc.find name (rt.internNode node).1.peer_node_ids =
      if node = name then some (rt.internNode node).2 else Assoc.find name rt.peer_node_ids := by
  unfold internNode
  split
  · rename_i n hn
    split
    · rename_i h
      rw [← h, hn]
    · rfl
  · exact Assoc.find_put name node _ _

theorem find_internNode_of_some {rt : Router} {name : String} {n : Nat}
    (h : Assoc.find name rt.peer_node_ids = some n) (node : String) :
    Assoc.find name (rt.internNode node).1.peer_node_ids = some n := by
  rw [find_internNode]
  split
  · rename_i hnode
    subst hnode
    unfold internNode
    rw [h]
  · exact h

theorem peers_internNode (rt : Router) (node : String) :
    (rt.internNode node).1.peer_node_ids = rt.peer_node_ids ∨
    ((rt.internNode node).1.peer_node_ids = rt.peer_node_ids ++ [(node, rt.next_node_id)] ∧
      node ∉ Assoc.keys rt.peer_node_ids) := by
  unfold internNode
  split
  · exact Or.inl rfl
  · rename_i hnone
    have habs := Assoc.find_eq_none.mp hnone
    exact Or.inr ⟨Assoc.put_of_absent habs _, habs⟩

theorem next_node_internNode (rt : Router) (node : String) :
    (rt.internNode node).1.next_node_id = rt.next_node_id + 1 := by
  unfold internNode
  split <;> rfl

theorem PeersInv.internNode {board : Board} {rt : Router} (h : PeersInv board rt) (node : String) :
    PeersInv board (rt.internNode node).1 := by
  have hnext := next_node_internNode rt node
  have hself := find_internNode_of_some h.self node
  rcases peers_internNode rt node with hp | ⟨hp, habs⟩
  · rw [hp] at hself
    refine ⟨by rw [hp]; exact h.names_nodup, by rw [hp]; exact h.ids_nodup, ?_, by rw [hp]; exact hself, ?_⟩
    · rw [hp, hnext]
      intro e he
      have := h.bound e he
      omega
    · rw [hp, internNode_subscriptions]
      exact h.known
  · refine ⟨?_, ?_, ?_, hself, ?_⟩
    · rw [hp, Assoc.keys, List.map_append]
      refine List.nodup_append.mpr ⟨h.names_nodup, by simp, ?_⟩
      intro a ha b hb hab
      obtain rfl : b = node := by simpa using hb
      exact habs (hab ▸ ha)
    · rw [hp, List.map_append]
      refine List.nodup_append.mpr ⟨h.ids_nodup, by simp, ?_⟩
      intro a ha b hb hab
      obtain ⟨e, he, rfl⟩ := List.mem_map.mp ha
      have hlt := (h.bound e he).2
      simp only [List.map_cons, List.map_nil, List.mem_singleton] at hb
      omega
    · rw [hp, hnext]
      intro e he
      rcases List.mem_append.mp he with he | he
      · have := h.bound e he
        omega
      · rw [List.mem_singleton] at he
        subst he
        have := (h.bound _ (Assoc.mem_of_find h.self)).2
        dsimp only
        omega
    · rw [hp, internNode_subscriptions, List.map_append]
      exact fun S hS n hn => List.mem_append_left _ (h.known S hS n hn)

theorem internNode_known (rt : Router) (node : String) :
    (rt.internNode node).2 ∈ (rt.internNode node).1.peer_node_ids.map Prod.snd := by
  have hf := find_internNode rt node node
  rw [if_pos rfl] at hf
  exact List.mem_map.mpr ⟨_, Assoc.mem_of_find hf, rfl⟩

theorem PeersInv.of_subscriptions {board : Board} {rt rt' : Router} (h : PeersInv board rt)
    (hp : rt'.peer_node_ids = rt.peer_node_ids) (hn : rt'.next_node_id = rt.next_node_id)
    (hk : ∀ S ∈ rt'.subscriptions, ∀ n ∈ S.nodes, n ∈ rt.peer_node_ids.map Prod.snd) :
    PeersInv board rt' := by
  refine ⟨?_, ?_, ?_, ?_, ?_⟩
  · rw [hp]; exact h.names_nodup
  · rw [hp]; exact h.ids_nodup
  · rw [hp, hn]; exact h.bound
  · rw [hp]; exact h.self
  · rw [hp]; exact hk

theorem mem_nodes_removeReceiver {S : Subscription} (h : S.Wf) {r k n : Nat}
    (hne : (S.removeReceiver r k).1.receivers ≠ []) (hn : n ∈ (S.removeReceiver r k).1.nodes) :
    n ∈ S.nodes := by
  rw [(Subscription.removeReceiver_wf h r k hne).mem_nodes] at hn
  obtain ⟨r', hn⟩ := hn
  rw [Subscription.nodesOf_removeReceiver] at hn
  rw [h.mem_nodes]
  split at hn
  · split at hn
    · simp at hn
    · exact ⟨r, List.mem_of_mem_erase hn⟩
  · exact ⟨r', hn⟩

theorem PeersInv.step {board : Board} {rt : Router} (h : PeersInv board rt) (hs : SubsInv rt)
    (op : Op) :
    PeersInv board (rt.step board op).1 := by
  have hstep := step_cases board rt op
  generalize rt.step board op = out at hstep
  cases hstep with
  | fetch => exact h
  | unknown => exact h
  | join f r who src args sub hf hsub =>
    have hS := (mem_of_findEqual hsub).1
    have hi := h.internNode src
    have hSi : sub ∈ (rt.internNode src).1.subscriptions := by rwa [internNode_subscriptions]
    refine hi.of_subscriptions rfl rfl ?_
    intro T hT n hn
    rcases (mem_setSub hSi (Subscription.addReceiver_id sub r _) T).mp hT with ⟨hT, -⟩ | rfl
    · exact hi.known T hT n hn
    · rcases (Subscription.mem_nodes_addReceiver (hs.wf sub hS) _ _ n).mp hn with hn | rfl
      · exact hi.known sub hSi n hn
      · exact internNode_known rt src
  | create f r who src args hf hsub =>
    have hi := h.internNode src
    refine hi.of_subscriptions rfl rfl ?_
    intro T hT n hn
    rcases List.mem_append.mp hT with hT | hT
    · exact hi.known T hT n hn
    · rw [List.mem_singleton] at hT
      subst hT
      have : n = (rt.internNode src).2 := by simpa [Subscription.nodes] using hn
      rw [this]
      exact internNode_known rt src
  | erase sub_id r node_id sub hsub hempty =>
    exact h.of_subscriptions rfl rfl fun T hT n hn => h.known T (List.mem_of_mem_filter hT) n hn
  | leave sub_id r node_id sub hsub hempty =>
    obtain ⟨hS, -⟩ := mem_of_findSub hsub
    refine h.of_subscriptions rfl rfl ?_
    intro T hT n hn
    rcases (mem_setSub hS (Subscription.removeReceiver_rest _ _ _).1 T).mp hT with ⟨hT, -⟩ | rfl
    · exact h.known T hT n hn
    · exact h.known sub hS n
        (mem_nodes_removeReceiver (hs.wf sub hS) (receivers_ne_of_flag (hs.wf sub hS) hempty) hn)

/-! ## Every run -/

/-- What holds after any calls. -/
structure Inv (board : Board) (rt : Router) : Prop where
  subs : SubsInv rt
  peers : PeersInv board rt
  sound : Sound rt.constraints

theorem inv_init (board : Board) : Inv board (init board) := by
  refine ⟨⟨?_, ?_, ?_, ?_⟩, ⟨?_, ?_, ?_, ?_, ?_⟩, sound_nil⟩ <;> simp [init, Assoc.keys, Assoc.find]

theorem Inv.step {board : Board} {rt : Router} (h : Inv board rt) (op : Op) :
    Inv board (rt.step board op).1 := by
  refine ⟨h.subs.step board op, h.peers.step h.subs op, ?_⟩
  have hstep := step_cases board rt op
  generalize rt.step board op = out at hstep
  cases hstep with
  | fetch | unknown | leave => exact h.sound
  | join f r who src args sub hf hsub =>
    have : (rt.internNode src).1.constraints = rt.constraints := internNode_constraints rt src
    unfold Router.setSub
    dsimp only
    rw [this]
    exact h.sound
  | create f r who src args hf hsub =>
    unfold createSubscription
    dsimp only
    rw [internNode_constraints]
    exact sound_fileConstraints _ _ _ (sound_fileConstraints _ _ _ h.sound)
  | erase sub_id r node_id sub hsub hempty =>
    exact sound_dropConstraints _ _ (sound_dropConstraints _ _ h.sound)

theorem Inv.internNode {board : Board} {rt : Router} (h : Inv board rt) (node : String) :
    Inv board (rt.internNode node).1 :=
  ⟨h.subs.internNode node, h.peers.internNode node, by rw [internNode_constraints]; exact h.sound⟩

theorem inv_run (board : Board) (ops : List Op) : Inv board (run board ops) := by
  induction ops using List.reverseRecOn with
  | nil => exact inv_init board
  | append_singleton ops op ih =>
    rw [run_snoc]
    exact ih.step op

theorem step_subscription {board : Board} {rt : Router} {op : Op} {T : Subscription}
    (hT : T ∈ (rt.step board op).1.subscriptions) :
    (∃ S ∈ rt.subscriptions, T.subscription_id = S.subscription_id ∧ T.filter = S.filter ∧
      T.arguments = S.arguments) ∨
    ∃ f r who src args, op = .add f r who src args ∧ args.fetch_policy ≠ .FETCH ∧
      rt.findEqual f args = none ∧ (rt.step board op).2.1 = rt.next_sub_id ∧
      T = ⟨rt.next_sub_id, ⟨(fileConstraints rt.next_sub_id false f.required rt.constraints).2,
        (fileConstraints rt.next_sub_id true f.optional
          (fileConstraints rt.next_sub_id false f.required rt.constraints).1).2⟩, args,
        [(r, [(rt.internNode src).2])]⟩ := by
  have hstep := step_cases board rt op
  generalize rt.step board op = out at hstep hT
  cases hstep with
  | fetch | unknown => exact Or.inl ⟨T, hT, rfl, rfl, rfl⟩
  | join f r who src args sub hf hsub =>
    have hS := (mem_of_findEqual hsub).1
    have hSi : sub ∈ (rt.internNode src).1.subscriptions := by rwa [internNode_subscriptions]
    rcases (mem_setSub hSi (Subscription.addReceiver_id sub r _) T).mp hT with ⟨hT, -⟩ | rfl
    · rw [internNode_subscriptions] at hT
      exact Or.inl ⟨T, hT, rfl, rfl, rfl⟩
    · exact Or.inl ⟨sub, hS, rfl, rfl, rfl⟩
  | create f r who src args hf hsub =>
    rcases List.mem_append.mp hT with hT | hT
    · rw [internNode_subscriptions] at hT
      exact Or.inl ⟨T, hT, rfl, rfl, rfl⟩
    · rw [List.mem_singleton, internNode_next_sub_id, internNode_constraints] at hT
      exact Or.inr ⟨f, r, who, src, args, rfl, hf, hsub, rfl, hT⟩
  | erase sub_id r node_id sub hsub hempty =>
      exact Or.inl ⟨T, List.mem_of_mem_filter hT, rfl, rfl, rfl⟩
  | leave sub_id r node_id sub hsub hempty =>
    obtain ⟨hS, -⟩ := mem_of_findSub hsub
    obtain ⟨hid, hf, ha⟩ := sub.removeReceiver_rest r ((Assoc.find node_id rt.peer_node_ids).getD 0)
    rcases (mem_setSub hS hid T).mp hT with ⟨hT, -⟩ | rfl
    · exact Or.inl ⟨T, hT, rfl, rfl, rfl⟩
    · exact Or.inl ⟨sub, hS, hid, hf, ha⟩

theorem arguments_run (board : Board) (P : SubscriptionArguments → Prop) (ops : List Op)
    (hops : ∀ f r who src args, Op.add f r who src args ∈ ops → args.fetch_policy ≠ .FETCH →
      P args) :
    ∀ S ∈ (run board ops).subscriptions, P S.arguments := by
  induction ops using List.reverseRecOn with
  | nil => simp [run, init]
  | append_singleton ops op ih =>
    intro T hT
    rw [run_snoc] at hT
    rcases step_subscription hT with ⟨S, hS, -, -, ha⟩ | ⟨f, r, who, src, args, rfl, hf, -, -, rfl⟩
    · rw [ha]
      exact ih (fun f r who src args h => hops f r who src args (List.mem_append_left _ h)) S hS
    · exact hops f r who src args (by simp) hf

/-! ## The width of the ids

The counters of the source are `uint32_t`. A call takes one number of each at most, and a snapshot
takes one for its node.
-/

theorem counters_step (board : Board) (rt : Router) (op : Op) :
    (rt.step board op).1.next_sub_id ≤ rt.next_sub_id + 1 ∧
      (rt.step board op).1.next_node_id ≤ rt.next_node_id + 1 := by
  have hstep := step_cases board rt op
  generalize rt.step board op = out at hstep
  cases hstep with
  | fetch | unknown | erase | leave => exact ⟨Nat.le_succ _, Nat.le_succ _⟩
  | join f r who src args sub hf hsub =>
    refine ⟨?_, (next_node_internNode rt src).le⟩
    show (rt.internNode src).1.next_sub_id ≤ _
    rw [internNode_next_sub_id]
    exact Nat.le_succ _
  | create f r who src args hf hsub =>
    refine ⟨?_, (next_node_internNode rt src).le⟩
    show (rt.internNode src).1.next_sub_id + 1 ≤ _
    rw [internNode_next_sub_id]

/-- The router after calls and snapshots. -/
def runWithSnapshots (board : Board) (calls : List (Op ⊕ String)) : Router :=
  calls.foldl (fun rt call => call.elim (fun op => (rt.step board op).1) fun node =>
    (rt.internNode node).1) (init board)

theorem inv_runWithSnapshots (board : Board) (calls : List (Op ⊕ String)) :
    Inv board (runWithSnapshots board calls) ∧ (runWithSnapshots board calls).next_sub_id ≤ 11 +
      calls.length ∧
      (runWithSnapshots board calls).next_node_id ≤ 2 + calls.length := by
  induction calls using List.reverseRecOn with
  | nil => exact ⟨inv_init board, Nat.le_refl _, Nat.le_refl _⟩
  | append_singleton calls call ih =>
    obtain ⟨hinv, hsub, hnode⟩ := ih
    unfold runWithSnapshots at hinv hsub hnode ⊢
    rw [List.foldl_append, List.length_append, List.length_singleton]
    generalize calls.foldl _ (init board) = rt at hinv hsub hnode ⊢
    cases call with
    | inl op =>
      have hcounters := counters_step board rt op
      exact ⟨hinv.step op, hcounters.1.trans (by omega), hcounters.2.trans (by omega)⟩
    | inr node =>
      have hnext := next_node_internNode rt node
      have hsame := internNode_next_sub_id rt node
      exact ⟨hinv.internNode node, hsame.le.trans (by omega), hnext.le.trans (by omega)⟩

/-- In fewer than `2^32 - 11` calls and snapshots no counter wraps, and every id is the `uint32_t`
of the source. -/
theorem ids_fit (board : Board) (calls : List (Op ⊕ String)) (h : calls.length + 11 < 2 ^ 32) :
    (runWithSnapshots board calls).next_sub_id < 2 ^ 32 ∧
    (runWithSnapshots board calls).next_node_id < 2 ^ 32 ∧
      (∀ S ∈ (runWithSnapshots board calls).subscriptions, S.subscription_id < 2 ^ 32 ∧
        ∀ n ∈ S.nodes, n < 2 ^ 32) ∧
      ∀ e ∈ (runWithSnapshots board calls).peer_node_ids, e.2 < 2 ^ 32 := by
  obtain ⟨hinv, hsub, hnode⟩ := inv_runWithSnapshots board calls
  have hpeers : ∀ e ∈ (runWithSnapshots board calls).peer_node_ids, e.2 < 2 ^ 32 := by
    intro e he
    have := (hinv.peers.bound e he).2
    omega
  refine ⟨by omega, by omega, fun S hS => ⟨?_, fun n hn => ?_⟩, hpeers⟩
  · have := (hinv.subs.ids S hS).2
    omega
  · obtain ⟨e, he, rfl⟩ := List.mem_map.mp (hinv.peers.known S hS n hn)
    exact hpeers e he

end Router

end UActor
