import Mathlib.Data.List.Perm.Subperm
import UActor.Lib.Runs
import UActor.PubSub.Announce

/-!
# Additions and removals

The updates about one subscription that go to one peer: whether an addition and a removal follow
each other in turn.
-/

namespace UActor

namespace Router

/-- For each update that goes to `X`, whether it is about an addition. -/
def kinds (X : String) (us : List Publication) : List Bool :=
  us.filterMap fun u =>
    if addressed X u then
      if u.getStrAttr "type" = some "local_subscription_added" then some true
      else if u.getStrAttr "type" = some "local_subscription_removed" then some false
      else none
    else none

/-- The updates about the subscription `s` that go to `X`. -/
def announced (board : Board) (X : String) (s : Nat) (ops : List Op) : List Bool :=
  kinds X (((updates board ops).filter fun e => e.1 = s).map Prod.snd)

/-- The kinds take turns, from the given one on. -/
def alternates : Bool → List Bool → Bool
  | _, [] => true
  | next, b :: bs => b == next && alternates (!next) bs

/-- The call adds nothing and takes nothing away that `X` has not been told of. A call to add brings
no further receiver of a node while `X` is the only other one, and a call to remove finds a node
other than `X`. -/
def Op.Tidy (rt : Router) (X : String) : Op → Prop
  | .add f r _ src args => ∀ sub ∈ rt.findEqual f args,
    (rt.internNode src).2 ∉ sub.nodesOf r → (rt.internNode src).2 ∈ sub.nodes →
    sub.nodes.length = 2 →
      ∀ n ∈ sub.nodes, n ≠ (rt.internNode src).2 → rt.nodeName n ≠ X
  | .remove sub_id _ _ => ∀ sub ∈ rt.findSub sub_id, Other rt X sub

instance (rt : Router) (X : String) : DecidablePred (Op.Tidy rt X)
  | .add f r _ src args => inferInstanceAs (Decidable (∀ sub ∈ rt.findEqual f args,
      (rt.internNode src).2 ∉ sub.nodesOf r → (rt.internNode src).2 ∈ sub.nodes →
      sub.nodes.length = 2 →
        ∀ n ∈ sub.nodes, n ≠ (rt.internNode src).2 → rt.nodeName n ≠ X))
  | .remove sub_id _ _ => inferInstanceAs (Decidable (∀ sub ∈ rt.findSub sub_id, Other rt X sub))

/-- A call with the policy `FUTURE` whose source has a name. -/
def Op.Future : Op → Prop
  | .add _ _ _ src args => args.fetch_policy = .FUTURE ∧ src ≠ ""
  | .remove .. => True

instance : DecidablePred Op.Future
  | .add _ _ _ src args => inferInstanceAs (Decidable (args.fetch_policy = .FUTURE ∧ src ≠ ""))
  | .remove .. => inferInstanceAs (Decidable True)

theorem Op.Future.sourced {op : Op} (h : op.Future) (board : Board) : op.Sourced board := by
  cases op with
  | add f r who src args =>
    refine ⟨?_, Or.inr h.2⟩
    rw [h.1]
    simp
  | remove => trivial

/-! ## Sequences of kinds -/

theorem kinds_append (X : String) (us vs : List Publication) :
    kinds X (us ++ vs) = kinds X us ++ kinds X vs :=
  List.filterMap_append

theorem foldl_hear (X : String) (us : List Publication) (b : Bool) :
    us.foldl (hear X) b = (kinds X us).foldl (fun _ k => k) b := by
  induction us generalizing b with
  | nil => rfl
  | cons u us ih =>
    rw [List.foldl_cons, ih]
    unfold kinds hear
    rw [List.filterMap_cons]
    split
    · split
      · rfl
      · split <;> rfl
    · rfl

theorem alternates_snoc (next : Bool) (ks : List Bool) (b : Bool) :
    alternates next (ks ++ [b]) = true ↔ alternates next ks = true ∧
    b = !ks.foldl (fun _ k => k) (!next) := by
  induction ks generalizing next with
  | nil => cases next <;> cases b <;> decide
  | cons k ks ih =>
    simp only [List.cons_append, alternates, Bool.and_eq_true, ih, List.foldl_cons, and_assoc,
      beq_iff_eq]
    refine and_congr_right ?_
    rintro rfl
    rw [Bool.not_not]

theorem kinds_added (X : String) (f : Filter) (args : SubscriptionArguments) (who : ActorIdentifier)
    (exclude include_ : String) [Decidable (reaches X exclude include_)] :
    kinds X [publishSubscriptionAdded f args who exclude include_] =
      if reaches X exclude include_ then [true] else [] := by
  unfold kinds
  simp only [List.filterMap_cons, List.filterMap_nil, addressed_added, type_added, if_true]
  split <;> simp_all

theorem kinds_removed (X : String) (board : Board) (F : InternalFilter)
    (args : SubscriptionArguments) (exclude include_ : String)
    [Decidable (reaches X exclude include_)] :
    kinds X [publishSubscriptionRemoved board F args exclude include_] =
      if reaches X exclude include_ then [false] else [] := by
  have hne : ¬ (some "local_subscription_removed" = some "local_subscription_added") := by decide
  unfold kinds
  simp only [List.filterMap_cons, List.filterMap_nil, addressed_removed, type_removed, if_true,
    if_neg hne]
  split <;> simp_all

theorem reaches_include {X include_ : String} (h : include_ ≠ "") :
    reaches X "" include_ ↔ include_ = X := by
  unfold reaches
  simp [h]

/-! ## One call -/

/-- The call tells `X` nothing and is tidy, or it tells `X` one thing, and is tidy if that is
news. -/
def Turn (rt : Router) (X : String) (op : Op) (told : Bool) (us : List Publication) : Prop :=
  (kinds X us = [] ∧ op.Tidy rt X) ∨ ∃ b, kinds X us = [b] ∧ (op.Tidy rt X ↔ b = !told)

section

variable {board : Board} {rt : Router} {X : String} {told : Bool}

theorem nodeName_ne_empty (h : PeersInv board rt) (hnamed : Named board rt)
    (hid : board.NODE_ID ≠ "") {n : Nat} (hn : n ∈ rt.peer_node_ids.map Prod.snd) :
    rt.nodeName n ≠ "" := by
  rcases hnamed _ (Assoc.mem_of_find (h.find_nodeName hn)) with hname | hname
  · have hname : rt.nodeName n = board.NODE_ID := hname
    rw [hname]
    exact hid
  · exact hname

theorem replies_future {f : Filter} {args : SubscriptionArguments}
    (hf : args.fetch_policy = .FUTURE) (who : ActorIdentifier) :
    replies board rt f args who = [] := by
  unfold replies isFetchMetaSubscription
  rw [hf]
  rfl

theorem Joins.eq_or_eq {src : String} {n : Nat} {S S' : Subscription}
    (h : Joins board rt src n S S') (htwo : S'.nodes.length = 2) {k : Nat} (hk : k ∈ S'.nodes) :
    k = (S'.nodes.find? (· ≠ n)).getD 0 ∨ k = n := by
  by_contra hne
  rw [not_or] at hne
  obtain ⟨hother, hon⟩ := h.find_other htwo
  generalize (S'.nodes.find? (· ≠ n)).getD 0 = other at hne hother hon
  have hnodup : [k, other, n].Nodup := by simp [hne.1, hne.2, hon]
  have hsub : [k, other, n] ⊆ S'.nodes := by
    intro m hm
    simp only [List.mem_cons, List.not_mem_nil, or_false] at hm
    rcases hm with rfl | rfl | rfl
    · exact hk
    · exact (h.nodes _).mpr (Or.inl hother)
    · exact (h.nodes _).mpr (Or.inr rfl)
  have := (hnodup.subperm hsub).length_le
  simp only [List.length_cons, List.length_nil] at this
  omega

theorem Subscription.length_nodes_addReceiver {sub : Subscription} (h : sub.Wf) (r : Nat) {n : Nat}
    (hn : n ∈ sub.nodes) : (sub.addReceiver r n).1.nodes.length = sub.nodes.length := by
  refine ((List.perm_ext_iff_of_nodup (Subscription.nodes_nodup _) sub.nodes_nodup).mpr
    ?_).length_eq
  intro k
  rw [Subscription.mem_nodes_addReceiver h]
  refine ⟨?_, Or.inl⟩
  rintro (hk | rfl)
  · exact hk
  · exact hn

theorem other_iff_mem {sub : Subscription} {other n : Nat} (hX : rt.nodeName other = X)
    (hpair : ∀ k ∈ sub.nodes, k = other ∨ k = n) (hne : n ∈ sub.nodes → rt.nodeName n ≠ X) :
    Other rt X sub ↔ n ∈ sub.nodes := by
  constructor
  · rintro ⟨k, hk, hkX⟩
    rcases hpair k hk with rfl | rfl
    · exact absurd hX hkX
    · exact hk
  · exact fun hn => ⟨n, hn, hne hn⟩

theorem turn_join {f : Filter} {r : Nat} {who : ActorIdentifier} {src : String}
    {args : SubscriptionArguments} {sub : Subscription} (h : Inv board rt) (hnamed : Named board rt)
    (hid : board.NODE_ID ≠ "") (hX : X ≠ board.NODE_ID) (hf : args.fetch_policy = .FUTURE)
    (hsub : rt.findEqual f args = some sub) (htold : told = true ↔ Other rt X sub)
    (hnew : (rt.internNode src).2 ∉ sub.nodesOf r) (hsrc : src ≠ "") :
    Turn rt X (.add f r who src args) told
      (announceJoin board (rt.internNode src).1 (sub.addReceiver r (rt.internNode src).2).1 f
        args who src (rt.internNode src).2) := by
  classical
  have hmem := (mem_of_findEqual hsub).1
  have hwf := h.subs.wf sub hmem
  have hi := h.peers.internNode src
  have hmemi : sub ∈ (rt.internNode src).1.subscriptions := by rwa [internNode_subscriptions]
  have hnodes := Subscription.mem_nodes_addReceiver hwf r (rt.internNode src).2
  have hname := h.peers.nodeName_self src
  have hnamedi : Named board (rt.internNode src).1 := hnamed.internNode (Or.inr hsrc)
  have hknown : ∀ k ∈ (sub.addReceiver r (rt.internNode src).2).1.nodes,
      k ∈ (rt.internNode src).1.peer_node_ids.map Prod.snd := by
    intro k hk
    rcases (hnodes k).mp hk with hk | rfl
    · exact hi.known sub hmemi k hk
    · exact internNode_known rt src
  have hjoins : Joins board (rt.internNode src).1 src (rt.internNode src).2 sub
      (sub.addReceiver r (rt.internNode src).2).1 := ⟨hi, hname, Or.inr hsrc, hknown, hnodes⟩
  have hold : ∀ k ∈ sub.nodes, (rt.internNode src).1.nodeName k = rt.nodeName k := fun k hk =>
    h.peers.nodeName_internNode src (h.peers.known sub hmem k hk)
  have htidy : Op.Tidy rt X (.add f r who src args) ↔
      ((rt.internNode src).2 ∈ sub.nodes → sub.nodes.length = 2 →
        ∀ n ∈ sub.nodes, n ≠ (rt.internNode src).2 → rt.nodeName n ≠ X) := by
    simp [Op.Tidy, hsub, hnew]
  have hsame := fun hn => Subscription.length_nodes_addReceiver hwf r (n := (rt.internNode src).2)
    hn
  unfold Turn announceJoin
  rw [htidy]
  split
  · rename_i htwo
    obtain ⟨hother, hne⟩ := hjoins.find_other htwo
    have honly := fun k hk => hjoins.eq_or_eq htwo (k := k) hk
    generalize ((sub.addReceiver r (rt.internNode src).2).1.nodes.find?
      (· ≠ (rt.internNode src).2)).getD 0 = other at hother hne honly
    have hsub : ∀ k ∈ sub.nodes, k = other ∨ k = (rt.internNode src).2 := fun k hk =>
      honly k ((hnodes k).mpr (Or.inl hk))
    have hinc := nodeName_ne_empty hi hnamedi hid
      (hknown other ((hnodes other).mpr (Or.inl hother)))
    simp only [kinds_added, reaches_include hinc]
    rw [hold other hother]
    by_cases hotherX : rt.nodeName other = X
    · -- X is told of the new node, which is news if it was not there
      refine Or.inr ⟨true, if_pos hotherX, ?_⟩
      have htoldn : told = true ↔ (rt.internNode src).2 ∈ sub.nodes := by
        refine htold.trans (other_iff_mem hotherX hsub fun hn hnX => hne ?_)
        exact h.peers.nodeName_inj (h.peers.known sub hmem _ hother) (h.peers.known sub hmem _ hn)
          (hotherX.trans hnX.symm)
      cases told with
      | true =>
        have hn := htoldn.mp rfl
        refine iff_of_false ?_ (by simp)
        intro htidy
        exact htidy hn ((hsame hn).symm.trans htwo) other hother hne hotherX
      | false =>
        refine iff_of_true ?_ rfl
        intro hn
        exact absurd (htoldn.mpr hn) (by simp)
    · refine Or.inl ⟨if_neg hotherX, ?_⟩
      intro _ _ k hk hkn
      rw [(hsub k hk).resolve_right hkn]
      exact hotherX
  · rename_i htwo
    have hfetch : ¬ args.fetch_policy = .FETCH_FUTURE := by rw [hf]; simp
    rw [if_neg hfetch]
    refine Or.inl ⟨?_, fun hn hlen => absurd ((hsame hn).trans hlen) htwo⟩
    split
    · rw [kinds_added, if_neg]
      rw [reaches_include hid]
      exact hX.symm
    · rfl

theorem turn_leave {sub_id r : Nat} {node_id : String} {sub S' : Subscription} (h : Inv board rt)
    (hnamed : Named board rt) (hid : board.NODE_ID ≠ "") (hX : X ≠ board.NODE_ID)
    (hsub : rt.findSub sub_id = some sub) (htold : told = true ↔ Other rt X sub)
    (hne : S'.nodes ≠ []) (hnodes : ∀ k ∈ S'.nodes, k ∈ sub.nodes) :
    Turn rt X (.remove sub_id r node_id) told (announceLeave board rt S') := by
  classical
  have hmem := (mem_of_findSub hsub).1
  have hknown : ∀ k ∈ S'.nodes, k ∈ rt.peer_node_ids.map Prod.snd := fun k hk =>
    h.peers.known sub hmem k (hnodes k hk)
  have hself : rt.nodeName 1 = board.NODE_ID := h.peers.nodeName_eq h.peers.self
  have htidy : Op.Tidy rt X (.remove sub_id r node_id) ↔ Other rt X sub := by simp [Op.Tidy, hsub]
  unfold Turn announceLeave
  rw [htidy]
  split
  · rename_i n hn
    have hmemn : n ∈ S'.nodes := by rw [hn]; simp
    split
    · rw [kinds_removed]
      simp only [reaches_include (nodeName_ne_empty h.peers hnamed hid (hknown n hmemn))]
      by_cases hnX : rt.nodeName n = X
      · refine Or.inr ⟨false, if_pos hnX, ?_⟩
        rw [← htold]
        cases told <;> decide
      · exact Or.inl ⟨if_neg hnX, n, hnodes n hmemn, hnX⟩
    · rename_i hn1
      rw [not_not] at hn1
      refine Or.inl ⟨rfl, n, hnodes n hmemn, ?_⟩
      rw [hn1, hself]
      exact hX.symm
  · rename_i hlen
    refine Or.inl ⟨rfl, (other_of_two h.peers hknown ?_ X).mono hnodes⟩
    match hn : S'.nodes with
    | [] => exact absurd hn hne
    | [k] => exact absurd hn (hlen k)
    | _ :: _ :: _ => simp

theorem turn_step {op : Op} (h : Inv board rt) (hnamed : Named board rt) (hid : board.NODE_ID ≠ "")
    (hX : X ≠ board.NODE_ID) (hop : op.Future)
    (htold : told = true ↔ Heard rt X (op.subject (rt.step board op))) :
    Turn rt X op told (rt.step board op).2.2 := by
  classical
  have hstep := step_cases board rt op
  generalize rt.step board op = out at hstep htold
  cases hstep with
  | fetch f r who src args hf => exact absurd (hop.1.symm.trans hf) (by simp)
  | unknown sub_id r node_id hsub => exact Or.inl ⟨rfl, by simp [Op.Tidy, hsub]⟩
  | join f r who src args sub hf hsub =>
    have hmem := (mem_of_findEqual hsub).1
    change told = true ↔ Heard rt X sub.subscription_id at htold
    rw [heard_iff h.subs hmem] at htold
    dsimp only
    rw [replies_future hop.1, List.nil_append]
    by_cases hflag : (sub.addReceiver r (rt.internNode src).2).2 = true
    · rw [if_pos hflag]
      rw [Subscription.addReceiver_flag] at hflag
      exact turn_join h hnamed hid hX hop.1 hsub htold hflag hop.2
    · rw [if_neg hflag]
      rw [Subscription.addReceiver_flag, not_not] at hflag
      exact Or.inl ⟨rfl, by simp [Op.Tidy, hsub, hflag]⟩
  | create f r who src args hf hsub =>
    have hfresh : told = false := by
      rw [Bool.eq_false_iff, ne_eq, htold]
      rintro ⟨T, hT, hT', -⟩
      have := (h.subs.ids T hT).2
      simp only [Op.subject] at hT'
      omega
    dsimp only
    have htidy : Op.Tidy rt X (.add f r who src args) := by simp [Op.Tidy, hsub]
    rw [replies_future hop.1, List.nil_append]
    unfold Turn
    rw [kinds_added]
    split
    · exact Or.inr ⟨true, rfl, by simp [htidy, hfresh]⟩
    · exact Or.inl ⟨rfl, htidy⟩
  | erase sub_id r node_id sub hsub hempty =>
    obtain ⟨hmem, rfl⟩ := mem_of_findSub hsub
    have hreach : reaches X "" "" := ⟨Or.inl rfl, Or.inl rfl⟩
    change told = true ↔ Heard rt X sub.subscription_id at htold
    rw [heard_iff h.subs hmem] at htold
    have htidy : Op.Tidy rt X (.remove sub.subscription_id r node_id) ↔ Other rt X sub := by
      simp [Op.Tidy, hsub]
    refine Or.inr ⟨false, by rw [kinds_removed, if_pos hreach], ?_⟩
    rw [htidy, ← htold]
    cases told <;> decide
  | leave sub_id r node_id sub hsub hempty =>
    obtain ⟨hmem, rfl⟩ := mem_of_findSub hsub
    have hwf := h.subs.wf sub hmem
    have hne := receivers_ne_of_flag hwf hempty
    change told = true ↔ Heard rt X sub.subscription_id at htold
    rw [heard_iff h.subs hmem] at htold
    exact turn_leave h hnamed hid hX hsub htold
      (Subscription.removeReceiver_wf hwf _ _ hne).nodes_ne fun k hk =>
        mem_nodes_removeReceiver hwf hne hk

end

/-! ## Every run -/

theorem announced_snoc (board : Board) (X : String) (s : Nat) (ops : List Op) (op : Op) :
    announced board X s (ops ++ [op]) = announced board X s ops ++
      if op.subject ((run board ops).step board op) = s then
        kinds X ((run board ops).step board op).2.2
      else [] := by
  unfold announced
  rw [updates_snoc, List.filter_append, List.map_append, kinds_append]
  congr 1
  generalize (run board ops).step board op = out
  split
  · rename_i hs
    rw [List.filter_eq_self.mpr, List.map_map]
    · simp [Function.comp_def]
    · intro e he
      obtain ⟨u, -, rfl⟩ := List.mem_map.mp he
      simpa using hs
  · rename_i hs
    rw [List.filter_eq_nil_iff.mpr]
    · rfl
    · intro e he
      obtain ⟨u, -, rfl⟩ := List.mem_map.mp he
      simpa using hs

theorem told_eq_last (board : Board) (X : String) (s : Nat) (ops : List Op) :
    told board X s ops = (announced board X s ops).foldl (fun _ k => k) false := by
  unfold told announced
  rw [← foldl_hear, List.foldl_map]

/-- The updates for `X` alternate exactly if every call is tidy. -/
theorem alternates_iff_tidy {board : Board} {X : String} {ops : List Op}
    (hops : ∀ op ∈ ops, op.Future) (hid : board.NODE_ID ≠ "")
    (hX : X ≠ board.NODE_ID) :
    (∀ s, alternates true (announced board X s ops) = true) ↔
      ∀ pre op post, ops = pre ++ op :: post → op.Tidy (run board pre) X := by
  induction ops using List.reverseRecOn with
  | nil => simp [announced, updates, kinds, alternates]
  | append_singleton ops op ih =>
    have hops' : ∀ o ∈ ops, o.Future := fun o ho => hops o (List.mem_append_left _ ho)
    have hsourced : ∀ o ∈ ops, o.Sourced board := fun o ho => (hops' o ho).sourced board
    have hturn := turn_step (inv_run board ops) (named_run hsourced) hid hX (hops op (by simp))
      (told_run hsourced hX _)
    have hlast : (∀ s, alternates true (announced board X s (ops ++ [op])) = true) ↔
        (∀ s, alternates true (announced board X s ops) = true) ∧ op.Tidy (run board ops) X := by
      simp only [announced_snoc]
      rcases hturn with ⟨hkinds, htidy⟩ | ⟨b, hkinds, htidy⟩
      · simp [hkinds, htidy]
      · rw [told_eq_last] at htidy
        rw [htidy]
        constructor
        · intro hall
          have hself := hall (op.subject ((run board ops).step board op))
          rw [if_pos rfl, hkinds, alternates_snoc] at hself
          refine ⟨fun s => ?_, hself.2⟩
          have hs := hall s
          split at hs
          · rw [hkinds, alternates_snoc] at hs
            exact hs.1
          · simpa using hs
        · rintro ⟨hall, hb⟩ s
          split
          · rename_i hs
            rw [hkinds, alternates_snoc, ← hs]
            exact ⟨hall _, hb⟩
          · simpa using hall s
    rw [hlast, ih hops']
    constructor
    · rintro ⟨hpre, hop⟩ pre o post heq
      rcases Runs.snoc_eq_append_cons heq with ⟨rfl, rfl⟩ | ⟨post', rfl⟩
      · exact hop
      · exact hpre pre o post' rfl
    · intro hall
      refine ⟨fun pre o post heq => hall pre o (post ++ [op]) ?_, hall ops op [] rfl⟩
      rw [heq, List.append_assoc, List.cons_append]

end Router

end UActor
