import UActor.PubSub.Readback
import UActor.Remote.Propagation

/-!
# Snapshots in lists

`subscription_lists_for` cuts a snapshot into lists, and the loop of
`handle_remote_subscriptions_added` reads them. What comes back is what the chain kept, but for the
attributes of its filters.
-/

namespace UActor

open Router RemoteConnection UActor.Filter

/-! ## Arguments -/

namespace SubscriptionArguments

theorem scopeFromString_string (s : Scope) : scopeFromString (stringFromScope s) = s := by
  cases s <;> decide

theorem fetchPolicyFromString_string (p : FetchPolicy) :
    fetchPolicyFromString (stringFromFetchPolicy p) = p := by
  cases p <;> decide

theorem fromMap_toMap (args : SubscriptionArguments) : fromMap args.toMap = args := by
  have hpriority : args.toMap.getIntAttr "priority" = some args.priority.toInt32 := rfl
  have hpolicy : args.toMap.getStrAttr "fetch_policy" =
      some (stringFromFetchPolicy args.fetch_policy) := rfl
  have hscope : args.toMap.getStrAttr "scope" = some (stringFromScope args.scope) := rfl
  unfold fromMap
  rw [hpriority, hpolicy, hscope]
  simp only [Option.map_some, Option.getD_some, scopeFromString_string,
    fetchPolicyFromString_string]
  cases args
  simp

end SubscriptionArguments

namespace Router

/-! ## The order of the subscriptions -/

/-- The map of the subscriptions is ordered by their ids. -/
def Ascending (rt : Router) : Prop := (rt.subscriptions.map (·.subscription_id)).Pairwise (· < ·)

theorem ascending_step {board : Board} {rt : Router} (h : Ascending rt) (hinv : SubsInv rt)
    (op : Op) :
    Ascending (rt.step board op).1 := by
  unfold Ascending at h ⊢
  have hstep := step_cases board rt op
  generalize rt.step board op = out at hstep
  cases hstep with
  | fetch | unknown => exact h
  | join f r who src args sub hf hsub =>
    rw [setSub_ids, internNode_subscriptions]
    exact h
  | create f r who src args hf hsub =>
    -- the new id is above all others
    simp only [createSubscription, internNode_subscriptions, internNode_next_sub_id,
      List.map_append, List.map_cons, List.map_nil]
    refine List.pairwise_append.mpr ⟨h, List.pairwise_singleton _ _, fun id hid n hn => ?_⟩
    obtain ⟨S, hS, rfl⟩ := List.mem_map.mp hid
    rw [List.mem_singleton.mp hn]
    exact (hinv.ids S hS).2
  | erase sub_id r node_id sub hsub hempty =>
      exact h.sublist (List.Sublist.map _ List.filter_sublist)
  | leave sub_id r node_id sub hsub hempty =>
    rw [setSub_ids]
    exact h

theorem Reachable.ascending {board : Board} {rt : Router} (h : Reachable board rt) :
    Ascending rt := by
  induction h with
  | init => exact List.Pairwise.nil
  | step h op ih => exact ascending_step ih h.inv.subs op
  | snapshot _ node_id ih =>
    unfold Ascending at ih ⊢
    rwa [internNode_subscriptions]

/-! ## What is listed -/

/-- A subscription as the chain leaves it. -/
structure Kept where
  subscription_id : Nat
  filter : Filter
  arguments : SubscriptionArguments

variable {σ : Type} (chain : σ → Filter → SubscriptionArguments → σ × Filter × Bool)

/-- What the chain keeps, called for one subscription after the other. -/
def kept : σ → List Subscription → List Kept
  | _, [] => []
  | st, S :: subs =>
    let processed := chain st S.filter.toFilter S.arguments
    let rest := kept processed.1 subs
    if processed.2.2 then rest else ⟨S.subscription_id, processed.2.1, S.arguments⟩ :: rest

/-- The subscriptions that another node than `node_id` could fulfil. -/
def eligible (rt : Router) (node_id : String) : List Subscription :=
  rt.subscriptions.filter fun S => 2 ≤ S.nodes.length ∨ (rt.internNode node_id).2 ∉ S.nodes

theorem kept_ids (st : σ) (subs : List Subscription) :
    ((kept chain st subs).map Kept.subscription_id).Sublist (subs.map (·.subscription_id)) := by
  induction subs generalizing st with
  | nil => exact List.Sublist.slnil
  | cons S subs ih =>
    unfold kept
    dsimp only
    split
    · exact (ih _).cons _
    · exact (ih _).cons_cons _

theorem kept_listing (board : Board) (st : σ) (subs : List Subscription) :
    (listing board chain st subs).2 =
      (kept chain st subs).map fun k => .map (replay board k.filter k.arguments) := by
  induction subs generalizing st with
  | nil => rfl
  | cons S subs ih =>
    unfold listing kept
    dsimp only
    rw [ih]
    split <;> rfl

theorem listSubscriptions_bounded {board : Board} {num_subs : Nat} (hnum : 1 ≤ num_subs)
    (node : Nat) (subs : List Subscription) (st : σ) {full : List Map} {back : Map}
    (hfull : ∀ m ∈ full, m.length ≤ num_subs) (hback : back.length ≤ num_subs)
    (hnumbered : Numbered back) :
    ∀ m ∈ (listSubscriptions board chain num_subs node subs st full back).2,
    m.length ≤ num_subs := by
  induction subs generalizing st full back with
  | nil => exact List.forall_mem_append.mpr ⟨hfull, by simpa using hback⟩
  | cons S subs ih =>
    unfold listSubscriptions
    by_cases hS : 2 ≤ S.nodes.length ∨ node ∉ S.nodes
    · rw [if_pos hS]
      dsimp only
      generalize chain st S.filter.toFilter S.arguments = processed
      by_cases hdrop : processed.2.2 = true
      · rw [if_pos hdrop]
        exact ih _ hfull hback hnumbered
      · rw [if_neg hdrop]
        split
        · have hnil : Numbered [] := rfl
          refine ih _ (List.forall_mem_append.mpr ⟨hfull, by simpa using hback⟩) hnum ?_
          exact (hnil.setAttr (.map (replay board processed.2.1 S.arguments))).2
        · rename_i hroom
          obtain ⟨happ, hnew⟩ := hnumbered.setAttr (.map (replay board processed.2.1 S.arguments))
          refine ih _ hfull ?_ hnew
          have hlen := congrArg List.length happ
          rw [List.length_append, List.length_singleton] at hlen
          refine le_of_eq_of_le hlen ?_
          omega
    · rw [if_neg hS]
      exact ih st hfull hback hnumbered

end Router

/-! ## What is read -/

namespace RemoteConnection

theorem flatMap_readSubscriptions {lists : List Map} (h : ∀ m ∈ lists, Numbered m)
    (order : MapOrder) :
    lists.flatMap (readSubscriptions order) = (entries lists).filterMap (readVariant order) := by
  unfold entries
  induction lists with
  | nil => rfl
  | cons m lists ih =>
    rw [List.forall_mem_cons] at h
    rw [List.flatMap_cons, List.flatMap_cons, List.filterMap_append, ih h.2,
      readSubscriptions_numbered h.1]

theorem forall₂_filterMap_iff {α β : Type} {R : α → β → Prop} {g : α → Option β} {as : List α} :
    List.Forall₂ R as (as.filterMap g) ↔ ∀ a ∈ as, ∃ b, g a = some b ∧ R a b := by
  induction as with
  | nil => simp
  | cons a as ih =>
    rw [List.forall_mem_cons, ← ih, List.filterMap_cons]
    cases hg : g a with
    | none =>
      refine iff_of_false (fun hall => ?_) (by simp)
      have hlen : as.length + 1 = (as.filterMap g).length := hall.length_eq
      have := List.length_filterMap_le g as
      omega
    | some b => simp [List.forall₂_cons]

/-- What is kept of a subscription, and what is read. -/
def Reads (k : Kept) (e : Filter × ActorIdentifier × SubscriptionArguments) : Prop :=
  SameFilter k.filter e.1 ∧ k.arguments = e.2.2

theorem reads_iff (order : MapOrder) (board : Board) (k : Kept) :
    (∃ e, readVariant order (.map (replay board k.filter k.arguments)) = some e ∧ Reads k e) ↔
      k.filter.carried = true := by
  have hentry : readVariant order (.map (replay board k.filter k.arguments)) =
      (received order k.filter).bind fun f =>
        some (f, ⟨board.NODE_ID, "replay", "1"⟩, SubscriptionArguments.fromMap k.arguments.toMap) :=
          rfl
  rw [hentry, ← comes_back_iff order k.filter, SubscriptionArguments.fromMap_toMap]
  constructor
  · rintro ⟨e, he, hreads⟩
    obtain ⟨f, hf, heq⟩ := Option.bind_eq_some_iff.mp he
    cases heq
    exact ⟨f, hf, hreads.1⟩
  · rintro ⟨f, hf, hsame⟩
    have hf : received order k.filter = some f := hf
    rw [hf]
    exact ⟨_, rfl, hsame, rfl⟩

/-- The lists are short and numbered, and reading them yields what was kept, in the order of the
ids. -/
structure Lossless (order : MapOrder) (num_subs : Nat) (ks : List Kept) (lists : List Map) :
    Prop where
  bounded : ∀ m ∈ lists, m.length ≤ num_subs
  numbered : ∀ m ∈ lists, Assoc.keys m = (List.range m.length).map toString
  ascending : (ks.map Kept.subscription_id).Pairwise (· < ·)
  read : List.Forall₂ Reads ks (lists.flatMap (readSubscriptions order))

variable {σ : Type}

section

variable (board : Board) (rt : Router)
  (chain : σ → Filter → SubscriptionArguments → σ × Filter × Bool) (st : σ) (node_id : String)
  (num_subs : Nat)

/-- The lists hold the description of what was kept, and their entries are numbered. -/
theorem lists_spec : entries (rt.subscriptionListsFor board node_id chain st num_subs).2.2 =
      ((kept chain st (rt.eligible node_id)).map fun k =>
        .map (replay board k.filter k.arguments)) ∧
    ∀ m ∈ (rt.subscriptionListsFor board node_id chain st num_subs).2.2, Numbered m := by
  have hnil : ∀ m ∈ ([] : List Map), Numbered m := fun m hm => absurd hm List.not_mem_nil
  obtain ⟨-, hentries, hnumbered⟩ :
      _ ∧ entries (rt.subscriptionListsFor board node_id chain st num_subs).2.2 = _ ∧ _ :=
    listSubscriptions_listing chain num_subs (rt.internNode node_id).2 rt.subscriptions st hnil
      (show Numbered [] from rfl)
  refine ⟨hentries.trans ?_, hnumbered⟩
  rw [← kept_listing]
  rfl

theorem forall₂_reads_iff (order : MapOrder) :
    List.Forall₂ Reads (kept chain st (rt.eligible node_id))
      ((rt.subscriptionListsFor board node_id chain st num_subs).2.2.flatMap
        (readSubscriptions order)) ↔
      ∀ k ∈ kept chain st (rt.eligible node_id), k.filter.carried = true := by
  obtain ⟨hentries, hnumbered⟩ := lists_spec board rt chain st node_id num_subs
  have hread := flatMap_readSubscriptions hnumbered order
  rw [hentries, List.filterMap_map] at hread
  rw [hread, forall₂_filterMap_iff]
  simp only [Function.comp_apply, reads_iff]

end

/-- A snapshot loses nothing if and only if no kept filter has an attribute that reads as another
one. -/
theorem lossless_iff {board : Board} {rt : Router} (hrt : Reachable board rt) (order : MapOrder)
    (chain : σ → Filter → SubscriptionArguments → σ × Filter × Bool) (st : σ) (node_id : String)
    {num_subs : Nat} (hnum : 1 ≤ num_subs) :
    Lossless order num_subs (kept chain st (rt.eligible node_id))
        (rt.subscriptionListsFor board node_id chain st num_subs).2.2 ↔
      ∀ k ∈ kept chain st (rt.eligible node_id), k.filter.carried = true := by
  have hread := forall₂_reads_iff board rt chain st node_id num_subs order
  refine ⟨fun h => hread.mp h.read, fun h => ⟨?_, (lists_spec board rt chain st node_id num_subs).2,
    ?_, hread.mpr h⟩⟩
  · have hnil : ∀ m ∈ ([] : List Map), m.length ≤ num_subs := fun m hm => absurd hm List.not_mem_nil
    exact listSubscriptions_bounded chain hnum _ _ st hnil (Nat.zero_le _) rfl
  · have hids : ((rt.eligible node_id).map (·.subscription_id)).Pairwise (· < ·) :=
      hrt.ascending.sublist (List.filter_sublist.map _)
    exact hids.sublist (kept_ids chain st _)

/-- Three subscriptions, one of which the chain drops, in lists of one entry. -/
theorem lossless_three :
    let rt := run ⟨"node", 3⟩ [.add ⟨[.int "x" 1 .EQ false], []⟩ 1 ⟨"node", "t", "1"⟩
      "node" .default, .add ⟨[.int "y" 2 .EQ false], []⟩ 1 ⟨"node", "t", "1"⟩ "node" .default,
      .add ⟨[], [.str "z" "a" .NE true]⟩ 2 ⟨"node", "t", "2"⟩ "node" .default]
    let chain := fun (n : Nat) f (_ : SubscriptionArguments) => (n + 1, f, n == 1)
    (kept chain 0 (rt.eligible "peer")).length = 2 ∧
    Lossless ⟨id, fun _ => .rfl⟩ 1 (kept chain 0 (rt.eligible "peer"))
      (rt.subscriptionListsFor ⟨"node", 3⟩ "peer" chain 0 1).2.2 := by
  refine ⟨by decide, (lossless_iff (.step (.step (.step .init _) _) _) _ _ _ _ (by decide)).mpr ?_⟩
  decide

/-- A filter for an attribute `?x`, written with the mark of an optional constraint in front: `x` is
read. -/
theorem marked_attribute_lost :
    let rt := run ⟨"node", 3⟩ [.add ⟨[], [.int "?x" 1 .EQ true]⟩ 1 ⟨"node", "t", "1"⟩
      "node" .default]
    let chain := fun (u : Unit) f (_ : SubscriptionArguments) => (u, f, false)
    let lists := (rt.subscriptionListsFor ⟨"node", 3⟩ "peer" chain () 5).2.2
    Constraint.ofInt "??x" 1 .EQ false = some (.int "?x" 1 .EQ true) ∧
    lists.flatMap (readSubscriptions ⟨id, fun _ => .rfl⟩) =
      [(⟨[], [.int "x" 1 .EQ true]⟩, ⟨"node", "replay", "1"⟩, .default)] ∧
    ¬ Lossless ⟨id, fun _ => .rfl⟩ 5 (kept chain () (rt.eligible "peer")) lists := by
  refine ⟨by decide, by decide, fun h => ?_⟩
  have hcarried := (forall₂_reads_iff _ _ _ _ _ _ _).mp h.read
  revert hcarried
  decide

end RemoteConnection

end UActor
