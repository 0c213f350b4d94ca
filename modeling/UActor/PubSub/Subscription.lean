import UActor.PubSub.Filter
import Mathlib.Data.List.Dedup

/-!
# Subscriptions

`subscription_arguments.hpp`, `actor_identifier.hpp` and `subscription.hpp`. A `Receiver*` and a
`Subscription*` are numbers: what the router does with them is compare them.
-/

namespace UActor

inductive Scope where
  | NONE | LOCAL | CLUSTER | GLOBAL
deriving DecidableEq, Repr

inductive FetchPolicy where
  | NONE | FETCH | FETCH_FUTURE | FUTURE
deriving DecidableEq, Repr

structure SubscriptionArguments where
  scope : Scope
  priority : UInt32
  fetch_policy : FetchPolicy
deriving DecidableEq, Repr

namespace SubscriptionArguments

/-- The default member values. -/
def default : SubscriptionArguments := ⟨.CLUSTER, 0, .FUTURE⟩

def stringFromScope : Scope → String
  | .LOCAL => "LOCAL" | .CLUSTER => "CLUSTER" | .GLOBAL => "GLOBAL" | .NONE => "NONE"

def stringFromFetchPolicy : FetchPolicy → String
  | .FETCH => "FETCH" | .FETCH_FUTURE => "FETCH_FUTURE" | .FUTURE => "FUTURE" | .NONE => "NONE"

def toMap (a : SubscriptionArguments) : Map :=
  [("priority", .int a.priority.toInt32),
    ("fetch_policy", .str (stringFromFetchPolicy a.fetch_policy)),
    ("scope", .str (stringFromScope a.scope))]

end SubscriptionArguments

structure ActorIdentifier where
  node_id : String
  actor_type : String
  instance_id : String
deriving DecidableEq, Repr

def ActorIdentifier.toPublicationMap (a : ActorIdentifier) : Map :=
  [("node_id", .str a.node_id), ("actor_type", .str a.actor_type),
    ("instance_id", .str a.instance_id)]

/-- `receivers` maps each receiver to its `NodeList`. -/
structure Subscription where
  subscription_id : Nat
  filter : InternalFilter
  arguments : SubscriptionArguments
  receivers : List (Nat × List Nat)
deriving DecidableEq, Repr

namespace Subscription

/-- `std::set::emplace` on a `NodeList`. -/
def emplace (n : Nat) (nodes : List Nat) : List Nat := if n ∈ nodes then nodes else nodes ++ [n]

/-- `Subscription::add_receiver`. The flag says whether the node is new for the receiver. -/
def addReceiver (s : Subscription) (receiver node_id : Nat) : Subscription × Bool :=
  let nodes := (Assoc.find receiver s.receivers).getD []
  ({ s with receivers := Assoc.put receiver (emplace node_id nodes) s.receivers }, node_id ∉ nodes)

/-- `Subscription::nodes`. -/
def nodes (s : Subscription) : List Nat := (s.receivers.flatMap Prod.snd).dedup

/-- `Subscription::remove_receiver`: whether no receiver is left, and the number of nodes left
for this one. The node id 0 stands for all nodes of the receiver. -/
def removeReceiver (s : Subscription) (receiver node_id : Nat) : Subscription × Bool × Nat :=
  match Assoc.find receiver s.receivers with
  | some nodes =>
    if node_id = 0 ∨ nodes.erase node_id = [] then
      let receivers := Assoc.erase receiver s.receivers
      ({ s with receivers := receivers }, receivers.isEmpty, 0)
    else
      ({ s with receivers := Assoc.put receiver (nodes.erase node_id) s.receivers }, false,
        (nodes.erase node_id).length)
  | none => (s, s.receivers.isEmpty, 0)

def countRequired (s : Subscription) : Nat := s.filter.required.length

def countOptional (s : Subscription) : Nat := s.filter.optional.length

/-! ## Receivers and nodes -/

/-- The nodes that `receiver` stands for in this subscription. -/
def nodesOf (s : Subscription) (receiver : Nat) : List Nat :=
  (Assoc.find receiver s.receivers).getD []

structure Wf (s : Subscription) : Prop where
  keys_nodup : (Assoc.keys s.receivers).Nodup
  receivers_ne : s.receivers ≠ []
  lists_ne : ∀ e ∈ s.receivers, e.2 ≠ []
  lists_nodup : ∀ e ∈ s.receivers, e.2.Nodup

theorem Wf.find_eq {s : Subscription} (h : s.Wf) {e : Nat × List Nat} (he : e ∈ s.receivers) :
    s.nodesOf e.1 = e.2 := by
  unfold nodesOf
  rw [Assoc.find_of_mem h.keys_nodup he]
  rfl

theorem Wf.mem_nodes {s : Subscription} (h : s.Wf) (n : Nat) :
    n ∈ s.nodes ↔ ∃ r, n ∈ s.nodesOf r := by
  unfold nodes
  rw [List.mem_dedup, List.mem_flatMap]
  constructor
  · rintro ⟨e, he, hn⟩
    exact ⟨e.1, by rwa [h.find_eq he]⟩
  · rintro ⟨r, hn⟩
    unfold nodesOf at hn
    cases hf : Assoc.find r s.receivers with
    | none => simp [hf] at hn
    | some l =>
      rw [hf] at hn
      exact ⟨(r, l), Assoc.mem_of_find hf, hn⟩

theorem nodes_nodup (s : Subscription) : s.nodes.Nodup := List.nodup_dedup _

theorem Wf.nodes_ne {s : Subscription} (h : s.Wf) : s.nodes ≠ [] := by
  obtain ⟨e, he⟩ := List.exists_mem_of_ne_nil _ h.receivers_ne
  obtain ⟨n, hn⟩ := List.exists_mem_of_ne_nil _ (h.lists_ne e he)
  have : n ∈ s.nodes := (h.mem_nodes n).mpr ⟨e.1, by rwa [h.find_eq he]⟩
  exact List.ne_nil_of_mem this

theorem Wf.mem_keys {s : Subscription} (h : s.Wf) (r : Nat) :
    r ∈ Assoc.keys s.receivers ↔ s.nodesOf r ≠ [] := by
  constructor
  · intro hr
    obtain ⟨e, he, rfl⟩ := List.mem_map.mp hr
    rw [h.find_eq he]
    exact h.lists_ne e he
  · intro hne
    by_contra hr
    unfold nodesOf at hne
    rw [Assoc.find_eq_none.mpr hr] at hne
    exact hne rfl

theorem mem_emplace (n k : Nat) (l : List Nat) : n ∈ emplace k l ↔ n ∈ l ∨ n = k := by
  unfold emplace
  split
  · rename_i hk
    constructor
    · exact Or.inl
    · rintro (h | rfl)
      · exact h
      · exact hk
  · simp

theorem emplace_nodup {k : Nat} {l : List Nat} (h : l.Nodup) : (emplace k l).Nodup := by
  unfold emplace
  split
  · exact h
  · rename_i hk
    refine List.nodup_append.mpr ⟨h, by simp, ?_⟩
    intro a ha b hb hab
    obtain rfl : b = k := by simpa using hb
    exact hk (hab ▸ ha)

theorem nodesOf_addReceiver (s : Subscription) (r k r' : Nat) :
    (s.addReceiver r k).1.nodesOf r' =
      if r = r' then emplace k (s.nodesOf r) else s.nodesOf r' := by
  unfold nodesOf addReceiver
  dsimp only
  rw [Assoc.find_put]
  split <;> rfl

theorem Wf.nodesOf_nodup {s : Subscription} (h : s.Wf) (r : Nat) : (s.nodesOf r).Nodup := by
  unfold nodesOf
  cases hf : Assoc.find r s.receivers with
  | none => exact List.nodup_nil
  | some l => exact h.lists_nodup _ (Assoc.mem_of_find hf)

theorem put_lists {P : List Nat → Prop} {m : List (Nat × List Nat)} (h : ∀ e ∈ m, P e.2) {r : Nat}
    {l : List Nat} (hl : P l) : ∀ e ∈ Assoc.put r l m, P e.2 := by
  induction m with
  | nil => simpa [Assoc.put] using hl
  | cons e m ih =>
    rw [List.forall_mem_cons] at h
    unfold Assoc.put
    split
    · exact List.forall_mem_cons.mpr ⟨hl, h.2⟩
    · exact List.forall_mem_cons.mpr ⟨h.1, ih h.2⟩

theorem put_ne_nil (r : Nat) (l : List Nat) (m : List (Nat × List Nat)) : Assoc.put r l m ≠ [] := by
  cases m with
  | nil => simp [Assoc.put]
  | cons e m => unfold Assoc.put; split <;> simp

theorem addReceiver_wf {s : Subscription} (h : s.Wf) (r k : Nat) : (s.addReceiver r k).1.Wf := by
  have hne : ∀ l, emplace k l ≠ [] :=
    fun l => List.ne_nil_of_mem ((mem_emplace k k l).mpr (Or.inr rfl))
  exact ⟨Assoc.keys_put_nodup h.keys_nodup _ _, put_ne_nil _ _ _,
    put_lists (P := (· ≠ [])) h.lists_ne (hne _),
    put_lists h.lists_nodup (emplace_nodup (h.nodesOf_nodup r))⟩

theorem mem_nodes_addReceiver {s : Subscription} (h : s.Wf) (r k n : Nat) :
    n ∈ (s.addReceiver r k).1.nodes ↔ n ∈ s.nodes ∨ n = k := by
  rw [(addReceiver_wf h r k).mem_nodes, h.mem_nodes]
  simp only [nodesOf_addReceiver]
  constructor
  · rintro ⟨r', hn⟩
    split at hn
    · rcases (mem_emplace _ _ _).mp hn with hn | rfl
      · exact Or.inl ⟨r, hn⟩
      · exact Or.inr rfl
    · exact Or.inl ⟨r', hn⟩
  · rintro (⟨r', hn⟩ | rfl)
    · refine ⟨r', ?_⟩
      split
      · rename_i hr
        subst hr
        exact (mem_emplace _ _ _).mpr (Or.inl hn)
      · exact hn
    · exact ⟨r, by rw [if_pos rfl]; exact (mem_emplace _ _ _).mpr (Or.inr rfl)⟩

theorem addReceiver_flag (s : Subscription) (r k : Nat) :
    (s.addReceiver r k).2 = true ↔ k ∉ s.nodesOf r := by
  unfold addReceiver nodesOf
  simp

theorem nodesOf_removeReceiver {s : Subscription} (r k r' : Nat) :
    (s.removeReceiver r k).1.nodesOf r' =
      if r = r' then (if k = 0 then [] else (s.nodesOf r).erase k) else s.nodesOf r' := by
  unfold removeReceiver
  cases hf : Assoc.find r s.receivers with
  | none =>
    dsimp only
    split
    · rename_i hr
      subst hr
      simp [nodesOf, hf]
    · rfl
  | some l =>
    have hl : s.nodesOf r = l := by simp [nodesOf, hf]
    dsimp only
    by_cases hk : k = 0 ∨ l.erase k = []
    · rw [if_pos hk]
      unfold nodesOf at hl ⊢
      dsimp only
      rw [Assoc.find_erase, hl]
      split
      · rcases hk with hk | hk
        · simp [hk]
        · simp [hk]
      · rfl
    · rw [if_neg hk]
      rw [not_or] at hk
      unfold nodesOf at hl ⊢
      dsimp only
      rw [Assoc.find_put, hl, if_neg hk.1]
      split <;> rfl

theorem removeReceiver_flag {s : Subscription} (h : s.Wf) (r k : Nat) :
    (s.removeReceiver r k).2.1 = true ↔ (s.removeReceiver r k).1.receivers = [] := by
  unfold removeReceiver
  split
  · split
    · simp
    · simp [put_ne_nil]
  · simp [h.receivers_ne]

theorem removeReceiver_wf {s : Subscription} (h : s.Wf) (r k : Nat)
    (hne : (s.removeReceiver r k).1.receivers ≠ []) : (s.removeReceiver r k).1.Wf := by
  unfold removeReceiver at hne ⊢
  split at hne
  · rename_i l hf
    split at hne
    · rename_i hk
      rw [if_pos hk]
      exact ⟨Assoc.keys_erase_nodup h.keys_nodup r, hne,
        fun e he => h.lists_ne e (List.mem_of_mem_filter he),
        fun e he => h.lists_nodup e (List.mem_of_mem_filter he)⟩
    · rename_i hk
      rw [if_neg hk]
      rw [not_or] at hk
      have hl := h.lists_nodup _ (Assoc.mem_of_find hf)
      exact ⟨Assoc.keys_put_nodup h.keys_nodup _ _, hne, put_lists (P := (· ≠ [])) h.lists_ne hk.2,
        put_lists h.lists_nodup (hl.sublist List.erase_sublist)⟩
  · exact h

@[simp] theorem addReceiver_id (s : Subscription) (r k : Nat) :
    (s.addReceiver r k).1.subscription_id = s.subscription_id := rfl

@[simp] theorem addReceiver_filter (s : Subscription) (r k : Nat) :
    (s.addReceiver r k).1.filter = s.filter := rfl

theorem removeReceiver_rest (s : Subscription) (r k : Nat) :
    (s.removeReceiver r k).1.subscription_id = s.subscription_id ∧
      (s.removeReceiver r k).1.filter = s.filter ∧
        (s.removeReceiver r k).1.arguments = s.arguments := by
  unfold removeReceiver
  split
  · split <;> exact ⟨rfl, rfl, rfl⟩
  · exact ⟨rfl, rfl, rfl⟩

end Subscription

end UActor
