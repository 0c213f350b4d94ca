import UActor.Remote.Propagation

/-!
# Hello between other calls

`handle_remote_hello` subscribes to the updates of the router and takes its snapshot later, with
calls of other threads before, between and behind the two. The updates wait in a queue until the
connection handles them.
-/

namespace UActor

open Processor

namespace RemoteConnection

open Router

/-! ## Events -/

/-- How far `handle_remote_hello` has come. -/
inductive Phase where
  | fresh
  | registered
  | listed
deriving DecidableEq, Repr

/-- What an update hands to the processors: what can be read of it, if its subscriber can be
read. -/
def toProcess (order : MapOrder) (p : Publication) : Option (Filter × SubscriptionArguments) :=
  match readUpdate order p, (p.attributes.getNestedComponent "subscriber").bind
    ActorIdentifier.fromPublicationMap with
  | some (some entry), some _ => some entry
  | _, _ => none

/-- A router and a connection to it. An entry of `queue` or of `passed` names the subscription that
it is about; the filters and arguments in `passed` are those that `process_added` was called
with. -/
structure Greeting where
  router : Router
  phase : Phase
  queue : List (Nat × Publication)
  processors : List Processor
  passed : List (Nat × Filter × SubscriptionArguments)

inductive Event where
  | call (f : Filter) (r : Nat) (subscriber : ActorIdentifier) (source_peer : String)
      (args : SubscriptionArguments)
  | register
  | snapshot
  | handle

/-- The chain of the snapshot, with its calls. -/
def loggedChain (st : Option (List Processor) × List (Filter × SubscriptionArguments)) (f : Filter)
    (arguments : SubscriptionArguments) :
    (Option (List Processor) × List (Filter × SubscriptionArguments)) × Filter × Bool :=
  let out := egressChain st.1 f arguments
  ((out.1, st.2 ++ [(f, arguments)]), out.2)

namespace Greeting

section

variable (order : MapOrder) (board : Board) (X : String) (forwarder : Nat) (egress : List Processor)

/-- The connection selects the update. -/
def selects (p : Publication) : Bool :=
  (updateFilter board.NODE_ID X "local_subscription_added").matches p

/-- A call, with the updates that the connection selects. -/
def call (g : Greeting) (phase : Phase) (op : Op) : Greeting :=
  let out := g.router.step board op
  { g with
    router := out.1
    phase
    queue := if phase = .fresh then g.queue
      else g.queue ++ (out.2.2.filter (selects board X)).map fun p => (op.subject out, p) }

/-- The subscription that `local_sub_added_id` stands for. -/
def registration : Op :=
  .add (updateFilter board.NODE_ID X "local_subscription_added") forwarder
    ⟨board.NODE_ID, "tcp_forwarder", "1"⟩ board.NODE_ID .default

/-- The snapshot, whose calls follow the subscriptions that it lists. `none` is an exception. -/
def snapshot (g : Greeting) : Option Greeting :=
  let listed := (g.router.subscriptions.filter fun S => Other g.router X S).map (·.subscription_id)
  let lists := g.router.subscriptionListsFor board X loggedChain (some egress, []) 5
  lists.2.1.1.map fun processors =>
    { g with router := lists.1, phase := .listed, processors, passed :=
      g.passed ++ listed.zip lists.2.1.2 }

/-- `receive` handles the first notification. `none` is an exception. -/
def handle (g : Greeting) : Option Greeting :=
  match g.queue with
  | [] => none
  | (s, p) :: queue =>
    (handleLocalSubscriptionAdded order g.processors p).map fun out =>
      { g with queue, processors := out.1, passed := g.passed ++ (toProcess order p).toList.map fun e => (s, e) }

/-- One event, if it can happen then. The notifications wait for the lock that the hello holds. -/
def step (g : Greeting) : Event → Option Greeting
  | .call f r subscriber source_peer args =>
      some (call board X g g.phase (.add f r subscriber source_peer args))
  | .register =>
    if g.phase = .fresh then some (call board X g .registered (registration board X forwarder))
    else none
  | .snapshot => if g.phase = .registered then snapshot board X egress g else none
  | .handle => if g.phase = .listed then handle order g else none

def start (rt : Router) : Greeting := ⟨rt, .fresh, [], [], []⟩

def run (rt : Router) (events : List Event) : Option Greeting :=
  events.foldlM (step order board X forwarder egress) (start rt)

end

end Greeting

/-! ## The updates of a call -/

section

variable {order : MapOrder} {board : Board} {X : String} {rt : Router} {f : Filter} {r : Nat}
  {who : ActorIdentifier} {src : String} {args : SubscriptionArguments} {s : Nat}

/-- The filter of the update can be handed to the processors. -/
def passes (order : MapOrder) (board : Board) (X : String) (p : Publication) : Bool :=
  Greeting.selects board X p && (toProcess order p).isSome

/-- The call publishes an update that the connection selects and can read. -/
def Tells (order : MapOrder) (board : Board) (X : String) (rt : Router) (op : Op) : Prop :=
  ∃ p ∈ (rt.step board op).2.2, passes order board X p = true

theorem passes_replies {p : Publication} (hp : p ∈ replies board rt f args who) :
    passes order board X p = false := by
  unfold replies at hp
  split at hp
  · obtain ⟨S, -, rfl⟩ := List.mem_map.mp hp
    simp [passes, Greeting.selects, updateFilter_eq, Filter.matches,
      Filter.checkRequired, Filter.passes, Constraint.attr,
      Constraint.acceptsStr, Constraint.matchStr, Constraint.matchWith, Publication.getAttr_setAttr]
  · simp at hp

theorem countP_passes (order : MapOrder) (board : Board) (X : String) (rt : Router) (f : Filter)
    (r : Nat) (who : ActorIdentifier) (src : String) (args : SubscriptionArguments)
    [Decidable (Tells order board X rt (.add f r who src args))] :
    (rt.step board (.add f r who src args)).2.2.countP (passes order board X) =
      if Tells order board X rt (.add f r who src args) then 1 else 0 := by
  have hreplies : (replies board rt f args who).countP (passes order board X) = 0 := by
    rw [List.countP_eq_zero]
    intro p hp
    simp [passes_replies hp]
  have htells : Tells order board X rt (.add f r who src args) ↔
      0 < (rt.step board (.add f r who src args)).2.2.countP (passes order board X) :=
        List.countP_pos_iff.symm
  have hle : (rt.step board (.add f r who src args)).2.2.countP (passes order board X) ≤ 1 := by
    rcases updates_cases board rt f r who src args with hus | ⟨exclude, include_, hus⟩
    · rw [hus, hreplies]
      exact Nat.zero_le 1
    · rw [hus, List.countP_append, hreplies, List.countP_singleton]
      split <;> omega
  split
  · rename_i h
    have := htells.mp h
    omega
  · rename_i h
    have := mt htells.mpr h
    omega

theorem heard_add (hinv : Inv board rt) (hs : s ≠ 1) (X : String) (f : Filter) (r : Nat)
    (who : ActorIdentifier) (src : String) (args : SubscriptionArguments) :
    Heard (rt.step board (.add f r who src args)).1 X s ↔
    Heard rt X s ∨ ((rt.step board (.add f r who src args)).2.1 = s ∧ src ≠ X) := by
  have hstep := step_cases board rt (.add f r who src args)
  generalize rt.step board (.add f r who src args) = out at hstep
  cases hstep with
  | fetch => simp [hs.symm]
  | join _ _ _ _ _ sub _ hsub =>
    have hmem := (mem_of_findEqual hsub).1
    have hmemi : sub ∈ (rt.internNode src).1.subscriptions := by rwa [internNode_subscriptions]
    have hnodes := Subscription.mem_nodes_addReceiver (hinv.subs.wf sub hmem) r
      (rt.internNode src).2
    have hname := hinv.peers.nodeName_self src
    rw [heard_setSub hmemi (Subscription.addReceiver_id sub r _)]
    dsimp only
    split
    · rename_i hid
      have hother : Other (rt.internNode src).1 X (sub.addReceiver r (rt.internNode src).2).1 ↔
          Other (rt.internNode src).1 X sub ∨ src ≠ X := by
        unfold Other
        constructor
        · rintro ⟨k, hk, hX⟩
          rcases (hnodes k).mp hk with hk | rfl
          · exact Or.inl ⟨k, hk, hX⟩
          · exact Or.inr (by rwa [hname] at hX)
        · rintro (⟨k, hk, hX⟩ | hX)
          · exact ⟨k, (hnodes k).mpr (Or.inl hk), hX⟩
          · exact ⟨_, (hnodes _).mpr (Or.inr rfl), by rwa [hname]⟩
      rw [hother, other_internNode hinv.peers hmem, ← hid, heard_iff hinv.subs hmem]
      simp
    · rename_i hid
      rw [heard_internNode hinv.peers]
      simp [hid]
  | create _ _ _ _ _ _ hsub =>
    rw [heard_createSubscription (hinv.subs.internNode src), internNode_next_sub_id,
      hinv.peers.nodeName_self]
    dsimp only
    split
    · rename_i hid
      have hfresh : ¬ Heard rt X s := by
        rintro ⟨T, hT, hTid, -⟩
        have := (hinv.subs.ids T hT).2
        omega
      simp [hfresh, hid]
    · rename_i hid
      rw [heard_internNode hinv.peers]
      simp [hid]

end

/-! ## Runs -/

namespace Greeting

section

variable {order : MapOrder} {board : Board} {X : String} {forwarder : Nat} {egress : List Processor}
  {rt : Router} {g g' : Greeting} {s : Nat}

/-- Between its two steps, the hello hears of no call about the subscription. Behind the snapshot,
the connection is told of a call exactly if some node other than `X` subscribes now and none did
before. -/
def OnePath (order : MapOrder) (board : Board) (X : String) (forwarder : Nat) (g : Greeting)
    (s : Nat) : Event → Prop
  | .call f r who src args => (g.router.step board (.add f r who src args)).2.1 = s →
    match g.phase with
    | .fresh => True
    | .registered => ¬ Tells order board X g.router (.add f r who src args)
    | .listed => Tells order board X g.router (.add f r who src args) ↔
        ¬ Heard g.router X s ∧ src ≠ X
  | .register => (g.router.step board (registration board X forwarder)).2.1 = s →
    ¬ Tells order board X g.router (registration board X forwarder)
  | _ => True

/-- How often the filter of the subscription was handed to the processors, or will be. -/
def handed (order : MapOrder) (g : Greeting) (s : Nat) : Nat :=
  g.passed.countP (fun e => e.1 = s) + g.queue.countP fun e => e.1 = s &&
    (toProcess order e.2).isSome

theorem handed_call (order : MapOrder) (board : Board) (X : String) (g : Greeting) (s : Nat)
    (phase : Phase) (op : Op) :
    handed order (call board X g phase op) s = handed order g s +
    if phase ≠ .fresh ∧ op.subject (g.router.step board op) = s then
      (g.router.step board op).2.2.countP (passes order board X)
    else 0 := by
  unfold handed call
  dsimp only
  by_cases hphase : phase = .fresh
  · simp [hphase]
  · rw [if_neg hphase, List.countP_append, List.countP_map, List.countP_filter]
    by_cases hs : op.subject (g.router.step board op) = s
    · rw [if_pos ⟨hphase, hs⟩, Nat.add_assoc]
      congr 2
      apply List.countP_congr
      intro p _
      simp [passes, hs, and_comm]
    · rw [if_neg fun h => hs h.2]
      simp [hs]

/-- How often the filter of a subscription is to be handed to the processors. -/
def Right (order : MapOrder) (X : String) (g : Greeting) (s : Nat) : Prop :=
  (g.phase ≠ .listed → handed order g s = 0) ∧
    (g.phase = .listed → (Heard g.router X s → handed order g s = 1) ∧
      (¬ Heard g.router X s → handed order g s = 0))

theorem Right.call (h : Right order X g s) (hinv : Inv board g.router) (hs : s ≠ 1) {f : Filter}
    {r : Nat} {who : ActorIdentifier} {src : String} {args : SubscriptionArguments}
    (hpath : OnePath order board X forwarder g s (.call f r who src args)) :
    Right order X (Greeting.call board X g g.phase (.add f r who src args)) s := by
  classical
  have hhanded := handed_call order board X g s g.phase (.add f r who src args)
  have hheard := heard_add hinv hs X f r who src args
  have hpasses := countP_passes order board X g.router f r who src args
  change _ = _ +
    if g.phase ≠ .fresh ∧ (g.router.step board (.add f r who src args)).2.1 = s then _
    else 0 at hhanded
  unfold OnePath at hpath
  unfold Right at h ⊢
  change (g.phase ≠ .listed → _) ∧ (g.phase = .listed →
    (Heard (g.router.step board (.add f r who src args)).1 X s → _) ∧
    (¬ Heard (g.router.step board (.add f r who src args)).1 X s → _))
  rw [hheard, hhanded]
  by_cases hsub : (g.router.step board (.add f r who src args)).2.1 = s
  · have hpath := hpath hsub
    cases hphase : g.phase with
    | fresh => simpa [hphase] using h
    | registered =>
      rw [hphase] at hpath h
      have hpath : ¬ Tells order board X g.router (.add f r who src args) := hpath
      rw [if_neg hpath] at hpasses
      simpa [hsub, hpasses] using h
    | listed =>
      rw [hphase] at hpath h
      have hpath : Tells order board X g.router (.add f r who src args) ↔ ¬ Heard g.router X s ∧
          src ≠ X := hpath
      have h := h.2 rfl
      simp only [hsub, true_and, ne_eq, reduceCtorEq, not_false_eq_true, and_self, if_true,
        not_true_eq_false, false_imp_iff, true_imp_iff, hpasses, hpath]
      by_cases hold : Heard g.router X s
      · simp [hold, h.1 hold]
      · by_cases hsrc : src = X
        · simp [hold, hsrc, h.2 hold]
        · simp [hold, hsrc, h.2 hold]
  · simpa [hsub] using h

theorem Right.register (h : Right order X g s) (hphase : g.phase = .fresh)
    (hpath : OnePath order board X forwarder g s .register) :
    Right order X (Greeting.call board X g .registered (registration board X forwarder)) s := by
  have hhanded := handed_call order board X g s .registered (registration board X forwarder)
  have hzero := h.1 (by rw [hphase]; simp)
  refine ⟨fun _ => ?_, fun hlisted => absurd hlisted (by simp [Greeting.call])⟩
  rw [hhanded, hzero, Nat.zero_add]
  split
  · rename_i hsub
    rw [List.countP_eq_zero]
    exact fun p hp hpasses => hpath hsub.2 ⟨p, hp, hpasses⟩
  · rfl

theorem log_listing (board : Board) (st : Option (List Processor))
    (log : List (Filter × SubscriptionArguments)) (subs : List Subscription) :
    (listing board loggedChain (st, log) subs).1.2 = log ++ subs.map item := by
  induction subs generalizing st log with
  | nil => simp [listing]
  | cons S subs ih =>
    show (listing board loggedChain ((egressChain st S.filter.toFilter S.arguments).1, log ++
        [item S]) subs).1.2 = _
    rw [ih, List.map_cons, List.append_assoc]
    rfl

theorem listed_fst (hinv : Inv board rt) (X : String) (egress : List Processor) :
    ((((rt.subscriptions.filter fun S => Other rt X S).map (·.subscription_id)).zip
      (rt.subscriptionListsFor board X loggedChain (some egress, []) 5).2.1.2).map Prod.fst) =
      (rt.subscriptions.filter fun S => Other rt X S).map (·.subscription_id) := by
  rw [(subscriptionListsFor_listing hinv loggedChain X (some egress, []) 5).1, log_listing,
    List.nil_append]
  exact List.map_fst_zip (by simp)

theorem count_listed (hinv : Inv board rt) (X : String) (s : Nat) :
    (Heard rt X s → ((rt.subscriptions.filter fun S => Other rt X S).map (·.subscription_id)).count
      s = 1) ∧
      (¬ Heard rt X s → ((rt.subscriptions.filter fun S => Other rt X S).map
        (·.subscription_id)).count s = 0) := by
  have hmem : s ∈ (rt.subscriptions.filter fun S => Other rt X S).map (·.subscription_id) ↔
      Heard rt X s := by
    unfold Heard
    simp [and_comm, and_left_comm]
  have hnodup : ((rt.subscriptions.filter fun S => Other rt X S).map (·.subscription_id)).Nodup :=
    hinv.subs.ids_nodup.sublist (List.filter_sublist.map _)
  exact ⟨fun h => List.count_eq_one_of_mem hnodup (hmem.mpr h), fun h =>
    List.count_eq_zero_of_not_mem (mt hmem.mp h)⟩

theorem Right.snapshot (h : Right order X g s) (hinv : Inv board g.router)
    (hphase : g.phase = .registered) (hstep : snapshot board X egress g = some g') :
    Right order X g' s := by
  unfold Greeting.snapshot at hstep
  obtain ⟨processors, -, rfl⟩ := Option.map_eq_some_iff.mp hstep
  have hzero := h.1 (by rw [hphase]; simp)
  have hlisted := listed_fst hinv X egress
  have hheard : Heard (g.router.subscriptionListsFor board X loggedChain (some egress, []) 5).1 X
      s ↔
    Heard g.router X s :=
    heard_internNode hinv.peers X X s
  have hcount := count_listed hinv X s
  unfold handed at hzero
  refine ⟨fun hnot => absurd rfl hnot, fun _ => ?_⟩
  rw [hheard]
  unfold handed
  dsimp only
  rw [← hlisted, List.count_eq_countP, List.countP_map] at hcount
  rw [List.countP_append]
  generalize ((g.router.subscriptions.filter fun S => Other g.router X S).map
    (·.subscription_id)).zip (g.router.subscriptionListsFor board X loggedChain (some egress, [])
      5).2.1.2 = listed at hcount ⊢
  have hsame : listed.countP ((fun x => x == s) ∘ Prod.fst) = listed.countP fun e => e.1 = s := by
    apply List.countP_congr
    intro e _
    simp
  rw [hsame] at hcount
  refine ⟨fun hyes => ?_, fun hno => ?_⟩
  · have := hcount.1 hyes
    omega
  · have := hcount.2 hno
    omega

theorem Right.handle (h : Right order X g s) (hstep : handle order g = some g') :
    Right order X g' s := by
  unfold Greeting.handle at hstep
  split at hstep
  · exact absurd hstep (by simp)
  · rename_i t p queue hqueue
    obtain ⟨out, -, rfl⟩ := Option.map_eq_some_iff.mp hstep
    have hsame : handed order ⟨g.router, g.phase, queue, out.1,
        g.passed ++ (toProcess order p).toList.map fun e => (t, e)⟩ s = handed order g s := by
      unfold handed
      dsimp only
      rw [hqueue, List.countP_append, List.countP_cons]
      cases hp : toProcess order p with
      | none => simp
      | some e =>
        by_cases ht : t = s
        · simp [ht]
          omega
        · simp [ht]
    unfold Right at h ⊢
    rw [hsame]
    exact h

theorem inv_step {e : Event} (hinv : Inv board g.router)
    (hstep : step order board X forwarder egress g e = some g') :
    Inv board g'.router := by
  cases e with
  | call f r who src args =>
    rw [← Option.some.inj hstep]
    exact hinv.step _
  | register =>
    obtain ⟨-, hstep⟩ := Option.ite_none_right_eq_some.mp hstep
    rw [← Option.some.inj hstep]
    exact hinv.step _
  | snapshot =>
    obtain ⟨-, hstep⟩ := Option.ite_none_right_eq_some.mp hstep
    unfold Greeting.snapshot at hstep
    obtain ⟨processors, -, rfl⟩ := Option.map_eq_some_iff.mp hstep
    exact hinv.internNode X
  | handle =>
    obtain ⟨-, hstep⟩ := Option.ite_none_right_eq_some.mp hstep
    unfold Greeting.handle at hstep
    split at hstep
    · exact absurd hstep (by simp)
    · obtain ⟨out, -, rfl⟩ := Option.map_eq_some_iff.mp hstep
      exact hinv

theorem Right.step {e : Event} (h : Right order X g s) (hinv : Inv board g.router) (hs : s ≠ 1)
    (hpath : OnePath order board X forwarder g s e)
    (hstep : step order board X forwarder egress g e = some g') :
    Right order X g' s := by
  cases e with
  | call f r who src args =>
    rw [← Option.some.inj hstep]
    exact h.call hinv hs hpath
  | register =>
    obtain ⟨hphase, hstep⟩ := Option.ite_none_right_eq_some.mp hstep
    rw [← Option.some.inj hstep]
    exact h.register hphase hpath
  | snapshot =>
    obtain ⟨hphase, hstep⟩ := Option.ite_none_right_eq_some.mp hstep
    exact h.snapshot hinv hphase hstep
  | handle =>
    exact h.handle (Option.ite_none_right_eq_some.mp hstep).2

/-- When every update has been handled, the filter of a subscription that some node other than `X`
has was handed to the processors once, if its calls took one path. -/
theorem passed_once {events : List Event} (hrt : Reachable board rt)
    (hrun : run order board X forwarder egress rt events = some g) (hlisted : g.phase = .listed)
    (hqueue : g.queue = []) {S : Subscription} (hS : S ∈ g.router.subscriptions)
    (hother : Other g.router X S)
    (hpath : ∀ pre e post before, events = pre ++ e :: post → run order board X forwarder egress rt
      pre = some before →
      OnePath order board X forwarder before S.subscription_id e) :
    g.passed.countP (fun e => e.1 = S.subscription_id) = 1 := by
  have hinv : Inv board g.router := Runs.invariant (fun g => Inv board g.router) hrt.inv
    (fun _ _ _ => inv_step) hrun
  have hs : S.subscription_id ≠ 1 := by
    have := (hinv.subs.ids S hS).1
    omega
  have hright : Inv board g.router ∧ Right order X g S.subscription_id := by
    refine Runs.invariant_of (fun g => Inv board g.router ∧ Right order X g S.subscription_id)
      (fun g e => OnePath order board X forwarder g S.subscription_id e) ⟨hrt.inv, ?_⟩ ?_ hpath hrun
    · exact ⟨fun _ => rfl, fun h => absurd h (by simp [start])⟩
    · rintro g e g' ⟨hinv, hright⟩ hpath hstep
      exact ⟨inv_step hinv hstep, hright.step hinv hs hpath hstep⟩
  have hhanded := (hright.2.2 hlisted).1 ((heard_iff hinv.subs hS).mpr hother)
  unfold handed at hhanded
  rw [hqueue] at hhanded
  exact hhanded

end

def localCall : Event :=
  .call ⟨[.int "a" 1 .EQ false], []⟩ 1 ⟨"node", "t", "1"⟩ "node" ⟨.GLOBAL, 0, .FUTURE⟩

def anyOrder : MapOrder := ⟨List.reverse, fun m => List.reverse_perm m⟩

def plainEgress : List Processor := Hello.egressProcessors ⟨"node", [], [], [], "", ""⟩

/-- A local actor that subscribes behind the snapshot. -/
theorem passed_once_behind : ∃ g S, run anyOrder ⟨"node", 3⟩ "x" 7 plainEgress (init ⟨"node", 3⟩)
      [.register, .snapshot, localCall, .handle, .handle] = some g ∧
    S ∈ g.router.subscriptions ∧ S.subscription_id = 12 ∧
    g.passed.countP (fun e => e.1 = S.subscription_id) = 1 := by
  obtain ⟨g, S, hrun, hlisted, hqueue, hS, hid, hother⟩ :
      ∃ g S, run anyOrder ⟨"node", 3⟩ "x" 7 plainEgress
        (init ⟨"node", 3⟩) [.register, .snapshot, localCall, .handle, .handle] = some g ∧
      g.phase = .listed ∧ g.queue = [] ∧ S ∈ g.router.subscriptions ∧ S.subscription_id = 12 ∧
      Other g.router "x" S :=
    ⟨_, ⟨12, _, _, _⟩, rfl, rfl, rfl, List.mem_cons_of_mem _ List.mem_cons_self, rfl, by decide⟩
  refine ⟨g, S, hrun, hS, hid, passed_once .init hrun hlisted hqueue hS hother ?_⟩
  rw [hid]
  refine Runs.meets_cons rfl ?_
    (Runs.meets_cons rfl ?_ (Runs.meets_cons rfl ?_
      (Runs.meets_cons rfl ?_ (Runs.meets_cons rfl ?_ Runs.meets_nil))))
  · exact nofun
  · exact trivial
  · intro _
    refine iff_of_true ⟨_, List.mem_cons_self, rfl⟩ ⟨?_, by decide⟩
    rintro ⟨S, hS, hid, -⟩
    obtain rfl := List.mem_singleton.mp hS
    exact absurd hid (by decide)
  · exact trivial
  · exact trivial

/-- A local actor that subscribes between the two steps of the hello is counted twice. -/
theorem passed_twice_between : ∃ g S, run anyOrder ⟨"node", 3⟩ "x" 7 plainEgress (init ⟨"node", 3⟩)
      [.register, localCall, .snapshot, .handle, .handle] = some g ∧
    g.phase = .listed ∧ g.queue = [] ∧ S ∈ g.router.subscriptions ∧ Other g.router "x" S ∧
    S.filter.toFilter = ⟨[.int "a" 1 .EQ false], []⟩ ∧
    g.passed.countP (fun e => e.1 = S.subscription_id) = 2 :=
  ⟨_, ⟨12, _, _, _⟩, rfl, rfl, rfl, List.mem_cons_of_mem _ List.mem_cons_self, by decide, rfl, rfl⟩

end Greeting

end RemoteConnection

end UActor
