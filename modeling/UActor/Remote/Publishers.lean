import UActor.Runtime.Node

/-!
# Publishers and the forwarder

Several threads call `Router::publish` at once: it holds a shared lock only. Each of them takes a
number and then enqueues copies at the receiver of the forwarder, and the forwarder takes them out
and asks `should_forward` of the connection to a peer.
-/

namespace UActor

/-- The forwarder as one peer sees it: the receiver of the forwarder, the subscriptions that are
mapped to the connection, and its partner. -/
structure Outlet where
  board : Board
  router : Router
  order : Router.VisitOrder
  receiver : Nat
  subscription_ids : List Nat
  partner_node_id : String

/-- A stamped publication, and the copies of it that are meant for the peer. -/
structure Issue where
  publication : Publication
  copies : List Publication

/-- A copy in the queue. Its ticket is the position of its publication among all. -/
structure Entry where
  ticket : Nat
  publication : Publication

/-- What the forwarder did with a copy. -/
structure Decision where
  entry : Entry
  now : UInt32
  forwarded : Bool

structure Publishers where
  sequence_number : UInt32
  published : List Issue
  /-- What the threads still have to enqueue. -/
  pending : List (Nat × List Entry)
  queue : List Entry
  outgoing_sequence_infos : SequenceInfos
  log : List Decision

namespace Publishers

def init : Publishers := ⟨1, [], [], [], [], []⟩

def pendingOf (s : Publishers) (thread : Nat) : List Entry := (Assoc.find thread s.pending).getD []

/-- All copies that were enqueued, in the order of the queue. -/
def enqueued (s : Publishers) : List Entry := s.log.map Decision.entry ++ s.queue

inductive Step where
  | take (thread : Nat) (p : Publication)
  | enqueue (thread : Nat)
  | forward (now : UInt32)

/-- The copies for the subscriptions of the peer. -/
def copiesFor (o : Outlet) (ds : List Router.Delivery) : List Publication :=
  (ds.filter fun d => d.receiver = o.receiver ∧ d.subscription_id ∈ o.subscription_ids).map
    Router.Delivery.publication

def take (o : Outlet) (s : Publishers) (thread : Nat) (p : Publication) : Option Publishers :=
  if (s.pendingOf thread).isEmpty then
    (Router.publishInternal o.board o.router o.order s.sequence_number p).1.map fun ds =>
      { s with
        sequence_number := (Router.publishInternal o.board o.router o.order s.sequence_number p).2
        published := s.published ++ [⟨(Router.stamp o.board s.sequence_number p).1, copiesFor o ds⟩]
        pending := Assoc.put thread ((copiesFor o ds).map fun c => ⟨s.published.length, c⟩)
          s.pending }
  else none

def enqueue (s : Publishers) (thread : Nat) : Option Publishers :=
  match s.pendingOf thread with
  | [] => none
  | e :: rest => some { s with pending := Assoc.put thread rest s.pending, queue := s.queue ++ [e] }

def forward (o : Outlet) (s : Publishers) (now : UInt32) : Option Publishers :=
  match s.queue with
  | [] => none
  | e :: rest =>
    (shouldForward o.partner_node_id s.outgoing_sequence_infos now e.publication).map fun r =>
      { s with queue := rest, outgoing_sequence_infos := r.1, log := s.log ++ [⟨e, now, r.2⟩] }

def step (o : Outlet) (s : Publishers) : Step → Option Publishers
  | .take thread p => s.take o thread p
  | .enqueue thread => s.enqueue thread
  | .forward now => s.forward o now

def run (o : Outlet) (steps : List Step) : Option Publishers := steps.foldlM (step o) init

/-- Nothing is left to enqueue or to take out. -/
def Done (s : Publishers) : Prop := (∀ e ∈ s.pending, e.2.isEmpty = true) ∧ s.queue.isEmpty = true

instance (s : Publishers) : Decidable s.Done :=
  inferInstanceAs (Decidable ((∀ e ∈ s.pending, e.2.isEmpty = true) ∧ s.queue.isEmpty = true))

/-! ## Order -/

/-- A publication of this node that did not come through another node. -/
def Local (o : Outlet) (p : Publication) : Prop :=
  Node.Own o.board p ∧ p.hasAttr "_internal_forwarded_by" = false

instance (o : Outlet) (p : Publication) : Decidable (Local o p) :=
  inferInstanceAs (Decidable (_ ∧ _))

/-- The stamp of a publication of this node that the connection compares. -/
def offered (o : Outlet) (now : UInt32) (p : Publication) : Option SequenceInfo :=
  if Node.Own o.board p ∧ cameThrough o.partner_node_id p = some false then p.sequenceInfo now
    else none

/-- Every publication of this node with a copy for the peer was forwarded. -/
def AllForwarded (o : Outlet) (s : Publishers) : Prop :=
  ∀ k i, s.published[k]? = some i → i.copies ≠ [] → Local o i.publication →
    ∃ d ∈ s.log, d.entry.ticket = k ∧ d.forwarded = true

/-- The first copy of a publication is enqueued behind older publications only. -/
def InOrder (o : Outlet) (s : Publishers) : Prop :=
  ∀ pre e post i, s.enqueued = pre ++ e :: post → (∀ e' ∈ pre, e'.ticket ≠ e.ticket) →
    s.published[e.ticket]? = some i → Local o i.publication →
    ∀ e' ∈ pre, ∀ info info', offered o 0 e'.publication = some info' →
    i.publication.sequenceInfo 0 = some info →
      info'.Before info

/-! ## Copies -/

theorem copy_sequenceInfo {p c : Publication} (h : c = p ∨ c = p.copy) (now : UInt32) :
    c.sequenceInfo now = p.sequenceInfo now := by
  unfold Publication.sequenceInfo
  rw [(Node.copy_attrs h _).2, (Node.copy_attrs h _).2]

theorem copy_local {o : Outlet} {p c : Publication} (h : c = p ∨ c = p.copy) (hp : Local o p) :
    Local o c := by
  refine ⟨((Node.copy_attrs h _).1).trans hp.1, ?_⟩
  rcases h with rfl | rfl
  · exact hp.2
  · exact Publication.hasAttr_copy hp.2

/-- The copy is still to be enqueued, or was enqueued. -/
def Held (s : Publishers) (e : Entry) : Prop := e ∈ s.enqueued ∨ ∃ thread, e ∈ s.pendingOf thread

theorem pendingOf_put {s s' : Publishers} {thread : Nat} {l : List Entry}
    (h : s'.pending = Assoc.put thread l s.pending) (thread' : Nat) :
    s'.pendingOf thread' = if thread = thread' then l else s.pendingOf thread' := by
  unfold pendingOf
  rw [h, Assoc.find_put]
  split <;> rfl

theorem held_put {s s' : Publishers} {thread : Nat} {l : List Entry}
    (hidle : s.pendingOf thread = []) (henqueued : s'.enqueued = s.enqueued)
    (h : s'.pending = Assoc.put thread l s.pending) (e : Entry) :
    s'.Held e ↔ s.Held e ∨ e ∈ l := by
  unfold Held
  simp only [henqueued, pendingOf_put h, or_assoc]
  refine or_congr_right ?_
  constructor
  · rintro ⟨thread', he⟩
    split at he
    · exact Or.inr he
    · exact Or.inl ⟨thread', he⟩
  · rintro (⟨thread', he⟩ | he)
    · refine ⟨thread', ?_⟩
      rw [if_neg]
      · exact he
      · rintro rfl
        rw [hidle] at he
        exact absurd he List.not_mem_nil
    · exact ⟨thread, by rw [if_pos rfl]; exact he⟩

theorem held_enqueue {s s' : Publishers} {thread : Nat} (hstep : s.enqueue thread = some s')
    (e : Entry) :
    s'.Held e ↔ s.Held e := by
  unfold enqueue at hstep
  split at hstep
  · simp at hstep
  · rename_i e₀ rest hpending
    have henqueued : s'.enqueued = s.enqueued ++ [e₀] := by
      rw [← Option.some.inj hstep]
      exact (List.append_assoc ..).symm
    have hput : s'.pending = Assoc.put thread rest s.pending := by rw [← Option.some.inj hstep]
    unfold Held
    simp only [henqueued, List.mem_append, List.mem_singleton, pendingOf_put hput]
    constructor
    · rintro ((he | rfl) | ⟨thread', he⟩)
      · exact Or.inl he
      · exact Or.inr ⟨thread, by rw [hpending]; exact List.mem_cons_self⟩
      · split at he
        · exact Or.inr ⟨thread, by rw [hpending]; exact List.mem_cons_of_mem _ he⟩
        · exact Or.inr ⟨thread', he⟩
    · rintro (he | ⟨thread', he⟩)
      · exact Or.inl (Or.inl he)
      · by_cases hthread : thread = thread'
        · rw [← hthread, hpending] at he
          rcases List.mem_cons.mp he with rfl | he
          · exact Or.inl (Or.inr rfl)
          · exact Or.inr ⟨thread, by rw [if_pos rfl]; exact he⟩
        · exact Or.inr ⟨thread', by rw [if_neg hthread]; exact he⟩

theorem enqueued_forward {o : Outlet} {s s' : Publishers} {now : UInt32}
    (hstep : s.forward o now = some s') :
    s'.enqueued = s.enqueued ∧ s'.pending = s.pending ∧ s'.published = s.published := by
  unfold forward at hstep
  split at hstep
  · simp at hstep
  · rename_i e rest hqueue
    obtain ⟨r, -, rfl⟩ := Option.map_eq_some_iff.mp hstep
    refine ⟨?_, rfl, rfl⟩
    unfold enqueued
    rw [hqueue]
    simp

/-- No copy is lost or made up. -/
structure Kept (s : Publishers) : Prop where
  copies : ∀ i ∈ s.published, ∀ c ∈ i.copies, c = i.publication ∨ c = i.publication.copy
  known : ∀ e, s.Held e → ∃ i, s.published[e.ticket]? = some i ∧ e.publication ∈ i.copies
  held : ∀ k i, s.published[k]? = some i → i.copies ≠ [] → ∃ e, s.Held e ∧ e.ticket = k

theorem kept_init : Kept init :=
  ⟨by simp [init], by simp [Held, init, enqueued, pendingOf], by simp [init]⟩

theorem Kept.congr {s s' : Publishers} (h : Kept s) (hpub : s'.published = s.published)
    (hheld : ∀ e, s'.Held e ↔ s.Held e) : Kept s' := by
  refine ⟨?_, ?_, ?_⟩
  · rw [hpub]
    exact h.copies
  · intro e he
    rw [hpub]
    exact h.known e ((hheld e).mp he)
  · intro k i hi hne
    rw [hpub] at hi
    obtain ⟨e, he, hk⟩ := h.held k i hi hne
    exact ⟨e, (hheld e).mpr he, hk⟩

theorem Kept.take {o : Outlet} {s s' : Publishers} {thread : Nat} {p : Publication} (h : Kept s)
    (hstep : s.take o thread p = some s') : Kept s' := by
  unfold Publishers.take at hstep
  split at hstep
  · rename_i hidle
    rw [List.isEmpty_iff] at hidle
    obtain ⟨ds, hds, hs'⟩ := Option.map_eq_some_iff.mp hstep
    have hpub : s'.published =
        s.published ++ [⟨(Router.stamp o.board s.sequence_number p).1, copiesFor o ds⟩] := by
          rw [← hs']
    have henqueued : s'.enqueued = s.enqueued := by rw [← hs']; rfl
    have hput : s'.pending =
        Assoc.put thread ((copiesFor o ds).map fun c => ⟨s.published.length, c⟩) s.pending := by
          rw [← hs']
    have hheld : ∀ e, s'.Held e ↔ s.Held e ∨
        (e.ticket = s.published.length ∧ e.publication ∈ copiesFor o ds) := by
      intro e
      rw [held_put hidle henqueued hput, List.mem_map]
      refine or_congr_right ⟨?_, ?_⟩
      · rintro ⟨c, hc, rfl⟩
        exact ⟨rfl, hc⟩
      · rintro ⟨hk, hc⟩
        exact ⟨e.publication, hc, by rw [← hk]⟩
    refine ⟨?_, ?_, ?_⟩
    · intro i hi c hc
      rw [hpub] at hi
      rcases List.mem_append.mp hi with hi | hi
      · exact h.copies i hi c hc
      · obtain rfl := List.mem_singleton.mp hi
        obtain ⟨d, hd, rfl⟩ := List.mem_map.mp hc
        obtain ⟨sel, -, rfl⟩ := Option.map_eq_some_iff.mp hds
        exact Node.mem_fanOut (List.mem_of_mem_filter hd)
    · intro e he
      rw [hpub]
      rcases (hheld e).mp he with he | ⟨hk, hmem⟩
      · obtain ⟨i, hi, hmem⟩ := h.known e he
        exact ⟨i, Runs.getElem?_snoc.mpr (Or.inl hi), hmem⟩
      · exact ⟨_, Runs.getElem?_snoc.mpr (Or.inr ⟨hk, rfl⟩), hmem⟩
    · intro k i hi hne
      rw [hpub] at hi
      rcases Runs.getElem?_snoc.mp hi with hi | ⟨hk, rfl⟩
      · obtain ⟨e, he, hk⟩ := h.held k i hi hne
        exact ⟨e, (hheld e).mpr (Or.inl he), hk⟩
      · obtain ⟨c, hc⟩ := List.exists_mem_of_ne_nil _ hne
        exact ⟨⟨k, c⟩, (hheld _).mpr (Or.inr ⟨hk, hc⟩), rfl⟩
  · simp at hstep

theorem Kept.step {o : Outlet} {s s' : Publishers} {a : Step} (h : Kept s)
    (hstep : s.step o a = some s') :
    Kept s' := by
  cases a with
  | take thread p => exact h.take hstep
  | enqueue thread =>
    have hpub : s'.published = s.published := by
      simp only [Publishers.step, enqueue] at hstep
      split at hstep
      · simp at hstep
      · rw [← Option.some.inj hstep]
    exact h.congr hpub (held_enqueue hstep)
  | forward now =>
    obtain ⟨henqueued, hpending, hpub⟩ := enqueued_forward hstep
    apply h.congr hpub
    intro e
    unfold Held pendingOf
    rw [henqueued, hpending]

/-! ## Decisions -/

theorem offered_now (o : Outlet) (now : UInt32) (p : Publication) :
    offered o now p = (offered o 0 p).map fun info => { info with last_timestamp := now } := by
  unfold offered
  split
  · exact Publication.sequenceInfo_now p now
  · rfl

theorem cameThrough_of_local {o : Outlet} {p : Publication} (h : Local o p) :
    cameThrough o.partner_node_id p = some false := by
  unfold cameThrough
  rw [if_neg (by rw [h.2]; simp)]

theorem shouldForward_own (o : Outlet) {infos : SequenceInfos} {now : UInt32} {p : Publication}
    {r : SequenceInfos × Bool} (h : shouldForward o.partner_node_id infos now p = some r) :
    (offered o now p = none ∧ Assoc.find o.board.NODE_ID r.1 = Assoc.find o.board.NODE_ID infos ∧
      (Local o p → r.2 = true)) ∨
    ∃ info, offered o now p = some info ∧ r = Watermark.offer SequenceInfo.newer infos
      o.board.NODE_ID info := by
  obtain ⟨found, hfound, h⟩ := Option.map_eq_some_iff.mp h
  unfold offered
  rw [hfound]
  split at h
  · rename_i hcame
    subst h
    refine Or.inl ⟨by simp [hcame], rfl, ?_⟩
    intro hlocal
    rw [cameThrough_of_local hlocal] at hfound
    exact absurd (Option.some.inj hfound) (by simp [hcame])
  · rename_i hcame
    rw [Bool.not_eq_true] at hcame
    subst hcame
    split at h
    · rename_i publisher info hpub hinfo
      by_cases hown : publisher = o.board.NODE_ID
      · refine Or.inr ⟨info, ?_, by rw [← h, hown]⟩
        rw [if_pos ⟨by rw [Node.Own, hpub, hown], rfl⟩]
        exact hinfo
      · have hforeign : ¬ Node.Own o.board p := by
          unfold Node.Own
          rw [hpub]
          exact fun heq => hown (Option.some.inj heq)
        refine Or.inl ⟨if_neg fun h => hforeign h.1, ?_, fun hlocal => absurd hlocal.1 hforeign⟩
        rw [← h, Watermark.find_offer, if_neg fun h => hown h.1]
    · rename_i hnone
      subst h
      refine Or.inl ⟨?_, rfl, fun _ => rfl⟩
      split
      · rename_i hown
        cases hinfo : p.sequenceInfo now with
        | none => rfl
        | some info => exact absurd hinfo (hnone _ _ hown.1)
      · rfl

/-- The table has the newest stamp that the connection compared, and a copy passed exactly if all
stamps compared before were older. -/
structure Decided (o : Outlet) (s : Publishers) : Prop where
  newest : Watermark.Newest SequenceInfo.newer s.outgoing_sequence_infos o.board.NODE_ID
    (s.log.filterMap fun d => offered o d.now d.entry.publication)
  passed : ∀ pre d post, s.log = pre ++ d :: post → Local o d.entry.publication →
    (d.forwarded = true ↔ ∀ info, d.entry.publication.sequenceInfo d.now = some info →
      ∀ d' ∈ pre, ∀ info', offered o d'.now d'.entry.publication = some info' → info'.Before info)

theorem decided_init (o : Outlet) : Decided o init :=
  ⟨Watermark.newest_nil _ _, fun pre d post h => absurd h (by simp [init])⟩

theorem offered_local {o : Outlet} {p : Publication} (h : Local o p) (now : UInt32) :
    offered o now p = p.sequenceInfo now :=
  if_pos ⟨h.1, cameThrough_of_local h⟩

theorem Decided.forward {o : Outlet} {s s' : Publishers} {now : UInt32} (h : Decided o s)
    (hstep : s.forward o now = some s') : Decided o s' := by
  unfold Publishers.forward at hstep
  split at hstep
  · simp at hstep
  · rename_i e rest _
    obtain ⟨r, hr, rfl⟩ := Option.map_eq_some_iff.mp hstep
    have hown := shouldForward_own o hr
    refine ⟨?_, ?_⟩
    · simp only [List.filterMap_append, List.filterMap_cons, List.filterMap_nil]
      rcases hown with ⟨hnone, hfind, -⟩ | ⟨info, hsome, rfl⟩
      · rw [hnone, List.append_nil]
        exact h.newest.congr hfind
      · rw [hsome]
        exact h.newest.offer SequenceInfo.newer_weak info
    · intro pre d post hlog hlocal
      rcases Runs.snoc_eq_append_cons hlog with ⟨rfl, rfl⟩ | ⟨post', hlog⟩
      · dsimp only at hlocal ⊢
        rw [← offered_local hlocal]
        rcases hown with ⟨hnone, -, hpass⟩ | ⟨info, hsome, rfl⟩
        · rw [hnone]
          simpa using hpass hlocal
        · rw [hsome, h.newest.passes_iff SequenceInfo.newer_weak]
          simp only [List.mem_filterMap, Option.some.injEq, SequenceInfo.newer_iff]
          constructor
          · rintro hall _ rfl d' hd' info' hinfo'
            exact hall info' ⟨d', hd', hinfo'⟩
          · rintro hall info' ⟨d', hd', hinfo'⟩
            exact hall info rfl d' hd' info' hinfo'
      · exact h.passed pre d post' hlog hlocal

theorem Decided.step {o : Outlet} {s s' : Publishers} {a : Step} (h : Decided o s)
    (hstep : s.step o a = some s') : Decided o s' := by
  cases a with
  | take thread p =>
    simp only [Publishers.step, take] at hstep
    split at hstep
    · obtain ⟨ds, -, rfl⟩ := Option.map_eq_some_iff.mp hstep
      exact ⟨h.newest, h.passed⟩
    · simp at hstep
  | enqueue thread =>
    simp only [Publishers.step, enqueue] at hstep
    split at hstep
    · simp at hstep
    · rw [← Option.some.inj hstep]
      exact ⟨h.newest, h.passed⟩
  | forward now => exact h.forward hstep

/-! ## All is forwarded -/

theorem enqueued_done {s : Publishers} (hdone : s.Done) :
    s.enqueued = s.log.map Decision.entry := by
  unfold enqueued
  rw [List.isEmpty_iff.mp hdone.2, List.append_nil]

theorem held_done {s : Publishers} (hdone : s.Done) {e : Entry} (he : s.Held e) :
    e ∈ s.log.map Decision.entry := by
  rcases he with he | ⟨thread, he⟩
  · rwa [enqueued_done hdone] at he
  · unfold pendingOf at he
    cases hfind : Assoc.find thread s.pending with
    | none => simp [hfind] at he
    | some l =>
      have hempty : l = [] := List.isEmpty_iff.mp (hdone.1 _ (Assoc.mem_of_find hfind))
      simp [hfind, hempty] at he

theorem Kept.copy_of {s : Publishers} (h : Kept s) {d : Decision} (hd : d ∈ s.log) {i : Issue}
    (hi : s.published[d.entry.ticket]? = some i) :
    d.entry.publication = i.publication ∨ d.entry.publication = i.publication.copy := by
  obtain ⟨i', hi', hmem⟩ := h.known d.entry
    (Or.inl (List.mem_append_left _ (List.mem_map_of_mem hd)))
  obtain rfl : i' = i := Option.some.inj (hi'.symm.trans hi)
  exact h.copies i' (List.mem_of_getElem? hi) _ hmem

theorem inOrder_of_allForwarded {o : Outlet} {s : Publishers} (hkept : Kept s)
    (hdecided : Decided o s) (hdone : s.Done) (hall : s.AllForwarded o) : s.InOrder o := by
  intro pre e post i heq hfirst hi hlocal e' he' info info' hinfo' hinfo
  obtain ⟨i', hi', hmem⟩ := hkept.known e (Or.inl (by rw [heq]; simp))
  obtain rfl : i' = i := Option.some.inj (hi'.symm.trans hi)
  obtain ⟨d, hd, hticket, hforwarded⟩ := hall e.ticket i' hi (List.ne_nil_of_mem hmem) hlocal
  have hcopy := hkept.copy_of hd (by rw [hticket]; exact hi)
  obtain ⟨dpre, dpost, hlog⟩ := List.append_of_mem hd
  have hpassed := (hdecided.passed dpre d dpost hlog (copy_local hcopy hlocal)).mp hforwarded
  -- the copy that passed is not before the first one
  rw [enqueued_done hdone, hlog, List.map_append, List.map_cons] at heq
  have hpre : d.entry ∉ pre := fun h => hfirst _ h hticket
  obtain ⟨d', hd', rfl⟩ := List.mem_map.mp (Runs.mem_of_append_cons_eq heq hpre he')
  have hstamp : d.entry.publication.sequenceInfo d.now = some { info with last_timestamp :=
    d.now } := by
    rw [copy_sequenceInfo hcopy, Publication.sequenceInfo_now, hinfo]
    rfl
  exact hpassed _ hstamp d' hd' { info' with last_timestamp := d'.now }
    (by rw [offered_now, hinfo']; rfl)

theorem allForwarded_of_inOrder {o : Outlet} {s : Publishers} (hkept : Kept s)
    (hdecided : Decided o s) (hdone : s.Done) (horder : s.InOrder o) : s.AllForwarded o := by
  intro k i hi hne hlocal
  obtain ⟨e, he, hticket⟩ := hkept.held k i hi hne
  obtain ⟨d₀, hd₀, rfl⟩ := List.mem_map.mp (held_done hdone he)
  -- its first copy
  obtain ⟨tickets, tickets', heq, hfirst⟩ :=
    List.eq_append_cons_of_mem (List.mem_map_of_mem (f := fun d => d.entry.ticket) hd₀)
  obtain ⟨pre, rest, hlog, rfl, hrest⟩ := List.map_eq_append_iff.mp heq
  obtain ⟨d, post, rfl, hd, -⟩ := List.map_eq_cons_iff.mp hrest
  have hdk : d.entry.ticket = k := hd.trans hticket
  have hmem : d ∈ s.log := by rw [hlog]; simp
  have hcopy := hkept.copy_of hmem (by rw [hdk]; exact hi)
  refine ⟨d, hmem, hdk, (hdecided.passed pre d post hlog (copy_local hcopy hlocal)).mpr ?_⟩
  intro info hinfo d' hd' info' hinfo'
  rw [copy_sequenceInfo hcopy, Publication.sequenceInfo_now] at hinfo
  obtain ⟨stamp, hstamp, rfl⟩ := Option.map_eq_some_iff.mp hinfo
  rw [offered_now] at hinfo'
  obtain ⟨stamp', hstamp', rfl⟩ := Option.map_eq_some_iff.mp hinfo'
  apply horder (pre.map Decision.entry) d.entry (post.map Decision.entry) i _ _
    (by rw [hdk]; exact hi) hlocal d'.entry (List.mem_map_of_mem hd') stamp stamp' hstamp' hstamp
  · rw [enqueued_done hdone, hlog, List.map_append, List.map_cons]
  · intro e' he' hsame
    obtain ⟨d'', hd'', rfl⟩ := List.mem_map.mp he'
    exact hfirst (List.mem_map.mpr ⟨d'', hd'', hsame.trans hd⟩)

/-- When all steps are done, every publication of this node was forwarded exactly if the copies were
enqueued in the order of the stamps. -/
theorem all_forwarded_iff_in_order (o : Outlet) (steps : List Step) (s : Publishers)
    (hrun : run o steps = some s) (hdone : s.Done) : s.AllForwarded o ↔ s.InOrder o := by
  have hkept : Kept s := Runs.invariant Kept kept_init (fun _ _ _ h hstep => h.step hstep) hrun
  have hdecided : Decided o s :=
    Runs.invariant (Decided o) (decided_init o) (fun _ _ _ h hstep => h.step hstep) hrun
  exact ⟨inOrder_of_allForwarded hkept hdecided hdone, allForwarded_of_inOrder hkept hdecided hdone⟩

/-- A peer with one subscription. -/
def pingOutlet : Outlet :=
  ⟨⟨"node", 3⟩, Router.run ⟨"node", 3⟩ [.add ⟨[.str "type" "ping" .EQ false], []⟩ 7
    ⟨"peer", "t", "1"⟩ "peer" .default], .plain, 7, [11], "peer"⟩

def ping : Publication := (Publication.ofPublisher "node" "a" "1").setAttr "type" (.str "ping")

/-- Two threads that do not overtake each other. -/
theorem all_forwarded_iff_in_order_two_threads :
    ∃ s, run pingOutlet [.take 0 ping, .enqueue 0, .take 1 ping, .enqueue 1, .forward 5,
      .forward 6] = some s ∧
      s.AllForwarded pingOutlet ∧ s.InOrder pingOutlet := by
  have hrun : (run pingOutlet [.take 0 ping, .enqueue 0, .take 1 ping, .enqueue 1, .forward 5,
      .forward 6]).any (fun s => decide (s.Done ∧ s.published.length = 2 ∧
        s.log.map (fun d => (d.entry.ticket, d.forwarded)) = [(0, true), (1, true)])) =
          true := by decide
  obtain ⟨s, hs, hprop⟩ := (Option.any_eq_true _ _).mp hrun
  obtain ⟨hdone, hlen, hlog⟩ := of_decide_eq_true hprop
  have hforwarded : s.AllForwarded pingOutlet := by
    intro k i hi _ _
    obtain ⟨hk, -⟩ := List.getElem?_eq_some_iff.mp hi
    have hmem : (k, true) ∈ s.log.map fun d => (d.entry.ticket, d.forwarded) := by
      rw [hlog]
      simp
      omega
    obtain ⟨d, hd, heq⟩ := List.mem_map.mp hmem
    exact ⟨d, hd, Prod.mk.inj heq⟩
  exact ⟨s, hs, hforwarded, (all_forwarded_iff_in_order pingOutlet _ s hs hdone).mp hforwarded⟩

/-- The second thread enqueues before the first one: the publication of the first one is not
forwarded. -/
theorem overtaken_not_forwarded :
    ∃ s, run pingOutlet [.take 0 ping, .take 1 ping, .enqueue 1, .enqueue 0, .forward 5,
      .forward 6] = some s ∧
      s.Done ∧ ¬ s.AllForwarded pingOutlet := by
  have hrun : (run pingOutlet [.take 0 ping, .take 1 ping, .enqueue 1, .enqueue 0, .forward 5,
      .forward 6]).any (fun s => decide (s.Done ∧
        (s.published[0]?.any fun i =>
          decide (i.copies.isEmpty = false ∧ Local pingOutlet i.publication)) = true ∧
        ∀ d ∈ s.log, d.entry.ticket = 0 → d.forwarded = false)) = true := by decide
  obtain ⟨s, hs, hprop⟩ := (Option.any_eq_true _ _).mp hrun
  obtain ⟨hdone, hissue, hlog⟩ := of_decide_eq_true hprop
  refine ⟨s, hs, hdone, ?_⟩
  intro hall
  obtain ⟨i, hi, hlocal⟩ := (Option.any_eq_true _ _).mp hissue
  obtain ⟨hcopies, hlocal⟩ := of_decide_eq_true hlocal
  obtain ⟨d, hd, hticket, hforwarded⟩ := hall 0 i hi (by rintro h; simp [h] at hcopies) hlocal
  rw [hlog d hd hticket] at hforwarded
  exact absurd hforwarded (by simp)

end Publishers

end UActor
