import UActor.Lib.Runs
import UActor.Lib.Watermark
import UActor.PubSub.Publication

/-!
# Sequence numbers

`sequence_info.hpp` and `sequence_number_forwarding_strategy.cpp`. One table of accepted stamps is
shared by all connections, and each connection has a table of forwarded ones. A call that reads an
attribute which is no string has no result.
-/

namespace UActor

structure SequenceInfo where
  sequence_number : UInt32
  epoch : UInt32
  last_timestamp : UInt32
deriving DecidableEq, Repr

namespace SequenceInfo

def isOlderThan (s : SequenceInfo) (other_sequence_number other_epoch : UInt32) : Bool :=
  decide (s.epoch < other_epoch) ||
    (other_epoch == s.epoch && decide (s.sequence_number < other_sequence_number))

/-- A stamp is newer than another one. -/
def newer (s t : SequenceInfo) : Bool := s.isOlderThan t.sequence_number t.epoch

end SequenceInfo

abbrev SequenceInfos := List (String × SequenceInfo)

namespace Publication

/-- The stamp of a publication, read as unsigned numbers. -/
def sequenceInfo (p : Publication) (now : UInt32) : Option SequenceInfo :=
  match p.getIntAttr "_internal_sequence_number", p.getIntAttr "_internal_epoch" with
  | some sequence_number, some epoch => some ⟨sequence_number.toUInt32, epoch.toUInt32, now⟩
  | _, _ => none

theorem sequenceInfo_now (p : Publication) (now : UInt32) :
    p.sequenceInfo now = (p.sequenceInfo 0).map fun info =>
      { info with last_timestamp := now } := by
  unfold sequenceInfo
  split <;> simp

end Publication

/-- `SequenceNumberForwardingStrategy::should_accept`, with the timestamp `now`. -/
def shouldAccept (incomming_sequence_infos : SequenceInfos) (now : UInt32) (p : Publication) :
    Option (SequenceInfos × Bool) :=
  (p.getStrAttr "publisher_node_id").map fun publisher_node_id =>
    match p.sequenceInfo now with
    | none => (incomming_sequence_infos, false)
    | some info => Watermark.offer SequenceInfo.newer incomming_sequence_infos
        publisher_node_id info

/-! ## Forwarding -/

/-- `std::string_view::find`. -/
def findFrom (pat s : List Char) (start : Nat) : Option Nat :=
  (List.range (s.length + 1)).find? fun i =>
    decide (start ≤ i) && (decide (i + pat.length ≤ s.length) && pat.isPrefixOf (s.drop i))

/-- The loop of `should_forward` over the list of forwarders. Each round starts behind the last one,
so that one round for each character and one more are enough. -/
def forwardedBy (partner forwarders : List Char) : Nat → Nat → Bool
  | 0, _ => false
  | rounds + 1, start =>
    if start < forwarders.length then
      match findFrom partner forwarders start with
      | none => false
      | some start =>
        let end_pos := start + partner.length
        if (start = 0 ∨ forwarders[start - 1]? = some ',') ∧
            (end_pos = forwarders.length ∨ forwarders[end_pos]? = some ',') then true
        else forwardedBy partner forwarders rounds (start + 1)
    else false

/-- Whether the partner is one of the nodes that the publication came through. -/
def cameThrough (partner_node_id : String) (p : Publication) : Option Bool :=
  if p.hasAttr "_internal_forwarded_by" then
    (p.getStrAttr "_internal_forwarded_by").map fun forwarders =>
      forwardedBy partner_node_id.toList forwarders.toList (forwarders.toList.length + 1) 0
  else some false

/-- `SequenceNumberForwardingStrategy::should_forward`. -/
def shouldForward (partner_node_id : String) (outgoing_sequence_infos : SequenceInfos)
    (now : UInt32) (p : Publication) : Option (SequenceInfos × Bool) :=
  (cameThrough partner_node_id p).map fun found =>
    if found then (outgoing_sequence_infos, false)
    else
      match p.getStrAttr "publisher_node_id", p.sequenceInfo now with
      | some publisher_node_id, some info =>
        Watermark.offer SequenceInfo.newer outgoing_sequence_infos publisher_node_id info
      | _, _ => (outgoing_sequence_infos, true)

/-- `SequenceNumberForwardingStrategy::add_incomming_routing_fields`. -/
def addIncommingRoutingFields (partner_node_id : String) (p : Publication) : Option Publication :=
  if p.hasAttr "_internal_forwarded_by" then
    (p.getStrAttr "_internal_forwarded_by").map fun forwarders =>
      p.setAttr "_internal_forwarded_by" (.str (forwarders ++ "," ++ partner_node_id))
  else some (p.setAttr "_internal_forwarded_by" (.str partner_node_id))

/-! ## The strategies of a node -/

/-- The shared table, and the tables of the connections by their local ids. -/
structure Strategies where
  incomming : SequenceInfos
  outgoing : List (Nat × SequenceInfos)

namespace Strategies

/-- A call on one of the connections. The node id of its partner may be unknown at first. -/
inductive Call where
  | accept (connection : Nat) (now : UInt32) (p : Publication)
  | forward (connection : Nat) (partner_node_id : String) (now : UInt32) (p : Publication)

def outgoingOf (st : Strategies) (connection : Nat) : SequenceInfos :=
  (Assoc.find connection st.outgoing).getD []

def step (st : Strategies) : Call → Option (Strategies × Bool)
  | .accept _ now p => (shouldAccept st.incomming now p).map fun r => (⟨r.1, st.outgoing⟩, r.2)
  | .forward connection partner_node_id now p =>
    (shouldForward partner_node_id (st.outgoingOf connection) now p).map fun r =>
      (⟨st.incomming, Assoc.put connection r.1 st.outgoing⟩, r.2)

/-- The tables after some calls, and the results of the calls. -/
def run (calls : List Call) : Option (Strategies × List (Call × Bool)) :=
  calls.foldlM (fun st call => (st.1.step call).map fun r => (r.1, st.2 ++ [(call, r.2)]))
    (⟨[], []⟩, [])

/-- What the calls read as strings are strings: the publisher of what is accepted, and the
forwarders of what is forwarded, if there are any. -/
def Call.Readable : Call → Prop
  | .accept _ _ p => (p.getStrAttr "publisher_node_id").isSome = true
  | .forward _ _ _ p =>
    p.hasAttr "_internal_forwarded_by" = true →
      (p.getStrAttr "_internal_forwarded_by").isSome = true

instance : DecidablePred Call.Readable
  | .accept _ _ p => inferInstanceAs (Decidable ((p.getStrAttr "publisher_node_id").isSome = true))
  | .forward _ _ _ p => inferInstanceAs (Decidable (p.hasAttr "_internal_forwarded_by" = true →
      (p.getStrAttr "_internal_forwarded_by").isSome = true))

/-- The stamp, if this is an accepted publication of the publisher. -/
def acceptedStamp (publisher : String) (e : Call × Bool) : Option (Option SequenceInfo) :=
  match e.1 with
  | .accept _ now p =>
    if e.2 = true ∧ p.getStrAttr "publisher_node_id" = some publisher then some (p.sequenceInfo now)
    else none
  | .forward .. => none

/-- The stamp, if this is a publication of the publisher that was forwarded on the connection. -/
def forwardedStamp (connection : Nat) (publisher : String) (e : Call × Bool) :
    Option SequenceInfo :=
  match e.1 with
  | .accept .. => none
  | .forward c _ now p =>
    if c = connection ∧ e.2 = true ∧ p.getStrAttr "publisher_node_id" = some publisher then
      p.sequenceInfo now
    else none

def accepted (publisher : String) (log : List (Call × Bool)) : List (Option SequenceInfo) :=
  log.filterMap (acceptedStamp publisher)

def forwarded (connection : Nat) (publisher : String) (log : List (Call × Bool)) :
    List SequenceInfo :=
  log.filterMap (forwardedStamp connection publisher)

theorem run_snoc (calls : List Call) (call : Call) :
    run (calls ++ [call]) =
      (run calls).bind fun st => (st.1.step call).map fun r => (r.1, st.2 ++ [(call, r.2)]) :=
  Runs.foldlM_snoc ..

theorem accepted_snoc (publisher : String) (log : List (Call × Bool)) (e : Call × Bool) :
    accepted publisher (log ++ [e]) = accepted publisher log ++
      (acceptedStamp publisher e).toList := by
  unfold accepted
  rw [List.filterMap_append]
  cases h : acceptedStamp publisher e <;> simp [h]

theorem forwarded_snoc (connection : Nat) (publisher : String) (log : List (Call × Bool))
    (e : Call × Bool) :
    forwarded connection publisher (log ++ [e]) =
      forwarded connection publisher log ++ (forwardedStamp connection publisher e).toList := by
  unfold forwarded
  rw [List.filterMap_append]
  cases h : forwardedStamp connection publisher e <;> simp [h]

end Strategies

/-! ## Stamps increase -/

/-- The lexicographic order of epoch and sequence number. -/
def SequenceInfo.Before (s t : SequenceInfo) : Prop :=
  s.epoch < t.epoch ∨ (s.epoch = t.epoch ∧ s.sequence_number < t.sequence_number)

theorem SequenceInfo.newer_iff (s t : SequenceInfo) : s.newer t = true ↔ s.Before t := by
  unfold newer isOlderThan Before
  rw [Bool.or_eq_true, Bool.and_eq_true, decide_eq_true_eq, beq_iff_eq, decide_eq_true_eq,
    eq_comm (a := t.epoch)]

theorem SequenceInfo.newer_trans (s t u : SequenceInfo) (hst : s.newer t = true)
    (htu : t.newer u = true) :
    s.newer u = true := by
  rw [newer_iff] at *
  unfold Before at *
  simp only [UInt32.lt_iff_toNat_lt, ← UInt32.toNat_inj] at *
  omega

theorem SequenceInfo.newer_weak : Watermark.Weak SequenceInfo.newer := by
  refine ⟨?_, newer_trans, ?_⟩
  · intro s
    rw [Bool.eq_false_iff, ne_eq, newer_iff]
    unfold Before
    simp
  · intro s t u hsu
    rw [newer_iff] at *
    rw [newer_iff]
    unfold Before at *
    simp only [UInt32.lt_iff_toNat_lt, ← UInt32.toNat_inj] at *
    omega

namespace Strategies

/-- The tables hold the last stamps that passed. -/
structure Tracks (st : Strategies) (log : List (Call × Bool)) : Prop where
  incomming : ∀ publisher, ∃ stamps, accepted publisher log = stamps.map some ∧
    Watermark.Passed SequenceInfo.newer st.incomming publisher stamps
  outgoing : ∀ connection publisher,
    Watermark.Passed SequenceInfo.newer (st.outgoingOf connection) publisher
      (forwarded connection publisher log)

theorem Tracks.accept {st : Strategies} {log : List (Call × Bool)} (h : Tracks st log)
    {connection : Nat} {now : UInt32} {p : Publication} {r : SequenceInfos × Bool}
    (hr : shouldAccept st.incomming now p = some r) :
    Tracks ⟨r.1, st.outgoing⟩ (log ++ [(.accept connection now p, r.2)]) := by
  obtain ⟨publisher', hpub, hr⟩ := Option.map_eq_some_iff.mp hr
  refine ⟨?_, ?_⟩
  · intro publisher
    obtain ⟨stamps, hstamps, hpassed⟩ := h.incomming publisher
    rw [accepted_snoc, hstamps]
    simp only [acceptedStamp, hpub, Option.some.injEq]
    split at hr
    · subst hr
      exact ⟨stamps, by simp, hpassed⟩
    · rename_i info hinfo
      have hnext := hpassed.offer SequenceInfo.newer_trans publisher' info
      rw [hr] at hnext
      refine ⟨_, ?_, hnext⟩
      rw [hinfo]
      by_cases hp : publisher' = publisher ∧ r.2 = true
      · rw [if_pos hp, if_pos hp.symm]
        simp
      · rw [if_neg hp, if_neg (mt And.symm hp)]
        simp
  · intro connection' publisher
    rw [forwarded_snoc]
    simp only [forwardedStamp, Option.toList_none, List.append_nil]
    exact h.outgoing connection' publisher

theorem Tracks.forward {st : Strategies} {log : List (Call × Bool)} (h : Tracks st log)
    {connection : Nat} {partner_node_id : String} {now : UInt32} {p : Publication}
    {r : SequenceInfos × Bool} (hr : shouldForward partner_node_id (st.outgoingOf connection) now
      p = some r) :
    Tracks ⟨st.incomming, Assoc.put connection r.1 st.outgoing⟩
      (log ++ [(.forward connection partner_node_id now p, r.2)]) := by
  refine ⟨?_, ?_⟩
  · intro publisher
    rw [accepted_snoc]
    simp only [acceptedStamp, Option.toList_none, List.append_nil]
    exact h.incomming publisher
  · intro connection' publisher
    have hpassed := h.outgoing connection' publisher
    have hof : outgoingOf ⟨st.incomming, Assoc.put connection r.1 st.outgoing⟩ connection' =
        if connection = connection' then r.1 else st.outgoingOf connection' := by
      unfold outgoingOf
      rw [Assoc.find_put]
      split <;> rfl
    rw [forwarded_snoc, hof]
    simp only [forwardedStamp]
    by_cases hc : connection = connection'
    · subst hc
      rw [if_pos rfl]
      simp only [true_and]
      obtain ⟨found, -, hr⟩ := Option.map_eq_some_iff.mp hr
      split at hr
      · subst hr
        simpa using hpassed
      · split at hr
        · rename_i publisher' info hpub hinfo
          have hnext := hpassed.offer SequenceInfo.newer_trans publisher' info
          rw [hr] at hnext
          simp only [hpub, hinfo, Option.some.injEq]
          by_cases hp : publisher' = publisher ∧ r.2 = true
          · rw [if_pos hp] at hnext
            rw [if_pos hp.symm]
            exact hnext
          · rw [if_neg hp] at hnext
            rw [if_neg (mt And.symm hp)]
            simpa using hnext
        · rename_i hnone
          subst hr
          -- a publication without a stamp leaves none behind
          have hnil : (if true = true ∧ p.getStrAttr "publisher_node_id" = some publisher then
              p.sequenceInfo now else none) = none := by
            split
            · rename_i hp
              cases hinfo : p.sequenceInfo now with
              | none => rfl
              | some info => exact absurd hinfo (hnone _ _ hp.2)
            · rfl
          rw [hnil]
          simpa using hpassed
    · rw [if_neg hc, if_neg (fun h => hc h.1)]
      simpa using hpassed

theorem tracks_run {calls : List Call} {st : Strategies} {log : List (Call × Bool)}
    (h : run calls = some (st, log)) : Tracks st log := by
  apply Runs.invariant (fun st : Strategies × List (Call × Bool) => Tracks st.1 st.2) _ _ h
  · exact ⟨fun publisher => ⟨[], rfl, Watermark.passed_nil _ _⟩, fun connection publisher =>
      Watermark.passed_nil _ _⟩
  · intro before call after htracks hnext
    obtain ⟨⟨st', ok⟩, hstep, rfl⟩ := Option.map_eq_some_iff.mp hnext
    cases call with
    | accept connection now p =>
      obtain ⟨r, hr, hst⟩ := Option.map_eq_some_iff.mp hstep
      obtain ⟨rfl, rfl⟩ := Prod.mk.inj hst
      exact htracks.accept hr
    | forward connection partner_node_id now p =>
      obtain ⟨r, hr, hst⟩ := Option.map_eq_some_iff.mp hstep
      obtain ⟨rfl, rfl⟩ := Prod.mk.inj hst
      exact htracks.forward hr

theorem Call.Readable.step {call : Call} (h : call.Readable) (st : Strategies) :
    (st.step call).isSome = true := by
  cases call with
  | accept connection now p =>
    have hpub : (p.getStrAttr "publisher_node_id").isSome = true := h
    simpa [Strategies.step, shouldAccept] using hpub
  | forward connection partner_node_id now p =>
    have hcame : (cameThrough partner_node_id p).isSome = true := by
      unfold cameThrough
      split
      · rename_i ha
        simpa using h ha
      · rfl
    simpa [Strategies.step, shouldForward] using hcame

theorem run_isSome {calls : List Call} (h : ∀ call ∈ calls, call.Readable) :
    ∃ st log, run calls = some (st, log) ∧ log.map Prod.fst = calls := by
  induction calls using List.reverseRecOn with
  | nil => exact ⟨_, _, rfl, rfl⟩
  | append_singleton calls call ih =>
    obtain ⟨st, log, hrun, hlog⟩ := ih fun c hc => h c (List.mem_append_left _ hc)
    obtain ⟨r, hr⟩ := Option.isSome_iff_exists.mp ((h call (by simp)).step st)
    refine ⟨r.1, log ++ [(call, r.2)], by rw [run_snoc, hrun, Option.bind_some, hr]; rfl, by simp [hlog]⟩

/-- Every sequence of calls that can be read has a result, and in each result the accepted stamps of
a publisher increase, and so do its stamps that were forwarded on one connection. -/
theorem stamps_increase (calls : List Call) :
    ((∀ call ∈ calls, call.Readable) → ∃ st log, run calls = some (st, log) ∧
      log.map Prod.fst = calls) ∧
    ∀ (st : Strategies) (log : List (Call × Bool)), run calls = some (st, log) →
      (∀ publisher, ∃ stamps : List SequenceInfo, accepted publisher log = stamps.map some ∧
        stamps.Pairwise SequenceInfo.Before) ∧
      ∀ connection publisher, (forwarded connection publisher log).Pairwise
        SequenceInfo.Before := by
  refine ⟨run_isSome, ?_⟩
  intro st log hrun
  have htracks := tracks_run hrun
  refine ⟨?_, ?_⟩
  · intro publisher
    obtain ⟨stamps, heq, hpassed⟩ := htracks.incomming publisher
    exact ⟨stamps, heq, hpassed.increasing.imp fun h => (SequenceInfo.newer_iff _ _).mp h⟩
  · intro connection publisher
    exact (htracks.outgoing connection publisher).increasing.imp fun h =>
      (SequenceInfo.newer_iff _ _).mp h

/-- A publication of the node `a`, with the stamp of the epoch 2 and this number. -/
def stamped (sequence_number : Int32) : Publication :=
  ((Publication.ofPublisher "a" "t" "1").setAttr "_internal_sequence_number"
    (.int sequence_number)).setAttr "_internal_epoch" (.int 2)

/-- Arrivals on two connections, and a publication that matches two subscriptions of a peer. -/
def twoPaths : List Call :=
  [.accept 0 9 (stamped 7), .accept 1 9 (stamped 7), .accept 1 9 (stamped (-1)),
    .accept 0 9 (stamped 8), .forward 2 "b" 9 (stamped 7), .forward 2 "b" 9 (stamped 7)]

/-- The second path and the second matching subscription add nothing, and a negative number is a
large one. -/
theorem stamps_increase_two_paths :
    ∃ st log, run twoPaths = some (st, log) ∧
      log.map Prod.snd = [true, false, true, false, true, false] ∧
      (∃ stamps : List SequenceInfo, accepted "a" log = stamps.map some ∧ stamps.length = 2 ∧
        stamps.Pairwise SequenceInfo.Before) ∧
      (forwarded 2 "a" log).Pairwise SequenceInfo.Before := by
  obtain ⟨st, log, hrun, -⟩ := (stamps_increase twoPaths).1 (by decide)
  obtain ⟨haccepted, hforwarded⟩ := (stamps_increase twoPaths).2 st log hrun
  obtain ⟨stamps, heq, hincreasing⟩ := haccepted "a"
  have hvalue : (run twoPaths).map (fun r => (r.2.map Prod.snd, (accepted "a" r.2).length)) =
      some ([true, false, true, false, true, false], 2) := by decide
  rw [hrun, Option.map_some, Option.some.injEq, Prod.mk.injEq] at hvalue
  refine ⟨st, log, hrun, hvalue.1, ⟨stamps, heq, ?_, hincreasing⟩, hforwarded 2 "a"⟩
  rw [← List.length_map (f := some), ← heq]
  exact hvalue.2

end Strategies

end UActor
