import UActor.Remote.Ingress
import Mathlib.Logic.Function.Basic

/-!
# A network of nodes

Nodes with links between them. A link is a queue of publications that loses nothing. The connections
send `subscriptions_added` and `subscriptions_removed` messages to their partners, and all
publications of a node take their numbers from one counter.
-/

namespace UActor

/-- The messages with which connections tell their partners about subscriptions. -/
inductive ControlType where
  | subscriptionsAdded
  | subscriptionsRemoved
deriving DecidableEq, Repr

def ControlType.name : ControlType → String
  | subscriptionsAdded => "subscriptions_added"
  | subscriptionsRemoved => "subscriptions_removed"

/-- The nodes by their ids, and the directed links between them. -/
structure Net where
  epoch : String → Int32
  clusters : String → List (List String)
  location_labels : String → List (String × String)
  /-- What the node knows of the labels of a partner. -/
  partner_labels : String → String → List (String × String)
  links : List (String × String)
  proper : ∀ link ∈ links, link.1 ≠ link.2

namespace Net

def board (net : Net) (node : String) : Board := ⟨node, net.epoch node⟩

/-- The connection of the node to a partner. -/
def linkAt (net : Net) (node partner : String) : Link :=
  ⟨partner, net.clusters node, net.location_labels node, net.partner_labels node partner⟩

end Net

/-- A publication on its way. The type is set for the control messages of the connection that sent
it. -/
structure Message where
  control : Option ControlType
  publication : Publication

/-- What a node did with a message of a partner. -/
structure Arrival where
  partner : String
  message : Message
  now : UInt32
  outcome : Link.Outcome

structure Network where
  sequence_number : String → UInt32
  incomming_sequence_infos : String → SequenceInfos
  outgoing_sequence_infos : String × String → SequenceInfos
  channel : String × String → List Message
  arrived : String → List Arrival

namespace Network

def init : Network := ⟨fun _ => 1, fun _ => [], fun _ => [], fun _ => [], fun _ => []⟩

/-- The message that `handle_local_subscription_added` or `handle_local_subscription_removed`
publishes. -/
def controlMessage (board : Board) (type : ControlType) (local_id : Nat) (subscriptions : Map) :
    Publication :=
  (((Publication.ofPublisher board.NODE_ID "remote_connection" (toString local_id)).setAttr "type"
    (.str type.name)).setAttr "remote_id" (.int (Int32.ofNat local_id))).setAttr "subscriptions"
      (.map subscriptions)

inductive Step where
  /-- The connection of a node to its partner sends a control message. -/
  | control (node partner : String) (type : ControlType) (local_id : Nat) (subscriptions : Map)
      (now : UInt32)
  /-- A node publishes, and some of its partners have matching subscriptions. -/
  | publish (node : String) (p : Publication) (partners : List String) (now : UInt32)
  /-- A node takes a message from a link. It may publish it, for some of its partners. -/
  | deliver (partner node : String) (partners : List String) (now : UInt32)

/-- The forwarder asks `should_forward` and writes to the link. -/
def send (net : Net) (node : String) (now : UInt32) (m : Message) (s : Network) (partner : String) :
    Option Network :=
  if (node, partner) ∈ net.links then
    (shouldForward partner (s.outgoing_sequence_infos (node, partner)) now m.publication).map
      fun r =>
      { s with
        outgoing_sequence_infos := Function.update s.outgoing_sequence_infos (node, partner) r.1
        channel :=
          if r.2 then Function.update s.channel (node, partner) (s.channel (node, partner) ++ [m])
          else s.channel }
  else none

/-- `Router::publish`, as far as the partners see it. -/
def issue (net : Net) (node : String) (now : UInt32) (control : Option ControlType)
    (p : Publication) (partners : List String) (s : Network) : Option Network :=
  let stamped := Router.stamp (net.board node) (s.sequence_number node) p
  partners.foldlM (send net node now ⟨control, stamped.1⟩)
    { s with sequence_number := Function.update s.sequence_number node stamped.2 }

def deliver (net : Net) (partner node : String) (partners : List String) (now : UInt32)
    (s : Network) :
    Option Network :=
  match s.channel (partner, node) with
  | [] => none
  | m :: rest =>
    ((net.linkAt node partner).processRemotePublication (net.board node)
      (s.incomming_sequence_infos node) now m.publication).bind fun processed =>
      let s := { s with
        channel := Function.update s.channel (partner, node) rest
        incomming_sequence_infos := Function.update s.incomming_sequence_infos node processed.1
        arrived := Function.update s.arrived node (s.arrived node ++
          [⟨partner, m, now, processed.2⟩]) }
      match processed.2 with
      | .publish q => s.issue net node now none q partners
      | _ => some s

def step (net : Net) (s : Network) : Step → Option Network
  | .control node partner type local_id subscriptions now =>
    s.issue net node now (some type) (controlMessage (net.board node) type local_id subscriptions)
      [partner]
  | .publish node p partners now => s.issue net node now none p partners
  | .deliver partner node partners now => s.deliver net partner node partners now

def run (net : Net) (steps : List Step) : Option Network := steps.foldlM (step net) init

/-! ## Control messages -/

/-- The message reached the handler of its type. -/
def applies : ControlType → Link.Outcome → Bool
  | .subscriptionsAdded, .remoteSubscriptionsAdded _ => true
  | .subscriptionsRemoved, .remoteSubscriptionsRemoved _ => true
  | _, _ => false

/-- The node applied all control messages that came over the link from the partner. -/
def ControlApplied (s : Network) (partner node : String) : Prop :=
  ∀ e ∈ s.arrived node, e.partner = partner → ∀ type, e.message.control = some type →
    applies type e.outcome = true

instance (s : Network) (partner node : String) : Decidable (s.ControlApplied partner node) :=
  decidable_of_iff (∀ e ∈ s.arrived node, e.partner = partner →
    (e.message.control.all fun type => applies type e.outcome) = true)
      (by simp [ControlApplied, Option.all_eq_true])

/-- When a control message of the partner came, everything of the partner that had come before, over
any link, had an older stamp. -/
def NotOvertaken (s : Network) (partner node : String) : Prop :=
  ∀ pre e post, s.arrived node = pre ++ e :: post → e.partner = partner →
    e.message.control.isSome = true →
    ∀ e' ∈ pre, e'.message.publication.getStrAttr "publisher_node_id" = some partner →
      ∀ info info', e.message.publication.sequenceInfo 0 = some info →
        e'.message.publication.sequenceInfo 0 = some info' → info'.Before info

/-- A control message as its connection sent it. -/
structure Control (net : Net) (partner node : String) (type : ControlType) (p : Publication) :
    Prop where
  link : (partner, node) ∈ net.links
  publisher : p.getStrAttr "publisher_node_id" = some partner
  type_name : p.getStrAttr "type" = some type.name
  stamped : ∃ info, p.sequenceInfo 0 = some info

/-- The stamp, if this is a publication of the publisher. -/
def stampOf (publisher : String) (e : Arrival) : Option SequenceInfo :=
  if e.message.publication.getStrAttr "publisher_node_id" = some publisher then
    e.message.publication.sequenceInfo e.now
  else none

/-- The control message was applied exactly if it was newer than all that had come before. -/
def Judged (pre : List Arrival) (e : Arrival) (type : ControlType) : Prop :=
  applies type e.outcome = true ↔
    ∀ info, e.message.publication.sequenceInfo e.now = some info →
      ∀ info' ∈ pre.filterMap (stampOf e.partner), info'.newer info = true

structure Inv (net : Net) (s : Network) : Prop where
  channel : ∀ link, ∀ m ∈ s.channel link, ∀ type, m.control = some type →
    Control net link.1 link.2 type m.publication
  newest : ∀ node publisher, publisher ≠ node →
    Watermark.Newest SequenceInfo.newer (s.incomming_sequence_infos node) publisher
      ((s.arrived node).filterMap (stampOf publisher))
  judged : ∀ node pre e post, s.arrived node = pre ++ e :: post →
    ∀ type, e.message.control = some type →
    Control net e.partner node type e.message.publication ∧ Judged pre e type

theorem inv_init (net : Net) : Inv net init :=
  ⟨by simp [init], fun _ _ _ => Watermark.newest_nil _ _, fun _ pre e post h => absurd h (by simp [init])⟩

/-! ## Sending -/

theorem Inv.congr {net : Net} {s s' : Network} (h : Inv net s)
    (hinfos : s'.incomming_sequence_infos = s.incomming_sequence_infos)
    (harrived : s'.arrived = s.arrived)
    (hchannel : ∀ link, ∀ m ∈ s'.channel link, ∀ type, m.control = some type →
      Control net link.1 link.2 type m.publication) : Inv net s' := by
  refine ⟨hchannel, ?_, ?_⟩
  · rw [hinfos, harrived]
    exact h.newest
  · rw [harrived]
    exact h.judged

theorem Inv.send {net : Net} {s s' : Network} {node partner : String} {now : UInt32} {m : Message}
    (h : Inv net s) (hm : ∀ type, m.control = some type → (node, partner) ∈ net.links →
      Control net node partner type m.publication)
    (hsend : send net node now m s partner = some s') : Inv net s' := by
  unfold Network.send at hsend
  split at hsend
  · rename_i hlink
    obtain ⟨r, -, rfl⟩ := Option.map_eq_some_iff.mp hsend
    refine h.congr rfl rfl ?_
    intro link m' hm' type htype
    dsimp only at hm'
    split at hm'
    · by_cases hlink' : link = (node, partner)
      · subst hlink'
        rw [Function.update_self] at hm'
        rcases List.mem_append.mp hm' with hm' | hm'
        · exact h.channel _ m' hm' type htype
        · rw [List.mem_singleton.mp hm'] at htype ⊢
          exact hm type htype hlink
      · rw [Function.update_of_ne hlink'] at hm'
        exact h.channel link m' hm' type htype
    · exact h.channel link m' hm' type htype
  · simp at hsend

theorem Inv.issue {net : Net} {s s' : Network} {node : String} {now : UInt32}
    {control : Option ControlType} {p : Publication} {partners : List String} (h : Inv net s)
    (hp : ∀ type, control = some type → ∀ partner ∈ partners, (node, partner) ∈ net.links →
      Control net node partner type (Router.stamp (net.board node) (s.sequence_number node) p).1)
    (hissue : s.issue net node now control p partners = some s') : Inv net s' := by
  have hstart : Inv net { s with
      sequence_number := Function.update s.sequence_number node
        (Router.stamp (net.board node) (s.sequence_number node) p).2 } := h.congr rfl rfl h.channel
  refine Runs.invariant_of (Inv net) (fun _ partner => partner ∈ partners) hstart ?_ ?_ hissue
  · intro s₁ partner s₂ hs₁ hmem hsend
    exact hs₁.send (fun type htype hlink => hp type htype partner hmem hlink) hsend
  · intro pre partner post _ heq _
    rw [heq]
    simp

theorem control_stamp {net : Net} {node partner : String} (type : ControlType) (local_id : Nat)
    (subscriptions : Map) (seq : UInt32) (hlink : (node, partner) ∈ net.links) :
    Control net node partner type
      (Router.stamp (net.board node) seq (controlMessage (net.board node) type local_id
        subscriptions)).1 := by
  have hpublisher : (controlMessage (net.board node) type local_id subscriptions).getStrAttr
      "publisher_node_id" =
      some node := rfl
  have hunstamped : (controlMessage (net.board node) type local_id subscriptions).hasAttr
      "_internal_sequence_number" = false := rfl
  have htype : (controlMessage (net.board node) type local_id subscriptions).getStrAttr "type" =
      some type.name := rfl
  unfold Router.stamp
  rw [if_pos ⟨hpublisher, hunstamped⟩]
  refine ⟨hlink, ?_, ?_, ?_⟩
  · rw [Publication.getStrAttr_setAttr_ne _ (by decide), Publication.getStrAttr_setAttr_ne _
      (by decide)]
    exact hpublisher
  · rw [Publication.getStrAttr_setAttr_ne _ (by decide), Publication.getStrAttr_setAttr_ne _
      (by decide)]
    exact htype
  · unfold Publication.sequenceInfo
    rw [Publication.getIntAttr_setAttr_ne _ (by decide), Publication.getIntAttr_setAttr_self,
      Publication.getIntAttr_setAttr_self]
    exact ⟨_, rfl⟩

/-! ## Taking a message from a link -/

theorem processRemotePublication_cases {board : Board} {link : Link} {infos : SequenceInfos}
    {now : UInt32} {p : Publication} {r : SequenceInfos × Link.Outcome}
    (h : link.processRemotePublication board infos now p = some r) :
    (∃ publisher info, p.getStrAttr "publisher_node_id" = some publisher ∧
      publisher ≠ board.NODE_ID ∧
      p.sequenceInfo now = some info ∧
      r.1 = (Watermark.offer SequenceInfo.newer infos publisher info).1 ∧
      if (Watermark.offer SequenceInfo.newer infos publisher info).2 then link.dispatch p = some r.2
      else r.2 = .drop) ∨
    ((p.getStrAttr "publisher_node_id" = none ∨
      p.getStrAttr "publisher_node_id" = some board.NODE_ID ∨
      p.sequenceInfo now = none) ∧ r = (infos, .drop)) := by
  unfold Link.processRemotePublication at h
  split at h
  · rename_i hpub
    obtain ⟨accepted, haccept, h⟩ := Option.bind_eq_some_iff.mp h
    obtain ⟨publisher, hpublisher, hoffer⟩ := Option.map_eq_some_iff.mp haccept
    cases hinfo : p.sequenceInfo now with
    | none =>
      rw [hinfo] at hoffer
      subst hoffer
      exact Or.inr ⟨by simp, (Option.some.inj h).symm⟩
    | some info =>
      rw [hinfo] at hoffer
      replace hoffer : Watermark.offer SequenceInfo.newer infos publisher info = accepted := hoffer
      subst hoffer
      refine Or.inl ⟨publisher, info, hpublisher, fun heq => hpub.2 (by rw [hpublisher, heq]),
        rfl, ?_⟩
      split at h
      · rename_i hpass
        obtain ⟨outcome, hout, rfl⟩ := Option.map_eq_some_iff.mp h
        exact ⟨rfl, by rw [if_pos hpass]; exact hout⟩
      · rename_i hpass
        obtain rfl := Option.some.inj h
        exact ⟨rfl, by rw [if_neg hpass]⟩
  · rename_i hpub
    refine Or.inr ⟨?_, (Option.some.inj h).symm⟩
    by_cases hown : p.getStrAttr "publisher_node_id" = some board.NODE_ID
    · exact Or.inr (Or.inl hown)
    · refine Or.inl ?_
      have habsent : p.hasAttr "publisher_node_id" = false := by
        rw [Bool.eq_false_iff]
        exact fun hhas => hpub ⟨hhas, hown⟩
      have hnone : Assoc.find "publisher_node_id" p.attributes = none := by
        simpa [Publication.hasAttr, Map.hasAttr] using habsent
      simp [Publication.getStrAttr, Map.getStrAttr, hnone]

theorem dispatch_control (link : Link) {p : Publication} {type : ControlType}
    (h : p.getStrAttr "type" = some type.name) {outcome : Link.Outcome}
    (hdispatch : link.dispatch p = some outcome) :
    applies type outcome = true := by
  unfold Link.dispatch at hdispatch
  rw [h] at hdispatch
  cases type with
  | subscriptionsAdded =>
    rw [if_neg (by decide), if_pos (by decide)] at hdispatch
    rw [← Option.some.inj hdispatch]
    rfl
  | subscriptionsRemoved =>
    rw [if_neg (by decide), if_neg (by decide), if_pos (by decide)] at hdispatch
    rw [← Option.some.inj hdispatch]
    rfl

theorem not_applies_drop (type : ControlType) : applies type .drop = false := by
  cases type <;> rfl

section Arrives

variable {net : Net} {s : Network} {partner node : String} {m : Message} {now : UInt32}
  {r : SequenceInfos × Link.Outcome}

theorem Inv.newest_arrive (h : Inv net s)
    (hr : (net.linkAt node partner).processRemotePublication (net.board node)
      (s.incomming_sequence_infos node) now m.publication = some r) {publisher : String}
      (hne : publisher ≠ node) :
    Watermark.Newest SequenceInfo.newer r.1 publisher
      ((s.arrived node ++ [Arrival.mk partner m now r.2]).filterMap (stampOf publisher)) := by
  have hnewest := h.newest node publisher hne
  rw [List.filterMap_append]
  rcases processRemotePublication_cases hr with ⟨publisher', info, hpub, -, hinfo, hr₁,
      -⟩ | ⟨hnone, rfl⟩
  · rw [hr₁]
    by_cases hsame : publisher' = publisher
    · subst hsame
      have hstamp : stampOf publisher' ⟨partner, m, now, r.2⟩ = some info := by
        unfold stampOf
        rw [if_pos hpub, hinfo]
      simpa [hstamp] using hnewest.offer SequenceInfo.newer_weak info
    · have hstamp : stampOf publisher ⟨partner, m, now, r.2⟩ = none := by
        unfold stampOf
        rw [if_neg fun heq => hsame (Option.some.inj (hpub.symm.trans heq))]
      have hfind := Watermark.find_offer SequenceInfo.newer (s.incomming_sequence_infos node)
        publisher publisher' info
      rw [if_neg fun heq => hsame heq.1] at hfind
      simpa [hstamp] using hnewest.congr hfind
  · have hstamp : stampOf publisher ⟨partner, m, now, .drop⟩ = none := by
      unfold stampOf
      split
      · rename_i hpub
        rcases hnone with hnone | hown | hinfo
        · exact absurd (hnone.symm.trans hpub) (by simp)
        · exact absurd (Option.some.inj (hpub.symm.trans hown)) hne
        · exact hinfo
      · rfl
    simpa [hstamp] using hnewest

theorem Inv.judged_arrive (h : Inv net s)
    (hr : (net.linkAt node partner).processRemotePublication (net.board node)
      (s.incomming_sequence_infos node) now m.publication = some r) {type : ControlType}
      (hcontrol : Control net partner node type m.publication) :
    Judged (s.arrived node) ⟨partner, m, now, r.2⟩ type := by
  have hne : partner ≠ node := net.proper _ hcontrol.link
  unfold Judged
  rcases processRemotePublication_cases hr with ⟨publisher, info, hpub, -, hinfo, -,
      hout⟩ | ⟨hnone, -⟩
  · obtain rfl : publisher = partner := Option.some.inj (hpub.symm.trans hcontrol.publisher)
    have hpasses := (h.newest node publisher hne).passes_iff SequenceInfo.newer_weak info
    simp only [hinfo, Option.some.injEq, forall_eq']
    rw [← hpasses]
    split at hout
    · rename_i hpass
      exact ⟨fun _ => hpass, fun _ => dispatch_control _ hcontrol.type_name hout⟩
    · rename_i hpass
      rw [hout, not_applies_drop]
      exact ⟨fun habs => absurd habs (by simp), fun habs => absurd habs hpass⟩
  · obtain ⟨info, hinfo⟩ := hcontrol.stamped
    rcases hnone with hnone | hown | hinfo'
    · exact absurd (hnone.symm.trans hcontrol.publisher) (by simp)
    · exact absurd (Option.some.inj (hcontrol.publisher.symm.trans hown)) hne
    · rw [Publication.sequenceInfo_now, hinfo] at hinfo'
      exact absurd hinfo' (by simp)

end Arrives

theorem Inv.deliver {net : Net} {s s' : Network} {partner node : String} {partners : List String}
    {now : UInt32} (h : Inv net s) (hstep : s.deliver net partner node partners now = some s') :
    Inv net s' := by
  unfold Network.deliver at hstep
  split at hstep
  · simp at hstep
  · rename_i m rest hqueue
    obtain ⟨r, hr, hstep⟩ := Option.bind_eq_some_iff.mp hstep
    have hnext : Inv net { s with
        channel := Function.update s.channel (partner, node) rest
        incomming_sequence_infos := Function.update s.incomming_sequence_infos node r.1
        arrived := Function.update s.arrived node (s.arrived node ++
          [⟨partner, m, now, r.2⟩]) } := by
      have hhead : ∀ type, m.control = some type → Control net partner node type m.publication :=
        h.channel (partner, node) m (by rw [hqueue]; exact List.mem_cons_self)
      refine ⟨?_, ?_, ?_⟩
      · intro link m' hm' type htype
        dsimp only at hm'
        by_cases hlink : link = (partner, node)
        · subst hlink
          rw [Function.update_self] at hm'
          exact h.channel _ m' (by rw [hqueue]; exact List.mem_cons_of_mem _ hm') type htype
        · rw [Function.update_of_ne hlink] at hm'
          exact h.channel link m' hm' type htype
      · intro node' publisher hne
        dsimp only
        by_cases hnode : node' = node
        · subst hnode
          rw [Function.update_self, Function.update_self]
          exact h.newest_arrive hr hne
        · rw [Function.update_of_ne hnode, Function.update_of_ne hnode]
          exact h.newest node' publisher hne
      · intro node' pre e post heq type htype
        dsimp only at heq
        by_cases hnode : node' = node
        · subst hnode
          rw [Function.update_self] at heq
          rcases Runs.snoc_eq_append_cons heq with ⟨rfl, rfl⟩ | ⟨post', heq'⟩
          · exact ⟨hhead type htype, h.judged_arrive hr (hhead type htype)⟩
          · exact h.judged node' pre e post' heq' type htype
        · rw [Function.update_of_ne hnode] at heq
          exact h.judged node' pre e post heq type htype
    split at hstep
    · exact hnext.issue (fun type htype => absurd htype (by simp)) hstep
    · rw [← Option.some.inj hstep]
      exact hnext

theorem inv_run {net : Net} {steps : List Step} {s : Network} (hrun : run net steps = some s) :
    Inv net s := by
  apply Runs.invariant (Inv net) (inv_init net) _ hrun
  intro s a s' h hstep
  cases a with
  | control node partner type local_id subscriptions now =>
    refine h.issue ?_ hstep
    intro type' htype partner' hpartner hlink
    obtain rfl := Option.some.inj htype
    exact control_stamp type local_id subscriptions _ hlink
  | publish node p partners now => exact h.issue (fun type htype => absurd htype (by simp)) hstep
  | deliver partner node partners now => exact h.deliver hstep

/-! ## Multi-path delivery -/

/-- The control messages of a link are all applied exactly if nothing of their sender overtakes
them. -/
theorem control_applied_iff (net : Net) (steps : List Step) (s : Network)
    (hrun : run net steps = some s) (partner node : String) :
    s.ControlApplied partner node ↔ s.NotOvertaken partner node := by
  have hinv := inv_run hrun
  constructor
  · intro happlied pre e post heq hpartner hsome e' he' hpub info info' hinfo hinfo'
    obtain ⟨type, htype⟩ := Option.isSome_iff_exists.mp hsome
    have hjudged := (hinv.judged node pre e post heq type htype).2.mp
      (happlied e (by rw [heq]; simp) hpartner type htype)
    rw [← SequenceInfo.newer_iff]
    refine hjudged { info with last_timestamp := e.now } ?_ { info' with last_timestamp :=
      e'.now } ?_
    · rw [Publication.sequenceInfo_now, hinfo]
      rfl
    · refine List.mem_filterMap.mpr ⟨e', he', ?_⟩
      unfold stampOf
      rw [if_pos (by rw [hpub, hpartner]), Publication.sequenceInfo_now, hinfo']
      rfl
  · intro hnot e he hpartner type htype
    obtain ⟨pre, post, heq⟩ := List.append_of_mem he
    refine (hinv.judged node pre e post heq type htype).2.mpr ?_
    intro info hinfo info' hmem
    obtain ⟨e', he', hstamp⟩ := List.mem_filterMap.mp hmem
    unfold stampOf at hstamp
    split at hstamp
    · rename_i hpub
      rw [Publication.sequenceInfo_now] at hinfo hstamp
      obtain ⟨stamp, hstamp₀, rfl⟩ := Option.map_eq_some_iff.mp hinfo
      obtain ⟨stamp', hstamp₀', rfl⟩ := Option.map_eq_some_iff.mp hstamp
      rw [SequenceInfo.newer_iff]
      exact hnot pre e post heq hpartner (by rw [htype]; rfl) e' he' (by rw [hpub, hpartner]) stamp
        stamp' hstamp₀ hstamp₀'
    · simp at hstamp

/-- Three nodes, each of them linked to the others. -/
def triangle : Net where
  epoch := fun _ => 3
  clusters := fun _ => []
  location_labels := fun _ => []
  partner_labels := fun _ _ => []
  links := [("a", "b"), ("b", "a"), ("a", "c"), ("c", "a"), ("b", "c"), ("c", "b")]
  proper := by decide

def ping : Publication := (Publication.ofPublisher "a" "t" "1").setAttr "type" (.str "ping")

/-- The node `a` tells `b` about a subscription and then publishes for both other nodes. -/
def announceAndPing : List Step :=
  [.control "a" "b" .subscriptionsAdded 7 [] 5, .publish "a" ping ["b", "c"] 5, .deliver "a" "c"
    ["b"] 6]

/-- The direct link is faster than the way through `c`. -/
theorem control_applied_iff_direct :
    ∃ s, run triangle (announceAndPing ++ [.deliver "a" "b" [] 7, .deliver "c" "b" [] 8]) = some s ∧
      (s.arrived "b").length = 2 ∧ s.ControlApplied "a" "b" ∧ s.NotOvertaken "a" "b" := by
  have hrun : (run triangle (announceAndPing ++ [.deliver "a" "b" [] 7, .deliver "c" "b" [] 8])).any
      (fun s => decide ((s.arrived "b").length = 2 ∧ s.ControlApplied "a" "b")) = true := by decide
  obtain ⟨s, hs, hprop⟩ := (Option.any_eq_true _ _).mp hrun
  obtain ⟨hlen, happlied⟩ := of_decide_eq_true hprop
  exact ⟨s, hs, hlen, happlied, (control_applied_iff triangle _ s hs "a" "b").mp happlied⟩

/-- The publication comes through `c` first, and `b` drops the control message. -/
theorem overtaken_control_dropped :
    ∃ s, run triangle (announceAndPing ++ [.deliver "c" "b" [] 7, .deliver "a" "b" [] 8]) = some s ∧
      ¬ s.ControlApplied "a" "b" := by
  have hrun : (run triangle (announceAndPing ++ [.deliver "c" "b" [] 7, .deliver "a" "b" [] 8])).any
      (fun s => decide (¬ s.ControlApplied "a" "b")) = true := by decide
  obtain ⟨s, hs, hprop⟩ := (Option.any_eq_true _ _).mp hrun
  exact ⟨s, hs, of_decide_eq_true hprop⟩

end Network

end UActor
