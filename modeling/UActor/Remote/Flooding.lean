import UActor.Remote.Network
import UActor.Remote.PathVector
import Mathlib.Algebra.Order.BigOperators.Group.List
import Mathlib.Algebra.Order.Ring.Nat

/-!
# Flooding

Nodes hand publications on to each other, over links in any shape. What a publication keeps on its
way, and that a network in which nobody publishes anything comes to rest.
-/

namespace UActor

namespace Publication

variable {p q : Publication} {name : String}

theorem getStrAttr_of_getAttr (h : q.getAttr name = p.getAttr name) :
    q.getStrAttr name = p.getStrAttr name := by
  simp only [getAttr, Map.getAttr] at h
  simp only [getStrAttr, Map.getStrAttr, h]

theorem getIntAttr_of_getAttr (h : q.getAttr name = p.getAttr name) :
    q.getIntAttr name = p.getIntAttr name := by
  simp only [getAttr, Map.getAttr] at h
  simp only [getIntAttr, Map.getIntAttr, h]

theorem hasAttr_of_getAttr (h : q.getAttr name = p.getAttr name) :
    q.hasAttr name = p.hasAttr name := by
  simp only [getAttr, Map.getAttr] at h
  simp only [hasAttr, Map.hasAttr, h]

theorem hasAttr_of_getIntAttr {value : Int32} (h : p.getIntAttr name = some value) :
    p.hasAttr name = true := by
  unfold getIntAttr Map.getIntAttr at h
  unfold hasAttr Map.hasAttr
  cases hfind : Assoc.find name p.attributes with
  | none =>
    rw [hfind] at h
    exact absurd h (by simp)
  | some v => rfl

theorem numbered_of_sequenceInfo {now : UInt32} {info : SequenceInfo}
    (h : p.sequenceInfo now = some info) :
    p.hasAttr "_internal_sequence_number" = true := by
  unfold sequenceInfo at h
  split at h
  · rename_i hnumber _
    exact hasAttr_of_getIntAttr hnumber
  · simp at h

theorem sequenceInfo_congr (hnumber : q.getAttr "_internal_sequence_number" =
    p.getAttr "_internal_sequence_number")
    (hepoch : q.getAttr "_internal_epoch" = p.getAttr "_internal_epoch") (now : UInt32) :
    q.sequenceInfo now = p.sequenceInfo now := by
  unfold sequenceInfo
  rw [getIntAttr_of_getAttr hnumber, getIntAttr_of_getAttr hepoch]

end Publication

namespace Link

variable {link : Link} {p q : Publication} {name : String}

/-! ## What a relayed publication keeps -/

theorem setPublisherLabels_getAttr {cluster : List String}
    (hname : ∀ key ∈ cluster, "publisher_" ++ key ≠ name) :
    (link.setPublisherLabels cluster p).getAttr name = p.getAttr name := by
  unfold setPublisherLabels
  induction cluster generalizing p with
  | nil => rfl
  | cons key cluster ih =>
    rw [List.foldl_cons, ih fun k hk => hname k (List.mem_cons_of_mem _ hk),
      Publication.getAttr_setAttr, if_neg (hname key List.mem_cons_self)]

theorem setReplyPath_getAttr {cluster : List String} (hq : setReplyPath cluster p = some q)
    (hname : name ≠ "reply_path") :
    q.getAttr name = p.getAttr name := by
  unfold setReplyPath at hq
  split at hq
  · obtain ⟨path, -, rfl⟩ := Option.map_eq_some_iff.mp hq
    rw [Publication.getAttr_setAttr, if_neg (Ne.symm hname)]
  · rw [← Option.some.inj hq, Publication.getAttr_setAttr, if_neg (Ne.symm hname)]

theorem crossCluster_getAttr {cluster : List String} (hq : link.crossCluster p cluster = some q)
    (hreply : name ≠ "reply_path") (hname : ∀ key ∈ cluster, "publisher_" ++ key ≠ name) :
    q.getAttr name = p.getAttr name := by
  unfold crossCluster at hq
  split at hq
  · rw [Option.some.inj hq]
  · rw [setReplyPath_getAttr hq hreply, setPublisherLabels_getAttr hname]

theorem crossClusters_getAttr {clusters : List (List String)}
    (hq : clusters.foldlM link.crossCluster p = some q) (hreply : name ≠ "reply_path")
    (hname : ∀ cluster ∈ clusters, ∀ key ∈ cluster, "publisher_" ++ key ≠ name) :
    q.getAttr name = p.getAttr name := by
  refine Runs.invariant_of (fun q => q.getAttr name = p.getAttr name) (fun _ cluster =>
    cluster ∈ clusters) rfl ?_ ?_ hq
  · intro q₁ cluster q₂ h hcluster hcross
    rw [crossCluster_getAttr hcross hreply (hname cluster hcluster), h]
  · intro pre cluster post _ heq _
    rw [heq]
    simp

/-- The publisher stays, or a label of this node takes its place. -/
def Renamed (link : Link) (p q : Publication) : Prop :=
  q.getAttr "publisher_node_id" = p.getAttr "publisher_node_id" ∨
    q.getAttr "publisher_node_id" = some (.str (link.localLabel "node_id"))

theorem renamed_setPublisherLabels (link : Link) (cluster : List String) (p : Publication) :
    link.Renamed p (link.setPublisherLabels cluster p) := by
  unfold setPublisherLabels
  induction cluster using List.reverseRecOn with
  | nil => exact Or.inl rfl
  | append_singleton cluster key ih =>
    rw [List.foldl_append, List.foldl_cons, List.foldl_nil]
    unfold Renamed
    rw [Publication.getAttr_setAttr]
    by_cases hkey : key = "node_id"
    · rw [if_pos ((publisher_label_iff key).mpr hkey), hkey]
      exact Or.inr rfl
    · rw [if_neg (mt (publisher_label_iff key).mp hkey)]
      exact ih

theorem renamed_crossClusters {clusters : List (List String)}
    (hq : clusters.foldlM link.crossCluster p = some q) :
    link.Renamed p q := by
  refine Runs.invariant (link.Renamed p) (Or.inl rfl) ?_ hq
  intro q₁ cluster q₂ h hcross
  unfold crossCluster at hcross
  split at hcross
  · rwa [← Option.some.inj hcross]
  · have hreply := setReplyPath_getAttr hcross (by decide : "publisher_node_id" ≠ "reply_path")
    unfold Renamed at h ⊢
    rcases renamed_setPublisherLabels link cluster q₁ with hlabel | hlabel
    · rwa [hreply, hlabel]
    · exact Or.inr (hreply.trans hlabel)

theorem getStrAttr_of_label (h : q.getAttr "publisher_node_id" =
    some (.str (link.localLabel "node_id"))) :
    q.getStrAttr "publisher_node_id" = some (link.localLabel "node_id") := by
  unfold Publication.getAttr Map.getAttr at h
  simp only [Publication.getStrAttr, Map.getStrAttr, h]

theorem addIncommingRoutingFields_getAttr {partner_node_id : String}
    (hq : addIncommingRoutingFields partner_node_id p = some q)
    (hname : name ≠ "_internal_forwarded_by") :
    q.getAttr name = p.getAttr name := by
  unfold addIncommingRoutingFields at hq
  split at hq
  · obtain ⟨forwarders, -, rfl⟩ := Option.map_eq_some_iff.mp hq
    rw [Publication.getAttr_setAttr, if_neg (Ne.symm hname)]
  · rw [← Option.some.inj hq, Publication.getAttr_setAttr, if_neg (Ne.symm hname)]

/-- What `dispatch` hands on: labels and the path of replies are set first, then the partner joins
the path. -/
theorem dispatch_publish (h : link.dispatch p = some (.publish q)) :
    (∀ type : ControlType, p.getStrAttr "type" ≠ some type.name) ∧
    p.getStrAttr "type" ≠ some "subscription_update" ∧
      ∃ p', link.clusters.foldlM link.crossCluster p = some p' ∧
        addIncommingRoutingFields link.partner_node_id p' = some q := by
  unfold dispatch at h
  split at h
  · simp at h
  · rename_i hhello
    split at h
    · simp at h
    · rename_i hadded
      split at h
      · simp at h
      · rename_i hremoved
        obtain ⟨p', hp', h⟩ := Option.bind_eq_some_iff.mp h
        obtain ⟨q', hq', heq⟩ := Option.map_eq_some_iff.mp h
        obtain rfl := Outcome.publish.inj heq
        refine ⟨?_, hhello, p', hp', hq'⟩
        intro type
        cases type with
        | subscriptionsAdded => exact hadded
        | subscriptionsRemoved => exact hremoved

theorem publisher_ne_append {name : String} (hname : ¬ "publisher_".toList <+: name.toList)
    (key : String) :
    "publisher_" ++ key ≠ name := by
  rintro rfl
  exact hname (by rw [String.toList_append]; exact List.prefix_append _ _)

theorem dispatch_getAttr (h : link.dispatch p = some (.publish q))
    (hpath : name ≠ "_internal_forwarded_by") (hreply : name ≠ "reply_path")
    (hname : ¬ "publisher_".toList <+: name.toList) :
    q.getAttr name = p.getAttr name := by
  obtain ⟨-, -, p', hp', hq⟩ := dispatch_publish h
  rw [addIncommingRoutingFields_getAttr hq hpath,
    crossClusters_getAttr hp' hreply fun _ _ key _ => publisher_ne_append hname key]

theorem dispatch_sequenceInfo (h : link.dispatch p = some (.publish q)) (now : UInt32) :
    q.sequenceInfo now = p.sequenceInfo now :=
  Publication.sequenceInfo_congr (dispatch_getAttr h (by decide) (by decide) (by decide))
    (dispatch_getAttr h (by decide) (by decide) (by decide)) now

theorem dispatch_renamed (h : link.dispatch p = some (.publish q)) : link.Renamed p q := by
  obtain ⟨-, -, p', hp', hq⟩ := dispatch_publish h
  have hsame := addIncommingRoutingFields_getAttr hq
    (by decide : "publisher_node_id" ≠ "_internal_forwarded_by")
  unfold Renamed
  rw [hsame]
  exact renamed_crossClusters hp'

end Link

namespace Network

variable {net : Net} {node partner : String} {now : UInt32} {m : Message} {s s' : Network}

/-! ## What a step does -/

/-- The state after `should_forward` said that the message is to be sent, or not. -/
def forwarded (s : Network) (link : String × String) (r : SequenceInfos × Bool) (m : Message) :
    Network :=
  { s with
    outgoing_sequence_infos := Function.update s.outgoing_sequence_infos link r.1
    channel := if r.2 then Function.update s.channel link (s.channel link ++ [m]) else s.channel }

/-- A message is offered to a link, unless it came through the partner or cannot be compared. -/
inductive Offered (s : Network) (node partner : String) (now : UInt32) (m : Message) :
    Network → Prop
  | returned (hcame : cameThrough partner m.publication = some true) :
      Offered s node partner now m s
  | compared (hcame : cameThrough partner m.publication = some false) (publisher : String)
      (info : SequenceInfo)
    (hpublisher : m.publication.getStrAttr "publisher_node_id" = some publisher)
    (hinfo : m.publication.sequenceInfo now = some info) :
    Offered s node partner now m (s.forwarded (node, partner)
      (Watermark.offer SequenceInfo.newer (s.outgoing_sequence_infos (node, partner)) publisher
        info) m)
  | unstamped (hcame : cameThrough partner m.publication = some false)
    (hnone : m.publication.getStrAttr "publisher_node_id" = none ∨
      m.publication.sequenceInfo now = none) :
    Offered s node partner now m
      (s.forwarded (node, partner) (s.outgoing_sequence_infos (node, partner), true) m)

theorem forwarded_false (s : Network) (link : String × String) (m : Message) :
    s.forwarded link (s.outgoing_sequence_infos link, false) m = s := by
  simp [forwarded, Function.update_eq_self]

theorem shouldForward_cases {infos : SequenceInfos} {p : Publication} {r : SequenceInfos × Bool}
    (h : shouldForward partner infos now p = some r) :
    (cameThrough partner p = some true ∧ r = (infos, false)) ∨
    (cameThrough partner p = some false ∧
      ((∃ publisher info, p.getStrAttr "publisher_node_id" = some publisher ∧
        p.sequenceInfo now = some info ∧
        r = Watermark.offer SequenceInfo.newer infos publisher info) ∨
      ((p.getStrAttr "publisher_node_id" = none ∨ p.sequenceInfo now = none) ∧
        r = (infos, true)))) := by
  obtain ⟨found, hfound, hr⟩ := Option.map_eq_some_iff.mp h
  cases found with
  | true => exact Or.inl ⟨hfound, hr.symm⟩
  | false =>
    refine Or.inr ⟨hfound, ?_⟩
    cases hpublisher : p.getStrAttr "publisher_node_id" with
    | none =>
      rw [hpublisher] at hr
      exact Or.inr ⟨Or.inl rfl, hr.symm⟩
    | some publisher =>
      cases hinfo : p.sequenceInfo now with
      | none =>
        rw [hpublisher, hinfo] at hr
        exact Or.inr ⟨Or.inr rfl, hr.symm⟩
      | some info =>
        rw [hpublisher, hinfo] at hr
        exact Or.inl ⟨publisher, info, rfl, rfl, hr.symm⟩

theorem send_cases (hsend : send net node now m s partner = some s') :
    (node, partner) ∈ net.links ∧ Offered s node partner now m s' := by
  unfold send at hsend
  split at hsend
  · rename_i hlink
    refine ⟨hlink, ?_⟩
    obtain ⟨r, hr, rfl⟩ := Option.map_eq_some_iff.mp hsend
    show Offered s node partner now m (s.forwarded (node, partner) r m)
    rcases shouldForward_cases hr with ⟨hcame, rfl⟩ | ⟨hcame,
        ⟨publisher, info, hpublisher, hinfo, rfl⟩ | ⟨hnone, rfl⟩⟩
    · rw [forwarded_false]
      exact .returned hcame
    · exact .compared hcame publisher info hpublisher hinfo
    · exact .unstamped hcame hnone
  · simp at hsend

theorem issue_keeps {control : Option ControlType} {p : Publication} {partners : List String}
    (P : Network → Prop) (hcounter : P { s with
      sequence_number := Function.update s.sequence_number node
        (Router.stamp (net.board node) (s.sequence_number node) p).2 })
    (hoffer : ∀ s₁ partner s₂, P s₁ → partner ∈ partners → (node, partner) ∈ net.links →
      Offered s₁ node partner now
        ⟨control, (Router.stamp (net.board node) (s.sequence_number node) p).1⟩ s₂ → P s₂)
    (hissue : s.issue net node now control p partners = some s') : P s' := by
  refine Runs.invariant_of P (fun _ partner => partner ∈ partners) hcounter ?_ ?_ hissue
  · intro s₁ partner s₂ h hmem hsend
    obtain ⟨hlink, hoffered⟩ := send_cases hsend
    exact hoffer s₁ partner s₂ h hmem hlink hoffered
  · intro pre partner post _ heq _
    rw [heq]
    simp

/-- The state in which a node has taken the first message of a link. -/
def taken (s : Network) (partner node : String) (rest : List Message) (infos : SequenceInfos)
    (e : Arrival) : Network :=
  { s with
    channel := Function.update s.channel (partner, node) rest
    incomming_sequence_infos := Function.update s.incomming_sequence_infos node infos
    arrived := Function.update s.arrived node (s.arrived node ++ [e]) }

theorem deliver_cases {partners : List String}
    (hstep : s.deliver net partner node partners now = some s') :
    ∃ m rest infos outcome, s.channel (partner, node) = m :: rest ∧
      (net.linkAt node partner).processRemotePublication (net.board node)
      (s.incomming_sequence_infos node) now
        m.publication = some (infos, outcome) ∧
      ((∃ q, outcome = .publish q ∧
        (s.taken partner node rest infos ⟨partner, m, now, outcome⟩).issue net node now none q
          partners = some s') ∨
      ((∀ q, outcome ≠ .publish q) ∧ s' = s.taken partner node rest infos
        ⟨partner, m, now, outcome⟩)) := by
  unfold deliver at hstep
  split at hstep
  · simp at hstep
  · rename_i m rest hqueue
    obtain ⟨⟨infos, outcome⟩, hr, hstep⟩ := Option.bind_eq_some_iff.mp hstep
    refine ⟨m, rest, infos, outcome, hqueue, hr, ?_⟩
    cases outcome with
    | publish q => exact Or.inl ⟨q, rfl, hstep⟩
    | drop => exact Or.inr ⟨by simp, (Option.some.inj hstep).symm⟩
    | remoteHello p => exact Or.inr ⟨by simp, (Option.some.inj hstep).symm⟩
    | remoteSubscriptionsAdded p => exact Or.inr ⟨by simp, (Option.some.inj hstep).symm⟩
    | remoteSubscriptionsRemoved p => exact Or.inr ⟨by simp, (Option.some.inj hstep).symm⟩

/-! ## Rest -/

/-- All publications on the links of the net. -/
def flying (net : Net) (s : Network) : List Publication :=
  net.links.flatMap fun link => (s.channel link).map (·.publication)

/-- The publishers and the stamps on the links. A label of a node may become a publisher, too. -/
def stamps (net : Net) (s : Network) : List (String × SequenceInfo) :=
  ((s.flying net).filterMap (·.getStrAttr "publisher_node_id") ++
    net.links.map fun link => (net.linkAt link.2 link.1).localLabel "node_id").product
    ((s.flying net).filterMap (·.sequenceInfo 0))

/-- What can still be taken from the links: what is on them, and what their tables would let
through. -/
def credit (net : Net) (values : List (String × SequenceInfo)) (s : Network) : Nat :=
  (net.links.map fun link => (s.channel link).length +
    Watermark.room SequenceInfo.newer (s.outgoing_sequence_infos link) values).sum

/-- Only links have something on them, and its stamps are among these, for the publisher and for
every label. -/
structure Within (net : Net) (values : List (String × SequenceInfo)) (s : Network) : Prop where
  channel : ∀ link, link ∉ net.links → s.channel link = []
  stamped : ∀ link ∈ net.links, ∀ m ∈ s.channel link, ∀ publisher info,
    m.publication.getStrAttr "publisher_node_id" = some publisher →
      m.publication.sequenceInfo 0 = some info →
    (publisher, info) ∈ values ∧ ∀ link' ∈ net.links,
    ((net.linkAt link'.2 link'.1).localLabel "node_id", info) ∈ values

theorem newer_now (info : SequenceInfo) (now : UInt32) (w : SequenceInfo) :
    w.newer { info with last_timestamp := now } = w.newer info ∧
      SequenceInfo.newer { info with last_timestamp := now } w = info.newer w :=
  ⟨rfl, rfl⟩

theorem credit_offered {values : List (String × SequenceInfo)}
    (hoffered : Offered s node partner now m s') {publisher : String} {info : SequenceInfo}
    (hpublisher : m.publication.getStrAttr "publisher_node_id" = some publisher)
    (hinfo : m.publication.sequenceInfo 0 = some info) (hmem : (publisher, info) ∈ values) :
    s'.credit net values ≤ s.credit net values := by
  have hnow : m.publication.sequenceInfo now = some { info with last_timestamp := now } := by
    rw [Publication.sequenceInfo_now, hinfo]
    rfl
  cases hoffered with
  | returned => exact Nat.le_refl _
  | unstamped _ hnone => simp [hpublisher, hnow] at hnone
  | compared _ publisher' info' hpublisher' hinfo' =>
    obtain rfl : publisher = publisher' := Option.some.inj (hpublisher.symm.trans hpublisher')
    obtain rfl := Option.some.inj (hnow.symm.trans hinfo')
    refine List.sum_le_sum fun link hlink => ?_
    unfold forwarded
    dsimp only
    by_cases heq : link = (node, partner)
    · subst heq
      rw [Function.update_self]
      cases hpass : (Watermark.offer SequenceInfo.newer (s.outgoing_sequence_infos (node, partner))
        publisher
          { info with last_timestamp := now }).2 with
      | true =>
        have hroom := Watermark.room_offer_lt SequenceInfo.newer_weak hmem
          (newer_now info now) hpass
        rw [if_pos rfl, Function.update_self, List.length_append, List.length_singleton]
        omega
      | false =>
        rw [if_neg (by simp), Watermark.offer_of_not_pass hpass]
    · rw [Function.update_of_ne heq]
      split
      · rw [Function.update_of_ne heq]
      · exact Nat.le_refl _

theorem Within.offered {values : List (String × SequenceInfo)} (h : Within net values s)
    (hlink : (node, partner) ∈ net.links) (hoffered : Offered s node partner now m s')
    (hm : ∀ publisher info, m.publication.getStrAttr "publisher_node_id" = some publisher →
      m.publication.sequenceInfo 0 = some info → (publisher, info) ∈ values ∧
        ∀ link' ∈ net.links, ((net.linkAt link'.2 link'.1).localLabel "node_id", info) ∈ values) :
    Within net values s' := by
  have hforwarded : ∀ r, Within net values (s.forwarded (node, partner) r m) := by
    intro r
    unfold forwarded
    refine ⟨?_, ?_⟩
    · intro link hno
      dsimp only
      have hne : link ≠ (node, partner) := fun heq => hno (heq ▸ hlink)
      split
      · rw [Function.update_of_ne hne]
        exact h.channel link hno
      · exact h.channel link hno
    · intro link hin m' hm'
      dsimp only at hm'
      split at hm'
      · by_cases heq : link = (node, partner)
        · subst heq
          rw [Function.update_self] at hm'
          rcases List.mem_append.mp hm' with hm' | hm'
          · exact h.stamped _ hin m' hm'
          · rw [List.mem_singleton.mp hm']
            exact hm
        · rw [Function.update_of_ne heq] at hm'
          exact h.stamped link hin m' hm'
      · exact h.stamped link hin m' hm'
  cases hoffered with
  | returned => exact h
  | compared => exact hforwarded _
  | unstamped => exact hforwarded _

theorem published_cases {infos infos' : SequenceInfos} {p q : Publication}
    (h : (net.linkAt node partner).processRemotePublication (net.board node) infos now p =
      some (infos', .publish q)) :
    ∃ publisher info, p.getStrAttr "publisher_node_id" = some publisher ∧ publisher ≠ node ∧
      p.sequenceInfo now = some info ∧ (Watermark.offer SequenceInfo.newer infos publisher info).2 =
        true ∧
      infos' = (Watermark.offer SequenceInfo.newer infos publisher info).1 ∧
      (net.linkAt node partner).dispatch p = some (.publish q) := by
  rcases processRemotePublication_cases h with ⟨publisher, info, hpub, hne, hinfo, hinfos,
      hout⟩ | ⟨-, heq⟩
  · split at hout
    · rename_i hpass
      exact ⟨publisher, info, hpub, hne, hinfo, hpass, hinfos, hout⟩
    · simp at hout
  · simp at heq

theorem stamp_of_stamped {board : Board} {seq : UInt32} {q : Publication} {info : SequenceInfo}
    (h : q.sequenceInfo 0 = some info) : Router.stamp board seq q = (q, seq) := by
  unfold Router.stamp
  rw [if_neg fun hnew => by simp [Publication.numbered_of_sequenceInfo h] at hnew]

theorem sequenceInfo_zero {p : Publication} {info : SequenceInfo}
    (h : p.sequenceInfo now = some info) :
    ∃ info₀, p.sequenceInfo 0 = some info₀ := by
  rw [Publication.sequenceInfo_now] at h
  obtain ⟨info₀, h₀, -⟩ := Option.map_eq_some_iff.mp h
  exact ⟨info₀, h₀⟩

theorem credit_taken {values : List (String × SequenceInfo)} {rest : List Message}
    {infos : SequenceInfos} {e : Arrival} (hqueue : s.channel (partner, node) = m :: rest)
    (hlink : (partner, node) ∈ net.links) :
    (s.taken partner node rest infos e).credit net values < s.credit net values := by
  refine List.sum_lt_sum _ _ ?_ ⟨(partner, node), hlink, ?_⟩
  · intro link _
    unfold taken
    dsimp only
    by_cases heq : link = (partner, node)
    · subst heq
      rw [Function.update_self, hqueue, List.length_cons]
      omega
    · rw [Function.update_of_ne heq]
  · unfold taken
    dsimp only
    rw [Function.update_self, hqueue, List.length_cons]
    omega

theorem Within.taken {values : List (String × SequenceInfo)} {rest : List Message}
    {infos : SequenceInfos} {e : Arrival} (h : Within net values s)
    (hqueue : s.channel (partner, node) = m :: rest) :
    Within net values (s.taken partner node rest infos e) := by
  unfold Network.taken
  refine ⟨?_, ?_⟩
  · intro link hno
    dsimp only
    have hne : link ≠ (partner, node) := by
      rintro rfl
      rw [h.channel _ hno] at hqueue
      simp at hqueue
    rw [Function.update_of_ne hne]
    exact h.channel link hno
  · intro link hin m' hm'
    dsimp only at hm'
    by_cases heq : link = (partner, node)
    · subst heq
      rw [Function.update_self] at hm'
      exact h.stamped _ hin m' (by rw [hqueue]; exact List.mem_cons_of_mem _ hm')
    · rw [Function.update_of_ne heq] at hm'
      exact h.stamped link hin m' hm'

theorem Within.handed {values : List (String × SequenceInfo)} (h : Within net values s)
    {p q : Publication} (hm : m ∈ s.channel (partner, node)) (hlink : (partner, node) ∈ net.links)
    (hp : m.publication = p) (hq : (net.linkAt node partner).dispatch p = some (.publish q))
    {publisher : String} {info : SequenceInfo}
    (hpublisher : q.getStrAttr "publisher_node_id" = some publisher)
    (hinfo : q.sequenceInfo 0 = some info)
    (hread : ∃ publisher, p.getStrAttr "publisher_node_id" = some publisher) :
    (publisher, info) ∈ values ∧
      ∀ link' ∈ net.links, ((net.linkAt link'.2 link'.1).localLabel "node_id", info) ∈ values := by
  subst hp
  rw [Link.dispatch_sequenceInfo hq] at hinfo
  obtain ⟨old, hold⟩ := hread
  obtain ⟨hmem, hlabels⟩ := h.stamped _ hlink m hm old info hold hinfo
  refine ⟨?_, hlabels⟩
  rcases Link.dispatch_renamed hq with hsame | hlabel
  · rw [Publication.getStrAttr_of_getAttr hsame, hold] at hpublisher
    rwa [← Option.some.inj hpublisher]
  · rw [Link.getStrAttr_of_label hlabel] at hpublisher
    rw [← Option.some.inj hpublisher]
    exact hlabels _ hlink

/-- A delivery costs credit, whatever the node hands on, and to whom. -/
theorem credit_deliver {values : List (String × SequenceInfo)} {partners : List String}
    (h : Within net values s) (hstep : s.deliver net partner node partners now = some s') :
    Within net values s' ∧ s'.credit net values < s.credit net values := by
  obtain ⟨m, rest, infos, outcome, hqueue, hr, hnext⟩ := deliver_cases hstep
  have hlink : (partner, node) ∈ net.links := by
    by_contra hno
    rw [h.channel _ hno] at hqueue
    simp at hqueue
  have htaken : Within net values (s.taken partner node rest infos ⟨partner, m, now, outcome⟩) :=
    h.taken hqueue
  have hcost : (s.taken partner node rest infos ⟨partner, m, now, outcome⟩).credit net values <
      s.credit net values :=
    credit_taken hqueue hlink
  rcases hnext with ⟨q, rfl, hissue⟩ | ⟨-, rfl⟩
  · obtain ⟨publisher, info, hpub, -, hinfo, -, -, hdispatch⟩ := published_cases hr
    obtain ⟨info₀, hinfo₀⟩ := sequenceInfo_zero hinfo
    have hmem : m ∈ s.channel (partner, node) := by rw [hqueue]; exact List.mem_cons_self
    have hq : q.sequenceInfo 0 = some info₀ := (Link.dispatch_sequenceInfo hdispatch 0).trans hinfo₀
    obtain ⟨name, hname⟩ : ∃ name, q.getStrAttr "publisher_node_id" = some name := by
      rcases Link.dispatch_renamed hdispatch with hsame | hlabel
      · exact ⟨publisher, (Publication.getStrAttr_of_getAttr hsame).trans hpub⟩
      · exact ⟨_, Link.getStrAttr_of_label hlabel⟩
    have hhanded := fun publisher info (hpublisher : q.getStrAttr "publisher_node_id" =
      some publisher) (hinfo : q.sequenceInfo 0 = some info) => h.handed hmem hlink rfl hdispatch
        hpublisher hinfo ⟨_, hpub⟩
    refine issue_keeps (fun s' => Within net values s' ∧ s'.credit net values < s.credit net values)
      ?_ ?_ hissue
    · exact ⟨⟨htaken.channel, htaken.stamped⟩, hcost⟩
    · rintro s₁ partner' s₂ ⟨hwithin, hless⟩ - hlink' hoffered
      rw [stamp_of_stamped hq] at hoffered
      refine ⟨hwithin.offered hlink' hoffered hhanded, ?_⟩
      exact Nat.lt_of_le_of_lt (credit_offered hoffered hname hq (hhanded name info₀ hname hq).1)
        hless
  · exact ⟨htaken, hcost⟩

theorem links_offered (h : ∀ link, link ∉ net.links → s.channel link = [])
    (hlink : (node, partner) ∈ net.links) (hoffered : Offered s node partner now m s') :
    ∀ link, link ∉ net.links → s'.channel link = [] := by
  have hforwarded : ∀ r, ∀ link, link ∉ net.links →
      (s.forwarded (node, partner) r m).channel link = [] := by
    intro r link hno
    have hne : link ≠ (node, partner) := fun heq => hno (heq ▸ hlink)
    unfold forwarded
    dsimp only
    split
    · rw [Function.update_of_ne hne]
      exact h link hno
    · exact h link hno
  cases hoffered with
  | returned => exact h
  | compared => exact hforwarded _
  | unstamped => exact hforwarded _

theorem links_run {steps : List Step} (hrun : run net steps = some s) :
    ∀ link, link ∉ net.links → s.channel link = [] := by
  refine Runs.invariant (fun s => ∀ link, link ∉ net.links → s.channel link = [])
    (fun _ _ => rfl) ?_ hrun
  intro s step s' h hstep
  cases step with
  | control | publish =>
    exact issue_keeps (fun s => ∀ link, link ∉ net.links → s.channel link = []) h
      (fun _ _ _ h' _ hlink hoffered => links_offered h' hlink hoffered) hstep
  | deliver partner node partners now =>
    obtain ⟨m, rest, infos, outcome, hqueue, -, hnext⟩ := deliver_cases hstep
    have htaken : ∀ link, link ∉ net.links →
        (s.taken partner node rest infos ⟨partner, m, now, outcome⟩).channel link = [] := by
      intro link hno
      have hne : link ≠ (partner, node) := by
        rintro rfl
        rw [h _ hno] at hqueue
        simp at hqueue
      unfold taken
      dsimp only
      rw [Function.update_of_ne hne]
      exact h link hno
    rcases hnext with ⟨q, -, hissue⟩ | ⟨-, rfl⟩
    · exact issue_keeps (fun s => ∀ link, link ∉ net.links → s.channel link = []) htaken
        (fun _ _ _ h' _ hlink hoffered => links_offered h' hlink hoffered) hissue
    · exact htaken

theorem within_stamps (h : ∀ link, link ∉ net.links → s.channel link = []) :
    Within net (s.stamps net) s := by
  refine ⟨h, ?_⟩
  intro link hlink m hm publisher info hpublisher hinfo
  have hflying : m.publication ∈ s.flying net :=
    List.mem_flatMap.mpr ⟨link, hlink, List.mem_map_of_mem hm⟩
  have hstamp : info ∈ (s.flying net).filterMap (·.sequenceInfo 0) :=
    List.mem_filterMap.mpr ⟨m.publication, hflying, hinfo⟩
  refine ⟨List.pair_mem_product.mpr ⟨List.mem_append_left _ ?_, hstamp⟩, ?_⟩
  · exact List.mem_filterMap.mpr ⟨m.publication, hflying, hpublisher⟩
  · intro link' hlink'
    refine List.pair_mem_product.mpr ⟨List.mem_append_right _ ?_, hstamp⟩
    exact List.mem_map_of_mem (f := fun link : String × String =>
      (net.linkAt link.2 link.1).localLabel "node_id") hlink'

def Step.isDelivery : Step → Bool
  | .deliver .. => true
  | _ => false

/-- Once nobody publishes anything, the network comes to rest: no more messages can be taken from
its links than its tables had credit for, in whatever order they are taken and to whomever they are
handed on. -/
theorem comes_to_rest {steps deliveries : List Step} {s' : Network} (hrun : run net steps = some s)
    (hdeliveries : ∀ step ∈ deliveries, step.isDelivery = true)
    (hrest : deliveries.foldlM (step net) s = some s') :
    deliveries.length + s'.credit net (s.stamps net) ≤ s.credit net (s.stamps net) := by
  have hwithin : Within net (s.stamps net) s := within_stamps (links_run hrun)
  generalize s.stamps net = values at hwithin
  clear hrun
  induction deliveries generalizing s with
  | nil =>
    obtain rfl : s = s' := Option.some.inj hrest
    simp
  | cons delivery deliveries ih =>
    rw [List.forall_mem_cons] at hdeliveries
    rw [List.foldlM_cons] at hrest
    obtain ⟨s₁, hfirst, hnext⟩ := Option.bind_eq_some_iff.mp hrest
    cases delivery with
    | control | publish => exact absurd hdeliveries.1 (by simp [Step.isDelivery])
    | deliver partner node partners now =>
      obtain ⟨hwithin₁, hcost⟩ := credit_deliver hwithin hfirst
      have hlater := ih hdeliveries.2 hnext hwithin₁
      rw [List.length_cons]
      omega

/-- A ping and a control message in the triangle. -/
theorem comes_to_rest_triangle : ∃ s s', run triangle announceAndPing = some s ∧
    [Step.deliver "a" "b" [] 7, .deliver "c" "b" [] 8].foldlM (step triangle) s = some s' ∧
    2 + s'.credit triangle (s.stamps triangle) ≤ s.credit triangle (s.stamps triangle) := by
  have hrun : ((run triangle announceAndPing).bind fun s =>
      [Step.deliver "a" "b" [] 7, .deliver "c" "b" [] 8].foldlM (step triangle) s).isSome =
        true := by decide
  obtain ⟨s', hs'⟩ := Option.isSome_iff_exists.mp hrun
  obtain ⟨s, hs, hrest⟩ := Option.bind_eq_some_iff.mp hs'
  have hspent := comes_to_rest hs (by decide) hrest
  exact ⟨s, s', hs, hrest, hspent⟩

end Network

end UActor
