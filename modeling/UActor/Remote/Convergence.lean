import UActor.Remote.Flooding
import UActor.Remote.Numbering
import Mathlib.Logic.Relation

/-!
# What every node gets

Copies of a publication spread over the links, next to older publications of the same node. If it is
the last one of its node, it gets to all that asked for it.
-/

namespace UActor

/-! ## Copies -/

/-- The publication on its way. Nodes set labels, the path of replies and the forwarders. -/
structure Copy (p q : Publication) : Prop where
  publisher : q.getAttr "publisher_node_id" = p.getAttr "publisher_node_id"
  kept : ∀ name, name ≠ "_internal_forwarded_by" → name ≠ "reply_path" → ¬ "publisher_".toList <+:
    name.toList →
    q.getAttr name = p.getAttr name

/-- No name gets into the way of a path, and no cluster hides where a publication is from. -/
structure Net.Plain (net : Net) : Prop where
  ids : ∀ link ∈ net.links, (link.1 ≠ "" ∧ ',' ∉ link.1.toList) ∧ link.2 ≠ "" ∧ ',' ∉ link.2.toList
  labels : ∀ node, ∀ cluster ∈ net.clusters node, "node_id" ∉ cluster

namespace Link

variable {link : Link} {p q : Publication}

theorem dispatch_publisher (h : link.dispatch p = some (.publish q))
    (hlabels : ∀ cluster ∈ link.clusters, "node_id" ∉ cluster) :
    q.getAttr "publisher_node_id" = p.getAttr "publisher_node_id" := by
  obtain ⟨-, -, p', hp', hq⟩ := dispatch_publish h
  rw [addIncommingRoutingFields_getAttr hq (by decide), crossClusters_getAttr hp' (by decide)]
  intro cluster hcluster key hkey heq
  obtain rfl := (publisher_label_iff key).mp heq
  exact hlabels cluster hcluster hkey

/-- What is handed on is a copy exactly if what came is one. -/
theorem copy_dispatch_iff (h : link.dispatch q = some (.publish p))
    (hlabels : ∀ cluster ∈ link.clusters, "node_id" ∉ cluster) (p₀ : Publication) :
    Copy p₀ p ↔ Copy p₀ q := by
  have hpublisher := dispatch_publisher h hlabels
  constructor
  · rintro ⟨hsame, hkept⟩
    refine ⟨hpublisher.symm.trans hsame, fun name hpath hreply hname => ?_⟩
    rw [← dispatch_getAttr h hpath hreply hname, hkept name hpath hreply hname]
  · rintro ⟨hsame, hkept⟩
    refine ⟨hpublisher.trans hsame, fun name hpath hreply hname => ?_⟩
    rw [dispatch_getAttr h hpath hreply hname, hkept name hpath hreply hname]

theorem dispatch_ordinary {outcome : Outcome}
    (htype : ∀ type : ControlType, p.getStrAttr "type" ≠ some type.name)
    (hhello : p.getStrAttr "type" ≠ some "subscription_update")
    (h : link.dispatch p = some outcome) :
    ∃ q, outcome = .publish q := by
  have hadded : p.getStrAttr "type" ≠ some "subscriptions_added" := htype .subscriptionsAdded
  have hremoved : p.getStrAttr "type" ≠ some "subscriptions_removed" := htype .subscriptionsRemoved
  unfold dispatch at h
  rw [if_neg hhello, if_neg hadded, if_neg hremoved] at h
  obtain ⟨p', -, h⟩ := Option.bind_eq_some_iff.mp h
  obtain ⟨q, -, rfl⟩ := Option.map_eq_some_iff.mp h
  exact ⟨q, rfl⟩

theorem dispatch_listed {hops : List String} (hlisted : Listed hops p p)
    (h : link.dispatch p = some (.publish q)) :
    Listed (hops ++ [link.partner_node_id]) q q := by
  obtain ⟨-, -, p', hp', hq⟩ := dispatch_publish h
  have hsame : p'.getAttr "_internal_forwarded_by" = p.getAttr "_internal_forwarded_by" :=
    crossClusters_getAttr hp' (by decide) fun _ _ key _ => publisher_ne_append (by decide) key
  have hlisted' : Listed hops p' p' := by
    refine ⟨?_, ?_, fun _ _ => rfl, fun _ _ => rfl⟩
    · rw [Publication.hasAttr_of_getAttr hsame]
      exact hlisted.hasAttr
    · rw [Publication.getStrAttr_of_getAttr hsame]
      exact hlisted.forwarders
  obtain ⟨q', hq', hlisted''⟩ := hlisted'.add link.partner_node_id
  obtain rfl : q = q' := Option.some.inj (hq.symm.trans hq')
  exact ⟨hlisted''.hasAttr, hlisted''.forwarders, fun _ _ => rfl, fun _ _ => rfl⟩

end Link

namespace Copy

variable {p q : Publication} {now : UInt32}

theorem refl (p : Publication) : Copy p p := ⟨rfl, fun _ _ _ _ => rfl⟩

theorem getStrAttr_publisher (h : Copy p q) :
    q.getStrAttr "publisher_node_id" = p.getStrAttr "publisher_node_id" :=
  Publication.getStrAttr_of_getAttr h.publisher

theorem getStrAttr_type (h : Copy p q) : q.getStrAttr "type" = p.getStrAttr "type" :=
  Publication.getStrAttr_of_getAttr (h.kept "type" (by decide) (by decide) (by decide))

theorem sequenceInfo (h : Copy p q) : q.sequenceInfo now = p.sequenceInfo now :=
  Publication.sequenceInfo_congr (h.kept _ (by decide) (by decide) (by decide))
    (h.kept _ (by decide) (by decide) (by decide)) now

end Copy

namespace Network

variable {net : Net} {node partner : String} {now : UInt32} {m : Message} {s s' : Network}

/-! ## Publications of their own -/

/-- What actors publish is from this node and has no number. -/
def Step.Fresh (net : Net) : Step → Prop
  | .publish node p _ _ => Own (net.board node) p
  | _ => True

/-- The node makes a new publication in this step. -/
def Step.issuedBy (publisher : String) : Step → Bool
  | .control node .. => decide (node = publisher)
  | .publish node .. => decide (node = publisher)
  | .deliver .. => false

theorem controlMessage_own (board : Board) (type : ControlType) (local_id : Nat)
    (subscriptions : Map) : Own board (controlMessage board type local_id subscriptions) :=
  ⟨rfl, rfl⟩

theorem issue_own {control : Option ControlType} {p : Publication} {partners : List String} (P : Network → Prop)
    (hown : Own (net.board node) p)
    (hcounter : P { s with sequence_number := Function.update s.sequence_number node (s.sequence_number node + 1) })
    (hoffer : ∀ s₁ partner s₂ m, P s₁ → (node, partner) ∈ net.links →
      m.publication.getStrAttr "publisher_node_id" = some node →
      m.publication.sequenceInfo 0 = some ⟨s.sequence_number node, (net.epoch node).toUInt32, 0⟩ →
      Offered s₁ node partner now m s₂ → P s₂)
    (hissue : s.issue net node now control p partners = some s') : P s' := by
  obtain ⟨hnext, hpublisher, hinfo⟩ := stamp_own hown (s.sequence_number node) 0
  refine issue_keeps P (by rwa [hnext]) ?_ hissue
  intro s₁ partner s₂ h _ hlink hoffered
  exact hoffer s₁ partner s₂ _ h hlink hpublisher hinfo hoffered

theorem step_keeps {step : Step} (P : Network → Prop) (hfresh : step.Fresh net)
    (hown : ∀ node, step.issuedBy node = true →
      P { s with sequence_number := Function.update s.sequence_number node (s.sequence_number node + 1) })
    (hoffer : ∀ node, step.issuedBy node = true → ∀ s₁ partner s₂ now m, P s₁ → (node, partner) ∈ net.links →
      m.publication.getStrAttr "publisher_node_id" = some node →
      m.publication.sequenceInfo 0 = some ⟨s.sequence_number node, (net.epoch node).toUInt32, 0⟩ →
      Offered s₁ node partner now m s₂ → P s₂)
    (hdeliver : ∀ partner node partners now, step = .deliver partner node partners now →
      s.deliver net partner node partners now = some s' → P s')
    (hstep : Network.step net s step = some s') : P s' := by
  cases step with
  | control node partner type local_id subscriptions now =>
    have hissuer : (Step.control node partner type local_id subscriptions now).issuedBy node = true :=
      decide_eq_true rfl
    exact issue_own P (controlMessage_own _ type local_id subscriptions) (hown node hissuer)
      (fun s₁ partner s₂ m => hoffer node hissuer s₁ partner s₂ now m) hstep
  | publish node p partners now =>
    have hissuer : (Step.publish node p partners now).issuedBy node = true := decide_eq_true rfl
    exact issue_own P hfresh (hown node hissuer) (fun s₁ partner s₂ m => hoffer node hissuer s₁ partner s₂ now m) hstep
  | deliver partner node partners now => exact hdeliver partner node partners now rfl hstep

theorem Offered.arrived_eq (h : Offered s node partner now m s') : s'.arrived = s.arrived := by
  cases h <;> rfl

/-- An older publication of the same node. -/
def Older (info : SequenceInfo) (q : Publication) : Prop :=
  ∃ old, q.sequenceInfo 0 = some old ∧ old.newer info = true

/-- The publication of this publisher, with its stamp and an ordinary type. -/
structure Issued (publisher : String) (p : Publication) (info : SequenceInfo) : Prop where
  publisher : p.getStrAttr "publisher_node_id" = some publisher
  stamped : p.sequenceInfo 0 = some info
  type : ∀ type : ControlType, p.getStrAttr "type" ≠ some type.name
  hello : p.getStrAttr "type" ≠ some "subscription_update"

section Spread

variable (publisher : String) (p : Publication)

/-- The node made the publication, or a copy came to it. -/
def Got (s : Network) (node : String) : Prop :=
  node = publisher ∨ ∃ e ∈ s.arrived node, Copy p e.message.publication

/-- The partner has the publication, or a copy is on its way there. -/
def Reaching (s : Network) (node partner : String) : Prop :=
  s.Got publisher p partner ∨ ∃ m ∈ s.channel (node, partner), Copy p m.publication

/-- The node took the first copy, and dropped all that came later. -/
def TookOnce (arrivals : List Arrival) : Prop :=
  ∃ pre e post q, arrivals = pre ++ e :: post ∧ Copy p e.message.publication ∧
    e.outcome = .publish q ∧
    (∀ e' ∈ pre, ¬ Copy p e'.message.publication) ∧ ∀ e' ∈ post, Copy p e'.message.publication →
    e'.outcome = .drop

/-- What the node may send: of this publisher only what is older, or a copy with nodes on its path
that have it. -/
def Sendable (info : SequenceInfo) (s : Network) (node : String) (q : Publication) : Prop :=
  q.getStrAttr "publisher_node_id" = some publisher → Older info q ∨
    (Copy p q ∧ s.Got publisher p node ∧
    ∃ hops, Listed hops q q ∧ ∀ hop ∈ hops, ',' ∉ hop.toList ∧ s.Got publisher p hop)

structure Spread (info : SequenceInfo) (s : Network) : Prop where
  channel : ∀ node partner, ∀ m ∈ s.channel (node, partner), s.Sendable publisher p info node
    m.publication
  arrived : ∀ node, ∀ e ∈ s.arrived node, e.message.publication.getStrAttr "publisher_node_id" =
    some publisher →
    Older info e.message.publication ∨ Copy p e.message.publication
  table : ∀ node partner last, Assoc.find publisher (s.outgoing_sequence_infos (node, partner)) =
    some last →
    last.newer info = true ∨ s.Reaching publisher p node partner
  took : ∀ node, node ≠ publisher → s.Got publisher p node → TookOnce p (s.arrived node)

end Spread

variable {publisher : String} {p q : Publication} {info : SequenceInfo}

theorem Issued.not_older (h : Issued publisher p info) (hcopy : Copy p q) : ¬ Older info q := by
  rintro ⟨old, hold, hnewer⟩
  rw [hcopy.sequenceInfo, h.stamped] at hold
  rw [← Option.some.inj hold, SequenceInfo.newer_weak.irrefl] at hnewer
  exact absurd hnewer (by simp)

theorem Issued.copy_publisher (h : Issued publisher p info) (hcopy : Copy p q) :
    q.getStrAttr "publisher_node_id" = some publisher :=
      hcopy.getStrAttr_publisher.trans h.publisher

theorem Got.congr (harrived : s'.arrived = s.arrived) :
    s'.Got publisher p node ↔ s.Got publisher p node := by
  unfold Got
  rw [harrived]

theorem Sendable.mono (hgot : ∀ node, s.Got publisher p node → s'.Got publisher p node)
    (h : s.Sendable publisher p info node q) : s'.Sendable publisher p info node q := by
  intro hq
  rcases h hq with hold | ⟨hcopy, hnode, hops, hlisted, hpath⟩
  · exact Or.inl hold
  · refine Or.inr ⟨hcopy, hgot node hnode, hops, hlisted, fun hop hhop => ?_⟩
    exact ⟨(hpath hop hhop).1, hgot hop (hpath hop hhop).2⟩

theorem Offered.channel_cases (h : Offered s node partner now m s') (link : String × String) :
    s'.channel link = s.channel link ∨ link = (node, partner) ∧ s'.channel link = s.channel link ++
      [m] := by
  have hforwarded : ∀ r, (s.forwarded (node, partner) r m).channel link = s.channel link ∨
      link = (node, partner) ∧ (s.forwarded (node, partner) r m).channel link = s.channel link ++
        [m] := by
    intro r
    unfold forwarded
    dsimp only
    split
    · by_cases hlink : link = (node, partner)
      · subst hlink
        rw [Function.update_self]
        exact Or.inr ⟨rfl, rfl⟩
      · rw [Function.update_of_ne hlink]
        exact Or.inl rfl
    · exact Or.inl rfl
  cases h with
  | returned => exact Or.inl rfl
  | compared => exact hforwarded _
  | unstamped => exact hforwarded _

theorem Offered.got_iff (h : Offered s node partner now m s') (v : String) :
    s'.Got publisher p v ↔ s.Got publisher p v :=
  Got.congr h.arrived_eq

theorem Offered.reaching (h : Offered s node partner now m s') {u v : String}
    (hreach : s.Reaching publisher p u v) :
    s'.Reaching publisher p u v := by
  rcases hreach with hgot | ⟨m', hm', hcopy⟩
  · exact Or.inl ((h.got_iff v).mpr hgot)
  · refine Or.inr ⟨m', ?_, hcopy⟩
    rcases h.channel_cases (u, v) with hsame | ⟨-, hmore⟩
    · rwa [hsame]
    · rw [hmore]
      exact List.mem_append_left _ hm'

theorem Offered.table_cases (h : Offered s node partner now m s') {u v : String}
    {last : SequenceInfo} (hlast : Assoc.find publisher (s'.outgoing_sequence_infos (u, v)) =
      some last) :
    Assoc.find publisher (s.outgoing_sequence_infos (u, v)) = some last ∨
      (u, v) = (node, partner) ∧ m.publication.getStrAttr "publisher_node_id" = some publisher ∧
        m.publication.sequenceInfo now = some last ∧ m ∈ s'.channel (u, v) := by
  cases h with
  | returned => exact Or.inl hlast
  | unstamped =>
    unfold forwarded at hlast
    rw [Function.update_eq_self] at hlast
    exact Or.inl hlast
  | compared _ publisher' info' hpublisher hinfo =>
    unfold forwarded at hlast ⊢
    dsimp only at hlast ⊢
    by_cases hlink : (u, v) = (node, partner)
    · rw [hlink, Function.update_self, Watermark.find_offer] at hlast
      split at hlast
      · rename_i hpass
        obtain ⟨rfl, hpass⟩ := hpass
        obtain rfl := Option.some.inj hlast
        refine Or.inr ⟨hlink, hpublisher, hinfo, ?_⟩
        rw [if_pos hpass, hlink, Function.update_self]
        simp
      · rw [hlink]
        exact Or.inl hlast
    · rw [Function.update_of_ne hlink] at hlast
      exact Or.inl hlast

theorem Older.newer_now (h : Older info q) {last : SequenceInfo}
    (hlast : q.sequenceInfo now = some last) :
    last.newer info = true := by
  obtain ⟨old, hold, hnewer⟩ := h
  rw [Publication.sequenceInfo_now, hold] at hlast
  rw [← Option.some.inj hlast]
  exact hnewer

theorem Spread.offered (h : Spread publisher p info s)
    (hm : s.Sendable publisher p info node m.publication)
    (hoffered : Offered s node partner now m s') : Spread publisher p info s' := by
  have hgot : ∀ v, s.Got publisher p v → s'.Got publisher p v := fun v => (hoffered.got_iff v).mpr
  refine ⟨?_, ?_, ?_, ?_⟩
  · intro u v m' hm'
    rcases hoffered.channel_cases (u, v) with hsame | ⟨hlink, hmore⟩
    · rw [hsame] at hm'
      exact (h.channel u v m' hm').mono hgot
    · rw [hmore] at hm'
      rcases List.mem_append.mp hm' with hm' | hm'
      · exact (h.channel u v m' hm').mono hgot
      · rw [List.mem_singleton.mp hm', (Prod.mk.inj hlink).1]
        exact hm.mono hgot
  · rw [hoffered.arrived_eq]
    exact h.arrived
  · intro u v last hlast
    rcases hoffered.table_cases hlast with hbefore | ⟨hlink, hpublisher, hinfo, hqueued⟩
    · exact (h.table u v last hbefore).imp_right hoffered.reaching
    · rcases hm hpublisher with hold | ⟨hcopy, -⟩
      · exact Or.inl (hold.newer_now hinfo)
      · exact Or.inr (Or.inr ⟨m, hqueued, hcopy⟩)
  · intro v hv hgotv
    rw [hoffered.arrived_eq]
    exact h.took v hv ((hoffered.got_iff v).mp hgotv)

theorem Spread.offered_reaching (h : Spread publisher p info s) (hissued : Issued publisher p info)
    (hplain : net.Plain) (hlink : (node, partner) ∈ net.links)
    (hm : s.Sendable publisher p info node m.publication) (hcopy : Copy p m.publication)
    (hoffered : Offered s node partner now m s') :
    s'.Reaching publisher p node partner := by
  have hpublisher := hissued.copy_publisher hcopy
  have hstamp : m.publication.sequenceInfo now = some { info with last_timestamp := now } := by
    rw [Publication.sequenceInfo_now, hcopy.sequenceInfo, hissued.stamped]
    rfl
  rcases hm hpublisher with hold | ⟨-, -, hops, hlisted, hpath⟩
  · exact absurd hold (hissued.not_older hcopy)
  cases hoffered with
  | returned hcame =>
    -- the partner is on the path
    obtain ⟨hne, hcomma⟩ := (hplain.ids _ hlink).2
    rw [hlisted.cameThrough hne hcomma fun hop hhop => (hpath hop hhop).1] at hcame
    exact Or.inl (hpath partner (of_decide_eq_true (Option.some.inj hcame))).2
  | unstamped _ hnone =>
    rw [hpublisher, hstamp] at hnone
    simp at hnone
  | compared hcame publisher' info' hpublisher' hinfo =>
    obtain rfl := Option.some.inj (hpublisher.symm.trans hpublisher')
    obtain rfl := Option.some.inj (hstamp.symm.trans hinfo)
    cases hpass : (Watermark.offer SequenceInfo.newer (s.outgoing_sequence_infos (node, partner))
      publisher
        { info with last_timestamp := now }).2 with
    | true =>
      refine Or.inr ⟨m, ?_, hcopy⟩
      unfold forwarded
      dsimp only
      rw [if_pos hpass, Function.update_self]
      simp
    | false =>
      -- the table has a stamp that is not older
      rw [Watermark.offer_snd, Option.all_eq_false] at hpass
      obtain ⟨last, hlast, hnewer⟩ := hpass
      rw [(newer_now info now last).1] at hnewer
      have hthere : s.Reaching publisher p node partner :=
        (h.table node partner last hlast).resolve_left (by simp [hnewer])
      exact Offered.reaching (.compared hcame publisher _ hpublisher hstamp) hthere

theorem issue_each {control : Option ControlType} {q : Publication} {partners : List String}
    (P : Network → Prop) (R : String → Network → Prop)
    (hcounter : P { s with
      sequence_number := Function.update s.sequence_number node
        (Router.stamp (net.board node) (s.sequence_number node) q).2 })
    (hoffer : ∀ s₁ partner s₂, P s₁ → (node, partner) ∈ net.links →
      Offered s₁ node partner now
        ⟨control, (Router.stamp (net.board node) (s.sequence_number node) q).1⟩ s₂ →
      P s₂ ∧ R partner s₂ ∧ ∀ w, R w s₁ → R w s₂)
    (hissue : s.issue net node now control q partners = some s') :
      P s' ∧ ∀ w ∈ partners, R w s' := by
  unfold issue at hissue
  dsimp only at hissue
  generalize hs₀ : ({ s with
      sequence_number := Function.update s.sequence_number node
        (Router.stamp (net.board node) (s.sequence_number node) q).2 } : Network) =
          s₀ at hcounter hissue
  clear hs₀
  induction partners using List.reverseRecOn generalizing s' with
  | nil =>
    rw [← Option.some.inj hissue]
    exact ⟨hcounter, fun w hw => absurd hw List.not_mem_nil⟩
  | append_singleton partners partner ih =>
    rw [Runs.foldlM_snoc] at hissue
    obtain ⟨before, hbefore, hlast⟩ := Option.bind_eq_some_iff.mp hissue
    obtain ⟨hP, hdone⟩ := ih hbefore
    obtain ⟨hlink, hoffered⟩ := send_cases hlast
    obtain ⟨hP', hpartner, hkeep⟩ := hoffer before partner s' hP hlink hoffered
    refine ⟨hP', fun w hw => ?_⟩
    rcases List.mem_append.mp hw with hw | hw
    · exact hkeep w (hdone w hw)
    · rw [List.mem_singleton.mp hw]
      exact hpartner

/-! ## Arrivals -/

theorem taken_got {rest : List Message} {infos : SequenceInfos} {e : Arrival} (he : e.message = m)
    (v : String) :
    (s.taken partner node rest infos e).Got publisher p v ↔
      s.Got publisher p v ∨ v = node ∧ Copy p m.publication := by
  unfold Got taken
  dsimp only
  by_cases hv : v = node
  · subst hv
    rw [Function.update_self]
    simp [or_and_right, exists_or, or_assoc, he]
  · rw [Function.update_of_ne hv]
    simp [hv]

theorem taken_reaching {rest : List Message} {infos : SequenceInfos} {e : Arrival}
    (he : e.message = m) (hqueue : s.channel (partner, node) = m :: rest) {u v : String}
    (h : s.Reaching publisher p u v) :
    (s.taken partner node rest infos e).Reaching publisher p u v := by
  rcases h with hgot | ⟨m', hm', hcopy⟩
  · exact Or.inl ((taken_got he v).mpr (Or.inl hgot))
  · by_cases hlink : (u, v) = (partner, node)
    · rw [hlink, hqueue] at hm'
      rcases List.mem_cons.mp hm' with rfl | hm'
      · exact Or.inl ((taken_got he v).mpr (Or.inr ⟨(Prod.mk.inj hlink).2, hcopy⟩))
      · refine Or.inr ⟨m', ?_, hcopy⟩
        unfold taken
        dsimp only
        rw [hlink, Function.update_self]
        exact hm'
    · refine Or.inr ⟨m', ?_, hcopy⟩
      unfold taken
      dsimp only
      rw [Function.update_of_ne hlink]
      exact hm'

section Arrives

variable {rest : List Message} {infos : SequenceInfos} {outcome : Link.Outcome}

theorem copy_compared (hissued : Issued publisher p info) (hinv : Inv net s)
    (hcopy : Copy p m.publication) (hne : node ≠ publisher)
    (hr : (net.linkAt node partner).processRemotePublication (net.board node)
      (s.incomming_sequence_infos node) now m.publication = some (infos, outcome)) :
    ((∀ old ∈ (s.arrived node).filterMap (stampOf publisher), old.newer info = true) ∧
      (net.linkAt node partner).dispatch m.publication = some outcome) ∨
    (¬ (∀ old ∈ (s.arrived node).filterMap (stampOf publisher), old.newer info = true) ∧
      outcome = .drop) := by
  have hpublisher := hissued.copy_publisher hcopy
  have hstamp : m.publication.sequenceInfo now = some { info with last_timestamp := now } := by
    rw [Publication.sequenceInfo_now, hcopy.sequenceInfo, hissued.stamped]
    rfl
  rcases processRemotePublication_cases hr with ⟨publisher', info', hpub, -, hinfo, -,
      hout⟩ | ⟨hnone, -⟩
  · obtain rfl := Option.some.inj (hpublisher.symm.trans hpub)
    obtain rfl := Option.some.inj (hstamp.symm.trans hinfo)
    have hpasses := (hinv.newest node publisher hne.symm).passes_iff SequenceInfo.newer_weak
      { info with last_timestamp := now }
    split at hout
    · rename_i hpass
      exact Or.inl ⟨hpasses.mp hpass, hout⟩
    · rename_i hpass
      exact Or.inr ⟨fun hall => hpass (hpasses.mpr hall), hout⟩
  · rw [hpublisher, hstamp] at hnone
    rcases hnone with hnone | hown | hnone
    · exact absurd hnone (by simp)
    · exact absurd (Option.some.inj hown).symm hne
    · exact absurd hnone (by simp)

theorem first_copy_published (h : Spread publisher p info s) (hissued : Issued publisher p info)
    (hinv : Inv net s) (hcopy : Copy p m.publication) (hnot : ¬ s.Got publisher p node)
    (hr : (net.linkAt node partner).processRemotePublication (net.board node)
      (s.incomming_sequence_infos node) now m.publication = some (infos, outcome)) :
      ∃ q, outcome = .publish q := by
  have hne : node ≠ publisher := fun heq => hnot (Or.inl heq)
  rcases copy_compared hissued hinv hcopy hne hr with ⟨-, hdispatch⟩ | ⟨hnewer, -⟩
  · refine Link.dispatch_ordinary (fun type => ?_) ?_ hdispatch
    · rw [hcopy.getStrAttr_type]
      exact hissued.type type
    · rw [hcopy.getStrAttr_type]
      exact hissued.hello
  · refine absurd (fun old hold => ?_) hnewer
    obtain ⟨e, he, hstamp⟩ := List.mem_filterMap.mp hold
    unfold stampOf at hstamp
    split at hstamp
    · rename_i hpub
      rcases h.arrived node e he hpub with holder | hbefore
      · exact holder.newer_now hstamp
      · exact absurd (Or.inr ⟨e, he, hbefore⟩) hnot
    · simp at hstamp

theorem later_copy_dropped (hissued : Issued publisher p info) (hinv : Inv net s)
    (hcopy : Copy p m.publication) (hne : node ≠ publisher) (hgot : s.Got publisher p node)
    (hr : (net.linkAt node partner).processRemotePublication (net.board node)
      (s.incomming_sequence_infos node) now m.publication = some (infos, outcome)) :
      outcome = .drop := by
  rcases copy_compared hissued hinv hcopy hne hr with ⟨hnewer, -⟩ | ⟨-, hdrop⟩
  · obtain ⟨e, he, hbefore⟩ := hgot.resolve_left hne
    have hstamp : stampOf publisher e = some { info with last_timestamp := e.now } := by
      unfold stampOf
      rw [if_pos (hissued.copy_publisher hbefore), Publication.sequenceInfo_now,
        hbefore.sequenceInfo, hissued.stamped]
      rfl
    have hself := hnewer _ (List.mem_filterMap.mpr ⟨e, he, hstamp⟩)
    rw [(newer_now info e.now info).2, SequenceInfo.newer_weak.irrefl] at hself
    exact absurd hself (by simp)
  · exact hdrop

theorem TookOnce.snoc {arrivals : List Arrival} {e : Arrival} (h : TookOnce p arrivals)
    (he : Copy p e.message.publication → e.outcome = .drop) : TookOnce p (arrivals ++ [e]) := by
  obtain ⟨pre, e₀, post, q, rfl, hcopy, hout, hpre, hpost⟩ := h
  refine ⟨pre, e₀, post ++ [e], q, by simp, hcopy, hout, hpre, fun e' he' => ?_⟩
  rcases List.mem_append.mp he' with he' | he'
  · exact hpost e' he'
  · rw [List.mem_singleton.mp he']
    exact he

theorem Spread.taken (h : Spread publisher p info s) (hissued : Issued publisher p info)
    (hinv : Inv net s) (hqueue : s.channel (partner, node) = m :: rest)
    (hr : (net.linkAt node partner).processRemotePublication (net.board node)
      (s.incomming_sequence_infos node) now m.publication = some (infos, outcome)) :
    Spread publisher p info (s.taken partner node rest infos ⟨partner, m, now, outcome⟩) := by
  have hgot : ∀ v, s.Got publisher p v →
      (s.taken partner node rest infos ⟨partner, m, now, outcome⟩).Got publisher p v :=
    fun v hv => (taken_got rfl v).mpr (Or.inl hv)
  have hm : s.Sendable publisher p info partner m.publication :=
    h.channel partner node m (by rw [hqueue]; exact List.mem_cons_self)
  refine ⟨?_, ?_, ?_, ?_⟩
  · intro u v m' hm'
    refine (h.channel u v m' ?_).mono hgot
    unfold Network.taken at hm'
    dsimp only at hm'
    by_cases hlink : (u, v) = (partner, node)
    · rw [hlink, Function.update_self] at hm'
      rw [hlink, hqueue]
      exact List.mem_cons_of_mem _ hm'
    · rwa [Function.update_of_ne hlink] at hm'
  · intro v e he hpub
    unfold Network.taken at he
    dsimp only at he
    by_cases hv : v = node
    · subst hv
      rw [Function.update_self] at he
      rcases List.mem_append.mp he with he | he
      · exact h.arrived v e he hpub
      · rw [List.mem_singleton.mp he] at hpub ⊢
        exact (hm hpub).imp_right And.left
    · rw [Function.update_of_ne hv] at he
      exact h.arrived v e he hpub
  · intro u v last hlast
    exact (h.table u v last hlast).imp_right (taken_reaching rfl hqueue)
  · intro v hv hgotv
    rw [taken_got rfl] at hgotv
    unfold Network.taken
    dsimp only
    by_cases hnode : v = node
    · subst hnode
      rw [Function.update_self]
      by_cases hbefore : s.Got publisher p v
      · exact (h.took v hv hbefore).snoc fun hcopy => later_copy_dropped hissued hinv hcopy hv
          hbefore hr
      · have hcopy := (hgotv.resolve_left hbefore).2
        obtain ⟨q, rfl⟩ := first_copy_published h hissued hinv hcopy hbefore hr
        refine ⟨s.arrived v, _, [], q, rfl, hcopy, rfl, ?_, by simp⟩
        exact fun e he hcopy => hbefore (Or.inr ⟨e, he, hcopy⟩)
    · rw [Function.update_of_ne hnode]
      exact h.took v hv (hgotv.resolve_right fun heq => hnode heq.1)

theorem Sendable.dispatch (hplain : net.Plain) (hlink : (partner, node) ∈ net.links)
    (hm : s.Sendable publisher p info partner m.publication)
    (hdispatch : (net.linkAt node partner).dispatch m.publication = some (.publish q)) :
    (s.taken partner node rest infos ⟨partner, m, now, outcome⟩).Sendable publisher p info
      node q := by
  intro hpub
  rw [Publication.getStrAttr_of_getAttr
    (Link.dispatch_publisher hdispatch (hplain.labels node))] at hpub
  rcases hm hpub with hold | ⟨hcopy, hpartner, hops, hlisted, hpath⟩
  · refine Or.inl ?_
    unfold Older
    rwa [Link.dispatch_sequenceInfo hdispatch]
  · refine Or.inr ⟨(Link.copy_dispatch_iff hdispatch (hplain.labels node) p).mpr hcopy, ?_, hops ++
      [partner], Link.dispatch_listed hlisted hdispatch, ?_⟩
    · exact (taken_got rfl node).mpr (Or.inr ⟨rfl, hcopy⟩)
    · intro hop hhop
      rw [taken_got rfl]
      rcases List.mem_append.mp hhop with hhop | hhop
      · exact ⟨(hpath hop hhop).1, Or.inl (hpath hop hhop).2⟩
      · rw [List.mem_singleton.mp hhop]
        exact ⟨(hplain.ids _ hlink).1.2, Or.inl hpartner⟩

end Arrives

/-! ## Runs -/

/-- A step of the publisher comes before the publication with this stamp. -/
def Earlier (net : Net) (publisher : String) (info : SequenceInfo) (s : Network) (step : Step) :
    Prop :=
  step.issuedBy publisher = true →
    SequenceInfo.newer ⟨s.sequence_number publisher, (net.epoch publisher).toUInt32, 0⟩ info = true

/-- A node hands a copy on to all that asked it. -/
def HandsOn (E : String → String → Prop) (p : Publication) (s : Network) : Step → Prop
  | .deliver partner node partners _ => ∀ m rest, s.channel (partner, node) = m :: rest →
      Copy p m.publication →
      ∀ w, E node w → w ∈ partners
  | _ => True

theorem Spread.issue {control : Option ControlType} {q' : Publication} {partners : List String}
    (h : Spread publisher p info s) (hissued : Issued publisher p info) (hplain : net.Plain)
    (hq : (Router.stamp (net.board node) (s.sequence_number node) q').1 = q)
    (hsend : s.Sendable publisher p info node q)
    (hissue : s.issue net node now control q' partners = some s') :
    (Spread publisher p info s' ∧ s'.arrived = s.arrived ∧
      ∀ u v, s.Reaching publisher p u v → s'.Reaching publisher p u v) ∧
    ∀ w ∈ partners, Copy p q → s'.Reaching publisher p node w := by
  refine issue_each
    (fun s' => Spread publisher p info s' ∧ s'.arrived = s.arrived ∧
      ∀ u v, s.Reaching publisher p u v → s'.Reaching publisher p u v)
    (fun w s' => Copy p q → s'.Reaching publisher p node w) ?_ ?_ hissue
  · exact ⟨⟨h.channel, h.arrived, h.table, h.took⟩, rfl, fun _ _ => id⟩
  · rintro s₁ partner s₂ ⟨hspread, harrived, hkeep⟩ hlink hoffered
    rw [hq] at hoffered
    have hsend₁ : s₁.Sendable publisher p info node q := hsend.mono fun v =>
      (Got.congr harrived).mpr
    refine ⟨⟨hspread.offered hsend₁ hoffered, hoffered.arrived_eq.trans harrived, ?_⟩, ?_, ?_⟩
    · exact fun u v hreach => hoffered.reaching (hkeep u v hreach)
    · exact fun hcopy => hspread.offered_reaching hissued hplain hlink hsend₁ hcopy hoffered
    · exact fun w hw hcopy => hoffered.reaching (hw hcopy)

/-- A delivery hands a copy that is new to the node on to its partners, and nothing gets lost. -/
theorem Spread.deliver {partners : List String} (h : Spread publisher p info s)
    (hissued : Issued publisher p info) (hplain : net.Plain) (hinv : Inv net s)
    (hlinks : ∀ link, link ∉ net.links → s.channel link = [])
    (hstep : s.deliver net partner node partners now = some s') :
    Spread publisher p info s' ∧ (∀ u v, s.Reaching publisher p u v → s'.Reaching publisher p u v) ∧
      ∀ v, s'.Got publisher p v → s.Got publisher p v ∨ (v = node ∧
        (∃ m rest, s.channel (partner, node) = m :: rest ∧ Copy p m.publication) ∧
        ∀ w ∈ partners, s'.Reaching publisher p node w) := by
  obtain ⟨m, rest, infos, outcome, hqueue, hr, hnext⟩ := deliver_cases hstep
  have hlink : (partner, node) ∈ net.links := by
    by_contra hno
    rw [hlinks _ hno] at hqueue
    simp at hqueue
  have hm : s.Sendable publisher p info partner m.publication :=
    h.channel partner node m (by rw [hqueue]; exact List.mem_cons_self)
  have htaken := h.taken hissued hinv hqueue hr
  have hreach : ∀ u v, s.Reaching publisher p u v →
      (s.taken partner node rest infos ⟨partner, m, now, outcome⟩).Reaching publisher p u v :=
    fun u v => taken_reaching rfl hqueue
  rcases hnext with ⟨q, rfl, hissue⟩ | ⟨hnot, rfl⟩
  · obtain ⟨_, _, -, -, hinfo, -, -, hdispatch⟩ := published_cases hr
    obtain ⟨info₀, hinfo₀⟩ := sequenceInfo_zero hinfo
    have hstamped : q.sequenceInfo 0 = some info₀ :=
      (Link.dispatch_sequenceInfo hdispatch 0).trans hinfo₀
    obtain ⟨⟨hspread, harrived, hkeep⟩, hdone⟩ := htaken.issue hissued hplain
      (by rw [stamp_of_stamped hstamped]) (hm.dispatch hplain hlink hdispatch) hissue
    refine ⟨hspread, fun u v hold => hkeep u v (hreach u v hold), fun v hv => ?_⟩
    rw [Got.congr harrived, taken_got rfl] at hv
    refine hv.imp_right ?_
    rintro ⟨rfl, hcopy⟩
    refine ⟨rfl, ⟨m, rest, hqueue, hcopy⟩, fun w hw => hdone w hw ?_⟩
    exact (Link.copy_dispatch_iff hdispatch (hplain.labels v) p).mpr hcopy
  · refine ⟨htaken, hreach, fun v hv => ?_⟩
    rw [taken_got rfl] at hv
    refine Or.inl (hv.elim id ?_)
    rintro ⟨rfl, hcopy⟩
    -- the first copy would have been published
    by_contra hbefore
    obtain ⟨q, hq⟩ := first_copy_published h hissued hinv hcopy hbefore hr
    exact hnot q hq

theorem Spread.step {step : Step} (h : Spread publisher p info s)
    (hissued : Issued publisher p info) (hplain : net.Plain) (hinv : Inv net s)
    (hlinks : ∀ link, link ∉ net.links → s.channel link = []) (hfresh : step.Fresh net)
    (hearlier : Earlier net publisher info s step) (hstep : Network.step net s step = some s') :
    Spread publisher p info s' := by
  refine step_keeps (Spread publisher p info) hfresh ?_ ?_ ?_ hstep
  · exact fun _ _ => ⟨h.channel, h.arrived, h.table, h.took⟩
  · intro node hissuer s₁ partner s₂ now m hs₁ _ hpub hinfo hoffered
    refine hs₁.offered (fun hpublisher => Or.inl ⟨_, hinfo, ?_⟩) hoffered
    obtain rfl := Option.some.inj (hpub.symm.trans hpublisher)
    exact hearlier hissuer
  · rintro partner node partners now rfl hdeliver
    exact (h.deliver hissued hplain hinv hlinks hdeliver).1

/-- No copy has been on a link yet. -/
structure Unsent (p : Publication) (s : Network) : Prop where
  channel : ∀ link, ∀ m ∈ s.channel link, ¬ Copy p m.publication
  arrived : ∀ node, ∀ e ∈ s.arrived node, ¬ Copy p e.message.publication

theorem Unsent.offered (h : Unsent p s) (hm : ¬ Copy p m.publication)
    (hoffered : Offered s node partner now m s') :
    Unsent p s' := by
  refine ⟨fun link m' hm' => ?_, by rw [hoffered.arrived_eq]; exact h.arrived⟩
  rcases hoffered.channel_cases link with hsame | ⟨-, hmore⟩
  · exact h.channel link m' (by rwa [hsame] at hm')
  · rw [hmore] at hm'
    rcases List.mem_append.mp hm' with hm' | hm'
    · exact h.channel link m' hm'
    · rwa [List.mem_singleton.mp hm']

theorem Unsent.deliver {partners : List String} (h : Unsent p s) (hplain : net.Plain)
    (hstep : s.deliver net partner node partners now = some s') : Unsent p s' := by
  obtain ⟨m, rest, infos, outcome, hqueue, hr, hnext⟩ := deliver_cases hstep
  have hm : ¬ Copy p m.publication := h.channel _ m (by rw [hqueue]; exact List.mem_cons_self)
  have htaken : Unsent p (s.taken partner node rest infos ⟨partner, m, now, outcome⟩) := by
    unfold taken
    refine ⟨fun link m' hm' => ?_, fun v e he => ?_⟩
    · dsimp only at hm'
      by_cases hlink : link = (partner, node)
      · subst hlink
        rw [Function.update_self] at hm'
        exact h.channel _ m' (by rw [hqueue]; exact List.mem_cons_of_mem _ hm')
      · rw [Function.update_of_ne hlink] at hm'
        exact h.channel link m' hm'
    · dsimp only at he
      by_cases hv : v = node
      · subst hv
        rw [Function.update_self] at he
        rcases List.mem_append.mp he with he | he
        · exact h.arrived v e he
        · rwa [List.mem_singleton.mp he]
      · rw [Function.update_of_ne hv] at he
        exact h.arrived v e he
  rcases hnext with ⟨q, rfl, hissue⟩ | ⟨-, rfl⟩
  · obtain ⟨_, _, -, -, hinfo, -, -, hdispatch⟩ := published_cases hr
    obtain ⟨info₀, hinfo₀⟩ := sequenceInfo_zero hinfo
    have hstamped : q.sequenceInfo 0 = some info₀ :=
      (Link.dispatch_sequenceInfo hdispatch 0).trans hinfo₀
    refine issue_keeps (Unsent p) ⟨htaken.channel, htaken.arrived⟩ ?_ hissue
    intro s₁ w s₂ hs₁ _ _ hoffered
    rw [stamp_of_stamped hstamped] at hoffered
    refine hs₁.offered ?_ hoffered
    rwa [Link.copy_dispatch_iff hdispatch (hplain.labels node) p]
  · exact htaken

theorem Unsent.step {step : Step} (h : Unsent p s) (hissued : Issued publisher p info)
    (hplain : net.Plain) (hfresh : step.Fresh net) (hearlier : Earlier net publisher info s step)
    (hstep : Network.step net s step = some s') : Unsent p s' := by
  refine step_keeps (Unsent p) hfresh (fun _ _ => ⟨h.channel, h.arrived⟩) ?_ ?_ hstep
  · intro node hissuer s₁ partner s₂ now m hs₁ _ hpub hinfo hoffered
    refine hs₁.offered (fun hcopy => ?_) hoffered
    obtain rfl := Option.some.inj (hpub.symm.trans (hissued.copy_publisher hcopy))
    exact hissued.not_older hcopy ⟨_, hinfo, hearlier hissuer⟩
  · rintro partner node partners now rfl hdeliver
    exact h.deliver hplain hdeliver

/-- All partners of a node that has the publication, and asked for it, have it or get it. -/
def Handed (E : String → String → Prop) (publisher : String) (p : Publication) (s : Network) :
    Prop :=
  ∀ u v, s.Got publisher p u → E u v → s.Reaching publisher p u v

variable {E : String → String → Prop}

theorem own_keeps (publisher : String) (p : Publication) {step : Step} (hfresh : step.Fresh net)
    (hown : step.isDelivery = false) (hstep : Network.step net s step = some s') :
    s'.arrived = s.arrived ∧ ∀ u v, s.Reaching publisher p u v → s'.Reaching publisher p u v := by
  refine step_keeps (fun s' => s'.arrived = s.arrived ∧
    ∀ u v, s.Reaching publisher p u v → s'.Reaching publisher p u v) hfresh ?_ ?_ ?_ hstep
  · exact fun _ _ => ⟨rfl, fun _ _ => id⟩
  · rintro _ _ s₁ partner s₂ now m ⟨harrived, hkeep⟩ _ _ _ hoffered
    exact ⟨hoffered.arrived_eq.trans harrived, fun u v hreach =>
      hoffered.reaching (hkeep u v hreach)⟩
  · rintro partner node partners now rfl _
    exact absurd hown (by simp [Step.isDelivery])

theorem Handed.step {step : Step} (hhanded : s.Handed E publisher p) (h : Spread publisher p info s)
    (hissued : Issued publisher p info) (hplain : net.Plain) (hinv : Inv net s)
    (hlinks : ∀ link, link ∉ net.links → s.channel link = []) (hfresh : step.Fresh net)
    (hon : HandsOn E p s step) (hstep : Network.step net s step = some s') :
    s'.Handed E publisher p := by
  cases hdelivery : step.isDelivery with
  | false =>
    obtain ⟨harrived, hkeep⟩ := own_keeps publisher p hfresh hdelivery hstep
    exact fun u v hu huv => hkeep u v (hhanded u v ((Got.congr harrived).mp hu) huv)
  | true =>
    cases step with
    | control | publish => exact absurd hdelivery (by simp [Step.isDelivery])
    | deliver partner node partners now =>
      obtain ⟨-, hkeep, hgot⟩ := h.deliver hissued hplain hinv hlinks hstep
      intro u v hu huv
      rcases hgot u hu with hbefore | ⟨rfl, ⟨m, rest, hqueue, hcopy⟩, hdone⟩
      · exact hkeep u v (hhanded u v hbefore huv)
      · exact hdone v (hon m rest hqueue hcopy v huv)

end Network

end UActor
