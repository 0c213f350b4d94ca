import UActor.Remote.Teardown

/-!
# Nodes behind a receiver

The router keeps for each receiver the nodes that it stands for. For the receiver of the forwarder
these should be the peers whose connections are behind the subscription.
-/

namespace UActor

namespace Router

variable {board : Board} {rt rt' : Router} {s r : Nat}

/-- The names of the nodes that a receiver stands for. -/
def nodeNames (rt : Router) (s r : Nat) : List String := (rt.nodesAt s r).map rt.nodeName

theorem Inv.find_of_nodesAt (h : Inv board rt) {n : Nat} (hn : n ∈ rt.nodesAt s r) :
    Assoc.find (rt.nodeName n) rt.peer_node_ids = some n := by
  refine h.peers.find_nodeName ?_
  cases hsub : rt.findSub s with
  | none =>
    rw [nodesAt_of_none hsub] at hn
    simp at hn
  | some S =>
    have hS := (mem_of_findSub hsub).1
    rw [nodesAt_of_findSub hsub] at hn
    exact h.peers.known S hS n (((h.subs.wf S hS).mem_nodes n).mpr ⟨r, hn⟩)

theorem nodeName_extends (h : Inv board rt) (h' : Inv board rt') (hext : Extends rt rt') {n : Nat}
    (hn : n ∈ rt.nodesAt s r) : rt'.nodeName n = rt.nodeName n :=
  h'.peers.nodeName_eq (hext _ _ (h.find_of_nodesAt hn))

theorem nodeNames_congr (h : Inv board rt) (h' : Inv board rt') (hext : Extends rt rt')
    (hnodes : rt'.nodesAt s r = rt.nodesAt s r) : rt'.nodeNames s r = rt.nodeNames s r := by
  unfold nodeNames
  rw [hnodes]
  exact List.map_congr_left fun n hn => nodeName_extends h h' hext hn

theorem mem_nodeNames_add (h : Inv board rt) (f : Filter) (who : ActorIdentifier) (src : String)
    {args : SubscriptionArguments} (hkept : args.fetch_policy ≠ .FETCH)
    (hid : (rt.step board (.add f r who src args)).2.1 = s) (name : String) :
    name ∈ (rt.step board (.add f r who src args)).1.nodeNames s r ↔ name ∈ rt.nodeNames s r ∨
    name = src := by
  have h' := h.step (.add f r who src args)
  have hext := extends_step board rt (.add f r who src args)
  have hnodes := nodesAt_add h.subs board f r who src args s r
  rw [if_pos ⟨hkept, hid, rfl⟩] at hnodes
  have hnew : (rt.step board (.add f r who src args)).1.nodeName (rt.internNode src).2 = src := by
    refine h'.peers.nodeName_eq ?_
    rw [peers_add board rt f r who src hkept, find_internNode, if_pos rfl]
  unfold nodeNames
  rw [hnodes, List.mem_map, List.mem_map]
  constructor
  · rintro ⟨n, hn, rfl⟩
    rcases (Subscription.mem_emplace _ _ _).mp hn with hn | rfl
    · exact Or.inl ⟨n, hn, (nodeName_extends h h' hext hn).symm⟩
    · exact Or.inr hnew
  · rintro (⟨n, hn, rfl⟩ | rfl)
    · exact ⟨n, (Subscription.mem_emplace _ _ _).mpr (Or.inl hn), nodeName_extends h h' hext hn⟩
    · exact ⟨_, (Subscription.mem_emplace _ _ _).mpr (Or.inr rfl), hnew⟩

end Router

open RemoteConnection

namespace Forwarder

variable {cfg : ForwarderSettings} {fwd fwd' : Forwarder} {c : RemoteConnection} {l : UInt32}
  {s : Nat}

/-- The peer of a connection. -/
def peerOf (fwd : Forwarder) (l : UInt32) : Option String :=
  (Assoc.find l fwd.remotes).map (·.partner_node_id)

/-- The peers whose connections are behind a subscription. -/
def peersAt (fwd : Forwarder) (s : Nat) : List String :=
  (Multimap.members s fwd.subscription_mapping).filterMap fwd.peerOf

/-- The subscriptions that the forwarder and its connections have made for themselves. -/
def localIds (fwd : Forwarder) : List Nat :=
  [fwd.forwarder_subscription_id, fwd.peer_announcement_subscription_id] ++
    fwd.remotes.flatMap fun e => e.2.controlIds

theorem mem_peersAt {name : String} :
    name ∈ fwd.peersAt s ↔ ∃ d ∈ Multimap.members s fwd.subscription_mapping, fwd.peerOf d =
      some name :=
  List.mem_filterMap

/-- The router's picture of the peers is current. -/
def Current (s : Nat) (fwd : Forwarder) : Prop :=
  ∀ name, name ∈ fwd.hub.router.nodeNames s fwd.handle ↔ name ∈ fwd.peersAt s

/-- All connections behind a subscription have asked for it. -/
def Asked (s : Nat) (fwd : Forwarder) : Prop :=
  ∀ d ∈ Multimap.members s fwd.subscription_mapping, ∃ c, Assoc.find d fwd.remotes = some c ∧
    s ∈ c.subscription_ids

/-! ## Conditions -/

/-- Another connection behind the subscription belongs to a peer of that name. -/
def Other (fwd : Forwarder) (s : Nat) (l : UInt32) (name : String) : Prop :=
  ∃ d ∈ Multimap.members s fwd.subscription_mapping, d ≠ l ∧ fwd.peerOf d = some name

/-- A connection that leaves is the last one and takes the receiver along, or the peer has another
one. -/
def LeavesName (s : Nat) (l : UInt32) (fwd : Forwarder) : Prop :=
  l ∈ Multimap.members s fwd.subscription_mapping →
    (fwd.Only l s ∧ fwd.hub.router.RemovesAll s fwd.handle) ∨ ∃ name, fwd.peerOf l = some name ∧
    fwd.Other s l name

/-- The condition on one step: nobody asks for the subscription before its hello, and its peers only
leave it as the last one. The id 1 is the one of all requests that are not kept. -/
def Event.KeepsNames (cfg : ForwarderSettings) (s : Nat) (fwd : Forwarder) : Event → Prop
  | .hello l p => ∀ c name, Assoc.find l fwd.remotes = some c →
      p.getStrAttr "subscription_node_id" = some name →
      c.partner_node_id = "" → l ∈ Multimap.members s fwd.subscription_mapping →
      name = "" ∨ (fwd.Other s l name ∧ fwd.Other s l "")
  | .added l p => ∀ c ps es, Assoc.find l fwd.remotes = some c →
      remoteSubscriptions cfg.order c.ingress_subscription_processors p = some (ps, es) →
      ∀ e ∈ es, e.2.2.fetch_policy = .FETCH → s ≠ 1
  | .removed l p => ∀ c ps es, Assoc.find l fwd.remotes = some c →
      removedSubscriptions cfg.order c.ingress_subscription_processors p = some (ps, es) →
      EachEntry cfg (fun st sub_id => sub_id = s → LeavesName s st.2.local_id (setRemote st))
        (fwd, { c with ingress_subscription_processors := ps }) es
  | .disconnect l => LeavesName s l fwd
  | .accept | .others _ => True

/-! ## Steps -/

theorem Current.congr (h : Current s fwd)
    (hnames : fwd'.hub.router.nodeNames s fwd'.handle = fwd.hub.router.nodeNames s fwd.handle)
    (hmem : ∀ d, d ∈ Multimap.members s fwd'.subscription_mapping ↔
      d ∈ Multimap.members s fwd.subscription_mapping)
    (hpeer : ∀ d ∈ Multimap.members s fwd.subscription_mapping, fwd'.peerOf d = fwd.peerOf d) :
    Current s fwd' := by
  intro name
  rw [hnames, h name, mem_peersAt, mem_peersAt]
  constructor
  · rintro ⟨d, hd, hname⟩
    exact ⟨d, (hmem d).mpr hd, (hpeer d hd).trans hname⟩
  · rintro ⟨d, hd, hname⟩
    have hd := (hmem d).mp hd
    exact ⟨d, hd, (hpeer d hd).symm.trans hname⟩

theorem Current.leave (leaves : Prop) [Decidable leaves] (h : Current s fwd) (hinv : Inv cfg fwd)
    (hinv' : Inv cfg fwd') (hleaves : leaves → LeavesName s l fwd)
    (hhandle : fwd'.handle = fwd.handle) (hext : fwd.hub.router.Extends fwd'.hub.router)
    (hnodes : fwd'.hub.router.nodesAt s fwd.handle =
      if leaves ∧ fwd.Only l s then fwd.hub.router.left (fwd.hub.router.nodesAt s fwd.handle)
      else fwd.hub.router.nodesAt s fwd.handle)
    (hmem : ∀ d, d ∈ Multimap.members s fwd'.subscription_mapping ↔
      d ∈ Multimap.members s fwd.subscription_mapping ∧ ¬ (leaves ∧ d = l))
    (hpeer : ∀ d ∈ Multimap.members s fwd'.subscription_mapping, fwd'.peerOf d = fwd.peerOf d) :
    Current s fwd' := by
  by_cases hlast : leaves ∧ fwd.Only l s
  · -- nobody is left
    have hempty : ∀ d, d ∉ Multimap.members s fwd'.subscription_mapping := by
      intro d hd
      obtain ⟨hd, hnot⟩ := (hmem d).mp hd
      exact hnot ⟨hlast.1, hlast.2.2 d hd⟩
    have hremoves : fwd.hub.router.RemovesAll s fwd.handle := by
      rcases hleaves hlast.1 hlast.2.1 with hlast' | ⟨name, -, d, hd, hne, -⟩
      · exact hlast'.2
      · exact absurd (hlast.2.2 d hd) hne
    rw [if_pos hlast, (Router.left_eq_nil hinv.hub.router).mpr hremoves] at hnodes
    intro name
    unfold Router.nodeNames
    rw [hhandle, hnodes, mem_peersAt]
    simp [hempty]
  · rw [if_neg hlast] at hnodes
    have hnames := Router.nodeNames_congr hinv.hub.router hinv'.hub.router hext hnodes
    intro name
    rw [hhandle, hnames, h name, mem_peersAt, mem_peersAt]
    constructor
    · rintro ⟨d, hd, hname⟩
      by_cases hself : leaves ∧ d = l
      · -- the peer has another connection there
        obtain ⟨hl, rfl⟩ := hself
        rcases hleaves hl hd with hlast' | ⟨name', hname', d', hd', hne, hother⟩
        · exact absurd ⟨hl, hlast'.1⟩ hlast
        · have hd'' := (hmem d').mpr ⟨hd', fun hand => hne hand.2⟩
          obtain rfl : name = name' := Option.some.inj (hname.symm.trans hname')
          exact ⟨d', hd'', (hpeer d' hd'').trans hother⟩
      · have hd' := (hmem d).mpr ⟨hd, hself⟩
        exact ⟨d, hd', (hpeer d hd').trans hname⟩
    · rintro ⟨d, hd, hname⟩
      exact ⟨d, ((hmem d).mp hd).1, (hpeer d hd).symm.trans hname⟩

theorem peerOf_setRemote (st : Forwarder × RemoteConnection) (d : UInt32) :
    (setRemote st).peerOf d =
      if st.2.local_id = d then some st.2.partner_node_id else st.1.peerOf d := by
  unfold peerOf setRemote
  rw [Assoc.find_put]
  split <;> rfl

theorem find_setRemote (st : Forwarder × RemoteConnection) (d : UInt32) :
    Assoc.find d (setRemote st).remotes =
      if st.2.local_id = d then some st.2 else Assoc.find d st.1.remotes :=
  Assoc.find_put d _ _ _

theorem Asked.congr {st st' : Forwarder × RemoteConnection} (h : Asked s (setRemote st))
    (hid : st'.2.local_id = st.2.local_id) (hremotes : st'.1.remotes = st.1.remotes)
    (hmem : ∀ d, d ∈ Multimap.members s st'.1.subscription_mapping →
      d ∈ Multimap.members s st.1.subscription_mapping ∨
      (d = st.2.local_id ∧ s ∈ st'.2.subscription_ids))
    (hids : st.2.local_id ∈ Multimap.members s st'.1.subscription_mapping →
      s ∈ st.2.subscription_ids →
      s ∈ st'.2.subscription_ids) : Asked s (setRemote st') := by
  intro d hd
  rw [find_setRemote, hid, hremotes]
  by_cases hl : st.2.local_id = d
  · rw [if_pos hl]
    refine ⟨st'.2, rfl, ?_⟩
    rcases hmem d hd with hd' | ⟨-, hs⟩
    · obtain ⟨c, hc, hs⟩ := h d hd'
      rw [find_setRemote, if_pos hl] at hc
      rw [← Option.some.inj hc] at hs
      exact hids (hl ▸ hd) hs
    · exact hs
  · rw [if_neg hl]
    rcases hmem d hd with hd' | ⟨heq, -⟩
    · obtain ⟨c, hc, hs⟩ := h d hd'
      rw [find_setRemote, if_neg hl] at hc
      exact ⟨c, hc, hs⟩
    · exact absurd heq.symm hl

section Entries

variable {st : Forwarder × RemoteConnection}

theorem Asked.addEntry (h : Asked s (setRemote st))
    (e : Filter × ActorIdentifier × SubscriptionArguments) :
    Asked s (setRemote (addEntry cfg st e)) := by
  refine h.congr rfl rfl (fun d hd => ?_) fun _ hs => Multimap.mem_insertInto.mpr (Or.inr hs)
  rcases mem_members_addRemoteSubscription.mp hd with ⟨hid, heq⟩ | hd
  · exact Or.inr ⟨heq, Multimap.mem_insertInto.mpr (Or.inl hid.symm)⟩
  · exact Or.inl hd

theorem Current.addEntry (h : Current s (setRemote st)) (hrunning : Running cfg st)
    (e : Filter × ActorIdentifier × SubscriptionArguments)
    (hkept : e.2.2.fetch_policy = .FETCH → s ≠ 1) :
    Current s (setRemote (addEntry cfg st e)) := by
  have hinv := hrunning.inv.hub
  have hinv' := (hrunning.addEntry e).inv.hub
  have hpeer : ∀ d, (setRemote (Forwarder.addEntry cfg st e)).peerOf d =
      (setRemote st).peerOf d := by
    intro d
    rw [peerOf_setRemote, peerOf_setRemote]
    rfl
  by_cases hid : (st.1.addRemoteSubscription cfg st.2.local_id e.1 st.2.partner_node_id e.2.1
    e.2.2).2 = s
  · have hpolicy : e.2.2.fetch_policy ≠ .FETCH := by
      intro hfetch
      exact hkept hfetch (hid.symm.trans (Router.add_fetch cfg.board _ e.1 _ e.2.1 _ hfetch))
    have hnames := Router.mem_nodeNames_add hinv.router e.1 e.2.1 st.2.partner_node_id hpolicy hid
    have hown : (setRemote st).peerOf st.2.local_id = some st.2.partner_node_id := by
      rw [peerOf_setRemote, if_pos rfl]
    intro name
    refine (hnames name).trans ?_
    refine (or_congr_left (h name)).trans ?_
    rw [mem_peersAt, mem_peersAt]
    constructor
    · rintro (⟨d, hd, hname⟩ | rfl)
      · exact ⟨d, mem_members_addRemoteSubscription.mpr (Or.inr hd), (hpeer d).trans hname⟩
      · exact ⟨_, mem_members_addRemoteSubscription.mpr (Or.inl ⟨hid, rfl⟩), (hpeer _).trans hown⟩
    · rintro ⟨d, hd, hname⟩
      rw [hpeer] at hname
      rcases mem_members_addRemoteSubscription.mp hd with ⟨-, rfl⟩ | hd
      · exact Or.inr (Option.some.inj (hname.symm.trans hown))
      · exact Or.inl ⟨d, hd, hname⟩
  · have hnodes := nodesAt_addRemoteSubscription hinv st.2.local_id e.1 st.2.partner_node_id
      e.2.1 e.2.2 s
    rw [if_neg fun hand => hid hand.2] at hnodes
    have hext := Router.extends_step cfg.board st.1.hub.router
      (.add e.1 st.1.handle e.2.1 st.2.partner_node_id e.2.2)
    refine h.congr (Router.nodeNames_congr hinv.router hinv'.router hext hnodes) (fun d => ?_) fun d
      _ => hpeer d
    refine mem_members_addRemoteSubscription.trans (or_iff_right fun hand => hid hand.1)

theorem Asked.removeEntry (h : Asked s (setRemote st)) (e : Filter × SubscriptionArguments) :
    Asked s (setRemote (removeEntry cfg st e)) := by
  refine h.congr rfl rfl (fun d hd => Or.inl (mem_members_removeSubscription.mp hd).1) fun hmem
    hs => ?_
  have hne : st.1.hub.router.findSubId e.1 e.2 ≠ s := fun heq =>
    (mem_members_removeSubscription.mp hmem).2 ⟨heq, rfl⟩
  exact List.mem_filter.mpr ⟨hs, by simpa using Ne.symm hne⟩

theorem extends_removeSubscription (l : UInt32) (s₀ : Nat) :
    fwd.hub.router.Extends (fwd.removeSubscription cfg l s₀).hub.router := by
  intro name n hfind
  rw [removeSubscription_peers]
  exact hfind

theorem Current.removeEntry (h : Current s (setRemote st)) (hrunning : Running cfg st)
    (e : Filter × SubscriptionArguments)
    (hleaves : st.1.hub.router.findSubId e.1 e.2 = s → LeavesName s st.2.local_id (setRemote st)) :
    Current s (setRemote (removeEntry cfg st e)) := by
  have hmem : ∀ d, d ∈ Multimap.members s
      (setRemote (Forwarder.removeEntry cfg st e)).subscription_mapping ↔
      d ∈ Multimap.members s (setRemote st).subscription_mapping ∧
        ¬ (st.1.hub.router.findSubId e.1 e.2 = s ∧ d = st.2.local_id) :=
    fun d => @mem_members_removeSubscription cfg _ _ _ _ d
  refine Current.leave (st.1.hub.router.findSubId e.1 e.2 = s) h hrunning.setRemote
    (hrunning.removeEntry e).setRemote hleaves rfl (extends_removeSubscription _ _) ?_ hmem
      fun d _ => ?_
  · have hnodes := nodesAt_removeSubscription hrunning.inv.hub hrunning.inv.full st.2.local_id
      (st.1.hub.router.findSubId e.1 e.2) s
    refine hnodes.trans ?_
    by_cases hs : st.1.hub.router.findSubId e.1 e.2 = s
    · rw [hs]
      rfl
    · rw [if_neg fun hand => hs hand.1, if_neg fun hand => hs hand.1]
      rfl
  · rw [peerOf_setRemote, peerOf_setRemote]
    rfl

end Entries

theorem Current.hello {x : String} (h : Current s fwd) (hinv : Inv cfg fwd)
    (hfind : Assoc.find l fwd.remotes = some c) (hempty : c.partner_node_id = "")
    (hs : s ∉ (fwd.handleRemoteHello cfg c x).2.helloIds)
    (hkeeps : l ∈ Multimap.members s fwd.subscription_mapping → x = "" ∨
      (fwd.Other s l x ∧ fwd.Other s l "")) :
    Current s (setRemote (fwd.handleRemoteHello cfg c x)) := by
  have hl := hinv.ids l c hfind
  have hspec := handleRemoteHello_spec hinv.hub hempty x
  have hinv' := ((hinv.running hfind).handleRemoteHello x).inv
  generalize fwd.handleRemoteHello cfg c x = st at hs hspec hinv'
  have hnodes := hspec.nodesAt s hs
  have hnames := Router.nodeNames_congr hinv.hub.router hinv'.hub.router hspec.peers hnodes
  have hmem : ∀ d, d ∈ Multimap.members s (setRemote st).subscription_mapping ↔
      d ∈ Multimap.members s fwd.subscription_mapping := fun d =>
    (hspec.mem_members s d).trans (or_iff_right fun hand => hs hand.1)
  have hpeer : ∀ d, d ≠ l → (setRemote st).peerOf d = fwd.peerOf d := by
    intro d hne
    rw [peerOf_setRemote, hspec.local_id, hl, if_neg (Ne.symm hne)]
    unfold peerOf
    rw [hspec.frames.remotes]
  have hbefore : fwd.peerOf l = some "" := by
    unfold peerOf
    rw [hfind, Option.map_some, hempty]
  have hafter : (setRemote st).peerOf l = some x := by
    rw [peerOf_setRemote, hspec.local_id, if_pos hl, hspec.partner_node_id]
  have hhandle : (setRemote st).handle = fwd.handle := hspec.frames.handle
  by_cases hin : l ∈ Multimap.members s fwd.subscription_mapping
  · rcases hkeeps hin with rfl | ⟨hx, hnone⟩
    · refine h.congr (by rw [hhandle]; exact hnames) hmem fun d _ => ?_
      by_cases hd : d = l
      · rw [hd, hafter, hbefore]
      · exact hpeer d hd
    · -- both names are there anyway
      intro name
      rw [hhandle]
      refine (hnames ▸ h name).trans ?_
      rw [mem_peersAt, mem_peersAt]
      constructor
      · rintro ⟨d, hd, hname⟩
        by_cases hdl : d = l
        · obtain ⟨d', hd', hne, hname'⟩ := hnone
          refine ⟨d', (hmem d').mpr hd', (hpeer d' hne).trans (hname'.trans ?_)⟩
          rw [← hname, hdl, hbefore]
        · exact ⟨d, (hmem d).mpr hd, (hpeer d hdl).trans hname⟩
      · rintro ⟨d, hd, hname⟩
        by_cases hdl : d = l
        · obtain ⟨d', hd', hne, hname'⟩ := hx
          refine ⟨d', hd', hname'.trans ?_⟩
          rw [← hname, hdl, hafter]
        · exact ⟨d, (hmem d).mp hd, (hpeer d hdl).symm.trans hname⟩
  · refine h.congr (by rw [hhandle]; exact hnames) hmem fun d hd => hpeer d ?_
    rintro rfl
    exact hin hd

theorem Asked.hello {x : String} (h : Asked s fwd) (hinv : Inv cfg fwd)
    (hfind : Assoc.find l fwd.remotes = some c) (hempty : c.partner_node_id = "")
    (hs : s ∉ (fwd.handleRemoteHello cfg c x).2.helloIds) :
    Asked s (setRemote (fwd.handleRemoteHello cfg c x)) := by
  have hspec := handleRemoteHello_spec hinv.hub hempty x
  generalize fwd.handleRemoteHello cfg c x = st at hs hspec
  rw [← setRemote_self (hinv.ids l c hfind) hfind] at h
  refine h.congr hspec.local_id hspec.frames.remotes (fun d hd => Or.inl ?_) fun _ hids => ?_
  · rcases (hspec.mem_members s d).mp hd with ⟨hhello, -⟩ | hd
    · exact absurd hhello hs
    · exact hd
  · rw [hspec.subscription_ids]
    exact hids

theorem mem_localIds (hfind : Assoc.find l fwd.remotes = some c) (hs : s ∈ c.controlIds) :
    s ∈ fwd.localIds :=
  List.mem_append_right _ (List.mem_flatMap.mpr ⟨(l, c), Assoc.mem_of_find hfind, hs⟩)

theorem Current.running (h : Current s fwd) (hasked : Asked s fwd) (hinv : Inv cfg fwd)
    (hfind : Assoc.find l fwd.remotes = some c) (ps : List Processor) :
    Running cfg (fwd, { c with ingress_subscription_processors := ps }) ∧
      Current s (setRemote (fwd, { c with ingress_subscription_processors := ps })) ∧
      Asked s (setRemote (fwd, { c with ingress_subscription_processors := ps })) := by
  rw [← setRemote_self (hinv.ids l c hfind) hfind] at h hasked
  refine ⟨⟨hinv, hinv.staged l c hfind⟩, h.congr rfl (fun _ => Iff.rfl) fun d _ => ?_, ?_⟩
  · rw [peerOf_setRemote, peerOf_setRemote]
  · exact hasked.congr rfl rfl (fun _ hd => Or.inl hd) fun _ hs => hs

theorem Current.accept (h : Current s fwd) (hasked : Asked s fwd) (hinv : Inv cfg fwd)
    (hnew : Assoc.find l fwd.remotes = none) (hid : (fwd.construct cfg l).2.update_sub_id ≠ s) :
    Current s (setRemote (fwd.construct cfg l)) ∧ Asked s (setRemote (fwd.construct cfg l)) := by
  have hother : ∀ d ∈ Multimap.members s fwd.subscription_mapping, l ≠ d := by
    rintro d hd rfl
    obtain ⟨c, hfind, -⟩ := hasked l hd
    rw [hnew] at hfind
    simp at hfind
  have hmem : ∀ d, d ∈ Multimap.members s (setRemote (fwd.construct cfg l)).subscription_mapping ↔
      d ∈ Multimap.members s fwd.subscription_mapping := fun d =>
    mem_members_addRemoteSubscription.trans (or_iff_right fun hand => hid hand.1)
  have hnodes := nodesAt_addRemoteSubscription hinv.hub l (updateReceiverFilter cfg.board.NODE_ID l)
    cfg.board.NODE_ID ⟨cfg.board.NODE_ID, "tcp_forwarder", "1"⟩ .default s
  rw [if_neg fun hand => hid hand.2] at hnodes
  have hext := Router.extends_step cfg.board fwd.hub.router
    (.add (updateReceiverFilter cfg.board.NODE_ID l) fwd.handle ⟨cfg.board.NODE_ID, "tcp_forwarder",
      "1"⟩ cfg.board.NODE_ID .default)
  have hnames := Router.nodeNames_congr hinv.hub.router (Running.construct hinv l).inv.hub.router
    hext hnodes
  constructor
  · refine h.congr hnames hmem fun d hd => ?_
    rw [peerOf_setRemote]
    exact if_neg (hother d hd)
  · intro d hd
    have hd := (hmem d).mp hd
    obtain ⟨c, hfind, hs⟩ := hasked d hd
    exact ⟨c, (Assoc.find_put_ne (hother d hd) _ _).trans hfind, hs⟩

theorem Current.disconnect (h : Current s fwd) (hasked : Asked s fwd) (hinv : Inv cfg fwd)
    (hfind : Assoc.find l fwd.remotes = some c) (hleaves : LeavesName s l fwd) :
    Current s (destruct cfg { fwd with remotes := Assoc.erase l fwd.remotes } c) ∧
      Asked s (destruct cfg { fwd with remotes := Assoc.erase l fwd.remotes } c) := by
  have hl := hinv.ids l c hfind
  have hframes : Frames _ (destruct cfg { fwd with remotes := Assoc.erase l fwd.remotes } c) :=
    removeEach_frames c.local_id c.recorded
  have hmem : ∀ d, d ∈ Multimap.members s
      (destruct cfg { fwd with remotes := Assoc.erase l fwd.remotes } c).subscription_mapping ↔
        d ∈ Multimap.members s fwd.subscription_mapping ∧ ¬ (s ∈ c.recorded ∧ d = l) := by
    intro d
    rw [← hl]
    exact @mem_members_removeEach cfg _ _ d _ s
  have hother : ∀ d, d ∈ Multimap.members s
      (destruct cfg { fwd with remotes := Assoc.erase l fwd.remotes } c).subscription_mapping →
      l ≠ d := by
    rintro d hd rfl
    obtain ⟨hd, hnot⟩ := (hmem l).mp hd
    obtain ⟨c', hfind', hs⟩ := hasked l hd
    rw [← Option.some.inj (hfind.symm.trans hfind')] at hs
    exact hnot ⟨List.mem_append_right _ hs, rfl⟩
  have hfind' : ∀ d, l ≠ d → Assoc.find d
      (destruct cfg { fwd with remotes := Assoc.erase l fwd.remotes } c).remotes =
      Assoc.find d fwd.remotes := by
    intro d hne
    rw [hframes.remotes, Assoc.find_erase, if_neg hne]
  constructor
  · refine Current.leave (s ∈ c.recorded) h hinv ((hinv.erase l).removeEach c.local_id c.recorded)
      (fun _ => hleaves) hframes.handle ?_ ?_ hmem fun d hd => ?_
    · exact List.foldlRecOn (motive := fun f : Forwarder => fwd.hub.router.Extends f.hub.router)
        c.recorded _ (Router.Extends.refl _) fun _ hext s₀ _ =>
          hext.trans (extends_removeSubscription _ s₀)
    · rw [← hl]
      exact nodesAt_removeEach (hinv.erase c.local_id) c.local_id c.recorded s
    · unfold peerOf
      rw [hfind' d (hother d hd)]
  · intro d hd
    obtain ⟨c', hc', hs⟩ := hasked d ((hmem d).mp hd).1
    exact ⟨c', (hfind' d (hother d hd)).trans hc', hs⟩

/-- A step under the condition, if the subscription is still one of the peers only. -/
theorem Current.step {e : Event} (h : Current s fwd) (hasked : Asked s fwd) (hinv : Inv cfg fwd)
    (hkeeps : e.KeepsNames cfg s fwd) (hstep : fwd.step cfg e = some fwd')
    (hlocal : s ∉ fwd'.localIds) :
    Current s fwd' ∧ Asked s fwd' := by
  have hinv' := hinv.step hstep
  cases step_cases hstep with
  | taken => exact ⟨h, hasked⟩
  | accept hnew =>
    have hnext : Inv cfg { fwd with next_local_id := fwd.next_local_id + 1 } :=
      ⟨hinv.hub, hinv.full, hinv.ids, hinv.staged⟩
    have hcurrent : Current s { fwd with next_local_id := fwd.next_local_id + 1 } := h
    refine hcurrent.accept hasked hnext hnew ?_
    rintro rfl
    exact hlocal (mem_localIds (Assoc.find_put_self _ _ _) List.mem_cons_self)
  | hello l p c x hfind hx =>
    by_cases hempty : c.partner_node_id = ""
    · have hspec := handleRemoteHello_spec hinv.hub hempty x
      have hs : s ∉ (fwd.handleRemoteHello cfg c x).2.helloIds := by
        intro hmem
        refine hlocal (mem_localIds (Assoc.find_put_self _ _ _) (List.mem_cons_of_mem _ ?_))
        exact List.mem_filter.mpr ⟨hmem, by simpa using hspec.ids_ne_zero s hmem⟩
      exact ⟨h.hello hinv hfind hempty hs (hkeeps c x hfind hx hempty), hasked.hello hinv hfind
        hempty hs⟩
    · rw [handleRemoteHello_again hempty, setRemote_self (hinv.ids l c hfind) hfind]
      exact ⟨h, hasked⟩
  | added l p c ps es hfind hread =>
    obtain ⟨hrunning, hstart⟩ := h.running hasked hinv hfind ps
    have hall := List.foldlRecOn (motive := fun st => Running cfg st ∧
      Current s (setRemote st) ∧ Asked s (setRemote st))
      es (Forwarder.addEntry cfg) ⟨hrunning, hstart⟩ fun st hst e he =>
        ⟨hst.1.addEntry e, hst.2.1.addEntry hst.1 e (hkeeps c ps es hfind hread e he),
          hst.2.2.addEntry e⟩
    exact hall.2
  | removed l p c ps es hfind hread =>
    obtain ⟨hrunning, hstart⟩ := h.running hasked hinv hfind ps
    have hall := (hkeeps c ps es hfind hread).foldl
      (P := fun st => Running cfg st ∧ Current s (setRemote st) ∧ Asked s (setRemote st))
        ⟨hrunning, hstart⟩
      fun st e hst hleaves => ⟨hst.1.removeEntry e, hst.2.1.removeEntry hst.1 e hleaves,
        hst.2.2.removeEntry e⟩
    exact hall.2
  | disconnect l c hfind => exact h.disconnect hasked hinv hfind hkeeps
  | others ev hub hne hhub =>
    have hnodes := Hub.nodesAt_other hinv.hub hhub hne s
    have hnames := Router.nodeNames_congr hinv.hub.router hinv'.hub.router (Hub.extends_step hhub)
      hnodes
    exact ⟨h.congr hnames (fun _ => Iff.rfl) fun _ _ => rfl, hasked⟩

/-! ## Runs -/

theorem current_create {hub : Hub} {handle : Nat} (hhub : Hub.Inv cfg.board hub)
    (hfresh : ∀ s, ¬ hub.router.Registered s handle) (hcreate : create cfg hub handle = some fwd)
    (hlocal : s ∉ fwd.localIds) : Current s fwd ∧ Asked s fwd := by
  obtain ⟨hub', hstep, rfl⟩ := Option.map_eq_some_iff.mp hcreate
  have hinv' := hhub.step hstep
  have hrouter : hub'.router = hub.router := by
    simp only [Hub.step] at hstep
    split at hstep
    · simp at hstep
    · rw [← Option.some.inj hstep]
  simp only [localIds, List.flatMap_nil, List.append_nil, List.mem_cons, List.not_mem_nil, or_false,
    not_or] at hlocal
  have hnil : hub.router.nodesAt s handle = [] := by
    have hnot := hfresh s
    rw [Router.registered_iff hhub.router.subs, not_not] at hnot
    exact hnot
  constructor
  · intro name
    have hfirst := (hinv'.nodesAt_subscribe_ne (Ne.symm hlocal.1) handle).trans (hrouter ▸ hnil)
    have hsecond := ((hinv'.subscribe ..).nodesAt_subscribe_ne (Ne.symm hlocal.2) handle).trans
      hfirst
    unfold Router.nodeNames
    dsimp only
    rw [hsecond]
    simp [peersAt, Multimap.members, Assoc.find]
  · intro d hd
    simp [Multimap.members, Assoc.find] at hd

/-- In every run in which the peers of a subscription leave it only as the last ones, and ask for it
only under their names, the router knows exactly these peers behind the receiver. -/
theorem peer_nodes_current {cfg : ForwarderSettings} {setup : List Hub.Event} {hub : Hub}
    {handle : Nat} {events : List Event} {fwd : Forwarder} {s : Nat}
    (hhub : Hub.run cfg.board setup = some hub) (hfresh : ∀ s, ¬ hub.router.Registered s handle)
    (hrun : run cfg hub handle events = some fwd)
    (hlocal : ∀ pre post before, events = pre ++ post → run cfg hub handle pre = some before →
      s ∉ before.localIds) (hkeeps : ∀ pre e post before, events = pre ++ e :: post →
      run cfg hub handle pre = some before →
      e.KeepsNames cfg s before) :
    ∀ name, name ∈ fwd.hub.router.nodeNames s fwd.handle ↔ name ∈ fwd.peersAt s := by
  have hinv : Hub.Inv cfg.board hub := Runs.invariant (Hub.Inv cfg.board) (Hub.inv_init cfg.board)
    (fun _ _ _ h hstep => h.step hstep) hhub
  obtain ⟨fwd₀, hcreate, hsteps⟩ := Option.bind_eq_some_iff.mp hrun
  have hruns : ∀ pre, run cfg hub handle pre = pre.foldlM (step cfg) fwd₀ := by
    intro pre
    rw [run, hcreate, Option.bind_some]
  have hinit := current_create hinv hfresh hcreate
    (hlocal [] events fwd₀ rfl (by rw [hruns, List.foldlM_nil]; rfl))
  have hall : Inv cfg fwd ∧ Current s fwd ∧ Asked s fwd := by
    refine Runs.invariant_of (fun fwd => Inv cfg fwd ∧ Current s fwd ∧ Asked s fwd)
      (fun fwd e => e.KeepsNames cfg s fwd ∧ ∀ fwd', fwd.step cfg e = some fwd' → s ∉ fwd'.localIds)
      ⟨inv_create hinv hcreate, hinit⟩ ?_ ?_ hsteps
    · rintro fwd e fwd' ⟨hinv, hcurrent, hasked⟩ ⟨hkeeps, hlocal⟩ hstep
      exact ⟨hinv.step hstep, hcurrent.step hasked hinv hkeeps hstep (hlocal fwd' hstep)⟩
    · intro pre e post before heq hpre
      refine ⟨hkeeps pre e post before heq (by rw [hruns]; exact hpre), fun fwd' hstep => ?_⟩
      refine hlocal (pre ++ [e]) post fwd' (by rw [heq, List.append_assoc]; rfl) ?_
      rw [hruns, Runs.foldlM_snoc, hpre, Option.bind_some, hstep]
  exact hall.2.1

theorem localIds_of_take {events : List Event} {hub : Hub} {handle s : Nat}
    (h : ∀ n ≤ events.length, ((run cfg hub handle (events.take n)).all fun before =>
      s ∉ before.localIds) = true)
    (pre post : List Event) (before : Forwarder) (heq : events = pre ++ post)
    (hbefore : run cfg hub handle pre = some before) : s ∉ before.localIds := by
  have htake : events.take pre.length = pre := by rw [heq, List.take_left]
  have hle : pre.length ≤ events.length := by
    rw [heq, List.length_append]
    exact Nat.le_add_right _ _
  have hall := h pre.length hle
  rw [htake, hbefore] at hall
  simpa using hall

/-- The peer that asks is the one that the router knows. -/
theorem peer_nodes_current_asking :
    ∃ fwd, run nodeSettings (Hub.init ⟨"node", 3⟩) 1 asking = some fwd ∧
    "peer" ∈ fwd.hub.router.nodeNames 18 fwd.handle := by
  obtain ⟨fwd, hrun, hpeer⟩ : ∃ fwd, run nodeSettings (Hub.init ⟨"node", 3⟩) 1 asking = some fwd ∧
      "peer" ∈ fwd.peersAt 18 := ⟨_, rfl, by decide⟩
  have hhub : Hub.run nodeSettings.board [] = some (Hub.init ⟨"node", 3⟩) := rfl
  have hfresh : ∀ s, ¬ (Hub.init ⟨"node", 3⟩).router.Registered s 1 := by
    rintro s ⟨S, hS, -⟩
    simp [Hub.init, Router.init] at hS
  have hlocal : ∀ pre post before, asking = pre ++ post →
      run nodeSettings (Hub.init ⟨"node", 3⟩) 1 pre = some before → 18 ∉ before.localIds :=
        localIds_of_take (by decide)
  have hkeeps : ∀ pre e post before, asking = pre ++ e :: post →
      run nodeSettings (Hub.init ⟨"node", 3⟩) 1 pre = some before →
      e.KeepsNames nodeSettings 18 before := by
    intro pre e post before heq hpre
    rcases pre with _ | ⟨a, _ | ⟨b, _ | ⟨d, pre⟩⟩⟩
    all_goals simp only [asking, List.cons_append, List.nil_append, List.cons.injEq] at heq
    · obtain ⟨rfl, -⟩ := heq
      trivial
    · obtain ⟨rfl, rfl, -⟩ := heq
      intro c name _ _ _ hmem
      rw [← Option.some.inj hpre] at hmem
      exact absurd hmem (by decide)
    · obtain ⟨rfl, rfl, rfl, -⟩ := heq
      intro _ _ _ _ _ _ _ _
      decide
    · simp at heq
  exact ⟨fwd, hrun, (peer_nodes_current hhub hfresh hrun hlocal hkeeps "peer").mpr hpeer⟩

/-- Two peers ask for the same, and the first one leaves. -/
def sharing : List Event :=
  [.accept, .accept, .hello 0 (helloMessage "first"), .hello 1 (helloMessage "second"),
    .added 0 (askMessage "first"), .added 1 (askMessage "second"), .disconnect 0]

/-- The router still knows the first one behind a subscription that only peers have asked for. -/
theorem shared_peer_stays :
    ∃ fwd, run nodeSettings (Hub.init ⟨"node", 3⟩) 1 sharing = some fwd ∧
      (∀ pre post before, sharing = pre ++ post →
        run nodeSettings (Hub.init ⟨"node", 3⟩) 1 pre = some before →
        23 ∉ before.localIds) ∧
      23 ∈ Assoc.keys fwd.subscription_mapping ∧
        fwd.hub.router.nodeNames 23 fwd.handle = ["first", "second"] ∧
      fwd.peersAt 23 = ["second"] :=
  ⟨_, rfl, localIds_of_take (by decide), by decide, by decide, by decide⟩

end Forwarder

end UActor
