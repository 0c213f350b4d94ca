import UActor.Remote.Forwarder

/-!
# Connections that end

A connection keeps the ids of its subscriptions in five fields and a set, and gives them up in its
destructor.
-/

namespace UActor

open RemoteConnection

namespace Forwarder

variable {cfg : ForwarderSettings} {fwd fwd' : Forwarder} {c : RemoteConnection} {l : UInt32}

/-! ## Recorded ids -/

/-- The connection has recorded the ids of all sets that it is in. -/
def Recorded (l : UInt32) (fwd : Forwarder) : Prop :=
  ∀ s, l ∈ Multimap.members s fwd.subscription_mapping →
    ∃ c, Assoc.find l fwd.remotes = some c ∧ s ∈ c.recorded

namespace Recorded

variable {st st' : Forwarder × RemoteConnection}

theorem congr (h : Recorded l (setRemote st)) (hid : st'.2.local_id = st.2.local_id)
    (hremotes : st'.1.remotes = st.1.remotes)
    (hothers : st.2.local_id ≠ l → ∀ s, l ∈ Multimap.members s st'.1.subscription_mapping →
      l ∈ Multimap.members s st.1.subscription_mapping)
    (hown : st.2.local_id = l →
      (∀ s, l ∈ Multimap.members s st.1.subscription_mapping → s ∈ st.2.recorded) →
      ∀ s, l ∈ Multimap.members s st'.1.subscription_mapping → s ∈ st'.2.recorded) :
    Recorded l (setRemote st') := by
  intro s hmem
  have hmem : l ∈ Multimap.members s st'.1.subscription_mapping := hmem
  have hfind : ∀ st : Forwarder × RemoteConnection, Assoc.find l (setRemote st).remotes =
      if st.2.local_id = l then some st.2 else Assoc.find l st.1.remotes :=
        fun st => Assoc.find_put l _ _ _
  rw [hfind, hid, hremotes]
  by_cases hl : st.2.local_id = l
  · rw [if_pos hl]
    refine ⟨st'.2, rfl, hown hl (fun s hmem => ?_) s hmem⟩
    obtain ⟨c, hc, hs⟩ := h s hmem
    rw [hfind, if_pos hl] at hc
    rw [Option.some.inj hc]
    exact hs
  · rw [if_neg hl]
    obtain ⟨c, hc, hs⟩ := h s (hothers hl s hmem)
    rw [hfind, if_neg hl] at hc
    exact ⟨c, hc, hs⟩

theorem addEntry (h : Recorded l (setRemote st))
    (e : Filter × ActorIdentifier × SubscriptionArguments) :
    Recorded l (setRemote (addEntry cfg st e)) := by
  refine h.congr rfl rfl (fun hne s hmem => ?_) (fun hl hall s hmem => ?_)
  · rcases mem_members_addRemoteSubscription.mp hmem with ⟨-, heq⟩ | hmem
    · exact absurd heq.symm hne
    · exact hmem
  · show s ∈ st.2.controlIds ++ _
    rcases mem_members_addRemoteSubscription.mp hmem with ⟨hid, -⟩ | hmem
    · exact List.mem_append_right _ (Multimap.mem_insertInto.mpr (Or.inl hid.symm))
    · rcases List.mem_append.mp (hall s hmem) with hs | hs
      · exact List.mem_append_left _ hs
      · exact List.mem_append_right _ (Multimap.mem_insertInto.mpr (Or.inr hs))

theorem removeEntry (h : Recorded l (setRemote st)) (e : Filter × SubscriptionArguments) :
    Recorded l (setRemote (removeEntry cfg st e)) := by
  refine h.congr rfl rfl (fun _ s hmem => (mem_members_removeSubscription.mp hmem).1)
    (fun hl hall s hmem => ?_)
  obtain ⟨hmem, hnot⟩ := mem_members_removeSubscription.mp hmem
  show s ∈ st.2.controlIds ++ _
  rcases List.mem_append.mp (hall s hmem) with hs | hs
  · exact List.mem_append_left _ hs
  · refine List.mem_append_right _ (List.mem_filter.mpr ⟨hs, ?_⟩)
    -- the id that was looked for is the one that the connection left
    have hne : s ≠ st.1.hub.router.findSubId e.1 e.2 := fun heq => hnot ⟨heq.symm, hl.symm⟩
    simpa using hne

theorem hello {x : String} (h : Recorded l (setRemote (fwd, c))) (hinv : Hub.Inv cfg.board fwd.hub)
    (hstaged : Staged c) (hone : c.local_id = l → c.partner_node_id = "" →
      c.local_sub_added_id = 0) :
    Recorded l (setRemote (fwd.handleRemoteHello cfg c x)) := by
  by_cases hempty : c.partner_node_id = ""
  · have hspec := handleRemoteHello_spec hinv hempty x
    generalize fwd.handleRemoteHello cfg c x = st at hspec
    refine h.congr hspec.local_id hspec.frames.remotes (fun hne s hmem => ?_)
      (fun hl hall s hmem => ?_)
    · rcases (hspec.mem_members s l).mp hmem with ⟨-, heq⟩ | hmem
      · exact absurd heq.symm hne
      · exact hmem
    · have hcontrol : st.2.controlIds = c.update_sub_id :: st.2.helloIds := by
        unfold controlIds
        rw [hspec.update_sub_id, List.filter_eq_self.mpr fun id
          hid => by simpa using hspec.ids_ne_zero id hid]
      unfold recorded
      rw [hcontrol, hspec.subscription_ids]
      rcases (hspec.mem_members s l).mp hmem with ⟨hs, -⟩ | hmem
      · exact List.mem_append_left _ (List.mem_cons_of_mem _ hs)
      · have hs := hall s hmem
        unfold recorded at hs
        rw [hstaged (hone hl hempty)] at hs
        rcases List.mem_append.mp hs with hs | hs
        · rw [List.mem_singleton.mp hs]
          exact List.mem_append_left _ List.mem_cons_self
        · exact List.mem_append_right _ hs
  · rw [handleRemoteHello_again hempty]
    exact h

end Recorded

/-- A hello that counts is the first one of its connection. -/
def Event.OneHello (l : UInt32) (fwd : Forwarder) : Event → Prop
  | .hello l' _ => l' = l → ∀ c, Assoc.find l fwd.remotes = some c → c.partner_node_id = "" →
      c.local_sub_added_id = 0
  | .accept | .added .. | .removed .. | .disconnect _ | .others _ => True

theorem setRemote_self (hids : c.local_id = l) (hfind : Assoc.find l fwd.remotes = some c) :
    setRemote (fwd, c) = fwd := by
  unfold setRemote
  rw [hids, Assoc.put_of_find hfind]

theorem Recorded.step {e : Event} (h : Recorded l fwd) (hinv : Inv cfg fwd)
    (hone : e.OneHello l fwd) (hstep : fwd.step cfg e = some fwd') : Recorded l fwd' := by
  cases step_cases hstep with
  | taken => exact h
  | accept hnew =>
    intro s hmem
    rcases mem_members_addRemoteSubscription.mp hmem with ⟨hid, rfl⟩ | hmem
    · refine ⟨_, Assoc.find_put_self _ _ _, ?_⟩
      exact List.mem_append_left _ (hid ▸ List.mem_cons_self)
    · obtain ⟨c, hfind, hs⟩ := h s hmem
      have hne : fwd.next_local_id ≠ l := by
        rintro rfl
        rw [hnew] at hfind
        simp at hfind
      exact ⟨c, (Assoc.find_put_ne hne _ _).trans hfind, hs⟩
  | hello l' p c x hfind hx =>
    have hids := hinv.ids l' c hfind
    rw [← setRemote_self hids hfind] at h
    refine h.hello hinv.hub (hinv.staged l' c hfind) fun hl hempty => ?_
    have hl' : l' = l := hids.symm.trans hl
    exact hone hl' c (hl' ▸ hfind) hempty
  | added l' p c ps es hfind hread =>
    have hids := hinv.ids l' c hfind
    rw [← setRemote_self hids hfind] at h
    have hstart : Recorded l (setRemote (fwd, { c with ingress_subscription_processors := ps })) :=
      h.congr rfl rfl (fun _ _ hmem => hmem) (fun _ hall => hall)
    exact List.foldlRecOn (motive := fun st => Recorded l (setRemote st)) es _ hstart fun _ hst e
      _ => hst.addEntry e
  | removed l' p c ps es hfind hread =>
    have hids := hinv.ids l' c hfind
    rw [← setRemote_self hids hfind] at h
    have hstart : Recorded l (setRemote (fwd, { c with ingress_subscription_processors := ps })) :=
      h.congr rfl rfl (fun _ _ hmem => hmem) (fun _ hall => hall)
    exact List.foldlRecOn (motive := fun st => Recorded l (setRemote st)) es _ hstart fun _ hst e
      _ => hst.removeEntry e
  | disconnect l' c hfind =>
    intro s hmem
    obtain ⟨hmem, hnot⟩ := mem_members_removeEach.mp hmem
    obtain ⟨c', hfind', hs⟩ := h s hmem
    have hne : l' ≠ l := by
      rintro rfl
      obtain rfl := Option.some.inj (hfind.symm.trans hfind')
      exact hnot ⟨hs, (hinv.ids l' c hfind).symm⟩
    refine ⟨c', ?_, hs⟩
    have hframes : Frames _ (destruct cfg { fwd with remotes := Assoc.erase l' fwd.remotes } c) :=
      removeEach_frames c.local_id c.recorded
    rw [hframes.remotes, Assoc.find_erase, if_neg hne]
    exact hfind'
  | others => exact h

/-! ## Ids without a connection -/

/-- A connection stands behind the receiver at a subscription. -/
def Backed (s : Nat) (fwd : Forwarder) : Prop :=
  fwd.hub.router.nodesAt s fwd.handle ≠ [] → ∃ d, d ∈ Multimap.members s fwd.subscription_mapping

/-- The last connection behind a subscription takes the receiver along. -/
def TakesAlong (l : UInt32) (s : Nat) (fwd : Forwarder) : Prop :=
  fwd.Only l s → fwd.hub.router.RemovesAll s fwd.handle

/-- The condition on one step. -/
def Event.Releases (cfg : ForwarderSettings) (fwd : Forwarder) : Event → Prop
  | .removed l p => ∀ c ps es, Assoc.find l fwd.remotes = some c →
      removedSubscriptions cfg.order c.ingress_subscription_processors p = some (ps, es) →
      EachEntry cfg (fun st s => TakesAlong st.2.local_id s st.1)
      (fwd, { c with ingress_subscription_processors := ps }) es
  | .disconnect l => ∀ s, TakesAlong l s fwd
  | .accept | .hello .. | .added .. | .others _ => True

theorem exists_other {s : Nat} (hmem : l ∈ Multimap.members s fwd.subscription_mapping)
    (honly : ¬ fwd.Only l s) :
    ∃ d ∈ Multimap.members s fwd.subscription_mapping, d ≠ l := by
  by_contra hnone
  refine honly ⟨hmem, fun d hd => ?_⟩
  by_contra hne
  exact hnone ⟨d, hd, hne⟩

namespace Backed

variable {s : Nat}

theorem addRemoteSubscription (h : Backed s fwd) (hinv : Hub.Inv cfg.board fwd.hub) (l : UInt32)
    (f : Filter) (node_id : String) (who : ActorIdentifier) (args : SubscriptionArguments) :
    Backed s (fwd.addRemoteSubscription cfg l f node_id who args).1 := by
  intro hne
  by_cases hid : (fwd.addRemoteSubscription cfg l f node_id who args).2 = s
  · exact ⟨l, mem_members_addRemoteSubscription.mpr (Or.inl ⟨hid, rfl⟩)⟩
  · have hnodes := nodesAt_addRemoteSubscription hinv l f node_id who args s
    rw [if_neg fun hand => hid hand.2] at hnodes
    obtain ⟨d, hd⟩ := h fun hnil => hne (hnodes.trans hnil)
    exact ⟨d, mem_members_addRemoteSubscription.mpr (Or.inr hd)⟩

theorem leave {l : UInt32} (leaves : Prop) [Decidable leaves] (h : Backed s fwd)
    (hinv : Inv cfg fwd) (htakes : leaves → TakesAlong l s fwd) (hhandle : fwd'.handle = fwd.handle)
    (hnodes : fwd'.hub.router.nodesAt s fwd.handle =
      if leaves ∧ fwd.Only l s then fwd.hub.router.left (fwd.hub.router.nodesAt s fwd.handle)
      else fwd.hub.router.nodesAt s fwd.handle)
    (hmem : ∀ d, d ∈ Multimap.members s fwd'.subscription_mapping ↔
      d ∈ Multimap.members s fwd.subscription_mapping ∧ ¬ (leaves ∧ d = l)) : Backed s fwd' := by
  intro hne
  rw [hhandle, hnodes] at hne
  by_cases hlast : leaves ∧ fwd.Only l s
  · rw [if_pos hlast] at hne
    exact absurd ((Router.left_eq_nil hinv.hub.router).mpr (htakes hlast.1 hlast.2)) hne
  · rw [if_neg hlast] at hne
    obtain ⟨d, hd⟩ := h hne
    by_cases hself : leaves ∧ d = l
    · obtain ⟨hleaves, rfl⟩ := hself
      obtain ⟨d', hd', hother⟩ := exists_other hd fun honly => hlast ⟨hleaves, honly⟩
      exact ⟨d', (hmem d').mpr ⟨hd', fun hand => hother hand.2⟩⟩
    · exact ⟨d, (hmem d).mpr ⟨hd, hself⟩⟩

theorem removeSubscription (h : Backed s fwd) (hinv : Inv cfg fwd) (l : UInt32) (s₀ : Nat)
    (htakes : TakesAlong l s₀ fwd) : Backed s (fwd.removeSubscription cfg l s₀) := by
  refine h.leave (s₀ = s) hinv (fun heq => heq ▸ htakes) rfl ?_ fun d =>
    mem_members_removeSubscription
  rw [nodesAt_removeSubscription hinv.hub hinv.full]
  by_cases hs : s₀ = s
  · subst hs
    rfl
  · simp [hs]

theorem removeEach (h : Backed s fwd) (hinv : Inv cfg fwd) (l : UInt32) (ids : List Nat)
    (htakes : TakesAlong l s fwd) : Backed s (fwd.removeEach cfg l ids) :=
  h.leave (s ∈ ids) hinv (fun _ => htakes) (removeEach_frames l ids).handle
    (nodesAt_removeEach hinv l ids s) fun _ => mem_members_removeEach

theorem step {e : Event} (h : Backed s fwd) (hinv : Inv cfg fwd) (hrel : e.Releases cfg fwd)
    (hstep : fwd.step cfg e = some fwd') : Backed s fwd' := by
  cases step_cases hstep with
  | taken => exact h
  | accept =>
    have hnext : Backed s { fwd with next_local_id := fwd.next_local_id + 1 } := h
    exact hnext.addRemoteSubscription hinv.hub _ _ _ _ _
  | hello l p c x hfind =>
    by_cases hempty : c.partner_node_id = ""
    · have hspec := handleRemoteHello_spec hinv.hub hempty x
      generalize fwd.handleRemoteHello cfg c x = st at hspec
      intro hne
      by_cases hs : s ∈ st.2.helloIds
      · exact ⟨c.local_id, (hspec.mem_members s _).mpr (Or.inl ⟨hs, rfl⟩)⟩
      · have hnodes := hspec.nodesAt s hs
        rw [← hspec.frames.handle] at hnodes
        obtain ⟨d, hd⟩ := h fun hnil => hne (hnodes.trans (by rw [hspec.frames.handle]; exact hnil))
        exact ⟨d, (hspec.mem_members s d).mpr (Or.inr hd)⟩
    · rw [handleRemoteHello_again hempty]
      exact h
  | added l p c ps es hfind =>
    have hrunning : Running cfg (fwd, { c with ingress_subscription_processors := ps }) :=
      ⟨hinv, hinv.staged l c hfind⟩
    have hboth : Running cfg (es.foldl (addEntry cfg)
        (fwd, { c with ingress_subscription_processors := ps })) ∧
        Backed s (es.foldl (addEntry cfg) (fwd, { c with ingress_subscription_processors :=
          ps })).1 :=
      List.foldlRecOn (motive := fun st => Running cfg st ∧ Backed s st.1) es _ ⟨hrunning, h⟩ fun st
        hst e _ =>
        ⟨hst.1.addEntry e, hst.2.addRemoteSubscription hst.1.inv.hub _ _ _ _ _⟩
    exact hboth.2
  | removed l p c ps es hfind hread =>
    have hrunning : Running cfg (fwd, { c with ingress_subscription_processors := ps }) :=
      ⟨hinv, hinv.staged l c hfind⟩
    have hboth := (hrel c ps es hfind hread).foldl (P := fun st => Running cfg st ∧ Backed s st.1)
      ⟨hrunning, h⟩ fun st e hst htakes =>
        ⟨hst.1.removeEntry e, hst.2.removeSubscription hst.1.inv _ _ htakes⟩
    exact hboth.2
  | disconnect l c hfind =>
    have hbacked : Backed s { fwd with remotes := Assoc.erase l fwd.remotes } := h
    have htakes : TakesAlong c.local_id s { fwd with remotes := Assoc.erase l fwd.remotes } := by
      rw [hinv.ids l c hfind]
      exact hrel s
    exact hbacked.removeEach (hinv.erase l) _ _ htakes
  | others ev hub hne hhub =>
    intro hnodes
    have hsame := Hub.nodesAt_other hinv.hub hhub hne s
    rw [hsame] at hnodes
    exact h hnodes

end Backed

/-! ## The end of a connection -/

variable {setup : List Hub.Event} {hub : Hub} {handle : Nat} {events : List Event}

theorem recorded_run (hhub : Hub.run cfg.board setup = some hub)
    (hrun : run cfg hub handle events = some fwd)
    (hone : ∀ pre e post before, events = pre ++ e :: post →
      run cfg hub handle pre = some before → e.OneHello l before) :
    Recorded l fwd := by
  obtain ⟨fwd₀, hcreate, hsteps⟩ := Option.bind_eq_some_iff.mp hrun
  have hinit : Recorded l fwd₀ := by
    obtain ⟨hub', -, rfl⟩ := Option.map_eq_some_iff.mp hcreate
    intro s hmem
    simp [Multimap.members, Assoc.find] at hmem
  have hstart : run cfg hub handle [] = some fwd₀ := by
    rw [run, hcreate, Option.bind_some, List.foldlM_nil]; rfl
  have hboth : Inv cfg fwd ∧ Recorded l fwd := by
    refine Runs.invariant_of (fun fwd => Inv cfg fwd ∧ Recorded l fwd)
      (fun fwd e => e.OneHello l fwd) ⟨inv_run hhub hstart, hinit⟩
      (fun _ _ _ h hone hstep => ⟨h.1.step hstep, h.2.step h.1 hone hstep⟩) ?_ hsteps
    intro pre e post before heq hpre
    exact hone pre e post before heq (by rw [run, hcreate]; exact hpre)
  exact hboth.2

theorem backed_run {pre post : List Event} {before : Forwarder} {s : Nat}
    (hhub : Hub.run cfg.board setup = some hub) (heq : events = pre ++ post)
    (hrun : run cfg hub handle events = some fwd)
    (hrel : ∀ pre e post before, events = pre ++ e :: post →
      run cfg hub handle pre = some before → e.Releases cfg before)
    (hbefore : run cfg hub handle pre = some before)
    (hkey : s ∈ Assoc.keys before.subscription_mapping) :
    Backed s fwd := by
  have hinv := inv_run hhub hbefore
  have hstart : Backed s before := fun _ => List.exists_mem_of_ne_nil _ (hinv.full.mem_keys.mp hkey)
  rw [heq, run_append, hbefore, Option.bind_some] at hrun
  have hboth : Inv cfg fwd ∧ Backed s fwd := by
    refine Runs.invariant_of (fun fwd => Inv cfg fwd ∧ Backed s fwd)
      (fun fwd e => e.Releases cfg fwd) ⟨hinv, hstart⟩ (fun _ _ _ h hrel hstep =>
        ⟨h.1.step hstep, h.2.step h.1 hrel hstep⟩) ?_ hrun
    intro pre' e post' fwd' hpost hpre'
    refine hrel (pre ++ pre') e post' fwd' ?_ ?_
    · rw [heq, hpost, List.append_assoc]
    · rw [run_append, hbefore, Option.bind_some, hpre']
  exact hboth.2

theorem disconnect_find (hstep : fwd.step cfg (.disconnect l) = some fwd') :
    Assoc.find l fwd'.remotes = none := by
  cases step_cases hstep with
  | disconnect _ c hfind =>
    have hframes : Frames _ (destruct cfg { fwd with remotes := Assoc.erase l fwd.remotes } c) :=
      removeEach_frames c.local_id c.recorded
    rw [hframes.remotes, Assoc.find_erase, if_pos rfl]

/-- What is left of a set with one connection only, and of the nodes of the receiver there. -/
theorem disconnect_only {s : Nat} (hinv : Inv cfg fwd) (hrecorded : Recorded l fwd)
    (honly : fwd.Only l s) (hstep : fwd.step cfg (.disconnect l) = some fwd') :
    Multimap.members s fwd'.subscription_mapping = [] ∧
      fwd'.hub.router.nodesAt s fwd'.handle =
        fwd.hub.router.left (fwd.hub.router.nodesAt s fwd.handle) := by
  cases step_cases hstep with
  | disconnect _ c hfind =>
    have hframes : Frames _ (destruct cfg { fwd with remotes := Assoc.erase l fwd.remotes } c) :=
      removeEach_frames c.local_id c.recorded
    obtain rfl := hinv.ids l c hfind
    have hs : s ∈ c.recorded := by
      obtain ⟨c', hfind', hs⟩ := hrecorded s honly.1
      rw [Option.some.inj (hfind.symm.trans hfind')]
      exact hs
    have honly' : Only { fwd with remotes := Assoc.erase c.local_id fwd.remotes } c.local_id s :=
      honly
    constructor
    · refine List.eq_nil_iff_forall_not_mem.mpr fun d hd => ?_
      obtain ⟨hd, hnot⟩ := mem_members_removeEach.mp hd
      exact hnot ⟨hs, honly.2 d hd⟩
    · rw [hframes.handle]
      exact (nodesAt_removeEach (hinv.erase c.local_id) c.local_id c.recorded s).trans
        (if_pos ⟨hs, honly'⟩)

/-- After the end of a connection no set has it, no set is empty, and the receiver is gone from
every id whose set became empty, exactly if the connection takes the receiver along wherever it was
the only one. -/
theorem teardown_complete_iff {cfg : ForwarderSettings} {setup : List Hub.Event} {hub : Hub}
    {handle : Nat} {events : List Event} {fwd fwd' : Forwarder} {l : UInt32}
    (hhub : Hub.run cfg.board setup = some hub) (hrun : run cfg hub handle events = some fwd)
    (hone : ∀ pre e post before, events = pre ++ e :: post → run cfg hub handle pre = some before →
      e.OneHello l before)
    (hrel : ∀ pre e post before, events = pre ++ e :: post →
      run cfg hub handle pre = some before → e.Releases cfg before)
    (hstep : fwd.step cfg (.disconnect l) = some fwd') :
    ((∀ s, l ∉ Multimap.members s fwd'.subscription_mapping) ∧
      (∀ entry ∈ fwd'.subscription_mapping, entry.2 ≠ []) ∧
      ∀ pre post before s, events = pre ++ post → run cfg hub handle pre = some before →
        s ∈ Assoc.keys before.subscription_mapping → s ∉ Assoc.keys fwd'.subscription_mapping →
        ¬ fwd'.hub.router.Registered s fwd'.handle) ↔
      ∀ s, fwd.Only l s → fwd.hub.router.RemovesAll s fwd.handle := by
  have hinv := inv_run hhub hrun
  have hinv' := hinv.step hstep
  have hrecorded := recorded_run hhub hrun hone
  have hleft : ∀ s, l ∉ Multimap.members s fwd'.subscription_mapping := by
    intro s hmem
    have hfirst : Event.OneHello l fwd (.disconnect l) := trivial
    obtain ⟨c, hfind, -⟩ := hrecorded.step hinv hfirst hstep s hmem
    rw [disconnect_find hstep] at hfind
    simp at hfind
  constructor
  · rintro ⟨-, -, hgone⟩ s honly
    have hkey : s ∈ Assoc.keys fwd.subscription_mapping :=
      hinv.full.mem_keys.mpr (List.ne_nil_of_mem honly.1)
    obtain ⟨hnil, hnodes⟩ := disconnect_only hinv hrecorded honly hstep
    have hnokey : s ∉ Assoc.keys fwd'.subscription_mapping := by
      rw [hinv'.full.mem_keys]
      exact not_not_intro hnil
    have hunregistered := hgone events [] fwd s (List.append_nil _).symm hrun hkey hnokey
    rw [Router.registered_iff hinv'.hub.router.subs, not_not, hnodes] at hunregistered
    exact (Router.left_eq_nil hinv.hub.router).mp hunregistered
  · intro htakes
    refine ⟨hleft, hinv'.full, fun pre post before s heq hbefore hkey hnokey => ?_⟩
    have hrelease : Event.Releases cfg fwd (.disconnect l) := htakes
    have hbacked := (backed_run hhub heq hrun hrel hbefore hkey).step hinv hrelease hstep
    rw [Router.registered_iff hinv'.hub.router.subs]
    intro hnodes
    obtain ⟨d, hd⟩ := hbacked hnodes
    exact hnokey (hinv'.full.mem_keys.mpr (List.ne_nil_of_mem hd))

/-- A node that is no leaf. -/
def nodeSettings : ForwarderSettings := ⟨⟨"node", 3⟩, .plain, false⟩

def helloMessage (name : String) : Publication :=
  (Publication.ofPublisher name "remote_connection" "0").setAttr "subscription_node_id" (.str name)

/-- A peer asks for all publications with `x` equal to 1. -/
def askMessage (name : String) : Publication :=
  subscriptionsAdded name 0 ⟨[.int "x" 1 .EQ false], []⟩ ⟨name, "t", "1"⟩ .default

/-- A peer connects, tells its name and subscribes. -/
def asking : List Event := [.accept, .hello 0 (helloMessage "peer"), .added 0 (askMessage "peer")]

/-- When it leaves, the forwarder unsubscribes. -/
theorem teardown_complete_iff_asking :
    ∃ fwd fwd', run nodeSettings (Hub.init ⟨"node", 3⟩) 1 asking = some fwd ∧
      fwd.step nodeSettings (.disconnect 0) = some fwd' ∧ 18 ∈ Assoc.keys fwd.subscription_mapping ∧
      ¬ fwd'.hub.router.Registered 18 fwd'.handle := by
  obtain ⟨fwd, fwd', hrun, hstep, hkey, hnokey, hnames⟩ : ∃ fwd fwd',
      run nodeSettings (Hub.init ⟨"node", 3⟩) 1 asking = some fwd ∧
      fwd.step nodeSettings (.disconnect 0) = some fwd' ∧
      18 ∈ Assoc.keys fwd.subscription_mapping ∧ 18 ∉ Assoc.keys fwd'.subscription_mapping ∧
      Assoc.find "" fwd.hub.router.peer_node_ids = none :=
        ⟨_, _, rfl, rfl, by decide, by decide, rfl⟩
  have hhub : Hub.run nodeSettings.board [] = some (Hub.init ⟨"node", 3⟩) := rfl
  have hone : ∀ pre e post before, asking = pre ++ e :: post →
      run nodeSettings (Hub.init ⟨"node", 3⟩) 1 pre = some before → e.OneHello 0 before := by
    intro pre e post before heq hpre
    rcases pre with _ | ⟨a, _ | ⟨b, _ | ⟨d, pre⟩⟩⟩
    all_goals simp only [asking, List.cons_append, List.nil_append, List.cons.injEq] at heq
    · obtain ⟨rfl, -⟩ := heq
      trivial
    · obtain ⟨rfl, rfl, -⟩ := heq
      intro _ c hfind _
      rw [← Option.some.inj hpre] at hfind
      rw [← Option.some.inj hfind]
      rfl
    · obtain ⟨rfl, rfl, rfl, -⟩ := heq
      trivial
    · simp at heq
  have hrel : ∀ pre e post before, asking = pre ++ e :: post →
      run nodeSettings (Hub.init ⟨"node", 3⟩) 1 pre = some before →
      e.Releases nodeSettings before := by
    intro pre e post before heq _
    have hmem : e ∈ asking := by
      rw [heq]
      simp
    simp only [asking, List.mem_cons, List.not_mem_nil, or_false] at hmem
    rcases hmem with rfl | rfl | rfl <;> trivial
  have hcomplete := (teardown_complete_iff hhub hrun hone hrel hstep).mpr fun s _ => Or.inl hnames
  exact ⟨fwd, fwd', hrun, hstep, hkey, hcomplete.2.2 asking [] fwd 18 (List.append_nil _).symm hrun
    hkey hnokey⟩

/-- A peer subscribes before it has told its name. When it leaves, its set at 13 is empty, but the
router still lists the receiver there. -/
theorem unnamed_peer_leaves :
    ∃ fwd fwd', run nodeSettings (Hub.init ⟨"node", 3⟩) 1 [.accept, .added 0 (askMessage "peer")] =
      some fwd ∧
      fwd.step nodeSettings (.disconnect 0) = some fwd' ∧ 13 ∈ Assoc.keys fwd.subscription_mapping ∧
      13 ∉ Assoc.keys fwd'.subscription_mapping ∧ fwd'.hub.router.Registered 13 fwd'.handle := by
  refine ⟨_, _, rfl, rfl, by decide, by decide, ?_⟩
  exact ⟨_, List.mem_cons_of_mem _ (List.mem_cons_of_mem _ List.mem_cons_self), rfl, by decide⟩

end Forwarder

end UActor
