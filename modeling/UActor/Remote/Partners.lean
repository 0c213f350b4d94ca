import UActor.Remote.Gateway
import UActor.Remote.Teardown

/-!
# From a node to its partners

A publication may win several subscriptions of one partner. The partner gets it once: the first copy
passes `should_forward`, and takes the stamp to the table of the connection.
-/

namespace UActor

open Router (Leads)

namespace Publication

/-- It comes from the node, and is not about its subscriptions. -/
def comesFrom (p : Publication) (n : String) : Bool :=
  p.getStrAttr "publisher_node_id" = some n && p.getStrAttr "type" ≠ some
    "local_subscription_added" && p.getStrAttr "type" ≠ some "local_subscription_removed"

def stampOf (p : Publication) : SequenceInfo := (p.sequenceInfo 0).getD ⟨0, 0, 0⟩

theorem comesFrom_iff {p : Publication} {n : String} : p.comesFrom n = true ↔
    p.getStrAttr "publisher_node_id" = some n ∧
    p.getStrAttr "type" ≠ some "local_subscription_added" ∧
      p.getStrAttr "type" ≠ some "local_subscription_removed" := by
  simp [comesFrom, and_assoc]

theorem sequenceInfo_stampOf {p : Publication} (h : (p.sequenceInfo 0).isSome = true)
    (now : UInt32) :
    p.sequenceInfo now = some { p.stampOf with last_timestamp := now } := by
  obtain ⟨info, hinfo⟩ := Option.isSome_iff_exists.mp h
  rw [sequenceInfo_now, stampOf, hinfo]
  rfl

end Publication

namespace Gateway

/-- What waits of a publisher under some subscriptions. -/
def waiting (g : Gateway) (n : String) (subs : List Nat) : List Publication :=
  (g.queue.filter fun m => m.1 ∈ subs ∧ m.2.comesFrom n).map Prod.snd

/-- Of what waits, the publications that are newer than all before them. -/
def ahead (g : Gateway) (lane : Lane) (n : String) (subs : List Nat) : List Publication :=
  Watermark.passing SequenceInfo.newer Publication.stampOf
    (Assoc.find n lane.outgoing_sequence_infos) (g.waiting n subs)

/-- One of the subscriptions wins the publication. -/
def Won (g : Gateway) (subs : List Nat) (q : Publication) : Prop :=
  ∃ S ∈ g.forwarder.hub.router.subscriptions, S.subscription_id ∈ subs ∧
    g.forwarder.hub.router.Wins q S

instance (g : Gateway) (subs : List Nat) (q : Publication) : Decidable (g.Won subs q) :=
  inferInstanceAs (Decidable (∃ S ∈ g.forwarder.hub.router.subscriptions, _))

/-- The connection is open, and its subscriptions are these. -/
structure Attends (g : Gateway) (id : UInt32) (X : String) (subs : List Nat) : Prop where
  lane : ∃ lane ∈ Assoc.find id g.lanes, 0 < lane.sock ∧ lane.partner_node_id = X
  listed : ∀ s ∈ subs, id ∈ Multimap.members s g.forwarder.subscription_mapping
  only : ∀ e ∈ g.forwarder.subscription_mapping, id ∈ e.2 → e.1 ∈ subs
  control : g.forwarder.forwarder_subscription_id ∉ subs

/-- It has a stamp, and has not been at the partner. -/
structure Fit (X : String) (p : Publication) : Prop where
  elsewhere : cameThrough X p = some false
  stamped : (p.sequenceInfo 0).isSome = true

/-- It is newer than all that was forwarded to the partner and all that waits for it. -/
structure Fresh (g : Gateway) (id : UInt32) (n X : String) (subs : List Nat) (q : Publication) :
    Prop where
  fit : Fit X q
  forwarded : ∀ lane ∈ Assoc.find id g.lanes, ∀ w ∈ Assoc.find n lane.outgoing_sequence_infos,
    w.newer q.stampOf = true
  waiting : ∀ p ∈ g.waiting n subs, p.stampOf.newer q.stampOf = true

/-- What holds before each step of a phase in which the partner keeps its subscriptions. -/
structure Meets (cfg : ForwarderSettings) (id : UInt32) (n X : String) (subs : List Nat)
    (g : Gateway) (ev : Event) :
    Prop where
  regular : ev.Regular cfg g
  attends : g.Attends id X subs
  fresh : ∀ order seq p, ev = .publish order seq p →
    (Router.stamp cfg.board seq p).1.comesFrom n = true →
    g.Fresh id n X subs (Router.stamp cfg.board seq p).1

/-- The publication, stamped, if it is one of the node and won. -/
def won (cfg : ForwarderSettings) (n : String) (subs : List Nat) (g : Gateway) :
    Event → List Publication
  | .publish _ seq p =>
    if (Router.stamp cfg.board seq p).1.comesFrom n ∧
      g.Won subs (Router.stamp cfg.board seq p).1 then
      [(Router.stamp cfg.board seq p).1]
    else []
  | _ => []

structure Ledger where
  gateway : Gateway
  won : List Publication

def keep (cfg : ForwarderSettings) (build : List UInt8 → Option Publication) (n : String)
    (subs : List Nat) (l : Ledger) (ev : Event) : Option Ledger :=
  (l.gateway.step cfg build ev).map fun g => ⟨g, l.won ++ l.gateway.won cfg n subs ev⟩

section

variable {cfg : ForwarderSettings} {build : List UInt8 → Option Publication} {id : UInt32}
  {n X : String} {subs : List Nat} {g g' : Gateway} {lane lane' : Lane} {p q : Publication}

/-! ## One offer -/

theorem offer_open {send : Send} {now seconds : UInt32}
    (h : lane.offer p send now seconds = some lane') (hsock : 0 < lane.sock) :
    ∃ r, shouldForward lane.partner_node_id lane.outgoing_sequence_infos now p = some r ∧
      lane'.outgoing_sequence_infos = r.1 ∧
      lane'.forwarded = if r.2 then lane.forwarded ++ [p] else lane.forwarded := by
  unfold Lane.offer at h
  rw [if_pos hsock] at h
  obtain ⟨r, hr, h⟩ := Option.bind_eq_some_iff.mp h
  refine ⟨r, hr, ?_⟩
  dsimp only at h
  split at h
  · rename_i hpass
    obtain ⟨buffer, -, rfl⟩ := Option.map_eq_some_iff.mp h
    exact ⟨rfl, (if_pos hpass).symm⟩
  · rename_i hpass
    rw [← Option.some.inj h]
    exact ⟨rfl, (if_neg hpass).symm⟩

theorem offer_other {send : Send} {now seconds : UInt32}
    (h : lane.offer p send now seconds = some lane')
    (hp : p.getStrAttr "publisher_node_id" ≠ some n) :
    lane'.forwarded.filter (·.comesFrom n) = lane.forwarded.filter (·.comesFrom n) ∧
      Assoc.find n lane'.outgoing_sequence_infos = Assoc.find n lane.outgoing_sequence_infos := by
  by_cases hsock : 0 < lane.sock
  · obtain ⟨r, hr, houtgoing, hforwarded⟩ := offer_open h hsock
    constructor
    · rw [hforwarded]
      split
      · have hnot : ¬ p.comesFrom n = true := fun hcomes =>
          hp (Publication.comesFrom_iff.mp hcomes).1
        have hnone : [p].filter (fun p => p.comesFrom n) = [] := List.filter_cons_of_neg hnot
        rw [List.filter_append, hnone, List.append_nil]
      · rfl
    · rw [houtgoing]
      obtain ⟨found, -, rfl⟩ := Option.map_eq_some_iff.mp hr
      split
      · rfl
      · split
        · rename_i publisher info hpublisher _
          rw [Watermark.find_offer, if_neg]
          rintro ⟨rfl, -⟩
          exact hp hpublisher
        · rfl
  · unfold Lane.offer at h
    rw [if_neg hsock] at h
    rw [← Option.some.inj h]
    exact ⟨rfl, rfl⟩

theorem offer_own {send : Send} {now seconds : UInt32}
    (h : lane.offer p send now seconds = some lane') (hsock : 0 < lane.sock)
    (hfit : Fit lane.partner_node_id p) (hp : p.comesFrom n = true) :
    if ((Assoc.find n lane.outgoing_sequence_infos).all fun w => w.newer p.stampOf) = true then
      lane'.forwarded = lane.forwarded ++ [p] ∧
        Assoc.find n lane'.outgoing_sequence_infos = some { p.stampOf with last_timestamp := now }
    else lane'.forwarded = lane.forwarded ∧
      lane'.outgoing_sequence_infos = lane.outgoing_sequence_infos := by
  obtain ⟨r, hr, houtgoing, hforwarded⟩ := offer_open h hsock
  have hpublisher := (Publication.comesFrom_iff.mp hp).1
  unfold shouldForward at hr
  rw [hfit.elsewhere, Option.map_some, if_neg Bool.false_ne_true, hpublisher,
    Publication.sequenceInfo_stampOf hfit.stamped now] at hr
  obtain rfl := Option.some.inj hr
  have hsnd := Watermark.offer_snd SequenceInfo.newer lane.outgoing_sequence_infos n
    { p.stampOf with last_timestamp := now }
  rw [houtgoing, hforwarded, hsnd]
  -- `newer` does not look at the timestamp
  by_cases hpass : ((Assoc.find n lane.outgoing_sequence_infos).all fun w => w.newer p.stampOf) =
    true
  · rw [if_pos hpass]
    refine ⟨if_pos hpass, ?_⟩
    rw [Watermark.find_offer, if_pos ⟨rfl, hsnd.trans hpass⟩]
  · rw [if_neg hpass]
    refine ⟨if_neg hpass, Watermark.offer_of_not_pass ?_⟩
    rw [hsnd]
    exact Bool.eq_false_iff.mpr hpass

/-! ## One step -/

theorem Attends.mem_subs (h : g.Attends id X subs) {s : Nat} :
    id ∈ Multimap.members s g.forwarder.subscription_mapping ↔ s ∈ subs := by
  refine ⟨fun hmem => ?_, h.listed s⟩
  unfold Multimap.members at hmem
  cases hfind : Assoc.find s g.forwarder.subscription_mapping with
  | none =>
    rw [hfind] at hmem
    cases hmem
  | some ids =>
    rw [hfind] at hmem
    exact h.only (s, ids) (Assoc.mem_of_find hfind) hmem

theorem receive_lane {sends : UInt32 → Send} {now seconds : UInt32} {s : Nat} {r : Relay}
    (hsound : Sound cfg g) (hreceive : g.relay.receive s p sends now seconds = some r)
    (hlane : Assoc.find id g.lanes = some lane) (hlane' : Assoc.find id r.remotes = some lane') :
    if g.relay.regular s p = true ∧ id ∈ Multimap.members s g.forwarder.subscription_mapping then
      lane.offer p (sends id) now seconds = some lane'
    else lane' = lane := by
  unfold Relay.receive at hreceive
  split at hreceive
  · rename_i hregular
    obtain ⟨remotes, hloop, rfl⟩ := Option.map_eq_some_iff.mp hreceive
    have heach := Relay.receiveLoop_each (hsound.serves.sets s) (by simp) hloop id
    have hfind : Assoc.find id g.relay.remotes = some lane := hlane
    dsimp only at hlane'
    rw [hlane', hfind] at heach
    by_cases hmem : id ∈ Multimap.members s g.forwarder.subscription_mapping
    · rw [if_pos ⟨hregular, hmem⟩]
      rw [if_pos hmem] at heach
      exact heach.symm
    · rw [if_neg fun hand => hmem hand.2]
      rw [if_neg hmem] at heach
      exact Option.some.inj heach
  · rename_i hregular
    rw [if_neg fun hand => hregular hand.1]
    rw [← Option.some.inj hreceive] at hlane'
    exact Option.some.inj (hlane'.symm.trans hlane)

/-- What will have been forwarded when all that waits is taken. -/
def Due (g : Gateway) (id : UInt32) (n : String) (subs : List Nat) (total : List Publication) :
    Prop :=
  ∀ lane, Assoc.find id g.lanes = some lane →
    lane.forwarded.filter (·.comesFrom n) ++ g.ahead lane n subs = total

/-- A publication enters the queue once for each of the subscriptions that win it. -/
theorem waiting_publish {order : Router.VisitOrder} {seq : UInt32} {ms : List (Nat × Publication)}
    (hsound : Sound cfg g) (hattends : g.Attends id X subs) (hp : p.isScalar = true)
    (hms : g.forwarder.hub.router.received cfg.board g.forwarder.handle order seq p = some ms) :
    ∃ count, Gateway.waiting { g with queue := g.queue ++ ms } n subs =
        g.waiting n subs ++ List.replicate count (Router.stamp cfg.board seq p).1 ∧
      (count = 0 ↔ ¬ ((Router.stamp cfg.board seq p).1.comesFrom n = true ∧
        g.Won subs (Router.stamp cfg.board seq p).1)) := by
  obtain ⟨hsame, hwinner, honce⟩ := hsound.router.orderly.received hp hms
  generalize (Router.stamp cfg.board seq p).1 = q at hsame hwinner honce
  have hcopies : (ms.filter fun m => m.1 ∈ subs ∧ m.2.comesFrom n).map Prod.snd =
      List.replicate (ms.filter fun m => m.1 ∈ subs ∧ m.2.comesFrom n).length q := by
    refine List.eq_replicate_iff.mpr ⟨List.length_map _, fun p' hp' => ?_⟩
    obtain ⟨m, hm, rfl⟩ := List.mem_map.mp hp'
    exact hsame m (List.mem_of_mem_filter hm)
  refine ⟨(ms.filter fun m => m.1 ∈ subs ∧ m.2.comesFrom n).length, ?_, ?_⟩
  · unfold waiting
    rw [List.filter_append, List.map_append, hcopies]
  · rw [List.length_eq_zero_iff, List.filter_eq_nil_iff]
    constructor
    · rintro hnone ⟨hcomes, S, hS, hlisted, hwins⟩
      -- the receiver stands under the subscription, as it has the connection
      have hmembers := List.ne_nil_of_mem (hattends.listed S.subscription_id hlisted)
      have hsubs := hsound.serves.hub.router.subs
      have hnodes := hsound.serves.stands S.subscription_id (hsubs.ids S hS).1 hmembers
      obtain ⟨T, hT, hid, hr⟩ := (Router.registered_iff hsubs _ _).mpr hnodes
      obtain rfl := hsubs.eq_of_id hT hS hid
      have hone := honce T hT hr
      rw [if_pos hwins] at hone
      have hq : q ∈ (ms.filter fun m => m.1 = T.subscription_id).map Prod.snd := by
        rw [hone]
        exact List.mem_singleton_self q
      obtain ⟨m, hm, rfl⟩ := List.mem_map.mp hq
      obtain ⟨hm, hmid⟩ := List.mem_filter.mp hm
      refine hnone m hm (decide_eq_true ⟨?_, hcomes⟩)
      rw [of_decide_eq_true hmid]
      exact hlisted
    · intro hnot m hm hmine
      obtain ⟨hlisted, hcomes⟩ := of_decide_eq_true hmine
      obtain ⟨S, hS, hid, hwins⟩ := hwinner m hm
      rw [hsame m hm] at hcomes
      exact hnot ⟨hcomes, S, hS, hid ▸ hlisted, hwins⟩

theorem won_of_other {ev : Event} (hev : ∀ order seq p, ev ≠ .publish order seq p) :
    g.won cfg n subs ev = [] := by
  cases ev with
  | publish order seq p => exact absurd rfl (hev order seq p)
  | _ => rfl

theorem due_publish {order : Router.VisitOrder} {seq : UInt32} {ms : List (Nat × Publication)}
    {total : List Publication} (hsound : Sound cfg g)
    (hmeets : Meets cfg id n X subs g (.publish order seq p))
    (hms : g.forwarder.hub.router.received cfg.board g.forwarder.handle order seq p = some ms)
    (hdue : Due g id n subs total) :
    Due { g with queue := g.queue ++ ms } id n subs
      (total ++ g.won cfg n subs (.publish order seq p)) := by
  intro lane hlane
  obtain ⟨count, hwaiting, hcount⟩ := waiting_publish (n := n) hsound hmeets.attends
    hmeets.regular hms
  have hold := hdue lane hlane
  unfold ahead at hold ⊢
  unfold won
  dsimp only at hlane ⊢
  by_cases hcomes : (Router.stamp cfg.board seq p).1.comesFrom n = true
  · have hfresh := hmeets.fresh order seq p rfl hcomes
    rw [hwaiting, Watermark.passing_newest SequenceInfo.newer_weak.irrefl
      (hfresh.forwarded lane hlane) hfresh.waiting, ← List.append_assoc, hold]
    simp only [hcount, ite_not]
  · have hzero : count = 0 := hcount.mpr fun hand => hcomes hand.1
    rw [hwaiting, hzero, List.replicate_zero, List.append_nil, hold, if_neg fun hand =>
      hcomes hand.1, List.append_nil]

theorem due_receive {sends : UInt32 → Send} {now seconds : UInt32} {s : Nat}
    {rest : List (Nat × Publication)} {r : Relay} {total : List Publication} (hsound : Sound cfg g)
    (hattends : g.Attends id X subs) (hfit : ∀ p ∈ g.waiting n subs, Fit X p)
    (hqueue : g.queue = (s, p) :: rest) (hreceive : g.relay.receive s p sends now seconds = some r)
    (hdue : Due g id n subs total) :
    Due { g with lanes := r.remotes, queue := rest } id n subs total := by
  intro lane' hlane'
  obtain ⟨lane, hlane, hsock, rfl⟩ := hattends.lane
  have hoffered := receive_lane hsound hreceive hlane hlane'
  have hold := hdue lane hlane
  unfold ahead waiting at hold ⊢
  unfold waiting at hfit
  rw [hqueue] at hold hfit
  dsimp only at hold ⊢
  by_cases hmine : s ∈ subs ∧ p.comesFrom n = true
  · rw [List.filter_cons_of_pos (by simpa using hmine), List.map_cons] at hold hfit
    have hp := hfit p List.mem_cons_self
    have hregular : g.relay.regular s p = true := by
      have hne : s ≠ g.forwarder.forwarder_subscription_id := fun heq =>
        hattends.control (heq ▸ hmine.1)
      obtain ⟨-, hadded, hremoved⟩ := Publication.comesFrom_iff.mp hmine.2
      simp [Relay.regular, relay, hne, hadded, hremoved]
    rw [if_pos ⟨hregular, hattends.listed s hmine.1⟩] at hoffered
    have hown := offer_own hoffered hsock hp hmine.2
    rw [Watermark.passing] at hold
    split at hown
    · rename_i hpass
      rw [if_pos hpass] at hold
      have hmark : ∀ items, Watermark.passing SequenceInfo.newer Publication.stampOf
          (some { p.stampOf with last_timestamp := now }) items =
            Watermark.passing SequenceInfo.newer Publication.stampOf (some p.stampOf) items :=
        Watermark.passing_congr fun _ => rfl
      rw [hown.1, hown.2, hmark, List.filter_append, List.filter_cons_of_pos
        (by simpa using hmine.2), List.filter_nil, List.append_assoc, List.singleton_append]
      exact hold
    · rename_i hpass
      rw [if_neg hpass] at hold
      rw [hown.1, hown.2]
      exact hold
  · rw [List.filter_cons_of_neg (by simpa using hmine)] at hold
    split at hoffered
    · rename_i hmem
      have hother : p.getStrAttr "publisher_node_id" ≠ some n := by
        intro hpublisher
        have hordinary := hmem.1
        simp only [Relay.regular, Bool.and_eq_true, decide_eq_true_eq] at hordinary
        exact hmine ⟨hattends.mem_subs.mp hmem.2,
          Publication.comesFrom_iff.mpr ⟨hpublisher, hordinary.1.2, hordinary.2⟩⟩
      obtain ⟨hforwarded, hmark⟩ := offer_other hoffered hother
      rw [hforwarded, hmark]
      exact hold
    · rw [hoffered]
      exact hold

theorem due_rests {total : List Publication} (hattends : g.Attends id X subs)
    (hrests : Rests cfg build g g') (hdue : Due g id n subs total) : Due g' id n subs total := by
  intro lane' hlane'
  obtain ⟨lane, hlane, -⟩ := hattends.lane
  obtain ⟨hforwarded, houtgoing⟩ := hrests.keeps id lane lane' hlane hlane'
  have hold := hdue lane hlane
  unfold ahead waiting at hold ⊢
  rw [hforwarded, houtgoing, hrests.queue]
  exact hold

/-! ## A phase -/

structure Kept (cfg : ForwarderSettings) (id : UInt32) (n X : String) (subs : List Nat)
    (first : List Publication) (l : Ledger) : Prop where
  sound : Sound cfg l.gateway
  fit : ∀ p ∈ l.gateway.waiting n subs, Fit X p
  due : Due l.gateway id n subs (first ++ l.won)

theorem Kept.step {first : List Publication} {l l' : Ledger} {ev : Event}
    (h : Kept cfg id n X subs first l) (hmeets : Meets cfg id n X subs l.gateway ev)
    (hstep : keep cfg build n subs l ev = some l') :
    Kept cfg id n X subs first l' := by
  obtain ⟨g', hnext, rfl⟩ := Option.map_eq_some_iff.mp hstep
  have hstep := step_cases hnext hmeets.regular
  refine ⟨h.sound.step hmeets.regular hnext, fun p' hp' => ?_, ?_⟩
  · cases hstep with
    | publish order seq p ms hms =>
      obtain ⟨count, hwaiting, hcount⟩ := waiting_publish (n := n) h.sound hmeets.attends
        hmeets.regular hms
      rw [hwaiting] at hp'
      rcases List.mem_append.mp hp' with hp' | hp'
      · exact h.fit p' hp'
      · obtain ⟨hne, rfl⟩ := List.mem_replicate.mp hp'
        have hcomes := (not_not.mp (mt hcount.mpr hne)).1
        exact (hmeets.fresh order seq p rfl hcomes).fit
    | idle => exact h.fit p' hp'
    | receive sends now seconds s p rest r hqueue =>
      refine h.fit p' (List.Sublist.subset (List.Sublist.map _ (List.Sublist.filter _ ?_)) hp')
      rw [hqueue]
      exact List.sublist_cons_self _ _
    | other _ _ _ hrests =>
      unfold waiting at hp'
      rw [hrests.queue] at hp'
      exact h.fit p' hp'
  · show Due g' id n subs (first ++ (l.won ++ l.gateway.won cfg n subs ev))
    rw [← List.append_assoc]
    cases hstep with
    | publish order seq p ms hms => exact due_publish h.sound hmeets hms h.due
    | idle =>
      rw [won_of_other (by simp), List.append_nil]
      exact h.due
    | receive sends now seconds s p rest r hqueue hreceive =>
      rw [won_of_other (by simp), List.append_nil]
      exact due_receive h.sound hmeets.attends h.fit hqueue hreceive h.due
    | other _ _ hev hrests =>
      rw [won_of_other hev, List.append_nil]
      exact due_rests hmeets.attends hrests h.due

/-- A partner gets what its subscriptions win, each publication once and in the order of
publication: what was forwarded of a publisher is a part of what was before, what is to come of what
waited then, and what was won, and all of it when nothing waits. -/
theorem partner_gets_each {before : List Hub.Event} {hub : Hub} {handle : Nat} {g₀ : Gateway}
    {events later : List Event} {l : Ledger} (hhub : Hub.run cfg.board before = some hub)
    (hbefore : ∀ ev ∈ before, ev.Asks Router.Regular) (hcreate : create cfg hub handle = some g₀)
    (hrun : events.foldlM (step cfg build) g₀ = some g)
    (hregular : ∀ pre ev post g', events = pre ++ ev :: post →
      pre.foldlM (step cfg build) g₀ = some g' →
      ev.Regular cfg g')
    (hlane : Assoc.find id g.lanes = some lane) (hwaiting : ∀ p ∈ g.waiting n subs, Fit X p)
    (hlater : later.foldlM (keep cfg build n subs) ⟨g, []⟩ = some l)
    (hmeets : ∀ pre ev post l', later = pre ++ ev :: post → pre.foldlM (keep cfg build n subs)
      ⟨g, []⟩ = some l' →
      Meets cfg id n X subs l'.gateway ev)
    (hlane' : Assoc.find id l.gateway.lanes = some lane') :
    lane'.forwarded.filter (·.comesFrom n) <+:
        lane.forwarded.filter (·.comesFrom n) ++ g.ahead lane n subs ++ l.won ∧
      (l.gateway.waiting n subs = [] → lane'.forwarded.filter (·.comesFrom n) =
        lane.forwarded.filter (·.comesFrom n) ++ g.ahead lane n subs ++ l.won) := by
  have hsound := (relay_run hhub hbefore hcreate hrun hregular).1
  have hstart : Kept cfg id n X subs (lane.forwarded.filter (·.comesFrom n) ++ g.ahead lane n subs)
      ⟨g, []⟩ := by
    refine ⟨hsound, hwaiting, fun lane₁ hlane₁ => ?_⟩
    obtain rfl := Option.some.inj (hlane.symm.trans hlane₁)
    exact (List.append_nil _).symm
  have hkept := Runs.invariant_of
    (Kept cfg id n X subs (lane.forwarded.filter (·.comesFrom n) ++ g.ahead lane n subs))
    (fun l ev => Meets cfg id n X subs l.gateway ev) hstart (fun _ _ _ h hev hstep =>
      h.step hev hstep) hmeets hlater
  have hdue := hkept.due lane' hlane'
  refine ⟨⟨_, hdue⟩, fun hnone => ?_⟩
  rw [ahead, hnone] at hdue
  rw [← hdue]
  exact (List.append_nil _).symm

end

/-! ## A run -/

open Forwarder (nodeSettings helloMessage)

def asks (f : Filter) : Publication := RemoteConnection.subscriptionsAdded "peer" 0 f
    ⟨"peer", "t", "1"⟩ .default

/-- A peer connects and asks for pings, and for all that this node publishes. -/
def twice : List Event :=
  [.accept 5 1, .hello 0 (helloMessage "peer"),
    .added 0 (asks ⟨[.str "type" "ping" .EQ false], []⟩),
    .added 0 (asks ⟨[.str "publisher_node_id" "node" .EQ false], []⟩)]

/-- Five that the connection makes for itself, and those two. -/
def peerSubscriptions : List Nat := [13, 14, 15, 16, 17, 18, 19]

def pingFrom (sender : String) : Publication :=
  (Publication.ofPublisher "node" sender "1").setAttr "type" (.str "ping")

/-- Two copies of a ping wait. -/
def joined : List Event := twice ++ [.publish .plain 1 (pingFrom "first")]

/-- Another ping comes, and all copies are taken. -/
def pinged : List Event :=
  [.publish .plain 2 (pingFrom "second"), .receive (fun _ => TCPForwarder.sendUpTo 1000) 9 2,
    .receive (fun _ => TCPForwarder.sendUpTo 1000) 9 2,
    .receive (fun _ => TCPForwarder.sendUpTo 1000) 9 2,
    .receive (fun _ => TCPForwarder.sendUpTo 1000) 9 2]

set_option maxRecDepth 8192 in
theorem partner_gets_each_twice :
    ∃ g₀ g l lane lane', create nodeSettings (Hub.init ⟨"node", 3⟩) 1 = some g₀ ∧
      joined.foldlM (step nodeSettings fun _ => none) g₀ = some g ∧
      pinged.foldlM (keep nodeSettings (fun _ => none) "node" peerSubscriptions) ⟨g, []⟩ = some l ∧
      Assoc.find 0 g.lanes = some lane ∧ Assoc.find 0 l.gateway.lanes = some lane' ∧
      (g.waiting "node" peerSubscriptions).length = 2 ∧
      (g.ahead lane "node" peerSubscriptions).length = 1 ∧
      l.gateway.waiting "node" peerSubscriptions = [] ∧ l.won.length = 1 ∧
      lane'.forwarded.filter (·.comesFrom "node") =
        lane.forwarded.filter (·.comesFrom "node") ++ g.ahead lane "node" peerSubscriptions ++
          l.won := by
  obtain ⟨g₀, g, l, lane, lane', hcreate, hrun, hlater, hlane, hlane', hwaiting, htwo, hahead,
      hnone, hone, hregular, hmeets⟩ :
      ∃ g₀ g l lane lane', create nodeSettings (Hub.init ⟨"node", 3⟩) 1 = some g₀ ∧
        joined.foldlM (step nodeSettings fun _ => none) g₀ = some g ∧
        pinged.foldlM (keep nodeSettings (fun _ => none) "node" peerSubscriptions) ⟨g, []⟩ =
          some l ∧
        Assoc.find 0 g.lanes = some lane ∧ Assoc.find 0 l.gateway.lanes = some lane' ∧
        (∀ p ∈ g.waiting "node" peerSubscriptions, Fit "peer" p) ∧
        (g.waiting "node" peerSubscriptions).length = 2 ∧
        (g.ahead lane "node" peerSubscriptions).length = 1 ∧
        l.gateway.waiting "node" peerSubscriptions = [] ∧ l.won.length = 1 ∧
        (∀ pre ev post g', joined = pre ++ ev :: post →
          pre.foldlM (step nodeSettings fun _ => none) g₀ = some g' → ev.Regular nodeSettings g') ∧
        ∀ pre ev post l', pinged = pre ++ ev :: post →
          pre.foldlM (keep nodeSettings (fun _ => none) "node" peerSubscriptions) ⟨g, []⟩ =
            some l' →
          Meets nodeSettings 0 "node" "peer" peerSubscriptions l'.gateway ev := by
    refine ⟨_, _, _, _, _, rfl, rfl, rfl, rfl, rfl, ?_, rfl, rfl, rfl, rfl, ?_, ?_⟩
    · intro p hp
      obtain rfl | hp := List.mem_cons.mp hp
      · exact ⟨by decide, by decide⟩
      · obtain rfl := List.mem_singleton.mp hp
        exact ⟨by decide, by decide⟩
    · exact Runs.meets_cons rfl trivial
        (Runs.meets_cons rfl trivial
          (Runs.meets_cons rfl (by decide)
            (Runs.meets_cons rfl (by decide) (Runs.meets_cons rfl (by decide) Runs.meets_nil))))
    · refine Runs.meets_cons rfl
        ⟨by decide, ⟨⟨_, rfl, by decide, rfl⟩, by decide, by decide, by decide⟩, ?_⟩ ?_
      · intro order seq p heq _
        obtain ⟨rfl, rfl, rfl⟩ := Event.publish.inj heq
        exact ⟨⟨by decide, by decide⟩, by decide, by decide⟩
      · refine Runs.meets_cons rfl ?_ (Runs.meets_cons rfl ?_
          (Runs.meets_cons rfl ?_ (Runs.meets_cons rfl ?_ Runs.meets_nil)))
        all_goals
          exact ⟨trivial, ⟨⟨_, rfl, by decide, rfl⟩, by decide, by decide, by decide⟩, by simp⟩
  have hhub : Hub.run nodeSettings.board [] = some (Hub.init ⟨"node", 3⟩) := rfl
  have heach := partner_gets_each hhub (by simp) hcreate hrun hregular hlane hwaiting hlater
    hmeets hlane'
  exact ⟨g₀, g, l, lane, lane', hcreate, hrun, hlater, hlane, hlane', htwo, hahead, hnone, hone,
    heach.2 hnone⟩

end Gateway

end UActor
