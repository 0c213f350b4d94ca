import UActor.PubSub.Codec
import UActor.PubSub.Faults
import UActor.Remote.Forwarder
import UActor.Remote.Ingress

/-!
# Malformed publications

`process_remote_publication` with all of its handlers, for publications with any attributes of any
types. Presence is checked with `has_attr`, but values are read as strings.
-/

namespace UActor

open Fault RemoteConnection

/-- What all connections of a node share. -/
structure PeerSettings extends ForwarderSettings where
  clusters : List (List String)
  local_location_labels : List (String × String)
  cluster : String

/-- A connection, with the forwarder and the shared table of stamps. -/
structure PeerState where
  forwarder : Forwarder
  connection : RemoteConnection
  partner_location_labels : List (String × String)
  peer_cluster : String
  egress_subscription_processors : List Processor
  incomming_sequence_infos : SequenceInfos

namespace PeerState

variable (cfg : PeerSettings)

def link (st : PeerState) : Link :=
  ⟨st.connection.partner_node_id, cfg.clusters, cfg.local_location_labels,
    st.partner_location_labels⟩

/-! ## Hello -/

/-- The labels of the partner that a hello has. -/
def readLabels (p : Publication) (labels : List (String × String)) :
    Except Fault (List (String × String)) :=
  cfg.clusters.flatten.foldlM (fun labels label =>
    if p.hasAttr label then (deref (p.getStrAttr label)).map fun v => Assoc.put label v labels
    else .ok labels) labels

/-- `handle_remote_hello`. The snapshot goes through the processors. -/
def handleRemoteHello (st : PeerState) (p : Publication) : Except Fault PeerState :=
  (deref (p.getStrAttr "subscription_node_id")).bind fun new_partner_id =>
    if st.connection.partner_node_id ≠ "" then .ok st
    else
      (readLabels cfg p st.partner_location_labels).bind fun labels =>
        let peer_cluster := (p.getStrAttr "cluster").getD st.peer_cluster
        let greeted := st.forwarder.handleRemoteHello cfg.toForwarderSettings st.connection
          new_partner_id
        let h : Hello := ⟨cfg.board.NODE_ID, cfg.clusters, cfg.local_location_labels, labels,
          cfg.cluster, peer_cluster⟩
        let lists := greeted.1.hub.router.subscriptionListsFor cfg.board new_partner_id egressChain
          (some (st.egress_subscription_processors ++ h.egressProcessors)) 5
        (orThrow lists.2.1).map fun processors =>
          { st with
            forwarder := greeted.1
            connection := greeted.2
            partner_location_labels := labels
            peer_cluster := peer_cluster
            egress_subscription_processors := processors }

/-! ## Subscriptions -/

/-- What the loops find at the numbers of a list of subscriptions. -/
def listed (p : Publication) : List (Option Map) :=
  match p.attributes.getNestedComponent "subscriptions" with
  | none => []
  | some subscription_list =>
    (List.range subscription_list.length).map fun i => subscription_list.getNestedComponent
      (toString i)

/-- The filter, the arguments and the subscriber of a new subscription, if all three are there. -/
def addedParts (m : Map) : Option (Map × Map × Map) :=
  match m.getNestedComponent "subscription", m.getNestedComponent "subscription_arguments",
    m.getNestedComponent "subscriber" with
  | some subscription_raw, some arguments_raw, some subscriber_raw =>
    some (subscription_raw, arguments_raw, subscriber_raw)
  | _, _, _ => none

/-- The filter and the arguments of a subscription that is taken back. -/
def removedParts (m : Map) : Option (Map × Map) :=
  match m.getNestedComponent "subscription", m.getNestedComponent "subscription_arguments" with
  | some filter_raw, some arguments_raw => some (filter_raw, arguments_raw)
  | _, _ => none

/-- The body of the loop of `handle_remote_subscriptions_added`. -/
def addedEntry (st : Forwarder × RemoteConnection) :
    Option Map → Except Fault (Forwarder × RemoteConnection)
  | none => .ok st
  | some current_sub_map =>
    match addedParts current_sub_map with
    | none => .ok st
    | some (subscription_raw, arguments_raw, subscriber_raw) =>
      (Filter.readPublicationMap cfg.order subscription_raw).bind fun f =>
        match ActorIdentifier.fromPublicationMap subscriber_raw with
        | none => .ok st
        | some subscriber =>
          let arguments := SubscriptionArguments.fromMap arguments_raw
          (orThrow (processIngress st.2.ingress_subscription_processors f arguments)).map fun r =>
            let st := (st.1, { st.2 with ingress_subscription_processors := r.1 })
            if r.2.2 then st else Forwarder.addEntry cfg.toForwarderSettings st
              (r.2.1, subscriber, arguments)

/-- The body of the loop of `handle_remote_subscriptions_removed`. -/
def removedEntry (st : Forwarder × RemoteConnection) :
    Option Map → Except Fault (Forwarder × RemoteConnection)
  | none => .ok st
  | some current_subscription_map =>
    match removedParts current_subscription_map with
    | none => .ok st
    | some (filter_raw, arguments_raw) =>
      (Filter.readPublicationMap cfg.order filter_raw).bind fun f =>
        let arguments := SubscriptionArguments.fromMap arguments_raw
        (orThrow (processIngressRemoved st.2.ingress_subscription_processors f arguments)).map
          fun r =>
          let st := (st.1, { st.2 with ingress_subscription_processors := r.1 })
          if r.2.2 then st else Forwarder.removeEntry cfg.toForwarderSettings st (r.2.1, arguments)

def handleEntries (entry : Forwarder × RemoteConnection → Option Map →
    Except Fault (Forwarder × RemoteConnection)) (st : PeerState) (p : Publication) :
    Except Fault PeerState :=
  ((listed p).foldlM entry (st.forwarder, st.connection)).map fun r =>
    { st with forwarder := r.1, connection := r.2 }

/-! ## Publications -/

/-- The handlers, with what is passed to `Router::publish`. -/
def handle (st : PeerState) : Link.Outcome → Except Fault (PeerState × Option Publication)
  | .drop => .ok (st, none)
  | .remoteHello p => (st.handleRemoteHello cfg p).map fun st => (st, none)
  | .remoteSubscriptionsAdded p => (st.handleEntries (addedEntry cfg) p).map fun st => (st, none)
  | .remoteSubscriptionsRemoved p => (st.handleEntries (removedEntry cfg) p).map fun st =>
      (st, none)
  | .publish p => .ok (st, some p)

/-- `RemoteConnection::process_remote_publication`. -/
def processRemotePublication (st : PeerState) (now : UInt32) (p : Publication) :
    Except Fault (PeerState × Option Publication) :=
  (deref ((st.link cfg).processRemotePublication cfg.board st.incomming_sequence_infos now p)).bind
    fun r =>
    { st with incomming_sequence_infos := r.1 }.handle cfg r.2

/-! ## Against the forwarder

A loop that ends has done to the forwarder what `Forwarder.step` does.
-/

def setIngress (ps : List Processor) (s : Forwarder × RemoteConnection) :
    Forwarder × RemoteConnection :=
  (s.1, { s.2 with ingress_subscription_processors := ps })

section

variable {β γ : Type} (process : List Processor → β → Option (List Processor × Filter × Bool))
  (out : Filter → β → γ) {apply : Forwarder × RemoteConnection → γ → Forwarder × RemoteConnection}
  (happly : ∀ ps s e, apply (setIngress ps s) e = setIngress ps (apply s e))

include happly

theorem foldl_setIngress (acc : List γ) (ps : List Processor) (s : Forwarder × RemoteConnection) :
    acc.foldl apply (setIngress ps s) = setIngress ps (acc.foldl apply s) := by
  induction acc generalizing s with
  | nil => rfl
  | cons e acc ih => rw [List.foldl_cons, List.foldl_cons, happly, ih]

theorem foldlM_processed (entries : List β) (ps : List Processor) (acc : List γ)
    (s : Forwarder × RemoteConnection) :
    (entries.foldlM (fun st e => (process st.1 e).map fun r =>
        (r.1, if r.2.2 then st.2 else st.2 ++ [out r.2.1 e])) (ps, acc)).map
      (fun r => r.2.foldl apply (setIngress r.1 s)) =
    entries.foldlM (fun s e => (process s.2.ingress_subscription_processors e).map fun r =>
      if r.2.2 then setIngress r.1 s else apply (setIngress r.1 s) (out r.2.1 e))
      (acc.foldl apply (setIngress ps s)) := by
  induction entries generalizing ps acc with
  | nil => rfl
  | cons e entries ih =>
    rw [List.foldlM_cons, List.foldlM_cons, foldl_setIngress happly]
    show Option.map _ (Option.bind (Option.map _ (process ps e)) _) =
        Option.bind (Option.map _ (process ps e)) _
    cases process ps e with
    | none => rfl
    | some r =>
      obtain ⟨ps', f, skip⟩ := r
      refine (ih ps' _).trans ?_
      rw [foldl_setIngress happly]
      cases skip with
      | true => rfl
      | false =>
        simp only [Bool.false_eq_true, if_false, Option.map_some, Option.bind_some,
          List.foldl_append, List.foldl_cons, List.foldl_nil, ← happly]
        rfl

end

theorem foldlM_entries {β : Type} {read : Map → Option β}
    {entry : Forwarder × RemoteConnection → Option Map →
      Except Fault (Forwarder × RemoteConnection)}
    {one : Forwarder × RemoteConnection → β → Option (Forwarder × RemoteConnection)}
    (hentry : ∀ s m s', entry s m = .ok s' → (m.bind read).elim (some s) (one s) = some s')
    {entries : List (Option Map)} {s s' : Forwarder × RemoteConnection}
    (h : entries.foldlM entry s = .ok s') :
    (entries.filterMap fun m => m.bind read).foldlM one s = some s' := by
  induction entries generalizing s with
  | nil => rw [Except.ok.inj h]; rfl
  | cons m entries ih =>
    rw [List.foldlM_cons] at h
    cases hfirst : entry s m with
    | error e =>
      rw [hfirst] at h
      simp [bind, Except.bind] at h
    | ok s₁ =>
      rw [hfirst] at h
      have hm := hentry s m s₁ hfirst
      cases hread : m.bind read with
      | none =>
        rw [hread] at hm
        rw [List.filterMap_cons, hread, Option.some.inj hm]
        exact ih h
      | some e =>
        rw [hread] at hm
        rw [List.filterMap_cons, hread, List.foldlM_cons]
        show Option.bind (one s e) _ = _
        rw [show one s e = some s₁ from hm]
        exact ih h

theorem readEntry_parts (order : MapOrder) (m : Map) :
    readEntry order m = (addedParts m).bind fun parts =>
    (Filter.fromPublicationMap order parts.1).bind fun f =>
      (ActorIdentifier.fromPublicationMap parts.2.2).map fun subscriber =>
        (f, subscriber, SubscriptionArguments.fromMap parts.2.1) := by
  unfold readEntry addedParts
  cases m.getNestedComponent "subscription" <;> cases m.getNestedComponent
    "subscription_arguments" <;> cases m.getNestedComponent "subscriber" <;> rfl

theorem readRemovedEntry_parts (order : MapOrder) (m : Map) :
    readRemovedEntry order m = (removedParts m).bind fun parts =>
      (Filter.fromPublicationMap order parts.1).map fun f =>
        (f, SubscriptionArguments.fromMap parts.2) := by
  unfold readRemovedEntry removedParts
  cases m.getNestedComponent "subscription" <;> cases m.getNestedComponent
    "subscription_arguments" <;> rfl

theorem addedEntry_ok (s : Forwarder × RemoteConnection) (m : Option Map)
    (s' : Forwarder × RemoteConnection) (h : addedEntry cfg s m = .ok s') :
    (m.bind (readEntry cfg.order)).elim (some s) (fun e =>
      (processIngress s.2.ingress_subscription_processors e.1 e.2.2).map fun r =>
        if r.2.2 then setIngress r.1 s
        else Forwarder.addEntry cfg.toForwarderSettings (setIngress r.1 s) (r.2.1, e.2)) =
          some s' := by
  cases m with
  | none => exact congrArg some (Except.ok.inj h)
  | some m =>
    unfold addedEntry at h
    rw [Option.bind_some, readEntry_parts]
    cases hparts : addedParts m with
    | none =>
      simp only [hparts] at h
      exact congrArg some (Except.ok.inj h)
    | some parts =>
      simp only [hparts] at h
      have h := congrArg Except.toOption h
      simp only [toOption_bind, Filter.readPublicationMap_toOption] at h
      obtain ⟨f, hf, h⟩ := Option.bind_eq_some_iff.mp h
      rw [Option.bind_some, hf, Option.bind_some]
      cases hsub : ActorIdentifier.fromPublicationMap parts.2.2 with
      | none =>
        rw [hsub] at h
        exact h
      | some subscriber =>
        rw [hsub] at h
        simp only [toOption_map, toOption_orThrow] at h
        exact h

theorem removedEntry_ok (s : Forwarder × RemoteConnection) (m : Option Map)
    (s' : Forwarder × RemoteConnection) (h : removedEntry cfg s m = .ok s') :
    (m.bind (readRemovedEntry cfg.order)).elim (some s) (fun e =>
      (processIngressRemoved s.2.ingress_subscription_processors e.1 e.2).map fun r =>
        if r.2.2 then setIngress r.1 s
        else Forwarder.removeEntry cfg.toForwarderSettings (setIngress r.1 s) (r.2.1, e.2)) =
          some s' := by
  cases m with
  | none => exact congrArg some (Except.ok.inj h)
  | some m =>
    unfold removedEntry at h
    rw [Option.bind_some, readRemovedEntry_parts]
    cases hparts : removedParts m with
    | none =>
      simp only [hparts] at h
      exact congrArg some (Except.ok.inj h)
    | some parts =>
      simp only [hparts] at h
      have h := congrArg Except.toOption h
      simp only [toOption_bind, Filter.readPublicationMap_toOption, toOption_map,
        toOption_orThrow] at h
      obtain ⟨f, hf, h⟩ := Option.bind_eq_some_iff.mp h
      rw [Option.bind_some, hf]
      exact h

theorem handleEntries_ok {entry : Forwarder × RemoteConnection → Option Map →
    Except Fault (Forwarder × RemoteConnection)}
    {st st' : PeerState} {p : Publication} (h : st.handleEntries entry p = .ok st') :
    (listed p).foldlM entry (st.forwarder, st.connection) =
      .ok (st'.forwarder, st'.connection) := by
  unfold handleEntries at h
  cases hrun : (listed p).foldlM entry (st.forwarder, st.connection) with
  | error e =>
    rw [hrun] at h
    simp [Except.map] at h
  | ok s =>
    rw [hrun] at h
    rw [← Except.ok.inj h]

theorem handleEntries_added {st st' : PeerState} {p : Publication}
    (h : st.handleEntries (addedEntry cfg) p = .ok st') :
    st.forwarder.handleRemoteSubscriptionsAdded cfg.toForwarderSettings st.connection p =
      some (st'.forwarder, st'.connection) := by
  have hloop := foldlM_entries (addedEntry_ok cfg) (handleEntries_ok h)
  have happly : ∀ ps s e, Forwarder.addEntry cfg.toForwarderSettings (setIngress ps s) e =
      setIngress ps (Forwarder.addEntry cfg.toForwarderSettings s e) := fun _ _ _ => rfl
  unfold Forwarder.handleRemoteSubscriptionsAdded remoteSubscriptions
  unfold listed at hloop
  cases hsubs : p.attributes.getNestedComponent "subscriptions" with
  | none =>
    rw [hsubs] at hloop
    exact hloop
  | some subscription_list =>
    rw [hsubs, List.filterMap_map] at hloop
    have hphases := foldlM_processed
      (fun ps (e : Filter × ActorIdentifier × SubscriptionArguments) =>
      processIngress ps e.1 e.2.2) (fun f e => (f, e.2)) happly
        (readSubscriptions cfg.order subscription_list)
      st.connection.ingress_subscription_processors [] (st.forwarder, st.connection)
    exact hphases.trans hloop

theorem handleEntries_removed {st st' : PeerState} {p : Publication}
    (h : st.handleEntries (removedEntry cfg) p = .ok st') :
    st.forwarder.handleRemoteSubscriptionsRemoved cfg.toForwarderSettings st.connection p =
      some (st'.forwarder, st'.connection) := by
  have hloop := foldlM_entries (removedEntry_ok cfg) (handleEntries_ok h)
  have happly : ∀ ps s e, Forwarder.removeEntry cfg.toForwarderSettings (setIngress ps s) e =
      setIngress ps (Forwarder.removeEntry cfg.toForwarderSettings s e) := fun _ _ _ => rfl
  unfold Forwarder.handleRemoteSubscriptionsRemoved removedSubscriptions
  unfold listed at hloop
  cases hsubs : p.attributes.getNestedComponent "subscriptions" with
  | none =>
    rw [hsubs] at hloop
    exact hloop
  | some subscription_list =>
    rw [hsubs, List.filterMap_map] at hloop
    have hphases := foldlM_processed (fun ps (e : Filter × SubscriptionArguments) =>
      processIngressRemoved ps e.1 e.2) (fun f e => (f, e.2)) happly
      ((List.range subscription_list.length).filterMap fun i =>
        (subscription_list.getNestedComponent (toString i)).bind (readRemovedEntry cfg.order))
      st.connection.ingress_subscription_processors [] (st.forwarder, st.connection)
    exact hphases.trans hloop

/-! ## What a message needs -/

/-- If the attribute is there, then it is a string. -/
def Named (p : Publication) (attr : String) : Prop :=
  p.hasAttr attr = true → ∃ value, p.getStrAttr attr = some value

/-- The message has a publisher other than this node, and its stamp is new. -/
def Accepted (st : PeerState) (now : UInt32) (p : Publication) : Prop :=
  p.hasAttr "publisher_node_id" = true ∧ p.getStrAttr "publisher_node_id" ≠ some cfg.board.NODE_ID ∧
    ∃ infos, shouldAccept st.incomming_sequence_infos now p = some (infos, true)

/-- The entry has no filter, no arguments or no subscriber. -/
def AddedIncomplete (m : Option Map) : Prop :=
  ∀ m' filter_raw arguments_raw subscriber_raw, m = some m' →
    addedParts m' = some (filter_raw, arguments_raw, subscriber_raw) →
    ActorIdentifier.fromPublicationMap subscriber_raw = none

def RemovedIncomplete (m : Option Map) : Prop := ∀ m', m = some m' → removedParts m' = none

/-- The message is for a handler that needs more than the message has. -/
def LacksField (p : Publication) : Prop :=
  (p.getStrAttr "type" = some "subscription_update" ∧ p.getStrAttr "subscription_node_id" = none) ∨
    (p.getStrAttr "type" = some "subscriptions_added" ∧ ∀ m ∈ listed p, AddedIncomplete m) ∨
    (p.getStrAttr "type" = some "subscriptions_removed" ∧ ∀ m ∈ listed p, RemovedIncomplete m)

/-- The filters of the entries that the loop comes to have only descriptions that give a
constraint. -/
def EntriesDescribed (filterOf : Map → Option Map)
    (entry : Forwarder × RemoteConnection → Option Map →
      Except Fault (Forwarder × RemoteConnection))
    (st : PeerState) (p : Publication) : Prop :=
  ∀ pre m post s filter_raw, listed p = pre ++ some m :: post →
    pre.foldlM entry (st.forwarder, st.connection) = .ok s → filterOf m = some filter_raw →
    Filter.Described cfg.order filter_raw

/-- The handler of the message reads no value that the message does not have. -/
def LegibleMessage (st : PeerState) (p : Publication) : Prop :=
  if p.getStrAttr "type" = some "subscription_update" then
    (∃ new_partner_id, p.getStrAttr "subscription_node_id" = some new_partner_id) ∧
      (st.connection.partner_node_id = "" → ∀ label ∈ cfg.clusters.flatten, Named p label)
  else if p.getStrAttr "type" = some "subscriptions_added" then
    EntriesDescribed cfg (fun m => (addedParts m).map Prod.fst) (addedEntry cfg) st p
  else if p.getStrAttr "type" = some "subscriptions_removed" then
    EntriesDescribed cfg (fun m => (removedParts m).map Prod.fst) (removedEntry cfg) st p
  else
    ((∃ cluster ∈ cfg.clusters, (st.link cfg).sameCluster cluster = false) → Named p "reply_path") ∧
      Named p "_internal_forwarded_by"

def Legible (st : PeerState) (now : UInt32) (p : Publication) : Prop :=
  Named p "publisher_node_id" ∧ (st.Accepted cfg now p → st.LegibleMessage cfg p)

/-! ## Reading -/

theorem map_absent {α β : Type} {x : Except Fault α} {f : α → β} :
    x.map f = .error .absent ↔ x = .error .absent := by
  cases x <;> simp [Except.map]

theorem ok_bind {α β : Type} (a : α) (f : α → Except Fault β) : (Except.ok a).bind f = f a := rfl

theorem bind_absent {α β : Type} {x : Except Fault α} {f : α → Except Fault β}
    (hf : ∀ a, f a ≠ .error .absent) :
    x.bind f = .error .absent ↔ x = .error .absent := by
  cases x with
  | error e => simp [Except.bind]
  | ok a => simpa [Except.bind] using hf a

theorem not_named {p : Publication} {attr : String} :
    ¬ Named p attr ↔ p.hasAttr attr = true ∧ p.getStrAttr attr = none := by
  unfold Named
  rw [Classical.not_imp, ← Option.isSome_iff_exists, Option.not_isSome_iff_eq_none]

theorem readLabels_absent (p : Publication) (labels : List (String × String)) :
    readLabels cfg p labels = .error .absent ↔ ¬ ∀ label ∈ cfg.clusters.flatten, Named p label := by
  unfold readLabels
  induction cfg.clusters.flatten generalizing labels with
  | nil => simp [List.foldlM, pure, Except.pure]
  | cons label rest ih =>
    rw [List.foldlM_cons, List.forall_mem_cons, Classical.not_and_iff_not_or_not, not_named]
    cases hhas : p.hasAttr label with
    | false => simpa [bind, Except.bind] using ih labels
    | true =>
      cases hget : p.getStrAttr label with
      | none => simp [deref, Except.map, bind, Except.bind]
      | some value => simpa [deref, Except.map, bind, Except.bind] using ih (Assoc.put label value labels)

theorem handleRemoteHello_absent (st : PeerState) (p : Publication) :
    st.handleRemoteHello cfg p = .error .absent ↔
      ¬ ((∃ new_partner_id, p.getStrAttr "subscription_node_id" = some new_partner_id) ∧
        (st.connection.partner_node_id = "" → ∀ label ∈ cfg.clusters.flatten, Named p label)) := by
  unfold handleRemoteHello
  cases hid : p.getStrAttr "subscription_node_id" with
  | none => simp [deref, Except.bind]
  | some new_partner_id =>
    rw [deref, ok_bind]
    by_cases hname : st.connection.partner_node_id = ""
    · rw [if_neg (not_not_intro hname)]
      refine (bind_absent fun labels => ?_).trans
        ((readLabels_absent cfg p st.partner_location_labels).trans ?_)
      · rw [Ne, map_absent]
        exact orThrow_absent
      · refine not_congr ⟨fun h => ⟨⟨_, rfl⟩, fun _ => h⟩, fun h => h.2 hname⟩
    · rw [if_pos hname]
      simp [hname]

theorem handleEntries_absent {filterOf : Map → Option Map}
    {entry : Forwarder × RemoteConnection → Option Map →
      Except Fault (Forwarder × RemoteConnection)}
    (hentry : ∀ s m, entry s m = .error .absent ↔
      ∃ m' filter_raw, m = some m' ∧ filterOf m' = some filter_raw ∧
      ¬ Filter.Described cfg.order filter_raw)
    (st : PeerState) (p : Publication) :
    st.handleEntries entry p = .error .absent ↔ ¬ EntriesDescribed cfg filterOf entry st p := by
  unfold handleEntries EntriesDescribed
  rw [map_absent, Runs.foldlM_error_iff]
  constructor
  · rintro ⟨pre, m, post, s, heq, hpre, hm⟩ hall
    obtain ⟨m', filter_raw, rfl, hfilter, hnot⟩ := (hentry s m).mp hm
    exact hnot (hall pre m' post s filter_raw heq hpre hfilter)
  · intro hnot
    by_contra hnone
    refine hnot fun pre m post s filter_raw heq hpre hfilter => ?_
    by_contra hbad
    exact hnone ⟨pre, some m, post, s, heq, hpre, (hentry s (some m)).mpr
      ⟨m, filter_raw, rfl, hfilter, hbad⟩⟩

theorem addedEntry_absent (s : Forwarder × RemoteConnection) (m : Option Map) :
    addedEntry cfg s m = .error .absent ↔ ∃ m' filter_raw, m = some m' ∧
      (addedParts m').map Prod.fst = some filter_raw ∧ ¬ Filter.Described cfg.order filter_raw := by
  cases m with
  | none => simp [addedEntry]
  | some m =>
    unfold addedEntry
    dsimp only
    cases hparts : addedParts m with
    | none => simp [hparts]
    | some parts =>
      obtain ⟨filter_raw, arguments_raw, subscriber_raw⟩ := parts
      refine (bind_absent fun f => ?_).trans
        ((Filter.readPublicationMap_absent cfg.order filter_raw).trans ?_)
      · cases ActorIdentifier.fromPublicationMap subscriber_raw <;> simp [map_absent]
      · simp [hparts]

theorem removedEntry_absent (s : Forwarder × RemoteConnection) (m : Option Map) :
    removedEntry cfg s m = .error .absent ↔ ∃ m' filter_raw, m = some m' ∧
      (removedParts m').map Prod.fst = some filter_raw ∧
      ¬ Filter.Described cfg.order filter_raw := by
  cases m with
  | none => simp [removedEntry]
  | some m =>
    unfold removedEntry
    dsimp only
    cases hparts : removedParts m with
    | none => simp [hparts]
    | some parts =>
      obtain ⟨filter_raw, arguments_raw⟩ := parts
      refine (bind_absent fun f => ?_).trans
        ((Filter.readPublicationMap_absent cfg.order filter_raw).trans ?_)
      · simp [map_absent]
      · simp [hparts]

/-! ## Routing fields -/

theorem publisher_label_ne {attr : String} (h : attr.toList.head? ≠ some 'p') (key : String) :
    "publisher_" ++ key ≠ attr := by
  rintro rfl
  exact h (by rw [String.toList_append]; rfl)

theorem setPublisherLabels_other (link : Link) (cluster : List String) (p : Publication)
    (attr : String) (h : attr.toList.head? ≠ some 'p') :
    (link.setPublisherLabels cluster p).hasAttr attr = p.hasAttr attr ∧
      (link.setPublisherLabels cluster p).getStrAttr attr = p.getStrAttr attr := by
  unfold Link.setPublisherLabels
  induction cluster generalizing p with
  | nil => exact ⟨rfl, rfl⟩
  | cons key cluster ih =>
    rw [List.foldl_cons]
    refine ⟨(ih _).1.trans ?_, (ih _).2.trans ?_⟩
    · exact Publication.hasAttr_setAttr_ne _ (publisher_label_ne h key) _
    · exact Publication.getStrAttr_setAttr_ne _ (publisher_label_ne h key) _

theorem setReplyPath_none {cluster : List String} {p : Publication} :
    Link.setReplyPath cluster p = none ↔ ¬ Named p "reply_path" := by
  rw [not_named]
  unfold Link.setReplyPath
  split <;> simp_all

theorem setReplyPath_some {cluster : List String} {p q : Publication}
    (h : Link.setReplyPath cluster p = some q) :
    ∃ path, q = p.setAttr "reply_path" (.str path) := by
  unfold Link.setReplyPath at h
  split at h
  · obtain ⟨path, -, rfl⟩ := Option.map_eq_some_iff.mp h
    exact ⟨_, rfl⟩
  · exact ⟨_, (Option.some.inj h).symm⟩

theorem crossClusters_none (link : Link) (clusters : List (List String)) (p : Publication) :
    clusters.foldlM link.crossCluster p = none ↔
      ¬ ((∃ cluster ∈ clusters, link.sameCluster cluster = false) → Named p "reply_path") := by
  induction clusters generalizing p with
  | nil => simp
  | cons cluster clusters ih =>
    rw [List.foldlM_cons, Link.crossCluster]
    cases hsame : link.sameCluster cluster with
    | true => simpa [hsame] using ih p
    | false =>
      have hlabels := setPublisherLabels_other link cluster p "reply_path" (by decide)
      have hnamed : Named (link.setPublisherLabels cluster p) "reply_path" ↔
          Named p "reply_path" := by
        unfold Named
        rw [hlabels.1, hlabels.2]
      rw [if_neg (by simp)]
      cases hpath : Link.setReplyPath cluster (link.setPublisherLabels cluster p) with
      | none =>
        have hnot := setReplyPath_none.mp hpath
        rw [hnamed] at hnot
        simp [hsame, hnot]
      | some q =>
        have hp : Named p "reply_path" := by
          rw [← hnamed]
          by_contra hnot
          rw [setReplyPath_none.mpr hnot] at hpath
          exact absurd hpath (by simp)
        obtain ⟨path, rfl⟩ := setReplyPath_some hpath
        refine iff_of_false ?_ (fun h => h fun _ => hp)
        refine mt (ih _).mp (fun h => h fun _ _ => ⟨path, ?_⟩)
        exact Publication.getStrAttr_setAttr_self _ _ _

theorem crossClusters_forwarded {link : Link} {clusters : List (List String)} {p q : Publication}
    (h : clusters.foldlM link.crossCluster p = some q) :
    Named q "_internal_forwarded_by" ↔ Named p "_internal_forwarded_by" := by
  induction clusters generalizing p with
  | nil => rw [← Option.some.inj h]
  | cons cluster clusters ih =>
    rw [List.foldlM_cons] at h
    obtain ⟨p', hp', h⟩ := Option.bind_eq_some_iff.mp h
    refine (ih h).trans ?_
    unfold Link.crossCluster at hp'
    split at hp'
    · rw [← Option.some.inj hp']
    · obtain ⟨path, rfl⟩ := setReplyPath_some hp'
      have hlabels := setPublisherLabels_other link cluster p "_internal_forwarded_by" (by decide)
      unfold Named
      rw [Publication.hasAttr_setAttr_ne _ (by decide), Publication.getStrAttr_setAttr_ne _
        (by decide), hlabels.1, hlabels.2]

theorem addIncommingRoutingFields_none {partner_node_id : String} {p : Publication} :
    addIncommingRoutingFields partner_node_id p = none ↔ ¬ Named p "_internal_forwarded_by" := by
  rw [not_named]
  unfold addIncommingRoutingFields
  split <;> simp_all

/-! ## Harmless messages -/

theorem handle_absent (st : PeerState) (p : Publication) :
    ((deref ((st.link cfg).dispatch p)).bind (st.handle cfg)) = .error .absent ↔
    ¬ st.LegibleMessage cfg p := by
  unfold Link.dispatch LegibleMessage
  split
  · exact map_absent.trans (handleRemoteHello_absent cfg st p)
  · split
    · exact map_absent.trans (handleEntries_absent cfg (addedEntry_absent cfg) st p)
    · split
      · exact map_absent.trans (handleEntries_absent cfg (removedEntry_absent cfg) st p)
      · have hcross := crossClusters_none (st.link cfg) cfg.clusters p
        show (deref ((cfg.clusters.foldlM (st.link cfg).crossCluster p).bind _)).bind _ = _ ↔ _
        cases hq : cfg.clusters.foldlM (st.link cfg).crossCluster p with
        | none => exact iff_of_true rfl fun h => hcross.mp hq h.1
        | some q =>
          have hpath := not_not.mp (mt hcross.mpr (by simp [hq]))
          rw [Option.bind_some, and_iff_right hpath, ← crossClusters_forwarded hq,
            ← addIncommingRoutingFields_none, Option.eq_none_iff_forall_ne_some]
          cases addIncommingRoutingFields (st.link cfg).partner_node_id q <;>
            simp [deref, Except.bind, handle]

/-- The message does no harm: no value is read that is not there, and what is not accepted or not
complete changes nothing but the stamps. -/
def Harmless (st : PeerState) (now : UInt32) (p : Publication) : Prop :=
  st.processRemotePublication cfg now p ≠ .error .absent ∧
    (¬ st.Accepted cfg now p ∨ LacksField p →
      ∀ st' out, st.processRemotePublication cfg now p = .ok (st', out) →
      st' = { st with incomming_sequence_infos := st'.incomming_sequence_infos }) ∧
    (∀ m ∈ listed p, AddedIncomplete m → ∀ s s', addedEntry cfg s m = .ok s' → s' = s) ∧
    (∀ m ∈ listed p, RemovedIncomplete m → ∀ s s', removedEntry cfg s m = .ok s' → s' = s)

theorem addedEntry_incomplete {m : Option Map} (h : AddedIncomplete m)
    {s s' : Forwarder × RemoteConnection} (hok : addedEntry cfg s m = .ok s') : s' = s := by
  cases m with
  | none => exact (Except.ok.inj hok).symm
  | some m =>
    unfold addedEntry at hok
    dsimp only at hok
    cases hparts : addedParts m with
    | none =>
      rw [hparts] at hok
      exact (Except.ok.inj hok).symm
    | some parts =>
      obtain ⟨filter_raw, arguments_raw, subscriber_raw⟩ := parts
      rw [hparts] at hok
      dsimp only at hok
      rw [h m _ _ _ rfl hparts] at hok
      cases hread : Filter.readPublicationMap cfg.order filter_raw with
      | error e =>
        rw [hread] at hok
        simp [Except.bind] at hok
      | ok f =>
        rw [hread] at hok
        exact (Except.ok.inj hok).symm

theorem removedEntry_incomplete {m : Option Map} (h : RemovedIncomplete m)
    {s s' : Forwarder × RemoteConnection} (hok : removedEntry cfg s m = .ok s') : s' = s := by
  cases m with
  | none => exact (Except.ok.inj hok).symm
  | some m =>
    unfold removedEntry at hok
    dsimp only at hok
    rw [h m rfl] at hok
    exact (Except.ok.inj hok).symm

theorem handleEntries_incomplete
    {entry : Forwarder × RemoteConnection → Option Map →
      Except Fault (Forwarder × RemoteConnection)}
    {Incomplete : Option Map → Prop} (hentry : ∀ m s s', Incomplete m → entry s m = .ok s' → s' = s)
    {st st' : PeerState} {p : Publication} (h : ∀ m ∈ listed p, Incomplete m)
    (hok : st.handleEntries entry p = .ok st') : st' = st := by
  have hloop : ∀ (l : List (Option Map)) s s', (∀ m ∈ l, Incomplete m) → l.foldlM entry s = .ok s' →
      s' = s := by
    intro l
    induction l with
    | nil =>
      intro s s' _ hfold
      exact (Except.ok.inj hfold).symm
    | cons m l ih =>
      intro s s' hl hfold
      rw [List.foldlM_cons] at hfold
      cases hfirst : entry s m with
      | error e =>
        rw [hfirst] at hfold
        simp [bind, Except.bind] at hfold
      | ok s₁ =>
        rw [hfirst] at hfold
        obtain rfl := hentry m s s₁ (hl m List.mem_cons_self) hfirst
        exact ih s₁ s' (fun m' hm' => hl m' (List.mem_cons_of_mem _ hm')) hfold
  unfold handleEntries at hok
  cases hrun : (listed p).foldlM entry (st.forwarder, st.connection) with
  | error e =>
    rw [hrun] at hok
    simp [Except.map] at hok
  | ok s =>
    rw [hrun] at hok
    rw [← Except.ok.inj hok, hloop _ _ _ h hrun]

theorem handle_lacking {st st' : PeerState} {p : Publication} {out : Option Publication}
    (h : LacksField p) (hok : (deref ((st.link cfg).dispatch p)).bind (st.handle cfg) =
      .ok (st', out)) : st' = st := by
  have hmap : ∀ {x : Except Fault PeerState}, (x.map fun st => (st, (none : Option Publication))) =
      .ok (st', out) →
      x = .ok st' := by
    intro x hx
    cases x with
    | error e => simp [Except.map] at hx
    | ok st₁ => rw [(Prod.mk.inj (Except.ok.inj hx)).1]
  unfold Link.dispatch at hok
  obtain ⟨htype, hid⟩ | ⟨htype, hall⟩ | ⟨htype, hall⟩ := h
  · rw [if_pos htype] at hok
    have hhello := hmap hok
    unfold handleRemoteHello at hhello
    rw [hid] at hhello
    simp [deref, Except.bind] at hhello
  · rw [if_neg (by rw [htype]; decide), if_pos htype] at hok
    exact handleEntries_incomplete (fun m s s' hm => addedEntry_incomplete cfg hm) hall (hmap hok)
  · rw [if_neg (by rw [htype]; decide), if_neg (by rw [htype]; decide), if_pos htype] at hok
    exact handleEntries_incomplete (fun m s s' hm => removedEntry_incomplete cfg hm) hall (hmap hok)

theorem process_cases (st : PeerState) (now : UInt32) (p : Publication) :
    (∃ infos, st.processRemotePublication cfg now p =
      .ok ({ st with incomming_sequence_infos := infos }, none) ∧
      Named p "publisher_node_id" ∧ ¬ st.Accepted cfg now p) ∨
    (st.processRemotePublication cfg now p = .error .absent ∧ ¬ Named p "publisher_node_id") ∨
    ∃ infos, st.processRemotePublication cfg now p = (deref ((st.link cfg).dispatch p)).bind
        ({ st with incomming_sequence_infos := infos }.handle cfg) ∧
      Named p "publisher_node_id" ∧ st.Accepted cfg now p := by
  unfold processRemotePublication Link.processRemotePublication Accepted
  by_cases hp : p.hasAttr "publisher_node_id" = true ∧ p.getStrAttr "publisher_node_id" ≠ some
    cfg.board.NODE_ID
  · rw [if_pos hp]
    cases hpub : p.getStrAttr "publisher_node_id" with
    | none =>
      refine .inr (.inl ⟨?_, not_named.mpr ⟨hp.1, hpub⟩⟩)
      simp [shouldAccept, hpub, deref, Except.bind]
    | some publisher =>
      have hnamed : Named p "publisher_node_id" := fun _ => ⟨publisher, hpub⟩
      obtain ⟨accepted, haccept⟩ : ∃ accepted, shouldAccept st.incomming_sequence_infos now p =
          some accepted := by
        simp [shouldAccept, hpub]
      obtain ⟨infos, verdict⟩ := accepted
      rw [haccept]
      cases verdict with
      | false => exact .inl ⟨infos, rfl, hnamed, by simp⟩
      | true =>
        refine .inr (.inr ⟨infos, ?_, hnamed, hp.1, by rw [← hpub]; exact hp.2, infos, rfl⟩)
        simp only [Option.bind_some, if_true]
        cases (st.link cfg).dispatch p <;> rfl
  · rw [if_neg hp]
    refine .inl ⟨st.incomming_sequence_infos, rfl, fun hhas => ?_, fun h => hp ⟨h.1, h.2.1⟩⟩
    by_contra hnone
    exact hp ⟨hhas, fun heq => hnone ⟨_, heq⟩⟩

/-- A message does no harm exactly if every value that its handler reads is there. -/
theorem harmless_iff_legible (st : PeerState) (now : UInt32) (p : Publication) :
    st.Harmless cfg now p ↔ st.Legible cfg now p := by
  have hentries : (∀ m ∈ listed p, AddedIncomplete m → ∀ s s', addedEntry cfg s m = .ok s' →
      s' = s) ∧
      (∀ m ∈ listed p, RemovedIncomplete m → ∀ s s', removedEntry cfg s m = .ok s' → s' = s) :=
    ⟨fun m _ hm s s' => addedEntry_incomplete cfg hm, fun m _ hm s s' =>
      removedEntry_incomplete cfg hm⟩
  unfold Harmless Legible
  obtain ⟨infos, heq, hnamed, hnot⟩ | ⟨heq, hnot⟩ | ⟨infos, heq, hnamed, hacc⟩ :=
    process_cases cfg st now p
  · rw [heq]
    refine iff_of_true ⟨by simp, fun _ st' out hok => ?_, hentries⟩ ⟨hnamed, fun h => absurd h hnot⟩
    rw [← (Prod.mk.inj (Except.ok.inj hok)).1]
  · exact iff_of_false (fun h => h.1 heq) fun h => hnot h.1
  · rw [heq]
    have hlegible : ({ st with incomming_sequence_infos := infos }.LegibleMessage cfg p) ↔
      st.LegibleMessage cfg p :=
      Iff.rfl
    rw [← hlegible]
    refine ⟨fun h => ⟨hnamed, fun _ => not_not.mp (mt (handle_absent cfg _ p).mpr h.1)⟩,
      fun h => ?_⟩
    refine ⟨fun hbad => (handle_absent cfg _ p).mp hbad (h.2 hacc), fun hlack st' out hok =>
      ?_, hentries⟩
    have hsame : st' = { st with incomming_sequence_infos := infos } :=
      handle_lacking cfg (hlack.resolve_left (not_not_intro hacc)) hok
    rw [hsame]

/-- The publisher of this message is a number. -/
def numberedPublisher : Publication := ⟨[("publisher_node_id", .int 7)], by decide⟩

def plainSettings : PeerSettings := ⟨⟨⟨"node", 3⟩, .plain, false⟩, [], [], ""⟩

/-- `build` accepts the message, and the connection that it comes from reads the name of its
publisher. -/
theorem numbered_publisher_read :
    build (fun _ => ⟨0⟩) true (packMapMsgpack numberedPublisher.attributes) =
      some numberedPublisher ∧
      ∃ fwd c, Forwarder.run plainSettings.toForwarderSettings (Hub.init ⟨"node", 3⟩) 1 [.accept] =
        some fwd ∧
        Assoc.find 0 fwd.remotes = some c ∧
        ¬ Harmless plainSettings ⟨fwd, c, [], "", [], []⟩ 0 numberedPublisher := by
  refine ⟨build_packMapMsgpack _ _ (by decide) (by decide), _, _, rfl, rfl, fun h => h.1 ?_⟩
  rfl

end PeerState

end UActor
