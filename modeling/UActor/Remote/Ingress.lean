import UActor.PubSub.Router
import UActor.Remote.Sequence

/-!
# Publications from peers

`RemoteConnection::process_remote_publication`. A publication from another cluster gets the labels
of this node, so that it can be answered through this node.
-/

namespace UActor

/-- What `process_remote_publication` reads of the node and of the connection. -/
structure Link where
  partner_node_id : String
  clusters : List (List String)
  local_location_labels : List (String × String)
  partner_location_labels : List (String × String)

namespace Link

def localLabel (link : Link) (key : String) : String :=
  (Assoc.find key link.local_location_labels).getD ""

def partnerLabel (link : Link) (key : String) : String :=
  (Assoc.find key link.partner_location_labels).getD ""

def sameCluster (link : Link) (cluster : List String) : Bool :=
  cluster.all fun key => link.localLabel key == link.partnerLabel key

def setPublisherLabels (link : Link) (cluster : List String) (p : Publication) : Publication :=
  cluster.foldl (fun p key => p.setAttr ("publisher_" ++ key) (.str (link.localLabel key))) p

def replyPathAddon (cluster : List String) : String :=
  cluster.foldl (fun addon key => addon ++ key ++ ",") ""

def setReplyPath (cluster : List String) (p : Publication) : Option Publication :=
  if p.hasAttr "reply_path" then
    (p.getStrAttr "reply_path").map fun path =>
      p.setAttr "reply_path" (.str (replyPathAddon cluster ++ path))
  else
    some (p.setAttr "reply_path"
      (.str (replyPathAddon cluster ++ "node_id,actor_type,instance_id")))

/-- The body of the loop over the clusters. -/
def crossCluster (link : Link) (p : Publication) (cluster : List String) : Option Publication :=
  if link.sameCluster cluster then some p
  else setReplyPath cluster (link.setPublisherLabels cluster p)

/-- The handler that a publication ends in. -/
inductive Outcome where
  | drop
  | remoteHello (p : Publication)
  | remoteSubscriptionsAdded (p : Publication)
  | remoteSubscriptionsRemoved (p : Publication)
  | publish (p : Publication)

/-- An accepted publication. -/
def dispatch (link : Link) (p : Publication) : Option Outcome :=
  if p.getStrAttr "type" = some "subscription_update" then some (.remoteHello p)
  else if p.getStrAttr "type" = some "subscriptions_added" then some (.remoteSubscriptionsAdded p)
  else if p.getStrAttr "type" = some "subscriptions_removed" then
    some (.remoteSubscriptionsRemoved p)
  else
    (link.clusters.foldlM link.crossCluster p).bind fun p =>
      (addIncommingRoutingFields link.partner_node_id p).map .publish

/-- `RemoteConnection::process_remote_publication`, up to what its handlers do. -/
def processRemotePublication (board : Board) (link : Link)
    (incomming_sequence_infos : SequenceInfos) (now : UInt32) (p : Publication) :
    Option (SequenceInfos × Outcome) :=
  if p.hasAttr "publisher_node_id" = true ∧
      p.getStrAttr "publisher_node_id" ≠ some board.NODE_ID then
    (shouldAccept incomming_sequence_infos now p).bind fun accepted =>
      if accepted.2 then (link.dispatch p).map fun outcome => (accepted.1, outcome)
      else some (accepted.1, .drop)
  else some (incomming_sequence_infos, .drop)

/-! ## The publisher -/

/-- No label of this node makes it the publisher of what comes from another cluster. -/
def KeepsPublisher (board : Board) (link : Link) : Prop :=
  ∀ cluster ∈ link.clusters, link.sameCluster cluster = false → "node_id" ∈ cluster →
    link.localLabel "node_id" ≠ board.NODE_ID

instance (board : Board) (link : Link) : Decidable (link.KeepsPublisher board) :=
  inferInstanceAs (Decidable (∀ cluster ∈ link.clusters, link.sameCluster cluster = false →
    "node_id" ∈ cluster →
    link.localLabel "node_id" ≠ board.NODE_ID))

theorem publisher_label_iff (key : String) :
    "publisher_" ++ key = "publisher_node_id" ↔ key = "node_id" := by
  have h : ("publisher_node_id" : String) = "publisher_" ++ "node_id" := by decide
  rw [h, String.append_right_inj]

theorem setPublisherLabels_publisher {board : Board} (link : Link) {cluster : List String}
    {p : Publication} (hlabel : "node_id" ∈ cluster → link.localLabel "node_id" ≠ board.NODE_ID)
    (hp : p.getStrAttr "publisher_node_id" ≠ some board.NODE_ID) :
    (link.setPublisherLabels cluster p).getStrAttr "publisher_node_id" ≠ some board.NODE_ID := by
  unfold setPublisherLabels
  induction cluster generalizing p with
  | nil => exact hp
  | cons key cluster ih =>
    apply ih (fun h => hlabel (List.mem_cons_of_mem _ h))
    show (p.setAttr ("publisher_" ++ key) (.str (link.localLabel key))).getStrAttr
        "publisher_node_id" ≠ _
    by_cases hkey : key = "node_id"
    · rw [(publisher_label_iff key).mpr hkey, Publication.getStrAttr_setAttr_self, hkey]
      intro heq
      exact hlabel (by rw [hkey]; exact List.mem_cons_self) (Option.some.inj heq)
    · rw [Publication.getStrAttr_setAttr_ne _ (mt (publisher_label_iff key).mp hkey)]
      exact hp

theorem setReplyPath_publisher {cluster : List String} {p q : Publication}
    (hq : setReplyPath cluster p = some q) :
    q.getStrAttr "publisher_node_id" = p.getStrAttr "publisher_node_id" := by
  unfold setReplyPath at hq
  split at hq
  · obtain ⟨path, -, rfl⟩ := Option.map_eq_some_iff.mp hq
    exact Publication.getStrAttr_setAttr_ne _ (by decide) _
  · rw [← Option.some.inj hq]
    exact Publication.getStrAttr_setAttr_ne _ (by decide) _

theorem crossCluster_publisher {board : Board} {link : Link} {cluster : List String}
    {p q : Publication} (hlabel : link.sameCluster cluster = false → "node_id" ∈ cluster →
      link.localLabel "node_id" ≠ board.NODE_ID)
    (hp : p.getStrAttr "publisher_node_id" ≠ some board.NODE_ID)
    (hq : link.crossCluster p cluster = some q) :
    q.getStrAttr "publisher_node_id" ≠ some board.NODE_ID := by
  unfold crossCluster at hq
  split at hq
  · rw [← Option.some.inj hq]
    exact hp
  · rename_i hsame
    rw [setReplyPath_publisher hq]
    exact setPublisherLabels_publisher link (hlabel (by simpa using hsame)) hp

theorem crossClusters_publisher {board : Board} {link : Link} {clusters : List (List String)}
    {p q : Publication} (hlabel : ∀ cluster ∈ clusters, link.sameCluster cluster = false →
      "node_id" ∈ cluster →
      link.localLabel "node_id" ≠ board.NODE_ID)
    (hp : p.getStrAttr "publisher_node_id" ≠ some board.NODE_ID)
    (hq : clusters.foldlM link.crossCluster p = some q) :
    q.getStrAttr "publisher_node_id" ≠ some board.NODE_ID := by
  induction clusters generalizing p with
  | nil =>
    rw [← Option.some.inj hq]
    exact hp
  | cons cluster clusters ih =>
    rw [List.foldlM_cons] at hq
    obtain ⟨p', hp', hq⟩ := Option.bind_eq_some_iff.mp hq
    exact ih (fun c hc => hlabel c (List.mem_cons_of_mem _ hc))
      (crossCluster_publisher (hlabel cluster List.mem_cons_self) hp hp') hq

theorem addIncommingRoutingFields_publisher {partner_node_id : String} {p q : Publication}
    (hq : addIncommingRoutingFields partner_node_id p = some q) :
    q.getStrAttr "publisher_node_id" = p.getStrAttr "publisher_node_id" := by
  unfold addIncommingRoutingFields at hq
  split at hq
  · obtain ⟨forwarders, -, rfl⟩ := Option.map_eq_some_iff.mp hq
    exact Publication.getStrAttr_setAttr_ne _ (by decide) _
  · rw [← Option.some.inj hq]
    exact Publication.getStrAttr_setAttr_ne _ (by decide) _

theorem processRemotePublication_publisher {board : Board} {link : Link}
    {infos infos' : SequenceInfos} {now : UInt32} {p q : Publication}
    (hlink : link.KeepsPublisher board)
    (h : link.processRemotePublication board infos now p = some (infos', .publish q)) :
    q.getStrAttr "publisher_node_id" ≠ some board.NODE_ID := by
  unfold processRemotePublication at h
  split at h
  · rename_i hp
    obtain ⟨accepted, -, h⟩ := Option.bind_eq_some_iff.mp h
    split at h
    · obtain ⟨outcome, hout, h⟩ := Option.map_eq_some_iff.mp h
      obtain ⟨-, rfl⟩ := Prod.mk.inj h
      unfold dispatch at hout
      split at hout
      · simp at hout
      · split at hout
        · simp at hout
        · split at hout
          · simp at hout
          · obtain ⟨p', hp', hout⟩ := Option.bind_eq_some_iff.mp hout
            obtain ⟨q', hq', heq⟩ := Option.map_eq_some_iff.mp hout
            obtain rfl := Outcome.publish.inj heq
            rw [addIncommingRoutingFields_publisher hq']
            exact crossClusters_publisher hlink hp.2 hp'
    · simp at h
  · simp at h

end Link

end UActor
