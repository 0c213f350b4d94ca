import UActor.PubSub.Sharing
import UActor.Remote.Malformed
import UActor.Runtime.Executor

/-!
# Replies

`ManagedActor::reply` with `reply_context.hpp`, and the way of a publication from the router of the
actor that replies to the actor that asked, which may be on another node.
-/

namespace UActor

structure ReplyContext where
  node_id : String
  actor_type : String
  instance_id : String
deriving DecidableEq, Repr

namespace ReplyContext

def set (pub : Publication) : Option ReplyContext := do
  let node_id ← pub.getStrAttr "publisher_node_id"
  let actor_type ← pub.getStrAttr "publisher_actor_type"
  let instance_id ← pub.getStrAttr "publisher_instance_id"
  some ⟨node_id, actor_type, instance_id⟩

def addReplyFields (context : ReplyContext) (pub : Publication) : Publication :=
  ((pub.setAttr "node_id" (.str context.node_id)).setAttr "instance_id"
    (.str context.instance_id)).setAttr "actor_type" (.str context.actor_type)

def requester (context : ReplyContext) : ActorIdentifier :=
  ⟨context.node_id, context.actor_type, context.instance_id⟩

end ReplyContext

/-- The wrapper that `ManagedActor::reply` builds, and what it hands to the router. -/
def ManagedActor.reply (actor : ActorIdentifier) (context : ReplyContext) (p : Publication) :
    Publication × Publication :=
  (context.addReplyFields (((Publication.ofPublisher actor.node_id actor.actor_type
    actor.instance_id).setAttr "type" (.str "__unicast_wrapper")).setAttr "__wrapped"
      (.map p.attributes)), ManagedActor.publish actor p)

namespace Replies

open Objects (plain_setAttr)
open PeerState (publisher_label_ne setReplyPath_some)

/-! ## The way of a publication -/

/-- A publication of the node and what one of its receivers gets. -/
def Delivers (board : Board) (seq : UInt32) (p r : Publication) : Prop :=
  r = (Router.stamp board seq p).1 ∨ r = (Router.stamp board seq p).1.copy

/-- A publication reaches a receiver, here or on a node some hops away. -/
inductive Travels (board : Board) (p : Publication) : List (Board × Link) → Publication → Prop
  | here {seq : UInt32} {r : Publication} (h : Delivers board seq p r) : Travels board p [] r
  | hop {path : List (Board × Link)} {q q' r : Publication} (h : Travels board p path q)
      {next : Board} {link : Link} {infos infos' : SequenceInfos} {now seq : UInt32}
      (hprocess : link.processRemotePublication next infos now q = some (infos', .publish q'))
      (hdeliver : Delivers next seq q' r) : Travels board p (path ++ [(next, link)]) r

/-- An actor gets all of the reply, with the names of the actor that replied, and perhaps a mark. -/
def Shows (actor : ActorIdentifier) (p v : Publication) : Prop :=
  ∀ name, v.getAttr name = (ManagedActor.publish actor p).getAttr name ∨
    (name = "__unwrapped" ∧ v.getAttr name = some (.int 1))

/-- What is handed over is addressed to the actor that asked, and this one gets the reply
unchanged. -/
structure Answers (actor : ActorIdentifier) (context : ReplyContext) (p handed r : Publication) :
    Prop where
  node_id : handed.getStrAttr "node_id" = some context.node_id
  actor_type : handed.getStrAttr "actor_type" = some context.actor_type
  instance_id : handed.getStrAttr "instance_id" = some context.instance_id
  subscribed : (Executor.addressOf context.requester).matches handed = true
  seen : ∃ v, Executor.content r = some v ∧ Shows actor p v

/-! ## Attributes on the way -/

theorem getStrAttr_congr {p q : Publication} {name : String} (h : p.getAttr name = q.getAttr name) :
    p.getStrAttr name = q.getStrAttr name := by
  unfold Publication.getAttr Map.getAttr at h
  unfold Publication.getStrAttr Map.getStrAttr
  rw [h]

/-- What neither the router nor a node on the way sets. -/
def Untouched (name : String) : Prop :=
  name.toList.head? ≠ some 'p' ∧ name ≠ "reply_path" ∧ name ≠ "_internal_sequence_number" ∧
    name ≠ "_internal_epoch" ∧
    name ≠ "_internal_forwarded_by"

instance (name : String) : Decidable (Untouched name) := inferInstanceAs (Decidable (_ ∧ _))

theorem getAttr_setAttr_ne {p : Publication} {name name' : String} (h : name' ≠ name)
    (v : Variant) :
    (p.setAttr name' v).getAttr name = p.getAttr name := by
  rw [Publication.getAttr_setAttr, if_neg h]

/-- The publication is as it was, up to the attributes that are set on the way. -/
structure Alike (p q : Publication) : Prop where
  plain : Map.plain p.attributes = true → Map.plain q.attributes = true
  same : Map.plain p.attributes = true → ∀ name, Untouched name → q.getAttr name = p.getAttr name

theorem Alike.refl (p : Publication) : Alike p p := ⟨id, fun _ _ _ => rfl⟩

theorem Alike.trans {p q r : Publication} (h : Alike p q) (h' : Alike q r) : Alike p r :=
  ⟨fun hp => h'.plain (h.plain hp), fun hp name hn => (h'.same (h.plain hp) name hn).trans
    (h.same hp name hn)⟩

theorem Alike.setAttr {p q : Publication} (h : Alike p q) {name' : String}
    (hset : ¬ Untouched name') {v : Variant} (hv : v.plain = true) :
    Alike p (q.setAttr name' v) := by
  refine h.trans ⟨fun hq => plain_setAttr hq name' hv, fun _ name hname => getAttr_setAttr_ne ?_ v⟩
  rintro rfl
  exact hset hname

theorem Alike.copy {p q : Publication} (h : Alike p q) : Alike p q.copy :=
  h.trans ⟨fun hq => by rw [Publication.copy_eq_of_plain hq]; exact hq,
    fun hq _ _ => by rw [Publication.copy_eq_of_plain hq]⟩

theorem getAttr_stamp {board : Board} {seq : UInt32} {p : Publication} {name : String}
    (hseq : name ≠ "_internal_sequence_number") (hepoch : name ≠ "_internal_epoch") :
    (Router.stamp board seq p).1.getAttr name = p.getAttr name := by
  unfold Router.stamp
  split
  · rw [getAttr_setAttr_ne (Ne.symm hepoch), getAttr_setAttr_ne (Ne.symm hseq)]
  · rfl

theorem alike_stamp (board : Board) (seq : UInt32) (p : Publication) :
    Alike p (Router.stamp board seq p).1 := by
  unfold Router.stamp
  split
  · exact ((Alike.refl p).setAttr (by decide) rfl).setAttr (by decide) rfl
  · exact Alike.refl p

theorem Delivers.alike {board : Board} {seq : UInt32} {p r : Publication}
    (h : Delivers board seq p r) : Alike p r := by
  rcases h with rfl | rfl
  · exact alike_stamp board seq p
  · exact (alike_stamp board seq p).copy

theorem alike_setPublisherLabels (link : Link) (cluster : List String) (p : Publication) :
    Alike p (link.setPublisherLabels cluster p) := by
  unfold Link.setPublisherLabels
  induction cluster generalizing p with
  | nil => exact Alike.refl p
  | cons key cluster ih =>
    refine Alike.trans ((Alike.refl p).setAttr ?_ rfl) (ih _)
    intro huntouched
    exact publisher_label_ne huntouched.1 key rfl

theorem alike_crossCluster {link : Link} {cluster : List String} {p q : Publication}
    (h : link.crossCluster p cluster = some q) : Alike p q := by
  unfold Link.crossCluster at h
  split at h
  · rw [← Option.some.inj h]
    exact Alike.refl p
  · obtain ⟨path, rfl⟩ := setReplyPath_some h
    exact (alike_setPublisherLabels link cluster p).setAttr (by decide) rfl

theorem alike_crossClusters {link : Link} {clusters : List (List String)} {p q : Publication}
    (h : clusters.foldlM link.crossCluster p = some q) : Alike p q :=
  Runs.invariant (Alike p) (Alike.refl p) (fun _ _ _ h hstep => h.trans (alike_crossCluster hstep))
    h

/-! ## Hops -/

theorem process_cases {link : Link} {board : Board} {infos infos' : SequenceInfos} {now : UInt32}
    {q q' : Publication} (h : link.processRemotePublication board infos now q =
      some (infos', .publish q')) :
    ∃ labelled, link.clusters.foldlM link.crossCluster q = some labelled ∧
      addIncommingRoutingFields link.partner_node_id labelled = some q' := by
  unfold Link.processRemotePublication at h
  split at h
  · obtain ⟨accepted, -, h⟩ := Option.bind_eq_some_iff.mp h
    split at h
    · obtain ⟨outcome, hdispatch, heq⟩ := Option.map_eq_some_iff.mp h
      obtain rfl : outcome = .publish q' := (Prod.mk.inj heq).2
      unfold Link.dispatch at hdispatch
      split at hdispatch
      · simp at hdispatch
      · split at hdispatch
        · simp at hdispatch
        · split at hdispatch
          · simp at hdispatch
          · obtain ⟨labelled, hlabelled, hfields⟩ := Option.bind_eq_some_iff.mp hdispatch
            obtain ⟨q'', hq'', heq⟩ := Option.map_eq_some_iff.mp hfields
            obtain rfl : q'' = q' := Link.Outcome.publish.inj heq
            exact ⟨labelled, hlabelled, hq''⟩
    · simp at h
  · simp at h

theorem alike_addIncommingRoutingFields {partner_node_id : String} {p q : Publication}
    (h : addIncommingRoutingFields partner_node_id p = some q) : Alike p q := by
  unfold addIncommingRoutingFields at h
  split at h
  · obtain ⟨forwarders, -, rfl⟩ := Option.map_eq_some_iff.mp h
    exact (Alike.refl p).setAttr (by decide) rfl
  · rw [← Option.some.inj h]
    exact (Alike.refl p).setAttr (by decide) rfl

theorem Travels.alike {board : Board} {p r : Publication} {path : List (Board × Link)}
    (h : Travels board p path r) : Alike p r := by
  induction h with
  | here h => exact h.alike
  | hop _ hprocess hdeliver ih =>
    obtain ⟨labelled, hlabelled, hfields⟩ := process_cases hprocess
    exact ((ih.trans (alike_crossClusters hlabelled)).trans
      (alike_addIncommingRoutingFields hfields)).trans hdeliver.alike

/-- One round of the loop of `unwrap`. -/
def unwrapStep (pub : Publication) (e : String × Variant) : Publication :=
  match e.2 with
  | .bin _ => pub
  | .map m => pub.setAttr e.1 (.map (Map.copy m))
  | .str _ | .int _ | .float _ => pub.setAttr e.1 e.2

theorem unwrap_eq {p : Publication} {node_id actor_type instance_id : String} {wrapped : Map}
    (hnode : p.getStrAttr "publisher_node_id" = some node_id)
    (htype : p.getStrAttr "publisher_actor_type" = some actor_type)
    (hinstance : p.getStrAttr "publisher_instance_id" = some instance_id)
    (hwrapped : p.attributes.getNestedComponent "__wrapped" = some wrapped) :
    p.unwrap = some ((wrapped.foldl unwrapStep
      (.ofPublisher node_id actor_type instance_id)).setAttr "__unwrapped" (.int 1)) := by
  unfold Publication.unwrap
  rw [hnode, htype, hinstance, hwrapped]
  exact rfl

theorem unwrapStep_of_plain (pub : Publication) {e : String × Variant} (h : e.2.plain = true) :
    unwrapStep pub e = pub.setAttr e.1 e.2 := by
  obtain ⟨name, v⟩ := e
  cases v with
  | bin v => simp [Variant.plain] at h
  | map m =>
    unfold unwrapStep
    dsimp only
    rw [Map.copy_of_plain m h]
  | str v => rfl
  | int v => rfl
  | float v => rfl

theorem getAttr_foldl_eq {m : Map} (hm : Map.plain m = true) (hunique : (Assoc.keys m).Nodup)
    (pub : Publication) (name : String) :
    (m.foldl unwrapStep pub).getAttr name = (m.getAttr name).or (pub.getAttr name) := by
  rw [Map.plain_iff] at hm
  induction m generalizing pub with
  | nil => rfl
  | cons e m ih =>
    rw [List.forall_mem_cons] at hm
    simp only [Assoc.keys, List.map_cons, List.nodup_cons] at hunique
    rw [List.foldl_cons, ih hm.2 hunique.2, unwrapStep_of_plain _ hm.1, Publication.getAttr_setAttr]
    unfold Map.getAttr
    simp only [Assoc.find]
    split
    · rename_i hname
      have habsent : Assoc.find name m = none := Assoc.find_eq_none.mpr (hname ▸ hunique.1)
      rw [habsent]
      rfl
    · rfl

theorem nested_of_getAttr {p : Publication} {wrapped : Map} {name : String}
    (h : p.getAttr name = some (.map wrapped)) :
    p.attributes.getNestedComponent name = some wrapped := by
  unfold Publication.getAttr Map.getAttr at h
  unfold Map.getNestedComponent
  rw [h]

theorem getAttr_publish_or (actor : ActorIdentifier) (p : Publication) (name : String) :
    (ManagedActor.publish actor p).getAttr name =
      ((Publication.ofPublisher actor.node_id actor.actor_type actor.instance_id).getAttr name).or
        (p.getAttr name) := by
  have hempty : Publication.empty.getAttr name = none := rfl
  simp only [ManagedActor.publish, Publication.ofPublisher, Publication.getAttr_setAttr, hempty]
  split
  · rfl
  · split
    · rfl
    · split
      · rfl
      · rfl

theorem getAttr_publish {actor : ActorIdentifier} {p : Publication} {name : String}
    (h : name.toList.head? ≠ some 'p') :
    (ManagedActor.publish actor p).getAttr name = p.getAttr name := by
  unfold ManagedActor.publish
  rw [getAttr_setAttr_ne, getAttr_setAttr_ne, getAttr_setAttr_ne]
  all_goals
    rintro rfl
    exact h (by decide)

theorem publish_publisher_node_id (actor : ActorIdentifier) (p : Publication) :
    (ManagedActor.publish actor p).getStrAttr "publisher_node_id" = some actor.node_id := by
  rw [ManagedActor.publish, Publication.getStrAttr_setAttr_ne _ (by decide),
    Publication.getStrAttr_setAttr_ne _ (by decide), Publication.getStrAttr_setAttr_self]

theorem publish_publisher_actor_type (actor : ActorIdentifier) (p : Publication) :
    (ManagedActor.publish actor p).getStrAttr "publisher_actor_type" = some actor.actor_type := by
  rw [ManagedActor.publish, Publication.getStrAttr_setAttr_self]

theorem publish_publisher_instance_id (actor : ActorIdentifier) (p : Publication) :
    (ManagedActor.publish actor p).getStrAttr "publisher_instance_id" = some actor.instance_id := by
  rw [ManagedActor.publish, Publication.getStrAttr_setAttr_ne _ (by decide),
    Publication.getStrAttr_setAttr_self]

theorem plain_publish {actor : ActorIdentifier} {p : Publication}
    (h : Map.plain p.attributes = true) :
    Map.plain (ManagedActor.publish actor p).attributes = true :=
  plain_setAttr (plain_setAttr (plain_setAttr h _ rfl) _ rfl) _ rfl

theorem matches_addressOf {who : ActorIdentifier} {q : Publication}
    (hnode : q.getStrAttr "node_id" = some who.node_id)
    (htype : q.getStrAttr "actor_type" = some who.actor_type)
    (hinstance : q.getStrAttr "instance_id" = some who.instance_id) :
    (Executor.addressOf who).matches q = true := by
  have hget : ∀ {name value : String}, q.getStrAttr name = some value →
      q.getAttr name = some (.str value) := by
    intro name value h
    unfold Publication.getStrAttr Map.getStrAttr at h
    split at h
    · rename_i v hfind
      rw [← Option.some.inj h]
      exact hfind
    · simp at h
  simp [Executor.addressOf, Filter.ofConstraints, Filter.matches, Filter.checkRequired,
    Filter.checkOptionals, Constraint.optional, Constraint.attr, hget hnode, hget htype,
    hget hinstance, Filter.passes, Constraint.acceptsStr, Constraint.matchStr, Constraint.matchWith]

theorem travels_here {board : Board} {p r : Publication} (hplain : Map.plain p.attributes = true)
    (h : Travels board p [] r) : ∃ seq, r = (Router.stamp board seq p).1 := by
  generalize hpath : [] = path at h
  cases h with
  | hop => simp at hpath
  | @here seq _ h =>
    refine ⟨seq, ?_⟩
    rcases h with rfl | rfl
    · rfl
    · exact Publication.copy_eq_of_plain ((alike_stamp board seq p).plain hplain)

def ping : Publication := (Publication.ofPublisher "node" "sensor" "1").setAttr "type" (.str "ping")

/-- The publisher fields of the reply are those of the actor, if there are any. -/
def OwnNames (actor : ActorIdentifier) (p : Publication) : Prop :=
  ∀ name v, (Publication.ofPublisher actor.node_id actor.actor_type actor.instance_id).getAttr
    name = some v →
    p.getAttr name = none ∨ p.getAttr name = some v

theorem shows_unwrap {actor : ActorIdentifier} {p wrapper : Publication}
    (hplain : Map.plain p.attributes = true) (hown : OwnNames actor p)
    (hnode : wrapper.getStrAttr "publisher_node_id" = some actor.node_id)
    (htype : wrapper.getStrAttr "publisher_actor_type" = some actor.actor_type)
    (hinstance : wrapper.getStrAttr "publisher_instance_id" = some actor.instance_id)
    (hwrapped : wrapper.getAttr "__wrapped" = some (.map p.attributes)) :
    ∃ v, wrapper.unwrap = some v ∧ Shows actor p v := by
  refine ⟨_, unwrap_eq hnode htype hinstance (nested_of_getAttr hwrapped), ?_⟩
  intro name
  by_cases hname : name = "__unwrapped"
  · subst hname
    right
    rw [Publication.getAttr_setAttr, if_pos rfl]
    exact ⟨rfl, rfl⟩
  · left
    rw [getAttr_setAttr_ne (Ne.symm hname), getAttr_foldl_eq hplain p.unique, getAttr_publish_or]
    show (p.getAttr name).or _ = _
    cases hpublisher : (Publication.ofPublisher actor.node_id actor.actor_type
      actor.instance_id).getAttr name with
    | none => rw [Option.or_none, Option.none_or]
    | some v =>
      rcases hown name v hpublisher with hnone | hsome
      · simp [hnone]
      · simp [hsome]

theorem wrapper_answers {actor : ActorIdentifier} {p r : Publication} (context : ReplyContext)
    {board : Board} (hplain : Map.plain p.attributes = true) (hown : OwnNames actor p)
    (hr : Travels board (ManagedActor.publish actor (ManagedActor.reply actor context p).1) [] r) :
    Answers actor context p (ManagedActor.publish actor (ManagedActor.reply actor context p).1)
      r := by
  generalize hwrapper : ManagedActor.publish actor (ManagedActor.reply actor context p).1 =
    wrapper at hr ⊢
  have hwplain : Map.plain wrapper.attributes = true := by
    rw [← hwrapper]
    refine plain_publish (plain_setAttr (plain_setAttr (plain_setAttr (plain_setAttr ?_ _ ?_) _ rfl)
      _ rfl) _ rfl)
    · exact plain_setAttr (plain_setAttr (plain_setAttr (plain_setAttr rfl _ rfl) _ rfl) _ rfl) _
        rfl
    · exact hplain
  have hnode : wrapper.getStrAttr "node_id" = some context.node_id := by
    rw [← hwrapper, getStrAttr_congr (getAttr_publish (by decide)), ManagedActor.reply,
      ReplyContext.addReplyFields, Publication.getStrAttr_setAttr_ne _ (by decide),
      Publication.getStrAttr_setAttr_ne _ (by decide), Publication.getStrAttr_setAttr_self]
  have hactor : wrapper.getStrAttr "actor_type" = some context.actor_type := by
    rw [← hwrapper, getStrAttr_congr (getAttr_publish (by decide)), ManagedActor.reply,
      ReplyContext.addReplyFields, Publication.getStrAttr_setAttr_self]
  have hinstance : wrapper.getStrAttr "instance_id" = some context.instance_id := by
    rw [← hwrapper, getStrAttr_congr (getAttr_publish (by decide)), ManagedActor.reply,
      ReplyContext.addReplyFields, Publication.getStrAttr_setAttr_ne _ (by decide),
      Publication.getStrAttr_setAttr_self]
  have htype : wrapper.getStrAttr "type" = some "__unicast_wrapper" := by
    rw [← hwrapper, getStrAttr_congr (getAttr_publish (by decide)), ManagedActor.reply,
      ReplyContext.addReplyFields, Publication.getStrAttr_setAttr_ne _ (by decide),
      Publication.getStrAttr_setAttr_ne _ (by decide), Publication.getStrAttr_setAttr_ne _
        (by decide), Publication.getStrAttr_setAttr_ne _ (by decide),
      Publication.getStrAttr_setAttr_self]
  have hwrapped : wrapper.getAttr "__wrapped" = some (.map p.attributes) := by
    rw [← hwrapper, getAttr_publish (by decide), ManagedActor.reply, ReplyContext.addReplyFields,
      getAttr_setAttr_ne (by decide), getAttr_setAttr_ne (by decide),
      getAttr_setAttr_ne (by decide), Publication.getAttr_setAttr, if_pos rfl]
  obtain ⟨seq, rfl⟩ := travels_here hwplain hr
  have hstamp : ∀ {name : String}, name ≠ "_internal_sequence_number" → name ≠ "_internal_epoch" →
      (Router.stamp board seq wrapper).1.getAttr name = wrapper.getAttr name := getAttr_stamp
  have hstampStr : ∀ {name : String}, name ≠ "_internal_sequence_number" →
      name ≠ "_internal_epoch" →
      (Router.stamp board seq wrapper).1.getStrAttr name = wrapper.getStrAttr name :=
    fun hseq hepoch => getStrAttr_congr (hstamp hseq hepoch)
  obtain ⟨v, hv, hshows⟩ : ∃ v, (Router.stamp board seq wrapper).1.unwrap = some v ∧
      Shows actor p v := by
    apply shows_unwrap hplain hown
    · rw [hstampStr (by decide) (by decide), ← hwrapper, publish_publisher_node_id]
    · rw [hstampStr (by decide) (by decide), ← hwrapper, publish_publisher_actor_type]
    · rw [hstampStr (by decide) (by decide), ← hwrapper, publish_publisher_instance_id]
    · rw [hstamp (by decide) (by decide), hwrapped]
  refine ⟨hnode, hactor, hinstance, matches_addressOf hnode hactor hinstance, v, ?_, hshows⟩
  rw [Executor.content, if_pos ((hstampStr (by decide) (by decide)).trans htype)]
  exact hv

end Replies

end UActor
