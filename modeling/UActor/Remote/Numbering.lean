import UActor.PubSub.Carried
import UActor.PubSub.Router
import UActor.Remote.Sequence

/-!
# The numbers of one epoch

A node counts its publications with 32 bits, signed on the wire and unsigned where they are
compared. One receiver gets all of them in order.
-/

namespace UActor

/-! ## The publications of a node -/

/-- A publication of the node itself that has no number yet. -/
structure Own (board : Board) (p : Publication) : Prop where
  publisher : p.getStrAttr "publisher_node_id" = some board.NODE_ID
  unnumbered : p.hasAttr "_internal_sequence_number" = false

/-- What `publish_internal` makes of the publications, one after the other. -/
def numbered (board : Board) : UInt32 → List Publication → List Publication
  | _, [] => []
  | sequence_number, p :: ps =>
    (Router.stamp board sequence_number p).1 ::
      numbered board (Router.stamp board sequence_number p).2 ps

theorem stamp_own {board : Board} {p : Publication} (h : Own board p) (seq now : UInt32) :
    (Router.stamp board seq p).2 = seq + 1 ∧
      (Router.stamp board seq p).1.getStrAttr "publisher_node_id" = some board.NODE_ID ∧
      (Router.stamp board seq p).1.sequenceInfo now = some ⟨seq, board.epoch.toUInt32, now⟩ := by
  unfold Router.stamp
  rw [if_pos ⟨h.publisher, h.unnumbered⟩]
  refine ⟨rfl, ?_, ?_⟩
  · rw [Publication.getStrAttr_setAttr_ne _ (by decide), Publication.getStrAttr_setAttr_ne _
      (by decide), h.publisher]
  · unfold Publication.sequenceInfo
    rw [Publication.getIntAttr_setAttr_ne _ (by decide), Publication.getIntAttr_setAttr_self,
      Publication.getIntAttr_setAttr_self]
    rfl

/-! ## The receiver -/

section

variable (narrow : BitVec 64 → F32) (optimized : Bool)

/-- The publication fits the format, and the receiver can decode its frame. -/
structure Gets (q : Publication) : Prop where
  fits : q.encodable = true
  decoded : ∃ r, build narrow optimized (q.toMsgPack.drop 4) = some r

/-- `should_accept` for the frames that come in, each at its time. -/
def acceptFrames : SequenceInfos → List (List UInt8 × UInt32) → List Bool
  | _, [] => []
  | incomming_sequence_infos, (payload, now) :: frames =>
    match (build narrow optimized payload).bind (shouldAccept incomming_sequence_infos now) with
    | some r => r.2 :: acceptFrames r.1 frames
    | none => false :: acceptFrames incomming_sequence_infos frames

/-- The frames of the publications of a node, with the times at which the receiver gets them. -/
def framesOf (board : Board) : UInt32 → List (Publication × UInt32) → List (List UInt8 × UInt32)
  | _, [] => []
  | sequence_number, (p, now) :: ps =>
    ((Router.stamp board sequence_number p).1.toMsgPack.drop 4, now) ::
      framesOf board (Router.stamp board sequence_number p).2 ps

/-- The receiver accepts all publications of a node that counts from this number on. -/
def AcceptsAll (board : Board) (sequence_number : UInt32) (incomming_sequence_infos : SequenceInfos)
    (ps : List (Publication × UInt32)) : Prop :=
  ∀ accepted ∈ acceptFrames narrow optimized incomming_sequence_infos
    (framesOf board sequence_number ps), accepted = true

/-- The node publishes these, and the receiver gets all of them. -/
structure Transmitted (board : Board) (sequence_number : UInt32)
    (ps : List (Publication × UInt32)) : Prop where
  own : ∀ e ∈ ps, Own board e.1
  gets : ∀ q ∈ numbered board sequence_number (ps.map Prod.fst), Gets narrow optimized q

variable {narrow optimized} {board : Board} {seq now : UInt32} {p : Publication}
  {ps : List (Publication × UInt32)} {infos : SequenceInfos}

theorem Transmitted.tail (h : Transmitted narrow optimized board seq ((p, now) :: ps)) :
    Transmitted narrow optimized board (seq + 1) ps := by
  obtain ⟨hown, hrest⟩ := List.forall_mem_cons.mp h.own
  have hgets := h.gets
  rw [List.map_cons, numbered, (stamp_own hown seq now).1, List.forall_mem_cons] at hgets
  exact ⟨hrest, hgets.2⟩

theorem acceptsAll_cons (h : Transmitted narrow optimized board seq ((p, now) :: ps)) :
    AcceptsAll narrow optimized board seq infos ((p, now) :: ps) ↔
      (Watermark.offer SequenceInfo.newer infos board.NODE_ID ⟨seq, board.epoch.toUInt32, now⟩).2 =
        true ∧
        AcceptsAll narrow optimized board (seq + 1)
          (Watermark.offer SequenceInfo.newer infos board.NODE_ID ⟨seq, board.epoch.toUInt32,
            now⟩).1 ps := by
  have hown : Own board p := h.own (p, now) List.mem_cons_self
  obtain ⟨hnext, hpublisher, hinfo⟩ := stamp_own hown seq now
  have hgets : Gets narrow optimized (Router.stamp board seq p).1 := h.gets _ List.mem_cons_self
  obtain ⟨q, hq⟩ := hgets.decoded
  obtain rfl := carried_whole narrow optimized hgets.fits hq
  unfold AcceptsAll
  rw [framesOf, hnext, acceptFrames, hq, Option.bind_some, shouldAccept, hpublisher,
    Option.map_some, hinfo, List.forall_mem_cons]

/-! ## The count -/

/-- What the receiver has of the node is older than this number. -/
def Below (board : Board) (seq : UInt32) (infos : SequenceInfos) : Prop :=
  ∀ info, Assoc.find board.NODE_ID infos = some info →
    info.epoch < board.epoch.toUInt32 ∨ info.epoch = board.epoch.toUInt32 ∧
    info.sequence_number < seq

theorem newer_iff {info : SequenceInfo} {epoch : UInt32} : info.newer ⟨seq, epoch, now⟩ = true ↔
    info.epoch < epoch ∨ info.epoch = epoch ∧ info.sequence_number < seq := by
  simp only [SequenceInfo.newer, SequenceInfo.isOlderThan, Bool.or_eq_true, Bool.and_eq_true,
    decide_eq_true_eq, beq_iff_eq, @eq_comm _ epoch]

theorem offer_below (h : Below board seq infos) :
    Watermark.offer SequenceInfo.newer infos board.NODE_ID ⟨seq, board.epoch.toUInt32, now⟩ =
      (Assoc.put board.NODE_ID ⟨seq, board.epoch.toUInt32, now⟩ infos, true) := by
  unfold Watermark.offer
  cases hfind : Assoc.find board.NODE_ID infos with
  | none => rfl
  | some info =>
    dsimp only
    rw [if_pos (newer_iff.mpr (h info hfind))]

theorem toNat_succ {seq : UInt32} (h : seq.toNat + 1 < 2 ^ 32) :
    (seq + 1).toNat = seq.toNat + 1 := by
  rw [UInt32.toNat_add, UInt32.toNat_one, Nat.mod_eq_of_lt h]

/-- As long as the numbers do not run out, each publication is newer than all before. -/
theorem acceptsAll_of_below (h : Transmitted narrow optimized board seq ps)
    (hbelow : Below board seq infos) (hroom : seq.toNat + ps.length ≤ 2 ^ 32) :
    AcceptsAll narrow optimized board seq infos ps := by
  induction ps generalizing seq infos with
  | nil => exact nofun
  | cons e ps ih =>
    obtain ⟨p, now⟩ := e
    rw [acceptsAll_cons h, offer_below hbelow]
    refine ⟨rfl, ?_⟩
    cases ps with
    | nil => exact nofun
    | cons e' ps =>
      simp only [List.length_cons] at hroom
      have hsucc : (seq + 1).toNat = seq.toNat + 1 := toNat_succ (by omega)
      refine ih h.tail ?_ (by simp only [List.length_cons]; omega)
      intro info hinfo
      rw [Assoc.find_put_self] at hinfo
      obtain rfl := Option.some.inj hinfo
      right
      exact ⟨rfl, UInt32.lt_iff_toNat_lt.mpr (by rw [hsucc]; exact Nat.lt_succ_self _)⟩

/-- The receiver has the stamp with this number. -/
def Last (board : Board) (seq : UInt32) (infos : SequenceInfos) : Prop :=
  ∃ info, Assoc.find board.NODE_ID infos = some info ∧ info.sequence_number = seq ∧
    info.epoch = board.epoch.toUInt32

theorem lt_of_acceptsAll (h : Transmitted narrow optimized board (seq + 1) ps)
    (hlast : Last board seq infos) (hall : AcceptsAll narrow optimized board (seq + 1) infos ps) :
    seq.toNat + ps.length < 2 ^ 32 := by
  induction ps generalizing seq infos with
  | nil => exact seq.toNat_lt
  | cons e ps ih =>
    obtain ⟨p, now⟩ := e
    obtain ⟨info, hfind, rfl, hepoch⟩ := hlast
    obtain ⟨haccepted, hrest⟩ := (acceptsAll_cons h).mp hall
    have hnewer : info.newer ⟨info.sequence_number + 1, board.epoch.toUInt32, now⟩ = true := by
      rw [Watermark.offer_snd, hfind, Option.all_some] at haccepted
      exact haccepted
    have hlt : info.sequence_number < info.sequence_number + 1 := by
      rcases newer_iff.mp hnewer with hlt | ⟨-, hlt⟩
      · exact absurd hlt (hepoch ▸ UInt32.lt_irrefl _)
      · exact hlt
    have hbound : info.sequence_number.toNat + 1 < 2 ^ 32 := by
      have := UInt32.lt_iff_toNat_lt.mp hlt
      rw [UInt32.toNat_add, UInt32.toNat_one] at this
      have := info.sequence_number.toNat_lt
      omega
    have hbelow : Below board (info.sequence_number + 1) infos := by
      intro info' hinfo'
      rw [hfind] at hinfo'
      obtain rfl := Option.some.inj hinfo'
      exact .inr ⟨hepoch, hlt⟩
    rw [offer_below hbelow] at hrest
    have hlast' : Last board (info.sequence_number + 1)
        (Assoc.put board.NODE_ID ⟨info.sequence_number + 1, board.epoch.toUInt32, now⟩ infos) :=
      ⟨_, Assoc.find_put_self _ _ _, rfl, rfl⟩
    have hlen := ih h.tail hlast' hrest
    rw [toNat_succ hbound] at hlen
    rw [List.length_cons]
    omega

/-- A receiver that knows the node from an older epoch at most accepts all publications of this one
exactly if there are fewer of them than numbers. -/
theorem accepts_all_iff (h : Transmitted narrow optimized board 1 ps) (hfresh : ∀ info,
    Assoc.find board.NODE_ID infos = some info → info.epoch < board.epoch.toUInt32) :
    AcceptsAll narrow optimized board 1 infos ps ↔ ps.length < 2 ^ 32 := by
  have hbelow : Below board 1 infos := fun info hinfo => .inl (hfresh info hinfo)
  constructor
  · intro hall
    cases ps with
    | nil => exact Nat.two_pow_pos 32
    | cons e ps =>
      obtain ⟨p, now⟩ := e
      have hrest := ((acceptsAll_cons h).mp hall).2
      rw [offer_below hbelow] at hrest
      have hlast : Last board 1 (Assoc.put board.NODE_ID ⟨1, board.epoch.toUInt32, now⟩ infos) :=
        ⟨_, Assoc.find_put_self _ _ _, rfl, rfl⟩
      have hlen := lt_of_acceptsAll h.tail hlast hrest
      rw [UInt32.toNat_one] at hlen
      rw [List.length_cons]
      omega
  · intro hlen
    refine acceptsAll_of_below h hbelow ?_
    rw [UInt32.toNat_one]
    omega

end

/-! ## The first number that comes again -/

def numberedBoard : Board := ⟨"n", 7⟩

def plainPublication : Publication := Publication.ofPublisher "n" "a" "1"

theorem plainPublication_own : Own numberedBoard plainPublication := ⟨rfl, rfl⟩

theorem gets_plainPublication (narrow : BitVec 64 → F32) (optimized : Bool) (seq : UInt32) :
    Gets narrow optimized (Router.stamp numberedBoard seq plainPublication).1 := by
  have hfits : (Router.stamp numberedBoard seq plainPublication).1.encodable = true := by
    rfl
  exact ⟨hfits, (carried_iff narrow optimized hfits).mpr rfl⟩

theorem transmitted_replicate (narrow : BitVec 64 → F32) (optimized : Bool) (n : Nat)
    (seq : UInt32) :
    Transmitted narrow optimized numberedBoard seq (List.replicate n (plainPublication, 0)) := by
  refine ⟨fun e he => (List.eq_of_mem_replicate he) ▸ plainPublication_own, ?_⟩
  rw [List.map_replicate]
  induction n generalizing seq with
  | zero => exact nofun
  | succ n ih =>
    rw [List.replicate_succ, numbered, List.forall_mem_cons]
    exact ⟨gets_plainPublication narrow optimized seq, ih _⟩

theorem accepts_all_iff_three : AcceptsAll (fun _ => ⟨0⟩) true numberedBoard 1 [("n", ⟨900, 6, 0⟩)]
    (List.replicate 3 (plainPublication, 0)) ↔
    (List.replicate 3 (plainPublication, (0 : UInt32))).length < 2 ^ 32 :=
  accepts_all_iff (transmitted_replicate _ _ 3 1) fun info hinfo => by
    obtain rfl := Option.some.inj hinfo
    decide

/-- As many publications as there are numbers. -/
theorem not_accepts_all : Transmitted (fun _ => ⟨0⟩) true numberedBoard 1
    (List.replicate (2 ^ 32) (plainPublication, 0)) ∧
    ¬ AcceptsAll (fun _ => ⟨0⟩) true numberedBoard 1 []
    (List.replicate (2 ^ 32) (plainPublication, 0)) := by
  have hall := transmitted_replicate (fun _ => ⟨0⟩) true (2 ^ 32) 1
  refine ⟨hall, fun haccepts => ?_⟩
  rw [show 2 ^ 32 = 4294967295 + 1 from rfl, List.replicate_succ] at hall haccepts
  have hrest := ((acceptsAll_cons hall).mp haccepts).2
  rw [offer_below (by intro info hinfo; cases hinfo)] at hrest
  have hlen := lt_of_acceptsAll hall.tail ⟨_, Assoc.find_put_self _ _ _, rfl, rfl⟩ hrest
  rw [List.length_replicate, UInt32.toNat_one] at hlen
  omega

end UActor
