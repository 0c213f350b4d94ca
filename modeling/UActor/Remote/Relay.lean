import UActor.Lib.Multimap
import UActor.PubSub.Codec
import UActor.Remote.Framer
import UActor.Remote.Sequence
import UActor.Remote.Writer

/-!
# From a forwarder to its partners

`TCPForwarder::receive` and what becomes of it on the other side. A publication is serialized once
for all connections, goes through the queue of each of them and through a socket, and comes out of
the partner's framer.
-/

namespace UActor

/-- A connection, and what its partner has read from the socket. -/
structure Lane where
  sock : Int32
  partner_node_id : String
  outgoing_sequence_infos : SequenceInfos
  connection : TCPConnection
  forwarded : List Publication
  /-- The framer of the partner, the bytes it got and the calls it made. -/
  framer : StreamPublicationFramer
  read : Nat
  calls : List Completed

structure Relay where
  forwarder_subscription_id : Nat
  subscription_mapping : List (Nat × List UInt32)
  next_local_id : UInt32
  remotes : List (UInt32 × Lane)

inductive RelayEvent where
  | addRemoteConnection (socket_id : Int32) (seconds : UInt32)
  /-- The connection gets to know its partner. -/
  | hello (id : UInt32) (partner_node_id : String)
  | addSubscription (id : UInt32) (sub_id : Nat)
  | removeSubscription (id : UInt32) (sub_id : Nat)
  | receive (sub_id : Nat) (p : Publication) (sends : UInt32 → Send) (now seconds : UInt32)
  | writeHandler (id : UInt32) (sends : Nat → Send) (seconds : UInt32)
  | keepalive (sends : UInt32 → Send) (seconds : UInt32)
  | dataHandler (id : UInt32) (closed : Bool) (seconds : UInt32)
  /-- The partner gets bytes from its socket. -/
  | partnerReads (id : UInt32) (len : Nat)

/-- `to_msg_pack`, with the size of the content in front. -/
def serialize (p : Publication) : Option Buffer :=
  let size_normal := UInt32.ofNat (p.toMsgPack.length - 4)
  let bytes := BigEndian.digits 4 size_normal.toNat ++ p.toMsgPack.drop 4
  if h : bytes.length < 2 ^ 63 then some ⟨bytes, h⟩ else none

namespace Lane

def opened (socket_id : Int32) (seconds : UInt32) : Lane :=
  ⟨socket_id, "", [], TCPConnection.opened seconds, [], StreamPublicationFramer.fresh, 0, []⟩

/-- A connection writes a publication. -/
def write (lane : Lane) (send : Send) (seconds : UInt32) (p : Publication) (serialized : Buffer) :
    Lane :=
  { lane with
    connection := (lane.connection.write send seconds serialized).1
    forwarded := lane.forwarded ++ [p] }

def keepalive (send : Send) (seconds : UInt32) (lane : Lane) : Lane :=
  { lane with connection := TCPForwarder.keepaliveOne send seconds lane.connection }

/-- What `recv` gets into a buffer of 512 bytes. -/
def nextChunk (len : Nat) (lane : Lane) : Chunk :=
  ⟨((lane.connection.taken.drop lane.read).take len).take 512, by
    rw [List.length_take]
    omega⟩

def partnerReads (build : List UInt8 → Option Publication) (len : Nat) (lane : Lane) : Lane :=
  let chunk := lane.nextChunk len
  let result := lane.framer.processData build chunk
  { lane with framer := result.1, read := lane.read + chunk.data.length, calls :=
    lane.calls ++ result.2 }

/-- What `receive` does for a connection on its own. -/
def offer (p : Publication) (send : Send) (now seconds : UInt32) (lane : Lane) : Option Lane :=
  if 0 < lane.sock then
    (shouldForward lane.partner_node_id lane.outgoing_sequence_infos now p).bind fun r =>
      let lane := { lane with outgoing_sequence_infos := r.1 }
      if r.2 then (serialize p).map fun buffer => lane.write send seconds p buffer else some lane
  else some lane

end Lane

namespace Relay

def init (forwarder_subscription_id : Nat) : Relay := ⟨forwarder_subscription_id, [], 0, []⟩

def addRemoteConnection (socket_id : Int32) (seconds : UInt32) (s : Relay) : Relay :=
  let remotes := match Assoc.find s.next_local_id s.remotes with
    | some _ => s.remotes
    | none => Assoc.put s.next_local_id (Lane.opened socket_id seconds) s.remotes
  { s with next_local_id := s.next_local_id + 1, remotes := remotes }

/-- The loop over the connections of a subscription. The first one that forwards the publication
serializes it. -/
def receiveLoop (p : Publication) (sends : UInt32 → Send) (now seconds : UInt32) :
    List UInt32 → Option Buffer → List (UInt32 × Lane) → Option (List (UInt32 × Lane))
  | [], _, remotes => some remotes
  | subscriber_id :: sub_ids, serialized, remotes =>
    match Assoc.find subscriber_id remotes with
    | none => receiveLoop p sends now seconds sub_ids serialized remotes
    | some remote =>
      if 0 < remote.sock then
        (shouldForward remote.partner_node_id remote.outgoing_sequence_infos now p).bind fun r =>
          let remote := { remote with outgoing_sequence_infos := r.1 }
          if r.2 then
            (serialized.or (serialize p)).bind fun buffer =>
              receiveLoop p sends now seconds sub_ids (some buffer)
                (Assoc.put subscriber_id (remote.write (sends subscriber_id) seconds p buffer)
                  remotes)
          else receiveLoop p sends now seconds sub_ids serialized
            (Assoc.put subscriber_id remote remotes)
      else receiveLoop p sends now seconds sub_ids serialized remotes

/-- The publications about subscriptions of this node go another way. -/
def regular (s : Relay) (sub_id : Nat) (p : Publication) : Bool :=
  sub_id ≠ s.forwarder_subscription_id && p.getStrAttr "type" ≠ some "local_subscription_added" &&
    p.getStrAttr "type" ≠ some "local_subscription_removed"

def receive (sub_id : Nat) (p : Publication) (sends : UInt32 → Send) (now seconds : UInt32)
    (s : Relay) :
    Option Relay :=
  if s.regular sub_id p then
    (receiveLoop p sends now seconds (Multimap.members sub_id s.subscription_mapping) none
      s.remotes).map fun remotes => { s with remotes := remotes }
  else some s

/-- What happens to one connection, if there is one with this id. -/
def withRemote (s : Relay) (id : UInt32) (f : Lane → Option Lane) : Relay :=
  match Assoc.find id s.remotes with
  | none => s
  | some lane =>
    match f lane with
    | none => { s with remotes := Assoc.erase id s.remotes }
    | some lane => { s with remotes := Assoc.put id lane s.remotes }

def step (build : List UInt8 → Option Publication) (s : Relay) : RelayEvent → Option Relay
  | .addRemoteConnection socket_id seconds => some (s.addRemoteConnection socket_id seconds)
  | .hello id partner_node_id =>
    some (s.withRemote id fun lane => some { lane with partner_node_id := partner_node_id })
  | .addSubscription id sub_id =>
    some { s with subscription_mapping := Multimap.insert sub_id id s.subscription_mapping }
  | .removeSubscription id sub_id =>
    some { s with subscription_mapping := (Multimap.remove sub_id id s.subscription_mapping).1 }
  | .receive sub_id p sends now seconds => s.receive sub_id p sends now seconds
  | .writeHandler id sends seconds => some (s.withRemote id fun lane =>
      match lane.connection.writeHandler sends seconds with
      | (_, true) => none
      | (c, false) => some { lane with connection := c })
  | .keepalive sends seconds => some { s with
      remotes := s.remotes.map fun e => (e.1, e.2.keepalive (sends e.1) seconds) }
  | .dataHandler id closed seconds => some (s.withRemote id fun lane =>
      if closed then none
      else some { lane with connection := { lane.connection with last_read_contact := seconds } })
  | .partnerReads id len => some (s.withRemote id fun lane => some (lane.partnerReads build len))

def run (build : List UInt8 → Option Publication) (forwarder_subscription_id : Nat)
    (events : List RelayEvent) : Option Relay :=
  events.foldlM (step build) (init forwarder_subscription_id)

end Relay

/-! ## The bytes of a connection -/

namespace TCPConnection

/-- The socket may have taken more bytes, and these buffers were passed to `write`. -/
structure Grows (c c' : TCPConnection) (buffers : List Buffer) : Prop where
  taken : ∃ more, c'.taken = c.taken ++ more
  passed : c'.passed = c.passed ++ buffers

variable {c c' c'' : TCPConnection}

theorem Grows.refl (c : TCPConnection) : Grows c c [] := ⟨⟨[], by simp⟩, by simp⟩

theorem Grows.trans {buffers buffers' : List Buffer} (h : Grows c c' buffers)
    (h' : Grows c' c'' buffers') :
    Grows c c'' (buffers ++ buffers') := by
  obtain ⟨more, hmore⟩ := h.taken
  obtain ⟨more', hmore'⟩ := h'.taken
  refine ⟨⟨more ++ more', by rw [hmore', hmore, List.append_assoc]⟩, ?_⟩
  rw [h'.passed, h.passed, List.append_assoc]

theorem Grows.contact (h : Grows c c' []) (htaken : c''.taken = c'.taken)
    (hpassed : c''.passed = c'.passed) : Grows c c'' [] :=
  ⟨by rw [htaken]; exact h.taken, hpassed.trans h.passed⟩

theorem grows_sendFront (send : Send) (front : Buffer) (rest : List Buffer) (c : TCPConnection) :
    Grows c (c.sendFront send front rest).1 [] := by
  unfold sendFront
  dsimp only
  split
  · exact ⟨⟨_, rfl⟩, (List.append_nil _).symm⟩
  · split
    · exact ⟨⟨_, rfl⟩, (List.append_nil _).symm⟩
    · split
      · exact ⟨⟨_, rfl⟩, (List.append_nil _).symm⟩
      · exact ⟨⟨_, rfl⟩, (List.append_nil _).symm⟩

theorem grows_write (send : Send) (seconds : UInt32) (c : TCPConnection) (dataset : Buffer) :
    Grows c (c.write send seconds dataset).1 [dataset] := by
  have hpush : Grows c (c.push dataset) [dataset] := ⟨⟨[], by simp [push]⟩, rfl⟩
  refine hpush.trans ?_
  unfold write sendQueued
  split
  · exact .refl _
  · rename_i front rest _
    have hsent := grows_sendFront send front rest (c.push dataset)
    split
    · rename_i heq
      rwa [heq] at hsent
    · rename_i heq
      rw [heq] at hsent
      exact hsent.contact rfl rfl

theorem grows_writeLoop (seconds : UInt32) (sends : Nat → Send) (queue : List Buffer)
    (c : TCPConnection) :
    Grows c (c.writeLoop seconds sends queue).1 [] := by
  induction queue generalizing c sends with
  | nil => exact .refl c
  | cons front rest ih =>
    have hsent := grows_sendFront (sends 0) front rest c
    unfold writeLoop
    split
    · rename_i heq
      rwa [heq] at hsent
    · rename_i c' heq
      rw [heq] at hsent
      have hcontact : Grows c { c' with last_write_contact := seconds } [] := hsent.contact rfl rfl
      exact hcontact.trans (ih _ _)
    · rename_i heq
      rwa [heq] at hsent

theorem grows_keepaliveOne (send : Send) (seconds : UInt32) (c : TCPConnection) :
    Grows c (TCPForwarder.keepaliveOne send seconds c) [] ∨
      Grows c (TCPForwarder.keepaliveOne send seconds c) [keepaliveBuffer] := by
  have hwrite := grows_write send seconds c keepaliveBuffer
  unfold TCPForwarder.keepaliveOne
  split
  · exact Or.inl (.refl c)
  · split
    · split
      · rename_i heq
        rw [heq] at hwrite
        exact Or.inr hwrite
      · rename_i heq
        rw [heq] at hwrite
        exact Or.inr ⟨hwrite.taken, hwrite.passed⟩
    · exact Or.inl (.refl c)

end TCPConnection

/-! ## Frames -/

/-- The publication can be packed, has no binary value and is short enough for the size field. -/
structure Wireable (p : Publication) : Prop where
  plain : Map.plain p.attributes = true
  encodable : p.encodable = true
  short : p.toMsgPack.length - 4 < 2 ^ 32

/-- The call that the publication arrives as. -/
def callOf (p : Publication) : Completed := (p, p.toMsgPack.length - 4)

open StreamPublicationFramer (callbacks)

section

variable (narrow : BitVec 64 → F32) (optimized : Bool) {p : Publication} {lane : Lane}

theorem callbacks_keepalive (build : List UInt8 → Option Publication) (later : List UInt8) :
    callbacks build (keepaliveBuffer.bytes ++ later) = callbacks build later := by
  have hframes :
      StreamPublicationFramer.frames ([0, 0, 0, 0] ++ [] ++ later) =
        [] :: StreamPublicationFramer.frames later :=
    StreamPublicationFramer.frames_of_header later rfl rfl
  rw [List.append_nil] at hframes
  unfold callbacks
  rw [show keepaliveBuffer.bytes = [0, 0, 0, 0] from rfl, hframes]
  rfl

theorem length_toMsgPack (p : Publication) : 4 < p.toMsgPack.length := by
  have hheader : 0 < (MsgPack.packMapHeader p.attributes.length).length := by
    unfold MsgPack.packMapHeader
    split
    · simp
    · split <;> simp
  unfold Publication.toMsgPack packMapMsgpack
  simp only [List.length_append, List.length_cons, List.length_nil]
  omega

theorem callbacks_serialize (hp : Wireable p) {serialized : Buffer}
    (hserialized : serialize p = some serialized) (later : List UInt8) :
    callbacks (build narrow optimized) (serialized.bytes ++ later) =
      callOf p :: callbacks (build narrow optimized) later := by
  have hlen := length_toMsgPack p
  have hcontent : (p.toMsgPack.drop 4).length = p.toMsgPack.length - 4 := List.length_drop
  have hsize : (UInt32.ofNat (p.toMsgPack.length - 4)).toNat = p.toMsgPack.length - 4 := by
    rw [UInt32.toNat_ofNat', Nat.mod_eq_of_lt hp.short]
  unfold serialize at hserialized
  dsimp only at hserialized
  split at hserialized
  · obtain rfl := Option.some.inj hserialized
    dsimp only
    rw [hsize]
    have hvalue : BigEndian.value (BigEndian.digits 4 (p.toMsgPack.length - 4)) =
        (p.toMsgPack.drop 4).length := by
      rw [hcontent, BigEndian.value_digits]
      exact hp.short
    have hframes := StreamPublicationFramer.frames_of_header later (by simp) hvalue
    unfold callbacks
    rw [hframes, List.filterMap_cons, if_neg (by rw [← List.length_eq_zero_iff]; omega),
      codec_round_trip narrow optimized p hp.plain hp.encodable, Option.map_some, hcontent]
    rfl
  · simp at hserialized

/-- What was passed to `write` are the publications, and what the partner read of it are the
calls. -/
structure Lane.Carries (lane : Lane) : Prop where
  preserves : lane.connection.Preserves
  frames : ∀ later, callbacks (build narrow optimized) (concat lane.connection.passed ++ later) =
    lane.forwarded.map callOf ++ callbacks (build narrow optimized) later
  read_le : lane.read ≤ lane.connection.taken.length
  partner : ∃ seen, lane.framer.Holds seen ∧
    StreamPublicationFramer.Reads (build narrow optimized) [] (lane.connection.taken.take lane.read)
      lane.calls seen []

namespace Lane

variable {narrow optimized}

theorem Carries.grows {lane' : Lane} {buffers : List Buffer} (h : lane.Carries narrow optimized)
    (ps : List Publication) (hpreserves : lane'.connection.Preserves)
    (hgrows : TCPConnection.Grows lane.connection lane'.connection buffers)
    (hbuffers : ∀ later, callbacks (build narrow optimized) (concat buffers ++ later) =
      ps.map callOf ++ callbacks (build narrow optimized) later)
    (hforwarded : lane'.forwarded = lane.forwarded ++ ps) (hframer : lane'.framer = lane.framer)
    (hread : lane'.read = lane.read) (hcalls : lane'.calls = lane.calls) :
    lane'.Carries narrow optimized := by
  obtain ⟨more, hmore⟩ := hgrows.taken
  refine ⟨hpreserves, fun later => ?_, ?_, ?_⟩
  · have hconcat : concat lane'.connection.passed = concat lane.connection.passed ++
        concat buffers := by
      rw [hgrows.passed]
      simp [concat]
    rw [hconcat, hforwarded, List.append_assoc, h.frames, hbuffers, List.map_append,
      List.append_assoc]
  · rw [hread, hmore, List.length_append]
    exact Nat.le_add_right_of_le h.read_le
  · rw [hread, hcalls, hframer, hmore, List.take_append_of_le_length h.read_le]
    exact h.partner

theorem carries_opened (socket_id : Int32) (seconds : UInt32) :
    (opened socket_id seconds).Carries narrow optimized := by
  refine ⟨TCPConnection.preserves_opened seconds, fun later => rfl, Nat.le_refl _, [], ?_, ?_⟩
  · exact StreamPublicationFramer.holds_fresh
  · exact StreamPublicationFramer.reads_of_eq rfl

theorem Carries.write (h : lane.Carries narrow optimized) (hp : Wireable p) {serialized : Buffer}
    (hserialized : serialize p = some serialized) (send : Send) (seconds : UInt32) :
    (lane.write send seconds p serialized).Carries narrow optimized := by
  refine h.grows [p] (h.preserves.write send seconds serialized)
    (TCPConnection.grows_write send seconds _ serialized) (fun later => ?_) rfl rfl rfl rfl
  have hconcat : concat [serialized] = serialized.bytes := by simp [concat]
  rw [hconcat]
  exact callbacks_serialize narrow optimized hp hserialized later

theorem Carries.keepalive (h : lane.Carries narrow optimized) (send : Send) (seconds : UInt32) :
    (lane.keepalive send seconds).Carries narrow optimized := by
  have hpreserves := TCPForwarder.preserves_keepalive h.preserves send seconds
  rcases TCPConnection.grows_keepaliveOne send seconds lane.connection with hgrows | hgrows
  · exact h.grows [] hpreserves hgrows (fun _ => rfl) (List.append_nil _).symm rfl rfl rfl
  · refine h.grows [] hpreserves hgrows (fun later => ?_) (List.append_nil _).symm rfl rfl rfl
    have hconcat : concat [keepaliveBuffer] = keepaliveBuffer.bytes := by simp [concat]
    rw [hconcat]
    exact callbacks_keepalive _ later

theorem Carries.partnerReads (h : lane.Carries narrow optimized) (len : Nat) :
    (lane.partnerReads (build narrow optimized) len).Carries narrow optimized := by
  obtain ⟨seen, hholds, hreads⟩ := h.partner
  obtain ⟨seen', hholds', hreads'⟩ :=
    StreamPublicationFramer.processData_spec (build narrow optimized) hholds (lane.nextChunk len)
  have hread := h.read_le
  -- the chunk is what follows the bytes that were read before
  have hchunk : (lane.nextChunk len).data <+: lane.connection.taken.drop lane.read :=
    (List.take_prefix _ _).trans (List.take_prefix _ _)
  have hlen := hchunk.length_le
  rw [List.length_drop] at hlen
  have htake : lane.connection.taken.take (lane.read + (lane.nextChunk len).data.length) =
      lane.connection.taken.take lane.read ++ (lane.nextChunk len).data := by
    rw [List.take_add, List.prefix_iff_eq_take.mp hchunk]
    simp
  refine ⟨h.preserves, h.frames, ?_, seen', hholds', ?_⟩
  · show lane.read + (lane.nextChunk len).data.length ≤ lane.connection.taken.length
    omega
  · show StreamPublicationFramer.Reads _ []
        (lane.connection.taken.take (lane.read + (lane.nextChunk len).data.length))
      (lane.calls ++ _) seen' []
    rw [htake]
    intro later
    have hfirst := hreads ((lane.nextChunk len).data ++ later)
    have hnext := hreads' later
    rw [List.append_assoc (lane.connection.taken.take lane.read), hfirst, List.nil_append, hnext,
      List.append_assoc]

theorem Carries.calls (h : lane.Carries narrow optimized) :
    lane.calls <+: lane.forwarded.map callOf ∧
    (lane.connection.unsent = [] → lane.read = lane.connection.taken.length →
      lane.calls = lane.forwarded.map callOf) := by
  obtain ⟨seen, hholds, hreads⟩ := h.partner
  have hall : callbacks (build narrow optimized) (concat lane.connection.passed) =
      lane.forwarded.map callOf := by
    have hframes := h.frames []
    have hnone : callbacks (build narrow optimized) [] = [] :=
      StreamPublicationFramer.callbacks_of_header (Nat.zero_le 4)
    rwa [List.append_nil, hnone, List.append_nil] at hframes
  have hrest := hreads (lane.connection.taken.drop lane.read ++ lane.connection.unsent)
  rw [List.nil_append, ← List.append_assoc, List.take_append_drop, h.preserves.stream, hall,
    List.nil_append] at hrest
  refine ⟨⟨_, hrest.symm⟩, fun hsent hread => ?_⟩
  rw [hsent, hread, List.drop_length, List.append_nil, List.append_nil,
    StreamPublicationFramer.callbacks_of_holds hholds, List.append_nil] at hrest
  exact hrest.symm

end Lane

end

/-! ## All connections -/

namespace Relay

variable {p : Publication} {sends : UInt32 → Send} {now seconds : UInt32} {s s' : Relay}
  {id : UInt32} {lane : Lane}

/-- One buffer for all connections is as good as one for each. -/
theorem receiveLoop_each {ids : List UInt32} {serialized : Option Buffer}
    {remotes remotes' : List (UInt32 × Lane)} (hids : ids.Nodup)
    (hserialized : ∀ buffer ∈ serialized, serialize p = some buffer)
    (hloop : receiveLoop p sends now seconds ids serialized remotes = some remotes') (id : UInt32) :
    Assoc.find id remotes' =
      if id ∈ ids then (Assoc.find id remotes).bind (Lane.offer p (sends id) now seconds)
      else Assoc.find id remotes := by
  induction ids generalizing serialized remotes with
  | nil =>
    obtain rfl := Option.some.inj hloop
    rfl
  | cons subscriber_id ids ih =>
    obtain ⟨hnot, hids⟩ := List.nodup_cons.mp hids
    -- what the rest of the loop makes of the connections after this one
    have hrest : ∀ {serialized : Option Buffer} {remotes₁ : List (UInt32 × Lane)},
        (∀ buffer ∈ serialized, serialize p = some buffer) →
        receiveLoop p sends now seconds ids serialized remotes₁ = some remotes' →
        (∀ id, id ≠ subscriber_id → Assoc.find id remotes₁ = Assoc.find id remotes) →
        Assoc.find subscriber_id remotes₁ =
          (Assoc.find subscriber_id remotes).bind (Lane.offer p (sends subscriber_id) now seconds) →
        Assoc.find id remotes' = if id ∈ subscriber_id :: ids then
          (Assoc.find id remotes).bind (Lane.offer p (sends id) now seconds)
        else Assoc.find id remotes := by
      intro serialized remotes₁ hbuffer hloop hothers hself
      rw [ih hids hbuffer hloop]
      by_cases hid : id = subscriber_id
      · subst hid
        rw [if_neg hnot, if_pos List.mem_cons_self, hself]
      · rw [hothers id hid]
        simp [hid]
    unfold receiveLoop at hloop
    split at hloop
    · rename_i hfind
      exact hrest hserialized hloop (fun _ _ => rfl) (by rw [hfind]; rfl)
    · rename_i remote hfind
      split at hloop
      · rename_i hsock
        obtain ⟨r, hr, hloop⟩ := Option.bind_eq_some_iff.mp hloop
        dsimp only at hloop
        split at hloop
        · rename_i hpass
          obtain ⟨buffer, hbuffer, hloop⟩ := Option.bind_eq_some_iff.mp hloop
          have hsame : serialize p = some buffer := by
            cases serialized with
            | none => exact hbuffer
            | some first => rw [hserialized first rfl, ← hbuffer]; rfl
          refine hrest (by simpa using hsame) hloop (fun id hid =>
            Assoc.find_put_ne (Ne.symm hid) _ _) ?_
          rw [Assoc.find_put_self, hfind, Option.bind_some, Lane.offer, if_pos hsock, hr,
            Option.bind_some]
          dsimp only
          rw [if_pos hpass, hsame, Option.map_some]
        · rename_i hpass
          refine hrest hserialized hloop (fun id hid => Assoc.find_put_ne (Ne.symm hid) _ _) ?_
          rw [Assoc.find_put_self, hfind, Option.bind_some, Lane.offer, if_pos hsock, hr,
            Option.bind_some]
          dsimp only
          rw [if_neg hpass]
      · rename_i hsock
        refine hrest hserialized hloop (fun _ _ => rfl) ?_
        rw [hfind, Option.bind_some, Lane.offer, if_neg hsock]

/-- Every connection is once at most in the set of a subscription. -/
def Sets (s : Relay) : Prop := ∀ sub_id, (Multimap.members sub_id s.subscription_mapping).Nodup

theorem sets_step {build : List UInt8 → Option Publication} {event : RelayEvent} (h : s.Sets)
    (hstep : s.step build event = some s') : s'.Sets := by
  have hwith : ∀ id f, (s.withRemote id f).subscription_mapping = s.subscription_mapping := by
    intro id f
    unfold withRemote
    split
    · rfl
    · split <;> rfl
  cases event with
  | receive sub_id p sends now seconds =>
    unfold step receive at hstep
    dsimp only at hstep
    split at hstep
    · obtain ⟨remotes, -, rfl⟩ := Option.map_eq_some_iff.mp hstep
      exact h
    · rwa [← Option.some.inj hstep]
  | addSubscription id sub_id =>
    obtain rfl := Option.some.inj hstep
    intro sub_id'
    rw [Multimap.members_insert]
    split
    · exact Multimap.nodup_insertInto (h sub_id)
    · exact h sub_id'
  | removeSubscription id sub_id =>
    obtain rfl := Option.some.inj hstep
    intro sub_id'
    rw [Multimap.members_remove]
    split
    · exact (h sub_id).filter _
    · exact h sub_id'
  | addRemoteConnection | keepalive =>
    obtain rfl := Option.some.inj hstep
    exact h
  | hello | writeHandler | dataHandler | partnerReads =>
    obtain rfl := Option.some.inj hstep
    unfold Sets
    rw [hwith]
    exact h

/-- The connections of a subscription are offered a publication, each as if it were the only one,
and no others. -/
theorem receive_offers_each {build : List UInt8 → Option Publication}
    {forwarder_subscription_id sub_id : Nat} {events : List RelayEvent}
    (hrun : run build forwarder_subscription_id events = some s)
    (hregular : s.regular sub_id p = true)
    (hreceive : s.receive sub_id p sends now seconds = some s') (id : UInt32) :
    Assoc.find id s'.remotes =
      if id ∈ Multimap.members sub_id s.subscription_mapping then
        (Assoc.find id s.remotes).bind (Lane.offer p (sends id) now seconds)
      else Assoc.find id s.remotes := by
  have hinit : (init forwarder_subscription_id).Sets := fun _ => List.nodup_nil
  have hsets : s.Sets := Runs.invariant Sets hinit (fun _ _ _ => sets_step) hrun
  unfold receive at hreceive
  rw [if_pos hregular] at hreceive
  obtain ⟨remotes, hloop, rfl⟩ := Option.map_eq_some_iff.mp hreceive
  exact receiveLoop_each (hsets sub_id) (by simp) hloop id

/-- Two connections share the buffer. -/
theorem receive_offers_each_two :
    ∃ s s', run (fun _ => none) 1 [.addRemoteConnection 5 1, .addRemoteConnection 6 1,
      .hello 0 "b", .hello 1 "c", .addSubscription 1 7, .addSubscription 0 7] = some s ∧
    s.receive 7 (Strategies.stamped 4) (fun _ => TCPForwarder.sendUpTo 3) 9 2 = some s' ∧
    Assoc.find 1 s'.remotes = if 1 ∈ Multimap.members 7 s.subscription_mapping then
      (Assoc.find 1 s.remotes).bind
        (Lane.offer (Strategies.stamped 4) (TCPForwarder.sendUpTo 3) 9 2)
    else Assoc.find 1 s.remotes := by
  have hrun : ((run (fun _ => none) 1 [.addRemoteConnection 5 1, .addRemoteConnection 6 1,
      .hello 0 "b", .hello 1 "c", .addSubscription 1 7, .addSubscription 0 7]).any fun s =>
        s.regular 7 (Strategies.stamped 4) &&
          (s.receive 7 (Strategies.stamped 4) (fun _ => TCPForwarder.sendUpTo 3) 9 2).isSome) =
            true := by decide +kernel
  obtain ⟨s, hs, hboth⟩ := (Option.any_eq_true _ _).mp hrun
  obtain ⟨hregular, hsome⟩ := (Bool.and_eq_true _ _).mp hboth
  obtain ⟨s', hs'⟩ := Option.isSome_iff_exists.mp hsome
  exact ⟨s, s', hs, hs', receive_offers_each hs hregular hs' 1⟩

section

variable {narrow : BitVec 64 → F32} {optimized : Bool}

theorem carries_offer {lane' : Lane} {send : Send} (h : lane.Carries narrow optimized)
    (hp : Wireable p) (hoffer : lane.offer p send now seconds = some lane') :
    lane'.Carries narrow optimized := by
  unfold Lane.offer at hoffer
  split at hoffer
  · obtain ⟨r, -, hoffer⟩ := Option.bind_eq_some_iff.mp hoffer
    have hsame : Lane.Carries narrow optimized { lane with outgoing_sequence_infos := r.1 } :=
      ⟨h.preserves, h.frames, h.read_le, h.partner⟩
    dsimp only at hoffer
    split at hoffer
    · obtain ⟨buffer, hbuffer, rfl⟩ := Option.map_eq_some_iff.mp hoffer
      exact hsame.write hp hbuffer send seconds
    · rwa [← Option.some.inj hoffer]
  · rwa [← Option.some.inj hoffer]

variable (narrow optimized) in
/-- Every connection carries what was passed to it. -/
def Carries (s : Relay) : Prop := ∀ id lane, Assoc.find id s.remotes = some lane →
    lane.Carries narrow optimized

theorem Carries.withRemote (h : s.Carries narrow optimized) {f : Lane → Option Lane}
    (hf : ∀ lane lane', lane.Carries narrow optimized → f lane = some lane' →
      lane'.Carries narrow optimized) :
    (s.withRemote id f).Carries narrow optimized := by
  unfold Relay.withRemote
  split
  · exact h
  · rename_i lane hfind
    split
    · intro id' lane' hfind'
      rw [Assoc.find_erase] at hfind'
      split at hfind'
      · simp at hfind'
      · exact h id' lane' hfind'
    · rename_i lane₁ heq
      intro id' lane' hfind'
      rw [Assoc.find_put] at hfind'
      split at hfind'
      · rw [← Option.some.inj hfind']
        exact hf lane lane₁ (h id lane hfind) heq
      · exact h id' lane' hfind'

/-- A publication that a connection may get can be sent. -/
def Sound : RelayEvent → Prop
  | .receive _ p _ _ _ => Wireable p
  | _ => True

theorem Carries.step {event : RelayEvent} (h : s.Carries narrow optimized) (hsets : s.Sets)
    (hevent : Sound event) (hstep : s.step (build narrow optimized) event = some s') :
    s'.Carries narrow optimized := by
  cases event with
  | addRemoteConnection socket_id seconds =>
    obtain rfl := Option.some.inj hstep
    intro id lane hfind
    unfold addRemoteConnection at hfind
    dsimp only at hfind
    split at hfind
    · exact h id lane hfind
    · rw [Assoc.find_put] at hfind
      split at hfind
      · rw [← Option.some.inj hfind]
        exact Lane.carries_opened socket_id seconds
      · exact h id lane hfind
  | receive sub_id p sends now seconds =>
    unfold Relay.step receive at hstep
    dsimp only at hstep
    split at hstep
    · obtain ⟨remotes, hloop, rfl⟩ := Option.map_eq_some_iff.mp hstep
      intro id lane hfind
      dsimp only at hfind
      rw [receiveLoop_each (hsets sub_id) (by simp) hloop id] at hfind
      split at hfind
      · obtain ⟨before, hbefore, hoffer⟩ := Option.bind_eq_some_iff.mp hfind
        exact carries_offer (h id before hbefore) hevent hoffer
      · exact h id lane hfind
    · rwa [← Option.some.inj hstep]
  | addSubscription | removeSubscription =>
    obtain rfl := Option.some.inj hstep
    exact h
  | keepalive sends seconds =>
    obtain rfl := Option.some.inj hstep
    intro id lane hfind
    dsimp only at hfind
    rw [Assoc.find_map_keyed id fun id => Lane.keepalive (sends id) seconds] at hfind
    obtain ⟨before, hbefore, rfl⟩ := Option.map_eq_some_iff.mp hfind
    exact (h id before hbefore).keepalive (sends id) seconds
  | hello id partner_node_id =>
    obtain rfl := Option.some.inj hstep
    refine h.withRemote fun lane lane' hlane heq => ?_
    rw [← Option.some.inj heq]
    exact ⟨hlane.preserves, hlane.frames, hlane.read_le, hlane.partner⟩
  | partnerReads id len =>
    obtain rfl := Option.some.inj hstep
    refine h.withRemote fun lane lane' hlane heq => ?_
    rw [← Option.some.inj heq]
    exact hlane.partnerReads len
  | dataHandler id closed seconds =>
    obtain rfl := Option.some.inj hstep
    refine h.withRemote fun lane lane' hlane heq => ?_
    split at heq
    · simp at heq
    · rw [← Option.some.inj heq]
      exact ⟨hlane.preserves.contact rfl rfl rfl rfl, hlane.frames, hlane.read_le, hlane.partner⟩
  | writeHandler id sends seconds =>
    obtain rfl := Option.some.inj hstep
    refine h.withRemote fun lane lane' hlane heq => ?_
    have hpreserves := hlane.preserves.writeLoop seconds sends rfl
    have hgrows := TCPConnection.grows_writeLoop seconds sends lane.connection.write_buffer
      lane.connection
    rw [← TCPConnection.writeHandler] at hpreserves hgrows
    split at heq
    · simp at heq
    · rename_i c hc
      rw [hc] at hpreserves hgrows
      rw [← Option.some.inj heq]
      exact hlane.grows [] hpreserves hgrows (fun _ => rfl) (List.append_nil _).symm rfl rfl rfl

/-- However sockets take and give the bytes, the partner of a connection is called with the
publications that were forwarded to it, in their order and each of them once. When nothing is on the
way, it has been called with all. -/
theorem partner_called_in_order {forwarder_subscription_id : Nat} {events : List RelayEvent}
    (hsound : ∀ event ∈ events, Sound event)
    (hrun : run (build narrow optimized) forwarder_subscription_id events = some s)
    (hfind : Assoc.find id s.remotes = some lane) : lane.calls <+: lane.forwarded.map callOf ∧
      (lane.connection.unsent = [] → lane.read = lane.connection.taken.length →
        lane.calls = lane.forwarded.map callOf) := by
  have hinit : (init forwarder_subscription_id).Sets ∧ (init forwarder_subscription_id).Carries
      narrow optimized :=
    ⟨fun _ => List.nodup_nil, fun _ _ h => absurd h (by simp [init])⟩
  have hboth : s.Sets ∧ s.Carries narrow optimized := by
    refine Runs.invariant_of (fun s => s.Sets ∧ s.Carries narrow optimized) (fun _ event =>
      Sound event) hinit ?_ ?_ hrun
    · rintro s₁ event s₂ ⟨hsets, hcarries⟩ hevent hstep
      exact ⟨sets_step hsets hstep, hcarries.step hsets hevent hstep⟩
    · intro pre event post _ heq _
      exact hsound event (by simp [heq])
  exact (hboth.2 id lane hfind).calls

/-- A connection whose socket is slow, and a partner that reads ten bytes. -/
def slowEvents : List RelayEvent :=
  [.addRemoteConnection 5 1, .hello 0 "b", .addSubscription 0 7,
    .receive 7 (Strategies.stamped 4) (fun _ => TCPForwarder.sendUpTo 3) 9 2,
    .keepalive (fun _ => TCPForwarder.sendUpTo 2) 20, .writeHandler 0
      (fun _ => TCPForwarder.sendUpTo 100) 21,
    .partnerReads 0 10]

theorem wireable_stamped : Wireable (Strategies.stamped 4) := by
  have hlen : (Strategies.stamped 4).toMsgPack.length < 200 := by decide +kernel
  exact ⟨by decide, by decide, by omega⟩

theorem partner_called_in_order_slow :
    ∃ s lane, run (build (fun _ => ⟨0⟩) true) 1 slowEvents = some s ∧
    Assoc.find 0 s.remotes = some lane ∧ lane.forwarded.length = 1 ∧
    lane.calls <+: lane.forwarded.map callOf ∧
      (lane.connection.unsent = [] → lane.read = lane.connection.taken.length →
        lane.calls = lane.forwarded.map callOf) := by
  have hsound : ∀ event ∈ slowEvents, Sound event := by
    intro event hevent
    simp only [slowEvents, List.mem_cons, List.not_mem_nil, or_false] at hevent
    rcases hevent with rfl | rfl | rfl | rfl | rfl | rfl | rfl <;>
        first | exact wireable_stamped | exact trivial
  have hrun : ((run (build (fun _ => ⟨0⟩) true) 1 slowEvents).bind fun s =>
      Assoc.find 0 s.remotes).any (fun lane => lane.forwarded.length == 1) =
        true := by decide +kernel
  obtain ⟨lane, hlane, hforwarded⟩ := (Option.any_eq_true _ _).mp hrun
  obtain ⟨s, hs, hfind⟩ := Option.bind_eq_some_iff.mp hlane
  exact ⟨s, lane, hs, hfind, beq_iff_eq.mp hforwarded, partner_called_in_order hsound hs hfind⟩

end

end Relay

end UActor
