import UActor.PubSub.Codec
import UActor.Remote.Framer

/-!
# Frames that cannot be decoded

The framer with the exceptions of the decoder, which leave `process_data` before it puts the state
of the connection back.
-/

namespace UActor

open MsgPack (Object)

/-! ## The decoder -/

/-- A `parse_error` of the unpacker, or a `type_error` of a conversion. The assertion on a value of
another type counts as the latter. -/
inductive Raised where
  | parse_error
  | type_error
deriving DecidableEq, Repr

section

variable (narrow : BitVec 64 → F32) (optimized : Bool)

/-- `PublicationFactory::build`, with its exceptions told apart from `std::nullopt`. A map for which
`build` has no publication is one with a key or a value that cannot be converted. -/
def decode (payload : List UInt8) : Except Raised (Option Publication) :=
  match MsgPack.parse payload with
  | .error .insufficient => .ok none
  | .error .malformed => .error .parse_error
  | .ok (.map _, _) =>
    match build narrow optimized payload with
    | some p => .ok (some p)
    | none => .error .type_error
  | .ok _ => .ok none

theorem build_eq_decode (payload : List UInt8) :
    build narrow optimized payload = (decode narrow optimized payload).toOption.join := by
  have hnext := MsgPack.parse_toOption payload
  unfold decode
  cases hparse : MsgPack.parse payload with
  | error stop =>
    rw [hparse] at hnext
    have hnone : build narrow optimized payload = none := by
      unfold build
      rw [← hnext]
      rfl
    rw [hnone]
    cases stop <;> rfl
  | ok r =>
    obtain ⟨o, rest⟩ := r
    rw [hparse] at hnext
    cases o with
    | map pairs =>
      dsimp only
      cases build narrow optimized payload <;> rfl
    | nil | bool | int | float32 | float64 | str | bin | ext | array =>
      unfold build
      rw [← hnext]
      rfl

end

/-! ## Payloads -/

mutual

/-- A value that an attribute can hold. -/
def validValue : Object → Bool
  | .str _ | .float32 _ | .float64 _ | .bin _ => true
  | .int v => decide (-2 ^ 31 ≤ v ∧ v < 2 ^ 31)
  | .map pairs => validPairs pairs
  | .nil | .bool _ | .array _ | .ext _ _ => false

def validPairs : List (Object × Object) → Bool
  | [] => true
  | (.str _, val) :: pairs => validValue val && validPairs pairs
  | _ :: _ => false

end

/-- One map with string keys and values in range, and nothing behind it. -/
def validPayload (payload : List UInt8) : Bool :=
  match MsgPack.next payload with
  | some (.map pairs, []) => validPairs pairs
  | _ => false

/-- The bytes end within the first object, or it is no map. -/
def Undecided (payload : List UInt8) : Prop :=
  MsgPack.parse payload = .error .insufficient ∨
    ∃ o rest, MsgPack.parse payload = .ok (o, rest) ∧ ∀ pairs, o ≠ .map pairs

section

variable (narrow : BitVec 64 → F32) (optimized : Bool)

mutual

theorem toVariant_valid : ∀ o : Object, validValue o = true →
    ∃ v, toVariant narrow optimized o = some (some v)
  | .str v, _ => ⟨_, rfl⟩
  | .float32 bits, _ => ⟨_, rfl⟩
  | .float64 bits, _ => ⟨_, rfl⟩
  | .bin v, _ => ⟨_, rfl⟩
  | .int v, h => ⟨_, by rw [toVariant, if_pos (of_decide_eq_true h)]⟩
  | .map pairs, h => by
    obtain ⟨m, hm⟩ := msgpackToMap_valid pairs h []
    exact ⟨.map m, by rw [toVariant, hm]; rfl⟩

theorem msgpackToMap_valid : ∀ pairs : List (Object × Object), validPairs pairs = true → ∀ handle :
    Map, ∃ m, msgpackToMap narrow optimized pairs handle = some m
  | [], _, handle => ⟨handle, rfl⟩
  | (.str key, val) :: pairs, h, handle => by
    obtain ⟨hval, hpairs⟩ := Bool.and_eq_true_iff.mp h
    obtain ⟨v, hv⟩ := toVariant_valid val hval
    obtain ⟨m, hm⟩ := msgpackToMap_valid pairs hpairs (handle.setAttr (ofBytes key) v)
    exact ⟨m, by rw [msgpackToMap, hv]; exact hm⟩

end

theorem decode_valid {payload : List UInt8} (h : validPayload payload = true) :
    ∃ p, decode narrow optimized payload = .ok (some p) := by
  unfold validPayload at h
  split at h
  · rename_i pairs hnext
    obtain ⟨m, hm⟩ := msgpackToMap_valid narrow optimized pairs h []
    have hbuild : build narrow optimized payload =
        some ⟨m, msgpackToMap_nodup narrow optimized Publication.empty.unique hm⟩ :=
      build_of_next narrow optimized hnext hm
    refine ⟨⟨m, msgpackToMap_nodup narrow optimized Publication.empty.unique hm⟩, ?_⟩
    simp only [decode, MsgPack.parse_ok.mpr hnext, hbuild]
  · cases h

/-- The decoder returns nothing, without an exception, exactly for these. -/
theorem decode_none_iff (payload : List UInt8) :
    decode narrow optimized payload = .ok none ↔ Undecided payload := by
  unfold decode Undecided
  cases hparse : MsgPack.parse payload with
  | error stop => cases stop <;> simp
  | ok r =>
    obtain ⟨o, rest⟩ := r
    cases o with
    | map pairs =>
      dsimp only
      cases build narrow optimized payload <;> simp
    | nil | bool | int | float32 | float64 | str | bin | ext | array => simp

end

/-! ## The framer with exceptions -/

namespace StreamPublicationFramer

section

variable {ε : Type} (decoder : List UInt8 → Except ε (Option Publication))

/-- `complete`. What an exception skips is the callback, the new buffer and the new state. -/
def completeRaising (f : StreamPublicationFramer) :
    Except ε (StreamPublicationFramer × List Completed) :=
  (if 0 < f.publicaton_full_size then decoder f.publication_buffer else .ok none).map fun p =>
    ({ f with publication_buffer := [], state := .empty }, p.toList.map fun p =>
      (p, f.publicaton_full_size.toNat))

/-- `processStep`. Only the branch for data decodes. -/
def stepRaising (f : StreamPublicationFramer) (data : List UInt8) (bytes_remaining : UInt32) :
    Except ε (StreamPublicationFramer × UInt32 × List Completed) :=
  match f.state with
  | .waiting_for_data =>
    let to_move := if bytes_remaining < f.publicaton_remaining_bytes then bytes_remaining
      else f.publicaton_remaining_bytes
    let f := { f with publication_buffer := f.publication_buffer ++ data.take to_move.toNat,
                      publicaton_remaining_bytes := f.publicaton_remaining_bytes - to_move }
    if f.publicaton_remaining_bytes = 0 then
      (f.completeRaising decoder).map fun r => (r.1, bytes_remaining - to_move, r.2)
    else .ok (f, bytes_remaining - to_move, [])
  | _ => .ok (f.processStep (fun _ => none) data bytes_remaining)

/-- The decoder without its exceptions. -/
def quietly (payload : List UInt8) : Option Publication := (decoder payload).toOption.join

/-- A decoder that gives a publication for what raises an exception, and for nothing else. -/
def alarm (payload : List UInt8) : Option Publication :=
  match decoder payload with
  | .ok _ => none
  | .error _ => some Publication.empty

theorem processStep_state (build build' : List UInt8 → Option Publication)
    (f : StreamPublicationFramer) (data : List UInt8) (n : UInt32) :
    (f.processStep build data n).1 = (f.processStep build' data n).1 ∧
      (f.processStep build data n).2.1 = (f.processStep build' data n).2.1 := by
  unfold processStep
  split
  · exact ⟨rfl, rfl⟩
  · exact ⟨rfl, rfl⟩
  · dsimp only
    repeat' split
    all_goals exact ⟨rfl, rfl⟩

theorem completeRaising_eq (f : StreamPublicationFramer) :
    ((f.complete (alarm decoder)).2 = [] ∧
      f.completeRaising decoder = .ok (f.complete (quietly decoder))) ∨
      ((f.complete (alarm decoder)).2 ≠ [] ∧ ∃ e, f.completeRaising decoder = .error e) := by
  unfold complete completeRaising alarm quietly
  by_cases hpos : 0 < f.publicaton_full_size
  · simp only [if_pos hpos]
    cases decoder f.publication_buffer with
    | error e => exact .inr ⟨by simp, e, rfl⟩
    | ok p => exact .inl ⟨rfl, rfl⟩
  · simp only [if_neg hpos]
    exact .inl ⟨rfl, rfl⟩

theorem stepRaising_eq (f : StreamPublicationFramer) (data : List UInt8) (n : UInt32) :
    ((f.processStep (alarm decoder) data n).2.2 = [] ∧
        f.stepRaising decoder data n = .ok (f.processStep (quietly decoder) data n)) ∨
      ((f.processStep (alarm decoder) data n).2.2 ≠ [] ∧
        ∃ e, f.stepRaising decoder data n = .error e) := by
  unfold stepRaising processStep
  cases hstate : f.state with
  | empty =>
    left
    dsimp only
    split
    · exact ⟨rfl, rfl⟩
    · exact ⟨rfl, rfl⟩
  | waiting_for_size =>
    left
    dsimp only
    split
    · exact ⟨rfl, rfl⟩
    · exact ⟨rfl, rfl⟩
  | waiting_for_data =>
    dsimp only
    generalize (if n < f.publicaton_remaining_bytes then n else f.publicaton_remaining_bytes) =
      to_move
    by_cases hzero : f.publicaton_remaining_bytes - to_move = 0
    · simp only [if_pos hzero]
      rcases completeRaising_eq decoder _ with ⟨hsilent, heq⟩ | ⟨hloud, e, heq⟩
      · exact .inl ⟨hsilent, by rw [heq]; rfl⟩
      · exact .inr ⟨hloud, e, by rw [heq]; rfl⟩
    · left
      simp only [if_neg hzero, and_self]

theorem stepRaising_decreases {f : StreamPublicationFramer} {data : List UInt8} {n : UInt32}
    (h : 0 < n) {step : StreamPublicationFramer × UInt32 × List Completed}
    (hstep : f.stepRaising decoder data n = .ok step) :
    3 * step.2.1.toNat + rank step.1.state < 3 * n.toNat + rank f.state := by
  rcases stepRaising_eq decoder f data n with ⟨-, heq⟩ | ⟨-, e, heq⟩
  · rw [hstep] at heq
    rw [Except.ok.inj heq]
    exact processStep_decreases _ f data h
  · rw [hstep] at heq
    cases heq

/-- The loop of `process_data`. -/
def loopRaising (data : List UInt8) (f : StreamPublicationFramer) (bytes_remaining : UInt32) :
    Except ε (StreamPublicationFramer × List Completed) :=
  if _h : 0 < bytes_remaining then
    match _hstep : f.stepRaising decoder
        (data.drop (UInt32.ofNat data.length - bytes_remaining).toNat) bytes_remaining with
    | .error e => .error e
    | .ok step => (loopRaising data step.1 step.2.1).map fun tail => (tail.1, step.2.2 ++ tail.2)
  else .ok (f, [])
termination_by 3 * bytes_remaining.toNat + rank f.state
decreasing_by exact stepRaising_decreases decoder _h _hstep

def processDataRaising (f : StreamPublicationFramer) (chunk : Chunk) :
    Except ε (StreamPublicationFramer × List Completed) :=
      loopRaising decoder chunk.data f chunk.len

/-- The calls of `process_data` on one connection, up to the first exception. -/
def processChunksRaising : StreamPublicationFramer → List Chunk →
    Except ε (StreamPublicationFramer × List Completed)
  | f, [] => .ok (f, [])
  | f, chunk :: chunks =>
    (processDataRaising decoder f chunk).bind fun first =>
      (processChunksRaising first.1 chunks).map fun rest => (rest.1, first.2 ++ rest.2)

theorem loopRaising_of_pos {f : StreamPublicationFramer} {data : List UInt8} {n : UInt32}
    (h : 0 < n) :
    loopRaising decoder data f n =
      (f.stepRaising decoder (data.drop (UInt32.ofNat data.length - n).toNat) n).bind fun step =>
        (loopRaising decoder data step.1 step.2.1).map fun tail =>
          (tail.1, step.2.2 ++ tail.2) := by
  rw [loopRaising, dif_pos h]
  split
  · rename_i e hstep
    rw [hstep]
    rfl
  · rename_i step hstep
    rw [hstep]
    rfl

theorem loopRaising_eq (data : List UInt8) (f : StreamPublicationFramer) (n : UInt32) :
    ((processLoop (alarm decoder) data f n).2 = [] ∧
        loopRaising decoder data f n = .ok (processLoop (quietly decoder) data f n)) ∨
      ((processLoop (alarm decoder) data f n).2 ≠ [] ∧
        ∃ e, loopRaising decoder data f n = .error e) := by
  fun_induction processLoop (quietly decoder) data f n with
  | case1 f n hpos rest step tail ih =>
    obtain ⟨hstate, hleft⟩ := processStep_state (alarm decoder) (quietly decoder) f rest n
    have halarm : (processLoop (alarm decoder) data f n).2 =
        (f.processStep (alarm decoder) rest n).2.2 ++
          (processLoop (alarm decoder) data step.1 step.2.1).2 := by
      rw [processLoop, dif_pos hpos]
      dsimp only [step]
      rw [← hstate, ← hleft]
    rw [halarm, loopRaising_of_pos decoder hpos]
    rcases stepRaising_eq decoder f rest n with ⟨hsilent, hstep⟩ | ⟨hloud, e, hstep⟩
    · rw [hsilent, List.nil_append, hstep]
      rcases ih with ⟨hrest, heq⟩ | ⟨hrest, e, heq⟩
      · refine .inl ⟨hrest, ?_⟩
        dsimp only [Except.bind]
        rw [heq]
        rfl
      · refine .inr ⟨hrest, e, ?_⟩
        dsimp only [Except.bind]
        rw [heq]
        rfl
    · refine .inr ⟨fun hnil => hloud (List.append_eq_nil_iff.mp hnil).1, e, ?_⟩
      rw [hstep]
      rfl
  | case2 f n hpos =>
    rw [processLoop, dif_neg hpos, loopRaising, dif_neg hpos]
    exact .inl ⟨rfl, rfl⟩

theorem processLoop_state (build build' : List UInt8 → Option Publication) (data : List UInt8)
    (f : StreamPublicationFramer) (n : UInt32) :
    (processLoop build data f n).1 = (processLoop build' data f n).1 := by
  fun_induction processLoop build data f n with
  | case1 f n hpos rest step tail ih =>
    obtain ⟨hstate, hleft⟩ := processStep_state build build' f rest n
    rw [processLoop, dif_pos hpos]
    dsimp only
    rw [← hstate, ← hleft]
    exact ih
  | case2 f n hpos => rw [processLoop, dif_neg hpos]

theorem processChunksRaising_eq (f : StreamPublicationFramer) (chunks : List Chunk) :
    ((f.processChunks (alarm decoder) chunks).2 = [] ∧
        f.processChunksRaising decoder chunks = .ok (f.processChunks (quietly decoder) chunks)) ∨
      ((f.processChunks (alarm decoder) chunks).2 ≠ [] ∧ ∃ e, f.processChunksRaising decoder
        chunks = .error e) := by
  induction chunks generalizing f with
  | nil => exact .inl ⟨rfl, rfl⟩
  | cons chunk chunks ih =>
    have hstate : (f.processData (alarm decoder) chunk).1 =
        (f.processData (quietly decoder) chunk).1 :=
      processLoop_state _ _ chunk.data f chunk.len
    have hfirst := loopRaising_eq decoder chunk.data f chunk.len
    simp only [processChunks, processChunksRaising, hstate]
    rcases hfirst with ⟨hsilent, hloop⟩ | ⟨hloud, e, hloop⟩
    · have hsilent' : (f.processData (alarm decoder) chunk).2 = [] := hsilent
      have hloop' : f.processDataRaising decoder chunk =
          .ok (f.processData (quietly decoder) chunk) := hloop
      rw [hsilent', List.nil_append, hloop']
      rcases ih (f.processData (quietly decoder) chunk).1 with ⟨hrest, heq⟩ | ⟨hrest, e, heq⟩
      · exact .inl ⟨hrest, by dsimp only [Except.bind]; rw [heq]; rfl⟩
      · exact .inr ⟨hrest, e, by dsimp only [Except.bind]; rw [heq]; rfl⟩
    · have hloop' : f.processDataRaising decoder chunk = .error e := hloop
      exact .inr ⟨fun hnil => hloud (List.append_eq_nil_iff.mp hnil).1, e, by rw [hloop']; rfl⟩

theorem alarm_silent_iff (stream : List UInt8) : callbacks (alarm decoder) stream = [] ↔
    ∀ content ∈ frames stream, content ≠ [] → ∃ p, decoder content = .ok p := by
  unfold callbacks
  rw [List.filterMap_eq_nil_iff]
  refine forall₂_congr fun content _ => ?_
  by_cases hnil : content = []
  · simp [hnil]
  · simp only [ne_eq, hnil, not_false_eq_true, true_imp_iff, alarm]
    cases decoder content <;> simp

end

/-! ## Streams with bad frames -/

variable (narrow : BitVec 64 → F32) (optimized : Bool)

/-- A call for each good frame, and only for good ones. -/
def GoodCalls (contents : List (List UInt8)) (calls : List Completed) : Prop :=
  List.Forall₂ (fun content call => decode narrow optimized content = .ok (some call.1) ∧
    call.2 = content.length) (contents.filter validPayload) calls

/-- All calls of `process_data` return, and call back for the good frames of the stream and for no
other. -/
def DeliversGood (chunks : List Chunk) : Prop :=
  ∃ f out, fresh.processChunksRaising (decode narrow optimized) chunks = .ok (f, out) ∧
    GoodCalls narrow optimized (frames (chunks.flatMap Chunk.data)) out

theorem quietly_decode : quietly (decode narrow optimized) = build narrow optimized :=
  funext fun payload => (build_eq_decode narrow optimized payload).symm

/-- The call for a frame. -/
def callFor (content : List UInt8) : Option Completed :=
  if content = [] then none else (build narrow optimized content).map fun p => (p, content.length)

theorem callFor_some {content : List UInt8} {p : Publication}
    (h : decode narrow optimized content = .ok (some p)) :
    callFor narrow optimized content = some (p, content.length) := by
  have hne : content ≠ [] := by
    rintro rfl
    cases h
  have hbuild : build narrow optimized content = some p := by rw [build_eq_decode, h]; rfl
  rw [callFor, if_neg hne, hbuild, Option.map_some]

theorem callFor_none {content : List UInt8} (h : decode narrow optimized content = .ok none) :
    callFor narrow optimized content = none := by
  have hbuild : build narrow optimized content = none := by rw [build_eq_decode, h]; rfl
  rw [callFor, hbuild, Option.map_none, ite_self]

theorem goodCalls_of_none {contents : List (List UInt8)}
    (h : ∀ content ∈ contents, validPayload content = false →
      decode narrow optimized content = .ok none) :
    GoodCalls narrow optimized contents (contents.filterMap (callFor narrow optimized)) := by
  induction contents with
  | nil => exact .nil
  | cons content contents ih =>
    obtain ⟨hfirst, hrest⟩ := List.forall_mem_cons.mp h
    unfold GoodCalls
    cases hvalid : validPayload content with
    | false =>
      rw [List.filter_cons_of_neg (by simp [hvalid]), List.filterMap_cons_none
        (callFor_none _ _ (hfirst hvalid))]
      exact ih hrest
    | true =>
      obtain ⟨p, hp⟩ := decode_valid narrow optimized hvalid
      rw [List.filter_cons_of_pos hvalid, List.filterMap_cons_some (callFor_some _ _ hp)]
      exact .cons ⟨hp, rfl⟩ (ih hrest)

theorem callFor_of_length {contents : List (List UInt8)}
    (h : (contents.filterMap (callFor narrow optimized)).length =
      (contents.filter validPayload).length) :
    ∀ content ∈ contents, validPayload content = false →
      callFor narrow optimized content = none := by
  have hle : ∀ contents : List (List UInt8),
      (contents.filter validPayload).length ≤
        (contents.filterMap (callFor narrow optimized)).length := by
    intro contents
    rw [← List.countP_eq_length_filter, List.length_filterMap_eq_countP]
    refine List.countP_mono_left fun content _ hvalid => ?_
    obtain ⟨p, hp⟩ := decode_valid narrow optimized hvalid
    rw [callFor_some _ _ hp]
    rfl
  induction contents with
  | nil => simp
  | cons content contents ih =>
    have htail := hle contents
    rw [List.forall_mem_cons]
    cases hvalid : validPayload content with
    | true =>
      obtain ⟨p, hp⟩ := decode_valid narrow optimized hvalid
      rw [List.filter_cons_of_pos hvalid, List.filterMap_cons_some (callFor_some _ _ hp),
        List.length_cons, List.length_cons] at h
      exact ⟨by simp, ih (Nat.succ.inj h)⟩
    | false =>
      rw [List.filter_cons_of_neg (by simp [hvalid])] at h
      cases hcall : callFor narrow optimized content with
      | none =>
        rw [List.filterMap_cons_none hcall] at h
        exact ⟨fun _ => rfl, ih h⟩
      | some call =>
        rw [List.filterMap_cons_some hcall, List.length_cons] at h
        omega

/-- The calls return if no frame raises an exception, and then they are those of the decoder without
exceptions. -/
theorem deliversGood_split (chunks : List Chunk) : DeliversGood narrow optimized chunks ↔
    (∀ content ∈ frames (chunks.flatMap Chunk.data), content ≠ [] →
      ∃ p, decode narrow optimized content = .ok p) ∧
      GoodCalls narrow optimized (frames (chunks.flatMap Chunk.data))
        ((frames (chunks.flatMap Chunk.data)).filterMap (callFor narrow optimized)) := by
  have hsilent := alarm_silent_iff (decode narrow optimized) (chunks.flatMap Chunk.data)
  rw [← framing_independent_of_cut] at hsilent
  have hcalls : (fresh.processChunks (quietly (decode narrow optimized)) chunks).2 =
      (frames (chunks.flatMap Chunk.data)).filterMap (callFor narrow optimized) := by
    rw [framing_independent_of_cut, quietly_decode]
    rfl
  rw [← hsilent]
  rcases processChunksRaising_eq (decode narrow optimized) fresh chunks with
      ⟨hnone, heq⟩ | ⟨hloud, e, heq⟩
  · constructor
    · rintro ⟨f, out, hrun, hout⟩
      rw [heq] at hrun
      obtain rfl : _ = out := congrArg Prod.snd (Except.ok.inj hrun)
      exact ⟨hnone, hcalls ▸ hout⟩
    · rintro ⟨-, hout⟩
      exact ⟨_, _, heq, hcalls ▸ hout⟩
  · refine iff_of_false ?_ fun hboth => hloud hboth.1
    rintro ⟨f, out, hrun, -⟩
    rw [heq] at hrun
    cases hrun

/-- Good frames come through a stream exactly if each bad one breaks off, or is no map. -/
theorem deliversGood_iff (chunks : List Chunk) : DeliversGood narrow optimized chunks ↔
    ∀ content ∈ frames (chunks.flatMap Chunk.data), validPayload content = false →
    Undecided content := by
  rw [deliversGood_split]
  constructor
  · rintro ⟨hreturns, hgood⟩ content hmem hbad
    rw [← decode_none_iff narrow optimized]
    by_cases hnil : content = []
    · rw [hnil]
      rfl
    · obtain ⟨p, hp⟩ := hreturns content hmem hnil
      have hcall := callFor_of_length narrow optimized hgood.length_eq.symm content hmem hbad
      cases p with
      | none => exact hp
      | some p =>
        rw [callFor_some _ _ hp] at hcall
        cases hcall
  · intro h
    have hnone : ∀ content ∈ frames (chunks.flatMap Chunk.data), validPayload content = false →
        decode narrow optimized content = .ok none :=
      fun content hmem hbad => (decode_none_iff _ _ content).mpr (h content hmem hbad)
    refine ⟨fun content hmem _ => ?_, goodCalls_of_none narrow optimized hnone⟩
    cases hvalid : validPayload content with
    | true =>
      obtain ⟨p, hp⟩ := decode_valid narrow optimized hvalid
      exact ⟨_, hp⟩
    | false => exact ⟨_, hnone content hmem hvalid⟩

/-- A number past the largest one in a frame, and a good frame behind it. -/
def overflowing : Chunk :=
  ⟨[0, 0, 0, 8, 0x81, 0xa1, 0x61, 0xce, 0x80, 0, 0, 0] ++ [0, 0, 0, 1, 0x80], by decide⟩

theorem not_returns_overflowing : ¬ DeliversGood narrow optimized [overflowing] := by
  rw [deliversGood_split]
  rintro ⟨hreturns, -⟩
  have hframes : frames ([overflowing].flatMap Chunk.data) =
      [0x81, 0xa1, 0x61, 0xce, 0x80, 0, 0, 0] :: frames [0, 0, 0, 1, 0x80] := by
    have hframe : [overflowing].flatMap Chunk.data =
        [0, 0, 0, 8] ++ [0x81, 0xa1, 0x61, 0xce, 0x80, 0, 0, 0] ++ [0, 0, 0, 1, 0x80] := rfl
    rw [hframe]
    exact frames_of_header _ rfl rfl
  obtain ⟨p, hp⟩ := hreturns _ (hframes ▸ List.mem_cons_self) (by decide)
  cases hp

/-- In a build with assertions and in one without. -/
theorem not_deliversGood_overflowing :
    ¬ DeliversGood (fun _ => ⟨0⟩) true [overflowing] ∧ ¬ DeliversGood (fun _ => ⟨0⟩) false
      [overflowing] :=
  ⟨not_returns_overflowing _ _, not_returns_overflowing _ _⟩

end StreamPublicationFramer

end UActor
