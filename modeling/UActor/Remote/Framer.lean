import UActor.Lib.BigEndian
import UActor.PubSub.Publication

/-!
# The framer of a byte stream

`stream_publication_framer.hpp` and `stream_publication_framer.cpp`. The stream holds pairs of a
length, in network byte order, and a content. `build` stands for `PublicationFactory::build` on the
content.
-/

namespace UActor

/-- What one call of `process_data` gets. -/
structure Chunk where
  data : List UInt8
  fits : data.length < 2 ^ 32

def Chunk.len (c : Chunk) : UInt32 := UInt32.ofNat c.data.length

inductive ProcessingState where
  | empty
  | waiting_for_size
  | waiting_for_data
deriving DecidableEq, Repr

structure StreamPublicationFramer where
  state : ProcessingState
  size_buffer : List UInt8
  size_field_remaining_bytes : UInt32
  publicaton_remaining_bytes : UInt32
  publicaton_full_size : UInt32
  publication_buffer : List UInt8
deriving DecidableEq, Repr

/-- The arguments of one call of `complete_callback`. -/
abbrev Completed := Publication × Nat

namespace StreamPublicationFramer

def fresh : StreamPublicationFramer := ⟨.empty, [0, 0, 0, 0], 0, 0, 0, []⟩

def ntohl (bs : List UInt8) : UInt32 := UInt32.ofNat (BigEndian.value bs)

def memcpy (dst : List UInt8) (offset : Nat) (src : List UInt8) : List UInt8 :=
  dst.take offset ++ src ++ dst.drop (offset + src.length)

/-- The end of the branch for data: all bytes of the content are there. -/
def complete (build : List UInt8 → Option Publication) (f : StreamPublicationFramer) :
    StreamPublicationFramer × List Completed :=
  let p := if 0 < f.publicaton_full_size then build f.publication_buffer else none
  ({ f with publication_buffer := [], state := .empty }, p.toList.map fun p =>
    (p, f.publicaton_full_size.toNat))

/-- The body of the loop. `data` starts at the first byte that was not looked at. -/
def processStep (build : List UInt8 → Option Publication) (f : StreamPublicationFramer)
    (data : List UInt8) (bytes_remaining : UInt32) :
    StreamPublicationFramer × UInt32 × List Completed :=
  match f.state with
  | .empty =>
    if 4 ≤ bytes_remaining then
      let size := ntohl (data.take 4)
      ({ f with publicaton_full_size := size, publicaton_remaining_bytes := size, state :=
        .waiting_for_data }, bytes_remaining - 4, [])
    else
      ({ f with size_buffer := memcpy f.size_buffer 0 (data.take bytes_remaining.toNat),
                size_field_remaining_bytes := 4 - bytes_remaining, state := .waiting_for_size }, 0,
                [])
  | .waiting_for_size =>
    let offset := (4 - f.size_field_remaining_bytes).toNat
    if f.size_field_remaining_bytes < bytes_remaining then
      let size_buffer := memcpy f.size_buffer offset (data.take f.size_field_remaining_bytes.toNat)
      let size := ntohl size_buffer
      ({ f with size_buffer, publicaton_full_size := size, publicaton_remaining_bytes := size,
                size_field_remaining_bytes := 0, state := .waiting_for_data },
        bytes_remaining - f.size_field_remaining_bytes, [])
    else
      ({ f with size_buffer := memcpy f.size_buffer offset (data.take bytes_remaining.toNat),
                size_field_remaining_bytes := f.size_field_remaining_bytes - bytes_remaining }, 0,
                [])
  | .waiting_for_data =>
    let to_move := if bytes_remaining < f.publicaton_remaining_bytes then bytes_remaining
      else f.publicaton_remaining_bytes
    let f := { f with publication_buffer := f.publication_buffer ++ data.take to_move.toNat,
                      publicaton_remaining_bytes := f.publicaton_remaining_bytes - to_move }
    if f.publicaton_remaining_bytes = 0 then
      let (f, out) := f.complete build
      (f, bytes_remaining - to_move, out)
    else (f, bytes_remaining - to_move, [])

/-- A header or a content of no bytes is passed without reading one, in this order. -/
def rank : ProcessingState → Nat
  | .empty => 0
  | .waiting_for_data => 1
  | .waiting_for_size => 2

theorem processStep_decreases (build : List UInt8 → Option Publication)
    (f : StreamPublicationFramer) (data : List UInt8) {bytes_remaining : UInt32}
    (h : 0 < bytes_remaining) :
    3 * (f.processStep build data bytes_remaining).2.1.toNat +
      rank (f.processStep build data bytes_remaining).1.state < 3 * bytes_remaining.toNat +
        rank f.state := by
  have hpos : 0 < bytes_remaining.toNat := UInt32.lt_iff_toNat_lt.mp h
  unfold processStep
  split
  · rename_i hstate
    split
    · rename_i h4
      have h4' : 4 ≤ bytes_remaining.toNat := UInt32.le_iff_toNat_le.mp h4
      simp only [rank, hstate, UInt32.toNat_sub_of_le _ _ h4]
      have : (4 : UInt32).toNat = 4 := rfl
      omega
    · simp only [rank, hstate, UInt32.toNat_zero]
      omega
  · rename_i hstate
    dsimp only
    split
    · rename_i hlt
      have hle := UInt32.le_of_lt hlt
      simp only [rank, hstate, UInt32.toNat_sub_of_le _ _ hle]
      omega
    · simp only [hstate, UInt32.toNat_zero]
      omega
  · rename_i hstate
    dsimp only
    by_cases hlt : bytes_remaining < f.publicaton_remaining_bytes
    · have hne : f.publicaton_remaining_bytes - bytes_remaining ≠ 0 := by
        have hle := UInt32.le_of_lt hlt
        have hlt' := UInt32.lt_iff_toNat_lt.mp hlt
        intro h0
        have := congrArg UInt32.toNat h0
        rw [UInt32.toNat_sub_of_le _ _ hle, UInt32.toNat_zero] at this
        omega
      simp only [if_pos hlt, if_neg hne, hstate, UInt32.sub_self, UInt32.toNat_zero]
      omega
    · have hle : f.publicaton_remaining_bytes ≤ bytes_remaining := UInt32.not_lt.mp hlt
      simp only [if_neg hlt, UInt32.sub_self, if_true, complete, rank, hstate,
        UInt32.toNat_sub_of_le _ _ hle]
      omega

/-- The loop of `process_data`, over the last `bytes_remaining` bytes of `data`. -/
def processLoop (build : List UInt8 → Option Publication) (data : List UInt8)
    (f : StreamPublicationFramer) (bytes_remaining : UInt32) :
    StreamPublicationFramer × List Completed :=
  if _h : 0 < bytes_remaining then
    let rest := data.drop (UInt32.ofNat data.length - bytes_remaining).toNat
    let step := f.processStep build rest bytes_remaining
    let tail := processLoop build data step.1 step.2.1
    (tail.1, step.2.2 ++ tail.2)
  else (f, [])
termination_by 3 * bytes_remaining.toNat + rank f.state
decreasing_by exact processStep_decreases build f _ _h

def processData (build : List UInt8 → Option Publication) (f : StreamPublicationFramer)
    (chunk : Chunk) :
    StreamPublicationFramer × List Completed :=
  processLoop build chunk.data f chunk.len

/-- The calls of `process_data` on one connection, and what they call back with. -/
def processChunks (build : List UInt8 → Option Publication) :
    StreamPublicationFramer → List Chunk → StreamPublicationFramer × List Completed
  | f, [] => (f, [])
  | f, chunk :: chunks =>
    let first := f.processData build chunk
    let rest := processChunks build first.1 chunks
    (rest.1, first.2 ++ rest.2)

/-! ## The frames of a stream -/

/-- Read a length, then as many bytes, as long as all of them are there. -/
def frames (stream : List UInt8) : List (List UInt8) :=
  let n := BigEndian.value (stream.take 4)
  if 4 + n ≤ stream.length then (stream.drop 4).take n :: frames (stream.drop (4 + n)) else []
termination_by stream.length

/-- One call for each frame that has a content and can be decoded. -/
def callbacks (build : List UInt8 → Option Publication) (stream : List UInt8) : List Completed :=
  (frames stream).filterMap fun content =>
    if content = [] then none else (build content).map fun p => (p, content.length)

theorem frames_of_header {header content : List UInt8} (rest : List UInt8)
    (hlen : header.length = 4) (hvalue : BigEndian.value header = content.length) :
    frames (header ++ content ++ rest) = content :: frames rest := by
  have htake : (header ++ content ++ rest).take 4 = header := by
    rw [List.append_assoc, ← hlen, List.take_left]
  have hdrop : (header ++ content ++ rest).drop 4 = content ++ rest := by
    rw [List.append_assoc, ← hlen, List.drop_left]
  rw [frames]
  simp only [htake, hvalue]
  rw [if_pos (by simp [hlen]), hdrop, List.take_left, ← List.drop_drop, hdrop, List.drop_left]

theorem frames_of_short {stream : List UInt8}
    (h : stream.length < 4 + BigEndian.value (stream.take 4)) :
    frames stream = [] := by
  rw [frames, if_neg (by omega)]

theorem frames_nil : frames [] = [] := frames_of_short (Nat.lt_add_right _ (by decide))

/-! ## The bytes of the frame that is not complete -/

/-- The framer got the bytes `seen` of the current frame. -/
def Holds (f : StreamPublicationFramer) (seen : List UInt8) : Prop :=
  f.size_buffer.length = 4 ∧
    match f.state with
    | .empty => seen = [] ∧ f.publication_buffer = []
    | .waiting_for_size =>
      seen.length + f.size_field_remaining_bytes.toNat = 4 ∧ f.size_buffer.take seen.length = seen ∧
        f.publication_buffer = []
    | .waiting_for_data =>
      ∃ header : List UInt8, header.length = 4 ∧ seen = header ++ f.publication_buffer ∧
        BigEndian.value header = f.publicaton_full_size.toNat ∧
        f.publication_buffer.length + f.publicaton_remaining_bytes.toNat =
          f.publicaton_full_size.toNat ∧
        (f.publicaton_remaining_bytes = 0 → f.publicaton_full_size = 0)

theorem toNat_ntohl {bs : List UInt8} (h : bs.length = 4) :
    (ntohl bs).toNat = BigEndian.value bs := by
  have hlt := BigEndian.value_lt bs
  rw [h] at hlt
  rw [ntohl, UInt32.toNat_ofNat', Nat.mod_eq_of_lt]
  omega

/-- Whatever follows, the frames of `seen` and `rest` give `out` and those of `seen'` and
`rest'`. -/
def Reads (build : List UInt8 → Option Publication) (seen rest : List UInt8) (out : List Completed)
    (seen' rest' : List UInt8) : Prop :=
  ∀ later, callbacks build (seen ++ (rest ++ later)) = out ++
    callbacks build (seen' ++ (rest' ++ later))

variable {build : List UInt8 → Option Publication}

theorem reads_of_eq {seen rest seen' rest' : List UInt8} (h : seen ++ rest = seen' ++ rest') :
    Reads build seen rest [] seen' rest' := by
  intro later
  rw [List.nil_append, ← List.append_assoc, h, List.append_assoc]

theorem Reads.trans {seen rest seen' rest' seen'' rest'' : List UInt8} {out out' : List Completed}
    (h : Reads build seen rest out seen' rest') (h' : Reads build seen' rest' out' seen'' rest'') :
    Reads build seen rest (out ++ out') seen'' rest'' := by
  intro later
  rw [h later, h' later, List.append_assoc]

/-- The framer takes `k` of the bytes `rest` that are left of a chunk. -/
structure Takes (build : List UInt8 → Option Publication) (f : StreamPublicationFramer)
    (seen rest : List UInt8) (bytes_remaining : UInt32) (k : Nat) (seen' : List UInt8) : Prop where
  holds : (f.processStep build rest bytes_remaining).1.Holds seen'
  bound : k ≤ rest.length
  left : (f.processStep build rest bytes_remaining).2.1.toNat = rest.length - k
  reads : Reads build seen rest (f.processStep build rest bytes_remaining).2.2 seen' (rest.drop k)

theorem memcpy_take (seen src : List UInt8) {dst : List UInt8} (hdst : dst.length = 4)
    (hseen : dst.take seen.length = seen)
    (hlen : seen.length + src.length ≤ 4) :
    (memcpy dst seen.length src).take (seen ++ src).length = seen ++ src ∧
    (memcpy dst seen.length src).length = 4 := by
  have heq : memcpy dst seen.length src = seen ++ src ++ dst.drop (seen.length + src.length) := by
    rw [memcpy, hseen]
  rw [heq]
  refine ⟨List.take_left, ?_⟩
  simp [hdst]
  omega

theorem takes_empty {f : StreamPublicationFramer} {seen rest : List UInt8} {n : UInt32}
    (hstate : f.state = .empty) (hf : f.Holds seen) (hlen : rest.length = n.toNat) :
    ∃ k seen', f.Takes build seen rest n k seen' := by
  simp only [Holds, hstate] at hf
  obtain ⟨hsize, rfl, hbuffer⟩ := hf
  have hfour : (4 : UInt32).toNat = 4 := rfl
  by_cases h4 : 4 ≤ n
  · have h4' : 4 ≤ rest.length := by rw [hlen]; exact UInt32.le_iff_toNat_le.mp h4
    have htake : (rest.take 4).length = 4 := by rw [List.length_take]; omega
    refine ⟨4, rest.take 4, ?_, h4', ?_, ?_⟩
    · simp only [processStep, hstate, if_pos h4, Holds]
      exact ⟨hsize, rest.take 4,
        htake, by simp [hbuffer], (toNat_ntohl htake).symm, by simp [hbuffer], id⟩
    · simp only [processStep, hstate, if_pos h4, UInt32.toNat_sub_of_le _ _ h4, hlen, hfour]
    · simp only [processStep, hstate, if_pos h4]
      exact reads_of_eq (by simp)
  · have hle : n ≤ 4 := UInt32.le_of_lt (UInt32.not_le.mp h4)
    have hle' : n.toNat ≤ 4 := UInt32.le_iff_toNat_le.mp hle
    have hall : rest.take n.toNat = rest := List.take_of_length_le (by omega)
    obtain ⟨hcopy, hsize'⟩ := memcpy_take [] rest hsize rfl (by simp; omega)
    refine ⟨rest.length, rest, ?_, Nat.le_refl _, ?_, ?_⟩
    · simp only [processStep, hstate, if_neg h4, Holds, hall]
      refine ⟨hsize', ?_, hcopy, hbuffer⟩
      rw [UInt32.toNat_sub_of_le _ _ hle]
      omega
    · simp only [processStep, hstate, if_neg h4, UInt32.toNat_zero, Nat.sub_self]
    · simp only [processStep, hstate, if_neg h4]
      exact reads_of_eq (by simp)

theorem takes_size {f : StreamPublicationFramer} {seen rest : List UInt8} {n : UInt32}
    (hstate : f.state = .waiting_for_size) (hf : f.Holds seen) (hlen : rest.length = n.toNat) :
    ∃ k seen', f.Takes build seen rest n k seen' := by
  simp only [Holds, hstate] at hf
  obtain ⟨hsize, hmissing, hseen, hbuffer⟩ := hf
  have hfour : (4 : UInt32).toNat = 4 := rfl
  have hoffset : (4 - f.size_field_remaining_bytes).toNat = seen.length := by
    rw [UInt32.toNat_sub_of_le _ _ (UInt32.le_iff_toNat_le.mpr (by omega))]
    omega
  by_cases hlt : f.size_field_remaining_bytes < n
  · have hlt' := UInt32.lt_iff_toNat_lt.mp hlt
    let src := rest.take f.size_field_remaining_bytes.toNat
    have hsrc : src.length = f.size_field_remaining_bytes.toNat := by
      rw [List.length_take]
      omega
    obtain ⟨hcopy, hsize'⟩ := memcpy_take seen src hsize hseen (by omega)
    have hheader : memcpy f.size_buffer seen.length src = seen ++ src := by
      rw [← hcopy, List.take_of_length_le (by rw [hsize', List.length_append]; omega)]
    refine ⟨f.size_field_remaining_bytes.toNat, seen ++ src, ?_, by omega, ?_, ?_⟩
    · simp only [processStep, hstate, if_pos hlt, Holds, hoffset]
      refine ⟨hsize', seen ++ src, by rw [List.length_append]; omega, by simp [hbuffer], ?_, by simp [hbuffer], id⟩
      rw [hheader, toNat_ntohl (by rw [List.length_append]; omega)]
    · simp only [processStep, hstate, if_pos hlt, UInt32.toNat_sub_of_le _ _ (UInt32.le_of_lt hlt),
        hlen]
    · simp only [processStep, hstate, if_pos hlt]
      exact reads_of_eq (by rw [List.append_assoc, List.take_append_drop])
  · have hle : n ≤ f.size_field_remaining_bytes := UInt32.not_lt.mp hlt
    have hle' := UInt32.le_iff_toNat_le.mp hle
    have hall : rest.take n.toNat = rest := List.take_of_length_le (by omega)
    obtain ⟨hcopy, hsize'⟩ := memcpy_take seen rest hsize hseen (by omega)
    refine ⟨rest.length, seen ++ rest, ?_, Nat.le_refl _, ?_, ?_⟩
    · simp only [processStep, hstate, if_neg hlt, Holds, hoffset, hall]
      refine ⟨hsize', ?_, hcopy, hbuffer⟩
      rw [UInt32.toNat_sub_of_le _ _ hle, List.length_append]
      omega
    · simp only [processStep, hstate, if_neg hlt, UInt32.toNat_zero, Nat.sub_self]
    · simp only [processStep, hstate, if_neg hlt]
      exact reads_of_eq (by simp)

theorem reads_complete {f : StreamPublicationFramer} {header rest : List UInt8}
    (hheader : header.length = 4) (hvalue : BigEndian.value header = f.publicaton_full_size.toNat)
    (hbuffer : f.publication_buffer.length = f.publicaton_full_size.toNat) :
    Reads build (header ++ f.publication_buffer) rest (f.complete build).2 [] rest := by
  intro later
  have hframes := frames_of_header (rest ++ later) hheader (hvalue.trans hbuffer.symm)
  simp only [callbacks, hframes, complete, List.nil_append, List.filterMap_cons]
  by_cases hempty : f.publication_buffer = []
  · have hzero : ¬ 0 < f.publicaton_full_size := by
      rw [UInt32.lt_iff_toNat_lt, ← hbuffer, hempty]
      exact Nat.lt_irrefl 0
    rw [if_pos hempty, if_neg hzero]
    rfl
  · have hpos : 0 < f.publicaton_full_size := by
      rw [UInt32.lt_iff_toNat_lt, ← hbuffer]
      exact List.length_pos_iff.mpr hempty
    rw [if_neg hempty, if_pos hpos, hbuffer]
    cases build f.publication_buffer with
    | none => rfl
    | some p => rfl

theorem takes_data {f : StreamPublicationFramer} {seen rest : List UInt8} {n : UInt32}
    (hstate : f.state = .waiting_for_data) (hf : f.Holds seen) (hlen : rest.length = n.toNat) :
    ∃ k seen', f.Takes build seen rest n k seen' := by
  simp only [Holds, hstate] at hf
  obtain ⟨hsize, header, hheader, rfl, hvalue, hbuffer, -⟩ := hf
  by_cases hlt : n < f.publicaton_remaining_bytes
  · have hlt' := UInt32.lt_iff_toNat_lt.mp hlt
    have hsub := UInt32.toNat_sub_of_le _ _ (UInt32.le_of_lt hlt)
    have hne : f.publicaton_remaining_bytes - n ≠ 0 := by
      intro h0
      rw [h0, UInt32.toNat_zero] at hsub
      omega
    have hall : rest.take n.toNat = rest := List.take_of_length_le (by omega)
    refine ⟨rest.length, header ++ (f.publication_buffer ++ rest), ?_, Nat.le_refl _, ?_, ?_⟩
    · simp only [processStep, hstate, if_pos hlt, if_neg hne, Holds, hall]
      exact ⟨hsize, header, hheader, rfl, hvalue, by rw [List.length_append, hsub]; omega, fun h => absurd h hne⟩
    · simp only [processStep, hstate, if_pos hlt, if_neg hne, UInt32.sub_self, UInt32.toNat_zero, Nat.sub_self]
    · simp only [processStep, hstate, if_pos hlt, if_neg hne]
      exact reads_of_eq (by simp)
  · have hle : f.publicaton_remaining_bytes ≤ n := UInt32.not_lt.mp hlt
    have hle' := UInt32.le_iff_toNat_le.mp hle
    let taken := rest.take f.publicaton_remaining_bytes.toNat
    have htaken : taken.length = f.publicaton_remaining_bytes.toNat := by
      rw [List.length_take]
      omega
    refine ⟨f.publicaton_remaining_bytes.toNat, [], ?_, by omega, ?_, ?_⟩
    · simp only [processStep, hstate, if_neg hlt, UInt32.sub_self, if_true, complete, Holds, and_true]
      exact hsize
    · simp only [processStep, hstate, if_neg hlt, UInt32.sub_self, if_true, UInt32.toNat_sub_of_le _ _ hle, hlen]
    · simp only [processStep, hstate, if_neg hlt, UInt32.sub_self, if_true]
      have hsplit : Reads build (header ++ f.publication_buffer) rest []
          (header ++ (f.publication_buffer ++ taken)) (rest.drop f.publicaton_remaining_bytes.toNat) :=
        reads_of_eq (by simp [taken])
      have hfull : (f.publication_buffer ++ taken).length = f.publicaton_full_size.toNat := by
        rw [List.length_append]
        omega
      exact hsplit.trans (reads_complete
        (f := { f with publication_buffer := f.publication_buffer ++ taken, publicaton_remaining_bytes := 0 })
        hheader hvalue hfull)

variable (build) in
theorem takes {f : StreamPublicationFramer} {seen rest : List UInt8} {n : UInt32}
    (hf : f.Holds seen) (hlen : rest.length = n.toNat) :
    ∃ k seen', f.Takes build seen rest n k seen' := by
  cases hstate : f.state with
  | empty => exact takes_empty hstate hf hlen
  | waiting_for_size => exact takes_size hstate hf hlen
  | waiting_for_data => exact takes_data hstate hf hlen

/-! ## Whole chunks and whole streams -/

theorem holds_fresh : fresh.Holds [] := ⟨rfl, rfl, rfl⟩

theorem callbacks_of_header {seen : List UInt8} (h : seen.length ≤ 4) :
    callbacks build seen = [] := by
  by_cases hshort : seen.length < 4 + BigEndian.value (seen.take 4)
  · rw [callbacks, frames_of_short hshort, List.filterMap_nil]
  · -- the header of a frame without content
    have hvalue : BigEndian.value seen = 0 := by
      rw [List.take_of_length_le h] at hshort
      omega
    have hlen : seen.length = 4 := by omega
    have hframes : frames (seen ++ [] ++ []) = [] :: frames [] := frames_of_header [] hlen hvalue
    rw [List.append_nil, List.append_nil, frames_nil] at hframes
    rw [callbacks, hframes]
    rfl

theorem callbacks_of_holds {f : StreamPublicationFramer} {seen : List UInt8} (hf : f.Holds seen) :
    callbacks build seen = [] := by
  obtain ⟨-, hf⟩ := hf
  split at hf
  · obtain ⟨rfl, -⟩ := hf
    exact callbacks_of_header (Nat.zero_le 4)
  · obtain ⟨hmissing, -, -⟩ := hf
    exact callbacks_of_header (by omega)
  · obtain ⟨header, hheader, rfl, hvalue, hbuffer, hnone⟩ := hf
    by_cases h0 : f.publicaton_remaining_bytes = 0
    · have hfull : f.publicaton_full_size.toNat = 0 := by rw [hnone h0, UInt32.toNat_zero]
      exact callbacks_of_header (by rw [List.length_append]; omega)
    · have hpos : f.publicaton_remaining_bytes.toNat ≠ 0 := fun h => h0 (UInt32.toNat_inj.mp h)
      rw [callbacks, frames_of_short, List.filterMap_nil]
      rw [← hheader, List.take_left, List.length_append]
      omega

variable (build) in
theorem processLoop_spec {data : List UInt8} (hfits : data.length < 2 ^ 32)
    {f : StreamPublicationFramer} {seen : List UInt8} {n : UInt32} (hf : f.Holds seen)
    (hn : n.toNat ≤ data.length) :
    ∃ seen', (processLoop build data f n).1.Holds seen' ∧
      Reads build seen (data.drop (data.length - n.toNat)) (processLoop build data f n).2 seen'
        [] := by
  fun_induction processLoop build data f n generalizing seen with
  | case1 f n hpos rest step tail =>
    rename_i ih
    have hlen : (UInt32.ofNat data.length).toNat = data.length := by
      rw [UInt32.toNat_ofNat', Nat.mod_eq_of_lt hfits]
    have hrest : rest = data.drop (data.length - n.toNat) := by
      show data.drop _ = _
      rw [UInt32.toNat_sub_of_le _ _ (UInt32.le_iff_toNat_le.mpr (by omega)), hlen]
    have hrestlen : rest.length = n.toNat := by
      rw [hrest, List.length_drop]
      omega
    obtain ⟨k, seen', htakes⟩ := takes build hf hrestlen
    have hleft := htakes.left
    have hbound := htakes.bound
    obtain ⟨seen'', hholds, hreads⟩ :=
      ih htakes.holds (by show (f.processStep build rest n).2.1.toNat ≤ _; omega)
    refine ⟨seen'', hholds, ?_⟩
    rw [← hrest]
    refine htakes.reads.trans ?_
    have hdrop : rest.drop k = data.drop
        (data.length - (f.processStep build rest n).2.1.toNat) := by
      rw [hrest, List.drop_drop, ← hrest, hleft]
      congr 1
      omega
    rw [hdrop]
    exact hreads
  | case2 f n hpos =>
    have hzero : n.toNat = 0 := by
      have := mt UInt32.lt_iff_toNat_lt.mpr hpos
      simpa using this
    rw [hzero]
    exact ⟨seen, hf, reads_of_eq (by simp)⟩

variable (build) in
theorem processData_spec {f : StreamPublicationFramer} {seen : List UInt8} (hf : f.Holds seen)
    (chunk : Chunk) :
    ∃ seen', (f.processData build chunk).1.Holds seen' ∧
      Reads build seen chunk.data (f.processData build chunk).2 seen' [] := by
  have hlen : chunk.len.toNat = chunk.data.length := by
    rw [Chunk.len, UInt32.toNat_ofNat', Nat.mod_eq_of_lt chunk.fits]
  have h := processLoop_spec build chunk.fits hf (n := chunk.len) (by omega)
  rwa [hlen, Nat.sub_self, List.drop_zero] at h

variable (build) in
theorem processChunks_spec {f : StreamPublicationFramer} {seen : List UInt8} (hf : f.Holds seen)
    (chunks : List Chunk) :
    ∃ seen', (f.processChunks build chunks).1.Holds seen' ∧
      Reads build seen (chunks.flatMap Chunk.data) (f.processChunks build chunks).2 seen' [] := by
  induction chunks generalizing f seen with
  | nil => exact ⟨seen, hf, reads_of_eq (by simp)⟩
  | cons chunk chunks ih =>
    obtain ⟨seen', hf', hreads⟩ := processData_spec build hf chunk
    obtain ⟨seen'', hf'', hreads'⟩ := ih hf'
    refine ⟨seen'', hf'', ?_⟩
    intro later
    rw [List.flatMap_cons, List.append_assoc, hreads, List.nil_append, hreads']
    exact (List.append_assoc _ _ _).symm

/-- However a stream is cut, the calls are those of its frames. -/
theorem framing_independent_of_cut (build : List UInt8 → Option Publication) (chunks : List Chunk) :
    (fresh.processChunks build chunks).2 = callbacks build (chunks.flatMap Chunk.data) := by
  obtain ⟨seen, hholds, hreads⟩ := processChunks_spec build holds_fresh chunks
  have h := hreads []
  simp only [List.nil_append, List.append_nil, callbacks_of_holds hholds] at h
  exact h.symm

end StreamPublicationFramer

end UActor
