import Mathlib.Algebra.Group.Int.Defs
import Mathlib.Algebra.Group.Nat.Defs
import UActor.Lib.Assoc
import UActor.Lib.Runs

/-!
# The TCP writer

`write`, `write_handler` and `keepalive` of `tcp_forwarder.cpp`. A buffer is not changed once it is
passed to `write`, so connections that share one hold it by value.
-/

namespace UActor

/-- A `std::vector<char>`, which has at most as many bytes as a `ptrdiff_t` counts. -/
structure Buffer where
  bytes : List UInt8
  fits : bytes.length < 2 ^ 63

/-! ## The socket -/

inductive Errno where
  | EAGAIN
  | EWOULDBLOCK
  | other
deriving DecidableEq, Repr

inductive SendReturn where
  | accepted (count : Nat)
  | failed (errno : Errno)
deriving DecidableEq, Repr

def SendReturn.count : SendReturn → Nat
  | .accepted count => count
  | .failed _ => 0

def SendReturn.value : SendReturn → Int
  | .accepted count => count
  | .failed _ => -1

/-- What `send` answers for a number of bytes. It takes no more than it is given, and no more than
`0x7ffff000` bytes in one call. -/
structure Send where
  answer : Nat → SendReturn
  bound : ∀ size count, answer size = .accepted count → count ≤ size ∧ count ≤ 0x7ffff000

/-- The conversion of an `ssize_t` to an `int`. -/
def toInt (n : Int) : Int := n.bmod (2 ^ 32)

/-- The conversion of an integer to a `size_t`. -/
def toSize (n : Int) : Nat := (n % 2 ^ 64).toNat

/-! ## Connections -/

/-- A connection, with what its socket took and what was passed to `write`. -/
structure TCPConnection where
  write_buffer : List Buffer
  write_offset : Nat
  last_read_contact : UInt32
  last_write_contact : UInt32
  taken : List UInt8
  passed : List Buffer

inductive SendOutcome where
  | error
  | completed
  | progress
deriving DecidableEq, Repr

namespace TCPConnection

def opened (now : UInt32) : TCPConnection := ⟨[], 0, now, 0, [], []⟩

/-- One `send` of what is left of the front buffer, and the branches on its result. -/
def sendFront (send : Send) (front : Buffer) (rest : List Buffer) (c : TCPConnection) :
    TCPConnection × SendOutcome :=
  let remaining_size := toSize (front.bytes.length - c.write_offset)
  let result := send.answer remaining_size
  let written := toInt result.value
  let c := { c with taken := c.taken ++ (front.bytes.drop c.write_offset).take result.count }
  if written < 0 ∧ result ≠ .failed .EAGAIN ∧ result ≠ .failed .EWOULDBLOCK then (c, .error)
  else if toSize written = remaining_size then
    ({ c with write_buffer := rest, write_offset := 0 }, .completed)
  else if 0 < written then ({ c with write_offset := toSize (c.write_offset + written) }, .progress)
  else (c, .progress)

def push (c : TCPConnection) (dataset : Buffer) : TCPConnection :=
  { c with write_buffer := c.write_buffer ++ [dataset], passed := c.passed ++ [dataset] }

/-- `write` after the push. The result is true after an error. -/
def sendQueued (send : Send) (now : UInt32) (c : TCPConnection) : TCPConnection × Bool :=
  match c.write_buffer with
  | [] => (c, false)
  | front :: rest =>
    match c.sendFront send front rest with
    | (c, .error) => (c, true)
    | (c, _) => ({ c with last_write_contact := now }, false)

def write (send : Send) (now : UInt32) (c : TCPConnection) (dataset : Buffer) :
    TCPConnection × Bool :=
  (c.push dataset).sendQueued send now

/-- The loop goes over the queue: it goes on only after it took off the front buffer. `sends` are
the answers to its calls, in order. -/
def writeLoop (now : UInt32) : (Nat → Send) → List Buffer → TCPConnection → TCPConnection × Bool
  | _, [], c => (c, false)
  | sends, front :: rest, c =>
    match c.sendFront (sends 0) front rest with
    | (c, .error) => (c, true)
    | (c, .completed) => writeLoop now (fun i => sends (i + 1)) rest { c with last_write_contact :=
        now }
    | (c, .progress) => (c, false)

def writeHandler (sends : Nat → Send) (now : UInt32) (c : TCPConnection) : TCPConnection × Bool :=
  writeLoop now sends c.write_buffer c

end TCPConnection

/-! ## The forwarder -/

structure TCPForwarder where
  next_local_id : UInt32
  remotes : List (UInt32 × TCPConnection)

/-- The buffer of `keepalive`: four zeros, a frame without content. -/
def keepaliveBuffer : Buffer := ⟨[0, 0, 0, 0], by decide⟩

inductive TCPEvent where
  | addRemoteConnection (now : UInt32)
  | write (id : UInt32) (dataset : Buffer) (send : Send) (now : UInt32)
  | writeHandler (id : UInt32) (sends : Nat → Send) (now : UInt32)
  | keepalive (sends : UInt32 → Send) (now : UInt32)
  | dataHandler (id : UInt32) (closed : Bool) (now : UInt32)

namespace TCPForwarder

def init : TCPForwarder := ⟨0, []⟩

def addRemoteConnection (now : UInt32) (f : TCPForwarder) : TCPForwarder :=
  let remotes := match Assoc.find f.next_local_id f.remotes with
    | some _ => f.remotes
    | none => Assoc.put f.next_local_id (TCPConnection.opened now) f.remotes
  ⟨f.next_local_id + 1, remotes⟩

/-- The two loops of `keepalive` for one connection. -/
def keepaliveOne (send : Send) (now : UInt32) (c : TCPConnection) : TCPConnection :=
  if 120 < now - c.last_read_contact ∧ 0 < c.last_read_contact then c
  else if 10 < now - c.last_write_contact then
    match c.write send now keepaliveBuffer with
    | (c, true) => c
    | (c, false) => { c with last_write_contact := now }
  else c

/-- A call for a connection of the forwarder. The event loop closes the connection after an
error. -/
def step (f : TCPForwarder) : TCPEvent → TCPForwarder
  | .addRemoteConnection now => f.addRemoteConnection now
  | .write id dataset send now =>
    match Assoc.find id f.remotes with
    | some c => { f with remotes := Assoc.put id (c.write send now dataset).1 f.remotes }
    | none => f
  | .writeHandler id sends now =>
    match Assoc.find id f.remotes with
    | some c =>
      match c.writeHandler sends now with
      | (_, true) => { f with remotes := Assoc.erase id f.remotes }
      | (c, false) => { f with remotes := Assoc.put id c f.remotes }
    | none => f
  | .keepalive sends now => { f with remotes := f.remotes.map fun e =>
      (e.1, keepaliveOne (sends e.1) now e.2) }
  | .dataHandler id closed now =>
    match Assoc.find id f.remotes with
    | some c =>
      if closed then { f with remotes := Assoc.erase id f.remotes }
      else { f with remotes := Assoc.put id { c with last_read_contact := now } f.remotes }
    | none => f

def run (events : List TCPEvent) : TCPForwarder := events.foldl step init

end TCPForwarder

/-! ## The stream -/

def concat (bs : List Buffer) : List UInt8 := bs.flatMap Buffer.bytes

namespace TCPConnection

/-- The rest of the front buffer, and the other queued buffers. -/
def unsent (c : TCPConnection) : List UInt8 :=
  match c.write_buffer with
  | [] => []
  | front :: rest => front.bytes.drop c.write_offset ++ concat rest

/-- What the socket took and what is left to send are what was passed to `write`. -/
structure Preserves (c : TCPConnection) : Prop where
  stream : c.taken ++ c.unsent = concat c.passed
  offset : ∀ front ∈ c.write_buffer.head?, c.write_offset ≤ front.bytes.length
  idle : c.write_buffer = [] → c.write_offset = 0

theorem toSize_sub {n m : Nat} (hm : m ≤ n) (hn : n < 2 ^ 63) : toSize (n - m) = n - m := by
  unfold toSize
  omega

theorem toInt_count {n : Nat} (h : n ≤ 0x7ffff000) : toInt n = n := by
  unfold toInt
  rw [Int.bmod_eq_of_le] <;> omega

/-- What one `send` leaves of the front buffer. -/
inductive Sent (front : Buffer) (rest : List Buffer) (c : TCPConnection) :
    TCPConnection × SendOutcome → Prop
  | error : Sent front rest c (c, .error)
  | blocked : Sent front rest c (c, .progress)
  | completed {c'} (htaken : c'.taken = c.taken ++ front.bytes.drop c.write_offset)
      (hbuffer : c'.write_buffer = rest) (hoffset : c'.write_offset = 0)
      (hpassed : c'.passed = c.passed) : Sent front rest c (c', .completed)
  | progress {c'} (count : Nat) (hcount : c.write_offset + count ≤ front.bytes.length)
      (htaken : c'.taken = c.taken ++ (front.bytes.drop c.write_offset).take count)
      (hbuffer : c'.write_buffer = c.write_buffer)
      (hoffset : c'.write_offset = c.write_offset + count) (hpassed : c'.passed = c.passed) :
      Sent front rest c (c', .progress)

theorem sendFront_sent (send : Send) {front : Buffer} (rest : List Buffer) {c : TCPConnection}
    (hoffset : c.write_offset ≤ front.bytes.length) :
    Sent front rest c (c.sendFront send front rest) := by
  have hfits := front.fits
  have hsize := toSize_sub hoffset hfits
  unfold sendFront
  simp only [hsize]
  cases hanswer : send.answer (front.bytes.length - c.write_offset) with
  | accepted count =>
    obtain ⟨hle, hmax⟩ := send.bound _ _ hanswer
    have hwritten : toInt (SendReturn.accepted count).value = count := toInt_count hmax
    have hcount : toSize count = count := by unfold toSize; omega
    simp only [hwritten, hcount, SendReturn.count]
    rw [if_neg (by omega)]
    split
    · rename_i hall
      refine Sent.completed ?_ rfl rfl rfl
      rw [List.take_of_length_le (by rw [List.length_drop]; omega)]
    · split
      · have hmoved : toSize (c.write_offset + count) = c.write_offset + count := by
          unfold toSize
          omega
        exact Sent.progress count (by omega) rfl rfl hmoved rfl
      · have hzero : count = 0 := by omega
        rw [hzero, List.take_zero, List.append_nil]
        exact Sent.blocked
  | failed errno =>
    have hwritten : toInt (SendReturn.failed errno).value = -1 := rfl
    have hnot : toSize (-1) ≠ front.bytes.length - c.write_offset := by
      have : toSize (-1) = 2 ^ 64 - 1 := by decide
      omega
    simp only [hwritten, SendReturn.count, List.take_zero, List.append_nil, if_neg hnot]
    split
    · exact Sent.error
    · exact Sent.blocked

theorem Preserves.sendFront {c : TCPConnection} (h : c.Preserves) (send : Send) {front : Buffer}
    {rest : List Buffer} (hbuffer : c.write_buffer = front :: rest) :
    (c.sendFront send front rest).1.Preserves ∧
      ((c.sendFront send front rest).2 = .completed →
        (c.sendFront send front rest).1.write_buffer = rest) := by
  have hstream := h.stream
  have hoffset := h.offset front (by rw [hbuffer]; rfl)
  simp only [unsent, hbuffer] at hstream
  have hsent := sendFront_sent send rest hoffset
  generalize c.sendFront send front rest = result at hsent
  cases hsent with
  | error => exact ⟨h, nofun⟩
  | blocked => exact ⟨h, nofun⟩
  | @completed c' htaken hrest hzero hpassed =>
    refine ⟨⟨?_, fun front' _ => ?_, fun _ => hzero⟩, fun _ => hrest⟩
    · have hunsent : c'.unsent = concat rest := by
        unfold unsent
        rw [hrest, hzero]
        cases rest with
        | nil => rfl
        | cons b rest => simp [concat]
      rw [htaken, hunsent, hpassed, List.append_assoc]
      exact hstream
    · rw [hzero]
      exact Nat.zero_le _
  | @progress c' count hcount htaken hsame hmoved hpassed =>
    refine ⟨⟨?_, ?_, fun hnil => ?_⟩, nofun⟩
    · have hunsent : c'.unsent = (front.bytes.drop c.write_offset).drop count ++ concat rest := by
        unfold unsent
        rw [hsame, hbuffer, hmoved, List.drop_drop]
      rw [htaken, hunsent, hpassed, List.append_assoc, ← List.append_assoc (List.take _ _),
        List.take_append_drop]
      exact hstream
    · intro front' hfront'
      rw [hsame, hbuffer] at hfront'
      rw [hmoved, ← Option.some.inj hfront']
      exact hcount
    · rw [hsame, hbuffer] at hnil
      simp at hnil

theorem Preserves.push {c : TCPConnection} (h : c.Preserves) (dataset : Buffer) :
    (c.push dataset).Preserves := by
  obtain ⟨hstream, hoffset, hidle⟩ := h
  unfold TCPConnection.push
  cases hbuffer : c.write_buffer with
  | nil =>
    simp only [unsent, hbuffer, List.append_nil] at hstream
    refine ⟨?_, fun front _ => ?_, nofun⟩
    · simp [unsent, hidle hbuffer, hstream, concat]
    · rw [hidle hbuffer]
      exact Nat.zero_le _
  | cons front rest =>
    simp only [unsent, hbuffer] at hstream
    refine ⟨?_, fun front' hfront' => ?_, nofun⟩
    · have hpassed : concat (c.passed ++ [dataset]) = concat c.passed ++ dataset.bytes := by
        simp [concat]
      show c.taken ++ (front.bytes.drop c.write_offset ++ concat (rest ++ [dataset])) = _
      rw [hpassed, ← hstream]
      simp [concat]
    · rw [hbuffer] at hoffset
      exact hoffset front' hfront'

theorem Preserves.contact {c c' : TCPConnection} (h : c.Preserves)
    (hbuffer : c'.write_buffer = c.write_buffer) (hoffset : c'.write_offset = c.write_offset)
    (htaken : c'.taken = c.taken) (hpassed : c'.passed = c.passed) :
    c'.Preserves := by
  obtain ⟨hstream, hfront, hidle⟩ := h
  refine ⟨?_, ?_, ?_⟩
  · unfold unsent at hstream ⊢
    rw [hbuffer, hoffset, htaken, hpassed]
    exact hstream
  · rw [hbuffer, hoffset]
    exact hfront
  · rw [hbuffer, hoffset]
    exact hidle

theorem Preserves.sendQueued {c : TCPConnection} (h : c.Preserves) (send : Send) (now : UInt32) :
    (c.sendQueued send now).1.Preserves := by
  unfold TCPConnection.sendQueued
  split
  · exact h
  · rename_i front rest hbuffer
    have hsent := (h.sendFront send hbuffer).1
    split
    · rename_i heq
      rw [heq] at hsent
      exact hsent
    · rename_i heq
      rw [heq] at hsent
      exact hsent.contact rfl rfl rfl rfl

theorem Preserves.write {c : TCPConnection} (h : c.Preserves) (send : Send) (now : UInt32)
    (dataset : Buffer) : (c.write send now dataset).1.Preserves :=
  (h.push dataset).sendQueued send now

theorem Preserves.writeLoop {c : TCPConnection} (h : c.Preserves) (now : UInt32)
    (sends : Nat → Send) {queue : List Buffer} (hqueue : c.write_buffer = queue) :
    (c.writeLoop now sends queue).1.Preserves := by
  induction queue generalizing c sends with
  | nil => exact h
  | cons front rest ih =>
    obtain ⟨hsent, hrest⟩ := h.sendFront (sends 0) hqueue
    unfold TCPConnection.writeLoop
    split
    · rename_i heq
      rw [heq] at hsent
      exact hsent
    · rename_i c' heq
      rw [heq] at hsent hrest
      exact ih (c := { c' with last_write_contact := now }) (hsent.contact rfl rfl rfl rfl) _
        (hrest rfl)
    · rename_i heq
      rw [heq] at hsent
      exact hsent

theorem preserves_opened (now : UInt32) : (opened now).Preserves := ⟨rfl, nofun, fun _ => rfl⟩

end TCPConnection

namespace TCPForwarder

theorem preserves_keepalive {c : TCPConnection} (h : c.Preserves) (send : Send) (now : UInt32) :
    (keepaliveOne send now c).Preserves := by
  have hwrite := h.write send now keepaliveBuffer
  unfold keepaliveOne
  split
  · exact h
  · split
    · split
      · rename_i heq
        rw [heq] at hwrite
        exact hwrite
      · rename_i heq
        rw [heq] at hwrite
        exact hwrite.contact rfl rfl rfl rfl
    · exact h

/-- Every connection preserves its stream. -/
def Preserves (f : TCPForwarder) : Prop := ∀ e ∈ f.remotes, e.2.Preserves

theorem Preserves.put {f : TCPForwarder} (h : f.Preserves) {c : TCPConnection} (hc : c.Preserves)
    (id : UInt32) :
    Preserves { f with remotes := Assoc.put id c f.remotes } := by
  intro e he
  rcases Assoc.mem_put he with he | rfl
  · exact h e he
  · exact hc

theorem Preserves.erase {f : TCPForwarder} (h : f.Preserves) (id : UInt32) :
    Preserves { f with remotes := Assoc.erase id f.remotes } :=
  fun e he => h e (List.mem_of_mem_filter he)

theorem Preserves.step {f : TCPForwarder} (h : f.Preserves) (event : TCPEvent) :
    (f.step event).Preserves := by
  have hfound {id c} (hfind : Assoc.find id f.remotes = some c) : c.Preserves :=
    h _ (Assoc.mem_of_find hfind)
  cases event with
  | addRemoteConnection now =>
    simp only [TCPForwarder.step, addRemoteConnection]
    split
    · exact h
    · exact h.put (TCPConnection.preserves_opened now) _
  | write id dataset send now =>
    simp only [TCPForwarder.step]
    split
    · rename_i c hfind
      exact h.put ((hfound hfind).write send now dataset) id
    · exact h
  | writeHandler id sends now =>
    simp only [TCPForwarder.step]
    split
    · rename_i c hfind
      have hloop := (hfound hfind).writeLoop now sends rfl
      split
      · exact h.erase id
      · rename_i c' heq
        rw [← TCPConnection.writeHandler, heq] at hloop
        exact h.put hloop id
    · exact h
  | keepalive sends now =>
    intro e he
    obtain ⟨e', he', rfl⟩ := List.mem_map.mp he
    exact preserves_keepalive (h e' he') _ now
  | dataHandler id closed now =>
    simp only [TCPForwarder.step]
    split
    · rename_i c hfind
      split
      · exact h.erase id
      · exact h.put (c := { c with last_read_contact := now })
          ((hfound hfind).contact rfl rfl rfl rfl) id
    · exact h

theorem preserves_run (events : List TCPEvent) : (run events).Preserves := by
  unfold run
  induction events using List.reverseRecOn with
  | nil => exact nofun
  | append_singleton events event ih =>
    rw [List.foldl_append]
    exact ih.step event

/-- No byte of a buffer that was passed to `write` is lost, sent twice or sent out of order. -/
theorem writer_preserves_stream (events : List TCPEvent) (id : UInt32) {c : TCPConnection}
    (hc : Assoc.find id (run events).remotes = some c) : c.taken ++ c.unsent = concat c.passed :=
  (preserves_run events _ (Assoc.mem_of_find hc)).stream

/-- A socket that takes up to `n` bytes of every call. -/
def sendUpTo (n : Nat) : Send where
  answer size := .accepted (min n (min size 0x7ffff000))
  bound size count h := by
    have := SendReturn.accepted.inj h
    omega

/-- A keepalive in the middle of a frame: it stays behind what is left of the frame. -/
def keepaliveEvents : List TCPEvent :=
  [.addRemoteConnection 1, .write 0 ⟨[0, 0, 0, 2, 7, 8], by decide⟩ (sendUpTo 3) 2,
    .keepalive (fun _ => sendUpTo 2) 13, .writeHandler 0 (fun _ => sendUpTo 2) 14]

theorem writer_preserves_stream_keepalive :
    ∃ c, Assoc.find 0 (run keepaliveEvents).remotes = some c ∧ c.taken = [0, 0, 0, 2, 7, 8, 0, 0] ∧
      c.taken ++ c.unsent = concat c.passed :=
  ⟨_, rfl, by decide, writer_preserves_stream keepaliveEvents 0 rfl⟩

end TCPForwarder

end UActor
