import NtAdmin.Drizzle.Server.AsyncReader

/-! What holds of the body pump between two events. -/
namespace NtAdmin.Drizzle.Server

open NtAdmin.Lib

/-- The bytes of the writes, in order. -/
def bytesOf (ws : List (ℕ × List UInt8)) : List UInt8 := ws.flatMap Prod.snd

/-- Every write starts where the one before it ended, the first at `o`. -/
def WritesFrom : ℕ → List (ℕ × List UInt8) → Prop
  | _, [] => True
  | o, (o', bs) :: ws => o' = o % 2 ^ 64 ∧ WritesFrom (o + bs.length) ws

theorem bytesOf_append (ws vs : List (ℕ × List UInt8)) :
    bytesOf (ws ++ vs) = bytesOf ws ++ bytesOf vs := List.flatMap_append

@[simp] theorem bytesOf_singleton (o : ℕ) (bs : List UInt8) : bytesOf [(o, bs)] = bs := by
  simp [bytesOf]

theorem writesFrom_append {o : ℕ} {ws vs : List (ℕ × List UInt8)} :
    WritesFrom o (ws ++ vs) ↔ WritesFrom o ws ∧ WritesFrom (o + (bytesOf ws).length) vs := by
  induction ws generalizing o with
  | nil => simp [WritesFrom, bytesOf]
  | cons w ws ih =>
    simp only [List.cons_append, WritesFrom, ih, and_assoc, bytesOf, List.flatMap_cons,
      List.length_append, Nat.add_assoc]

/-- The buffered bytes wait for the offsets from `o` on. -/
def BufferedFrom : ℕ → List IOBuffer → Prop
  | _, [] => True
  | o, b :: bs =>
    b.bufferWriteOffset = o % 2 ^ 64 ∧ 0 < b.bufferUsed ∧ b.bufferUsed ≤ b.buffer.length ∧
      BufferedFrom (o + b.bufferUsed) bs

def IOBuffer.bytes (b : IOBuffer) : List UInt8 := b.buffer.take b.bufferUsed

/-- The number of bytes in the buffers. -/
def bufferedSize (bs : List IOBuffer) : ℕ := (bs.map IOBuffer.bufferUsed).sum

theorem bufferedFrom_append {o : ℕ} {bs cs : List IOBuffer} :
    BufferedFrom o (bs ++ cs) ↔ BufferedFrom o bs ∧ BufferedFrom (o + bufferedSize bs) cs := by
  induction bs generalizing o with
  | nil => simp [BufferedFrom, bufferedSize]
  | cons b bs ih =>
    simp only [List.cons_append, BufferedFrom, ih, and_assoc, bufferedSize, List.map_cons,
      List.sum_cons, Nat.add_assoc]

theorem BufferedFrom.length_bytes {o : ℕ} {bs : List IOBuffer} (h : BufferedFrom o bs) :
    (bs.flatMap IOBuffer.bytes).length = bufferedSize bs := by
  induction bs generalizing o with
  | nil => rfl
  | cons b bs ih =>
    obtain ⟨-, -, hlen, hbs⟩ := h
    simp only [List.flatMap_cons, List.length_append, ih hbs, bufferedSize, List.map_cons,
      List.sum_cons, IOBuffer.bytes, List.length_take, Nat.min_eq_left hlen]

namespace Pump

/-- The filled buffers, oldest first. -/
def queue (p : Pump) : List IOBuffer :=
  ringContents numberOfIoBuffers p.reader.ioBuffers p.reader.writeBuffer p.reader.buffersToWrite

/-- The number of bytes written so far. -/
def writtenSize (p : Pump) : ℕ := (bytesOf p.written).length

/-- The write that `StartWriteRequest` would make. -/
def nextWrite (r : AsyncReader) : WriteRequest :=
  if r.prereadSize ≠ 0 then ⟨none, r.writeOffset, r.prereadSize⟩
  else ⟨some r.writeBuffer, r.writeOffset, (r.ioBuffers r.writeBuffer).bufferUsed⟩

/-- The size of the read that `StartReadRequest` would make. -/
def nextReadSize (r : AsyncReader) : ℕ :=
  min (if r.bytesToDrain ≠ 0 then r.bytesToDrain else r.bytesToRead) ioBufferSize

end Pump

/-- What holds also after an error: the writes made and the one outstanding put a prefix of
`target` at `o`, and the outstanding read fills a free buffer. -/
structure Sane (o : ℕ) (target : List UInt8) (p : Pump) : Prop where
  writeBuffer : p.reader.writeBuffer < numberOfIoBuffers
  buffersToWrite : p.reader.buffersToWrite ≤ numberOfIoBuffers
  readBuffer : p.reader.readBuffer =
    (p.reader.writeBuffer + p.reader.buffersToWrite) % numberOfIoBuffers
  reads : p.reads.length ≤ 1
  writes : p.writes.length ≤ 1
  reading : ∀ q ∈ p.reads,
    q.buffer = p.reader.readBuffer ∧ p.reader.buffersToWrite < numberOfIoBuffers
  writing : ∀ q ∈ p.writes, q.offset = (o + p.writtenSize) % 2 ^ 64 ∧
    (p.data q).length = q.size ∧ bytesOf p.written ++ p.data q <+: target ∧
    ∀ i, q.source = some i → i = p.reader.writeBuffer ∧ 0 < p.reader.buffersToWrite
  written : WritesFrom o p.written
  bytes : bytesOf p.written <+: target
  pending : p.reader.operationsPending =
    p.workItem.toNat + p.reads.length + p.writes.length
  asserts : p.asserts = true

/-- What holds as long as nothing has failed: the bytes written, preread, buffered and still to be
read behind those to be drained are the `stream` of the body from the first byte to write on. -/
structure Flowing (o w : ℕ) (stream : List UInt8) (p : Pump) : Prop where
  sane : Sane o (stream.take w) p
  error : p.reader.error = none
  calls : p.calls = []
  preread : p.reader.prereadBuffer.length = p.reader.prereadSize
  buffered : BufferedFrom (o + p.writtenSize + p.reader.prereadSize) p.queue
  stream : bytesOf p.written ++ (p.reader.prereadBuffer ++ (p.queue.flatMap IOBuffer.bytes ++
    p.unread.drop p.reader.bytesToDrain)) = stream
  drain : p.reader.bytesToDrain ≠ 0 → p.written = [] ∧ p.reader.prereadSize = 0 ∧
    p.reader.buffersToWrite = 0 ∧ p.writes = []
  toWrite : p.writtenSize + p.reader.bytesToWrite = w
  toRead : p.reader.bytesToRead + p.reader.prereadSize + bufferedSize p.queue =
    p.reader.bytesToDrain + p.reader.bytesToWrite
  writeOffset : p.reader.writeOffset = (o + p.writtenSize) % 2 ^ 64
  readOffset : (p.reader.readOffset + p.reader.bytesToDrain) % 2 ^ 64 =
    (o + p.writtenSize + p.reader.prereadSize + bufferedSize p.queue) % 2 ^ 64
  readOffset_lt : p.reader.readOffset < 2 ^ 64
  readPending : p.reader.readPending = true ↔ p.reads ≠ []
  reading : ∀ q ∈ p.reads, q.size = Pump.nextReadSize p.reader ∧
    (p.reader.bytesToDrain ≠ 0 ∨ p.reader.bytesToRead ≠ 0) ∧ (p.reader.bytesToDrain = 0 →
      (p.reader.ioBuffers p.reader.readBuffer).bufferWriteOffset = p.reader.readOffset)
  writePending : p.reader.writePending = true ↔ p.writes ≠ []
  nextWrite : ∀ q ∈ p.writes, q = Pump.nextWrite p.reader ∧
    (p.reader.prereadSize = 0 → p.reader.buffersToWrite ≠ 0)

/-- Every operation that can be under way is. -/
structure Busy (p : Pump) : Prop where
  drain : p.reader.bytesToDrain ≠ 0 → p.reads ≠ []
  write : p.reader.bytesToDrain = 0 → p.reader.bytesToWrite ≠ 0 ∧
    (p.reader.prereadSize ≠ 0 ∨ p.reader.buffersToWrite ≠ 0 → p.writes ≠ [])
  read : p.reader.bytesToDrain = 0 → p.reader.bytesToRead ≠ 0 →
    p.reader.buffersToWrite < numberOfIoBuffers → p.reads ≠ []

/-- Between two events nothing has failed and the reader is at work, or it has finished, or it has
failed. A reader that has failed waits for what is outstanding and then says so. -/
inductive PumpInv (o w : ℕ) (stream : List UInt8) (p : Pump) : Prop
  | queued (flow : Flowing o w stream p) (workItem : p.workItem = true) (reads : p.reads = [])
      (writes : p.writes = [])
  | working (flow : Flowing o w stream p) (workItem : p.workItem = false) (busy : Busy p)
  | finished (sane : Sane o (stream.take w) p) (workItem : p.workItem = false)
      (error : p.reader.error = none) (reads : p.reads = []) (writes : p.writes = [])
      (calls : p.calls = [.completeIo p.reader.totalBytesRead]) (size : p.writtenSize = w)
  | failed (sane : Sane o (stream.take w) p) (workItem : p.workItem = false) (e : ℕ)
      (error : p.reader.error = some e)
      (calls : p.calls = if p.reader.operationsPending ≠ 0 then []
        else [.handleIOError e p.reader.totalBytesRead])

namespace Pump
variable {Q : Unit → Pump → Prop} {E : ℕ → Pump → Prop} {p : Pump}

@[simp] theorem wp_modifyReader (f : AsyncReader → AsyncReader) :
    (modifyReader f).wp Q E p ↔ Q () { p with reader := f p.reader } := Iff.rfl

@[simp] theorem wp_assert (b : Pump → Bool) :
    (assert b).wp Q E p ↔ Q () { p with asserts := p.asserts && b p } := Iff.rfl

@[simp] theorem wp_setBuffer (i : ℕ) (f : IOBuffer → IOBuffer) :
    (setBuffer i f).wp Q E p ↔ Q () { p with reader := { p.reader with
      ioBuffers := Function.update p.reader.ioBuffers i (f (p.reader.ioBuffers i)) } } := Iff.rfl

theorem wp_start (hQ : ∀ starts, Q () { p with starts }) (hE : ∀ e starts, E e { p with starts }) :
    start.wp Q E p := by
  unfold Prog.wp start
  rcases p.starts with _ | ⟨_ | e, starts⟩
  · exact hQ _
  · exact hQ _
  · exact hE _ _

end Pump

namespace Flowing
variable {o w : ℕ} {stream : List UInt8} {p : Pump}

/-- The bytes still to be written are those preread, buffered and to be read. -/
theorem buffered_le (h : Flowing o w stream p) (hd : p.reader.bytesToDrain = 0) :
    p.writtenSize + p.reader.prereadSize + bufferedSize p.queue ≤ w := by
  have := h.toRead
  have := h.toWrite
  omega

theorem length_queue (h : Flowing o w stream p) :
    (p.queue.flatMap IOBuffer.bytes).length = bufferedSize p.queue :=
  h.buffered.length_bytes

/-- While a buffer is filled the first of them is the one to write. -/
theorem queue_eq (hb : p.reader.buffersToWrite ≠ 0) :
    ∃ bs, p.queue = p.reader.ioBuffers p.reader.writeBuffer :: bs := by
  obtain ⟨n, hn⟩ := Nat.exists_eq_succ_of_ne_zero hb
  exact ⟨_, by rw [Pump.queue, hn]; rfl⟩

/-- The next write takes the next bytes of the stream. -/
theorem nextWrite_data (h : Flowing o w stream p) (hd : p.reader.bytesToDrain = 0)
    (hb : p.reader.prereadSize = 0 → p.reader.buffersToWrite ≠ 0) :
    (p.data (Pump.nextWrite p.reader)).length = (Pump.nextWrite p.reader).size ∧
      bytesOf p.written ++ p.data (Pump.nextWrite p.reader) <+: stream.take w := by
  have hle := h.buffered_le hd
  have hstream := h.stream
  unfold Pump.nextWrite
  by_cases hp : p.reader.prereadSize = 0
  · obtain ⟨bs, hq⟩ := queue_eq (hb hp)
    have hbuf := h.buffered
    have hpre : p.reader.prereadBuffer = [] := List.length_eq_zero_iff.mp (h.preread.trans hp)
    rw [hq] at hbuf hle hstream
    obtain ⟨-, -, hlen, -⟩ := hbuf
    simp only [hp, ne_eq, not_true_eq_false, if_false, Pump.data]
    refine ⟨by simp [hlen], ?_⟩
    rw [hpre, List.nil_append, List.flatMap_cons, List.append_assoc, ← List.append_assoc] at hstream
    rw [← hstream]
    refine List.prefix_take_iff.mpr ⟨List.prefix_append _ _, ?_⟩
    simp only [bufferedSize, List.map_cons, List.sum_cons] at hle
    simp only [Pump.writtenSize] at hle
    simp only [List.length_append, List.length_take, Nat.min_eq_left hlen]
    omega
  · simp only [hp, ne_eq, not_false_eq_true, if_true, Pump.data]
    rw [← h.preread, List.take_length]
    refine ⟨rfl, ?_⟩
    rw [← List.append_assoc] at hstream
    rw [← hstream]
    refine List.prefix_take_iff.mpr ⟨List.prefix_append _ _, ?_⟩
    simp only [Pump.writtenSize] at hle
    rw [List.length_append, h.preread]
    omega

end Flowing

end NtAdmin.Drizzle.Server
