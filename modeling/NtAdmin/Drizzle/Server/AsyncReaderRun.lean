import NtAdmin.Drizzle.Server.AsyncReaderStep

/-! The completions of the body pump, and any run of them. -/
namespace NtAdmin.Drizzle.Server

open NtAdmin.Lib
open Pump

section
variable {o w : ℕ} {stream target : List UInt8} {p : Pump}

/-- The read has been drained. -/
theorem Flowing.read_drained (h : Flowing o w stream p) (hd : p.reader.bytesToDrain ≠ 0)
    {n size : ℕ} (hreads : p.reads = [⟨p.reader.readBuffer, size⟩]) (hn : n ≤ size)
    (b : IOBuffer) :
    Flowing o w stream { p with
      reads := [], unread := p.unread.drop n
      reader := { p.reader with
        operationsPending := p.reader.operationsPending - 1
        totalBytesRead := p.reader.totalBytesRead + n
        readPending := false
        ioBuffers := Function.update p.reader.ioBuffers p.reader.readBuffer b
        bytesToRead := p.reader.bytesToRead - n
        readOffset := (p.reader.readOffset + n) % 2 ^ 64
        bytesToDrain := p.reader.bytesToDrain - n } } := by
  obtain ⟨hwritten, hpre, hbufs, hwrites⟩ := h.drain hd
  obtain ⟨hsize, -, -⟩ := h.reading _ (hreads ▸ List.mem_singleton_self _)
  have hle : n ≤ p.reader.bytesToDrain := by
    rw [nextReadSize, if_pos hd] at hsize
    exact Nat.le_trans hn (Nat.le_trans (Nat.le_of_eq hsize) (Nat.min_le_left _ _))
  have hpending := h.sane.pending
  have hfree : p.reader.buffersToWrite < numberOfIoBuffers := by rw [hbufs]; decide
  have hqueue := h.sane.queue_refill hfree b
  have hempty : bufferedSize p.queue = 0 := by rw [queue, hbufs]; rfl
  have hstream := h.stream
  have htoRead := h.toRead
  have hread := h.readOffset
  refine { h with
    sane := { h.sane.refill hfree b with
      reads := Nat.zero_le 1
      reading := fun q hq => absurd hq List.not_mem_nil
      pending := by
        rw [hreads] at hpending
        simp only [List.length_singleton, List.length_nil] at hpending ⊢
        omega }
    buffered := ?_, stream := ?_, drain := fun _ => ⟨hwritten, hpre, hbufs, hwrites⟩, toRead := ?_
    readOffset := ?_, readOffset_lt := Nat.mod_lt _ (by decide)
    readPending := by simp
    reading := fun q hq => absurd hq List.not_mem_nil
    nextWrite := fun q hq => absurd (hwrites ▸ hq) List.not_mem_nil }
  · exact hqueue ▸ h.buffered
  · rw [List.drop_drop, Nat.add_sub_cancel' hle]
    exact hqueue ▸ hstream
  · show p.reader.bytesToRead - n + p.reader.prereadSize + bufferedSize (p.refill b).queue = _
    rw [hqueue]
    dsimp only
    omega
  · show ((p.reader.readOffset + n) % 2 ^ 64 + (p.reader.bytesToDrain - n)) % 2 ^ 64 =
      (o + p.writtenSize + p.reader.prereadSize + bufferedSize (p.refill b).queue) % 2 ^ 64
    rw [hqueue, ← hread]
    omega

/-- The read has filled the next buffer. -/
theorem Flowing.read_buffered (h : Flowing o w stream p) (hd : p.reader.bytesToDrain = 0)
    {n size : ℕ} (hreads : p.reads = [⟨p.reader.readBuffer, size⟩]) (hpos : 0 < n) (hn : n ≤ size)
    (hunread : n ≤ p.unread.length) (old : List UInt8) :
    Flowing o w stream { p with
      reads := [], unread := p.unread.drop n
      reader := { p.reader with
        operationsPending := p.reader.operationsPending - 1
        totalBytesRead := p.reader.totalBytesRead + n
        readPending := false
        ioBuffers := Function.update p.reader.ioBuffers p.reader.readBuffer
          ⟨(p.reader.ioBuffers p.reader.readBuffer).bufferWriteOffset, n, p.unread.take n ++ old⟩
        bytesToRead := p.reader.bytesToRead - n
        readOffset := (p.reader.readOffset + n) % 2 ^ 64
        buffersToWrite := p.reader.buffersToWrite + 1
        readBuffer := (p.reader.readBuffer + 1) % numberOfIoBuffers } } := by
  have hmem : ⟨p.reader.readBuffer, size⟩ ∈ p.reads := hreads ▸ List.mem_singleton_self _
  obtain ⟨hsize, -, hoff⟩ := h.reading _ hmem
  obtain ⟨-, hfree⟩ := h.sane.reading _ hmem
  have hle : n ≤ p.reader.bytesToRead := by
    rw [nextReadSize, if_neg (not_not.mpr hd)] at hsize
    exact Nat.le_trans hn (Nat.le_trans (Nat.le_of_eq hsize) (Nat.min_le_left _ _))
  have hpending := h.sane.pending
  let b : IOBuffer :=
    ⟨(p.reader.ioBuffers p.reader.readBuffer).bufferWriteOffset, n, p.unread.take n ++ old⟩
  have hbytes : b.bytes = p.unread.take n := by
    simp only [IOBuffer.bytes, b]
    rw [List.take_append_of_le_length (by simp [hunread]), List.take_take, Nat.min_self]
  have hqueue := h.sane.queue_refill hfree b
  have hnext : ringContents numberOfIoBuffers (Function.update p.reader.ioBuffers
      p.reader.readBuffer b) p.reader.writeBuffer (p.reader.buffersToWrite + 1) =
      p.queue ++ [b] := by
    rw [ringContents_succ _ _ h.sane.writeBuffer, ← h.sane.readBuffer, Function.update_self]
    exact congrArg (· ++ [b]) hqueue
  have hwriting := (h.sane.refill hfree b).writing
  have hnextWrite := (h.refill (b := b) hfree fun _ => rfl).nextWrite
  have hreadBuffer := h.sane.readBuffer
  have hbuffered := h.buffered
  have hstream := h.stream
  have htoRead := h.toRead
  have hread := h.readOffset
  have hlt := h.readOffset_lt
  have hsum : bufferedSize (p.queue ++ [b]) = bufferedSize p.queue + n := by
    simp [bufferedSize, b]
  refine { h with
    sane := { h.sane with
      buffersToWrite := hfree
      readBuffer := ?_
      reads := Nat.zero_le 1
      reading := fun q hq => absurd hq List.not_mem_nil
      writing := fun q hq => ?_
      pending := ?_ }
    buffered := ?_, stream := ?_, drain := fun h0 => absurd hd h0, toRead := ?_
    readOffset := ?_, readOffset_lt := Nat.mod_lt _ (by decide)
    readPending := by simp
    reading := fun q hq => absurd hq List.not_mem_nil
    nextWrite := fun q hq => ⟨(hnextWrite q hq).1, fun _ => Nat.succ_ne_zero _⟩ }
  · show (p.reader.readBuffer + 1) % numberOfIoBuffers =
      (p.reader.writeBuffer + (p.reader.buffersToWrite + 1)) % numberOfIoBuffers
    rw [hreadBuffer, Nat.mod_add_mod, Nat.add_assoc]
  · obtain ⟨hq1, hq2, hq3, hq4⟩ := hwriting q hq
    exact ⟨hq1, hq2, hq3, fun i hi => ⟨(hq4 i hi).1, Nat.succ_pos _⟩⟩
  · rw [hreads] at hpending
    simp only [List.length_singleton, List.length_nil] at hpending ⊢
    omega
  · show BufferedFrom _ (ringContents _ _ _ _)
    rw [hnext, bufferedFrom_append]
    refine ⟨hbuffered, ?_, hpos, by simp [b, hunread], trivial⟩
    show b.bufferWriteOffset =
      (o + p.writtenSize + p.reader.prereadSize + bufferedSize p.queue) % 2 ^ 64
    rw [← hread, hd, Nat.add_zero, Nat.mod_eq_of_lt hlt]
    exact hoff hd
  · show _ ++ (_ ++ ((ringContents _ _ _ _).flatMap IOBuffer.bytes ++ _)) = _
    rw [hnext, List.flatMap_append, List.flatMap_singleton, hbytes, List.append_assoc, hd,
      List.drop_zero, List.take_append_drop]
    rw [hd, List.drop_zero] at hstream
    exact hstream
  · show p.reader.bytesToRead - n + p.reader.prereadSize + bufferedSize (ringContents _ _ _ _) = _
    rw [hnext, hsum]
    dsimp only
    omega
  · show ((p.reader.readOffset + n) % 2 ^ 64 + p.reader.bytesToDrain) % 2 ^ 64 =
      (o + p.writtenSize + p.reader.prereadSize + bufferedSize (ringContents _ _ _ _)) % 2 ^ 64
    rw [hnext, hsum]
    omega

/-- The outstanding write has put `bs` into the file. -/
theorem Sane.wrote (h : Sane o target p) {q : WriteRequest} (hwrites : p.writes = [q])
    {bs : List UInt8} (hbs : bs <+: p.data q) :
    Sane o target { p with
      writes := [], written := p.written ++ [(q.offset, bs)]
      reader := { p.reader with operationsPending := p.reader.operationsPending - 1 } } := by
  obtain ⟨hoff, -, hpre, -⟩ := h.writing q (hwrites ▸ List.mem_singleton_self _)
  have hpending := h.pending
  refine { h with
    writes := Nat.zero_le 1
    writing := fun q hq => absurd hq List.not_mem_nil
    written := writesFrom_append.mpr ⟨h.written, hoff, trivial⟩
    bytes := ?_, pending := ?_ }
  · rw [bytesOf_append, bytesOf_singleton]
    exact ((List.prefix_append_right_inj _).mpr hbs).trans hpre
  · rw [hwrites] at hpending
    simp only [List.length_singleton, List.length_nil] at hpending ⊢
    omega

/-- The preread data has been written. -/
theorem Flowing.wrote_preread (h : Flowing o w stream p) {q : WriteRequest}
    (hwrites : p.writes = [q]) (hp : p.reader.prereadSize ≠ 0) :
    Flowing o w stream { p with
      writes := [], written := p.written ++ [(q.offset, p.data q)]
      reader := { p.reader with
        operationsPending := p.reader.operationsPending - 1
        writePending := false
        bytesToWrite := p.reader.bytesToWrite - q.size
        prereadSize := p.reader.prereadSize - q.size
        prereadBuffer := p.reader.prereadBuffer.drop q.size
        writeOffset := (p.reader.writeOffset + q.size) % 2 ^ 64 } } := by
  have hmem : q ∈ p.writes := hwrites ▸ List.mem_singleton_self _
  obtain ⟨heq, -⟩ := h.nextWrite q hmem
  have hd : p.reader.bytesToDrain = 0 := by
    by_contra hd
    exact absurd (h.drain hd).2.1 hp
  have hsize : q.size = p.reader.prereadSize := by rw [heq, Pump.nextWrite, if_pos hp]
  have hdata : p.data q = p.reader.prereadBuffer := by
    rw [heq, Pump.nextWrite, if_pos hp]
    exact (List.take_of_length_le (Nat.le_of_eq h.preread))
  have hlen : (bytesOf (p.written ++ [(q.offset, p.data q)])).length =
      p.writtenSize + p.reader.prereadSize := by
    rw [bytesOf_append, bytesOf_singleton, List.length_append, hdata, h.preread]
    rfl
  have hstream := h.stream
  have htoRead := h.toRead
  have htoWrite := h.toWrite
  have hle := h.buffered_le hd
  have hread := h.readOffset
  have hsane := h.sane.wrote hwrites (List.prefix_refl (p.data q))
  have hbuffered := h.buffered
  have hwrittenSize : p.writtenSize + p.reader.prereadSize ≤ w := by omega
  refine { h with
    sane := { hsane with writing := fun q hq => absurd hq List.not_mem_nil }
    preread := ?_, buffered := ?_, stream := ?_, drain := fun h0 => absurd hd h0, toWrite := ?_
    toRead := ?_, writeOffset := ?_, readOffset := ?_
    writePending := by simp
    nextWrite := fun q hq => absurd hq List.not_mem_nil }
  · show (p.reader.prereadBuffer.drop q.size).length = p.reader.prereadSize - q.size
    rw [List.length_drop, h.preread]
  · show BufferedFrom (o + (bytesOf _).length + (p.reader.prereadSize - q.size)) p.queue
    rw [hlen, hsize, Nat.sub_self, Nat.add_zero, ← Nat.add_assoc]
    exact hbuffered
  · show bytesOf _ ++ (p.reader.prereadBuffer.drop q.size ++ (p.queue.flatMap IOBuffer.bytes ++
      p.unread.drop p.reader.bytesToDrain)) = stream
    rw [bytesOf_append, bytesOf_singleton, hdata, hsize, ← h.preread, List.drop_length,
      List.append_assoc, List.nil_append]
    exact hstream
  · show (bytesOf _).length + (p.reader.bytesToWrite - q.size) = w
    rw [hlen, hsize]
    omega
  · show p.reader.bytesToRead + (p.reader.prereadSize - q.size) + bufferedSize p.queue =
      p.reader.bytesToDrain + (p.reader.bytesToWrite - q.size)
    omega
  · show (p.reader.writeOffset + q.size) % 2 ^ 64 = (o + (bytesOf _).length) % 2 ^ 64
    rw [hlen, hsize, h.writeOffset, Nat.mod_add_mod, Nat.add_assoc]
  · show (p.reader.readOffset + p.reader.bytesToDrain) % 2 ^ 64 = (o + (bytesOf _).length +
      (p.reader.prereadSize - q.size) + bufferedSize p.queue) % 2 ^ 64
    rw [hlen, hsize, Nat.sub_self, Nat.add_zero, ← Nat.add_assoc]
    exact hread

/-- The oldest buffer has been written. -/
theorem Flowing.wrote_buffer (h : Flowing o w stream p) {q : WriteRequest}
    (hwrites : p.writes = [q]) (hp : p.reader.prereadSize = 0) :
    q.size = (p.reader.ioBuffers p.reader.writeBuffer).bufferUsed ∧
    Flowing o w stream { p with
      writes := [], written := p.written ++ [(q.offset, p.data q)]
      reader := { p.reader with
        operationsPending := p.reader.operationsPending - 1
        writePending := false
        bytesToWrite := p.reader.bytesToWrite - q.size
        writeOffset := (p.reader.writeOffset +
          (p.reader.ioBuffers p.reader.writeBuffer).bufferUsed) % 2 ^ 64
        buffersToWrite := p.reader.buffersToWrite - 1
        writeBuffer := (p.reader.writeBuffer + 1) % numberOfIoBuffers } } := by
  have hmem : q ∈ p.writes := hwrites ▸ List.mem_singleton_self _
  obtain ⟨heq, hb⟩ := h.nextWrite q hmem
  obtain ⟨n, hn⟩ := Nat.exists_eq_succ_of_ne_zero (hb hp)
  have hd : p.reader.bytesToDrain = 0 := by
    by_contra hd
    exact absurd (h.drain hd).2.2.1 (hb hp)
  let b := p.reader.ioBuffers p.reader.writeBuffer
  let bs := ringContents numberOfIoBuffers p.reader.ioBuffers
    ((p.reader.writeBuffer + 1) % numberOfIoBuffers) (p.reader.buffersToWrite - 1)
  have hqueue : p.queue = b :: bs := by
    rw [queue, hn]
    simp only [bs, hn]
    rfl
  have hsize : q.size = b.bufferUsed := by
    rw [heq, Pump.nextWrite, if_neg (not_not.mpr hp)]
  have hdata : p.data q = b.bytes := by
    rw [heq, Pump.nextWrite, if_neg (not_not.mpr hp)]
    rfl
  have hbuffered := h.buffered
  rw [hqueue] at hbuffered
  obtain ⟨-, hpos, hused, hrest⟩ := hbuffered
  have hlen : (bytesOf (p.written ++ [(q.offset, p.data q)])).length =
      p.writtenSize + b.bufferUsed := by
    rw [bytesOf_append, bytesOf_singleton, List.length_append, hdata, IOBuffer.bytes,
      List.length_take, Nat.min_eq_left hused]
    rfl
  have hsum : bufferedSize p.queue = b.bufferUsed + bufferedSize bs := by
    rw [hqueue]
    rfl
  have hstream := h.stream
  have htoRead := h.toRead
  have htoWrite := h.toWrite
  have hle := h.buffered_le hd
  have hread := h.readOffset
  have hsane := h.sane.wrote hwrites (List.prefix_refl (p.data q))
  have hreadBuffer := h.sane.readBuffer
  refine ⟨hsize, { h with
    sane := { hsane with
      writeBuffer := Nat.mod_lt _ (by decide)
      buffersToWrite := Nat.le_trans (Nat.sub_le _ _) h.sane.buffersToWrite
      readBuffer := ?_
      reading := fun q hq => ?_
      writing := fun q hq => absurd hq List.not_mem_nil }
    buffered := ?_, stream := ?_, drain := fun h0 => absurd hd h0, toWrite := ?_
    toRead := ?_, writeOffset := ?_, readOffset := ?_
    writePending := by simp
    nextWrite := fun q hq => absurd hq List.not_mem_nil }⟩
  · show p.reader.readBuffer = ((p.reader.writeBuffer + 1) % numberOfIoBuffers +
      (p.reader.buffersToWrite - 1)) % numberOfIoBuffers
    rw [ring_next, Nat.sub_add_cancel (Nat.pos_of_ne_zero (hb hp)), hreadBuffer]
  · obtain ⟨hbuf, hfree⟩ := h.sane.reading q hq
    exact ⟨hbuf, Nat.lt_of_le_of_lt (Nat.sub_le _ _) hfree⟩
  · show BufferedFrom (o + (bytesOf _).length + p.reader.prereadSize) bs
    rw [hlen, hp, Nat.add_zero, ← Nat.add_assoc]
    rw [hp, Nat.add_zero] at hrest
    exact hrest
  · show bytesOf _ ++ (p.reader.prereadBuffer ++ (bs.flatMap IOBuffer.bytes ++
      p.unread.drop p.reader.bytesToDrain)) = stream
    have hpre : p.reader.prereadBuffer = [] := List.length_eq_zero_iff.mp (h.preread.trans hp)
    rw [hqueue, List.flatMap_cons, hpre, List.nil_append, List.append_assoc] at hstream
    rw [bytesOf_append, bytesOf_singleton, hdata, hpre, List.nil_append, List.append_assoc]
    exact hstream
  · show (bytesOf _).length + (p.reader.bytesToWrite - q.size) = w
    rw [hlen, hsize]
    omega
  · show p.reader.bytesToRead + p.reader.prereadSize + bufferedSize bs =
      p.reader.bytesToDrain + (p.reader.bytesToWrite - q.size)
    omega
  · show (p.reader.writeOffset + b.bufferUsed) % 2 ^ 64 = (o + (bytesOf _).length) % 2 ^ 64
    rw [hlen, h.writeOffset, Nat.mod_add_mod, Nat.add_assoc]
  · show (p.reader.readOffset + p.reader.bytesToDrain) % 2 ^ 64 = (o + (bytesOf _).length +
      p.reader.prereadSize + bufferedSize bs) % 2 ^ 64
    rw [hlen, hread, hsum, hp]
    congr 1
    omega

end

section events
variable {o w : ℕ} {stream : List UInt8} {p : Pump}

/-- A read has ended when one has failed before or it has itself. -/
theorem readComplete_failed (h : Sane o (stream.take w) p) (hwork : p.workItem = false)
    {size n : ℕ} (hreads : p.reads = [⟨p.reader.readBuffer, size⟩]) {dwError : Option ℕ}
    (hfail : p.reader.error = none → dwError ≠ none) (hcalls : p.calls = []) :
    (operationDone (readComplete dwError n)).wp (fun _ p' => PumpInv o w stream p')
      (fun _ p' => PumpInv o w stream p')
      { PumpEvent.deliver p ⟨p.reader.readBuffer, size⟩ n with reads := [] } := by
  have hpending := h.pending
  obtain ⟨-, hfree⟩ := h.reading _ (hreads ▸ List.mem_singleton_self _)
  have hsane : ∀ (b : IOBuffer) (pend : Bool) (total : ℕ), Sane o (stream.take w)
      { p.refill b with
        reads := [], unread := p.unread.drop n
        reader := { (p.refill b).reader with
          operationsPending := p.reader.operationsPending - 1
          totalBytesRead := total, readPending := pend } } := fun b pend total =>
    { h.refill hfree b with
      reads := Nat.zero_le 1
      reading := fun q hq => absurd hq List.not_mem_nil
      pending := by
        rw [hreads] at hpending
        simp only [List.length_singleton, List.length_nil, refill] at hpending ⊢
        omega }
  have herror : ∀ (e : ℕ) (b : IOBuffer) (pend : Bool) (total : ℕ),
      (handleError e).wp (fun _ p' => PumpInv o w stream p') (fun _ p' => PumpInv o w stream p')
        { p.refill b with
          reads := [], unread := p.unread.drop n
          reader := { (p.refill b).reader with
            operationsPending := p.reader.operationsPending - 1
            totalBytesRead := total, readPending := pend } } := fun e b pend total =>
    Prog.wp_mono (handleError_spec (hsane b pend total) hcalls hwork) (fun _ _ h' => h')
      (fun _ _ h' => h'.elim)
  unfold operationDone readComplete
  simp only [Prog.wp_bind, Prog.wp_tryCatch, Prog.wp_get, wp_modifyReader]
  rcases he : p.reader.error with _ | e
  · obtain ⟨e, rfl⟩ := Option.ne_none_iff_exists'.mp (hfail he)
    simp only [PumpEvent.deliver, he, Prog.wp_bind, wp_modifyReader, Prog.wp_throw]
    exact he ▸ herror e _ _ _
  · simp only [PumpEvent.deliver, he, Prog.wp_throw]
    exact he ▸ herror e _ _ _

theorem readComplete_flowing (h : Flowing o w stream p) (hwork : p.workItem = false) {size n : ℕ}
    (hreads : p.reads = [⟨p.reader.readBuffer, size⟩]) (hpos : 0 < n) (hn : n ≤ size)
    (hunread : n ≤ p.unread.length) :
    (operationDone (readComplete none n)).wp (fun _ p' => PumpInv o w stream p')
      (fun _ p' => PumpInv o w stream p')
      { PumpEvent.deliver p ⟨p.reader.readBuffer, size⟩ n with reads := [] } := by
  have hstart : ∀ p' : Pump, Flowing o w stream p' → p'.workItem = false → p'.reads = [] →
      startupIo.wp (fun _ p' => PumpInv o w stream p')
        (fun e => (handleError e).wp (fun _ p' => PumpInv o w stream p')
          (fun _ p' => PumpInv o w stream p')) p' := fun p' h' hwork' hr =>
    Prog.wp_mono (startupIo_spec h' hwork' fun _ => hr) (fun _ _ h => h) (fun _ _ h => h.elim)
  unfold operationDone readComplete
  simp only [Prog.wp_bind, Prog.wp_tryCatch, Prog.wp_get, wp_modifyReader, PumpEvent.deliver,
    h.error, wp_setBuffer, Prog.wp_ite, Function.update_idem, Function.update_self]
  refine ⟨fun hd => ?_, fun hd => ?_⟩
  · exact hstart _ (h.error ▸ h.read_drained hd hreads hn _) hwork rfl
  · exact hstart _ (h.error ▸ h.read_buffered (not_not.mp hd) hreads hpos hn hunread _) hwork rfl

/-- A write has ended when a read has failed before or it has itself. -/
theorem writeComplete_failed (h : Sane o (stream.take w) p) (hwork : p.workItem = false)
    {q : WriteRequest} (hwrites : p.writes = [q]) {bs : List UInt8} (hbs : bs <+: p.data q)
    {dwError : Option ℕ} {n : ℕ} (hfail : p.reader.error = none → dwError ≠ none)
    (hcalls : p.calls = []) :
    (operationDone (writeComplete dwError n)).wp (fun _ p' => PumpInv o w stream p')
      (fun _ p' => PumpInv o w stream p')
      { p with writes := [], written := p.written ++ [(q.offset, bs)] } := by
  have hsane := h.wrote hwrites hbs
  have herror : ∀ (e : ℕ) (pend : Bool),
      (handleError e).wp (fun _ p' => PumpInv o w stream p') (fun _ p' => PumpInv o w stream p')
        { p with
          writes := [], written := p.written ++ [(q.offset, bs)]
          reader := { p.reader with
            operationsPending := p.reader.operationsPending - 1, writePending := pend } } :=
    fun e pend => Prog.wp_mono
      (handleError_spec { hsane with writing := fun q hq => absurd hq List.not_mem_nil } hcalls hwork)
      (fun _ _ h' => h') (fun _ _ h' => h'.elim)
  unfold operationDone writeComplete
  simp only [Prog.wp_bind, Prog.wp_tryCatch, Prog.wp_get, wp_modifyReader]
  rcases he : p.reader.error with _ | e
  · obtain ⟨e, rfl⟩ := Option.ne_none_iff_exists'.mp (hfail he)
    simp only [Prog.wp_bind, wp_modifyReader, Prog.wp_throw]
    exact he ▸ herror e _
  · simp only [Prog.wp_throw]
    exact he ▸ herror e _

theorem writeComplete_flowing (h : Flowing o w stream p) (hwork : p.workItem = false)
    {q : WriteRequest} (hwrites : p.writes = [q]) :
    (operationDone (writeComplete none q.size)).wp (fun _ p' => PumpInv o w stream p')
      (fun _ p' => PumpInv o w stream p')
      { p with writes := [], written := p.written ++ [(q.offset, p.data q)] } := by
  have hd : p.reader.bytesToDrain = 0 := by
    by_contra hd
    exact absurd (h.drain hd).2.2.2 (by simp [hwrites])
  have hstart : ∀ p' : Pump, Flowing o w stream p' → p'.workItem = false →
      p'.reader.bytesToDrain = 0 → startupIo.wp (fun _ p' => PumpInv o w stream p')
        (fun e => (handleError e).wp (fun _ p' => PumpInv o w stream p')
          (fun _ p' => PumpInv o w stream p')) p' := fun p' h' hwork' hd' =>
    Prog.wp_mono (startupIo_spec h' hwork' fun hne => absurd hd' hne) (fun _ _ h => h)
      (fun _ _ h => h.elim)
  unfold operationDone writeComplete
  simp only [Prog.wp_bind, Prog.wp_tryCatch, Prog.wp_get, wp_modifyReader, h.error, wp_assert,
    Prog.wp_ite]
  refine ⟨fun hp => ?_, fun hp => ?_⟩
  · exact hstart _ (h.error ▸ h.wrote_preread hwrites hp) hwork hd
  · -- the ASSERT compares the bytes written with those that were in the buffer
    obtain ⟨hsize, hflow⟩ := h.wrote_buffer hwrites (not_not.mp hp)
    have hassert : (p.asserts && (q.size ==
        (p.reader.ioBuffers p.reader.writeBuffer).bufferUsed)) = p.asserts := by
      rw [hsize, beq_self_eq_true, Bool.and_true]
    rw [hassert]
    exact hstart _ (h.error ▸ hflow) hwork hd

/-- With an operation outstanding the reader is at work or waits after an error. -/
theorem PumpInv.outstanding (h : PumpInv o w stream p) (hne : p.reads ≠ [] ∨ p.writes ≠ []) :
    p.workItem = false ∧ Sane o (stream.take w) p ∧ p.calls = [] ∧
      (Flowing o w stream p ∨ p.reader.error ≠ none) := by
  cases h with
  | queued flow workItem reads writes => exact absurd hne (by simp [reads, writes])
  | working flow workItem busy => exact ⟨workItem, flow.sane, flow.calls, Or.inl flow⟩
  | finished sane workItem error reads writes => exact absurd hne (by simp [reads, writes])
  | failed sane workItem e error calls =>
    have hops : p.reader.operationsPending ≠ 0 := by
      have hr : p.reads ≠ [] → 0 < p.reads.length := List.length_pos_of_ne_nil
      have hw : p.writes ≠ [] → 0 < p.writes.length := List.length_pos_of_ne_nil
      have := sane.pending
      rcases hne with hne | hne
      · have := hr hne
        omega
      · have := hw hne
        omega
    rw [if_pos hops] at calls
    exact ⟨workItem, sane, calls, Or.inr (by simp [error])⟩

theorem PumpInv.sane (h : PumpInv o w stream p) : Sane o (stream.take w) p := by
  cases h with
  | queued flow => exact flow.sane
  | working flow => exact flow.sane
  | finished sane => exact sane
  | failed sane => exact sane

/-- The only outstanding read is into the next buffer. -/
theorem PumpInv.reads_eq (h : PumpInv o w stream p) {q : ReadRequest} {qs : List ReadRequest}
    (hreads : p.reads = q :: qs) : qs = [] ∧ q.buffer = p.reader.readBuffer := by
  have hlen := h.sane.reads
  rw [hreads, List.length_cons] at hlen
  exact ⟨List.length_eq_zero_iff.mp (by omega),
    (h.sane.reading q (hreads ▸ List.mem_cons_self)).1⟩

theorem PumpInv.writes_eq (h : PumpInv o w stream p) {q : WriteRequest} {qs : List WriteRequest}
    (hwrites : p.writes = q :: qs) : qs = [] := by
  have hlen := h.sane.writes
  rw [hwrites, List.length_cons] at hlen
  exact List.length_eq_zero_iff.mp (by omega)

/-- A reader that has called `CompleteIo` has written everything. -/
theorem PumpInv.complete (h : PumpInv o w stream p) {n : ℕ} {cs : List Callback}
    (hcalls : p.calls = .completeIo n :: cs) : p.writtenSize = w := by
  cases h with
  | queued flow => exact absurd (hcalls.symm.trans flow.calls) (List.cons_ne_nil _ _)
  | working flow => exact absurd (hcalls.symm.trans flow.calls) (List.cons_ne_nil _ _)
  | finished sane workItem error reads writes calls size => exact size
  | failed sane workItem e error calls =>
    rw [hcalls] at calls
    split_ifs at calls
    exact absurd (List.cons.inj calls).1 (by simp)

/-- Every event keeps the invariant. -/
theorem PumpInv.step (h : PumpInv o w stream p) {ev : PumpEvent} (hev : ev.Enabled p) :
    PumpInv o w stream (ev.step p) := by
  cases ev with
  | workItem =>
    cases h with
    | queued flow workItem reads writes =>
      have hpending := flow.sane.pending
      refine Prog.after_of_wp (P := PumpInv o w stream) ?_
      unfold operationDone
      simp only [Prog.wp_bind, wp_modifyReader]
      refine Prog.wp_mono (startupIo_spec { flow with sane := { flow.sane with pending := ?_ } } rfl
        fun _ => reads) (fun _ _ h => h) (fun _ _ h => h.elim)
      rw [workItem] at hpending
      simp only [Bool.toNat_true, Bool.toNat_false] at hpending ⊢
      omega
    | working flow workItem => exact Bool.noConfusion (workItem.symm.trans hev)
    | finished sane workItem => exact Bool.noConfusion (workItem.symm.trans hev)
    | failed sane workItem => exact Bool.noConfusion (workItem.symm.trans hev)
  | readDone n =>
    obtain ⟨⟨b, size⟩, qs, hreads, hpos, hn, hunread⟩ := hev
    obtain ⟨hwork, hsane, hcalls, hor⟩ := h.outstanding (Or.inl (by simp [hreads]))
    obtain ⟨rfl, rfl⟩ := h.reads_eq hreads
    simp only [PumpEvent.step, hreads]
    refine Prog.after_of_wp (P := PumpInv o w stream) ?_
    rcases hor with hflow | herror
    · exact readComplete_flowing hflow hwork hreads hpos hn hunread
    · exact readComplete_failed hsane hwork hreads (fun he => absurd he herror) hcalls
  | readFails e n =>
    obtain ⟨⟨b, size⟩, qs, hreads, -⟩ := hev
    obtain ⟨hwork, hsane, hcalls, -⟩ := h.outstanding (Or.inl (by simp [hreads]))
    obtain ⟨rfl, rfl⟩ := h.reads_eq hreads
    simp only [PumpEvent.step, hreads]
    refine Prog.after_of_wp (P := PumpInv o w stream) ?_
    exact readComplete_failed hsane hwork hreads (fun _ => Option.some_ne_none e) hcalls
  | writeDone =>
    obtain ⟨q, qs, hwrites⟩ := List.exists_cons_of_ne_nil hev
    obtain ⟨hwork, hsane, hcalls, hor⟩ := h.outstanding (Or.inr hev)
    obtain rfl := h.writes_eq hwrites
    simp only [PumpEvent.step, hwrites]
    refine Prog.after_of_wp (P := PumpInv o w stream) ?_
    rcases hor with hflow | herror
    · exact writeComplete_flowing hflow hwork hwrites
    · exact writeComplete_failed hsane hwork hwrites (List.prefix_refl _)
        (fun he => absurd he herror) hcalls
  | writeFails e n =>
    obtain ⟨q, qs, hwrites, -⟩ := hev
    obtain ⟨hwork, hsane, hcalls, -⟩ := h.outstanding (Or.inr (by simp [hwrites]))
    obtain rfl := h.writes_eq hwrites
    simp only [PumpEvent.step, hwrites]
    refine Prog.after_of_wp (P := PumpInv o w stream) ?_
    exact writeComplete_failed hsane hwork hwrites (List.take_prefix n _)
      (fun _ => Option.some_ne_none e) hcalls

end events

section written
open Prog

theorem keeps_modifyReader {τ : Type} {f : Pump → τ} (g : AsyncReader → AsyncReader)
    (h : ∀ p r, f { p with reader := r } = f p) : Keeps f (modifyReader g) :=
  keeps_modify fun p => h p _

theorem keeps_start : Keeps Pump.written start := by
  intro p
  unfold after start
  rcases p.starts with _ | ⟨_ | e, starts⟩ <;> rfl

theorem keeps_startReadRequest : Keeps Pump.written startReadRequest :=
  .bind keeps_get fun _ => .ite
    (.bind (keeps_modifyReader _ fun _ _ => rfl) fun _ => .bind keeps_start fun _ =>
      .bind (keeps_modify fun _ => rfl) fun _ => keeps_modifyReader _ fun _ _ => rfl)
    (.bind (keeps_modifyReader _ fun _ _ => rfl) fun _ => .bind keeps_start fun _ =>
      .bind (keeps_modify fun _ => rfl) fun _ => keeps_modifyReader _ fun _ _ => rfl)

theorem keeps_writeFile (q : WriteRequest) : Keeps Pump.written (writeFile q) :=
  .bind keeps_start fun _ => .bind (keeps_modify fun _ => rfl) fun _ =>
    keeps_modifyReader _ fun _ _ => rfl

theorem keeps_startWriteRequest : Keeps Pump.written startWriteRequest :=
  .bind keeps_get fun _ => .ite (keeps_writeFile _)
    (.bind (keeps_modify fun _ => rfl) fun _ => keeps_writeFile _)

theorem keeps_handleError (e : ℕ) : Keeps Pump.written (handleError e) := by
  refine .bind (keeps_modifyReader _ fun _ _ => rfl) fun _ => keeps_modify fun p => ?_
  by_cases h : p.reader.operationsPending ≠ 0
  · rw [if_pos h]
  · rw [if_neg h]

theorem keeps_startupIo : Keeps Pump.written startupIo := by
  refine .tryCatch (.bind keeps_get fun p => ?_) keeps_handleError
  rcases p.reader.error with _ | e
  · refine .ite keeps_startReadRequest (.ite (keeps_modify fun _ => rfl) ?_)
    refine .ite (.bind keeps_startWriteRequest fun _ => ?_) ?_
    · exact .bind keeps_get fun _ => .ite keeps_startReadRequest (keeps_pure _)
    · exact .bind keeps_get fun _ => .ite keeps_startReadRequest (keeps_pure _)
  · exact keeps_throw _

theorem keeps_operationDone {body : PumpOp} (h : Keeps Pump.written body) :
    Keeps Pump.written (operationDone body) :=
  .bind (keeps_modifyReader _ fun _ _ => rfl) fun _ => h

theorem keeps_writeComplete (dwError : Option ℕ) (n : ℕ) :
    Keeps Pump.written (writeComplete dwError n) := by
  refine .tryCatch (.bind keeps_get fun p => ?_) keeps_handleError
  rcases p.reader.error with _ | e
  · refine .bind (keeps_modifyReader _ fun _ _ => rfl) fun _ => ?_
    rcases dwError with _ | e
    · refine .bind (keeps_modifyReader _ fun _ _ => rfl) fun _ => .ite ?_ ?_
      · exact .bind (keeps_modifyReader _ fun _ _ => rfl) fun _ => keeps_startupIo
      · exact .bind (keeps_modify fun _ => rfl) fun _ =>
          .bind (keeps_modifyReader _ fun _ _ => rfl) fun _ => keeps_startupIo
    · exact keeps_throw _
  · exact keeps_throw _

theorem keeps_readComplete (dwError : Option ℕ) (n : ℕ) :
    Keeps Pump.written (readComplete dwError n) := by
  refine .tryCatch (.bind (keeps_modifyReader _ fun _ _ => rfl) fun _ =>
    .bind keeps_get fun p => ?_) keeps_handleError
  rcases p.reader.error with _ | e
  · refine .bind (keeps_modifyReader _ fun _ _ => rfl) fun _ => ?_
    rcases dwError with _ | e
    · refine .bind (keeps_modifyReader _ fun _ _ => rfl) fun _ =>
        .bind (keeps_modifyReader _ fun _ _ => rfl) fun _ => .ite ?_ ?_
      · exact .bind (keeps_modifyReader _ fun _ _ => rfl) fun _ => keeps_startupIo
      · exact .bind (keeps_modifyReader _ fun _ _ => rfl) fun _ => keeps_startupIo
    · exact keeps_throw _
  · exact keeps_throw _

/-- An event adds to the writes. -/
theorem PumpEvent.written_grows (ev : PumpEvent) (p : Pump) :
    p.written <+: (ev.step p).written := by
  cases ev with
  | workItem =>
    refine ⟨[], (List.append_nil _).trans (Eq.symm ?_)⟩
    exact keeps_operationDone keeps_startupIo _
  | readDone n =>
    rcases hreads : p.reads with _ | ⟨q, reads⟩ <;> simp only [PumpEvent.step, hreads]
    · exact List.prefix_refl _
    · refine ⟨[], (List.append_nil _).trans (Eq.symm ?_)⟩
      exact keeps_operationDone (keeps_readComplete _ _) _
  | readFails e n =>
    rcases hreads : p.reads with _ | ⟨q, reads⟩ <;> simp only [PumpEvent.step, hreads]
    · exact List.prefix_refl _
    · refine ⟨[], (List.append_nil _).trans (Eq.symm ?_)⟩
      exact keeps_operationDone (keeps_readComplete _ _) _
  | writeDone =>
    rcases hwrites : p.writes with _ | ⟨q, writes⟩ <;> simp only [PumpEvent.step, hwrites]
    · exact List.prefix_refl _
    · rw [keeps_operationDone (keeps_writeComplete _ _)]
      exact List.prefix_append _ _
  | writeFails e n =>
    rcases hwrites : p.writes with _ | ⟨q, writes⟩ <;> simp only [PumpEvent.step, hwrites]
    · exact List.prefix_refl _
    · rw [keeps_operationDone (keeps_writeComplete _ _)]
      exact List.prefix_append _ _

end written

/-- Bytes to drain are left only if the preread ones are drained. -/
theorem not_drain_and_preread (drain preread : ℕ) :
    (!(drain - min drain preread != 0 && preread - min drain preread != 0)) = true := by
  rcases Nat.le_total drain preread with hle | hle
  · rw [Nat.min_eq_left hle, Nat.sub_self]
    rfl
  · rw [Nat.min_eq_right hle, Nat.sub_self, bne_self_eq_false, Bool.and_false]
    rfl

/-- The constructor queues the work item with everything in place. -/
theorem pumpInv_init {bytesToDrain bytesToWrite writeOffset : ℕ} {preread unread : List UInt8}
    (starts : List (Option ℕ)) (hsize : bytesToDrain + bytesToWrite < 2 ^ 64)
    (hoff : writeOffset < 2 ^ 64) (hpre : preread.length ≤ bytesToDrain + bytesToWrite) :
    PumpInv writeOffset bytesToWrite ((preread ++ unread).drop bytesToDrain)
      (.init bytesToDrain bytesToWrite writeOffset preread unread starts) := by
  refine .queued ⟨?_, rfl, rfl, ?_, trivial, ?_, ?_, ?_, ?_, ?_, ?_, ?_, ?_, ?_, ?_, ?_⟩ rfl rfl rfl
  · exact ⟨Nat.succ_pos 2, Nat.zero_le _, rfl, Nat.zero_le 1, Nat.zero_le 1,
      fun q hq => absurd hq List.not_mem_nil, fun q hq => absurd hq List.not_mem_nil, trivial,
      List.nil_prefix, rfl, not_drain_and_preread bytesToDrain preread.length⟩
  · exact List.length_drop
  · show preread.drop (min bytesToDrain preread.length) ++
      unread.drop (bytesToDrain - min bytesToDrain preread.length) = _
    rw [List.drop_append]
    rcases Nat.le_total bytesToDrain preread.length with hle | hle
    · rw [Nat.min_eq_left hle, Nat.sub_self, Nat.sub_eq_zero_of_le hle]
    · rw [Nat.min_eq_right hle, List.drop_length, List.drop_of_length_le hle]
  · intro hd
    refine ⟨rfl, ?_, rfl, rfl⟩
    simp only [Pump.init] at hd ⊢
    omega
  · show 0 + bytesToWrite = bytesToWrite
    omega
  · show (bytesToWrite + (bytesToDrain - min bytesToDrain preread.length) -
      (preread.length - min bytesToDrain preread.length)) % 2 ^ 64 +
      (preread.length - min bytesToDrain preread.length) + 0 =
      (bytesToDrain - min bytesToDrain preread.length) + bytesToWrite
    rw [Nat.mod_eq_of_lt (by omega)]
    omega
  · exact (Nat.mod_eq_of_lt hoff).symm
  · show ((writeOffset + 2 ^ 64 - (bytesToDrain - min bytesToDrain preread.length) +
      (preread.length - min bytesToDrain preread.length)) % 2 ^ 64 +
      (bytesToDrain - min bytesToDrain preread.length)) % 2 ^ 64 =
      (writeOffset + 0 + (preread.length - min bytesToDrain preread.length) + 0) % 2 ^ 64
    omega
  · exact Nat.mod_lt _ (by decide)
  · exact iff_of_false Bool.false_ne_true (fun h => h rfl)
  · exact fun q hq => absurd hq List.not_mem_nil
  · exact iff_of_false Bool.false_ne_true (fun h => h rfl)
  · exact fun q hq => absurd hq List.not_mem_nil

end NtAdmin.Drizzle.Server
