import NtAdmin.Drizzle.Server.AsyncReaderInvariant

/-! What one event does to the body pump. -/
namespace NtAdmin.Drizzle.Server

open NtAdmin.Lib
open Pump

section
variable {o w : ℕ} {stream target : List UInt8} {p : Pump}

namespace Pump

/-- A state in which only the buffer `readBuffer` has changed. -/
def refill (p : Pump) (b : IOBuffer) : Pump :=
  { p with reader := { p.reader with
    ioBuffers := Function.update p.reader.ioBuffers p.reader.readBuffer b } }

end Pump

theorem Sane.readBuffer_ne (h : Sane o target p) (hfree : p.reader.buffersToWrite < numberOfIoBuffers)
    {i : ℕ} (hi : i < p.reader.buffersToWrite) :
    (p.reader.writeBuffer + i) % numberOfIoBuffers ≠ p.reader.readBuffer := by
  rw [h.readBuffer]
  exact ring_free hfree hi

/-- Filling a free buffer changes nothing that is still to be written. -/
theorem Sane.refill (h : Sane o target p) (hfree : p.reader.buffersToWrite < numberOfIoBuffers)
    (b : IOBuffer) : Sane o target (p.refill b) := by
  have hdata : ∀ q ∈ p.writes, (p.refill b).data q = p.data q := by
    intro q hq
    obtain ⟨-, -, -, hsource⟩ := h.writing q hq
    rcases hs : q.source with _ | i
    · simp only [data, hs]
      rfl
    · obtain ⟨rfl, hpos⟩ := hsource i hs
      have hne := h.readBuffer_ne hfree hpos
      rw [Nat.add_zero, Nat.mod_eq_of_lt h.writeBuffer] at hne
      simp only [data, hs, Pump.refill, Function.update_of_ne hne]
  refine { h with writing := fun q hq => ?_ }
  obtain ⟨hoff, hlen, hpre, hsource⟩ := h.writing q hq
  rw [hdata q hq]
  exact ⟨hoff, hlen, hpre, hsource⟩

theorem Sane.queue_refill (h : Sane o target p)
    (hfree : p.reader.buffersToWrite < numberOfIoBuffers) (b : IOBuffer) :
    (p.refill b).queue = p.queue :=
  ringContents_update _ b h.writeBuffer fun _ hi => h.readBuffer_ne hfree hi

theorem Flowing.refill (h : Flowing o w stream p)
    (hfree : p.reader.buffersToWrite < numberOfIoBuffers) {b : IOBuffer}
    (hb : p.reads ≠ [] →
      b.bufferWriteOffset = (p.reader.ioBuffers p.reader.readBuffer).bufferWriteOffset) :
    Flowing o w stream (p.refill b) := by
  have hqueue := h.sane.queue_refill hfree b
  refine { h with
    sane := h.sane.refill hfree b
    buffered := by rw [hqueue]; exact h.buffered
    stream := by rw [hqueue]; exact h.stream
    toRead := by rw [hqueue]; exact h.toRead
    readOffset := by rw [hqueue]; exact h.readOffset
    reading := fun q hq => ?_
    nextWrite := fun q hq => ?_ }
  · obtain ⟨hsize, hmore, hoff⟩ := h.reading q hq
    refine ⟨hsize, hmore, fun hd => ?_⟩
    simp only [Pump.refill, Function.update_self]
    exact (hb (List.ne_nil_of_mem hq)).trans (hoff hd)
  · obtain ⟨heq, hne⟩ := h.nextWrite q hq
    refine ⟨?_, hne⟩
    rw [heq]
    by_cases hp : p.reader.prereadSize = 0
    · have hne' := h.sane.readBuffer_ne hfree (Nat.pos_of_ne_zero (hne hp))
      rw [Nat.add_zero, Nat.mod_eq_of_lt h.sane.writeBuffer] at hne'
      simp only [Pump.nextWrite, Pump.refill, Function.update_of_ne hne']
    · simp only [Pump.nextWrite, Pump.refill, ne_eq, hp, not_false_eq_true, if_true]

end

namespace Pump
variable {o w : ℕ} {stream : List UInt8} {p : Pump}

theorem asyncReadClient_spec (h : Flowing o w stream p) (hr : p.reads = [])
    (hfree : p.reader.buffersToWrite < numberOfIoBuffers)
    (hmore : p.reader.bytesToDrain ≠ 0 ∨ p.reader.bytesToRead ≠ 0)
    (hoff : p.reader.bytesToDrain = 0 →
      (p.reader.ioBuffers p.reader.readBuffer).bufferWriteOffset = p.reader.readOffset) :
    (asyncReadClient ⟨p.reader.readBuffer, nextReadSize p.reader⟩).wp
      (fun _ p' => Flowing o w stream p' ∧ p'.reads ≠ [] ∧ p'.writes = p.writes ∧
        p'.workItem = p.workItem ∧ p'.reader = { p.reader with
          operationsPending := p.reader.operationsPending + 1, readPending := true })
      (fun _ p' => Sane o (stream.take w) p' ∧ p'.calls = [] ∧ p'.workItem = p.workItem) p := by
  unfold asyncReadClient
  simp only [Prog.wp_bind]
  refine wp_start (fun starts => ?_) (fun e starts => ⟨{ h.sane with }, h.calls, rfl⟩)
  have hq : ∀ q ∈ p.reads ++ [⟨p.reader.readBuffer, nextReadSize p.reader⟩],
      q = ⟨p.reader.readBuffer, nextReadSize p.reader⟩ := by
    intro q hq
    rw [hr] at hq
    exact List.mem_singleton.mp hq
  have hpending := h.sane.pending
  refine ⟨{ h with
    sane := { h.sane with
      reads := by simp [hr]
      reading := fun q hmem => by
        obtain rfl := hq q hmem
        exact ⟨rfl, hfree⟩
      pending := by
        simp only [List.length_append, List.length_singleton]
        omega }
    readPending := by simp
    reading := fun q hmem => by
      obtain rfl := hq q hmem
      exact ⟨rfl, hmore, hoff⟩ }, by simp, rfl, rfl, rfl⟩

theorem startReadRequest_spec (h : Flowing o w stream p) (hr : p.reads = [])
    (hfree : p.reader.buffersToWrite < numberOfIoBuffers)
    (hmore : p.reader.bytesToDrain ≠ 0 ∨ p.reader.bytesToRead ≠ 0) :
    startReadRequest.wp
      (fun _ p' => Flowing o w stream p' ∧ p'.reads ≠ [] ∧ p'.writes = p.writes ∧
        p'.workItem = p.workItem ∧ ∃ b, p'.reader = { (p.refill b).reader with
          operationsPending := p.reader.operationsPending + 1, readPending := true })
      (fun _ p' => Sane o (stream.take w) p' ∧ p'.calls = [] ∧ p'.workItem = p.workItem) p := by
  unfold startReadRequest
  have hb : ∀ b : IOBuffer, (p.reader.bytesToDrain = 0 → b.bufferWriteOffset = p.reader.readOffset) →
      (asyncReadClient ⟨p.reader.readBuffer, nextReadSize p.reader⟩).wp
        (fun _ p' => Flowing o w stream p' ∧ p'.reads ≠ [] ∧ p'.writes = p.writes ∧
          p'.workItem = p.workItem ∧ ∃ b, p'.reader = { (p.refill b).reader with
            operationsPending := p.reader.operationsPending + 1, readPending := true })
        (fun _ p' => Sane o (stream.take w) p' ∧ p'.calls = [] ∧ p'.workItem = p.workItem)
        (p.refill b) := by
    intro b hoff
    refine Prog.wp_mono (asyncReadClient_spec (h.refill hfree fun hne => absurd hr hne) hr hfree
      hmore fun hd => ?_) (fun _ p' h' => ?_) (fun _ _ h' => h')
    · simp only [refill, Function.update_self]
      exact hoff hd
    · obtain ⟨hflow, hreads, hwrites, hwork, hreader⟩ := h'
      exact ⟨hflow, hreads, hwrites, hwork, b, hreader⟩
  simp only [Prog.wp_bind, Prog.wp_get, Prog.wp_ite, wp_setBuffer]
  refine ⟨fun hd => ?_, fun hd => ?_⟩
  · have hs : nextReadSize p.reader = min p.reader.bytesToDrain ioBufferSize := by
      rw [nextReadSize, if_pos hd]
    rw [← hs]
    exact hb _ fun hd' => absurd hd' hd
  · have hs : nextReadSize p.reader = min p.reader.bytesToRead ioBufferSize := by
      rw [nextReadSize, if_neg hd]
    rw [← hs]
    exact hb _ fun _ => rfl

theorem writeFile_spec (h : Flowing o w stream p) (hd : p.reader.bytesToDrain = 0)
    (hw : p.writes = []) (hb : p.reader.prereadSize = 0 → p.reader.buffersToWrite ≠ 0) :
    (writeFile (nextWrite p.reader)).wp
      (fun _ p' => Flowing o w stream p' ∧ p'.writes ≠ [] ∧ p'.reads = p.reads ∧
        p'.workItem = p.workItem ∧ p'.reader = { p.reader with
          operationsPending := p.reader.operationsPending + 1, writePending := true })
      (fun _ p' => Sane o (stream.take w) p' ∧ p'.calls = [] ∧ p'.workItem = p.workItem) p := by
  unfold writeFile
  simp only [Prog.wp_bind]
  obtain ⟨hlen, hpre⟩ := h.nextWrite_data hd hb
  refine wp_start (fun starts => ?_) (fun e starts => ⟨{ h.sane with }, h.calls, rfl⟩)
  have hq : ∀ q ∈ p.writes ++ [nextWrite p.reader], q = nextWrite p.reader := by
    intro q hq
    rw [hw] at hq
    exact List.mem_singleton.mp hq
  have hpending := h.sane.pending
  have hoff : (nextWrite p.reader).offset = (o + p.writtenSize) % 2 ^ 64 := by
    rw [← h.writeOffset]
    unfold nextWrite
    split <;> rfl
  have hsource : ∀ i, (nextWrite p.reader).source = some i →
      i = p.reader.writeBuffer ∧ 0 < p.reader.buffersToWrite := by
    intro i hi
    unfold nextWrite at hi
    split at hi
    · exact absurd hi (Option.some_ne_none i).symm
    · rename_i hz
      exact ⟨(Option.some.inj hi).symm, Nat.pos_of_ne_zero (hb (not_not.mp hz))⟩
  refine ⟨{ h with
    sane := { h.sane with
      writes := by simp [hw]
      writing := fun q hmem => by
        obtain rfl := hq q hmem
        exact ⟨hoff, hlen, hpre, hsource⟩
      pending := by
        simp only [List.length_append, List.length_singleton]
        omega }
    drain := fun hne => absurd hd hne
    writePending := by simp
    nextWrite := fun q hmem => by
      obtain rfl := hq q hmem
      exact ⟨rfl, hb⟩ }, by simp, rfl, rfl, rfl⟩

theorem startWriteRequest_spec (h : Flowing o w stream p) (hd : p.reader.bytesToDrain = 0)
    (hw : p.writes = []) (hb : p.reader.prereadSize = 0 → p.reader.buffersToWrite ≠ 0) :
    startWriteRequest.wp
      (fun _ p' => Flowing o w stream p' ∧ p'.writes ≠ [] ∧ p'.reads = p.reads ∧
        p'.workItem = p.workItem ∧ p'.reader = { p.reader with
          operationsPending := p.reader.operationsPending + 1, writePending := true })
      (fun _ p' => Sane o (stream.take w) p' ∧ p'.calls = [] ∧ p'.workItem = p.workItem) p := by
  have hspec := writeFile_spec h hd hw hb
  unfold startWriteRequest
  simp only [Prog.wp_bind, Prog.wp_get, Prog.wp_ite, wp_assert]
  refine ⟨fun hp => ?_, fun hp => ?_⟩
  · rw [nextWrite, if_pos hp] at hspec
    exact hspec
  · -- the ASSERT compares the offset with the one the buffer was filled for
    obtain ⟨bs, hqueue⟩ := Flowing.queue_eq (hb (not_not.mp hp))
    have hbuf := h.buffered
    rw [hqueue] at hbuf
    have hassert : (p.asserts && (p.reader.writeOffset ==
        (p.reader.ioBuffers p.reader.writeBuffer).bufferWriteOffset)) = p.asserts := by
      rw [hbuf.1, h.writeOffset, not_not.mp hp, Nat.add_zero, beq_self_eq_true, Bool.and_true]
    rw [hassert]
    rw [nextWrite, if_neg hp] at hspec
    exact hspec

/-- `HandleError` in a sane state that has not called back. -/
theorem handleError_spec {e : ℕ} (h : Sane o (stream.take w) p) (hc : p.calls = [])
    (hwork : p.workItem = false) :
    (handleError e).wp (fun _ p' => PumpInv o w stream p') (fun _ _ => False) p := by
  unfold handleError
  simp only [Prog.wp_bind, wp_modifyReader, Prog.wp_modify]
  split
  · next hops => exact .failed { h with } hwork e rfl (by rw [if_pos hops]; exact hc)
  · next hops => exact .failed { h with } hwork e rfl (by rw [if_neg hops, hc]; rfl)

theorem completeIo_spec (h : Flowing o w stream p) (hwork : p.workItem = false)
    (hd : p.reader.bytesToDrain = 0) (hw : p.reader.bytesToWrite = 0) :
    completeIo.wp (fun _ p' => PumpInv o w stream p')
      (fun e p' => (handleError e).wp (fun _ p' => PumpInv o w stream p') (fun _ _ => False) p')
      p := by
  have hread := h.toRead
  have hreads : p.reads = [] := by
    refine List.eq_nil_iff_forall_not_mem.mpr fun q hq => ?_
    obtain ⟨-, hmore, -⟩ := h.reading q hq
    omega
  have hwrites : p.writes = [] := by
    refine List.eq_nil_iff_forall_not_mem.mpr fun q hq => ?_
    obtain ⟨bs, hqueue⟩ := Flowing.queue_eq ((h.nextWrite q hq).2 (by omega))
    have hbuf := h.buffered
    rw [hqueue] at hbuf hread
    have hused := hbuf.2.1
    simp only [bufferedSize, List.map_cons, List.sum_cons] at hread
    omega
  have hsize := h.toWrite
  have hdone : p.writtenSize = w := by omega
  refine .finished { h.sane with } hwork h.error hreads hwrites ?_ hdone
  show p.calls ++ _ = _
  rw [h.calls]
  rfl

/-- The end of `StartupIO`: the next read starts if there is something to read and a free buffer. -/
theorem startNextRead_spec (h : Flowing o w stream p) (hwork : p.workItem = false)
    (hd : p.reader.bytesToDrain = 0) (hw : p.reader.bytesToWrite ≠ 0)
    (hwrites : p.reader.prereadSize ≠ 0 ∨ p.reader.buffersToWrite ≠ 0 → p.writes ≠ []) :
    (if p.reader.readPending = false ∧ p.reader.bytesToRead ≠ 0 ∧
        numberOfIoBuffers - p.reader.buffersToWrite ≠ 0 then startReadRequest
      else pure ()).wp (fun _ p' => PumpInv o w stream p')
      (fun e p' => (handleError e).wp (fun _ p' => PumpInv o w stream p') (fun _ _ => False) p')
      p := by
  rw [Prog.wp_ite]
  refine ⟨fun hstart => ?_, fun hstart => ?_⟩
  · obtain ⟨hr, hmore, hfree⟩ := hstart
    have hreads : p.reads = [] := by
      by_contra hne
      exact Bool.noConfusion (hr.symm.trans (h.readPending.mpr hne))
    refine Prog.wp_mono (startReadRequest_spec h hreads (by omega) (Or.inr hmore))
      (fun _ p' h' => ?_) (fun e p' h' => handleError_spec h'.1 h'.2.1 (h'.2.2.trans hwork))
    obtain ⟨hflow, hne, hwrites', hwork', b, hreader⟩ := h'
    refine .working hflow (hwork'.trans hwork) ⟨fun _ => hne, fun _ => ?_, fun _ _ _ => hne⟩
    rw [hreader, hwrites']
    exact ⟨hw, hwrites⟩
  · rw [Prog.wp_pure]
    refine .working h hwork ⟨fun h0 => absurd hd h0, fun _ => ⟨hw, hwrites⟩, fun _ hmore hfree => ?_⟩
    refine h.readPending.mp (Bool.not_eq_false _ ▸ fun hr => hstart ⟨hr, hmore, by omega⟩)

/-- `StartupIO` keeps the reader at work, or finishes. -/
theorem startupIo_spec (h : Flowing o w stream p) (hwork : p.workItem = false)
    (hdrain : p.reader.bytesToDrain ≠ 0 → p.reads = []) :
    startupIo.wp (fun _ p' => PumpInv o w stream p') (fun _ _ => False) p := by
  have hfail : ∀ (e : ℕ) (p' : Pump),
      Sane o (stream.take w) p' ∧ p'.calls = [] ∧ p'.workItem = p.workItem →
        (handleError e).wp (fun _ p' => PumpInv o w stream p') (fun _ _ => False) p' :=
    fun e p' h' => handleError_spec h'.1 h'.2.1 (h'.2.2.trans hwork)
  unfold startupIo
  simp only [Prog.wp_tryCatch, Prog.wp_bind, Prog.wp_get, h.error, Prog.wp_ite]
  refine ⟨fun hd => ?_, fun hd => ⟨fun hw => ?_, fun hw => ⟨fun hstart => ?_, fun hstart => ?_⟩⟩⟩
  · obtain ⟨-, -, hfree, -⟩ := h.drain hd
    refine Prog.wp_mono (startReadRequest_spec h (hdrain hd) (by rw [hfree]; decide) (Or.inl hd))
      (fun _ p' h' => ?_) hfail
    obtain ⟨hflow, hreads, -, hwork', b, hreader⟩ := h'
    have hd' : p'.reader.bytesToDrain ≠ 0 := by rw [hreader]; exact hd
    exact .working hflow (hwork'.trans hwork)
      ⟨fun _ => hreads, fun h0 => absurd h0 hd', fun h0 => absurd h0 hd'⟩
  · exact completeIo_spec h hwork (not_not.mp hd) hw
  · have hb : p.reader.prereadSize = 0 → p.reader.buffersToWrite ≠ 0 :=
      fun h0 => hstart.2.resolve_left (not_not.mpr h0)
    have hwrites : p.writes = [] := by
      by_contra hne
      exact Bool.noConfusion (hstart.1.symm.trans (h.writePending.mpr hne))
    refine Prog.wp_mono (startWriteRequest_spec h (not_not.mp hd) hwrites hb)
      (fun _ p' h' => ?_) hfail
    obtain ⟨hflow, hne, -, hwork', hreader⟩ := h'
    refine startNextRead_spec hflow (hwork'.trans hwork) ?_ ?_ (fun _ => hne)
    · rw [hreader]; exact not_not.mp hd
    · rw [hreader]; exact hw
  · refine Prog.wp_ite _ _ _ |>.mp (startNextRead_spec h hwork (not_not.mp hd) hw fun hneed => ?_)
    refine h.writePending.mp (Bool.not_eq_false _ ▸ fun hr => hstart ⟨hr, hneed⟩)

end Pump

end NtAdmin.Drizzle.Server
