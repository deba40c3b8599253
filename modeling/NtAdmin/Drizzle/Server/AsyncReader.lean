import Mathlib.Algebra.GroupWithZero.Nat
import NtAdmin.Lib.Prog
import NtAdmin.Lib.Ring

/-! The body pump of the upload server: `AsyncReader` of server.cpp, over the system's
asynchronous reads of the request body and writes of the cache file. -/
namespace NtAdmin.Drizzle.Server

open NtAdmin.Lib

def numberOfIoBuffers : ℕ := 3

/-- `sizeof( Buffer->m_Buffer )`. -/
def ioBufferSize : ℕ := 32768

structure IOBuffer where
  bufferWriteOffset : ℕ
  bufferUsed : ℕ
  buffer : List UInt8

/-- `prereadBuffer` is the memory from `m_PrereadBuffer` on, and `error` is `m_Error` while
`m_ErrorValid`. The reference counts and the thread token are left out. -/
structure AsyncReader where
  bytesToDrain : ℕ
  writeOffset : ℕ
  readOffset : ℕ
  bytesToWrite : ℕ
  bytesToRead : ℕ
  prereadBuffer : List UInt8
  prereadSize : ℕ
  totalBytesRead : ℕ
  operationsPending : ℕ
  readBuffer : ℕ
  writeBuffer : ℕ
  buffersToWrite : ℕ
  writePending : Bool
  readPending : Bool
  error : Option ℕ
  ioBuffers : ℕ → IOBuffer

/-- An outstanding read of up to `size` body bytes into the I/O buffer `buffer`. -/
structure ReadRequest where
  buffer : ℕ
  size : ℕ

/-- An outstanding write of `size` bytes at `offset`, out of the I/O buffer `source` or of the
preread data. -/
structure WriteRequest where
  source : Option ℕ
  offset : ℕ
  size : ℕ

/-- What the reader calls in the request that owns it. -/
inductive Callback
  | completeIo (totalBytesRead : ℕ)
  | handleIOError (error totalBytesRead : ℕ)
  deriving DecidableEq, Repr

/-- The reader and the system around it. `workItem` is the queued `StartupIOWraper`, `starts` are
the outcomes of the coming requests (an error for one that does not start, all others do),
`unread` is the body the client has sent and the server has not read, `written` are the bytes that
went into the file with their offsets, `asserts` tells that no ASSERT has failed. -/
structure Pump where
  reader : AsyncReader
  workItem : Bool
  reads : List ReadRequest
  writes : List WriteRequest
  starts : List (Option ℕ)
  unread : List UInt8
  written : List (ℕ × List UInt8)
  calls : List Callback
  asserts : Bool

/-- The errors are `ServerException`s. -/
abbrev PumpOp := Prog Pump ℕ Unit

namespace Pump

/-- The bytes an outstanding write takes out of memory. -/
def data (p : Pump) (q : WriteRequest) : List UInt8 :=
  (match q.source with
    | none => p.reader.prereadBuffer
    | some i => (p.reader.ioBuffers i).buffer).take q.size

def modifyReader (f : AsyncReader → AsyncReader) : PumpOp :=
  modify fun p => { p with reader := f p.reader }

def assert (b : Pump → Bool) : PumpOp := modify fun p => { p with asserts := p.asserts && b p }

/-- The system starts a request, or does not. -/
def start : PumpOp := fun p =>
  match p.starts with
  | [] => (.ok (), p)
  | none :: starts => (.ok (), { p with starts })
  | some e :: starts => (.error e, { p with starts })

def setBuffer (i : ℕ) (f : IOBuffer → IOBuffer) : PumpOp :=
  modifyReader fun r => { r with ioBuffers := Function.update r.ioBuffers i (f (r.ioBuffers i)) }

def handleError (e : ℕ) : PumpOp := do
  modifyReader fun r => { r with error := some e }
  modify fun p =>
    if p.reader.operationsPending ≠ 0 then p
    else { p with calls := p.calls ++ [.handleIOError e p.reader.totalBytesRead] }

def completeIo : PumpOp :=
  modify fun p => { p with calls := p.calls ++ [.completeIo p.reader.totalBytesRead] }

/-- `HSE_REQ_ASYNC_READ_CLIENT` and the bookkeeping when it starts. -/
def asyncReadClient (q : ReadRequest) : PumpOp := do
  start
  modify fun p => { p with reads := p.reads ++ [q] }
  modifyReader fun r =>
    { r with operationsPending := r.operationsPending + 1, readPending := true }

/-- `WriteFile` and the bookkeeping when it starts. -/
def writeFile (q : WriteRequest) : PumpOp := do
  start
  modify fun p => { p with writes := p.writes ++ [q] }
  modifyReader fun r =>
    { r with operationsPending := r.operationsPending + 1, writePending := true }

def startReadRequest : PumpOp := do
  let p ← get
  let r := p.reader
  if r.bytesToDrain ≠ 0 then do
    setBuffer r.readBuffer fun b => { b with bufferWriteOffset := 0, bufferUsed := 0 }
    asyncReadClient ⟨r.readBuffer, min r.bytesToDrain ioBufferSize⟩
  else do
    setBuffer r.readBuffer fun b => { b with bufferWriteOffset := r.readOffset, bufferUsed := 0 }
    asyncReadClient ⟨r.readBuffer, min r.bytesToRead ioBufferSize⟩

def startWriteRequest : PumpOp := do
  let p ← get
  let r := p.reader
  if r.prereadSize ≠ 0 then
    writeFile ⟨none, r.writeOffset, r.prereadSize⟩
  else do
    let b := r.ioBuffers r.writeBuffer
    assert fun _ => r.writeOffset == b.bufferWriteOffset
    writeFile ⟨some r.writeBuffer, r.writeOffset, b.bufferUsed⟩

def startupIo : PumpOp :=
  tryCatch (do
    let p ← get
    match p.reader.error with
    | some e => throw e
    | none =>
      if p.reader.bytesToDrain ≠ 0 then startReadRequest
      else if p.reader.bytesToWrite = 0 then completeIo
      else do
        if p.reader.writePending = false ∧
            (p.reader.prereadSize ≠ 0 ∨ p.reader.buffersToWrite ≠ 0) then startWriteRequest
        let p ← get
        if p.reader.readPending = false ∧ p.reader.bytesToRead ≠ 0 ∧
            numberOfIoBuffers - p.reader.buffersToWrite ≠ 0 then startReadRequest)
    handleError

/-- The arguments of a completion routine: `dwError`, and the bytes transferred. -/
def writeComplete (dwError : Option ℕ) (bytesWritten : ℕ) : PumpOp :=
  tryCatch (do
    let p ← get
    match p.reader.error with
    | some e => throw e
    | none =>
      modifyReader fun r => { r with writePending := false }
      match dwError with
      | some e => throw e
      | none =>
        modifyReader fun r => { r with bytesToWrite := r.bytesToWrite - bytesWritten }
        if p.reader.prereadSize ≠ 0 then
          modifyReader fun r =>
            { r with
              prereadSize := r.prereadSize - bytesWritten
              prereadBuffer := r.prereadBuffer.drop bytesWritten
              writeOffset := (r.writeOffset + bytesWritten) % 2 ^ 64 }
        else do
          let used := (p.reader.ioBuffers p.reader.writeBuffer).bufferUsed
          assert fun _ => bytesWritten == used
          modifyReader fun r =>
            { r with
              writeOffset := (r.writeOffset + used) % 2 ^ 64
              buffersToWrite := r.buffersToWrite - 1
              writeBuffer := (r.writeBuffer + 1) % numberOfIoBuffers }
        startupIo)
    handleError

def readComplete (dwError : Option ℕ) (bytesRead : ℕ) : PumpOp :=
  tryCatch (do
    modifyReader fun r => { r with totalBytesRead := r.totalBytesRead + bytesRead }
    let p ← get
    match p.reader.error with
    | some e => throw e
    | none =>
      modifyReader fun r => { r with readPending := false }
      match dwError with
      | some e => throw e
      | none =>
        setBuffer p.reader.readBuffer fun b => { b with bufferUsed := bytesRead }
        modifyReader fun r =>
          { r with
            bytesToRead := r.bytesToRead - bytesRead
            readOffset := (r.readOffset + bytesRead) % 2 ^ 64 }
        if p.reader.bytesToDrain ≠ 0 then
          modifyReader fun r => { r with bytesToDrain := r.bytesToDrain - bytesRead }
        else
          modifyReader fun r =>
            { r with
              buffersToWrite := r.buffersToWrite + 1
              readBuffer := (r.readBuffer + 1) % numberOfIoBuffers }
        startupIo)
    handleError

/-- The three wrappers take the operation off the count before they go on. -/
def operationDone (body : PumpOp) : PumpOp := do
  modifyReader fun r => { r with operationsPending := r.operationsPending - 1 }
  body

end Pump

/-- What the system does next: it runs the work item, or ends the oldest outstanding read or write.
A read delivers the next `n` body bytes, also before it fails; a write that fails may have written
`n` bytes. -/
inductive PumpEvent
  | workItem
  | readDone (n : ℕ)
  | readFails (error n : ℕ)
  | writeDone
  | writeFails (error n : ℕ)

namespace PumpEvent
open Pump

/-- The system delivers `n` bytes of the body to the read request `q`. -/
def deliver (p : Pump) (q : ReadRequest) (n : ℕ) : Pump :=
  { p with
    unread := p.unread.drop n
    reader := { p.reader with
      ioBuffers := Function.update p.reader.ioBuffers q.buffer
        { p.reader.ioBuffers q.buffer with
          buffer := p.unread.take n ++ (p.reader.ioBuffers q.buffer).buffer.drop n } } }

/-- The events that the system can bring about in a state. -/
def Enabled : PumpEvent → Pump → Prop
  | workItem, p => p.workItem = true
  | readDone n, p => ∃ q qs, p.reads = q :: qs ∧ 0 < n ∧ n ≤ q.size ∧ n ≤ p.unread.length
  | readFails _ n, p => ∃ q qs, p.reads = q :: qs ∧ n ≤ q.size ∧ n ≤ p.unread.length
  | writeDone, p => p.writes ≠ []
  | writeFails _ n, p => ∃ q qs, p.writes = q :: qs ∧ n ≤ q.size

def step : PumpEvent → Pump → Pump
  | workItem, p => (operationDone startupIo).after { p with workItem := false }
  | readDone n, p =>
    match p.reads with
    | [] => p
    | q :: reads => (operationDone (readComplete none n)).after { deliver p q n with reads }
  | readFails e n, p =>
    match p.reads with
    | [] => p
    | q :: reads => (operationDone (readComplete (some e) n)).after { deliver p q n with reads }
  | writeDone, p =>
    match p.writes with
    | [] => p
    | q :: writes =>
      (operationDone (writeComplete none q.size)).after
        { p with writes, written := p.written ++ [(q.offset, p.data q)] }
  | writeFails e n, p =>
    match p.writes with
    | [] => p
    | q :: writes =>
      (operationDone (writeComplete (some e) n)).after
        { p with writes, written := p.written ++ [(q.offset, (p.data q).take n)] }

end PumpEvent

/-- The state behind the constructor, which got `preread` of the body, with `unread` to come. -/
def Pump.init (bytesToDrain bytesToWrite writeOffset : ℕ) (preread unread : List UInt8)
    (starts : List (Option ℕ)) : Pump :=
  let drainBytesInPreread := min bytesToDrain preread.length
  let bytesToDrain := bytesToDrain - drainBytesInPreread
  let prereadSize := preread.length - drainBytesInPreread
  { reader :=
      { bytesToDrain, bytesToWrite, writeOffset
        readOffset := (writeOffset + 2 ^ 64 - bytesToDrain + prereadSize) % 2 ^ 64
        bytesToRead := (bytesToWrite + bytesToDrain - prereadSize) % 2 ^ 64
        prereadBuffer := preread.drop drainBytesInPreread
        prereadSize
        totalBytesRead := 0
        operationsPending := 1
        readBuffer := 0
        writeBuffer := 0
        buffersToWrite := 0
        writePending := false
        readPending := false
        error := none
        ioBuffers := fun _ => ⟨0, 0, []⟩ }
    workItem := true
    reads := []
    writes := []
    starts, unread
    written := []
    calls := []
    asserts := !(bytesToDrain != 0 && prereadSize != 0) }

end NtAdmin.Drizzle.Server
