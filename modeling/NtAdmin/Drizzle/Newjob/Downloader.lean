import Mathlib.Algebra.GroupWithZero.Nat
import NtAdmin.Lib.Bytes
import NtAdmin.Lib.Prog

/-! The download of a file, in the foreground and by throttled blocks, of downloader.cpp and
cache.cpp. -/
namespace NtAdmin.Drizzle.Newjob

open NtAdmin.Lib

inductive TransferError
  | sendRequest
  | http (status : ℕ)
  | fileChanged
  | insufficientRangeSupport
  | invalidServerResponse
  | internetReadFile
  | connectionReset
  deriving DecidableEq

/-- Why a download returns before the file is complete: `S_FALSE` or a failure. -/
inductive Stop
  | aborted
  | failed (error : TransferError)
  deriving DecidableEq

/-- A reply. Its headers are there or not, and are understood or not. -/
structure Reply where
  status : ℕ
  contentRange : Option (Option (ℕ × ℕ × ℕ))
  contentLength : Option (Option ℕ)
  body : List UInt8

/-- What is outside: the remote file and the answers to requests for the bytes from a first to a
last one, how many bytes the coming calls of `InternetReadFile` find (or that they fail), the
answers to the coming questions for an abort, the times between blocks, and the block sizes that
the network is good for. -/
structure Transport where
  fileSize : ℕ
  sendRequest : ℕ → ℕ → Except TransferError Reply
  readFile : ℕ → Option ℕ
  abort : ℕ → Bool
  timeDelta : ℕ → ℕ
  blockSize : ℕ → ℕ

/-- The local file and the place in it, and how much of the outside has been used up. -/
structure Download where
  currentOffset : ℕ
  file : List UInt8
  reads : ℕ
  polls : ℕ
  blocks : ℕ

abbrev DownloadOp := Prog Download Stop

def httpStatusOk : ℕ := 200
def httpStatusPartialContent : ℕ := 206
def httpStatusPrecondFailed : ℕ := 412
def fileDataBufferLen : ℕ := 48 * 1024
def maxRequest : ℕ := 2147483648
def minForegroundBlock : ℕ := 4096
def foregroundBlockIncrement : ℕ := 1024
def foregroundUpdateRate : ℕ := 2000
def maxIisSendSize : ℕ := 128 * 1024

section download
variable (t : Transport)

def checkReplyRange (r : Reply) (correctStart correctEnd correctTotal : ℕ) :
    Except TransferError Unit :=
  match r.contentRange with
  | none => throw .insufficientRangeSupport
  | some none => throw .invalidServerResponse
  | some (some range) =>
    if range ≠ (correctStart, correctEnd, correctTotal) then throw .invalidServerResponse
    else pure ()

/-- A reply of status 200 has all of the file. -/
def checkReplyLength (r : Reply) (correctOffset correctTotal : ℕ) : Except TransferError Unit :=
  if correctOffset ≠ 0 then throw .insufficientRangeSupport
  else
    match r.contentLength with
    | none => throw .insufficientRangeSupport
    | some none => throw .insufficientRangeSupport
    | some (some total) =>
      if total ≠ correctTotal then throw .insufficientRangeSupport else pure ()

/-- `StartRangeRequest`: the body of the reply for the next `length` bytes. -/
def startRangeRequest (length : ℕ) : DownloadOp (List UInt8) := do
  let d ← get
  let reply : Except TransferError (List UInt8) := do
    let r ← t.sendRequest d.currentOffset (d.currentOffset + length - 1)
    if r.status = httpStatusPrecondFailed then throw .fileChanged
    else if r.status ≠ httpStatusPartialContent ∧ r.status ≠ httpStatusOk then
      throw (.http r.status)
    else if r.status = httpStatusPartialContent then do
      checkReplyRange r d.currentOffset (d.currentOffset + length - 1) t.fileSize
      pure r.body
    else do
      checkReplyLength r d.currentOffset length
      pure r.body
  match reply with
  | .error e => throw (.failed e)
  | .ok body => pure body

/-- The download is asked whether it is to go on. -/
def pollAbort : DownloadOp Unit := do
  let d ← get
  set { d with polls := d.polls + 1 }
  if t.abort d.polls then throw .aborted

/-- Up to `dwBytesToRead` bytes of a reply, and what is left of it. -/
def internetReadFile (reply : List UInt8) (dwBytesToRead : ℕ) :
    DownloadOp (List UInt8 × List UInt8) := do
  let d ← get
  set { d with reads := d.reads + 1 }
  match t.readFile d.reads with
  | none => throw (.failed .internetReadFile)
  | some n =>
    let dwRead := min dwBytesToRead (n + 1)
    pure (reply.take dwRead, reply.drop dwRead)

def writeBlockToCache (buffer : List UInt8) : DownloadOp Unit :=
  modify fun d =>
    { d with
      file := writeAt 0 d.file d.currentOffset buffer
      currentOffset := d.currentOffset + buffer.length }

def isFileComplete : DownloadOp Bool := do
  let d ← get
  pure (d.currentOffset == t.fileSize)

/-- The innermost loop of `DownloadForegroundFile`, which fills a block. -/
def readBlock (reply buffer : List UInt8) (dwBytesToRead : ℕ) :
    DownloadOp (List UInt8 × List UInt8) := do
  let (p, reply) ← internetReadFile t reply dwBytesToRead
  if _hread : p = [] then pure (buffer, reply)
  else if _hleft : dwBytesToRead - p.length = 0 then pure (buffer ++ p, reply)
  else do
    pollAbort t
    readBlock reply (buffer ++ p) (dwBytesToRead - p.length)
termination_by dwBytesToRead
decreasing_by
  have := List.length_pos_of_ne_nil _hread
  omega

/-- The size of the next block, in `DWORD` arithmetic. -/
def nextForegroundBlockSize (dwTimeDelta foregroundBlockSize remaining : ℕ) : ℕ :=
  let size :=
    if dwTimeDelta < foregroundUpdateRate then
      min (foregroundBlockSize + foregroundBlockIncrement) fileDataBufferLen
    else if foregroundUpdateRate < dwTimeDelta then
      max ((foregroundBlockSize + 2 ^ 32 - foregroundBlockIncrement) % 2 ^ 32) minForegroundBlock
    else foregroundBlockSize
  min size remaining

/-- The loop over the blocks of a request, for `fuel` rounds. It is only left by a return. -/
def readBlocks : ℕ → List UInt8 → ℕ → DownloadOp (Option Unit)
  | 0, _, _ => pure none
  | fuel + 1, reply, foregroundBlockSize => do
    pollAbort t
    if ← isFileComplete t then pure (some ())
    else do
      let (buffer, reply) ← readBlock t reply [] foregroundBlockSize
      writeBlockToCache buffer
      let d ← get
      if buffer.length ≠ foregroundBlockSize ∧ d.currentOffset ≠ t.fileSize then
        throw (.failed .connectionReset)
      else do
        pollAbort t
        readBlocks fuel reply (nextForegroundBlockSize (t.timeDelta d.reads) foregroundBlockSize
          (t.fileSize - d.currentOffset))

/-- `DownloadForegroundFile`. As nothing but a return leaves the loop over the blocks, the loop over
the requests around it has one round. -/
def downloadForegroundFile (fuel : ℕ) : DownloadOp (Option Unit) := do
  let d ← get
  let blockSize := min (t.fileSize - d.currentOffset) maxRequest
  let reply ← startRangeRequest t blockSize
  readBlocks t fuel reply (min minForegroundBlock blockSize)

/-- The loop of `GetNextBlock`, with `left` bytes of the block to come. -/
def readThrottled (reply : List UInt8) (left : ℕ) : DownloadOp Unit :=
  if _hleft : left = 0 then pure ()
  else do
    let (p, reply) ← internetReadFile t reply (min left fileDataBufferLen)
    if _hread : p = [] then throw (.failed .connectionReset)
    else do
      writeBlockToCache p
      pollAbort t
      readThrottled reply (left - p.length)
termination_by left
decreasing_by
  have := List.length_pos_of_ne_nil _hread
  omega

def getNextBlock : DownloadOp Unit := do
  let d ← get
  set { d with blocks := d.blocks + 1 }
  let blockSize := min (t.blockSize d.blocks) (min (t.fileSize - d.currentOffset) maxIisSendSize)
  if blockSize = 0 then pure ()
  else do
    let reply ← startRangeRequest t blockSize
    readThrottled t reply blockSize
    pollAbort t

/-- The loop of `DownloadFile` for a throttled download. -/
def getBlocks : ℕ → DownloadOp (Option Unit)
  | 0 => pure none
  | fuel + 1 => do
    getNextBlock t
    if ← isFileComplete t then pure (some ()) else getBlocks fuel

/-- `DownloadFile`, once the local file is open. -/
def downloadFile (throttle : Bool) (fuel : ℕ) : DownloadOp (Option Unit) := do
  if ← isFileComplete t then pure (some ())
  else if throttle = false then downloadForegroundFile t fuel
  else do
    pollAbort t
    getBlocks t fuel

end download

/-- `OpenLocalDownloadFile`: a download that goes on needs a file of the right size, one that begins
gets a new one. -/
def openLocalDownloadFile (t : Transport) (existing : List UInt8) (offset : ℕ) :
    Except TransferError Download :=
  if 0 < offset then
    if t.fileSize ≠ existing.length then throw .fileChanged
    else pure ⟨offset, existing, 0, 0, 0⟩
  else pure ⟨0, List.replicate t.fileSize 0, 0, 0, 0⟩

end NtAdmin.Drizzle.Newjob
