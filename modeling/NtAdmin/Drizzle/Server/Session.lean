import NtAdmin.Drizzle.Server.AsyncReader
import NtAdmin.Lib.Bytes

/-! The upload server of server.cpp: what a request does to the files of its session, and the
responses it sends. -/
namespace NtAdmin.Drizzle.Server

open NtAdmin.Lib

def eInvalidArg : ℕ := 0x80070057
def bgSessionNotFound : ℕ := 0x8020001F
def bgTooLarge : ℕ := 0x80200020

/-- `HRESULT_FROM_WIN32`, of the codes that are errors. -/
def hresultFromWin32 (e : ℕ) : ℕ := 0x80070000 + e

def errorFileNotFound : ℕ := 2
def errorPathNotFound : ℕ := 3
def errorAccessDenied : ℕ := 5
def errorSharingViolation : ℕ := 32
def errorAlreadyExists : ℕ := 183

structure ServerException where
  code : ℕ
  httpCode : ℕ
  context : ℕ
  deriving DecidableEq, Repr

def mapStatus (hr : ℕ) : ℕ :=
  if hr = eInvalidArg then 400
  else if hr = hresultFromWin32 errorFileNotFound then 404
  else if hr = hresultFromWin32 errorPathNotFound then 404
  else if hr = hresultFromWin32 errorAccessDenied then 403
  else 500

def serverException (hr : ℕ) : ServerException := ⟨hr, mapStatus hr, 0x5⟩

/-- The headers of a response that a client looks at. -/
structure Response where
  code : ℕ
  sessionId : Option ℕ
  receivedContentRange : Option ℕ
  replyURL : Option String
  error : Option ℕ
  errorContext : Option ℕ
  deriving DecidableEq, Repr

def ack (code : ℕ) : Response := ⟨code, none, none, none, none, none⟩

def ackRange (code range : ℕ) : Response := { ack code with receivedContentRange := some range }

def ServerException.response (e : ServerException) : Response :=
  { ack e.httpCode with error := some e.code, errorContext := some e.context }

inductive NotificationType
  | none
  | postByRef
  | postByVal
  deriving DecidableEq, Repr

structure DirectoryConfig where
  maxFileSize : ℕ
  notificationType : NotificationType
  allowOverwrites : Bool

def internetMaxUrlLength : ℕ := 2200

/-- `STATE_FILE_STRUCT`, where an empty `replyURL` is one that was not returned. -/
structure StateFile where
  uploadFileSize : ℕ
  notifyCached : Bool
  httpCode : ℕ
  replyURL : String

def StateFile.initial : StateFile := ⟨0, false, 0, ""⟩

/-- What a Fragment request brings: the numbers of its Content-Range when there are three, its
Content-Length, and its body, of which `preread` came with the request. -/
structure FragmentRequest where
  contentRange : Option (ℕ × ℕ × ℕ)
  contentLength : ℕ
  preread : List UInt8
  unread : List UInt8

/-- A fragment that passed the checks. It came when `copy` cache files were gone, and
when it was done the cache file had `reach` bytes. -/
structure Accepted where
  rangeStart : ℕ
  rangeLength : ℕ
  totalLength : ℕ
  body : List UInt8
  copy : ℕ
  reach : ℕ

/-- The request that has the cache file open, from when on it held `base`. -/
structure Upload where
  fragment : Accepted
  base : List UInt8
  pump : Pump

/-- The directory of a session. A state file that is not there is as good as an initialized one.
`accepted` are the fragments that are done with, and `gone` the cache files, moved or deleted. -/
structure Session where
  directory : Bool
  stateFile : StateFile
  cacheFile : Option (List UInt8)
  upload : Option Upload
  accepted : List Accepted
  gone : List (List UInt8)

/-- A session and what is around it. `destination` are the files that have been put there, of which
the last one is in place, `systemCalls` the outcomes of the coming calls of the system: an error for
one that fails, all others succeed. -/
structure Host where
  session : Session
  destination : List (List UInt8)
  systemCalls : List (Option ℕ)
  responses : List Response

abbrev ServerOp := Prog Host ServerException Unit

/-- What comes of a notification. `replyURL` is the one the backend states, or the one of the
response file, if any. -/
inductive Backend
  | fails (error context : ℕ)
  | answers (httpStatus : ℕ) (replyURL : String) (copyFileToDestination : Bool)

/-- The answer has a BITS-Copy-File-To-Destination header. -/
def Backend.asksForFile : Backend → Bool
  | .fails _ _ => false
  | .answers _ _ copyFileToDestination => copyFileToDestination

/-- The contents of the cache file, nothing before it is created. -/
def Session.file (s : Session) : List UInt8 := s.cacheFile.getD []

namespace Host

def modifySession (f : Session → Session) : ServerOp :=
  modify fun s => { s with session := f s.session }

def systemCall : ServerOp := fun s =>
  match s.systemCalls with
  | [] => (.ok (), s)
  | none :: systemCalls => (.ok (), { s with systemCalls })
  | some hr :: systemCalls => (.error (serverException hr), { s with systemCalls })

def sendResponse (r : Response) : ServerOp :=
  modify fun s => { s with responses := s.responses ++ [r] }

def sendResponseAfterNotification (httpStatus requestFileSize : ℕ) (replyURL : String) : ServerOp :=
  sendResponse
    { ackRange httpStatus requestFileSize with
      replyURL := if replyURL = "" then none else some replyURL
      errorContext := if httpStatus = 200 then none else some 0x7 }

def verifySessionExists : ServerOp := do
  systemCall
  let s ← get
  if s.session.directory = false then throw (serverException bgSessionNotFound)

/-- `CrackContentRange`: the range's start and length, and the total length. -/
def crackContentRange (config : DirectoryConfig) (f : FragmentRequest) :
    Prog Host ServerException (ℕ × ℕ × ℕ) :=
  match f.contentRange with
  | none => throw (serverException eInvalidArg)
  | some (rangeStart, rangeEnd, totalLength) =>
    if totalLength > config.maxFileSize then throw (serverException bgTooLarge)
    else if rangeStart = (rangeEnd + 1) % 2 ^ 64 ∧ f.contentLength = 0 ∧
        rangeStart = totalLength then
      pure (totalLength, 0, totalLength)
    else if rangeEnd < rangeStart then throw (serverException eInvalidArg)
    else if f.contentLength ≠ (rangeEnd - rangeStart + 1) % 2 ^ 64 then
      throw (serverException eInvalidArg)
    else pure (rangeStart, (rangeEnd - rangeStart + 1) % 2 ^ 64, totalLength)

/-- The check of the total length against the state file, and its first entry there. -/
def checkUploadFileSize (totalLength : ℕ) : ServerOp := do
  let s ← get
  if s.session.stateFile.uploadFileSize ≠ 0 then
    if s.session.stateFile.uploadFileSize ≠ totalLength then
      throw (serverException eInvalidArg)
  else
    modifySession fun t => { t with stateFile := { t.stateFile with uploadFileSize := totalLength } }

/-- The file is opened for one request alone, and created when it is not there. The code that is
compared with ERROR_PATH_NOT_FOUND is an HRESULT. -/
def openCacheFile : ServerOp := do
  tryCatch systemCall fun e =>
    if e.code = errorPathNotFound then throw (serverException bgSessionNotFound)
    else throw (serverException e.code)
  let s ← get
  if s.session.upload.isSome then
    throw (serverException (hresultFromWin32 errorSharingViolation))
  else modifySession fun t => { t with cacheFile := some t.file }

/-- The rest of `AddFragment`, with the cache file open. -/
def startReader (rangeStart rangeLength totalLength : ℕ) (f : FragmentRequest)
    (starts : List (Option ℕ)) : ServerOp := do
  systemCall
  let s ← get
  let base := s.session.file
  if base.length < rangeStart then sendResponse (ackRange 416 base.length)
  else do
    systemCall
    let bytesToDrain := min (base.length - rangeStart) rangeLength
    modifySession fun t =>
      { t with
        upload := some ⟨⟨rangeStart, rangeLength, totalLength, f.preread ++ f.unread,
            t.gone.length, base.length⟩, base,
          .init bytesToDrain (rangeLength - bytesToDrain) base.length f.preread f.unread starts⟩ }

def addFragment (config : DirectoryConfig) (f : FragmentRequest) (starts : List (Option ℕ)) :
    ServerOp := do
  verifySessionExists
  systemCall
  let (rangeStart, rangeLength, totalLength) ← crackContentRange config f
  if (rangeStart + rangeLength) % 2 ^ 64 > totalLength then throw (serverException eInvalidArg)
  else do
    checkUploadFileSize totalLength
    let s ← get
    if s.session.stateFile.notifyCached then do
      modifySession fun t =>
        { t with accepted := t.accepted ++
            [⟨rangeStart, rangeLength, totalLength, f.preread ++ f.unread, t.gone.length, 0⟩] }
      sendResponseAfterNotification s.session.stateFile.httpCode
        s.session.stateFile.uploadFileSize s.session.stateFile.replyURL
    else do
      systemCall
      openCacheFile
      startReader rangeStart rangeLength totalLength f starts

/-- `BITSRenameFile` of the cache file, which does not move while it is open. -/
def renameFile (config : DirectoryConfig) (isOpen : Bool) : ServerOp := do
  systemCall
  let s ← get
  match s.session.cacheFile with
  | none => throw (serverException (hresultFromWin32 errorFileNotFound))
  | some file =>
    if isOpen then throw (serverException (hresultFromWin32 errorSharingViolation))
    else if s.destination ≠ [] ∧ config.allowOverwrites = false then
      throw (serverException (hresultFromWin32 errorAlreadyExists))
    else
      modify fun s =>
        { s with
          session := { s.session with cacheFile := none, gone := s.session.gone ++ [file] }
          destination := s.destination ++ [file] }

/-- The rest of `CallServerNotification`, with the answer of the backend. -/
def answerNotification (httpStatus cacheFileSize : ℕ) (replyURL : String) : ServerOp :=
  if replyURL.length > internetMaxUrlLength then throw (serverException eInvalidArg)
  else do
    if httpStatus = 200 ∨ httpStatus = 403 then
      modifySession fun t =>
        { t with stateFile := { t.stateFile with
            httpCode := httpStatus
            replyURL := if replyURL = "" then t.stateFile.replyURL else replyURL
            notifyCached := true } }
    sendResponseAfterNotification httpStatus cacheFileSize replyURL

/-- `CallServerNotification`. Only for a notification by reference the cache file is closed by
now. -/
def callServerNotification (config : DirectoryConfig) (cacheFileSize : ℕ) : Backend → ServerOp
  | .fails error context => throw ⟨error, mapStatus error, context⟩
  | .answers httpStatus replyURL copyFileToDestination => do
    if copyFileToDestination then
      renameFile config (config.notificationType != .postByRef)
    answerNotification httpStatus cacheFileSize replyURL

/-- `ServerRequest::CompleteIo`. -/
def requestCompleteIo (config : DirectoryConfig) (backend : Backend) : ServerOp :=
  tryCatch (do
    systemCall
    let s ← get
    let cacheFileSize := s.session.file.length
    if cacheFileSize = s.session.stateFile.uploadFileSize ∧ config.notificationType ≠ .none then
      callServerNotification config cacheFileSize backend
    else sendResponse (ackRange 200 cacheFileSize))
    fun e => sendResponse e.response

/-- `ServerRequest::HandleIOError`. -/
def requestHandleIOError (error : ℕ) : ServerOp := sendResponse (serverException error).response

/-- A request that throws is answered with the error. -/
def dispatch (request : ServerOp) : ServerOp :=
  tryCatch request fun e => sendResponse e.response

/-- A Fragment request arrives. -/
def fragment (config : DirectoryConfig) (f : FragmentRequest) (starts : List (Option ℕ)) :
    ServerOp :=
  dispatch do
    if f.contentLength < f.preread.length then throw (serverException eInvalidArg)
    else addFragment config f starts

/-- `BITSDeleteFile` of the cache file, which is no error when it is not there. -/
def deleteCacheFile : ServerOp := do
  systemCall
  let s ← get
  if s.session.upload.isSome then
    throw (serverException (hresultFromWin32 errorSharingViolation))
  else
    modifySession fun t => { t with cacheFile := none, gone := t.gone ++ t.cacheFile.toList }

/-- `RemoveDirectory`, of which nobody asks whether it worked. -/
def removeDirectory : ServerOp :=
  tryCatch (do
    systemCall
    modifySession fun t => { t with directory := false })
    fun _ => pure ()

/-- The part of `CloseSession` that takes the cache file away. -/
def closeCacheFile (config : DirectoryConfig) : ServerOp := do
  let s ← get
  if config.notificationType = .none then renameFile config s.session.upload.isSome
  else deleteCacheFile

def closeSession (config : DirectoryConfig) : ServerOp :=
  dispatch do
    verifySessionExists
    closeCacheFile config
    systemCall
    systemCall
    modifySession fun t => { t with stateFile := .initial }
    removeDirectory
    sendResponse (ack 200)

/-- `CreateSession`, with the new session id. -/
def createSession (sessionId : ℕ) : ServerOp :=
  dispatch do
    systemCall
    systemCall
    modifySession fun t => { t with directory := true }
    systemCall
    sendResponse { ack 200 with sessionId := some sessionId }

/-- The request that has the cache file open is done with it. -/
def closeUpload (u : Upload) : ServerOp :=
  modifySession fun t =>
    { t with
      upload := none
      accepted := t.accepted ++ [{ u.fragment with reach := t.file.length }] }

/-- The cache file with the writes that have been made to it. -/
def applyWrites (file : List UInt8) (ws : List (ℕ × List UInt8)) : List UInt8 :=
  ws.foldl (fun f w => writeAt 0 f w.1 w.2) file

/-- An event of the body pump, and what the request does when the pump calls it. -/
def io (config : DirectoryConfig) (ev : PumpEvent) (backend : Backend) : ServerOp := do
  let s ← get
  match s.session.upload with
  | none => pure ()
  | some u => do
    let pump := ev.step u.pump
    modifySession fun t =>
      { t with
        upload := some { u with pump }
        cacheFile := some (applyWrites u.base pump.written) }
    match pump.calls with
    | [] => pure ()
    | .completeIo _ :: _ => do
      closeUpload u
      requestCompleteIo config backend
    | .handleIOError e _ :: _ => do
      closeUpload u
      requestHandleIOError e

end Host

end NtAdmin.Drizzle.Server
