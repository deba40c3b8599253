import NtAdmin.Drizzle.Server.Session

/-! The upload client of uploader.cpp: the requests it sends, and what it makes of the answers. -/
namespace NtAdmin.Drizzle.Newjob

open NtAdmin.Drizzle.Server

inductive UploadState
  | createSession
  | sendData
  | getReply
  | closeSession
  | closed
  deriving DecidableEq, Repr

inductive JobType
  | upload
  | uploadReply
  deriving DecidableEq, Repr

/-- What a job keeps of an upload: of `UPLOAD_DATA` the state and the session id, of the file
`m_BytesTransferred`. -/
structure UploadData where
  state : UploadState
  sessionId : Option ℕ
  bytesTransferred : ℕ

/-- The members of an `Uploader` object. `hFile` is the position of the file pointer. -/
structure Uploader where
  hFile : ℕ
  expectedServerOffset : ℕ
  restarts : ℕ

/-- The Content-Range, and as much of the body as the file had. -/
structure FragmentMessage where
  sessionId : Option ℕ
  rangeStart : ℕ
  rangeEnd : ℕ
  totalLength : ℕ
  bodyLength : ℕ
  body : List UInt8

inductive ClientRequest
  | createSession
  | fragment (m : FragmentMessage)
  | closeSession (sessionId : Option ℕ)

/-- A job, with the uploader that is at work on it, if any. -/
structure Client where
  jobType : JobType
  bytesTotal : ℕ
  data : UploadData
  uploader : Option Uploader

namespace Client

/-- The upload ends, for now. -/
def stop (c : Client) : Client := { c with uploader := none }

/-- The constructor of `Uploader`, with `OpenLocalFileForUpload`. -/
def construct (c : Client) : Client := { c with uploader := some ⟨c.data.bytesTransferred, 0, 0⟩ }

def setState (state : UploadState) (c : Client) : Client := { c with data := { c.data with state } }

def uploaderProgress (bytesTransferred : ℕ) (c : Client) : Client :=
  { c with data := { c.data with bytesTransferred } }

/-- `SendRequest` reads `bodyLength` bytes from where the file pointer is. -/
def readBody (file : List UInt8) (hFile bodyLength : ℕ) : List UInt8 :=
  (file.drop hFile).take bodyLength

/-- `SendData`, up to where the body has been sent. -/
def sendData (file : List UInt8) (blockSize : ℕ) (c : Client) (u : Uploader) :
    FragmentMessage × Uploader :=
  let fileOffset := c.data.bytesTransferred
  let bodyLength := min blockSize (c.bytesTotal - fileOffset)
  (⟨c.data.sessionId, fileOffset, (fileOffset + bodyLength + 2 ^ 64 - 1) % 2 ^ 64, c.bytesTotal,
      bodyLength, readBody file u.hFile bodyLength⟩,
    { u with
      expectedServerOffset := (fileOffset + bodyLength) % 2 ^ 32
      hFile := u.hFile + (readBody file u.hFile bodyLength).length })

/-- `Rewind`, and the body once more. -/
def resendData (file : List UInt8) (m : FragmentMessage) (u : Uploader) :
    FragmentMessage × Uploader :=
  let body := readBody file m.rangeStart m.bodyLength
  ({ m with body }, { u with hFile := m.rangeStart + body.length })

/-- A new session from the beginning. `fails` tells that the file pointer does not move. -/
def restart (fails : Bool) (c : Client) (u : Uploader) : Client :=
  if u.restarts + 1 ≥ 3 then c.stop
  else
    let c := (c.setState .createSession).uploaderProgress 0
    if fails then c.stop
    else { c with uploader := some { u with restarts := u.restarts + 1, hFile := 0 } }

/-- `fails` tells that the new host cannot be contacted. -/
def createSession_newSession (fails : Bool) (c : Client) (r : Response) : Client :=
  match r.sessionId with
  | none => c.stop
  | some sessionId =>
    let c := { c with data := { c.data with sessionId := some sessionId } }
    if fails then c.stop else (c.setState .sendData).uploaderProgress 0

/-- The check for the end of the data. `fails` tells that the reply file cannot be set up. -/
def endOfData (fails : Bool) (c : Client) (r : Response) (rangeEnd : ℕ) : Client :=
  if rangeEnd = c.bytesTotal then
    match c.jobType with
    | .uploadReply =>
      match r.replyURL with
      | none => if r.code = 416 then c else c.setState .closeSession
      | some _ => if fails then c.stop else c.setState .getReply
    | .upload => c.setState .closeSession
  else c

/-- `fails` tells that the file pointer does not move, or the like. -/
def sendData_success (fails : Bool) (c : Client) (u : Uploader) (r : Response) : Client :=
  match r.receivedContentRange with
  | none => c.stop
  | some rangeEnd =>
    if rangeEnd > c.bytesTotal then c.stop
    else
      let restarts := if rangeEnd ≤ c.data.bytesTransferred then u.restarts + 1 else u.restarts
      if rangeEnd ≤ c.data.bytesTransferred ∧ restarts ≥ 3 then c.stop
      else
        let c := c.uploaderProgress rangeEnd
        if rangeEnd ≠ u.expectedServerOffset then
          if fails then c.stop
          else
            endOfData fails { c with uploader := some { u with restarts, hFile := rangeEnd } } r
              rangeEnd
        else endOfData fails { c with uploader := some { u with restarts } } r rangeEnd

/-- `GenericServerError` sets an error, with which the transfer ends. -/
def sendData_failure (fails : Bool) (c : Client) (u : Uploader) (r : Response) : Client :=
  match r.receivedContentRange with
  | none => if r.error = some bgSessionNotFound then c.restart fails u else c.stop
  | some rangeEnd =>
    if rangeEnd > c.bytesTotal then c.stop
    else if r.error = some bgSessionNotFound then (c.uploaderProgress rangeEnd).restart fails u
    else (c.uploaderProgress rangeEnd).stop

def closeSession_success (c : Client) : Client := (c.setState .closed).stop

def closeSession_failure (fails : Bool) (c : Client) (u : Uploader) (r : Response) : Client :=
  if r.error = some bgSessionNotFound then c.restart fails u
  else if 500 ≤ r.code ∧ r.code ≤ 599 then c.stop
  else c.closeSession_success

/-- `AnalyzeResponse` with the table that goes with the request. -/
def analyzeResponse (fails : Bool) (c : Client) (u : Uploader) (r : Response) :
    ClientRequest → Client
  | .createSession =>
    if r.code = 200 ∨ r.code = 201 then c.createSession_newSession fails r else c.stop
  | .fragment _ =>
    if r.code = 200 ∨ r.code = 416 then c.sendData_success fails u r
    else c.sendData_failure fails u r
  | .closeSession _ =>
    if r.code = 200 then c.closeSession_success else c.closeSession_failure fails u r

end Client

end NtAdmin.Drizzle.Newjob
