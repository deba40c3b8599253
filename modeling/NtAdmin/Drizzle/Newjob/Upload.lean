import NtAdmin.Drizzle.Newjob.Uploader

/-! An upload: the client, the server, and one request at a time between them, of which the tail or
the answer may get lost. -/
namespace NtAdmin.Drizzle.Newjob

open NtAdmin.Lib NtAdmin.Drizzle.Server

/-- How far the request of the client has come. -/
inductive Phase
  | sent
  | handling
  | answered (r : Response)

structure Exchange where
  request : ClientRequest
  phase : Phase

/-- `saved` is what a client that starts anew finds of the job, `fragments` are the fragments sent
so far, `closings` the answers to Close-Session at which the upload was closed. -/
structure UploadSystem where
  client : Client
  saved : UploadData
  exchange : Option Exchange
  sessions : ℕ → Session
  nextSession : ℕ
  destination : List (List UInt8)
  systemCalls : List (Option ℕ)
  fragments : List FragmentMessage
  closings : List Response

/-- No session has been made under the id. -/
def noSession : Session := ⟨false, .initial, none, none, [], []⟩

/-- The configuration of the virtual directory, and the file that is uploaded. -/
structure Setting where
  config : DirectoryConfig
  file : List UInt8

namespace UploadSystem

/-- What the server sees of a session. -/
def host (s : UploadSystem) (sessionId : ℕ) : Host :=
  ⟨s.sessions sessionId, s.destination, s.systemCalls, []⟩

/-- The upload after the server has worked on a session. -/
def setHost (s : UploadSystem) (sessionId : ℕ) (h : Host) : UploadSystem :=
  { s with
    sessions := Function.update s.sessions sessionId h.session
    destination := h.destination
    systemCalls := h.systemCalls }

def setPhase (s : UploadSystem) (phase : Phase) : UploadSystem :=
  { s with exchange := s.exchange.map fun x => { x with phase } }

/-- The server's answer, if it has one by now, goes to the client. -/
def setAnswer (s : UploadSystem) (rs : List Response) : UploadSystem :=
  match rs with
  | [] => s.setPhase .handling
  | r :: _ => s.setPhase (.answered r)

/-- The request for a session that has no id is refused. -/
def withSession (s : UploadSystem) (sessionId : Option ℕ) (request : ServerOp) : UploadSystem :=
  match sessionId with
  | none => s.setPhase (.answered (serverException eInvalidArg).response)
  | some id =>
    let h := request.after (s.host id)
    (s.setHost id h).setAnswer h.responses

/-- The server gets the request, of a fragment the first `received` bytes of the body, and
`prereadSize` of these with the request. -/
def serve (config : DirectoryConfig) (starts : List (Option ℕ)) (received prereadSize : ℕ)
    (s : UploadSystem) : ClientRequest → UploadSystem
  | .createSession =>
    let h := (Host.createSession s.nextSession).after (s.host s.nextSession)
    { s.setHost s.nextSession h with nextSession := s.nextSession + 1 }.setAnswer h.responses
  | .fragment m =>
    s.withSession m.sessionId (Host.fragment config
      ⟨some (m.rangeStart, m.rangeEnd, m.totalLength), m.bodyLength,
        (m.body.take received).take prereadSize, (m.body.take received).drop prereadSize⟩ starts)
  | .closeSession sessionId => s.withSession sessionId (Host.closeSession config)

/-- An event of the body pump of a session's request. The answer goes to the client if that is still
waiting for it. -/
def io (config : DirectoryConfig) (sessionId : ℕ) (ev : PumpEvent) (backend : Backend)
    (s : UploadSystem) : UploadSystem :=
  let h := (Host.io config ev backend).after (s.host sessionId)
  let s' := s.setHost sessionId h
  match s.exchange, h.responses with
  | some ⟨.fragment m, .handling⟩, r :: _ =>
    if m.sessionId = some sessionId then s'.setPhase (.answered r) else s'
  | _, _ => s'

/-- The server throws a session away. -/
def deleteSession (sessionId : ℕ) (s : UploadSystem) : UploadSystem :=
  let t := s.sessions sessionId
  { s with
    sessions := Function.update s.sessions sessionId
      { t with
        directory := false
        cacheFile := none
        gone := t.gone ++ t.cacheFile.toList
        stateFile := .initial } }

/-- The client sends the request that goes with its state. -/
def send (file : List UInt8) (blockSize : ℕ) (u : Uploader) (s : UploadSystem) : UploadSystem :=
  match s.client.data.state with
  | .createSession => { s with exchange := some ⟨.createSession, .sent⟩ }
  | .sendData =>
    -- nothing is sent while the network has no room for a block
    if blockSize = 0 ∧ s.client.bytesTotal - s.client.data.bytesTransferred > 0 then s
    else
      let (m, u) := s.client.sendData file blockSize u
      if m.body.length < m.bodyLength then
        { s with client := s.client.stop, fragments := s.fragments ++ [m] }
      else
        { s with
          client := { s.client with uploader := some u }
          exchange := some ⟨.fragment m, .sent⟩
          fragments := s.fragments ++ [m] }
  | .getReply => s
  | .closeSession =>
    { s with exchange := some ⟨.closeSession s.client.data.sessionId, .sent⟩ }
  | .closed => s

/-- The client sends its request again, since it has to authenticate itself, or is told to. -/
def resend (file : List UInt8) (u : Uploader) (s : UploadSystem) : ClientRequest → UploadSystem
  | .fragment m =>
    let (m, u) := Client.resendData file m u
    if m.body.length < m.bodyLength then
      { s with client := s.client.stop, exchange := none, fragments := s.fragments ++ [m] }
    else
      { s with
        client := { s.client with uploader := some u }
        exchange := some ⟨.fragment m, .sent⟩
        fragments := s.fragments ++ [m] }
  | request => { s with exchange := some ⟨request, .sent⟩ }

/-- The answer reaches the client. -/
def receive (fails : Bool) (u : Uploader) (r : Response) (request : ClientRequest)
    (s : UploadSystem) : UploadSystem :=
  let client := s.client.analyzeResponse fails u r request
  { s with
    client
    exchange := none
    closings := if client.data.state = .closed then s.closings ++ [r] else s.closings }

end UploadSystem

/-- What happens next. `start` makes an uploader for the job and `stop` is its end, which can come
at any time, with an answer that gets lost as with any other failure. The client's process saves
the job now and then, and comes back to what was saved when it crashes. `turnAway` is an answer that
does not come from the session. -/
inductive UploadEvent
  | start
  | stop
  | save
  | crash
  | send (blockSize : ℕ)
  | resend
  | receive (fails : Bool)
  | replyDone
  | serve (starts : List (Option ℕ)) (received prereadSize : ℕ)
  | turnAway (r : Response)
  | io (sessionId : ℕ) (ev : PumpEvent) (backend : Backend)
  | deleteSession (sessionId : ℕ)

namespace UploadEvent
open UploadSystem

def Enabled : UploadEvent → UploadSystem → Prop
  | start, s => s.client.uploader = none ∧ s.client.data.state ≠ .closed
  | stop, _ => True
  | save, _ => True
  | crash, _ => True
  | send blockSize, s => s.client.uploader ≠ none ∧ s.exchange = none ∧ blockSize < 2 ^ 32
  | resend, s => s.exchange ≠ none
  | receive _, s => ∃ request r, s.exchange = some ⟨request, .answered r⟩
  | replyDone, s => s.client.uploader ≠ none ∧ s.client.data.state = .getReply
  | serve _ _ _, s => ∃ request, s.exchange = some ⟨request, .sent⟩
  | turnAway r, s => (∃ request, s.exchange = some ⟨request, .sent⟩) ∧
      r.receivedContentRange = none ∧ r.code ≠ 200 ∧ r.code ≠ 201
  | io sessionId ev _, s => ∃ u, (s.sessions sessionId).upload = some u ∧ ev.Enabled u.pump
  -- a session is thrown away between requests
  | deleteSession sessionId, s => (s.sessions sessionId).upload = none ∧
      ∀ x, s.exchange = some x → x.phase = .sent

def step (g : Setting) : UploadEvent → UploadSystem → UploadSystem
  | start, s => { s with client := s.client.construct }
  | stop, s => { s with client := s.client.stop, exchange := none }
  | save, s => { s with saved := s.client.data }
  | crash, s =>
    { s with client := { s.client with data := s.saved, uploader := none }, exchange := none }
  | send blockSize, s =>
    match s.client.uploader with
    | none => s
    | some u => s.send g.file blockSize u
  | resend, s =>
    match s.client.uploader, s.exchange with
    | some u, some x => s.resend g.file u x.request
    | _, _ => s
  | receive fails, s =>
    match s.client.uploader, s.exchange with
    | some u, some ⟨request, .answered r⟩ => s.receive fails u r request
    | _, _ => s
  | replyDone, s => { s with client := s.client.setState .closeSession }
  | serve starts received prereadSize, s =>
    match s.exchange with
    | some ⟨request, .sent⟩ => s.serve g.config starts received prereadSize request
    | _ => s
  | turnAway r, s => s.setPhase (.answered r)
  | io sessionId ev backend, s => s.io g.config sessionId ev backend
  | deleteSession sessionId, s => s.deleteSession sessionId

/-- The server may take the cache file of a session away: the backend asks for it, the session is
thrown away, or the request to close it arrives. -/
def TakesFile (g : Setting) (id : ℕ) : UploadEvent → UploadSystem → Prop
  | io sessionId _ backend, _ => sessionId = id ∧ g.config.notificationType = .postByRef ∧
      backend.asksForFile = true
  | deleteSession sessionId, _ => sessionId = id
  | serve _ _ _, s => s.exchange = some ⟨.closeSession (some id), .sent⟩
  | _, _ => False

end UploadEvent

/-- Before the upload. -/
def UploadSystem.init (g : Setting) (jobType : JobType) (destination : List (List UInt8))
    (systemCalls : List (Option ℕ)) : UploadSystem :=
  { client := ⟨jobType, g.file.length, ⟨.createSession, none, 0⟩, none⟩
    saved := ⟨.createSession, none, 0⟩
    exchange := none
    sessions := fun _ => noSession
    nextSession := 0
    destination, systemCalls
    fragments := []
    closings := [] }

end NtAdmin.Drizzle.Newjob
