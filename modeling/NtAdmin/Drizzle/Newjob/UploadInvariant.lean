import NtAdmin.Drizzle.Newjob.Upload
import NtAdmin.Drizzle.Server.SessionRun

/-! What holds of an upload between two events. -/
namespace NtAdmin.Drizzle.Newjob

open NtAdmin.Lib NtAdmin.Drizzle.Server

/-- A session that has got nothing but pieces of the file `l`. -/
structure Pieces (l : List UInt8) (t : Session) : Prop where
  inv : SessionInv t
  bodies : ∀ f ∈ t.accepted, f.body <+: l.drop f.rangeStart
  uploading : ∀ u, t.upload = some u → u.fragment.body <+: l.drop u.fragment.rangeStart

/-- It knows the length of the file, and has notified the backend of nothing else. -/
structure Faithful (l : List UInt8) (t : Session) : Prop extends Pieces l t where
  total : t.stateFile.uploadFileSize = 0 ∨ t.stateFile.uploadFileSize = l.length
  announced : t.upload ≠ none → t.stateFile.uploadFileSize = l.length
  notified : t.stateFile.notifyCached = true → l ∈ t.copies

/-- The cache file has `b` bytes, unless the session is gone, or its end has been answered and this
answer is given again. -/
def Reaches (t : Session) (b : ℕ) : Prop :=
  t.directory = false ∨ t.stateFile.notifyCached = true ∨ b ≤ t.file.length

/-- The body and the Content-Range of a fragment name the same part of the file. -/
structure Exact (l : List UInt8) (m : FragmentMessage) : Prop where
  range : m.rangeStart + m.bodyLength ≤ l.length
  rangeEnd : m.rangeEnd = (m.rangeStart + m.bodyLength + 2 ^ 64 - 1) % 2 ^ 64
  total : m.totalLength = l.length
  body : m.body = (l.drop m.rangeStart).take m.bodyLength

/-- What the job knows about its session. `K` tells that no session loses its cache file. -/
structure DataInv (l : List UInt8) (K : Prop) (s : UploadSystem) (d : UploadData) : Prop where
  id_lt : ∀ id, d.sessionId = some id → id < s.nextSession
  bytes : d.bytesTransferred ≤ l.length
  create : d.state = .createSession → d.bytesTransferred = 0
  session : d.state ≠ .createSession → ∃ id, d.sessionId = some id
  reaches : K → d.state = .sendData → ∀ id, d.sessionId = some id →
    Reaches (s.sessions id) d.bytesTransferred
  whole : d.state = .getReply ∨ d.state = .closeSession →
    ∃ id, d.sessionId = some id ∧ l ∈ (s.sessions id).copies

/-- An answer to a fragment tells the truth about the cache file. -/
structure Truthful (l : List UInt8) (K : Prop) (t : Session) (m : FragmentMessage) (r : Response)
    (rangeEnd : ℕ) : Prop where
  whole : r.code = 200 ∨ r.code = 416 → rangeEnd = l.length → l ∈ t.copies
  reaches : K → Reaches t rangeEnd
  advance : K → r.code = 200 ∨ r.code = 416 → m.rangeStart + m.bodyLength ≤ rangeEnd

/-- What the answer to a request says. -/
def AnswerInv (l : List UInt8) (K : Prop) (s : UploadSystem) (r : Response) :
    ClientRequest → Prop
  | .createSession => (r.code = 200 ∨ r.code = 201) → ∀ id, r.sessionId = some id → id < s.nextSession
  | .fragment m => ∀ rangeEnd id, r.receivedContentRange = some rangeEnd → m.sessionId = some id →
      Truthful l K (s.sessions id) m r rangeEnd
  | .closeSession _ => True

/-- The body of a fragment that is being handled goes to the session. -/
def HandlingInv (s : UploadSystem) (m : FragmentMessage) : Prop :=
  ∃ id u, m.sessionId = some id ∧ (s.sessions id).upload = some u ∧
    u.fragment.rangeStart = m.rangeStart ∧ u.fragment.rangeLength = m.bodyLength

/-- The request belongs to the client's state. -/
def RequestInv (l : List UInt8) (s : UploadSystem) (u : Uploader) : ClientRequest → Prop
  | .createSession => s.client.data.state = .createSession ∧ u.hFile = 0
  | .fragment m => s.client.data.state = .sendData ∧ m.sessionId = s.client.data.sessionId ∧
      Exact l m ∧ m.rangeStart = s.client.data.bytesTransferred ∧
      u.hFile = m.rangeStart + m.bodyLength ∧
      u.expectedServerOffset = (m.rangeStart + m.bodyLength) % 2 ^ 32
  | .closeSession id => s.client.data.state = .closeSession ∧ id = s.client.data.sessionId

structure ExchangeInv (l : List UInt8) (K : Prop) (s : UploadSystem) (x : Exchange) : Prop where
  request : ∃ u, s.client.uploader = some u ∧ RequestInv l s u x.request
  answer : ∀ r, x.phase = .answered r → AnswerInv l K s r x.request
  handling : x.phase = .handling → ∀ m, x.request = .fragment m → HandlingInv s m

structure UploadInv (l : List UInt8) (K : Prop) (s : UploadSystem) : Prop where
  sessions : ∀ id, Faithful l (s.sessions id)
  fresh : ∀ id, s.nextSession ≤ id → s.sessions id = noSession
  total : s.client.bytesTotal = l.length
  data : DataInv l K s s.client.data
  saved : DataInv l K s s.saved
  exchange : ∀ x, s.exchange = some x → ExchangeInv l K s x
  pointer : ∀ u, s.client.uploader = some u → s.exchange = none →
    s.client.data.state = .createSession ∨ s.client.data.state = .sendData →
    u.hFile = s.client.data.bytesTransferred
  fragments : ∀ m ∈ s.fragments, Exact l m

/-- The server goes on without taking back what it has. -/
structure Advances (l : List UInt8) (K : Prop) (s s' : UploadSystem) : Prop where
  next : s.nextSession ≤ s'.nextSession
  copies : ∀ id, l ∈ (s.sessions id).copies → l ∈ (s'.sessions id).copies
  reaches : K → ∀ id b, id < s.nextSession → Reaches (s.sessions id) b → Reaches (s'.sessions id) b

section advances
variable {l : List UInt8} {K : Prop} {s s' : UploadSystem}

theorem Advances.refl (l : List UInt8) (K : Prop) {s s' : UploadSystem}
    (hs : s'.sessions = s.sessions) (hn : s'.nextSession = s.nextSession) : Advances l K s s' :=
  ⟨Nat.le_of_eq hn.symm, fun _ h => hs ▸ h, fun _ _ _ _ h => hs ▸ h⟩

theorem DataInv.mono {d : UploadData} (h : DataInv l K s d) (ha : Advances l K s s') :
    DataInv l K s' d where
  id_lt id hid := Nat.lt_of_lt_of_le (h.id_lt id hid) ha.next
  bytes := h.bytes
  create := h.create
  session := h.session
  reaches hK hstate id hid := ha.reaches hK id _ (h.id_lt id hid) (h.reaches hK hstate id hid)
  whole hstate := by
    obtain ⟨id, hid, hmem⟩ := h.whole hstate
    exact ⟨id, hid, ha.copies id hmem⟩

theorem Truthful.mono {m : FragmentMessage} {r : Response} {rangeEnd id : ℕ}
    (h : Truthful l K (s.sessions id) m r rangeEnd) (ha : Advances l K s s')
    (hid : id < s.nextSession) : Truthful l K (s'.sessions id) m r rangeEnd :=
  ⟨fun hcode hend => ha.copies id (h.whole hcode hend),
    fun hK => ha.reaches hK id _ hid (h.reaches hK), h.advance⟩

/-- An answer stays true. -/
theorem AnswerInv.mono {r : Response} {request : ClientRequest} (h : AnswerInv l K s r request)
    (ha : Advances l K s s')
    (hid : ∀ m id, request = .fragment m → m.sessionId = some id → id < s.nextSession) :
    AnswerInv l K s' r request := by
  cases request with
  | createSession => exact fun hcode id hr => Nat.lt_of_lt_of_le (h hcode id hr) ha.next
  | fragment m => exact fun e id he hm => (h e id he hm).mono ha (hid m id rfl hm)
  | closeSession id => trivial

end advances

section faithful
variable {l : List UInt8} {t t' : Session}

/-- A session without fragments. -/
theorem faithful_created (l : List UInt8) (directory : Bool) :
    Faithful l { noSession with directory } where
  inv := ⟨Nat.zero_le _, Nat.two_pow_pos 64, settled_nil 0,
    fun _ _ hfile => absurd hfile (by simp [noSession]),
    fun _ hu => absurd hu (Option.some_ne_none _).symm⟩
  bodies _ hf := absurd hf List.not_mem_nil
  uploading _ hu := absurd hu (Option.some_ne_none _).symm
  total := Or.inl rfl
  announced h := absurd rfl h
  notified h := Bool.noConfusion h

/-- Every cache file of a session that has got pieces of a file is a beginning of the file. -/
theorem Pieces.beginning (h : Pieces l t) : ∀ c ∈ t.copies, c <+: l := by
  intro c hc
  obtain ⟨copy, hcopy⟩ := List.getElem?_of_mem hc
  refine (h.inv.supplied hcopy).beginning fun f hf => ?_
  rcases List.mem_append.mp hf with hf | hf
  · exact h.bodies f hf
  · rcases hu : t.upload with _ | u
    · rw [hu] at hf
      exact absurd hf List.not_mem_nil
    · rw [hu] at hf
      rw [List.mem_singleton.mp hf]
      exact h.uploading u hu

theorem Pieces.file_beginning (h : Pieces l t) : t.file <+: l :=
  h.beginning _ (List.mem_append_right _ List.mem_cons_self)

theorem mem_copies_of_file_eq (h : t.file = l) : l ∈ t.copies :=
  h ▸ List.mem_append_right _ List.mem_cons_self

/-- A cache file that has the length of the file is the whole file. -/
theorem Pieces.whole (h : Pieces l t) (hlen : t.file.length = l.length) : l ∈ t.copies :=
  mem_copies_of_file_eq (h.file_beginning.eq_of_length hlen)

end faithful

end NtAdmin.Drizzle.Newjob
