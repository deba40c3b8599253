import NtAdmin.Drizzle.Newjob.UploadSession

/-! What the client makes of an answer that is true. -/
namespace NtAdmin.Drizzle.Newjob

open NtAdmin.Lib NtAdmin.Drizzle.Server

/-- A client between two requests. -/
structure ClientInv (l : List UInt8) (K : Prop) (s : UploadSystem) (c : Client) : Prop where
  total : c.bytesTotal = l.length
  data : DataInv l K s c.data
  pointer : ∀ u, c.uploader = some u →
    c.data.state = .createSession ∨ c.data.state = .sendData → u.hFile = c.data.bytesTransferred

section client
variable {l : List UInt8} {K : Prop} {s : UploadSystem} {c : Client} {u : Uploader} {r : Response}
  {m : FragmentMessage} {fails : Bool}

theorem clientInv_stop (htotal : c.bytesTotal = l.length) (h : DataInv l K s c.data) :
    ClientInv l K s c.stop :=
  ⟨htotal, h, fun _ hu => absurd hu (Option.some_ne_none _).symm⟩

/-- A client that starts over knows nothing. -/
theorem clientInv_restart (htotal : c.bytesTotal = l.length) (h : DataInv l K s c.data) :
    ClientInv l K s (c.restart fails u) := by
  have hdata : DataInv l K s ((c.setState .createSession).uploaderProgress 0).data :=
    ⟨h.id_lt, Nat.zero_le _, fun _ => rfl, fun hne => absurd rfl hne,
      fun _ hstate => UploadState.noConfusion hstate,
      fun hstate => hstate.elim (fun h => UploadState.noConfusion h) fun h => UploadState.noConfusion h⟩
  unfold Client.restart
  split_ifs
  · exact clientInv_stop htotal h
  · exact clientInv_stop htotal hdata
  · refine ⟨htotal, hdata, fun u' hu' _ => ?_⟩
    obtain rfl := Option.some.inj hu'
    rfl

theorem clientInv_newSession (htotal : c.bytesTotal = l.length) (h : DataInv l K s c.data)
    (hstate : c.data.state = .createSession) (hu : c.uploader = some u) (hfile : u.hFile = 0)
    (hid : ∀ id, r.sessionId = some id → id < s.nextSession) :
    ClientInv l K s (c.createSession_newSession fails r) := by
  unfold Client.createSession_newSession
  rcases hr : r.sessionId with _ | id
  · exact clientInv_stop htotal h
  simp only
  split_ifs
  · refine clientInv_stop htotal ⟨fun id' hid' => ?_, h.bytes, h.create, fun _ => ⟨id, rfl⟩,
      fun _ hsend => ?_, fun hforward => ?_⟩
    · exact Option.some.inj hid' ▸ hid id hr
    · exact absurd (hstate.symm.trans hsend) (by decide)
    · rcases hforward with hforward | hforward
      · exact absurd (hstate.symm.trans hforward) (by decide)
      · exact absurd (hstate.symm.trans hforward) (by decide)
  · refine ⟨htotal, ⟨fun id' hid' => ?_, Nat.zero_le _, fun _ => rfl, fun _ => ⟨id, rfl⟩,
      fun _ _ _ _ => Or.inr (Or.inr (Nat.zero_le _)), fun hforward => ?_⟩, fun u' hu' _ => ?_⟩
    · exact Option.some.inj hid' ▸ hid id hr
    · exact hforward.elim (fun h => UploadState.noConfusion h) fun h => UploadState.noConfusion h
    · obtain rfl := Option.some.inj (hu.symm.trans hu')
      exact hfile

/-- What is known about the session when the server has named the end of its range. -/
theorem DataInv.progress (h : DataInv l K s c.data) (hstate : c.data.state = .sendData)
    {rangeEnd : ℕ} (hle : rangeEnd ≤ l.length)
    (htrue : ∀ id, c.data.sessionId = some id → Truthful l K (s.sessions id) m r rangeEnd) :
    DataInv l K s (c.uploaderProgress rangeEnd).data where
  id_lt := h.id_lt
  bytes := hle
  create hcreate := absurd (hstate.symm.trans hcreate) (by decide)
  session := h.session
  reaches hK _ id hid := (htrue id hid).reaches hK
  whole hforward := by
    rcases hforward with hforward | hforward
    · exact absurd (hstate.symm.trans hforward) (by decide)
    · exact absurd (hstate.symm.trans hforward) (by decide)

/-- The client goes on, when the server has the whole file. -/
theorem DataInv.forward (h : DataInv l K s c.data) (hwhole : ∀ id, c.data.sessionId = some id →
      l ∈ (s.sessions id).copies) (hstate : c.data.state = .sendData) {state : UploadState}
    (hforward : state = .getReply ∨ state = .closeSession) :
    DataInv l K s (c.setState state).data where
  id_lt := h.id_lt
  bytes := h.bytes
  create hcreate := by
    have hcreate' : state = .createSession := hcreate
    rcases hforward with rfl | rfl <;> exact absurd hcreate' (by decide)
  session _ := h.session (hstate ▸ by decide)
  reaches _ hsend := by
    have hsend' : state = .sendData := hsend
    rcases hforward with rfl | rfl <;> exact absurd hsend' (by decide)
  whole _ := by
    obtain ⟨id, hid⟩ := h.session (hstate ▸ by decide)
    exact ⟨id, hid, hwhole id hid⟩

theorem clientInv_endOfData (h : ClientInv l K s c) (hstate : c.data.state = .sendData)
    {rangeEnd : ℕ} (hcode : r.code = 200 ∨ r.code = 416)
    (htrue : ∀ id, c.data.sessionId = some id → Truthful l K (s.sessions id) m r rangeEnd) :
    ClientInv l K s (c.endOfData fails r rangeEnd) := by
  unfold Client.endOfData
  by_cases hend : rangeEnd = c.bytesTotal
  · rw [if_pos hend]
    have hwhole : ∀ id, c.data.sessionId = some id → l ∈ (s.sessions id).copies := fun id hid =>
      (htrue id hid).whole hcode (hend.trans h.total)
    have hforward : ∀ state, state = .getReply ∨ state = .closeSession →
        ClientInv l K s (c.setState state) := by
      intro state hs
      refine ⟨h.total, h.data.forward hwhole hstate hs, fun u hu hs' => ?_⟩
      have hs'' : state = .createSession ∨ state = .sendData := hs'
      rcases hs with rfl | rfl <;> exact absurd hs'' (by decide)
    cases c.jobType with
    | upload => exact hforward _ (Or.inr rfl)
    | uploadReply =>
      cases r.replyURL with
      | none =>
        by_cases hnone : r.code = 416
        · simp only [if_pos hnone]
          exact h
        · simp only [if_neg hnone]
          exact hforward _ (Or.inr rfl)
      | some url =>
        cases fails
        · exact hforward _ (Or.inl rfl)
        · exact clientInv_stop h.total h.data
  · rwa [if_neg hend]

/-- The file pointer is where the next fragment begins: the 32 bits that the client keeps of the
offset it expects are enough for that when the file is small, or the server is not behind. -/
theorem clientInv_success (htotal : c.bytesTotal = l.length) (h : DataInv l K s c.data)
    (hstate : c.data.state = .sendData) (hm : Exact l m)
    (hfile : u.hFile = m.rangeStart + m.bodyLength)
    (hexpected : u.expectedServerOffset = (m.rangeStart + m.bodyLength) % 2 ^ 32)
    (hcode : r.code = 200 ∨ r.code = 416) (hsmall : K ∨ l.length < 2 ^ 32)
    (htrue : ∀ rangeEnd id, r.receivedContentRange = some rangeEnd → c.data.sessionId = some id →
      Truthful l K (s.sessions id) m r rangeEnd) :
    ClientInv l K s (c.sendData_success fails u r) := by
  unfold Client.sendData_success
  rcases hr : r.receivedContentRange with _ | rangeEnd
  · exact clientInv_stop htotal h
  by_cases hlt : rangeEnd > c.bytesTotal
  · simp only [if_pos hlt]
    exact clientInv_stop htotal h
  have hdata := h.progress hstate (htotal ▸ Nat.not_lt.mp hlt) fun id => htrue _ id hr
  have hend : ∀ u' : Uploader, u'.hFile = rangeEnd →
      ClientInv l K s (Client.endOfData fails
        { c.uploaderProgress rangeEnd with uploader := some u' } r rangeEnd) := by
    intro u' hfile'
    have hclient : ClientInv l K s { c.uploaderProgress rangeEnd with uploader := some u' } := by
      refine ⟨htotal, hdata, fun u'' hu'' _ => ?_⟩
      obtain rfl := Option.some.inj hu''
      exact hfile'
    exact clientInv_endOfData hclient hstate hcode fun id => htrue _ id hr
  simp only [if_neg hlt]
  generalize (if rangeEnd ≤ c.data.bytesTransferred then u.restarts + 1 else u.restarts) = restarts
  by_cases hprogress : rangeEnd ≤ c.data.bytesTransferred ∧ restarts ≥ 3
  · rw [if_pos hprogress]
    exact clientInv_stop htotal h
  rw [if_neg hprogress]
  by_cases hne : rangeEnd ≠ u.expectedServerOffset
  · rw [if_pos hne]
    by_cases hfails : fails = true
    · rw [if_pos hfails]
      exact clientInv_stop htotal hdata
    · rw [if_neg hfails]
      exact hend _ rfl
  · rw [if_neg hne]
    refine hend _ ?_
    have heq : rangeEnd = (m.rangeStart + m.bodyLength) % 2 ^ 32 :=
      (not_not.mp hne).trans hexpected
    show u.hFile = rangeEnd
    rw [hfile]
    rcases hsmall with hK | hsmall
    · obtain ⟨id, hid⟩ := h.session (hstate ▸ by decide)
      have := (htrue _ id hr hid).advance hK hcode
      omega
    · have := hm.range
      omega

theorem clientInv_failure (htotal : c.bytesTotal = l.length) (h : DataInv l K s c.data)
    (hstate : c.data.state = .sendData)
    (htrue : ∀ rangeEnd id, r.receivedContentRange = some rangeEnd → c.data.sessionId = some id →
      Truthful l K (s.sessions id) m r rangeEnd) :
    ClientInv l K s (c.sendData_failure fails u r) := by
  unfold Client.sendData_failure
  rcases hr : r.receivedContentRange with _ | rangeEnd
  · simp only
    split_ifs
    · exact clientInv_restart htotal h
    · exact clientInv_stop htotal h
  · simp only
    split_ifs with hlt herror
    · exact clientInv_stop htotal h
    · exact clientInv_restart htotal
        (h.progress hstate (htotal ▸ Nat.not_lt.mp hlt) fun id => htrue _ id hr)
    · exact clientInv_stop htotal
        (h.progress hstate (htotal ▸ Nat.not_lt.mp hlt) fun id => htrue _ id hr)

theorem clientInv_closed (htotal : c.bytesTotal = l.length) (h : DataInv l K s c.data)
    (hstate : c.data.state = .closeSession) : ClientInv l K s c.closeSession_success :=
  clientInv_stop htotal ⟨h.id_lt, h.bytes, fun hs => UploadState.noConfusion hs,
    fun _ => h.session (hstate ▸ by decide), fun _ hs => UploadState.noConfusion hs,
    fun hs => hs.elim (fun h => UploadState.noConfusion h) fun h => UploadState.noConfusion h⟩

/-- Whatever the request was, a true answer leaves the client in order. -/
theorem clientInv_analyzeResponse {request : ClientRequest} (htotal : s.client.bytesTotal = l.length)
    (h : DataInv l K s s.client.data) (hu : s.client.uploader = some u)
    (hrequest : RequestInv l s u request) (hanswer : AnswerInv l K s r request)
    (hsmall : K ∨ l.length < 2 ^ 32) :
    ClientInv l K s (s.client.analyzeResponse fails u r request) := by
  cases request with
  | createSession =>
    obtain ⟨hstate, hfile⟩ := hrequest
    unfold Client.analyzeResponse
    simp only
    split_ifs with hcode
    · exact clientInv_newSession htotal h hstate hu hfile (hanswer hcode)
    · exact clientInv_stop htotal h
  | fragment m =>
    obtain ⟨hstate, hid, hm, -, hfile, hexpected⟩ := hrequest
    have htrue : ∀ rangeEnd id, r.receivedContentRange = some rangeEnd →
        s.client.data.sessionId = some id → Truthful l K (s.sessions id) m r rangeEnd :=
      fun e id he hid' => hanswer e id he (hid.trans hid')
    unfold Client.analyzeResponse
    simp only
    split_ifs with hcode
    · exact clientInv_success htotal h hstate hm hfile hexpected hcode hsmall htrue
    · exact clientInv_failure htotal h hstate htrue
  | closeSession id =>
    obtain ⟨hstate, -⟩ := hrequest
    unfold Client.analyzeResponse Client.closeSession_failure
    simp only
    split_ifs
    · exact clientInv_closed htotal h hstate
    · exact clientInv_restart htotal h
    · exact clientInv_stop htotal h
    · exact clientInv_closed htotal h hstate

end client

end NtAdmin.Drizzle.Newjob
