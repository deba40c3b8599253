import NtAdmin.Drizzle.Newjob.UploadClient

/-! Every event of an upload keeps the client and the server in step. -/
namespace NtAdmin.Drizzle.Newjob

open NtAdmin.Lib NtAdmin.Drizzle.Server

/-- No session that is open for fragments loses its cache file. -/
def KeepsAll (s s' : UploadSystem) : Prop := ∀ id, Keeps (s.sessions id) (s'.sessions id)

section server
variable {l : List UInt8} {K : Prop} {s s' : UploadSystem} {g : Setting}

theorem advances_update {id : ℕ} {t' : Session}
    (hs' : s'.sessions = Function.update s.sessions id t') (hn : s'.nextSession = s.nextSession)
    (hstep : SessionStep l (s.sessions id) t') (hk : K → KeepsAll s s') : Advances l K s s' := by
  have hat : s'.sessions id = t' := by rw [hs', Function.update_self]
  have hne : ∀ id', id' ≠ id → s'.sessions id' = s.sessions id' := fun id' h => by
    rw [hs', Function.update_of_ne h]
  refine ⟨Nat.le_of_eq hn.symm, fun id' hmem => ?_, fun hK id' b _ hb => ?_⟩
  · by_cases h : id' = id
    · subst h
      exact hat ▸ hstep.copies hmem
    · exact hne id' h ▸ hmem
  · by_cases h : id' = id
    · subst h
      have hkeeps := hk hK id'
      rw [hat] at hkeeps ⊢
      exact hstep.reaches hkeeps hb
    · exact hne id' h ▸ hb

theorem faithful_update {id : ℕ} {t' : Session} (h : ∀ id, Faithful l (s.sessions id))
    (hs' : s'.sessions = Function.update s.sessions id t') (ht : Faithful l t') (id' : ℕ) :
    Faithful l (s'.sessions id') := by
  rw [hs']
  by_cases heq : id' = id
  · subst heq
    rwa [Function.update_self]
  · rw [Function.update_of_ne heq]
    exact h id'

/-- The server works, and the client waits. -/
theorem UploadInv.server (h : UploadInv l K s) (ha : Advances l K s s')
    (hclient : s'.client = s.client) (hsaved : s'.saved = s.saved)
    (hfragments : s'.fragments = s.fragments) (hsessions : ∀ id, Faithful l (s'.sessions id))
    (hfresh : ∀ id, s'.nextSession ≤ id → s'.sessions id = noSession)
    (hnone : s'.exchange = none → s.exchange = none)
    (hx : ∀ x, s'.exchange = some x → ExchangeInv l K s' x) : UploadInv l K s' where
  sessions := hsessions
  fresh := hfresh
  total := hclient ▸ h.total
  data := hclient ▸ h.data.mono ha
  saved := hsaved ▸ h.saved.mono ha
  exchange := hx
  pointer u hu hex hstate := by
    rw [hclient] at hu hstate ⊢
    exact h.pointer u hu (hnone hex) hstate
  fragments := hfragments ▸ h.fragments

/-- The request still belongs to the client's state. -/
theorem ExchangeInv.request_mono {x : Exchange} (h : ExchangeInv l K s x)
    (hclient : s'.client = s.client) :
    ∃ u, s'.client.uploader = some u ∧ RequestInv l s' u x.request := by
  obtain ⟨u, hu, hrequest⟩ := h.request
  refine ⟨u, hclient ▸ hu, ?_⟩
  cases hr : x.request with
  | createSession =>
    rw [hr] at hrequest
    exact ⟨hclient ▸ hrequest.1, hrequest.2⟩
  | fragment m =>
    rw [hr] at hrequest
    obtain ⟨hstate, hid, hm, hstart, hfile⟩ := hrequest
    exact ⟨hclient ▸ hstate, hclient ▸ hid, hm, hclient ▸ hstart, hfile⟩
  | closeSession id =>
    rw [hr] at hrequest
    exact ⟨hclient ▸ hrequest.1, hclient ▸ hrequest.2⟩

/-- A fragment is for a session of the server. -/
theorem ExchangeInv.session {x : Exchange} (h : ExchangeInv l K s x) (hinv : UploadInv l K s)
    {m : FragmentMessage} {id : ℕ} (hx : x.request = .fragment m) (hid : m.sessionId = some id) :
    id < s.nextSession ∧ Exact l m ∧ (K → Reaches (s.sessions id) m.rangeStart) := by
  obtain ⟨u, -, hrequest⟩ := h.request
  rw [hx] at hrequest
  obtain ⟨hstate, hid', hm, hstart, -⟩ := hrequest
  have hdata := hid'.symm.trans hid
  exact ⟨hinv.data.id_lt id hdata, hm, fun hK => hstart ▸ hinv.data.reaches hK hstate id hdata⟩

@[simp] theorem setPhase_sessions (s : UploadSystem) (phase : Phase) :
    (s.setPhase phase).sessions = s.sessions := rfl

theorem setAnswer_fields (s : UploadSystem) (rs : List Response) :
    (s.setAnswer rs).client = s.client ∧ (s.setAnswer rs).saved = s.saved ∧
      (s.setAnswer rs).sessions = s.sessions ∧ (s.setAnswer rs).nextSession = s.nextSession ∧
      (s.setAnswer rs).destination = s.destination ∧ (s.setAnswer rs).fragments = s.fragments ∧
      (s.setAnswer rs).closings = s.closings := by
  cases rs <;> exact ⟨rfl, rfl, rfl, rfl, rfl, rfl, rfl⟩

/-- The server's answer is the one thing that changes about the exchange. -/
theorem setAnswer_exchange {x : Exchange} (hx : s.exchange = some x) (rs : List Response) :
    (s.setAnswer rs).exchange = some ⟨x.request, match rs with
      | [] => .handling
      | r :: _ => .answered r⟩ := by
  cases rs <;> simp [UploadSystem.setAnswer, UploadSystem.setPhase, hx]

/-- The server answers a request for a session, or goes on to read its body. -/
theorem UploadInv.answer (h : UploadInv l K s) {request : ClientRequest} {phase : Phase}
    (hx : s.exchange = some ⟨request, phase⟩) {id : ℕ} (hid : id < s.nextSession) {hst : Host}
    (hstep : SessionStep l (s.sessions id) hst.session)
    (hk : K → KeepsAll s ((s.setHost id hst).setAnswer hst.responses))
    (hanswer : ∀ r rs, hst.responses = r :: rs →
      AnswerInv l K ((s.setHost id hst).setAnswer hst.responses) r request)
    (hhandling : hst.responses = [] → ∀ m, request = .fragment m →
      HandlingInv ((s.setHost id hst).setAnswer hst.responses) m) :
    UploadInv l K ((s.setHost id hst).setAnswer hst.responses) := by
  obtain ⟨hclient, hsaved, hsessions, hnext, -, hfragments, -⟩ :=
    setAnswer_fields (s.setHost id hst) hst.responses
  have hxi := h.exchange _ hx
  have hexchange := setAnswer_exchange (s := s.setHost id hst) hx hst.responses
  refine h.server (advances_update hsessions hnext hstep hk) hclient hsaved hfragments
    (faithful_update h.sessions hsessions hstep.faithful) (fun id' hle => ?_) (fun hnone => ?_)
    fun x hx' => ?_
  · rw [hnext] at hle
    have hne : id' ≠ id := Nat.ne_of_gt (Nat.lt_of_lt_of_le hid hle)
    rw [hsessions]
    show Function.update s.sessions id hst.session id' = _
    rw [Function.update_of_ne hne]
    exact h.fresh id' hle
  · exact absurd (hnone.symm.trans hexchange) (Option.some_ne_none _).symm
  · obtain rfl := Option.some.inj (hexchange.symm.trans hx')
    refine ⟨hxi.request_mono hclient, fun r hr => ?_, fun hphase m hm => ?_⟩
    · rcases hrs : hst.responses with _ | ⟨r', rs⟩
      · rw [hrs] at hr
        exact Phase.noConfusion hr
      · simp only [hrs] at hr
        obtain rfl := Phase.answered.inj hr
        rw [← hrs]
        exact hanswer _ rs hrs
    · rcases hrs : hst.responses with _ | ⟨r', rs⟩
      · rw [← hrs]
        exact hhandling hrs m hm
      · rw [hrs] at hphase
        exact Phase.noConfusion hphase

/-- An answer that does not come from a session. -/
theorem UploadInv.turnAway (h : UploadInv l K s) {request : ClientRequest} {phase : Phase}
    (hx : s.exchange = some ⟨request, phase⟩) {r : Response}
    (hrange : r.receivedContentRange = none) (hcode : r.code ≠ 200 ∧ r.code ≠ 201) :
    UploadInv l K (s.setPhase (.answered r)) := by
  have hexchange : (s.setPhase (.answered r)).exchange = some ⟨request, .answered r⟩ := by
    simp [UploadSystem.setPhase, hx]
  refine h.server (.refl l K rfl rfl) rfl rfl rfl h.sessions h.fresh (fun hnone => ?_) fun x hx' => ?_
  · exact absurd (hnone.symm.trans hexchange) (Option.some_ne_none _).symm
  · obtain rfl := Option.some.inj (hexchange.symm.trans hx')
    refine ⟨(h.exchange _ hx).request_mono rfl, fun r' hr => ?_, fun hphase => Phase.noConfusion hphase⟩
    obtain rfl := Phase.answered.inj hr
    cases request with
    | createSession => exact fun hok => absurd hok (not_or.mpr hcode)
    | fragment m => exact fun _ _ he => absurd (hrange.symm.trans he) (Option.some_ne_none _).symm
    | closeSession id => trivial

theorem setAnswer_session (s : UploadSystem) (id : ℕ) (hst : Host) (rs : List Response) :
    ((s.setHost id hst).setAnswer rs).sessions id = hst.session := by
  cases rs <;> exact Function.update_self id hst.session s.sessions

/-- The part of the body that reaches the server. -/
theorem carries_take (m : FragmentMessage) (received prereadSize : ℕ) :
    Carries ⟨some (m.rangeStart, m.rangeEnd, m.totalLength), m.bodyLength,
      (m.body.take received).take prereadSize, (m.body.take received).drop prereadSize⟩ m := by
  refine ⟨rfl, rfl, ?_⟩
  rw [List.take_append_drop]
  exact List.take_prefix _ _

theorem UploadInv.serve_fragment (h : UploadInv l K s) (hl : l.length < 2 ^ 64)
    {m : FragmentMessage} (hx : s.exchange = some ⟨.fragment m, .sent⟩) {f : FragmentRequest}
    (hc : Carries f m) {starts : List (Option ℕ)}
    (hk : K → KeepsAll s (s.withSession m.sessionId (Host.fragment g.config f starts))) :
    UploadInv l K (s.withSession m.sessionId (Host.fragment g.config f starts)) := by
  rcases hid : m.sessionId with _ | id
  · exact h.turnAway hx rfl (by decide)
  · rw [hid] at hk
    obtain ⟨hlt, hm, hreaches⟩ := (h.exchange _ hx).session h rfl hid
    obtain ⟨r, hstep, -, hresp⟩ :=
      Host.fragment_spec g.config starts (hc.fits hm hl) (s.host id)
    refine h.answer hx hlt (fragmentStep_session hstep (h.sessions id) hc hm) hk
      (fun r' rs hrs rangeEnd id' he hid' => ?_) fun hrs m' hm' => ?_
    · obtain rfl := Option.some.inj (hid.symm.trans hid')
      rw [setAnswer_session]
      cases r with
      | none => exact absurd (hresp.symm.trans hrs) (List.cons_ne_nil _ _).symm
      | some r =>
        obtain rfl : r = r' := (List.cons.inj (hresp.symm.trans hrs)).1
        exact fragmentStep_truthful hstep (h.sessions id) hc hm hreaches he
    · obtain rfl := ClientRequest.fragment.inj hm'
      cases r with
      | some r => exact absurd (hresp.symm.trans hrs) (List.cons_ne_nil _ _)
      | none =>
        obtain ⟨u, hu, hstart, hlen⟩ := fragmentStep_handling hstep hc hm
        refine ⟨id, u, hid, ?_, hstart, hlen⟩
        rw [setAnswer_session]
        exact hu

theorem UploadInv.serve_closeSession (h : UploadInv l K s) {sessionId : Option ℕ}
    (hx : s.exchange = some ⟨.closeSession sessionId, .sent⟩)
    (hk : K → KeepsAll s (s.withSession sessionId (Host.closeSession g.config))) :
    UploadInv l K (s.withSession sessionId (Host.closeSession g.config)) := by
  rcases sessionId with _ | id
  · exact h.turnAway hx rfl (by decide)
  · obtain ⟨u, -, hstate, hid⟩ := (h.exchange _ hx).request
    obtain ⟨r, hstep, hresp⟩ := Host.closeSession_spec g.config (s.host id)
    exact h.answer hx (h.data.id_lt id hid.symm) (closeStep_session hstep (h.sessions id)) hk
      (fun _ _ _ => trivial) fun hrs => absurd (hresp.symm.trans hrs) (List.cons_ne_nil _ _)

/-- A new session takes nothing from the others. -/
theorem UploadInv.serve_createSession (h : UploadInv l K s)
    (hx : s.exchange = some ⟨.createSession, .sent⟩) {starts : List (Option ℕ)} {a b : ℕ} :
    UploadInv l K (s.serve g.config starts a b .createSession) := by
  obtain ⟨-, directory, r, hsession, hresp, -, hcode⟩ :=
    Host.createSession_spec s.nextSession (s.host s.nextSession)
  have hat : (s.host s.nextSession).session = noSession := h.fresh _ (Nat.le_refl _)
  rw [hat] at hsession
  unfold UploadSystem.serve
  generalize (Host.createSession s.nextSession).after (s.host s.nextSession) = hst at hsession hresp
  obtain ⟨hclient, hsaved, hsessions, hnext, -, hfragments, -⟩ :=
    setAnswer_fields { s.setHost s.nextSession hst with nextSession := s.nextSession + 1 }
      hst.responses
  have hexchange := setAnswer_exchange
    (s := { s.setHost s.nextSession hst with nextSession := s.nextSession + 1 }) hx hst.responses
  simp only
  generalize UploadSystem.setAnswer _ hst.responses = s'
    at hclient hsaved hsessions hnext hfragments hexchange ⊢
  have hnew : s'.sessions s.nextSession = { noSession with directory } := by
    rw [hsessions, ← hsession]
    exact Function.update_self _ _ _
  have hold : ∀ id, id ≠ s.nextSession → s'.sessions id = s.sessions id := fun id hne => by
    rw [hsessions]
    exact Function.update_of_ne hne _ _
  rw [hresp] at hexchange
  refine h.server ⟨?_, fun id hmem => ?_, fun _ id b hlt hb => ?_⟩ hclient hsaved hfragments
    (fun id => ?_) (fun id hle => ?_) (fun hnone => ?_) fun x hx' => ?_
  · exact hnext ▸ Nat.le_succ _
  · by_cases heq : id = s.nextSession
    · subst heq
      rw [h.fresh _ (Nat.le_refl _)] at hmem
      rw [hnew]
      exact hmem
    · exact hold id heq ▸ hmem
  · exact hold id (Nat.ne_of_lt hlt) ▸ hb
  · by_cases heq : id = s.nextSession
    · subst heq
      exact hnew ▸ faithful_created l directory
    · exact hold id heq ▸ h.sessions id
  · have hlt : s.nextSession < id := Nat.le_trans (Nat.le_of_eq hnext.symm) hle
    exact hold id (Nat.ne_of_gt hlt) ▸ h.fresh id (Nat.le_of_lt hlt)
  · exact absurd (hnone.symm.trans hexchange) (Option.some_ne_none _).symm
  · obtain rfl := Option.some.inj (hexchange.symm.trans hx')
    refine ⟨(h.exchange _ hx).request_mono hclient, fun r' hr hok id hid => ?_,
      fun hphase => Phase.noConfusion hphase⟩
    obtain rfl := Phase.answered.inj hr
    obtain rfl := Option.some.inj ((hcode hok).symm.trans hid)
    exact hnext ▸ Nat.lt_succ_self _

/-- A session that a request has open is one that has been made. -/
theorem UploadInv.id_lt (h : UploadInv l K s) {id : ℕ} {u : Server.Upload}
    (hu : (s.sessions id).upload = some u) : id < s.nextSession := by
  by_contra hge
  rw [h.fresh id (Nat.not_lt.mp hge)] at hu
  exact absurd hu (Option.some_ne_none _).symm

theorem fresh_update {id : ℕ} {t' : Session} (h : ∀ id, s.nextSession ≤ id → s.sessions id = noSession)
    (ht : s.nextSession ≤ id → t' = noSession) (id' : ℕ) (hle : s.nextSession ≤ id') :
    Function.update s.sessions id t' id' = noSession := by
  by_cases heq : id' = id
  · subst heq
    rw [Function.update_self]
    exact ht hle
  · rw [Function.update_of_ne heq]
    exact h id' hle

/-- The pump either goes on for itself, or answers the request that the client waits for. -/
theorem io_cases (s : UploadSystem) (config : DirectoryConfig) (id : ℕ) (ev : PumpEvent)
    (backend : Backend) :
    let hst := (Host.io config ev backend).after (s.host id)
    s.io config id ev backend = s.setHost id hst ∧
        (∀ m, s.exchange = some ⟨.fragment m, .handling⟩ → m.sessionId = some id →
          hst.responses = []) ∨
      ∃ m, s.exchange = some ⟨.fragment m, .handling⟩ ∧ m.sessionId = some id ∧
        hst.responses ≠ [] ∧ s.io config id ev backend = (s.setHost id hst).setAnswer hst.responses := by
  intro hst
  unfold UploadSystem.io
  by_cases hwait : ∃ m, s.exchange = some ⟨.fragment m, .handling⟩ ∧ m.sessionId = some id
  · obtain ⟨m, hx, hid⟩ := hwait
    rcases hrs : hst.responses with _ | ⟨r, rs⟩
    · left
      simp [hx, hst, hrs]
    · right
      exact ⟨m, hx, hid, List.cons_ne_nil _ _, by simp [hx, hst, hrs, hid, UploadSystem.setAnswer]⟩
  · left
    refine ⟨?_, fun m hx hid => absurd ⟨m, hx, hid⟩ hwait⟩
    dsimp only
    split
    · rename_i m r rs hx hrs
      rw [if_neg fun hid => hwait ⟨m, hx, hid⟩]
    · rfl

theorem UploadInv.io (h : UploadInv l K s) {id : ℕ} {ev : PumpEvent} {backend : Backend}
    {u : Server.Upload} (hu : (s.sessions id).upload = some u) (hev : ev.Enabled u.pump)
    (hk : K → KeepsAll s (s.io g.config id ev backend)) :
    UploadInv l K (s.io g.config id ev backend) := by
  have hlt := h.id_lt hu
  obtain ⟨r, hstep, hresp⟩ := Host.io_spec g.config ev backend
    (show (s.host id).session.upload ≠ none by simp [UploadSystem.host, hu])
  have hsession := ioStep_session hstep (h.sessions id) hu hev
  rcases io_cases s g.config id ev backend with ⟨heq, hquiet⟩ | ⟨m, hx, hid, hsome, heq⟩
  · rw [heq] at hk ⊢
    have ha : Advances l K s (s.setHost id ((Host.io g.config ev backend).after (s.host id))) :=
      advances_update rfl rfl hsession hk
    refine h.server ha rfl rfl rfl (faithful_update h.sessions rfl hsession.faithful)
      (fresh_update h.fresh fun hle => absurd hlt (Nat.not_lt.mpr hle)) (fun hnone => hnone)
      fun x hx => ?_
    have hxi := h.exchange x hx
    refine ⟨hxi.request_mono rfl, fun r' hr => ?_, fun hphase m hm => ?_⟩
    · exact (hxi.answer r' hr).mono ha fun m id' hm hid' => (hxi.session h hm hid').1
    · obtain ⟨id', u', hid', hu', hstart, hlen⟩ := hxi.handling hphase m hm
      by_cases hid : id' = id
      · subst hid
        obtain rfl := Option.some.inj (hu.symm.trans hu')
        -- the request goes on
        have hnil := hquiet m (hx.trans (by rw [← hm, ← hphase])) hid'
        cases r with
        | some r => exact absurd (hresp.symm.trans hnil) (List.cons_ne_nil _ _)
        | none =>
          obtain ⟨u'', hu'', hfragment⟩ := ioStep_handling hstep hu
          refine ⟨id', u'', hid', ?_, hfragment ▸ hstart, hfragment ▸ hlen⟩
          exact (congrArg Session.upload (Function.update_self id' _ s.sessions)).trans hu''
      · refine ⟨id', u', hid', ?_, hstart, hlen⟩
        exact (congrArg Session.upload (Function.update_of_ne hid _ s.sessions)).trans hu'
  · rw [heq] at hk ⊢
    obtain ⟨id', u', hid', hu', hstart, hlen⟩ := (h.exchange _ hx).handling rfl m rfl
    obtain rfl := Option.some.inj (hid.symm.trans hid')
    obtain rfl := Option.some.inj (hu.symm.trans hu')
    refine h.answer hx hlt hsession hk (fun r' rs hrs rangeEnd id'' he hid'' => ?_)
      fun hnil => absurd hnil hsome
    obtain rfl := Option.some.inj (hid.symm.trans hid'')
    rw [setAnswer_session]
    cases r with
    | none => exact absurd (hresp.symm.trans hrs) (List.cons_ne_nil _ _).symm
    | some r =>
      obtain rfl : r = r' := (List.cons.inj (hresp.symm.trans hrs)).1
      refine ioStep_truthful hstep (h.sessions id) hu hev hstart hlen (fun hK => ?_) he
      have := hk hK id
      rwa [setAnswer_session] at this

theorem UploadInv.deleteSession (h : UploadInv l K s) {id : ℕ}
    (hu : (s.sessions id).upload = none) (hsent : ∀ x, s.exchange = some x → x.phase = .sent)
    (hk : K → KeepsAll s (s.deleteSession id)) : UploadInv l K (s.deleteSession id) := by
  have hsession : SessionStep l (s.sessions id)
      { (s.sessions id).dropFile with stateFile := .initial, directory := false } :=
    dropFile_session (h.sessions id) hu .initial (Or.inr rfl) false fun hd => Bool.noConfusion hd
  refine h.server (advances_update rfl rfl hsession hk) rfl rfl rfl
    (faithful_update h.sessions rfl hsession.faithful) (fresh_update h.fresh fun hle => ?_)
    (fun hnone => hnone) fun x hx => ?_
  · rw [h.fresh id hle]
    rfl
  · have hphase := hsent x hx
    exact ⟨(h.exchange x hx).request_mono rfl, fun r hr => Phase.noConfusion (hphase.symm.trans hr),
      fun hh => Phase.noConfusion (hphase.symm.trans hh)⟩

end server

section client
variable {l : List UInt8} {K : Prop} {s : UploadSystem} {g : Setting} {u : Uploader}

theorem DataInv.congr {s' : UploadSystem} {d : UploadData} (h : DataInv l K s d)
    (hs : s'.sessions = s.sessions) (hn : s'.nextSession = s.nextSession) : DataInv l K s' d :=
  h.mono (.refl l K hs hn)

/-- The client is between two requests. -/
theorem UploadInv.idle (h : UploadInv l K s) {c : Client} (hc : ClientInv l K s c)
    {saved : UploadData} (hsaved : DataInv l K s saved) (fragments : List FragmentMessage)
    (hfragments : ∀ m ∈ fragments, Exact l m) (closings : List Response) :
    UploadInv l K { s with client := c, saved, exchange := none, fragments, closings } where
  sessions := h.sessions
  fresh := h.fresh
  total := hc.total
  data := hc.data.congr rfl rfl
  saved := hsaved.congr rfl rfl
  exchange _ hx := absurd hx (Option.some_ne_none _).symm
  pointer u hu _ := hc.pointer u hu
  fragments := hfragments

theorem readBody_length (file : List UInt8) {hFile bodyLength : ℕ}
    (hle : hFile + bodyLength ≤ file.length) :
    (Client.readBody file hFile bodyLength).length = bodyLength := by
  unfold Client.readBody
  rw [List.length_take, List.length_drop]
  omega

/-- A fragment that is made from where the file pointer is. -/
theorem exact_sendData (h : UploadInv g.file K s) (hu : s.client.uploader = some u)
    (hx : s.exchange = none) (hstate : s.client.data.state = .sendData) (blockSize : ℕ) :
    Exact g.file (s.client.sendData g.file blockSize u).1 := by
  have hfile := h.pointer u hu hx (Or.inr hstate)
  have hbytes := h.data.bytes
  have htotal := h.total
  refine ⟨?_, rfl, htotal, ?_⟩
  · show s.client.data.bytesTransferred + min blockSize _ ≤ _
    omega
  · show Client.readBody g.file u.hFile _ = _
    rw [hfile]
    rfl

theorem exact_resendData {m : FragmentMessage} (hm : Exact g.file m) :
    Exact g.file (Client.resendData g.file m u).1 :=
  ⟨hm.range, hm.rangeEnd, hm.total, rfl⟩

/-- The client sends a request that goes with its state. -/
theorem UploadInv.request (h : UploadInv l K s) {c : Client} (htotal : c.bytesTotal = l.length)
    (hdata : DataInv l K s c.data) {request : ClientRequest} (fragments : List FragmentMessage)
    (hfragments : ∀ m ∈ fragments, Exact l m)
    (hrequest : ∃ u, c.uploader = some u ∧
      RequestInv l { s with client := c, exchange := some ⟨request, .sent⟩, fragments } u request) :
    UploadInv l K { s with client := c, exchange := some ⟨request, .sent⟩, fragments } where
  sessions := h.sessions
  fresh := h.fresh
  total := htotal
  data := hdata.congr rfl rfl
  saved := h.saved.congr rfl rfl
  exchange x hx := by
    obtain rfl := Option.some.inj hx
    exact ⟨hrequest, fun _ hr => Phase.noConfusion hr, fun hp => Phase.noConfusion hp⟩
  pointer _ _ hnone := absurd hnone (Option.some_ne_none _)
  fragments := hfragments

theorem mem_append_exact {fs : List FragmentMessage} {m : FragmentMessage}
    (hfs : ∀ m ∈ fs, Exact l m) (hm : Exact l m) : ∀ m' ∈ fs ++ [m], Exact l m' := by
  intro m' hm'
  rcases List.mem_append.mp hm' with hm' | hm'
  · exact hfs m' hm'
  · exact List.mem_singleton.mp hm' ▸ hm

theorem UploadInv.send (h : UploadInv g.file K s) (hu : s.client.uploader = some u)
    (hx : s.exchange = none) (blockSize : ℕ) :
    UploadInv g.file K (s.send g.file blockSize u) := by
  have hcreate := h.pointer u hu hx
  unfold UploadSystem.send
  cases hstate : s.client.data.state with
  | createSession =>
    refine h.request h.total h.data s.fragments h.fragments ⟨u, hu, hstate, ?_⟩
    rw [hcreate (Or.inl hstate)]
    exact h.data.create hstate
  | sendData =>
    have hm := exact_sendData h hu hx hstate blockSize
    simp only
    by_cases hroom : blockSize = 0 ∧ s.client.bytesTotal - s.client.data.bytesTransferred > 0
    · rwa [if_pos hroom]
    rw [if_neg hroom]
    by_cases hshort : (s.client.sendData g.file blockSize u).1.body.length <
        (s.client.sendData g.file blockSize u).1.bodyLength
    · rw [if_pos hshort]
      have := h.idle (clientInv_stop h.total h.data) h.saved _
        (mem_append_exact h.fragments hm) s.closings
      rwa [← hx] at this
    · rw [if_neg hshort]
      refine h.request (c := { s.client with uploader := some (s.client.sendData g.file blockSize u).2 })
        h.total h.data _ (mem_append_exact h.fragments hm)
        ⟨_, rfl, hstate, rfl, hm, rfl, ?_, rfl⟩
      have hlen := readBody_length g.file hm.range
      have hpointer : u.hFile = s.client.data.bytesTransferred := hcreate (Or.inr hstate)
      show u.hFile + (Client.readBody g.file u.hFile _).length = _
      rw [hpointer]
      exact congrArg (_ + ·) hlen
  | getReply => exact h
  | closeSession => exact h.request h.total h.data s.fragments h.fragments ⟨u, hu, hstate, rfl⟩
  | closed => exact h

theorem UploadInv.resend (h : UploadInv g.file K s) (hu : s.client.uploader = some u)
    {x : Exchange} (hx : s.exchange = some x) : UploadInv g.file K (s.resend g.file u x.request) := by
  obtain ⟨u', hu', hrequest⟩ := (h.exchange x hx).request
  obtain rfl := Option.some.inj (hu.symm.trans hu')
  unfold UploadSystem.resend
  rcases hr : x.request with _ | m | id
  · rw [hr] at hrequest
    exact h.request h.total h.data s.fragments h.fragments ⟨u, hu, hrequest⟩
  · rw [hr] at hrequest
    obtain ⟨hstate, hid, hm, hstart, -, hexpected⟩ := hrequest
    have hm' := exact_resendData (u := u) hm
    simp only
    by_cases hshort : (Client.resendData g.file m u).1.body.length <
        (Client.resendData g.file m u).1.bodyLength
    · rw [if_pos hshort]
      exact h.idle (clientInv_stop h.total h.data) h.saved _ (mem_append_exact h.fragments hm')
        s.closings
    · rw [if_neg hshort]
      refine h.request (c := { s.client with uploader := some (Client.resendData g.file m u).2 })
        h.total h.data _ (mem_append_exact h.fragments hm')
        ⟨_, rfl, hstate, hid, hm', hstart, ?_, hexpected⟩
      exact congrArg (m.rangeStart + ·) (readBody_length g.file hm.range)
  · rw [hr] at hrequest
    exact h.request h.total h.data s.fragments h.fragments ⟨u, hu, hrequest⟩

theorem UploadInv.receive (h : UploadInv l K s) (hu : s.client.uploader = some u)
    {request : ClientRequest} {r : Response} (hx : s.exchange = some ⟨request, .answered r⟩)
    (fails : Bool) (hsmall : K ∨ l.length < 2 ^ 32) : UploadInv l K (s.receive fails u r request) := by
  have hxi := h.exchange _ hx
  obtain ⟨u', hu', hrequest⟩ := hxi.request
  obtain rfl := Option.some.inj (hu.symm.trans hu')
  exact h.idle (clientInv_analyzeResponse h.total h.data hu hrequest (hxi.answer r rfl) hsmall)
    h.saved s.fragments h.fragments _

/-- When the reply is there, the whole file still is. -/
theorem UploadInv.replyDone (h : UploadInv l K s) (hstate : s.client.data.state = .getReply) :
    UploadInv l K { s with client := s.client.setState .closeSession } := by
  -- no request belongs to the state
  have hx : s.exchange = none := by
    rcases hx : s.exchange with _ | x
    · rfl
    · obtain ⟨u, -, hrequest⟩ := (h.exchange x hx).request
      rcases hr : x.request with _ | m | id
      · exact absurd (hstate.symm.trans (hr ▸ hrequest : RequestInv l s u .createSession).1) (by decide)
      · exact absurd (hstate.symm.trans (hr ▸ hrequest : RequestInv l s u (.fragment m)).1) (by decide)
      · exact absurd (hstate.symm.trans (hr ▸ hrequest : RequestInv l s u (.closeSession id)).1)
          (by decide)
  have hdata : DataInv l K s (s.client.setState .closeSession).data :=
    ⟨h.data.id_lt, h.data.bytes, fun hs => UploadState.noConfusion hs,
      fun _ => h.data.session (hstate ▸ by decide), fun _ hs => UploadState.noConfusion hs,
      fun _ => h.data.whole (Or.inl hstate)⟩
  have hclient : ClientInv l K s (s.client.setState .closeSession) :=
    ⟨h.total, hdata, fun _ _ hs => hs.elim (fun hs => UploadState.noConfusion hs)
      fun hs => UploadState.noConfusion hs⟩
  have := h.idle hclient h.saved s.fragments h.fragments s.closings
  rwa [← hx] at this

theorem UploadInv.start (h : UploadInv l K s) (hnone : s.client.uploader = none) :
    UploadInv l K { s with client := s.client.construct } := by
  have hx : s.exchange = none := by
    rcases hx : s.exchange with _ | x
    · rfl
    · obtain ⟨u, hu, -⟩ := (h.exchange x hx).request
      exact absurd (hnone.symm.trans hu) (Option.some_ne_none _).symm
  have hclient : ClientInv l K s s.client.construct := by
    refine ⟨h.total, h.data, fun u hu _ => ?_⟩
    obtain rfl := Option.some.inj hu
    rfl
  have := h.idle hclient h.saved s.fragments h.fragments s.closings
  rwa [← hx] at this

theorem UploadInv.save (h : UploadInv l K s) :
    UploadInv l K { s with saved := s.client.data } where
  sessions := h.sessions
  fresh := h.fresh
  total := h.total
  data := h.data.congr rfl rfl
  saved := h.data.congr rfl rfl
  exchange x hx :=
    { request := (h.exchange x hx).request_mono rfl
      answer := fun r hr => ((h.exchange x hx).answer r hr).mono (.refl l K rfl rfl)
        fun _ _ hm hid => ((h.exchange x hx).session h hm hid).1
      handling := (h.exchange x hx).handling }
  pointer := h.pointer
  fragments := h.fragments

end client

/-- What one event does. The second alternative of the condition is what a file of 4 GiB needs. -/
theorem UploadInv.step {g : Setting} {K : Prop} {s : UploadSystem} {ev : UploadEvent}
    (h : UploadInv g.file K s) (hev : ev.Enabled s) (hl : g.file.length < 2 ^ 64)
    (hsmall : K ∨ g.file.length < 2 ^ 32) (hk : K → KeepsAll s (ev.step g s)) :
    UploadInv g.file K (ev.step g s) := by
  cases ev with
  | start => exact h.start hev.1
  | stop => exact h.idle (clientInv_stop h.total h.data) h.saved s.fragments h.fragments s.closings
  | save => exact h.save
  | crash =>
    exact h.idle (c := { s.client with data := s.saved, uploader := none })
      (clientInv_stop (c := { s.client with data := s.saved }) h.total h.saved) h.saved
      s.fragments h.fragments s.closings
  | send blockSize =>
    obtain ⟨u, hu⟩ := Option.ne_none_iff_exists'.mp hev.1
    have := h.send hu hev.2.1 blockSize
    simpa only [UploadEvent.step, hu] using this
  | resend =>
    obtain ⟨x, hx⟩ := Option.ne_none_iff_exists'.mp hev
    obtain ⟨u, hu, -⟩ := (h.exchange x hx).request
    have := h.resend hu hx
    simpa only [UploadEvent.step, hu, hx] using this
  | receive fails =>
    obtain ⟨request, r, hx⟩ := hev
    obtain ⟨u, hu, -⟩ := (h.exchange _ hx).request
    have := h.receive hu hx fails hsmall
    simpa only [UploadEvent.step, hu, hx] using this
  | replyDone => exact h.replyDone hev.2
  | serve starts received prereadSize =>
    obtain ⟨request, hx⟩ := hev
    simp only [UploadEvent.step, hx] at hk ⊢
    cases request with
    | createSession => exact h.serve_createSession hx
    | fragment m => exact h.serve_fragment hl hx (carries_take m received prereadSize) hk
    | closeSession sessionId => exact h.serve_closeSession hx hk
  | turnAway r =>
    obtain ⟨⟨request, hx⟩, hrange, hcode⟩ := hev
    exact h.turnAway hx hrange hcode
  | io sessionId ev backend =>
    obtain ⟨u, hu, hev⟩ := hev
    exact h.io hu hev hk
  | deleteSession sessionId => exact h.deleteSession hev.1 hev.2 hk

theorem uploadInv_init (g : Setting) (K : Prop) (jobType : JobType) (d : List (List UInt8))
    (systemCalls : List (Option ℕ)) :
    UploadInv g.file K (.init g jobType d systemCalls) := by
  have hdata : DataInv g.file K (.init g jobType d systemCalls) ⟨.createSession, none, 0⟩ :=
    ⟨fun _ hid => absurd hid (Option.some_ne_none _).symm, Nat.zero_le _, fun _ => rfl,
      fun hne => absurd rfl hne, fun _ hs => UploadState.noConfusion hs,
      fun hs => hs.elim (fun hs => UploadState.noConfusion hs) fun hs => UploadState.noConfusion hs⟩
  exact ⟨fun _ => faithful_created g.file false, fun _ _ => rfl, rfl, hdata, hdata,
    fun _ hx => absurd hx (Option.some_ne_none _).symm,
    fun _ hu => absurd hu (Option.some_ne_none _).symm, fun _ hm => absurd hm List.not_mem_nil⟩

/-- What may happen in a run of an upload. A file of 4 GiB or more needs its cache file to stay in
the sessions that are open for fragments. -/
def UploadEvent.Allowed (g : Setting) (ev : UploadEvent) (s : UploadSystem) : Prop :=
  ev.Enabled s ∧ (g.file.length < 2 ^ 32 ∨ KeepsAll s (ev.step g s))

theorem UploadInv.allowed {g : Setting} {s : UploadSystem} {ev : UploadEvent}
    (h : UploadInv g.file (2 ^ 32 ≤ g.file.length) s) (hev : ev.Allowed g s)
    (hl : g.file.length < 2 ^ 64) : UploadInv g.file (2 ^ 32 ≤ g.file.length) (ev.step g s) :=
  h.step hev.1 hl (Nat.lt_or_ge _ _).symm fun hlarge => hev.2.resolve_left (Nat.not_lt.mpr hlarge)

theorem runAll_uploadInv {g : Setting} {jobType : JobType} {d : List (List UInt8)}
    {systemCalls : List (Option ℕ)} (hl : g.file.length < 2 ^ 64) {es : List UploadEvent}
    (hes : Along (UploadEvent.step g) (UploadEvent.Allowed g) es (.init g jobType d systemCalls)) :
    UploadInv g.file (2 ^ 32 ≤ g.file.length)
      (runAll (UploadEvent.step g) es (.init g jobType d systemCalls)) := by
  exact runAll_invariant (fun ev s hev h => h.allowed hev hl)
    (uploadInv_init g _ jobType d systemCalls) hes

/-- In a run some event satisfies `P`. -/
def Happens (g : Setting) (P : UploadEvent → UploadSystem → Prop) (es : List UploadEvent)
    (s : UploadSystem) : Prop :=
  ∃ es₁ ev es₂, es = es₁ ++ ev :: es₂ ∧ P ev (runAll (UploadEvent.step g) es₁ s)

section taken
variable {g : Setting} {K : Prop} {s s' : UploadSystem} {id : ℕ}

theorem setHost_gone {id' : ℕ} {hst : Host}
    (hgone : id' = id → hst.session.gone = (s.sessions id).gone) :
    ((s.setHost id' hst).sessions id).gone = (s.sessions id).gone := by
  show (Function.update s.sessions id' hst.session id).gone = _
  by_cases heq : id = id'
  · subst heq
    rw [Function.update_self]
    exact hgone rfl
  · rw [Function.update_of_ne heq]

theorem setAnswer_gone (s : UploadSystem) (rs : List Response) (id : ℕ) :
    ((s.setAnswer rs).sessions id).gone = (s.sessions id).gone := by
  rw [(setAnswer_fields s rs).2.2.1]

theorem withSession_gone {sessionId : Option ℕ} {request : ServerOp}
    (hgone : sessionId = some id →
      (request.after (s.host id)).session.gone = (s.sessions id).gone) :
    ((s.withSession sessionId request).sessions id).gone = (s.sessions id).gone := by
  rcases sessionId with _ | id'
  · rfl
  · refine (setAnswer_gone _ _ id).trans (setHost_gone fun heq => ?_)
    subst heq
    exact hgone rfl

/-- The server takes a cache file away in no other event. -/
theorem UploadEvent.step_gone {ev : UploadEvent} (h : UploadInv g.file K s) (hev : ev.Enabled s)
    (hl : g.file.length < 2 ^ 64) (hnot : ¬ev.TakesFile g id s) :
    ((ev.step g s).sessions id).gone = (s.sessions id).gone := by
  cases ev with
  | start => rfl
  | stop => rfl
  | save => rfl
  | crash => rfl
  | send blockSize =>
    simp only [UploadEvent.step, UploadSystem.send]
    repeat' split
    all_goals rfl
  | resend =>
    simp only [UploadEvent.step, UploadSystem.resend]
    repeat' split
    all_goals rfl
  | receive fails =>
    simp only [UploadEvent.step, UploadSystem.receive]
    split
    all_goals rfl
  | replyDone => rfl
  | serve starts received prereadSize =>
    obtain ⟨request, hx⟩ := hev
    simp only [UploadEvent.step, hx]
    cases request with
    | createSession =>
      refine (setAnswer_gone _ _ id).trans (setHost_gone fun heq => ?_)
      subst heq
      obtain ⟨-, directory, r, hsession, -⟩ := Host.createSession_spec s.nextSession
        (s.host s.nextSession)
      rw [hsession]
      rfl
    | fragment m =>
      refine withSession_gone fun hid => ?_
      obtain ⟨-, hm, -⟩ := (h.exchange _ hx).session h rfl hid
      obtain ⟨r, hstep, -⟩ := Host.fragment_spec g.config starts
        ((carries_take m received prereadSize).fits hm hl) (s.host id)
      exact hstep.gone_eq
    | closeSession sessionId =>
      refine withSession_gone fun hid => ?_
      subst hid
      exact absurd hx hnot
  | turnAway r => rfl
  | io sessionId ev backend =>
    obtain ⟨u, hu, -⟩ := hev
    obtain ⟨r, hstep, -⟩ := Host.io_spec g.config ev backend
      (show (s.host sessionId).session.upload ≠ none by simp [UploadSystem.host, hu])
    have hkept : sessionId = id →
        ((Host.io g.config ev backend).after (s.host sessionId)).session.gone =
          (s.sessions id).gone := fun heq => by
      subst heq
      exact hstep.moves.gone_eq fun hasked => hnot ⟨rfl, hasked⟩
    rcases io_cases s g.config sessionId ev backend with ⟨heq, -⟩ | ⟨m, -, -, -, heq⟩
    · exact (congrArg (fun s : UploadSystem => (s.sessions id).gone) heq).trans (setHost_gone hkept)
    · exact (congrArg (fun s : UploadSystem => (s.sessions id).gone) heq).trans
        ((setAnswer_gone _ _ id).trans (setHost_gone hkept))
  | deleteSession sessionId =>
    show (Function.update s.sessions sessionId _ id).gone = _
    rw [Function.update_of_ne fun heq => hnot heq.symm]

/-- What is gone was gone before the run, or was taken away in it. -/
theorem gone_or_taken {es : List UploadEvent} (h : UploadInv g.file (2 ^ 32 ≤ g.file.length) s)
    (hes : Along (UploadEvent.step g) (UploadEvent.Allowed g) es s) (hl : g.file.length < 2 ^ 64) :
    ((runAll (UploadEvent.step g) es s).sessions id).gone = (s.sessions id).gone ∨
      Happens g (UploadEvent.TakesFile g id) es s := by
  induction es generalizing s with
  | nil => exact Or.inl rfl
  | cons ev es ih =>
    by_cases htakes : ev.TakesFile g id s
    · exact Or.inr ⟨[], ev, es, rfl, htakes⟩
    · rcases ih (h.allowed hes.1 hl) hes.2 with hgone | ⟨es₁, ev', es₂, rfl, htakes'⟩
      · exact Or.inl (hgone.trans (UploadEvent.step_gone h hes.1.1 hl htakes))
      · exact Or.inr ⟨ev :: es₁, ev', es₂, rfl, htakes'⟩

end taken

/-- In every run the fragments name the part of the file that they carry, the cache files of the
sessions are beginnings of the file, and a client that is done with its fragments has a session that
got the whole file, which is still its cache file unless the server may have taken that away. -/
theorem upload_agrees (g : Setting) (jobType : JobType) (d : List (List UInt8))
    (systemCalls : List (Option ℕ)) (hl : g.file.length < 2 ^ 64) {es : List UploadEvent}
    (hes : Along (UploadEvent.step g) (UploadEvent.Allowed g) es (.init g jobType d systemCalls)) :
    let s := runAll (UploadEvent.step g) es (.init g jobType d systemCalls)
    (∀ m ∈ s.fragments, Exact g.file m) ∧
      (∀ id, ∀ file ∈ (s.sessions id).copies, file <+: g.file) ∧
      (s.client.data.state = .getReply ∨ s.client.data.state = .closeSession →
        ∃ id, s.client.data.sessionId = some id ∧
          ((s.sessions id).file = g.file ∨ g.file ∈ (s.sessions id).gone ∧
            Happens g (UploadEvent.TakesFile g id) es (.init g jobType d systemCalls))) := by
  intro s
  have h : UploadInv g.file _ s := runAll_uploadInv hl hes
  refine ⟨h.fragments, fun id => (h.sessions id).beginning, fun hstate => ?_⟩
  obtain ⟨id, hid, hmem⟩ := h.data.whole hstate
  refine ⟨id, hid, ?_⟩
  rcases List.mem_append.mp hmem with hgone | hfile
  · refine Or.inr ⟨hgone, ?_⟩
    rcases gone_or_taken (uploadInv_init g _ jobType d systemCalls) hes hl with hkept | htaken
    · rw [hkept] at hgone
      exact absurd hgone List.not_mem_nil
    · exact htaken
  · exact Or.inl (List.mem_singleton.mp hfile).symm

/-- The requests of an upload of one byte that nothing happens to. -/
def uploadOnce (backend : Backend) : List UploadEvent :=
  [.start, .send 1, .serve [] 0 0, .receive false, .send 1, .serve [] 1 1, .io 0 .workItem backend,
    .io 0 .writeDone backend, .receive false]

/-- The backend asks for the file, and has it at the destination when the client is done with its
fragments. -/
theorem cacheFile_has_gone :
    ¬ ∀ (g : Setting) (jobType : JobType) (d : List (List UInt8)) (systemCalls : List (Option ℕ))
      (es : List UploadEvent), g.file.length < 2 ^ 32 →
      Along (UploadEvent.step g) UploadEvent.Enabled es (.init g jobType d systemCalls) →
      let s := runAll (UploadEvent.step g) es (.init g jobType d systemCalls)
      s.client.data.state = .closeSession →
        ∀ id, s.client.data.sessionId = some id → (s.sessions id).file = g.file := by
  intro hall
  have hfile := hall ⟨⟨1, .postByRef, true⟩, [7]⟩ .upload [] [] (uploadOnce (.answers 200 "" true))
    (by decide)
    ⟨⟨rfl, by decide⟩, ⟨by decide, rfl, by decide⟩, ⟨_, rfl⟩, ⟨_, _, rfl⟩,
      ⟨by decide, rfl, by decide⟩, ⟨_, rfl⟩, ⟨_, rfl, rfl⟩, ⟨_, rfl, List.cons_ne_nil _ _⟩,
      ⟨_, _, rfl⟩, trivial⟩ rfl 0 rfl
  exact absurd hfile (by decide)

/-- Without a notification the session still has the file. -/
theorem upload_agrees_once :
    ∃ s : UploadSystem, s.client.data.state = .closeSession ∧
      ∃ id, s.client.data.sessionId = some id ∧ (s.sessions id).file = [7] := by
  have hspec := @upload_agrees ⟨⟨1, .none, true⟩, [7]⟩ .upload [] [] (by decide)
    (uploadOnce (.fails 0 0))
    ⟨⟨⟨rfl, by decide⟩, Or.inl (by decide)⟩, ⟨⟨by decide, rfl, by decide⟩, Or.inl (by decide)⟩,
      ⟨⟨_, rfl⟩, Or.inl (by decide)⟩, ⟨⟨_, _, rfl⟩, Or.inl (by decide)⟩,
      ⟨⟨by decide, rfl, by decide⟩, Or.inl (by decide)⟩, ⟨⟨_, rfl⟩, Or.inl (by decide)⟩,
      ⟨⟨_, rfl, rfl⟩, Or.inl (by decide)⟩,
      ⟨⟨_, rfl, List.cons_ne_nil _ _⟩, Or.inl (by decide)⟩, ⟨⟨_, _, rfl⟩, Or.inl (by decide)⟩,
      trivial⟩
  obtain ⟨id, hid, hfile | ⟨hgone, -⟩⟩ := hspec.2.2 (Or.inr rfl)
  · exact ⟨_, rfl, id, hid, hfile⟩
  · obtain rfl : 0 = id := Option.some.inj hid
    exact absurd hgone (by decide)

end NtAdmin.Drizzle.Newjob
