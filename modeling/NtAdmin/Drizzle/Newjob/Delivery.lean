import NtAdmin.Drizzle.Newjob.UploadRun

/-! What is at the destination when an upload without notifications is closed. -/
namespace NtAdmin.Drizzle.Newjob

open NtAdmin.Lib NtAdmin.Drizzle.Server

/-- What the server puts at the destination behind `d` and up to `d'`, while a session goes from `t`
to `t'`, is what is taken out of the session. -/
structure HandedOver (t : Session) (d : List (List UInt8)) (t' : Session)
    (d' : List (List UInt8)) : Prop where
  grown : d <+: d'
  taken : t'.directory = true → ∀ file ∈ t'.gone,
    t.directory = true ∧ file ∈ t.gone ∨ file ∈ d'.drop d.length

section session
variable {config : DirectoryConfig} {backend : Backend} {t t' : Session} {d d' : List (List UInt8)}
  {r : Response}

theorem handedOver_of_gone_eq (d : List (List UInt8)) (hgone : t'.gone = t.gone)
    (hd : t'.directory = t.directory) : HandedOver t d t' d :=
  ⟨List.prefix_refl d, fun hd' _ hf => Or.inl ⟨hd ▸ hd', hgone ▸ hf⟩⟩

theorem fragmentStep_handedOver {f : FragmentRequest} {starts : List (Option ℕ)}
    {r : Option Response} (hstep : FragmentStep f starts t t' r) : HandedOver t d t' d := by
  cases hstep with
  | refused e he => exact handedOver_of_gone_eq d rfl rfl
  | failed checked cacheFile hfile e he => exact handedOver_of_gone_eq d rfl rfl
  | behind checked unnotified hlt => exact handedOver_of_gone_eq d rfl rfl
  | answered checked notified => exact handedOver_of_gone_eq d rfl rfl
  | opened fragment checked unnotified free hle preread hfragment =>
    exact handedOver_of_gone_eq d rfl rfl

/-- Nothing is moved while there are no notifications. -/
theorem completed_handedOver (hnone : config.notificationType = .none)
    (hc : Completed config backend t d t' d' r) : HandedOver t d t' d' := by
  cases hc with
  | failed e he => exact handedOver_of_gone_eq d rfl rfl
  | plain hplain => exact handedOver_of_gone_eq d rfl rfl
  | moveFailed hsize notified asked hfile e he => exact absurd (hnone.symm.trans notified) (by decide)
  | notified hsize notified httpStatus replyURL t'' d'' moved => exact absurd hnone notified

theorem ioStep_handedOver {ev : PumpEvent} {r : Option Response}
    (hnone : config.notificationType = .none) (hstep : IoStep config ev backend t d t' d' r) :
    HandedOver t d t' d' := by
  cases hstep with
  | going u hu hcalls => exact handedOver_of_gone_eq d rfl rfl
  | finished u hu n cs hcalls t'' d'' r completed =>
    have h := completed_handedOver hnone completed
    exact ⟨h.grown, h.taken⟩
  | failed u hu e n cs hcalls => exact handedOver_of_gone_eq d rfl rfl

theorem closeStep_handedOver (hnone : config.notificationType = .none)
    (hstep : CloseStep config t d t' d' r) : HandedOver t d t' d' := by
  cases hstep with
  | refused e he => exact handedOver_of_gone_eq d rfl rfl
  | taken hexists free d' moved deleted stateFile hstate directory r hr =>
    obtain ⟨hfile, rfl⟩ := moved hnone
    refine ⟨List.prefix_append d _, fun _ file hf => ?_⟩
    rw [List.drop_left]
    unfold Session.dropFile at hf
    rw [hfile] at hf
    exact (List.mem_append.mp hf).imp (⟨hexists, ·⟩) id

/-- A Close-Session request that succeeds has put the cache file at the destination. -/
theorem closeStep_moved (hnone : config.notificationType = .none)
    (hstep : CloseStep config t d t' d' r) (hcode : r.code = 200) :
    t.directory = true ∧ d' = d ++ [t.file] := by
  cases hstep with
  | refused e he =>
    have hmap : mapStatus e.code = 200 := he.symm.trans hcode
    unfold mapStatus at hmap
    split_ifs at hmap <;> omega
  | taken hexists free d' moved deleted stateFile hstate directory r hr =>
    exact ⟨hexists, (moved hnone).2⟩

end session

/-- The client takes the answer to a Close-Session request as the end of the upload. -/
def Final (r : Response) : Prop :=
  ¬ (500 ≤ r.code ∧ r.code ≤ 599) ∧ r.error ≠ some bgSessionNotFound

/-- The server has put the file behind the files `d` that were at the destination. -/
def Installed (d : List (List UInt8)) (s : UploadSystem) (file : List UInt8) : Prop :=
  file ∈ s.destination.drop d.length

structure Delivering (l : List UInt8) (d : List (List UInt8)) (s : UploadSystem) : Prop where
  grown : d <+: s.destination
  taken : ∀ id, (s.sessions id).directory = true →
    ∀ file ∈ (s.sessions id).gone, Installed d s file
  answer : ∀ id r, s.exchange = some ⟨.closeSession id, .answered r⟩ → r.code = 200 →
    Installed d s l
  closings : ∀ r ∈ s.closings, (r.code = 200 ∨ Final r) ∧ (r.code = 200 → Installed d s l)
  closed : s.client.data.state = .closed ∨ s.saved.state = .closed → s.closings ≠ []

section server
variable {l : List UInt8} {d : List (List UInt8)} {s s' : UploadSystem} {K : Prop} {g : Setting}

theorem Installed.mono {file : List UInt8} (h : Installed d s file)
    (hgrown : s.destination <+: s'.destination) : Installed d s' file := by
  obtain ⟨new, hnew⟩ := hgrown
  unfold Installed
  rw [← hnew, List.drop_append]
  exact List.mem_append_left _ h

theorem Installed.of_new {file : List UInt8} (hgrown : d <+: s.destination)
    (h : file ∈ s'.destination.drop s.destination.length) : Installed d s' file :=
  List.drop_subset_drop_left _ hgrown.length_le h

/-- The server works on a session, and the client waits. -/
theorem Delivering.server (h : Delivering l d s) {id : ℕ} {t' : Session}
    (hsessions : s'.sessions = Function.update s.sessions id t')
    (hover : HandedOver (s.sessions id) s.destination t' s'.destination)
    (hclient : s'.client = s.client) (hsaved : s'.saved = s.saved)
    (hclosings : s'.closings = s.closings)
    (hanswer : ∀ id r, s'.exchange = some ⟨.closeSession id, .answered r⟩ → r.code = 200 →
      s.exchange = some ⟨.closeSession id, .answered r⟩ ∨ Installed d s' l) :
    Delivering l d s' where
  grown := h.grown.trans hover.grown
  taken id' hd file hf := by
    rw [hsessions] at hd hf
    by_cases heq : id' = id
    · subst heq
      rw [Function.update_self] at hd hf
      rcases hover.taken hd file hf with ⟨hd', hf⟩ | hf
      · exact (h.taken id' hd' file hf).mono hover.grown
      · exact .of_new h.grown hf
    · rw [Function.update_of_ne heq] at hd hf
      exact (h.taken id' hd file hf).mono hover.grown
  answer id' r hx hcode := (hanswer id' r hx hcode).elim
    (fun hx => (h.answer id' r hx hcode).mono hover.grown) fun h => h
  closings r hr := by
    rw [hclosings] at hr
    exact ⟨(h.closings r hr).1, fun hcode => ((h.closings r hr).2 hcode).mono hover.grown⟩
  closed hstate := by
    rw [hclosings]
    rw [hclient, hsaved] at hstate
    exact h.closed hstate

/-- A request that the session answers, or goes on with. -/
theorem Delivering.answer_host (h : Delivering l d s) {request : ClientRequest} {phase : Phase}
    (hx : s.exchange = some ⟨request, phase⟩) {id : ℕ} {hst : Host}
    (hover : HandedOver (s.sessions id) s.destination hst.session hst.destination)
    (hanswer : ∀ id' r rs, request = .closeSession id' → hst.responses = r :: rs → r.code = 200 →
      Installed d ((s.setHost id hst).setAnswer hst.responses) l) :
    Delivering l d ((s.setHost id hst).setAnswer hst.responses) := by
  obtain ⟨hclient, hsaved, hsessions, -, hdestination, -, hclosings⟩ :=
    setAnswer_fields (s.setHost id hst) hst.responses
  have hexchange := setAnswer_exchange (s := s.setHost id hst) hx hst.responses
  refine h.server hsessions (hdestination ▸ hover) hclient hsaved hclosings
    fun id' r hx' hcode => Or.inr ?_
  have heq := Option.some.inj (hexchange.symm.trans hx')
  rcases hrs : hst.responses with _ | ⟨r', rs⟩
  · rw [hrs] at heq
    exact Phase.noConfusion (congrArg Exchange.phase heq)
  · rw [← hrs]
    refine hanswer id' r rs (congrArg Exchange.request heq) ?_ hcode
    rw [hrs] at heq
    rw [hrs, Phase.answered.inj (congrArg Exchange.phase heq)]

/-- The phase of the request changes, and not to the answer that ends the upload. -/
theorem Delivering.setPhase (h : Delivering l d s) {r : Response} (hcode : r.code ≠ 200) :
    Delivering l d (s.setPhase (.answered r)) where
  grown := h.grown
  taken := h.taken
  answer id r' hx hcode' := by
    obtain ⟨x, -, hx⟩ := Option.map_eq_some_iff.mp hx
    obtain rfl := Phase.answered.inj (congrArg Exchange.phase hx)
    exact absurd hcode' hcode
  closings := h.closings
  closed := h.closed

theorem Delivering.serve (h : Delivering l d s) (hinv : UploadInv l K s)
    (hnone : g.config.notificationType = .none) (hl : l.length < 2 ^ 64) {request : ClientRequest}
    (hx : s.exchange = some ⟨request, .sent⟩) (starts : List (Option ℕ)) (received prereadSize : ℕ) :
    Delivering l d (s.serve g.config starts received prereadSize request) := by
  cases request with
  | createSession =>
    obtain ⟨hdestination, directory, r, hsession, -⟩ :=
      Host.createSession_spec s.nextSession (s.host s.nextSession)
    have hover : HandedOver (s.sessions s.nextSession) s.destination
        ((Host.createSession s.nextSession).after (s.host s.nextSession)).session
        ((Host.createSession s.nextSession).after (s.host s.nextSession)).destination := by
      have hfresh : (s.host s.nextSession).session.gone = [] :=
        congrArg Session.gone (hinv.fresh _ (Nat.le_refl _))
      rw [hsession, hdestination]
      exact ⟨List.prefix_refl _, fun _ file hf => absurd (hfresh ▸ hf) List.not_mem_nil⟩
    have h' : Delivering l d { s with nextSession := s.nextSession + 1 } :=
      ⟨h.grown, h.taken, h.answer, h.closings, h.closed⟩
    exact h'.answer_host hx hover fun id' r rs hreq => ClientRequest.noConfusion hreq
  | fragment m =>
    unfold UploadSystem.serve UploadSystem.withSession
    simp only
    rcases hid : m.sessionId with _ | id
    · exact h.setPhase (by decide)
    · obtain ⟨-, hm, -⟩ := (hinv.exchange _ hx).session hinv rfl hid
      obtain ⟨r, hstep, hdestination, -⟩ := Host.fragment_spec g.config
        starts ((carries_take m received prereadSize).fits hm hl) (s.host id)
      refine h.answer_host hx ?_ fun id' r rs hreq => ClientRequest.noConfusion hreq
      rw [hdestination]
      exact fragmentStep_handedOver hstep
  | closeSession sessionId =>
    unfold UploadSystem.serve UploadSystem.withSession
    rcases sessionId with _ | id
    · exact h.setPhase (by decide)
    · obtain ⟨u, -, hstate, hid⟩ := (hinv.exchange _ hx).request
      obtain ⟨r, hstep, hresp⟩ := Host.closeSession_spec g.config (s.host id)
      have hover := closeStep_handedOver hnone hstep
      refine h.answer_host hx hover fun id' r' rs _ hrs hcode => ?_
      obtain rfl : r = r' := (List.cons.inj (hresp.symm.trans hrs)).1
      obtain ⟨hd, hmoved⟩ := closeStep_moved hnone hstep hcode
      have hdestination : ((s.setHost id ((Host.closeSession g.config).after (s.host id))).setAnswer
          ((Host.closeSession g.config).after (s.host id)).responses).destination =
            s.destination ++ [(s.sessions id).file] :=
        (setAnswer_fields _ _).2.2.2.2.1.trans hmoved
      obtain ⟨id', hid', hmem⟩ := hinv.data.whole (Or.inr hstate)
      obtain rfl := Option.some.inj (hid.trans hid')
      rcases List.mem_append.mp hmem with hgone | hfile
      · exact (h.taken id hd l hgone).mono (hdestination ▸ List.prefix_append _ _)
      · refine .of_new h.grown ?_
        rw [hdestination, List.drop_left]
        exact hfile

theorem Delivering.io (h : Delivering l d s) (hnone : g.config.notificationType = .none) {id : ℕ}
    {ev : PumpEvent} {backend : Backend} (hu : (s.sessions id).upload ≠ none) :
    Delivering l d (s.io g.config id ev backend) := by
  obtain ⟨r, hstep, -⟩ := Host.io_spec g.config ev backend
    (show (s.host id).session.upload ≠ none from hu)
  have hover := ioStep_handedOver hnone hstep
  rcases io_cases s g.config id ev backend with ⟨heq, -⟩ | ⟨m, hx, -, -, heq⟩
  · rw [heq]
    exact h.server rfl hover rfl rfl rfl fun _ _ hx _ => Or.inl hx
  · rw [heq]
    exact h.answer_host hx hover fun id' r rs hreq => ClientRequest.noConfusion hreq

end server

section client
variable {l : List UInt8} {d : List (List UInt8)} {s : UploadSystem} {K : Prop} {u : Uploader}
  {r : Response} {fails : Bool}

/-- The client is at work, or starts over, and closes nothing. -/
theorem Delivering.client (h : Delivering l d s) {c : Client} {saved : UploadData}
    {exchange : Option Exchange} {fragments : List FragmentMessage}
    (hanswer : ∀ id r, exchange = some ⟨.closeSession id, .answered r⟩ →
      s.exchange = some ⟨.closeSession id, .answered r⟩)
    (hclosed : c.data.state = .closed ∨ saved.state = .closed →
      s.client.data.state = .closed ∨ s.saved.state = .closed) :
    Delivering l d { s with client := c, saved, exchange, fragments } where
  grown := h.grown
  taken := h.taken
  answer id r hx hcode := h.answer id r (hanswer id r hx) hcode
  closings := h.closings
  closed hstate := h.closed (hclosed hstate)

theorem restart_open {c : Client} (h : c.data.state ≠ .closed) :
    (c.restart fails u).data.state ≠ .closed := by
  unfold Client.restart
  split_ifs
  · exact h
  · exact UploadState.noConfusion
  · exact UploadState.noConfusion

theorem newSession_open {c : Client} (h : c.data.state ≠ .closed) :
    (c.createSession_newSession fails r).data.state ≠ .closed := by
  unfold Client.createSession_newSession
  rcases r.sessionId with _ | id
  · exact h
  · simp only
    split_ifs
    · exact h
    · exact UploadState.noConfusion

theorem endOfData_open {c : Client} (h : c.data.state ≠ .closed) (rangeEnd : ℕ) :
    (c.endOfData fails r rangeEnd).data.state ≠ .closed := by
  unfold Client.endOfData
  by_cases hend : rangeEnd = c.bytesTotal
  · rw [if_pos hend]
    cases c.jobType with
    | upload => exact UploadState.noConfusion
    | uploadReply =>
      rcases r.replyURL with _ | url
      · simp only
        split_ifs
        · exact h
        · exact UploadState.noConfusion
      · simp only
        split_ifs
        · exact h
        · exact UploadState.noConfusion
  · rwa [if_neg hend]

theorem success_open {c : Client} (h : c.data.state ≠ .closed) :
    (c.sendData_success fails u r).data.state ≠ .closed := by
  unfold Client.sendData_success
  rcases r.receivedContentRange with _ | rangeEnd
  · exact h
  · simp only
    generalize (if rangeEnd ≤ c.data.bytesTransferred then u.restarts + 1 else u.restarts) = restarts
    split_ifs
    · exact h
    · exact h
    · exact h
    · refine endOfData_open ?_ rangeEnd
      exact h
    · refine endOfData_open ?_ rangeEnd
      exact h

theorem failure_open {c : Client} (h : c.data.state ≠ .closed) :
    (c.sendData_failure fails u r).data.state ≠ .closed := by
  unfold Client.sendData_failure
  rcases r.receivedContentRange with _ | rangeEnd
  · simp only
    split_ifs
    · exact restart_open h
    · exact h
  · simp only
    split_ifs
    · exact h
    · exact restart_open h
    · exact h

theorem Delivering.send (h : Delivering l d s) (file : List UInt8) (blockSize : ℕ) :
    Delivering l d (s.send file blockSize u) := by
  unfold UploadSystem.send
  cases s.client.data.state with
  | createSession =>
    exact h.client (fun _ _ hx => Phase.noConfusion (congrArg Exchange.phase (Option.some.inj hx))) id
  | sendData =>
    simp only
    split_ifs
    · exact h
    · exact h.client (fun _ _ hx => hx) id
    · exact h.client (fun _ _ hx => Phase.noConfusion (congrArg Exchange.phase (Option.some.inj hx))) id
  | getReply => exact h
  | closeSession =>
    exact h.client (fun _ _ hx => Phase.noConfusion (congrArg Exchange.phase (Option.some.inj hx))) id
  | closed => exact h

theorem Delivering.resend (h : Delivering l d s) (file : List UInt8) (request : ClientRequest) :
    Delivering l d (s.resend file u request) := by
  unfold UploadSystem.resend
  cases request with
  | createSession =>
    exact h.client (fun _ _ hx => Phase.noConfusion (congrArg Exchange.phase (Option.some.inj hx))) id
  | fragment m =>
    simp only
    split_ifs
    · exact h.client (fun _ _ hx => absurd hx (Option.some_ne_none _).symm) id
    · exact h.client (fun _ _ hx => Phase.noConfusion (congrArg Exchange.phase (Option.some.inj hx))) id
  | closeSession id' =>
    exact h.client (fun _ _ hx => Phase.noConfusion (congrArg Exchange.phase (Option.some.inj hx))) id

/-- An upload that an answer closes. -/
theorem analyzeResponse_closed {c : Client} {request : ClientRequest}
    (hstate : c.data.state ≠ .closed)
    (hclosed : (c.analyzeResponse fails u r request).data.state = .closed) :
    (∃ id, request = .closeSession id) ∧ (r.code = 200 ∨ Final r) := by
  cases request with
  | createSession =>
    unfold Client.analyzeResponse at hclosed
    simp only at hclosed
    split_ifs at hclosed
    · exact absurd hclosed (newSession_open hstate)
    · exact absurd hclosed hstate
  | fragment m =>
    unfold Client.analyzeResponse at hclosed
    simp only at hclosed
    split_ifs at hclosed
    · exact absurd hclosed (success_open hstate)
    · exact absurd hclosed (failure_open hstate)
  | closeSession id =>
    refine ⟨⟨id, rfl⟩, ?_⟩
    unfold Client.analyzeResponse Client.closeSession_failure at hclosed
    simp only at hclosed
    split_ifs at hclosed with hcode hfound hserver
    · exact Or.inl hcode
    · exact absurd hclosed (restart_open hstate)
    · exact absurd hclosed hstate
    · exact Or.inr ⟨hserver, hfound⟩

theorem Delivering.receive (h : Delivering l d s) (hinv : UploadInv l K s) {request : ClientRequest}
    (hx : s.exchange = some ⟨request, .answered r⟩) (fails : Bool) :
    Delivering l d (s.receive fails u r request) := by
  -- the client waits for no answer once the upload is closed
  have hstate : s.client.data.state ≠ .closed := by
    obtain ⟨u', -, hrequest⟩ := (hinv.exchange _ hx).request
    cases request with
    | createSession => exact fun hc => UploadState.noConfusion (hrequest.1.symm.trans hc)
    | fragment m => exact fun hc => UploadState.noConfusion (hrequest.1.symm.trans hc)
    | closeSession id => exact fun hc => UploadState.noConfusion (hrequest.1.symm.trans hc)
  have hfinal : (s.client.analyzeResponse fails u r request).data.state = .closed →
      (r.code = 200 ∨ Final r) ∧ (r.code = 200 → Installed d s l) := by
    intro hclosed
    obtain ⟨⟨id, rfl⟩, hcode⟩ := analyzeResponse_closed hstate hclosed
    exact ⟨hcode, h.answer id r hx⟩
  refine ⟨h.grown, h.taken, fun _ _ hnone => absurd hnone (Option.some_ne_none _).symm,
    fun r' hr => ?_, fun hclosed => ?_⟩
  · unfold UploadSystem.receive at hr
    simp only at hr
    split_ifs at hr with hc
    · rcases List.mem_append.mp hr with hr | hr
      · exact h.closings r' hr
      · exact List.mem_singleton.mp hr ▸ hfinal hc
    · exact h.closings r' hr
  · unfold UploadSystem.receive at hclosed ⊢
    simp only at hclosed ⊢
    split_ifs with hc
    · exact List.append_ne_nil_of_right_ne_nil _ (List.cons_ne_nil _ _)
    · exact h.closed (Or.inr (hclosed.resolve_left hc))

end client

/-- What one event does, next to the rest of the invariant. -/
theorem Delivering.step {g : Setting} {d : List (List UInt8)} {K : Prop} {s : UploadSystem}
    {ev : UploadEvent} (h : Delivering g.file d s) (hinv : UploadInv g.file K s)
    (hnone : g.config.notificationType = .none) (hl : g.file.length < 2 ^ 64) (hev : ev.Enabled s) :
    Delivering g.file d (ev.step g s) := by
  cases ev with
  | start => exact h.client (fun _ _ hx => hx) id
  | stop => exact h.client (fun _ _ hx => absurd hx (Option.some_ne_none _).symm) id
  | save => exact h.client (fun _ _ hx => hx) fun hc => Or.inl (hc.elim id id)
  | crash =>
    exact h.client (fun _ _ hx => absurd hx (Option.some_ne_none _).symm) fun hc => Or.inr (hc.elim id id)
  | send blockSize =>
    obtain ⟨u, hu⟩ := Option.ne_none_iff_exists'.mp hev.1
    have := h.send (u := u) g.file blockSize
    simpa only [UploadEvent.step, hu] using this
  | resend =>
    obtain ⟨x, hx⟩ := Option.ne_none_iff_exists'.mp hev
    obtain ⟨u, hu, -⟩ := (hinv.exchange x hx).request
    have := h.resend (u := u) g.file x.request
    simpa only [UploadEvent.step, hu, hx] using this
  | receive fails =>
    obtain ⟨request, r, hx⟩ := hev
    obtain ⟨u, hu, -⟩ := (hinv.exchange _ hx).request
    have := h.receive (u := u) hinv hx
    simpa only [UploadEvent.step, hu, hx] using this fails
  | replyDone =>
    exact h.client (fun _ _ hx => hx) fun hc => Or.inr (hc.resolve_left fun hc => UploadState.noConfusion hc)
  | serve starts received prereadSize =>
    obtain ⟨request, hx⟩ := hev
    have := h.serve hinv hnone hl hx starts received prereadSize
    simpa only [UploadEvent.step, hx] using this
  | turnAway r => exact h.setPhase hev.2.2.1
  | io sessionId ev backend =>
    obtain ⟨u, hu, -⟩ := hev
    exact h.io hnone (hu ▸ Option.some_ne_none u)
  | deleteSession sessionId =>
    refine h.server rfl ⟨List.prefix_refl _, fun hd => Bool.noConfusion hd⟩ rfl rfl rfl
      fun _ _ hx _ => Or.inl hx

theorem delivering_init (g : Setting) (jobType : JobType) (d : List (List UInt8))
    (systemCalls : List (Option ℕ)) : Delivering g.file d (.init g jobType d systemCalls) :=
  ⟨List.prefix_refl d, fun _ hd => Bool.noConfusion hd,
    fun _ _ hx => absurd hx (Option.some_ne_none _).symm, fun _ hr => absurd hr List.not_mem_nil,
    fun hc => hc.elim (fun hc => UploadState.noConfusion hc) fun hc => UploadState.noConfusion hc⟩

/-- In every run without notifications an upload that is closed has the whole file at the
destination, unless it was closed by an error other than a missing session and those from 500 to
599. -/
theorem closed_upload_delivers (g : Setting) (hnone : g.config.notificationType = .none)
    (jobType : JobType) (d : List (List UInt8)) (systemCalls : List (Option ℕ))
    (hl : g.file.length < 2 ^ 64) {es : List UploadEvent}
    (hes : Along (UploadEvent.step g) (UploadEvent.Allowed g) es (.init g jobType d systemCalls)) :
    let s := runAll (UploadEvent.step g) es (.init g jobType d systemCalls)
    ∃ installed, s.destination = d ++ installed ∧
      (s.client.data.state = .closed →
        g.file ∈ installed ∨ ∃ r ∈ s.closings, r.code ≠ 200 ∧ Final r) ∧
      ∀ r ∈ s.closings, r.code = 200 ∨ Final r := by
  intro s
  have h : UploadInv g.file (2 ^ 32 ≤ g.file.length) s ∧ Delivering g.file d s := by
    refine runAll_invariant (I := fun s => UploadInv g.file (2 ^ 32 ≤ g.file.length) s ∧
      Delivering g.file d s) (fun ev s hev h => ⟨?_, h.2.step h.1 hnone hl hev.1⟩)
      ⟨uploadInv_init g _ jobType d systemCalls, delivering_init g jobType d systemCalls⟩ hes
    refine h.1.step hev.1 hl (Nat.lt_or_ge _ _).symm fun hlarge => ?_
    exact hev.2.resolve_left (Nat.not_lt.mpr hlarge)
  obtain ⟨installed, hinstalled⟩ := h.2.grown
  refine ⟨installed, hinstalled.symm, fun hclosed => ?_, fun r hr => (h.2.closings r hr).1⟩
  obtain ⟨r, hr⟩ := List.exists_mem_of_ne_nil _ (h.2.closed (Or.inl hclosed))
  by_cases hcode : r.code = 200
  · left
    have hmem : g.file ∈ s.destination.drop d.length := (h.2.closings r hr).2 hcode
    rwa [← hinstalled, List.drop_left] at hmem
  · exact Or.inr ⟨r, hr, hcode, (h.2.closings r hr).1.resolve_left hcode⟩

/-- The end of an upload. -/
def closeOnce : List UploadEvent := [.send 0, .serve [] 0 0, .receive false]

/-- The file cannot be put at the destination, to which there is no access, and the client takes
that as the end. -/
theorem denied_upload_closes :
    ¬ ∀ (g : Setting) (jobType : JobType) (d : List (List UInt8)) (systemCalls : List (Option ℕ))
      (es : List UploadEvent), g.config.notificationType = .none → g.file.length < 2 ^ 32 →
      Along (UploadEvent.step g) UploadEvent.Enabled es (.init g jobType d systemCalls) →
      let s := runAll (UploadEvent.step g) es (.init g jobType d systemCalls)
      s.client.data.state = .closed → g.file ∈ s.destination.drop d.length := by
  intro hall
  have hmem := hall ⟨⟨1, .none, true⟩, [7]⟩ .upload []
    [none, none, none, none, none, none, none, none, none, none, none,
      some (hresultFromWin32 errorAccessDenied)]
    (uploadOnce (.fails 0 0) ++ closeOnce) rfl (by decide)
    ⟨⟨rfl, by decide⟩, ⟨by decide, rfl, by decide⟩, ⟨_, rfl⟩, ⟨_, _, rfl⟩,
      ⟨by decide, rfl, by decide⟩, ⟨_, rfl⟩, ⟨_, rfl, rfl⟩, ⟨_, rfl, List.cons_ne_nil _ _⟩,
      ⟨_, _, rfl⟩, ⟨by decide, rfl, by decide⟩, ⟨_, rfl⟩, ⟨_, _, rfl⟩, trivial⟩ rfl
  exact absurd hmem (by decide)

/-- The same upload when all goes well. -/
theorem closed_upload_delivers_once :
    ∃ s : UploadSystem, s.client.data.state = .closed ∧
      ∃ installed, s.destination = [] ++ installed ∧
        ([7] ∈ installed ∨ ∃ r ∈ s.closings, r.code ≠ 200 ∧ Final r) := by
  have hspec := @closed_upload_delivers ⟨⟨1, .none, true⟩, [7]⟩ rfl .upload [] [] (by decide)
    (uploadOnce (.fails 0 0) ++ closeOnce)
    ⟨⟨⟨rfl, by decide⟩, Or.inl (by decide)⟩, ⟨⟨by decide, rfl, by decide⟩, Or.inl (by decide)⟩,
      ⟨⟨_, rfl⟩, Or.inl (by decide)⟩, ⟨⟨_, _, rfl⟩, Or.inl (by decide)⟩,
      ⟨⟨by decide, rfl, by decide⟩, Or.inl (by decide)⟩, ⟨⟨_, rfl⟩, Or.inl (by decide)⟩,
      ⟨⟨_, rfl, rfl⟩, Or.inl (by decide)⟩,
      ⟨⟨_, rfl, List.cons_ne_nil _ _⟩, Or.inl (by decide)⟩, ⟨⟨_, _, rfl⟩, Or.inl (by decide)⟩,
      ⟨⟨by decide, rfl, by decide⟩, Or.inl (by decide)⟩, ⟨⟨_, rfl⟩, Or.inl (by decide)⟩,
      ⟨⟨_, _, rfl⟩, Or.inl (by decide)⟩, trivial⟩
  obtain ⟨installed, hd, hclosed, -⟩ := hspec
  exact ⟨_, rfl, installed, hd, hclosed rfl⟩

end NtAdmin.Drizzle.Newjob
