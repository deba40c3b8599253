import NtAdmin.Drizzle.Server.Session

/-! What the requests of a session can do to its files, and how they are answered. -/
namespace NtAdmin.Drizzle.Server

open NtAdmin.Lib

namespace Session

/-- The session when its fragments announce `totalLength`. -/
def announce (s : Session) (totalLength : ℕ) : Session :=
  { s with stateFile := { s.stateFile with uploadFileSize := totalLength } }

/-- The session when the cache file has gone to the destination. -/
def moveAway (s : Session) : Session :=
  { s with cacheFile := none, gone := s.gone ++ [s.file] }

/-- The session when its cache file is gone, if there was one. -/
def dropFile (s : Session) : Session :=
  { s with cacheFile := none, gone := s.gone ++ s.cacheFile.toList }

/-- The session when the answer of the backend has been kept. -/
def cacheNotification (s : Session) (httpStatus : ℕ) (replyURL : String) : Session :=
  { s with stateFile := { s.stateFile with
      httpCode := httpStatus
      replyURL := if replyURL = "" then s.stateFile.replyURL else replyURL
      notifyCached := true } }

/-- The session when the body pump of the request `u` has come to `pump`. -/
def pumped (s : Session) (u : Upload) (pump : Pump) : Session :=
  { s with
    upload := some { u with pump }
    cacheFile := some (Host.applyWrites u.base pump.written) }

/-- The session when the request `u` is done with the cache file. -/
def closed (s : Session) (u : Upload) : Session :=
  { s with
    upload := none
    accepted := s.accepted ++ [{ u.fragment with reach := s.file.length }] }

@[simp] theorem announce_file (s : Session) (t : ℕ) : (s.announce t).file = s.file := rfl
@[simp] theorem announce_upload (s : Session) (t : ℕ) : (s.announce t).upload = s.upload := rfl
@[simp] theorem announce_accepted (s : Session) (t : ℕ) : (s.announce t).accepted = s.accepted := rfl
@[simp] theorem announce_gone (s : Session) (t : ℕ) : (s.announce t).gone = s.gone := rfl

end Session

/-- The number of bytes of a fragment that the cache file has already. -/
def Accepted.drained (f : Accepted) (base : List UInt8) : ℕ :=
  min (base.length - f.rangeStart) f.rangeLength

/-- The numbers of a Content-Range fit, and so does the end of the range, of which the one in front
of all bytes ends at `2 ^ 64 - 1`. -/
def FragmentRequest.Fits (f : FragmentRequest) : Prop :=
  ∀ rangeStart rangeEnd totalLength, f.contentRange = some (rangeStart, rangeEnd, totalLength) →
    rangeStart < 2 ^ 64 ∧ totalLength < 2 ^ 64 ∧
      (rangeEnd + 1 < 2 ^ 64 ∨ rangeEnd + 1 = 2 ^ 64 ∧ rangeStart = 0)

/-- No sum of the numbers of a Content-Range wraps. -/
def FragmentRequest.NoWrap (f : FragmentRequest) : Prop :=
  ∀ rangeStart rangeEnd totalLength, f.contentRange = some (rangeStart, rangeEnd, totalLength) →
    rangeStart < 2 ^ 64 ∧ rangeEnd + 1 < 2 ^ 64 ∧ totalLength < 2 ^ 64

theorem FragmentRequest.NoWrap.fits {f : FragmentRequest} (h : f.NoWrap) : f.Fits :=
  fun a b t hr => ⟨(h a b t hr).1, (h a b t hr).2.2, Or.inl (h a b t hr).2.1⟩

/-- The range of a fragment has passed the checks that come before the cache file. -/
structure Checked (s : Session) (f : FragmentRequest) (rangeStart rangeLength totalLength : ℕ) :
    Prop where
  directory : s.directory = true
  range : ∃ rangeEnd, f.contentRange = some (rangeStart, rangeEnd, totalLength)
  length : f.contentLength = rangeLength
  fits : rangeStart + rangeLength ≤ totalLength
  total : totalLength < 2 ^ 64
  positive : f.NoWrap → 0 < totalLength
  announced : s.stateFile.uploadFileSize = 0 ∨ s.stateFile.uploadFileSize = totalLength

/-- What a Fragment request does before it reads the rest of its body, and its answer if it does not
come to that. -/
inductive FragmentStep (f : FragmentRequest) (starts : List (Option ℕ)) (s : Session) :
    Session → Option Response → Prop
  | refused (e : ServerException) (he : e.httpCode = mapStatus e.code) :
      FragmentStep f starts s s (some e.response)
  | failed {rangeStart rangeLength totalLength : ℕ}
      (checked : Checked s f rangeStart rangeLength totalLength) (cacheFile : Option (List UInt8))
      (hfile : cacheFile = s.cacheFile ∨ cacheFile = some s.file) (e : ServerException)
      (he : e.httpCode = mapStatus e.code) :
      FragmentStep f starts s { s.announce totalLength with cacheFile } (some e.response)
  | behind {rangeStart rangeLength totalLength : ℕ}
      (checked : Checked s f rangeStart rangeLength totalLength)
      (unnotified : s.stateFile.notifyCached = false) (hlt : s.file.length < rangeStart) :
      FragmentStep f starts s { s.announce totalLength with cacheFile := some s.file }
        (some (ackRange 416 s.file.length))
  | answered {rangeStart rangeLength totalLength : ℕ}
      (checked : Checked s f rangeStart rangeLength totalLength)
      (notified : s.stateFile.notifyCached = true) :
      FragmentStep f starts s
        { s.announce totalLength with
          accepted := s.accepted ++
            [⟨rangeStart, rangeLength, totalLength, f.preread ++ f.unread, s.gone.length, 0⟩] }
        (some { ackRange s.stateFile.httpCode totalLength with
          replyURL := if s.stateFile.replyURL = "" then none else some s.stateFile.replyURL
          errorContext := if s.stateFile.httpCode = 200 then none else some 0x7 })
  | opened {rangeStart rangeLength totalLength : ℕ} (fragment : Accepted)
      (checked : Checked s f rangeStart rangeLength totalLength)
      (unnotified : s.stateFile.notifyCached = false) (free : s.upload = none)
      (hle : rangeStart ≤ s.file.length)
      (preread : f.preread.length ≤ rangeLength)
      (hfragment : fragment = ⟨rangeStart, rangeLength, totalLength, f.preread ++ f.unread,
        s.gone.length, s.file.length⟩) :
      FragmentStep f starts s
        { s.announce totalLength with
          cacheFile := some s.file
          upload := some ⟨fragment, s.file,
            .init (fragment.drained s.file) (rangeLength - fragment.drained s.file) s.file.length
              f.preread f.unread starts⟩ }
        none

/-- What a request does when its body is in, and its answer. The cache file may go to the
destination if the backend asks for it, also when the request fails behind that. -/
inductive Completed (config : DirectoryConfig) (backend : Backend) (s : Session)
    (d : List (List UInt8)) : Session → List (List UInt8) → Response → Prop
  | failed (e : ServerException) (he : e.httpCode = mapStatus e.code) :
      Completed config backend s d s d e.response
  | plain (hplain : s.file.length = s.stateFile.uploadFileSize → config.notificationType = .none) :
      Completed config backend s d s d (ackRange 200 s.file.length)
  | moveFailed (hsize : s.file.length = s.stateFile.uploadFileSize)
      (notified : config.notificationType = .postByRef) (asked : backend.asksForFile = true)
      (hfile : s.cacheFile = some s.file) (e : ServerException)
      (he : e.httpCode = mapStatus e.code) :
      Completed config backend s d s.moveAway (d ++ [s.file]) e.response
  | notified (hsize : s.file.length = s.stateFile.uploadFileSize)
      (notified : config.notificationType ≠ .none) (httpStatus : ℕ) (replyURL : String)
      (s' : Session) (d' : List (List UInt8))
      (moved : s' = s ∧ d' = d ∨ s' = s.moveAway ∧ d' = d ++ [s.file] ∧
        s.cacheFile = some s.file ∧ config.notificationType = .postByRef ∧
        backend.asksForFile = true) :
      Completed config backend s d
        (if httpStatus = 200 ∨ httpStatus = 403 then s'.cacheNotification httpStatus replyURL
          else s')
        d'
        { ackRange httpStatus s.file.length with
          replyURL := if replyURL = "" then none else some replyURL
          errorContext := if httpStatus = 200 then none else some 0x7 }

/-- What an event of the body pump does, and the answer if it ends the request. -/
inductive IoStep (config : DirectoryConfig) (ev : PumpEvent) (backend : Backend) (s : Session)
    (d : List (List UInt8)) : Session → List (List UInt8) → Option Response → Prop
  | going (u : Upload) (hu : s.upload = some u) (hcalls : (ev.step u.pump).calls = []) :
      IoStep config ev backend s d (s.pumped u (ev.step u.pump)) d none
  | finished (u : Upload) (hu : s.upload = some u) (n : ℕ) (cs : List Callback)
      (hcalls : (ev.step u.pump).calls = .completeIo n :: cs) (s' : Session)
      (d' : List (List UInt8)) (r : Response)
      (completed : Completed config backend ((s.pumped u (ev.step u.pump)).closed u) d s' d' r) :
      IoStep config ev backend s d s' d' (some r)
  | failed (u : Upload) (hu : s.upload = some u) (e n : ℕ) (cs : List Callback)
      (hcalls : (ev.step u.pump).calls = .handleIOError e n :: cs) :
      IoStep config ev backend s d ((s.pumped u (ev.step u.pump)).closed u) d
        (some (serverException e).response)

/-- What a Close-Session request does, and its answer. Once the cache file is gone the request may
still fail. -/
inductive CloseStep (config : DirectoryConfig) (s : Session) (d : List (List UInt8)) :
    Session → List (List UInt8) → Response → Prop
  | refused (e : ServerException) (he : e.httpCode = mapStatus e.code) :
      CloseStep config s d s d e.response
  | taken (hexists : s.directory = true) (free : s.upload = none) (d' : List (List UInt8))
      (moved : config.notificationType = .none →
        s.cacheFile = some s.file ∧ d' = d ++ [s.file])
      (deleted : config.notificationType ≠ .none → d' = d) (stateFile : StateFile)
      (hstate : stateFile = s.stateFile ∨ stateFile = .initial) (directory : Bool)
      (r : Response) (hr : r.receivedContentRange = none) :
      CloseStep config s d { s.dropFile with stateFile, directory } d' r

namespace Host

/-- Nothing is left behind by the calls of the system. -/
def Frame (h h' : Host) : Prop :=
  h'.session = h.session ∧ h'.destination = h.destination ∧ h'.responses = h.responses

theorem Frame.refl (h : Host) : Frame h h := ⟨rfl, rfl, rfl⟩

theorem Frame.trans {h h' h'' : Host} (hf : Frame h h') (hf' : Frame h' h'') : Frame h h'' :=
  ⟨hf'.1.trans hf.1, hf'.2.1.trans hf.2.1, hf'.2.2.trans hf.2.2⟩

/-- An answer goes out. -/
def answer (h : Host) : Option Response → List Response
  | none => h.responses
  | some r => h.responses ++ [r]

theorem answer_some {h h' : Host} (hr : h'.responses = h.responses) (r : Response) :
    h'.responses ++ [r] = h.answer (some r) := by
  rw [hr]
  rfl

variable {Q : Unit → Host → Prop} {E : ServerException → Host → Prop} {h : Host}

@[simp] theorem wp_modifySession (g : Session → Session) :
    (modifySession g).wp Q E h ↔ Q () { h with session := g h.session } := Iff.rfl

@[simp] theorem wp_sendResponse (r : Response) :
    (sendResponse r).wp Q E h ↔ Q () { h with responses := h.responses ++ [r] } := Iff.rfl

theorem wp_systemCall (hQ : ∀ h', Frame h h' → Q () h')
    (hE : ∀ hr h', Frame h h' → E (serverException hr) h') : systemCall.wp Q E h := by
  unfold Prog.wp systemCall
  rcases h.systemCalls with _ | ⟨_ | hr, systemCalls⟩
  · exact hQ _ (Frame.refl h)
  · exact hQ _ ⟨rfl, rfl, rfl⟩
  · exact hE hr _ ⟨rfl, rfl, rfl⟩

/-- An error is answered. -/
theorem after_dispatch {request : ServerOp} {P : Host → Prop}
    (hP : request.wp (fun _ => P)
      (fun e h' => P { h' with responses := h'.responses ++ [e.response] }) h) :
    P ((dispatch request).after h) := by
  refine Prog.after_of_wp (P := P) ?_
  unfold dispatch
  simp only [Prog.wp_tryCatch]
  exact hP

theorem verifySessionExists_spec
    (hQ : ∀ h', Frame h h' → h.session.directory = true → Q () h')
    (hE : ∀ e h', Frame h h' → e.httpCode = mapStatus e.code → E e h') :
    verifySessionExists.wp Q E h := by
  unfold verifySessionExists
  simp only [Prog.wp_bind]
  refine wp_systemCall (fun h' hf => ?_) fun hr h' hf => hE _ _ hf rfl
  simp only [Prog.wp_bind, Prog.wp_get, Prog.wp_ite, Prog.wp_throw, Prog.wp_pure]
  refine ⟨fun _ => hE _ _ hf rfl, fun hd => hQ _ hf ?_⟩
  rw [← hf.1]
  simpa using hd

/-- What the numbers are that `CrackContentRange` returns. -/
theorem crackContentRange_spec {Q : ℕ × ℕ × ℕ → Host → Prop} {config : DirectoryConfig}
    {f : FragmentRequest} (hfits : f.Fits)
    (hQ : ∀ rangeStart rangeLength totalLength,
      (∃ rangeEnd, f.contentRange = some (rangeStart, rangeEnd, totalLength)) →
      f.contentLength = rangeLength → rangeStart + rangeLength < 2 ^ 64 → totalLength < 2 ^ 64 →
      (f.NoWrap → 0 < rangeStart + rangeLength) → Q (rangeStart, rangeLength, totalLength) h)
    (hE : ∀ e, e.httpCode = mapStatus e.code → E e h) :
    (crackContentRange config f).wp Q E h := by
  unfold crackContentRange
  rcases hr : f.contentRange with _ | ⟨a, b, t⟩
  · exact hE _ rfl
  · obtain ⟨ha, ht, hb⟩ := hfits a b t hr
    simp only [Prog.wp_ite, Prog.wp_throw, Prog.wp_pure]
    refine ⟨fun _ => hE _ rfl, fun _ => ⟨fun hcont => ?_, fun _ => ⟨fun _ => hE _ rfl, fun hle =>
      ⟨fun _ => hE _ rfl, fun hlen => ?_⟩⟩⟩⟩
    · obtain ⟨hstart, hlen, hat⟩ := hcont
      subst hat
      refine hQ a 0 a ⟨b, hr⟩ hlen (by omega) ht fun hn => ?_
      have := (hn a b a hr).2.1
      omega
    · refine hQ a _ t ⟨b, hr⟩ (not_not.mp hlen) ?_ ht fun hn => ?_
      · omega
      · have := (hn a b t hr).2.1
        omega

theorem checkUploadFileSize_spec {totalLength : ℕ}
    (hQ : h.session.stateFile.uploadFileSize = 0 ∨
      h.session.stateFile.uploadFileSize = totalLength →
      Q () { h with session := h.session.announce totalLength })
    (hE : ∀ e : ServerException, e.httpCode = mapStatus e.code → E e h) :
    (checkUploadFileSize totalLength).wp Q E h := by
  unfold checkUploadFileSize
  simp only [Prog.wp_bind, Prog.wp_get, Prog.wp_ite, Prog.wp_throw, Prog.wp_pure, wp_modifySession]
  refine ⟨fun _ => ⟨fun _ => hE _ rfl, fun heq => ?_⟩, fun h0 => hQ (Or.inl (not_not.mp h0))⟩
  have hsame : h.session.announce totalLength = h.session := by
    unfold Session.announce
    rw [← not_not.mp heq]
  have := hQ (Or.inr (not_not.mp heq))
  rwa [hsame] at this

theorem openCacheFile_spec
    (hQ : ∀ h', h.session.upload = none →
      Frame { h with session := { h.session with cacheFile := some h.session.file } } h' → Q () h')
    (hE : ∀ e h', Frame h h' → e.httpCode = mapStatus e.code → E e h') :
    openCacheFile.wp Q E h := by
  unfold openCacheFile
  simp only [Prog.wp_bind, Prog.wp_tryCatch]
  refine wp_systemCall (fun h' hf => ?_) fun hr h' hf => ?_
  · simp only [Prog.wp_bind, Prog.wp_get, Prog.wp_ite, Prog.wp_throw, wp_modifySession]
    refine ⟨fun _ => hE _ _ hf rfl, fun hnone => hQ _ ?_ ⟨?_, hf.2⟩⟩
    · rw [← hf.1]
      simpa using hnone
    · show { h'.session with cacheFile := some h'.session.file } = _
      rw [hf.1]
  · simp only [Prog.wp_ite, Prog.wp_throw]
    exact ⟨fun _ => hE _ _ hf rfl, fun _ => hE _ _ hf rfl⟩

/-- The cache file is open, and the rest of the body may be needed. -/
theorem startReader_spec {f : FragmentRequest} {starts : List (Option ℕ)} {s : Session}
    {rangeStart rangeLength totalLength : ℕ} (checked : Checked s f rangeStart rangeLength totalLength)
    (unnotified : s.stateFile.notifyCached = false) (free : s.upload = none)
    (preread : f.preread.length ≤ rangeLength)
    (hs : h.session = { s.announce totalLength with cacheFile := some s.file })
    (hQ : ∀ h' r, FragmentStep f starts s h'.session r → h'.destination = h.destination →
      h'.responses = h.answer r → Q () h')
    (hE : ∀ (e : ServerException) h', e.httpCode = mapStatus e.code →
      FragmentStep f starts s h'.session (some e.response) → h'.destination = h.destination →
      h'.responses = h.responses → E e h') :
    (startReader rangeStart rangeLength totalLength f starts).wp Q E h := by
  have hfile : h.session.file = s.file := by rw [hs]; rfl
  have hfail : ∀ h', Frame h h' → ∀ hr, E (serverException hr) h' := by
    intro h' hf hr
    refine hE _ h' rfl ?_ hf.2.1 hf.2.2
    rw [hf.1, hs]
    exact .failed checked _ (Or.inr rfl) _ rfl
  unfold startReader
  simp only [Prog.wp_bind]
  refine wp_systemCall (fun h' hf => ?_) fun hr h' hf => hfail h' hf hr
  simp only [Prog.wp_bind, Prog.wp_get, Prog.wp_ite, wp_sendResponse, hf.1, hfile]
  refine ⟨fun hlt => hQ _ (some _) ?_ hf.2.1 (answer_some hf.2.2 _), fun hle => ?_⟩
  · show FragmentStep f starts s h.session _
    rw [hs]
    exact .behind checked unnotified hlt
  · refine wp_systemCall (fun h'' hf' => ?_) fun hr h'' hf' => hfail h'' (hf.trans hf') hr
    refine hQ _ none ?_ (hf.trans hf').2.1 (hf.trans hf').2.2
    show FragmentStep f starts s { h''.session with upload := _ } none
    rw [(hf.trans hf').1, hs]
    exact .opened _ checked unnotified free (Nat.not_lt.mp hle) preread rfl

theorem addFragment_spec {config : DirectoryConfig} {f : FragmentRequest}
    {starts : List (Option ℕ)} (hfits : f.Fits) (preread : f.preread.length ≤ f.contentLength)
    (hQ : ∀ h' r, FragmentStep f starts h.session h'.session r → h'.destination = h.destination →
      h'.responses = h.answer r → Q () h')
    (hE : ∀ (e : ServerException) h', e.httpCode = mapStatus e.code →
      FragmentStep f starts h.session h'.session (some e.response) →
      h'.destination = h.destination → h'.responses = h.responses → E e h') :
    (addFragment config f starts).wp Q E h := by
  have hrefuse : ∀ e h', Frame h h' → e.httpCode = mapStatus e.code → E e h' :=
    fun e h' hf he => hE e h' he (hf.1 ▸ .refused e he) hf.2.1 hf.2.2
  unfold addFragment
  simp only [Prog.wp_bind]
  refine verifySessionExists_spec (fun h₁ hf₁ hexists => ?_) hrefuse
  simp only [Prog.wp_bind]
  refine wp_systemCall (fun h₂ hf₂ => ?_) fun hr h₂ hf₂ => hrefuse _ h₂ (hf₁.trans hf₂) rfl
  have hf := hf₁.trans hf₂
  simp only [Prog.wp_bind]
  refine crackContentRange_spec hfits (fun a len t hrange hlen hsum ht hpos => ?_)
    fun e he => hrefuse e h₂ hf he
  simp only [Prog.wp_ite, Prog.wp_bind, Prog.wp_throw]
  refine ⟨fun _ => hrefuse _ h₂ hf rfl, fun hle => ?_⟩
  rw [Nat.mod_eq_of_lt hsum] at hle
  refine checkUploadFileSize_spec (fun hannounced => ?_) fun e he => hrefuse e h₂ hf he
  rw [hf.1] at hannounced ⊢
  have checked : Checked h.session f a len t :=
    ⟨hexists, hrange, hlen, Nat.not_lt.mp hle, ht, fun hn => Nat.lt_of_lt_of_le (hpos hn) (Nat.not_lt.mp hle),
      hannounced⟩
  have hpre : f.preread.length ≤ len := hlen ▸ preread
  simp only [Prog.wp_bind, Prog.wp_get, Prog.wp_ite, wp_modifySession,
    sendResponseAfterNotification, wp_sendResponse]
  refine ⟨fun hnotified => hQ _ (some _) (.answered checked hnotified) hf.2.1
    (answer_some hf.2.2 _), fun hnotified => ?_⟩
  have hunnotified : h.session.stateFile.notifyCached = false :=
    Bool.eq_false_iff.mpr hnotified
  have hfail : ∀ (e : ServerException) h', Frame { h₂ with session := h.session.announce t } h' →
      e.httpCode = mapStatus e.code → E e h' := fun e h' hf' he => by
    refine hE e h' he ?_ (hf'.2.1.trans hf.2.1) (hf'.2.2.trans hf.2.2)
    rw [hf'.1]
    exact .failed checked _ (Or.inl rfl) _ he
  refine wp_systemCall (fun h₃ hf₃ => ?_) fun hr h₃ hf₃ => hfail _ h₃ hf₃ rfl
  simp only [Prog.wp_bind]
  refine openCacheFile_spec (fun h₄ hfree hf₄ => ?_) fun e h₄ hf₄ he => hfail e h₄ (hf₃.trans hf₄) he
  have hd : h₄.destination = h.destination := (hf₄.2.1.trans hf₃.2.1).trans hf.2.1
  have hr : h₄.responses = h.responses := (hf₄.2.2.trans hf₃.2.2).trans hf.2.2
  rw [hf₃.1] at hfree
  refine startReader_spec checked hunnotified hfree hpre ?_ (fun h' r hstep hd' hr' => ?_)
    fun e h' he hstep hd' hr' => hE e h' he hstep (hd'.trans hd) (hr'.trans hr)
  · rw [hf₄.1, hf₃.1]
    rfl
  · refine hQ h' r hstep (hd'.trans hd) ?_
    cases r with
    | none => exact hr'.trans hr
    | some r => exact hr'.trans (answer_some hr r)

/-- Every Fragment request is answered or has opened the cache file. -/
theorem fragment_spec (config : DirectoryConfig) {f : FragmentRequest}
    (starts : List (Option ℕ)) (hfits : f.Fits) (h : Host) :
    ∃ r, FragmentStep f starts h.session ((fragment config f starts).after h).session r ∧
      ((fragment config f starts).after h).destination = h.destination ∧
      ((fragment config f starts).after h).responses = h.answer r := by
  refine Prog.after_of_wp (P := fun h' : Host => ∃ r, FragmentStep f starts h.session h'.session r ∧
    h'.destination = h.destination ∧ h'.responses = h.answer r) ?_
  unfold fragment dispatch
  simp only [Prog.wp_tryCatch, Prog.wp_ite, Prog.wp_throw, wp_sendResponse]
  refine ⟨fun _ => ⟨_, .refused _ rfl, trivial, rfl⟩, fun hle => ?_⟩
  exact addFragment_spec hfits (Nat.not_lt.mp hle) (fun h' r hstep hd hr => ⟨r, hstep, hd, hr⟩)
    fun e h' he hstep hd hr => ⟨_, hstep, hd, answer_some hr _⟩

theorem file_of_cacheFile {s : Session} {file : List UInt8} (hs : s.cacheFile = some file) :
    s.file = file := by
  unfold Session.file
  rw [hs]
  rfl

theorem renameFile_spec {config : DirectoryConfig} {isOpen : Bool}
    (hQ : ∀ h', h.session.cacheFile = some h.session.file → isOpen = false →
      h'.session = h.session.moveAway → h'.destination = h.destination ++ [h.session.file] →
      h'.responses = h.responses → (h.destination ≠ [] → config.allowOverwrites = true) →
      Q () h')
    (hE : ∀ e h', Frame h h' → e.httpCode = mapStatus e.code → E e h') :
    (renameFile config isOpen).wp Q E h := by
  unfold renameFile
  simp only [Prog.wp_bind]
  refine wp_systemCall (fun h' hf => ?_) fun hr h' hf => hE _ _ hf rfl
  simp only [Prog.wp_bind, Prog.wp_get, hf.1]
  rcases hc : h.session.cacheFile with _ | file
  · exact hE _ _ hf rfl
  · have hfile := file_of_cacheFile hc
    simp only [Prog.wp_ite, Prog.wp_throw, Prog.wp_modify]
    refine ⟨fun _ => hE _ _ hf rfl, fun hopen => ⟨fun _ => hE _ _ hf rfl, fun hd => ?_⟩⟩
    refine hQ _ (by rw [hc, hfile]) (by simpa using hopen) ?_ ?_ hf.2.2 ?_
    · show { h'.session with cacheFile := none, gone := h'.session.gone ++ [file] } = _
      rw [hf.1, ← hfile]
      rfl
    · show h'.destination ++ [file] = _
      rw [hf.2.1, hfile]
    · intro hsome
      rw [hf.2.1] at hd
      simpa [hsome] using hd

theorem callServerNotification_spec {config : DirectoryConfig} {backend : Backend}
    (hsize : h.session.file.length = h.session.stateFile.uploadFileSize)
    (hnotify : config.notificationType ≠ .none)
    (hQ : ∀ h' r, Completed config backend h.session h.destination h'.session h'.destination r →
      h'.responses = h.responses ++ [r] → Q () h')
    (hE : ∀ (e : ServerException) h', e.httpCode = mapStatus e.code →
      Completed config backend h.session h.destination h'.session h'.destination e.response →
      h'.responses = h.responses → E e h') :
    (callServerNotification config h.session.file.length backend).wp Q E h := by
  cases backend with
  | fails error context =>
    exact hE ⟨error, mapStatus error, context⟩ h rfl (.failed _ rfl) rfl
  | answers httpStatus replyURL copyFileToDestination =>
    -- behind the copy, with or without it
    have hrest : ∀ h', h'.responses = h.responses →
        (h'.session = h.session ∧ h'.destination = h.destination ∨
          h'.session = h.session.moveAway ∧ h'.destination = h.destination ++ [h.session.file] ∧
          h.session.cacheFile = some h.session.file ∧ config.notificationType = .postByRef ∧
            Backend.asksForFile (.answers httpStatus replyURL copyFileToDestination) = true) →
        (answerNotification httpStatus h.session.file.length replyURL).wp Q E h' := by
      intro h' hr hmoved
      unfold answerNotification
      simp only [Prog.wp_ite, Prog.wp_throw, Prog.wp_bind, wp_modifySession,
        sendResponseAfterNotification, wp_sendResponse]
      refine ⟨fun _ => ?_, fun _ => ⟨fun hkeep => ?_, fun hkeep => ?_⟩⟩
      · refine hE _ h' rfl ?_ hr
        rcases hmoved with ⟨hs, hd⟩ | ⟨hs, hd, hc, ht, hasked⟩
        · rw [hs, hd]
          exact .failed _ rfl
        · rw [hs, hd]
          exact .moveFailed hsize ht hasked hc _ rfl
      · refine hQ _ _ ?_ (congrArg (· ++ [_]) hr)
        have := Completed.notified hsize hnotify httpStatus replyURL h'.session h'.destination hmoved
        rwa [if_pos hkeep] at this
      · refine hQ _ _ ?_ (congrArg (· ++ [_]) hr)
        have := Completed.notified hsize hnotify httpStatus replyURL h'.session h'.destination hmoved
        rwa [if_neg hkeep] at this
    unfold callServerNotification
    simp only [Prog.wp_bind, Prog.wp_ite]
    refine ⟨fun hasked => ?_, fun _ => hrest h rfl (Or.inl ⟨rfl, rfl⟩)⟩
    refine renameFile_spec (fun h' hc hopen hs hd hr _ =>
        hrest h' hr (Or.inr ⟨hs, hd, hc, ?_, hasked⟩))
      fun e h' hf he => hE e h' he ?_ hf.2.2
    · simpa using hopen
    · rw [hf.1, hf.2.1]
      exact .failed e he

theorem requestCompleteIo_spec (config : DirectoryConfig) (backend : Backend) (h : Host) :
    ∃ r, Completed config backend h.session h.destination
        ((requestCompleteIo config backend).after h).session
        ((requestCompleteIo config backend).after h).destination r ∧
      ((requestCompleteIo config backend).after h).responses = h.responses ++ [r] := by
  refine Prog.after_of_wp (P := fun h' : Host => ∃ r, Completed config backend h.session h.destination
    h'.session h'.destination r ∧ h'.responses = h.responses ++ [r]) ?_
  unfold requestCompleteIo
  simp only [Prog.wp_tryCatch, Prog.wp_bind]
  refine wp_systemCall (fun h' hf => ?_) fun hr h' hf => ?_
  · have heq : h.session = h'.session ∧ h.destination = h'.destination ∧ h.responses = h'.responses :=
      ⟨hf.1.symm, hf.2.1.symm, hf.2.2.symm⟩
    rw [heq.1, heq.2.1, heq.2.2]
    simp only [Prog.wp_bind, Prog.wp_get, Prog.wp_ite, wp_sendResponse]
    refine ⟨fun hboth => ?_, fun hplain => ⟨_, .plain fun hsize => ?_, rfl⟩⟩
    · exact callServerNotification_spec hboth.1 hboth.2 (fun h'' r hc hr => ⟨r, hc, hr⟩)
        fun e h'' he hc hr => ⟨_, hc, congrArg (· ++ [e.response]) hr⟩
    · by_contra hne
      exact hplain ⟨hsize, hne⟩
  · simp only [wp_sendResponse, hf.1, hf.2.1, hf.2.2]
    exact ⟨_, .failed _ rfl, rfl⟩

theorem io_spec (config : DirectoryConfig) (ev : PumpEvent) (backend : Backend) {h : Host}
    (hu : h.session.upload ≠ none) :
    ∃ r, IoStep config ev backend h.session h.destination ((io config ev backend).after h).session
        ((io config ev backend).after h).destination r ∧
      ((io config ev backend).after h).responses = h.answer r := by
  obtain ⟨u, hu⟩ := Option.ne_none_iff_exists'.mp hu
  refine Prog.after_of_wp (P := fun h' : Host => ∃ r, IoStep config ev backend h.session h.destination
    h'.session h'.destination r ∧ h'.responses = h.answer r) ?_
  unfold io
  simp only [Prog.wp_bind, Prog.wp_get, hu, wp_modifySession]
  rcases hcalls : (ev.step u.pump).calls with _ | ⟨n | ⟨e, n⟩, cs⟩
  · exact ⟨none, .going u hu hcalls, rfl⟩
  · simp only [Prog.wp_bind, closeUpload, wp_modifySession]
    obtain ⟨r, hr, hresp⟩ := requestCompleteIo_spec config backend
      { h with session := (h.session.pumped u (ev.step u.pump)).closed u }
    exact Prog.wp_result.mpr ⟨fun _ _ => ⟨some r, .finished u hu n cs hcalls _ _ r hr, hresp⟩,
      fun _ _ => ⟨some r, .finished u hu n cs hcalls _ _ r hr, hresp⟩⟩
  · simp only [Prog.wp_bind, closeUpload, wp_modifySession, requestHandleIOError, wp_sendResponse]
    exact ⟨_, .failed u hu e n cs hcalls, rfl⟩

/-- `d'` is what is at the destination when the cache file has been taken away. -/
def Taken (config : DirectoryConfig) (s : Session) (d d' : List (List UInt8)) : Prop :=
  (config.notificationType = .none → s.cacheFile = some s.file ∧ d' = d ++ [s.file]) ∧
    (config.notificationType ≠ .none → d' = d)

theorem closeCacheFile_spec {config : DirectoryConfig}
    (hQ : ∀ h', h.session.upload = none → h'.session = h.session.dropFile →
      Taken config h.session h.destination h'.destination → h'.responses = h.responses → Q () h')
    (hE : ∀ e h', Frame h h' → e.httpCode = mapStatus e.code → E e h') :
    (closeCacheFile config).wp Q E h := by
  unfold closeCacheFile
  simp only [Prog.wp_bind, Prog.wp_get, Prog.wp_ite]
  refine ⟨fun hnone => ?_, fun hsome => ?_⟩
  · refine renameFile_spec (fun h' hc hopen hs hd hr _ => ?_) hE
    refine hQ h' (by simpa using hopen) ?_ ⟨fun _ => ⟨hc, hd⟩, fun hne => absurd hnone hne⟩ hr
    rw [hs, Session.moveAway, Session.dropFile, hc]
    rfl
  · unfold deleteCacheFile
    simp only [Prog.wp_bind]
    refine wp_systemCall (fun h' hf => ?_) fun hr h' hf => hE _ h' hf rfl
    simp only [Prog.wp_bind, Prog.wp_get, Prog.wp_ite, Prog.wp_throw, wp_modifySession, hf.1]
    refine ⟨fun _ => hE _ h' hf rfl, fun hnone => ?_⟩
    exact hQ _ (by simpa using hnone) rfl ⟨fun h0 => absurd h0 hsome, fun _ => hf.2.1⟩ hf.2.2

theorem removeDirectory_spec (hQ : ∀ h' directory, h'.destination = h.destination →
    h'.responses = h.responses → h'.session = { h.session with directory } → Q () h') :
    removeDirectory.wp Q E h := by
  unfold removeDirectory
  simp only [Prog.wp_tryCatch, Prog.wp_bind]
  refine wp_systemCall (fun h' hf => ?_) fun hr h' hf => ?_
  · refine hQ _ false hf.2.1 hf.2.2 ?_
    show { h'.session with directory := false } = _
    rw [hf.1]
  · exact hQ _ h.session.directory hf.2.1 hf.2.2 hf.1

theorem closeSession_spec (config : DirectoryConfig) (h : Host) :
    ∃ r, CloseStep config h.session h.destination ((closeSession config).after h).session
        ((closeSession config).after h).destination r ∧
      ((closeSession config).after h).responses = h.responses ++ [r] := by
  refine after_dispatch (P := fun h' : Host => ∃ r, CloseStep config h.session h.destination
    h'.session h'.destination r ∧ h'.responses = h.responses ++ [r]) ?_
  simp only [Prog.wp_bind]
  have hrefuse : ∀ (e : ServerException) h', Frame h h' → e.httpCode = mapStatus e.code →
      ∃ r, CloseStep config h.session h.destination h'.session h'.destination r ∧
        h'.responses ++ [e.response] = h.responses ++ [r] := fun e h' hf he =>
    ⟨e.response, hf.1 ▸ hf.2.1 ▸ .refused e he, by rw [hf.2.2]⟩
  refine verifySessionExists_spec (fun h₁ hf₁ hexists => ?_) hrefuse
  simp only [Prog.wp_bind]
  refine closeCacheFile_spec (fun h₂ hfree hs₂ htaken hr₂ => ?_)
    fun e h₂ hf₂ he => hrefuse e h₂ (hf₁.trans hf₂) he
  rw [hf₁.1] at hfree hs₂ htaken
  rw [hf₁.2.1] at htaken
  -- the cache file is gone
  have hdone : ∀ (h' : Host) r, h'.destination = h₂.destination → r.receivedContentRange = none →
      (∃ stateFile directory, (stateFile = h.session.stateFile ∨ stateFile = .initial) ∧
        h'.session = { h.session.dropFile with stateFile, directory }) →
      CloseStep config h.session h.destination h'.session h'.destination r := by
    rintro h' r hd hr ⟨stateFile, directory, hstate, hs'⟩
    rw [hs', hd]
    exact .taken hexists hfree _ htaken.1 htaken.2 stateFile hstate directory r hr
  have hkept : h₂.session =
      { h.session.dropFile with
        stateFile := h.session.stateFile, directory := h.session.directory } := hs₂
  have hresp : h₂.responses = h.responses := hr₂.trans hf₁.2.2
  simp only [Prog.wp_bind]
  refine wp_systemCall (fun h₃ hf₃ => ?_) fun hr h₃ hf₃ => ⟨_, hdone h₃ _ hf₃.2.1 rfl
    ⟨_, _, Or.inl rfl, hf₃.1.trans hkept⟩, by rw [hf₃.2.2, hresp]⟩
  simp only [Prog.wp_bind]
  refine wp_systemCall (fun h₄ hf₄ => ?_) fun hr h₄ hf₄ => ⟨_, hdone h₄ _ (hf₃.trans hf₄).2.1 rfl
    ⟨_, _, Or.inl rfl, (hf₃.trans hf₄).1.trans hkept⟩, by rw [(hf₃.trans hf₄).2.2, hresp]⟩
  have hf := hf₃.trans hf₄
  simp only [Prog.wp_bind, wp_modifySession]
  refine removeDirectory_spec fun h₅ directory hd₅ hr₅ hs₅ => ?_
  simp only [wp_sendResponse]
  refine ⟨ack 200, hdone _ (ack 200) (hd₅.trans hf.2.1) rfl ⟨.initial, directory, Or.inr rfl, ?_⟩,
    ?_⟩
  · rw [hs₅]
    show { h₄.session with stateFile := .initial, directory } = _
    rw [hf.1, hkept]
  · rw [hr₅]
    show h₄.responses ++ _ = _
    rw [hf.2.2, hresp]

/-- A Create-Session request makes a directory, and says so when it answers with 200. -/
theorem createSession_spec (sessionId : ℕ) (h : Host) :
    ((createSession sessionId).after h).destination = h.destination ∧
      ∃ directory r, ((createSession sessionId).after h).session = { h.session with directory } ∧
        ((createSession sessionId).after h).responses = h.responses ++ [r] ∧
        r.receivedContentRange = none ∧
        (r.code = 200 ∨ r.code = 201 → r.sessionId = some sessionId) := by
  refine after_dispatch (P := fun h' : Host => h'.destination = h.destination ∧
    ∃ directory r, h'.session = { h.session with directory } ∧
      h'.responses = h.responses ++ [r] ∧ r.receivedContentRange = none ∧
        (r.code = 200 ∨ r.code = 201 → r.sessionId = some sessionId)) ?_
  have herror : ∀ hr, (serverException hr).response.code = 200 ∨
      (serverException hr).response.code = 201 → (none : Option ℕ) = some sessionId := by
    intro hr hcode
    have hmap : mapStatus hr = 200 ∨ mapStatus hr = 201 := hcode
    unfold mapStatus at hmap
    split_ifs at hmap <;> omega
  simp only [Prog.wp_bind]
  refine wp_systemCall (fun h₁ hf₁ => ?_) fun hr h₁ hf₁ =>
    ⟨hf₁.2.1, h.session.directory, _, hf₁.1, congrArg (· ++ [_]) hf₁.2.2, rfl, herror hr⟩
  simp only [Prog.wp_bind]
  refine wp_systemCall (fun h₂ hf₂ => ?_) fun hr h₂ hf₂ =>
    ⟨(hf₁.trans hf₂).2.1, h.session.directory, _, (hf₁.trans hf₂).1,
      congrArg (· ++ [_]) (hf₁.trans hf₂).2.2, rfl, herror hr⟩
  have hf := hf₁.trans hf₂
  simp only [Prog.wp_bind, wp_modifySession]
  refine wp_systemCall (fun h₃ hf₃ => ?_) fun hr h₃ hf₃ => ?_
  · refine ⟨hf₃.2.1.trans hf.2.1, true, _, hf₃.1.trans ?_,
      congrArg (· ++ [_]) (hf₃.2.2.trans hf.2.2), rfl, fun _ => rfl⟩
    show { h₂.session with directory := true } = _
    rw [hf.1]
  · refine ⟨hf₃.2.1.trans hf.2.1, true, _, hf₃.1.trans ?_,
      congrArg (· ++ [_]) (hf₃.2.2.trans hf.2.2), rfl, herror hr⟩
    show { h₂.session with directory := true } = _
    rw [hf.1]

end Host

end NtAdmin.Drizzle.Server
