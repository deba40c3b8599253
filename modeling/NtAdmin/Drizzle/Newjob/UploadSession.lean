import NtAdmin.Drizzle.Newjob.UploadInvariant

/-! What the requests of an honest client do to a session of the server. -/
namespace NtAdmin.Drizzle.Newjob

open NtAdmin.Lib NtAdmin.Drizzle.Server

/-- No cache file gets lost while the session is open for fragments. -/
def Keeps (t t' : Session) : Prop :=
  t'.directory = true → t'.stateFile.notifyCached = false →
    t.stateFile.notifyCached = false ∧ t'.gone = t.gone

/-- What every step of the server does to a session of the upload. -/
structure SessionStep (l : List UInt8) (t t' : Session) : Prop where
  faithful : Faithful l t'
  copies : l ∈ t.copies → l ∈ t'.copies
  directory : t'.directory = true → t.directory = true
  file : t'.gone = t.gone → t.file <+: t'.file

/-- The fragment request that a part of the body makes. -/
structure Carries (f : FragmentRequest) (m : FragmentMessage) : Prop where
  range : f.contentRange = some (m.rangeStart, m.rangeEnd, m.totalLength)
  length : f.contentLength = m.bodyLength
  body : f.preread ++ f.unread <+: m.body

section session
variable {l : List UInt8} {K : Prop} {t t' : Session} {m : FragmentMessage} {r : Response}
  {rangeEnd : ℕ}

theorem SessionStep.refl (h : Faithful l t) : SessionStep l t t :=
  ⟨h, id, id, fun _ => List.prefix_refl _⟩

theorem SessionStep.reaches (h : SessionStep l t t') (hk : Keeps t t') {b : ℕ}
    (hb : Reaches t b) : Reaches t' b := by
  rcases hd : t'.directory with _ | _
  · exact Or.inl hd
  rcases hn : t'.stateFile.notifyCached with _ | _
  · obtain ⟨hunnotified, hgone⟩ := hk hd hn
    rcases hb with hb | hb | hb
    · exact absurd (hb.symm.trans (h.directory hd)) Bool.false_ne_true
    · exact absurd (hunnotified.symm.trans hb) Bool.false_ne_true
    · exact Or.inr (Or.inr (Nat.le_trans hb (h.file hgone).length_le))
  · exact Or.inr (Or.inl hn)

/-- When the cache files only grow, a whole one stays. -/
theorem sessionStep_of_grows (hg : Grows t t') (h' : Pieces l t')
    (htotal : t'.stateFile.uploadFileSize = 0 ∨ t'.stateFile.uploadFileSize = l.length)
    (hannounced : t'.upload ≠ none → t'.stateFile.uploadFileSize = l.length)
    (hnotified : t'.stateFile.notifyCached = true → l ∈ t.copies ∨ l ∈ t'.copies)
    (hdirectory : t'.directory = true → t.directory = true) : SessionStep l t t' where
  faithful := { h' with
    total := htotal
    announced := hannounced
    notified := fun hn => (hnotified hn).elim (hg.mem_copies h'.beginning) id }
  copies := hg.mem_copies h'.beginning
  directory := hdirectory
  file := hg.file

/-- The numbers in the header of a fragment fit. -/
theorem Carries.fits {f : FragmentRequest} (hc : Carries f m) (hm : Exact l m)
    (hl : l.length < 2 ^ 64) : f.Fits := by
  intro a b total hr
  obtain ⟨rfl, rfl, rfl⟩ : m.rangeStart = a ∧ m.rangeEnd = b ∧ m.totalLength = total := by
    simpa using hc.range.symm.trans hr
  have := hm.range
  have := hm.rangeEnd
  have := hm.total
  omega

theorem checked_eq {f : FragmentRequest} {a len total : ℕ} (h : Checked t f a len total)
    (hc : Carries f m) (hm : Exact l m) :
    a = m.rangeStart ∧ len = m.bodyLength ∧ total = l.length := by
  obtain ⟨b, hb⟩ := h.range
  obtain ⟨rfl, -, rfl⟩ : m.rangeStart = a ∧ m.rangeEnd = b ∧ m.totalLength = total := by
    simpa using hc.range.symm.trans hb
  exact ⟨rfl, h.length.symm.trans hc.length, hm.total⟩

/-- The body that the server gets is a piece of the file. -/
theorem Carries.piece {f : FragmentRequest} (hc : Carries f m) (hm : Exact l m) :
    f.preread ++ f.unread <+: l.drop m.rangeStart := by
  refine hc.body.trans ?_
  rw [hm.body]
  exact List.take_prefix _ _

theorem fragmentStep_session {f : FragmentRequest} {starts : List (Option ℕ)} {r : Option Response}
    (hstep : FragmentStep f starts t t' r) (h : Faithful l t) (hc : Carries f m)
    (hm : Exact l m) : SessionStep l t t' := by
  have hinv := hstep.inv h.inv
  have hgrows := hstep.grows
  cases hstep with
  | refused e he => exact .refl h
  | failed checked cacheFile hfile e he =>
    obtain ⟨-, -, rfl⟩ := checked_eq checked hc hm
    exact sessionStep_of_grows hgrows ⟨hinv, h.bodies, h.uploading⟩ (Or.inr rfl) (fun _ => rfl)
      (fun hn => Or.inl (h.notified hn)) id
  | behind checked unnotified hlt =>
    obtain ⟨-, -, rfl⟩ := checked_eq checked hc hm
    exact sessionStep_of_grows hgrows ⟨hinv, h.bodies, h.uploading⟩ (Or.inr rfl) (fun _ => rfl)
      (fun hn => Or.inl (h.notified hn)) id
  | answered checked notified =>
    obtain ⟨rfl, rfl, rfl⟩ := checked_eq checked hc hm
    refine sessionStep_of_grows hgrows ⟨hinv, fun g hg => ?_, h.uploading⟩ (Or.inr rfl)
      (fun _ => rfl) (fun hn => Or.inl (h.notified hn)) id
    rcases List.mem_append.mp hg with hg | hg
    · exact h.bodies g hg
    · rw [List.mem_singleton.mp hg]
      exact hc.piece hm
  | opened fragment checked unnotified free hle preread hfragment =>
    obtain ⟨rfl, rfl, rfl⟩ := checked_eq checked hc hm
    refine sessionStep_of_grows hgrows ⟨hinv, h.bodies, fun u hu => ?_⟩ (Or.inr rfl)
      (fun _ => rfl) (fun hn => Or.inl (h.notified hn)) id
    rw [← Option.some.inj hu, hfragment]
    exact hc.piece hm

theorem fragmentStep_truthful {f : FragmentRequest} {starts : List (Option ℕ)}
    (hstep : FragmentStep f starts t t' (some r)) (h : Faithful l t) (hc : Carries f m)
    (hm : Exact l m) (hreaches : K → Reaches t m.rangeStart)
    (hr : r.receivedContentRange = some rangeEnd) : Truthful l K t' m r rangeEnd := by
  have hsession := fragmentStep_session hstep h hc hm
  cases hstep with
  | refused e he => exact absurd hr.symm (Option.some_ne_none _)
  | failed checked cacheFile hfile e he => exact absurd hr.symm (Option.some_ne_none _)
  | behind checked unnotified hlt =>
    obtain ⟨rfl, rfl, rfl⟩ := checked_eq checked hc hm
    obtain rfl := Option.some.inj hr
    refine ⟨fun _ hend => hsession.copies (h.whole hend), fun _ => Or.inr (Or.inr (Nat.le_refl _)),
      fun hK _ => ?_⟩
    -- the client is not ahead of the server
    rcases hreaches hK with hr | hr | hr
    · exact absurd (hr.symm.trans checked.directory) Bool.false_ne_true
    · exact absurd (unnotified.symm.trans hr) Bool.false_ne_true
    · exact absurd hlt (Nat.not_lt.mpr hr)
  | answered checked notified =>
    obtain ⟨rfl, rfl, rfl⟩ := checked_eq checked hc hm
    obtain rfl := Option.some.inj hr
    exact ⟨fun _ _ => hsession.copies (h.notified notified), fun _ => Or.inr (Or.inl notified),
      fun _ _ => hm.range⟩

/-- A fragment whose body the server goes on to read has the cache file open. -/
theorem fragmentStep_handling {f : FragmentRequest} {starts : List (Option ℕ)}
    (hstep : FragmentStep f starts t t' none) (hc : Carries f m) (hm : Exact l m) :
    ∃ u, t'.upload = some u ∧ u.fragment.rangeStart = m.rangeStart ∧
      u.fragment.rangeLength = m.bodyLength := by
  cases hstep with
  | opened fragment checked unnotified free hle preread hfragment =>
    obtain ⟨rfl, rfl, -⟩ := checked_eq checked hc hm
    exact ⟨_, rfl, by rw [hfragment], by rw [hfragment]⟩

/-- The file as it is when the body of a request is in, and has been sent to the backend. -/
theorem completed_session {config : DirectoryConfig} {backend : Backend} {d d' : List (List UInt8)}
    (hc : Completed config backend t d t' d' r) (h : Faithful l t) (hu : t.upload = none)
    (htotal : t.stateFile.uploadFileSize = l.length) : SessionStep l t t' := by
  have hinv := hc.inv h.inv hu
  have hgrows := hc.grows
  cases hc with
  | failed e he => exact .refl h
  | plain hplain => exact .refl h
  | moveFailed hsize notified asked hfile e he =>
    exact sessionStep_of_grows hgrows ⟨hinv, h.bodies, h.uploading⟩ h.total h.announced
      (fun hn => Or.inl (h.notified hn)) id
  | notified hsize notified httpStatus replyURL t'' d'' moved =>
    have hwhole := h.whole (hsize.trans htotal)
    have hmoved : t''.accepted = t.accepted ∧ t''.upload = t.upload ∧
        t''.stateFile = t.stateFile ∧ t''.directory = t.directory := by
      rcases moved with ⟨rfl, -⟩ | ⟨rfl, -⟩
      · exact ⟨rfl, rfl, rfl, rfl⟩
      · exact ⟨rfl, rfl, rfl, rfl⟩
    obtain ⟨haccepted, hupload, hstate, hdirectory⟩ := hmoved
    have hpieces : ∀ t' : Session, SessionInv t' → t'.accepted = t''.accepted →
        t'.upload = t''.upload → Pieces l t' := fun t' hinv' ha hu' =>
      ⟨hinv', fun f hf => h.bodies f (haccepted ▸ ha ▸ hf),
        fun u hu'' => h.uploading u (hupload ▸ hu' ▸ hu'')⟩
    split_ifs at hinv hgrows ⊢ with hkeep
    · refine sessionStep_of_grows hgrows (hpieces _ hinv rfl rfl) (Or.inr ?_) (fun _ => ?_)
        (fun _ => Or.inl hwhole) fun hd => hdirectory ▸ hd
      · exact (congrArg StateFile.uploadFileSize hstate).trans htotal
      · exact (congrArg StateFile.uploadFileSize hstate).trans htotal
    · refine sessionStep_of_grows hgrows (hpieces _ hinv rfl rfl) (Or.inr ?_) (fun _ => ?_)
        (fun _ => Or.inl hwhole) fun hd => hdirectory ▸ hd
      · exact (congrArg StateFile.uploadFileSize hstate).trans htotal
      · exact (congrArg StateFile.uploadFileSize hstate).trans htotal

theorem completed_truthful {config : DirectoryConfig} {backend : Backend} {d d' : List (List UInt8)}
    (hc : Completed config backend t d t' d' r) (h : Faithful l t) (hu : t.upload = none)
    (htotal : t.stateFile.uploadFileSize = l.length)
    (hfull : m.rangeStart + m.bodyLength ≤ t.file.length) (hk : K → Keeps t t')
    (hr : r.receivedContentRange = some rangeEnd) : Truthful l K t' m r rangeEnd := by
  have hsession := completed_session hc h hu htotal
  have hend : rangeEnd = t.file.length := by
    cases hc with
    | failed e he => exact absurd hr.symm (Option.some_ne_none _)
    | plain hplain => exact (Option.some.inj hr).symm
    | moveFailed hsize notified asked hfile e he => exact absurd hr.symm (Option.some_ne_none _)
    | notified hsize notified httpStatus replyURL t'' d'' moved => exact (Option.some.inj hr).symm
  subst hend
  exact ⟨fun _ hlen => hsession.copies (h.whole hlen),
    fun hK => hsession.reaches (hk hK) (Or.inr (Or.inr (Nat.le_refl _))), fun _ _ => hfull⟩

section io
variable {config : DirectoryConfig} {ev : PumpEvent} {backend : Backend} {u : Server.Upload}
  {d d' : List (List UInt8)}

theorem pieces_pumped (h : Pieces l t) (hu : t.upload = some u) (hev : ev.Enabled u.pump) :
    Pieces l (t.pumped u (ev.step u.pump)) := by
  refine ⟨h.inv.pumped hu hev, h.bodies, fun u' hu' => ?_⟩
  rw [← Option.some.inj hu']
  exact h.uploading u hu

theorem faithful_closed (h : Faithful l t) (hu : t.upload = some u) (hev : ev.Enabled u.pump) :
    SessionStep l t ((t.pumped u (ev.step u.pump)).closed u) := by
  have hgrows : Grows t ((t.pumped u (ev.step u.pump)).closed u) :=
    (h.inv.grows_pumped hu hev).trans (grows_of_gone_eq rfl (List.prefix_refl _))
  refine sessionStep_of_grows hgrows ⟨h.inv.pumped_closed hu hev, fun f hf => ?_, fun u' hu' => ?_⟩
    h.total (fun hne => absurd rfl hne) (fun hn => Or.inl (h.notified hn)) id
  · rcases List.mem_append.mp hf with hf | hf
    · exact h.bodies f hf
    · rw [List.mem_singleton.mp hf]
      exact h.uploading u hu
  · exact absurd hu' (Option.some_ne_none _).symm

theorem SessionStep.trans {t'' : Session} (h : SessionStep l t t') (h' : SessionStep l t' t'')
    (hgone : t.gone <+: t'.gone) (hgone' : t'.gone <+: t''.gone) : SessionStep l t t'' where
  faithful := h'.faithful
  copies hmem := h'.copies (h.copies hmem)
  directory hd := h.directory (h'.directory hd)
  file heq := by
    have hle : t'.gone = t.gone := (hgone.eq_of_length_le (heq ▸ hgone'.length_le)).symm
    exact (h.file hle).trans (h'.file (heq.trans hle.symm))

/-- What an event of the body pump does to the session. -/
theorem ioStep_session {r : Option Response} (hstep : IoStep config ev backend t d t' d' r)
    (h : Faithful l t) (hu : t.upload = some u) (hev : ev.Enabled u.pump) :
    SessionStep l t t' := by
  have hannounced := h.announced (by simp [hu])
  cases hstep with
  | going u' hu' hcalls =>
    obtain rfl := Option.some.inj (hu.symm.trans hu')
    exact sessionStep_of_grows (h.inv.grows_pumped hu hev) (pieces_pumped h.toPieces hu hev) h.total
      (fun _ => hannounced) (fun hn => Or.inl (h.notified hn)) id
  | finished u' hu' n cs hcalls t'' d'' r completed =>
    obtain rfl := Option.some.inj (hu.symm.trans hu')
    have hclosed := faithful_closed h hu hev
    exact hclosed.trans (completed_session completed hclosed.faithful rfl hannounced)
      (List.prefix_refl _) completed.grows.1
  | failed u' hu' e n cs hcalls =>
    obtain rfl := Option.some.inj (hu.symm.trans hu')
    exact faithful_closed h hu hev

/-- A body that is not at its end keeps the cache file open. -/
theorem ioStep_handling (hstep : IoStep config ev backend t d t' d' none) (hu : t.upload = some u) :
    ∃ u', t'.upload = some u' ∧ u'.fragment = u.fragment := by
  cases hstep with
  | going u' hu' hcalls =>
    obtain rfl := Option.some.inj (hu.symm.trans hu')
    exact ⟨_, rfl, rfl⟩

/-- An answer that comes with the end of the body. -/
theorem ioStep_truthful (hstep : IoStep config ev backend t d t' d' (some r)) (h : Faithful l t)
    (hu : t.upload = some u) (hev : ev.Enabled u.pump) (hstart : u.fragment.rangeStart = m.rangeStart)
    (hlen : u.fragment.rangeLength = m.bodyLength) (hk : K → Keeps t t')
    (hr : r.receivedContentRange = some rangeEnd) : Truthful l K t' m r rangeEnd := by
  cases hstep with
  | finished u' hu' n cs hcalls t'' d'' r completed =>
    obtain rfl := Option.some.inj (hu.symm.trans hu')
    have hannounced := h.announced (by simp [hu])
    have hclosed := faithful_closed h hu hev
    refine completed_truthful completed hclosed.faithful rfl hannounced ?_ (fun hK => ?_) hr
    · -- all of the body has been written
      have hup := h.inv.uploading_pumped hu hev
      have hsize := hup.pump.complete hcalls
      have hbase : u.fragment.rangeStart ≤ u.base.length := hup.start
      have hfile : ((t.pumped u (ev.step u.pump)).closed u).file =
          u.base ++ bytesOf (ev.step u.pump).written := hup.file_eq
      have hwritten : (bytesOf (ev.step u.pump).written).length =
          u.fragment.rangeLength - u.fragment.drained u.base := hsize
      unfold Accepted.drained at hwritten
      rw [hfile, List.length_append]
      omega
    · intro hd hn
      obtain ⟨hn', hgone⟩ := hk hK hd hn
      exact ⟨hn', hgone⟩
  | failed u' hu' e n cs hcalls => exact absurd hr.symm (Option.some_ne_none _)

end io

/-- The session without its cache file. -/
theorem dropFile_session (h : Faithful l t) (hu : t.upload = none) (stateFile : StateFile)
    (hstate : stateFile = t.stateFile ∨ stateFile = .initial) (directory : Bool)
    (hd : directory = true → t.directory = true) :
    SessionStep l t { t.dropFile with stateFile, directory } := by
  have hgrows : Grows t { t.dropFile with stateFile, directory } := by
    rcases t.dropFile_eq with ⟨heq, hfile⟩ | heq
    · rw [heq]
      exact grows_of_gone_eq rfl (List.prefix_refl _)
    · rw [heq]
      exact grows_moveAway t
  have hsize : stateFile.uploadFileSize = 0 ∨ stateFile.uploadFileSize = l.length := by
    rcases hstate with rfl | rfl
    · exact h.total
    · exact Or.inl rfl
  have htotal : stateFile.uploadFileSize < 2 ^ 64 := by
    rcases hstate with rfl | rfl
    · exact h.inv.total
    · decide
  refine sessionStep_of_grows hgrows ⟨?_, h.bodies, h.uploading⟩ hsize (fun hne => absurd hu hne)
    (fun hn => ?_) hd
  · exact (h.inv.dropFile hu).reset hu rfl htotal directory
  · rcases hstate with rfl | rfl
    · exact Or.inl (h.notified hn)
    · exact Bool.noConfusion hn

/-- A Close-Session request takes the cache file away, or nothing. -/
theorem closeStep_session {config : DirectoryConfig} {d d' : List (List UInt8)}
    (hstep : CloseStep config t d t' d' r) (h : Faithful l t) : SessionStep l t t' := by
  cases hstep with
  | refused e he => exact .refl h
  | taken hexists free d' moved deleted stateFile hstate directory r hr =>
    exact dropFile_session h free stateFile hstate directory fun _ => hexists

end session

end NtAdmin.Drizzle.Newjob
