import NtAdmin.Drizzle.Server.SessionIntegrity

/-! Any sequence of Fragment requests of one session. -/
namespace NtAdmin.Drizzle.Server

open NtAdmin.Lib

/-- What happens to a session: a Fragment request arrives, or the system goes on with the body of
the one under way, the backend being at hand. -/
inductive SessionEvent
  | fragment (f : FragmentRequest) (starts : List (Option ℕ))
  | io (ev : PumpEvent) (backend : Backend)

namespace SessionEvent

/-- The sums of the header's numbers do not wrap, and the system does what it can do. -/
def Enabled : SessionEvent → Host → Prop
  | fragment f _, _ => f.NoWrap
  | io ev _, h => ∃ u, h.session.upload = some u ∧ ev.Enabled u.pump

def step (config : DirectoryConfig) : SessionEvent → Host → Host
  | fragment f starts, h => (Host.fragment config f starts).after h
  | io ev backend, h => (Host.io config ev backend).after h

/-- A backend that is notified by reference may ask for the cache file. -/
def AsksForFile (config : DirectoryConfig) : SessionEvent → Prop
  | fragment _ _ => False
  | io _ backend => config.notificationType = .postByRef ∧ backend.asksForFile = true

end SessionEvent

/-- The session that a Create-Session request makes. -/
def Session.created : Session := ⟨true, .initial, none, none, [], []⟩

theorem sessionInv_created : SessionInv .created :=
  ⟨Nat.zero_le _, by decide, settled_nil 0, fun _ _ hfile => absurd hfile (by simp [Session.created]),
    fun _ hu => absurd hu (Option.some_ne_none _).symm⟩

theorem announced_created : Announced .created :=
  ⟨fun _ => ⟨rfl, rfl⟩, fun _ ht => absurd ht List.not_mem_nil,
    fun _ hm => absurd hm List.not_mem_nil⟩

/-- The cache files that are gone when a session goes from `s` to `s'` are those that come to the
destination, of which there are none unless one is `asked` for. -/
def Moves (asked : Prop) (s : Session) (d : List (List UInt8)) (s' : Session)
    (d' : List (List UInt8)) : Prop :=
  ∃ moved, s'.gone = s.gone ++ moved ∧ d' = d ++ moved ∧ (asked ∨ moved = [])

section moves
variable {asked asked' : Prop} {s s' s'' : Session} {d d' d'' : List (List UInt8)}

theorem Moves.refl (hgone : s'.gone = s.gone) (hd : d' = d) : Moves asked s d s' d' :=
  ⟨[], by rw [hgone, List.append_nil], by rw [hd, List.append_nil], Or.inr rfl⟩

theorem Moves.trans (h : Moves asked s d s' d') (h' : Moves asked' s' d' s'' d'') :
    Moves (asked ∨ asked') s d s'' d'' := by
  obtain ⟨moved, hgone, hd, hasked⟩ := h
  obtain ⟨moved', hgone', hd', hasked'⟩ := h'
  refine ⟨moved ++ moved', by rw [hgone', hgone, List.append_assoc],
    by rw [hd', hd, List.append_assoc], ?_⟩
  rcases hasked with hasked | rfl
  · exact Or.inl (Or.inl hasked)
  · exact hasked'.imp Or.inr id

theorem Moves.gone_eq (h : Moves asked s d s' d') (hasked : ¬asked) : s'.gone = s.gone := by
  obtain ⟨moved, hgone, -, hmoved⟩ := h
  rw [hgone, hmoved.resolve_left hasked, List.append_nil]

end moves

section fragment
variable {f : FragmentRequest} {starts : List (Option ℕ)} {s s' : Session} {r : Option Response}

/-- A session keeps what holds of it when the total length is announced that it has already. -/
theorem SessionInv.announce {a len t : ℕ} (h : SessionInv s) (hc : Checked s f a len t)
    {cacheFile : Option (List UInt8)} (hfile : cacheFile = s.cacheFile ∨ cacheFile = some s.file) :
    SessionInv { s.announce t with cacheFile } := by
  have hle : s.stateFile.uploadFileSize ≤ t := by
    rcases hc.announced with h0 | heq
    · omega
    · exact Nat.le_of_eq heq
  have hsame : Session.file { s.announce t with cacheFile } = s.file := by
    rcases hfile with rfl | rfl <;> rfl
  refine ⟨?_, hc.total, ?_, h.gone, fun u hu => ?_⟩
  · rw [hsame]
    exact Nat.le_trans h.size hle
  · have hsettled := h.settled
    unfold Session.settledFile at hsettled ⊢
    rw [hsame]
    exact hsettled
  · have hup := h.uploading u hu
    refine { hup with
      fits := Nat.le_trans hup.fits hle, base := Nat.le_trans hup.base hle, file := ?_ }
    rcases hfile with rfl | rfl
    · exact hup.file
    · exact congrArg some hup.file_eq

theorem FragmentStep.inv (hstep : FragmentStep f starts s s' r) (h : SessionInv s) :
    SessionInv s' := by
  cases hstep with
  | refused e he => exact h
  | failed checked cacheFile hfile e he => exact h.announce checked hfile
  | behind checked unnotified hlt => exact h.announce checked (Or.inr rfl)
  | answered checked notified =>
    have h' := h.announce checked (Or.inl rfl)
    exact ⟨h'.size, h'.total, h'.settled.append_answered rfl rfl,
      fun copy file hfile => (h'.gone copy file hfile).append _,
      fun u hu => { h'.uploading u hu with }⟩
  | @opened a len t fragment checked unnotified free hle preread hfragment =>
    have h' := h.announce checked (Or.inr rfl)
    have hsettled := h'.settled
    unfold Session.settledFile at hsettled
    simp only [Session.announce_upload, free] at hsettled
    refine ⟨h'.size, h'.total, hsettled, h'.gone, fun u hu => ?_⟩
    obtain rfl := Option.some.inj hu
    subst hfragment
    refine ⟨hle, rfl, checked.fits, h'.size, ?_, ?_⟩
    · have hlen := checked.fits
      have htotal := checked.total
      have hsize : s.file.length ≤ t := h'.size
      refine pumpInv_init starts ?_ (Nat.lt_of_le_of_lt hsize htotal) ?_
      · unfold Accepted.drained
        show min (s.file.length - a) len + (len - min (s.file.length - a) len) < 2 ^ 64
        omega
      · unfold Accepted.drained
        show f.preread.length ≤ min (s.file.length - a) len + (len - min (s.file.length - a) len)
        omega
    · exact congrArg some (List.append_nil _).symm

theorem FragmentStep.grows (hstep : FragmentStep f starts s s' r) : Grows s s' := by
  cases hstep with
  | refused e he => exact grows_of_gone_eq rfl (List.prefix_refl _)
  | failed checked cacheFile hfile e he =>
    refine grows_of_gone_eq rfl ?_
    rcases hfile with rfl | rfl <;> exact List.prefix_refl _
  | behind checked unnotified hlt => exact grows_of_gone_eq rfl (List.prefix_refl _)
  | answered checked notified => exact grows_of_gone_eq rfl (List.prefix_refl _)
  | opened fragment checked unnotified free hle preread hfragment =>
    exact grows_of_gone_eq rfl (List.prefix_refl _)

theorem FragmentStep.gone_eq (hstep : FragmentStep f starts s s' r) : s'.gone = s.gone := by
  cases hstep with
  | refused e he => rfl
  | failed checked cacheFile hfile e he => rfl
  | behind checked unnotified hlt => rfl
  | answered checked notified => rfl
  | opened fragment checked unnotified free hle preread hfragment => rfl

/-- All fragments announce the length in the state file, which no two of them change. -/
theorem Announced.announce {a len t : ℕ} (h : Announced s) (hc : Checked s f a len t)
    (hpos : 0 < t) : Announced (s.announce t) := by
  rcases hc.announced with h0 | heq
  · obtain ⟨htotals, hgone⟩ := h.unset h0
    refine ⟨fun h0' => absurd h0' (Nat.ne_of_gt hpos), fun t' ht' => ?_, fun m hm => ?_⟩
    · exact absurd (htotals ▸ ht' : t' ∈ []) List.not_mem_nil
    · exact absurd (hgone ▸ hm : m ∈ []) List.not_mem_nil
  · exact ⟨fun h0' => absurd h0' (Nat.ne_of_gt hpos), fun t' ht' => (h.total t' ht').trans heq,
      fun m hm => (h.gone m hm).trans heq⟩

theorem FragmentStep.announced (hstep : FragmentStep f starts s s' r) (hf : f.NoWrap)
    (h : Announced s) : Announced s' := by
  cases hstep with
  | refused e he => exact h
  | failed checked cacheFile hfile e he =>
    have h' := h.announce checked (checked.positive hf)
    exact ⟨h'.unset, h'.total, h'.gone⟩
  | behind checked unnotified hlt =>
    have h' := h.announce checked (checked.positive hf)
    exact ⟨h'.unset, h'.total, h'.gone⟩
  | @answered a len t checked notified =>
    have hpos := checked.positive hf
    have h' := h.announce checked hpos
    refine ⟨fun h0 => absurd h0 (Nat.ne_of_gt hpos), fun t' ht' => ?_, h'.gone⟩
    have hmem : t' ∈ s.totals ∨ t' = t := by
      simp only [Session.totals, List.map_append, List.mem_append, Session.announce_upload] at ht' ⊢
      rcases ht' with (ht' | ht') | ht'
      · exact Or.inl (Or.inl ht')
      · exact Or.inr (List.mem_singleton.mp ht')
      · exact Or.inl (Or.inr ht')
    rcases hmem with hmem | rfl
    · exact h'.total t' hmem
    · rfl
  | @opened a len t fragment checked unnotified free hle preread hfragment =>
    have hpos := checked.positive hf
    have h' := h.announce checked hpos
    refine ⟨fun h0 => absurd h0 (Nat.ne_of_gt hpos), fun t' ht' => ?_, h'.gone⟩
    have hmem : t' ∈ s.totals ∨ t' = t := by
      simp only [Session.totals, List.mem_append, Session.announce_accepted, hfragment] at ht' ⊢
      rcases ht' with ht' | ht'
      · exact Or.inl (Or.inl ht')
      · exact Or.inr (List.mem_singleton.mp ht')
    rcases hmem with hmem | rfl
    · exact h'.total t' hmem
    · rfl

end fragment

section completed
variable {config : DirectoryConfig} {backend : Backend} {s s' : Session}
  {d d' : List (List UInt8)} {r : Response}

theorem SessionInv.cacheNotification (h : SessionInv s) (httpStatus : ℕ) (replyURL : String) :
    SessionInv (s.cacheNotification httpStatus replyURL) :=
  ⟨h.size, h.total, h.settled, h.gone, fun u hu => { h.uploading u hu with }⟩

theorem Announced.cacheNotification (h : Announced s) (httpStatus : ℕ) (replyURL : String) :
    Announced (s.cacheNotification httpStatus replyURL) :=
  ⟨h.unset, h.total, h.gone⟩

/-- Only the whole file goes to the destination. -/
theorem Announced.moveAway (h : Announced s) (hsize : s.file.length = s.stateFile.uploadFileSize)
    (htotals : s.totals ≠ []) : Announced s.moveAway := by
  refine ⟨fun h0 => absurd (h.unset h0).1 htotals, h.total, fun m hm => ?_⟩
  rcases List.mem_append.mp hm with hm | hm
  · exact h.gone m hm
  · rw [List.mem_singleton.mp hm]
    exact hsize

/-- A property that survives a kept answer and a move of the whole file survives the end of a
request. -/
theorem Completed.induction (hc : Completed config backend s d s' d' r) {P : Session → Prop} (h : P s)
    (hmove : s.file.length = s.stateFile.uploadFileSize → P s.moveAway)
    (hkeep : ∀ s' httpStatus replyURL, P s' → P (s'.cacheNotification httpStatus replyURL)) :
    P s' := by
  cases hc with
  | failed e he => exact h
  | plain hplain => exact h
  | moveFailed hsize notified asked hfile e he => exact hmove hsize
  | notified hsize notified httpStatus replyURL s'' d'' moved =>
    have hs'' : P s'' := by
      rcases moved with ⟨rfl, -⟩ | ⟨rfl, -⟩
      · exact h
      · exact hmove hsize
    split_ifs
    · exact hkeep _ _ _ hs''
    · exact hs''

theorem Completed.inv (hc : Completed config backend s d s' d' r) (h : SessionInv s)
    (hu : s.upload = none) : SessionInv s' :=
  hc.induction h (fun _ => h.moveAway hu) fun _ _ _ h => h.cacheNotification _ _

theorem Completed.announced (hc : Completed config backend s d s' d' r) (h : Announced s)
    (htotals : s.totals ≠ []) : Announced s' :=
  hc.induction h (fun hsize => h.moveAway hsize htotals) fun _ _ _ h => h.cacheNotification _ _

theorem Completed.grows (hc : Completed config backend s d s' d' r) : Grows s s' :=
  hc.induction (grows_of_gone_eq rfl (List.prefix_refl _)) (fun _ => grows_moveAway s)
    fun _ _ _ h => h

/-- A cache file that is gone is at the destination, and the backend has asked for it. -/
theorem Completed.moves (hc : Completed config backend s d s' d' r) :
    Moves (config.notificationType = .postByRef ∧ backend.asksForFile = true) s d s' d' := by
  cases hc with
  | failed e he => exact .refl rfl rfl
  | plain hplain => exact .refl rfl rfl
  | moveFailed hsize notified asked hfile e he => exact ⟨[s.file], rfl, rfl, Or.inl ⟨notified, asked⟩⟩
  | notified hsize notified httpStatus replyURL s'' d'' moved =>
    have hmoves : Moves (config.notificationType = .postByRef ∧ backend.asksForFile = true)
        s d s'' d' := by
      rcases moved with ⟨rfl, rfl⟩ | ⟨rfl, rfl, -, hnotified, hasked⟩
      · exact .refl rfl rfl
      · exact ⟨[s.file], rfl, rfl, Or.inl ⟨hnotified, hasked⟩⟩
    split_ifs
    · exact hmoves
    · exact hmoves

end completed

section io
variable {config : DirectoryConfig} {ev : PumpEvent} {backend : Backend} {s s' : Session}
  {u : Upload} {d d' : List (List UInt8)} {r : Option Response}

theorem totals_pumped (hu : s.upload = some u) (pump : Pump) :
    (s.pumped u pump).totals = s.totals := by
  unfold Session.totals
  rw [hu]
  rfl

theorem totals_closed (hu : s.upload = some u) (pump : Pump) :
    ((s.pumped u pump).closed u).totals = s.totals := by
  unfold Session.totals
  rw [hu]
  simp [Session.closed, Session.pumped]

theorem totals_ne_nil (hu : s.upload = some u) : s.totals ≠ [] := by
  unfold Session.totals
  rw [hu]
  simp

theorem SessionInv.pumped_closed (h : SessionInv s) (hu : s.upload = some u)
    (hev : ev.Enabled u.pump) : SessionInv ((s.pumped u (ev.step u.pump)).closed u) := by
  have hu' : (s.pumped u (ev.step u.pump)).upload = some { u with pump := ev.step u.pump } := rfl
  have hclosed := (h.pumped hu hev).closed hu'
  exact hclosed

theorem IoStep.inv (hstep : IoStep config ev backend s d s' d' r) (h : SessionInv s)
    (hu : s.upload = some u) (hev : ev.Enabled u.pump) : SessionInv s' := by
  cases hstep with
  | going u' hu' hcalls =>
    obtain rfl := Option.some.inj (hu.symm.trans hu')
    exact h.pumped hu hev
  | finished u' hu' n cs hcalls s'' d'' r completed =>
    obtain rfl := Option.some.inj (hu.symm.trans hu')
    exact completed.inv (h.pumped_closed hu hev) rfl
  | failed u' hu' e n cs hcalls =>
    obtain rfl := Option.some.inj (hu.symm.trans hu')
    exact h.pumped_closed hu hev

theorem IoStep.announced (hstep : IoStep config ev backend s d s' d' r) (h : Announced s) :
    Announced s' := by
  have hpumped : ∀ u, s.upload = some u → ∀ pump, Announced (s.pumped u pump) := fun u hu pump =>
    ⟨fun h0 => ⟨(totals_pumped hu pump).trans (h.unset h0).1, (h.unset h0).2⟩,
      fun t ht => h.total t (totals_pumped hu pump ▸ ht), h.gone⟩
  have hclosed : ∀ u, s.upload = some u → ∀ pump, Announced ((s.pumped u pump).closed u) :=
    fun u hu pump =>
    ⟨fun h0 => ⟨(totals_closed hu pump).trans (h.unset h0).1, (h.unset h0).2⟩,
      fun t ht => h.total t (totals_closed hu pump ▸ ht), h.gone⟩
  cases hstep with
  | going u hu hcalls => exact hpumped u hu _
  | finished u hu n cs hcalls s' d' r completed =>
    exact completed.announced (hclosed u hu _) (totals_closed hu _ ▸ totals_ne_nil hu)
  | failed u hu e n cs hcalls => exact hclosed u hu _

/-- The file grows by what has been written. -/
theorem SessionInv.grows_pumped (h : SessionInv s) (hu : s.upload = some u)
    (hev : ev.Enabled u.pump) : Grows s (s.pumped u (ev.step u.pump)) := by
  refine grows_of_gone_eq rfl ?_
  rw [(h.uploading u hu).file_eq, (h.uploading_pumped hu hev).file_eq]
  obtain ⟨ws, hws⟩ := ev.written_grows u.pump
  rw [← hws, bytesOf_append, ← List.append_assoc]
  exact List.prefix_append _ _

theorem IoStep.grows (hstep : IoStep config ev backend s d s' d' r) (h : SessionInv s)
    (hu : s.upload = some u) (hev : ev.Enabled u.pump) : Grows s s' := by
  have hgrows := h.grows_pumped hu hev
  have hclosed : Grows s ((s.pumped u (ev.step u.pump)).closed u) :=
    hgrows.trans (grows_of_gone_eq rfl (List.prefix_refl _))
  cases hstep with
  | going u' hu' hcalls =>
    obtain rfl := Option.some.inj (hu.symm.trans hu')
    exact hgrows
  | finished u' hu' n cs hcalls s'' d'' r completed =>
    obtain rfl := Option.some.inj (hu.symm.trans hu')
    exact hclosed.trans completed.grows
  | failed u' hu' e n cs hcalls =>
    obtain rfl := Option.some.inj (hu.symm.trans hu')
    exact hclosed

theorem IoStep.moves (hstep : IoStep config ev backend s d s' d' r) :
    Moves (config.notificationType = .postByRef ∧ backend.asksForFile = true) s d s' d' := by
  cases hstep with
  | going u hu hcalls => exact .refl rfl rfl
  | finished u hu n cs hcalls s'' d'' r completed => exact completed.moves
  | failed u hu e n cs hcalls => exact .refl rfl rfl

end io

section run
variable {config : DirectoryConfig} {e : SessionEvent} {h : Host}

/-- Every event keeps the invariants and lets the cache files grow. -/
theorem SessionEvent.step_spec (config : DirectoryConfig) (he : e.Enabled h) (hinv : SessionInv h.session) :
    SessionInv (e.step config h).session ∧ Grows h.session (e.step config h).session ∧
      (Announced h.session → Announced (e.step config h).session) := by
  cases e with
  | fragment f starts =>
    obtain ⟨r, hstep, -⟩ := Host.fragment_spec config starts he.fits h
    exact ⟨hstep.inv hinv, hstep.grows, hstep.announced he⟩
  | io ev backend =>
    obtain ⟨u, hu, hev⟩ := he
    obtain ⟨r, hstep, -⟩ := Host.io_spec config ev backend (show h.session.upload ≠ none by simp [hu])
    exact ⟨hstep.inv hinv hu hev, hstep.grows hinv hu hev, hstep.announced⟩

/-- The cache files of a session grow over a run. -/
theorem runAll_grows {es : List SessionEvent} (hinv : SessionInv h.session)
    (hes : Along (SessionEvent.step config) SessionEvent.Enabled es h) :
    Grows h.session (runAll (SessionEvent.step config) es h).session := by
  induction es generalizing h with
  | nil => exact grows_of_gone_eq rfl (List.prefix_refl _)
  | cons e es ih =>
    obtain ⟨hinv', hgrows, -⟩ := SessionEvent.step_spec config hes.1 hinv
    exact hgrows.trans (ih hinv' hes.2)

theorem SessionEvent.step_moves (config : DirectoryConfig) (he : e.Enabled h) :
    Moves (e.AsksForFile config) h.session h.destination (e.step config h).session
      (e.step config h).destination := by
  cases e with
  | fragment f starts =>
    obtain ⟨r, hstep, hd, -⟩ := Host.fragment_spec config starts he.fits h
    exact .refl hstep.gone_eq hd
  | io ev backend =>
    obtain ⟨u, hu, hev⟩ := he
    obtain ⟨r, hstep, -⟩ := Host.io_spec config ev backend (show h.session.upload ≠ none by simp [hu])
    exact hstep.moves

theorem runAll_moves {es : List SessionEvent}
    (hes : Along (SessionEvent.step config) SessionEvent.Enabled es h) :
    Moves (∃ e ∈ es, e.AsksForFile config) h.session h.destination
      (runAll (SessionEvent.step config) es h).session
      (runAll (SessionEvent.step config) es h).destination := by
  induction es generalizing h with
  | nil => exact .refl rfl rfl
  | cons e es ih =>
    obtain ⟨moved, hgone, hd, hasked⟩ := (SessionEvent.step_moves config hes.1).trans (ih hes.2)
    refine ⟨moved, hgone, hd, hasked.imp_left fun hasked => ?_⟩
    rcases hasked with hasked | ⟨e', he', hasked⟩
    · exact ⟨e, List.mem_cons_self, hasked⟩
    · exact ⟨e', List.mem_cons_of_mem e he', hasked⟩

theorem runAll_inv {es : List SessionEvent} (hs : h.session = .created)
    (hes : Along (SessionEvent.step config) SessionEvent.Enabled es h) :
    SessionInv (runAll (SessionEvent.step config) es h).session ∧
      Announced (runAll (SessionEvent.step config) es h).session := by
  refine runAll_invariant (I := fun h : Host => SessionInv h.session ∧ Announced h.session)
    (fun e h he hi => ?_) ?_ hes
  · obtain ⟨hinv, -, hannounced⟩ := SessionEvent.step_spec config he hi.1
    exact ⟨hinv, hannounced hi.2⟩
  · rw [hs]
    exact ⟨sessionInv_created, announced_created⟩

theorem Supplied.eq_nil {copy : ℕ} {file : List UInt8} (h : Supplied [] copy file) : file = [] := by
  refine List.eq_nil_iff_length_eq_zero.mpr (Nat.eq_zero_of_not_pos fun hpos => ?_)
  obtain ⟨f, hf, -⟩ := h 0 hpos
  exact absurd hf (Option.some_ne_none f).symm

/-- In every run the cache files grow by appending, each byte of each is the one that the first
accepted fragment to cover its offset brought, and the accepted fragments agree on a total length,
which no cache file exceeds and which the cache files that have gone have. Those have gone to the
destination, and none does unless a backend that is notified by reference asks for it. -/
theorem session_keeps_first_bytes (config : DirectoryConfig) {h : Host} (hs : h.session = .created)
    {es es' : List SessionEvent}
    (hes : Along (SessionEvent.step config) SessionEvent.Enabled (es ++ es') h) :
    let h₁ := runAll (SessionEvent.step config) es h
    let h₂ := runAll (SessionEvent.step config) (es ++ es') h
    let s := h₁.session
    let s' := h₂.session
    Grows s s' ∧
      (∃ moved, s'.gone = s.gone ++ moved ∧ h₂.destination = h₁.destination ++ moved) ∧
      ((∀ e ∈ es', ¬e.AsksForFile config) → s'.gone = s.gone ∧ s.file <+: s'.file) ∧
      (∀ copy file, s'.copies[copy]? = some file → Supplied s'.fragments copy file) ∧
      (s'.fragments = [] → s'.copies = [[]]) ∧
      ∀ f ∈ s'.fragments, (∀ g ∈ s'.fragments, g.totalLength = f.totalLength) ∧
        s'.file.length ≤ f.totalLength ∧ ∀ file ∈ s'.gone, file.length = f.totalLength := by
  intro h₁ h₂ s s'
  obtain ⟨hes₁, hes₂⟩ := (along_append es es' h).mp hes
  obtain ⟨hinv, -⟩ := runAll_inv hs hes₁
  obtain ⟨hinv', hannounced⟩ := runAll_inv hs hes
  have hgrows : Grows s s' := by
    have := runAll_grows hinv hes₂
    rwa [← runAll_append] at this
  have hmoves : Moves (∃ e ∈ es', e.AsksForFile config) s h₁.destination s' h₂.destination := by
    have := runAll_moves hes₂
    rwa [← runAll_append] at this
  refine ⟨hgrows, ?_, fun hquiet => ?_, fun copy file hfile => ?_, fun hnil => ?_, fun f hf => ?_⟩
  · obtain ⟨moved, hgone, hd, -⟩ := hmoves
    exact ⟨moved, hgone, hd⟩
  · have hgone := hmoves.gone_eq fun hasked => by
      obtain ⟨e, he, hasked⟩ := hasked
      exact hquiet e he hasked
    exact ⟨hgone, hgrows.file hgone⟩
  · exact hinv'.supplied hfile
  · have hfile : s'.file = [] := (hnil ▸ hinv'.settled_fragments.bytes : Supplied [] _ _).eq_nil
    have hgone : s'.gone = [] := by
      rcases hm : s'.gone with _ | ⟨m, ms⟩
      · rfl
      · have haccepted : s'.accepted = [] := (List.append_eq_nil_iff.mp hnil).1
        have hnone : m = [] := by
          have := hinv'.gone 0 m (by rw [hm]; rfl)
          rw [haccepted] at this
          exact this.eq_nil
        have hlen := hannounced.gone m (by rw [hm]; exact List.mem_cons_self)
        rw [hnone] at hlen
        exact hm.symm.trans (hannounced.unset hlen.symm).2
    rw [Session.copies, hfile, hgone]
    rfl
  · have htotal : ∀ g ∈ s'.fragments, g.totalLength = s'.stateFile.uploadFileSize := fun g hg =>
      hannounced.total _ (s'.totals_eq ▸ List.mem_map_of_mem hg)
    refine ⟨fun g hg => (htotal g hg).trans (htotal f hf).symm, ?_, fun file hfile => ?_⟩
    · exact (htotal f hf).symm ▸ hinv'.size
    · exact (hannounced.gone file hfile).trans (htotal f hf).symm

end run

/-- Two fragments of one session, and a backend that asks for the file and answers with 500: behind
the first fragment the file is empty again, and the second one supplies its bytes anew. -/
theorem cacheFile_starts_again :
    ¬ ∀ (config : DirectoryConfig) (h : Host), h.session = .created →
      ∀ es es' : List SessionEvent,
        Along (SessionEvent.step config) SessionEvent.Enabled (es ++ es') h →
        (runAll (SessionEvent.step config) es h).session.file <+:
          (runAll (SessionEvent.step config) (es ++ es') h).session.file := by
  intro hall
  have hgrows := hall ⟨2, .postByRef, true⟩ ⟨.created, [], [], []⟩ rfl
    [.fragment ⟨some (0, 1, 2), 2, [7], [8]⟩ [], .io .workItem (.fails 0 0),
      .io .writeDone (.fails 0 0)]
    [.io (.readDone 1) (.fails 0 0), .io .writeDone (.answers 500 "" true),
      .fragment ⟨some (0, 1, 2), 2, [9], []⟩ [], .io .workItem (.fails 0 0),
      .io .writeDone (.fails 0 0)]
    ⟨fun a b t ht => by cases ht; decide, ⟨_, rfl, rfl⟩, ⟨_, rfl, List.cons_ne_nil _ _⟩,
      ⟨_, rfl, _, _, rfl, by decide⟩, ⟨_, rfl, List.cons_ne_nil _ _⟩,
      fun a b t ht => by cases ht; decide, ⟨_, rfl, rfl⟩, ⟨_, rfl, List.cons_ne_nil _ _⟩, trivial⟩
  have hbefore : (runAll (SessionEvent.step ⟨2, .postByRef, true⟩)
      [.fragment ⟨some (0, 1, 2), 2, [7], [8]⟩ [], .io .workItem (.fails 0 0),
        .io .writeDone (.fails 0 0)] ⟨.created, [], [], []⟩).session.file = [7] := rfl
  have hafter : (runAll (SessionEvent.step ⟨2, .postByRef, true⟩)
      [.fragment ⟨some (0, 1, 2), 2, [7], [8]⟩ [], .io .workItem (.fails 0 0),
        .io .writeDone (.fails 0 0), .io (.readDone 1) (.fails 0 0),
        .io .writeDone (.answers 500 "" true), .fragment ⟨some (0, 1, 2), 2, [9], []⟩ [],
        .io .workItem (.fails 0 0), .io .writeDone (.fails 0 0)]
      ⟨.created, [], [], []⟩).session.file = [9] := rfl
  have hhead : [(7 : UInt8)] <+: [9] := hbefore ▸ hafter ▸ hgrows
  exact absurd hhead (by decide)

/-- A fragment of two bytes that is cut off behind the first, and one that brings both again. -/
theorem session_keeps_first_bytes_twice :
    ∃ s : Session, s.file = [7, 9] ∧ Supplied s.fragments 0 s.file := by
  have hspec := @session_keeps_first_bytes ⟨2, .none, true⟩ ⟨.created, [], [], []⟩ rfl
    [.fragment ⟨some (0, 1, 2), 2, [7], []⟩ [], .io .workItem (.fails 0 0),
      .io .writeDone (.fails 0 0), .io (.readFails 64 0) (.fails 0 0)]
    [.fragment ⟨some (0, 1, 2), 2, [8, 9], []⟩ [], .io .workItem (.fails 0 0),
      .io .writeDone (.fails 0 0)]
    ⟨fun a b t ht => by cases ht; decide, ⟨_, rfl, rfl⟩, ⟨_, rfl, List.cons_ne_nil _ _⟩,
      ⟨_, rfl, _, _, rfl, by decide⟩, fun a b t ht => by cases ht; decide, ⟨_, rfl, rfl⟩,
      ⟨_, rfl, List.cons_ne_nil _ _⟩, trivial⟩
  exact ⟨_, rfl, hspec.2.2.2.1 0 _ rfl⟩

end NtAdmin.Drizzle.Server
