import NtAdmin.Drizzle.Newjob.ReaderWriterLockRun

/-! A lock call that is canceled leaves nothing behind: the run without it ends in the same state. -/
namespace NtAdmin.Drizzle.Newjob

variable {Thread : Type} [DecidableEq Thread] {s s' : ReaderWriterLock Thread} {t u : Thread}
  {a : LockAction}

/-- The lock without what the call has done to it that a thread is in. -/
def ReaderWriterLock.without (s : ReaderWriterLock Thread) (t : Thread) : ReaderWriterLock Thread :=
  { s.at t .outside with
    readerLock := if (s.point t).inReaderLock then none else s.readerLock
    readerCount := if (s.point t).isCounted then s.readerCount - 1 else s.readerCount }

theorem without_of_outside (h : s.point t = .outside) : s.without t = s := by
  have hpoint : Function.update s.point t .outside = s.point := by
    rw [← h]
    exact Function.update_eq_self t s.point
  unfold ReaderWriterLock.without ReaderWriterLock.at
  rw [h, hpoint]
  rfl

theorem without_point (hu : u ≠ t) : (s.without t).point u = s.point u :=
  Function.update_of_ne hu _ _

/-- The state is the same without the call whatever point the call has come to. -/
theorem without_at (p : LockPoint) (l : Option Thread) (c : ℤ)
    (hl : (if p.inReaderLock then none else l) =
      if (s.point t).inReaderLock then none else s.readerLock)
    (hc : (if p.isCounted then c - 1 else c) =
      if (s.point t).isCounted then s.readerCount - 1 else s.readerCount) :
    ReaderWriterLock.without { s.at t p with readerLock := l, readerCount := c } t = s.without t := by
  unfold ReaderWriterLock.without ReaderWriterLock.at
  simp only [Function.update_self, Function.update_idem, hl, hc]

/-- A step of the call itself. -/
theorem LockStep.without_self (hstep : LockStep s t a s')
    (ht : (s.point t).hasLock = false) (ht' : (s'.point t).hasLock = false) :
    s'.without t = s.without t := by
  have hno (p : LockPoint) (hp : p.hasLock = true) (hf : ((s.at t p).point t).hasLock = false) :
      False := by
    have hself : (s.at t p).point t = p := by
      show Function.update s.point t p t = p
      exact Function.update_self ..
    rw [hself, hp] at hf
    cases hf
  have hno' {q : LockPoint} (hp : s.point t = q) (hq : q.hasLock = true) : False := by
    rw [hp, hq] at ht
    cases ht
  cases hstep with
  | lockReader c hp => exact without_at _ _ _ (by rw [hp]; rfl) (by rw [hp]; rfl)
  | lockWriter c hp => exact without_at _ _ _ (by rw [hp]; rfl) (by rw [hp]; rfl)
  | takeReaderLock c hp hfree => exact without_at _ _ _ (by rw [hp, hfree]; rfl) (by rw [hp]; rfl)
  | cancelReaderLock hp => exact without_at _ _ _ (by rw [hp]; rfl) (by rw [hp]; rfl)
  | incrementFirst c hp hcount =>
    exact without_at _ _ _ (by rw [hp]; rfl) (by rw [hp]; exact Int.add_sub_cancel _ 1)
  | incrementNext c hp hcount => exact (hno _ rfl ht').elim
  | takeSemaphore c hp hfree => exact (hno _ rfl ht').elim
  | cancelFirstReader hp => exact without_at _ _ _ (by rw [hp]; rfl) (by rw [hp]; rfl)
  | undoIncrement hp => exact without_at _ _ _ (by rw [hp]; rfl) (by rw [hp]; rfl)
  | releaseReaderLock returnVal hp =>
    cases returnVal with
    | false => exact (hno' hp rfl).elim
    | true => exact without_at _ _ _ (by rw [hp]; rfl) (by rw [hp]; rfl)
  | unlockLast hp hcount => exact (hno' hp rfl).elim
  | unlockReader hp hcount => exact (hno' hp rfl).elim
  | lastReader hp => exact (hno' hp rfl).elim
  | takeWriter c hp hfree => exact (hno _ rfl ht').elim
  | cancelWriter hp => exact without_at _ _ _ (by rw [hp]; rfl) (by rw [hp]; rfl)
  | setOwner hp => exact (hno' hp rfl).elim
  | unlockWriter hp => exact (hno' hp rfl).elim
  | releaseWriter hp => exact (hno' hp rfl).elim

section invariant
variable [Fintype Thread]

theorem isCounted_inReaderLock {q : LockPoint} (h : q.isCounted = true) (hq : q.hasLock = false) :
    q.isFirst = true := by
  cases hr : q.isReader with
  | true =>
    rw [LockPoint.hasLock, hr] at hq
    cases hq
  | false =>
    rw [LockPoint.isCounted, hr] at h
    exact h

omit [Fintype Thread] in
/-- What another thread does stays when the call is taken out. -/
theorem without_at_other (hu : u ≠ t) (p : LockPoint) (l : Option Thread) (c : ℤ) (n : ℕ)
    (o : Option Thread) :
    ReaderWriterLock.without
        { s.at u p with readerLock := l, readerCount := c, writerSemaphore := n, writerOwner := o } t =
      { (s.without t).at u p with
        readerLock := if (s.point t).inReaderLock then none else l
        readerCount := if (s.point t).isCounted then c - 1 else c
        writerSemaphore := n
        writerOwner := o } := by
  unfold ReaderWriterLock.without ReaderWriterLock.at
  simp only [Function.update_of_ne hu.symm, Function.update_comm hu]

/-- A step of another thread can be taken without the call, to the same effect. -/
theorem LockStep.without_other (hstep : LockStep s u a s') (h : s.Inv) (hu : u ≠ t)
    (ht : (s.point t).hasLock = false) : LockStep (s.without t) u a (s'.without t) := by
  have hpoint : (s.without t).point u = s.point u := without_point hu
  -- A thread that is in the reader lock keeps the call out of it, and so does a reader.
  have hlocked (hin : (s.point u).inReaderLock = true) : (s.point t).isCounted = false := by
    cases hc : (s.point t).isCounted with
    | false => rfl
    | true =>
      have hin' := isFirst_inReaderLock (isCounted_inReaderLock hc ht)
      exact absurd (holder_unique h.readerLock hin' hin) hu
  have hread (hr : (s.point u).isReader = true) : (s.point t).isCounted = false := by
    cases hc : (s.point t).isCounted with
    | false => rfl
    | true =>
      have hnone := h.first t u (isCounted_inReaderLock hc ht)
      exact absurd (hnone.symm.trans hr) Bool.false_ne_true
  have hcount (hc : (s.point t).isCounted = false) : (s.without t).readerCount = s.readerCount := by
    show (if _ then _ else _) = _
    rw [hc]
    rfl
  have move {p : LockPoint} {l : Option Thread} {c : ℤ} {n : ℕ} {o : Option Thread}
      (hmove : LockStep (s.without t) u a { (s.without t).at u p with
        readerLock := if (s.point t).inReaderLock then none else l
        readerCount := if (s.point t).isCounted then c - 1 else c
        writerSemaphore := n
        writerOwner := o }) :
      LockStep (s.without t) u a (ReaderWriterLock.without
        { s.at u p with readerLock := l, readerCount := c, writerSemaphore := n, writerOwner := o }
        t) := without_at_other hu p l c n o ▸ hmove
  cases hstep with
  | lockReader c hp => exact move (.lockReader c (hpoint.trans hp))
  | lockWriter c hp => exact move (.lockWriter c (hpoint.trans hp))
  | takeReaderLock c hp hfree =>
    have hout : (s.point t).inReaderLock = false := by
      cases hin : (s.point t).inReaderLock with
      | false => rfl
      | true => exact absurd (((h.readerLock t).mpr hin).symm.trans hfree) (Option.some_ne_none t)
    have hfree' : (s.without t).readerLock = none := by
      show (if _ then none else s.readerLock) = none
      rw [hfree, ite_self]
    apply move
    rw [hout]
    exact .takeReaderLock c (hpoint.trans hp) hfree'
  | cancelReaderLock hp => exact move (.cancelReaderLock (hpoint.trans hp))
  | incrementFirst c hp hzero =>
    have hc := hlocked (by rw [hp]; rfl)
    have hstep := LockStep.incrementFirst c (hpoint.trans hp) ((hcount hc).trans hzero)
    rw [hcount hc] at hstep
    apply move
    rw [hc]
    exact hstep
  | incrementNext c hp hne =>
    have hc := hlocked (by rw [hp]; rfl)
    have hstep := LockStep.incrementNext c (hpoint.trans hp) fun h0 => hne ((hcount hc).symm.trans h0)
    rw [hcount hc] at hstep
    apply move
    rw [hc]
    exact hstep
  | takeSemaphore c hp hfree => exact move (.takeSemaphore c (hpoint.trans hp) hfree)
  | cancelFirstReader hp => exact move (.cancelFirstReader (hpoint.trans hp))
  | undoIncrement hp =>
    have hc := hlocked (by rw [hp]; rfl)
    have hstep := LockStep.undoIncrement (hpoint.trans hp)
    rw [hcount hc] at hstep
    apply move
    rw [hc]
    exact hstep
  | releaseReaderLock returnVal hp =>
    have hstep := LockStep.releaseReaderLock returnVal (hpoint.trans hp)
    apply move
    rw [ite_self]
    exact hstep
  | unlockLast hp hone =>
    have hc := hread (by rw [hp]; rfl)
    have hstep := LockStep.unlockLast (hpoint.trans hp) ((hcount hc).trans hone)
    rw [hcount hc] at hstep
    apply move
    rw [hc]
    exact hstep
  | unlockReader hp hne =>
    have hc := hread (by rw [hp]; rfl)
    have hstep := LockStep.unlockReader (hpoint.trans hp) fun h1 => hne ((hcount hc).symm.trans h1)
    rw [hcount hc] at hstep
    apply move
    rw [hc]
    exact hstep
  | lastReader hp => exact move (.lastReader (hpoint.trans hp))
  | takeWriter c hp hfree => exact move (.takeWriter c (hpoint.trans hp) hfree)
  | cancelWriter hp => exact move (.cancelWriter (hpoint.trans hp))
  | setOwner hp => exact move (.setOwner (hpoint.trans hp))
  | unlockWriter hp => exact move (.unlockWriter (hpoint.trans hp))
  | releaseWriter hp => exact move (.releaseWriter (hpoint.trans hp))

end invariant

/-- A call that has got the lock and has not said so yet. -/
def LockPoint.Got (p : LockPoint) : Prop := p = .releaseReaderLock false ∨ p = .setOwner

theorem LockStep.point_other (hstep : LockStep s u a s') (hu : u ≠ t) :
    s'.point t = s.point t := by
  cases hstep <;> exact Function.update_of_ne hu.symm _ _

/-- A call that does not have the lock gets it in a step that ends at `Got`. -/
theorem LockStep.got (hstep : LockStep s t a s') (ht : (s.point t).hasLock = false) :
    (s'.point t).hasLock = false ∨ (s'.point t).Got := by
  have hself (p : LockPoint) : Function.update s.point t p t = p := Function.update_self ..
  have hno {q : LockPoint} (hp : s.point t = q) (hq : q.hasLock = true) : False := by
    rw [hp, hq] at ht
    cases ht
  cases hstep with
  | lockReader c hp => left; exact congrArg LockPoint.hasLock (hself _)
  | lockWriter c hp => left; exact congrArg LockPoint.hasLock (hself _)
  | takeReaderLock c hp hfree => left; exact congrArg LockPoint.hasLock (hself _)
  | cancelReaderLock hp => left; exact congrArg LockPoint.hasLock (hself _)
  | incrementFirst c hp hcount => left; exact congrArg LockPoint.hasLock (hself _)
  | incrementNext c hp hcount => right; exact Or.inl (hself _)
  | takeSemaphore c hp hfree => right; exact Or.inl (hself _)
  | cancelFirstReader hp => left; exact congrArg LockPoint.hasLock (hself _)
  | undoIncrement hp => left; exact congrArg LockPoint.hasLock (hself _)
  | releaseReaderLock returnVal hp =>
    cases returnVal with
    | false => exact (hno hp rfl).elim
    | true => left; exact congrArg LockPoint.hasLock (hself _)
  | unlockLast hp hcount => exact (hno hp rfl).elim
  | unlockReader hp hcount => exact (hno hp rfl).elim
  | lastReader hp => exact (hno hp rfl).elim
  | takeWriter c hp hfree => right; exact Or.inr (hself _)
  | cancelWriter hp => left; exact congrArg LockPoint.hasLock (hself _)
  | setOwner hp => exact (hno hp rfl).elim
  | unlockWriter hp => exact (hno hp rfl).elim
  | releaseWriter hp => exact (hno hp rfl).elim

/-- The step that ends `Got` returns `false`. -/
theorem LockStep.returns_false (hstep : LockStep s t a s') (hgot : (s.point t).Got) :
    (s.point t).returns a = some false := by
  have h := hstep.step
  unfold ReaderWriterLock.step at h
  cases hgot with
  | inl hp =>
    rw [hp] at h ⊢
    cases a <;> first | rfl | cases h
  | inr hp =>
    rw [hp] at h ⊢
    cases a <;> first | rfl | cases h

/-- A call that gets the lock and comes out has returned `false` before. -/
theorem false_mem_results {steps : List (Thread × LockAction)} (hrun : s.run steps = some s')
    (hgot : (s.point t).Got) (hend : s'.point t = .outside) : false ∈ s.results t steps := by
  induction steps generalizing s with
  | nil =>
    cases hrun
    cases hgot with
    | inl hp => rw [hend] at hp; cases hp
    | inr hp => rw [hend] at hp; cases hp
  | cons x steps ih =>
    obtain ⟨u, a⟩ := x
    obtain ⟨s₁, hstep, hrest⟩ := Option.bind_eq_some_iff.mp hrun
    rw [ReaderWriterLock.results, hstep]
    apply List.mem_append.mpr
    by_cases hu : u = t
    · subst hu
      left
      rw [if_pos rfl, (step_cases hstep).returns_false hgot]
      exact List.mem_cons_self
    · right
      have hpoint := (step_cases hstep).point_other hu
      exact ih hrest (by rw [hpoint]; exact hgot)

/-- A thread whose calls are all canceled leaves the run of the others as it is. -/
theorem ReaderWriterLock.Inv.run_without [Fintype Thread] {steps : List (Thread × LockAction)}
    (h : s.Inv) (hrun : s.run steps = some s') (ht : (s.point t).hasLock = false)
    (hend : s'.point t = .outside) (hresults : ∀ b ∈ s.results t steps, b = true) :
    (s.without t).run (steps.filter (·.1 ≠ t)) = some (s'.without t) := by
  induction steps generalizing s with
  | nil =>
    cases hrun
    rfl
  | cons x steps ih =>
    obtain ⟨u, a⟩ := x
    obtain ⟨s₁, hstep, hrest⟩ := Option.bind_eq_some_iff.mp hrun
    have hlock := step_cases hstep
    rw [ReaderWriterLock.results, hstep] at hresults
    have hlater (b : Bool) (hb : b ∈ s₁.results t steps) : b = true :=
      hresults b (List.mem_append_right _ hb)
    by_cases hu : u = t
    · subst hu
      have ht₁ : (s₁.point u).hasLock = false := by
        cases hlock.got ht with
        | inl hno => exact hno
        | inr hgot => exact absurd (hlater false (false_mem_results hrest hgot hend)) (by decide)
      rw [List.filter_cons_of_neg (by simp), ← hlock.without_self ht ht₁]
      exact ih (h.step hlock) hrest ht₁ hlater
    · have ht₁ : (s₁.point t).hasLock = false := by rw [hlock.point_other hu]; exact ht
      rw [List.filter_cons_of_pos (by simp [hu]), ReaderWriterLock.run,
        (hlock.without_other h hu ht).step]
      exact ih (h.step hlock) hrest ht₁ hlater

omit [DecidableEq Thread] in
/-- The semaphore is free when nobody has it. -/
theorem ReaderWriterLock.Semaphore.free_iff (h : s.Semaphore) :
    s.writerSemaphore = 1 ↔ ∀ t, (s.point t).hasLock = false := by
  have hno {q : LockPoint} (hq : q.hasLock = false) : q.isReader = false ∧ q.isAlone = false :=
    Bool.or_eq_false_iff.mp hq
  cases h with
  | free hone hnone => exact ⟨fun _ t => Bool.or_eq_false_iff.mpr (hnone t), fun _ => hone⟩
  | alone htaken t halone =>
    refine ⟨fun hone => absurd (hone.symm.trans htaken) (by decide), fun hall => ?_⟩
    exact absurd ((hno (hall t)).2.symm.trans halone) Bool.false_ne_true
  | readers htaken t hreader =>
    refine ⟨fun hone => absurd (hone.symm.trans htaken) (by decide), fun hall => ?_⟩
    exact absurd ((hno (hall t)).1.symm.trans hreader) Bool.false_ne_true

theorem isWriter_isAlone {q : LockPoint} (h : q.isWriter = true) : q.isAlone = true := by
  rw [LockPoint.isAlone, h, Bool.true_or]

/-- In every state that the threads can reach: a writer has the lock to itself, `m_ReaderCount` is
the number of readers behind their increment, and the semaphore is free exactly when nobody has the
lock and no last reader is about to release it. Calls that are canceled leave no trace: the run ends
in the same state without them. -/
theorem reader_writer_lock [Fintype Thread] {w : List (Thread × LockAction)}
    (hreach : ReaderWriterLock.initial.run w = some s) :
    (∀ t u, (s.point t).isWriter = true → u ≠ t →
      (s.point u).isReader = false ∧ (s.point u).isWriter = false) ∧
    s.readerCount = s.counted ∧
    (s.writerSemaphore = 1 ↔ ∀ t, (s.point t).hasLock = false) ∧
    ∀ t steps' s', s.point t = .outside → s.run steps' = some s' → s'.point t = .outside →
      (∀ b ∈ s.results t steps', b = true) → s.run (steps'.filter (·.1 ≠ t)) = some s' := by
  have h := inv_initial.run hreach
  refine ⟨fun t u ht hu => ?_, h.count, h.semaphore.free_iff, fun t steps' s' hs hrun hs' hall => ?_⟩
  · obtain ⟨hreader, halone⟩ := h.semaphore.alone_excludes (isWriter_isAlone ht) hu
    exact ⟨hreader, (Bool.or_eq_false_iff.mp halone).1⟩
  · have hrun' := h.run_without hrun (by rw [hs]; rfl) hs' hall
    rw [without_of_outside hs, without_of_outside hs'] at hrun'
    exact hrun'

/-- A writer, and a first reader that is canceled while it waits for the writer. -/
theorem reader_writer_lock_canceled : ∃ s s' : ReaderWriterLock Bool,
    ReaderWriterLock.initial.run [(true, .lockWriter false), (true, .go), (true, .go)] = some s ∧
    s.run [(false, .lockReader true), (false, .go), (false, .go), (false, .cancel), (false, .go),
      (false, .go)] = some s' ∧
    s.readerCount = s.counted ∧ s.run [] = some s' := by
  refine ⟨_, _, rfl, rfl, ?_, ?_⟩
  · exact (reader_writer_lock (w := [(true, .lockWriter false), (true, .go), (true, .go)]) rfl).2.1
  · exact (reader_writer_lock (w := [(true, .lockWriter false), (true, .go), (true, .go)])
      rfl).2.2.2 false [(false, .lockReader true), (false, .go), (false, .go), (false, .cancel),
        (false, .go), (false, .go)] _ rfl rfl rfl (by decide)

end NtAdmin.Drizzle.Newjob
