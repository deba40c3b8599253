import NtAdmin.Drizzle.Newjob.ReaderWriterLock

/-! Every interleaving of the threads keeps the reader/writer lock in order. -/
namespace NtAdmin.Drizzle.Newjob

variable {Thread : Type} {s s' : ReaderWriterLock Thread} {t : Thread} {p : LockPoint}

theorem counted_pos [Fintype Thread] (h : (s.point t).isCounted = true) : 0 < s.counted :=
  Finset.card_pos.mpr ⟨t, Finset.mem_filter.mpr ⟨Finset.mem_univ t, h⟩⟩

theorem exists_counted [Fintype Thread] (h : s.counted ≠ 0) :
    ∃ u, (s.point u).isCounted = true := by
  obtain ⟨u, hu⟩ := Finset.card_pos.mp (Nat.pos_of_ne_zero h)
  exact ⟨u, (Finset.mem_filter.mp hu).2⟩

variable [DecidableEq Thread]

/-- What one step does, with the point that the thread was at. -/
inductive LockStep (s : ReaderWriterLock Thread) (t : Thread) :
    LockAction → ReaderWriterLock Thread → Prop
  | lockReader (c) (hp : s.point t = .outside) :
      LockStep s t (.lockReader c) (s.at t (.waitReaderLock c))
  | lockWriter (c) (hp : s.point t = .outside) :
      LockStep s t (.lockWriter c) (s.at t (.waitWriter c))
  | takeReaderLock (c) (hp : s.point t = .waitReaderLock c) (hfree : s.readerLock = none) :
      LockStep s t .go { s.at t (.increment c) with readerLock := some t }
  | cancelReaderLock (hp : s.point t = .waitReaderLock true) : LockStep s t .cancel (s.at t .outside)
  | incrementFirst (c) (hp : s.point t = .increment c) (hcount : s.readerCount = 0) :
      LockStep s t .go { s.at t (.waitFirstReader c) with readerCount := s.readerCount + 1 }
  | incrementNext (c) (hp : s.point t = .increment c) (hcount : s.readerCount ≠ 0) :
      LockStep s t .go { s.at t (.releaseReaderLock false) with readerCount := s.readerCount + 1 }
  | takeSemaphore (c) (hp : s.point t = .waitFirstReader c) (hfree : 0 < s.writerSemaphore) :
      LockStep s t .go
        { s.at t (.releaseReaderLock false) with writerSemaphore := s.writerSemaphore - 1 }
  | cancelFirstReader (hp : s.point t = .waitFirstReader true) :
      LockStep s t .cancel (s.at t .undoIncrement)
  | undoIncrement (hp : s.point t = .undoIncrement) :
      LockStep s t .go { s.at t (.releaseReaderLock true) with readerCount := s.readerCount - 1 }
  | releaseReaderLock (returnVal) (hp : s.point t = .releaseReaderLock returnVal) :
      LockStep s t .go { s.at t (if returnVal then .outside else .reading) with readerLock := none }
  | unlockLast (hp : s.point t = .reading) (hcount : s.readerCount = 1) :
      LockStep s t .unlockReader { s.at t .lastReader with readerCount := s.readerCount - 1 }
  | unlockReader (hp : s.point t = .reading) (hcount : s.readerCount ≠ 1) :
      LockStep s t .unlockReader { s.at t .outside with readerCount := s.readerCount - 1 }
  | lastReader (hp : s.point t = .lastReader) :
      LockStep s t .go { s.at t .outside with writerSemaphore := releaseSemaphore s.writerSemaphore }
  | takeWriter (c) (hp : s.point t = .waitWriter c) (hfree : 0 < s.writerSemaphore) :
      LockStep s t .go { s.at t .setOwner with writerSemaphore := s.writerSemaphore - 1 }
  | cancelWriter (hp : s.point t = .waitWriter true) : LockStep s t .cancel (s.at t .outside)
  | setOwner (hp : s.point t = .setOwner) :
      LockStep s t .go { s.at t .writing with writerOwner := some t }
  | unlockWriter (hp : s.point t = .writing) :
      LockStep s t .unlockWriter { s.at t .releaseWriter with writerOwner := none }
  | releaseWriter (hp : s.point t = .releaseWriter) :
      LockStep s t .go { s.at t .outside with writerSemaphore := releaseSemaphore s.writerSemaphore }

theorem step_cases {a : LockAction} (h : s.step t a = some s') : LockStep s t a s' := by
  unfold ReaderWriterLock.step at h
  split at h
  · cases h; exact .lockReader _ ‹_›
  · cases h; exact .lockWriter _ ‹_›
  · split_ifs at h with hfree
    cases h
    exact .takeReaderLock _ ‹_› hfree
  · cases h; exact .cancelReaderLock ‹_›
  · cases h
    split_ifs with hcount
    · exact .incrementFirst _ ‹_› (by omega)
    · exact .incrementNext _ ‹_› (by omega)
  · split_ifs at h with hfree
    cases h
    exact .takeSemaphore _ ‹_› hfree
  · cases h; exact .cancelFirstReader ‹_›
  · cases h; exact .undoIncrement ‹_›
  · cases h; exact .releaseReaderLock _ ‹_›
  · cases h
    split_ifs with hcount
    · exact .unlockLast ‹_› (by omega)
    · exact .unlockReader ‹_› (by omega)
  · cases h; exact .lastReader ‹_›
  · split_ifs at h with hfree
    cases h
    exact .takeWriter _ ‹_› hfree
  · cases h; exact .cancelWriter ‹_›
  · cases h; exact .setOwner ‹_›
  · cases h; exact .unlockWriter ‹_›
  · cases h; exact .releaseWriter ‹_›
  · cases h

theorem LockStep.step {a : LockAction} (h : LockStep s t a s') : s.step t a = some s' := by
  unfold ReaderWriterLock.step
  cases h with
  | lockReader c hp => rw [hp]
  | lockWriter c hp => rw [hp]
  | takeReaderLock c hp hfree => rw [hp]; exact if_pos hfree
  | cancelReaderLock hp => rw [hp]
  | incrementFirst c hp hcount => rw [hp, hcount]; rfl
  | incrementNext c hp hcount =>
    have hne : ¬s.readerCount + 1 = 1 := by omega
    rw [hp]
    dsimp only
    rw [if_neg hne]
  | takeSemaphore c hp hfree => rw [hp]; exact if_pos hfree
  | cancelFirstReader hp => rw [hp]
  | undoIncrement hp => rw [hp]
  | releaseReaderLock returnVal hp => rw [hp]
  | unlockLast hp hcount => rw [hp, hcount]; rfl
  | unlockReader hp hcount =>
    have hne : ¬s.readerCount - 1 = 0 := by omega
    rw [hp]
    dsimp only
    rw [if_neg hne]
  | lastReader hp => rw [hp]
  | takeWriter c hp hfree => rw [hp]; exact if_pos hfree
  | cancelWriter hp => rw [hp]
  | setOwner hp => rw [hp]
  | unlockWriter hp => rw [hp]
  | releaseWriter hp => rw [hp]

/-- A class of points, after one thread has come to `p`. -/
theorem class_at (f : LockPoint → Bool) (hs : s'.point = Function.update s.point t p) (u : Thread) :
    f (s'.point u) = if u = t then f p else f (s.point u) := by
  rw [hs]
  by_cases hu : u = t
  · rw [hu, Function.update_self, if_pos rfl]
  · rw [Function.update_of_ne hu, if_neg hu]

/-- A class that a thread neither enters nor leaves. -/
theorem class_same (f : LockPoint → Bool) (hs : s'.point = Function.update s.point t p)
    (hf : f p = f (s.point t)) (u : Thread) : f (s'.point u) = f (s.point u) := by
  rw [class_at f hs u]
  split_ifs with hu
  · rw [hu, hf]
  · rfl

theorem class_self (f : LockPoint → Bool) (hs : s'.point = Function.update s.point t p) :
    f (s'.point t) = f p := by
  rw [class_at f hs t, if_pos rfl]

theorem class_other (f : LockPoint → Bool) (hs : s'.point = Function.update s.point t p) {u : Thread}
    (hu : u ≠ t) : f (s'.point u) = f (s.point u) := by
  rw [class_at f hs u, if_neg hu]

section holder
variable {f : LockPoint → Bool} {o : Option Thread}

/-- The holder stays the same. -/
theorem holder_keep (h : ∀ u, o = some u ↔ f (s.point u) = true)
    (hs : s'.point = Function.update s.point t p) (hf : f p = f (s.point t)) (u : Thread) :
    o = some u ↔ f (s'.point u) = true := by
  rw [class_same f hs hf u]
  exact h u

theorem holder_take (h : ∀ u, o = some u ↔ f (s.point u) = true)
    (hs : s'.point = Function.update s.point t p) (hfree : o = none) (hf : f p = true) (u : Thread) :
    some t = some u ↔ f (s'.point u) = true := by
  rw [class_at f hs u, Option.some.injEq]
  split_ifs with hu
  · exact ⟨fun _ => hf, fun _ => hu.symm⟩
  · rw [← h u, hfree]
    exact ⟨fun heq => absurd heq.symm hu, fun heq => absurd heq.symm (Option.some_ne_none u)⟩

theorem holder_drop (h : ∀ u, o = some u ↔ f (s.point u) = true)
    (hs : s'.point = Function.update s.point t p) (ht : f (s.point t) = true) (hf : f p = false)
    (u : Thread) : none = some u ↔ f (s'.point u) = true := by
  refine ⟨fun heq => absurd heq.symm (Option.some_ne_none u), fun hu => ?_⟩
  rw [class_at f hs u] at hu
  split_ifs at hu with hut
  · exact absurd (hf.symm.trans hu) Bool.false_ne_true
  · have heq := ((h u).mpr hu).symm.trans ((h t).mpr ht)
    exact absurd (Option.some.inj heq) hut

omit [DecidableEq Thread] in
theorem holder_unique (h : ∀ u, o = some u ↔ f (s.point u) = true) {u : Thread}
    (ht : f (s.point t) = true) (hu : f (s.point u) = true) : u = t :=
  Option.some.inj (((h u).mpr hu).symm.trans ((h t).mpr ht))

end holder

section semaphore
open LockPoint

/-- The semaphore does not change hands. -/
theorem ReaderWriterLock.Semaphore.keep (h : s.Semaphore) (hs : s'.point = Function.update s.point t p)
    (hreader : p.isReader = (s.point t).isReader) (halone : p.isAlone = (s.point t).isAlone)
    (hsem : s'.writerSemaphore = s.writerSemaphore) : s'.Semaphore := by
  have hr := class_same isReader hs hreader
  have ha := class_same isAlone hs halone
  cases h with
  | free hfree hnone =>
    exact .free (hsem.trans hfree) fun u => ⟨(hr u).trans (hnone u).1, (ha u).trans (hnone u).2⟩
  | alone htaken v hv hnone hother =>
    exact .alone (hsem.trans htaken) v ((ha v).trans hv) (fun u => (hr u).trans (hnone u))
      fun u hu => hother u ((ha u).symm.trans hu)
  | readers htaken v hv hnone =>
    exact .readers (hsem.trans htaken) v ((hr v).trans hv) fun u => (ha u).trans (hnone u)

/-- A thread takes the semaphore, for itself or for the readers. -/
theorem ReaderWriterLock.Semaphore.take (h : s.Semaphore) (hs : s'.point = Function.update s.point t p)
    (hfree : 0 < s.writerSemaphore) (hsem : s'.writerSemaphore = s.writerSemaphore - 1)
    (hp : p.isReader = ! p.isAlone) : s'.Semaphore := by
  cases h with
  | free hone hnone =>
    have htaken : s'.writerSemaphore = 0 := by rw [hsem, hone]
    cases halone : p.isAlone with
    | true =>
      rw [halone] at hp
      refine .alone htaken t ((class_self isAlone hs).trans halone) (fun u => ?_) fun u hu => ?_
      · rw [class_at isReader hs u]
        split_ifs
        · exact hp
        · exact (hnone u).1
      · by_contra hne
        rw [class_other isAlone hs hne, (hnone u).2] at hu
        exact Bool.false_ne_true hu
    | false =>
      rw [halone] at hp
      refine .readers htaken t ((class_self isReader hs).trans hp) fun u => ?_
      rw [class_at isAlone hs u]
      split_ifs
      · exact halone
      · exact (hnone u).2
  | alone htaken => exact absurd htaken (Nat.ne_of_gt hfree)
  | readers htaken => exact absurd htaken (Nat.ne_of_gt hfree)

/-- A thread gives back the semaphore that it had to itself. -/
theorem ReaderWriterLock.Semaphore.release (h : s.Semaphore) (hs : s'.point = Function.update s.point t p)
    (ht : (s.point t).isAlone = true) (hp : p.isReader = false ∧ p.isAlone = false)
    (hsem : s'.writerSemaphore = releaseSemaphore s.writerSemaphore) : s'.Semaphore := by
  cases h with
  | free hone hnone => exact absurd ((hnone t).2.symm.trans ht) Bool.false_ne_true
  | alone htaken v hv hnone hother =>
    refine .free (by rw [hsem, htaken]; rfl) fun u => ⟨?_, ?_⟩
    · rw [class_at isReader hs u]
      split_ifs
      · exact hp.1
      · exact hnone u
    · by_cases hu : u = t
      · rw [hu, class_self isAlone hs, hp.2]
      · rw [class_other isAlone hs hu]
        cases ha : (s.point u).isAlone with
        | false => rfl
        | true => exact absurd ((hother u ha).trans (hother t ht).symm) hu
  | readers htaken v hv hnone => exact absurd ((hnone t).symm.trans ht) Bool.false_ne_true

/-- A thread comes in while another one reads, or goes out and leaves one that reads. -/
theorem ReaderWriterLock.Semaphore.share (h : s.Semaphore) (hs : s'.point = Function.update s.point t p)
    {u : Thread} (hu : u ≠ t) (hreader : (s.point u).isReader = true) (hp : p.isAlone = false)
    (hsem : s'.writerSemaphore = s.writerSemaphore) : s'.Semaphore := by
  cases h with
  | free hone hnone => exact absurd ((hnone u).1.symm.trans hreader) Bool.false_ne_true
  | alone htaken v hv hnone hother => exact absurd ((hnone u).symm.trans hreader) Bool.false_ne_true
  | readers htaken v hv hnone =>
    refine .readers (hsem.trans htaken) u ((class_other isReader hs hu).trans hreader) fun w => ?_
    rw [class_at isAlone hs w]
    split_ifs
    · exact hp
    · exact hnone w

/-- The last reader keeps the semaphore for itself. -/
theorem ReaderWriterLock.Semaphore.last (h : s.Semaphore) (hs : s'.point = Function.update s.point t p)
    (ht : (s.point t).isReader = true) (hothers : ∀ u, u ≠ t → (s.point u).isReader = false)
    (hp : p.isReader = false ∧ p.isAlone = true)
    (hsem : s'.writerSemaphore = s.writerSemaphore) : s'.Semaphore := by
  cases h with
  | free hone hnone => exact absurd ((hnone t).1.symm.trans ht) Bool.false_ne_true
  | alone htaken v hv hnone hother => exact absurd ((hnone t).symm.trans ht) Bool.false_ne_true
  | readers htaken v hv hnone =>
    refine .alone (hsem.trans htaken) t ((class_self isAlone hs).trans hp.2) (fun u => ?_)
      fun u hu => ?_
    · by_cases hut : u = t
      · rw [hut, class_self isReader hs, hp.1]
      · rw [class_other isReader hs hut, hothers u hut]
    · by_contra hne
      rw [class_other isAlone hs hne, hnone u] at hu
      exact Bool.false_ne_true hu

omit [DecidableEq Thread] in
/-- Nobody else has the semaphore beside a thread that has it alone. -/
theorem ReaderWriterLock.Semaphore.alone_excludes (h : s.Semaphore) (ht : (s.point t).isAlone = true)
    {u : Thread} (hu : u ≠ t) : (s.point u).isReader = false ∧ (s.point u).isAlone = false := by
  cases h with
  | free hone hnone => exact hnone u
  | alone htaken v hv hnone hother =>
    refine ⟨hnone u, ?_⟩
    cases ha : (s.point u).isAlone with
    | false => rfl
    | true => exact absurd ((hother u ha).trans (hother t ht).symm) hu
  | readers htaken v hv hnone => exact absurd ((hnone t).symm.trans ht) Bool.false_ne_true

omit [DecidableEq Thread] in
theorem ReaderWriterLock.Semaphore.alone_unique (h : s.Semaphore) {u : Thread}
    (hu : (s.point u).isAlone = true) (ht : (s.point t).isAlone = true) : u = t := by
  by_contra hne
  exact absurd ((h.alone_excludes ht hne).2.symm.trans hu) Bool.false_ne_true

theorem isOwner_isAlone {q : LockPoint} (h : q.isOwner = true) : q.isAlone = true := by
  cases q <;> first | rfl | exact absurd h Bool.false_ne_true

end semaphore

section invariant
variable [Fintype Thread]

theorem counted_at (hs : s'.point = Function.update s.point t p) :
    s'.counted + (if (s.point t).isCounted then 1 else 0) =
      s.counted + if p.isCounted then 1 else 0 := by
  have hrest : ∑ u ∈ Finset.univ.erase t, (if (s'.point u).isCounted then 1 else 0) =
      ∑ u ∈ Finset.univ.erase t, if (s.point u).isCounted then 1 else 0 := by
    apply Finset.sum_congr rfl
    intro u hu
    rw [class_other LockPoint.isCounted hs (Finset.ne_of_mem_erase hu)]
  have hself := class_self LockPoint.isCounted hs
  have h := Finset.add_sum_erase Finset.univ (fun u => if (s.point u).isCounted then 1 else 0)
    (Finset.mem_univ t)
  have h' := Finset.add_sum_erase Finset.univ (fun u => if (s'.point u).isCounted then 1 else 0)
    (Finset.mem_univ t)
  rw [hrest, hself] at h'
  unfold ReaderWriterLock.counted
  rw [Finset.card_filter, Finset.card_filter]
  omega

theorem isFirst_inReaderLock {q : LockPoint} (h : q.isFirst = true) : q.inReaderLock = true := by
  cases q <;> first | rfl | exact absurd h Bool.false_ne_true

/-- The count of the threads follows `m_ReaderCount`. -/
theorem ReaderWriterLock.Inv.count_at {q : LockPoint} {n : ℤ} (h : s.Inv)
    (hs : s'.point = Function.update s.point t p) (hp : s.point t = q)
    (hn : s'.readerCount = n)
    (hcount : n + (if q.isCounted then 1 else 0) = s.readerCount + if p.isCounted then 1 else 0) :
    s'.readerCount = s'.counted := by
  have hcounted := counted_at hs
  have hold := h.count
  rw [hp] at hcounted
  rw [hn]
  split_ifs at hcount hcounted <;> omega

theorem ReaderWriterLock.Inv.count_same {q : LockPoint} (h : s.Inv)
    (hs : s'.point = Function.update s.point t p) (hp : s.point t = q)
    (hn : s'.readerCount = s.readerCount) (hcount : p.isCounted = q.isCounted) :
    s'.readerCount = s'.counted := by
  apply h.count_at hs hp hn
  rw [hcount]

theorem ReaderWriterLock.Inv.count_enter {q : LockPoint} (h : s.Inv)
    (hs : s'.point = Function.update s.point t p) (hp : s.point t = q)
    (hn : s'.readerCount = s.readerCount + 1) (hq : q.isCounted = false) (hc : p.isCounted = true) :
    s'.readerCount = s'.counted := by
  apply h.count_at hs hp hn
  rw [hq, hc, if_neg Bool.false_ne_true, if_pos rfl, Int.add_zero]

theorem ReaderWriterLock.Inv.count_leave {q : LockPoint} (h : s.Inv)
    (hs : s'.point = Function.update s.point t p) (hp : s.point t = q)
    (hn : s'.readerCount = s.readerCount - 1) (hq : q.isCounted = true) (hc : p.isCounted = false) :
    s'.readerCount = s'.counted := by
  apply h.count_at hs hp hn
  rw [hq, hc, if_neg Bool.false_ne_true, if_pos rfl, Int.add_zero, Int.sub_add_cancel]

/-- Fewer readers and fewer first readers. -/
theorem ReaderWriterLock.Inv.first_mono {q : LockPoint} (h : s.Inv)
    (hs : s'.point = Function.update s.point t p) (hp : s.point t = q)
    (hfirst : p.isFirst = true → q.isFirst = true)
    (hreader : p.isReader = true → q.isReader = true) (v u : Thread)
    (hv : (s'.point v).isFirst = true) : (s'.point u).isReader = false := by
  subst hp
  have hv' : (s.point v).isFirst = true := by
    rw [class_at LockPoint.isFirst hs v] at hv
    split_ifs at hv with hvt
    · rw [hvt, hfirst hv]
    · exact hv
  rw [class_at LockPoint.isReader hs u]
  split_ifs
  · cases hr : p.isReader with
    | false => rfl
    | true => exact absurd ((h.first v t hv').symm.trans (hreader hr)) Bool.false_ne_true
  · exact h.first v u hv'

omit [DecidableEq Thread] [Fintype Thread] in
/-- The first reader is alone in the reader lock. -/
theorem no_first (h : ∀ u, s.readerLock = some u ↔ (s.point u).inReaderLock = true)
    (ht : (s.point t).inReaderLock = true) {u : Thread} (hu : u ≠ t) :
    (s.point u).isFirst = false := by
  cases hf : (s.point u).isFirst with
  | false => rfl
  | true => exact absurd (holder_unique h ht (isFirst_inReaderLock hf)) hu

/-- A thread that holds the reader lock becomes a reader. -/
theorem ReaderWriterLock.Inv.first_reader (h : s.Inv) (hs : s'.point = Function.update s.point t p)
    (ht : (s.point t).inReaderLock = true) (hp : p.isFirst = false) (v u : Thread)
    (hv : (s'.point v).isFirst = true) : (s'.point u).isReader = false := by
  rw [class_at LockPoint.isFirst hs v] at hv
  split_ifs at hv with hvt
  · exact absurd (hp.symm.trans hv) Bool.false_ne_true
  · exact absurd ((no_first h.readerLock ht hvt).symm.trans hv) Bool.false_ne_true

/-- A thread moves on where no class changes. -/
theorem ReaderWriterLock.Inv.move {q : LockPoint} (h : s.Inv) (hp : s.point t = q)
    (hreader : p.isReader = q.isReader) (halone : p.isAlone = q.isAlone)
    (hfirst : p.isFirst = q.isFirst) (hlock : p.inReaderLock = q.inReaderLock)
    (howner : p.isOwner = q.isOwner) : (s.at t p).Inv where
  count := h.count_same rfl hp rfl (by rw [LockPoint.isCounted, LockPoint.isCounted, hreader, hfirst])
  readerLock := holder_keep h.readerLock rfl (by rw [hp, hlock])
  owner := holder_keep h.owner rfl (by rw [hp, howner])
  semaphore := h.semaphore.keep rfl (by rw [hp, hreader]) (by rw [hp, halone]) rfl
  first := h.first_mono rfl hp (fun hf => hfirst.symm.trans hf) fun hr => hreader.symm.trans hr

omit [DecidableEq Thread] in
theorem inv_initial : (ReaderWriterLock.initial : ReaderWriterLock Thread).Inv where
  count := by
    have hnone : (ReaderWriterLock.initial : ReaderWriterLock Thread).counted = 0 := by
      apply Finset.card_eq_zero.mpr
      apply Finset.filter_eq_empty_iff.mpr
      intro u _ hu
      exact Bool.false_ne_true hu
    rw [hnone]
    rfl
  readerLock := fun t => ⟨fun h => absurd h.symm (Option.some_ne_none t), fun h =>
    absurd h Bool.false_ne_true⟩
  owner := fun t => ⟨fun h => absurd h.symm (Option.some_ne_none t), fun h =>
    absurd h Bool.false_ne_true⟩
  semaphore := .free rfl fun _ => ⟨rfl, rfl⟩
  first := fun _ _ h => absurd h Bool.false_ne_true

omit [DecidableEq Thread] in
/-- No thread is counted when the count is zero. -/
theorem ReaderWriterLock.Inv.no_reader (h : s.Inv) (hcount : s.readerCount = 0) (u : Thread) :
    (s.point u).isReader = false := by
  cases hr : (s.point u).isReader with
  | false => rfl
  | true =>
    have hpos := counted_pos (s := s) (t := u) (by rw [LockPoint.isCounted, hr]; rfl)
    have := h.count
    omega

omit [DecidableEq Thread] in
/-- A counted thread that is not the first reader reads. -/
theorem exists_reader (hcount : s.counted ≠ 0) (hfirst : ∀ u, (s.point u).isFirst = false) :
    ∃ u, (s.point u).isReader = true := by
  obtain ⟨u, hu⟩ := exists_counted hcount
  rw [LockPoint.isCounted, hfirst u, Bool.or_false] at hu
  exact ⟨u, hu⟩

theorem ReaderWriterLock.Inv.step {a : LockAction} (h : s.Inv) (hstep : LockStep s t a s') : s'.Inv := by
  cases hstep with
  | lockReader c hp => exact h.move hp rfl rfl rfl rfl rfl
  | lockWriter c hp => exact h.move hp rfl rfl rfl rfl rfl
  | cancelReaderLock hp => exact h.move hp rfl rfl rfl rfl rfl
  | cancelFirstReader hp => exact h.move hp rfl rfl rfl rfl rfl
  | cancelWriter hp => exact h.move hp rfl rfl rfl rfl rfl
  | takeReaderLock c hp hfree =>
    exact {
      count := h.count_same rfl hp rfl (by rfl)
      readerLock := holder_take h.readerLock rfl hfree rfl
      owner := holder_keep h.owner rfl (by rw [hp]; rfl)
      semaphore := h.semaphore.keep rfl (by rw [hp]; rfl) (by rw [hp]; rfl) rfl
      first := h.first_mono rfl hp (fun hf => hf) fun hr => hr }
  | incrementFirst c hp hcount =>
    have hnone := h.no_reader hcount
    exact {
      count := h.count_enter rfl hp rfl rfl (by rfl)
      readerLock := holder_keep h.readerLock rfl (by rw [hp]; rfl)
      owner := holder_keep h.owner rfl (by rw [hp]; rfl)
      semaphore := h.semaphore.keep rfl (by rw [hp]; rfl) (by rw [hp]; rfl) rfl
      first := fun v u _ => by
        rw [class_at LockPoint.isReader (s := s) rfl u]
        split_ifs
        · rfl
        · exact hnone u }
  | incrementNext c hp hcount =>
    have hin : (s.point t).inReaderLock = true := by rw [hp]; rfl
    have hfirst (u : Thread) : (s.point u).isFirst = false := by
      by_cases hu : u = t
      · rw [hu, hp]; rfl
      · exact no_first h.readerLock hin hu
    obtain ⟨u, hu⟩ := exists_reader (s := s) (by have := h.count; omega) hfirst
    have hne : u ≠ t := fun heq => by
      rw [heq, hp] at hu
      exact Bool.false_ne_true hu
    exact {
      count := h.count_enter rfl hp rfl rfl (by rfl)
      readerLock := holder_keep h.readerLock rfl (by rw [hp]; rfl)
      owner := holder_keep h.owner rfl (by rw [hp]; rfl)
      semaphore := h.semaphore.share rfl hne hu rfl rfl
      first := h.first_reader rfl hin rfl }
  | takeSemaphore c hp hfree =>
    have hin : (s.point t).inReaderLock = true := by rw [hp]; rfl
    exact {
      count := h.count_same rfl hp rfl (by rfl)
      readerLock := holder_keep h.readerLock rfl (by rw [hp]; rfl)
      owner := holder_keep h.owner rfl (by rw [hp]; rfl)
      semaphore := h.semaphore.take rfl hfree rfl rfl
      first := h.first_reader rfl hin rfl }
  | undoIncrement hp =>
    exact {
      count := h.count_leave rfl hp rfl rfl (by rfl)
      readerLock := holder_keep h.readerLock rfl (by rw [hp]; rfl)
      owner := holder_keep h.owner rfl (by rw [hp]; rfl)
      semaphore := h.semaphore.keep rfl (by rw [hp]; rfl) (by rw [hp]; rfl) rfl
      first := h.first_mono rfl hp (fun _ => rfl) fun hr => hr }
  | releaseReaderLock returnVal hp =>
    have hin : (s.point t).inReaderLock = true := by rw [hp]; rfl
    cases returnVal with
    | false =>
      exact {
        count := h.count_same rfl hp rfl (by rfl)
        readerLock := holder_drop h.readerLock rfl hin rfl
        owner := holder_keep h.owner rfl (by rw [hp]; rfl)
        semaphore := h.semaphore.keep rfl (by rw [hp]; rfl) (by rw [hp]; rfl) rfl
        first := h.first_mono rfl hp (fun hf => hf) fun _ => rfl }
    | true =>
      exact {
        count := h.count_same rfl hp rfl (by rfl)
        readerLock := holder_drop h.readerLock rfl hin rfl
        owner := holder_keep h.owner rfl (by rw [hp]; rfl)
        semaphore := h.semaphore.keep rfl (by rw [hp]; rfl) (by rw [hp]; rfl) rfl
        first := h.first_mono rfl hp (fun hf => hf) fun hr => hr }
  | unlockLast hp hcount =>
    have hreader : (s.point t).isReader = true := by rw [hp]; rfl
    have hcounted := counted_at (show (s.at t .outside).point = Function.update s.point t .outside from rfl)
    have hothers (u : Thread) (hu : u ≠ t) : (s.point u).isReader = false := by
      cases hr : (s.point u).isReader with
      | false => rfl
      | true =>
        have hpos := counted_pos (s := s.at t .outside) (t := u) (by
          rw [class_other LockPoint.isCounted (s := s) rfl hu, LockPoint.isCounted, hr]
          rfl)
        rw [LockPoint.isCounted, hreader] at hcounted
        simp only [Bool.true_or, if_true] at hcounted
        have := h.count
        have hout : LockPoint.outside.isCounted = false := rfl
        rw [hout, if_neg Bool.false_ne_true] at hcounted
        omega
    exact {
      count := h.count_leave rfl hp rfl rfl (by rfl)
      readerLock := holder_keep h.readerLock rfl (by rw [hp]; rfl)
      owner := holder_keep h.owner rfl (by rw [hp]; rfl)
      semaphore := h.semaphore.last rfl hreader hothers ⟨rfl, rfl⟩ rfl
      first := h.first_mono rfl hp (fun hf => hf) fun _ => rfl }
  | unlockReader hp hcount =>
    have hreader : (s.point t).isReader = true := by rw [hp]; rfl
    have hafter : s.readerCount - 1 = (s.at t .outside).counted :=
      h.count_leave (show ({ s.at t .outside with readerCount := s.readerCount - 1 } :
        ReaderWriterLock Thread).point = Function.update s.point t .outside from rfl) hp rfl rfl rfl
    have hfirst (u : Thread) : ((s.at t .outside).point u).isFirst = false := by
      cases hf : ((s.at t .outside).point u).isFirst with
      | false => rfl
      | true =>
        rw [class_at LockPoint.isFirst (s := s) rfl u] at hf
        split_ifs at hf
        · exact hf.symm
        · exact absurd ((h.first u t hf).symm.trans hreader) Bool.false_ne_true
    obtain ⟨u, hu⟩ := exists_reader (s := s.at t .outside) (by omega) hfirst
    have hne : u ≠ t := fun heq => by
      rw [heq, class_self LockPoint.isReader (s := s) rfl] at hu
      exact Bool.false_ne_true hu
    rw [class_other LockPoint.isReader (s := s) rfl hne] at hu
    exact {
      count := h.count_leave rfl hp rfl rfl (by rfl)
      readerLock := holder_keep h.readerLock rfl (by rw [hp]; rfl)
      owner := holder_keep h.owner rfl (by rw [hp]; rfl)
      semaphore := h.semaphore.share rfl hne hu rfl rfl
      first := h.first_mono rfl hp (fun hf => hf) fun _ => rfl }
  | lastReader hp =>
    exact {
      count := h.count_same rfl hp rfl (by rfl)
      readerLock := holder_keep h.readerLock rfl (by rw [hp]; rfl)
      owner := holder_keep h.owner rfl (by rw [hp]; rfl)
      semaphore := h.semaphore.release rfl (by rw [hp]; rfl) ⟨rfl, rfl⟩ rfl
      first := h.first_mono rfl hp (fun hf => hf) fun hr => hr }
  | takeWriter c hp hfree =>
    exact {
      count := h.count_same rfl hp rfl (by rfl)
      readerLock := holder_keep h.readerLock rfl (by rw [hp]; rfl)
      owner := holder_keep h.owner rfl (by rw [hp]; rfl)
      semaphore := h.semaphore.take rfl hfree rfl rfl
      first := h.first_mono rfl hp (fun hf => hf) fun hr => hr }
  | setOwner hp =>
    have hnone : s.writerOwner = none := by
      cases howner : s.writerOwner with
      | none => rfl
      | some v =>
        have hv := (h.owner v).mp howner
        have heq : v = t := h.semaphore.alone_unique (isOwner_isAlone hv) (by rw [hp]; rfl)
        rw [heq, hp] at hv
        exact absurd hv Bool.false_ne_true
    exact {
      count := h.count_same rfl hp rfl (by rfl)
      readerLock := holder_keep h.readerLock rfl (by rw [hp]; rfl)
      owner := holder_take h.owner rfl hnone rfl
      semaphore := h.semaphore.keep rfl (by rw [hp]; rfl) (by rw [hp]; rfl) rfl
      first := h.first_mono rfl hp (fun hf => hf) fun hr => hr }
  | unlockWriter hp =>
    exact {
      count := h.count_same rfl hp rfl (by rfl)
      readerLock := holder_keep h.readerLock rfl (by rw [hp]; rfl)
      owner := holder_drop h.owner rfl (by rw [hp]; rfl) rfl
      semaphore := h.semaphore.keep rfl (by rw [hp]; rfl) (by rw [hp]; rfl) rfl
      first := h.first_mono rfl hp (fun hf => hf) fun hr => hr }
  | releaseWriter hp =>
    exact {
      count := h.count_same rfl hp rfl (by rfl)
      readerLock := holder_keep h.readerLock rfl (by rw [hp]; rfl)
      owner := holder_keep h.owner rfl (by rw [hp]; rfl)
      semaphore := h.semaphore.release rfl (by rw [hp]; rfl) ⟨rfl, rfl⟩ rfl
      first := h.first_mono rfl hp (fun hf => hf) fun hr => hr }

/-- A run keeps the invariant. -/
theorem ReaderWriterLock.Inv.run {steps : List (Thread × LockAction)} (h : s.Inv)
    (hrun : s.run steps = some s') : s'.Inv := by
  induction steps generalizing s with
  | nil =>
    cases hrun
    exact h
  | cons x steps ih =>
    obtain ⟨t, a⟩ := x
    obtain ⟨s₁, hstep, hrest⟩ := Option.bind_eq_some_iff.mp hrun
    exact ih (h.step (step_cases hstep)) hrest

end invariant

end NtAdmin.Drizzle.Newjob
