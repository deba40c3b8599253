import NtAdmin.Drizzle.Newjob.VolumeLock
import NtAdmin.Lib.Runs

/-! The jobs that wait for a volume, in every run of the job manager. -/
namespace NtAdmin.Drizzle.Newjob.Selection

open NtAdmin.Lib CJob

/-- The volume of each file of a job, and behind them that of the reply file. -/
abbrev FileVolumes (Volume : Type) := JobPtr → ℕ → Option Volume

/-- `lock` and `unlock` are the calls of `OnDeviceLock` and `OnDeviceUnlock`. -/
inductive VolumeEvent (Volume : Type)
  | lock (v : Volume)
  | unlock (v : Volume)
  | other (e : Event)

/-- The manager, the volume because of which each job is locked, and which volumes are locked. -/
structure VolumeState (Volume : Type) where
  manager : CJobManager
  lockedBy : JobPtr → Option Volume
  locked : Volume → Bool

section run
variable {Volume : Type} [DecidableEq Volume] (files : FileVolumes Volume)

/-- `IsCanonicalVolume` of the current file. -/
def CJobManager.onVolume (s : CJobManager) (v : Volume) (j : JobPtr) : Bool :=
  files j (s.job j).m_CurrentFile = some v

/-- The jobs that `OnDeviceLock` and `OnDeviceUnlock` change. -/
def CJobManager.affected (s : CJobManager) (v : Volume) (j : JobPtr) : Prop :=
  j ∈ s.m_OnlineJobs ∧ s.isTransferringToDrive (s.onVolume files v) j = true

instance (s : CJobManager) (v : Volume) : DecidablePred (s.affected files v) :=
  fun _ => inferInstanceAs (Decidable (_ ∧ _))

namespace VolumeState

def step (st : VolumeState Volume) : VolumeEvent Volume → Option (VolumeState Volume)
  | .lock v => some
    { manager := st.manager.onDeviceLock (st.manager.onVolume files v)
      lockedBy := fun j => if st.manager.affected files v j then some v else st.lockedBy j
      locked := Function.update st.locked v true }
  | .unlock v => some
    { manager := st.manager.onDeviceUnlock (st.manager.onVolume files v)
      lockedBy := fun j => if st.manager.affected files v j then none else st.lockedBy j
      locked := Function.update st.locked v false }
  | .other (.onDeviceLock _) => none
  | .other (.onDeviceUnlock _) => none
  | .other (.createJob j type sid) =>
    (st.manager.step (.createJob j type sid)).map fun s =>
      { st with manager := s, lockedBy := Function.update st.lockedBy j none }
  | .other e => (st.manager.step e).map fun s => { st with manager := s }

/-- The service has started, and no job is locked. -/
def start (s : CJobManager) : VolumeState Volume where
  manager := s
  lockedBy _ := none
  locked _ := false

/-- Each job that is locked is so because of a volume that is. -/
def Released (st : VolumeState Volume) : Prop :=
  ∀ j ∈ st.manager.live, (st.manager.job j).m_fVolumeLocked = true →
    ∃ v, st.lockedBy j = some v ∧ st.locked v = true

/-- A volume is unlocked while the jobs that it locked are online with their current file on it. -/
def Meets (st : VolumeState Volume) : VolumeEvent Volume → Prop
  | .unlock v => ∀ j ∈ st.manager.live, st.lockedBy j = some v → st.manager.affected files v j
  | _ => True

end VolumeState

end run

/-! The loop over the online jobs. -/

namespace CJob

/-- What tells whether a job has a current file. -/
theorem recalcTransientError_file (AddressCount : ℤ) (ForResume : Bool) (job : CJob) :
    (job.recalcTransientError AddressCount ForResume).m_type = job.m_type ∧
      (job.recalcTransientError AddressCount ForResume).m_CurrentFile = job.m_CurrentFile ∧
      (job.recalcTransientError AddressCount ForResume).m_files = job.m_files := by
  have hstate : ∀ (state : BG_JOB_STATE) (job : CJob), (job.setState state).m_type = job.m_type ∧
      (job.setState state).m_CurrentFile = job.m_CurrentFile ∧
      (job.setState state).m_files = job.m_files := by
    intro state job
    unfold setState
    split_ifs <;> exact ⟨rfl, rfl, rfl⟩
  have herror : ∀ job : CJob, (job.setTransientError false).m_type = job.m_type ∧
      (job.setTransientError false).m_CurrentFile = job.m_CurrentFile ∧
      (job.setTransientError false).m_files = job.m_files := by
    intro job
    unfold setTransientError
    dsimp only
    split_ifs
    · exact ⟨rfl, rfl, rfl⟩
    · exact hstate _ job
  have hqueued := hstate .QUEUED job
  unfold recalcTransientError
  dsimp only
  split_ifs
  all_goals
    first
    | exact ⟨rfl, rfl, rfl⟩
    | exact hqueued
    | exact herror _
    | exact ⟨(herror _).1.trans hqueued.1, (herror _).2.1.trans hqueued.2.1,
        (herror _).2.2.trans hqueued.2.2⟩

end CJob

namespace CJobManager
variable {s : CJobManager} {onVolume : JobPtr → Bool} {locked : Bool}

theorem job_interruptDownload (s : CJobManager) : s.interruptDownload.job = s.job := by
  unfold interruptDownload cancelWorkItem
  split <;> rfl

theorem AddressCount_interruptDownload (s : CJobManager) :
    s.interruptDownload.AddressCount = s.AddressCount := by
  unfold interruptDownload cancelWorkItem
  split <;> rfl

/-- The job on the volume has the new flag and is queued or waits. -/
theorem job_setVolumeLocked {j : JobPtr} (hj : s.isTransferringToDrive onVolume j = true) :
    (s.setVolumeLocked locked onVolume j).job = Function.update s.job j
      (CJob.recalcTransientError s.AddressCount false
        { s.job j with m_fVolumeLocked := locked }) := by
  have hset : ∀ t : CJobManager, t.job = s.job → t.AddressCount = s.AddressCount →
      ((t.modifyJob j fun job => { job with m_fVolumeLocked := locked }).recalcTransientError j
        false).job = Function.update s.job j (CJob.recalcTransientError s.AddressCount false
          { s.job j with m_fVolumeLocked := locked }) := by
    intro t hjob haddress
    simp only [CJobManager.recalcTransientError, modifyJob, hjob, haddress,
      Function.update_self, Function.update_idem]
  unfold setVolumeLocked
  rw [if_pos hj]
  dsimp only
  split_ifs
  · exact hset _ (job_interruptDownload s) (AddressCount_interruptDownload s)
  · exact hset s rfl rfl

theorem setVolumeLocked_of_not {j : JobPtr} (hj : s.isTransferringToDrive onVolume j = false) :
    s.setVolumeLocked locked onVolume j = s := by
  unfold setVolumeLocked
  rw [hj, if_neg Bool.false_ne_true]

theorem setVolumeLocked_transferring (j k : JobPtr) :
    (s.setVolumeLocked locked onVolume j).isTransferringToDrive onVolume k =
      s.isTransferringToDrive onVolume k := by
  cases hj : s.isTransferringToDrive onVolume j with
  | false => rw [setVolumeLocked_of_not hj]
  | true =>
    obtain ⟨htype, hcurrent, hfiles⟩ := recalcTransientError_file s.AddressCount false
      { s.job j with m_fVolumeLocked := locked }
    unfold isTransferringToDrive
    rw [job_setVolumeLocked hj]
    by_cases hk : k = j
    · rw [hk, Function.update_self]
      simp only [isDownload, hasCurrentFile, htype, hcurrent, hfiles]
    · rw [Function.update_of_ne hk]

theorem setVolumeLocked_flag (j k : JobPtr) :
    ((s.setVolumeLocked locked onVolume j).job k).m_fVolumeLocked =
      if k = j ∧ s.isTransferringToDrive onVolume k = true then locked
      else (s.job k).m_fVolumeLocked := by
  cases hj : s.isTransferringToDrive onVolume j with
  | false =>
    have hcond : ¬(k = j ∧ s.isTransferringToDrive onVolume k = true) := by
      rintro ⟨rfl, hk⟩
      exact Bool.noConfusion (hj.symm.trans hk)
    rw [setVolumeLocked_of_not hj, if_neg hcond]
  | true =>
    rw [job_setVolumeLocked hj]
    by_cases hk : k = j
    · rw [hk, if_pos ⟨rfl, hj⟩, Function.update_self, keepsFlag_recalcTransientError]
    · rw [if_neg fun h => hk h.1, Function.update_of_ne hk]

/-- The loop changes the flags of the jobs on the volume. -/
theorem forJobs_setVolumeLocked_flag (l : List JobPtr) (k : JobPtr) :
    ((forJobs (setVolumeLocked locked onVolume) l s).job k).m_fVolumeLocked =
      if k ∈ l ∧ s.isTransferringToDrive onVolume k = true then locked
      else (s.job k).m_fVolumeLocked := by
  induction l generalizing s with
  | nil => rw [if_neg fun h => (nomatch h.1)]; rfl
  | cons j l ih =>
    have hloop : forJobs (setVolumeLocked locked onVolume) (j :: l) s =
        forJobs (setVolumeLocked locked onVolume) l (s.setVolumeLocked locked onVolume j) := rfl
    rw [hloop, ih, setVolumeLocked_transferring, setVolumeLocked_flag]
    by_cases ht : s.isTransferringToDrive onVolume k = true
    · by_cases hk : k = j
      · have hmem : k ∈ j :: l := hk ▸ List.mem_cons_self
        rw [if_pos (⟨hk, ht⟩ : k = j ∧ _), ite_self, if_pos ⟨hmem, ht⟩]
      · simp [ht, hk]
    · simp [ht]

theorem live_setVolumeLocked (j : JobPtr) :
    (s.setVolumeLocked locked onVolume j).live = s.live := by
  unfold setVolumeLocked
  dsimp only
  split_ifs
  · unfold interruptDownload cancelWorkItem
    split <;> rfl
  · rfl
  · rfl

theorem live_forJobs_setVolumeLocked (l : List JobPtr) :
    (forJobs (setVolumeLocked locked onVolume) l s).live = s.live := by
  induction l generalizing s with
  | nil => rfl
  | cons j l ih => exact ih.trans (live_setVolumeLocked j)

/-- Nothing that `ScheduleAnotherGroup` does removes a job. -/
theorem live_scheduleAnotherGroup (s : CJobManager) : s.scheduleAnotherGroup.live = s.live := by
  have hcancel : ∀ s : CJobManager, s.cancelWorkItem.live = s.live := by
    intro s
    unfold cancelWorkItem
    split <;> rfl
  have hretire : s.retireCurrentJob.live = s.live := by
    unfold retireCurrentJob
    split
    · split_ifs <;> rfl
    · rfl
  have hchoose : s.chooseCurrentJob.live = s.live := by
    unfold chooseCurrentJob
    split_ifs
    · rfl
    · exact hretire
  have hrestart : ∀ (old : Option JobPtr) (s : CJobManager), (s.restartDownload old).live = s.live := by
    intro old s
    unfold restartDownload
    split
    · dsimp only
      split_ifs
      all_goals
        first
        | exact hcancel s
        | rfl
    · exact hcancel s
  unfold scheduleAnotherGroup
  dsimp only
  rw [hrestart]
  split_ifs
  · rfl
  · exact hchoose

variable (s onVolume locked) in
theorem onDeviceChange_flag (k : JobPtr) :
    ((s.onDeviceChange locked onVolume).job k).m_fVolumeLocked =
      if k ∈ s.m_OnlineJobs ∧ s.isTransferringToDrive onVolume k = true then locked
      else (s.job k).m_fVolumeLocked := by
  rw [← forJobs_setVolumeLocked_flag]
  unfold onDeviceChange
  dsimp only
  split_ifs
  · exact (keeps_scheduleAnotherGroup _).flag k
  · rfl

variable (s onVolume locked) in
theorem live_onDeviceChange : (s.onDeviceChange locked onVolume).live = s.live := by
  unfold onDeviceChange
  dsimp only
  split_ifs
  · exact (live_scheduleAnotherGroup _).trans (live_forJobs_setVolumeLocked _)
  · exact live_forJobs_setVolumeLocked _

theorem call_keeps {t : CJobManager} {j : JobPtr} {f : CJobManager → CJobManager}
    (ht : s.call j f = some t) (hf : Keeps s (f s)) : Keeps s t := by
  unfold CJobManager.call at ht
  split_ifs at ht
  rwa [← Option.some.inj ht]

theorem download_keeps {t : CJobManager} {f : JobPtr → ℕ → CJobManager → CJobManager}
    (ht : s.download f = some t) (hf : ∀ j n, Keeps s (f j n s)) : Keeps s t := by
  unfold CJobManager.download at ht
  split at ht
  · rw [← Option.some.inj ht]
    exact hf _ _
  · contradiction

/-- Only new jobs and devices change what jobs there are and which of them are locked. -/
theorem step_keeps {t : CJobManager} {e : Event} (ht : s.step e = some t)
    (hcreate : ∀ j type sid, e ≠ .createJob j type sid)
    (hlock : ∀ onVolume, e ≠ .onDeviceLock onVolume)
    (hunlock : ∀ onVolume, e ≠ .onDeviceUnlock onVolume) : Keeps s t := by
  cases e <;> dsimp only [CJobManager.step] at ht
  case createJob j type sid => exact absurd rfl (hcreate j type sid)
  case onDeviceLock onVolume => exact absurd rfl (hlock onVolume)
  case onDeviceUnlock onVolume => exact absurd rfl (hunlock onVolume)
  case addFileSet j cFileCount => exact call_keeps ht (keeps_addFileSet j cFileCount s)
  case setPriority j Val => exact call_keeps ht (keeps_setPriority Val s)
  case setNoProgressTimeout j Val =>
    apply call_keeps ht
    unfold setNoProgressTimeout
    dsimp only
    exact keeps_modifyJob fun _ => by rfl
  case setOldExternalJobInterface j =>
    apply call_keeps ht
    exact keeps_modifyJob fun _ => by rfl
  case rescheduleDownload j => exact call_keeps ht (keeps_rescheduleDownload s j)
  case suspend j => exact call_keeps ht (keeps_suspendJob s j)
  case resume j replyFile => exact call_keeps ht (keeps_resume replyFile s)
  case cancel j check => exact call_keeps ht (keeps_cancel check s)
  case complete j commit => exact call_keeps ht (keeps_complete commit s)
  case takeOwnership j sid valid => exact call_keeps ht (keeps_takeOwnership sid valid s)
  case onRetryJob j =>
    split_ifs at ht
    exact call_keeps ht (keeps_onRetryJob s j)
  case onNoProgress j timeout =>
    split_ifs at ht
    exact call_keeps ht (keeps_onNoProgress timeout s)
  case onInactivityTimeout j =>
    split_ifs at ht
    exact call_keeps ht (keeps_onInactivityTimeout s j)
  case logonSession sid =>
    rw [← Option.some.inj ht]
    exact keeps_logonSession sid s
  case logoffSession sid =>
    rw [← Option.some.inj ht]
    exact keeps_logoffSession sid s
  case addressCount n =>
    rw [← Option.some.inj ht]
    exact keeps_of_eq rfl rfl
  case onNetworkChange =>
    rw [← Option.some.inj ht]
    exact keeps_onNetworkChange s
  case networkChanged =>
    rw [← Option.some.inj ht]
    exact keeps_scheduleAnotherGroup s
  case onDismount onVolume timeout =>
    rw [← Option.some.inj ht]
    exact keeps_onDismount onVolume timeout s
  case transferCurrentJob copyToken =>
    split_ifs at ht
    rw [← Option.some.inj ht]
    exact keeps_transferCurrentJob copyToken s
  case progress bytes expired =>
    exact download_keeps ht fun j _ => keeps_progress bytes expired s j
  case setUploadState state =>
    apply download_keeps ht
    intro j _
    exact keeps_modifyJob fun _ => by rfl
  case transferred result moved timeout =>
    exact download_keeps ht fun j n => keeps_transferred n result moved timeout s j
  case driveChanged onVolume timeout =>
    exact download_keeps ht fun j _ => keeps_driveChanged onVolume timeout s j
  case aborted =>
    split_ifs at ht
    rw [← Option.some.inj ht]
    have haborting : Keeps s { s with aborting := s.aborting - 1 } := keeps_of_eq rfl rfl
    exact haborting.trans (keeps_endTransfer _)

end CJobManager

/-! ### Runs -/

namespace VolumeState
variable {Volume : Type} [DecidableEq Volume] {files : FileVolumes Volume}
  {st t : VolumeState Volume} {e : VolumeEvent Volume}

/-- A job is locked exactly when there is a volume because of which it is. -/
def Explained (st : VolumeState Volume) : Prop :=
  ∀ j, (st.manager.job j).m_fVolumeLocked = (st.lockedBy j).isSome

/-- What an event can do. -/
theorem step_cases (h : st.step files e = some t) :
    (∃ v, e = .lock v ∧ t.manager.live = st.manager.live ∧ t.locked = Function.update st.locked v true ∧
      (∀ j, t.lockedBy j = if st.manager.affected files v j then some v else st.lockedBy j) ∧
      ∀ j, (t.manager.job j).m_fVolumeLocked =
        if st.manager.affected files v j then true else (st.manager.job j).m_fVolumeLocked) ∨
    (∃ v, e = .unlock v ∧ t.manager.live = st.manager.live ∧
      t.locked = Function.update st.locked v false ∧
      (∀ j, t.lockedBy j = if st.manager.affected files v j then none else st.lockedBy j) ∧
      ∀ j, (t.manager.job j).m_fVolumeLocked =
        if st.manager.affected files v j then false else (st.manager.job j).m_fVolumeLocked) ∨
    ((∃ e', e = .other e') ∧ t.locked = st.locked ∧
      ∀ j, (t.lockedBy j = none ∧ (t.manager.job j).m_fVolumeLocked = false) ∨
        (t.lockedBy j = st.lockedBy j ∧
          (t.manager.job j).m_fVolumeLocked = (st.manager.job j).m_fVolumeLocked ∧
          (j ∈ t.manager.live → j ∈ st.manager.live))) := by
  have hkeeps : ∀ {e' : Event}, e = .other e' →
      (st.manager.step e').map (fun s => { st with manager := s }) = some t →
      (∀ j type sid, e' ≠ .createJob j type sid) → (∀ onVolume, e' ≠ .onDeviceLock onVolume) →
      (∀ onVolume, e' ≠ .onDeviceUnlock onVolume) →
      (∃ e', e = .other e') ∧ t.locked = st.locked ∧
        ∀ j, (t.lockedBy j = none ∧ (t.manager.job j).m_fVolumeLocked = false) ∨
          (t.lockedBy j = st.lockedBy j ∧
            (t.manager.job j).m_fVolumeLocked = (st.manager.job j).m_fVolumeLocked ∧
            (j ∈ t.manager.live → j ∈ st.manager.live)) := by
    intro e' he ht hcreate hlock hunlock
    obtain ⟨s, hs, rfl⟩ := Option.map_eq_some_iff.mp ht
    have hkeep := CJobManager.step_keeps hs hcreate hlock hunlock
    exact ⟨⟨e', he⟩, rfl, fun j => Or.inr ⟨rfl, hkeep.flag j, hkeep.live j⟩⟩
  cases e with
  | lock v =>
    left
    obtain rfl := Option.some.inj h
    refine ⟨v, rfl, CJobManager.live_onDeviceChange _ _ _, rfl, fun _ => rfl, fun j => ?_⟩
    exact CJobManager.onDeviceChange_flag _ _ _ j
  | unlock v =>
    right
    left
    obtain rfl := Option.some.inj h
    refine ⟨v, rfl, CJobManager.live_onDeviceChange _ _ _, rfl, fun _ => rfl, fun j => ?_⟩
    exact CJobManager.onDeviceChange_flag _ _ _ j
  | other e' =>
    right
    right
    cases e' with
    | createJob j type sid =>
      obtain ⟨s, hs, rfl⟩ := Option.map_eq_some_iff.mp h
      simp only [CJobManager.step] at hs
      split_ifs at hs with hcreated
      obtain rfl := Option.some.inj hs
      refine ⟨⟨_, rfl⟩, rfl, fun k => ?_⟩
      by_cases hk : k = j
      · left
        rw [hk]
        simp [CJobManager.createJob, CJob.new]
      · right
        simp [CJobManager.createJob, hk]
    | onDeviceLock onVolume => cases h
    | onDeviceUnlock onVolume => cases h
    | _ =>
      exact hkeeps rfl h (fun _ _ _ he => by cases he) (fun _ he => by cases he)
        fun _ he => by cases he

theorem Explained.step (hst : Explained st) (h : st.step files e = some t) : Explained t := by
  intro j
  rcases step_cases h with ⟨v, -, -, -, hby, hflag⟩ | ⟨v, -, -, -, hby, hflag⟩ | ⟨-, -, hother⟩
  · rw [hby, hflag]
    split_ifs
    · rfl
    · exact hst j
  · rw [hby, hflag]
    split_ifs
    · rfl
    · exact hst j
  · rcases hother j with ⟨hby, hflag⟩ | ⟨hby, hflag, -⟩
    · rw [hby, hflag]
      rfl
    · rw [hby, hflag]
      exact hst j

/-- An event that meets the condition keeps the jobs released. -/
theorem Released.step (hst : Released st) (he : st.Meets files e)
    (h : st.step files e = some t) : Released t := by
  intro j hj hjlocked
  rcases step_cases h with ⟨v, -, hlive, hlocked, hby, hflag⟩ |
    ⟨v, rfl, hlive, hlocked, hby, hflag⟩ | ⟨-, hlocked, hother⟩
  · rw [hlive] at hj
    rw [hby, hlocked]
    rw [hflag] at hjlocked
    split_ifs at hjlocked ⊢
    · exact ⟨v, rfl, Function.update_self ..⟩
    · obtain ⟨w, hw, hwlocked⟩ := hst j hj hjlocked
      refine ⟨w, hw, ?_⟩
      by_cases hwv : w = v
      · rw [hwv, Function.update_self]
      · rw [Function.update_of_ne hwv]
        exact hwlocked
  · rw [hlive] at hj
    rw [hby, hlocked]
    rw [hflag] at hjlocked
    split_ifs at hjlocked ⊢ with hnot
    obtain ⟨w, hw, hwlocked⟩ := hst j hj hjlocked
    have hwv : w ≠ v := by
      rintro rfl
      exact hnot (he j hj hw)
    refine ⟨w, hw, ?_⟩
    rw [Function.update_of_ne hwv]
    exact hwlocked
  · rcases hother j with ⟨-, hfalse⟩ | ⟨hby, hflag, hlive⟩
    · exact Bool.noConfusion (hfalse.symm.trans hjlocked)
    · rw [hby, hlocked]
      exact hst j (hlive hj) (hflag.symm.trans hjlocked)

/-- Only an event that meets the condition leaves the jobs released. -/
theorem Released.meets (hexp : Explained st) (h : st.step files e = some t) (ht : Released t) :
    st.Meets files e := by
  rcases step_cases h with ⟨v, rfl, -⟩ | ⟨v, rfl, hlive, hlocked, hby, hflag⟩ | ⟨⟨e', rfl⟩, -⟩
  · trivial
  · intro j hj hjby
    by_contra hnot
    have hflagged : (t.manager.job j).m_fVolumeLocked = true := by
      rw [hflag, if_neg hnot, hexp j, hjby]
      rfl
    obtain ⟨w, hw, hwlocked⟩ := ht j (hlive ▸ hj) hflagged
    rw [hby, if_neg hnot, hjby] at hw
    rw [hlocked, ← Option.some.inj hw, Function.update_self] at hwlocked
    exact Bool.noConfusion hwlocked
  · trivial

/-- In every run from a start without locked jobs each job stays locked only while the volume is
that it waits for, exactly when at every unlocking of a volume the jobs that wait for it are online
and have their current file on it. -/
theorem start_always_released_iff (s : CJobManager)
    (hs : ∀ j, (s.job j).m_fVolumeLocked = false) (events : List (VolumeEvent Volume)) :
    Always (step files) Released (start s) events ↔
      StepsMeet (step files) (Meets files) (start s) events := by
  have hexp : Explained (start s : VolumeState Volume) := hs
  have hreleased : Released (start s : VolumeState Volume) := by
    intro j _ hj
    exact Bool.noConfusion ((hs j).symm.trans hj)
  refine always_iff_stepsMeet (I := fun st => Explained st ∧ Released st) (fun _ h => h.2) ?_ ?_
    ⟨hexp, hreleased⟩ events
  · intro st e t h he ht
    exact ⟨h.1.step ht, h.2.step he ht⟩
  · intro st e t h ht hreleased
    exact hreleased.meets h.1 ht

/-- All files are on the first volume. -/
def firstVolume : FileVolumes ℕ := fun _ _ => some 0

/-- The job waits while the volume is locked. -/
theorem queuedJob_released :
    Always (step firstVolume) Released (start CJobManager.queuedJob) [.lock 0, .unlock 0] := by
  refine (start_always_released_iff CJobManager.queuedJob (fun _ => rfl) _).mpr ?_
  refine fun t ht => ⟨trivial, fun r _ => ⟨?_, trivial⟩⟩
  obtain rfl := Option.some.inj ht
  intro j hj _
  have hone : j = 1 := by
    have hlive : j ∈ CJobManager.queuedJob.live := by
      rw [← CJobManager.live_onDeviceChange CJobManager.queuedJob _ true]
      exact hj
    exact List.mem_singleton.mp hlive
  rw [hone]
  decide +kernel

/-- The owner logs off between the lock and the unlock. -/
def logoffEvents : List (VolumeEvent ℕ) :=
  [.lock 0, .other (.logoffSession 7), .unlock 0, .other (.logonSession 7)]

theorem run_logoffEvents :
    (runEvents (step firstVolume) (start CJobManager.queuedJob) logoffEvents).isSome = true := by
  decide +kernel

def afterLogoffEvents : VolumeState ℕ :=
  (runEvents (step firstVolume) (start CJobManager.queuedJob) logoffEvents).get run_logoffEvents

/-- The job stays locked when its volume is unlocked and its owner has come back. -/
theorem not_released_logoff :
    ¬∀ events, Always (step firstVolume) Released (start CJobManager.queuedJob) events := by
  intro h
  have hrun : runEvents (step firstVolume) (start CJobManager.queuedJob) logoffEvents =
      some afterLogoffEvents := (Option.some_get run_logoffEvents).symm
  have hreleased := (h logoffEvents).run hrun
  obtain ⟨v, hv, hlocked⟩ := hreleased 1 (by decide +kernel) (by decide +kernel)
  have hby : afterLogoffEvents.lockedBy 1 = some 0 := by decide +kernel
  have hunlocked : afterLogoffEvents.locked 0 = false := by decide +kernel
  rw [hby] at hv
  rw [← Option.some.inj hv, hunlocked] at hlocked
  exact Bool.noConfusion hlocked

end VolumeState

end NtAdmin.Drizzle.Newjob.Selection
