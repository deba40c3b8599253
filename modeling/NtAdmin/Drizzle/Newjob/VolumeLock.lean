import NtAdmin.Drizzle.Newjob.ManagerRun

/-! Which handlers of the job manager touch `m_fVolumeLocked`. -/
namespace NtAdmin.Drizzle.Newjob.Selection

open NtAdmin.Lib CJob

/-- A change of a job that leaves the flag. -/
def CJob.KeepsFlag (f : CJob → CJob) : Prop :=
  ∀ job, (f job).m_fVolumeLocked = job.m_fVolumeLocked

namespace CJob

theorem keepsFlag_setState (state : BG_JOB_STATE) : KeepsFlag (setState state) := by
  intro job
  unfold setState
  split_ifs <;> rfl

theorem keepsFlag_setTransientError (fRetryLater : Bool) :
    KeepsFlag (setTransientError fRetryLater) := by
  intro job
  unfold setTransientError
  dsimp only
  split_ifs
  · rfl
  · exact keepsFlag_setState _ job

theorem keepsFlag_recalcTransientError (AddressCount : ℤ) (ForResume : Bool) :
    KeepsFlag (recalcTransientError AddressCount ForResume) := by
  intro job
  have hstate : (job.setState .QUEUED).m_fVolumeLocked = job.m_fVolumeLocked :=
    keepsFlag_setState _ job
  have herror : ∀ job : CJob, (job.setTransientError false).m_fVolumeLocked =
      job.m_fVolumeLocked := keepsFlag_setTransientError false
  unfold recalcTransientError
  dsimp only
  split_ifs
  all_goals
    first
    | rfl
    | exact hstate
    | exact herror _
    | exact (herror _).trans hstate

theorem keepsFlag_jobTransferred : KeepsFlag jobTransferred := keepsFlag_setState _

theorem keepsFlag_setError : KeepsFlag setError := fun _ => keepsFlag_setState _ _

theorem keepsFlag_fileTransientError (timeout : Bool) :
    KeepsFlag (fileTransientError timeout) := by
  intro job
  unfold fileTransientError
  dsimp only
  split_ifs
  · exact keepsFlag_setTransientError true job
  · exact keepsFlag_setTransientError true job
  · exact keepsFlag_setTransientError true job
  · exact keepsFlag_setState _ job
  · exact keepsFlag_setTransientError true job

theorem keepsFlag_updateProgress (BytesTransferred : ℕ) :
    KeepsFlag (updateProgress BytesTransferred) := by
  intro job
  unfold updateProgress
  dsimp only
  split_ifs
  · exact keepsFlag_setState _ job
  · rfl

end CJob

namespace CJobManager

/-- No flag changes and no job is added. -/
structure Keeps (s t : CJobManager) : Prop where
  flag : ∀ j, (t.job j).m_fVolumeLocked = (s.job j).m_fVolumeLocked
  live : ∀ j ∈ t.live, j ∈ s.live

variable {s t : CJobManager} {j : JobPtr}

theorem Keeps.refl (s : CJobManager) : Keeps s s where
  flag _ := by rfl
  live _ h := h

theorem Keeps.trans {r : CJobManager} (hst : Keeps s t) (htr : Keeps t r) : Keeps s r where
  flag j := (htr.flag j).trans (hst.flag j)
  live j h := hst.live j (htr.live j h)

theorem Keeps.ite {c : Prop} [Decidable c] {r : CJobManager} (ht : Keeps s t) (hr : Keeps s r) :
    Keeps s (if c then t else r) := by
  split_ifs
  · exact ht
  · exact hr

/-- The lists, the current job and the work item may change. -/
theorem keeps_of_eq (hjob : t.job = s.job) (hlive : t.live = s.live) : Keeps s t where
  flag j := by rw [hjob]
  live j h := by rwa [hlive] at h

theorem keeps_modifyJob {f : CJob → CJob} (hf : KeepsFlag f) : Keeps s (s.modifyJob j f) where
  flag k := by
    by_cases hk : k = j
    · simp only [hk, modifyJob, Function.update_self]
      exact hf _
    · simp only [modifyJob, Function.update_of_ne hk]
  live _ h := h

theorem keeps_recalcTransientError (ForResume : Bool) :
    Keeps s (s.recalcTransientError j ForResume) :=
  keeps_modifyJob (keepsFlag_recalcTransientError _ _)

theorem keeps_cancelWorkItem (s : CJobManager) : Keeps s s.cancelWorkItem := by
  unfold cancelWorkItem
  split
  · exact keeps_of_eq rfl rfl
  · exact keeps_of_eq rfl rfl

theorem keeps_completeWorkItem (s : CJobManager) : Keeps s s.completeWorkItem :=
  Keeps.ite (keeps_of_eq rfl rfl) (Keeps.refl s)

theorem keeps_interruptDownload (s : CJobManager) : Keeps s s.interruptDownload :=
  keeps_cancelWorkItem s

theorem keeps_retireCurrentJob (s : CJobManager) : Keeps s s.retireCurrentJob := by
  unfold retireCurrentJob
  split
  · exact Keeps.ite (keeps_recalcTransientError false) (Keeps.refl s)
  · exact Keeps.refl s

theorem keeps_chooseCurrentJob (s : CJobManager) : Keeps s s.chooseCurrentJob :=
  Keeps.ite (Keeps.refl s) ((keeps_retireCurrentJob s).trans (keeps_of_eq rfl rfl))

theorem keeps_restartDownload (pOldCurrentJob : Option JobPtr) (s : CJobManager) :
    Keeps s (s.restartDownload pOldCurrentJob) := by
  unfold restartDownload
  split
  · dsimp only
    have hcancel : Keeps s (if s.m_CurrentJob ≠ pOldCurrentJob then s.cancelWorkItem else s) :=
      Keeps.ite (keeps_cancelWorkItem s) (Keeps.refl s)
    exact hcancel.trans (Keeps.ite (Keeps.refl _) (keeps_of_eq rfl rfl))
  · exact keeps_cancelWorkItem s

theorem keeps_scheduleAnotherGroup (s : CJobManager) : Keeps s s.scheduleAnotherGroup := by
  have hchosen : Keeps s
      (if s.shuttingDown then { s with m_CurrentJob := none } else s.chooseCurrentJob) :=
    Keeps.ite (keeps_of_eq rfl rfl) (keeps_chooseCurrentJob s)
  exact hchosen.trans (keeps_restartDownload _ _)

theorem keeps_moveJobOffline (s : CJobManager) (j : JobPtr) : Keeps s (s.moveJobOffline j) :=
  keeps_of_eq rfl rfl

theorem keeps_appendOnline (s : CJobManager) (j : JobPtr) : Keeps s (s.appendOnline j) :=
  Keeps.ite (keeps_of_eq rfl rfl) (keeps_of_eq rfl rfl)

theorem keeps_removeJob (s : CJobManager) (j : JobPtr) : Keeps s (s.removeJob j) := by
  apply Keeps.ite
  · exact ⟨fun _ => by rfl, fun _ h => List.mem_of_mem_filter h⟩
  · exact ⟨fun _ => by rfl, fun _ h => List.mem_of_mem_filter h⟩

theorem keeps_removeFromManager (s : CJobManager) (j : JobPtr) :
    Keeps s (s.removeFromManager j) := by
  have hitems : Keeps s (s.modifyJob j CJob.cancelWorkitems) := keeps_modifyJob fun _ => by rfl
  apply hitems.trans
  exact Keeps.ite ((keeps_removeJob _ j).trans (keeps_scheduleAnotherGroup _)) (Keeps.refl _)

theorem keeps_retaskJob (s : CJobManager) (j : JobPtr) : Keeps s (s.retaskJob j) :=
  (Keeps.ite (keeps_interruptDownload s) (Keeps.refl s)).trans (keeps_scheduleAnotherGroup _)

theorem keeps_checkForQuantumTimeout (expired : Bool) (s : CJobManager) :
    Keeps s (s.checkForQuantumTimeout expired) := by
  unfold checkForQuantumTimeout
  split
  · exact Keeps.ite (Keeps.refl s) (Keeps.ite (keeps_of_eq rfl rfl) (Keeps.refl s))
  · exact Keeps.refl s

theorem keeps_fileFatalError (timeout : Bool) (s : CJobManager) :
    Keeps s (s.fileFatalError timeout j) := by
  unfold fileFatalError
  split_ifs
  · exact keeps_modifyJob keepsFlag_setError
  · exact keeps_removeFromManager s j
  · exact keeps_modifyJob (keepsFlag_fileTransientError timeout)
  · exact keeps_modifyJob keepsFlag_setError

theorem keeps_fileComplete (moved : Bool) (s : CJobManager) :
    Keeps s (s.fileComplete moved j) := by
  have hnext : KeepsFlag fun job =>
      let next := { job with m_CurrentFile := job.m_CurrentFile + 1 }
      if next.m_CurrentFile = next.m_files then next.jobTransferred else next := by
    intro job
    dsimp only
    split_ifs
    · exact keepsFlag_jobTransferred _
    · rfl
  unfold fileComplete
  split_ifs
  · exact keeps_fileFatalError false s
  · exact keeps_modifyJob hnext
  · exact keeps_removeFromManager s j
  · exact keeps_modifyJob fun job => keepsFlag_jobTransferred _

/-! The calls of applications. -/

theorem keeps_handleAddFile (s : CJobManager) (j : JobPtr) : Keeps s (s.handleAddFile j) := by
  have hqueued : KeepsFlag fun job =>
      if job.m_state = .TRANSFERRED then
        { job.setState .QUEUED with retryItem := false, noProgressItem := false }
      else job := by
    intro job
    dsimp only
    split_ifs
    · exact keepsFlag_setState _ job
    · rfl
  exact (keeps_modifyJob hqueued).trans (keeps_retaskJob _ j)

theorem keeps_addFile (s : CJobManager) (j : JobPtr) : Keeps s (s.addFile j).2 := by
  unfold addFile
  split_ifs
  · exact Keeps.refl s
  · exact Keeps.refl s
  · dsimp only
    exact keeps_modifyJob fun _ => by rfl

theorem keeps_addFiles (j : JobPtr) (cFileCount : ℕ) (s : CJobManager) :
    Keeps s (addFiles j cFileCount s).2 := by
  induction cFileCount generalizing s with
  | zero => exact Keeps.refl s
  | succ cFileCount ih =>
    have hfile := keeps_addFile s j
    unfold addFiles
    split
    · rename_i s' hs
      rw [hs] at hfile
      exact hfile.trans (ih s')
    · exact hfile

theorem keeps_addFileSet (j : JobPtr) (cFileCount : ℕ) (s : CJobManager) :
    Keeps s (s.addFileSet j cFileCount).2 := by
  have hfiles := keeps_addFiles j cFileCount s
  unfold addFileSet
  split
  · rename_i s' hs
    rw [hs] at hfiles
    exact hfiles.trans (keeps_handleAddFile s' j)
  · rename_i hr s' _ hs
    rw [hs] at hfiles
    apply hfiles.trans
    dsimp only
    exact keeps_modifyJob fun _ => by rfl

theorem keeps_setPriority (Val : ℤ) (s : CJobManager) : Keeps s (s.setPriority j Val).2 := by
  have hpriority : Keeps s (s.modifyJob j fun job => { job with m_priority := Val }) :=
    keeps_modifyJob fun _ => by rfl
  unfold setPriority
  split_ifs
  · exact Keeps.refl s
  · exact Keeps.refl s
  · exact hpriority.trans (keeps_retaskJob _ j)

theorem keeps_setSuspended (s : CJobManager) (j : JobPtr) : Keeps s (s.setSuspended j) := by
  have hstate : KeepsFlag fun job : CJob =>
      { job with noProgressItem := false }.setState .SUSPENDED := fun _ => keepsFlag_setState _ _
  exact (keeps_modifyJob hstate).trans (keeps_scheduleAnotherGroup _)

theorem keeps_suspendJob (s : CJobManager) (j : JobPtr) : Keeps s (s.suspendJob j).2 := by
  have hinterrupt := (keeps_interruptDownload s).trans (keeps_setSuspended _ j)
  unfold suspendJob
  split
  · exact Keeps.refl s
  · exact hinterrupt
  · exact hinterrupt
  · exact keeps_setSuspended s j
  · exact keeps_setSuspended s j
  · exact keeps_setSuspended s j
  · exact keeps_setSuspended s j
  · exact Keeps.refl s
  · exact Keeps.refl s

theorem keeps_setResumed (s : CJobManager) (j : JobPtr) : Keeps s (s.setResumed j) := by
  have hrecalc : Keeps s (s.recalcTransientError j true) := keeps_recalcTransientError true
  apply hrecalc.trans
  exact (Keeps.ite (keeps_appendOnline _ j) (Keeps.refl _)).trans (keeps_scheduleAnotherGroup _)

theorem keeps_resume (replyFile : HRESULT) (s : CJobManager) :
    Keeps s (s.resume j replyFile).2 := by
  unfold resume
  split_ifs
  · exact Keeps.refl s
  · exact Keeps.refl s
  all_goals
    split
    all_goals
      first
      | exact Keeps.refl s
      | exact keeps_setResumed s j
      | exact keeps_modifyJob keepsFlag_jobTransferred

theorem keeps_setCancelled (s : CJobManager) (j : JobPtr) : Keeps s (s.setCancelled j) := by
  have hstate : Keeps s (s.modifyJob j (CJob.setState .CANCELLED)) :=
    keeps_modifyJob (keepsFlag_setState _)
  apply hstate.trans
  apply Keeps.ite
  · exact (keeps_modifyJob fun _ => by rfl).trans (keeps_scheduleAnotherGroup _)
  · exact keeps_removeFromManager _ j

theorem keeps_cancel (check : HRESULT) (s : CJobManager) : Keeps s (s.cancel j check).2 := by
  have hinterrupt := keeps_interruptDownload s
  unfold cancel
  dsimp only
  split
  all_goals
    first
    | exact Keeps.refl s
    | split_ifs
      · exact hinterrupt.trans (keeps_setCancelled _ j)
      · exact hinterrupt
    | split_ifs
      · exact keeps_setCancelled s j
      · exact Keeps.refl s

theorem keeps_setAcknowledged (commit : HRESULT) (s : CJobManager) :
    Keeps s (s.setAcknowledged j commit).2 := by
  have hstate : Keeps s (s.modifyJob j (CJob.setState .ACKNOWLEDGED)) :=
    keeps_modifyJob (keepsFlag_setState _)
  unfold setAcknowledged
  split_ifs
  · exact hstate.trans (keeps_removeFromManager _ j)
  · exact Keeps.refl s

theorem keeps_complete (commit : HRESULT) (s : CJobManager) :
    Keeps s (s.complete j commit).2 := by
  unfold complete
  dsimp only
  split
  all_goals
    first
    | exact Keeps.refl s
    | exact keeps_setAcknowledged _ s
    | exact (keeps_suspendJob s j).trans (keeps_setAcknowledged _ _)

theorem keeps_resetOnlineStatus (sid : Sid) (s : CJobManager) :
    Keeps s (s.resetOnlineStatus j sid) :=
  Keeps.ite (keeps_of_eq rfl rfl) (Keeps.refl s)

theorem keeps_takeOwnership (sid : Sid) (valid : HRESULT) (s : CJobManager) :
    Keeps s (s.takeOwnership j sid valid).2 := by
  have hinterrupt := keeps_interruptDownload s
  have howner : ∀ t : CJobManager, Keeps t
      ((t.modifyJob j fun job => { job with m_NotifySid := sid }).resetOnlineStatus j
        sid).scheduleAnotherGroup := by
    intro t
    have hsid : Keeps t (t.modifyJob j fun job => { job with m_NotifySid := sid }) :=
      keeps_modifyJob fun _ => by rfl
    exact (hsid.trans (keeps_resetOnlineStatus sid _)).trans (keeps_scheduleAnotherGroup _)
  unfold takeOwnership
  dsimp only
  split_ifs
  · exact Keeps.refl s
  · exact hinterrupt.trans (howner _)
  · exact howner s
  · exact hinterrupt.trans (keeps_scheduleAnotherGroup _)
  · exact keeps_scheduleAnotherGroup s

theorem keeps_rescheduleDownload (s : CJobManager) (j : JobPtr) :
    Keeps s (s.rescheduleDownload j) :=
  Keeps.ite ((keeps_interruptDownload s).trans (keeps_scheduleAnotherGroup _)) (Keeps.refl s)

/-! The work items of a job. -/

theorem keeps_onRetryJob (s : CJobManager) (j : JobPtr) : Keeps s (s.onRetryJob j) := by
  have hitem : Keeps s (s.modifyJob j fun job => { job with retryItem := false }) :=
    keeps_modifyJob fun _ => by rfl
  have happend : ∀ t : CJobManager, Keeps t (t.appendOnline j).scheduleAnotherGroup :=
    fun t => (keeps_appendOnline t j).trans (keeps_scheduleAnotherGroup _)
  unfold onRetryJob
  apply hitem.trans
  dsimp only
  split_ifs
  · exact (keeps_modifyJob (keepsFlag_setState _)).trans (happend _)
  · exact (keeps_modifyJob fun _ => by rfl).trans (happend _)
  · exact keeps_scheduleAnotherGroup _

theorem keeps_onNoProgress (timeout : Bool) (s : CJobManager) :
    Keeps s (s.onNoProgress timeout j) := by
  have hdone : Keeps s (s.modifyJob j fun job => { job with noProgressItem := false }) :=
    keeps_modifyJob fun _ => by rfl
  have hfatal : ∀ t : CJobManager, Keeps t (t.fileFatalError timeout j).scheduleAnotherGroup :=
    fun t => (keeps_fileFatalError timeout t).trans (keeps_scheduleAnotherGroup _)
  unfold onNoProgress
  dsimp only
  split
  · exact hdone
  · exact (hdone.trans (keeps_interruptDownload _)).trans (hfatal _)
  · exact hdone.trans (hfatal _)

theorem keeps_onInactivityTimeout (s : CJobManager) (j : JobPtr) :
    Keeps s (s.onInactivityTimeout j) := by
  have hitem : Keeps s (s.modifyJob j fun job => { job with inactivityTimeout := false }) :=
    keeps_modifyJob fun _ => by rfl
  apply hitem.trans
  apply Keeps.ite
  · exact (keeps_modifyJob (keepsFlag_setState _)).trans (keeps_removeFromManager _ j)
  · exact keeps_removeFromManager _ j

/-! The events of the system. -/

theorem keeps_logonSession (sid : Sid) (s : CJobManager) : Keeps s (s.logonSession sid) := by
  have hlists : Keeps s
      { s with
        m_ActiveUsers := sid :: s.m_ActiveUsers
        m_OnlineJobs := s.m_OnlineJobs ++ s.m_OfflineJobs.filter fun j => (s.job j).isOwner sid
        m_OfflineJobs := s.m_OfflineJobs.filter fun j => !(s.job j).isOwner sid } :=
    keeps_of_eq rfl rfl
  exact hlists.trans (keeps_scheduleAnotherGroup _)

theorem keeps_userLoggedOff (sid : Sid) (s : CJobManager) : Keeps s (s.userLoggedOff sid) := by
  have hinterrupt := keeps_interruptDownload s
  unfold userLoggedOff
  dsimp only
  split_ifs
  · apply Keeps.trans _ (keeps_scheduleAnotherGroup _)
    exact hinterrupt.trans (keeps_of_eq rfl rfl)
  · exact keeps_of_eq rfl rfl

theorem keeps_logoffSession (sid : Sid) (s : CJobManager) : Keeps s (s.logoffSession sid) := by
  have husers : Keeps s { s with m_ActiveUsers := s.m_ActiveUsers.erase sid } :=
    keeps_of_eq rfl rfl
  unfold logoffSession
  dsimp only
  split_ifs
  · exact husers
  · exact husers.trans (keeps_userLoggedOff sid _)
  · exact Keeps.refl s

theorem keeps_forJobs {f : JobPtr → CJobManager → CJobManager} (hf : ∀ j s, Keeps s (f j s))
    (l : List JobPtr) (s : CJobManager) : Keeps s (forJobs f l s) := by
  induction l generalizing s with
  | nil => exact Keeps.refl s
  | cons j l ih => exact (hf j s).trans (ih (f j s))

theorem keeps_onNetworkChange (s : CJobManager) : Keeps s s.onNetworkChange := by
  have hrecalc : Keeps s s.recalcJobs := by
    have hjob : ∀ j s, Keeps s (recalcTransientError j false s) :=
      fun j s => keeps_recalcTransientError false
    exact (keeps_forJobs hjob _ s).trans (keeps_forJobs hjob _ _)
  apply Keeps.ite
  · exact hrecalc.trans (keeps_scheduleAnotherGroup _)
  · exact hrecalc.trans (keeps_scheduleAnotherGroup _)

theorem keeps_failFiles (onVolume timeout : JobPtr → Bool) (j : JobPtr) (s : CJobManager) :
    Keeps s (s.failFiles onVolume timeout j) := by
  unfold failFiles
  split
  all_goals
    first
    | exact Keeps.refl s
    | exact Keeps.ite (keeps_fileFatalError _ s) (Keeps.refl s)

theorem keeps_onDismount (onVolume timeout : JobPtr → Bool) (s : CJobManager) :
    Keeps s (s.onDismount onVolume timeout) :=
  (keeps_forJobs (keeps_failFiles onVolume timeout) _ s).trans (keeps_scheduleAnotherGroup _)

/-! The download thread. -/

theorem keeps_endTransfer (s : CJobManager) : Keeps s s.endTransfer :=
  (keeps_completeWorkItem s).trans (keeps_scheduleAnotherGroup _)

theorem keeps_withoutToken (s : CJobManager) (j : JobPtr) : Keeps s (s.withoutToken j) := by
  have hdone := keeps_completeWorkItem s
  apply Keeps.trans _ (keeps_endTransfer _)
  apply hdone.trans
  exact Keeps.ite (Keeps.refl _) (keeps_scheduleAnotherGroup _)

theorem keeps_connect (s : CJobManager) (j : JobPtr) : Keeps s (s.connect j) := by
  have hconnecting : Keeps s (s.modifyJob j (CJob.setState .CONNECTING)) :=
    keeps_modifyJob (keepsFlag_setState _)
  unfold connect
  split_ifs
  · exact hconnecting
  · exact Keeps.refl s
  · exact hconnecting
  · exact Keeps.refl s

theorem keeps_transfer (copyToken : Bool) (s : CJobManager) (j : JobPtr) :
    Keeps s (s.transfer j copyToken) := by
  have herror : Keeps s (s.modifyJob j (CJob.setTransientError false)) :=
    keeps_modifyJob (keepsFlag_setTransientError false)
  have hmoved : Keeps s ((s.moveJobOffline j).recalcTransientError j false) :=
    (keeps_moveJobOffline s j).trans (keeps_recalcTransientError false)
  unfold transfer
  split_ifs
  · exact herror.trans (keeps_withoutToken _ j)
  · exact (keeps_connect s j).trans (keeps_of_eq rfl rfl)
  · exact hmoved.trans (keeps_withoutToken _ j)

theorem keeps_transferCurrentJob (copyToken : Bool) (s : CJobManager) :
    Keeps s (s.transferCurrentJob copyToken) := by
  have hheld : Keeps s { s with workItem := .held } := keeps_of_eq rfl rfl
  apply hheld.trans
  unfold transferCurrentJob
  dsimp only
  split
  · exact keeps_endTransfer _
  · exact keeps_transfer copyToken _ _

theorem keeps_progress (BytesTransferred : Option ℕ) (expired : Bool) (s : CJobManager)
    (j : JobPtr) : Keeps s (s.progress j BytesTransferred expired) := by
  apply Keeps.trans _ (keeps_checkForQuantumTimeout expired _)
  cases BytesTransferred with
  | none => exact Keeps.refl s
  | some bytes => exact keeps_modifyJob (keepsFlag_updateProgress bytes)

theorem keeps_fileResult (result : FILE_DOWNLOAD_RESULT) (moved timeout : Bool) (s : CJobManager)
    (j : JobPtr) : Keeps s (s.fileResult j result moved timeout) := by
  cases result with
  | QM_FILE_TRANSIENT_ERROR => exact keeps_modifyJob (keepsFlag_fileTransientError timeout)
  | QM_FILE_DONE => exact keeps_fileComplete moved s
  | QM_FILE_FATAL_ERROR => exact keeps_fileFatalError timeout s
  | QM_FILE_ABORTED => exact Keeps.refl s
  | QM_SERVER_FILE_CHANGED =>
    exact Keeps.ite (keeps_fileFatalError timeout s) (keeps_appendOnline s j)

theorem keeps_transferred (tries : ℕ) (result : FILE_DOWNLOAD_RESULT) (moved timeout : Bool)
    (s : CJobManager) (j : JobPtr) : Keeps s (s.transferred j tries result moved timeout) := by
  have hheld : Keeps s { s with workItem := .held } := keeps_of_eq rfl rfl
  unfold transferred
  split_ifs
  · exact keeps_of_eq rfl rfl
  · apply Keeps.trans _ (keeps_endTransfer _)
    exact hheld.trans (keeps_fileResult result moved timeout _ j)
  · apply Keeps.trans _ (keeps_endTransfer _)
    exact (hheld.trans (keeps_completeWorkItem _)).trans
      (keeps_fileResult result moved timeout _ j)

theorem keeps_driveChanged (onVolume timeout : JobPtr → Bool) (s : CJobManager) (j : JobPtr) :
    Keeps s (s.driveChanged j onVolume timeout) := by
  have hheld : Keeps s { s with workItem := .held } := keeps_of_eq rfl rfl
  have hdisk : ∀ t : CJobManager, Keeps t (t.onDiskChange onVolume timeout) := fun t =>
    (keeps_forJobs (keeps_failFiles onVolume timeout) _ t).trans (keeps_scheduleAnotherGroup _)
  apply (hheld.trans (hdisk _)).trans
  apply Keeps.ite
  · exact (keeps_fileFatalError _ _).trans (keeps_endTransfer _)
  · exact ((keeps_completeWorkItem _).trans (keeps_fileFatalError _ _)).trans
      (keeps_endTransfer _)

end CJobManager

end NtAdmin.Drizzle.Newjob.Selection
