import NtAdmin.Drizzle.Newjob.ManagerSpec

/-! The job manager in every run of applications, users, timers, networks, drives and download
threads. -/
namespace NtAdmin.Drizzle.Newjob.Selection

open NtAdmin.Lib CJob

namespace CJobManager
variable {s : CJobManager} {j : JobPtr}

theorem Inv.rescheduleDownload (h : Inv s) : Inv (s.rescheduleDownload j) := by
  unfold CJobManager.rescheduleDownload
  split_ifs
  · exact h.toCore.cancelWorkItem.scheduleAnotherGroup
  · exact h

/-! The work items of a job. -/

theorem Core.onRetryJob (h : Core s) (hj : j ∈ s.created) : Inv (s.onRetryJob j) := by
  have hitem : Core (s.modifyJob j fun job => { job with retryItem := false }) :=
    h.modifyState fun _ => by rfl
  have hqueued : Core ((s.modifyJob j fun job => { job with retryItem := false }).modifyJob j
      (CJob.setState .QUEUED)) := hitem.modifyJob (idle_setState (by decide) (by decide))
  unfold CJobManager.onRetryJob
  dsimp only
  split_ifs
  · exact (hqueued.appendOnline hj).scheduleAnotherGroup
  · apply Core.scheduleAnotherGroup
    apply Core.appendOnline
    · exact hitem.modifyState fun _ => by rfl
    · exact hj
  · exact hitem.scheduleAnotherGroup

theorem Inv.onNoProgress (h : Inv s) (timeout : Bool) : Inv (s.onNoProgress timeout j) := by
  have hdone : Inv (s.modifyJob j fun job => { job with noProgressItem := false }) :=
    h.modifyState fun _ => by rfl
  unfold CJobManager.onNoProgress
  dsimp only
  split
  · exact hdone
  · exact (hdone.toCore.cancelWorkItem.fileFatalError timeout).scheduleAnotherGroup
  · exact (hdone.toCore.fileFatalError timeout).scheduleAnotherGroup

theorem Inv.onInactivityTimeout (h : Inv s) : Inv (s.onInactivityTimeout j) := by
  have hitem : Inv (s.modifyJob j fun job => { job with inactivityTimeout := false }) :=
    h.modifyState fun _ => by rfl
  unfold CJobManager.onInactivityTimeout
  dsimp only
  split_ifs
  · exact (hitem.modifyJob (idle_setState (by decide) (by decide))).removeFromManager
  · exact hitem.removeFromManager

/-! Users, networks and drives. -/

theorem Inv.users (h : Inv s) (users : List Sid) : Inv { s with m_ActiveUsers := users } where
  nodup := h.nodup
  live := h.live
  created := h.created
  running := h.running
  transferring := h.transferring
  service := h.service
  current := h.current

theorem Core.userLoggedOn (h : Core s) (sid : Sid) : Inv (s.userLoggedOn sid) := by
  apply Core.scheduleAnotherGroup
  apply h.lists
  rw [List.append_assoc]
  exact (List.filter_append_perm (fun j => (s.job j).isOwner sid) s.m_OfflineJobs).append_left _

theorem Inv.logonSession (h : Inv s) (sid : Sid) : Inv (s.logonSession sid) :=
  (h.users (sid :: s.m_ActiveUsers)).toCore.userLoggedOn sid

/-- All jobs of the user but the current one go offline. -/
theorem Inv.leave (h : Inv s) (sid : Sid) :
    Inv { s with
      m_OfflineJobs := s.m_OfflineJobs ++ s.m_OnlineJobs.filter (s.leaves sid)
      m_OnlineJobs := s.m_OnlineJobs.filter fun j => !s.leaves sid j } := by
  constructor
  · apply h.toCore.lists
    have hp := List.filter_append_perm (s.leaves sid) s.m_OnlineJobs
    have hswap := List.perm_append_comm.trans hp
    have hassoc : (s.m_OnlineJobs.filter (fun j => !s.leaves sid j) ++
        (s.m_OfflineJobs ++ s.m_OnlineJobs.filter (s.leaves sid))).Perm
        (s.m_OnlineJobs.filter (fun j => !s.leaves sid j) ++
          (s.m_OnlineJobs.filter (s.leaves sid) ++ s.m_OfflineJobs)) :=
      List.perm_append_comm.append_left _
    rw [← List.append_assoc (s.m_OnlineJobs.filter _) (s.m_OnlineJobs.filter _)] at hassoc
    exact hassoc.trans (hswap.append_right _)
  · intro j hj
    apply List.mem_filter.mpr
    constructor
    · exact h.current j hj
    · have hc : s.m_CurrentJob = some j := hj
      simp [leaves, hc]

theorem Inv.userLoggedOff (h : Inv s) (sid : Sid) : Inv (s.userLoggedOff sid) := by
  unfold CJobManager.userLoggedOff
  dsimp only
  split_ifs
  · exact (h.cancelWorkItem.leave sid).toCore.scheduleAnotherGroup
  · exact h.leave sid

theorem Inv.logoffSession (h : Inv s) (sid : Sid) : Inv (s.logoffSession sid) := by
  have hu : Inv { s with m_ActiveUsers := s.m_ActiveUsers.erase sid } := h.users _
  unfold CJobManager.logoffSession
  dsimp only
  split_ifs
  · exact hu
  · exact hu.userLoggedOff sid
  · exact h

theorem Core.forJobs {f : JobPtr → CJobManager → CJobManager}
    (hf : ∀ j {s : CJobManager}, Core s → Core (f j s)) (l : List JobPtr) (h : Core s) :
    Core (forJobs f l s) := by
  induction l generalizing s with
  | nil => exact h
  | cons j l ih => exact ih (hf j h)

theorem Core.recalcJobs (h : Core s) : Core s.recalcJobs := by
  have hrecalc : ∀ j {s : CJobManager}, Core s → Core (s.recalcTransientError j false) :=
    fun j _ h => h.recalcTransientError false
  have honline := h.forJobs hrecalc s.m_OnlineJobs
  exact honline.forJobs hrecalc _

theorem Core.onNetworkChange (h : Core s) : Inv s.onNetworkChange := by
  unfold CJobManager.onNetworkChange
  split_ifs
  · exact h.recalcJobs.scheduleAnotherGroup
  · exact h.recalcJobs.scheduleAnotherGroup

theorem Core.setVolumeLocked (h : Core s) (locked : Bool) (onVolume : JobPtr → Bool) :
    Core (s.setVolumeLocked locked onVolume j) := by
  unfold CJobManager.setVolumeLocked
  dsimp only
  split_ifs
  · apply Core.recalcTransientError
    exact h.cancelWorkItem.modifyState fun _ => by rfl
  · apply Core.recalcTransientError
    exact h.modifyState fun _ => by rfl
  · exact h

/-- No job is touched unless one of them has a file on the volume. -/
theorem forJobs_setVolumeLocked_of_none (locked : Bool) (onVolume : JobPtr → Bool) (l : List JobPtr)
    (hl : l.any (isTransferringToDrive onVolume s) = false) :
    forJobs (setVolumeLocked locked onVolume) l s = s := by
  induction l with
  | nil => rfl
  | cons j l ih =>
    rw [List.any_cons, Bool.or_eq_false_iff] at hl
    have hj : setVolumeLocked locked onVolume j s = s := by
      unfold setVolumeLocked
      rw [hl.1, if_neg Bool.false_ne_true]
    have hcons : forJobs (setVolumeLocked locked onVolume) (j :: l) s =
        forJobs (setVolumeLocked locked onVolume) l (setVolumeLocked locked onVolume j s) := rfl
    rw [hcons, hj]
    exact ih hl.2

theorem Inv.onDeviceChange (h : Inv s) (locked : Bool) (onVolume : JobPtr → Bool) :
    Inv (s.onDeviceChange locked onVolume) := by
  unfold CJobManager.onDeviceChange
  dsimp only
  split_ifs with hc
  · have hloop := h.toCore.forJobs (f := CJobManager.setVolumeLocked locked onVolume)
      (fun j _ h => h.setVolumeLocked locked onVolume) s.m_OnlineJobs
    exact hloop.scheduleAnotherGroup
  · rw [forJobs_setVolumeLocked_of_none locked onVolume _ (by simpa using hc)]
    exact h

theorem Core.failFiles (h : Core s) (onVolume timeout : JobPtr → Bool) :
    Core (s.failFiles onVolume timeout j) := by
  unfold CJobManager.failFiles
  split
  all_goals
    first
    | exact h
    | split_ifs
      · exact h.fileFatalError _
      · exact h

theorem Core.onDiskChange (h : Core s) (onVolume timeout : JobPtr → Bool) :
    Inv (s.onDiskChange onVolume timeout) :=
  (h.forJobs (fun _ _ h => h.failFiles onVolume timeout) s.m_OnlineJobs).scheduleAnotherGroup

theorem Core.onDismount (h : Core s) (onVolume timeout : JobPtr → Bool) :
    Inv (s.onDismount onVolume timeout) :=
  (h.forJobs (fun _ _ h => h.failFiles onVolume timeout) s.m_OnlineJobs).scheduleAnotherGroup

/-! The download thread. -/

theorem Core.endTransfer (h : Core s) : Inv s.endTransfer := h.completeWorkItem.scheduleAnotherGroup

theorem Core.withoutToken (h : Core s) : Inv (s.withoutToken j) := by
  unfold CJobManager.withoutToken
  dsimp only
  split_ifs
  · exact h.completeWorkItem.endTransfer
  · exact h.completeWorkItem.scheduleAnotherGroup.toCore.endTransfer

/-- The thread lets go of the lock in the transfer of the current job. -/
theorem Inv.letGo (h : Inv s) (hj : s.m_CurrentJob = some j) (n : ℕ) :
    Inv { s with workItem := .transferring j n } where
  nodup := h.nodup
  live := h.live
  created := h.created
  running := h.running
  transferring k m hk := by
    injection hk with hk
    rw [← hk]
    exact hj
  service := h.service
  current := h.current

theorem Inv.connect (h : Inv s) (hj : s.m_CurrentJob = some j) :
    Inv (s.connect j) ∧ (s.connect j).m_CurrentJob = some j := by
  unfold CJobManager.connect
  split_ifs
  · exact ⟨h.modifyCurrent hj, hj⟩
  · exact ⟨h, hj⟩
  · exact ⟨h.modifyCurrent hj, hj⟩
  · exact ⟨h, hj⟩

theorem Inv.transfer (h : Inv s) (hj : s.m_CurrentJob = some j) (copyToken : Bool) :
    Inv (s.transfer j copyToken) := by
  unfold CJobManager.transfer
  split_ifs
  · have hfailed : Core (s.modifyJob j (CJob.setTransientError false)) :=
      h.toCore.modifyJob (idle_setTransientError false)
    exact hfailed.withoutToken
  · have hconnect := h.connect hj
    have hgo := hconnect.1.letGo hconnect.2 0
    exact hgo
  · have hmoved : Core ((s.moveJobOffline j).recalcTransientError j false) :=
      (h.toCore.moveJobOffline (h.current j hj)).recalcTransientError false
    exact hmoved.withoutToken

theorem Inv.transferCurrentJob (h : Inv s) (copyToken : Bool) :
    Inv (s.transferCurrentJob copyToken) := by
  have hheld : Inv { s with workItem := .held } := ⟨h.toCore.held, h.current⟩
  unfold CJobManager.transferCurrentJob
  dsimp only
  split
  · exact hheld.toCore.endTransfer
  · rename_i current hc
    exact hheld.transfer hc copyToken

theorem Inv.progress (h : Inv s) (hj : s.m_CurrentJob = some j) (BytesTransferred : Option ℕ)
    (expired : Bool) : Inv (s.progress j BytesTransferred expired) := by
  have hcheck : ∀ {s : CJobManager}, Inv s → Inv (s.checkForQuantumTimeout expired) := by
    intro s h
    unfold checkForQuantumTimeout
    split
    · exact h.moveActiveJobToListEnd
    · exact h
  unfold CJobManager.progress
  apply hcheck
  cases BytesTransferred with
  | none => exact h
  | some bytes => exact h.modifyCurrent hj

theorem Core.fileResult (h : Core s) (hj : j ∈ s.created) (result : FILE_DOWNLOAD_RESULT)
    (moved timeout : Bool) : Core (s.fileResult j result moved timeout) := by
  cases result with
  | QM_FILE_TRANSIENT_ERROR => exact h.modifyJob (idle_fileTransientError timeout)
  | QM_FILE_DONE => exact h.fileComplete moved
  | QM_FILE_FATAL_ERROR => exact h.fileFatalError timeout
  | QM_FILE_ABORTED => exact h
  | QM_SERVER_FILE_CHANGED =>
    unfold CJobManager.fileResult
    dsimp only
    split_ifs
    · exact h.fileFatalError timeout
    · exact h.appendOnline hj

theorem Inv.transferred (h : Inv s) (hj : s.m_CurrentJob = some j) (tries : ℕ)
    (result : FILE_DOWNLOAD_RESULT) (moved timeout : Bool) :
    Inv (s.transferred j tries result moved timeout) := by
  have hmem : j ∈ s.created := h.created j (List.mem_append_left _ (h.current j hj))
  unfold CJobManager.transferred
  split_ifs
  · exact h.letGo hj (tries + 1)
  · exact (h.toCore.held.fileResult hmem result moved timeout).endTransfer
  · have hdone : Core ({ s with workItem := .held } : CJobManager).completeWorkItem :=
      h.toCore.held.completeWorkItem
    exact (hdone.fileResult hmem result moved timeout).endTransfer

theorem Core.driveChanged (h : Core s) (onVolume timeout : JobPtr → Bool) :
    Inv (s.driveChanged j onVolume timeout) := by
  have hchange : Core ({ s with workItem := .held } : CJobManager) := h.held
  have hdisk := (hchange.onDiskChange onVolume timeout).toCore
  unfold CJobManager.driveChanged
  dsimp only
  split_ifs
  · exact (hdisk.fileFatalError _).endTransfer
  · exact (hdisk.completeWorkItem.fileFatalError _).endTransfer

end CJobManager

/-! Runs. -/

/-- What may happen next, while no one has the writer lock. The answers of the system come with the
event. -/
inductive Event
  | createJob (j : JobPtr) (type : BG_JOB_TYPE) (sid : Sid)
  | addFileSet (j : JobPtr) (cFileCount : ℕ)
  | setPriority (j : JobPtr) (Val : ℤ)
  | setNoProgressTimeout (j : JobPtr) (Val : ℕ)
  | setOldExternalJobInterface (j : JobPtr)
  | rescheduleDownload (j : JobPtr)
  | suspend (j : JobPtr)
  | resume (j : JobPtr) (replyFile : HRESULT)
  | cancel (j : JobPtr) (check : HRESULT)
  | complete (j : JobPtr) (commit : HRESULT)
  | takeOwnership (j : JobPtr) (sid : Sid) (valid : HRESULT)
  | onRetryJob (j : JobPtr)
  | onNoProgress (j : JobPtr) (timeout : Bool)
  | onInactivityTimeout (j : JobPtr)
  | logonSession (sid : Sid)
  | logoffSession (sid : Sid)
  | addressCount (n : ℤ)
  | onNetworkChange
  | networkChanged
  | onDeviceLock (onVolume : JobPtr → Bool)
  | onDeviceUnlock (onVolume : JobPtr → Bool)
  | onDismount (onVolume timeout : JobPtr → Bool)
  | transferCurrentJob (copyToken : Bool)
  | progress (BytesTransferred : Option ℕ) (expired : Bool)
  | setUploadState (state : UPLOAD_STATE)
  | transferred (result : FILE_DOWNLOAD_RESULT) (moved timeout : Bool)
  | driveChanged (onVolume timeout : JobPtr → Bool)
  | aborted

namespace CJobManager

/-- A call on a job of the manager, which an application may still have after the job's removal. -/
def call (j : JobPtr) (f : CJobManager → CJobManager) (s : CJobManager) : Option CJobManager :=
  if j ∈ s.created then some (f s) else none

/-- What the thread does that runs the manager's work item. -/
def download (f : JobPtr → ℕ → CJobManager → CJobManager) (s : CJobManager) : Option CJobManager :=
  match s.workItem with
  | .transferring j tries => some (f j tries s)
  | _ => none

/-- The state after an event, if the event can happen. -/
def step (s : CJobManager) : Event → Option CJobManager
  | .createJob j type sid => if j ∈ s.created then none else some (s.createJob j type sid)
  | .addFileSet j cFileCount => s.call j fun s => (s.addFileSet j cFileCount).2
  | .setPriority j Val => s.call j fun s => (s.setPriority j Val).2
  | .setNoProgressTimeout j Val => s.call j fun s => (s.setNoProgressTimeout j Val).2
  | .setOldExternalJobInterface j => s.call j (CJobManager.setOldExternalJobInterface j)
  | .rescheduleDownload j => s.call j (CJobManager.rescheduleDownload j)
  | .suspend j => s.call j fun s => (s.suspendJob j).2
  | .resume j replyFile => s.call j fun s => (s.resume j replyFile).2
  | .cancel j check => s.call j fun s => (s.cancel j check).2
  | .complete j commit => s.call j fun s => (s.complete j commit).2
  | .takeOwnership j sid valid => s.call j fun s => (s.takeOwnership j sid valid).2
  | .onRetryJob j =>
    if (s.job j).retryItem then s.call j (CJobManager.onRetryJob j) else none
  | .onNoProgress j timeout =>
    if (s.job j).noProgressItem then s.call j (CJobManager.onNoProgress timeout j) else none
  | .onInactivityTimeout j =>
    if (s.job j).inactivityTimeout then s.call j (CJobManager.onInactivityTimeout j) else none
  | .logonSession sid => some (s.logonSession sid)
  | .logoffSession sid => some (s.logoffSession sid)
  | .addressCount n => some { s with AddressCount := n }
  | .onNetworkChange => some s.onNetworkChange
  | .networkChanged => some s.scheduleAnotherGroup
  | .onDeviceLock onVolume => some (s.onDeviceLock onVolume)
  | .onDeviceUnlock onVolume => some (s.onDeviceUnlock onVolume)
  | .onDismount onVolume timeout => some (s.onDismount onVolume timeout)
  | .transferCurrentJob copyToken =>
    if s.workItem = .pending then some (s.transferCurrentJob copyToken) else none
  | .progress bytes expired => s.download fun j _ s => s.progress j bytes expired
  | .setUploadState state => s.download fun j _ s => s.setUploadState j state
  | .transferred result moved timeout =>
    s.download fun j tries s => s.transferred j tries result moved timeout
  | .driveChanged onVolume timeout => s.download fun j _ s => s.driveChanged j onVolume timeout
  | .aborted =>
    if 0 < s.aborting then some { s with aborting := s.aborting - 1 }.endTransfer else none

variable {s s' : CJobManager}

theorem inv_call {j : JobPtr} {f : CJobManager → CJobManager}
    (hs : s.call j f = some s') (hf : j ∈ s.created → Inv (f s)) : Inv s' := by
  unfold CJobManager.call at hs
  split_ifs at hs with hj
  rw [← Option.some.inj hs]
  exact hf hj

theorem Inv.download (h : Inv s) {f : JobPtr → ℕ → CJobManager → CJobManager}
    (hs : s.download f = some s') (hf : ∀ j n, s.m_CurrentJob = some j → Inv (f j n s)) :
    Inv s' := by
  unfold CJobManager.download at hs
  split at hs
  · rename_i j n hw
    rw [← Option.some.inj hs]
    exact hf j n (h.transferring j n hw)
  · contradiction

/-- What one event keeps. -/
theorem Inv.step (h : Inv s) (e : Event) (hs : s.step e = some s') : Inv s' := by
  cases e <;> dsimp only [CJobManager.step] at hs
  case createJob j type sid =>
    split_ifs at hs with hj
    rw [← Option.some.inj hs]
    exact h.createJob hj type sid
  case addFileSet j cFileCount => exact inv_call hs fun _ => h.addFileSet cFileCount
  case setPriority j Val => exact inv_call hs fun _ => h.setPriority Val
  case setNoProgressTimeout j Val =>
    apply inv_call hs
    intro _
    unfold CJobManager.setNoProgressTimeout
    dsimp only
    exact h.modifyState fun _ => by rfl
  case setOldExternalJobInterface j =>
    apply inv_call hs
    intro _
    exact h.modifyState fun _ => by rfl
  case rescheduleDownload j => exact inv_call hs fun _ => h.rescheduleDownload
  case suspend j => exact inv_call hs fun _ => h.suspendJob
  case resume j replyFile => exact inv_call hs fun hj => h.resume hj replyFile
  case cancel j check => exact inv_call hs fun _ => h.cancel check
  case complete j commit => exact inv_call hs fun _ => h.complete commit
  case takeOwnership j sid valid => exact inv_call hs fun _ => h.takeOwnership sid valid
  case onRetryJob j =>
    split_ifs at hs
    exact inv_call hs fun hj => h.toCore.onRetryJob hj
  case onNoProgress j timeout =>
    split_ifs at hs
    exact inv_call hs fun _ => h.onNoProgress timeout
  case onInactivityTimeout j =>
    split_ifs at hs
    exact inv_call hs fun _ => h.onInactivityTimeout
  case logonSession sid =>
    rw [← Option.some.inj hs]
    exact h.logonSession sid
  case logoffSession sid =>
    rw [← Option.some.inj hs]
    exact h.logoffSession sid
  case addressCount n =>
    rw [← Option.some.inj hs]
    exact ⟨⟨h.nodup, h.live, h.created, h.running, h.transferring, h.service⟩, h.current⟩
  case onNetworkChange =>
    rw [← Option.some.inj hs]
    exact h.toCore.onNetworkChange
  case networkChanged =>
    rw [← Option.some.inj hs]
    exact h.toCore.scheduleAnotherGroup
  case onDeviceLock onVolume =>
    rw [← Option.some.inj hs]
    exact h.onDeviceChange true onVolume
  case onDeviceUnlock onVolume =>
    rw [← Option.some.inj hs]
    exact h.onDeviceChange false onVolume
  case onDismount onVolume timeout =>
    rw [← Option.some.inj hs]
    exact h.toCore.onDismount onVolume timeout
  case transferCurrentJob copyToken =>
    split_ifs at hs
    rw [← Option.some.inj hs]
    exact h.transferCurrentJob copyToken
  case progress bytes expired =>
    exact h.download hs fun _ _ hj => h.progress hj bytes expired
  case setUploadState state =>
    apply h.download hs
    intro j _ _
    exact h.modifyState fun _ => by rfl
  case transferred result moved timeout =>
    exact h.download hs fun _ n hj => h.transferred hj n result moved timeout
  case driveChanged onVolume timeout =>
    exact h.download hs fun _ _ _ => h.toCore.driveChanged onVolume timeout
  case aborted =>
    split_ifs at hs
    rw [← Option.some.inj hs]
    have haborting : Core { s with aborting := s.aborting - 1 } :=
      ⟨h.nodup, h.live, h.created, h.running, h.transferring, h.service⟩
    exact haborting.endTransfer

/-- The events one after another. -/
def run (s : CJobManager) (events : List Event) : Option CJobManager := events.foldlM step s

theorem Inv.run (h : Inv s) {events : List Event} (hs : s.run events = some s') : Inv s' := by
  induction events generalizing s with
  | nil =>
    rw [← Option.some.inj hs]
    exact h
  | cons e events ih =>
    unfold CJobManager.run at hs
    rw [List.foldlM_cons, Option.bind_eq_bind, Option.bind_eq_some_iff] at hs
    obtain ⟨t, ht, hs⟩ := hs
    exact ih (h.step e ht) hs

/-- The manager after `Unserialize`: all jobs are online, and none runs. -/
structure Loaded (s : CJobManager) : Prop where
  nodup : s.m_OnlineJobs.Nodup
  offline : s.m_OfflineJobs = []
  live : s.live = s.m_OnlineJobs
  created : s.created = s.m_OnlineJobs
  idle : ∀ j, (s.job j).isRunning = false
  current : s.m_CurrentJob = none
  workItem : s.workItem = .outside
  service : s.shuttingDown = false

theorem Loaded.inv (h : Loaded s) : Inv s where
  nodup := by
    rw [h.offline, List.append_nil]
    exact h.nodup
  live j hj := by
    rw [h.live] at hj
    exact List.mem_append_left _ hj
  created j hj := by
    rw [h.offline, List.append_nil] at hj
    rw [h.created]
    exact hj
  running j hr := by
    rw [h.idle j] at hr
    contradiction
  transferring j n hj := by
    rw [h.workItem] at hj
    contradiction
  service := h.service
  current j hj := by
    rw [h.current] at hj
    contradiction

/-- In every run each job that was added and not removed is on one of the lists, once, a job that is
connecting or transferring is the current job, so that there is at most one, and every
`ScheduleAnotherGroup` comes to the first online job of the best priority that can run. -/
theorem selection_kept (h : Loaded s) (events : List Event) (hs : s.run events = some s') :
    (∀ j ∈ s'.live, (s'.m_OnlineJobs ++ s'.m_OfflineJobs).count j = 1) ∧
      (∀ j, (s'.job j).isRunning → s'.m_CurrentJob = some j) ∧
      (∀ j k, (s'.job j).isRunning → (s'.job k).isRunning → j = k) ∧
      ∀ t : CJobManager, t.shuttingDown = false → Selected t.scheduleAnotherGroup := by
  have hinv := h.inv.run hs
  refine ⟨?_, hinv.running, ?_, selected_scheduleAnotherGroup⟩
  · intro j hj
    exact List.count_eq_one_of_mem hinv.nodup (hinv.live j hj)
  · intro j k hj hk
    have hsame := hinv.running k hk
    rw [hinv.running j hj] at hsame
    exact Option.some.inj hsame

/-- One queued job of a user who is logged on. -/
def queuedJob : CJobManager where
  job _ := { CJob.new .DOWNLOAD 7 1209600 with m_state := .QUEUED, m_files := 2 }
  created := [1]
  live := [1]
  m_OnlineJobs := [1]
  m_OfflineJobs := []
  m_CurrentJob := none
  workItem := .outside
  aborting := 0
  m_ActiveUsers := [7]
  AddressCount := 1
  m_DefaultNoProgressTimeout := 1209600
  shuttingDown := false

theorem loaded_queuedJob : Loaded queuedJob where
  nodup := by decide
  offline := rfl
  live := rfl
  created := rfl
  idle _ := rfl
  current := rfl
  workItem := rfl
  service := rfl

/-- A foreground job comes while the queued job is transferred. -/
def foregroundEvents : List Event :=
  [.networkChanged, .transferCurrentJob true, .progress (some 100) false, .createJob 2 .DOWNLOAD 7,
    .addFileSet 2 1, .setPriority 2 0, .resume 2 .S_OK, .aborted, .transferCurrentJob true]

theorem run_foregroundEvents : (queuedJob.run foregroundEvents).isSome = true := by
  decide +kernel

def afterForegroundEvents : CJobManager :=
  (queuedJob.run foregroundEvents).get run_foregroundEvents

theorem selection_kept_foreground :
    afterForegroundEvents.m_CurrentJob = some 2 ∧
      (afterForegroundEvents.job 1).m_state = .QUEUED ∧
      (afterForegroundEvents.job 2).m_state = .CONNECTING ∧
      (∀ j k, (afterForegroundEvents.job j).isRunning → (afterForegroundEvents.job k).isRunning →
        j = k) := by
  have hrun : queuedJob.run foregroundEvents = some afterForegroundEvents :=
    (Option.some_get run_foregroundEvents).symm
  have hkept := selection_kept loaded_queuedJob foregroundEvents hrun
  refine ⟨?_, ?_, ?_, hkept.2.2.1⟩
  · decide +kernel
  · decide +kernel
  · decide +kernel

end CJobManager

end NtAdmin.Drizzle.Newjob.Selection
