import NtAdmin.Drizzle.Newjob.Job
import NtAdmin.Lib.Select
import Mathlib.Algebra.Order.Ring.Int
import Mathlib.Logic.Function.Basic

/-! The selection of the job that is transferred, of cmanager.cpp, with the handlers of cjob.cpp that
change what can be selected. The service is not shutting down unless `shuttingDown` is set. -/
namespace NtAdmin.Drizzle.Newjob.Selection

open NtAdmin.Lib

/-- The address of a job. -/
abbrev JobPtr := ℕ

/-- `E_FAIL` stands for any failure of the system. -/
inductive HRESULT
  | S_OK
  | BG_S_PARTIAL_COMPLETE
  | BG_S_UNABLE_TO_DELETE_FILES
  | E_NOTIMPL
  | E_FAIL
  | BG_E_EMPTY
  | BG_E_INVALID_STATE
  | BG_E_TOO_MANY_FILES
  deriving DecidableEq, Repr

def HRESULT.succeeded (hr : HRESULT) : Bool :=
  hr = .S_OK ∨ hr = .BG_S_PARTIAL_COMPLETE ∨ hr = .BG_S_UNABLE_TO_DELETE_FILES

inductive FILE_DOWNLOAD_RESULT
  | QM_FILE_TRANSIENT_ERROR
  | QM_FILE_DONE
  | QM_FILE_FATAL_ERROR
  | QM_FILE_ABORTED
  | QM_SERVER_FILE_CHANGED
  deriving DecidableEq, Repr

/-- The manager's own work item is `pending` until the worker that dispatches it has the writer lock.
Then it is `held` by the thread with the lock, or its thread has let go of the lock while a job is
being transferred, after so many tries. -/
inductive DownloadItem
  | outside
  | pending
  | held
  | transferring (job : JobPtr) (tries : ℕ)
  deriving DecidableEq, Repr

/-- `created` are the addresses that have been given to jobs, `live` the jobs that were added to the
manager and not removed. `aborting` counts the threads whose work item was cancelled and that wait for
the writer lock. -/
structure CJobManager where
  job : JobPtr → CJob
  created : List JobPtr
  live : List JobPtr
  m_OnlineJobs : List JobPtr
  m_OfflineJobs : List JobPtr
  m_CurrentJob : Option JobPtr
  workItem : DownloadItem
  aborting : ℕ
  m_ActiveUsers : List Sid
  AddressCount : ℤ
  m_DefaultNoProgressTimeout : ℕ
  shuttingDown : Bool

namespace CJobManager

def modifyJob (j : JobPtr) (f : CJob → CJob) (s : CJobManager) : CJobManager :=
  { s with job := Function.update s.job j (f (s.job j)) }

def isRunnable (s : CJobManager) (j : JobPtr) : Bool := (s.job j).isRunnable

def priority (s : CJobManager) (j : JobPtr) : ℤ := (s.job j).m_priority

def isWorkItemInScheduler (s : CJobManager) : Bool := s.workItem ≠ .outside

/-- `CancelWorkItem` waits until another thread that runs the item has acknowledged. -/
def cancelWorkItem (s : CJobManager) : CJobManager :=
  match s.workItem with
  | .transferring _ _ => { s with workItem := .outside, aborting := s.aborting + 1 }
  | _ => { s with workItem := .outside }

def insertWorkItem (s : CJobManager) : CJobManager := { s with workItem := .pending }

/-- `CompleteWorkItem`, by the thread that has the writer lock. -/
def completeWorkItem (s : CJobManager) : CJobManager :=
  if s.workItem = .held then { s with workItem := .outside } else s

def interruptDownload (s : CJobManager) : CJobManager := s.cancelWorkItem

def recalcTransientError (j : JobPtr) (ForResume : Bool) (s : CJobManager) : CJobManager :=
  s.modifyJob j (CJob.recalcTransientError s.AddressCount ForResume)

/-- The job that `ChooseCurrentJob` comes to. -/
def bestJob (s : CJobManager) : Option JobPtr :=
  if s.AddressCount = 0 then none else firstBest s.isRunnable s.priority s.m_OnlineJobs

/-- The old current job stops running. -/
def retireCurrentJob (s : CJobManager) : CJobManager :=
  match s.m_CurrentJob with
  | some current => if (s.job current).isRunning then s.recalcTransientError current false else s
  | none => s

def chooseCurrentJob (s : CJobManager) : CJobManager :=
  if s.m_CurrentJob = s.bestJob then s else { s.retireCurrentJob with m_CurrentJob := s.bestJob }

/-- What `ScheduleAnotherGroup` does with the work item. -/
def restartDownload (pOldCurrentJob : Option JobPtr) (s : CJobManager) : CJobManager :=
  match s.m_CurrentJob with
  | some _ =>
    let s := if s.m_CurrentJob ≠ pOldCurrentJob then s.cancelWorkItem else s
    if s.isWorkItemInScheduler then s else s.insertWorkItem
  | none => s.cancelWorkItem

/-- `ScheduleAnotherGroup`, with or without the delay before a transfer. -/
def scheduleAnotherGroup (s : CJobManager) : CJobManager :=
  let chosen := if s.shuttingDown then { s with m_CurrentJob := none } else s.chooseCurrentJob
  chosen.restartDownload s.m_CurrentJob

def moveJobOffline (j : JobPtr) (s : CJobManager) : CJobManager :=
  { s with m_OnlineJobs := s.m_OnlineJobs.erase j, m_OfflineJobs := s.m_OfflineJobs ++ [j] }

def appendOnline (j : JobPtr) (s : CJobManager) : CJobManager :=
  if j ∈ s.m_OnlineJobs then { s with m_OnlineJobs := s.m_OnlineJobs.erase j ++ [j] }
  else { s with m_OfflineJobs := s.m_OfflineJobs.erase j, m_OnlineJobs := s.m_OnlineJobs ++ [j] }

def removeJob (j : JobPtr) (s : CJobManager) : CJobManager :=
  if j ∈ s.m_OnlineJobs then
    { s with m_OnlineJobs := s.m_OnlineJobs.erase j, live := s.live.filter (· ≠ j) }
  else
    { s with m_OfflineJobs := s.m_OfflineJobs.erase j, live := s.live.filter (· ≠ j) }

def removeFromManager (j : JobPtr) (s : CJobManager) : CJobManager :=
  let s := s.modifyJob j CJob.cancelWorkitems
  if j ∈ s.m_OnlineJobs ∨ j ∈ s.m_OfflineJobs then (s.removeJob j).scheduleAnotherGroup else s

def retaskJob (j : JobPtr) (s : CJobManager) : CJobManager :=
  (if (s.job j).isRunning then s.interruptDownload else s).scheduleAnotherGroup

/-- `MoveActiveJobToListEnd`, where a job in the lists moves behind the jobs that could run. -/
def moveActiveJobToListEnd (j : JobPtr) (s : CJobManager) : CJobManager :=
  if s.AddressCount = 0 then s
  else if 1 < s.m_OnlineJobs.countP (fun k => s.isRunnable k && s.priority k ≤ s.priority j) ∧
      j ∈ s.m_OnlineJobs then
    { s with m_OnlineJobs := s.m_OnlineJobs.erase j ++ [j] }
  else s

/-- `expired` tells whether the timer has gone off. -/
def checkForQuantumTimeout (expired : Bool) (s : CJobManager) : CJobManager :=
  match expired, s.m_CurrentJob with
  | true, some current => s.moveActiveJobToListEnd current
  | _, _ => s

/-- `CJob::FileFatalError` and `CUploadJob::FileFatalError`. -/
def fileFatalError (timeout : Bool) (j : JobPtr) (s : CJobManager) : CJobManager :=
  if (s.job j).isDownload then s.modifyJob j CJob.setError
  else if (s.job j).isFinal then s.removeFromManager j
  else if timeout then s.modifyJob j (CJob.fileTransientError timeout)
  else s.modifyJob j CJob.setError

/-- `CJob::FileComplete` and `CUploadJob::FileComplete`. `moved` tells whether the files of an old job
could be renamed. -/
def fileComplete (moved : Bool) (j : JobPtr) (s : CJobManager) : CJobManager :=
  if (s.job j).isDownload then
    if (s.job j).m_OldExternalJobInterface && !moved then s.fileFatalError false j
    else s.modifyJob j fun job =>
      let next := { job with m_CurrentFile := job.m_CurrentFile + 1 }
      if next.m_CurrentFile = next.m_files then next.jobTransferred else next
  else if (s.job j).isFinal then s.removeFromManager j
  else s.modifyJob j fun job => { job with m_CurrentFile := job.m_CurrentFile + 1 }.jobTransferred

/-! The calls of applications. -/

/-- The new job is in the online list. -/
def createJob (j : JobPtr) (type : BG_JOB_TYPE) (sid : Sid) (s : CJobManager) : CJobManager :=
  { s with
    job := Function.update s.job j
      { CJob.new type sid s.m_DefaultNoProgressTimeout with inactivityTimeout := true }
    created := j :: s.created
    live := j :: s.live
    m_OnlineJobs := s.m_OnlineJobs ++ [j] }

def handleAddFile (j : JobPtr) (s : CJobManager) : CJobManager :=
  (s.modifyJob j fun job =>
    if job.m_state = .TRANSFERRED then
      { job.setState .QUEUED with retryItem := false, noProgressItem := false }
    else job).retaskJob j

def addFile (j : JobPtr) (s : CJobManager) : HRESULT × CJobManager :=
  if !(s.job j).isDownload && !(s.job j).isEmpty then (.BG_E_TOO_MANY_FILES, s)
  else if (s.job j).isFinal then (.BG_E_INVALID_STATE, s)
  else (.S_OK, s.modifyJob j fun job => { job with m_files := job.m_files + 1 })

/-- The loop of `AddFileSet`. -/
def addFiles (j : JobPtr) : ℕ → CJobManager → HRESULT × CJobManager
  | 0, s => (.S_OK, s)
  | cFileCount + 1, s =>
    match s.addFile j with
    | (.S_OK, s') => addFiles j cFileCount s'
    | r => r

def addFileSet (j : JobPtr) (cFileCount : ℕ) (s : CJobManager) : HRESULT × CJobManager :=
  match addFiles j cFileCount s with
  | (.S_OK, s') => (.S_OK, s'.handleAddFile j)
  | (hr, s') => (hr, s'.modifyJob j fun job => { job with m_files := (s.job j).m_files })

def setPriority (j : JobPtr) (Val : ℤ) (s : CJobManager) : HRESULT × CJobManager :=
  if Val > BG_JOB_PRIORITY_LOW ∨ Val < BG_JOB_PRIORITY_FOREGROUND then (.E_NOTIMPL, s)
  else if Val = (s.job j).m_priority then (.S_OK, s)
  else (.S_OK, (s.modifyJob j fun job => { job with m_priority := Val }).retaskJob j)

/-- The end of `SuspendJob`. -/
def setSuspended (j : JobPtr) (s : CJobManager) : CJobManager :=
  (s.modifyJob j fun job =>
    { job with noProgressItem := false }.setState .SUSPENDED).scheduleAnotherGroup

def suspendJob (j : JobPtr) (s : CJobManager) : HRESULT × CJobManager :=
  match (s.job j).m_state with
  | .SUSPENDED => (.S_OK, s)
  | .CONNECTING | .TRANSFERRING => (.S_OK, s.interruptDownload.setSuspended j)
  | .TRANSFERRED | .QUEUED | .TRANSIENT_ERROR | .ERROR => (.S_OK, s.setSuspended j)
  | .CANCELLED | .ACKNOWLEDGED => (.BG_E_INVALID_STATE, s)

/-- The end of `Resume`. -/
def setResumed (j : JobPtr) (s : CJobManager) : CJobManager :=
  let s := s.recalcTransientError j true
  (if s.isRunnable j then s.appendOnline j else s).scheduleAnotherGroup

/-- `CJob::Resume` and `CUploadJob::Resume`. `replyFile` is what `GenerateReplyFile` returns. -/
def resume (j : JobPtr) (replyFile : HRESULT) (s : CJobManager) : HRESULT × CJobManager :=
  if (s.job j).m_type = .UPLOAD_REPLY ∧ !replyFile.succeeded then (replyFile, s)
  else if (s.job j).isEmpty then (.BG_E_EMPTY, s)
  else
    match (s.job j).m_state with
    | .SUSPENDED =>
      if (s.job j).hasCurrentFile then (.S_OK, s.setResumed j)
      else (.S_OK, s.modifyJob j CJob.jobTransferred)
    | .TRANSIENT_ERROR | .ERROR => (.S_OK, s.setResumed j)
    | .CONNECTING | .TRANSFERRING | .QUEUED | .TRANSFERRED => (.S_OK, s)
    | .CANCELLED | .ACKNOWLEDGED => (.BG_E_INVALID_STATE, s)

/-- The end of `CJob::Cancel` and `CUploadJob::Cancel`. -/
def setCancelled (j : JobPtr) (s : CJobManager) : CJobManager :=
  let s := s.modifyJob j (CJob.setState .CANCELLED)
  if !(s.job j).isDownload && (s.job j).sessionInProgress then
    (s.modifyJob j fun job =>
      { job with
        m_NoProgressTimeout := UPLOAD_CANCEL_TIMEOUT
        m_UploadData := { job.m_UploadData with State := .CANCEL_SESSION } }).scheduleAnotherGroup
  else s.removeFromManager j

/-- `CJob::Cancel` and `CUploadJob::Cancel`. `check` is what the checks of the caller and the removal
of the files come to. -/
def cancel (j : JobPtr) (check : HRESULT) (s : CJobManager) : HRESULT × CJobManager :=
  match (s.job j).m_state with
  | .CONNECTING | .TRANSFERRING =>
    let s := s.interruptDownload
    if check.succeeded then (check, s.setCancelled j) else (check, s)
  | .SUSPENDED | .ERROR | .QUEUED | .TRANSIENT_ERROR | .TRANSFERRED =>
    if check.succeeded then (check, s.setCancelled j) else (check, s)
  | .CANCELLED | .ACKNOWLEDGED => (.BG_E_INVALID_STATE, s)

/-- The end of `CJob::Complete` and `CUploadJob::Complete`. `commit` is what the commit of the files
returns. -/
def setAcknowledged (j : JobPtr) (commit : HRESULT) (s : CJobManager) : HRESULT × CJobManager :=
  if commit.succeeded then
    (commit, (s.modifyJob j (CJob.setState .ACKNOWLEDGED)).removeFromManager j)
  else (commit, s)

/-- `CJob::Complete` and `CUploadJob::Complete`. -/
def complete (j : JobPtr) (commit : HRESULT) (s : CJobManager) : HRESULT × CJobManager :=
  let commit := if (s.job j).m_OldExternalJobInterface then .S_OK else commit
  match (s.job j).isDownload, (s.job j).m_state with
  | true, .CONNECTING | true, .TRANSFERRING | true, .QUEUED | true, .TRANSIENT_ERROR =>
    (s.suspendJob j).2.setAcknowledged j commit
  | true, .SUSPENDED | true, .ERROR | _, .TRANSFERRED => s.setAcknowledged j commit
  | _, _ => (.BG_E_INVALID_STATE, s)

def resetOnlineStatus (j : JobPtr) (sid : Sid) (s : CJobManager) : CJobManager :=
  if sid ∈ s.m_ActiveUsers ∧ j ∈ s.m_OfflineJobs then
    { s with m_OfflineJobs := s.m_OfflineJobs.erase j, m_OnlineJobs := s.m_OnlineJobs ++ [j] }
  else s

/-- `valid` is what comes of the checks of the files and of the new security descriptor. -/
def takeOwnership (j : JobPtr) (sid : Sid) (valid : HRESULT) (s : CJobManager) :
    HRESULT × CJobManager :=
  if sid = (s.job j).m_NotifySid then (.S_OK, s)
  else
    let s := if (s.job j).isRunning then s.interruptDownload else s
    if valid.succeeded then
      (valid, ((s.modifyJob j fun job => { job with m_NotifySid := sid }).resetOnlineStatus j
        sid).scheduleAnotherGroup)
    else (valid, s.scheduleAnotherGroup)

def setOldExternalJobInterface (j : JobPtr) (s : CJobManager) : CJobManager :=
  s.modifyJob j fun job => { job with m_OldExternalJobInterface := job.isDownload }

def setNoProgressTimeout (j : JobPtr) (Val : ℕ) (s : CJobManager) : HRESULT × CJobManager :=
  (.S_OK, s.modifyJob j fun job => { job with m_NoProgressTimeout := Val })

/-- The constructor and the destructor of `CRescheduleDownload`. -/
def rescheduleDownload (j : JobPtr) (s : CJobManager) : CJobManager :=
  if (s.job j).isRunning then s.interruptDownload.scheduleAnotherGroup else s

/-! The work items of a job. -/

/-- `CJob::OnRetryJob` and `CUploadJob::OnRetryJob`. -/
def onRetryJob (j : JobPtr) (s : CJobManager) : CJobManager :=
  let s := s.modifyJob j fun job => { job with retryItem := false }
  if (s.job j).isDownload ∨ (s.job j).m_state = .TRANSIENT_ERROR then
    ((s.modifyJob j (CJob.setState .QUEUED)).appendOnline j).scheduleAnotherGroup
  else if (s.job j).isFinal then
    ((s.modifyJob j fun job =>
      { job with m_UploadData := { job.m_UploadData with fSchedulable := true } }).appendOnline
        j).scheduleAnotherGroup
  else s.scheduleAnotherGroup

def onNoProgress (timeout : Bool) (j : JobPtr) (s : CJobManager) : CJobManager :=
  let done := s.modifyJob j fun job => { job with noProgressItem := false }
  match (s.job j).m_state with
  | .TRANSFERRING => done
  | .CONNECTING => (done.interruptDownload.fileFatalError timeout j).scheduleAnotherGroup
  | _ => (done.fileFatalError timeout j).scheduleAnotherGroup

/-- `CJob::OnInactivityTimeout` and `CUploadJob::OnInactivityTimeout`. -/
def onInactivityTimeout (j : JobPtr) (s : CJobManager) : CJobManager :=
  let s := s.modifyJob j fun job => { job with inactivityTimeout := false }
  if (s.job j).isDownload then (s.modifyJob j (CJob.setState .CANCELLED)).removeFromManager j
  else s.removeFromManager j

/-! The events of the system. -/

/-- The owner's jobs go from the offline list to the end of the online list, one after another. -/
def userLoggedOn (sid : Sid) (s : CJobManager) : CJobManager :=
  { s with
    m_OnlineJobs := s.m_OnlineJobs ++ s.m_OfflineJobs.filter fun j => (s.job j).isOwner sid
    m_OfflineJobs := s.m_OfflineJobs.filter fun j => !(s.job j).isOwner sid }.scheduleAnotherGroup

/-- The job that leaves the online list, which the current job does not. -/
def leaves (s : CJobManager) (sid : Sid) (j : JobPtr) : Bool :=
  (s.job j).isOwner sid && s.m_CurrentJob ≠ some j

def userLoggedOff (sid : Sid) (s : CJobManager) : CJobManager :=
  let fReschedule := s.m_CurrentJob.any fun current => (s.job current).isOwner sid
  let s := if fReschedule then s.interruptDownload else s
  let s := { s with
    m_OfflineJobs := s.m_OfflineJobs ++ s.m_OnlineJobs.filter (s.leaves sid)
    m_OnlineJobs := s.m_OnlineJobs.filter fun j => !s.leaves sid j }
  if fReschedule then s.scheduleAnotherGroup else s

def logonSession (sid : Sid) (s : CJobManager) : CJobManager :=
  { s with m_ActiveUsers := sid :: s.m_ActiveUsers }.userLoggedOn sid

/-- The user may be logged on in another session. -/
def logoffSession (sid : Sid) (s : CJobManager) : CJobManager :=
  if sid ∈ s.m_ActiveUsers then
    let s := { s with m_ActiveUsers := s.m_ActiveUsers.erase sid }
    if sid ∈ s.m_ActiveUsers then s else s.userLoggedOff sid
  else s

/-- A method of every job of a list. -/
def forJobs (f : JobPtr → CJobManager → CJobManager) (l : List JobPtr) (s : CJobManager) :
    CJobManager :=
  l.foldl (fun s j => f j s) s

/-- `OnNetworkConnect` or `OnNetworkDisconnect` of every job. -/
def recalcJobs (s : CJobManager) : CJobManager :=
  let s := forJobs (fun j s => s.recalcTransientError j false) s.m_OnlineJobs s
  forJobs (fun j s => s.recalcTransientError j false) s.m_OfflineJobs s

def reactivateTransientErrorJobs (s : CJobManager) : CJobManager := s.recalcJobs.scheduleAnotherGroup

def markJobsWithNetDisconnected (s : CJobManager) : CJobManager := s.recalcJobs.scheduleAnotherGroup

/-- `OnNetworkChange` up to where it lets go of the lock; it schedules again after that. -/
def onNetworkChange (s : CJobManager) : CJobManager :=
  if 0 < s.AddressCount then s.reactivateTransientErrorJobs else s.markJobsWithNetDisconnected

/-- `onVolume` tells which jobs have their current file on the volume. -/
def isTransferringToDrive (onVolume : JobPtr → Bool) (s : CJobManager) (j : JobPtr) : Bool :=
  onVolume j && (!(s.job j).isDownload || (s.job j).hasCurrentFile)

/-- `CJob::OnDeviceLock` and, if the volume is not locked, `CJob::OnDeviceUnlock`. -/
def setVolumeLocked (locked : Bool) (onVolume : JobPtr → Bool) (j : JobPtr) (s : CJobManager) :
    CJobManager :=
  if isTransferringToDrive onVolume s j then
    let s := if locked && (s.job j).isRunning then s.interruptDownload else s
    (s.modifyJob j fun job => { job with m_fVolumeLocked := locked }).recalcTransientError j false
  else s

/-- The loop of `OnDeviceLock` and `OnDeviceUnlock`. -/
def onDeviceChange (locked : Bool) (onVolume : JobPtr → Bool) (s : CJobManager) : CJobManager :=
  let fChanged := s.m_OnlineJobs.any (isTransferringToDrive onVolume s)
  let s := forJobs (setVolumeLocked locked onVolume) s.m_OnlineJobs s
  if fChanged then s.scheduleAnotherGroup else s

def onDeviceLock (onVolume : JobPtr → Bool) (s : CJobManager) : CJobManager :=
  s.onDeviceChange true onVolume

def onDeviceUnlock (onVolume : JobPtr → Bool) (s : CJobManager) : CJobManager :=
  s.onDeviceChange false onVolume

/-- `CJob::OnDiskChange` and `CJob::OnDismount`, which fail a job that has a file there. -/
def failFiles (onVolume timeout : JobPtr → Bool) (j : JobPtr) (s : CJobManager) : CJobManager :=
  match (s.job j).m_state with
  | .QUEUED | .CONNECTING | .TRANSFERRING | .TRANSIENT_ERROR =>
    if onVolume j then s.fileFatalError (timeout j) j else s
  | _ => s

def onDiskChange (onVolume timeout : JobPtr → Bool) (s : CJobManager) : CJobManager :=
  (forJobs (failFiles onVolume timeout) s.m_OnlineJobs s).scheduleAnotherGroup

def onDismount (onVolume timeout : JobPtr → Bool) (s : CJobManager) : CJobManager :=
  (forJobs (failFiles onVolume timeout) s.m_OnlineJobs s).scheduleAnotherGroup

/-! The download thread. -/

/-- The end of `TransferCurrentJob`. -/
def endTransfer (s : CJobManager) : CJobManager := s.completeWorkItem.scheduleAnotherGroup

/-- The rest of `CJob::Transfer` and `CUploadJob::Transfer` if there is no token. -/
def withoutToken (j : JobPtr) (s : CJobManager) : CJobManager :=
  let s := s.completeWorkItem
  (if (s.job j).isDownload then s else s.scheduleAnotherGroup).endTransfer

/-- The state of the job when the transfer begins. -/
def connect (j : JobPtr) (s : CJobManager) : CJobManager :=
  if (s.job j).isDownload then
    if (s.job j).m_state ≠ .TRANSFERRING then s.modifyJob j (CJob.setState .CONNECTING) else s
  else if (s.job j).m_state = .QUEUED then s.modifyJob j (CJob.setState .CONNECTING) else s

/-- `CJob::Transfer` and `CUploadJob::Transfer`, up to where the thread lets go of the lock. -/
def transfer (j : JobPtr) (copyToken : Bool) (s : CJobManager) : CJobManager :=
  if (s.job j).m_NotifySid ∉ s.m_ActiveUsers then
    ((s.moveJobOffline j).recalcTransientError j false).withoutToken j
  else if !copyToken then (s.modifyJob j (CJob.setTransientError false)).withoutToken j
  else { s.connect j with workItem := .transferring j 0 }

/-- `TransferCurrentJob`, when the thread that has dispatched the work item gets the lock. -/
def transferCurrentJob (copyToken : Bool) (s : CJobManager) : CJobManager :=
  let s := { s with workItem := .held }
  match s.m_CurrentJob with
  | none => s.endTransfer
  | some current => s.transfer current copyToken

/-- `DownloaderProgress`, `UploaderProgress` or only a poll of the timer, with the lock taken and let
go of. -/
def progress (j : JobPtr) (BytesTransferred : Option ℕ) (expired : Bool) (s : CJobManager) :
    CJobManager :=
  (match BytesTransferred with
  | some bytes => s.modifyJob j (CJob.updateProgress bytes)
  | none => s).checkForQuantumTimeout expired

/-- `Uploader::SetState`. -/
def setUploadState (j : JobPtr) (state : UPLOAD_STATE) (s : CJobManager) : CJobManager :=
  s.modifyJob j fun job => { job with m_UploadData := { job.m_UploadData with State := state } }

/-- The download result is interpreted by `CJob::Transfer`. -/
def fileResult (j : JobPtr) (result : FILE_DOWNLOAD_RESULT) (moved timeout : Bool)
    (s : CJobManager) : CJobManager :=
  match result with
  | .QM_FILE_TRANSIENT_ERROR => s.modifyJob j (CJob.fileTransientError timeout)
  | .QM_FILE_DONE => s.fileComplete moved j
  | .QM_FILE_FATAL_ERROR => s.fileFatalError timeout j
  | .QM_FILE_ABORTED => s
  | .QM_SERVER_FILE_CHANGED =>
    if (s.job j).isDownload then s.fileFatalError timeout j else s.appendOnline j

/-- The rest of `CJob::Transfer` and `CUploadJob::Transfer` when the thread has the lock again. -/
def transferred (j : JobPtr) (tries : ℕ) (result : FILE_DOWNLOAD_RESULT) (moved timeout : Bool)
    (s : CJobManager) : CJobManager :=
  if result = .QM_SERVER_FILE_CHANGED ∧ tries + 1 < 3 then
    { s with workItem := .transferring j (tries + 1) }
  else if (s.job j).isDownload then
    ({ s with workItem := .held }.fileResult j result moved timeout).endTransfer
  else
    ({ s with workItem := .held }.completeWorkItem.fileResult j result moved timeout).endTransfer

/-- The drive of the file is not the one it was, which `ValidateDriveInfo` finds out. -/
def driveChanged (j : JobPtr) (onVolume timeout : JobPtr → Bool) (s : CJobManager) : CJobManager :=
  let s := { s with workItem := .held }.onDiskChange onVolume timeout
  if (s.job j).isDownload then (s.fileFatalError (timeout j) j).endTransfer
  else (s.completeWorkItem.fileFatalError (timeout j) j).endTransfer

end CJobManager

end NtAdmin.Drizzle.Newjob.Selection
