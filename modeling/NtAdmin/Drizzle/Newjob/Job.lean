import Mathlib.Data.Int.Notation
import Mathlib.Data.Nat.Notation

/-! The state of a job, as far as it decides whether the job is transferred, of cjob.cpp. -/
namespace NtAdmin.Drizzle.Newjob.Selection

abbrev Sid := ℕ

inductive BG_JOB_TYPE
  | DOWNLOAD
  | UPLOAD
  | UPLOAD_REPLY
  deriving DecidableEq, Repr

inductive BG_JOB_STATE
  | QUEUED
  | CONNECTING
  | TRANSFERRING
  | SUSPENDED
  | ERROR
  | TRANSIENT_ERROR
  | TRANSFERRED
  | ACKNOWLEDGED
  | CANCELLED
  deriving DecidableEq, Repr

inductive UPLOAD_STATE
  | CREATE_SESSION
  | SEND_DATA
  | GET_REPLY
  | CLOSE_SESSION
  | CLOSED
  | CANCEL_SESSION
  | CANCELLED
  deriving DecidableEq, Repr

def BG_JOB_PRIORITY_FOREGROUND : ℤ := 0
def BG_JOB_PRIORITY_NORMAL : ℤ := 2
def BG_JOB_PRIORITY_LOW : ℤ := 3

def INFINITE : ℕ := 0xFFFFFFFF
def UPLOAD_CANCEL_TIMEOUT : ℕ := 24 * 60 * 60

structure UPLOAD_DATA where
  State : UPLOAD_STATE
  fSchedulable : Bool

/-- A `CJob`, or a `CUploadJob` if the type is not `DOWNLOAD`. `m_files` is the number of files. The
last three fields tell which work items of the job are in the scheduler. -/
structure CJob where
  m_type : BG_JOB_TYPE
  m_priority : ℤ
  m_state : BG_JOB_STATE
  m_NotifySid : Sid
  m_CurrentFile : ℕ
  m_files : ℕ
  m_NoProgressTimeout : ℕ
  m_fVolumeLocked : Bool
  m_OldExternalJobInterface : Bool
  m_UploadData : UPLOAD_DATA
  inactivityTimeout : Bool
  noProgressItem : Bool
  retryItem : Bool

namespace CJob

/-- The constructors of `CJob` and `CUploadJob`. -/
def new (type : BG_JOB_TYPE) (NotifySid : Sid) (m_DefaultNoProgressTimeout : ℕ) : CJob where
  m_type := type
  m_priority := BG_JOB_PRIORITY_NORMAL
  m_state := .SUSPENDED
  m_NotifySid := NotifySid
  m_CurrentFile := 0
  m_files := 0
  m_NoProgressTimeout := m_DefaultNoProgressTimeout
  m_fVolumeLocked := false
  m_OldExternalJobInterface := false
  m_UploadData := ⟨.CREATE_SESSION, true⟩
  inactivityTimeout := false
  noProgressItem := false
  retryItem := false

/-- The job is a plain `CJob`. -/
def isDownload (job : CJob) : Bool := job.m_type = .DOWNLOAD

/-- The job is gone, or an upload job whose session is being cancelled. -/
def isFinal (job : CJob) : Bool := job.m_state = .CANCELLED ∨ job.m_state = .ACKNOWLEDGED

/-- `GetCurrentFile` is not NULL. -/
def hasCurrentFile (job : CJob) : Bool := job.m_CurrentFile < job.m_files

def isEmpty (job : CJob) : Bool := job.m_files = 0

def isOwner (job : CJob) (sid : Sid) : Bool := sid = job.m_NotifySid

def isRunning (job : CJob) : Bool := job.m_state = .TRANSFERRING ∨ job.m_state = .CONNECTING

/-- `CJob::IsRunnable` and `CUploadJob::IsRunnable`. -/
def isRunnable (job : CJob) : Bool :=
  if job.m_fVolumeLocked then false
  else if job.isDownload then job.isRunning || job.m_state = .QUEUED
  else
    match job.m_state with
    | .SUSPENDED | .ERROR | .TRANSIENT_ERROR => false
    | _ => job.m_UploadData.fSchedulable && job.m_UploadData.State ≠ .CLOSED &&
        job.m_UploadData.State ≠ .CANCELLED

def sessionInProgress (job : CJob) : Bool :=
  job.m_UploadData.State = .SEND_DATA ∨ job.m_UploadData.State = .GET_REPLY ∨
    job.m_UploadData.State = .CLOSE_SESSION

/-- A job that leaves `TRANSIENT_ERROR` is not retried later. -/
def setState (state : BG_JOB_STATE) (job : CJob) : CJob :=
  if job.m_state = state then job
  else { job with m_state := state, retryItem := job.retryItem && state = .TRANSIENT_ERROR }

def setTransientError (fRetryLater : Bool) (job : CJob) : CJob :=
  let job := if job.isFinal then job else job.setState .TRANSIENT_ERROR
  { job with
    noProgressItem := job.noProgressItem || job.m_NoProgressTimeout ≠ INFINITE
    retryItem := job.retryItem || fRetryLater }

/-- An inactive job is queued if there is a network, and waits for one otherwise. -/
def recalcTransientError (AddressCount : ℤ) (ForResume : Bool) (job : CJob) : CJob :=
  if !ForResume &&
      (job.m_state = .ERROR || job.m_state = .TRANSFERRED || job.m_state = .SUSPENDED) then job
  else
    let queued := { (if job.isFinal then job else job.setState .QUEUED) with retryItem := false }
    if queued.m_fVolumeLocked || AddressCount = 0 then queued.setTransientError false else queued

def jobTransferred (job : CJob) : CJob := { job.setState .TRANSFERRED with noProgressItem := false }

/-- What `CJob::FileFatalError` does, and `CUploadJob::FileFatalError` at its end. -/
def setError (job : CJob) : CJob := { job with noProgressItem := false }.setState .ERROR

/-- `CJob::FileTransientError` and `CUploadJob::FileTransientError`. `timeout` is what
`CheckHostIdFallbackTimeout` says. -/
def fileTransientError (timeout : Bool) (job : CJob) : CJob :=
  if job.isDownload then job.setTransientError true
  else if job.isFinal then
    let failed := job.setTransientError true
    { failed with m_UploadData := { failed.m_UploadData with fSchedulable := false } }
  else if job.m_UploadData.State = .GET_REPLY then job.setTransientError true
  else if timeout then job.setState .QUEUED
  else job.setTransientError true

def updateProgress (BytesTransferred : ℕ) (job : CJob) : CJob :=
  { (if 0 < BytesTransferred then job.setState .TRANSFERRING else job) with noProgressItem := false }

/-- The work items that `CancelWorkitems` takes from the scheduler. -/
def cancelWorkitems (job : CJob) : CJob :=
  { job with inactivityTimeout := false, noProgressItem := false, retryItem := false }

/-- A change that does not start a transfer. -/
def Idle (f : CJob → CJob) : Prop := ∀ job, (f job).isRunning → job.isRunning

theorem idle_of_state {f : CJob → CJob} (h : ∀ job, (f job).m_state = job.m_state) : Idle f := by
  intro job hr
  simpa only [isRunning, h job] using hr

theorem Idle.comp {f g : CJob → CJob} (hg : Idle g) (hf : Idle f) : Idle fun job => g (f job) :=
  fun job hr => hf job (hg (f job) hr)

theorem Idle.ite {f g : CJob → CJob} {c : CJob → Prop} [DecidablePred c] (hf : Idle f) (hg : Idle g) :
    Idle fun job => if c job then f job else g job := by
  intro job hr
  dsimp only at hr
  split at hr
  · exact hf job hr
  · exact hg job hr

theorem idle_id : Idle id := fun _ h => h

theorem idle_setState {state : BG_JOB_STATE} (ht : state ≠ .TRANSFERRING) (hc : state ≠ .CONNECTING) :
    Idle (setState state) := by
  intro job hr
  unfold setState at hr
  split at hr
  · exact hr
  · simp [isRunning, ht, hc] at hr

theorem idle_setTransientError (fRetryLater : Bool) : Idle (setTransientError fRetryLater) := by
  have hstate : Idle fun job => if job.isFinal then job else job.setState .TRANSIENT_ERROR :=
    Idle.ite idle_id (idle_setState (by decide) (by decide))
  exact (idle_of_state fun _ => rfl).comp hstate

theorem idle_recalcTransientError (AddressCount : ℤ) (ForResume : Bool) :
    Idle (recalcTransientError AddressCount ForResume) := by
  have hqueued : Idle fun job => if job.isFinal then job else job.setState .QUEUED :=
    Idle.ite idle_id (idle_setState (by decide) (by decide))
  have hitem : Idle fun job =>
      { (if job.isFinal then job else job.setState .QUEUED) with retryItem := false } :=
    (idle_of_state fun _ => rfl).comp hqueued
  have herror : Idle fun job : CJob =>
      if job.m_fVolumeLocked || AddressCount = 0 then job.setTransientError false else job :=
    Idle.ite (idle_setTransientError false) idle_id
  exact Idle.ite idle_id (herror.comp hitem)

theorem idle_jobTransferred : Idle jobTransferred :=
  (idle_of_state fun _ => rfl).comp (idle_setState (by decide) (by decide))

theorem idle_setError : Idle setError :=
  (idle_setState (by decide) (by decide)).comp (idle_of_state fun _ => rfl)

theorem idle_fileTransientError (timeout : Bool) : Idle (fileTransientError timeout) := by
  have hfinal : Idle fun job : CJob =>
      { job.setTransientError true with
        m_UploadData := { (job.setTransientError true).m_UploadData with fSchedulable := false } } :=
    (idle_of_state fun _ => rfl).comp (idle_setTransientError true)
  have htimeout : Idle fun job : CJob =>
      if timeout then job.setState .QUEUED else job.setTransientError true :=
    Idle.ite (idle_setState (by decide) (by decide)) (idle_setTransientError true)
  exact Idle.ite (idle_setTransientError true)
    (Idle.ite hfinal (Idle.ite (idle_setTransientError true) htimeout))

/-- A running job is queued, or it waits. -/
theorem recalcTransientError_of_running {job : CJob} (h : job.isRunning) (AddressCount : ℤ) :
    (job.recalcTransientError AddressCount false).isRunning = false ∧
      (job.recalcTransientError AddressCount false).m_priority = job.m_priority ∧
      (AddressCount ≠ 0 →
        (job.recalcTransientError AddressCount false).isRunnable = job.isRunnable) := by
  cases hs : job.m_state <;> simp [isRunning, hs] at h <;>
    cases hl : job.m_fVolumeLocked <;> by_cases hn : AddressCount = 0 <;>
      by_cases hd : job.m_type = .DOWNLOAD <;>
        simp [recalcTransientError, setTransientError, setState, isFinal, isRunning, isRunnable,
          isDownload, hs, hl, hn, hd]

end CJob

end NtAdmin.Drizzle.Newjob.Selection
