import NtAdmin.Drizzle.Newjob.QueueFields

/-! The queue that `Unserialize` makes of the image that `Serialize` wrote. -/
namespace NtAdmin.Drizzle.Newjob.Queue

open NtAdmin.Lib NtAdmin.Lib.Reader

section jobs
variable {W : Windows} {s : LoadState W}

/-- An upload part as it is read; that its job may be scheduled is not written. -/
def UploadPart.restored (memory : UInt64) (job : CJob W) (part : UploadPart) : UploadPart :=
  { part with
    m_UploadData := { part.m_UploadData with
      fSchedulable := schedulable (if job.isRunning then BG_JOB_STATE_QUEUED else job.m_state)
        job.retryItem }
    m_ReplyFile := part.m_ReplyFile.map (CFile.loaded job.m_type memory) }

/-- The job that should come back: what is written is as it was, except that a running job is queued
and its volume is not locked. -/
def CJob.restored (memory : UInt64) (job : CJob W) : CJob W :=
  { job with
    m_state := if job.isRunning then BG_JOB_STATE_QUEUED else job.m_state
    m_files := job.m_files.loaded job.m_type memory
    m_Credentials := job.m_Credentials.loaded
    m_fVolumeLocked := false
    upload := job.upload.map (UploadPart.restored memory job) }

/-- A job whose work items have been inserted again. -/
def CJob.retimed (s : LoadState W) (job : CJob W) : CJob W :=
  { job with
    inactivityTimeout := s.item job.inactivityTimeout
    noProgressItem := (s.tick job.inactivityTimeout).item job.noProgressItem
    callbackItem := ((s.tick job.inactivityTimeout).tick job.noProgressItem).item job.callbackItem
    retryItem := (((s.tick job.inactivityTimeout).tick job.noProgressItem).tick
      job.callbackItem).item job.retryItem }

/-- The job that does come back. -/
def CJob.loaded (s : LoadState W) (job : CJob W) : CJob W := (job.restored s.memory).retimed s

def LoadState.ticks (s : LoadState W) (job : CJob W) : LoadState W :=
  (((s.tick job.inactivityTimeout).tick job.noProgressItem).tick job.callbackItem).tick job.retryItem

@[simp] theorem LoadState.tick_memory (s : LoadState W) (item : Option Timer) :
    (s.tick item).memory = s.memory := by
  cases item <;> rfl

@[simp] theorem LoadState.tick_now (s : LoadState W) (item : Option Timer) :
    (s.tick item).now = s.now := by
  cases item <;> rfl

@[simp] theorem LoadState.tick_jobs (s : LoadState W) (item : Option Timer) :
    (s.tick item).m_OnlineJobs = s.m_OnlineJobs := by
  cases item <;> rfl

@[simp] theorem LoadState.ticks_memory (s : LoadState W) (job : CJob W) :
    (s.ticks job).memory = s.memory := by
  simp [LoadState.ticks]

@[simp] theorem LoadState.ticks_now (s : LoadState W) (job : CJob W) :
    (s.ticks job).now = s.now := by
  simp [LoadState.ticks]

@[simp] theorem LoadState.ticks_jobs (s : LoadState W) (job : CJob W) :
    (s.ticks job).m_OnlineJobs = s.m_OnlineJobs := by
  simp [LoadState.ticks]

theorem schedulable_item (s : LoadState W) (m_state : UInt32) (item : Option Timer) :
    schedulable m_state (s.item item) = schedulable m_state item := by
  cases item <;> rfl

theorem reads_notify {type : JobType} (h : type = .downloadV1_5 ∨ type = .uploadV1_5)
    (program parameters : StringHandle) :
    Reads (unserializeNotify type : Load W _)
      (safeWriteStringHandle program ++ safeWriteStringHandle parameters) s (program, parameters)
      s := by
  have hread : Reads (do
      let m_NotifyProgram ← safeReadStringHandle
      let m_NotifyParameters ← safeReadStringHandle
      pure (m_NotifyProgram, m_NotifyParameters) : Load W _)
      (safeWriteStringHandle program ++ safeWriteStringHandle parameters) s (program, parameters)
      s := (reads_stringHandle _).bind ((reads_stringHandle _).map (Reads.pure _))
  rcases h with rfl | rfl
  · exact hread
  · exact hread

theorem reads_jobCredentials {type : JobType} (h : type = .downloadV1_5 ∨ type = .uploadV1_5)
    (container : CCredentialsContainer W) :
    Reads (unserializeJobCredentials type : Load W _) container.serialize s container.loaded s := by
  rcases h with rfl | rfl
  · exact reads_container container
  · exact reads_container container

theorem reads_base {type : JobType} (h : type = .downloadV1_5 ∨ type = .uploadV1_5)
    (job : CJob W) :
    Reads (CJob.unserializeBase type : Load W (CJob W)) job.serializeBase s
      { job.loaded s with upload := none } (s.ticks job) := by
  have hguid : type.blockGuid = DownloadJobGuid_v1_5 := by
    rcases h with rfl | rfl <;> rfl
  have hblock : DownloadJobGuid_v1_5.length = 16 := rfl
  unfold CJob.unserializeBase CJob.serializeBase
  rw [hguid, ← List.append_assoc (safeWriteStringHandle job.m_NotifyProgram)]
  apply (reads_block hblock).bind
  apply (reads_dword _).bind
  apply (reads_dword _).bind
  apply (reads_dword _).bind
  apply (reads_dword _).bind
  apply (reads_guid _).bind
  apply (reads_stringHandle _).bind
  apply (reads_stringHandle _).bind
  apply (reads_notify h _ _).bind
  apply (reads_sid _).bind
  apply (reads_dword _).bind
  apply (reads_dword _).bind
  apply (reads_dword _).bind
  apply (reads_sd _).bind
  apply (reads_fileList _ _).bind
  apply (reads_error _).bind
  apply (reads_dword _).bind
  apply (reads_dword _).bind
  apply (reads_dword _).bind
  apply (reads_uint64 _).bind
  apply (reads_uint64 _).bind
  apply (reads_uint64 _).bind
  apply (reads_uint64 _).bind
  apply (reads_oldGroup _).bind
  apply (reads_dword _).bind
  apply (reads_item _).bind
  apply (reads_item _).bind
  apply (reads_item _).bind
  apply (reads_item _).bind
  apply (reads_dword _).bind
  apply (reads_string _).bind
  apply (reads_string _).bind
  apply (reads_jobCredentials h _).bind
  apply (reads_block hblock).map
  exact Reads.pure _

theorem reads_upload (job : CJob W) (part : UploadPart) (hpart : job.upload = some part) :
    Reads (CJob.unserializeUpload .uploadV1_5 : Load W (CJob W)) job.serialize s (job.loaded s)
      (s.ticks job) := by
  have hblock : UploadJobGuid_v1_5.length = 16 := rfl
  unfold CJob.unserializeUpload CJob.serialize
  rw [hpart]
  apply (reads_block hblock).bind
  apply (reads_base (.inr rfl) job).bind
  apply (reads_uploadData _).bind
  apply (reads_bool _).bind
  apply (reads_stringHandle _).bind
  apply (reads_replyFile _ _).bind
  apply (reads_block hblock).map
  apply reads_pure_eq
  simp only [CJob.loaded, CJob.retimed, CJob.restored, hpart, Option.map_some,
    UploadPart.restored, LoadState.ticks_memory, schedulable_item]

theorem reads_guidChoice {guid : List UInt8} {type : JobType} (hlen : guid.length = 16)
    (h : guid = DownloadJobGuid_v1_5 ∧ type = .downloadV1_5 ∨
      guid = UploadJobGuid_v1_5 ∧ type = .uploadV1_5) :
    Reads (safeReadGuidChoice : Load W JobType) guid s type s := by
  unfold safeReadGuidChoice
  apply (reads_safeReadFile hlen).map
  rcases h with ⟨rfl, rfl⟩ | ⟨rfl, rfl⟩
  · rw [if_pos rfl]
    exact Reads.pure _
  · rw [if_neg (by decide), if_pos rfl]
    exact Reads.pure _

theorem reads_job (job : CJob W) :
    Reads (unserializeJob : Load W (CJob W)) job.serialize s (job.loaded s) (s.ticks job) := by
  unfold unserializeJob
  cases hupload : job.upload with
  | none =>
    have hblock : DownloadJobGuid_v1_5.length = 16 := rfl
    have hchoice : Reads (safeReadGuidChoice : Load W JobType) DownloadJobGuid_v1_5 s
        .downloadV1_5 s := reads_guidChoice hblock (.inl ⟨rfl, rfl⟩)
    have hbase := reads_base (s := s) (.inl rfl) job
    have hloaded : { job.loaded s with upload := none } = job.loaded s := by
      simp [CJob.loaded, CJob.retimed, CJob.restored, hupload]
    rw [hloaded] at hbase
    have hserialize : job.serialize = job.serializeBase := by
      rw [CJob.serialize, hupload]
    rw [hserialize]
    apply hchoice.peek
    rw [if_neg (by decide)]
    exact hbase
  | some part =>
    have hblock : UploadJobGuid_v1_5.length = 16 := rfl
    have hchoice : Reads (safeReadGuidChoice : Load W JobType) UploadJobGuid_v1_5 s
        .uploadV1_5 s := reads_guidChoice hblock (.inr ⟨rfl, rfl⟩)
    have hjob := reads_upload (s := s) job part hupload
    unfold CJob.serialize at hjob ⊢
    rw [hupload] at hjob ⊢
    apply hchoice.peek
    rw [if_pos rfl]
    exact hjob

/-- The world after the job has been read and appended. -/
def LoadState.push (s : LoadState W) (job : CJob W) : LoadState W :=
  { s.ticks job with m_OnlineJobs := s.m_OnlineJobs ++ [job.loaded s] }

theorem reads_pushJob (job : CJob W) :
    Reads (pushJob : Load W Unit) job.serialize s () (s.push job) := by
  apply (reads_job job).map
  have hmod := reads_modifyState (ε := ComError) (s := s.ticks job)
    fun t : LoadState W => { t with m_OnlineJobs := t.m_OnlineJobs ++ [job.loaded s] }
  rw [LoadState.ticks_jobs] at hmod
  exact hmod

theorem reads_list {jobs : List (CJob W)} (h : jobs.length < 2 ^ 32) :
    Reads (unserializeList : Load W Unit) (serializeList jobs) s ()
      (jobs.foldl LoadState.push s) := by
  have hblock : GroupListStorageGUID.length = 16 := rfl
  unfold unserializeList serializeList
  apply (reads_block hblock).bind
  apply (reads_count h).bind
  rw [toNat_count h]
  apply (reads_loop (g := fun job s => s.push job) jobs (fun job _ s => reads_pushJob job) s).bind
  exact reads_block hblock

theorem reads_lists (manager : CJobManager W) :
    Reads (unserializeLists : Load W Unit) manager.image s ()
      ((manager.m_OnlineJobs ++ manager.m_OfflineJobs).foldl LoadState.push s) := by
  have hstate : QmgrStateStorageGUID.length = 16 := rfl
  have hqueues : PriorityQueuesStorageGUID.length = 16 := rfl
  rw [List.foldl_append]
  unfold unserializeLists CJobManager.image StateFiles.image
  simp only [List.flatten_cons, List.flatten_nil, List.append_nil, List.append_assoc]
  apply (reads_block hstate).bind
  apply (reads_block hqueues).bind
  apply (reads_list manager.online_lt).bind
  apply (reads_list manager.offline_lt).bind
  apply (reads_block hqueues).bind
  exact reads_block hstate

/-- The jobs that come back, one after the other. -/
def loadedJobs (s : LoadState W) : List (CJob W) → List (CJob W)
  | [] => []
  | job :: jobs => job.loaded s :: loadedJobs (s.push job) jobs

theorem jobs_foldl_push (jobs : List (CJob W)) (s : LoadState W) :
    (jobs.foldl LoadState.push s).m_OnlineJobs = s.m_OnlineJobs ++ loadedJobs s jobs := by
  induction jobs generalizing s with
  | nil => simp [loadedJobs]
  | cons job jobs ih =>
    rw [List.foldl_cons, ih, loadedJobs]
    simp [LoadState.push]

/-- `Unserialize` succeeds on every image and brings the jobs back, their work items inserted at the
times of the insertions. -/
theorem unserialize_image (manager : CJobManager W) (now : ℕ → UInt64) (memory : UInt64)
    (rest : List UInt8) :
    unserialize now memory (manager.image ++ rest) =
      (.ok (), loadedJobs { now, memory, inserted := 0, m_OnlineJobs := [] }
        (manager.m_OnlineJobs ++ manager.m_OfflineJobs)) := by
  have h := reads_lists manager (s := { now, memory, inserted := 0, m_OnlineJobs := [] }) [] rest
  simp only [List.nil_append, List.length_nil, Nat.zero_add] at h
  unfold unserialize
  rw [h]
  simp only [jobs_foldl_push, List.nil_append]

end jobs

section timers
variable {W : Windows}

/-- The work items of a job that are in the scheduler, in the order in which they are written. -/
def CJob.timers (job : CJob W) : List Timer :=
  job.inactivityTimeout.toList ++
    (job.noProgressItem.toList ++ (job.callbackItem.toList ++ job.retryItem.toList))

def CJobManager.timers (manager : CJobManager W) : List Timer :=
  (manager.m_OnlineJobs ++ manager.m_OfflineJobs).flatMap CJob.timers

/-- The timers were inserted at the times `now` from number `n` on. -/
def Timed (now : ℕ → UInt64) (n : ℕ) : List Timer → Prop
  | [] => True
  | t :: ts => now n = t.m_InsertionTime ∧ Timed now (n + 1) ts

theorem timed_append {now : ℕ → UInt64} {n : ℕ} {ts us : List Timer} :
    Timed now n (ts ++ us) ↔ Timed now n ts ∧ Timed now (n + ts.length) us := by
  induction ts generalizing n with
  | nil => simp [Timed]
  | cons t ts ih =>
    rw [List.cons_append, Timed, Timed, ih, List.length_cons, and_assoc, Nat.add_assoc,
      Nat.add_comm 1]

theorem timed_iff {now : ℕ → UInt64} {n : ℕ} {ts : List Timer} :
    Timed now n ts ↔ ∀ i t, ts[i]? = some t → now (n + i) = t.m_InsertionTime := by
  induction ts generalizing n with
  | nil => simp [Timed]
  | cons t ts ih =>
    rw [Timed, ih]
    constructor
    · rintro ⟨h0, h⟩ (_ | i) u hu
      · cases hu
        exact h0
      · rw [← h i u hu]
        congr 1
        omega
    · intro h
      constructor
      · exact h 0 t rfl
      · intro i u hu
        rw [← h (i + 1) u hu]
        congr 1
        omega

theorem item_eq_iff (s : LoadState W) (item : Option Timer) :
    s.item item = item ↔ Timed s.now s.inserted item.toList := by
  cases item with
  | none => simp [LoadState.item, Timed]
  | some t =>
    obtain ⟨insertion, run⟩ := t
    simp [LoadState.item, Timed]

@[simp] theorem LoadState.tick_inserted (s : LoadState W) (item : Option Timer) :
    (s.tick item).inserted = s.inserted + item.toList.length := by
  cases item <;> rfl

theorem retimed_eq_iff (s : LoadState W) (job : CJob W) :
    job.retimed s = job ↔ Timed s.now s.inserted job.timers := by
  have hparts : job.retimed s = job ↔
      s.item job.inactivityTimeout = job.inactivityTimeout ∧
      (s.tick job.inactivityTimeout).item job.noProgressItem = job.noProgressItem ∧
      ((s.tick job.inactivityTimeout).tick job.noProgressItem).item job.callbackItem =
        job.callbackItem ∧
      (((s.tick job.inactivityTimeout).tick job.noProgressItem).tick job.callbackItem).item
        job.retryItem = job.retryItem := by
    cases job
    simp [CJob.retimed]
  rw [hparts, item_eq_iff, item_eq_iff, item_eq_iff, item_eq_iff, CJob.timers, timed_append,
    timed_append, timed_append]
  simp

theorem loaded_eq_iff (s : LoadState W) (job : CJob W) :
    job.loaded s = job.restored s.memory ↔ Timed s.now s.inserted job.timers :=
  retimed_eq_iff s (job.restored s.memory)

theorem LoadState.push_inserted (s : LoadState W) (job : CJob W) :
    (s.push job).inserted = s.inserted + job.timers.length := by
  simp [LoadState.push, LoadState.ticks, CJob.timers, Nat.add_assoc]

theorem loadedJobs_eq_iff (s : LoadState W) (jobs : List (CJob W)) :
    loadedJobs s jobs = jobs.map (CJob.restored s.memory) ↔
      Timed s.now s.inserted (jobs.flatMap CJob.timers) := by
  induction jobs generalizing s with
  | nil => simp [loadedJobs, Timed]
  | cons job jobs ih =>
    have hnow : (s.push job).now = s.now := by simp [LoadState.push]
    have hmemory : (s.push job).memory = s.memory := by simp [LoadState.push]
    have hjobs := ih (s.push job)
    rw [hnow, hmemory, LoadState.push_inserted] at hjobs
    rw [loadedJobs, List.map_cons, List.cons.injEq, loaded_eq_iff, hjobs, List.flatMap_cons,
      timed_append]

/-- The image of a queue reads back as the queue just when every work item in the scheduler is
inserted again at the very time at which it was inserted. -/
theorem queue_round_trip (W : Windows) (manager : CJobManager W) (now : ℕ → UInt64)
    (memory : UInt64) (rest : List UInt8) :
    unserialize now memory (manager.image ++ rest) =
        (.ok (), (manager.m_OnlineJobs ++ manager.m_OfflineJobs).map (CJob.restored memory)) ↔
      ∀ i t, manager.timers[i]? = some t → now i = t.m_InsertionTime := by
  rw [unserialize_image, Prod.mk.injEq]
  have h := loadedJobs_eq_iff { now, memory, inserted := 0, m_OnlineJobs := [] }
    (manager.m_OnlineJobs ++ manager.m_OfflineJobs)
  rw [timed_iff] at h
  simp only [Nat.zero_add] at h
  rw [h]
  simp [CJobManager.timers]

/-- A system with one security identifier and one descriptor. -/
def oneUser : Windows where
  sizeT := 4
  Sid := Unit
  Sd := Unit
  convertSidToStringSid _ := default
  convertStringSidToSid _ := some ()
  makeSelfRelativeSD _ := [1]
  makeAbsoluteSD _ := some ()
  sid_inverse _ := rfl
  sd_inverse _ := rfl
  sd_size _ := by decide

/-- A suspended download without files, created at time 100. -/
def newJob : CJob oneUser where
  m_priority := 2
  m_state := 3
  m_type := BG_JOB_TYPE_DOWNLOAD
  m_id := ⟨List.replicate 16 7, rfl⟩
  m_name := default
  m_description := default
  m_NotifyProgram := default
  m_NotifyParameters := default
  m_NotifySid := ()
  m_NotifyFlags := 3
  m_fGroupNotifySid := 0
  m_CurrentFile := 0
  m_sd := ()
  m_files := ⟨[], by decide⟩
  m_error := none
  m_retries := 0
  m_MinimumRetryDelay := 600
  m_NoProgressTimeout := 1209600
  m_CreationTime := 100
  m_LastAccessTime := 100
  m_ModificationTime := 100
  m_TransferCompletionTime := 0
  m_OldExternalGroupInterface := none
  m_method := 0
  inactivityTimeout := some { m_InsertionTime := 100, m_TimeToRun := 7776100 }
  noProgressItem := none
  callbackItem := none
  retryItem := none
  m_ProxySettings := { proxyUsage := 0, proxyList := none, proxyBypassList := none }
  m_Credentials := emptyCredentials
  m_fVolumeLocked := false
  upload := none

def oneJob : CJobManager oneUser where
  m_OnlineJobs := [newJob]
  m_OfflineJobs := []
  online_lt := by decide
  offline_lt := by decide

/-- The service that starts at time 500 counts the inactivity of the job from then on. -/
theorem queue_insertion_time_lost : ¬ ∀ (W : Windows) (manager : CJobManager W) (now : ℕ → UInt64)
    (memory : UInt64) (rest : List UInt8), unserialize now memory (manager.image ++ rest) =
      (.ok (), (manager.m_OnlineJobs ++ manager.m_OfflineJobs).map (CJob.restored memory)) := by
  intro h
  have hjob := h oneUser oneJob (fun _ => 500) 0 []
  rw [unserialize_image, Prod.mk.injEq] at hjob
  have htimed := (loadedJobs_eq_iff _ _).mp hjob.2
  have htime : (500 : UInt64) = 100 := htimed.1
  exact absurd htime (by decide)

end timers

end NtAdmin.Drizzle.Newjob.Queue
