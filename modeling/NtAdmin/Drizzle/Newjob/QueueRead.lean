import NtAdmin.Drizzle.Newjob.Queue

/-! `Unserialize`: what the queue manager makes of a state file. -/
namespace NtAdmin.Drizzle.Newjob.Queue

open NtAdmin.Lib

/-- `E_INVALIDARG` for a malformed file, or what an allocation or a conversion returned. -/
inductive ComError
  | invalidArg
  | outOfMemory
  | lastError
  deriving DecidableEq, Repr

/-- The world in which a file is read. `now` are the times at which work items are inserted, one
after the other, and `memory` is what a file time holds that nothing was assigned to. -/
structure LoadState (W : Windows) where
  now : ℕ → UInt64
  memory : UInt64
  inserted : ℕ
  m_OnlineJobs : List (CJob W)

section readers
variable {W : Windows}

abbrev Load (W : Windows) (α : Type) := Reader (LoadState W) ComError α

/-- `SafeReadFile`, which throws when the file is too short. -/
def safeReadFile (n : ℕ) : Load W (List UInt8) := Reader.bytes .invalidArg n

/-- A fact that holds of everything a process can hold. -/
def fits (p : Prop) [Decidable p] : Load W (PLift p) :=
  if h : p then pure ⟨h⟩ else throw .outOfMemory

def readDword : Load W UInt32 := do
  let bs ← safeReadFile 4
  pure (UInt32.ofNat (leNat bs))

def readUInt64 : Load W UInt64 := do
  let bs ← safeReadFile 8
  pure (UInt64.ofNat (leNat bs))

def readBool : Load W Bool := do
  let bs ← safeReadFile 1
  pure (leNat bs ≠ 0)

def readGuid : Load W Guid := do
  let bs ← safeReadFile 16
  let h ← fits (bs.length = 16)
  pure ⟨bs, h.down⟩

/-- `SafeReadBlockBegin` and `SafeReadBlockEnd`. -/
def safeReadBlock (guid : List UInt8) : Load W Unit := do
  let bs ← safeReadFile 16
  if bs = guid then pure () else throw .invalidArg

/-- The characters in `bs`, two bytes each. -/
def wideChars : List UInt8 → List UInt16
  | a :: b :: bs => UInt16.ofNat (leNat [a, b]) :: wideChars bs
  | _ => []

/-- The string in a buffer ends at its first terminator. -/
def stringInBuffer (buf : List UInt16) : Load W StringHandle := do
  let noNul ← fits (0 ∉ buf.takeWhile (· ≠ 0))
  let size ← fits ((buf.takeWhile (· ≠ 0)).length + 1 < 2 ^ 31)
  pure ⟨buf.takeWhile (· ≠ 0), noNul.down, size.down⟩

def safeReadStringHandle : Load W StringHandle := do
  let dwStringSize ← readDword
  let bs ← safeReadFile (2 * dwStringSize.toNat)
  if (wideChars bs).getLast? = some 0 then
    stringInBuffer (wideChars bs)
  else
    throw .invalidArg

def readString : Load W (Option StringHandle) := do
  let bString ← readBool
  if bString then do
    let str ← safeReadStringHandle
    pure (some str)
  else
    pure none

/-- A conversion that may fail. -/
def convert {α : Type} : Option α → Load W α
  | some a => pure a
  | none => throw .lastError

def safeReadSid : Load W W.Sid := do
  let str ← safeReadStringHandle
  convert (W.convertStringSidToSid str)

def unserializeSd : Load W W.Sd := do
  let sdSize ← readDword
  let bs ← safeReadFile sdSize.toNat
  convert (W.makeAbsoluteSD bs)

/-- `TaskScheduler::InsertWorkItem` at a given time to run. -/
def insertWorkItem (m_TimeToRun : UInt64) : Load W Timer := do
  let s ← Reader.getState
  Reader.modifyState fun s => { s with inserted := s.inserted + 1 }
  pure { m_InsertionTime := s.now s.inserted, m_TimeToRun }

def unserializeItem : Load W (Option Timer) := do
  let fActive ← readBool
  if fActive then do
    let _m_InsertionTime ← readUInt64
    let m_TimeToRun ← readUInt64
    let item ← insertWorkItem m_TimeToRun
    pure (some item)
  else
    pure none

/-- The file time of a new file, unless the job has one for it. -/
def unserializeFileTime (type : UInt32) : Load W UInt64 :=
  if type ≠ BG_JOB_TYPE_DOWNLOAD then
    readUInt64
  else do
    let s ← Reader.getState
    pure s.memory

def CFile.unserialize (type : UInt32) : Load W CFile := do
  let m_LocalFileTime ← unserializeFileTime type
  let m_LocalName ← safeReadStringHandle
  let m_RemoteName ← safeReadStringHandle
  let m_TemporaryName ← safeReadStringHandle
  let m_BytesTransferred ← readUInt64
  let m_BytesTotal ← readUInt64
  let m_Completed ← readBool
  let m_VolumePath ← safeReadStringHandle
  let m_CanonicalVolumePath ← safeReadStringHandle
  let m_DriveType ← readDword
  let m_VolumeSerialNumber ← readDword
  pure { m_LocalFileTime, m_LocalName, m_RemoteName, m_TemporaryName, m_BytesTransferred,
         m_BytesTotal, m_Completed, m_VolumePath, m_CanonicalVolumePath, m_DriveType,
         m_VolumeSerialNumber }

def CFileList.unserialize (type : UInt32) : Load W CFileList := do
  safeReadBlock FileListStorageGuid
  let count ← readDword
  let files ← Reader.times (CFile.unserialize type) count.toNat
  safeReadBlock FileListStorageGuid
  let h ← fits (files.length < 2 ^ 32)
  pure ⟨files, h.down⟩

def unserializeError : Load W (Option CJobError) := do
  let set ← readDword
  if set = 0 then
    pure none
  else do
    let m_FileIndex ← readDword
    let code ← readUInt64
    let style ← readDword
    let source ← readDword
    let result ← readDword
    let description ← readString
    pure (some { m_FileIndex, code, style, source, result, description })

def unserializeOldJob : Load W (Option Guid) := do
  let bHasOldExternalJobInterface ← readBool
  if bHasOldExternalJobInterface then do
    let guid ← readGuid
    pure (some guid)
  else
    pure none

def COldGroupInterface.unserialize : Load W COldGroupInterface := do
  let m_NotifyClsid ← readGuid
  let m_OldJobGuid ← unserializeOldJob
  pure { m_NotifyClsid, m_OldJobGuid }

def unserializeOldGroup : Load W (Option COldGroupInterface) := do
  let bHasOldExternalGroupInterface ← readBool
  if bHasOldExternalGroupInterface then do
    let group ← COldGroupInterface.unserialize
    pure (some group)
  else
    pure none

def CEncryptedBlob.unserialize : Load W (CEncryptedBlob W) := do
  let length ← safeReadFile W.sizeT
  let cbData ← readDword
  let pbData ← safeReadFile cbData.toNat
  let h ← fits (pbData.length < 2 ^ 32)
  pure { m_Length := BitVec.ofNat _ (leNat length), pbData, cbData_lt := h.down }

def unserializeCredentials : Load W (CEncryptedCredentials W) := do
  let b ← readBool
  if b then do
    let blob ← CEncryptedBlob.unserialize
    pure (some blob)
  else
    pure none

/-- `m_Dictionary[ key ] = cred`. -/
def insertEntry {α : Type} (key : UInt32) (cred : α) : List (UInt32 × α) → List (UInt32 × α)
  | [] => [(key, cred)]
  | e :: entries =>
    if key < e.1 then (key, cred) :: e :: entries
    else if key = e.1 then (key, cred) :: entries
    else e :: insertEntry key cred entries

def unserializeEntry : Load W (UInt32 × CEncryptedCredentials W) := do
  let key ← readDword
  let cred ← unserializeCredentials
  pure (key, cred)

def CCredentialsContainer.unserialize : Load W (CCredentialsContainer W) := do
  let count ← readDword
  -- the count is signed, and nothing is read when it is not positive
  let read ← Reader.times unserializeEntry count.toInt32.toInt.toNat
  let entries := read.foldl (fun m e => insertEntry e.1 (some e.2) m) []
  let sorted ← fits ((entries.map Prod.fst).Pairwise (· < ·))
  let count ← fits (entries.length < 2 ^ 31)
  pure ⟨entries, sorted.down, count.down⟩

def UPLOAD_DATA.unserialize : Load W UPLOAD_DATA := do
  let state ← readDword
  let protocol ← readGuid
  let sessionId ← safeReadStringHandle
  let replyUrl ← safeReadStringHandle
  let hostId ← safeReadStringHandle
  let hostIdFallbackTimeout ← readDword
  let hostIdNoProgressStartTime ← readUInt64
  pure { state, protocol, sessionId, replyUrl, hostId, hostIdFallbackTimeout,
         hostIdNoProgressStartTime, fSchedulable := true }

/-- The formats of a job in a file. -/
inductive JobType
  | downloadV1_5
  | uploadV1_5
  | downloadV1
  | downloadV1_2
  deriving DecidableEq, Repr

/-- `SafeReadGuidChoice` among the formats. -/
def safeReadGuidChoice : Load W JobType := do
  let guid ← safeReadFile 16
  if guid = DownloadJobGuid_v1_5 then pure .downloadV1_5
  else if guid = UploadJobGuid_v1_5 then pure .uploadV1_5
  else if guid = DownloadJobGuid_v1_0 then pure .downloadV1
  else if guid = DownloadJobGuid_v1_2 then pure .downloadV1_2
  else throw .invalidArg

/-- The block that a job of a format is in; an upload job has a download job inside. -/
def JobType.blockGuid : JobType → List UInt8
  | .downloadV1 => DownloadJobGuid_v1_0
  | .downloadV1_2 => DownloadJobGuid_v1_2
  | .downloadV1_5 | .uploadV1_5 => DownloadJobGuid_v1_5

/-- The command line of a job: the first format has none, and that of the second is ignored. -/
def unserializeNotify : JobType → Load W (StringHandle × StringHandle)
  | .downloadV1 => pure (default, default)
  | .downloadV1_2 => do
    let _unused ← safeReadStringHandle
    pure (default, default)
  | .downloadV1_5 | .uploadV1_5 => do
    let m_NotifyProgram ← safeReadStringHandle
    let m_NotifyParameters ← safeReadStringHandle
    pure (m_NotifyProgram, m_NotifyParameters)

theorem emptyCredentials_sorted :
    (([] : List (UInt32 × Option (CEncryptedCredentials W))).map Prod.fst).Pairwise (· < ·) :=
  List.Pairwise.nil

theorem emptyCredentials_count :
    ([] : List (UInt32 × Option (CEncryptedCredentials W))).length < 2 ^ 31 :=
  Nat.two_pow_pos 31

def emptyCredentials : CCredentialsContainer W := ⟨[], emptyCredentials_sorted, emptyCredentials_count⟩

def unserializeJobCredentials : JobType → Load W (CCredentialsContainer W)
  | .downloadV1 => pure emptyCredentials
  | _ => CCredentialsContainer.unserialize

/-- `CJob::Unserialize`. -/
def CJob.unserializeBase (type : JobType) : Load W (CJob W) := do
  safeReadBlock type.blockGuid
  let _was_m_refs ← readDword
  let m_priority ← readDword
  let m_state ← readDword
  let m_type ← readDword
  let m_id ← readGuid
  let m_name ← safeReadStringHandle
  let m_description ← safeReadStringHandle
  let notify ← unserializeNotify type
  let m_NotifySid ← safeReadSid
  let m_NotifyFlags ← readDword
  let m_fGroupNotifySid ← readDword
  let m_CurrentFile ← readDword
  let m_sd ← unserializeSd
  let m_files ← CFileList.unserialize m_type
  let m_error ← unserializeError
  let m_retries ← readDword
  let m_MinimumRetryDelay ← readDword
  let m_NoProgressTimeout ← readDword
  let m_CreationTime ← readUInt64
  let m_LastAccessTime ← readUInt64
  let m_ModificationTime ← readUInt64
  let m_TransferCompletionTime ← readUInt64
  let m_OldExternalGroupInterface ← unserializeOldGroup
  let m_method ← readDword
  let inactivityTimeout ← unserializeItem
  let noProgressItem ← unserializeItem
  let callbackItem ← unserializeItem
  let retryItem ← unserializeItem
  let proxyUsage ← readDword
  let proxyList ← readString
  let proxyBypassList ← readString
  let m_Credentials ← unserializeJobCredentials type
  safeReadBlock type.blockGuid
  pure { m_priority, m_state, m_type, m_id, m_name, m_description,
         m_NotifyProgram := notify.1, m_NotifyParameters := notify.2,
         m_NotifySid, m_NotifyFlags, m_fGroupNotifySid, m_CurrentFile, m_sd, m_files, m_error,
         m_retries, m_MinimumRetryDelay, m_NoProgressTimeout,
         m_CreationTime, m_LastAccessTime, m_ModificationTime, m_TransferCompletionTime,
         m_OldExternalGroupInterface, m_method,
         inactivityTimeout, noProgressItem, callbackItem, retryItem,
         m_ProxySettings := { proxyUsage, proxyList, proxyBypassList },
         m_Credentials, m_fVolumeLocked := false, upload := none }

def unserializeReplyFile (type : UInt32) : Load W (Option CFile) := do
  let fReplyFile ← readBool
  if fReplyFile then do
    let file ← CFile.unserialize type
    pure (some file)
  else
    pure none

/-- A session to be cancelled that waits for a retry may not be scheduled before. -/
def schedulable (m_state : UInt32) (retryItem : Option Timer) : Bool :=
  ¬((m_state = BG_JOB_STATE_CANCELLED ∨ m_state = BG_JOB_STATE_ACKNOWLEDGED) ∧ retryItem.isSome)

/-- `CUploadJob::Unserialize`. -/
def CJob.unserializeUpload (type : JobType) : Load W (CJob W) := do
  safeReadBlock UploadJobGuid_v1_5
  let job ← CJob.unserializeBase type
  let data ← UPLOAD_DATA.unserialize
  let m_fOwnReplyFileName ← readBool
  let m_ReplyFileName ← safeReadStringHandle
  let m_ReplyFile ← unserializeReplyFile job.m_type
  safeReadBlock UploadJobGuid_v1_5
  let m_UploadData := { data with fSchedulable := schedulable job.m_state job.retryItem }
  pure { job with
    upload := some { m_UploadData, m_fOwnReplyFileName, m_ReplyFileName, m_ReplyFile } }

/-- `CJob::UnserializeJob`: the block is read, and given back, to tell the class of the job. -/
def unserializeJob : Load W (CJob W) := do
  let type ← safeReadGuidChoice
  Reader.back 16
  if type = .uploadV1_5 then CJob.unserializeUpload type else CJob.unserializeBase type

def pushJob : Load W Unit := do
  let job ← unserializeJob
  Reader.modifyState fun s => { s with m_OnlineJobs := s.m_OnlineJobs ++ [job] }

/-- `CJobList::Unserialize` of the online jobs. -/
def unserializeList : Load W Unit := do
  safeReadBlock GroupListStorageGUID
  let dwNumberOfGroups ← readDword
  Reader.loop pushJob dwNumberOfGroups.toNat
  safeReadBlock GroupListStorageGUID

def unserializeLists : Load W Unit := do
  safeReadBlock QmgrStateStorageGUID
  safeReadBlock PriorityQueuesStorageGUID
  unserializeList
  unserializeList
  safeReadBlock PriorityQueuesStorageGUID
  safeReadBlock QmgrStateStorageGUID

/-- The jobs that `CJobManager::Unserialize` leaves, all of them online, and its result. A malformed
file is as good as none. -/
def unserialize (now : ℕ → UInt64) (memory : UInt64) (file : List UInt8) :
    Except ComError Unit × List (CJob W) :=
  match unserializeLists ⟨file, 0, { now, memory, inserted := 0, m_OnlineJobs := [] }⟩ with
  | (.ok (), c) => (.ok (), c.state.m_OnlineJobs)
  | (.error .invalidArg, _) => (.ok (), [])
  | (.error e, c) => (.error e, c.state.m_OnlineJobs)

end readers

end NtAdmin.Drizzle.Newjob.Queue
