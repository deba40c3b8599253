import NtAdmin.Drizzle.Newjob.Metadata
import NtAdmin.Lib.Reader

/-! The jobs of the queue and the bytes that `Serialize` writes for them. -/
namespace NtAdmin.Drizzle.Newjob.Queue

open NtAdmin.Lib

/-- A string without its terminator. What a process can hold leaves its size in a `DWORD`, in
bytes too. -/
@[ext] structure StringHandle where
  chars : List UInt16
  noNul : 0 ∉ chars
  size_lt : chars.length + 1 < 2 ^ 31

instance : Inhabited StringHandle := ⟨⟨[], by simp, by decide⟩⟩

@[ext] structure Guid where
  bytes : List UInt8
  length_bytes : bytes.length = 16

/-- What the queue takes from Windows: the size of a `size_t`, and the conversions of security
identifiers and descriptors, which are inverse pairs. -/
structure Windows where
  sizeT : ℕ
  Sid : Type
  Sd : Type
  convertSidToStringSid : Sid → StringHandle
  convertStringSidToSid : StringHandle → Option Sid
  makeSelfRelativeSD : Sd → List UInt8
  makeAbsoluteSD : List UInt8 → Option Sd
  sid_inverse : ∀ sid, convertStringSidToSid (convertSidToStringSid sid) = some sid
  sd_inverse : ∀ sd, makeAbsoluteSD (makeSelfRelativeSD sd) = some sd
  sd_size : ∀ sd, 0 < (makeSelfRelativeSD sd).length ∧ (makeSelfRelativeSD sd).length < 2 ^ 32

/-- A work item that is in the scheduler; one that is not has no times. -/
structure Timer where
  m_InsertionTime : UInt64
  m_TimeToRun : UInt64
  deriving DecidableEq

structure CFile where
  m_LocalFileTime : UInt64
  m_LocalName : StringHandle
  m_RemoteName : StringHandle
  m_TemporaryName : StringHandle
  m_BytesTransferred : UInt64
  m_BytesTotal : UInt64
  m_Completed : Bool
  m_VolumePath : StringHandle
  m_CanonicalVolumePath : StringHandle
  m_DriveType : UInt32
  m_VolumeSerialNumber : UInt32

@[ext] structure CFileList where
  files : List CFile
  size_lt : files.length < 2 ^ 32

/-- An error that is set. -/
structure CJobError where
  m_FileIndex : UInt32
  code : UInt64
  style : UInt32
  source : UInt32
  result : UInt32
  description : Option StringHandle

/-- The old interfaces: the class to notify, and the old job if there is one. -/
structure COldGroupInterface where
  m_NotifyClsid : Guid
  m_OldJobGuid : Option Guid

structure PROXY_SETTINGS where
  proxyUsage : UInt32
  proxyList : Option StringHandle
  proxyBypassList : Option StringHandle

section windows
variable (W : Windows)

@[ext] structure CEncryptedBlob where
  m_Length : BitVec (8 * W.sizeT)
  pbData : List UInt8
  cbData_lt : pbData.length < 2 ^ 32

/-- Credentials without a blob, or with one. -/
abbrev CEncryptedCredentials := Option (CEncryptedBlob W)

/-- The map of credentials, in the order of its keys. A key whose credentials were removed stays
with none. -/
@[ext] structure CCredentialsContainer where
  entries : List (UInt32 × Option (CEncryptedCredentials W))
  sorted : (entries.map Prod.fst).Pairwise (· < ·)
  count_lt : entries.length < 2 ^ 31

end windows

structure UPLOAD_DATA where
  state : UInt32
  fSchedulable : Bool
  protocol : Guid
  sessionId : StringHandle
  replyUrl : StringHandle
  hostId : StringHandle
  hostIdFallbackTimeout : UInt32
  hostIdNoProgressStartTime : UInt64

/-- What a `CUploadJob` has beyond a `CJob`. -/
structure UploadPart where
  m_UploadData : UPLOAD_DATA
  m_fOwnReplyFileName : Bool
  m_ReplyFileName : StringHandle
  m_ReplyFile : Option CFile

/-- A job; it is a `CUploadJob` when it has an upload part. Enumerations and counters are the double
words that are written for them. -/
structure CJob (W : Windows) where
  m_priority : UInt32
  m_state : UInt32
  m_type : UInt32
  m_id : Guid
  m_name : StringHandle
  m_description : StringHandle
  m_NotifyProgram : StringHandle
  m_NotifyParameters : StringHandle
  m_NotifySid : W.Sid
  m_NotifyFlags : UInt32
  m_fGroupNotifySid : UInt32
  m_CurrentFile : UInt32
  m_sd : W.Sd
  m_files : CFileList
  m_error : Option CJobError
  m_retries : UInt32
  m_MinimumRetryDelay : UInt32
  m_NoProgressTimeout : UInt32
  m_CreationTime : UInt64
  m_LastAccessTime : UInt64
  m_ModificationTime : UInt64
  m_TransferCompletionTime : UInt64
  m_OldExternalGroupInterface : Option COldGroupInterface
  m_method : UInt32
  inactivityTimeout : Option Timer
  noProgressItem : Option Timer
  callbackItem : Option Timer
  retryItem : Option Timer
  m_ProxySettings : PROXY_SETTINGS
  m_Credentials : CCredentialsContainer W
  m_fVolumeLocked : Bool
  upload : Option UploadPart

structure CJobManager (W : Windows) where
  m_OnlineJobs : List (CJob W)
  m_OfflineJobs : List (CJob W)
  online_lt : m_OnlineJobs.length < 2 ^ 32
  offline_lt : m_OfflineJobs.length < 2 ^ 32

def BG_JOB_STATE_QUEUED : UInt32 := 0
def BG_JOB_STATE_CONNECTING : UInt32 := 1
def BG_JOB_STATE_TRANSFERRING : UInt32 := 2
def BG_JOB_STATE_ACKNOWLEDGED : UInt32 := 7
def BG_JOB_STATE_CANCELLED : UInt32 := 8
def BG_JOB_TYPE_DOWNLOAD : UInt32 := 0

def UploadJobGuid_v1_5 : List UInt8 :=
  [0x7d, 0x5c, 0xa2, 0x42, 0xb2, 0x96, 0x3e, 0x48, 0xa2, 0x25, 0xe2, 0xf1, 0x02, 0xb6, 0xa3, 0x0b]

def DownloadJobGuid_v1_5 : List UInt8 :=
  [0xe8, 0xf1, 0x73, 0x0b, 0x4c, 0x2f, 0xde, 0x44, 0x85, 0x33, 0x98, 0x09, 0x2b, 0x34, 0xa1, 0x8b]

def DownloadJobGuid_v1_2 : List UInt8 :=
  [0x59, 0xc4, 0xe5, 0x85, 0x86, 0xef, 0xcd, 0x4f, 0x8e, 0xa0, 0x5b, 0x4f, 0x00, 0xd2, 0x7e, 0x35]

def DownloadJobGuid_v1_0 : List UInt8 :=
  [0xa4, 0xfc, 0x70, 0x57, 0x9f, 0xcf, 0x13, 0x45, 0x87, 0x37, 0x97, 0x2b, 0x4e, 0xa1, 0x26, 0x5d]

def FileListStorageGuid : List UInt8 :=
  [0x36, 0xda, 0x56, 0x77, 0x6f, 0x51, 0x5a, 0x43, 0xac, 0xac, 0x44, 0xa2, 0x48, 0xff, 0xf3, 0x4d]

/-- `SafeWriteFile` of a value of four bytes; the following are those of other sizes. -/
def writeDword (x : UInt32) : List UInt8 := leBytes 4 x.toNat

def writeCount (n : ℕ) : List UInt8 := leBytes 4 n

def writeUInt64 (x : UInt64) : List UInt8 := leBytes 8 x.toNat

def writeBool (b : Bool) : List UInt8 := [if b then 1 else 0]

def writeWide (chars : List UInt16) : List UInt8 := chars.flatMap fun c => leBytes 2 c.toNat

def safeWriteStringHandle (str : StringHandle) : List UInt8 :=
  writeCount (str.chars.length + 1) ++ writeWide (str.chars ++ [0])

/-- `SafeWriteFile` of a string that may be missing. -/
def writeString : Option StringHandle → List UInt8
  | some str => writeBool true ++ safeWriteStringHandle str
  | none => writeBool false

/-- The times of a work item, if `IsWorkItemInScheduler`. -/
def serializeItem : Option Timer → List UInt8
  | some item => writeBool true ++ (writeUInt64 item.m_InsertionTime ++ writeUInt64 item.m_TimeToRun)
  | none => writeBool false

/-- `CFile::Serialize` in a job of type `type`. -/
def CFile.serialize (type : UInt32) (file : CFile) : List UInt8 :=
  (if type ≠ BG_JOB_TYPE_DOWNLOAD then writeUInt64 file.m_LocalFileTime else []) ++
    (safeWriteStringHandle file.m_LocalName ++
    (safeWriteStringHandle file.m_RemoteName ++
    (safeWriteStringHandle file.m_TemporaryName ++
    (writeUInt64 file.m_BytesTransferred ++
    (writeUInt64 file.m_BytesTotal ++
    (writeBool file.m_Completed ++
    (safeWriteStringHandle file.m_VolumePath ++
    (safeWriteStringHandle file.m_CanonicalVolumePath ++
    (writeDword file.m_DriveType ++
    writeDword file.m_VolumeSerialNumber)))))))))

def CFileList.serialize (type : UInt32) (list : CFileList) : List UInt8 :=
  FileListStorageGuid ++
    (writeCount list.files.length ++
    (list.files.flatMap (CFile.serialize type) ++
    FileListStorageGuid))

def serializeError : Option CJobError → List UInt8
  | none => writeDword 0
  | some err =>
    writeDword 1 ++
      (writeDword err.m_FileIndex ++
      (writeUInt64 err.code ++
      (writeDword err.style ++
      (writeDword err.source ++
      (writeDword err.result ++
      writeString err.description)))))

def COldGroupInterface.serialize (group : COldGroupInterface) : List UInt8 :=
  group.m_NotifyClsid.bytes ++
    (match group.m_OldJobGuid with
    | some guid => writeBool true ++ guid.bytes
    | none => writeBool false)

def serializeOldGroup : Option COldGroupInterface → List UInt8
  | some group => writeBool true ++ group.serialize
  | none => writeBool false

section windows
variable {W : Windows}

def safeWriteSid (sid : W.Sid) : List UInt8 := safeWriteStringHandle (W.convertSidToStringSid sid)

def serializeSd (sd : W.Sd) : List UInt8 :=
  writeCount (W.makeSelfRelativeSD sd).length ++ W.makeSelfRelativeSD sd

def CEncryptedBlob.serialize (blob : CEncryptedBlob W) : List UInt8 :=
  leBytes W.sizeT blob.m_Length.toNat ++ (writeCount blob.pbData.length ++ blob.pbData)

def serializeCredentials : CEncryptedCredentials W → List UInt8
  | some blob => writeBool true ++ blob.serialize
  | none => writeBool false

/-- The credentials that are there, with their keys. -/
def present (entries : List (UInt32 × Option (CEncryptedCredentials W))) :
    List (UInt32 × CEncryptedCredentials W) :=
  entries.filterMap fun e => e.2.map fun cred => (e.1, cred)

def CCredentialsContainer.serialize (container : CCredentialsContainer W) : List UInt8 :=
  writeCount (present container.entries).length ++
    (present container.entries).flatMap fun e => writeDword e.1 ++ serializeCredentials e.2

def UPLOAD_DATA.serialize (data : UPLOAD_DATA) : List UInt8 :=
  writeDword data.state ++
    (data.protocol.bytes ++
    (safeWriteStringHandle data.sessionId ++
    (safeWriteStringHandle data.replyUrl ++
    (safeWriteStringHandle data.hostId ++
    (writeDword data.hostIdFallbackTimeout ++
    writeUInt64 data.hostIdNoProgressStartTime)))))

def CJob.isRunning (job : CJob W) : Bool :=
  job.m_state = BG_JOB_STATE_TRANSFERRING ∨ job.m_state = BG_JOB_STATE_CONNECTING

/-- `CJob::Serialize`. -/
def CJob.serializeBase (job : CJob W) : List UInt8 :=
  DownloadJobGuid_v1_5 ++
    (writeDword 0 ++
    (writeDword job.m_priority ++
    (writeDword (if job.isRunning then BG_JOB_STATE_QUEUED else job.m_state) ++
    (writeDword job.m_type ++
    (job.m_id.bytes ++
    (safeWriteStringHandle job.m_name ++
    (safeWriteStringHandle job.m_description ++
    (safeWriteStringHandle job.m_NotifyProgram ++
    (safeWriteStringHandle job.m_NotifyParameters ++
    (safeWriteSid job.m_NotifySid ++
    (writeDword job.m_NotifyFlags ++
    (writeDword job.m_fGroupNotifySid ++
    (writeDword job.m_CurrentFile ++
    (serializeSd job.m_sd ++
    (job.m_files.serialize job.m_type ++
    (serializeError job.m_error ++
    (writeDword job.m_retries ++
    (writeDword job.m_MinimumRetryDelay ++
    (writeDword job.m_NoProgressTimeout ++
    (writeUInt64 job.m_CreationTime ++
    (writeUInt64 job.m_LastAccessTime ++
    (writeUInt64 job.m_ModificationTime ++
    (writeUInt64 job.m_TransferCompletionTime ++
    (serializeOldGroup job.m_OldExternalGroupInterface ++
    (writeDword job.m_method ++
    (serializeItem job.inactivityTimeout ++
    (serializeItem job.noProgressItem ++
    (serializeItem job.callbackItem ++
    (serializeItem job.retryItem ++
    (writeDword job.m_ProxySettings.proxyUsage ++
    (writeString job.m_ProxySettings.proxyList ++
    (writeString job.m_ProxySettings.proxyBypassList ++
    (job.m_Credentials.serialize ++
    DownloadJobGuid_v1_5)))))))))))))))))))))))))))))))))

def serializeReplyFile (type : UInt32) : Option CFile → List UInt8
  | some file => writeBool true ++ file.serialize type
  | none => writeBool false

/-- `Serialize` of the class of the job. -/
def CJob.serialize (job : CJob W) : List UInt8 :=
  match job.upload with
  | none => job.serializeBase
  | some part =>
    UploadJobGuid_v1_5 ++
      (job.serializeBase ++
      (part.m_UploadData.serialize ++
      (writeBool part.m_fOwnReplyFileName ++
      (safeWriteStringHandle part.m_ReplyFileName ++
      (serializeReplyFile job.m_type part.m_ReplyFile ++
      UploadJobGuid_v1_5)))))

/-- `CJobList::Serialize`. -/
def serializeList (jobs : List (CJob W)) : List UInt8 :=
  GroupListStorageGUID ++
    (writeCount jobs.length ++
    (jobs.flatMap CJob.serialize ++
    GroupListStorageGUID))

/-- The image of the queue in a state file. -/
def CJobManager.image (manager : CJobManager W) : List UInt8 :=
  StateFiles.image [serializeList manager.m_OnlineJobs, serializeList manager.m_OfflineJobs]

end windows

end NtAdmin.Drizzle.Newjob.Queue
