import NtAdmin.Lib.Image

/-! How a job is saved to and loaded from its file. -/
namespace NtAdmin.Sched.Job
open Lib

/-! ### The data -/

/-- `n` bytes. -/
def ByteBlock (n : ℕ) : Type := { bs : List UInt8 // bs.length = n }

instance (n : ℕ) : DecidableEq (ByteBlock n) := inferInstanceAs (DecidableEq (Subtype _))

/-- Bytes of a record as a block. -/
def blockOf (n : ℕ) (bs : List UInt8) : ByteBlock n :=
  ⟨(bs ++ List.replicate n 0).take n, by
    rw [List.length_take, List.length_append, List.length_replicate]
    omega⟩

def word (x : UInt16) : List UInt8 := leBytes 2 x.toNat

def dword (x : UInt32) : List UInt8 := leBytes 4 x.toNat

def wordOf (bs : List UInt8) : UInt16 := UInt16.ofNat (leNat bs)

def dwordOf (bs : List UInt8) : UInt32 := UInt32.ofNat (leNat bs)

structure FIXDLEN_DATA where
  wVersion : UInt16
  wFileObjVer : UInt16
  uuidJob : ByteBlock 16
  wAppNameLenOffset : UInt16
  wTriggerOffset : UInt16
  wErrorRetryCount : UInt16
  wErrorRetryInterval : UInt16
  wIdleDeadline : UInt16
  wIdleWait : UInt16
  dwPriority : UInt32
  dwMaxRunTime : UInt32
  exitCode : UInt32
  hrStatus : UInt32
  rgFlags : UInt32
  stMostRecentRunTime : ByteBlock 16

namespace FIXDLEN_DATA

def sizes : List ℕ := [2, 2, 16, 2, 2, 2, 2, 2, 2, 4, 4, 4, 4, 4, 16]

def fields (d : FIXDLEN_DATA) : List (List UInt8) :=
  [word d.wVersion, word d.wFileObjVer, d.uuidJob.1, word d.wAppNameLenOffset,
    word d.wTriggerOffset, word d.wErrorRetryCount, word d.wErrorRetryInterval,
    word d.wIdleDeadline, word d.wIdleWait, dword d.dwPriority, dword d.dwMaxRunTime,
    dword d.exitCode, dword d.hrStatus, dword d.rgFlags, d.stMostRecentRunTime.1]

def bytes (d : FIXDLEN_DATA) : List UInt8 := d.fields.flatten

def ofBytes (bs : List UInt8) : FIXDLEN_DATA :=
  let field (i : ℕ) := (fieldsOf sizes bs).getD i []
  { wVersion := wordOf (field 0)
    wFileObjVer := wordOf (field 1)
    uuidJob := blockOf 16 (field 2)
    wAppNameLenOffset := wordOf (field 3)
    wTriggerOffset := wordOf (field 4)
    wErrorRetryCount := wordOf (field 5)
    wErrorRetryInterval := wordOf (field 6)
    wIdleDeadline := wordOf (field 7)
    wIdleWait := wordOf (field 8)
    dwPriority := dwordOf (field 9)
    dwMaxRunTime := dwordOf (field 10)
    exitCode := dwordOf (field 11)
    hrStatus := dwordOf (field 12)
    rgFlags := dwordOf (field 13)
    stMostRecentRunTime := blockOf 16 (field 14) }

end FIXDLEN_DATA

/-- The fields that the job does not look at when it is saved or loaded are bytes. -/
structure TASK_TRIGGER where
  cbTriggerSize : UInt16
  reserved1 : UInt16
  data : ByteBlock 44
  deriving DecidableEq

def TASK_TRIGGER.bytes (t : TASK_TRIGGER) : List UInt8 :=
  word t.cbTriggerSize ++ word t.reserved1 ++ t.data.1

def TASK_TRIGGER.ofBytes (bs : List UInt8) : TASK_TRIGGER :=
  let field (i : ℕ) := (fieldsOf [2, 2, 44] bs).getD i []
  { cbTriggerSize := wordOf (field 0)
    reserved1 := wordOf (field 1)
    data := blockOf 44 (field 2) }

/-- A string without its terminating zero. -/
def WideString : Type := { cs : List UInt16 // ∀ c ∈ cs, c ≠ 0 }

instance : DecidableEq WideString := inferInstanceAs (DecidableEq (Subtype _))

/-- What the string fields, the counted data and the triggers of a job can be. Data that is not
there is `none`, or empty. -/
structure CJob where
  m_wVersion : UInt16
  m_uuidJob : ByteBlock 16
  m_wTriggerOffset : UInt16
  m_wErrorRetryCount : UInt16
  m_wErrorRetryInterval : UInt16
  m_cRunningInstances : UInt16
  m_wIdleWait : UInt16
  m_wIdleDeadline : UInt16
  m_dwPriority : UInt32
  m_dwMaxRunTime : UInt32
  m_ExitCode : UInt32
  m_hrStatus : UInt32
  m_rgFlags : UInt32
  m_rgTaskFlags : UInt32
  m_stMostRecentRunTime : ByteBlock 16
  m_pwszApplicationName : Option WideString
  m_pwszParameters : Option WideString
  m_pwszWorkingDirectory : Option WideString
  m_pwszCreator : Option WideString
  m_pwszComment : Option WideString
  m_pbTaskData : { bs : List UInt8 // bs.length < 2 ^ 16 }
  m_pbReserved : Option { bs : List UInt8 // 8 ≤ bs.length ∧ bs.length < 2 ^ 16 }
  m_hrStartError : UInt32
  m_Triggers : { ts : List TASK_TRIGGER // ts.length < 2 ^ 16 }
  m_pbSignature : Option (ByteBlock 64)

def JOB_OBJ_FORMAT_VERSION : UInt16 := 1
def JOB_SIGNATURE_VERSION : UInt16 := 1
def JOB_SIGNATURE_CLIENT_VERSION : UInt16 := 1
def JOB_SIGNATURE_MIN_CLIENT_VERSION : UInt16 := 1

def TASK_FLAG_DISABLED : UInt32 := 0x4
def JOB_I_FLAG_APPNAME_CHANGE : UInt32 := 0x00010000
def JOB_I_FLAG_SET_ACCOUNT_INFO : UInt32 := 0x00020000
def JOB_I_FLAG_NET_SCHEDULE : UInt32 := 0x00200000
def JOB_I_FLAG_HAS_TRIGGERS : UInt32 := 0x00800000
def JOB_I_FLAG_RUN_PROP_CHANGE : UInt32 := 0x10000000
def JOB_I_FLAG_NO_RUN_PROP_CHANGE : UInt32 := 0x20000000
def JOB_I_FLAG_TRIGGERS_DIRTY : UInt32 := 0x80000000
def JOB_DIRTY_FLAG_MASK : UInt32 := 0xC0000000
def NON_PERSISTED_JOB_FLAGS : UInt32 := JOB_DIRTY_FLAG_MASK ||| JOB_I_FLAG_SET_ACCOUNT_INFO

def SCHED_S_TASK_RUNNING : UInt32 := 0x00041301
def SCHED_S_TASK_DISABLED : UInt32 := 0x00041302
def SCHED_S_TASK_HAS_NOT_RUN : UInt32 := 0x00041303

namespace CJob

def isFlagSet (j : CJob) (f : UInt32) : Bool := decide (j.m_rgFlags &&& f ≠ 0)

def setFlag (j : CJob) (f : UInt32) : CJob := { j with m_rgFlags := j.m_rgFlags ||| f }

def clearFlag (j : CJob) (f : UInt32) : CJob := { j with m_rgFlags := j.m_rgFlags &&& ~~~f }

/-! ### Saving -/

structure SaveOptions where
  variableLengthData : Bool
  runningInstanceCount : Bool
  preserveNetSchedule : Bool

/-- What a save depends on besides: whether it creates the file, the ids that are generated for a
new file and for a new application, the user's name, and the update of the job's state. -/
structure SaveEnv where
  creates : Bool
  uuidFile : ByteBlock 16
  uuidApp : ByteBlock 16
  userName : Option WideString
  updateJobState : CJob → CJob

/-- The job as it is written. -/
def prepare (env : SaveEnv) (opts : SaveOptions) (j : CJob) : CJob :=
  let j := if env.creates then { j with m_uuidJob := env.uuidFile } else j
  let j := if j.m_pwszCreator = none then { j with m_pwszCreator := env.userName } else j
  let enabled := !j.isFlagSet TASK_FLAG_DISABLED && decide (j.m_hrStatus = SCHED_S_TASK_DISABLED)
  let j := if j.isFlagSet TASK_FLAG_DISABLED ∧ j.m_hrStatus ≠ SCHED_S_TASK_RUNNING then
    { j with m_hrStatus := SCHED_S_TASK_DISABLED } else j
  let changed := j.isFlagSet JOB_I_FLAG_RUN_PROP_CHANGE
  let update := enabled || j.isFlagSet JOB_I_FLAG_TRIGGERS_DIRTY || changed
  let j := if changed then
    (j.clearFlag JOB_I_FLAG_RUN_PROP_CHANGE).clearFlag JOB_I_FLAG_NO_RUN_PROP_CHANGE else j
  let j := if update then env.updateJobState j else j
  let j := if j.isFlagSet JOB_I_FLAG_APPNAME_CHANGE then
    { j with m_uuidJob := env.uuidApp }.clearFlag JOB_I_FLAG_APPNAME_CHANGE else j
  if opts.preserveNetSchedule then j else j.clearFlag JOB_I_FLAG_NET_SCHEDULE

def flData (j : CJob) (wTriggerOffset : UInt16) : FIXDLEN_DATA :=
  { wVersion := j.m_wVersion
    wFileObjVer := JOB_OBJ_FORMAT_VERSION
    uuidJob := j.m_uuidJob
    wAppNameLenOffset := 68 + 2
    wTriggerOffset := wTriggerOffset
    wErrorRetryCount := j.m_wErrorRetryCount
    wErrorRetryInterval := j.m_wErrorRetryInterval
    wIdleWait := j.m_wIdleWait
    wIdleDeadline := j.m_wIdleDeadline
    dwPriority := j.m_dwPriority
    dwMaxRunTime := j.m_dwMaxRunTime
    exitCode := j.m_ExitCode
    hrStatus := j.m_hrStatus
    rgFlags := j.m_rgFlags &&& ~~~NON_PERSISTED_JOB_FLAGS
    stMostRecentRunTime := j.m_stMostRecentRunTime }

/-- The length with the terminating zero, in 16 bits. -/
def stringLen : Option WideString → UInt16
  | none => 0
  | some s => if s.1 = [] then 0 else UInt16.ofNat (s.1.length + 1)

def stringBytes (pwsz : Option WideString) : List UInt8 :=
  word (stringLen pwsz) ++
    (((pwsz.elim [] Subtype.val ++ [0]).flatMap word).take (2 * (stringLen pwsz).toNat))

def stringFields (j : CJob) : List (Option WideString) :=
  [j.m_pwszApplicationName, j.m_pwszParameters, j.m_pwszWorkingDirectory, j.m_pwszCreator,
    j.m_pwszComment]

def taskReserved1 (j : CJob) : List UInt8 := dword j.m_hrStartError ++ dword j.m_rgTaskFlags

theorem length_taskReserved1 (j : CJob) : j.taskReserved1.length = 8 := by
  simp [taskReserved1, dword]

/-- The reserved data, with what is kept of it in members copied over its start. -/
def reservedBytes (j : CJob) : List UInt8 :=
  match j.m_pbReserved with
  | none => j.taskReserved1
  | some bs => j.taskReserved1 ++ bs.1.drop 8

/-- The copy stays in the job. -/
def copyReserved (j : CJob) : CJob :=
  { j with m_pbReserved := j.m_pbReserved.map fun bs =>
      ⟨j.taskReserved1 ++ bs.1.drop 8, by
        have hbs := bs.2
        rw [List.length_append, List.length_drop, length_taskReserved1]
        omega⟩ }

def countedBytes (bs : List UInt8) : List UInt8 := word (UInt16.ofNat bs.length) ++ bs

/-- What comes between the running instance count and the triggers. -/
def propertyBytes (j : CJob) : List UInt8 :=
  j.stringFields.flatMap stringBytes ++ countedBytes j.m_pbTaskData.1 ++
    countedBytes j.reservedBytes

def triggerBytes (j : CJob) : List UInt8 :=
  word (UInt16.ofNat j.m_Triggers.1.length) ++ j.m_Triggers.1.flatMap TASK_TRIGGER.bytes

def signatureBytes (j : CJob) : List UInt8 :=
  match j.m_pbSignature with
  | none => []
  | some bs => word JOB_SIGNATURE_VERSION ++ word JOB_SIGNATURE_MIN_CLIENT_VERSION ++ bs.1

/-- Where the triggers come in the file. -/
def triggerOffset (j : CJob) : ℕ := 68 + 2 + j.propertyBytes.length

/-- The job after a save, and the file. `old` is what is in the file before. There is no result
where a new file would be without a part of the data. -/
def saveP (env : SaveEnv) (opts : SaveOptions) (j : CJob) (old : List UInt8) :
    Option (CJob × List UInt8) :=
  let j := j.prepare env opts
  let counted := opts.runningInstanceCount || env.creates
  if opts.variableLengthData then
    let j := { j with m_wTriggerOffset := UInt16.ofNat j.triggerOffset }
    let fixed := (j.flData j.m_wTriggerOffset).bytes
    let count := if counted then word j.m_cRunningInstances
      else (old.drop 68 ++ [0, 0]).take 2
    some (j.copyReserved,
      fixed ++ (count ++ (j.propertyBytes ++ (j.triggerBytes ++ j.signatureBytes))))
  else if env.creates then none
  else
    let fixed := (j.flData j.m_wTriggerOffset).bytes ++
      if counted then word j.m_cRunningInstances else []
    some (j, fixed ++ old.drop fixed.length)

end CJob

/-! ### Loading -/

inductive LoadError
  | ERROR_INVALID_DATA
  | SCHED_E_UNKNOWN_OBJECT_VERSION
  | E_FAIL
  deriving DecidableEq

open ImageReader LoadError

abbrev Loader := ImageReader LoadError

def readWord : Loader UInt16 := do
  let bs ← readOr ERROR_INVALID_DATA 2
  pure (wordOf bs)

/-- The characters of two bytes each. -/
def charsOf : List UInt8 → List UInt16
  | b :: b' :: bs => wordOf [b, b'] :: charsOf bs
  | _ => []

/-- The string up to its first zero. -/
def wideStringOf (cs : List UInt16) : WideString :=
  ⟨cs.takeWhile fun c => decide (c ≠ 0), fun c hc =>
    of_decide_eq_true (List.all_eq_true.mp List.all_takeWhile c hc)⟩

def readString : Loader (Option WideString) := do
  let cch ← readWord
  if cch = 0 then pure none
  else do
    let pwsz ← position
    if ← advance (2 * cch.toNat) then
      let last ← copyFrom (pwsz + 2 * (cch.toNat - 1)) 2
      if wordOf last ≠ 0 then reject ERROR_INVALID_DATA
      else do
        let bs ← copyFrom pwsz (2 * cch.toNat)
        pure (some (wideStringOf (charsOf bs)))
    else reject ERROR_INVALID_DATA

/-- What `readOr` and `advanceOr` return has its length. -/
def boundedOf (bs : List UInt8) : { bs : List UInt8 // bs.length < 2 ^ 16 } :=
  ⟨bs.take (2 ^ 16 - 1), by
    rw [List.length_take]
    omega⟩

def readTaskData : Loader { bs : List UInt8 // bs.length < 2 ^ 16 } := do
  let cbTaskData ← readWord
  if cbTaskData = 0 then pure ⟨[], by decide⟩
  else do
    let bs ← advanceOr ERROR_INVALID_DATA cbTaskData.toNat
    pure (boundedOf bs)

structure ReservedData where
  m_pbReserved : Option { bs : List UInt8 // 8 ≤ bs.length ∧ bs.length < 2 ^ 16 }
  m_hrStartError : UInt32
  m_rgTaskFlags : UInt32

def readReserved : Loader ReservedData := do
  let cReserved ← readWord
  if cReserved = 0 then
    pure { m_pbReserved := none
           m_hrStartError := SCHED_S_TASK_HAS_NOT_RUN
           m_rgTaskFlags := 0 }
  else if cReserved.toNat < 8 then reject ERROR_INVALID_DATA
  else do
    let q ← position
    let bs ← advanceOr ERROR_INVALID_DATA cReserved.toNat
    let reserved ← copyFrom q 8
    pure
      { m_pbReserved :=
          if h : 8 ≤ bs.length ∧ bs.length < 2 ^ 16 then some ⟨bs, h⟩ else none
        m_hrStartError := dwordOf (reserved.take 4)
        m_rgTaskFlags := dwordOf (reserved.drop 4) }

/-- `n` triggers in a row, each with its index. -/
def triggersOf (bs : List UInt8) : ℕ → ℕ → List TASK_TRIGGER
  | 0, _ => []
  | n + 1, i =>
    { TASK_TRIGGER.ofBytes (bs.take 48) with reserved1 := UInt16.ofNat i } ::
      triggersOf (bs.drop 48) n (i + 1)

theorem length_triggersOf (bs : List UInt8) (n i : ℕ) : (triggersOf bs n i).length = n := by
  induction n generalizing bs i with
  | zero => rfl
  | succ n ih => rw [triggersOf, List.length_cons, ih]

/-- `_LoadTriggersFromBuffer`. -/
def loadTriggersFromBuffer : Loader { ts : List TASK_TRIGGER // ts.length < 2 ^ 16 } := do
  let cTriggers ← readWord
  let bs ← advanceOr ERROR_INVALID_DATA (cTriggers.toNat * 48)
  pure ⟨triggersOf bs cTriggers.toNat 0, by
    rw [length_triggersOf]
    exact cTriggers.toNat_lt⟩

/-- A signature that is not there as a whole, or is for later clients, is none. -/
def readSignature : Loader (Option (ByteBlock 64)) := do
  match ← read 4 with
  | none => pure none
  | some signHead =>
    if wordOf (signHead.drop 2) ≤ JOB_SIGNATURE_CLIENT_VERSION then do
      let q ← position
      if ← advance 64 then
        let bs ← copyFrom q 64
        pure (some (blockOf 64 bs))
      else pure none
    else pure none

/-- The job that is loaded without the data of variable length. -/
def CJob.ofFixed (flData : FIXDLEN_DATA) (cRunningInstances : UInt16)
    (pwszApplicationName : Option WideString) (old : CJob) : CJob :=
  { m_wVersion := flData.wVersion
    m_uuidJob := flData.uuidJob
    m_wTriggerOffset := flData.wTriggerOffset
    m_wErrorRetryCount := flData.wErrorRetryCount
    m_wErrorRetryInterval := flData.wErrorRetryInterval
    m_cRunningInstances := cRunningInstances
    m_wIdleWait := flData.wIdleWait
    m_wIdleDeadline := flData.wIdleDeadline
    m_dwPriority := flData.dwPriority
    m_dwMaxRunTime := flData.dwMaxRunTime
    m_ExitCode := flData.exitCode
    m_hrStatus := flData.hrStatus
    m_rgFlags := flData.rgFlags
    m_rgTaskFlags := old.m_rgTaskFlags
    m_stMostRecentRunTime := flData.stMostRecentRunTime
    m_pwszApplicationName := pwszApplicationName
    m_pwszParameters := none
    m_pwszWorkingDirectory := none
    m_pwszCreator := none
    m_pwszComment := none
    m_pbTaskData := ⟨[], by decide⟩
    m_pbReserved := none
    m_hrStartError := old.m_hrStartError
    m_Triggers := old.m_Triggers
    m_pbSignature := none }

/-- The flag tells whether there are triggers. -/
def CJob.setTriggers (j : CJob) (ts : { ts : List TASK_TRIGGER // ts.length < 2 ^ 16 }) : CJob :=
  if ts.1 = [] then { j with m_Triggers := ts }.clearFlag JOB_I_FLAG_HAS_TRIGGERS
  else { j with m_Triggers := ts }.setFlag JOB_I_FLAG_HAS_TRIGGERS

/-- Everything before the signature. -/
def loadProperties (old : CJob) (fAllData : Bool) : Loader CJob := do
  let head ← readOr ERROR_INVALID_DATA 68
  let flData := FIXDLEN_DATA.ofBytes head
  if flData.wFileObjVer ≠ JOB_OBJ_FORMAT_VERSION then reject SCHED_E_UNKNOWN_OBJECT_VERSION
  else do
    let cRunningInstances ← readWord
    let pwszApplicationName ← readString
    let j := CJob.ofFixed flData cRunningInstances pwszApplicationName old
    if fAllData then do
      let pwszParameters ← readString
      let pwszWorkingDirectory ← readString
      let pwszCreator ← readString
      let pwszComment ← readString
      let pbTaskData ← readTaskData
      let reserved ← readReserved
      let triggers ← loadTriggersFromBuffer
      pure ({ j with
        m_pwszParameters := pwszParameters
        m_pwszWorkingDirectory := pwszWorkingDirectory
        m_pwszCreator := pwszCreator
        m_pwszComment := pwszComment
        m_pbTaskData := pbTaskData
        m_pbReserved := reserved.m_pbReserved
        m_hrStartError := reserved.m_hrStartError
        m_rgTaskFlags := reserved.m_rgTaskFlags }.setTriggers triggers)
    else pure j

def loadAll (old : CJob) (fAllData : Bool) : Loader CJob := do
  let j ← loadProperties old fAllData
  if fAllData then do
    let pbSignature ← readSignature
    pure { j with m_pbSignature := pbSignature }
  else pure j

/-- `old` is the job object that is loaded into. -/
def loadP (old : CJob) (fAllData : Bool) (image : List UInt8) : Access LoadError CJob :=
  match loadAll old fAllData image 0 with
  | .ok r => .ok r.1
  | .fail e => .fail e
  | .outside => .outside

/-- `_LoadTriggers`, from the file itself. -/
def loadTriggersFromFile : Loader { ts : List TASK_TRIGGER // ts.length < 2 ^ 16 } := do
  let cTriggers ← readWord
  if cTriggers = 0 then pure ⟨[], by decide⟩
  else do
    let bs ← readOr ERROR_INVALID_DATA (cTriggers.toNat * 48)
    pure ⟨triggersOf bs cTriggers.toNat 0, by
      rw [length_triggersOf]
      exact cTriggers.toNat_lt⟩

/-- `LoadTriggers` reads the triggers at the offset that the job has for them. -/
def loadTriggers (j : CJob) (image : List UInt8) : Access LoadError CJob :=
  if j.m_wTriggerOffset = 0 then .fail E_FAIL
  else
    match loadTriggersFromFile image j.m_wTriggerOffset.toNat with
    | .ok r => .ok (j.setTriggers r.1)
    | .fail e => .fail e
    | .outside => .outside

end NtAdmin.Sched.Job
