import NtAdmin.Sched.Schedule.AtJob

/-! What an AT job is read back as. -/
namespace NtAdmin.Sched.Schedule
open Common

inductive AtError
  | ERROR_FILE_NOT_FOUND
  | ERROR_INSUFFICIENT_BUFFER (cch : ℕ)
  | E_FAIL
  deriving DecidableEq

/-- The command and the application name and parameters in it. -/
def commandOf (job : AtJob) : List UInt16 :=
  let app := if blank ∈ job.m_pwszApplicationName then
      [quote] ++ job.m_pwszApplicationName ++ [quote]
    else job.m_pwszApplicationName
  if job.m_pwszParameters = [] then app else app ++ [blank] ++ job.m_pwszParameters

/-- Two characters more than the application name with its quotes and the parameters have. -/
def cchOf (job : AtJob) : ℕ :=
  job.m_pwszApplicationName.length + (if blank ∈ job.m_pwszApplicationName then 2 else 0) +
    job.m_pwszParameters.length + 1 + 1

/-! ### Runs -/

def TASK_TRIGGER.begin (t : TASK_TRIGGER) : SYSTEMTIME :=
  { wYear := t.wBeginYear
    wMonth := t.wBeginMonth
    wDay := t.wBeginDay
    wHour := t.wStartHour
    wMinute := t.wStartMinute
    wSecond := 0
    wMilliseconds := 0 }

/-- The last second of the trigger. -/
def TASK_TRIGGER.lastSecond (t : TASK_TRIGGER) : SYSTEMTIME :=
  if t.rgFlags &&& TASK_TRIGGER_FLAG_HAS_END_DATE ≠ 0 then
    ⟨t.wEndYear, t.wEndMonth, t.wEndDay, 23, 59, 59, 0⟩
  else ⟨2200, 12, 31, 23, 59, 59, 0⟩

/-- The runs of a trigger that runs once are counted from `count` to one at most. -/
def onceRunTimes (jt : TASK_TRIGGER) (pstBracketBegin pstBracketEnd : SYSTEMTIME) (count : ℕ) : ℕ :=
  if jt.rgFlags &&& TASK_TRIGGER_FLAG_HAS_END_DATE ≠ 0 ∧
    isFirstTimeEarlier jt.lastSecond pstBracketBegin = true then count
  else if isFirstTimeEarlier jt.begin pstBracketEnd = false then count
  else
    let bracketEnd :=
      if isFirstTimeEarlier jt.lastSecond pstBracketEnd then jt.lastSecond else pstBracketEnd
    if isFirstTimeEarlier jt.begin bracketEnd = true ∧
      isFirstTimeEarlier jt.begin pstBracketBegin = false ∧ count < 1 then count + 1
    else count

section runs

-- What the other triggers count.
variable (getTriggerRunTimes : TASK_TRIGGER → SYSTEMTIME → SYSTEMTIME → ℕ → ℕ)

def triggerRunTimes (jt : TASK_TRIGGER) (pstBegin pstEnd : SYSTEMTIME) (count : ℕ) : ℕ :=
  match jt.triggerType with
  | .once => onceRunTimes jt pstBegin pstEnd count
  | _ => getTriggerRunTimes jt pstBegin pstEnd count

/-- It is enough to know of one run. -/
def runTimesOf (pstBegin pstEnd : SYSTEMTIME) : List TASK_TRIGGER → ℕ → ℕ
  | [], count => count
  | jt :: jts, count =>
    let count := triggerRunTimes getTriggerRunTimes jt pstBegin pstEnd count
    if 1 ≤ count then count else runTimesOf pstBegin pstEnd jts count

def getRunTimesP (job : AtJob) (pstBegin pstEnd : SYSTEMTIME) (count : ℕ) : ℕ :=
  if job.m_rgFlags &&& TASK_FLAG_DISABLED ≠ 0 then count
  else runTimesOf getTriggerRunTimes pstBegin pstEnd job.m_Triggers count

/-! ### Reading -/

/-- Monday is bit 0 again. -/
def jobDow (rgfDaysOfTheWeek : BitVec 16) : BitVec 8 :=
  let DaysOfWeek := (rgfDaysOfTheWeek >>> 1).setWidth 8
  if rgfDaysOfTheWeek &&& 1 ≠ 0 then DaysOfWeek ||| 0x40 else DaysOfWeek

/-- What a trigger tells of the days of a job. -/
def readTrigger (pjt : TASK_TRIGGER) (pAt : AT_INFO) : AT_INFO :=
  match pjt.triggerType with
  | .weekly _ rgf => { pAt with DaysOfWeek := jobDow rgf }
  | .monthlyDate rgfDays _ => { pAt with DaysOfMonth := rgfDays }
  | .once => pAt

/-- The days of the one or two triggers that a job may have, and the last trigger. -/
def readTriggers (pAt : AT_INFO) : List TASK_TRIGGER → Option (AT_INFO × TASK_TRIGGER)
  | [pjt] => some (readTrigger pjt pAt, pjt)
  | [pjt, pjt'] =>
    if pjt'.triggerType = .once then none else some (readTrigger pjt' (readTrigger pjt pAt), pjt')
  | _ => none

/-- The first trigger has the time. -/
def jobTimeOf : List TASK_TRIGGER → ℕ
  | [] => 0
  | pjt :: _ => (pjt.wStartHour * 60 + pjt.wStartMinute) * 60000

def TASK_TRIGGER.endTime (t : TASK_TRIGGER) : SYSTEMTIME :=
  { wYear := t.wEndYear
    wMonth := t.wEndMonth
    wDay := t.wEndDay
    wHour := t.wStartHour
    wMinute := t.wStartMinute
    wSecond := 0
    wMilliseconds := 0 }

/-- `running` tells whether the status is `SCHED_S_TASK_RUNNING`. -/
def getAtInfo (job : AtJob) (cchCommand : ℕ) (stNow : SYSTEMTIME) (running : Bool) :
    Except AtError AT_INFO :=
  if job.m_rgFlags &&& JOB_I_FLAG_NET_SCHEDULE = 0 then .error .ERROR_FILE_NOT_FOUND
  else if cchCommand < cchOf job then .error (.ERROR_INSUFFICIENT_BUFFER (cchOf job))
  else
    let pAt : AT_INFO :=
      { JobTime := jobTimeOf job.m_Triggers
        DaysOfMonth := 0
        DaysOfWeek := 0
        Flags := 0
        Command := commandOf job }
    match readTriggers pAt job.m_Triggers with
    | none => .error .E_FAIL
    | some (pAt, pjt) =>
      let ended := pjt.rgFlags &&& TASK_TRIGGER_FLAG_HAS_END_DATE ≠ 0
      let failed := job.m_rgFlags &&& JOB_I_FLAG_LAST_LAUNCH_FAILED ≠ 0 ∨
        job.m_rgFlags &&& JOB_I_FLAG_ERROR_IN_LAST_RUN ≠ 0
      let stMidnight := incrementDay
        { stNow with wHour := 0, wMinute := 0, wSecond := 0, wMilliseconds := 0 }
      let cRuns := getRunTimesP getTriggerRunTimes job stNow stMidnight 0
      let flags :=
        (if job.m_rgFlags &&& TASK_FLAG_INTERACTIVE = 0 then JOB_NONINTERACTIVE else 0) |||
        (if ¬ended ∧ pjt.triggerType ≠ .once then JOB_RUN_PERIODICALLY else 0) |||
        (if 0 < cRuns then JOB_RUNS_TODAY else 0) |||
        (if failed then JOB_EXEC_ERROR else 0)
      let once := pjt.triggerType = .once ∧ ¬failed ∧
        getRunTimesP getTriggerRunTimes job stNow (incrementDay stNow) cRuns = 0
      if once ∧ running = false then .error .E_FAIL
      else if ended ∧ isFirstTimeEarlier pjt.endTime stNow = true ∧ ¬failed then .error .E_FAIL
      else .ok { pAt with Flags := if once then flags ||| JOB_RUNS_TODAY else flags }

end runs

end NtAdmin.Sched.Schedule
