import Mathlib.Data.BitVec
import Mathlib.Data.List.DropRight
import NtAdmin.Sched.Common.SystemTime

/-! The jobs that the AT service creates. -/
namespace NtAdmin.Sched.Schedule
open Common

def JOB_RUN_PERIODICALLY : BitVec 8 := 0x01
def JOB_EXEC_ERROR : BitVec 8 := 0x02
def JOB_RUNS_TODAY : BitVec 8 := 0x04
def JOB_ADD_CURRENT_DATE : BitVec 8 := 0x08
def JOB_NONINTERACTIVE : BitVec 8 := 0x10
def JOB_INPUT_FLAGS : BitVec 8 :=
  JOB_RUN_PERIODICALLY ||| JOB_ADD_CURRENT_DATE ||| JOB_NONINTERACTIVE

def MAXIMUM_COMMAND_LENGTH : ℕ := 259
def MAXIMUM_JOB_TIME : ℕ := 24 * 60 * 60 * 1000 - 1
def DAYS_OF_WEEK : BitVec 8 := 0x7F
def DAYS_OF_MONTH : BitVec 32 := 0x7FFFFFFF

def TASK_FLAG_INTERACTIVE : BitVec 32 := 0x1
def TASK_FLAG_DELETE_WHEN_DONE : BitVec 32 := 0x2
def TASK_FLAG_DISABLED : BitVec 32 := 0x4
def JOB_I_FLAG_LAST_LAUNCH_FAILED : BitVec 32 := 0x00080000
def JOB_I_FLAG_ERROR_IN_LAST_RUN : BitVec 32 := 0x00100000
def JOB_I_FLAG_NET_SCHEDULE : BitVec 32 := 0x00200000
def JOB_I_FLAG_HAS_APPNAME : BitVec 32 := 0x01000000
def JOB_I_FLAG_RUN_PROP_CHANGE : BitVec 32 := 0x10000000
def JOB_I_FLAG_NO_RUN_PROP_CHANGE : BitVec 32 := 0x20000000
def JOB_I_FLAG_PROPERTIES_DIRTY : BitVec 32 := 0x40000000
def JOB_I_FLAG_TRIGGERS_DIRTY : BitVec 32 := 0x80000000
def TASK_TRIGGER_FLAG_HAS_END_DATE : BitVec 32 := 0x1
def JOB_RGFMONTHS_MAX : BitVec 16 := 0x0fff

/-- The characters of a string are those before its terminating zero. -/
structure AT_INFO where
  JobTime : ℕ
  DaysOfMonth : BitVec 32
  DaysOfWeek : BitVec 8
  Flags : BitVec 8
  Command : List UInt16

/-- What `NetrJobAdd` lets through. -/
structure NetrJobAdd (At : AT_INFO) : Prop where
  command : At.Command.length ≤ MAXIMUM_COMMAND_LENGTH
  jobTime : At.JobTime ≤ MAXIMUM_JOB_TIME
  daysOfWeek : At.DaysOfWeek &&& ~~~DAYS_OF_WEEK = 0
  daysOfMonth : At.DaysOfMonth &&& ~~~DAYS_OF_MONTH = 0
  flags : At.Flags &&& ~~~JOB_INPUT_FLAGS = 0

inductive TriggerType
  | once
  | weekly (WeeksInterval : ℕ) (rgfDaysOfTheWeek : BitVec 16)
  | monthlyDate (rgfDays : BitVec 32) (rgfMonths : BitVec 16)
  deriving DecidableEq

structure TASK_TRIGGER where
  wBeginYear : ℕ
  wBeginMonth : ℕ
  wBeginDay : ℕ
  wEndYear : ℕ
  wEndMonth : ℕ
  wEndDay : ℕ
  wStartHour : ℕ
  wStartMinute : ℕ
  rgFlags : BitVec 32
  triggerType : TriggerType
  deriving DecidableEq

/-- A string that is not there is empty. -/
structure AtJob where
  m_pwszApplicationName : List UInt16
  m_pwszParameters : List UInt16
  m_rgFlags : BitVec 32
  m_Triggers : List TASK_TRIGGER
  deriving DecidableEq

/-! ### The command -/

def quote : UInt16 := 0x22

def blank : UInt16 := 0x20

def isSpace (c : UInt16) : Bool := decide (c = blank ∨ c = 9)

/-- The parameters behind the character at which the application name ends. -/
def skipSpace : List UInt16 → List UInt16
  | [] => []
  | _ :: pwszParams => pwszParams.dropWhile isSpace

/-- The application name and the parameters. The scan for the closing quote starts at the second
character behind the opening one. Of a lone quote that is behind the end of the string, where it
makes parameters of what it finds, `garbage`. -/
def splitCommand (garbage : List UInt16) (wszCommand : List UInt16) : List UInt16 × List UInt16 :=
  match wszCommand with
  | [] => ([], [])
  | c :: cs =>
    if c = quote then
      match cs with
      | [] => ([], garbage)
      | c' :: cs' => (c' :: cs'.takeWhile (· != quote), skipSpace (cs'.dropWhile (· != quote)))
    else ((c :: cs).takeWhile (!isSpace ·), skipSpace ((c :: cs).dropWhile (!isSpace ·)))

def stripLeadTrailSpace (s : List UInt16) : List UInt16 := (s.dropWhile isSpace).rdropWhile isSpace

def deleteQuotes (s : List UInt16) : List UInt16 := s.filter (· != quote)

/-- The job has no file name yet. -/
def setApplicationName (pwszApplicationName : List UInt16) (job : AtJob) : Option AtJob :=
  if 260 < pwszApplicationName.length then none
  else if pwszApplicationName = [] then
    some { job with
      m_pwszApplicationName := []
      m_rgFlags := job.m_rgFlags &&& ~~~JOB_I_FLAG_HAS_APPNAME ||| JOB_I_FLAG_PROPERTIES_DIRTY }
  else
    some { job with
      m_pwszApplicationName := deleteQuotes (stripLeadTrailSpace (pwszApplicationName.take 259))
      m_rgFlags := job.m_rgFlags ||| JOB_I_FLAG_HAS_APPNAME ||| JOB_I_FLAG_PROPERTIES_DIRTY }

/-! ### The days of the month -/

def isMonthBitSet (dwDaysOfMonth : BitVec 32) (wDay : ℕ) : Bool :=
  dwDaysOfMonth.getLsbD (wDay - 1)

/-- The first of the days from `wDay` on, or the one behind the last. -/
def nextDay (dwDaysOfMonth : BitVec 32) (wMonthDays : ℕ) : ℕ → ℕ → ℕ
  | 0, wDay => wDay
  | n + 1, wDay =>
    if !isMonthBitSet dwDaysOfMonth wDay && decide (wDay ≤ wMonthDays) then
      nextDay dwDaysOfMonth wMonthDays n (wDay + 1)
    else wDay

/-- The start of the first trigger and how many days its month has. -/
def findStart (dwDaysOfMonth : BitVec 32) : ℕ → SYSTEMTIME → ℕ → Option (SYSTEMTIME × ℕ)
  | 0, _, _ => none
  | n + 1, pstStart1, wStart1MonthDays =>
    let wDay := nextDay dwDaysOfMonth wStart1MonthDays 32 pstStart1.wDay
    if wStart1MonthDays < wDay then
      let pstStart1 := incrementMonth { pstStart1 with wDay := 1 }
      findStart dwDaysOfMonth n pstStart1
        ((monthDays pstStart1.wMonth pstStart1.wYear).getD wStart1MonthDays)
    else some ({ pstStart1 with wDay := wDay }, wStart1MonthDays)

/-- The last of the `n` days from `wFirst` on that is set, or `wDay`. -/
def lastDay (dwDaysOfMonth : BitVec 32) : ℕ → ℕ → ℕ → ℕ
  | 0, _, wDay => wDay
  | n + 1, wFirst, wDay =>
    lastDay dwDaysOfMonth n (wFirst + 1)
      (if isMonthBitSet dwDaysOfMonth wFirst then wFirst else wDay)

/-- The first and the last of the `n` days from `wFirst` on, after those that were found before. -/
def firstAndLast (dwDaysOfMonth : BitVec 32) : ℕ → ℕ → ℕ × ℕ → ℕ × ℕ
  | 0, _, days => days
  | n + 1, wFirst, days =>
    firstAndLast dwDaysOfMonth n (wFirst + 1)
      (if isMonthBitSet dwDaysOfMonth wFirst then
        if days.1 = 0 then (wFirst, days.2) else (days.1, wFirst)
      else days)

/-- The days are zero where none is set. -/
def setDomTrigger2Days (dwDaysOfMonth : BitVec 32) (wFirstDayToCheck wLastDayToCheck : ℕ) :
    ℕ × ℕ :=
  let days := firstAndLast dwDaysOfMonth (wLastDayToCheck + 1 - wFirstDayToCheck) wFirstDayToCheck
    (0, 0)
  if days.1 ≠ 0 ∧ days.2 = 0 then (days.1, days.1) else days

structure DomDates where
  stStart1 : SYSTEMTIME
  stEnd1 : SYSTEMTIME
  stStart2 : SYSTEMTIME
  stEnd2 : SYSTEMTIME

/-- The last day before the start day in the next month or, if there is none, the last in the month of
the start. -/
def firstEnd (dwDaysOfMonth : BitVec 32) (stStart1 : SYSTEMTIME) (wStart1MonthDays : ℕ) :
    SYSTEMTIME :=
  let wEnd1Month := if 12 < stStart1.wMonth + 1 then 1 else stStart1.wMonth + 1
  let wEnd1MonthDays := (monthDays wEnd1Month stStart1.wYear).getD 0
  let wMaxDay := min (stStart1.wDay - 1) wEnd1MonthDays
  let wDay := lastDay dwDaysOfMonth wMaxDay 1 stStart1.wDay
  if wDay < stStart1.wDay then incrementMonth { stStart1 with wDay := wDay }
  else
    { stStart1 with
      wDay := lastDay dwDaysOfMonth (wStart1MonthDays - stStart1.wDay) (stStart1.wDay + 1) wDay }

/-- `wDay` is 0 where there is no second trigger. -/
def secondDates (dwDaysOfMonth : BitVec 32) (stStart1 stEnd1 : SYSTEMTIME) (wStart1MonthDays : ℕ) :
    SYSTEMTIME × SYSTEMTIME :=
  if stEnd1.wMonth = 2 ∧ 29 < stStart1.wDay ∧ stEnd1.wDay < stStart1.wDay - 1 then
    let days := setDomTrigger2Days dwDaysOfMonth (stEnd1.wDay + 1) (stStart1.wDay - 1)
    ({ stEnd1 with wMonth := 3, wDay := days.1 }, { stEnd1 with wMonth := 3, wDay := days.2 })
  else if wStart1MonthDays < 31 then
    let wMonth := if stEnd1.wMonth = stStart1.wMonth then stEnd1.wMonth + 1 else stEnd1.wMonth
    let days := setDomTrigger2Days dwDaysOfMonth (wStart1MonthDays + 1) 31
    ({ stEnd1 with wMonth := wMonth, wDay := days.1 },
      { stEnd1 with wMonth := wMonth, wDay := days.2 })
  else ({ stEnd1 with wDay := 0 }, { stEnd1 with wDay := 0 })

/-- No three months in a row are without one of the days. -/
def calcDomTriggerDates (dwDaysOfMonth : BitVec 32) (stNow stStart : SYSTEMTIME) :
    Option DomDates := do
  let st := if isFirstTimeEarlier stStart stNow then incrementDay stNow else stNow
  let wMonthDays ← monthDays st.wMonth st.wYear
  let (stStart1, wStart1MonthDays) ← findStart dwDaysOfMonth 3 st wMonthDays
  let stEnd1 := firstEnd dwDaysOfMonth stStart1 wStart1MonthDays
  let (stStart2, stEnd2) := secondDates dwDaysOfMonth stStart1 stEnd1 wStart1MonthDays
  pure ⟨stStart1, stEnd1, stStart2, stEnd2⟩

/-- The first and the last day of a job that runs on days of the week. -/
def calcDowTriggerDate (stNow stStart : SYSTEMTIME) : SYSTEMTIME × SYSTEMTIME :=
  let pstStart := if isFirstTimeEarlier stStart stNow then incrementDay stNow else stNow
  let pstEnd := { pstStart with wDay := pstStart.wDay + 6 }
  match monthDays pstEnd.wMonth pstEnd.wYear with
  | none => (pstStart, pstEnd)
  | some wLastDay =>
    if wLastDay < pstEnd.wDay then
      (pstStart, incrementMonth { pstEnd with wDay := pstEnd.wDay - wLastDay })
    else (pstStart, pstEnd)

/-! ### The job -/

def TASK_TRIGGER.setDates (t : TASK_TRIGGER) (stStart stEnd : SYSTEMTIME) : TASK_TRIGGER :=
  { t with
    wBeginYear := stStart.wYear
    wBeginMonth := stStart.wMonth
    wBeginDay := stStart.wDay
    wEndYear := stEnd.wYear
    wEndMonth := stEnd.wMonth
    wEndDay := stEnd.wDay }

/-- Sunday is bit 0 of a trigger's days of the week and bit 6 of a job's. -/
def triggerDow (DaysOfWeek : BitVec 8) : BitVec 16 :=
  let rgf := DaysOfWeek.setWidth 16 <<< 1
  if rgf &&& 0x0080 ≠ 0 then rgf &&& ~~~0x0080 ||| 1 else rgf

/-- The days of the month, with today where it is to be added. -/
def daysOfMonth (At : AT_INFO) (stNow : SYSTEMTIME) : BitVec 32 :=
  if At.Flags &&& JOB_ADD_CURRENT_DATE ≠ 0 then At.DaysOfMonth ||| (1#32 <<< (stNow.wDay - 1))
  else At.DaysOfMonth

/-- The time of the job today, or tomorrow if it runs once and it is too late today. -/
def startTime (At : AT_INFO) (stNow : SYSTEMTIME) : SYSTEMTIME :=
  let dwMins := At.JobTime / 60000
  let stStart := { stNow with
    wHour := dwMins / 60, wMinute := dwMins % 60, wSecond := 0, wMilliseconds := 0 }
  if At.Flags &&& JOB_ADD_CURRENT_DATE = 0 ∧ At.DaysOfMonth = 0 ∧ At.DaysOfWeek = 0 ∧
    isFirstTimeEarlier stNow stStart = false then incrementDay stStart
  else stStart

/-- The trigger before its type and its dates are set. -/
def newTrigger (At : AT_INFO) (stStart : SYSTEMTIME) : TASK_TRIGGER :=
  { wBeginYear := stStart.wYear
    wBeginMonth := stStart.wMonth
    wBeginDay := stStart.wDay
    wEndYear := 0
    wEndMonth := 0
    wEndDay := 0
    wStartHour := stStart.wHour
    wStartMinute := stStart.wMinute
    rgFlags := if At.Flags &&& JOB_RUN_PERIODICALLY ≠ 0 then 0 else TASK_TRIGGER_FLAG_HAS_END_DATE
    triggerType := .once }

def domTriggers (At : AT_INFO) (stNow : SYSTEMTIME) : Option (List TASK_TRIGGER) :=
  let DaysOfMonth := daysOfMonth At stNow
  let stStart := startTime At stNow
  let t := { newTrigger At stStart with triggerType := .monthlyDate DaysOfMonth JOB_RGFMONTHS_MAX }
  if DaysOfMonth = 0 then some []
  else if At.Flags &&& JOB_RUN_PERIODICALLY ≠ 0 then some [t]
  else do
    let dates ← calcDomTriggerDates DaysOfMonth stNow stStart
    if dates.stStart2.wDay ≠ 0 then
      pure [t.setDates dates.stStart1 dates.stEnd1, t.setDates dates.stStart2 dates.stEnd2]
    else pure [t.setDates dates.stStart1 dates.stEnd1]

def dowTriggers (At : AT_INFO) (stNow : SYSTEMTIME) : List TASK_TRIGGER :=
  let stStart := startTime At stNow
  let t := { newTrigger At stStart with triggerType := .weekly 1 (triggerDow At.DaysOfWeek) }
  if At.DaysOfWeek = 0 then []
  else if At.Flags &&& JOB_RUN_PERIODICALLY ≠ 0 then [t]
  else
    let dates := calcDowTriggerDate stNow stStart
    [t.setDates dates.1 dates.2]

/-- The end date flag is cleared by the name of another flag of the same value. -/
def onceTriggers (At : AT_INFO) (stNow : SYSTEMTIME) : List TASK_TRIGGER :=
  let t := newTrigger At (startTime At stNow)
  if daysOfMonth At stNow = 0 ∧ At.DaysOfWeek = 0 then
    [{ t with rgFlags := t.rgFlags &&& ~~~JOB_RUN_PERIODICALLY.setWidth 32 }]
  else []

/-- What a new job starts from. -/
def AtJob.create : AtJob :=
  { m_pwszApplicationName := []
    m_pwszParameters := []
    m_rgFlags := JOB_I_FLAG_NO_RUN_PROP_CHANGE
    m_Triggers := [] }

/-- The job as it is saved. -/
def addAtJobCommon (garbage : List UInt16) (At : AT_INFO) (stNow : SYSTEMTIME) : Option AtJob := do
  let (pwszApp, pwszParams) := splitCommand garbage (At.Command.take 259)
  let job ← setApplicationName pwszApp AtJob.create
  let interactive := if At.Flags &&& JOB_NONINTERACTIVE = 0 then TASK_FLAG_INTERACTIVE else 0
  let rgFlags := job.m_rgFlags ||| JOB_I_FLAG_NET_SCHEDULE ||| TASK_FLAG_DELETE_WHEN_DONE |||
    interactive ||| JOB_I_FLAG_PROPERTIES_DIRTY ||| JOB_I_FLAG_TRIGGERS_DIRTY |||
    JOB_I_FLAG_RUN_PROP_CHANGE
  let doms ← domTriggers At stNow
  pure { job with
    m_pwszParameters := pwszParams
    m_rgFlags := rgFlags &&& ~~~JOB_I_FLAG_NO_RUN_PROP_CHANGE
    m_Triggers := onceTriggers At stNow ++ doms ++ dowTriggers At stNow }

end NtAdmin.Sched.Schedule
