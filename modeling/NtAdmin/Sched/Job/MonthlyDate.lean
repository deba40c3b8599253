import Mathlib.Algebra.GroupWithZero.Nat
import NtAdmin.Sched.Common.Time

/-! Monthly triggers by date: the check of their masks and the search for the first run. -/
namespace NtAdmin.Sched.Job
open Common

def TASK_FEBRUARY : BitVec 16 := 0x2
def TASK_APRIL : BitVec 16 := 0x8
def TASK_JUNE : BitVec 16 := 0x20
def TASK_SEPTEMBER : BitVec 16 := 0x100
def TASK_NOVEMBER : BitVec 16 := 0x400

/-- The months without a 31st. -/
def shortMonths : BitVec 16 :=
  TASK_FEBRUARY ||| TASK_APRIL ||| TASK_JUNE ||| TASK_SEPTEMBER ||| TASK_NOVEMBER

def isValidMonthlyDateTrigger (rgfDays : BitVec 32) (rgfMonths : BitVec 16) : Bool :=
  if rgfDays.toNat > 0x7fffffff ∨ rgfMonths = 0 ∨ rgfMonths.toNat > 0xfff then false
  else if rgfDays = 0 then false
  else if rgfDays &&& 0x40000000 ≠ 0 ∧ rgfMonths &&& shortMonths ≠ 0 ∧
      rgfMonths &&& ~~~shortMonths = 0 then false
  else if rgfDays &&& 0x20000000 ≠ 0 ∧ rgfMonths &&& TASK_FEBRUARY ≠ 0 ∧
      rgfMonths &&& ~~~TASK_FEBRUARY = 0 then false
  else true

/-! ### The first run -/

/-- The variables of the search. `wCurYear` is a `WORD`, the others stay small. -/
structure DateSearch where
  wCurDay : ℕ
  wCurMonth : ℕ
  wCurYear : ℕ
  wLastDOM : ℕ
  fWrapped : Bool

def nextYear (wCurYear : ℕ) : ℕ := (wCurYear + 1) % 2 ^ 16

/-- The next run day, in `count` steps. -/
def findRunDay (rgfDaysOfMonth : ℕ → Bool) (wLastDOM : ℕ) : ℕ → ℕ → Bool → ℕ × Bool
  | 0, wCurDay, fWrapped => (wCurDay, fWrapped)
  | count + 1, wCurDay, fWrapped =>
    let wrap := wLastDOM < wCurDay
    let wCurDay := if wrap then 1 else wCurDay
    let fWrapped := if wrap then true else fWrapped
    if rgfDaysOfMonth (wCurDay - 1) then (wCurDay, fWrapped)
    else findRunDay rgfDaysOfMonth wLastDOM count (wCurDay + 1) fWrapped

/-- The next run month, in `count` steps, with its year. `atFirst` tells that this is the first
step. -/
def findRunMonth (rgfMonths : ℕ → Bool) : ℕ → Bool → ℕ → ℕ → Bool → ℕ × ℕ × Bool
  | 0, _, wCurMonth, wCurYear, fWrapped => (wCurMonth, wCurYear, fWrapped)
  | count + 1, atFirst, wCurMonth, wCurYear, fWrapped =>
    let wrap := 12 < wCurMonth
    let wCurMonth := if wrap then 1 else wCurMonth
    let wCurYear := if wrap then nextYear wCurYear else wCurYear
    if rgfMonths (wCurMonth - 1) then
      if fWrapped ∧ atFirst then findRunMonth rgfMonths count false (wCurMonth + 1) wCurYear false
      else (wCurMonth, wCurYear, fWrapped)
    else findRunMonth rgfMonths count false (wCurMonth + 1) wCurYear fWrapped

/-- One round of the search: the state, and whether the day overflows the month. -/
def searchRound (rgfDaysOfMonth rgfMonths : ℕ → Bool) (s : DateSearch) : DateSearch × Bool :=
  let wLastDOM := (monthDays s.wCurMonth s.wCurYear).getD s.wLastDOM
  let (wCurDay, fWrapped) := findRunDay rgfDaysOfMonth wLastDOM wLastDOM s.wCurDay s.fWrapped
  let (wCurMonth, wCurYear, fWrapped) :=
    findRunMonth rgfMonths 12 true s.wCurMonth s.wCurYear fWrapped
  let wLastDOM := (monthDays wCurMonth wCurYear).getD wLastDOM
  if wLastDOM < wCurDay then
    let wrap := 12 < wCurMonth + 1
    ({ wCurDay := 1
       wCurMonth := if wrap then 1 else wCurMonth + 1
       wCurYear := if wrap then nextYear wCurYear else wCurYear
       wLastDOM := wLastDOM
       fWrapped := fWrapped }, true)
  else
    ({ wCurDay := wCurDay
       wCurMonth := wCurMonth
       wCurYear := wCurYear
       wLastDOM := wLastDOM
       fWrapped := fWrapped }, false)

/-- The search. There is no result if it does not end within `fuel` rounds. -/
def dateSearch (rgfDaysOfMonth rgfMonths : ℕ → Bool) : ℕ → DateSearch → Option DateSearch
  | 0, _ => none
  | fuel + 1, s =>
    let (s, fDayOverflow) := searchRound rgfDaysOfMonth rgfMonths s
    if fDayOverflow then dateSearch rgfDaysOfMonth rgfMonths fuel s else some s

/-- The date that the search starts with. `garbage` is what is in `wLastDOM` before. -/
def firstSearch (wBeginMonth wBeginDay wBeginYear garbage : ℕ) : DateSearch :=
  { wCurDay := wBeginDay
    wCurMonth := wBeginMonth
    wCurYear := wBeginYear
    wLastDOM := garbage
    fWrapped := false }

end NtAdmin.Sched.Job
