import Mathlib.Data.Int.Notation
import Mathlib.Data.Nat.Notation

/-! The list of runs of runobj.cxx. -/
namespace NtAdmin.Sched.Common

inductive AddResult
  | S_OK
  | S_FALSE
  deriving DecidableEq

/-- Times are 64-bit numbers that are only compared. -/
structure CRun where
  m_ft : ℕ
  m_ftDeadline : ℕ
  m_ftKill : ℕ
  m_ptszJobName : Option String
  m_dwMaxRunTime : ℕ
  m_rgFlags : ℕ
  m_wIdleWait : ℕ
  deriving DecidableEq

namespace CRun

def reduceWaitTo (r : CRun) (wIdleWait : ℕ) : CRun :=
  { r with m_wIdleWait := min r.m_wIdleWait wIdleWait }

def advanceKillTime (r : CRun) (ftKill : ℕ) : CRun :=
  { r with m_ftKill := if ftKill < r.m_ftKill then ftKill else r.m_ftKill }

def relaxDeadline (r : CRun) (ftDeadline : ℕ) : CRun :=
  { r with m_ftDeadline := if r.m_ftDeadline < ftDeadline then ftDeadline else r.m_ftDeadline }

end CRun

/-- The arguments of `AddSorted` that are about the run. -/
structure RunCall where
  ftRun : ℕ
  ftDeadline : ℕ
  ftKillTime : ℕ
  dwJobFlags : ℕ
  dwMaxRunTime : ℕ
  wIdleWait : ℕ
  deriving DecidableEq

def RunCall.newRun (c : RunCall) (ptszJobName : Option String) : CRun :=
  { m_ft := c.ftRun
    m_ftDeadline := c.ftDeadline
    m_ftKill := c.ftKillTime
    m_ptszJobName := ptszJobName
    m_dwMaxRunTime := c.dwMaxRunTime
    m_rgFlags := c.dwJobFlags
    m_wIdleWait := c.wIdleWait }

/-- The run that is already there takes over what is less restrictive. -/
def RunCall.mergeInto (c : RunCall) (r : CRun) : CRun :=
  ((r.reduceWaitTo c.wIdleWait).advanceKillTime c.ftKillTime).relaxDeadline c.ftDeadline

variable (lstrcmpi : String → String → ℤ)

def sameName : Option String → Option String → Bool
  | none, none => true
  | some name, some name' => decide (lstrcmpi name name' = 0)
  | _, _ => false

/-- The walk from the end of the list, which is in reverse in the first argument: the list with the
runs merged, or the runs before and behind the place of the new one. -/
def walkBack (ptszJobName : Option String) (c : RunCall) :
    List CRun → List CRun → List CRun ⊕ List CRun × List CRun
  | [], behind => .inr ([], behind)
  | pRun :: before, behind =>
    -- the head of the list is known by its time
    if pRun.m_ft = 0 then .inr ((pRun :: before).reverse, behind)
    else if pRun.m_ft = c.ftRun ∧ sameName lstrcmpi pRun.m_ptszJobName ptszJobName = true then
      .inl (before.reverse ++ c.mergeInto pRun :: behind)
    else if pRun.m_ft < c.ftRun then .inr ((pRun :: before).reverse, behind)
    else walkBack ptszJobName c before (pRun :: behind)

structure TimeRunList where
  runs : List CRun
  count : ℕ
  deriving DecidableEq

/-- For a call that finds memory for the new run. -/
def addSorted (ptszJobName : Option String) (cLimit : ℕ) (l : TimeRunList) (c : RunCall) :
    AddResult × TimeRunList :=
  match walkBack lstrcmpi ptszJobName c l.runs.reverse [] with
  | .inl runs => (.S_OK, { l with runs := runs })
  | .inr (before, behind) =>
    if cLimit ≤ l.count then
      if behind = [] then (.S_FALSE, l)
      else (.S_OK,
        { runs := before ++ c.newRun ptszJobName :: behind.dropLast, count := l.count - 1 + 1 })
    else (.S_OK, { runs := before ++ c.newRun ptszJobName :: behind, count := l.count + 1 })

/-- One call after another, from the empty list on. -/
def addAll (ptszJobName : Option String) (cLimit : ℕ) (cs : List RunCall) : TimeRunList :=
  cs.foldl (fun l c => (addSorted lstrcmpi ptszJobName cLimit l c).2) { runs := [], count := 0 }

end NtAdmin.Sched.Common
