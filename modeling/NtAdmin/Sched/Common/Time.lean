import Mathlib.Data.Nat.Notation
import Mathlib.Tactic.SplitIfs

/-! The dates of time.cxx. -/
namespace NtAdmin.Sched.Common

/-- The first entry makes January's index 1. -/
def g_rgMonthDays : List ℕ := [0, 31, 28, 31, 30, 31, 30, 31, 31, 30, 31, 30, 31]

def IsLeapYear (wYear : ℕ) : Prop := wYear % 4 = 0 ∧ wYear % 100 ≠ 0 ∨ wYear % 400 = 0

instance : DecidablePred IsLeapYear := fun _ => inferInstanceAs (Decidable (_ ∨ _))

def isValidDate (wMonth wDay wYear : ℕ) : Bool :=
  if wMonth < 1 ∨ 12 < wMonth ∨ wDay < 1 then false
  else if wMonth = 2 ∧ IsLeapYear wYear then decide (wDay ≤ g_rgMonthDays.getD 2 0 + 1)
  else decide (wDay ≤ g_rgMonthDays.getD wMonth 0)

/-- There is no result for a month that there is not. -/
def monthDays (wMonth wYear : ℕ) : Option ℕ :=
  if wMonth < 1 ∨ 12 < wMonth then none
  else if wMonth = 2 ∧ wYear ≠ 0 ∧ IsLeapYear wYear then some (g_rgMonthDays.getD wMonth 0 + 1)
  else some (g_rgMonthDays.getD wMonth 0)

/-- The longest that a month gets. -/
def longest (wMonth : ℕ) : ℕ := if wMonth = 2 then 29 else g_rgMonthDays.getD wMonth 0

theorem isValidDate_longest {wMonth wDay wYear : ℕ} (h : isValidDate wMonth wDay wYear = true) :
    1 ≤ wMonth ∧ wMonth ≤ 12 ∧ 1 ≤ wDay ∧ wDay ≤ longest wMonth := by
  unfold isValidDate at h
  split_ifs at h with hrange hleap
  · have hday := of_decide_eq_true h
    rw [longest, if_pos hleap.1]
    exact ⟨by omega, by omega, by omega, hday⟩
  · have hday := of_decide_eq_true h
    refine ⟨by omega, by omega, by omega, ?_⟩
    unfold longest
    split_ifs with htwo
    · subst htwo
      exact Nat.le_trans hday (by decide)
    · exact hday

/-- Every such date is one in the year 4. -/
theorem isValidDate_of_longest {wMonth wDay : ℕ} (hlow : 1 ≤ wMonth) (hhigh : wMonth ≤ 12)
    (hpos : 1 ≤ wDay) (hday : wDay ≤ longest wMonth) : isValidDate wMonth wDay 4 = true := by
  unfold isValidDate longest at *
  rw [if_neg (by omega)]
  by_cases htwo : wMonth = 2
  · rw [if_pos htwo] at hday
    rw [if_pos ⟨htwo, by decide⟩]
    exact decide_eq_true hday
  · rw [if_neg htwo] at hday
    rw [if_neg fun h => htwo h.1]
    exact decide_eq_true hday

/-- Which is a leap year. -/
theorem monthDays_four {wMonth : ℕ} (hlow : 1 ≤ wMonth) (hhigh : wMonth ≤ 12) :
    monthDays wMonth 4 = some (longest wMonth) := by
  unfold monthDays longest
  rw [if_neg (by omega)]
  by_cases htwo : wMonth = 2
  · subst htwo
    rfl
  · rw [if_neg fun h => htwo h.1, if_neg htwo]

end NtAdmin.Sched.Common
