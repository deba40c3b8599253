import Mathlib.Tactic.IntervalCases
import NtAdmin.Sched.Schedule.AtInfo

/-! The dates of the triggers of an AT job. -/
namespace NtAdmin.Sched.Schedule
open Common

variable {dwDaysOfMonth : BitVec 32} {st stNow stStart : SYSTEMTIME}

theorem lastDay_cases (n first wDay : ℕ) : lastDay dwDaysOfMonth n first wDay = wDay ∨
    first ≤ lastDay dwDaysOfMonth n first wDay ∧
      lastDay dwDaysOfMonth n first wDay < first + n := by
  induction n generalizing first wDay with
  | zero => exact Or.inl rfl
  | succ n ih =>
    rw [lastDay]
    split_ifs
    · rcases ih (first + 1) first with h | h <;> omega
    · rcases ih (first + 1) wDay with h | h <;> omega

/-- Both days are there or none, and they are among those looked at. -/
def DaysFrom (low : ℕ) (days : ℕ × ℕ) : Prop :=
  days = (0, 0) ∨ low ≤ days.1 ∧ (days.2 = 0 ∨ low ≤ days.2)

theorem daysFrom_firstAndLast {low n first : ℕ} {days : ℕ × ℕ} (hle : low ≤ first)
    (h : DaysFrom low days) : DaysFrom low (firstAndLast dwDaysOfMonth n first days) := by
  induction n generalizing first days with
  | zero => exact h
  | succ n ih =>
    rw [firstAndLast]
    refine ih (Nat.le_succ_of_le hle) ?_
    split_ifs with hset hzero
    · refine Or.inr ⟨hle, ?_⟩
      rcases h with rfl | ⟨-, hsecond⟩
      · exact Or.inl rfl
      · exact hsecond
    · refine Or.inr ⟨?_, Or.inr hle⟩
      rcases h with rfl | ⟨hfirst, -⟩
      · exact absurd rfl hzero
      · exact hfirst
    · exact h

theorem setDomTrigger2Days_spec {first last : ℕ}
    (h : (setDomTrigger2Days dwDaysOfMonth first last).1 ≠ 0) :
    first ≤ (setDomTrigger2Days dwDaysOfMonth first last).2 := by
  have hdays : DaysFrom first (firstAndLast dwDaysOfMonth (last + 1 - first) first (0, 0)) :=
    daysFrom_firstAndLast (Nat.le_refl first) (Or.inl rfl)
  unfold setDomTrigger2Days at h ⊢
  dsimp only at h ⊢
  split_ifs at h ⊢ with hone
  · rcases hdays with hzero | ⟨hfirst, -⟩
    · exact absurd (congrArg Prod.fst hzero) hone.1
    · exact hfirst
  · rcases hdays with hzero | ⟨-, hsecond | hsecond⟩
    · exact absurd (congrArg Prod.fst hzero) h
    · exact absurd ⟨h, hsecond⟩ hone
    · exact hsecond

/-! ### The start -/

theorem nextDay_spec {last n wDay : ℕ} (hle : wDay ≤ last + 1) (hn : last + 1 ≤ wDay + n) :
    (wDay ≤ nextDay dwDaysOfMonth last n wDay ∧ nextDay dwDaysOfMonth last n wDay ≤ last) ∨
    nextDay dwDaysOfMonth last n wDay = last + 1 ∧
      ∀ k, wDay ≤ k → k ≤ last → isMonthBitSet dwDaysOfMonth k = false := by
  induction n generalizing wDay with
  | zero => exact Or.inr ⟨by rw [nextDay]; omega, fun k hk hlast => by omega⟩
  | succ n ih =>
    rw [nextDay]
    split_ifs with hnext
    · rw [Bool.and_eq_true, Bool.not_eq_true', decide_eq_true_eq] at hnext
      rcases ih (by omega : wDay + 1 ≤ last + 1) (by omega) with h | ⟨heq, hnone⟩
      · exact Or.inl ⟨by omega, h.2⟩
      · refine Or.inr ⟨heq, fun k hk hlast => ?_⟩
        by_cases hfirst : k = wDay
        · rw [hfirst, hnext.1]
        · exact hnone k (by omega) hlast
    · by_cases hlast : wDay ≤ last
      · exact Or.inl ⟨Nat.le_refl wDay, hlast⟩
      · exact Or.inr ⟨by omega, fun k hk hk' => by omega⟩

/-- What the search for the start finds. -/
structure StartOf (s : SYSTEMTIME) (last : ℕ) : Prop where
  month : monthDays s.wMonth s.wYear = some last
  low : 1 ≤ s.wDay
  high : s.wDay ≤ last

theorem findStart_step {n last : ℕ} (hmonth : monthDays st.wMonth st.wYear = some last)
    (hlow : 1 ≤ st.wDay) (hhigh : st.wDay ≤ last + 1) :
    (∃ s, findStart dwDaysOfMonth (n + 1) st last = some (s, last) ∧ StartOf s last) ∨
    (∀ k, st.wDay ≤ k → k ≤ last → isMonthBitSet dwDaysOfMonth k = false) ∧
      ∃ s' last', s'.wDay = 1 ∧ monthDays s'.wMonth s'.wYear = some last' ∧
        (last < 31 → last' = 31) ∧
        findStart dwDaysOfMonth (n + 1) st last = findStart dwDaysOfMonth n s' last' := by
  obtain ⟨-, -, -, hle⟩ := monthDays_some hmonth
  rw [findStart]
  rcases @nextDay_spec dwDaysOfMonth _ 32 _ hhigh (by omega) with
    ⟨hfrom, hto⟩ | ⟨heq, hnone⟩
  · rw [if_neg (by omega)]
    exact Or.inl ⟨_, rfl, hmonth, by exact Nat.le_trans hlow hfrom, hto⟩
  · obtain ⟨last', hmonth', hlong⟩ := @monthDays_incrementMonth
      { st with wDay := 1 } last hmonth
    have hday : (incrementMonth { st with wDay := 1 }).wDay = 1 := by
      unfold incrementMonth
      split_ifs <;> rfl
    rw [if_pos (by omega)]
    dsimp only
    rw [hmonth', Option.getD_some]
    exact Or.inr ⟨hnone, _, last', hday, hmonth', hlong, rfl⟩

theorem findStart_three {last : ℕ}
    (hdays : ∃ k, 1 ≤ k ∧ k ≤ 31 ∧ isMonthBitSet dwDaysOfMonth k = true)
    (hmonth : monthDays st.wMonth st.wYear = some last) (hlow : 1 ≤ st.wDay)
    (hhigh : st.wDay ≤ last + 1) :
    ∃ s last', findStart dwDaysOfMonth 3 st last = some (s, last') ∧ StartOf s last' := by
  obtain ⟨k, hk, hk', hset⟩ := hdays
  have hfull : ∀ (s : SYSTEMTIME) (n : ℕ), s.wDay = 1 → monthDays s.wMonth s.wYear = some 31 →
      ∃ s', findStart dwDaysOfMonth (n + 1) s 31 = some (s', 31) ∧ StartOf s' 31 := by
    intro s n hday hs
    rcases @findStart_step dwDaysOfMonth _ n _ hs (by omega) (by omega) with
      h | ⟨hnone, -⟩
    · exact h
    · exact absurd hset (by rw [hnone k (by omega) hk']; decide)
  rcases @findStart_step dwDaysOfMonth _ 2 _ hmonth hlow hhigh with
    ⟨s, hs, hstart⟩ | ⟨-, s, last₂, hday, hmonth₂, -, heq⟩
  · exact ⟨s, last, hs, hstart⟩
  rw [heq]
  rcases @findStart_step dwDaysOfMonth _ 1 _ hmonth₂ (by omega) (by omega) with
    ⟨s', hs, hstart⟩ | ⟨hnone, s', last₃, hday', hmonth₃, hlong, heq'⟩
  · exact ⟨s', last₂, hs, hstart⟩
  · obtain ⟨-, -, -, hle⟩ := monthDays_some hmonth₂
    have hshort : last₂ < 31 := by
      by_contra h
      exact absurd hset (by rw [hnone k (by omega) (by omega)]; decide)
    have h31 := hlong hshort
    subst h31
    obtain ⟨s'', hs, hstart⟩ := hfull s' 0 hday' hmonth₃
    exact ⟨s'', 31, heq'.trans hs, hstart⟩

/-! ### The dates -/

/-- The date of `st` is not after that of `st'`. -/
def DateLe (st st' : SYSTEMTIME) : Prop :=
  st.wYear < st'.wYear ∨ st.wYear = st'.wYear ∧
    (st.wMonth < st'.wMonth ∨ st.wMonth = st'.wMonth ∧ st.wDay ≤ st'.wDay)

theorem firstEnd_spec (s : SYSTEMTIME) (last : ℕ) :
    (firstEnd dwDaysOfMonth s last).wMonth = s.wMonth ∨
      (firstEnd dwDaysOfMonth s last).wDay < s.wDay := by
  unfold firstEnd
  dsimp only
  split_ifs with hdec hbefore hbefore
  · exact Or.inr (Nat.lt_of_le_of_lt (Nat.le_of_eq (incrementMonth_wDay _)) hbefore)
  · exact Or.inl rfl
  · exact Or.inr (Nat.lt_of_le_of_lt (Nat.le_of_eq (incrementMonth_wDay _)) hbefore)
  · exact Or.inl rfl

/-- A second trigger ends after the first. -/
theorem secondDates_spec {s e : SYSTEMTIME} {last : ℕ} (hday : s.wDay ≤ last)
    (hend : e.wMonth = s.wMonth ∨ e.wDay < s.wDay)
    (hsecond : (secondDates dwDaysOfMonth s e last).1.wDay ≠ 0) :
    DateLe e (secondDates dwDaysOfMonth s e last).2 := by
  unfold secondDates at hsecond ⊢
  unfold DateLe
  split_ifs at hsecond ⊢ with hmarch hshort hsame
  · have hmonth : e.wMonth < 3 := by omega
    exact Or.inr ⟨rfl, Or.inl hmonth⟩
  · exact Or.inr ⟨rfl, Or.inl (Nat.lt_succ_self e.wMonth)⟩
  · have hfirst := setDomTrigger2Days_spec hsecond
    refine Or.inr ⟨rfl, Or.inr ⟨rfl, ?_⟩⟩
    show e.wDay ≤ (setDomTrigger2Days dwDaysOfMonth (last + 1) 31).2
    omega
  · exact absurd rfl hsecond

/-- The day that the search starts from. -/
theorem startDay_valid (hnow : stNow.Valid) :
    (if isFirstTimeEarlier stStart stNow then incrementDay stNow else stNow).Valid := by
  split_ifs
  · exact hnow.incrementDay
  · exact hnow

theorem calcDomTriggerDates_spec (hnow : stNow.Valid)
    (hdays : ∃ k, 1 ≤ k ∧ k ≤ 31 ∧ isMonthBitSet dwDaysOfMonth k = true) :
    ∃ dates, calcDomTriggerDates dwDaysOfMonth stNow stStart = some dates ∧
      (dates.stStart2.wDay ≠ 0 → DateLe dates.stEnd1 dates.stEnd2) := by
  obtain ⟨last, hmonth, hlow, hhigh⟩ := (@startDay_valid _ stStart hnow).date
  obtain ⟨s, last', hfind, hstart⟩ :=
    findStart_three hdays hmonth hlow (Nat.le_succ_of_le hhigh)
  unfold calcDomTriggerDates
  dsimp only
  rw [hmonth]
  dsimp only [Option.bind_eq_bind, Option.bind_some]
  rw [hfind]
  exact ⟨_, rfl, secondDates_spec hstart.high (firstEnd_spec s last')⟩

end NtAdmin.Sched.Schedule
