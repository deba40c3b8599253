import NtAdmin.Sched.Common.Time

/-! The times of time.hxx and time.cxx. -/
namespace NtAdmin.Sched.Common

structure SYSTEMTIME where
  wYear : ℕ
  wMonth : ℕ
  wDay : ℕ
  wHour : ℕ
  wMinute : ℕ
  wSecond : ℕ
  wMilliseconds : ℕ
  deriving DecidableEq

namespace SYSTEMTIME

/-- The milliseconds from midnight on. -/
def timeOfDay (st : SYSTEMTIME) : ℕ :=
  ((st.wHour * 60 + st.wMinute) * 60 + st.wSecond) * 1000 + st.wMilliseconds

structure Valid (st : SYSTEMTIME) : Prop where
  date : ∃ wLastDay, monthDays st.wMonth st.wYear = some wLastDay ∧ 1 ≤ st.wDay ∧
    st.wDay ≤ wLastDay
  hour : st.wHour < 24
  minute : st.wMinute < 60
  second : st.wSecond < 60
  milliseconds : st.wMilliseconds < 1000

end SYSTEMTIME

/-- The file times of valid times are in the order of the times. -/
def isFirstTimeEarlier (pstFirst pstSecond : SYSTEMTIME) : Bool :=
  decide (pstFirst.wYear < pstSecond.wYear ∨ pstFirst.wYear = pstSecond.wYear ∧
    (pstFirst.wMonth < pstSecond.wMonth ∨ pstFirst.wMonth = pstSecond.wMonth ∧
      (pstFirst.wDay < pstSecond.wDay ∨ pstFirst.wDay = pstSecond.wDay ∧
        pstFirst.timeOfDay < pstSecond.timeOfDay)))

def incrementMonth (pst : SYSTEMTIME) : SYSTEMTIME :=
  if pst.wMonth < 12 then { pst with wMonth := pst.wMonth + 1 }
  else { pst with wMonth := 1, wYear := pst.wYear + 1 }

def incrementDay (pst : SYSTEMTIME) : SYSTEMTIME :=
  let pst := { pst with wDay := pst.wDay + 1 }
  match monthDays pst.wMonth pst.wYear with
  | none => pst
  | some wLastDay => if wLastDay < pst.wDay then incrementMonth { pst with wDay := 1 } else pst

/-! ### Days and months -/

theorem monthDays_some {wMonth wYear n : ℕ} (h : monthDays wMonth wYear = some n) :
    1 ≤ wMonth ∧ wMonth ≤ 12 ∧ 28 ≤ n ∧ n ≤ 31 := by
  unfold monthDays at h
  split_ifs at h with hrange hleap
  · obtain ⟨rfl, -⟩ := hleap
    have hn : 29 = n := Option.some.inj h
    omega
  · have hlow : 1 ≤ wMonth := by omega
    have hhigh : wMonth ≤ 12 := by omega
    have hn := Option.some.inj h
    have hall : ∀ m < 13, 1 ≤ m → 28 ≤ g_rgMonthDays.getD m 0 ∧ g_rgMonthDays.getD m 0 ≤ 31 := by
      decide
    have hm := hall wMonth (by omega) hlow
    omega

/-- After a short month comes a long one. -/
theorem monthDays_incrementMonth {st : SYSTEMTIME} {n : ℕ}
    (h : monthDays st.wMonth st.wYear = some n) :
    ∃ n', monthDays (incrementMonth st).wMonth (incrementMonth st).wYear = some n' ∧
      (n < 31 → n' = 31) := by
  obtain ⟨hlow, hhigh, -, -⟩ := monthDays_some h
  have hnext : ∀ m y, 1 ≤ m → m ≤ 12 → ∃ n', monthDays m y = some n' := by
    intro m y hm hm'
    unfold monthDays
    rw [if_neg (by omega)]
    split_ifs
    · exact ⟨_, rfl⟩
    · exact ⟨_, rfl⟩
  have hlong : ∀ m < 12, 1 ≤ m → g_rgMonthDays.getD m 0 < 31 →
      m + 1 ≠ 2 ∧ g_rgMonthDays.getD (m + 1) 0 = 31 := by decide
  unfold incrementMonth
  split_ifs with hdec
  · obtain ⟨n', hn'⟩ := hnext (st.wMonth + 1) st.wYear (by omega) (by omega)
    refine ⟨n', hn', fun hshort => ?_⟩
    have hday : g_rgMonthDays.getD st.wMonth 0 < 31 := by
      unfold monthDays at h
      rw [if_neg (by omega)] at h
      split_ifs at h with hleap
      · rw [hleap.1]
        decide
      · exact Option.some.inj h ▸ hshort
    obtain ⟨htwo, h31⟩ := hlong st.wMonth hdec hlow hday
    unfold monthDays at hn'
    rw [if_neg (by omega), if_neg (fun e => htwo e.1), h31] at hn'
    exact (Option.some.inj hn').symm
  · have hdec' : st.wMonth = 12 := by omega
    have h31 : n = 31 := by
      rw [hdec'] at h
      exact (Option.some.inj h).symm
    exact ⟨31, rfl, fun hshort => by omega⟩

theorem incrementMonth_wDay (st : SYSTEMTIME) : (incrementMonth st).wDay = st.wDay := by
  unfold incrementMonth
  split_ifs
  · rfl
  · rfl

theorem incrementMonth_time (st : SYSTEMTIME) :
    (incrementMonth st).wHour = st.wHour ∧ (incrementMonth st).wMinute = st.wMinute ∧
      (incrementMonth st).wSecond = st.wSecond ∧
      (incrementMonth st).wMilliseconds = st.wMilliseconds := by
  unfold incrementMonth
  split_ifs
  · exact ⟨rfl, rfl, rfl, rfl⟩
  · exact ⟨rfl, rfl, rfl, rfl⟩

/-- The next day is one later in the month or the first of the next month. -/
theorem incrementDay_spec {st : SYSTEMTIME} {n : ℕ} (h : monthDays st.wMonth st.wYear = some n) :
    incrementDay st = if n < st.wDay + 1 then incrementMonth { st with wDay := 1 }
      else { st with wDay := st.wDay + 1 } := by
  unfold incrementDay
  dsimp only
  rw [h]

theorem incrementDay_time (st : SYSTEMTIME) :
    (incrementDay st).wHour = st.wHour ∧ (incrementDay st).wMinute = st.wMinute ∧
      (incrementDay st).wSecond = st.wSecond ∧
      (incrementDay st).wMilliseconds = st.wMilliseconds := by
  unfold incrementDay
  dsimp only
  split
  · exact ⟨rfl, rfl, rfl, rfl⟩
  · split_ifs
    · exact incrementMonth_time _
    · exact ⟨rfl, rfl, rfl, rfl⟩

theorem incrementDay_timeOfDay (st : SYSTEMTIME) :
    (incrementDay st).timeOfDay = st.timeOfDay := by
  obtain ⟨hhour, hminute, hsecond, hms⟩ := incrementDay_time st
  unfold SYSTEMTIME.timeOfDay
  rw [hhour, hminute, hsecond, hms]

theorem incrementDay_date {st : SYSTEMTIME} {n : ℕ}
    (h : monthDays st.wMonth st.wYear = some n) (hday : st.wDay ≤ n) :
    (st.wDay < n ∧ (incrementDay st).wYear = st.wYear ∧ (incrementDay st).wMonth = st.wMonth ∧
      (incrementDay st).wDay = st.wDay + 1) ∨
    st.wDay = n ∧ (incrementDay st).wDay = 1 ∧
      (st.wMonth < 12 ∧ (incrementDay st).wYear = st.wYear ∧
        (incrementDay st).wMonth = st.wMonth + 1 ∨
      st.wMonth = 12 ∧ (incrementDay st).wYear = st.wYear + 1 ∧ (incrementDay st).wMonth = 1) := by
  obtain ⟨-, hmonth, -, -⟩ := monthDays_some h
  rw [incrementDay_spec h]
  split_ifs with hlast
  · refine Or.inr ⟨by omega, incrementMonth_wDay _, ?_⟩
    unfold incrementMonth
    split_ifs with hdec
    · exact Or.inl ⟨hdec, rfl, rfl⟩
    · have hdec' : ¬st.wMonth < 12 := hdec
      exact Or.inr ⟨by omega, rfl, rfl⟩
  · exact Or.inl ⟨by omega, rfl, rfl, rfl⟩

theorem SYSTEMTIME.Valid.incrementDay {st : SYSTEMTIME} (hst : st.Valid) :
    (incrementDay st).Valid := by
  obtain ⟨n, hn, hlow, hhigh⟩ := hst.date
  obtain ⟨-, -, hmin, -⟩ := monthDays_some hn
  rw [incrementDay_spec hn]
  split_ifs with hlast
  · obtain ⟨n', hn', -⟩ := @monthDays_incrementMonth { st with wDay := 1 } n hn
    obtain ⟨-, -, hmin', -⟩ := monthDays_some hn'
    obtain ⟨hhour, hminute, hsecond, hms⟩ := incrementMonth_time { st with wDay := 1 }
    have hday := incrementMonth_wDay { st with wDay := 1 }
    exact
      { date := ⟨n', hn', Nat.le_of_eq hday.symm, by rw [hday]; show 1 ≤ n'; omega⟩
        hour := Nat.lt_of_le_of_lt (Nat.le_of_eq hhour) hst.hour
        minute := Nat.lt_of_le_of_lt (Nat.le_of_eq hminute) hst.minute
        second := Nat.lt_of_le_of_lt (Nat.le_of_eq hsecond) hst.second
        milliseconds := Nat.lt_of_le_of_lt (Nat.le_of_eq hms) hst.milliseconds }
  · exact
      { date := ⟨n, hn, Nat.le_add_left 1 st.wDay, Nat.le_of_not_lt hlast⟩
        hour := hst.hour
        minute := hst.minute
        second := hst.second
        milliseconds := hst.milliseconds }

end NtAdmin.Sched.Common
