import Mathlib.Algebra.GroupWithZero.Nat
import NtAdmin.Lib.Calendar

/-! Broken-down times and file times. A file time counts units of 100 nanoseconds from the first of
January 1601 on. -/
namespace NtAdmin.Wmi
open NtAdmin.Lib.Calendar

structure SystemTime where
  wYear : UInt16
  wMonth : UInt16
  wDayOfWeek : UInt16
  wDay : UInt16
  wHour : UInt16
  wMinute : UInt16
  wSecond : UInt16
  wMilliseconds : UInt16
  deriving DecidableEq

namespace SystemTime

/-- The time of the day in its ranges. -/
def ValidClock (st : SystemTime) : Prop :=
  st.wHour.toNat < 24 ∧ st.wMinute.toNat < 60 ∧ st.wSecond.toNat < 60 ∧ st.wMilliseconds.toNat < 1000

instance (st : SystemTime) : Decidable st.ValidClock := inferInstanceAs (Decidable (_ ∧ _))

/-- The times that the system converts. -/
def Valid (st : SystemTime) : Prop :=
  (1601 ≤ st.wYear.toNat ∧ st.wYear.toNat ≤ 30827) ∧ (1 ≤ st.wMonth.toNat ∧ st.wMonth.toNat ≤ 12) ∧
    (1 ≤ st.wDay.toNat ∧ st.wDay.toNat ≤ daysInMonth st.wYear.toNat st.wMonth.toNat) ∧ st.ValidClock

instance (st : SystemTime) : Decidable st.Valid := inferInstanceAs (Decidable (_ ∧ _))

/-- The milliseconds of the day. -/
def clock (st : SystemTime) : ℕ :=
  ((st.wHour.toNat * 60 + st.wMinute.toNat) * 60 + st.wSecond.toNat) * 1000 +
    st.wMilliseconds.toNat

/-- The units of 100 nanoseconds up to the time. -/
def units (st : SystemTime) : ℕ :=
  (dayNumber st.wYear.toNat st.wMonth.toNat st.wDay.toNat * 86400000 + st.clock) * 10000

end SystemTime

def systemTimeToFileTime (st : SystemTime) : Option ℕ := if st.Valid then some st.units else none

theorem systemTimeToFileTime_of_valid {st : SystemTime} (h : st.Valid) :
    systemTimeToFileTime st = some st.units := if_pos h

end NtAdmin.Wmi
