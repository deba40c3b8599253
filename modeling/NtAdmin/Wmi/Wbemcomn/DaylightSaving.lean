import Mathlib.Tactic.IntervalCases
import NtAdmin.Wmi.Wbemcomn.SystemTime

/-! The transitions of daylight saving time in cwbemtime.cpp. -/
namespace NtAdmin.Wmi
open NtAdmin.Lib.Calendar

/-- A value stored in a SHORT. -/
def toShort (x : ℤ) : ℤ := (x + 32768) % 65536 - 32768

/-- A value stored in a WORD. -/
def toWord (x : ℤ) : UInt16 := UInt16.ofNat (x % 65536).toNat

def lpdays : List ℤ := [-1, 30, 59, 90, 120, 151, 181, 212, 243, 273, 304, 334, 365]

def days : List ℤ := [-1, 30, 58, 89, 119, 150, 180, 211, 242, 272, 303, 333, 364]

def dayInMonthToAbsolute (pst : SystemTime) (wYear : UInt16) : SystemTime :=
  if pst.wYear = 0 then
    let bLeap := wYear.toNat % 400 = 0 ∨ (wYear.toNat % 4 = 0 ∧ wYear.toNat % 100 ≠ 0)
    let table := if bLeap then lpdays else days
    let wMonth := pst.wMonth.toNat
    let wDay : ℤ := pst.wDay.toNat
    let wDayOfWeek : ℤ := pst.wDayOfWeek.toNat
    let shYearDay := toShort (1 + table.getD (wMonth - 1) 0)
    let yc : ℤ := (toWord (wYear.toNat - 1601)).toNat
    let y4 := yc / 4
    let y100 := yc / 100
    let y400 := yc / 400
    let monthdow := toShort ((1 + (yc * 365 + y4 + y400 - y100) + shYearDay).tmod 7)
    let shYearDay :=
      if monthdow < wDayOfWeek then toShort (shYearDay + ((wDayOfWeek - monthdow) + (wDay - 1) * 7))
      else toShort (shYearDay + ((wDayOfWeek - monthdow) + wDay * 7))
    let shYearDay :=
      if wDay = 5 ∧ table.getD wMonth 0 < shYearDay then toShort (shYearDay - 7) else shYearDay
    { pst with wYear := wYear, wDay := toWord (shYearDay - table.getD (wMonth - 1) 0) }
  else pst

def compareFileTime (ft₁ ft₂ : ℕ) : ℤ := if ft₁ < ft₂ then -1 else if ft₂ < ft₁ then 1 else 0

/-- A file time that was not converted to holds what `uninit` left in its place. -/
def compareSystemTime (uninit : ℕ × ℕ) (pst₁ pst₂ : SystemTime) : ℤ :=
  compareFileTime ((systemTimeToFileTime pst₁).getD uninit.1)
    ((systemTimeToFileTime pst₂).getD uninit.2)

structure TimeZoneInformation where
  bias : ℤ
  standardDate : SystemTime
  standardBias : ℤ
  daylightDate : SystemTime
  daylightBias : ℤ

/-- What `GetTimeZoneInformation` returns. -/
inductive TimeZoneId
  | unknown
  | standard
  | daylight
  | invalid
  deriving DecidableEq

def getLocalOffsetForDate (uninit : ℕ × ℕ) (dwRes : TimeZoneId) (tzTime : TimeZoneInformation)
    (pst : SystemTime) : ℤ :=
  match dwRes with
  | .unknown => tzTime.bias * -1
  | .standard | .daylight =>
    let daylightDate := dayInMonthToAbsolute tzTime.daylightDate pst.wYear
    let standardDate := dayInMonthToAbsolute tzTime.standardDate pst.wYear
    if compareSystemTime uninit daylightDate standardDate < 0 then
      if compareSystemTime uninit pst daylightDate < 0 ∨
          compareSystemTime uninit pst standardDate > 0 then tzTime.bias * -1
      else (tzTime.bias + tzTime.daylightBias) * -1
    else
      if compareSystemTime uninit pst standardDate < 0 ∨
          compareSystemTime uninit pst daylightDate > 0 then
        (tzTime.bias + tzTime.daylightBias) * -1
      else tzTime.bias * -1
  | .invalid => -1

/-! ### The transitions of the calendar -/

/-- A relative transition date: a weekday of a month by its week, at a time of the day. -/
structure RelativeDate where
  st : SystemTime
  wYear_eq : st.wYear = 0
  month : 1 ≤ st.wMonth.toNat ∧ st.wMonth.toNat ≤ 12
  weekday : st.wDayOfWeek.toNat ≤ 6
  week : 1 ≤ st.wDay.toNat ∧ st.wDay.toNat ≤ 5
  clock : st.ValidClock

namespace RelativeDate

/-- `day` is the day of the transition in a year. -/
def IsDay (date : RelativeDate) (wYear day : UInt16) : Prop :=
  IsOccurrence wYear.toNat date.st.wMonth.toNat date.st.wDayOfWeek.toNat date.st.wDay.toNat day.toNat

/-- The day that is the transition's in a year. -/
def day (date : RelativeDate) (wYear : UInt16) : UInt16 :=
  let monthdow := Lib.Calendar.weekday wYear.toNat date.st.wMonth.toNat 1
  let first := 1 + (date.st.wDayOfWeek.toNat + 7 - monthdow) % 7
  let nth := first + (date.st.wDay.toNat - 1) * 7
  .ofNat (if daysInMonth wYear.toNat date.st.wMonth.toNat < nth then nth - 7 else nth)

/-- The transition on a day of its month. -/
def on (date : RelativeDate) (wYear day : UInt16) : SystemTime :=
  { date.st with wYear := wYear, wDay := day }

/-- The date is changed to the day of the transition in a year. -/
def Absolute (date : RelativeDate) (wYear : UInt16) : Prop :=
  ∃ day, date.IsDay wYear day ∧ dayInMonthToAbsolute date.st wYear = date.on wYear day

/-- The month begins on another weekday, or the last one is asked for in a month of more than four
weeks. -/
def Regular (date : RelativeDate) (wYear : UInt16) : Prop :=
  Lib.Calendar.weekday wYear.toNat date.st.wMonth.toNat 1 ≠ date.st.wDayOfWeek.toNat ∨
    date.st.wDay = 5 ∧ 28 < daysInMonth wYear.toNat date.st.wMonth.toNat

instance (date : RelativeDate) (wYear : UInt16) : Decidable (date.Regular wYear) :=
  inferInstanceAs (Decidable (_ ∨ _))

/-- The transition of a year. -/
def transition (date : RelativeDate) (wYear : UInt16) : SystemTime := date.on wYear (date.day wYear)

/-- The time that the transition of a year is taken for: the right one, the same a week later, or
what `uninit` left if that is no day of the month. -/
def takenFor (date : RelativeDate) (wYear : UInt16) (uninit : ℕ) : ℕ :=
  if date.Regular wYear then (date.transition wYear).units
  else if (date.day wYear).toNat + 7 ≤ daysInMonth wYear.toNat date.st.wMonth.toNat then
    (date.on wYear (date.day wYear + 7)).units
  else uninit

end RelativeDate

theorem yearDays_eq (y : ℕ) {m : ℕ} (hm : m ≤ 12) :
    (if y % 400 = 0 ∨ (y % 4 = 0 ∧ y % 100 ≠ 0) then lpdays else days).getD m 0 =
      daysBeforeMonth y (m + 1) - 1 := by
  unfold daysBeforeMonth monthLengths
  by_cases h : IsLeap y
  · rw [if_pos h, if_pos (show _ ∨ _ from h)]
    interval_cases m <;> rfl
  · rw [if_neg h, if_neg (show ¬ (_ ∨ _) from h)]
    interval_cases m <;> rfl

theorem daysBeforeMonth_le (y : ℕ) {m : ℕ} (hm : m ≤ 12) : daysBeforeMonth y (m + 1) ≤ 366 := by
  unfold daysBeforeMonth monthLengths
  by_cases h : IsLeap y
  · rw [if_pos h]
    interval_cases m <;> decide
  · rw [if_neg h]
    interval_cases m <;> decide

theorem toShort_eq {x : ℤ} (h : -32768 ≤ x) (h' : x < 32768) : toShort x = x := by
  unfold toShort
  omega

theorem toNat_toWord {x : ℤ} (h : 0 ≤ x) (h' : x < 65536) : ((toWord x).toNat : ℤ) = x := by
  rw [toWord, UInt16.toNat_ofNat']
  omega

/-- The day of the month that is computed for the weekday `w` in the week `k`, in a month of `n` days
that begins on the weekday `f`. -/
def relativeDay (f w k n : ℕ) : ℤ :=
  let d : ℤ := if f < w then 1 + ((w - f) + (k - 1) * 7) else 1 + ((w - f) + k * 7)
  if k = 5 ∧ n < d then d - 7 else d

theorem relativeDay_bounds {f w k n : ℕ} (hf : f < 7) (hw : w ≤ 6) (hk : 1 ≤ k ∧ k ≤ 5)
    (hn : 28 ≤ n ∧ n ≤ 31) : 1 ≤ relativeDay f w k n ∧ relativeDay f w k n ≤ 36 := by
  simp only [relativeDay]
  split_ifs <;> omega

section days
variable (date : RelativeDate) {wYear : UInt16}

theorem dayInMonthToAbsolute_eq (hyear : 1601 ≤ wYear.toNat) :
    dayInMonthToAbsolute date.st wYear = { date.st with
      wYear := wYear
      wDay := toWord (relativeDay (Lib.Calendar.weekday wYear.toNat date.st.wMonth.toNat 1)
        date.st.wDayOfWeek.toNat date.st.wDay.toNat
        (daysInMonth wYear.toNat date.st.wMonth.toNat)) } := by
  have hmonth := date.month
  have hweek := date.week
  have hweekday := date.weekday
  have hlt := wYear.toNat_lt
  obtain ⟨m, hm⟩ : ∃ m, date.st.wMonth.toNat = m + 1 := ⟨date.st.wMonth.toNat - 1, by omega⟩
  have hsucc := daysBeforeMonth_succ (m := m + 1) wYear.toNat (by omega) (by omega)
  have hle := daysBeforeMonth_le (m := m + 1) wYear.toNat (by omega)
  have htable := yearDays_eq wYear.toNat (show m ≤ 12 by omega)
  have htable' := yearDays_eq wYear.toNat (show m + 1 ≤ 12 by omega)
  have hyc : ((toWord (wYear.toNat - 1601)).toNat : ℤ) = (wYear.toNat - 1601 : ℕ) := by
    rw [toNat_toWord] <;> omega
  have hdays := daysOfYears_eq (wYear.toNat - 1601)
  have hfirst : (Lib.Calendar.weekday wYear.toNat (m + 1) 1 : ℤ) =
      (1 + daysOfYears (wYear.toNat - 1601) + daysBeforeMonth wYear.toNat (m + 1)) % 7 := by
    unfold Lib.Calendar.weekday dayNumber
    omega
  have hfirst' := weekday_lt wYear.toNat (m + 1) 1
  rw [dayInMonthToAbsolute, if_pos date.wYear_eq]
  dsimp only
  rw [hm, Nat.add_sub_cancel, htable, htable', hyc]
  obtain ⟨f, hf⟩ : ∃ f, f = Lib.Calendar.weekday wYear.toNat (m + 1) 1 := ⟨_, rfl⟩
  obtain ⟨T, hT⟩ : ∃ T, T = daysBeforeMonth wYear.toNat (m + 1) := ⟨_, rfl⟩
  rw [← hf, ← hT] at hfirst
  rw [← hf] at hfirst' ⊢
  rw [hsucc, ← hT] at hle ⊢
  have hstart : toShort (1 + ((T : ℤ) - 1)) = T := by
    rw [toShort_eq] <;> omega
  obtain ⟨yc, hyears⟩ : ∃ yc, yc = wYear.toNat - 1601 := ⟨_, rfl⟩
  rw [← hyears] at hdays hfirst ⊢
  have hmonthdow : toShort ((1 + ((yc : ℤ) * 365 + yc / 4 + yc / 400 - yc / 100) + T).tmod 7) =
      f := by
    rw [Int.tmod_eq_emod_of_nonneg (by omega), toShort_eq] <;> omega
  rw [hstart, hmonthdow]
  refine congrArg (fun d => { date.st with wYear := wYear, wDay := toWord d }) ?_
  obtain ⟨w, hw⟩ : ∃ w, w = date.st.wDayOfWeek.toNat := ⟨_, rfl⟩
  obtain ⟨k, hk⟩ : ∃ k, k = date.st.wDay.toNat := ⟨_, rfl⟩
  rw [← hw] at hweekday ⊢
  rw [← hk] at hweek ⊢
  unfold relativeDay
  -- only the bounds matter from here on
  clear hdays hfirst hyears hyc htable htable' hmonthdow hstart
  by_cases hbefore : (f : ℤ) < w
  · have hshort : toShort ((T : ℤ) + (((w : ℤ) - f) + ((k : ℤ) - 1) * 7)) =
        T + ((w - f) + (k - 1) * 7) := by
      rw [toShort_eq] <;> omega
    have hbefore' : f < w := by omega
    simp only [if_pos hbefore, if_pos hbefore', hshort]
    split_ifs <;> (try rw [toShort_eq]) <;> omega
  · have hshort : toShort ((T : ℤ) + (((w : ℤ) - f) + (k : ℤ) * 7)) = T + ((w - f) + k * 7) := by
      rw [toShort_eq] <;> omega
    have hbefore' : ¬ f < w := by omega
    simp only [if_neg hbefore, if_neg hbefore', hshort]
    split_ifs <;> (try rw [toShort_eq]) <;> omega

/-- The day of the transition in the week `k` is the first one or a later one, and not too late. -/
theorem toNat_day {f w k n : ℕ} (hf : Lib.Calendar.weekday wYear.toNat date.st.wMonth.toNat 1 = f)
    (hw : date.st.wDayOfWeek.toNat = w) (hk : date.st.wDay.toNat = k)
    (hn : daysInMonth wYear.toNat date.st.wMonth.toNat = n) :
    ∃ q, q < 7 ∧ (f + q) % 7 = w ∧ (date.day wYear).toNat =
      if n < 1 + q + (k - 1) * 7 then 1 + q + (k - 1) * 7 - 7 else 1 + q + (k - 1) * 7 := by
  have hweek := date.week
  have hweekday := date.weekday
  have hfirst := weekday_lt wYear.toNat date.st.wMonth.toNat 1
  rw [RelativeDate.day, UInt16.toNat_ofNat', hf, hw, hk, hn]
  refine ⟨(w + 7 - f) % 7, by omega, by omega, Nat.mod_eq_of_lt ?_⟩
  split_ifs <;> omega

/-- The day of the transition is the only one. -/
theorem RelativeDate.isDay_iff (day : UInt16) :
    date.IsDay wYear day ↔ day = date.day wYear := by
  have hweek := date.week
  have hweekday := date.weekday
  have hbounds := daysInMonth_bounds wYear.toNat date.month.1 date.month.2
  obtain ⟨q, hq, hdow, hday⟩ := @toNat_day date wYear _ _ _ _ rfl rfl rfl rfl
  rw [← UInt16.toNat_inj, hday]
  by_cases hpos : 1 ≤ day.toNat
  · rw [RelativeDate.IsDay, isOccurrence_iff (by omega) hpos]
    split_ifs <;> omega
  · refine iff_of_false (fun h => hpos h.1) ?_
    split_ifs <;> omega

/-- The day that is computed is the day of the transition, or comes a week later. -/
theorem dayInMonthToAbsolute_on (hyear : 1601 ≤ wYear.toNat) :
    dayInMonthToAbsolute date.st wYear =
      date.on wYear (if date.Regular wYear then date.day wYear else date.day wYear + 7) := by
  have hweek := date.week
  have hweekday := date.weekday
  have hbounds := daysInMonth_bounds wYear.toNat date.month.1 date.month.2
  have hfirst := weekday_lt wYear.toNat date.st.wMonth.toNat 1
  have hfive : date.st.wDay = 5 ↔ date.st.wDay.toNat = 5 := UInt16.toNat_inj.symm
  obtain ⟨q, hq, hdow, hday⟩ := @toNat_day date wYear _ _ _ _ rfl rfl rfl rfl
  have hlater : (date.day wYear + 7).toNat = (date.day wYear).toNat + 7 := by
    have hle : (date.day wYear).toNat ≤ 36 := by rw [hday]; split_ifs <;> omega
    rw [UInt16.toNat_add, show (7 : UInt16).toNat = 7 from rfl]
    omega
  rw [dayInMonthToAbsolute_eq date hyear, RelativeDate.on]
  refine congrArg (fun d => { date.st with wYear := wYear, wDay := d }) ?_
  have hrange := relativeDay_bounds hfirst hweekday hweek hbounds
  have hword := toNat_toWord (x := relativeDay (Lib.Calendar.weekday wYear.toNat
    date.st.wMonth.toNat 1) date.st.wDayOfWeek.toNat date.st.wDay.toNat
    (daysInMonth wYear.toNat date.st.wMonth.toNat)) (by omega) (by omega)
  have hregular : date.Regular wYear ↔
      Lib.Calendar.weekday wYear.toNat date.st.wMonth.toNat 1 ≠ date.st.wDayOfWeek.toNat ∨
        date.st.wDay.toNat = 5 ∧ 28 < daysInMonth wYear.toNat date.st.wMonth.toNat := by
    rw [RelativeDate.Regular, hfive]
  rw [← UInt16.toNat_inj, ← Nat.cast_inj (R := ℤ), hword]
  unfold relativeDay
  dsimp only
  by_cases h : date.Regular wYear
  · rw [if_pos h, hday]
    have := hregular.mp h
    split_ifs <;> omega
  · rw [if_neg h, hlater, hday]
    have := hregular.not.mp h
    split_ifs <;> omega

/-- The day is the day of the transition exactly when the date is regular in the year. -/
theorem absolute_iff (hyear : 1601 ≤ wYear.toNat) :
    date.Absolute wYear ↔ date.Regular wYear := by
  rw [RelativeDate.Absolute, dayInMonthToAbsolute_on date hyear]
  constructor
  · rintro ⟨day, hday, heq⟩
    obtain rfl := (date.isDay_iff day).mp hday
    by_contra hregular
    rw [if_neg hregular] at heq
    have hsame : date.day wYear + 7 = date.day wYear := congrArg SystemTime.wDay heq
    have hnat := congrArg UInt16.toNat hsame
    rw [UInt16.toNat_add, show (7 : UInt16).toNat = 7 from rfl] at hnat
    omega
  · intro hregular
    exact ⟨date.day wYear, (date.isDay_iff _).mpr rfl, by rw [if_pos hregular]⟩

end days

/-- The first of April 2001 was a Sunday: its first Sunday is taken for the eighth. -/
theorem not_absolute_april : ¬ ∀ (date : RelativeDate) (wYear : UInt16), 1601 ≤ wYear.toNat →
    date.Absolute wYear := by
  intro h
  let date : RelativeDate :=
    ⟨⟨0, 4, 0, 1, 2, 0, 0, 0⟩, by decide, by decide, by decide, by decide, by decide⟩
  have hregular := (absolute_iff date (show 1601 ≤ (2001 : UInt16).toNat by decide)).mp
    (h date 2001 (by decide))
  revert hregular
  unfold RelativeDate.Regular
  decide +kernel

/-! ### The offset -/

/-- A time zone that changes to daylight saving time and back on relative dates. -/
structure SavingZone where
  bias : ℤ
  standardDate : RelativeDate
  standardBias : ℤ
  daylightDate : RelativeDate
  daylightBias : ℤ

namespace SavingZone

def toTimeZoneInformation (zone : SavingZone) : TimeZoneInformation :=
  ⟨zone.bias, zone.standardDate.st, zone.standardBias, zone.daylightDate.st, zone.daylightBias⟩

/-- Whether a time lies in daylight saving time, which begins at `daylight` and ends at `standard`;
south of the equator it lasts over the turn of the year, which is known by `first`. -/
def LiesBetween (first daylight standard time : ℕ) : Prop :=
  if first < standard then daylight ≤ time ∧ time ≤ standard
  else time < standard ∨ daylight < time

instance (first daylight standard time : ℕ) : Decidable (LiesBetween first daylight standard time) :=
  inferInstanceAs (Decidable (if first < standard then _ else _))

/-- A time lies between the transitions. -/
def InDaylight (zone : SavingZone) (pst : SystemTime) : Prop :=
  LiesBetween (zone.daylightDate.transition pst.wYear).units
    (zone.daylightDate.transition pst.wYear).units (zone.standardDate.transition pst.wYear).units
    pst.units

instance (zone : SavingZone) (pst : SystemTime) : Decidable (zone.InDaylight pst) :=
  inferInstanceAs (Decidable (LiesBetween _ _ _ _))

/-- A time lies between the transitions as they are taken for. What `uninit` left depends on the
argument that a transition is. -/
def TakenForDaylight (zone : SavingZone) (uninit : ℕ × ℕ) (pst : SystemTime) : Prop :=
  LiesBetween (zone.daylightDate.takenFor pst.wYear uninit.1)
    (zone.daylightDate.takenFor pst.wYear uninit.2) (zone.standardDate.takenFor pst.wYear uninit.2)
    pst.units

instance (zone : SavingZone) (uninit : ℕ × ℕ) (pst : SystemTime) :
    Decidable (zone.TakenForDaylight uninit pst) :=
  inferInstanceAs (Decidable (LiesBetween _ _ _ _))

/-- The offset is that of daylight saving time exactly for the times between the transitions. -/
def OffsetHolds (zone : SavingZone) (uninit : ℕ × ℕ) (dwRes : TimeZoneId) (pst : SystemTime) :
    Prop :=
  getLocalOffsetForDate uninit dwRes zone.toTimeZoneInformation pst =
    if zone.InDaylight pst then -(zone.bias + zone.daylightBias) else -zone.bias

end SavingZone

theorem compareFileTime_neg (ft₁ ft₂ : ℕ) : compareFileTime ft₁ ft₂ < 0 ↔ ft₁ < ft₂ := by
  unfold compareFileTime
  split_ifs <;> omega

theorem compareFileTime_pos (ft₁ ft₂ : ℕ) : compareFileTime ft₁ ft₂ > 0 ↔ ft₂ < ft₁ := by
  unfold compareFileTime
  split_ifs <;> omega

theorem RelativeDate.valid_on (date : RelativeDate) {wYear day : UInt16}
    (hyear : 1601 ≤ wYear.toNat ∧ wYear.toNat ≤ 30827)
    (hday : 1 ≤ day.toNat ∧ day.toNat ≤ daysInMonth wYear.toNat date.st.wMonth.toNat) :
    (date.on wYear day).Valid :=
  ⟨hyear, date.month, hday, date.clock⟩

/-- A transition is compared as the time that it is taken for. -/
theorem RelativeDate.fileTime_eq (date : RelativeDate) {wYear : UInt16}
    (hyear : 1601 ≤ wYear.toNat ∧ wYear.toNat ≤ 30827) (uninit : ℕ) :
    (systemTimeToFileTime (dayInMonthToAbsolute date.st wYear)).getD uninit =
      date.takenFor wYear uninit := by
  have hday := (date.isDay_iff (date.day wYear)).mpr rfl
  rw [dayInMonthToAbsolute_on date hyear.1, RelativeDate.takenFor]
  by_cases hregular : date.Regular wYear
  · rw [if_pos hregular, if_pos hregular,
      systemTimeToFileTime_of_valid (date.valid_on hyear ⟨hday.1, hday.2.1⟩), Option.getD_some,
      RelativeDate.transition]
  rw [if_neg hregular, if_neg hregular]
  have hbounds := daysInMonth_bounds wYear.toNat date.month.1 date.month.2
  have hle := hday.2.1
  have hnat : (date.day wYear + 7).toNat = (date.day wYear).toNat + 7 := by
    rw [UInt16.toNat_add, show (7 : UInt16).toNat = 7 from rfl]
    omega
  by_cases hfits : (date.day wYear).toNat + 7 ≤ daysInMonth wYear.toNat date.st.wMonth.toNat
  · rw [if_pos hfits, systemTimeToFileTime_of_valid (date.valid_on hyear ⟨by omega, by omega⟩),
      Option.getD_some]
  · have hinvalid : ¬(date.on wYear (date.day wYear + 7)).Valid := fun hvalid => by
      have hle' : (date.day wYear + 7).toNat ≤ _ := hvalid.2.2.1.2
      exact hfits (hnat ▸ hle')
    rw [if_neg hfits, systemTimeToFileTime, if_neg hinvalid, Option.getD_none]

theorem offset_eq (bias daylightBias : ℤ) (first daylight standard time : ℕ) :
    (if first < standard then
      if time < daylight ∨ standard < time then bias * -1 else (bias + daylightBias) * -1
    else if time < standard ∨ daylight < time then (bias + daylightBias) * -1 else bias * -1) =
      if SavingZone.LiesBetween first daylight standard time then -(bias + daylightBias)
      else -bias := by
  unfold SavingZone.LiesBetween
  split_ifs <;> omega

/-- The comparisons of the code tell whether the time lies between the transitions as they are taken
for. -/
theorem getLocalOffsetForDate_eq (zone : SavingZone) (uninit : ℕ × ℕ) {dwRes : TimeZoneId}
    {pst : SystemTime} (hres : dwRes = .standard ∨ dwRes = .daylight) (hpst : pst.Valid) :
    getLocalOffsetForDate uninit dwRes zone.toTimeZoneInformation pst =
      if zone.TakenForDaylight uninit pst then -(zone.bias + zone.daylightBias) else -zone.bias := by
  have hrun : getLocalOffsetForDate uninit dwRes zone.toTimeZoneInformation pst =
      getLocalOffsetForDate uninit .standard zone.toTimeZoneInformation pst := by
    rcases hres with rfl | rfl <;> rfl
  have hpst' : ∀ d, (systemTimeToFileTime pst).getD d = pst.units := fun d => by
    rw [systemTimeToFileTime_of_valid hpst, Option.getD_some]
  rw [hrun, getLocalOffsetForDate]
  simp only [SavingZone.toTimeZoneInformation, compareSystemTime, compareFileTime_neg,
    compareFileTime_pos, RelativeDate.fileTime_eq _ hpst.1, hpst']
  exact offset_eq zone.bias zone.daylightBias _ _ _ _

theorem offset_eq_iff (bias daylightBias : ℤ) (p q : Prop) [Decidable p] [Decidable q] :
    ((if p then -(bias + daylightBias) else -bias) =
      if q then -(bias + daylightBias) else -bias) ↔ daylightBias = 0 ∨ (p ↔ q) := by
  by_cases hp : p <;> by_cases hq : q
  · exact iff_of_true (by rw [if_pos hp, if_pos hq]) (Or.inr (iff_of_true hp hq))
  · rw [if_pos hp, if_neg hq, iff_false_right hq, or_iff_left (not_not_intro hp)]
    omega
  · rw [if_neg hp, if_pos hq, iff_true_right hq, or_iff_left hp]
    omega
  · exact iff_of_true (by rw [if_neg hp, if_neg hq]) (Or.inr (iff_of_false hp hq))

/-- Regular transitions are taken for what they are. -/
theorem SavingZone.takenForDaylight_of_regular (zone : SavingZone) (uninit : ℕ × ℕ)
    (pst : SystemTime)
    (h : zone.daylightDate.Regular pst.wYear ∧ zone.standardDate.Regular pst.wYear) :
    zone.TakenForDaylight uninit pst ↔ zone.InDaylight pst := by
  unfold TakenForDaylight InDaylight RelativeDate.takenFor
  simp only [if_pos h.1, if_pos h.2]

/-- A relative date becomes the day of the transition exactly when it is regular in the year. The
offset is that of daylight saving time exactly between the transitions if and only if the time lies
between them as well when those that are not regular come a week late, or the two offsets are one;
it is enough that both are regular. -/
theorem daylightSaving_iff (date : RelativeDate) (wYear : UInt16) (hyear : 1601 ≤ wYear.toNat)
    (zone : SavingZone) (uninit : ℕ × ℕ) (dwRes : TimeZoneId)
    (hres : dwRes = .standard ∨ dwRes = .daylight) (pst : SystemTime) (hpst : pst.Valid) :
    (∀ day, date.IsDay wYear day ↔ day = date.day wYear) ∧
      (date.Absolute wYear ↔ date.Regular wYear) ∧
      (zone.OffsetHolds uninit dwRes pst ↔ zone.daylightBias = 0 ∨
        (zone.TakenForDaylight uninit pst ↔ zone.InDaylight pst)) ∧
      (zone.daylightDate.Regular pst.wYear ∧ zone.standardDate.Regular pst.wYear →
        zone.OffsetHolds uninit dwRes pst) := by
  have hiff : zone.OffsetHolds uninit dwRes pst ↔ zone.daylightBias = 0 ∨
      (zone.TakenForDaylight uninit pst ↔ zone.InDaylight pst) := by
    rw [SavingZone.OffsetHolds, getLocalOffsetForDate_eq zone uninit hres hpst]
    exact offset_eq_iff _ _ _ _
  refine ⟨date.isDay_iff, absolute_iff date hyear, hiff, fun hregular => hiff.mpr ?_⟩
  exact Or.inr (zone.takenForDaylight_of_regular uninit pst hregular)

/-- In a time zone whose daylight saving time begins a week late in 2001, the offset is right at noon
of the fourth of July, and wrong at noon of the fourth of April. -/
theorem daylightSaving_2001 :
    let april : RelativeDate :=
      ⟨⟨0, 4, 0, 1, 2, 0, 0, 0⟩, by decide, by decide, by decide, by decide, by decide⟩
    let october : RelativeDate :=
      ⟨⟨0, 10, 0, 5, 2, 0, 0, 0⟩, by decide, by decide, by decide, by decide, by decide⟩
    let pacific := SavingZone.mk 480 october 0 april (-60)
    ¬april.Absolute 2001 ∧ pacific.OffsetHolds (0, 0) .daylight ⟨2001, 7, 0, 4, 12, 0, 0, 0⟩ ∧
      ¬pacific.OffsetHolds (0, 0) .daylight ⟨2001, 4, 0, 4, 12, 0, 0, 0⟩ := by
  intro april october pacific
  have hjuly := daylightSaving_iff april 2001 (by decide) pacific (0, 0) .daylight (Or.inr rfl)
    ⟨2001, 7, 0, 4, 12, 0, 0, 0⟩ (by decide)
  have happril := daylightSaving_iff april 2001 (by decide) pacific (0, 0) .daylight (Or.inr rfl)
    ⟨2001, 4, 0, 4, 12, 0, 0, 0⟩ (by decide)
  have hirregular : ¬april.Regular 2001 := by decide +kernel
  have hsummer : pacific.daylightBias = 0 ∨
      (pacific.TakenForDaylight (0, 0) ⟨2001, 7, 0, 4, 12, 0, 0, 0⟩ ↔
        pacific.InDaylight ⟨2001, 7, 0, 4, 12, 0, 0, 0⟩) := by decide +kernel
  have hspring : ¬(pacific.daylightBias = 0 ∨
      (pacific.TakenForDaylight (0, 0) ⟨2001, 4, 0, 4, 12, 0, 0, 0⟩ ↔
        pacific.InDaylight ⟨2001, 4, 0, 4, 12, 0, 0, 0⟩)) := by decide +kernel
  exact ⟨fun h => hirregular (hjuly.2.1.mp h), hjuly.2.2.1.mpr hsummer,
    fun h => hspring (happril.2.2.1.mp h)⟩

end NtAdmin.Wmi
