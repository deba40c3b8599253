import Mathlib.Data.Nat.Bitwise
import NtAdmin.Sched.Job.MonthlyDateSearch

/-! Which masks of a monthly trigger the check lets through. -/
namespace NtAdmin.Sched.Job
open Common

variable {rgfDays : BitVec 32} {rgfMonths : BitVec 16}

/-- The array of the search, from zero on. -/
def daysOfMonth (rgfDays : BitVec 32) (i : ℕ) : Bool := rgfDays.getLsbD i

def runMonths (rgfMonths : BitVec 16) (i : ℕ) : Bool := rgfMonths.getLsbD i

/-- The day and the month count from one. -/
def HasDayBit (rgfDays : BitVec 32) (d : ℕ) : Prop := 1 ≤ d ∧ rgfDays.getLsbD (d - 1) = true

def HasMonthBit (rgfMonths : BitVec 16) (m : ℕ) : Prop := 1 ≤ m ∧ rgfMonths.getLsbD (m - 1) = true

/-- Only bits of days and months are used. -/
def OnlyDefinedBits (rgfDays : BitVec 32) (rgfMonths : BitVec 16) : Prop :=
  (∀ d, HasDayBit rgfDays d → d ≤ 31) ∧ ∀ m, HasMonthBit rgfMonths m → m ≤ 12

/-- One of the dates is a date in some year. -/
def SelectsDate (rgfDays : BitVec 32) (rgfMonths : BitVec 16) : Prop :=
  ∃ m d y, HasMonthBit rgfMonths m ∧ HasDayBit rgfDays d ∧ isValidDate m d y = true

/-! ### Bits -/

theorem and_ne_zero_iff {n : ℕ} (x y : BitVec n) :
    x &&& y ≠ 0 ↔ ∃ i < n, x.getLsbD i = true ∧ y.getLsbD i = true := by
  constructor
  · intro h
    by_contra hnone
    push Not at hnone
    refine h (BitVec.eq_of_getLsbD_eq fun i hi => ?_)
    rw [BitVec.getLsbD_and]
    by_cases hx : x.getLsbD i = true
    · have hy := hnone i hi hx
      simp [hy]
    · simp [hx]
  · rintro ⟨i, hi, hx, hy⟩ hzero
    have hbit := congrArg (fun z => z.getLsbD i) hzero
    simp [hx, hy] at hbit

theorem ne_zero_iff {n : ℕ} (x : BitVec n) : x ≠ 0 ↔ ∃ i < n, x.getLsbD i = true := by
  constructor
  · intro h
    by_contra hnone
    push Not at hnone
    refine h (BitVec.eq_of_getLsbD_eq fun i hi => ?_)
    have hx := hnone i hi
    simp [hx]
  · rintro ⟨i, hi, hx⟩ rfl
    simp at hx

theorem toNat_le_iff {n k : ℕ} (x : BitVec n) :
    x.toNat ≤ 2 ^ k - 1 ↔ ∀ i, x.getLsbD i = true → i < k := by
  have hpos : 0 < 2 ^ k := Nat.two_pow_pos k
  constructor
  · intro h i hi
    by_contra hge
    have hlt : x.toNat < 2 ^ i :=
      lt_of_lt_of_le (by omega) (Nat.pow_le_pow_right (by decide) (not_lt.mp hge))
    have hbit : x.toNat.testBit i = false := Nat.testBit_lt_two_pow hlt
    rw [BitVec.testBit_toNat, hi] at hbit
    exact absurd hbit (by decide)
  · intro h
    have hlt : x.toNat < 2 ^ k := Nat.lt_pow_two_of_testBit _ fun i hi => by
      rw [BitVec.testBit_toNat]
      by_contra hbit
      exact absurd (h i (by simpa using hbit)) (by omega)
    omega

theorem exists_hasDayBit : (∃ d, HasDayBit rgfDays d) ↔ rgfDays ≠ 0 := by
  rw [ne_zero_iff]
  constructor
  · rintro ⟨d, -, hbit⟩
    exact ⟨d - 1, BitVec.lt_of_getLsbD hbit, hbit⟩
  · rintro ⟨i, -, hbit⟩
    exact ⟨i + 1, Nat.succ_pos i, hbit⟩

theorem exists_hasMonthBit : (∃ m, HasMonthBit rgfMonths m) ↔ rgfMonths ≠ 0 := by
  rw [ne_zero_iff]
  constructor
  · rintro ⟨m, -, hbit⟩
    exact ⟨m - 1, BitVec.lt_of_getLsbD hbit, hbit⟩
  · rintro ⟨i, -, hbit⟩
    exact ⟨i + 1, Nat.succ_pos i, hbit⟩

theorem onlyDefinedBits_iff : OnlyDefinedBits rgfDays rgfMonths ↔
    rgfDays.toNat ≤ 0x7fffffff ∧ rgfMonths.toNat ≤ 0xfff := by
  have hdays := toNat_le_iff (k := 31) rgfDays
  have hmonths := toNat_le_iff (k := 12) rgfMonths
  rw [show (2 : ℕ) ^ 31 - 1 = 0x7fffffff from rfl] at hdays
  rw [show (2 : ℕ) ^ 12 - 1 = 0xfff from rfl] at hmonths
  rw [hdays, hmonths]
  refine and_congr ?_ ?_
  · exact ⟨fun h i hi => h (i + 1) ⟨Nat.succ_pos i, hi⟩,
      fun h d hd => Nat.le_of_pred_lt (h (d - 1) hd.2)⟩
  · exact ⟨fun h i hi => h (i + 1) ⟨Nat.succ_pos i, hi⟩,
      fun h m hm => Nat.le_of_pred_lt (h (m - 1) hm.2)⟩

/-- The only months are ones without a 31st. -/
def OnlyShortMonths (rgfMonths : BitVec 16) : Prop :=
  ∀ m, HasMonthBit rgfMonths m → m = 2 ∨ m = 4 ∨ m = 6 ∨ m = 9 ∨ m = 11

def OnlyFebruary (rgfMonths : BitVec 16) : Prop := ∀ m, HasMonthBit rgfMonths m → m = 2

theorem and_day (i : ℕ) (hi : i < 32) :
    rgfDays &&& BitVec.twoPow 32 i ≠ 0 ↔ HasDayBit rgfDays (i + 1) := by
  rw [and_ne_zero_iff]
  constructor
  · rintro ⟨k, hk, hbit, hpow⟩
    rw [BitVec.getLsbD_twoPow] at hpow
    have heq : i = k := of_decide_eq_true (Bool.and_eq_true _ _ ▸ hpow).2
    exact ⟨Nat.succ_pos i, heq ▸ hbit⟩
  · rintro ⟨-, hbit⟩
    exact ⟨i, hi, hbit, by simp [hi]⟩

theorem shortMonths_bit : ∀ i < 16, shortMonths.getLsbD i = true ↔
    i + 1 = 2 ∨ i + 1 = 4 ∨ i + 1 = 6 ∨ i + 1 = 9 ∨ i + 1 = 11 := by
  decide

theorem february_bit : ∀ i < 16, TASK_FEBRUARY.getLsbD i = true ↔ i + 1 = 2 := by
  decide

/-- All months are in a mask. -/
theorem and_not_eq_zero_iff {mask : BitVec 16} {P : ℕ → Prop}
    (hmask : ∀ i < 16, mask.getLsbD i = true ↔ P (i + 1)) :
    rgfMonths &&& ~~~mask = 0 ↔ ∀ m, HasMonthBit rgfMonths m → P m := by
  rw [← not_iff_not, ← ne_eq, and_ne_zero_iff]
  push Not
  constructor
  · rintro ⟨i, hi, hbit, hnot⟩
    refine ⟨i + 1, ⟨Nat.succ_pos i, hbit⟩, fun hP => ?_⟩
    have hset := (hmask i hi).mpr hP
    simp [hset] at hnot
  · rintro ⟨m, ⟨hm, hbit⟩, hnot⟩
    have hlt := BitVec.lt_of_getLsbD hbit
    refine ⟨m - 1, hlt, hbit, ?_⟩
    have hclear : ¬mask.getLsbD (m - 1) = true := by
      rw [hmask _ hlt, Nat.sub_add_cancel hm]
      exact hnot
    rw [BitVec.getLsbD_not, Bool.eq_false_of_not_eq_true hclear]
    simp [hlt]

/-- Then one of them is, if there are any. -/
theorem and_ne_zero_of_not {mask : BitVec 16} (h : rgfMonths ≠ 0)
    (hnot : rgfMonths &&& ~~~mask = 0) : rgfMonths &&& mask ≠ 0 := by
  rw [ne_zero_iff] at h
  obtain ⟨i, hi, hbit⟩ := h
  rw [and_ne_zero_iff]
  refine ⟨i, hi, hbit, ?_⟩
  have hzero := congrArg (fun z => z.getLsbD i) hnot
  simpa [hbit, hi] using hzero

/-! ### The check -/

theorem isValidMonthlyDateTrigger_iff : isValidMonthlyDateTrigger rgfDays rgfMonths = true ↔
    OnlyDefinedBits rgfDays rgfMonths ∧ (∃ d, HasDayBit rgfDays d) ∧
      (∃ m, HasMonthBit rgfMonths m) ∧ ¬(HasDayBit rgfDays 31 ∧ OnlyShortMonths rgfMonths) ∧
      ¬(HasDayBit rgfDays 30 ∧ OnlyFebruary rgfMonths) := by
  have h31 : rgfDays &&& 0x40000000 ≠ 0 ↔ HasDayBit rgfDays 31 := and_day 30 (by decide)
  have h30 : rgfDays &&& 0x20000000 ≠ 0 ↔ HasDayBit rgfDays 30 := and_day 29 (by decide)
  have hshort : rgfMonths &&& ~~~shortMonths = 0 ↔ OnlyShortMonths rgfMonths :=
    and_not_eq_zero_iff shortMonths_bit
  have hfebruary : rgfMonths &&& ~~~TASK_FEBRUARY = 0 ↔ OnlyFebruary rgfMonths :=
    and_not_eq_zero_iff february_bit
  rw [onlyDefinedBits_iff, exists_hasDayBit, exists_hasMonthBit, ← h31, ← h30, ← hshort,
    ← hfebruary]
  unfold isValidMonthlyDateTrigger
  split_ifs with hrange hdays hrule31 hrule30
  · refine iff_of_false not_false fun h => ?_
    rcases hrange with hlarge | hzero | hlarge
    · omega
    · exact h.2.2.1 hzero
    · omega
  · exact iff_of_false not_false fun h => h.2.1 hdays
  · exact iff_of_false not_false fun h => h.2.2.2.1 ⟨hrule31.1, hrule31.2.2⟩
  · exact iff_of_false not_false fun h => h.2.2.2.2 ⟨hrule30.1, hrule30.2.2⟩
  · push Not at hrange
    refine iff_of_true rfl ⟨⟨hrange.1, hrange.2.2⟩, hdays, hrange.2.1, fun h => ?_, fun h => ?_⟩
    · exact hrule31 ⟨h.1, and_ne_zero_of_not hrange.2.1 h.2, h.2⟩
    · exact hrule30 ⟨h.1, and_ne_zero_of_not hrange.2.1 h.2, h.2⟩

theorem longest_cases {m : ℕ} (hlow : 1 ≤ m) (hhigh : m ≤ 12) :
    29 ≤ longest m ∧ (m ≠ 2 → 30 ≤ longest m) ∧
      (¬(m = 2 ∨ m = 4 ∨ m = 6 ∨ m = 9 ∨ m = 11) → 31 ≤ longest m) ∧
      (m = 2 → longest m = 29) ∧ (m = 2 ∨ m = 4 ∨ m = 6 ∨ m = 9 ∨ m = 11 → longest m ≤ 30) := by
  have hall : ∀ m ∈ List.range 13, 1 ≤ m → 29 ≤ longest m ∧ (m ≠ 2 → 30 ≤ longest m) ∧
      (¬(m = 2 ∨ m = 4 ∨ m = 6 ∨ m = 9 ∨ m = 11) → 31 ≤ longest m) ∧
      (m = 2 → longest m = 29) ∧
      (m = 2 ∨ m = 4 ∨ m = 6 ∨ m = 9 ∨ m = 11 → longest m ≤ 30) := by
    decide
  exact hall m (List.mem_range.mpr (by omega)) hlow

theorem selectsDate_of_longest (hbits : OnlyDefinedBits rgfDays rgfMonths) {m d : ℕ}
    (hm : HasMonthBit rgfMonths m) (hd : HasDayBit rgfDays d) (hle : d ≤ longest m) :
    SelectsDate rgfDays rgfMonths :=
  ⟨m, d, 4, hm, hd, isValidDate_of_longest hm.1 (hbits.2 m hm) hd.1 hle⟩

/-- What is let through selects a date. -/
theorem selectsDate_of_isValid (h : isValidMonthlyDateTrigger rgfDays rgfMonths = true) :
    OnlyDefinedBits rgfDays rgfMonths ∧ SelectsDate rgfDays rgfMonths := by
  obtain ⟨hbits, ⟨d, hd⟩, ⟨m, hm⟩, h31, h30⟩ := isValidMonthlyDateTrigger_iff.mp h
  refine ⟨hbits, ?_⟩
  have hle := hbits.1 d hd
  rcases show d ≤ 29 ∨ d = 30 ∨ d = 31 by omega with hd29 | rfl | rfl
  · exact selectsDate_of_longest hbits hm hd
      (hd29.trans (longest_cases hm.1 (hbits.2 m hm)).1)
  · have hother : ¬OnlyFebruary rgfMonths := fun hfeb => h30 ⟨hd, hfeb⟩
    unfold OnlyFebruary at hother
    push Not at hother
    obtain ⟨m', hm', hne⟩ := hother
    exact selectsDate_of_longest hbits hm' hd ((longest_cases hm'.1 (hbits.2 m' hm')).2.1 hne)
  · have hother : ¬OnlyShortMonths rgfMonths := fun hshort => h31 ⟨hd, hshort⟩
    unfold OnlyShortMonths at hother
    rw [not_forall] at hother
    obtain ⟨m', hm'⟩ := hother
    rw [Classical.not_imp] at hm'
    exact selectsDate_of_longest hbits hm'.1 hd
      ((longest_cases hm'.1.1 (hbits.2 m' hm'.1)).2.2.1 hm'.2)

/-- The masks that are turned down although they select a date: one that no selected month has is
selected too, besides one that a selected month has. -/
def TurnedDown (rgfDays : BitVec 32) (rgfMonths : BitVec 16) : Prop :=
  OnlyDefinedBits rgfDays rgfMonths ∧ (∃ m, HasMonthBit rgfMonths m) ∧
    (HasDayBit rgfDays 31 ∧ OnlyShortMonths rgfMonths ∧
        ((∃ d ≤ 29, HasDayBit rgfDays d) ∨
          HasDayBit rgfDays 30 ∧ ∃ m, HasMonthBit rgfMonths m ∧ m ≠ 2) ∨
      HasDayBit rgfDays 30 ∧ OnlyFebruary rgfMonths ∧ ∃ d ≤ 29, HasDayBit rgfDays d)

theorem turnedDown_iff : TurnedDown rgfDays rgfMonths ↔
    OnlyDefinedBits rgfDays rgfMonths ∧ SelectsDate rgfDays rgfMonths ∧
      isValidMonthlyDateTrigger rgfDays rgfMonths ≠ true := by
  rw [ne_eq, isValidMonthlyDateTrigger_iff]
  constructor
  · rintro ⟨hbits, ⟨m, hm⟩, hrule⟩
    have hlong := fun {m} (hm : HasMonthBit rgfMonths m) => longest_cases hm.1 (hbits.2 m hm)
    refine ⟨hbits, ?_, ?_⟩
    · rcases hrule with ⟨-, -, ⟨d, hle, hd⟩ | ⟨hd, m', hm', hne⟩⟩ | ⟨-, -, d, hle, hd⟩
      · exact selectsDate_of_longest hbits hm hd (hle.trans (hlong hm).1)
      · exact selectsDate_of_longest hbits hm' hd ((hlong hm').2.1 hne)
      · exact selectsDate_of_longest hbits hm hd (hle.trans (hlong hm).1)
    · rintro ⟨-, -, -, h31, h30⟩
      rcases hrule with ⟨hd, hshort, -⟩ | ⟨hd, hfeb, -⟩
      · exact h31 ⟨hd, hshort⟩
      · exact h30 ⟨hd, hfeb⟩
  · rintro ⟨hbits, ⟨m, d, y, hm, hd, hvalid⟩, hnot⟩
    obtain ⟨-, hm12, -, hle⟩ := isValidDate_longest hvalid
    obtain ⟨-, -, -, hfebLong, hshortLong⟩ := longest_cases hm.1 hm12
    refine ⟨hbits, ⟨m, hm⟩, ?_⟩
    by_cases h31 : HasDayBit rgfDays 31 ∧ OnlyShortMonths rgfMonths
    · have hd30 := hle.trans (hshortLong (h31.2 m hm))
      refine Or.inl ⟨h31.1, h31.2, ?_⟩
      rcases show d ≤ 29 ∨ d = 30 by omega with hd29 | rfl
      · exact Or.inl ⟨d, hd29, hd⟩
      · refine Or.inr ⟨hd, m, hm, fun htwo => ?_⟩
        have := hfebLong htwo
        omega
    · have h30 : HasDayBit rgfDays 30 ∧ OnlyFebruary rgfMonths := by
        by_contra h30
        exact hnot ⟨hbits, ⟨d, hd⟩, ⟨m, hm⟩, h31, h30⟩
      exact Or.inr ⟨h30.1, h30.2, d, hle.trans (hfebLong (h30.2 m hm)).le, hd⟩

/-! ### The check and the search -/

/-- The check lets through what selects a date, and the search ends for what it lets through, from
every date of a `WORD` year. -/
structure CheckMeetsSearch (rgfDays : BitVec 32) (rgfMonths : BitVec 16) : Prop where
  check : isValidMonthlyDateTrigger rgfDays rgfMonths = true ↔
    OnlyDefinedBits rgfDays rgfMonths ∧ SelectsDate rgfDays rgfMonths
  search : isValidMonthlyDateTrigger rgfDays rgfMonths = true →
    ∀ wBeginMonth wBeginDay wBeginYear garbage, wBeginYear < 2 ^ 16 →
      isValidDate wBeginMonth wBeginDay wBeginYear = true →
      Ends (daysOfMonth rgfDays) (runMonths rgfMonths)
        (firstSearch wBeginMonth wBeginDay wBeginYear garbage)

theorem checkMeetsSearch_iff (rgfDays : BitVec 32) (rgfMonths : BitVec 16) :
    CheckMeetsSearch rgfDays rgfMonths ↔ ¬TurnedDown rgfDays rgfMonths := by
  rw [turnedDown_iff]
  constructor
  · rintro ⟨hcheck, -⟩ ⟨hbits, hdate, hnot⟩
    exact hnot (hcheck.mpr ⟨hbits, hdate⟩)
  · intro h
    refine ⟨⟨selectsDate_of_isValid, fun hdate => ?_⟩, fun hvalid => ?_⟩
    · by_contra hnot
      exact h ⟨hdate.1, hdate.2, hnot⟩
    · intro wBeginMonth wBeginDay wBeginYear garbage hyear hbegin
      obtain ⟨hlow, hhigh, -, -⟩ := isValidDate_longest hbegin
      obtain ⟨-, m, d, y, hm, hd, hdate⟩ := selectsDate_of_isValid hvalid
      exact dateSearch_ends hlow hhigh wBeginDay wBeginYear garbage hyear
        ⟨m, d, y, hm.2, hd.2, hdate⟩

/-- The first and the 31st of April. -/
theorem not_checkMeetsSearch :
    ¬∀ (rgfDays : BitVec 32) (rgfMonths : BitVec 16), CheckMeetsSearch rgfDays rgfMonths := by
  intro h
  have hdate : SelectsDate 0x40000001 TASK_APRIL :=
    ⟨4, 1, 4, ⟨by decide, by decide⟩, ⟨by decide, by decide⟩, by decide⟩
  have hbits : OnlyDefinedBits 0x40000001 TASK_APRIL :=
    onlyDefinedBits_iff.mpr ⟨by decide, by decide⟩
  exact absurd ((h 0x40000001 TASK_APRIL).check.mpr ⟨hbits, hdate⟩) (by decide)

end NtAdmin.Sched.Job
