import Mathlib.Data.Int.CardIntervalMod
import Mathlib.Data.Nat.Count

/-! The proleptic Gregorian calendar from the year 1601 on, by the number of a day since the first of
that year. -/
namespace NtAdmin.Lib.Calendar

def IsLeap (y : ℕ) : Prop := y % 400 = 0 ∨ y % 4 = 0 ∧ y % 100 ≠ 0

instance : DecidablePred IsLeap := fun _ => inferInstanceAs (Decidable (_ ∨ _))

def daysInYear (y : ℕ) : ℕ := if IsLeap y then 366 else 365

def monthLengths (y : ℕ) : List ℕ :=
  [31, if IsLeap y then 29 else 28, 31, 30, 31, 30, 31, 31, 30, 31, 30, 31]

def daysInMonth (y m : ℕ) : ℕ := (monthLengths y).getD (m - 1) 0

def daysBeforeMonth (y m : ℕ) : ℕ := ((monthLengths y).take (m - 1)).sum

/-- The days of the first `n` years. -/
def daysOfYears : ℕ → ℕ
  | 0 => 0
  | n + 1 => daysOfYears n + daysInYear (1601 + n)

def dayNumber (y m d : ℕ) : ℕ := daysOfYears (y - 1601) + daysBeforeMonth y m + (d - 1)

/-- The day of the week, 0 for Sunday. The first of January 1601 was a Monday. -/
def weekday (y m d : ℕ) : ℕ := (1 + dayNumber y m d) % 7

/-- `d` is the day of the month on which the weekday `w` comes for the `k`-th time, or for the last
time if `k` is 5. -/
def IsOccurrence (y m w k d : ℕ) : Prop :=
  1 ≤ d ∧ d ≤ daysInMonth y m ∧ weekday y m d = w ∧
    if k = 5 then ∀ d', d < d' → d' ≤ daysInMonth y m → weekday y m d' ≠ w
    else Nat.count (fun j => weekday y m (j + 1) = w) (d - 1) + 1 = k

/-- The leap days are counted from the years alone. -/
theorem daysOfYears_eq (n : ℕ) : daysOfYears n + n / 100 = n * 365 + n / 4 + n / 400 := by
  induction n with
  | zero => rfl
  | succ n ih =>
    have hleap : IsLeap (1601 + n) ↔ 400 ∣ n + 1 ∨ 4 ∣ n + 1 ∧ ¬100 ∣ n + 1 := by
      unfold IsLeap
      omega
    have h100 : 400 ∣ n + 1 → 100 ∣ n + 1 := Nat.dvd_trans (by decide)
    have h4 : 100 ∣ n + 1 → 4 ∣ n + 1 := Nat.dvd_trans (by decide)
    rw [daysOfYears, daysInYear, Nat.succ_div, Nat.succ_div, Nat.succ_div]
    generalize n / 100 = a at ih ⊢
    generalize n / 4 = b at ih ⊢
    generalize n / 400 = c at ih ⊢
    by_cases d4 : 4 ∣ n + 1 <;> by_cases d100 : 100 ∣ n + 1 <;> by_cases d400 : 400 ∣ n + 1 <;>
      simp only [hleap, d4, d100, d400, not_true, not_false_iff, and_true, and_false, or_true,
        or_false, if_true, if_false, or_self] at h100 h4 ⊢ <;> omega

theorem weekday_eq (y m d : ℕ) :
    weekday y m d = (weekday y m 1 + (d - 1)) % 7 := by
  unfold weekday dayNumber
  omega

/-- The weekdays of a month come in the order of the week. -/
theorem count_weekday (y m : ℕ) {w j : ℕ} (hw : w < 7) (hj : weekday y m (j + 1) = w) :
    Nat.count (fun i => weekday y m (i + 1) = w) j = j / 7 := by
  have hf : weekday y m 1 < 7 := Nat.mod_lt _ (by norm_num)
  have hmod : (fun i => weekday y m (i + 1) = w) = fun i => i ≡ j [MOD 7] := by
    funext i
    rw [weekday_eq]
    rw [weekday_eq] at hj
    simp only [Nat.ModEq, Nat.add_sub_cancel] at hj ⊢
    apply propext
    omega
  have hcount := Nat.count_modEq_card (r := 7) j (by norm_num) j
  simp only [lt_irrefl, if_false, Nat.add_zero] at hcount
  simpa only [hmod] using hcount

theorem weekday_lt (y m d : ℕ) : weekday y m d < 7 := Nat.mod_lt _ (by norm_num)

/-- The occurrence in terms of the weekday of the first of the month. -/
theorem isOccurrence_iff {y m w k d : ℕ} (hw : w < 7) (hd : 1 ≤ d) :
    IsOccurrence y m w k d ↔ d ≤ daysInMonth y m ∧ (weekday y m 1 + (d - 1)) % 7 = w ∧
      if k = 5 then daysInMonth y m < d + 7 else (d - 1) / 7 + 1 = k := by
  rw [IsOccurrence, and_iff_right hd, weekday_eq y m d]
  apply and_congr_right
  intro hle
  apply and_congr_right
  intro hday
  split_ifs
  · constructor
    · intro hlast
      by_contra hlt
      have hnext := hlast (d + 7) (by omega) (by omega)
      rw [weekday_eq] at hnext
      omega
    · intro hlt d' hd' hle'
      rw [weekday_eq]
      omega
  · have hd' : weekday y m (d - 1 + 1) = w := by
      rw [weekday_eq, Nat.add_sub_cancel]
      exact hday
    rw [count_weekday y m hw hd']

theorem length_monthLengths (y : ℕ) : (monthLengths y).length = 12 := rfl

theorem daysBeforeMonth_succ {m : ℕ} (y : ℕ) (hm : 1 ≤ m) (hm' : m ≤ 12) :
    daysBeforeMonth y (m + 1) = daysBeforeMonth y m + daysInMonth y m := by
  obtain ⟨i, rfl⟩ : ∃ i, m = i + 1 := ⟨m - 1, by omega⟩
  have hi : i < (monthLengths y).length := by
    rw [length_monthLengths]
    omega
  rw [daysBeforeMonth, daysBeforeMonth, daysInMonth, Nat.add_sub_cancel, Nat.add_sub_cancel,
    List.take_add_one, List.sum_append, List.getD_eq_getElem?_getD, List.getElem?_eq_getElem hi]
  rfl

theorem daysInMonth_bounds {m : ℕ} (y : ℕ) (hm : 1 ≤ m) (hm' : m ≤ 12) :
    28 ≤ daysInMonth y m ∧ daysInMonth y m ≤ 31 := by
  have hi : m - 1 < (monthLengths y).length := by
    rw [length_monthLengths]
    omega
  have hall : ∀ n ∈ monthLengths y, 28 ≤ n ∧ n ≤ 31 := by
    unfold monthLengths
    split_ifs <;> decide
  have hmem : daysInMonth y m ∈ monthLengths y := by
    rw [daysInMonth, List.getD_eq_getElem?_getD, List.getElem?_eq_getElem hi]
    exact List.getElem_mem hi
  exact hall _ hmem

end NtAdmin.Lib.Calendar
