import NtAdmin.Wmi.Wbemcomn.SystemTime

/-! The broken-down time of a file time. -/
namespace NtAdmin.Wmi
open NtAdmin.Lib.Calendar

/-- The year of a day and the days before it in that year. -/
def splitYears : ℕ → ℕ → ℕ → ℕ × ℕ
  | 0, y, d => (y, d)
  | fuel + 1, y, d =>
    if d < daysInYear y then (y, d) else splitYears fuel (y + 1) (d - daysInYear y)

/-- The months that are over and the days of the next one. -/
def splitMonths : List ℕ → ℕ → ℕ × ℕ
  | [], d => (0, d)
  | n :: ns, d =>
    if d < n then (0, d)
    else
      let (m, d) := splitMonths ns (d - n)
      (m + 1, d)

/-- `FileTimeToSystemTime`. -/
def fileTimeToSystemTime (t : ℤ) : Option SystemTime :=
  if 0 ≤ t ∧ t < 2 ^ 63 then
    let milliseconds := t.toNat / 10000
    let day := milliseconds / 86400000
    let clock := milliseconds % 86400000
    let (year, d) := splitYears day 1601 day
    let (m, d) := splitMonths (monthLengths year) d
    some ⟨.ofNat year, .ofNat (m + 1), .ofNat ((1 + day) % 7), .ofNat (d + 1),
      .ofNat (clock / 3600000), .ofNat (clock / 60000 % 60), .ofNat (clock / 1000 % 60),
      .ofNat (clock % 1000)⟩
  else none

theorem splitYears_spec (fuel k d : ℕ) (hfuel : d ≤ fuel) :
    ∃ k' d', splitYears fuel (1601 + k) d = (1601 + k', d') ∧
      daysOfYears k' + d' = daysOfYears k + d ∧ d' < daysInYear (1601 + k') := by
  induction fuel generalizing k d with
  | zero =>
    obtain rfl : d = 0 := by omega
    refine ⟨k, 0, rfl, rfl, ?_⟩
    unfold daysInYear
    split_ifs <;> norm_num
  | succ fuel ih =>
    rw [splitYears]
    split_ifs with hlt
    · exact ⟨k, d, rfl, rfl, hlt⟩
    · have hpos : 0 < daysInYear (1601 + k) := by
        unfold daysInYear
        split_ifs <;> norm_num
      obtain ⟨k', d', hsplit, hsum, hlt'⟩ := ih (k + 1) (d - daysInYear (1601 + k)) (by omega)
      refine ⟨k', d', hsplit, ?_, hlt'⟩
      rw [hsum, daysOfYears]
      omega

theorem splitMonths_spec (lengths : List ℕ) (d : ℕ) (hd : d < lengths.sum) :
    (splitMonths lengths d).1 < lengths.length ∧
      (lengths.take (splitMonths lengths d).1).sum + (splitMonths lengths d).2 = d ∧
      (splitMonths lengths d).2 < lengths.getD (splitMonths lengths d).1 0 := by
  induction lengths generalizing d with
  | nil => nomatch hd
  | cons n ns ih =>
    rw [List.sum_cons] at hd
    rw [splitMonths]
    split_ifs with hlt
    · simpa using hlt
    · obtain ⟨hindex, hsum, hlt'⟩ := ih (d - n) (by omega)
      dsimp only
      rw [List.length_cons, List.take_succ_cons, List.sum_cons]
      refine ⟨by omega, by omega, hlt'⟩

theorem sum_monthLengths (y : ℕ) : (monthLengths y).sum = daysInYear y := by
  unfold monthLengths daysInYear
  split_ifs <;> rfl

theorem daysOfYears_mono {a b : ℕ} (h : a ≤ b) : daysOfYears a ≤ daysOfYears b := by
  induction h with
  | refl => exact le_rfl
  | step _ ih => exact ih.trans (Nat.le_add_right _ _)

/-- The days before the year 10000. -/
theorem daysOfYears_8399 : daysOfYears 8399 = 3067671 := by
  have h := daysOfYears_eq 8399
  omega

/-- The units of 100 nanoseconds before the year 10000. -/
def endOfYear9999 : ℤ := 3067671 * 864000000000

/-- The date of a day. -/
theorem splitDay_spec {day : ℕ} (h : day < 6135342) :
    ∃ k r m d, splitYears day 1601 day = (1601 + k, r) ∧
      splitMonths (monthLengths (1601 + k)) r = (m, d) ∧ k < 29000 ∧ m < 12 ∧
      d < daysInMonth (1601 + k) (m + 1) ∧ dayNumber (1601 + k) (m + 1) (d + 1) = day ∧
      (k < 8399 ↔ day < 3067671) := by
  obtain ⟨k, r, hyears, hsum, hlt⟩ := splitYears_spec day 0 day le_rfl
  rw [← sum_monthLengths] at hlt
  obtain ⟨hm, hdays, hd⟩ := splitMonths_spec (monthLengths (1601 + k)) r hlt
  rw [daysOfYears, Nat.zero_add] at hsum
  have hbound := daysOfYears_eq k
  generalize hmonths : splitMonths (monthLengths (1601 + k)) r = months at hm hdays hd
  obtain ⟨m, d⟩ := months
  refine ⟨k, r, m, d, hyears, hmonths, by omega, hm, ?_, ?_, ?_⟩
  · rw [daysInMonth, Nat.add_sub_cancel]
    exact hd
  · rw [dayNumber, daysBeforeMonth, Nat.add_sub_cancel, Nat.add_sub_cancel, Nat.add_sub_cancel_left,
      Nat.add_assoc, hdays, hsum]
  · rw [← daysOfYears_8399]
    constructor
    · intro hk
      have hmono := daysOfYears_mono (show k + 1 ≤ 8399 by omega)
      rw [sum_monthLengths] at hlt
      rw [daysOfYears] at hmono
      omega
    · intro hday
      by_contra hk
      have hmono := daysOfYears_mono (show 8399 ≤ k by omega)
      omega

/-- A file time is converted to the time of its milliseconds, with its year. -/
theorem fileTimeToSystemTime_spec {t : ℤ} (h : 0 ≤ t) (h' : t < 2 * endOfYear9999) :
    ∃ st, fileTimeToSystemTime t = some st ∧ st.Valid ∧ (st.units : ℤ) = t / 10000 * 10000 ∧
      st.wMilliseconds.toNat = t.toNat / 10000 % 1000 ∧
      (st.wYear.toNat < 10000 ↔ t < endOfYear9999) := by
  unfold endOfYear9999 at *
  have hrange : 0 ≤ t ∧ t < 2 ^ 63 := by omega
  generalize hms : t.toNat / 10000 = milliseconds
  have hday : milliseconds / 86400000 < 6135342 := by omega
  obtain ⟨k, r, m, d, hyears, hmonths, hk, hm, hd, hnumber, hyear⟩ := splitDay_spec hday
  have hlength := (daysInMonth_bounds (1601 + k) (show 1 ≤ m + 1 by omega) (by omega)).2
  generalize hclock : milliseconds % 86400000 = clock
  have hlt : clock < 86400000 := hclock ▸ Nat.mod_lt _ (by norm_num)
  have hst : fileTimeToSystemTime t = some ⟨.ofNat (1601 + k), .ofNat (m + 1),
      .ofNat ((1 + milliseconds / 86400000) % 7), .ofNat (d + 1), .ofNat (clock / 3600000),
      .ofNat (clock / 60000 % 60), .ofNat (clock / 1000 % 60), .ofNat (clock % 1000)⟩ := by
    rw [fileTimeToSystemTime, if_pos hrange]
    simp only [hms, hyears, hmonths, hclock]
  have hnat {n : ℕ} (hn : n < 65536) : (UInt16.ofNat n).toNat = n := by
    rw [UInt16.toNat_ofNat']
    exact Nat.mod_eq_of_lt hn
  refine ⟨_, hst, ?_, ?_, ?_, ?_⟩
  · simp only [SystemTime.Valid, SystemTime.ValidClock]
    rw [hnat (by omega), hnat (by omega), hnat (by omega), hnat (by omega), hnat (by omega),
      hnat (by omega), hnat (by omega)]
    omega
  · simp only [SystemTime.units, SystemTime.clock]
    rw [hnat (by omega), hnat (by omega), hnat (by omega), hnat (by omega), hnat (by omega),
      hnat (by omega), hnat (by omega), hnumber]
    omega
  · dsimp only
    rw [hnat (by omega)]
    omega
  · dsimp only
    rw [hnat (by omega)]
    omega

theorem fileTimeToSystemTime_neg {t : ℤ} (h : t < 0) : fileTimeToSystemTime t = none :=
  if_neg fun h' => absurd h'.1 (by omega)

end NtAdmin.Wmi
