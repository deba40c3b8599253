import NtAdmin.Sched.Schedule.AtTriggers

/-! A job that runs once has its run within a day, until then. -/
namespace NtAdmin.Sched.Schedule
open Common

variable {At : AT_INFO} {stNow stRead run : SYSTEMTIME} {t : TASK_TRIGGER}

/-! ### The run and the next day -/

/-- A run on the day of the reading. -/
theorem earlier_incrementDay_same (hread : stRead.Valid) (hyear : run.wYear = stRead.wYear)
    (hmonth : run.wMonth = stRead.wMonth) (hday : run.wDay = stRead.wDay) :
    isFirstTimeEarlier run (incrementDay stRead) = true := by
  obtain ⟨n, hn, -, hhigh⟩ := hread.date
  have hnext := incrementDay_date hn hhigh
  unfold isFirstTimeEarlier
  rw [decide_eq_true_eq]
  omega

/-- A later run today. -/
theorem earlier_incrementDay_today (hread : stRead.Valid)
    (hafter : isFirstTimeEarlier stRead stNow = false)
    (hpending : isFirstTimeEarlier run stRead = false)
    (hdate : run.wYear = stNow.wYear ∧ run.wMonth = stNow.wMonth ∧ run.wDay = stNow.wDay) :
    isFirstTimeEarlier run (incrementDay stRead) = true := by
  obtain ⟨hyear, hmonth, hday⟩ := hdate
  unfold isFirstTimeEarlier at hafter hpending
  rw [decide_eq_false_iff_not] at hafter hpending
  have hyear' : run.wYear = stRead.wYear := by omega
  have hmonth' : run.wMonth = stRead.wMonth := by omega
  exact earlier_incrementDay_same hread hyear' hmonth' (by omega)

/-- The run on the next day, read today. -/
theorem earlier_incrementDay_next {stStart : SYSTEMTIME} (hread : stRead.Valid)
    (hyear : stStart.wYear = stRead.wYear) (hmonth : stStart.wMonth = stRead.wMonth)
    (hday : stStart.wDay = stRead.wDay) (htime : stStart.timeOfDay < stRead.timeOfDay) :
    isFirstTimeEarlier (incrementDay stStart) (incrementDay stRead) = true := by
  obtain ⟨n, hn, -, hhigh⟩ := hread.date
  have hstart := @incrementDay_date stStart n (by rw [hyear, hmonth, hn]) (by omega)
  have hnext := incrementDay_date hn hhigh
  have hsame : (incrementDay stStart).wYear = (incrementDay stRead).wYear ∧
      (incrementDay stStart).wMonth = (incrementDay stRead).wMonth ∧
      (incrementDay stStart).wDay = (incrementDay stRead).wDay := by
    omega
  rw [← incrementDay_timeOfDay stStart, ← incrementDay_timeOfDay stRead] at htime
  exact decide_eq_true (Or.inr ⟨hsame.1, Or.inr ⟨hsame.2.1, Or.inr ⟨hsame.2.2, htime⟩⟩⟩)

/-- A reading on the day of the creation is later than the job's time. -/
theorem timeOfDay_lt {t : ℕ} (hafter : isFirstTimeEarlier stRead stNow = false)
    (hyear : stNow.wYear = stRead.wYear) (hmonth : stNow.wMonth = stRead.wMonth)
    (hday : stNow.wDay = stRead.wDay) (htime : t ≤ stNow.timeOfDay)
    (hlater : isFirstTimeEarlier stNow stRead = true ∨ stNow.timeOfDay ≠ t) :
    t < stRead.timeOfDay := by
  unfold isFirstTimeEarlier at hafter hlater
  rw [decide_eq_false_iff_not] at hafter
  rw [decide_eq_true_eq] at hlater
  omega

/-- A run on the next day. -/
theorem earlier_incrementDay_tomorrow {stStart : SYSTEMTIME} (hnow : stNow.Valid)
    (hread : stRead.Valid) (hafter : isFirstTimeEarlier stRead stNow = false)
    (hpending : isFirstTimeEarlier (incrementDay stStart) stRead = false)
    (hdate : stStart.wYear = stNow.wYear ∧ stStart.wMonth = stNow.wMonth ∧
      stStart.wDay = stNow.wDay)
    (htime : stStart.timeOfDay ≤ stNow.timeOfDay)
    (hlater : isFirstTimeEarlier stNow stRead = true ∨ stNow.timeOfDay ≠ stStart.timeOfDay) :
    isFirstTimeEarlier (incrementDay stStart) (incrementDay stRead) = true := by
  obtain ⟨n, hn, hlow, hhigh⟩ := hnow.date
  obtain ⟨n', hn', hlow', hhigh'⟩ := hread.date
  obtain ⟨hyear, hmonth, hday⟩ := hdate
  obtain ⟨hjan, hdec, -, -⟩ := monthDays_some hn
  obtain ⟨hjan', hdec', -, -⟩ := monthDays_some hn'
  have hstart := @incrementDay_date stStart n (by rw [hyear, hmonth, hn]) (by omega)
  have hsame : stRead.wYear = stNow.wYear ∧ stRead.wMonth = stNow.wMonth → n' = n := by
    rintro ⟨hy, hm⟩
    rw [hy, hm, hn] at hn'
    exact (Option.some.inj hn').symm
  -- Nothing is between a day and the next.
  have hbetween : (stStart.wYear = stRead.wYear ∧ stStart.wMonth = stRead.wMonth ∧
      stStart.wDay = stRead.wDay) ∨
      (incrementDay stStart).wYear = stRead.wYear ∧
      (incrementDay stStart).wMonth = stRead.wMonth ∧
      (incrementDay stStart).wDay = stRead.wDay := by
    unfold isFirstTimeEarlier at hafter hpending
    rw [decide_eq_false_iff_not] at hafter hpending
    rcases hstart with ⟨hlt, hy, hm, hd⟩ | ⟨hlast, hd, hnext⟩
    · have hy' : stRead.wYear = stNow.wYear := by omega
      have hm' : stRead.wMonth = stNow.wMonth := by omega
      omega
    · by_cases hmonths : stRead.wYear = stNow.wYear ∧ stRead.wMonth = stNow.wMonth
      · have hle := hsame hmonths
        exact Or.inl ⟨by omega, by omega, by omega⟩
      · have hy : (incrementDay stStart).wYear = stRead.wYear := by omega
        have hm : (incrementDay stStart).wMonth = stRead.wMonth := by omega
        exact Or.inr ⟨hy, hm, by omega⟩
  rcases hbetween with ⟨hy, hm, hd⟩ | ⟨hy, hm, hd⟩
  · have hlt := timeOfDay_lt hafter (hyear ▸ hy) (hmonth ▸ hm) (hday ▸ hd) htime hlater
    exact earlier_incrementDay_next hread hy hm hd hlt
  · exact earlier_incrementDay_same hread hy hm hd

/-! ### The trigger -/

/-- A job without days has not been given the current date either. -/
theorem days_of_once (hnow : stNow.Valid) (hday : daysOfMonth At stNow = 0) :
    At.Flags &&& JOB_ADD_CURRENT_DATE = 0 ∧ At.DaysOfMonth = 0 := by
  obtain ⟨n, hn, hlow, hhigh⟩ := hnow.date
  obtain ⟨-, -, -, hle⟩ := monthDays_some hn
  unfold daysOfMonth at hday
  split_ifs at hday with hflag
  · have hbit := congrArg (fun b : BitVec 32 => b.getLsbD (stNow.wDay - 1)) hday
    have hlt : stNow.wDay - 1 < 32 := by omega
    simp [hlt] at hbit
  · exact ⟨not_not.mp hflag, hday⟩

/-- The job's time on the day that it is added. -/
def timeToday (At : AT_INFO) (stNow : SYSTEMTIME) : SYSTEMTIME :=
  { stNow with
    wHour := At.JobTime / 60000 / 60
    wMinute := At.JobTime / 60000 % 60
    wSecond := 0
    wMilliseconds := 0 }

theorem startTime_once (hnow : stNow.Valid) (hday : daysOfMonth At stNow = 0)
    (hweek : At.DaysOfWeek = 0) : startTime At stNow =
      if isFirstTimeEarlier stNow (timeToday At stNow) = false then
        incrementDay (timeToday At stNow)
      else timeToday At stNow := by
  obtain ⟨hflag, hmonth⟩ := days_of_once hnow hday
  unfold startTime
  simp only [hflag, hmonth, hweek, true_and]
  rfl

theorem timeToday_timeOfDay (At : AT_INFO) (stNow : SYSTEMTIME) :
    (timeToday At stNow).timeOfDay = At.JobTime / 60000 * 60000 := by
  show ((At.JobTime / 60000 / 60 * 60 + At.JobTime / 60000 % 60) * 60 + 0) * 1000 + 0 = _
  omega

/-- Until it runs, the run is less than a day away. -/
theorem startTime_earlier (hnow : stNow.Valid) (hread : stRead.Valid)
    (hday : daysOfMonth At stNow = 0) (hweek : At.DaysOfWeek = 0)
    (hafter : isFirstTimeEarlier stRead stNow = false)
    (hpending : isFirstTimeEarlier (startTime At stNow) stRead = false)
    (hlater : isFirstTimeEarlier stNow stRead = true ∨
      stNow.timeOfDay ≠ At.JobTime / 60000 * 60000) :
    isFirstTimeEarlier (startTime At stNow) (incrementDay stRead) = true := by
  rw [startTime_once hnow hday hweek] at hpending ⊢
  split_ifs at hpending ⊢ with htoday
  · have htime : (timeToday At stNow).timeOfDay ≤ stNow.timeOfDay := by
      unfold isFirstTimeEarlier at htoday
      rw [decide_eq_false_iff_not] at htoday
      by_contra hlt
      exact htoday (Or.inr ⟨rfl, Or.inr ⟨rfl, Or.inr ⟨rfl, by omega⟩⟩⟩)
    rw [← timeToday_timeOfDay At stNow] at hlater
    exact earlier_incrementDay_tomorrow hnow hread hafter hpending ⟨rfl, rfl, rfl⟩ htime hlater
  · exact earlier_incrementDay_today hread hafter hpending ⟨rfl, rfl, rfl⟩

/-- The limit that triggers without an end date have is far. -/
theorem startTime_limit (hnow : stNow.Valid) (hday : daysOfMonth At stNow = 0)
    (hweek : At.DaysOfWeek = 0) (hyear : stNow.wYear < 2200) :
    isFirstTimeEarlier (startTime At stNow) ⟨2200, 12, 31, 23, 59, 59, 0⟩ = true := by
  obtain ⟨n, hn, -, hhigh⟩ := hnow.date
  rw [startTime_once hnow hday hweek]
  have hnext := @incrementDay_date (timeToday At stNow) n hn hhigh
  have hsame : (timeToday At stNow).wYear = stNow.wYear := rfl
  unfold isFirstTimeEarlier
  rw [decide_eq_true_eq]
  dsimp only
  split_ifs
  · omega
  · omega

theorem onceRunTimes_pos (hflags : t.rgFlags &&& TASK_TRIGGER_FLAG_HAS_END_DATE = 0)
    (hnext : isFirstTimeEarlier t.begin (incrementDay stRead) = true)
    (hlimit : isFirstTimeEarlier t.begin ⟨2200, 12, 31, 23, 59, 59, 0⟩ = true)
    (hpending : isFirstTimeEarlier t.begin stRead = false) (count : ℕ) :
    onceRunTimes t stRead (incrementDay stRead) count ≠ 0 := by
  have hlast : t.lastSecond = ⟨2200, 12, 31, 23, 59, 59, 0⟩ := if_neg (not_not.mpr hflags)
  unfold onceRunTimes
  rw [if_neg (fun h => h.1 hflags), if_neg (by rw [hnext]; decide), hlast]
  have hbracket : isFirstTimeEarlier t.begin
      (if isFirstTimeEarlier ⟨2200, 12, 31, 23, 59, 59, 0⟩ (incrementDay stRead) = true then
        ⟨2200, 12, 31, 23, 59, 59, 0⟩ else incrementDay stRead) = true := by
    split_ifs
    · exact hlimit
    · exact hnext
  dsimp only
  rw [hbracket]
  split_ifs with hcount
  · exact Nat.succ_ne_zero count
  · intro hzero
    exact hcount ⟨rfl, hpending, by omega⟩

/-- The trigger of a job without days. -/
structure OnceTrigger (At : AT_INFO) (stNow : SYSTEMTIME) (t : TASK_TRIGGER) : Prop where
  type : t.triggerType = .once
  flags : t.rgFlags &&& TASK_TRIGGER_FLAG_HAS_END_DATE = 0
  begin : t.begin = startTime At stNow
  hour : t.wStartHour = At.JobTime / 60000 / 60
  minute : t.wStartMinute = At.JobTime / 60000 % 60

theorem onceTriggers_spec (hday : daysOfMonth At stNow = 0) (hweek : At.DaysOfWeek = 0) :
    ∃ t, onceTriggers At stNow = [t] ∧ OnceTrigger At stNow t := by
  obtain ⟨hhour, hminute, hsecond, hms⟩ := startTime_time At stNow
  refine ⟨_, if_pos ⟨hday, hweek⟩, rfl, ?_, ?_, hhour, hminute⟩
  · unfold newTrigger
    dsimp only
    split_ifs
    · decide
    · decide
  · have hfields : ∀ (st : SYSTEMTIME) (a b : ℕ), st.wSecond = a → st.wMilliseconds = b →
        (⟨st.wYear, st.wMonth, st.wDay, st.wHour, st.wMinute, a, b⟩ : SYSTEMTIME) = st := by
      intro st a b ha hb
      rw [← ha, ← hb]
    exact hfields (startTime At stNow) 0 0 hsecond hms

end NtAdmin.Sched.Schedule
