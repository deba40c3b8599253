import NtAdmin.Sched.Schedule.AtDates

/-! The triggers of an AT job. -/
namespace NtAdmin.Sched.Schedule
open Common

variable {At : AT_INFO} {stNow : SYSTEMTIME} {t : TASK_TRIGGER}

/-- What the triggers of a job have in common. -/
structure TriggerOf (At : AT_INFO) (t : TASK_TRIGGER) : Prop where
  hour : t.wStartHour = At.JobTime / 60000 / 60
  minute : t.wStartMinute = At.JobTime / 60000 % 60
  flags : t.rgFlags = if At.Flags &&& JOB_RUN_PERIODICALLY ≠ 0 then 0
    else TASK_TRIGGER_FLAG_HAS_END_DATE

theorem startTime_time (At : AT_INFO) (stNow : SYSTEMTIME) :
    (startTime At stNow).wHour = At.JobTime / 60000 / 60 ∧
      (startTime At stNow).wMinute = At.JobTime / 60000 % 60 ∧
      (startTime At stNow).wSecond = 0 ∧ (startTime At stNow).wMilliseconds = 0 := by
  unfold startTime
  dsimp only
  split_ifs
  · exact incrementDay_time _
  · exact ⟨rfl, rfl, rfl, rfl⟩

theorem triggerOf_newTrigger (At : AT_INFO) (stNow : SYSTEMTIME) (type : TriggerType) :
    TriggerOf At { newTrigger At (startTime At stNow) with triggerType := type } := by
  obtain ⟨hhour, hminute, -, -⟩ := startTime_time At stNow
  exact { hour := hhour, minute := hminute, flags := rfl }

theorem TriggerOf.setDates (h : TriggerOf At t) (stStart stEnd : SYSTEMTIME) :
    TriggerOf At (t.setDates stStart stEnd) :=
  { hour := h.hour, minute := h.minute, flags := h.flags }

/-! ### Days of the month -/

theorem exists_monthBit {days : BitVec 32} (hne : days ≠ 0) (h31 : days.getLsbD 31 = false) :
    ∃ k, 1 ≤ k ∧ k ≤ 31 ∧ isMonthBitSet days k = true := by
  by_contra hnone
  refine hne (BitVec.eq_of_getLsbD_eq fun i hi => ?_)
  rw [show BitVec.getLsbD 0 i = false from BitVec.getLsbD_zero]
  by_contra hset
  have hset' : days.getLsbD i = true := by simpa using hset
  have hi31 : i ≠ 31 := fun e => by rw [e, h31] at hset'; cases hset'
  exact hnone ⟨i + 1, by omega, by omega, hset'⟩

theorem daysOfMonth_getLsbD (hAt : NetrJobAdd At) (hnow : stNow.Valid) :
    (daysOfMonth At stNow).getLsbD 31 = false := by
  have hbit : At.DaysOfMonth.getLsbD 31 = false := by
    have h := congrArg (fun b : BitVec 32 => b.getLsbD 31) hAt.daysOfMonth
    simpa [DAYS_OF_MONTH] using h
  obtain ⟨n, hn, hlow, hhigh⟩ := hnow.date
  obtain ⟨-, -, -, hle⟩ := monthDays_some hn
  unfold daysOfMonth
  split_ifs
  · rw [BitVec.getLsbD_or, hbit, Bool.false_or]
    have hone : (1#32).getLsbD (31 - (stNow.wDay - 1)) = false := by
      have hpos : 31 - (stNow.wDay - 1) ≠ 0 := by omega
      rw [BitVec.getLsbD_one]
      simp [hpos]
    rw [BitVec.getLsbD_shiftLeft, hone, Bool.and_false]
  · exact hbit

/-- The triggers on days of the month. The second ends after the first. -/
inductive DomTriggers (At : AT_INFO) (stNow : SYSTEMTIME) : List TASK_TRIGGER → Prop
  | none (h : daysOfMonth At stNow = 0) : DomTriggers At stNow []
  | one (h : daysOfMonth At stNow ≠ 0) (t : TASK_TRIGGER) (ht : TriggerOf At t)
      (htype : t.triggerType = .monthlyDate (daysOfMonth At stNow) JOB_RGFMONTHS_MAX) :
      DomTriggers At stNow [t]
  | two (h : daysOfMonth At stNow ≠ 0) (t t' : TASK_TRIGGER) (ht : TriggerOf At t)
      (ht' : TriggerOf At t')
      (htype : t.triggerType = .monthlyDate (daysOfMonth At stNow) JOB_RGFMONTHS_MAX)
      (htype' : t'.triggerType = .monthlyDate (daysOfMonth At stNow) JOB_RGFMONTHS_MAX)
      (hends : DateLe t.endTime t'.endTime) : DomTriggers At stNow [t, t']

theorem domTriggers_spec (hAt : NetrJobAdd At) (hnow : stNow.Valid) :
    ∃ doms, domTriggers At stNow = some doms ∧ DomTriggers At stNow doms := by
  have hnew := triggerOf_newTrigger At stNow
    (.monthlyDate (daysOfMonth At stNow) JOB_RGFMONTHS_MAX)
  unfold domTriggers
  dsimp only
  split_ifs with hzero hperiodic
  · exact ⟨[], rfl, .none hzero⟩
  · exact ⟨_, rfl, .one hzero _ hnew rfl⟩
  · obtain ⟨dates, hdates, hends⟩ := @calcDomTriggerDates_spec _ _ (startTime At stNow) hnow
      (exists_monthBit hzero (daysOfMonth_getLsbD hAt hnow))
    rw [hdates]
    dsimp only [Option.bind_eq_bind, Option.bind_some]
    split_ifs with hsecond
    · exact ⟨_, rfl, .two hzero _ _ (hnew.setDates _ _) (hnew.setDates _ _) rfl rfl (hends hsecond)⟩
    · exact ⟨_, rfl, .one hzero _ (hnew.setDates _ _) rfl⟩

/-! ### Days of the week -/

/-- The trigger on days of the week. -/
inductive DowTriggers (At : AT_INFO) : List TASK_TRIGGER → Prop
  | none (h : At.DaysOfWeek = 0) : DowTriggers At []
  | one (h : At.DaysOfWeek ≠ 0) (t : TASK_TRIGGER) (ht : TriggerOf At t)
      (htype : t.triggerType = .weekly 1 (triggerDow At.DaysOfWeek)) : DowTriggers At [t]

theorem DowTriggers.type {dows : List TASK_TRIGGER} (h : DowTriggers At dows) :
    ∀ t ∈ dows, t.triggerType = .weekly 1 (triggerDow At.DaysOfWeek) := by
  cases h with
  | none => exact fun t ht => absurd ht List.not_mem_nil
  | one _ w _ htype =>
    intro t ht
    rw [List.mem_singleton.mp ht]
    exact htype

theorem dowTriggers_spec (At : AT_INFO) (stNow : SYSTEMTIME) :
    DowTriggers At (dowTriggers At stNow) := by
  have hnew := triggerOf_newTrigger At stNow (.weekly 1 (triggerDow At.DaysOfWeek))
  unfold dowTriggers
  dsimp only
  split_ifs with hzero hperiodic
  · exact .none hzero
  · exact .one hzero _ hnew rfl
  · exact .one hzero _ (hnew.setDates _ _) rfl

/-- Every week is read back as it was. -/
theorem jobDow_triggerDow (hAt : NetrJobAdd At) :
    jobDow (triggerDow At.DaysOfWeek) = At.DaysOfWeek := by
  have hall : ∀ d : BitVec 8, d &&& ~~~DAYS_OF_WEEK = 0 → jobDow (triggerDow d) = d := by
    decide +kernel
  exact hall At.DaysOfWeek hAt.daysOfWeek

end NtAdmin.Sched.Schedule
