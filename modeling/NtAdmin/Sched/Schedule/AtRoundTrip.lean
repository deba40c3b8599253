import NtAdmin.Sched.Schedule.AtCommand
import NtAdmin.Sched.Schedule.AtOnce
import NtAdmin.Sched.Schedule.AtTriggers

/-! An AT job is read back as it was added, while it is pending. -/
namespace NtAdmin.Sched.Schedule
open Common

variable {garbage : List UInt16} {At : AT_INFO} {stNow stRead : SYSTEMTIME} {job : AtJob}
  {t : TASK_TRIGGER}

/-! ### The job -/

theorem length_splitCommand (garbage cmd : List UInt16) :
    (splitCommand garbage cmd).1.length ≤ cmd.length := by
  cases cmd with
  | nil => exact Nat.le_refl 0
  | cons c cs =>
    by_cases hc : c = quote
    · subst hc
      cases cs with
      | nil => exact Nat.zero_le 1
      | cons c cs =>
        rw [splitCommand_quote]
        have hle := (List.takeWhile_prefix (l := cs) (· != quote)).length_le
        simp only [List.length_cons]
        omega
    · rw [splitCommand_unquoted hc]
      exact (List.takeWhile_prefix _).length_le

/-- The flags that the job is read by. -/
def readFlags : BitVec 32 :=
  JOB_I_FLAG_NET_SCHEDULE ||| TASK_FLAG_INTERACTIVE ||| TASK_FLAG_DISABLED

/-- What `addAtJobCommon` makes of what it is given. -/
structure AddedJob (garbage : List UInt16) (At : AT_INFO) (stNow : SYSTEMTIME) (job : AtJob) :
    Prop where
  names : (job.m_pwszApplicationName, job.m_pwszParameters) = namesOf garbage At.Command
  flags : job.m_rgFlags &&& readFlags = JOB_I_FLAG_NET_SCHEDULE |||
    if At.Flags &&& JOB_NONINTERACTIVE = 0 then TASK_FLAG_INTERACTIVE else 0
  triggers : ∃ doms, DomTriggers At stNow doms ∧
    job.m_Triggers = onceTriggers At stNow ++ doms ++ dowTriggers At stNow

theorem addAtJobCommon_spec (garbage : List UInt16) (hAt : NetrJobAdd At) (hnow : stNow.Valid) :
    ∃ job, addAtJobCommon garbage At stNow = some job ∧ AddedJob garbage At stNow job := by
  obtain ⟨doms, hdoms, hspec⟩ := domTriggers_spec hAt hnow
  have htake : At.Command.take 259 = At.Command := List.take_of_length_le hAt.command
  have hlen : (splitCommand garbage At.Command).1.length ≤ 259 :=
    Nat.le_trans (length_splitCommand garbage At.Command) hAt.command
  have hname : ∃ flags, setApplicationName (splitCommand garbage At.Command).1 AtJob.create =
      some { AtJob.create with
        m_pwszApplicationName := (namesOf garbage At.Command).1, m_rgFlags := flags } ∧
      (flags = JOB_I_FLAG_NO_RUN_PROP_CHANGE &&& ~~~JOB_I_FLAG_HAS_APPNAME |||
          JOB_I_FLAG_PROPERTIES_DIRTY ∨
        flags = JOB_I_FLAG_NO_RUN_PROP_CHANGE ||| JOB_I_FLAG_HAS_APPNAME |||
          JOB_I_FLAG_PROPERTIES_DIRTY) := by
    unfold setApplicationName namesOf
    rw [if_neg (by omega), List.take_of_length_le hlen]
    split_ifs with hnil
    · rw [hnil]
      exact ⟨_, rfl, Or.inl rfl⟩
    · exact ⟨_, rfl, Or.inr rfl⟩
  obtain ⟨flags, hset, hflags⟩ := hname
  unfold addAtJobCommon
  rw [htake]
  dsimp only [Option.bind_eq_bind]
  rw [hset, hdoms]
  refine ⟨_, rfl, rfl, ?_, doms, hspec, rfl⟩
  rcases hflags with rfl | rfl
  · dsimp only
    split_ifs
    · decide
    · decide
  · dsimp only
    split_ifs
    · decide
    · decide

/-! ### Reading -/

/-- Nothing of the trigger is left at `stNow`. -/
def TASK_TRIGGER.expired (t : TASK_TRIGGER) (stNow : SYSTEMTIME) : Bool :=
  if t.triggerType = .once then isFirstTimeEarlier t.begin stNow
  else
    decide (t.rgFlags &&& TASK_TRIGGER_FLAG_HAS_END_DATE ≠ 0) && isFirstTimeEarlier t.endTime stNow

theorem endTime_timeOfDay (h : TriggerOf At t) :
    t.endTime.timeOfDay = At.JobTime / 60000 * 60000 := by
  have hhour : t.endTime.wHour = At.JobTime / 60000 / 60 := h.hour
  have hminute : t.endTime.wMinute = At.JobTime / 60000 % 60 := h.minute
  have hsecond : t.endTime.wSecond = 0 := rfl
  have hms : t.endTime.wMilliseconds = 0 := rfl
  unfold SYSTEMTIME.timeOfDay
  rw [hhour, hminute, hsecond, hms]
  omega

/-- Of two triggers on days of the month the second expires last. -/
theorem expired_of_dateLe {t' : TASK_TRIGGER} (ht : TriggerOf At t) (ht' : TriggerOf At t')
    (htype : t.triggerType ≠ .once) (htype' : t'.triggerType ≠ .once)
    (hends : DateLe t.endTime t'.endTime) (h : t.expired stRead = false) :
    t'.expired stRead = false := by
  have htime := (endTime_timeOfDay ht).trans (endTime_timeOfDay ht').symm
  unfold TASK_TRIGGER.expired at h ⊢
  rw [if_neg htype, ht.flags, Bool.and_eq_false_iff] at h
  rw [if_neg htype', ht'.flags, Bool.and_eq_false_iff]
  refine h.imp_right fun hlate => ?_
  unfold isFirstTimeEarlier at hlate ⊢
  unfold DateLe at hends
  rw [decide_eq_false_iff_not] at hlate ⊢
  omega

/-- What is read of the triggers of a job that runs on days. -/
structure DaysRead (At : AT_INFO) (stNow stRead : SYSTEMTIME) (pAt : AT_INFO)
    (triggers : List TASK_TRIGGER) (pjt : TASK_TRIGGER) : Prop where
  read : readTriggers pAt triggers = some
    ({ pAt with DaysOfMonth := daysOfMonth At stNow, DaysOfWeek := At.DaysOfWeek }, pjt)
  head : ∀ t ∈ triggers, TriggerOf At t
  last : pjt ∈ triggers
  type : pjt.triggerType ≠ .once
  notExpired : pjt.expired stRead = false

theorem daysRead (pAt : AT_INFO) {doms dows : List TASK_TRIGGER} (hAt : NetrJobAdd At)
    (hmonth : pAt.DaysOfMonth = 0) (hweek : pAt.DaysOfWeek = 0) (hdoms : DomTriggers At stNow doms)
    (hdows : DowTriggers At dows) (hne : ¬(daysOfMonth At stNow = 0 ∧ At.DaysOfWeek = 0))
    (hlen : (doms ++ dows).length ≤ 2) (hpending : ∃ t ∈ doms ++ dows, t.expired stRead = false)
    (hweekly : ∀ t ∈ dows, t.expired stRead = false) :
    ∃ pjt, DaysRead At stNow stRead pAt (doms ++ dows) pjt := by
  have hdow := jobDow_triggerDow hAt
  cases hdoms with
  | none hm =>
    cases hdows with
    | none hw => exact absurd ⟨hm, hw⟩ hne
    | one hw w hof htype =>
      refine ⟨w, ?_, ?_, List.mem_singleton_self w, by rw [htype]; nofun, hweekly w (by simp)⟩
      · show some (readTrigger w pAt, w) = _
        unfold readTrigger
        rw [htype, hm, ← hmonth]
        dsimp only
        rw [hdow]
      · intro t ht
        rw [List.mem_singleton.mp ht]
        exact hof
  | one hm d hof htype =>
    cases hdows with
    | none hw =>
      obtain ⟨t, ht, hover⟩ := hpending
      rw [List.mem_singleton.mp ht] at hover
      refine ⟨d, ?_, ?_, List.mem_singleton_self d, by rw [htype]; nofun, hover⟩
      · show some (readTrigger d pAt, d) = _
        unfold readTrigger
        rw [htype, hw, ← hweek]
      · intro t ht
        rw [List.mem_singleton.mp ht]
        exact hof
    | one hw w hof' htype' =>
      refine ⟨w, ?_, ?_, by simp, by rw [htype']; nofun, hweekly w (by simp)⟩
      · show (if w.triggerType = .once then none
          else some (readTrigger w (readTrigger d pAt), w)) = _
        unfold readTrigger
        rw [if_neg (by rw [htype']; nofun), htype, htype']
        dsimp only
        rw [hdow]
      · intro t ht
        rcases List.mem_pair.mp ht with rfl | rfl
        · exact hof
        · exact hof'
  | two hm d d' hof hof' htype htype' hends =>
    cases hdows with
    | none hw =>
      have hover : d'.expired stRead = false := by
        obtain ⟨t, ht, hover⟩ := hpending
        rcases List.mem_pair.mp ht with rfl | rfl
        · exact expired_of_dateLe hof hof' (by rw [htype]; nofun) (by rw [htype']; nofun) hends hover
        · exact hover
      refine ⟨d', ?_, ?_, by simp, by rw [htype']; nofun, hover⟩
      · show (if d'.triggerType = .once then none
          else some (readTrigger d' (readTrigger d pAt), d')) = _
        unfold readTrigger
        rw [if_neg (by rw [htype']; nofun), htype, htype', hw, ← hweek]
      · intro t ht
        rcases List.mem_pair.mp ht with rfl | rfl
        · exact hof
        · exact hof'
    | one hw w hof' htype' => exact absurd hlen (by simp)

/-! ### The round trip -/

theorem flags_read (interactive periodic today failed again : Prop) [Decidable interactive]
    [Decidable periodic] [Decidable today] [Decidable failed] [Decidable again] (f : BitVec 8)
    (hf : f = (if interactive then JOB_NONINTERACTIVE else 0) |||
      (if periodic then JOB_RUN_PERIODICALLY else 0) ||| (if today then JOB_RUNS_TODAY else 0) |||
      (if failed then JOB_EXEC_ERROR else 0)) :
    (if again then f ||| JOB_RUNS_TODAY else f) &&& JOB_RUN_PERIODICALLY =
        (if periodic then JOB_RUN_PERIODICALLY else 0) ∧
      (if again then f ||| JOB_RUNS_TODAY else f) &&& JOB_NONINTERACTIVE =
        (if interactive then JOB_NONINTERACTIVE else 0) := by
  subst hf
  by_cases hinteractive : interactive <;> by_cases hperiodic : periodic <;>
    by_cases htoday : today <;> by_cases hfailed : failed <;> by_cases hagain : again <;>
    simp only [hinteractive, hperiodic, htoday, hfailed, hagain, if_true, if_false] <;> decide

section ok
variable {getTriggerRunTimes : TASK_TRIGGER → SYSTEMTIME → SYSTEMTIME → ℕ → ℕ}

theorem getAtInfo_ok (job : AtJob) (running : Bool) {cchCommand : ℕ} {pAt : AT_INFO} {pjt : TASK_TRIGGER}
    (hnet : job.m_rgFlags &&& JOB_I_FLAG_NET_SCHEDULE ≠ 0) (hbuffer : cchOf job ≤ cchCommand)
    (hread : readTriggers
      { JobTime := jobTimeOf job.m_Triggers
        DaysOfMonth := 0
        DaysOfWeek := 0
        Flags := 0
        Command := commandOf job } job.m_Triggers = some (pAt, pjt))
    (honce : pjt.triggerType = .once → ∀ count,
      getRunTimesP getTriggerRunTimes job stRead (incrementDay stRead) count ≠ 0)
    (hended : pjt.rgFlags &&& TASK_TRIGGER_FLAG_HAS_END_DATE ≠ 0 →
      isFirstTimeEarlier pjt.endTime stRead = false) :
    ∃ flags, getAtInfo getTriggerRunTimes job cchCommand stRead running =
        .ok { pAt with Flags := flags } ∧
      flags &&& JOB_RUN_PERIODICALLY =
        (if ¬pjt.rgFlags &&& TASK_TRIGGER_FLAG_HAS_END_DATE ≠ 0 ∧ pjt.triggerType ≠ .once then
          JOB_RUN_PERIODICALLY else 0) ∧
      flags &&& JOB_NONINTERACTIVE =
        if job.m_rgFlags &&& TASK_FLAG_INTERACTIVE = 0 then JOB_NONINTERACTIVE else 0 := by
  unfold getAtInfo
  rw [if_neg hnet, if_neg (Nat.not_lt.mpr hbuffer)]
  dsimp only
  rw [hread]
  dsimp only
  rw [if_neg (fun h => honce h.1.1 _ h.1.2.2), if_neg]
  · refine ⟨_, rfl, ?_⟩
    exact flags_read _ _ _ _ _ _ rfl
  · intro h
    have hlate := h.2.1
    rw [hended h.1] at hlate
    cases hlate

end ok

/-- The job when it is read: its flags may have changed, but for those that it is read by. -/
structure Read (job : AtJob) (rgFlags : BitVec 32) (cchCommand : ℕ) (stNow stRead : SYSTEMTIME) :
    Prop where
  flags : rgFlags &&& readFlags = job.m_rgFlags &&& readFlags
  buffer : cchOf job ≤ cchCommand
  valid : stRead.Valid
  after : isFirstTimeEarlier stRead stNow = false
  pending : ∃ t ∈ job.m_Triggers, t.expired stRead = false

/-- There are no three triggers, a trigger on days of the week has not expired, and a job that runs once
is not added at its time to the millisecond and read at once, nor added from 2200 on. -/
structure Covered (At : AT_INFO) (job : AtJob) (stNow stRead : SYSTEMTIME) : Prop where
  two : job.m_Triggers.length ≤ 2
  weekly : ∀ t ∈ job.m_Triggers, ∀ n rgf, t.triggerType = .weekly n rgf → t.expired stRead = false
  once : ∀ t ∈ job.m_Triggers, t.triggerType = .once → stNow.wYear < 2200 ∧
    (isFirstTimeEarlier stNow stRead = true ∨ stNow.timeOfDay ≠ At.JobTime / 60000 * 60000)

/-- What was added, with the days `days` of the month, and what is read. -/
structure SameJob (garbage : List UInt16) (At : AT_INFO) (days : BitVec 32) (pAt : AT_INFO) :
    Prop where
  jobTime : pAt.JobTime = At.JobTime / 60000 * 60000
  daysOfMonth : pAt.DaysOfMonth = days
  daysOfWeek : pAt.DaysOfWeek = At.DaysOfWeek
  periodic : pAt.Flags &&& JOB_RUN_PERIODICALLY =
    if days = 0 ∧ At.DaysOfWeek = 0 then 0 else At.Flags &&& JOB_RUN_PERIODICALLY
  nonInteractive : pAt.Flags &&& JOB_NONINTERACTIVE = At.Flags &&& JOB_NONINTERACTIVE
  names : namesOf garbage pAt.Command = namesOf garbage At.Command

theorem and_readFlags (rgFlags : BitVec 32) {f : BitVec 32} (hf : readFlags &&& f = f) :
    rgFlags &&& f = (rgFlags &&& readFlags) &&& f := by
  rw [BitVec.and_assoc, hf]

/-- A flag that is one bit is there or not. -/
theorem flag_cases : ∀ f : BitVec 8,
    (f &&& JOB_NONINTERACTIVE = 0 ∨ f &&& JOB_NONINTERACTIVE = JOB_NONINTERACTIVE) ∧
      (f &&& JOB_RUN_PERIODICALLY = 0 ∨ f &&& JOB_RUN_PERIODICALLY = JOB_RUN_PERIODICALLY) := by
  decide +kernel

theorem jobTimeOf_eq {triggers : List TASK_TRIGGER} (hne : triggers ≠ [])
    (h : ∀ t ∈ triggers, t.wStartHour = At.JobTime / 60000 / 60 ∧
      t.wStartMinute = At.JobTime / 60000 % 60) :
    jobTimeOf triggers = At.JobTime / 60000 * 60000 := by
  obtain ⟨t, ts, rfl⟩ := List.exists_cons_of_ne_nil hne
  obtain ⟨hhour, hminute⟩ := h t List.mem_cons_self
  show (t.wStartHour * 60 + t.wStartMinute) * 60000 = _
  rw [hhour, hminute]
  omega

/-- The job as it is read, with the flags `rgFlags`. -/
structure JobRead (garbage : List UInt16) (At : AT_INFO) (job : AtJob) (cchCommand : ℕ) :
    Prop where
  net : job.m_rgFlags &&& JOB_I_FLAG_NET_SCHEDULE ≠ 0
  enabled : job.m_rgFlags &&& TASK_FLAG_DISABLED = 0
  interactive : (if job.m_rgFlags &&& TASK_FLAG_INTERACTIVE = 0 then JOB_NONINTERACTIVE else 0) =
    At.Flags &&& JOB_NONINTERACTIVE
  buffer : cchOf job ≤ cchCommand
  names : namesOf garbage (commandOf job) = namesOf garbage At.Command

theorem jobRead {rgFlags : BitVec 32} {cchCommand : ℕ} (hcommand : PlainCommand At.Command)
    (hadded : AddedJob garbage At stNow job) (hread : Read job rgFlags cchCommand stNow stRead) :
    JobRead garbage At { job with m_rgFlags := rgFlags } cchCommand := by
  have hflags : rgFlags &&& readFlags = _ := hread.flags.trans hadded.flags
  have hread' : ∀ {f}, readFlags &&& f = f → rgFlags &&& f = (JOB_I_FLAG_NET_SCHEDULE |||
      if At.Flags &&& JOB_NONINTERACTIVE = 0 then TASK_FLAG_INTERACTIVE else 0) &&& f := by
    intro f hf
    rw [and_readFlags rgFlags hf, hflags]
  have hnet := hread' (show readFlags &&& JOB_I_FLAG_NET_SCHEDULE = _ by decide)
  have henabled := hread' (show readFlags &&& TASK_FLAG_DISABLED = _ by decide)
  have hinteractive := hread' (show readFlags &&& TASK_FLAG_INTERACTIVE = _ by decide)
  have hnon := (flag_cases At.Flags).1
  have hnames : namesOf garbage (commandOf { job with m_rgFlags := rgFlags }) =
      namesOf garbage At.Command := namesOf_commandOf hcommand hadded.names
  by_cases hzero : At.Flags &&& JOB_NONINTERACTIVE = 0
  · rw [if_pos hzero] at hnet henabled hinteractive
    constructor
    · exact fun h => absurd (hnet.symm.trans h) (by decide)
    · exact henabled.trans (by decide)
    · rw [hzero]
      exact if_neg fun h => absurd (hinteractive.symm.trans h) (by decide)
    · exact hread.buffer
    · exact hnames
  · rw [if_neg hzero] at hnet henabled hinteractive
    constructor
    · exact fun h => absurd (hnet.symm.trans h) (by decide)
    · exact henabled.trans (by decide)
    · rw [hnon.resolve_left hzero]
      exact if_pos (hinteractive.trans (by decide))
    · exact hread.buffer
    · exact hnames

section read
variable {getTriggerRunTimes : TASK_TRIGGER → SYSTEMTIME → SYSTEMTIME → ℕ → ℕ} {cchCommand : ℕ}
  {running : Bool}

theorem getAtInfo_once (hjob : JobRead garbage At job cchCommand)
    (hday : daysOfMonth At stNow = 0) (hweek : At.DaysOfWeek = 0) (hlist : job.m_Triggers = [t])
    (honce : OnceTrigger At stNow t)
    (hruns : ∀ count, onceRunTimes t stRead (incrementDay stRead) count ≠ 0) :
    ∃ pAt, getAtInfo getTriggerRunTimes job cchCommand stRead running = .ok pAt ∧
      SameJob garbage At (daysOfMonth At stNow) pAt := by
  have hcount : ∀ count, getRunTimesP getTriggerRunTimes job stRead (incrementDay stRead) count ≠
      0 := by
    intro count
    unfold getRunTimesP
    rw [if_neg (not_not.mpr hjob.enabled), hlist]
    unfold runTimesOf triggerRunTimes
    rw [honce.type]
    dsimp only
    split_ifs
    · exact hruns count
    · exact hruns count
  have hread : readTriggers
      { JobTime := jobTimeOf job.m_Triggers
        DaysOfMonth := 0
        DaysOfWeek := 0
        Flags := 0
        Command := commandOf job } job.m_Triggers =
      some ({ JobTime := jobTimeOf job.m_Triggers
              DaysOfMonth := 0
              DaysOfWeek := 0
              Flags := 0
              Command := commandOf job }, t) := by
    rw [hlist]
    show some (readTrigger t _, t) = _
    unfold readTrigger
    rw [honce.type]
  have htime : jobTimeOf job.m_Triggers = At.JobTime / 60000 * 60000 := by
    rw [hlist]
    refine jobTimeOf_eq (by nofun) fun t' ht' => ?_
    rw [List.mem_singleton.mp ht']
    exact ⟨honce.hour, honce.minute⟩
  obtain ⟨flags, hok, hperiodic, hnon⟩ := getAtInfo_ok job running hjob.net
    hjob.buffer hread (fun _ => hcount) (fun h => absurd honce.flags h)
  rw [if_neg (fun h => h.2 honce.type)] at hperiodic
  rw [hjob.interactive] at hnon
  refine ⟨_, hok, ?_⟩
  exact
    { jobTime := htime
      daysOfMonth := hday.symm
      daysOfWeek := hweek.symm
      periodic := hperiodic.trans (if_pos ⟨hday, hweek⟩).symm
      nonInteractive := hnon
      names := hjob.names }

theorem getAtInfo_days {pjt : TASK_TRIGGER} (hjob : JobRead garbage At job cchCommand)
    (hne : ¬(daysOfMonth At stNow = 0 ∧ At.DaysOfWeek = 0))
    (hdays : DaysRead At stNow stRead
      { JobTime := jobTimeOf job.m_Triggers
        DaysOfMonth := 0
        DaysOfWeek := 0
        Flags := 0
        Command := commandOf job } job.m_Triggers pjt) :
    ∃ pAt, getAtInfo getTriggerRunTimes job cchCommand stRead running = .ok pAt ∧
      SameJob garbage At (daysOfMonth At stNow) pAt := by
  have hpjt := hdays.head pjt hdays.last
  have hended : pjt.rgFlags &&& TASK_TRIGGER_FLAG_HAS_END_DATE ≠ 0 →
      isFirstTimeEarlier pjt.endTime stRead = false := by
    intro h
    have hover := hdays.notExpired
    unfold TASK_TRIGGER.expired at hover
    rwa [if_neg hdays.type, decide_eq_true h, Bool.true_and] at hover
  obtain ⟨flags, hok, hperiodic, hnon⟩ := getAtInfo_ok job running hjob.net
    hjob.buffer hdays.read (fun h => absurd h hdays.type) hended
  rw [hpjt.flags] at hperiodic
  rw [hjob.interactive] at hnon
  have htime : jobTimeOf job.m_Triggers = At.JobTime / 60000 * 60000 :=
    jobTimeOf_eq (List.ne_nil_of_mem hdays.last) fun t ht =>
      ⟨(hdays.head t ht).hour, (hdays.head t ht).minute⟩
  refine ⟨_, hok, ?_⟩
  exact
    { jobTime := htime
      daysOfMonth := rfl
      daysOfWeek := rfl
      periodic := by
        rw [if_neg hne]
        refine hperiodic.trans ?_
        rcases (flag_cases At.Flags).2 with hzero | hone
        · rw [if_neg (not_not.mpr hzero), hzero]
          exact if_neg fun h => h.1 (by decide)
        · rw [hone]
          exact if_pos ⟨by decide, hdays.type⟩
      nonInteractive := hnon
      names := hjob.names }

end read

/-- A job is read back as it was added, with today among its days of the month where it was to be
added, and never as one that runs periodically where it runs once. -/
theorem getAtInfo_addAtJobCommon
    (getTriggerRunTimes : TASK_TRIGGER → SYSTEMTIME → SYSTEMTIME → ℕ → ℕ) (garbage : List UInt16)
    (hAt : NetrJobAdd At) (hnow : stNow.Valid) (hcommand : PlainCommand At.Command) :
    ∃ job, addAtJobCommon garbage At stNow = some job ∧
      ∀ rgFlags cchCommand stRead running, Read job rgFlags cchCommand stNow stRead →
        Covered At job stNow stRead →
        ∃ pAt, getAtInfo getTriggerRunTimes { job with m_rgFlags := rgFlags } cchCommand stRead
            running = .ok pAt ∧
          SameJob garbage At
            (if At.Flags &&& JOB_ADD_CURRENT_DATE ≠ 0 then
              At.DaysOfMonth ||| (1#32 <<< (stNow.wDay - 1))
            else At.DaysOfMonth) pAt := by
  obtain ⟨job, hjob, hadded⟩ := addAtJobCommon_spec garbage hAt hnow
  refine ⟨job, hjob, ?_⟩
  intro rgFlags cchCommand stRead running hread hcovered
  have hjobRead := jobRead hcommand hadded hread
  obtain ⟨doms, hdoms, htriggers⟩ := hadded.triggers
  by_cases hdays : daysOfMonth At stNow = 0 ∧ At.DaysOfWeek = 0
  · obtain ⟨t, ht, honce⟩ := onceTriggers_spec hdays.1 hdays.2
    have hlist : job.m_Triggers = [t] := by
      have hnone : doms = [] := by
        cases hdoms with
        | none => rfl
        | one h => exact absurd hdays.1 h
        | two h => exact absurd hdays.1 h
      rw [htriggers, ht, hnone]
      unfold dowTriggers
      dsimp only
      rw [if_pos hdays.2]
      rfl
    have hmem : t ∈ job.m_Triggers := by
      rw [hlist]
      exact List.mem_singleton_self t
    obtain ⟨hyear, hlater⟩ := hcovered.once t hmem honce.type
    have hpending : isFirstTimeEarlier t.begin stRead = false := by
      obtain ⟨t', ht', hover⟩ := hread.pending
      rw [hlist, List.mem_singleton] at ht'
      subst ht'
      unfold TASK_TRIGGER.expired at hover
      rwa [if_pos honce.type] at hover
    have hnext : isFirstTimeEarlier t.begin (incrementDay stRead) = true := by
      rw [honce.begin] at hpending ⊢
      exact startTime_earlier hnow hread.valid hdays.1 hdays.2 hread.after hpending hlater
    have hlimit : isFirstTimeEarlier t.begin ⟨2200, 12, 31, 23, 59, 59, 0⟩ = true := by
      rw [honce.begin]
      exact startTime_limit hnow hdays.1 hdays.2 hyear
    exact getAtInfo_once hjobRead hdays.1 hdays.2 hlist honce
      (onceRunTimes_pos honce.flags hnext hlimit hpending)
  · have hnoOnce : onceTriggers At stNow = [] := if_neg hdays
    rw [hnoOnce, List.nil_append] at htriggers
    have hweekly : ∀ t ∈ dowTriggers At stNow, t.expired stRead = false := by
      intro t ht
      have hmem : t ∈ job.m_Triggers := by
        rw [htriggers]
        exact List.mem_append_right doms ht
      exact hcovered.weekly t hmem 1 _ ((dowTriggers_spec At stNow).type t ht)
    obtain ⟨pjt, hpjt⟩ := daysRead
      { JobTime := jobTimeOf job.m_Triggers
        DaysOfMonth := 0
        DaysOfWeek := 0
        Flags := 0
        Command := commandOf { job with m_rgFlags := rgFlags } } hAt rfl rfl hdoms
      (dowTriggers_spec At stNow) hdays (htriggers ▸ hcovered.two) (htriggers ▸ hread.pending)
      hweekly
    rw [← htriggers] at hpjt
    exact getAtInfo_days hjobRead hdays hpjt

/-! ### Jobs of April 2003 -/

/-- On the 10th and the 31st, at half past ten. -/
def monthlyJob : AT_INFO :=
  { JobTime := 37820000
    DaysOfMonth := 0x40000200
    DaysOfWeek := 0
    Flags := JOB_NONINTERACTIVE
    Command := [quote, 99, blank, 100, quote, blank, 101] }

/-- Once, but periodically. -/
def onceJob : AT_INFO :=
  { JobTime := 37820000
    DaysOfMonth := 0
    DaysOfWeek := 0
    Flags := JOB_RUN_PERIODICALLY
    Command := [99, 109, 100] }

def added : SYSTEMTIME := ⟨2003, 4, 5, 9, 0, 0, 0⟩

def readBack : SYSTEMTIME := ⟨2003, 4, 5, 9, 1, 0, 0⟩

def noRuns (_ : TASK_TRIGGER) (_ _ : SYSTEMTIME) (count : ℕ) : ℕ := count

theorem netrJobAdd_monthlyJob : NetrJobAdd monthlyJob := by
  constructor <;> decide

theorem valid_added : added.Valid := ⟨⟨30, by decide⟩, by decide, by decide, by decide, by decide⟩

theorem valid_readBack : readBack.Valid :=
  ⟨⟨30, by decide⟩, by decide, by decide, by decide, by decide⟩

theorem plainCommand_monthlyJob : PlainCommand monthlyJob.Command := by
  constructor <;> decide

theorem getAtInfo_monthlyJob : NetrJobAdd monthlyJob ∧ added.Valid ∧
    PlainCommand monthlyJob.Command ∧
    ∃ job, addAtJobCommon [] monthlyJob added = some job ∧
      Read job job.m_rgFlags 300 added readBack ∧ Covered monthlyJob job added readBack ∧
      ∃ pAt, getAtInfo noRuns job 300 readBack false = .ok pAt ∧
        SameJob [] monthlyJob 0x40000200 pAt := by
  obtain ⟨job, hjob, hsame⟩ := getAtInfo_addAtJobCommon noRuns [] netrJobAdd_monthlyJob
    valid_added plainCommand_monthlyJob
  have hjob' : (addAtJobCommon [] monthlyJob added).map (fun job =>
      decide (cchOf job ≤ 300) && decide (job.m_Triggers.length ≤ 2) &&
        decide (job.m_Triggers ≠ []) && job.m_Triggers.all fun t =>
          !t.expired readBack && decide (t.triggerType ≠ .once)) = some true := by
    decide +kernel
  rw [hjob, Option.map_some, Option.some.injEq] at hjob'
  simp only [Bool.and_eq_true, decide_eq_true_eq, List.all_eq_true, Bool.not_eq_true'] at hjob'
  obtain ⟨⟨⟨hcch, hlen⟩, hne⟩, htriggers⟩ := hjob'
  obtain ⟨t, ht⟩ := List.exists_mem_of_ne_nil _ hne
  have hread : Read job job.m_rgFlags 300 added readBack :=
    { flags := rfl
      buffer := hcch
      valid := valid_readBack
      after := by decide
      pending := ⟨t, ht, (htriggers t ht).1⟩ }
  have hcovered : Covered monthlyJob job added readBack :=
    { two := hlen
      weekly := fun t ht _ _ _ => (htriggers t ht).1
      once := fun t ht h => absurd h (htriggers t ht).2 }
  exact ⟨netrJobAdd_monthlyJob, valid_added, plainCommand_monthlyJob, job, hjob, hread, hcovered,
    hsame job.m_rgFlags 300 readBack false hread hcovered⟩

/-- A job without days is not read back as one that runs periodically. -/
theorem not_samePeriodic : ¬∀ (At : AT_INFO) (stNow stRead : SYSTEMTIME) (job : AtJob),
    NetrJobAdd At → stNow.Valid → addAtJobCommon [] At stNow = some job →
    Read job job.m_rgFlags 300 stNow stRead →
    ∃ pAt, getAtInfo noRuns job 300 stRead false = .ok pAt ∧
      pAt.Flags &&& JOB_RUN_PERIODICALLY = At.Flags &&& JOB_RUN_PERIODICALLY := by
  intro h
  have haccepted : NetrJobAdd onceJob := by
    constructor <;> decide
  have hrun : (addAtJobCommon [] onceJob added).map (fun job =>
      decide (cchOf job ≤ 300) && job.m_Triggers.any (fun t => !t.expired readBack) &&
        match getAtInfo noRuns job 300 readBack false with
        | .ok pAt => decide (pAt.Flags &&& JOB_RUN_PERIODICALLY = 0)
        | .error _ => true) = some true := by
    decide +kernel
  obtain ⟨job, hjob, hrun⟩ := Option.map_eq_some_iff.mp hrun
  simp only [Bool.and_eq_true, decide_eq_true_eq, List.any_eq_true, Bool.not_eq_true'] at hrun
  obtain ⟨⟨hcch, hpending⟩, hflags⟩ := hrun
  have hread : Read job job.m_rgFlags 300 added readBack :=
    { flags := rfl
      buffer := hcch
      valid := valid_readBack
      after := by decide
      pending := hpending }
  obtain ⟨pAt, hok, hperiodic⟩ := h onceJob added readBack job haccepted valid_added hjob hread
  rw [hok] at hflags
  have hzero : pAt.Flags &&& JOB_RUN_PERIODICALLY = 0 := of_decide_eq_true hflags
  rw [hzero] at hperiodic
  exact absurd hperiodic (by decide)

end NtAdmin.Sched.Schedule
