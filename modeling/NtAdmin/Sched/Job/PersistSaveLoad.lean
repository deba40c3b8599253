import NtAdmin.Sched.Job.PersistRoundTrip

/-! What a file that was saved in full loads as, also after light saves and where it is cut off. -/
namespace NtAdmin.Sched.Job
open Lib ImageReader LoadError CJob

/-- The flags that a load sets as the file has them. -/
def persistedFlags (f : UInt32) : UInt32 :=
  f &&& ~~~(NON_PERSISTED_JOB_FLAGS ||| JOB_I_FLAG_HAS_TRIGGERS)

structure SameFixed (j j₂ : CJob) : Prop where
  version : j₂.m_wVersion = j.m_wVersion
  uuid : j₂.m_uuidJob = j.m_uuidJob
  triggerOffset : j₂.m_wTriggerOffset = j.m_wTriggerOffset
  retryCount : j₂.m_wErrorRetryCount = j.m_wErrorRetryCount
  retryInterval : j₂.m_wErrorRetryInterval = j.m_wErrorRetryInterval
  idleWait : j₂.m_wIdleWait = j.m_wIdleWait
  idleDeadline : j₂.m_wIdleDeadline = j.m_wIdleDeadline
  priority : j₂.m_dwPriority = j.m_dwPriority
  maxRunTime : j₂.m_dwMaxRunTime = j.m_dwMaxRunTime
  exitCode : j₂.m_ExitCode = j.m_ExitCode
  status : j₂.m_hrStatus = j.m_hrStatus
  flags : persistedFlags j₂.m_rgFlags = persistedFlags j.m_rgFlags
  mostRecentRun : j₂.m_stMostRecentRunTime = j.m_stMostRecentRunTime

structure SameVariable (j j₂ : CJob) : Prop where
  applicationName : j₂.m_pwszApplicationName = nonempty j.m_pwszApplicationName
  parameters : j₂.m_pwszParameters = nonempty j.m_pwszParameters
  workingDirectory : j₂.m_pwszWorkingDirectory = nonempty j.m_pwszWorkingDirectory
  creator : j₂.m_pwszCreator = nonempty j.m_pwszCreator
  comment : j₂.m_pwszComment = nonempty j.m_pwszComment
  taskData : j₂.m_pbTaskData = j.m_pbTaskData
  reserved : j₂.m_pbReserved.map Subtype.val = some j.reservedBytes
  startError : j₂.m_hrStartError = j.m_hrStartError
  taskFlags : j₂.m_rgTaskFlags = j.m_rgTaskFlags
  triggers : j₂.m_Triggers.1 = numbered j.m_Triggers.1 0
  hasTriggers : j₂.isFlagSet JOB_I_FLAG_HAS_TRIGGERS = decide (j.m_Triggers.1 ≠ [])

/-- The image has the fixed data of `j₀`, the running instance count `c` and the rest of `j`. -/
structure Restores (j₀ j : CJob) (c : UInt16) (image : List UInt8) : Prop where
  loads : ∀ old, ∃ j₂, loadP old true image = .ok j₂ ∧ SameFixed j₀ j₂ ∧ SameVariable j j₂ ∧
    j₂.m_cRunningInstances = c ∧ j₂.m_pbSignature = j.m_pbSignature ∧
    (j₀.m_wTriggerOffset.toNat = j.triggerOffset → loadTriggers j₂ image = .ok j₂)
  truncated : ∀ old n, n < image.length - j.signatureBytes.length →
    loadP old true (image.take n) = .fail ERROR_INVALID_DATA
  unsigned : ∀ old n, image.length - j.signatureBytes.length ≤ n → n < image.length →
    ∃ j₂, loadP old true (image.take n) = .ok j₂ ∧ SameFixed j₀ j₂ ∧ SameVariable j j₂ ∧
      j₂.m_cRunningInstances = c ∧ j₂.m_pbSignature = none

/-! ### Flags and triggers -/

theorem clear_mask (f a b : UInt32) : (f &&& ~~~a) &&& ~~~(a ||| b) = f &&& ~~~(a ||| b) := by
  refine UInt32.toBitVec_inj.mp (BitVec.eq_of_getLsbD_eq fun i hi => ?_)
  simp only [UInt32.toBitVec_and, UInt32.toBitVec_or, UInt32.toBitVec_not, BitVec.getLsbD_and,
    BitVec.getLsbD_or, BitVec.getLsbD_not, hi]
  cases f.toBitVec.getLsbD i <;> cases a.toBitVec.getLsbD i <;> simp

theorem set_mask (f a b : UInt32) : (f ||| b) &&& ~~~(a ||| b) = f &&& ~~~(a ||| b) := by
  refine UInt32.toBitVec_inj.mp (BitVec.eq_of_getLsbD_eq fun i hi => ?_)
  simp only [UInt32.toBitVec_and, UInt32.toBitVec_or, UInt32.toBitVec_not, BitVec.getLsbD_and,
    BitVec.getLsbD_or, BitVec.getLsbD_not, hi]
  cases f.toBitVec.getLsbD i <;> cases b.toBitVec.getLsbD i <;> simp

theorem set_and (f a : UInt32) : (f ||| a) &&& a = a := by
  refine UInt32.toBitVec_inj.mp (BitVec.eq_of_getLsbD_eq fun i hi => ?_)
  simp only [UInt32.toBitVec_and, UInt32.toBitVec_or, BitVec.getLsbD_and, BitVec.getLsbD_or]
  cases f.toBitVec.getLsbD i <;> cases a.toBitVec.getLsbD i <;> rfl

theorem persistedFlags_setFlag (f : UInt32) :
    persistedFlags (f ||| JOB_I_FLAG_HAS_TRIGGERS) = persistedFlags f := set_mask f _ _

theorem persistedFlags_clearFlag (f : UInt32) :
    persistedFlags (f &&& ~~~JOB_I_FLAG_HAS_TRIGGERS) = persistedFlags f := by
  unfold persistedFlags
  rw [UInt32.or_comm]
  exact clear_mask f _ _

theorem persistedFlags_flData (f : UInt32) :
    persistedFlags (f &&& ~~~NON_PERSISTED_JOB_FLAGS) = persistedFlags f := clear_mask f _ _

variable {j j₀ : CJob} {c : UInt16}

theorem setTriggers_setTriggers (j : CJob) (ts : { ts : List TASK_TRIGGER // ts.length < 2 ^ 16 }) :
    (j.setTriggers ts).setTriggers ts = j.setTriggers ts := by
  unfold setTriggers
  split_ifs with h
  · simp [clearFlag, UInt32.and_assoc]
  · simp [setFlag, UInt32.or_assoc]

theorem hasTriggers_setTriggers (j : CJob)
    (ts : { ts : List TASK_TRIGGER // ts.length < 2 ^ 16 }) :
    (j.setTriggers ts).isFlagSet JOB_I_FLAG_HAS_TRIGGERS = decide (ts.1 ≠ []) := by
  unfold setTriggers isFlagSet
  split_ifs with h
  · simp [h, clearFlag, UInt32.and_assoc]
  · simp only [setFlag, set_and]
    simp [h, JOB_I_FLAG_HAS_TRIGGERS]

theorem numbered_eq_nil (ts : List TASK_TRIGGER) (i : ℕ) : numbered ts i = [] ↔ ts = [] := by
  cases ts <;> simp [numbered]

/-! ### The loaded job -/

theorem loaded_eq (old : CJob) (fd : FIXDLEN_DATA) (c : UInt16) (j : CJob) :
    ∃ f, persistedFlags f = persistedFlags fd.rgFlags ∧
      loaded old fd c j = { CJob.ofFixed fd c (nonempty j.m_pwszApplicationName) old with
        m_pwszParameters := nonempty j.m_pwszParameters
        m_pwszWorkingDirectory := nonempty j.m_pwszWorkingDirectory
        m_pwszCreator := nonempty j.m_pwszCreator
        m_pwszComment := nonempty j.m_pwszComment
        m_pbTaskData := j.m_pbTaskData
        m_pbReserved := some ⟨j.reservedBytes, length_reservedBytes j⟩
        m_hrStartError := j.m_hrStartError
        m_rgTaskFlags := j.m_rgTaskFlags
        m_Triggers := numberedTriggers j.m_Triggers
        m_rgFlags := f } := by
  unfold loaded setTriggers
  split_ifs
  · exact ⟨_, persistedFlags_clearFlag fd.rgFlags, rfl⟩
  · exact ⟨_, persistedFlags_setFlag fd.rgFlags, rfl⟩

theorem sameFixed_loaded (old : CJob) (sig : Option (ByteBlock 64)) :
    SameFixed j₀ { loaded old (j₀.flData j₀.m_wTriggerOffset) c j with m_pbSignature := sig } := by
  obtain ⟨f, hf, heq⟩ := loaded_eq old (j₀.flData j₀.m_wTriggerOffset) c j
  have hflags : persistedFlags f = persistedFlags j₀.m_rgFlags :=
    hf.trans (persistedFlags_flData j₀.m_rgFlags)
  rw [heq]
  constructor <;> first | exact hflags | rfl

theorem sameVariable_loaded (old : CJob) (fd : FIXDLEN_DATA) (sig : Option (ByteBlock 64)) :
    SameVariable j { loaded old fd c j with m_pbSignature := sig } := by
  have htriggers : (loaded old fd c j).isFlagSet JOB_I_FLAG_HAS_TRIGGERS =
      decide (j.m_Triggers.1 ≠ []) := by
    unfold loaded
    rw [hasTriggers_setTriggers]
    exact decide_eq_decide.mpr (not_congr (numbered_eq_nil _ 0))
  obtain ⟨f, -, heq⟩ := loaded_eq old fd c j
  rw [heq] at htriggers ⊢
  constructor <;> first | exact htriggers | rfl

theorem setTriggers_loaded (old : CJob) (fd : FIXDLEN_DATA) (sig : Option (ByteBlock 64)) :
    ({ loaded old fd c j with m_pbSignature := sig } : CJob).setTriggers
      (numberedTriggers j.m_Triggers) = { loaded old fd c j with m_pbSignature := sig } := by
  have h : ∀ (i : CJob) (ts : { ts : List TASK_TRIGGER // ts.length < 2 ^ 16 }),
      ({ i with m_pbSignature := sig } : CJob).setTriggers ts =
        { i.setTriggers ts with m_pbSignature := sig } := by
    intro i ts
    unfold setTriggers
    split_ifs <;> rfl
  rw [h]
  unfold loaded
  rw [setTriggers_setTriggers]

theorem restores_mainBytes (hfit : StringsFit j) :
    Restores j₀ j c (mainBytes (j₀.flData j₀.m_wTriggerOffset) c j ++ j.signatureBytes) := by
  have hver : (j₀.flData j₀.m_wTriggerOffset).wFileObjVer = JOB_OBJ_FORMAT_VERSION := rfl
  have hlen : (mainBytes (j₀.flData j₀.m_wTriggerOffset) c j ++ j.signatureBytes).length -
      j.signatureBytes.length = (mainBytes (j₀.flData j₀.m_wTriggerOffset) c j).length := by
    rw [List.length_append, Nat.add_sub_cancel]
  have hcount : ∀ old sig, ({ loaded old (j₀.flData j₀.m_wTriggerOffset) c j with
      m_pbSignature := sig } : CJob).m_cRunningInstances = c := by
    intro old sig
    obtain ⟨f, -, heq⟩ := loaded_eq old (j₀.flData j₀.m_wTriggerOffset) c j
    rw [heq]
    rfl
  constructor
  · intro old
    have hfixed := @sameFixed_loaded j j₀ c old j.m_pbSignature
    refine ⟨_, loadP_file hver hfit old, hfixed, sameVariable_loaded old _ _, hcount old _, rfl, ?_⟩
    intro hoffset
    have hlt : j.triggerOffset < 2 ^ 16 := hoffset ▸ j₀.m_wTriggerOffset.toNat_lt
    have hj₂ := hfixed.triggerOffset.trans
      (show j₀.m_wTriggerOffset = UInt16.ofNat j.triggerOffset by
        rw [← hoffset, UInt16.ofNat_toNat])
    rw [loadTriggers_file hlt hj₂, setTriggers_loaded]
  · intro old n hn
    exact loadP_truncated hver hfit old (hlen ▸ hn)
  · intro old n hle hn
    exact ⟨_, loadP_truncatedSignature hver hfit old (hlen ▸ hle) hn, sameFixed_loaded old none,
      sameVariable_loaded old _ none, hcount old none, rfl⟩

/-! ### Saving -/

/-- The update of the state changes the status and the flags only. -/
def CJob.SaveEnv.StatusOnly (env : SaveEnv) : Prop :=
  ∀ j, ∃ status flags, env.updateJobState j = { j with m_hrStatus := status, m_rgFlags := flags }

/-- The creator that is saved. -/
def creatorOf (env : SaveEnv) (j : CJob) : Option WideString :=
  if j.m_pwszCreator = none then env.userName else j.m_pwszCreator

/-- What a save does to the job before it is written. -/
def Prepared (creator : Option WideString) (j j' : CJob) : Prop :=
  ∃ uuid status flags, j' =
    { j with
      m_uuidJob := uuid
      m_pwszCreator := creator
      m_hrStatus := status
      m_rgFlags := flags }

namespace Prepared
variable {creator : Option WideString} {i i' : CJob}

theorem uuid (h : Prepared creator j i) (u : ByteBlock 16) :
    Prepared creator j { i with m_uuidJob := u } := by
  obtain ⟨_, status, flags, rfl⟩ := h
  exact ⟨u, status, flags, rfl⟩

theorem status (h : Prepared creator j i) (s : UInt32) :
    Prepared creator j { i with m_hrStatus := s } := by
  obtain ⟨u, _, flags, rfl⟩ := h
  exact ⟨u, s, flags, rfl⟩

theorem clearFlag (h : Prepared creator j i) (f : UInt32) :
    Prepared creator j (i.clearFlag f) := by
  obtain ⟨u, s, flags, rfl⟩ := h
  exact ⟨u, s, flags &&& ~~~f, rfl⟩

theorem update (h : Prepared creator j i) {env : SaveEnv} (henv : env.StatusOnly) :
    Prepared creator j (env.updateJobState i) := by
  obtain ⟨u, _, _, rfl⟩ := h
  obtain ⟨s, flags, heq⟩ := henv _
  exact ⟨u, s, flags, heq⟩

theorem ite {p : Prop} [Decidable p] (h : Prepared creator j i) (h' : Prepared creator j i') :
    Prepared creator j (if p then i else i') := by
  split_ifs
  · exact h
  · exact h'

end Prepared

theorem prepared_prepare {env : SaveEnv} (henv : env.StatusOnly) (opts : SaveOptions) (j : CJob) :
    Prepared (creatorOf env j) j (j.prepare env opts) := by
  unfold prepare
  extract_lets j₁ j₂ enabled j₃ changed update j₄ j₅ j₆
  have h₂ : Prepared (creatorOf env j) j j₂ := by
    have h₁ : ∃ u, j₁ = { j with m_uuidJob := u } := by
      by_cases h : env.creates = true
      · exact ⟨_, if_pos h⟩
      · exact ⟨_, if_neg h⟩
    obtain ⟨u, h₁⟩ := h₁
    have hcreator : j₁.m_pwszCreator = j.m_pwszCreator := by rw [h₁]
    refine ⟨u, j.m_hrStatus, j.m_rgFlags, ?_⟩
    show (if j₁.m_pwszCreator = none then { j₁ with m_pwszCreator := env.userName } else j₁) = _
    rw [hcreator, h₁]
    unfold creatorOf
    split_ifs <;> rfl
  have h₃ : Prepared (creatorOf env j) j j₃ := (h₂.status _).ite h₂
  have h₄ : Prepared (creatorOf env j) j j₄ := ((h₃.clearFlag _).clearFlag _).ite h₃
  have h₅ : Prepared (creatorOf env j) j j₅ := (h₄.update henv).ite h₄
  have h₆ : Prepared (creatorOf env j) j j₆ := ((h₅.uuid env.uuidApp).clearFlag _).ite h₅
  exact h₆.ite (h₆.clearFlag _)

/-! ### The file of a save -/

theorem word_wordOf {bs : List UInt8} (h : bs.length = 2) : word (wordOf bs) = bs := by
  obtain ⟨a, b, rfl⟩ := List.length_eq_two.mp h
  have ha := a.toNat_lt
  have hb := b.toNat_lt
  have hnum : (wordOf [a, b]).toNat = a.toNat + 256 * b.toNat := by
    show (UInt16.ofNat (a.toNat + 256 * (b.toNat + 256 * 0))).toNat = _
    rw [toNat_ofNat_of_lt (by omega)]
    omega
  show [UInt8.ofNat (wordOf [a, b]).toNat, UInt8.ofNat ((wordOf [a, b]).toNat / 256)] = [a, b]
  have hlow : UInt8.ofNat (a.toNat + 256 * b.toNat) = a := by
    refine UInt8.toNat_inj.mp ?_
    rw [UInt8.toNat_ofNat']
    omega
  have hhigh : (a.toNat + 256 * b.toNat) / 256 = b.toNat := by omega
  rw [hnum, hlow, hhigh, UInt8.ofNat_toNat]

theorem propertyBytes_copyReserved (j : CJob) : j.copyReserved.propertyBytes = j.propertyBytes := by
  have h : j.copyReserved.reservedBytes = j.reservedBytes := by
    unfold copyReserved reservedBytes
    cases j.m_pbReserved with
    | none => rfl
    | some bs =>
      show j.taskReserved1 ++ (j.taskReserved1 ++ bs.1.drop 8).drop 8 = _
      rw [List.drop_left' j.length_taskReserved1]
  unfold propertyBytes
  rw [h]
  rfl

/-- The running instance count in the file. -/
def savedCount (env : SaveEnv) (opts : SaveOptions) (j : CJob) (old : List UInt8) : UInt16 :=
  if opts.runningInstanceCount || env.creates then j.m_cRunningInstances
  else wordOf ((old.drop 68 ++ [0, 0]).take 2)

theorem word_savedCount (env : SaveEnv) (opts : SaveOptions) (j : CJob) (old : List UInt8) :
    word (savedCount env opts j old) =
      if opts.runningInstanceCount || env.creates then word j.m_cRunningInstances
      else (old.drop 68 ++ [0, 0]).take 2 := by
  unfold savedCount
  split_ifs
  · rfl
  · refine word_wordOf ?_
    rw [List.length_take, List.length_append]
    exact Nat.min_eq_left (by simp)

/-- The job after a full save. -/
def afterSave (env : SaveEnv) (opts : SaveOptions) (j : CJob) : CJob :=
  let j := j.prepare env opts
  { j with m_wTriggerOffset := UInt16.ofNat j.triggerOffset }.copyReserved

theorem saveP_full {env : SaveEnv} {opts : SaveOptions} (hvar : opts.variableLengthData = true)
    (j : CJob) (old : List UInt8) :
    saveP env opts j old = some (afterSave env opts j,
      mainBytes ((afterSave env opts j).flData (afterSave env opts j).m_wTriggerOffset)
        (savedCount env opts (afterSave env opts j) old) (afterSave env opts j) ++
        (afterSave env opts j).signatureBytes) := by
  have hcount := word_savedCount env opts (afterSave env opts j) old
  unfold saveP mainBytes
  rw [if_pos hvar, hcount]
  unfold afterSave
  rw [propertyBytes_copyReserved, List.append_assoc, List.append_assoc, List.append_assoc]
  rfl

theorem drop_mainBytes (fd : FIXDLEN_DATA) (c : UInt16) (j : CJob) :
    (mainBytes fd c j ++ j.signatureBytes).drop 68 =
        word c ++ (j.propertyBytes ++ j.triggerBytes ++ j.signatureBytes) ∧
      (mainBytes fd c j ++ j.signatureBytes).drop 70 =
        j.propertyBytes ++ j.triggerBytes ++ j.signatureBytes := by
  have hfixed : mainBytes fd c j ++ j.signatureBytes =
      fd.bytes ++ (word c ++ (j.propertyBytes ++ j.triggerBytes ++ j.signatureBytes)) := by
    simp [mainBytes]
  have hdrop : (mainBytes fd c j ++ j.signatureBytes).drop 68 =
      word c ++ (j.propertyBytes ++ j.triggerBytes ++ j.signatureBytes) := by
    rw [hfixed]
    exact List.drop_left' fd.length_bytes
  constructor
  · exact hdrop
  · rw [show 70 = 68 + 2 from rfl, ← List.drop_drop, hdrop]
    exact List.drop_left' (length_word c)

theorem saveP_light {env : SaveEnv} {opts : SaveOptions} (hcreates : env.creates = false)
    (hvar : opts.variableLengthData = false) (i : CJob) (fd : FIXDLEN_DATA) (c : UInt16)
    (j : CJob) :
    saveP env opts i (mainBytes fd c j ++ j.signatureBytes) = some (i.prepare env opts,
      mainBytes ((i.prepare env opts).flData (i.prepare env opts).m_wTriggerOffset)
        (if opts.runningInstanceCount then (i.prepare env opts).m_cRunningInstances else c) j ++
        j.signatureBytes) := by
  have hlen := ((i.prepare env opts).flData (i.prepare env opts).m_wTriggerOffset).length_bytes
  obtain ⟨h68, h70⟩ := drop_mainBytes fd c j
  unfold saveP
  rw [if_neg (by simp [hvar]), if_neg (by simp [hcreates]), hcreates, Bool.or_false]
  cases opts.runningInstanceCount with
  | true =>
    simp only [if_true, List.length_append, hlen, length_word, h70]
    simp [mainBytes]
  | false =>
    simp only [Bool.false_eq_true, if_false, List.append_nil, hlen, h68]
    simp [mainBytes]

/-! ### A full save -/

/-- A light save of any job changes the fixed-length part of the file only. -/
structure LightSave (j : CJob) (c : UInt16) (file : List UInt8) (env : SaveEnv)
    (opts : SaveOptions) (i : CJob) : Prop where
  saves : ∃ file', saveP env opts i file = some (i.prepare env opts, file') ∧
    file'.length = file.length ∧ file'.drop 70 = file.drop 70 ∧
    (opts.runningInstanceCount = false → file'.drop 68 = file.drop 68) ∧
    Restores (i.prepare env opts) j
      (if opts.runningInstanceCount then (i.prepare env opts).m_cRunningInstances else c) file'

theorem lightSave_mainBytes {env : SaveEnv} {opts : SaveOptions} (hfit : StringsFit j)
    (hcreates : env.creates = false) (hvar : opts.variableLengthData = false) (i : CJob)
    (fd : FIXDLEN_DATA) : LightSave j c (mainBytes fd c j ++ j.signatureBytes) env opts i := by
  obtain ⟨h68, h70⟩ := drop_mainBytes fd c j
  obtain ⟨h68', h70'⟩ := drop_mainBytes
    ((i.prepare env opts).flData (i.prepare env opts).m_wTriggerOffset)
    (if opts.runningInstanceCount then (i.prepare env opts).m_cRunningInstances else c) j
  refine ⟨_, saveP_light hcreates hvar i fd c j, ?_, ?_, ?_, restores_mainBytes hfit⟩
  · simp [mainBytes, FIXDLEN_DATA.length_bytes]
  · rw [h70, h70']
  · intro hcount
    rw [h68, h68', if_neg (by simp [hcount])]

theorem stringsFit_afterSave {env : SaveEnv} (henv : env.StatusOnly) (opts : SaveOptions)
    (hfit : StringsFit j) (huser : StringFits env.userName) :
    StringsFit (afterSave env opts j) := by
  obtain ⟨uuid, status, flags, hprep⟩ := prepared_prepare henv opts j
  have hcreator : StringFits (creatorOf env j) := by
    unfold creatorOf
    split_ifs
    · exact huser
    · exact hfit _ (by simp [stringFields])
  intro pwsz hmem
  have hmem' : pwsz ∈ [j.m_pwszApplicationName, j.m_pwszParameters, j.m_pwszWorkingDirectory,
      creatorOf env j, j.m_pwszComment] := by
    unfold afterSave at hmem
    rw [hprep] at hmem
    exact hmem
  by_cases h : pwsz = creatorOf env j
  · exact h ▸ hcreator
  · refine hfit pwsz ?_
    simp only [List.mem_cons, List.not_mem_nil, or_false, stringFields] at hmem' ⊢
    tauto

/-- A full save of `j` over `old`: what it keeps of the job, what its file loads as, and that light
saves leave the variable-length part alone. -/
structure SaveLoad (env : SaveEnv) (opts : SaveOptions) (j : CJob) (old : List UInt8) : Prop where
  kept : ∃ uuid status flags, afterSave env opts j =
    { j with
      m_uuidJob := uuid
      m_pwszCreator := creatorOf env j
      m_hrStatus := status
      m_rgFlags := flags
      m_wTriggerOffset := UInt16.ofNat (afterSave env opts j).triggerOffset }.copyReserved
  saved : ∃ file, saveP env opts j old = some (afterSave env opts j, file) ∧
    Restores (afterSave env opts j) (afterSave env opts j)
      (savedCount env opts (afterSave env opts j) old) file ∧
    ∀ env' opts' i, env'.creates = false → opts'.variableLengthData = false →
      LightSave (afterSave env opts j) (savedCount env opts (afterSave env opts j) old) file
        env' opts' i
  inside : ∀ other fAllData image, loadP other fAllData image ≠ .outside

theorem saveP_loadP {env : SaveEnv} {opts : SaveOptions} {j : CJob} (old : List UInt8)
    (henv : env.StatusOnly) (hvar : opts.variableLengthData = true) (hfit : StringsFit j)
    (huser : StringFits env.userName) : SaveLoad env opts j old := by
  have hfit' := stringsFit_afterSave henv opts hfit huser
  constructor
  · obtain ⟨uuid, status, flags, hprep⟩ := prepared_prepare henv opts j
    have hoffset : (afterSave env opts j).triggerOffset = (j.prepare env opts).triggerOffset := by
      unfold triggerOffset afterSave
      rw [propertyBytes_copyReserved]
      rfl
    refine ⟨uuid, status, flags, ?_⟩
    rw [hoffset]
    unfold afterSave
    rw [hprep]
  · refine ⟨_, saveP_full hvar j old, restores_mainBytes hfit', ?_⟩
    intro env' opts' i hcreates hlight
    exact lightSave_mainBytes hfit' hcreates hlight i _
  · exact loadP_inside

/-- A job with a signature. -/
def signedJob : CJob :=
  { m_wVersion := 0x0500
    m_uuidJob := blockOf 16 []
    m_wTriggerOffset := 0
    m_wErrorRetryCount := 0
    m_wErrorRetryInterval := 0
    m_cRunningInstances := 1
    m_wIdleWait := 10
    m_wIdleDeadline := 60
    m_dwPriority := 0x20
    m_dwMaxRunTime := 259200000
    m_ExitCode := 0
    m_hrStatus := SCHED_S_TASK_HAS_NOT_RUN
    m_rgFlags := JOB_I_FLAG_TRIGGERS_DIRTY
    m_rgTaskFlags := 0
    m_stMostRecentRunTime := blockOf 16 []
    m_pwszApplicationName := some ⟨[99, 109, 100], by simp⟩
    m_pwszParameters := some ⟨[], by simp⟩
    m_pwszWorkingDirectory := none
    m_pwszCreator := none
    m_pwszComment := none
    m_pbTaskData := ⟨[7, 8], by simp⟩
    m_pbReserved := none
    m_hrStartError := SCHED_S_TASK_HAS_NOT_RUN
    m_Triggers := ⟨[{ cbTriggerSize := 48, reserved1 := 5, data := blockOf 44 [] }], by simp⟩
    m_pbSignature := some (blockOf 64 []) }

/-- A save of a new file. -/
def newFile : SaveEnv :=
  { creates := true
    uuidFile := blockOf 16 [1]
    uuidApp := blockOf 16 [2]
    userName := some ⟨[109, 101], by simp⟩
    updateJobState := fun j => { j with m_hrStatus := SCHED_S_TASK_HAS_NOT_RUN } }

def fullSave : SaveOptions :=
  { variableLengthData := true, runningInstanceCount := true, preserveNetSchedule := true }

theorem statusOnly_newFile : newFile.StatusOnly := fun j => ⟨_, j.m_rgFlags, rfl⟩

theorem stringFits_userName : StringFits newFile.userName := by
  show 3 < 2 ^ 16
  simp

theorem stringsFit_signedJob : StringsFit signedJob := by
  have hshort : ∀ pwsz ∈ signedJob.stringFields, (pwsz.elim [] Subtype.val).length < 4 := by decide
  exact fun pwsz hmem => Nat.lt_of_lt_of_le (Nat.succ_lt_succ (hshort pwsz hmem)) (by simp)

theorem saveP_loadP_signedJob : newFile.StatusOnly ∧ fullSave.variableLengthData = true ∧
    StringsFit signedJob ∧ StringFits newFile.userName ∧
    SaveLoad newFile fullSave signedJob [] :=
  ⟨statusOnly_newFile, rfl, stringsFit_signedJob, stringFits_userName,
    saveP_loadP [] statusOnly_newFile rfl stringsFit_signedJob stringFits_userName⟩

/-- A file that has lost the end of its signature is not turned down. -/
theorem not_rejectsTruncation : ¬∀ (env : SaveEnv) (opts : SaveOptions) (j : CJob)
    (old : List UInt8) (j₁ : CJob) (file : List UInt8), opts.variableLengthData = true →
    saveP env opts j old = some (j₁, file) → ∀ n, 70 ≤ n → n < file.length →
    ∀ other, ∃ e, loadP other true (file.take n) = .fail e := by
  intro h
  have hfit := @stringsFit_afterSave signedJob _ statusOnly_newFile fullSave
    stringsFit_signedJob stringFits_userName
  have hsig : (afterSave newFile fullSave signedJob).signatureBytes.length = 68 := rfl
  have hrestores := @restores_mainBytes _ (afterSave newFile fullSave signedJob)
    (savedCount newFile fullSave (afterSave newFile fullSave signedJob) []) hfit
  have hmain : 70 ≤ (mainBytes
      ((afterSave newFile fullSave signedJob).flData
        (afterSave newFile fullSave signedJob).m_wTriggerOffset)
      (savedCount newFile fullSave (afterSave newFile fullSave signedJob) [])
      (afterSave newFile fullSave signedJob)).length := by
    simp only [mainBytes, List.length_append, FIXDLEN_DATA.length_bytes, length_word]
    omega
  have hreject := h newFile fullSave signedJob [] _ _ rfl (saveP_full rfl signedJob [])
  generalize mainBytes _ _ _ = main at hmain hreject hrestores
  have hlen : (main ++ (afterSave newFile fullSave signedJob).signatureBytes).length =
      main.length + 68 := by
    rw [List.length_append, hsig]
  obtain ⟨e, hfail⟩ := hreject (main.length + 67) (by omega) (by omega) signedJob
  obtain ⟨j₂, hloads, -⟩ := hrestores.unsigned signedJob (main.length + 67) (by omega) (by omega)
  rw [hfail] at hloads
  cases hloads

end NtAdmin.Sched.Job
