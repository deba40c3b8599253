import NtAdmin.Sched.Job.PersistFields

/-! A job file is read back as the job that was saved to it. -/
namespace NtAdmin.Sched.Job
open Lib ImageReader LoadError CJob

variable {old j : CJob} {fd : FIXDLEN_DATA} {c : UInt16}

/-! ### Nothing outside the image -/

theorem inside_readWord : Inside readWord := (Inside.readOr _ 2).bind fun _ => Inside.pure _

theorem inside_readString : Inside readString := by
  rw [readString_eq]
  refine inside_readWord.bind fun cch => ?_
  split_ifs with hcch
  · exact Inside.pure none
  · intro img p
    rw [readChars_eq hcch]
    split_ifs <;> nofun

theorem inside_readTaskData : Inside readTaskData := by
  refine inside_readWord.bind fun cb => ?_
  split_ifs
  · exact Inside.pure _
  · exact (Inside.advanceOr _ _).bind fun _ => Inside.pure _

theorem inside_readReserved : Inside readReserved := by
  refine inside_readWord.bind fun cReserved => ?_
  split_ifs with hzero hshort
  · exact Inside.pure _
  · exact Inside.reject _
  · intro img p
    rw [show (do
      let q ← position
      let bs ← advanceOr ERROR_INVALID_DATA cReserved.toNat
      let reserved ← copyFrom q 8
      pure
        { m_pbReserved :=
            if h : 8 ≤ bs.length ∧ bs.length < 2 ^ 16 then some ⟨bs, h⟩ else none
          m_hrStartError := dwordOf (reserved.take 4)
          m_rgTaskFlags := dwordOf (reserved.drop 4) } : Loader ReservedData) =
        readReservedData cReserved.toNat from rfl, readReservedData_eq (Nat.le_of_not_lt hshort)]
    split_ifs <;> nofun

theorem inside_loadTriggersFromBuffer : Inside loadTriggersFromBuffer :=
  inside_readWord.bind fun _ => (Inside.advanceOr _ _).bind fun _ => Inside.pure _

theorem inside_loadTriggersFromFile : Inside loadTriggersFromFile := by
  refine inside_readWord.bind fun cTriggers => ?_
  split_ifs
  · exact Inside.pure _
  · exact (Inside.readOr _ _).bind fun _ => Inside.pure _

theorem inside_readSignature : Inside readSignature := by
  intro img p
  by_cases hlen : img.length < p + 68
  · obtain ⟨p', hread⟩ := readSignature_none hlen
    rw [hread]
    nofun
  · unfold readSignature
    rw [bind_ok (show read 4 img p = _ from if_pos (by omega))]
    dsimp only
    split_ifs
    · rw [bind_ok (show position img (p + 4) = .ok (p + 4, p + 4) from rfl)]
      rw [bind_ok (show advance 64 img (p + 4) =
        .ok (decide (p + 4 + 64 ≤ img.length), p + 4 + 64) from rfl)]
      rw [if_pos (decide_eq_true (by omega)),
        bind_ok (show copyFrom (p + 4) 64 img _ = _ from if_pos (by omega))]
      nofun
    · nofun

theorem inside_loadProperties (old : CJob) (fAllData : Bool) :
    Inside (loadProperties old fAllData) := by
  refine (Inside.readOr _ 68).bind fun head => ?_
  dsimp only
  split_ifs
  · exact Inside.reject _
  · exact inside_readWord.bind fun _ => inside_readString.bind fun _ =>
      inside_readString.bind fun _ => inside_readString.bind fun _ =>
      inside_readString.bind fun _ => inside_readString.bind fun _ =>
      inside_readTaskData.bind fun _ => inside_readReserved.bind fun _ =>
      inside_loadTriggersFromBuffer.bind fun _ => Inside.pure _
  · exact inside_readWord.bind fun _ => inside_readString.bind fun _ => Inside.pure _

theorem loadP_inside (old : CJob) (fAllData : Bool) (image : List UInt8) :
    loadP old fAllData image ≠ .outside := by
  have hall : Inside (loadAll old fAllData) := by
    refine (inside_loadProperties old fAllData).bind fun j => ?_
    split_ifs
    · exact inside_readSignature.bind fun _ => Inside.pure _
    · exact Inside.pure _
  unfold loadP
  cases h : loadAll old fAllData image 0 with
  | outside => exact absurd h (hall image 0)
  | fail e => nofun
  | ok r => nofun

/-! ### The properties and the triggers -/

/-- No string is longer than its 16-bit length tells. -/
def StringsFit (j : CJob) : Prop := ∀ pwsz ∈ j.stringFields, StringFits pwsz

theorem length_reservedBytes (j : CJob) :
    8 ≤ j.reservedBytes.length ∧ j.reservedBytes.length < 2 ^ 16 := by
  unfold reservedBytes
  cases j.m_pbReserved with
  | none =>
    show 8 ≤ j.taskReserved1.length ∧ j.taskReserved1.length < 2 ^ 16
    rw [length_taskReserved1]
    decide
  | some bs =>
    have hbs := bs.2
    show 8 ≤ (j.taskReserved1 ++ bs.1.drop 8).length ∧
      (j.taskReserved1 ++ bs.1.drop 8).length < 2 ^ 16
    rw [List.length_append, List.length_drop, length_taskReserved1]
    omega

theorem take_reservedBytes (j : CJob) : j.reservedBytes.take 8 = j.taskReserved1 := by
  unfold reservedBytes
  cases j.m_pbReserved with
  | none => exact List.take_of_length_le (Nat.le_of_eq j.length_taskReserved1)
  | some bs => exact List.take_left' j.length_taskReserved1

/-- What is loaded from a file with the fixed data `fd`, the running instance count `c` and the
properties and triggers of `j`. -/
def loaded (old : CJob) (fd : FIXDLEN_DATA) (c : UInt16) (j : CJob) : CJob :=
  { CJob.ofFixed fd c (nonempty j.m_pwszApplicationName) old with
    m_pwszParameters := nonempty j.m_pwszParameters
    m_pwszWorkingDirectory := nonempty j.m_pwszWorkingDirectory
    m_pwszCreator := nonempty j.m_pwszCreator
    m_pwszComment := nonempty j.m_pwszComment
    m_pbTaskData := j.m_pbTaskData
    m_pbReserved := some ⟨j.reservedBytes, length_reservedBytes j⟩
    m_hrStartError := j.m_hrStartError
    m_rgTaskFlags := j.m_rgTaskFlags }.setTriggers (numberedTriggers j.m_Triggers)

theorem reservedDataOf_reservedBytes (j : CJob) : reservedDataOf j.reservedBytes =
    { m_pbReserved := some ⟨j.reservedBytes, length_reservedBytes j⟩
      m_hrStartError := j.m_hrStartError
      m_rgTaskFlags := j.m_rgTaskFlags } := by
  unfold reservedDataOf
  rw [dif_pos (length_reservedBytes j), take_reservedBytes]
  unfold taskReserved1
  rw [List.take_left' (length_dword _), List.drop_left' (length_dword _), dwordOf_dword,
    dwordOf_dword]

/-- The file up to the signature. -/
def mainBytes (fd : FIXDLEN_DATA) (c : UInt16) (j : CJob) : List UInt8 :=
  fd.bytes ++ (word c ++ (j.propertyBytes ++ j.triggerBytes))

theorem parses_loadProperties (old : CJob) (hver : fd.wFileObjVer = JOB_OBJ_FORMAT_VERSION)
    (hfit : StringsFit j) :
    Parses ERROR_INVALID_DATA (loadProperties old true) (mainBytes fd c j)
      (loaded old fd c j) := by
  have hbytes : mainBytes fd c j = fd.bytes ++ (word c ++ (stringBytes j.m_pwszApplicationName ++
      (stringBytes j.m_pwszParameters ++ (stringBytes j.m_pwszWorkingDirectory ++
      (stringBytes j.m_pwszCreator ++ (stringBytes j.m_pwszComment ++
      (countedBytes j.m_pbTaskData.1 ++ (countedBytes j.reservedBytes ++
        j.triggerBytes)))))))) := by
    simp [mainBytes, propertyBytes, stringFields]
  have hstring : ∀ pwsz ∈ j.stringFields,
      Parses ERROR_INVALID_DATA readString (stringBytes pwsz) (nonempty pwsz) :=
    fun pwsz h => parses_readString (hfit pwsz h)
  have hreserved := parses_readReserved (length_reservedBytes j).1 (length_reservedBytes j).2
  rw [reservedDataOf_reservedBytes] at hreserved
  rw [hbytes]
  refine (parses_readOr fd.length_bytes).bind ?_
  rw [fd.ofBytes_bytes]
  dsimp only
  rw [if_neg (not_not.mpr hver)]
  refine (parses_readWord c).bind ?_
  refine (hstring _ (by simp [stringFields])).bind ?_
  rw [if_pos rfl]
  refine (hstring _ (by simp [stringFields])).bind ?_
  refine (hstring _ (by simp [stringFields])).bind ?_
  refine (hstring _ (by simp [stringFields])).bind ?_
  refine (hstring _ (by simp [stringFields])).bind ?_
  refine (parses_readTaskData _).bind ?_
  refine hreserved.bind ?_
  exact (parses_loadTriggersFromBuffer j).map (Parses.pure _)

theorem length_signature (j : CJob) : j.signatureBytes.length ≤ 68 := by
  unfold signatureBytes
  cases j.m_pbSignature with
  | none => exact Nat.zero_le 68
  | some bs =>
    have hbs : bs.1.length = 64 := bs.2
    simp [hbs]

/-! ### The file -/

variable (hver : fd.wFileObjVer = JOB_OBJ_FORMAT_VERSION) (hfit : StringsFit j)
include hver hfit

theorem loadP_file (old : CJob) : loadP old true (mainBytes fd c j ++ j.signatureBytes) =
    .ok { loaded old fd c j with m_pbSignature := j.m_pbSignature } := by
  have hmain := (parses_loadProperties (c := c) old hver hfit).reads [] j.signatureBytes
  rw [List.nil_append, List.length_nil, Nat.zero_add] at hmain
  obtain ⟨p', hsig⟩ := readSignature_bytes (mainBytes fd c j) j
  unfold loadP loadAll
  rw [bind_ok hmain, if_pos rfl, bind_ok hsig]
  rfl

/-- A file that ends before the signature is turned down. -/
theorem loadP_truncated (old : CJob) {n : ℕ} (hn : n < (mainBytes fd c j).length) :
    loadP old true ((mainBytes fd c j ++ j.signatureBytes).take n) =
      .fail ERROR_INVALID_DATA := by
  have hmain := (parses_loadProperties (c := c) old hver hfit).short [] n hn
  rw [List.nil_append, List.length_nil] at hmain
  rw [List.take_append_of_le_length (Nat.le_of_lt hn)]
  unfold loadP loadAll
  rw [bind_fail hmain]

/-- One that ends within the signature has none. -/
theorem loadP_truncatedSignature (old : CJob) {n : ℕ} (hle : (mainBytes fd c j).length ≤ n)
    (hn : n < (mainBytes fd c j ++ j.signatureBytes).length) :
    loadP old true ((mainBytes fd c j ++ j.signatureBytes).take n) =
      .ok { loaded old fd c j with m_pbSignature := none } := by
  have hsigLen := length_signature j
  rw [List.length_append] at hn
  have hsplit : n = (mainBytes fd c j).length + (n - (mainBytes fd c j).length) := by omega
  rw [hsplit, List.take_length_add_append]
  have hmain := (parses_loadProperties (c := c) old hver hfit).reads []
    (j.signatureBytes.take (n - (mainBytes fd c j).length))
  rw [List.nil_append, List.length_nil, Nat.zero_add] at hmain
  have hend : (mainBytes fd c j ++
      j.signatureBytes.take (n - (mainBytes fd c j).length)).length <
      (mainBytes fd c j).length + 68 := by
    rw [List.length_append, List.length_take]
    omega
  obtain ⟨p', hsig⟩ := readSignature_none hend
  unfold loadP loadAll
  rw [bind_ok hmain, if_pos rfl, bind_ok hsig]
  rfl

omit hver hfit in
/-- The triggers are where the offset tells. -/
theorem loadTriggers_file {j₂ : CJob} (hoffset : j.triggerOffset < 2 ^ 16)
    (hj₂ : j₂.m_wTriggerOffset = UInt16.ofNat j.triggerOffset) :
    loadTriggers j₂ (mainBytes fd c j ++ j.signatureBytes) =
      .ok (j₂.setTriggers (numberedTriggers j.m_Triggers)) := by
  have hlen : (fd.bytes ++ (word c ++ j.propertyBytes)).length = j.triggerOffset := by
    rw [List.length_append, List.length_append, fd.length_bytes, length_word, triggerOffset]
    omega
  have hpos : 0 < j.triggerOffset := by
    unfold triggerOffset
    omega
  have hread := (parses_loadTriggersFromFile j).reads (fd.bytes ++ (word c ++ j.propertyBytes))
    j.signatureBytes
  have hfile : mainBytes fd c j ++ j.signatureBytes =
      (fd.bytes ++ (word c ++ j.propertyBytes)) ++ (j.triggerBytes ++ j.signatureBytes) := by
    simp [mainBytes]
  unfold loadTriggers
  rw [hj₂, if_neg (ofNat_ne_zero hpos hoffset), toNat_ofNat_of_lt hoffset, hfile, ← hlen, hread]

end NtAdmin.Sched.Job
