import Mathlib.Data.List.TakeDrop
import NtAdmin.Sched.Job.Persist

/-! Each part of a job file is read back as it was written. -/
namespace NtAdmin.Sched.Job
open Lib ImageReader LoadError CJob

/-! ### Numbers and blocks -/

@[simp] theorem length_word (x : UInt16) : (word x).length = 2 := length_leBytes 2 x.toNat

@[simp] theorem length_dword (x : UInt32) : (dword x).length = 4 := length_leBytes 4 x.toNat

@[simp] theorem wordOf_word (x : UInt16) : wordOf (word x) = x := by
  unfold wordOf word
  rw [leNat_leBytes_of_lt (show x.toNat < 256 ^ 2 from x.toNat_lt), UInt16.ofNat_toNat]

@[simp] theorem dwordOf_dword (x : UInt32) : dwordOf (dword x) = x := by
  unfold dwordOf dword
  rw [leNat_leBytes_of_lt (show x.toNat < 256 ^ 4 from x.toNat_lt), UInt32.ofNat_toNat]

@[simp] theorem blockOf_val {n : ℕ} (b : ByteBlock n) : blockOf n b.1 = b := by
  refine Subtype.ext ?_
  have hlen : b.1.length = n := b.2
  show (b.1 ++ List.replicate n 0).take n = b.1
  rw [List.take_append_of_le_length (Nat.le_of_eq hlen.symm),
    List.take_of_length_le (Nat.le_of_eq hlen)]

/-! ### Records -/

namespace FIXDLEN_DATA

theorem map_length_fields (d : FIXDLEN_DATA) : d.fields.map List.length = sizes := by
  have huuid : d.uuidJob.1.length = 16 := d.uuidJob.2
  have hrun : d.stMostRecentRunTime.1.length = 16 := d.stMostRecentRunTime.2
  simp [fields, sizes, huuid, hrun]

theorem length_bytes (d : FIXDLEN_DATA) : d.bytes.length = 68 := by
  rw [bytes, List.length_flatten, map_length_fields]
  rfl

theorem ofBytes_bytes (d : FIXDLEN_DATA) : ofBytes d.bytes = d := by
  have hfields : fieldsOf sizes d.bytes = d.fields := by
    have h := fieldsOf_flatten (map_length_fields d) []
    rwa [List.append_nil] at h
  unfold ofBytes
  rw [hfields]
  simp [fields]

end FIXDLEN_DATA

theorem TASK_TRIGGER.length_bytes (t : TASK_TRIGGER) : t.bytes.length = 48 := by
  have hdata : t.data.1.length = 44 := t.data.2
  simp [TASK_TRIGGER.bytes, hdata]

theorem TASK_TRIGGER.ofBytes_bytes (t : TASK_TRIGGER) : ofBytes t.bytes = t := by
  have hdata : t.data.1.length = 44 := t.data.2
  have hfields : fieldsOf [2, 2, 44] t.bytes =
      [word t.cbTriggerSize, word t.reserved1, t.data.1] := by
    have h := @fieldsOf_flatten [2, 2, 44]
      [word t.cbTriggerSize, word t.reserved1, t.data.1] (by simp [hdata]) []
    simpa [TASK_TRIGGER.bytes] using h
  unfold TASK_TRIGGER.ofBytes
  rw [hfields]
  simp

/-- The triggers with their indices. -/
def numbered (ts : List TASK_TRIGGER) (i : ℕ) : List TASK_TRIGGER :=
  match ts with
  | [] => []
  | t :: ts => { t with reserved1 := UInt16.ofNat i } :: numbered ts (i + 1)

theorem triggersOf_flatMap (ts : List TASK_TRIGGER) (i : ℕ) :
    triggersOf (ts.flatMap TASK_TRIGGER.bytes) ts.length i = numbered ts i := by
  induction ts generalizing i with
  | nil => rfl
  | cons t ts ih =>
    have hlen := t.length_bytes
    have htake : (t.bytes ++ ts.flatMap TASK_TRIGGER.bytes).take 48 = t.bytes := by
      rw [← hlen, List.take_left]
    have hdrop : (t.bytes ++ ts.flatMap TASK_TRIGGER.bytes).drop 48 =
        ts.flatMap TASK_TRIGGER.bytes := by
      rw [← hlen, List.drop_left]
    rw [List.flatMap_cons, List.length_cons, triggersOf, numbered, htake, hdrop,
      TASK_TRIGGER.ofBytes_bytes, ih]

theorem length_flatMap_bytes (ts : List TASK_TRIGGER) :
    (ts.flatMap TASK_TRIGGER.bytes).length = ts.length * 48 := by
  induction ts with
  | nil => rfl
  | cons t ts ih =>
    rw [List.flatMap_cons, List.length_append, ih, t.length_bytes, List.length_cons]
    omega

/-! ### Strings -/

theorem charsOf_flatMap (cs : List UInt16) : charsOf (cs.flatMap word) = cs := by
  induction cs with
  | nil => rfl
  | cons c cs ih =>
    have hword : word c = [UInt8.ofNat c.toNat, UInt8.ofNat (c.toNat / 256)] := rfl
    rw [List.flatMap_cons, hword]
    show wordOf [UInt8.ofNat c.toNat, UInt8.ofNat (c.toNat / 256)] ::
      charsOf (cs.flatMap word) = c :: cs
    rw [ih, ← hword, wordOf_word]

theorem length_flatMap_word (cs : List UInt16) : (cs.flatMap word).length = 2 * cs.length := by
  induction cs with
  | nil => rfl
  | cons c cs ih =>
    rw [List.flatMap_cons, List.length_append, ih, length_word, List.length_cons]
    omega

theorem wideStringOf_append_zero (s : WideString) : wideStringOf (s.1 ++ [0]) = s := by
  refine Subtype.ext ?_
  have hall : ∀ c ∈ s.1, decide (c ≠ 0) = true := fun c hc => decide_eq_true (s.2 c hc)
  show (s.1 ++ [0]).takeWhile (fun c => decide (c ≠ 0)) = s.1
  rw [List.takeWhile_append_of_pos hall]
  simp

/-- An empty string is read back as none. -/
def nonempty (pwsz : Option WideString) : Option WideString :=
  match pwsz with
  | none => none
  | some s => if s.1 = [] then none else some s

def StringFits (pwsz : Option WideString) : Prop :=
  (pwsz.elim [] Subtype.val).length + 1 < 2 ^ 16

theorem parses_readWord (x : UInt16) : Parses ERROR_INVALID_DATA readWord (word x) x := by
  have h := (parses_readOr (e := ERROR_INVALID_DATA) (length_word x)).map
    (f := fun bs => (pure (wordOf bs) : Loader UInt16)) (b := x)
    (by rw [wordOf_word]; exact Parses.pure x)
  exact h

/-- What follows the length of a string. -/
def readChars (cch : UInt16) : Loader (Option WideString) := do
  let pwsz ← position
  if ← advance (2 * cch.toNat) then
    let last ← copyFrom (pwsz + 2 * (cch.toNat - 1)) 2
    if wordOf last ≠ 0 then reject ERROR_INVALID_DATA
    else do
      let bs ← copyFrom pwsz (2 * cch.toNat)
      pure (some (wideStringOf (charsOf bs)))
  else reject ERROR_INVALID_DATA

theorem readChars_eq {cch : UInt16} (hcch : cch ≠ 0) (img : List UInt8) (p : ℕ) :
    readChars cch img p =
      if p + 2 * cch.toNat ≤ img.length then
        if wordOf ((img.drop (p + 2 * (cch.toNat - 1))).take 2) ≠ 0 then .fail ERROR_INVALID_DATA
        else .ok (some (wideStringOf (charsOf ((img.drop p).take (2 * cch.toNat)))),
          p + 2 * cch.toNat)
      else .fail ERROR_INVALID_DATA := by
  have hpos : 0 < cch.toNat := by
    rcases Nat.eq_zero_or_pos cch.toNat with h | h
    · exact absurd (UInt16.toNat_inj.mp h) hcch
    · exact h
  unfold readChars
  rw [bind_ok (show position img p = .ok (p, p) from rfl)]
  rw [bind_ok (show advance (2 * cch.toNat) img p =
    .ok (decide (p + 2 * cch.toNat ≤ img.length), p + 2 * cch.toNat) from rfl)]
  by_cases h : p + 2 * cch.toNat ≤ img.length
  · have hlast : p + 2 * (cch.toNat - 1) + 2 ≤ img.length := by omega
    rw [if_pos h, if_pos (decide_eq_true h), bind_ok (if_pos hlast)]
    split_ifs
    · rfl
    · rw [bind_ok (if_pos h)]
      rfl
  · rw [if_neg h, if_neg (by simpa using h)]
    rfl

theorem readString_eq : readString =
    readWord >>= fun cch => if cch = 0 then pure none else readChars cch := rfl

theorem parses_readString {pwsz : Option WideString} (hfits : StringFits pwsz) :
    Parses ERROR_INVALID_DATA readString (stringBytes pwsz) (nonempty pwsz) := by
  rw [readString_eq]
  have hempty : stringLen pwsz = 0 → nonempty pwsz = none →
      Parses ERROR_INVALID_DATA
        (readWord >>= fun cch => if cch = 0 then pure none else readChars cch)
        (stringBytes pwsz) (nonempty pwsz) := by
    intro hlen hnone
    have hbytes : stringBytes pwsz = word 0 := by
      rw [stringBytes, hlen]
      simp
    rw [hbytes, hnone]
    exact (parses_readWord 0).map (by rw [if_pos rfl]; exact Parses.pure none)
  rcases pwsz with _ | s
  · exact hempty rfl rfl
  by_cases hs : s.1 = []
  · exact hempty (if_pos hs) (if_pos hs)
  have hfits' : s.1.length + 1 < 2 ^ 16 := hfits
  have hlen : stringLen (some s) = UInt16.ofNat (s.1.length + 1) := if_neg hs
  have htoNat : (stringLen (some s)).toNat = s.1.length + 1 := by
    rw [hlen, UInt16.toNat_ofNat']
    exact Nat.mod_eq_of_lt hfits'
  have hcch : stringLen (some s) ≠ 0 := by
    intro h
    rw [h] at htoNat
    simp at htoNat
  have hchars : (((s.1 ++ [0]).flatMap word).take (2 * (stringLen (some s)).toNat)) =
      (s.1 ++ [0]).flatMap word := by
    rw [List.take_of_length_le]
    rw [length_flatMap_word, htoNat, List.length_append]
    exact Nat.le_refl _
  have hbytes : stringBytes (some s) =
      word (stringLen (some s)) ++ (s.1 ++ [0]).flatMap word := by
    show word (stringLen (some s)) ++ (((s.1 ++ [0]).flatMap word).take _) = _
    rw [hchars]
  have hnonempty : nonempty (some s) = some s := if_neg hs
  have hlength : ((s.1 ++ [0]).flatMap word).length = 2 * (stringLen (some s)).toNat := by
    rw [length_flatMap_word, htoNat, List.length_append]
    rfl
  rw [hbytes, hnonempty]
  refine (parses_readWord _).bind ?_
  rw [if_neg hcch]
  constructor
  · intro pre post
    have hle : pre.length + 2 * (stringLen (some s)).toNat ≤
        (pre ++ ((s.1 ++ [0]).flatMap word ++ post)).length := by
      rw [List.length_append, List.length_append, hlength]
      omega
    have hlast : ((pre ++ ((s.1 ++ [0]).flatMap word ++ post)).drop
        (pre.length + 2 * ((stringLen (some s)).toNat - 1))).take 2 = word 0 := by
      have hoff : 2 * ((stringLen (some s)).toNat - 1) = (s.1.flatMap word).length := by
        rw [length_flatMap_word, htoNat, Nat.add_sub_cancel]
      rw [hoff, List.drop_append, List.drop_eq_nil_of_le (by omega), List.nil_append,
        Nat.add_sub_cancel_left, List.flatMap_append, List.append_assoc, List.drop_left]
      rfl
    have hall : ((pre ++ ((s.1 ++ [0]).flatMap word ++ post)).drop pre.length).take
        (2 * (stringLen (some s)).toNat) = (s.1 ++ [0]).flatMap word := by
      rw [List.drop_left, ← hlength, List.take_left]
    rw [readChars_eq hcch, if_pos hle, hlast, wordOf_word, if_neg (by decide), hall,
      charsOf_flatMap, wideStringOf_append_zero, hlength]
  · intro pre n hn
    have hnot : ¬pre.length + 2 * (stringLen (some s)).toNat ≤
        (pre ++ ((s.1 ++ [0]).flatMap word).take n).length := by
      rw [List.length_append, List.length_take, hlength]
      omega
    rw [readChars_eq hcch, if_neg hnot]

/-! ### Counted data -/

theorem toNat_ofNat_of_lt {n : ℕ} (h : n < 2 ^ 16) : (UInt16.ofNat n).toNat = n := by
  rw [UInt16.toNat_ofNat']
  exact Nat.mod_eq_of_lt h

theorem ofNat_ne_zero {n : ℕ} (hpos : 0 < n) (h : n < 2 ^ 16) : UInt16.ofNat n ≠ 0 := by
  intro hzero
  have htoNat := toNat_ofNat_of_lt h
  rw [hzero] at htoNat
  exact absurd htoNat.symm (Nat.ne_of_gt hpos)

theorem boundedOf_val (bs : { bs : List UInt8 // bs.length < 2 ^ 16 }) : boundedOf bs.1 = bs := by
  have hbs := bs.2
  exact Subtype.ext (List.take_of_length_le (by omega))

theorem parses_readTaskData (bs : { bs : List UInt8 // bs.length < 2 ^ 16 }) :
    Parses ERROR_INVALID_DATA readTaskData (countedBytes bs.1) bs := by
  unfold readTaskData countedBytes
  by_cases hempty : bs.1 = []
  · have hbs : bs = ⟨[], by decide⟩ := Subtype.ext hempty
    rw [hbs]
    exact (parses_readWord 0).bind (by rw [if_pos rfl]; exact Parses.pure _)
  · have hlen := bs.2
    refine (parses_readWord _).bind ?_
    rw [if_neg (ofNat_ne_zero (List.length_pos_of_ne_nil hempty) hlen)]
    refine (parses_advanceOr (toNat_ofNat_of_lt hlen).symm).map ?_
    rw [boundedOf_val]
    exact Parses.pure bs

/-- What is read of reserved data. -/
def reservedDataOf (bs : List UInt8) : ReservedData :=
  { m_pbReserved := if h : 8 ≤ bs.length ∧ bs.length < 2 ^ 16 then some ⟨bs, h⟩ else none
    m_hrStartError := dwordOf ((bs.take 8).take 4)
    m_rgTaskFlags := dwordOf ((bs.take 8).drop 4) }

def readReservedData (cReserved : ℕ) : Loader ReservedData := do
  let q ← position
  let bs ← advanceOr ERROR_INVALID_DATA cReserved
  let reserved ← copyFrom q 8
  pure
    { m_pbReserved := if h : 8 ≤ bs.length ∧ bs.length < 2 ^ 16 then some ⟨bs, h⟩ else none
      m_hrStartError := dwordOf (reserved.take 4)
      m_rgTaskFlags := dwordOf (reserved.drop 4) }

theorem readReservedData_eq {n : ℕ} (hn : 8 ≤ n) (img : List UInt8) (p : ℕ) :
    readReservedData n img p =
      if p + n ≤ img.length then .ok (reservedDataOf ((img.drop p).take n), p + n)
      else .fail ERROR_INVALID_DATA := by
  unfold readReservedData
  rw [bind_ok (show position img p = .ok (p, p) from rfl)]
  by_cases h : p + n ≤ img.length
  · have hread : advanceOr ERROR_INVALID_DATA n img p = .ok ((img.drop p).take n, p + n) := by
      rw [advanceOr_eq, if_pos h]
    have hcopy : (copyFrom p 8 : Loader _) img (p + n) = .ok ((img.drop p).take 8, p + n) :=
      if_pos (by omega)
    have htake : ((img.drop p).take n).take 8 = (img.drop p).take 8 := by
      rw [List.take_take, Nat.min_eq_left hn]
    rw [if_pos h, bind_ok hread, bind_ok hcopy]
    unfold reservedDataOf
    rw [htake]
    rfl
  · have hread : advanceOr ERROR_INVALID_DATA n img p = .fail ERROR_INVALID_DATA := by
      rw [advanceOr_eq, if_neg h]
    rw [if_neg h, bind_fail hread]

theorem parses_readReserved {bs : List UInt8} (hlen : 8 ≤ bs.length) (hlt : bs.length < 2 ^ 16) :
    Parses ERROR_INVALID_DATA readReserved (countedBytes bs) (reservedDataOf bs) := by
  have hunfold : readReserved = readWord >>= fun cReserved =>
      if cReserved = 0 then
        pure { m_pbReserved := none
               m_hrStartError := SCHED_S_TASK_HAS_NOT_RUN
               m_rgTaskFlags := 0 }
      else if cReserved.toNat < 8 then reject ERROR_INVALID_DATA
      else readReservedData cReserved.toNat := rfl
  have htoNat := toNat_ofNat_of_lt hlt
  rw [hunfold]
  unfold countedBytes
  refine (parses_readWord _).bind ?_
  rw [if_neg (ofNat_ne_zero (by omega) hlt), htoNat, if_neg (by omega)]
  constructor
  · intro pre post
    have hle : pre.length + bs.length ≤ (pre ++ (bs ++ post)).length := by
      simp only [List.length_append]
      omega
    rw [readReservedData_eq hlen, if_pos hle, List.drop_left, List.take_left]
  · intro pre n hn
    have hnot : ¬pre.length + bs.length ≤ (pre ++ bs.take n).length := by
      rw [List.length_append, List.length_take]
      omega
    rw [readReservedData_eq hlen, if_neg hnot]

/-! ### Triggers -/

theorem length_numbered (ts : List TASK_TRIGGER) (i : ℕ) :
    (numbered ts i).length = ts.length := by
  induction ts generalizing i with
  | nil => rfl
  | cons t ts ih => rw [numbered, List.length_cons, List.length_cons, ih]

def numberedTriggers (ts : { ts : List TASK_TRIGGER // ts.length < 2 ^ 16 }) :
    { ts : List TASK_TRIGGER // ts.length < 2 ^ 16 } :=
  ⟨numbered ts.1 0, by
    rw [length_numbered]
    exact ts.2⟩

theorem triggersOf_eq (j : CJob)
    (h : (triggersOf (j.m_Triggers.1.flatMap TASK_TRIGGER.bytes)
      (UInt16.ofNat j.m_Triggers.1.length).toNat 0).length < 2 ^ 16) :
    (⟨_, h⟩ : { ts : List TASK_TRIGGER // ts.length < 2 ^ 16 }) =
      numberedTriggers j.m_Triggers := by
  refine Subtype.ext ?_
  show triggersOf _ (UInt16.ofNat j.m_Triggers.1.length).toNat 0 = numbered j.m_Triggers.1 0
  rw [toNat_ofNat_of_lt j.m_Triggers.2, triggersOf_flatMap]

theorem parses_loadTriggersFromBuffer (j : CJob) :
    Parses ERROR_INVALID_DATA loadTriggersFromBuffer j.triggerBytes
      (numberedTriggers j.m_Triggers) := by
  have htoNat := toNat_ofNat_of_lt j.m_Triggers.2
  unfold loadTriggersFromBuffer triggerBytes
  refine (parses_readWord _).bind ?_
  refine (parses_advanceOr (by rw [length_flatMap_bytes, htoNat])).map ?_
  rw [triggersOf_eq j]
  exact Parses.pure _

theorem parses_loadTriggersFromFile (j : CJob) :
    Parses ERROR_INVALID_DATA loadTriggersFromFile j.triggerBytes
      (numberedTriggers j.m_Triggers) := by
  have htoNat := toNat_ofNat_of_lt j.m_Triggers.2
  unfold loadTriggersFromFile triggerBytes
  refine (parses_readWord _).bind ?_
  by_cases hempty : j.m_Triggers.1 = []
  · have hval : numberedTriggers j.m_Triggers = ⟨[], by decide⟩ :=
      Subtype.ext (by show numbered j.m_Triggers.1 0 = []; rw [hempty]; rfl)
    rw [hempty, if_pos (by decide), hval]
    exact Parses.pure _
  · have hpos := List.length_pos_of_ne_nil hempty
    rw [if_neg (ofNat_ne_zero hpos j.m_Triggers.2)]
    refine (parses_readOr (by rw [length_flatMap_bytes, htoNat])).map ?_
    rw [triggersOf_eq j]
    exact Parses.pure _

/-! ### The signature -/

theorem readSignature_none {img : List UInt8} {p : ℕ} (h : img.length < p + 68) :
    ∃ p', readSignature img p = .ok (none, p') := by
  unfold readSignature
  by_cases hhead : p + 4 ≤ img.length
  · rw [bind_ok (show read 4 img p = _ from if_pos hhead)]
    dsimp only
    split_ifs
    · rw [bind_ok (show position img (p + 4) = .ok (p + 4, p + 4) from rfl)]
      rw [bind_ok (show advance 64 img (p + 4) =
        .ok (decide (p + 4 + 64 ≤ img.length), p + 4 + 64) from rfl)]
      rw [if_neg (by simp; omega)]
      exact ⟨_, rfl⟩
    · exact ⟨_, rfl⟩
  · rw [bind_ok (show read 4 img p = _ from if_neg hhead)]
    exact ⟨_, rfl⟩

theorem readSignature_bytes (pre : List UInt8) (j : CJob) :
    ∃ p', readSignature (pre ++ j.signatureBytes) pre.length = .ok (j.m_pbSignature, p') := by
  cases hsig : j.m_pbSignature with
  | none =>
    have hbytes : j.signatureBytes = [] := by
      rw [signatureBytes, hsig]
    rw [hbytes]
    exact readSignature_none (by simp)
  | some bs =>
    have hbs : bs.1.length = 64 := bs.2
    have hbytes : j.signatureBytes =
        (word JOB_SIGNATURE_VERSION ++ word JOB_SIGNATURE_MIN_CLIENT_VERSION) ++ bs.1 := by
      rw [signatureBytes, hsig]
    have hlen : (pre ++ ((word JOB_SIGNATURE_VERSION ++ word JOB_SIGNATURE_MIN_CLIENT_VERSION) ++
        bs.1)).length = pre.length + 4 + 64 := by
      simp only [List.length_append, length_word, hbs]
    have hhead : ((pre ++ ((word JOB_SIGNATURE_VERSION ++ word JOB_SIGNATURE_MIN_CLIENT_VERSION) ++
        bs.1)).drop pre.length).take 4 =
          word JOB_SIGNATURE_VERSION ++ word JOB_SIGNATURE_MIN_CLIENT_VERSION := by
      rw [List.drop_left]
      exact List.take_left' (by simp)
    have htail : ((pre ++ ((word JOB_SIGNATURE_VERSION ++ word JOB_SIGNATURE_MIN_CLIENT_VERSION) ++
        bs.1)).drop (pre.length + 4)).take 64 = bs.1 := by
      rw [← List.append_assoc, List.drop_left' (by simp),
        List.take_of_length_le (Nat.le_of_eq hbs)]
    unfold readSignature
    rw [hbytes, bind_ok (show read 4 _ pre.length = _ from if_pos (by omega)), hhead]
    dsimp only
    rw [if_pos (by decide), bind_ok (show position _ (pre.length + 4) = .ok (_, _) from rfl),
      bind_ok (show advance 64 _ (pre.length + 4) = .ok (_, _) from rfl),
      if_pos (decide_eq_true (by omega)),
      bind_ok (show copyFrom (pre.length + 4) 64 _ _ = _ from if_pos (by omega)), htail,
      blockOf_val]
    exact ⟨_, rfl⟩

end NtAdmin.Sched.Job
