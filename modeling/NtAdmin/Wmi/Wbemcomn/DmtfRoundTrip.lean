import Mathlib.Data.List.TakeWhile
import NtAdmin.Wmi.Wbemcomn.Dmtf

/-! When a time survives its text, and a text its time. -/
namespace NtAdmin.Wmi
open NtAdmin.Lib NtAdmin.Lib.Calendar

/-! ### Texts -/

/-- The fields of a text; the offset is east of Greenwich if `plus`. -/
structure DmtfTime where
  year : ℕ
  month : ℕ
  day : ℕ
  hour : ℕ
  minute : ℕ
  second : ℕ
  micros : ℕ
  plus : Bool
  offset : ℕ

namespace DmtfTime

structure Valid (f : DmtfTime) : Prop where
  year : 1601 ≤ f.year ∧ f.year ≤ 9999
  month : 1 ≤ f.month ∧ f.month ≤ 12
  day : 1 ≤ f.day ∧ f.day ≤ daysInMonth f.year f.month
  hour : f.hour < 24
  minute : f.minute < 60
  second : f.second < 60
  micros : f.micros < 1000000
  offset : f.offset < 1000

def sign (f : DmtfTime) : UInt16 := if f.plus then 43 else 45

def write (f : DmtfTime) : List UInt16 :=
  digitChars (Decimal.fixed 4 f.year) ++ (digitChars (Decimal.fixed 2 f.month) ++
    (digitChars (Decimal.fixed 2 f.day) ++ (digitChars (Decimal.fixed 2 f.hour) ++
    (digitChars (Decimal.fixed 2 f.minute) ++ (digitChars (Decimal.fixed 2 f.second) ++ 46 ::
    (digitChars (Decimal.fixed 6 f.micros) ++ f.sign ::
      digitChars (Decimal.fixed 3 f.offset)))))))

/-- The minutes that the local time is ahead. -/
def ahead (f : DmtfTime) : ℤ := if f.plus then f.offset else -f.offset

/-- The microseconds of the local time. -/
def localMicros (f : DmtfTime) : ℕ :=
  (((dayNumber f.year f.month f.day * 24 + f.hour) * 60 + f.minute) * 60 + f.second) * 1000000 +
    f.micros

/-- The instant in units of 100 nanoseconds. -/
def instant (f : DmtfTime) : ℤ := f.localMicros * 10 - f.ahead * 600000000

end DmtfTime

/-- The text denotes the instant. -/
def Denotes (text : List UInt16) (t : ℤ) : Prop :=
  ∃ f : DmtfTime, f.Valid ∧ f.write = text ∧ f.instant = t

/-! ### Digits -/

theorem toNat_digitChar {d : ℕ} (hd : d < 10) : (UInt16.ofNat (48 + d)).toNat = 48 + d := by
  rw [UInt16.toNat_ofNat']
  omega

theorem isDigit_of_mem {digits : List ℕ} (h : ∀ d ∈ digits, d < 10) {c : UInt16}
    (hc : c ∈ digitChars digits) : isDigit c = true := by
  obtain ⟨d, hd, rfl⟩ := List.mem_map.1 hc
  have hlt := h d hd
  simp only [isDigit, toNat_digitChar hlt, decide_eq_true_eq]
  omega

theorem length_digitChars (digits : List ℕ) : (digitChars digits).length = digits.length :=
  List.length_map _

/-- A number in its width is read back. -/
theorem scanInt_fixed {w n : ℕ} (hw : w ≠ 0) (hn : n < 10 ^ w) (rest : List UInt16) :
    scanInt w (digitChars (Decimal.fixed w n) ++ rest) = some ((n : ℤ), rest) := by
  have hlt : ∀ d ∈ Decimal.fixed w n, d < 10 := fun d hd => Decimal.lt_ten_of_mem_fixed hd
  have hvalue := Decimal.value_fixed hn
  have hlength := Decimal.length_fixed w n
  generalize Decimal.fixed w n = digits at hlt hvalue hlength
  cases digits with
  | nil => exact absurd hlength.symm hw
  | cons d digits =>
    have hd := toNat_digitChar (hlt d List.mem_cons_self)
    have hhead : isDigit (UInt16.ofNat (48 + d)) = true :=
      isDigit_of_mem hlt (List.mem_map_of_mem List.mem_cons_self)
    have hspace : ((digitChars (d :: digits) ++ rest).dropWhile isSpace) =
        digitChars (d :: digits) ++ rest := by
      refine List.dropWhile_cons_of_neg ?_
      simp only [isSpace, hd, decide_eq_true_eq]
      omega
    have hne : ∀ c : UInt16, c.toNat < 48 → (digitChars (d :: digits) ++ rest).head? ≠ some c := by
      intro c hc hsome
      have hsame : UInt16.ofNat (48 + d) = c := Option.some.inj hsome
      rw [← hsame, hd] at hc
      omega
    have hminus := hne 45 (by decide)
    have hplus := hne 43 (by decide)
    have htake : (digitChars (d :: digits) ++ rest).take w = digitChars (d :: digits) := by
      rw [List.take_append_of_le_length (by rw [length_digitChars, hlength]),
        List.take_of_length_le (by rw [length_digitChars, hlength])]
    have hall : (digitChars (d :: digits)).takeWhile isDigit = digitChars (d :: digits) :=
      List.takeWhile_eq_self_iff.2 fun c hc => isDigit_of_mem hlt hc
    have hback : (digitChars (d :: digits)).map (fun c => c.toNat - 48) = d :: digits := by
      rw [digitChars, List.map_map]
      refine (List.map_congr_left fun d' hd' => ?_).trans (List.map_id _)
      have hd'' := toNat_digitChar (hlt d' hd')
      simp only [Function.comp_apply, hd'', id_eq]
      omega
    unfold scanInt
    simp only [hspace, hminus, hplus, or_self, if_false, htake, hall, hback, hvalue]
    rw [if_neg (by simp [digitChars])]
    rw [List.drop_left]

theorem DmtfTime.length_write (f : DmtfTime) : f.write.length = 25 := by
  simp [write, digitChars]

/-- The broken-down time of the fields. -/
def DmtfTime.systemTime (f : DmtfTime) : SystemTime :=
  ⟨toWord f.year, toWord f.month, 0, toWord f.day, toWord f.hour, toWord f.minute,
    toWord f.second, toWord ((f.micros : ℤ).tdiv 1000)⟩

theorem DmtfTime.Valid.systemTime {f : DmtfTime} (h : f.Valid) :
    f.systemTime.Valid ∧
      f.systemTime.units = (f.localMicros - f.micros % 1000) * 10 := by
  obtain ⟨hyear, hmonth, hday, hhour, hminute, hsecond, hmicros, -⟩ := h
  have hlength := (daysInMonth_bounds f.year hmonth.1 hmonth.2).2
  have hnat {n : ℕ} (hn : n < 65536) : (toWord n).toNat = n := by
    have hword := toNat_toWord (x := n) (by omega) (by omega)
    exact_mod_cast hword
  have htdiv : (f.micros : ℤ).tdiv 1000 = (f.micros / 1000 : ℕ) := by
    rw [Int.tdiv_eq_ediv_of_nonneg (by omega)]
    rfl
  have hyear' := hnat (show f.year < 65536 by omega)
  have hmonth' := hnat (show f.month < 65536 by omega)
  have hday' := hnat (show f.day < 65536 by omega)
  have hhour' := hnat (show f.hour < 65536 by omega)
  have hminute' := hnat (show f.minute < 65536 by omega)
  have hsecond' := hnat (show f.second < 65536 by omega)
  have hmillis := hnat (show f.micros / 1000 < 65536 by omega)
  constructor
  · simp only [SystemTime.Valid, SystemTime.ValidClock, DmtfTime.systemTime, hyear', hmonth', hday',
      hhour', hminute', hsecond', htdiv, hmillis]
    omega
  · simp only [SystemTime.units, SystemTime.clock, DmtfTime.systemTime, hyear', hmonth', hday',
      hhour', hminute', hsecond', htdiv, hmillis, localMicros]
    omega

/-- The fields are read back one by one, and the microseconds behind the milliseconds are lost. -/
theorem setDMTF_write {f : DmtfTime} (h : f.Valid) :
    setDMTF f.write = some (f.instant - (f.micros % 1000 : ℕ) * 10) := by
  obtain ⟨hvalid, hunits⟩ := h.systemTime
  have hlength := f.length_write
  unfold setDMTF
  rw [if_neg (by rw [hlength]; simp)]
  obtain ⟨hyear, hmonth, hday, hhour, hminute, hsecond, hmicros, hoffset⟩ := h
  have hlength := (daysInMonth_bounds f.year hmonth.1 hmonth.2).2
  have hscan {w n : ℕ} (hw : w ≠ 0) (hn : n < 10 ^ w) := scanInt_fixed hw hn
  have hoffset' := hscan (w := 3) (by decide) (show f.offset < 10 ^ 3 by omega) []
  rw [List.append_nil] at hoffset'
  have htime : systemTimeToFileTime ⟨toWord f.year, toWord f.month, 0, toWord f.day,
      toWord f.hour, toWord f.minute, toWord f.second, toWord ((f.micros : ℤ).tdiv 1000)⟩ =
      some ((f.localMicros - f.micros % 1000) * 10) :=
    (systemTimeToFileTime_of_valid hvalid).trans (congrArg some hunits)
  have hmod : f.micros % 1000 ≤ f.localMicros := by
    rw [DmtfTime.localMicros]
    omega
  rw [DmtfTime.write, hscan (by decide) (show f.year < 10 ^ 4 by omega)]
  dsimp only [Option.bind_eq_bind, Option.bind_some]
  rw [hscan (by decide) (show f.month < 10 ^ 2 by omega)]
  dsimp only [Option.bind_some]
  rw [hscan (by decide) (show f.day < 10 ^ 2 by omega)]
  dsimp only [Option.bind_some]
  rw [hscan (by decide) (show f.hour < 10 ^ 2 by omega)]
  dsimp only [Option.bind_some]
  rw [hscan (by decide) (show f.minute < 10 ^ 2 by omega)]
  dsimp only [Option.bind_some]
  rw [hscan (by decide) (show f.second < 10 ^ 2 by omega)]
  dsimp only [Option.bind_some]
  rw [scanChar, if_pos rfl]
  dsimp only [Option.bind_some]
  rw [hscan (by decide) (show f.micros < 10 ^ 6 by omega)]
  dsimp only [Option.bind_some, scanAny]
  rw [hoffset', htime]
  dsimp only [Option.bind_some]
  cases hplus : f.plus with
  | true =>
    simp only [DmtfTime.sign, DmtfTime.instant, DmtfTime.ahead, hplus, if_true]
    congr 1
    push_cast [hmod]
    omega
  | false =>
    simp only [DmtfTime.sign, DmtfTime.instant, DmtfTime.ahead, hplus]
    simp only [Bool.false_eq_true, if_false, if_true, show ¬ (45 : UInt16) = 43 by decide]
    congr 1
    push_cast [hmod]
    omega

/-! ### Writing -/

theorem seconds_of_units {n hour minute second millis : ℕ} {t : ℤ} (_ : 0 ≤ t) (_ : hour < 24)
    (_ : minute < 60) (_ : second < 60) (_ : millis < 1000)
    (hunits : (((n * 86400000 + (((hour * 60 + minute) * 60 + second) * 1000 + millis)) *
      10000 : ℕ) : ℤ) = t / 10000 * 10000) :
    (((((n * 24 + hour) * 60 + minute) * 60 + second) * 1000000 +
      (t % 10000000 / 10).toNat : ℕ) : ℤ) = t / 10 := by
  push_cast at hunits ⊢
  rw [Int.toNat_of_nonneg (by omega)]
  have hseconds : ((n * 24 + hour) * 60 + minute) * 60 + second = t / 10000000 := by omega
  omega

/-- The fields that are written. -/
def DmtfTime.ofSystemTime (st : SystemTime) (micros : ℕ) (plus : Bool) (offset : ℕ) : DmtfTime :=
  ⟨st.wYear.toNat, st.wMonth.toNat, st.wDay.toNat, st.wHour.toNat, st.wMinute.toNat,
    st.wSecond.toNat, micros, plus, offset⟩

section write
variable {st : SystemTime} {micros offset : ℕ} {plus : Bool}

theorem DmtfTime.ofSystemTime_valid (hst : st.Valid) (hyear : st.wYear.toNat < 10000)
    (hmicros : micros < 1000000) (hoffset : offset < 1000) :
    (ofSystemTime st micros plus offset).Valid := by
  obtain ⟨hyear', hmonth, hday, hhour, hminute, hsecond, -⟩ := hst
  exact ⟨⟨hyear'.1, by dsimp only [ofSystemTime]; omega⟩, hmonth, hday, hhour, hminute, hsecond,
    hmicros, hoffset⟩

/-- What is printed for a year of four digits. -/
theorem dmtfText_eq_write (hst : st.Valid) (hyear : st.wYear.toNat < 10000)
    (hmicros : micros < 1000000) (hoffset : offset < 1000) :
    dmtfText st micros (if plus then 43 else 45) offset =
      (DmtfTime.ofSystemTime st micros plus offset).write := by
  obtain ⟨-, hmonth, hday, hhour, hminute, hsecond, -⟩ := hst
  have hlength := (daysInMonth_bounds st.wYear.toNat hmonth.1 hmonth.2).2
  have hprint {w n : ℕ} (hw : w ≠ 0) (hn : n < 10 ^ w) := Decimal.printed_eq_fixed hw hn
  rw [dmtfText, Int.toNat_natCast, Int.toNat_natCast, hprint (by decide) (by omega),
    hprint (by decide) (by omega), hprint (by decide) (by omega), hprint (by decide) (by omega),
    hprint (by decide) (by omega), hprint (by decide) (by omega), hprint (by decide) (by omega),
    hprint (by decide) (by omega)]
  rfl

/-- Larger years are longer. -/
theorem lt_length_dmtfText (hyear : 10000 ≤ st.wYear.toNat) (m : ℤ) (c : UInt16) (o : ℤ) :
    25 < (dmtfText st m c o).length := by
  have hlong := Decimal.lt_length_printed (w := 4) hyear
  have hlength (w n : ℕ) : w ≤ (Decimal.printed w n).length := by
    rw [Decimal.printed, Decimal.length_fixed]
    exact le_max_left _ _
  have hmonth := hlength 2 st.wMonth.toNat
  have hday := hlength 2 st.wDay.toNat
  have hhour := hlength 2 st.wHour.toNat
  have hminute := hlength 2 st.wMinute.toNat
  have hsecond := hlength 2 st.wSecond.toNat
  have hmicros := hlength 6 m.toNat
  have hoffset := hlength 3 o.toNat
  simp only [dmtfText, List.length_append, List.length_cons, length_digitChars]
  omega

/-- The local time that is written. -/
theorem DmtfTime.localMicros_ofSystemTime {t : ℤ} (ht : 0 ≤ t) (hst : st.Valid)
    (hunits : (st.units : ℤ) = t / 10000 * 10000) :
    ((ofSystemTime st (t % 10000000 / 10).toNat plus offset).localMicros : ℤ) = t / 10 := by
  obtain ⟨-, -, -, hhour, hminute, hsecond, hmillis⟩ := hst
  exact seconds_of_units ht hhour hminute hsecond hmillis hunits

end write

/-! ### Times to texts -/

section times
variable {uninit : ℕ × ℕ} {dwRes : TimeZoneId} {tzTime : TimeZoneInformation} {t : ℤ}
  {dwBuffLen : ℕ}

/-- The local offset in minutes at a time. -/
def localOffset (uninit : ℕ × ℕ) (dwRes : TimeZoneId) (tzTime : TimeZoneInformation) (t : ℤ) : ℤ :=
  ((fileTimeToSystemTime t).map (getLocalOffsetForDate uninit dwRes tzTime)).getD 0

/-- The first 12 hours are written as the time of Greenwich. -/
def conversionZone : ℤ := 432000000000

/-- What is written when a broken-down time is at hand. -/
def emit (dwBuffLen : ℕ) (text : List UInt16) : Option (List UInt16) :=
  if text.length < dwBuffLen then some text else none

theorem getDMTF_utc (hbuff : 26 ≤ dwBuffLen) {bLocal : Bool} {st : SystemTime}
    (hutc : ¬ bLocal ∨ t % 2 ^ 64 < conversionZone) (hst : fileTimeToSystemTime t = some st) :
    getDMTF uninit dwRes tzTime t bLocal dwBuffLen =
      emit dwBuffLen (dmtfText st (t % 10000000 / 10) 45 0) := by
  unfold conversionZone at hutc
  unfold getDMTF
  rw [if_neg (by rw [WBEMTIME_LENGTH]; omega)]
  dsimp only
  rw [if_pos (by norm_num; simpa using hutc), hst]
  rfl

theorem getDMTF_local (hbuff : 26 ≤ dwBuffLen) {st : SystemTime}
    (hlocal : ¬ t % 2 ^ 64 < conversionZone) (hst : fileTimeToSystemTime t = some st) :
    let offset := localOffset uninit dwRes tzTime t
    getDMTF uninit dwRes tzTime t true dwBuffLen =
      emit dwBuffLen (dmtfText ((fileTimeToSystemTime (t + offset * 600000000)).getD st)
        (t % 10000000 / 10) (if 0 ≤ offset then 43 else 45) offset.natAbs) := by
  have hoffset : localOffset uninit dwRes tzTime t =
      getLocalOffsetForDate uninit dwRes tzTime st := by
    rw [localOffset, hst]
    rfl
  rw [hoffset]
  generalize hvalue : getLocalOffsetForDate uninit dwRes tzTime st = offset
  unfold conversionZone at hlocal
  unfold getDMTF
  rw [if_neg (by rw [WBEMTIME_LENGTH]; omega)]
  dsimp only
  rw [if_neg (by norm_num; simpa using hlocal), hst]
  dsimp only [Option.bind_eq_bind, Option.bind_some]
  rw [hvalue]
  by_cases hsign : 0 ≤ offset
  · rw [if_pos (show offset ≥ 0 from hsign), if_pos hsign, Int.natAbs_of_nonneg hsign,
      Int.mul_assoc]
    rfl
  · rw [if_neg (show ¬ offset ≥ 0 from hsign), if_neg hsign, Int.ofNat_natAbs_of_nonpos (by omega),
      Int.neg_mul, Int.neg_mul, sub_neg_eq_add, Int.mul_assoc]
    rfl

theorem emit_write (hbuff : 26 ≤ dwBuffLen) (f : DmtfTime) :
    emit dwBuffLen f.write = some f.write := by
  rw [emit, if_pos (by rw [f.length_write]; omega)]

/-- What is written for a local time `s`, with a sign and an offset. -/
theorem exists_write {s : ℤ} (hs : 0 ≤ s) (hs' : s < endOfYear9999)
    (hmicros : s % 10000000 = t % 10000000) {st : SystemTime}
    (hst : fileTimeToSystemTime s = some st) (plus : Bool) {offset : ℕ} (hoffset : offset < 1000) :
    ∃ f : DmtfTime, f.Valid ∧
      dmtfText st (t % 10000000 / 10) (if plus then 43 else 45) offset = f.write ∧
      f.instant = s / 10 * 10 - (if plus then (offset : ℤ) else -offset) * 600000000 ∧
      (f.micros : ℤ) = t % 10000000 / 10 := by
  obtain ⟨st', hst', hvalid, hunits, -, hyear⟩ :=
    fileTimeToSystemTime_spec hs (by unfold endOfYear9999 at *; omega)
  obtain rfl := Option.some.inj (hst.symm.trans hst')
  have hmicros' : ((s % 10000000 / 10).toNat : ℤ) = s % 10000000 / 10 :=
    Int.toNat_of_nonneg (by omega)
  have hlt : (s % 10000000 / 10).toNat < 1000000 := by omega
  refine ⟨DmtfTime.ofSystemTime st (s % 10000000 / 10).toNat plus offset,
    DmtfTime.ofSystemTime_valid hvalid (hyear.2 hs') hlt hoffset, ?_, ?_, ?_⟩
  · rw [← dmtfText_eq_write hvalid (hyear.2 hs') hlt hoffset, hmicros', hmicros]
  · rw [DmtfTime.instant, DmtfTime.localMicros_ofSystemTime hs hvalid hunits]
    rfl
  · rw [← hmicros]
    exact hmicros'

/-- The text of a time gives the time of its microseconds back. -/
def TimeSurvives (uninit : ℕ × ℕ) (dwRes : TimeZoneId) (tzTime : TimeZoneInformation) (t : ℤ)
    (bLocal : Bool) (dwBuffLen : ℕ) : Prop :=
  ∃ text, getDMTF uninit dwRes tzTime t bLocal dwBuffLen = some text ∧
    setDMTF text = some (t / 10 * 10)

/-- A text that is read to the millisecond. -/
theorem survives_write_iff {f : DmtfTime} (hf : f.Valid)
    (hmicros : (f.micros : ℤ) = t % 10000000 / 10) (shift : ℤ)
    (hinstant : f.instant = t / 10 * 10 + shift * 600000000) :
    setDMTF f.write = some (t / 10 * 10) ↔ shift = 0 ∧ t % 10000 < 10 := by
  rw [setDMTF_write hf, Option.some.injEq, hinstant]
  push_cast
  rw [hmicros]
  omega

/-- The texts that a time is written to: at Greenwich, or with its local time. -/
theorem timeSurvives_iff (ht : 0 ≤ t) (ht' : t < endOfYear9999)
    (hoffset : |localOffset uninit dwRes tzTime t| < 1000) (hbuff : 26 ≤ dwBuffLen)
    (bLocal : Bool) :
    TimeSurvives uninit dwRes tzTime t bLocal dwBuffLen ↔ t % 10000 < 10 ∧
      (bLocal = true → conversionZone ≤ t →
        0 ≤ t + localOffset uninit dwRes tzTime t * 600000000 ∧
        t + localOffset uninit dwRes tzTime t * 600000000 < endOfYear9999) := by
  have hbound : t < 2 * endOfYear9999 := by unfold endOfYear9999 at *; omega
  have hmod : t % 2 ^ 64 = t := Int.emod_eq_of_lt ht (by unfold endOfYear9999 at *; omega)
  obtain ⟨st, hst, -⟩ := fileTimeToSystemTime_spec ht hbound
  by_cases hutc : ¬ bLocal = true ∨ t < conversionZone
  · have hcond : ¬ bLocal = true ∨ t % 2 ^ 64 < conversionZone := by rwa [hmod]
    obtain ⟨f, hf, htext, hinstant, hmicros⟩ :=
      exists_write ht ht' rfl hst false (show 0 < 1000 by norm_num)
    have hwritten : getDMTF uninit dwRes tzTime t bLocal dwBuffLen = some f.write := by
      rw [getDMTF_utc hbuff hcond hst, ← emit_write hbuff f, ← htext]
      rfl
    have hutc' : ¬ (bLocal = true ∧ conversionZone ≤ t) := fun h =>
      hutc.elim (fun h' => h' h.1) (fun h' => absurd h.2 (not_le.2 h'))
    have hread := survives_write_iff hf hmicros 0 (by simpa using hinstant)
    simp only [TimeSurvives, hwritten, Option.some.injEq, exists_eq_left', hread, true_and]
    constructor
    · intro h
      exact ⟨h, fun h₁ h₂ => absurd ⟨h₁, h₂⟩ hutc'⟩
    · exact fun h => h.1
  · rw [not_or, not_not, not_lt] at hutc
    obtain ⟨hlocal, hzone⟩ := hutc
    have hcond : ¬ t % 2 ^ 64 < conversionZone := by rwa [hmod, not_lt]
    have hwritten := @getDMTF_local uninit dwRes tzTime t dwBuffLen hbuff st hcond hst
    rw [TimeSurvives, hlocal]
    generalize localOffset uninit dwRes tzTime t = offset at *
    rw [abs_lt] at hoffset
    have habs : offset.natAbs < 1000 := by omega
    have hsigned :
        (if decide (0 ≤ offset) then (offset.natAbs : ℤ) else -offset.natAbs) = offset := by
      simp only [decide_eq_true_eq]
      split_ifs <;> omega
    have hsign : (if 0 ≤ offset then 43 else 45 : UInt16) =
        if decide (0 ≤ offset) then 43 else 45 := by simp only [decide_eq_true_eq]
    dsimp only at hwritten
    rw [hsign] at hwritten
    have hmicros : (t + offset * 600000000) % 10000000 = t % 10000000 := by omega
    have hshift : (t + offset * 600000000) / 10 * 10 = t / 10 * 10 + offset * 600000000 := by omega
    by_cases hnegative : t + offset * 600000000 < 0
    · -- the time of Greenwich is written with the local offset
      obtain ⟨f, hf, htext, hinstant, hmicros⟩ :=
        exists_write ht ht' rfl hst (decide (0 ≤ offset)) habs
      rw [fileTimeToSystemTime_neg hnegative, Option.getD_none, htext, emit_write hbuff] at hwritten
      rw [hsigned] at hinstant
      have hread := survives_write_iff hf hmicros (-offset) (by rw [hinstant]; ring)
      simp only [hwritten, Option.some.injEq, exists_eq_left', hread]
      constructor
      · rintro ⟨hzero, -⟩
        omega
      · intro h
        exact absurd (h.2 trivial hzone).1 (by omega)
    · rw [not_lt] at hnegative
      obtain ⟨st', hst', -, -, -, hyear⟩ := fileTimeToSystemTime_spec hnegative
        (by unfold endOfYear9999 at *; omega)
      rw [hst', Option.getD_some] at hwritten
      by_cases hend : t + offset * 600000000 < endOfYear9999
      · obtain ⟨f, hf, htext, hinstant, hmicros⟩ :=
          exists_write hnegative hend hmicros hst' (decide (0 ≤ offset)) habs
        rw [htext, emit_write hbuff] at hwritten
        rw [hsigned, hshift] at hinstant
        have hread := survives_write_iff hf hmicros 0 (by rw [hinstant]; ring)
        simp only [hwritten, Option.some.injEq, exists_eq_left', hread, true_and]
        exact ⟨fun h => ⟨h, fun _ _ => ⟨hnegative, hend⟩⟩, fun h => h.1⟩
      · -- a year of five digits
        have hlong := @lt_length_dmtfText st' (by omega) (t % 10000000 / 10)
          (if decide (0 ≤ offset) then 43 else 45) offset.natAbs
        generalize dmtfText st' _ _ _ = text at hwritten hlong
        constructor
        · rintro ⟨text', hget, hread⟩
          rw [hwritten, emit] at hget
          split_ifs at hget
          obtain rfl := Option.some.inj hget
          rw [setDMTF, if_pos (by omega)] at hread
          nomatch hread
        · intro h
          exact absurd (h.2 rfl hzone).2 hend

end times

/-! ### Texts to times -/

/-- The time that is read from a text is written to a text of the same instant. -/
def TextSurvives (uninit : ℕ × ℕ) (dwRes : TimeZoneId) (tzTime : TimeZoneInformation)
    (f : DmtfTime) (dwBuffLen : ℕ) : Prop :=
  ∃ t text, setDMTF f.write = some t ∧ getDMTF uninit dwRes tzTime t false dwBuffLen = some text ∧
    Denotes text f.instant

theorem fixed_append_inj {w a b : ℕ} {s s' : List UInt16} (ha : a < 10 ^ w) (hb : b < 10 ^ w)
    (h : digitChars (Decimal.fixed w a) ++ s = digitChars (Decimal.fixed w b) ++ s') :
    a = b ∧ s = s' := by
  obtain ⟨hdigits, hrest⟩ := List.append_inj h (by simp [length_digitChars])
  cases w with
  | zero =>
    rw [pow_zero] at ha hb
    exact ⟨by omega, hrest⟩
  | succ w =>
    have hread := scanInt_fixed (Nat.succ_ne_zero w) ha []
    rw [hdigits, scanInt_fixed (Nat.succ_ne_zero w) hb []] at hread
    have hvalue : (b : ℤ) = a := congrArg Prod.fst (Option.some.inj hread)
    exact ⟨by exact_mod_cast hvalue.symm, hrest⟩

/-- A text denotes one instant. -/
theorem DmtfTime.instant_eq_of_write_eq {f g : DmtfTime} (hf : f.Valid) (hg : g.Valid)
    (h : f.write = g.write) : f.instant = g.instant := by
  have hdayf := (daysInMonth_bounds f.year hf.month.1 hf.month.2).2
  have hdayg := (daysInMonth_bounds g.year hg.month.1 hg.month.2).2
  obtain ⟨hf₁, hf₂, hf₃, hf₄, hf₅, hf₆, hf₇, hf₈⟩ := hf
  obtain ⟨hg₁, hg₂, hg₃, hg₄, hg₅, hg₆, hg₇, hg₈⟩ := hg
  rw [write, write] at h
  obtain ⟨hyear, h⟩ := fixed_append_inj (by omega) (by omega) h
  obtain ⟨hmonth, h⟩ := fixed_append_inj (by omega) (by omega) h
  obtain ⟨hday, h⟩ := fixed_append_inj (by omega) (by omega) h
  obtain ⟨hhour, h⟩ := fixed_append_inj (by omega) (by omega) h
  obtain ⟨hminute, h⟩ := fixed_append_inj (by omega) (by omega) h
  obtain ⟨hsecond, h⟩ := fixed_append_inj (by omega) (by omega) h
  obtain ⟨hmicros, h⟩ := fixed_append_inj (by omega) (by omega) (List.cons.inj h).2
  obtain ⟨hsign, h⟩ := List.cons.inj h
  rw [← List.append_nil (digitChars _),
    ← List.append_nil (digitChars (Decimal.fixed 3 g.offset))] at h
  obtain ⟨hoffset, -⟩ := fixed_append_inj (by omega) (by omega) h
  have hplus : f.plus = g.plus := by
    rw [sign, sign] at hsign
    cases hf : f.plus <;> cases hg : g.plus <;> simp_all
  rw [instant, instant, localMicros, localMicros, ahead, ahead, hyear, hmonth, hday, hhour, hminute,
    hsecond, hmicros, hplus, hoffset]

theorem DmtfTime.Valid.instant_lt {f : DmtfTime} (hf : f.Valid) :
    f.instant < 2 * endOfYear9999 := by
  have hday := (daysInMonth_bounds f.year hf.month.1 hf.month.2).2
  have hmonths := daysBeforeMonth_le f.year (show f.month - 1 ≤ 12 by have := hf.month; omega)
  have hyears := daysOfYears_mono (show f.year - 1601 ≤ 8399 by have := hf.year; omega)
  obtain ⟨-, hmonth, hday', hhour, hminute, hsecond, hmicros, hoffset⟩ := hf
  rw [Nat.sub_add_cancel hmonth.1] at hmonths
  rw [daysOfYears_8399] at hyears
  have hnumber : dayNumber f.year f.month f.day < 3068100 := by
    rw [dayNumber]
    omega
  have hahead : -1000 < f.ahead := by
    rw [ahead]
    split_ifs <;> omega
  rw [instant, localMicros, endOfYear9999]
  generalize dayNumber f.year f.month f.day = n at hnumber
  omega

theorem getDMTF_neg {uninit : ℕ × ℕ} {dwRes : TimeZoneId} {tzTime : TimeZoneInformation} {t : ℤ}
    (ht : t < 0) (dwBuffLen : ℕ) : getDMTF uninit dwRes tzTime t false dwBuffLen = none := by
  unfold getDMTF
  split_ifs with hbuff
  · rfl
  · dsimp only
    rw [if_pos (by norm_num), fileTimeToSystemTime_neg ht]
    rfl

theorem textSurvives_iff {uninit : ℕ × ℕ} {dwRes : TimeZoneId} {tzTime : TimeZoneInformation}
    {dwBuffLen : ℕ} (hbuff : 26 ≤ dwBuffLen) {f : DmtfTime} (hf : f.Valid) :
    TextSurvives uninit dwRes tzTime f dwBuffLen ↔
      f.micros % 1000 = 0 ∧ 0 ≤ f.instant ∧ f.instant < endOfYear9999 := by
  have hread := setDMTF_write hf
  have hlt := hf.instant_lt
  have hlost : 0 ≤ ((f.micros % 1000 : ℕ) : ℤ) := Int.natCast_nonneg _
  have hmultiple : f.instant % 10 = 0 := by
    rw [DmtfTime.instant]
    omega
  simp only [TextSurvives, hread, Option.some.injEq, exists_and_left, exists_eq_left']
  generalize hu : f.instant - ((f.micros % 1000 : ℕ) : ℤ) * 10 = u
  by_cases hnegative : u < 0
  · rw [getDMTF_neg hnegative]
    constructor
    · rintro ⟨text, hnone, -⟩
      nomatch hnone
    · rintro ⟨hmicros, hpos, -⟩
      rw [hmicros] at hu
      omega
  · rw [not_lt] at hnegative
    obtain ⟨st, hst, -, -, -, hyear⟩ := fileTimeToSystemTime_spec hnegative (by omega)
    rw [getDMTF_utc hbuff (Or.inl Bool.false_ne_true) hst]
    by_cases hend : u < endOfYear9999
    · obtain ⟨g, hg, htext, hinstant, -⟩ :=
        exists_write hnegative hend rfl hst false (show 0 < 1000 by norm_num)
      have hinstant' : g.instant = u := by
        rw [hinstant]
        simp only [Bool.false_eq_true, if_false, Nat.cast_zero, neg_zero, zero_mul, sub_zero]
        omega
      have hwritten : emit dwBuffLen (dmtfText st (u % 10000000 / 10) 45 0) = some g.write := by
        rw [← emit_write hbuff g, ← htext]
        rfl
      simp only [hwritten, Option.some.injEq, exists_eq_left']
      constructor
      · rintro ⟨f', hf', hwrite, hsame⟩
        have hinstants := DmtfTime.instant_eq_of_write_eq hf' hg hwrite
        refine ⟨?_, ?_, ?_⟩ <;> omega
      · rintro ⟨hmicros, -, -⟩
        rw [hmicros] at hu
        exact ⟨g, hg, rfl, by rw [hinstant', ← hu]; simp⟩
    · have hlong := lt_length_dmtfText (by omega : 10000 ≤ st.wYear.toNat) (u % 10000000 / 10) 45 0
      constructor
      · rintro ⟨text, hget, f', -, hwrite, -⟩
        rw [emit] at hget
        split_ifs at hget
        have hlength := f'.length_write
        rw [hwrite, ← Option.some.inj hget] at hlength
        omega
      · rintro ⟨-, -, h⟩
        omega

/-! ### Round trips -/

/-- A time up to the year 9999 survives its text exactly when it is a whole number of milliseconds,
to the microsecond, and its local time, where that is written, is from 1601 to 9999. A text survives
its time exactly when it has no microseconds beside its milliseconds and its instant is from 1601 to
9999. -/
theorem dmtf_round_trip (uninit : ℕ × ℕ) (dwRes : TimeZoneId) (tzTime : TimeZoneInformation)
    {dwBuffLen : ℕ} (hbuff : 26 ≤ dwBuffLen) :
    (∀ (t : ℤ) (bLocal : Bool), 0 ≤ t → t < endOfYear9999 →
      |localOffset uninit dwRes tzTime t| < 1000 →
      (TimeSurvives uninit dwRes tzTime t bLocal dwBuffLen ↔ t % 10000 < 10 ∧
        (bLocal = true → conversionZone ≤ t →
          0 ≤ t + localOffset uninit dwRes tzTime t * 600000000 ∧
          t + localOffset uninit dwRes tzTime t * 600000000 < endOfYear9999))) ∧
    ∀ f : DmtfTime, f.Valid → (TextSurvives uninit dwRes tzTime f dwBuffLen ↔
      f.micros % 1000 = 0 ∧ 0 ≤ f.instant ∧ f.instant < endOfYear9999) :=
  ⟨fun _ bLocal ht ht' hoffset => timeSurvives_iff ht ht' hoffset hbuff bLocal,
    fun _ hf => textSurvives_iff hbuff hf⟩

/-- Greenwich without daylight saving. -/
def greenwich : TimeZoneInformation :=
  ⟨0, ⟨0, 0, 0, 0, 0, 0, 0, 0⟩, 0, ⟨0, 0, 0, 0, 0, 0, 0, 0⟩, 0⟩

/-- One microsecond after the start of 1601. -/
theorem microsecond_lost :
    ¬ TimeSurvives (0, 0) .unknown greenwich 10 false 26 := by
  rw [timeSurvives_iff (by decide) (by decide) (by decide) (by decide)]
  decide

/-- One hour ahead of Greenwich, without daylight saving. -/
def tunis : TimeZoneInformation :=
  ⟨-60, ⟨0, 0, 0, 0, 0, 0, 0, 0⟩, 0, ⟨0, 0, 0, 0, 0, 0, 0, 0⟩, 0⟩

/-- One millisecond after noon on 30 June 2003, as the local time of Tunis. -/
theorem dmtf_round_trip_of_millisecond :
    TimeSurvives (0, 0) .unknown tunis 127014480000010000 true 26 :=
  ((dmtf_round_trip (0, 0) .unknown tunis (show 26 ≤ 26 by decide)).1 127014480000010000 true
    (by decide) (by decide) (by decide +kernel)).2 (by decide +kernel)

end NtAdmin.Wmi
