import NtAdmin.Lib.Decimal
import NtAdmin.Wmi.Wbemcomn.DaylightSaving
import NtAdmin.Wmi.Wbemcomn.FileTime

/-! The texts of times in cwbemtime.cpp: yyyymmddHHMMSS.mmmmmm, a sign, and three digits of minutes
to the time of Greenwich. -/
namespace NtAdmin.Wmi
open NtAdmin.Lib

/-! ### Characters -/

def isDigit (c : UInt16) : Bool := 48 ≤ c.toNat ∧ c.toNat ≤ 57

def isSpace (c : UInt16) : Bool := c.toNat = 32 ∨ (9 ≤ c.toNat ∧ c.toNat ≤ 13)

def digitChars (digits : List ℕ) : List UInt16 := digits.map fun d => .ofNat (48 + d)

/-- A `%d` of `swscanf` with a width: the number, and what is left. -/
def scanInt (width : ℕ) (s : List UInt16) : Option (ℤ × List UInt16) :=
  let s := s.dropWhile isSpace
  let signed := s.head? = some 45 ∨ s.head? = some 43
  let width := if signed then width - 1 else width
  let digits := ((if signed then s.tail else s).take width).takeWhile isDigit
  let magnitude := Decimal.value (digits.map fun c => c.toNat - 48)
  if digits = [] then none
  else some (if s.head? = some 45 then -magnitude else magnitude,
    (if signed then s.tail else s).drop digits.length)

/-- A character of the format that has to be there. -/
def scanChar (c : UInt16) : List UInt16 → Option (List UInt16)
  | [] => none
  | c' :: s => if c' = c then some s else none

/-- A `%c` of `swscanf`. -/
def scanAny : List UInt16 → Option (UInt16 × List UInt16)
  | [] => none
  | c :: s => some (c, s)

/-! ### Reading and writing -/

/-- The time that is read, if the text is accepted. -/
def setDMTF (wszText : List UInt16) : Option ℤ :=
  if wszText.length ≠ 25 then none
  else do
    let (nYear, s) ← scanInt 4 wszText
    let (nMonth, s) ← scanInt 2 s
    let (nDay, s) ← scanInt 2 s
    let (nHour, s) ← scanInt 2 s
    let (nMinute, s) ← scanInt 2 s
    let (nSecond, s) ← scanInt 2 s
    let s ← scanChar 46 s
    let (nMicro, s) ← scanInt 6 s
    let (wchSep, s) ← scanAny s
    let (nOffset, _) ← scanInt 3 s
    let nSign : ℤ ←
      if wchSep = 43 then some (-1) else if wchSep = 45 then some 1 else if wchSep = 58 then some 0
      else none
    let st : SystemTime := ⟨toWord nYear, toWord nMonth, 0, toWord nDay, toWord nHour,
      toWord nMinute, toWord nSecond, toWord (nMicro.tdiv 1000)⟩
    let m_i64 ← systemTimeToFileTime st
    some (m_i64 + nSign * nOffset * 60 * 10000000)

def WBEMTIME_LENGTH : ℕ := 25

/-- What is printed, by `%04.4d%02.2d%02.2d%02.2d%02.2d%02.2d.%06.6d%c%03.3ld`. -/
def dmtfText (systime : SystemTime) (micros : ℤ) (chsign : UInt16) (offset : ℤ) : List UInt16 :=
  digitChars (Decimal.printed 4 systime.wYear.toNat) ++
    (digitChars (Decimal.printed 2 systime.wMonth.toNat) ++
    (digitChars (Decimal.printed 2 systime.wDay.toNat) ++
    (digitChars (Decimal.printed 2 systime.wHour.toNat) ++
    (digitChars (Decimal.printed 2 systime.wMinute.toNat) ++
    (digitChars (Decimal.printed 2 systime.wSecond.toNat) ++ 46 ::
    (digitChars (Decimal.printed 6 micros.toNat) ++ chsign ::
      digitChars (Decimal.printed 3 offset.toNat)))))))

/-- The text of a time, if it fits the buffer. -/
def getDMTF (uninit : ℕ × ℕ) (dwRes : TimeZoneId) (tzTime : TimeZoneInformation) (m_i64 : ℤ)
    (bLocal : Bool) (dwBuffLen : ℕ) : Option (List UInt16) :=
  if dwBuffLen < WBEMTIME_LENGTH + 1 then none
  else do
    -- the comparison is unsigned
    let conversionZone : ℤ := 12 * 60 * 60 * 10000000
    let (systime, chsign, offset) ←
      if ¬ bLocal ∨ m_i64 % 2 ^ 64 < conversionZone then
        (fileTimeToSystemTime m_i64).map fun st => (st, (45 : UInt16), (0 : ℤ))
      else do
        let st ← fileTimeToSystemTime m_i64
        let offset := getLocalOffsetForDate uninit dwRes tzTime st
        if offset ≥ 0 then
          some ((fileTimeToSystemTime (m_i64 + offset * 60 * 10000000)).getD st, 43, offset)
        else some ((fileTimeToSystemTime (m_i64 - -offset * 60 * 10000000)).getD st, 45, -offset)
    let micros := m_i64 % 10000000 / 10
    let text := dmtfText systime micros chsign offset
    if text.length < dwBuffLen then some text else none

end NtAdmin.Wmi
