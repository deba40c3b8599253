import Mathlib.Data.List.Forall2
import Mathlib.Data.List.Nodup
import NtAdmin.Wmi.Btr.StringPool

/-! Adding keys to a page of btr.cpp and removing them: the encoding of keys by numbers of strings.
Memory can be allocated; `none` is a write behind an array. -/
namespace NtAdmin.Wmi.Btr
open Lib Win32Error

def MAX_TOKENS_PER_KEY : ℕ := 32
def const_DefaultArray : ℕ := 256

/-- The arrays of a page as far as they are used, with the sizes of those that grow. The arrays of
user data and child pages grow with the one for the lookup. -/
structure GrowingTable where
  pwKeyLookup : List UInt16
  pdwUserData : List UInt32
  pdwChildPageMap : List UInt32
  pwKeyCodes : List UInt16
  pStrPool : GrowingPool
  dwKeyLookupTotalSize : ℕ
  dwKeyCodesTotalSize : ℕ

/-- The loop of `ParseIntoTokens`, behind `dwParseCount` tokens and with `pszTempBuf` read of the
next. -/
def parseLoop (dwParseCount : ℕ) (pszTempBuf : List UInt8) :
    List UInt8 → Except Win32Error (List (List UInt8))
  | [] => if dwParseCount = MAX_TOKENS_PER_KEY then .error ERROR_INVALID_DATA else .ok [pszTempBuf]
  | c :: pszSource =>
    if c = 0x5C then
      if dwParseCount = MAX_TOKENS_PER_KEY then .error ERROR_INVALID_DATA
      else (parseLoop (dwParseCount + 1) [] pszSource).map fun tokens => pszTempBuf :: tokens
    else parseLoop dwParseCount (pszTempBuf ++ [c]) pszSource

def parseIntoTokens (pszSource : List UInt8) : Except Win32Error (List (List UInt8)) :=
  if pszSource = [] then .error ERROR_INVALID_PARAMETER else parseLoop 0 [] pszSource

/-- What `AdjustKeyCodes` makes of a code. -/
def adjustCode (wID : ℕ) (nAdjustment : ℤ) (code : UInt16) : UInt16 :=
  if wID ≤ code.toNat then UInt16.ofInt (code.toNat + nAdjustment) else code

/-- The loop of `AdjustKeyCodes`, with `wCurrentSequence` codes to come of a key. -/
def adjustKeyCodes (wID : ℕ) (nAdjustment : ℤ) : ℕ → List UInt16 → List UInt16
  | _, [] => []
  | 0, code :: pwKeyCodes => code :: adjustKeyCodes wID nAdjustment code.toNat pwKeyCodes
  | wCurrentSequence + 1, code :: pwKeyCodes =>
    adjustCode wID nAdjustment code :: adjustKeyCodes wID nAdjustment wCurrentSequence pwKeyCodes

/-- The codes that `Cleanup` marks as used. -/
def usedCodes : ℕ → List UInt16 → List UInt16
  | _, [] => []
  | 0, code :: pwKeyCodes => usedCodes code.toNat pwKeyCodes
  | wCurrentSequence + 1, code :: pwKeyCodes => code :: usedCodes wCurrentSequence pwKeyCodes

/-- The pool, the key codes and `pwTokenIDs` while tokens are added. -/
structure Tokens where
  pStrPool : GrowingPool
  pwKeyCodes : List UInt16
  pwTokenIDs : List UInt16

/-- One round of the loop of `AddKey` over the tokens. -/
def addToken (pszTok : List UInt8) (st : Tokens) : Option (Except Win32Error Unit × Tokens) :=
  match findStr st.pStrPool.toSIdxStringPool pszTok with
  | (true, wID) => some (.ok (), { st with pwTokenIDs := st.pwTokenIDs ++ [UInt16.ofNat wID] })
  | (false, wID) => do
    match ← st.pStrPool.addStr pszTok wID with
    | .error dwRes => some (.error dwRes, st)
    | .ok (nAdjustment, pStrPool) =>
      if nAdjustment = 0 then
        some (.ok (), ⟨pStrPool, st.pwKeyCodes, st.pwTokenIDs ++ [UInt16.ofNat wID]⟩)
      else
        some (.ok (), ⟨pStrPool, adjustKeyCodes wID nAdjustment 0 st.pwKeyCodes,
          st.pwTokenIDs.map (adjustCode wID nAdjustment) ++ [UInt16.ofNat wID]⟩)

def addTokens : List (List UInt8) → Tokens → Option (Except Win32Error Unit × Tokens)
  | [], st => some (.ok (), st)
  | pszTok :: pszStrings, st => do
    match ← addToken pszTok st with
    | (.ok (), st) => addTokens pszStrings st
    | (.error dwRes, st) => some (.error dwRes, st)

/-- What the search string is compared with next, and what comes behind: the rest of a token and the
tokens after it. -/
def nextCoded (pool : SIdxStringPool) : List UInt8 → List UInt16 → UInt8 × List UInt8 × List UInt16
  | c :: pszDecoded, ids => (c, pszDecoded, ids)
  | [], id :: ids => (0x5C, pool.getStrById id, ids)
  | [], [] => (0, [], [])

/-- The loop of `KeyStrCompare`. -/
def compareLoop (pool : SIdxStringPool) : List UInt8 → List UInt8 → List UInt16 → ℤ
  | [], pszDecoded, ids => char 0 - char (nextCoded pool pszDecoded ids).1
  | c :: pszTrace, pszDecoded, ids =>
    if char c - char (nextCoded pool pszDecoded ids).1 = 0 ∧ c ≠ 0 then
      compareLoop pool pszTrace (nextCoded pool pszDecoded ids).2.1
        (nextCoded pool pszDecoded ids).2.2
    else char c - char (nextCoded pool pszDecoded ids).1

namespace GrowingTable
variable (t : GrowingTable)

def dwNumKeys : ℕ := t.pwKeyLookup.length

/-- The codes of a key that starts at an offset. -/
def codesAt (wStartOffs : ℕ) : List UInt16 :=
  (List.range (t.pwKeyCodes.getD wStartOffs 0).toNat).map fun i =>
    t.pwKeyCodes.getD (wStartOffs + 1 + i) 0

def getKeyAt (wID : UInt16) : Except Win32Error (List UInt8) :=
  if t.dwNumKeys ≤ wID.toNat then .error ERROR_INVALID_PARAMETER
  else
    .ok (List.intercalate [0x5C]
      ((t.codesAt (t.pwKeyLookup.getD wID.toNat 0).toNat).map
        t.pStrPool.toSIdxStringPool.getStrById))

def requiredPageMemory : ℕ :=
  t.pStrPool.dwPoolUsed + t.pStrPool.dwNumStrings * sizeofWORD + sizeofDWORD + sizeofDWORD +
    (sizeofDWORD + sizeofWORD * t.dwNumKeys) + (sizeofDWORD + sizeofDWORD * t.dwNumKeys) +
      (sizeofDWORD + sizeofDWORD * (t.dwNumKeys + 1)) +
        (sizeofWORD + sizeofWORD * t.pwKeyCodes.length) + sizeofDWORD * 4 + sizeofDWORD * 2

/-- `KeyStrCompare`, for the key that starts at an offset. -/
def keyStrCompare (pszSearchKey : List UInt8) (wStartOffs : UInt16) : ℤ :=
  match t.codesAt wStartOffs.toNat with
  | [] => compareLoop t.pStrPool.toSIdxStringPool pszSearchKey [] []
  | id :: ids => compareLoop t.pStrPool.toSIdxStringPool pszSearchKey
      (t.pStrPool.toSIdxStringPool.getStrById id) ids

/-- `FindKey`: whether the key is there, and where it is or would be. -/
def findKey (pszSearchKey : List UInt8) : Except Win32Error (Bool × ℕ) :=
  if pszSearchKey = [] then .error ERROR_INVALID_PARAMETER
  else if t.dwNumKeys = 0 then .ok (false, 0)
  else
    .ok (binarySearch (fun wStartOffs => compare (t.keyStrCompare pszSearchKey wStartOffs) 0)
      t.pwKeyLookup t.dwNumKeys 0 t.dwNumKeys 0)

/-- The arrays with the new key at its place. `behind` is what the memory has behind the used part
of the child page map. -/
def store (st : Tokens) (dwKeyLookupTotalSize wKeyID : ℕ) (dwUserData behind : UInt32) :
    Option GrowingTable :=
  let dwNumNewTokens := st.pwTokenIDs.length
  let dwKeyCodesTotalSize :=
    if t.dwKeyCodesTotalSize - st.pwKeyCodes.length < dwNumNewTokens + 1 then
      t.dwKeyCodesTotalSize * 2 + dwNumNewTokens + 1 else t.dwKeyCodesTotalSize
  if st.pwKeyCodes.length + (dwNumNewTokens + 1) ≤ dwKeyCodesTotalSize ∧
      wKeyID ≤ t.dwNumKeys ∧ t.dwNumKeys < dwKeyLookupTotalSize then
    some {
      pwKeyLookup := t.pwKeyLookup.take wKeyID ++
        UInt16.ofNat st.pwKeyCodes.length :: t.pwKeyLookup.drop wKeyID
      pdwUserData := t.pdwUserData.take wKeyID ++ dwUserData :: t.pdwUserData.drop wKeyID
      pdwChildPageMap := if t.dwNumKeys - wKeyID = 0 then t.pdwChildPageMap ++ [behind]
        else t.pdwChildPageMap.take wKeyID ++
          t.pdwChildPageMap.getD wKeyID 0 :: t.pdwChildPageMap.drop wKeyID
      pwKeyCodes := st.pwKeyCodes ++ UInt16.ofNat dwNumNewTokens :: st.pwTokenIDs
      pStrPool := st.pStrPool
      dwKeyLookupTotalSize := dwKeyLookupTotalSize
      dwKeyCodesTotalSize := dwKeyCodesTotalSize }
  else none

/-- `AddKey`. -/
def addKey (pszStr : List UInt8) (wKeyID : ℕ) (dwUserData behind : UInt32) :
    Option (Except Win32Error Unit × GrowingTable) :=
  if pszStr = [] then some (.error ERROR_INVALID_PARAMETER, t)
  else
    let dwKeyLookupTotalSize := if t.dwKeyLookupTotalSize = t.dwNumKeys then
      t.dwKeyLookupTotalSize * 2 else t.dwKeyLookupTotalSize
    match parseIntoTokens pszStr with
    | .error dwRes => some (.error dwRes, { t with dwKeyLookupTotalSize := dwKeyLookupTotalSize })
    | .ok pszStrings => do
      let r ← addTokens pszStrings ⟨t.pStrPool, t.pwKeyCodes, []⟩
      match r.1 with
      | .error dwRes => some (.error dwRes, { t with
          pwKeyCodes := r.2.pwKeyCodes
          pStrPool := r.2.pStrPool
          dwKeyLookupTotalSize := dwKeyLookupTotalSize })
      | .ok () =>
        (t.store r.2 dwKeyLookupTotalSize wKeyID dwUserData behind).map fun t => (.ok (), t)

def zapPage : GrowingTable :=
  { t with
    pwKeyLookup := []
    pdwUserData := []
    pdwChildPageMap := t.pdwChildPageMap.take 1
    pwKeyCodes := []
    pStrPool := { t.pStrPool with pwOffsets := [], stringPool := [] } }

/-- The loop of `Cleanup`; each round but the last deletes a string. -/
def cleanupLoop : ℕ → GrowingTable → Option GrowingTable
  | 0, _ => none
  | fuel + 1, t =>
    if t.pStrPool.dwNumStrings = 0 ∨ t.pwKeyCodes.length = 0 ∨ t.dwNumKeys = 0 then some t.zapPage
    else if (usedCodes 0 t.pwKeyCodes).all fun code => code.toNat < t.pStrPool.dwNumStrings then
      match (List.range t.pStrPool.dwNumStrings).find? fun i =>
          !(usedCodes 0 t.pwKeyCodes).contains (UInt16.ofNat i) with
      | none => some t
      | some i =>
        cleanupLoop fuel { t with
          pStrPool := (t.pStrPool.deleteStr i).2
          pwKeyCodes := adjustKeyCodes i (t.pStrPool.deleteStr i).1 0 t.pwKeyCodes }
    else none

/-- `Cleanup`. -/
def cleanup : Option GrowingTable := cleanupLoop (t.pStrPool.dwNumStrings + 1) t

/-- `RemoveKey`. -/
def removeKey (wID : ℕ) : Option GrowingTable :=
  let wKeyCodeStart := t.pwKeyLookup.getD wID 0
  let wCount := t.pwKeyCodes.getD wKeyCodeStart.toNat 0 + 1
  if wID < t.dwNumKeys then
    cleanup { t with
      pwKeyLookup := (t.pwKeyLookup.eraseIdx wID).map fun wStartOffs =>
        if wKeyCodeStart ≤ wStartOffs then wStartOffs - wCount else wStartOffs
      pdwUserData := t.pdwUserData.eraseIdx wID
      pdwChildPageMap := if t.dwNumKeys - wID - 1 = 0 then t.pdwChildPageMap.dropLast
        else t.pdwChildPageMap.eraseIdx wID
      pwKeyCodes := t.pwKeyCodes.take wKeyCodeStart.toNat ++
        t.pwKeyCodes.drop (wKeyCodeStart.toNat + wCount.toNat) }
  else none

end GrowingTable

/-- `SIdxKeyTable::Create`. -/
def createTable : GrowingTable where
  pwKeyLookup := []
  pdwUserData := []
  pdwChildPageMap := [0]
  pwKeyCodes := []
  pStrPool := ⟨⟨[], []⟩, const_DefaultArray, const_DefaultPoolSize⟩
  dwKeyLookupTotalSize := const_DefaultArray
  dwKeyCodesTotalSize := const_DefaultArray

/-- A page with the sizes of its arrays. -/
def SIdxKeyTable.growing (t : SIdxKeyTable)
    (dwOffsetsSize dwPoolTotalSize dwKeyLookupTotalSize dwKeyCodesTotalSize : ℕ) :
    GrowingTable where
  pwKeyLookup := t.pwKeyLookup
  pdwUserData := t.pdwUserData
  pdwChildPageMap := t.pdwChildPageMap
  pwKeyCodes := t.pwKeyCodes
  pStrPool := ⟨t.pStrPool, dwOffsetsSize, dwPoolTotalSize⟩
  dwKeyLookupTotalSize := dwKeyLookupTotalSize
  dwKeyCodesTotalSize := dwKeyCodesTotalSize

section Growing
variable (t : SIdxKeyTable) (a b c d : ℕ)

theorem getKeyAt_growing (wID : UInt16) : (t.growing a b c d).getKeyAt wID = t.getKeyAt wID := by
  have hcount : (t.growing a b c d).dwNumKeys = t.dwNumKeys.toNat := t.length_keyLookup
  rw [GrowingTable.getKeyAt, hcount, SIdxKeyTable.getKeyAt, GrowingTable.codesAt, List.map_map]
  rfl

theorem requiredPageMemory_growing :
    (t.growing a b c d).requiredPageMemory = t.getRequiredPageMemory.toNat := by
  have hcount : (t.growing a b c d).dwNumKeys = t.dwNumKeys.toNat := t.length_keyLookup
  have hlength := length_image t
  rw [toNat_getRequiredPageMemory, hlength, GrowingTable.requiredPageMemory, hcount]
  simp only [SIdxKeyTable.growing, SIdxKeyTable.dwKeyCodesUsed, sizeofDWORD, sizeofWORD]
  omega

end Growing

end NtAdmin.Wmi.Btr
