import Mathlib.Data.List.Basic
import NtAdmin.Lib.Buffer
import NtAdmin.Lib.Words

/-! Pages of the B-tree of btr.cpp: the table of keys of a page, and the page it is mapped to. -/
namespace NtAdmin.Wmi.Btr
open Lib

/-- The return codes of btr.cpp that the functions modelled here use. -/
inductive Win32Error
  | ERROR_NOT_ENOUGH_MEMORY
  | ERROR_BAD_FORMAT
  | ERROR_INVALID_PARAMETER
  | ERROR_INSUFFICIENT_BUFFER
  | ERROR_NO_MORE_ITEMS
  | ERROR_INVALID_DATA
  deriving DecidableEq

open Win32Error

/-- `CBTreeFile::PAGE_TYPE_ACTIVE`. -/
def PAGE_TYPE_ACTIVE : UInt32 := 0xACCC

/-- `CBTreeFile::const_DefaultPageSize`, the size of every page of the index file. -/
def const_DefaultPageSize : ℕ := 0x2000

def sizeofDWORD : ℕ := 4
def sizeofWORD : ℕ := 2

/-- The strings of a page: where each one starts in the pool, and the pool as far as it is used. -/
@[ext] structure SIdxStringPool where
  pwOffsets : List UInt16
  stringPool : List UInt8
  deriving DecidableEq

namespace SIdxStringPool
variable (pool : SIdxStringPool)

def dwNumStrings : ℕ := pool.pwOffsets.length
def dwPoolUsed : ℕ := pool.stringPool.length

/-- The string that starts at the offset of `id`, without its terminator. -/
def getStrById (id : UInt16) : List UInt8 :=
  (pool.stringPool.drop (pool.pwOffsets.getD id.toNat 0).toNat).takeWhile (· ≠ 0)

def getRequiredPageMemory : UInt32 :=
  UInt32.ofNat (pool.dwPoolUsed + pool.dwNumStrings * sizeofWORD + sizeofDWORD + sizeofDWORD)

end SIdxStringPool

/-- The bytes that the arrays of a page take. -/
def arrayBytes (dwNumKeys dwKeyCodesUsed : ℕ) (pool : SIdxStringPool) : ℕ :=
  sizeofDWORD * dwNumKeys + sizeofDWORD * (dwNumKeys + 1) + sizeofWORD * dwNumKeys +
    sizeofWORD * dwKeyCodesUsed + sizeofWORD * pool.dwNumStrings + pool.dwPoolUsed

/-- What a process can allocate at most: 4 GB less the 64 KB at address zero. -/
def addressSpace : ℕ := 2 ^ 32 - 2 ^ 16

/-- The keys of a page. The arrays are given as far as they are used. -/
@[ext] structure SIdxKeyTable where
  dwPageId : UInt32
  dwParentPageId : UInt32
  dwNumKeys : UInt32
  pwKeyLookup : List UInt16
  pdwUserData : List UInt32
  pdwChildPageMap : List UInt32
  pwKeyCodes : List UInt16
  pStrPool : SIdxStringPool
  length_keyLookup : pwKeyLookup.length = dwNumKeys.toNat
  length_userData : pdwUserData.length = dwNumKeys.toNat
  length_childPageMap : pdwChildPageMap.length = dwNumKeys.toNat + 1
  allocated : arrayBytes dwNumKeys.toNat pwKeyCodes.length pStrPool ≤ addressSpace

namespace SIdxKeyTable
variable (t : SIdxKeyTable)

def dwKeyCodesUsed : ℕ := t.pwKeyCodes.length

/-- The key of `wID`: its tokens, with a backslash between them. -/
def getKeyAt (wID : UInt16) : Except Win32Error (List UInt8) :=
  if t.dwNumKeys.toNat ≤ wID.toNat then .error ERROR_INVALID_PARAMETER
  else
    let wStartOffs := (t.pwKeyLookup.getD wID.toNat 0).toNat
    let wNumTokens := (t.pwKeyCodes.getD wStartOffs 0).toNat
    let strings := (List.range wNumTokens).map fun i =>
      t.pStrPool.getStrById (t.pwKeyCodes.getD (wStartOffs + 1 + i) 0)
    .ok (List.intercalate [0x5C] strings)

def getUserData (wID : UInt16) : UInt32 := t.pdwUserData.getD wID.toNat 0
def getChildPage (wID : UInt16) : UInt32 := t.pdwChildPageMap.getD wID.toNat 0

/-- The arithmetic is that of `DWORD`s. -/
def getRequiredPageMemory : UInt32 :=
  let dwTotal := t.pStrPool.getRequiredPageMemory
  let dwTotal := dwTotal + UInt32.ofNat (sizeofDWORD + sizeofWORD * t.dwNumKeys.toNat)
  let dwTotal := dwTotal + UInt32.ofNat (sizeofDWORD + sizeofDWORD * t.dwNumKeys.toNat)
  let dwTotal := dwTotal + UInt32.ofNat (sizeofDWORD + sizeofDWORD * (t.dwNumKeys.toNat + 1))
  let dwTotal := dwTotal + UInt32.ofNat (sizeofWORD + sizeofWORD * t.dwKeyCodesUsed)
  let dwTotal := dwTotal + UInt32.ofNat (sizeofDWORD * 4)
  -- Safety margin.
  dwTotal + UInt32.ofNat (sizeofDWORD * 2)

/-- The bytes that `mapToPage` stores, in the order of their addresses. The counts of codes, of
strings and of pool bytes are cut to `WORD`s. -/
def image : List UInt8 :=
  Word.dword.put [PAGE_TYPE_ACTIVE, t.dwPageId, 0] ++
  Word.dword.put [t.dwParentPageId, t.dwNumKeys] ++
  Word.dword.put t.pdwUserData ++
  Word.dword.put t.pdwChildPageMap ++
  Word.word.put t.pwKeyLookup ++
  Word.word.put [UInt16.ofNat t.dwKeyCodesUsed] ++
  Word.word.put t.pwKeyCodes ++
  Word.word.put [UInt16.ofNat t.pStrPool.dwNumStrings] ++
  Word.word.put t.pStrPool.pwOffsets ++
  Word.word.put [UInt16.ofNat t.pStrPool.dwPoolUsed] ++
  Word.byte.put t.pStrPool.stringPool

/-- The memory at `pDest` after the call. -/
def mapToPage (pDest : Option (List UInt8)) : Except Win32Error (List UInt8) :=
  match pDest with
  | none => .error ERROR_INVALID_PARAMETER
  | some pDest => .ok (copyAt pDest 0 t.image)

end SIdxKeyTable

/-- What is read from a page. `alloc i` tells whether the `i`-th allocation succeeds; together the
arrays cannot be larger than the address space. -/
def readPage (alloc : ℕ → Bool) : Scan Win32Error SIdxKeyTable := do
  let signature ← Scan.next Word.dword
  Scan.check (signature = PAGE_TYPE_ACTIVE) ERROR_BAD_FORMAT
  let dwPageId ← Scan.next Word.dword
  -- The 'next page' field.
  let _ ← Scan.next Word.dword
  let dwParentPageId ← Scan.next Word.dword
  let dwNumKeys ← Scan.next Word.dword
  Scan.check (alloc 0 && alloc 1 && alloc 2) ERROR_NOT_ENOUGH_MEMORY
  let pdwUserData ← Scan.array Word.dword dwNumKeys.toNat
  let pdwChildPageMap ← Scan.array Word.dword (dwNumKeys.toNat + 1)
  let pwKeyLookup ← Scan.array Word.word dwNumKeys.toNat
  let dwKeyCodesUsed ← Scan.next Word.word
  Scan.check (alloc 3) ERROR_NOT_ENOUGH_MEMORY
  let pwKeyCodes ← Scan.array Word.word dwKeyCodesUsed.toNat
  Scan.check (alloc 4) ERROR_NOT_ENOUGH_MEMORY
  let dwNumStrings ← Scan.next Word.word
  Scan.check (alloc 5) ERROR_NOT_ENOUGH_MEMORY
  let pwOffsets ← Scan.array Word.word dwNumStrings.toNat
  let dwPoolUsed ← Scan.next Word.word
  Scan.check (alloc 6) ERROR_NOT_ENOUGH_MEMORY
  let stringPool ← Scan.array Word.byte dwPoolUsed.toNat
  if hsize : arrayBytes dwNumKeys.toNat pwKeyCodes.1.length ⟨pwOffsets.1, stringPool.1⟩ ≤
      addressSpace then
    pure {
      dwPageId := dwPageId
      dwParentPageId := dwParentPageId
      dwNumKeys := dwNumKeys
      pwKeyLookup := pwKeyLookup.1
      pdwUserData := pdwUserData.1
      pdwChildPageMap := pdwChildPageMap.1
      pwKeyCodes := pwKeyCodes.1
      pStrPool := ⟨pwOffsets.1, stringPool.1⟩
      length_keyLookup := pwKeyLookup.2
      length_userData := pdwUserData.2
      length_childPageMap := pdwChildPageMap.2
      allocated := hsize }
  else fun _ => .error ERROR_NOT_ENOUGH_MEMORY

def mapFromPage (alloc : ℕ → Bool) (pSrc : Option (List UInt8)) :
    Except Win32Error SIdxKeyTable :=
  match pSrc with
  | none => .error ERROR_INVALID_PARAMETER
  | some pSrc => (readPage alloc pSrc).map Prod.fst

/-! ### The page that a table is mapped to -/

section RoundTrip
variable (t : SIdxKeyTable)

theorem length_image : t.image.length = 30 + (sizeofDWORD * t.dwNumKeys.toNat +
    sizeofDWORD * t.dwNumKeys.toNat + sizeofWORD * t.dwNumKeys.toNat) +
      sizeofWORD * t.dwKeyCodesUsed + sizeofWORD * t.pStrPool.dwNumStrings +
        t.pStrPool.dwPoolUsed := by
  simp only [SIdxKeyTable.image, List.length_append, Word.length_put, t.length_keyLookup,
    t.length_userData, t.length_childPageMap, List.length_cons, List.length_nil,
    Word.dword, Word.word, Word.byte, sizeofDWORD, sizeofWORD, SIdxKeyTable.dwKeyCodesUsed,
    SIdxStringPool.dwNumStrings, SIdxStringPool.dwPoolUsed]
  omega

/-- Sums of `DWORD`s that do not wrap round. -/
theorem toNat_foldl_add (ns : List ℕ) (x : UInt32) (h : x.toNat + ns.sum < 2 ^ 32) :
    (ns.foldl (fun dwTotal n => dwTotal + UInt32.ofNat n) x).toNat = x.toNat + ns.sum := by
  induction ns generalizing x with
  | nil => rfl
  | cons n ns ih =>
    rw [List.sum_cons] at h ⊢
    have hn : (x + UInt32.ofNat n).toNat = x.toNat + n := by
      rw [UInt32.toNat_add, UInt32.toNat_ofNat', Nat.mod_eq_of_lt (a := n) (by omega),
        Nat.mod_eq_of_lt (by omega)]
    rw [List.foldl_cons, ih _ (by rw [hn]; omega), hn, Nat.add_assoc]

/-- The arrays lie in the address space, so the sum of their sizes does not wrap round. -/
theorem toNat_getRequiredPageMemory :
    t.getRequiredPageMemory.toNat = t.image.length + 20 := by
  have hspace := t.allocated
  simp only [arrayBytes, addressSpace, sizeofDWORD, sizeofWORD] at hspace
  have hpool : t.pStrPool.getRequiredPageMemory.toNat =
      t.pStrPool.dwPoolUsed + t.pStrPool.dwNumStrings * 2 + 8 := by
    rw [SIdxStringPool.getRequiredPageMemory, UInt32.toNat_ofNat']
    simp only [sizeofDWORD, sizeofWORD]
    exact Nat.mod_eq_of_lt (by omega)
  have hcodes : t.dwKeyCodesUsed = t.pwKeyCodes.length := rfl
  have hlength := length_image t
  simp only [sizeofDWORD, sizeofWORD] at hlength
  have hsum := toNat_foldl_add [4 + 2 * t.dwNumKeys.toNat, 4 + 4 * t.dwNumKeys.toNat,
    4 + 4 * (t.dwNumKeys.toNat + 1), 2 + 2 * t.dwKeyCodesUsed, 16, 8]
    t.pStrPool.getRequiredPageMemory
  simp only [List.sum_cons, List.sum_nil] at hsum
  have htotal : t.getRequiredPageMemory.toNat = _ := hsum (by omega)
  omega

variable {t}

theorem counts_lt (hfit : t.getRequiredPageMemory.toNat ≤ const_DefaultPageSize) :
    t.dwKeyCodesUsed < 2 ^ 16 ∧ t.pStrPool.dwNumStrings < 2 ^ 16 ∧
      t.pStrPool.dwPoolUsed < 2 ^ 16 := by
  rw [toNat_getRequiredPageMemory, length_image] at hfit
  simp only [const_DefaultPageSize, sizeofDWORD, sizeofWORD] at hfit
  omega

theorem toNat_count {n : ℕ} (h : n < 2 ^ 16) : (UInt16.ofNat n).toNat = n := by
  rw [UInt16.toNat_ofNat', Nat.mod_eq_of_lt h]

/-- Reading back what was stored, whatever lies behind it. -/
theorem mapFromPage_image (alloc : ℕ → Bool) (rest : List UInt8)
    (hfit : t.getRequiredPageMemory.toNat ≤ const_DefaultPageSize) :
    mapFromPage alloc (some (t.image ++ rest)) =
      if (List.range 7).all alloc then .ok t else .error ERROR_NOT_ENOUGH_MEMORY := by
  obtain ⟨hcodes, hstrings, hpool⟩ := counts_lt hfit
  have hcodes' := toNat_count hcodes
  have hstrings' := toNat_count hstrings
  have hpool' := toNat_count hpool
  have hsignature : decide (PAGE_TYPE_ACTIVE = PAGE_TYPE_ACTIVE) = true := rfl
  have hall : (List.range 7).all alloc =
      (alloc 0 && alloc 1 && alloc 2 && alloc 3 && alloc 4 && alloc 5 && alloc 6) := by
    simp [List.range_succ, Bool.and_assoc]
  simp only [mapFromPage, SIdxKeyTable.image, List.append_assoc, Word.put_cons_append,
    Word.put_nil_append, hall]
  rw [readPage, Scan.next_bind, Scan.check_bind, hsignature, if_pos rfl, Scan.next_bind,
    Scan.next_bind, Scan.next_bind, Scan.next_bind, Scan.check_bind,
    Scan.array_bind _ t.length_userData, Scan.array_bind _ t.length_childPageMap,
    Scan.array_bind _ t.length_keyLookup, Scan.next_bind, Scan.check_bind,
    Scan.array_bind _ hcodes'.symm, Scan.check_bind, Scan.next_bind, Scan.check_bind,
    Scan.array_bind _ hstrings'.symm, Scan.next_bind, Scan.check_bind,
    Scan.array_bind _ hpool'.symm, dif_pos t.allocated]
  cases alloc 0 <;> cases alloc 1 <;> cases alloc 2 <;> cases alloc 3 <;> cases alloc 4 <;>
    cases alloc 5 <;> cases alloc 6 <;> rfl

/-- A page gives back the table that was mapped to it, and nothing behind the required memory is
touched. -/
theorem mapFromPage_mapToPage (t : SIdxKeyTable) (alloc : ℕ → Bool) (pDest : List UInt8)
    (hpage : pDest.length = const_DefaultPageSize)
    (hfit : t.getRequiredPageMemory.toNat ≤ const_DefaultPageSize) :
    t.image.length ≤ t.getRequiredPageMemory.toNat ∧
      ∃ pMem, t.mapToPage (some pDest) = .ok pMem ∧ pMem.length = pDest.length ∧
        pMem.drop t.getRequiredPageMemory.toNat = pDest.drop t.getRequiredPageMemory.toNat ∧
        ((List.range 7).all alloc = false →
          mapFromPage alloc (some pMem) = .error ERROR_NOT_ENOUGH_MEMORY) ∧
        ((List.range 7).all alloc = true →
          ∃ t', mapFromPage alloc (some pMem) = .ok t' ∧ t'.dwNumKeys = t.dwNumKeys ∧
            (∀ wID, t'.getKeyAt wID = t.getKeyAt wID) ∧
            t'.pdwUserData = t.pdwUserData ∧ t'.pdwChildPageMap = t.pdwChildPageMap) := by
  have hrequired := toNat_getRequiredPageMemory t
  have hlength : t.image.length ≤ t.getRequiredPageMemory.toNat := by omega
  have hpMem : copyAt pDest 0 t.image = t.image ++ pDest.drop t.image.length := by
    rw [copyAt, List.take_zero, List.nil_append, Nat.zero_add]
  have hread := mapFromPage_image alloc (pDest.drop t.image.length) hfit
  constructor
  · exact hlength
  refine ⟨t.image ++ pDest.drop t.image.length, ?_, ?_, ?_, ?_, ?_⟩
  · rw [SIdxKeyTable.mapToPage, hpMem]
  · rw [List.length_append, List.length_drop]
    omega
  · rw [List.drop_append, List.drop_of_length_le hlength, List.nil_append, List.drop_drop,
      Nat.add_sub_cancel' hlength]
  · intro hall
    rw [hread, hall]
    rfl
  · intro hall
    rw [hread, hall]
    exact ⟨t, rfl, rfl, fun _ => rfl, rfl, rfl⟩

/-- A leaf with the keys `ab\ab` and `ac\ab` and the user data 7 and 9. -/
def twoKeys : SIdxKeyTable where
  dwPageId := 3
  dwParentPageId := 0
  dwNumKeys := 2
  pwKeyLookup := [0, 3]
  pdwUserData := [7, 9]
  pdwChildPageMap := [0, 0, 0]
  pwKeyCodes := [2, 0, 0, 2, 1, 0]
  pStrPool := ⟨[0, 3], [0x61, 0x62, 0, 0x61, 0x63, 0]⟩
  length_keyLookup := rfl
  length_userData := rfl
  length_childPageMap := rfl
  allocated := by decide

theorem mapFromPage_mapToPage_twoKeys :
    ∃ pMem t', twoKeys.mapToPage (some (List.replicate const_DefaultPageSize 0)) = .ok pMem ∧
      mapFromPage (fun _ => true) (some pMem) = .ok t' ∧
      t'.getKeyAt 0 = .ok [0x61, 0x62, 0x5C, 0x61, 0x62] ∧
      t'.getKeyAt 1 = .ok [0x61, 0x63, 0x5C, 0x61, 0x62] ∧ t'.pdwUserData = [7, 9] := by
  obtain ⟨-, pMem, hto, -, -, -, hfrom⟩ := mapFromPage_mapToPage twoKeys (fun _ => true)
    (List.replicate const_DefaultPageSize 0) List.length_replicate (by decide)
  obtain ⟨t', ht', -, hkeys, hdata, -⟩ := hfrom (by decide)
  exact ⟨pMem, t', hto, ht', (hkeys 0).trans (by decide), (hkeys 1).trans (by decide), hdata⟩

end RoundTrip

end NtAdmin.Wmi.Btr
