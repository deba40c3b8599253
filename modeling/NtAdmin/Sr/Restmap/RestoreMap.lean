import Mathlib.Data.List.Basic
import NtAdmin.Lib.Buffer
import NtAdmin.Lib.Reader

/-! The restore map files of restmap.cpp. -/
namespace NtAdmin.Sr
open Lib

/-- A string of 16-bit characters, without the NUL behind it. -/
structure WString where
  chars : List UInt16
  zero_notMem : 0 ∉ chars

/-- The characters and the NUL. -/
def WString.bytes (s : WString) : List UInt8 :=
  s.chars.flatMap (fun c => leBytes 2 c.toNat) ++ [0, 0]

/-- `STRSIZE`. -/
def strsize (s : WString) : ℕ := (s.chars.length + 1) * 2

def ERROR_SUCCESS : ℕ := 0
def ERROR_NO_MORE_ITEMS : ℕ := 259
def ERROR_INTERNAL_ERROR : ℕ := 1359

/-- `sizeof(RestoreMapEntry) - sizeof(BYTE)`. -/
def sizeofFixed : ℕ := 20

/-- The fields in front of the data. -/
structure RestoreMapHeader where
  m_dwOperation : UInt32
  m_dwAttribute : UInt32
  m_cbAcl : ℕ
  m_fAclInline : UInt32
  deriving DecidableEq

def RestoreMapHeader.bytes (h : RestoreMapHeader) : List UInt8 :=
  leBytes 4 h.m_dwOperation.toNat ++ leBytes 4 h.m_dwAttribute.toNat ++ leBytes 4 h.m_cbAcl ++
    leBytes 4 h.m_fAclInline.toNat

/-- The bytes behind an optional pointer, none for a null pointer. -/
def optionalBytes (p : Option WString) : List UInt8 := (p.map WString.bytes).getD []

def optionalSize (p : Option WString) : ℕ := (p.map strsize).getD 0

section append
variable (heapAlloc : ℕ → Bool)

/-- The result and the file, or none where the copies run over the end of the block. An ACL comes
with its size. -/
def appendRestoreMapEntry (hFile : List UInt8) (dwOperation dwAttribute : UInt32)
    (pTmpFile pPathSrc pPathDes : Option WString) (pbAcl : Option (List UInt8))
    (fAclInline : UInt32) : Option (Bool × List UInt8) :=
  match pPathSrc with
  | none => some (false, hFile)
  | some pPathSrc =>
    let acl := pbAcl.getD []
    let cbAcl := acl.length
    let size := sizeofFixed + strsize pPathSrc + optionalSize pTmpFile + optionalSize pPathDes + cbAcl
    let dwSize := size % 2 ^ 32
    if heapAlloc dwSize then
      if dwSize < size then none
      else some (true, hFile ++ (leBytes 4 dwSize ++
        (RestoreMapHeader.mk dwOperation dwAttribute cbAcl fAclInline).bytes ++ pPathSrc.bytes ++
          optionalBytes pTmpFile ++ optionalBytes pPathDes ++ acl))
    else some (false, hFile)

end append

/-- What a call of `ReadRestoreMapEntry` returns: the code, the block that was read into, and what is
left of the file. -/
structure ReadResult where
  dwErr : ℕ
  prme : Option (List UInt8)
  hFile : List UInt8
  deriving DecidableEq

/-- The size field as far as the file reaches; the other bytes of the variable are not set. -/
def declaredSize (uninit : ℕ) (hFile : List UInt8) : ℕ :=
  leNat (hFile.take 4 ++ (leBytes 4 uninit).drop hFile.length)

/-- A read that reaches the end of the file succeeds with fewer bytes, and leaves the last error of
the thread as it was. -/
def readRestoreMapEntry (heapAlloc : ℕ → Bool) (uninit lastError : ℕ) (hFile : List UInt8) :
    ReadResult :=
  let dwRead := (hFile.take 4).length
  let dwSize := declaredSize uninit hFile
  let rest := hFile.drop 4
  if dwRead = 0 ∨ dwSize = 0 then ⟨ERROR_NO_MORE_ITEMS, none, rest⟩
  else if heapAlloc dwSize then
    let cb := (dwSize + (2 ^ 32 - 4)) % 2 ^ 32
    let bytes := rest.take cb
    let dwErr := if bytes.length ≠ cb then lastError else ERROR_SUCCESS
    ⟨dwErr, some (leBytes 4 dwSize ++ bytes), rest.drop cb⟩
  else ⟨ERROR_INTERNAL_ERROR, none, rest⟩

/-- The length of the string in a block, or none where no NUL ends it. -/
def lstrlen : List UInt8 → Option ℕ
  | lo :: hi :: bytes => if lo = 0 ∧ hi = 0 then some 0 else (lstrlen bytes).map (· + 1)
  | _ => none

/-- What `GetOptional` points to, up to the end of the block, or none for a null pointer; or none
where the string is read beyond the end of the block. -/
def getOptional (prme : List UInt8) : Option (Option (List UInt8)) := do
  let length ← lstrlen (prme.drop sizeofFixed)
  let cbData := (length + 1) * 2
  let dwBasicSize := sizeofFixed + cbData
  if dwBasicSize < leNat (prme.take 4) then some (some (prme.drop dwBasicSize)) else some none

/-! ### Round trip -/

/-- At most one of the optional parts. -/
inductive OptionalPart
  | nothing
  | tmpFile (path : WString)
  | pathDes (path : WString)
  | acl (pbAcl : List UInt8)

namespace OptionalPart

def bytes : OptionalPart → List UInt8
  | nothing => []
  | tmpFile path => path.bytes
  | pathDes path => path.bytes
  | acl pbAcl => pbAcl

def cbAcl : OptionalPart → ℕ
  | acl pbAcl => pbAcl.length
  | _ => 0

end OptionalPart

/-- An entry as it is written. -/
structure MapEntry where
  dwOperation : UInt32
  dwAttribute : UInt32
  fAclInline : UInt32
  pathSrc : WString
  part : OptionalPart

namespace MapEntry

def header (e : MapEntry) : RestoreMapHeader :=
  ⟨e.dwOperation, e.dwAttribute, e.part.cbAcl, e.fAclInline⟩

def size (e : MapEntry) : ℕ := sizeofFixed + strsize e.pathSrc + e.part.bytes.length

/-- The call that writes the entry, when there is memory for its block. -/
def append (e : MapEntry) (hFile : List UInt8) : Option (Bool × List UInt8) :=
  let call (pTmpFile pPathDes : Option WString) (pbAcl : Option (List UInt8)) :=
    appendRestoreMapEntry (fun _ => true) hFile e.dwOperation e.dwAttribute pTmpFile
      (some e.pathSrc) pPathDes pbAcl e.fAclInline
  match e.part with
  | .nothing => call none none none
  | .tmpFile path => call (some path) none none
  | .pathDes path => call none (some path) none
  | .acl pbAcl => call none none (some pbAcl)

/-- A result of reading that gives the entry back. -/
structure IsReadAs (e : MapEntry) (r : ReadResult) : Prop where
  success : r.dwErr = ERROR_SUCCESS
  block : ∃ prme, r.prme = some prme ∧ leNat (prme.take 4) = prme.length ∧
    sliceAt prme 4 16 = e.header.bytes ∧ sliceAt prme 20 (strsize e.pathSrc) = e.pathSrc.bytes ∧
    getOptional prme = some (if e.part.bytes = [] then none else some e.part.bytes)

end MapEntry

/-- The file after the entries were written one after the other. -/
def appendEntries : List MapEntry → List UInt8 → Option (List UInt8)
  | [], hFile => some hFile
  | e :: entries, hFile =>
    match e.append hFile with
    | some (true, hFile) => appendEntries entries hFile
    | _ => none

/-- The entries come back in order, and then the status that there are no more. `uninit` and
`lastError` are what the calls find. -/
def ReadsBack (uninit lastError : ℕ → ℕ) : ℕ → List MapEntry → List UInt8 → Prop
  | i, [], hFile =>
    (readRestoreMapEntry (fun _ => true) (uninit i) (lastError i) hFile).dwErr = ERROR_NO_MORE_ITEMS
  | i, e :: entries, hFile =>
    let r := readRestoreMapEntry (fun _ => true) (uninit i) (lastError i) hFile
    e.IsReadAs r ∧ ReadsBack uninit lastError (i + 1) entries r.hFile

/-- Writing the entries succeeds, and reading the file gives them back. -/
def RoundTrips (entries : List MapEntry) : Prop :=
  ∃ hFile, appendEntries entries [] = some hFile ∧
    ∀ uninit lastError, ReadsBack uninit lastError 0 entries hFile

/-! ### Files from anywhere -/

/-- No success is reported for an entry whose declared size is smaller than the fixed part or larger
than what is left of the file. -/
def ReportsBadSizes (heapAlloc : ℕ → Bool) (uninit lastError : ℕ) (hFile : List UInt8) : Prop :=
  declaredSize uninit hFile < sizeofFixed ∨ hFile.length < declaredSize uninit hFile →
    (readRestoreMapEntry heapAlloc uninit lastError hFile).dwErr ≠ ERROR_SUCCESS

/-- The sizes that the reader gets right: the file is at its end, the entry is empty or has no memory,
the size is in its bounds, or the file ends too early while the last error of the thread is one. -/
def SizeNoticed (heapAlloc : ℕ → Bool) (uninit lastError : ℕ) (hFile : List UInt8) : Prop :=
  hFile = [] ∨ declaredSize uninit hFile = 0 ∨ heapAlloc (declaredSize uninit hFile) = false ∨
    (sizeofFixed ≤ declaredSize uninit hFile ∧ declaredSize uninit hFile ≤ hFile.length) ∨
    (lastError ≠ ERROR_SUCCESS ∧
      (hFile.drop 4).length < (declaredSize uninit hFile + (2 ^ 32 - 4)) % 2 ^ 32)

/-! ### The block of an entry -/

theorem length_wordBytes (chars : List UInt16) :
    (chars.flatMap fun c => leBytes 2 c.toNat).length = 2 * chars.length := by
  induction chars with
  | nil => rfl
  | cons c chars ih =>
    rw [List.flatMap_cons, List.length_append, ih, length_leBytes, List.length_cons]
    omega

@[simp] theorem WString.length_bytes (s : WString) : s.bytes.length = strsize s := by
  rw [WString.bytes, List.length_append, length_wordBytes, strsize]
  simp only [List.length_cons, List.length_nil]
  omega

theorem leBytes_two (n : ℕ) : leBytes 2 n = [UInt8.ofNat n, UInt8.ofNat (n / 256)] := rfl

/-- A string ends at its NUL. -/
theorem lstrlen_bytes (s : WString) (bytes : List UInt8) :
    lstrlen (s.bytes ++ bytes) = some s.chars.length := by
  obtain ⟨chars, hzero⟩ := s
  unfold WString.bytes
  induction chars with
  | nil => rfl
  | cons c chars ih =>
    rw [List.mem_cons, not_or] at hzero
    have hne : ¬ (UInt8.ofNat c.toNat = 0 ∧ UInt8.ofNat (c.toNat / 256) = 0) := by
      rintro ⟨hlo, hhi⟩
      have hlo' := congrArg UInt8.toNat hlo
      have hhi' := congrArg UInt8.toNat hhi
      rw [UInt8.toNat_ofNat'] at hlo' hhi'
      have hlt := c.toNat_lt
      have hc : c.toNat = 0 := by
        simp only [UInt8.toNat_zero] at hlo' hhi'
        omega
      exact hzero.1 (UInt16.toNat_inj.mp hc).symm
    have ih' := ih hzero.2
    simp only [List.flatMap_cons, List.append_assoc, leBytes_two, List.cons_append, List.nil_append,
      List.length_cons] at ih' ⊢
    rw [lstrlen, if_neg hne, ih']
    rfl

/-- An entry is appended when the size of its block fits into its field. -/
theorem appendRestoreMapEntry_eq (hFile : List UInt8) (dwOperation dwAttribute : UInt32)
    (pTmpFile : Option WString) (pPathSrc : WString) (pPathDes : Option WString)
    (pbAcl : Option (List UInt8)) (fAclInline : UInt32) :
    appendRestoreMapEntry (fun _ => true) hFile dwOperation dwAttribute pTmpFile (some pPathSrc)
      pPathDes pbAcl fAclInline =
      let size := sizeofFixed + strsize pPathSrc + optionalSize pTmpFile + optionalSize pPathDes +
        (pbAcl.getD []).length
      if size < 2 ^ 32 then some (true, hFile ++ (leBytes 4 size ++
        (RestoreMapHeader.mk dwOperation dwAttribute (pbAcl.getD []).length fAclInline).bytes ++
          pPathSrc.bytes ++ optionalBytes pTmpFile ++ optionalBytes pPathDes ++ pbAcl.getD []))
      else none := by
  dsimp only [appendRestoreMapEntry]
  rw [if_pos rfl]
  generalize sizeofFixed + strsize pPathSrc + optionalSize pTmpFile + optionalSize pPathDes +
    (pbAcl.getD []).length = size
  by_cases h : size < 2 ^ 32
  · rw [if_pos h, Nat.mod_eq_of_lt h, if_neg (Nat.lt_irrefl size)]
  · have hmod := Nat.mod_lt size (show 0 < 2 ^ 32 by decide)
    rw [if_neg h, if_pos (by omega)]

namespace MapEntry

def block (e : MapEntry) : List UInt8 :=
  leBytes 4 e.size ++ e.header.bytes ++ e.pathSrc.bytes ++ e.part.bytes

@[simp] theorem length_header (h : RestoreMapHeader) : h.bytes.length = 16 := by
  unfold RestoreMapHeader.bytes
  simp only [List.length_append, length_leBytes]

theorem length_block (e : MapEntry) : e.block.length = e.size := by
  unfold block size
  simp only [List.length_append, length_leBytes, length_header, WString.length_bytes, sizeofFixed]

theorem append_eq (e : MapEntry) (hFile : List UInt8) :
    e.append hFile = if e.size < 2 ^ 32 then some (true, hFile ++ e.block) else none := by
  unfold append block size header
  obtain ⟨dwOperation, dwAttribute, fAclInline, pathSrc, part⟩ := e
  cases part with
  | nothing =>
    simp only [appendRestoreMapEntry_eq]
    simp [optionalSize, optionalBytes, OptionalPart.bytes, OptionalPart.cbAcl]
  | tmpFile path =>
    simp only [appendRestoreMapEntry_eq]
    simp [optionalSize, optionalBytes, OptionalPart.bytes, OptionalPart.cbAcl]
  | pathDes path =>
    simp only [appendRestoreMapEntry_eq]
    simp [optionalSize, optionalBytes, OptionalPart.bytes, OptionalPart.cbAcl]
  | acl pbAcl =>
    simp only [appendRestoreMapEntry_eq]
    simp [optionalSize, optionalBytes, OptionalPart.bytes, OptionalPart.cbAcl]

def data (e : MapEntry) : List UInt8 := e.header.bytes ++ e.pathSrc.bytes ++ e.part.bytes

theorem block_eq (e : MapEntry) : e.block = leBytes 4 e.size ++ e.data := by
  unfold block data
  simp only [List.append_assoc]

theorem size_eq (e : MapEntry) : e.size = 4 + e.data.length := by
  rw [← e.length_block, block_eq, List.length_append, length_leBytes]

theorem declaredSize_leBytes {uninit n : ℕ} (hn : n < 2 ^ 32) (rest : List UInt8) :
    declaredSize uninit (leBytes 4 n ++ rest) = n := by
  have hdrop : (leBytes 4 uninit).drop (leBytes 4 n ++ rest).length = [] := by
    apply List.drop_eq_nil_of_le
    rw [List.length_append, length_leBytes, length_leBytes]
    exact Nat.le_add_right 4 _
  rw [declaredSize, hdrop, List.append_nil, List.take_left' (length_leBytes 4 n),
    leNat_leBytes_of_lt hn]

/-- A block that is read from the file is the one that was written. -/
theorem read_block (e : MapEntry) (hsize : e.size < 2 ^ 32) (uninit lastError : ℕ)
    (rest : List UInt8) :
    readRestoreMapEntry (fun _ => true) uninit lastError (e.block ++ rest) =
      ⟨ERROR_SUCCESS, some e.block, rest⟩ := by
  have hlength := e.size_eq
  have hcb : (e.size + (2 ^ 32 - 4)) % 2 ^ 32 = e.data.length := by omega
  have hdeclared : declaredSize uninit (e.block ++ rest) = e.size := by
    rw [block_eq, List.append_assoc]
    exact declaredSize_leBytes hsize _
  have hdrop : (e.block ++ rest).drop 4 = e.data ++ rest := by
    rw [block_eq, List.append_assoc, List.drop_left' (length_leBytes 4 e.size)]
  have hread : ¬ (((e.block ++ rest).take 4).length = 0 ∨ e.size = 0) := by
    rw [List.length_take, List.length_append, e.length_block]
    omega
  rw [readRestoreMapEntry]
  simp only [hdeclared, hdrop, hcb, if_neg hread, if_true, List.take_left, List.drop_left, ne_eq,
    not_true_eq_false, if_false]
  rw [block_eq]

theorem isReadAs_block (e : MapEntry) (hsize : e.size < 2 ^ 32) (rest : List UInt8) :
    e.IsReadAs ⟨ERROR_SUCCESS, some e.block, rest⟩ := by
  have htake : e.block.take 4 = leBytes 4 e.size := by
    rw [block_eq]
    exact List.take_left' (length_leBytes 4 e.size)
  have hhead : (leBytes 4 e.size ++ e.header.bytes).length = 20 := by
    rw [List.length_append, length_leBytes, length_header]
  have hdrop : e.block.drop sizeofFixed = e.pathSrc.bytes ++ e.part.bytes := by
    rw [block, List.append_assoc _ e.pathSrc.bytes]
    exact List.drop_left' hhead
  constructor
  · rfl
  · refine ⟨e.block, rfl, ?_, ?_, ?_, ?_⟩
    · rw [htake, leNat_leBytes_of_lt hsize, e.length_block]
    · have hsplit : e.block = leBytes 4 e.size ++ e.header.bytes ++
          (e.pathSrc.bytes ++ e.part.bytes) := by
        rw [block, List.append_assoc _ e.pathSrc.bytes]
      exact sliceAt_mid hsplit (length_leBytes 4 e.size).symm (length_header e.header).symm
    · exact sliceAt_mid (show e.block = leBytes 4 e.size ++ e.header.bytes ++ e.pathSrc.bytes ++ _
        from rfl) hhead.symm (WString.length_bytes e.pathSrc).symm
    · have hbasic : (leBytes 4 e.size ++ e.header.bytes ++ e.pathSrc.bytes).length =
          sizeofFixed + (e.pathSrc.chars.length + 1) * 2 := by
        rw [List.length_append, hhead, WString.length_bytes]
        rfl
      have hrest : e.block.drop (sizeofFixed + (e.pathSrc.chars.length + 1) * 2) = e.part.bytes :=
        List.drop_left' hbasic
      have hpart : sizeofFixed + (e.pathSrc.chars.length + 1) * 2 < e.size ↔ e.part.bytes ≠ [] := by
        rw [← List.length_pos_iff, size, strsize]
        omega
      have hvalue : leNat (leBytes 4 e.size) = e.size := leNat_leBytes_of_lt hsize
      rw [getOptional, hdrop, lstrlen_bytes]
      simp only [Option.bind_eq_bind, Option.bind_some, htake, hvalue, hrest, hpart]
      by_cases hnil : e.part.bytes = []
      · rw [if_pos hnil, if_neg (not_not_intro hnil)]
      · rw [if_neg hnil, if_pos hnil]

end MapEntry

theorem appendEntries_eq (entries : List MapEntry) (hFile : List UInt8) :
    appendEntries entries hFile =
      if ∀ e ∈ entries, e.size < 2 ^ 32 then some (hFile ++ entries.flatMap MapEntry.block)
      else none := by
  induction entries generalizing hFile with
  | nil => simp [appendEntries]
  | cons e entries ih =>
    rw [appendEntries, e.append_eq]
    by_cases h : e.size < 2 ^ 32
    · rw [if_pos h]
      simp only [ih, List.forall_mem_cons, h, true_and, List.flatMap_cons, List.append_assoc]
    · rw [if_neg h, if_neg fun hall => h (hall e List.mem_cons_self)]

theorem readsBack_blocks (uninit lastError : ℕ → ℕ) (i : ℕ) (entries : List MapEntry)
    (hsize : ∀ e ∈ entries, e.size < 2 ^ 32) :
    ReadsBack uninit lastError i entries (entries.flatMap MapEntry.block) := by
  induction entries generalizing i with
  | nil => rfl
  | cons e entries ih =>
    have he := hsize e List.mem_cons_self
    unfold ReadsBack
    rw [List.flatMap_cons, e.read_block he]
    exact ⟨e.isReadAs_block he _, ih (i + 1) fun e' he' => hsize e' (List.mem_cons_of_mem e he')⟩

theorem roundTrips_iff (entries : List MapEntry) :
    RoundTrips entries ↔ ∀ e ∈ entries, e.size < 2 ^ 32 := by
  unfold RoundTrips
  rw [appendEntries_eq]
  constructor
  · rintro ⟨hFile, happend, -⟩
    by_contra h
    rw [if_neg h] at happend
    nomatch happend
  · intro h
    rw [if_pos h]
    exact ⟨_, rfl, fun uninit lastError => readsBack_blocks uninit lastError 0 entries h⟩

/-- The code that a call returns. -/
theorem dwErr_read (heapAlloc : ℕ → Bool) (uninit lastError : ℕ) (hFile : List UInt8) :
    (readRestoreMapEntry heapAlloc uninit lastError hFile).dwErr =
      if hFile = [] ∨ declaredSize uninit hFile = 0 then ERROR_NO_MORE_ITEMS
      else if heapAlloc (declaredSize uninit hFile) then
        if (hFile.drop 4).length < (declaredSize uninit hFile + (2 ^ 32 - 4)) % 2 ^ 32 then lastError
        else ERROR_SUCCESS
      else ERROR_INTERNAL_ERROR := by
  have hempty : (hFile.take 4).length = 0 ↔ hFile = [] := by
    rw [List.length_take, ← List.length_eq_zero_iff]
    omega
  have hshort (cb : ℕ) : ((hFile.drop 4).take cb).length ≠ cb ↔ (hFile.drop 4).length < cb := by
    rw [List.length_take]
    omega
  unfold readRestoreMapEntry
  simp only [hempty, hshort]
  split_ifs <;> rfl

theorem reportsBadSizes_iff (heapAlloc : ℕ → Bool) (uninit lastError : ℕ) (hFile : List UInt8) :
    ReportsBadSizes heapAlloc uninit lastError hFile ↔
      SizeNoticed heapAlloc uninit lastError hFile := by
  have hmore : ERROR_NO_MORE_ITEMS ≠ ERROR_SUCCESS := by decide
  have hinternal : ERROR_INTERNAL_ERROR ≠ ERROR_SUCCESS := by decide
  unfold ReportsBadSizes SizeNoticed
  rw [dwErr_read]
  generalize declaredSize uninit hFile = d
  by_cases hend : hFile = [] ∨ d = 0
  · rw [if_pos hend]
    exact iff_of_true (fun _ => hmore) (hend.imp_right Or.inl)
  · rw [if_neg hend]
    by_cases halloc : heapAlloc d = true
    · have hbounds : sizeofFixed ≤ d ∧ d ≤ hFile.length ↔
          ¬ (d < sizeofFixed ∨ hFile.length < d) := by omega
      rw [not_or] at hend
      rw [if_pos halloc, hbounds, halloc, imp_iff_not_or, or_iff_right hend.1, or_iff_right hend.2,
        or_iff_right Bool.true_eq_false.mp]
      apply or_congr_right
      split_ifs with hshort
      · rw [and_iff_left hshort]
      · exact iff_of_false (fun h => h rfl) fun h => hshort h.2
    · have hnone : heapAlloc d = false := Bool.eq_false_iff.mpr halloc
      rw [if_neg halloc]
      exact iff_of_true (fun _ => hinternal) (Or.inr (Or.inr (Or.inl hnone)))

/-- An entry that is all size field is read with success. -/
theorem not_reportsBadSizes_four : ¬ ∀ (heapAlloc : ℕ → Bool) (uninit lastError : ℕ)
    (hFile : List UInt8), ReportsBadSizes heapAlloc uninit lastError hFile := by
  intro h
  have hsize : declaredSize 0 [4, 0, 0, 0] < sizeofFixed := by decide
  exact h (fun _ => true) 0 18 [4, 0, 0, 0] (Or.inl hsize) (by decide)

/-- Entries come back as they were written exactly when the sizes of their blocks fit into their
fields, and a wrong size is noticed exactly when the reader does not trust it. -/
theorem restoreMap_iff (entries : List MapEntry) (heapAlloc : ℕ → Bool) (uninit lastError : ℕ)
    (hFile : List UInt8) :
    (RoundTrips entries ↔ ∀ e ∈ entries, e.size < 2 ^ 32) ∧
      (ReportsBadSizes heapAlloc uninit lastError hFile ↔
        SizeNoticed heapAlloc uninit lastError hFile) := by
  constructor
  · exact roundTrips_iff entries
  · exact reportsBadSizes_iff heapAlloc uninit lastError hFile

end NtAdmin.Sr
