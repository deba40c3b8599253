import Mathlib.Data.List.Basic
import Mathlib.Order.Bounds.Basic
import NtAdmin.Lib.Buffer

/-! Objects of varobjheap.cpp that span pages. -/
namespace NtAdmin.Wmi.VarObjHeap
open Lib

/-- What the calls of the object file return. None of these is `FAILED`. -/
inductive Win32Error
  | ERROR_SUCCESS
  | ERROR_OUTOFMEMORY
  | ERROR_INVALID_PARAMETER
  | ERROR_INVALID_OPERATION
  | ERROR_INTERNAL_ERROR
  deriving DecidableEq

open Win32Error

abbrev Page := List UInt8

/-- The object file, with a state `σ`. A call of `newPage` gives the id of the first page. -/
structure ObjectFile (σ : Type) where
  newPage : ℕ → σ → Win32Error × ℕ × σ
  putPage : ℕ → Page → σ → Win32Error × σ
  freePage : ℕ → σ → Win32Error × σ

/-- `sizeof(VarObjObjOffsetEntry)`. -/
def sizeofOffsetEntry : ℕ := 16

/-- The offset entry of an object and the terminator. -/
def sizeofHeader : ℕ := sizeofOffsetEntry * 2

/-- Where the block length is in an offset entry. -/
def dwBlockLengthAt : ℕ := 8

/-- The pages that are counted for a block. The remainder is taken of the size of the header. -/
def numberPagesNeeded (m_dwPageSize ulBlockSize : ℕ) : ℕ :=
  let whole := (ulBlockSize + sizeofHeader) % 2 ^ 32 / m_dwPageSize
  if (ulBlockSize + sizeofHeader % m_dwPageSize) % 2 ^ 32 ≠ 0 then whole + 1 else whole

section heap
variable {σ : Type} (file : ObjectFile σ) (m_dwPageSize : ℕ)

/-- An offset entry for an object behind the header, and the terminator. -/
def header (ulBlockSize dwCRC : ℕ) : List UInt8 :=
  dword 1 ++ dword sizeofHeader ++ dword ulBlockSize ++ dword dwCRC ++
    List.replicate sizeofOffsetEntry 0

/-- The contents of the page that is written at `dwCurrentOffset`, and the offset behind them.
`pPage` is the new memory for it. -/
def fillPage (crc : List UInt8 → ℕ) (pBlock pPage : List UInt8) (dwCurrentOffset : ℕ) : Page × ℕ :=
  if dwCurrentOffset = 0 then
    let first := m_dwPageSize - sizeofHeader
    (copyAt (copyAt pPage 0 (header pBlock.length (crc pBlock))) sizeofHeader (pBlock.take first),
      first)
  else if pBlock.length - dwCurrentOffset > m_dwPageSize then
    (copyAt pPage 0 (sliceAt pBlock dwCurrentOffset m_dwPageSize), dwCurrentOffset + m_dwPageSize)
  else
    (copyAt pPage 0 (pBlock.drop dwCurrentOffset), pBlock.length)

/-- The loop over the pages from `dwPageIndex` on, with the pages that were put so far. `memory` is
what `new` gives for each page, if it does. -/
def allocateLoop (crc : List UInt8 → ℕ) (memory : ℕ → Option Page) (pBlock : List UInt8)
    (dwFirstPageId : ℕ) : ℕ → ℕ → ℕ → Win32Error → σ → List (ℕ × Page) →
    Win32Error × σ × List (ℕ × Page)
  | 0, _, _, dwRes, s, puts => (dwRes, s, puts)
  | rounds + 1, dwPageIndex, dwCurrentOffset, dwRes, s, puts =>
    match memory dwPageIndex with
    | none =>
      allocateLoop crc memory pBlock dwFirstPageId rounds (dwPageIndex + 1) dwCurrentOffset
        ERROR_OUTOFMEMORY s puts
    | some pPage =>
      if dwRes = ERROR_SUCCESS then
        let (pPage, dwCurrentOffset) := fillPage m_dwPageSize crc pBlock pPage dwCurrentOffset
        let dwPageId := (dwFirstPageId + dwPageIndex) % 2 ^ 32
        let (dwRes, s) := file.putPage dwPageId pPage s
        allocateLoop crc memory pBlock dwFirstPageId rounds (dwPageIndex + 1) dwCurrentOffset dwRes
          s (puts ++ [(dwPageId, pPage)])
      else
        allocateLoop crc memory pBlock dwFirstPageId rounds (dwPageIndex + 1) dwCurrentOffset dwRes
          s puts

/-- What an allocation leaves: how many pages it asked for, the id of the first one, and the pages
that it put. -/
structure Allocated (σ : Type) where
  dwRes : Win32Error
  requested : ℕ
  ulPageId : ℕ
  puts : List (ℕ × Page)
  state : σ

def allocateMultiPageBuffer (crc : List UInt8 → ℕ) (memory : ℕ → Option Page) (pBlock : List UInt8)
    (s : σ) : Allocated σ :=
  let dwNumberPagesNeeded := numberPagesNeeded m_dwPageSize pBlock.length
  let (dwRes, dwFirstPageId, s) := file.newPage dwNumberPagesNeeded s
  let (dwRes, s, puts) := allocateLoop file m_dwPageSize crc memory pBlock dwFirstPageId
    dwNumberPagesNeeded 0 0 dwRes s []
  ⟨dwRes, dwNumberPagesNeeded, dwFirstPageId, puts, s⟩

/-- The loop that frees pages; with the calls and what they returned. -/
def freeLoop (ulPageId : ℕ) : ℕ → ℕ → Win32Error → σ → List (ℕ × Win32Error) →
    Win32Error × σ × List (ℕ × Win32Error)
  | 0, _, dwRes, s, freed => (dwRes, s, freed)
  | rounds + 1, dwPageIndex, _, s, freed =>
    let dwPageId := (ulPageId + dwPageIndex) % 2 ^ 32
    let (dwRes, s) := file.freePage dwPageId s
    freeLoop ulPageId rounds (dwPageIndex + 1) dwRes s (freed ++ [(dwPageId, dwRes)])

def deleteMultiPageBuffer (ulPageId : ℕ) (pbPage : Page) (s : σ) :
    Win32Error × σ × List (ℕ × Win32Error) :=
  freeLoop file ulPageId (numberPagesNeeded m_dwPageSize (getDword pbPage dwBlockLengthAt)) 0
    ERROR_SUCCESS s []

end heap

/-! ### Which pages are used -/

/-- The numbers of pages that hold a block and its header. -/
def Holding (m_dwPageSize ulBlockSize : ℕ) : Set ℕ :=
  {k | ulBlockSize + sizeofHeader ≤ k * m_dwPageSize}

/-- Consecutive pages. -/
def pages (ulPageId count : ℕ) : List ℕ :=
  (List.range' 0 count).map fun i => (ulPageId + i) % 2 ^ 32

/-- The pages of a block are counted right unless they are filled exactly, or the size of block and
header does not fit in 32 bits. -/
theorem numberPagesNeeded_isLeast_iff {P n : ℕ} (hP : sizeofHeader < P) (hP' : P < 2 ^ 32)
    (hn : n < 2 ^ 32) : IsLeast (Holding P n) (numberPagesNeeded P n) ↔
      n + sizeofHeader < 2 ^ 32 ∧ ¬ P ∣ n + sizeofHeader := by
  have hheader : sizeofHeader = 32 := rfl
  have hmod : sizeofHeader % P = sizeofHeader := Nat.mod_eq_of_lt hP
  rw [numberPagesNeeded, hmod]
  by_cases hsum : n + sizeofHeader < 2 ^ 32
  · have hwhole : (n + sizeofHeader) % 2 ^ 32 = n + sizeofHeader := Nat.mod_eq_of_lt hsum
    rw [hwhole, if_pos (by omega)]
    have hdiv := Nat.div_add_mod (n + sizeofHeader) P
    have hlt := Nat.mod_lt (n + sizeofHeader) (Nat.zero_lt_of_lt hP)
    generalize (n + sizeofHeader) / P = q at hdiv ⊢
    rw [Nat.mul_comm] at hdiv
    constructor
    · intro hleast
      refine ⟨hsum, fun hdvd => ?_⟩
      have hzero := Nat.mod_eq_zero_of_dvd hdvd
      have hq : q ∈ Holding P n := by
        rw [Holding, Set.mem_ofPred_eq]
        omega
      exact absurd (hleast.2 hq) (by omega)
    · rintro ⟨-, hdvd⟩
      have hpos : (n + sizeofHeader) % P ≠ 0 := fun hzero => hdvd (Nat.dvd_of_mod_eq_zero hzero)
      constructor
      · rw [Holding, Set.mem_ofPred_eq, Nat.succ_mul]
        omega
      · intro k hk
        rw [Holding, Set.mem_ofPred_eq] at hk
        by_contra hkq
        have hkq' : k * P ≤ q * P := Nat.mul_le_mul_right P (by omega)
        omega
  · -- the sum wraps to less than a page
    refine iff_of_false ?_ (fun h => hsum h.1)
    have hsmall : (n + sizeofHeader) % 2 ^ 32 < P := by omega
    intro hleast
    have hmem := hleast.1
    rw [Nat.div_eq_of_lt hsmall, Holding, Set.mem_ofPred_eq] at hmem
    split_ifs at hmem <;> omega

section heap
variable {σ : Type} {file : ObjectFile σ} {P : ℕ} {crc : List UInt8 → ℕ} {memory : ℕ → Option Page}
  {pBlock : List UInt8}

/-- What the calls of `FreePage` return, for consecutive pages. -/
def freeStatuses (file : ObjectFile σ) (ulPageId : ℕ) : ℕ → ℕ → σ → List Win32Error
  | 0, _, _ => []
  | rounds + 1, dwPageIndex, s =>
    let r := file.freePage ((ulPageId + dwPageIndex) % 2 ^ 32) s
    r.1 :: freeStatuses file ulPageId rounds (dwPageIndex + 1) r.2

/-- No call fails before a last one that succeeds. -/
def LastTells (statuses : List Win32Error) : Prop :=
  statuses.getLast? = some ERROR_SUCCESS → ∀ status ∈ statuses, status = ERROR_SUCCESS

theorem freeLoop_eq (ulPageId rounds dwPageIndex : ℕ) (dwRes : Win32Error) (s : σ)
    (freed : List (ℕ × Win32Error)) :
    (freeLoop file ulPageId rounds dwPageIndex dwRes s freed).2.2.map Prod.fst =
        freed.map Prod.fst ++ (List.range' dwPageIndex rounds).map (fun i =>
          (ulPageId + i) % 2 ^ 32) ∧
      (freeLoop file ulPageId rounds dwPageIndex dwRes s freed).2.2.map Prod.snd =
        freed.map Prod.snd ++ freeStatuses file ulPageId rounds dwPageIndex s ∧
      (freeLoop file ulPageId rounds dwPageIndex dwRes s freed).1 =
        (freeStatuses file ulPageId rounds dwPageIndex s).getLast?.getD dwRes := by
  induction rounds generalizing dwPageIndex dwRes s freed with
  | zero => simp [freeLoop, freeStatuses]
  | succ rounds ih =>
    rw [freeLoop]
    obtain ⟨hpages, hstatuses, hres⟩ := ih (dwPageIndex + 1)
      (file.freePage ((ulPageId + dwPageIndex) % 2 ^ 32) s).1
      (file.freePage ((ulPageId + dwPageIndex) % 2 ^ 32) s).2
      (freed ++ [((ulPageId + dwPageIndex) % 2 ^ 32,
        (file.freePage ((ulPageId + dwPageIndex) % 2 ^ 32) s).1)])
    refine ⟨hpages.trans ?_, hstatuses.trans ?_, hres.trans ?_⟩
    · simp [List.range'_succ]
    · simp [freeStatuses]
    · simp [freeStatuses, List.getLast?_cons]

theorem length_header (n c : ℕ) : (header n c).length = sizeofHeader := by
  simp [header, sizeofHeader, sizeofOffsetEntry]

theorem getDword_header {n : ℕ} (hn : n < 2 ^ 32) (c : ℕ) (rest : List UInt8) :
    getDword (header n c ++ rest) dwBlockLengthAt = n := by
  have hsplit : header n c ++ rest = (dword 1 ++ dword sizeofHeader) ++ dword n ++
      (dword c ++ List.replicate sizeofOffsetEntry 0 ++ rest) := by
    simp only [header, List.append_assoc]
  exact getDword_mid hsplit rfl hn

/-- The first page holds the length of the block. -/
theorem getDword_fillPage (hn : pBlock.length < 2 ^ 32) (pPage : List UInt8) :
    getDword (fillPage P crc pBlock pPage 0).1 dwBlockLengthAt = pBlock.length := by
  rw [fillPage, if_pos rfl]
  dsimp only
  have hfirst : copyAt pPage 0 (header pBlock.length (crc pBlock)) =
      header pBlock.length (crc pBlock) ++ pPage.drop sizeofHeader := by
    rw [copyAt, List.take_zero, List.nil_append, Nat.zero_add, length_header]
  have htake : (header pBlock.length (crc pBlock) ++ pPage.drop sizeofHeader).take sizeofHeader =
      header pBlock.length (crc pBlock) :=
    List.take_left' (length_header _ _)
  rw [hfirst, copyAt, htake, List.append_assoc]
  exact getDword_header hn _ _

theorem allocateLoop_puts (file : ObjectFile σ) (P : ℕ) (crc : List UInt8 → ℕ)
    (memory : ℕ → Option Page) (pBlock : List UInt8)
    (dwFirstPageId rounds dwPageIndex dwCurrentOffset : ℕ) (dwRes : Win32Error) (s : σ) (puts : List (ℕ × Page)) :
    ∃ more, (allocateLoop file P crc memory pBlock dwFirstPageId rounds dwPageIndex dwCurrentOffset
      dwRes s puts).2.2 = puts ++ more := by
  induction rounds generalizing dwPageIndex dwCurrentOffset dwRes s puts with
  | zero => exact ⟨[], by simp [allocateLoop]⟩
  | succ rounds ih =>
    rw [allocateLoop]
    split
    · exact ih _ _ _ _ _
    · split_ifs
      · obtain ⟨more, hmore⟩ := ih _ _ _ _ _
        exact ⟨_, hmore.trans (List.append_assoc ..)⟩
      · exact ih _ _ _ _ _

theorem allocateLoop_failed (dwFirstPageId rounds dwPageIndex dwCurrentOffset : ℕ)
    {dwRes : Win32Error} (h : dwRes ≠ ERROR_SUCCESS) (s : σ) (puts : List (ℕ × Page)) :
    (allocateLoop file P crc memory pBlock dwFirstPageId rounds dwPageIndex dwCurrentOffset
      dwRes s puts).2.2 = puts := by
  induction rounds generalizing dwPageIndex dwRes with
  | zero => rfl
  | succ rounds ih =>
    rw [allocateLoop]
    split
    · exact ih _ (fun hres => Win32Error.noConfusion hres)
    · rw [if_neg h]
      exact ih _ h

/-- An object that is allocated in the state `s` and deleted in the state `s'` gets the least number
of pages, these are freed, and success is reported only if all of them were. -/
structure Exact (file : ObjectFile σ) (P : ℕ) (crc : List UInt8 → ℕ) (memory : ℕ → Option Page)
    (pBlock : List UInt8) (s s' : σ) : Prop where
  requested : IsLeast (Holding P pBlock.length)
    (allocateMultiPageBuffer file P crc memory pBlock s).requested
  freed : ∀ first, (allocateMultiPageBuffer file P crc memory pBlock s).puts.head? = some first →
    (deleteMultiPageBuffer file P first.1 first.2 s').2.2.map Prod.fst =
      pages first.1 (allocateMultiPageBuffer file P crc memory pBlock s).requested
  status : ∀ first, (allocateMultiPageBuffer file P crc memory pBlock s).puts.head? = some first →
    (deleteMultiPageBuffer file P first.1 first.2 s').1 = ERROR_SUCCESS →
      ∀ call ∈ (deleteMultiPageBuffer file P first.1 first.2 s').2.2, call.2 = ERROR_SUCCESS

/-- The first page that an allocation puts. -/
theorem allocate_first (file : ObjectFile σ) (P : ℕ) (crc : List UInt8 → ℕ)
    (memory : ℕ → Option Page) (pBlock : List UInt8) (s : σ) :
    (allocateMultiPageBuffer file P crc memory pBlock s).puts.head? =
      (memory 0).bind fun pPage =>
        if (file.newPage (numberPagesNeeded P pBlock.length) s).1 = ERROR_SUCCESS ∧
            numberPagesNeeded P pBlock.length ≠ 0 then
          some ((file.newPage (numberPagesNeeded P pBlock.length) s).2.1 % 2 ^ 32,
            (fillPage P crc pBlock pPage 0).1)
        else none := by
  rw [allocateMultiPageBuffer]
  dsimp only
  cases hcount : numberPagesNeeded P pBlock.length with
  | zero => cases memory 0 <;> simp [allocateLoop]
  | succ rounds =>
    rw [allocateLoop]
    cases memory 0 with
    | none =>
      dsimp only
      rw [allocateLoop_failed _ _ _ _ fun hres => Win32Error.noConfusion hres]
      rfl
    | some pPage =>
      rw [Option.bind_some]
      by_cases hnew : (file.newPage (rounds + 1) s).1 = ERROR_SUCCESS
      · obtain ⟨more, hmore⟩ := allocateLoop_puts file P crc memory pBlock
          (file.newPage (rounds + 1) s).2.1 rounds 1 (fillPage P crc pBlock pPage 0).2 _ _ _
        dsimp only
        rw [if_pos hnew, if_pos ⟨hnew, Nat.succ_ne_zero _⟩, hmore]
        rfl
      · dsimp only
        rw [if_neg hnew, allocateLoop_failed _ _ _ _ hnew, if_neg (fun h => hnew h.1)]
        rfl

theorem requested_eq (file : ObjectFile σ) (P : ℕ) (crc : List UInt8 → ℕ)
    (memory : ℕ → Option Page) (pBlock : List UInt8) (s : σ) :
    (allocateMultiPageBuffer file P crc memory pBlock s).requested =
      numberPagesNeeded P pBlock.length := rfl

/-- The status of the last call, for each of the calls. -/
theorem deleted_status_iff (file : ObjectFile σ) (ulPageId : ℕ) {count : ℕ} (hcount : count ≠ 0)
    (s : σ) :
    ((freeLoop file ulPageId count 0 ERROR_SUCCESS s []).1 = ERROR_SUCCESS →
      ∀ call ∈ (freeLoop file ulPageId count 0 ERROR_SUCCESS s []).2.2, call.2 = ERROR_SUCCESS) ↔
        LastTells (freeStatuses file ulPageId count 0 s) := by
  obtain ⟨-, hstatuses, hres⟩ := freeLoop_eq ulPageId count 0 ERROR_SUCCESS s []
  rw [List.map_nil, List.nil_append] at hstatuses
  have hnonempty : freeStatuses file ulPageId count 0 s ≠ [] := by
    cases count with
    | zero => exact absurd rfl hcount
    | succ rounds => simp [freeStatuses]
  rw [hres, LastTells, ← hstatuses]
  rw [← hstatuses] at hnonempty
  obtain ⟨last, hlast⟩ : ∃ last,
      ((freeLoop file ulPageId count 0 ERROR_SUCCESS s []).2.2.map Prod.snd).getLast? = some last :=
    ⟨_, List.getLast?_eq_some_getLast hnonempty⟩
  simp only [hlast, Option.getD_some, Option.some.injEq, List.forall_mem_map]

/-- Exactly when objects that span pages are allocated and deleted right. -/
theorem exact_iff (file : ObjectFile σ) (P : ℕ) (crc : List UInt8 → ℕ) (memory : ℕ → Option Page)
    (pBlock : List UInt8) (s s' : σ) (hP : sizeofHeader < P) (hP' : P < 2 ^ 32)
    (hn : pBlock.length < 2 ^ 32) :
    Exact file P crc memory pBlock s s' ↔
      pBlock.length + sizeofHeader < 2 ^ 32 ∧ ¬ P ∣ pBlock.length + sizeofHeader ∧
        ((file.newPage (numberPagesNeeded P pBlock.length) s).1 = ERROR_SUCCESS → memory 0 ≠ none →
          LastTells (freeStatuses file
            ((file.newPage (numberPagesNeeded P pBlock.length) s).2.1 % 2 ^ 32)
              (numberPagesNeeded P pBlock.length) 0 s')) := by
  have hleast := numberPagesNeeded_isLeast_iff hP hP' hn
  have hfirst := allocate_first file P crc memory pBlock s
  have hcount : IsLeast (Holding P pBlock.length) (numberPagesNeeded P pBlock.length) →
      numberPagesNeeded P pBlock.length ≠ 0 := by
    intro hmem hzero
    have hmem := hmem.1
    rw [hzero, Holding, Set.mem_ofPred_eq, Nat.zero_mul, sizeofHeader, sizeofOffsetEntry] at hmem
    omega
  constructor
  · intro h
    have hrequested := h.requested
    rw [requested_eq] at hrequested
    obtain ⟨hsum, hdvd⟩ := hleast.1 hrequested
    refine ⟨hsum, hdvd, fun hnew hmemory => ?_⟩
    obtain ⟨pPage, hpage⟩ := Option.ne_none_iff_exists'.mp hmemory
    rw [hpage, Option.bind_some, if_pos ⟨hnew, hcount hrequested⟩] at hfirst
    have hstatus := h.status _ hfirst
    rw [deleteMultiPageBuffer, getDword_fillPage hn] at hstatus
    exact (deleted_status_iff file _ (hcount hrequested) s').1 hstatus
  · rintro ⟨hsum, hdvd, hlast⟩
    have hrequested := hleast.2 ⟨hsum, hdvd⟩
    constructor
    · rw [requested_eq]
      exact hrequested
    · intro first hsome
      rw [hfirst] at hsome
      obtain ⟨pPage, -, hsome⟩ := Option.bind_eq_some_iff.mp hsome
      split_ifs at hsome
      obtain rfl := Option.some.inj hsome
      rw [deleteMultiPageBuffer, getDword_fillPage hn, requested_eq, (freeLoop_eq _ _ _ _ _ _).1]
      rfl
    · intro first hsome
      rw [hfirst] at hsome
      obtain ⟨pPage, hpage, hsome⟩ := Option.bind_eq_some_iff.mp hsome
      split_ifs at hsome with hnew
      obtain rfl := Option.some.inj hsome
      rw [deleteMultiPageBuffer, getDword_fillPage hn]
      exact (deleted_status_iff file _ hnew.2 s').2 (hlast hnew.1 (Option.ne_none_iff_exists'.mpr ⟨pPage, hpage⟩))

end heap

/-- A file of which every call succeeds. -/
def plainFile : ObjectFile Unit where
  newPage _ _ := (ERROR_SUCCESS, 7, ())
  putPage _ _ _ := (ERROR_SUCCESS, ())
  freePage _ _ := (ERROR_SUCCESS, ())

/-- An object of 20000 bytes in pages of 8192. -/
theorem exact_iff_plainFile : Exact plainFile 8192 (fun _ => 0)
    (fun _ => some (List.replicate 8192 0)) (List.replicate 20000 1) () () := by
  have hlength : (List.replicate 20000 (1 : UInt8)).length = 20000 := List.length_replicate
  refine (exact_iff plainFile 8192 _ _ _ () () (by decide) (by decide)
    (by rw [hlength]; decide)).2 ?_
  rw [hlength]
  refine ⟨by decide, by decide, fun _ _ => ?_⟩
  unfold LastTells
  decide

/-- An object that fills two pages of 8192 bytes with its header gets a third page. -/
theorem not_exact_filled : ¬ ∀ pBlock : List UInt8, 8192 < pBlock.length + sizeofHeader →
    pBlock.length < 2 ^ 32 →
      Exact plainFile 8192 (fun _ => 0) (fun _ => some (List.replicate 8192 0)) pBlock () () := by
  intro h
  have hexact := h (List.replicate 16352 0) (by rw [List.length_replicate]; decide)
    (by rw [List.length_replicate]; decide)
  have hrequested := hexact.requested
  rw [requested_eq, List.length_replicate] at hrequested
  have htwo : 2 ∈ Holding 8192 16352 := by
    rw [Holding, Set.mem_ofPred_eq]
    decide
  exact absurd (hrequested.2 htwo) (by decide)

end NtAdmin.Wmi.VarObjHeap
