import Mathlib.Data.List.Basic
import Mathlib.Data.List.Nodup
import NtAdmin.Wmi.VarObjHeap.MultiPage

/-! The object pages of varobjheap.cpp: adding objects to a page, reading and removing them. -/
namespace NtAdmin.Wmi.VarObjHeap
open Lib

/-- Sums and differences of `DWORD`s. -/
def dwAdd (a b : ℕ) : ℕ := (a + b) % 2 ^ 32

def dwSub (a b : ℕ) : ℕ := (a + 2 ^ 32 - b) % 2 ^ 32

theorem dwAdd_eq {a b : ℕ} (h : a + b < 2 ^ 32) : dwAdd a b = a + b := Nat.mod_eq_of_lt h

theorem dwSub_eq {a b : ℕ} (hb : b ≤ a) (ha : a < 2 ^ 32) : dwSub a b = a - b := by
  rw [dwSub]
  omega

/-- What the methods of the heap return when they fail. The last four are none of the source's: the
function for objects that span pages takes over, a page is not of the kind it is taken for, a loop has
not ended yet, or the handle of a new object is not the one expected. -/
inductive HeapError
  | ERROR_FILE_NOT_FOUND
  | ERROR_INTERNAL_ERROR
  | ERROR_INVALID_PARAMETER
  | newPage
  | multiPage
  | otherPage
  | unfinished
  | otherHandle
  deriving DecidableEq

/-- `VarObjObjOffsetEntry`. -/
structure OffsetEntry where
  dwOffsetId : ℕ
  dwPhysicalStartOffset : ℕ
  dwBlockLength : ℕ
  dwCRC : ℕ
  deriving DecidableEq

/-- The entry whose id is 0, behind the others. -/
def terminator : OffsetEntry := ⟨0, 0, 0, 0⟩

/-- A page with objects. The offset table is given by its entries in front of the terminator; what the
memory has at its place, from the start of the page on, is not looked at. -/
structure ObjectPage where
  table : List OffsetEntry
  memory : List UInt8
  deriving DecidableEq

namespace ObjectPage
variable (page : ObjectPage)

/-- `pOffsetEntry[dwIndex]`. -/
def entry (dwIndex : ℕ) : OffsetEntry := page.table.getD dwIndex terminator

/-- `MultiPageObject`. -/
def multiPageObject (m_dwPageSize : ℕ) : Bool :=
  (page.entry 0).dwBlockLength > m_dwPageSize - sizeofHeader

/-- The loop of `AllocateFromPage`, by which the objects are to lie behind one more entry. -/
def shiftTable : ObjectPage :=
  { page with table := page.table.map fun entry =>
      { entry with dwPhysicalStartOffset := dwAdd entry.dwPhysicalStartOffset sizeofOffsetEntry } }

/-- The first of the values that are drawn which is an id for a new object. -/
def newOffsetId (drawn : List ℕ) : Option ℕ :=
  drawn.find? fun dwNewOffsetId =>
    dwNewOffsetId ≠ 0 ∧ ∀ entry ∈ page.table, entry.dwOffsetId ≠ dwNewOffsetId

/-- `AllocateFromPage`, with the id that it has drawn. -/
def allocateFromPage (crc : List UInt8 → ℕ) (dwNewOffsetId : ℕ) (pBlock : List UInt8) : ObjectPage :=
  let page := page.shiftTable
  let dwOffsetIndex := page.table.length
  let last := page.table.getLast?.getD terminator
  let dwLastOffset := last.dwPhysicalStartOffset
  let dwLastSize := last.dwBlockLength
  let memory := moveWithin page.memory (sizeofOffsetEntry * (dwOffsetIndex + 1))
    (sizeofOffsetEntry * dwOffsetIndex)
    (dwAdd (dwSub (dwAdd dwLastOffset dwLastSize) (page.entry 0).dwPhysicalStartOffset)
      sizeofOffsetEntry)
  let dwPhysicalStartOffset :=
    if dwLastOffset = 0 then sizeofOffsetEntry * 2 else dwAdd dwLastOffset dwLastSize
  ⟨page.table ++ [⟨dwNewOffsetId, dwPhysicalStartOffset, pBlock.length, crc pBlock⟩],
    copyAt memory dwPhysicalStartOffset pBlock⟩

/-- `OffsetToPointer`. -/
def offsetToPointer (ulOffsetId : ℕ) : Except HeapError OffsetEntry :=
  match page.table.find? fun entry => entry.dwOffsetId = ulOffsetId with
  | some entry => .ok entry
  | none => .error .ERROR_FILE_NOT_FOUND

/-- What `ReadBuffer` does with a page that it has read. -/
def readObject (crc : List UInt8 → ℕ) (m_dwPageSize ulOffsetId : ℕ) :
    Except HeapError (List UInt8) := do
  let entry ← page.offsetToPointer ulOffsetId
  if m_dwPageSize < entry.dwPhysicalStartOffset + entry.dwBlockLength then .error .multiPage
  else
    let pBlock := sliceAt page.memory entry.dwPhysicalStartOffset entry.dwBlockLength
    if crc pBlock = entry.dwCRC then .ok pBlock else .error .ERROR_INTERNAL_ERROR

/-- The loop of `RemoveFromPage`: the slots in front of the current entry as they are by now, and
the entry with its index if it was found. An entry behind it goes to the slot before its own. -/
def removeLoop (ulOffsetId : ℕ) : List OffsetEntry → List OffsetEntry → Option (OffsetEntry × ℕ) →
    List OffsetEntry × Option (OffsetEntry × ℕ)
  | front, [], found => (front, found)
  | front, entry :: rest, found =>
    if entry.dwOffsetId = ulOffsetId then
      removeLoop ulOffsetId (front ++ [entry]) rest (some (entry, front.length))
    else
      match found with
      | some (doomed, _) =>
        let moved := { entry with
          dwPhysicalStartOffset := dwSub (dwSub entry.dwPhysicalStartOffset doomed.dwBlockLength)
            sizeofOffsetEntry }
        removeLoop ulOffsetId (front.dropLast ++ [moved, entry]) rest found
      | none =>
        let adjusted := { entry with
          dwPhysicalStartOffset := dwSub entry.dwPhysicalStartOffset sizeofOffsetEntry }
        removeLoop ulOffsetId (front ++ [adjusted]) rest none

/-- `RemoveFromPage`: the page without the object, and its size. -/
def removeFromPage (ulOffsetId : ℕ) : Except HeapError (ObjectPage × ℕ) :=
  match removeLoop ulOffsetId [] page.table none with
  | (_, none) => .error .ERROR_FILE_NOT_FOUND
  | (table, some (doomed, dwFoundIndex)) =>
    let removed : ObjectPage := ⟨table.dropLast, page.memory⟩
    let dwFirstOffset := (removed.entry 0).dwPhysicalStartOffset
    let memory := if dwFoundIndex ≠ 0 then
        moveWithin page.memory dwFirstOffset (dwAdd dwFirstOffset sizeofOffsetEntry)
          (dwSub doomed.dwPhysicalStartOffset (dwAdd dwFirstOffset sizeofOffsetEntry))
      else page.memory
    let next := removed.entry dwFoundIndex
    let last := removed.table.getLast?.getD terminator
    let memory := if next.dwOffsetId ≠ 0 then
        moveWithin memory next.dwPhysicalStartOffset
          (dwAdd doomed.dwPhysicalStartOffset doomed.dwBlockLength)
          (dwSub (dwAdd last.dwPhysicalStartOffset last.dwBlockLength) next.dwPhysicalStartOffset)
      else memory
    .ok (⟨removed.table, memory⟩, doomed.dwBlockLength)

/-- `ValidatePageFreeSpace`: whether there is space for the block, and the space that is left. -/
def validatePageFreeSpace (m_dwPageSize ulBlockSize : ℕ) : Bool × ℕ :=
  let last := page.table.getLast?.getD (page.entry 0)
  let dwNextAvailableOffset := dwAdd last.dwPhysicalStartOffset last.dwBlockLength
  (dwAdd (dwAdd dwNextAvailableOffset ulBlockSize) sizeofOffsetEntry ≤ m_dwPageSize,
    dwSub m_dwPageSize dwNextAvailableOffset)

end ObjectPage

/-! ### The objects of a page -/

/-- The objects of a page by their ids, in the order in which they lie there. -/
abbrev Objects := List (ℕ × List UInt8)

/-- The bytes of the objects. -/
def blockBytes (objects : Objects) : List UInt8 := (objects.map Prod.snd).flatten

/-- The bytes of their entries and of the terminator. -/
def headerBytes (objects : Objects) : ℕ := sizeofOffsetEntry * (objects.length + 1)

/-- The entries of objects that lie one behind the other from `start` on. -/
def entriesFrom (crc : List UInt8 → ℕ) : ℕ → Objects → List OffsetEntry
  | _, [] => []
  | start, (id, block) :: objects =>
    ⟨id, start, block.length, crc block⟩ :: entriesFrom crc (start + block.length) objects

/-- The page has exactly these objects, packed behind the offset table. -/
structure HoldsObjects (crc : List UInt8 → ℕ) (m_dwPageSize : ℕ) (page : ObjectPage)
    (objects : Objects) : Prop where
  table : page.table = entriesFrom crc (headerBytes objects) objects
  length : page.memory.length = m_dwPageSize
  memory : ∃ front rest, page.memory = front ++ (blockBytes objects ++ rest) ∧
    front.length = headerBytes objects
  nodup : (objects.map Prod.fst).Nodup
  ids : ∀ object ∈ objects, object.1 ≠ 0

section Objects
variable {crc : List UInt8 → ℕ} {P start : ℕ} {page : ObjectPage} {objects a b : Objects} {id : ℕ}
  {block : List UInt8}

@[simp] theorem blockBytes_nil : blockBytes [] = [] := rfl

@[simp] theorem blockBytes_cons (object : ℕ × List UInt8) (objects : Objects) :
    blockBytes (object :: objects) = object.2 ++ blockBytes objects := by
  rw [blockBytes, List.map_cons, List.flatten_cons, ← blockBytes]

@[simp] theorem blockBytes_append (a b : Objects) :
    blockBytes (a ++ b) = blockBytes a ++ blockBytes b := by
  rw [blockBytes, List.map_append, List.flatten_append, ← blockBytes, ← blockBytes]

theorem headerBytes_append (a b : Objects) :
    headerBytes (a ++ b) = headerBytes a + sizeofOffsetEntry * b.length := by
  rw [headerBytes, headerBytes, List.length_append, ← Nat.mul_add]
  congr 1
  omega

theorem headerBytes_removed (a b : Objects) (object : ℕ × List UInt8) :
    headerBytes (a ++ object :: b) = headerBytes (a ++ b) + sizeofOffsetEntry := by
  rw [headerBytes_append, headerBytes_append, List.length_cons, Nat.mul_succ, Nat.add_assoc]

@[simp] theorem length_entriesFrom (start : ℕ) (objects : Objects) :
    (entriesFrom crc start objects).length = objects.length := by
  induction objects generalizing start with
  | nil => rfl
  | cons object objects ih => rw [entriesFrom, List.length_cons, List.length_cons, ih]

theorem entriesFrom_append (start : ℕ) (a b : Objects) :
    entriesFrom crc start (a ++ b) =
      entriesFrom crc start a ++ entriesFrom crc (start + (blockBytes a).length) b := by
  induction a generalizing start with
  | nil => rfl
  | cons object a ih =>
    rw [List.cons_append, entriesFrom, entriesFrom, ih, blockBytes_cons, List.length_append,
      Nat.add_assoc, List.cons_append]

/-- Entries that are moved by `f`. -/
theorem map_entriesFrom {start start' : ℕ} (f : OffsetEntry → OffsetEntry)
    (hf : ∀ id d size crc, d ≤ (blockBytes objects).length →
      f ⟨id, start + d, size, crc⟩ = ⟨id, start' + d, size, crc⟩) :
    (entriesFrom crc start objects).map f = entriesFrom crc start' objects := by
  induction objects generalizing start start' with
  | nil => rfl
  | cons object objects ih =>
    rw [blockBytes_cons, List.length_append] at hf
    rw [entriesFrom, entriesFrom, List.map_cons]
    have hhead := hf object.1 0 object.2.length (crc object.2) (Nat.zero_le _)
    rw [Nat.add_zero, Nat.add_zero] at hhead
    rw [hhead]
    congr 1
    refine ih fun id d size check hd => ?_
    rw [Nat.add_assoc, Nat.add_assoc]
    exact hf id _ size check (by omega)

variable (crc start) in
/-- The last entry. -/
theorem getLast_entriesFrom (hne : objects ≠ []) :
    ∃ last, (entriesFrom crc start objects).getLast? = some last ∧
      start ≤ last.dwPhysicalStartOffset ∧
      last.dwPhysicalStartOffset + last.dwBlockLength = start + (blockBytes objects).length := by
  obtain ⟨front, ⟨id, block⟩, rfl⟩ := (List.eq_nil_or_concat objects).resolve_left hne
  rw [List.concat_eq_append, entriesFrom_append, entriesFrom, entriesFrom]
  refine ⟨_, List.getLast?_concat, Nat.le_add_right _ _, ?_⟩
  simp only [blockBytes_append, blockBytes_cons, blockBytes_nil, List.append_nil, List.length_append]
  omega

theorem getD_entriesFrom_zero (hne : objects ≠ []) (crc : List UInt8 → ℕ) (start : ℕ) :
    ((entriesFrom crc start objects).getD 0 terminator).dwPhysicalStartOffset = start := by
  cases objects with
  | nil => exact absurd rfl hne
  | cons object objects => rfl

variable (crc) in
theorem ids_entriesFrom (start : ℕ) (objects : Objects) :
    (entriesFrom crc start objects).map OffsetEntry.dwOffsetId = objects.map Prod.fst := by
  induction objects generalizing start with
  | nil => rfl
  | cons object objects ih => rw [entriesFrom, List.map_cons, List.map_cons, ih]

theorem ne_of_entriesFrom {entry : OffsetEntry} (hentry : entry ∈ entriesFrom crc start objects)
    (hid : id ∉ objects.map Prod.fst) : entry.dwOffsetId ≠ id := by
  rintro rfl
  rw [← ids_entriesFrom crc start] at hid
  exact hid (List.mem_map_of_mem hentry)

theorem HoldsObjects.notMem_left (h : HoldsObjects crc P page (a ++ (id, block) :: b)) :
    id ∉ a.map Prod.fst := by
  have hnodup := h.nodup
  rw [List.map_append, List.map_cons] at hnodup
  exact fun hmem => (List.nodup_append.mp hnodup).2.2 id hmem id List.mem_cons_self rfl

theorem HoldsObjects.notMem_right (h : HoldsObjects crc P page (a ++ (id, block) :: b)) :
    id ∉ b.map Prod.fst := by
  have hnodup := h.nodup
  rw [List.map_append, List.map_cons] at hnodup
  exact (List.nodup_cons.mp (List.nodup_append.mp hnodup).2.1).1

theorem length_memory (h : HoldsObjects crc P page objects) :
    headerBytes objects + (blockBytes objects).length ≤ P := by
  obtain ⟨front, rest, hmemory, hfront⟩ := h.memory
  have hlength := h.length
  rw [hmemory, List.length_append, List.length_append, hfront] at hlength
  omega

/-- What `ReadBuffer` returns for an object. -/
theorem HoldsObjects.readObject (h : HoldsObjects crc P page (a ++ (id, block) :: b)) :
    page.readObject crc P id = .ok block := by
  obtain ⟨front, rest, hmemory, hfront⟩ := h.memory
  have hlength := length_memory h
  rw [blockBytes_append, blockBytes_cons, List.length_append, List.length_append] at hlength
  dsimp only at hlength
  have hfirst : ∀ entry ∈ entriesFrom crc (headerBytes (a ++ (id, block) :: b)) a,
      entry.dwOffsetId ≠ id := fun entry hentry => ne_of_entriesFrom hentry h.notMem_left
  have hfind : page.table.find? (fun entry => entry.dwOffsetId = id) = some
      ⟨id, headerBytes (a ++ (id, block) :: b) + (blockBytes a).length, block.length, crc block⟩ := by
    rw [h.table, entriesFrom_append, entriesFrom, List.find?_append,
      List.find?_eq_none.mpr fun entry hentry => by simpa using hfirst entry hentry, Option.none_or,
      List.find?_cons_of_pos (by simp)]
  have hslice : sliceAt page.memory (headerBytes (a ++ (id, block) :: b) + (blockBytes a).length)
      block.length = block := by
    have hwhole : page.memory = front ++ blockBytes a ++ block ++ (blockBytes b ++ rest) := by
      rw [hmemory, blockBytes_append, blockBytes_cons]
      simp only [List.append_assoc]
    exact sliceAt_mid hwhole (by rw [List.length_append, hfront]) rfl
  rw [ObjectPage.readObject, ObjectPage.offsetToPointer, hfind]
  refine (if_neg (by dsimp only; omega)).trans ?_
  dsimp only
  rw [hslice, if_pos rfl]

/-- How much of a page its objects take. -/
def usedBytes (objects : Objects) : ℕ := headerBytes objects + (blockBytes objects).length

theorem usedBytes_cons (object : ℕ × List UInt8) (objects : Objects) :
    usedBytes (object :: objects) =
      usedBytes objects + (object.2.length + sizeofOffsetEntry) := by
  rw [usedBytes, usedBytes, blockBytes_cons, List.length_append, headerBytes, headerBytes,
    List.length_cons, Nat.mul_succ]
  omega

theorem usedBytes_append (a b : Objects) :
    usedBytes (a ++ b) + sizeofOffsetEntry = usedBytes a + usedBytes b := by
  induction a with
  | nil => rw [List.nil_append, Nat.add_comm]; rfl
  | cons object a ih => rw [List.cons_append, usedBytes_cons, usedBytes_cons]; omega

/-- A page of objects is not taken for the first page of an object that spans pages. -/
theorem HoldsObjects.multiPageObject (h : HoldsObjects crc P page objects) (hne : objects ≠ []) :
    page.multiPageObject P = false := by
  cases objects with
  | nil => exact absurd rfl hne
  | cons object objects =>
    have hlength := length_memory h
    have hsize : sizeofOffsetEntry = 16 := rfl
    have hheader : sizeofHeader = 32 := rfl
    have hentry : (page.entry 0).dwBlockLength = object.2.length := by
      rw [ObjectPage.entry, h.table, entriesFrom]
      rfl
    rw [blockBytes_cons, List.length_append, headerBytes, List.length_cons, hsize] at hlength
    rw [ObjectPage.multiPageObject, hentry, decide_eq_false_iff_not]
    omega

/-- The space that is left on a page. -/
theorem HoldsObjects.validatePageFreeSpace (h : HoldsObjects crc P page objects) (hne : objects ≠ [])
    (hP : P < 2 ^ 32) {ulBlockSize : ℕ}
    (hroom : usedBytes objects + (ulBlockSize + sizeofOffsetEntry) ≤ P) :
    (page.validatePageFreeSpace P ulBlockSize).1 = true := by
  obtain ⟨last, hlast, -, hend⟩ := getLast_entriesFrom crc (headerBytes objects) hne
  rw [← usedBytes] at hend
  refine decide_eq_true ?_
  have hnext : dwAdd last.dwPhysicalStartOffset last.dwBlockLength = usedBytes objects := by
    rw [dwAdd_eq (by omega), hend]
  rw [h.table, hlast, Option.getD_some, hnext, dwAdd_eq (a := usedBytes objects) (by omega),
    dwAdd_eq (by omega)]
  omega

theorem shiftTable_eq (h : HoldsObjects crc P page objects) (hP : P + sizeofOffsetEntry < 2 ^ 32) :
    page.shiftTable.table = entriesFrom crc (headerBytes objects + sizeofOffsetEntry) objects := by
  have hlength := length_memory h
  rw [ObjectPage.shiftTable, h.table]
  refine map_entriesFrom _ fun id d size check hd => ?_
  dsimp only
  rw [dwAdd_eq (by omega), Nat.add_right_comm]

/-- Where a new object goes, and what is moved for its entry. -/
theorem allocateFromPage_eq (h : HoldsObjects crc P page objects)
    (hP : P + sizeofOffsetEntry < 2 ^ 32) (id : ℕ) (block : List UInt8) :
    page.allocateFromPage crc id block =
      ⟨entriesFrom crc (headerBytes objects + sizeofOffsetEntry) objects ++
          [⟨id, headerBytes objects + sizeofOffsetEntry + (blockBytes objects).length, block.length,
            crc block⟩],
        copyAt (moveWithin page.memory (sizeofOffsetEntry * (objects.length + 1))
            (sizeofOffsetEntry * objects.length) ((blockBytes objects).length + sizeofOffsetEntry))
          (headerBytes objects + sizeofOffsetEntry + (blockBytes objects).length) block⟩ := by
  have hlength := length_memory h
  have hsize : sizeofOffsetEntry = 16 := rfl
  rw [ObjectPage.allocateFromPage, ObjectPage.entry, shiftTable_eq h hP, length_entriesFrom]
  have hmemory : page.shiftTable.memory = page.memory := rfl
  rw [hmemory]
  by_cases hne : objects = []
  · subst hne
    have hmove : dwAdd (dwSub (dwAdd 0 0) 0) sizeofOffsetEntry = sizeofOffsetEntry := by decide
    have hnil : headerBytes [] = sizeofOffsetEntry := rfl
    simp only [entriesFrom, List.getLast?_nil, Option.getD_none, List.getD_nil, terminator, if_pos,
      hmove, hnil, blockBytes_nil, List.length_nil, Nat.zero_add, Nat.add_zero, Nat.mul_two]
  · obtain ⟨last, hlast, hstart, hend⟩ := getLast_entriesFrom crc
      (headerBytes objects + sizeofOffsetEntry) hne
    have hpos : last.dwPhysicalStartOffset ≠ 0 := by omega
    have hnext : dwAdd last.dwPhysicalStartOffset last.dwBlockLength =
        headerBytes objects + sizeofOffsetEntry + (blockBytes objects).length := by
      rw [dwAdd_eq (by omega), hend]
    rw [hlast, Option.getD_some, getD_entriesFrom_zero hne, if_neg hpos, hnext,
      dwSub_eq (by omega) (by omega), dwAdd_eq (by omega), Nat.add_sub_cancel_left]

/-- A new object lies behind the others, which are as they were. -/
theorem HoldsObjects.allocate (h : HoldsObjects crc P page objects)
    (hP : P + sizeofOffsetEntry < 2 ^ 32)
    (hroom : usedBytes objects + (block.length + sizeofOffsetEntry) ≤ P)
    (hid : id ≠ 0) (hnew : ∀ object ∈ objects, object.1 ≠ id) :
    HoldsObjects crc P (page.allocateFromPage crc id block) (objects ++ [(id, block)]) := by
  obtain ⟨front, rest, hmemory, hfront⟩ := h.memory
  have hlength := h.length
  rw [usedBytes] at hroom
  rw [hmemory, List.length_append, List.length_append, hfront] at hlength
  have hheader : headerBytes objects = sizeofOffsetEntry * objects.length + sizeofOffsetEntry := rfl
  have hheader' : headerBytes (objects ++ [(id, block)]) = headerBytes objects + sizeofOffsetEntry :=
    headerBytes_append objects [(id, block)]
  -- The last slot of the table, and what is overwritten behind the objects.
  obtain ⟨slots, slot, rfl, hslots⟩ : ∃ slots slot, front = slots ++ slot ∧
      slots.length = sizeofOffsetEntry * objects.length := by
    refine ⟨_, _, (List.take_append_drop (sizeofOffsetEntry * objects.length) front).symm, ?_⟩
    rw [List.length_take, hfront]
    omega
  obtain ⟨gap, room, rfl, hgap⟩ : ∃ gap room, rest = gap ++ room ∧ gap.length = sizeofOffsetEntry := by
    refine ⟨_, _, (List.take_append_drop sizeofOffsetEntry rest).symm, ?_⟩
    rw [List.length_take]
    omega
  obtain ⟨old, rest, rfl, hold⟩ : ∃ old rest, room = old ++ rest ∧ old.length = block.length := by
    refine ⟨_, _, (List.take_append_drop block.length room).symm, ?_⟩
    rw [List.length_append] at hlength
    rw [List.length_take]
    omega
  rw [List.length_append, hslots] at hfront
  have hslot : slot.length = sizeofOffsetEntry := by omega
  have hmoved : moveWithin page.memory (sizeofOffsetEntry * (objects.length + 1))
      (sizeofOffsetEntry * objects.length) ((blockBytes objects).length + sizeofOffsetEntry) =
        slots ++ slot ++ (slot ++ blockBytes objects) ++ (old ++ rest) := by
    have hslice : sliceAt page.memory (sizeofOffsetEntry * objects.length)
        ((blockBytes objects).length + sizeofOffsetEntry) = slot ++ blockBytes objects := by
      refine sliceAt_mid (u := slots) (v := gap ++ (old ++ rest)) ?_ hslots.symm ?_
      · rw [hmemory]
        simp only [List.append_assoc]
      · rw [List.length_append, hslot, Nat.add_comm]
    rw [moveWithin, hslice]
    refine copyAt_mid (w := blockBytes objects ++ gap) ?_ ?_ ?_
    · rw [hmemory]
      simp only [List.append_assoc]
    · rw [List.length_append, hslots, hslot]
      rfl
    · rw [List.length_append, List.length_append, hslot, hgap, Nat.add_comm]
  have hcopied : copyAt (slots ++ slot ++ (slot ++ blockBytes objects) ++ (old ++ rest))
      (headerBytes objects + sizeofOffsetEntry + (blockBytes objects).length) block =
        slots ++ slot ++ slot ++ (blockBytes objects ++ block ++ rest) := by
    rw [copyAt_mid (u := slots ++ slot ++ (slot ++ blockBytes objects)) (w := old) (v := rest)
      (by simp only [List.append_assoc]) ?_ hold.symm]
    · simp only [List.append_assoc]
    · simp only [List.length_append, hslots, hslot]
      omega
  rw [allocateFromPage_eq h hP, hmoved, hcopied]
  refine ⟨?_, ?_, ⟨slots ++ slot ++ slot, rest, ?_, ?_⟩, ?_, ?_⟩
  · rw [hheader', entriesFrom_append]
    rfl
  · have hall := h.length
    rw [hmemory] at hall
    simp only [List.length_append] at hall ⊢
    omega
  · rw [blockBytes_append, blockBytes_cons, blockBytes_nil, List.append_nil]
  · rw [hheader', List.length_append, List.length_append, hslots, hslot]
    omega
  · rw [List.map_append, List.nodup_append]
    refine ⟨h.nodup, List.nodup_singleton _, ?_⟩
    intro old hmem new hmem' heq
    obtain ⟨object, hobject, rfl⟩ := List.mem_map.mp hmem
    exact hnew object hobject (heq.trans (List.mem_singleton.mp hmem'))
  · intro object hobject
    rcases List.mem_append.mp hobject with hobject | hobject
    · exact h.ids object hobject
    · rw [List.mem_singleton.mp hobject]
      exact hid

/-! ### Removing objects -/

section Loop
variable {ulOffsetId : ℕ} {doomed : OffsetEntry} {i : ℕ}

/-- An entry whose object moves over the place of one entry less. -/
def lowered (entry : OffsetEntry) : OffsetEntry :=
  { entry with dwPhysicalStartOffset := dwSub entry.dwPhysicalStartOffset sizeofOffsetEntry }

/-- An entry behind the removed one. -/
def closedUp (doomed entry : OffsetEntry) : OffsetEntry :=
  { entry with
    dwPhysicalStartOffset :=
      dwSub (dwSub entry.dwPhysicalStartOffset doomed.dwBlockLength) sizeofOffsetEntry }

variable (doomed i) in
theorem removeLoop_found (front rest : List OffsetEntry) (x : OffsetEntry)
    (hrest : ∀ entry ∈ rest, entry.dwOffsetId ≠ ulOffsetId) :
    ∃ last, ObjectPage.removeLoop ulOffsetId (front ++ [x]) rest (some (doomed, i)) =
      (front ++ rest.map (closedUp doomed) ++ [last], some (doomed, i)) := by
  induction rest generalizing front x with
  | nil => exact ⟨x, by rw [ObjectPage.removeLoop, List.map_nil, List.append_nil]⟩
  | cons entry rest ih =>
    obtain ⟨hentry, hrest⟩ := List.forall_mem_cons.mp hrest
    obtain ⟨last, hlast⟩ := ih (front ++ [closedUp doomed entry]) entry hrest
    have hslots : (front ++ [x]).dropLast ++ [closedUp doomed entry, entry] =
        front ++ [closedUp doomed entry] ++ [entry] := by
      rw [List.dropLast_concat, List.append_assoc]
      rfl
    refine ⟨last, ?_⟩
    rw [ObjectPage.removeLoop, if_neg hentry]
    dsimp only
    rw [← closedUp, hslots, hlast, List.map_cons, List.append_assoc front]
    rfl

theorem removeLoop_before (front before rest : List OffsetEntry)
    (hbefore : ∀ entry ∈ before, entry.dwOffsetId ≠ ulOffsetId) :
    ObjectPage.removeLoop ulOffsetId front (before ++ rest) none =
      ObjectPage.removeLoop ulOffsetId (front ++ before.map lowered) rest none := by
  induction before generalizing front with
  | nil => rw [List.nil_append, List.map_nil, List.append_nil]
  | cons entry before ih =>
    obtain ⟨hentry, hbefore⟩ := List.forall_mem_cons.mp hbefore
    rw [List.cons_append, ObjectPage.removeLoop, if_neg hentry]
    dsimp only
    rw [← lowered, ih _ hbefore, List.append_assoc]
    rfl

theorem removeLoop_mid (doomed : OffsetEntry) (before rest : List OffsetEntry)
    (hbefore : ∀ entry ∈ before, entry.dwOffsetId ≠ doomed.dwOffsetId)
    (hrest : ∀ entry ∈ rest, entry.dwOffsetId ≠ doomed.dwOffsetId) :
    ∃ last, ObjectPage.removeLoop doomed.dwOffsetId [] (before ++ doomed :: rest) none =
      (before.map lowered ++ rest.map (closedUp doomed) ++ [last], some (doomed, before.length)) := by
  obtain ⟨last, hlast⟩ := removeLoop_found doomed before.length
    (before.map lowered) rest doomed hrest
  refine ⟨last, ?_⟩
  rw [removeLoop_before _ _ _ hbefore, ObjectPage.removeLoop, if_pos rfl, List.nil_append,
    List.length_map, hlast]

end Loop

/-- The table that `RemoveFromPage` leaves. -/
theorem removeLoop_table (h : HoldsObjects crc P page (a ++ (id, block) :: b)) (hP : P < 2 ^ 32) :
    ∃ last, ObjectPage.removeLoop id [] page.table none =
      (entriesFrom crc (headerBytes (a ++ b)) (a ++ b) ++ [last],
        some (⟨id, headerBytes (a ++ (id, block) :: b) + (blockBytes a).length, block.length,
          crc block⟩, a.length)) := by
  have hlength := length_memory h
  have hheader := headerBytes_removed a b (id, block)
  rw [blockBytes_append, blockBytes_cons, List.length_append, List.length_append] at hlength
  dsimp only at hlength
  obtain ⟨last, hlast⟩ := removeLoop_mid
    ⟨id, headerBytes (a ++ (id, block) :: b) + (blockBytes a).length, block.length, crc block⟩
    (entriesFrom crc (headerBytes (a ++ (id, block) :: b)) a)
    (entriesFrom crc (headerBytes (a ++ (id, block) :: b) + (blockBytes a).length + block.length) b)
    (fun entry hentry => ne_of_entriesFrom hentry h.notMem_left)
    fun entry hentry => ne_of_entriesFrom hentry h.notMem_right
  refine ⟨last, ?_⟩
  have hbefore : (entriesFrom crc (headerBytes (a ++ (id, block) :: b)) a).map lowered =
      entriesFrom crc (headerBytes (a ++ b)) a := by
    refine map_entriesFrom _ fun id d size check hd => ?_
    rw [lowered, dwSub_eq (by dsimp only; omega) (by dsimp only; omega)]
    simp only [OffsetEntry.mk.injEq, true_and, and_true]
    omega
  have hbehind : (entriesFrom crc (headerBytes (a ++ (id, block) :: b) + (blockBytes a).length +
      block.length) b).map (closedUp ⟨id, headerBytes (a ++ (id, block) :: b) + (blockBytes a).length,
        block.length, crc block⟩) =
      entriesFrom crc (headerBytes (a ++ b) + (blockBytes a).length) b := by
    refine map_entriesFrom _ fun id d size check hd => ?_
    rw [closedUp, dwSub_eq (b := block.length) (by dsimp only; omega) (by dsimp only; omega),
      dwSub_eq (by dsimp only; omega) (by dsimp only; omega)]
    simp only [OffsetEntry.mk.injEq, true_and, and_true]
    omega
  rw [hbefore, hbehind, ← entriesFrom_append, length_entriesFrom] at hlast
  rw [h.table, entriesFrom_append, entriesFrom]
  exact hlast

/-- Nothing is removed if no object has the id. -/
theorem HoldsObjects.remove_missing (h : HoldsObjects crc P page objects)
    (hid : id ∉ objects.map Prod.fst) :
    page.removeFromPage id = .error .ERROR_FILE_NOT_FOUND := by
  have hloop := removeLoop_before [] page.table [] fun entry hentry =>
    ne_of_entriesFrom (h.table ▸ hentry) hid
  rw [List.append_nil] at hloop
  rw [ObjectPage.removeFromPage, hloop]
  rfl

section Closing
variable {memory slots slot stale rest : List UInt8}

variable (crc id block) in
/-- The objects in front of a removed one come down by its entry. -/
theorem moveWithin_front (hslots : slots.length = headerBytes (a ++ b))
    (hslot : slot.length = sizeofOffsetEntry)
    (hmemory : memory = slots ++ slot ++ (blockBytes a ++ rest))
    (hbound : headerBytes (a ++ b) + sizeofOffsetEntry + (blockBytes a).length < 2 ^ 32) :
    ∃ stale : List UInt8, stale.length = sizeofOffsetEntry ∧
      (if a.length ≠ 0 then
        moveWithin memory
          (((entriesFrom crc (headerBytes (a ++ b)) (a ++ b)).getD 0 terminator).dwPhysicalStartOffset)
          (dwAdd ((entriesFrom crc (headerBytes (a ++ b)) (a ++ b)).getD 0
            terminator).dwPhysicalStartOffset sizeofOffsetEntry)
          (dwSub (headerBytes (a ++ (id, block) :: b) + (blockBytes a).length)
            (dwAdd ((entriesFrom crc (headerBytes (a ++ b)) (a ++ b)).getD 0
              terminator).dwPhysicalStartOffset sizeofOffsetEntry))
      else memory) = slots ++ blockBytes a ++ (stale ++ rest) := by
  have hheader := headerBytes_removed a b (id, block)
  split_ifs with hne
  · have hab : a ++ b ≠ [] := List.append_ne_nil_of_left_ne_nil
      (fun hnil => hne (by rw [hnil]; rfl)) b
    rw [getD_entriesFrom_zero hab, dwAdd_eq (by omega), ← hheader,
      dwSub_eq (Nat.le_add_right _ _) (by omega), Nat.add_sub_cancel_left]
    obtain ⟨stale, hstale, hmove⟩ := moveWithin_down
      (p := memory) (u := slots) (g := slot) (v := blockBytes a) (t := rest)
      (by rw [hmemory]; simp only [List.append_assoc])
      (d := headerBytes (a ++ b)) (s := headerBytes (a ++ (id, block) :: b))
      (n := (blockBytes a).length) hslots.symm (by rw [hslots, hslot, hheader]) rfl
    exact ⟨stale, hstale.trans hslot, hmove⟩
  · rw [not_not, List.length_eq_zero_iff] at hne
    refine ⟨slot, hslot, ?_⟩
    rw [hmemory, hne]
    simp only [blockBytes_nil, List.append_assoc, List.nil_append]

variable (crc id block rest) in
/-- The objects behind it close up. -/
theorem moveWithin_behind (hids : ∀ object ∈ b, object.1 ≠ 0)
    (hslots : slots.length = headerBytes (a ++ b)) (hstale : stale.length = sizeofOffsetEntry)
    (hbound : headerBytes (a ++ b) + sizeofOffsetEntry + (blockBytes a).length + block.length +
      (blockBytes b).length < 2 ^ 32) :
    ∃ rest' : List UInt8, rest'.length = sizeofOffsetEntry + block.length + rest.length ∧
      (if ((entriesFrom crc (headerBytes (a ++ b)) (a ++ b)).getD a.length terminator).dwOffsetId ≠ 0
      then
        moveWithin (slots ++ blockBytes a ++ (stale ++ (block ++ (blockBytes b ++ rest))))
          ((entriesFrom crc (headerBytes (a ++ b)) (a ++ b)).getD a.length
            terminator).dwPhysicalStartOffset
          (dwAdd (headerBytes (a ++ (id, block) :: b) + (blockBytes a).length) block.length)
          (dwSub (dwAdd
            (((entriesFrom crc (headerBytes (a ++ b)) (a ++ b)).getLast?).getD
              terminator).dwPhysicalStartOffset
            (((entriesFrom crc (headerBytes (a ++ b)) (a ++ b)).getLast?).getD
              terminator).dwBlockLength)
            ((entriesFrom crc (headerBytes (a ++ b)) (a ++ b)).getD a.length
              terminator).dwPhysicalStartOffset)
      else slots ++ blockBytes a ++ (stale ++ (block ++ (blockBytes b ++ rest)))) =
        slots ++ (blockBytes (a ++ b) ++ rest') := by
  have hsize : sizeofOffsetEntry = 16 := rfl
  have hheader := headerBytes_removed a b (id, block)
  cases b with
  | nil =>
    have hnext : (entriesFrom crc (headerBytes (a ++ [])) (a ++ [])).getD a.length terminator =
        terminator := by
      rw [List.getD_eq_default _ _ (by rw [length_entriesFrom, List.append_nil])]
    rw [hnext, if_neg (fun hne => hne rfl)]
    refine ⟨stale ++ (block ++ rest), ?_, ?_⟩
    · rw [List.length_append, List.length_append, hstale, Nat.add_assoc]
    · simp only [blockBytes_nil, List.append_nil, List.nil_append, List.append_assoc]
  | cons object b =>
    have hnext : (entriesFrom crc (headerBytes (a ++ object :: b)) (a ++ object :: b)).getD a.length
        terminator = ⟨object.1, headerBytes (a ++ object :: b) + (blockBytes a).length,
          object.2.length, crc object.2⟩ := by
      rw [entriesFrom_append, List.getD_append_right _ _ _ _ (by rw [length_entriesFrom]),
        length_entriesFrom, Nat.sub_self]
      rfl
    have hid : object.1 ≠ 0 := hids object List.mem_cons_self
    obtain ⟨final, hfinal, -, hend⟩ := getLast_entriesFrom crc
      (headerBytes (a ++ object :: b)) (List.append_ne_nil_of_right_ne_nil a (List.cons_ne_nil object b))
    rw [blockBytes_append, List.length_append] at hend
    rw [hnext, if_pos hid, hfinal, Option.getD_some, dwAdd_eq (by omega), dwAdd_eq (by omega),
      hend]
    dsimp only
    rw [dwSub_eq (by omega) (by omega)]
    obtain ⟨stale', hstale', hmove⟩ := moveWithin_down
      (p := slots ++ blockBytes a ++ (stale ++ (block ++ (blockBytes (object :: b) ++ rest))))
      (u := slots ++ blockBytes a) (g := stale ++ block) (v := blockBytes (object :: b)) (t := rest)
      (d := headerBytes (a ++ object :: b) + (blockBytes a).length)
      (s := headerBytes (a ++ (id, block) :: object :: b) + (blockBytes a).length + block.length)
      (n := headerBytes (a ++ object :: b) + ((blockBytes a).length +
        (blockBytes (object :: b)).length) - (headerBytes (a ++ object :: b) + (blockBytes a).length))
      (by simp only [List.append_assoc]) (by rw [List.length_append, hslots])
      (by rw [List.length_append, List.length_append, hslots, hstale, hheader]; omega) (by omega)
    refine ⟨stale' ++ rest, ?_, ?_⟩
    · rw [List.length_append, hstale', List.length_append, hstale]
    · rw [hmove, blockBytes_append]
      simp only [List.append_assoc]

end Closing

/-- The object is taken out of the page, and the others are as they were. -/
theorem HoldsObjects.remove (h : HoldsObjects crc P page (a ++ (id, block) :: b)) (hP : P < 2 ^ 32) :
    ∃ page', page.removeFromPage id = .ok (page', block.length) ∧
      HoldsObjects crc P page' (a ++ b) := by
  obtain ⟨front, rest, hmemory, hfront⟩ := h.memory
  have hlength := length_memory h
  have hsize : sizeofOffsetEntry = 16 := rfl
  have hheader := headerBytes_removed a b (id, block)
  rw [blockBytes_append, blockBytes_cons, List.length_append, List.length_append] at hlength
  dsimp only at hlength
  obtain ⟨last, hloop⟩ := removeLoop_table h hP
  obtain ⟨slots, slot, rfl, hslots⟩ : ∃ slots slot, front = slots ++ slot ∧
      slots.length = headerBytes (a ++ b) := by
    refine ⟨_, _, (List.take_append_drop (headerBytes (a ++ b)) front).symm, ?_⟩
    rw [List.length_take, hfront]
    omega
  rw [List.length_append, hslots] at hfront
  have hslot : slot.length = sizeofOffsetEntry := by omega
  rw [blockBytes_append, blockBytes_cons] at hmemory
  have hblocks : page.memory =
      slots ++ slot ++ (blockBytes a ++ (block ++ (blockBytes b ++ rest))) := by
    rw [hmemory]
    simp only [List.append_assoc]
  obtain ⟨stale, hstale, hfirst⟩ :=
    moveWithin_front crc id block hslots hslot hblocks (by omega)
  obtain ⟨rest', hrest', hsecond⟩ := moveWithin_behind crc id block rest
    (fun object hobject => h.ids object (by simp [hobject])) hslots hstale (by omega)
  have hremove : page.removeFromPage id = .ok
      (⟨entriesFrom crc (headerBytes (a ++ b)) (a ++ b), slots ++ (blockBytes (a ++ b) ++ rest')⟩,
        block.length) := by
    rw [ObjectPage.removeFromPage, hloop]
    dsimp only [ObjectPage.entry]
    rw [List.dropLast_concat, hfirst, hsecond]
  have hnodup := h.nodup
  rw [List.map_append, List.map_cons] at hnodup
  refine ⟨_, hremove, rfl, ?_, ⟨slots, rest', rfl, hslots⟩, ?_, ?_⟩
  · have hall := h.length
    rw [hmemory] at hall
    simp only [List.length_append, blockBytes_append, hslots, hslot, hrest'] at hall ⊢
    omega
  · rw [List.map_append]
    exact hnodup.sublist (List.Sublist.append_left (List.sublist_cons_self _ _) _)
  · intro object hobject
    rw [List.mem_append] at hobject
    refine h.ids object (List.mem_append.mpr ?_)
    exact hobject.imp_right (List.mem_cons_of_mem _)

end Objects

end NtAdmin.Wmi.VarObjHeap
