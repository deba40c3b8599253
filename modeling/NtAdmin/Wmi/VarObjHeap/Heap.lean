import NtAdmin.Wmi.VarObjHeap.AdminPages

/-! The object heap of varobjheap.cpp for objects that fit on a page: writing, reading and deleting
them, and what transactions do to the heap. The pages of the file can be read, written and freed. -/
namespace NtAdmin.Wmi.VarObjHeap
open Lib

/-- What `m_dwStatus` is as long as the pages can be read. -/
inductive HeapStatus
  | NoError
  | AdminPagesNeedReading
  deriving DecidableEq

/-- The heap, with the object file and the state of what gives new pages. -/
structure CVarObjHeap (σ : Type) where
  m_dwStatus : HeapStatus
  m_aAdminPages : List AdminPageEntry
  m_pObjectFile : HeapFile
  source : σ

/-- The values that `WriteNewBuffer` finds in its surroundings: what is in the memory for a page, and
the ids that are drawn for the object. -/
structure Surroundings where
  memory : ℕ → UInt8
  drawn : List ℕ

namespace CVarObjHeap
variable {σ : Type} (newPage : σ → HeapFile → Except HeapError (ℕ × σ)) (crc : List UInt8 → ℕ)
  (m_dwPageSize rounds : ℕ)

/-- `ReadAdminPages` if it is to read them again, and otherwise only forgets them. -/
def readAdminPages (bReReadPages : Bool) (heap : CVarObjHeap σ) : Except HeapError (CVarObjHeap σ) :=
  if heap.m_dwStatus = .NoError then .ok heap
  else if bReReadPages then do
    let (pages, file, source) ← readLoop newPage rounds 0 heap.m_pObjectFile heap.source
    .ok ⟨.NoError, pages, file, source⟩
  else .ok { heap with m_aAdminPages := [] }

/-- `Initialize`. -/
def init (file : HeapFile) (source : σ) : Except HeapError (CVarObjHeap σ) :=
  readAdminPages newPage rounds true ⟨.AdminPagesNeedReading, [], file, source⟩

def invalidateCache (heap : CVarObjHeap σ) : Except HeapError (CVarObjHeap σ) :=
  readAdminPages newPage rounds true { heap with m_dwStatus := .AdminPagesNeedReading }

def flushCaches (heap : CVarObjHeap σ) : Except HeapError (CVarObjHeap σ) :=
  readAdminPages newPage rounds false { heap with m_dwStatus := .AdminPagesNeedReading }

/-- `GetPage` for a page with objects. -/
def getPage (heap : CVarObjHeap σ) (ulPageId : ℕ) : Except HeapError ObjectPage :=
  match heap.m_pObjectFile ulPageId with
  | some (.object page) => .ok page
  | some _ => .error .otherPage
  | none => .error .ERROR_FILE_NOT_FOUND

def putPage (heap : CVarObjHeap σ) (ulPageId : ℕ) (pbPage : ObjectPage) : CVarObjHeap σ :=
  { heap with m_pObjectFile := Function.update heap.m_pObjectFile ulPageId (some (.object pbPage)) }

/-- `FlushAdminPages`. -/
def flush (heap : CVarObjHeap σ) : CVarObjHeap σ :=
  let (pages, file) := flushAdminPages heap.m_aAdminPages heap.m_pObjectFile
  { heap with m_aAdminPages := pages, m_pObjectFile := file }

def readBuffer (ulPageId ulOffsetId : ℕ) (heap : CVarObjHeap σ) :
    Except HeapError (List UInt8 × CVarObjHeap σ) :=
  if ulPageId = 0 ∨ ulOffsetId = 0 then .error .ERROR_INVALID_PARAMETER
  else do
    let heap ← heap.readAdminPages newPage rounds true
    let pbPage ← heap.getPage ulPageId
    let pBlock ← pbPage.readObject crc m_dwPageSize ulOffsetId
    .ok (pBlock, heap)

/-- The loop of `WriteNewBuffer` for a page with space. What `pbPage` has as memory is on the new page,
too. A page that turns out to be too full gets its entry adjusted; `dwPageId` is not reset then. -/
def choosePage (ulBlockSize : ℕ) : ℕ → ℕ → List UInt8 → CVarObjHeap σ →
    Except HeapError (ℕ × ObjectPage × CVarObjHeap σ)
  | 0, _, _, _ => .error .ERROR_INTERNAL_ERROR
  | tries + 1, dwPageId, pbPage, heap =>
    match findPageWithSpace heap.m_aAdminPages ulBlockSize dwPageId with
    | none => do
      let (dwPageId, pages, file, source) ←
        allocateNewPage newPage m_dwPageSize heap.m_aAdminPages heap.m_pObjectFile heap.source
      .ok (dwPageId, ⟨[], pbPage⟩, ⟨heap.m_dwStatus, pages, file, source⟩)
    | some dwPageId => do
      let page ← heap.getPage dwPageId
      if (page.validatePageFreeSpace m_dwPageSize ulBlockSize).1 then .ok (dwPageId, page, heap)
      else
        let pages := (updateAdminPageForAllocate2 dwPageId
          (page.validatePageFreeSpace m_dwPageSize ulBlockSize).2 heap.m_aAdminPages).toOption.getD
            heap.m_aAdminPages
        choosePage ulBlockSize tries dwPageId page.memory { heap with m_aAdminPages := pages }

def writeNewBuffer (env : Surroundings) (pBlock : List UInt8) (heap : CVarObjHeap σ) :
    Except HeapError ((ℕ × ℕ) × CVarObjHeap σ) := do
  let heap ← heap.readAdminPages newPage rounds true
  if pBlock.length > m_dwPageSize - sizeofHeader then .error .multiPage
  else
    let (dwPageId, pbPage, heap) ← choosePage newPage m_dwPageSize pBlock.length 10 0
      ((List.range m_dwPageSize).map env.memory) heap
    match pbPage.newOffsetId env.drawn with
    | none => .error .unfinished
    | some dwNewOffsetId =>
      let heap := heap.putPage dwPageId (pbPage.allocateFromPage crc dwNewOffsetId pBlock)
      let pages ← updateAdminPageForAllocate dwPageId pBlock.length heap.m_aAdminPages
      let heap := flush { heap with m_aAdminPages := pages }
      if dwPageId = 0 ∨ dwNewOffsetId = 0 then .error .ERROR_INTERNAL_ERROR
      else .ok ((dwPageId, dwNewOffsetId), heap)

def deleteBuffer (ulPageId ulOffsetId : ℕ) (heap : CVarObjHeap σ) :
    Except HeapError (CVarObjHeap σ) := do
  let heap ← heap.readAdminPages newPage rounds true
  let pbPage ← heap.getPage ulPageId
  if pbPage.multiPageObject m_dwPageSize then .error .multiPage
  else
    let (pbPage, dwSize) ← pbPage.removeFromPage ulOffsetId
    let (bPageDeleted, pages, file) ← updateAdminPageForDelete m_dwPageSize ulPageId dwSize
      heap.m_aAdminPages heap.m_pObjectFile
    let heap := { heap with m_aAdminPages := pages, m_pObjectFile := file }
    .ok (flush (if bPageDeleted then heap else heap.putPage ulPageId pbPage))

def writeExistingBuffer (env : Surroundings) (pBlock : List UInt8) (ulOldPageId ulOldOffsetId : ℕ)
    (heap : CVarObjHeap σ) : Except HeapError ((ℕ × ℕ) × CVarObjHeap σ) := do
  if ulOldPageId = 0 ∨ ulOldOffsetId = 0 then .error .ERROR_INTERNAL_ERROR
  else
    let heap ← heap.readAdminPages newPage rounds true
    let heap ← heap.deleteBuffer newPage m_dwPageSize rounds ulOldPageId ulOldOffsetId
    let (new, heap) ← heap.writeNewBuffer newPage crc m_dwPageSize rounds env pBlock
    if new.1 = 0 ∨ new.2 = 0 then .error .ERROR_INTERNAL_ERROR
    else .ok (new, heap)

end CVarObjHeap

/-! ### Transactions -/

/-- A heap with the object file as it was when a transaction last ended. -/
structure Session (σ : Type) where
  heap : CVarObjHeap σ
  committed : HeapFile

/-- The calls of a heap and of its transactions. A new object is given with the handle that it gets. Page
allocation is in the state `source` when a transaction was aborted, by which the calls of it that have
failed leave nothing else behind. -/
inductive HeapCall (σ : Type)
  | read (old : ℕ × ℕ)
  | write (env : Surroundings) (pBlock : List UInt8) (new : ℕ × ℕ)
  | update (env : Surroundings) (pBlock : List UInt8) (old new : ℕ × ℕ)
  | delete (old : ℕ × ℕ)
  | flushCaches
  | commit
  | abort (source : σ)

namespace Session
variable {σ : Type} (newPage : σ → HeapFile → Except HeapError (ℕ × σ)) (crc : List UInt8 → ℕ)
  (m_dwPageSize rounds : ℕ)

def withHeap (session : Session σ) (heap : CVarObjHeap σ) : Session σ := { session with heap := heap }

/-- The session after a call that has succeeded. -/
def step (session : Session σ) : HeapCall σ → Except HeapError (Session σ)
  | .read old => do
    let (_, heap) ← session.heap.readBuffer newPage crc m_dwPageSize rounds old.1 old.2
    .ok (session.withHeap heap)
  | .write env pBlock new => do
    let (handle, heap) ← session.heap.writeNewBuffer newPage crc m_dwPageSize rounds env pBlock
    if handle = new then .ok (session.withHeap heap) else .error .otherHandle
  | .update env pBlock old new => do
    let (handle, heap) ←
      session.heap.writeExistingBuffer newPage crc m_dwPageSize rounds env pBlock old.1 old.2
    if handle = new then .ok (session.withHeap heap) else .error .otherHandle
  | .delete old => do
    let heap ← session.heap.deleteBuffer newPage m_dwPageSize rounds old.1 old.2
    .ok (session.withHeap heap)
  | .flushCaches => do
    let heap ← session.heap.flushCaches newPage rounds
    .ok (session.withHeap heap)
  | .commit => .ok { session with committed := session.heap.m_pObjectFile }
  | .abort source => do
    let heap ← CVarObjHeap.invalidateCache newPage rounds
      { session.heap with m_pObjectFile := session.committed, source := source }
    .ok (session.withHeap heap)

end Session

/-! ### What the heap stands for -/

/-- The blocks that are stored, by their handles. -/
abbrev Blocks := ℕ × ℕ → Option (List UInt8)

/-- The stored blocks, now and after an abort. -/
structure StoredBlocks where
  current : Blocks
  committed : Blocks

namespace StoredBlocks

def after {σ : Type} (blocks : StoredBlocks) : HeapCall σ → StoredBlocks
  | .read _ => blocks
  | .write _ pBlock new => { blocks with current := Function.update blocks.current new (some pBlock) }
  | .update _ pBlock old new =>
    { blocks with current :=
        Function.update (Function.update blocks.current old none) new (some pBlock) }
  | .delete old => { blocks with current := Function.update blocks.current old none }
  | .flushCaches => blocks
  | .commit => { blocks with committed := blocks.current }
  | .abort _ => { blocks with current := blocks.committed }

end StoredBlocks

end NtAdmin.Wmi.VarObjHeap
