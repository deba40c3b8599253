import NtAdmin.Wmi.ObjHeap.Directory
import NtAdmin.Wmi.VarObjHeap.Heap

/-! The objects of objheap.cpp, which are in the object heap under names of the index, and what
transactions do to both. -/
namespace NtAdmin.Wmi.ObjHeap
open Btr VarObjHeap

inductive ObjectError
  | index (error : IndexError)
  | ERROR_INVALID_OPERATION
  | heap (error : HeapError)
  /-- A handle of the heap is no pair of `DWORD`s. -/
  | noDword
  /-- More than the allocation is copied from it. -/
  | overread
  deriving DecidableEq

structure CObjectHeap (σ τ : Type) where
  m_Index : τ
  m_Heap : CVarObjHeap σ

/-- The page and the offset are `DWORD`s, as the length is. -/
def infoOf (new : ℕ × ℕ) (dwBufferLen : ℕ) : Except ObjectError FileInfo :=
  if new.1 < 2 ^ 32 ∧ new.2 < 2 ^ 32 ∧ dwBufferLen < 2 ^ 32 then .ok ⟨new.1, new.2, dwBufferLen⟩
  else .error .noDword

section Index
variable {τ : Type} [KeyTree τ]

def recreateIndexFile (m_Index : τ) (wszFilePath wszIndexFileName : Key) (info : FileInfo) :
    Except IndexError τ := do
  let m_Index ← deleteIndexFile m_Index wszFilePath wszIndexFileName
  createIndexFile m_Index wszFilePath info

/-- What `WriteObject` does with `wszFilePath2` for an object that was there. -/
def recreateSecond (m_Index : τ) (wszFilePath2 : Option Key) (info : FileInfo) :
    Except IndexError τ :=
  match wszFilePath2 with
  | none => .ok m_Index
  | some wszFilePath2 => do
    let wszIndexFileName2 ← getIndexFileName m_Index wszFilePath2
    recreateIndexFile m_Index wszFilePath2 wszIndexFileName2 info

/-- And for a new object. -/
def createSecond (m_Index : τ) (wszFilePath2 : Option Key) (info : FileInfo) : Except IndexError τ :=
  match wszFilePath2 with
  | none => .ok m_Index
  | some wszFilePath2 => createIndexFile m_Index wszFilePath2 info

end Index

namespace CObjectHeap
variable {σ τ : Type} [KeyTree τ] (newPage : σ → HeapFile → Except HeapError (ℕ × σ))
  (crc : List UInt8 → ℕ) (m_dwPageSize rounds : ℕ)

def writeObject (env : Surroundings) (wszFilePath1 : Key) (wszFilePath2 : Option Key)
    (pBuffer : List UInt8) (heap : CObjectHeap σ τ) : Except ObjectError (CObjectHeap σ τ) :=
  if pBuffer.isEmpty then do
    let m_Index ← (create wszFilePath1 heap.m_Index).mapError .index
    .ok { heap with m_Index := m_Index }
  else
    match getIndexFileName heap.m_Index wszFilePath1 with
    | .error .ERROR_FILE_NOT_FOUND => do
      let (new, m_Heap) ←
        (heap.m_Heap.writeNewBuffer newPage crc m_dwPageSize rounds env pBuffer).mapError .heap
      let info ← infoOf new pBuffer.length
      let m_Index ← (createIndexFile heap.m_Index wszFilePath1 info).mapError .index
      let m_Index ← (createSecond m_Index wszFilePath2 info).mapError .index
      .ok ⟨m_Index, m_Heap⟩
    | .error error => .error (.index error)
    | .ok wszIndexFileName1 => do
      let old ← (parseInfoFromIndexFile wszIndexFileName1).mapError .index
      let (new, m_Heap) ← (heap.m_Heap.writeExistingBuffer newPage crc m_dwPageSize rounds env pBuffer
        old.nPage old.nOffset).mapError .heap
      let info ← infoOf new pBuffer.length
      if old = info then .ok ⟨heap.m_Index, m_Heap⟩
      else do
        let m_Index ←
          (recreateIndexFile heap.m_Index wszFilePath1 wszIndexFileName1 info).mapError .index
        let m_Index ← (recreateSecond m_Index wszFilePath2 info).mapError .index
        .ok ⟨m_Index, m_Heap⟩

def writeLink (wszLinkPath : Key) (heap : CObjectHeap σ τ) : Except ObjectError (CObjectHeap σ τ) := do
  let m_Index ← (create wszLinkPath heap.m_Index).mapError .index
  .ok { heap with m_Index := m_Index }

/-- `ReadAllocation` copies as many bytes as the name tells. -/
def readObject (wszFilePath : Key) (heap : CObjectHeap σ τ) :
    Except ObjectError (List UInt8 × CObjectHeap σ τ) := do
  let info ← (getFileInfo heap.m_Index wszFilePath).mapError .index
  let (pAllocation, m_Heap) ←
    (heap.m_Heap.readBuffer newPage crc m_dwPageSize rounds info.nPage info.nOffset).mapError .heap
  if pAllocation.length < info.dwLength then .error .overread
  else .ok (pAllocation.take info.dwLength, { heap with m_Heap := m_Heap })

def deleteObject (wszFilePath : Key) (heap : CObjectHeap σ τ) :
    Except ObjectError (CObjectHeap σ τ) := do
  let wszIndexFileName ← (getIndexFileName heap.m_Index wszFilePath).mapError .index
  let info ← (parseInfoFromIndexFile wszIndexFileName).mapError fun _ => .ERROR_INVALID_OPERATION
  let m_Heap ←
    (heap.m_Heap.deleteBuffer newPage m_dwPageSize rounds info.nPage info.nOffset).mapError .heap
  let m_Index ← (deleteIndexFile heap.m_Index wszFilePath wszIndexFileName).mapError .index
  .ok ⟨m_Index, m_Heap⟩

def deleteLink (wszFilePath : Key) (heap : CObjectHeap σ τ) : Except ObjectError (CObjectHeap σ τ) := do
  let m_Index ← (deleteLinkFile heap.m_Index wszFilePath).mapError .index
  .ok { heap with m_Index := m_Index }

/-- `DeleteInstanceSelf` in a51rep.cpp, up to the references: an object with a second path loses this,
too. -/
def deleteInstanceSelf (wszFilePath : Key) (wszInstanceLinkPath : Option Key) (heap : CObjectHeap σ τ) :
    Except ObjectError (CObjectHeap σ τ) := do
  let heap ← heap.deleteObject newPage m_dwPageSize rounds wszFilePath
  match wszInstanceLinkPath with
  | none => .ok heap
  | some wszInstanceLinkPath => heap.deleteLink wszInstanceLinkPath

def flushCaches (heap : CObjectHeap σ τ) : Except ObjectError (CObjectHeap σ τ) := do
  let m_Heap ← (heap.m_Heap.flushCaches newPage rounds).mapError .heap
  .ok { heap with m_Heap := m_Heap }

end CObjectHeap

/-! ### Transactions -/

/-- An object heap with the index and the object file as they were when a transaction last ended. -/
structure ObjectSession (σ τ : Type) where
  heap : CObjectHeap σ τ
  committedIndex : τ
  committedFile : HeapFile

/-- The calls of an object heap, and of its transactions. An abort comes with the state of page
allocation that it leaves. -/
inductive ObjectCall (σ : Type)
  | read (path : Key)
  | write (env : Surroundings) (path : Key) (pBuffer : List UInt8)
  | delete (path : Key)
  | writeLink (path : Key)
  | deleteLink (path : Key)
  | flushCaches
  | commit
  | abort (source : σ)

/-- The session on a new repository, with an empty index. -/
def ObjectSession.new {σ : Type} (τ : Type) [KeyTree τ] (m_Heap : CVarObjHeap σ) :
    ObjectSession σ τ :=
  ⟨⟨KeyTree.init, m_Heap⟩, KeyTree.init, fun _ => none⟩

namespace ObjectSession
variable {σ τ : Type} [KeyTree τ] (newPage : σ → HeapFile → Except HeapError (ℕ × σ))
  (crc : List UInt8 → ℕ) (m_dwPageSize rounds : ℕ) (second : Key → Option Key)

def withHeap (session : ObjectSession σ τ) (heap : CObjectHeap σ τ) : ObjectSession σ τ :=
  { session with heap := heap }

/-- The session after a call that has succeeded. The second path of an object is always the same. -/
def step (session : ObjectSession σ τ) : ObjectCall σ → Except ObjectError (ObjectSession σ τ)
  | .read path => do
    let (_, heap) ← session.heap.readObject newPage crc m_dwPageSize rounds path
    .ok (session.withHeap heap)
  | .write env path pBuffer => do
    let heap ←
      session.heap.writeObject newPage crc m_dwPageSize rounds env path (second path) pBuffer
    .ok (session.withHeap heap)
  | .delete path => do
    let heap ← session.heap.deleteInstanceSelf newPage m_dwPageSize rounds path (second path)
    .ok (session.withHeap heap)
  | .writeLink path => do
    let heap ← session.heap.writeLink path
    .ok (session.withHeap heap)
  | .deleteLink path => do
    let heap ← session.heap.deleteLink path
    .ok (session.withHeap heap)
  | .flushCaches => do
    let heap ← session.heap.flushCaches newPage rounds
    .ok (session.withHeap heap)
  | .commit =>
    .ok ⟨session.heap, session.heap.m_Index, session.heap.m_Heap.m_pObjectFile⟩
  | .abort source => do
    let m_Heap ← (CVarObjHeap.invalidateCache newPage rounds
      { session.heap.m_Heap with
        m_pObjectFile := session.committedFile, source := source }).mapError .heap
    .ok (session.withHeap ⟨session.committedIndex, m_Heap⟩)

end ObjectSession

/-! ### What the object heap stands for -/

/-- The objects and the links by their paths. -/
structure Repository where
  objects : Key → Option (List UInt8)
  links : Key → Bool

namespace Repository

def empty : Repository := ⟨fun _ => none, fun _ => false⟩

def withObject (repository : Repository) (path : Key) (object : Option (List UInt8)) : Repository :=
  { repository with objects := Function.update repository.objects path object }

theorem withObject_self (repository : Repository) (path : Key) (object : Option (List UInt8)) :
    (repository.withObject path object).objects path = object := Function.update_self _ _ _

theorem withObject_of_ne (repository : Repository) {path other : Key} (h : other ≠ path)
    (object : Option (List UInt8)) :
    (repository.withObject path object).objects other = repository.objects other :=
  Function.update_of_ne h _ _

theorem withObject_withObject (repository : Repository) (path : Key)
    (object object' : Option (List UInt8)) :
    (repository.withObject path object).withObject path object' =
      repository.withObject path object' := by
  rw [withObject, withObject, withObject]
  dsimp only
  rw [Function.update_idem]

def withLink (repository : Repository) (path : Key) (link : Bool) : Repository :=
  { repository with links := Function.update repository.links path link }

end Repository

/-- What is stored, now and after an abort. -/
structure StoredObjects where
  current : Repository
  committed : Repository

namespace StoredObjects

def after {σ : Type} (stored : StoredObjects) : ObjectCall σ → StoredObjects
  | .read _ => stored
  | .write _ path pBuffer => { stored with current := stored.current.withObject path (some pBuffer) }
  | .delete path => { stored with current := stored.current.withObject path none }
  | .writeLink path => { stored with current := stored.current.withLink path true }
  | .deleteLink path => { stored with current := stored.current.withLink path false }
  | .flushCaches => stored
  | .commit => { stored with committed := stored.current }
  | .abort _ => { stored with current := stored.committed }

end StoredObjects

/-- The paths of objects and of links, and which objects have a second path. -/
structure Layout where
  objects : Key → Prop
  links : Key → Prop
  second : Key → Option Key

namespace Layout

def paths (layout : Layout) (path : Key) : Prop :=
  layout.objects path ∨ layout.links path ∨
    ∃ object, layout.objects object ∧ layout.second object = some path

/-- Each path is one of an object, of a link, or the second path of one object. There is room for what
is put behind it. -/
structure Sound (layout : Layout) (room : ℕ) : Prop where
  family : PathFamily layout.paths
  short : ∀ path, layout.paths path → path.1.length + 33 ≤ room
  link : ∀ path, layout.links path → ¬ layout.objects path
  second : ∀ object path, layout.objects object → layout.second object = some path →
    ¬ layout.objects path ∧ ¬ layout.links path
  unique : ∀ object object' path, layout.objects object → layout.objects object' →
    layout.second object = some path → layout.second object' = some path → object = object'

end Layout

/-- Objects that are written are not empty. -/
def ObjectCall.Fits {σ : Type} (layout : Layout) : ObjectCall σ → Prop
  | .read path => layout.objects path
  | .write _ path pBuffer => layout.objects path ∧ pBuffer ≠ []
  | .delete path => layout.objects path
  | .writeLink path => layout.links path
  | .deleteLink path => layout.links path
  | .flushCaches => True
  | .commit => True
  | .abort _ => True

end NtAdmin.Wmi.ObjHeap
