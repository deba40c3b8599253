import Mathlib.Algebra.GroupWithZero.Nat
import Mathlib.Data.Fin.Basic
import NtAdmin.Lib.Bytes
import NtAdmin.Lib.Prog

/-! The two files that hold the job queue, `CQmgrStateFiles`, and the registry value that selects
one of them. -/
namespace NtAdmin.Drizzle.Newjob

open NtAdmin.Lib

def METADATA_PADDING : ℕ := 4096

/-- A GUID as it stands in memory: two little-endian words, a long before them, eight bytes. -/
def QmgrStateStorageGUID : List UInt8 :=
  [0xf5, 0x6a, 0x19, 0x2b, 0x7c, 0x00, 0x8f, 0x43, 0x8d, 0x12, 0x1c, 0xfc, 0xa4, 0xcc, 0x9b, 0x76]

def GroupListStorageGUID : List UInt8 :=
  [0x47, 0x44, 0x5f, 0x00, 0xa9, 0xbd, 0xba, 0x44, 0x98, 0x51, 0xc4, 0x7b, 0xb6, 0xc0, 0x7a, 0xce]

def PriorityQueuesStorageGUID : List UInt8 :=
  [0x13, 0xf7, 0x2b, 0xc8, 0x40, 0x99, 0x12, 0x4a, 0x9f, 0x1a, 0x3a, 0xae, 0xbd, 0x89, 0x4e, 0xea]

namespace StateFiles

/-- The outcome of one request to the system. A write that fails may have written `torn` bytes,
and a request at which the machine stops is not carried out. -/
inductive Fate
  | done
  | fails (torn : ℕ)
  | crash
  deriving DecidableEq, Repr

/-- What ends a function early: a `ComError`, which a handler can catch, or the machine stopping. -/
inductive Stop
  | comError
  | crash
  deriving DecidableEq, Repr

/-- `fates` are the outcomes of the coming requests; all later ones succeed. `alive` says that the
service runs, without it only the files and the registry mean anything. `committed` is not the
program's: it is the image of the last commit whose index update took effect. -/
structure World where
  files : Fin 2 → List UInt8
  registry : Option ℕ
  pointers : Fin 2 → ℕ
  m_ExpandSize : Fin 2 → ℕ
  m_OriginalFileSizes : Fin 2 → ℕ
  m_CurrentIndex : Fin 2
  alive : Bool
  fates : List Fate
  committed : Option (List UInt8)

abbrev Op (α : Type) := Prog World Stop α

/-- The file that the registry selects; a service that finds no index there begins with file 0. -/
def selected : Option ℕ → Fin 2
  | some 1 => 1
  | _ => 0

/-- The outcome of the next request. -/
def nextFate : Op Fate := fun w => (.ok (w.fates.headD .done), { w with fates := w.fates.tail })

/-- A request that changes nothing when it fails. -/
def request : Op Unit := do
  match ← nextFate with
  | .done => pure ()
  | .fails _ => throw .comError
  | .crash => throw .crash

/-- `catch( ComError )`. -/
def catchCom {α : Type} (m h : Op α) : Op α :=
  tryCatch m fun
    | .comError => h
    | .crash => throw .crash

inductive MoveMethod
  | fileBegin
  | fileCurrent
  | fileEnd
  deriving DecidableEq, Repr

/-- Where a move of a file's pointer starts. -/
def World.base (w : World) (i : Fin 2) : MoveMethod → ℤ
  | .fileBegin => 0
  | .fileCurrent => w.pointers i
  | .fileEnd => (w.files i).length

def bitsSetFilePointer (i : Fin 2) (offset : ℤ) (method : MoveMethod) : Op ℤ := do
  request
  let w ← get
  let pointer := w.base i method + offset
  if pointer < 0 then
    throw .comError
  else do
    modify fun w => { w with pointers := Function.update w.pointers i pointer.toNat }
    pure pointer

/-- The end of the file becomes the file pointer; what is added reads as zeros. -/
def setEnd (f : List UInt8) (n : ℕ) : List UInt8 :=
  f.take n ++ List.replicate (n - f.length) 0

def bitsSetEndOfFile (i : Fin 2) : Op Unit := do
  request
  modify fun w => { w with files := Function.update w.files i (setEnd (w.files i) (w.pointers i)) }

def bitsGetFileSize (i : Fin 2) : Op ℕ := do
  request
  let w ← get
  pure (w.files i).length

def bitsFlushFileBuffers (_i : Fin 2) : Op Unit := request

/-- The bytes that reach the file, and the file pointer behind them. -/
def writeFile (i : Fin 2) (bs : List UInt8) : Op Unit :=
  modify fun w => { w with
    files := Function.update w.files i (writeAt 0 (w.files i) (w.pointers i) bs)
    pointers := Function.update w.pointers i (w.pointers i + bs.length) }

/-- A write that fails, or that writes less than it was given, throws. -/
def safeWriteFile (i : Fin 2) (bs : List UInt8) : Op Unit := do
  match ← nextFate with
  | .done => writeFile i bs
  | .fails torn => do
    writeFile i (bs.take torn)
    throw .comError
  | .crash => throw .crash

def safeWriteFiles (i : Fin 2) : List (List UInt8) → Op Unit
  | [] => pure ()
  | bs :: bss => do
    safeWriteFile i bs
    safeWriteFiles i bss

/-- The index update of a commit of `image`. -/
def setRegDWordValue (i : Fin 2) (image : List UInt8) : Op Unit := do
  request
  modify fun w => { w with registry := some i.val, committed := some image }

def dwZeroGroups : List UInt8 := [0, 0, 0, 0]

def writeEmptyMetadataFile (i : Fin 2) : Op Unit := do
  let _ ← bitsSetFilePointer i 0 .fileBegin
  safeWriteFiles i
    [QmgrStateStorageGUID, PriorityQueuesStorageGUID,
      GroupListStorageGUID, dwZeroGroups, GroupListStorageGUID,
      GroupListStorageGUID, dwZeroGroups, GroupListStorageGUID,
      PriorityQueuesStorageGUID, QmgrStateStorageGUID]

/-- `CreateFile` with `OPEN_ALWAYS`; a file that is not there counts as empty. -/
def createFile (i : Fin 2) : Op Unit := do
  request
  modify fun w => { w with pointers := Function.update w.pointers i 0 }

def openMetadataFile (i : Fin 2) : Op Unit := do
  createFile i
  let size ← bitsGetFileSize i
  if size < METADATA_PADDING then do
    let _ ← bitsSetFilePointer i METADATA_PADDING .fileBegin
    bitsSetEndOfFile i
    writeEmptyMetadataFile i
    let _ ← bitsSetFilePointer i 0 .fileBegin
    pure ()
  else
    pure ()

/-- Forget the sizes remembered for a file. -/
def World.resetSizes (w : World) (i : Fin 2) : World :=
  { w with
    m_ExpandSize := Function.update w.m_ExpandSize i 0
    m_OriginalFileSizes := Function.update w.m_OriginalFileSizes i 0 }

/-- The index that `GetRegDWordValue` returns, if the query succeeds and there is one. -/
def getRegDWordValue (registry : Option ℕ) : Fate → Option ℕ
  | .done => registry
  | _ => none

theorem currentIndex_lt {n : ℕ} (h : n ≤ 1) : n < 2 := Nat.lt_succ_of_le h

def readCurrentIndex (registry : Option ℕ) (query : Fate) : Fin 2 :=
  match getRegDWordValue registry query with
  | some n => if h : n ≤ 1 then ⟨n, currentIndex_lt h⟩ else 0
  | none => 0

/-- `CQmgrStateFiles::CQmgrStateFiles`, with the outcome of its registry query. -/
def construct (query : Fate) : Op Unit := do
  openMetadataFile 0
  modify fun w => w.resetSizes 0
  openMetadataFile 1
  modify fun w => w.resetSizes 1
  if query = .crash then
    throw .crash
  else
    modify fun w => { w with m_CurrentIndex := readCurrentIndex w.registry query }

def getNextStateFile : Op (Fin 2) := do
  let w ← get
  let _ ← bitsSetFilePointer (w.m_CurrentIndex + 1) 0 .fileBegin
  pure (w.m_CurrentIndex + 1)

/-- Shrink the backup file if necessary. -/
def shrinkBackup (old new : Fin 2) : Op Unit := do
  let w ← get
  if w.m_ExpandSize old ≠ 0 then
    catchCom
      (do
        let newSize ← bitsGetFileSize new
        let w ← get
        if newSize > w.m_OriginalFileSizes old then do
          let _ ← bitsSetFilePointer old newSize .fileBegin
          bitsSetEndOfFile old
        else
          pure ()
        modify fun w => w.resetSizes old)
      (pure ())
  else
    pure ()

/-- Truncate the current file only if more than `METADATA_PADDING` remains. -/
def truncateFile (new : Fin 2) : Op Unit := do
  let currentPosition ← bitsSetFilePointer new 0 .fileCurrent
  let currentFileSize ← bitsGetFileSize new
  if currentFileSize - currentPosition > METADATA_PADDING then do
    let _ ← bitsSetFilePointer new METADATA_PADDING .fileCurrent
    bitsSetEndOfFile new
  else
    pure ()

def updateStateFile (image : List UInt8) : Op Unit := do
  let w ← get
  let old := w.m_CurrentIndex
  let new := w.m_CurrentIndex + 1
  truncateFile new
  bitsFlushFileBuffers new
  modify fun w => w.resetSizes new
  setRegDWordValue new image
  modify fun w => { w with m_CurrentIndex := new }
  shrinkBackup old new

/-- Take back the extension of one file, if it was made. -/
def reshrink (amount : ℕ) (originalExpansion : Fin 2 → ℕ) (wasExpanded : Fin 2 → Bool)
    (i : Fin 2) : Op Unit :=
  catchCom
    (if wasExpanded i then do
      let _ ← bitsSetFilePointer i (-amount) .fileEnd
      bitsSetEndOfFile i
      modify fun w => { w with
        m_ExpandSize := Function.update w.m_ExpandSize i (originalExpansion i) }
    else
      pure ())
    (pure ())

/-- One round of the loop that remembers the sizes. -/
def rememberSize (i : Fin 2) : Op Unit := do
  let w ← get
  if w.m_ExpandSize i = 0 then do
    let size ← bitsGetFileSize i
    modify fun w => { w with
      m_OriginalFileSizes := Function.update w.m_OriginalFileSizes i size }
  else
    pure ()

/-- One round of the loop that extends the files; `m_ExpandSize` has 64 bits. -/
def extendFile (amount : ℕ) (i : Fin 2) : Op Unit := do
  let _ ← bitsSetFilePointer i amount .fileEnd
  bitsSetEndOfFile i
  modify fun w => { w with
    m_ExpandSize := Function.update w.m_ExpandSize i ((w.m_ExpandSize i + amount) % 2 ^ 64) }

/-- The old expansions are kept as `SIZE_T`, which has `sizeT` values. -/
def extendMetadata (sizeT amount : ℕ) : Op Unit := do
  let w ← get
  let originalExpansion := fun i => w.m_ExpandSize i % sizeT
  rememberSize 0
  rememberSize 1
  -- the loop over the files, with the flags that the handler finds in each round
  catchCom (extendFile amount 0) do
    reshrink amount originalExpansion (fun _ => false) 0
    reshrink amount originalExpansion (fun _ => false) 1
    throw .comError
  catchCom (extendFile amount 1) do
    reshrink amount originalExpansion (fun i => i = 0) 0
    reshrink amount originalExpansion (fun i => i = 0) 1
    throw .comError

def shrinkFile (i : Fin 2) : Op Unit :=
  catchCom
    (do
      let w ← get
      if w.m_ExpandSize i ≠ 0 then do
        let _ ← bitsSetFilePointer i (w.m_OriginalFileSizes i) .fileBegin
        bitsSetEndOfFile i
        modify fun w => w.resetSizes i
      else
        pure ())
    (pure ())

def shrinkMetadata : Op Unit := do
  shrinkFile 0
  shrinkFile 1

/-- The bytes of a state file from its first one to the closing block, `body` being what the two
job lists write. -/
def image (body : List (List UInt8)) : List UInt8 :=
  QmgrStateStorageGUID ++ PriorityQueuesStorageGUID ++ body.flatten ++
    PriorityQueuesStorageGUID ++ QmgrStateStorageGUID

/-- `CQmgrWriteStateFile::CQmgrWriteStateFile`. -/
def openWriteStateFile : Op (Fin 2) := do
  let i ← getNextStateFile
  safeWriteFile i QmgrStateStorageGUID
  pure i

def commitFile (i : Fin 2) (image : List UInt8) : Op Unit := do
  safeWriteFile i QmgrStateStorageGUID
  updateStateFile image

/-- What `Serialize` writes when the lists write `body`, one write each. An error of a job between
two writes is the failure of the second with nothing written. -/
def writeState (body : List (List UInt8)) : Op Unit := do
  let i ← openWriteStateFile
  safeWriteFile i PriorityQueuesStorageGUID
  safeWriteFiles i body
  safeWriteFile i PriorityQueuesStorageGUID
  commitFile i (image body)

def setServiceStartup (_bAutomaticStart : Bool) : Op Unit := request

/-- `CJobManager::Serialize`. -/
def serialize (bAutomaticStart : Bool) (body : List (List UInt8)) : Op Bool :=
  catchCom
    (do
      if bAutomaticStart then setServiceStartup true else pure ()
      writeState body
      if bAutomaticStart then pure () else catchCom (setServiceStartup false) (pure ())
      pure true)
    (pure false)

/-- One call, with the outcomes of its requests; `start` is the service starting, also after the
machine stopped in the middle of an earlier call. The callers of `ExtendMetadata` pass unsigned
sizes. -/
inductive Event
  | start (fates : List Fate) (query : Fate)
  | extend (fates : List Fate) (amount : ℕ)
  | shrink (fates : List Fate)
  | serialize (fates : List Fate) (bAutomaticStart : Bool) (body : List (List UInt8))
  deriving Repr

/-- The service is gone after a crash, and it does not start when its constructor throws. -/
def runOp {α : Type} (m : Op α) (survives : Bool) (w : World) : World :=
  match m w with
  | (.ok _, w') => { w' with alive := true }
  | (.error .comError, w') => { w' with alive := survives }
  | (.error .crash, w') => { w' with alive := false }

def step (sizeT : ℕ) (e : Event) (w : World) : World :=
  match e with
  | .start fates query => runOp (construct query) false { w with fates := fates }
  | .extend fates amount =>
    if w.alive then runOp (extendMetadata sizeT amount) true { w with fates := fates } else w
  | .shrink fates => if w.alive then runOp shrinkMetadata true { w with fates := fates } else w
  | .serialize fates bAutomaticStart body =>
    if w.alive then
      runOp (serialize bAutomaticStart body) true { w with fates := fates }
    else
      w

/-- A machine on which the service has not committed anything: any files, any registry value. -/
def fresh (files : Fin 2 → List UInt8) (registry : Option ℕ) : World where
  files := files
  registry := registry
  pointers := fun _ => 0
  m_ExpandSize := fun _ => 0
  m_OriginalFileSizes := fun _ => 0
  m_CurrentIndex := 0
  alive := false
  fates := []
  committed := none

/-- The file that the registry selects begins with the image last committed. -/
def Kept (w : World) : Prop := ∀ image ∈ w.committed, image <+: w.files (selected w.registry)

/-- The constructor's query of the index does not fail while the index is 1. -/
def Readable : Event → World → Prop
  | .start _ (.fails _), w => w.registry ≠ some 1
  | _, _ => True

end StateFiles

end NtAdmin.Drizzle.Newjob
