import NtAdmin.Wmi.PageMgr.PageCache

/-! The transacted page file: `CPageFile` of pagemgr.cpp. -/
namespace NtAdmin.Wmi.PageMgr

open NtAdmin.Lib

def wmirepPageSize : ℕ := 8192
def invalidPage : ℕ := 0xFFFFFFFF
def reservedPage : ℕ := 0xFFFFFFFE
def currentTransaction : ℕ := 0x80000000
def previousTransaction : ℕ := 0x40000000
def maxNumPages : ℕ := 0x7FFFF
def mapLeadingSignature : ℕ := 0xABCD
def mapTrailingSignature : ℕ := 0xDCBA

/-- `MERE_PAGE_ID`: the lower 30 bits of a map entry are the physical page id. -/
def merePageId (x : ℕ) : ℕ := x &&& 0x3FFFFFFF

/-- Generation A is the last commit, generation B the current transaction. -/
structure CPageFile (ps : ℕ) where
  cache : CPageCache ps
  inTransaction : Bool
  transVersion : ℕ
  pageMapA : Vec ℕ
  physFreeListA : Vec ℕ
  logicalFreeListA : Vec ℕ
  replacedPagesA : Vec ℕ
  physPagesA : ℕ
  pageMapB : Vec ℕ
  physFreeListB : Vec ℕ
  logicalFreeListB : Vec ℕ
  replacedPagesB : Vec ℕ
  physPagesB : ℕ
  deferredFreeList : Vec ℕ

def stripHiBits (l : List ℕ) : List ℕ :=
  l.map fun val => if val ≠ invalidPage then merePageId val else val

def moveCurrentToPrevious (l : List ℕ) : List ℕ :=
  l.map fun val =>
    if val ≠ invalidPage ∧ val &&& currentTransaction ≠ 0 then
      merePageId val ||| previousTransaction
    else val

section shellSort

/-- The first interval: 1, 4, 13, ... until it reaches `size / 9`. -/
def shellInterval (bound : ℕ) : ℕ → ℕ → ℕ
  | 0, interval => interval
  | fuel + 1, interval =>
    if interval < bound then shellInterval bound fuel (interval * 3 + 1) else interval

def swapAt (l : List ℕ) (i j : ℕ) : List ℕ := (l.set i (l.getD j 0)).set j (l.getD i 0)

/-- Move the element at `iBackscan` down by steps of `interval`. -/
def backscan (interval : ℕ) : ℕ → ℕ → List ℕ → List ℕ
  | 0, _, l => l
  | fuel + 1, i, l =>
    if interval ≤ i ∧ l.getD i 0 < l.getD (i - interval) 0 then
      backscan interval fuel (i - interval) (swapAt l i (i - interval))
    else l

def shellPass (interval : ℕ) (l : List ℕ) : List ℕ :=
  (List.range' interval (l.length - interval)).foldl (fun l i => backscan interval i i l) l

def shellLoop : ℕ → ℕ → List ℕ → List ℕ
  | 0, _, l => l
  | fuel + 1, interval, l =>
    if interval = 0 then l else shellLoop fuel (interval / 3) (shellPass interval l)

def shellSort (l : List ℕ) : List ℕ :=
  let interval := shellInterval (l.length / 9) (l.length / 9) 1
  shellLoop interval interval l

end shellSort

/-- The search of `ReclaimLogicalPages`: `contiguous` ids in succession end at `ix`, the first of
them at `start`. -/
def findRun (v : List ℕ) (count : ℕ) : ℕ → ℕ → ℕ → ℕ → Option ℕ
  | 0, _, _, _ => none
  | n + 1, ix, contiguous, start =>
    let next := (v.getD ix 0 + 1) % 2 ^ 32 = v.getD (ix + 1) 0
    let contiguous' := if next then contiguous + 1 else 1
    let start' := if next then start else ix + 1
    if contiguous' = count then some start' else findRun v count n (ix + 1) contiguous' start'

/-- Change `count` entries of the map to 'reserved'. -/
def markReserved (m : List ℕ) (id count : ℕ) : List ℕ :=
  (List.range count).foldl (fun m k => m.set (id + k) reservedPage) m

theorem markReserved_succ (m : List ℕ) (id count : ℕ) :
    markReserved m id (count + 1) = (markReserved m id count).set (id + count) reservedPage := by
  simp [markReserved, List.range_succ]

/-- The smallest id of the free list and its position, as the scan of `AllocPhysPage` finds it. -/
def lowestFree (l : List ℕ) : ℕ × ℕ :=
  l.zipIdx.foldl (fun cur e => if e.1 < cur.1 then e else cur) (0xFFFFFFFF, 0xFFFFFFFF)

def dwordBytes (x : ℕ) : List UInt8 :=
  [.ofNat x, .ofNat (x / 2 ^ 8), .ofNat (x / 2 ^ 16), .ofNat (x / 2 ^ 24)]

namespace CPageFile
variable {ps : ℕ}

def cacheL : Lens (CPageFile ps) (CPageCache ps) :=
  ⟨cache, fun v s => { s with cache := v }, fun _ _ => rfl, fun _ => rfl, fun _ _ _ => rfl⟩
def pageMapAL : Lens (CPageFile ps) (Vec ℕ) :=
  ⟨pageMapA, fun v s => { s with pageMapA := v }, fun _ _ => rfl, fun _ => rfl, fun _ _ _ => rfl⟩
def physFreeListAL : Lens (CPageFile ps) (Vec ℕ) :=
  ⟨physFreeListA, fun v s => { s with physFreeListA := v }, fun _ _ => rfl, fun _ => rfl,
    fun _ _ _ => rfl⟩
def logicalFreeListAL : Lens (CPageFile ps) (Vec ℕ) :=
  ⟨logicalFreeListA, fun v s => { s with logicalFreeListA := v }, fun _ _ => rfl, fun _ => rfl,
    fun _ _ _ => rfl⟩
def replacedPagesAL : Lens (CPageFile ps) (Vec ℕ) :=
  ⟨replacedPagesA, fun v s => { s with replacedPagesA := v }, fun _ _ => rfl, fun _ => rfl,
    fun _ _ _ => rfl⟩
def pageMapBL : Lens (CPageFile ps) (Vec ℕ) :=
  ⟨pageMapB, fun v s => { s with pageMapB := v }, fun _ _ => rfl, fun _ => rfl, fun _ _ _ => rfl⟩
def physFreeListBL : Lens (CPageFile ps) (Vec ℕ) :=
  ⟨physFreeListB, fun v s => { s with physFreeListB := v }, fun _ _ => rfl, fun _ => rfl,
    fun _ _ _ => rfl⟩
def logicalFreeListBL : Lens (CPageFile ps) (Vec ℕ) :=
  ⟨logicalFreeListB, fun v s => { s with logicalFreeListB := v }, fun _ _ => rfl, fun _ => rfl,
    fun _ _ _ => rfl⟩
def replacedPagesBL : Lens (CPageFile ps) (Vec ℕ) :=
  ⟨replacedPagesB, fun v s => { s with replacedPagesB := v }, fun _ _ => rfl, fun _ => rfl,
    fun _ _ _ => rfl⟩
def deferredFreeListL : Lens (CPageFile ps) (Vec ℕ) :=
  ⟨deferredFreeList, fun v s => { s with deferredFreeList := v }, fun _ _ => rfl, fun _ => rfl,
    fun _ _ _ => rfl⟩

/-- `CPageFile::CPageFile` and `Init`. The spill ratio is handed to the cache as the threshold for
promotion, so that the cache's own spill ratio keeps its default. -/
def init (hFile : FileName) (cacheSize cacheSpillRatio : ℕ) : CPageFile ps :=
  { cache := .init hFile cacheSize cacheSpillRatio 4
    inTransaction := false
    transVersion := 0
    pageMapA := .empty, physFreeListA := .empty, logicalFreeListA := .empty
    replacedPagesA := .empty, physPagesA := 0
    pageMapB := .empty, physFreeListB := .empty, logicalFreeListB := .empty
    replacedPagesB := .empty, physPagesB := 0
    deferredFreeList := .empty }

def onCache {α : Type} (m : Op (CPageCache ps) α) : Op (CPageFile ps) α :=
  Prog.zoom (World.part cacheL) m

def resyncMaps : Op (CPageFile ps) Unit := do
  let s ← getObj
  reserve pageMapBL (max s.pageMapB.size s.pageMapA.size)
  reserve physFreeListBL (max s.physFreeListB.size s.physFreeListA.size)
  reserve logicalFreeListBL (max s.logicalFreeListB.size s.logicalFreeListA.size)
  reserve replacedPagesBL (max s.replacedPagesB.size s.replacedPagesA.size)
  assign pageMapBL s.pageMapA.data
  assign physFreeListBL s.physFreeListA.data
  assign logicalFreeListBL s.logicalFreeListA.data
  assign replacedPagesBL s.replacedPagesA.data
  modifyObj fun s => { s with
    physPagesB := s.physPagesA
    deferredFreeList := s.deferredFreeList.withData [] }

/-- Move the last element of one list to the end of another, `n` times. -/
def moveBack (src dst : Lens (CPageFile ps) (Vec ℕ)) : ℕ → Op (CPageFile ps) Unit
  | 0 => pure ()
  | n + 1 => do
    match (src.get (← getObj)).data.getLast? with
    | some x =>
      pushBack dst x
      modifyObj fun s => src.set ((src.get s).withData (src.get s).data.dropLast) s
    | none => pure ()
    moveBack src dst n

/-- The memory that `Trans_Commit` allocates before it changes anything. -/
def transCommitReserve : Op (CPageFile ps) Unit := do
  let s ← getObj
  reserve pageMapAL s.pageMapB.size
  reserve logicalFreeListAL s.logicalFreeListB.size
  reserve replacedPagesAL s.replacedPagesB.size
  reserve physFreeListAL (s.physFreeListB.size + s.deferredFreeList.size)
  reserve physFreeListBL (s.physFreeListB.size + s.deferredFreeList.size)

def transCommit : Op (CPageFile ps) Unit := do
  let s ← getObj
  if !s.inTransaction then throw .invalidOperation
  transCommitReserve
  modifyObj fun s => { s with
    pageMapB := s.pageMapB.withData (moveCurrentToPrevious s.pageMapB.data) }
  moveBack deferredFreeListL physFreeListBL s.deferredFreeList.size
  let s ← getObj
  assign pageMapAL s.pageMapB.data
  assign physFreeListAL s.physFreeListB.data
  assign logicalFreeListAL s.logicalFreeListB.data
  assign replacedPagesAL s.replacedPagesB.data
  modifyObj fun s => { s with physPagesA := s.physPagesB, inTransaction := false }

def transRollback : Op (CPageFile ps) Unit := do
  if !(← getObj).inTransaction then throw .invalidOperation
  modifyObj fun s => { s with inTransaction := false }
  resyncMaps

/-- The map file: generation A between two signatures. -/
def mapDwords (s : CPageFile ps) : List ℕ :=
  [mapLeadingSignature, s.transVersion, s.physPagesA, s.pageMapA.size] ++ s.pageMapA.data ++
    [s.physFreeListA.size] ++ s.physFreeListA.data ++ [mapTrailingSignature]

def mapBytes (s : CPageFile ps) : List UInt8 := (mapDwords s).flatMap dwordBytes

/-- Write the map where the file pointer of `hFile` stands, and return where it stands then. -/
def writeMap (hFile : FileName) (pos : ℕ) : Op (CPageFile ps) ℕ := do
  newMemory
  let bytes := mapBytes (← getObj)
  fileWrite hFile pos bytes
  return pos + bytes.length

def transCheckpoint (hFile : FileName) (pos : ℕ) : Op (CPageFile ps) ℕ := do
  if (← getObj).inTransaction then throw .invalidOperation
  onCache CPageCache.flush
  let s ← getObj
  reserve physFreeListAL (s.physFreeListA.size + s.replacedPagesA.size)
  modifyObj fun s => { s with pageMapA := s.pageMapA.withData (stripHiBits s.pageMapA.data) }
  let revertCount := s.replacedPagesA.size
  moveBack replacedPagesAL physFreeListAL revertCount
  tryCatch resyncMaps fun e => do
    moveBack physFreeListAL replacedPagesAL revertCount
    throw e
  writeMap hFile pos

def transBegin : Op (CPageFile ps) Unit := do
  if (← getObj).inTransaction then throw .invalidOperation
  resyncMaps
  modifyObj fun s => { s with inTransaction := true }

/-- Reserve space for all structures that `FreePage` adds to. -/
def freePageReserve (physId : ℕ) : Op (CPageFile ps) Unit := do
  let s ← getObj
  reserve logicalFreeListBL (s.logicalFreeListB.size + 1)
  reserve logicalFreeListAL (max s.logicalFreeListA.size (s.logicalFreeListB.size + 1))
  if physId &&& currentTransaction ≠ 0 then
    reserve physFreeListBL (s.physFreeListB.size + 1 + s.deferredFreeList.size)
    reserve physFreeListAL
      (max s.physFreeListA.size (s.physFreeListB.size + 1 + s.deferredFreeList.size))
  else if physId &&& previousTransaction ≠ 0 then
    reserve deferredFreeListL (s.deferredFreeList.size + 1)
  else
    reserve replacedPagesBL (s.replacedPagesB.size + 1)
    reserve replacedPagesAL (max s.replacedPagesA.size (s.replacedPagesB.size + 1))

/-- The end of `FreePage`: the ancestry of the physical page decides which list it is added to. -/
def releasePhysPage (physId : ℕ) : Op (CPageFile ps) Unit :=
  if physId = reservedPage then pure ()
  else if physId &&& currentTransaction ≠ 0 then pushBack physFreeListBL (merePageId physId)
  else if physId &&& previousTransaction ≠ 0 then pushBack deferredFreeListL (merePageId physId)
  else pushBack replacedPagesBL (merePageId physId)

def freePage (id : ℕ) : Op (CPageFile ps) Unit := do
  let s ← getObj
  if !s.inTransaction then throw .invalidOperation
  match s.pageMapB.data[id]? with
  | none => throw .invalidParameter
  | some physId =>
    if physId = invalidPage then throw .invalidOperation
    freePageReserve physId
    modifyObj fun s => { s with pageMapB := s.pageMapB.withData (s.pageMapB.data.set id invalidPage) }
    pushBack logicalFreeListBL (merePageId id)
    releasePhysPage physId

def getPage (id : ℕ) : Op (CPageFile ps) (Page ps) := do
  match (← getObj).pageMapB.data[id]? with
  | none => throw .fileNotFound
  | some physId =>
    if physId = invalidPage ∨ physId = reservedPage then throw .invalidOperation
    onCache (CPageCache.read (merePageId physId))

def allocPhysPage : Op (CPageFile ps) ℕ := do
  let s ← getObj
  if s.physFreeListB.size = 0 then
    if s.physPagesB = maxNumPages then throw .diskFull
    modifyObj fun s => { s with physPagesB := s.physPagesB + 1 }
    return s.physPagesB
  let (id, ix) := lowestFree s.physFreeListB.data
  assign physFreeListBL (s.physFreeListB.data.eraseIdx ix)
  return id

/-- Reserve space for the old physical page of an entry that `PutPage` replaces. -/
def putPageReserve (physId : ℕ) : Op (CPageFile ps) Unit := do
  let s ← getObj
  if physId = reservedPage then pure ()
  else if physId &&& previousTransaction ≠ 0 then
    reserve deferredFreeListL (s.deferredFreeList.size + 1)
  else
    reserve replacedPagesBL (s.replacedPagesB.size + 1)
    reserve replacedPagesAL (max s.replacedPagesA.size (s.replacedPagesB.size + 1))

/-- Map a logical page to a new physical page of the current transaction. -/
def remapPage (id : ℕ) : Op (CPageFile ps) ℕ := do
  let newPhysId ← allocPhysPage
  modifyObj fun s => { s with
    pageMapB := s.pageMapB.withData (s.pageMapB.data.set id (newPhysId ||| currentTransaction)) }
  return newPhysId

/-- The physical page that `PutPage` writes, and the map entry that a new physical page replaces. -/
def putPageTarget (id : ℕ) : Op (CPageFile ps) (ℕ × Option ℕ) := do
  let s ← getObj
  if !s.inTransaction then throw .invalidOperation
  newMemory
  match s.pageMapB.data[id]? with
  | none => throw .invalidParameter
  | some physId =>
    if physId = invalidPage then throw .genFailure
    if physId &&& currentTransaction ≠ 0 ∧ physId ≠ reservedPage then
      return (merePageId physId, none)
    putPageReserve physId
    let newPhysId ← remapPage id
    return (merePageId newPhysId, some physId)

/-- The end of `PutPage`: the old physical page of the entry is given up. -/
def putPageRelease : Option ℕ → Op (CPageFile ps) Unit
  | none => pure ()
  | some physId =>
    if physId = reservedPage then pure ()
    else if physId &&& previousTransaction ≠ 0 then pushBack deferredFreeListL (merePageId physId)
    else pushBack replacedPagesBL (merePageId physId)

def putPage (id : ℕ) (page : Page ps) : Op (CPageFile ps) Unit := do
  let target ← putPageTarget id
  onCache (CPageCache.write target.1 page)
  putPageRelease target.2

def reclaimLogicalPages (count : ℕ) : Op (CPageFile ps) ℕ := do
  let s ← getObj
  if s.logicalFreeListB.size < count then throw .notFound
  if count = 1 then
    match s.logicalFreeListB.data.getLast? with
    | none => throw .notFound
    | some id =>
      modifyObj fun s => { s with
        logicalFreeListB := s.logicalFreeListB.withData s.logicalFreeListB.data.dropLast
        pageMapB := s.pageMapB.withData (s.pageMapB.data.set id reservedPage) }
      return id
  else
    let v := shellSort s.logicalFreeListB.data
    modifyObj fun s => { s with logicalFreeListB := s.logicalFreeListB.withData v }
    match findRun v count (v.length - 1) 0 1 0 with
    | none => throw .notFound
    | some start =>
      let id := v.getD start 0
      modifyObj fun s => { s with
        logicalFreeListB := s.logicalFreeListB.withData (v.take start ++ v.drop (start + count))
        pageMapB := s.pageMapB.withData (markReserved s.pageMapB.data id count) }
      return id

/-- Append `n` reserved pages to the map. -/
def appendReserved : ℕ → Op (CPageFile ps) Unit
  | 0 => pure ()
  | n + 1 => do
    pushBack pageMapBL reservedPage
    appendReserved n

/-- The rest of `NewPage`, where the free list has no run that is long enough. -/
def extendMap (requestedCount : ℕ) : Op (CPageFile ps) ℕ := do
  let s ← getObj
  reserve pageMapBL (s.pageMapB.size + requestedCount)
  reserve pageMapAL (max s.pageMapA.size (s.pageMapB.size + requestedCount))
  appendReserved requestedCount
  return s.pageMapB.size % 2 ^ 32

def newPage (requestedCount : ℕ) : Op (CPageFile ps) ℕ := do
  if !(← getObj).inTransaction then throw .invalidOperation
  tryCatch (reclaimLogicalPages requestedCount) fun e => do
    if e ≠ .notFound then throw e
    extendMap requestedCount

end CPageFile

end NtAdmin.Wmi.PageMgr
