import Mathlib.Algebra.GroupWithZero.Nat
import NtAdmin.Wmi.PageMgr.Os

/-! The page cache in front of a data file: `CPageCache` of pagemgr.cpp. -/
namespace NtAdmin.Wmi.PageMgr

open NtAdmin.Lib

/-- The bytes of one page. -/
abbrev Page (ps : ℕ) := { bs : List UInt8 // bs.length = ps }

structure SCachePage (ps : ℕ) where
  dirty : Bool
  physId : ℕ
  page : Page ps
  deriving DecidableEq

/-- `ps` is `m_dwPageSize`, which `Init` fixes. The times and the hit counters are only dumped. -/
structure CPageCache (ps : ℕ) where
  hFile : FileName
  cacheSize : ℕ
  cachePromoteThreshold : ℕ
  cacheSpillRatio : ℕ
  writesSinceFlush : ℕ
  cache : Vec (SCachePage ps)

/-- `m_dwPageSize * dwPageId` is multiplied as DWORDs before it becomes a file position. -/
def pageOffset (ps id : ℕ) : ℕ := ps * id % 2 ^ 32

def toPage? (ps : ℕ) (bs : List UInt8) : Option (Page ps) :=
  if h : bs.length = ps then some ⟨bs, h⟩ else none

/-- The page `id` of a data file, when the file reaches that far. -/
def pageAt (ps : ℕ) (f : List UInt8) (id : ℕ) : Option (Page ps) :=
  (readAt f (pageOffset ps id) ps).bind (toPage? ps)

namespace CPageCache
variable {ps : ℕ}

def cacheVec : Lens (CPageCache ps) (Vec (SCachePage ps)) where
  get c := c.cache
  set v c := { c with cache := v }
  get_set _ _ := rfl
  set_get _ := rfl
  set_set _ _ _ := rfl

/-- `CPageCache::CPageCache` and `Init`, with the file open. -/
def init (hFile : FileName) (cacheSize cachePromoteThreshold cacheSpillRatio : ℕ) :
    CPageCache ps :=
  { hFile, cacheSize, cachePromoteThreshold, cacheSpillRatio
    writesSinceFlush := 0
    cache := .empty }

/-- The search of `Read` and `Write`: the cached page and its position. -/
def find (c : CPageCache ps) (physId : ℕ) : Option (SCachePage ps) :=
  c.cache.data.find? (fun t => t.physId == physId)

def indexOf (c : CPageCache ps) (physId : ℕ) : ℕ :=
  c.cache.data.findIdx (fun t => t.physId == physId)

def readPhysPage (pageId : ℕ) : Op (CPageCache ps) (Page ps) := do
  newMemory
  fileCall -- SetFilePointerEx
  match (← fileRead (← getObj).hFile (pageOffset ps pageId) ps).bind (toPage? ps) with
  | some page => return page
  | none => throw .invalidParameter

def writePhysPage (pageId : ℕ) (page : Page ps) : Op (CPageCache ps) Unit := do
  fileWrite (← getObj).hFile (pageOffset ps pageId) page.1

/-- Write the cached page at `ix` if it is dirty and clear its dirty bit. -/
def writeIfDirty (ix : ℕ) : Op (CPageCache ps) Bool := do
  match (← getObj).cache.data[ix]? with
  | some t =>
    if t.dirty then
      writePhysPage t.physId t.page
      modifyObj fun c =>
        { c with cache := c.cache.withData (c.cache.data.set ix { t with dirty := false }) }
      return true
    else return false
  | none => return false

/-- The loop of `Spill` from the end of the cache: `n` pages are not visited yet, and `k` more
may be written. -/
def spillMore : ℕ → ℕ → Op (CPageCache ps) Unit
  | 0, _ => pure ()
  | _ + 1, 0 => pure ()
  | n + 1, k + 1 => do
    if ← writeIfDirty n then spillMore n k else spillMore n (k + 1)

def spill : Op (CPageCache ps) Unit := do
  let c ← getObj
  if c.cache.size ≤ c.cacheSize then return
  match c.cache.data.getLast? with
  | none => pure ()
  | some doomed =>
    if doomed.dirty then writePhysPage doomed.physId doomed.page
    assign cacheVec c.cache.data.dropLast
    if doomed.dirty then spillMore (c.cache.size - 1) c.cacheSpillRatio

/-- Move the page at `ix` to the front if it is outside of the threshold. -/
def promote (ix : ℕ) : Op (CPageCache ps) Unit := do
  let c ← getObj
  if c.cachePromoteThreshold < ix then
    match c.cache.data[ix]? with
    | some t =>
      assign cacheVec (c.cache.data.eraseIdx ix)
      assign cacheVec (t :: c.cache.data.eraseIdx ix)
    | none => pure ()

/-- A new page goes to the front, and is taken out again if the spill fails. -/
def insertFront (t : SCachePage ps) : Op (CPageCache ps) Unit := do
  assign cacheVec (t :: (← getObj).cache.data)
  tryCatch spill fun e => do
    assign cacheVec (← getObj).cache.data.tail
    throw e

def write (physId : ℕ) (page : Page ps) : Op (CPageCache ps) Unit := do
  modifyObj fun c => { c with writesSinceFlush := (c.writesSinceFlush + 1) % 2 ^ 32 }
  let c ← getObj
  match c.find physId with
  | some _ =>
    let ix := c.indexOf physId
    modifyObj fun c => { c with
      cache := c.cache.withData
        (c.cache.data.modify ix fun t => { t with page := page, dirty := true }) }
    promote ix
  | none =>
    newMemory
    insertFront { dirty := true, physId := physId, page := page }

def read (physId : ℕ) : Op (CPageCache ps) (Page ps) := do
  let c ← getObj
  match c.find physId with
  | some t =>
    promote (c.indexOf physId)
    return t.page
  | none =>
    newMemory
    let page ← readPhysPage physId
    insertFront { dirty := false, physId := physId, page := page }
    return page

def empty : Op (CPageCache ps) Unit :=
  modifyObj fun c => { c with cache := c.cache.withData [] }

/-- The loop of `Flush`: `n` pages from `ix` on are not visited yet. -/
def flushFrom : ℕ → ℕ → Op (CPageCache ps) Unit
  | _, 0 => pure ()
  | ix, n + 1 => do
    let _ ← writeIfDirty ix
    flushFrom (ix + 1) n

def flush : Op (CPageCache ps) Unit := do
  let c ← getObj
  if c.writesSinceFlush = 0 then return
  flushFrom 0 c.cache.size
  fileCall -- FlushFileBuffers
  modifyObj fun c => { c with writesSinceFlush := 0 }

/-- Discards the cache after a successful flush. -/
def emptyCache : Op (CPageCache ps) Unit := do
  flush
  empty

end CPageCache

end NtAdmin.Wmi.PageMgr
