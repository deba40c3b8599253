import Mathlib.Algebra.GroupWithZero.Nat
import Mathlib.Data.Int.Notation
import Mathlib.Data.Nat.Notation
import Mathlib.Logic.Function.Basic
import NtAdmin.Lib.Prog

/-! The class cache of hiecache.cpp: its records are in a tree, in a map and in a chain of use. -/
namespace NtAdmin.Wmi.A51
open Lib

inductive EKeyNess
  | unknown
  | keyed
  | notKeyed
  deriving DecidableEq

/-- The codes that the cache returns; `code` is one that it passes on. -/
inductive CacheResult
  | noError
  | sFalse
  | outOfMemory
  | invalidClass
  | criticalError
  | code (hres : ℕ)
  deriving DecidableEq

/-- A record. Its key is the namespace it belongs to with the hash of its name. -/
structure CClassRecord (Hash Obj : Type) where
  lRef : ℕ
  moreRecentlyUsed : Option ℕ
  lessRecentlyUsed : Option ℕ
  className : String
  key : ℕ × Hash
  classDef : Option Obj
  classDefSize : ℕ
  parent : Option ℕ
  isKeyed : EKeyNess
  children : List ℕ
  treeComplete : Bool
  childrenComplete : Bool
  lastChildInvalidationIndex : ℤ
  lastUsed : ℕ
  classDefCachedTime : ℕ
  read : Bool
  systemClass : Bool

/-- The forest, with the maps of all its namespaces as one. `heap` holds the records by their
addresses, and no address is used twice. `ticks` and `allocs` are what `GetTickCount` and the coming
allocations return, an allocation beyond them succeeds. -/
structure CForestCache (Hash Obj : Type) where
  heap : ℕ → Option (CClassRecord Hash Obj)
  fresh : ℕ
  mostRecentlyUsed : Option ℕ
  leastRecentlyUsed : Option ℕ
  maxMemory : ℕ
  maxAgeMs : ℕ
  totalMemory : ℕ
  init : Bool
  map : List ((ℕ × Hash) × ℕ)
  nextInvalidationIndex : ℕ → ℤ
  currentTime : ℕ
  ticks : List ℕ
  allocs : List Bool

/-- What a class object answers to the calls of `AssertClass`. -/
structure WmiObject (Obj : Type) where
  self : Obj
  /-- `__CLASS`, where it is a string. -/
  className : Option String
  /-- `__SUPERCLASS`, which need not be a string. -/
  superclass : Except ℕ (Option String)
  keyed : Except ℕ Bool
  /-- The size that `GetObjectMemory` asks for; it may also fail, or succeed without a buffer. -/
  memory : Except (Option ℕ) ℕ
  /-- `Clone` and `QueryInterface`. -/
  clone : Except ℕ (Option Obj)

/-- An access of a record that is freed, or a loop or recursion that does not end. -/
inductive CacheFault
  | freed
  | endless
  deriving DecidableEq

abbrev CacheM (Hash Obj : Type) := Prog (CForestCache Hash Obj) CacheFault

namespace CForestCache
variable {Hash Obj : Type}

def record (p : ℕ) : CacheM Hash Obj (CClassRecord Hash Obj) := do
  match (← get).heap p with
  | some r => pure r
  | none => throw .freed

def update (p : ℕ) (f : CClassRecord Hash Obj → CClassRecord Hash Obj) : CacheM Hash Obj PUnit := do
  let r ← record p
  modify fun s => { s with heap := Function.update s.heap p (some (f r)) }

def updateIf (o : Option ℕ) (f : CClassRecord Hash Obj → CClassRecord Hash Obj) :
    CacheM Hash Obj PUnit :=
  match o with
  | none => pure ⟨⟩
  | some p => update p f

def getTickCount : CacheM Hash Obj ℕ := do
  match (← get).ticks with
  | [] => pure 0
  | t :: ts => do
    modify fun s => { s with ticks := ts }
    pure (t % 2 ^ 32)

/-- Whether an allocation succeeds. -/
def allocate : CacheM Hash Obj Bool := do
  match (← get).allocs with
  | [] => pure true
  | b :: bs => do
    modify fun s => { s with allocs := bs }
    pure b

/-! ### The chain of use: `CForestCache` -/

def untie (p : ℕ) : CacheM Hash Obj PUnit := do
  let r ← record p
  updateIf r.lessRecentlyUsed fun n => { n with moreRecentlyUsed := r.moreRecentlyUsed }
  updateIf r.moreRecentlyUsed fun n => { n with lessRecentlyUsed := r.lessRecentlyUsed }
  let n ← record p
  modify fun s => { s with
    leastRecentlyUsed :=
      if s.leastRecentlyUsed = some p then n.moreRecentlyUsed else s.leastRecentlyUsed
    mostRecentlyUsed :=
      if s.mostRecentlyUsed = some p then n.lessRecentlyUsed else s.mostRecentlyUsed }
  update p fun n => { n with moreRecentlyUsed := none, lessRecentlyUsed := none }

def makeMostRecentlyUsed (p : ℕ) : CacheM Hash Obj PUnit := do
  untie p
  let s ← get
  update p fun n => { n with
    moreRecentlyUsed := none, lessRecentlyUsed := s.mostRecentlyUsed }
  updateIf s.mostRecentlyUsed fun n => { n with moreRecentlyUsed := some p }
  modify fun s => { s with
    mostRecentlyUsed := some p
    leastRecentlyUsed := if s.leastRecentlyUsed = none then some p else s.leastRecentlyUsed }
  let now ← getTickCount
  update p fun n => { n with lastUsed := now }

def add (p : ℕ) : CacheM Hash Obj PUnit := do
  if (← get).init then
    makeMostRecentlyUsed p
    let r ← record p
    modify fun s => { s with totalMemory := (s.totalMemory + r.classDefSize) % 2 ^ 32 }

def removeRecord (p : ℕ) : CacheM Hash Obj PUnit := do
  if (← get).init then
    let r ← record p
    if r.classDef.isSome then
      untie p
      modify fun s => { s with
        totalMemory := (s.totalMemory + 2 ^ 32 - r.classDefSize) % 2 ^ 32 }
      update p fun n => { n with classDef := none }

/-- Remove the least recently used record while there is one and `stale` holds. -/
def evictWhile (stale : CForestCache Hash Obj → CClassRecord Hash Obj → Bool) :
    ℕ → CacheM Hash Obj PUnit
  | 0 => throw .endless
  | fuel + 1 => do
    match (← get).leastRecentlyUsed with
    | none => pure ⟨⟩
    | some p => do
      let r ← record p
      if stale (← get) r then
        removeRecord p
        evictWhile stale fuel

/-- The condition of `MakeRoom`: too much memory is in use, or the record is too old. -/
def tooFull (dwSize dwNow : ℕ) (s : CForestCache Hash Obj) (r : CClassRecord Hash Obj) : Bool :=
  s.maxMemory < (s.totalMemory + dwSize) % 2 ^ 32 ∨
    s.maxAgeMs < (dwNow + 2 ^ 32 - r.lastUsed) % 2 ^ 32

def makeRoom (dwSize : ℕ) : CacheM Hash Obj Bool := do
  let s ← get
  if !s.init then return false
  if s.maxMemory < dwSize then return false
  let now ← getTickCount
  evictWhile (tooFull dwSize now) (s.fresh + 1)
  return true

def flush : CacheM Hash Obj Bool := do
  let s ← get
  if !s.init then return false
  evictWhile (fun _ _ => true) (s.fresh + 1)
  return true

def setMaxMemory (dwMaxMemory dwMaxAgeMs : ℕ) : CacheM Hash Obj Bool := do
  modify fun s => { s with maxMemory := dwMaxMemory, maxAgeMs := dwMaxAgeMs }
  makeRoom 0

/-! ### The maps and the tree: `CHierarchyCache` -/

section keys
variable [DecidableEq Hash]

def find (s : CForestCache Hash Obj) (key : ℕ × Hash) : Option ℕ :=
  (s.map.find? fun e => e.1 = key).map Prod.snd

def erase (key : ℕ × Hash) : CacheM Hash Obj PUnit :=
  modify fun s => { s with map := s.map.filter fun e => e.1 ≠ key }

/-- `CClassRecord::Release`. -/
def release (p : ℕ) : CacheM Hash Obj PUnit := do
  let r ← record p
  if r.lRef = 1 then
    modify fun s => { s with heap := Function.update s.heap p none }
  else
    update p fun n => { n with lRef := n.lRef - 1 }

/-- The key of a class name, whose hash takes two buffers. -/
def makeKey (A51Hash : String → Hash) (ns : ℕ) (wszClassName : String) :
    CacheM Hash Obj (Option (ℕ × Hash)) := do
  if !(← allocate) then return none
  if !(← allocate) then return none
  return some (ns, A51Hash wszClassName)

def findClass (A51Hash : String → Hash) (ns : ℕ) (wszClassName : String) :
    CacheM Hash Obj (Option ℕ) := do
  match ← makeKey A51Hash ns wszClassName with
  | none => pure none
  | some key => return (← get).find key

/-- A record that was just constructed and entered in the map. -/
def newRecord (wszClassName : String) (key : ℕ × Hash) (now : ℕ) : CClassRecord Hash Obj where
  lRef := 1
  moreRecentlyUsed := none
  lessRecentlyUsed := none
  className := wszClassName
  key := key
  classDef := none
  classDefSize := 0
  parent := none
  isKeyed := .unknown
  children := []
  treeComplete := false
  childrenComplete := false
  lastChildInvalidationIndex := -1
  lastUsed := now
  classDefCachedTime := 0
  read := false
  systemClass := false

/-- The record of a class, which is created if there is none. Where the map has no memory for it,
nothing refers to the new record. -/
def ensureClass (A51Hash : String → Hash) (ns : ℕ) (wszClassName : String) :
    CacheM Hash Obj (Option ℕ) := do
  match ← makeKey A51Hash ns wszClassName with
  | none => pure none
  | some key => do
    match (← get).find key with
    | some p => pure (some p)
    | none => do
      if !(← allocate) then return none
      let now ← getTickCount
      if !(← allocate) then return none
      let p := (← get).fresh
      modify fun s => { s with
        heap := Function.update s.heap p (some (newRecord wszClassName key now))
        fresh := p + 1
        map := (key, p) :: s.map }
      return some p

def ensureChild (p pChild : ℕ) : CacheM Hash Obj CacheResult := do
  let r ← record p
  if pChild ∈ r.children then return .sFalse
  if !(← allocate) then return .outOfMemory
  update p fun n => { n with children := n.children ++ [pChild] }
  return .noError

def removeChild (p pChild : ℕ) : CacheM Hash Obj PUnit :=
  update p fun n => { n with children := n.children.erase pChild }

/-- The first part of `AssertClass`: the record of the class. -/
def assertRecord (A51Hash : String → Hash) (ns : ℕ) (pClass : WmiObject Obj)
    (wszClassName : Option String) : CacheM Hash Obj (Except CacheResult ℕ) := do
  match wszClassName.or pClass.className with
  | none => return .error .invalidClass
  | some name => do
    match ← ensureClass A51Hash ns name with
    | none => return .error .outOfMemory
    | some p => return .ok p

/-- The record becomes a child of its parent's record. -/
def assertParent (p : ℕ) (parent : Option ℕ) : CacheM Hash Obj PUnit := do
  update p fun r => { r with parent := parent }
  match parent with
  | none => pure ⟨⟩
  | some q => do
    let _ ← ensureChild q p
    pure ⟨⟩

/-- A definition is stored in the record, which is then the most recently used. -/
def storeDefinition (p : ℕ) (classDef : Option Obj) (dwSize nTime : ℕ) (bSystemClass : Bool) :
    CacheM Hash Obj PUnit := do
  let s ← get
  update p fun r => { r with
    classDef := classDef.or r.classDef
    read := nTime ≠ 0
    classDefCachedTime := if nTime ≠ 0 then nTime else s.currentTime
    classDefSize := dwSize
    systemClass := bSystemClass }
  modify fun s => { s with
    currentTime := if nTime ≠ 0 then s.currentTime else s.currentTime + 1 }
  add p

/-- The rest of `AssertClass`: the old definition makes room for the new one. -/
def assertDefinition (p : ℕ) (pClass : WmiObject Obj) (bClone : Bool) (nTime : ℕ)
    (bSystemClass : Bool) : CacheM Hash Obj CacheResult := do
  match pClass.keyed with
  | .error hres => return .code hres
  | .ok keyed => do
    update p fun r => { r with isKeyed := if keyed then .keyed else .notKeyed }
    removeRecord p
    match pClass.memory with
    | .error none => return .criticalError
    | .error (some hres) => return .code hres
    | .ok dwSize => do
      if ← makeRoom dwSize then
        match if bClone then pClass.clone else .ok (some pClass.self) with
        | .error hres => return .code hres
        | .ok classDef => do
          storeDefinition p classDef dwSize nTime bSystemClass
          return .noError
      else return .noError

def assertClass (A51Hash : String → Hash) (ns : ℕ) (pClass : WmiObject Obj)
    (wszClassName : Option String) (bClone : Bool) (nTime : ℕ) (bSystemClass : Bool) :
    CacheM Hash Obj CacheResult := do
  match ← assertRecord A51Hash ns pClass wszClassName with
  | .error hres => return hres
  | .ok p => do
    match pClass.superclass with
    | .error hres => return .code hres
    | .ok wszSuper => do
      assertParent p (← ensureClass A51Hash ns (wszSuper.getD ""))
      assertDefinition p pClass bClone nTime bSystemClass

/-- The loop of `InvalidateClassInternal` over the children, from the `i`-th one on. -/
def invalidateChildren (invalidate : ℕ → CacheM Hash Obj PUnit) (p : ℕ) :
    ℕ → ℕ → CacheM Hash Obj PUnit
  | 0, _ => pure ⟨⟩
  | n + 1, i => do
    match (← record p).children[i]? with
    | none => pure ⟨⟩
    | some c => do
      invalidate c
      invalidateChildren invalidate p n (i + 1)

/-- `InvalidateClassInternal` up to the release of the record. -/
def dropRecord (invalidate : ℕ → CacheM Hash Obj PUnit) (p : ℕ) : CacheM Hash Obj PUnit := do
  invalidateChildren invalidate p (← record p).children.length 0
  update p fun r => { r with children := [] }
  removeRecord p
  erase (← record p).key

/-- A record and its children leave the cache. `depth` is what the stack has room for. -/
def invalidateClassInternal : ℕ → ℕ → CacheM Hash Obj PUnit
  | 0, _ => throw .endless
  | depth + 1, p => do
    dropRecord (invalidateClassInternal depth) p
    release p

/-- The loop of `InvalidateClass` over the ancestors. -/
def clearTreeComplete : ℕ → Option ℕ → CacheM Hash Obj PUnit
  | _, none => pure ⟨⟩
  | 0, some _ => throw .endless
  | fuel + 1, some p => do
    update p fun r => { r with treeComplete := false }
    clearTreeComplete fuel (← record p).parent

/-- The parent of a record that was invalidated loses it, and no enumeration is complete. -/
def untieFromParent (fuel p : ℕ) (index : ℤ) : CacheM Hash Obj PUnit := do
  match (← record p).parent with
  | none => pure ⟨⟩
  | some q => do
    update q fun r => { r with
      childrenComplete := false, treeComplete := false, lastChildInvalidationIndex := index }
    removeChild q p
    clearTreeComplete fuel (← record q).parent

def invalidateClass (A51Hash : String → Hash) (ns : ℕ) (wszClassName : String) :
    CacheM Hash Obj CacheResult := do
  match ← findClass A51Hash ns wszClassName with
  | none => return .sFalse
  | some p => do
    update p fun r => { r with lRef := r.lRef + 1 }
    let s ← get
    modify fun s => { s with
      nextInvalidationIndex :=
        Function.update s.nextInvalidationIndex ns (s.nextInvalidationIndex ns + 1) }
    invalidateClassInternal s.fresh p
    untieFromParent s.fresh p (s.nextInvalidationIndex ns)
    release p
    return .noError

/-- The definition in a record, with its time and whether it was read. A clone of it may fail. -/
def getClassDefFromRecord (clone : Obj → Option Obj) (p : ℕ) : CacheM Hash Obj (Option Obj) := do
  match (← record p).classDef with
  | none => return none
  | some classDef => do
    makeMostRecentlyUsed p
    return clone classDef

def getClassDef (A51Hash : String → Hash) (ns : ℕ) (wszClassName : String)
    (clone : Obj → Option Obj) : CacheM Hash Obj (Option (ℕ × Bool × Option Obj)) := do
  match ← findClass A51Hash ns wszClassName with
  | none => return none
  | some p => do
    let r ← record p
    return some (r.classDefCachedTime, r.read, ← getClassDefFromRecord clone p)

def getClassDefByHash (key : ℕ × Hash) (clone : Obj → Option Obj) :
    CacheM Hash Obj (Option (ℕ × Bool × Bool × Option Obj)) := do
  match (← get).find key with
  | none => return none
  | some p => do
    let r ← record p
    return some (r.classDefCachedTime, r.read, r.systemClass, ← getClassDefFromRecord clone p)

def getParent (A51Hash : String → Hash) (ns : ℕ) (wszClassName : String) :
    CacheM Hash Obj (Option String) := do
  match ← findClass A51Hash ns wszClassName with
  | none => return none
  | some p => do
    match (← record p).parent with
    | none => return none
    | some q => do
      if ← allocate then return some (← record q).className
      else return none

/-- The entries `es` of a map leave the cache. -/
def clearEntries : List ((ℕ × Hash) × ℕ) → CacheM Hash Obj PUnit
  | [] => pure ⟨⟩
  | e :: es => do
    removeRecord e.2
    erase e.1
    release e.2
    clearEntries es

/-- `CHierarchyCache::Clear`. -/
def clearNamespace (ns : ℕ) : CacheM Hash Obj PUnit := do
  clearEntries ((← get).map.filter fun e => e.1.1 = ns)

/-- `CForestCache::Clear`, which clears every namespace. -/
def clear : CacheM Hash Obj PUnit := do
  if (← get).init then
    let _ ← flush
    clearEntries (← get).map

end keys

end CForestCache

end NtAdmin.Wmi.A51
