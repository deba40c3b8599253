import Mathlib.Data.List.AList
import Mathlib.Data.Nat.Notation
import NtAdmin.Lib.SearchTree

/-! The decaying cache of cache.h and cache.cpp. Each step is what a thread does between taking the
controller's lock and letting go of it, or on a count of its own. -/
namespace NtAdmin.Wmi.Containers
open Lib

/-- The address of an element. -/
abbrev ElementPtr := ℕ

structure WmiUniqueTimeout where
  m_Ticks : UInt32
  m_Counter : UInt32
  deriving DecidableEq

namespace WmiUniqueTimeout

/-- `t_Compare`, as the bits of a `LONG`. -/
def difference (a_Arg1 a_Arg2 : WmiUniqueTimeout) : UInt32 :=
  if a_Arg1.m_Ticks - a_Arg2.m_Ticks = 0 then a_Arg1.m_Counter - a_Arg2.m_Counter
  else a_Arg1.m_Ticks - a_Arg2.m_Ticks

/-- `operator ==`. -/
def eq (a_Arg1 a_Arg2 : WmiUniqueTimeout) : Bool := difference a_Arg1 a_Arg2 = 0

/-- `operator <`: the sign bit. -/
def lt (a_Arg1 a_Arg2 : WmiUniqueTimeout) : Bool := 0x80000000 ≤ (difference a_Arg1 a_Arg2).toNat

end WmiUniqueTimeout

/-- The nodes of the decay queue, a `WmiBasicTree`. -/
abbrev DecayNode := WmiUniqueTimeout × ElementPtr

def compareElement (a_Arg1 a_Arg2 : DecayNode) : Ordering :=
  if a_Arg1.1.eq a_Arg2.1 then .eq else if a_Arg1.1.lt a_Arg2.1 then .lt else .gt

/-- The queue in the order of the tree's iterator. -/
abbrev CacheDecay := SearchTree DecayNode

namespace CacheDecay

/-- `EnQueue`. `alloc` tells whether there is memory for the node. -/
def enqueue (alloc : Bool) (node : DecayNode) (queue : CacheDecay) : Option CacheDecay :=
  if alloc then queue.insert compareElement node else none

/-- `Delete` of the key of a node, by callers that do not look at the status. -/
def delete (node : DecayNode) (queue : CacheDecay) : CacheDecay :=
  (queue.erase compareElement node).getD queue

/-- The loop that looks for an element in the queue and deletes its key. -/
def unqueue (e : ElementPtr) (queue : CacheDecay) : CacheDecay :=
  match queue.toList.find? (·.2 = e) with
  | some node => queue.delete node
  | none => queue

/-- Whether `Shutdown`, which dequeues until the queue is empty, ever gets there. -/
def empties : ℕ → CacheDecay → Bool
  | 0, queue => queue.toList.isEmpty
  | n + 1, queue =>
    match queue.toList.head? with
    | some node =>
      match queue.erase compareElement node with
      | some queue => empties n queue
      | none => false
    | none => true

end CacheDecay

structure WmiCacheElement (Key : Type) where
  m_ReferenceCount : ℕ
  m_InternalReferenceCount : ℕ
  m_NonCylicReferenceCount : ℕ
  m_Decaying : Bool
  m_Cached : Bool
  m_Decayed : Bool
  m_Key : Key
  m_Period : UInt32

namespace WmiCacheElement
variable {Key : Type}

/-- The constructor. -/
def new (key : Key) (period : UInt32) : WmiCacheElement Key where
  m_ReferenceCount := 0
  m_InternalReferenceCount := 0
  m_NonCylicReferenceCount := 0
  m_Decaying := false
  m_Cached := false
  m_Decayed := false
  m_Key := key
  m_Period := period

def internalAddRef (e : WmiCacheElement Key) : WmiCacheElement Key :=
  { e with
    m_InternalReferenceCount := e.m_InternalReferenceCount + 1
    m_NonCylicReferenceCount :=
      if e.m_InternalReferenceCount = 0 then e.m_NonCylicReferenceCount + 1
      else e.m_NonCylicReferenceCount }

def addRef (e : WmiCacheElement Key) : WmiCacheElement Key :=
  if e.m_ReferenceCount = 0 then
    { e.internalAddRef with m_ReferenceCount := 1, m_Decaying := false }
  else { e with m_ReferenceCount := e.m_ReferenceCount + 1 }

/-- Expiry and shutdown. -/
def setDecayed (cached : Bool) (e : WmiCacheElement Key) : WmiCacheElement Key :=
  { e with m_Decayed := true, m_Decaying := false, m_Cached := cached }

/-- A new element that no one has had a reference to. -/
def isNew (e : WmiCacheElement Key) : Bool :=
  e.m_ReferenceCount = 0 ∧ e.m_InternalReferenceCount = 0 ∧ e.m_NonCylicReferenceCount = 0

end WmiCacheElement

/-- The search tree of the elements by their keys. -/
abbrev Cache (Key : Type) := AList fun _ : Key => ElementPtr

namespace Cache
variable {Key : Type} [DecidableEq Key]

def find (cache : Cache Key) (key : Key) : Option ElementPtr := AList.lookup key cache

theorem find_insert (cache : Cache Key) (key : Key) (e : ElementPtr) :
    Cache.find (AList.insert key e cache) key = some e := AList.lookup_insert cache

theorem find_insert_ne (cache : Cache Key) {key key' : Key} (e : ElementPtr) (h : key ≠ key') :
    Cache.find (AList.insert key' e cache) key = cache.find key := AList.lookup_insert_ne h

theorem find_erase (cache : Cache Key) (key : Key) :
    Cache.find (AList.erase key cache) key = none := AList.lookup_erase key cache

theorem find_erase_ne (cache : Cache Key) {key key' : Key} (h : key ≠ key') :
    Cache.find (AList.erase key' cache) key = cache.find key := AList.lookup_erase_ne h

end Cache

/-- `pendingRelease` and `pendingFree` count the threads that have let go of the lock and are to call
`InternalRelease` and `NonCyclicRelease` for an element. `inserted` tells which elements have been
inserted, and `destroyed` how often each has been deleted. -/
structure WmiCacheController (Key : Type) where
  element : ElementPtr → WmiCacheElement Key
  m_Cache : Cache Key
  m_CacheDecay : CacheDecay
  m_Counter : UInt32
  pendingRelease : ElementPtr → ℕ
  pendingFree : ElementPtr → ℕ
  inserted : ElementPtr → Bool
  destroyed : ElementPtr → ℕ

namespace WmiCacheController
variable {Key : Type} [DecidableEq Key]

def modify (e : ElementPtr) (f : WmiCacheElement Key → WmiCacheElement Key)
    (s : WmiCacheController Key) : WmiCacheController Key :=
  { s with element := Function.update s.element e (f (s.element e)) }

/-- `Insert`. Nothing changes if the key is in the cache or there is no memory for its node. -/
def insert (alloc : Bool) (e : ElementPtr) (s : WmiCacheController Key) : WmiCacheController Key :=
  if alloc && s.m_Cache.find (s.element e).m_Key = none then
    { s.modify e fun x => { x.internalAddRef with m_Cached := true } with
      m_Cache := AList.insert (s.element e).m_Key e s.m_Cache
      inserted := Function.update s.inserted e true }
  else s

def find (key : Key) (s : WmiCacheController Key) : WmiCacheController Key :=
  match s.m_Cache.find key with
  | some e => s.modify e WmiCacheElement.addRef
  | none => s

/-- `UnLockedInternalRelease`, which `InternalRelease` repeats behind taking the lock. The thread that
drops the last count still has to call `NonCyclicRelease`. -/
def unLockedInternalRelease (e : ElementPtr) (s : WmiCacheController Key) :
    WmiCacheController Key :=
  let x := s.element e
  if x.m_InternalReferenceCount = 1 then
    { s.modify e fun x => { x with m_InternalReferenceCount := 0, m_Cached := false } with
      m_Cache := if x.m_Cached then AList.erase x.m_Key s.m_Cache else s.m_Cache
      pendingFree := Function.update s.pendingFree e (s.pendingFree e + 1) }
  else
    s.modify e fun x => { x with m_InternalReferenceCount := x.m_InternalReferenceCount - 1 }

/-- `Decay`, and whether it succeeds. It queues the element that it finds under the key of the one
that is released. -/
def decay (alloc : Bool) (e : ElementPtr) (ticks : UInt32) (s : WmiCacheController Key) :
    Bool × WmiCacheController Key :=
  match s.m_Cache.find (s.element e).m_Key with
  | some found =>
    let t_Key : WmiUniqueTimeout := ⟨ticks + (s.element e).m_Period, s.m_Counter + 1⟩
    let unqueued := { s with
      m_CacheDecay := s.m_CacheDecay.unqueue e
      m_Counter := s.m_Counter + 1 }
    match unqueued.m_CacheDecay.enqueue alloc (t_Key, found) with
    | some queue => (true, { unqueued with m_CacheDecay := queue })
    | none => (false, unqueued.unLockedInternalRelease e)
  | none => (false, s)

/-- `Release` of the last reference starts the decay. -/
def decays (e : ElementPtr) (s : WmiCacheController Key) : Bool :=
  (s.element e).m_Cached && !(s.element e).m_Decayed && !(s.element e).m_Decaying

/-- The part of `Release` in front of `UnLockedInternalRelease`, for the last reference. -/
def beginDecay (alloc : Bool) (e : ElementPtr) (ticks : UInt32) (s : WmiCacheController Key) :
    WmiCacheController Key :=
  if s.decays e then
    let r := s.decay alloc e ticks
    if r.1 then r.2.modify e fun x => { x with m_Decaying := true } else r.2
  else s

def release (alloc : Bool) (e : ElementPtr) (ticks : UInt32) (s : WmiCacheController Key) :
    WmiCacheController Key :=
  let s' := s.modify e fun x => { x with m_ReferenceCount := x.m_ReferenceCount - 1 }
  if (s.element e).m_ReferenceCount = 1 then (s'.beginDecay alloc e ticks).unLockedInternalRelease e
  else s'

/-- How a round of the loop of `Strobe` ends: an element expires, a node is dropped whose element is
in use again, or the call returns. -/
inductive Round
  | expired (e : ElementPtr)
  | dropped (e : ElementPtr)
  | done
  deriving DecidableEq

/-- A round, with what becomes of `a_NextStrobeDelta`. -/
def strobe (ticks a_NextStrobeDelta : UInt32) (s : WmiCacheController Key) :
    Round × UInt32 × WmiCacheController Key :=
  match s.m_CacheDecay.toList with
  | [] => (.done, a_NextStrobeDelta, s)
  | (t_Key, e) :: _ =>
    let delta := min a_NextStrobeDelta (s.element e).m_Period
    if t_Key.m_Ticks ≤ ticks then
      let dequeued := { s with m_CacheDecay := s.m_CacheDecay.delete (t_Key, e) }
      if (s.element e).m_Decaying then
        (.expired e, delta,
          { dequeued.modify e fun x => x.setDecayed x.m_Cached with
            pendingRelease := Function.update s.pendingRelease e (s.pendingRelease e + 1) })
      else (.dropped e, delta, dequeued)
    else (.done, delta, s)

/-- `Shutdown` of one key. -/
def shutdownKey (key : Key) (s : WmiCacheController Key) : WmiCacheController Key :=
  match s.m_Cache.find key with
  | some e =>
    if (s.element e).m_Decayed then { s with m_Cache := AList.erase key s.m_Cache }
    else
      { s.modify e (WmiCacheElement.setDecayed false) with
        m_CacheDecay := s.m_CacheDecay.unqueue e
        m_Cache := AList.erase key s.m_Cache
        pendingRelease := Function.update s.pendingRelease e (s.pendingRelease e + 1) }
  | none => s

/-- The loop of `Shutdown` over the elements. -/
def shutdownElements : List ElementPtr → WmiCacheController Key → WmiCacheController Key
  | [], s => s
  | e :: elements, s =>
    if (s.element e).m_Decayed then shutdownElements elements s
    else
      shutdownElements elements
        { s.modify e (WmiCacheElement.setDecayed false) with
          pendingRelease := Function.update s.pendingRelease e (s.pendingRelease e + 1) }

/-- `Shutdown` of all keys, if it ever lets go of the lock. Without memory for the list of the
elements the cache stays as it is. -/
def shutdown (alloc : Bool) (s : WmiCacheController Key) : Option (WmiCacheController Key) :=
  if s.m_CacheDecay.empties s.m_CacheDecay.toList.length then
    if alloc then
      some { shutdownElements (s.m_Cache.entries.map Sigma.snd) { s with m_CacheDecay := .leaf } with
        m_Cache := ∅ }
    else some { s with m_CacheDecay := .leaf }
  else none

/-- `InternalRelease` by a thread that has expired the element or shut it down. -/
def internalRelease (e : ElementPtr) (s : WmiCacheController Key) : WmiCacheController Key :=
  { s with
    pendingRelease :=
      Function.update s.pendingRelease e (s.pendingRelease e - 1) }.unLockedInternalRelease e

def nonCyclicRelease (e : ElementPtr) (s : WmiCacheController Key) : WmiCacheController Key :=
  { s.modify e fun x => { x with m_NonCylicReferenceCount := x.m_NonCylicReferenceCount - 1 } with
    pendingFree := Function.update s.pendingFree e (s.pendingFree e - 1)
    destroyed :=
      if (s.element e).m_NonCylicReferenceCount = 1 then
        Function.update s.destroyed e (s.destroyed e + 1)
      else s.destroyed }

end WmiCacheController

/-! Runs. -/

inductive CacheEvent (Key : Type)
  | create (e : ElementPtr) (key : Key) (period : UInt32)
  | addRef (e : ElementPtr)
  | insert (alloc : Bool) (e : ElementPtr)
  | find (key : Key)
  | release (alloc : Bool) (e : ElementPtr) (ticks : UInt32)
  | strobe (ticks a_NextStrobeDelta : UInt32)
  | shutdownKey (key : Key)
  | shutdown (alloc : Bool)
  | internalRelease (e : ElementPtr)
  | nonCyclicRelease (e : ElementPtr)

namespace WmiCacheController
variable {Key : Type} [DecidableEq Key]

/-- Callers use an element that they have just created or have a reference to, and insert it once. -/
def allows (s : WmiCacheController Key) : CacheEvent Key → Bool
  | .create e _ _ => (s.element e).isNew && s.destroyed e = 0
  | .addRef e => 0 < (s.element e).m_ReferenceCount || (s.element e).isNew && s.destroyed e = 0
  | .insert _ e => 0 < (s.element e).m_ReferenceCount && !s.inserted e
  | .release _ e _ => 0 < (s.element e).m_ReferenceCount
  | .internalRelease e => 0 < s.pendingRelease e
  | .nonCyclicRelease e => 0 < s.pendingFree e
  | _ => true

/-- The state after a step of some thread. -/
def next (s : WmiCacheController Key) : CacheEvent Key → Option (WmiCacheController Key)
  | .create e key period => some (s.modify e fun _ => WmiCacheElement.new key period)
  | .addRef e => some (s.modify e WmiCacheElement.addRef)
  | .insert alloc e => some (s.insert alloc e)
  | .find key => some (s.find key)
  | .release alloc e ticks => some (s.release alloc e ticks)
  | .strobe ticks a_NextStrobeDelta => some (s.strobe ticks a_NextStrobeDelta).2.2
  | .shutdownKey key => some (s.shutdownKey key)
  | .shutdown alloc => s.shutdown alloc
  | .internalRelease e => some (s.internalRelease e)
  | .nonCyclicRelease e => some (s.nonCyclicRelease e)

def step (s : WmiCacheController Key) (event : CacheEvent Key) : Option (WmiCacheController Key) :=
  if s.allows event then s.next event else none

/-- A cache before its first element. -/
def start (key : Key) : WmiCacheController Key where
  element _ := WmiCacheElement.new key 0
  m_Cache := ∅
  m_CacheDecay := .leaf
  m_Counter := 0
  pendingRelease _ := 0
  pendingFree _ := 0
  inserted _ := false
  destroyed _ := 0

end WmiCacheController

end NtAdmin.Wmi.Containers
