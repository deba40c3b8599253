import Mathlib.Algebra.Group.Int.Defs
import Mathlib.Algebra.GroupWithZero.Nat
import Mathlib.Data.Fin.Basic
import Mathlib.Data.Nat.Notation
import Mathlib.Logic.Function.Basic
import NtAdmin.Lib.BackwardMerge

/-! The arrays of query ids of evaltree.cpp: `CSortedArray` and the ids of a `CValueNode`. -/
namespace NtAdmin.Wmi.Esscli
open Lib

/-- Ids have the size of a pointer, which is that of an unsigned. -/
abbrev QueryID := Fin (2 ^ 32)

scoped instance queryID_neZero : NeZero (2 ^ 32) := ⟨by decide⟩

def InvalidID : ℕ := 2 ^ 32 - 1

inductive FlexResult
  | no_error
  | array_full
  | out_of_memory
  deriving DecidableEq

/-- The elements from `m_nSize` on are what happens to be in the memory. -/
structure CFlexArray where
  m_pArray : ℕ → QueryID
  m_nSize : ℕ
  m_nExtent : ℤ
  m_nGrowByPercent : ℕ

def CFlexArray.ids (a : CFlexArray) : List QueryID := (List.range a.m_nSize).map a.m_pArray

/-! ### `CFlexArray` -/

def moveMemory (m : ℕ → QueryID) (dst src count : ℕ) : ℕ → QueryID := fun k =>
  if dst ≤ k ∧ k < dst + count then m (src + (k - dst)) else m k

namespace CFlexArray

/-- For an index within the array. -/
def removeAt (a : CFlexArray) (nIndex : ℕ) : CFlexArray :=
  if a.m_nSize ≤ nIndex then a
  else { a with
    m_pArray := Function.update
      (moveMemory a.m_pArray nIndex (nIndex + 1) (a.m_nSize - nIndex - 1)) (a.m_nSize - 1) 0
    m_nSize := a.m_nSize - 1 }

/-- The extent of a full array as it grows, in 32 bits. -/
def grown (a : CFlexArray) : ℤ :=
  (Int.bmod ((a.m_nExtent + 1) * (100 + a.m_nGrowByPercent)) (2 ^ 32)).tdiv 100

/-- The bytes that are allocated for it. -/
def grownBytes (a : CFlexArray) : ℕ := (4 * a.grown % 2 ^ 32).toNat

variable (alloc : ℕ → Bool)

/-- `alloc` tells which sizes can be allocated. -/
def ensureExtent (a : CFlexArray) (nExtent : ℕ) : FlexResult × CFlexArray :=
  if a.m_nExtent < nExtent then
    if alloc (4 * nExtent) then (.no_error, { a with m_nExtent := nExtent })
    else (.out_of_memory, a)
  else (.no_error, a)

/-- The element comes into its place, where there is room for it. -/
def place (a : CFlexArray) (nIndex : ℕ) (pSrc : QueryID) : CFlexArray :=
  if nIndex = a.m_nSize then
    { a with
      m_pArray := Function.update a.m_pArray a.m_nSize pSrc
      m_nSize := a.m_nSize + 1 }
  else
    { a with
      m_pArray := Function.update
        (moveMemory a.m_pArray (nIndex + 1) nIndex (a.m_nSize - nIndex)) nIndex pSrc
      m_nSize := a.m_nSize + 1 }

/-- For an index that is not beyond the end. There is no result where the memory is too short. -/
def insertAt (a : CFlexArray) (nIndex : ℕ) (pSrc : QueryID) : Option (FlexResult × CFlexArray) :=
  if a.m_nSize = a.m_nExtent then
    if a.m_nGrowByPercent = 0 then some (.array_full, a)
    else if alloc a.grownBytes then
      if a.m_nSize < a.grownBytes / 4 then
        some (.no_error, place { a with m_nExtent := a.grown } nIndex pSrc)
      else none
    else some (.out_of_memory, a)
  else some (.no_error, place a nIndex pSrc)

def add (a : CFlexArray) (pSrc : QueryID) : Option (FlexResult × CFlexArray) :=
  insertAt alloc a a.m_nSize pSrc

end CFlexArray

/-! ### The searches -/

/-- One less, as an unsigned. -/
def pred32 (n : ℕ) : ℕ := (n + 2 ^ 32 - 1) % 2 ^ 32

/-- The loop of `Find` and `Insert`: whether `n` was found, both bounds and the last probe. There is
no result if it does not end within `fuel` rounds. -/
def searchLoop (ids : ℕ → QueryID) (n : QueryID) : ℕ → ℕ → ℕ → Option (Bool × ℕ × ℕ × ℕ)
  | 0, _, _ => none
  | fuel + 1, lBound, uBound =>
    let testBound := (lBound + uBound) / 2
    if n < ids testBound then
      if lBound < pred32 testBound then searchLoop ids n fuel lBound testBound
      else some (false, lBound, testBound, testBound)
    else if ids testBound < n then
      if testBound < pred32 uBound then searchLoop ids n fuel testBound uBound
      else some (false, testBound, uBound, testBound)
    else some (true, lBound, uBound, testBound)

/-- The index of `n` among the first `size` ids, or `InvalidID`. -/
def findId (ids : ℕ → QueryID) (size : ℕ) (n : QueryID) : Option ℕ :=
  if size = 0 then some InvalidID
  else if n = ids (size - 1) then some (size - 1)
  else if n = ids 0 then some 0
  else if ids 0 < n ∧ n < ids (size - 1) then
    (searchLoop ids n size 0 (size - 1)).map fun r => if r.1 then r.2.2.2 else InvalidID
  else some InvalidID

/-! ### `CSortedArray` -/

namespace CSortedArray
variable (alloc : ℕ → Bool)

def find (a : CFlexArray) (n : QueryID) : Option ℕ := findId a.m_pArray a.m_nSize n

/-- There is no result where the search does not end or the memory is too short. -/
def insert (a : CFlexArray) (n : QueryID) : Option CFlexArray :=
  let uBound := a.m_nSize - 1
  if a.m_nSize = 0 ∨ n < a.m_pArray 0 then (a.insertAt alloc 0 n).map Prod.snd
  else if a.m_pArray uBound < n then (a.add alloc n).map Prod.snd
  else if n ≠ a.m_pArray uBound ∧ n ≠ a.m_pArray 0 then
    (searchLoop a.m_pArray n a.m_nSize 0 uBound).bind fun r =>
      if n ≠ a.m_pArray r.2.2.2 then
        if n < a.m_pArray r.2.1 then (a.insertAt alloc r.2.1 n).map Prod.snd
        else (a.insertAt alloc r.2.2.1 n).map Prod.snd
      else some a
  else some a

def remove (a : CFlexArray) (n : QueryID) : Option (Bool × CFlexArray) :=
  (find a n).map fun index =>
    if index ≠ InvalidID then (true, a.removeAt index) else (false, a)

/-- The difference of two ids as an `int`. -/
def nCompare (x y : QueryID) : ℤ := Int.bmod ((x : ℤ) - y) (2 ^ 32)

/-- The loop of `AddDataFrom`. The indices are one more than in the source: `i` elements of this
array and `j` of the other are left, and the last one written is at `d`. -/
def mergeLoop (other : ℕ → QueryID) : ℕ → ℕ → ℕ → ℕ → (ℕ → QueryID) →
    ℕ × ℕ × ℕ × (ℕ → QueryID)
  | fuel + 1, i + 1, j + 1, d, m =>
    if nCompare (m i) (other j) < 0 then
      mergeLoop other fuel (i + 1) j (d - 1) (Function.update m (d - 1) (other j))
    else if 0 < nCompare (m i) (other j) then
      mergeLoop other fuel i (j + 1) (d - 1) (Function.update m (d - 1) (m i))
    else mergeLoop other fuel i j (d - 1) (Function.update m (d - 1) (other j))
  | _, i, j, d, m => (i, j, d, m)

/-- The rest of this array. -/
def copyThis : ℕ → ℕ → (ℕ → QueryID) → ℕ × (ℕ → QueryID)
  | 0, d, m => (d, m)
  | i + 1, d, m => copyThis i (d - 1) (Function.update m (d - 1) (m i))

/-- The rest of the other array. -/
def copyOther (other : ℕ → QueryID) : ℕ → ℕ → (ℕ → QueryID) → ℕ × (ℕ → QueryID)
  | 0, d, m => (d, m)
  | j + 1, d, m => copyOther other j (d - 1) (Function.update m (d - 1) (other j))

/-- `count` elements move forward by `d`, from the first one on. -/
def moveForward (d : ℕ) : ℕ → (ℕ → QueryID) → ℕ → QueryID
  | 0, m => m
  | count + 1, m =>
    let m' := moveForward d count m
    Function.update m' count (m' (d + count))

/-- Both forms of `AddDataFrom`. -/
def addData (a : CFlexArray) (other : ℕ → QueryID) (nValues : ℕ) : FlexResult × CFlexArray :=
  if nValues = 0 then (.no_error, a)
  else
    match a.ensureExtent alloc (a.m_nSize + nValues) with
    | (.no_error, a) =>
      let (i, j, d, m) := mergeLoop other (a.m_nSize + nValues) a.m_nSize nValues
        (a.m_nSize + nValues) a.m_pArray
      let (d, m) := copyThis i d m
      let (d, m) := copyOther other j d m
      (.no_error, { a with
        m_pArray := if d = 0 then m else moveForward d (a.m_nSize + nValues - d) m
        m_nSize := a.m_nSize + nValues - d })
    | (_, a) => (.out_of_memory, a)

def addDataFrom (a otherArray : CFlexArray) : FlexResult × CFlexArray :=
  addData alloc a otherArray.m_pArray otherArray.m_nSize

def addDataFromValues (a : CFlexArray) (pOtherArray : ℕ → QueryID) (nValues : ℕ) :
    FlexResult × CFlexArray :=
  addData alloc a pOtherArray nValues

end CSortedArray

/-! ### `CValueNode` -/

structure CValueNode where
  m_nValues : ℕ
  m_trueIDs : ℕ → QueryID

namespace CValueNode

def ids (v : CValueNode) : List QueryID := (List.range v.m_nValues).map v.m_trueIDs

def findQueryID (v : CValueNode) (n : QueryID) : Option ℕ := findId v.m_trueIDs v.m_nValues n

def removeQueryID (v : CValueNode) (nQuery : QueryID) : Option (Bool × CValueNode) :=
  (v.findQueryID nQuery).map fun n =>
    if n ≠ InvalidID then
      let m := if 1 < v.m_nValues ∧ n ≠ v.m_nValues - 1 then
        moveMemory v.m_trueIDs n (n + 1) (v.m_nValues - n - 1) else v.m_trueIDs
      (true, if 0 < v.m_nValues then
        { m_nValues := v.m_nValues - 1
          m_trueIDs := Function.update m (v.m_nValues - 1) (Fin.last _) }
        else { v with m_trueIDs := m })
    else (false, v)

end CValueNode

end NtAdmin.Wmi.Esscli
