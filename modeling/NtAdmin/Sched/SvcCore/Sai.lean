import NtAdmin.Sched.SvcCore.Sac

/-! The SAI, the second security database: an array of sets of job identities. Set `n` belongs to
credential `n` of the SAC. -/
namespace NtAdmin.Sched
open Lib

def lastHashByte (pb : Bytes) : UInt8 := pb.getD (hashDataSize - 1) 0

/-- Hashed data is taken as equal even if the last bit differs. -/
def sameIdentity (pb pbIdentity : Bytes) : Bool :=
  pb.take (hashDataSize - 1) == pbIdentity.take (hashDataSize - 1) &&
    (lastHashByte pb ^^^ lastHashByte pbIdentity) &&& 0xFE == 0

section sai
variable (fresh : ℕ → UInt8)

def saiAddIdentity (pbIdentity pbSAI : Bytes) : Except Hresult Bytes :=
  let cbSAINew := pbSAI.length + 4 + hashDataSize
  if maxSecretSize < cbSAINew then
    throw .insufficientBuffer
  else
    let pbSAINew := makeRoom fresh pbSAI cbSAINew saiHeaderSize
    let first : Bool := pbSAI.length = 0
    let pbSetSubCount := if first then saiHeaderSize else pbSAI.length
    let dwSetArrayCount := if first then 1 else getDword pbSAINew usnSize + 1
    let pbSAINew := copyAt pbSAINew usnSize (dword dwSetArrayCount)
    let pbSAINew := copyAt pbSAINew pbSetSubCount (dword 1)
    pure (copyAt pbSAINew (pbSetSubCount + 4) pbIdentity)

structure FoundIdentity where
  credentialIndex : ℕ
  isPasswordNull : Bool
  foundIdentity : ℕ
  setSubCount : ℕ
  set : ℕ

/-- The inner loop of `SAIFindIdentity` with `n` identities left: the identity found, the number of
identities left and where the loop stops. -/
def scanSet (pbIdentity pbSAI : Bytes) : ℕ → ℕ → Except Hresult (Option ℕ × ℕ × ℕ)
  | 0, pb => pure (none, 0, pb)
  | n + 1, pb =>
    if pb < pbSAI.length then
      if pbSAI.length < pb + hashDataSize then
        throw .accountDbaseCorrupt
      else if sameIdentity (sliceAt pbSAI pb hashDataSize) pbIdentity then
        pure (some pb, n + 1, pb)
      else scanSet pbIdentity pbSAI n (pb + hashDataSize)
    else pure (none, n + 1, pb)

/-- The outer loop with `n` sets left, and the check behind it. -/
def scanSets (pbIdentity pbSAI : Bytes) : ℕ → ℕ → ℕ → Except Hresult (Option FoundIdentity)
  | 0, _, pb => if pb ≠ pbSAI.length then throw .accountDbaseCorrupt else pure none
  | n + 1, i, pb =>
    if pb < pbSAI.length then
      if pbSAI.length < pb + 4 then
        throw .accountDbaseCorrupt
      else do
        let dwSetSubCount := getDword pbSAI pb
        match ← scanSet pbIdentity pbSAI dwSetSubCount (pb + 4) with
        | (some found, _, _) =>
          let last := lastHashByte (sliceAt pbSAI found hashDataSize) ^^^ lastHashByte pbIdentity
          pure (some ⟨i, last != 0, found, dwSetSubCount, pb + 4⟩)
        | (none, left, pb) =>
          if left ≠ 0 ∨ pbSAI.length < pb then
            throw .accountDbaseCorrupt
          else scanSets pbIdentity pbSAI n (i + 1) pb
    else throw .accountDbaseCorrupt

def saiFindIdentity (pbIdentity pbSAI : Bytes) : Except Hresult (Option FoundIdentity) :=
  if pbSAI.length ≤ saiHeaderSize then
    pure none
  else scanSets pbIdentity pbSAI (getDword pbSAI usnSize) 0 saiHeaderSize

/-- The inner loop of `SAIIndexIdentity`; `here` says that it runs over the set looked for. -/
def indexSet (here : Bool) (dwSetIndex : ℕ) (pbSAI : Bytes) :
    ℕ → ℕ → ℕ → Except Hresult (Option ℕ × ℕ × ℕ)
  | 0, _, pb => pure (none, 0, pb)
  | n + 1, j, pb =>
    if pb < pbSAI.length then
      if here ∧ j = dwSetIndex then
        if pbSAI.length < pb + hashDataSize then
          throw .accountDbaseCorrupt
        else pure (some pb, n + 1, pb)
      else indexSet here dwSetIndex pbSAI n (j + 1) (pb + hashDataSize)
    else pure (none, n + 1, pb)

def indexSets (dwSetArrayIndex dwSetIndex : ℕ) (pbSAI : Bytes) :
    ℕ → ℕ → ℕ → Except Hresult (Option (ℕ × ℕ × ℕ))
  | 0, _, pb => if pb ≠ pbSAI.length then throw .accountDbaseCorrupt else pure none
  | n + 1, i, pb =>
    if pb < pbSAI.length then
      if pbSAI.length < pb + 4 then
        throw .accountDbaseCorrupt
      else do
        let dwSetSubCount := getDword pbSAI pb
        match ← indexSet (i = dwSetArrayIndex) dwSetIndex pbSAI dwSetSubCount 0 (pb + 4) with
        | (some found, _, _) => pure (some (found, dwSetSubCount, pb + 4))
        | (none, left, pb) =>
          if left ≠ 0 ∨ pbSAI.length < pb then
            throw .accountDbaseCorrupt
          else indexSets dwSetArrayIndex dwSetIndex pbSAI n (i + 1) pb
    else throw .accountDbaseCorrupt

/-- The identity at an index of a set, the number of identities in the set and its start. -/
def saiIndexIdentity (dwSetArrayIndex dwSetIndex : ℕ) (pbSAI : Bytes) :
    Except Hresult (Option (ℕ × ℕ × ℕ)) :=
  if pbSAI.length ≤ saiHeaderSize then
    pure none
  else indexSets dwSetArrayIndex dwSetIndex pbSAI (getDword pbSAI usnSize) 0 saiHeaderSize

def saiInsertIdentity (pbIdentity : Bytes) (pbSAIIndex : ℕ) (pbSAI : Bytes) :
    Except Hresult Bytes :=
  if pbSAIIndex < saiHeaderSize + 4 ∨ pbSAI.length < pbSAIIndex + hashDataSize then
    throw .accountDbaseCorrupt
  else
    let cbSAINew := pbSAI.length + hashDataSize
    if maxSecretSize < cbSAINew then
      throw .insufficientBuffer
    else
      let pbSAINew := makeRoom fresh pbSAI cbSAINew saiHeaderSize
      let pbSetSubCount := pbSAIIndex - 4
      let pb := moveWithin pbSAINew (pbSAIIndex + hashDataSize) pbSAIIndex
        (pbSAI.length - pbSAIIndex)
      let pb := copyAt pb pbSetSubCount (dword (getDword pb pbSetSubCount + 1))
      pure (copyAt pb pbSAIIndex pbIdentity)

/-- Takes an identity out of its set, and with the last one the set and its credential. -/
def saiRemoveIdentity (pbIdentity pbSet : ℕ) (pbSAI : Bytes) (credentialIndex : ℕ)
    (pbSAC : Bytes) : Except Hresult (Bytes × Bytes) :=
  if pbIdentity < pbSet ∨ pbSet < saiHeaderSize + 4 ∨
      pbSAI.length < pbIdentity + hashDataSize then
    throw .accountDbaseCorrupt
  else
    let pbSetSubCount := pbSet - 4
    let dwSetSubCount := getDword pbSAI pbSetSubCount - 1
    if dwSetSubCount = 0 then do
      let pbSAC ← sacRemoveCredential fresh credentialIndex pbSAC
      let pb := copyAt pbSAI usnSize (dword (getDword pbSAI usnSize - 1))
      let pbSrc := pbSet + hashDataSize
      let pb := moveWithin pb pbSetSubCount pbSrc (pbSAI.length - pbSrc)
      pure (resize fresh pb (pbSAI.length - (hashDataSize + 4)), pbSAC)
    else
      let pb := copyAt pbSAI pbSetSubCount (dword dwSetSubCount)
      let pbSrc := pbIdentity + hashDataSize
      let pb := moveWithin pb pbIdentity pbSrc (pbSAI.length - pbSrc)
      pure (resize fresh pb (pbSAI.length - hashDataSize), pbSAC)

def saiUpdateIdentity (pbNewIdentity : Bytes) (pbFoundIdentity : ℕ) (pbSAI : Bytes) : Bytes :=
  copyAt pbSAI pbFoundIdentity pbNewIdentity

/-- How many of `n` identities are marked, and where they end. -/
def countDeleted (pbSAI : Bytes) (pbSAIEnd : ℕ) : ℕ → ℕ → ℕ → Except Hresult (ℕ × ℕ)
  | 0, pbSrc, c => pure (c, pbSrc)
  | n + 1, pbSrc, c =>
    if pbSrc < pbSAIEnd then
      if pbSAIEnd < pbSrc + hashDataSize then
        throw .accountDbaseCorrupt
      else countDeleted pbSAI pbSAIEnd n (pbSrc + hashDataSize)
        (if deletedEntry pbSAI pbSrc then c + 1 else c)
    else pure (c, pbSrc)

/-- Takes out the marked identities of a set. A round is over with one of its `n` identities. -/
def removeDeleted (pbSAIEnd : ℕ) : ℕ → ℕ → ℕ → Bytes → Bytes
  | 0, _, _, pbSAI => pbSAI
  | n + 1, cEntriesDeleted, pbDest, pbSAI =>
    if cEntriesDeleted ≠ 0 ∧ pbDest < pbSAIEnd then
      let pbSrc := pbDest + hashDataSize
      if deletedEntry pbSAI pbDest then
        removeDeleted pbSAIEnd n (cEntriesDeleted - 1) pbDest
          (moveWithin pbSAI pbDest pbSrc (pbSAIEnd - pbSrc))
      else removeDeleted pbSAIEnd n cEntriesDeleted pbSrc pbSAI
    else pbSAI

/-- The loop of `SAICoalesceDeletedEntries` with `n` sets left. It keeps the block, its end and the
number of sets removed. -/
def coalesceSets : ℕ → ℕ → ℕ → ℕ → Bytes → Except Hresult (Bytes × ℕ × ℕ)
  | 0, _, pbSAIEnd, cSetsRemoved, pbSAI => pure (pbSAI, pbSAIEnd, cSetsRemoved)
  | n + 1, pb, pbSAIEnd, cSetsRemoved, pbSAI =>
    if pb < pbSAIEnd then
      if pbSAIEnd < pb + 4 then
        throw .accountDbaseCorrupt
      else do
        let dwSetSubCount := getDword pbSAI pb
        let (cEntriesDeleted, pbSrc) ← countDeleted pbSAI pbSAIEnd dwSetSubCount (pb + 4) 0
        if cEntriesDeleted ≠ 0 then
          let cbBytesDeleted := hashDataSize * cEntriesDeleted
          if cEntriesDeleted = dwSetSubCount then
            coalesceSets n pb (pbSAIEnd - (cbBytesDeleted + 4)) (cSetsRemoved + 1)
              (moveWithin pbSAI pb pbSrc (pbSAIEnd - pbSrc))
          else
            let cKept := dwSetSubCount - cEntriesDeleted
            let pbSAI := copyAt pbSAI pb (dword cKept)
            coalesceSets n (pb + 4 + hashDataSize * cKept) (pbSAIEnd - cbBytesDeleted) cSetsRemoved
              (removeDeleted pbSAIEnd dwSetSubCount cEntriesDeleted (pb + 4) pbSAI)
        else coalesceSets n (pb + (hashDataSize * dwSetSubCount + 4)) pbSAIEnd cSetsRemoved pbSAI
    else pure (pbSAI, pbSAIEnd, cSetsRemoved)

def saiCoalesceDeletedEntries (pbSAI : Bytes) : Except Hresult Bytes :=
  if pbSAI.length ≤ saiHeaderSize then
    pure pbSAI
  else do
    let dwSetArrayCount := getDword pbSAI usnSize
    let (pb, cbSAINew, cSetsRemoved) ←
      coalesceSets dwSetArrayCount saiHeaderSize pbSAI.length 0 pbSAI
    let pb := copyAt pb usnSize (dword (dwSetArrayCount - cSetsRemoved))
    pure (if pbSAI.length ≠ cbSAINew then resize fresh pb cbSAINew else pb)

end sai

end NtAdmin.Sched
