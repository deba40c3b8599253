import NtAdmin.Lib.Buffer

/-! The SAC, the first of the two security databases of the scheduler: an array of credentials, one
for each account, packed into a block of bytes. A pointer into a block is an offset. -/
namespace NtAdmin.Sched
open Lib

abbrev Bytes := List UInt8

/-- `win32` is the error of a call to the LSA. -/
inductive Hresult
  | accountDbaseCorrupt
  | accountInformationNotSet
  | insufficientBuffer
  | accessDenied
  | fail
  | win32 (err : ℕ)
  deriving DecidableEq

def maxSecretSize : ℕ := 65536

def hashDataSize : ℕ := 64

def usnSize : ℕ := 4

def sacHeaderSize : ℕ := usnSize + 4

def saiHeaderSize : ℕ := usnSize + 4

/-- `DELETED_ENTRY` -/
def deletedEntryMarker : Bytes := [68, 69, 76, 69, 84, 69, 68, 95, 69, 78, 84, 82, 89]

def deletedEntryMarkerSize : ℕ := 13

def deletedEntry (pb : Bytes) (off : ℕ) : Bool :=
  sliceAt pb off deletedEntryMarkerSize == deletedEntryMarker

def markDeletedEntry (pb : Bytes) (off : ℕ) : Bytes := copyAt pb off deletedEntryMarker

/-- A new block with a zeroed header, or the old one with room at its end. -/
def makeRoom (fresh : ℕ → UInt8) (pb : Bytes) (cbNew cbHeader : ℕ) : Bytes :=
  if pb.length = 0 then
    copyAt (resize fresh [] (cbNew + cbHeader)) 0 (List.replicate cbHeader 0)
  else resize fresh pb cbNew

section sac
variable (fresh : ℕ → UInt8)

def sacAddCredential (pbCredentialIdentity pbEncryptedData pbSAC : Bytes) :
    Except Hresult Bytes :=
  let cbCredentialSize := hashDataSize + pbEncryptedData.length
  let cbSACNew := pbSAC.length + 4 + cbCredentialSize
  if maxSecretSize < cbSACNew then
    throw .insufficientBuffer
  else
    let pbSACNew := makeRoom fresh pbSAC cbSACNew sacHeaderSize
    let first : Bool := pbSAC.length = 0
    let pbCredentialSizePos := if first then sacHeaderSize else pbSAC.length
    let dwCredentialCount := if first then 1 else getDword pbSACNew usnSize + 1
    let pbSACNew := copyAt pbSACNew usnSize (dword dwCredentialCount)
    let pbSACNew := copyAt pbSACNew pbCredentialSizePos (dword cbCredentialSize)
    let pbSACNew := copyAt pbSACNew (pbCredentialSizePos + 4) pbCredentialIdentity
    pure (copyAt pbSACNew (pbCredentialSizePos + 4 + hashDataSize) pbEncryptedData)

/-- The loop of `SACIndexCredential` with `n` credentials left, and where it stops. -/
def sacSeek (dwCredentialIndex : ℕ) (pbSAC : Bytes) : ℕ → ℕ → ℕ → Except Hresult (ℕ × ℕ)
  | 0, i, pb => pure (i, pb)
  | n + 1, i, pb =>
    if i < dwCredentialIndex ∧ pb < pbSAC.length then
      if pbSAC.length < pb + 4 then
        throw .accountDbaseCorrupt
      else sacSeek dwCredentialIndex pbSAC n (i + 1) (pb + 4 + getDword pbSAC pb)
    else pure (i, pb)

/-- The size of a credential and where it is. -/
def sacIndexCredential (dwCredentialIndex : ℕ) (pbSAC : Bytes) :
    Except Hresult (Option (ℕ × ℕ)) :=
  if pbSAC.length ≤ sacHeaderSize then
    pure none
  else do
    let dwCredentialCount := getDword pbSAC usnSize
    let (i, pb) ← sacSeek dwCredentialIndex pbSAC dwCredentialCount 0 sacHeaderSize
    if i = dwCredentialIndex ∧ i < dwCredentialCount ∧ pb < pbSAC.length then
      let cbCredentialSize := getDword pbSAC pb
      if pb + 4 + cbCredentialSize ≤ pbSAC.length then
        pure (some (cbCredentialSize, pb + 4))
      else throw .accountDbaseCorrupt
    else if i ≠ dwCredentialCount ∨ pb ≠ pbSAC.length then
      throw .accountDbaseCorrupt
    else pure none

structure FoundCredential where
  credentialIndex : ℕ
  cbEncryptedData : ℕ
  pbEncryptedData : ℕ

/-- The loop of `SACFindCredential` with `n` credentials left, and the check behind it. -/
def sacScan (pbCredentialIdentity pbSAC : Bytes) :
    ℕ → ℕ → ℕ → Except Hresult (Option FoundCredential)
  | 0, _, pb => if pb ≠ pbSAC.length then throw .accountDbaseCorrupt else pure none
  | n + 1, i, pb =>
    if pb < pbSAC.length then
      if pbSAC.length < pb + 4 then
        throw .accountDbaseCorrupt
      else
        let cbCredentialSize := getDword pbSAC pb
        if pbSAC.length < pb + 4 + hashDataSize then
          throw .accountDbaseCorrupt
        else
          let cbEncryptedData := (cbCredentialSize + 2 ^ 32 - hashDataSize) % 2 ^ 32
          let pbEncryptedData := pb + 4 + hashDataSize
          if sliceAt pbSAC (pb + 4) hashDataSize = pbCredentialIdentity then
            if pbSAC.length < pbEncryptedData + cbEncryptedData then
              throw .accountDbaseCorrupt
            else pure (some ⟨i, cbEncryptedData, pbEncryptedData⟩)
          else sacScan pbCredentialIdentity pbSAC n (i + 1) (pbEncryptedData + cbEncryptedData)
    else if pbSAC.length < pb then throw .accountDbaseCorrupt else pure none

def sacFindCredential (pbCredentialIdentity pbSAC : Bytes) :
    Except Hresult (Option FoundCredential) :=
  if pbSAC.length ≤ sacHeaderSize then
    pure none
  else sacScan pbCredentialIdentity pbSAC (getDword pbSAC usnSize) 0 sacHeaderSize

def sacRemoveCredential (credentialIndex : ℕ) (pbSAC : Bytes) : Except Hresult Bytes := do
  match ← sacIndexCredential credentialIndex pbSAC with
  | none => throw .accountInformationNotSet
  | some (cbCredential, pbCredential) =>
    let pbDest := pbCredential - 4
    let pbSrc := pbCredential + cbCredential
    let pb := moveWithin pbSAC pbDest pbSrc (pbSAC.length - pbSrc)
    let pb := copyAt pb usnSize (dword (getDword pb usnSize - 1))
    pure (resize fresh pb (pbSAC.length - (cbCredential + 4)))

/-- The end of `SACUpdateCredential`. -/
def writeCredential (pbEncryptedData : Bytes) (pbPrevCredential : ℕ) (pbSAC : Bytes) : Bytes :=
  let pb := copyAt pbSAC (pbPrevCredential - 4) (dword (hashDataSize + pbEncryptedData.length))
  copyAt pb (pbPrevCredential + hashDataSize) pbEncryptedData

/-- `moves` says that `LocalReAlloc` moves a block that it shrinks. What is then written through
the old pointer is not in the block that is returned. -/
def sacUpdateCredential (moves : Bool) (pbEncryptedData : Bytes)
    (cbPrevCredential pbPrevCredential : ℕ) (pbSAC : Bytes) : Except Hresult Bytes :=
  let cbNewCredential := hashDataSize + pbEncryptedData.length
  if pbSAC.length < sacHeaderSize ∨ pbPrevCredential < sacHeaderSize + 4 ∨
      pbSAC.length < pbPrevCredential + cbPrevCredential then
    throw .accountDbaseCorrupt
  else
    let pbDest := pbPrevCredential + cbNewCredential
    let pbSrc := pbPrevCredential + cbPrevCredential
    if cbPrevCredential < cbNewCredential then
      let cbSACNew := pbSAC.length + (cbNewCredential - cbPrevCredential)
      if maxSecretSize < cbSACNew then
        throw .insufficientBuffer
      else
        let pbSACNew := resize fresh pbSAC cbSACNew
        let pbSACNew :=
          if pbDest < pbSAC.length then
            moveWithin pbSACNew pbDest pbSrc (pbSAC.length - pbSrc)
          else pbSACNew
        pure (writeCredential pbEncryptedData pbPrevCredential pbSACNew)
    else if cbNewCredential < cbPrevCredential then
      let pb := moveWithin pbSAC pbDest pbSrc (pbSAC.length - pbSrc)
      let pbSACNew := resize fresh pb (pbSAC.length - (cbPrevCredential - cbNewCredential))
      pure (if moves then pbSACNew else writeCredential pbEncryptedData pbPrevCredential pbSACNew)
    else pure (writeCredential pbEncryptedData pbPrevCredential pbSAC)

/-- The inner loop of `SACCoalesceDeletedEntries`, which runs over deleted credentials. -/
structure DeletedRun where
  left : ℕ
  pb : ℕ
  pbSrc : ℕ
  cbBytesDeleted : ℕ
  cCredentialsRemoved : ℕ
  cbCredentialSize : ℕ

def skipDeleted (pbSAC : Bytes) (pbSACEnd : ℕ) :
    ℕ → ℕ → ℕ → ℕ → ℕ → ℕ → Except Hresult DeletedRun
  | 0, pb, pbSrc, cb, c, size => pure ⟨0, pb, pbSrc, cb, c, size⟩
  | n + 1, pb, pbSrc, cb, c, size =>
    if pb < pbSACEnd then
      let cbCredentialSize := getDword pbSAC pb
      let pbNext := pb + 4 + cbCredentialSize
      if cbCredentialSize < deletedEntryMarkerSize ∨
          pbSACEnd < pb + 4 + deletedEntryMarkerSize then
        throw .accountDbaseCorrupt
      else if deletedEntry pbSAC (pb + 4) then
        skipDeleted pbSAC pbSACEnd n pbNext pbNext (cb + (4 + cbCredentialSize)) (c + 1)
          cbCredentialSize
      else pure ⟨n + 1, pbNext, pbSrc, cb, c, cbCredentialSize⟩
    else pure ⟨n + 1, pb, pbSrc, cb, c, size⟩

/-- The outer loop, which takes at most `fuel` rounds. It keeps the block, its end and the number
of credentials removed. -/
def coalesceCredentials : ℕ → ℕ → ℕ → ℕ → ℕ → Bytes → Except Hresult (Bytes × ℕ × ℕ)
  | 0, _, _, pbSACEnd, c, pbSAC => pure (pbSAC, pbSACEnd, c)
  | fuel + 1, left, pb, pbSACEnd, c, pbSAC =>
    if 0 < left ∧ pb < pbSACEnd then
      if pbSACEnd < pb + 4 then
        throw .accountDbaseCorrupt
      else do
        let r ← skipDeleted pbSAC pbSACEnd left pb pb 0 0 0
        if pb ≠ r.pbSrc then
          coalesceCredentials fuel (r.left - 1) (pb + 4 + r.cbCredentialSize)
            (pbSACEnd - r.cbBytesDeleted) (c + r.cCredentialsRemoved)
            (moveWithin pbSAC pb r.pbSrc (pbSACEnd - r.pbSrc))
        else coalesceCredentials fuel (r.left - 1) r.pb pbSACEnd (c + r.cCredentialsRemoved) pbSAC
    else pure (pbSAC, pbSACEnd, c)

def sacCoalesceDeletedEntries (pbSAC : Bytes) : Except Hresult Bytes :=
  if pbSAC.length ≤ sacHeaderSize then
    pure pbSAC
  else do
    let dwCredentialCount := getDword pbSAC usnSize
    let (pb, cbSACNew, cCredentialsRemoved) ←
      coalesceCredentials dwCredentialCount dwCredentialCount sacHeaderSize pbSAC.length 0 pbSAC
    let pb := copyAt pb usnSize (dword (dwCredentialCount - cCredentialsRemoved))
    pure (if pbSAC.length ≠ cbSACNew then resize fresh pb cbSACNew else pb)

end sac

end NtAdmin.Sched
