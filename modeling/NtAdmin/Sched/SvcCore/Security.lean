import NtAdmin.Sched.SvcCore.Packed

/-! The security databases as the LSA keeps them, and what saving the credentials of a job and
scavenging do to them, of lsa.cxx and security.cxx. -/
namespace NtAdmin.Sched
open Lib

/-- The two secrets. -/
structure Lsa where
  sai : Option Bytes
  sac : Option Bytes

/-- Which of the writes that `WriteSecurityDBase` attempts succeed. -/
structure LsaWrites where
  sai : Bool
  sac : Bool
  restore : Bool

/-- The length of a secret is a `WORD`. -/
def writeLsaData (pbData : Bytes) : Option Bytes := some (pbData.take (pbData.length % 2 ^ 16))

/-- A secret that is no larger than a header counts as none. -/
def readBlock (cbHeader : ℕ) : Option Bytes → Option Bytes
  | none => none
  | some pb => if pb.length ≠ 0 ∧ pb.length ≤ cbHeader then none else some pb

/-- The blocks, which are empty if there are none. Only the first bytes of the update sequence
numbers and of the counts are compared. -/
def readSecurityDBase (lsa : Lsa) : Except Hresult (Bytes × Bytes) :=
  match readBlock saiHeaderSize lsa.sai, readBlock sacHeaderSize lsa.sac with
  | none, none => pure ([], [])
  | some pbSAI, some pbSAC =>
    if pbSAI.getD 0 0 ≠ pbSAC.getD 0 0 ∨ pbSAI.getD usnSize 0 ≠ pbSAC.getD usnSize 0 then
      throw .accountDbaseCorrupt
    else pure (pbSAI, pbSAC)
  | _, _ => throw .accountDbaseCorrupt

def advanceUsn (pb : Bytes) : Bytes := copyAt pb 0 [pb.getD 0 0 + 1]

def writeSecurityDBase (w : LsaWrites) (pbSAI pbSAC : Bytes) (lsa : Lsa) :
    Except Hresult Unit × Lsa :=
  if pbSAI = [] ∨ pbSAC = [] then
    (throw .fail, lsa)
  else if pbSAI.getD usnSize 0 ≠ pbSAC.getD usnSize 0 then
    (throw .fail, lsa)
  else if w.sai then
    let written := { lsa with sai := writeLsaData (advanceUsn pbSAI) }
    if w.sac then
      (pure (), { written with sac := writeLsaData (advanceUsn pbSAC) })
    else if w.restore then
      (throw .fail, { written with sai := writeLsaData (lsa.sai.getD []) })
    else (throw .fail, written)
  else (throw .fail, lsa)

/-- The call that writes one zero as both databases, and advances it twice. -/
def resetSecurityDBase (w : LsaWrites) (lsa : Lsa) : Lsa :=
  if w.sai then
    if w.sac then
      ⟨some (dword 2), some (dword 2)⟩
    else if w.restore then
      { lsa with sai := writeLsaData (lsa.sai.getD []) }
    else { lsa with sai := some (dword 2) }
  else lsa

def errorExit {α : Type} (w : LsaWrites) (hr : Hresult) (lsa : Lsa) : Except Hresult α × Lsa :=
  (throw hr, if hr = .accountDbaseCorrupt then resetSecurityDBase w lsa else lsa)

/-- What `ScavengeSASecurityDBase` finds in the tasks folder: no job, an error before the databases
are read, or the identities that the jobs hash to, unless it bails out on the way. -/
inductive Enumeration
  | noJobs
  | failed
  | jobs (identities : List Bytes) (bailsOut : Bool)

/-- The pointers to the identities of a set. -/
def identityPtrs (pbSAIEnd : ℕ) : ℕ → ℕ → Except Hresult (List (Option ℕ) × ℕ)
  | 0, pb => pure ([], pb)
  | n + 1, pb =>
    if pbSAIEnd < pb + hashDataSize then
      throw .accountDbaseCorrupt
    else do
      let (ptrs, pbEnd) ← identityPtrs pbSAIEnd n (pb + hashDataSize)
      pure (some pb :: ptrs, pbEnd)

def identitySets (pbSAI : Bytes) : ℕ → ℕ → Except Hresult (List (List (Option ℕ)))
  | 0, _ => pure []
  | n + 1, pb =>
    if pbSAI.length < pb + 4 then
      throw .accountDbaseCorrupt
    else do
      let (ptrs, pb) ← identityPtrs pbSAI.length (getDword pbSAI pb) (pb + 4)
      let rest ← identitySets pbSAI n pb
      pure (ptrs :: rest)

def clearPtr (pbIdentity : ℕ) (p : Option ℕ) : Option ℕ := if p = some pbIdentity then none else p

/-- The pointers to the identities of existing jobs are set to `NULL`. -/
def clearExisting (pbSAI : Bytes) :
    List Bytes → List (List (Option ℕ)) → Except Hresult (List (List (Option ℕ)))
  | [], sets => pure sets
  | rgbIdentity :: ids, sets => do
    match ← saiFindIdentity rgbIdentity pbSAI with
    | none => clearExisting pbSAI ids sets
    | some found =>
      clearExisting pbSAI ids (sets.map (List.map (clearPtr found.foundIdentity)))

/-- The credential of a set without remaining identities is marked too. -/
def markCredential (i : ℕ) (pbSAC : Bytes) : Except Hresult Bytes := do
  match ← sacIndexCredential i pbSAC with
  | none => throw .accountDbaseCorrupt
  | some (_, pbCredential) => pure (markDeletedEntry pbSAC pbCredential)

def markIdentities (i : ℕ) :
    List (Option ℕ) → ℕ → Bytes → Bytes → Except Hresult (Bytes × Bytes)
  | [], _, pbSAI, pbSAC => pure (pbSAI, pbSAC)
  | none :: ptrs, dwSetSubCount, pbSAI, pbSAC => markIdentities i ptrs dwSetSubCount pbSAI pbSAC
  | some pb :: ptrs, dwSetSubCount, pbSAI, pbSAC => do
    let pbSAC ← if dwSetSubCount - 1 = 0 then markCredential i pbSAC else pure pbSAC
    markIdentities i ptrs (dwSetSubCount - 1) (markDeletedEntry pbSAI pb) pbSAC

def markSets : ℕ → List (List (Option ℕ)) → Bytes → Bytes → Except Hresult (Bytes × Bytes)
  | _, [], pbSAI, pbSAC => pure (pbSAI, pbSAC)
  | i, ptrs :: sets, pbSAI, pbSAC => do
    let (pbSAI, pbSAC) ← markIdentities i ptrs ptrs.length pbSAI pbSAC
    markSets (i + 1) sets pbSAI pbSAC

section security
variable (fresh : ℕ → UInt8)

/-- The databases without the identities of jobs that do not exist, if any had to go. -/
def removeStale (identities : List Bytes) (pbSAI pbSAC : Bytes) :
    Except Hresult (Option (Bytes × Bytes)) :=
  if pbSAI.length ≤ saiHeaderSize then
    pure none
  else do
    let sets ← identitySets pbSAI (getDword pbSAI usnSize) saiHeaderSize
    let sets ← clearExisting pbSAI identities sets
    let fDirty := sets.any (List.any · Option.isSome)
    let (pbSAI, pbSAC) ← markSets 0 sets pbSAI pbSAC
    if fDirty then
      let pbSAI ← saiCoalesceDeletedEntries fresh pbSAI
      let pbSAC ← sacCoalesceDeletedEntries fresh pbSAC
      pure (some (pbSAI, pbSAC))
    else pure none

def scavengeSASecurityDBase (w : LsaWrites) (folder : Enumeration) (lsa : Lsa) : Lsa :=
  match folder with
  | .noJobs => resetSecurityDBase w lsa
  | .failed => lsa
  | .jobs identities bailsOut =>
    match readSecurityDBase lsa with
    | .error hr => (errorExit (α := Unit) w hr lsa).2
    | .ok (pbSAI, pbSAC) =>
      if bailsOut then
        lsa
      else
        match removeStale fresh identities pbSAI pbSAC with
        | .error hr => (errorExit (α := Unit) w hr lsa).2
        | .ok none => lsa
        | .ok (some (pbSAI, pbSAC)) => (writeSecurityDBase w pbSAI pbSAC lsa).2

/-- The arguments of `SaveJobCredentials` once they are hashed and encrypted, which credentials
the caller has access to, and whether the account is `LocalSystem`. -/
structure SaveRequest where
  rgbIdentity : Bytes
  rgbHashedAccountSid : Bytes
  pbEncryptedData : Bytes
  nullPassword : Bool
  credentialAccessCheck : Bytes → Bool
  localSystem : Bool

/-- A `NULL` password is stored by flipping the last bit of the hash data. -/
def flipLastBit (rgbIdentity : Bytes) : Bytes :=
  copyAt rgbIdentity (hashDataSize - 1) [lastHashByte rgbIdentity ^^^ 1]

def SaveRequest.identity (r : SaveRequest) : Bytes :=
  if r.nullPassword then flipLastBit r.rgbIdentity else r.rgbIdentity

/-- The index, the size and the place of the credential of the account. -/
def credentialLookupAndAccessCheck (r : SaveRequest) (pbSAC : Bytes) :
    Except Hresult (Option (ℕ × ℕ × ℕ)) := do
  match ← sacFindCredential r.rgbHashedAccountSid pbSAC with
  | none => pure none
  | some found =>
    let pbCredential := found.pbEncryptedData - hashDataSize
    if r.credentialAccessCheck (sliceAt pbSAC pbCredential hashDataSize) then
      pure (some (found.credentialIndex, getDword pbSAC (pbCredential - 4), pbCredential))
    else throw .accessDenied

/-- A credential with a password is updated in place, for all jobs of the account. -/
def updateForAccount (moves : Bool) (r : SaveRequest) (cbCredential pbCredential : ℕ)
    (pbSAC : Bytes) : Except Hresult Bytes :=
  if r.nullPassword then
    pure pbSAC
  else sacUpdateCredential fresh moves r.pbEncryptedData cbCredential pbCredential pbSAC

/-- The identity goes to the set of a credential that exists. -/
def insertForCredential (r : SaveRequest) (credentialIndex : ℕ) (pbSAI : Bytes) :
    Except Hresult Bytes := do
  match ← saiIndexIdentity credentialIndex 0 pbSAI with
  | none => throw .accountDbaseCorrupt
  | some (_, _, pbIdentitySet) => saiInsertIdentity fresh r.identity pbIdentitySet pbSAI

/-- A new credential and a set for it. -/
def addCredentialAndIdentity (r : SaveRequest) (pbSAI pbSAC : Bytes) :
    Except Hresult (Bytes × Bytes) := do
  let pbSAC ← sacAddCredential fresh r.rgbHashedAccountSid r.pbEncryptedData pbSAC
  let pbSAI ← saiAddIdentity fresh r.identity pbSAI
  pure (pbSAI, pbSAC)

/-- The part of `SaveJobCredentials` between reading and writing the databases. -/
def saveCredentials (moves : Bool) (r : SaveRequest) (pbSAI pbSAC : Bytes) :
    Except Hresult (Bytes × Bytes) := do
  let found ← saiFindIdentity r.identity pbSAI
  let credentialNew ← credentialLookupAndAccessCheck r pbSAC
  match found with
  | none =>
    match credentialNew with
    | some (credentialIndexNew, cbCredentialNew, pbCredentialNew) =>
      let pbSAI ← insertForCredential fresh r credentialIndexNew pbSAI
      let pbSAC ← updateForAccount fresh moves r cbCredentialNew pbCredentialNew pbSAC
      pure (pbSAI, pbSAC)
    | none => addCredentialAndIdentity fresh r pbSAI pbSAC
  | some found =>
    match ← sacIndexCredential found.credentialIndex pbSAC with
    | none => throw .accountDbaseCorrupt
    | some (cbCredentialPrev, pbCredentialPrev) =>
      if ¬r.nullPassword ∧
          ¬r.credentialAccessCheck (sliceAt pbSAC pbCredentialPrev hashDataSize) then
        throw .accessDenied
      else
        match credentialNew with
        | some (credentialIndexNew, _, _) =>
          if found.credentialIndex ≠ credentialIndexNew then
            let (pbSAI, pbSACNew) ← saiRemoveIdentity fresh found.foundIdentity found.set pbSAI
              found.credentialIndex pbSAC
            -- An earlier credential may have gone with its last identity.
            let credentialIndexNew :=
              if pbSAC.length ≠ pbSACNew.length ∧ found.credentialIndex < credentialIndexNew then
                credentialIndexNew - 1
              else credentialIndexNew
            let pbSAI ← insertForCredential fresh r credentialIndexNew pbSAI
            if r.nullPassword then
              pure (pbSAI, pbSACNew)
            else
              match ← sacIndexCredential credentialIndexNew pbSACNew with
              | none => throw .accountDbaseCorrupt
              | some (cbCredentialNew, pbCredentialNew) =>
                let pbSACNew ← updateForAccount fresh moves r cbCredentialNew pbCredentialNew
                  pbSACNew
                pure (pbSAI, pbSACNew)
          else
            let pbSAC ← updateForAccount fresh moves r cbCredentialPrev pbCredentialPrev pbSAC
            pure (saiUpdateIdentity r.identity found.foundIdentity pbSAI, pbSAC)
        | none =>
          let (pbSAI, pbSAC) ← saiRemoveIdentity fresh found.foundIdentity found.set pbSAI
            found.credentialIndex pbSAC
          addCredentialAndIdentity fresh r pbSAI pbSAC

/-- `err` is the error of the LSA call that fails, if one does. -/
def grantAccountBatchPrivilege : Option ℕ → Except Hresult Unit
  | none => pure ()
  | some err => throw (.win32 err)

/-- The privilege is granted once the databases are written, and its error is that of the call. -/
def storeCredentials (moves : Bool) (w : LsaWrites) (grant : Option ℕ) (r : SaveRequest)
    (pbSAI pbSAC : Bytes) (lsa : Lsa) : Except Hresult Unit × Lsa :=
  match saveCredentials fresh moves r pbSAI pbSAC with
  | .error hr => errorExit w hr lsa
  | .ok (pbSAI, pbSAC) =>
    match writeSecurityDBase w pbSAI pbSAC lsa with
    | (.error hr, lsa) => errorExit w hr lsa
    | (.ok _, lsa) =>
      (if r.localSystem then pure () else grantAccountBatchPrivilege grant, lsa)

/-- The databases might outgrow a secret. -/
def nearlyFull (r : SaveRequest) (pbSAI pbSAC : Bytes) : Prop :=
  maxSecretSize < pbSAI.length + 4 + hashDataSize ∨
    maxSecretSize < pbSAC.length + 4 + hashDataSize + r.pbEncryptedData.length

instance (r : SaveRequest) (pbSAI pbSAC : Bytes) : Decidable (nearlyFull r pbSAI pbSAC) :=
  inferInstanceAs (Decidable (_ ∨ _))

/-- `wScavenge` and `folder` matter if the databases are scavenged first. -/
def saveJobCredentials (moves : Bool) (w wScavenge : LsaWrites) (grant : Option ℕ)
    (folder : Enumeration) (r : SaveRequest) (lsa : Lsa) : Except Hresult Unit × Lsa :=
  match readSecurityDBase lsa with
  | .error hr => errorExit w hr lsa
  | .ok (pbSAI, pbSAC) =>
    if nearlyFull r pbSAI pbSAC then
      let lsa := scavengeSASecurityDBase fresh wScavenge folder lsa
      match readSecurityDBase lsa with
      | .error hr => errorExit w hr lsa
      | .ok (pbSAI, pbSAC) => storeCredentials fresh moves w grant r pbSAI pbSAC lsa
    else storeCredentials fresh moves w grant r pbSAI pbSAC lsa

/-- A job is taken out of the databases. -/
def removeJobIdentity (w : LsaWrites) (rgbIdentity : Bytes) (lsa : Lsa) :
    Except Hresult Unit × Lsa :=
  match readSecurityDBase lsa with
  | .error hr => errorExit w hr lsa
  | .ok (pbSAI, pbSAC) =>
    match saiFindIdentity rgbIdentity pbSAI with
    | .error hr => errorExit w hr lsa
    | .ok none => (throw .accountInformationNotSet, lsa)
    | .ok (some found) =>
      match saiRemoveIdentity fresh found.foundIdentity found.set pbSAI found.credentialIndex
        pbSAC with
      | .error hr => errorExit w hr lsa
      | .ok (pbSAI, pbSAC) => writeSecurityDBase w pbSAI pbSAC lsa

end security

/-- The credential that a job is looked up to have. -/
def lookupCredential (rgbIdentity : Bytes) (lsa : Lsa) : Except Hresult (Option Credential) := do
  let (pbSAI, pbSAC) ← readSecurityDBase lsa
  match ← saiFindIdentity rgbIdentity pbSAI with
  | none => pure none
  | some found =>
    match ← sacIndexCredential found.credentialIndex pbSAC with
    | none => throw .accountDbaseCorrupt
    | some (cbCredential, pbCredential) =>
      pure (some ⟨sliceAt pbSAC pbCredential hashDataSize,
        sliceAt pbSAC (pbCredential + hashDataSize) (cbCredential - hashDataSize)⟩)

end NtAdmin.Sched
