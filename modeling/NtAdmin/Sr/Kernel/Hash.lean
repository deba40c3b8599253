import Mathlib.Algebra.Group.Int.Defs
import Mathlib.Logic.Function.Basic
import NtAdmin.Sr.Kernel.ParsedPath

/-! The hashed names of hash.c: buckets of sorted entries, in a pool by their addresses. -/
namespace NtAdmin.Sr

/-- What the library knows of characters and names: `RtlUpcaseUnicodeChar`, `towlower`, and the hash
of the characters of a name in upper case, where `RtlHashUnicodeString` succeeds. -/
structure Nls where
  upcase : Wchar → Wchar
  towlower : Wchar → Wchar
  hash : List Wchar → Option ℕ

inductive NtStatus
  | STATUS_SUCCESS
  | STATUS_DUPLICATE_OBJECTID
  | STATUS_OBJECT_NAME_NOT_FOUND
  | STATUS_INSUFFICIENT_RESOURCES
  | STATUS_INVALID_DEVICE_REQUEST
  | STATUS_INVALID_PARAMETER
  deriving DecidableEq

/-- `HASH_KEY`: the characters of a file name, and those of a stream name behind them. -/
structure HashKey where
  FileName : List Wchar
  StreamName : List Wchar
  deriving DecidableEq

namespace HashKey

def Buffer (key : HashKey) : List Wchar := key.FileName ++ key.StreamName

/-- The length of the file name in bytes. -/
def Length (key : HashKey) : ℕ := 2 * key.FileName.length

def StreamNameLength (key : HashKey) : ℕ := 2 * key.StreamName.length

/-- `HASH_KEY_LENGTH`. -/
def keyLength (key : HashKey) : ℕ := key.Length + key.StreamNameLength

end HashKey

structure HashEntry where
  HashValue : ℕ
  Key : HashKey
  pContext : ℕ

/-- The entries that are used; `UsedCount` is their number. -/
structure HashBucket where
  AllocCount : ℕ
  Entries : List HashEntry

def HashBucket.UsedCount (pBucket : HashBucket) : ℕ := pBucket.Entries.length

structure HashHeader where
  BucketCount : ℕ
  UsedLength : ℕ
  AllowedLength : ℕ
  LastTrimTime : ℤ
  PrefixLength : ℕ
  Buckets : ℕ → Option ℕ
  pool : ℕ → Option HashBucket

def HASH_ENTRY_DEFAULT_WIDTH : ℕ := 10
def NANO_FULL_SECOND : ℕ := 10000000
def SrEventInvalid : ℕ := 0

/-- `HashCreateList`, where it succeeds. -/
def HashHeader.create (BucketCount AllowedLength PrefixLength : ℕ) : HashHeader :=
  ⟨BucketCount, 0, AllowedLength, 0, PrefixLength, fun _ => none, fun _ => none⟩

/-- The bucket that a pointer of the header points to. -/
def HashHeader.bucket (h : HashHeader) (Index : ℕ) : Option HashBucket :=
  (h.Buckets Index).bind h.pool

section names
variable (nls : Nls)

def Nls.rtlHashUnicodeString (name : List Wchar) : Option ℕ := nls.hash (name.map nls.upcase)

/-- `RtlEqualUnicodeString`, without regard to case. -/
def Nls.rtlEqualUnicodeString (name name' : List Wchar) : Bool :=
  name.map nls.upcase = name'.map nls.upcase

/-- `_wcsnicmp` on at most `count` characters. -/
def Nls.wcsnicmp : ℕ → List Wchar → List Wchar → ℤ
  | count + 1, first :: firsts, last :: lasts =>
    let f := nls.towlower first
    let l := nls.towlower last
    if f ≠ 0 ∧ f = l then Nls.wcsnicmp count firsts lasts else (f.toNat : ℤ) - l.toNat
  | _, _, _ => 0

inductive Compared
  | CONTINUE
  | FOUND
  | NOT_FOUND

open Compared

def hashpCompareStreams (pKey : HashKey) (pEntry : HashEntry) : Compared :=
  if pKey.StreamNameLength = 0 ∧ pEntry.Key.StreamNameLength = 0 then FOUND
  else if pKey.StreamNameLength < pEntry.Key.StreamNameLength then NOT_FOUND
  else if pKey.StreamNameLength = pEntry.Key.StreamNameLength then
    let offsetToStream := pKey.Length / 2
    let temp := nls.wcsnicmp (pKey.StreamNameLength / 2) (pKey.Buffer.drop offsetToStream)
      (pEntry.Key.Buffer.drop offsetToStream)
    if temp > 0 then CONTINUE else if temp = 0 then FOUND else NOT_FOUND
  else CONTINUE

def hashpCompare (pHeader : HashHeader) (HashValue : ℕ) (pKey : HashKey) (pEntry : HashEntry) :
    Compared :=
  if HashValue > pEntry.HashValue then CONTINUE
  else if HashValue = pEntry.HashValue then
    if pKey.Length < pEntry.Key.Length then NOT_FOUND
    else if pKey.Length = pEntry.Key.Length then
      let offsetToFileName := pHeader.PrefixLength / 2
      let temp := nls.wcsnicmp (pKey.Length / 2 - offsetToFileName)
        (pKey.Buffer.drop offsetToFileName) (pEntry.Key.Buffer.drop offsetToFileName)
      if temp > 0 then CONTINUE
      else if temp = 0 then hashpCompareStreams nls pKey pEntry
      else NOT_FOUND
    else CONTINUE
  else NOT_FOUND

/-- The walk through the sorted entries: the context, if there is one, and the index. -/
def hashpFindLoop (pHeader : HashHeader) (HashValue : ℕ) (pKey : HashKey) :
    List HashEntry → ℕ → Option ℕ × ℕ
  | [], Index => (none, Index)
  | pEntry :: entries, Index =>
    match hashpCompare nls pHeader HashValue pKey pEntry with
    | NOT_FOUND => (none, Index)
    | FOUND => (some pEntry.pContext, Index)
    | CONTINUE => hashpFindLoop pHeader HashValue pKey entries (Index + 1)

/-- The context that is found, or else `STATUS_OBJECT_NAME_NOT_FOUND`, and the index. -/
def hashpFindEntry (pHeader : HashHeader) (pBucket : Option HashBucket) (HashValue : ℕ)
    (pKey : HashKey) : Option ℕ × ℕ :=
  match pBucket with
  | none => (none, 0)
  | some pBucket => hashpFindLoop nls pHeader HashValue pKey pBucket.Entries 0

/-- The context, where `HashFindEntry` succeeds. -/
def hashFindEntry (pHeader : HashHeader) (pKey : HashKey) : Option ℕ := do
  let HashValue ← nls.rtlHashUnicodeString pKey.FileName
  (hashpFindEntry nls pHeader (pHeader.bucket (HashValue % pHeader.BucketCount)) HashValue pKey).1

end names

/-! ### Throwing entries away -/

/-- The rounds for one bucket, in `HashClearEntries` and in `HashTrimList`; with the entries that
are thrown away. -/
def throwAway (pHeader : HashHeader) (Index : ℕ) : HashHeader × List HashEntry :=
  match pHeader.Buckets Index with
  | none => (pHeader, [])
  | some p =>
    match pHeader.pool p with
    | none => (pHeader, [])
    | some pBucket =>
      ({ pHeader with
          UsedLength := pBucket.Entries.foldl
            (fun used pEntry => (used + (2 ^ 32 - pEntry.Key.keyLength % 2 ^ 32)) % 2 ^ 32)
            pHeader.UsedLength
          pool := Function.update pHeader.pool p (some { pBucket with Entries := [] }) },
        pBucket.Entries)

def clearLoop : List ℕ → HashHeader → HashHeader × List HashEntry
  | [], pHeader => (pHeader, [])
  | Index :: rest, pHeader =>
    let (pHeader, thrown) := throwAway pHeader Index
    let (pHeader, thrown') := clearLoop rest pHeader
    (pHeader, thrown ++ thrown')

def hashClearEntries (pHeader : HashHeader) : HashHeader × List HashEntry :=
  let (pHeader, thrown) := clearLoop (List.range pHeader.BucketCount) pHeader
  ({ pHeader with LastTrimTime := 0 }, thrown)

/-- The loop of `HashTrimList`; `clock` are the times that are read in it. -/
def trimLoop (clock : ℕ → ℤ) (EndTime : ℤ) (EndLength : ℕ) :
    List ℕ → HashHeader → HashHeader × List HashEntry
  | [], pHeader => (pHeader, [])
  | Index :: rest, pHeader =>
    let (pHeader, thrown) := throwAway pHeader Index
    if EndTime ≤ clock Index then (pHeader, thrown)
    else if pHeader.UsedLength ≤ EndLength then (pHeader, thrown)
    else
      let (pHeader, thrown') := trimLoop clock EndTime EndLength rest pHeader
      (pHeader, thrown ++ thrown')

/-- The divisor of what to trim and the seconds for it. -/
def trimShare (MinutesSinceTrim : ℕ) : ℕ × ℕ :=
  if MinutesSinceTrim < 10 then (3, 8) else if MinutesSinceTrim < 60 then (5, 4) else (10, 2)

/-- The times that a trim reads: at the start, when it notes the trim, and behind every bucket. -/
structure TrimClock where
  CurrentTime : ℤ
  LastTrimTime : ℤ
  loop : ℕ → ℤ

def hashTrimList (clock : TrimClock) (pHeader : HashHeader) : HashHeader × List HashEntry :=
  let MinutesSinceTrim :=
    if pHeader.LastTrimTime = 0 then 0xffffffff
    else ((clock.CurrentTime - pHeader.LastTrimTime) % 2 ^ 32).toNat / NANO_FULL_SECOND
  let (MaxPercentDivisor, MaxTime) := trimShare MinutesSinceTrim
  let EndTime := clock.CurrentTime + MaxTime * NANO_FULL_SECOND
  let EndLength := pHeader.UsedLength - pHeader.UsedLength / MaxPercentDivisor
  trimLoop clock.loop EndTime EndLength (List.range pHeader.BucketCount)
    { pHeader with LastTrimTime := clock.LastTrimTime }

/-! ### Adding an entry -/

/-- The pool gives an address that is not in use, or none. -/
def allocate (pool : ℕ → Option HashBucket) (address : Option ℕ) : Option ℕ :=
  address.filter fun p => (pool p).isNone

def HashHeader.free (pHeader : HashHeader) (p : ℕ) : HashHeader :=
  { pHeader with pool := Function.update pHeader.pool p none }

/-- Where the block of `HashAddEntry` is left. -/
structure AddLocals where
  Status : NtStatus
  pHeader : HashHeader
  pBucket : Option ℕ
  pOldBucket : Option ℕ

open NtStatus

/-- The entry is written at the index, with those behind it shifted. -/
def insertEntry (pHeader : HashHeader) (Bucket p : ℕ) (pBucket : HashBucket) (Index : ℕ)
    (pEntry : HashEntry) : HashHeader :=
  { pHeader with
    Buckets := Function.update pHeader.Buckets Bucket (some p)
    UsedLength := (pHeader.UsedLength + pEntry.Key.keyLength) % 2 ^ 32
    pool := Function.update pHeader.pool p (some { pBucket with
      Entries := pBucket.Entries.take Index ++ pEntry :: pBucket.Entries.drop Index }) }

/-- The name is not in the bucket yet: a bucket with room, then a buffer for the key. -/
def addNewEntry (pHeader : HashHeader) (Bucket Index : ℕ) (pEntry : HashEntry)
    (address : Option ℕ) (keyBuffer : Bool) : AddLocals :=
  match pHeader.Buckets Bucket, pHeader.bucket Bucket with
  | some old, some pBucket =>
    if pBucket.UsedCount + 1 > pBucket.AllocCount then
      match allocate pHeader.pool address with
      | none => ⟨STATUS_INSUFFICIENT_RESOURCES, pHeader, some old, none⟩
      | some new =>
        let pNewBucket := { pBucket with AllocCount := pBucket.AllocCount * 2 }
        if keyBuffer then
          ⟨STATUS_SUCCESS, insertEntry pHeader Bucket new pNewBucket Index pEntry, some new,
            some old⟩
        else
          ⟨STATUS_INSUFFICIENT_RESOURCES,
            { pHeader with pool := Function.update pHeader.pool new (some pNewBucket) }, some new,
            some old⟩
    else if keyBuffer then
      ⟨STATUS_SUCCESS, insertEntry pHeader Bucket old pBucket Index pEntry, some old, none⟩
    else ⟨STATUS_INSUFFICIENT_RESOURCES, pHeader, some old, none⟩
  | _, _ =>
    match allocate pHeader.pool address with
    | none => ⟨STATUS_INSUFFICIENT_RESOURCES, pHeader, none, none⟩
    | some new =>
      let pBucket : HashBucket := ⟨HASH_ENTRY_DEFAULT_WIDTH, []⟩
      if keyBuffer then
        ⟨STATUS_SUCCESS, insertEntry pHeader Bucket new pBucket Index pEntry, some new, none⟩
      else
        ⟨STATUS_INSUFFICIENT_RESOURCES,
          { pHeader with pool := Function.update pHeader.pool new (some pBucket) }, some new, none⟩

/-- The context of the entry at the index. -/
def setContext (pHeader : HashHeader) (p : ℕ) (Index pContext : ℕ) : HashHeader :=
  { pHeader with pool := Function.update pHeader.pool p ((pHeader.pool p).map fun pBucket =>
      { pBucket with
        Entries := pBucket.Entries.modify Index fun pEntry =>
          { pEntry with pContext := pContext } }) }

/-- What is freed when the block is left. -/
def addFinally (Bucket : ℕ) (locals : AddLocals) : HashHeader :=
  if locals.Status ≠ STATUS_DUPLICATE_OBJECTID ∧ locals.Status ≠ STATUS_SUCCESS then
    match locals.pBucket with
    | some p =>
      if locals.pHeader.Buckets Bucket ≠ some p then locals.pHeader.free p else locals.pHeader
    | none => locals.pHeader
  else
    match locals.pOldBucket with
    | some p => locals.pHeader.free p
    | none => locals.pHeader

/-- The status, the header, and the entries that were trimmed. `address` and `keyBuffer` are what
the pool gives. -/
def hashAddEntry (nls : Nls) (pHeader : HashHeader) (pKey : HashKey) (pContext : ℕ)
    (address : Option ℕ) (keyBuffer : Bool) (clock : TrimClock) :
    NtStatus × HashHeader × List HashEntry :=
  let (pHeader, thrown) :=
    if pHeader.UsedLength > pHeader.AllowedLength then hashTrimList clock pHeader else (pHeader, [])
  match nls.rtlHashUnicodeString pKey.FileName with
  | none => (STATUS_INVALID_PARAMETER, pHeader, thrown)
  | some HashValue =>
    let Bucket := HashValue % pHeader.BucketCount
    let locals : AddLocals :=
      match hashpFindEntry nls pHeader (pHeader.bucket Bucket) HashValue pKey with
      | (some _, Index) =>
        match pHeader.Buckets Bucket with
        | none => ⟨STATUS_INVALID_DEVICE_REQUEST, pHeader, none, none⟩
        | some p => ⟨STATUS_DUPLICATE_OBJECTID, setContext pHeader p Index pContext, some p, none⟩
      | (none, Index) =>
        addNewEntry pHeader Bucket Index ⟨HashValue, pKey, pContext⟩ address keyBuffer
    (locals.Status, addFinally Bucket locals, thrown)

/-- The status, and the header with the context of every entry of the file cleared. -/
def hashClearAllFileEntries (nls : Nls) (pHeader : HashHeader) (pFileName : List Wchar) :
    NtStatus × HashHeader :=
  match nls.rtlHashUnicodeString pFileName with
  | none => (STATUS_INVALID_PARAMETER, pHeader)
  | some HashValue =>
    match pHeader.Buckets (HashValue % pHeader.BucketCount) with
    | none => (STATUS_SUCCESS, pHeader)
    | some p =>
      (STATUS_SUCCESS,
        { pHeader with pool := Function.update pHeader.pool p ((pHeader.pool p).map fun pBucket =>
            { pBucket with Entries := pBucket.Entries.map fun pEntry =>
              if nls.rtlEqualUnicodeString pFileName pEntry.Key.FileName then
                { pEntry with pContext := SrEventInvalid }
              else pEntry }) })

end NtAdmin.Sr
