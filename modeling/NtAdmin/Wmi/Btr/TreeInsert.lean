import Mathlib.Data.List.Dedup
import NtAdmin.Wmi.Btr.KeyEncoding
import NtAdmin.Wmi.Btr.TreeIterator

/-! Inserting keys into the B-tree of btr.cpp, with the splits of its pages. Memory can be
allocated, and the pages of the file can be written. -/
namespace NtAdmin.Wmi.Btr
open Lib Win32Error

/-- The return codes of a tree: those of its pages and of the file, and two more. -/
inductive TreeError
  | page (dwRes : Win32Error)
  | ERROR_ALREADY_EXISTS
  | ERROR_NOT_FOUND
  deriving DecidableEq

/-- A page in memory with its keys decoded. It may need more memory than a page of the file has. -/
structure KeyPage where
  dwPageId : UInt32
  keys : List Entry
  childPageMap : List UInt32

/-- The tokens of a key that `AddKey` took. -/
def tokensOf (key : Key) : List (List UInt8) := (parseIntoTokens key.1).toOption.getD []

/-- The strings in the pool of a page: each token of its keys once. -/
def poolStrings (keys : List Entry) : List (List UInt8) :=
  (keys.flatMap fun entry => tokensOf entry.1).dedup

/-- The bytes that strings take in the pool. -/
def poolBytes (strings : List (List UInt8)) : ℕ := (strings.map fun s => s.length + 1).sum

namespace KeyPage
variable (page : KeyPage)

/-- `SIdxKeyTable::Create` for a new page. -/
def create (dwPageId : UInt32) : KeyPage := ⟨dwPageId, [], [0]⟩

def getNumKeys : ℕ := page.keys.length
def getChildPage (wID : ℕ) : UInt32 := page.childPageMap.getD wID 0

def setChildPage (wID : ℕ) (dwPage : UInt32) : KeyPage :=
  { page with childPageMap := page.childPageMap.set wID dwPage }

/-- `GetRequiredPageMemory`, from the keys: a page has no strings but those of its keys. -/
def getRequiredPageMemory : ℕ :=
  poolBytes (poolStrings page.keys) + (poolStrings page.keys).length * sizeofWORD + sizeofDWORD +
    sizeofDWORD + (sizeofDWORD + sizeofWORD * page.getNumKeys) +
      (sizeofDWORD + sizeofDWORD * page.getNumKeys) +
        (sizeofDWORD + sizeofDWORD * (page.getNumKeys + 1)) +
          (sizeofWORD + sizeofWORD * (page.keys.map fun entry => (tokensOf entry.1).length + 1).sum) +
            sizeofDWORD * 4 + sizeofDWORD * 2

/-- Whether the key is on the page, and where it is or would be. -/
def findKey (pszSearchKey : Key) : Except Win32Error (Bool × ℕ) :=
  if pszSearchKey.1 = [] then .error ERROR_INVALID_PARAMETER
  else if page.keys = [] then .ok (false, 0)
  else
    .ok (binarySearch (fun entry => compare (keyStrCompare pszSearchKey entry.1) 0)
      page.keys page.keys.length 0 page.keys.length 0)

/-- `AddKey`. The memory behind the child pages is zero on a leaf; on other pages the caller sets
the entry that is read there. -/
def addKey (pszStr : Key) (wKeyID : ℕ) (dwUserData : UInt32) : Except Win32Error KeyPage :=
  if pszStr.1 = [] then .error ERROR_INVALID_PARAMETER
  else
    match parseIntoTokens pszStr.1 with
    | .error dwRes => .error dwRes
    | .ok pszStrings =>
      let keys := page.keys.take wKeyID ++ (pszStr, dwUserData) :: page.keys.drop wKeyID
      if (pszStrings.any fun pszTok => !(poolStrings page.keys).contains pszTok) ∧
          MAX_WORD_VALUE < poolBytes (poolStrings keys) - 1 then
        .error ERROR_INSUFFICIENT_BUFFER
      else
        .ok { page with
          keys := keys
          childPageMap := if page.getNumKeys - wKeyID = 0 then page.childPageMap ++ [0]
            else page.childPageMap.take wKeyID ++
              page.getChildPage wKeyID :: page.childPageMap.drop wKeyID }

/-- `RemoveKey`. The last key of a page takes the last child page with it. -/
def removeKey (wID : ℕ) : KeyPage :=
  { page with
    keys := page.keys.eraseIdx wID
    childPageMap := if page.getNumKeys - wID - 1 = 0 then page.childPageMap.dropLast
      else page.childPageMap.eraseIdx wID }

/-- The loop of `Redist` that moves the first keys of `this` to the new sibling. The flag is false
where the function has returned `NO_ERROR` because the sibling had the key. -/
def moveKeys : ℕ → KeyPage → KeyPage → Except Win32Error (Bool × KeyPage × KeyPage)
  | 0, this, pNewSibling => .ok (true, this, pNewSibling)
  | dwToTransfer + 1, this, pNewSibling =>
    match this.keys with
    | [] => .error ERROR_INVALID_PARAMETER
    | (pStr, dwUserData) :: _ => do
      match ← pNewSibling.findKey pStr with
      | (true, _) => .ok (false, this, pNewSibling)
      | (false, wID) =>
        let pNewSibling ← pNewSibling.addKey pStr wID dwUserData
        moveKeys dwToTransfer (this.removeKey 0) (pNewSibling.setChildPage wID (this.getChildPage 0))

/-- `Redist`: `this`, the parent and the new sibling behind the call. -/
def redist (pParent pNewSibling : KeyPage) : Except Win32Error (KeyPage × KeyPage × KeyPage) := do
  if page.getNumKeys < 3 then .error ERROR_INVALID_DATA
  else
    match ← moveKeys (page.getNumKeys / 2) page pNewSibling with
    | (false, this, pNewSibling) => .ok (this, pParent, pNewSibling)
    | (true, this, pNewSibling) =>
      let pNewSibling := pNewSibling.setChildPage pNewSibling.getNumKeys (this.getChildPage 0)
      match this.keys with
      | [] => .error ERROR_INVALID_PARAMETER
      | (pStr, dwUserData) :: _ =>
        match ← pParent.findKey pStr with
        | (true, _) => .ok (this, pParent, pNewSibling)
        | (false, wID) =>
          let pParent ← pParent.addKey pStr wID dwUserData
          let this := this.removeKey 0
          .ok (this, (pParent.setChildPage wID pNewSibling.dwPageId).setChildPage (wID + 1)
            this.dwPageId, pNewSibling)

end KeyPage

/-- The index file: its pages and the state of the page source that hands out new ones. -/
structure CBTreeFile (σ : Type) where
  pages : UInt32 → Except Win32Error KeyPage
  m_dwLogicalRoot : UInt32
  source : σ

/-- A tree. `m_pRoot` is a cache of the root page, and may be empty. A page that is changed in memory
while it is the cached one is given to `m_pRoot` when it is written; until then only its id is read. -/
structure CBTree (σ : Type) where
  m_pSrc : CBTreeFile σ
  m_pRoot : Option KeyPage

namespace CBTree

section Calls
variable {σ : Type} (dwPageSize : ℕ) (newPage : σ → Except Win32Error (UInt32 × σ))
  (tree : CBTree σ)

def readIdxPage (dwPage : UInt32) : Except Win32Error KeyPage :=
  tree.m_pSrc.pages dwPage

/-- `CBTreeFile::NewPage`: the id of the new page. -/
def allocPage : Except Win32Error (UInt32 × CBTree σ) := do
  let (dwPage, source) ← newPage tree.m_pSrc.source
  .ok (dwPage, { tree with m_pSrc := { tree.m_pSrc with source := source } })

def setRootPage (dwNewRoot : UInt32) : CBTree σ :=
  { tree with m_pSrc := { tree.m_pSrc with m_dwLogicalRoot := dwNewRoot } }

def writeIdxPage (pIdx : KeyPage) : Except Win32Error (CBTree σ) :=
  if dwPageSize < pIdx.getRequiredPageMemory then .error ERROR_INVALID_PARAMETER
  else
    let tree := { tree with m_pSrc := { tree.m_pSrc with
      pages := Function.update tree.m_pSrc.pages pIdx.dwPageId (.ok pIdx) } }
    -- Check for a root update.
    if tree.m_pRoot.map KeyPage.dwPageId = some pIdx.dwPageId then
      .ok ({ tree with m_pRoot := some pIdx }.setRootPage pIdx.dwPageId)
    else .ok tree

/-- `InvalidateCache`, and the root page that it reads. -/
def invalidateCache : Except Win32Error (KeyPage × CBTree σ) := do
  let pRoot ← tree.readIdxPage tree.m_pSrc.m_dwLogicalRoot
  .ok (pRoot, { tree with m_pRoot := some pRoot })

def flushCaches : CBTree σ := { tree with m_pRoot := none }

/-- The root that a call begins with. -/
def cachedRoot : Except Win32Error (KeyPage × CBTree σ) :=
  match tree.m_pRoot with
  | some pRoot => .ok (pRoot, tree)
  | none => tree.invalidateCache

/-- The loop of `Search`: whether the key was found, the page and the place on it, and the stack, top
first. What a push behind the end of the stack does is not defined, and is an error of this model. -/
def searchLoop (pszKey : Key) :
    ℕ → KeyPage → List UInt32 → Except Win32Error (Bool × KeyPage × ℕ × List UInt32)
  | 0, _, _ => .error ERROR_INSUFFICIENT_BUFFER
  | fuel + 1, pIdx, stack => do
    match ← pIdx.findKey pszKey with
    | (true, wID) => .ok (true, pIdx, wID, stack)
    | (false, wID) =>
      if pIdx.getChildPage wID = 0 then .ok (false, pIdx, wID, stack)
      else
        let pChild ← tree.readIdxPage (pIdx.getChildPage wID)
        searchLoop pszKey fuel pChild (pIdx.dwPageId :: stack)

/-- `Search`, from the root with the sentinel on the stack. -/
def search (pRoot : KeyPage) (pszKey : Key) :
    Except Win32Error (Bool × KeyPage × ℕ × List UInt32) :=
  if pszKey.1 = [] then .error ERROR_INVALID_PARAMETER
  else tree.searchLoop pszKey (const_MaxStack - 1) pRoot [0]

/-- The parent of a page that is to be split: a new root in front of the old one, the cached root, or
a page of the file. -/
def parentPage (dwParent : UInt32) : Except Win32Error (KeyPage × CBTree σ) := do
  if dwParent = 0 then
    let (dwNewParent, tree) ← tree.allocPage newPage
    let pParent := KeyPage.create dwNewParent
    .ok (pParent, { tree.setRootPage dwNewParent with m_pRoot := some pParent })
  else
    match tree.m_pRoot with
    | some pRoot =>
      if dwParent = pRoot.dwPageId then .ok (pRoot, tree)
      else
        let pParent ← tree.readIdxPage dwParent
        .ok (pParent, tree)
    | none =>
      let pParent ← tree.readIdxPage dwParent
      .ok (pParent, tree)

/-- One round of the loop of `InsertPhase2`, for a page that is too big, with the parent's id from the
stack: the parent, which is the next page to look at. -/
def splitPage (pCurrent : KeyPage) (dwParent : UInt32) : Except Win32Error (KeyPage × CBTree σ) := do
  let (pParent, tree) ← tree.parentPage newPage dwParent
  let (dwNewSib, tree) ← tree.allocPage newPage
  let (pCurrent, pParent, pSibling) ← pCurrent.redist pParent (KeyPage.create dwNewSib)
  let tree ← tree.writeIdxPage dwPageSize pCurrent
  let tree ← tree.writeIdxPage dwPageSize pSibling
  .ok (pParent, tree)

/-- The split and migration loop of `InsertPhase2`. What is read in front of the stack is not defined,
and is an error of this model. -/
def splitLoop (tree : CBTree σ) (pCurrent : KeyPage) : List UInt32 → Except Win32Error (CBTree σ)
  | [] =>
    if pCurrent.getRequiredPageMemory ≤ dwPageSize then tree.writeIdxPage dwPageSize pCurrent
    else .error ERROR_INVALID_DATA
  | dwParent :: stack => do
    if pCurrent.getRequiredPageMemory ≤ dwPageSize then tree.writeIdxPage dwPageSize pCurrent
    else
      let (pParent, tree) ← tree.splitPage dwPageSize newPage pCurrent dwParent
      splitLoop tree pParent stack

/-- `InsertPhase2` with a key. -/
def insertPhase2 (pCurrent : KeyPage) (wID : ℕ) (pszKey : Key) (dwValue : UInt32)
    (stack : List UInt32) : Except Win32Error (CBTree σ) := do
  let pCurrent ← pCurrent.addKey pszKey wID dwValue
  splitLoop dwPageSize newPage tree pCurrent stack

/-- The search that a call begins with, and the tree with its root cached. -/
def searchRoot (pszKey : Key) :
    Except Win32Error (CBTree σ × Bool × KeyPage × ℕ × List UInt32) := do
  let (pRoot, tree) ← tree.cachedRoot
  let result ← tree.search pRoot pszKey
  .ok (tree, result)

/-- `InsertKey`. After an error the caller gives the tree up, unless the key exists. -/
def insertKey (pszKey : Key) (dwValue : UInt32) : Except TreeError (CBTree σ) :=
  match tree.searchRoot pszKey with
  | .error dwRes => .error (.page dwRes)
  | .ok (_, true, _) => .error .ERROR_ALREADY_EXISTS
  | .ok (tree, false, pIdx, wID, stack) =>
    (tree.insertPhase2 dwPageSize newPage pIdx wID pszKey dwValue stack).mapError .page

/-- `FindKey`: the user data. -/
def findKey (pszKey : Key) : Except TreeError UInt32 :=
  match tree.searchRoot pszKey with
  | .error dwRes => .error (.page dwRes)
  | .ok (_, true, pIdx, wID, _) => .ok ((pIdx.keys[wID]?.map Prod.snd).getD 0)
  | .ok (_, false, _) => .error .ERROR_NOT_FOUND

end Calls

/-- `Init`, on a file whose root has been read. -/
def init {σ : Type} (dwPageSize : ℕ) (newPage : σ → Except Win32Error (UInt32 × σ))
    (pSrc : CBTreeFile σ) : Except Win32Error (CBTree σ) := do
  if pSrc.m_dwLogicalRoot = 0 then
    let (dwPageNum, tree) ← allocPage newPage ⟨pSrc, none⟩
    let pRoot := KeyPage.create dwPageNum
    ({ tree.setRootPage dwPageNum with m_pRoot := some pRoot } : CBTree σ).writeIdxPage
      dwPageSize pRoot
  else
    let (_, tree) ← invalidateCache ⟨pSrc, none⟩
    .ok tree

/-- A call on a tree. -/
inductive Call
  | insertKey (pszKey : Key) (dwValue : UInt32)
  | findKey (pszKey : Key)
  | flushCaches
  | reopen

/-- The tree behind a search. -/
def searched {σ : Type} (tree : CBTree σ) (pszKey : Key) : Except TreeError (CBTree σ) :=
  match tree.searchRoot pszKey with
  | .error dwRes => .error (.page dwRes)
  | .ok (tree, _) => .ok tree

/-- The tree behind a call that did not fail; a key that exists is no failure. -/
def step {σ : Type} (dwPageSize : ℕ) (newPage : σ → Except Win32Error (UInt32 × σ))
    (tree : CBTree σ) : Call → Except TreeError (CBTree σ)
  | .insertKey pszKey dwValue =>
    match tree.insertKey dwPageSize newPage pszKey dwValue with
    | .error .ERROR_ALREADY_EXISTS => tree.searched pszKey
    | result => result
  | .findKey pszKey => tree.searched pszKey
  | .flushCaches => .ok tree.flushCaches
  | .reopen => (init dwPageSize newPage tree.m_pSrc).mapError .page

end CBTree

end NtAdmin.Wmi.Btr
