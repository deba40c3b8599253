import Mathlib.Data.Nat.Notation
import Mathlib.Logic.Function.Basic
import NtAdmin.Lib.Prog

/-! The restore list of reslist.cpp: nodes by their addresses, and the merging of log entries. -/
namespace NtAdmin.Sr
open Lib

/-- The `OPR_` constants. -/
inductive Operation
  | unknown
  | fileDelete
  | fileRename
  | fileAdd
  | fileModify
  | dirDelete
  | dirCreate
  | dirRename
  | setAttrib
  | setAcl
  deriving DecidableEq

def isRename (op : Operation) : Bool := op = .fileRename ∨ op = .dirRename

def getReverseOperation : Operation → Operation
  | .fileDelete => .fileAdd
  | .fileAdd => .fileDelete
  | .fileModify => .fileModify
  | .setAttrib => .setAttrib
  | .fileRename => .fileRename
  | .dirRename => .dirRename
  | .dirDelete => .dirCreate
  | .dirCreate => .dirDelete
  | .setAcl => .setAcl
  | .unknown => .unknown

def canMerge (dwExistingOpr dwNewOpr : Operation) : Bool :=
  if dwExistingOpr = .dirRename ∨ dwNewOpr = .dirRename then false
  else if isRename dwNewOpr ∧ (dwExistingOpr = .dirDelete ∨ dwExistingOpr = .fileDelete) then false
  else if isRename dwExistingOpr ∧
      (dwNewOpr = .dirDelete ∨ dwNewOpr = .dirCreate ∨ dwNewOpr = .fileDelete) then false
  else if isRename dwNewOpr ∧ (dwExistingOpr = .dirDelete ∨ dwExistingOpr = .dirCreate) then false
  else if (dwExistingOpr = .fileDelete ∨ dwExistingOpr = .fileModify ∨ dwExistingOpr = .fileAdd) ∧
      (dwNewOpr = .dirCreate ∨ dwNewOpr = .dirDelete) then false
  else if (dwNewOpr = .fileDelete ∨ dwNewOpr = .fileAdd ∨ dwNewOpr = .fileModify) ∧
      (dwExistingOpr = .dirCreate ∨ dwExistingOpr = .dirDelete) then false
  else true

def noAttributes : UInt32 := 0xFFFFFFFF
def FILE_ATTRIBUTE_DIRECTORY : UInt32 := 0x10

/-- A node. An ACL comes with its size. -/
structure CNode (Path : Type) where
  m_pNext : Option ℕ
  m_pPrev : Option ℕ
  m_dwOperation : Operation
  m_dwAttributes : UInt32
  m_pszTemp : Option Path
  m_pbAcl : Option (List UInt8)
  m_fAclInline : Bool
  m_pPath1 : Option Path
  m_pPath2 : Option Path

/-- What is added: the fields of an entry of the change log. -/
structure LogEntry (Path : Type) where
  dwOpr : Operation
  dwAttr : UInt32
  pTmpFile : Option Path
  pPath1 : Option Path
  pPath2 : Option Path
  pbAcl : Option (List UInt8)
  fAclInline : Bool

/-- What the system knows of paths: whether `lstrcmpi` returns 0, whether `StrStrI` finds its second
argument in its first, and which files of the datastore exist. -/
structure Shell (Path : Type) where
  same : Option Path → Option Path → Bool
  strStrI : Option Path → Option Path → Bool
  tempExists : Path → Bool
  aclExists : List UInt8 → Bool

/-- The list and the heap. An address is never used twice. -/
structure RestoreList (Path : Type) where
  m_pListHead : Option ℕ
  m_pListTail : Option ℕ
  heap : ℕ → Option (CNode Path)
  fresh : ℕ

def RestoreList.new (Path : Type) : RestoreList Path := ⟨none, none, fun _ => none, 0⟩

/-- An access of a node that is not allocated, or a node that is freed while it is linked. -/
structure AccessFault

abbrev ListM (Path : Type) := Prog (RestoreList Path) AccessFault

variable {Path : Type}

def node (pNode : ℕ) : ListM Path (CNode Path) := do
  match (← get).heap pNode with
  | some n => pure n
  | none => throw ⟨⟩

/-- The node gets new contents. -/
def put (pNode : ℕ) (n : CNode Path) : ListM Path PUnit := do
  let _ ← node pNode
  modify fun s => { s with heap := Function.update s.heap pNode (some n) }

/-- `AllocateNode`. An allocation that fails raises an exception. -/
def allocateNode (pPath1 pPath2 : Option Path) : ListM Path ℕ := do
  let s ← get
  set { s with
    heap := Function.update s.heap s.fresh
      (some ⟨none, none, .unknown, noAttributes, none, none, false, pPath1, pPath2⟩)
    fresh := s.fresh + 1 }
  pure s.fresh

def freeNode (pNode : ℕ) : ListM Path PUnit := do
  let n ← node pNode
  let s ← get
  if n.m_pNext.isSome ∨ n.m_pPrev.isSome ∨ s.m_pListHead = some pNode ∨ s.m_pListTail = some pNode
  then throw ⟨⟩
  else set { s with heap := Function.update s.heap pNode none }

/-- `AppendNode`, for a path that is not null. -/
def appendNode (pPath1 pPath2 : Option Path) : ListM Path ℕ := do
  let pNode ← allocateNode pPath1 pPath2
  let s ← get
  match s.m_pListHead, s.m_pListTail with
  | some _, some pPrevNode => do
    let prev ← node pPrevNode
    put pPrevNode { prev with m_pNext := some pNode }
    let n ← node pNode
    put pNode { n with m_pPrev := some pPrevNode, m_pNext := none }
    modify fun s => { s with m_pListTail := some pNode }
    pure pNode
  | some _, none => throw ⟨⟩
  | none, _ => do
    modify fun s => { s with m_pListHead := some pNode, m_pListTail := some pNode }
    let n ← node pNode
    put pNode { n with m_pPrev := none, m_pNext := none }
    pure pNode

def setNext (pPrevNode : Option ℕ) (next : Option ℕ) : ListM Path PUnit :=
  match pPrevNode with
  | none => pure ⟨⟩
  | some p => do
    let n ← node p
    put p { n with m_pNext := next }

def setPrev (pNextNode : Option ℕ) (prev : Option ℕ) : ListM Path PUnit :=
  match pNextNode with
  | none => pure ⟨⟩
  | some p => do
    let n ← node p
    put p { n with m_pPrev := prev }

def removeNode (pNode : ℕ) : ListM Path PUnit := do
  let n ← node pNode
  setNext n.m_pPrev n.m_pNext
  setPrev n.m_pNext n.m_pPrev
  modify fun s => { s with
    m_pListHead := if s.m_pListHead = some pNode then n.m_pNext else s.m_pListHead
    m_pListTail := if s.m_pListTail = some pNode then n.m_pPrev else s.m_pListTail }
  let n' ← node pNode
  put pNode { n' with m_pPrev := none, m_pNext := none }

/-- A node that is removed and freed. -/
def dropNode (pNode : ℕ) : ListM Path PUnit := do
  removeNode pNode
  freeNode pNode

section merging
variable (shell : Shell Path)

/-- What the search does at a node. -/
inductive Examined
  | goOn
  | found
  | stop
  deriving DecidableEq

/-- A rename, or the life of a directory. -/
def isDirectoryLife (op : Operation) : Bool :=
  isRename op ∨ op = .dirDelete ∨ op = .dirCreate

def examine (pPath1 pPath2 : Option Path) (fFailOnPrefixMatch : Bool) (n : CNode Path) : Examined :=
  let op := n.m_dwOperation
  if op = .unknown then .goOn
  else if shell.same pPath1 n.m_pPath1 then .found
  else if pPath1.isSome ∧ isRename op ∧ shell.same pPath1 n.m_pPath2 then .stop
  else if pPath2.isSome ∧ isRename op ∧ shell.same pPath2 n.m_pPath2 then .stop
  else if fFailOnPrefixMatch then
    if shell.strStrI n.m_pPath1 pPath1 then .stop
    else if isRename op ∧ shell.strStrI n.m_pPath2 pPath1 then .stop
    else if isDirectoryLife op then
      if shell.strStrI pPath1 n.m_pPath1 then .stop
      else if isRename op ∧ shell.strStrI pPath1 n.m_pPath2 then .stop
      else if pPath2.isSome ∧ shell.strStrI pPath2 n.m_pPath1 then .stop
      else if pPath2.isSome ∧ isRename op ∧ shell.strStrI pPath2 n.m_pPath2 then .stop
      else .goOn
    else .goOn
  else .goOn

/-- A later operation on a directory of the destination of a rename. -/
def dependsOn (pNode pTmpNode : CNode Path) : Bool :=
  isDirectoryLife pTmpNode.m_dwOperation ∧
    (shell.strStrI pNode.m_pPath2 pTmpNode.m_pPath1 ∨
      isRename pTmpNode.m_dwOperation ∧ shell.strStrI pNode.m_pPath2 pTmpNode.m_pPath2)

/-- The search from a node backward; the rounds are at most the nodes that were allocated. -/
def searchBack (pPath1 pPath2 : Option Path) (fFailOnPrefixMatch : Bool) :
    ℕ → Option ℕ → ListM Path (Option ℕ)
  | _, none => pure none
  | 0, some _ => throw ⟨⟩
  | rounds + 1, some p => do
    let n ← node p
    match examine shell pPath1 pPath2 fFailOnPrefixMatch n with
    | .goOn => searchBack pPath1 pPath2 fFailOnPrefixMatch rounds n.m_pPrev
    | .found => pure (some p)
    | .stop => pure none

/-- The check of the nodes behind a rename, from the tail to it. -/
def checkBehind (pNode : ℕ) (des : CNode Path) : ℕ → Option ℕ → ListM Path (Option ℕ)
  | _, none => pure (some pNode)
  | 0, some _ => throw ⟨⟩
  | rounds + 1, some p =>
    if p = pNode then pure (some pNode)
    else do
      let n ← node p
      if dependsOn shell des n then pure none else checkBehind pNode des rounds n.m_pPrev

def getLastNode (pPath1 pPath2 : Option Path) (fFailOnPrefixMatch : Bool) :
    ListM Path (Option ℕ) := do
  let s ← get
  match ← searchBack shell pPath1 pPath2 fFailOnPrefixMatch (s.fresh + 1) s.m_pListTail with
  | none => pure none
  | some p => do
    let n ← node p
    if isRename n.m_dwOperation then checkBehind shell p n (s.fresh + 1) s.m_pListTail
    else pure (some p)

/-- `CopyAcl`. -/
def CNode.copyAcl (n : CNode Path) (pbAcl : Option (List UInt8)) (fAclInline : Bool) : CNode Path :=
  match pbAcl with
  | some acl => { n with m_pbAcl := some acl, m_fAclInline := fAclInline }
  | none => n

/-- `STRCOPY` to the name of the temporary file. -/
def CNode.copyTemp (n : CNode Path) (pTmpFile : Option Path) : CNode Path :=
  { n with m_pszTemp := pTmpFile.or n.m_pszTemp }

/-- `CopyNode`; the node that is copied from keeps a second path that moves only until it is freed. -/
def copyNode (src des : CNode Path) (fReplacePPath2 : Bool) : CNode Path :=
  let src := { src with m_dwOperation := des.m_dwOperation, m_dwAttributes := des.m_dwAttributes }
  let src := (src.copyTemp des.m_pszTemp).copyAcl des.m_pbAcl des.m_fAclInline
  if isRename des.m_dwOperation ∧ fReplacePPath2 then { src with m_pPath2 := des.m_pPath2 } else src

/-- A rename with other operations, without the rename. -/
def CNode.withoutRename (n : CNode Path) : CNode Path :=
  { n with
    m_pPath1 := n.m_pPath2
    m_pPath2 := none
    m_dwOperation := if n.m_pszTemp.isSome then .fileModify
      else if n.m_pbAcl.isSome then .setAcl else .setAttrib }

/-- What a file rename becomes that is merged with the node of its destination. -/
def mergeRename (n des : CNode Path) (dwRestoreOpr : Operation) (pPath2 : Option Path) :
    CNode Path :=
  let dwCurNodeOpr := n.m_dwOperation
  let op := des.m_dwOperation
  let n := copyNode n des true
  let n := if op = .setAttrib ∨ op = .setAcl ∨ op = .fileModify then
    { n with m_dwOperation := dwRestoreOpr, m_pPath2 := pPath2.or n.m_pPath2 } else n
  let n := if op = .fileAdd ∧ dwCurNodeOpr = .fileDelete then
    { n with m_dwOperation := .fileModify } else n
  let n := if op = .dirCreate ∧ dwCurNodeOpr = .dirDelete then
    { n with m_dwOperation := .setAttrib } else n
  if n.m_dwOperation ≠ .fileRename then { n with m_pPath2 := none } else n

/-- The information of an entry in a node that is new. -/
def CNode.fill (n : CNode Path) (e : LogEntry Path) : CNode Path :=
  let n := { n with m_dwOperation := getReverseOperation e.dwOpr, m_dwAttributes := e.dwAttr }
  (n.copyTemp e.pTmpFile).copyAcl e.pbAcl e.fAclInline

def createRestoreNode (pNode : ℕ) (e : LogEntry Path) : ListM Path Bool := do
  let dwRestoreOpr := getReverseOperation e.dwOpr
  let n ← node pNode
  if isRename dwRestoreOpr ∧ shell.same n.m_pPath1 n.m_pPath2 then do
    dropNode pNode
    pure true
  else if dwRestoreOpr = .fileRename then do
    match ← getLastNode shell e.pPath2 e.pPath1 true with
    | some pNodeDes => do
      let des ← node pNodeDes
      if des.m_dwOperation ≠ .unknown then
        if des.m_dwOperation = .fileRename ∧ shell.same n.m_pPath1 des.m_pPath2 then do
          -- the renames cancel
          if des.m_pszTemp.isNone ∧ des.m_dwAttributes = noAttributes ∧ des.m_pbAcl.isNone then
            dropNode pNodeDes
          else put pNodeDes des.withoutRename
          pure false
        else do
          removeNode pNodeDes
          let n ← node pNode
          put pNode (mergeRename n des dwRestoreOpr e.pPath2)
          freeNode pNodeDes
          pure true
      else do
        put pNode (n.fill e)
        pure true
    | none => do
      put pNode (n.fill e)
      pure true
  else do
    put pNode (n.fill e)
    pure true

/-- The information of an entry in a node that exists. -/
def CNode.mergeFill (n : CNode Path) (e : LogEntry Path) : CNode Path :=
  let n := { n with
    m_dwOperation := getReverseOperation e.dwOpr
    m_dwAttributes := if e.dwAttr ≠ noAttributes then e.dwAttr else n.m_dwAttributes }
  (n.copyTemp e.pTmpFile).copyAcl e.pbAcl e.fAclInline

/-- A rename that becomes a deletion, of its second path. -/
def CNode.toDelete (n : CNode Path) (op : Operation) : CNode Path :=
  { n with m_dwOperation := op, m_pPath1 := n.m_pPath2, m_pPath2 := none }

def mergeRestoreNode (pNode : ℕ) (e : LogEntry Path) : ListM Path Bool := do
  let n ← node pNode
  let op := n.m_dwOperation
  match e.dwOpr with
  | .fileAdd =>
    if op = .fileAdd then dropNode pNode
    else if isRename op then put pNode (n.toDelete .fileDelete)
    else put pNode (n.mergeFill e)
  | .fileDelete =>
    if op = .fileDelete then
      put pNode (({ n with m_dwOperation := .fileModify, m_dwAttributes := e.dwAttr }.copyTemp
        e.pTmpFile).copyAcl e.pbAcl e.fAclInline)
    else put pNode (n.mergeFill e)
  | .fileModify =>
    if op = .fileAdd ∨ isRename op then put pNode (n.copyTemp e.pTmpFile)
    else put pNode (n.mergeFill e)
  | .setAttrib =>
    if op ≠ .unknown then put pNode { n with m_dwAttributes := e.dwAttr }
    else put pNode (n.mergeFill e)
  | .setAcl =>
    if op ≠ .unknown then put pNode (n.copyAcl e.pbAcl e.fAclInline)
    else put pNode (n.mergeFill e)
  | .dirDelete =>
    if op = .dirDelete then
      put pNode ({ n with m_dwOperation := .setAttrib, m_dwAttributes := e.dwAttr }.copyAcl
        e.pbAcl e.fAclInline)
    else put pNode (n.mergeFill e)
  | .dirCreate =>
    if op = .dirCreate then dropNode pNode
    else if isRename op then do
      match ← getLastNode shell n.m_pPath1 none true with
      | some _ => put pNode (n.toDelete .dirDelete)
      | none => do
        let pNewNode ← appendNode e.pPath1 e.pPath2
        let _ ← createRestoreNode shell pNewNode e
        pure ⟨⟩
    else put pNode (n.mergeFill e)
  | _ => put pNode (n.mergeFill e)
  pure true

/-- `CheckIntegrity`. -/
def checkIntegrity (e : LogEntry Path) : Bool :=
  if e.pPath1.isNone then false
  else if e.pbAcl.any (fun acl => ¬ e.fAclInline ∧ ¬ shell.aclExists acl) then false
  else
    match e.dwOpr with
    | .fileRename | .dirRename => e.pPath2.isSome ∧ e.pTmpFile.isNone
    | .fileModify => e.pPath2.isNone ∧ e.pTmpFile.any shell.tempExists
    | .setAcl => e.pbAcl.isSome
    | _ => true

/-- A node that an entry other than a rename is merged into. -/
def mergeCandidate (e : LogEntry Path) : ListM Path (Option ℕ) :=
  if isRename e.dwOpr then pure none
  else do
    match ← getLastNode shell e.pPath1 e.pPath2 true with
    | none => pure none
    | some pNode => do
      let n ← node pNode
      pure (if canMerge n.m_dwOperation e.dwOpr then some pNode else none)

def addMergeElement (e : LogEntry Path) : ListM Path Bool :=
  if checkIntegrity shell e then do
    match ← mergeCandidate shell e with
    | some pNode => mergeRestoreNode shell pNode e
    | none => do
      let pNode ← appendNode e.pPath1 e.pPath2
      let fRet ← createRestoreNode shell pNode e
      if fRet then pure true
      else do
        dropNode pNode
        pure true
  else pure false

/-! ### The restore map -/

/-- An entry of the map. -/
structure MapRecord (Path : Type) where
  dwOperation : Operation
  dwAttribute : UInt32
  pTmpFile : Option Path
  pPathSrc : Option Path
  pPathDes : Option Path
  pbAcl : Option (List UInt8)
  fAclInline : Bool

/-- The file, with the results of the writes to it: what is written, how many writes there were, and
whether each succeeds. -/
structure MapFile (Path : Type) where
  records : List (MapRecord Path)
  writes : ℕ
  writeFile : ℕ → Bool

/-- `AppendRestoreMapEntry`. -/
def appendEntry (r : MapRecord Path) (hFile : MapFile Path) : Bool × MapFile Path :=
  if r.pPathSrc.isNone then (false, hFile)
  else
    let fRet := hFile.writeFile hFile.writes
    (fRet, { hFile with
      records := if fRet then hFile.records ++ [r] else hFile.records
      writes := hFile.writes + 1 })

/-- An entry behind others; the result is that of the last one. -/
def appendIf (c : Bool) (r : MapRecord Path) (state : Bool × MapFile Path) : Bool × MapFile Path :=
  if c then appendEntry r state.2 else state

def CNode.attribRecord (n : CNode Path) : MapRecord Path :=
  ⟨.setAttrib, n.m_dwAttributes, none, n.m_pPath1, none, none, false⟩

def CNode.aclRecord (n : CNode Path) : MapRecord Path :=
  ⟨.setAcl, noAttributes, none, n.m_pPath1, none, n.m_pbAcl, n.m_fAclInline⟩

/-- Attributes that are set, other than those of a directory alone. -/
def CNode.hasAttributes (n : CNode Path) : Bool :=
  n.m_dwAttributes ≠ noAttributes ∧ n.m_dwAttributes ≠ FILE_ATTRIBUTE_DIRECTORY

/-- An ACL of a size other than 0. -/
def CNode.hasAcl (n : CNode Path) : Bool := n.m_pbAcl.any fun acl => acl ≠ []

def generateRenameEntry (n : CNode Path) (hFile : MapFile Path) : Bool × MapFile Path :=
  if isRename n.m_dwOperation then
    let first := appendIf (¬ shell.same n.m_pPath1 n.m_pPath2)
      ⟨n.m_dwOperation, noAttributes, none, n.m_pPath1, n.m_pPath2, none, false⟩ (false, hFile)
    let second := appendIf n.m_pszTemp.isSome
      ⟨.fileModify, noAttributes, n.m_pszTemp, n.m_pPath1, none, none, false⟩ first
    appendIf n.hasAcl n.aclRecord (appendIf n.hasAttributes n.attribRecord second)
  else (false, hFile)

def generateOperation (n : CNode Path) (hFile : MapFile Path) : Bool × MapFile Path :=
  let op := n.m_dwOperation
  if op = .unknown then (false, hFile)
  else if isRename op then generateRenameEntry shell n hFile
  else
    let first := appendEntry
      ⟨op, if op = .setAttrib then n.m_dwAttributes else noAttributes,
        if op = .fileModify ∨ op = .fileAdd then n.m_pszTemp else none, n.m_pPath1, none,
        if op = .setAcl then n.m_pbAcl else none, if op = .setAcl then n.m_fAclInline else false⟩
      hFile
    let second := appendIf
      (op ≠ .setAttrib ∧ op ≠ .fileDelete ∧ op ≠ .dirDelete ∧ n.hasAttributes) n.attribRecord first
    appendIf (n.hasAcl ∧ op ≠ .setAcl ∧ op ≠ .fileDelete ∧ op ≠ .dirDelete) n.aclRecord second

/-- The loop over the list; the rounds are at most the nodes that were allocated. -/
def generateLoop : ℕ → Option ℕ → MapFile Path → ListM Path (Bool × MapFile Path)
  | _, none, hFile => pure (true, hFile)
  | 0, some _, _ => throw ⟨⟩
  | rounds + 1, some p, hFile => do
    let n ← node p
    let (fRet, hFile) := generateOperation shell n hFile
    if fRet then generateLoop rounds n.m_pNext hFile else pure (false, hFile)

/-- `GenerateRestoreMap`, for a file that is open. -/
def generateRestoreMap (hFile : MapFile Path) : ListM Path (Bool × MapFile Path) := do
  let s ← get
  generateLoop shell (s.fresh + 1) s.m_pListHead hFile

end merging

end NtAdmin.Sr
