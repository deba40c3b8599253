import Mathlib.Data.List.Basic
import NtAdmin.Sr.Kernel.ParsedPath

/-! The lookup of a parsed path in a path tree: MatchPrefix of ptree.c and MatchEntry of hlist.c. A
blob is its nodes by their indexes, and the data of a node is the path element at its offset. -/
namespace NtAdmin.Sr

/-- The characters of a path element. -/
abbrev Element := List Wchar

def NODE_TYPE_UNKNOWN : ℕ := 0
def NODE_TYPE_INCLUDE : ℕ := 1
def NODE_TYPE_EXCLUDE : ℕ := 2

/-! ### File lists -/

structure ListEntry where
  m_iNext : ℕ
  m_dwData : Element
  m_dwType : ℕ

/-- A hashed list; the first entry of a bucket is behind the index 0. -/
structure HashList where
  m_iHashBuckets : ℕ
  buckets : ℕ → ℕ
  nodes : ℕ → ListEntry

/-- One character of the hash. -/
def hashStep (h : UInt32) (c : Wchar) : UInt32 :=
  let h := (h <<< 4) + c.toUInt32
  let g := h &&& 0xF0000000
  (if g ≠ 0 then h ^^^ (g >>> 24) else h) &&& ~~~g

/-- `HASHSTR`. -/
def HashList.hashStr (pList : HashList) (pStr : Element) : ℕ :=
  (pStr.foldl hashStep 0).toNat % pList.m_iHashBuckets

/-- The loop over a bucket; none where it does not end within `fuel` entries. -/
def HashList.matchLoop (pList : HashList) (pStr : Element) : ℕ → ℕ → Option (Option ℕ)
  | 0, _ => none
  | fuel + 1, iNode =>
    let pEntry := pList.nodes iNode
    if pEntry.m_dwData = pStr then some (some pEntry.m_dwType)
    else if pEntry.m_iNext = 0 then some none
    else pList.matchLoop pStr fuel pEntry.m_iNext

/-- The type of the entry, if there is one. -/
def matchEntry (fuel : ℕ) (pList : HashList) (pStr : Element) : Option (Option ℕ) :=
  let iNode := pList.buckets (pList.hashStr pStr)
  if iNode ≠ 0 then pList.matchLoop pStr fuel iNode else some none

/-! ### Path trees -/

structure TreeNode where
  m_iSon : ℕ
  m_iSibling : ℕ
  m_dwData : Element
  m_dwFileList : Option HashList
  m_dwType : ℕ
  m_dwFlags : ℕ

/-- `TREEFLAGS_DISABLE_SUBTREE` is the lowest flag. -/
def TreeNode.disabled (node : TreeNode) : Bool := node.m_dwFlags % 2 = 1

/-- `g_bWildCardNode`. -/
def wildCard : Element := [42]

/-- What a lookup reports. -/
structure Match where
  pNode : ℤ
  pLevel : ℤ
  pType : ℕ
  pfExactMatch : Bool
  deriving DecidableEq

/-- What the loop over the children leaves: the index it stops at, the index of a wildcard node, and
the node it looked at last. -/
structure Children where
  iNode : ℕ
  iWildCardNode : ℕ
  node : Option TreeNode

/-- The loop over the children from `iNode` on. -/
def childrenLoop (pTree : ℕ → TreeNode) (ppElem : Element) :
    ℕ → ℕ → ℕ → Option TreeNode → Option Children
  | 0, _, _, _ => none
  | fuel + 1, iNode, iWildCardNode, node =>
    if iNode = 0 then some ⟨0, iWildCardNode, node⟩
    else
      let node := pTree iNode
      let iWildCardNode := if node.m_dwData = wildCard then iNode else iWildCardNode
      if node.m_dwData = ppElem then some ⟨iNode, iWildCardNode, some node⟩
      else childrenLoop pTree ppElem fuel node.m_iSibling iWildCardNode (some node)

/-- The result and what is reported; none where a loop does not end within `fuel` rounds, or where a
node is used that was never set. -/
def matchPrefix (pTree : ℕ → TreeNode) (fuel : ℕ) :
    ℕ → List Element → Match → Option (Bool × Match)
  | iFather, [], m => some (true, { m with pNode := iFather, pfExactMatch := true })
  | iFather, ppElem :: rest, m => do
    let m := { m with pLevel := m.pLevel + 1 }
    let father := pTree iFather
    let children ← childrenLoop pTree ppElem fuel father.m_iSon 0 none
    let iNode :=
      if children.iNode = 0 ∧ children.iWildCardNode ≠ 0 ∧ rest ≠ [] then children.iWildCardNode
      else children.iNode
    if iNode ≠ 0 then do
      let node ← children.node
      let m := if node.m_dwType ≠ NODE_TYPE_UNKNOWN then { m with pType := node.m_dwType } else m
      if node.disabled then some (true, { m with pType := NODE_TYPE_EXCLUDE, pNode := iNode })
      else do
        let (fRet, m) ← matchPrefix pTree fuel iNode rest m
        if fRet then some (true, m) else some (false, { m with pLevel := m.pLevel - 1 })
    else if rest = [] then do
      let entry ←
        (father.m_dwFileList.map fun pList => matchEntry fuel pList ppElem).getD (some none)
      match entry with
      | some type => some (true,
          { m with pType := type, pfExactMatch := true, pNode := iFather, pLevel := m.pLevel - 1 })
      | none =>
        if children.iWildCardNode ≠ 0 then
          some (true, { m with
            pNode := children.iWildCardNode
            pType := (pTree children.iWildCardNode).m_dwType
            pLevel := m.pLevel - 1 })
        else some (false, { m with pLevel := m.pLevel - 1 })
    else some (false, { m with pLevel := m.pLevel - 1 })

end NtAdmin.Sr
