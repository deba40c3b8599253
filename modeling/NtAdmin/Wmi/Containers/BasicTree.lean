import Mathlib.Order.Compare
import Mathlib.Order.Defs.LinearOrder
import Mathlib.Logic.Function.Basic

/-! The search tree of basictree.h and basictree.cpp, as nodes in memory. `none` is a read or a
write through a pointer to no node, or a loop that takes more rounds than its first argument. -/
namespace NtAdmin.Wmi.Containers.BasicTree

/-- The address of a node. -/
abbrev NodePtr := ℕ

inductive WmiStatusCode
  | e_StatusCode_Success
  | e_StatusCode_AlreadyExists
  | e_StatusCode_NotFound
  | e_StatusCode_OutOfMemory
  | e_StatusCode_Unknown
  deriving DecidableEq

open WmiStatusCode

structure WmiBasicNode (Key Element : Type) where
  m_Key : Key
  m_Element : Element
  m_Left : Option NodePtr
  m_Right : Option NodePtr
  m_Parent : Option NodePtr

/-- The nodes in memory. -/
abbrev Heap (Key Element : Type) := NodePtr → Option (WmiBasicNode Key Element)

/-- The size does not wrap. -/
structure WmiBasicTree where
  m_Root : Option NodePtr
  m_Size : ℕ

/-- What comes of allocating a node and copying key and element to it: an address that is not in
use, or the error that `Insert` returns. -/
structure Allocation (Key Element : Type) where
  new : Heap Key Element → Except WmiStatusCode NodePtr
  fresh : ∀ heap p, new heap = .ok p → heap p = none
  failed : ∀ heap error, new heap = .error error → error ≠ e_StatusCode_Success

variable {Key Element : Type}

namespace Heap
variable (heap : Heap Key Element)

def put (p : NodePtr) (node : WmiBasicNode Key Element) : Heap Key Element :=
  Function.update heap p (some node)

def modify (p : NodePtr) (f : WmiBasicNode Key Element → WmiBasicNode Key Element) :
    Option (Heap Key Element) :=
  (heap p).map fun node => heap.put p (f node)

/-- `if ( p ) p->m_Parent = parent`. -/
def setParent (p parent : Option NodePtr) : Option (Heap Key Element) :=
  match p with
  | some p => heap.modify p fun node => { node with m_Parent := parent }
  | none => some heap

/-- `m_Allocator.Delete`. -/
def free (p : NodePtr) : Heap Key Element := Function.update heap p none

/-- The private `LeftMost`. -/
def leftMost : ℕ → NodePtr → Option NodePtr
  | 0, _ => none
  | fuel + 1, p => do
    match (← heap p).m_Left with
    | some left => leftMost fuel left
    | none => some p

/-- The loop of `Increment` up the tree. -/
def ascend : ℕ → NodePtr → Option (Option NodePtr)
  | 0, _ => none
  | fuel + 1, p => do
    match (← heap p).m_Parent with
    | some parent =>
      if (← heap parent).m_Right = some p then ascend fuel parent else some (some parent)
    | none => some none

/-- `Iterator::Increment`. -/
def increment (fuel : ℕ) (p : NodePtr) : Option (Option NodePtr) := do
  match (← heap p).m_Right with
  | some right => (heap.leftMost fuel right).map some
  | none => heap.ascend fuel p

end Heap

section Operations
variable [LinearOrder Key]

/-- The loop of `Insert` from a node down. -/
def insertLoop (a_Key : Key) (a_Element : Element) (alloc : Allocation Key Element) :
    ℕ → NodePtr → Heap Key Element → Option (WmiStatusCode × Heap Key Element)
  | 0, _, _ => none
  | fuel + 1, t_Node, heap => do
    let node ← heap t_Node
    match compare a_Key node.m_Key with
    | .eq => some (e_StatusCode_AlreadyExists, heap)
    | .lt =>
      match node.m_Left with
      | some left => insertLoop a_Key a_Element alloc fuel left heap
      | none =>
        match alloc.new heap with
        | .error error => some (error, heap)
        | .ok t_AllocNode => do
          let heap := heap.put t_AllocNode ⟨a_Key, a_Element, none, none, some t_Node⟩
          let heap ← heap.modify t_Node fun node => { node with m_Left := some t_AllocNode }
          some (e_StatusCode_Success, heap)
    | .gt =>
      match node.m_Right with
      | some right => insertLoop a_Key a_Element alloc fuel right heap
      | none =>
        match alloc.new heap with
        | .error error => some (error, heap)
        | .ok t_AllocNode => do
          let heap := heap.put t_AllocNode ⟨a_Key, a_Element, none, none, some t_Node⟩
          let heap ← heap.modify t_Node fun node => { node with m_Right := some t_AllocNode }
          some (e_StatusCode_Success, heap)

/-- `Insert`. -/
def insert (tree : WmiBasicTree) (a_Key : Key) (a_Element : Element)
    (alloc : Allocation Key Element) (heap : Heap Key Element) :
    Option (WmiStatusCode × WmiBasicTree × Heap Key Element) :=
  match tree.m_Root with
  | some root => do
    let r ← insertLoop a_Key a_Element alloc tree.m_Size root heap
    if r.1 = e_StatusCode_Success then some (r.1, { tree with m_Size := tree.m_Size + 1 }, r.2)
    else some (r.1, tree, r.2)
  | none =>
    match alloc.new heap with
    | .error error => some (error, tree, heap)
    | .ok t_AllocNode =>
      some (e_StatusCode_Success, ⟨some t_AllocNode, tree.m_Size + 1⟩,
        heap.put t_AllocNode ⟨a_Key, a_Element, none, none, none⟩)

/-- The loop of `Find` and `Delete`. -/
def search (heap : Heap Key Element) (a_Key : Key) :
    ℕ → Option NodePtr → Option (Option NodePtr)
  | _, none => some none
  | 0, some _ => none
  | fuel + 1, some t_Node => do
    let node ← heap t_Node
    match compare a_Key node.m_Key with
    | .eq => some (some t_Node)
    | .lt => search heap a_Key fuel node.m_Left
    | .gt => search heap a_Key fuel node.m_Right

/-- `if ( t_Parent ) ...`: `p` takes the place of `a_Node` in its parent, or in the root. -/
def replaceChild (t_Parent : Option NodePtr) (a_Node : NodePtr) (p : Option NodePtr)
    (m_Root : Option NodePtr) (heap : Heap Key Element) :
    Option (Option NodePtr × Heap Key Element) :=
  match t_Parent with
  | some parent => do
    let heap ← heap.modify parent fun node =>
      if node.m_Left = some a_Node then { node with m_Left := p } else { node with m_Right := p }
    some (m_Root, heap)
  | none => some (p, heap)

/-- `DeleteFixup` for a node with two children. -/
def fixupInner (fuel : ℕ) (a_Node : NodePtr) (m_Root : Option NodePtr) (heap : Heap Key Element) :
    Option (Option NodePtr × Heap Key Element) := do
  let node ← heap a_Node
  let t_Successor ← (← heap.increment fuel a_Node)
  let r ← replaceChild node.m_Parent a_Node (some t_Successor) m_Root heap
  if (← r.2 t_Successor).m_Parent ≠ some a_Node then
    let heap ← r.2.setParent node.m_Left (some t_Successor)
    let heap ← heap.setParent node.m_Right (some t_Successor)
    let successor ← heap t_Successor
    let t_Node ← successor.m_Parent
    let heap ← heap.modify t_Node fun x => { x with m_Left := successor.m_Right }
    let heap ← heap.setParent successor.m_Left (some t_Node)
    let heap ← heap.setParent successor.m_Right (some t_Node)
    let heap ← heap.modify t_Successor fun x =>
      { x with m_Left := node.m_Left, m_Right := node.m_Right, m_Parent := node.m_Parent }
    some (r.1, heap)
  else
    let heap ← r.2.setParent node.m_Left (some t_Successor)
    let heap ← heap.setParent node.m_Right (some t_Successor)
    let heap ← heap.modify t_Successor fun x =>
      { x with m_Left := node.m_Left, m_Parent := node.m_Parent }
    some (r.1, heap)

/-- `DeleteFixup` for a node with one child at most. -/
def fixupOuter (a_Node : NodePtr) (m_Root : Option NodePtr) (heap : Heap Key Element) :
    Option (Option NodePtr × Heap Key Element) := do
  let node ← heap a_Node
  let heap ← heap.setParent (node.m_Left.or node.m_Right) node.m_Parent
  replaceChild node.m_Parent a_Node (node.m_Left.or node.m_Right) m_Root heap

/-- `DeleteFixup`. -/
def deleteFixup (fuel : ℕ) (a_Node : NodePtr) (m_Root : Option NodePtr) (heap : Heap Key Element) :
    Option (Option NodePtr × Heap Key Element) := do
  let node ← heap a_Node
  let r ← (if node.m_Left.isSome ∧ node.m_Right.isSome then fixupInner fuel a_Node m_Root heap
    else fixupOuter a_Node m_Root heap)
  some (r.1, r.2.free a_Node)

/-- `Delete`. `freed` is what the allocator returns for a node that it takes back. -/
def delete (tree : WmiBasicTree) (a_Key : Key) (freed : WmiStatusCode) (heap : Heap Key Element) :
    Option (WmiStatusCode × WmiBasicTree × Heap Key Element) := do
  match ← search heap a_Key tree.m_Size tree.m_Root with
  | some t_Node =>
    let r ← deleteFixup tree.m_Size t_Node tree.m_Root heap
    some (freed, ⟨r.1, tree.m_Size - 1⟩, r.2)
  | none => some (e_StatusCode_NotFound, tree, heap)

/-- `Find`, with the node of the iterator. -/
def find (tree : WmiBasicTree) (a_Key : Key) (heap : Heap Key Element) :
    Option (WmiStatusCode × Option NodePtr) := do
  match ← search heap a_Key tree.m_Size tree.m_Root with
  | some t_Node => some (e_StatusCode_Success, some t_Node)
  | none => some (e_StatusCode_NotFound, none)

/-- The loop of `FindNext`; `rounds` is for `Increment`. -/
def findNextLoop (heap : Heap Key Element) (a_Key : Key) (rounds : ℕ) :
    ℕ → NodePtr → Option (Option NodePtr)
  | 0, _ => none
  | fuel + 1, t_Node => do
    let node ← heap t_Node
    match compare a_Key node.m_Key with
    | .eq => heap.increment rounds t_Node
    | .lt =>
      match node.m_Left with
      | some left => findNextLoop heap a_Key rounds fuel left
      | none => some (some t_Node)
    | .gt =>
      match node.m_Right with
      | some right => findNextLoop heap a_Key rounds fuel right
      | none => heap.increment rounds t_Node

/-- `FindNext`. -/
def findNext (tree : WmiBasicTree) (a_Key : Key) (heap : Heap Key Element) :
    Option (WmiStatusCode × Option NodePtr) :=
  match tree.m_Root with
  | none => some (e_StatusCode_NotFound, none)
  | some root => do
    match ← findNextLoop heap a_Key tree.m_Size tree.m_Size root with
    | some t_Node => some (e_StatusCode_Success, some t_Node)
    | none => some (e_StatusCode_NotFound, none)

/-- `Begin`. -/
def begin (tree : WmiBasicTree) (heap : Heap Key Element) : Option (Option NodePtr) :=
  match tree.m_Root with
  | none => some none
  | some root => (heap.leftMost tree.m_Size root).map some

/-- The keys and elements that a caller sees who goes on by `Increment` to the end. -/
def walk (heap : Heap Key Element) (rounds : ℕ) :
    ℕ → Option NodePtr → Option (List (Key × Element))
  | _, none => some []
  | 0, some _ => none
  | fuel + 1, some p => do
    let node ← heap p
    let next ← heap.increment rounds p
    (walk heap rounds fuel next).map fun rest => (node.m_Key, node.m_Element) :: rest

/-- An iteration from `Begin`. -/
def iterate (tree : WmiBasicTree) (heap : Heap Key Element) : Option (List (Key × Element)) := do
  let first ← begin tree heap
  walk heap tree.m_Size tree.m_Size first

/-- The loop of `Merge`. Allocations and answers of the allocator are given round by round. -/
def mergeLoop (alloc : ℕ → Allocation Key Element) (freed : ℕ → WmiStatusCode) :
    ℕ → WmiStatusCode → WmiBasicTree → WmiBasicTree → Heap Key Element →
      Option (WmiStatusCode × WmiBasicTree × WmiBasicTree × Heap Key Element)
  | 0, _, _, _, _ => none
  | fuel + 1, t_StatusCode, tree, a_Tree, heap =>
    match a_Tree.m_Root with
    | none => some (t_StatusCode, tree, a_Tree, heap)
    | some t_Iterator => do
      if t_StatusCode ≠ e_StatusCode_Success then some (t_StatusCode, tree, a_Tree, heap)
      else
        let node ← heap t_Iterator
        let r ← insert tree node.m_Key node.m_Element (alloc fuel) heap
        if r.1 = e_StatusCode_Success then
          let d ← delete a_Tree node.m_Key (freed fuel) r.2.2
          mergeLoop alloc freed fuel d.1 r.2.1 d.2.1 d.2.2
        else mergeLoop alloc freed fuel r.1 r.2.1 a_Tree r.2.2

/-- `Merge`. -/
def merge (alloc : ℕ → Allocation Key Element) (freed : ℕ → WmiStatusCode)
    (tree a_Tree : WmiBasicTree) (heap : Heap Key Element) :
    Option (WmiStatusCode × WmiBasicTree × WmiBasicTree × Heap Key Element) :=
  mergeLoop alloc freed (a_Tree.m_Size + 2) e_StatusCode_Success tree a_Tree heap

end Operations

end NtAdmin.Wmi.Containers.BasicTree
