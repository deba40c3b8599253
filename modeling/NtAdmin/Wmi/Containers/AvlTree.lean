import NtAdmin.Lib.Avl
import Mathlib.Order.Defs.LinearOrder
import Mathlib.Logic.Function.Basic
import Mathlib.Order.Lattice

/-! The search tree of avltree.h and avltree.cpp, as nodes in memory. `none` is a read or a write
through a pointer to no node, or a loop that takes more rounds than its first argument. -/
namespace NtAdmin.Wmi.Containers

open NtAdmin.Lib.Avl

/-- The address of a node. -/
abbrev NodePtr := ℕ

abbrev WmAvlState := Balance

@[match_pattern] abbrev WmAvlState.e_Equal : WmAvlState := .equal
@[match_pattern] abbrev WmAvlState.e_LeftHigher : WmAvlState := .higher .left
@[match_pattern] abbrev WmAvlState.e_RightHigher : WmAvlState := .higher .right

inductive AvlStatus
  | e_StatusCode_Success
  | e_StatusCode_AlreadyExists
  | e_StatusCode_NotFound
  deriving DecidableEq

structure WmiAvlNode (Key Element : Type) where
  m_Key : Key
  m_Left : Option NodePtr
  m_Right : Option NodePtr
  m_Parent : Option NodePtr
  m_State : WmAvlState
  m_Element : Element

namespace WmiAvlNode
variable {Key Element : Type}

/-- `m_Left` or `m_Right`. -/
def child (s : Side) (n : WmiAvlNode Key Element) : Option NodePtr :=
  match s with
  | .left => n.m_Left
  | .right => n.m_Right

def setChild (s : Side) (p : Option NodePtr) (n : WmiAvlNode Key Element) :
    WmiAvlNode Key Element :=
  match s with
  | .left => { n with m_Left := p }
  | .right => { n with m_Right := p }

end WmiAvlNode

/-- The size does not wrap. -/
structure WmiAvlTree (Key Element : Type) where
  node : NodePtr → Option (WmiAvlNode Key Element)
  m_Root : Option NodePtr
  m_Size : ℕ

namespace WmiAvlTree
variable {Key Element : Type}

def empty : WmiAvlTree Key Element where
  node _ := none
  m_Root := none
  m_Size := 0

def put (p : NodePtr) (n : WmiAvlNode Key Element) (t : WmiAvlTree Key Element) :
    WmiAvlTree Key Element :=
  { t with node := Function.update t.node p (some n) }

def modify (p : NodePtr) (f : WmiAvlNode Key Element → WmiAvlNode Key Element)
    (t : WmiAvlTree Key Element) : Option (WmiAvlTree Key Element) :=
  (t.node p).map fun n => t.put p (f n)

/-- `if ( t_Parent ) ...`: `B` takes the place of `A` in its parent, or in the root. -/
def replaceChild (parent : Option NodePtr) (A : NodePtr) (B : Option NodePtr)
    (t : WmiAvlTree Key Element) : Option (WmiAvlTree Key Element) :=
  match parent with
  | some p => t.modify p fun n => if n.m_Left = some A then { n with m_Left := B }
      else { n with m_Right := B }
  | none => some { t with m_Root := B }

/-- `if ( p ) p->m_Parent = parent`. -/
def setParent (p : Option NodePtr) (parent : Option NodePtr) (t : WmiAvlTree Key Element) :
    Option (WmiAvlTree Key Element) :=
  match p with
  | some p => t.modify p fun n => { n with m_Parent := parent }
  | none => some t

/-! ### Balancing -/

/-- `B`, the child of `A` on side `s`, comes up. -/
def rotate (s : Side) (A B : NodePtr) (stateA stateB : WmAvlState) (t : WmiAvlTree Key Element) :
    Option (WmiAvlTree Key Element) := do
  let parent := (← t.node A).m_Parent
  let t ← t.replaceChild parent A (some B)
  let inner := (← t.node B).child s.other
  let t ← t.setParent inner (some A)
  let t ← t.modify A fun n => { n.setChild s inner with m_State := stateA, m_Parent := some B }
  t.modify B fun n => { n.setChild s.other (some A) with m_State := stateB, m_Parent := parent }

/-- `C`, the inner child of the child `B` of `A` on side `s`, comes up. -/
def doubleRotate (s : Side) (A B : NodePtr) (t : WmiAvlTree Key Element) :
    Option (NodePtr × WmiAvlTree Key Element) := do
  let b ← (← t.node A).child s
  let C ← (← t.node b).child s.other
  let parent := (← t.node A).m_Parent
  let t ← t.replaceChild parent A (some C)
  let t ← t.modify A fun n => { n with m_Parent := some C }
  let t ← t.modify B fun n => { n with m_Parent := some C }
  let c ← t.node C
  let t ← t.setParent (c.child s) (some B)
  let t ← t.setParent (c.child s.other) (some A)
  let t ← t.modify A fun n =>
    { n.setChild s (c.child s.other) with
      m_State := if c.m_State = .higher s then .higher s.other else .e_Equal }
  let t ← t.modify B fun n =>
    { n.setChild s.other (c.child s) with
      m_State := if c.m_State = .higher s.other then .higher s else .e_Equal }
  let t ← t.modify C fun n =>
    { (n.setChild s (some B)).setChild s.other (some A) with
      m_State := .e_Equal, m_Parent := parent }
  return (C, t)

/-- The subtree `B` of `A` on side `s` may have grown. The new root of the subtree and whether it has
grown too. -/
def insertBalance (s : Side) (A B : NodePtr) (increased : Bool) (t : WmiAvlTree Key Element) :
    Option (NodePtr × Bool × WmiAvlTree Key Element) :=
  if increased then do
    let a ← t.node A
    if a.m_State = .e_Equal then
      let t ← t.modify A fun n => { n with m_State := .higher s }
      return (A, true, t)
    else if a.m_State = .higher s.other then
      let t ← t.modify A fun n => { n with m_State := .e_Equal }
      return (A, false, t)
    else
      let b ← t.node B
      if b.m_State = .e_Equal then return (A, false, t)
      else if b.m_State = .higher s then
        let t ← t.rotate s A B .e_Equal .e_Equal
        return (B, false, t)
      else
        let (C, t) ← t.doubleRotate s A B
        return (C, false, t)
  else some (A, false, t)

def Insert_LeftBalance (A B : NodePtr) (a_Increased : Bool) (t : WmiAvlTree Key Element) :
    Option (NodePtr × Bool × WmiAvlTree Key Element) :=
  t.insertBalance .left A B a_Increased

def Insert_RightBalance (A B : NodePtr) (a_Increased : Bool) (t : WmiAvlTree Key Element) :
    Option (NodePtr × Bool × WmiAvlTree Key Element) :=
  t.insertBalance .right A B a_Increased

/-- The subtree of `A` on side `s` may have become lower; `B` is the other one. -/
def deleteBalance (s : Side) (A : NodePtr) (B : Option NodePtr) (decreased : Bool)
    (t : WmiAvlTree Key Element) : Option (NodePtr × Bool × WmiAvlTree Key Element) :=
  if decreased then do
    let a ← t.node A
    if a.m_State = .e_Equal then
      let t ← t.modify A fun n => { n with m_State := .higher s.other }
      return (A, false, t)
    else if a.m_State = .higher s then
      let t ← t.modify A fun n => { n with m_State := .e_Equal }
      return (A, true, t)
    else
      let B ← B
      let b ← t.node B
      if b.m_State = .e_Equal then
        let t ← t.rotate s.other A B (.higher s.other) (.higher s)
        return (B, false, t)
      else if b.m_State = .higher s.other then
        let t ← t.rotate s.other A B .e_Equal .e_Equal
        return (B, true, t)
      else
        let (C, t) ← t.doubleRotate s.other A B
        return (C, true, t)
  else some (A, false, t)

def Delete_LeftBalance (A : NodePtr) (B : Option NodePtr) (a_Decreased : Bool)
    (t : WmiAvlTree Key Element) : Option (NodePtr × Bool × WmiAvlTree Key Element) :=
  t.deleteBalance .left A B a_Decreased

def Delete_RightBalance (A : NodePtr) (B : Option NodePtr) (a_Decreased : Bool)
    (t : WmiAvlTree Key Element) : Option (NodePtr × Bool × WmiAvlTree Key Element) :=
  t.deleteBalance .right A B a_Decreased

/-! ### Operations -/

section operations
variable [LinearOrder Key]

/-- Where the loop of `Insert` and `Delete` down the tree ends. -/
inductive Place
  | found (p : NodePtr)
  | missing (p : NodePtr) (s : Side)

def search (a_Key : Key) (t : WmiAvlTree Key Element) : ℕ → NodePtr → Option Place
  | 0, _ => none
  | fuel + 1, p => do
    let n ← t.node p
    if a_Key = n.m_Key then some (.found p)
    else if a_Key < n.m_Key then
      match n.m_Left with
      | some l => t.search a_Key fuel l
      | none => some (.missing p .left)
    else
      match n.m_Right with
      | some r => t.search a_Key fuel r
      | none => some (.missing p .right)

/-- The loop behind an insertion. The one for a left child goes on with `t_Node->m_Parent`, that for
a right child with `t_ParentNode`. -/
def insertLoop (s : Side) :
    ℕ → Option NodePtr → Bool → WmiAvlTree Key Element → Option (WmiAvlTree Key Element)
  | _, _, false, t => some t
  | 0, _, true, _ => none
  | fuel + 1, p, true, t => do
    let p ← p
    match (← t.node p).m_Parent with
    | some parent =>
      let r ← if (← t.node parent).m_Left = some p then t.Insert_LeftBalance parent p true
        else t.Insert_RightBalance parent p true
      let next ← match s with
        | .left => (r.2.2.node p).map WmiAvlNode.m_Parent
        | .right => some (some r.1)
      insertLoop s fuel next r.2.1 r.2.2
    | none => some t

def newNode (key : Key) (element : Element) (parent : Option NodePtr) : WmiAvlNode Key Element where
  m_Key := key
  m_Left := none
  m_Right := none
  m_Parent := parent
  m_State := .e_Equal
  m_Element := element

/-- `Insert`, with the address that the allocator gives. -/
def insert (fuel : ℕ) (a_Key : Key) (a_Element : Element) (t_AllocNode : NodePtr)
    (t : WmiAvlTree Key Element) : Option (AvlStatus × WmiAvlTree Key Element) :=
  match t.m_Root with
  | some root => do
    match ← t.search a_Key fuel root with
    | .found _ => return (.e_StatusCode_AlreadyExists, t)
    | .missing p s =>
      let t := { t.put t_AllocNode (newNode a_Key a_Element (some p)) with m_Size := t.m_Size + 1 }
      let t ← t.modify p (WmiAvlNode.setChild s (some t_AllocNode))
      let r ← t.insertBalance s p t_AllocNode true
      let t ← insertLoop s fuel (some r.1) r.2.1 r.2.2
      return (.e_StatusCode_Success, t)
  | none =>
    some (.e_StatusCode_Success,
      { t.put t_AllocNode (newNode a_Key a_Element none) with
        m_Root := some t_AllocNode
        m_Size := t.m_Size + 1 })

def leftMost (t : WmiAvlTree Key Element) : ℕ → NodePtr → Option NodePtr
  | 0, _ => none
  | fuel + 1, p => do
    match (← t.node p).m_Left with
    | some l => t.leftMost fuel l
    | none => some p

/-- The loop of `Increment` up the tree. -/
def ascend (t : WmiAvlTree Key Element) : ℕ → NodePtr → Option (Option NodePtr)
  | 0, _ => none
  | fuel + 1, p => do
    match (← t.node p).m_Parent with
    | some parent =>
      if (← t.node parent).m_Right = some p then t.ascend fuel parent else some (some parent)
    | none => some none

/-- `Iterator::Increment`. -/
def increment (fuel : ℕ) (p : NodePtr) (t : WmiAvlTree Key Element) : Option (Option NodePtr) := do
  match (← t.node p).m_Right with
  | some r => (t.leftMost fuel r).map some
  | none => t.ascend fuel p

/-- The loop of `DeleteFixup` from the successor's old place up to its new one. -/
def fixupLoop (t_Successor : NodePtr) :
    ℕ → NodePtr → Bool → WmiAvlTree Key Element → Option (Bool × WmiAvlTree Key Element)
  | 0, _, _, _ => none
  | fuel + 1, p, a_Decreased, t => do
    let r ← t.Delete_LeftBalance p (← t.node p).m_Right a_Decreased
    let parent ← (← r.2.2.node r.1).m_Parent
    if parent = t_Successor then some r.2
    else fixupLoop t_Successor fuel parent r.2.1 r.2.2

/-- `DeleteFixup` for a node with two children. -/
def fixupInner (fuel : ℕ) (a_Node : NodePtr) (t : WmiAvlTree Key Element) :
    Option (Bool × WmiAvlTree Key Element) := do
  let n ← t.node a_Node
  let t_Successor ← (← t.increment fuel a_Node)
  let t ← t.modify t_Successor fun x => { x with m_State := n.m_State }
  let t ← t.replaceChild n.m_Parent a_Node (some t_Successor)
  if (← t.node t_Successor).m_Parent ≠ some a_Node then
    let t ← t.setParent n.m_Left (some t_Successor)
    let t ← t.setParent n.m_Right (some t_Successor)
    let x ← t.node t_Successor
    let parent ← x.m_Parent
    let t ← t.modify parent fun p => { p with m_Left := x.m_Right }
    let t ← t.setParent x.m_Left (some parent)
    let t ← t.setParent x.m_Right (some parent)
    let t ← t.modify t_Successor fun x =>
      { x with m_Left := n.m_Left, m_Right := n.m_Right, m_Parent := n.m_Parent }
    let r ← fixupLoop t_Successor fuel parent true t
    let r ← r.2.Delete_RightBalance t_Successor (← r.2.node t_Successor).m_Left r.1
    return r.2
  else
    let t ← t.setParent n.m_Left (some t_Successor)
    let t ← t.setParent n.m_Right (some t_Successor)
    let t ← t.modify t_Successor fun x => { x with m_Left := n.m_Left, m_Parent := n.m_Parent }
    let r ← t.Delete_RightBalance t_Successor n.m_Left true
    return r.2

/-- `DeleteFixup` for a node with one child at most. -/
def fixupOuter (a_Node : NodePtr) (t : WmiAvlTree Key Element) :
    Option (Bool × WmiAvlTree Key Element) := do
  let n ← t.node a_Node
  let t ← t.replaceChild n.m_Parent a_Node (n.m_Left.or n.m_Right)
  match n.m_Left, n.m_Right with
  | some l, _ =>
    let t ← t.modify l fun x => { x with m_State := n.m_State, m_Parent := n.m_Parent }
    let r ← t.Delete_LeftBalance l (← t.node l).m_Right true
    return r.2
  | none, some r =>
    let t ← t.modify r fun x => { x with m_State := n.m_State, m_Parent := n.m_Parent }
    let r ← t.Delete_RightBalance r (← t.node r).m_Left true
    return r.2
  | none, none => return (true, t)

/-- `m_Allocator.Delete`. -/
def free (p : NodePtr) (t : WmiAvlTree Key Element) : WmiAvlTree Key Element :=
  { t with node := Function.update t.node p none }

/-- `DeleteFixup`, and whether the place of the node is lower now. -/
def deleteFixup (fuel : ℕ) (a_Node : NodePtr) (t : WmiAvlTree Key Element) :
    Option (Bool × WmiAvlTree Key Element) := do
  let n ← t.node a_Node
  let r ← if n.m_Left.isSome ∧ n.m_Right.isSome then t.fixupInner fuel a_Node
    else t.fixupOuter a_Node
  return (r.1, r.2.free a_Node)

/-- The loop behind a deletion. -/
def deleteLoop :
    ℕ → Option NodePtr → Bool → Bool → WmiAvlTree Key Element → Option (WmiAvlTree Key Element)
  | _, _, _, false, t => some t
  | 0, _, _, true, _ => none
  | _ + 1, none, _, true, t => some t
  | fuel + 1, some parent, t_LeftSide, true, t => do
    let n ← t.node parent
    let r ← if t_LeftSide then t.Delete_LeftBalance parent n.m_Right true
      else t.Delete_RightBalance parent n.m_Left true
    match (← r.2.2.node r.1).m_Parent with
    | some parent =>
      deleteLoop fuel (some parent) (decide ((← r.2.2.node parent).m_Left = some r.1)) r.2.1 r.2.2
    | none => deleteLoop fuel none t_LeftSide r.2.1 r.2.2

def delete (fuel : ℕ) (a_Key : Key) (t : WmiAvlTree Key Element) :
    Option (AvlStatus × WmiAvlTree Key Element) :=
  match t.m_Root with
  | some root => do
    match ← t.search a_Key fuel root with
    | .found p =>
      match (← t.node p).m_Parent with
      | some parent =>
        let t_LeftSide := decide ((← t.node parent).m_Left = some p)
        let r ← t.deleteFixup fuel p
        let t := { r.2 with m_Size := r.2.m_Size - 1 }
        let t ← deleteLoop fuel (some parent) t_LeftSide r.1 t
        return (.e_StatusCode_Success, t)
      | none =>
        let r ← { t with m_Size := t.m_Size - 1 }.deleteFixup fuel p
        return (.e_StatusCode_Success, r.2)
    | .missing _ _ => return (.e_StatusCode_NotFound, t)
  | none => some (.e_StatusCode_NotFound, t)

def findLoop (a_Key : Key) (t : WmiAvlTree Key Element) :
    ℕ → Option NodePtr → Option (Option NodePtr)
  | _, none => some none
  | 0, some _ => none
  | fuel + 1, some p => do
    let n ← t.node p
    if a_Key = n.m_Key then some (some p)
    else if a_Key < n.m_Key then t.findLoop a_Key fuel n.m_Left
    else t.findLoop a_Key fuel n.m_Right

/-- `Find`, with the node that it finds. -/
def find (fuel : ℕ) (a_Key : Key) (t : WmiAvlTree Key Element) :
    Option (AvlStatus × Option NodePtr) := do
  match ← t.findLoop a_Key fuel t.m_Root with
  | some p => return (.e_StatusCode_Success, some p)
  | none => return (.e_StatusCode_NotFound, none)

end operations

end WmiAvlTree

end NtAdmin.Wmi.Containers
