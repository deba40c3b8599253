import Mathlib.Data.List.Nodup
import NtAdmin.Lib.SearchTree
import NtAdmin.Wmi.Containers.BasicTree

/-! What it is for a search tree to stand in memory, and what insertion and deletion do to it. -/
namespace NtAdmin.Wmi.Containers.BasicTree
open Lib WmiStatusCode

structure Item (Key Element : Type) where
  address : NodePtr
  key : Key
  element : Element

variable {Key Element : Type}

abbrev Shape (Key Element : Type) := SearchTree (Item Key Element)

/-- The node of an item. -/
def Item.node (x : Item Key Element) (m_Left m_Right m_Parent : Option NodePtr) :
    WmiBasicNode Key Element := ⟨x.key, x.element, m_Left, m_Right, m_Parent⟩

def rootOf : Shape Key Element → Option NodePtr
  | .leaf => none
  | .node _ x _ => some x.address

def addresses (T : Shape Key Element) : List NodePtr := T.toList.map Item.address

/-- The tree stands in memory under the node `parent`. -/
def Rep (heap : Heap Key Element) : Option NodePtr → Shape Key Element → Prop
  | _, .leaf => True
  | parent, .node l x r =>
    heap x.address = some (x.node (rootOf l) (rootOf r) parent) ∧
      Rep heap (some x.address) l ∧ Rep heap (some x.address) r

variable {heap heap' : Heap Key Element} {T l r : Shape Key Element} {x : Item Key Element}
  {parent : Option NodePtr} {a : NodePtr}

theorem mem_addresses_node :
    a ∈ addresses (.node l x r) ↔ a ∈ addresses l ∨ a = x.address ∨ a ∈ addresses r := by
  rw [addresses, SearchTree.toList, List.map_append, List.map_cons, List.mem_append, List.mem_cons]
  rfl

theorem nodup_addresses_node : (addresses (.node l x r)).Nodup ↔
    (addresses l).Nodup ∧ (addresses r).Nodup ∧ x.address ∉ addresses l ∧ x.address ∉ addresses r ∧
      ∀ a ∈ addresses l, a ∉ addresses r := by
  rw [addresses, SearchTree.toList, List.map_append, List.map_cons, List.nodup_append,
    List.nodup_cons]
  constructor
  · rintro ⟨hl, ⟨hxr, hr⟩, hlr⟩
    refine ⟨hl, hr, fun hxl => hlr _ hxl _ List.mem_cons_self rfl, hxr, fun a hal har => ?_⟩
    exact hlr a hal a (List.mem_cons_of_mem _ har) rfl
  · rintro ⟨hl, hr, hxl, hxr, hlr⟩
    refine ⟨hl, ⟨hxr, hr⟩, fun a hal b hb hab => ?_⟩
    subst hab
    rcases List.mem_cons.mp hb with rfl | hb
    · exact hxl hal
    · exact hlr a hal hb

theorem rootOf_node : rootOf (.node l x r) = some x.address := rfl

theorem setParent_some (heap : Heap Key Element) (p : NodePtr) (parent : Option NodePtr) :
    heap.setParent (some p) parent = heap.modify p fun node => { node with m_Parent := parent } :=
  rfl

theorem setParent_none (heap : Heap Key Element) (parent : Option NodePtr) :
    heap.setParent none parent = some heap := rfl

theorem rootOf_eq_none (h : rootOf T = none) : T = .leaf := by
  cases T with
  | leaf => rfl
  | node l x r => cases h

theorem rootOf_mem (h : rootOf T = some a) : a ∈ addresses T := by
  cases T with
  | leaf => cases h
  | node l x r => exact mem_addresses_node.mpr (Or.inr (Or.inl (Option.some.inj h).symm))

/-- Only the nodes of the tree matter. -/
theorem Rep.congr (h : Rep heap parent T) (hheap : ∀ a ∈ addresses T, heap' a = heap a) :
    Rep heap' parent T := by
  induction T generalizing parent with
  | leaf => trivial
  | node l x r ihl ihr =>
    obtain ⟨hx, hl, hr⟩ := h
    simp only [mem_addresses_node] at hheap
    refine ⟨?_, ihl hl fun a ha => hheap a (Or.inl ha),
      ihr hr fun a ha => hheap a (Or.inr (Or.inr ha))⟩
    rw [hheap x.address (Or.inr (Or.inl rfl)), hx]

theorem Rep.isSome (h : Rep heap parent T) (ha : a ∈ addresses T) : (heap a).isSome = true := by
  induction T generalizing parent with
  | leaf => cases ha
  | node l x r ihl ihr =>
    obtain ⟨hx, hl, hr⟩ := h
    rcases mem_addresses_node.mp ha with hal | rfl | har
    · exact ihl hl hal
    · rw [hx]
      rfl
    · exact ihr hr har

/-- Each item stands in memory. -/
theorem Rep.node_of_mem (h : Rep heap parent T) (hx : x ∈ T.toList) :
    ∃ n, heap x.address = some n ∧ n.m_Key = x.key ∧ n.m_Element = x.element := by
  induction T generalizing parent with
  | leaf => cases hx
  | node l y r ihl ihr =>
    obtain ⟨hy, hl, hr⟩ := h
    rcases List.mem_append.mp hx with hx | hx
    · exact ihl hl hx
    · rcases List.mem_cons.mp hx with rfl | hx
      · exact ⟨_, hy, rfl, rfl⟩
      · exact ihr hr hx

theorem put_of_ne {p : NodePtr} (node : WmiBasicNode Key Element) (h : a ≠ p) :
    heap.put p node a = heap a := Function.update_of_ne h _ _

theorem put_self (p : NodePtr) (node : WmiBasicNode Key Element) :
    heap.put p node p = some node := Function.update_self _ _ _

theorem modify_eq {p : NodePtr} {node : WmiBasicNode Key Element} (h : heap p = some node)
    (f : WmiBasicNode Key Element → WmiBasicNode Key Element) :
    heap.modify p f = some (heap.put p (f node)) := by
  rw [Heap.modify, h]
  rfl

theorem Rep.put (h : Rep heap parent T) {p : NodePtr} (hp : p ∉ addresses T)
    (node : WmiBasicNode Key Element) : Rep (heap.put p node) parent T :=
  h.congr fun _ ha => put_of_ne node fun heq => hp (heq ▸ ha)

/-- The root of a tree under another parent. -/
theorem Rep.reparent (h : Rep heap parent T) (hnodup : (addresses T).Nodup)
    (parent' : Option NodePtr) : ∃ heap', heap.setParent (rootOf T) parent' = some heap' ∧
      Rep heap' parent' T ∧ ∀ b, some b ≠ rootOf T → heap' b = heap b := by
  cases T with
  | leaf => exact ⟨heap, rfl, trivial, fun _ _ => rfl⟩
  | node l x r =>
    obtain ⟨hx, hl, hr⟩ := h
    obtain ⟨-, -, hxl, hxr, -⟩ := nodup_addresses_node.mp hnodup
    refine ⟨heap.put x.address (x.node (rootOf l) (rootOf r) parent'), modify_eq hx _, ?_, ?_⟩
    · exact ⟨put_self _ _, hl.put hxl _, hr.put hxr _⟩
    · exact fun b hb => put_of_ne _ fun heq => hb (by rw [heq]; rfl)

theorem length_node :
    (SearchTree.node l x r).toList.length = l.toList.length + r.toList.length + 1 := by
  rw [SearchTree.toList, List.length_append, List.length_cons, Nat.add_assoc]

/-- The address of a new node is not one of the tree. -/
theorem Rep.fresh (h : Rep heap parent T) {p : NodePtr} (hp : heap p = none) : p ∉ addresses T := by
  intro hmem
  have hsome := h.isSome hmem
  rw [hp] at hsome
  cases hsome

/-! ### Insertion -/

section Insertion
variable [LinearOrder Key] {a_Key : Key} {a_Element : Element} {alloc : Allocation Key Element}

def SortedItems (items : List (Item Key Element)) : Prop :=
  items.Pairwise fun y z => y.key < z.key

theorem SortedItems.node (h : SortedItems (SearchTree.node l x r).toList) :
    SortedItems l.toList ∧ SortedItems r.toList ∧ (∀ y ∈ l.toList, y.key < x.key) ∧
      ∀ y ∈ r.toList, x.key < y.key := by
  unfold SortedItems SearchTree.toList at h
  rw [List.pairwise_append, List.pairwise_cons] at h
  exact ⟨h.1, h.2.1.2, fun y hy => h.2.2 y hy x List.mem_cons_self, h.2.1.1⟩

/-- What an insertion below a node does: nothing if the key is there or there is no memory, and else
it adds the item. -/
def Inserts (heap : Heap Key Element) (parent : Option NodePtr) (T : Shape Key Element)
    (a_Key : Key) (a_Element : Element) (alloc : Allocation Key Element)
    (result : Option (WmiStatusCode × Heap Key Element)) : Prop :=
  ((∃ y ∈ T.toList, y.key = a_Key) ∧ result = some (e_StatusCode_AlreadyExists, heap)) ∨
  ((∀ y ∈ T.toList, y.key ≠ a_Key) ∧ ∃ error, alloc.new heap = .error error ∧
    result = some (error, heap)) ∨
  ((∀ y ∈ T.toList, y.key ≠ a_Key) ∧ ∃ p u v T' heap', alloc.new heap = .ok p ∧
    result = some (e_StatusCode_Success, heap') ∧ T.toList = u ++ v ∧
    T'.toList = u ++ ⟨p, a_Key, a_Element⟩ :: v ∧ (∀ y ∈ u, y.key < a_Key) ∧
    (∀ y ∈ v, a_Key < y.key) ∧ Rep heap' parent T' ∧ rootOf T' = rootOf T ∧
    ∀ b ∉ addresses T, b ≠ p → heap' b = heap b)

theorem keys_ne_of_left (hsorted : SortedItems (SearchTree.node l x r).toList)
    (hlt : a_Key < x.key) (hl : ∀ y ∈ l.toList, y.key ≠ a_Key) :
    ∀ y ∈ (SearchTree.node l x r).toList, y.key ≠ a_Key := by
  obtain ⟨-, -, -, hr⟩ := hsorted.node
  intro y hy
  rw [SearchTree.toList, List.mem_append, List.mem_cons] at hy
  rcases hy with hy | rfl | hy
  · exact hl y hy
  · exact hlt.ne'
  · exact (hlt.trans (hr y hy)).ne'

theorem keys_ne_of_right (hsorted : SortedItems (SearchTree.node l x r).toList)
    (hgt : x.key < a_Key) (hr : ∀ y ∈ r.toList, y.key ≠ a_Key) :
    ∀ y ∈ (SearchTree.node l x r).toList, y.key ≠ a_Key := by
  obtain ⟨-, -, hl, -⟩ := hsorted.node
  intro y hy
  rw [SearchTree.toList, List.mem_append, List.mem_cons] at hy
  rcases hy with hy | rfl | hy
  · exact ((hl y hy).trans hgt).ne
  · exact hgt.ne
  · exact hr y hy

theorem Inserts.left {result : Option (WmiStatusCode × Heap Key Element)}
    (h : Rep heap parent (.node l x r)) (hnodup : (addresses (.node l x r)).Nodup)
    (hsorted : SortedItems (SearchTree.node l x r).toList) (hlt : a_Key < x.key)
    (hi : Inserts heap (some x.address) l a_Key a_Element alloc result) :
    Inserts heap parent (.node l x r) a_Key a_Element alloc result := by
  obtain ⟨hx, hl, hr⟩ := h
  obtain ⟨-, -, hxl, -, hlr⟩ := nodup_addresses_node.mp hnodup
  obtain ⟨-, -, -, hrkeys⟩ := hsorted.node
  rcases hi with ⟨⟨y, hy, hkey⟩, hrun⟩ | ⟨hkeys, hrun⟩ |
    ⟨hkeys, p, u, v, T', heap', hnew, hrun, hu, hv, hbelow, habove, hrep, hroot, hframe⟩
  · exact Or.inl ⟨⟨y, List.mem_append_left _ hy, hkey⟩, hrun⟩
  · exact Or.inr (Or.inl ⟨keys_ne_of_left hsorted hlt hkeys, hrun⟩)
  · right
    right
    have hp := alloc.fresh heap p hnew
    have hxp : x.address ≠ p := fun heq => by
      rw [← heq, hx] at hp
      cases hp
    refine ⟨keys_ne_of_left hsorted hlt hkeys, p, u, v ++ x :: r.toList, .node T' x r, heap', hnew,
      hrun, ?_, ?_, hbelow, ?_, ⟨?_, hrep, ?_⟩, rfl, ?_⟩
    · rw [SearchTree.toList, hu, List.append_assoc]
    · rw [SearchTree.toList, hv, List.append_assoc, List.cons_append]
    · intro y hy
      rcases List.mem_append.mp hy with hy | hy
      · exact habove y hy
      · rcases List.mem_cons.mp hy with rfl | hy
        · exact hlt
        · exact hlt.trans (hrkeys y hy)
    · rw [hframe x.address hxl hxp, hroot, hx]
    · exact hr.congr fun b hb => hframe b (fun hbl => hlr b hbl hb) fun heq =>
        hr.fresh hp (heq ▸ hb)
    · intro b hb hbp
      exact hframe b (fun hbl => hb (mem_addresses_node.mpr (Or.inl hbl))) hbp

theorem Inserts.right {result : Option (WmiStatusCode × Heap Key Element)}
    (h : Rep heap parent (.node l x r)) (hnodup : (addresses (.node l x r)).Nodup)
    (hsorted : SortedItems (SearchTree.node l x r).toList) (hgt : x.key < a_Key)
    (hi : Inserts heap (some x.address) r a_Key a_Element alloc result) :
    Inserts heap parent (.node l x r) a_Key a_Element alloc result := by
  obtain ⟨hx, hl, hr⟩ := h
  obtain ⟨-, -, -, hxr, hlr⟩ := nodup_addresses_node.mp hnodup
  obtain ⟨-, -, hlkeys, -⟩ := hsorted.node
  rcases hi with ⟨⟨y, hy, hkey⟩, hrun⟩ | ⟨hkeys, hrun⟩ |
    ⟨hkeys, p, u, v, T', heap', hnew, hrun, hu, hv, hbelow, habove, hrep, hroot, hframe⟩
  · exact Or.inl ⟨⟨y, List.mem_append_right _ (List.mem_cons_of_mem x hy), hkey⟩, hrun⟩
  · exact Or.inr (Or.inl ⟨keys_ne_of_right hsorted hgt hkeys, hrun⟩)
  · right
    right
    have hp := alloc.fresh heap p hnew
    have hxp : x.address ≠ p := fun heq => by
      rw [← heq, hx] at hp
      cases hp
    refine ⟨keys_ne_of_right hsorted hgt hkeys, p, l.toList ++ x :: u, v, .node l x T', heap', hnew,
      hrun, ?_, ?_, ?_, habove, ⟨?_, ?_, hrep⟩, rfl, ?_⟩
    · rw [SearchTree.toList, hu, List.append_assoc, List.cons_append]
    · rw [SearchTree.toList, hv, List.append_assoc, List.cons_append]
    · intro y hy
      rcases List.mem_append.mp hy with hy | hy
      · exact (hlkeys y hy).trans hgt
      · rcases List.mem_cons.mp hy with rfl | hy
        · exact hgt
        · exact hbelow y hy
    · rw [hframe x.address hxr hxp, hroot, hx]
    · exact hl.congr fun b hb => hframe b (hlr b hb) fun heq => hl.fresh hp (heq ▸ hb)
    · intro b hb hbp
      exact hframe b (fun hbr => hb (mem_addresses_node.mpr (Or.inr (Or.inr hbr)))) hbp

theorem Inserts.newLeft {heap' : Heap Key Element} {p : NodePtr}
    (h : Rep heap parent (.node .leaf x r))
    (hnodup : (addresses (.node .leaf x r)).Nodup)
    (hsorted : SortedItems (SearchTree.node .leaf x r).toList) (hlt : a_Key < x.key)
    (hnew : alloc.new heap = .ok p)
    (hheap' : heap' = (heap.put p ⟨a_Key, a_Element, none, none, some x.address⟩).put x.address
      (x.node (some p) (rootOf r) parent)) :
    Inserts heap parent (.node .leaf x r) a_Key a_Element alloc
      (some (e_StatusCode_Success, heap')) := by
  have hfresh := h.fresh (alloc.fresh heap p hnew)
  rw [mem_addresses_node, not_or, not_or] at hfresh
  obtain ⟨-, hpx, hpr⟩ := hfresh
  obtain ⟨hx, -, hr⟩ := h
  obtain ⟨-, -, -, hxr, -⟩ := nodup_addresses_node.mp hnodup
  obtain ⟨-, -, -, hrkeys⟩ := hsorted.node
  right
  right
  refine ⟨keys_ne_of_left hsorted hlt (List.forall_mem_nil _), p, [], x :: r.toList,
    .node (.node .leaf ⟨p, a_Key, a_Element⟩ .leaf) x r, heap', hnew, rfl, rfl, rfl,
    (List.forall_mem_nil _), ?_, ⟨?_, ⟨?_, trivial, trivial⟩, ?_⟩, rfl, ?_⟩
  · intro y hy
    rcases List.mem_cons.mp hy with rfl | hy
    · exact hlt
    · exact hlt.trans (hrkeys y hy)
  · rw [hheap', put_self]
    rfl
  · rw [hheap', put_of_ne _ hpx, put_self]
    rfl
  · rw [hheap']
    exact (hr.put hpr _).put hxr _
  · intro b hb hbp
    have hbx : b ≠ x.address := fun heq => hb (mem_addresses_node.mpr (Or.inr (Or.inl heq)))
    rw [hheap', put_of_ne _ hbx, put_of_ne _ hbp]

theorem Inserts.newRight {heap' : Heap Key Element} {p : NodePtr}
    (h : Rep heap parent (.node l x .leaf)) (hnodup : (addresses (.node l x .leaf)).Nodup)
    (hsorted : SortedItems (SearchTree.node l x .leaf).toList) (hgt : x.key < a_Key)
    (hnew : alloc.new heap = .ok p)
    (hheap' : heap' = (heap.put p ⟨a_Key, a_Element, none, none, some x.address⟩).put x.address
      (x.node (rootOf l) (some p) parent)) :
    Inserts heap parent (.node l x .leaf) a_Key a_Element alloc
      (some (e_StatusCode_Success, heap')) := by
  have hfresh := h.fresh (alloc.fresh heap p hnew)
  rw [mem_addresses_node, not_or, not_or] at hfresh
  obtain ⟨hpl, hpx, -⟩ := hfresh
  obtain ⟨hx, hl, -⟩ := h
  obtain ⟨-, -, hxl, -, -⟩ := nodup_addresses_node.mp hnodup
  obtain ⟨-, -, hlkeys, -⟩ := hsorted.node
  right
  right
  refine ⟨keys_ne_of_right hsorted hgt (List.forall_mem_nil _), p, l.toList ++ [x], [],
    .node l x (.node .leaf ⟨p, a_Key, a_Element⟩ .leaf), heap', hnew, rfl, ?_, ?_, ?_,
    (List.forall_mem_nil _), ⟨?_, ?_, ⟨?_, trivial, trivial⟩⟩, rfl, ?_⟩
  · rw [List.append_nil]
    rfl
  · rw [List.append_assoc]
    rfl
  · intro y hy
    rcases List.mem_append.mp hy with hy | hy
    · exact (hlkeys y hy).trans hgt
    · rw [List.mem_singleton.mp hy]
      exact hgt
  · rw [hheap', put_self]
    rfl
  · rw [hheap']
    exact (hl.put hpl _).put hxl _
  · rw [hheap', put_of_ne _ hpx, put_self]
    rfl
  · intro b hb hbp
    have hbx : b ≠ x.address := fun heq => hb (mem_addresses_node.mpr (Or.inr (Or.inl heq)))
    rw [hheap', put_of_ne _ hbx, put_of_ne _ hbp]

theorem insertLoop_spec (a_Key : Key) (a_Element : Element) (alloc : Allocation Key Element)
    {fuel : ℕ} {p : NodePtr} (h : Rep heap parent T)
    (hnodup : (addresses T).Nodup) (hsorted : SortedItems T.toList) (hroot : rootOf T = some p)
    (hfuel : T.toList.length ≤ fuel) :
    Inserts heap parent T a_Key a_Element alloc
      (insertLoop a_Key a_Element alloc fuel p heap) := by
  induction T generalizing parent fuel p with
  | leaf => cases hroot
  | node l x r ihl ihr =>
    obtain rfl := Option.some.inj hroot
    have hrep := h
    obtain ⟨hx, hl, hr⟩ := h
    obtain ⟨hnl, hnr, hxl, hxr, hlr⟩ := nodup_addresses_node.mp hnodup
    obtain ⟨hsl, hsr, hlkeys, hrkeys⟩ := hsorted.node
    rw [length_node] at hfuel
    obtain ⟨fuel, rfl⟩ : ∃ f, fuel = f + 1 := ⟨fuel - 1, by omega⟩
    rcases lt_trichotomy a_Key x.key with hlt | heq | hgt
    · have hcompare := compare_lt_iff_lt.mpr hlt
      cases hleft : rootOf l with
      | some left =>
        have hstep : insertLoop a_Key a_Element alloc (fuel + 1) x.address heap =
            insertLoop a_Key a_Element alloc fuel left heap := by
          simp [insertLoop, hx, Item.node, hcompare, hleft]
        rw [hstep]
        exact Inserts.left hrep hnodup hsorted hlt (ihl hl hnl hsl hleft (by omega))
      | none =>
        obtain rfl := rootOf_eq_none hleft
        cases hnew : alloc.new heap with
        | error error =>
          refine Or.inr (Or.inl
            ⟨keys_ne_of_left hsorted hlt (List.forall_mem_nil _), error, hnew, ?_⟩)
          simp [insertLoop, hx, Item.node, hcompare, hleft, hnew]
        | ok p =>
          have hpx : x.address ≠ p := fun heq => hrep.fresh (alloc.fresh heap p hnew)
            (mem_addresses_node.mpr (Or.inr (Or.inl heq.symm)))
          have hxput : (heap.put p ⟨a_Key, a_Element, none, none, some x.address⟩) x.address =
              some (x.node none (rootOf r) parent) := by
            rw [put_of_ne _ hpx, hx]
            rfl
          have hstep : insertLoop a_Key a_Element alloc (fuel + 1) x.address heap =
              some (e_StatusCode_Success,
                (heap.put p ⟨a_Key, a_Element, none, none, some x.address⟩).put x.address
                  (x.node (some p) (rootOf r) parent)) := by
            rw [insertLoop, hx]
            simp only [Item.node, hcompare, hleft, hnew, Option.bind_eq_bind, Option.bind_some]
            rw [modify_eq hxput]
            rfl
          rw [hstep]
          exact Inserts.newLeft hrep hnodup hsorted hlt hnew rfl
    · left
      refine ⟨⟨x, List.mem_append_right _ List.mem_cons_self, heq.symm⟩, ?_⟩
      simp [insertLoop, hx, Item.node, compare_eq_iff_eq.mpr heq]
    · have hcompare := compare_gt_iff_gt.mpr hgt
      cases hright : rootOf r with
      | some right =>
        have hstep : insertLoop a_Key a_Element alloc (fuel + 1) x.address heap =
            insertLoop a_Key a_Element alloc fuel right heap := by
          simp [insertLoop, hx, Item.node, hcompare, hright]
        rw [hstep]
        exact Inserts.right hrep hnodup hsorted hgt (ihr hr hnr hsr hright (by omega))
      | none =>
        obtain rfl := rootOf_eq_none hright
        cases hnew : alloc.new heap with
        | error error =>
          refine Or.inr (Or.inl
            ⟨keys_ne_of_right hsorted hgt (List.forall_mem_nil _), error, hnew, ?_⟩)
          simp [insertLoop, hx, Item.node, hcompare, hright, hnew]
        | ok p =>
          have hpx : x.address ≠ p := fun heq => hrep.fresh (alloc.fresh heap p hnew)
            (mem_addresses_node.mpr (Or.inr (Or.inl heq.symm)))
          have hxput : (heap.put p ⟨a_Key, a_Element, none, none, some x.address⟩) x.address =
              some (x.node (rootOf l) none parent) := by
            rw [put_of_ne _ hpx, hx]
            rfl
          have hstep : insertLoop a_Key a_Element alloc (fuel + 1) x.address heap =
              some (e_StatusCode_Success,
                (heap.put p ⟨a_Key, a_Element, none, none, some x.address⟩).put x.address
                  (x.node (rootOf l) (some p) parent)) := by
            rw [insertLoop, hx]
            simp only [Item.node, hcompare, hright, hnew, Option.bind_eq_bind, Option.bind_some]
            rw [modify_eq hxput]
            rfl
          rw [hstep]
          exact Inserts.newRight hrep hnodup hsorted hgt hnew rfl

end Insertion

/-! ### Deletion -/

/-- The subtree with root `a` hangs under `parent`, on the left or not, or is the whole tree. -/
def Hangs (m_Root : Option NodePtr) (heap : Heap Key Element) (parent : Option NodePtr)
    (left : Bool) (a : NodePtr) : Prop :=
  match parent with
  | none => m_Root = some a
  | some q => ∃ n, heap q = some n ∧ (left = true ↔ n.m_Left = some a) ∧
      (left = false → n.m_Right = some a)

/-- `p` has taken the place of what hung under `parent`. -/
def Relinked (m_Root : Option NodePtr) (heap : Heap Key Element) (parent : Option NodePtr)
    (left : Bool) (p m_Root' : Option NodePtr) (heap' : Heap Key Element) : Prop :=
  match parent with
  | none => m_Root' = p
  | some q => m_Root' = m_Root ∧ ∃ n, heap q = some n ∧
      heap' q = some (if left then { n with m_Left := p } else { n with m_Right := p })

variable {m_Root m_Root' : Option NodePtr} {left : Bool}

theorem replaceChild_spec (h : Hangs m_Root heap parent left a) (p : Option NodePtr) :
    ∃ m_Root' heap', replaceChild parent a p m_Root heap = some (m_Root', heap') ∧
      Relinked m_Root heap parent left p m_Root' heap' ∧
      ∀ b, some b ≠ parent → heap' b = heap b := by
  cases parent with
  | none => exact ⟨p, heap, rfl, rfl, fun _ _ => rfl⟩
  | some q =>
    obtain ⟨n, hn, hleft, -⟩ := h
    refine ⟨m_Root, heap.put q (if left then { n with m_Left := p } else { n with m_Right := p }),
      ?_, ⟨rfl, n, hn, put_self _ _⟩, fun b hb => put_of_ne _ fun heq => hb (by rw [heq])⟩
    rw [replaceChild, modify_eq hn]
    cases left with
    | true => simp [hleft.mp rfl]
    | false =>
      have hne : n.m_Left ≠ some a := fun heq => Bool.false_ne_true (hleft.mpr heq)
      simp [hne]

theorem Hangs.congr (h : Hangs m_Root heap parent left a)
    (hheap : ∀ q, parent = some q → heap' q = heap q) : Hangs m_Root heap' parent left a := by
  cases parent with
  | none => exact h
  | some q =>
    obtain ⟨n, hn, hside⟩ := h
    exact ⟨n, by rw [hheap q rfl, hn], hside⟩

theorem Relinked.congr {heap₀ heap₁ : Heap Key Element} {p : Option NodePtr}
    (h : Relinked m_Root heap parent left p m_Root' heap')
    (hheap₀ : ∀ q, parent = some q → heap₀ q = heap q)
    (hheap₁ : ∀ q, parent = some q → heap₁ q = heap' q) :
    Relinked m_Root heap₀ parent left p m_Root' heap₁ := by
  cases parent with
  | none => exact h
  | some q =>
    obtain ⟨hroot, n, hn, hn'⟩ := h
    exact ⟨hroot, n, by rw [hheap₀ q rfl, hn], by rw [hheap₁ q rfl, hn']⟩

theorem leftMost_spec {fuel : ℕ} (h : Rep heap parent (.node l x r))
    (hfuel : (SearchTree.node l x r).toList.length ≤ fuel) :
    heap.leftMost fuel x.address = some (SearchTree.takeLeast l x r).1.address := by
  induction l generalizing x r parent fuel with
  | leaf =>
    obtain ⟨fuel, rfl⟩ : ∃ f, fuel = f + 1 := ⟨fuel - 1, by rw [length_node] at hfuel; omega⟩
    simp [Heap.leftMost, h.1, Item.node, rootOf, SearchTree.takeLeast]
  | node ll z lr ih =>
    rw [length_node] at hfuel
    obtain ⟨fuel, rfl⟩ : ∃ f, fuel = f + 1 := ⟨fuel - 1, by omega⟩
    have hrec := ih h.2.1 (show _ ≤ fuel by omega)
    simp [Heap.leftMost, h.1, Item.node, rootOf, SearchTree.takeLeast, hrec]

theorem mem_takeLeast {b : NodePtr} : b ∈ addresses (.node l x r) ↔
    b = (SearchTree.takeLeast l x r).1.address ∨ b ∈ addresses (SearchTree.takeLeast l x r).2 := by
  rw [addresses, ← SearchTree.toList_takeLeast, List.map_cons, List.mem_cons]
  rfl

theorem nodup_takeLeast (h : (addresses (.node l x r)).Nodup) :
    (SearchTree.takeLeast l x r).1.address ∉ addresses (SearchTree.takeLeast l x r).2 ∧
      (addresses (SearchTree.takeLeast l x r).2).Nodup := by
  rw [addresses, ← SearchTree.toList_takeLeast, List.map_cons, List.nodup_cons] at h
  exact h

/-- Taking out the least node, which is not the root: its right subtree goes to its parent. -/
theorem detach_spec (hleaf : l ≠ .leaf) (h : Rep heap parent (.node l x r))
    (hnodup : (addresses (.node l x r)).Nodup) :
    ∃ q p heap₁ heap₂,
      heap (SearchTree.takeLeast l x r).1.address =
        some ((SearchTree.takeLeast l x r).1.node none p (some q)) ∧
      q ∈ addresses (.node l x r) ∧
      heap.modify q (fun n => { n with m_Left := p }) = some heap₁ ∧
      heap₁.setParent p (some q) = some heap₂ ∧
      Rep heap₂ parent (SearchTree.takeLeast l x r).2 ∧
      (∀ b ∉ addresses (.node l x r), heap₂ b = heap b) ∧
      heap₂ (SearchTree.takeLeast l x r).1.address =
        heap (SearchTree.takeLeast l x r).1.address := by
  induction l generalizing x r parent with
  | leaf => exact absurd rfl hleaf
  | node ll z lr ih =>
    obtain ⟨hx, hl, hr⟩ := h
    obtain ⟨hnl, hnr, hxl, hxr, hlr⟩ := nodup_addresses_node.mp hnodup
    cases ll with
    | leaf =>
      obtain ⟨hz, -, hlr'⟩ := hl
      obtain ⟨-, hnlr, -, hzlr, -⟩ := nodup_addresses_node.mp hnl
      rw [mem_addresses_node, not_or, not_or] at hxl
      obtain ⟨-, hxz, hxlr⟩ := hxl
      obtain ⟨heap₂, hset, hrep, hframe⟩ :=
        (hlr'.put hxlr (x.node (rootOf lr) (rootOf r) parent)).reparent hnlr (some x.address)
      have hroot (b : NodePtr) (hb : b ∉ addresses lr) : some b ≠ rootOf lr :=
        fun heq => hb (rootOf_mem heq.symm)
      refine ⟨x.address, rootOf lr, _, heap₂, hz, mem_addresses_node.mpr (Or.inr (Or.inl rfl)),
        modify_eq hx _, hset, ⟨?_, hrep, ?_⟩, ?_, ?_⟩
      · rw [hframe _ (hroot _ hxlr), put_self]
        rfl
      · refine hr.congr fun b hb => ?_
        have hbl : b ∉ addresses lr := fun hbl =>
          hlr b (mem_addresses_node.mpr (Or.inr (Or.inr hbl))) hb
        have hbx : b ≠ x.address := fun heq => hxr (heq ▸ hb)
        rw [hframe b (hroot b hbl), put_of_ne _ hbx]
      · intro b hb
        rw [mem_addresses_node, mem_addresses_node, not_or, not_or, not_or, not_or] at hb
        rw [hframe b (hroot b hb.1.2.2), put_of_ne _ hb.2.1]
      · change heap₂ z.address = heap z.address
        rw [hframe _ (hroot _ hzlr), put_of_ne _ (Ne.symm hxz)]
    | node lll w llr =>
      obtain ⟨q, p, heap₁, heap₂, hm, hq, hmodify, hset, hrep, hframe, hsame⟩ :=
        ih (by simp) hl hnl
      refine ⟨q, p, heap₁, heap₂, hm, mem_addresses_node.mpr (Or.inl hq), hmodify, hset,
        ⟨?_, hrep, ?_⟩, ?_, hsame⟩
      · rw [hframe x.address hxl, hx]
        rfl
      · exact hr.congr fun b hb => hframe b fun hbl => hlr b hbl hb
      · exact fun b hb => hframe b fun hbl => hb (mem_addresses_node.mpr (Or.inl hbl))

/-- What `DeleteFixup` leaves in the place of a subtree. -/
structure Fixed (m_Root : Option NodePtr) (heap : Heap Key Element) (parent : Option NodePtr)
    (left : Bool) (T T' : Shape Key Element) (m_Root' : Option NodePtr)
    (heap' : Heap Key Element) : Prop where
  rep : Rep heap' parent T'
  relinked : Relinked m_Root heap parent left (rootOf T') m_Root' heap'
  frame : ∀ b ∉ addresses T, some b ≠ parent → heap' b = heap b

theorem addresses_join (l r : Shape Key Element) :
    addresses (SearchTree.join l r) = addresses l ++ addresses r := by
  rw [addresses, SearchTree.toList_join, List.map_append]
  rfl

/-- Where a node of the subtree is not the parent. -/
theorem ne_parent (hparent : ∀ q, parent = some q → q ∉ addresses T) {b : NodePtr}
    (hb : b ∈ addresses T) : some b ≠ parent := fun heq => hparent b heq.symm hb

theorem fixupOuter_spec (hchild : l = .leaf ∨ r = .leaf) (h : Rep heap parent (.node l x r))
    (hnodup : (addresses (.node l x r)).Nodup)
    (hparent : ∀ q, parent = some q → q ∉ addresses (.node l x r))
    (hhangs : Hangs m_Root heap parent left x.address) :
    ∃ m_Root' heap', fixupOuter x.address m_Root heap = some (m_Root', heap') ∧
      Fixed m_Root heap parent left (.node l x r) (SearchTree.join l r) m_Root' heap' := by
  obtain ⟨hx, hl, hr⟩ := h
  obtain ⟨hnl, hnr, hxl, hxr, hlr⟩ := nodup_addresses_node.mp hnodup
  obtain ⟨only, honly, hor, ⟨above, hrep⟩, hnonly, hsub⟩ : ∃ only : Shape Key Element,
      SearchTree.join l r = only ∧ (rootOf l).or (rootOf r) = rootOf only ∧
      (∃ above, Rep heap above only) ∧ (addresses only).Nodup ∧
      ∀ b ∈ addresses only, b ∈ addresses (.node l x r) := by
    rcases hchild with rfl | rfl
    · exact ⟨r, rfl, rfl, ⟨_, hr⟩, hnr, fun b hb => mem_addresses_node.mpr (Or.inr (Or.inr hb))⟩
    · refine ⟨l, ?_, ?_, ⟨_, hl⟩, hnl, fun b hb => mem_addresses_node.mpr (Or.inl hb)⟩
      · cases l <;> rfl
      · cases l <;> rfl
  obtain ⟨heap₁, hset, hrep₁, hframe₁⟩ := hrep.reparent hnonly parent
  have hout (b : NodePtr) (hb : b ∉ addresses (.node l x r)) : heap₁ b = heap b :=
    hframe₁ b fun heq => hb (hsub b (rootOf_mem heq.symm))
  have hq (q : NodePtr) (hq : parent = some q) : heap₁ q = heap q := hout q (hparent q hq)
  obtain ⟨m_Root', heap', hreplace, hrelinked, hframe⟩ :=
    replaceChild_spec (hhangs.congr hq) (rootOf only)
  refine ⟨m_Root', heap', ?_, ⟨?_, ?_, ?_⟩⟩
  · rw [fixupOuter, hx]
    simp only [Item.node, Option.bind_eq_bind, Option.bind_some, hor, hset]
    exact hreplace
  · rw [honly]
    exact hrep₁.congr fun b hb => hframe b (ne_parent hparent (hsub b hb))
  · rw [honly]
    exact hrelinked.congr (fun q hq' => (hq q hq').symm) fun _ _ => rfl
  · intro b hb hbp
    rw [hframe b hbp, hout b hb]

/-- The successor is the right child. -/
theorem fixupInner_child {y : Item Key Element} {rr : Shape Key Element} {fuel : ℕ}
    (h : Rep heap parent (.node l x (.node .leaf y rr)))
    (hnodup : (addresses (.node l x (.node .leaf y rr))).Nodup)
    (hparent : ∀ q, parent = some q → q ∉ addresses (.node l x (.node .leaf y rr)))
    (hhangs : Hangs m_Root heap parent left x.address)
    (hfuel : (SearchTree.node l x (.node .leaf y rr)).toList.length ≤ fuel) :
    ∃ m_Root' heap', fixupInner fuel x.address m_Root heap = some (m_Root', heap') ∧
      Fixed m_Root heap parent left (.node l x (.node .leaf y rr)) (.node l y rr)
        m_Root' heap' := by
  have hrep := h
  obtain ⟨hx, hl, hy, -, hrr⟩ := h
  obtain ⟨hnl, hnr, hxl, hxr, hlr⟩ := nodup_addresses_node.mp hnodup
  obtain ⟨-, hnrr, -, hyrr, -⟩ := nodup_addresses_node.mp hnr
  have hmemy : y.address ∈ addresses (.node .leaf y rr) :=
    mem_addresses_node.mpr (Or.inr (Or.inl rfl))
  have hyl : y.address ∉ addresses l := fun hmem => hlr _ hmem hmemy
  have hin (b : NodePtr) (hb : b ∈ addresses l ∨ b ∈ addresses (.node .leaf y rr)) :
      b ∈ addresses (.node l x (.node .leaf y rr)) :=
    mem_addresses_node.mpr (hb.elim Or.inl fun hb => Or.inr (Or.inr hb))
  have hincrement : heap.increment fuel x.address = some (some y.address) := by
    rw [length_node] at hfuel
    have hleast := leftMost_spec hrep.2.2 (show _ ≤ fuel by omega)
    rw [Heap.increment, hx]
    simp only [Item.node, rootOf, Option.bind_eq_bind, Option.bind_some, hleast]
    rfl
  obtain ⟨m_Root', heap₁, hreplace, hrelinked, hframe₁⟩ :=
    replaceChild_spec hhangs (some y.address)
  have hsame (b : NodePtr) (hb : b ∈ addresses l ∨ b ∈ addresses (.node .leaf y rr)) :
      heap₁ b = heap b := hframe₁ b (ne_parent hparent (hin b hb))
  have hl₁ : Rep heap₁ (some x.address) l := hl.congr fun b hb => hsame b (Or.inl hb)
  obtain ⟨heap₂, hset, hl₂, hframe₂⟩ := hl₁.reparent hnl (some y.address)
  have hy₁ : heap₁ y.address = some (y.node none (rootOf rr) (some x.address)) := by
    rw [hsame _ (Or.inr hmemy), hy]
    rfl
  have hy₂ : heap₂ y.address = some (y.node none (rootOf rr) (some x.address)) := by
    rw [hframe₂ _ fun heq => hyl (rootOf_mem heq.symm), hy₁]
  have hset₂ : heap₂.modify y.address (fun n => { n with m_Parent := some y.address }) =
      some (heap₂.put y.address (y.node none (rootOf rr) (some y.address))) := modify_eq hy₂ _
  have hset₃ : (heap₂.put y.address (y.node none (rootOf rr) (some y.address))).modify y.address
      (fun n => { n with m_Left := rootOf l, m_Parent := parent }) =
      some ((heap₂.put y.address (y.node none (rootOf rr) (some y.address))).put y.address
        (y.node (rootOf l) (rootOf rr) parent)) := modify_eq (put_self _ _) _
  have hother (b : NodePtr) (hby : b ≠ y.address) (hbl : b ∉ addresses l) :
      ((heap₂.put y.address (y.node none (rootOf rr) (some y.address))).put y.address
        (y.node (rootOf l) (rootOf rr) parent)) b = heap₁ b := by
    rw [put_of_ne _ hby, put_of_ne _ hby, hframe₂ b fun heq => hbl (rootOf_mem heq.symm)]
  refine ⟨m_Root', (heap₂.put y.address (y.node none (rootOf rr) (some y.address))).put y.address
    (y.node (rootOf l) (rootOf rr) parent), ?_,
    ⟨⟨put_self _ _, (hl₂.put hyl _).put hyl _, ?_⟩, ?_, ?_⟩⟩
  · rw [fixupInner, hx]
    simp only [Option.bind_eq_bind, Option.bind_some, hincrement, Item.node, rootOf_node, hreplace,
      hy₁, ne_eq, not_true_eq_false, if_false, hset, setParent_some]
    rw [hset₂, Option.bind_some, hset₃, Option.bind_some]
    rfl
  · refine hrr.congr fun b hb => ?_
    have hbr : b ∈ addresses (.node .leaf y rr) := mem_addresses_node.mpr (Or.inr (Or.inr hb))
    rw [hother b (fun heq => hyrr (heq ▸ hb)) fun hbl => hlr b hbl hbr, hsame b (Or.inr hbr)]
  · refine hrelinked.congr (fun _ _ => rfl) fun q hq => ?_
    have hqT := hparent q hq
    exact hother q (fun heq => hqT (hin q (Or.inr (heq ▸ hmemy)))) fun hql =>
      hqT (hin q (Or.inl hql))
  · intro b hb hbp
    rw [hother b (fun heq => hb (hin b (Or.inr (heq ▸ hmemy)))) fun hbl => hb (hin b (Or.inl hbl)),
      hframe₁ b hbp]

/-- The successor is further down: it is taken out of the right subtree. -/
theorem fixupInner_deep {y : Item Key Element} {rl rr : Shape Key Element} {fuel : ℕ}
    (hdeep : rl ≠ .leaf) (h : Rep heap parent (.node l x (.node rl y rr)))
    (hnodup : (addresses (.node l x (.node rl y rr))).Nodup)
    (hparent : ∀ q, parent = some q → q ∉ addresses (.node l x (.node rl y rr)))
    (hhangs : Hangs m_Root heap parent left x.address)
    (hfuel : (SearchTree.node l x (.node rl y rr)).toList.length ≤ fuel) :
    ∃ m_Root' heap', fixupInner fuel x.address m_Root heap = some (m_Root', heap') ∧
      Fixed m_Root heap parent left (.node l x (.node rl y rr))
        (.node l (SearchTree.takeLeast rl y rr).1 (SearchTree.takeLeast rl y rr).2)
        m_Root' heap' := by
  have hrep := h
  obtain ⟨hx, hl, hr⟩ := h
  obtain ⟨hnl, hnr, hxl, hxr, hlr⟩ := nodup_addresses_node.mp hnodup
  obtain ⟨hleast, hnrest⟩ := nodup_takeLeast hnr
  have hroot' : rootOf (SearchTree.takeLeast rl y rr).2 = some y.address := by
    cases rl with
    | leaf => exact absurd rfl hdeep
    | node => rfl
  have hrestMem (b : NodePtr) (hb : b ∈ addresses (SearchTree.takeLeast rl y rr).2) :
      b ∈ addresses (.node rl y rr) := mem_takeLeast.mpr (Or.inr hb)
  have hmemm : (SearchTree.takeLeast rl y rr).1.address ∈ addresses (.node rl y rr) :=
    mem_takeLeast.mpr (Or.inl rfl)
  have hmy : some (SearchTree.takeLeast rl y rr).1.address ≠ rootOf (.node rl y rr) := by
    intro heq
    rw [rootOf_node, ← hroot'] at heq
    exact hleast (rootOf_mem heq.symm)
  have hincrement : heap.increment fuel x.address =
      some (some (SearchTree.takeLeast rl y rr).1.address) := by
    rw [length_node] at hfuel
    have hleft := leftMost_spec hr (show _ ≤ fuel by omega)
    rw [Heap.increment, hx]
    simp only [Item.node, rootOf_node, Option.bind_eq_bind, Option.bind_some, hleft]
    rfl
  have hdetach := fun heap₃ (hr₃ : Rep heap₃
      (some (SearchTree.takeLeast rl y rr).1.address) (.node rl y rr)) =>
    detach_spec hdeep hr₃ hnr
  obtain ⟨q₀, p₀, -, -, hm₀, hq₀, -⟩ := detach_spec hdeep hr hnr
  generalize SearchTree.takeLeast rl y rr = least at *
  obtain ⟨m, rest⟩ := least
  dsimp only at *
  have hml : m.address ∉ addresses l := fun hmem => hlr _ hmem hmemm
  have hin (b : NodePtr) (hb : b ∈ addresses l ∨ b ∈ addresses (.node rl y rr)) :
      b ∈ addresses (.node l x (.node rl y rr)) :=
    mem_addresses_node.mpr (hb.elim Or.inl fun hb => Or.inr (Or.inr hb))
  obtain ⟨m_Root', heap₁, hreplace, hrelinked, hframe₁⟩ :=
    replaceChild_spec hhangs (some m.address)
  have hsame (b : NodePtr) (hb : b ∈ addresses l ∨ b ∈ addresses (.node rl y rr)) :
      heap₁ b = heap b := hframe₁ b (ne_parent hparent (hin b hb))
  have hl₁ : Rep heap₁ (some x.address) l := hl.congr fun b hb => hsame b (Or.inl hb)
  obtain ⟨heap₂, hset₂, hl₂, hframe₂⟩ := hl₁.reparent hnl (some m.address)
  have hsame₂ (b : NodePtr) (hb : b ∉ addresses l) : heap₂ b = heap₁ b :=
    hframe₂ b fun heq => hb (rootOf_mem heq.symm)
  have hr₂ : Rep heap₂ (some x.address) (.node rl y rr) := hr.congr fun b hb => by
    rw [hsame₂ b fun hbl => hlr b hbl hb, hsame b (Or.inr hb)]
  obtain ⟨heap₃, hset₃, hr₃, hframe₃⟩ := hr₂.reparent hnr (some m.address)
  obtain ⟨q, p, heap₄, heap₅, hm₃, hq, hmodify, hset₅, hrest, hframe₅, hm₅⟩ := hdetach heap₃ hr₃
  have hset₆ : heap₅.modify m.address
      (fun n => { n with m_Left := rootOf l, m_Right := some y.address, m_Parent := parent }) =
      some (heap₅.put m.address (m.node (rootOf l) (some y.address) parent)) :=
    modify_eq (hm₅.trans hm₃) _
  have hq₀x : some q₀ ≠ some x.address := fun heq => hxr (Option.some.inj heq ▸ hq₀)
  have hm₁ : heap₁ m.address = some (m.node none p₀ (some q₀)) := by
    rw [hsame _ (Or.inr hmemm), hm₀]
  have hother (b : NodePtr) (hbr : b ∉ addresses (.node rl y rr)) (hbl : some b ≠ rootOf l) :
      (heap₅.put m.address (m.node (rootOf l) (some y.address) parent)) b = heap₁ b := by
    have hbm : b ≠ m.address := fun heq => hbr (heq ▸ hmemm)
    rw [put_of_ne _ hbm, hframe₅ b hbr, hframe₃ b fun heq => hbr (rootOf_mem heq.symm),
      hframe₂ b hbl]
  refine ⟨m_Root', heap₅.put m.address (m.node (rootOf l) (some y.address) parent), ?_,
    ⟨⟨?_, ?_, hrest.put hleast _⟩, ?_, ?_⟩⟩
  · rw [fixupInner, hx]
    simp only [Option.bind_eq_bind, Option.bind_some, hincrement, Item.node, rootOf_node, hreplace,
      hm₁, ne_eq, hq₀x, not_false_eq_true, if_true, hset₂]
    rw [rootOf_node] at hset₃
    simp only [hset₃, Option.bind_some, hm₃, Item.node]
    rw [hmodify]
    simp only [Option.bind_some, setParent_none, hset₅]
    rw [hset₆]
    rfl
  · rw [put_self, hroot']
  · have hl₅ : Rep heap₅ (some m.address) l := hl₂.congr fun b hb => by
      rw [hframe₅ b (hlr b hb), hframe₃ b fun heq => hlr b hb (rootOf_mem heq.symm)]
    exact hl₅.put hml _
  · refine hrelinked.congr (fun _ _ => rfl) fun q hq => ?_
    have hqT := hparent q hq
    exact hother q (fun hqr => hqT (hin q (Or.inr hqr))) fun heq =>
      hqT (hin q (Or.inl (rootOf_mem heq.symm)))
  · intro b hb hbp
    rw [hother b (fun hbr => hb (hin b (Or.inr hbr))) fun heq =>
      hb (hin b (Or.inl (rootOf_mem heq.symm))), hframe₁ b hbp]

theorem deleteFixup_spec {fuel : ℕ} (h : Rep heap parent (.node l x r))
    (hnodup : (addresses (.node l x r)).Nodup)
    (hparent : ∀ q, parent = some q → q ∉ addresses (.node l x r))
    (hhangs : Hangs m_Root heap parent left x.address)
    (hfuel : (SearchTree.node l x r).toList.length ≤ fuel) :
    ∃ m_Root' heap', deleteFixup fuel x.address m_Root heap = some (m_Root', heap') ∧
      Fixed m_Root heap parent left (.node l x r) (SearchTree.join l r) m_Root' heap' ∧
      heap' x.address = none := by
  have hx := h.1
  obtain ⟨m_Root', heap', hrun, hfixed⟩ : ∃ m_Root' heap',
      (if (rootOf l).isSome = true ∧ (rootOf r).isSome = true then
        fixupInner fuel x.address m_Root heap else fixupOuter x.address m_Root heap) =
          some (m_Root', heap') ∧
      Fixed m_Root heap parent left (.node l x r) (SearchTree.join l r) m_Root' heap' := by
    cases l with
    | leaf => exact fixupOuter_spec (Or.inl rfl) h hnodup hparent hhangs
    | node ll z lr =>
      cases r with
      | leaf =>
        simp only [rootOf, Option.isSome_none, Bool.false_eq_true, and_false, if_false]
        exact fixupOuter_spec (Or.inr rfl) h hnodup hparent hhangs
      | node rl y rr =>
        simp only [rootOf_node, Option.isSome_some, and_self, if_true]
        cases rl with
        | leaf => exact fixupInner_child h hnodup hparent hhangs hfuel
        | node rll w rlr => exact fixupInner_deep (by simp) h hnodup hparent hhangs hfuel
  obtain ⟨-, -, hxl, hxr, -⟩ := nodup_addresses_node.mp hnodup
  have hxT : x.address ∈ addresses (.node l x r) := mem_addresses_node.mpr (Or.inr (Or.inl rfl))
  have hfree (b : NodePtr) (hb : b ≠ x.address) : heap'.free x.address b = heap' b :=
    Function.update_of_ne hb _ _
  refine ⟨m_Root', heap'.free x.address, ?_, ⟨?_, ?_, ?_⟩, Function.update_self _ _ _⟩
  · rw [deleteFixup, hx, Option.bind_eq_bind, Option.bind_some, Option.bind_eq_bind]
    exact congrArg (fun r => r.bind fun r => some (r.1, r.2.free x.address)) hrun
  · refine hfixed.rep.congr fun b hb => hfree b fun heq => ?_
    rw [addresses_join, List.mem_append] at hb
    subst heq
    exact hb.elim hxl hxr
  · refine hfixed.relinked.congr (fun _ _ => rfl) fun q hq => hfree q fun heq => ?_
    exact hparent q hq (heq ▸ hxT)
  · intro b hb hbp
    rw [hfree b fun heq => hb (heq ▸ hxT), hfixed.frame b hb hbp]

/-- The subtree still hangs where it did when the node above it has not changed. -/
theorem Hangs.relinked (h : Hangs m_Root heap parent left a)
    (hheap : ∀ q, parent = some q → heap' q = heap q) (hroot : m_Root' = m_Root) :
    Relinked m_Root heap parent left (some a) m_Root' heap' := by
  cases parent with
  | none => exact hroot.trans h
  | some q =>
    obtain ⟨n, hn, hleft, hright⟩ := h
    refine ⟨hroot, n, hn, ?_⟩
    rw [hheap q rfl, hn]
    cases left with
    | true => rw [if_pos rfl, ← hleft.mp rfl]
    | false => rw [if_neg Bool.false_ne_true, ← hright rfl]

/-- The rest of the tree when its left subtree has been changed in place. -/
theorem Fixed.inLeft {T' : Shape Key Element} (h : Rep heap parent (.node l x r))
    (hnodup : (addresses (.node l x r)).Nodup)
    (hparent : ∀ q, parent = some q → q ∉ addresses (.node l x r))
    (hhangs : Hangs m_Root heap parent left x.address)
    (hf : Fixed m_Root heap (some x.address) true l T' m_Root' heap') :
    Fixed m_Root heap parent left (.node l x r) (.node T' x r) m_Root' heap' := by
  obtain ⟨hx, hl, hr⟩ := h
  obtain ⟨-, -, hxl, hxr, hlr⟩ := nodup_addresses_node.mp hnodup
  obtain ⟨hroot, n, hn, hn'⟩ := hf.relinked
  rw [hx, Option.some.injEq] at hn
  subst hn
  have hout (b : NodePtr) (hb : b ∉ addresses (.node l x r)) : heap' b = heap b := by
    rw [mem_addresses_node, not_or, not_or] at hb
    exact hf.frame b hb.1 fun heq => hb.2.1 (Option.some.inj heq)
  refine ⟨⟨hn', hf.rep, ?_⟩, ?_, fun b hb _ => hout b hb⟩
  · exact hr.congr fun b hb => hf.frame b (fun hbl => hlr b hbl hb) fun heq =>
      hxr (Option.some.inj heq ▸ hb)
  · exact hhangs.relinked (fun q hq => hout q (hparent q hq)) hroot

theorem Fixed.inRight {T' : Shape Key Element} (h : Rep heap parent (.node l x r))
    (hnodup : (addresses (.node l x r)).Nodup)
    (hparent : ∀ q, parent = some q → q ∉ addresses (.node l x r))
    (hhangs : Hangs m_Root heap parent left x.address)
    (hf : Fixed m_Root heap (some x.address) false r T' m_Root' heap') :
    Fixed m_Root heap parent left (.node l x r) (.node l x T') m_Root' heap' := by
  obtain ⟨hx, hl, hr⟩ := h
  obtain ⟨-, -, hxl, hxr, hlr⟩ := nodup_addresses_node.mp hnodup
  obtain ⟨hroot, n, hn, hn'⟩ := hf.relinked
  rw [hx, Option.some.injEq] at hn
  subst hn
  have hout (b : NodePtr) (hb : b ∉ addresses (.node l x r)) : heap' b = heap b := by
    rw [mem_addresses_node, not_or, not_or] at hb
    exact hf.frame b hb.2.2 fun heq => hb.2.1 (Option.some.inj heq)
  refine ⟨⟨hn', ?_, hf.rep⟩, ?_, fun b hb _ => hout b hb⟩
  · exact hl.congr fun b hb => hf.frame b (hlr b hb) fun heq => hxl (Option.some.inj heq ▸ hb)
  · exact hhangs.relinked (fun q hq => hout q (hparent q hq)) hroot

/-- Below a node, the subtrees hang on its two sides. -/
theorem Rep.hangsLeft (h : Rep heap parent (.node l x r)) (ha : rootOf l = some a) :
    Hangs m_Root heap (some x.address) true a :=
  ⟨_, h.1, by simp [Item.node, ha], by simp⟩

theorem Rep.hangsRight (h : Rep heap parent (.node l x r))
    (hnodup : (addresses (.node l x r)).Nodup) (ha : rootOf r = some a) :
    Hangs m_Root heap (some x.address) false a := by
  obtain ⟨-, -, -, -, hlr⟩ := nodup_addresses_node.mp hnodup
  have hne : rootOf l ≠ some a := fun heq => hlr a (rootOf_mem heq) (rootOf_mem ha)
  exact ⟨_, h.1, by simp [Item.node, hne], fun _ => ha⟩

section Deletion
variable [LinearOrder Key] {a_Key : Key}

/-- What a deletion in a subtree does: nothing if the key is not there, and else it takes the item
out. -/
def Deletes (m_Root : Option NodePtr) (heap : Heap Key Element) (parent : Option NodePtr)
    (left : Bool) (T : Shape Key Element) (a_Key : Key) (rounds : ℕ)
    (found : Option (Option NodePtr)) : Prop :=
  ((∀ y ∈ T.toList, y.key ≠ a_Key) ∧ found = some none) ∨
  ∃ u y v T' m_Root' heap', T.toList = u ++ y :: v ∧ y.key = a_Key ∧ T'.toList = u ++ v ∧
    found = some (some y.address) ∧
    deleteFixup rounds y.address m_Root heap = some (m_Root', heap') ∧
    Fixed m_Root heap parent left T T' m_Root' heap' ∧ heap' y.address = none

theorem delete_search (a_Key : Key) (m_Root : Option NodePtr) (left : Bool) {fuel rounds : ℕ}
    (h : Rep heap parent T) (hnodup : (addresses T).Nodup) (hsorted : SortedItems T.toList)
    (hparent : ∀ q, parent = some q → q ∉ addresses T)
    (hhangs : ∀ a, rootOf T = some a → Hangs m_Root heap parent left a)
    (hfuel : T.toList.length ≤ fuel) (hrounds : T.toList.length ≤ rounds) :
    Deletes m_Root heap parent left T a_Key rounds (search heap a_Key fuel (rootOf T)) := by
  induction T generalizing parent fuel left with
  | leaf =>
    left
    exact ⟨List.forall_mem_nil _, by cases fuel <;> rfl⟩
  | node l x r ihl ihr =>
    obtain ⟨hnl, hnr, hxl, hxr, hlr⟩ := nodup_addresses_node.mp hnodup
    obtain ⟨hsl, hsr, hlkeys, hrkeys⟩ := hsorted.node
    have hhangsx := hhangs x.address rfl
    rw [length_node] at hfuel
    obtain ⟨fuel, rfl⟩ : ∃ f, fuel = f + 1 := ⟨fuel - 1, by omega⟩
    rcases lt_trichotomy a_Key x.key with hlt | heq | hgt
    · have hstep : search heap a_Key (fuel + 1) (rootOf (.node l x r)) =
          search heap a_Key fuel (rootOf l) := by
        simp [search, h.1, Item.node, rootOf_node, compare_lt_iff_lt.mpr hlt]
      have hrec := ihl true h.2.1 hnl hsl (fun q hq => Option.some.inj hq ▸ hxl)
        (fun a ha => h.hangsLeft ha) (show _ ≤ fuel by omega)
        (by rw [length_node] at hrounds; omega)
      rw [hstep]
      rcases hrec with ⟨hkeys, hrun⟩ |
        ⟨u, y, v, T', m_Root', heap', hu, hkey, hv, hrun, hfix, hf, hy⟩
      · exact Or.inl ⟨keys_ne_of_left hsorted hlt hkeys, hrun⟩
      · right
        refine ⟨u, y, v ++ x :: r.toList, .node T' x r, m_Root', heap', ?_, hkey, ?_, hrun, hfix,
          hf.inLeft h hnodup hparent hhangsx, hy⟩
        · rw [SearchTree.toList, hu, List.append_assoc, List.cons_append]
        · rw [SearchTree.toList, hv, List.append_assoc]
    · have hstep : search heap a_Key (fuel + 1) (rootOf (.node l x r)) = some (some x.address) := by
        simp [search, h.1, Item.node, rootOf_node, compare_eq_iff_eq.mpr heq]
      obtain ⟨m_Root', heap', hfix, hf, hy⟩ := deleteFixup_spec h hnodup hparent hhangsx hrounds
      exact Or.inr ⟨l.toList, x, r.toList, SearchTree.join l r, m_Root', heap', rfl, heq.symm,
        SearchTree.toList_join l r, hstep, hfix, hf, hy⟩
    · have hstep : search heap a_Key (fuel + 1) (rootOf (.node l x r)) =
          search heap a_Key fuel (rootOf r) := by
        simp [search, h.1, Item.node, rootOf_node, compare_gt_iff_gt.mpr hgt]
      have hrec := ihr false h.2.2 hnr hsr (fun q hq => Option.some.inj hq ▸ hxr)
        (fun a ha => h.hangsRight hnodup ha) (show _ ≤ fuel by omega)
        (by rw [length_node] at hrounds; omega)
      rw [hstep]
      rcases hrec with ⟨hkeys, hrun⟩ |
        ⟨u, y, v, T', m_Root', heap', hu, hkey, hv, hrun, hfix, hf, hy⟩
      · exact Or.inl ⟨keys_ne_of_right hsorted hgt hkeys, hrun⟩
      · right
        refine ⟨l.toList ++ x :: u, y, v, .node l x T', m_Root', heap', ?_, hkey, ?_, hrun, hfix,
          hf.inRight h hnodup hparent hhangsx, hy⟩
        · rw [SearchTree.toList, hu, List.append_assoc, List.cons_append]
        · rw [SearchTree.toList, hv, List.append_assoc, List.cons_append]

end Deletion

end NtAdmin.Wmi.Containers.BasicTree
