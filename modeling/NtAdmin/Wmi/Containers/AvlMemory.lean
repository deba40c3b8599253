import NtAdmin.Wmi.Containers.AvlTree

/-! What it is for a tree to stand in memory. -/
namespace NtAdmin.Wmi.Containers

open NtAdmin.Lib.Avl

structure AvlItem (Key Element : Type) where
  address : NodePtr
  key : Key
  element : Element

variable {Key Element : Type}

/-- The nodes in memory. -/
abbrev Heap (Key Element : Type) := NodePtr → Option (WmiAvlNode Key Element)

/-- The node of an item with the subtree `c` on side `s`. -/
def AvlItem.node (x : AvlItem Key Element) (s : Side) (c o parent : Option NodePtr)
    (state : WmAvlState) : WmiAvlNode Key Element :=
  match s with
  | .left => ⟨x.key, c, o, parent, state, x.element⟩
  | .right => ⟨x.key, o, c, parent, state, x.element⟩

def root : Bst (AvlItem Key Element) → Option NodePtr
  | .nil => none
  | .node _ x _ _ => some x.address

def addresses (T : Bst (AvlItem Key Element)) : List NodePtr :=
  T.toList.map AvlItem.address

/-- The tree stands in memory under the node `parent`. -/
def Rep (heap : Heap Key Element) : Option NodePtr → Bst (AvlItem Key Element) → Prop
  | _, .nil => True
  | parent, .node l x state r =>
    heap x.address = some (x.node .left (root l) (root r) parent state) ∧
      Rep heap (some x.address) l ∧ Rep heap (some x.address) r

/-- The parent of a subtree. -/
def above (parent : Option NodePtr) : List (Frame (AvlItem Key Element)) → Option NodePtr
  | [] => parent
  | f :: _ => some f.x.address

theorem above_nil (parent : Option NodePtr) :
    above parent ([] : List (Frame (AvlItem Key Element))) = parent := rfl

theorem above_cons (parent : Option NodePtr) (f : Frame (AvlItem Key Element))
    (ctx : List (Frame (AvlItem Key Element))) : above parent (f :: ctx) = some f.x.address := rfl

/-- The way down to the node `hole` stands in memory. -/
def RepPath (heap : Heap Key Element) (parent : Option NodePtr) :
    Option NodePtr → List (Frame (AvlItem Key Element)) → Prop
  | _, [] => True
  | hole, f :: ctx =>
    heap f.x.address =
        some (f.x.node f.side hole (root f.sibling) (above parent ctx) f.state) ∧
      Rep heap (some f.x.address) f.sibling ∧ RepPath heap parent (some f.x.address) ctx

def topmost (hole : Option NodePtr) : List (Frame (AvlItem Key Element)) → Option NodePtr
  | [] => hole
  | f :: ctx => topmost (some f.x.address) ctx

def pathAddresses : List (Frame (AvlItem Key Element)) → List NodePtr
  | [] => []
  | f :: ctx => f.x.address :: (addresses f.sibling ++ pathAddresses ctx)

section lemmas
variable {heap heap' : Heap Key Element} {T c o : Bst (AvlItem Key Element)}
  {x : AvlItem Key Element} {s : Side} {parent hole : Option NodePtr} {state : WmAvlState}
  {ctx : List (Frame (AvlItem Key Element))}

/-! ### Nodes -/

@[simp] theorem node_child {c o : Option NodePtr} :
    (x.node s c o parent state).child s = c := by
  cases s <;> rfl

@[simp] theorem node_child_other {c o : Option NodePtr} :
    (x.node s c o parent state).child s.other = o := by
  cases s <;> rfl

@[simp] theorem node_state {c o : Option NodePtr} :
    (x.node s c o parent state).m_State = state := by
  cases s <;> rfl

@[simp] theorem node_parent {c o : Option NodePtr} :
    (x.node s c o parent state).m_Parent = parent := by
  cases s <;> rfl

theorem node_left {c o : Option NodePtr} :
    (x.node .left c o parent state).m_Left = c := rfl

theorem node_right {c o : Option NodePtr} :
    (x.node .left c o parent state).m_Right = o := rfl

theorem node_key {c o : Option NodePtr} :
    (x.node s c o parent state).m_Key = x.key := by
  cases s <;> rfl

@[simp] theorem node_setChild {c o c' : Option NodePtr} :
    (x.node s c o parent state).setChild s c' = x.node s c' o parent state := by
  cases s <;> rfl

@[simp] theorem node_setChild_other {c o o' : Option NodePtr} :
    (x.node s c o parent state).setChild s.other o' = x.node s c o' parent state := by
  cases s <;> rfl

/-- A node with another state under another parent. -/
@[simp] theorem node_with {c o : Option NodePtr} (state' : WmAvlState)
    (parent' : Option NodePtr) :
    { x.node s c o parent state with m_State := state', m_Parent := parent' } =
      x.node s c o parent' state' := by
  cases s <;> rfl

theorem node_other {c o : Option NodePtr} :
    x.node s.other c o parent state = x.node s o c parent state := by
  cases s <;> rfl

/-! ### Trees -/

@[simp] theorem root_mk : root (Bst.mk s c x state o) = some x.address := by
  cases s <;> rfl

@[simp] theorem rep_nil : Rep heap parent .nil ↔ True := Iff.rfl

@[simp] theorem rep_mk : Rep heap parent (.mk s c x state o) ↔
    heap x.address = some (x.node s (root c) (root o) parent state) ∧
      Rep heap (some x.address) c ∧ Rep heap (some x.address) o := by
  cases s with
  | left => rfl
  | right => exact and_congr_right fun _ => and_comm

theorem addresses_mk_perm : (addresses (Bst.mk s c x state o)).Perm
    (x.address :: (addresses c ++ addresses o)) := by
  have h := (Bst.toList_mk_perm s c x state o).map AvlItem.address
  rwa [List.map_cons, List.map_append] at h

@[simp] theorem mem_addresses_mk {a : NodePtr} : a ∈ addresses (Bst.mk s c x state o) ↔
    a = x.address ∨ a ∈ addresses c ∨ a ∈ addresses o := by
  rw [addresses_mk_perm.mem_iff, List.mem_cons, List.mem_append]

@[simp] theorem not_mem_addresses_nil {a : NodePtr} :
    a ∉ addresses (.nil : Bst (AvlItem Key Element)) := List.not_mem_nil

@[simp] theorem nodup_addresses_mk : (addresses (Bst.mk s c x state o)).Nodup ↔
    (x.address ∉ addresses c ∧ x.address ∉ addresses o) ∧ (addresses c).Nodup ∧
      (addresses o).Nodup ∧ ∀ a ∈ addresses c, a ∉ addresses o := by
  rw [addresses_mk_perm.nodup_iff, List.nodup_cons, List.nodup_append, List.mem_append, not_or]
  have hdisjoint : (∀ a ∈ addresses c, ∀ b ∈ addresses o, a ≠ b) ↔
      ∀ a ∈ addresses c, a ∉ addresses o := by
    constructor
    · exact fun h a hc ho => h a hc a ho rfl
    · intro h a hc b ho hab
      exact h a hc (hab ▸ ho)
  rw [hdisjoint]

theorem root_mem {a : NodePtr} (h : root T = some a) : a ∈ addresses T := by
  cases T with
  | nil => nomatch h
  | node l x state r =>
    obtain rfl := Option.some.inj h
    simp [addresses, Bst.toList]

theorem Rep.isSome {a : NodePtr} (h : Rep heap parent T) (ha : a ∈ addresses T) :
    (heap a).isSome = true := by
  induction T generalizing parent with
  | nil => nomatch ha
  | node l x state r ihl ihr =>
    change a ∈ addresses (.mk .left l x state r) at ha
    obtain ⟨hx, hl, hr⟩ := h
    rcases mem_addresses_mk.mp ha with rfl | hal | har
    · rw [hx]
      rfl
    · exact ihl hl hal
    · exact ihr hr har

/-- Each item stands in memory. -/
theorem Rep.node_of_mem (h : Rep heap parent T) (hx : x ∈ T.toList) :
    ∃ n, heap x.address = some n ∧ n.m_Key = x.key ∧ n.m_Element = x.element := by
  induction T generalizing parent with
  | nil => nomatch hx
  | node l y state r ihl ihr =>
    obtain ⟨hy, hl, hr⟩ := h
    rcases List.mem_append.mp hx with hx | hx
    · exact ihl hl hx
    · rcases List.mem_cons.mp hx with rfl | hx
      · exact ⟨_, hy, rfl, rfl⟩
      · exact ihr hr hx

/-- Only the nodes of the tree matter. -/
theorem Rep.congr (h : Rep heap parent T) (hheap : ∀ a ∈ addresses T, heap' a = heap a) :
    Rep heap' parent T := by
  induction T generalizing parent with
  | nil => trivial
  | node l x state r ihl ihr =>
    change Rep heap' parent (.mk .left l x state r)
    change Rep heap parent (.mk .left l x state r) at h
    change ∀ a ∈ addresses (.mk .left l x state r), heap' a = heap a at hheap
    rw [rep_mk] at h ⊢
    simp only [mem_addresses_mk] at hheap
    obtain ⟨hx, hl, hr⟩ := h
    constructor
    · rw [hheap _ (Or.inl rfl), hx]
    · exact ⟨ihl hl fun a ha => hheap a (Or.inr (Or.inl ha)),
        ihr hr fun a ha => hheap a (Or.inr (Or.inr ha))⟩

@[simp] theorem rep_update {a : NodePtr} {n : Option (WmiAvlNode Key Element)}
    (ha : a ∉ addresses T) : Rep (Function.update heap a n) parent T ↔ Rep heap parent T := by
  have hne : ∀ b ∈ addresses T, Function.update heap a n b = heap b := by
    intro b hb
    exact Function.update_of_ne (ne_of_mem_of_not_mem hb ha) _ _
  constructor
  · exact fun h => h.congr fun b hb => (hne b hb).symm
  · exact fun h => h.congr hne

/-! ### Paths -/

theorem RepPath.congr (h : RepPath heap parent hole ctx)
    (hheap : ∀ a ∈ pathAddresses ctx, heap' a = heap a) : RepPath heap' parent hole ctx := by
  induction ctx generalizing hole with
  | nil => trivial
  | cons f ctx ih =>
    obtain ⟨hf, hsibling, hctx⟩ := h
    constructor
    · rw [hheap _ List.mem_cons_self, hf]
    constructor
    · exact hsibling.congr fun a ha =>
        hheap a (List.mem_cons_of_mem _ (List.mem_append_left _ ha))
    · exact ih hctx fun a ha => hheap a (List.mem_cons_of_mem _ (List.mem_append_right _ ha))

@[simp] theorem repPath_update {a : NodePtr} {n : Option (WmiAvlNode Key Element)}
    (ha : a ∉ pathAddresses ctx) :
    RepPath (Function.update heap a n) parent hole ctx ↔ RepPath heap parent hole ctx := by
  have hne : ∀ b ∈ pathAddresses ctx, Function.update heap a n b = heap b := by
    intro b hb
    exact Function.update_of_ne (ne_of_mem_of_not_mem hb ha) _ _
  constructor
  · exact fun h => h.congr fun b hb => (hne b hb).symm
  · exact fun h => h.congr hne

/-- A tree stands in memory if one of its subtrees does and so does the way to it. -/
theorem rep_plug : Rep heap parent (T.plug ctx) ↔
    RepPath heap parent (root T) ctx ∧ Rep heap (above parent ctx) T := by
  induction ctx generalizing T with
  | nil => simp [Bst.plug, RepPath, above]
  | cons f ctx ih =>
    unfold Bst.plug RepPath
    rw [ih, rep_mk, root_mk]
    change _ ↔ _ ∧ Rep heap (some f.x.address) T
    constructor
    · rintro ⟨hctx, hf, hT, hsibling⟩
      exact ⟨⟨hf, hsibling, hctx⟩, hT⟩
    · rintro ⟨⟨hf, hsibling, hctx⟩, hT⟩
      exact ⟨hctx, hf, hT, hsibling⟩

theorem root_plug : root (T.plug ctx) = topmost (root T) ctx := by
  induction ctx generalizing T with
  | nil => rfl
  | cons f ctx ih =>
    unfold Bst.plug topmost
    rw [ih, root_mk]

theorem addresses_plug_perm :
    (addresses (T.plug ctx)).Perm (addresses T ++ pathAddresses ctx) := by
  induction ctx generalizing T with
  | nil => simp [Bst.plug, pathAddresses]
  | cons f ctx ih =>
    unfold Bst.plug pathAddresses
    refine ih.trans ?_
    have hmk : (addresses (Bst.mk f.side T f.x f.state f.sibling) ++ pathAddresses ctx).Perm _ :=
      addresses_mk_perm.append_right (pathAddresses ctx)
    refine hmk.trans ?_
    rw [List.cons_append, List.append_assoc]
    exact List.perm_middle.symm

end lemmas

end NtAdmin.Wmi.Containers
