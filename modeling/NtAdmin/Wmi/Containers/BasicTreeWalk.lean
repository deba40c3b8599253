import NtAdmin.Wmi.Containers.BasicTreeSpec

/-! Searching a tree in memory, and going through it by the links to the parents. -/
namespace NtAdmin.Wmi.Containers.BasicTree
open Lib WmiStatusCode

variable {Key Element : Type} {heap : Heap Key Element} {T l r : Shape Key Element}
  {x : Item Key Element} {parent after : Option NodePtr} {a : NodePtr} {cost rounds : ℕ}

/-- Going up from the root of a subtree ends at the node after it. -/
def EndsAt (heap : Heap Key Element) (cost : ℕ) (T : Shape Key Element) (after : Option NodePtr) :
    Prop :=
  ∀ a, rootOf T = some a → ∀ rounds, cost < rounds → heap.ascend rounds a = some after

/-- `Increment` goes from each item to the next, and from the last one to `after`. -/
def Linked (heap : Heap Key Element) (rounds : ℕ) (after : Option NodePtr) :
    List (Item Key Element) → Prop
  | [] => True
  | y :: rest =>
    heap.increment rounds y.address = some ((rest.head?.map Item.address).or after) ∧
      Linked heap rounds after rest

theorem Linked.append {xs ys : List (Item Key Element)}
    (hxs : Linked heap rounds ((ys.head?.map Item.address).or after) xs)
    (hys : Linked heap rounds after ys) : Linked heap rounds after (xs ++ ys) := by
  induction xs with
  | nil => exact hys
  | cons y rest ih =>
    obtain ⟨hy, hrest⟩ := hxs
    refine ⟨?_, ih hrest⟩
    rw [hy]
    cases rest <;> rfl

theorem endsAt_root (h : Rep heap none T) : EndsAt heap 0 T none := by
  intro a ha rounds hrounds
  obtain ⟨rounds, rfl⟩ : ∃ n, rounds = n + 1 := ⟨rounds - 1, by omega⟩
  cases T with
  | leaf => cases ha
  | node l x r =>
    obtain rfl := Option.some.inj ha
    rw [Heap.ascend, h.1]
    rfl

/-- After the left subtree comes the node. -/
theorem endsAt_left (h : Rep heap parent (.node l x r)) (hnodup : (addresses (.node l x r)).Nodup) :
    EndsAt heap 0 l (some x.address) := by
  intro a ha rounds hrounds
  obtain ⟨hx, hl, -⟩ := h
  obtain ⟨-, -, -, -, hlr⟩ := nodup_addresses_node.mp hnodup
  obtain ⟨rounds, rfl⟩ : ∃ n, rounds = n + 1 := ⟨rounds - 1, by omega⟩
  cases l with
  | leaf => cases ha
  | node ll y lr =>
    obtain rfl := Option.some.inj ha
    have hne : rootOf r ≠ some y.address := fun heq => hlr _ (rootOf_mem ha) (rootOf_mem heq)
    simp [Heap.ascend, hl.1, Item.node, hx, hne]

/-- After the right subtree comes what is after the tree. -/
theorem endsAt_right (h : Rep heap parent (.node l x r))
    (hends : EndsAt heap cost (.node l x r) after) : EndsAt heap (cost + 1) r after := by
  intro a ha rounds hrounds
  obtain ⟨hx, -, hr⟩ := h
  obtain ⟨rounds, rfl⟩ : ∃ n, rounds = n + 1 := ⟨rounds - 1, by omega⟩
  cases r with
  | leaf => cases ha
  | node rl y rr =>
    obtain rfl := Option.some.inj ha
    have hup := hends x.address rfl rounds (by omega)
    simp [Heap.ascend, hr.1, Item.node, hx, rootOf_node, hup]

theorem head_toList_node :
    (SearchTree.node l x r).toList.head? = some (SearchTree.takeLeast l x r).1 := by
  rw [← SearchTree.toList_takeLeast]
  rfl

theorem increment_node (h : Rep heap parent (.node l x r))
    (hends : EndsAt heap cost (.node l x r) after)
    (hrounds : cost + r.toList.length < rounds) :
    heap.increment rounds x.address = some ((r.toList.head?.map Item.address).or after) := by
  obtain ⟨hx, -, hr⟩ := h
  rw [Heap.increment, hx]
  cases r with
  | leaf => exact hends x.address rfl rounds (by omega)
  | node rl y rr =>
    have hleast := leftMost_spec hr (show _ ≤ rounds by omega)
    simp only [Item.node, rootOf_node, Option.bind_eq_bind, Option.bind_some, hleast,
      head_toList_node]
    rfl

theorem linked_toList (h : Rep heap parent T) (hnodup : (addresses T).Nodup)
    (hends : EndsAt heap cost T after) (hrounds : cost + T.toList.length ≤ rounds) :
    Linked heap rounds after T.toList := by
  induction T generalizing parent cost after with
  | leaf => trivial
  | node l x r ihl ihr =>
    obtain ⟨hnl, hnr, -, -, -⟩ := nodup_addresses_node.mp hnodup
    rw [length_node] at hrounds
    have hleft := ihl h.2.1 hnl (endsAt_left h hnodup) (by omega)
    have hright := ihr h.2.2 hnr (endsAt_right h hends) (by omega)
    have hx := increment_node h hends (show _ < rounds by omega)
    exact Linked.append hleft ⟨hx, hright⟩

theorem begin_spec {tree : WmiBasicTree} (h : Rep heap none T) (hroot : tree.m_Root = rootOf T)
    (hsize : tree.m_Size = T.toList.length) :
    begin tree heap = some (T.toList.head?.map Item.address) := by
  cases T with
  | leaf =>
    rw [begin, hroot]
    rfl
  | node l x r =>
    have hleast := leftMost_spec h (Nat.le_of_eq hsize.symm)
    rw [begin, hroot, rootOf_node, head_toList_node]
    simp only [hleast]
    rfl

/-- The pair that an item stands for. -/
def Item.pair (x : Item Key Element) : Key × Element := (x.key, x.element)

theorem walk_spec {fuel : ℕ} {items : List (Item Key Element)}
    (hnodes : ∀ y ∈ items, ∃ n, heap y.address = some n ∧ n.m_Key = y.key ∧
      n.m_Element = y.element)
    (hlinked : Linked heap rounds none items) (hfuel : items.length ≤ fuel) :
    walk heap rounds fuel (items.head?.map Item.address) = some (items.map Item.pair) := by
  induction items generalizing fuel with
  | nil => cases fuel <;> rfl
  | cons y rest ih =>
    obtain ⟨n, hn, hkey, helement⟩ := hnodes y List.mem_cons_self
    obtain ⟨hy, hrest⟩ := hlinked
    rw [List.length_cons] at hfuel
    obtain ⟨fuel, rfl⟩ : ∃ f, fuel = f + 1 := ⟨fuel - 1, by omega⟩
    have hrec := ih (fun z hz => hnodes z (List.mem_cons_of_mem y hz)) hrest
      (show _ ≤ fuel by omega)
    rw [Option.or_none] at hy
    simp [walk, hn, hy, hrec, Item.pair, hkey, helement]

/-- An iteration meets each item once, in their order. -/
theorem iterate_spec {tree : WmiBasicTree} (h : Rep heap none T) (hnodup : (addresses T).Nodup)
    (hroot : tree.m_Root = rootOf T) (hsize : tree.m_Size = T.toList.length) :
    iterate tree heap = some (T.toList.map Item.pair) := by
  have hlinked := linked_toList h hnodup (endsAt_root h)
    (show 0 + T.toList.length ≤ tree.m_Size by omega)
  rw [iterate, begin_spec h hroot hsize]
  exact walk_spec (fun y hy => h.node_of_mem hy) hlinked (Nat.le_of_eq hsize.symm)

section Ordered
variable [LinearOrder Key] {a_Key : Key} {tree : WmiBasicTree}

/-- `Find` of a key that is there, and of one that is not. -/
theorem find_spec (a_Key : Key) (h : Rep heap none T) (hnodup : (addresses T).Nodup)
    (hsorted : SortedItems T.toList) (hroot : tree.m_Root = rootOf T)
    (hsize : tree.m_Size = T.toList.length) :
    ((∀ y ∈ T.toList, y.key ≠ a_Key) ∧
      find tree a_Key heap = some (e_StatusCode_NotFound, none)) ∨
    ∃ y ∈ T.toList, y.key = a_Key ∧
      find tree a_Key heap = some (e_StatusCode_Success, some y.address) := by
  have hsearch := delete_search a_Key (rootOf T) true h hnodup hsorted
    (fun q hq => absurd hq (Option.some_ne_none q).symm) (fun a ha => ha) (Nat.le_of_eq hsize.symm)
    (Nat.le_refl T.toList.length)
  rw [← hroot] at hsearch
  rcases hsearch with ⟨hkeys, hrun⟩ | ⟨u, y, v, -, -, -, hu, hkey, -, hrun, -⟩
  · left
    refine ⟨hkeys, ?_⟩
    rw [find, hrun]
    rfl
  · right
    refine ⟨y, ?_, hkey, ?_⟩
    · rw [hu]
      exact List.mem_append_right _ List.mem_cons_self
    · rw [find, hrun]
      rfl

/-- The first item with a greater key. -/
def firstAbove (a_Key : Key) (items : List (Item Key Element)) : Option (Item Key Element) :=
  items.find? fun y => a_Key < y.key

theorem firstAbove_node_of_lt (hlt : a_Key < x.key) :
    firstAbove a_Key (SearchTree.node l x r).toList = (firstAbove a_Key l.toList).or (some x) := by
  rw [firstAbove, SearchTree.toList, List.find?_append, List.find?_cons_of_pos (by simpa using hlt)]
  rfl

theorem firstAbove_node_of_le (hsorted : SortedItems (SearchTree.node l x r).toList)
    (hle : x.key ≤ a_Key) :
    firstAbove a_Key (SearchTree.node l x r).toList = firstAbove a_Key r.toList := by
  obtain ⟨-, -, hlkeys, -⟩ := hsorted.node
  have hnone : l.toList.find? (fun y => decide (a_Key < y.key)) = none := by
    rw [List.find?_eq_none]
    intro y hy habove
    exact absurd ((hlkeys y hy).trans_le hle) (of_decide_eq_true habove).not_gt
  rw [firstAbove, SearchTree.toList, List.find?_append, hnone,
    List.find?_cons_of_neg (by simpa using hle)]
  rfl

theorem firstAbove_eq_head {items : List (Item Key Element)} (h : ∀ y ∈ items, a_Key < y.key) :
    firstAbove a_Key items = items.head? := by
  cases items with
  | nil => rfl
  | cons y rest =>
    have hy := h y List.mem_cons_self
    rw [firstAbove, List.find?_cons_of_pos (by simpa using hy)]
    rfl

theorem findNextLoop_spec (a_Key : Key) {fuel : ℕ} {p : NodePtr} (h : Rep heap parent T)
    (hnodup : (addresses T).Nodup) (hsorted : SortedItems T.toList)
    (hends : EndsAt heap cost T after) (hroot : rootOf T = some p)
    (hfuel : T.toList.length ≤ fuel) (hrounds : cost + T.toList.length ≤ rounds) :
    findNextLoop heap a_Key rounds fuel p =
      some (((firstAbove a_Key T.toList).map Item.address).or after) := by
  induction T generalizing parent fuel p cost after with
  | leaf => cases hroot
  | node l x r ihl ihr =>
    obtain rfl := Option.some.inj hroot
    obtain ⟨hnl, hnr, -, -, -⟩ := nodup_addresses_node.mp hnodup
    obtain ⟨hsl, hsr, -, hrkeys⟩ := hsorted.node
    rw [length_node] at hfuel hrounds
    obtain ⟨fuel, rfl⟩ : ∃ f, fuel = f + 1 := ⟨fuel - 1, by omega⟩
    have hincrement := increment_node h hends (show _ < rounds by omega)
    rcases lt_trichotomy a_Key x.key with hlt | heq | hgt
    · have hcompare := compare_lt_iff_lt.mpr hlt
      rw [firstAbove_node_of_lt hlt, findNextLoop, h.1]
      cases hl : rootOf l with
      | some p =>
        have hrec := ihl h.2.1 hnl hsl (endsAt_left h hnodup) hl (show _ ≤ fuel by omega)
          (show _ ≤ rounds by omega)
        simp only [Item.node, Option.bind_eq_bind, Option.bind_some, hcompare, hrec]
        cases firstAbove a_Key l.toList <;> rfl
      | none =>
        obtain rfl := rootOf_eq_none hl
        simp only [Item.node, Option.bind_eq_bind, Option.bind_some, hcompare]
        rfl
    · have hcompare := compare_eq_iff_eq.mpr heq
      have hhead : firstAbove a_Key r.toList = r.toList.head? :=
        firstAbove_eq_head fun y hy => heq ▸ hrkeys y hy
      rw [firstAbove_node_of_le hsorted heq.ge, hhead, findNextLoop, h.1]
      simp only [Item.node, Option.bind_eq_bind, Option.bind_some, hcompare, hincrement]
    · have hcompare := compare_gt_iff_gt.mpr hgt
      rw [firstAbove_node_of_le hsorted hgt.le, findNextLoop, h.1]
      cases hr : rootOf r with
      | some p =>
        have hrec := ihr h.2.2 hnr hsr (endsAt_right h hends) hr (show _ ≤ fuel by omega)
          (show _ ≤ rounds by omega)
        simp only [Item.node, Option.bind_eq_bind, Option.bind_some, hcompare, hrec]
      | none =>
        obtain rfl := rootOf_eq_none hr
        simp only [Item.node, Option.bind_eq_bind, Option.bind_some, hcompare, hincrement]
        rfl

/-- `FindNext` finds the first item with a greater key. -/
theorem findNext_spec (a_Key : Key) (h : Rep heap none T) (hnodup : (addresses T).Nodup)
    (hsorted : SortedItems T.toList) (hroot : tree.m_Root = rootOf T)
    (hsize : tree.m_Size = T.toList.length) :
    findNext tree a_Key heap = some
      (if (firstAbove a_Key T.toList).isSome then e_StatusCode_Success else e_StatusCode_NotFound,
        (firstAbove a_Key T.toList).map Item.address) := by
  rw [findNext, hroot]
  cases hT : rootOf T with
  | none =>
    obtain rfl := rootOf_eq_none hT
    rfl
  | some p =>
    have hloop := findNextLoop_spec a_Key h hnodup hsorted (endsAt_root h) hT
      (Nat.le_of_eq hsize.symm) (show 0 + T.toList.length ≤ tree.m_Size by omega)
    rw [Option.or_none] at hloop
    simp only [hloop, Option.bind_eq_bind, Option.bind_some]
    cases firstAbove a_Key T.toList <;> rfl

end Ordered

end NtAdmin.Wmi.Containers.BasicTree
