import NtAdmin.Wmi.Containers.BasicTreeWalk

/-! Search trees through any sequence of calls, against the finite maps that the calls build. -/
namespace NtAdmin.Wmi.Containers.BasicTree
open Lib WmiStatusCode

variable {Key Element : Type} [LinearOrder Key]

/-- The tree is a search tree in memory with the pairs of `map`. -/
structure Stands (heap : Heap Key Element) (tree : WmiBasicTree) (map : Key → Option Element)
    (T : Shape Key Element) : Prop where
  rep : Rep heap none T
  nodup : (addresses T).Nodup
  sorted : SortedItems T.toList
  root : tree.m_Root = rootOf T
  size : tree.m_Size = T.toList.length
  holds : ∀ k e, map k = some e ↔ ∃ y ∈ T.toList, y.key = k ∧ y.element = e

variable {heap : Heap Key Element} {tree : WmiBasicTree} {map : Key → Option Element}
  {T : Shape Key Element} {a_Key : Key} {a_Element : Element}

namespace Stands

theorem empty (heap : Heap Key Element) : Stands heap ⟨none, 0⟩ (fun _ => none) .leaf where
  rep := trivial
  nodup := List.nodup_nil
  sorted := List.Pairwise.nil
  root := rfl
  size := rfl
  holds k e := by simp [SearchTree.toList]

theorem frame {heap' : Heap Key Element} (h : Stands heap tree map T)
    (hheap : ∀ b ∈ addresses T, heap' b = heap b) : Stands heap' tree map T :=
  { h with rep := h.rep.congr hheap }

theorem map_eq_none (h : Stands heap tree map T) :
    map a_Key = none ↔ ∀ y ∈ T.toList, y.key ≠ a_Key := by
  rw [Option.eq_none_iff_forall_ne_some]
  constructor
  · exact fun hnone y hy hkey => hnone y.element ((h.holds _ _).mpr ⟨y, hy, hkey, rfl⟩)
  · intro hkeys e he
    obtain ⟨y, hy, hkey, -⟩ := (h.holds _ _).mp he
    exact hkeys y hy hkey

theorem map_of_mem (h : Stands heap tree map T) {y : Item Key Element} (hy : y ∈ T.toList) :
    map y.key = some y.element := (h.holds _ _).mpr ⟨y, hy, rfl, rfl⟩

theorem inserted (tree' : WmiBasicTree) {T' : Shape Key Element} {heap' : Heap Key Element}
    {u v : List (Item Key Element)} {p : NodePtr} (h : Stands heap tree map T)
    (hu : T.toList = u ++ v) (hv : T'.toList = u ++ ⟨p, a_Key, a_Element⟩ :: v)
    (hbelow : ∀ y ∈ u, y.key < a_Key) (habove : ∀ y ∈ v, a_Key < y.key)
    (hrep : Rep heap' none T') (hp : p ∉ addresses T) (hroot : tree'.m_Root = rootOf T')
    (hsize : tree'.m_Size = tree.m_Size + 1) :
    Stands heap' tree' (Function.update map a_Key (some a_Element)) T' ∧
      ∀ b, b ∈ addresses T' ↔ b = p ∨ b ∈ addresses T := by
  have hnodup := h.nodup
  have hsorted := h.sorted
  rw [addresses, hu] at hnodup hp
  rw [hu] at hsorted
  have haddresses : ∀ b, b ∈ addresses T' ↔ b = p ∨ b ∈ addresses T := by
    intro b
    simp only [addresses, hu, hv, List.map_append, List.map_cons, List.mem_append, List.mem_cons]
    tauto
  refine ⟨⟨hrep, ?_, ?_, hroot, ?_, ?_⟩, haddresses⟩
  · rw [addresses, hv, List.map_append, List.map_cons, List.nodup_middle]
    rw [List.map_append] at hnodup hp
    exact List.nodup_cons.mpr ⟨hp, hnodup⟩
  · rw [SortedItems, List.pairwise_append] at hsorted
    rw [SortedItems, hv, List.pairwise_append, List.pairwise_cons]
    refine ⟨hsorted.1, ⟨habove, hsorted.2.1⟩, fun y hy z hz => ?_⟩
    rcases List.mem_cons.mp hz with rfl | hz
    · exact hbelow y hy
    · exact hsorted.2.2 y hy z hz
  · rw [hsize, h.size, hu, hv, List.length_append, List.length_append, List.length_cons,
      Nat.add_assoc]
  · intro k e
    have hold := h.holds k e
    rw [hu] at hold
    rw [hv]
    simp only [List.mem_append, List.mem_cons] at hold ⊢
    by_cases hk : k = a_Key
    · subst hk
      rw [Function.update_self, Option.some.injEq]
      constructor
      · exact fun heq => ⟨_, Or.inr (Or.inl rfl), rfl, heq⟩
      · rintro ⟨y, hy | rfl | hy, hkey, helement⟩
        · exact absurd hkey (hbelow y hy).ne
        · exact helement
        · exact absurd hkey (habove y hy).ne'
    · rw [Function.update_of_ne hk, hold]
      constructor
      · rintro ⟨y, hy, hkey⟩
        exact ⟨y, hy.imp_right Or.inr, hkey⟩
      · rintro ⟨y, hy | rfl | hy, hkey⟩
        · exact ⟨y, Or.inl hy, hkey⟩
        · exact absurd hkey.1.symm hk
        · exact ⟨y, Or.inr hy, hkey⟩

theorem deleted (tree' : WmiBasicTree) {T' : Shape Key Element} {heap' : Heap Key Element}
    {u v : List (Item Key Element)} {y : Item Key Element} (h : Stands heap tree map T)
    (hu : T.toList = u ++ y :: v) (hkey : y.key = a_Key) (hv : T'.toList = u ++ v)
    (hrep : Rep heap' none T') (hroot : tree'.m_Root = rootOf T')
    (hsize : tree'.m_Size = tree.m_Size - 1) :
    Stands heap' tree' (Function.update map a_Key none) T' ∧
      ∀ b ∈ addresses T', b ∈ addresses T := by
  have hsub : T'.toList.Sublist T.toList := by
    rw [hu, hv]
    exact (List.sublist_cons_self y v).append_left u
  have hsorted := h.sorted
  rw [hu, SortedItems, List.pairwise_append, List.pairwise_cons] at hsorted
  obtain ⟨-, ⟨hyv, -⟩, huy⟩ := hsorted
  refine ⟨⟨hrep, ?_, h.sorted.sublist hsub, hroot, ?_, ?_⟩, fun b hb => (hsub.map _).subset hb⟩
  · exact h.nodup.sublist (hsub.map _)
  · rw [hsize, h.size, hu, hv, List.length_append, List.length_append, List.length_cons]
    rfl
  · intro k e
    have hold := h.holds k e
    rw [hu] at hold
    rw [hv]
    simp only [List.mem_append, List.mem_cons] at hold ⊢
    by_cases hk : k = a_Key
    · subst hk
      rw [Function.update_self]
      constructor
      · exact fun heq => absurd heq (Option.some_ne_none e).symm
      · rintro ⟨z, hz | hz, hzkey, -⟩
        · exact absurd (hzkey.trans hkey.symm) (huy z hz y List.mem_cons_self).ne
        · exact absurd (hzkey.trans hkey.symm) (hyv z hz).ne'
    · rw [Function.update_of_ne hk, hold]
      constructor
      · rintro ⟨z, hz | rfl | hz, hzkey⟩
        · exact ⟨z, Or.inl hz, hzkey⟩
        · exact absurd (hzkey.1.symm.trans hkey) hk
        · exact ⟨z, Or.inr hz, hzkey⟩
      · rintro ⟨z, hz, hzkey⟩
        exact ⟨z, hz.imp_right Or.inr, hzkey⟩

end Stands

/-- What `Insert` does to a tree in memory. -/
theorem insert_spec (a_Key : Key) (a_Element : Element) (alloc : Allocation Key Element)
    (h : Stands heap tree map T) :
    ((∃ e, map a_Key = some e) ∧
      insert tree a_Key a_Element alloc heap = some (e_StatusCode_AlreadyExists, tree, heap)) ∨
    (map a_Key = none ∧ ∃ error, alloc.new heap = .error error ∧
      insert tree a_Key a_Element alloc heap = some (error, tree, heap)) ∨
    (map a_Key = none ∧ ∃ p tree' T' heap', alloc.new heap = .ok p ∧
      insert tree a_Key a_Element alloc heap = some (e_StatusCode_Success, tree', heap') ∧
      Stands heap' tree' (Function.update map a_Key (some a_Element)) T' ∧
      (∀ b, b ∈ addresses T' ↔ b = p ∨ b ∈ addresses T) ∧
      ∀ b ∉ addresses T, b ≠ p → heap' b = heap b) := by
  cases hT : rootOf T with
  | none =>
    obtain rfl := rootOf_eq_none hT
    have hroot : tree.m_Root = none := h.root
    have hnone : map a_Key = none := h.map_eq_none.mpr (List.forall_mem_nil _)
    right
    cases hnew : alloc.new heap with
    | error error =>
      left
      exact ⟨hnone, error, rfl, by simp [insert, hroot, hnew]⟩
    | ok p =>
      right
      have hput : Rep (heap.put p ⟨a_Key, a_Element, none, none, none⟩) none
          (.node .leaf ⟨p, a_Key, a_Element⟩ .leaf) := ⟨put_self _ _, trivial, trivial⟩
      have hu : (SearchTree.leaf : Shape Key Element).toList = [] ++ [] := rfl
      obtain ⟨hstands, haddresses⟩ := h.inserted ⟨some p, tree.m_Size + 1⟩ hu rfl
        (List.forall_mem_nil _) (List.forall_mem_nil _) hput List.not_mem_nil rfl rfl
      exact ⟨hnone, p, _, _, _, rfl, by simp [insert, hroot, hnew], hstands, haddresses,
        fun b _ hbp => put_of_ne _ hbp⟩
  | some root =>
    have hroot : tree.m_Root = some root := h.root.trans hT
    rcases insertLoop_spec a_Key a_Element alloc h.rep h.nodup
      h.sorted hT (Nat.le_of_eq h.size.symm) with ⟨⟨y, hy, hkey⟩, hrun⟩ |
      ⟨hkeys, error, hnew, hrun⟩ |
      ⟨hkeys, p, u, v, T', heap', hnew, hrun, hu, hv, hbelow, habove, hrep, hroot', hframe⟩
    · left
      exact ⟨⟨y.element, hkey ▸ h.map_of_mem hy⟩, by simp [insert, hroot, hrun]⟩
    · right
      left
      have herror := alloc.failed heap error hnew
      exact ⟨h.map_eq_none.mpr hkeys, error, hnew, by simp [insert, hroot, hrun, herror]⟩
    · right
      right
      have hp := h.rep.fresh (alloc.fresh heap p hnew)
      obtain ⟨hstands, haddresses⟩ :=
        h.inserted { tree with m_Size := tree.m_Size + 1 } hu hv hbelow habove hrep hp
          (h.root.trans hroot'.symm) rfl
      exact ⟨h.map_eq_none.mpr hkeys, p, _, T', heap', hnew, by simp [insert, hroot, hrun], hstands,
        haddresses, hframe⟩

/-- What `Delete` does to a tree in memory. -/
theorem delete_spec (a_Key : Key) (freed : WmiStatusCode) (h : Stands heap tree map T) :
    (map a_Key = none ∧ delete tree a_Key freed heap = some (e_StatusCode_NotFound, tree, heap)) ∨
    ((∃ e, map a_Key = some e) ∧ ∃ tree' T' heap',
      delete tree a_Key freed heap = some (freed, tree', heap') ∧
      Stands heap' tree' (Function.update map a_Key none) T' ∧
      T.toList.length = T'.toList.length + 1 ∧
      (∀ b ∈ addresses T', b ∈ addresses T) ∧ ∀ b ∉ addresses T, heap' b = heap b) := by
  have hsize := Nat.le_of_eq h.size.symm
  have hsearch := delete_search a_Key tree.m_Root true h.rep
    h.nodup h.sorted (fun q hq => absurd hq (Option.some_ne_none q).symm)
    (fun a ha => h.root.trans ha) hsize hsize
  rw [← h.root] at hsearch
  rcases hsearch with ⟨hkeys, hrun⟩ |
    ⟨u, y, v, T', m_Root', heap', hu, hkey, hv, hrun, hfix, hfixed, -⟩
  · left
    refine ⟨h.map_eq_none.mpr hkeys, ?_⟩
    rw [delete, hrun]
    rfl
  · right
    have hy : y ∈ T.toList := by
      rw [hu]
      exact List.mem_append_right _ List.mem_cons_self
    obtain ⟨hstands, hsub⟩ := h.deleted ⟨m_Root', tree.m_Size - 1⟩ hu hkey hv hfixed.rep
      hfixed.relinked rfl
    refine ⟨⟨y.element, hkey ▸ h.map_of_mem hy⟩, _, T', heap', ?_, hstands, ?_, hsub, ?_⟩
    · rw [delete, hrun]
      simp [hfix]
    · rw [hu, hv, List.length_append, List.length_append, List.length_cons, Nat.add_assoc]
    · exact fun b hb => hfixed.frame b hb (Option.some_ne_none b)

/-! ### Merging -/

/-- Pairs stay where they are, or go over to the first map when it does not have their key. -/
def Moved (mapT mapA mapT' mapA' : Key → Option Element) : Prop :=
  ∀ k, (mapT' k = mapT k ∧ mapA' k = mapA k) ∨
    (mapT k = none ∧ mapA' k = none ∧ mapT' k = mapA k)

omit [LinearOrder Key] in
theorem Moved.trans {mapT mapA mapT' mapA' mapT'' mapA'' : Key → Option Element}
    (h : Moved mapT mapA mapT' mapA') (h' : Moved mapT' mapA' mapT'' mapA'') :
    Moved mapT mapA mapT'' mapA'' := by
  intro k
  rcases h k with ⟨hT, hA⟩ | ⟨hT, hA, hTA⟩
  · rw [← hT, ← hA]
    exact h' k
  · right
    rcases h' k with ⟨hT', hA'⟩ | ⟨hT', hA', hTA'⟩
    · exact ⟨hT, hA'.trans hA, hT'.trans hTA⟩
    · refine ⟨hT, hA', ?_⟩
      rw [hTA', hA, ← hTA, hT']

theorem moved_one {mapT mapA : Key → Option Element} (hT : mapT a_Key = none)
    (hA : mapA a_Key = some a_Element) :
    Moved mapT mapA (Function.update mapT a_Key (some a_Element))
      (Function.update mapA a_Key none) := by
  intro k
  by_cases hk : k = a_Key
  · subst hk
    right
    exact ⟨hT, Function.update_self _ _ _, by rw [Function.update_self, hA]⟩
  · left
    exact ⟨Function.update_of_ne hk _ _, Function.update_of_ne hk _ _⟩

/-- Two search trees in one memory that share no node. -/
structure Apart (heap : Heap Key Element) (tree a_Tree : WmiBasicTree)
    (mapT mapA : Key → Option Element) (T A : Shape Key Element) : Prop where
  this : Stands heap tree mapT T
  other : Stands heap a_Tree mapA A
  disjoint : ∀ b ∈ addresses T, b ∉ addresses A

/-- Why `Merge` ends. -/
def MergeEnds (alloc : ℕ → Allocation Key Element) (freed : ℕ → WmiStatusCode)
    (mapT mapA : Key → Option Element) (mapA' : Key → Option Element) (status : WmiStatusCode) :
    Prop :=
  (status = e_StatusCode_Success ∧ ∀ k, mapA' k = none) ∨
  (status = e_StatusCode_AlreadyExists ∧ ∃ k, mapT k ≠ none ∧ mapA k ≠ none) ∨
  (status ≠ e_StatusCode_Success ∧
    ((∃ n heap, (alloc n).new heap = .error status) ∨ ∃ n, freed n = status))

variable {a_Tree : WmiBasicTree} {mapT mapA : Key → Option Element} {A : Shape Key Element}
  {alloc : ℕ → Allocation Key Element} {freed : ℕ → WmiStatusCode}

/-- What `Merge` leaves. -/
def Merges (alloc : ℕ → Allocation Key Element) (freed : ℕ → WmiStatusCode)
    (mapT mapA : Key → Option Element)
    (result : Option (WmiStatusCode × WmiBasicTree × WmiBasicTree × Heap Key Element)) : Prop :=
  ∃ status tree' a_Tree' heap' mapT' mapA' T' A',
    result = some (status, tree', a_Tree', heap') ∧ Apart heap' tree' a_Tree' mapT' mapA' T' A' ∧
    Moved mapT mapA mapT' mapA' ∧ MergeEnds alloc freed mapT mapA mapA' status

omit [LinearOrder Key] in
theorem Moved.refl (mapT mapA : Key → Option Element) : Moved mapT mapA mapT mapA :=
  fun _ => Or.inl ⟨rfl, rfl⟩

/-- A round in which `Insert` or `Delete` did not succeed is the last. -/
theorem mergeLoop_failed {fuel : ℕ} {status : WmiStatusCode} (h : status ≠ e_StatusCode_Success) :
    mergeLoop alloc freed (fuel + 1) status tree a_Tree heap =
      some (status, tree, a_Tree, heap) := by
  rw [mergeLoop]
  split
  · rfl
  · exact if_pos h

/-- What ends the later rounds ends the whole. -/
theorem MergeEnds.earlier {mapA' : Key → Option Element} {status : WmiStatusCode}
    (h : MergeEnds alloc freed (Function.update mapT a_Key (some a_Element))
      (Function.update mapA a_Key none) mapA' status) :
    MergeEnds alloc freed mapT mapA mapA' status := by
  rcases h with h | ⟨hstatus, k, hkT, hkA⟩ | h
  · exact Or.inl h
  · right
    left
    have hk : k ≠ a_Key := by
      rintro rfl
      exact hkA (Function.update_self _ _ _)
    rw [Function.update_of_ne hk] at hkT hkA
    exact ⟨hstatus, k, hkT, hkA⟩
  · exact Or.inr (Or.inr h)

theorem mergeLoop_spec {fuel : ℕ} (h : Apart heap tree a_Tree mapT mapA T A)
    (hfuel : A.toList.length + 2 ≤ fuel) :
    Merges alloc freed mapT mapA
      (mergeLoop alloc freed fuel e_StatusCode_Success tree a_Tree heap) := by
  induction fuel generalizing heap tree a_Tree mapT mapA T A with
  | zero => omega
  | succ fuel ih =>
    obtain ⟨fuel, rfl⟩ : ∃ f, fuel = f + 1 := ⟨fuel - 1, by omega⟩
    obtain ⟨hT, hA, hdisjoint⟩ := h
    cases A with
    | leaf =>
      refine ⟨_, tree, a_Tree, heap, mapT, mapA, T, .leaf, ?_, ⟨hT, hA, hdisjoint⟩, Moved.refl _ _,
        Or.inl ⟨rfl, fun k => hA.map_eq_none.mpr (List.forall_mem_nil _)⟩⟩
      have hroot : a_Tree.m_Root = none := hA.root
      rw [mergeLoop, hroot]
    | node l x r =>
      have hroot : a_Tree.m_Root = some x.address := hA.root
      have hx : heap x.address = some (x.node (rootOf l) (rootOf r) none) := hA.rep.1
      have hmem : x ∈ (SearchTree.node l x r).toList :=
        List.mem_append_right _ List.mem_cons_self
      have hmapA := hA.map_of_mem hmem
      rcases insert_spec x.key x.element (alloc (fuel + 1)) hT with
        ⟨⟨e, he⟩, hinsert⟩ | ⟨hnone, error, hnew, hinsert⟩ |
        ⟨hnone, p, tree', T', heap', hnew, hinsert, hT', haddresses, hframe⟩
      · refine ⟨_, tree, a_Tree, heap, mapT, mapA, T, _, ?_, ⟨hT, hA, hdisjoint⟩, Moved.refl _ _,
          Or.inr (Or.inl ⟨rfl, x.key, ?_, ?_⟩)⟩
        · rw [mergeLoop, hroot]
          simp only [hx, Item.node, hinsert, Option.bind_eq_bind, Option.bind_some]
          exact mergeLoop_failed (by decide)
        · rw [he]
          exact Option.some_ne_none e
        · rw [hmapA]
          exact Option.some_ne_none _
      · have herror := (alloc (fuel + 1)).failed heap error hnew
        refine ⟨error, tree, a_Tree, heap, mapT, mapA, T, _, ?_, ⟨hT, hA, hdisjoint⟩,
          Moved.refl _ _, Or.inr (Or.inr ⟨herror, Or.inl ⟨_, heap, hnew⟩⟩)⟩
        rw [mergeLoop, hroot]
        simp only [hx, Item.node, hinsert, Option.bind_eq_bind, Option.bind_some, herror]
        exact mergeLoop_failed herror
      · have hpA : p ∉ addresses (.node l x r) :=
          hA.rep.fresh ((alloc (fuel + 1)).fresh heap p hnew)
        have hA₁ : Stands heap' a_Tree mapA (.node l x r) := hA.frame fun b hb =>
          hframe b (fun hbT => hdisjoint b hbT hb) fun heq => hpA (heq ▸ hb)
        have hdisjoint₁ (b : NodePtr) (hb : b ∈ addresses T') : b ∉ addresses (.node l x r) := by
          rcases (haddresses b).mp hb with rfl | hb
          · exact hpA
          · exact hdisjoint b hb
        have hmoved := moved_one hnone hmapA
        rcases delete_spec x.key (freed (fuel + 1)) hA₁ with ⟨hnoneA, -⟩ |
          ⟨-, a_Tree', A', heap'', hdelete, hA', hlength, hsub, hframe'⟩
        · rw [hmapA] at hnoneA
          cases hnoneA
        · have hT'' := hT'.frame fun b hb => hframe' b (hdisjoint₁ b hb)
          have hstep : mergeLoop alloc freed (fuel + 2) e_StatusCode_Success tree a_Tree heap =
              mergeLoop alloc freed (fuel + 1) (freed (fuel + 1)) tree' a_Tree' heap'' := by
            rw [mergeLoop, hroot]
            simp only [hx, Item.node, hinsert, Option.bind_eq_bind, Option.bind_some, hdelete]
            rfl
          have hapart : Apart heap'' tree' a_Tree' _ _ T' A' :=
            ⟨hT'', hA', fun b hb hbA => hdisjoint₁ b hb (hsub b hbA)⟩
          rw [hstep]
          by_cases hfreed : freed (fuel + 1) = e_StatusCode_Success
          · rw [hfreed]
            obtain ⟨status, t, a, heap₃, mapT', mapA', T₃, A₃, hrun, hapart₃, hmoved₃, hends⟩ :=
              ih hapart (by omega)
            exact ⟨status, t, a, heap₃, mapT', mapA', T₃, A₃, hrun, hapart₃, hmoved.trans hmoved₃,
              hends.earlier⟩
          · exact ⟨_, tree', a_Tree', heap'', _, _, T', A', mergeLoop_failed hfreed, hapart, hmoved,
              Or.inr (Or.inr ⟨hfreed, Or.inr ⟨_, rfl⟩⟩)⟩

/-! ### Sequences of calls -/

section Calls
variable {ι : Type} [DecidableEq ι]

/-- The trees of one memory. -/
structure Memory (ι Key Element : Type) where
  trees : ι → WmiBasicTree
  heap : Heap Key Element

inductive Call (ι Key Element : Type)
  | insert (tree : ι) (a_Key : Key) (a_Element : Element) (alloc : Allocation Key Element)
  | delete (tree : ι) (a_Key : Key) (freed : WmiStatusCode)

def step (m : Memory ι Key Element) :
    Call ι Key Element → Option (WmiStatusCode × Memory ι Key Element)
  | .insert i a_Key a_Element alloc => do
    let r ← insert (m.trees i) a_Key a_Element alloc m.heap
    some (r.1, ⟨Function.update m.trees i r.2.1, r.2.2⟩)
  | .delete i a_Key freed => do
    let r ← delete (m.trees i) a_Key freed m.heap
    some (r.1, ⟨Function.update m.trees i r.2.1, r.2.2⟩)

/-- The finite maps that the calls build: an insertion counts if it succeeds. -/
def built (maps : ι → Key → Option Element) (status : WmiStatusCode) :
    Call ι Key Element → ι → Key → Option Element
  | .insert i a_Key a_Element _ =>
    if status = e_StatusCode_Success then
      Function.update maps i (Function.update (maps i) a_Key (some a_Element))
    else maps
  | .delete i a_Key _ => Function.update maps i (Function.update (maps i) a_Key none)

/-- The calls from first to last, with the maps. -/
def run : List (Call ι Key Element) → Memory ι Key Element → (ι → Key → Option Element) →
    Option (Memory ι Key Element × (ι → Key → Option Element))
  | [], m, maps => some (m, maps)
  | call :: calls, m, maps => do
    let r ← step m call
    run calls r.2 (built maps r.1 call)

/-- The trees are search trees with the pairs of the maps, and share no node. -/
def Good (m : Memory ι Key Element) (maps : ι → Key → Option Element) : Prop :=
  ∃ T : ι → Shape Key Element, (∀ i, Stands m.heap (m.trees i) (maps i) (T i)) ∧
    ∀ i j, i ≠ j → ∀ b ∈ addresses (T i), b ∉ addresses (T j)

/-- What a call returns. -/
def Returns (m : Memory ι Key Element) (maps : ι → Key → Option Element) (status : WmiStatusCode) :
    Call ι Key Element → Prop
  | .insert i a_Key _ alloc =>
    ((∃ e, maps i a_Key = some e) ∧ status = e_StatusCode_AlreadyExists) ∨
    (maps i a_Key = none ∧ alloc.new m.heap = .error status) ∨
    (maps i a_Key = none ∧ (∃ p, alloc.new m.heap = .ok p) ∧ status = e_StatusCode_Success)
  | .delete i a_Key freed =>
    (maps i a_Key = none ∧ status = e_StatusCode_NotFound) ∨
    ((∃ e, maps i a_Key = some e) ∧ status = freed)

variable {m : Memory ι Key Element} {maps : ι → Key → Option Element}

/-- One tree changes, and the nodes of the others do not. -/
theorem Good.update {T : ι → Shape Key Element} {i : ι} {tree' : WmiBasicTree}
    {map' : Key → Option Element} {T' : Shape Key Element} {heap' : Heap Key Element}
    (h : ∀ i, Stands m.heap (m.trees i) (maps i) (T i))
    (hdisjoint : ∀ i j, i ≠ j → ∀ b ∈ addresses (T i), b ∉ addresses (T j))
    (hT' : Stands heap' tree' map' T')
    (hout : ∀ j, j ≠ i → ∀ b ∈ addresses (T j), b ∉ addresses T')
    (hframe : ∀ j, j ≠ i → ∀ b ∈ addresses (T j), heap' b = m.heap b) :
    Good ⟨Function.update m.trees i tree', heap'⟩ (Function.update maps i map') := by
  refine ⟨Function.update T i T', fun j => ?_, fun j k hjk b hb => ?_⟩
  · change Stands heap' (Function.update m.trees i tree' j) _ _
    by_cases hj : j = i
    · subst hj
      rw [Function.update_self, Function.update_self, Function.update_self]
      exact hT'
    · rw [Function.update_of_ne hj, Function.update_of_ne hj, Function.update_of_ne hj]
      exact (h j).frame (hframe j hj)
  · by_cases hj : j = i
    · subst hj
      have hk : k ≠ j := Ne.symm hjk
      rw [Function.update_self] at hb
      rw [Function.update_of_ne hk]
      exact fun hbk => hout k hk b hbk hb
    · rw [Function.update_of_ne hj] at hb
      by_cases hk : k = i
      · subst hk
        rw [Function.update_self]
        exact hout j hj b hb
      · rw [Function.update_of_ne hk]
        exact hdisjoint j k hjk b hb

theorem Good.step (h : Good m maps) (call : Call ι Key Element) :
    ∃ status m', step m call = some (status, m') ∧ Returns m maps status call ∧
      Good m' (built maps status call) := by
  have hgood := h
  obtain ⟨T, hT, hdisjoint⟩ := h
  cases call with
  | insert i a_Key a_Element alloc =>
    rcases insert_spec a_Key a_Element alloc (hT i) with
      ⟨he, hrun⟩ | ⟨hnone, error, hnew, hrun⟩ |
      ⟨hnone, p, tree', T', heap', hnew, hrun, hT', haddresses, hframe⟩
    · refine ⟨_, m, ?_, Or.inl ⟨he, rfl⟩, hgood⟩
      simp [BasicTree.step, hrun]
    · have herror := alloc.failed _ error hnew
      refine ⟨error, m, ?_, Or.inr (Or.inl ⟨hnone, hnew⟩), ?_⟩
      · simp [BasicTree.step, hrun]
      · rw [built, if_neg herror]
        exact hgood
    · refine ⟨_, ⟨Function.update m.trees i tree', heap'⟩, ?_,
        Or.inr (Or.inr ⟨hnone, ⟨p, hnew⟩, rfl⟩), Good.update hT hdisjoint hT' ?_ ?_⟩
      · simp [BasicTree.step, hrun]
      · intro j hj b hb hb'
        rcases (haddresses b).mp hb' with rfl | hbi
        · exact (hT j).rep.fresh (alloc.fresh _ _ hnew) hb
        · exact hdisjoint j i hj b hb hbi
      · intro j hj b hb
        exact hframe b (hdisjoint j i hj b hb) fun heq =>
          (hT j).rep.fresh (alloc.fresh _ _ hnew) (heq ▸ hb)
  | delete i a_Key freed =>
    rcases delete_spec a_Key freed (hT i) with ⟨hnone, hrun⟩ |
      ⟨he, tree', T', heap', hrun, hT', -, hsub, hframe⟩
    · refine ⟨_, m, ?_, Or.inl ⟨hnone, rfl⟩, ?_⟩
      · simp [BasicTree.step, hrun]
      · have hsame : Function.update (maps i) a_Key none = maps i := by
          rw [← hnone]
          exact Function.update_eq_self _ _
        rw [built, hsame, Function.update_eq_self]
        exact hgood
    · refine ⟨_, ⟨Function.update m.trees i tree', heap'⟩, ?_, Or.inr ⟨he, rfl⟩,
        Good.update hT hdisjoint hT' ?_ ?_⟩
      · simp [BasicTree.step, hrun]
      · exact fun j hj b hb hb' => hdisjoint j i hj b hb (hsub b hb')
      · exact fun j hj b hb => hframe b (hdisjoint j i hj b hb)

theorem Good.run (h : Good m maps) (calls : List (Call ι Key Element)) :
    ∃ m' maps', run calls m maps = some (m', maps') ∧ Good m' maps' := by
  induction calls generalizing m maps with
  | nil => exact ⟨m, maps, rfl, h⟩
  | cons call calls ih =>
    obtain ⟨status, m₁, hstep, -, hgood⟩ := h.step call
    obtain ⟨m', maps', hrun, hgood'⟩ := ih hgood
    refine ⟨m', maps', ?_, hgood'⟩
    rw [BasicTree.run, hstep]
    exact hrun

/-- Trees with no node. -/
def empty : Memory ι Key Element := ⟨fun _ => ⟨none, 0⟩, fun _ => none⟩

omit [DecidableEq ι] in
theorem good_empty : Good (empty : Memory ι Key Element) fun _ _ => none :=
  ⟨fun _ => .leaf, fun _ => Stands.empty _, fun _ _ _ _ hb => absurd hb List.not_mem_nil⟩

/-- What `Find` and `FindNext` return for a pair that there is, or is not. -/
def Finds (heap : Heap Key Element) (result : Option (WmiStatusCode × Option NodePtr)) :
    Option (Key × Element) → Prop
  | none => result = some (e_StatusCode_NotFound, none)
  | some pair => ∃ p n, result = some (e_StatusCode_Success, some p) ∧ heap p = some n ∧
      (n.m_Key, n.m_Element) = pair

/-- The pair of the least greater key. -/
def LeastAbove (map : Key → Option Element) (a_Key : Key) : Option (Key × Element) → Prop
  | none => ∀ k e, map k = some e → k ≤ a_Key
  | some (k, e) => map k = some e ∧ a_Key < k ∧ ∀ k' e', map k' = some e' → a_Key < k' → k ≤ k'

theorem Stands.finds (h : Stands heap tree map T) (a_Key : Key) :
    Finds heap (find tree a_Key heap) ((map a_Key).map fun e => (a_Key, e)) := by
  rcases find_spec a_Key h.rep h.nodup h.sorted h.root h.size with
    ⟨hkeys, hrun⟩ | ⟨y, hy, rfl, hrun⟩
  · rw [h.map_eq_none.mpr hkeys]
    exact hrun
  · obtain ⟨n, hn, hkey, helement⟩ := h.rep.node_of_mem hy
    rw [h.map_of_mem hy]
    exact ⟨y.address, n, hrun, hn, by rw [hkey, helement]⟩

theorem Stands.findsNext (h : Stands heap tree map T) (a_Key : Key) :
    ∃ next, LeastAbove map a_Key next ∧ Finds heap (findNext tree a_Key heap) next := by
  have hrun := findNext_spec a_Key h.rep h.nodup h.sorted h.root h.size
  cases hfirst : firstAbove a_Key T.toList with
  | none =>
    rw [hfirst] at hrun
    refine ⟨none, ?_, hrun⟩
    intro k e he
    obtain ⟨y, hy, rfl, -⟩ := (h.holds k e).mp he
    have hnot := List.find?_eq_none.mp hfirst y hy
    simpa using hnot
  | some y =>
    rw [hfirst] at hrun
    obtain ⟨hlt, u, v, huv, hu⟩ := List.find?_eq_some_iff_append.mp hfirst
    have hy : y ∈ T.toList := by
      rw [huv]
      exact List.mem_append_right _ List.mem_cons_self
    obtain ⟨n, hn, hkey, helement⟩ := h.rep.node_of_mem hy
    refine ⟨some (y.key, y.element), ⟨h.map_of_mem hy, of_decide_eq_true hlt, ?_⟩,
      y.address, n, hrun, hn, by rw [hkey, helement]⟩
    intro k' e' he' habove
    obtain ⟨z, hz, rfl, -⟩ := (h.holds k' e').mp he'
    have hsorted := h.sorted
    rw [huv, SortedItems, List.pairwise_append, List.pairwise_cons] at hsorted
    rw [huv] at hz
    rcases List.mem_append.mp hz with hz | hz
    · have hnot := hu z hz
      simp [habove] at hnot
    · rcases List.mem_cons.mp hz with rfl | hz
      · exact le_refl _
      · exact (hsorted.2.1.1 z hz).le

theorem Stands.iterates (h : Stands heap tree map T) :
    ∃ pairs, iterate tree heap = some pairs ∧ pairs.Pairwise (fun p q => p.1 < q.1) ∧
      ∀ k e, (k, e) ∈ pairs ↔ map k = some e := by
  refine ⟨_, iterate_spec h.rep h.nodup h.root h.size, ?_, fun k e => ?_⟩
  · rw [List.pairwise_map]
    exact h.sorted
  · rw [h.holds, List.mem_map]
    constructor
    · rintro ⟨y, hy, hpair⟩
      exact ⟨y, hy, congrArg Prod.fst hpair, congrArg Prod.snd hpair⟩
    · rintro ⟨y, hy, rfl, rfl⟩
      exact ⟨y, hy, rfl⟩

/-- Whatever the calls before, each tree is a search tree with right links and its number of nodes,
each further call goes through and returns what the map says, searching and iterating agree with the
map, and merging two trees ends with each pair in one of them. -/
theorem calls_on_trees (calls : List (Call ι Key Element)) :
    ∃ m maps, run calls empty (fun _ _ => none) = some (m, maps) ∧
      (∀ i, ∃ T, Stands m.heap (m.trees i) (maps i) T) ∧
      (∀ call, ∃ status m', step m call = some (status, m') ∧ Returns m maps status call) ∧
      (∀ i a_Key, Finds m.heap (find (m.trees i) a_Key m.heap)
        ((maps i a_Key).map fun e => (a_Key, e))) ∧
      (∀ i a_Key, ∃ next, LeastAbove (maps i) a_Key next ∧
        Finds m.heap (findNext (m.trees i) a_Key m.heap) next) ∧
      (∀ i, ∃ pairs, iterate (m.trees i) m.heap = some pairs ∧
        pairs.Pairwise (fun p q => p.1 < q.1) ∧ ∀ k e, (k, e) ∈ pairs ↔ maps i k = some e) ∧
      ∀ i j, i ≠ j → ∀ alloc freed, Merges alloc freed (maps i) (maps j)
        (merge alloc freed (m.trees i) (m.trees j) m.heap) := by
  obtain ⟨m, maps, hrun, hgood⟩ := good_empty.run calls
  have hsteps (call : Call ι Key Element) :
      ∃ status m', step m call = some (status, m') ∧ Returns m maps status call := by
    obtain ⟨status, m', hstep, hreturns, -⟩ := hgood.step call
    exact ⟨status, m', hstep, hreturns⟩
  obtain ⟨T, hT, hdisjoint⟩ := hgood
  refine ⟨m, maps, hrun, fun i => ⟨T i, hT i⟩, hsteps, fun i => (hT i).finds,
    fun i => (hT i).findsNext, fun i => (hT i).iterates, fun i j hij alloc freed => ?_⟩
  have hsize : (T j).toList.length + 2 ≤ (m.trees j).m_Size + 2 :=
    Nat.add_le_add_right (Nat.le_of_eq (hT j).size.symm) 2
  exact mergeLoop_spec ⟨hT i, hT j, hdisjoint i j hij⟩ hsize

end Calls

/-- The first of `n` addresses that is not in use. -/
def Allocation.first (Key Element : Type) (n : ℕ) : Allocation Key Element where
  new heap :=
    (((List.range n).find? fun p => (heap p).isNone).map Except.ok).getD
      (.error WmiStatusCode.e_StatusCode_OutOfMemory)
  fresh heap p h := by
    cases hfind : (List.range n).find? fun p => (heap p).isNone with
    | none =>
      rw [hfind] at h
      exact Except.noConfusion rfl rfl (heq_of_eq h)
    | some q =>
      rw [hfind] at h
      obtain rfl := Except.ok.inj h
      have hfree := List.find?_some hfind
      exact Option.isNone_iff_eq_none.mp hfree
  failed heap error h := by
    cases hfind : (List.range n).find? fun p => (heap p).isNone with
    | none =>
      rw [hfind] at h
      rw [← Except.error.inj h]
      exact WmiStatusCode.noConfusion
    | some q =>
      rw [hfind] at h
      exact Except.noConfusion rfl rfl (heq_of_eq h)

/-- With room for two nodes a third pair is only inserted once another one is deleted. -/
example : ((run [.insert () 5 'a' (.first ℕ Char 2), .insert () 3 'b' (.first ℕ Char 2),
    .insert () 4 'c' (.first ℕ Char 2), .delete () 5 .e_StatusCode_Success,
    .insert () 4 'd' (.first ℕ Char 2)] empty fun _ _ => none).bind fun r =>
      iterate (r.1.trees ()) r.1.heap) = some [(3, 'b'), (4, 'd')] := by decide

end NtAdmin.Wmi.Containers.BasicTree
