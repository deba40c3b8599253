import NtAdmin.Wmi.Btr.TreeRun

/-! The iterator of btr.cpp over a B-tree that `InsertKey` has built. -/
namespace NtAdmin.Wmi.Btr
open Lib Win32Error

/-- A page as the iterator reads it. -/
def idxPage (page : KeyPage) : Except Win32Error IdxPage :=
  if few : page.keys.length < 2 ^ 16 then .ok ⟨page.keys, page.childPageMap, few⟩
  else .error ERROR_BAD_FORMAT

/-- `ReadIdxPage`, for the iterator. -/
def idxPages (pages : UInt32 → Except Win32Error KeyPage) : Pages := fun id => pages id >>= idxPage

section Enumeration
variable {dwPageSize : ℕ} {pages : UInt32 → Except Win32Error KeyPage} {h : ℕ} {t : Subtree}
  {page : KeyPage} {subs : List Subtree} {id : UInt32}

/-- A page of at most 512 KB has fewer than `2 ^ 16` keys. -/
theorem few_of_fits (hsize : dwPageSize ≤ 2 ^ 19) (hfits : page.getRequiredPageMemory ≤ dwPageSize) :
    page.keys.length < 2 ^ 16 := by
  rw [KeyPage.getRequiredPageMemory, KeyPage.getNumKeys] at hfits
  simp only [sizeofDWORD, sizeofWORD] at hfits
  omega

theorem Stored.idxPage (hsize : dwPageSize ≤ 2 ^ 19) (hstored : Stored dwPageSize pages id page) :
    ∃ pIdx, idxPages pages id = .ok pIdx ∧ pIdx.keys = page.keys ∧
      pIdx.childPageMap = page.childPageMap := by
  have hfew := few_of_fits hsize hstored.fits
  refine ⟨⟨page.keys, page.childPageMap, hfew⟩, ?_, rfl, rfl⟩
  rw [idxPages, hstored.read]
  exact dif_pos hfew

/-- The two ways to list a page with what is below it. -/
theorem interleave_eq_tailFrom (sub : ℕ → List Entry) (i : ℕ) (keys : List Entry) :
    interleave ((List.range (keys.length + 1)).map fun j => sub (i + j)) keys =
      sub i ++ tailFrom sub i keys := by
  induction keys generalizing i with
  | nil => simp [interleave, tailFrom]
  | cons key keys ih =>
    have hshift : ((List.range (keys.length + 1)).map fun j => sub (i + (j + 1))) =
        (List.range (keys.length + 1)).map fun j => sub (i + 1 + j) :=
      List.map_congr_left fun j _ => by rw [Nat.add_assoc, Nat.add_comm 1 j]
    rw [List.length_cons, List.range_succ_eq_map, List.map_cons, List.map_map, interleave, tailFrom]
    change sub (i + 0) ++ key :: interleave ((List.range (keys.length + 1)).map fun j =>
      sub (i + (j + 1))) keys = _
    rw [hshift, ih]
    rfl

theorem map_getD_range {α β : Type} (xs : List α) (d : α) (f : α → β) :
    ((List.range xs.length).map fun i => f (xs.getD i d)) = xs.map f := by
  refine List.ext_getElem (by rw [List.length_map, List.length_map, List.length_range]) ?_
  intro i hi hi'
  rw [List.length_map] at hi'
  rw [List.getElem_map, List.getElem_map, List.getElem_range, List.getD_eq_getElem _ _ hi']

theorem Holds.contents_eq {P : Subtree → Prop} (hholds : Holds P page subs) :
    contents page subs = (subs.getD 0 noSubtree).entries ++
      tailFrom (fun i => (subs.getD i noSubtree).entries) 0 page.keys := by
  rw [contents, ← map_getD_range subs noSubtree Subtree.entries, hholds.length]
  have heq := interleave_eq_tailFrom (fun i => (subs.getD i noSubtree).entries) 0 page.keys
  simp only [Nat.zero_add] at heq
  exact heq

theorem Holds.getChildPage {P : Subtree → Prop} (hholds : Holds P page subs) {pIdx : IdxPage}
    (hmap : pIdx.childPageMap = page.childPageMap) (i : ℕ) :
    pIdx.getChildPage i = (subs.getD i noSubtree).id := by
  rw [IdxPage.getChildPage, hmap, hholds.childPageMap]
  rw [List.getD_eq_getElem?_getD, List.getD_eq_getElem?_getD, List.getElem?_map]
  cases subs[i]? with
  | none => rfl
  | some sub => rfl

theorem getD_mem_of_lt {i : ℕ} (hi : i < subs.length) : subs.getD i noSubtree ∈ subs := by
  rw [List.getD_eq_getElem _ _ hi]
  exact List.getElem_mem hi

/-- A tree is one that the iterator goes through. -/
theorem Tree.wellFormed (hsize : dwPageSize ≤ 2 ^ 19) (ht : Tree dwPageSize pages (h + 1) t) :
    ∃ pIdx ids, idxPages pages t.id = .ok pIdx ∧
      WellFormed (idxPages pages) h pIdx t.entries ids := by
  induction h generalizing t with
  | zero =>
    obtain ⟨page, subs, hne, hstored, hholds, hentries, hids⟩ := ht
    obtain ⟨pIdx, hread, hkeys, hmap⟩ := hstored.idxPage hsize
    have hchild (i : ℕ) (hi : i ≤ pIdx.getNumKeys) : pIdx.getChildPage i = 0 := by
      have hlt : i < subs.length := by
        rw [hholds.length, ← hkeys]
        exact Nat.lt_succ_of_le hi
      rw [hholds.getChildPage hmap, show subs.getD i noSubtree = noSubtree from
        hholds.below _ (getD_mem_of_lt hlt)]
      rfl
    refine ⟨pIdx, [], hread, ?_⟩
    rw [hentries, hholds.leaf_contents, ← hkeys]
    exact .leaf pIdx (hkeys ▸ hne) hchild
  | succ h ih =>
    obtain ⟨page, subs, hne, hstored, hholds, hentries, hids⟩ := ht
    obtain ⟨pIdx, hread, hkeys, hmap⟩ := hstored.idxPage hsize
    have hlength : subs.length = pIdx.getNumKeys + 1 := by
      rw [hholds.length, ← hkeys]
      rfl
    have hmem (i : ℕ) (hi : i ≤ pIdx.getNumKeys) : subs.getD i noSubtree ∈ subs :=
      getD_mem_of_lt (hlength ▸ Nat.lt_succ_of_le hi)
    have hbelow (i : ℕ) : ∃ child ids, i ≤ pIdx.getNumKeys →
        idxPages pages (subs.getD i noSubtree).id = .ok child ∧
          WellFormed (idxPages pages) h child (subs.getD i noSubtree).entries ids := by
      by_cases hi : i ≤ pIdx.getNumKeys
      · obtain ⟨child, ids, hrest⟩ := ih (hholds.below _ (hmem i hi))
        exact ⟨child, ids, fun _ => hrest⟩
      · exact ⟨pIdx, [], fun h => absurd h hi⟩
    choose child ids hchild using hbelow
    have hchildren (i : ℕ) (hi : i ≤ pIdx.getNumKeys) : pIdx.getChildPage i ≠ 0 ∧
        idxPages pages (pIdx.getChildPage i) = .ok (child i) := by
      rw [hholds.getChildPage hmap]
      obtain ⟨_, _, _, hsub, -⟩ := hholds.below _ (hmem i hi)
      exact ⟨hsub.id_ne, (hchild i hi).1⟩
    rw [hentries, hholds.contents_eq, ← hkeys]
    exact ⟨pIdx, _, hread, .node h pIdx child (fun i => (subs.getD i noSubtree).entries) ids
      (hkeys ▸ hne) hchildren fun i hi => (hchild i hi).2⟩

end Enumeration

section Run
variable {σ : Type} {dwPageSize : ℕ} {newPage : σ → Except Win32Error (UInt32 × σ)}
  {inUse : σ → UInt32 → Prop} {tree : CBTree σ} {entries : List Entry}

/-- The iterator goes through the entries of a tree. -/
theorem HasEntries.enumerates (ht : HasEntries dwPageSize inUse tree entries)
    (hsize : dwPageSize ≤ 2 ^ 19) (hne : entries ≠ []) {pszStartKey : Option Key}
    (hstart : ∀ s ∈ pszStartKey, s.1 ≠ []) :
    ∃ pRoot, idxPages tree.m_pSrc.pages tree.m_pSrc.m_dwLogicalRoot = .ok pRoot ∧
      Enumerates (idxPages tree.m_pSrc.pages) pRoot entries pszStartKey := by
  obtain ⟨H, page, subs, ht, rfl⟩ := ht
  have hkeys : page.keys ≠ [] := by
    intro hnil
    have hholds := ht.holds
    rw [ht.empty hnil] at hholds
    exact hne (hholds.leaf_contents.trans hnil)
  have hwhole : Tree dwPageSize tree.m_pSrc.pages (H + 1) ⟨tree.m_pSrc.m_dwLogicalRoot,
      contents page subs, tree.m_pSrc.m_dwLogicalRoot ::ₘ idsBelow subs⟩ :=
    ⟨page, subs, hkeys, ht.stored, ht.holds, rfl, rfl⟩
  obtain ⟨pRoot, ids, hread, hw⟩ := hwhole.wellFormed hsize
  obtain ⟨m_Stack, hinit, hrep, hready⟩ := init_rep hw ht.sorted ht.height_lt hstart
  refine ⟨pRoot, hread, ?_⟩
  rw [Enumerates, hinit]
  exact ⟨rfl, yields_of_rep ht.height_lt hrep hready⟩

/-- Behind any calls on a new tree, an enumeration returns the keys that were inserted, from the start
key on and in order, each with the value that it was first inserted with. -/
theorem enumerates_inserted (halloc : Allocates newPage inUse) (hsize : dwPageSize ≤ 2 ^ 19)
    {pSrc : CBTreeFile σ} {tree₀ : CBTree σ} {calls : List CBTree.Call}
    (hroot : pSrc.m_dwLogicalRoot = 0) (hinit : CBTree.init dwPageSize newPage pSrc = .ok tree₀)
    (hrun : calls.foldlM (CBTree.step dwPageSize newPage) tree₀ = .ok tree) :
    ∃ entries, SortedEntries entries ∧
      (∀ k v, (k, v) ∈ entries ↔ calls.foldl mapAfter (fun _ => none) k = some v) ∧
      (entries ≠ [] → ∀ pszStartKey : Option Key, (∀ s ∈ pszStartKey, s.1 ≠ []) →
        ∃ pRoot, idxPages tree.m_pSrc.pages tree.m_pSrc.m_dwLogicalRoot = .ok pRoot ∧
          Enumerates (idxPages tree.m_pSrc.pages) pRoot entries pszStartKey) := by
  have hnew : Represents dwPageSize inUse tree₀ (fun _ => none) [] :=
    ⟨init_new halloc hroot hinit, fun k v => by simp⟩
  obtain ⟨entries, hr⟩ := hnew.run halloc hrun
  exact ⟨entries, hr.tree.sorted, hr.entries,
    fun hne pszStartKey hstart => hr.tree.enumerates hsize hne hstart⟩

theorem enumerates_inserted_fourKeys : ∃ tree₀ tree,
    CBTree.init 104 nextPage newFile = .ok tree₀ ∧
      fourKeys.foldlM (CBTree.step 104 nextPage) tree₀ = .ok tree ∧
      ∃ entries pRoot, (entryC.1, 3) ∈ entries ∧
        Enumerates (idxPages tree.m_pSrc.pages) pRoot entries (some entryB.1) := by
  obtain ⟨tree₀, hinit⟩ : ∃ tree₀, CBTree.init 104 nextPage newFile = .ok tree₀ := ⟨_, rfl⟩
  obtain ⟨tree, hrun⟩ : ∃ tree, (CBTree.init 104 nextPage newFile).mapError TreeError.page >>=
      fourKeys.foldlM (CBTree.step 104 nextPage) = .ok tree := ⟨_, rfl⟩
  rw [hinit] at hrun
  obtain ⟨entries, -, hentries, hall⟩ :=
    enumerates_inserted nextPage_allocates (by decide) rfl hinit hrun
  have hmem : (entryC.1, 3) ∈ entries := (hentries _ _).mpr (by decide)
  obtain ⟨pRoot, -, henum⟩ := hall (List.ne_nil_of_mem hmem) (some entryB.1) fun s hs => by
    rw [← Option.some.inj hs]
    decide
  exact ⟨tree₀, tree, hinit, hrun, entries, pRoot, hmem, henum⟩

end Run

end NtAdmin.Wmi.Btr
