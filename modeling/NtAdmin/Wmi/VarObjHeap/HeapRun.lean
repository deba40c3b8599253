import NtAdmin.Wmi.VarObjHeap.Heap

/-! The object heap of varobjheap.cpp over runs: the blocks that it stores, and the free space that its
admin pages record. -/
namespace NtAdmin.Wmi.VarObjHeap
open Lib

/-- The pages of objects, with what they hold. -/
abbrev Catalog := List (ℕ × Objects)

/-- The object pages of the file are those of the catalog. -/
structure HoldsCatalog (crc : List UInt8 → ℕ) (m_dwPageSize : ℕ) (file : HeapFile)
    (catalog : Catalog) : Prop where
  nodup : (catalog.map Prod.fst).Nodup
  objects : ∀ x ∈ catalog, x.2 ≠ [] ∧
    ∃ page, file x.1 = some (.object page) ∧ HoldsObjects crc m_dwPageSize page x.2
  only : ∀ id page, file id = some (.object page) → id ∈ catalog.map Prod.fst

/-- The entry that a page should have: its free space is what its objects leave. -/
def freeListEntry (m_dwPageSize : ℕ) (x : ℕ × Objects) : FreeListEntry :=
  ⟨x.1, m_dwPageSize - usedBytes x.2⟩

/-- The object pages and the admin pages of the file, which agree with each other and with the cache. -/
structure Catalogued (crc : List UInt8 → ℕ) (m_dwPageSize : ℕ) (pages : List AdminPageEntry)
    (file : HeapFile) (catalog : Catalog) : Prop where
  holds : HoldsCatalog crc m_dwPageSize file catalog
  cache : Cache pages file (catalog.map (freeListEntry m_dwPageSize))
  flushed : Flushed pages file

/-- The blocks are those of the catalog. -/
def Tells (catalog : Catalog) (blocks : Blocks) : Prop :=
  ∀ p id block, blocks (p, id) = some block ↔ ∃ objects, (p, objects) ∈ catalog ∧ (id, block) ∈ objects

section Catalog
variable {crc : List UInt8 → ℕ} {P : ℕ} {file file' : HeapFile} {a b catalog : Catalog} {p id : ℕ}
  {objects objects' : Objects} {page page' : ObjectPage} {block : List UInt8} {blocks : Blocks}

theorem HoldsCatalog.frame (h : HoldsCatalog crc P file catalog)
    (hfile : ∀ id page, file' id = some (.object page) ↔ file id = some (.object page)) :
    HoldsCatalog crc P file' catalog := by
  refine ⟨h.nodup, fun x hx => ?_, fun id page hid => h.only id page ((hfile id page).mp hid)⟩
  obtain ⟨hne, page, hpage, hobjects⟩ := h.objects x hx
  exact ⟨hne, page, (hfile _ _).mpr hpage, hobjects⟩

theorem HoldsCatalog.ne_of_mid (h : HoldsCatalog crc P file (a ++ (p, objects) :: b)) :
    ∀ x ∈ a ++ b, x.1 ≠ p := by
  have hnodup := h.nodup
  rw [List.map_append, List.map_cons, List.nodup_middle, ← List.map_append] at hnodup
  rintro x hx rfl
  exact (List.nodup_cons.mp hnodup).1 (List.mem_map.mpr ⟨x, hx, rfl⟩)

/-- A page with other objects is put. -/
theorem HoldsCatalog.put (h : HoldsCatalog crc P file (a ++ b)) (hnew : ∀ x ∈ a ++ b, x.1 ≠ p)
    (hpage : HoldsObjects crc P page objects) (hne : objects ≠ []) :
    HoldsCatalog crc P (Function.update file p (some (.object page))) (a ++ (p, objects) :: b) := by
  refine ⟨?_, fun x hx => ?_, fun id other hid => ?_⟩
  · rw [List.map_append, List.map_cons, List.nodup_middle, ← List.map_append, List.nodup_cons]
    refine ⟨fun hmem => ?_, h.nodup⟩
    obtain ⟨x, hx, heq⟩ := List.mem_map.mp hmem
    exact hnew x hx heq
  · rcases List.mem_cons.mp (List.perm_middle.mem_iff.mp hx) with rfl | hx
    · exact ⟨hne, page, Function.update_self _ _ _, hpage⟩
    · rw [Function.update_of_ne (hnew x hx)]
      exact h.objects x hx
  · rw [List.map_append, List.map_cons]
    refine List.perm_middle.mem_iff.mpr (List.mem_cons.mpr ?_)
    by_cases heq : id = p
    · exact .inl heq
    · rw [Function.update_of_ne heq] at hid
      rw [← List.map_append]
      exact .inr (h.only id other hid)

/-- What is left when a page is gone. -/
theorem HoldsCatalog.remove (h : HoldsCatalog crc P file (a ++ (p, objects) :: b))
    (hfile : PageDeleted file file' p) : HoldsCatalog crc P file' (a ++ b) := by
  have hne := h.ne_of_mid
  have hnodup := h.nodup
  rw [List.map_append, List.map_cons, List.nodup_middle, ← List.map_append] at hnodup
  refine ⟨(List.nodup_cons.mp hnodup).2, fun x hx => ?_, fun id page hid => ?_⟩
  · obtain ⟨hnil, page, hpage, hobjects⟩ :=
      h.objects x (List.perm_middle.mem_iff.mpr (List.mem_cons_of_mem _ hx))
    exact ⟨hnil, page, (hfile.kept _ _ (hne x hx) hpage).trans hpage, hobjects⟩
  · have hmem := h.only id page (hfile.only id page hid)
    rw [List.map_append, List.map_cons] at hmem
    rcases List.mem_cons.mp (List.perm_middle.mem_iff.mp hmem) with rfl | hmem
    · rw [hfile.gone] at hid
      cases hid
    · rwa [List.map_append]

/-! ### The blocks of a catalog -/

/-- The blocks on other pages are those of the catalog. -/
def TellsElsewhere (p : ℕ) (catalog : Catalog) (blocks : Blocks) : Prop :=
  ∀ q, q ≠ p → ∀ id block,
    blocks (q, id) = some block ↔ ∃ objects, (q, objects) ∈ catalog ∧ (id, block) ∈ objects

theorem tells_mid (hne : ∀ x ∈ a ++ b, x.1 ≠ p) : Tells (a ++ (p, objects) :: b) blocks ↔
    TellsElsewhere p (a ++ b) blocks ∧
      ∀ id block, blocks (p, id) = some block ↔ (id, block) ∈ objects := by
  have hmem {q : ℕ} {objects' : Objects} (hq : q ≠ p) :
      (q, objects') ∈ a ++ (p, objects) :: b ↔ (q, objects') ∈ a ++ b := by
    rw [List.perm_middle.mem_iff, List.mem_cons, Prod.mk.injEq]
    exact or_iff_right fun heq => hq heq.1
  have hmem' {objects' : Objects} : (p, objects') ∈ a ++ (p, objects) :: b ↔ objects' = objects := by
    rw [List.perm_middle.mem_iff, List.mem_cons, Prod.mk.injEq]
    exact ⟨fun h => h.elim And.right fun h => absurd rfl (hne _ h), fun h => .inl ⟨rfl, h⟩⟩
  constructor
  · intro h
    refine ⟨fun q hq id block => (h q id block).trans ?_, fun id block => (h p id block).trans ?_⟩
    · exact exists_congr fun objects' => and_congr_left' (hmem hq)
    · simp only [hmem', exists_eq_left]
  · rintro ⟨helse, hhere⟩ q id block
    by_cases hq : q = p
    · subst hq
      rw [hhere]
      simp only [hmem', exists_eq_left]
    · rw [helse q hq]
      exact exists_congr fun objects' => and_congr_left' (hmem hq).symm

theorem tells_without (hne : ∀ x ∈ catalog, x.1 ≠ p) : Tells catalog blocks ↔
    TellsElsewhere p catalog blocks ∧ ∀ id, blocks (p, id) = none := by
  constructor
  · refine fun h => ⟨fun q _ => h q, fun id => Option.eq_none_iff_forall_ne_some.mpr ?_⟩
    intro block hblock
    obtain ⟨objects, hmem, -⟩ := (h p id block).mp hblock
    exact hne _ hmem rfl
  · rintro ⟨helse, hhere⟩ q id block
    by_cases hq : q = p
    · subst hq
      rw [hhere]
      refine iff_of_false (by simp) ?_
      rintro ⟨objects, hmem, -⟩
      exact hne _ hmem rfl
    · exact helse q hq id block

theorem TellsElsewhere.update (h : TellsElsewhere p catalog blocks) (id : ℕ)
    (pBlock : Option (List UInt8)) :
    TellsElsewhere p catalog (Function.update blocks (p, id) pBlock) := by
  intro q hq i block
  have hhandle : (q, i) ≠ (p, id) := fun heq => hq (congrArg Prod.fst heq)
  rw [Function.update_of_ne hhandle]
  exact h q hq i block

/-- A new object on a page. -/
theorem Tells.write (block : List UInt8) (hne : ∀ x ∈ a ++ b, x.1 ≠ p)
    (helse : TellsElsewhere p (a ++ b) blocks)
    (hhere : ∀ id block, blocks (p, id) = some block ↔ (id, block) ∈ objects)
    (hid : ∀ object ∈ objects, object.1 ≠ id) :
    blocks (p, id) = none ∧
      Tells (a ++ (p, objects ++ [(id, block)]) :: b)
        (Function.update blocks (p, id) (some block)) := by
  refine ⟨Option.eq_none_iff_forall_ne_some.mpr fun other hother =>
    hid _ ((hhere id other).mp hother) rfl, ?_⟩
  refine (tells_mid hne).mpr ⟨helse.update id _, fun i other => ?_⟩
  rw [List.mem_append, List.mem_singleton, Prod.mk.injEq]
  by_cases hi : i = id
  · subst hi
    rw [Function.update_self, Option.some.injEq]
    exact ⟨fun h => .inr ⟨rfl, h.symm⟩, fun h => h.elim (fun h => absurd rfl (hid _ h))
      fun h => h.2.symm⟩
  · have hhandle : (p, i) ≠ (p, id) := fun heq => hi (congrArg Prod.snd heq)
    rw [Function.update_of_ne hhandle, hhere]
    exact ⟨.inl, fun h => h.resolve_right fun h => hi h.1⟩

/-- An object that is taken from a page. -/
theorem delete_mem {c d : Objects} (hnodup : ((c ++ (id, block) :: d).map Prod.fst).Nodup)
    (hhere : ∀ i other, blocks (p, i) = some other ↔ (i, other) ∈ c ++ (id, block) :: d) (i : ℕ)
    (other : List UInt8) :
    Function.update blocks (p, id) none (p, i) = some other ↔ (i, other) ∈ c ++ d := by
  rw [List.map_append, List.map_cons, List.nodup_middle, ← List.map_append] at hnodup
  have hgone := (List.nodup_cons.mp hnodup).1
  by_cases hi : i = id
  · subst hi
    rw [Function.update_self]
    exact iff_of_false (by simp) fun hmem => hgone (List.mem_map.mpr ⟨_, hmem, rfl⟩)
  · have hhandle : (p, i) ≠ (p, id) := fun heq => hi (congrArg Prod.snd heq)
    rw [Function.update_of_ne hhandle, hhere, List.perm_middle.mem_iff, List.mem_cons, Prod.mk.injEq]
    exact or_iff_right fun h => hi h.1

/-! ### Writing -/

section Heap
variable {σ : Type} {newPage : σ → HeapFile → Except HeapError (ℕ × σ)} {heap heap' : CVarObjHeap σ}
  {rounds n size : ℕ} {es : List FreeListEntry} {pages : List AdminPageEntry}

/-- The admin pages were read, and agree with what is stored. At most one came with each call. -/
structure Ready (n : ℕ) (crc : List UInt8 → ℕ) (m_dwPageSize : ℕ) (heap : CVarObjHeap σ)
    (catalog : Catalog) : Prop where
  status : heap.m_dwStatus = .NoError
  catalogued : Catalogued crc m_dwPageSize heap.m_aAdminPages heap.m_pObjectFile catalog
  count : heap.m_aAdminPages.length ≤ n + 1

theorem Ready.readAdminPages (h : Ready n crc P heap catalog) :
    heap.readAdminPages newPage rounds true = .ok heap := if_pos h.status

/-- The flush does not concern pages of objects. -/
theorem Catalogued.flush (hholds : HoldsCatalog crc P file catalog)
    (hcache : Cache pages file (catalog.map (freeListEntry P))) :
    Catalogued crc P (flushAdminPages pages file).1 (flushAdminPages pages file).2 catalog ∧
      (flushAdminPages pages file).1.length = pages.length := by
  obtain ⟨hcache', hflushed, hlength, hfile⟩ := hcache.flush
  refine ⟨⟨hholds.frame fun id page => ?_, hcache', hflushed⟩, hlength⟩
  rcases hfile id with heq | ⟨admin, hadmin, rfl, heq⟩
  · rw [heq]
  · rw [heq]
    refine iff_of_false (fun hadmin => by cases hadmin) fun hobject => ?_
    exact hcache.ne_of_object hobject admin hadmin rfl

theorem findPageWithSpace_spec (hfind : findPageWithSpace pages size 0 = some p) :
    ∃ entry ∈ entries pages, dwAdd size sizeofOffsetEntry ≤ entry.dwFreeSpace ∧
      entry.dwPageId = p := by
  rw [findPageWithSpace] at hfind
  generalize entries pages = es at hfind ⊢
  have hfold (found : Option ℕ) (hfound : es.foldl (fun found entry =>
      if found.getD 0 = 0 ∧ entry.dwFreeSpace ≥ dwAdd size sizeofOffsetEntry then some entry.dwPageId
      else found) found = some p) :
      found = some p ∨ ∃ entry ∈ es, dwAdd size sizeofOffsetEntry ≤ entry.dwFreeSpace ∧
        entry.dwPageId = p := by
    clear hfind
    induction es generalizing found with
    | nil => exact .inl hfound
    | cons entry es ih =>
      rw [List.foldl_cons] at hfound
      rcases ih _ hfound with hfound | ⟨other, hother, hroom⟩
      · split_ifs at hfound with hroom
        · exact .inr ⟨entry, List.mem_cons_self, hroom.2, Option.some.inj hfound⟩
        · exact .inl hfound
      · exact .inr ⟨other, List.mem_cons_of_mem _ hother, hroom⟩
  exact (hfold none hfind).resolve_left fun hnone => by cases hnone

/-- A page with room, among the pages of the catalog. -/
structure Place (crc : List UInt8 → ℕ) (P size n : ℕ) (heap : CVarObjHeap σ) (p : ℕ)
    (page : ObjectPage) (objects : Objects) (a b : Catalog) (blocks : Blocks) : Prop where
  status : heap.m_dwStatus = .NoError
  others : HoldsCatalog crc P (Function.update heap.m_pObjectFile p none) (a ++ b)
  page : HoldsObjects crc P page objects
  room : usedBytes objects + (size + sizeofOffsetEntry) ≤ P
  ne : ∀ x ∈ a ++ b, x.1 ≠ p
  cache : Cache heap.m_aAdminPages heap.m_pObjectFile
    (a.map (freeListEntry P) ++ freeListEntry P (p, objects) :: b.map (freeListEntry P))
  notAdmin : ∀ page ∈ heap.m_aAdminPages, page.dwPageId ≠ p
  count : heap.m_aAdminPages.length ≤ n + 2
  elsewhere : TellsElsewhere p (a ++ b) blocks
  here : ∀ id block, blocks (p, id) = some block ↔ (id, block) ∈ objects

theorem pageDeleted_update (file : HeapFile) (p : ℕ) :
    PageDeleted file (Function.update file p none) p := by
  refine ⟨Function.update_self _ _ _, fun id page hid _ => Function.update_of_ne hid _ _, ?_⟩
  intro id page hobject
  by_cases hid : id = p
  · rw [hid, Function.update_self] at hobject
    cases hobject
  · rwa [Function.update_of_ne hid] at hobject

theorem choosePage_spec (halloc : Allocates newPage) (h : Ready n crc P heap catalog)
    (ht : Tells catalog blocks) (hP : sizeofHeader ≤ P) (hP' : P + sizeofOffsetEntry < 2 ^ 32)
    (hsize : size ≤ P - sizeofHeader) {memory : List UInt8} (hmemory : memory.length = P)
    (hchoose : CVarObjHeap.choosePage newPage P size 10 0 memory heap = .ok (p, page, heap')) :
    ∃ objects a b, Place crc P size n heap' p page objects a b blocks ∧
      (catalog = a ++ (p, objects) :: b ∨ catalog = a ++ b ∧ objects = []) := by
  have hheader : sizeofHeader = 32 := rfl
  have hentry : sizeofOffsetEntry = 16 := rfl
  rw [CVarObjHeap.choosePage] at hchoose
  have hholds := h.catalogued.holds
  have hcache := h.catalogued.cache
  split at hchoose
  · -- There is no page with space.
    obtain ⟨r, hnew, hchoose⟩ := eq_ok_of_bind hchoose
    obtain ⟨dwPageId, pages, file', source⟩ := r
    cases hchoose
    obtain ⟨hfree, hne, hlength, ⟨a', b', hes, hcache'⟩, hfile⟩ := hcache.allocate halloc hnew
    obtain ⟨a, b, rfl, rfl, rfl⟩ := List.map_eq_append_iff.mp hes
    have hobjects (id : ℕ) (page : ObjectPage) :
        file' id = some (.object page) ↔ heap.m_pObjectFile id = some (.object page) := by
      rcases hfile id with heq | ⟨hnone, hdata⟩
      · rw [heq]
      · rw [hnone, hdata]
        exact iff_of_false (fun h => by cases h) fun h => by cases h
    have hnotIn : ∀ x ∈ a ++ b, x.1 ≠ p := by
      rintro x hx rfl
      obtain ⟨-, page, hpage, -⟩ := hholds.objects x hx
      rw [hfree] at hpage
      cases hpage
    have hempty : freeListEntry P (p, []) = ⟨p, dwSub P sizeofOffsetEntry⟩ := by
      rw [dwSub_eq (by omega) (by omega)]
      rfl
    obtain ⟨helse, hhere⟩ := (tells_without hnotIn).mp ht
    refine ⟨[], a, b, ⟨h.status, (hholds.frame hobjects).frame fun id page => ?_, ?_, ?_, hnotIn,
      hempty ▸ hcache', hne, hlength.trans (Nat.succ_le_succ h.count), helse, ?_⟩,
      .inr ⟨rfl, rfl⟩⟩
    · by_cases hid : id = p
      · rw [hid, Function.update_self, hobjects, hfree]
      · rw [Function.update_of_ne hid]
    · refine ⟨rfl, hmemory, ⟨memory.take sizeofOffsetEntry, memory.drop sizeofOffsetEntry, ?_, ?_⟩,
        List.nodup_nil, List.forall_mem_nil _⟩
      · exact (List.take_append_drop _ _).symm
      · rw [List.length_take, hmemory]
        exact min_eq_left (by omega)
    · have hused : usedBytes [] = 16 := rfl
      omega
    · intro id block
      rw [hhere]
      exact iff_of_false (fun h => by cases h) fun h => by cases h
  · next dwPageId hfind =>
    obtain ⟨r, hget, hchoose⟩ := eq_ok_of_bind hchoose
    obtain ⟨entry, hentryMem, hroom, hid⟩ := findPageWithSpace_spec hfind
    rw [hcache.entries] at hentryMem
    obtain ⟨⟨q, objects⟩, hx, rfl⟩ := List.mem_map.mp hentryMem
    obtain rfl : q = dwPageId := hid
    obtain ⟨hnil, other, hother, hobjects⟩ := hholds.objects _ hx
    dsimp only at hother hobjects hnil
    have hpage : r = other := by
      rw [CVarObjHeap.getPage, hother] at hget
      exact (Except.ok.inj hget).symm
    subst hpage
    have hlength := length_memory hobjects
    rw [freeListEntry, dwAdd_eq (by omega)] at hroom
    dsimp only at hroom
    have hused : usedBytes objects = headerBytes objects + (blockBytes objects).length := rfl
    have hroom' : usedBytes objects + (size + sizeofOffsetEntry) ≤ P := by omega
    rw [if_pos (hobjects.validatePageFreeSpace hnil (by omega) hroom')] at hchoose
    cases hchoose
    obtain ⟨a, b, rfl⟩ := List.append_of_mem hx
    obtain ⟨helse, hhere⟩ := (tells_mid hholds.ne_of_mid).mp ht
    rw [List.map_append, List.map_cons] at hcache
    exact ⟨objects, a, b, ⟨h.status, hholds.remove (pageDeleted_update _ _), hobjects, hroom',
      hholds.ne_of_mid, hcache, hcache.ne_of_object hother, h.count.trans (Nat.le_succ _), helse,
      hhere⟩, .inl rfl⟩

theorem newOffsetId_spec {drawn : List ℕ} (h : page.newOffsetId drawn = some id) :
    id ≠ 0 ∧ ∀ entry ∈ page.table, entry.dwOffsetId ≠ id := by
  rw [ObjectPage.newOffsetId] at h
  have hid := List.find?_some h
  exact of_decide_eq_true hid

theorem HoldsObjects.ids_ne (h : HoldsObjects crc P page objects)
    (hid : ∀ entry ∈ page.table, entry.dwOffsetId ≠ id) : ∀ object ∈ objects, object.1 ≠ id := by
  rintro object hobject rfl
  have hmem : object.1 ∈ page.table.map OffsetEntry.dwOffsetId := by
    rw [h.table, ids_entriesFrom]
    exact List.mem_map_of_mem hobject
  obtain ⟨entry, hentry, heq⟩ := List.mem_map.mp hmem
  exact hid entry hentry heq

/-- What a new object on a page leaves. -/
theorem Place.allocate (h : Place crc P block.length n heap p page objects a b blocks)
    (hP' : P + sizeofOffsetEntry < 2 ^ 32) (hid : id ≠ 0)
    (hnew : ∀ entry ∈ page.table, entry.dwOffsetId ≠ id) :
    ∃ pages, updateAdminPageForAllocate p block.length heap.m_aAdminPages = .ok pages ∧
      Ready (n + 1) crc P (CVarObjHeap.flush { heap.putPage p (page.allocateFromPage crc id block) with
        m_aAdminPages := pages }) (a ++ (p, objects ++ [(id, block)]) :: b) ∧
      blocks (p, id) = none ∧ p ≠ 0 ∧
      Tells (a ++ (p, objects ++ [(id, block)]) :: b)
        (Function.update blocks (p, id) (some block)) := by
  have hentry : sizeofOffsetEntry = 16 := rfl
  have hids := h.page.ids_ne hnew
  have hpage := h.page.allocate hP' h.room hid hids
  have hne : objects ++ [(id, block)] ≠ [] :=
    List.append_ne_nil_of_right_ne_nil _ (List.cons_ne_nil _ _)
  have hholds := h.others.put h.ne hpage hne
  rw [Function.update_idem] at hholds
  have hput : ∀ admin ∈ heap.m_aAdminPages, Function.update heap.m_pObjectFile p
      (some (.object (page.allocateFromPage crc id block))) admin.dwPageId =
        heap.m_pObjectFile admin.dwPageId := fun admin hadmin =>
    Function.update_of_ne (h.notAdmin admin hadmin) _ _
  have hcache := h.cache.frame hput
  have hbefore : ∀ x ∈ a.map (freeListEntry P), x.dwPageId ≠ (freeListEntry P (p, objects)).dwPageId := by
    intro x hx
    obtain ⟨y, hy, rfl⟩ := List.mem_map.mp hx
    exact h.ne y (List.mem_append_left _ hy)
  obtain ⟨pages, hupdate, hcache, hlength⟩ := hcache.update hbefore fun entry => { entry with
    dwFreeSpace := dwSub entry.dwFreeSpace (dwAdd block.length sizeofOffsetEntry) }
  have hused : usedBytes (objects ++ [(id, block)]) =
      usedBytes objects + (block.length + sizeofOffsetEntry) := by
    have happend := usedBytes_append objects [(id, block)]
    rw [usedBytes_cons] at happend
    have hnil : usedBytes [] = sizeofOffsetEntry := rfl
    dsimp only at happend
    omega
  have hroom := h.room
  have hfree : dwSub (freeListEntry P (p, objects)).dwFreeSpace
      (dwAdd block.length sizeofOffsetEntry) = P - usedBytes (objects ++ [(id, block)]) := by
    rw [dwAdd_eq (by omega), freeListEntry]
    dsimp only
    rw [dwSub_eq (by omega) (by omega), hused]
    omega
  rw [hfree] at hcache
  have hentries : (a ++ (p, objects ++ [(id, block)]) :: b).map (freeListEntry P) =
      a.map (freeListEntry P) ++ ⟨(freeListEntry P (p, objects)).dwPageId,
        P - usedBytes (objects ++ [(id, block)])⟩ :: b.map (freeListEntry P) := by
    rw [List.map_append, List.map_cons]
    rfl
  rw [← hentries] at hcache
  obtain ⟨hcatalogued, hcount⟩ := Catalogued.flush hholds hcache
  obtain ⟨hnone, htells⟩ := Tells.write block h.ne h.elsewhere h.here hids
  refine ⟨pages, hupdate, ⟨h.status, hcatalogued, ?_⟩, hnone, ?_, htells⟩
  · exact (hcount.trans hlength).trans_le h.count
  · rintro rfl
    obtain ⟨admin, hadmin, hzero⟩ := h.cache.zero
    exact h.notAdmin admin hadmin hzero

/-- `WriteNewBuffer` stores the block under a new handle. -/
theorem Ready.writeNewBuffer (halloc : Allocates newPage) (h : Ready n crc P heap catalog)
    (ht : Tells catalog blocks) (hP : sizeofHeader ≤ P) (hP' : P + sizeofOffsetEntry < 2 ^ 32)
    {env : Surroundings} {new : ℕ × ℕ}
    (hwrite : heap.writeNewBuffer newPage crc P rounds env block = .ok (new, heap')) :
    blocks new = none ∧ ∃ catalog', Ready (n + 1) crc P heap' catalog' ∧
      Tells catalog' (Function.update blocks new (some block)) := by
  rw [CVarObjHeap.writeNewBuffer, h.readAdminPages] at hwrite
  obtain ⟨r, hr, hwrite⟩ := eq_ok_of_bind hwrite
  rw [← Except.ok.inj hr] at hwrite
  split_ifs at hwrite with hsize
  obtain ⟨r, hchoose, hwrite⟩ := eq_ok_of_bind hwrite
  obtain ⟨p, page, heap₁⟩ := r
  obtain ⟨objects, a, b, hplace, -⟩ := choosePage_spec halloc h ht hP hP' (Nat.le_of_not_lt hsize)
    (by rw [List.length_map, List.length_range]) hchoose
  dsimp only at hwrite
  split at hwrite
  · cases hwrite
  · next dwNewOffsetId hid =>
    obtain ⟨hne, hnew⟩ := newOffsetId_spec hid
    obtain ⟨pages, hupdate, hready, hnone, hp, htells⟩ := hplace.allocate hP' hne hnew
    obtain ⟨pages', hpages, hwrite⟩ := eq_ok_of_bind hwrite
    obtain rfl : pages = pages' := Except.ok.inj (hupdate.symm.trans hpages)
    rw [if_neg fun hzero => hzero.elim hp hne] at hwrite
    cases hwrite
    exact ⟨hnone, _, hready, htells⟩

/-! ### Reading and deleting -/

/-- The page of a stored block. -/
theorem Ready.page_of_block (h : Ready n crc P heap catalog) (ht : Tells catalog blocks)
    (hblock : blocks (p, id) = some block) :
    ∃ a b c d page, catalog = a ++ (p, c ++ (id, block) :: d) :: b ∧
      heap.getPage p = .ok page ∧ heap.m_pObjectFile p = some (.object page) ∧
      HoldsObjects crc P page (c ++ (id, block) :: d) := by
  obtain ⟨objects, hx, hobject⟩ := (ht p id block).mp hblock
  obtain ⟨-, page, hpage, hobjects⟩ := h.catalogued.holds.objects _ hx
  obtain ⟨a, b, rfl⟩ := List.append_of_mem hx
  obtain ⟨c, d, rfl⟩ := List.append_of_mem hobject
  refine ⟨a, b, c, d, page, rfl, ?_, hpage, hobjects⟩
  rw [CVarObjHeap.getPage, hpage]

/-- Without a stored block the page has no such object. -/
theorem Ready.page_without (h : Ready n crc P heap catalog) (ht : Tells catalog blocks)
    (hblock : blocks (p, id) = none) (hget : heap.getPage p = .ok page) :
    ∃ objects, objects ≠ [] ∧ HoldsObjects crc P page objects ∧ id ∉ objects.map Prod.fst := by
  have hfile : heap.m_pObjectFile p = some (.object page) := by
    rw [CVarObjHeap.getPage] at hget
    split at hget
    · next hpage => rw [hpage, Except.ok.inj hget]
    · cases hget
    · cases hget
  obtain ⟨x, hx, rfl⟩ := List.mem_map.mp (h.catalogued.holds.only p page hfile)
  obtain ⟨hnil, other, hother, hobjects⟩ := h.catalogued.holds.objects x hx
  obtain rfl : other = page := PageContents.object.inj (Option.some.inj (hother.symm.trans hfile))
  refine ⟨x.2, hnil, hobjects, fun hid => ?_⟩
  obtain ⟨object, hobject, rfl⟩ := List.mem_map.mp hid
  have hsome := (ht x.1 object.1 object.2).mpr ⟨x.2, hx, hobject⟩
  rw [hblock] at hsome
  cases hsome

theorem Ready.block_ne_zero (h : Ready n crc P heap catalog) (ht : Tells catalog blocks)
    (hblock : blocks (p, id) = some block) : p ≠ 0 ∧ id ≠ 0 := by
  obtain ⟨a, b, c, d, page, rfl, -, hfile, hobjects⟩ := h.page_of_block ht hblock
  constructor
  · rintro rfl
    obtain ⟨admin, hadmin, hzero⟩ := h.catalogued.cache.zero
    exact h.catalogued.cache.ne_of_object hfile admin hadmin hzero
  · exact hobjects.ids _ (List.mem_append_right _ List.mem_cons_self)

/-- `ReadBuffer` returns a stored block. -/
theorem Ready.readBuffer (h : Ready n crc P heap catalog) (ht : Tells catalog blocks)
    (hblock : blocks (p, id) = some block) :
    heap.readBuffer newPage crc P rounds p id = .ok (block, heap) := by
  obtain ⟨hp, hid⟩ := h.block_ne_zero ht hblock
  obtain ⟨a, b, c, d, page, rfl, hget, -, hobjects⟩ := h.page_of_block ht hblock
  rw [CVarObjHeap.readBuffer, if_neg fun hzero => hzero.elim hp hid, h.readAdminPages]
  dsimp only [bind, Except.bind]
  rw [hget]
  dsimp only
  rw [hobjects.readObject]

/-- `DeleteBuffer` of a stored block takes it, and nothing else, out of the heap. -/
theorem Ready.deleteBuffer (h : Ready n crc P heap catalog) (ht : Tells catalog blocks)
    (hP' : P + sizeofOffsetEntry < 2 ^ 32) (hblock : blocks (p, id) = some block) :
    ∃ heap' catalog', heap.deleteBuffer newPage P rounds p id = .ok heap' ∧
      Ready n crc P heap' catalog' ∧ Tells catalog' (Function.update blocks (p, id) none) := by
  obtain ⟨a, b, c, d, page, rfl, hget, hfile, hobjects⟩ := h.page_of_block ht hblock
  have hentry : sizeofOffsetEntry = 16 := rfl
  have hholds := h.catalogued.holds
  have hcache := h.catalogued.cache
  obtain ⟨page', hremove, hobjects'⟩ := hobjects.remove (by omega)
  have hnil : c ++ (id, block) :: d ≠ [] := List.append_ne_nil_of_right_ne_nil _ (List.cons_ne_nil _ _)
  obtain ⟨helse, hhere⟩ := (tells_mid hholds.ne_of_mid).mp ht
  have hhere' := delete_mem hobjects.nodup hhere
  have helse' := helse.update id none
  rw [List.map_append, List.map_cons] at hcache
  have hbefore : ∀ x ∈ a.map (freeListEntry P),
      x.dwPageId ≠ (freeListEntry P (p, c ++ (id, block) :: d)).dwPageId := by
    intro x hx
    obtain ⟨y, hy, rfl⟩ := List.mem_map.mp hx
    exact hholds.ne_of_mid y (List.mem_append_left _ hy)
  -- The free space that the entry has then.
  have hused : usedBytes (c ++ (id, block) :: d) =
      usedBytes (c ++ d) + (block.length + sizeofOffsetEntry) := by
    have happend := usedBytes_append c ((id, block) :: d)
    have happend' := usedBytes_append c d
    rw [usedBytes_cons] at happend
    dsimp only at happend
    omega
  have hlength : usedBytes (c ++ (id, block) :: d) ≤ P := length_memory hobjects
  have hfree : dwAdd (freeListEntry P (p, c ++ (id, block) :: d)).dwFreeSpace
      (dwAdd block.length sizeofOffsetEntry) = P - usedBytes (c ++ d) := by
    rw [dwAdd_eq (b := sizeofOffsetEntry) (by omega), freeListEntry]
    dsimp only
    rw [dwAdd_eq (by omega)]
    omega
  have hstart : heap.deleteBuffer newPage P rounds p id =
      (updateAdminPageForDelete P p block.length heap.m_aAdminPages heap.m_pObjectFile).map
        fun deleted => CVarObjHeap.flush (if deleted.1 then
            { heap with m_aAdminPages := deleted.2.1, m_pObjectFile := deleted.2.2 }
          else CVarObjHeap.putPage
            { heap with m_aAdminPages := deleted.2.1, m_pObjectFile := deleted.2.2 } p page') := by
    rw [CVarObjHeap.deleteBuffer, h.readAdminPages]
    dsimp only [bind, Except.bind]
    rw [hget]
    dsimp only
    rw [hobjects.multiPageObject hnil, if_neg Bool.false_ne_true, hremove]
    dsimp only
    cases updateAdminPageForDelete P p block.length heap.m_aAdminPages heap.m_pObjectFile with
    | error e => rfl
    | ok deleted => rfl
  by_cases hlast : c ++ d = []
  · have hempty : P - usedBytes (c ++ d) = dwSub P sizeofOffsetEntry := by
      have hnil : usedBytes [] = 16 := rfl
      rw [hlast, dwSub_eq (by omega) (by omega)]
      rfl
    obtain ⟨pages, file, hupdate, hcache, hcount, hdeleted⟩ :=
      hcache.deletePage hbefore hfile (hfree.trans hempty)
    have hupdate' : updateAdminPageForDelete P p block.length heap.m_aAdminPages
        heap.m_pObjectFile = .ok (true, pages, file) := hupdate
    rw [← List.map_append] at hcache
    obtain ⟨hcatalogued, hflushed⟩ := Catalogued.flush (hholds.remove hdeleted) hcache
    refine ⟨CVarObjHeap.flush { heap with m_aAdminPages := pages, m_pObjectFile := file }, a ++ b, ?_,
      ⟨h.status, hcatalogued, ?_⟩, ?_⟩
    · rw [hstart, hupdate']
      rfl
    · exact (hflushed.trans_le hcount).trans h.count
    · refine (tells_without hholds.ne_of_mid).mpr ⟨helse', fun i => ?_⟩
      refine Option.eq_none_iff_forall_ne_some.mpr fun other hother => ?_
      have hmem := (hhere' i other).mp hother
      rw [hlast] at hmem
      cases hmem
  · have hkeeps : dwAdd (freeListEntry P (p, c ++ (id, block) :: d)).dwFreeSpace
        (dwAdd block.length sizeofOffsetEntry) ≠ dwSub P sizeofOffsetEntry := by
      obtain ⟨object, rest, hcons⟩ := List.exists_cons_of_ne_nil hlast
      have hcount := usedBytes_cons object rest
      rw [← hcons] at hcount
      have hheader : sizeofOffsetEntry ≤ usedBytes rest := by
        rw [usedBytes, headerBytes, Nat.mul_succ]
        omega
      rw [hfree, dwSub_eq (by omega) (by omega)]
      omega
    obtain ⟨pages, hupdate, hcache, hcount⟩ := hcache.delete hbefore hkeeps
    have hupdate' : updateAdminPageForDelete P p block.length heap.m_aAdminPages
        heap.m_pObjectFile = .ok (false, pages, heap.m_pObjectFile) := hupdate
    rw [hfree] at hcache
    have hnotAdmin := hcache.ne_of_object hfile
    have hput : ∀ admin ∈ pages, Function.update heap.m_pObjectFile p (some (.object page'))
        admin.dwPageId = heap.m_pObjectFile admin.dwPageId := fun admin hadmin =>
      Function.update_of_ne (hnotAdmin admin hadmin) _ _
    have hentries : (a ++ (p, c ++ d) :: b).map (freeListEntry P) = a.map (freeListEntry P) ++
        ⟨(freeListEntry P (p, c ++ (id, block) :: d)).dwPageId, P - usedBytes (c ++ d)⟩ ::
          b.map (freeListEntry P) := by
      rw [List.map_append, List.map_cons]
      rfl
    have hholds' := (hholds.remove (pageDeleted_update _ _)).put hholds.ne_of_mid hobjects' hlast
    rw [Function.update_idem] at hholds'
    obtain ⟨hcatalogued, hflushed⟩ := Catalogued.flush hholds' (hentries ▸ hcache.frame hput)
    refine ⟨CVarObjHeap.flush (CVarObjHeap.putPage { heap with m_aAdminPages := pages } p page'),
      a ++ (p, c ++ d) :: b, ?_, ⟨h.status, hcatalogued, ?_⟩,
      (tells_mid hholds.ne_of_mid).mpr ⟨helse', hhere'⟩⟩
    · rw [hstart, hupdate']
      rfl
    · exact (hflushed.trans hcount).trans_le h.count

/-- `DeleteBuffer` fails without a stored block. -/
theorem Ready.deleteBuffer_missing (h : Ready n crc P heap catalog) (ht : Tells catalog blocks)
    (hblock : blocks (p, id) = none) : heap.deleteBuffer newPage P rounds p id ≠ .ok heap' := by
  intro hdelete
  rw [CVarObjHeap.deleteBuffer, h.readAdminPages] at hdelete
  obtain ⟨r, hr, hdelete⟩ := eq_ok_of_bind hdelete
  rw [← Except.ok.inj hr] at hdelete
  obtain ⟨page, hget, hdelete⟩ := eq_ok_of_bind hdelete
  obtain ⟨objects, hnil, hobjects, hid⟩ := h.page_without ht hblock hget
  rw [hobjects.multiPageObject hnil, if_neg Bool.false_ne_true] at hdelete
  obtain ⟨removed, hremove, -⟩ := eq_ok_of_bind hdelete
  rw [hobjects.remove_missing hid] at hremove
  cases hremove

/-! ### Runs -/

/-- The file is empty, or its pages agree with each other and hold these blocks. -/
def OnFile (n : ℕ) (crc : List UInt8 → ℕ) (P : ℕ) (file : HeapFile) (blocks : Blocks) : Prop :=
  (file = fun _ => none) ∧ (blocks = fun _ => none) ∨
    ∃ pages catalog, Catalogued crc P pages file catalog ∧ pages.length ≤ n + 1 ∧ Tells catalog blocks

/-- What holds of a session after `n` calls, if these are the stored blocks. -/
structure Represents (n : ℕ) (crc : List UInt8 → ℕ) (P : ℕ) (session : Session σ)
    (blocks : StoredBlocks) : Prop where
  current : OnFile n crc P session.heap.m_pObjectFile blocks.current
  committed : OnFile n crc P session.committed blocks.committed
  cached : session.heap.m_dwStatus = .NoError →
    ∃ catalog, Ready n crc P session.heap catalog ∧ Tells catalog blocks.current

theorem OnFile.succ (h : OnFile n crc P file blocks) : OnFile (n + 1) crc P file blocks := by
  rcases h with h | ⟨pages, catalog, hcatalogued, hcount, ht⟩
  · exact .inl h
  · exact .inr ⟨pages, catalog, hcatalogued, hcount.trans (Nat.le_succ _), ht⟩

theorem Ready.succ (h : Ready n crc P heap catalog) : Ready (n + 1) crc P heap catalog :=
  ⟨h.status, h.catalogued, h.count.trans (Nat.le_succ _)⟩

theorem Represents.succ {session : Session σ} {stored : StoredBlocks}
    (h : Represents n crc P session stored) : Represents (n + 1) crc P session stored := by
  refine ⟨h.current.succ, h.committed.succ, fun hstatus => ?_⟩
  obtain ⟨catalog, hready, ht⟩ := h.cached hstatus
  exact ⟨catalog, hready.succ, ht⟩

theorem Ready.represents (h : Ready n crc P heap catalog) (ht : Tells catalog blocks)
    {committed : Blocks} (hcommitted : OnFile n crc P file committed) :
    Represents n crc P ⟨heap, file⟩ ⟨blocks, committed⟩ :=
  ⟨.inr ⟨_, catalog, h.catalogued, h.count, ht⟩, hcommitted, fun _ => ⟨catalog, h, ht⟩⟩

/-- The first admin page, on an empty file. -/
theorem catalogued_first : Catalogued crc P [⟨0, ⟨0, []⟩, true⟩]
    (Function.update (fun _ => none) 0 (some (.admin ⟨0, []⟩))) [] := by
  have hfile (id : ℕ) (page : ObjectPage) :
      (Function.update (fun _ => none) 0 (some (.admin ⟨0, []⟩)) : HeapFile) id ≠
        some (.object page) := by
    intro hobject
    by_cases hid : id = 0
    · rw [hid, Function.update_self] at hobject
      cases hobject
    · rw [Function.update_of_ne hid] at hobject
      cases hobject
  have hflushed : Flushed [⟨0, ⟨0, []⟩, true⟩]
      (Function.update (fun _ => none) 0 (some (.admin ⟨0, []⟩))) := by
    intro page hpage
    rw [List.mem_singleton.mp hpage]
    exact Function.update_self _ _ _
  refine ⟨⟨List.nodup_nil, List.forall_mem_nil _, fun id page hid => absurd hid (hfile id page)⟩,
    ⟨List.cons_ne_nil _ _, ⟨rfl, rfl⟩, List.nodup_singleton _, rfl, fun page hpage => ?_,
      fun page hpage _ => hflushed page hpage⟩, hflushed⟩
  exact ⟨_, hflushed page hpage, fun objectPage hobject => by cases hobject⟩

/-- `ReadAdminPages` on a file with these blocks. -/
theorem OnFile.read (halloc : Allocates newPage) (h : OnFile n crc P heap.m_pObjectFile blocks)
    (hn : n < rounds) (hstatus : heap.m_dwStatus ≠ .NoError)
    (hread : heap.readAdminPages newPage rounds true = .ok heap') :
    ∃ catalog, Ready n crc P heap' catalog ∧ Tells catalog blocks := by
  rw [CVarObjHeap.readAdminPages, if_neg hstatus, if_pos rfl] at hread
  obtain ⟨r, hloop, hread⟩ := eq_ok_of_bind hread
  obtain ⟨pages', file', source⟩ := r
  cases hread
  rcases h with ⟨hempty, rfl⟩ | ⟨pages, catalog, hcatalogued, hcount, ht⟩
  · rw [hempty] at hloop
    obtain ⟨rounds, rfl⟩ : ∃ r, rounds = r + 1 := ⟨rounds - 1, by omega⟩
    rw [readLoop] at hloop
    dsimp only at hloop
    rw [if_neg fun hzero => hzero rfl] at hloop
    obtain ⟨r, hnew, hloop⟩ := eq_ok_of_bind hloop
    obtain ⟨id, s⟩ := r
    obtain rfl := halloc.first hnew
    cases hloop
    refine ⟨[], ⟨rfl, catalogued_first, Nat.succ_le_succ (Nat.zero_le _)⟩, fun p id block => ?_⟩
    exact iff_of_false (by simp) (by simp)
  · rw [hcatalogued.cache.read hcatalogued.flushed (hcount.trans hn)] at hloop
    cases hloop
    obtain ⟨hcache, hflushed⟩ := hcatalogued.cache.unmark hcatalogued.flushed
    exact ⟨catalog, ⟨rfl, ⟨hcatalogued.holds, hcache, hflushed⟩, by rwa [List.length_map]⟩, ht⟩

section Calls
variable {session session' : Session σ} {stored : StoredBlocks} {heap₁ : CVarObjHeap σ}

theorem Represents.ready (halloc : Allocates newPage) (h : Represents n crc P session stored)
    (hn : n < rounds) (hread : session.heap.readAdminPages newPage rounds true = .ok heap') :
    ∃ catalog, Ready n crc P heap' catalog ∧ Tells catalog stored.current := by
  by_cases hstatus : session.heap.m_dwStatus = .NoError
  · obtain ⟨catalog, hready, ht⟩ := h.cached hstatus
    rw [hready.readAdminPages] at hread
    cases hread
    exact ⟨catalog, hready, ht⟩
  · exact h.current.read halloc hn hstatus hread

/-- The admin pages can be read once a block is stored. -/
theorem Represents.exists_ready (h : Represents n crc P session stored) (hn : n < rounds)
    {handle : ℕ × ℕ} (hblock : stored.current handle = some block) :
    ∃ heap' catalog, session.heap.readAdminPages newPage rounds true = .ok heap' ∧
      Ready n crc P heap' catalog ∧ Tells catalog stored.current := by
  by_cases hstatus : session.heap.m_dwStatus = .NoError
  · obtain ⟨catalog, hready, ht⟩ := h.cached hstatus
    exact ⟨_, catalog, hready.readAdminPages, hready, ht⟩
  · rcases h.current with ⟨-, hempty⟩ | ⟨pages, catalog, hcatalogued, hcount, ht⟩
    · rw [hempty] at hblock
      cases hblock
    · obtain ⟨hcache, hflushed⟩ := hcatalogued.cache.unmark hcatalogued.flushed
      refine ⟨⟨.NoError, _, session.heap.m_pObjectFile, session.heap.source⟩, catalog, ?_,
        ⟨rfl, ⟨hcatalogued.holds, hcache, hflushed⟩, by rwa [List.length_map]⟩, ht⟩
      rw [CVarObjHeap.readAdminPages, if_neg hstatus, if_pos rfl,
        hcatalogued.cache.read hcatalogued.flushed (hcount.trans hn)]
      rfl

variable (hread : heap.readAdminPages newPage rounds true = .ok heap₁)
  (hstatus : heap₁.m_dwStatus = .NoError)
include hread hstatus

theorem readBuffer_congr : heap.readBuffer newPage crc P rounds p id =
    heap₁.readBuffer newPage crc P rounds p id := by
  have hsame : heap₁.readAdminPages newPage rounds true = .ok heap₁ := if_pos hstatus
  rw [CVarObjHeap.readBuffer, CVarObjHeap.readBuffer, hread, hsame]

theorem writeNewBuffer_congr (env : Surroundings) :
    heap.writeNewBuffer newPage crc P rounds env block =
      heap₁.writeNewBuffer newPage crc P rounds env block := by
  have hsame : heap₁.readAdminPages newPage rounds true = .ok heap₁ := if_pos hstatus
  rw [CVarObjHeap.writeNewBuffer, CVarObjHeap.writeNewBuffer, hread, hsame]

theorem deleteBuffer_congr : heap.deleteBuffer newPage P rounds p id =
    heap₁.deleteBuffer newPage P rounds p id := by
  have hsame : heap₁.readAdminPages newPage rounds true = .ok heap₁ := if_pos hstatus
  rw [CVarObjHeap.deleteBuffer, CVarObjHeap.deleteBuffer, hread, hsame]

omit hread hstatus

/-- `DeleteBuffer` takes a stored block out. -/
theorem Ready.deleteBuffer_ok (h : Ready n crc P heap catalog) (ht : Tells catalog blocks)
    (hP' : P + sizeofOffsetEntry < 2 ^ 32)
    (hdelete : heap.deleteBuffer newPage P rounds p id = .ok heap') :
    ∃ catalog', Ready n crc P heap' catalog' ∧
      Tells catalog' (Function.update blocks (p, id) none) := by
  cases hblock : blocks (p, id) with
  | none => exact absurd hdelete (h.deleteBuffer_missing ht hblock)
  | some block =>
    obtain ⟨heap₂, catalog', hdelete', hready, ht'⟩ := h.deleteBuffer ht hP' hblock
    rw [hdelete'] at hdelete
    cases hdelete
    exact ⟨catalog', hready, ht'⟩

/-- `WriteNewBuffer` in a session. -/
theorem Represents.writeNewBuffer (halloc : Allocates newPage) (hP : sizeofHeader ≤ P)
    (hP' : P + sizeofOffsetEntry < 2 ^ 32) (hn : n < rounds)
    (h : Represents n crc P session stored) {env : Surroundings} {new : ℕ × ℕ}
    (hwrite : session.heap.writeNewBuffer newPage crc P rounds env block = .ok (new, heap')) :
    stored.current new = none ∧
      Represents (n + 1) crc P (session.withHeap heap')
        { stored with current := Function.update stored.current new (some block) } := by
  obtain ⟨heap₁, hread, -⟩ := eq_ok_of_bind hwrite
  obtain ⟨catalog, hready, ht⟩ := h.ready halloc hn hread
  rw [writeNewBuffer_congr hread hready.status] at hwrite
  obtain ⟨hnone, catalog', hready', ht'⟩ := hready.writeNewBuffer halloc ht hP hP' hwrite
  exact ⟨hnone, hready'.represents ht' h.committed.succ⟩

/-- `WriteExistingBuffer` in a session. -/
theorem Represents.writeExistingBuffer (halloc : Allocates newPage) (hP : sizeofHeader ≤ P)
    (hP' : P + sizeofOffsetEntry < 2 ^ 32) (hn : n < rounds)
    (h : Represents n crc P session stored) {env : Surroundings} {new : ℕ × ℕ}
    (hupdate : session.heap.writeExistingBuffer newPage crc P rounds env block p id =
      .ok (new, heap')) :
    Function.update stored.current (p, id) none new = none ∧
      Represents (n + 1) crc P (session.withHeap heap')
        { stored with
          current := Function.update (Function.update stored.current (p, id) none) new (some block) } := by
  rw [CVarObjHeap.writeExistingBuffer] at hupdate
  split_ifs at hupdate
  obtain ⟨heap₁, hread, hupdate⟩ := eq_ok_of_bind hupdate
  obtain ⟨heap₂, hdelete, hupdate⟩ := eq_ok_of_bind hupdate
  obtain ⟨r, hwrite, hupdate⟩ := eq_ok_of_bind hupdate
  obtain ⟨handle, heap₃⟩ := r
  dsimp only at hupdate
  split_ifs at hupdate
  cases hupdate
  obtain ⟨catalog, hready, ht⟩ := h.ready halloc hn hread
  obtain ⟨catalog', hready', ht'⟩ := hready.deleteBuffer_ok ht hP' hdelete
  obtain ⟨hnone, catalog'', hready'', ht''⟩ := hready'.writeNewBuffer halloc ht' hP hP' hwrite
  exact ⟨hnone, hready''.represents ht'' h.committed.succ⟩

/-- `DeleteBuffer` in a session. -/
theorem Represents.deleteBuffer (halloc : Allocates newPage) (hP' : P + sizeofOffsetEntry < 2 ^ 32)
    (hn : n < rounds) (h : Represents n crc P session stored)
    (hdelete : session.heap.deleteBuffer newPage P rounds p id = .ok heap') :
    Represents (n + 1) crc P (session.withHeap heap')
      { stored with current := Function.update stored.current (p, id) none } := by
  obtain ⟨heap₁, hread, -⟩ := eq_ok_of_bind hdelete
  obtain ⟨catalog, hready, ht⟩ := h.ready halloc hn hread
  rw [deleteBuffer_congr hread hready.status] at hdelete
  obtain ⟨catalog', hready', ht'⟩ := hready.deleteBuffer_ok ht hP' hdelete
  exact hready'.succ.represents ht' h.committed.succ

/-- `ReadBuffer` in a session. -/
theorem Represents.readBuffer (halloc : Allocates newPage) (hn : n < rounds)
    (h : Represents n crc P session stored)
    (hbuffer : session.heap.readBuffer newPage crc P rounds p id = .ok (block, heap')) :
    Represents n crc P (session.withHeap heap') stored := by
  rw [CVarObjHeap.readBuffer] at hbuffer
  split_ifs at hbuffer
  obtain ⟨heap₁, hread, hbuffer⟩ := eq_ok_of_bind hbuffer
  obtain ⟨page, hget, hbuffer⟩ := eq_ok_of_bind hbuffer
  obtain ⟨pBlock, hobject, hbuffer⟩ := eq_ok_of_bind hbuffer
  cases hbuffer
  obtain ⟨catalog, hready, ht⟩ := h.ready halloc hn hread
  exact hready.represents ht h.committed

theorem Represents.step (halloc : Allocates newPage) (hP : sizeofHeader ≤ P)
    (hP' : P + sizeofOffsetEntry < 2 ^ 32) (hn : n < rounds)
    (h : Represents n crc P session stored) {call : HeapCall σ}
    (hstep : session.step newPage crc P rounds call = .ok session') :
    Represents (n + 1) crc P session' (stored.after call) := by
  cases call with
  | read old =>
    obtain ⟨r, hbuffer, hstep⟩ := eq_ok_of_bind hstep
    cases hstep
    exact (h.readBuffer halloc hn hbuffer).succ
  | write env pBlock new =>
    obtain ⟨r, hwrite, hstep⟩ := eq_ok_of_bind hstep
    obtain ⟨handle, heap₂⟩ := r
    dsimp only at hstep
    split_ifs at hstep with hnew
    cases hstep
    subst hnew
    exact (h.writeNewBuffer halloc hP hP' hn hwrite).2
  | update env pBlock old new =>
    obtain ⟨r, hupdate, hstep⟩ := eq_ok_of_bind hstep
    obtain ⟨handle, heap₂⟩ := r
    dsimp only at hstep
    split_ifs at hstep with hnew
    cases hstep
    subst hnew
    exact (h.writeExistingBuffer halloc hP hP' hn hupdate).2
  | delete old =>
    obtain ⟨heap₂, hdelete, hstep⟩ := eq_ok_of_bind hstep
    cases hstep
    exact h.deleteBuffer halloc hP' hn hdelete
  | flushCaches =>
    obtain ⟨heap₂, hflush, hstep⟩ := eq_ok_of_bind hstep
    cases hstep
    cases hflush
    exact ⟨h.current.succ, h.committed.succ, fun hstatus => by cases hstatus⟩
  | commit =>
    cases hstep
    exact ⟨h.current.succ, h.current.succ, h.succ.cached⟩
  | abort source =>
    obtain ⟨heap₂, hread, hstep⟩ := eq_ok_of_bind hstep
    cases hstep
    rw [CVarObjHeap.invalidateCache] at hread
    obtain ⟨catalog, hready, ht⟩ :=
      OnFile.read halloc h.committed hn (fun hstatus => by cases hstatus) hread
    exact hready.succ.represents ht h.committed.succ

/-- The heap of a new file. -/
theorem represents_init (halloc : Allocates newPage) (hrounds : 0 < rounds) {source : σ}
    (hinit : CVarObjHeap.init newPage rounds (fun _ => none) source = .ok heap) :
    Represents 0 crc P ⟨heap, fun _ => none⟩ ⟨fun _ => none, fun _ => none⟩ := by
  have hempty : OnFile 0 crc P (fun _ => none) (fun _ => none) := .inl ⟨rfl, rfl⟩
  obtain ⟨catalog, hready, ht⟩ :=
    OnFile.read halloc hempty hrounds (fun hstatus => by cases hstatus) hinit
  exact hready.represents ht hempty

/-- A stored block can be read and deleted. -/
theorem Represents.stored_ok (hP' : P + sizeofOffsetEntry < 2 ^ 32) (hn : n < rounds)
    (h : Represents n crc P session stored) (hblock : stored.current (p, id) = some block) :
    (∃ heap', session.heap.readBuffer newPage crc P rounds p id = .ok (block, heap')) ∧
      ∃ heap', session.heap.deleteBuffer newPage P rounds p id = .ok heap' := by
  obtain ⟨heap₁, catalog, hread, hready, ht⟩ := h.exists_ready hn hblock
  refine ⟨⟨heap₁, ?_⟩, ?_⟩
  · rw [readBuffer_congr hread hready.status, hready.readBuffer ht hblock]
  · obtain ⟨heap₂, catalog', hdelete, -⟩ := hready.deleteBuffer ht hP' hblock
    exact ⟨heap₂, (deleteBuffer_congr hread hready.status).trans hdelete⟩

/-- Behind any calls on the heap of a new file, also with transactions that were aborted, `ReadBuffer`
returns each block that is stored and `DeleteBuffer` takes it, a new handle is none of a stored block, and
the admin pages record for each page the space that its objects leave. -/
theorem heap_stores_blocks (halloc : Allocates newPage) (hP : sizeofHeader ≤ P)
    (hP' : P + sizeofOffsetEntry < 2 ^ 32) {calls : List (HeapCall σ)} (hrounds : calls.length < rounds)
    {source : σ} (hinit : CVarObjHeap.init newPage rounds (fun _ => none) source = .ok heap)
    (hrun : calls.foldlM (Session.step newPage crc P rounds) ⟨heap, fun _ => none⟩ = .ok session)
    (hstored : calls.foldl StoredBlocks.after ⟨fun _ => none, fun _ => none⟩ = stored) :
    (∀ p id block, stored.current (p, id) = some block →
        (∃ heap', session.heap.readBuffer newPage crc P rounds p id = .ok (block, heap')) ∧
        ∃ heap', session.heap.deleteBuffer newPage P rounds p id = .ok heap') ∧
      (∀ env pBlock new heap',
        session.heap.writeNewBuffer newPage crc P rounds env pBlock = .ok (new, heap') →
        stored.current new = none) ∧
      ∀ heap', session.heap.readAdminPages newPage rounds true = .ok heap' →
        ∃ catalog, Tells catalog stored.current ∧ HoldsCatalog crc P heap'.m_pObjectFile catalog ∧
          entries heap'.m_aAdminPages = catalog.map (freeListEntry P) ∧
          Flushed heap'.m_aAdminPages heap'.m_pObjectFile := by
  have hrep : Represents calls.length crc P session stored := by
    rw [← hstored, ← Nat.zero_add calls.length]
    refine foldlM_refines (N := calls.length) (R := fun n session stored =>
      Represents n crc P session stored) ?_ (Nat.zero_add _).le
        (represents_init halloc (Nat.zero_lt_of_lt hrounds) hinit) hrun
    intro n session call session' stored hlt hrep hstep
    exact hrep.step halloc hP hP' (hlt.trans hrounds) hstep
  refine ⟨fun p id block => hrep.stored_ok hP' hrounds, fun env pBlock new heap' hwrite => ?_,
    fun heap' hread => ?_⟩
  · exact (hrep.writeNewBuffer halloc hP hP' hrounds hwrite).1
  · obtain ⟨catalog, hready, ht⟩ := hrep.ready halloc hrounds hread
    exact ⟨catalog, ht, hready.catalogued.holds, hready.catalogued.cache.entries,
      hready.catalogued.flushed⟩

end Calls

end Heap

end Catalog

/-! A page source that gives the first page that is not in use, and pages of 64 bytes. -/

def firstFree (source : Unit) (file : HeapFile) : Except HeapError (ℕ × Unit) :=
  match (List.range 100).find? fun id => (file id).isNone with
  | some id => .ok (id, source)
  | none => .error .newPage

theorem firstFree_allocates : Allocates firstFree := by
  constructor
  · intro s file id s' hnew
    rw [firstFree] at hnew
    split at hnew
    · next hfind =>
      cases hnew
      have hnone := List.find?_some hfind
      exact Option.isNone_iff_eq_none.mp hnone
    · cases hnew
  · intro s id s' hnew
    cases hnew
    rfl

def byteSum (block : List UInt8) : ℕ := (block.map UInt8.toNat).sum

def zeroMemory (drawn : List ℕ) : Surroundings := ⟨fun _ => 0, drawn⟩

/-- The second object draws the id of the first one. The deletion and a third object are aborted. -/
def abortedCalls : List (HeapCall Unit) :=
  [.write (zeroMemory [0, 7]) [1, 2, 3] (1, 7), .write (zeroMemory [7, 9]) [4] (1, 9), .commit,
    .delete (1, 7), .write (zeroMemory [8]) [5, 6] (1, 8), .flushCaches, .abort ()]

theorem heap_stores_blocks_aborted : ∃ heap session,
    CVarObjHeap.init firstFree 8 (fun _ => none) () = .ok heap ∧
      abortedCalls.foldlM (Session.step firstFree byteSum 64 8) ⟨heap, fun _ => none⟩ = .ok session ∧
      ∃ heap', session.heap.readBuffer firstFree byteSum 64 8 1 7 = .ok ([1, 2, 3], heap') := by
  obtain ⟨heap, hinit⟩ : ∃ heap, CVarObjHeap.init firstFree 8 (fun _ => none) () = .ok heap :=
    ⟨_, rfl⟩
  obtain ⟨session, hrun⟩ : ∃ session, CVarObjHeap.init firstFree 8 (fun _ => none) () >>=
      (fun heap => abortedCalls.foldlM (Session.step firstFree byteSum 64 8) ⟨heap, fun _ => none⟩) =
        .ok session := ⟨_, rfl⟩
  rw [hinit] at hrun
  obtain ⟨hstored, -⟩ :=
    heap_stores_blocks firstFree_allocates (by decide) (by decide) (by decide) hinit hrun rfl
  exact ⟨heap, session, hinit, hrun, (hstored 1 7 [1, 2, 3] (by decide)).1⟩

end NtAdmin.Wmi.VarObjHeap
