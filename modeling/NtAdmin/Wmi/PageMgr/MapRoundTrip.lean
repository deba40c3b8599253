import NtAdmin.Wmi.PageMgr.MapFile
import NtAdmin.Wmi.PageMgr.Rollback

/-! Two page files write their maps behind each other into one file and read them back. -/
namespace NtAdmin.Wmi.PageMgr

open NtAdmin.Lib

theorem mem_invalidIndexes {l : List ℕ} {i j : ℕ} :
    j ∈ invalidIndexes l i ↔ i ≤ j ∧ l[j - i]? = some invalidPage := by
  induction l generalizing i with
  | nil => simp [invalidIndexes]
  | cons e l ih =>
    have hmem : j ∈ invalidIndexes (e :: l) i ↔
        j = i ∧ e = invalidPage ∨ j ∈ invalidIndexes l (i + 1) := by
      rw [invalidIndexes]
      split_ifs with he
      · simp [he]
      · simp [he]
    rw [hmem, ih]
    rcases Nat.lt_trichotomy j i with hlt | rfl | hlt
    · omega
    · simp
    · obtain ⟨k, rfl⟩ := Nat.exists_eq_add_of_lt hlt
      have hsub : i + k + 1 - i = k + 1 := by omega
      have hsub' : i + k + 1 - (i + 1) = k := by omega
      rw [hsub, hsub', List.getElem?_cons_succ]
      constructor
      · rintro (⟨hj, -⟩ | ⟨-, hget⟩)
        · omega
        · exact ⟨by omega, hget⟩
      · rintro ⟨-, hget⟩
        exact Or.inr ⟨by omega, hget⟩

theorem nodup_invalidIndexes (l : List ℕ) (i : ℕ) : (invalidIndexes l i).Nodup := by
  induction l generalizing i with
  | nil => exact List.nodup_nil
  | cons e l ih =>
    rw [invalidIndexes]
    split_ifs
    · refine List.nodup_cons.2 ⟨fun hmem => ?_, ih (i + 1)⟩
      have := (mem_invalidIndexes.1 hmem).1
      omega
    · exact ih (i + 1)

/-- Every number of the record fits in its DWORD. -/
def MapRecord.IsDwords (r : MapRecord) : Prop := ∀ x ∈ r.dwords, x < 2 ^ 32

namespace CPageSource
variable {ps : ℕ}

/-- The map writes of a checkpoint. -/
def writeMaps (hFile : FileName) : Op (CPageSource ps) ℕ := do
  let pos ← onObjPF (CPageFile.writeMap hFile 0)
  onBTreePF (CPageFile.writeMap hFile pos)

/-- The map reads of `Startup`. -/
def readMaps (hFile : FileName) : Op (CPageSource ps) ℕ := do
  let pos ← onObjPF (CPageFile.readMap hFile 0)
  onBTreePF (CPageFile.readMap hFile pos)

/-- The page source before `Startup` reads the maps. -/
def started (ps cacheSize cacheSpillRatio : ℕ) : CPageSource ps where
  objPF := .init .objectsData cacheSize cacheSpillRatio
  bTreePF := .init .indexBtr cacheSize cacheSpillRatio
  status := none

/-- The record of the object store. -/
def objRecord (s : CPageSource ps) : MapRecord := s.objPF.mapRecord

def bTreeRecord (s : CPageSource ps) : MapRecord := s.bTreePF.mapRecord

/-- The map file after both maps are written over `old`. -/
def mapFile (s : CPageSource ps) (old : List UInt8) : List UInt8 :=
  s.objPF.mapBytes ++ (s.bTreePF.mapBytes ++
    old.drop (s.objPF.mapBytes.length + s.bTreePF.mapBytes.length))

theorem length_mapBytes (s : CPageFile ps) : s.mapBytes.length = 4 * s.mapRecord.size := by
  have hflat (l : List ℕ) : (l.flatMap dwordBytes).length = 4 * l.length := by
    induction l with
    | nil => rfl
    | cons x l ih =>
      rw [List.flatMap_cons, List.length_append, ih, List.length_cons]
      simp only [dwordBytes, List.length_cons, List.length_nil]
      omega
  rw [← MapRecord.length_dwords, ← hflat]
  rfl

theorem writeAt_zero (f bs : List UInt8) (h : bs ≠ []) :
    writeAt 0 f 0 bs = bs ++ f.drop bs.length := by
  rw [writeAt, if_neg h]
  simp

theorem mapBytes_ne_nil (s : CPageFile ps) : s.mapBytes ≠ [] := by
  intro h
  have hlength := length_mapBytes s
  rw [h, MapRecord.size, List.length_nil] at hlength
  omega

theorem writeMap_calm (w : World (CPageFile ps)) (hcalm : w.os.Calm) (hFile : FileName)
    (pos : ℕ) : CPageFile.writeMap hFile pos w =
      (.ok (pos + w.obj.mapBytes.length), ⟨w.obj, w.os.write hFile pos w.obj.mapBytes⟩) := by
  have hmemory : (newMemory : Op (CPageFile ps) Unit) w = (.ok (), w) := by
    rw [newMemory, hcalm.1]
  have hwrite : fileWrite hFile pos w.obj.mapBytes w =
      (.ok (), ⟨w.obj, w.os.write hFile pos w.obj.mapBytes⟩) := by
    rw [fileWrite, hcalm.2]
  rw [CPageFile.writeMap, Prog.bind_of_ok hmemory,
    Prog.bind_of_ok (show getObj w = (.ok w.obj, w) from rfl), Prog.bind_of_ok hwrite]
  rfl

/-- Without failures, both maps are written. -/
theorem writeMaps_calm (w : World (CPageSource ps)) (hcalm : w.os.Calm) (hFile : FileName) :
    (writeMaps hFile).result w =
        .ok (w.obj.objPF.mapBytes.length + w.obj.bTreePF.mapBytes.length) ∧
      ((writeMaps hFile).after w).os.Calm ∧
      ((writeMaps hFile).after w).os.disk =
        Function.update w.os.disk hFile (w.obj.mapFile (w.os.disk hFile)) := by
  obtain ⟨o, ho⟩ : ∃ o, o = w.os.write hFile 0 w.obj.objPF.mapBytes := ⟨_, rfl⟩
  have hcalm' : o.Calm := by
    rw [ho]
    exact hcalm
  have hobj : onObjPF (CPageFile.writeMap hFile 0) w =
      (.ok w.obj.objPF.mapBytes.length, ⟨w.obj, o⟩) := by
    have h := writeMap_calm ⟨w.obj.objPF, w.os⟩ hcalm hFile 0
    rw [Nat.zero_add, ← ho] at h
    have hget : (World.part objPFL).get w = ⟨w.obj.objPF, w.os⟩ := rfl
    simp only [onObjPF, Prog.zoom, hget, h]
    rfl
  have hbTree : onBTreePF (CPageFile.writeMap hFile w.obj.objPF.mapBytes.length) ⟨w.obj, o⟩ =
      (.ok (w.obj.objPF.mapBytes.length + w.obj.bTreePF.mapBytes.length),
        ⟨w.obj, o.write hFile w.obj.objPF.mapBytes.length w.obj.bTreePF.mapBytes⟩) := by
    have h := writeMap_calm ⟨w.obj.bTreePF, o⟩ hcalm' hFile w.obj.objPF.mapBytes.length
    have hget : (World.part bTreePFL).get ⟨w.obj, o⟩ = ⟨w.obj.bTreePF, o⟩ := rfl
    simp only [onBTreePF, Prog.zoom, hget, h]
    rfl
  have hrun : writeMaps hFile w =
      (.ok (w.obj.objPF.mapBytes.length + w.obj.bTreePF.mapBytes.length),
        ⟨w.obj, o.write hFile w.obj.objPF.mapBytes.length w.obj.bTreePF.mapBytes⟩) := by
    rw [writeMaps, Prog.bind_of_ok hobj, hbTree]
  have hfile : writeAt 0 (w.obj.objPF.mapBytes ++
      (w.os.disk hFile).drop w.obj.objPF.mapBytes.length) w.obj.objPF.mapBytes.length
        w.obj.bTreePF.mapBytes = w.obj.mapFile (w.os.disk hFile) := by
    have hgap : w.obj.objPF.mapBytes.length - (w.obj.objPF.mapBytes ++
        (w.os.disk hFile).drop w.obj.objPF.mapBytes.length).length = 0 := by
      rw [List.length_append]
      omega
    rw [writeAt, if_neg (mapBytes_ne_nil _), hgap, List.replicate_zero, List.append_nil,
      List.take_left, List.append_assoc, mapFile, List.drop_append, List.drop_of_length_le (by omega),
      List.nil_append, List.drop_drop, Nat.add_sub_cancel_left]
  rw [Prog.result, Prog.after, hrun]
  refine ⟨rfl, hcalm', ?_⟩
  rw [ho]
  simp only [Os.write, Disk.write, Function.update_self, Function.update_idem]
  rw [writeAt_zero _ _ (mapBytes_ne_nil _), hfile]

/-- The DWORDs of the map file from the object store's record on. -/
def objDwords (w : World (CPageSource ps)) (hFile : FileName) : List ℕ :=
  dwordsOf (w.os.disk hFile)

/-- Those behind the object store's record. -/
def bTreeDwords (w : World (CPageSource ps)) (hFile : FileName) : List ℕ :=
  dwordsOf ((w.os.disk hFile).drop (4 * recordSize (objDwords w hFile)))

/-- The page of the object store that `ReadMap` tries is there, and that of the B-tree store. -/
def HighestReadable (w : World (CPageSource ps)) (objMap bTreeMap : List ℕ) : Prop :=
  CPageFile.HighestReadable ⟨w.obj.objPF, w.os⟩ objMap ∧
    CPageFile.HighestReadable ⟨w.obj.bTreePF, w.os⟩ bTreeMap

/-- `ReadMap` of both stores accepts two records behind each other. -/
theorem readMaps_spec (w : World (CPageSource ps)) (hFile : FileName) :
    (readMaps hFile).wp
      (fun _ w' => (RecordFirst (objDwords w hFile) ∧ RecordFirst (bTreeDwords w hFile)) ∧
        HighestReadable w (recordOf (objDwords w hFile)).pageMap
          (recordOf (bTreeDwords w hFile)).pageMap ∧
        w'.obj.objPF.maps =
          CPageFile.loadMaps w.obj.objPF.maps (recordOf (objDwords w hFile)) ∧
        w'.obj.objPF.transVersion = (recordOf (objDwords w hFile)).transVersion ∧
        w'.obj.bTreePF.maps =
          CPageFile.loadMaps w.obj.bTreePF.maps (recordOf (bTreeDwords w hFile)) ∧
        w'.obj.bTreePF.transVersion = (recordOf (bTreeDwords w hFile)).transVersion)
      (fun _ _ => w.os.Calm → RecordFirst (objDwords w hFile) →
        RecordFirst (bTreeDwords w hFile) →
        ¬HighestReadable w (recordOf (objDwords w hFile)).pageMap
          (recordOf (bTreeDwords w hFile)).pageMap) w := by
  simp only [readMaps, onObjPF, onBTreePF, Prog.wp_bind, Prog.wp_zoom]
  have hfirst := CPageFile.readMap_spec ⟨w.obj.objPF, w.os⟩ hFile 0
  rw [show CPageFile.behind ⟨w.obj.objPF, w.os⟩ hFile 0 = objDwords w hFile by
    rw [CPageFile.behind, List.drop_zero, objDwords]] at hfirst
  refine Prog.wp_mono hfirst ?_ ?_
  swap
  · intro _ _ hnot hcalm hobj _ hreadable
    exact hnot hcalm hobj hreadable.1
  rintro _ objAfter ⟨hobj, rfl, hobjRead, hobjReadable⟩
  have hbehind : CPageFile.behind ⟨w.obj.bTreePF, objAfter.os⟩ hFile
      (0 + 4 * recordSize (objDwords w hFile)) = bTreeDwords w hFile := by
    rw [CPageFile.behind, Nat.zero_add, hobjRead.disk, bTreeDwords]
  have hreadable (l : List ℕ) : CPageFile.HighestReadable ⟨w.obj.bTreePF, objAfter.os⟩ l ↔
      CPageFile.HighestReadable ⟨w.obj.bTreePF, w.os⟩ l := by
    rw [CPageFile.HighestReadable, CPageFile.HighestReadable, hobjRead.disk]
  have hsecond := CPageFile.readMap_spec ⟨w.obj.bTreePF, objAfter.os⟩ hFile
    (0 + 4 * recordSize (objDwords w hFile))
  rw [hbehind, hreadable] at hsecond
  refine Prog.wp_mono hsecond ?_ ?_
  · rintro _ bTreeAfter ⟨hbTree, -, hbTreeRead, hbTreeReadable⟩
    exact ⟨⟨hobj, hbTree⟩, ⟨hobjReadable, hbTreeReadable⟩, hobjRead.maps, hobjRead.version,
      hbTreeRead.maps, hbTreeRead.version⟩
  · intro _ _ hnot hcalm _ hbTree hboth
    exact hnot (hobjRead.calm hcalm) hbTree hboth.2

/-! ### The round trip -/

/-- What a page file reads of the map of `s`. -/
structure ReadBack (s s' : CPageFile ps) : Prop where
  pageMap : s'.pageMapA.data = s.pageMapA.data
  physFree : s'.physFreeListA.data = s.physFreeListA.data
  physPages : s'.physPagesA = s.physPagesA
  version : s'.transVersion = s.transVersion
  logicalFree : ∀ i, i ∈ s'.logicalFreeListA.data ↔ s.pageMapA.data[i]? = some invalidPage
  nodup : s'.logicalFreeListA.data.Nodup
  current : s'.maps.b = s'.maps.a

/-- Both maps are written, and read by a page source that starts up. -/
def RoundTrip (w : World (CPageSource ps)) (hFile : FileName) (cacheSize cacheSpillRatio : ℕ) :
    Prop :=
  ∃ pos w', readMaps hFile
      ⟨started ps cacheSize cacheSpillRatio, ((writeMaps hFile).after w).os⟩ = (.ok pos, w') ∧
    ReadBack w.obj.objPF w'.obj.objPF ∧ ReadBack w.obj.bTreePF w'.obj.bTreePF

/-- No page source accepts a file that is cut off within the maps. -/
def RejectsTruncated (w : World (CPageSource ps)) (hFile : FileName) : Prop :=
  ∀ k < w.obj.objPF.mapBytes.length + w.obj.bTreePF.mapBytes.length,
    ∀ w' : World (CPageSource ps),
      w'.os.disk hFile = (((writeMaps hFile).after w).os.disk hFile).take k →
      ∀ pos, (readMaps hFile).result w' ≠ .ok pos

/-- The data file holds the page of the highest entry, unless that is page 0. -/
def HighestStored (s : CPageFile ps) (dataFile : List UInt8) : Prop :=
  highestPage s.pageMapA.data ≠ 0 →
    pageAt ps dataFile (highestPage s.pageMapA.data) ≠ none

theorem readBack_of_loadMaps {s s' t : CPageFile ps} (ht : t.maps.a.logicalFree = [])
    (hmaps : s'.maps = CPageFile.loadMaps t.maps s.mapRecord)
    (hversion : s'.transVersion = s.mapRecord.transVersion) : ReadBack s s' := by
  have hlogical : s'.logicalFreeListA.data = invalidIndexes s.pageMapA.data 0 := by
    have h : s'.logicalFreeListA.data =
        t.maps.a.logicalFree ++ invalidIndexes s.pageMapA.data 0 :=
      congrArg (·.a.logicalFree) hmaps
    rwa [ht, List.nil_append] at h
  constructor
  · exact congrArg (·.a.pageMap) hmaps
  · exact congrArg (·.a.physFree) hmaps
  · exact congrArg (·.a.physPages) hmaps
  · exact hversion
  · intro i
    rw [hlogical, mem_invalidIndexes, Nat.sub_zero]
    exact ⟨fun h => h.2, fun h => ⟨Nat.zero_le i, h⟩⟩
  · rw [hlogical]
    exact nodup_invalidIndexes _ 0
  · rw [hmaps]
    rfl

section written
variable {s : CPageSource ps} (hobj : s.objRecord.IsDwords) (hbTree : s.bTreeRecord.IsDwords)
  (old : List UInt8)

include hobj in
theorem dwordsOf_mapFile : dwordsOf (s.mapFile old) = s.objRecord.dwords ++
    dwordsOf (s.bTreePF.mapBytes ++
      old.drop (s.objPF.mapBytes.length + s.bTreePF.mapBytes.length)) := by
  rw [mapFile]
  exact dwordsOf_append hobj _

include hbTree in
theorem dwordsOf_drop_mapFile : dwordsOf ((s.mapFile old).drop (4 * s.objRecord.size)) =
    s.bTreeRecord.dwords ++
      dwordsOf (old.drop (s.objPF.mapBytes.length + s.bTreePF.mapBytes.length)) := by
  have hlength : 4 * s.objRecord.size = s.objPF.mapBytes.length := (length_mapBytes _).symm
  rw [hlength, mapFile, List.drop_left]
  exact dwordsOf_append hbTree _

end written

/-- A file that is cut off in one of the maps is an error, whatever else fails. -/
theorem rejects_truncated (w : World (CPageSource ps)) (hcalm : w.os.Calm)
    (hobj : w.obj.objRecord.IsDwords) (hbTree : w.obj.bTreeRecord.IsDwords) (hFile : FileName) :
    RejectsTruncated w hFile := by
  intro k hk w' hfile pos hresult
  obtain ⟨-, -, hdisk⟩ := writeMaps_calm w hcalm hFile
  rw [hdisk, Function.update_self] at hfile
  obtain ⟨⟨hfirst, hsecond⟩, -⟩ := (Prog.wp_result.mp (readMaps_spec w' hFile)).1 pos hresult
  have hobjDwords : objDwords w' hFile =
      (dwordsOf (w.obj.mapFile (w.os.disk hFile))).take (k / 4) := by
    rw [objDwords, hfile, dwordsOf_take]
  rw [hobjDwords] at hfirst
  obtain ⟨hsize, -, hobjFits⟩ := hfirst.of_take
  have hobjSize := (recordOf_dwords w.obj.objRecord (dwordsOf (w.obj.bTreePF.mapBytes ++
    (w.os.disk hFile).drop
      (w.obj.objPF.mapBytes.length + w.obj.bTreePF.mapBytes.length)))).2.1
  rw [← dwordsOf_mapFile hobj] at hobjSize
  have hbTreeDwords : bTreeDwords w' hFile =
      (dwordsOf ((w.obj.mapFile (w.os.disk hFile)).drop (4 * w.obj.objRecord.size))).take
        ((k - 4 * w.obj.objRecord.size) / 4) := by
    rw [bTreeDwords, hobjDwords, hsize, hobjSize, hfile, List.drop_take, dwordsOf_take]
  rw [hbTreeDwords] at hsecond
  obtain ⟨-, -, hbTreeFits⟩ := hsecond.of_take
  have hbTreeSize := (recordOf_dwords w.obj.bTreeRecord (dwordsOf ((w.os.disk hFile).drop
    (w.obj.objPF.mapBytes.length + w.obj.bTreePF.mapBytes.length)))).2.1
  rw [← dwordsOf_drop_mapFile hbTree] at hbTreeSize
  rw [hobjSize] at hobjFits
  rw [hbTreeSize] at hbTreeFits
  have hobjLength : w.obj.objPF.mapBytes.length = 4 * w.obj.objRecord.size := length_mapBytes _
  have hbTreeLength : w.obj.bTreePF.mapBytes.length = 4 * w.obj.bTreeRecord.size :=
    length_mapBytes _
  omega

/-- Exactly when the maps of two page files survive a restart. -/
theorem mapFile_iff (w : World (CPageSource ps)) (hcalm : w.os.Calm)
    (hobj : w.obj.objRecord.IsDwords) (hbTree : w.obj.bTreeRecord.IsDwords) (hFile : FileName)
    (hdata : hFile ≠ .objectsData) (hindex : hFile ≠ .indexBtr)
    (cacheSize cacheSpillRatio : ℕ) :
    RoundTrip w hFile cacheSize cacheSpillRatio ∧ RejectsTruncated w hFile ↔
      HighestStored w.obj.objPF (w.os.disk .objectsData) ∧
        HighestStored w.obj.bTreePF (w.os.disk .indexBtr) := by
  obtain ⟨-, hcalm', hdisk⟩ := writeMaps_calm w hcalm hFile
  have hfile : ((writeMaps hFile).after w).os.disk hFile = w.obj.mapFile (w.os.disk hFile) := by
    rw [hdisk, Function.update_self]
  obtain ⟨w₀, hw₀⟩ : ∃ w₀ : World (CPageSource ps), w₀ =
      ⟨started ps cacheSize cacheSpillRatio, ((writeMaps hFile).after w).os⟩ := ⟨_, rfl⟩
  have hfirst := recordOf_dwords w.obj.objRecord (dwordsOf (w.obj.bTreePF.mapBytes ++
    (w.os.disk hFile).drop (w.obj.objPF.mapBytes.length + w.obj.bTreePF.mapBytes.length)))
  rw [← dwordsOf_mapFile hobj] at hfirst
  obtain ⟨hobjRecord, hobjSize, hobjFirst⟩ := hfirst
  have hsecond := recordOf_dwords w.obj.bTreeRecord (dwordsOf
    ((w.os.disk hFile).drop (w.obj.objPF.mapBytes.length + w.obj.bTreePF.mapBytes.length)))
  rw [← dwordsOf_drop_mapFile hbTree] at hsecond
  obtain ⟨hbTreeRecord, hbTreeSize, hbTreeFirst⟩ := hsecond
  have hobjDwords : objDwords w₀ hFile = dwordsOf (w.obj.mapFile (w.os.disk hFile)) := by
    rw [objDwords, hw₀, hfile]
  have hbTreeDwords : bTreeDwords w₀ hFile =
      dwordsOf ((w.obj.mapFile (w.os.disk hFile)).drop (4 * w.obj.objRecord.size)) := by
    rw [bTreeDwords, hobjDwords, hobjSize, hw₀, hfile]
  have hreadable : HighestReadable w₀ w.obj.objPF.pageMapA.data w.obj.bTreePF.pageMapA.data ↔
      HighestStored w.obj.objPF (w.os.disk .objectsData) ∧
        HighestStored w.obj.bTreePF (w.os.disk .indexBtr) := by
    have hobjDisk : ((writeMaps hFile).after w).os.disk .objectsData = w.os.disk .objectsData := by
      rw [hdisk, Function.update_of_ne hdata.symm]
    have hbTreeDisk : ((writeMaps hFile).after w).os.disk .indexBtr = w.os.disk .indexBtr := by
      rw [hdisk, Function.update_of_ne hindex.symm]
    rw [HighestStored, HighestStored, ← hobjDisk, ← hbTreeDisk, hw₀]
    exact Iff.rfl
  obtain ⟨hok, herr⟩ := Prog.wp_result.mp (readMaps_spec w₀ hFile)
  rw [hobjDwords, hbTreeDwords, hobjRecord, hbTreeRecord] at hok herr
  constructor
  · rintro ⟨⟨pos, w', hrun, -, -⟩, -⟩
    rw [← hw₀] at hrun
    have hresult : (readMaps hFile).result w₀ = .ok pos := by rw [Prog.result, hrun]
    exact hreadable.1 (hok pos hresult).2.1
  · intro hstored
    refine ⟨?_, rejects_truncated w hcalm hobj hbTree hFile⟩
    have hcalm₀ : w₀.os.Calm := by
      rw [hw₀]
      exact hcalm'
    rcases hresult : (readMaps hFile).result w₀ with e | pos
    · exact absurd (hreadable.2 hstored) (herr e hresult hcalm₀ hobjFirst hbTreeFirst)
    obtain ⟨-, -, hobjMaps, hobjVersion, hbTreeMaps, hbTreeVersion⟩ := hok pos hresult
    refine ⟨pos, (readMaps hFile).after w₀, ?_, ?_, ?_⟩
    · rw [← hw₀, ← hresult]
      rfl
    · refine readBack_of_loadMaps ?_ hobjMaps hobjVersion
      rw [hw₀]
      rfl
    · refine readBack_of_loadMaps ?_ hbTreeMaps hbTreeVersion
      rw [hw₀]
      rfl

/-- A new repository whose object store has run the calls `cs` and a checkpoint. -/
def checkpointed (cs : List (PageFileCmd ps)) : World (CPageSource ps) :=
  let w := runAll PageFileCmd.step (cs ++ [.transCheckpoint .mapping1 0]) (freshFile ps)
  ⟨⟨w.obj, .init .indexBtr 64 4, none⟩, w.os⟩

/-- Two pages are written and one of them is freed. -/
theorem mapFile_iff_freed :
    let w : World (CPageSource 1) := checkpointed [.transBegin, .newPage 2, .putPage 0 ⟨[7], rfl⟩,
      .putPage 1 ⟨[8], rfl⟩, .transCommit, .transBegin, .freePage 0, .transCommit]
    RoundTrip w .mapping1 64 4 ∧ RejectsTruncated w .mapping1 := by
  intro w
  have hobj : w.obj.objRecord.IsDwords := by
    rw [MapRecord.IsDwords]
    decide +kernel
  have hbTree : w.obj.bTreeRecord.IsDwords := by
    rw [MapRecord.IsDwords]
    decide +kernel
  have hobjStored : HighestStored w.obj.objPF (w.os.disk .objectsData) := by
    unfold HighestStored
    decide +kernel
  have hbTreeStored : HighestStored w.obj.bTreePF (w.os.disk .indexBtr) := by
    unfold HighestStored
    decide +kernel
  exact (mapFile_iff w ⟨rfl, rfl⟩ hobj hbTree .mapping1 (by decide) (by decide) 64 4).mpr
    ⟨hobjStored, hbTreeStored⟩

/-- A new page is committed that was not written: its entry stays, as a physical page far behind the
end of the data file, for which the map is rejected. -/
theorem not_roundTrip_reserved :
    ¬∀ cs : List (PageFileCmd wmirepPageSize), RoundTrip (checkpointed cs) .mapping1 64 4 := by
  intro hclaim
  obtain ⟨pos, w', hrun, -⟩ := hclaim [.transBegin, .newPage 1, .transCommit]
  have hresult := congrArg Prod.fst hrun
  exact nomatch hresult

end CPageSource
end NtAdmin.Wmi.PageMgr
