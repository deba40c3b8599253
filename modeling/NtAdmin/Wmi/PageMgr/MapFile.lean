import NtAdmin.Wmi.PageMgr.PageFileSpec
import NtAdmin.Wmi.PageMgr.PageSource
import Mathlib.Data.List.Range

/-! Reading back a map file: `ReadMap` of pagemgr.cpp. -/
namespace NtAdmin.Wmi.PageMgr

open NtAdmin.Lib

/-- The DWORDs of a file; up to three bytes behind the last one are left out. -/
def dwordsOf : List UInt8 → List ℕ
  | a :: b :: c :: d :: rest =>
    (a.toNat + 2 ^ 8 * b.toNat + 2 ^ 16 * c.toNat + 2 ^ 24 * d.toNat) :: dwordsOf rest
  | _ => []

/-- What is written of a page file. -/
structure MapRecord where
  transVersion : ℕ
  physPages : ℕ
  pageMap : List ℕ
  physFree : List ℕ

def MapRecord.dwords (r : MapRecord) : List ℕ :=
  [mapLeadingSignature, r.transVersion, r.physPages, r.pageMap.length] ++ r.pageMap ++
    [r.physFree.length] ++ r.physFree ++ [mapTrailingSignature]

/-- The highest entry that is not invalid, as `ValidateMapFile` finds it. -/
def highestPage (pageMap : List ℕ) : ℕ :=
  pageMap.foldl (fun physicalPageId e =>
    if e ≠ invalidPage ∧ physicalPageId < e then e else physicalPageId) 0

/-- The indexes from `i` on whose entries are invalid. -/
def invalidIndexes : List ℕ → ℕ → List ℕ
  | [], _ => []
  | e :: rest, i =>
    if e = invalidPage then i :: invalidIndexes rest (i + 1) else invalidIndexes rest (i + 1)

namespace CPageFile
variable {ps : ℕ}

/-- A read that comes short is an error everywhere in `ReadMap`. -/
def readDwords (hFile : FileName) (pos n : ℕ) : Op (CPageFile ps) (List ℕ) := do
  match ← fileRead hFile pos (4 * n) with
  | some bs => return dwordsOf bs
  | none => throw .internalDbCorruption

def readDword (hFile : FileName) (pos : ℕ) : Op (CPageFile ps) ℕ := do
  return (← readDwords hFile pos 1).headD 0

/-- A vector is given its size before its elements are read. -/
def readVector (l : Lens (CPageFile ps) (Vec ℕ)) (hFile : FileName) (pos n : ℕ) :
    Op (CPageFile ps) Unit := do
  assign l (((l.get (← getObj)).data ++ List.replicate n 0).take n)
  let xs ← readDwords hFile pos n
  modifyObj fun s => l.set ((l.get s).withData xs) s

def validateMapFile : Op (CPageFile ps) Unit := do
  let physicalPageId := highestPage (← getObj).pageMapA.data
  if physicalPageId ≠ 0 then
    tryCatch (do let _ ← onCache (CPageCache.readPhysPage physicalPageId)) fun e =>
      throw (if e = .outOfMemory then e else .internalDbCorruption)

def initFreeListFrom : List ℕ → ℕ → Op (CPageFile ps) Unit
  | [], _ => pure ()
  | e :: rest, i => do
    if e = invalidPage then pushBack logicalFreeListAL i
    initFreeListFrom rest (i + 1)

def initFreeList : Op (CPageFile ps) Unit := do
  initFreeListFrom (← getObj).pageMapA.data 0

/-- The end of `ReadMap`. The vectors are not cleared if it fails, as `empty` only asks. -/
def finishMap : Op (CPageFile ps) Unit :=
  tryCatch (do
    validateMapFile
    initFreeList
    resyncMaps) fun e => do
    modifyObj fun s => { s with physPagesA := 0, physPagesB := 0 }
    throw e

/-- Read the map where the file pointer stands, and return where it stands then. -/
def readMap (hFile : FileName) (pos : ℕ) : Op (CPageFile ps) ℕ := do
  let signature ← readDword hFile pos
  if signature ≠ mapLeadingSignature then throw .internalDbCorruption
  let transVersion ← readDword hFile (pos + 4 * 1)
  modifyObj fun s => { s with transVersion := transVersion }
  let physPages ← readDword hFile (pos + 4 * 2)
  modifyObj fun s => { s with physPagesA := physPages }
  let numPages ← readDword hFile (pos + 4 * 3)
  readVector pageMapAL hFile (pos + 4 * 4) numPages
  let freeListSize ← readDword hFile (pos + 4 * (4 + numPages))
  readVector physFreeListAL hFile (pos + 4 * (5 + numPages)) freeListSize
  let signature ← readDword hFile (pos + 4 * (5 + numPages + freeListSize))
  if signature ≠ mapTrailingSignature then throw .internalDbCorruption
  finishMap
  return pos + 4 * (6 + numPages + freeListSize)

def mapRecord (s : CPageFile ps) : MapRecord :=
  ⟨s.transVersion, s.physPagesA, s.pageMapA.data, s.physFreeListA.data⟩

end CPageFile

/-! ### The DWORDs of a file -/

theorem dwordsOf_append {l : List ℕ} (h : ∀ x ∈ l, x < 2 ^ 32) (bs : List UInt8) :
    dwordsOf (l.flatMap dwordBytes ++ bs) = l ++ dwordsOf bs := by
  induction l with
  | nil => rfl
  | cons x l ih =>
    have hx := h x List.mem_cons_self
    have hbytes : (x :: l).flatMap dwordBytes ++ bs =
        .ofNat x :: .ofNat (x / 2 ^ 8) :: .ofNat (x / 2 ^ 16) :: .ofNat (x / 2 ^ 24) ::
          (l.flatMap dwordBytes ++ bs) := rfl
    rw [hbytes, dwordsOf, ih fun y hy => h y (List.mem_cons_of_mem x hy), List.cons_append]
    congr 1
    simp only [UInt8.toNat_ofNat']
    omega

theorem length_dwordsOf (bs : List UInt8) : (dwordsOf bs).length = bs.length / 4 := by
  induction bs using dwordsOf.induct with
  | case1 a b c d rest ih =>
    rw [dwordsOf, List.length_cons, ih]
    simp only [List.length_cons]
    omega
  | case2 bs h =>
    have hshort : bs.length < 4 := by
      match bs, h with
      | [], _ => decide
      | [_], _ => simp
      | [_, _], _ => simp
      | [_, _, _], _ => simp
      | a :: b :: c :: d :: rest, h => exact (h a b c d rest rfl).elim
    rw [dwordsOf.eq_2 bs h, List.length_nil]
    omega

theorem dwordsOf_drop (k : ℕ) (bs : List UInt8) :
    dwordsOf (bs.drop (4 * k)) = (dwordsOf bs).drop k := by
  induction k generalizing bs with
  | zero => rfl
  | succ k ih =>
    match bs with
    | a :: b :: c :: d :: rest =>
      rw [dwordsOf, List.drop_succ_cons, ← ih]
      rfl
    | [] => simp [dwordsOf]
    | [_] => simp [dwordsOf, Nat.mul_add]
    | [_, _] => simp [dwordsOf, Nat.mul_add]
    | [_, _, _] => simp [dwordsOf, Nat.mul_add]

theorem dwordsOf_take (j : ℕ) (bs : List UInt8) :
    dwordsOf (bs.take j) = (dwordsOf bs).take (j / 4) := by
  have hshort (bs : List UInt8) (h : bs.length < 4) : dwordsOf bs = [] := by
    refine List.eq_nil_of_length_eq_zero ?_
    rw [length_dwordsOf]
    omega
  induction bs using dwordsOf.induct generalizing j with
  | case1 a b c d rest ih =>
    by_cases hj : j < 4
    · rw [hshort _ (by rw [List.length_take]; omega), Nat.div_eq_of_lt hj, List.take_zero]
    · obtain ⟨j, rfl⟩ : ∃ j', j = j' + 4 := ⟨j - 4, by omega⟩
      have hdiv : (j + 4) / 4 = j / 4 + 1 := by omega
      have htake : (a :: b :: c :: d :: rest).take (j + 4) = a :: b :: c :: d :: rest.take j := rfl
      rw [htake, hdiv, dwordsOf, dwordsOf, List.take_succ_cons, ih]
  | case2 bs h =>
    have hlen := length_dwordsOf bs
    rw [dwordsOf.eq_2 bs h, List.length_nil] at hlen
    rw [dwordsOf.eq_2 bs h, hshort _ (by rw [List.length_take]; omega), List.take_nil]

/-! ### Records -/

/-- The number of DWORDs of a record. -/
def MapRecord.size (r : MapRecord) : ℕ := 6 + r.pageMap.length + r.physFree.length

/-- The record at the front of a list of DWORDs, as the counts in the list delimit it. -/
def recordOf (D : List ℕ) : MapRecord where
  transVersion := D.getD 1 0
  physPages := D.getD 2 0
  pageMap := (D.drop 4).take (D.getD 3 0)
  physFree := (D.drop (5 + D.getD 3 0)).take (D.getD (4 + D.getD 3 0) 0)

/-- The DWORDs that the record takes. -/
def recordSize (D : List ℕ) : ℕ := 6 + D.getD 3 0 + D.getD (4 + D.getD 3 0) 0

/-- A record stands at the front of the list. -/
structure RecordFirst (D : List ℕ) : Prop where
  leading : D.getD 0 0 = mapLeadingSignature
  fits : recordSize D ≤ D.length
  trailing : D.getD (recordSize D - 1) 0 = mapTrailingSignature

theorem MapRecord.length_dwords (r : MapRecord) : r.dwords.length = r.size := by
  simp only [dwords, size, List.length_append, List.length_cons, List.length_nil]
  omega

/-- A record that was written is read. -/
theorem recordOf_dwords (r : MapRecord) (tail : List ℕ) :
    recordOf (r.dwords ++ tail) = r ∧ recordSize (r.dwords ++ tail) = r.size ∧
      RecordFirst (r.dwords ++ tail) := by
  have hlist : r.dwords ++ tail = mapLeadingSignature :: r.transVersion :: r.physPages ::
      r.pageMap.length :: (r.pageMap ++ r.physFree.length ::
        (r.physFree ++ mapTrailingSignature :: tail)) := by
    simp [MapRecord.dwords]
  have hpages : (r.dwords ++ tail).getD 3 0 = r.pageMap.length := by rw [hlist]; rfl
  have hfree : (r.dwords ++ tail).getD (4 + r.pageMap.length) 0 = r.physFree.length := by
    rw [hlist, Nat.add_comm]
    simp
  have hsize : recordSize (r.dwords ++ tail) = r.size := by
    rw [recordSize, hpages, hfree, MapRecord.size]
  refine ⟨?_, hsize, ⟨?_, ?_, ?_⟩⟩
  · have hmap : (r.dwords ++ tail).drop 4 = r.pageMap ++ r.physFree.length ::
        (r.physFree ++ mapTrailingSignature :: tail) := by rw [hlist]; rfl
    have hfrees : (r.dwords ++ tail).drop (5 + r.pageMap.length) =
        r.physFree ++ mapTrailingSignature :: tail := by
      have hsplit : 5 + r.pageMap.length = 4 + (r.pageMap.length + 1) := by omega
      rw [hsplit, ← List.drop_drop, hmap]
      simp
    rw [recordOf, hpages, hfree, hmap, hfrees, List.take_left, List.take_left, hlist]
    rfl
  · rw [hlist]
    rfl
  · rw [hsize, List.length_append, r.length_dwords]
    omega
  · obtain ⟨front, hfront⟩ : ∃ front, front = [mapLeadingSignature, r.transVersion, r.physPages,
        r.pageMap.length] ++ r.pageMap ++ [r.physFree.length] ++ r.physFree := ⟨_, rfl⟩
    have hlength : r.size - 1 = front.length := by
      simp only [MapRecord.size, hfront, List.length_append, List.length_cons, List.length_nil]
      omega
    have hdwords : r.dwords = front ++ [mapTrailingSignature] := by rw [hfront, MapRecord.dwords]
    rw [hsize, hlength, hdwords, List.append_assoc]
    simp

/-- A record in the front of a list is the record of the list. -/
theorem RecordFirst.of_take {D : List ℕ} {m : ℕ} (h : RecordFirst (D.take m)) :
    recordSize (D.take m) = recordSize D ∧ RecordFirst D ∧ recordSize D ≤ m := by
  have hfits := h.fits
  rw [List.length_take] at hfits
  have hget (i : ℕ) (hi : i < recordSize (D.take m)) : (D.take m).getD i 0 = D.getD i 0 := by
    rw [List.getD_eq_getElem?_getD, List.getD_eq_getElem?_getD, List.getElem?_take,
      if_pos (by omega)]
  have hpages : (D.take m).getD 3 0 = D.getD 3 0 := hget 3 (by rw [recordSize]; omega)
  have hfree : (D.take m).getD (4 + D.getD 3 0) 0 = D.getD (4 + D.getD 3 0) 0 :=
    hget _ (by rw [recordSize, hpages]; omega)
  have hsize : recordSize (D.take m) = recordSize D := by
    rw [recordSize, recordSize, hpages, hfree]
  refine ⟨hsize, ⟨?_, by omega, ?_⟩, by omega⟩
  · rw [← hget 0 (by rw [recordSize]; omega)]
    exact h.leading
  · rw [← hsize, ← hget _ (by rw [recordSize]; omega)]
    exact h.trailing

namespace CPageFile
variable {ps : ℕ} {w w₁ w₂ : World (CPageFile ps)} {m : Maps} {v : ℕ} {hFile : FileName} {pos : ℕ}

/-! ### The reads -/

/-- What the file holds behind the file pointer. -/
def behind (w : World (CPageFile ps)) (hFile : FileName) (pos : ℕ) : List ℕ :=
  dwordsOf ((w.os.disk hFile).drop pos)

/-- A part of the map has been read. -/
structure Reading (w w₁ : World (CPageFile ps)) (m : Maps) (v : ℕ) : Prop where
  maps : w₁.obj.maps = m
  version : w₁.obj.transVersion = v
  cache : w₁.obj.cache = w.obj.cache
  disk : w₁.os.disk = w.os.disk
  calm : w.os.Calm → w₁.os.Calm

theorem Reading.refl (w : World (CPageFile ps)) : Reading w w w.obj.maps w.obj.transVersion :=
  ⟨rfl, rfl, rfl, rfl, id⟩

theorem Reading.became (h : Reading w w₁ m v) {m' : Maps} (h' : Became m' w₁ w₂) :
    Reading w w₂ m' v := by
  obtain ⟨a, -, hos⟩ := h'.os
  refine ⟨h'.maps, h'.version.trans h.version, h'.cache.trans h.cache, ?_, fun hc =>
    h'.calm (h.calm hc)⟩
  rw [hos]
  exact h.disk

theorem wp_readDwords (h : Reading w w₁ m v) {k n : ℕ} (hpos : 0 < k + n)
    {Q : List ℕ → World (CPageFile ps) → Prop} {E : WinError → World (CPageFile ps) → Prop}
    (hok : ∀ w₂, Reading w w₂ m v → k + n ≤ (behind w hFile pos).length →
      Q (((behind w hFile pos).drop k).take n) w₂)
    (herr : ∀ w₂, (w.os.Calm → ¬k + n ≤ (behind w hFile pos).length) →
      E .internalDbCorruption w₂) :
    (readDwords hFile (pos + 4 * k) n).wp Q E w₁ := by
  have hlength : k + n ≤ (behind w hFile pos).length ↔
      pos + 4 * k + 4 * n ≤ (w₁.os.disk hFile).length := by
    rw [behind, length_dwordsOf, List.length_drop, h.disk]
    omega
  have hdwords : dwordsOf (((w₁.os.disk hFile).drop (pos + 4 * k)).take (4 * n)) =
      ((behind w hFile pos).drop k).take n := by
    rw [dwordsOf_take, Nat.mul_div_cancel_left n (by decide), ← List.drop_drop, dwordsOf_drop,
      h.disk, behind]
  have hnext (r : List IoFate) (hr : r <:+ w₁.os.ios) :
      Reading w ⟨w₁.obj, { w₁.os with ios := r }⟩ m v := by
    refine ⟨h.maps, h.version, h.cache, h.disk, fun hc => ⟨(h.calm hc).1, ?_⟩⟩
    rw [(h.calm hc).2] at hr
    exact List.suffix_nil.mp hr
  simp only [readDwords, Prog.wp_bind]
  refine wp_fileRead (fun r hr => ?_) (fun r hne hr => ?_)
  · by_cases hfits : k + n ≤ (behind w hFile pos).length
    · rw [readAt, if_pos (hlength.1 hfits)]
      have hQ := hok _ (hnext r hr) hfits
      rw [← hdwords] at hQ
      exact hQ
    · rw [readAt, if_neg (mt hlength.2 hfits)]
      exact herr _ fun _ => hfits
  · exact herr _ fun hc => absurd (h.calm hc).2 hne

theorem wp_readDword (h : Reading w w₁ m v) {k : ℕ}
    {Q : ℕ → World (CPageFile ps) → Prop} {E : WinError → World (CPageFile ps) → Prop}
    (hok : ∀ w₂, Reading w w₂ m v → k + 1 ≤ (behind w hFile pos).length →
      Q ((behind w hFile pos).getD k 0) w₂)
    (herr : ∀ w₂, (w.os.Calm → ¬k + 1 ≤ (behind w hFile pos).length) →
      E .internalDbCorruption w₂) :
    (readDword hFile (pos + 4 * k)).wp Q E w₁ := by
  simp only [readDword, Prog.wp_bind]
  refine wp_readDwords h (Nat.succ_pos k) (fun w₂ h₂ hfits => ?_) herr
  have hhead : (((behind w hFile pos).drop k).take 1).headD 0 =
      (behind w hFile pos).getD k 0 := by
    rw [List.drop_eq_getElem_cons hfits, List.getD_eq_getElem _ _ hfits]
    rfl
  simp only [Prog.wp_pure, hhead]
  exact hok w₂ h₂ hfits

theorem Reading.obj (h : Reading w w₁ m v) {s : CPageFile ps} {m' : Maps} {v' : ℕ}
    (hmaps : s.maps = m') (hversion : s.transVersion = v') (hcache : s.cache = w₁.obj.cache) :
    Reading w ⟨s, w₁.os⟩ m' v' :=
  ⟨hmaps, hversion, hcache.trans h.cache, h.disk, h.calm⟩

/-- A vector of generation A is read; `upd` is what that does to the maps. -/
theorem wp_readVector (h : Reading w w₁ m v) {l : Lens (CPageFile ps) (Vec ℕ)} [VecLens l]
    (upd : List ℕ → Maps → Maps) (hupd : ∀ xs ys m, upd xs (upd ys m) = upd xs m)
    (hmaps : ∀ (xs : Vec ℕ) s, (l.set xs s).maps = upd xs.data s.maps) {k n : ℕ} (hpos : 0 < k + n)
    {Q : Unit → World (CPageFile ps) → Prop} {E : WinError → World (CPageFile ps) → Prop}
    (hok : ∀ w₂, Reading w w₂ (upd (((behind w hFile pos).drop k).take n) m) v →
      k + n ≤ (behind w hFile pos).length → Q () w₂)
    (herr : ∀ e w₂, (w.os.Calm → ¬k + n ≤ (behind w hFile pos).length) → E e w₂) :
    (readVector l hFile (pos + 4 * k) n).wp Q E w₁ := by
  simp only [readVector, Prog.wp_bind, wp_getObj]
  refine wp_assign (fun xs a _ _ ha => ?_) (fun a _ hne _ => ?_)
  · have hresized : Reading w ⟨l.set xs w₁.obj, { w₁.os with allocs := a }⟩ (upd xs.data m) v := by
      refine ⟨(hmaps xs _).trans (congrArg _ h.maps), (VecLens.version xs _).trans h.version,
        (VecLens.cache xs _).trans h.cache, h.disk, fun hc => ⟨?_, (h.calm hc).2⟩⟩
      rw [(h.calm hc).1] at ha
      exact List.suffix_nil.mp ha
    simp only [Prog.wp_bind]
    refine wp_readDwords hresized hpos (fun w₂ h₂ hfits => ?_) fun w₂ hcalm => herr _ w₂ hcalm
    rw [wp_modifyObj]
    refine hok _ (h₂.obj ?_ ((VecLens.version _ _).trans h₂.version) (VecLens.cache _ _)) hfits
    rw [hmaps, h₂.maps, hupd]
    rfl
  · exact herr _ _ fun hc => absurd (h.calm hc).1 hne

/-- The highest page of the map can be read, unless it is page 0. -/
def HighestReadable (w : World (CPageFile ps)) (pageMap : List ℕ) : Prop :=
  highestPage pageMap ≠ 0 →
    pageAt ps (w.os.disk w.obj.cache.hFile) (highestPage pageMap) ≠ none

theorem validateMapFile_spec (h : Reading w w₁ m v) :
    validateMapFile.wp (fun _ w₂ => Reading w w₂ m v ∧ HighestReadable w m.a.pageMap)
      (fun _ _ => w.os.Calm → ¬HighestReadable w m.a.pageMap) w₁ := by
  have hmap : w₁.obj.pageMapA.data = m.a.pageMap := congrArg (·.a.pageMap) h.maps
  simp only [validateMapFile, Prog.wp_bind, wp_getObj, Prog.wp_ite, hmap]
  constructor
  · intro hne
    simp only [Prog.wp_tryCatch, Prog.wp_bind, onCache, Prog.wp_zoom, Prog.wp_throw, Prog.wp_pure]
    have hfile : CPageCache.file ((World.part cacheL).get w₁) =
        w.os.disk w.obj.cache.hFile := by
      change w₁.os.disk w₁.obj.cache.hFile = _
      rw [h.disk, h.cache]
    refine Prog.wp_mono (CPageCache.readPhysPage_spec ((World.part cacheL).get w₁) _) ?_ ?_
    · rintro page c ⟨hpage, a, r, ha, hr, rfl⟩
      rw [hfile] at hpage
      refine ⟨⟨h.maps, h.version, h.cache, h.disk, fun hc => ⟨?_, ?_⟩⟩, fun _ hnone => by
        cases hpage.symm.trans hnone⟩
      · have ha' : a <:+ w₁.os.allocs := ha
        rw [(h.calm hc).1] at ha'
        exact List.suffix_nil.mp ha'
      · have hr' : r <:+ w₁.os.ios := hr
        rw [(h.calm hc).2] at hr'
        exact List.suffix_nil.mp hr'
    · rintro e c ⟨hcalm, -⟩ hc hreadable
      have hnone := (hcalm (h.calm hc)).1
      rw [hfile] at hnone
      exact hreadable hne hnone
  · intro hzero
    exact ⟨h, fun hne => absurd hne hzero⟩

/-- The indexes of the invalid pages are appended. -/
theorem initFreeListFrom_spec (l : List ℕ) (i : ℕ) (w : World (CPageFile ps)) :
    (initFreeListFrom l i).wp
      (fun _ w' => Became { w.obj.maps with a := { w.obj.maps.a with
        logicalFree := w.obj.maps.a.logicalFree ++ invalidIndexes l i } } w w')
      (fun _ _ => ¬w.os.Calm) w := by
  induction l generalizing i w with
  | nil =>
    simp only [initFreeListFrom, Prog.wp_pure, invalidIndexes, List.append_nil]
    exact Became.refl w
  | cons e l ih =>
    simp only [initFreeListFrom, Prog.wp_bind, Prog.wp_ite]
    constructor
    · intro he
      simp only [pushBack, Prog.wp_bind, wp_getObj]
      refine wp_assign (fun xs a hxs hcap ha => ?_) (fun a _ hne _ => fun hc => hne hc.1)
      have hpush : Became { w.obj.maps with a := { w.obj.maps.a with
          logicalFree := w.obj.maps.a.logicalFree ++ [i] } } w
          ⟨logicalFreeListAL.set xs w.obj, { w.os with allocs := a }⟩ := by
        refine ⟨?_, rfl, rfl, ⟨a, ha, rfl⟩, VecLens.caps xs _ hcap⟩
        simp only [maps, logicalFreeListAL, hxs]
      refine Prog.wp_mono (ih (i + 1) _) (fun _ w' h' => ?_) (fun _ _ hnot hc =>
        hnot (hpush.calm hc))
      have hall := hpush.trans h'
      rw [hpush.maps] at hall
      rw [invalidIndexes, if_pos he]
      simpa only [List.append_assoc, List.singleton_append] using hall
    · intro he
      rw [invalidIndexes, if_neg he]
      exact ih (i + 1) w

/-- The maps of a page file that has read the record `r`. -/
def loadMaps (m : Maps) (r : MapRecord) : Maps :=
  Maps.resync { m with a := { m.a with
    pageMap := r.pageMap
    physFree := r.physFree
    physPages := r.physPages
    logicalFree := m.a.logicalFree ++ invalidIndexes r.pageMap 0 } }

theorem finishMap_spec (h : Reading w w₁ m v) :
    finishMap.wp
      (fun _ w₂ => Reading w w₂ (loadMaps m ⟨v, m.a.physPages, m.a.pageMap, m.a.physFree⟩) v ∧
        HighestReadable w m.a.pageMap)
      (fun _ _ => w.os.Calm → ¬HighestReadable w m.a.pageMap) w₁ := by
  simp only [finishMap, Prog.wp_tryCatch, Prog.wp_bind]
  refine Prog.wp_mono (validateMapFile_spec h) ?_ fun _ _ hnot => hnot
  rintro _ w₂ ⟨h₂, hreadable⟩
  have hmap : w₂.obj.pageMapA.data = m.a.pageMap := congrArg (·.a.pageMap) h₂.maps
  simp only [initFreeList, Prog.wp_bind, wp_getObj, hmap]
  refine Prog.wp_mono (initFreeListFrom_spec m.a.pageMap 0 w₂) ?_
    fun _ _ hnot hc => absurd (h₂.calm hc) hnot
  intro _ w₃ h₃
  have hread := h₂.became h₃
  refine Prog.wp_mono (resyncMaps_spec w₃) ?_ fun _ _ hfails hc =>
    absurd (hread.calm hc) hfails.2.2.1
  rintro _ w₄ ⟨h₄, -⟩
  have hlast := hread.became h₄
  refine ⟨?_, hreadable⟩
  rw [hread.maps, h₂.maps] at hlast
  exact hlast

/-- A double word of the record is read, or the record does not fit into the file. -/
theorem wp_readRecordDword (h : Reading w w₁ m v) {D : List ℕ} (hD : behind w hFile pos = D) {k : ℕ}
    (hk : k < recordSize D) {P : Prop} {Q : ℕ → World (CPageFile ps) → Prop}
    (hok : ∀ w₂, Reading w w₂ m v → k + 1 ≤ D.length → Q (D.getD k 0) w₂) :
    (readDword hFile (pos + 4 * k)).wp Q (fun _ _ => w.os.Calm → RecordFirst D → P) w₁ := by
  subst hD
  exact wp_readDword h hok fun _ hnot hc hrecord =>
    absurd (Nat.le_trans hk hrecord.fits) (hnot hc)

theorem wp_readRecordVector (h : Reading w w₁ m v) {D : List ℕ} (hD : behind w hFile pos = D)
    {l : Lens (CPageFile ps) (Vec ℕ)} [VecLens l] (upd : List ℕ → Maps → Maps)
    (hupd : ∀ xs ys m, upd xs (upd ys m) = upd xs m)
    (hmaps : ∀ (xs : Vec ℕ) s, (l.set xs s).maps = upd xs.data s.maps) {k n : ℕ} (hpos : 0 < k + n)
    (hk : k + n ≤ recordSize D) {P : Prop} {Q : Unit → World (CPageFile ps) → Prop}
    (hok : ∀ w₂, Reading w w₂ (upd ((D.drop k).take n) m) v → Q () w₂) :
    (readVector l hFile (pos + 4 * k) n).wp Q (fun _ _ => w.os.Calm → RecordFirst D → P) w₁ := by
  subst hD
  exact wp_readVector h upd hupd hmaps hpos (fun w₂ h₂ _ => hok w₂ h₂) fun _ _ hnot hc hrecord =>
    absurd (Nat.le_trans hk hrecord.fits) (hnot hc)

/-- `ReadMap` accepts the record that stands where the file pointer is, if the highest page of its
map can be read, and nothing else. -/
theorem readMap_spec (w : World (CPageFile ps)) (hFile : FileName) (pos : ℕ) :
    (readMap hFile pos).wp
      (fun pos' w' => RecordFirst (behind w hFile pos) ∧
        pos' = pos + 4 * recordSize (behind w hFile pos) ∧
        Reading w w' (loadMaps w.obj.maps (recordOf (behind w hFile pos)))
          (recordOf (behind w hFile pos)).transVersion ∧
        HighestReadable w (recordOf (behind w hFile pos)).pageMap)
      (fun _ _ => w.os.Calm → RecordFirst (behind w hFile pos) →
        ¬HighestReadable w (recordOf (behind w hFile pos)).pageMap) w := by
  obtain ⟨D, hD⟩ : ∃ D, behind w hFile pos = D := ⟨_, rfl⟩
  have hleast : 6 ≤ recordSize D := by
    rw [recordSize]
    omega
  have hpages : 5 + D.getD 3 0 ≤ recordSize D := by
    rw [recordSize]
    omega
  have hlast : recordSize D - 1 = 5 + D.getD 3 0 + D.getD (4 + D.getD 3 0) 0 := by
    rw [recordSize]
    omega
  rw [hD]
  simp only [readMap, Prog.wp_bind]
  refine wp_readRecordDword (k := 0) (.refl w) hD (by omega) fun w₁ h₁ _ => ?_
  simp only [Prog.wp_bind, Prog.wp_ite, Prog.wp_throw]
  refine ⟨fun hne _ hrecord => absurd hrecord.leading hne, fun hleading => ?_⟩
  refine wp_readRecordDword (k := 1) h₁ hD (by omega) fun w₂ h₂ _ => ?_
  simp only [Prog.wp_bind, wp_modifyObj]
  have hversion : Reading w ⟨{ w₂.obj with transVersion := D.getD 1 0 }, w₂.os⟩ w.obj.maps
      (D.getD 1 0) := h₂.obj h₂.maps rfl rfl
  refine wp_readRecordDword (k := 2) hversion hD (by omega) fun w₃ h₃ _ => ?_
  simp only [Prog.wp_bind, wp_modifyObj]
  have hphys : Reading w ⟨{ w₃.obj with physPagesA := D.getD 2 0 }, w₃.os⟩
      { w.obj.maps with a := { w.obj.maps.a with physPages := D.getD 2 0 } } (D.getD 1 0) := by
    refine h₃.obj ?_ h₃.version rfl
    rw [← h₃.maps]
    rfl
  refine wp_readRecordDword (k := 3) hphys hD (by omega) fun w₄ h₄ _ => ?_
  simp only [Prog.wp_bind]
  refine wp_readRecordVector h₄ hD (fun xs m => { m with a := { m.a with pageMap := xs } })
    (fun _ _ _ => rfl) (fun _ _ => rfl) (Nat.add_pos_left (by decide) _) (by omega)
    fun w₅ h₅ => ?_
  simp only [Prog.wp_bind]
  refine wp_readRecordDword h₅ hD (by omega) fun w₆ h₆ _ => ?_
  simp only [Prog.wp_bind]
  refine wp_readRecordVector h₆ hD (fun xs m => { m with a := { m.a with physFree := xs } })
    (fun _ _ _ => rfl) (fun _ _ => rfl) (by omega) (by omega) fun w₇ h₇ => ?_
  simp only [Prog.wp_bind]
  refine wp_readRecordDword h₇ hD (by omega) fun w₈ h₈ hfits => ?_
  simp only [Prog.wp_bind, Prog.wp_ite, Prog.wp_throw]
  constructor
  · intro hne _ hrecord
    have htrailing := hrecord.trailing
    rw [hlast] at htrailing
    exact absurd htrailing hne
  intro htrailing
  refine Prog.wp_mono (finishMap_spec h₈) ?_ fun _ _ hnot hc _ => hnot hc
  rintro _ w₉ ⟨h₉, hreadable⟩
  have hrecord : RecordFirst D := by
    refine ⟨not_not.1 hleading, ?_, ?_⟩
    · rw [recordSize]
      omega
    · rw [hlast]
      exact not_not.1 htrailing
  exact ⟨hrecord, rfl, h₉, hreadable⟩

end CPageFile
end NtAdmin.Wmi.PageMgr
