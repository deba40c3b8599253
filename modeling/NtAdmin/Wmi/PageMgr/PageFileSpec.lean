import NtAdmin.Wmi.PageMgr.PageCacheWrite
import NtAdmin.Wmi.PageMgr.PageMaps

/-! What each operation of a page file does to its maps. -/
namespace NtAdmin.Wmi.PageMgr

open NtAdmin.Lib

namespace Maps

def resync (m : Maps) : Maps := { m with b := m.a, deferred := [] }

def commit (m : Maps) : Maps :=
  let b := { m.b with
    pageMap := moveCurrentToPrevious m.b.pageMap
    physFree := m.b.physFree ++ m.deferred.reverse }
  { a := b, b := b, deferred := [], inTransaction := false }

/-- Generation A after the first half of a checkpoint. -/
def strip (m : Maps) : Maps := { m with a := { m.a with pageMap := stripHiBits m.a.pageMap } }

def checkpoint (m : Maps) : Maps :=
  let a := { m.strip.a with physFree := m.a.physFree ++ m.a.replaced.reverse, replaced := [] }
  { m with a := a, b := a, deferred := [] }

/-- The physical page of an entry is given up by the current transaction. -/
def retire (m : Maps) (physId : ℕ) : Maps :=
  if physId = reservedPage then m
  else if physId &&& currentTransaction ≠ 0 then
    { m with b := { m.b with physFree := m.b.physFree ++ [merePageId physId] } }
  else if physId &&& previousTransaction ≠ 0 then
    { m with deferred := m.deferred ++ [merePageId physId] }
  else { m with b := { m.b with replaced := m.b.replaced ++ [merePageId physId] } }

def freePage (m : Maps) (id physId : ℕ) : Maps :=
  retire { m with b := { m.b with
    pageMap := m.b.pageMap.set id invalidPage
    logicalFree := m.b.logicalFree ++ [merePageId id] } } physId

/-- The physical page for a page that is written. -/
def alloc (m : Maps) : Option (ℕ × Maps) :=
  if m.b.physFree = [] then
    if m.b.physPages = maxNumPages then none
    else some (m.b.physPages, { m with b := { m.b with physPages := m.b.physPages + 1 } })
  else some ((lowestFree m.b.physFree).1,
    { m with b := { m.b with physFree := m.b.physFree.eraseIdx (lowestFree m.b.physFree).2 } })

def mapCurrent (m : Maps) (id newPhysId : ℕ) : Maps :=
  { m with b := { m.b with pageMap := m.b.pageMap.set id (newPhysId ||| currentTransaction) } }

def reclaimOne (m : Maps) (id : ℕ) : Maps :=
  { m with b := { m.b with
    pageMap := m.b.pageMap.set id reservedPage
    logicalFree := m.b.logicalFree.dropLast } }

def sortFree (m : Maps) : Maps :=
  { m with b := { m.b with logicalFree := shellSort m.b.logicalFree } }

def reclaimRun (m : Maps) (start count : ℕ) : Maps :=
  let v := shellSort m.b.logicalFree
  { m with b := { m.b with
    pageMap := markReserved m.b.pageMap (v.getD start 0) count
    logicalFree := v.take start ++ v.drop (start + count) } }

def appendReserved (m : Maps) (n : ℕ) : Maps :=
  { m with b := { m.b with pageMap := m.b.pageMap ++ List.replicate n reservedPage } }

end Maps

namespace CPageFile
variable {ps : ℕ}

/-- No vector has fewer slots than before. -/
structure CapsLe (s s' : CPageFile ps) : Prop where
  pageMapA : s.pageMapA.cap ≤ s'.pageMapA.cap
  physFreeListA : s.physFreeListA.cap ≤ s'.physFreeListA.cap
  logicalFreeListA : s.logicalFreeListA.cap ≤ s'.logicalFreeListA.cap
  replacedPagesA : s.replacedPagesA.cap ≤ s'.replacedPagesA.cap
  pageMapB : s.pageMapB.cap ≤ s'.pageMapB.cap
  physFreeListB : s.physFreeListB.cap ≤ s'.physFreeListB.cap
  logicalFreeListB : s.logicalFreeListB.cap ≤ s'.logicalFreeListB.cap
  replacedPagesB : s.replacedPagesB.cap ≤ s'.replacedPagesB.cap
  deferredFreeList : s.deferredFreeList.cap ≤ s'.deferredFreeList.cap

theorem CapsLe.refl (s : CPageFile ps) : CapsLe s s := by constructor <;> exact Nat.le_refl _

theorem CapsLe.trans {s s' s'' : CPageFile ps} (h : CapsLe s s') (h' : CapsLe s' s'') :
    CapsLe s s'' where
  pageMapA := h.pageMapA.trans h'.pageMapA
  physFreeListA := h.physFreeListA.trans h'.physFreeListA
  logicalFreeListA := h.logicalFreeListA.trans h'.logicalFreeListA
  replacedPagesA := h.replacedPagesA.trans h'.replacedPagesA
  pageMapB := h.pageMapB.trans h'.pageMapB
  physFreeListB := h.physFreeListB.trans h'.physFreeListB
  logicalFreeListB := h.logicalFreeListB.trans h'.logicalFreeListB
  replacedPagesB := h.replacedPagesB.trans h'.replacedPagesB
  deferredFreeList := h.deferredFreeList.trans h'.deferredFreeList

/-- The maps became `m`, without a step of the cache. -/
structure Became (m : Maps) (w w' : World (CPageFile ps)) : Prop where
  maps : w'.obj.maps = m
  cache : w'.obj.cache = w.obj.cache
  version : w'.obj.transVersion = w.obj.transVersion
  os : ∃ a, a <:+ w.os.allocs ∧ w'.os = { w.os with allocs := a }
  caps : CapsLe w.obj w'.obj

/-- A rollback of generation B will find the slots it needs. -/
structure Ready (s : CPageFile ps) : Prop where
  pageMap : s.pageMapA.size ≤ s.pageMapB.cap
  physFreeList : s.physFreeListA.size ≤ s.physFreeListB.cap
  logicalFreeList : s.logicalFreeListA.size ≤ s.logicalFreeListB.cap
  replacedPages : s.replacedPagesA.size ≤ s.replacedPagesB.cap

section became
variable {w w' w'' : World (CPageFile ps)} {m m' : Maps}

theorem Became.refl (w : World (CPageFile ps)) : Became w.obj.maps w w :=
  ⟨rfl, rfl, rfl, ⟨w.os.allocs, List.suffix_refl _, rfl⟩, .refl _⟩

theorem Became.trans (h : Became m w w') (h' : Became m' w' w'') : Became m' w w'' := by
  obtain ⟨a, ha, ho⟩ := h.os
  obtain ⟨a', ha', ho'⟩ := h'.os
  refine ⟨h'.maps, h'.cache.trans h.cache, h'.version.trans h.version, ⟨a', ?_, ?_⟩,
    h.caps.trans h'.caps⟩
  · rw [ho] at ha'
    exact ha'.trans ha
  · rw [ho', ho]

/-- A second operation changes the maps as `f` does. -/
theorem Became.andThen (h : Became m w w') (f : Maps → Maps)
    (h' : Became (f w'.obj.maps) w' w'') : Became (f m) w w'' := by
  rw [h.maps] at h'
  exact h.trans h'

theorem Became.calm (h : Became m w w') (hc : w.os.Calm) : w'.os.Calm := by
  obtain ⟨a, ha, ho⟩ := h.os
  rw [hc.1] at ha
  rw [ho]
  exact ⟨List.suffix_nil.mp ha, hc.2⟩

theorem Became.allocs {a : List (Option ℕ)} (ha : a <:+ w.os.allocs) :
    Became w.obj.maps w ⟨w.obj, { w.os with allocs := a }⟩ :=
  ⟨rfl, rfl, rfl, ⟨a, ha, rfl⟩, .refl _⟩

theorem Became.obj {s : CPageFile ps} (hm : s.maps = m) (hc : s.cache = w.obj.cache)
    (hv : s.transVersion = w.obj.transVersion) (h : CapsLe w.obj s) :
    Became m w ⟨s, w.os⟩ := ⟨hm, hc, hv, ⟨w.os.allocs, List.suffix_refl _, rfl⟩, h⟩

end became

/-- The lens is one of the vectors of the maps. -/
class VecLens (l : Lens (CPageFile ps) (Vec ℕ)) : Prop where
  maps : ∀ v s, v.data = (l.get s).data → (l.set v s).maps = s.maps
  cache : ∀ v s, (l.set v s).cache = s.cache
  version : ∀ v s, (l.set v s).transVersion = s.transVersion
  caps : ∀ v s, (l.get s).cap ≤ v.cap → CapsLe s (l.set v s)
  cap_le : ∀ {s s'}, CapsLe s s' → (l.get s).cap ≤ (l.get s').cap

instance : VecLens (pageMapAL : Lens (CPageFile ps) (Vec ℕ)) :=
  ⟨fun v s h => by simp only [maps, pageMapAL] at *; rw [h], fun _ _ => rfl, fun _ _ => rfl,
    fun _ s h => { CapsLe.refl s with pageMapA := h }, CapsLe.pageMapA⟩
instance : VecLens (physFreeListAL : Lens (CPageFile ps) (Vec ℕ)) :=
  ⟨fun v s h => by simp only [maps, physFreeListAL] at *; rw [h], fun _ _ => rfl, fun _ _ => rfl,
    fun _ s h => { CapsLe.refl s with physFreeListA := h }, CapsLe.physFreeListA⟩
instance : VecLens (logicalFreeListAL : Lens (CPageFile ps) (Vec ℕ)) :=
  ⟨fun v s h => by simp only [maps, logicalFreeListAL] at *; rw [h], fun _ _ => rfl, fun _ _ => rfl,
    fun _ s h => { CapsLe.refl s with logicalFreeListA := h }, CapsLe.logicalFreeListA⟩
instance : VecLens (replacedPagesAL : Lens (CPageFile ps) (Vec ℕ)) :=
  ⟨fun v s h => by simp only [maps, replacedPagesAL] at *; rw [h], fun _ _ => rfl, fun _ _ => rfl,
    fun _ s h => { CapsLe.refl s with replacedPagesA := h }, CapsLe.replacedPagesA⟩
instance : VecLens (pageMapBL : Lens (CPageFile ps) (Vec ℕ)) :=
  ⟨fun v s h => by simp only [maps, pageMapBL] at *; rw [h], fun _ _ => rfl, fun _ _ => rfl,
    fun _ s h => { CapsLe.refl s with pageMapB := h }, CapsLe.pageMapB⟩
instance : VecLens (physFreeListBL : Lens (CPageFile ps) (Vec ℕ)) :=
  ⟨fun v s h => by simp only [maps, physFreeListBL] at *; rw [h], fun _ _ => rfl, fun _ _ => rfl,
    fun _ s h => { CapsLe.refl s with physFreeListB := h }, CapsLe.physFreeListB⟩
instance : VecLens (logicalFreeListBL : Lens (CPageFile ps) (Vec ℕ)) :=
  ⟨fun v s h => by simp only [maps, logicalFreeListBL] at *; rw [h], fun _ _ => rfl, fun _ _ => rfl,
    fun _ s h => { CapsLe.refl s with logicalFreeListB := h }, CapsLe.logicalFreeListB⟩
instance : VecLens (replacedPagesBL : Lens (CPageFile ps) (Vec ℕ)) :=
  ⟨fun v s h => by simp only [maps, replacedPagesBL] at *; rw [h], fun _ _ => rfl, fun _ _ => rfl,
    fun _ s h => { CapsLe.refl s with replacedPagesB := h }, CapsLe.replacedPagesB⟩
instance : VecLens (deferredFreeListL : Lens (CPageFile ps) (Vec ℕ)) :=
  ⟨fun v s h => by simp only [maps, deferredFreeListL] at *; rw [h], fun _ _ => rfl, fun _ _ => rfl,
    fun _ s h => { CapsLe.refl s with deferredFreeList := h }, CapsLe.deferredFreeList⟩

section rules
variable {w : World (CPageFile ps)} {l : Lens (CPageFile ps) (Vec ℕ)} [VecLens l]
  {Q : Unit → World (CPageFile ps) → Prop} {E : WinError → World (CPageFile ps) → Prop}

theorem Became.set {v : Vec ℕ} {a : List (Option ℕ)} (hd : v.data = (l.get w.obj).data)
    (hc : (l.get w.obj).cap ≤ v.cap) (ha : a <:+ w.os.allocs) :
    Became w.obj.maps w ⟨l.set v w.obj, { w.os with allocs := a }⟩ :=
  ⟨VecLens.maps v _ hd, VecLens.cache v _, VecLens.version v _, ⟨a, ha, rfl⟩, VecLens.caps v _ hc⟩

theorem CapsLe.set_withData (s : CPageFile ps) (d : List ℕ) :
    CapsLe s (l.set ((l.get s).withData d) s) :=
  VecLens.caps _ s (Vec.cap_le_cap_withData _ d)

/-- One of several `reserve` calls; only slots are added. -/
theorem Became.wp_reserve {w₀ : World (CPageFile ps)} {m : Maps} (h : Became m w₀ w) {n : ℕ}
    (hok : ∀ w', Became m w₀ w' → CapsLe w.obj w'.obj → n ≤ (l.get w'.obj).cap → Q () w')
    (herr : ∀ w', Became m w₀ w' → (l.get w₀.obj).cap < n → ¬w₀.os.Calm → E .outOfMemory w') :
    (reserve l n).wp Q E w :=
  PageMgr.wp_reserve
    (fun v a hd hn hc ha =>
      have hb : Became w.obj.maps w _ := .set hd hc ha
      hok _ (h.maps ▸ h.trans hb) hb.caps (by simpa using hn))
    (fun a hlt hne ha =>
      herr _ (h.maps ▸ h.trans (.allocs ha)) (Nat.lt_of_le_of_lt (VecLens.cap_le h.caps) hlt)
        fun hc => hne (h.calm hc).1)

end rules

section operations
variable {w : World (CPageFile ps)}

theorem resyncMaps_spec (w : World (CPageFile ps)) :
    resyncMaps.wp
      (fun _ w' => Became w.obj.maps.resync w w' ∧ Ready w'.obj)
      (fun e w' => Became w.obj.maps w w' ∧ e = .outOfMemory ∧ ¬w.os.Calm ∧ ¬Ready w.obj) w := by
  have hB := w.obj.pageMapB.le_cap
  have hF := w.obj.physFreeListB.le_cap
  have hL := w.obj.logicalFreeListB.le_cap
  have hR := w.obj.replacedPagesB.le_cap
  simp only [resyncMaps, Prog.wp_bind, wp_getObj]
  refine (Became.refl w).wp_reserve (fun w₁ h₁ _ c₁ => ?_) (fun w' h' hlt hcalm =>
    ⟨h', rfl, hcalm, fun hr => ?_⟩)
  rotate_left
  · have := hr.pageMap
    simp only [pageMapBL, Vec.size] at *
    omega
  simp only [Prog.wp_bind]
  refine h₁.wp_reserve (fun w₂ h₂ m₂ c₂ => ?_) (fun w' h' hlt hcalm =>
    ⟨h', rfl, hcalm, fun hr => ?_⟩)
  rotate_left
  · have := hr.physFreeList
    simp only [physFreeListBL, Vec.size] at *
    omega
  simp only [Prog.wp_bind]
  refine h₂.wp_reserve (fun w₃ h₃ m₃ c₃ => ?_) (fun w' h' hlt hcalm =>
    ⟨h', rfl, hcalm, fun hr => ?_⟩)
  rotate_left
  · have := hr.logicalFreeList
    simp only [logicalFreeListBL, Vec.size] at *
    omega
  simp only [Prog.wp_bind]
  refine h₃.wp_reserve (fun w₄ h₄ m₄ c₄ => ?_) (fun w' h' hlt hcalm =>
    ⟨h', rfl, hcalm, fun hr => ?_⟩)
  rotate_left
  · have := hr.replacedPages
    simp only [replacedPagesBL, Vec.size] at *
    omega
  -- the four vectors are large enough now, so that the copies cannot fail
  have k₁ := ((m₂.trans m₃).trans m₄).pageMapB
  have k₂ := (m₃.trans m₄).physFreeListB
  have k₃ := m₄.logicalFreeListB
  simp only [pageMapBL, physFreeListBL, logicalFreeListBL, replacedPagesBL, Vec.size] at c₁ c₂ c₃ c₄
  simp only [Prog.wp_bind]
  refine wp_assign_of_le (by simp only [pageMapBL]; omega) ?_
  simp only [Prog.wp_bind]
  refine wp_assign_of_le (by simp only [pageMapBL, physFreeListBL]; omega) ?_
  simp only [Prog.wp_bind]
  refine wp_assign_of_le
    (by simp only [pageMapBL, physFreeListBL, logicalFreeListBL]; omega) ?_
  simp only [Prog.wp_bind]
  refine wp_assign_of_le
    (by simp only [pageMapBL, physFreeListBL, logicalFreeListBL, replacedPagesBL]; omega) ?_
  rw [wp_modifyObj]
  have hmap : w₄.obj.pageMapA.data = w.obj.pageMapA.data := congrArg (·.a.pageMap) h₄.maps
  have hfree : w₄.obj.physFreeListA.data = w.obj.physFreeListA.data :=
    congrArg (·.a.physFree) h₄.maps
  have hlog : w₄.obj.logicalFreeListA.data = w.obj.logicalFreeListA.data :=
    congrArg (·.a.logicalFree) h₄.maps
  have hrepl : w₄.obj.replacedPagesA.data = w.obj.replacedPagesA.data :=
    congrArg (·.a.replaced) h₄.maps
  refine ⟨h₄.trans (.obj ?_ ?_ ?_ ?_), ⟨?_, ?_, ?_, ?_⟩⟩
  · change Maps.mk w₄.obj.maps.a ⟨_, _, _, _, w₄.obj.maps.a.physPages⟩ []
      w₄.obj.maps.inTransaction = _
    rw [h₄.maps]
    rfl
  · simp only [VecLens.cache]
  · simp only [VecLens.version]
  · have hcap : CapsLe w₄.obj (replacedPagesBL.set _ (logicalFreeListBL.set _
        (physFreeListBL.set _ (pageMapBL.set _ w₄.obj)))) :=
      (((CapsLe.set_withData w₄.obj w.obj.pageMapA.data).trans
        (.set_withData _ w.obj.physFreeListA.data)).trans
          (.set_withData _ w.obj.logicalFreeListA.data)).trans
            (.set_withData _ w.obj.replacedPagesA.data)
    exact { hcap with deferredFreeList := Vec.cap_le_cap_withData _ _ }
  · exact hmap ▸ Nat.le_max_right _ _
  · exact hfree ▸ Nat.le_max_right _ _
  · exact hlog ▸ Nat.le_max_right _ _
  · exact hrepl ▸ Nat.le_max_right _ _

theorem transBegin_spec (w : World (CPageFile ps)) :
    transBegin.wp
      (fun _ w' => w.obj.inTransaction = false ∧
        Became { w.obj.maps.resync with inTransaction := true } w w' ∧ Ready w'.obj)
      (fun _ w' => Became w.obj.maps w w' ∧ (w.os.Calm → w.obj.inTransaction = true)) w := by
  simp only [transBegin, Prog.wp_bind, wp_getObj, Prog.wp_ite, Prog.wp_throw]
  refine ⟨fun hin => ⟨.refl w, fun _ => hin⟩, fun hin => ?_⟩
  refine Prog.wp_mono (resyncMaps_spec w) (fun _ w₁ h₁ => ?_) (fun _ w₁ h₁ => ?_)
  · rw [wp_modifyObj]
    refine ⟨by simpa using hin, h₁.1.trans (.obj ?_ rfl rfl ?_), ?_⟩
    · rw [← h₁.1.maps]
      rfl
    · exact { CapsLe.refl w₁.obj with }
    · exact ⟨h₁.2.pageMap, h₁.2.physFreeList, h₁.2.logicalFreeList, h₁.2.replacedPages⟩
  · exact ⟨h₁.1, fun hc => absurd hc h₁.2.2.1⟩

theorem transRollback_spec (w : World (CPageFile ps)) :
    transRollback.wp
      (fun _ w' => w.obj.inTransaction = true ∧
        Became { w.obj.maps.resync with inTransaction := false } w w' ∧ Ready w'.obj)
      (fun _ w' => w.obj.inTransaction = false ∧ w' = w ∨
        w.obj.inTransaction = true ∧ ¬Ready w.obj ∧
          Became { w.obj.maps with inTransaction := false } w w') w := by
  simp only [transRollback, Prog.wp_bind, wp_getObj, Prog.wp_ite, Prog.wp_throw, wp_modifyObj]
  refine ⟨fun hin => Or.inl ⟨by simpa using hin, trivial⟩, fun hin => ?_⟩
  have hin' : w.obj.inTransaction = true := by simpa using hin
  have h₀ : Became { w.obj.maps with inTransaction := false } w
      ⟨{ w.obj with inTransaction := false }, w.os⟩ :=
    .obj rfl rfl rfl { CapsLe.refl w.obj with }
  refine Prog.wp_mono (resyncMaps_spec _) (fun _ w₁ h₁ => ?_) (fun _ w₁ h₁ => ?_)
  · exact ⟨hin', h₀.trans h₁.1, h₁.2⟩
  · refine Or.inr ⟨hin', fun hr => h₁.2.2.2 ?_, h₀.trans h₁.1⟩
    exact ⟨hr.pageMap, hr.physFreeList, hr.logicalFreeList, hr.replacedPages⟩

/-- Elements move from the end of one list to the end of another, which has the slots. -/
theorem moveBack_spec {src dst : Lens (CPageFile ps) (Vec ℕ)}
    (hsd : ∀ v s, src.get (dst.set v s) = src.get s)
    (hds : ∀ v s, dst.get (src.set v s) = dst.get s)
    (hcomm : ∀ u v s, dst.set v (src.set u s) = src.set u (dst.set v s)) (n : ℕ)
    (hn : n ≤ (src.get w.obj).data.length)
    (hcap : (dst.get w.obj).data.length + n ≤ (dst.get w.obj).cap) :
    (moveBack src dst n).wp
      (fun _ w' => ∃ u v : Vec ℕ,
        u.data = (src.get w.obj).data.take ((src.get w.obj).data.length - n) ∧
        v.data = (dst.get w.obj).data ++
          ((src.get w.obj).data.drop ((src.get w.obj).data.length - n)).reverse ∧
        (src.get w.obj).cap ≤ u.cap ∧ (dst.get w.obj).cap ≤ v.cap ∧
        w' = ⟨src.set u (dst.set v w.obj), w.os⟩) (fun _ _ => False) w := by
  induction n generalizing w with
  | zero => exact ⟨src.get w.obj, dst.get w.obj, by simp, by simp, Nat.le_refl _, Nat.le_refl _,
      by simp⟩
  | succ n ih =>
    have hne : (src.get w.obj).data ≠ [] := by
      intro hnil
      simp [hnil] at hn
    have hlast := List.getLast?_eq_some_getLast hne
    simp only [moveBack, Prog.wp_bind, wp_getObj, hlast]
    simp only [Prog.wp_bind, pushBack, wp_getObj]
    refine wp_assign_of_le (by simp only [List.length_append, List.length_singleton]; omega) ?_
    simp only [Prog.wp_bind, wp_modifyObj, hsd]
    refine Prog.wp_mono (ih ?_ ?_) (fun _ w' h' => ?_) (fun _ _ => id)
    · simp only [Lens.get_set, Vec.data_withData, List.length_dropLast]
      omega
    · simp only [hds, Lens.get_set, Vec.data_withData, List.length_append, List.length_singleton]
      have := Vec.cap_le_cap_withData (dst.get w.obj)
        ((dst.get w.obj).data ++ [(src.get w.obj).data.getLast hne])
      omega
    · obtain ⟨u, v, hu, hv, hcu, hcv, rfl⟩ := h'
      simp only [Lens.get_set, hds, Vec.data_withData, List.length_dropLast] at hu hv hcu hcv
      refine ⟨u, v, ?_, ?_, (Vec.cap_le_cap_withData _ _).trans hcu,
        (Vec.cap_le_cap_withData _ _).trans hcv, by simp only [hcomm, Lens.set_set]⟩
      · rw [hu, List.dropLast_eq_take, List.take_take]
        congr 1
        omega
      · have hdrop : (src.get w.obj).data.drop ((src.get w.obj).data.length - (n + 1)) =
            (src.get w.obj).data.dropLast.drop ((src.get w.obj).data.length - 1 - n) ++
              [(src.get w.obj).data.getLast hne] := by
          conv_lhs =>
            arg 2
            rw [← List.dropLast_append_getLast hne]
          rw [List.drop_append_of_le_length (by rw [List.length_dropLast]; omega)]
          congr 2
          omega
        rw [hv, hdrop, List.reverse_append, List.append_assoc]
        rfl

theorem length_moveCurrentToPrevious (l : List ℕ) :
    (moveCurrentToPrevious l).length = l.length := by simp [moveCurrentToPrevious]

theorem transCommitReserve_spec (w : World (CPageFile ps)) :
    transCommitReserve.wp
      (fun _ w' => Became w.obj.maps w w' ∧
        w.obj.pageMapB.size ≤ w'.obj.pageMapA.cap ∧
        w.obj.logicalFreeListB.size ≤ w'.obj.logicalFreeListA.cap ∧
        w.obj.replacedPagesB.size ≤ w'.obj.replacedPagesA.cap ∧
        w.obj.physFreeListB.size + w.obj.deferredFreeList.size ≤ w'.obj.physFreeListA.cap ∧
        w.obj.physFreeListB.size + w.obj.deferredFreeList.size ≤ w'.obj.physFreeListB.cap)
      (fun _ w' => Became w.obj.maps w w' ∧ ¬w.os.Calm) w := by
  simp only [transCommitReserve, Prog.wp_bind, wp_getObj]
  refine (Became.refl w).wp_reserve (fun w₁ h₁ _ c₁ => ?_) (fun w' h' _ hcalm => ⟨h', hcalm⟩)
  simp only [Prog.wp_bind]
  refine h₁.wp_reserve (fun w₂ h₂ m₂ c₂ => ?_) (fun w' h' _ hcalm => ⟨h', hcalm⟩)
  simp only [Prog.wp_bind]
  refine h₂.wp_reserve (fun w₃ h₃ m₃ c₃ => ?_) (fun w' h' _ hcalm => ⟨h', hcalm⟩)
  simp only [Prog.wp_bind]
  refine h₃.wp_reserve (fun w₄ h₄ m₄ c₄ => ?_) (fun w' h' _ hcalm => ⟨h', hcalm⟩)
  refine h₄.wp_reserve (fun w₅ h₅ m₅ c₅ => ?_) (fun w' h' _ hcalm => ⟨h', hcalm⟩)
  exact ⟨h₅, c₁.trans (((m₂.trans m₃).trans m₄).trans m₅).pageMapA,
    c₂.trans ((m₃.trans m₄).trans m₅).logicalFreeListA, c₃.trans (m₄.trans m₅).replacedPagesA,
    c₄.trans m₅.physFreeListA, c₅⟩

theorem transCommit_spec (w : World (CPageFile ps)) :
    transCommit.wp
      (fun _ w' => w.obj.inTransaction = true ∧ transCommitReserve.result w = .ok () ∧
        Became w.obj.maps.commit w w')
      (fun _ w' => Became w.obj.maps w w' ∧ (w.os.Calm → w.obj.inTransaction = false) ∧
        ¬(w.obj.inTransaction = true ∧ transCommitReserve.result w = .ok ())) w := by
  simp only [transCommit, Prog.wp_bind, wp_getObj, Prog.wp_ite, Prog.wp_throw]
  constructor
  · intro hin
    have hin' : w.obj.inTransaction = false := by simpa using hin
    exact ⟨.refl w, fun _ => hin', fun h => Bool.noConfusion (hin'.symm.trans h.1)⟩
  intro hin
  have hin' : w.obj.inTransaction = true := by simpa using hin
  have hresult : transCommitReserve.wp (fun _ _ => transCommitReserve.result w = .ok ())
      (fun _ _ => transCommitReserve.result w ≠ .ok ()) w :=
    Prog.wp_result.mpr ⟨fun _ h => h, fun _ h hok => by cases h.symm.trans hok⟩
  refine Prog.wp_mono (Prog.wp_and (transCommitReserve_spec w) hresult) (fun _ w₅ h => ?_)
    (fun _ w' h' => ⟨h'.1.1, fun hc => absurd hc h'.1.2, fun hok => h'.2 hok.2⟩)
  obtain ⟨⟨h₅, k₁, k₂, k₃, k₄, k₅⟩, hresult⟩ := h
  have hmap : w₅.obj.pageMapB.data = w.obj.pageMapB.data := congrArg (·.b.pageMap) h₅.maps
  have hfree : w₅.obj.physFreeListB.data = w.obj.physFreeListB.data :=
    congrArg (·.b.physFree) h₅.maps
  have hlog : w₅.obj.logicalFreeListB.data = w.obj.logicalFreeListB.data :=
    congrArg (·.b.logicalFree) h₅.maps
  have hrepl : w₅.obj.replacedPagesB.data = w.obj.replacedPagesB.data :=
    congrArg (·.b.replaced) h₅.maps
  have hdef : w₅.obj.deferredFreeList.data = w.obj.deferredFreeList.data :=
    congrArg (·.deferred) h₅.maps
  simp only [Vec.size] at k₁ k₂ k₃ k₄ k₅
  simp only [Prog.wp_bind, wp_modifyObj]
  refine Prog.wp_mono (moveBack_spec (fun _ _ => rfl) (fun _ _ => rfl) (fun _ _ _ => rfl) _ ?_ ?_)
    (fun _ w₆ h₆ => ?_) (fun _ _ => False.elim)
  · simp only [deferredFreeListL, Vec.size, hdef]
    exact Nat.le_refl _
  · simp only [physFreeListBL, Vec.size, hfree]
    omega
  obtain ⟨u, v, hu, hv, hcu, hcv, rfl⟩ := h₆
  simp only [deferredFreeListL, physFreeListBL, Vec.size, hdef, hfree, Nat.sub_self, List.take_zero,
    List.drop_zero] at hu hv hcu hcv
  simp only [Prog.wp_bind, wp_getObj]
  refine wp_assign_of_le ?_ ?_
  · simp only [pageMapAL, deferredFreeListL, physFreeListBL, Vec.data_withData,
      length_moveCurrentToPrevious, hmap]
    omega
  simp only [Prog.wp_bind]
  refine wp_assign_of_le ?_ ?_
  · simp only [physFreeListAL, pageMapAL, deferredFreeListL, physFreeListBL, hv,
      List.length_append, List.length_reverse]
    omega
  simp only [Prog.wp_bind]
  refine wp_assign_of_le ?_ ?_
  · simp only [logicalFreeListAL, physFreeListAL, pageMapAL, deferredFreeListL, physFreeListBL, hlog]
    omega
  simp only [Prog.wp_bind]
  refine wp_assign_of_le ?_ ?_
  · simp only [replacedPagesAL, logicalFreeListAL, physFreeListAL, pageMapAL, deferredFreeListL,
      physFreeListBL, hrepl]
    omega
  rw [wp_modifyObj]
  refine ⟨hin', hresult, h₅.trans (.obj ?_ ?_ ?_ ?_)⟩
  · have hphys : w₅.obj.physPagesB = w.obj.physPagesB := congrArg (·.b.physPages) h₅.maps
    simp only [maps, deferredFreeListL, physFreeListBL, pageMapAL, physFreeListAL,
      logicalFreeListAL, replacedPagesAL, Vec.data_withData, hu, hv, hmap, hlog, hrepl, hphys]
    rfl
  · simp only [VecLens.cache]
  · simp only [VecLens.version]
  · exact { CapsLe.refl w₅.obj with
      pageMapA := Vec.cap_le_cap_withData _ _
      physFreeListA := Vec.cap_le_cap_withData _ _
      logicalFreeListA := Vec.cap_le_cap_withData _ _
      replacedPagesA := Vec.cap_le_cap_withData _ _
      pageMapB := Vec.cap_le_cap_withData _ _
      physFreeListB := hcv
      deferredFreeList := hcu }

/-- A commit succeeds in a transaction, if there is memory for the lists. -/
theorem transCommit_result_iff (w : World (CPageFile ps)) :
    transCommit.result w = .ok () ↔
      w.obj.inTransaction = true ∧ transCommitReserve.result w = .ok () := by
  obtain ⟨hok, herr⟩ := Prog.wp_result.mp (transCommit_spec w)
  constructor
  · intro h
    exact ⟨(hok () h).1, (hok () h).2.1⟩
  · intro h
    rcases hres : transCommit.result w with e | _
    · exact absurd h (herr e hres).2.2
    · rfl

/-- The world after a step of the cache. -/
def afterCache (w : World (CPageFile ps)) (c : World (CPageCache ps)) : World (CPageFile ps) :=
  ⟨{ w.obj with cache := c.obj }, c.os⟩

theorem wp_onCache {α : Type} {m : Op (CPageCache ps) α} {Q : α → World (CPageFile ps) → Prop}
    {E : WinError → World (CPageFile ps) → Prop} :
    (onCache m).wp Q E w ↔
      m.wp (fun a c => Q a (afterCache w c)) (fun e c => E e (afterCache w c))
        ⟨w.obj.cache, w.os⟩ :=
  Prog.wp_zoom _ _

/-- A request that wrote `bs` at `pos` changed nothing but the file `name`. -/
def Wrote (name : FileName) (pos : ℕ) (bs : List UInt8) (w w' : World (CPageFile ps)) : Prop :=
  ∃ a r, a <:+ w.os.allocs ∧ r <:+ w.os.ios ∧
    w' = ⟨w.obj, ({ w.os with allocs := a, ios := r } : Os).write name pos bs⟩

/-- A request for `bs` at `pos` failed and left some bytes there. -/
def Tore (name : FileName) (pos : ℕ) (bs : List UInt8) (w w' : World (CPageFile ps)) : Prop :=
  ∃ code torn, .fails code torn ∈ w.os.ios ∧ Wrote name pos (torn.take bs.length) w w'

theorem writeMap_spec (w : World (CPageFile ps)) (name : FileName) (pos : ℕ) :
    (writeMap name pos).wp
      (fun pos' w' => pos' = pos + (mapBytes w.obj).length ∧ Wrote name pos (mapBytes w.obj) w w')
      (fun _ w' => ¬w.os.Calm ∧ (Became w.obj.maps w w' ∧ w'.obj = w.obj ∨
        Tore name pos (mapBytes w.obj) w w')) w := by
  simp only [writeMap, Prog.wp_bind]
  refine wp_newMemory (fun a ha => ?_) (fun a hne ha =>
    ⟨fun hc => hne hc.1, Or.inl ⟨.allocs ha, rfl⟩⟩)
  simp only [Prog.wp_bind, wp_getObj]
  refine wp_fileWrite (fun r hr => ⟨rfl, a, r, ha, hr, rfl⟩) (fun r code torn hf hr => ?_)
  exact ⟨fun hc => by simp [hc.2] at hf, Or.inr ⟨code, torn, hf, a, r, ha, hr, rfl⟩⟩

theorem transCheckpoint_spec {F : Unit → World (CPageCache ps) → Prop}
    {G : WinError → World (CPageCache ps) → Prop}
    (hflush : CPageCache.flush.wp F G ⟨w.obj.cache, w.os⟩) (name : FileName) (pos : ℕ) :
    (transCheckpoint name pos).wp
      (fun pos' w' => w.obj.inTransaction = false ∧ ∃ c, F () c ∧
        ∃ w₁, Became w.obj.maps.checkpoint (afterCache w c) w₁ ∧
          pos' = pos + (mapBytes w₁.obj).length ∧ Wrote name pos (mapBytes w₁.obj) w₁ w')
      (fun e w' => w.obj.inTransaction = true ∧ w' = w ∨
        w.obj.inTransaction = false ∧ ((∃ c, G e c ∧ w' = afterCache w c) ∨
        ∃ c, F () c ∧ ¬c.os.Calm ∧ (Became w.obj.maps (afterCache w c) w' ∨
          Became w.obj.maps.strip (afterCache w c) w' ∨
          Became w.obj.maps.checkpoint (afterCache w c) w' ∨
          ∃ w₁, Became w.obj.maps.checkpoint (afterCache w c) w₁ ∧
            Tore name pos (mapBytes w₁.obj) w₁ w'))) w := by
  simp only [transCheckpoint, Prog.wp_bind, wp_getObj, Prog.wp_ite, Prog.wp_throw]
  refine ⟨fun hin => Or.inl ⟨hin, trivial⟩, fun hin => ?_⟩
  have hin' : w.obj.inTransaction = false := by simpa using hin
  rw [wp_onCache]
  refine Prog.wp_mono hflush (fun _ c hF => ?_) (fun e c hG => Or.inr ⟨hin', Or.inl ⟨c, hG, rfl⟩⟩)
  simp only [Prog.wp_bind, wp_getObj]
  have h₀ : Became w.obj.maps (afterCache w c) (afterCache w c) := Became.refl (afterCache w c)
  refine h₀.wp_reserve (fun w₁ h₁ _ c₁ => ?_)
    (fun w' h' _ hcalm => Or.inr ⟨hin', Or.inr ⟨c, hF, hcalm, Or.inl h'⟩⟩)
  have hfree : w₁.obj.physFreeListA.data = w.obj.physFreeListA.data :=
    congrArg (·.a.physFree) h₁.maps
  have hrepl : w₁.obj.replacedPagesA.data = w.obj.replacedPagesA.data :=
    congrArg (·.a.replaced) h₁.maps
  simp only [physFreeListAL, Vec.size, afterCache] at c₁
  simp only [Prog.wp_bind, wp_modifyObj]
  refine Prog.wp_mono (moveBack_spec (fun _ _ => rfl) (fun _ _ => rfl) (fun _ _ _ => rfl) _ ?_ ?_)
    (fun _ w₂ h₂ => ?_) (fun _ _ => False.elim)
  · simp only [replacedPagesAL, Vec.size, hrepl, afterCache]
    exact Nat.le_refl _
  · simp only [physFreeListAL, Vec.size, hfree, afterCache]
    omega
  obtain ⟨u, v, hu, hv, hcu, hcv, rfl⟩ := h₂
  simp only [replacedPagesAL, physFreeListAL, Vec.size, hrepl, hfree, Nat.sub_self, List.take_zero,
    List.drop_zero, afterCache] at hu hv hcu hcv
  simp only [Prog.wp_bind, Prog.wp_tryCatch]
  have hlen := w₁.obj.replacedPagesA.le_cap
  have h₃ : Became { w.obj.maps.checkpoint with b := w.obj.maps.b, deferred := w.obj.maps.deferred }
      (afterCache w c) _ := h₁.trans (.obj (s := replacedPagesAL.set u (physFreeListAL.set v
        { w₁.obj with pageMapA := w₁.obj.pageMapA.withData (stripHiBits w₁.obj.pageMapA.data) }))
      (by
        have hm := h₁.maps
        simp only [maps, Maps.mk.injEq, Generation.mk.injEq] at hm
        simp only [maps, replacedPagesAL, physFreeListAL, hu, hv, hm, Vec.data_withData,
          Maps.checkpoint, Maps.strip]) rfl rfl
      { CapsLe.refl w₁.obj with
        pageMapA := Vec.cap_le_cap_withData _ _
        physFreeListA := hcv
        replacedPagesA := hcu })
  refine Prog.wp_mono (resyncMaps_spec _) (fun _ w₃ h₄ => ?_) (fun _ w₃ h₄ => ?_)
  · refine Prog.wp_mono (writeMap_spec w₃ name pos) (fun _ w₄ h₅ => ?_) (fun _ w₄ h₅ => ?_)
    · exact ⟨hin', c, hF, w₃, h₃.andThen Maps.resync h₄.1, h₅⟩
    · have h₆ : Became w.obj.maps.checkpoint (afterCache w c) w₃ := h₃.andThen Maps.resync h₄.1
      have hcalm : ¬c.os.Calm := fun hc => h₅.1 (h₆.calm hc)
      refine Or.inr ⟨hin', Or.inr ⟨c, hF, hcalm, Or.inr (Or.inr ?_)⟩⟩
      rcases h₅.2 with ⟨h₅, -⟩ | h₅
      · exact Or.inl (h₆.andThen id h₅)
      · exact Or.inr ⟨w₃, h₆, h₅⟩
  · -- the copies failed, and the replaced pages move back to their list
    have h₅ := h₃.andThen id h₄.1
    have hm := h₅.maps
    simp only [id_eq, maps, Maps.mk.injEq, Generation.mk.injEq, Maps.checkpoint, Maps.strip] at hm
    have hcalm : ¬c.os.Calm := fun hc => h₄.2.2.1 (h₃.calm hc)
    have hsize : (afterCache w c).obj.replacedPagesA.data = w.obj.replacedPagesA.data := rfl
    simp only [Prog.wp_bind]
    refine Prog.wp_mono (moveBack_spec (fun _ _ => rfl) (fun _ _ => rfl) (fun _ _ _ => rfl) _ ?_ ?_)
      (fun _ w₄ h₆ => ?_) (fun _ _ => False.elim)
    · simp only [physFreeListAL, Vec.size, hm, hsize, List.length_append, List.length_reverse]
      omega
    · have hcap := h₅.caps.replacedPagesA
      have := w.obj.replacedPagesA.le_cap
      simp only [replacedPagesAL, Vec.size, hm, hrepl, afterCache, List.length_nil] at *
      omega
    · obtain ⟨u', v', hu', hv', hcu', hcv', rfl⟩ := h₆
      simp only [physFreeListAL, replacedPagesAL, Vec.size, hm, hsize, List.length_append,
        List.length_reverse, Nat.add_sub_cancel, List.take_left, List.drop_left,
        List.reverse_reverse, List.nil_append] at hu' hv' hcu' hcv'
      refine Or.inr ⟨hin', Or.inr ⟨c, hF, hcalm, Or.inr (Or.inl ?_)⟩⟩
      refine h₅.trans (.obj ?_ rfl rfl ?_)
      · simp only [maps, physFreeListAL, replacedPagesAL, hu', hv', hm, Maps.strip]
      · exact { CapsLe.refl w₃.obj with physFreeListA := hcu', replacedPagesA := hcv' }

end operations

end CPageFile

end NtAdmin.Wmi.PageMgr
