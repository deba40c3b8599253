import NtAdmin.Wmi.PageMgr.PageFileSpec

/-! What the page operations of a page file do to its maps. -/
namespace NtAdmin.Wmi.PageMgr

open NtAdmin.Lib

namespace Maps

/-- Page `id` is to be written to the given physical page, in place of the given map entry. -/
inductive PutPage (m : Maps) (id : ℕ) : ℕ × Option ℕ → Maps → Prop
  | again {physId : ℕ} : m.b.pageMap[id]? = some physId → physId ≠ invalidPage →
      physId &&& currentTransaction ≠ 0 → physId ≠ reservedPage →
      PutPage m id (merePageId physId, none) m
  | fresh {physId p : ℕ} {m' : Maps} : m.b.pageMap[id]? = some physId → physId ≠ invalidPage →
      (physId ≠ reservedPage → physId &&& currentTransaction = 0) → m.alloc = some (p, m') →
      PutPage m id (merePageId p, some physId) (m'.mapCurrent id p)

/-- The entry that `PutPage` has replaced is given up. -/
def release (m : Maps) : Option ℕ → Maps
  | none => m
  | some physId => m.retire physId

/-- `count` logical pages from the given one on become reserved. -/
inductive NewPage (m : Maps) (count : ℕ) : ℕ → Maps → Prop
  | reclaimOne {id : ℕ} : count = 1 → m.b.logicalFree.getLast? = some id →
      NewPage m count id (m.reclaimOne id)
  | reclaimRun {start : ℕ} :
      findRun (shellSort m.b.logicalFree) count ((shellSort m.b.logicalFree).length - 1) 0 1 0 =
        some start →
      NewPage m count ((shellSort m.b.logicalFree).getD start 0) (m.reclaimRun start count)
  | append : NewPage m count (m.b.pageMap.length % 2 ^ 32) (m.appendReserved count)
  | sortAppend : NewPage m count (m.b.pageMap.length % 2 ^ 32) (m.sortFree.appendReserved count)

end Maps

/-- The run of free ids that `ReclaimLogicalPages` takes. -/
def Maps.reclaimed (m : Maps) (count : ℕ) : Option (ℕ × Maps) :=
  if m.b.logicalFree.length < count then none
  else if count = 1 then m.b.logicalFree.getLast?.map fun id => (id, m.reclaimOne id)
  else
    let v := shellSort m.b.logicalFree
    (findRun v count (v.length - 1) 0 1 0).map fun start =>
      (v.getD start 0, m.reclaimRun start count)

theorem Maps.newPage_of_reclaimed {m m' : Maps} {count id : ℕ}
    (h : m.reclaimed count = some (id, m')) : m.NewPage count id m' := by
  unfold Maps.reclaimed at h
  split_ifs at h with hshort hone
  · obtain ⟨id', hlast, heq⟩ := Option.map_eq_some_iff.mp h
    cases heq
    exact .reclaimOne hone hlast
  · obtain ⟨start, hrun, heq⟩ := Option.map_eq_some_iff.mp h
    cases heq
    exact .reclaimRun hrun

namespace CPageFile
variable {ps : ℕ} {w : World (CPageFile ps)}

theorem wp_pushBack {l : Lens (CPageFile ps) (Vec ℕ)} {x : ℕ}
    {Q : Unit → World (CPageFile ps) → Prop} {E : WinError → World (CPageFile ps) → Prop}
    (h : (l.get w.obj).data.length < (l.get w.obj).cap)
    (hok : Q () ⟨l.set ((l.get w.obj).withData ((l.get w.obj).data ++ [x])) w.obj, w.os⟩) :
    (pushBack l x).wp Q E w := by
  simp only [pushBack, Prog.wp_bind, wp_getObj]
  exact wp_assign_of_le (by simpa [Nat.succ_le_iff] using h) hok

/-- The list that takes the physical page of a freed entry has a slot for it. -/
def Room (physId : ℕ) (s : CPageFile ps) : Prop :=
  if physId &&& currentTransaction ≠ 0 then s.physFreeListB.size < s.physFreeListB.cap
  else if physId &&& previousTransaction ≠ 0 then
    s.deferredFreeList.size < s.deferredFreeList.cap
  else s.replacedPagesB.size < s.replacedPagesB.cap

theorem freePageReserve_spec (w : World (CPageFile ps)) (physId : ℕ) :
    (freePageReserve physId).wp
      (fun _ w' => Became w.obj.maps w w' ∧ Room physId w'.obj ∧
        w'.obj.logicalFreeListB.size < w'.obj.logicalFreeListB.cap)
      (fun _ w' => Became w.obj.maps w w') w := by
  simp only [freePageReserve, Prog.wp_bind, wp_getObj]
  refine (Became.refl w).wp_reserve (fun w₁ h₁ _ c₁ => ?_) (fun w' h' _ _ => h')
  simp only [Prog.wp_bind]
  refine h₁.wp_reserve (fun w₂ h₂ k₂ c₂ => ?_) (fun w' h' _ _ => h')
  have hlog : ∀ w', Became w.obj.maps w w' → CapsLe w₂.obj w'.obj →
      w'.obj.logicalFreeListB.size < w'.obj.logicalFreeListB.cap := by
    intro w' h' k'
    have := (k₂.trans k').logicalFreeListB
    have hdata : w'.obj.logicalFreeListB.data = w.obj.logicalFreeListB.data :=
      congrArg (·.b.logicalFree) h'.maps
    simp only [logicalFreeListBL, Vec.size, hdata] at *
    omega
  simp only [Prog.wp_ite, Prog.wp_bind, Room]
  refine ⟨fun hcur => ?_, fun hcur => ⟨fun hprev => ?_, fun hprev => ?_⟩⟩
  · refine h₂.wp_reserve (fun w₃ h₃ k₃ c₃ => ?_) (fun w' h' _ _ => h')
    refine h₃.wp_reserve (fun w₄ h₄ k₄ _ => ⟨h₄, ?_, hlog w₄ h₄ (k₃.trans k₄)⟩)
      (fun w' h' _ _ => h')
    have := k₄.physFreeListB
    have hdata : w₄.obj.physFreeListB.data = w.obj.physFreeListB.data :=
      congrArg (·.b.physFree) h₄.maps
    simp only [hcur, if_true, physFreeListBL, Vec.size, hdata, ne_eq, not_false_eq_true] at *
    omega
  · refine h₂.wp_reserve (fun w₃ h₃ k₃ c₃ => ⟨h₃, ?_, hlog w₃ h₃ k₃⟩) (fun w' h' _ _ => h')
    have hdata : w₃.obj.deferredFreeList.data = w.obj.deferredFreeList.data :=
      congrArg (·.deferred) h₃.maps
    rw [if_neg hcur, if_pos hprev, Vec.size, hdata]
    exact c₃
  · refine h₂.wp_reserve (fun w₃ h₃ k₃ c₃ => ?_) (fun w' h' _ _ => h')
    refine h₃.wp_reserve (fun w₄ h₄ k₄ _ => ⟨h₄, ?_, hlog w₄ h₄ (k₃.trans k₄)⟩)
      (fun w' h' _ _ => h')
    have := k₄.replacedPagesB
    have hdata : w₄.obj.replacedPagesB.data = w.obj.replacedPagesB.data :=
      congrArg (·.b.replaced) h₄.maps
    simp only [hcur, hprev, if_false, replacedPagesBL, Vec.size, hdata] at *
    omega

theorem releasePhysPage_spec {physId : ℕ} (hroom : physId ≠ reservedPage → Room physId w.obj) :
    (releasePhysPage physId).wp (fun _ w' => Became (w.obj.maps.retire physId) w w')
      (fun _ _ => False) w := by
  simp only [releasePhysPage, Room, Maps.retire, Prog.wp_ite] at *
  refine ⟨fun hr => ?_, fun hr => ?_⟩
  · simpa only [hr, if_true, Prog.wp_pure] using Became.refl w
  have hroom := hroom hr
  simp only [hr, if_false]
  refine ⟨fun hcur => ?_, fun hcur => ⟨fun hprev => ?_, fun hprev => ?_⟩⟩
  · rw [if_pos hcur] at hroom ⊢
    exact wp_pushBack hroom (.obj rfl rfl rfl
      { CapsLe.refl w.obj with physFreeListB := Vec.cap_le_cap_withData _ _ })
  · rw [if_neg hcur, if_pos hprev] at hroom ⊢
    exact wp_pushBack hroom (.obj rfl rfl rfl
      { CapsLe.refl w.obj with deferredFreeList := Vec.cap_le_cap_withData _ _ })
  · rw [if_neg hcur, if_neg hprev] at hroom ⊢
    exact wp_pushBack hroom (.obj rfl rfl rfl
      { CapsLe.refl w.obj with replacedPagesB := Vec.cap_le_cap_withData _ _ })

theorem putPageRelease_spec {old : Option ℕ}
    (hold : ∀ physId, old = some physId → physId ≠ reservedPage →
      physId &&& currentTransaction = 0 ∧ Room physId w.obj) :
    (putPageRelease old).wp (fun _ w' => Became (w.obj.maps.release old) w w')
      (fun _ _ => False) w := by
  rcases old with _ | physId
  · exact Became.refl w
  have heq : (putPageRelease (some physId) : Op (CPageFile ps) Unit) = releasePhysPage physId := by
    simp only [putPageRelease, releasePhysPage]
    by_cases hr : physId = reservedPage
    · rw [if_pos hr, if_pos hr]
    · rw [if_neg hr, if_neg hr, if_neg (not_not.mpr (hold physId rfl hr).1)]
  rw [heq]
  exact releasePhysPage_spec fun hr => (hold physId rfl hr).2

theorem freePage_spec (w : World (CPageFile ps)) (id : ℕ) :
    (freePage id).wp
      (fun _ w' => w.obj.inTransaction = true ∧ ∃ physId,
        w.obj.pageMapB.data[id]? = some physId ∧ physId ≠ invalidPage ∧
          Became (w.obj.maps.freePage id physId) w w')
      (fun _ w' => Became w.obj.maps w w') w := by
  simp only [freePage, Prog.wp_bind, wp_getObj, Prog.wp_ite, Prog.wp_throw]
  refine ⟨fun _ => .refl w, fun hin => ?_⟩
  have hin' : w.obj.inTransaction = true := by simpa using hin
  rcases hid : w.obj.pageMapB.data[id]? with _ | physId
  · exact .refl w
  simp only [Prog.wp_bind, Prog.wp_ite, Prog.wp_throw]
  refine ⟨fun _ => .refl w, fun hinv => ?_⟩
  refine Prog.wp_mono (freePageReserve_spec w physId) (fun _ w₁ h₁ => ?_) (fun _ w' h' => h')
  obtain ⟨h₁, hroom, hlog⟩ := h₁
  simp only [Prog.wp_bind, wp_modifyObj]
  refine wp_pushBack hlog ?_
  have h₂ : Became { w.obj.maps with b := { w.obj.maps.b with
      pageMap := w.obj.maps.b.pageMap.set id invalidPage
      logicalFree := w.obj.maps.b.logicalFree ++ [merePageId id] } } w _ :=
    h₁.trans (.obj (s := logicalFreeListBL.set (w₁.obj.logicalFreeListB.withData
        (w₁.obj.logicalFreeListB.data ++ [merePageId id]))
      { w₁.obj with
        pageMapB := w₁.obj.pageMapB.withData (w₁.obj.pageMapB.data.set id invalidPage) })
      (by rw [← h₁.maps]; rfl) rfl rfl
      { CapsLe.refl w₁.obj with
        pageMapB := Vec.cap_le_cap_withData _ _
        logicalFreeListB := Vec.cap_le_cap_withData _ _ })
  refine Prog.wp_mono (releasePhysPage_spec ?_) (fun _ w₃ h₃ => ⟨hin', physId, rfl, hinv, ?_⟩)
    (fun _ _ => False.elim)
  · exact fun _ => hroom
  · exact h₂.andThen (·.retire physId) h₃

theorem allocPhysPage_spec (w : World (CPageFile ps)) :
    allocPhysPage.wp (fun p w' => ∃ m, w.obj.maps.alloc = some (p, m) ∧ Became m w w')
      (fun _ w' => Became w.obj.maps w w') w := by
  simp only [allocPhysPage, Prog.wp_bind, wp_getObj, Prog.wp_ite, Prog.wp_throw, Prog.wp_pure,
    wp_modifyObj]
  have hnil : w.obj.maps.b.physFree = [] ↔ w.obj.physFreeListB.size = 0 :=
    List.length_eq_zero_iff.symm
  refine ⟨fun hempty => ⟨fun _ => .refl w, fun hfull => ?_⟩, fun hempty => ?_⟩
  · refine ⟨_, by rw [Maps.alloc, if_pos (hnil.mpr hempty)]; exact if_neg hfull, ?_⟩
    exact .obj rfl rfl rfl { CapsLe.refl w.obj with }
  · refine wp_assign_of_le ?_ ?_
    · have := w.obj.physFreeListB.le_cap
      exact Nat.le_trans (List.length_eraseIdx_le _ _) this
    · refine ⟨_, by rw [Maps.alloc, if_neg (mt hnil.mp hempty)]; rfl, ?_⟩
      exact .obj rfl rfl rfl
        { CapsLe.refl w.obj with physFreeListB := Vec.cap_le_cap_withData _ _ }

theorem remapPage_spec (w : World (CPageFile ps)) (id : ℕ) :
    (remapPage id).wp
      (fun p w' => ∃ m, w.obj.maps.alloc = some (p, m) ∧ Became (m.mapCurrent id p) w w')
      (fun _ w' => Became w.obj.maps w w') w := by
  simp only [remapPage, Prog.wp_bind]
  refine Prog.wp_mono (allocPhysPage_spec w) (fun p w₁ h₁ => ?_) (fun _ _ => fun h => h)
  obtain ⟨m, hm, h₁⟩ := h₁
  simp only [Prog.wp_bind, wp_modifyObj, Prog.wp_pure]
  exact ⟨m, hm, h₁.andThen (·.mapCurrent id p)
    (.obj rfl rfl rfl { CapsLe.refl w₁.obj with pageMapB := Vec.cap_le_cap_withData _ _ })⟩

theorem alloc_fields {m m' : Maps} {p : ℕ} (h : m.alloc = some (p, m')) (id : ℕ) :
    (m'.mapCurrent id p).deferred = m.deferred ∧
      (m'.mapCurrent id p).b.replaced = m.b.replaced := by
  unfold Maps.alloc at h
  split_ifs at h <;> cases h <;> exact ⟨rfl, rfl⟩

theorem Room.congr {physId : ℕ} {s s' : CPageFile ps} (h : Room physId s)
    (hcur : physId &&& currentTransaction = 0) (hk : CapsLe s s')
    (hd : s'.maps.deferred = s.maps.deferred) (hr : s'.maps.b.replaced = s.maps.b.replaced) :
    Room physId s' := by
  have h₁ := hk.deferredFreeList
  have h₂ := hk.replacedPagesB
  simp only [maps] at hd hr
  simp only [Room, hcur, Vec.size, hd, hr, ne_eq, not_true_eq_false, if_false] at *
  split_ifs at * <;> omega

theorem putPageReserve_spec (w : World (CPageFile ps)) {physId : ℕ}
    (hcur : physId ≠ reservedPage → physId &&& currentTransaction = 0) :
    (putPageReserve physId).wp
      (fun _ w' => Became w.obj.maps w w' ∧ (physId ≠ reservedPage → Room physId w'.obj))
      (fun _ w' => Became w.obj.maps w w') w := by
  simp only [putPageReserve, Prog.wp_bind, wp_getObj, Prog.wp_ite, Prog.wp_pure]
  refine ⟨fun hr => ⟨.refl w, absurd hr⟩, fun hr => ⟨fun hprev => ?_, fun hprev => ?_⟩⟩
  · refine (Became.refl w).wp_reserve (fun w₁ h₁ k₁ c₁ => ⟨h₁, fun _ => ?_⟩) (fun _ h' _ _ => h')
    have hdata : w₁.obj.deferredFreeList.data = w.obj.deferredFreeList.data :=
      congrArg (·.deferred) h₁.maps
    rw [Room, if_neg (not_not.mpr (hcur hr)), if_pos hprev, Vec.size, hdata]
    exact c₁
  · refine (Became.refl w).wp_reserve (fun w₁ h₁ k₁ c₁ => ?_) (fun _ h' _ _ => h')
    refine h₁.wp_reserve (fun w₂ h₂ k₂ _ => ⟨h₂, fun _ => ?_⟩) (fun _ h' _ _ => h')
    have hdata : w₂.obj.replacedPagesB.data = w.obj.replacedPagesB.data :=
      congrArg (·.b.replaced) h₂.maps
    rw [Room, if_neg (not_not.mpr (hcur hr)), if_neg hprev, Vec.size, hdata]
    exact Nat.lt_of_lt_of_le c₁ k₂.replacedPagesB

theorem Became.afterCache {w₁ : World (CPageFile ps)} {m : Maps} (h : Became m w w₁)
    (c : World (CPageCache ps)) : (CPageFile.afterCache w₁ c).obj.maps = m := h.maps

theorem capsLe_afterCache (w : World (CPageFile ps)) (c : World (CPageCache ps)) :
    CapsLe w.obj (afterCache w c).obj := { CapsLe.refl w.obj with }

theorem putPageTarget_spec (w : World (CPageFile ps)) (id : ℕ) :
    (putPageTarget id).wp
      (fun r w' => w.obj.inTransaction = true ∧
        (∃ m, w.obj.maps.PutPage id r m ∧ Became m w w') ∧
        ∀ physId, r.2 = some physId → physId ≠ reservedPage →
          physId &&& currentTransaction = 0 ∧ Room physId w'.obj)
      (fun _ w' => Became w.obj.maps w w') w := by
  simp only [putPageTarget, Prog.wp_bind, wp_getObj, Prog.wp_ite, Prog.wp_throw]
  refine ⟨fun _ => .refl w, fun hin => ?_⟩
  have hin' : w.obj.inTransaction = true := by simpa using hin
  refine wp_newMemory (fun a ha => ?_) (fun a _ ha => .allocs ha)
  have h₀ : Became w.obj.maps w _ := .allocs ha
  rcases hid : w.obj.pageMapB.data[id]? with _ | physId
  · exact h₀
  simp only [Prog.wp_bind, Prog.wp_ite, Prog.wp_throw, Prog.wp_pure]
  refine ⟨fun _ => h₀, fun hinv => ⟨fun hcur => ?_, fun hcur => ?_⟩⟩
  · exact ⟨hin', ⟨_, .again hid hinv hcur.1 hcur.2, h₀⟩, fun _ h => by cases h⟩
  have hcur' : physId ≠ reservedPage → physId &&& currentTransaction = 0 := fun hr => by
    by_contra hne
    exact hcur ⟨hne, hr⟩
  refine Prog.wp_mono (putPageReserve_spec _ hcur') (fun _ w₁ h₁ => ?_)
    (fun _ w₁ h₁ => h₀.andThen (fun m => m) h₁)
  obtain ⟨h₁, hroom⟩ := h₁
  have h₁ : Became w.obj.maps w w₁ := h₀.andThen (fun m => m) h₁
  simp only [Prog.wp_bind]
  refine Prog.wp_mono (remapPage_spec w₁ id) (fun p w₂ h₂ => ?_)
    (fun _ w₂ h₂ => h₁.andThen (fun m => m) h₂)
  obtain ⟨m, hm, h₂⟩ := h₂
  rw [h₁.maps] at hm
  refine ⟨hin', ⟨_, .fresh hid hinv hcur' hm, h₁.trans h₂⟩, ?_⟩
  rintro _ ⟨⟩ hr
  have halloc := alloc_fields hm id
  refine ⟨hcur' hr, Room.congr (hroom hr) (hcur' hr) h₂.caps ?_ ?_⟩
  · rw [h₂.maps, h₁.maps]
    exact halloc.1
  · rw [h₂.maps, h₁.maps]
    exact halloc.2

theorem putPage_spec (w : World (CPageFile ps)) (id : ℕ) (page : Page ps)
    {F : ℕ × Option ℕ → World (CPageFile ps) → World (CPageCache ps) → Prop}
    {G : ℕ × Option ℕ → World (CPageFile ps) → WinError → World (CPageCache ps) → Prop}
    (hwrite : (putPageTarget id).wp
      (fun r w₁ => (CPageCache.write r.1 page).wp (fun _ => F r w₁) (G r w₁)
        ⟨w₁.obj.cache, w₁.os⟩) (fun _ _ => True) w) :
    (putPage id page).wp
      (fun _ w' => w.obj.inTransaction = true ∧ ∃ r m w₁ c, w.obj.maps.PutPage id r m ∧
        Became m w w₁ ∧ F r w₁ c ∧ Became (m.release r.2) (afterCache w₁ c) w')
      (fun _ w' => Became w.obj.maps w w' ∨ w.obj.inTransaction = true ∧ ∃ r m w₁ e c,
        w.obj.maps.PutPage id r m ∧ Became m w w₁ ∧ G r w₁ e c ∧ w' = afterCache w₁ c) w := by
  simp only [putPage, Prog.wp_bind]
  refine Prog.wp_mono (Prog.wp_and (putPageTarget_spec w id) hwrite) (fun r w₁ h => ?_)
    (fun _ w' h => Or.inl h.1)
  obtain ⟨⟨hin, ⟨m, hput, h₁⟩, hold⟩, hw⟩ := h
  simp only [Prog.wp_bind]
  rw [wp_onCache]
  refine Prog.wp_mono hw (fun _ c hF => ?_)
    (fun e c hG => Or.inr ⟨hin, r, m, w₁, e, c, hput, h₁, hG, rfl⟩)
  have hroom : ∀ physId, r.2 = some physId → physId ≠ reservedPage →
      physId &&& currentTransaction = 0 ∧ Room physId (afterCache w₁ c).obj := by
    intro physId h hr
    obtain ⟨hcur, hroom⟩ := hold physId h hr
    exact ⟨hcur, hroom.congr hcur (capsLe_afterCache w₁ c) rfl rfl⟩
  refine Prog.wp_mono (putPageRelease_spec hroom) (fun _ w₂ h₂ => ?_) (fun _ _ => False.elim)
  rw [h₁.afterCache c] at h₂
  exact ⟨hin, r, m, w₁, c, hput, h₁, hF, h₂⟩

theorem reclaimLogicalPages_reclaimed (w : World (CPageFile ps)) (count : ℕ) :
    (reclaimLogicalPages count).wp
      (fun id w' => ∃ m, w.obj.maps.reclaimed count = some (id, m) ∧ Became m w w')
      (fun e w' => e = .notFound ∧ w.obj.maps.reclaimed count = none ∧
        (Became w.obj.maps w w' ∨ Became w.obj.maps.sortFree w w')) w := by
  have hfree : w.obj.maps.b.logicalFree = w.obj.logicalFreeListB.data := rfl
  simp only [reclaimLogicalPages, Prog.wp_bind, wp_getObj, Prog.wp_ite, Prog.wp_throw,
    Maps.reclaimed, hfree]
  refine ⟨fun hshort => ⟨trivial, if_pos hshort, Or.inl (.refl w)⟩, fun hlong => ?_⟩
  rw [if_neg (show ¬w.obj.logicalFreeListB.data.length < count from hlong)]
  refine ⟨fun hone => ?_, fun hone => ?_⟩
  · rw [if_pos hone]
    rcases hlast : w.obj.logicalFreeListB.data.getLast? with _ | id
    · exact ⟨rfl, rfl, Or.inl (.refl w)⟩
    · simp only [Prog.wp_bind, wp_modifyObj, Prog.wp_pure]
      refine ⟨_, rfl, .obj rfl rfl rfl ?_⟩
      exact { CapsLe.refl w.obj with
        pageMapB := Vec.cap_le_cap_withData _ _
        logicalFreeListB := Vec.cap_le_cap_withData _ _ }
  · rw [if_neg hone]
    simp only [wp_modifyObj]
    have hsort : Became w.obj.maps.sortFree w ⟨{ w.obj with
        logicalFreeListB := w.obj.logicalFreeListB.withData (shellSort w.obj.logicalFreeListB.data) },
        w.os⟩ :=
      .obj rfl rfl rfl { CapsLe.refl w.obj with logicalFreeListB := Vec.cap_le_cap_withData _ _ }
    rcases hrun : findRun (shellSort w.obj.logicalFreeListB.data) count
      ((shellSort w.obj.logicalFreeListB.data).length - 1) 0 1 0 with _ | start
    · exact ⟨rfl, rfl, Or.inr hsort⟩
    · simp only [Prog.wp_bind, wp_modifyObj, Prog.wp_pure]
      refine ⟨_, rfl, hsort.trans (.obj rfl rfl rfl ?_)⟩
      exact { CapsLe.refl w.obj with
        pageMapB := Vec.cap_le_cap_withData _ _
        logicalFreeListB := Vec.cap_le_cap_withData _ _ }

theorem reclaimLogicalPages_spec (w : World (CPageFile ps)) (count : ℕ) :
    (reclaimLogicalPages count).wp
      (fun id w' => ∃ m, w.obj.maps.NewPage count id m ∧ Became m w w')
      (fun e w' => e = .notFound ∧ (Became w.obj.maps w w' ∨ Became w.obj.maps.sortFree w w')) w := by
  refine Prog.wp_mono (reclaimLogicalPages_reclaimed w count) (fun id w' h => ?_) (fun e w' h => ?_)
  · obtain ⟨m, hm, hbecame⟩ := h
    exact ⟨m, Maps.newPage_of_reclaimed hm, hbecame⟩
  · obtain ⟨he, -, hbecame⟩ := h
    exact ⟨he, hbecame⟩

theorem appendReserved_spec (w : World (CPageFile ps)) (n : ℕ)
    (hcap : w.obj.pageMapB.size + n ≤ w.obj.pageMapB.cap) :
    (appendReserved n).wp (fun _ w' => Became (w.obj.maps.appendReserved n) w w')
      (fun _ _ => False) w := by
  induction n generalizing w with
  | zero => simpa [appendReserved, Maps.appendReserved] using Became.refl w
  | succ n ih =>
    simp only [appendReserved, Prog.wp_bind]
    refine wp_pushBack (by simp only [pageMapBL, Vec.size] at *; omega) ?_
    refine Prog.wp_mono (ih _ ?_) (fun _ w₁ h₁ => ?_) (fun _ _ => False.elim)
    · have := Vec.cap_le_cap_withData w.obj.pageMapB (w.obj.pageMapB.data ++ [reservedPage])
      simp only [pageMapBL, Vec.size, Vec.data_withData, List.length_append,
        List.length_singleton] at *
      omega
    · have h₀ : Became (w.obj.maps.appendReserved 1) w _ := .obj (s := pageMapBL.set
          (w.obj.pageMapB.withData (w.obj.pageMapB.data ++ [reservedPage])) w.obj) rfl rfl rfl
        { CapsLe.refl w.obj with pageMapB := Vec.cap_le_cap_withData _ _ }
      have h₂ := h₀.andThen (·.appendReserved n) h₁
      simpa [Maps.appendReserved, List.replicate_succ] using h₂

theorem extendMap_spec (w : World (CPageFile ps)) (count : ℕ) :
    (extendMap count).wp
      (fun id w' => id = w.obj.maps.b.pageMap.length % 2 ^ 32 ∧
        Became (w.obj.maps.appendReserved count) w w')
      (fun _ w' => Became w.obj.maps w w') w := by
  simp only [extendMap, Prog.wp_bind, wp_getObj]
  refine (Became.refl w).wp_reserve (fun w₁ h₁ _ c₁ => ?_) (fun _ h' _ _ => h')
  simp only [Prog.wp_bind]
  refine h₁.wp_reserve (fun w₂ h₂ k₂ _ => ?_) (fun _ h' _ _ => h')
  simp only [Prog.wp_bind]
  refine Prog.wp_mono (appendReserved_spec w₂ count ?_)
    (fun _ w₃ h₃ => ⟨rfl, h₂.andThen (·.appendReserved count) h₃⟩) (fun _ _ => False.elim)
  have hdata : w₂.obj.pageMapB.data = w.obj.pageMapB.data := congrArg (·.b.pageMap) h₂.maps
  have := k₂.pageMapB
  simp only [pageMapBL, Vec.size, hdata] at *
  omega

theorem newPage_spec (w : World (CPageFile ps)) (count : ℕ) :
    (newPage count).wp
      (fun id w' => w.obj.inTransaction = true ∧ ∃ m, w.obj.maps.NewPage count id m ∧ Became m w w')
      (fun _ w' => Became w.obj.maps w w' ∨
        w.obj.inTransaction = true ∧ Became w.obj.maps.sortFree w w') w := by
  simp only [newPage, Prog.wp_bind, wp_getObj, Prog.wp_ite, Prog.wp_throw, Prog.wp_tryCatch]
  refine ⟨fun _ => Or.inl (.refl w), fun hin => ?_⟩
  have hin' : w.obj.inTransaction = true := by simpa using hin
  refine Prog.wp_mono (reclaimLogicalPages_spec w count) (fun _ _ h₁ => ⟨hin', h₁⟩) (fun e w₁ h₁ => ?_)
  obtain ⟨rfl, h₁⟩ := h₁
  simp only [Prog.wp_bind, Prog.wp_ite, Prog.wp_throw]
  refine ⟨fun hne => absurd rfl hne, fun _ => ?_⟩
  rcases h₁ with h₁ | h₁
  · refine Prog.wp_mono (extendMap_spec w₁ count) (fun id w₂ h₂ => ?_)
      (fun _ _ h₂ => Or.inl (h₁.andThen (fun m => m) h₂))
    rw [h₁.maps] at h₂
    exact ⟨hin', _, h₂.1 ▸ .append, h₁.trans h₂.2⟩
  · refine Prog.wp_mono (extendMap_spec w₁ count) (fun id w₂ h₂ => ?_)
      (fun _ _ h₂ => Or.inr ⟨hin', h₁.andThen (fun m => m) h₂⟩)
    rw [h₁.maps] at h₂
    exact ⟨hin', _, h₂.1 ▸ .sortAppend, h₁.trans h₂.2⟩

end CPageFile

end NtAdmin.Wmi.PageMgr
