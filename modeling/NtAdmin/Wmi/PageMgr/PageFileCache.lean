import NtAdmin.Wmi.PageMgr.Isolation

/-! What the calls of a page file do to the pages in its cache and its data file. -/
namespace NtAdmin.Wmi.PageMgr

open NtAdmin.Lib

variable {ps : ℕ}

/-- The cache of a page file with the files under it. -/
def cacheWorld (w : World (CPageFile ps)) : World (CPageCache ps) := ⟨w.obj.cache, w.os⟩

/-- The pages of the file are below 4 GiB. -/
theorem inRange_of_lt {p n : ℕ} (hps : ps ≤ wmirepPageSize) (hp : p < n) (hn : n ≤ maxNumPages) :
    InRange ps p := by
  have hle : ps * (p + 1) ≤ wmirepPageSize * maxNumPages :=
    Nat.mul_le_mul hps (Nat.le_trans hp hn)
  exact Nat.le_trans hle (by decide)

namespace CPageCache
variable {c c' c'' : World (CPageCache ps)} {D : ℕ → Prop} {id : ℕ}

/-- Only the pages in `D` may have changed. -/
structure Kept (D : ℕ → Prop) (c c' : World (CPageCache ps)) : Prop where
  inv : Inv c'
  hFile : c'.obj.hFile = c.obj.hFile
  os : OsKept ps c.obj.hFile (fun j => Dirty c.obj j ∨ D j) c.os c'.os
  dirty : ∀ j, Dirty c'.obj j → Dirty c.obj j ∨ D j
  view : ∀ j p, ¬D j → InRange ps j → view c j = some p → view c' j = some p

theorem Step.kept (h : Step c c') : Kept D c c' :=
  ⟨h.inv, h.hFile, h.os.mono fun _ => Or.inl, fun j hd => Or.inl (h.dirty j hd),
    fun j p _ => h.view j p⟩

theorem WriteStep.kept (h : WriteStep id c c') : Kept (fun j => j = id) c c' :=
  ⟨h.inv, h.hFile, h.os, h.dirty, h.view⟩

theorem Kept.trans (h : Kept D c c') (h' : Kept D c' c'') : Kept D c c'' where
  inv := h'.inv
  hFile := h'.hFile.trans h.hFile
  os := h.os.trans (h.hFile ▸ h'.os.mono fun j hj => hj.elim (h.dirty j) Or.inr)
  dirty j hd := (h'.dirty j hd).elim (h.dirty j) Or.inr
  view j p hj hr hp := h'.view j p hj hr (h.view j p hj hr hp)

theorem Kept.mono {D' : ℕ → Prop} (h : Kept D c c') (hD : ∀ j, D j → D' j) : Kept D' c c' :=
  ⟨h.inv, h.hFile, h.os.mono fun j => Or.imp_right (hD j), fun j hd => (h.dirty j hd).imp_right (hD j),
    fun j p hj => h.view j p (mt (hD j) hj)⟩

/-- The cache depends on its data file only. -/
theorem view_congr (hobj : c'.obj = c.obj) (hfile : file c' = file c) (j : ℕ) :
    view c' j = view c j := by
  simp only [view, hobj, hfile]

theorem Inv.congr (h : Inv c) (hobj : c'.obj = c.obj) (hfile : file c' = file c) : Inv c' :=
  ⟨h.pos, hobj ▸ h.size, hobj ▸ h.nodup, hobj ▸ h.inRange, by rw [hobj, hfile]; exact h.clean⟩

end CPageCache

namespace CPageFile
variable {w w' : World (CPageFile ps)} {m : Maps}
open CPageCache (Inv Kept Step)

theorem Became.cacheStep (h : Became m w w') (hi : Inv (cacheWorld w)) :
    Step (cacheWorld w) (cacheWorld w') := by
  obtain ⟨a, ha, ho⟩ := h.os
  have heq : cacheWorld w' = ⟨(cacheWorld w).obj, { (cacheWorld w).os with allocs := a }⟩ := by
    rw [cacheWorld, h.cache, ho]
    rfl
  rw [heq]
  exact .allocs hi ha

theorem Wrote.cache {name : FileName} {pos : ℕ} {bs : List UInt8} (h : Wrote name pos bs w w')
    (hne : name ≠ w.obj.cache.hFile) : (cacheWorld w').obj = (cacheWorld w).obj ∧
      CPageCache.file (cacheWorld w') = CPageCache.file (cacheWorld w) := by
  obtain ⟨a, r, -, -, rfl⟩ := h
  exact ⟨rfl, Function.update_of_ne (Ne.symm hne) _ _⟩

theorem getPage_kept (hps : ps ≤ wmirepPageSize) (hi : Inv (cacheWorld w))
    (hb : w.obj.maps.b.Apart w.obj.maps.deferred) (id : ℕ) :
    Step (cacheWorld w) (cacheWorld ((getPage id).after w)) := by
  refine Prog.after_of_wp (P := fun w' => Step (cacheWorld w) (cacheWorld w')) ?_
  simp only [getPage, Prog.wp_bind, wp_getObj]
  rcases hid : w.obj.pageMapB.data[id]? with _ | physId
  · exact .refl hi
  · simp only [Prog.wp_bind, Prog.wp_ite, Prog.wp_throw]
    refine ⟨fun _ => .refl hi, fun hne => ?_⟩
    have hmem : merePageId physId ∈ mappedIds w.obj.maps.b.pageMap := mem_mappedIds.mpr
      ⟨physId, List.mem_of_getElem? hid, mt Or.inl hne, mt Or.inr hne, rfl⟩
    have hr := inRange_of_lt hps (hb.mem_lt (Or.inl hmem)) hb.pages
    rw [wp_onCache]
    exact Prog.wp_mono (CPageCache.read_spec hi hr) (fun _ _ h => h.1) (fun _ _ h => h.1)

theorem putPage_kept (hi : Inv (cacheWorld w)) (id : ℕ) (page : Page ps)
    (hr : ∀ r m, w.obj.inTransaction = true → w.obj.maps.PutPage id r m → InRange ps r.1) :
    Step (cacheWorld w) (cacheWorld ((putPage id page).after w)) ∨
      ∃ r m, w.obj.inTransaction = true ∧ w.obj.maps.PutPage id r m ∧
        Kept (fun j => j = r.1) (cacheWorld w) (cacheWorld ((putPage id page).after w)) := by
  have hwrite : (putPageTarget id).wp (fun r w₁ => (CPageCache.write r.1 page).wp
      (fun _ c => Kept (fun j => j = r.1) (cacheWorld w) c)
      (fun _ c => Kept (fun j => j = r.1) (cacheWorld w) c) ⟨w₁.obj.cache, w₁.os⟩)
      (fun _ _ => True) w := by
    refine Prog.wp_mono (putPageTarget_spec w id) (fun r w₁ h => ?_) (fun _ _ _ => trivial)
    obtain ⟨hin, ⟨m, hput, h₁⟩, -⟩ := h
    have hstep := h₁.cacheStep hi
    exact Prog.wp_mono (CPageCache.write_spec hstep.inv (hr r m hin hput) page)
      (fun _ _ h => hstep.kept.trans h.1.kept) (fun _ _ h => hstep.kept.trans h.1.kept)
  refine Prog.after_of_wp (P := fun w' => Step (cacheWorld w) (cacheWorld w') ∨
      ∃ r m, w.obj.inTransaction = true ∧ w.obj.maps.PutPage id r m ∧
        Kept (fun j => j = r.1) (cacheWorld w) (cacheWorld w'))
    (Prog.wp_mono (putPage_spec w id page hwrite) (fun _ w' h => ?_) (fun _ w' h => ?_))
  · obtain ⟨hin, r, m, w₁, c, hput, -, hk, h⟩ := h
    exact Or.inr ⟨r, m, hin, hput, hk.trans (h.cacheStep hk.inv).kept⟩
  · rcases h with h | ⟨hin, r, m, w₁, e, c, hput, -, hk, rfl⟩
    · exact Or.inl (h.cacheStep hi)
    · exact Or.inr ⟨r, m, hin, hput, hk⟩

/-- A checkpoint writes the dirty pages and then the map file. -/
theorem transCheckpoint_kept (hi : Inv (cacheWorld w)) {hFile : FileName}
    (hne : hFile ≠ w.obj.cache.hFile) (pos : ℕ) :
    Inv (cacheWorld ((transCheckpoint hFile pos).after w)) ∧
      ((transCheckpoint hFile pos).after w).obj.cache.hFile = w.obj.cache.hFile ∧
      ∀ j p, InRange ps j → CPageCache.view (cacheWorld w) j = some p →
        CPageCache.view (cacheWorld ((transCheckpoint hFile pos).after w)) j = some p := by
  have hflush : CPageCache.flush.wp (fun _ c => Step (cacheWorld w) c)
      (fun _ c => Step (cacheWorld w) c) ⟨w.obj.cache, w.os⟩ :=
    Prog.wp_mono (CPageCache.flush_spec hi) (fun _ _ h => h.1) (fun _ _ h => h.1)
  have hstep : ∀ w', Step (cacheWorld w) (cacheWorld w') → Inv (cacheWorld w') ∧
      w'.obj.cache.hFile = w.obj.cache.hFile ∧ ∀ j p, InRange ps j →
        CPageCache.view (cacheWorld w) j = some p → CPageCache.view (cacheWorld w') j = some p :=
    fun _ h => ⟨h.inv, h.hFile, h.view⟩
  have hwrote : ∀ {bs w₁ w'}, Wrote hFile pos bs w₁ w' → Step (cacheWorld w) (cacheWorld w₁) →
      Inv (cacheWorld w') ∧ w'.obj.cache.hFile = w.obj.cache.hFile ∧ ∀ j p, InRange ps j →
        CPageCache.view (cacheWorld w) j = some p →
          CPageCache.view (cacheWorld w') j = some p := by
    intro bs w₁ w' hw hs
    have hf : w₁.obj.cache.hFile = w.obj.cache.hFile := hs.hFile
    obtain ⟨hobj, hfile⟩ := hw.cache (hf ▸ hne)
    refine ⟨hs.inv.congr hobj hfile, (congrArg CPageCache.hFile hobj).trans hf, fun j p hr hp => ?_⟩
    rw [CPageCache.view_congr hobj hfile]
    exact hs.view j p hr hp
  refine Prog.after_of_wp (P := fun w' => Inv (cacheWorld w') ∧
      w'.obj.cache.hFile = w.obj.cache.hFile ∧ ∀ j p, InRange ps j →
        CPageCache.view (cacheWorld w) j = some p → CPageCache.view (cacheWorld w') j = some p)
    (Prog.wp_mono (transCheckpoint_spec hflush hFile pos) (fun _ w' h => ?_) (fun _ w' h => ?_))
  · obtain ⟨-, c, hs, w₁, h₁, -, h⟩ := h
    exact hwrote h (hs.trans (h₁.cacheStep hs.inv))
  · rcases h with ⟨-, rfl⟩ | ⟨-, ⟨c, hs, rfl⟩ | ⟨c, hs, -, h | h | h | ⟨w₁, h₁, _, _, -, h⟩⟩⟩
    · exact hstep _ (.refl hi)
    · exact hstep _ hs
    · exact hstep _ (hs.trans (h.cacheStep hs.inv))
    · exact hstep _ (hs.trans (h.cacheStep hs.inv))
    · exact hstep _ (hs.trans (h.cacheStep hs.inv))
    · exact hwrote h (hs.trans (h₁.cacheStep hs.inv))

end CPageFile

end NtAdmin.Wmi.PageMgr
