import NtAdmin.Wmi.PageMgr.PageCacheSpec

/-! The pages a cache holds after a write, a flush or an eviction of everything. -/
namespace NtAdmin.Wmi.PageMgr

open NtAdmin.Lib

variable {ps : ℕ}

namespace CPageCache
variable {w w₁ w' : World (CPageCache ps)} {t : SCachePage ps} {id : ℕ}

/-- A write of the page `id`, successful or not, as far as the other pages go. -/
structure WriteStep (id : ℕ) (w w' : World (CPageCache ps)) : Prop where
  inv : Inv w'
  hFile : w'.obj.hFile = w.obj.hFile
  size : w'.obj.cacheSize = w.obj.cacheSize
  counter : w'.obj.writesSinceFlush = (w.obj.writesSinceFlush + 1) % 2 ^ 32 ∨
    w'.obj.writesSinceFlush = 0 ∧ ∀ j, ¬Dirty w'.obj j
  os : OsKept ps w.obj.hFile (fun j => Dirty w.obj j ∨ j = id) w.os w'.os
  dirty : ∀ j, Dirty w'.obj j → Dirty w.obj j ∨ j = id
  view : ∀ j p, j ≠ id → InRange ps j → view w j = some p → view w' j = some p

theorem WriteStep.trans_step (h : WriteStep id w w₁) (h' : Step w₁ w') : WriteStep id w w' where
  inv := h'.inv
  hFile := h'.hFile.trans h.hFile
  size := h'.size.trans h.size
  counter := by
    rcases h'.counter with heq | h0
    · rcases h.counter with heq' | ⟨h0, hd⟩
      · exact Or.inl (heq.trans heq')
      · exact Or.inr ⟨heq.trans h0, fun j => mt (h'.dirty j) (hd j)⟩
    · exact Or.inr h0
  os := h.os.trans (h.hFile ▸ h'.os.mono h.dirty)
  dirty j hd := h.dirty j (h'.dirty j hd)
  view j p hj hr hp := h'.view j p hr (h.view j p hj hr hp)

/-- The write is counted before anything else happens. -/
def counted (w : World (CPageCache ps)) : World (CPageCache ps) :=
  ⟨{ w.obj with writesSinceFlush := (w.obj.writesSinceFlush + 1) % 2 ^ 32 }, w.os⟩

theorem counted_inv (h : Inv w) : Inv (counted w) := ⟨h.pos, h.size, h.nodup, h.inRange, h.clean⟩

theorem WriteStep.of_step (h : Step (counted w) w') : WriteStep id w w' :=
  ⟨h.inv, h.hFile, h.size, h.counter, h.os.mono fun _ => Or.inl, fun j hd => Or.inl (h.dirty j hd),
    fun j p _ hr hp => h.view j p hr hp⟩

/-- A write of a page that is not cached yet. -/
theorem WriteStep.of_front {a : List (Option ℕ)} (ha : a <:+ w.os.allocs)
    (h : Insertable ⟨(counted w).obj, { w.os with allocs := a }⟩ t)
    (hf : Front t ⟨(counted w).obj, { w.os with allocs := a }⟩ w₁) :
    WriteStep t.physId w w₁ := by
  have hinv := hf.inv h
  obtain ⟨v, a', hv, ha', rfl⟩ := hf
  refine ⟨hinv, rfl, rfl, Or.inl rfl, .allocs_eq (ha'.trans ha), fun j => ?_,
    fun j p hj _ hp => ?_⟩
  · rintro ⟨u, hu, hid, hud⟩
    rw [hv] at hu
    rcases List.mem_cons.mp hu with rfl | hu
    · exact Or.inr hid.symm
    · exact Or.inl ⟨u, hu, hid, hud⟩
  · unfold CPageCache.view find at hp ⊢
    simp only [hv, List.find?_cons, beq_eq_false_iff_ne.mpr (Ne.symm hj)]
    exact hp

theorem view_front (h : Insertable w t) (hf : Front t w w₁) : view w₁ t.physId = some t.page := by
  have hn := (hf.inv h).nodup
  obtain ⟨v, a, hv, -, rfl⟩ := hf
  exact view_of_mem hn (by simp [hv])

theorem getElem?_indexOf (c : CPageCache ps) (id : ℕ) :
    c.cache.data[c.indexOf id]? = c.find id := List.find?_eq_getElem?_findIdx.symm

/-- A write of a cached page, in place. -/
theorem WriteStep.of_overwrite (h : Inv w) (ht : w.obj.find id = some t) (page : Page ps)
    {v : Vec (SCachePage ps)}
    (hv : v.data = w.obj.cache.data.modify (w.obj.indexOf id)
      fun u => { u with page := page, dirty := true }) :
    WriteStep id w ⟨{ (counted w).obj with cache := v }, w.os⟩ ∧
      CPageCache.view ⟨{ (counted w).obj with cache := v }, w.os⟩ id = some page := by
  have hix := (getElem?_indexOf w.obj id).trans ht
  obtain ⟨-, rfl⟩ := find_eq_some ht
  have hids : v.data.map SCachePage.physId = w.obj.cache.data.map SCachePage.physId := by
    rw [hv, map_physId_modify (f := fun u => { u with page := page, dirty := true }) fun _ => rfl]
  have hn : (v.data.map SCachePage.physId).Nodup := hids ▸ h.nodup
  have hmem : ∀ u ∈ v.data, u = { t with page := page, dirty := true } ∨
      u ∈ w.obj.cache.data ∧ u.physId ≠ t.physId := fun u hu => mem_modify h.nodup hix (hv ▸ hu)
  have hself : { t with page := page, dirty := true } ∈ v.data := by
    rw [hv]
    refine List.mem_of_getElem? (i := w.obj.indexOf t.physId) ?_
    rw [List.getElem?_modify, hix]
    simp
  refine ⟨⟨⟨h.pos, h.size, hn, fun u hu => ?_, fun u hu hd => ?_⟩, rfl, rfl, Or.inl rfl,
    .refl _, ?_, fun j p hj _ hp => ?_⟩, ?_⟩
  · rcases hmem u hu with rfl | ⟨hu, -⟩
    · exact h.inRange t (List.mem_of_getElem? hix)
    · exact h.inRange u hu
  · rcases hmem u hu with rfl | ⟨hu, -⟩
    · cases hd
    · exact h.clean u hu hd
  · rintro j ⟨u, hu, rfl, hd⟩
    rcases hmem u hu with rfl | ⟨hu, -⟩
    · exact Or.inr rfl
    · exact Or.inl ⟨u, hu, rfl, hd⟩
  · rcases view_cases h.nodup j with ⟨u, hu, rfl, huv⟩ | ⟨hid, hjv⟩
    · have hu' : u.physId ∈ v.data.map SCachePage.physId := hids ▸ List.mem_map_of_mem hu
      obtain ⟨u', hu', heq⟩ := List.mem_map.mp hu'
      rcases hmem u' hu' with rfl | ⟨hmem', -⟩
      · exact absurd heq.symm hj
      · have : u' = u := List.inj_on_of_nodup_map h.nodup hmem' hu heq
        rw [view_of_mem hn (this ▸ hu'), ← huv, hp]
    · rw [view_of_not_mem (hids ▸ hid)]
      rwa [hjv] at hp
  · exact view_of_mem (t := { t with page := page, dirty := true }) hn hself

/-- The new page is taken out of the cache again after the spill has failed. -/
theorem WriteStep.undo (h : WriteStep t.physId w w₁) (ht : w₁.obj.cache.data[0]? = some t) :
    WriteStep t.physId w ⟨{ w₁.obj with
        cache := w₁.obj.cache.withData w₁.obj.cache.data.tail }, w₁.os⟩ ∧
      t.physId ∉ w₁.obj.cache.data.tail.map SCachePage.physId := by
  have hn := h.inv.nodup
  rcases hl : w₁.obj.cache.data with _ | ⟨u, l⟩
  · simp [hl] at ht
  have hut : u = t := by simpa [hl] using ht
  subst hut
  rw [hl, List.map_cons, List.nodup_cons] at hn
  have hdirty : ∀ j, Dirty { w₁.obj with cache := w₁.obj.cache.withData l } j → Dirty w₁.obj j :=
    fun j ⟨v, hv, hj⟩ => ⟨v, hl ▸ List.mem_cons_of_mem u hv, hj⟩
  refine ⟨⟨⟨h.inv.pos, h.inv.size, hn.2, fun v hv => ?_, fun v hv => ?_⟩, h.hFile, h.size,
    h.counter.imp_right fun ⟨h0, hd⟩ => ⟨h0, fun j => mt (hdirty j) (hd j)⟩, h.os,
    fun j hd => h.dirty j (hdirty j hd),
    fun j p hj hr hp => ?_⟩, hn.1⟩
  · exact h.inv.inRange v (hl ▸ List.mem_cons_of_mem u hv)
  · exact h.inv.clean v (hl ▸ List.mem_cons_of_mem u hv)
  · have hv := h.view j p hj hr hp
    unfold CPageCache.view find at hv ⊢
    simp only [hl, List.find?_cons, beq_eq_false_iff_ne.mpr (Ne.symm hj)] at hv
    exact hv

/-- After a write that succeeds the page has the bytes written. After one that fails it is not in
the cache, and has its old bytes unless the failing request was the write of this very page to the
file. -/
theorem write_spec (h : Inv w) (hr : InRange ps id) (page : Page ps) :
    (write id page).wp
      (fun _ w' => WriteStep id w w' ∧ view w' id = some page)
      (fun _ w' => WriteStep id w w' ∧ ¬w.os.Calm ∧ w.obj.find id = none ∧
        w'.obj.find id = none ∧ (w.os.Atomic → ∀ p, view w id = some p → view w' id = some p)) w := by
  simp only [write, Prog.wp_bind, wp_modifyObj, wp_getObj]
  have hcounted : (counted w).obj.find id = w.obj.find id := rfl
  change Prog.wp _ _ _ (counted w)
  rw [counted] at hcounted
  rw [hcounted]
  rcases hfind : w.obj.find id with _ | t
  · simp only [Prog.wp_bind]
    have hid := find_eq_none_iff.mp hfind
    have hview : view w id = pageAt ps (file w) id := view_of_not_mem hid
    refine wp_newMemory (fun a ha => ?_) (fun a hne ha => ?_)
    · have h₁ := Step.allocs (counted_inv h) ha
      have hins : Insertable ⟨(counted w).obj, { w.os with allocs := a }⟩
          { dirty := true, physId := id, page := page } := ⟨h₁.inv, hid, hr, fun hclean => by cases hclean⟩
      refine Prog.wp_mono (insertFront_spec hins) (fun _ w' h' => ?_) (fun e w' h' => ?_)
      · obtain ⟨w₂, hf, h'⟩ := h'
        exact ⟨(WriteStep.of_front (w := w) ha hins hf).trans_step h',
          h'.view id page hr (view_front hins hf)⟩
      · obtain ⟨hcalm, ⟨h', hobj⟩ | ⟨w₂, w₃, hf, h₃, hhead, rfl⟩⟩ := h'
        · refine ⟨.of_step (h₁.trans h'), mt h₁.os.calm hcalm, trivial, ?_,
            fun _ p hp => (h₁.trans h').view id p hr hp⟩
          rw [hobj]
          exact hfind
        · obtain ⟨hw, hnid⟩ := ((WriteStep.of_front (w := w) ha hins hf).trans_step h₃).undo hhead
          refine ⟨hw, mt h₁.os.calm hcalm, trivial, find_eq_none_iff.mpr hnid, fun hat p hp => ?_⟩
          obtain ⟨v, a', -, ha', rfl⟩ := hf
          rw [view_of_not_mem hnid]
          rw [hview] at hp
          have hd : Dirty w₃.obj id := ⟨_, List.mem_of_getElem? hhead, rfl, rfl⟩
          exact h₃.still hat id p hr hd hp
    · have h₁ := Step.allocs (counted_inv h) ha
      exact ⟨.of_step h₁, fun hc => hne hc.1, trivial, hfind, fun _ p hp => h₁.view id p hr hp⟩
  · simp only [Prog.wp_bind, wp_modifyObj]
    obtain ⟨hw, hv⟩ := WriteStep.of_overwrite h hfind page (v := w.obj.cache.withData _) rfl
    refine Prog.wp_mono (promote_spec hw.inv _) (fun _ w' h' => ?_) (fun _ _ => False.elim)
    exact ⟨hw.trans_step h'.1, h'.1.view id page hr hv⟩

theorem flushFrom_spec (h : Inv w) (ix n : ℕ)
    (hix : ∀ i < ix, ∀ t, w.obj.cache.data[i]? = some t → t.dirty = false) :
    (flushFrom ix n).wp
      (fun _ w' => Step w w' ∧ w'.obj.cache.data.length = w.obj.cache.data.length ∧
        ∀ i < ix + n, ∀ t, w'.obj.cache.data[i]? = some t → t.dirty = false)
      (fun _ w' => Step w w' ∧ ¬w.os.Calm) w := by
  induction n generalizing w ix with
  | zero => exact ⟨.refl h, rfl, hix⟩
  | succ n ih =>
    simp only [flushFrom, Prog.wp_bind]
    refine Prog.wp_mono (writeIfDirty_spec h ix) (fun _ w₁ h₁ => ?_)
      (fun _ w₁ h₁ => ⟨h₁.1, h₁.2.2⟩)
    obtain ⟨h₁, hdata⟩ := h₁
    have hix₁ : ∀ i < ix + 1, ∀ t, w₁.obj.cache.data[i]? = some t → t.dirty = false := by
      intro i hi t ht
      rw [hdata, List.getElem?_modify] at ht
      by_cases hii : ix = i
      · simp only [hii, if_true] at ht
        obtain ⟨u, -, rfl⟩ := Option.map_eq_some_iff.mp ht
        rfl
      · exact hix i (by omega) t (by simpa [hii] using ht)
    refine Prog.wp_mono (ih h₁.inv (ix + 1) hix₁) (fun _ w₂ h₂ => ?_) (fun _ w₂ h₂ => ?_)
    · refine ⟨h₁.trans h₂.1, ?_, fun i hi => h₂.2.2 i (by omega)⟩
      rw [h₂.2.1, hdata, List.length_modify]
    · exact ⟨h₁.trans h₂.1, mt h₁.os.calm h₂.2⟩

/-- A flush that succeeds leaves nothing to write, unless its short cut takes it that there was
nothing to write. -/
theorem flush_spec (h : Inv w) :
    flush.wp
      (fun _ w' => Step w w' ∧ (w.obj.writesSinceFlush = 0 ∧ w' = w ∨ ∀ id, ¬Dirty w'.obj id))
      (fun _ w' => Step w w' ∧ ¬w.os.Calm) w := by
  simp only [flush, Prog.wp_bind, wp_getObj, Prog.wp_ite, Prog.wp_pure]
  refine ⟨fun h0 => ⟨.refl h, Or.inl ⟨h0, trivial⟩⟩, fun _ => ?_⟩
  refine Prog.wp_mono (flushFrom_spec h 0 w.obj.cache.size (by simp)) (fun _ w₁ h₁ => ?_)
    (fun _ w₁ h₁ => h₁)
  obtain ⟨h₁, hlen, hclean⟩ := h₁
  have hnd : ∀ id, ¬Dirty w₁.obj id := by
    rintro id ⟨t, ht, -, hd⟩
    obtain ⟨i, hi⟩ := List.mem_iff_getElem?.mp ht
    have hlt : i < 0 + w.obj.cache.size := by
      have := (List.getElem?_eq_some_iff.mp hi).1
      simp only [Vec.size]
      omega
    rw [hclean i hlt t hi] at hd
    cases hd
  simp only [Prog.wp_bind]
  refine wp_fileCall (fun r hr => ?_) (fun r code hne hr => ?_)
  · have h₂ := h₁.trans (.ios h₁.inv hr)
    rw [wp_modifyObj]
    refine ⟨⟨⟨h₂.inv.pos, h₂.inv.size, h₂.inv.nodup, h₂.inv.inRange, h₂.inv.clean⟩, h₂.hFile,
      h₂.size, Or.inr ⟨rfl, hnd⟩, h₂.os, fun id hd => absurd hd (hnd id), h₂.view,
      fun _ id _ _ hd => absurd hd (hnd id)⟩, Or.inr hnd⟩
  · exact ⟨h₁.trans (.ios h₁.inv hr), mt h₁.os.calm fun hc => hne hc.2⟩

theorem spill_inv (h : Inv w) : spill.wp (fun _ => Step w) (fun _ => Step w) w :=
  Prog.wp_mono (spill_spec h) (fun _ _ h' => h'.1) (fun _ _ h' => h'.1)

/-- Emptying the cache gives up what was not written, and every page is again as the file has it. -/
theorem empty_spec (h : Inv w) :
    empty.wp (fun _ w' => Inv w' ∧ w'.os = w.os ∧ w'.obj.hFile = w.obj.hFile ∧
      w'.obj.cacheSize = w.obj.cacheSize ∧ w'.obj.cache.data = []) (fun _ _ => False) w :=
  ⟨⟨h.pos, h.size, List.nodup_nil, nofun, nofun⟩, rfl, rfl, rfl, rfl⟩

end CPageCache

end NtAdmin.Wmi.PageMgr
