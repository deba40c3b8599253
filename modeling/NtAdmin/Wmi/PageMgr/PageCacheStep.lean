import Mathlib.Data.List.Nodup
import NtAdmin.Wmi.PageMgr.DataFile

/-! What each operation of the page cache does to the pages it stands for. -/
namespace NtAdmin.Wmi.PageMgr

open NtAdmin.Lib

variable {ps : ℕ}

def SCachePage.clean (t : SCachePage ps) : SCachePage ps := { t with dirty := false }

namespace CPageCache

/-- The data file behind the cache. -/
def file (w : World (CPageCache ps)) : List UInt8 := w.os.disk w.obj.hFile

/-- The page waits in the cache to be written. -/
def Dirty (c : CPageCache ps) (id : ℕ) : Prop :=
  ∃ t ∈ c.cache.data, t.physId = id ∧ t.dirty = true

/-- The page `id` as the cache and the file together hold it. -/
def view (w : World (CPageCache ps)) (id : ℕ) : Option (Page ps) :=
  match w.obj.find id with
  | some t => some t.page
  | none => pageAt ps (file w) id

/-- No page is cached twice, and a page that is not dirty agrees with the file. -/
structure Inv (w : World (CPageCache ps)) : Prop where
  pos : 0 < ps
  size : 0 < w.obj.cacheSize
  nodup : (w.obj.cache.data.map SCachePage.physId).Nodup
  inRange : ∀ t ∈ w.obj.cache.data, InRange ps t.physId
  clean : ∀ t ∈ w.obj.cache.data, t.dirty = false → pageAt ps (file w) t.physId = some t.page

/-- A step that writes dirty pages, loads pages and evicts pages, but changes no page. -/
structure Step (w w' : World (CPageCache ps)) : Prop where
  inv : Inv w'
  hFile : w'.obj.hFile = w.obj.hFile
  size : w'.obj.cacheSize = w.obj.cacheSize
  counter : w'.obj.writesSinceFlush = w.obj.writesSinceFlush ∨
    w'.obj.writesSinceFlush = 0 ∧ ∀ id, ¬Dirty w'.obj id
  os : OsKept ps w.obj.hFile (Dirty w.obj) w.os w'.os
  dirty : ∀ id, Dirty w'.obj id → Dirty w.obj id
  view : ∀ id p, InRange ps id → view w id = some p → view w' id = some p
  still : w.os.Atomic → ∀ id p, InRange ps id → Dirty w'.obj id →
    pageAt ps (file w) id = some p → pageAt ps (file w') id = some p

section view
variable {c : CPageCache ps} {o : Os} {w : World (CPageCache ps)} {t : SCachePage ps} {id : ℕ}

theorem find_eq_some_of_mem (h : (c.cache.data.map SCachePage.physId).Nodup)
    (ht : t ∈ c.cache.data) : c.find t.physId = some t := by
  have hfind : ∀ l : List (SCachePage ps), (l.map SCachePage.physId).Nodup → t ∈ l →
      l.find? (fun u => u.physId == t.physId) = some t := by
    intro l h ht
    induction l with
    | nil => cases ht
    | cons u l ih =>
      simp only [List.map_cons, List.nodup_cons] at h
      rcases List.mem_cons.mp ht with rfl | ht
      · simp
      · have hne : u.physId ≠ t.physId := fun hu => h.1 (hu ▸ List.mem_map_of_mem ht)
        simpa [hne] using ih h.2 ht
  exact hfind _ h ht

theorem find_eq_none_iff : c.find id = none ↔ id ∉ c.cache.data.map SCachePage.physId := by
  simp [find, List.find?_eq_none]

theorem find_eq_some (h : c.find id = some t) : t ∈ c.cache.data ∧ t.physId = id :=
  ⟨List.mem_of_find?_eq_some h, by simpa using List.find?_some h⟩

theorem view_of_mem (h : (c.cache.data.map SCachePage.physId).Nodup)
    (ht : t ∈ c.cache.data) : view ⟨c, o⟩ t.physId = some t.page := by
  simp only [view, find_eq_some_of_mem h ht]

theorem view_of_not_mem (h : id ∉ c.cache.data.map SCachePage.physId) :
    view ⟨c, o⟩ id = pageAt ps (o.disk c.hFile) id := by
  simp only [view, find_eq_none_iff.mpr h, file]

/-- A page is seen in the cache or, if it is not there, in the file. -/
theorem view_cases (h : (w.obj.cache.data.map SCachePage.physId).Nodup) (id : ℕ) :
    (∃ t ∈ w.obj.cache.data, t.physId = id ∧ view w id = some t.page) ∨
      (id ∉ w.obj.cache.data.map SCachePage.physId ∧ view w id = pageAt ps (file w) id) := by
  by_cases hid : id ∈ w.obj.cache.data.map SCachePage.physId
  · obtain ⟨t, ht, rfl⟩ := List.mem_map.mp hid
    exact Or.inl ⟨t, ht, rfl, view_of_mem h ht⟩
  · exact Or.inr ⟨hid, view_of_not_mem hid⟩

end view

section steps
variable {w w' w'' : World (CPageCache ps)}

theorem Step.refl (h : Inv w) : Step w w :=
  ⟨h, rfl, rfl, Or.inl rfl, .refl _, fun _ hd => hd, fun _ _ _ hp => hp,
    fun _ _ _ _ _ hp => hp⟩

theorem Step.trans (h : Step w w') (h' : Step w' w'') : Step w w'' where
  inv := h'.inv
  hFile := h'.hFile.trans h.hFile
  size := h'.size.trans h.size
  counter := by
    rcases h'.counter with heq | h0
    · rcases h.counter with heq' | ⟨h0, hd⟩
      · exact Or.inl (heq.trans heq')
      · exact Or.inr ⟨heq.trans h0, fun id => mt (h'.dirty id) (hd id)⟩
    · exact Or.inr h0
  os := h.os.trans (h.hFile ▸ h'.os.mono h.dirty)
  dirty id hd := h.dirty id (h'.dirty id hd)
  view id p hr hp := h'.view id p hr (h.view id p hr hp)
  still ha id p hr hd hp :=
    h'.still (h.os.atomic ha) id p hr hd (h.still ha id p hr (h'.dirty id hd) hp)

/-- The pages `T` may be written, the cache may be reordered, and a page may lose its dirty bit or
be dropped if it agrees with the file at the end. -/
theorem Step.of_kept (h : Inv w) {T : ℕ → Prop} {o : Os} {v : Vec (SCachePage ps)}
    (hT : ∀ id, T id → Dirty w.obj id) (ho : OsKept ps w.obj.hFile T w.os o)
    (hn : (v.data.map SCachePage.physId).Nodup)
    (hsub : ∀ t ∈ v.data, ∃ u ∈ w.obj.cache.data, t.physId = u.physId ∧ t.page = u.page ∧
      (t.dirty = u.dirty ∧ ¬T u.physId ∨
        t.dirty = false ∧ pageAt ps (o.disk w.obj.hFile) u.physId = some u.page))
    (hsync : ∀ u ∈ w.obj.cache.data, u.physId ∈ v.data.map SCachePage.physId ∨
      pageAt ps (o.disk w.obj.hFile) u.physId = some u.page) :
    Step w ⟨{ w.obj with cache := v }, o⟩ where
  inv := by
    refine ⟨h.pos, h.size, hn, fun t ht => ?_, fun t ht hd => ?_⟩
    · obtain ⟨u, hu, hid, -, -⟩ := hsub t ht
      exact hid ▸ h.inRange u hu
    · obtain ⟨u, hu, hid, hpage, ⟨hud, hTu⟩ | ⟨-, hp⟩⟩ := hsub t ht
      · rw [hid, hpage]
        exact ho.disk.page _ _ (h.inRange u hu) hTu (h.clean u hu (hud ▸ hd))
      · rw [hid, hpage]
        exact hp
  hFile := rfl
  size := rfl
  counter := Or.inl rfl
  os := ho.mono hT
  dirty id := by
    rintro ⟨t, ht, rfl, hd⟩
    obtain ⟨u, hu, hid, -, ⟨hud, -⟩ | ⟨hf, -⟩⟩ := hsub t ht
    · exact ⟨u, hu, hid.symm, hud ▸ hd⟩
    · simp [hf] at hd
  view id p hr hp := by
    rcases view_cases h.nodup id with ⟨u, hu, rfl, huv⟩ | ⟨hid, hv⟩
    · rw [huv] at hp
      by_cases hv : u.physId ∈ v.data.map SCachePage.physId
      · obtain ⟨t, ht, htu⟩ := List.mem_map.mp hv
        obtain ⟨u', hu', hid, hpage, -⟩ := hsub t ht
        have heq : u' = u := List.inj_on_of_nodup_map h.nodup hu' hu (hid.symm.trans htu)
        rw [← htu, view_of_mem hn ht, hpage, heq, hp]
      · rw [view_of_not_mem hv]
        exact ((hsync u hu).resolve_left hv).trans hp
    · have hv' : id ∉ v.data.map SCachePage.physId := by
        intro hmem
        obtain ⟨t, ht, rfl⟩ := List.mem_map.mp hmem
        obtain ⟨u, hu, htu, -⟩ := hsub t ht
        exact hid (htu ▸ List.mem_map_of_mem hu)
      have hTid : ¬T id := fun hTid => by
        obtain ⟨u, hu, hui, -⟩ := hT id hTid
        exact hid (hui ▸ List.mem_map_of_mem hu)
      rw [hv] at hp
      rw [view_of_not_mem hv']
      exact ho.disk.page id p hr hTid hp
  still _ id p hr := by
    rintro ⟨t, ht, rfl, hd⟩ hp
    obtain ⟨u, hu, hid, -, ⟨-, hTu⟩ | ⟨hf, -⟩⟩ := hsub t ht
    · exact ho.disk.page _ p hr (hid ▸ hTu) hp
    · simp [hf] at hd

/-- Reordering the cache and dropping pages that agree with the file. -/
theorem Step.of_subset (h : Inv w) {v : Vec (SCachePage ps)}
    (hn : (v.data.map SCachePage.physId).Nodup) (hsub : ∀ t ∈ v.data, t ∈ w.obj.cache.data)
    (hsync : ∀ t ∈ w.obj.cache.data, t ∈ v.data ∨ pageAt ps (file w) t.physId = some t.page) :
    Step w ⟨{ w.obj with cache := v }, w.os⟩ :=
  .of_kept h (T := fun _ => False) (fun _ => False.elim) (.refl _) hn
    (fun t ht => ⟨t, hsub t ht, rfl, rfl, Or.inl ⟨rfl, id⟩⟩)
    (fun t ht => (hsync t ht).imp_left List.mem_map_of_mem)

/-- Requests whose outcome changes neither the cache nor the disk. -/
theorem Step.of_os (h : Inv w) {o : Os} (ho : OsKept ps w.obj.hFile (fun _ => False) w.os o) :
    Step w ⟨w.obj, o⟩ :=
  .of_kept h (v := w.obj.cache) (fun _ => False.elim) ho h.nodup
    (fun t ht => ⟨t, ht, rfl, rfl, Or.inl ⟨rfl, id⟩⟩)
    (fun _ ht => Or.inl (List.mem_map_of_mem ht))

theorem Step.allocs (h : Inv w) {a : List (Option ℕ)} (ha : a <:+ w.os.allocs) :
    Step w ⟨w.obj, { w.os with allocs := a }⟩ := .of_os h (.allocs_eq ha)

theorem Step.ios (h : Inv w) {r : List IoFate} (hr : r <:+ w.os.ios) :
    Step w ⟨w.obj, { w.os with ios := r }⟩ := .of_os h (.ios_eq hr)

/-- The write of a dirty page fails and leaves some bytes in its place. -/
theorem Step.tear (h : Inv w) {t : SCachePage ps} (ht : t ∈ w.obj.cache.data)
    (hd : t.dirty = true) {code : ℕ} {torn : List UInt8} {r : List IoFate}
    (hf : .fails code torn ∈ w.os.ios) (hr : r <:+ w.os.ios) :
    Step w ⟨w.obj, ({ w.os with ios := r } : Os).write w.obj.hFile (pageOffset ps t.physId)
      (torn.take ps)⟩ := by
  have hD : Dirty w.obj t.physId := ⟨t, ht, rfl, hd⟩
  have ho : OsKept ps w.obj.hFile (fun j => j = t.physId) w.os _ :=
    .write h.pos (h.inRange t ht) (List.length_take_le ps torn) hr
  have hne : ∀ u ∈ w.obj.cache.data, u.dirty = false → u.physId ≠ t.physId := by
    intro u hu hud hut
    rw [List.inj_on_of_nodup_map h.nodup hu ht hut, hd] at hud
    cases hud
  refine ⟨⟨h.pos, h.size, h.nodup, h.inRange, fun u hu hud => ?_⟩, rfl, rfl, Or.inl rfl,
    ho.mono (by rintro _ rfl; exact hD), fun _ hd => hd, fun id p hid hp => ?_,
    fun ha id p _ _ hp => ?_⟩
  · exact ho.disk.page _ _ (h.inRange u hu) (hne u hu hud) (h.clean u hu hud)
  · rcases view_cases h.nodup id with ⟨u, hu, rfl, huv⟩ | ⟨hnid, hv⟩
    · rw [view_of_mem h.nodup hu, ← huv, hp]
    · rw [hv] at hp
      rw [view_of_not_mem hnid]
      exact ho.disk.page id p hid (fun hit => hnid (hit ▸ List.mem_map_of_mem ht)) hp
  · have htorn := ha code torn hf
    subst htorn
    simpa [file, Os.write] using hp

end steps

section programs
variable {w : World (CPageCache ps)}

theorem map_physId_modify {f : SCachePage ps → SCachePage ps} (hf : ∀ t, (f t).physId = t.physId)
    (l : List (SCachePage ps)) (ix : ℕ) :
    (l.modify ix f).map SCachePage.physId = l.map SCachePage.physId := by
  apply List.ext_getElem?
  intro i
  simp only [List.getElem?_map, List.getElem?_modify]
  rcases l[i]? with _ | t
  · rfl
  · by_cases h : ix = i <;> simp [h, hf]

theorem modify_clean_of_not_dirty {l : List (SCachePage ps)} {ix : ℕ}
    (h : ∀ t, l[ix]? = some t → t.dirty = false) : l.modify ix SCachePage.clean = l := by
  apply List.ext_getElem?
  intro i
  rw [List.getElem?_modify]
  rcases hi : l[i]? with _ | t
  · rfl
  · by_cases hix : ix = i
    · have := h t (hix ▸ hi)
      rcases t with ⟨d, _, _⟩
      simp_all [SCachePage.clean]
    · simp [hix]

theorem mem_modify {f : SCachePage ps → SCachePage ps} {l : List (SCachePage ps)} {ix : ℕ}
    {t u : SCachePage ps} (hn : (l.map SCachePage.physId).Nodup) (ht : l[ix]? = some t)
    (hu : u ∈ l.modify ix f) : u = f t ∨ u ∈ l ∧ u.physId ≠ t.physId := by
  obtain ⟨i, hi⟩ := List.mem_iff_getElem?.mp hu
  rw [List.getElem?_modify] at hi
  by_cases hix : ix = i
  · subst hix
    left
    simpa [ht] using hi.symm
  · right
    have hi' : l[i]? = some u := by simpa [hix] using hi
    refine ⟨List.mem_of_getElem? hi', fun heq => hix ?_⟩
    have hl : ix < (l.map SCachePage.physId).length := by
      rw [List.length_map]
      exact (List.getElem?_eq_some_iff.mp ht).1
    refine (List.getElem?_inj hl hn).mp ?_
    rw [List.getElem?_map, List.getElem?_map, ht, hi']
    simp [heq]

theorem writeIfDirty_spec (h : Inv w) (ix : ℕ) :
    (writeIfDirty ix).wp
      (fun _ w' => Step w w' ∧ w'.obj.cache.data = w.obj.cache.data.modify ix SCachePage.clean)
      (fun _ w' => Step w w' ∧ w'.obj = w.obj ∧ ¬w.os.Calm) w := by
  simp only [writeIfDirty, Prog.wp_bind, wp_getObj]
  rcases hix : w.obj.cache.data[ix]? with _ | t
  · exact ⟨.refl h, (modify_clean_of_not_dirty (by simp [hix])).symm⟩
  simp only [Prog.wp_ite, Prog.wp_bind, Prog.wp_pure, writePhysPage, wp_getObj]
  have ht := List.mem_of_getElem? hix
  refine ⟨fun hd => wp_fileWrite (fun r hr => ?_) (fun r code torn hf hr => ?_), fun hd => ?_⟩
  · have hset : w.obj.cache.data.set ix { t with dirty := false } =
        w.obj.cache.data.modify ix SCachePage.clean := by
      rw [List.modify_eq_set_getElem?, hix]
      rfl
    simp only [Prog.wp_bind, wp_modifyObj, Prog.wp_pure, hset]
    refine ⟨?_, rfl⟩
    refine .of_kept h (by rintro _ rfl; exact ⟨t, ht, rfl, hd⟩)
      (.write h.pos (h.inRange t ht) (Nat.le_of_eq t.page.2) hr) ?_ ?_ ?_
    · rw [Vec.data_withData, map_physId_modify (f := SCachePage.clean) fun _ => rfl]
      exact h.nodup
    · intro u hu
      rcases mem_modify h.nodup hix (by simpa using hu) with rfl | ⟨hu, hne⟩
      · exact ⟨t, ht, rfl, rfl, Or.inr ⟨rfl, pageAt_write h.pos _ _⟩⟩
      · exact ⟨u, hu, rfl, rfl, Or.inl ⟨rfl, hne⟩⟩
    · intro u hu
      left
      rw [Vec.data_withData, map_physId_modify (f := SCachePage.clean) fun _ => rfl]
      exact List.mem_map_of_mem hu
  · rw [t.page.2]
    exact ⟨.tear h ht hd hf hr, rfl, fun hc => by simp [hc.2] at hf⟩
  · refine ⟨.refl h, (modify_clean_of_not_dirty fun u hu => ?_).symm⟩
    rw [hix, Option.some.injEq] at hu
    simpa [hu] using hd

@[simp] theorem map_clean_modify_clean (l : List (SCachePage ps)) (ix : ℕ) :
    (l.modify ix SCachePage.clean).map SCachePage.clean = l.map SCachePage.clean := by
  apply List.ext_getElem?
  intro i
  simp only [List.getElem?_map, List.getElem?_modify]
  rcases l[i]? with _ | t
  · rfl
  · by_cases h : ix = i <;> simp [h, SCachePage.clean]

/-- Spilling more pages clears dirty bits. If it fails, the first page is as it was. -/
theorem spillMore_spec (h : Inv w) (n k : ℕ) :
    (spillMore n k).wp
      (fun _ w' => Step w w' ∧
        w'.obj.cache.data.map SCachePage.clean = w.obj.cache.data.map SCachePage.clean)
      (fun _ w' => Step w w' ∧
        w'.obj.cache.data.map SCachePage.clean = w.obj.cache.data.map SCachePage.clean ∧
        w'.obj.cache.data[0]? = w.obj.cache.data[0]? ∧ ¬w.os.Calm) w := by
  induction n generalizing w k with
  | zero => exact ⟨.refl h, rfl⟩
  | succ n ih =>
    cases k with
    | zero => exact ⟨.refl h, rfl⟩
    | succ k =>
      simp only [spillMore, Prog.wp_bind]
      refine Prog.wp_mono (writeIfDirty_spec h n) (fun b w₁ h₁ => ?_) (fun e w₁ h₁ => ?_)
      · obtain ⟨h₁, hdata⟩ := h₁
        have hlift : ∀ k, (spillMore n k).wp
            (fun _ w' => Step w w' ∧
              w'.obj.cache.data.map SCachePage.clean = w.obj.cache.data.map SCachePage.clean)
            (fun _ w' => Step w w' ∧
              w'.obj.cache.data.map SCachePage.clean = w.obj.cache.data.map SCachePage.clean ∧
              w'.obj.cache.data[0]? = w.obj.cache.data[0]? ∧ ¬w.os.Calm) w₁ := by
          intro k
          rcases Nat.eq_zero_or_pos n with rfl | hn
          · exact ⟨h₁, by simp [hdata]⟩
          refine Prog.wp_mono (ih h₁.inv k) (fun _ w₂ h₂ => ?_) (fun _ w₂ h₂ => ?_)
          · exact ⟨h₁.trans h₂.1, by rw [h₂.2, hdata, map_clean_modify_clean]⟩
          · obtain ⟨h₂, hmap, hhead, hcalm⟩ := h₂
            refine ⟨h₁.trans h₂, by rw [hmap, hdata, map_clean_modify_clean], ?_,
              mt h₁.os.calm hcalm⟩
            rw [hhead, hdata, List.getElem?_modify]
            simp [Nat.ne_of_gt hn]
        rw [Prog.wp_ite]
        exact ⟨fun _ => hlift k, fun _ => hlift (k + 1)⟩
      · obtain ⟨h₁, hobj, hcalm⟩ := h₁
        exact ⟨h₁, by rw [hobj], by rw [hobj], hcalm⟩

/-- A page that agrees with the file can be evicted from the end of the cache. -/
theorem Step.dropLast (h : Inv w) {t : SCachePage ps}
    (ht : w.obj.cache.data.getLast? = some t) {T : ℕ → Prop} {o : Os} {v : Vec (SCachePage ps)}
    (hT : ∀ id, T id → id = t.physId ∧ Dirty w.obj id)
    (ho : OsKept ps w.obj.hFile T w.os o) (hv : v.data = w.obj.cache.data.dropLast)
    (hsync : pageAt ps (o.disk w.obj.hFile) t.physId = some t.page) :
    Step w ⟨{ w.obj with cache := v }, o⟩ := by
  have hne : w.obj.cache.data ≠ [] := by
    intro hnil
    simp [hnil] at ht
  have hsplit : w.obj.cache.data = v.data ++ [t] := by
    rw [hv, ← List.dropLast_append_getLast hne]
    simp only [List.dropLast_concat, List.append_cancel_left_eq, List.cons.injEq, and_true]
    rw [List.getLast?_eq_some_getLast hne] at ht
    exact Option.some.inj ht
  have hn := h.nodup
  rw [hsplit, List.map_append, List.nodup_append] at hn
  refine .of_kept h (fun id hid => (hT id hid).2) ho hn.1 (fun u hu => ?_) (fun u hu => ?_)
  · refine ⟨u, hsplit ▸ List.mem_append_left _ hu, rfl, rfl, Or.inl ⟨rfl, fun hid => ?_⟩⟩
    exact hn.2.2 _ (List.mem_map_of_mem hu) t.physId (by simp) (hT _ hid).1
  · rw [hsplit] at hu
    rcases List.mem_append.mp hu with hu | hu
    · exact Or.inl (List.mem_map_of_mem hu)
    · rw [List.mem_singleton.mp hu]
      exact Or.inr hsync

/-- Spilling keeps the first page, and leaves it as it was if it fails. -/
theorem spill_spec (h : Inv w) :
    spill.wp
      (fun _ w' => Step w w' ∧
        w'.obj.cache.data[0]?.map SCachePage.clean = w.obj.cache.data[0]?.map SCachePage.clean)
      (fun _ w' => Step w w' ∧ w'.obj.cache.data[0]? = w.obj.cache.data[0]? ∧ ¬w.os.Calm) w := by
  simp only [spill, Prog.wp_bind, wp_getObj, Prog.wp_ite, Prog.wp_pure]
  refine ⟨fun _ => ⟨.refl h, trivial⟩, fun hsize => ?_⟩
  have hsize' := h.size
  have hlen : 2 ≤ w.obj.cache.data.length := by
    simp only [Vec.size] at hsize
    omega
  have hcap : w.obj.cache.data.dropLast.length ≤ w.obj.cache.cap := by
    have := w.obj.cache.le_cap
    rw [List.length_dropLast]
    omega
  have hhead : w.obj.cache.data.dropLast[0]? = w.obj.cache.data[0]? := by
    rw [List.getElem?_dropLast, if_pos (by omega)]
  rcases hl : w.obj.cache.data.getLast? with _ | t
  · exact ⟨.refl h, rfl⟩
  have ht := List.mem_of_getLast? hl
  simp only [Prog.wp_ite, Prog.wp_bind, writePhysPage, wp_getObj]
  refine ⟨fun hd => wp_fileWrite (fun r hr => ?_) (fun r code torn hf hr => ?_), fun hd => ?_⟩
  · simp only [Prog.wp_bind, hd, if_true]
    refine wp_assign_of_le hcap ?_
    have ho : OsKept ps w.obj.hFile (fun j => j = t.physId) w.os _ :=
      .write h.pos (h.inRange t ht) (Nat.le_of_eq t.page.2) hr
    have hstep := Step.dropLast h hl (by rintro _ rfl; exact ⟨rfl, t, ht, rfl, hd⟩) ho
      (v := w.obj.cache.withData w.obj.cache.data.dropLast) rfl (pageAt_write h.pos _ _)
    refine Prog.wp_mono (spillMore_spec hstep.inv _ _) (fun _ w' h' => ?_) (fun _ w' h' => ?_)
    · refine ⟨hstep.trans h'.1, ?_⟩
      have hmap := congrArg (fun l => l[0]?) h'.2
      simpa only [List.getElem?_map, Vec.data_withData, hhead] using hmap
    · refine ⟨hstep.trans h'.1, ?_, mt hstep.os.calm h'.2.2.2⟩
      rw [h'.2.2.1]
      exact hhead
  · rw [t.page.2]
    exact ⟨.tear h ht hd hf hr, rfl, fun hc => by simp [hc.2] at hf⟩
  · refine wp_assign_of_le hcap ?_
    simp only [hd, Bool.false_eq_true, if_false, Prog.wp_pure]
    refine ⟨.dropLast h hl (T := fun _ => False) (fun _ => False.elim) (.refl _) rfl ?_, ?_⟩
    · exact h.clean t ht (by simpa using hd)
    · exact congrArg (Option.map SCachePage.clean) hhead

end programs

end CPageCache

end NtAdmin.Wmi.PageMgr
