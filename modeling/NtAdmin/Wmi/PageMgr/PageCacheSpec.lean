import Mathlib.Data.List.Perm.Basic
import NtAdmin.Wmi.PageMgr.PageCacheStep

/-! The pages a cache holds after each of its operations, whether it succeeds or fails. -/
namespace NtAdmin.Wmi.PageMgr

open NtAdmin.Lib

variable {ps : ℕ}

namespace CPageCache
variable {w w₁ w₂ : World (CPageCache ps)} {t : SCachePage ps}

theorem nodup_of_perm {l l' : List (SCachePage ps)} (hp : l'.Perm l)
    (h : (l.map SCachePage.physId).Nodup) : (l'.map SCachePage.physId).Nodup :=
  (hp.map SCachePage.physId).nodup_iff.mpr h

/-- Promotion reorders the cache; it never needs memory. -/
theorem promote_spec (h : Inv w) (ix : ℕ) :
    (promote ix).wp
      (fun _ w' => Step w w' ∧ w'.obj.cache.data.Perm w.obj.cache.data ∧ w'.os = w.os)
      (fun _ _ => False) w := by
  simp only [promote, Prog.wp_bind, wp_getObj, Prog.wp_ite, Prog.wp_pure]
  refine ⟨fun _ => ?_, fun _ => ⟨.refl h, .refl _, trivial⟩⟩
  rcases hix : w.obj.cache.data[ix]? with _ | t
  · exact ⟨.refl h, .refl _, rfl⟩
  obtain ⟨hlt, ht⟩ := List.getElem?_eq_some_iff.mp hix
  have hperm : (t :: w.obj.cache.data.eraseIdx ix).Perm w.obj.cache.data :=
    ht ▸ List.getElem_cons_eraseIdx_perm hlt
  have hlen := hperm.length_eq
  have hcap := w.obj.cache.le_cap
  simp only [List.length_cons] at hlen
  simp only [Prog.wp_bind]
  refine wp_assign_of_le (by simp only [cacheVec]; omega) (wp_assign_of_le ?_ ?_)
  · simp only [cacheVec, List.length_cons]
    rw [Vec.cap_withData_of_le (by omega)]
    omega
  · refine ⟨.of_subset h (nodup_of_perm hperm h.nodup) (fun u hu => hperm.mem_iff.mp hu)
      (fun u hu => Or.inl (hperm.mem_iff.mpr hu)), hperm, rfl⟩

/-- `t` was put in front of the pages of the cache. -/
def Front (t : SCachePage ps) (w w₁ : World (CPageCache ps)) : Prop :=
  ∃ v a, v.data = t :: w.obj.cache.data ∧ a <:+ w.os.allocs ∧
    w₁ = ⟨{ w.obj with cache := v }, { w.os with allocs := a }⟩

/-- A page that is not cached yet is either new or was read from the file. -/
structure Insertable (w : World (CPageCache ps)) (t : SCachePage ps) : Prop where
  inv : Inv w
  fresh : t.physId ∉ w.obj.cache.data.map SCachePage.physId
  inRange : InRange ps t.physId
  sync : t.dirty = false → pageAt ps (file w) t.physId = some t.page

theorem Front.inv (hf : Front t w w₁) (h : Insertable w t) : Inv w₁ := by
  obtain ⟨v, a, hv, -, rfl⟩ := hf
  refine ⟨h.inv.pos, h.inv.size, ?_, fun u hu => ?_, fun u hu hd => ?_⟩
  · rw [hv, List.map_cons, List.nodup_cons]
    exact ⟨h.fresh, h.inv.nodup⟩
  · rw [hv] at hu
    rcases List.mem_cons.mp hu with rfl | hu
    · exact h.inRange
    · exact h.inv.inRange u hu
  · rw [hv] at hu
    rcases List.mem_cons.mp hu with rfl | hu
    · exact h.sync hd
    · exact h.inv.clean u hu hd

theorem insertFront_spec (h : Insertable w t) :
    (insertFront t).wp
      (fun _ w' => ∃ w₁, Front t w w₁ ∧ Step w₁ w')
      (fun _ w' => ¬w.os.Calm ∧ (Step w w' ∧ w'.obj = w.obj ∨
        ∃ w₁ w₂, Front t w w₁ ∧ Step w₁ w₂ ∧ w₂.obj.cache.data[0]? = some t ∧
          w' = ⟨{ w₂.obj with cache := w₂.obj.cache.withData w₂.obj.cache.data.tail }, w₂.os⟩)) w
    := by
  simp only [insertFront, Prog.wp_bind, wp_getObj]
  refine wp_assign (fun v a hv _ ha => ?_) (fun a _ hne ha => ?_)
  · have hf : Front t w ⟨cacheVec.set v w.obj, { w.os with allocs := a }⟩ := ⟨v, a, hv, ha, rfl⟩
    simp only [Prog.wp_tryCatch]
    refine Prog.wp_mono (spill_spec (hf.inv h)) (fun _ w' h' => ⟨_, hf, h'.1⟩)
      (fun _ w' h' => ?_)
    obtain ⟨hstep, hhead, hcalm⟩ := h'
    simp only [Prog.wp_bind, wp_getObj]
    refine wp_assign_of_le ?_ ?_
    · have := w'.obj.cache.le_cap
      simp only [cacheVec, List.length_tail]
      omega
    · have ho : OsKept ps w.obj.hFile (fun _ => False) w.os { w.os with allocs := a } :=
        .allocs_eq ha
      refine ⟨fun hc => hcalm (ho.calm hc), Or.inr ⟨_, _, hf, hstep, ?_, rfl⟩⟩
      rw [hhead]
      simp [cacheVec, hv]
  · exact ⟨fun hc => hne hc.1, Or.inl ⟨.allocs h.inv ha, rfl⟩⟩

theorem readPhysPage_spec (w : World (CPageCache ps)) (id : ℕ) :
    (readPhysPage id).wp
      (fun p w' => pageAt ps (file w) id = some p ∧ ∃ a r, a <:+ w.os.allocs ∧ r <:+ w.os.ios ∧
        w' = ⟨w.obj, { w.os with allocs := a, ios := r }⟩)
      (fun e w' => (w.os.Calm → pageAt ps (file w) id = none ∧ e = .invalidParameter) ∧
        ∃ a r, a <:+ w.os.allocs ∧ r <:+ w.os.ios ∧
          w' = ⟨w.obj, { w.os with allocs := a, ios := r }⟩) w := by
  simp only [readPhysPage, Prog.wp_bind]
  refine wp_newMemory (fun a ha => ?_) (fun a hne ha => ?_)
  · simp only [Prog.wp_bind]
    refine wp_fileCall (fun r hr => ?_) (fun r code hne hr => ?_)
    · simp only [Prog.wp_bind, wp_getObj]
      refine wp_fileRead (fun r' hr' => ?_) (fun r' hne hr' => ?_)
      · dsimp only
        rcases hp : (readAt (w.os.disk w.obj.hFile) (pageOffset ps id) ps).bind (toPage? ps) with _ | p
        · exact ⟨fun _ => ⟨hp, rfl⟩, a, r', ha, hr'.trans hr, rfl⟩
        · exact ⟨hp, a, r', ha, hr'.trans hr, rfl⟩
      · refine ⟨fun hc => ?_, a, r', ha, hr'.trans hr, rfl⟩
        rw [hc.2] at hr
        exact absurd (List.suffix_nil.mp hr) hne
    · exact ⟨fun hc => absurd hc.2 hne, a, r, ha, hr, rfl⟩
  · exact ⟨fun hc => absurd hc.1 hne, a, w.os.ios, ha, List.suffix_refl _, rfl⟩

theorem Step.requests (h : Inv w) {a : List (Option ℕ)} {r : List IoFate}
    (ha : a <:+ w.os.allocs) (hr : r <:+ w.os.ios) :
    Step w ⟨w.obj, { w.os with allocs := a, ios := r }⟩ :=
  (Step.allocs h ha).trans (.ios (Step.allocs h ha).inv hr)

/-- A page that was read from the file changes nothing when it is put into the cache. -/
theorem Front.step (hf : Front t w w₁) (h : Insertable w t) (hd : t.dirty = false) :
    Step w w₁ := by
  have hinv := hf.inv h
  obtain ⟨v, a, hv, ha, rfl⟩ := hf
  have hdirty : ∀ id, Dirty { w.obj with cache := v } id → Dirty w.obj id := by
    rintro id ⟨u, hu, hid, hud⟩
    rw [hv] at hu
    rcases List.mem_cons.mp hu with rfl | hu
    · simp [hd] at hud
    · exact ⟨u, hu, hid, hud⟩
  refine ⟨hinv, rfl, rfl, Or.inl rfl, .allocs_eq ha, hdirty, fun id p _ hp => ?_,
    fun _ _ _ _ _ hp => hp⟩
  by_cases hid : id = t.physId
  · subst hid
    rw [view_of_not_mem h.fresh] at hp
    have hvt := view_of_mem (t := t) (o := { w.os with allocs := a }) hinv.nodup
      (by simp [hv])
    exact hvt.trans ((h.sync hd).symm.trans hp)
  · unfold view find at hp ⊢
    simp only [hv, List.find?_cons, beq_eq_false_iff_ne.mpr (Ne.symm hid)]
    exact hp

/-- The first page is taken out of the cache again; it agrees with the file. -/
theorem Step.tail (h : Inv w) (ht : w.obj.cache.data[0]? = some t) (hd : t.dirty = false) :
    Step w ⟨{ w.obj with cache := w.obj.cache.withData w.obj.cache.data.tail }, w.os⟩ := by
  rcases hl : w.obj.cache.data with _ | ⟨u, l⟩
  · simp [hl] at ht
  have hut : u = t := by simpa [hl] using ht
  subst hut
  have hn := h.nodup
  rw [hl, List.map_cons, List.nodup_cons] at hn
  refine .of_subset h hn.2 (fun v hv => hl ▸ List.mem_cons_of_mem u hv) (fun v hv => ?_)
  rcases List.mem_cons.mp (hl ▸ hv) with rfl | hv'
  · exact Or.inr (h.clean v hv hd)
  · exact Or.inl hv'

/-- What is read is the page as the cache stands for it; without a failing request the read
fails only if there is no such page. -/
theorem read_spec (h : Inv w) {id : ℕ} (hr : InRange ps id) :
    (read id).wp
      (fun p w' => Step w w' ∧ view w id = some p)
      (fun e w' => Step w w' ∧ (w.os.Calm → view w id = none ∧ e = .invalidParameter)) w := by
  simp only [read, Prog.wp_bind, wp_getObj]
  rcases hfind : w.obj.find id with _ | t
  · have hid := find_eq_none_iff.mp hfind
    have hview : view w id = pageAt ps (file w) id := view_of_not_mem hid
    simp only [Prog.wp_bind]
    refine wp_newMemory (fun a ha => ?_) (fun a hne ha => ⟨.allocs h ha, fun hc => ?_⟩)
    · have h₁ := Step.allocs h ha
      simp only [Prog.wp_bind]
      refine Prog.wp_mono (readPhysPage_spec _ id) (fun p w₂ h₂ => ?_) (fun e w₂ h₂ => ?_)
      · obtain ⟨hp, a', r', ha', hr', rfl⟩ := h₂
        have h₂ := h₁.trans (.requests h₁.inv ha' hr')
        have hins : Insertable ⟨w.obj, { w.os with allocs := a', ios := r' }⟩
            { dirty := false, physId := id, page := p } := ⟨h₂.inv, hid, hr, fun _ => hp⟩
        simp only [Prog.wp_bind]
        refine Prog.wp_mono (insertFront_spec hins) (fun _ w' h' => ?_) (fun e w' h' => ?_)
        · obtain ⟨w₃, hf, h'⟩ := h'
          exact ⟨(h₂.trans (hf.step hins rfl)).trans h', hview.trans hp⟩
        · obtain ⟨hcalm, h'⟩ := h'
          refine ⟨?_, fun hc => absurd (h₂.os.calm hc) hcalm⟩
          rcases h' with ⟨h', -⟩ | ⟨w₃, w₄, hf, h₄, hhead, rfl⟩
          · exact h₂.trans h'
          · exact ((h₂.trans (hf.step hins rfl)).trans h₄).trans (.tail h₄.inv hhead rfl)
      · obtain ⟨he, a', r', ha', hr', rfl⟩ := h₂
        exact ⟨h₁.trans (.requests h₁.inv ha' hr'),
          fun hc => (he (h₁.os.calm hc)).imp_left hview.trans⟩
    · exact absurd hc.1 hne
  · simp only [Prog.wp_bind]
    refine Prog.wp_mono (promote_spec h _) (fun _ w' h' => ?_) (fun _ _ => False.elim)
    exact ⟨h'.1, by simp only [view, hfind]⟩

/-- A page that was put in front of the cache outlives the spill. -/
theorem insertFront_cached (h : Insertable w t) :
    (insertFront t).wp (fun _ w' => t.physId ∈ w'.obj.cache.data.map SCachePage.physId)
      (fun _ _ => True) w := by
  simp only [insertFront, Prog.wp_bind, wp_getObj]
  refine wp_assign (fun v a hv _ ha => ?_) (fun _ _ _ _ => trivial)
  have hf : Front t w ⟨cacheVec.set v w.obj, { w.os with allocs := a }⟩ := ⟨v, a, hv, ha, rfl⟩
  simp only [Prog.wp_tryCatch]
  refine Prog.wp_mono (spill_spec (hf.inv h)) (fun _ w' h' => ?_) (fun _ w' _ => ?_)
  · have hhead : w'.obj.cache.data[0]?.map SCachePage.clean = some t.clean := by
      rw [h'.2]
      simp [cacheVec, hv]
    obtain ⟨u, hu, hclean⟩ := Option.map_eq_some_iff.mp hhead
    have hid : u.clean.physId = t.clean.physId := congrArg SCachePage.physId hclean
    exact List.mem_map.mpr ⟨u, List.mem_of_getElem? hu, hid⟩
  · simp only [Prog.wp_bind, wp_getObj]
    exact wp_assign (fun _ _ _ _ _ => trivial) (fun _ _ _ _ => trivial)

/-- A page that was read is in the cache. -/
theorem read_cached (h : Inv w) {id : ℕ} (hr : InRange ps id) :
    (read id).wp (fun _ w' => w'.obj.find id ≠ none) (fun _ _ => True) w := by
  simp only [read, Prog.wp_bind, wp_getObj]
  rcases hfind : w.obj.find id with _ | t
  · have hid := find_eq_none_iff.mp hfind
    simp only [Prog.wp_bind]
    refine wp_newMemory (fun a ha => ?_) (fun _ _ _ => trivial)
    have h₁ := Step.allocs h ha
    simp only [Prog.wp_bind]
    refine Prog.wp_mono (readPhysPage_spec _ id) (fun p w₂ h₂ => ?_) (fun _ _ _ => trivial)
    obtain ⟨hp, a', r', ha', hr', rfl⟩ := h₂
    have h₂ := h₁.trans (.requests h₁.inv ha' hr')
    have hins : Insertable ⟨w.obj, { w.os with allocs := a', ios := r' }⟩
        { dirty := false, physId := id, page := p } := ⟨h₂.inv, hid, hr, fun _ => hp⟩
    simp only [Prog.wp_bind]
    exact Prog.wp_mono (insertFront_cached hins) (fun _ _ h' => fun hnone =>
      find_eq_none_iff.mp hnone h') (fun _ _ _ => trivial)
  · simp only [Prog.wp_bind]
    refine Prog.wp_mono (promote_spec h _) (fun _ w' h' => fun hnone => ?_) (fun _ _ => False.elim)
    have hmem : id ∈ w.obj.cache.data.map SCachePage.physId := by
      by_contra hnot
      rw [find_eq_none_iff.mpr hnot] at hfind
      cases hfind
    exact find_eq_none_iff.mp hnone ((h'.2.1.map SCachePage.physId).mem_iff.mpr hmem)

end CPageCache

end NtAdmin.Wmi.PageMgr
