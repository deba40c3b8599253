import NtAdmin.Wmi.PageMgr.PageFilePages

/-! Every physical page is in exactly one place: the page map, the free list, the replaced pages or
the deferred free list. -/
namespace NtAdmin.Wmi.PageMgr

open NtAdmin.Lib

/-- The physical pages of a generation, with those in `extra`, are the pages of the file, and the
logical free list names unused entries of the page map. -/
structure Generation.Sound (g : Generation) (extra : List ℕ) : Prop where
  held : (mappedIds g.pageMap ++ (g.physFree ++ (g.replaced ++ extra))).Perm
    (List.range g.physPages)
  pages : g.physPages ≤ maxNumPages
  free_nodup : g.logicalFree.Nodup
  free_lt : ∀ i ∈ g.logicalFree, i < 2 ^ 30
  free_invalid : ∀ i ∈ g.logicalFree, g.pageMap[i]? = some invalidPage

/-- What every admissible step keeps. -/
structure Maps.Partitioned (m : Maps) : Prop where
  a : m.a.Sound []
  b : m.b.Sound m.deferred
  committed : reservedPage ∉ m.a.pageMap

namespace Generation.Sound
variable {g : Generation} {extra : List ℕ}

theorem mem_lt (h : g.Sound extra) {p : ℕ}
    (hp : p ∈ mappedIds g.pageMap ++ (g.physFree ++ (g.replaced ++ extra))) : p < g.physPages :=
  List.mem_range.mp (h.held.mem_iff.mp hp)

/-- Exchange one entry of the page map that the logical free list does not name. -/
theorem set {e e' id : ℕ} (h : g.Sound (entryIds e' ++ extra)) (he : g.pageMap[id]? = some e)
    (hid : id ∉ g.logicalFree) :
    Generation.Sound { g with pageMap := g.pageMap.set id e' } (entryIds e ++ extra) where
  held := by
    refine List.Perm.trans ?_ h.held
    have hset := mappedIds_set he e'
    have h₁ : (mappedIds (g.pageMap.set id e') ++ (g.physFree ++ (g.replaced ++
        (entryIds e ++ extra)))).Perm
        ((entryIds e ++ mappedIds (g.pageMap.set id e')) ++ (g.physFree ++ (g.replaced ++ extra))) := by
      simp only [List.perm_iff_count, List.count_append]
      intro a
      omega
    have h₂ : ((entryIds e' ++ mappedIds g.pageMap) ++ (g.physFree ++ (g.replaced ++ extra))).Perm
        (mappedIds g.pageMap ++ (g.physFree ++ (g.replaced ++ (entryIds e' ++ extra)))) := by
      simp only [List.perm_iff_count, List.count_append]
      intro a
      omega
    exact h₁.trans ((hset.append_right _).trans h₂)
  pages := h.pages
  free_nodup := h.free_nodup
  free_lt := h.free_lt
  free_invalid i hi := by
    have hne : id ≠ i := fun heq => hid (heq ▸ hi)
    rw [List.getElem?_set_ne hne]
    exact h.free_invalid i hi

/-- Shorten or reorder the logical free list. -/
theorem withFree (h : g.Sound extra) {l : List ℕ} (hl : l.Nodup) (hsub : l ⊆ g.logicalFree) :
    Generation.Sound { g with logicalFree := l } extra where
  held := h.held
  pages := h.pages
  free_nodup := hl
  free_lt i hi := h.free_lt i (hsub hi)
  free_invalid i hi := h.free_invalid i (hsub hi)

/-- Move physical pages between the lists. -/
theorem withLists (h : g.Sound extra) {physFree replaced extra' : List ℕ}
    (hp : (physFree ++ (replaced ++ extra')).Perm (g.physFree ++ (g.replaced ++ extra))) :
    Generation.Sound { g with physFree := physFree, replaced := replaced } extra' where
  held := (hp.append_left _).trans h.held
  pages := h.pages
  free_nodup := h.free_nodup
  free_lt := h.free_lt
  free_invalid := h.free_invalid

/-- Replace the page map by one with the same physical pages and the same unused entries. -/
theorem withMap (h : g.Sound extra) {l : List ℕ} (hl : mappedIds l = mappedIds g.pageMap)
    (hinv : ∀ i : ℕ, g.pageMap[i]? = some invalidPage → l[i]? = some invalidPage) :
    Generation.Sound { g with pageMap := l } extra where
  held := by
    rw [hl]
    exact h.held
  pages := h.pages
  free_nodup := h.free_nodup
  free_lt := h.free_lt
  free_invalid i hi := hinv i (h.free_invalid i hi)

/-- An unused entry that leaves the free list becomes reserved. -/
theorem reserve (h : g.Sound extra) {id : ℕ} (hinv : g.pageMap[id]? = some invalidPage)
    (hid : id ∉ g.logicalFree) :
    Generation.Sound { g with pageMap := g.pageMap.set id reservedPage } extra :=
  Generation.Sound.set (show g.Sound (entryIds reservedPage ++ extra) from h) hinv hid

theorem reserveRun (h : g.Sound extra) {id count : ℕ}
    (hinv : ∀ k < count, g.pageMap[id + k]? = some invalidPage)
    (hid : ∀ k < count, id + k ∉ g.logicalFree) :
    Generation.Sound { g with pageMap := markReserved g.pageMap id count } extra ∧
      ∀ i, (∀ k < count, i ≠ id + k) → (markReserved g.pageMap id count)[i]? = g.pageMap[i]? := by
  induction count with
  | zero => exact ⟨h, fun _ _ => rfl⟩
  | succ count ih =>
    obtain ⟨hs, hframe⟩ := ih (fun k hk => hinv k (by omega)) (fun k hk => hid k (by omega))
    rw [markReserved_succ]
    refine ⟨hs.reserve ?_ (hid count (by omega)), fun i hi => ?_⟩
    · rw [hframe _ fun k hk => by omega]
      exact hinv count (by omega)
    · rw [List.getElem?_set_ne (hi count (by omega)).symm]
      exact hframe i fun k hk => hi k (by omega)

theorem appendReserved (h : g.Sound extra) (n : ℕ) :
    Generation.Sound { g with pageMap := g.pageMap ++ List.replicate n reservedPage } extra := by
  refine h.withMap ?_ fun i hi => ?_
  · have hnil : mappedIds (List.replicate n reservedPage) = [] := by
      refine List.flatMap_eq_nil_iff.mpr fun e he => ?_
      rw [List.eq_of_mem_replicate he]
      rfl
    rw [mappedIds_append, hnil, List.append_nil]
  · obtain ⟨hlt, -⟩ := List.getElem?_eq_some_iff.mp hi
    rw [List.getElem?_append_left hlt]
    exact hi

end Generation.Sound

theorem getElem?_moveCurrentToPrevious {l : List ℕ} {i : ℕ} (h : l[i]? = some invalidPage) :
    (moveCurrentToPrevious l)[i]? = some invalidPage := by
  simp [moveCurrentToPrevious, List.getElem?_map, h]

theorem getElem?_stripHiBits {l : List ℕ} {i : ℕ} (h : l[i]? = some invalidPage) :
    (stripHiBits l)[i]? = some invalidPage := by
  simp [stripHiBits, List.getElem?_map, h]

namespace Maps.Partitioned
variable {m : Maps}

theorem resync (h : m.Partitioned) : m.resync.Partitioned := ⟨h.a, h.a, h.committed⟩

theorem withTransaction (h : m.Partitioned) (t : Bool) :
    Maps.Partitioned { m with inTransaction := t } := ⟨h.a, h.b, h.committed⟩

theorem commit (h : m.Partitioned) (hr : reservedPage ∉ m.b.pageMap) : m.commit.Partitioned := by
  have hmap := h.b.withMap (mappedIds_moveCurrentToPrevious hr)
    fun i hi => getElem?_moveCurrentToPrevious hi
  have hb : m.commit.b.Sound [] := by
    refine hmap.withLists ?_
    simp only [List.perm_iff_count, List.count_append, List.count_reverse, List.count_nil]
    intro a
    omega
  exact ⟨hb, hb, reservedPage_not_mem_moveCurrentToPrevious hr⟩

theorem strip (h : m.Partitioned) : m.strip.Partitioned :=
  ⟨h.a.withMap (mappedIds_stripHiBits h.committed) fun _ hi => getElem?_stripHiBits hi, h.b,
    reservedPage_not_mem_stripHiBits _⟩

theorem checkpoint (h : m.Partitioned) : m.checkpoint.Partitioned := by
  have ha : m.checkpoint.a.Sound [] := by
    refine h.strip.a.withLists ?_
    simp only [Maps.strip, List.perm_iff_count, List.count_append, List.count_reverse,
      List.count_nil]
    intro a
    omega
  exact ⟨ha, ha, reservedPage_not_mem_stripHiBits _⟩

/-- The physical page of an entry that was taken out of the map goes to one of the lists. -/
theorem retire {physId : ℕ} (ha : m.a.Sound []) (hc : reservedPage ∉ m.a.pageMap)
    (hb : m.b.Sound (entryIds physId ++ m.deferred)) (hinv : physId ≠ invalidPage) :
    (m.retire physId).Partitioned := by
  by_cases hr : physId = reservedPage
  · subst hr
    have hm : m.retire reservedPage = m := by simp [Maps.retire]
    rw [hm]
    exact ⟨ha, hb, hc⟩
  · rw [entryIds_merePageId hinv hr] at hb
    have hperm (free replaced deferred : List ℕ) (hcount : ∀ x, free.count x + replaced.count x +
        deferred.count x = m.b.physFree.count x + m.b.replaced.count x +
          ([merePageId physId].count x + m.deferred.count x)) :
        (free ++ (replaced ++ deferred)).Perm
          (m.b.physFree ++ (m.b.replaced ++ ([merePageId physId] ++ m.deferred))) := by
      simp only [List.perm_iff_count, List.count_append]
      intro x
      have := hcount x
      omega
    simp only [Maps.retire, if_neg hr]
    split_ifs
    · refine ⟨ha, hb.withLists (hperm _ _ _ fun x => ?_), hc⟩
      simp only [List.count_append]
      omega
    · refine ⟨ha, hb.withLists (hperm m.b.physFree m.b.replaced _ fun x => ?_), hc⟩
      simp only [List.count_append]
      omega
    · refine ⟨ha, hb.withLists (hperm _ _ _ fun x => ?_), hc⟩
      simp only [List.count_append]
      omega

theorem freePage {id physId : ℕ} (h : m.Partitioned) (hid : m.b.pageMap[id]? = some physId)
    (hinv : physId ≠ invalidPage) (hlt : id < 2 ^ 30) : (m.freePage id physId).Partitioned := by
  have hnot : id ∉ m.b.logicalFree := fun hmem => by
    have hsame := h.b.free_invalid id hmem
    rw [hid] at hsame
    exact hinv (Option.some.inj hsame)
  have hset := Generation.Sound.set
    (show m.b.Sound (entryIds invalidPage ++ m.deferred) from h.b) hid hnot
  refine retire h.a h.committed ?_ hinv
  have hlen := (List.getElem?_eq_some_iff.mp hid).1
  rw [merePageId_of_lt hlt]
  refine ⟨hset.held, hset.pages, ?_, fun i hi => ?_, fun i hi => ?_⟩
  · exact hset.free_nodup.append (List.nodup_singleton _) (by simpa using hnot)
  · rcases List.mem_append.mp hi with hi | hi
    · exact hset.free_lt i hi
    · rw [List.mem_singleton.mp hi]
      exact hlt
  · rcases List.mem_append.mp hi with hi | hi
    · exact hset.free_invalid i hi
    · rw [List.mem_singleton.mp hi]
      exact List.getElem?_set_self hlen

/-- The physical page that `AllocPhysPage` returns is in none of the places for the moment. -/
theorem alloc {p : ℕ} {m' : Maps} (h : m.Partitioned) (hp : m.alloc = some (p, m')) :
    p < 2 ^ 30 ∧ m'.b.Sound (p :: m'.deferred) ∧ m'.a = m.a ∧ m'.b.pageMap = m.b.pageMap ∧
      m'.b.logicalFree = m.b.logicalFree := by
  unfold Maps.alloc at hp
  split_ifs at hp with hnil hfull
  · obtain ⟨rfl, rfl⟩ := Prod.mk.injEq .. ▸ Option.some.inj hp
    have hlt : m.b.physPages < maxNumPages := Nat.lt_of_le_of_ne h.b.pages hfull
    refine ⟨Nat.lt_trans hlt (by decide), ⟨?_, hlt, h.b.free_nodup, h.b.free_lt,
      h.b.free_invalid⟩, rfl, rfl, rfl⟩
    rw [List.range_succ]
    refine List.Perm.trans ?_ (h.b.held.append_right _)
    simp only [List.perm_iff_count, List.count_append, List.count_cons, List.count_nil]
    intro a
    omega
  · obtain ⟨rfl, rfl⟩ := Prod.mk.injEq .. ▸ Option.some.inj hp
    have hlt : ∀ x ∈ m.b.physFree, x < maxNumPages := fun x hx =>
      Nat.lt_of_lt_of_le (h.b.mem_lt (by simp [hx])) h.b.pages
    obtain ⟨hget, -⟩ := lowestFree_spec hnil fun x hx => Nat.lt_trans (hlt x hx) (by decide)
    obtain ⟨hlen, hget⟩ := List.getElem?_eq_some_iff.mp hget
    have hmem := hlt _ (hget ▸ List.getElem_mem hlen)
    refine ⟨Nat.lt_trans hmem (by decide), h.b.withLists ?_, rfl, rfl, rfl⟩
    have herase := List.getElem_cons_eraseIdx_perm hlen
    rw [hget] at herase
    refine List.Perm.trans ?_ (herase.append_right _)
    simp only [List.perm_iff_count, List.count_append, List.count_cons]
    intro a
    omega

theorem putPage {id : ℕ} {r : ℕ × Option ℕ} {m' : Maps} (h : m.Partitioned)
    (hput : m.PutPage id r m') : (m'.release r.2).Partitioned := by
  rcases hput with ⟨-, -, -, -⟩ | @⟨physId, p, m', hid, hinv, -, hm⟩
  · exact h
  · obtain ⟨hp, hsound, ha, hmap, hfree⟩ := h.alloc hm
    have hnot : id ∉ m'.b.logicalFree := fun hmem => by
      have hsame := h.b.free_invalid id (hfree ▸ hmem)
      rw [hid] at hsame
      exact hinv (Option.some.inj hsame)
    refine retire (ha ▸ h.a) (ha ▸ h.committed) (Generation.Sound.set ?_ (hmap ▸ hid) hnot) hinv
    rw [entryIds_or_current hp]
    exact hsound

/-- Where the page had no physical page before, the maps are in order before the write, too. -/
theorem putPage_reserved {id : ℕ} {r : ℕ × Option ℕ} {m' : Maps} (h : m.Partitioned)
    (hput : m.PutPage id r m') (hr : ∀ physId, r.2 = some physId → physId = reservedPage) :
    m'.Partitioned := by
  have hrelease : m'.release r.2 = m' := by
    rcases hold : r.2 with _ | physId
    · rfl
    · rw [hr physId hold]
      simp [Maps.release, Maps.retire]
  exact hrelease ▸ h.putPage hput

theorem sortFree (h : m.Partitioned) : m.sortFree.Partitioned :=
  have hp := shellSort_perm m.b.logicalFree
  ⟨h.a, h.b.withFree (hp.nodup_iff.mpr h.b.free_nodup) fun _ hx => hp.mem_iff.mp hx, h.committed⟩

theorem newPage {count id : ℕ} {m' : Maps} (h : m.Partitioned) (hnew : m.NewPage count id m') :
    m'.Partitioned := by
  rcases hnew with ⟨-, hlast⟩ | @⟨start, hrun⟩ | _ | _
  · obtain ⟨l, hl⟩ := List.getLast?_eq_some_iff.mp hlast
    have hnodup := h.b.free_nodup
    rw [hl] at hnodup
    have hdrop : m.b.logicalFree.dropLast = l := by rw [hl, List.dropLast_concat]
    have hb := h.b.withFree (l := l) hnodup.of_append_left fun x hx => by simp [hl, hx]
    refine ⟨h.a, ?_, h.committed⟩
    have hres := hb.reserve (h.b.free_invalid id (by simp [hl])) fun hmem =>
      (List.disjoint_of_nodup_append hnodup) hmem (List.mem_singleton_self id)
    simpa only [Maps.reclaimOne, hdrop] using hres
  · have hs := h.sortFree
    have hperm := findRun_perm hs.b.free_lt hrun
    have hnodup := hperm.nodup_iff.mp hs.b.free_nodup
    have hmem : ∀ k < count, (shellSort m.b.logicalFree).getD start 0 + k ∈
        List.range' ((shellSort m.b.logicalFree).getD start 0) count := fun k hk => by
      rw [List.mem_range'_1]
      omega
    have hb := hs.b.withFree hnodup.of_append_right fun x hx =>
      hperm.mem_iff.mpr (List.mem_append_right _ hx)
    refine ⟨h.a, (hb.reserveRun (fun k hk => ?_) fun k hk hin => ?_).1, h.committed⟩
    · exact hs.b.free_invalid _ (hperm.mem_iff.mpr (List.mem_append_left _ (hmem k hk)))
    · exact (List.disjoint_of_nodup_append hnodup) (hmem k hk) hin
  · exact ⟨h.a, h.b.appendReserved count, h.committed⟩
  · exact ⟨h.a, h.sortFree.b.appendReserved count, h.committed⟩

end Maps.Partitioned

end NtAdmin.Wmi.PageMgr
