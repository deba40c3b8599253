import NtAdmin.Wmi.PageMgr.FreeRuns
import NtAdmin.Wmi.PageMgr.Rollback

/-! Which logical pages `NewPage` returns. -/
namespace NtAdmin.Wmi.PageMgr

open NtAdmin.Lib

/-- The logical free list names unused entries of the page map, each of them once. -/
structure Generation.FreeListed (g : Generation) : Prop where
  nodup : g.logicalFree.Nodup
  lt : ∀ i ∈ g.logicalFree, i < 2 ^ 30
  invalid : ∀ i ∈ g.logicalFree, g.pageMap[i]? = some invalidPage

structure Maps.FreeListed (m : Maps) : Prop where
  a : m.a.FreeListed
  b : m.b.FreeListed

section markReserved
variable {l : List ℕ} {id count i : ℕ}

theorem length_markReserved (l : List ℕ) (id count : ℕ) :
    (markReserved l id count).length = l.length := by
  induction count with
  | zero => rfl
  | succ count ih =>
    rw [markReserved_succ, List.length_set, ih]

theorem getElem?_markReserved_outside (h : i < id ∨ id + count ≤ i) :
    (markReserved l id count)[i]? = l[i]? := by
  induction count with
  | zero => rfl
  | succ count ih =>
    rw [markReserved_succ, List.getElem?_set_ne (by omega), ih (by omega)]

theorem getElem?_markReserved_inside (h : i < count) (hlen : id + i < l.length) :
    (markReserved l id count)[id + i]? = some reservedPage := by
  induction count with
  | zero => exact absurd h (Nat.not_lt_zero i)
  | succ count ih =>
    rw [markReserved_succ]
    by_cases heq : i = count
    · rw [heq, List.getElem?_set_self (by rw [length_markReserved, ← heq]; exact hlen)]
    · rw [List.getElem?_set_ne (by omega), ih (by omega)]

end markReserved

namespace Generation.FreeListed
variable {g : Generation}

/-- Another map in which the listed entries are unused, and a shorter or reordered list. -/
theorem change (h : g.FreeListed) {pageMap logicalFree : List ℕ} (hl : logicalFree.Nodup)
    (hsub : logicalFree ⊆ g.logicalFree)
    (hmap : ∀ i ∈ logicalFree, g.pageMap[i]? = some invalidPage → pageMap[i]? = some invalidPage) :
    Generation.FreeListed { g with pageMap := pageMap, logicalFree := logicalFree } where
  nodup := hl
  lt i hi := h.lt i (hsub hi)
  invalid i hi := hmap i hi (h.invalid i (hsub hi))

theorem set (h : g.FreeListed) {id e : ℕ} (hid : id ∉ g.logicalFree) :
    Generation.FreeListed { g with pageMap := g.pageMap.set id e } :=
  h.change h.nodup (fun _ hi => hi) fun i hi hinv => by
    have hne : id ≠ i := fun heq => hid (heq ▸ hi)
    rwa [List.getElem?_set_ne hne]

theorem not_mem (h : g.FreeListed) {id e : ℕ} (hid : g.pageMap[id]? = some e)
    (he : e ≠ invalidPage) : id ∉ g.logicalFree := fun hmem => by
  have hinv := h.invalid id hmem
  rw [hid] at hinv
  exact he (Option.some.inj hinv)

theorem append (h : g.FreeListed) (n : ℕ) :
    Generation.FreeListed { g with pageMap := g.pageMap ++ List.replicate n reservedPage } :=
  h.change h.nodup (fun _ hi => hi) fun i _ hinv => by
    rwa [List.getElem?_append_left (List.getElem?_eq_some_iff.mp hinv).1]

end Generation.FreeListed

namespace Maps.FreeListed
variable {m : Maps}

theorem resync (h : m.FreeListed) : m.resync.FreeListed := ⟨h.a, h.a⟩

theorem commit (h : m.FreeListed) : m.commit.FreeListed := by
  have hb : m.commit.b.FreeListed :=
    ⟨h.b.nodup, h.b.lt, fun i hi => getElem?_moveCurrentToPrevious (h.b.invalid i hi)⟩
  exact ⟨hb, hb⟩

theorem strip (h : m.FreeListed) : m.strip.FreeListed :=
  ⟨⟨h.a.nodup, h.a.lt, fun i hi => getElem?_stripHiBits (h.a.invalid i hi)⟩, h.b⟩

theorem checkpoint (h : m.FreeListed) : m.checkpoint.FreeListed := by
  have ha : m.checkpoint.a.FreeListed := ⟨h.a.nodup, h.a.lt, h.strip.a.invalid⟩
  exact ⟨ha, ha⟩

/-- What becomes of a physical page does not matter. -/
theorem retire (h : m.FreeListed) (physId : ℕ) : (m.retire physId).FreeListed := by
  unfold Maps.retire
  split_ifs
  · exact h
  · exact ⟨h.a, ⟨h.b.nodup, h.b.lt, h.b.invalid⟩⟩
  · exact ⟨h.a, h.b⟩
  · exact ⟨h.a, ⟨h.b.nodup, h.b.lt, h.b.invalid⟩⟩

theorem release (h : m.FreeListed) (old : Option ℕ) : (m.release old).FreeListed := by
  cases old with
  | none => exact h
  | some physId => exact h.retire physId

theorem freePage (h : m.FreeListed) {id physId : ℕ} (hid : m.b.pageMap[id]? = some physId)
    (hinv : physId ≠ invalidPage) (hlt : id < 2 ^ 30) : (m.freePage id physId).FreeListed := by
  have hnot := h.b.not_mem hid hinv
  have hset := @Generation.FreeListed.set m.b h.b id invalidPage hnot
  have hlen := (List.getElem?_eq_some_iff.mp hid).1
  unfold Maps.freePage
  rw [merePageId_of_lt hlt]
  apply Maps.FreeListed.retire
  refine ⟨h.a, ?_⟩
  constructor
  · exact hset.nodup.append (List.nodup_singleton _) (by simpa using hnot)
  · intro i hi
    rcases List.mem_append.mp hi with hi | hi
    · exact hset.lt i hi
    · rw [List.mem_singleton.mp hi]
      exact hlt
  · intro i hi
    rcases List.mem_append.mp hi with hi | hi
    · exact hset.invalid i hi
    · rw [List.mem_singleton.mp hi]
      exact List.getElem?_set_self hlen

theorem putPage (h : m.FreeListed) {id : ℕ} {r : ℕ × Option ℕ} {m' : Maps}
    (hput : m.PutPage id r m') : m'.FreeListed := by
  rcases hput with ⟨-, -, -, -⟩ | @⟨physId, p, m', hid, hinv, -, hm⟩
  · exact h
  · have hset (e : ℕ) := @Generation.FreeListed.set m.b h.b id e (h.b.not_mem hid hinv)
    unfold Maps.alloc at hm
    split_ifs at hm
    · obtain ⟨hp, rfl⟩ := Prod.mk.inj (Option.some.inj hm)
      subst hp
      exact ⟨h.a, ⟨h.b.nodup, h.b.lt, (hset _).invalid⟩⟩
    · obtain ⟨hp, rfl⟩ := Prod.mk.inj (Option.some.inj hm)
      subst hp
      exact ⟨h.a, ⟨h.b.nodup, h.b.lt, (hset _).invalid⟩⟩

theorem sortFree (h : m.FreeListed) : m.sortFree.FreeListed := by
  have hp := shellSort_perm m.b.logicalFree
  exact ⟨h.a, h.b.change (hp.nodup_iff.mpr h.b.nodup) (fun _ hx => hp.mem_iff.mp hx)
    fun _ _ hinv => hinv⟩

end Maps.FreeListed

namespace CPageFile
variable {ps : ℕ}

/-- `NewPage` takes a run of free ids, or extends the map if there is none. -/
theorem newPage_reclaimed (w : World (CPageFile ps)) (count : ℕ) :
    (newPage count).wp
      (fun id w' => ∃ m, Became m w w' ∧ (w.obj.maps.reclaimed count = some (id, m) ∨
        w.obj.maps.reclaimed count = none ∧ id = w.obj.maps.b.pageMap.length % 2 ^ 32 ∧
          (m = w.obj.maps.appendReserved count ∨ m = w.obj.maps.sortFree.appendReserved count)))
      (fun _ _ => True) w := by
  simp only [newPage, Prog.wp_bind, wp_getObj, Prog.wp_ite, Prog.wp_throw, Prog.wp_tryCatch]
  refine ⟨fun _ => trivial, fun _ => ?_⟩
  refine Prog.wp_mono (reclaimLogicalPages_reclaimed w count) (fun id w₁ h₁ => ?_)
    (fun e w₁ h₁ => ?_)
  · obtain ⟨m, hm, h₁⟩ := h₁
    exact ⟨m, h₁, Or.inl hm⟩
  · obtain ⟨rfl, hnone, h₁⟩ := h₁
    simp only [Prog.wp_bind, Prog.wp_ite, Prog.wp_throw]
    refine ⟨fun hne => absurd rfl hne, fun _ => ?_⟩
    rcases h₁ with h₁ | h₁
    · refine Prog.wp_mono (extendMap_spec w₁ count) (fun id w₂ h₂ => ?_) (fun _ _ _ => trivial)
      rw [h₁.maps] at h₂
      exact ⟨_, h₁.trans h₂.2, Or.inr ⟨hnone, h₂.1, Or.inl rfl⟩⟩
    · refine Prog.wp_mono (extendMap_spec w₁ count) (fun id w₂ h₂ => ?_) (fun _ _ _ => trivial)
      rw [h₁.maps] at h₂
      exact ⟨_, h₁.trans h₂.2, Or.inr ⟨hnone, h₂.1, Or.inr rfl⟩⟩

end CPageFile

/-- The ids from `id` on were free and named by the free list; they are reserved and no longer
named, and nothing else changes. -/
structure Maps.Reclaims (m : Maps) (count id : ℕ) (m' : Maps) : Prop where
  free : ∀ k < count, m.b.pageMap[id + k]? = some invalidPage
  reserved : ∀ k < count, m'.b.pageMap[id + k]? = some reservedPage
  others : ∀ i, i < id ∨ id + count ≤ i → m'.b.pageMap[i]? = m.b.pageMap[i]?
  nodup : m.b.logicalFree.Nodup
  removed : m.b.logicalFree.Perm (List.range' id count ++ m'.b.logicalFree)

/-- The ids from `id` on are new ones behind the map. -/
structure Maps.Extends (m : Maps) (count id : ℕ) (m' : Maps) : Prop where
  fresh : id = m.b.pageMap.length
  pageMap : m'.b.pageMap = m.b.pageMap ++ List.replicate count reservedPage
  kept : m'.b.logicalFree.Perm m.b.logicalFree

/-- What is left on the list is in order. -/
theorem Maps.Reclaims.freeListed {m m' : Maps} {count id : ℕ} (h : m.b.FreeListed)
    (hr : m.Reclaims count id m') : m'.b.FreeListed := by
  have hnodup := hr.removed.nodup_iff.mp hr.nodup
  have hmem {i : ℕ} (hi : i ∈ m'.b.logicalFree) : i ∈ m.b.logicalFree :=
    hr.removed.mem_iff.mpr (List.mem_append_right _ hi)
  refine ⟨hnodup.of_append_right, fun i hi => h.lt i (hmem hi), fun i hi => ?_⟩
  have hout : i < id ∨ id + count ≤ i := by
    by_contra hin
    have hin' : i ∈ List.range' id count := List.mem_range'_1.mpr (by omega)
    exact List.disjoint_of_nodup_append hnodup hin' hi
  rw [hr.others i hout]
  exact h.invalid i (hmem hi)

namespace Maps
variable {m m' : Maps} {count id : ℕ}

theorem reclaimOne_spec (h : m.FreeListed) (hlast : m.b.logicalFree.getLast? = some id) :
    m.Reclaims 1 id (m.reclaimOne id) := by
  obtain ⟨l, hl⟩ := List.getLast?_eq_some_iff.mp hlast
  have hinv := h.b.invalid id (by simp [hl])
  have hlen := (List.getElem?_eq_some_iff.mp hinv).1
  constructor
  · intro k hk
    rw [Nat.lt_one_iff.mp hk]
    exact hinv
  · intro k hk
    rw [Nat.lt_one_iff.mp hk]
    exact List.getElem?_set_self hlen
  · intro i hi
    exact List.getElem?_set_ne (by omega)
  · exact h.b.nodup
  · rw [reclaimOne, hl, List.dropLast_concat]
    exact List.perm_append_comm

theorem reclaimRun_spec (h : m.FreeListed) {start : ℕ}
    (hrun : findRun (shellSort m.b.logicalFree) count ((shellSort m.b.logicalFree).length - 1) 0 1 0 =
      some start) :
    m.Reclaims count ((shellSort m.b.logicalFree).getD start 0) (m.reclaimRun start count) := by
  have hs := h.sortFree
  have hperm := findRun_perm hs.b.lt hrun
  have hinv (k : ℕ) (hk : k < count) :
      m.b.pageMap[(shellSort m.b.logicalFree).getD start 0 + k]? = some invalidPage := by
    refine hs.b.invalid _ (hperm.mem_iff.mpr (List.mem_append_left _ ?_))
    exact List.mem_range'_1.mpr ⟨Nat.le_add_right _ _, Nat.add_lt_add_left hk _⟩
  constructor
  · exact hinv
  · intro k hk
    exact getElem?_markReserved_inside hk (List.getElem?_eq_some_iff.mp (hinv k hk)).1
  · exact fun i hi => getElem?_markReserved_outside hi
  · exact h.b.nodup
  · exact (shellSort_perm m.b.logicalFree).symm.trans hperm

theorem reclaims_of_reclaimed (h : m.FreeListed) (hsome : m.reclaimed count = some (id, m')) :
    m.Reclaims count id m' := by
  unfold reclaimed at hsome
  split_ifs at hsome with hshort hone
  · obtain ⟨id', hlast, heq⟩ := Option.map_eq_some_iff.1 hsome
    obtain ⟨rfl, rfl⟩ := Prod.mk.inj heq
    rw [hone]
    exact reclaimOne_spec h hlast
  · obtain ⟨start, hrun, heq⟩ := Option.map_eq_some_iff.1 hsome
    obtain ⟨rfl, rfl⟩ := Prod.mk.inj heq
    exact reclaimRun_spec h hrun

/-- Nothing is taken only if there is no run. -/
theorem not_hasRun_of_reclaimed (h : m.FreeListed) (hpos : 1 ≤ count)
    (hnone : m.reclaimed count = none) : ¬HasRun m.b.logicalFree count := by
  rintro ⟨id, hrun⟩
  unfold reclaimed at hnone
  split_ifs at hnone with hshort hone
  · have hsub : List.range' id count ⊆ m.b.logicalFree := by
      intro i hi
      obtain ⟨hle, hlt⟩ := List.mem_range'_1.mp hi
      obtain ⟨k, rfl⟩ := Nat.exists_eq_add_of_le hle
      exact hrun k (by omega)
    have hle := (List.subperm_of_subset List.nodup_range' hsub).length_le
    rw [List.length_range'] at hle
    omega
  · have hnil := List.getLast?_eq_none_iff.1 (Option.map_eq_none_iff.1 hnone)
    have hmem := hrun 0 (by omega)
    rw [hnil] at hmem
    exact List.not_mem_nil hmem
  · have hrun' := Option.map_eq_none_iff.1 hnone
    have hs := shellSort_perm m.b.logicalFree
    refine not_hasRun_of_findRun (fun x hx => h.b.lt x (hs.mem_iff.1 hx)) (fun a b hab hb => ?_)
      (by omega) hrun' ⟨id, fun k hk => hs.mem_iff.2 (hrun k hk)⟩
    exact shellSort_strict h.b.nodup hab (by rwa [hs.length_eq] at hb)

end Maps

section runs
open PageFileCmd CPageFile
variable {ps : ℕ} {w : World (CPageFile ps)}

/-- A logical id of the map that is freed in a transaction has at most 30 bits. -/
def PageFileCmd.Freeable : PageFileCmd ps → World (CPageFile ps) → Prop
  | .freePage id, w =>
    w.obj.inTransaction = true → id < w.obj.maps.b.pageMap.length → id < 2 ^ 30
  | _, _ => True

theorem step_freeListed {c : PageFileCmd ps} (hc : c.Freeable w) (h : w.obj.maps.FreeListed) :
    (c.step w).obj.maps.FreeListed := by
  have hchanges := (step_moved c w).changes
  generalize (c.step w).obj.maps = m at hchanges
  cases hchanges with
  | same => exact h
  | transBegin _ => exact ⟨h.a, h.a⟩
  | @newPage count id _ _ hnew =>
    rcases hnew with ⟨hone, hlast⟩ | @⟨start, hrun⟩ | _ | _
    · have hr := Maps.reclaimOne_spec h hlast
      exact ⟨h.a, hr.freeListed h.b⟩
    · exact ⟨h.a, (Maps.reclaimRun_spec h hrun).freeListed h.b⟩
    · exact ⟨h.a, h.b.append count⟩
    · exact ⟨h.a, h.sortFree.b.append count⟩
  | sortFree _ => exact h.sortFree
  | putPage _ hput => exact (h.putPage hput).release _
  | putPageFails _ hput => exact h.putPage hput
  | freePage hin hid hinv =>
    exact h.freePage hid hinv (hc hin (List.getElem?_eq_some_iff.mp hid).1)
  | transCommit _ _ => exact h.commit
  | transRollback _ => exact ⟨h.a, h.a⟩
  | rollbackFails _ _ => exact ⟨h.a, h.b⟩
  | strip _ => exact h.strip
  | transCheckpoint _ => exact h.checkpoint

theorem run_freeListed {hFile : FileName} {cacheSize cacheSpillRatio : ℕ} {o : Os}
    {cs : List (PageFileCmd ps)}
    (hcs : Along step Freeable cs (start hFile cacheSize cacheSpillRatio o)) :
    (runAll step cs (start hFile cacheSize cacheSpillRatio o)).obj.maps.FreeListed := by
  have hempty : Generation.FreeListed ⟨[], [], [], [], 0⟩ :=
    ⟨List.nodup_nil, fun _ h => absurd h List.not_mem_nil, fun _ h => absurd h List.not_mem_nil⟩
  exact runAll_invariant (I := fun w => w.obj.maps.FreeListed) (fun _ _ => step_freeListed)
    ⟨hempty, hempty⟩ hcs

/-- `NewPage` returns free ids in succession, which it reserves and takes off the free list; if
there are none, it extends the map by new ones, as long as their ids fit into a double word. -/
theorem newPage_logical (hFile : FileName) (cacheSize cacheSpillRatio : ℕ) (o : Os)
    (cs : List (PageFileCmd ps))
    (hcs : Along step Freeable cs (start hFile cacheSize cacheSpillRatio o)) (count : ℕ)
    (hpos : 1 ≤ count) (id : ℕ) :
    let w := runAll step cs (start hFile cacheSize cacheSpillRatio o)
    let m := w.obj.maps
    let m' := (step (.newPage count) w).obj.maps
    (CPageFile.newPage count).result w = .ok id →
      (HasRun m.b.logicalFree count → m.Reclaims count id m') ∧
        (¬HasRun m.b.logicalFree count →
          (m.Extends count id m' ↔ m.b.pageMap.length < 2 ^ 32)) := by
  intro w m m' hok
  have h : m.FreeListed := run_freeListed hcs
  obtain ⟨m₁, hbecame, hcases⟩ := (Prog.wp_result.mp (newPage_reclaimed w count)).1 id hok
  have hm : m' = m₁ := hbecame.maps
  rw [hm]
  rcases hcases with hsome | ⟨hnone, hid, hm₁⟩
  · have hr := Maps.reclaims_of_reclaimed h hsome
    refine ⟨fun _ => hr, fun hno => ?_⟩
    refine absurd ⟨id, fun k hk => ?_⟩ hno
    refine hr.removed.mem_iff.mpr (List.mem_append_left _ ?_)
    exact List.mem_range'_1.mpr ⟨Nat.le_add_right _ _, Nat.add_lt_add_left hk _⟩
  · have hno := Maps.not_hasRun_of_reclaimed h hpos hnone
    refine ⟨fun hrun => absurd hrun hno, fun _ => ⟨fun hext => ?_, fun hlt => ?_⟩⟩
    · have hfresh : id = m.b.pageMap.length := hext.fresh
      have hmod := Nat.mod_lt m.b.pageMap.length (show 0 < 2 ^ 32 by decide)
      have hid' : id = m.b.pageMap.length % 2 ^ 32 := hid
      omega
    · have hid' : id = m.b.pageMap.length := hid.trans (Nat.mod_eq_of_lt hlt)
      rcases hm₁ with rfl | rfl
      · exact ⟨hid', rfl, .refl _⟩
      · exact ⟨hid', rfl, shellSort_perm _⟩

/-- Three pages are reserved and freed again, and two of them reclaimed. -/
theorem newPage_logical_reclaims :
    let w : World (CPageFile 1) := runAll step
      [.transBegin, .newPage 3, .freePage 2, .freePage 0, .freePage 1] (freshFile 1)
    w.obj.maps.Reclaims 2 0 (step (.newPage 2) w).obj.maps := by
  intro w
  have hcs : Along step Freeable
      [.transBegin, .newPage 3, .freePage 2, .freePage 0, .freePage 1] (freshFile 1) :=
    ⟨trivial, trivial, fun _ _ => show 2 < 2 ^ 30 by decide,
      fun _ _ => show 0 < 2 ^ 30 by decide, fun _ _ => show 1 < 2 ^ 30 by decide, trivial⟩
  have hrun : HasRun w.obj.maps.b.logicalFree 2 := by
    refine ⟨0, fun k hk => ?_⟩
    have hfree : w.obj.maps.b.logicalFree = [2, 0, 1] := rfl
    rw [hfree]
    obtain rfl | rfl : k = 0 ∨ k = 1 := by omega
    · decide
    · decide
  exact (newPage_logical .objectsData 64 4 _ _ hcs 2 (by decide) 0 rfl).1 hrun

section calm
variable {Q : Unit → World (CPageFile ps) → Prop} {E : WinError → World (CPageFile ps) → Prop}

theorem wp_reserve_calm {l : Lens (CPageFile ps) (Vec ℕ)} {n : ℕ} (hc : w.os.Calm)
    (hok : ∀ v, v.data = (l.get w.obj).data → Q () ⟨l.set v w.obj, w.os⟩) :
    (reserve l n).wp Q E w := by
  refine wp_reserve (fun v a hd _ _ ha => ?_) (fun a _ hne _ => absurd hc.1 hne)
  have hos : ({ w.os with allocs := a } : Os) = w.os := by
    rw [hc.1] at ha
    rw [List.suffix_nil.mp ha, ← hc.1]
  rw [hos]
  exact hok v hd

theorem wp_pushBack_calm {l : Lens (CPageFile ps) (Vec ℕ)} {x : ℕ} (hc : w.os.Calm)
    (hok : ∀ v, v.data = (l.get w.obj).data ++ [x] → Q () ⟨l.set v w.obj, w.os⟩) :
    (pushBack l x).wp Q E w := by
  simp only [pushBack, assign, Prog.wp_bind, wp_getObj]
  refine wp_reserve_calm hc fun v hd => ?_
  simp only [wp_modifyObj, Lens.get_set, Lens.set_set]
  exact hok _ rfl

theorem appendReserved_calm (hc : w.os.Calm) (n : ℕ) :
    (appendReserved n).wp (fun _ _ => True) (fun _ _ => False) w := by
  induction n generalizing w with
  | zero => trivial
  | succ n ih =>
    simp only [appendReserved, Prog.wp_bind]
    exact wp_pushBack_calm hc fun v _ => ih hc

theorem newPage_calm (hc : w.os.Calm) (hin : w.obj.inTransaction = true) (count : ℕ) :
    (CPageFile.newPage count).wp (fun _ _ => True) (fun _ _ => False) w := by
  simp only [CPageFile.newPage, Prog.wp_bind, wp_getObj, Prog.wp_ite, Prog.wp_throw,
    Prog.wp_tryCatch]
  refine ⟨fun hout => by simp [hin] at hout, fun _ => ?_⟩
  refine Prog.wp_mono (reclaimLogicalPages_reclaimed w count) (fun _ _ _ => trivial) fun e w₁ h => ?_
  obtain ⟨rfl, -, hbecame⟩ := h
  have hc₁ : w₁.os.Calm := hbecame.elim (fun h => h.calm hc) fun h => h.calm hc
  simp only [Prog.wp_bind, Prog.wp_ite, Prog.wp_throw]
  refine ⟨fun hne => hne rfl, fun _ => ?_⟩
  simp only [extendMap, Prog.wp_bind, wp_getObj]
  refine wp_reserve_calm hc₁ fun v _ => ?_
  simp only [Prog.wp_bind]
  refine wp_reserve_calm hc₁ fun v' _ => ?_
  simp only [Prog.wp_bind]
  refine Prog.wp_mono (appendReserved_calm ?_ count) (fun _ _ _ => trivial) fun _ _ => False.elim
  exact hc₁

theorem freePage_calm {id : ℕ} (hc : w.os.Calm) (hin : w.obj.inTransaction = true)
    (hid : w.obj.pageMapB.data[id]? = some reservedPage) :
    (CPageFile.freePage id).wp (fun _ _ => True) (fun _ _ => False) w := by
  simp only [CPageFile.freePage, Prog.wp_bind, wp_getObj, Prog.wp_ite, Prog.wp_throw]
  refine ⟨fun hout => by simp [hin] at hout, fun _ => ?_⟩
  rw [hid]
  simp only [Prog.wp_bind, Prog.wp_ite, Prog.wp_throw]
  refine ⟨fun hinv => absurd hinv (by decide), fun _ => ?_⟩
  have hreserve : (freePageReserve reservedPage).wp (fun _ w' => w'.os.Calm) (fun _ _ => False) w := by
    simp only [freePageReserve, Prog.wp_bind, wp_getObj]
    refine wp_reserve_calm hc fun v _ => ?_
    simp only [Prog.wp_bind]
    refine wp_reserve_calm hc fun v' _ => ?_
    rw [if_pos (by decide)]
    simp only [Prog.wp_bind]
    exact wp_reserve_calm hc fun _ _ => wp_reserve_calm hc fun _ _ => hc
  refine Prog.wp_mono hreserve (fun _ w₁ hc₁ => ?_) fun _ _ => False.elim
  simp only [Prog.wp_bind, wp_modifyObj]
  refine wp_pushBack_calm hc₁ fun v _ => ?_
  simp only [releasePhysPage, if_true, Prog.wp_pure]

end calm

/-- What a call without failures ensures. -/
theorem wp_of_calm {α : Type} {m : Op (CPageFile ps) α} {Q : α → World (CPageFile ps) → Prop}
    {E : WinError → World (CPageFile ps) → Prop} (h : m.wp Q E w)
    (hcalm : m.wp (fun _ _ => True) (fun _ _ => False) w) :
    ∃ a, m.result w = .ok a ∧ Q a (m.after w) := by
  rcases hres : m.result w with e | a
  · exact ((Prog.wp_result.mp hcalm).2 e hres).elim
  · exact ⟨a, rfl, (Prog.wp_result.mp h).1 a hres⟩

/-- A page whose id has more than 30 bits is freed under the id of a page that is in use. -/
theorem newPage_after_high (count high : ℕ) (hlt : high < count) (hpos : 0 < high)
    (hlow : merePageId high = 0) :
    let w : World (CPageFile 1) := runAll step
      [.transBegin, .newPage count, .freePage high] (freshFile 1)
    (CPageFile.newPage 1).result w = .ok 0 ∧ w.obj.maps.b.logicalFree = [0] ∧
      w.obj.maps.b.pageMap[0]? = some reservedPage := by
  intro w
  have hc₁ : (step .transBegin (freshFile 1)).os.Calm := ⟨rfl, rfl⟩
  have hmaps₁ : (step .transBegin (freshFile 1)).obj.maps =
      ⟨⟨[], [], [], [], 0⟩, ⟨[], [], [], [], 0⟩, [], true⟩ := rfl
  have hin₁ : (step .transBegin (freshFile 1)).obj.inTransaction = true := rfl
  generalize hw₁ : step .transBegin (freshFile 1) = w₁ at hc₁ hmaps₁ hin₁
  obtain ⟨id₂, -, m₂, hbecame₂, hcases₂⟩ :=
    wp_of_calm (newPage_reclaimed w₁ count) (newPage_calm hc₁ hin₁ count)
  have hnone : w₁.obj.maps.reclaimed count = none := by
    rw [hmaps₁, Maps.reclaimed, if_pos]
    exact Nat.lt_of_le_of_lt (Nat.zero_le high) hlt
  have hm₂ : m₂ = w₁.obj.maps.appendReserved count := by
    rcases hcases₂ with hsome | ⟨-, -, hm | hm⟩
    · rw [hnone] at hsome
      cases hsome
    · exact hm
    · rw [hm, hmaps₁]
      rfl
  have hc₂ := hbecame₂.calm hc₁
  have hmaps₂ : ((CPageFile.newPage count).after w₁).obj.maps =
      ⟨⟨[], [], [], [], 0⟩, ⟨List.replicate count reservedPage, [], [], [], 0⟩, [], true⟩ := by
    rw [hbecame₂.maps, hm₂, hmaps₁, Maps.appendReserved, List.nil_append]
  have hw₂ : step (.newPage count) w₁ = (CPageFile.newPage count).after w₁ := rfl
  generalize (CPageFile.newPage count).after w₁ = w₂ at hc₂ hmaps₂ hw₂
  have hin₂ : w₂.obj.inTransaction = true := congrArg Maps.inTransaction hmaps₂
  have hmap₂ : w₂.obj.pageMapB.data = List.replicate count reservedPage :=
    congrArg (·.b.pageMap) hmaps₂
  have hhigh : w₂.obj.pageMapB.data[high]? = some reservedPage := by
    rw [hmap₂, List.getElem?_replicate, if_pos hlt]
  obtain ⟨-, -, -, physId, hphys, -, hbecame₃⟩ :=
    wp_of_calm (freePage_spec w₂ high) (freePage_calm hc₂ hin₂ hhigh)
  have hphysId : physId = reservedPage := Option.some.inj (hphys.symm.trans hhigh)
  have hc₃ := hbecame₃.calm hc₂
  have hmaps₃ : ((CPageFile.freePage high).after w₂).obj.maps =
      ⟨⟨[], [], [], [], 0⟩,
        ⟨(List.replicate count reservedPage).set high invalidPage, [], [0], [], 0⟩, [], true⟩ := by
    rw [hbecame₃.maps, hphysId, hmaps₂, Maps.freePage, hlow, Maps.retire, if_pos rfl]
    rfl
  have hw : w = (CPageFile.freePage high).after w₂ := by
    show step (.freePage high) (step (.newPage count) (step .transBegin (freshFile 1))) = _
    rw [hw₁, hw₂]
    rfl
  rw [hw]
  generalize (CPageFile.freePage high).after w₂ = w₃ at hc₃ hmaps₃
  have hin₃ : w₃.obj.inTransaction = true := congrArg Maps.inTransaction hmaps₃
  obtain ⟨id₄, hok₄, m₄, -, hcases₄⟩ := wp_of_calm (newPage_reclaimed w₃ 1) (newPage_calm hc₃ hin₃ 1)
  refine ⟨?_, by rw [hmaps₃], ?_⟩
  · have hsome : w₃.obj.maps.reclaimed 1 = some (0, w₃.obj.maps.reclaimOne 0) := by
      rw [Maps.reclaimed, hmaps₃]
      rfl
    rw [hsome] at hcases₄
    rcases hcases₄ with heq | ⟨hnone, -⟩
    · rw [hok₄, (Prod.mk.inj (Option.some.inj heq)).1]
    · cases hnone
  · rw [hmaps₃]
    dsimp only
    rw [List.getElem?_set_ne (by omega), List.getElem?_replicate, if_pos (by omega)]

/-- Freeing page 2^30 of 2^30 + 1 pages makes the next `NewPage` return page 0, which is
reserved. -/
theorem not_newPage_logical_high :
    ¬∀ (cs : List (PageFileCmd 1)) (count id : ℕ), 1 ≤ count →
      let w := runAll step cs (freshFile 1)
      (CPageFile.newPage count).result w = .ok id → HasRun w.obj.maps.b.logicalFree count →
        w.obj.maps.Reclaims count id (step (.newPage count) w).obj.maps := by
  intro h
  have hrun := h [.transBegin, .newPage (2 ^ 30 + 1), .freePage (2 ^ 30)] 1 0 (Nat.le_refl 1)
  obtain ⟨hok, hfree, hused⟩ :=
    newPage_after_high (2 ^ 30 + 1) (2 ^ 30) (by omega) (by omega) (by decide)
  have hlisted : HasRun [0] 1 := ⟨0, fun k hk => by
    rw [Nat.lt_one_iff.mp hk]
    exact List.mem_cons_self⟩
  rw [← hfree] at hlisted
  have hinv := (hrun hok hlisted).free 0 Nat.one_pos
  rw [hused] at hinv
  exact absurd (Option.some.inj hinv) (by decide)

end runs

end NtAdmin.Wmi.PageMgr
