import NtAdmin.Wmi.PageMgr.Partition

/-! Runs of the calls of a page file, and the partition of its physical pages over them. -/
namespace NtAdmin.Wmi.PageMgr

open NtAdmin.Lib

variable {ps : ℕ}

inductive PageFileCmd (ps : ℕ)
  | transBegin
  | newPage (requestedCount : ℕ)
  | getPage (id : ℕ)
  | putPage (id : ℕ) (page : Page ps)
  | freePage (id : ℕ)
  | transCommit
  | transRollback
  | transCheckpoint (hFile : FileName) (pos : ℕ)

namespace PageFileCmd
open CPageFile

/-- One call, whatever it returns. -/
def step : PageFileCmd ps → World (CPageFile ps) → World (CPageFile ps)
  | .transBegin => CPageFile.transBegin.after
  | .newPage requestedCount => (CPageFile.newPage requestedCount).after
  | .getPage id => (CPageFile.getPage id).after
  | .putPage id page => (CPageFile.putPage id page).after
  | .freePage id => (CPageFile.freePage id).after
  | .transCommit => CPageFile.transCommit.after
  | .transRollback => CPageFile.transRollback.after
  | .transCheckpoint hFile pos => (CPageFile.transCheckpoint hFile pos).after

/-- `PutPage` replaces a physical page of an earlier transaction by the first of `r`. -/
def Replaces (r : ℕ × Option ℕ) : Prop := ∃ physId, r.2 = some physId ∧ physId ≠ reservedPage

/-- A commit that has its memory meets no reserved entry; where `PutPage` replaces a physical page
of an earlier transaction, the cache takes the new one; and a logical id of the map that is freed
in a transaction has at most 30 bits. -/
def Allowed : PageFileCmd ps → World (CPageFile ps) → Prop
  | .transCommit, w => w.obj.inTransaction = true → transCommitReserve.result w = .ok () →
    reservedPage ∉ w.obj.pageMapB.data
  | .putPage id page, w => (putPageTarget id).wp
    (fun r w₁ => Replaces r →
      (CPageCache.write r.1 page).result ⟨w₁.obj.cache, w₁.os⟩ = .ok ()) (fun _ _ => True) w
  | .freePage id, w =>
    w.obj.inTransaction = true → id < w.obj.maps.b.pageMap.length → id < 2 ^ 30
  | _, _ => True

/-- A page file that was just initialized. -/
def start (hFile : FileName) (cacheSize cacheSpillRatio : ℕ) (o : Os) : World (CPageFile ps) :=
  ⟨.init hFile cacheSize cacheSpillRatio, o⟩

/-- How a call can change the maps. -/
inductive Changes (w : World (CPageFile ps)) : PageFileCmd ps → Maps → Prop
  | same {c} : Changes w c w.obj.maps
  | transBegin : w.obj.inTransaction = false →
      Changes w .transBegin { w.obj.maps.resync with inTransaction := true }
  | newPage {n id m} : w.obj.inTransaction = true → w.obj.maps.NewPage n id m →
      Changes w (.newPage n) m
  | sortFree {n} : w.obj.inTransaction = true → Changes w (.newPage n) w.obj.maps.sortFree
  | putPage {id page r m} : w.obj.inTransaction = true → w.obj.maps.PutPage id r m →
      Changes w (.putPage id page) (m.release r.2)
  | putPageFails {id page r m w₁ e} : w.obj.inTransaction = true → w.obj.maps.PutPage id r m →
      (putPageTarget id).result w = .ok r → (putPageTarget id).after w = w₁ →
      (CPageCache.write r.1 page).result ⟨w₁.obj.cache, w₁.os⟩ = .error e →
      Changes w (.putPage id page) m
  | freePage {id physId} : w.obj.inTransaction = true → w.obj.maps.b.pageMap[id]? = some physId →
      physId ≠ invalidPage → Changes w (.freePage id) (w.obj.maps.freePage id physId)
  | transCommit : w.obj.inTransaction = true → transCommitReserve.result w = .ok () →
      Changes w .transCommit w.obj.maps.commit
  | transRollback : w.obj.inTransaction = true →
      Changes w .transRollback { w.obj.maps.resync with inTransaction := false }
  | rollbackFails : w.obj.inTransaction = true → ¬Ready w.obj →
      Changes w .transRollback { w.obj.maps with inTransaction := false }
  | strip {hFile pos} : w.obj.inTransaction = false →
      Changes w (.transCheckpoint hFile pos) w.obj.maps.strip
  | transCheckpoint {hFile pos} : w.obj.inTransaction = false →
      Changes w (.transCheckpoint hFile pos) w.obj.maps.checkpoint

/-- A call changes the maps in one of these ways, and no vector loses slots. -/
structure Moved (c : PageFileCmd ps) (w w' : World (CPageFile ps)) : Prop where
  changes : Changes w c w'.obj.maps
  caps : CapsLe w.obj w'.obj

theorem Moved.of_became {c : PageFileCmd ps} {w w' : World (CPageFile ps)} {m : Maps}
    (hc : Changes w c m) (h : Became m w w') : Moved c w w' := ⟨h.maps ▸ hc, h.caps⟩

theorem getPage_moved (w : World (CPageFile ps)) (id : ℕ) :
    Moved (.getPage id) w (step (.getPage id) w) := by
  refine Prog.after_of_wp ?_
  simp only [CPageFile.getPage, Prog.wp_bind, wp_getObj]
  rcases w.obj.pageMapB.data[id]? with _ | physId
  · exact ⟨.same, .refl _⟩
  · simp only [Prog.wp_bind, Prog.wp_ite, Prog.wp_throw]
    refine ⟨fun _ => ⟨.same, .refl _⟩, fun _ => ?_⟩
    rw [wp_onCache]
    exact Prog.wp_mono (Prog.wp_run _ _) (fun _ c _ => ⟨.same, capsLe_afterCache w c⟩)
      (fun _ c _ => ⟨.same, capsLe_afterCache w c⟩)

theorem putPage_moved (w : World (CPageFile ps)) (id : ℕ) (page : Page ps) :
    Moved (.putPage id page) w (step (.putPage id page) w) := by
  have htarget := Prog.wp_run (putPageTarget id) w
  have hwrite : (putPageTarget id).wp (fun r w₁ => (CPageCache.write r.1 page).wp
      (fun _ _ => True)
      (fun e _ => ((putPageTarget id).result w = .ok r ∧ (putPageTarget id).after w = w₁) ∧
        (CPageCache.write r.1 page).result ⟨w₁.obj.cache, w₁.os⟩ = .error e)
      ⟨w₁.obj.cache, w₁.os⟩) (fun _ _ => True) w :=
    Prog.wp_mono htarget (fun r w₁ h => Prog.wp_mono (Prog.wp_run _ _) (fun _ _ _ => trivial)
      fun e _ h' => ⟨h, h'.1⟩) (fun _ _ _ => trivial)
  refine Prog.after_of_wp
    (Prog.wp_mono (putPage_spec w id page hwrite) (fun _ w' h => ?_) (fun _ w' h => ?_))
  · obtain ⟨hin, r, m, w₁, c, hput, h₁, -, h⟩ := h
    exact ⟨h.maps ▸ .putPage hin hput, (h₁.caps.trans (capsLe_afterCache w₁ c)).trans h.caps⟩
  · rcases h with h | ⟨hin, r, m, w₁, e, c, hput, h₁, ⟨⟨hr, hafter⟩, hfail⟩, rfl⟩
    · exact .of_became .same h
    · refine ⟨?_, h₁.caps.trans (capsLe_afterCache w₁ c)⟩
      rw [h₁.afterCache c]
      exact .putPageFails hin hput hr hafter hfail

theorem transCheckpoint_moved (w : World (CPageFile ps)) (hFile : FileName) (pos : ℕ) :
    Moved (.transCheckpoint hFile pos) w (step (.transCheckpoint hFile pos) w) := by
  have hflush : CPageCache.flush.wp (fun _ _ => True) (fun _ _ => True) ⟨w.obj.cache, w.os⟩ :=
    Prog.wp_mono (Prog.wp_run _ _) (fun _ _ _ => trivial) (fun _ _ _ => trivial)
  have hmoved : ∀ {c : World (CPageCache ps)} {m} {w' : World (CPageFile ps)}, Became m (afterCache w c) w' →
      Changes w (.transCheckpoint hFile pos) m → Moved (.transCheckpoint hFile pos) w w' :=
    fun {c} _ _ h hm => ⟨h.maps ▸ hm, (capsLe_afterCache w c).trans h.caps⟩
  have hwrote : ∀ {name pos bs} {w₁ w' : World (CPageFile ps)}, Wrote name pos bs w₁ w' →
      Moved (.transCheckpoint hFile pos) w w₁ → Moved (.transCheckpoint hFile pos) w w' := by
    rintro name pos bs w₁ w' ⟨a, r, -, -, rfl⟩ h
    exact ⟨h.changes, h.caps⟩
  refine Prog.after_of_wp
    (Prog.wp_mono (transCheckpoint_spec hflush hFile pos) (fun _ w' h => ?_) (fun _ w' h => ?_))
  · obtain ⟨hin, c, -, w₁, h₁, -, h⟩ := h
    exact hwrote h (hmoved h₁ (.transCheckpoint hin))
  · rcases h with ⟨-, rfl⟩ | ⟨hin, ⟨c, -, rfl⟩ | ⟨c, -, -, h | h | h | ⟨w₁, h₁, _, _, -, h⟩⟩⟩
    · exact ⟨.same, .refl _⟩
    · exact ⟨.same, capsLe_afterCache w c⟩
    · exact hmoved h .same
    · exact hmoved h (.strip hin)
    · exact hmoved h (.transCheckpoint hin)
    · exact hwrote h (hmoved h₁ (.transCheckpoint hin))

/-- What any call does to the maps. -/
theorem step_moved (c : PageFileCmd ps) (w : World (CPageFile ps)) : Moved c w (c.step w) := by
  cases c with
  | transBegin =>
    refine Prog.after_of_wp
      (Prog.wp_mono (transBegin_spec w) (fun _ w' h => ?_) (fun _ w' h => ?_))
    · exact .of_became (.transBegin h.1) h.2.1
    · exact .of_became .same h.1
  | newPage n =>
    refine Prog.after_of_wp (Prog.wp_mono (newPage_spec w n) (fun _ w' h => ?_) (fun _ w' h => ?_))
    · obtain ⟨hin, m, hnew, h⟩ := h
      exact .of_became (.newPage hin hnew) h
    · rcases h with h | ⟨hin, h⟩
      · exact .of_became .same h
      · exact .of_became (.sortFree hin) h
  | getPage id => exact getPage_moved w id
  | putPage id page => exact putPage_moved w id page
  | freePage id =>
    refine Prog.after_of_wp
      (Prog.wp_mono (freePage_spec w id) (fun _ w' h => ?_) (fun _ w' h => ?_))
    · obtain ⟨hin, physId, hid, hinv, h⟩ := h
      exact .of_became (.freePage hin hid hinv) h
    · exact .of_became .same h
  | transCommit =>
    refine Prog.after_of_wp
      (Prog.wp_mono (transCommit_spec w) (fun _ w' h => ?_) (fun _ w' h => ?_))
    · obtain ⟨hin, hr, h⟩ := h
      exact .of_became (.transCommit hin hr) h
    · exact .of_became .same h.1
  | transRollback =>
    refine Prog.after_of_wp
      (Prog.wp_mono (transRollback_spec w) (fun _ w' h => ?_) (fun _ w' h => ?_))
    · exact .of_became (.transRollback h.1) h.2.1
    · rcases h with ⟨-, rfl⟩ | ⟨hin, hready, h⟩
      · exact ⟨.same, .refl _⟩
      · exact .of_became (.rollbackFails hin hready) h
  | transCheckpoint hFile pos => exact transCheckpoint_moved w hFile pos

section admissible
variable {c : PageFileCmd ps} {w : World (CPageFile ps)} {m : Maps}

theorem Changes.partitioned (h : Changes w c m) (hc : c.Allowed w)
    (hp : w.obj.maps.Partitioned) : m.Partitioned := by
  cases h with
  | same => exact hp
  | transBegin _ => exact hp.resync.withTransaction true
  | newPage _ hnew => exact hp.newPage hnew
  | sortFree _ => exact hp.sortFree
  | putPage _ hput => exact hp.putPage hput
  | @putPageFails _ _ r _ w₁ e _ hput hr hw₁ hfail =>
    refine hp.putPage_reserved hput fun physId hold => ?_
    by_contra hne
    have hok := (Prog.wp_result.mp hc).1 r hr ⟨physId, hold, hne⟩
    rw [hw₁, hfail] at hok
    cases hok
  | freePage hin hid hinv =>
    exact hp.freePage hid hinv (hc hin (List.getElem?_eq_some_iff.mp hid).1)
  | transCommit hin hres => exact hp.commit (hc hin hres)
  | transRollback _ => exact hp.resync.withTransaction false
  | rollbackFails _ _ => exact hp.withTransaction false
  | strip _ => exact hp.strip
  | transCheckpoint _ => exact hp.checkpoint

/-- One admissible call keeps the physical pages in order. -/
theorem step_partitioned (hc : c.Allowed w) (hp : w.obj.maps.Partitioned) :
    (c.step w).obj.maps.Partitioned := (step_moved c w).changes.partitioned hc hp

theorem retire_pageMap (m : Maps) (physId : ℕ) :
    (m.retire physId).b.pageMap = m.b.pageMap := by
  unfold Maps.retire
  split_ifs <;> rfl

theorem release_pageMap (m : Maps) (old : Option ℕ) :
    (m.release old).b.pageMap = m.b.pageMap := by
  rcases old with _ | physId
  · rfl
  · exact retire_pageMap m physId

theorem markReserved_reserved {l : List ℕ} {id : ℕ} (h : l[id]? = some reservedPage)
    (start count : ℕ) : (markReserved l start count)[id]? = some reservedPage := by
  induction count with
  | zero => exact h
  | succ count ih =>
    rw [markReserved_succ, List.getElem?_set]
    have hlen := (List.getElem?_eq_some_iff.mp ih).1
    split_ifs <;> first | rfl | exact ih | omega

theorem newPage_reserved {n id id' : ℕ} {m m' : Maps} (h : m.NewPage n id' m')
    (hid : m.b.pageMap[id]? = some reservedPage) : m'.b.pageMap[id]? = some reservedPage := by
  have hlen := (List.getElem?_eq_some_iff.mp hid).1
  rcases h with ⟨-, -⟩ | _ | _ | _
  · simp only [Maps.reclaimOne, List.getElem?_set]
    split_ifs <;> first | rfl | exact hid | omega
  · exact markReserved_reserved hid _ _
  · exact (List.getElem?_append_left hlen).trans hid
  · exact (List.getElem?_append_left hlen).trans hid

theorem putPage_pageMap {id id' : ℕ} {r : ℕ × Option ℕ} {m m' : Maps} (h : m.PutPage id' r m')
    (hne : id' ≠ id) : m'.b.pageMap[id]? = m.b.pageMap[id]? := by
  rcases h with ⟨-, -, -, -⟩ | @⟨physId, p, m', -, -, -, hm⟩
  · rfl
  · have hmap : m'.b.pageMap = m.b.pageMap := by
      unfold Maps.alloc at hm
      split_ifs at hm <;> cases hm <;> rfl
    simp only [Maps.mapCurrent, List.getElem?_set_ne hne, hmap]

/-- A reserved entry of an open transaction stays so until it is written or freed, or the
transaction is rolled back. -/
theorem Changes.reserved {id : ℕ} (h : Changes w c m) (hc : c.Allowed w)
    (hin : w.obj.inTransaction = true) (hid : w.obj.maps.b.pageMap[id]? = some reservedPage)
    (hput : ∀ page, c ≠ .putPage id page) (hfree : c ≠ .freePage id) (hroll : c ≠ .transRollback) :
    m.b.pageMap[id]? = some reservedPage := by
  cases h with
  | same => exact hid
  | transBegin hout => exact absurd hin (by simp [hout])
  | newPage _ hnew => exact newPage_reserved hnew hid
  | sortFree _ => exact hid
  | @putPage id' page r m' _ h =>
    have hne : id' ≠ id := fun heq => hput page (heq ▸ rfl)
    rw [release_pageMap, putPage_pageMap h hne, hid]
  | @putPageFails id' page r _ w₁ e _ h _ _ _ =>
    have hne : id' ≠ id := fun heq => hput page (heq ▸ rfl)
    rw [putPage_pageMap h hne, hid]
  | @freePage id' physId _ _ _ =>
    have hne : id' ≠ id := fun heq => hfree (heq ▸ rfl)
    simp only [Maps.freePage, retire_pageMap, List.getElem?_set_ne hne, hid]
  | transCommit _ hres => exact absurd (List.mem_of_getElem? hid) (hc hin hres)
  | transRollback _ => exact absurd rfl hroll
  | rollbackFails _ _ => exact absurd rfl hroll
  | strip hout => exact absurd hin (by simp [hout])
  | transCheckpoint hout => exact absurd hin (by simp [hout])

end admissible

theorem start_partitioned (hFile : FileName) (cacheSize cacheSpillRatio : ℕ) (o : Os) :
    (start hFile cacheSize cacheSpillRatio o : World (CPageFile ps)).obj.maps.Partitioned := by
  have hs : Generation.Sound ⟨[], [], [], [], 0⟩ [] :=
    ⟨.refl _, Nat.zero_le _, List.nodup_nil, fun _ h => absurd h List.not_mem_nil,
      fun _ h => absurd h List.not_mem_nil⟩
  exact ⟨hs, hs, List.not_mem_nil⟩

theorem run_partitioned {hFile : FileName} {cacheSize cacheSpillRatio : ℕ} {o : Os}
    {cs : List (PageFileCmd ps)} (hcs : Along step Allowed cs (start hFile cacheSize cacheSpillRatio o)) :
    (runAll step cs (start hFile cacheSize cacheSpillRatio o)).obj.maps.Partitioned :=
  runAll_invariant (I := fun w => w.obj.maps.Partitioned) (fun _ _ => step_partitioned)
    (start_partitioned hFile cacheSize cacheSpillRatio o) hcs

end PageFileCmd

/-- The physical pages that the maps of generation B hold, as often as they hold them. -/
def CPageFile.heldPages (s : CPageFile ps) : List ℕ :=
  mappedIds s.pageMapB.data ++ (s.physFreeListB.data ++ (s.replacedPagesB.data ++
    s.deferredFreeList.data))

open PageFileCmd in
/-- After every admissible run each physical page of the file is in exactly one place, no other page
is anywhere, and an entry that `NewPage` reserved stays reserved over the next admissible call, if
that does not write it, free it or roll it back. -/
theorem pageFile_partition (hFile : FileName) (cacheSize cacheSpillRatio : ℕ) (o : Os)
    (cs : List (PageFileCmd ps))
    (hcs : Along step Allowed cs (start hFile cacheSize cacheSpillRatio o)) :
    let w := runAll step cs (start hFile cacheSize cacheSpillRatio o)
    (∀ p < w.obj.physPagesB, w.obj.heldPages.count p = 1) ∧
      (∀ p ∈ w.obj.heldPages, p < w.obj.physPagesB) ∧
      ∀ c : PageFileCmd ps, c.Allowed w → ∀ id, w.obj.inTransaction = true →
        w.obj.pageMapB.data[id]? = some reservedPage → (∀ page, c ≠ .putPage id page) →
        c ≠ .freePage id → c ≠ .transRollback →
        (c.step w).obj.pageMapB.data[id]? = some reservedPage := by
  intro w
  have hp := run_partitioned hcs
  refine ⟨fun p hlt => ?_, fun p => hp.b.mem_lt, fun c hc id hin hid hput hfree hroll =>
    (step_moved c w).changes.reserved hc hin hid hput hfree hroll⟩
  rw [CPageFile.heldPages]
  exact (hp.b.held.count_eq p).trans
    (List.count_eq_one_of_mem List.nodup_range (List.mem_range.mpr hlt))

/-- A page is reserved and written and the transaction committed, with no failure anywhere. -/
theorem pageFile_partition_commit :
    let cs : List (PageFileCmd 1) :=
      [.transBegin, .newPage 1, .putPage 0 ⟨[7], rfl⟩, .transCommit]
    let w := runAll PageFileCmd.step cs (PageFileCmd.start .objectsData 4 4 ⟨[], [], fun _ => [], []⟩)
    w.obj.pageMapB.data = [0x40000000] ∧ ∀ p < w.obj.physPagesB, w.obj.heldPages.count p = 1 := by
  intro cs w
  have hcs : Along PageFileCmd.step PageFileCmd.Allowed cs
      (PageFileCmd.start .objectsData 4 4 ⟨[], [], fun _ => [], []⟩) := by
    refine ⟨trivial, trivial, ?_, ?_, trivial⟩
    · rintro ⟨physId, h, hne⟩
      cases h
      exact absurd rfl hne
    · intro _ _
      decide
  exact ⟨rfl, (pageFile_partition .objectsData 4 4 _ cs hcs).1⟩

/-- A reserved page is committed without having been written: the commit takes its entry for a
physical page, which the file does not have. -/
theorem pageFile_commit_reserved :
    ¬∀ cs : List (PageFileCmd wmirepPageSize),
      let s := (runAll PageFileCmd.step cs
        (PageFileCmd.start .objectsData 64 4 ⟨[], [], fun _ => [], []⟩)).obj
      ∀ p ∈ s.heldPages, p < s.physPagesB := by
  intro h
  have hlt := h [.transBegin, .newPage 1, .transCommit] 0x3FFFFFFE (by decide)
  exact absurd hlt (by decide)

end NtAdmin.Wmi.PageMgr
