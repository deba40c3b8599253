import NtAdmin.Wmi.PageMgr.PageFileCache

/-! A rollback restores the pages and the lists that a transaction has found. -/
namespace NtAdmin.Wmi.PageMgr

open NtAdmin.Lib

variable {ps : ℕ}

namespace PageFileCmd
open CPageFile

/-- A commit that has its memory meets no reserved entry, and the physical pages it maps are in the
cache or in the data file. Map files are not the data file. -/
def Readable : PageFileCmd ps → World (CPageFile ps) → Prop
  | .transCommit, w => w.obj.inTransaction = true → transCommitReserve.result w = .ok () →
    reservedPage ∉ w.obj.pageMapB.data ∧
      ∀ p ∈ mappedIds w.obj.pageMapB.data, CPageCache.view (cacheWorld w) p ≠ none
  | .transCheckpoint hFile _, w => hFile ≠ w.obj.cache.hFile
  | _, _ => True

/-- The calls inside a transaction. -/
def IsPageCall : PageFileCmd ps → Prop
  | .newPage _ | .getPage _ | .putPage _ _ | .freePage _ => True
  | _ => False

section changes
variable {c : PageFileCmd ps} {w : World (CPageFile ps)} {m : Maps}

theorem Changes.isolated (h : Changes w c m) (hc : c.Readable w) (hi : w.obj.maps.Isolated)
    (hr : w.obj.inTransaction = true → Ready w.obj) : m.Isolated := by
  cases h with
  | same => exact hi
  | transBegin _ => exact hi.resync true
  | newPage hin hnew => exact hi.newPage hin hnew
  | sortFree hin => exact hi.loses hin (.refl _) _
  | putPage hin hput => exact (hi.putPage hin hput).2.1
  | putPageFails hin hput _ _ _ => exact (hi.putPage hin hput).1
  | freePage hin hid hinv => exact hi.freePage hin hid hinv
  | transCommit hin hres => exact hi.commit (hc hin hres).1
  | transRollback _ => exact hi.resync false
  | rollbackFails hin hnot => exact absurd (hr hin) hnot
  | strip hout => exact hi.strip hout
  | transCheckpoint hout => exact hi.checkpoint hout

theorem retire_a (m : Maps) (physId : ℕ) : (m.retire physId).a = m.a := by
  unfold Maps.retire
  split_ifs <;> rfl

theorem release_a (m : Maps) (old : Option ℕ) : (m.release old).a = m.a := by
  rcases old with _ | physId
  · rfl
  · exact retire_a m physId

theorem putPage_a {id : ℕ} {r : ℕ × Option ℕ} {m m' : Maps} (h : m.PutPage id r m') :
    m'.a = m.a ∧ m'.inTransaction = m.inTransaction := by
  rcases h with _ | @⟨physId, p, m', -, -, -, hm⟩
  · exact ⟨rfl, rfl⟩
  · unfold Maps.alloc at hm
    split_ifs at hm <;> cases hm <;> exact ⟨rfl, rfl⟩

theorem retire_inTransaction (m : Maps) (physId : ℕ) :
    (m.retire physId).inTransaction = m.inTransaction := by
  unfold Maps.retire
  split_ifs <;> rfl

theorem release_inTransaction (m : Maps) (old : Option ℕ) :
    (m.release old).inTransaction = m.inTransaction := by
  rcases old with _ | physId
  · rfl
  · exact retire_inTransaction m physId

/-- The calls inside a transaction leave generation A alone, and the transaction stays open. -/
theorem Changes.pageCall (h : Changes w c m) (hp : c.IsPageCall) :
    m.a = w.obj.maps.a ∧ m.inTransaction = w.obj.inTransaction := by
  cases h with
  | same => exact ⟨rfl, rfl⟩
  | newPage _ hnew => cases hnew <;> exact ⟨rfl, rfl⟩
  | sortFree _ => exact ⟨rfl, rfl⟩
  | putPage _ hput =>
    rw [release_a, release_inTransaction]
    exact putPage_a hput
  | putPageFails _ hput _ _ _ => exact putPage_a hput
  | freePage _ _ _ =>
    rw [Maps.freePage, retire_a, retire_inTransaction]
    exact ⟨rfl, rfl⟩
  | transBegin _ => exact hp.elim
  | transCommit _ _ => exact hp.elim
  | transRollback _ => exact hp.elim
  | rollbackFails _ _ => exact hp.elim
  | strip _ => exact hp.elim
  | transCheckpoint _ => exact hp.elim

/-- Only `Trans_Begin` opens a transaction. -/
theorem Changes.open (h : Changes w c m) (hc : c ≠ .transBegin) (hin : m.inTransaction = true) :
    w.obj.inTransaction = true ∧ m.a = w.obj.maps.a := by
  by_cases hp : c.IsPageCall
  · exact ⟨(h.pageCall hp).2.symm.trans hin, (h.pageCall hp).1⟩
  cases h with
  | same => exact ⟨hin, rfl⟩
  | transBegin _ => exact absurd rfl hc
  | transCommit _ _ => exact Bool.noConfusion hin
  | transRollback _ => exact Bool.noConfusion hin
  | rollbackFails _ _ => exact Bool.noConfusion hin
  | strip hout => exact Bool.noConfusion (hout.symm.trans hin)
  | transCheckpoint hout => exact Bool.noConfusion (hout.symm.trans hin)
  | newPage _ _ => exact absurd trivial hp
  | sortFree _ => exact absurd trivial hp
  | putPage _ _ => exact absurd trivial hp
  | putPageFails _ _ _ _ _ => exact absurd trivial hp
  | freePage _ _ _ => exact absurd trivial hp

/-- A commit apart, the physical pages of generation A stay the same. -/
theorem Changes.mappedIds_a (h : Changes w c m) (hc : c ≠ .transCommit)
    (hi : w.obj.maps.Isolated) : mappedIds m.a.pageMap = mappedIds w.obj.maps.a.pageMap := by
  have hstrip := mappedIds_stripHiBits (reservedPage_not_mem hi.settled)
  by_cases hp : c.IsPageCall
  · rw [(h.pageCall hp).1]
  cases h with
  | transCommit _ _ => exact absurd rfl hc
  | strip _ => exact hstrip
  | transCheckpoint _ => exact hstrip
  | same => rfl
  | transBegin _ => rfl
  | transRollback _ => rfl
  | rollbackFails _ _ => rfl
  | newPage _ _ => exact absurd trivial hp
  | sortFree _ => exact absurd trivial hp
  | putPage _ _ => exact absurd trivial hp
  | putPageFails _ _ _ _ _ => exact absurd trivial hp
  | freePage _ _ _ => exact absurd trivial hp

end changes

/-- What every run of these calls keeps. -/
structure Restorable (w : World (CPageFile ps)) : Prop where
  maps : w.obj.maps.Isolated
  cache : CPageCache.Inv (cacheWorld w)
  ready : w.obj.inTransaction = true → Ready w.obj
  readable : ∀ p ∈ mappedIds w.obj.maps.a.pageMap, CPageCache.view (cacheWorld w) p ≠ none

section steps
variable {c : PageFileCmd ps} {w w' : World (CPageFile ps)}

theorem ready_of_caps (h : Ready w.obj) (hk : CapsLe w.obj w'.obj)
    (ha : w'.obj.maps.a = w.obj.maps.a) : Ready w'.obj := by
  have h₁ : w'.obj.pageMapA.data = w.obj.pageMapA.data := congrArg Generation.pageMap ha
  have h₂ : w'.obj.physFreeListA.data = w.obj.physFreeListA.data :=
    congrArg Generation.physFree ha
  have h₃ : w'.obj.logicalFreeListA.data = w.obj.logicalFreeListA.data :=
    congrArg Generation.logicalFree ha
  have h₄ : w'.obj.replacedPagesA.data = w.obj.replacedPagesA.data :=
    congrArg Generation.replaced ha
  constructor
  · rw [Vec.size, h₁]
    exact h.pageMap.trans hk.pageMapB
  · rw [Vec.size, h₂]
    exact h.physFreeList.trans hk.physFreeListB
  · rw [Vec.size, h₃]
    exact h.logicalFreeList.trans hk.logicalFreeListB
  · rw [Vec.size, h₄]
    exact h.replacedPages.trans hk.replacedPagesB

/-- Where a transaction is open after a call, a rollback has its memory. -/
theorem step_ready (h : w.obj.inTransaction = true → Ready w.obj) :
    (c.step w).obj.inTransaction = true → Ready (c.step w).obj := by
  intro hin'
  have hm := step_moved c w
  by_cases hc : c = .transBegin
  · subst hc
    have hspec := Prog.after_of_wp (P := fun w' => w'.obj.maps = w.obj.maps ∨ Ready w'.obj)
      (Prog.wp_mono (transBegin_spec w) (fun _ w' h => Or.inr h.2.2) (fun _ w' h => Or.inl h.1.maps))
    rcases hspec with heq | hready
    · exact ready_of_caps (h ((congrArg Maps.inTransaction heq).symm.trans hin')) hm.caps
        (congrArg Maps.a heq)
    · exact hready
  · obtain ⟨hin, ha⟩ := hm.changes.open hc hin'
    exact ready_of_caps (h hin) hm.caps ha

theorem transCommit_cacheStep (h : CPageCache.Inv (cacheWorld w)) :
    CPageCache.Step (cacheWorld w) (cacheWorld (step .transCommit w)) :=
  Prog.after_of_wp (P := fun w' => CPageCache.Step (cacheWorld w) (cacheWorld w'))
    (Prog.wp_mono (transCommit_spec w) (fun _ _ h' => h'.2.2.cacheStep h)
      (fun _ _ h' => h'.1.cacheStep h))

/-- Only `PutPage` writes a page, and only a checkpoint writes another file. -/
theorem step_cacheStep (hps : ps ≤ wmirepPageSize) (hi : CPageCache.Inv (cacheWorld w))
    (hb : w.obj.maps.b.Apart w.obj.maps.deferred) (hput : ∀ id page, c ≠ .putPage id page)
    (hcheck : ∀ hFile pos, c ≠ .transCheckpoint hFile pos) :
    CPageCache.Step (cacheWorld w) (cacheWorld (c.step w)) := by
  have hbecame : ∀ {m w'}, Became m w w' → CPageCache.Step (cacheWorld w) (cacheWorld w') :=
    fun hb => hb.cacheStep hi
  have hafter : ∀ {α : Type} {m : Op (CPageFile ps) α},
      m.wp (fun _ w' => CPageCache.Step (cacheWorld w) (cacheWorld w'))
        (fun _ w' => CPageCache.Step (cacheWorld w) (cacheWorld w')) w →
      CPageCache.Step (cacheWorld w) (cacheWorld (m.after w)) :=
    fun h => Prog.after_of_wp (P := fun w' => CPageCache.Step (cacheWorld w) (cacheWorld w')) h
  cases c with
  | getPage id => exact getPage_kept hps hi hb id
  | putPage id page => exact absurd rfl (hput id page)
  | transCheckpoint hFile pos => exact absurd rfl (hcheck hFile pos)
  | transBegin =>
    exact hafter (Prog.wp_mono (transBegin_spec w) (fun _ _ h => hbecame h.2.1)
      (fun _ _ h => hbecame h.1))
  | newPage n =>
    exact hafter (Prog.wp_mono (newPage_spec w n) (fun _ _ h => h.2.elim fun _ h => hbecame h.2)
      (fun _ _ h => h.elim hbecame fun h => hbecame h.2))
  | freePage id =>
    exact hafter (Prog.wp_mono (freePage_spec w id)
      (fun _ _ h => h.2.elim fun _ h => hbecame h.2.2) (fun _ _ h => hbecame h))
  | transCommit => exact transCommit_cacheStep hi
  | transRollback =>
    refine hafter (Prog.wp_mono (transRollback_spec w) (fun _ _ h => hbecame h.2.1)
      (fun _ w' h' => ?_))
    rcases h' with ⟨-, rfl⟩ | ⟨-, -, h'⟩
    · exact .refl hi
    · exact hbecame h'

/-- The page that `PutPage` writes is none of generation A; the other calls change no page. -/
theorem step_view (hps : ps ≤ wmirepPageSize) (hc : c.Readable w) (h : Restorable w) :
    CPageCache.Inv (cacheWorld (c.step w)) ∧ ∀ p ∈ mappedIds w.obj.maps.a.pageMap, ∀ q,
      CPageCache.view (cacheWorld w) p = some q →
        CPageCache.view (cacheWorld (c.step w)) p = some q := by
  have hrange : ∀ p ∈ mappedIds w.obj.maps.a.pageMap, InRange ps p := fun p hp =>
    inRange_of_lt hps (h.maps.a.mem_lt (Or.inl hp)) h.maps.a.pages
  have hstep : ∀ {w'}, CPageCache.Step (cacheWorld w) (cacheWorld w') →
      CPageCache.Inv (cacheWorld w') ∧ ∀ p ∈ mappedIds w.obj.maps.a.pageMap, ∀ q,
        CPageCache.view (cacheWorld w) p = some q →
          CPageCache.view (cacheWorld w') p = some q :=
    fun hs => ⟨hs.inv, fun p hp q => hs.view p q (hrange p hp)⟩
  by_cases hput : ∃ id page, c = .putPage id page
  · obtain ⟨id, page, rfl⟩ := hput
    have hr : ∀ r m, w.obj.inTransaction = true → w.obj.maps.PutPage id r m → InRange ps r.1 := by
      intro r m hin hput
      obtain ⟨hm', -, -, hlt⟩ := h.maps.putPage hin hput
      exact inRange_of_lt hps hlt hm'.b.pages
    rcases putPage_kept h.cache id page hr with hs | ⟨r, m, hin, hput, hk⟩
    · exact hstep hs
    · obtain ⟨-, -, hnot, -⟩ := h.maps.putPage hin hput
      exact ⟨hk.inv, fun p hp q => hk.view p q (fun heq => hnot (heq ▸ hp)) (hrange p hp)⟩
  · by_cases hcheck : ∃ hFile pos, c = .transCheckpoint hFile pos
    · obtain ⟨hFile, pos, rfl⟩ := hcheck
      obtain ⟨hi, -, hv⟩ := transCheckpoint_kept h.cache hc pos
      exact ⟨hi, fun p hp q => hv p q (hrange p hp)⟩
    · exact hstep (step_cacheStep hps h.cache h.maps.b (fun id page heq => hput ⟨id, page, heq⟩)
        fun hFile pos heq => hcheck ⟨hFile, pos, heq⟩)

theorem step_restorable (hps : ps ≤ wmirepPageSize) (hc : c.Readable w) (h : Restorable w) :
    Restorable (c.step w) := by
  have hm := (step_moved c w).changes
  obtain ⟨hi, hv⟩ := step_view hps hc h
  refine ⟨hm.isolated hc h.maps h.ready, hi, step_ready h.ready, ?_⟩
  have hkept : ∀ p, CPageCache.view (cacheWorld w) p ≠ none →
      p ∈ mappedIds w.obj.maps.a.pageMap → CPageCache.view (cacheWorld (c.step w)) p ≠ none := by
    intro p hne hp
    obtain ⟨q, hq⟩ := Option.ne_none_iff_exists'.mp hne
    rw [hv p hp q hq]
    exact Option.some_ne_none q
  by_cases hcommit : c = .transCommit
  · subst hcommit
    have hstep := transCommit_cacheStep h.cache
    generalize hm' : (step .transCommit w).obj.maps = m at hm
    cases hm with
    | same =>
      intro p hp
      exact hkept p (h.readable p hp) hp
    | transCommit hin hres =>
      obtain ⟨hr, hread⟩ := hc hin hres
      intro p hp
      have heq : mappedIds w.obj.maps.commit.a.pageMap = mappedIds w.obj.maps.b.pageMap :=
        mappedIds_moveCurrentToPrevious hr
      rw [heq] at hp
      obtain ⟨q, hq⟩ := Option.ne_none_iff_exists'.mp (hread p hp)
      rw [hstep.view p q (inRange_of_lt hps (h.maps.b.mem_lt (Or.inl hp)) h.maps.b.pages) hq]
      exact Option.some_ne_none q
  · intro p hp
    rw [hm.mappedIds_a hcommit h.maps] at hp
    exact hkept p (h.readable p hp) hp

end steps

theorem start_restorable {hFile : FileName} {cacheSize : ℕ} (hps : 0 < ps) (hcache : 0 < cacheSize)
    (cacheSpillRatio : ℕ) (o : Os) :
    Restorable (start hFile cacheSize cacheSpillRatio o : World (CPageFile ps)) := by
  have ha : Generation.Apart ⟨[], [], [], [], 0⟩ [] := ⟨fun _ => Nat.zero_le _, Nat.zero_le _⟩
  refine ⟨⟨ha, ha, fun _ h => absurd h List.not_mem_nil, fun h => Bool.noConfusion h,
    fun _ => ⟨rfl, rfl, rfl, rfl⟩⟩, ⟨hps, hcache, List.nodup_nil, fun _ h => absurd h List.not_mem_nil,
    fun _ h => absurd h List.not_mem_nil⟩, fun h => Bool.noConfusion h,
    fun _ h => absurd h List.not_mem_nil⟩

theorem run_restorable {hFile : FileName} {cacheSize cacheSpillRatio : ℕ} {o : Os}
    {cs : List (PageFileCmd ps)} (hps : 0 < ps) (hps' : ps ≤ wmirepPageSize) (hcache : 0 < cacheSize)
    (hcs : Along step Readable cs (start hFile cacheSize cacheSpillRatio o)) :
    Restorable (runAll step cs (start hFile cacheSize cacheSpillRatio o)) :=
  runAll_invariant (I := Restorable) (fun _ _ => step_restorable hps')
    (start_restorable hps hcache cacheSpillRatio o) hcs

/-- A state inside a transaction that was begun in `w₀`. -/
structure Within (w₀ w : World (CPageFile ps)) : Prop where
  restorable : Restorable w
  inTransaction : w.obj.inTransaction = true
  a : w.obj.maps.a = w₀.obj.maps.a
  view : ∀ p ∈ mappedIds w₀.obj.maps.a.pageMap, ∀ q,
    CPageCache.view (cacheWorld w₀) p = some q → CPageCache.view (cacheWorld w) p = some q

theorem Within.step {w₀ w : World (CPageFile ps)} {c : PageFileCmd ps} (hps : ps ≤ wmirepPageSize)
    (h : Within w₀ w) (hc : c.IsPageCall) : Within w₀ (c.step w) := by
  have hread : c.Readable w := by cases c <;> trivial
  obtain ⟨ha, hin⟩ := (step_moved c w).changes.pageCall hc
  refine ⟨step_restorable hps hread h.restorable, hin.trans h.inTransaction, ha.trans h.a,
    fun p hp q hq => ?_⟩
  exact (step_view hps hread h.restorable).2 p (h.a ▸ hp) q (h.view p hp q hq)

theorem Within.run {w₀ w : World (CPageFile ps)} {ds : List (PageFileCmd ps)}
    (hps : ps ≤ wmirepPageSize) (h : Within w₀ w) (hds : ∀ d ∈ ds, d.IsPageCall) :
    Within w₀ (runAll PageFileCmd.step ds w) := by
  induction ds generalizing w with
  | nil => exact h
  | cons d ds ih =>
    exact ih (h.step hps (hds d (List.mem_cons_self ..))) fun e he =>
      hds e (List.mem_cons_of_mem _ he)

theorem Within.begin {w : World (CPageFile ps)} (hps : ps ≤ wmirepPageSize) (h : Restorable w)
    (hbegin : CPageFile.transBegin.result w = .ok ()) :
    w.obj.inTransaction = false ∧ Within w (PageFileCmd.step .transBegin w) := by
  obtain ⟨hin, hb, -⟩ := (Prog.wp_result.mp (transBegin_spec w)).1 () hbegin
  have hmaps : (PageFileCmd.step .transBegin w).obj.maps =
      { w.obj.maps.resync with inTransaction := true } := hb.maps
  have hread : Readable .transBegin w := trivial
  exact ⟨hin, step_restorable hps hread h, congrArg Maps.inTransaction hmaps,
    by rw [hmaps]; rfl, (step_view hps hread h).2⟩

end PageFileCmd

section content
open CPageFile

/-- What `GetPage` returns while no request fails. -/
def CPageFile.content (w : World (CPageFile ps)) (id : ℕ) : Except WinError (Page ps) :=
  (getPage id).result ⟨w.obj, { w.os with allocs := [], ios := [] }⟩

/-- What `GetPage` makes of the physical pages of a map entry. -/
def lookup (view : ℕ → Option (Page ps)) : Option (List ℕ) → Except WinError (Page ps)
  | none => .error .fileNotFound
  | some [] => .error .invalidOperation
  | some (p :: _) =>
    match view p with
    | some q => .ok q
    | none => .error .invalidParameter

theorem content_eq {w : World (CPageFile ps)} (hps : ps ≤ wmirepPageSize)
    (hi : CPageCache.Inv (cacheWorld w)) (hb : w.obj.maps.b.Apart w.obj.maps.deferred) (id : ℕ) :
    content w id =
      lookup (CPageCache.view (cacheWorld w)) (w.obj.maps.b.pageMap.map entryIds)[id]? := by
  let w' : World (CPageFile ps) := ⟨w.obj, { w.os with allocs := [], ios := [] }⟩
  have hcalm : w'.os.Calm := ⟨rfl, rfl⟩
  have hi' : CPageCache.Inv (cacheWorld w') := hi.congr rfl rfl
  have hwp : (getPage id).wp
      (fun q _ => lookup (CPageCache.view (cacheWorld w)) (w.obj.maps.b.pageMap.map entryIds)[id]? =
        .ok q)
      (fun e _ => lookup (CPageCache.view (cacheWorld w)) (w.obj.maps.b.pageMap.map entryIds)[id]? =
        .error e) w' := by
    simp only [getPage, Prog.wp_bind, wp_getObj, List.getElem?_map]
    rcases hid : w.obj.maps.b.pageMap[id]? with _ | physId
    · rw [show w'.obj.pageMapB.data[id]? = none from hid]
      rfl
    rw [show w'.obj.pageMapB.data[id]? = some physId from hid]
    simp only [Prog.wp_bind, Prog.wp_ite, Prog.wp_throw, Option.map_some]
    refine ⟨fun hno => by rw [entryIds, if_pos hno]; rfl, fun hno => ?_⟩
    have hids : entryIds physId = [merePageId physId] := if_neg hno
    have hmem : merePageId physId ∈ mappedIds w.obj.maps.b.pageMap := mem_mappedIds.mpr
      ⟨physId, List.mem_of_getElem? hid, mt Or.inl hno, mt Or.inr hno, rfl⟩
    rw [wp_onCache, hids]
    refine Prog.wp_mono (CPageCache.read_spec hi' (inRange_of_lt hps (hb.mem_lt (Or.inl hmem))
      hb.pages)) (fun q _ h => ?_) (fun e _ h => ?_)
    · simp only [lookup]
      rw [show CPageCache.view (cacheWorld w) (merePageId physId) = some q from h.2]
    · obtain ⟨hview, rfl⟩ := h.2 hcalm
      simp only [lookup]
      rw [show CPageCache.view (cacheWorld w) (merePageId physId) = none from hview]
  obtain ⟨hok, herr⟩ := Prog.wp_result.mp hwp
  rcases hres : (getPage id).result w' with e | q
  · exact hres.trans (herr e hres).symm
  · exact hres.trans (hok q hres).symm

end content

open PageFileCmd CPageFile in
/-- A rollback succeeds, and every logical page and the lists are as they were before the
transaction, whatever the calls in it did and whichever of them failed. -/
theorem pageFile_rollback (hps : 0 < ps) (hps' : ps ≤ wmirepPageSize) (hFile : FileName)
    {cacheSize : ℕ} (hcache : 0 < cacheSize) (cacheSpillRatio : ℕ) (o : Os)
    (cs : List (PageFileCmd ps))
    (hcs : Along step Readable cs (start hFile cacheSize cacheSpillRatio o))
    (hbegin : transBegin.result (runAll step cs (start hFile cacheSize cacheSpillRatio o)) = .ok ())
    (ds : List (PageFileCmd ps)) (hds : ∀ d ∈ ds, d.IsPageCall) :
    let w := runAll step cs (start hFile cacheSize cacheSpillRatio o)
    let w₂ := runAll step ds (step .transBegin w)
    let w₃ := step .transRollback w₂
    transRollback.result w₂ = .ok () ∧ (∀ id, content w₃ id = content w id) ∧
      w₃.obj.logicalFreeListB.data = w.obj.logicalFreeListB.data ∧
      w₃.obj.physFreeListB.data = w.obj.physFreeListB.data ∧
      w₃.obj.physPagesB = w.obj.physPagesB := by
  intro w w₂ w₃
  have hw : Restorable w := run_restorable hps hps' hcache hcs
  obtain ⟨hout, hwithin⟩ := Within.begin hps' hw hbegin
  have h₂ : Within w w₂ := hwithin.run hps' hds
  obtain ⟨hok, herr⟩ := Prog.wp_result.mp (transRollback_spec w₂)
  have hresult : transRollback.result w₂ = .ok () := by
    rcases hres : transRollback.result w₂ with e | _
    · rcases herr e hres with ⟨hin, -⟩ | ⟨-, hnot, -⟩
      · exact Bool.noConfusion (hin.symm.trans h₂.inTransaction)
      · exact absurd (h₂.restorable.ready h₂.inTransaction) hnot
    · rfl
  obtain ⟨-, hb, -⟩ := hok () hresult
  have hmaps : w₃.obj.maps = { w₂.obj.maps.resync with inTransaction := false } := hb.maps
  have hgen : w₃.obj.maps.b = w.obj.maps.a := by
    rw [hmaps]
    exact h₂.a
  obtain ⟨hfree, hlog, hpages, hentries⟩ := hw.maps.synced hout
  have h₃ : Restorable w₃ := step_restorable (c := .transRollback) hps' trivial h₂.restorable
  have hview := (step_view (c := .transRollback) hps' trivial h₂.restorable).2
  refine ⟨hresult, fun id => ?_, ?_, ?_, ?_⟩
  · rw [content_eq hps' h₃.cache h₃.maps.b, content_eq hps' hw.cache hw.maps.b, hgen, hentries]
    rcases hid : (w.obj.maps.a.pageMap.map entryIds)[id]? with _ | _ | ⟨p, l⟩
    · rfl
    · rfl
    · have hp : p ∈ mappedIds w.obj.maps.a.pageMap := by
        obtain ⟨e, he, heq⟩ := List.mem_map.mp (List.mem_of_getElem? hid)
        exact List.mem_flatMap.mpr ⟨e, he, heq ▸ List.mem_cons_self ..⟩
      obtain ⟨q, hq⟩ := Option.ne_none_iff_exists'.mp (hw.readable p hp)
      have hq₃ := hview p (h₂.a ▸ hp) q (h₂.view p hp q hq)
      simp only [lookup]
      rw [hq, hq₃]
  · exact (congrArg Generation.logicalFree hgen).trans hlog.symm
  · exact (congrArg Generation.physFree hgen).trans hfree.symm
  · exact (congrArg Generation.physPages hgen).trans hpages.symm

section runs
open PageFileCmd CPageFile

/-- A page file with no failures ahead. -/
def freshFile (ps : ℕ) : World (CPageFile ps) := start .objectsData 64 4 ⟨[], [], fun _ => [], []⟩

/-- A page is written and committed, and then overwritten and rolled back. -/
theorem pageFile_rollback_overwrite :
    let w : World (CPageFile 1) := runAll step
      [.transBegin, .newPage 1, .putPage 0 ⟨[7], rfl⟩, .transCommit] (freshFile 1)
    let w₂ := runAll step [.putPage 0 ⟨[8], rfl⟩, .newPage 1] (step .transBegin w)
    transRollback.result w₂ = .ok () ∧ content (step .transRollback w₂) 0 = .ok ⟨[7], rfl⟩ := by
  intro w w₂
  have hcs : Along step Readable
      [.transBegin, .newPage 1, .putPage 0 ⟨[7], rfl⟩, .transCommit] (freshFile 1) :=
    ⟨trivial, trivial, trivial, fun _ _ => by decide, trivial⟩
  have hds : ∀ d ∈ ([.putPage 0 ⟨[8], rfl⟩, .newPage 1] : List (PageFileCmd 1)), d.IsPageCall := by
    intro d hd
    rcases List.mem_cons.mp hd with rfl | hd
    · trivial
    · rw [List.mem_singleton.mp hd]
      trivial
  obtain ⟨hresult, hcontent, -⟩ := pageFile_rollback (by decide) (by decide) .objectsData (by decide)
    4 ⟨[], [], fun _ => [], []⟩ _ hcs rfl _ hds
  exact ⟨hresult, (hcontent 0).trans rfl⟩

/-- Two reserved pages are committed, which gives both of them the same physical page; freed and
reclaimed, the second is written over the first, and the rollback cannot bring that back. -/
theorem pageFile_rollback_lost :
    ¬∀ (cs ds : List (PageFileCmd wmirepPageSize)), (∀ d ∈ ds, d.IsPageCall) →
      let w := runAll step cs (freshFile wmirepPageSize)
      transBegin.result w = .ok () → ∀ id,
        content (step .transRollback (runAll step ds (step .transBegin w))) id = content w id := by
  intro h
  let zeros : Page wmirepPageSize := ⟨List.replicate _ 0, List.length_replicate⟩
  let ones : Page wmirepPageSize := ⟨List.replicate _ 1, List.length_replicate⟩
  have hsame := h
    [.transBegin, .newPage 2, .transCommit, .transBegin, .freePage 0, .freePage 1, .transCommit,
      .transBegin, .newPage 1, .putPage 1 zeros, .transCommit]
    [.newPage 1, .putPage 0 ones] (by simp [IsPageCall]) (by decide +kernel) 1
  have hfirst := congrArg (fun r => r.toOption.bind fun q : Page wmirepPageSize => q.1.head?) hsame
  exact absurd hfirst (by decide +kernel)

end runs

end NtAdmin.Wmi.PageMgr
