import NtAdmin.Drizzle.Newjob.TaskWorkers

/-! What holds of the scheduler whenever nobody has its lock. -/
namespace NtAdmin.Drizzle.Newjob

variable {Sid : Type}

/-- The scheduler, but for what an item says about itself. -/
structure Core (s : TaskScheduler Sid) (place : ℕ → Place) : Prop where
  lists : Lists s.item s.waitingList s.workGroup place
  workers : Workers s.workGroup s.worker place
  map : ∀ sid g, s.workGroupMap sid = some g ↔ ∃ G, s.workGroup g = some G ∧ G.sid = sid
  alive : s.shouldDie = false
  groups : ∃ n, ∀ g, n ≤ g → s.workGroup g = none
  threads : ∃ n, ∀ t, n ≤ t → s.worker t = none

/-- Every group has a worker. -/
def Manned (s : TaskScheduler Sid) : Prop := ∀ g G, s.workGroup g = some G → 0 < G.threads

def Place.pending : Place → ℕ
  | .waiting => 1
  | .ready _ => 1
  | _ => 0

def Place.runs : Place → ℕ
  | .running _ => 1
  | _ => 0

/-- Every insertion of an item has led to one dispatch or has been withdrawn, or the item is still
to be dispatched. -/
structure History (s : TaskScheduler Sid) (place : ℕ → Place) : Prop where
  inserted : ∀ i, s.inserted.count i =
    s.dispatched.count i + s.withdrawn.count i + (place i).pending
  dispatched : ∀ i, s.dispatched.count i = s.finished.count i + (place i).runs

structure TaskInv (s : TaskScheduler Sid) (place : ℕ → Place) : Prop extends Core s place where
  manned : Manned s
  tells : ∀ i, (s.item i).At (place i)
  history : History s place

section places
variable {w : WorkItem} {x : Place}

theorem WorkItem.At.of_waiting (h : w.At x) (hw : w.state = .waiting) : x = .waiting := by
  cases x with
  | nowhere => rcases h.2 with h | h | h <;> exact WorkItemState.noConfusion (h.symm.trans hw)
  | waiting => rfl
  | ready g => exact WorkItemState.noConfusion (h.2.symm.trans hw)
  | running g => exact WorkItemState.noConfusion (h.2.symm.trans hw)

theorem WorkItem.At.of_ready (h : w.At x) (hw : w.state = .ready) :
    ∃ g, x = .ready g ∧ w.workGroup = some g := by
  cases x with
  | nowhere => rcases h.2 with h | h | h <;> exact WorkItemState.noConfusion (h.symm.trans hw)
  | waiting => exact WorkItemState.noConfusion (h.2.symm.trans hw)
  | ready g => exact ⟨g, rfl, h.1⟩
  | running g => exact WorkItemState.noConfusion (h.2.symm.trans hw)

theorem WorkItem.At.nowhere (h : w.At x) (hw : w.state ≠ .waiting) (hr : w.state ≠ .ready)
    (hr' : w.state ≠ .running) : x = .nowhere := by
  cases x with
  | nowhere => rfl
  | waiting => exact absurd h.2 hw
  | ready g => exact absurd h.2 hr
  | running g => exact absurd h.2 hr'

variable {item : ℕ → WorkItem} {place : ℕ → Place}

/-- One item says something else, and is elsewhere. -/
theorem tells_update (h : ∀ i, (item i).At (place i)) (i : ℕ) (hw : w.At x) (j : ℕ) :
    (Function.update item i w j).At (Function.update place i x j) := by
  by_cases heq : j = i
  · subst heq
    rwa [Function.update_self, Function.update_self]
  · rw [Function.update_of_ne heq, Function.update_of_ne heq]
    exact h j

theorem count_append_singleton (l : List ℕ) (i j : ℕ) :
    (l ++ [i]).count j = l.count j + if j = i then 1 else 0 := by
  rw [List.count_append, List.count_singleton]
  by_cases h : i = j
  · simp [h]
  · simp [h, Ne.symm h]

theorem History.move {s s' : TaskScheduler Sid} (h : History s place) (i : ℕ) {a b c d : ℕ}
    (hinserted : ∀ j, s'.inserted.count j = s.inserted.count j + if j = i then a else 0)
    (hdispatched : ∀ j, s'.dispatched.count j = s.dispatched.count j + if j = i then b else 0)
    (hfinished : ∀ j, s'.finished.count j = s.finished.count j + if j = i then c else 0)
    (hwithdrawn : ∀ j, s'.withdrawn.count j = s.withdrawn.count j + if j = i then d else 0)
    (hpending : a + (place i).pending = b + d + x.pending)
    (hruns : b + (place i).runs = c + x.runs) : History s' (Function.update place i x) := by
  refine ⟨fun j => ?_, fun j => ?_⟩
  · have := h.inserted j
    rw [hinserted, hdispatched, hwithdrawn]
    by_cases heq : j = i
    · subst heq
      rw [Function.update_self]
      simp only [if_true]
      omega
    · rw [Function.update_of_ne heq]
      simp only [if_neg heq]
      omega
  · have := h.dispatched j
    rw [hdispatched, hfinished]
    by_cases heq : j = i
    · subst heq
      rw [Function.update_self]
      simp only [if_true]
      omega
    · rw [Function.update_of_ne heq]
      simp only [if_neg heq]
      omega

end places

section core
variable {s : TaskScheduler Sid} {place place' : ℕ → Place} {i g : ℕ} {G G' : WorkGroup Sid}

theorem modifyGroup_of_some (hG : s.workGroup g = some G) (f : WorkGroup Sid → WorkGroup Sid) :
    s.modifyGroup (some g) f =
      { s with workGroup := Function.update s.workGroup g (some (f G)) } := by
  simp only [TaskScheduler.modifyGroup, hG, Option.map_some]

theorem bounded_update {α : Type} {f : ℕ → Option α} (h : ∃ n, ∀ a, n ≤ a → f a = none) (a : ℕ)
    (x : Option α) : ∃ n, ∀ b, n ≤ b → Function.update f a x b = none := by
  obtain ⟨n, hn⟩ := h
  refine ⟨max n (a + 1), fun b hb => ?_⟩
  have hne : b ≠ a := by omega
  rw [Function.update_of_ne hne]
  exact hn b (by omega)

/-- A group that keeps its name keeps its place in the map. -/
theorem map_update (h : ∀ sid g, s.workGroupMap sid = some g ↔
      ∃ G, s.workGroup g = some G ∧ G.sid = sid) (hG : s.workGroup g = some G)
    (hsid : G'.sid = G.sid) (sid : Sid) (g' : ℕ) :
    s.workGroupMap sid = some g' ↔
      ∃ G'', Function.update s.workGroup g (some G') g' = some G'' ∧ G''.sid = sid := by
  rw [h sid g']
  by_cases heq : g' = g
  · subst heq
    rw [Function.update_self, hG]
    constructor
    · rintro ⟨G'', hG'', rfl⟩
      exact ⟨G', rfl, by rw [hsid, Option.some.inj hG'']⟩
    · rintro ⟨G'', hG'', rfl⟩
      exact ⟨G, rfl, by rw [← Option.some.inj hG'', hsid]⟩
  · rw [Function.update_of_ne heq]

theorem Manned.modifyGroup (h : Manned s) {f : WorkGroup Sid → WorkGroup Sid}
    (hf : ∀ G, (f G).threads = G.threads) (x : Option ℕ) : Manned (s.modifyGroup x f) := by
  rcases x with _ | g
  · exact h
  · intro g' G' hG'
    by_cases heq : g' = g
    · subst heq
      obtain ⟨G, hG, rfl⟩ := Option.map_eq_some_iff.mp
        ((Function.update_self g' _ s.workGroup).symm.trans hG')
      exact (hf G).symm ▸ h g' G hG
    · exact h g' G' ((Function.update_of_ne heq _ s.workGroup).symm.trans hG')

/-- One group changes, and keeps its name. -/
theorem Core.update_group (h : Core s place) (hG : s.workGroup g = some G) {item : ℕ → WorkItem}
    {worker : ℕ → Option Worker} {waitingList : List ℕ}
    (hlists : Lists item waitingList (Function.update s.workGroup g (some G')) place')
    (hworkers : Workers (Function.update s.workGroup g (some G')) worker place')
    (hbounded : ∃ n, ∀ t, n ≤ t → worker t = none) (hsid : G'.sid = G.sid) :
    Core { s with
      item, waitingList, worker, workGroup := Function.update s.workGroup g (some G') } place' where
  lists := hlists
  workers := hworkers
  map := map_update h.map hG hsid
  alive := h.alive
  groups := bounded_update h.groups g _
  threads := hbounded

/-- What is said of an item that is on no list does not matter. -/
theorem Core.modifyItem (h : Core s place) (hi : place i = .nowhere) (f : WorkItem → WorkItem) :
    Core (s.modifyItem i f) place := by
  refine ⟨h.lists.congr_item fun j hj => ?_, h.workers, h.map, h.alive, h.groups, h.threads⟩
  have hne : j ≠ i := fun heq => hj (heq ▸ hi)
  show (Function.update s.item i _ j).timeToRun = _ ∧ (Function.update s.item i _ j).insertionTime = _
  rw [Function.update_of_ne hne]
  exact ⟨rfl, rfl⟩

/-- Neither do the parts of an item by which it is not sorted. -/
theorem Core.modifyItem_of_times (h : Core s place) {f : WorkItem → WorkItem}
    (hf : ∀ w, (f w).timeToRun = w.timeToRun ∧ (f w).insertionTime = w.insertionTime) (i : ℕ) :
    Core (s.modifyItem i f) place := by
  refine ⟨h.lists.congr_item fun j _ => ?_, h.workers, h.map, h.alive, h.groups, h.threads⟩
  show (Function.update s.item i _ j).timeToRun = _ ∧ (Function.update s.item i _ j).insertionTime = _
  by_cases heq : j = i
  · subst heq
    rw [Function.update_self]
    exact hf _
  · rw [Function.update_of_ne heq]
    exact ⟨rfl, rfl⟩

theorem Core.eraseWaiting (h : Core s place) (hi : place i = .waiting) :
    Core (s.eraseWaiting i) (Function.update place i .nowhere) where
  lists := h.lists.leave_waiting hi
  workers := h.workers.congr_place fun j g => update_other_iff (by simp [hi]) (by simp) j
  map := h.map
  alive := h.alive
  groups := h.groups
  threads := h.threads

theorem Core.insertWaiting (h : Core s place) (hi : place i = .nowhere) :
    Core (s.insertWaiting i) (Function.update place i .waiting) where
  lists := h.lists.enter_waiting hi
  workers := h.workers.congr_place fun j g => update_other_iff (by simp [hi]) (by simp) j
  map := h.map
  alive := h.alive
  groups := h.groups
  threads := h.threads

theorem Core.eraseReady (h : Core s place) (hi : place i = .ready g)
    (hw : (s.item i).workGroup = some g) :
    Core (s.eraseReady i) (Function.update place i .nowhere) := by
  obtain ⟨G, hG⟩ := Option.ne_none_iff_exists'.mp (h.lists.exist i g (Or.inl hi))
  unfold TaskScheduler.eraseReady
  rw [hw, modifyGroup_of_some hG]
  refine h.update_group hG (h.lists.leave_ready hG hi) ?_ h.threads rfl
  refine Workers.congr_place (h.workers.congr_group ?_) fun j g' => ?_
  · exact (h.workers.group g G hG).congr rfl rfl rfl
  · exact update_other_iff (by simp [hi]) (by simp) j

section add
variable (os : Os)

theorem unused_eq_none {α : Type} {f : ℕ → Option α} (h : ∃ n, ∀ a, n ≤ a → f a = none) :
    f (os.unused fun a => (f a).isSome) = none := by
  obtain ⟨n, hn⟩ := h
  have := os.unused_spec (fun a => (f a).isSome) ⟨n, by simp [hn n (Nat.le_refl n)]⟩
  simpa using this

/-- The group for `sid` is there, if only without workers. -/
theorem Core.findWorkGroup [DecidableEq Sid] (h : Core s place) (sid : Sid) :
    ∃ g G, (s.findWorkGroup os sid).1 = g ∧ (s.findWorkGroup os sid).2.workGroup g = some G ∧
      Core (s.findWorkGroup os sid).2 place ∧
      (s.findWorkGroup os sid).2 =
        { s with
          workGroup := (s.findWorkGroup os sid).2.workGroup
          workGroupMap := (s.findWorkGroup os sid).2.workGroupMap } ∧
      ∀ g', g' ≠ g → (s.findWorkGroup os sid).2.workGroup g' = s.workGroup g' := by
  unfold TaskScheduler.findWorkGroup
  rcases hmap : s.workGroupMap sid with _ | g
  · have hfree := unused_eq_none os h.groups
    generalize (os.unused fun g => (s.workGroup g).isSome) = g at hfree
    refine ⟨g, .new sid, rfl, Function.update_self g _ _, ?_, rfl,
      fun g' hne => Function.update_of_ne hne _ _⟩
    refine ⟨h.lists.new_group hfree sid, h.workers.new_group hfree sid, fun sid' g' => ?_, h.alive,
      bounded_update h.groups g _, h.threads⟩
    show Function.update s.workGroupMap sid (some g) sid' = some g' ↔
      ∃ G, Function.update s.workGroup g (some (.new sid)) g' = some G ∧ G.sid = sid'
    by_cases hg : g' = g
    · subst hg
      rw [Function.update_self]
      by_cases hsid : sid' = sid
      · subst hsid
        rw [Function.update_self]
        exact ⟨fun _ => ⟨_, rfl, rfl⟩, fun _ => rfl⟩
      · rw [Function.update_of_ne hsid, h.map]
        refine ⟨fun ⟨G, hG, _⟩ => absurd (hfree.symm.trans hG) (Option.some_ne_none G).symm, ?_⟩
        rintro ⟨G, hG, rfl⟩
        exact absurd (congrArg WorkGroup.sid (Option.some.inj hG)).symm hsid
    · rw [Function.update_of_ne hg, ← h.map]
      by_cases hsid : sid' = sid
      · subst hsid
        rw [Function.update_self, hmap]
        exact ⟨fun heq => absurd (Option.some.inj heq).symm hg,
          fun heq => absurd heq (Option.some_ne_none _).symm⟩
      · rw [Function.update_of_ne hsid]
  · obtain ⟨G, hG, -⟩ := (h.map sid g).mp hmap
    exact ⟨g, G, rfl, hG, h, rfl, fun _ _ => rfl⟩

/-- What comes is a worker without an item. -/
theorem Core.addWorker (h : Core s place) : Core (s.addWorker os g) place := by
  unfold TaskScheduler.addWorker
  rcases hG : s.workGroup g with _ | G
  · exact h
  · simp only
    split_ifs with hload
    · rw [modifyGroup_of_some hG]
      have ht := unused_eq_none os h.threads
      refine ⟨h.lists.congr_group hG rfl rfl rfl, h.workers.add_worker hG ht hload.2,
        map_update h.map hG rfl, h.alive, bounded_update h.groups g _, bounded_update h.threads _ _⟩
    · exact h

/-- A group with a ready item gets a worker when it has none. -/
theorem Core.manned_addWorker (h : Core s place)
    (hothers : ∀ g' G', g' ≠ g → s.workGroup g' = some G' → 0 < G'.threads)
    (hG : s.workGroup g = some G) (hready : G.readyList ≠ []) : Manned (s.addWorker os g) := by
  unfold TaskScheduler.addWorker
  rw [hG]
  simp only
  have hstaffed := h.workers.group g G hG
  have hbusy := hstaffed.busy
  have hlen := List.length_pos_iff.mpr hready
  split_ifs with hload
  · rw [modifyGroup_of_some hG]
    intro g' G' hG'
    by_cases heq : g' = g
    · subst heq
      obtain rfl := Option.some.inj ((Function.update_self g' _ s.workGroup).symm.trans hG')
      exact Nat.succ_pos _
    · exact hothers g' G' heq ((Function.update_of_ne heq _ s.workGroup).symm.trans hG')
  · intro g' G' hG'
    by_cases heq : g' = g
    · subst heq
      obtain rfl := Option.some.inj (hG.symm.trans hG')
      by_contra hnone
      refine hload ⟨?_, ?_⟩
      · omega
      · unfold maxWorkgroupThreads
        omega
    · exact hothers g' G' heq hG'

theorem addWorker_eq (s : TaskScheduler Sid) (g : ℕ) : ∃ workGroup worker,
    s.addWorker os g = { s with workGroup, worker } := by
  unfold TaskScheduler.addWorker
  rcases hG : s.workGroup g with _ | G
  · exact ⟨_, _, rfl⟩
  · simp only
    split_ifs
    · rw [modifyGroup_of_some hG]
      exact ⟨_, _, rfl⟩
    · exact ⟨_, _, rfl⟩

/-- An item that is on no list gets ready. -/
theorem Core.addItemToWorkGroup [DecidableEq Sid] (h : Core s place) (hm : Manned s)
    (hi : place i = .nowhere) (sid : Sid) :
    ∃ g, Core (s.addItemToWorkGroup os sid i) (Function.update place i (.ready g)) ∧
      Manned (s.addItemToWorkGroup os sid i) ∧
      ∃ workGroup workGroupMap worker, s.addItemToWorkGroup os sid i =
        { s with
          item := Function.update s.item i { s.item i with state := .ready, workGroup := some g }
          workGroup, workGroupMap, worker } := by
  obtain ⟨g, G, hg, hG, hcore, heq, hothers⟩ := h.findWorkGroup os sid
  unfold TaskScheduler.addItemToWorkGroup
  generalize s.findWorkGroup os sid = p at hg hG hcore heq hothers
  obtain ⟨g', s₁⟩ := p
  simp only at hg hG hcore heq hothers ⊢
  subst hg
  rw [modifyGroup_of_some hG]
  have hready := hcore.lists.enter_ready hG hi
  have hcore₂ := hcore.update_group hG hready
    (Workers.congr_place (hcore.workers.congr_group
      ((hcore.workers.group g' G hG).congr rfl rfl rfl)) fun j g =>
        update_other_iff (by simp [hi]) (by simp) j) hcore.threads rfl
  have hcore₃ := hcore₂.modifyItem_of_times (f := fun w =>
    { w with state := .ready, workGroup := some g' }) (fun _ => ⟨rfl, rfl⟩) i
  refine ⟨g', hcore₃.addWorker os, ?_, ?_⟩
  · refine hcore₃.manned_addWorker os (fun g G' hne hG' => ?_) (Function.update_self g' _ _) ?_
    · refine hm g G' ?_
      rw [← hothers g hne]
      exact (Function.update_of_ne hne _ s₁.workGroup).symm.trans hG'
    · exact List.ne_nil_of_mem ((List.mem_orderedInsert _).mpr (Or.inl rfl))
  · obtain ⟨workGroup, worker, hadd⟩ := addWorker_eq os (TaskScheduler.modifyItem i
      (fun w => { w with state := .ready, workGroup := some g' })
      { s₁ with workGroup := Function.update s₁.workGroup g' (some { G with
        readyList := sortedInsert s₁.item i G.readyList
        itemAvailable := G.itemAvailable + 1 }) }) g'
    refine ⟨workGroup, s₁.workGroupMap, worker, hadd.trans ?_⟩
    rw [heq]
    rfl

end add

end core

end NtAdmin.Drizzle.Newjob
