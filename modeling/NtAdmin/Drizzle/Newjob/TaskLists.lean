import NtAdmin.Drizzle.Newjob.TaskScheduler

/-! The lists that the work items are on. -/
namespace NtAdmin.Drizzle.Newjob

section order
variable {item item' : ℕ → WorkItem} {a b c i : ℕ} {l : List ℕ}

theorem before_iff : Before item a b ↔
    (item a).timeToRun < (item b).timeToRun ∨ (item a).timeToRun = (item b).timeToRun ∧
      ((item a).insertionTime < (item b).insertionTime ∨
        (item a).insertionTime = (item b).insertionTime ∧ a ≤ b) := by
  unfold Before sorter
  split_ifs with htime hinsertion
  · simp only [decide_eq_false_iff_not]
    omega
  · simp only [decide_eq_false_iff_not]
    omega
  · simp only [decide_eq_false_iff_not]
    omega

instance : Std.Total (Before item) :=
  ⟨fun a b => by
    rw [before_iff, before_iff]
    omega⟩

instance : IsTrans ℕ (Before item) :=
  ⟨fun a b c hab hbc => by
    rw [before_iff] at hab hbc ⊢
    omega⟩

/-- Two items are compared by their times. -/
theorem before_congr (ha : (item' a).timeToRun = (item a).timeToRun)
    (ha' : (item' a).insertionTime = (item a).insertionTime)
    (hb : (item' b).timeToRun = (item b).timeToRun)
    (hb' : (item' b).insertionTime = (item b).insertionTime) :
    Before item' a b ↔ Before item a b := by
  rw [before_iff, before_iff, ha, ha', hb, hb']

/-- The items of which `p` holds are on the list, once each and in their order. -/
structure OnList (item : ℕ → WorkItem) (l : List ℕ) (p : ℕ → Prop) : Prop where
  mem : ∀ i, i ∈ l ↔ p i
  nodup : l.Nodup
  sorted : l.Pairwise (Before item)

variable {p q : ℕ → Prop}

theorem onList_nil (item : ℕ → WorkItem) (hp : ∀ i, ¬ p i) : OnList item [] p :=
  ⟨fun i => ⟨fun h => absurd h List.not_mem_nil, fun h => absurd h (hp i)⟩, List.nodup_nil,
    List.Pairwise.nil⟩

theorem OnList.congr (h : OnList item l p) (hpq : ∀ i, p i ↔ q i) : OnList item l q :=
  ⟨fun i => (h.mem i).trans (hpq i), h.nodup, h.sorted⟩

theorem OnList.erase (h : OnList item l p) (i : ℕ) :
    OnList item (l.erase i) fun j => p j ∧ j ≠ i where
  mem j := by
    rw [h.nodup.mem_erase_iff, h.mem j, and_comm]
  nodup := h.nodup.erase i
  sorted := h.sorted.sublist List.erase_sublist

theorem OnList.insert (h : OnList item l p) (hi : ¬ p i) :
    OnList item (sortedInsert item i l) fun j => p j ∨ j = i where
  mem j := by
    unfold sortedInsert
    rw [List.mem_orderedInsert, h.mem j, or_comm]
  nodup := by
    unfold sortedInsert
    rw [(List.perm_orderedInsert _ i l).nodup_iff, List.nodup_cons]
    exact ⟨fun hmem => hi ((h.mem i).mp hmem), h.nodup⟩
  sorted := List.Pairwise.orderedInsert i l h.sorted

/-- What changes about the items that are not on the list does not matter. -/
theorem OnList.congr_item (h : OnList item l p)
    (hitem : ∀ i, p i → (item' i).timeToRun = (item i).timeToRun ∧
      (item' i).insertionTime = (item i).insertionTime) : OnList item' l p where
  mem := h.mem
  nodup := h.nodup
  sorted := by
    refine h.sorted.imp_of_mem fun {a b} ha hb hab => ?_
    obtain ⟨ha, ha'⟩ := hitem a ((h.mem a).mp ha)
    obtain ⟨hb, hb'⟩ := hitem b ((h.mem b).mp hb)
    exact (before_congr ha ha' hb hb').mpr hab

end order

/-- Where an item is. -/
inductive Place
  | nowhere
  | waiting
  | ready (g : ℕ)
  | running (g : ℕ)
  deriving DecidableEq

/-- The item says that it is there. -/
def WorkItem.At (w : WorkItem) : Place → Prop
  | .nowhere => w.workGroup = none ∧
      (w.state = .canceled ∨ w.state = .complete ∨ w.state = .nothing)
  | .waiting => w.workGroup = none ∧ w.state = .waiting
  | .ready g => w.workGroup = some g ∧ w.state = .ready
  | .running g => w.workGroup = some g ∧ w.state = .running

variable {Sid : Type}

/-- The lists of a group hold the items that are there. -/
structure WorkGroup.Holds (G : WorkGroup Sid) (item : ℕ → WorkItem) (place : ℕ → Place) (g : ℕ) :
    Prop where
  ready : OnList item G.readyList (place · = .ready g)
  running : OnList item G.runningList (place · = .running g)
  itemAvailable : G.itemAvailable = G.readyList.length

/-- The lists of the scheduler hold the items that are there, and no others. -/
structure Lists (item : ℕ → WorkItem) (waitingList : List ℕ)
    (workGroup : ℕ → Option (WorkGroup Sid)) (place : ℕ → Place) : Prop where
  waiting : OnList item waitingList (place · = .waiting)
  group : ∀ g G, workGroup g = some G → G.Holds item place g
  exist : ∀ i g, place i = .ready g ∨ place i = .running g → workGroup g ≠ none

section lists
variable {item item' : ℕ → WorkItem} {waitingList : List ℕ} {workGroup : ℕ → Option (WorkGroup Sid)}
  {place : ℕ → Place} {i g : ℕ} {G G' : WorkGroup Sid} {x y : Place}

theorem update_other_iff (hi : place i ≠ x) (hy : y ≠ x) (j : ℕ) :
    place j = x ↔ Function.update place i y j = x := by
  by_cases h : j = i
  · subst h
    rw [Function.update_self]
    exact ⟨fun h => absurd h hi, fun h => absurd h hy⟩
  · rw [Function.update_of_ne h]

theorem update_leave_iff (hy : y ≠ x) (j : ℕ) :
    place j = x ∧ j ≠ i ↔ Function.update place i y j = x := by
  by_cases h : j = i
  · subst h
    rw [Function.update_self]
    exact ⟨fun h => absurd rfl h.2, fun h => absurd h hy⟩
  · rw [Function.update_of_ne h]
    exact ⟨fun h => h.1, fun hp => ⟨hp, h⟩⟩

theorem update_enter_iff (j : ℕ) : place j = y ∨ j = i ↔ Function.update place i y j = y := by
  by_cases h : j = i
  · subst h
    rw [Function.update_self]
    exact ⟨fun _ => rfl, fun _ => Or.inr rfl⟩
  · rw [Function.update_of_ne h]
    exact ⟨fun hp => hp.resolve_right h, Or.inl⟩

/-- A list does not see an item that comes from elsewhere and goes elsewhere. -/
theorem OnList.elsewhere {l : List ℕ} (h : OnList item l (place · = x)) (hi : place i ≠ x)
    (hy : y ≠ x) : OnList item l (Function.update place i y · = x) :=
  h.congr (update_other_iff hi hy)

theorem OnList.leave {l : List ℕ} (h : OnList item l (place · = x)) (hy : y ≠ x) :
    OnList item (l.erase i) (Function.update place i y · = x) :=
  (h.erase i).congr (update_leave_iff hy)

theorem OnList.enter {l : List ℕ} (h : OnList item l (place · = x)) (hi : place i ≠ x) :
    OnList item (sortedInsert item i l) (Function.update place i x · = x) :=
  (h.insert hi).congr update_enter_iff

theorem WorkGroup.Holds.elsewhere (h : G.Holds item place g) (hi : place i ≠ .ready g)
    (hi' : place i ≠ .running g) (hy : y ≠ .ready g) (hy' : y ≠ .running g) :
    G.Holds item (Function.update place i y) g :=
  ⟨h.ready.elsewhere hi hy, h.running.elsewhere hi' hy', h.itemAvailable⟩

theorem Lists.congr_item (h : Lists item waitingList workGroup place)
    (hitem : ∀ i, place i ≠ .nowhere → (item' i).timeToRun = (item i).timeToRun ∧
      (item' i).insertionTime = (item i).insertionTime) : Lists item' waitingList workGroup place where
  waiting := h.waiting.congr_item fun i hi => hitem i (by simp [hi])
  group g G hG :=
    ⟨(h.group g G hG).ready.congr_item fun i hi => hitem i (by simp [hi]),
      (h.group g G hG).running.congr_item fun i hi => hitem i (by simp [hi]),
      (h.group g G hG).itemAvailable⟩
  exist := h.exist

theorem Lists.leave_waiting (h : Lists item waitingList workGroup place)
    (hi : place i = .waiting) :
    Lists item (waitingList.erase i) workGroup (Function.update place i .nowhere) where
  waiting := h.waiting.leave (by decide)
  group g G hG := (h.group g G hG).elsewhere (by simp [hi]) (by simp [hi]) (by simp) (by simp)
  exist j g hj := h.exist j g (hj.imp (update_other_iff (by simp [hi]) (by simp) j).mpr
    (update_other_iff (by simp [hi]) (by simp) j).mpr)

theorem Lists.enter_waiting (h : Lists item waitingList workGroup place)
    (hi : place i = .nowhere) :
    Lists item (sortedInsert item i waitingList) workGroup (Function.update place i .waiting) where
  waiting := h.waiting.enter (by simp [hi])
  group g G hG := (h.group g G hG).elsewhere (by simp [hi]) (by simp [hi]) (by simp) (by simp)
  exist j g hj := h.exist j g (hj.imp (update_other_iff (by simp [hi]) (by simp) j).mpr
    (update_other_iff (by simp [hi]) (by simp) j).mpr)

/-- An item moves inside a group, into it or out of it. -/
theorem Lists.update_group (h : Lists item waitingList workGroup place)
    (hG : workGroup g = some G) (hi : ∀ g', g' ≠ g → place i ≠ .ready g' ∧ place i ≠ .running g')
    (hwaiting : place i ≠ .waiting) (hy : ∀ g', g' ≠ g → y ≠ .ready g' ∧ y ≠ .running g')
    (hy' : y ≠ .waiting) (hG' : G'.Holds item (Function.update place i y) g) :
    Lists item waitingList (Function.update workGroup g (some G')) (Function.update place i y) where
  waiting := h.waiting.elsewhere hwaiting hy'
  group g' G'' hG'' := by
    by_cases heq : g' = g
    · subst heq
      rw [Function.update_self] at hG''
      exact Option.some.inj hG'' ▸ hG'
    · rw [Function.update_of_ne heq] at hG''
      exact (h.group g' G'' hG'').elsewhere (hi g' heq).1 (hi g' heq).2 (hy g' heq).1 (hy g' heq).2
  exist j g' hj := by
    by_cases heq : g' = g
    · subst heq
      rw [Function.update_self]
      exact Option.some_ne_none _
    · rw [Function.update_of_ne heq]
      exact h.exist j g' (hj.imp (update_other_iff (hi g' heq).1 (hy g' heq).1 j).mpr
        (update_other_iff (hi g' heq).2 (hy g' heq).2 j).mpr)

/-- Of a group the lists and the semaphore matter. -/
theorem WorkGroup.Holds.congr (h : G.Holds item place g) (hready : G'.readyList = G.readyList)
    (hrunning : G'.runningList = G.runningList) (havailable : G'.itemAvailable = G.itemAvailable) :
    G'.Holds item place g :=
  ⟨hready ▸ h.ready, hrunning ▸ h.running, by rw [havailable, hready, h.itemAvailable]⟩

theorem Lists.congr_group (h : Lists item waitingList workGroup place) (hG : workGroup g = some G)
    (hready : G'.readyList = G.readyList) (hrunning : G'.runningList = G.runningList)
    (havailable : G'.itemAvailable = G.itemAvailable) :
    Lists item waitingList (Function.update workGroup g (some G')) place where
  waiting := h.waiting
  group g' G'' hG'' := by
    by_cases heq : g' = g
    · subst heq
      rw [Function.update_self] at hG''
      exact Option.some.inj hG'' ▸ (h.group _ G hG).congr hready hrunning havailable
    · rw [Function.update_of_ne heq] at hG''
      exact h.group g' G'' hG''
  exist j g' hj := by
    by_cases heq : g' = g
    · subst heq
      rw [Function.update_self]
      exact Option.some_ne_none _
    · rw [Function.update_of_ne heq]
      exact h.exist j g' hj

theorem Lists.leave_ready (h : Lists item waitingList workGroup place) (hG : workGroup g = some G)
    (hi : place i = .ready g) :
    Lists item waitingList
      (Function.update workGroup g (some { G with
        readyList := G.readyList.erase i, itemAvailable := G.itemAvailable - 1 }))
      (Function.update place i .nowhere) := by
  have hholds := h.group g G hG
  have hmem : i ∈ G.readyList := (hholds.ready.mem i).mpr hi
  refine h.update_group hG (fun g' hne => ?_) (by simp [hi]) (fun g' _ => by simp) (by simp)
    ⟨hholds.ready.leave (by simp), hholds.running.elsewhere (by simp [hi]) (by simp), ?_⟩
  · simp [hi, hne.symm]
  · show G.itemAvailable - 1 = (G.readyList.erase i).length
    rw [List.length_erase_of_mem hmem, hholds.itemAvailable]

theorem Lists.enter_ready (h : Lists item waitingList workGroup place) (hG : workGroup g = some G)
    (hi : place i = .nowhere) :
    Lists item waitingList
      (Function.update workGroup g (some { G with
        readyList := sortedInsert item i G.readyList, itemAvailable := G.itemAvailable + 1 }))
      (Function.update place i (.ready g)) := by
  have hholds := h.group g G hG
  refine h.update_group hG (fun g' _ => by simp [hi]) (by simp [hi]) (fun g' hne => ?_) (by simp)
    ⟨hholds.ready.enter (by simp [hi]), hholds.running.elsewhere (by simp [hi]) (by simp), ?_⟩
  · simp [hne.symm]
  · show G.itemAvailable + 1 = (sortedInsert item i G.readyList).length
    unfold sortedInsert
    rw [List.orderedInsert_length, hholds.itemAvailable]

theorem Lists.leave_running (h : Lists item waitingList workGroup place) (hG : workGroup g = some G)
    (hi : place i = .running g) :
    Lists item waitingList
      (Function.update workGroup g (some { G with runningList := G.runningList.erase i }))
      (Function.update place i .nowhere) := by
  have hholds := h.group g G hG
  refine h.update_group hG (fun g' hne => ?_) (by simp [hi]) (fun g' _ => by simp) (by simp)
    ⟨hholds.ready.elsewhere (by simp [hi]) (by simp), hholds.running.leave (by simp),
      hholds.itemAvailable⟩
  simp [hi, hne.symm]

theorem Lists.ready_to_running (h : Lists item waitingList workGroup place)
    (hG : workGroup g = some G) (hi : place i = .ready g) (busyThreads : ℤ) :
    Lists item waitingList
      (Function.update workGroup g (some { G with
        readyList := G.readyList.erase i
        runningList := sortedInsert item i G.runningList
        itemAvailable := G.itemAvailable - 1
        busyThreads }))
      (Function.update place i (.running g)) := by
  have hholds := h.group g G hG
  have hmem : i ∈ G.readyList := (hholds.ready.mem i).mpr hi
  refine h.update_group hG (fun g' hne => ?_) (by simp [hi]) (fun g' hne => ?_) (by simp)
    ⟨hholds.ready.leave (by simp), hholds.running.enter (by simp [hi]), ?_⟩
  · simp [hi, hne.symm]
  · simp [hne.symm]
  · show G.itemAvailable - 1 = (G.readyList.erase i).length
    rw [List.length_erase_of_mem hmem, hholds.itemAvailable]

/-- A group that is made has nothing in it. -/
theorem Lists.new_group (h : Lists item waitingList workGroup place) (hG : workGroup g = none)
    (sid : Sid) : Lists item waitingList (Function.update workGroup g (some (.new sid))) place where
  waiting := h.waiting
  group g' G' hG' := by
    by_cases heq : g' = g
    · subst heq
      rw [Function.update_self] at hG'
      obtain rfl := Option.some.inj hG'
      exact ⟨onList_nil item fun i hi => h.exist i g' (Or.inl hi) hG,
        onList_nil item fun i hi => h.exist i g' (Or.inr hi) hG, rfl⟩
    · rw [Function.update_of_ne heq] at hG'
      exact h.group g' G' hG'
  exist j g' hj := by
    by_cases heq : g' = g
    · subst heq
      rw [Function.update_self]
      exact Option.some_ne_none _
    · rw [Function.update_of_ne heq]
      exact h.exist j g' hj

/-- A group that is destroyed has nothing in it. -/
theorem Lists.delete_group (h : Lists item waitingList workGroup place) (hG : workGroup g = some G)
    (hready : G.readyList = []) (hrunning : G.runningList = []) :
    Lists item waitingList (Function.update workGroup g none) place where
  waiting := h.waiting
  group g' G' hG' := by
    by_cases heq : g' = g
    · subst heq
      rw [Function.update_self] at hG'
      exact absurd hG' (Option.some_ne_none _).symm
    · rw [Function.update_of_ne heq] at hG'
      exact h.group g' G' hG'
  exist j g' hj := by
    by_cases heq : g' = g
    · subst heq
      rcases hj with hj | hj
      · exact absurd (((h.group g' G hG).ready.mem j).mpr hj) (hready ▸ List.not_mem_nil)
      · exact absurd (((h.group g' G hG).running.mem j).mpr hj) (hrunning ▸ List.not_mem_nil)
    · rw [Function.update_of_ne heq]
      exact h.exist j g' hj

end lists

end NtAdmin.Drizzle.Newjob
