import NtAdmin.Drizzle.Newjob.TaskInvariant
import NtAdmin.Lib.Prog

/-! Whatever clients, the dispatcher and the workers do, nothing gets lost or done twice. -/
namespace NtAdmin.Drizzle.Newjob

open NtAdmin.Lib

variable {Sid : Type} {s s' : TaskScheduler Sid} {place : ℕ → Place} {i g t : ℕ}

/-- What has happened, and the timer, are not seen. -/
theorem Core.history (h : Core s place) (inserted dispatched finished withdrawn : List ℕ)
    (waitableTimer : Option ℕ) :
    Core { s with inserted, dispatched, finished, withdrawn, waitableTimer } place :=
  ⟨h.lists, h.workers, h.map, h.alive, h.groups, h.threads⟩

/-- What one operation has done with one item: `a` insertions, `b` dispatches, `c` ends and `d`
withdrawals. -/
structure Moved (s s' : TaskScheduler Sid) (i a b c d : ℕ) : Prop where
  item : ∃ w, s'.item = Function.update s.item i w
  inserted : s'.inserted = s.inserted ++ List.replicate a i
  dispatched : s'.dispatched = s.dispatched ++ List.replicate b i
  finished : s'.finished = s.finished ++ List.replicate c i
  withdrawn : s'.withdrawn = s.withdrawn ++ List.replicate d i

section moved
variable {s'' : TaskScheduler Sid} {a b c d : ℕ}

theorem Moved.refl (s : TaskScheduler Sid) (i : ℕ) : Moved s s i 0 0 0 0 :=
  ⟨⟨s.item i, (Function.update_eq_self i s.item).symm⟩, (List.append_nil _).symm,
    (List.append_nil _).symm, (List.append_nil _).symm, (List.append_nil _).symm⟩

/-- What is done to the item, and to the lists and the workers, comes on top. -/
theorem Moved.trans (h : Moved s s' i a b c d) {w : WorkItem}
    (hitem : s''.item = Function.update s'.item i w) (hinserted : s''.inserted = s'.inserted)
    (hdispatched : s''.dispatched = s'.dispatched) (hfinished : s''.finished = s'.finished)
    (hwithdrawn : s''.withdrawn = s'.withdrawn) : Moved s s'' i a b c d := by
  obtain ⟨w', hw'⟩ := h.item
  refine ⟨⟨w, ?_⟩, hinserted.trans h.inserted, hdispatched.trans h.dispatched,
    hfinished.trans h.finished, hwithdrawn.trans h.withdrawn⟩
  rw [hitem, hw', Function.update_idem]

theorem Moved.modifyItem (h : Moved s s' i a b c d) (f : WorkItem → WorkItem) :
    Moved s (s'.modifyItem i f) i a b c d := h.trans rfl rfl rfl rfl rfl

theorem Moved.eraseReady (s : TaskScheduler Sid) (i : ℕ) : Moved s (s.eraseReady i) i 0 0 0 0 := by
  unfold TaskScheduler.eraseReady TaskScheduler.modifyGroup
  rcases (s.item i).workGroup with _ | g
  · exact .refl s i
  · exact ⟨(Moved.refl s i).item, (List.append_nil _).symm, (List.append_nil _).symm,
      (List.append_nil _).symm, (List.append_nil _).symm⟩

theorem Moved.eraseWaiting (s : TaskScheduler Sid) (i : ℕ) : Moved s (s.eraseWaiting i) i 0 0 0 0 :=
  ⟨(Moved.refl s i).item, (List.append_nil _).symm, (List.append_nil _).symm,
    (List.append_nil _).symm, (List.append_nil _).symm⟩

end moved

theorem count_replicate_of_eq {l l' : List ℕ} {a : ℕ} (h : l = l' ++ List.replicate a i) (j : ℕ) :
    l.count j = l'.count j + if j = i then a else 0 := by
  rw [h, List.count_append, List.count_replicate]
  by_cases heq : i = j
  · simp [heq]
  · simp [heq, Ne.symm heq]

/-- An item has moved to `x`. -/
theorem TaskInv.move (h : TaskInv s place) {x : Place} {a b c d : ℕ}
    (hcore : Core s' (Function.update place i x)) (hmanned : Manned s') (hmoved : Moved s s' i a b c d)
    (hi : (s'.item i).At x) (hpending : a + (place i).pending = b + d + x.pending)
    (hruns : b + (place i).runs = c + x.runs) : TaskInv s' (Function.update place i x) := by
  obtain ⟨w, hw⟩ := hmoved.item
  rw [hw, Function.update_self] at hi
  exact { hcore with
    manned := hmanned
    tells := hw ▸ tells_update h.tells i hi
    history := h.history.move i (count_replicate_of_eq hmoved.inserted)
      (count_replicate_of_eq hmoved.dispatched) (count_replicate_of_eq hmoved.finished)
      (count_replicate_of_eq hmoved.withdrawn) hpending hruns }

@[simp] theorem modifyItem_self (s : TaskScheduler Sid) (i : ℕ) (f : WorkItem → WorkItem) :
    (s.modifyItem i f).item i = f (s.item i) := Function.update_self i _ s.item

/-- The timer is not seen. -/
theorem TaskInv.reschedule (h : TaskInv s place) : TaskInv s.reschedule place :=
  { h.toCore.history s.inserted s.dispatched s.finished s.withdrawn _ with
    manned := h.manned
    tells := h.tells
    history := ⟨h.history.inserted, h.history.dispatched⟩ }

section insert
variable [DecidableEq Sid]

/-- An item that has been taken from where it was gets ready. -/
theorem TaskInv.addItemToWorkGroup (h : TaskInv s place) {a : ℕ}
    (hcore : Core s' (Function.update place i .nowhere)) (hmanned : Manned s')
    (hmoved : Moved s s' i a 0 0 0) (hpending : a + (place i).pending = 1)
    (hruns : (place i).runs = 0) (os : Os) (sid : Sid) :
    ∃ g, TaskInv (s'.addItemToWorkGroup os sid i) (Function.update place i (.ready g)) := by
  obtain ⟨g, hcore', hmanned', workGroup, workGroupMap, worker, heq⟩ :=
    hcore.addItemToWorkGroup os hmanned (Function.update_self i _ place) sid
  rw [Function.update_idem] at hcore'
  refine ⟨g, h.move (x := .ready g) (a := a) (b := 0) (c := 0) (d := 0) hcore' hmanned'
    (hmoved.trans (w := { s'.item i with state := .ready, workGroup := some g }) ?_ ?_ ?_ ?_ ?_)
    ?_ hpending ?_⟩
  · rw [heq]
  · rw [heq]
  · rw [heq]
  · rw [heq]
  · rw [heq]
  · rw [heq]
    simp only [Function.update_self]
    exact ⟨rfl, rfl⟩
  · exact (Nat.zero_add _).trans hruns

theorem update_nowhere (hi : place i = .nowhere) : Function.update place i .nowhere = place := by
  rw [← hi]
  exact Function.update_eq_self i place

/-- An item that is not in the scheduler is put in. -/
theorem TaskInv.insertWorkItem (h : TaskInv s place) (hi : place i = .nowhere) (os : Os) (sid : Sid)
    (timeToRun : Option ℕ) (now : ℕ) :
    ∃ place', TaskInv (s.insertWorkItem os sid i timeToRun now) place' := by
  have hw := h.tells i
  rw [hi] at hw
  have hcore := (h.toCore.modifyItem hi fun w =>
    { w with insertionTime := now, cancelEvent := false, itemComplete := false }).history
      (s.inserted ++ [i]) s.dispatched s.finished s.withdrawn s.waitableTimer
  have hmoved : Moved s { s.modifyItem i fun w =>
      { w with insertionTime := now, cancelEvent := false, itemComplete := false } with
        inserted := s.inserted ++ [i] } i 1 0 0 0 :=
    ⟨⟨_, rfl⟩, rfl, (List.append_nil _).symm, (List.append_nil _).symm, (List.append_nil _).symm⟩
  unfold TaskScheduler.insertWorkItem
  cases timeToRun with
  | none =>
    rw [if_pos ⟨rfl, hcore.alive⟩]
    have hcore' := hcore.modifyItem hi fun w => { w with timeToRun := w.insertionTime }
    rw [← update_nowhere hi] at hcore'
    obtain ⟨g, hinv⟩ := h.addItemToWorkGroup hcore' h.manned (hmoved.modifyItem _) (by rw [hi]; rfl)
      (by rw [hi]; rfl) os sid
    exact ⟨_, hinv⟩
  | some due =>
    rw [if_neg fun hn => absurd hn.1 (Option.some_ne_none due)]
    have hcore' := (hcore.modifyItem hi fun w =>
      { w with timeToRun := due, state := .waiting }).insertWaiting hi
    refine ⟨_, h.move (hcore'.history _ _ _ _ _) h.manned (hmoved.trans rfl rfl rfl rfl rfl) ?_
      (by rw [hi]; rfl) (by rw [hi]; rfl)⟩
    simp only [TaskScheduler.reschedule, TaskScheduler.insertWaiting, modifyItem_self]
    exact ⟨hw.1, rfl⟩

theorem TaskInv.dispatchLoop (os : Os) (getSid : ℕ → Sid) (clock : ℕ → ℕ) (n : ℕ) :
    ∀ {s : TaskScheduler Sid} {place : ℕ → Place}, TaskInv s place →
      ∃ place', TaskInv (s.dispatchLoop os getSid clock n) place' := by
  induction n with
  | zero => exact fun h => ⟨_, h⟩
  | succ n ih =>
    intro s place h
    unfold TaskScheduler.dispatchLoop
    rcases hw : s.waitingList with _ | ⟨i, l⟩
    · exact ⟨place, h⟩
    · simp only
      split_ifs
      · exact ⟨place, h⟩
      · have hi : place i = .waiting := (h.lists.waiting.mem i).mp (hw ▸ List.mem_cons_self)
        obtain ⟨g, hinv⟩ := h.addItemToWorkGroup (h.toCore.eraseWaiting hi) h.manned
          (.eraseWaiting s i) (by rw [hi]; rfl) (by rw [hi]; rfl) os (getSid i)
        exact ih hinv

theorem addItemToWorkGroup_waitingList (s : TaskScheduler Sid) (os : Os) (sid : Sid) (i : ℕ) :
    (s.addItemToWorkGroup os sid i).waitingList = s.waitingList := by
  have hfind : (s.findWorkGroup os sid).2.waitingList = s.waitingList := by
    unfold TaskScheduler.findWorkGroup
    cases s.workGroupMap sid <;> rfl
  unfold TaskScheduler.addItemToWorkGroup
  generalize s.findWorkGroup os sid = p at hfind ⊢
  obtain ⟨g, s₁⟩ := p
  obtain ⟨workGroup, worker, heq⟩ := addWorker_eq os (TaskScheduler.modifyItem i
    (fun w => { w with state := .ready, workGroup := some g }) (s₁.modifyGroup (some g) fun G =>
      { G with
        readyList := sortedInsert s₁.item i G.readyList
        itemAvailable := G.itemAvailable + 1 })) g
  exact (congrArg TaskScheduler.waitingList heq).trans hfind

/-- The loop goes on until nothing is due. -/
theorem dispatchLoop_done (os : Os) (getSid : ℕ → Sid) (clock : ℕ → ℕ) (n : ℕ) :
    ∀ {s : TaskScheduler Sid}, s.waitingList.length ≤ n →
      ∀ i, (s.dispatchLoop os getSid clock n).waitingList.head? = some i →
        ∃ k, clock k < ((s.dispatchLoop os getSid clock n).item i).timeToRun := by
  induction n with
  | zero =>
    intro s hn i hi
    have hnil : s.waitingList = [] := List.eq_nil_of_length_eq_zero (Nat.le_zero.mp hn)
    have hi' : s.waitingList.head? = some i := hi
    rw [hnil] at hi'
    exact absurd hi' (Option.some_ne_none i).symm
  | succ n ih =>
    intro s hn i
    unfold TaskScheduler.dispatchLoop
    rcases hw : s.waitingList with _ | ⟨j, l⟩
    · simp [hw]
    · simp only
      split_ifs with hdue
      · intro hi
        rw [hw] at hi
        exact ⟨n, Option.some.inj hi ▸ hdue⟩
      · refine ih ?_ i
        rw [addItemToWorkGroup_waitingList]
        show (s.waitingList.erase j).length ≤ n
        rw [hw] at hn ⊢
        rw [List.erase_cons_head]
        exact Nat.le_of_succ_le_succ hn

theorem TaskInv.dispatchWorkItem (h : TaskInv s place) (os : Os) (getSid : ℕ → Sid)
    (clock : ℕ → ℕ) : ∃ place', TaskInv (s.dispatchWorkItem os getSid clock) place' := by
  obtain ⟨place', hinv⟩ := h.dispatchLoop os getSid clock s.waitingList.length
  exact ⟨place', hinv.reschedule⟩

end insert

section remove

/-- A pending item is taken from its list. -/
theorem TaskInv.erase (h : TaskInv s place) :
    ((s.item i).state = .waiting → place i = .waiting ∧
      Core (s.eraseWaiting i) (Function.update place i .nowhere) ∧ Manned (s.eraseWaiting i)) ∧
    ((s.item i).state = .ready → (∃ g, place i = .ready g) ∧
      Core (s.eraseReady i) (Function.update place i .nowhere) ∧ Manned (s.eraseReady i)) := by
  refine ⟨fun hstate => ?_, fun hstate => ?_⟩
  · have hi := (h.tells i).of_waiting hstate
    exact ⟨hi, h.toCore.eraseWaiting hi, h.manned⟩
  · obtain ⟨g, hi, hw⟩ := (h.tells i).of_ready hstate
    refine ⟨⟨g, hi⟩, h.toCore.eraseReady hi hw, Manned.modifyGroup h.manned (fun G => ?_) _⟩
    rfl

/-- An item that has been taken from its list waits for another time. -/
theorem TaskInv.delayed (h : TaskInv s place)
    (hcore : Core s' (Function.update place i .nowhere)) (hmanned : Manned s')
    (hmoved : Moved s s' i 0 0 0 0) (hpending : (place i).pending = 1) (hruns : (place i).runs = 0)
    (f : WorkItem → WorkItem) :
    TaskInv (((s'.modifyItem i f).insertWaiting i).modifyItem i fun w =>
      { w with state := .waiting, workGroup := none }) (Function.update place i .waiting) := by
  have hcore' := ((hcore.modifyItem (Function.update_self i _ place) f).insertWaiting
    (Function.update_self i _ place)).modifyItem_of_times
      (f := fun w => { w with state := .waiting, workGroup := none }) (fun _ => ⟨rfl, rfl⟩) i
  rw [Function.update_idem] at hcore'
  refine h.move hcore' hmanned ((hmoved.modifyItem f).trans rfl rfl rfl rfl rfl) ?_
    ((Nat.zero_add _).trans hpending) ((Nat.zero_add _).trans hruns)
  rw [modifyItem_self]
  exact ⟨rfl, rfl⟩

theorem TaskInv.rescheduleDelayedTask (h : TaskInv s place) (i delay : ℕ) :
    ∃ place', TaskInv (s.rescheduleDelayedTask i delay) place' := by
  unfold TaskScheduler.rescheduleDelayedTask
  cases hstate : (s.item i).state with
  | ready =>
    obtain ⟨⟨g, hi⟩, hcore, hmanned⟩ := h.erase.2 hstate
    exact ⟨_, (h.delayed hcore hmanned (.eraseReady s i) (by rw [hi]; rfl) (by rw [hi]; rfl)
      _).reschedule⟩
  | waiting =>
    obtain ⟨hi, hcore, hmanned⟩ := h.erase.1 hstate
    exact ⟨_, (h.delayed hcore hmanned (.eraseWaiting s i) (by rw [hi]; rfl) (by rw [hi]; rfl)
      _).reschedule⟩
  | running => exact ⟨place, h⟩
  | canceled => exact ⟨place, h⟩
  | complete => exact ⟨place, h⟩
  | nothing => exact ⟨place, h⟩

end remove

section worker
variable {T : Worker} {G : WorkGroup Sid}

theorem currentWorkItem_eq (ht : s.worker t = some T) : s.currentWorkItem t = T.current := by
  unfold TaskScheduler.currentWorkItem
  rw [ht]
  rfl

/-- A worker is done with its item, if it has one. -/
theorem TaskInv.completeWorkItem (h : TaskInv s place) (cancel : Bool) (t : ℕ) :
    ∃ place', TaskInv (s.completeWorkItem cancel t) place' ∧
      ∀ T, s.worker t = some T →
        (s.completeWorkItem cancel t).worker t = some { T with current := none } := by
  unfold TaskScheduler.completeWorkItem
  rcases hcurrent : s.currentWorkItem t with _ | i
  · refine ⟨place, h, fun T ht => ?_⟩
    rw [currentWorkItem_eq ht] at hcurrent
    show s.worker t = _
    rw [ht, ← hcurrent]
  · obtain ⟨T, ht, hi⟩ := Option.bind_eq_some_iff.mp hcurrent
    obtain ⟨hplace, hphase⟩ := h.workers.current t T i ht hi
    obtain ⟨G, hG⟩ := Option.ne_none_iff_exists'.mp (h.workers.exist t T ht)
    have hw := h.tells i
    rw [hplace] at hw
    have hworkers : Workers
        (Function.update s.workGroup T.group (some { G with
          runningList := G.runningList.erase i }))
        (Function.update s.worker t (some { T with current := none }))
        (Function.update place i .nowhere) := by
      refine h.workers.update_worker ht rfl ?_ (fun j hj => ?_) (fun t' T' j hne ht' hj => ?_)
        fun j g hj => ?_
      · exact (h.workers.group _ G hG).update_worker ht rfl rfl rfl rfl rfl
      · exact absurd hj (Option.some_ne_none j).symm
      · have hji : j ≠ i := fun heq => hne (h.workers.once t' t T' T i ht' ht (heq ▸ hj) hi)
        exact ⟨Function.update_of_ne hji _ place, (Option.some_ne_none j).symm⟩
      · left
        by_cases hji : j = i
        · subst hji
          rw [Function.update_self] at hj
          exact Place.noConfusion hj
        · rw [Function.update_of_ne hji] at hj
          exact ⟨hj, fun hc => hji (Option.some.inj (hc.symm.trans hi))⟩
    have hcore := ((h.toCore.update_group hG (h.lists.leave_running hG hplace) hworkers
      (bounded_update h.threads t _) rfl).modifyItem (Function.update_self i _ place) fun w =>
        { w with
          workGroup := none
          state := if cancel then .canceled else .complete
          itemComplete := true }).history s.inserted s.dispatched (s.finished ++ [i]) s.withdrawn
            s.waitableTimer
    simp only [TaskScheduler.setWorker, TaskScheduler.modifyGroup, TaskScheduler.modifyItem, ht,
      hw.1, hG, Option.map_some]
    refine ⟨_, h.move (x := .nowhere) (a := 0) (b := 0) (c := 1) (d := 0) hcore ?_
      ⟨⟨_, rfl⟩, (List.append_nil _).symm, (List.append_nil _).symm, rfl, (List.append_nil _).symm⟩
      ?_ (by rw [hplace]; rfl) (by rw [hplace]; rfl), fun T' ht' => ?_⟩
    · have := h.manned.modifyGroup (f := fun G : WorkGroup Sid =>
        { G with runningList := G.runningList.erase i }) (fun _ => rfl) (some T.group)
      rwa [modifyGroup_of_some hG] at this
    · simp only [Function.update_self]
      refine ⟨rfl, ?_⟩
      cases cancel
      · exact Or.inr (Or.inl rfl)
      · exact Or.inl rfl
    · obtain rfl := Option.some.inj ht'
      exact Function.update_self t _ s.worker

/-- The cancel event is not seen. -/
theorem TaskInv.setCancelEvent (h : TaskInv s place) (i : ℕ) :
    TaskInv (s.modifyItem i fun w => { w with cancelEvent := true }) place := by
  refine { h.toCore.modifyItem_of_times (f := fun w => { w with cancelEvent := true })
      (fun _ => ⟨rfl, rfl⟩) i with
    manned := h.manned
    tells := fun j => ?_
    history := ⟨h.history.inserted, h.history.dispatched⟩ }
  by_cases heq : j = i
  · subst heq
    have hj := h.tells j
    rw [modifyItem_self]
    cases hx : place j <;> rw [hx] at hj <;> exact hj
  · have : (s.modifyItem i fun w => { w with cancelEvent := true }).item j = s.item j :=
      Function.update_of_ne heq _ s.item
    exact this ▸ h.tells j

/-- An item that has been taken from its list is canceled. -/
theorem TaskInv.withdraw (h : TaskInv s place) (hcore : Core s' (Function.update place i .nowhere))
    (hmanned : Manned s') (hmoved : Moved s s' i 0 0 0 0) (hpending : (place i).pending = 1)
    (hruns : (place i).runs = 0) (waitableTimer : Option ℕ) :
    TaskInv { s'.modifyItem i fun w => { w with state := .canceled, workGroup := none } with
      withdrawn := s'.withdrawn ++ [i], waitableTimer } (Function.update place i .nowhere) := by
  have hcore' := (hcore.modifyItem (Function.update_self i _ place) fun w =>
    { w with state := .canceled, workGroup := none }).history s'.inserted s'.dispatched s'.finished
      (s'.withdrawn ++ [i]) waitableTimer
  have hmoved' := hmoved.modifyItem fun w => { w with state := .canceled, workGroup := none }
  refine h.move (x := .nowhere) (a := 0) (b := 0) (c := 0) (d := 1) hcore' hmanned
    ⟨hmoved'.item, hmoved'.inserted, hmoved'.dispatched, hmoved'.finished, ?_⟩ ?_
    ((Nat.zero_add _).trans hpending) ((Nat.zero_add _).trans hruns)
  · show s'.withdrawn ++ [i] = s.withdrawn ++ [i]
    rw [hmoved.withdrawn]
    exact congrArg (· ++ [i]) (List.append_nil _)
  · simp only [modifyItem_self]
    exact ⟨rfl, Or.inl rfl⟩

theorem TaskInv.cancelWorkItem (h : TaskInv s place) (i caller : ℕ) :
    ∃ place', TaskInv (s.cancelWorkItem i caller).2 place' := by
  unfold TaskScheduler.cancelWorkItem
  split_ifs
  · exact ⟨place, h⟩
  · obtain ⟨place', hinv, -⟩ := (h.setCancelEvent i).completeWorkItem true caller
    exact ⟨place', hinv⟩
  · cases hstate : (s.item i).state with
    | waiting =>
      obtain ⟨hi, hcore, hmanned⟩ := h.erase.1 hstate
      exact ⟨_, h.withdraw hcore hmanned (.eraseWaiting s i) (by rw [hi]; rfl) (by rw [hi]; rfl) _⟩
    | ready =>
      obtain ⟨⟨g, hi⟩, hcore, hmanned⟩ := h.erase.2 hstate
      exact ⟨_, h.withdraw hcore hmanned (.eraseReady s i) (by rw [hi]; rfl) (by rw [hi]; rfl) _⟩
    | running => exact ⟨place, h.setCancelEvent i⟩
    | canceled => exact ⟨place, h⟩
    | complete => exact ⟨place, h⟩
    | nothing => exact ⟨place, h⟩

/-- An idle worker takes the first ready item of its group. -/
theorem TaskInv.take (h : TaskInv s place) (ht : s.worker t = some T) (hidle : T.phase = .idle)
    (hG : s.workGroup T.group = some G) (havailable : 0 < G.itemAvailable) :
    ∃ place', TaskInv (s.take t) place' := by
  have hholds := h.lists.group _ G hG
  rw [hholds.itemAvailable] at havailable
  obtain ⟨i, l, hl⟩ := List.exists_cons_of_ne_nil (List.length_pos_iff.mp havailable)
  have hplace : place i = .ready T.group := (hholds.ready.mem i).mp (hl ▸ List.mem_cons_self)
  have hw := h.tells i
  rw [hplace] at hw
  have hworkers : Workers
      (Function.update s.workGroup T.group (some { G with
        readyList := G.readyList.erase i
        runningList := sortedInsert s.item i G.runningList
        itemAvailable := G.itemAvailable - 1
        busyThreads := G.busyThreads + 1 }))
      (Function.update s.worker t (some { T with phase := .dispatching, current := some i }))
      (Function.update place i (.running T.group)) := by
    refine h.workers.update_worker ht rfl ?_ (fun j hj => ?_) (fun t' T' j hne ht' hj => ?_)
      fun j g hj => ?_
    · refine (h.workers.group _ G hG).update_worker ht rfl rfl rfl rfl ?_
      simp [isBusy, hidle]
    · obtain rfl := Option.some.inj hj
      exact ⟨Function.update_self i _ place, rfl⟩
    · have hrunning := (h.workers.current t' T' j ht' hj).1
      have hji : j ≠ i := by
        rintro rfl
        exact Place.noConfusion (hplace.symm.trans hrunning)
      exact ⟨Function.update_of_ne hji _ place, fun hc => hji (Option.some.inj hc).symm⟩
    · by_cases hji : j = i
      · exact Or.inr (congrArg some hji.symm)
      · rw [Function.update_of_ne hji] at hj
        refine Or.inl ⟨hj, fun hc => ?_⟩
        exact absurd (hidle.symm.trans (h.workers.current t T j ht hc).2) (by decide)
  have hcore := ((h.toCore.update_group hG (h.lists.ready_to_running hG hplace (G.busyThreads + 1))
    hworkers (bounded_update h.threads t _) rfl).modifyItem_of_times
      (f := fun w => { w with state := .running }) (fun _ => ⟨rfl, rfl⟩) i).history s.inserted
        (s.dispatched ++ [i]) s.finished s.withdrawn s.waitableTimer
  have hhead : G.readyList.head? = some i := by rw [hl]; rfl
  unfold TaskScheduler.take
  simp only [TaskScheduler.setWorker, TaskScheduler.modifyGroup, TaskScheduler.modifyItem, ht, hG,
    Option.map_some, Function.update_self, Option.bind_some, hhead, Function.update_idem]
  rw [if_neg (by simp [h.alive])]
  refine ⟨_, h.move (x := .running T.group) (a := 0) (b := 1) (c := 0) (d := 0) hcore ?_
    ⟨⟨_, rfl⟩, (List.append_nil _).symm, rfl, (List.append_nil _).symm, (List.append_nil _).symm⟩
    ?_ (by rw [hplace]; rfl) (by rw [hplace]; rfl)⟩
  · have := h.manned.modifyGroup (f := fun G : WorkGroup Sid => { G with
      readyList := G.readyList.erase i
      runningList := sortedInsert s.item i G.runningList
      itemAvailable := G.itemAvailable - 1
      busyThreads := G.busyThreads + 1 }) (fun _ => rfl) (some T.group)
    rwa [modifyGroup_of_some hG] at this
  · simp only [Function.update_self]
    exact ⟨hw.1, rfl⟩

/-- A worker without an item comes to another point of its loop. -/
theorem TaskInv.setPhase (h : TaskInv s place) (ht : s.worker t = some T) (hcurrent : T.current = none)
    (hG : s.workGroup T.group = some G) (phase : WorkerPhase) (busyThreads : ℤ)
    (hbusy : busyThreads + (if isBusy (some T) then 1 else 0) =
      G.busyThreads + if isBusy (some { T with phase }) then 1 else 0) :
    TaskInv { s with
      workGroup := Function.update s.workGroup T.group (some { G with busyThreads })
      worker := Function.update s.worker t (some { T with phase }) } place := by
  have hworkers : Workers
      (Function.update s.workGroup T.group (some { G with busyThreads }))
      (Function.update s.worker t (some { T with phase })) place := by
    refine h.workers.update_worker ht rfl ?_ (fun j hj => ?_) (fun t' T' j hne ht' hj => ⟨rfl, ?_⟩)
      fun j g hj => ?_
    · exact (h.workers.group _ G hG).update_worker ht rfl rfl rfl rfl hbusy
    · exact absurd (hcurrent.symm.trans hj) (Option.some_ne_none j).symm
    · exact fun hc => absurd (hcurrent.symm.trans hc) (Option.some_ne_none j).symm
    · exact Or.inl ⟨hj, fun hc => absurd (hcurrent.symm.trans hc) (Option.some_ne_none j).symm⟩
  have hlists : Lists s.item s.waitingList
      (Function.update s.workGroup T.group (some { G with busyThreads })) place :=
    h.lists.congr_group hG rfl rfl rfl
  have hmanned := h.manned.modifyGroup (f := fun G : WorkGroup Sid => { G with busyThreads })
    (fun _ => rfl) (some T.group)
  rw [modifyGroup_of_some hG] at hmanned
  exact { h.toCore.update_group hG hlists hworkers (bounded_update h.threads t _) rfl with
    manned := hmanned
    tells := h.tells
    history := ⟨h.history.inserted, h.history.dispatched⟩ }

theorem TaskInv.finish (h : TaskInv s place) (ht : s.worker t = some T)
    (hphase : T.phase = .dispatching) : ∃ place', TaskInv (s.finish t) place' := by
  obtain ⟨place', hinv, hworker⟩ := h.completeWorkItem false t
  have ht' := hworker T ht
  obtain ⟨G, hG⟩ := Option.ne_none_iff_exists'.mp (hinv.workers.exist t _ ht')
  have := hinv.setPhase ht' rfl hG .dispatched G.busyThreads
    (by simp [isBusy, hphase])
  rw [show Function.update (s.completeWorkItem false t).workGroup T.group (some G) =
    (s.completeWorkItem false t).workGroup from hG ▸ Function.update_eq_self _ _] at this
  refine ⟨place', ?_⟩
  unfold TaskScheduler.finish TaskScheduler.setWorker
  rw [ht']
  exact this

theorem TaskInv.markFree (h : TaskInv s place) (ht : s.worker t = some T)
    (hphase : T.phase = .dispatched) : TaskInv (s.markFree t) place := by
  obtain ⟨G, hG⟩ := Option.ne_none_iff_exists'.mp (h.workers.exist t T ht)
  have hcurrent : T.current = none := by
    rcases hi : T.current with _ | i
    · rfl
    · exact absurd (hphase.symm.trans (h.workers.current t T i ht hi).2) (by decide)
  have := h.setPhase ht hcurrent hG .idle (G.busyThreads - 1)
    (by simp [isBusy, hphase])
  unfold TaskScheduler.markFree TaskScheduler.setWorker
  rw [ht, Option.map_some, modifyGroup_of_some hG]
  simp only [ht]
  exact this

/-- A worker goes, and its group with the last one. -/
theorem TaskInv.timeout [DecidableEq Sid] (h : TaskInv s place) (ht : s.worker t = some T)
    (hidle : T.phase = .idle) : TaskInv (s.timeout t) place := by
  obtain ⟨G, hG⟩ := Option.ne_none_iff_exists'.mp (h.workers.exist t T ht)
  unfold TaskScheduler.timeout
  simp only [ht, hG]
  split_ifs with hready hone
  · exact h
  · have hrunning : G.runningList = [] := by
      refine List.eq_nil_iff_forall_not_mem.mpr fun i hi => ?_
      exact h.workers.none_running ht hG hone hidle i (((h.lists.group _ G hG).running.mem i).mp hi)
    refine { lists := h.lists.delete_group hG (not_not.mp hready) hrunning
             workers := h.workers.delete_group ht hG hone hidle
             map := fun sid g => ?_
             alive := h.alive
             groups := bounded_update h.groups _ _
             threads := bounded_update h.threads _ _
             manned := fun g G' hG' => ?_
             tells := h.tells
             history := ⟨h.history.inserted, h.history.dispatched⟩ }
    · show Function.update s.workGroupMap G.sid none sid = some g ↔
        ∃ G', Function.update s.workGroup T.group none g = some G' ∧ G'.sid = sid
      have hmap := (h.map G.sid T.group).mpr ⟨G, hG, rfl⟩
      by_cases hg : g = T.group
      · subst hg
        rw [Function.update_self]
        refine ⟨fun hs => ?_, fun ⟨G', hG', _⟩ => absurd hG' (Option.some_ne_none G').symm⟩
        by_cases hsid : sid = G.sid
        · rw [hsid, Function.update_self] at hs
          exact absurd hs (Option.some_ne_none _).symm
        · rw [Function.update_of_ne hsid, h.map] at hs
          obtain ⟨G', hG', rfl⟩ := hs
          exact absurd (congrArg WorkGroup.sid (Option.some.inj (hG'.symm.trans hG))) hsid
      · rw [Function.update_of_ne hg, ← h.map]
        by_cases hsid : sid = G.sid
        · rw [hsid, Function.update_self, hmap]
          exact ⟨fun hs => absurd hs (Option.some_ne_none _).symm,
            fun hs => absurd (Option.some.inj hs).symm hg⟩
        · rw [Function.update_of_ne hsid]
    · by_cases hg : g = T.group
      · subst hg
        exact absurd ((Function.update_self T.group _ s.workGroup).symm.trans hG')
          (Option.some_ne_none G').symm
      · exact h.manned g G' ((Function.update_of_ne hg _ s.workGroup).symm.trans hG')
  · rw [modifyGroup_of_some (s := { s with worker := Function.update s.worker t none }) hG]
    have hthreads := h.manned T.group G hG
    refine { lists := h.lists.congr_group hG rfl rfl rfl
             workers := h.workers.remove_worker ht hG hidle
             map := map_update h.map hG rfl
             alive := h.alive
             groups := bounded_update h.groups _ _
             threads := bounded_update h.threads _ _
             manned := fun g G' hG' => ?_
             tells := h.tells
             history := ⟨h.history.inserted, h.history.dispatched⟩ }
    by_cases hg : g = T.group
    · subst hg
      obtain rfl := Option.some.inj ((Function.update_self T.group _ s.workGroup).symm.trans hG')
      show 0 < G.threads - 1
      omega
    · exact h.manned g G' ((Function.update_of_ne hg _ s.workGroup).symm.trans hG')

end worker

/-- What one event does. -/
theorem TaskInv.step [DecidableEq Sid] {ev : TaskEvent Sid} (h : TaskInv s place)
    (hev : ev.Enabled s) : ∃ place', TaskInv (ev.step s) place' := by
  cases ev with
  | insertWorkItem os sid i timeToRun now =>
    exact h.insertWorkItem ((h.tells i).nowhere hev.1 hev.2.1 hev.2.2) os sid timeToRun now
  | cancelWorkItem i caller => exact h.cancelWorkItem i caller
  | rescheduleDelayedTask i delay => exact h.rescheduleDelayedTask i delay
  | completeWorkItem caller =>
    obtain ⟨place', hinv, -⟩ := h.completeWorkItem false caller
    exact ⟨place', hinv⟩
  | acknowledgeWorkItemCancel caller =>
    obtain ⟨place', hinv, -⟩ := h.completeWorkItem true caller
    exact ⟨place', hinv⟩
  | dispatchWorkItem os getSid clock => exact h.dispatchWorkItem os getSid clock
  | take t =>
    obtain ⟨T, G, ht, hidle, hG, havailable⟩ := hev
    exact h.take ht hidle hG havailable
  | finish t =>
    obtain ⟨T, ht, hphase⟩ := hev
    exact h.finish ht hphase
  | markFree t =>
    obtain ⟨T, ht, hphase⟩ := hev
    exact ⟨place, h.markFree ht hphase⟩
  | timeout t =>
    obtain ⟨T, ht, hidle⟩ := hev
    exact ⟨place, h.timeout ht hidle⟩

/-- No group is destroyed. -/
def GroupsStay (workGroup workGroup' : ℕ → Option (WorkGroup Sid)) : Prop :=
  ∀ g, workGroup g ≠ none → workGroup' g ≠ none

section stay

theorem GroupsStay.refl (workGroup : ℕ → Option (WorkGroup Sid)) : GroupsStay workGroup workGroup :=
  fun _ hg => hg

theorem GroupsStay.trans {f f' f'' : ℕ → Option (WorkGroup Sid)} (h : GroupsStay f f')
    (h' : GroupsStay f' f'') : GroupsStay f f'' := fun g hg => h' g (h g hg)

theorem groupsStay_modifyGroup (s : TaskScheduler Sid) (x : Option ℕ)
    (f : WorkGroup Sid → WorkGroup Sid) : GroupsStay s.workGroup (s.modifyGroup x f).workGroup := by
  rcases x with _ | g
  · exact .refl _
  · intro g' hg'
    show Function.update s.workGroup g ((s.workGroup g).map f) g' ≠ none
    obtain ⟨G, hG⟩ := Option.ne_none_iff_exists'.mp hg'
    by_cases heq : g' = g
    · subst heq
      rw [Function.update_self, hG]
      exact Option.some_ne_none _
    · rwa [Function.update_of_ne heq]

theorem groupsStay_completeWorkItem (s : TaskScheduler Sid) (cancel : Bool) (t : ℕ) :
    GroupsStay s.workGroup (s.completeWorkItem cancel t).workGroup := by
  unfold TaskScheduler.completeWorkItem
  rcases s.currentWorkItem t with _ | i
  · exact .refl _
  · exact groupsStay_modifyGroup (s.setWorker t fun T => { T with current := none }) _ _

theorem groupsStay_take (s : TaskScheduler Sid) (t : ℕ) :
    GroupsStay s.workGroup (s.take t).workGroup := by
  unfold TaskScheduler.take
  rcases s.worker t with _ | T
  · exact .refl _
  · have hfirst := groupsStay_modifyGroup s (some T.group) fun G =>
      { G with itemAvailable := G.itemAvailable - 1 }
    simp only
    split_ifs
    · exact hfirst
    · split
      · exact hfirst
      · exact hfirst.trans (groupsStay_modifyGroup _ _ _)

theorem groupsStay_addWorker (s : TaskScheduler Sid) (os : Os) (g : ℕ) :
    GroupsStay s.workGroup (s.addWorker os g).workGroup := by
  unfold TaskScheduler.addWorker
  rcases s.workGroup g with _ | G
  · exact .refl _
  · simp only
    split_ifs
    · exact groupsStay_modifyGroup s (some g) _
    · exact .refl _

theorem groupsStay_rescheduleDelayedTask (s : TaskScheduler Sid) (i delay : ℕ) :
    GroupsStay s.workGroup (s.rescheduleDelayedTask i delay).workGroup := by
  unfold TaskScheduler.rescheduleDelayedTask
  cases (s.item i).state with
  | ready => exact groupsStay_modifyGroup s _ _
  | waiting => exact .refl _
  | running => exact .refl _
  | canceled => exact .refl _
  | complete => exact .refl _
  | nothing => exact .refl _

theorem groupsStay_cancelWorkItem (s : TaskScheduler Sid) (i caller : ℕ) :
    GroupsStay s.workGroup (s.cancelWorkItem i caller).2.workGroup := by
  unfold TaskScheduler.cancelWorkItem
  split_ifs
  · exact .refl _
  · exact groupsStay_completeWorkItem (s.modifyItem i fun w => { w with cancelEvent := true }) true
      caller
  · cases (s.item i).state with
    | ready => exact groupsStay_modifyGroup s _ _
    | waiting => exact .refl _
    | running => exact .refl _
    | canceled => exact .refl _
    | complete => exact .refl _
    | nothing => exact .refl _

variable [DecidableEq Sid]

theorem groupsStay_findWorkGroup (s : TaskScheduler Sid) (os : Os) (sid : Sid) :
    GroupsStay s.workGroup (s.findWorkGroup os sid).2.workGroup := by
  unfold TaskScheduler.findWorkGroup
  rcases s.workGroupMap sid with _ | g
  · exact fun _ hg => update_some_ne_none hg
  · exact .refl _

theorem groupsStay_addItemToWorkGroup (s : TaskScheduler Sid) (os : Os) (sid : Sid) (i : ℕ) :
    GroupsStay s.workGroup (s.addItemToWorkGroup os sid i).workGroup := by
  have hfind := groupsStay_findWorkGroup s os sid
  unfold TaskScheduler.addItemToWorkGroup
  generalize s.findWorkGroup os sid = p at hfind ⊢
  obtain ⟨g, s₁⟩ := p
  refine (hfind.trans ?_).trans (groupsStay_addWorker _ os g)
  exact groupsStay_modifyGroup s₁ (some g) _

theorem groupsStay_insertWorkItem (s : TaskScheduler Sid) (os : Os) (sid : Sid) (i : ℕ)
    (timeToRun : Option ℕ) (now : ℕ) :
    GroupsStay s.workGroup (s.insertWorkItem os sid i timeToRun now).workGroup := by
  have hadd : ∀ s' : TaskScheduler Sid, s'.workGroup = s.workGroup →
      GroupsStay s.workGroup (s'.addItemToWorkGroup os sid i).workGroup :=
    fun s' hs => hs ▸ groupsStay_addItemToWorkGroup s' os sid i
  unfold TaskScheduler.insertWorkItem
  simp only
  split_ifs
  · exact hadd _ rfl
  · exact .refl _

theorem groupsStay_dispatchLoop (os : Os) (getSid : ℕ → Sid) (clock : ℕ → ℕ) (n : ℕ) :
    ∀ s : TaskScheduler Sid, GroupsStay s.workGroup (s.dispatchLoop os getSid clock n).workGroup := by
  induction n with
  | zero => exact fun s => .refl _
  | succ n ih =>
    intro s
    unfold TaskScheduler.dispatchLoop
    rcases s.waitingList with _ | ⟨i, l⟩
    · exact .refl _
    · simp only
      split_ifs
      · exact .refl _
      · exact (groupsStay_addItemToWorkGroup (s.eraseWaiting i) os (getSid i) i).trans (ih _)

end stay

/-- A group is destroyed by the last of its workers, when nothing is left in it. -/
theorem TaskInv.destroyed [DecidableEq Sid] {ev : TaskEvent Sid} (h : TaskInv s place)
    (hev : ev.Enabled s) {G : WorkGroup Sid} (hG : s.workGroup g = some G)
    (hgone : (ev.step s).workGroup g = none) : G.readyList = [] ∧ G.runningList = [] := by
  have hstay : ∀ {workGroup'}, GroupsStay s.workGroup workGroup' → workGroup' g ≠ none :=
    fun hs => hs g (hG ▸ Option.some_ne_none G)
  cases ev with
  | insertWorkItem os sid i timeToRun now =>
    exact absurd hgone (hstay (groupsStay_insertWorkItem s os sid i timeToRun now))
  | cancelWorkItem i caller => exact absurd hgone (hstay (groupsStay_cancelWorkItem s i caller))
  | rescheduleDelayedTask i delay =>
    exact absurd hgone (hstay (groupsStay_rescheduleDelayedTask s i delay))
  | completeWorkItem caller =>
    exact absurd hgone (hstay (groupsStay_completeWorkItem s false caller))
  | acknowledgeWorkItemCancel caller =>
    exact absurd hgone (hstay (groupsStay_completeWorkItem s true caller))
  | dispatchWorkItem os getSid clock =>
    exact absurd hgone (hstay (groupsStay_dispatchLoop os getSid clock s.waitingList.length s))
  | take t => exact absurd hgone (hstay (groupsStay_take s t))
  | finish t => exact absurd hgone (hstay (groupsStay_completeWorkItem s false t))
  | markFree t => exact absurd hgone (hstay (groupsStay_modifyGroup s _ _))
  | timeout t =>
    obtain ⟨T, ht, hidle⟩ := hev
    -- the items stay where they are
    have hexist := (h.timeout ht hidle).lists.exist
    have hholds := h.lists.group g G hG
    refine ⟨List.eq_nil_iff_forall_not_mem.mpr fun i hi => ?_,
      List.eq_nil_iff_forall_not_mem.mpr fun i hi => ?_⟩
    · exact hexist i g (Or.inl ((hholds.ready.mem i).mp hi)) hgone
    · exact hexist i g (Or.inr ((hholds.running.mem i).mp hi)) hgone

theorem taskInv_init : TaskInv (.init : TaskScheduler Sid) fun _ => .nowhere where
  lists := ⟨onList_nil _ fun _ h => Place.noConfusion h,
    fun _ _ hG => absurd hG (Option.some_ne_none _).symm,
    fun _ _ h => h.elim (fun h => Place.noConfusion h) fun h => Place.noConfusion h⟩
  workers := ⟨fun _ _ hG => absurd hG (Option.some_ne_none _).symm,
    fun _ _ ht => absurd ht (Option.some_ne_none _).symm,
    fun _ _ _ ht => absurd ht (Option.some_ne_none _).symm, fun _ _ h => Place.noConfusion h,
    fun _ _ _ _ _ ht => absurd ht (Option.some_ne_none _).symm⟩
  map _ _ := ⟨fun h => absurd h (Option.some_ne_none _).symm,
    fun ⟨_, hG, _⟩ => absurd hG (Option.some_ne_none _).symm⟩
  alive := rfl
  groups := ⟨0, fun _ _ => rfl⟩
  threads := ⟨0, fun _ _ => rfl⟩
  manned _ _ hG := absurd hG (Option.some_ne_none _).symm
  tells _ := ⟨rfl, Or.inr (Or.inr rfl)⟩
  history := ⟨fun _ => rfl, fun _ => rfl⟩

/-- What clients can rely on about a group. -/
structure WorkGroup.Ok (s : TaskScheduler Sid) (g : ℕ) (G : WorkGroup Sid) : Prop where
  readyList : OnList s.item G.readyList fun i =>
    (s.item i).state = .ready ∧ (s.item i).workGroup = some g
  runningList : OnList s.item G.runningList fun i =>
    (s.item i).state = .running ∧ (s.item i).workGroup = some g
  itemAvailable : G.itemAvailable = G.readyList.length
  length_slots : G.slots.length = G.threads
  nodup_slots : G.slots.Nodup
  slots : ∀ t, t ∈ G.slots ↔ ∃ T, s.worker t = some T ∧ T.group = g
  busyThreads : G.busyThreads ≤ G.threads
  threads : 0 < G.threads

/-- What clients can rely on about the scheduler. -/
structure TaskScheduler.Ok (s : TaskScheduler Sid) : Prop where
  waitingList : OnList s.item s.waitingList fun i => (s.item i).state = .waiting
  workGroup : ∀ g G, s.workGroup g = some G → G.Ok s g
  inGroup : ∀ i, (s.item i).state = .ready ∨ (s.item i).state = .running →
    ∃ g G, (s.item i).workGroup = some g ∧ s.workGroup g = some G
  inserted : ∀ i, s.inserted.count i = s.dispatched.count i + s.withdrawn.count i +
    if (s.item i).state = .waiting ∨ (s.item i).state = .ready then 1 else 0
  dispatched : ∀ i, s.dispatched.count i = s.finished.count i +
    if (s.item i).state = .running then 1 else 0

section ok
variable {w : WorkItem} {x : Place}

theorem WorkItem.At.waiting_iff (h : w.At x) : x = .waiting ↔ w.state = .waiting :=
  ⟨fun hx => (hx ▸ h : w.At .waiting).2, h.of_waiting⟩

theorem WorkItem.At.ready_iff (h : w.At x) (g : ℕ) :
    x = .ready g ↔ w.state = .ready ∧ w.workGroup = some g := by
  refine ⟨fun hx => (hx ▸ h : w.At (.ready g)).symm, fun ⟨hstate, hgroup⟩ => ?_⟩
  obtain ⟨g', hx, hgroup'⟩ := h.of_ready hstate
  exact hx.trans (congrArg Place.ready (Option.some.inj (hgroup'.symm.trans hgroup)))

theorem WorkItem.At.of_running (h : w.At x) (hw : w.state = .running) :
    ∃ g, x = .running g ∧ w.workGroup = some g := by
  cases x with
  | nowhere => rcases h.2 with h | h | h <;> exact WorkItemState.noConfusion (h.symm.trans hw)
  | waiting => exact WorkItemState.noConfusion (h.2.symm.trans hw)
  | ready g => exact WorkItemState.noConfusion (h.2.symm.trans hw)
  | running g => exact ⟨g, rfl, h.1⟩

theorem WorkItem.At.running_iff (h : w.At x) (g : ℕ) :
    x = .running g ↔ w.state = .running ∧ w.workGroup = some g := by
  refine ⟨fun hx => (hx ▸ h : w.At (.running g)).symm, fun ⟨hstate, hgroup⟩ => ?_⟩
  obtain ⟨g', hx, hgroup'⟩ := h.of_running hstate
  exact hx.trans (congrArg Place.running (Option.some.inj (hgroup'.symm.trans hgroup)))

theorem WorkItem.At.pending_eq (h : w.At x) :
    x.pending = if w.state = .waiting ∨ w.state = .ready then 1 else 0 := by
  cases x with
  | nowhere => rcases h.2 with h | h | h <;> rw [h] <;> rfl
  | waiting => rw [h.2]; rfl
  | ready g => rw [h.2]; rfl
  | running g => rw [h.2]; rfl

theorem WorkItem.At.runs_eq (h : w.At x) : x.runs = if w.state = .running then 1 else 0 := by
  cases x with
  | nowhere => rcases h.2 with h | h | h <;> rw [h] <;> rfl
  | waiting => rw [h.2]; rfl
  | ready g => rw [h.2]; rfl
  | running g => rw [h.2]; rfl

theorem TaskInv.ok (h : TaskInv s place) : s.Ok where
  waitingList := h.lists.waiting.congr fun i => (h.tells i).waiting_iff
  workGroup g G hG :=
    have hholds := h.lists.group g G hG
    have hstaffed := h.workers.group g G hG
    { readyList := hholds.ready.congr fun i => (h.tells i).ready_iff g
      runningList := hholds.running.congr fun i => (h.tells i).running_iff g
      itemAvailable := hholds.itemAvailable
      length_slots := hstaffed.length_slots
      nodup_slots := hstaffed.nodup
      slots := hstaffed.slots
      busyThreads := hstaffed.busy_le
      threads := h.manned g G hG }
  inGroup i hi := by
    rcases hi with hi | hi
    · obtain ⟨g, hplace, hgroup⟩ := (h.tells i).of_ready hi
      obtain ⟨G, hG⟩ := Option.ne_none_iff_exists'.mp (h.lists.exist i g (Or.inl hplace))
      exact ⟨g, G, hgroup, hG⟩
    · obtain ⟨g, hplace, hgroup⟩ := (h.tells i).of_running hi
      obtain ⟨G, hG⟩ := Option.ne_none_iff_exists'.mp (h.lists.exist i g (Or.inr hplace))
      exact ⟨g, G, hgroup, hG⟩
  inserted i := (h.tells i).pending_eq ▸ h.history.inserted i
  dispatched i := (h.tells i).runs_eq ▸ h.history.dispatched i

end ok

/-- In every run the items are on the lists that they should be on, each list is in order, the
semaphores and the slots are right, a group is not destroyed before it is empty, and every insertion
of an item leads to one dispatch, unless it is canceled before. -/
theorem work_items_are_kept [DecidableEq Sid] {es : List (TaskEvent Sid)}
    (hes : Along TaskEvent.step TaskEvent.Enabled es (.init : TaskScheduler Sid)) :
    let s := runAll TaskEvent.step es (.init : TaskScheduler Sid)
    s.Ok ∧ ∀ ev : TaskEvent Sid, ev.Enabled s → ∀ g G, s.workGroup g = some G →
      (ev.step s).workGroup g = none → G.readyList = [] ∧ G.runningList = [] := by
  intro s
  obtain ⟨place, h⟩ : ∃ place, TaskInv s place :=
    runAll_invariant (I := fun s => ∃ place, TaskInv s place) (fun _ _ hev ⟨_, h⟩ => h.step hev)
      ⟨_, taskInv_init⟩ hes
  exact ⟨h.ok, fun ev hev g G hG hgone => h.destroyed hev hG hgone⟩

/-- The system's choice is 0 where that is free. -/
noncomputable def Os.zeroFirst : Os where
  unused used := if used 0 = false then 0 else Classical.epsilon fun n => used n = false
  unused_spec used h := by
    by_cases hzero : used 0 = false
    · rw [if_pos hzero]
      exact hzero
    · rw [if_neg hzero]
      exact Classical.epsilon_spec h

/-- An item that is put in, canceled, and put in again is dispatched at its time by the worker of
a new group, and completed. -/
theorem work_items_are_kept_dispatched : ∃ s : TaskScheduler Unit, s.waitingList = [] ∧
    s.inserted = [7, 7] ∧ s.withdrawn = [7] ∧ s.dispatched = [7] ∧ s.finished = [7] ∧ s.Ok := by
  have hspec := @work_items_are_kept Unit _
    [.insertWorkItem .zeroFirst () 7 (some 5) 3, .cancelWorkItem 7 0,
      .insertWorkItem .zeroFirst () 7 (some 6) 4,
      .dispatchWorkItem .zeroFirst (fun _ => ()) (fun _ => 6), .take 0, .completeWorkItem 0,
      .finish 0, .markFree 0]
    ⟨⟨by decide, by decide, by decide⟩, trivial,
      ⟨WorkItemState.noConfusion, WorkItemState.noConfusion, WorkItemState.noConfusion⟩, trivial,
      ⟨_, _, rfl, rfl, rfl, by decide⟩, trivial, ⟨_, rfl, rfl⟩, ⟨_, rfl, rfl⟩, trivial⟩
  exact ⟨_, rfl, rfl, rfl, rfl, rfl, hspec.1⟩

end NtAdmin.Drizzle.Newjob
