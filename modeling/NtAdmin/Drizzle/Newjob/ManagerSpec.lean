import NtAdmin.Drizzle.Newjob.Manager
import Mathlib.Data.List.Perm.Basic
import Mathlib.Data.List.Nodup

/-! What the handlers of the job manager keep, and what `ScheduleAnotherGroup` comes to. -/
namespace NtAdmin.Drizzle.Newjob.Selection

open NtAdmin.Lib CJob

namespace CJobManager
variable {s : CJobManager} {j : JobPtr} {f : CJob → CJob}

/-- A job that has been added is on one of the lists, a job that runs is the current job, and so is
the job whose transfer goes on without the lock. -/
structure Core (s : CJobManager) : Prop where
  nodup : (s.m_OnlineJobs ++ s.m_OfflineJobs).Nodup
  live : ∀ j ∈ s.live, j ∈ s.m_OnlineJobs ++ s.m_OfflineJobs
  created : ∀ j ∈ s.m_OnlineJobs ++ s.m_OfflineJobs, j ∈ s.created
  running : ∀ j, (s.job j).isRunning → s.m_CurrentJob = some j
  transferring : ∀ j n, s.workItem = .transferring j n → s.m_CurrentJob = some j
  service : s.shuttingDown = false

/-- While no one has the lock the current job is online. -/
structure Inv (s : CJobManager) : Prop extends Core s where
  current : ∀ j, s.m_CurrentJob = some j → j ∈ s.m_OnlineJobs

/-- `m_CurrentJob` and the work item are what `ScheduleAnotherGroup` is to bring about. -/
structure Selected (s : CJobManager) : Prop where
  noNetwork : s.AddressCount = 0 → s.m_CurrentJob = none
  network : s.AddressCount ≠ 0 →
    IsSelection s.isRunnable s.priority s.m_OnlineJobs s.m_CurrentJob
  workItem : s.isWorkItemInScheduler = true ↔ s.m_CurrentJob.isSome = true

/-! Changes of one job. -/

theorem running_modifyJob (hf : Idle f) (k : JobPtr) (hr : ((s.modifyJob j f).job k).isRunning) :
    (s.job k).isRunning := by
  by_cases hk : k = j
  · subst hk
    simp only [modifyJob, Function.update_self] at hr
    exact hf _ hr
  · simpa only [modifyJob, Function.update_of_ne hk] using hr

theorem Core.modifyJob (h : Core s) (hf : Idle f) : Core (s.modifyJob j f) where
  nodup := h.nodup
  live := h.live
  created := h.created
  running k hr := h.running k (running_modifyJob hf k hr)
  transferring := h.transferring
  service := h.service

theorem Inv.modifyJob (h : Inv s) (hf : Idle f) : Inv (s.modifyJob j f) where
  toCore := h.toCore.modifyJob hf
  current := h.current

theorem Core.modifyState (h : Core s) (hf : ∀ job, (f job).m_state = job.m_state) :
    Core (s.modifyJob j f) := h.modifyJob (idle_of_state hf)

theorem Inv.modifyState (h : Inv s) (hf : ∀ job, (f job).m_state = job.m_state) :
    Inv (s.modifyJob j f) := h.modifyJob (idle_of_state hf)

theorem Core.recalcTransientError (h : Core s) (ForResume : Bool) :
    Core (s.recalcTransientError j ForResume) := h.modifyJob (idle_recalcTransientError _ _)

/-- The job that is current may start to run. -/
theorem Inv.modifyCurrent (h : Inv s) (hj : s.m_CurrentJob = some j) : Inv (s.modifyJob j f) where
  nodup := h.nodup
  live := h.live
  created := h.created
  running k hr := by
    by_cases hk : k = j
    · rw [hk]
      exact hj
    · simp only [CJobManager.modifyJob, Function.update_of_ne hk] at hr
      exact h.running k hr
  transferring := h.transferring
  service := h.service
  current := h.current

/-! Changes of the lists. -/

/-- Jobs may change places in the lists. -/
theorem Core.lists (h : Core s) {online offline : List JobPtr}
    (hp : (online ++ offline).Perm (s.m_OnlineJobs ++ s.m_OfflineJobs)) :
    Core { s with m_OnlineJobs := online, m_OfflineJobs := offline } where
  nodup := hp.nodup_iff.mpr h.nodup
  live k hk := hp.mem_iff.mpr (h.live k hk)
  created k hk := h.created k (hp.mem_iff.mp hk)
  running := h.running
  transferring := h.transferring
  service := h.service

theorem perm_erase_append {l m : List JobPtr} (hj : j ∈ l) :
    (l.erase j ++ (m ++ [j])).Perm (l ++ m) := by
  have hl : l.Perm (j :: l.erase j) := List.perm_cons_erase hj
  have hm : (l.erase j ++ (m ++ [j])).Perm (l.erase j ++ (j :: m)) :=
    List.Perm.append_left _ (List.perm_append_singleton j m)
  have hc : (l.erase j ++ (j :: m)).Perm (j :: l.erase j ++ m) := List.perm_middle
  exact (hm.trans hc).trans (hl.append_right m).symm

theorem Core.moveJobOffline (h : Core s) (hj : j ∈ s.m_OnlineJobs) : Core (s.moveJobOffline j) :=
  h.lists (perm_erase_append hj)

theorem perm_erase_singleton {l m : List JobPtr} (hj : j ∈ l) :
    (l.erase j ++ [j] ++ m).Perm (l ++ m) := by
  have hl : (l.erase j ++ [j]).Perm (j :: l.erase j) := List.perm_append_singleton j _
  exact (hl.trans (List.perm_cons_erase hj).symm).append_right m

theorem perm_append_erase {l m : List JobPtr} (hj : j ∈ m) :
    (l ++ [j] ++ m.erase j).Perm (l ++ m) := by
  rw [List.append_assoc]
  exact (List.perm_cons_erase hj).symm.append_left l

theorem Core.appendOnline (h : Core s) (hj : j ∈ s.created) : Core (s.appendOnline j) := by
  unfold CJobManager.appendOnline
  split_ifs with hon
  · exact h.lists (perm_erase_singleton hon)
  · by_cases hoff : j ∈ s.m_OfflineJobs
    · exact h.lists (perm_append_erase hoff)
    · -- a job that was removed comes back
      have hperm : (s.m_OnlineJobs ++ [j] ++ s.m_OfflineJobs).Perm
          (j :: (s.m_OnlineJobs ++ s.m_OfflineJobs)) := by
        rw [List.append_assoc]
        exact List.perm_middle
      rw [List.erase_of_not_mem hoff]
      constructor
      · apply hperm.nodup_iff.mpr
        rw [List.nodup_cons, List.mem_append]
        exact ⟨fun hmem => hmem.elim hon hoff, h.nodup⟩
      · intro k hk
        exact hperm.mem_iff.mpr (List.mem_cons_of_mem j (h.live k hk))
      · intro k hk
        rcases List.mem_cons.mp (hperm.mem_iff.mp hk) with rfl | hk
        · exact hj
        · exact h.created k hk
      · exact h.running
      · exact h.transferring
      · exact h.service

theorem Core.resetOnlineStatus (h : Core s) (sid : Sid) : Core (s.resetOnlineStatus j sid) := by
  unfold CJobManager.resetOnlineStatus
  split_ifs with hj
  · exact h.lists (perm_append_erase hj.2)
  · exact h

/-- A job leaves the lists. -/
theorem Core.drop (h : Core s) {online offline : List JobPtr}
    (hs : (online ++ offline).Sublist (s.m_OnlineJobs ++ s.m_OfflineJobs))
    (hk : ∀ k ∈ s.m_OnlineJobs ++ s.m_OfflineJobs, k ≠ j → k ∈ online ++ offline) :
    Core { s with
      m_OnlineJobs := online, m_OfflineJobs := offline, live := s.live.filter (· ≠ j) } where
  nodup := h.nodup.sublist hs
  live k hlive := by
    have hmem := List.mem_filter.mp hlive
    exact hk k (h.live k hmem.1) (of_decide_eq_true hmem.2)
  created k hk := h.created k (hs.subset hk)
  running := h.running
  transferring := h.transferring
  service := h.service

theorem Core.removeJob (h : Core s) : Core (s.removeJob j) := by
  unfold CJobManager.removeJob
  split_ifs with hon
  · apply h.drop (List.erase_sublist.append_right _)
    intro k hk hne
    rcases List.mem_append.mp hk with hk | hk
    · exact List.mem_append_left _ ((List.mem_erase_of_ne hne).mpr hk)
    · exact List.mem_append_right _ hk
  · apply h.drop (List.erase_sublist.append_left _)
    intro k hk hne
    rcases List.mem_append.mp hk with hk | hk
    · exact List.mem_append_left _ hk
    · exact List.mem_append_right _ ((List.mem_erase_of_ne hne).mpr hk)

theorem Inv.moveActiveJobToListEnd (h : Inv s) : Inv (s.moveActiveJobToListEnd j) := by
  unfold CJobManager.moveActiveJobToListEnd
  split_ifs with hn hp
  · exact h
  · constructor
    · exact h.lists (perm_erase_singleton hp.2)
    · intro k hk
      have hperm : (s.m_OnlineJobs.erase j ++ [j]).Perm s.m_OnlineJobs :=
        (List.perm_append_singleton j _).trans (List.perm_cons_erase hp.2).symm
      exact hperm.mem_iff.mpr (h.current k hk)
  · exact h

/-! Changes of the work item. -/

theorem Core.cancelWorkItem (h : Core s) : Core s.cancelWorkItem := by
  unfold CJobManager.cancelWorkItem
  split
  all_goals exact
    { nodup := h.nodup
      live := h.live
      created := h.created
      running := h.running
      transferring := fun _ _ hw => nomatch hw
      service := h.service }

theorem m_CurrentJob_cancelWorkItem (s : CJobManager) :
    s.cancelWorkItem.m_CurrentJob = s.m_CurrentJob ∧
      s.cancelWorkItem.m_OnlineJobs = s.m_OnlineJobs := by
  unfold cancelWorkItem
  split <;> exact ⟨rfl, rfl⟩

theorem Inv.cancelWorkItem (h : Inv s) : Inv s.cancelWorkItem where
  toCore := h.toCore.cancelWorkItem
  current k hk := by
    rw [(m_CurrentJob_cancelWorkItem s).1] at hk
    rw [(m_CurrentJob_cancelWorkItem s).2]
    exact h.current k hk

theorem Core.held (h : Core s) : Core { s with workItem := .held } where
  nodup := h.nodup
  live := h.live
  created := h.created
  running := h.running
  transferring := fun _ _ hw => nomatch hw
  service := h.service

theorem Core.completeWorkItem (h : Core s) : Core s.completeWorkItem := by
  unfold CJobManager.completeWorkItem
  split_ifs
  · exact
      { nodup := h.nodup
        live := h.live
        created := h.created
        running := h.running
        transferring := fun _ _ hw => nomatch hw
        service := h.service }
  · exact h

/-- The old current job does not run any more, and can run as it could before. -/
theorem retireCurrentJob_spec (s : CJobManager) :
    ∃ job, s.retireCurrentJob = { s with job := job } ∧
      (∀ j, (job j).isRunning → (s.job j).isRunning ∧ s.m_CurrentJob ≠ some j) ∧
      (∀ j, (job j).m_priority = (s.job j).m_priority) ∧
      (s.AddressCount ≠ 0 → ∀ j, (job j).isRunnable = (s.job j).isRunnable) := by
  rcases s with ⟨job, created, live, online, offline, current, item, aborting, users, count, n, shut⟩
  cases current with
  | none => exact ⟨job, rfl, fun j hr => ⟨hr, by simp⟩, fun _ => rfl, fun _ _ => rfl⟩
  | some c =>
    unfold retireCurrentJob
    dsimp only
    split_ifs with hr
    · obtain ⟨hstop, hpriority, hrunnable⟩ := recalcTransientError_of_running hr count
      refine ⟨_, rfl, ?_, ?_, ?_⟩
      · intro j hj
        by_cases hjc : j = c
        · subst hjc
          rw [Function.update_self, hstop] at hj
          contradiction
        · rw [Function.update_of_ne hjc] at hj
          exact ⟨hj, fun he => hjc (Option.some.inj he).symm⟩
      · intro j
        by_cases hjc : j = c
        · subst hjc
          rw [Function.update_self, hpriority]
        · rw [Function.update_of_ne hjc]
      · intro hn j
        by_cases hjc : j = c
        · subst hjc
          rw [Function.update_self, hrunnable hn]
        · rw [Function.update_of_ne hjc]
    · refine ⟨job, rfl, fun j hj => ⟨hj, ?_⟩, fun _ => rfl, fun _ _ => rfl⟩
      intro he
      rw [Option.some.inj he] at hr
      exact hr hj

/-- A new current job is chosen, and no other job runs. -/
theorem chooseCurrentJob_spec (s : CJobManager) :
    ∃ job, s.chooseCurrentJob = { s with job := job, m_CurrentJob := s.bestJob } ∧
      (∀ j, (job j).isRunning → (s.job j).isRunning ∧
        (s.m_CurrentJob = some j → s.bestJob = some j)) ∧
      (∀ j, (job j).m_priority = (s.job j).m_priority) ∧
      (s.AddressCount ≠ 0 → ∀ j, (job j).isRunnable = (s.job j).isRunnable) := by
  unfold chooseCurrentJob
  split_ifs with he
  · refine ⟨s.job, ?_, fun j hj => ⟨hj, fun hc => ?_⟩, fun _ => rfl, fun _ _ => rfl⟩
    · rw [← he]
    · rw [← he, hc]
  · obtain ⟨job, hjob, hrunning, hpriority, hrunnable⟩ := retireCurrentJob_spec s
    rw [hjob]
    refine ⟨job, rfl, ?_, hpriority, hrunnable⟩
    intro j hj
    exact ⟨(hrunning j hj).1, fun hc => absurd hc (hrunning j hj).2⟩

theorem restartDownload_spec (s : CJobManager) (pOldCurrentJob : Option JobPtr) :
    ∃ item n, s.restartDownload pOldCurrentJob = { s with workItem := item, aborting := n } ∧
      (item ≠ .outside ↔ s.m_CurrentJob.isSome = true) ∧
      ∀ j m, item = .transferring j m →
        s.workItem = .transferring j m ∧ s.m_CurrentJob = pOldCurrentJob := by
  rcases s with ⟨job, created, live, online, offline, current, item, aborting, users, count, n, shut⟩
  cases current with
  | none =>
    cases item with
    | transferring k m => exact ⟨.outside, aborting + 1, rfl, by simp, by simp⟩
    | _ => exact ⟨.outside, aborting, rfl, by simp, by simp⟩
  | some c =>
    by_cases he : some c = pOldCurrentJob
    · by_cases hw : item = .outside
      · refine ⟨.pending, aborting, ?_, by simp, by simp⟩
        simp [restartDownload, isWorkItemInScheduler, insertWorkItem, he, hw]
      · refine ⟨item, aborting, ?_, by simp [hw], fun j m hj => ⟨hj, he⟩⟩
        simp [restartDownload, isWorkItemInScheduler, he, hw]
    · cases item with
      | transferring k m =>
        refine ⟨.pending, aborting + 1, ?_, by simp, by simp⟩
        simp [restartDownload, isWorkItemInScheduler, insertWorkItem, cancelWorkItem, he]
      | _ =>
        refine ⟨.pending, aborting, ?_, by simp, by simp⟩
        simp [restartDownload, isWorkItemInScheduler, insertWorkItem, cancelWorkItem, he]

theorem isSelection_bestJob (s : CJobManager) (hn : s.AddressCount ≠ 0) :
    IsSelection s.isRunnable s.priority s.m_OnlineJobs s.bestJob := by
  rw [bestJob, if_neg hn]
  exact isSelection_firstBest _ _ _

theorem bestJob_mem (hj : s.bestJob = some j) : j ∈ s.m_OnlineJobs := by
  have hn : s.AddressCount ≠ 0 := by
    intro hn
    rw [bestJob, if_pos hn] at hj
    contradiction
  have h := isSelection_bestJob s hn
  rw [hj] at h
  obtain ⟨-, before, after, heq, -, -⟩ := h
  rw [heq]
  exact List.mem_append_right _ List.mem_cons_self

/-- One call of `ScheduleAnotherGroup`, with all that it does. -/
theorem scheduleAnotherGroup_spec (s : CJobManager) (hs : s.shuttingDown = false) :
    ∃ job item n, s.scheduleAnotherGroup =
        { s with job := job, m_CurrentJob := s.bestJob, workItem := item, aborting := n } ∧
      (item ≠ .outside ↔ s.bestJob.isSome = true) ∧
      (∀ j m, item = .transferring j m → s.workItem = .transferring j m ∧
        s.bestJob = s.m_CurrentJob) ∧
      (∀ j, (job j).isRunning → (s.job j).isRunning ∧
        (s.m_CurrentJob = some j → s.bestJob = some j)) ∧
      (∀ j, (job j).m_priority = (s.job j).m_priority) ∧
      (s.AddressCount ≠ 0 → ∀ j, (job j).isRunnable = (s.job j).isRunnable) := by
  obtain ⟨job, hjob, hrunning, hpriority, hrunnable⟩ := chooseCurrentJob_spec s
  obtain ⟨item, n, hitem, hsome, hkept⟩ :=
    restartDownload_spec { s with job := job, m_CurrentJob := s.bestJob } s.m_CurrentJob
  refine ⟨job, item, n, ?_, hsome, hkept, hrunning, hpriority, hrunnable⟩
  have hrun : ¬s.shuttingDown = true := by simp [hs]
  unfold scheduleAnotherGroup
  rw [if_neg hrun, hjob]
  exact hitem

/-- The current job is online and runs alone after `ScheduleAnotherGroup`. -/
theorem Core.scheduleAnotherGroup (h : Core s) : Inv s.scheduleAnotherGroup := by
  obtain ⟨job, item, n, heq, -, hkept, hrunning, -, -⟩ := scheduleAnotherGroup_spec s h.service
  rw [heq]
  constructor
  · constructor
    · exact h.nodup
    · exact h.live
    · exact h.created
    · intro j hj
      obtain ⟨hr, hcurrent⟩ := hrunning j hj
      exact hcurrent (h.running j hr)
    · intro j m hj
      obtain ⟨hitem, hsame⟩ := hkept j m hj
      have hcurrent := h.transferring j m hitem
      rw [← hsame] at hcurrent
      exact hcurrent
    · exact h.service
  · intro j hj
    exact bestJob_mem (s := s) hj

/-- What every call of `ScheduleAnotherGroup` brings about. -/
theorem selected_scheduleAnotherGroup (s : CJobManager) (hs : s.shuttingDown = false) :
    Selected s.scheduleAnotherGroup := by
  obtain ⟨job, item, n, heq, hsome, -, -, hpriority, hrunnable⟩ := scheduleAnotherGroup_spec s hs
  rw [heq]
  constructor
  · intro hn
    exact if_pos hn
  · intro hn
    exact (isSelection_bestJob s hn).congr (fun j _ => hrunnable hn j) fun j _ => hpriority j
  · have hitem : ∀ d : DownloadItem, decide (d ≠ .outside) = true ↔ d ≠ .outside :=
      fun d => decide_eq_true_iff
    exact (hitem item).trans hsome

/-! The handlers. -/

theorem Inv.removeFromManager (h : Inv s) : Inv (s.removeFromManager j) := by
  have hm : Inv (s.modifyJob j CJob.cancelWorkitems) := h.modifyState fun _ => by rfl
  unfold CJobManager.removeFromManager
  dsimp only
  split_ifs
  · exact hm.toCore.removeJob.scheduleAnotherGroup
  · exact hm

theorem Core.removeFromManager (h : Core s) : Core (s.removeFromManager j) := by
  have hm : Core (s.modifyJob j CJob.cancelWorkitems) := h.modifyState fun _ => by rfl
  unfold CJobManager.removeFromManager
  dsimp only
  split_ifs
  · exact hm.removeJob.scheduleAnotherGroup.toCore
  · exact hm

theorem Core.retaskJob (h : Core s) : Inv (s.retaskJob j) := by
  unfold CJobManager.retaskJob
  split_ifs
  · exact h.cancelWorkItem.scheduleAnotherGroup
  · exact h.scheduleAnotherGroup

theorem Core.fileFatalError (h : Core s) (timeout : Bool) : Core (s.fileFatalError timeout j) := by
  unfold CJobManager.fileFatalError
  split_ifs
  · exact h.modifyJob idle_setError
  · exact h.removeFromManager
  · exact h.modifyJob (idle_fileTransientError timeout)
  · exact h.modifyJob idle_setError

theorem Core.fileComplete (h : Core s) (moved : Bool) : Core (s.fileComplete moved j) := by
  have hnext : Idle fun job : CJob => { job with m_CurrentFile := job.m_CurrentFile + 1 } :=
    idle_of_state fun _ => rfl
  unfold CJobManager.fileComplete
  split_ifs
  · exact h.fileFatalError false
  · have hfile : Idle fun job : CJob =>
        if job.m_CurrentFile = job.m_files then job.jobTransferred else job :=
      Idle.ite idle_jobTransferred idle_id
    exact h.modifyJob (hfile.comp hnext)
  · exact h.removeFromManager
  · exact h.modifyJob (idle_jobTransferred.comp hnext)

theorem Inv.createJob (h : Inv s) (hj : j ∉ s.created) (type : BG_JOB_TYPE) (sid : Sid) :
    Inv (s.createJob j type sid) := by
  have hnew : j ∉ s.m_OnlineJobs ++ s.m_OfflineJobs := fun hmem => hj (h.created j hmem)
  have hperm : (s.m_OnlineJobs ++ [j] ++ s.m_OfflineJobs).Perm
      (j :: (s.m_OnlineJobs ++ s.m_OfflineJobs)) := by
    rw [List.append_assoc]
    exact List.perm_middle
  constructor
  · constructor
    · exact hperm.nodup_iff.mpr (List.nodup_cons.mpr ⟨hnew, h.nodup⟩)
    · intro k hk
      apply hperm.mem_iff.mpr
      rcases List.mem_cons.mp hk with rfl | hk
      · exact List.mem_cons_self
      · exact List.mem_cons_of_mem _ (h.live k hk)
    · intro k hk
      rcases List.mem_cons.mp (hperm.mem_iff.mp hk) with rfl | hk
      · exact List.mem_cons_self
      · exact List.mem_cons_of_mem _ (h.created k hk)
    · intro k hr
      by_cases hk : k = j
      · subst hk
        simp [CJobManager.createJob, CJob.new, isRunning] at hr
      · simp only [CJobManager.createJob, Function.update_of_ne hk] at hr
        exact h.running k hr
    · exact h.transferring
    · exact h.service
  · intro k hk
    exact List.mem_append_left _ (h.current k hk)

theorem Core.handleAddFile (h : Core s) : Inv (s.handleAddFile j) := by
  have hadd : Idle fun job : CJob =>
      if job.m_state = .TRANSFERRED then
        { job.setState .QUEUED with retryItem := false, noProgressItem := false }
      else job :=
    Idle.ite ((idle_of_state fun _ => rfl).comp (idle_setState (by decide) (by decide))) idle_id
  exact (h.modifyJob hadd).retaskJob

theorem Inv.addFile (h : Inv s) : Inv (s.addFile j).2 := by
  unfold CJobManager.addFile
  split_ifs
  · exact h
  · exact h
  · dsimp only
    exact h.modifyState fun _ => by rfl

theorem Inv.addFiles (n : ℕ) (h : Inv s) : Inv (addFiles j n s).2 := by
  induction n generalizing s with
  | zero => exact h
  | succ n ih =>
    have hadd : Inv (s.addFile j).2 := h.addFile
    unfold CJobManager.addFiles
    split
    · rename_i s' heq
      rw [heq] at hadd
      exact ih hadd
    · exact hadd

theorem Inv.addFileSet (h : Inv s) (cFileCount : ℕ) : Inv (s.addFileSet j cFileCount).2 := by
  have hadd : Inv (CJobManager.addFiles j cFileCount s).2 := h.addFiles cFileCount
  unfold CJobManager.addFileSet
  split
  · rename_i s' heq
    rw [heq] at hadd
    exact hadd.toCore.handleAddFile
  · rename_i hr s' _ heq
    rw [heq] at hadd
    dsimp only at hadd ⊢
    exact hadd.modifyState fun _ => by rfl

theorem Inv.setPriority (h : Inv s) (Val : ℤ) : Inv (s.setPriority j Val).2 := by
  unfold CJobManager.setPriority
  split_ifs
  · exact h
  · exact h
  · exact (h.toCore.modifyState fun _ => by rfl).retaskJob

theorem Core.setSuspended (h : Core s) : Inv (s.setSuspended j) := by
  have hidle : Idle fun job : CJob => { job with noProgressItem := false }.setState .SUSPENDED :=
    (idle_setState (by decide) (by decide)).comp (idle_of_state fun _ => rfl)
  exact (h.modifyJob hidle).scheduleAnotherGroup

theorem Inv.suspendJob (h : Inv s) : Inv (s.suspendJob j).2 := by
  unfold CJobManager.suspendJob
  split
  · exact h
  · exact h.toCore.cancelWorkItem.setSuspended
  · exact h.toCore.cancelWorkItem.setSuspended
  · exact h.toCore.setSuspended
  · exact h.toCore.setSuspended
  · exact h.toCore.setSuspended
  · exact h.toCore.setSuspended
  · exact h
  · exact h

theorem Core.setResumed (h : Core s) (hj : j ∈ s.created) : Inv (s.setResumed j) := by
  have hr : Core (s.recalcTransientError j true) := h.recalcTransientError true
  unfold CJobManager.setResumed
  dsimp only
  split_ifs
  · exact (hr.appendOnline hj).scheduleAnotherGroup
  · exact hr.scheduleAnotherGroup

theorem Inv.resume (h : Inv s) (hj : j ∈ s.created) (replyFile : HRESULT) :
    Inv (s.resume j replyFile).2 := by
  unfold CJobManager.resume
  by_cases hreply : (s.job j).m_type = .UPLOAD_REPLY ∧ !replyFile.succeeded
  · rw [if_pos hreply]
    exact h
  · rw [if_neg hreply]
    by_cases hempty : (s.job j).isEmpty
    · rw [if_pos hempty]
      exact h
    · rw [if_neg hempty]
      split
      · split_ifs
        · exact h.toCore.setResumed hj
        · exact h.modifyJob idle_jobTransferred
      · exact h.toCore.setResumed hj
      · exact h.toCore.setResumed hj
      all_goals exact h

theorem Inv.setCancelled (h : Inv s) : Inv (s.setCancelled j) := by
  have hc : Inv (s.modifyJob j (CJob.setState .CANCELLED)) :=
    h.modifyJob (idle_setState (by decide) (by decide))
  unfold CJobManager.setCancelled
  dsimp only
  split_ifs
  · exact (hc.toCore.modifyState fun _ => by rfl).scheduleAnotherGroup
  · exact hc.removeFromManager

theorem Inv.cancel (h : Inv s) (check : HRESULT) : Inv (s.cancel j check).2 := by
  have hcancel : ∀ {s : CJobManager}, Inv s →
      Inv (if check.succeeded then (check, s.setCancelled j) else (check, s)).2 := by
    intro s h
    split_ifs
    · exact h.setCancelled
    · exact h
  unfold CJobManager.cancel
  split
  · exact hcancel h.cancelWorkItem
  · exact hcancel h.cancelWorkItem
  · exact hcancel h
  · exact hcancel h
  · exact hcancel h
  · exact hcancel h
  · exact hcancel h
  · exact h
  · exact h

theorem Inv.setAcknowledged (h : Inv s) (commit : HRESULT) :
    Inv (s.setAcknowledged j commit).2 := by
  unfold CJobManager.setAcknowledged
  split_ifs
  · exact (h.modifyJob (idle_setState (by decide) (by decide))).removeFromManager
  · exact h

theorem Inv.complete (h : Inv s) (commit : HRESULT) : Inv (s.complete j commit).2 := by
  unfold CJobManager.complete
  dsimp only
  split
  · exact h.suspendJob.setAcknowledged _
  · exact h.suspendJob.setAcknowledged _
  · exact h.suspendJob.setAcknowledged _
  · exact h.suspendJob.setAcknowledged _
  · exact h.setAcknowledged _
  · exact h.setAcknowledged _
  · exact h.setAcknowledged _
  · exact h

theorem Inv.takeOwnership (h : Inv s) (sid : Sid) (valid : HRESULT) :
    Inv (s.takeOwnership j sid valid).2 := by
  have hint : Core (if (s.job j).isRunning then s.interruptDownload else s) := by
    split_ifs
    · exact h.toCore.cancelWorkItem
    · exact h.toCore
  unfold CJobManager.takeOwnership
  by_cases howner : sid = (s.job j).m_NotifySid
  · rw [if_pos howner]
    exact h
  · rw [if_neg howner]
    dsimp only
    by_cases hvalid : valid.succeeded
    · rw [if_pos hvalid]
      dsimp only
      exact ((hint.modifyState fun _ => by rfl).resetOnlineStatus sid).scheduleAnotherGroup
    · rw [if_neg hvalid]
      exact hint.scheduleAnotherGroup

end CJobManager
end NtAdmin.Drizzle.Newjob.Selection
