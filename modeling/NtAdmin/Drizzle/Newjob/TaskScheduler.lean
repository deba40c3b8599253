import Mathlib.Algebra.GroupWithZero.Nat
import Mathlib.Data.List.Sort
import Mathlib.Logic.Function.Basic

/-! The work item scheduler of tasksched.cpp, before it is shut down. -/
namespace NtAdmin.Drizzle.Newjob

inductive WorkItemState
  | waiting
  | ready
  | running
  | canceled
  | complete
  | nothing
  deriving DecidableEq, Repr

/-- `workGroup` is the address of the group that the item is in. -/
structure WorkItem where
  insertionTime : ℕ
  timeToRun : ℕ
  cancelEvent : Bool
  itemComplete : Bool
  workGroup : Option ℕ
  state : WorkItemState

/-- A new item, the events as the constructor creates them. -/
def WorkItem.new : WorkItem := ⟨0, 0, true, false, none, .nothing⟩

/-- `TaskSchedulerWorkItemSorter`. The items are named by their addresses. -/
def sorter (item : ℕ → WorkItem) (a b : ℕ) : Bool :=
  if (item a).timeToRun ≠ (item b).timeToRun then (item a).timeToRun < (item b).timeToRun
  else if (item a).insertionTime ≠ (item b).insertionTime then
    (item a).insertionTime < (item b).insertionTime
  else a < b

/-- The item `a` need not come behind `b`. -/
abbrev Before (item : ℕ → WorkItem) (a b : ℕ) : Prop := sorter item b a = false

/-- `SortedWorkItemList::insert`. -/
def sortedInsert (item : ℕ → WorkItem) (val : ℕ) (l : List ℕ) : List ℕ :=
  l.orderedInsert (Before item) val

def maxWorkgroupThreads : ℕ := 4

/-- `threadId` is an array of `maxWorkgroupThreads`. -/
structure WorkGroup (Sid : Type) where
  sid : Sid
  readyList : List ℕ
  runningList : List ℕ
  itemAvailable : ℕ
  threads : ℕ
  threadId : List ℕ
  busyThreads : ℤ

def WorkGroup.new {Sid : Type} (sid : Sid) : WorkGroup Sid :=
  ⟨sid, [], [], 0, 0, List.replicate maxWorkgroupThreads 0, 0⟩

/-- The slots of the group that are in use. -/
def WorkGroup.slots {Sid : Type} (G : WorkGroup Sid) : List ℕ := G.threadId.take G.threads

/-- A slot of the array is closed, of which the first `threads` are in use. -/
def collapse (threads index : ℕ) (threadId : List ℕ) : List ℕ :=
  (threadId.take index ++ (threadId.drop (index + 1)).take (threads - index - 1) ++
    threadId.drop (threads - 1)).set (threads - 1) 0

/-- Where a worker is in the loop of `WorkGroupWorker`. -/
inductive WorkerPhase
  | idle
  | dispatching
  | dispatched
  deriving DecidableEq, Repr

/-- A worker of the group, with what the thread keeps as its current item. -/
structure Worker where
  group : ℕ
  phase : WorkerPhase
  current : Option ℕ

/-- `inserted`, `dispatched`, `finished` and `withdrawn` are the items that `InsertWorkItem` has put
in, that workers have dispatched, that `CompleteWorkItem` is done with, and that `CancelWorkItem` has
taken from the waiting list or a ready list. -/
structure TaskScheduler (Sid : Type) where
  item : ℕ → WorkItem
  waitingList : List ℕ
  waitableTimer : Option ℕ
  workGroup : ℕ → Option (WorkGroup Sid)
  workGroupMap : Sid → Option ℕ
  worker : ℕ → Option Worker
  shouldDie : Bool
  inserted : List ℕ
  dispatched : List ℕ
  finished : List ℕ
  withdrawn : List ℕ

/-- The system's choice of an address or a thread id that is not in use. -/
structure Os where
  unused : (ℕ → Bool) → ℕ
  unused_spec : ∀ used : ℕ → Bool, (∃ n, used n = false) → used (unused used) = false

namespace TaskScheduler
variable {Sid : Type} [DecidableEq Sid]

/-- The items are there, and nothing has been inserted. -/
def init : TaskScheduler Sid :=
  ⟨fun _ => .new, [], none, fun _ => none, fun _ => none, fun _ => none, false, [], [], [], []⟩

def modifyItem (i : ℕ) (f : WorkItem → WorkItem) (s : TaskScheduler Sid) : TaskScheduler Sid :=
  { s with item := Function.update s.item i (f (s.item i)) }

/-- Writes through a pointer to a group. -/
def modifyGroup (g : Option ℕ) (f : WorkGroup Sid → WorkGroup Sid) (s : TaskScheduler Sid) :
    TaskScheduler Sid :=
  match g with
  | none => s
  | some g => { s with workGroup := Function.update s.workGroup g ((s.workGroup g).map f) }

/-- The timer is set for the first waiting item. -/
def reschedule (s : TaskScheduler Sid) : TaskScheduler Sid :=
  { s with waitableTimer := s.waitingList.head?.map fun i => (s.item i).timeToRun }

/-- `m_WaitingList.insert`. -/
def insertWaiting (i : ℕ) (s : TaskScheduler Sid) : TaskScheduler Sid :=
  { s with waitingList := sortedInsert s.item i s.waitingList }

def eraseWaiting (i : ℕ) (s : TaskScheduler Sid) : TaskScheduler Sid :=
  { s with waitingList := s.waitingList.erase i }

/-- An item leaves its ready list, and the semaphore counts one down. -/
def eraseReady (i : ℕ) (s : TaskScheduler Sid) : TaskScheduler Sid :=
  s.modifyGroup (s.item i).workGroup fun G =>
    { G with readyList := G.readyList.erase i, itemAvailable := G.itemAvailable - 1 }

/-- `GetCurrentWorkItem`, which is not there but for workers. -/
def currentWorkItem (s : TaskScheduler Sid) (caller : ℕ) : Option ℕ :=
  (s.worker caller).bind Worker.current

def setWorker (t : ℕ) (f : Worker → Worker) (s : TaskScheduler Sid) : TaskScheduler Sid :=
  { s with worker := Function.update s.worker t ((s.worker t).map f) }

/-- `CompleteWorkItem`, and `AcknowledgeWorkItemCancel` when `cancel` is set. -/
def completeWorkItem (cancel : Bool) (caller : ℕ) (s : TaskScheduler Sid) : TaskScheduler Sid :=
  match s.currentWorkItem caller with
  | none => s
  | some i =>
    let s := s.setWorker caller fun T => { T with current := none }
    let s := s.modifyGroup (s.item i).workGroup fun G =>
      { G with runningList := G.runningList.erase i }
    let s := s.modifyItem i fun w =>
      { w with
        workGroup := none
        state := if cancel then .canceled else .complete
        itemComplete := true }
    { s with finished := s.finished ++ [i] }

/-- `CancelWorkItem`, up to where it waits for another thread to be done with the item. It returns
`true` for an item that was not in the scheduler. -/
def cancelWorkItem (i caller : ℕ) (s : TaskScheduler Sid) : Bool × TaskScheduler Sid :=
  if (s.item i).itemComplete then (true, s)
  else if s.currentWorkItem caller = some i then
    (false, (s.modifyItem i fun w => { w with cancelEvent := true }).completeWorkItem true caller)
  else
    match (s.item i).state with
    | .waiting =>
      let s := (s.eraseWaiting i).modifyItem i fun w =>
        { w with state := .canceled, workGroup := none }
      (false, { s.reschedule with withdrawn := s.withdrawn ++ [i] })
    | .ready =>
      let s := (s.eraseReady i).modifyItem i fun w =>
        { w with state := .canceled, workGroup := none }
      (false, { s with withdrawn := s.withdrawn ++ [i] })
    | .running => (false, s.modifyItem i fun w => { w with cancelEvent := true })
    | _ => (true, s)

/-- The group for `sid`, which is made when there is none. -/
def findWorkGroup (os : Os) (sid : Sid) (s : TaskScheduler Sid) : ℕ × TaskScheduler Sid :=
  match s.workGroupMap sid with
  | some g => (g, s)
  | none =>
    let g := os.unused fun g => (s.workGroup g).isSome
    (g, { s with
      workGroup := Function.update s.workGroup g (some (.new sid))
      workGroupMap := Function.update s.workGroupMap sid (some g) })

/-- The end of `AddItemToWorkGroup`: a worker more, if the load is higher than the workers there
are. What fails there is tried again until it works. -/
def addWorker (os : Os) (g : ℕ) (s : TaskScheduler Sid) : TaskScheduler Sid :=
  match s.workGroup g with
  | none => s
  | some G =>
    if (G.readyList.length : ℤ) + G.busyThreads > G.threads ∧ G.threads < maxWorkgroupThreads then
      let t := os.unused fun t => (s.worker t).isSome
      { s.modifyGroup (some g) (fun G =>
          { G with threadId := G.threadId.set G.threads t, threads := G.threads + 1 }) with
        worker := Function.update s.worker t (some ⟨g, .idle, none⟩) }
    else s

def addItemToWorkGroup (os : Os) (sid : Sid) (i : ℕ) (s : TaskScheduler Sid) :
    TaskScheduler Sid :=
  let (g, s) := s.findWorkGroup os sid
  let s := s.modifyGroup (some g) fun G =>
    { G with
      readyList := sortedInsert s.item i G.readyList
      itemAvailable := G.itemAvailable + 1 }
  let s := s.modifyItem i fun w => { w with state := .ready, workGroup := some g }
  s.addWorker os g

/-- The loop of `DispatchWorkItem`, of which a round with `n` to come reads the time `clock n`. -/
def dispatchLoop (os : Os) (getSid : ℕ → Sid) (clock : ℕ → ℕ) :
    ℕ → TaskScheduler Sid → TaskScheduler Sid
  | 0, s => s
  | n + 1, s =>
    match s.waitingList with
    | [] => s
    | i :: _ =>
      if (s.item i).timeToRun > clock n then s
      else dispatchLoop os getSid clock n ((s.eraseWaiting i).addItemToWorkGroup os (getSid i) i)

/-- Every round takes an item from the waiting list. -/
def dispatchWorkItem (os : Os) (getSid : ℕ → Sid) (clock : ℕ → ℕ) (s : TaskScheduler Sid) :
    TaskScheduler Sid :=
  (s.dispatchLoop os getSid clock s.waitingList.length).reschedule

def rescheduleDelayedTask (i delay : ℕ) (s : TaskScheduler Sid) : TaskScheduler Sid :=
  let delayed (s : TaskScheduler Sid) : TaskScheduler Sid :=
    let s := s.modifyItem i fun w => { w with timeToRun := (delay + w.insertionTime) % 2 ^ 64 }
    let s := (s.insertWaiting i).modifyItem i fun w =>
      { w with state := .waiting, workGroup := none }
    s.reschedule
  match (s.item i).state with
  | .ready => delayed (s.eraseReady i)
  | .waiting => delayed (s.eraseWaiting i)
  | _ => s

/-- `InsertWorkItem`, when the system's time is `now`. -/
def insertWorkItem (os : Os) (sid : Sid) (i : ℕ) (timeToRun : Option ℕ) (now : ℕ)
    (s : TaskScheduler Sid) : TaskScheduler Sid :=
  let s := s.modifyItem i fun w =>
    { w with insertionTime := now, cancelEvent := false, itemComplete := false }
  let s := { s with inserted := s.inserted ++ [i] }
  if timeToRun = none ∧ s.shouldDie = false then
    (s.modifyItem i fun w => { w with timeToRun := w.insertionTime }).addItemToWorkGroup os sid i
  else
    let s := s.modifyItem i fun w => { w with timeToRun := timeToRun.getD now, state := .waiting }
    (s.insertWaiting i).reschedule

/-- A worker has waited for the semaphore and the lock, and takes the first item. -/
def take (t : ℕ) (s : TaskScheduler Sid) : TaskScheduler Sid :=
  match s.worker t with
  | none => s
  | some T =>
    let s := s.modifyGroup (some T.group) fun G => { G with itemAvailable := G.itemAvailable - 1 }
    if s.shouldDie then { s with worker := Function.update s.worker t none }
    else
      match (s.workGroup T.group).bind (·.readyList.head?) with
      | none => s
      | some i =>
        let s := s.modifyGroup (some T.group) fun G =>
          { G with
            readyList := G.readyList.erase i
            runningList := sortedInsert s.item i G.runningList
            busyThreads := G.busyThreads + 1 }
        let s := s.modifyItem i fun w => { w with state := .running }
        let s := s.setWorker t fun T => { T with phase := .dispatching, current := some i }
        { s with dispatched := s.dispatched ++ [i] }

/-- `OnDispatch` has returned. -/
def finish (t : ℕ) (s : TaskScheduler Sid) : TaskScheduler Sid :=
  (s.completeWorkItem false t).setWorker t fun T => { T with phase := .dispatched }

/-- The worker is free again, of which the scheduler lock knows nothing. -/
def markFree (t : ℕ) (s : TaskScheduler Sid) : TaskScheduler Sid :=
  (s.modifyGroup ((s.worker t).map Worker.group) fun G =>
    { G with busyThreads := G.busyThreads - 1 }).setWorker t fun T => { T with phase := .idle }

/-- A worker has waited for half a minute, and has the lock now. -/
def timeout (t : ℕ) (s : TaskScheduler Sid) : TaskScheduler Sid :=
  match s.worker t with
  | none => s
  | some T =>
    match s.workGroup T.group with
    | none => s
    | some G =>
      if G.readyList ≠ [] then s
      else
        let s := { s with worker := Function.update s.worker t none }
        if G.threads = 1 then
          { s with
            workGroup := Function.update s.workGroup T.group none
            workGroupMap := Function.update s.workGroupMap G.sid none }
        else
          s.modifyGroup (some T.group) fun G =>
            { G with
              threadId := collapse G.threads (G.slots.idxOf t) G.threadId
              threads := G.threads - 1 }

end TaskScheduler

/-- What happens next, with the thread that calls. -/
inductive TaskEvent (Sid : Type)
  | insertWorkItem (os : Os) (sid : Sid) (i : ℕ) (timeToRun : Option ℕ) (now : ℕ)
  | cancelWorkItem (i caller : ℕ)
  | rescheduleDelayedTask (i delay : ℕ)
  | completeWorkItem (caller : ℕ)
  | acknowledgeWorkItemCancel (caller : ℕ)
  | dispatchWorkItem (os : Os) (getSid : ℕ → Sid) (clock : ℕ → ℕ)
  | take (t : ℕ)
  | finish (t : ℕ)
  | markFree (t : ℕ)
  | timeout (t : ℕ)

namespace TaskEvent
variable {Sid : Type} [DecidableEq Sid]

def Enabled : TaskEvent Sid → TaskScheduler Sid → Prop
  | insertWorkItem _ _ i _ _, s => (s.item i).state ≠ .waiting ∧ (s.item i).state ≠ .ready ∧
      (s.item i).state ≠ .running
  | take t, s => ∃ T G, s.worker t = some T ∧ T.phase = .idle ∧ s.workGroup T.group = some G ∧
      0 < G.itemAvailable
  | finish t, s => ∃ T, s.worker t = some T ∧ T.phase = .dispatching
  | markFree t, s => ∃ T, s.worker t = some T ∧ T.phase = .dispatched
  | timeout t, s => ∃ T, s.worker t = some T ∧ T.phase = .idle
  | _, _ => True

def step : TaskEvent Sid → TaskScheduler Sid → TaskScheduler Sid
  | insertWorkItem os sid i timeToRun now, s => s.insertWorkItem os sid i timeToRun now
  | cancelWorkItem i caller, s => (s.cancelWorkItem i caller).2
  | rescheduleDelayedTask i delay, s => s.rescheduleDelayedTask i delay
  | completeWorkItem caller, s => s.completeWorkItem false caller
  | acknowledgeWorkItemCancel caller, s => s.completeWorkItem true caller
  | dispatchWorkItem os getSid clock, s => s.dispatchWorkItem os getSid clock
  | take t, s => s.take t
  | finish t, s => s.finish t
  | markFree t, s => s.markFree t
  | timeout t, s => s.timeout t

end TaskEvent

end NtAdmin.Drizzle.Newjob
