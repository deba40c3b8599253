import NtAdmin.Wmi.PageMgr.PageSource

/-! The write transactions of a repository session, as a51rep.cpp commits them and delivers their
events. An HRESULT is its 32 bits. -/
namespace NtAdmin.Wmi.A51

open Lib PageMgr

def wbemEFailed : ℕ := 0x80041001
def wbemENotFound : ℕ := 0x80041002
def wbemEOutOfMemory : ℕ := 0x80041006
def wbemEShuttingDown : ℕ := 0x80041033
def wbemEOutOfDiskSpace : ℕ := 0x8004103B

def errorServerShutdownInProgress : ℕ := 1255

/-- The macro `FAILED`. -/
def Failed (hres : ℕ) : Prop := 2 ^ 31 ≤ hres

instance (hres : ℕ) : Decidable (Failed hres) := inferInstanceAs (Decidable (_ ≤ _))

def a51TranslateErrorCode : WinError → ℕ
  | .fileNotFound => wbemENotFound
  | .outOfMemory => wbemEOutOfMemory
  | .diskFull => wbemEOutOfDiskSpace
  | .os code =>
    if code = 2 then wbemENotFound
    else if code = 14 ∨ code = 8 then wbemEOutOfMemory
    else if code = 1816 ∨ code = 112 then wbemEOutOfDiskSpace
    else if code = errorServerShutdownInProgress then wbemEShuttingDown
    else wbemEFailed
  | _ => wbemEFailed

structure CFileCache (ps : ℕ) where
  init : Bool
  transactionManager : CPageSource ps

namespace CFileCache
variable {ps : ℕ}

def transactionManagerL : Lens (CFileCache ps) (CPageSource ps) :=
  ⟨transactionManager, fun v s => { s with transactionManager := v }, fun _ _ => rfl, fun _ => rfl,
    fun _ _ _ => rfl⟩

def onSource {α : Type} (m : Op (CPageSource ps) α) : Op (CFileCache ps) α :=
  Prog.zoom (World.part transactionManagerL) m

def beginTransaction (shuttingDown : Bool) : Op (CFileCache ps) Unit := do
  if !(← getObj).init then throw (.os errorServerShutdownInProgress)
  if shuttingDown then throw (.os errorServerShutdownInProgress)
  onSource CPageSource.beginTrans

def commitTransaction : Op (CFileCache ps) Unit := do
  if !(← getObj).init then throw (.os errorServerShutdownInProgress)
  onSource CPageSource.commitTrans

def abortTransaction : Op (CFileCache ps) Unit := do
  if !(← getObj).init then throw (.os errorServerShutdownInProgress)
  onSource CPageSource.rollbackTrans

/-- The cache is there, and its page files can commit. -/
structure Committable (w : World (CFileCache ps)) : Prop where
  init : w.obj.init = true
  source : CPageSource.Committable ⟨w.obj.transactionManager, w.os⟩

theorem commitTransaction_result_iff (w : World (CFileCache ps)) :
    commitTransaction.result w = .ok () ↔ Committable w := by
  by_cases hinit : w.obj.init = true
  · have hsource : commitTransaction.result w =
        CPageSource.commitTrans.result ⟨w.obj.transactionManager, w.os⟩ := by
      simp only [Prog.result, commitTransaction]
      rw [Prog.bind_of_ok (show getObj w = (.ok w.obj, w) from rfl), hinit]
      rfl
    rw [hsource, CPageSource.commitTrans_result_iff]
    exact ⟨fun h => ⟨hinit, h⟩, fun h => h.source⟩
  · constructor
    · intro h
      exfalso
      simp only [Prog.result, commitTransaction] at h
      rw [Prog.bind_of_ok (show getObj w = (.ok w.obj, w) from rfl),
        Bool.eq_false_iff.2 hinit] at h
      exact nomatch h
    · intro h
      exact absurd h.init hinit

end CFileCache

/-- What a namespace handle does for an operation: its error status, and the result of the work on
the file cache (none if memory is short), with the events that the work collects. -/
structure Operation (ε : Type) (ps : ℕ) where
  errorStatus : ℕ
  work : World (CFileCache ps) → Option ℕ × List ε × World (CFileCache ps)

structure CSession (ε : Type) (ps : ℕ) where
  fileCache : World (CFileCache ps)
  shuttingDown : Bool
  inWriteTransaction : Bool
  transactedEvents : List ε

/-- What a call returns, what the file cache answered to its commit, and which events it sent. -/
structure Reply (ε : Type) where
  hres : ℕ
  fileCommit : Option (Except WinError Unit)
  sent : List ε

namespace CSession
variable {ε : Type} {ps : ℕ}

/-- A call that ends without a commit. -/
def reply (hres : ℕ) : Reply ε := ⟨hres, none, []⟩

def beginWriteTransaction (locked : Bool) (s : CSession ε ps) : Reply ε × CSession ε ps :=
  if !locked then (reply wbemEFailed, s)
  else if s.shuttingDown then (reply wbemEShuttingDown, s)
  else
    match CFileCache.beginTransaction s.shuttingDown s.fileCache with
    | (.error e, fileCache) => (reply (a51TranslateErrorCode e), { s with fileCache := fileCache })
    | (.ok _, fileCache) =>
      (reply 0, { s with fileCache := fileCache, inWriteTransaction := true })

/-- The answer `lRes` of the file cache is only asserted to be 0. -/
def commitTransaction (s : CSession ε ps) : Reply ε × CSession ε ps :=
  if s.inWriteTransaction then
    let (lRes, fileCache) := CFileCache.commitTransaction s.fileCache
    (⟨0, some lRes, s.transactedEvents⟩,
      { s with fileCache := fileCache, inWriteTransaction := false, transactedEvents := [] })
  else (reply 0, s)

def abortTransaction (s : CSession ε ps) : Reply ε × CSession ε ps :=
  if s.inWriteTransaction then
    (reply 0,
      { s with
        fileCache := CFileCache.abortTransaction.after s.fileCache
        inWriteTransaction := false
        transactedEvents := [] })
  else (reply 0, s)

/-- `InternalCommitTransaction` of a write operation, with what the file cache answered. -/
def internalCommitTransaction (fileCache : World (CFileCache ps)) :
    ℕ × Except WinError Unit × World (CFileCache ps) :=
  let (lRes, fileCache) := CFileCache.commitTransaction fileCache
  (0, lRes, fileCache)

/-- An operation in the transaction of the session. -/
def transactedOperation (allocated : Bool) (op : Operation ε ps) (s : CSession ε ps) :
    Reply ε × CSession ε ps :=
  if s.shuttingDown then (reply wbemEShuttingDown, s)
  else if Failed op.errorStatus then (reply op.errorStatus, s)
  else if !allocated then (reply wbemEOutOfMemory, s)
  else
    let (hres, events, fileCache) := op.work s.fileCache
    (reply (hres.getD wbemEOutOfMemory),
      { s with fileCache := fileCache, transactedEvents := s.transactedEvents ++ events })

/-- An operation in a transaction of its own, which ends with it. -/
def autoOperation (locked allocated : Bool) (op : Operation ε ps) (s : CSession ε ps) :
    Reply ε × CSession ε ps :=
  if !locked then (reply wbemEFailed, s)
  else if s.shuttingDown then (reply wbemEShuttingDown, s)
  else
    match CFileCache.beginTransaction s.shuttingDown s.fileCache with
    | (.error e, fileCache) => (reply (a51TranslateErrorCode e), { s with fileCache := fileCache })
    | (.ok _, fileCache) =>
      let abort (hres : ℕ) (fileCache : World (CFileCache ps)) : Reply ε × CSession ε ps :=
        (reply hres, { s with fileCache := CFileCache.abortTransaction.after fileCache })
      if Failed op.errorStatus then abort op.errorStatus fileCache
      else if !allocated then abort wbemEOutOfMemory fileCache
      else
        match op.work fileCache with
        | (none, _, fileCache) => abort wbemEOutOfMemory fileCache
        | (some hres, events, fileCache) =>
          if Failed hres then abort hres fileCache
          else
            let (hres, lRes, fileCache) := internalCommitTransaction fileCache
            (⟨hres, some lRes, if hres = 0 then events else []⟩, { s with fileCache := fileCache })

/-- Only `DeleteObjectByPath` copies its path, which may not be `allocated`. -/
def operation (locked allocated : Bool) (op : Operation ε ps) (s : CSession ε ps) :
    Reply ε × CSession ε ps :=
  if s.inWriteTransaction then transactedOperation allocated op s
  else autoOperation locked allocated op s

def putObject (locked : Bool) : Operation ε ps → CSession ε ps → Reply ε × CSession ε ps :=
  operation locked true

def deleteObject (locked : Bool) : Operation ε ps → CSession ε ps → Reply ε × CSession ε ps :=
  operation locked true

def deleteObjectByPath (locked allocated : Bool) :
    Operation ε ps → CSession ε ps → Reply ε × CSession ε ps :=
  operation locked allocated

end CSession

/-! ### Runs of a session -/

/-- The calls of a session. `others` is what other sessions and the shutdown do in between. -/
inductive SessionCall (ε : Type) (ps : ℕ)
  | beginWriteTransaction (locked : Bool)
  | commitTransaction
  | abortTransaction
  | putObject (locked : Bool) (op : Operation ε ps)
  | deleteObject (locked : Bool) (op : Operation ε ps)
  | deleteObjectByPath (locked allocated : Bool) (op : Operation ε ps)
  | others (fileCache : World (CFileCache ps)) (shuttingDown : Bool)

namespace SessionCall
variable {ε : Type} {ps : ℕ}

open CSession

def perform : SessionCall ε ps → CSession ε ps → Reply ε × CSession ε ps
  | beginWriteTransaction locked, s => s.beginWriteTransaction locked
  | commitTransaction, s => s.commitTransaction
  | abortTransaction, s => s.abortTransaction
  | putObject locked op, s => CSession.putObject locked op s
  | deleteObject locked op, s => CSession.deleteObject locked op s
  | deleteObjectByPath locked allocated op, s => CSession.deleteObjectByPath locked allocated op s
  | others fileCache shuttingDown, s =>
    (reply 0, { s with fileCache := fileCache, shuttingDown := shuttingDown })

def step (c : SessionCall ε ps) (s : CSession ε ps) : CSession ε ps := (c.perform s).2

/-- The operation of a call, with whether the lock and the path's copy are to be had. -/
def operation? : SessionCall ε ps → Option (Bool × Bool × Operation ε ps)
  | putObject locked op => some (locked, true, op)
  | deleteObject locked op => some (locked, true, op)
  | deleteObjectByPath locked allocated op => some (locked, allocated, op)
  | _ => none

/-- The file cache on which an operation works, in the transaction of the session or its own. -/
def workCache (locked allocated : Bool) (op : Operation ε ps) (s : CSession ε ps) :
    Option (World (CFileCache ps)) :=
  if s.shuttingDown ∨ Failed op.errorStatus ∨ !allocated then none
  else if s.inWriteTransaction then some s.fileCache
  else if !locked then none
  else
    match CFileCache.beginTransaction s.shuttingDown s.fileCache with
    | (.error _, _) => none
    | (.ok _, fileCache) => some fileCache

/-- The events that the operation of a call collects. -/
def collected (c : SessionCall ε ps) (s : CSession ε ps) : List ε :=
  match c.operation? with
  | none => []
  | some (locked, allocated, op) =>
    match workCache locked allocated op s with
    | none => []
    | some fileCache => (op.work fileCache).2.1

/-- A call that ends a write transaction as a success, if it succeeds. -/
def Commits (c : SessionCall ε ps) (s : CSession ε ps) : Prop :=
  c = commitTransaction ∧ s.inWriteTransaction = true ∨
    c.operation?.isSome = true ∧ s.inWriteTransaction = false

/-- The file cache that an operation of its own transaction asks to commit. -/
def autoCache (locked allocated : Bool) (op : Operation ε ps) (s : CSession ε ps) :
    Option (World (CFileCache ps)) :=
  match workCache locked allocated op s with
  | none => none
  | some fileCache =>
    match op.work fileCache with
    | (none, _, _) => none
    | (some hres, _, fileCache) => if Failed hres then none else some fileCache

/-- The file cache that a call asks to commit. -/
def commitCache (c : SessionCall ε ps) (s : CSession ε ps) : Option (World (CFileCache ps)) :=
  if s.inWriteTransaction then
    match c with
    | commitTransaction => some s.fileCache
    | _ => none
  else
    match c.operation? with
    | none => none
    | some (locked, allocated, op) => autoCache locked allocated op s

/-- The file cache can commit whenever the call asks it to. -/
def CommitReady (c : SessionCall ε ps) (s : CSession ε ps) : Prop :=
  ∀ fileCache, c.commitCache s = some fileCache → CFileCache.Committable fileCache

/-- The events of the transaction in which the session is after a call. -/
def openEvents (opened : List ε) (c : SessionCall ε ps) (s : CSession ε ps) : List ε :=
  if (c.step s).inWriteTransaction then opened ++ c.collected s else []

/-- What a commit has to report, when `opened` are the events of the session's transaction. -/
structure HonestCall (opened : List ε) (c : SessionCall ε ps) (s : CSession ε ps) : Prop where
  success : c.Commits s → ¬Failed (c.perform s).1.hres → (c.perform s).1.fileCommit = some (.ok ())
  sent : (c.perform s).1.sent ≠ [] → (c.perform s).1.fileCommit = some (.ok ())
  own : ∀ e ∈ (c.perform s).1.sent, e ∈ opened ++ c.collected s

/-- A run in which every commit is honest. -/
def HonestRun (opened : List ε) : List (SessionCall ε ps) → CSession ε ps → Prop
  | [], _ => True
  | c :: cs, s => c.HonestCall opened s ∧ HonestRun (c.openEvents opened s) cs (c.step s)

/-- The session keeps the events of its transaction, and none without one. -/
structure Keeps (opened : List ε) (s : CSession ε ps) : Prop where
  inside : s.inWriteTransaction = true → s.transactedEvents = opened
  outside : s.inWriteTransaction = false → s.transactedEvents = [] ∧ opened = []

theorem failed_a51TranslateErrorCode (e : WinError) : Failed (a51TranslateErrorCode e) := by
  cases e with
  | os code =>
    rw [a51TranslateErrorCode]
    split_ifs <;> decide
  | _ => decide

variable (locked allocated : Bool) (op : Operation ε ps) {s : CSession ε ps}

/-- An operation inside a transaction only adds its events. -/
theorem operation_inside (hin : s.inWriteTransaction = true) :
    let r := CSession.operation locked allocated op s
    r.1.fileCommit = none ∧ r.1.sent = [] ∧ r.2.inWriteTransaction = true ∧
      r.2.transactedEvents = s.transactedEvents ++
        match workCache locked allocated op s with
        | none => []
        | some fileCache => (op.work fileCache).2.1 := by
  simp only [CSession.operation, hin, if_true, transactedOperation, workCache]
  by_cases hdown : s.shuttingDown = true
  · simp [hdown, reply, hin]
  by_cases hstatus : Failed op.errorStatus
  · simp [hdown, hstatus, reply, hin]
  by_cases halloc : allocated = true
  · simp [hdown, hstatus, halloc, reply]
  · simp [hdown, hstatus, halloc, reply, hin]

/-- An operation of its own either asks the file cache for a commit, and returns 0 whatever the
answer, or fails. -/
theorem operation_outside (hout : s.inWriteTransaction = false) :
    let r := CSession.operation locked allocated op s
    (r.2.inWriteTransaction = false ∧ r.2.transactedEvents = s.transactedEvents) ∧
      match autoCache locked allocated op s with
      | none => Failed r.1.hres ∧ r.1.fileCommit = none ∧ r.1.sent = []
      | some fileCache => r.1.hres = 0 ∧
        r.1.fileCommit = some (CFileCache.commitTransaction.result fileCache) ∧
        r.1.sent = match workCache locked allocated op s with
          | none => []
          | some fileCache => (op.work fileCache).2.1 := by
  simp only [CSession.operation, hout, Bool.false_eq_true, if_false, autoOperation, autoCache,
    workCache]
  by_cases hlock : locked = true
  swap
  · simp [hlock, hout, reply]
    decide
  by_cases hdown : s.shuttingDown = true
  · simp [hlock, hdown, hout, reply]
    decide
  rcases hbegin : CFileCache.beginTransaction s.shuttingDown s.fileCache with ⟨e | _, fileCache⟩
  · simp [hlock, hdown, reply, failed_a51TranslateErrorCode]
  by_cases hstatus : Failed op.errorStatus
  · simp [hlock, hdown, hstatus, reply]
  by_cases halloc : allocated = true
  swap
  · simp [hlock, hdown, hstatus, halloc, reply]
    decide
  rcases hwork : op.work fileCache with ⟨_ | hres, events, fileCache'⟩
  · simp [hlock, hdown, hstatus, halloc, hwork, reply]
    decide
  by_cases hfailed : Failed hres
  · simp [hlock, hdown, hstatus, halloc, hwork, hfailed, reply]
  · simp [hlock, hdown, hstatus, halloc, hwork, hfailed, internalCommitTransaction,
      Prog.result]

variable {locked allocated op} {c : SessionCall ε ps} {opened : List ε}

theorem perform_operation (h : c.operation? = some (locked, allocated, op)) :
    c.perform s = CSession.operation locked allocated op s := by
  cases c <;> cases h <;> rfl

theorem collected_operation (h : c.operation? = some (locked, allocated, op)) :
    c.collected s = match workCache locked allocated op s with
      | none => []
      | some fileCache => (op.work fileCache).2.1 := by
  rw [collected, h]

/-- A call that asks for no commit is honest, if it fails where it should commit and sends nothing. -/
theorem honestCall_of_none (hcache : c.commitCache s = none)
    (hfails : c.Commits s → Failed (c.perform s).1.hres) (hsent : (c.perform s).1.sent = []) :
    c.HonestCall opened s ↔ c.CommitReady s := by
  constructor
  · intro _ fileCache h
    exact nomatch hcache.symm.trans h
  · intro _
    constructor
    · exact fun hcommits hok => absurd (hfails hcommits) hok
    · exact fun hne => absurd hsent hne
    · intro e he
      rw [hsent] at he
      exact absurd he List.not_mem_nil

/-- A call that asks for a commit and succeeds is honest if the file cache can commit. -/
theorem honestCall_of_some {fileCache : World (CFileCache ps)} (hcommits : c.Commits s)
    (hcache : c.commitCache s = some fileCache) (hres : (c.perform s).1.hres = 0)
    (hcommit : (c.perform s).1.fileCommit =
      some (CFileCache.commitTransaction.result fileCache))
    (hown : ∀ e ∈ (c.perform s).1.sent, e ∈ opened ++ c.collected s) :
    c.HonestCall opened s ↔ c.CommitReady s := by
  have hiff := CFileCache.commitTransaction_result_iff fileCache
  constructor
  · intro hhonest fileCache' h
    obtain rfl := Option.some.inj (hcache.symm.trans h)
    have hsuccess := hhonest.success hcommits (by rw [hres]; decide)
    exact hiff.1 (Option.some.inj (hcommit.symm.trans hsuccess))
  · intro hready
    have hok := hcommit.trans (congrArg some (hiff.2 (hready fileCache hcache)))
    exact ⟨fun _ _ => hok, fun _ => hok, hown⟩

/-- Exactly when a call is honest. -/
theorem honestCall_iff (c : SessionCall ε ps) (hkeeps : Keeps opened s) :
    c.HonestCall opened s ↔ c.CommitReady s := by
  rcases hop : c.operation? with _ | ⟨locked, allocated, op⟩
  · cases c with
    | commitTransaction =>
      by_cases hin : s.inWriteTransaction = true
      · have hperform : (commitTransaction.perform s).1 =
            ⟨0, some (CFileCache.commitTransaction.result s.fileCache), s.transactedEvents⟩ := by
          simp only [perform, CSession.commitTransaction, hin, if_true]
          rfl
        refine honestCall_of_some (Or.inl ⟨rfl, hin⟩) ?_ (by rw [hperform]) (by rw [hperform]) ?_
        · simp [commitCache, hin]
        · intro e he
          rw [hperform, hkeeps.inside hin] at he
          exact List.mem_append_left _ he
      · refine honestCall_of_none (by simp [commitCache, hin, hop]) ?_ ?_
        · rintro (⟨-, h⟩ | ⟨h, -⟩)
          · exact absurd h hin
          · exact absurd h (by simp [hop])
        · simp [perform, CSession.commitTransaction, hin, reply]
    | beginWriteTransaction locked =>
      refine honestCall_of_none (by simp [commitCache, hop]) ?_ ?_
      · rintro (⟨h, -⟩ | ⟨h, -⟩)
        · exact nomatch h
        · exact absurd h (by simp [hop])
      · simp only [perform, CSession.beginWriteTransaction]
        split_ifs
        · rfl
        · rfl
        · split <;> rfl
    | abortTransaction =>
      refine honestCall_of_none (by simp [commitCache, hop]) ?_ ?_
      · rintro (⟨h, -⟩ | ⟨h, -⟩)
        · exact nomatch h
        · exact absurd h (by simp [hop])
      · simp only [perform, CSession.abortTransaction]
        split_ifs <;> rfl
    | others fileCache shuttingDown =>
      refine honestCall_of_none (by simp [commitCache, hop]) ?_ rfl
      rintro (⟨h, -⟩ | ⟨h, -⟩)
      · exact nomatch h
      · exact absurd h (by simp [hop])
    | putObject locked op => exact nomatch hop
    | deleteObject locked op => exact nomatch hop
    | deleteObjectByPath locked allocated op => exact nomatch hop
  · have hperform := perform_operation (s := s) hop
    have hne : c ≠ commitTransaction := fun h => by
      rw [h] at hop
      exact nomatch hop
    by_cases hin : s.inWriteTransaction = true
    · obtain ⟨-, hsent, -⟩ := operation_inside locked allocated op hin
      refine honestCall_of_none ?_ ?_ (by rw [hperform]; exact hsent)
      · rw [commitCache, if_pos hin]
        exact hne
      · rintro (⟨h, -⟩ | ⟨-, h⟩)
        · exact absurd h hne
        · exact absurd (hin.symm.trans h) (by decide)
    · have hout := Bool.eq_false_iff.2 hin
      obtain ⟨-, hauto⟩ := operation_outside locked allocated op hout
      have hcache : c.commitCache s = autoCache locked allocated op s := by
        rw [commitCache, if_neg hin, hop]
        exact hne
      rcases hauto' : autoCache locked allocated op s with _ | fileCache
      · rw [hauto'] at hauto
        obtain ⟨hfails, -, hsent⟩ := hauto
        rw [← hperform] at hfails hsent
        exact honestCall_of_none (hcache.trans hauto') (fun _ => hfails) hsent
      · rw [hauto'] at hauto
        obtain ⟨hres, hcommit, hsent⟩ := hauto
        rw [← hperform] at hres hcommit hsent
        refine honestCall_of_some (Or.inr ⟨by rw [hop]; rfl, hout⟩) (hcache.trans hauto') hres
          hcommit ?_
        intro e he
        rw [hsent, ← collected_operation hop] at he
        exact List.mem_append_right _ he

theorem Keeps.of_inside (c : SessionCall ε ps) (hin : (c.step s).inWriteTransaction = true)
    (hevents : (c.step s).transactedEvents = opened ++ c.collected s) :
    Keeps (c.openEvents opened s) (c.step s) := by
  constructor
  · intro _
    rw [openEvents, if_pos hin, hevents]
  · intro hout
    exact absurd (hin.symm.trans hout) (by decide)

theorem Keeps.of_outside (c : SessionCall ε ps) (hout : (c.step s).inWriteTransaction = false)
    (hevents : (c.step s).transactedEvents = []) :
    Keeps (c.openEvents opened s) (c.step s) := by
  constructor
  · intro hin
    exact absurd (hin.symm.trans hout) (by decide)
  · intro _
    refine ⟨hevents, ?_⟩
    rw [openEvents, hout]
    rfl

/-- A call that leaves the session's flag and events alone. -/
theorem Keeps.of_same (hkeeps : Keeps opened s) (c : SessionCall ε ps)
    (hflag : (c.step s).inWriteTransaction = s.inWriteTransaction)
    (hevents : (c.step s).transactedEvents = s.transactedEvents)
    (hcollected : s.inWriteTransaction = true → c.collected s = []) :
    Keeps (c.openEvents opened s) (c.step s) := by
  by_cases hin : s.inWriteTransaction = true
  · refine .of_inside c (hflag.trans hin) ?_
    rw [hevents, hkeeps.inside hin, hcollected hin, List.append_nil]
  · have hout := Bool.eq_false_iff.2 hin
    exact .of_outside c (hflag.trans hout) (hevents.trans (hkeeps.outside hout).1)

/-- Every call leaves the session with the events of its transaction. -/
theorem Keeps.step (hkeeps : Keeps opened s) (c : SessionCall ε ps) :
    Keeps (c.openEvents opened s) (c.step s) := by
  rcases hop : c.operation? with _ | ⟨locked, allocated, op⟩
  · have hcollected : c.collected s = [] := by rw [collected, hop]
    cases c with
    | commitTransaction =>
      by_cases hin : s.inWriteTransaction = true
      · refine .of_outside _ ?_ ?_
        · simp [SessionCall.step, perform, CSession.commitTransaction, hin]
        · simp [SessionCall.step, perform, CSession.commitTransaction, hin]
      · refine hkeeps.of_same _ ?_ ?_ fun _ => hcollected
        · simp [SessionCall.step, perform, CSession.commitTransaction, hin]
        · simp [SessionCall.step, perform, CSession.commitTransaction, hin]
    | abortTransaction =>
      by_cases hin : s.inWriteTransaction = true
      · refine .of_outside _ ?_ ?_
        · simp [SessionCall.step, perform, CSession.abortTransaction, hin]
        · simp [SessionCall.step, perform, CSession.abortTransaction, hin]
      · refine hkeeps.of_same _ ?_ ?_ fun _ => hcollected
        · simp [SessionCall.step, perform, CSession.abortTransaction, hin]
        · simp [SessionCall.step, perform, CSession.abortTransaction, hin]
    | beginWriteTransaction locked =>
      by_cases hlock : locked = true
      swap
      · refine hkeeps.of_same _ ?_ ?_ fun _ => hcollected
        · simp [SessionCall.step, perform, CSession.beginWriteTransaction, hlock]
        · simp [SessionCall.step, perform, CSession.beginWriteTransaction, hlock]
      by_cases hdown : s.shuttingDown = true
      · refine hkeeps.of_same _ ?_ ?_ fun _ => hcollected
        · simp [SessionCall.step, perform, CSession.beginWriteTransaction, hlock, hdown]
        · simp [SessionCall.step, perform, CSession.beginWriteTransaction, hlock, hdown]
      have hdown' := Bool.eq_false_iff.2 hdown
      rcases hbegin : CFileCache.beginTransaction s.shuttingDown s.fileCache with
        ⟨e | _, fileCache⟩ <;> rw [hdown'] at hbegin
      · refine hkeeps.of_same _ ?_ ?_ fun _ => hcollected
        · simp [SessionCall.step, perform, CSession.beginWriteTransaction, hlock, hdown, hbegin]
        · simp [SessionCall.step, perform, CSession.beginWriteTransaction, hlock, hdown, hbegin]
      · have hstep : (beginWriteTransaction locked).step s =
            { s with fileCache := fileCache, inWriteTransaction := true } := by
          simp [SessionCall.step, perform, CSession.beginWriteTransaction, hlock, hdown, hbegin]
        refine .of_inside _ (by rw [hstep]) ?_
        rw [hstep, hcollected, List.append_nil]
        by_cases hin : s.inWriteTransaction = true
        · exact hkeeps.inside hin
        · obtain ⟨hevents, hopened⟩ := hkeeps.outside (Bool.eq_false_iff.2 hin)
          exact hevents.trans hopened.symm
    | others fileCache shuttingDown =>
      exact hkeeps.of_same _ rfl rfl fun _ => hcollected
    | putObject locked op => exact nomatch hop
    | deleteObject locked op => exact nomatch hop
    | deleteObjectByPath locked allocated op => exact nomatch hop
  · have hstep : c.step s = (CSession.operation locked allocated op s).2 :=
      congrArg Prod.snd (perform_operation hop)
    by_cases hin : s.inWriteTransaction = true
    · obtain ⟨-, -, hflag, hevents⟩ := operation_inside locked allocated op hin
      rw [← hstep] at hflag hevents
      refine .of_inside c hflag ?_
      rw [hevents, hkeeps.inside hin, collected_operation hop]
    · have hout := Bool.eq_false_iff.2 hin
      obtain ⟨⟨hflag, hevents⟩, -⟩ := operation_outside locked allocated op hout
      rw [← hstep] at hflag hevents
      exact .of_outside c hflag (hevents.trans (hkeeps.outside hout).1)

/-- A run of a session is honest exactly if the file cache can commit whenever a call of the run
asks it to. -/
theorem honestRun_iff (s : CSession ε ps) (hout : s.inWriteTransaction = false)
    (hevents : s.transactedEvents = []) (cs : List (SessionCall ε ps)) :
    HonestRun [] cs s ↔ Along step CommitReady cs s := by
  have hrun (opened : List ε) (s : CSession ε ps) (hkeeps : Keeps opened s) :
      HonestRun opened cs s ↔ Along step CommitReady cs s := by
    induction cs generalizing opened s with
    | nil => exact Iff.rfl
    | cons c cs ih =>
      rw [HonestRun, Along, honestCall_iff c hkeeps, ih _ _ (hkeeps.step c)]
  exact hrun [] s ⟨fun hin => absurd (hin.symm.trans hout) (by decide), fun _ => ⟨hevents, rfl⟩⟩

end SessionCall

/-- A new repository with the outcomes of its allocations, and a session on it. -/
def newSession (allocs : List (Option ℕ)) : CSession ℕ 1 where
  fileCache :=
    ⟨⟨true, ⟨.init .objectsData 64 4, .init .indexBtr 64 4, none⟩⟩, ⟨allocs, [], fun _ => [], []⟩⟩
  shuttingDown := false
  inWriteTransaction := false
  transactedEvents := []

/-- The object store is asked for `work`, and an event is collected. -/
def objOperation (event : ℕ) (work : Op (CPageFile 1) Unit) : Operation ℕ 1 where
  errorStatus := 0
  work fileCache :=
    match CFileCache.onSource (CPageSource.onObjPF work) fileCache with
    | (.ok _, fileCache) => (some 0, [event], fileCache)
    | (.error e, fileCache) => (some (a51TranslateErrorCode e), [], fileCache)

/-- A page is written, and written again in a second transaction. -/
def putTwice : List (SessionCall ℕ 1) :=
  [.putObject true (objOperation 1 do
      let id ← CPageFile.newPage 1
      CPageFile.putPage id ⟨[7], rfl⟩),
    .putObject true (objOperation 2 (CPageFile.putPage 0 ⟨[8], rfl⟩))]

/-- With memory, both transactions are honest. -/
theorem honestRun_iff_putTwice : SessionCall.HonestRun [] putTwice (newSession []) := by
  refine (SessionCall.honestRun_iff (newSession []) rfl rfl putTwice).mpr ⟨?_, ?_, trivial⟩
  all_goals
    intro fileCache h
    obtain rfl := Option.some.inj h
    exact ⟨rfl, by decide +kernel, by decide +kernel, by decide +kernel, by decide +kernel,
      by decide +kernel⟩

/-- The second commit is short of memory for its free list. -/
theorem not_honestRun_memory :
    ¬SessionCall.HonestRun [] putTwice (newSession (List.replicate 9 (some 0) ++ [none])) := by
  rintro ⟨-, hsecond, -⟩
  have hcommits : SessionCall.Commits
      (.putObject true (objOperation 2 (CPageFile.putPage 0 ⟨[8], rfl⟩)))
      (SessionCall.step (.putObject true (objOperation 1 do
        let id ← CPageFile.newPage 1
        CPageFile.putPage id ⟨[7], rfl⟩)) (newSession (List.replicate 9 (some 0) ++ [none]))) :=
    Or.inr ⟨rfl, rfl⟩
  have hok := hsecond.success hcommits (by decide +kernel)
  exact nomatch hok

end NtAdmin.Wmi.A51
