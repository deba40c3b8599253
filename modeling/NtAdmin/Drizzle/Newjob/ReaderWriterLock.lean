import Mathlib.Algebra.BigOperators.Group.Finset.Piecewise
import Mathlib.Data.Fintype.Basic
import Mathlib.Logic.Function.Basic

/-! The reader/writer lock of tasksched.cpp. The readers share a semaphore that the first of them
takes and the last gives back; a writer has it alone. -/
namespace NtAdmin.Drizzle.Newjob

/-- Where a thread is in `LockReader`, `UnlockReader`, `LockWriter` and `UnlockWriter`: the wait, the
interlocked operation or the release that comes next. `cancelable` says that `GetCancelEvent` gave an
event. -/
inductive LockPoint
  | outside
  | waitReaderLock (cancelable : Bool)
  | increment (cancelable : Bool)
  | waitFirstReader (cancelable : Bool)
  | undoIncrement
  | releaseReaderLock (returnVal : Bool)
  | reading
  | lastReader
  | waitWriter (cancelable : Bool)
  | setOwner
  | writing
  | releaseWriter
  deriving DecidableEq, Repr

/-- A thread that asks for the lock again while it has it counts as another thread. -/
structure ReaderWriterLock (Thread : Type) where
  point : Thread → LockPoint
  readerLock : Option Thread
  readerCount : ℤ
  writerSemaphore : ℕ
  writerOwner : Option Thread

/-- What a thread does next: it calls a function, takes the step it is at, or finds at a wait that
its cancel event is set. -/
inductive LockAction
  | lockReader (cancelable : Bool)
  | unlockReader
  | lockWriter (cancelable : Bool)
  | unlockWriter
  | go
  | cancel
  deriving DecidableEq, Repr

variable {Thread : Type}

def ReaderWriterLock.initial : ReaderWriterLock Thread := ⟨fun _ => .outside, none, 0, 1, none⟩

/-- `ReleaseSemaphore`, which fails on a semaphore at its maximum of one. -/
def releaseSemaphore (count : ℕ) : ℕ := if count < 1 then count + 1 else count

variable [DecidableEq Thread]

def ReaderWriterLock.at (s : ReaderWriterLock Thread) (t : Thread) (p : LockPoint) :
    ReaderWriterLock Thread := { s with point := Function.update s.point t p }

/-- One atomic step of a thread, when it can be taken. -/
def ReaderWriterLock.step (s : ReaderWriterLock Thread) (t : Thread) (a : LockAction) :
    Option (ReaderWriterLock Thread) :=
  match s.point t, a with
  | .outside, .lockReader c => some (s.at t (.waitReaderLock c))
  | .outside, .lockWriter c => some (s.at t (.waitWriter c))
  | .waitReaderLock c, .go =>
    if s.readerLock = none then some { s.at t (.increment c) with readerLock := some t } else none
  | .waitReaderLock true, .cancel => some (s.at t .outside)
  | .increment c, .go =>
    some { s.at t (if s.readerCount + 1 = 1 then .waitFirstReader c else .releaseReaderLock false) with
      readerCount := s.readerCount + 1 }
  | .waitFirstReader _, .go =>
    if 0 < s.writerSemaphore then
      some { s.at t (.releaseReaderLock false) with writerSemaphore := s.writerSemaphore - 1 }
    else none
  | .waitFirstReader true, .cancel => some (s.at t .undoIncrement)
  | .undoIncrement, .go =>
    some { s.at t (.releaseReaderLock true) with readerCount := s.readerCount - 1 }
  | .releaseReaderLock returnVal, .go =>
    some { s.at t (if returnVal then .outside else .reading) with readerLock := none }
  | .reading, .unlockReader =>
    some { s.at t (if s.readerCount - 1 = 0 then .lastReader else .outside) with
      readerCount := s.readerCount - 1 }
  | .lastReader, .go =>
    some { s.at t .outside with writerSemaphore := releaseSemaphore s.writerSemaphore }
  | .waitWriter _, .go =>
    if 0 < s.writerSemaphore then
      some { s.at t .setOwner with writerSemaphore := s.writerSemaphore - 1 }
    else none
  | .waitWriter true, .cancel => some (s.at t .outside)
  | .setOwner, .go => some { s.at t .writing with writerOwner := some t }
  | .writing, .unlockWriter => some { s.at t .releaseWriter with writerOwner := none }
  | .releaseWriter, .go =>
    some { s.at t .outside with writerSemaphore := releaseSemaphore s.writerSemaphore }
  | _, _ => none

/-- The steps of the threads in some order. -/
def ReaderWriterLock.run (s : ReaderWriterLock Thread) :
    List (Thread × LockAction) → Option (ReaderWriterLock Thread)
  | [] => some s
  | (t, a) :: steps => (s.step t a).bind fun s' => s'.run steps

/-- What the lock call returns that a step ends. -/
def LockPoint.returns : LockPoint → LockAction → Option Bool
  | .waitReaderLock true, .cancel => some true
  | .releaseReaderLock returnVal, .go => some returnVal
  | .waitWriter true, .cancel => some true
  | .setOwner, .go => some false
  | _, _ => none

/-- What the lock calls of a thread return in a run. -/
def ReaderWriterLock.results (t : Thread) (s : ReaderWriterLock Thread) :
    List (Thread × LockAction) → List Bool
  | [] => []
  | (u, a) :: steps =>
    (if u = t then ((s.point t).returns a).toList else []) ++
      match s.step u a with
      | none => []
      | some s' => s'.results t steps

/-- A reader that has the lock. -/
def LockPoint.isReader : LockPoint → Bool
  | .releaseReaderLock false => true
  | .reading => true
  | _ => false

/-- A writer that has the lock. -/
def LockPoint.isWriter : LockPoint → Bool
  | .setOwner => true
  | .writing => true
  | .releaseWriter => true
  | _ => false

/-- A first reader without the lock, behind its increment. -/
def LockPoint.isFirst : LockPoint → Bool
  | .waitFirstReader _ => true
  | .undoIncrement => true
  | _ => false

/-- A thread that has the reader lock. -/
def LockPoint.inReaderLock : LockPoint → Bool
  | .increment _ => true
  | .waitFirstReader _ => true
  | .undoIncrement => true
  | .releaseReaderLock _ => true
  | _ => false

/-- The writer that `m_WriterOwner` names. -/
def LockPoint.isOwner : LockPoint → Bool
  | .writing => true
  | _ => false

/-- The threads behind their increment and before their decrement. -/
def LockPoint.isCounted (p : LockPoint) : Bool := p.isReader || p.isFirst

/-- The threads that have the semaphore to themselves. -/
def LockPoint.isAlone (p : LockPoint) : Bool := p.isWriter || p = .lastReader

/-- The threads that have the lock, or are about to give the semaphore back. -/
def LockPoint.hasLock (p : LockPoint) : Bool := p.isReader || p.isAlone

def ReaderWriterLock.counted [Fintype Thread] (s : ReaderWriterLock Thread) : ℕ :=
  (Finset.univ.filter fun t => (s.point t).isCounted).card

/-- Who has the semaphore: nobody, one thread alone, or the readers. -/
inductive ReaderWriterLock.Semaphore (s : ReaderWriterLock Thread) : Prop
  | free (hfree : s.writerSemaphore = 1)
      (hnone : ∀ u, (s.point u).isReader = false ∧ (s.point u).isAlone = false)
  | alone (htaken : s.writerSemaphore = 0) (t : Thread) (halone : (s.point t).isAlone = true)
      (hnone : ∀ u, (s.point u).isReader = false) (hother : ∀ u, (s.point u).isAlone = true → u = t)
  | readers (htaken : s.writerSemaphore = 0) (t : Thread) (hreader : (s.point t).isReader = true)
      (hnone : ∀ u, (s.point u).isAlone = false)

structure ReaderWriterLock.Inv [Fintype Thread] (s : ReaderWriterLock Thread) : Prop where
  count : s.readerCount = s.counted
  readerLock : ∀ t, s.readerLock = some t ↔ (s.point t).inReaderLock = true
  owner : ∀ t, s.writerOwner = some t ↔ (s.point t).isOwner = true
  semaphore : s.Semaphore
  first : ∀ t u, (s.point t).isFirst = true → (s.point u).isReader = false

end NtAdmin.Drizzle.Newjob
