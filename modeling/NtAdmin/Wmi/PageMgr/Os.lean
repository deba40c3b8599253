import NtAdmin.Lib.Bytes
import NtAdmin.Lib.Prog
import NtAdmin.Lib.Vec

/-! The operating system under the page manager: memory, the repository's files, and their
failures. -/
namespace NtAdmin.Wmi.PageMgr

open NtAdmin.Lib

/-- The Win32 codes the page manager returns; `os` is a code it passes on. -/
inductive WinError
  | outOfMemory
  | invalidParameter
  | invalidOperation
  | fileNotFound
  | genFailure
  | notFound
  | diskFull
  | internalDbCorruption
  | os (code : ℕ)
  deriving DecidableEq, Repr

inductive FileName
  | objectsData
  | indexBtr
  | mapping1
  | mapping2
  | mappingVer
  deriving DecidableEq, Repr

/-- The outcome of a file request. A write that fails may have written the bytes `torn`. -/
inductive IoFate
  | done
  | fails (code : ℕ) (torn : List UInt8)
  deriving DecidableEq, Repr

abbrev Disk := FileName → List UInt8

/-- `allocs` and `ios` are the outcomes of the coming requests, all others succeed. An allocation
that succeeds may leave a vector with spare slots. `trail` is every earlier disk, latest first. -/
structure Os where
  allocs : List (Option ℕ)
  ios : List IoFate
  disk : Disk
  trail : List Disk

structure World (Obj : Type) where
  obj : Obj
  os : Os

abbrev Op (Obj α : Type) := Prog (World Obj) WinError α

/-- A disk with the bytes `bs` written into one of its files. -/
def Disk.write (d : Disk) (name : FileName) (off : ℕ) (bs : List UInt8) : Disk :=
  Function.update d name (writeAt 0 (d name) off bs)

def Os.write (o : Os) (name : FileName) (off : ℕ) (bs : List UInt8) : Os :=
  { o with disk := o.disk.write name off bs, trail := o.disk :: o.trail }

namespace World
variable {Obj Part : Type}

/-- A part of the object in front of the same operating system. -/
def part (l : Lens Obj Part) : Lens (World Obj) (World Part) where
  get w := ⟨l.get w.obj, w.os⟩
  set p w := ⟨l.set p.obj w.obj, p.os⟩
  get_set p w := by simp
  set_get w := by simp
  set_set p q w := by simp

end World

section requests
variable {Obj α : Type}

def getObj : Op Obj Obj := fun w => (.ok w.obj, w)

def modifyObj (f : Obj → Obj) : Op Obj Unit := fun w => (.ok (), { w with obj := f w.obj })

/-- `operator new`, which returns 0 when memory is short. -/
def newMemory : Op Obj Unit := fun w =>
  match w.os.allocs with
  | [] => (.ok (), w)
  | some _ :: a => (.ok (), { w with os := { w.os with allocs := a } })
  | none :: a => (.error .outOfMemory, { w with os := { w.os with allocs := a } })

/-- `vector::reserve`, which throws when memory is short and leaves the vector as it was. -/
def reserve (l : Lens Obj (Vec α)) (n : ℕ) : Op Obj Unit := fun w =>
  if n ≤ (l.get w.obj).cap then (.ok (), w)
  else match w.os.allocs with
  | [] => (.ok (), { w with obj := l.set ((l.get w.obj).grow n) w.obj })
  | some k :: a =>
    (.ok (), ⟨l.set ((l.get w.obj).grow (n + k)) w.obj, { w.os with allocs := a }⟩)
  | none :: a => (.error .outOfMemory, { w with os := { w.os with allocs := a } })

/-- Replace the elements; a vector that is too small is reallocated first. -/
def assign (l : Lens Obj (Vec α)) (xs : List α) : Op Obj Unit := do
  reserve l xs.length
  modifyObj fun o => l.set ((l.get o).withData xs) o

def pushBack (l : Lens Obj (Vec α)) (x : α) : Op Obj Unit := do
  assign l ((l.get (← getObj)).data ++ [x])

/-- Position and read; the answer is empty if the file ends before `off + n`. -/
def fileRead (name : FileName) (off n : ℕ) : Op Obj (Option (List UInt8)) := fun w =>
  match w.os.ios with
  | [] => (.ok (readAt (w.os.disk name) off n), w)
  | .done :: r =>
    (.ok (readAt (w.os.disk name) off n), { w with os := { w.os with ios := r } })
  | .fails _ _ :: r => (.ok none, { w with os := { w.os with ios := r } })

/-- A request that changes no file. -/
def fileCall : Op Obj Unit := fun w =>
  match w.os.ios with
  | [] => (.ok (), w)
  | .done :: r => (.ok (), { w with os := { w.os with ios := r } })
  | .fails code _ :: r => (.error (.os code), { w with os := { w.os with ios := r } })

def fileWrite (name : FileName) (off : ℕ) (bs : List UInt8) : Op Obj Unit := fun w =>
  match w.os.ios with
  | [] => (.ok (), { w with os := w.os.write name off bs })
  | .done :: r => (.ok (), { w with os := ({ w.os with ios := r } : Os).write name off bs })
  | .fails code torn :: r =>
    (.error (.os code),
      { w with os := ({ w.os with ios := r } : Os).write name off (torn.take bs.length) })

end requests

section rules
variable {Obj Part α : Type} {E : WinError → World Obj → Prop} {w : World Obj}

@[simp] theorem wp_getObj {Q : Obj → World Obj → Prop} : getObj.wp Q E w ↔ Q w.obj w := Iff.rfl

@[simp] theorem wp_modifyObj {Q : Unit → World Obj → Prop} (f : Obj → Obj) :
    (modifyObj f).wp Q E w ↔ Q () ⟨f w.obj, w.os⟩ := Iff.rfl

theorem wp_newMemory {Q : Unit → World Obj → Prop}
    (hok : ∀ a, a <:+ w.os.allocs → Q () ⟨w.obj, { w.os with allocs := a }⟩)
    (herr : ∀ a, w.os.allocs ≠ [] → a <:+ w.os.allocs →
      E .outOfMemory ⟨w.obj, { w.os with allocs := a }⟩) :
    newMemory.wp Q E w := by
  unfold Prog.wp newMemory
  rcases ha : w.os.allocs with _ | ⟨_ | k, a⟩
  · simpa only [← ha] using hok w.os.allocs (List.suffix_refl _)
  · exact herr a (by simp [ha]) (by simp [ha])
  · exact hok a (by simp [ha])

theorem wp_reserve {Q : Unit → World Obj → Prop} {l : Lens Obj (Vec α)} {n : ℕ}
    (hok : ∀ v a, v.data = (l.get w.obj).data → n ≤ v.cap → (l.get w.obj).cap ≤ v.cap →
      a <:+ w.os.allocs → Q () ⟨l.set v w.obj, { w.os with allocs := a }⟩)
    (herr : ∀ a, (l.get w.obj).cap < n → w.os.allocs ≠ [] → a <:+ w.os.allocs →
      E .outOfMemory ⟨w.obj, { w.os with allocs := a }⟩) :
    (reserve l n).wp Q E w := by
  unfold Prog.wp reserve
  by_cases hn : n ≤ (l.get w.obj).cap
  · simp only [hn, if_true]
    simpa using hok (l.get w.obj) w.os.allocs rfl hn (Nat.le_refl _) (List.suffix_refl _)
  simp only [hn, if_false]
  rcases ha : w.os.allocs with _ | ⟨_ | k, a⟩
  · simpa only [← ha] using hok ((l.get w.obj).grow n) w.os.allocs rfl (Vec.le_cap_grow _ n)
      (Vec.cap_le_cap_grow _ n) (List.suffix_refl _)
  · exact herr a (by omega) (by simp [ha]) (by simp [ha])
  · have hk := Vec.le_cap_grow (l.get w.obj) (n + k)
    exact hok _ a rfl (by omega) (Vec.cap_le_cap_grow _ _) (by simp [ha])

theorem wp_assign {Q : Unit → World Obj → Prop} {l : Lens Obj (Vec α)} {xs : List α}
    (hok : ∀ v a, v.data = xs → (l.get w.obj).cap ≤ v.cap → a <:+ w.os.allocs →
      Q () ⟨l.set v w.obj, { w.os with allocs := a }⟩)
    (herr : ∀ a, (l.get w.obj).cap < xs.length → w.os.allocs ≠ [] → a <:+ w.os.allocs →
      E .outOfMemory ⟨w.obj, { w.os with allocs := a }⟩) :
    (assign l xs).wp Q E w := by
  simp only [assign, Prog.wp_bind]
  refine wp_reserve (fun v a _ _ hcap ha => ?_) herr
  simp only [wp_modifyObj, Lens.get_set, Lens.set_set]
  exact hok _ a rfl (Nat.le_trans hcap (Vec.cap_le_cap_withData v xs)) ha

/-- A vector that is large enough is overwritten in place. -/
theorem wp_assign_of_le {Q : Unit → World Obj → Prop} {l : Lens Obj (Vec α)} {xs : List α}
    (h : xs.length ≤ (l.get w.obj).cap)
    (hok : Q () ⟨l.set ((l.get w.obj).withData xs) w.obj, w.os⟩) :
    (assign l xs).wp Q E w := by
  have hr : reserve l xs.length w = (.ok (), w) := by simp only [reserve, h, if_true]
  simp only [assign, Prog.wp_bind]
  unfold Prog.wp
  rw [hr]
  exact hok

theorem wp_fileRead {Q : Option (List UInt8) → World Obj → Prop} {name : FileName} {off n : ℕ}
    (hdone : ∀ r, r <:+ w.os.ios →
      Q (readAt (w.os.disk name) off n) ⟨w.obj, { w.os with ios := r }⟩)
    (hfail : ∀ r, w.os.ios ≠ [] → r <:+ w.os.ios → Q none ⟨w.obj, { w.os with ios := r }⟩) :
    (fileRead name off n).wp Q E w := by
  unfold Prog.wp fileRead
  rcases hr : w.os.ios with _ | ⟨_ | ⟨code, torn⟩, r⟩
  · simpa only [← hr] using hdone w.os.ios (List.suffix_refl _)
  · exact hdone r (by simp [hr])
  · exact hfail r (by simp [hr]) (by simp [hr])

theorem wp_fileCall {Q : Unit → World Obj → Prop}
    (hdone : ∀ r, r <:+ w.os.ios → Q () ⟨w.obj, { w.os with ios := r }⟩)
    (hfail : ∀ r code, w.os.ios ≠ [] → r <:+ w.os.ios →
      E (.os code) ⟨w.obj, { w.os with ios := r }⟩) :
    fileCall.wp Q E w := by
  unfold Prog.wp fileCall
  rcases hr : w.os.ios with _ | ⟨_ | ⟨code, torn⟩, r⟩
  · simpa only [← hr] using hdone w.os.ios (List.suffix_refl _)
  · exact hdone r (by simp [hr])
  · exact hfail r code (by simp [hr]) (by simp [hr])

theorem wp_fileWrite {Q : Unit → World Obj → Prop} {name : FileName} {off : ℕ} {bs : List UInt8}
    (hdone : ∀ r, r <:+ w.os.ios →
      Q () ⟨w.obj, ({ w.os with ios := r } : Os).write name off bs⟩)
    (hfail : ∀ r code torn, .fails code torn ∈ w.os.ios → r <:+ w.os.ios →
      E (.os code)
        ⟨w.obj, ({ w.os with ios := r } : Os).write name off (torn.take bs.length)⟩) :
    (fileWrite name off bs).wp Q E w := by
  unfold Prog.wp fileWrite
  rcases hr : w.os.ios with _ | ⟨_ | ⟨code, torn⟩, r⟩
  · simpa only [← hr] using hdone w.os.ios (List.suffix_refl _)
  · exact hdone r (by simp [hr])
  · exact hfail r code torn (by simp [hr]) (by simp [hr])

end rules

end NtAdmin.Wmi.PageMgr
