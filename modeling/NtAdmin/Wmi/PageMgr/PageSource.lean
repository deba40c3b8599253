import NtAdmin.Wmi.PageMgr.PageFileSpec

/-! The two page files of the repository under one transaction: `CPageSource` of pagemgr.cpp. -/
namespace NtAdmin.Wmi.PageMgr

open NtAdmin.Lib

def errorRevisionMismatch : ℕ := 1306

structure CPageSource (ps : ℕ) where
  objPF : CPageFile ps
  bTreePF : CPageFile ps
  status : Option WinError

namespace CPageSource
variable {ps : ℕ}

def objPFL : Lens (CPageSource ps) (CPageFile ps) :=
  ⟨objPF, fun v s => { s with objPF := v }, fun _ _ => rfl, fun _ => rfl, fun _ _ _ => rfl⟩
def bTreePFL : Lens (CPageSource ps) (CPageFile ps) :=
  ⟨bTreePF, fun v s => { s with bTreePF := v }, fun _ _ => rfl, fun _ => rfl, fun _ _ _ => rfl⟩

def onObjPF {α : Type} (m : Op (CPageFile ps) α) : Op (CPageSource ps) α :=
  Prog.zoom (World.part objPFL) m

def onBTreePF {α : Type} (m : Op (CPageFile ps) α) : Op (CPageSource ps) α :=
  Prog.zoom (World.part bTreePFL) m

def incrementTransVersion (s : CPageFile ps) : CPageFile ps :=
  { s with transVersion := (s.transVersion + 1) % 2 ^ 32 }

def beginTrans : Op (CPageSource ps) Unit := do
  match (← getObj).status with
  | some e => throw e
  | none =>
    onObjPF CPageFile.transBegin
    onBTreePF CPageFile.transBegin

def commitTrans : Op (CPageSource ps) Unit := do
  onObjPF CPageFile.transCommit
  onBTreePF CPageFile.transCommit
  modifyObj fun s => { s with
    objPF := incrementTransVersion s.objPF
    bTreePF := incrementTransVersion s.bTreePF }
  let s ← getObj
  if s.bTreePF.transVersion ≠ s.objPF.transVersion then throw (.os errorRevisionMismatch)

def rollbackTrans : Op (CPageSource ps) Unit := do
  onObjPF CPageFile.transRollback
  onBTreePF CPageFile.transRollback
  let s ← getObj
  if s.bTreePF.transVersion ≠ s.objPF.transVersion then throw (.os errorRevisionMismatch)

/-- The object store and what the system grants it. -/
def objWorld (w : World (CPageSource ps)) : World (CPageFile ps) := ⟨w.obj.objPF, w.os⟩

/-- The B-tree store, and the system once the object store has committed. -/
def bTreeWorld (w : World (CPageSource ps)) : World (CPageFile ps) :=
  ⟨w.obj.bTreePF, (CPageFile.transCommit.after (objWorld w)).os⟩

/-- Both stores are in a transaction of one version, with memory for their lists. -/
structure Committable (w : World (CPageSource ps)) : Prop where
  objOpen : w.obj.objPF.inTransaction = true
  objMemory : CPageFile.transCommitReserve.result (objWorld w) = .ok ()
  bTreeOpen : w.obj.bTreePF.inTransaction = true
  bTreeMemory : CPageFile.transCommitReserve.result (bTreeWorld w) = .ok ()
  versions : (w.obj.bTreePF.transVersion + 1) % 2 ^ 32 = (w.obj.objPF.transVersion + 1) % 2 ^ 32

theorem commitTrans_spec (w : World (CPageSource ps)) :
    commitTrans.wp (fun _ _ => Committable w) (fun _ _ => ¬Committable w) w := by
  simp only [commitTrans, onObjPF, onBTreePF, Prog.wp_bind, Prog.wp_zoom]
  refine Prog.wp_mono (Prog.wp_and (CPageFile.transCommit_spec (objWorld w))
    (Prog.wp_run CPageFile.transCommit (objWorld w))) ?_ ?_
  · intro _ objAfter h
    obtain ⟨⟨hobj, hobjMemory, hobjBecame⟩, -, rfl⟩ := h
    refine Prog.wp_mono (CPageFile.transCommit_spec (bTreeWorld w)) ?_ ?_
    · intro _ bTreeAfter h
      obtain ⟨hbTree, hbTreeMemory, hbTreeBecame⟩ := h
      have hversions : (bTreeAfter.obj.transVersion + 1) % 2 ^ 32 =
            ((CPageFile.transCommit.after (objWorld w)).obj.transVersion + 1) % 2 ^ 32 ↔
          (w.obj.bTreePF.transVersion + 1) % 2 ^ 32 =
            (w.obj.objPF.transVersion + 1) % 2 ^ 32 := by
        rw [hbTreeBecame.version, hobjBecame.version]
        exact Iff.rfl
      simp only [Prog.wp_bind, wp_modifyObj, wp_getObj, Prog.wp_ite, Prog.wp_throw, Prog.wp_pure]
      constructor
      · intro hne hcommittable
        exact hne (hversions.2 hcommittable.versions)
      · intro heq
        exact ⟨hobj, hobjMemory, hbTree, hbTreeMemory, hversions.1 (not_not.1 heq)⟩
    · intro e bTreeAfter h hcommittable
      exact h.2.2 ⟨hcommittable.bTreeOpen, hcommittable.bTreeMemory⟩
  · intro e objAfter h hcommittable
    exact h.1.2.2 ⟨hcommittable.objOpen, hcommittable.objMemory⟩

/-- Exactly when a commit of both stores succeeds. -/
theorem commitTrans_result_iff (w : World (CPageSource ps)) :
    commitTrans.result w = .ok () ↔ Committable w := by
  obtain ⟨hok, herr⟩ := Prog.wp_result.mp (commitTrans_spec w)
  constructor
  · exact hok ()
  · intro hcommittable
    rcases hres : commitTrans.result w with e | _
    · exact absurd hcommittable (herr e hres)
    · rfl

end CPageSource
end NtAdmin.Wmi.PageMgr
