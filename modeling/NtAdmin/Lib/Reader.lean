import Mathlib.Algebra.GroupWithZero.Nat
import Mathlib.Data.List.Basic
import NtAdmin.Lib.Prog

/-! Reading a file from a pointer on, and what a reader makes of the bytes a writer left there. -/
namespace NtAdmin.Lib

/-- A file that is read from `pointer` on, next to a state that reading may change. -/
structure Cursor (σ : Type) where
  file : List UInt8
  pointer : ℕ
  state : σ

abbrev Reader (σ ε α : Type) := Prog (Cursor σ) ε α

/-- The `n` bytes of a number, the lowest first. -/
def leBytes : ℕ → ℕ → List UInt8
  | 0, _ => []
  | n + 1, k => UInt8.ofNat k :: leBytes n (k / 256)

def leNat : List UInt8 → ℕ
  | [] => 0
  | b :: bs => b.toNat + 256 * leNat bs

@[simp] theorem length_leBytes (n k : ℕ) : (leBytes n k).length = n := by
  induction n generalizing k with
  | zero => rfl
  | succ n ih => rw [leBytes, List.length_cons, ih]

theorem leNat_leBytes (n k : ℕ) : leNat (leBytes n k) = k % 256 ^ n := by
  induction n generalizing k with
  | zero =>
    rw [Nat.pow_zero, Nat.mod_one]
    rfl
  | succ n ih =>
    have hp : 256 ^ (n + 1) = 256 * 256 ^ n := Nat.pow_succ'
    rw [leBytes, leNat, ih, UInt8.toNat_ofNat', hp]
    exact Nat.mod_mul.symm

theorem leNat_leBytes_of_lt {n k : ℕ} (h : k < 256 ^ n) : leNat (leBytes n k) = k := by
  rw [leNat_leBytes, Nat.mod_eq_of_lt h]

namespace Reader
variable {σ ε α β : Type}

/-- The next `n` bytes, or `short` where the file ends before. -/
def bytes (short : ε) (n : ℕ) : Reader σ ε (List UInt8) := fun c =>
  let bs := (c.file.drop c.pointer).take n
  if bs.length = n then
    (.ok bs, { c with pointer := c.pointer + n })
  else
    (.error short, { c with pointer := c.pointer + bs.length })

/-- Move the pointer back. -/
def back (n : ℕ) : Reader σ ε Unit := fun c => (.ok (), { c with pointer := c.pointer - n })

def getState : Reader σ ε σ := fun c => (.ok c.state, c)

def modifyState (f : σ → σ) : Reader σ ε Unit := fun c => (.ok (), { c with state := f c.state })

/-- `n` times the same reader. -/
def times (m : Reader σ ε α) : ℕ → Reader σ ε (List α)
  | 0 => pure []
  | n + 1 => do
    let a ← m
    let rest ← times m n
    pure (a :: rest)

def loop (m : Reader σ ε Unit) : ℕ → Reader σ ε Unit
  | 0 => pure ()
  | n + 1 => do
    m
    loop m n

/-- Wherever `bs` stand in a file, `m` reads just them, in state `s`, and returns `a`. -/
def Reads (m : Reader σ ε α) (bs : List UInt8) (s : σ) (a : α) (s' : σ) : Prop :=
  ∀ pre post, m ⟨pre ++ (bs ++ post), pre.length, s⟩ =
    (.ok a, ⟨pre ++ (bs ++ post), pre.length + bs.length, s'⟩)

section rules
variable {s s' s'' : σ} {bs cs : List UInt8} {a : α} {b : β}

theorem Reads.pure (a : α) : Reads (pure a : Reader σ ε α) [] s a s := fun _ _ => rfl

theorem Reads.bind {m : Reader σ ε α} {f : α → Reader σ ε β} (hm : Reads m bs s a s')
    (hf : Reads (f a) cs s' b s'') : Reads (m >>= f) (bs ++ cs) s b s'' := by
  intro pre post
  have h1 := hm pre (cs ++ post)
  have h2 := hf (pre ++ bs) post
  rw [List.length_append, List.append_assoc] at h2
  rw [List.append_assoc bs, Prog.bind_of_ok h1, h2, List.length_append, Nat.add_assoc]

/-- A step that reads nothing. -/
theorem Reads.bind_nil {m : Reader σ ε α} {f : α → Reader σ ε β} (hm : Reads m [] s a s')
    (hf : Reads (f a) cs s' b s'') : Reads (m >>= f) cs s b s'' := hm.bind hf

/-- A last step that reads nothing. -/
theorem Reads.map {m : Reader σ ε α} {f : α → Reader σ ε β} (hm : Reads m bs s a s')
    (hf : Reads (f a) [] s' b s'') : Reads (m >>= f) bs s b s'' := by
  have h := hm.bind hf
  rwa [List.append_nil] at h

theorem reads_bytes (short : ε) (bs : List UInt8) :
    Reads (bytes short bs.length : Reader σ ε (List UInt8)) bs s bs s := by
  intro pre post
  simp [bytes]

theorem reads_getState : Reads (getState : Reader σ ε σ) [] s s s := fun _ _ => rfl

theorem reads_modifyState (f : σ → σ) : Reads (modifyState f : Reader σ ε Unit) [] s () (f s) :=
  fun _ _ => rfl

/-- What is read, given back, and read again. -/
theorem Reads.peek {m : Reader σ ε α} {f : α → Reader σ ε β} (hm : Reads m bs s a s')
    (hf : Reads (f a) (bs ++ cs) s' b s'') :
    Reads (do
      let x ← m
      back bs.length
      f x) (bs ++ cs) s b s'' := by
  intro pre post
  have h1 := hm pre (cs ++ post)
  have h2 := hf pre post
  have h3 : (do
      back bs.length
      f a : Reader σ ε β) ⟨pre ++ (bs ++ (cs ++ post)), pre.length + bs.length, s'⟩ =
      f a ⟨pre ++ (bs ++ (cs ++ post)), pre.length + bs.length - bs.length, s'⟩ :=
    Prog.bind_of_ok rfl
  rw [List.append_assoc bs, Prog.bind_of_ok h1, h3, Nat.add_sub_cancel]
  rwa [List.append_assoc bs] at h2

theorem reads_leBytes (short : ε) (n k : ℕ) :
    Reads (bytes short n : Reader σ ε (List UInt8)) (leBytes n k) s (leBytes n k) s := by
  have h := reads_bytes (σ := σ) (s := s) short (leBytes n k)
  rwa [length_leBytes] at h

end rules

/-- Reading elements that were written one after the other, when reading one of them changes the
state by `next`. -/
theorem reads_loop {m : Reader σ ε Unit} {f : α → List UInt8} {g : α → σ → σ} (l : List α)
    (hm : ∀ a ∈ l, ∀ s, Reads m (f a) s () (g a s)) (s : σ) :
    Reads (loop m l.length) (l.flatMap f) s () (l.foldl (fun s a => g a s) s) := by
  induction l generalizing s with
  | nil => exact Reads.pure ()
  | cons a l ih =>
    have hl := ih (fun b hb => hm b (List.mem_cons_of_mem a hb)) (g a s)
    exact (hm a List.mem_cons_self s).bind hl

/-- Elements that read back as themselves. -/
theorem reads_times_of_pure {m : Reader σ ε β} {f : α → List UInt8} {g : α → β} (l : List α)
    {s : σ} (hm : ∀ a ∈ l, Reads m (f a) s (g a) s) :
    Reads (times m l.length) (l.flatMap f) s (l.map g) s := by
  induction l with
  | nil => exact Reads.pure []
  | cons a l ih =>
    have hl := ih fun b hb => hm b (List.mem_cons_of_mem a hb)
    exact (hm a List.mem_cons_self).bind (hl.map (Reads.pure _))

end Reader

end NtAdmin.Lib
