import Mathlib.Data.List.Basic
import NtAdmin.Lib.Reader

/-! Arrays of fixed-width words laid out back to back in memory. -/
namespace NtAdmin.Lib

/-- How a value of a fixed width is stored. -/
structure Word (α : Type) where
  width : ℕ
  toBytes : α → List UInt8
  ofBytes : List UInt8 → α
  length_toBytes : ∀ x, (toBytes x).length = width
  ofBytes_toBytes : ∀ x, ofBytes (toBytes x) = x

namespace Word
variable {α : Type} (w : Word α)

/-- The words of an array, one behind the other. -/
def put (xs : List α) : List UInt8 := xs.flatMap w.toBytes

/-- The first word of `p`. -/
def get (p : List UInt8) : α := w.ofBytes (p.take w.width)

/-- What lies behind the first `n` words of `p`. -/
def skip (n : ℕ) (p : List UInt8) : List UInt8 := p.drop (w.width * n)

/-- The first `n` words of `p`. -/
def getArray : ℕ → List UInt8 → List α
  | 0, _ => []
  | n + 1, p => w.get p :: getArray n (w.skip 1 p)

@[simp] theorem length_put (xs : List α) : (w.put xs).length = w.width * xs.length := by
  induction xs with
  | nil => rfl
  | cons x xs ih =>
    have hcons : w.put (x :: xs) = w.toBytes x ++ w.put xs := rfl
    rw [hcons, List.length_append, w.length_toBytes, ih, List.length_cons, Nat.mul_succ,
      Nat.add_comm]

@[simp] theorem length_getArray (n : ℕ) (p : List UInt8) : (w.getArray n p).length = n := by
  induction n generalizing p with
  | zero => rfl
  | succ n ih => rw [getArray, List.length_cons, ih]

theorem get_append (x : α) (p : List UInt8) : w.get (w.toBytes x ++ p) = x := by
  have htake : (w.toBytes x ++ p).take w.width = w.toBytes x := by
    rw [← w.length_toBytes x, List.take_left]
  rw [get, htake, w.ofBytes_toBytes]

theorem skip_one_append (x : α) (p : List UInt8) : w.skip 1 (w.toBytes x ++ p) = p := by
  rw [skip, Nat.mul_one, ← w.length_toBytes x, List.drop_left]

theorem put_nil_append (p : List UInt8) : w.put [] ++ p = p := rfl

theorem put_cons_append (x : α) (xs : List α) (p : List UInt8) :
    w.put (x :: xs) ++ p = w.toBytes x ++ (w.put xs ++ p) := List.append_assoc _ _ _

/-- An array is read back as it was written. -/
theorem getArray_put_append {n : ℕ} {xs : List α} (hn : xs.length = n) (p : List UInt8) :
    w.getArray n (w.put xs ++ p) = xs := by
  subst hn
  induction xs with
  | nil => rfl
  | cons x xs ih =>
    rw [put_cons_append, List.length_cons, getArray, get_append, skip_one_append, ih]

theorem skip_put_append {n : ℕ} {xs : List α} (hn : xs.length = n) (p : List UInt8) :
    w.skip n (w.put xs ++ p) = p := by
  rw [skip, ← hn, ← w.length_put, List.drop_left]

end Word

/-- Reading memory from a pointer on: what lies behind the pointer, or the error `ε`. -/
abbrev Scan (ε α : Type) := List UInt8 → Except ε (α × List UInt8)

namespace Scan
variable {ε α β : Type}

def bind (m : Scan ε α) (f : α → Scan ε β) : Scan ε β := fun p =>
  match m p with
  | .ok (x, p') => f x p'
  | .error e => .error e

instance : Monad (Scan ε) where
  pure x p := .ok (x, p)
  bind := bind

/-- The next word. -/
def next (w : Word α) : Scan ε α := fun p => .ok (w.get p, w.skip 1 p)

/-- The next `n` words. -/
def array (w : Word α) (n : ℕ) : Scan ε { xs : List α // xs.length = n } := fun p =>
  .ok (⟨w.getArray n p, w.length_getArray n p⟩, w.skip n p)

/-- Stop with `e` unless `b` holds. -/
def check (b : Bool) (e : ε) : Scan ε Unit := fun p => if b then .ok ((), p) else .error e

theorem next_bind (w : Word α) (x : α) (f : α → Scan ε β) (p : List UInt8) :
    (next w >>= f) (w.toBytes x ++ p) = f x p := by
  have hnext : (next w : Scan ε α) (w.toBytes x ++ p) = .ok (x, p) := by
    rw [next, w.get_append, w.skip_one_append]
  change bind (next w) f (w.toBytes x ++ p) = f x p
  rw [bind, hnext]

theorem array_bind (w : Word α) {n : ℕ} {xs : List α} (hn : xs.length = n)
    (f : { xs : List α // xs.length = n } → Scan ε β) (p : List UInt8) :
    (array w n >>= f) (w.put xs ++ p) = f ⟨xs, hn⟩ p := by
  have harray : (array w n : Scan ε _) (w.put xs ++ p) = .ok (⟨xs, hn⟩, p) := by
    simp only [array, w.getArray_put_append hn, w.skip_put_append hn]
  change bind (array w n) f (w.put xs ++ p) = f ⟨xs, hn⟩ p
  rw [bind, harray]

theorem check_bind (b : Bool) (e : ε) (f : Unit → Scan ε β) (p : List UInt8) :
    (check b e >>= f) p = if b then f () p else .error e := by
  change bind (check b e) f p = _
  cases b <;> rfl

end Scan

/-- `DWORD`s, the low byte first. -/
def Word.dword : Word UInt32 where
  width := 4
  toBytes x := leBytes 4 x.toNat
  ofBytes bs := UInt32.ofNat (leNat bs)
  length_toBytes x := length_leBytes 4 x.toNat
  ofBytes_toBytes x := by
    have hlt : x.toNat < 256 ^ 4 := x.toNat_lt
    rw [leNat_leBytes_of_lt hlt, UInt32.ofNat_toNat]

/-- `WORD`s, the low byte first. -/
def Word.word : Word UInt16 where
  width := 2
  toBytes x := leBytes 2 x.toNat
  ofBytes bs := UInt16.ofNat (leNat bs)
  length_toBytes x := length_leBytes 2 x.toNat
  ofBytes_toBytes x := by
    have hlt : x.toNat < 256 ^ 2 := x.toNat_lt
    rw [leNat_leBytes_of_lt hlt, UInt16.ofNat_toNat]

/-- `BYTE`s. -/
def Word.byte : Word UInt8 where
  width := 1
  toBytes x := [x]
  ofBytes bs := bs.headD 0
  length_toBytes _ := rfl
  ofBytes_toBytes _ := rfl

end NtAdmin.Lib
