import Mathlib.Algebra.GroupWithZero.Nat
import Mathlib.Data.List.Basic
import Mathlib.Data.List.GetD

/-! Lists edited in place: single elements, copies, moves, resizing, and little-endian double words. -/
namespace NtAdmin.Lib

variable {α : Type}

/-- The `n` elements at `off`. -/
def sliceAt (pb : List α) (off n : ℕ) : List α := (pb.drop off).take n

/-- Overwrite what is at `off` with `bs`. -/
def copyAt (pb : List α) (off : ℕ) (bs : List α) : List α :=
  pb.take off ++ bs ++ pb.drop (off + bs.length)

/-- Overwrite what is at `dest` with the `n` elements at `src`; the two ranges may overlap. -/
def moveWithin (pb : List α) (dest src n : ℕ) : List α := copyAt pb dest (sliceAt pb src n)

/-- A block of `n` elements that keeps the content it has room for. `f` is what lies in the
memory it gains. -/
def resize (f : ℕ → α) (pb : List α) (n : ℕ) : List α :=
  pb.take n ++ (List.range' pb.length (n - pb.length)).map f

theorem exists_split_at {xs : List α} {k : ℕ} (hk : k < xs.length) :
    ∃ a x b, xs = a ++ x :: b ∧ a.length = k := by
  refine ⟨xs.take k, xs[k], xs.drop (k + 1), ?_, List.length_take_of_le (Nat.le_of_lt hk)⟩
  rw [← List.drop_eq_getElem_cons hk, List.take_append_drop]

theorem getElem?_mid (a b : List α) (x : α) : (a ++ x :: b)[a.length]? = some x := by
  rw [List.getElem?_append_right (Nat.le_refl _), Nat.sub_self, List.getElem?_cons_zero]

theorem modify_mid (a b : List α) (x : α) (f : α → α) :
    (a ++ x :: b).modify a.length f = a ++ f x :: b := by
  induction a with
  | nil => rfl
  | cons y a ih => exact congrArg (y :: ·) ih

theorem eraseIdx_mid (a b : List α) (x : α) : (a ++ x :: b).eraseIdx a.length = a ++ b := by
  induction a with
  | nil => rfl
  | cons y a ih => exact congrArg (y :: ·) ih

theorem sliceAt_mid {p u mid v : List α} {off n : ℕ} (hp : p = u ++ mid ++ v)
    (hoff : off = u.length) (hn : n = mid.length) : sliceAt p off n = mid := by
  subst hp hoff hn
  unfold sliceAt
  rw [List.append_assoc, List.drop_left, List.take_left]

theorem copyAt_mid {p u w v bs : List α} {off : ℕ} (hp : p = u ++ w ++ v)
    (hoff : off = u.length) (hlen : bs.length = w.length) :
    copyAt p off bs = u ++ bs ++ v := by
  subst hp hoff
  have hdrop : (u ++ w ++ v).drop (u.length + bs.length) = v := by
    rw [hlen, ← List.length_append, List.drop_left]
  have htake : (u ++ w ++ v).take u.length = u := by
    rw [List.append_assoc, List.take_left]
  rw [copyAt, hdrop, htake]

/-- What is written behind `u` comes after it, and what is left of the room after that. -/
theorem copyAt_fill {p u v s : List α} {o n : ℕ} (hp : p = u ++ v) (hoff : o = u.length)
    (hv : v.length = s.length + n) :
    ∃ v' : List α, v'.length = n ∧ copyAt p o s = u ++ s ++ v' := by
  refine ⟨v.drop s.length, ?_, copyAt_mid (w := v.take s.length) ?_ hoff ?_⟩
  · rw [List.length_drop, hv, Nat.add_sub_cancel_left]
  · rw [hp, List.append_assoc, List.take_append_drop]
  · rw [List.length_take, hv, Nat.min_eq_left (Nat.le_add_right _ _)]

/-- Moving the tail `v` up into the room behind it leaves a hole of the size of what was before it
and of that room. -/
theorem moveWithin_up {p u w v g : List α} {d s n : ℕ} (hp : p = u ++ w ++ v ++ g)
    (hdest : d = u.length + w.length + g.length) (hsrc : s = u.length + w.length)
    (hn : n = v.length) :
    ∃ x : List α, x.length = w.length + g.length ∧ moveWithin p d s n = u ++ x ++ v := by
  have hslice : sliceAt p s n = v :=
    sliceAt_mid (v := g) hp (by rw [hsrc, List.length_append]) hn
  have hlen : (w ++ v ++ g).length = (w.length + g.length) + v.length := by
    simp only [List.length_append]
    omega
  have htake : ((w ++ v ++ g).take (w.length + g.length)).length = w.length + g.length := by
    rw [List.length_take, hlen]
    exact Nat.min_eq_left (Nat.le_add_right _ _)
  refine ⟨(w ++ v ++ g).take (w.length + g.length), htake, ?_⟩
  have hmid : p = (u ++ (w ++ v ++ g).take (w.length + g.length)) ++
      (w ++ v ++ g).drop (w.length + g.length) ++ [] := by
    rw [List.append_nil, List.append_assoc, List.take_append_drop, hp]
    simp only [List.append_assoc]
  have hd : d = (u ++ (w ++ v ++ g).take (w.length + g.length)).length := by
    rw [List.length_append, htake, hdest, Nat.add_assoc]
  have hmove := copyAt_mid hmid hd
    (show v.length = _ by rw [List.length_drop, hlen, Nat.add_sub_cancel_left])
  rw [moveWithin, hslice, hmove, List.append_nil]

/-- Moving the tail down over `g` leaves `g.length` stale elements at the end. -/
theorem moveWithin_down {p u g v t : List α} {d s n : ℕ}
    (hp : p = u ++ g ++ v ++ t) (hdest : d = u.length)
    (hsrc : s = u.length + g.length) (hn : n = v.length) :
    ∃ stale : List α, stale.length = g.length ∧
      moveWithin p d s n = u ++ v ++ (stale ++ t) := by
  have hslice : sliceAt p s n = v :=
    sliceAt_mid hp (by rw [hsrc, List.length_append]) hn
  refine ⟨(g ++ v).drop v.length, ?_, ?_⟩
  · rw [List.length_drop, List.length_append, Nat.add_sub_cancel]
  · have hmid : p = u ++ (g ++ v).take v.length ++
        ((g ++ v).drop v.length ++ t) := by
      calc p = u ++ (g ++ v) ++ t := by rw [hp, List.append_assoc u g v]
        _ = _ := by
          nth_rewrite 1 [← List.take_append_drop v.length (g ++ v)]
          simp only [List.append_assoc]
    rw [moveWithin, hslice]
    refine copyAt_mid hmid hdest ?_
    rw [List.length_take, List.length_append]
    exact (Nat.min_eq_left (Nat.le_add_left _ _)).symm

theorem resize_of_le {f : ℕ → α} {p : List α} {n : ℕ} (h : n ≤ p.length) :
    resize f p n = p.take n := by
  rw [resize, Nat.sub_eq_zero_of_le h]
  exact List.append_nil _

theorem resize_shrink {f : ℕ → α} {p u v : List α} {n : ℕ} (hp : p = u ++ v)
    (hn : n = u.length) : resize f p n = u := by
  subst hp hn
  rw [resize_of_le (by simp), List.take_left]

theorem resize_grow (f : ℕ → α) (p : List α) {n : ℕ} (h : p.length ≤ n) :
    ∃ gained : List α, gained.length = n - p.length ∧ resize f p n = p ++ gained := by
  refine ⟨(List.range' p.length (n - p.length)).map f, ?_, ?_⟩
  · rw [List.length_map, List.length_range']
  · rw [resize, List.take_of_length_le h]

/-- The four bytes of a double word. -/
def dword (n : ℕ) : List UInt8 :=
  [UInt8.ofNat n, UInt8.ofNat (n / 256), UInt8.ofNat (n / 65536), UInt8.ofNat (n / 16777216)]

/-- The double word at `off`. -/
def getDword (p : List UInt8) (off : ℕ) : ℕ :=
  (p.getD off 0).toNat + 256 * (p.getD (off + 1) 0).toNat +
    65536 * (p.getD (off + 2) 0).toNat + 16777216 * (p.getD (off + 3) 0).toNat

@[simp] theorem length_dword (n : ℕ) : (dword n).length = 4 := rfl

theorem getDword_mid {p u v : List UInt8} {off n : ℕ} (hp : p = u ++ dword n ++ v)
    (hoff : off = u.length) (hn : n < 2 ^ 32) : getDword p off = n := by
  subst hp hoff
  have hget (i : ℕ) (hi : i < 4) :
      (u ++ dword n ++ v).getD (u.length + i) 0 = (dword n).getD i 0 := by
    rw [List.append_assoc, List.getD_append_right _ _ _ _ (Nat.le_add_right _ _),
      Nat.add_sub_cancel_left, List.getD_append _ _ _ _ hi]
  have h0 := hget 0 (by decide)
  have h1 := hget 1 (by decide)
  have h2 := hget 2 (by decide)
  have h3 := hget 3 (by decide)
  simp only [Nat.add_zero] at h0
  rw [getDword, h0, h1, h2, h3]
  simp only [dword, List.getD_cons_zero, List.getD_cons_succ, UInt8.toNat_ofNat']
  omega

end NtAdmin.Lib
