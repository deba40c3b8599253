import Mathlib.Order.Lattice
import NtAdmin.Lib.Reader

/-! An image in memory that is read from a position on, where an access beyond its end is an outcome
of its own. -/
namespace NtAdmin.Lib

inductive Access (ε α : Type)
  | outside
  | fail (e : ε)
  | ok (a : α)
  deriving DecidableEq

/-- The result comes with the new position. -/
def ImageReader (ε α : Type) : Type := List UInt8 → ℕ → Access ε (α × ℕ)

namespace ImageReader
variable {ε α β : Type}

instance : Monad (ImageReader ε) where
  pure a := fun _ p => .ok (a, p)
  bind m f := fun img p =>
    match m img p with
    | .ok (a, p') => f a img p'
    | .fail e => .fail e
    | .outside => .outside

def reject (e : ε) : ImageReader ε α := fun _ _ => .fail e

def position : ImageReader ε ℕ := fun _ p => .ok (p, p)

/-- The `n` bytes at `q`, unchecked. -/
def copyFrom (q n : ℕ) : ImageReader ε (List UInt8) := fun img p =>
  if q + n ≤ img.length then .ok ((img.drop q).take n, p) else .outside

/-- The position moves in any case. The result tells whether it is still in the image. -/
def advance (n : ℕ) : ImageReader ε Bool := fun img p => .ok (decide (p + n ≤ img.length), p + n)

/-- The next `n` bytes, if there are as many. -/
def read (n : ℕ) : ImageReader ε (Option (List UInt8)) := fun img p =>
  if p + n ≤ img.length then .ok (some ((img.drop p).take n), p + n) else .ok (none, p)

/-- The next `n` bytes, or `e` if there are not as many. -/
def readOr (e : ε) (n : ℕ) : ImageReader ε (List UInt8) := do
  match ← read n with
  | some bs => pure bs
  | none => reject e

/-- The same, where the bytes are copied after the position has moved over them. -/
def advanceOr (e : ε) (n : ℕ) : ImageReader ε (List UInt8) := do
  let q ← position
  if ← advance n then copyFrom q n else reject e

section steps
variable {m : ImageReader ε α} {f : α → ImageReader ε β} {img : List UInt8} {p p' : ℕ} {a : α}

theorem bind_ok (h : m img p = .ok (a, p')) : (m >>= f) img p = f a img p' := by
  show (match m img p with
    | .ok (a, p') => f a img p'
    | .fail e => .fail e
    | .outside => .outside) = _
  rw [h]

theorem bind_fail {e : ε} (h : m img p = .fail e) : (m >>= f) img p = .fail e := by
  show (match m img p with
    | .ok (a, p') => f a img p'
    | .fail e => .fail e
    | .outside => .outside) = _
  rw [h]

theorem readOr_eq (e : ε) (n : ℕ) : readOr e n img p =
    if p + n ≤ img.length then .ok ((img.drop p).take n, p + n) else .fail e := by
  unfold readOr
  by_cases h : p + n ≤ img.length
  · rw [if_pos h, bind_ok (show read n img p = _ from if_pos h)]
    rfl
  · rw [if_neg h, bind_ok (show read n img p = _ from if_neg h)]
    rfl

theorem advanceOr_eq (e : ε) (n : ℕ) : advanceOr e n img p =
    if p + n ≤ img.length then .ok ((img.drop p).take n, p + n) else .fail e := by
  unfold advanceOr
  rw [bind_ok (show position img p = .ok (p, p) from rfl)]
  rw [bind_ok (show advance n img p = .ok (decide (p + n ≤ img.length), p + n) from rfl)]
  by_cases h : p + n ≤ img.length
  · rw [if_pos h, if_pos (decide_eq_true h)]
    exact if_pos h
  · rw [if_neg h, if_neg (by simpa using h)]
    rfl

end steps

/-! ### Accesses within the image -/

/-- Whatever the image and the position, nothing beyond the end is read. -/
def Inside (m : ImageReader ε α) : Prop := ∀ img p, m img p ≠ .outside

theorem Inside.pure (a : α) : Inside (pure a : ImageReader ε α) := fun _ _ => nofun

theorem Inside.reject (e : ε) : Inside (reject e : ImageReader ε α) := fun _ _ => nofun

theorem Inside.read (n : ℕ) : Inside (read n : ImageReader ε (Option (List UInt8))) := by
  intro img p
  unfold ImageReader.read
  split_ifs <;> nofun

theorem Inside.position : Inside (position : ImageReader ε ℕ) := fun _ _ => nofun

theorem Inside.advance (n : ℕ) : Inside (advance n : ImageReader ε Bool) := fun _ _ => nofun

theorem Inside.bind {m : ImageReader ε α} {f : α → ImageReader ε β} (hm : Inside m)
    (hf : ∀ a, Inside (f a)) : Inside (m >>= f) := by
  intro img p
  show (match m img p with
    | .ok (a, p') => f a img p'
    | .fail e => .fail e
    | .outside => .outside) ≠ .outside
  cases h : m img p with
  | outside => exact absurd h (hm img p)
  | fail e => nofun
  | ok r => exact hf r.1 img r.2

theorem Inside.readOr (e : ε) (n : ℕ) : Inside (readOr e n) := by
  intro img p
  rw [readOr_eq]
  split_ifs <;> nofun

theorem Inside.advanceOr (e : ε) (n : ℕ) : Inside (advanceOr e n) := by
  intro img p
  rw [advanceOr_eq]
  split_ifs <;> nofun

/-! ### What a writer left -/

/-- Where `bs` stand in an image, `m` reads just them and returns `a`; where the image ends within
them, `m` fails with `e`. -/
structure Parses (e : ε) (m : ImageReader ε α) (bs : List UInt8) (a : α) : Prop where
  reads : ∀ pre post, m (pre ++ (bs ++ post)) pre.length = .ok (a, pre.length + bs.length)
  short : ∀ pre n, n < bs.length → m (pre ++ bs.take n) pre.length = .fail e

section rules
variable {e : ε} {bs cs : List UInt8} {a : α} {b : β}

theorem Parses.pure (a : α) : Parses e (pure a : ImageReader ε α) [] a :=
  { reads := fun _ _ => rfl
    short := fun _ n hn => absurd hn (Nat.not_lt_zero n) }

theorem Parses.bind {m : ImageReader ε α} {f : α → ImageReader ε β} (hm : Parses e m bs a)
    (hf : Parses e (f a) cs b) : Parses e (m >>= f) (bs ++ cs) b := by
  constructor
  · intro pre post
    have h₁ := hm.reads pre (cs ++ post)
    have h₂ := hf.reads (pre ++ bs) post
    rw [List.length_append, List.append_assoc] at h₂
    rw [List.append_assoc bs, bind_ok h₁, h₂, List.length_append, Nat.add_assoc]
  · intro pre n hn
    by_cases hlt : n < bs.length
    · rw [List.take_append_of_le_length (Nat.le_of_lt hlt)]
      exact bind_fail (hm.short pre n hlt)
    · have hsplit : n = bs.length + (n - bs.length) := by omega
      rw [List.length_append] at hn
      rw [hsplit, List.take_length_add_append]
      have h₁ := hm.reads pre (cs.take (n - bs.length))
      have h₂ := hf.short (pre ++ bs) (n - bs.length) (by omega)
      rw [List.length_append, List.append_assoc] at h₂
      rw [bind_ok h₁, h₂]

/-- A last step that reads nothing. -/
theorem Parses.map {m : ImageReader ε α} {f : α → ImageReader ε β} (hm : Parses e m bs a)
    (hf : Parses e (f a) [] b) : Parses e (m >>= f) bs b := by
  have h := hm.bind hf
  rwa [List.append_nil] at h

/-- A first step that reads nothing. -/
theorem Parses.bind_nil {m : ImageReader ε α} {f : α → ImageReader ε β} (hm : Parses e m [] a)
    (hf : Parses e (f a) cs b) : Parses e (m >>= f) cs b := hm.bind hf

theorem parses_of_eq {m : ImageReader ε (List UInt8)} {n : ℕ} (hn : bs.length = n)
    (h : ∀ img p, m img p =
      if p + n ≤ img.length then .ok ((img.drop p).take n, p + n) else .fail e) :
    Parses e m bs bs := by
  constructor
  · intro pre post
    have hle : pre.length + n ≤ (pre ++ (bs ++ post)).length := by
      simp only [List.length_append]
      omega
    rw [h, if_pos hle, List.drop_left, ← hn, List.take_left]
  · intro pre k hk
    have hnot : ¬pre.length + n ≤ (pre ++ bs.take k).length := by
      rw [List.length_append, List.length_take]
      omega
    rw [h, if_neg hnot]

theorem parses_readOr {n : ℕ} (hn : bs.length = n) : Parses e (readOr e n) bs bs :=
  parses_of_eq hn fun _ _ => readOr_eq e n

theorem parses_advanceOr {n : ℕ} (hn : bs.length = n) : Parses e (advanceOr e n) bs bs :=
  parses_of_eq hn fun _ _ => advanceOr_eq e n

end rules

end ImageReader

/-! ### Records -/

/-- The fields of a record, by their sizes. -/
def fieldsOf : List ℕ → List UInt8 → List (List UInt8)
  | [], _ => []
  | n :: ns, bs => bs.take n :: fieldsOf ns (bs.drop n)

theorem fieldsOf_flatten {ns : List ℕ} {fields : List (List UInt8)}
    (h : fields.map List.length = ns) (rest : List UInt8) :
    fieldsOf ns (fields.flatten ++ rest) = fields := by
  induction fields generalizing ns with
  | nil =>
    subst h
    rfl
  | cons f fields ih =>
    subst h
    rw [List.map_cons, fieldsOf, List.flatten_cons, List.append_assoc, List.take_left,
      List.drop_left, ih rfl]

end NtAdmin.Lib
