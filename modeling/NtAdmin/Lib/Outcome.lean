import Mathlib.Data.Nat.Notation

/-! Steps that may fail: what their parts gave, and what a run of them keeps. -/
namespace NtAdmin.Lib

universe u v w
variable {ε ε' : Type u} {α β : Type v}

theorem eq_ok_of_bind {x : Except ε α} {f : α → Except ε β} {r : β} (h : x >>= f = .ok r) :
    ∃ a, x = .ok a ∧ f a = .ok r := by
  cases x with
  | error e => cases h
  | ok a => exact ⟨a, rfl, h⟩

theorem eq_ok_of_mapError {x : Except ε α} {f : ε → ε'} {a : α} (h : x.mapError f = .ok a) :
    x = .ok a := by
  cases x with
  | error e => cases h
  | ok a' => rw [Except.ok.inj h]

/-- What every step keeps of a state and of what it stands for, a run that succeeds keeps. `R n` is about
the states after `n` steps, of which there are `N` at most. -/
theorem foldlM_refines {κ : Type w} {τ : Type v} {step : α → κ → Except ε α} {after : τ → κ → τ}
    {R : ℕ → α → τ → Prop} {N : ℕ}
    (hstep : ∀ n s e t m, n < N → R n s m → step s e = .ok t → R (n + 1) t (after m e))
    {events : List κ} {n : ℕ} {s t : α} {m : τ} (hN : n + events.length ≤ N) (hs : R n s m)
    (hrun : events.foldlM step s = .ok t) : R (n + events.length) t (events.foldl after m) := by
  induction events generalizing n s m with
  | nil =>
    rw [← Except.ok.inj hrun]
    exact hs
  | cons e events ih =>
    rw [List.length_cons, Nat.add_comm events.length, ← Nat.add_assoc] at hN ⊢
    rw [List.foldlM_cons] at hrun
    obtain ⟨r, hr, hrun⟩ := eq_ok_of_bind hrun
    exact ih hN (hstep n s e r m (by omega) hs hr) hrun

end NtAdmin.Lib
