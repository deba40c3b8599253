import Mathlib.Init

/-! Runs of a system whose events cannot always happen. -/
namespace NtAdmin.Lib

universe v w
variable {σ : Type v} {κ : Type w} (step : σ → κ → Option σ)

/-- The state after a run, if all its events can happen. -/
def runEvents (s : σ) (events : List κ) : Option σ := events.foldlM step s

/-- `P` holds in every state of the run, as far as its events can happen. -/
def Always (P : σ → Prop) : σ → List κ → Prop
  | s, [] => P s
  | s, e :: events => P s ∧ ∀ t, step s e = some t → Always P t events

/-- Every event of the run that happens meets the condition then. -/
def StepsMeet (ok : σ → κ → Prop) : σ → List κ → Prop
  | _, [] => True
  | s, e :: events => ∀ t, step s e = some t → ok s e ∧ StepsMeet ok t events

variable {step} {P I : σ → Prop} {ok : σ → κ → Prop} {s t : σ} {events : List κ}

theorem Always.first (h : Always step P s events) : P s := by
  cases events with
  | nil => exact h
  | cons e events => exact h.1

theorem Always.run (h : Always step P s events) (ht : runEvents step s events = some t) : P t := by
  induction events generalizing s with
  | nil =>
    rw [← Option.some.inj ht]
    exact h
  | cons e events ih =>
    unfold runEvents at ht
    rw [List.foldlM_cons, Option.bind_eq_bind, Option.bind_eq_some_iff] at ht
    obtain ⟨r, hr, ht⟩ := ht
    exact ih (h.2 r hr) ht

/-- What holds at first, is kept by every step and implies the property. -/
theorem always_of_invariant (hproperty : ∀ s, I s → P s)
    (hstep : ∀ s e t, I s → step s e = some t → I t) (hs : I s) (events : List κ) :
    Always step P s events := by
  induction events generalizing s with
  | nil => exact hproperty s hs
  | cons e events ih =>
    exact ⟨hproperty s hs, fun t ht => ih (hstep s e t hs ht)⟩

/-- A condition on steps that keeps the invariant, and without which a step breaks the property, is
exactly when the property always holds. -/
theorem always_iff_stepsMeet (hproperty : ∀ s, I s → P s)
    (hkeep : ∀ s e t, I s → ok s e → step s e = some t → I t)
    (hexact : ∀ s e t, I s → step s e = some t → P t → ok s e) (hs : I s) (events : List κ) :
    Always step P s events ↔ StepsMeet step ok s events := by
  induction events generalizing s with
  | nil => exact iff_of_true (hproperty s hs) trivial
  | cons e events ih =>
    constructor
    · intro h t ht
      have hrest := h.2 t ht
      have hok := hexact s e t hs ht hrest.first
      exact ⟨hok, (ih (hkeep s e t hs hok ht)).mp hrest⟩
    · intro h
      refine ⟨hproperty s hs, fun t ht => ?_⟩
      obtain ⟨hok, hrest⟩ := h t ht
      exact (ih (hkeep s e t hs hok ht)).mpr hrest

end NtAdmin.Lib
