import Mathlib.Logic.Basic

/-! Programs over a state that survives a failure, with their weakest preconditions. -/
namespace NtAdmin.Lib

/-- A program ends in a value or in an error; the changes it made before an error stay. -/
def Prog (σ ε α : Type) : Type := σ → Except ε α × σ

/-- A part of a state that can be read and replaced. -/
structure Lens (σ τ : Type) where
  get : σ → τ
  set : τ → σ → σ
  get_set : ∀ t s, get (set t s) = t
  set_get : ∀ s, set (get s) s = s
  set_set : ∀ t u s, set t (set u s) = set t s

attribute [simp] Lens.get_set Lens.set_get Lens.set_set

namespace Prog
variable {σ τ ε α β : Type}

instance : Monad (Prog σ ε) where
  pure a := fun s => (.ok a, s)
  bind m f := fun s =>
    match m s with
    | (.ok a, s') => f a s'
    | (.error e, s') => (.error e, s')

instance : MonadStateOf σ (Prog σ ε) where
  get := fun s => (.ok s, s)
  set s := fun _ => (.ok (), s)
  modifyGet f := fun s => (.ok (f s).1, (f s).2)

instance : MonadExceptOf ε (Prog σ ε) where
  throw e := fun s => (.error e, s)
  tryCatch m h := fun s =>
    match m s with
    | (.ok a, s') => (.ok a, s')
    | (.error e, s') => h e s'

theorem bind_of_ok {m : Prog σ ε α} {f : α → Prog σ ε β} {s s' : σ} {a : α}
    (h : m s = (.ok a, s')) : (m >>= f) s = f a s' := by
  have hb : (m >>= f) s = match m s with
    | (.ok a, s') => f a s'
    | (.error e, s') => (.error e, s') := rfl
  rw [hb, h]

/-- Run a program on a part of the state. -/
def zoom (l : Lens σ τ) (m : Prog τ ε α) : Prog σ ε α := fun s =>
  ((m (l.get s)).1, l.set (m (l.get s)).2 s)

/-- The state after a program, whatever its result. -/
def after (m : Prog σ ε α) (s : σ) : σ := (m s).2

/-- The result of a program, whatever it does to the state. -/
def result (m : Prog σ ε α) (s : σ) : Except ε α := (m s).1

/-- `Q` holds of the value and the state if the program succeeds, `E` of the error and the
state if it fails. -/
def wp (m : Prog σ ε α) (Q : α → σ → Prop) (E : ε → σ → Prop) (s : σ) : Prop :=
  match m s with
  | (.ok a, s') => Q a s'
  | (.error e, s') => E e s'

section rules
variable {Q : α → σ → Prop} {E : ε → σ → Prop} {s : σ}

@[simp] theorem wp_pure (a : α) : wp (pure a : Prog σ ε α) Q E s ↔ Q a s := Iff.rfl

@[simp] theorem wp_throw (e : ε) : wp (throw e : Prog σ ε α) Q E s ↔ E e s := Iff.rfl

@[simp] theorem wp_get {Q : σ → σ → Prop} : wp (get : Prog σ ε σ) Q E s ↔ Q s s := Iff.rfl

@[simp] theorem wp_set {Q : Unit → σ → Prop} (t : σ) :
    wp (set t : Prog σ ε Unit) Q E s ↔ Q () t := Iff.rfl

@[simp] theorem wp_modify {Q : PUnit → σ → Prop} (f : σ → σ) :
    wp (modify f : Prog σ ε PUnit) Q E s ↔ Q ⟨⟩ (f s) := Iff.rfl

@[simp] theorem wp_bind {Q : β → σ → Prop} (m : Prog σ ε α) (f : α → Prog σ ε β) :
    wp (m >>= f) Q E s ↔ wp m (fun a => wp (f a) Q E) E s := by
  have hb : (m >>= f) s = match m s with
    | (.ok a, s') => f a s'
    | (.error e, s') => (.error e, s') := rfl
  unfold wp
  rw [hb]
  rcases m s with ⟨_ | _, _⟩ <;> rfl

@[simp] theorem wp_tryCatch (m : Prog σ ε α) (h : ε → Prog σ ε α) :
    wp (tryCatch m h) Q E s ↔ wp m Q (fun e => wp (h e) Q E) s := by
  have hb : (tryCatch m h : Prog σ ε α) s = match m s with
    | (.ok a, s') => (.ok a, s')
    | (.error e, s') => h e s' := rfl
  unfold wp
  rw [hb]
  rcases m s with ⟨_ | _, _⟩ <;> rfl

@[simp] theorem wp_ite (c : Prop) [Decidable c] (m n : Prog σ ε α) :
    wp (if c then m else n) Q E s ↔ (c → wp m Q E s) ∧ (¬c → wp n Q E s) := by
  by_cases h : c <;> simp [h]

theorem wp_zoom {Q : α → σ → Prop} (l : Lens σ τ) (m : Prog τ ε α) :
    wp (zoom l m) Q E s ↔
      wp m (fun a t => Q a (l.set t s)) (fun e t => E e (l.set t s)) (l.get s) := by
  unfold wp
  simp only [zoom]
  rcases m (l.get s) with ⟨_ | _, _⟩ <;> rfl

theorem wp_mono {m : Prog σ ε α} {Q' : α → σ → Prop} {E' : ε → σ → Prop} (h : wp m Q E s)
    (hQ : ∀ a s', Q a s' → Q' a s') (hE : ∀ e s', E e s' → E' e s') : wp m Q' E' s := by
  unfold wp at *
  rcases hm : m s with ⟨_ | _, _⟩ <;> simp only [hm] at h ⊢
  · exact hE _ _ h
  · exact hQ _ _ h

theorem wp_and {m : Prog σ ε α} {Q' : α → σ → Prop} {E' : ε → σ → Prop} (h : wp m Q E s)
    (h' : wp m Q' E' s) : wp m (fun a t => Q a t ∧ Q' a t) (fun e t => E e t ∧ E' e t) s := by
  unfold wp at *
  rcases hm : m s with ⟨_ | _, _⟩ <;> simp only [hm] at h h' ⊢ <;> exact ⟨h, h'⟩

/-- A program ends in its own result and state. -/
theorem wp_run (m : Prog σ ε α) (s : σ) :
    wp m (fun a t => m.result s = .ok a ∧ m.after s = t)
      (fun e t => m.result s = .error e ∧ m.after s = t) s := by
  unfold wp result after
  rcases m s with ⟨_ | _, _⟩ <;> exact ⟨rfl, rfl⟩

/-- What a program ensures of its final state in both cases holds of the state after it. -/
theorem after_of_wp {m : Prog σ ε α} {P : σ → Prop} (h : wp m (fun _ => P) (fun _ => P) s) :
    P (m.after s) := by
  unfold wp at h
  unfold after
  rcases hm : m s with ⟨_ | _, _⟩ <;> simpa only [hm] using h

theorem wp_result {m : Prog σ ε α} :
    wp m Q E s ↔ (∀ a, m.result s = .ok a → Q a (m.after s)) ∧
      (∀ e, m.result s = .error e → E e (m.after s)) := by
  unfold wp result after
  rcases m s with ⟨_ | _, _⟩ <;> simp

/-- A program that does not ensure `Q` succeeds without it. -/
theorem wp_of_not {m : Prog σ ε α} (h : ¬wp m Q (fun _ _ => True) s) :
    wp m (fun a t => ¬Q a t) (fun _ _ => False) s := by
  unfold wp at *
  rcases hm : m s with ⟨_ | _, _⟩ <;> simp only [hm] at h ⊢
  · exact h trivial
  · exact h

end rules

/-- A program leaves a part of the state as it is, whatever its result. -/
def Keeps (f : σ → τ) (m : Prog σ ε α) : Prop := ∀ s, f (m.after s) = f s

section keeps
variable {f : σ → τ}

theorem keeps_pure (a : α) : Keeps f (pure a : Prog σ ε α) := fun _ => rfl

theorem keeps_throw (e : ε) : Keeps f (throw e : Prog σ ε α) := fun _ => rfl

theorem keeps_get : Keeps f (get : Prog σ ε σ) := fun _ => rfl

theorem keeps_modify {g : σ → σ} (h : ∀ s, f (g s) = f s) :
    Keeps f (modify g : Prog σ ε PUnit) := h

theorem Keeps.bind {m : Prog σ ε α} {k : α → Prog σ ε β} (hm : Keeps f m)
    (hk : ∀ a, Keeps f (k a)) : Keeps f (m >>= k) := by
  intro s
  have hs := hm s
  have hb : (m >>= k) s = match m s with
    | (.ok a, s') => k a s'
    | (.error e, s') => (.error e, s') := rfl
  unfold after at hs ⊢
  rw [hb]
  rcases hms : m s with ⟨_ | a, s'⟩ <;> rw [hms] at hs
  · exact hs
  · exact (hk a s').trans hs

theorem Keeps.tryCatch {m : Prog σ ε α} {k : ε → Prog σ ε α} (hm : Keeps f m)
    (hk : ∀ e, Keeps f (k e)) : Keeps f (tryCatch m k : Prog σ ε α) := by
  intro s
  have hs := hm s
  have hb : (MonadExcept.tryCatch m k : Prog σ ε α) s = match m s with
    | (.ok a, s') => (.ok a, s')
    | (.error e, s') => k e s' := rfl
  unfold after at hs ⊢
  rw [hb]
  rcases hms : m s with ⟨e | _, s'⟩ <;> rw [hms] at hs
  · exact (hk e s').trans hs
  · exact hs

theorem Keeps.ite {c : Prop} [Decidable c] {m n : Prog σ ε α} (hm : Keeps f m) (hn : Keeps f n) :
    Keeps f (if c then m else n) := by
  by_cases h : c
  · rwa [if_pos h]
  · rwa [if_neg h]

end keeps

end Prog

/-- Every command of `cs` meets `ok` in the state it starts in. -/
def Along {σ κ : Type} (step : κ → σ → σ) (ok : κ → σ → Prop) : List κ → σ → Prop
  | [], _ => True
  | c :: cs, s => ok c s ∧ Along step ok cs (step c s)

/-- The state after the commands `cs`, one after the other. -/
def runAll {σ κ : Type} (step : κ → σ → σ) : List κ → σ → σ
  | [], s => s
  | c :: cs, s => runAll step cs (step c s)

section runs
variable {σ κ : Type} {step : κ → σ → σ} {ok : κ → σ → Prop} {I : σ → Prop}

theorem runAll_append (cs ds : List κ) (s : σ) :
    runAll step (cs ++ ds) s = runAll step ds (runAll step cs s) := by
  induction cs generalizing s with
  | nil => rfl
  | cons c cs ih => exact ih (step c s)

theorem along_append (cs ds : List κ) (s : σ) :
    Along step ok (cs ++ ds) s ↔ Along step ok cs s ∧ Along step ok ds (runAll step cs s) := by
  induction cs generalizing s with
  | nil => simp [Along, runAll]
  | cons c cs ih => simp only [List.cons_append, Along, runAll, ih, and_assoc]

theorem Along.mono {ok' : κ → σ → Prop} (h : ∀ c s, ok c s → ok' c s) {cs : List κ} {s : σ}
    (hs : Along step ok cs s) : Along step ok' cs s := by
  induction cs generalizing s with
  | nil => trivial
  | cons c cs ih => exact ⟨h c s hs.1, ih hs.2⟩

theorem along_of_forall (h : ∀ c s, ok c s) (cs : List κ) (s : σ) : Along step ok cs s := by
  induction cs generalizing s with
  | nil => trivial
  | cons c cs ih => exact ⟨h c s, ih (step c s)⟩

/-- An invariant that every admissible command keeps holds after every admissible run. -/
theorem runAll_invariant (hstep : ∀ c s, ok c s → I s → I (step c s)) {cs : List κ} {s : σ}
    (hs : I s) (hcs : Along step ok cs s) : I (runAll step cs s) := by
  induction cs generalizing s with
  | nil => exact hs
  | cons c cs ih => exact ih (hstep c s hcs.1 hs) hcs.2

end runs

end NtAdmin.Lib
