import NtAdmin.Drizzle.Newjob.Metadata

/-! What the functions of `CQmgrStateFiles` keep, whichever of their requests fails. -/
namespace NtAdmin.Drizzle.Newjob.StateFiles

open NtAdmin.Lib NtAdmin.Lib.Prog

/-- Cutting or filling file `i` to `n` bytes leaves the committed image whole. -/
def Fits (w : World) (i : Fin 2) (n : ℕ) : Prop :=
  METADATA_PADDING ≤ n ∧ (i = selected w.registry → ∀ image ∈ w.committed, image.length ≤ n)

/-- What holds of a running service between any two requests. -/
structure Live (w : World) : Prop where
  current : w.m_CurrentIndex = selected w.registry
  room : ∀ i, METADATA_PADDING ≤ (w.files i).length
  original : ∀ i, w.m_ExpandSize i ≠ 0 → Fits w i (w.m_OriginalFileSizes i)
  kept : Kept w

/-- What holds of the files and the registry alone. -/
structure Durable (w : World) : Prop where
  kept : Kept w
  room : w.committed ≠ none → METADATA_PADDING ≤ (w.files (selected w.registry)).length

theorem Live.durable {w : World} (h : Live w) : Durable w := ⟨h.kept, fun _ => h.room _⟩

theorem Live.of_eq {w v : World} (h : Live w) (hf : v.files = w.files)
    (hr : v.registry = w.registry) (he : v.m_ExpandSize = w.m_ExpandSize)
    (ho : v.m_OriginalFileSizes = w.m_OriginalFileSizes)
    (hc : v.m_CurrentIndex = w.m_CurrentIndex) (hk : v.committed = w.committed) : Live v := by
  cases w
  cases v
  subst hf hr he ho hc hk
  exact ⟨h.current, h.room, h.original, h.kept⟩

theorem Durable.of_eq {w w' : World} (h : Durable w) (hf : w'.files = w.files)
    (hr : w'.registry = w.registry) (hk : w'.committed = w.committed) : Durable w' := by
  cases w
  cases w'
  subst hf hr hk
  exact ⟨h.kept, h.room⟩

section files
variable {w : World} {i : Fin 2} {f : List UInt8}

theorem Live.setFile (h : Live w) (hl : METADATA_PADDING ≤ f.length)
    (hk : i = selected w.registry → ∀ image ∈ w.committed, image <+: f) :
    Live { w with files := Function.update w.files i f } := by
  constructor
  · exact h.current
  · intro j
    by_cases hj : j = i
    · subst hj
      simpa using hl
    · simpa [Function.update_of_ne hj] using h.room j
  · exact h.original
  · intro image himage
    by_cases hj : selected w.registry = i
    · simpa [hj] using hk hj.symm image himage
    · simpa [Function.update_of_ne hj] using h.kept image himage

@[simp] theorem length_setEnd (f : List UInt8) (n : ℕ) : (setEnd f n).length = n := by
  simp [setEnd]
  omega

theorem isPrefix_setEnd {image f : List UInt8} {n : ℕ} (h : image <+: f) (hn : image.length ≤ n) :
    image <+: setEnd f n := by
  obtain ⟨rest, rfl⟩ := h
  unfold setEnd
  rw [List.take_append, List.take_of_length_le hn, List.append_assoc]
  exact List.prefix_append _ _

theorem Live.setEnd {n : ℕ} (h : Live w) (hn : Fits w i n) :
    Live { w with files := Function.update w.files i (setEnd (w.files i) n) } := by
  apply h.setFile
  · rw [length_setEnd]
    exact hn.1
  · intro hi image himage
    have hk : image <+: w.files i := by
      rw [hi]
      exact h.kept image himage
    exact isPrefix_setEnd hk (hn.2 hi image himage)

theorem Live.fits_size (h : Live w) (i : Fin 2) : Fits w i (w.files i).length := by
  constructor
  · exact h.room i
  · rintro rfl image himage
    exact (h.kept image himage).length_le

theorem Live.resetSizes (h : Live w) (i : Fin 2) : Live (w.resetSizes i) := by
  constructor
  · exact h.current
  · exact h.room
  · intro j hj
    by_cases hji : j = i
    · subst hji
      simp [World.resetSizes] at hj
    · simp only [World.resetSizes, Function.update_of_ne hji] at hj ⊢
      exact h.original j hj
  · exact h.kept

theorem Fits.mono {n n' : ℕ} (h : Fits w i n) (hn : n ≤ n') : Fits w i n' :=
  ⟨Nat.le_trans h.1 hn, fun hi image himage => Nat.le_trans (h.2 hi image himage) hn⟩

theorem fits_of_ne {n : ℕ} (hi : i ≠ selected w.registry) (hn : METADATA_PADDING ≤ n) :
    Fits w i n := ⟨hn, fun h => absurd h hi⟩

end files

section rules
variable {α : Type} {w : World} {E : Stop → World → Prop} {i : Fin 2}

theorem wp_catchCom {Q : α → World → Prop} (m h : Op α) :
    wp (catchCom m h) Q E w ↔
      wp m Q (fun e w' => (e = .comError → wp h Q E w') ∧ (e = .crash → E .crash w')) w := by
  unfold catchCom
  rw [wp_tryCatch]
  constructor <;> intro hm <;> apply wp_mono hm
  · intro a w' ha
    exact ha
  · rintro (_ | _) w' he <;> simpa using he
  · intro a w' ha
    exact ha
  · rintro (_ | _) w' he <;> simpa using he

theorem wp_nextFate {Q : Fate → World → Prop} :
    wp nextFate Q E w ↔ Q (w.fates.headD .done) { w with fates := w.fates.tail } := Iff.rfl

theorem wp_request {Q : Unit → World → Prop} (hQ : ∀ fs, Q () { w with fates := fs })
    (hE : ∀ e fs, E e { w with fates := fs }) : wp request Q E w := by
  unfold request
  rw [wp_bind, wp_nextFate]
  cases w.fates.headD .done with
  | done => exact hQ _
  | fails torn => exact hE _ _
  | crash => exact hE _ _

theorem wp_bitsSetFilePointer {Q : ℤ → World → Prop} {offset : ℤ} {method : MoveMethod}
    (hQ : ∀ fs, 0 ≤ w.base i method + offset → Q (w.base i method + offset) { w with
      fates := fs
      pointers := Function.update w.pointers i (w.base i method + offset).toNat })
    (hE : ∀ e fs, E e { w with fates := fs }) :
    wp (bitsSetFilePointer i offset method) Q E w := by
  unfold bitsSetFilePointer
  rw [wp_bind]
  refine wp_request (fun fs => ?_) hE
  rw [wp_bind, wp_get]
  show wp (if w.base i method + offset < 0 then throw .comError else _) Q E _
  rw [wp_ite]
  constructor
  · intro _
    exact hE _ fs
  · intro hn
    rw [wp_bind, wp_modify, wp_pure]
    exact hQ fs (by omega)

theorem wp_bitsSetEndOfFile {Q : Unit → World → Prop}
    (hQ : ∀ fs, Q () { w with
      fates := fs
      files := Function.update w.files i (setEnd (w.files i) (w.pointers i)) })
    (hE : ∀ e fs, E e { w with fates := fs }) : wp (bitsSetEndOfFile i) Q E w := by
  unfold bitsSetEndOfFile
  rw [wp_bind]
  refine wp_request (fun fs => ?_) hE
  rw [wp_modify]
  exact hQ fs

theorem wp_bitsGetFileSize {Q : ℕ → World → Prop}
    (hQ : ∀ fs, Q (w.files i).length { w with fates := fs })
    (hE : ∀ e fs, E e { w with fates := fs }) : wp (bitsGetFileSize i) Q E w := by
  unfold bitsGetFileSize
  rw [wp_bind]
  refine wp_request (fun fs => ?_) hE
  rw [wp_bind, wp_get, wp_pure]
  exact hQ fs

/-- A file with `bs` written at its pointer. -/
def World.written (w : World) (i : Fin 2) (bs : List UInt8) : World :=
  { w with
    files := Function.update w.files i (writeAt 0 (w.files i) (w.pointers i) bs)
    pointers := Function.update w.pointers i (w.pointers i + bs.length) }

theorem wp_safeWriteFile {Q : Unit → World → Prop} {bs : List UInt8}
    (hQ : ∀ fs, Q () (World.written { w with fates := fs } i bs))
    (hE : ∀ e fs torn, E e (World.written { w with fates := fs } i (bs.take torn))) :
    wp (safeWriteFile i bs) Q E w := by
  unfold safeWriteFile
  rw [wp_bind, wp_nextFate]
  cases w.fates.headD .done with
  | done => exact hQ _
  | fails torn => exact hE _ _ _
  | crash =>
    have h := hE .crash w.fates.tail 0
    simpa [World.written] using h

end rules

end NtAdmin.Drizzle.Newjob.StateFiles
