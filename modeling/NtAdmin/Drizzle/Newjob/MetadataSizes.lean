import NtAdmin.Drizzle.Newjob.MetadataSpec

/-! Extending and shrinking the state files never cuts into the selected one. -/
namespace NtAdmin.Drizzle.Newjob.StateFiles

open NtAdmin.Lib NtAdmin.Lib.Prog

section extend
variable {w : World} {i : Fin 2}

/-- Every remembered size leaves the committed image whole. -/
def Remembered (w : World) : Prop := ∀ i, Fits w i (w.m_OriginalFileSizes i)

theorem Live.of_remembered {v : World} (h : Live w) (hr : Remembered w) (he : v =
    { w with fates := v.fates, pointers := v.pointers, m_ExpandSize := v.m_ExpandSize }) :
    Live v ∧ Remembered v := by
  rw [he]
  exact ⟨⟨h.current, h.room, fun i _ => hr i, h.kept⟩, hr⟩

theorem live_rememberSize (h : Live w) :
    wp (rememberSize i)
      (fun _ w' => Live w' ∧ Fits w' i (w'.m_OriginalFileSizes i) ∧
        ∀ j ≠ i, Fits w j (w.m_OriginalFileSizes j) → Fits w' j (w'.m_OriginalFileSizes j))
      (fun _ => Live) w := by
  unfold rememberSize
  rw [wp_bind, wp_get, wp_ite]
  constructor
  · intro he
    rw [wp_bind]
    apply wp_bitsGetFileSize
    · intro fs
      rw [wp_modify]
      have hsize := h.fits_size i
      constructor
      · constructor
        · exact h.current
        · exact h.room
        · intro j hj
          by_cases hji : j = i
          · subst hji
            exact absurd he hj
          · simp only [Function.update_of_ne hji]
            exact h.original j hj
        · exact h.kept
      · constructor
        · simp only [Function.update_self]
          exact hsize
        · intro j hj hf
          simp only [Function.update_of_ne hj]
          exact hf
    · intro e fs
      exact h.of_eq rfl rfl rfl rfl rfl rfl
  · intro he
    rw [wp_pure]
    exact ⟨h, h.original i he, fun _ _ hf => hf⟩

/-- A file that has been extended by `amount` can lose as much again. -/
def Extended (amount : ℕ) (i : Fin 2) (w : World) : Prop :=
  ∃ n, Fits w i n ∧ (w.files i).length = n + amount

theorem live_extendFile (amount : ℕ) (h : Live w) (hr : Remembered w) :
    wp (extendFile amount i)
      (fun _ w' => Live w' ∧ Remembered w' ∧ Extended amount i w')
      (fun _ w' => Live w' ∧ Remembered w' ∧ ∀ j, Extended amount j w → Extended amount j w') w := by
  have hsize := h.fits_size i
  unfold extendFile
  rw [wp_bind]
  apply wp_bitsSetFilePointer
  · intro fs _
    rw [wp_bind]
    apply wp_bitsSetEndOfFile
    · intro fs'
      rw [wp_modify]
      have hp : (w.base i .fileEnd + amount).toNat = (w.files i).length + amount := by
        simp only [World.base]
        omega
      rw [hp]
      simp only [Function.update_self]
      have hl := h.setEnd (hsize.mono (Nat.le_add_right _ amount))
      have hb := hl.of_remembered hr (v := { w with
        fates := fs'
        files := Function.update w.files i (setEnd (w.files i) ((w.files i).length + amount))
        pointers := Function.update w.pointers i ((w.files i).length + amount)
        m_ExpandSize := Function.update w.m_ExpandSize i ((w.m_ExpandSize i + amount) % 2 ^ 64) })
        rfl
      refine ⟨hb.1, hb.2, (w.files i).length, hsize, ?_⟩
      simp
    · intro e fs'
      exact ⟨h.of_eq rfl rfl rfl rfl rfl rfl, hr, fun j hj => hj⟩
  · intro e fs
    exact ⟨h.of_eq rfl rfl rfl rfl rfl rfl, hr, fun j hj => hj⟩

theorem live_reshrink {amount : ℕ} {original : Fin 2 → ℕ} {was : Fin 2 → Bool} (h : Live w)
    (hr : Remembered w) (hx : was i = true → Extended amount i w) :
    wp (reshrink amount original was i) (fun _ w' => Live w' ∧ Remembered w' ∧
      ∀ j ≠ i, Extended amount j w → Extended amount j w') (fun _ => Live) w := by
  unfold reshrink
  rw [wp_catchCom, wp_ite]
  constructor
  · intro hw
    obtain ⟨n, hn, hlen⟩ := hx hw
    rw [wp_bind]
    apply wp_bitsSetFilePointer
    · intro fs _
      rw [wp_bind]
      apply wp_bitsSetEndOfFile
      · intro fs'
        rw [wp_modify]
        have hp : (w.base i .fileEnd + -(amount : ℤ)).toNat = n := by
          simp only [World.base]
          omega
        rw [hp]
        simp only [Function.update_self]
        have hl := h.setEnd hn
        have hb := hl.of_remembered hr (v := { w with
          fates := fs'
          files := Function.update w.files i (setEnd (w.files i) n)
          pointers := Function.update w.pointers i n
          m_ExpandSize := Function.update w.m_ExpandSize i (original i) }) rfl
        refine ⟨hb.1, hb.2, ?_⟩
        rintro j hj ⟨m, hm, hjl⟩
        refine ⟨m, hm, ?_⟩
        simpa [Function.update_of_ne hj] using hjl
      · intro e fs'
        constructor
        · intro _
          rw [wp_pure]
          exact ⟨h.of_eq rfl rfl rfl rfl rfl rfl, hr, fun j _ hj => hj⟩
        · intro _
          exact h.of_eq rfl rfl rfl rfl rfl rfl
    · intro e fs
      constructor
      · intro _
        rw [wp_pure]
        exact ⟨h.of_eq rfl rfl rfl rfl rfl rfl, hr, fun j _ hj => hj⟩
      · intro _
        exact h.of_eq rfl rfl rfl rfl rfl rfl
  · intro _
    rw [wp_pure]
    exact ⟨h, hr, fun j _ hj => hj⟩

theorem live_extendMetadata {sizeT amount : ℕ} (h : Live w) :
    wp (extendMetadata sizeT amount) (fun _ => Live) (fun _ => Live) w := by
  unfold extendMetadata
  rw [wp_bind, wp_get, wp_bind]
  apply wp_mono (live_rememberSize (i := 0) h)
  · rintro _ w₁ ⟨h₁, hf₁, -⟩
    rw [wp_bind]
    apply wp_mono (live_rememberSize (i := 1) h₁)
    · rintro _ w₂ ⟨h₂, hf₂, hkeep⟩
      have hr : Remembered w₂ := by
        unfold Remembered
        rw [Fin.forall_fin_two]
        exact ⟨hkeep 0 (by decide) hf₁, hf₂⟩
      rw [wp_bind, wp_catchCom]
      apply wp_mono (live_extendFile amount h₂ hr)
      · rintro _ w₃ ⟨h₃, hr₃, hx⟩
        rw [wp_catchCom]
        apply wp_mono (live_extendFile amount h₃ hr₃)
        · rintro _ w₄ ⟨h₄, -, -⟩
          exact h₄
        · rintro e w₄ ⟨h₄, hr₄, hkeep₄⟩
          constructor
          · intro _
            rw [wp_bind]
            apply wp_mono (live_reshrink h₄ hr₄ fun _ => hkeep₄ 0 hx)
            · rintro _ w₅ ⟨h₅, hr₅, -⟩
              rw [wp_bind]
              apply wp_mono (live_reshrink h₅ hr₅ (by simp))
              · rintro _ w₆ ⟨h₆, -, -⟩
                exact h₆
              · exact fun _ _ h₆ => h₆
            · exact fun _ _ h₅ => h₅
          · intro _
            exact h₄
      · rintro e w₃ ⟨h₃, hr₃, -⟩
        constructor
        · intro _
          rw [wp_bind]
          apply wp_mono (live_reshrink h₃ hr₃ (by simp))
          · rintro _ w₅ ⟨h₅, hr₅, -⟩
            rw [wp_bind]
            apply wp_mono (live_reshrink h₅ hr₅ (by simp))
            · rintro _ w₆ ⟨h₆, -, -⟩
              exact h₆
            · exact fun _ _ h₆ => h₆
          · exact fun _ _ h₅ => h₅
        · intro _
          exact h₃
    · exact fun _ _ h₂ => h₂
  · exact fun _ _ h₁ => h₁

theorem live_shrinkFile (h : Live w) : wp (shrinkFile i) (fun _ => Live) (fun _ => Live) w := by
  unfold shrinkFile
  rw [wp_catchCom, wp_bind, wp_get, wp_ite]
  constructor
  · intro he
    have horiginal := h.original i he
    rw [wp_bind]
    apply wp_bitsSetFilePointer
    · intro fs _
      rw [wp_bind]
      apply wp_bitsSetEndOfFile
      · intro fs'
        rw [wp_modify]
        have hp : (w.base i .fileBegin + (w.m_OriginalFileSizes i : ℤ)).toNat =
            w.m_OriginalFileSizes i := by
          simp only [World.base]
          omega
        rw [hp]
        simp only [Function.update_self]
        exact ((h.setEnd horiginal).resetSizes i).of_eq rfl rfl rfl rfl rfl rfl
      · intro e fs'
        have hl := h.of_eq (v := { w with
          fates := fs'
          pointers := Function.update w.pointers i
            (w.base i .fileBegin + (w.m_OriginalFileSizes i : ℤ)).toNat }) rfl rfl rfl rfl rfl rfl
        exact ⟨fun _ => hl, fun _ => hl⟩
    · intro e fs
      have hl := h.of_eq (v := { w with fates := fs }) rfl rfl rfl rfl rfl rfl
      exact ⟨fun _ => hl, fun _ => hl⟩
  · intro _
    exact h

theorem live_shrinkMetadata (h : Live w) :
    wp shrinkMetadata (fun _ => Live) (fun _ => Live) w := by
  unfold shrinkMetadata
  rw [wp_bind]
  apply wp_mono (live_shrinkFile h)
  · intro _ w' h'
    exact live_shrinkFile h'
  · exact fun _ _ h' => h'

end extend

end NtAdmin.Drizzle.Newjob.StateFiles
