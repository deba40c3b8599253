import NtAdmin.Drizzle.Newjob.MetadataCommit

/-! The state files over whole runs, with restarts of the service after crashes. -/
namespace NtAdmin.Drizzle.Newjob.StateFiles

open NtAdmin.Lib NtAdmin.Lib.Prog

section construct
variable {w w₀ : World} {i : Fin 2}

/-- While the constructor works on file `i`, of which nothing is committed. -/
structure Opening (w₀ : World) (i : Fin 2) (w : World) : Prop where
  durable : Durable w
  spare : i = selected w.registry → w.committed = none
  registry : w.registry = w₀.registry
  committed : w.committed = w₀.committed
  sizes : w.m_ExpandSize = w₀.m_ExpandSize
  other : ∀ j ≠ i, w.files j = w₀.files j

theorem Opening.setFile (h : Opening w₀ i w) {f : List UInt8} {p : Fin 2 → ℕ} {q : List Fate} :
    Opening w₀ i { w with
      files := Function.update w.files i f
      pointers := p
      fates := q } := by
  constructor
  · constructor
    · intro image himage
      by_cases hi : i = selected w.registry
      · have hnone := h.spare hi
        rw [show w.committed = some image from himage] at hnone
        contradiction
      · simpa [Function.update_of_ne (Ne.symm hi)] using h.durable.kept image himage
    · intro hc
      by_cases hi : i = selected w.registry
      · exact absurd (h.spare hi) hc
      · simpa [Function.update_of_ne (Ne.symm hi)] using h.durable.room hc
  · exact h.spare
  · exact h.registry
  · exact h.committed
  · exact h.sizes
  · intro j hj
    simpa [Function.update_of_ne hj] using h.other j hj

theorem Opening.of_pointers (h : Opening w₀ i w) (p : Fin 2 → ℕ) (fs : List Fate) :
    Opening w₀ i { w with pointers := p, fates := fs } := by
  have hs := h.setFile (f := w.files i) (p := p) (q := fs)
  simpa using hs

/-- The file that is being opened has its padding. -/
def Padded (w₀ : World) (i : Fin 2) (w : World) : Prop :=
  Opening w₀ i w ∧ METADATA_PADDING ≤ (w.files i).length

theorem padded_safeWriteFiles (h : Padded w₀ i w) (bss : List (List UInt8)) :
    wp (safeWriteFiles i bss) (fun _ => Padded w₀ i) (fun _ => Padded w₀ i) w := by
  have hwrite : ∀ {w} (_ : Padded w₀ i w) (bs : List UInt8) (fs : List Fate),
      Padded w₀ i (World.written { w with fates := fs } i bs) := by
    intro w hw bs fs
    constructor
    · exact hw.1.setFile
    · simp only [World.written, Function.update_self]
      exact Nat.le_trans hw.2 (length_le_length_writeAt ..)
  induction bss generalizing w with
  | nil => exact h
  | cons bs bss ih =>
    rw [safeWriteFiles, wp_bind]
    apply wp_safeWriteFile
    · intro fs
      exact ih (hwrite h bs fs)
    · intro e fs torn
      exact hwrite h _ fs

theorem padded_bitsSetFilePointer {offset : ℤ} {method : MoveMethod} (h : Padded w₀ i w) :
    wp (bitsSetFilePointer i offset method) (fun _ => Padded w₀ i) (fun _ => Padded w₀ i) w := by
  apply wp_bitsSetFilePointer
  · intro fs _
    exact ⟨h.1.of_pointers _ _, h.2⟩
  · intro e fs
    exact ⟨h.1.of_pointers _ _, h.2⟩

theorem padded_writeEmptyMetadataFile (h : Padded w₀ i w) :
    wp (writeEmptyMetadataFile i) (fun _ => Padded w₀ i) (fun _ => Padded w₀ i) w := by
  unfold writeEmptyMetadataFile
  rw [wp_bind]
  apply wp_mono (padded_bitsSetFilePointer h)
  · intro _ w' h'
    exact padded_safeWriteFiles h' _
  · exact fun _ _ h' => h'

/-- What opening one file leaves of the world. -/
structure Opened (w₀ : World) (i : Fin 2) (w : World) : Prop where
  durable : Durable w
  room : METADATA_PADDING ≤ (w.files i).length
  registry : w.registry = w₀.registry
  committed : w.committed = w₀.committed
  sizes : w.m_ExpandSize = w₀.m_ExpandSize
  other : ∀ j ≠ i, w.files j = w₀.files j

theorem Padded.opened (h : Padded w₀ i w) : Opened w₀ i w :=
  ⟨h.1.durable, h.2, h.1.registry, h.1.committed, h.1.sizes, h.1.other⟩

/-- A file too small to hold a committed image is made anew, any other is only opened. -/
theorem durable_openMetadataFile (h : Durable w) :
    wp (openMetadataFile i) (fun _ => Opened w i) (fun _ => Durable) w := by
  unfold openMetadataFile createFile
  rw [wp_bind, wp_bind]
  apply wp_request
  · intro fs
    rw [wp_modify, wp_bind]
    apply wp_bitsGetFileSize
    · intro fs'
      rw [wp_ite]
      constructor
      · intro hsmall
        have hopening : Opening w i w := by
          constructor
          · exact h
          · intro hi
            by_contra hc
            have hroom := h.room hc
            rw [← hi] at hroom
            exact absurd hroom (Nat.not_le.mpr hsmall)
          · rfl
          · rfl
          · rfl
          · exact fun _ _ => rfl
        rw [wp_bind]
        apply wp_bitsSetFilePointer
        · intro fs'' _
          rw [wp_bind]
          apply wp_bitsSetEndOfFile
          · intro fs'''
            have hpadded : Padded w i { w with
                files := Function.update w.files i (setEnd (w.files i) METADATA_PADDING)
                pointers := Function.update (Function.update w.pointers i 0) i METADATA_PADDING
                fates := fs''' } := by
              constructor
              · exact hopening.setFile
              · simp
            rw [wp_bind]
            simp only [World.base, Int.zero_add, Int.toNat_natCast, Function.update_self]
            apply wp_mono (padded_writeEmptyMetadataFile hpadded)
            · intro _ w₁ h₁
              rw [wp_bind]
              apply wp_mono (padded_bitsSetFilePointer h₁)
              · intro _ w₂ h₂
                exact h₂.opened
              · exact fun _ _ h₂ => h₂.1.durable
            · exact fun _ _ h₁ => h₁.1.durable
          · intro e fs'''
            exact h.of_eq rfl rfl rfl
        · intro e fs''
          exact h.of_eq rfl rfl rfl
      · intro hsize
        exact ⟨h.of_eq rfl rfl rfl, Nat.not_lt.mp hsize, rfl, rfl, rfl, fun _ _ => rfl⟩
    · intro e fs'
      exact h.of_eq rfl rfl rfl
  · intro e fs
    exact h.of_eq rfl rfl rfl

theorem readCurrentIndex_eq {registry : Option ℕ} {query : Fate} (hc : query ≠ .crash)
    (h : ∀ torn, query = .fails torn → registry ≠ some 1) :
    readCurrentIndex registry query = selected registry := by
  unfold readCurrentIndex selected
  cases query with
  | crash => exact absurd rfl hc
  | fails torn =>
    have hne := h torn rfl
    match registry with
    | some 1 => exact absurd rfl hne
    | none => rfl
    | some 0 => rfl
    | some (n + 2) => rfl
  | done =>
    match registry with
    | some 1 => rfl
    | none => rfl
    | some 0 => rfl
    | some (n + 2) => simp [getRegDWordValue]

theorem durable_construct {query : Fate} (h : Durable w)
    (hr : ∀ torn, query = .fails torn → w.registry ≠ some 1) :
    wp (construct query) (fun _ => Live) (fun _ => Durable) w := by
  unfold construct
  rw [wp_bind]
  apply wp_mono (durable_openMetadataFile h)
  · intro _ w₁ h₁
    rw [wp_bind, wp_modify, wp_bind]
    have hd₁ : Durable (w₁.resetSizes 0) := h₁.durable.of_eq rfl rfl rfl
    apply wp_mono (durable_openMetadataFile hd₁)
    · intro _ w₂ h₂
      rw [wp_bind, wp_modify, wp_ite]
      constructor
      · intro _
        exact h₂.durable.of_eq rfl rfl rfl
      · intro hc
        rw [wp_modify]
        have hreg : w₂.registry = w.registry := h₂.registry.trans h₁.registry
        constructor
        · apply readCurrentIndex_eq hc
          intro torn ht
          show w₂.registry ≠ some 1
          rw [hreg]
          exact hr torn ht
        · show ∀ i, METADATA_PADDING ≤ (w₂.files i).length
          rw [Fin.forall_fin_two]
          constructor
          · rw [h₂.other 0 (by decide)]
            exact h₁.room
          · exact h₂.room
        · intro j hj
          have hzero : (w₂.resetSizes 1).m_ExpandSize j = 0 := by
            simp only [World.resetSizes, h₂.sizes]
            revert j
            rw [Fin.forall_fin_two]
            simp
          exact absurd hzero hj
        · exact h₂.durable.kept
    · exact fun _ _ h₂ => h₂
  · exact fun _ _ h₁ => h₁

end construct

section runs
variable {sizeT : ℕ} {w : World}

/-- What holds between two calls. -/
structure Safe (w : World) : Prop where
  durable : Durable w
  live : w.alive → Live w

theorem safe_runOp {α : Type} {m : Op α} {survives : Bool}
    (hm : wp m (fun _ => Live) (fun e w' => Durable w' ∧ (e = .comError → survives → Live w')) w) :
    Safe (runOp m survives w) := by
  unfold wp at hm
  unfold runOp
  rcases hmw : m w with ⟨(_ | _) | _, w'⟩ <;> rw [hmw] at hm
  · constructor
    · exact hm.1.of_eq rfl rfl rfl
    · intro ha
      exact (hm.2 rfl ha).of_eq rfl rfl rfl rfl rfl rfl
  · constructor
    · exact hm.1.of_eq rfl rfl rfl
    · intro ha
      cases ha
  · constructor
    · exact hm.durable.of_eq rfl rfl rfl
    · intro _
      exact hm.of_eq rfl rfl rfl rfl rfl rfl

theorem safe_runOp_of_live {α : Type} {m : Op α} {Q : α → World → Prop}
    (hm : wp m Q (fun _ => Live) w) (hQ : ∀ a w', Q a w' → Live w') :
    Safe (runOp m true w) := by
  apply safe_runOp
  apply wp_mono hm hQ
  exact fun _ _ h => ⟨h.durable, fun _ _ => h⟩

theorem Safe.step {e : Event} (h : Safe w) (hr : Readable e w) : Safe (step sizeT e w) := by
  have hlive : ∀ {fs}, w.alive → Live { w with fates := fs } :=
    fun ha => (h.live ha).of_eq rfl rfl rfl rfl rfl rfl
  cases e with
  | start fates query =>
    have hd : Durable { w with fates := fates } := h.durable.of_eq rfl rfl rfl
    have hquery : ∀ torn, query = .fails torn → w.registry ≠ some 1 := by
      rintro torn rfl
      exact hr
    apply safe_runOp
    apply wp_mono (durable_construct hd hquery)
    · exact fun _ _ h' => h'
    · exact fun _ _ h' => ⟨h', fun _ hf => absurd hf (by decide)⟩
  | extend fates amount =>
    unfold StateFiles.step
    split_ifs with ha
    · exact safe_runOp_of_live (live_extendMetadata (hlive ha)) fun _ _ h' => h'
    · exact h
  | shrink fates =>
    unfold StateFiles.step
    split_ifs with ha
    · exact safe_runOp_of_live (live_shrinkMetadata (hlive ha)) fun _ _ h' => h'
    · exact h
  | serialize fates bAutomaticStart body =>
    unfold StateFiles.step
    split_ifs with ha
    · exact safe_runOp_of_live (live_serialize (hlive ha)) fun _ _ h' => h'.1
    · exact h

theorem safe_fresh (files : Fin 2 → List UInt8) (registry : Option ℕ) :
    Safe (fresh files registry) := by
  constructor
  · constructor
    · intro image himage
      cases himage
    · intro hc
      exact absurd rfl hc
  · intro ha
    cases ha

/-- Whatever fails and wherever the machine stops, the file that the registry selects begins with
the image of the last commit whose index update took effect, in every state of a run in which the
service never reads the index in vain while it is 1. -/
theorem state_files_kept (sizeT : ℕ) (files : Fin 2 → List UInt8) (registry : Option ℕ)
    (es : List Event) (hr : Along (step sizeT) Readable es (fresh files registry)) :
    ∀ done rest, es = done ++ rest →
      Kept (runAll (step sizeT) done (fresh files registry)) := by
  rintro done rest rfl
  have hdone := ((along_append done rest _).mp hr).1
  have hsafe := runAll_invariant (fun _ _ hr h => Safe.step h hr) (safe_fresh files registry) hdone
  exact hsafe.durable.kept

/-- A commit, then extensions and shrinks of which some fail, and a commit cut short. -/
def cutShort : List Event :=
  [.start [] .done, .serialize [] true [[1]], .extend [.done, .done, .done, .done, .fails 0] 16,
    .shrink [.fails 0], .serialize [.done, .done, .done, .done, .fails 1] true [[2, 3]],
    .extend [.crash] 16, .start [] .done, .serialize [.done, .done, .done, .crash] true [[4]]]

/-- The run `es` on a machine without state files. -/
def afterRun (es : List Event) : World := runAll (step (2 ^ 32)) es (fresh (fun _ => []) none)

theorem state_files_kept_cutShort :
    (afterRun cutShort).committed = some (image [[1]]) ∧
      image [[1]] <+: (afterRun cutShort).files 1 := by
  have hc : (afterRun cutShort).committed = some (image [[1]]) := by decide +kernel
  have hs : selected (afterRun cutShort).registry = 1 := by decide +kernel
  have hr : Along (step (2 ^ 32)) Readable cutShort (fresh (fun _ => []) none) := by
    simp [cutShort, Along, Readable]
  have hk : Kept (afterRun cutShort) :=
    state_files_kept (2 ^ 32) (fun _ => []) none cutShort hr cutShort [] (by simp)
  have hfile := hk _ hc
  rw [hs] at hfile
  exact ⟨hc, hfile⟩

/-- The index is 1 and the service cannot read it at its second start. It takes file 0 for the
current one and writes the next queue over file 1, until a write fails. -/
def lostIndex : List Event :=
  [.start [] .done, .serialize [] true [[1]], .start [] (.fails 0),
    .serialize [.done, .done, .done, .done, .done, .fails 0] true [[2]]]

theorem state_files_lost : ¬ ∀ (sizeT : ℕ) (files : Fin 2 → List UInt8) (registry : Option ℕ)
    (es : List Event), Kept (runAll (step sizeT) es (fresh files registry)) := by
  intro h
  have hc : (afterRun lostIndex).committed = some (image [[1]]) := by decide +kernel
  have hn : ¬ image [[1]] <+: (afterRun lostIndex).files
      (selected (afterRun lostIndex).registry) := by decide +kernel
  have hk : Kept (afterRun lostIndex) := h (2 ^ 32) (fun _ => []) none lostIndex
  exact hn (hk _ hc)

end runs

end NtAdmin.Drizzle.Newjob.StateFiles
