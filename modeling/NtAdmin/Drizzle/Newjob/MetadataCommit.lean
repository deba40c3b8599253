import NtAdmin.Drizzle.Newjob.MetadataSizes

/-! A commit replaces the image of the selected state file, or leaves it. -/
namespace NtAdmin.Drizzle.Newjob.StateFiles

open NtAdmin.Lib NtAdmin.Lib.Prog

theorem isPrefix_writeAt {image f : List UInt8} (h : image <+: f) (bs : List UInt8) :
    image ++ bs <+: writeAt 0 f image.length bs := by
  obtain ⟨rest, rfl⟩ := h
  unfold writeAt
  split_ifs with hbs
  · rw [hbs, List.append_nil]
    exact List.prefix_append _ _
  · have hgap : image.length - (image ++ rest).length = 0 := by
      rw [List.length_append]
      omega
    rw [hgap, List.take_left']
    · simp
    · rfl

/-- `bss` stand at the front of file `i`, which is not the selected one, and its pointer is behind
them. `before` is what was committed when the writing began. -/
structure Writing (before : Option (List UInt8)) (i : Fin 2) (bs : List UInt8) (w : World) :
    Prop where
  live : Live w
  committed : w.committed = before
  next : i = w.m_CurrentIndex + 1
  pointer : w.pointers i = bs.length
  front : bs <+: w.files i

theorem Live.next_ne {w : World} (h : Live w) : w.m_CurrentIndex + 1 ≠ selected w.registry := by
  rw [h.current]
  generalize selected w.registry = i
  revert i
  decide

section commit
variable {w : World} {i : Fin 2} {before : Option (List UInt8)} {bs : List UInt8}

/-- What an error leaves: a service as it was before, on files of which only the other changed. -/
def Refused (before : Option (List UInt8)) (w : World) : Prop := Live w ∧ w.committed = before

theorem Writing.refused (h : Writing before i bs w) : Refused before w := ⟨h.live, h.committed⟩

theorem Refused.of_fates (h : Refused before w) (fs : List Fate) :
    Refused before { w with fates := fs } := ⟨h.1.of_eq rfl rfl rfl rfl rfl rfl, h.2⟩

theorem Writing.write (h : Writing before i bs w) (fs : List Fate) (more : List UInt8) :
    Writing before i (bs ++ more) (World.written { w with fates := fs } i more) := by
  have hne : i ≠ selected w.registry := h.next ▸ h.live.next_ne
  constructor
  · have hl := h.live.setFile (i := i) (f := writeAt 0 (w.files i) (w.pointers i) more)
      (Nat.le_trans (h.live.room i) (length_le_length_writeAt ..)) (fun hi => absurd hi hne)
    exact hl.of_eq rfl rfl rfl rfl rfl rfl
  · exact h.committed
  · exact h.next
  · simp [World.written, h.pointer]
  · simp only [World.written, Function.update_self, h.pointer]
    exact isPrefix_writeAt h.front more

theorem writing_safeWriteFile (h : Writing before i bs w) (more : List UInt8) :
    wp (safeWriteFile i more) (fun _ => Writing before i (bs ++ more)) (fun _ => Refused before)
      w := by
  apply wp_safeWriteFile
  · intro fs
    exact h.write fs more
  · intro e fs torn
    exact (h.write fs (more.take torn)).refused

theorem writing_safeWriteFiles (h : Writing before i bs w) (more : List (List UInt8)) :
    wp (safeWriteFiles i more) (fun _ => Writing before i (bs ++ more.flatten))
      (fun _ => Refused before) w := by
  induction more generalizing bs w with
  | nil => simpa [safeWriteFiles] using h
  | cons b more ih =>
    rw [safeWriteFiles, wp_bind]
    apply wp_mono (writing_safeWriteFile h b)
    · intro _ w' h'
      rw [List.flatten_cons, ← List.append_assoc]
      exact ih h'
    · exact fun _ _ h' => h'

theorem writing_getNextStateFile (h : Live w) :
    wp getNextStateFile (fun i => Writing w.committed i []) (fun _ => Refused w.committed) w := by
  unfold getNextStateFile
  rw [wp_bind, wp_get, wp_bind]
  apply wp_bitsSetFilePointer
  · intro fs _
    rw [wp_pure]
    constructor
    · exact h.of_eq rfl rfl rfl rfl rfl rfl
    · rfl
    · rfl
    · simp [World.base]
    · exact List.nil_prefix
  · intro e fs
    exact Refused.of_fates ⟨h, rfl⟩ fs

/-- The backup file is cut or filled to the size of the new one, which has its padding. -/
theorem live_shrinkBackup {old new : Fin 2} (h : Live w) (hne : old ≠ selected w.registry)
    (hc : w.committed = before) :
    wp (shrinkBackup old new) (fun _ => Refused before)
      (fun e w' => e = .crash ∧ Refused before w') w := by
  have hw : Refused before w := ⟨h, hc⟩
  unfold shrinkBackup
  rw [wp_bind, wp_get, wp_ite]
  constructor
  · intro _
    rw [wp_catchCom, wp_bind]
    apply wp_bitsGetFileSize
    · intro fs
      rw [wp_bind, wp_get]
      dsimp only
      rw [wp_ite]
      constructor
      · intro _
        rw [wp_bind]
        apply wp_bitsSetFilePointer
        · intro fs' _
          rw [wp_bind]
          apply wp_bitsSetEndOfFile
          · intro fs''
            rw [wp_modify]
            have hp : (World.base { w with fates := fs } old .fileBegin +
                ((w.files new).length : ℤ)).toNat = (w.files new).length := by
              simp only [World.base]
              omega
            rw [hp]
            simp only [Function.update_self]
            have hl := h.setEnd (fits_of_ne hne (h.room new))
            exact ⟨(hl.resetSizes old).of_eq rfl rfl rfl rfl rfl rfl, hc⟩
          · intro e fs''
            have hr : Refused before { w with
                fates := fs''
                pointers := Function.update w.pointers old
                  (World.base { w with fates := fs } old .fileBegin +
                    ((w.files new).length : ℤ)).toNat } :=
              ⟨h.of_eq rfl rfl rfl rfl rfl rfl, hc⟩
            exact ⟨fun _ => hr, fun _ => ⟨rfl, hr⟩⟩
        · intro e fs'
          exact ⟨fun _ => hw.of_fates fs', fun _ => ⟨rfl, hw.of_fates fs'⟩⟩
      · intro _
        rw [wp_modify]
        exact ⟨(h.resetSizes old).of_eq rfl rfl rfl rfl rfl rfl, hc⟩
    · intro e fs
      exact ⟨fun _ => hw.of_fates fs, fun _ => ⟨rfl, hw.of_fates fs⟩⟩
  · intro _
    exact hw

/-- The whole of an image stands in the file that is not selected. -/
structure Ready (before : Option (List UInt8)) (i : Fin 2) (image : List UInt8) (w : World) :
    Prop where
  live : Live w
  committed : w.committed = before
  next : i = w.m_CurrentIndex + 1
  front : image <+: w.files i

theorem Ready.refused {image : List UInt8} (h : Ready before i image w) : Refused before w :=
  ⟨h.live, h.committed⟩

/-- The new file may lose what lies more than the padding behind the image. -/
theorem writing_truncateFile {image : List UInt8} (h : Writing before i image w) :
    wp (truncateFile i) (fun _ => Ready before i image) (fun _ => Refused before) w := by
  have hne : i ≠ selected w.registry := h.next ▸ h.live.next_ne
  unfold truncateFile
  rw [wp_bind]
  apply wp_bitsSetFilePointer
  · intro fs _
    rw [wp_bind]
    apply wp_bitsGetFileSize
    · intro fs'
      have hp : w.base i .fileCurrent + 0 = image.length := by
        simp only [World.base, h.pointer]
        omega
      rw [hp, wp_ite]
      constructor
      · intro _
        rw [wp_bind]
        apply wp_bitsSetFilePointer
        · intro fs'' _
          apply wp_bitsSetEndOfFile
          intro fs'''
          simp only [World.base, Function.update_self, Int.toNat_natCast]
          have hn : ((image.length : ℤ) + METADATA_PADDING).toNat =
              image.length + METADATA_PADDING := by
            omega
          rw [hn]
          constructor
          · have hl := h.live.setEnd (fits_of_ne hne (Nat.le_add_left METADATA_PADDING image.length))
            exact hl.of_eq rfl rfl rfl rfl rfl rfl
          · exact h.committed
          · exact h.next
          · simp only [Function.update_self]
            exact isPrefix_setEnd h.front (Nat.le_add_right _ _)
          · intro e fs'''
            exact ⟨h.live.of_eq rfl rfl rfl rfl rfl rfl, h.committed⟩
        · intro e fs''
          exact ⟨h.live.of_eq rfl rfl rfl rfl rfl rfl, h.committed⟩
      · intro _
        exact ⟨h.live.of_eq rfl rfl rfl rfl rfl rfl, h.committed, h.next, h.front⟩
    · intro e fs'
      exact ⟨h.live.of_eq rfl rfl rfl rfl rfl rfl, h.committed⟩
  · intro e fs
    exact h.refused.of_fates fs

/-- The index update makes a ready file the selected one. -/
theorem Ready.select {image : List UInt8} (h : Ready before i image w) (fs : List Fate) :
    Live { w with
      fates := fs
      registry := some i.val
      committed := some image
      m_ExpandSize := Function.update w.m_ExpandSize i 0
      m_OriginalFileSizes := Function.update w.m_OriginalFileSizes i 0
      m_CurrentIndex := i } := by
  have hsel : selected (some i.val) = i := by
    revert i
    intro i _
    match i with
    | 0 => rfl
    | 1 => rfl
  constructor
  · exact hsel.symm
  · exact h.live.room
  · intro j hj
    by_cases hji : j = i
    · subst hji
      simp at hj
    · simp only [Function.update_of_ne hji] at hj ⊢
      exact fits_of_ne (by rw [hsel]; exact hji) (h.live.original j hj).1
  · intro image' himage
    obtain rfl : image = image' := by simpa using himage
    show image <+: w.files (selected (some i.val))
    rw [hsel]
    exact h.front

theorem writing_updateStateFile {image : List UInt8} (h : Writing before i image w) :
    wp (updateStateFile image) (fun _ => Refused (some image))
      (fun e w' => Refused before w' ∨ e = .crash ∧ Refused (some image) w') w := by
  have hi : w.m_CurrentIndex + 1 = i := h.next.symm
  have hold : w.m_CurrentIndex ≠ selected (some i.val) := by
    rw [h.next]
    generalize w.m_CurrentIndex = j
    revert j
    decide
  unfold updateStateFile
  rw [wp_bind, wp_get]
  dsimp only
  rw [hi, wp_bind]
  apply wp_mono (writing_truncateFile h)
  · intro _ w₁ h₁
    have hcur : w₁.m_CurrentIndex = w.m_CurrentIndex := by
      have hinj : ∀ a b : Fin 2, a + 1 = b + 1 → a = b := by decide
      exact hinj _ _ (h₁.next.symm.trans h.next)
    rw [wp_bind]
    apply wp_request
    · intro fs
      rw [wp_bind, wp_modify, wp_bind]
      unfold setRegDWordValue
      rw [wp_bind]
      apply wp_request
      · intro fs'
        rw [wp_modify, wp_bind, wp_modify]
        apply wp_mono (live_shrinkBackup (h₁.select fs') hold rfl)
        · exact fun _ _ h₂ => h₂
        · exact fun _ _ h₂ => .inr h₂
      · intro e fs'
        exact .inl ⟨(h₁.live.resetSizes i).of_eq rfl rfl rfl rfl rfl rfl, h₁.committed⟩
    · intro e fs
      exact .inl (h₁.refused.of_fates fs)
  · exact fun _ _ h₁ => .inl h₁

theorem writing_writeState {body : List (List UInt8)} (h : Live w) :
    wp (writeState body) (fun _ => Refused (some (image body)))
      (fun e w' => Refused w.committed w' ∨ e = .crash ∧ Refused (some (image body)) w') w := by
  unfold writeState openWriteStateFile commitFile
  rw [wp_bind, wp_bind]
  apply wp_mono (writing_getNextStateFile h)
  · intro i w₁ h₁
    rw [wp_bind]
    apply wp_mono (writing_safeWriteFile h₁ _)
    · intro _ w₂ h₂
      rw [wp_pure, wp_bind]
      apply wp_mono (writing_safeWriteFile h₂ _)
      · intro _ w₃ h₃
        rw [wp_bind]
        apply wp_mono (writing_safeWriteFiles h₃ body)
        · intro _ w₄ h₄
          rw [wp_bind]
          apply wp_mono (writing_safeWriteFile h₄ _)
          · intro _ w₅ h₅
            rw [wp_bind]
            apply wp_mono (writing_safeWriteFile h₅ _)
            · intro _ w₆ h₆
              exact writing_updateStateFile h₆
            · exact fun _ _ h' => .inl h'
          · exact fun _ _ h' => .inl h'
        · exact fun _ _ h' => .inl h'
      · exact fun _ _ h' => .inl h'
    · exact fun _ _ h' => .inl h'
  · exact fun _ _ h' => .inl h'

theorem refused_setServiceStartup {auto : Bool} (h : Refused before w) :
    wp (setServiceStartup auto) (fun _ => Refused before) (fun _ => Refused before) w := by
  apply wp_request
  · intro fs
    exact h.of_fates fs
  · intro e fs
    exact h.of_fates fs

/-- What `Serialize` did, told from its result. -/
def Serialized (before : Option (List UInt8)) (body : List (List UInt8)) (ok : Bool) (w : World) :
    Prop := Refused (if ok then some (image body) else before) w

/-- `Serialize` commits the image of its queue when it succeeds, and nothing when it fails. -/
theorem live_serialize {auto : Bool} {body : List (List UInt8)} (h : Live w) :
    wp (serialize auto body) (Serialized w.committed body) (fun _ => Live) w := by
  have herror : ∀ {e w'}, Refused w.committed w' →
      (e = .comError → wp (pure false : Op Bool) (Serialized w.committed body) (fun _ => Live) w') ∧
        (e = Stop.crash → Live w') :=
    fun hw => ⟨fun _ => hw, fun _ => hw.1⟩
  have hend : ∀ w', Refused (some (image body)) w' →
      wp (catchCom (setServiceStartup false) (pure ())) (fun _ => Refused (some (image body)))
        (fun e w' => e = .crash ∧ Refused (some (image body)) w') w' := by
    intro w' hw
    rw [wp_catchCom]
    apply wp_mono (refused_setServiceStartup hw)
    · exact fun _ _ h' => h'
    · exact fun e _ h' => ⟨fun _ => h', fun _ => ⟨rfl, h'⟩⟩
  have htail : ∀ w', Refused w.committed w' →
      wp (do
        writeState body
        if auto then pure true
        else do
          catchCom (setServiceStartup false) (pure ())
          pure true) (Serialized w.committed body)
        (fun e w' => (e = .comError → wp (pure false : Op Bool) (Serialized w.committed body)
          (fun _ => Live) w') ∧ (e = Stop.crash → Live w')) w' := by
    intro w' hw
    rw [wp_bind]
    apply wp_mono (writing_writeState hw.1)
    · intro _ w₁ h₁
      rw [wp_ite]
      constructor
      · intro _
        exact h₁
      · intro _
        rw [wp_bind]
        apply wp_mono (hend w₁ h₁)
        · exact fun _ _ h₂ => h₂
        · rintro e w₂ ⟨rfl, h₂⟩
          exact ⟨fun hc => absurd hc (by decide), fun _ => h₂.1⟩
    · rintro e w₁ (h₁ | ⟨rfl, h₁⟩)
      · rw [hw.2] at h₁
        exact herror h₁
      · exact ⟨fun hc => absurd hc (by decide), fun _ => h₁.1⟩
  unfold serialize
  rw [wp_catchCom]
  dsimp only
  rw [wp_ite]
  constructor
  · intro _
    rw [wp_bind]
    apply wp_mono (refused_setServiceStartup ⟨h, rfl⟩)
    · exact fun _ w' hw => htail w' hw
    · exact fun _ _ hw => herror hw
  · intro _
    exact htail w ⟨h, rfl⟩

end commit

end NtAdmin.Drizzle.Newjob.StateFiles
