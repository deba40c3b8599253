import NtAdmin.Sched.Schedule.AtInfo

/-! The command of an AT job is read back with the same names in it. -/
namespace NtAdmin.Sched.Schedule

variable {garbage a p cmd : List UInt16}

/-- The application name and the parameters that a command gives a job. -/
def namesOf (garbage cmd : List UInt16) : List UInt16 × List UInt16 :=
  (deleteQuotes (stripLeadTrailSpace (splitCommand garbage cmd).1), (splitCommand garbage cmd).2)

/-- The command is not a lone quote and does not start with two, and a name with a tab has a blank,
for which it is quoted. -/
structure PlainCommand (cmd : List UInt16) : Prop where
  notLone : cmd ≠ [quote]
  notTwo : ¬[quote, quote] <+: cmd
  tabBlank : 9 ∈ (namesOf [] cmd).1 → blank ∈ (namesOf [] cmd).1

/-! ### White space and quotes -/

theorem isSpace_eq_false {c : UInt16} : isSpace c = false ↔ c ≠ blank ∧ c ≠ 9 := by
  unfold isSpace
  rw [decide_eq_false_iff_not, not_or]

theorem skipSpace_trimmed (l : List UInt16) : (skipSpace l).dropWhile isSpace = skipSpace l := by
  cases l with
  | nil => rfl
  | cons c l => exact List.dropWhile_idempotent isSpace l

theorem strip_of_noSpace (h : ∀ c ∈ a, isSpace c = false) : stripLeadTrailSpace a = a := by
  have hdrop : a.dropWhile isSpace = a := by
    cases a with
    | nil => rfl
    | cons c a => rw [List.dropWhile_cons, h c List.mem_cons_self]; rfl
  unfold stripLeadTrailSpace
  rw [hdrop]
  cases a using List.reverseRecOn with
  | nil => rfl
  | append_singleton a c =>
    have hc := h c (by simp)
    rw [List.rdropWhile_concat, hc]
    rfl

theorem strip_strip (a : List UInt16) :
    stripLeadTrailSpace (stripLeadTrailSpace a) = stripLeadTrailSpace a := by
  have hdrop : (stripLeadTrailSpace a).dropWhile isSpace = stripLeadTrailSpace a := by
    unfold stripLeadTrailSpace
    cases hstrip : (a.dropWhile isSpace).rdropWhile isSpace with
    | nil => rfl
    | cons c s =>
      have hpre := List.rdropWhile_prefix isSpace (l := a.dropWhile isSpace)
      rw [hstrip] at hpre
      obtain ⟨t, ht⟩ := hpre
      have hc : isSpace c = false := by
        have hidem := List.dropWhile_idempotent isSpace a
        rw [← ht, List.cons_append, List.dropWhile_cons] at hidem
        by_contra hspace
        rw [if_pos (by simpa using hspace)] at hidem
        have hlen := congrArg List.length hidem
        have hle := (List.dropWhile_suffix isSpace (l := s ++ t)).length_le
        rw [List.length_cons] at hlen
        omega
      rw [List.dropWhile_cons, hc]
      rfl
  calc stripLeadTrailSpace (stripLeadTrailSpace a)
      = ((stripLeadTrailSpace a).dropWhile isSpace).rdropWhile isSpace := rfl
    _ = (stripLeadTrailSpace a).rdropWhile isSpace := by rw [hdrop]
    _ = stripLeadTrailSpace a := List.rdropWhile_idempotent isSpace _

theorem mem_of_mem_strip {c : UInt16} (h : c ∈ stripLeadTrailSpace a) : c ∈ a := by
  have hpre := List.rdropWhile_prefix isSpace (l := a.dropWhile isSpace)
  exact (List.dropWhile_suffix isSpace).subset (hpre.subset h)

theorem deleteQuotes_of_noQuote (h : quote ∉ a) : deleteQuotes a = a := by
  refine List.filter_eq_self.mpr fun c hc => ?_
  have hne : c ≠ quote := fun e => h (e ▸ hc)
  simpa using hne

theorem quote_notMem_deleteQuotes (a : List UInt16) : quote ∉ deleteQuotes a := by
  intro h
  have hc := (List.mem_filter.mp h).2
  simp at hc

theorem splitCommand_unquoted {c : UInt16} (hc : c ≠ quote) (cs : List UInt16) :
    splitCommand garbage (c :: cs) = ((c :: cs).takeWhile (!isSpace ·),
      skipSpace ((c :: cs).dropWhile (!isSpace ·))) := if_neg hc

theorem splitCommand_quote (c : UInt16) (cs : List UInt16) :
    splitCommand garbage (quote :: c :: cs) =
      (c :: cs.takeWhile (· != quote), skipSpace (cs.dropWhile (· != quote))) := rfl

/-! ### The command that is returned -/

/-- A name and parameters as they are put together. -/
theorem splitCommand_plain (ha : ∀ c ∈ a, isSpace c = false) (hq : quote ∉ a)
    (hp : p.dropWhile isSpace = p) :
    splitCommand garbage (if p = [] then a else a ++ [blank] ++ p) = (a, p) := by
  have htake : ∀ l, (a ++ l).takeWhile (!isSpace ·) = a ++ l.takeWhile (!isSpace ·) := by
    intro l
    exact List.takeWhile_append_of_pos fun c hc => by rw [ha c hc]; rfl
  have hdrop : ∀ l, (a ++ l).dropWhile (!isSpace ·) = l.dropWhile (!isSpace ·) := by
    intro l
    exact List.dropWhile_append_of_pos fun c hc => by rw [ha c hc]; rfl
  have hunquoted : ∀ l, l.head? ≠ some quote → splitCommand garbage l =
      (l.takeWhile (!isSpace ·), skipSpace (l.dropWhile (!isSpace ·))) := by
    intro l hl
    cases l with
    | nil => rfl
    | cons c l =>
      exact splitCommand_unquoted (fun e => hl (congrArg some e)) l
  have hhead : ∀ l, l.head? ≠ some quote → (a ++ l).head? ≠ some quote := by
    intro l hl
    cases a with
    | nil => exact hl
    | cons c a =>
      intro e
      exact hq (Option.some.inj e ▸ List.mem_cons_self)
  by_cases hnil : p = []
  · rw [if_pos hnil, hnil]
    have h := hunquoted (a ++ []) (hhead [] nofun)
    rw [htake, hdrop] at h
    simpa [skipSpace] using h
  · rw [if_neg hnil, List.append_assoc, hunquoted _ (hhead _ (by simp [blank, quote])), htake,
      hdrop]
    have hblank : isSpace blank = true := by decide
    simp [hblank, skipSpace, hp]

theorem splitCommand_quoted (hne : a ≠ []) (hq : quote ∉ a) (hp : p.dropWhile isSpace = p) :
    splitCommand garbage (if p = [] then [quote] ++ a ++ [quote]
      else [quote] ++ a ++ [quote] ++ [blank] ++ p) = (a, p) := by
  obtain ⟨c, s, rfl⟩ := List.exists_cons_of_ne_nil hne
  have hall : ∀ c' ∈ s, (c' != quote) = true := by
    intro c' hc'
    have hne' : c' ≠ quote := fun e => hq (e ▸ List.mem_cons_of_mem c hc')
    simpa using hne'
  have hsplit : ∀ l, splitCommand garbage ([quote] ++ c :: s ++ [quote] ++ l) =
      (c :: s, skipSpace (quote :: l)) := by
    intro l
    show splitCommand garbage (quote :: c :: (s ++ [quote] ++ l)) = _
    rw [splitCommand_quote, List.append_assoc, List.takeWhile_append_of_pos hall,
      List.dropWhile_append_of_pos hall]
    simp
  by_cases hnil : p = []
  · rw [if_pos hnil, hnil]
    have h := hsplit []
    rwa [List.append_nil] at h
  · have hblank : isSpace blank = true := by decide
    rw [if_neg hnil, List.append_assoc _ [blank], hsplit]
    show (c :: s, ([blank] ++ p).dropWhile isSpace) = _
    rw [List.singleton_append, List.dropWhile_cons, hblank, if_pos rfl, hp]

/-! ### The names -/

/-- What the names of a command are like. -/
structure Names (a p : List UInt16) : Prop where
  noQuote : quote ∉ a
  stripped : stripLeadTrailSpace a = a
  trimmed : p.dropWhile isSpace = p

theorem names_namesOf (hcmd : PlainCommand cmd) :
    Names (namesOf garbage cmd).1 (namesOf garbage cmd).2 ∧
      namesOf garbage cmd = namesOf [] cmd := by
  unfold namesOf
  cases cmd with
  | nil => exact ⟨⟨quote_notMem_deleteQuotes _, rfl, rfl⟩, rfl⟩
  | cons c cs =>
    by_cases hc : c = quote
    · subst hc
      cases cs with
      | nil => exact absurd rfl hcmd.notLone
      | cons c' cs' =>
        have hc' : c' ≠ quote := fun e => hcmd.notTwo ⟨cs', by rw [e]; rfl⟩
        have hname : quote ∉ c' :: cs'.takeWhile (· != quote) := by
          intro hmem
          rcases List.mem_cons.mp hmem with h | h
          · exact hc' h.symm
          · have hne := List.mem_takeWhile_imp h
            simp at hne
        have hstrip : quote ∉ stripLeadTrailSpace (c' :: cs'.takeWhile (· != quote)) :=
          fun hmem => hname (mem_of_mem_strip hmem)
        rw [splitCommand_quote, splitCommand_quote]
        dsimp only
        rw [deleteQuotes_of_noQuote hstrip]
        exact ⟨⟨hstrip, strip_strip _, skipSpace_trimmed _⟩, rfl⟩
    · rw [splitCommand_unquoted hc, splitCommand_unquoted hc]
      dsimp only
      have hspace : ∀ d ∈ (c :: cs).takeWhile (!isSpace ·), isSpace d = false := by
        intro d hd
        have h := List.mem_takeWhile_imp hd
        simpa using h
      rw [strip_of_noSpace hspace]
      have hname : ∀ d ∈ deleteQuotes ((c :: cs).takeWhile (!isSpace ·)), isSpace d = false :=
        fun d hd => hspace d (List.mem_filter.mp hd).1
      have hstripped := strip_of_noSpace hname
      exact ⟨⟨quote_notMem_deleteQuotes _, hstripped, skipSpace_trimmed _⟩, rfl⟩

theorem namesOf_commandOf {job : AtJob} (hcmd : PlainCommand cmd)
    (hjob : (job.m_pwszApplicationName, job.m_pwszParameters) = namesOf garbage cmd) :
    namesOf garbage (commandOf job) = namesOf garbage cmd := by
  obtain ⟨hnames, hgarbage⟩ := @names_namesOf garbage _ hcmd
  have htabBlank := hcmd.tabBlank
  rw [← hgarbage] at htabBlank
  rw [← hjob] at hnames htabBlank ⊢
  dsimp only at hnames htabBlank
  have hsplit : splitCommand garbage (commandOf job) =
      (job.m_pwszApplicationName, job.m_pwszParameters) := by
    unfold commandOf
    by_cases hblank : blank ∈ job.m_pwszApplicationName
    · rw [if_pos hblank]
      exact splitCommand_quoted (List.ne_nil_of_mem hblank) hnames.noQuote hnames.trimmed
    · rw [if_neg hblank]
      refine splitCommand_plain (fun c hc => isSpace_eq_false.mpr ⟨?_, ?_⟩) hnames.noQuote
        hnames.trimmed
      · exact fun e => hblank (e ▸ hc)
      · exact fun e => hblank (htabBlank (e ▸ hc))
  unfold namesOf
  rw [hsplit, hnames.stripped, deleteQuotes_of_noQuote hnames.noQuote]

end NtAdmin.Sched.Schedule
