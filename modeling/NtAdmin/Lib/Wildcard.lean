import Mathlib.Data.List.Forall2

/-! Patterns of one-character classes and wildcards, and the words that belong to them. -/
namespace NtAdmin.Wildcard

universe v
variable {α : Type v}

inductive Piece (α : Type v) where
  | any
  | one (accepts : α → Prop)

open Piece

/-- The language of a pattern. -/
def Lang : List (Piece α) → List α → Prop
  | [], s => s = []
  | any :: ps, s => ∃ t, t <:+ s ∧ Lang ps t
  | one accepts :: ps, s => ∃ c t, s = c :: t ∧ accepts c ∧ Lang ps t

/-- The classes of a pattern, in order. -/
def ones : List (Piece α) → List (α → Prop)
  | [] => []
  | any :: ps => ones ps
  | one accepts :: ps => accepts :: ones ps

/-- Each character is in its class. -/
abbrev Fits (classes : List (α → Prop)) (s : List α) : Prop :=
  List.Forall₂ (fun accepts c => accepts c) classes s

/-- Every class has a character of the alphabet `A`. -/
def Alive (A : Set α) (ps : List (Piece α)) : Prop := ∀ accepts ∈ ones ps, ∃ c ∈ A, accepts c

/-- Two patterns with the same words over the alphabet `A`. -/
def Same (A : Set α) (ps qs : List (Piece α)) : Prop :=
  ∀ s : List α, (∀ c ∈ s, c ∈ A) → (Lang ps s ↔ Lang qs s)

variable {A : Set α} {ps qs : List (Piece α)} {s : List α}

theorem Same.symm (h : Same A ps qs) : Same A qs ps := fun s hs => (h s hs).symm

theorem lang_of_fits (h : Fits (ones ps) s) : Lang ps s := by
  induction ps generalizing s with
  | nil =>
    rcases h with _ | _
    rfl
  | cons p ps ih =>
    cases p with
    | any => exact ⟨s, List.suffix_refl s, ih h⟩
    | one accepts =>
      rcases h with _ | ⟨hc, ht⟩
      exact ⟨_, _, rfl, hc, ih ht⟩

theorem length_ones_le (h : Lang ps s) : (ones ps).length ≤ s.length := by
  induction ps generalizing s with
  | nil => exact Nat.zero_le _
  | cons p ps ih =>
    cases p with
    | any =>
      obtain ⟨t, ht, h⟩ := h
      exact Nat.le_trans (ih h) ht.length_le
    | one accepts =>
      obtain ⟨c, t, rfl, -, h⟩ := h
      exact Nat.succ_le_succ (ih h)

/-- A shortest word has one character for each class. -/
theorem fits_of_lang (h : Lang ps s) (hs : s.length = (ones ps).length) : Fits (ones ps) s := by
  induction ps generalizing s with
  | nil =>
    have hnil : s = [] := h
    rw [hnil]
    exact List.Forall₂.nil
  | cons p ps ih =>
    cases p with
    | any =>
      obtain ⟨t, ht, h⟩ := h
      have hle := length_ones_le h
      have heq : t = s := ht.eq_of_length_le (by rw [hs]; exact hle)
      rw [heq] at h
      exact ih h hs
    | one accepts =>
      obtain ⟨c, t, rfl, hc, h⟩ := h
      exact List.Forall₂.cons hc (ih h (Nat.succ.inj hs))

/-- The classes of a word's pattern are not empty. -/
theorem alive_of_lang (h : Lang ps s) (hs : ∀ c ∈ s, c ∈ A) : Alive A ps := by
  induction ps generalizing s with
  | nil => exact fun _ hmem => (nomatch hmem)
  | cons p ps ih =>
    cases p with
    | any =>
      obtain ⟨t, ht, h⟩ := h
      exact ih h fun c hc => hs c (ht.subset hc)
    | one accepts =>
      obtain ⟨c, t, rfl, hc, h⟩ := h
      intro accepts' hmem
      rcases List.mem_cons.mp hmem with rfl | hmem
      · exact ⟨c, hs c List.mem_cons_self, hc⟩
      · exact ih h (fun c hc => hs c (List.mem_cons_of_mem _ hc)) accepts' hmem

/-- Every choice for one class extends to a shortest word. -/
theorem exists_fits (classes : List (α → Prop)) (h : ∀ accepts ∈ classes, ∃ c ∈ A, accepts c) :
    ∃ s, Fits classes s ∧ ∀ c ∈ s, c ∈ A := by
  induction classes with
  | nil => exact ⟨[], List.Forall₂.nil, fun _ hmem => (nomatch hmem)⟩
  | cons accepts classes ih =>
    obtain ⟨s, hs, hA⟩ := ih fun a ha => h a (List.mem_cons_of_mem _ ha)
    obtain ⟨c, hcA, hc⟩ := h accepts List.mem_cons_self
    have hcs : ∀ d ∈ c :: s, d ∈ A := by
      intro d hd
      rcases List.mem_cons.mp hd with rfl | hd
      · exact hcA
      · exact hA d hd
    exact ⟨c :: s, List.Forall₂.cons hc hs, hcs⟩

theorem Same.alive (h : Same A ps qs) (hps : Alive A ps) : Alive A qs := by
  obtain ⟨s, hs, hA⟩ := exists_fits _ hps
  have hq := (h s hA).mp (lang_of_fits hs)
  exact alive_of_lang hq hA

theorem Same.length_le (h : Same A ps qs) (hps : Alive A ps) :
    (ones qs).length ≤ (ones ps).length := by
  obtain ⟨s, hs, hA⟩ := exists_fits _ hps
  have hq := length_ones_le ((h s hA).mp (lang_of_fits hs))
  rw [hs.length_eq]
  exact hq

theorem Same.length_eq (h : Same A ps qs) (hps : Alive A ps) :
    (ones ps).length = (ones qs).length :=
  Nat.le_antisymm (h.symm.length_le (h.alive hps)) (h.length_le hps)

/-- Lists of classes with the same words agree class by class, when none is empty. -/
theorem classes_of_fits {as bs : List (α → Prop)} (hlen : as.length = bs.length)
    (hab : ∀ s : List α, (∀ c ∈ s, c ∈ A) → Fits as s → Fits bs s)
    (has : ∀ accepts ∈ as, ∃ c ∈ A, accepts c) :
    List.Forall₂ (fun a b : α → Prop => ∀ c ∈ A, a c → b c) as bs := by
  induction as generalizing bs with
  | nil =>
    have hnil : bs = [] := List.eq_nil_of_length_eq_zero hlen.symm
    rw [hnil]
    exact List.Forall₂.nil
  | cons a as ih =>
    obtain _ | ⟨b, bs⟩ := bs
    · nomatch hlen
    have htail : ∀ accepts ∈ as, ∃ c ∈ A, accepts c :=
      fun accepts hmem => has accepts (List.mem_cons_of_mem _ hmem)
    have hcons : ∀ c ∈ A, a c → ∀ t : List α, (∀ d ∈ t, d ∈ A) → Fits as t → b c ∧ Fits bs t := by
      intro c hcA hc t htA ht
      have hA : ∀ d ∈ c :: t, d ∈ A := by
        intro d hd
        rcases List.mem_cons.mp hd with rfl | hd
        · exact hcA
        · exact htA d hd
      have hfits := hab (c :: t) hA (List.Forall₂.cons hc ht)
      exact ⟨(List.forall₂_cons.mp hfits).1, (List.forall₂_cons.mp hfits).2⟩
    constructor
    · intro c hcA hc
      obtain ⟨t, ht, htA⟩ := exists_fits as htail
      exact (hcons c hcA hc t htA ht).1
    · obtain ⟨c, hcA, hc⟩ := has a List.mem_cons_self
      exact ih (Nat.succ.inj hlen) (fun t htA ht => (hcons c hcA hc t htA ht).2) htail

/-- Patterns with the same words have the same classes. -/
theorem Same.classes (h : Same A ps qs) (hps : Alive A ps) :
    List.Forall₂ (fun a b : α → Prop => ∀ c ∈ A, a c → b c) (ones ps) (ones qs) := by
  have hlen := h.length_eq hps
  refine classes_of_fits hlen (fun s hA hs => ?_) hps
  have hq := (h s hA).mp (lang_of_fits hs)
  exact fits_of_lang hq (hs.length_eq.symm.trans hlen)

/-- Without a wildcard all words have one length. -/
theorem length_of_not_any (hany : Piece.any ∉ ps) (h : Lang ps s) : s.length = (ones ps).length := by
  induction ps generalizing s with
  | nil =>
    have hnil : s = [] := h
    rw [hnil]
    rfl
  | cons p ps ih =>
    cases p with
    | any => exact absurd List.mem_cons_self hany
    | one accepts =>
      obtain ⟨c, t, rfl, -, h⟩ := h
      exact congrArg Nat.succ (ih (fun hmem => hany (List.mem_cons_of_mem _ hmem)) h)

/-- With a wildcard there is a longer word. -/
theorem exists_longer (hany : Piece.any ∈ ps) (hs : Fits (ones ps) s) (d : α) :
    ∃ t, Lang ps t ∧ t.length = s.length + 1 ∧ ∀ c ∈ t, c = d ∨ c ∈ s := by
  induction ps generalizing s with
  | nil => nomatch hany
  | cons p ps ih =>
    cases p with
    | any =>
      have hlang : Lang (any :: ps) (d :: s) := ⟨s, List.suffix_cons d s, lang_of_fits hs⟩
      exact ⟨d :: s, hlang, rfl, fun c hc => List.mem_cons.mp hc⟩
    | one accepts =>
      rcases hs with _ | @⟨_, c, _, s, hc, hs⟩
      have hmem : Piece.any ∈ ps := by
        rcases List.mem_cons.mp hany with h | h
        · nomatch h
        · exact h
      obtain ⟨t, ht, hlen, hsub⟩ := ih hmem hs
      refine ⟨c :: t, ⟨c, t, rfl, hc, ht⟩, congrArg Nat.succ hlen, fun e he => ?_⟩
      rcases List.mem_cons.mp he with rfl | he
      · exact Or.inr List.mem_cons_self
      · exact (hsub e he).imp_right (List.mem_cons_of_mem _)

/-- Patterns with the same words have a wildcard both or neither. -/
theorem Same.any_mem (h : Same A ps qs) (hps : Alive A ps) {d : α} (hd : d ∈ A)
    (hany : Piece.any ∈ ps) : Piece.any ∈ qs := by
  by_contra hq
  obtain ⟨s, hs, hA⟩ := exists_fits _ hps
  obtain ⟨t, ht, hlen, hsub⟩ := exists_longer hany hs d
  have htA : ∀ c ∈ t, c ∈ A := by
    intro c hc
    rcases hsub c hc with rfl | hc
    · exact hd
    · exact hA c hc
  have h1 := length_of_not_any hq ((h s hA).mp (lang_of_fits hs))
  have h2 := length_of_not_any hq ((h t htA).mp ht)
  omega

end NtAdmin.Wildcard
