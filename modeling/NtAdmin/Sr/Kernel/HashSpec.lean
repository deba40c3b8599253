import Mathlib.Data.Prod.Lex
import Mathlib.Data.List.Lex
import NtAdmin.Lib.SortedSearch
import NtAdmin.Sr.Kernel.Hash

/-! The order of the hashed names, and what the search in a bucket finds. -/
namespace NtAdmin.Sr

open SortedSearch Compared

/-- The hash, the length and the characters of the file name behind the prefix, and the length and
the characters of the stream name. -/
abbrev Rank := ℕ ×ₗ ℕ ×ₗ List ℕ ×ₗ ℕ ×ₗ List ℕ

section names
variable (nls : Nls)

/-- Characters without regard to case. -/
def Nls.fold (name : List Wchar) : List ℕ := name.map fun c => (nls.towlower c).toNat

def rankOf (offset HashValue : ℕ) (key : HashKey) : Rank :=
  toLex (HashValue, toLex (key.Length, toLex (nls.fold (key.FileName.drop offset),
    toLex (key.StreamNameLength, nls.fold key.StreamName))))

def HashEntry.rank (offset : ℕ) (pEntry : HashEntry) : Rank :=
  rankOf nls offset pEntry.HashValue pEntry.Key

/-- Only NUL has NUL as its lower case, and characters of one lower case have one upper case. -/
structure Nls.Lawful : Prop where
  towlower_eq_zero : ∀ c, nls.towlower c = 0 → c = 0
  upcase_eq : ∀ c c', nls.towlower c = nls.towlower c' → nls.upcase c = nls.upcase c'

/-- A name that starts with the characters all keys of a list share; no name has a NUL. -/
structure HashKey.Shares (pre : List Wchar) (key : HashKey) : Prop where
  prefix_eq : key.FileName.take pre.length = pre
  no_nul : 0 ∉ key.Buffer

end names

theorem HashKey.Shares.length_le {pre : List Wchar} {key : HashKey} (h : key.Shares pre) :
    pre.length ≤ key.FileName.length := by
  have hlength := congrArg List.length h.prefix_eq
  rw [List.length_take] at hlength
  omega

theorem HashKey.Shares.drop_buffer {pre : List Wchar} {key : HashKey} (h : key.Shares pre) :
    key.Buffer.drop pre.length = key.FileName.drop pre.length ++ key.StreamName := by
  rw [HashKey.Buffer, List.drop_append, Nat.sub_eq_zero_of_le h.length_le, List.drop_zero]

theorem HashKey.length_div_two (key : HashKey) : key.Length / 2 = key.FileName.length :=
  Nat.mul_div_cancel_left _ (by omega)

theorem HashKey.streamNameLength_div_two (key : HashKey) :
    key.StreamNameLength / 2 = key.StreamName.length :=
  Nat.mul_div_cancel_left _ (by omega)

theorem streamName_eq_nil {key : HashKey} (h : key.StreamNameLength = 0) : key.StreamName = [] := by
  rw [HashKey.StreamNameLength] at h
  exact List.length_eq_zero_iff.1 (by omega)

/-- What an answer means for the ranks of a key and of an entry. -/
def Compared.Holds {κ : Type*} [LT κ] (key entry : κ) : Compared → Prop
  | CONTINUE => entry < key
  | FOUND => key = entry
  | NOT_FOUND => key < entry

section answers
variable {α β : Type*} [LinearOrder α] [LinearOrder β] {answer : Compared}

/-- Behind equal parts the rest decides. -/
theorem Compared.Holds.lex {x y : α} {a b : β} (h : answer.Holds a b) (hsame : x = y) :
    answer.Holds (toLex (x, a)) (toLex (y, b)) := by
  subst hsame
  cases answer with
  | CONTINUE => exact Prod.Lex.toLex_lt_toLex.2 (Or.inr ⟨rfl, h⟩)
  | FOUND => exact congrArg (fun c => toLex (x, c)) h
  | NOT_FOUND => exact Prod.Lex.toLex_lt_toLex.2 (Or.inr ⟨rfl, h⟩)

/-- The sign of a comparison decides. -/
theorem Compared.holds_of_sign {temp : ℤ} {x y : α}
    (hsign : (0 < temp ↔ y < x) ∧ (temp = 0 ↔ x = y)) :
    (if temp > 0 then CONTINUE else if temp = 0 then FOUND else NOT_FOUND).Holds x y := by
  split_ifs with hgreater hequal
  · exact hsign.1.1 hgreater
  · exact hsign.2.1 hequal
  · have hle : x ≤ y := not_lt.1 fun h => hgreater (hsign.1.2 h)
    exact lt_of_le_of_ne hle fun h => hequal (hsign.2.2 h)

/-- The sign of a comparison decides, and behind equal parts the rest. -/
theorem Compared.holds_of_sign_then {temp : ℤ} {x y : α} {a b : β}
    (hsign : (0 < temp ↔ y < x) ∧ (temp = 0 ↔ x = y)) (hrest : x = y → answer.Holds a b) :
    (if temp > 0 then CONTINUE else if temp = 0 then answer else NOT_FOUND).Holds
      (toLex (x, a)) (toLex (y, b)) := by
  have hfirst := holds_of_sign hsign
  split_ifs at hfirst ⊢ with hgreater hequal
  · exact Prod.Lex.toLex_lt_toLex.2 (Or.inl hfirst)
  · exact (hrest hfirst).lex hfirst
  · exact Prod.Lex.toLex_lt_toLex.2 (Or.inl hfirst)

end answers

section compare
variable {nls : Nls} (hnls : nls.Lawful)
include hnls

/-- The sign of a comparison is the order of the names. -/
theorem wcsnicmp_spec {a b : List Wchar} (hlength : a.length = b.length) (ha : 0 ∉ a) (hb : 0 ∉ b)
    (x y : List Wchar) :
    (0 < nls.wcsnicmp a.length (a ++ x) (b ++ y) ↔ nls.fold b < nls.fold a) ∧
      (nls.wcsnicmp a.length (a ++ x) (b ++ y) = 0 ↔ nls.fold a = nls.fold b) := by
  induction a generalizing b with
  | nil =>
    obtain rfl := List.length_eq_zero_iff.1 hlength.symm
    rw [List.length_nil, Nls.wcsnicmp]
    · simp
    · simp
  | cons c a ih =>
    cases b with
    | nil => nomatch hlength
    | cons d b =>
      have hc : nls.towlower c ≠ 0 := fun h => ha (hnls.towlower_eq_zero c h ▸ List.mem_cons_self)
      have ih := ih (Nat.succ.inj hlength) (fun h => ha (List.mem_cons_of_mem c h))
        (fun h => hb (List.mem_cons_of_mem d h))
      rw [List.length_cons, List.cons_append, List.cons_append, Nls.wcsnicmp]
      simp only [Nls.fold, List.map_cons, List.cons_lt_cons_iff, List.cons_eq_cons] at ih ⊢
      by_cases hsame : nls.towlower c = nls.towlower d
      · rw [if_pos ⟨hc, hsame⟩, hsame]
        simpa using ih
      · have hne : (nls.towlower c).toNat ≠ (nls.towlower d).toNat :=
          fun h => hsame (UInt16.toNat_inj.1 h)
        rw [if_neg fun h => hsame h.2]
        constructor
        · constructor
          · intro h
            exact Or.inl (by omega)
          · rintro (h | ⟨h, -⟩)
            · omega
            · exact absurd h.symm hne
        · constructor
          · intro h
            exact absurd (by omega) hne
          · rintro ⟨h, -⟩
            exact absurd h hne

theorem hashpCompareStreams_holds {pKey : HashKey} {pEntry : HashEntry} (hkey : 0 ∉ pKey.Buffer)
    (hentry : 0 ∉ pEntry.Key.Buffer) (hlength : pKey.Length = pEntry.Key.Length) :
    (hashpCompareStreams nls pKey pEntry).Holds
      (toLex (pKey.StreamNameLength, nls.fold pKey.StreamName))
      (toLex (pEntry.Key.StreamNameLength, nls.fold pEntry.Key.StreamName)) := by
  obtain ⟨-, hkeyStream⟩ := not_or.1 (List.mem_append.not.1 hkey)
  obtain ⟨-, hentryStream⟩ := not_or.1 (List.mem_append.not.1 hentry)
  have hfile : pKey.FileName.length = pEntry.Key.FileName.length := by
    simp only [HashKey.Length] at hlength
    omega
  have hkeyDrop : pKey.Buffer.drop (pKey.Length / 2) = pKey.StreamName := by
    rw [HashKey.length_div_two, HashKey.Buffer, List.drop_left]
  have hentryDrop : pEntry.Key.Buffer.drop (pKey.Length / 2) = pEntry.Key.StreamName := by
    rw [HashKey.length_div_two, hfile, HashKey.Buffer, List.drop_left]
  unfold hashpCompareStreams
  dsimp only
  rw [hkeyDrop, hentryDrop, HashKey.streamNameLength_div_two]
  by_cases hempty : pKey.StreamNameLength = 0 ∧ pEntry.Key.StreamNameLength = 0
  · have hkeyNil := streamName_eq_nil hempty.1
    have hentryNil := streamName_eq_nil hempty.2
    rw [if_pos hempty]
    simp [Compared.Holds, hkeyNil, hentryNil, HashKey.StreamNameLength]
  rw [if_neg hempty]
  by_cases hless : pKey.StreamNameLength < pEntry.Key.StreamNameLength
  · rw [if_pos hless]
    exact Prod.Lex.toLex_lt_toLex.2 (Or.inl hless)
  rw [if_neg hless]
  by_cases hsame : pKey.StreamNameLength = pEntry.Key.StreamNameLength
  · have hstream : pKey.StreamName.length = pEntry.Key.StreamName.length := by
      simp only [HashKey.StreamNameLength] at hsame
      omega
    have hsign := wcsnicmp_spec hnls hstream hkeyStream hentryStream [] []
    rw [List.append_nil, List.append_nil] at hsign
    rw [if_pos hsame]
    exact (Compared.holds_of_sign hsign).lex hsame
  · rw [if_neg hsame]
    exact Prod.Lex.toLex_lt_toLex.2 (Or.inl (by omega))

/-- The comparison of a key with an entry is that of their ranks. -/
theorem hashpCompare_holds {pHeader : HashHeader} {pre : List Wchar}
    (hpre : pHeader.PrefixLength / 2 = pre.length) {pKey : HashKey} {pEntry : HashEntry}
    (hkey : pKey.Shares pre) (hentry : pEntry.Key.Shares pre) (HashValue : ℕ) :
    (hashpCompare nls pHeader HashValue pKey pEntry).Holds
      (rankOf nls pre.length HashValue pKey) (pEntry.rank nls pre.length) := by
  unfold hashpCompare rankOf HashEntry.rank rankOf
  dsimp only
  rw [hpre, hkey.drop_buffer, hentry.drop_buffer, HashKey.length_div_two, ← List.length_drop]
  by_cases hhash : HashValue > pEntry.HashValue
  · rw [if_pos hhash]
    exact Prod.Lex.toLex_lt_toLex.2 (Or.inl hhash)
  rw [if_neg hhash]
  by_cases hsame : HashValue = pEntry.HashValue
  · rw [if_pos hsame]
    refine Compared.Holds.lex ?_ hsame
    by_cases hless : pKey.Length < pEntry.Key.Length
    · rw [if_pos hless]
      exact Prod.Lex.toLex_lt_toLex.2 (Or.inl hless)
    rw [if_neg hless]
    by_cases hlength : pKey.Length = pEntry.Key.Length
    · have hfile : (pKey.FileName.drop pre.length).length =
          (pEntry.Key.FileName.drop pre.length).length := by
        simp only [HashKey.Length] at hlength
        rw [List.length_drop, List.length_drop]
        omega
      have hkeyFile : 0 ∉ pKey.FileName.drop pre.length := fun h =>
        hkey.no_nul (List.mem_append_left _ (List.mem_of_mem_drop h))
      have hentryFile : 0 ∉ pEntry.Key.FileName.drop pre.length := fun h =>
        hentry.no_nul (List.mem_append_left _ (List.mem_of_mem_drop h))
      have hsign := wcsnicmp_spec hnls hfile hkeyFile hentryFile pKey.StreamName
        pEntry.Key.StreamName
      have hstreams := hashpCompareStreams_holds hnls hkey.no_nul hentry.no_nul hlength
      rw [if_pos hlength]
      exact (Compared.holds_of_sign_then hsign fun _ => hstreams).lex hlength
    · rw [if_neg hlength]
      exact Prod.Lex.toLex_lt_toLex.2 (Or.inl (by omega))
  · rw [if_neg hsame]
    exact Prod.Lex.toLex_lt_toLex.2 (Or.inl (by omega))

/-- The search stops at the position of the key, with the context of the entry of that rank. -/
theorem hashpFindLoop_eq {pHeader : HashHeader} {pre : List Wchar}
    (hpre : pHeader.PrefixLength / 2 = pre.length) {pKey : HashKey} (hkey : pKey.Shares pre)
    (HashValue : ℕ) {entries : List HashEntry} (hentries : ∀ e ∈ entries, e.Key.Shares pre)
    (hsorted : Ascending (HashEntry.rank nls pre.length) entries) (Index : ℕ) :
    hashpFindLoop nls pHeader HashValue pKey entries Index =
      let rank := rankOf nls pre.length HashValue pKey
      ((entries.find? fun e => e.rank nls pre.length = rank).map HashEntry.pContext,
        Index + position (HashEntry.rank nls pre.length) rank entries) := by
  induction entries generalizing Index with
  | nil => rfl
  | cons e entries ih =>
    have hcompare := hashpCompare_holds hnls hpre hkey (hentries e List.mem_cons_self) HashValue
    rw [hashpFindLoop]
    dsimp only
    rw [position]
    cases hanswer : hashpCompare nls pHeader HashValue pKey e with
    | NOT_FOUND =>
      rw [hanswer] at hcompare
      rw [find?_eq_none_of_lt hsorted hcompare, if_neg (not_lt.2 hcompare.le)]
      rfl
    | FOUND =>
      rw [hanswer] at hcompare
      have hsame : rankOf nls pre.length HashValue pKey = e.rank nls pre.length := hcompare
      rw [hsame, List.find?_cons_of_pos (by simp), if_neg (lt_irrefl _)]
      rfl
    | CONTINUE =>
      rw [hanswer] at hcompare
      have hlt : e.rank nls pre.length < rankOf nls pre.length HashValue pKey := hcompare
      rw [if_pos hlt, List.find?_cons_of_neg (by simpa using hlt.ne)]
      dsimp only
      rw [ih (fun e' he' => hentries e' (List.mem_cons_of_mem e he')) hsorted.of_cons]
      dsimp only
      rw [Nat.add_right_comm, Nat.add_assoc]

end compare

end NtAdmin.Sr
