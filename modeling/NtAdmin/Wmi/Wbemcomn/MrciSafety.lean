import NtAdmin.Wmi.Wbemcomn.MrciReader

/-! Which compressed data the decompression of mrcicode.cpp is safe on. -/
namespace NtAdmin.Wmi.Mrci
open Lib

/-! ### The tokens of the data -/

/-- The tokens in front of what stops the reading. -/
def tokens (readToken : BitStream → Except Stop (Token × BitStream)) :
    ℕ → BitStream → List Token × Stop
  | 0, _ => ([], .fuel)
  | fuel + 1, s =>
    match readToken s with
    | .error stop => ([], stop)
    | .ok (token, s) => (token :: (tokens readToken fuel s).1, (tokens readToken fuel s).2)

/-- The tokens of the bytes behind the signature. A token has a bit or more. -/
def tokensOf (readToken : BitStream → Except Stop (Token × BitStream)) (bytes : List UInt8) :
    List Token × Stop :=
  tokens readToken (8 * bytes.length + 1) (.ofBytes bytes)

/-- Behind `count` bytes of output the tokens are literals and matches of earlier output within the
limit, up to an end marker at the limit. -/
def WellFormed (cchdecMax : ℕ) : List Token → ℕ → Prop
  | [], _ => False
  | .literal _ :: ts, count => count < cchdecMax ∧ WellFormed cchdecMax ts (count + 1)
  | .marker :: ts, count => cchdecMax ≤ count ∨ WellFormed cchdecMax ts count
  | .string disp length :: ts, count => (1 ≤ disp ∧ disp ≤ count) ∧ count + length ≤ cchdecMax ∧
      WellFormed cchdecMax ts (count + length)

/-- The input ends before the end marker, and up to there the tokens stay in the output. -/
def Truncated (cchdecMax : ℕ) (stop : Stop) : List Token → ℕ → Prop
  | [], _ => stop = .overrun
  | .literal _ :: ts, count => count < cchdecMax ∧ Truncated cchdecMax stop ts (count + 1)
  | .marker :: ts, count => count < cchdecMax ∧ Truncated cchdecMax stop ts count
  | .string disp length :: ts, count => (length ≠ 0 → disp ≤ count) ∧ count + length ≤ cchdecMax ∧
      Truncated cchdecMax stop ts (count + length)

/-- The data does not begin with the signature, or has nothing behind it. -/
def NoSignature (sig₀ sig₁ : UInt8) (pchin : List UInt8) : Prop :=
  pchin.length ≤ sigSize ∨ pchin[0]? ≠ some sig₀ ∨ pchin[1]? ≠ some sig₁

instance (sig₀ sig₁ : UInt8) (pchin : List UInt8) : Decidable (NoSignature sig₀ sig₁ pchin) :=
  inferInstanceAs (Decidable (_ ∨ _))

/-- A format: its signature and its tokens. -/
structure Format where
  sig₀ : UInt8
  sig₁ : UInt8
  readToken : BitStream → Except Stop (Token × BitStream)

def mrci1 : Format := ⟨68, 83, mrci1Token streamSource⟩

def mrci2 : Format := ⟨74, 77, mrci2Token streamSource⟩

namespace Format
variable (f : Format) (cchdecMax : ℕ) (pchin : List UInt8)

/-- Data that is what the compression makes of `cchdecMax` bytes. -/
def IsWellFormed : Prop :=
  ¬ NoSignature f.sig₀ f.sig₁ pchin ∧
    WellFormed cchdecMax (tokensOf f.readToken (pchin.drop sigSize)).1 0

/-- Data that is cut off in front of its end marker, but stays in the output up to there. -/
def IsTruncated : Prop :=
  NoSignature f.sig₀ f.sig₁ pchin ∨
    Truncated cchdecMax (tokensOf f.readToken (pchin.drop sigSize)).2
      (tokensOf f.readToken (pchin.drop sigSize)).1 0

/-- A decompression that ends, without a write behind the limit, a read in front of the output or an
operation without a meaning, and with -1 for malformed data. -/
def Safe (run : Except Stop (Option (List UInt8))) : Prop :=
  ∃ result, run = .ok result ∧ (¬ f.IsWellFormed cchdecMax pchin → result = none)

end Format

/-! ### What the loop does with the tokens -/

section play
variable (uninit : ℕ → UInt8) (cchdecMax : ℕ)

/-- The loop of the decompression over tokens that are read already. -/
def playTokens (stop : Stop) : List Token → List UInt8 → Except Stop (List UInt8)
  | [], _ => .error stop
  | .literal b :: ts, out => do
    let out ← writeByte cchdecMax out b
    playTokens stop ts out
  | .marker :: ts, out => if cchdecMax ≤ out.length then .ok out else playTokens stop ts out
  | .string disp length :: ts, out => do
    let out ← expandstring uninit cchdecMax disp length out
    playTokens stop ts out

theorem decompressLoop_eq (readToken : BitStream → Except Stop (Token × BitStream)) (fuel : ℕ)
    (s : BitStream) (out : List UInt8) :
    decompressLoop uninit cchdecMax readToken fuel s out =
      playTokens uninit cchdecMax (tokens readToken fuel s).2 (tokens readToken fuel s).1 out := by
  induction fuel generalizing s out with
  | zero => rfl
  | succ fuel ih =>
    unfold decompressLoop tokens
    cases readToken s with
    | error stop => rfl
    | ok result =>
      obtain ⟨token, s'⟩ := result
      cases token with
      | literal b =>
        simp only [bind, Except.bind, playTokens, ih]
      | marker =>
        simp only [bind, Except.bind, playTokens, ih]
      | string disp length =>
        simp only [bind, Except.bind, playTokens, ih]

theorem writeByte_spec (out : List UInt8) (b : UInt8) :
    if out.length < cchdecMax then writeByte cchdecMax out b = .ok (out ++ [b])
    else writeByte cchdecMax out b = .error .write := by
  unfold writeByte
  split_ifs <;> rfl

/-- A match is copied when it begins in the output and ends within the limit. -/
theorem expandstring_spec (disp length : ℕ) (out : List UInt8) (hlimit : out.length ≤ cchdecMax) :
    if (length ≠ 0 → disp ≤ out.length) ∧ out.length + length ≤ cchdecMax then
      ∃ out', expandstring uninit cchdecMax disp length out = .ok out' ∧
        out'.length = out.length + length
    else ∃ stop, expandstring uninit cchdecMax disp length out = .error stop ∧
      (stop = .source ∨ stop = .write) := by
  induction length generalizing out with
  | zero =>
    rw [if_pos ⟨fun h => absurd rfl h, hlimit⟩]
    exact ⟨out, rfl, rfl⟩
  | succ length ih =>
    unfold expandstring
    by_cases hsource : out.length < disp
    · rw [if_neg fun h => Nat.not_le.mpr hsource (h.1 (Nat.succ_ne_zero length)), if_pos hsource]
      exact ⟨.source, rfl, Or.inl rfl⟩
    rw [if_neg hsource]
    have hwrite := writeByte_spec cchdecMax out (out.getD (out.length - disp) (uninit out.length))
    by_cases hroom : out.length < cchdecMax
    · rw [if_pos hroom] at hwrite
      have hcopy := ih (out ++ [out.getD (out.length - disp) (uninit out.length)])
        (by rw [List.length_append, List.length_singleton]; exact hroom)
      rw [List.length_append, List.length_singleton] at hcopy
      rw [hwrite]
      simp only [bind, Except.bind]
      split_ifs at hcopy ⊢
      all_goals try omega
      · obtain ⟨out', hrun, hlength⟩ := hcopy
        exact ⟨out', hrun, by omega⟩
    · rw [if_neg hroom] at hwrite
      rw [hwrite, if_neg (by omega)]
      exact ⟨.write, rfl, Or.inr rfl⟩

/-- Well-formed tokens are played to their end marker. -/
theorem playTokens_wellFormed (stop : Stop) (ts : List Token) (out : List UInt8)
    (hlimit : out.length ≤ cchdecMax) (h : WellFormed cchdecMax ts out.length) :
    ∃ out', playTokens uninit cchdecMax stop ts out = .ok out' := by
  induction ts generalizing out with
  | nil => exact h.elim
  | cons token ts ih =>
    cases token with
    | literal b =>
      obtain ⟨hroom, hrest⟩ := h
      have hlength : (out ++ [b]).length = out.length + 1 := by
        rw [List.length_append, List.length_singleton]
      rw [playTokens, writeByte, if_pos hroom]
      exact ih (out ++ [b]) (by omega) (hlength ▸ hrest)
    | marker =>
      rw [playTokens]
      split_ifs with hend
      · exact ⟨out, rfl⟩
      · exact ih out hlimit (h.resolve_left hend)
    | string disp length =>
      obtain ⟨hdisp, hroom, hrest⟩ := h
      have hcopy := expandstring_spec uninit cchdecMax disp length out hlimit
      rw [if_pos ⟨fun _ => hdisp.2, hroom⟩] at hcopy
      obtain ⟨out', hrun, hlength⟩ := hcopy
      rw [playTokens, hrun]
      exact ih out' (hlength ▸ hroom) (hlength ▸ hrest)

/-- The tokens end in an input overrun exactly when they are truncated. -/
theorem playTokens_truncated (stop : Stop) (ts : List Token) (out : List UInt8)
    (hlimit : out.length ≤ cchdecMax) :
    playTokens uninit cchdecMax stop ts out = .error .overrun ↔
      Truncated cchdecMax stop ts out.length := by
  induction ts generalizing out with
  | nil =>
    unfold playTokens Truncated
    rw [Except.error.injEq]
  | cons token ts ih =>
    cases token with
    | literal b =>
      have hwrite := writeByte_spec cchdecMax out b
      have hlength : (out ++ [b]).length = out.length + 1 := by
        rw [List.length_append, List.length_singleton]
      unfold playTokens Truncated
      split_ifs at hwrite with hroom
      · rw [hwrite, and_iff_right hroom, ← hlength]
        exact ih (out ++ [b]) (by omega)
      · rw [hwrite]
        exact iff_of_false nofun fun h => hroom h.1
    | marker =>
      unfold playTokens Truncated
      split_ifs with hend
      · exact iff_of_false nofun fun h => Nat.not_lt.mpr hend h.1
      · rw [and_iff_right (Nat.not_le.mp hend)]
        exact ih out hlimit
    | string disp length =>
      have hcopy := expandstring_spec uninit cchdecMax disp length out hlimit
      unfold playTokens Truncated
      rw [← and_assoc]
      split_ifs at hcopy with hinside
      · obtain ⟨out', hrun, hlength⟩ := hcopy
        rw [hrun, and_iff_right hinside, ← hlength]
        exact ih out' (hlength ▸ hinside.2)
      · obtain ⟨stop', hrun, hstop⟩ := hcopy
        rw [hrun]
        refine iff_of_false (fun h => ?_) fun h => hinside h.1
        rw [Except.error.inj h] at hstop
        rcases hstop with hstop | hstop <;> nomatch hstop

end play

/-! ### Termination -/

/-- A read that ends, and takes `k` bits or more off the stream. -/
def Uses {α : Type} (k : ℕ) (s : BitStream) (read : Except Stop (α × BitStream)) : Prop :=
  match read with
  | .error stop => stop ≠ .fuel
  | .ok (_, s') => s'.count + k ≤ s.count

section uses
variable {s : BitStream}

theorem Uses.bind {α β : Type} {k l : ℕ} {read : Except Stop (α × BitStream)}
    {f : α × BitStream → Except Stop (β × BitStream)} (h : Uses k s read)
    (hf : ∀ a s', s'.count + k ≤ s.count → Uses l s' (f (a, s'))) : Uses (k + l) s (read >>= f) := by
  cases read with
  | error stop => exact h
  | ok result =>
    obtain ⟨a, s'⟩ := result
    have hrest := hf a s' h
    change Uses (k + l) s (f (a, s'))
    cases hrun : f (a, s') with
    | error stop =>
      rw [hrun] at hrest
      exact hrest
    | ok result' =>
      rw [hrun] at hrest
      have hk : s'.count + k ≤ s.count := h
      have hl : result'.2.count + l ≤ s'.count := hrest
      show result'.2.count + (k + l) ≤ s.count
      omega

theorem Uses.mono {α : Type} {k l : ℕ} {read : Except Stop (α × BitStream)} (h : Uses k s read)
    (hle : l ≤ k) : Uses l s read := by
  cases read with
  | error stop => exact h
  | ok result =>
    have hk : result.2.count + k ≤ s.count := h
    show result.2.count + l ≤ s.count
    omega

theorem uses_ok {α : Type} (a : α) : Uses 0 s (.ok (a, s)) := Nat.le_refl _

theorem uses_take (cbits : ℕ) :
    Uses cbits s ((s.take cbits).elim (.error .overrun) .ok) := by
  rcases Nat.lt_or_ge s.count cbits with hlt | hle
  · rw [BitStream.take_of_lt hlt]
    exact nofun
  · rw [BitStream.take_of_le hle]
    show s.count - cbits + cbits ≤ s.count
    omega

theorem uses_getbit : Uses 1 s (streamSource.getbit s) := uses_take 1

theorem uses_getbits (cbits : ℕ) : Uses cbits s (streamSource.getbits s cbits) := by
  change Uses cbits s (if UndefinedBits s.count cbits then _ else _)
  split_ifs
  · exact nofun
  · exact uses_take cbits

theorem uses_countZeroes {fuel : ℕ} (length : ℕ) (hfuel : s.count < fuel) :
    Uses 1 s (countZeroes streamSource fuel length s) := by
  induction fuel generalizing length s with
  | zero => omega
  | succ fuel ih =>
    unfold countZeroes
    refine (uses_getbit.bind (l := 0) ?_).mono (Nat.le_refl 1)
    intro bit s' hs'
    dsimp only
    split_ifs
    · exact (ih (length + 1) (by omega)).mono (Nat.zero_le 1)
    · exact uses_ok length

theorem uses_readLength : Uses 0 s (readLength streamSource s) := by
  unfold readLength
  refine ((uses_countZeroes 0 (Nat.lt_succ_self s.count)).bind (l := 0) ?_).mono (Nat.zero_le _)
  intro length s' _
  dsimp only
  split_ifs
  · refine ((uses_getbits length).bind (l := 0) ?_).mono (Nat.zero_le _)
    intro bits s'' _
    exact uses_ok _
  · exact uses_ok 2

theorem uses_readDisp : Uses 0 s (readDisp streamSource s) := by
  unfold readDisp
  refine (uses_getbit.bind (l := 0) ?_).mono (Nat.zero_le _)
  intro bit s' _
  dsimp only
  split_ifs <;>
    · refine ((uses_getbits _).bind (l := 0) ?_).mono (Nat.zero_le _)
      intro bits s'' _
      exact uses_ok _

theorem uses_readLiteral (high : ℕ) : Uses 0 s (readLiteral streamSource high s) := by
  unfold readLiteral
  refine ((uses_getbits 7).bind (l := 0) ?_).mono (Nat.zero_le _)
  intro bits s' _
  exact uses_ok _

theorem uses_readMatch (more disp : ℕ) : Uses 0 s (readMatch streamSource more disp s) := by
  unfold readMatch
  split_ifs
  · exact uses_ok _
  · refine (uses_readLength.bind (l := 0) ?_).mono (Nat.zero_le _)
    intro length s' _
    exact uses_ok _

theorem uses_readSmall (more : ℕ) : Uses 0 s (readSmall streamSource more s) := by
  unfold readSmall
  refine ((uses_getbits 6).bind (l := 0) ?_).mono (Nat.zero_le _)
  intro bits s' _
  exact uses_readMatch more _

theorem uses_readFar (more : ℕ) : Uses 0 s (readFar streamSource more s) := by
  unfold readFar
  refine (uses_readDisp.bind (l := 0) ?_).mono (Nat.zero_le _)
  intro disp s' _
  exact uses_readMatch more disp

theorem uses_mrci1Token : Uses 1 s (mrci1Token streamSource s) := by
  unfold mrci1Token
  refine ((uses_getbits 2).bind (l := 0) ?_).mono (by decide)
  intro b s' _
  dsimp only
  split_ifs
  · exact uses_readLiteral 128
  · exact uses_readLiteral 0
  · exact uses_readSmall 0
  · exact uses_readFar 0

theorem uses_mrci2Token : Uses 1 s (mrci2Token streamSource s) := by
  unfold mrci2Token
  refine (uses_getbit.bind (l := 0) ?_).mono (Nat.le_refl 1)
  intro bit s' _
  dsimp only
  split_ifs
  · exact uses_readLiteral 0
  · refine (uses_getbit.bind (l := 0) ?_).mono (Nat.zero_le _)
    intro bit' s'' _
    dsimp only
    split_ifs
    · exact uses_readLiteral 128
    · refine (uses_getbit.bind (l := 0) ?_).mono (Nat.zero_le _)
      intro bit'' s''' _
      dsimp only
      split_ifs
      · exact uses_readSmall 1
      · exact uses_readFar 1

/-- Where every token takes a bit, the tokens come to an end. -/
theorem tokens_stop {readToken : BitStream → Except Stop (Token × BitStream)}
    (huses : ∀ s, Uses 1 s (readToken s)) {fuel : ℕ} (hfuel : s.count < fuel) :
    (tokens readToken fuel s).2 ≠ .fuel := by
  induction fuel generalizing s with
  | zero => omega
  | succ fuel ih =>
    have htoken := huses s
    unfold tokens
    cases hread : readToken s with
    | error stop =>
      rw [hread] at htoken
      exact htoken
    | ok result =>
      rw [hread] at htoken
      have hcount : result.2.count + 1 ≤ s.count := htoken
      exact ih (by omega)

end uses

/-! ### Safety -/

section safety
variable (uninit : ℕ → UInt8) (cchdecMax : ℕ) (pchin : List UInt8)

theorem stream_ofBytes (bytes : List UInt8) :
    (BitReader.mk 0 0 bytes).stream = .ofBytes bytes := by
  simp only [BitReader.stream, BitReader.bitsLeft, BitStream.ofBytes, Nat.pow_zero, Nat.mod_one,
    Nat.one_mul, Nat.zero_add]

theorem decompress_eq {f : Format} {readToken : BitReader → Except Stop (Token × BitReader)}
    (hsame : ∀ r : BitReader, r.Valid → SameRead (readToken r) (f.readToken r.stream)) :
    decompress uninit cchdecMax readToken f.sig₀ f.sig₁ pchin =
      if NoSignature f.sig₀ f.sig₁ pchin then .ok none
      else catchOverrun (playTokens uninit cchdecMax (tokensOf f.readToken (pchin.drop sigSize)).2
        (tokensOf f.readToken (pchin.drop sigSize)).1 []) := by
  have hvalid : (BitReader.mk 0 0 (pchin.drop sigSize)).Valid := by
    constructor
    · exact Nat.zero_lt_succ 7
    · intro h
      exact absurd rfl h
  have hloop := @decompressLoop_same _ uninit cchdecMax _ _ hsame
    (8 * (pchin.drop sigSize).length + 1) [] hvalid
  rw [stream_ofBytes, decompressLoop_eq] at hloop
  unfold decompress
  dsimp only
  rw [hloop]
  rfl

theorem catchOverrun_none {run : Except Stop (List UInt8)} :
    catchOverrun run = .ok none ↔ run = .error .overrun := by
  constructor
  · intro h
    match run, h with
    | .error .overrun, _ => rfl
  · intro h
    rw [h]
    rfl

theorem catchOverrun_fuel {run : Except Stop (List UInt8)} :
    catchOverrun run = .error .fuel ↔ run = .error .fuel := by
  constructor
  · intro h
    match run, h with
    | .error .fuel, _ => rfl
  · intro h
    rw [h]
    rfl

/-- A decompression is safe exactly when the data is well formed, or is cut off before any of its
tokens leaves the output. -/
theorem decompress_safe_iff {f : Format} {readToken : BitReader → Except Stop (Token × BitReader)}
    (hsame : ∀ r : BitReader, r.Valid → SameRead (readToken r) (f.readToken r.stream)) :
    f.Safe cchdecMax pchin (decompress uninit cchdecMax readToken f.sig₀ f.sig₁ pchin) ↔
      f.IsWellFormed cchdecMax pchin ∨ f.IsTruncated cchdecMax pchin := by
  have htruncated := playTokens_truncated uninit cchdecMax
    (tokensOf f.readToken (pchin.drop sigSize)).2 (tokensOf f.readToken (pchin.drop sigSize)).1 []
    (Nat.zero_le _)
  unfold Format.Safe
  rw [decompress_eq uninit cchdecMax pchin hsame]
  by_cases hsig : NoSignature f.sig₀ f.sig₁ pchin
  · rw [if_pos hsig]
    exact iff_of_true ⟨none, rfl, fun _ => rfl⟩ (Or.inr (Or.inl hsig))
  rw [if_neg hsig, Format.IsTruncated, or_iff_right hsig]
  constructor
  · rintro ⟨result, hrun, hmalformed⟩
    by_contra h
    rw [not_or] at h
    have hnone := hmalformed h.1
    subst hnone
    exact h.2 (htruncated.mp (catchOverrun_none.mp hrun))
  · rintro (hwell | hcut)
    · obtain ⟨out', hplay⟩ := playTokens_wellFormed uninit cchdecMax
        (tokensOf f.readToken (pchin.drop sigSize)).2 _ [] (Nat.zero_le _) hwell.2
      rw [hplay]
      exact ⟨some out', rfl, fun h => absurd hwell h⟩
    · exact ⟨none, catchOverrun_none.mpr (htruncated.mpr hcut), fun _ => rfl⟩

theorem playTokens_fuel {stop : Stop} (hstop : stop ≠ .fuel) (ts : List Token) (out : List UInt8)
    (hlimit : out.length ≤ cchdecMax) : playTokens uninit cchdecMax stop ts out ≠ .error .fuel := by
  induction ts generalizing out with
  | nil => exact fun h => hstop (Except.error.inj h)
  | cons token ts ih =>
    cases token with
    | literal b =>
      have hwrite := writeByte_spec cchdecMax out b
      unfold playTokens
      split_ifs at hwrite with hroom
      · rw [hwrite]
        exact ih (out ++ [b]) (by rw [List.length_append, List.length_singleton]; exact hroom)
      · rw [hwrite]
        exact nofun
    | marker =>
      unfold playTokens
      split_ifs
      · exact nofun
      · exact ih out hlimit
    | string disp length =>
      have hcopy := expandstring_spec uninit cchdecMax disp length out hlimit
      unfold playTokens
      split_ifs at hcopy with hinside
      · obtain ⟨out', hrun, hlength⟩ := hcopy
        rw [hrun]
        exact ih out' (hlength ▸ hinside.2)
      · obtain ⟨stop', hrun, hstop' | hstop'⟩ := hcopy <;>
          · rw [hrun, hstop']
            exact nofun

/-- A decompression always comes to an end. -/
theorem decompress_terminates {f : Format}
    {readToken : BitReader → Except Stop (Token × BitReader)}
    (hsame : ∀ r : BitReader, r.Valid → SameRead (readToken r) (f.readToken r.stream))
    (huses : ∀ s, Uses 1 s (f.readToken s)) :
    decompress uninit cchdecMax readToken f.sig₀ f.sig₁ pchin ≠ .error .fuel := by
  rw [decompress_eq uninit cchdecMax pchin hsame]
  split_ifs
  · exact nofun
  · intro h
    have hstop := tokens_stop huses (Nat.lt_succ_self (BitStream.ofBytes (pchin.drop sigSize)).count)
    exact playTokens_fuel uninit cchdecMax hstop _ [] (Nat.zero_le _) (catchOverrun_fuel.mp h)

/-- One literal is written behind a limit of zero. -/
theorem not_safe_literal : ¬ ∀ (uninit : ℕ → UInt8) (cchdecMax : ℕ) (pchin : List UInt8),
    mrci1.Safe cchdecMax pchin (Mrci1Decompress uninit cchdecMax pchin) := by
  intro h
  obtain ⟨result, hrun, -⟩ := h (fun _ => 0) 0 [68, 83, 0, 0, 2, 0]
  have hwrite : Mrci1Decompress (fun _ => 0) 0 [68, 83, 0, 0, 2, 0] = .error .write := by
    decide +kernel
  rw [hwrite] at hrun
  nomatch hrun

/-- Both decompressions come to an end, and are safe exactly on data that is well formed or is cut
off before any of its tokens leaves the output. -/
theorem mrciDecompress_safe_iff :
    (Mrci1Decompress uninit cchdecMax pchin ≠ .error .fuel ∧
      Mrci2Decompress uninit cchdecMax pchin ≠ .error .fuel) ∧
      (mrci1.Safe cchdecMax pchin (Mrci1Decompress uninit cchdecMax pchin) ↔
        mrci1.IsWellFormed cchdecMax pchin ∨ mrci1.IsTruncated cchdecMax pchin) ∧
      (mrci2.Safe cchdecMax pchin (Mrci2Decompress uninit cchdecMax pchin) ↔
        mrci2.IsWellFormed cchdecMax pchin ∨ mrci2.IsTruncated cchdecMax pchin) := by
  have hsame₁ : ∀ r : BitReader, r.Valid →
      SameRead (mrci1Token BitReader.source r) (mrci1.readToken r.stream) :=
    fun _ h => mrci1Token_same h
  have hsame₂ : ∀ r : BitReader, r.Valid →
      SameRead (mrci2Token BitReader.source r) (mrci2.readToken r.stream) :=
    fun _ h => mrci2Token_same h
  refine ⟨⟨?_, ?_⟩, ?_, ?_⟩
  · exact decompress_terminates uninit cchdecMax pchin hsame₁ fun _ => uses_mrci1Token
  · exact decompress_terminates uninit cchdecMax pchin hsame₂ fun _ => uses_mrci2Token
  · exact decompress_safe_iff uninit cchdecMax pchin hsame₁
  · exact decompress_safe_iff uninit cchdecMax pchin hsame₂

end safety

end NtAdmin.Wmi.Mrci
