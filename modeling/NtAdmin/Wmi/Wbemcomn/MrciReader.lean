import NtAdmin.Wmi.Wbemcomn.MrciDecompress

/-! The bit buffer of the decompression against the stream of its bits. -/
namespace NtAdmin.Wmi.Mrci
open Lib

/-- The bits of a reader. -/
def BitReader.stream (r : BitReader) : BitStream :=
  ⟨r.abits % 2 ^ r.cbitsleft + 2 ^ r.cbitsleft * leNat r.pCompressed, r.bitsLeft⟩

/-- Between two reads less than a byte is ready, and nothing else is in the buffer. -/
structure BitReader.Valid (r : BitReader) : Prop where
  lt : r.cbitsleft < 8
  abits_lt : r.cbitsleft ≠ 0 → r.abits < 2 ^ r.cbitsleft

/-- More than 30 bits at once make the code shift by too much, unless the input ends before. -/
def UndefinedBits (count cbits : ℕ) : Prop :=
  31 ≤ cbits ∧ (cbits ≤ count ∨ 40 ≤ count ∧ 32 + count % 8 < cbits)

instance (count cbits : ℕ) : Decidable (UndefinedBits count cbits) :=
  inferInstanceAs (Decidable (_ ∧ _))

/-- The stream of bits as the decompression reads it. -/
def streamSource : BitSource BitStream where
  getbit s := (s.take 1).elim (.error .overrun) .ok
  getbits s cbits :=
    if UndefinedBits s.count cbits then .error .undefined
    else (s.take cbits).elim (.error .overrun) .ok
  bitsLeft s := s.count

/-- Two reads end in the same way, with readers of the same bits. -/
def SameRead {α : Type} (run : Except Stop (α × BitReader)) (spec : Except Stop (α × BitStream)) :
    Prop :=
  match spec with
  | .error stop => run = .error stop
  | .ok (a, s) => ∃ r, run = .ok (a, r) ∧ r.Valid ∧ r.stream = s

theorem SameRead.bind {α β : Type} {run : Except Stop (α × BitReader)}
    {spec : Except Stop (α × BitStream)} {f : α × BitReader → Except Stop (β × BitReader)}
    {g : α × BitStream → Except Stop (β × BitStream)} (h : SameRead run spec)
    (hf : ∀ a r, r.Valid → SameRead (f (a, r)) (g (a, r.stream))) :
    SameRead (run >>= f) (spec >>= g) := by
  cases spec with
  | error stop =>
    have hrun : run = .error stop := h
    rw [hrun]
    exact rfl
  | ok result =>
    obtain ⟨a, s⟩ := result
    obtain ⟨r, hrun, hvalid, rfl⟩ := h
    rw [hrun]
    exact hf a r hvalid

theorem SameRead.ok {α : Type} (a : α) {r : BitReader} (h : r.Valid) :
    SameRead (.ok (a, r)) (.ok (a, r.stream)) := ⟨r, rfl, h, rfl⟩

/-! ### The numbers of the bits -/

theorem two_pow_split {k n : ℕ} (h : k ≤ n) : (2 : ℕ) ^ n = 2 ^ k * 2 ^ (n - k) := by
  rw [← Nat.pow_add, Nat.add_sub_cancel' h]

/-- The next byte comes on top of the bits that are there. -/
theorem or_shift {bits done b : ℕ} (hbits : bits < 2 ^ done) (hdone : done ≤ 32) :
    bits ||| (b <<< done) % 2 ^ 32 = bits + 2 ^ done * (b % 2 ^ (32 - done)) := by
  rw [Nat.shiftLeft_eq, Nat.mul_comm b, two_pow_split hdone, Nat.mul_mod_mul_left, Nat.or_comm,
    ← Nat.two_pow_add_eq_or_of_lt hbits, Nat.add_comm]

theorem mod_two_pow_add (b v k n : ℕ) (hb : b < 2 ^ k) (hn : k ≤ n) :
    (b + 2 ^ k * v) % 2 ^ n = b + 2 ^ k * (v % 2 ^ (n - k)) := by
  rw [two_pow_split hn, Nat.mod_mul, Nat.add_mul_mod_self_left, Nat.mod_eq_of_lt hb,
    Nat.add_mul_div_left _ _ (Nat.two_pow_pos k), Nat.div_eq_of_lt hb, Nat.zero_add]

theorem div_two_pow_add (b v k n : ℕ) (hb : b < 2 ^ k) (hn : k ≤ n) :
    (b + 2 ^ k * v) / 2 ^ n = v / 2 ^ (n - k) := by
  rw [two_pow_split hn, ← Nat.div_div_eq_div_mul, Nat.add_mul_div_left _ _ (Nat.two_pow_pos k),
    Nat.div_eq_of_lt hb, Nat.zero_add]

/-! ### The reads -/

theorem toNat_lt (b : UInt8) : b.toNat < 2 ^ 8 := b.toNat_lt

@[simp] theorem leNat_cons (b : UInt8) (bytes : List UInt8) :
    leNat (b :: bytes) = b.toNat + 2 ^ 8 * leNat bytes := rfl

/-- A buffer of bits that are taken off its end. -/
theorem take_buffer {abits cbitsleft cbits : ℕ} (bytes : List UInt8)
    (habits : abits < 2 ^ cbitsleft) (hle : cbits ≤ cbitsleft) :
    (BitReader.mk abits cbitsleft bytes).stream.take cbits =
      some (abits % 2 ^ cbits,
        (BitReader.mk (abits / 2 ^ cbits) (cbitsleft - cbits) bytes).stream) := by
  have hcount : cbits ≤ (BitReader.mk abits cbitsleft bytes).stream.count :=
    Nat.le_trans hle (Nat.le_add_right _ _)
  have hdiv : abits / 2 ^ cbits < 2 ^ (cbitsleft - cbits) := by
    rw [Nat.div_lt_iff_lt_mul (Nat.two_pow_pos cbits), Nat.mul_comm, ← two_pow_split hle]
    exact habits
  have hpow := two_pow_split hle
  rw [BitStream.take_of_le hcount]
  simp only [BitReader.stream, BitReader.bitsLeft, Nat.mod_eq_of_lt habits, Nat.mod_eq_of_lt hdiv]
  rw [hpow, Nat.mul_assoc, Nat.add_mul_mod_self_left,
    Nat.add_mul_div_left _ _ (Nat.two_pow_pos cbits)]
  congr 3
  omega

/-- A buffer without bits and the buffer with the next byte hold the same bits. -/
theorem stream_fill (abits : ℕ) (b : UInt8) (bytes : List UInt8) :
    (BitReader.mk abits 0 (b :: bytes)).stream = (BitReader.mk b.toNat 8 bytes).stream := by
  have hb := toNat_lt b
  simp only [BitReader.stream, BitReader.bitsLeft, leNat_cons, Nat.pow_zero, Nat.mod_one,
    Nat.one_mul, Nat.zero_add, Nat.mod_eq_of_lt hb, List.length_cons, BitStream.mk.injEq, true_and]
  omega

theorem valid_buffer {abits cbitsleft cbits : ℕ} {bytes : List UInt8}
    (habits : abits < 2 ^ cbitsleft) (hle : cbits ≤ cbitsleft) (hlt : cbitsleft - cbits < 8) :
    (BitReader.mk (abits / 2 ^ cbits) (cbitsleft - cbits) bytes).Valid := by
  constructor
  · exact hlt
  · intro _
    show abits / 2 ^ cbits < 2 ^ (cbitsleft - cbits)
    rw [Nat.div_lt_iff_lt_mul (Nat.two_pow_pos cbits), Nat.mul_comm, ← two_pow_split hle]
    exact habits

theorem getbit_same {r : BitReader} (h : r.Valid) :
    SameRead r.getbit (streamSource.getbit r.stream) := by
  obtain ⟨abits, cbitsleft, pCompressed⟩ := r
  unfold streamSource BitReader.getbit
  by_cases hzero : cbitsleft = 0
  · subst hzero
    cases pCompressed with
    | nil => exact rfl
    | cons b pCompressed =>
      simp only [stream_fill, take_buffer pCompressed (toNat_lt b) (show 1 ≤ 8 by decide)]
      exact ⟨_, rfl, valid_buffer (toNat_lt b) (show 1 ≤ 8 by decide) (show 8 - 1 < 8 by decide), rfl⟩
  · have habits := h.abits_lt hzero
    have hlt := h.lt
    have hone : 1 ≤ cbitsleft := Nat.pos_of_ne_zero hzero
    simp only [take_buffer pCompressed habits hone]
    rw [if_pos hzero]
    exact ⟨_, rfl, valid_buffer habits hone (by omega), rfl⟩

/-- How the loop of `getbits` ends once the bits that were ready are used. -/
theorem getbitsLoop_bytes {fuel bits done needed : ℕ} (abits : ℕ) (bytes : List UInt8)
    (hfuel : needed ≤ fuel) (hneeded : 0 < needed) :
    if max done (32 + done % 8) < done + needed ∧
        max done (32 + done % 8) < done + 8 * bytes.length then
      BitReader.getbitsLoop fuel bits done needed ⟨abits, 0, bytes⟩ = .error .undefined
    else if needed ≤ 8 * bytes.length then
      ∃ value r, BitReader.getbitsLoop fuel bits done needed ⟨abits, 0, bytes⟩ = .ok (value, r) ∧
        r.Valid ∧ r.stream = ⟨leNat bytes / 2 ^ needed, 8 * bytes.length - needed⟩ ∧
        (bits < 2 ^ done → done + needed ≤ 32 →
          value % 2 ^ (done + needed) = bits + 2 ^ done * (leNat bytes % 2 ^ needed))
    else BitReader.getbitsLoop fuel bits done needed ⟨abits, 0, bytes⟩ = .error .overrun := by
  induction bytes generalizing fuel bits done needed abits with
  | nil =>
    obtain ⟨fuel, rfl⟩ : ∃ k, fuel = k + 1 := ⟨fuel - 1, by omega⟩
    rw [if_neg, if_neg]
    · rfl
    · rw [List.length_nil]
      omega
    · rw [List.length_nil]
      omega
  | cons b bytes ih =>
    obtain ⟨fuel, rfl⟩ : ∃ k, fuel = k + 1 := ⟨fuel - 1, by omega⟩
    have hstep : BitReader.getbitsLoop (fuel + 1) bits done needed ⟨abits, 0, b :: bytes⟩ =
        if 32 ≤ done then .error .undefined
        else if needed ≤ 8 then
          .ok (bits ||| (b.toNat <<< done) % 2 ^ 32, ⟨b.toNat / 2 ^ needed, 8 - needed, bytes⟩)
        else BitReader.getbitsLoop fuel (bits ||| (b.toNat <<< done) % 2 ^ 32) (done + 8)
          (needed - 8) ⟨b.toNat, 0, bytes⟩ := rfl
    have hb := toNat_lt b
    rw [hstep, List.length_cons]
    by_cases hshift : 32 ≤ done
    · rw [if_pos hshift, if_pos (by omega)]
    rw [if_neg hshift]
    by_cases hlast : needed ≤ 8
    · rw [if_pos hlast, if_neg (by omega), if_pos (by omega)]
      refine ⟨_, _, rfl, valid_buffer hb hlast (by omega), ?_, ?_⟩
      · have htake := take_buffer bytes hb hlast
        rw [BitStream.take_of_le (Nat.le_trans hlast (Nat.le_add_right _ _))] at htake
        have hstream := congrArg Prod.snd (Option.some.inj htake)
        refine hstream.symm.trans ?_
        simp only [BitReader.stream, BitReader.bitsLeft, Nat.mod_eq_of_lt hb, leNat_cons,
          BitStream.mk.injEq, true_and]
        omega
      · intro hbits hdone
        have hdvd : (2 : ℕ) ^ needed ∣ 2 ^ (32 - done) := Nat.pow_dvd_pow 2 (by omega)
        rw [or_shift hbits (by omega), mod_two_pow_add _ _ _ _ hbits (Nat.le_add_right _ _),
          Nat.add_sub_cancel_left, Nat.mod_mod_of_dvd _ hdvd, leNat_cons, two_pow_split hlast,
          Nat.mul_assoc, Nat.add_mul_mod_self_left]
    · rw [if_neg hlast]
      have hrest := @ih fuel (bits ||| (b.toNat <<< done) % 2 ^ 32) (done + 8) (needed - 8) b.toNat
        (by omega) (by omega)
      split_ifs at hrest ⊢ with hundefined henough
      all_goals try omega
      · obtain ⟨value, r, hrun, hvalid, hstream, hvalue⟩ := hrest
        refine ⟨value, r, hrun, hvalid, ?_, ?_⟩
        · rw [hstream, leNat_cons, div_two_pow_add _ _ _ _ hb (by omega)]
          congr 1
          omega
        · intro hbits hdone
          have hdone' : done ≤ 32 := by omega
          have hbyte : b.toNat % 2 ^ (32 - done) = b.toNat :=
            Nat.mod_eq_of_lt (Nat.lt_of_lt_of_le hb (Nat.pow_le_pow_right (by decide) (by omega)))
          have hnext : bits + 2 ^ done * b.toNat < 2 ^ (done + 8) := by
            rw [Nat.pow_add]
            calc bits + 2 ^ done * b.toNat < 2 ^ done + 2 ^ done * b.toNat :=
                  Nat.add_lt_add_right hbits _
              _ = 2 ^ done * (b.toNat + 1) := by rw [Nat.mul_add, Nat.mul_one, Nat.add_comm]
              _ ≤ 2 ^ done * 2 ^ 8 := Nat.mul_le_mul_left _ hb
          rw [or_shift hbits hdone', hbyte] at hvalue
          have hsum : done + 8 + (needed - 8) = done + needed := by omega
          have hfinal := hvalue hnext (by omega)
          rw [hsum] at hfinal
          rw [hfinal, leNat_cons, mod_two_pow_add _ _ _ _ hb (by omega), Nat.mul_add, Nat.pow_add,
            Nat.add_assoc, Nat.mul_assoc]

/-- How the loop of `getbits` ends. -/
theorem getbitsLoop_spec {r : BitReader} (h : r.Valid) {cbits : ℕ} (hlt : r.cbitsleft < cbits) :
    if 40 ≤ r.stream.count ∧ 32 + r.stream.count % 8 < cbits then
      BitReader.getbitsLoop cbits 0 0 cbits r = .error .undefined
    else if cbits ≤ r.stream.count then
      ∃ value r', BitReader.getbitsLoop cbits 0 0 cbits r = .ok (value, r') ∧ r'.Valid ∧
        r'.stream = ⟨r.stream.value / 2 ^ cbits, r.stream.count - cbits⟩ ∧
        (cbits ≤ 32 → value % 2 ^ cbits = r.stream.value % 2 ^ cbits)
    else BitReader.getbitsLoop cbits 0 0 cbits r = .error .overrun := by
  obtain ⟨abits, cbitsleft, bytes⟩ := r
  have hcount : (BitReader.mk abits cbitsleft bytes).stream.count = cbitsleft + 8 * bytes.length :=
    rfl
  rw [hcount]
  change cbitsleft < cbits at hlt
  by_cases hzero : cbitsleft = 0
  · subst hzero
    have hloop := @getbitsLoop_bytes cbits 0 0 cbits abits bytes (Nat.le_refl cbits) hlt
    have hvalue : (BitReader.mk abits 0 bytes).stream.value = leNat bytes := by
      simp only [BitReader.stream, Nat.pow_zero, Nat.mod_one, Nat.one_mul, Nat.zero_add]
    rw [hvalue]
    split_ifs at hloop ⊢
    all_goals try omega
    · obtain ⟨value, r', hrun, hvalid, hstream, hbits⟩ := hloop
      refine ⟨value, r', hrun, hvalid, ?_, ?_⟩
      · rw [hstream, Nat.zero_add]
      · intro hle
        have hbits' := hbits (by decide) (by omega)
        simpa using hbits'
  · have habits := h.abits_lt hzero
    have hlt' : cbitsleft < 8 := h.lt
    change abits < 2 ^ cbitsleft at habits
    have hvalue : (BitReader.mk abits cbitsleft bytes).stream.value =
        abits + 2 ^ cbitsleft * leNat bytes := by
      simp only [BitReader.stream, Nat.mod_eq_of_lt habits]
    obtain ⟨fuel, rfl⟩ : ∃ k, cbits = k + 1 := ⟨cbits - 1, by omega⟩
    have hstep : BitReader.getbitsLoop (fuel + 1) 0 0 (fuel + 1) ⟨abits, cbitsleft, bytes⟩ =
        BitReader.getbitsLoop fuel abits cbitsleft (fuel + 1 - cbitsleft) ⟨abits, 0, bytes⟩ := by
      have hfill : (BitReader.mk abits cbitsleft bytes).fill = .ok ⟨abits, cbitsleft, bytes⟩ :=
        if_neg hzero
      have hsmall : abits < 2 ^ 32 :=
        Nat.lt_of_lt_of_le habits (Nat.pow_le_pow_right (by decide) (by omega))
      have hbits : 0 ||| (abits <<< 0) % 2 ^ 32 = abits := by
        rw [Nat.shiftLeft_zero, Nat.mod_eq_of_lt hsmall, Nat.zero_or]
      rw [BitReader.getbitsLoop, hfill]
      simp only [bind, Except.bind, hbits, Nat.not_le.mpr hlt, if_false, Nat.zero_add]
      rfl
    have hloop := @getbitsLoop_bytes fuel abits cbitsleft (fuel + 1 - cbitsleft) abits bytes
      (by omega) (by omega)
    rw [hstep, hvalue]
    split_ifs at hloop ⊢
    all_goals try omega
    · obtain ⟨value, r', hrun, hvalid, hstream, hbits⟩ := hloop
      refine ⟨value, r', hrun, hvalid, ?_, ?_⟩
      · rw [hstream, div_two_pow_add _ _ _ _ habits (by omega)]
        congr 1
        omega
      · intro hle
        have hsum : cbitsleft + (fuel + 1 - cbitsleft) = fuel + 1 := by omega
        have hbits' := hbits habits (by omega)
        rw [hsum] at hbits'
        rw [hbits', mod_two_pow_add _ _ _ _ habits (by omega)]

/-- Several bits are those of the stream. -/
theorem getbits_same {r : BitReader} (h : r.Valid) {cbits : ℕ} (hcbits : cbits ≠ 0) :
    SameRead (r.getbits cbits) (streamSource.getbits r.stream cbits) := by
  change SameRead _ (if UndefinedBits r.stream.count cbits then _ else _)
  by_cases hle : cbits ≤ r.cbitsleft
  · obtain ⟨abits, cbitsleft, bytes⟩ := r
    change cbits ≤ cbitsleft at hle
    have hlt : cbitsleft < 8 := h.lt
    have habits : abits < 2 ^ cbitsleft := h.abits_lt (show cbitsleft ≠ 0 by omega)
    have hdefined : ¬ UndefinedBits (BitReader.mk abits cbitsleft bytes).stream.count cbits := by
      rintro ⟨hbig, -⟩
      omega
    rw [if_neg hdefined, take_buffer bytes habits hle]
    refine ⟨⟨abits / 2 ^ cbits, cbitsleft - cbits, bytes⟩, ?_, ?_, rfl⟩
    · have hsmall : ¬ 31 ≤ cbits := by omega
      rw [BitReader.getbits]
      simp only [hle, if_true, bind, Except.bind, hsmall, if_false]
    · exact valid_buffer habits hle (by omega)
  · have hloop := getbitsLoop_spec h (Nat.not_le.mp hle)
    have hrun : r.getbits cbits = BitReader.getbitsLoop cbits 0 0 cbits r >>= fun result =>
        if 31 ≤ cbits then .error .undefined else .ok (result.1 % 2 ^ cbits, result.2) := by
      rw [BitReader.getbits, if_neg hle]
    rw [hrun]
    by_cases hundefined : 40 ≤ r.stream.count ∧ 32 + r.stream.count % 8 < cbits
    · rw [if_pos hundefined] at hloop
      rw [if_pos ⟨by omega, Or.inr hundefined⟩, hloop]
      exact rfl
    · rw [if_neg hundefined] at hloop
      by_cases henough : cbits ≤ r.stream.count
      · rw [if_pos henough] at hloop
        obtain ⟨value, r', hread, hvalid, hstream, hvalue⟩ := hloop
        rw [hread]
        by_cases hbig : 31 ≤ cbits
        · rw [if_pos ⟨hbig, Or.inl henough⟩]
          exact if_pos hbig
        · rw [if_neg fun hu => hbig hu.1, BitStream.take_of_le henough]
          refine ⟨r', ?_, hvalid, hstream⟩
          rw [← hvalue (by omega)]
          exact if_neg hbig
      · rw [if_neg henough] at hloop
        have hdefined : ¬ UndefinedBits r.stream.count cbits := by
          rintro ⟨-, h' | h'⟩
          · exact henough h'
          · exact hundefined h'
        rw [if_neg hdefined, BitStream.take_of_lt (Nat.not_le.mp henough), hloop]
        exact rfl

/-! ### The tokens -/

section same
variable {r : BitReader}

theorem countZeroes_same (fuel length : ℕ) (h : r.Valid) :
    SameRead (countZeroes BitReader.source fuel length r)
      (countZeroes streamSource fuel length r.stream) := by
  induction fuel generalizing length r with
  | zero => exact rfl
  | succ fuel ih =>
    unfold countZeroes
    apply (getbit_same h).bind
    intro bit r' h'
    by_cases hbit : bit = 0
    · simp only [hbit, if_true]
      exact ih (length + 1) h'
    · simp only [hbit, if_false]
      exact SameRead.ok length h'

theorem readLength_same (h : r.Valid) :
    SameRead (readLength BitReader.source r) (readLength streamSource r.stream) := by
  unfold readLength
  apply (countZeroes_same (r.bitsLeft + 1) 0 h).bind
  intro length r' h'
  by_cases hlength : length ≠ 0
  · simp only [hlength, if_true, ne_eq, not_false_eq_true]
    apply (getbits_same h' hlength).bind
    intro bits r'' h''
    exact SameRead.ok _ h''
  · simp only [hlength, if_false]
    exact SameRead.ok 2 h'

theorem readDisp_same (h : r.Valid) :
    SameRead (readDisp BitReader.source r) (readDisp streamSource r.stream) := by
  unfold readDisp
  apply (getbit_same h).bind
  intro bit r' h'
  by_cases hbit : bit = 0
  · simp only [hbit, if_true]
    apply (getbits_same h' (by decide)).bind
    intro bits r'' h''
    exact SameRead.ok _ h''
  · simp only [hbit, if_false]
    apply (getbits_same h' (by decide)).bind
    intro bits r'' h''
    exact SameRead.ok _ h''

theorem readLiteral_same (high : ℕ) (h : r.Valid) :
    SameRead (readLiteral BitReader.source high r) (readLiteral streamSource high r.stream) := by
  unfold readLiteral
  apply (getbits_same h (by decide)).bind
  intro bits r' h'
  exact SameRead.ok _ h'

theorem readMatch_same (more disp : ℕ) (h : r.Valid) :
    SameRead (readMatch BitReader.source more disp r) (readMatch streamSource more disp r.stream) := by
  unfold readMatch
  by_cases hdisp : disp = maxDispBig
  · simp only [hdisp, if_true]
    exact SameRead.ok _ h
  · simp only [hdisp, if_false]
    apply (readLength_same h).bind
    intro length r' h'
    exact SameRead.ok _ h'

theorem readSmall_same (more : ℕ) (h : r.Valid) :
    SameRead (readSmall BitReader.source more r) (readSmall streamSource more r.stream) := by
  unfold readSmall
  apply (getbits_same h (by decide)).bind
  intro bits r' h'
  exact readMatch_same more _ h'

theorem readFar_same (more : ℕ) (h : r.Valid) :
    SameRead (readFar BitReader.source more r) (readFar streamSource more r.stream) := by
  unfold readFar
  apply (readDisp_same h).bind
  intro disp r' h'
  exact readMatch_same more disp h'

theorem mrci1Token_same (h : r.Valid) :
    SameRead (mrci1Token BitReader.source r) (mrci1Token streamSource r.stream) := by
  unfold mrci1Token
  apply (getbits_same h (by decide)).bind
  intro b r' h'
  dsimp only
  split_ifs
  · exact readLiteral_same 128 h'
  · exact readLiteral_same 0 h'
  · exact readSmall_same 0 h'
  · exact readFar_same 0 h'

theorem mrci2Token_same (h : r.Valid) :
    SameRead (mrci2Token BitReader.source r) (mrci2Token streamSource r.stream) := by
  unfold mrci2Token
  apply (getbit_same h).bind
  intro bit r' h'
  dsimp only
  split_ifs
  · exact readLiteral_same 0 h'
  · apply (getbit_same h').bind
    intro bit' r'' h''
    dsimp only
    split_ifs
    · exact readLiteral_same 128 h''
    · apply (getbit_same h'').bind
      intro bit'' r''' h'''
      dsimp only
      split_ifs
      · exact readSmall_same 1 h'''
      · exact readFar_same 1 h'''

/-- The loop does the same on the stream of the bits. -/
theorem decompressLoop_same {uninit : ℕ → UInt8} {cchdecMax : ℕ}
    {readToken : BitReader → Except Stop (Token × BitReader)}
    {specToken : BitStream → Except Stop (Token × BitStream)}
    (hsame : ∀ r : BitReader, r.Valid → SameRead (readToken r) (specToken r.stream)) (fuel : ℕ)
    (out : List UInt8) (h : r.Valid) :
    decompressLoop uninit cchdecMax readToken fuel r out =
      decompressLoop uninit cchdecMax specToken fuel r.stream out := by
  induction fuel generalizing r out with
  | zero => rfl
  | succ fuel ih =>
    have htoken := hsame r h
    unfold decompressLoop
    cases hspec : specToken r.stream with
    | error stop =>
      rw [hspec] at htoken
      have hrun : readToken r = .error stop := htoken
      rw [hrun]
      rfl
    | ok result =>
      obtain ⟨token, s⟩ := result
      rw [hspec] at htoken
      obtain ⟨r', hrun, hvalid, rfl⟩ := htoken
      rw [hrun]
      simp only [bind, Except.bind]
      cases token with
      | literal b =>
        cases hwrite : writeByte cchdecMax out b with
        | error stop => simp only [hwrite]
        | ok out' => simpa only [hwrite] using ih out' hvalid
      | marker => simp only [ih out hvalid]
      | string disp length =>
        cases hcopy : expandstring uninit cchdecMax disp length out with
        | error stop => simp only [hcopy]
        | ok out' => simpa only [hcopy] using ih out' hvalid

end same

end NtAdmin.Wmi.Mrci
