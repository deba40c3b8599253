import NtAdmin.Sched.SvcCore.SecurityStore

/-! Which pairs of databases are read back from the LSA as they were written, and which pairs are
told to be out of sync. -/
namespace NtAdmin.Sched
open Lib

variable {fresh : ℕ → UInt8} {hd pb bs pbSAI pbSAC pbSAI' pbSAC' : Bytes} {lsa : Lsa} {w : LsaWrites}

/-- The pairs that the operations build, starting from none. A pair that is written has its update
sequence numbers advanced. -/
inductive Built : Bytes → Bytes → Prop
  | none : Built [] []
  | add {pbSAI pbSAC pbSAI' pbSAC' pbAccount pbData pbIdentity : Bytes} {fresh : ℕ → UInt8} :
    Built pbSAI pbSAC → pbAccount.length = hashDataSize → pbIdentity.length = hashDataSize →
      sacAddCredential fresh pbAccount pbData pbSAC = .ok pbSAC' →
        saiAddIdentity fresh pbIdentity pbSAI = .ok pbSAI' → Built pbSAI' pbSAC'
  | insert {pbSAI pbSAC pbSAI' pbIdentity : Bytes} {i found dwSetSubCount pbSet : ℕ}
      {fresh : ℕ → UInt8} :
    Built pbSAI pbSAC → pbIdentity.length = hashDataSize →
      saiIndexIdentity i 0 pbSAI = .ok (some (found, dwSetSubCount, pbSet)) →
        saiInsertIdentity fresh pbIdentity pbSet pbSAI = .ok pbSAI' → Built pbSAI' pbSAC
  | update {pbSAI pbSAC pbSAC' pbData : Bytes} {moves : Bool} {i cbCredential pbCredential : ℕ}
      {fresh : ℕ → UInt8} :
    Built pbSAI pbSAC →
      sacIndexCredential i pbSAC = .ok (some (cbCredential, pbCredential)) →
        sacUpdateCredential fresh moves pbData cbCredential pbCredential pbSAC = .ok pbSAC' →
          Built pbSAI pbSAC'
  | written {pbSAI pbSAC : Bytes} :
    Built pbSAI pbSAC → pbSAI ≠ [] → Built (advanceUsn pbSAI) (advanceUsn pbSAC)

/-- A block of more than a header, which is `hd`. -/
structure Headed (hd pb : Bytes) : Prop where
  larger : 8 < pb.length
  header : pb.take 8 = hd

theorem length_le_copyAt (pb : Bytes) (off : ℕ) (bs : Bytes) :
    pb.length ≤ (copyAt pb off bs).length := by
  rw [copyAt, List.length_append, List.length_append, List.length_take, List.length_drop]
  omega

theorem Headed.copyAt (h : Headed hd pb) {off : ℕ} (hoff : 8 ≤ off) (bs : Bytes) :
    Headed hd (copyAt pb off bs) where
  larger := Nat.lt_of_lt_of_le h.larger (length_le_copyAt pb off bs)
  header := by
    have hlarger := h.larger
    have hlen : 8 ≤ (pb.take off).length := by
      rw [List.length_take]
      omega
    rw [Lib.copyAt, List.append_assoc, List.take_append_of_le_length hlen, List.take_take,
      Nat.min_eq_left hoff, h.header]

theorem Headed.moveWithin (h : Headed hd pb) {dest : ℕ} (hdest : 8 ≤ dest) (src n : ℕ) :
    Headed hd (moveWithin pb dest src n) := h.copyAt hdest _

theorem Headed.resize (h : Headed hd pb) {n : ℕ} (hn : 8 < n) : Headed hd (resize fresh pb n) where
  larger := by
    rw [Lib.resize, List.length_append, List.length_take, List.length_map, List.length_range']
    omega
  header := by
    have hlarger := h.larger
    have hlen : 8 ≤ (pb.take n).length := by
      rw [List.length_take]
      omega
    rw [Lib.resize, List.take_append_of_le_length hlen, List.take_take,
      Nat.min_eq_left (Nat.le_of_lt hn), h.header]

/-- A new number of entries. -/
theorem Headed.setCount (h : Headed hd pb) (n : ℕ) :
    Headed (hd.take 4 ++ dword n) (Lib.copyAt pb usnSize (dword n)) where
  larger := Nat.lt_of_lt_of_le h.larger (length_le_copyAt pb usnSize (dword n))
  header := by
    have hlarger := h.larger
    have hlen : (pb.take 4).length = 4 := by
      rw [List.length_take]
      omega
    have hlen' : (pb.take 4 ++ dword n).length = 8 := by
      rw [List.length_append, hlen, length_dword]
    rw [Lib.copyAt, show usnSize = 4 from rfl, List.take_left' hlen', ← h.header, List.take_take]
    rfl

theorem Headed.getD (h : Headed hd pb) {i : ℕ} (hi : i < 8) : pb.getD i 0 = hd.getD i 0 := by
  rw [← h.header, List.getD_eq_getElem?_getD, List.getD_eq_getElem?_getD,
    List.getElem?_take_of_lt hi]

theorem Headed.count (h : Headed hd pb) : getDword pb usnSize = getDword hd usnSize := by
  have hget {i : ℕ} (hi : i < 8) := h.getD hi
  simp only [getDword, show usnSize = 4 from rfl, hget (show 4 < 8 by decide),
    hget (show 4 + 1 < 8 by decide), hget (show 4 + 2 < 8 by decide), hget (show 4 + 3 < 8 by decide)]

/-- The header with one more entry. -/
def nextHeader (pb hd : Bytes) : Bytes :=
  if pb.length = 0 then List.replicate 4 0 ++ dword 1
  else hd.take 4 ++ dword (getDword hd usnSize + 1)

/-- The room for one more entry, with the new number of entries in its header. -/
theorem headed_makeRoom {n : ℕ} (hn : 8 < n) (h : pb.length = 0 ∨ Headed hd pb) :
    Headed (nextHeader pb hd) (copyAt (makeRoom fresh pb n 8) usnSize
      (dword (if pb.length = 0 then 1 else getDword (makeRoom fresh pb n 8) usnSize + 1))) := by
  unfold makeRoom nextHeader
  by_cases h0 : pb.length = 0
  · obtain ⟨v, hv, hgrow⟩ := resize_grow fresh [] (Nat.zero_le (n + 8))
    obtain ⟨v', hv', hfill⟩ := copyAt_fill (o := 0) (n := n) hgrow rfl
      (show v.length = (List.replicate 8 (0 : UInt8)).length + n by rw [hv]; simp; omega)
    have hzero : Headed (List.replicate 8 0) (copyAt (resize fresh [] (n + 8)) 0
        (List.replicate 8 0)) := by
      rw [hfill]
      constructor
      · rw [List.nil_append, List.length_append, List.length_replicate, hv']
        omega
      · exact List.take_left' rfl
    rw [if_pos h0, if_pos h0, if_pos h0]
    exact hzero.setCount 1
  · have hpb := h.resolve_left h0
    have hroom := @Headed.resize fresh hd pb hpb n hn
    rw [if_neg h0, if_neg h0, if_neg h0, hroom.count]
    exact hroom.setCount _

/-- Where the new entry goes. -/
theorem le_newEntry (h : pb.length = 0 ∨ Headed hd pb) :
    8 ≤ if pb.length = 0 then 8 else pb.length := by
  split_ifs with h0
  · exact Nat.le_refl 8
  · exact Nat.le_of_lt (h.resolve_left h0).larger

theorem sacAddCredential_headed {pbAccount pbData : Bytes} (h : pbSAC.length = 0 ∨ Headed hd pbSAC)
    (hrun : sacAddCredential fresh pbAccount pbData pbSAC = .ok pbSAC') :
    Headed (nextHeader pbSAC hd) pbSAC' := by
  have hroom := @headed_makeRoom fresh hd pbSAC (pbSAC.length + 4 + (hashDataSize + pbData.length))
    (by unfold hashDataSize; omega) h
  have hpos := le_newEntry h
  unfold sacAddCredential at hrun
  dsimp only at hrun
  by_cases hmax : maxSecretSize < pbSAC.length + 4 + (hashDataSize + pbData.length)
  · rw [if_pos hmax] at hrun
    cases hrun
  · rw [if_neg hmax] at hrun
    have hrun := Except.ok.inj hrun
    simp only [decide_eq_true_eq, show sacHeaderSize = 8 from rfl] at hrun
    rw [← hrun]
    have hsize := hroom.copyAt hpos (dword (hashDataSize + pbData.length))
    have hidentity := hsize.copyAt (Nat.le_add_right_of_le (k := 4) hpos) pbAccount
    exact hidentity.copyAt (Nat.le_add_right_of_le (Nat.le_add_right_of_le hpos)) pbData

theorem saiAddIdentity_headed {pbIdentity : Bytes} (h : pbSAI.length = 0 ∨ Headed hd pbSAI)
    (hrun : saiAddIdentity fresh pbIdentity pbSAI = .ok pbSAI') :
    Headed (nextHeader pbSAI hd) pbSAI' := by
  have hroom := @headed_makeRoom fresh hd pbSAI (pbSAI.length + 4 + hashDataSize)
    (by unfold hashDataSize; omega) h
  have hpos := le_newEntry h
  unfold saiAddIdentity at hrun
  dsimp only at hrun
  by_cases hmax : maxSecretSize < pbSAI.length + 4 + hashDataSize
  · rw [if_pos hmax] at hrun
    cases hrun
  · rw [if_neg hmax] at hrun
    have hrun := Except.ok.inj hrun
    simp only [decide_eq_true_eq, show saiHeaderSize = 8 from rfl] at hrun
    rw [← hrun]
    have hcount := hroom.copyAt hpos (dword 1)
    exact hcount.copyAt (Nat.le_add_right_of_le hpos) pbIdentity

theorem saiInsertIdentity_headed {pbIdentity : Bytes} {pbSet : ℕ} (h : Headed hd pbSAI)
    (hrun : saiInsertIdentity fresh pbIdentity pbSet pbSAI = .ok pbSAI') : Headed hd pbSAI' := by
  have hlarger := h.larger
  have hne : ¬pbSAI.length = 0 := by omega
  unfold saiInsertIdentity at hrun
  dsimp only at hrun
  split_ifs at hrun with hcorrupt hmax
  have hset : 12 ≤ pbSet := by
    have := not_or.1 hcorrupt
    exact Nat.le_of_not_lt this.1
  have hroom : Headed hd (makeRoom fresh pbSAI (pbSAI.length + hashDataSize) saiHeaderSize) := by
    rw [makeRoom, if_neg hne]
    exact h.resize (by omega)
  obtain rfl := Except.ok.inj hrun
  exact ((hroom.moveWithin (by omega) _ _).copyAt (by omega) _).copyAt (by omega) _

theorem Headed.writeCredential (h : Headed hd pbSAC) {pbData : Bytes} {p : ℕ} (hp : 12 ≤ p) :
    Headed hd (writeCredential pbData p pbSAC) :=
  (h.copyAt (by omega) _).copyAt (by omega) _

theorem sacUpdateCredential_headed {moves : Bool} {pbData : Bytes} {cb p : ℕ} (h : Headed hd pbSAC)
    (hrun : sacUpdateCredential fresh moves pbData cb p pbSAC = .ok pbSAC') : Headed hd pbSAC' := by
  have hlarger := h.larger
  unfold sacUpdateCredential at hrun
  dsimp only at hrun
  split_ifs at hrun with hcorrupt hgrow hmax hbehind hshrink hmoves
  all_goals
    obtain ⟨-, hcorrupt⟩ := not_or.1 hcorrupt
    obtain ⟨hp, hend⟩ := not_or.1 hcorrupt
    have hp : 12 ≤ p := Nat.le_of_not_lt hp
    obtain rfl := Except.ok.inj hrun
  · exact ((h.resize (by omega)).moveWithin (by omega) _ _).writeCredential hp
  · exact (h.resize (by omega)).writeCredential hp
  · exact (h.moveWithin (by omega) _ _).resize (by omega)
  · exact ((h.moveWithin (by omega) _ _).resize (by omega)).writeCredential hp
  · exact h.writeCredential hp

/-- The two blocks have the same header, or there is none. -/
def InSync (pbSAI pbSAC : Bytes) : Prop :=
  pbSAI = [] ∧ pbSAC = [] ∨ ∃ hd, Headed hd pbSAI ∧ Headed hd pbSAC

theorem length_advanceUsn (h : pb ≠ []) : (advanceUsn pb).length = pb.length := by
  obtain ⟨x, bs, rfl⟩ := List.exists_cons_of_ne_nil h
  rfl

theorem drop_advanceUsn (h : pb ≠ []) : (advanceUsn pb).drop usnSize = pb.drop usnSize := by
  obtain ⟨x, bs, rfl⟩ := List.exists_cons_of_ne_nil h
  rfl

theorem Headed.ne_nil (h : Headed hd pb) : pb ≠ [] := fun hnil => by
  have hlarger := h.larger
  rw [hnil, List.length_nil] at hlarger
  omega

theorem Headed.advanceUsn (h : Headed hd pb) : Headed (advanceUsn hd) (advanceUsn pb) := by
  obtain ⟨x, bs, rfl⟩ := List.exists_cons_of_ne_nil h.ne_nil
  have hlarger := h.larger
  rw [← h.header]
  exact ⟨hlarger, rfl⟩

theorem Built.inSync (h : Built pbSAI pbSAC) : InSync pbSAI pbSAC := by
  induction h with
  | none => exact Or.inl ⟨rfl, rfl⟩
  | @add pbSAI pbSAC _ _ _ _ _ fresh _ _ _ hsac hsai ih =>
    rcases ih with ⟨rfl, rfl⟩ | ⟨hd, hheaded, hheaded'⟩
    · exact Or.inr ⟨_, @saiAddIdentity_headed fresh [] [] _ _ (Or.inl rfl) hsai,
        sacAddCredential_headed (Or.inl rfl) hsac⟩
    · have hnext : nextHeader pbSAI hd = nextHeader pbSAC hd := by
        have hlarger := hheaded.larger
        have hlarger' := hheaded'.larger
        rw [nextHeader, nextHeader, if_neg (by omega), if_neg (by omega)]
      have hsai := saiAddIdentity_headed (Or.inr hheaded) hsai
      rw [hnext] at hsai
      exact Or.inr ⟨_, hsai, sacAddCredential_headed (Or.inr hheaded') hsac⟩
  | insert _ _ hindex hinsert ih =>
    rcases ih with ⟨rfl, rfl⟩ | ⟨hd, hheaded, hheaded'⟩
    · exact nomatch hindex
    · exact Or.inr ⟨hd, saiInsertIdentity_headed hheaded hinsert, hheaded'⟩
  | update _ hindex hupdate ih =>
    rcases ih with ⟨rfl, rfl⟩ | ⟨hd, hheaded, hheaded'⟩
    · exact nomatch hindex
    · exact Or.inr ⟨hd, hheaded, sacUpdateCredential_headed hheaded' hupdate⟩
  | written _ hne ih =>
    rcases ih with ⟨rfl, rfl⟩ | ⟨hd, hheaded, hheaded'⟩
    · exact absurd rfl hne
    · exact Or.inr ⟨_, hheaded.advanceUsn, hheaded'.advanceUsn⟩

/-- The update sequence number of a secret that has room for one. -/
def sequenceNumber (secret : Option Bytes) : Option ℕ :=
  secret.bind fun pb => if pb.length < usnSize then none else some (getDword pb 0)

/-- A pair is read back as it was written up to the update sequence numbers, which agree. -/
def ReadsBack (w : LsaWrites) (pbSAI pbSAC : Bytes) (lsa : Lsa) : Prop :=
  let written := (writeSecurityDBase w pbSAI pbSAC lsa).2
  sequenceNumber written.sai = sequenceNumber written.sac ∧
    ∃ pbSAI' pbSAC', readSecurityDBase written = .ok (pbSAI', pbSAC') ∧
      pbSAI'.drop usnSize = pbSAI.drop usnSize ∧ pbSAC'.drop usnSize = pbSAC.drop usnSize

theorem Headed.sequenceNumber (h : Headed hd pb) :
    sequenceNumber (some pb) = some (getDword hd 0) := by
  have hlarger := h.larger
  have hroom : ¬pb.length < usnSize := by
    show ¬_ < 4
    omega
  rw [Sched.sequenceNumber, Option.bind_some, if_neg hroom]
  simp only [getDword, h.getD (show 0 < 8 by decide), h.getD (show 0 + 1 < 8 by decide),
    h.getD (show 0 + 2 < 8 by decide), h.getD (show 0 + 3 < 8 by decide)]

theorem Headed.readBlock (h : Headed hd pb) : readBlock 8 (some pb) = some pb := by
  have hlarger := h.larger
  rw [Sched.readBlock, if_neg (by omega)]

/-- What is left of a block that a secret has no room for. -/
theorem length_readBlock {pb' : Bytes} {n : ℕ}
    (h : (readBlock n (writeLsaData pb)).getD [] = pb') : pb'.length < 2 ^ 16 := by
  have hmod := Nat.mod_lt pb.length (show 0 < 2 ^ 16 by decide)
  rw [writeLsaData, readBlock] at h
  split_ifs at h with hsmall
  · rw [← h]
    decide
  · rw [← h, Option.getD_some, List.length_take]
    omega

theorem readSecurityDBase_blocks {lsa : Lsa}
    (h : readSecurityDBase lsa = .ok (pbSAI, pbSAC)) :
    (readBlock 8 lsa.sai).getD [] = pbSAI ∧ (readBlock 8 lsa.sac).getD [] = pbSAC := by
  unfold readSecurityDBase at h
  rw [show saiHeaderSize = 8 from rfl, show sacHeaderSize = 8 from rfl] at h
  cases hsai : readBlock 8 lsa.sai with
  | none =>
    cases hsac : readBlock 8 lsa.sac with
    | none =>
      rw [hsai, hsac] at h
      obtain ⟨rfl, rfl⟩ := Prod.mk.inj (Except.ok.inj h)
      exact ⟨rfl, rfl⟩
    | some pb =>
      rw [hsai, hsac] at h
      exact nomatch h
  | some pb =>
    cases hsac : readBlock 8 lsa.sac with
    | none =>
      rw [hsai, hsac] at h
      exact nomatch h
    | some pb' =>
      rw [hsai, hsac] at h
      dsimp only at h
      split_ifs at h
      obtain ⟨rfl, rfl⟩ := Prod.mk.inj (Except.ok.inj h)
      exact ⟨rfl, rfl⟩

theorem writeSecurityDBase_built (h : Headed hd pbSAI) (h' : Headed hd pbSAC) (hsai : w.sai = true) :
    writeSecurityDBase w pbSAI pbSAC lsa =
      if w.sac then (.ok (), ⟨writeLsaData (advanceUsn pbSAI), writeLsaData (advanceUsn pbSAC)⟩)
      else (.error .fail, ⟨if w.restore then writeLsaData (lsa.sai.getD [])
        else writeLsaData (advanceUsn pbSAI), lsa.sac⟩) := by
  have hne : ¬(pbSAI = [] ∨ pbSAC = []) := fun hnil => hnil.elim h.ne_nil h'.ne_nil
  have hcount : ¬pbSAI.getD usnSize 0 ≠ pbSAC.getD usnSize 0 := by
    rw [h.getD (by decide), h'.getD (by decide)]
    exact not_not_intro rfl
  rw [writeSecurityDBase, if_neg hne, if_neg hcount, if_pos hsai]
  cases w.sac with
  | true => rfl
  | false => cases w.restore <;> rfl

/-- A pair is read back if and only if a secret has room for both blocks. -/
theorem readsBack_iff (h : Headed hd pbSAI) (h' : Headed hd pbSAC) (hsai : w.sai = true)
    (hsac : w.sac = true) :
    ReadsBack w pbSAI pbSAC lsa ↔ pbSAI.length < 2 ^ 16 ∧ pbSAC.length < 2 ^ 16 := by
  have hwrite := @writeSecurityDBase_built hd pbSAI pbSAC lsa w h h' hsai
  rw [hsac, if_pos rfl] at hwrite
  rw [ReadsBack, hwrite]
  constructor
  · rintro ⟨-, pbSAI', pbSAC', hread, hdrop, hdrop'⟩
    obtain ⟨hblock, hblock'⟩ := readSecurityDBase_blocks hread
    have hlen := congrArg List.length hdrop
    have hlen' := congrArg List.length hdrop'
    have hlt := length_readBlock hblock
    have hlt' := length_readBlock hblock'
    have hlarger := h.larger
    have hlarger' := h'.larger
    rw [List.length_drop, List.length_drop, show usnSize = 4 from rfl] at hlen hlen'
    omega
  · intro ⟨hfit, hfit'⟩
    have hstored : writeLsaData (advanceUsn pbSAI) = some (advanceUsn pbSAI) :=
      writeLsaData_of_lt (by rwa [length_advanceUsn h.ne_nil])
    have hstored' : writeLsaData (advanceUsn pbSAC) = some (advanceUsn pbSAC) :=
      writeLsaData_of_lt (by rwa [length_advanceUsn h'.ne_nil])
    have hnext := h.advanceUsn
    have hnext' := h'.advanceUsn
    have hsync : ¬((advanceUsn pbSAI).getD 0 0 ≠ (advanceUsn pbSAC).getD 0 0 ∨
        (advanceUsn pbSAI).getD usnSize 0 ≠ (advanceUsn pbSAC).getD usnSize 0) := by
      rw [hnext.getD (by decide), hnext'.getD (by decide), hnext.getD (show usnSize < 8 by decide),
        hnext'.getD (show usnSize < 8 by decide)]
      exact fun h => h.elim (fun h => h rfl) fun h => h rfl
    dsimp only
    rw [hstored, hstored', hnext.sequenceNumber, hnext'.sequenceNumber]
    refine ⟨rfl, advanceUsn pbSAI, advanceUsn pbSAC, ?_, drop_advanceUsn h.ne_nil,
      drop_advanceUsn h'.ne_nil⟩
    rw [readSecurityDBase, show saiHeaderSize = 8 from rfl, show sacHeaderSize = 8 from rfl,
      hnext.readBlock, hnext'.readBlock]
    dsimp only
    rw [if_neg hsync]
    rfl

/-- What the LSA holds after writes that were undone, or went through with blocks that a secret has
room for. -/
inductive Written : Lsa → Prop
  | none : Written ⟨none, none⟩
  | write {lsa : Lsa} {w : LsaWrites} {pbSAI pbSAC : Bytes} :
    Written lsa → Built pbSAI pbSAC →
      (w.sac = true → pbSAI.length < 2 ^ 16 ∧ pbSAC.length < 2 ^ 16) →
        (w.sai = true → w.sac = false → w.restore = true) →
          Written (writeSecurityDBase w pbSAI pbSAC lsa).2

/-- The update sequence numbers agree after every such write. -/
theorem Written.sequenceNumbers (h : Written lsa) :
    sequenceNumber lsa.sai = sequenceNumber lsa.sac ∧
      ∀ pb, lsa.sai = some pb → pb.length < 2 ^ 16 := by
  induction h with
  | none => exact ⟨rfl, fun pb hpb => nomatch hpb⟩
  | @write lsa w pbSAI pbSAC _ hbuilt hfits hrestore ih =>
    rcases hbuilt.inSync with ⟨rfl, rfl⟩ | ⟨hd, hheaded, hheaded'⟩
    · exact ih
    · cases hsai : w.sai with
      | false =>
        have hkept : (writeSecurityDBase w pbSAI pbSAC lsa).2 = lsa := by
          rw [writeSecurityDBase, hsai, if_neg Bool.false_ne_true]
          split_ifs <;> rfl
        rwa [hkept]
      | true =>
        rw [writeSecurityDBase_built hheaded hheaded' hsai]
        cases hsac : w.sac with
        | true =>
          obtain ⟨hfit, hfit'⟩ := hfits hsac
          have hlen := length_advanceUsn hheaded.ne_nil
          have hlen' := length_advanceUsn hheaded'.ne_nil
          rw [if_pos rfl, writeLsaData_of_lt (by omega), writeLsaData_of_lt (by omega)]
          refine ⟨?_, fun pb hpb => ?_⟩
          · exact hheaded.advanceUsn.sequenceNumber.trans
              hheaded'.advanceUsn.sequenceNumber.symm
          · rw [← Option.some.inj hpb, hlen]
            exact hfit
        | false =>
          rw [if_neg Bool.false_ne_true, hrestore hsai hsac, if_pos rfl]
          obtain ⟨hagree, hroom⟩ := ih
          cases hold : lsa.sai with
          | none =>
            rw [hold] at hagree
            exact ⟨hagree, fun pb hpb => by rw [← Option.some.inj hpb]; decide⟩
          | some pb =>
            have hlt := hroom pb hold
            rw [hold] at hagree
            rw [Option.getD_some, writeLsaData_of_lt hlt]
            exact ⟨hagree, fun pb' hpb => by rw [← Option.some.inj hpb]; exact hlt⟩

/-- The blocks are told apart: one of them alone is no more than a header, or one of the two first
bytes that are compared differs. -/
def ToldApart (pbSAI pbSAC : Bytes) : Prop :=
  pbSAI.length ≤ 8 ∧ 8 < pbSAC.length ∨ 8 < pbSAI.length ∧ pbSAC.length ≤ 8 ∨
    8 < pbSAI.length ∧ 8 < pbSAC.length ∧
      (pbSAI.getD 0 0 ≠ pbSAC.getD 0 0 ∨ pbSAI.getD usnSize 0 ≠ pbSAC.getD usnSize 0)

theorem readSecurityDBase_corrupt_iff (h : 8 ≤ pbSAI.length) (h' : 8 ≤ pbSAC.length) :
    readSecurityDBase ⟨some pbSAI, some pbSAC⟩ = .error .accountDbaseCorrupt ↔
      ToldApart pbSAI pbSAC := by
  rw [readSecurityDBase, show saiHeaderSize = 8 from rfl, show sacHeaderSize = 8 from rfl,
    readBlock, readBlock, ToldApart]
  by_cases hsai : pbSAI.length ≤ 8
  · by_cases hsac : pbSAC.length ≤ 8
    · rw [if_pos (by omega), if_pos (by omega)]
      exact iff_of_false (fun h => by cases h) (by omega)
    · rw [if_pos (by omega), if_neg (by omega)]
      exact iff_of_true rfl (by omega)
  · by_cases hsac : pbSAC.length ≤ 8
    · rw [if_neg (by omega), if_pos (by omega)]
      exact iff_of_true rfl (by omega)
    · rw [if_neg (by omega), if_neg (by omega)]
      dsimp only
      split_ifs with hdiffer
      · exact iff_of_true rfl (Or.inr (Or.inr ⟨by omega, by omega, hdiffer⟩))
      · refine iff_of_false (fun h => by cases h) ?_
        rintro (hfirst | hfirst | hfirst)
        · omega
        · omega
        · exact hdiffer hfirst.2.2

/-- Written pairs are read back if and only if a secret has room for both blocks, the update sequence
numbers agree as long as it has, and a pair with different numbers is rejected if and only if it is
told apart by the bytes that are compared. -/
theorem securityDBase_iff (w : LsaWrites) (lsa : Lsa) (pbSAI pbSAC : Bytes) :
    (Built pbSAI pbSAC → pbSAI ≠ [] → w.sai = true → w.sac = true →
      (ReadsBack w pbSAI pbSAC lsa ↔ pbSAI.length < 2 ^ 16 ∧ pbSAC.length < 2 ^ 16)) ∧
    (Written lsa → sequenceNumber lsa.sai = sequenceNumber lsa.sac) ∧
    (8 ≤ pbSAI.length → 8 ≤ pbSAC.length →
      getDword pbSAI 0 ≠ getDword pbSAC 0 ∨ getDword pbSAI usnSize ≠ getDword pbSAC usnSize →
        (readSecurityDBase ⟨some pbSAI, some pbSAC⟩ = .error .accountDbaseCorrupt ↔
          ToldApart pbSAI pbSAC)) := by
  refine ⟨fun h hne hsai hsac => ?_, fun h => h.sequenceNumbers.1,
    fun h h' _ => readSecurityDBase_corrupt_iff h h'⟩
  rcases h.inSync with ⟨rfl, rfl⟩ | ⟨hd, hheaded, hheaded'⟩
  · exact absurd rfl hne
  · exact readsBack_iff hheaded hheaded' hsai hsac

/-- One job whose credential has `n` bytes of data. -/
theorem built_one {n : ℕ} (hn : n ≤ 65468) :
    Built (packSai 0 [[List.replicate hashDataSize 1]])
      (packSac 0 [⟨List.replicate hashDataSize 2, List.replicate n 3⟩]) := by
  have hadd : ∃ pbSAC, sacAddCredential (fun _ => 0) (List.replicate hashDataSize 2)
      (List.replicate n 3) [] = .ok pbSAC := by
    have hmax : ¬maxSecretSize < ([] : Bytes).length + 4 +
        (hashDataSize + (List.replicate n (3 : UInt8)).length) := by
      rw [List.length_replicate, List.length_nil]
      unfold maxSecretSize hashDataSize
      omega
    unfold sacAddCredential
    dsimp only
    rw [if_neg hmax]
    exact ⟨_, rfl⟩
  have hadd' : ∃ pbSAI, saiAddIdentity (fun _ => 0) (List.replicate hashDataSize 1) [] =
      .ok pbSAI := ⟨_, rfl⟩
  obtain ⟨pbSAC, hsac⟩ := hadd
  obtain ⟨pbSAI, hsai⟩ := hadd'
  have hpack := @sacAddCredential_spec 0 _ []
    ⟨List.replicate hashDataSize 2, List.replicate n 3⟩ [] pbSAC (Or.inl ⟨rfl, rfl, rfl⟩)
    List.length_replicate hsac
  have hpack' := @saiAddIdentity_spec 0 _ [] _ [] pbSAI (Or.inl ⟨rfl, rfl, rfl⟩)
    List.length_replicate hsai
  rw [List.nil_append] at hpack hpack'
  rw [← hpack, ← hpack']
  exact Built.none.add List.length_replicate List.length_replicate hsac hsai

theorem length_one (n : ℕ) :
    (packSac 0 [⟨List.replicate hashDataSize 2, List.replicate n 3⟩]).length = 76 + n := by
  rw [length_packSac, packCredentials_cons, packCredentials_nil, List.append_nil,
    length_packCredential List.length_replicate, List.length_replicate]
  unfold hashDataSize
  omega

theorem securityDBase_iff_one :
    ReadsBack ⟨true, true, true⟩ (packSai 0 [[List.replicate hashDataSize 1]])
        (packSac 0 [⟨List.replicate hashDataSize 2, [3]⟩]) ⟨none, none⟩ ∧
      sequenceNumber (writeSecurityDBase ⟨true, false, true⟩
        (packSai 0 [[List.replicate hashDataSize 1]])
        (packSac 0 [⟨List.replicate hashDataSize 2, [3]⟩]) ⟨none, none⟩).2.sai =
          sequenceNumber (writeSecurityDBase ⟨true, false, true⟩
            (packSai 0 [[List.replicate hashDataSize 1]])
            (packSac 0 [⟨List.replicate hashDataSize 2, [3]⟩]) ⟨none, none⟩).2.sac ∧
      readSecurityDBase ⟨some [1, 0, 0, 0, 1, 0, 0, 0, 5], some [2, 0, 0, 0, 1, 0, 0, 0, 5]⟩ =
        .error .accountDbaseCorrupt := by
  have hbuilt := @built_one 1 (by decide)
  refine ⟨?_, ?_, ?_⟩
  · refine ((securityDBase_iff _ _ _ _).1 hbuilt (List.cons_ne_nil _ _) rfl rfl).2 ⟨by decide, ?_⟩
    rw [length_one]
    decide
  · exact (securityDBase_iff ⟨true, true, true⟩ _ [] []).2.1
      (Written.none.write hbuilt (fun h => nomatch h) fun _ _ => rfl)
  · refine ((securityDBase_iff ⟨true, true, true⟩ ⟨none, none⟩ _ _).2.2 (by decide) (by decide)
      (Or.inl (by decide))).2 ?_
    exact Or.inr (Or.inr ⟨by decide, by decide, Or.inl (by decide)⟩)

/-- A credential with 65460 bytes of data makes a block of 65536 bytes, which is stored as an empty
secret. Update sequence numbers that differ by 256 are taken as equal. -/
theorem not_securityDBase_full :
    (∃ pbSAI pbSAC, Built pbSAI pbSAC ∧
      ¬ReadsBack ⟨true, true, true⟩ pbSAI pbSAC ⟨none, none⟩) ∧
    readSecurityDBase ⟨some [0, 0, 0, 0, 1, 0, 0, 0, 5], some [0, 1, 0, 0, 1, 0, 0, 0, 5]⟩ =
      .ok ([0, 0, 0, 0, 1, 0, 0, 0, 5], [0, 1, 0, 0, 1, 0, 0, 0, 5]) ∧
    getDword [0, 0, 0, 0, 1, 0, 0, 0, 5] 0 ≠ getDword [0, 1, 0, 0, 1, 0, 0, 0, 5] 0 := by
  have hbuilt := @built_one 65460 (by decide)
  refine ⟨⟨_, _, hbuilt, fun hread => ?_⟩, rfl, by decide⟩
  rcases hbuilt.inSync with ⟨hnil, -⟩ | ⟨hd, hheaded, hheaded'⟩
  · exact List.cons_ne_nil _ _ hnil
  · have hfit := ((readsBack_iff hheaded hheaded' rfl rfl).1 hread).2
    rw [length_one] at hfit
    exact absurd hfit (by decide)

end NtAdmin.Sched
