import NtAdmin.Sched.SvcCore.SacSpec

/-! When a credential is updated in place without harm to the others. -/
namespace NtAdmin.Sched
open Lib

variable {moves : Bool} {usn : UInt8} {b a cs : List Credential} {c : Credential} {d : Bytes}

/-- The credential with new encrypted data. -/
def Credential.withData (d : Bytes) (c : Credential) : Credential := { c with data := d }

theorem length_packSac_withData (usn : UInt8) (hs : SizedCredentials (b ++ c :: a)) :
    (packSac usn (b ++ c.withData d :: a)).length + c.data.length =
      (packSac usn (b ++ c :: a)).length + d.length := by
  have hc := hs c (List.mem_append_right b List.mem_cons_self)
  have hd : (packCredential (c.withData d)).length = 4 + (hashDataSize + d.length) :=
    length_packCredential (c := c.withData d) hc
  rw [length_packSac, length_packSac, packCredentials_append, packCredentials_append,
    packCredentials_cons, packCredentials_cons, List.length_append, List.length_append,
    List.length_append, List.length_append, hd, length_packCredential hc]
  omega

/-- The update goes through if the block does not get too large. -/
theorem sacUpdateCredential_ok (fresh : ℕ → UInt8) (moves : Bool)
    (hs : SizedCredentials (b ++ c :: a))
    (hnew : (packSac usn (b ++ c.withData d :: a)).length ≤ maxSecretSize) :
    ∃ pbSAC', sacUpdateCredential fresh moves d (hashDataSize + c.data.length) (credentialOffset b)
      (packSac usn (b ++ c :: a)) = .ok pbSAC' := by
  have hend := credentialOffset_add_le usn hs
  have hlength := length_packSac_withData (d := d) usn hs
  have hbounds : ¬((packSac usn (b ++ c :: a)).length < sacHeaderSize ∨
      credentialOffset b < sacHeaderSize + 4 ∨
      (packSac usn (b ++ c :: a)).length < credentialOffset b + (hashDataSize + c.data.length)) := by
    rw [show sacHeaderSize = 8 from rfl, ← hend, credentialOffset]
    omega
  have hmax : ¬maxSecretSize < (packSac usn (b ++ c :: a)).length +
      (hashDataSize + d.length - (hashDataSize + c.data.length)) ∨
        ¬hashDataSize + c.data.length < hashDataSize + d.length := by
    omega
  rw [sacUpdateCredential, if_neg hbounds]
  dsimp only
  by_cases hgrow : hashDataSize + c.data.length < hashDataSize + d.length
  · rw [if_pos hgrow, if_neg (hmax.resolve_right (not_not_intro hgrow))]
    exact ⟨_, rfl⟩
  · rw [if_neg hgrow]
    split_ifs <;> exact ⟨_, rfl⟩

/-- What lies behind the bytes that are written. -/
theorem drop_copyAt {p bs : Bytes} {off n : ℕ} (hoff : off ≤ p.length)
    (hn : off + bs.length ≤ n) : (copyAt p off bs).drop n = p.drop n := by
  obtain ⟨k, rfl⟩ := Nat.exists_eq_add_of_le hn
  have hfront : (p.take off ++ bs).length = off + bs.length := by
    rw [List.length_append, List.length_take, Nat.min_eq_left hoff]
  rw [copyAt, List.drop_append, hfront, List.drop_of_length_le (by omega), List.nil_append,
    List.drop_drop]
  congr 1
  omega

/-- What lies behind a credential that is written. -/
theorem drop_writeCredential {p : Bytes} {pb : ℕ} (hpb : 4 ≤ pb) (hroom : pb + hashDataSize ≤ p.length) :
    (writeCredential d pb p).drop (pb + (hashDataSize + d.length)) =
      p.drop (pb + (hashDataSize + d.length)) := by
  have hsize : (copyAt p (pb - 4) (dword (hashDataSize + d.length))).length = p.length := by
    rw [copyAt, List.length_append, List.length_append, List.length_take, List.length_drop,
      length_dword]
    omega
  rw [writeCredential, drop_copyAt (by omega) (by omega), drop_copyAt (by omega)]
  rw [length_dword]
  omega

/-- Where the block had to grow by at least what is behind the credential, uninitialised memory
takes its place. -/
theorem sacUpdateCredential_lost (hs : SizedCredentials (b ++ c :: a))
    (hnew : (packSac usn (b ++ c.withData d :: a)).length ≤ maxSecretSize)
    (hgrow : c.data.length < d.length) (hlast : a ≠ [])
    (hfar : (packCredentials a).length ≤ d.length - c.data.length) :
    ∃ x, sacUpdateCredential (fun _ => x) moves d (hashDataSize + c.data.length)
      (credentialOffset b) (packSac usn (b ++ c :: a)) ≠
        .ok (packSac usn (b ++ c.withData d :: a)) := by
  have hend := credentialOffset_add_le usn hs
  have hlength := length_packSac_withData (d := d) usn hs
  have hpacked : 0 < (packCredentials a).length :=
    Nat.lt_of_lt_of_le (List.length_pos_of_ne_nil hlast) (length_le_packCredentials a)
  have hoff : 4 ≤ credentialOffset b := Nat.le_add_left 4 _
  have htail : ∀ x : UInt8, sacUpdateCredential (fun _ => x) moves d
      (hashDataSize + c.data.length) (credentialOffset b) (packSac usn (b ++ c :: a)) =
        .ok (packSac usn (b ++ c.withData d :: a)) →
      (packSac usn (b ++ c.withData d :: a)).drop (credentialOffset b + (hashDataSize + d.length)) =
        List.replicate (packCredentials a).length x := by
    intro x h
    have hbounds : ¬((packSac usn (b ++ c :: a)).length < sacHeaderSize ∨
        credentialOffset b < sacHeaderSize + 4 ∨
        (packSac usn (b ++ c :: a)).length <
          credentialOffset b + (hashDataSize + c.data.length)) := by
      rw [show sacHeaderSize = 8 from rfl, ← hend, credentialOffset]
      omega
    have hmax : ¬maxSecretSize < (packSac usn (b ++ c :: a)).length +
        (hashDataSize + d.length - (hashDataSize + c.data.length)) := by omega
    have hdest : ¬credentialOffset b + (hashDataSize + d.length) <
        (packSac usn (b ++ c :: a)).length := by omega
    rw [sacUpdateCredential, if_neg hbounds] at h
    dsimp only at h
    rw [if_pos (Nat.add_lt_add_left hgrow _), if_neg hmax, if_neg hdest] at h
    rw [← Except.ok.inj h, drop_writeCredential hoff]
    · rw [resize, List.take_of_length_le (by omega), List.drop_append,
        List.drop_of_length_le (by omega), List.nil_append, List.map_const', List.length_range',
        List.drop_replicate]
      congr 1
      omega
    · rw [resize, List.take_of_length_le (by omega), List.length_append]
      omega
  by_contra hall
  push Not at hall
  have hzero := htail 0 (hall 0)
  have hone := htail 1 (hall 1)
  rw [hzero] at hone
  have hmem : (0 : UInt8) ∈ List.replicate (packCredentials a).length (1 : UInt8) := by
    rw [← hone]
    exact List.mem_replicate.2 ⟨by omega, rfl⟩
  exact absurd (List.eq_of_mem_replicate hmem) (by decide)

/-- The block of a credential that shrinks, before the credential is written. -/
theorem resize_moved (fresh : ℕ → UInt8) (usn : UInt8) (hs : SizedCredentials (b ++ c :: a))
    (hshrink : d.length < c.data.length) :
    resize fresh (moveWithin (packSac usn (b ++ c :: a))
      (credentialOffset b + (hashDataSize + d.length))
      (credentialOffset b + (hashDataSize + c.data.length))
      ((packSac usn (b ++ c :: a)).length - (credentialOffset b + (hashDataSize + c.data.length))))
      ((packSac usn (b ++ c :: a)).length -
        (hashDataSize + c.data.length - (hashDataSize + d.length))) =
      header usn (b ++ c :: a).length ++ packCredentials b ++
        dword (hashDataSize + c.data.length) ++ (c.identity ++ c.data.take d.length) ++
          packCredentials a := by
  have hc := hs c (List.mem_append_right b List.mem_cons_self)
  have hend := credentialOffset_add_le usn hs
  have hkeep : (c.data.take d.length).length = d.length := by
    rw [List.length_take]
    omega
  have hfront : (header usn (b ++ c :: a).length ++ packCredentials b ++
      dword (hashDataSize + c.data.length) ++ (c.identity ++ c.data.take d.length)).length =
        credentialOffset b + (hashDataSize + d.length) := by
    simp only [List.length_append, length_header, length_dword, hc, hkeep, credentialOffset]
  obtain ⟨stale, hstale, hmove⟩ := moveWithin_down (p := packSac usn (b ++ c :: a))
    (u := header usn (b ++ c :: a).length ++ packCredentials b ++
      dword (hashDataSize + c.data.length) ++ (c.identity ++ c.data.take d.length))
    (g := c.data.drop d.length) (v := packCredentials a) (t := [])
    (d := credentialOffset b + (hashDataSize + d.length))
    (s := credentialOffset b + (hashDataSize + c.data.length))
    (n := (packSac usn (b ++ c :: a)).length -
      (credentialOffset b + (hashDataSize + c.data.length)))
    (by
      rw [packSac_mid]
      nth_rewrite 2 [← List.take_append_drop d.length c.data]
      simp only [List.append_assoc, List.append_nil])
    hfront.symm (by rw [hfront, List.length_drop]; omega) (by omega)
  rw [hmove]
  apply resize_shrink rfl
  rw [List.length_append, hfront]
  omega

/-- What is written through the old pointer is not in a block that was moved. -/
theorem sacUpdateCredential_moved (fresh : ℕ → UInt8) (hs : SizedCredentials (b ++ c :: a))
    (hfit : (packSac usn (b ++ c :: a)).length < 2 ^ 32) (hshrink : d.length < c.data.length) :
    sacUpdateCredential fresh true d (hashDataSize + c.data.length) (credentialOffset b)
      (packSac usn (b ++ c :: a)) ≠ .ok (packSac usn (b ++ c.withData d :: a)) := by
  have hc := hs c (List.mem_append_right b List.mem_cons_self)
  have hend := credentialOffset_add_le usn hs
  have hbounds : ¬((packSac usn (b ++ c :: a)).length < sacHeaderSize ∨
      credentialOffset b < sacHeaderSize + 4 ∨
      (packSac usn (b ++ c :: a)).length < credentialOffset b + (hashDataSize + c.data.length)) := by
    rw [show sacHeaderSize = 8 from rfl, ← hend, credentialOffset]
    omega
  intro h
  rw [sacUpdateCredential, if_neg hbounds] at h
  dsimp only at h
  rw [if_neg (by omega), if_pos (Nat.add_lt_add_left hshrink _), if_pos rfl,
    resize_moved fresh usn hs hshrink] at h
  -- the sizes in front of the credential differ
  have hold : getDword (packSac usn (b ++ c.withData d :: a)) (8 + (packCredentials b).length) =
      hashDataSize + c.data.length := by
    rw [← Except.ok.inj h]
    refine getDword_mid (u := header usn (b ++ c :: a).length ++ packCredentials b)
      (v := c.identity ++ c.data.take d.length ++ packCredentials a)
      (by simp only [List.append_assoc]) ?_ (by omega)
    rw [List.length_append, length_header]
  have hnew : getDword (packSac usn (b ++ c.withData d :: a)) (8 + (packCredentials b).length) =
      hashDataSize + d.length := by
    refine getDword_mid (packSac_mid usn b a (c.withData d)) ?_ ?_
    · rw [List.length_append, length_header]
    · exact Nat.lt_of_le_of_lt (Nat.add_le_add_left (Nat.le_of_lt hshrink) _) (by omega)
  omega

/-- Exactly when the update of the credential at an index replaces its size and its encrypted data,
and nothing else. -/
theorem sacUpdateCredential_iff (usn : UInt8) (moves : Bool) (cs : List Credential) (i : ℕ)
    (d : Bytes) (hi : i < cs.length) (hs : SizedCredentials cs)
    (hfit : (packSac usn cs).length < 2 ^ 32)
    (hnew : (packSac usn (cs.modify i (Credential.withData d))).length ≤ maxSecretSize) :
    ∃ cbCredential pbCredential,
      sacIndexCredential i (packSac usn cs) = .ok (some (cbCredential, pbCredential)) ∧
      ((∀ fresh, sacUpdateCredential fresh moves d cbCredential pbCredential (packSac usn cs) =
          .ok (packSac usn (cs.modify i (Credential.withData d)))) ↔
        Updatable moves cs[i].data.length d.length (cs.drop (i + 1))) := by
  obtain ⟨b, c, a, rfl, rfl⟩ : ∃ b c a, cs = b ++ c :: a ∧ b.length = i := by
    refine ⟨cs.take i, cs[i], cs.drop (i + 1), ?_, List.length_take_of_le (Nat.le_of_lt hi)⟩
    rw [← List.drop_eq_getElem_cons hi, List.take_append_drop]
  have hmodify : (b ++ c :: a).modify b.length (Credential.withData d) =
      b ++ c.withData d :: a := by
    rw [List.modify_eq_set_getElem?, List.getElem?_append_right (Nat.le_refl _), Nat.sub_self,
      List.getElem?_cons_zero]
    simp
  have hget : (b ++ c :: a)[b.length] = c := by
    rw [List.getElem_append_right (Nat.le_refl _)]
    simp only [Nat.sub_self, List.getElem_cons_zero]
  have hdrop : (b ++ c :: a).drop (b.length + 1) = a := by
    rw [← List.drop_drop, List.drop_left, List.drop_one, List.tail_cons]
  rw [hmodify] at hnew ⊢
  rw [hget, hdrop]
  refine ⟨_, _, sacIndexCredential_spec hs hfit, ?_, ?_⟩
  · intro hall
    constructor
    · intro hgrow
      by_contra hnot
      obtain ⟨hne, hlen⟩ := not_or.1 hnot
      obtain ⟨x, hx⟩ := @sacUpdateCredential_lost moves _ _ _ _ _ hs hnew hgrow hne
        (Nat.le_of_not_lt hlen)
      exact hx (hall fun _ => x)
    · intro hshrink
      cases moves with
      | false => rfl
      | true => exact absurd (hall fun _ => 0) (sacUpdateCredential_moved _ hs hfit hshrink)
  · intro hupdatable fresh
    obtain ⟨pbSAC', hok⟩ := sacUpdateCredential_ok fresh moves hs hnew
    rw [hok, sacUpdateCredential_spec hs hupdatable hok]
    rfl

/-- Two credentials with one byte each. -/
def twoCredentials : List Credential :=
  [⟨List.replicate hashDataSize 0, [1]⟩, ⟨List.replicate hashDataSize 1, [1]⟩]

theorem sized_twoCredentials : SizedCredentials twoCredentials := by
  intro c hc
  simp only [twoCredentials, List.mem_cons, List.not_mem_nil, or_false] at hc
  obtain rfl | rfl := hc <;> exact List.length_replicate

/-- The first of two credentials grows by two bytes, fewer than the second one has. -/
theorem sacUpdateCredential_iff_twoCredentials : ∃ cbCredential pbCredential,
    sacIndexCredential 0 (packSac 0 twoCredentials) = .ok (some (cbCredential, pbCredential)) ∧
      ∀ fresh, sacUpdateCredential fresh false [2, 3, 4] cbCredential pbCredential
          (packSac 0 twoCredentials) =
            .ok (packSac 0 (twoCredentials.modify 0 (Credential.withData [2, 3, 4]))) := by
  obtain ⟨cbCredential, pbCredential, hindex, hupdate⟩ :=
    sacUpdateCredential_iff 0 false twoCredentials 0 [2, 3, 4] (by decide) sized_twoCredentials
      (by rw [length_packSac]; simp [twoCredentials, packCredential, hashDataSize])
      (by
        rw [length_packSac]
        simp [twoCredentials, packCredential, hashDataSize, maxSecretSize, Credential.withData])
  refine ⟨cbCredential, pbCredential, hindex, hupdate.mpr ⟨fun _ => Or.inr ?_, fun _ => rfl⟩⟩
  simp [twoCredentials, packCredential, hashDataSize]

/-- The second of two credentials is lost if the first one grows by 100 bytes. -/
theorem not_sacUpdateCredential_twoCredentials : ¬ ∀ fresh,
    sacUpdateCredential fresh false (List.replicate 101 2) 65 12 (packSac 0 twoCredentials) =
      .ok (packSac 0 (twoCredentials.modify 0 (Credential.withData (List.replicate 101 2)))) := by
  intro h
  have hd : (List.replicate 101 (2 : UInt8)).length = 101 := List.length_replicate
  generalize List.replicate 101 (2 : UInt8) = d at h hd
  have hnew : (packSac 0 (twoCredentials.modify 0 (Credential.withData d))).length ≤
      maxSecretSize := by
    rw [length_packSac]
    simp [twoCredentials, packCredential, hashDataSize, maxSecretSize, Credential.withData, hd]
  obtain ⟨x, hx⟩ := @sacUpdateCredential_lost false 0 [] _ _ d sized_twoCredentials hnew
    (by rw [hd]; decide) (by decide) (by simp [packCredential, hashDataSize, hd])
  exact hx (h fun _ => x)

end NtAdmin.Sched
