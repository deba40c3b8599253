import NtAdmin.Sched.SvcCore.Packed

/-! What the operations of the SAC do to a packed array of credentials. -/
namespace NtAdmin.Sched
open Lib

/-- The identities are hashes. -/
def SizedCredentials (cs : List Credential) : Prop := ∀ c ∈ cs, c.identity.length = hashDataSize

variable {usn : UInt8} {fresh : ℕ → UInt8} {b a cs : List Credential} {c : Credential}

theorem SizedCredentials.of_append (h : SizedCredentials (b ++ a)) :
    SizedCredentials b ∧ SizedCredentials a :=
  ⟨fun c hc => h c (List.mem_append_left a hc), fun c hc => h c (List.mem_append_right b hc)⟩

/-- The block around one credential. -/
theorem packSac_mid (usn : UInt8) (b a : List Credential) (c : Credential) :
    packSac usn (b ++ c :: a) = header usn (b ++ c :: a).length ++ packCredentials b ++
      dword (hashDataSize + c.data.length) ++ (c.identity ++ (c.data ++ packCredentials a)) := by
  simp only [packSac, packCredentials_append, packCredentials_cons, packCredential,
    List.append_assoc]

/-- Where the credential behind `b` has its identity. -/
def credentialOffset (b : List Credential) : ℕ := 8 + (packCredentials b).length + 4

theorem credentialOffset_add_le (usn : UInt8) (h : SizedCredentials (b ++ c :: a)) :
    credentialOffset b + (hashDataSize + c.data.length) + (packCredentials a).length =
      (packSac usn (b ++ c :: a)).length := by
  have hc := h c (List.mem_append_right b List.mem_cons_self)
  rw [packSac_mid]
  simp only [List.length_append, length_header, length_dword, hc, credentialOffset]
  omega

/-- What is read where a credential stands. -/
theorem credential_at {pbSAC u v : Bytes} {pb : ℕ} (hpb : pbSAC = u ++ packCredential c ++ v)
    (hoff : pb = u.length) (hc : c.identity.length = hashDataSize) (hfit : pbSAC.length < 2 ^ 32) :
    getDword pbSAC pb = hashDataSize + c.data.length ∧
      sliceAt pbSAC (pb + 4) hashDataSize = c.identity ∧
      pbSAC.length = pb + 4 + hashDataSize + c.data.length + v.length := by
  have htotal : pbSAC.length = pb + 4 + hashDataSize + c.data.length + v.length := by
    rw [hpb, List.length_append, List.length_append, length_packCredential hc, hoff]
    omega
  refine ⟨getDword_mid (u := u) (v := c.identity ++ c.data ++ v) ?_ hoff (by omega),
    sliceAt_mid (u := u ++ dword (hashDataSize + c.data.length)) (v := c.data ++ v) ?_ ?_ hc.symm,
    htotal⟩
  · rw [hpb, packCredential]
    simp only [List.append_assoc]
  · rw [hpb, packCredential]
    simp only [List.append_assoc]
  · rw [hoff, List.length_append, length_dword]

theorem getDword_packSac (hfit : (packSac usn cs).length < 2 ^ 32) :
    getDword (packSac usn cs) usnSize = cs.length := by
  have hle := length_le_packCredentials cs
  rw [length_packSac] at hfit
  exact getDword_header (by omega)

theorem sacSeek_spec {idx i pb n : ℕ} {u pbSAC : Bytes}
    (hpb : pbSAC = u ++ packCredentials (b ++ a)) (hoff : pb = u.length)
    (hidx : idx = i + b.length) (hn : n = (b ++ a).length) (hb : SizedCredentials b)
    (hfit : pbSAC.length < 2 ^ 32) :
    sacSeek idx pbSAC n i pb = .ok (idx, u.length + (packCredentials b).length) := by
  induction b generalizing i pb n u with
  | nil =>
    have hstop : ¬(i < idx ∧ pb < pbSAC.length) := by
      rw [hidx]
      exact fun h => Nat.lt_irrefl i h.1
    cases n with
    | zero => rw [sacSeek, hidx, hoff]; rfl
    | succ n => rw [sacSeek, if_neg hstop, hidx, hoff]; rfl
  | cons c b ih =>
    obtain ⟨n, rfl⟩ : ∃ m, n = m + 1 := ⟨(b ++ a).length, hn⟩
    have hc := hb c List.mem_cons_self
    have hlen := length_packCredential hc
    have hsplit : pbSAC = u ++ packCredential c ++ packCredentials (b ++ a) := by
      rw [hpb, List.append_assoc]
      rfl
    obtain ⟨hsize, -, htotal⟩ := credential_at hsplit hoff hc hfit
    have hgo : i < idx ∧ pb < pbSAC.length := by
      rw [hidx, List.length_cons]
      omega
    have hroom : ¬pbSAC.length < pb + 4 := by omega
    have hnext := @ih (i + 1) (pb + 4 + getDword pbSAC pb) n (u ++ packCredential c) hsplit
      (by rw [hsize, List.length_append, hlen]; omega)
      (by rw [hidx, List.length_cons]; omega) (Nat.succ.inj hn)
      (fun d hd => hb d (List.mem_cons_of_mem c hd))
    rw [sacSeek, if_pos hgo, if_neg hroom, hnext, packCredentials_cons]
    simp only [List.length_append, Nat.add_assoc]

theorem sacIndexCredential_spec (hs : SizedCredentials (b ++ c :: a))
    (hfit : (packSac usn (b ++ c :: a)).length < 2 ^ 32) :
    sacIndexCredential b.length (packSac usn (b ++ c :: a)) =
      .ok (some (hashDataSize + c.data.length, credentialOffset b)) := by
  have hend := credentialOffset_add_le usn hs
  have hcount := getDword_packSac hfit
  have hseek : sacSeek b.length (packSac usn (b ++ c :: a)) (b ++ c :: a).length 0 8 =
      .ok (b.length, 8 + (packCredentials b).length) :=
    sacSeek_spec (u := header usn (b ++ c :: a).length) (b := b) (a := c :: a) rfl rfl
      (Nat.zero_add _).symm rfl hs.of_append.1 hfit
  have hsize : getDword (packSac usn (b ++ c :: a)) (8 + (packCredentials b).length) =
      hashDataSize + c.data.length := by
    refine getDword_mid (packSac_mid usn b a c) ?_ (by omega)
    rw [List.length_append, length_header]
  unfold credentialOffset at hend
  have hne : ¬(packSac usn (b ++ c :: a)).length ≤ sacHeaderSize := by
    show ¬_ ≤ 8
    omega
  have hin : True ∧ b.length < (b ++ c :: a).length ∧
      8 + (packCredentials b).length < (packSac usn (b ++ c :: a)).length := by
    refine ⟨trivial, ?_, by omega⟩
    rw [List.length_append, List.length_cons]
    omega
  have hbound : 8 + (packCredentials b).length + 4 + (hashDataSize + c.data.length) ≤
      (packSac usn (b ++ c :: a)).length := by omega
  unfold sacIndexCredential
  rw [if_neg hne, hcount]
  simp only [show sacHeaderSize = 8 from rfl, hseek, bind, Except.bind]
  rw [if_pos hin, hsize, if_pos hbound]
  rfl

/-- The scan passes a credential of another account. -/
theorem sacScan_skip {id pbSAC u v : Bytes} {i pb n : ℕ}
    (hpb : pbSAC = u ++ packCredential c ++ v) (hoff : pb = u.length)
    (hc : c.identity.length = hashDataSize) (hfit : pbSAC.length < 2 ^ 32)
    (hne : c.identity ≠ id) :
    sacScan id pbSAC (n + 1) i pb =
      sacScan id pbSAC n (i + 1) (u ++ packCredential c).length := by
  obtain ⟨hsize, hid, htotal⟩ := credential_at hpb hoff hc hfit
  have hroom : pb < pbSAC.length := by omega
  have hdword : ¬pbSAC.length < pb + 4 := by omega
  have hhash : ¬pbSAC.length < pb + 4 + hashDataSize := by omega
  have hdata : (hashDataSize + c.data.length + 2 ^ 32 - hashDataSize) % 2 ^ 32 = c.data.length := by
    omega
  have hnext : pb + 4 + hashDataSize + c.data.length = (u ++ packCredential c).length := by
    rw [List.length_append, length_packCredential hc, hoff]
    omega
  rw [sacScan, if_pos hroom, if_neg hdword, if_neg hhash, hid, if_neg hne, hsize, hdata, hnext]

theorem sacScan_none {id pbSAC u : Bytes} {i pb n : ℕ} (hpb : pbSAC = u ++ packCredentials cs)
    (hoff : pb = u.length) (hn : n = cs.length) (hs : SizedCredentials cs)
    (hfit : pbSAC.length < 2 ^ 32) (hne : ∀ c ∈ cs, c.identity ≠ id) :
    sacScan id pbSAC n i pb = .ok none := by
  induction cs generalizing i pb n u with
  | nil =>
    have hend : ¬pb ≠ pbSAC.length := by
      rw [hpb, hoff, packCredentials_nil, List.append_nil]
      exact not_not_intro rfl
    subst hn
    rw [List.length_nil, sacScan, if_neg hend]
    rfl
  | cons c cs ih =>
    have hsplit : pbSAC = u ++ packCredential c ++ packCredentials cs := by
      rw [hpb, List.append_assoc]
      rfl
    have hskip := sacScan_skip (n := cs.length) (i := i) hsplit hoff (hs c List.mem_cons_self) hfit
      (hne c List.mem_cons_self)
    rw [hn, List.length_cons, hskip]
    exact ih hsplit rfl rfl (fun d hd => hs d (List.mem_cons_of_mem c hd))
      fun d hd => hne d (List.mem_cons_of_mem c hd)

theorem sacScan_some {id pbSAC u : Bytes} {i pb n : ℕ}
    (hpb : pbSAC = u ++ packCredentials (b ++ c :: a)) (hoff : pb = u.length)
    (hn : n = (b ++ c :: a).length) (hs : SizedCredentials (b ++ c :: a))
    (hfit : pbSAC.length < 2 ^ 32) (hne : ∀ d ∈ b, d.identity ≠ id) (hid : c.identity = id) :
    sacScan id pbSAC n i pb = .ok (some ⟨i + b.length, c.data.length,
      u.length + (packCredentials b).length + 4 + hashDataSize⟩) := by
  induction b generalizing i pb n u with
  | nil =>
    have hc := hs c List.mem_cons_self
    have hsplit : pbSAC = u ++ packCredential c ++ packCredentials a := by
      rw [hpb, List.append_assoc]
      rfl
    obtain ⟨hsize, hslice, htotal⟩ := credential_at hsplit hoff hc hfit
    have hroom : pb < pbSAC.length := by omega
    have hdword : ¬pbSAC.length < pb + 4 := by omega
    have hhash : ¬pbSAC.length < pb + 4 + hashDataSize := by omega
    have hdata : (hashDataSize + c.data.length + 2 ^ 32 - hashDataSize) % 2 ^ 32 =
        c.data.length := by omega
    have hin : ¬pbSAC.length < pb + 4 + hashDataSize + c.data.length := by omega
    rw [hn, List.nil_append, List.length_cons, sacScan, if_pos hroom, if_neg hdword, if_neg hhash,
      hslice, if_pos hid, hsize, hdata, if_neg hin, hoff]
    rfl
  | cons d b ih =>
    have hsplit : pbSAC = u ++ packCredential d ++ packCredentials (b ++ c :: a) := by
      rw [hpb, List.append_assoc]
      rfl
    have hd := hs d List.mem_cons_self
    have hskip := sacScan_skip (n := (b ++ c :: a).length) (i := i) hsplit hoff hd hfit
      (hne d List.mem_cons_self)
    have hnext := @ih (u ++ packCredential d) (i + 1) (u ++ packCredential d).length
      (b ++ c :: a).length hsplit rfl rfl (fun e he => hs e (List.mem_cons_of_mem d he))
      fun e he => hne e (List.mem_cons_of_mem d he)
    rw [hn, List.cons_append, List.length_cons, hskip, hnext, packCredentials_cons]
    simp only [List.length_append, List.length_cons, Nat.add_assoc, Nat.add_comm 1]

theorem sacFindCredential_none {id : Bytes} (hs : SizedCredentials cs)
    (hfit : (packSac usn cs).length < 2 ^ 32) (hne : ∀ c ∈ cs, c.identity ≠ id) :
    sacFindCredential id (packSac usn cs) = .ok none := by
  unfold sacFindCredential
  split_ifs with hempty
  · rfl
  · rw [getDword_packSac hfit]
    exact sacScan_none rfl rfl rfl hs hfit hne

theorem sacFindCredential_some {id : Bytes} (hs : SizedCredentials (b ++ c :: a))
    (hfit : (packSac usn (b ++ c :: a)).length < 2 ^ 32) (hne : ∀ d ∈ b, d.identity ≠ id)
    (hid : c.identity = id) :
    sacFindCredential id (packSac usn (b ++ c :: a)) =
      .ok (some ⟨b.length, c.data.length, credentialOffset b + hashDataSize⟩) := by
  have hend := credentialOffset_add_le usn hs
  have hne' : ¬(packSac usn (b ++ c :: a)).length ≤ sacHeaderSize := by
    unfold credentialOffset at hend
    show ¬_ ≤ 8
    omega
  have hscan : sacScan id (packSac usn (b ++ c :: a)) (b ++ c :: a).length 0 sacHeaderSize = _ :=
    sacScan_some (u := header usn (b ++ c :: a).length) rfl rfl rfl hs hfit hne hid
  unfold sacFindCredential
  rw [if_neg hne', getDword_packSac hfit, hscan, Nat.zero_add]
  rfl

theorem sacRemoveCredential_spec (hs : SizedCredentials (b ++ c :: a))
    (hfit : (packSac usn (b ++ c :: a)).length < 2 ^ 32) :
    sacRemoveCredential fresh b.length (packSac usn (b ++ c :: a)) =
      .ok (packSac usn (b ++ a)) := by
  have hc := hs c (List.mem_append_right b List.mem_cons_self)
  have hend := credentialOffset_add_le usn hs
  have hlen := length_packCredential hc
  have hcount : (b ++ c :: a).length - 1 = (b ++ a).length := by
    simp only [List.length_append, List.length_cons]
    omega
  unfold credentialOffset at hend
  obtain ⟨stale, hstale, hmove⟩ := moveWithin_down (p := packSac usn (b ++ c :: a))
    (u := header usn (b ++ c :: a).length ++ packCredentials b) (g := packCredential c)
    (v := packCredentials a) (t := []) (d := credentialOffset b - 4)
    (s := credentialOffset b + (hashDataSize + c.data.length))
    (n := (packSac usn (b ++ c :: a)).length -
      (credentialOffset b + (hashDataSize + c.data.length)))
    (by simp only [packSac, packCredentials_append, packCredentials_cons, List.append_assoc,
      List.append_nil])
    (by rw [List.length_append, length_header, credentialOffset]; omega)
    (by rw [List.length_append, length_header, hlen, credentialOffset]; omega)
    (by rw [credentialOffset]; omega)
  unfold sacRemoveCredential
  rw [sacIndexCredential_spec hs hfit]
  show Except.ok (resize fresh _ _) = _
  rw [hmove]
  simp only [List.append_assoc]
  have hle := length_le_packCredentials (b ++ c :: a)
  rw [length_packSac] at hfit
  rw [getDword_header (by omega), copyAt_header, hcount]
  congr 1
  refine resize_shrink (v := stale ++ []) ?_ ?_
  · simp only [packSac, packCredentials_append, List.append_assoc]
  · rw [length_packSac, length_packSac, packCredentials_append, packCredentials_append,
      packCredentials_cons]
    simp only [List.length_append, hlen]
    omega

/-- A block is a packed array, or there is no block and no credential. -/
def SacBlock (usn : UInt8) (cs : List Credential) (pbSAC : Bytes) : Prop :=
  pbSAC = [] ∧ usn = 0 ∧ cs = [] ∨ pbSAC = packSac usn cs

theorem SacBlock.header {pbSAC : Bytes} (hb : SacBlock usn cs pbSAC) :
    (pbSAC = [] ∧ usn = 0 ∧ cs.length = 0 ∧ packCredentials cs = [] ∨
      pbSAC = header usn cs.length ++ packCredentials cs) ∧
      (if pbSAC.length = 0 then sacHeaderSize else pbSAC.length) =
        8 + (packCredentials cs).length ∧ (pbSAC.length = 0 → cs.length = 0) := by
  cases hb with
  | inl h =>
    obtain ⟨rfl, rfl, rfl⟩ := h
    exact ⟨Or.inl ⟨rfl, rfl, rfl, rfl⟩, rfl, fun _ => rfl⟩
  | inr h =>
    have hlen := length_packSac usn cs
    have hne : pbSAC.length ≠ 0 := by rw [h]; omega
    refine ⟨Or.inr h, ?_, fun h0 => absurd h0 hne⟩
    rw [if_neg hne, h, hlen]

theorem sacAddCredential_spec {pbSAC pbSAC' : Bytes} (hb : SacBlock usn cs pbSAC)
    (hc : c.identity.length = hashDataSize)
    (h : sacAddCredential fresh c.identity c.data pbSAC = .ok pbSAC') :
    pbSAC' = packSac usn (cs ++ [c]) := by
  obtain ⟨hblock, hpos, hfirst⟩ := hb.header
  obtain ⟨v, hv, hroom, hcopy⟩ := makeRoom_spec (f := fresh) (cs.length + 1) hblock
    (4 + (hashDataSize + c.data.length))
  obtain ⟨v₁, hv₁, hsize⟩ := copyAt_fill (o := 8 + (packCredentials cs).length)
    (s := dword (hashDataSize + c.data.length)) (n := hashDataSize + c.data.length) hcopy
    (by rw [List.length_append, length_header]) hv
  obtain ⟨v₂, hv₂, hidentity⟩ := copyAt_fill (o := 8 + (packCredentials cs).length + 4)
    (s := c.identity) (n := c.data.length) hsize
    (by simp only [List.length_append, length_header, length_dword]) (by rw [hv₁, hc])
  obtain ⟨v₃, hv₃, hdata⟩ := copyAt_fill
    (o := 8 + (packCredentials cs).length + 4 + hashDataSize) (s := c.data) (n := 0) hidentity
    (by simp only [List.length_append, length_header, length_dword, hc]) hv₂
  obtain rfl := List.eq_nil_of_length_eq_zero hv₃
  have hcount : ¬maxSecretSize < pbSAC.length + 4 + (hashDataSize + c.data.length) →
      (if pbSAC.length = 0 then 1
        else getDword (makeRoom fresh pbSAC (pbSAC.length + (4 + (hashDataSize + c.data.length))) 8)
          usnSize + 1) = cs.length + 1 := by
    intro hmax
    have hle := length_le_packCredentials cs
    unfold maxSecretSize at hmax
    split_ifs with h0
    · rw [hfirst h0]
    · rw [hroom, List.append_assoc, getDword_header]
      cases hblock with
      | inl h => rw [h.2.2.1]; decide
      | inr h =>
        have := congrArg List.length h
        rw [List.length_append, length_header] at this
        omega
  unfold sacAddCredential at h
  dsimp only at h
  by_cases hmax : maxSecretSize < pbSAC.length + 4 + (hashDataSize + c.data.length)
  · rw [if_pos hmax] at h
    cases h
  · rw [if_neg hmax] at h
    have h := Except.ok.inj h
    have hcs : cs.length + 1 = (cs ++ [c]).length := by rw [List.length_append]; rfl
    simp only [decide_eq_true_eq] at h
    rw [hpos, Nat.add_assoc pbSAC.length, show sacHeaderSize = 8 from rfl, hcount hmax, hdata] at h
    rw [← h, packSac, hcs]
    simp only [packCredential, packCredentials_append, packCredentials_cons, packCredentials_nil,
      List.append_assoc, List.append_nil]

/-- A credential is written over room that is as large as it. -/
theorem writeCredential_spec {u w x v d : Bytes} {pb : ℕ} (hw : w.length = 4)
    (hc : c.identity.length = hashDataSize) (hx : x.length = d.length) (hpb : pb = u.length + 4) :
    writeCredential d pb (u ++ w ++ (c.identity ++ x) ++ v) =
      u ++ packCredential { c with data := d } ++ v := by
  have hsize := copyAt_mid (p := u ++ w ++ (c.identity ++ x) ++ v) (v := c.identity ++ (x ++ v))
    (by simp only [List.append_assoc]) (show pb - 4 = u.length by omega)
    (show (dword (hashDataSize + d.length)).length = w.length by rw [hw, length_dword])
  have hdata := copyAt_mid
    (p := u ++ dword (hashDataSize + d.length) ++ (c.identity ++ (x ++ v)))
    (u := u ++ dword (hashDataSize + d.length) ++ c.identity) (v := v)
    (by simp only [List.append_assoc])
    (show pb + hashDataSize = _ by simp only [List.length_append, length_dword, hc]; omega) hx.symm
  rw [writeCredential, hsize, hdata, packCredential]
  simp only [List.append_assoc]

/-- When the update of a credential in place leaves the credentials behind it alone: a credential
that grows is the last one or grows by less than what is behind it, and the block of a credential
that shrinks stays where it is. -/
def Updatable (moves : Bool) (cbOld cbNew : ℕ) (a : List Credential) : Prop :=
  (cbOld < cbNew → a = [] ∨ cbNew - cbOld < (packCredentials a).length) ∧
    (cbNew < cbOld → moves = false)

theorem sacUpdateCredential_spec {moves : Bool} {d pbSAC' : Bytes}
    (hs : SizedCredentials (b ++ c :: a)) (hu : Updatable moves c.data.length d.length a)
    (h : sacUpdateCredential fresh moves d (hashDataSize + c.data.length) (credentialOffset b)
      (packSac usn (b ++ c :: a)) = .ok pbSAC') :
    pbSAC' = packSac usn (b ++ { c with data := d } :: a) := by
  have hc := hs c (List.mem_append_right b List.mem_cons_self)
  have hend := credentialOffset_add_le usn hs
  have hoff : credentialOffset b =
      (header usn (b ++ c :: a).length ++ packCredentials b).length + 4 := by
    rw [List.length_append, length_header, credentialOffset]
  have hresult : packSac usn (b ++ { c with data := d } :: a) =
      header usn (b ++ c :: a).length ++ packCredentials b ++
        packCredential { c with data := d } ++ packCredentials a := by
    simp only [packSac, packCredentials_append, packCredentials_cons, List.append_assoc,
      List.length_append, List.length_cons]
  have hwrite {x : Bytes} (hx : x.length = d.length) := writeCredential_spec
    (v := packCredentials a) (length_dword (hashDataSize + c.data.length)) hc hx hoff
  have hpack := packSac_mid usn b a c
  unfold sacUpdateCredential at h
  dsimp only at h
  have hbounds : ¬((packSac usn (b ++ c :: a)).length < sacHeaderSize ∨
      credentialOffset b < sacHeaderSize + 4 ∨
      (packSac usn (b ++ c :: a)).length < credentialOffset b + (hashDataSize + c.data.length)) := by
    rw [show sacHeaderSize = 8 from rfl, ← hend, credentialOffset]
    omega
  rw [if_neg hbounds] at h
  by_cases hgrow : hashDataSize + c.data.length < hashDataSize + d.length
  · rw [if_pos hgrow] at h
    by_cases hmax : maxSecretSize < (packSac usn (b ++ c :: a)).length +
        (hashDataSize + d.length - (hashDataSize + c.data.length))
    · rw [if_pos hmax] at h
      cases h
    · rw [if_neg hmax] at h
      have h := Except.ok.inj h
      obtain ⟨g, hg, hgained⟩ := resize_grow fresh (packSac usn (b ++ c :: a))
        (Nat.le_add_right _ (hashDataSize + d.length - (hashDataSize + c.data.length)))
      rw [hgained] at h
      have hroom : packSac usn (b ++ c :: a) ++ g =
          (header usn (b ++ c :: a).length ++ packCredentials b ++
            dword (hashDataSize + c.data.length) ++ c.identity) ++ c.data ++ packCredentials a ++ g := by
        rw [hpack]
        simp only [List.append_assoc]
      have hu₁ := hu.1 (Nat.lt_of_add_lt_add_left hgrow)
      split_ifs at h with hdest
      · obtain ⟨x, hx, hmove⟩ := moveWithin_up
          (d := credentialOffset b + (hashDataSize + d.length))
          (s := credentialOffset b + (hashDataSize + c.data.length))
          (n := (packSac usn (b ++ c :: a)).length -
            (credentialOffset b + (hashDataSize + c.data.length))) hroom
          (by rw [List.length_append, List.length_append, length_dword, hc, ← hoff, hg]; omega)
          (by rw [List.length_append, List.length_append, length_dword, hc, ← hoff]; omega)
          (by omega)
        rw [hresult, ← hwrite (x := x) (by rw [hx, hg]; omega), ← h, hmove]
        simp only [List.append_assoc]
      · have ha : a = [] := by
          cases hu₁ with
          | inl ha => exact ha
          | inr hlt => omega
        have hx : (c.data ++ g).length = d.length := by
          rw [List.length_append, hg]
          omega
        rw [hresult, ← hwrite hx, ← h, hroom, ha, packCredentials_nil]
        simp only [List.append_assoc, List.append_nil]
  · rw [if_neg hgrow] at h
    by_cases hshrink : hashDataSize + d.length < hashDataSize + c.data.length
    · rw [if_pos hshrink, hu.2 (Nat.lt_of_add_lt_add_left hshrink)] at h
      have h := Except.ok.inj h
      have hkeep : (c.data.take d.length).length = d.length := by
        rw [List.length_take]
        omega
      obtain ⟨stale, hstale, hmove⟩ := moveWithin_down (p := packSac usn (b ++ c :: a))
        (u := header usn (b ++ c :: a).length ++ packCredentials b ++
          dword (hashDataSize + c.data.length) ++ (c.identity ++ c.data.take d.length))
        (g := c.data.drop d.length) (v := packCredentials a) (t := [])
        (d := credentialOffset b + (hashDataSize + d.length))
        (s := credentialOffset b + (hashDataSize + c.data.length))
        (n := (packSac usn (b ++ c :: a)).length -
          (credentialOffset b + (hashDataSize + c.data.length)))
        (by
          rw [hpack]
          nth_rewrite 2 [← List.take_append_drop d.length c.data]
          simp only [List.append_assoc, List.append_nil])
        (by rw [List.length_append, List.length_append, length_dword, ← hoff, List.length_append, hc,
          hkeep])
        (by
          rw [List.length_append, List.length_append, length_dword, ← hoff, List.length_append, hc,
            hkeep, List.length_drop]
          omega)
        (by omega)
      rw [hmove] at h
      have hcut : resize fresh _ _ = _ := resize_shrink
        (u := header usn (b ++ c :: a).length ++ packCredentials b ++
          dword (hashDataSize + c.data.length) ++ (c.identity ++ c.data.take d.length) ++
            packCredentials a) (v := stale ++ []) rfl
        (show (packSac usn (b ++ c :: a)).length -
            (hashDataSize + c.data.length - (hashDataSize + d.length)) = _ by
          rw [List.length_append, List.length_append, List.length_append, length_dword, ← hoff,
            List.length_append, hc, hkeep]
          omega)
      rw [hcut] at h
      rw [hresult, ← hwrite hkeep, ← h]
      rfl
    · rw [if_neg hshrink, hpack] at h
      have hx : c.data.length = d.length := by omega
      have h := Except.ok.inj h
      rw [hresult, ← hwrite hx, ← h]
      simp only [List.append_assoc]

end NtAdmin.Sched
