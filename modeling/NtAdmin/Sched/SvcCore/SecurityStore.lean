import NtAdmin.Sched.SvcCore.Security
import NtAdmin.Sched.SvcCore.SaiCoalesce

/-! The entries that the security databases hold: a credential with the identities of its jobs. -/
namespace NtAdmin.Sched
open Lib

structure Entry where
  credential : Credential
  ids : List Bytes

def credentials (es : List Entry) : List Credential := es.map Entry.credential

def idSets (es : List Entry) : List (List Bytes) := es.map Entry.ids

def allIds (es : List Entry) : List Bytes := es.flatMap Entry.ids

/-- What identities that stand for the same job have in common. -/
def idKey (x : Bytes) : Bytes × UInt8 := (x.take (hashDataSize - 1), lastHashByte x &&& 0xFE)

/-- A hash of the right size that is not taken for a marked entry. -/
def IsHash (x : Bytes) : Prop := x.length = hashDataSize ∧ marked x = false

structure WellFormed (es : List Entry) : Prop where
  accountsHash : ∀ e ∈ es, IsHash e.credential.identity
  idsHash : ∀ x ∈ allIds es, IsHash x
  nonempty : ∀ e ∈ es, e.ids ≠ []
  accounts : (es.map (·.credential.identity)).Nodup
  keys : ((allIds es).map idKey).Nodup

/-- A job whose identity has the key of `id` has the credential `c`. -/
def Has (es : List Entry) (id : Bytes) (c : Credential) : Prop :=
  ∃ e ∈ es, e.credential = c ∧ ∃ x ∈ e.ids, idKey x = idKey id

variable {es b a : List Entry} {e : Entry} {id x y : Bytes} {usn : UInt8} {pbSAI pbSAC : Bytes}
  {lsa lsa' : Lsa} {w : LsaWrites} {r : Except Hresult Unit}

theorem sameIdentity_iff : sameIdentity x y = true ↔ idKey x = idKey y := by
  have hlast (p q m : UInt8) : (p ^^^ q) &&& m = 0 ↔ p &&& m = q &&& m := by
    have hdistrib : (p ^^^ q) &&& m = (p &&& m) ^^^ (q &&& m) := by
      apply UInt8.toBitVec_inj.mp
      ext i hi
      simp only [UInt8.toBitVec_and, UInt8.toBitVec_xor, BitVec.getElem_and, BitVec.getElem_xor]
      exact Bool.and_xor_distrib_right _ _ _
    rw [hdistrib, UInt8.xor_eq_zero_iff]
  rw [sameIdentity, Bool.and_eq_true, beq_iff_eq, beq_iff_eq, hlast, idKey, idKey, Prod.mk.injEq]

theorem sameIdentity_eq_false_iff : sameIdentity x y = false ↔ idKey x ≠ idKey y := by
  rw [← Bool.not_eq_true, sameIdentity_iff]

@[simp] theorem idSets_append (b a : List Entry) : idSets (b ++ a) = idSets b ++ idSets a :=
  List.map_append

@[simp] theorem credentials_append (b a : List Entry) :
    credentials (b ++ a) = credentials b ++ credentials a := List.map_append

@[simp] theorem idSets_cons (e : Entry) (a : List Entry) : idSets (e :: a) = e.ids :: idSets a := rfl

@[simp] theorem credentials_cons (e : Entry) (a : List Entry) :
    credentials (e :: a) = e.credential :: credentials a := rfl

@[simp] theorem allIds_append (b a : List Entry) : allIds (b ++ a) = allIds b ++ allIds a :=
  List.flatMap_append

@[simp] theorem allIds_cons (e : Entry) (a : List Entry) : allIds (e :: a) = e.ids ++ allIds a := rfl

theorem length_idSets (es : List Entry) : (idSets es).length = es.length := List.length_map _

theorem length_credentials (es : List Entry) : (credentials es).length = es.length :=
  List.length_map _

theorem WellFormed.sizedCredentials (h : WellFormed es) : SizedCredentials (credentials es) := by
  intro c hc
  obtain ⟨e, he, rfl⟩ := List.mem_map.mp hc
  exact (h.accountsHash e he).1

theorem WellFormed.sizedSets (h : WellFormed es) : SizedSets (idSets es) := by
  intro s hs x hx
  obtain ⟨e, he, rfl⟩ := List.mem_map.mp hs
  exact (h.idsHash x (List.mem_flatMap.mpr ⟨e, he, hx⟩)).1

/-- The identity with the key of `id` splits the entries. -/
theorem entries_split (es : List Entry) (id : Bytes) :
    (∀ s ∈ idSets es, ∀ x ∈ s, sameIdentity x id = false) ∨
      ∃ b e a pre x post, es = b ++ e :: a ∧ e.ids = pre ++ x :: post ∧ sameIdentity x id = true ∧
        (∀ s ∈ idSets b, ∀ y ∈ s, sameIdentity y id = false) ∧
        ∀ y ∈ pre, sameIdentity y id = false := by
  cases hfind : es.find? fun e => e.ids.any (sameIdentity · id) with
  | none =>
    have hnone := List.find?_eq_none.mp hfind
    refine Or.inl fun s hs x hx => ?_
    obtain ⟨e, he, rfl⟩ := List.mem_map.mp hs
    exact Bool.eq_false_iff.mpr fun h => hnone e he (List.any_eq_true.mpr ⟨x, hx, h⟩)
  | some e =>
    obtain ⟨hany, b, a, rfl, hb⟩ := List.find?_eq_some_iff_append.mp hfind
    cases hids : e.ids.find? (sameIdentity · id) with
    | none =>
      obtain ⟨x, hx, hsame⟩ := List.any_eq_true.mp hany
      exact absurd hsame (List.find?_eq_none.mp hids x hx)
    | some x =>
      obtain ⟨hsame, pre, post, hsplit, hpre⟩ := List.find?_eq_some_iff_append.mp hids
      refine Or.inr ⟨b, e, a, pre, x, post, rfl, hsplit, hsame, fun s hs y hy => ?_, fun y hy => ?_⟩
      · obtain ⟨e', he', rfl⟩ := List.mem_map.mp hs
        refine Bool.eq_false_iff.mpr fun h => ?_
        have hother := hb e' he'
        rw [List.any_eq_true.mpr ⟨y, hy, h⟩] at hother
        exact Bool.noConfusion hother
      · have hother := hpre y hy
        rw [Bool.not_eq_true', ← Bool.not_eq_true] at hother
        exact Bool.eq_false_iff.mpr hother

/-- The job of `id` has no credential. -/
theorem not_has_of_no_identity (h : ∀ s ∈ idSets es, ∀ x ∈ s, sameIdentity x id = false)
    (c : Credential) : ¬Has es id c := by
  rintro ⟨e, he, -, x, hx, hkey⟩
  exact sameIdentity_eq_false_iff.mp (h e.ids (List.mem_map_of_mem he) x hx) hkey

theorem WellFormed.has_unique (h : WellFormed es) {c d : Credential} (hc : Has es id c)
    (hd : Has es id d) : c = d := by
  obtain ⟨e, he, rfl, x, hx, hxid⟩ := hc
  obtain ⟨e', he', rfl, y, hy, hyid⟩ := hd
  obtain ⟨b, a, rfl⟩ := List.append_of_mem he
  have hkeys := h.keys
  rw [allIds_append, allIds_cons, List.map_append, List.map_append, List.nodup_append] at hkeys
  obtain ⟨-, hea, hb⟩ := hkeys
  rw [List.nodup_append] at hea
  have hkey : idKey y = idKey x := hyid.trans hxid.symm
  cases List.mem_append.mp he' with
  | inl hin =>
    have hyb : idKey y ∈ (allIds b).map idKey :=
      List.mem_map_of_mem (List.mem_flatMap.mpr ⟨e', hin, hy⟩)
    exact absurd hkey (hb _ hyb _ (List.mem_append_left _ (List.mem_map_of_mem hx)))
  | inr hin =>
    cases List.mem_cons.mp hin with
    | inl heq => rw [heq]
    | inr hin =>
      have hya : idKey y ∈ (allIds a).map idKey :=
        List.mem_map_of_mem (List.mem_flatMap.mpr ⟨e', hin, hy⟩)
      exact absurd hkey.symm (hea.2.2 _ (List.mem_map_of_mem hx) _ hya)

/-- The databases in the LSA hold the entries. -/
structure Stored (es : List Entry) (lsa : Lsa) : Prop where
  wellFormed : WellFormed es
  blocks : ∃ usn pbSAI pbSAC, readSecurityDBase lsa = .ok (pbSAI, pbSAC) ∧
    SaiBlock usn (idSets es) pbSAI ∧ SacBlock usn (credentials es) pbSAC ∧
    pbSAI.length < 2 ^ 16 ∧ pbSAC.length < 2 ^ 16

theorem stored_empty : Stored [] ⟨none, none⟩ where
  wellFormed :=
    { accountsHash := fun e he => absurd he List.not_mem_nil
      idsHash := fun x hx => absurd hx List.not_mem_nil
      nonempty := fun e he => absurd he List.not_mem_nil
      accounts := List.nodup_nil
      keys := List.nodup_nil }
  blocks := ⟨0, [], [], rfl, Or.inl ⟨rfl, rfl, rfl⟩, Or.inl ⟨rfl, rfl, rfl⟩, by decide, by decide⟩

theorem advanceUsn_header (usn : UInt8) (n : ℕ) (bs : Bytes) :
    advanceUsn (header usn n ++ bs) = header (usn + 1) n ++ bs := rfl

theorem getD_usnSize_header {n : ℕ} (bs : Bytes) :
    (header usn n ++ bs).getD usnSize 0 = UInt8.ofNat n := rfl

theorem writeLsaData_of_lt {pb : Bytes} (h : pb.length < 2 ^ 16) : writeLsaData pb = some pb := by
  rw [writeLsaData, Nat.mod_eq_of_lt h, List.take_length]

/-- Packed databases of the same number of entries are read as they were written. -/
theorem readSecurityDBase_packed (h : WellFormed es) (hsai : (packSai usn (idSets es)).length < 2 ^ 16)
    (hsac : (packSac usn (credentials es)).length < 2 ^ 16) :
    Stored es ⟨some (packSai usn (idSets es)), some (packSac usn (credentials es))⟩ := by
  refine ⟨h, ?_⟩
  have hlen := length_packSai usn (idSets es)
  have hlen' := length_packSac usn (credentials es)
  cases es with
  | nil =>
    exact ⟨0, [], [], rfl, Or.inl ⟨rfl, rfl, rfl⟩, Or.inl ⟨rfl, rfl, rfl⟩, by decide, by decide⟩
  | cons e es =>
    have hsets := length_le_packSets (idSets (e :: es))
    have hcreds := length_le_packCredentials (credentials (e :: es))
    rw [length_idSets, List.length_cons] at hsets
    rw [length_credentials, List.length_cons] at hcreds
    have hkeep : ¬((packSai usn (idSets (e :: es))).length ≠ 0 ∧
        (packSai usn (idSets (e :: es))).length ≤ saiHeaderSize) := by
      show ¬(_ ∧ _ ≤ 8)
      omega
    have hkeep' : ¬((packSac usn (credentials (e :: es))).length ≠ 0 ∧
        (packSac usn (credentials (e :: es))).length ≤ sacHeaderSize) := by
      show ¬(_ ∧ _ ≤ 8)
      omega
    have hsync : ¬((packSai usn (idSets (e :: es))).getD 0 0 ≠
        (packSac usn (credentials (e :: es))).getD 0 0 ∨
        (packSai usn (idSets (e :: es))).getD usnSize 0 ≠
          (packSac usn (credentials (e :: es))).getD usnSize 0) := by
      rw [packSai, packSac, getD_usnSize_header, getD_usnSize_header, length_idSets,
        length_credentials]
      exact fun h => h.elim (fun h => h rfl) fun h => h rfl
    refine ⟨usn, _, _, ?_, Or.inr rfl, Or.inr rfl, hsai, hsac⟩
    rw [readSecurityDBase, readBlock, readBlock, if_neg hkeep, if_neg hkeep']
    dsimp only
    rw [if_neg hsync]
    rfl

/-- A write leaves the databases alone or stores the blocks, if the LSA does not fail between the
two secrets. -/
theorem writeSecurityDBase_spec (h : WellFormed es)
    (hsai : (packSai usn (idSets es)).length < 2 ^ 16)
    (hsac : (packSac usn (credentials es)).length < 2 ^ 16) (hw : w.sai = true → w.sac = true)
    (hrun : writeSecurityDBase w (packSai usn (idSets es)) (packSac usn (credentials es)) lsa =
      (r, lsa')) : w.sai = false ∧ lsa' = lsa ∧ r = .error .fail ∨
      w.sai = true ∧ Stored es lsa' ∧ r = .ok () := by
  have hne : ¬(packSai usn (idSets es) = [] ∨ packSac usn (credentials es) = []) :=
    fun h => h.elim (fun h => nomatch h) fun h => nomatch h
  have hsync : ¬(packSai usn (idSets es)).getD usnSize 0 ≠
      (packSac usn (credentials es)).getD usnSize 0 := by
    rw [packSai, packSac, getD_usnSize_header, getD_usnSize_header, length_idSets,
      length_credentials]
    exact not_not_intro rfl
  rw [writeSecurityDBase, if_neg hne, if_neg hsync] at hrun
  cases hok : w.sai with
  | false =>
    rw [hok, if_neg Bool.false_ne_true] at hrun
    obtain ⟨rfl, rfl⟩ := Prod.mk.inj hrun
    exact Or.inl ⟨rfl, rfl, rfl⟩
  | true =>
    rw [hok, if_pos rfl, hw hok, if_pos rfl, packSai, packSac, advanceUsn_header,
      advanceUsn_header] at hrun
    obtain ⟨rfl, rfl⟩ := Prod.mk.inj hrun
    refine Or.inr ⟨rfl, ?_, rfl⟩
    have hsai' : (packSai (usn + 1) (idSets es)).length < 2 ^ 16 := by
      rwa [length_packSai] at hsai ⊢
    have hsac' : (packSac (usn + 1) (credentials es)).length < 2 ^ 16 := by
      rwa [length_packSac] at hsac ⊢
    have hread := readSecurityDBase_packed h hsai' hsac'
    rw [packSai, packSac] at hread
    rw [writeLsaData_of_lt (by rwa [packSai] at hsai), writeLsaData_of_lt (by rwa [packSac] at hsac)]
    exact hread

theorem SaiBlock.eq_packSai (hb : SaiBlock usn (idSets (b ++ e :: a)) pbSAI) :
    pbSAI = packSai usn (idSets (b ++ e :: a)) := by
  cases hb with
  | inl h =>
    have hnil := congrArg List.length h.2.2
    rw [length_idSets, List.length_append, List.length_cons, List.length_nil] at hnil
    omega
  | inr h => exact h

theorem SacBlock.eq_packSac (hb : SacBlock usn (credentials (b ++ e :: a)) pbSAC) :
    pbSAC = packSac usn (credentials (b ++ e :: a)) := by
  cases hb with
  | inl h =>
    have hnil := congrArg List.length h.2.2
    rw [length_credentials, List.length_append, List.length_cons, List.length_nil] at hnil
    omega
  | inr h => exact h

/-- What a search for the identity of a job comes to. -/
theorem saiFindIdentity_cases (h : WellFormed es) (hb : SaiBlock usn (idSets es) pbSAI)
    (hfit : pbSAI.length < 2 ^ 16) (id : Bytes) :
    (saiFindIdentity id pbSAI = .ok none ∧ ∀ s ∈ idSets es, ∀ x ∈ s, sameIdentity x id = false) ∨
      ∃ b e a pre x post, es = b ++ e :: a ∧ e.ids = pre ++ x :: post ∧ sameIdentity x id = true ∧
        saiFindIdentity id pbSAI = .ok (some (foundAt id x (idSets b) pre post)) := by
  have hsets := h.sizedSets
  rcases entries_split es id with hnone | ⟨b, e, a, pre, x, post, rfl, hids, hsame, hne, hpre⟩
  · refine Or.inl ⟨?_, hnone⟩
    cases hb with
    | inl hempty =>
      rw [hempty.1]
      rfl
    | inr hpack =>
      rw [hpack] at hfit ⊢
      exact saiFindIdentity_none hsets (by omega) hnone
  · refine Or.inr ⟨b, e, a, pre, x, post, rfl, hids, hsame, ?_⟩
    have hpack := hb.eq_packSai
    rw [idSets_append, idSets_cons, hids] at hpack hsets
    rw [hpack] at hfit ⊢
    exact saiFindIdentity_some hsets (by omega) hne hpre hsame

theorem sacIndexCredential_entry (h : WellFormed (b ++ e :: a))
    (hb : SacBlock usn (credentials (b ++ e :: a)) pbSAC) (hfit : pbSAC.length < 2 ^ 16) :
    sacIndexCredential b.length pbSAC =
      .ok (some (hashDataSize + e.credential.data.length, credentialOffset (credentials b))) := by
  have hs := h.sizedCredentials
  have hpack := hb.eq_packSac
  rw [credentials_append, credentials_cons] at hpack hs
  rw [hpack] at hfit ⊢
  rw [← length_credentials b]
  exact sacIndexCredential_spec hs (by omega)

/-- What is read of the credential of an entry. -/
theorem credential_entry (h : WellFormed (b ++ e :: a))
    (hb : SacBlock usn (credentials (b ++ e :: a)) pbSAC) :
    sliceAt pbSAC (credentialOffset (credentials b)) hashDataSize = e.credential.identity ∧
      sliceAt pbSAC (credentialOffset (credentials b) + hashDataSize) e.credential.data.length =
        e.credential.data := by
  have hid := (h.accountsHash e (List.mem_append_right b List.mem_cons_self)).1
  have hpack := hb.eq_packSac
  rw [credentials_append, credentials_cons, packSac_mid] at hpack
  have hoff : credentialOffset (credentials b) =
      (header usn (credentials b ++ e.credential :: credentials a).length ++
        packCredentials (credentials b) ++
          dword (hashDataSize + e.credential.data.length)).length := by
    rw [List.length_append, List.length_append, length_header, length_dword, credentialOffset]
  constructor
  · exact sliceAt_mid (v := e.credential.data ++ packCredentials (credentials a))
      (by rw [hpack]; simp only [List.append_assoc]) hoff hid.symm
  · refine sliceAt_mid (u := header usn (credentials b ++ e.credential :: credentials a).length ++
      packCredentials (credentials b) ++ dword (hashDataSize + e.credential.data.length) ++
        e.credential.identity) (v := packCredentials (credentials a))
      (by rw [hpack]; simp only [List.append_assoc]) ?_ rfl
    rw [List.length_append, ← hoff, hid]

/-- Looking a job up never fails, and finds the credential of the entry with its identity. -/
theorem lookupCredential_spec (h : Stored es lsa) (id : Bytes) :
    ∃ o, lookupCredential id lsa = .ok o ∧ ∀ c, o = some c ↔ Has es id c := by
  obtain ⟨usn, pbSAI, pbSAC, hread, hsai, hsac, hfit, hfit'⟩ := h.blocks
  unfold lookupCredential
  rw [hread]
  dsimp only [bind, Except.bind]
  rcases saiFindIdentity_cases h.wellFormed hsai hfit id with
    ⟨hfind, hnone⟩ | ⟨b, e, a, pre, x, post, rfl, hids, hsame, hfind⟩
  · rw [hfind]
    refine ⟨none, rfl, fun c => ⟨fun hc => ?_, fun hc => ?_⟩⟩
    · cases hc
    · exact absurd hc (not_has_of_no_identity hnone c)
  · have hindex := sacIndexCredential_entry h.wellFormed hsac hfit'
    obtain ⟨hidentity, hdata⟩ := credential_entry h.wellFormed hsac
    have hhas : Has (b ++ e :: a) id e.credential := by
      have hx : x ∈ e.ids := by
        rw [hids]
        exact List.mem_append_right pre List.mem_cons_self
      exact ⟨e, List.mem_append_right b List.mem_cons_self, rfl, x, hx, sameIdentity_iff.mp hsame⟩
    rw [hfind]
    dsimp only [foundAt]
    rw [length_idSets, hindex]
    dsimp only
    rw [hidentity, Nat.add_sub_cancel_left, hdata]
    refine ⟨some e.credential, rfl, fun c => ⟨fun hc => ?_, fun hc => ?_⟩⟩
    · rw [← Option.some.inj hc]
      exact hhas
    · rw [h.wellFormed.has_unique hhas hc]

end NtAdmin.Sched
