import Mathlib.Logic.Function.Basic
import NtAdmin.Lib.Prog
import NtAdmin.Sched.SvcCore.SecurityEntries

/-! What saving the credentials of a job does to packed databases. -/
namespace NtAdmin.Sched
open Lib

/-- The call comes to a result with `P`, or to an error that does not reset the databases. -/
def Settles {α : Type} (P : α → Prop) : Except Hresult α → Prop
  | .ok a => P a
  | .error hr => hr ≠ .accountDbaseCorrupt ∧ ∀ err, hr ≠ .win32 err

/-- A save that updates a credential in place leaves the credentials behind it alone. -/
def UpdateFits (moves : Bool) (r : SaveRequest) (es : List Entry) : Prop :=
  r.nullPassword = false → ∀ es₁ b c ids a,
    Cleared r es es₁ ∨ es₁ = es ∧ Has es r.identity c → es₁ = b ++ ⟨c, ids⟩ :: a →
      c.identity = r.rgbHashedAccountSid →
        Updatable moves c.data.length r.pbEncryptedData.length (credentials a)

variable {fresh : ℕ → UInt8} {usn : UInt8} {es es₁ b a : List Entry} {c : Credential}
  {ids pre post : List Bytes} {x : Bytes} {r : SaveRequest} {moves : Bool} {pbSAI pbSAC : Bytes}

theorem idSets_mid (b a : List Entry) (c : Credential) (ids : List Bytes) :
    idSets (b ++ ⟨c, ids⟩ :: a) = idSets b ++ ids :: idSets a := idSets_append b _

theorem credentials_mid (b a : List Entry) (c : Credential) (ids : List Bytes) :
    credentials (b ++ ⟨c, ids⟩ :: a) = credentials b ++ c :: credentials a := credentials_append b _

theorem Settles.bind {α β : Type} {P : α → Prop} {Q : β → Prop} {m : Except Hresult α}
    {f : α → Except Hresult β} (hm : Settles P m) (hf : ∀ a, P a → Settles Q (f a)) :
    Settles Q (m >>= f) := by
  cases m with
  | error hr => exact hm
  | ok a => exact hf a hm

theorem Settles.mono {α : Type} {P Q : α → Prop} {m : Except Hresult α} (hm : Settles P m)
    (h : ∀ a, P a → Q a) : Settles Q m := by
  cases m with
  | error hr => exact hm
  | ok a => exact h a hm

theorem Settles.ite {α : Type} {P : α → Prop} {p : Prop} [Decidable p] {m m' : Except Hresult α}
    (hm : Settles P m) (hm' : Settles P m') : Settles P (if p then m else m') := by
  split_ifs
  · exact hm
  · exact hm'

theorem settles_insert (hwf : WellFormed (b ++ ⟨c, ids⟩ :: a)) (hid : IsHash r.identity)
    (hfit : (packSai usn (idSets (b ++ ⟨c, ids⟩ :: a))).length < 2 ^ 32) (d : Credential) :
    Settles (· = packSai usn (idSets (b ++ ⟨d, r.identity :: ids⟩ :: a)))
      (insertForCredential fresh r b.length (packSai usn (idSets (b ++ ⟨c, ids⟩ :: a)))) := by
  have hsets := hwf.sizedSets
  have hne := hwf.nonempty ⟨c, ids⟩ (List.mem_append_right b List.mem_cons_self)
  rw [idSets_mid] at hsets hfit ⊢
  rw [idSets_mid]
  have hindex := saiIndexIdentity_spec hsets hne hfit
  rw [length_idSets] at hindex
  have hset : SizedIds ids := hsets _ (List.mem_append_right _ List.mem_cons_self)
  unfold insertForCredential
  rw [hindex]
  dsimp only [bind, Except.bind]
  cases hins : saiInsertIdentity fresh r.identity (setOffset (idSets b))
      (packSai usn (idSets b ++ ids :: idSets a)) with
  | ok pb =>
    exact saiInsertIdentity_spec hset hid.1 hins
  | error hr =>
    have hend := length_packSai_mid (b := idSets b) (a := idSets a) usn hset
    have hpos : 0 < ids.length := List.length_pos_of_ne_nil hne
    have hbounds : ¬(setOffset (idSets b) < saiHeaderSize + 4 ∨
        (packSai usn (idSets b ++ ids :: idSets a)).length < setOffset (idSets b) + hashDataSize) := by
      show ¬(_ < 12 ∨ _)
      unfold setOffset hashDataSize at *
      omega
    unfold saiInsertIdentity at hins
    rw [if_neg hbounds] at hins
    dsimp only at hins
    split_ifs at hins with hmax
    · rw [← Except.error.inj hins]
      exact ⟨fun h => Hresult.noConfusion h, fun _ h => Hresult.noConfusion h⟩
    · cases hins

theorem settles_update (hwf : WellFormed (b ++ ⟨c, ids⟩ :: a))
    (hu : r.nullPassword = false →
      Updatable moves c.data.length r.pbEncryptedData.length (credentials a)) (ids' : List Bytes) :
    Settles (· = packSac usn (credentials (b ++ ⟨r.updated c, ids'⟩ :: a)))
      (updateForAccount fresh moves r (hashDataSize + c.data.length)
        (credentialOffset (credentials b)) (packSac usn (credentials (b ++ ⟨c, ids⟩ :: a)))) := by
  have hs := hwf.sizedCredentials
  rw [credentials_mid] at hs
  rw [credentials_mid, credentials_mid]
  unfold updateForAccount SaveRequest.updated
  cases hnull : r.nullPassword with
  | true =>
    rw [if_pos rfl, if_pos rfl]
    show packSac usn _ = _
    rfl
  | false =>
    rw [if_neg Bool.false_ne_true, if_neg Bool.false_ne_true]
    cases hup : sacUpdateCredential fresh moves r.pbEncryptedData (hashDataSize + c.data.length)
        (credentialOffset (credentials b)) (packSac usn (credentials b ++ c :: credentials a)) with
    | ok pb => exact sacUpdateCredential_spec hs (hu hnull) hup
    | error hr =>
      have hend := credentialOffset_add_le usn hs
      have hbounds : ¬((packSac usn (credentials b ++ c :: credentials a)).length < sacHeaderSize ∨
          credentialOffset (credentials b) < sacHeaderSize + 4 ∨
          (packSac usn (credentials b ++ c :: credentials a)).length <
            credentialOffset (credentials b) + (hashDataSize + c.data.length)) := by
        rw [show sacHeaderSize = 8 from rfl, ← hend, credentialOffset]
        omega
      unfold sacUpdateCredential at hup
      dsimp only at hup
      rw [if_neg hbounds] at hup
      split_ifs at hup with hgrow hmax hdest hshrink hmoves
      · rw [← Except.error.inj hup]
        exact ⟨fun h => Hresult.noConfusion h, fun _ h => Hresult.noConfusion h⟩
      all_goals cases hup

theorem settles_add (hsai : SaiBlock usn (idSets es) pbSAI)
    (hsac : SacBlock usn (credentials es) pbSAC) (hid : IsHash r.identity)
    (hsid : IsHash r.rgbHashedAccountSid) :
    Settles (· = (packSai usn (idSets (es ++ [⟨r.credential, [r.identity]⟩])),
        packSac usn (credentials (es ++ [⟨r.credential, [r.identity]⟩]))))
      (addCredentialAndIdentity fresh r pbSAI pbSAC) := by
  unfold addCredentialAndIdentity
  refine Settles.bind (P := (· = packSac usn (credentials (es ++ [⟨r.credential, [r.identity]⟩])))) ?_
    fun pbSAC' hpb => Settles.bind
      (P := (· = packSai usn (idSets (es ++ [⟨r.credential, [r.identity]⟩])))) ?_ fun pbSAI' hpb' => ?_
  · cases hadd : sacAddCredential fresh r.rgbHashedAccountSid r.pbEncryptedData pbSAC with
    | ok pb =>
      rw [credentials_append]
      exact sacAddCredential_spec (c := r.credential) hsac hsid.1 hadd
    | error hr =>
      unfold sacAddCredential at hadd
      dsimp only at hadd
      split_ifs at hadd
      · rw [← Except.error.inj hadd]
        exact ⟨fun h => Hresult.noConfusion h, fun _ h => Hresult.noConfusion h⟩
      all_goals cases hadd
  · cases hadd : saiAddIdentity fresh r.identity pbSAI with
    | ok pb =>
      rw [idSets_append]
      exact saiAddIdentity_spec hsai hid.1 hadd
    | error hr =>
      unfold saiAddIdentity at hadd
      dsimp only at hadd
      split_ifs at hadd
      · rw [← Except.error.inj hadd]
        exact ⟨fun h => Hresult.noConfusion h, fun _ h => Hresult.noConfusion h⟩
      all_goals cases hadd
  · rw [hpb, hpb']
    exact rfl

/-- The search for the credential of the account of a save. -/
theorem credentialLookup_cases (hwf : WellFormed es) (hb : SacBlock usn (credentials es) pbSAC)
    (hfit : pbSAC.length < 2 ^ 16) (r : SaveRequest) :
    (credentialLookupAndAccessCheck r pbSAC = .ok none ∧ ¬HasAccount es r.rgbHashedAccountSid) ∨
      ∃ b c ids a, es = b ++ ⟨c, ids⟩ :: a ∧ c.identity = r.rgbHashedAccountSid ∧
        (credentialLookupAndAccessCheck r pbSAC = .error .accessDenied ∨
          credentialLookupAndAccessCheck r pbSAC = .ok (some (b.length,
            hashDataSize + c.data.length, credentialOffset (credentials b)))) := by
  have hs := hwf.sizedCredentials
  cases hfind : es.find? (·.credential.identity = r.rgbHashedAccountSid) with
  | none =>
    have hnone := List.find?_eq_none.mp hfind
    have hne (c : Credential) (hc : c ∈ credentials es) : c.identity ≠ r.rgbHashedAccountSid := by
      obtain ⟨e, he, rfl⟩ := List.mem_map.mp hc
      exact fun heq => hnone e he (decide_eq_true heq)
    refine Or.inl ⟨?_, fun ⟨e, he, heq⟩ => hne _ (List.mem_map_of_mem he) heq⟩
    unfold credentialLookupAndAccessCheck
    cases hb with
    | inl hempty =>
      rw [hempty.1]
      rfl
    | inr hpack =>
      rw [hpack] at hfit ⊢
      rw [sacFindCredential_none hs (by omega) hne]
      rfl
  | some e =>
    obtain ⟨hacc, b, a, rfl, hnot⟩ := List.find?_eq_some_iff_append.mp hfind
    obtain ⟨c, ids⟩ := e
    have hacc : c.identity = r.rgbHashedAccountSid := of_decide_eq_true hacc
    have hne (d : Credential) (hd : d ∈ credentials b) : d.identity ≠ r.rgbHashedAccountSid := by
      obtain ⟨e, he, rfl⟩ := List.mem_map.mp hd
      have hother := hnot e he
      rw [Bool.not_eq_true', decide_eq_false_iff_not] at hother
      exact hother
    refine Or.inr ⟨b, c, ids, a, rfl, hacc, ?_⟩
    have hslice := (credential_entry hwf hb).1
    have hpack := hb.eq_packSac
    rw [credentials_mid] at hpack hs
    have hend := credentialOffset_add_le usn hs
    rw [hpack] at hfit hslice ⊢
    have hsize : getDword (packSac usn (credentials b ++ c :: credentials a))
        (credentialOffset (credentials b) - 4) = hashDataSize + c.data.length := by
      refine getDword_mid (packSac_mid usn _ _ c) ?_ (by omega)
      rw [List.length_append, length_header, credentialOffset, Nat.add_sub_cancel]
    unfold credentialLookupAndAccessCheck
    rw [sacFindCredential_some hs (by omega) hne hacc]
    dsimp only [bind, Except.bind]
    rw [Nat.add_sub_cancel, hslice, hsize, length_credentials]
    split_ifs with haccess
    · exact Or.inr rfl
    · exact Or.inl rfl

/-! ### A save of the credentials of a job -/

/-- An identity goes from its set, and with the last one of the set the entry goes. -/
theorem saiRemoveIdentity_entry (hwf : WellFormed (b ++ ⟨c, pre ++ x :: post⟩ :: a))
    (hfit : (packSai usn (idSets (b ++ ⟨c, pre ++ x :: post⟩ :: a))).length < 2 ^ 32)
    (hfit' : (packSac usn (credentials (b ++ ⟨c, pre ++ x :: post⟩ :: a))).length < 2 ^ 32) :
    saiRemoveIdentity fresh (identityOffset (idSets b) pre) (setOffset (idSets b))
        (packSai usn (idSets (b ++ ⟨c, pre ++ x :: post⟩ :: a))) b.length
        (packSac usn (credentials (b ++ ⟨c, pre ++ x :: post⟩ :: a))) =
      .ok (packSai usn (idSets (withIds b a c (pre ++ post))),
        packSac usn (credentials (withIds b a c (pre ++ post)))) := by
  have hsets := hwf.sizedSets
  have hcreds := hwf.sizedCredentials
  rw [idSets_mid] at hsets hfit
  rw [credentials_mid] at hcreds hfit'
  rw [idSets_mid, credentials_mid]
  have hset : SizedIds (pre ++ x :: post) := hsets _ (List.mem_append_right _ List.mem_cons_self)
  cases hleft : pre ++ post with
  | nil =>
    obtain ⟨rfl, rfl⟩ := List.append_eq_nil_iff.mp hleft
    have hx := hset x (List.mem_append_right [] List.mem_cons_self)
    have hlen : (idSets b).length = (credentials b).length :=
      (length_idSets b).trans (length_credentials b).symm
    rw [withIds, idSets_append, credentials_append, ← length_idSets b]
    exact saiRemoveIdentity_last hx hcreds hlen hfit hfit'
  | cons y left =>
    rw [withIds, idSets_mid, credentials_mid, ← hleft]
    exact saiRemoveIdentity_more hset (by rw [hleft]; exact List.cons_ne_nil y left) hfit

theorem mem_of_split {e e' : Entry} {b' a' : List Entry} (h : b ++ e :: a = b' ++ e' :: a')
    (hne : b.length ≠ b'.length) : e' ∈ b ∨ e' ∈ a := by
  rcases List.append_eq_append_iff.mp h with ⟨m, rfl, hm⟩ | ⟨m, rfl, hm⟩
  · cases m with
    | nil => exact absurd (by rw [List.append_nil]) hne
    | cons first m =>
      obtain ⟨rfl, rfl⟩ := List.cons.inj hm
      exact .inr (List.mem_append_right m List.mem_cons_self)
  · cases m with
    | nil => exact absurd (by rw [List.append_nil]) hne
    | cons first m =>
      obtain ⟨rfl, rfl⟩ := List.cons.inj hm
      exact .inl (List.mem_append_right b' List.mem_cons_self)

/-- Where another entry is once an identity has gone. -/
theorem withIds_split {e : Entry} {b' a' : List Entry}
    (h : b ++ ⟨c, pre ++ x :: post⟩ :: a = b' ++ e :: a') (hne : b.length ≠ b'.length) :
    ∃ b₁ a₁, withIds b a c ids = b₁ ++ e :: a₁ ∧
      b₁.length = if ids = [] ∧ b.length < b'.length then b'.length - 1 else b'.length := by
  rcases List.append_eq_append_iff.mp h with ⟨m, rfl, hm⟩ | ⟨m, rfl, hm⟩
  · cases m with
    | nil => exact absurd (by rw [List.append_nil]) hne
    | cons first m =>
      obtain ⟨rfl, rfl⟩ := List.cons.inj hm
      have hlt : b.length < (b ++ ⟨c, pre ++ x :: post⟩ :: m).length := by
        rw [List.length_append, List.length_cons]
        omega
      cases ids with
      | nil =>
        refine ⟨b ++ m, a', by simp only [withIds, List.append_eq, List.append_assoc], ?_⟩
        rw [if_pos ⟨rfl, hlt⟩, List.length_append, List.length_append, List.length_cons]
        omega
      | cons y ids =>
        refine ⟨b ++ ⟨c, y :: ids⟩ :: m, a',
          by simp only [withIds, List.append_eq, List.append_assoc, List.cons_append], ?_⟩
        rw [if_neg (fun hnil => List.cons_ne_nil y ids hnil.1), List.length_append,
          List.length_append, List.length_cons, List.length_cons]
  · cases m with
    | nil => exact absurd (by rw [List.append_nil]) hne
    | cons first m =>
      obtain ⟨rfl, rfl⟩ := List.cons.inj hm
      have hlt : ¬(ids = [] ∧ (b' ++ e :: m).length < b'.length) := by
        rw [List.length_append]
        omega
      rw [if_neg hlt]
      cases ids with
      | nil => exact ⟨b', m ++ a, by simp only [withIds, List.append_assoc, List.cons_append], rfl⟩
      | cons y ids =>
        exact ⟨b', m ++ ⟨c, y :: ids⟩ :: a,
          by simp only [withIds, List.append_assoc, List.cons_append], rfl⟩

/-- The SAC gets shorter only if a credential goes. -/
theorem length_packSac_withIds (usn : UInt8) (b a : List Entry) (c : Credential)
    (ids ids' : List Bytes) :
    (packSac usn (credentials (b ++ ⟨c, ids⟩ :: a))).length ≠
      (packSac usn (credentials (withIds b a c ids'))).length ↔ ids' = [] := by
  have hpos : 4 ≤ (packCredential c).length := by
    rw [packCredential, List.length_append, length_dword]
    exact Nat.le_add_right 4 _
  rw [length_packSac, length_packSac, credentials_mid]
  cases ids' with
  | nil =>
    refine iff_of_true ?_ rfl
    rw [withIds, credentials_append, packCredentials_append, packCredentials_append,
      packCredentials_cons, List.length_append, List.length_append, List.length_append]
    omega
  | cons y ids' =>
    refine iff_of_false ?_ (List.cons_ne_nil y ids')
    rw [withIds, credentials_mid]
    exact not_not_intro rfl

theorem length_packSet_flatten (ids : List Bytes) :
    (packSet ids).length = 4 + ids.flatten.length := by
  rw [packSet, List.length_append, length_dword]

theorem length_packCredential_data (c : Credential) :
    (packCredential c).length = 4 + (c.identity.length + c.data.length) := by
  rw [packCredential, List.length_append, List.length_append, length_dword]

theorem Cleared.length_le (h : Cleared r es es₁) :
    (packSets (idSets es₁)).length ≤ (packSets (idSets es)).length ∧
      (packCredentials (credentials es₁)).length ≤ (packCredentials (credentials es)).length := by
  cases h with
  | absent => exact ⟨Nat.le_refl _, Nat.le_refl _⟩
  | @moved b a c pre x post _ _ =>
    have hset : (packSet (pre ++ post)).length ≤ (packSet (pre ++ x :: post)).length := by
      rw [length_packSet_flatten, length_packSet_flatten]
      simp only [List.flatten_append, List.flatten_cons, List.length_append]
      omega
    rw [idSets_mid, credentials_mid]
    cases hleft : pre ++ post with
    | nil =>
      simp only [withIds, idSets_append, credentials_append, packSets_append, packSets_cons,
        packCredentials_append, packCredentials_cons, List.length_append]
      omega
    | cons y left =>
      rw [hleft] at hset
      simp only [withIds, idSets_mid, credentials_mid, packSets_append, packSets_cons,
        packCredentials_append, packCredentials_cons, List.length_append]
      omega

/-- A save needs no more room than a new entry does. -/
theorem Saved.length_le (h : Saved r es es₁) (hid : IsHash r.identity)
    (hsid : IsHash r.rgbHashedAccountSid) :
    (packSets (idSets es₁)).length ≤ (packSets (idSets es)).length + (4 + hashDataSize) ∧
      (packCredentials (credentials es₁)).length ≤ (packCredentials (credentials es)).length +
        (4 + hashDataSize + r.pbEncryptedData.length) := by
  have hupdated (c : Credential) : (packCredential (r.updated c)).length ≤
      (packCredential c).length + r.pbEncryptedData.length := by
    rw [length_packCredential_data, length_packCredential_data, updated_identity,
      SaveRequest.updated]
    split_ifs
    · omega
    · dsimp only
      omega
  have hlength := hid.1
  have hlength' := hsid.1
  cases h with
  | @insert _ b a c ids hclear _ =>
    have hcleared := hclear.length_le
    have hcredential := hupdated c
    rw [idSets_mid, credentials_mid] at hcleared ⊢
    simp only [packSets_append, packSets_cons, packCredentials_append, packCredentials_cons,
      List.length_append, length_packSet_flatten, List.flatten_cons] at hcleared ⊢
    omega
  | @add _ es₁ hclear _ =>
    have hcleared := hclear.length_le
    have hset : (packSets (idSets [⟨r.credential, [r.identity]⟩])).length = 4 + hashDataSize := by
      rw [idSets_cons, packSets_cons, List.length_append, length_packSet_flatten,
        List.flatten_singleton, hlength]
      rfl
    have hcredential : (packCredentials (credentials [⟨r.credential, [r.identity]⟩])).length =
        4 + hashDataSize + r.pbEncryptedData.length := by
      rw [credentials_cons, packCredentials_cons, List.length_append, length_packCredential_data,
        SaveRequest.credential, hlength', ← Nat.add_assoc]
      rfl
    rw [idSets_append, credentials_append, packSets_append, packCredentials_append,
      List.length_append, List.length_append, hset, hcredential]
    omega
  | @keep b a c pre x post _ _ =>
    have hcredential := hupdated c
    simp only [idSets_mid, credentials_mid, packSets_append, packSets_cons, packCredentials_append,
      packCredentials_cons, List.length_append, length_packSet_flatten, List.flatten_append,
      List.flatten_cons]
    omega

/-- The blocks of entries that a save makes of `es`. -/
def SavedBlocks (r : SaveRequest) (usn : UInt8) (es : List Entry) (blocks : Bytes × Bytes) : Prop :=
  ∃ es', Saved r es es' ∧ blocks = (packSai usn (idSets es'), packSac usn (credentials es'))

/-- The job comes to the identities of a credential that exists. -/
theorem settles_join (hclear : Cleared r es (b ++ ⟨c, ids⟩ :: a))
    (hwf : WellFormed (b ++ ⟨c, ids⟩ :: a)) (hacc : c.identity = r.rgbHashedAccountSid)
    (hid : IsHash r.identity) (hfit : (packSai usn (idSets (b ++ ⟨c, ids⟩ :: a))).length < 2 ^ 32)
    (hu : r.nullPassword = false →
      Updatable moves c.data.length r.pbEncryptedData.length (credentials a)) :
    Settles (SavedBlocks r usn es) (do
      let pbSAI ← insertForCredential fresh r b.length (packSai usn (idSets (b ++ ⟨c, ids⟩ :: a)))
      let pbSAC ← updateForAccount fresh moves r (hashDataSize + c.data.length)
        (credentialOffset (credentials b)) (packSac usn (credentials (b ++ ⟨c, ids⟩ :: a)))
      pure (pbSAI, pbSAC)) := by
  refine (settles_insert hwf hid hfit (r.updated c)).bind fun pbSAI hpb => ?_
  refine (settles_update hwf hu (r.identity :: ids)).bind fun pbSAC hpb' => ?_
  exact ⟨_, .insert hclear hacc, by rw [hpb, hpb']⟩

/-- It comes there from the set of another credential. -/
theorem settles_move (hclear : Cleared r es (b ++ ⟨c, ids⟩ :: a))
    (hwf : WellFormed (b ++ ⟨c, ids⟩ :: a)) (hacc : c.identity = r.rgbHashedAccountSid)
    (hid : IsHash r.identity) (hfit : (packSai usn (idSets (b ++ ⟨c, ids⟩ :: a))).length < 2 ^ 32)
    (hfit' : (packSac usn (credentials (b ++ ⟨c, ids⟩ :: a))).length < 2 ^ 16)
    (hu : r.nullPassword = false →
      Updatable moves c.data.length r.pbEncryptedData.length (credentials a)) :
    Settles (SavedBlocks r usn es) (do
      let pbSAI ← insertForCredential fresh r b.length (packSai usn (idSets (b ++ ⟨c, ids⟩ :: a)))
      if r.nullPassword then
        pure (pbSAI, packSac usn (credentials (b ++ ⟨c, ids⟩ :: a)))
      else
        match ← sacIndexCredential b.length (packSac usn (credentials (b ++ ⟨c, ids⟩ :: a))) with
        | none => throw .accountDbaseCorrupt
        | some (cbCredentialNew, pbCredentialNew) =>
          let pbSACNew ← updateForAccount fresh moves r cbCredentialNew pbCredentialNew
            (packSac usn (credentials (b ++ ⟨c, ids⟩ :: a)))
          pure (pbSAI, pbSACNew)) := by
  refine (settles_insert hwf hid hfit (r.updated c)).bind fun pbSAI hpb => ?_
  cases hnull : r.nullPassword with
  | true =>
    have hsame : r.updated c = c := by rw [SaveRequest.updated, hnull, if_pos rfl]
    refine ⟨_, .insert hclear hacc, ?_⟩
    rw [hpb, hsame, credentials_mid, credentials_mid]
  | false =>
    rw [if_neg Bool.false_ne_true, sacIndexCredential_entry hwf (Or.inr rfl) hfit']
    refine (settles_update hwf hu (r.identity :: ids)).bind fun pbSAC hpb' => ?_
    exact ⟨_, .insert hclear hacc, by rw [hpb, hpb']⟩

/-- What the part of a save between reading and writing the databases comes to. -/
theorem settles_save (hwf : WellFormed es) (hsai : SaiBlock usn (idSets es) pbSAI)
    (hsac : SacBlock usn (credentials es) pbSAC) (hfit : pbSAI.length < 2 ^ 16)
    (hfit' : pbSAC.length < 2 ^ 16) (hid : IsHash r.identity) (hsid : IsHash r.rgbHashedAccountSid)
    (hu : UpdateFits moves r es) :
    Settles (SavedBlocks r usn es) (saveCredentials fresh moves r pbSAI pbSAC) := by
  have hdenied : Settles (SavedBlocks r usn es) (.error .accessDenied) :=
    ⟨fun h => Hresult.noConfusion h, fun _ h => Hresult.noConfusion h⟩
  unfold saveCredentials
  rcases saiFindIdentity_cases hwf hsai hfit r.identity with
    ⟨hfind, hnone⟩ | ⟨b, e, a, pre, x, post, rfl, hids, hsame, hfind⟩
  · rw [hfind]
    rcases credentialLookup_cases hwf hsac hfit' r with
      ⟨hlook, hno⟩ | ⟨b, c, ids, a, rfl, hacc, hlook | hlook⟩
    · rw [hlook]
      refine (settles_add hsai hsac hid hsid).mono fun blocks hblocks => ?_
      exact ⟨_, .add (.absent hnone) hno, hblocks⟩
    · rw [hlook]
      exact hdenied
    · rw [hlook]
      obtain rfl := hsai.eq_packSai
      obtain rfl := hsac.eq_packSac
      exact settles_join (.absent hnone) hwf hacc hid (by omega)
        fun hnull => hu hnull _ b c ids a (.inl (.absent hnone)) rfl hacc
  · obtain ⟨c, set⟩ := e
    obtain rfl : set = pre ++ x :: post := hids
    obtain rfl := hsai.eq_packSai
    obtain rfl := hsac.eq_packSac
    have hindex := sacIndexCredential_entry hwf hsac hfit'
    have hremove : saiRemoveIdentity fresh (identityOffset (idSets b) pre) (setOffset (idSets b))
        (packSai usn (idSets (b ++ ⟨c, pre ++ x :: post⟩ :: a))) b.length
        (packSac usn (credentials (b ++ ⟨c, pre ++ x :: post⟩ :: a))) = _ :=
      saiRemoveIdentity_entry hwf (by omega) (by omega)
    rw [hfind]
    rcases credentialLookup_cases hwf hsac hfit' r with
      ⟨hlook, hno⟩ | ⟨b', c', ids', a', heq, hacc, hlook | hlook⟩
    · rw [hlook]
      dsimp only [bind, Except.bind, foundAt]
      rw [length_idSets, hindex]
      dsimp only
      refine Settles.ite hdenied ?_
      have hother : c.identity ≠ r.rgbHashedAccountSid := fun hacc =>
        hno ⟨_, List.mem_append_right b List.mem_cons_self, hacc⟩
      rw [hremove]
      refine (settles_add (Or.inr rfl) (Or.inr rfl) hid hsid).mono fun blocks hblocks => ?_
      exact ⟨_, .add (.moved hsame hother) hno, hblocks⟩
    · rw [hlook]
      exact hdenied
    · rw [hlook]
      dsimp only [bind, Except.bind, foundAt]
      rw [length_idSets, hindex]
      dsimp only
      refine Settles.ite hdenied ?_
      by_cases hindices : b.length = b'.length
      · obtain ⟨rfl, hcons⟩ := List.append_inj heq hindices
        obtain ⟨hentry, rfl⟩ := List.cons.inj hcons
        obtain ⟨rfl, rfl⟩ := Entry.mk.inj hentry
        have hset := hwf.sizedSets
        rw [idSets_mid] at hset
        rw [if_neg (not_not_intro hindices)]
        refine (settles_update hwf (fun hnull => hu hnull _ b c _ a (.inr ⟨rfl, ?_⟩) rfl hacc)
          (pre ++ r.identity :: post)).bind fun pbSAC hpb => ⟨_, .keep hsame hacc, ?_⟩
        · exact ⟨_, List.mem_append_right b List.mem_cons_self, rfl, x,
            List.mem_append_right pre List.mem_cons_self, sameIdentity_iff.mp hsame⟩
        · rw [hpb, idSets_mid, idSets_mid, saiUpdateIdentity_spec
            (hset _ (List.mem_append_right _ List.mem_cons_self)) hid.1]
      · -- the set and the credential that the job comes to are those of another entry
        have hother : c.identity ≠ r.rgbHashedAccountSid := by
          rw [← hacc]
          rcases mem_of_split heq hindices with hmem | hmem
          · exact (hwf.other_accounts.1 _ hmem).symm
          · exact (hwf.other_accounts.2 _ hmem).symm
        have hclear : Cleared r (b ++ ⟨c, pre ++ x :: post⟩ :: a) (withIds b a c (pre ++ post)) :=
          .moved hsame hother
        have hwf₁ := (hclear.spec hwf).1
        have hindex₁ := length_packSac_withIds usn b a c (pre ++ x :: post) (pre ++ post)
        obtain ⟨b₁, a₁, hsplit, hb₁⟩ : ∃ b₁ a₁,
            withIds b a c (pre ++ post) = b₁ ++ ⟨c', ids'⟩ :: a₁ ∧ b₁.length = _ :=
          withIds_split heq hindices
        rw [if_pos hindices, hremove]
        dsimp only
        rw [if_congr (and_congr_left fun _ => hindex₁) rfl rfl, ← hb₁]
        rw [hsplit] at hclear hwf₁ ⊢
        obtain ⟨hshorter, hshorter'⟩ := hclear.length_le
        rw [length_packSai] at hfit
        rw [length_packSac] at hfit'
        exact settles_move hclear hwf₁ hacc hid (by rw [length_packSai]; omega)
          (by rw [length_packSac]; omega) fun hnull => hu hnull _ b₁ c' ids' a₁ (.inl hclear) rfl hacc

/-! ### Which credentials the jobs have -/

/-- The accounts of the jobs, and the encrypted data of the accounts. -/
structure CredentialBook where
  jobs : Bytes × UInt8 → Option Bytes
  data : Bytes → Bytes

namespace CredentialBook

def empty : CredentialBook := ⟨fun _ => none, fun _ => []⟩

def lookup (book : CredentialBook) (id : Bytes) : Option Credential :=
  (book.jobs (idKey id)).map fun account => ⟨account, book.data account⟩

/-- Some job runs as the account. -/
def Known (book : CredentialBook) (account : Bytes) : Prop :=
  ∃ id, book.jobs (idKey id) = some account

open Classical in
/-- The job runs as the account of a save. The account keeps its data if the password is `NULL`. -/
noncomputable def saved (book : CredentialBook) (r : SaveRequest) : CredentialBook where
  jobs := Function.update book.jobs (idKey r.identity) (some r.rgbHashedAccountSid)
  data :=
    if r.nullPassword = true ∧ book.Known r.rgbHashedAccountSid then book.data
    else Function.update book.data r.rgbHashedAccountSid r.pbEncryptedData

end CredentialBook

/-- The entries have the credentials of the book. -/
def Records (es : List Entry) (book : CredentialBook) : Prop :=
  ∀ id c, Has es id c ↔ book.lookup id = some c

section Records
variable {book : CredentialBook} {account : Bytes} {d : Credential}

theorem eq_credential (hidentity : c.identity = d.identity) (hdata : c.data = d.data) : c = d := by
  obtain ⟨identity, data⟩ := c
  exact congrArg₂ Credential.mk hidentity hdata

theorem lookup_eq_some {id : Bytes} : book.lookup id = some c ↔
    book.jobs (idKey id) = some c.identity ∧ c.data = book.data c.identity := by
  obtain ⟨identity, data⟩ := c
  rw [CredentialBook.lookup, Option.map_eq_some_iff]
  constructor
  · rintro ⟨account, hjob, heq⟩
    obtain ⟨rfl, rfl⟩ := Credential.mk.inj heq
    exact ⟨hjob, rfl⟩
  · intro h
    exact ⟨identity, h.1, eq_credential rfl h.2.symm⟩

theorem Records.of_mem (h : Records es book) (hwf : WellFormed es) {e : Entry} (he : e ∈ es) :
    book.Known e.credential.identity ∧ e.credential.data = book.data e.credential.identity := by
  obtain ⟨x, ids, hids⟩ := List.exists_cons_of_ne_nil (hwf.nonempty e he)
  have hx : x ∈ e.ids := by
    rw [hids]
    exact List.mem_cons_self
  obtain ⟨hjob, hdata⟩ := lookup_eq_some.mp ((h x e.credential).mp ⟨e, he, rfl, x, hx, rfl⟩)
  exact ⟨⟨x, hjob⟩, hdata⟩

theorem Records.known_iff (h : Records es book) (hwf : WellFormed es) :
    book.Known account ↔ HasAccount es account := by
  constructor
  · intro hknown
    obtain ⟨id, hjob⟩ := hknown
    obtain ⟨e, he, hcredential, -⟩ :=
      (h id ⟨account, book.data account⟩).mpr (lookup_eq_some.mpr ⟨hjob, rfl⟩)
    exact ⟨e, he, by rw [hcredential]⟩
  · intro hhas
    obtain ⟨e, he, rfl⟩ := hhas
    exact (h.of_mem hwf he).1

theorem data_saved_of_ne (hne : account ≠ r.rgbHashedAccountSid) :
    (book.saved r).data account = book.data account := by
  rw [CredentialBook.saved]
  dsimp only
  split_ifs
  · rfl
  · exact Function.update_of_ne hne _ _

/-- What a save makes of a credential is what it makes of the data of its account. -/
theorem changed_data (hknown : book.Known c.identity) (hdata : c.data = book.data c.identity) :
    (r.changed c).data = (book.saved r).data c.identity := by
  rw [SaveRequest.changed]
  split_ifs with hacc
  · rw [SaveRequest.updated, CredentialBook.saved]
    dsimp only
    rw [hacc] at hknown
    cases hnull : r.nullPassword with
    | true => rw [if_pos rfl, if_pos ⟨rfl, hknown⟩, hdata]
    | false =>
      rw [if_neg Bool.false_ne_true, if_neg fun h => Bool.false_ne_true h.1, hacc,
        Function.update_self]
  · rw [data_saved_of_ne hacc, hdata]

theorem changed_identity (r : SaveRequest) (c : Credential) :
    (r.changed c).identity = c.identity := by
  rw [SaveRequest.changed]
  split_ifs
  · exact updated_identity r c
  · rfl

/-- What a save gives to its job is what the book has of the account then. -/
theorem Records.result_iff (h : Records es book) (hwf : WellFormed es) :
    r.Result es d ↔ d.identity = r.rgbHashedAccountSid ∧
      d.data = (book.saved r).data r.rgbHashedAccountSid := by
  have hmem {e : Entry} (he : e ∈ es) (hacc : e.credential.identity = r.rgbHashedAccountSid) :
      (r.updated e.credential).identity = r.rgbHashedAccountSid ∧
        (r.updated e.credential).data = (book.saved r).data r.rgbHashedAccountSid := by
    obtain ⟨hknown, hdata⟩ := h.of_mem hwf he
    have hchanged := changed_data (r := r) hknown hdata
    rw [SaveRequest.changed, if_pos hacc, hacc] at hchanged
    exact ⟨(updated_identity r e.credential).trans hacc, hchanged⟩
  constructor
  · intro hresult
    rcases hresult with ⟨e, he, hacc, rfl⟩ | ⟨hno, rfl⟩
    · exact hmem he hacc
    · refine ⟨rfl, ?_⟩
      rw [CredentialBook.saved]
      dsimp only
      rw [if_neg fun hknown => hno ((h.known_iff hwf).mp hknown.2), Function.update_self]
      rfl
  · intro hd
    by_cases hhas : HasAccount es r.rgbHashedAccountSid
    · obtain ⟨e, he, hacc⟩ := hhas
      obtain ⟨hidentity, hdata⟩ := hmem he hacc
      exact .inl ⟨e, he, hacc, eq_credential (hd.1.trans hidentity.symm) (hd.2.trans hdata.symm)⟩
    · refine .inr ⟨hhas, eq_credential hd.1 ?_⟩
      rw [hd.2, CredentialBook.saved]
      dsimp only
      rw [if_neg fun hknown => hhas ((h.known_iff hwf).mp hknown.2), Function.update_self]
      rfl

/-- The entries after a save have the credentials of the book after it. -/
theorem Records.saved {es' : List Entry} (h : Records es book) (hwf : WellFormed es)
    (heffect : SaveEffect r es es') : Records es' (book.saved r) := by
  intro id d
  rw [heffect.has, lookup_eq_some]
  by_cases hkey : idKey id = idKey r.identity
  · have hjob : (book.saved r).jobs (idKey id) = some r.rgbHashedAccountSid := by
      rw [hkey]
      exact Function.update_self _ _ _
    rw [hjob, h.result_iff hwf, Option.some.injEq]
    constructor
    · intro hd
      rcases hd with hd | hd
      · exact ⟨hd.2.1.symm, hd.2.1 ▸ hd.2.2⟩
      · exact absurd hkey hd.1
    · intro hd
      exact .inl ⟨hkey, hd.1.symm, hd.1 ▸ hd.2⟩
  · have hjob : (book.saved r).jobs (idKey id) = book.jobs (idKey id) :=
      Function.update_of_ne hkey _ _
    rw [hjob]
    constructor
    · intro hd
      rcases hd with hd | ⟨-, c, hc, rfl⟩
      · exact absurd hd.1 hkey
      · obtain ⟨hold, hdata⟩ := lookup_eq_some.mp ((h id c).mp hc)
        rw [changed_identity]
        exact ⟨hold, changed_data ⟨id, hold⟩ hdata⟩
    · intro hd
      obtain ⟨c, hidentity, hdata⟩ : ∃ c : Credential, c.identity = d.identity ∧
          c.data = book.data d.identity := ⟨⟨d.identity, book.data d.identity⟩, rfl, rfl⟩
      rw [← hidentity] at hd hdata
      refine .inr ⟨hkey, c, (h id c).mpr (lookup_eq_some.mpr ⟨hd.1, hdata⟩), ?_⟩
      exact eq_credential (hidentity.symm.trans (changed_identity r c).symm)
        (hd.2.trans (changed_data ⟨id, hd.1⟩ hdata).symm)

end Records

/-! ### Runs of saves -/

/-- A save, what the tasks folder has if the databases are scavenged first, which of the writes
succeed, and the error that granting the privilege fails with. -/
structure SaveCall where
  r : SaveRequest
  folder : Enumeration
  w : LsaWrites
  wScavenge : LsaWrites
  grant : Option ℕ

/-- The lengths of the databases, each with a header. -/
def blockLengths (lsa : Lsa) : ℕ × ℕ :=
  match readSecurityDBase lsa with
  | .ok (pbSAI, pbSAC) => (max pbSAI.length saiHeaderSize, max pbSAC.length sacHeaderSize)
  | .error _ => (0, 0)

section Runs
variable (fresh) (moves)

def SaveCall.run (call : SaveCall) (lsa : Lsa) : Except Hresult Unit × Lsa :=
  saveJobCredentials fresh moves call.w call.wScavenge call.grant call.folder call.r lsa

/-- A save that cannot grant the privilege fails with the databases written. -/
def databasesWritten : Except Hresult Unit → Prop
  | .ok _ => True
  | .error hr => ∃ err, hr = .win32 err

open Classical in
/-- The databases and the book after a save. The book changes if the databases are written. -/
noncomputable def saveStep (call : SaveCall) (s : Lsa × CredentialBook) : Lsa × CredentialBook :=
  let result := call.run fresh moves s.1
  (result.2, if databasesWritten result.1 then s.2.saved call.r else s.2)

theorem saveStep_fst (call : SaveCall) (s : Lsa × CredentialBook) :
    (saveStep fresh moves call s).1 = (call.run fresh moves s.1).2 := rfl

/-- No hash is taken for a marked entry, the LSA does not fail between the two secrets, there is room
for a new entry, and a credential with others behind it is not overwritten in part. -/
structure SaveCall.Fits (call : SaveCall) (lsa : Lsa) : Prop where
  identity : IsHash call.r.identity
  account : IsHash call.r.rgbHashedAccountSid
  writes : call.w.sai = true → call.w.sac = true
  sai : (blockLengths lsa).1 + (4 + hashDataSize) < 2 ^ 16
  sac : (blockLengths lsa).2 + (4 + hashDataSize + call.r.pbEncryptedData.length) < 2 ^ 16
  update : ∀ es, Stored es lsa → UpdateFits moves call.r es

variable {fresh moves} {lsa : Lsa} {call : SaveCall} {sets : List (List Bytes)}
  {cs : List Credential}

theorem SaiBlock.length_le (hb : SaiBlock usn sets pbSAI) :
    8 + (packSets sets).length ≤ max pbSAI.length saiHeaderSize := by
  rcases hb with ⟨rfl, -, rfl⟩ | rfl
  · decide
  · rw [length_packSai]
    exact Nat.le_max_left _ _

theorem SacBlock.length_le (hb : SacBlock usn cs pbSAC) :
    8 + (packCredentials cs).length ≤ max pbSAC.length sacHeaderSize := by
  rcases hb with ⟨rfl, -, rfl⟩ | rfl
  · decide
  · rw [length_packSac]
    exact Nat.le_max_left _ _

/-- A save writes what it makes of the entries, or it fails and leaves the databases as they were. -/
theorem Stored.save (h : Stored es lsa) (hfits : call.Fits moves lsa) :
    (∃ result lsa' es', call.run fresh moves lsa = (result, lsa') ∧ databasesWritten result ∧
        Saved call.r es es' ∧ Stored es' lsa') ∨
      ∃ hr, call.run fresh moves lsa = (.error hr, lsa) ∧ ¬databasesWritten (.error hr) := by
  obtain ⟨usn, pbSAI, pbSAC, hread, hsai, hsac, hfit, hfit'⟩ := h.blocks
  have hlengths : blockLengths lsa =
      (max pbSAI.length saiHeaderSize, max pbSAC.length sacHeaderSize) := by
    rw [blockLengths, hread]
  have hroom := hfits.sai
  have hroom' := hfits.sac
  rw [hlengths] at hroom hroom'
  have hnearly : ¬nearlyFull call.r pbSAI pbSAC := by
    show ¬(65536 < _ ∨ 65536 < _)
    dsimp only at hroom hroom'
    omega
  have hsave : Settles (SavedBlocks call.r usn es) (saveCredentials fresh moves call.r pbSAI pbSAC) :=
    settles_save h.wellFormed hsai hsac hfit hfit' hfits.identity hfits.account (hfits.update es h)
  rw [SaveCall.run, saveJobCredentials, hread]
  dsimp only
  rw [if_neg hnearly, storeCredentials]
  cases hrun : saveCredentials fresh moves call.r pbSAI pbSAC with
  | error hr =>
    rw [hrun] at hsave
    refine .inr ⟨hr, ?_, fun hwritten => hwritten.elim hsave.2⟩
    dsimp only
    rw [errorExit, if_neg hsave.1]
    rfl
  | ok blocks =>
    rw [hrun] at hsave
    obtain ⟨es', hsaved, rfl⟩ := hsave
    have heffect := hsaved.effect h.wellFormed hfits.identity hfits.account
    obtain ⟨hle, hle'⟩ := hsaved.length_le hfits.identity hfits.account
    have hbound := hsai.length_le
    have hbound' := hsac.length_le
    dsimp only at hroom hroom' ⊢
    cases hwrite : writeSecurityDBase call.w (packSai usn (idSets es'))
        (packSac usn (credentials es')) lsa with
    | mk result lsa' =>
      rcases writeSecurityDBase_spec heffect.wellFormed (by rw [length_packSai]; omega)
        (by rw [length_packSac]; omega) hfits.writes hwrite with ⟨-, rfl, rfl⟩ | ⟨-, hstored, rfl⟩
      · exact .inr ⟨.fail, rfl, fun hwritten => hwritten.elim fun _ h => Hresult.noConfusion h⟩
      · refine .inl ⟨_, lsa', es', rfl, ?_, hsaved, hstored⟩
        -- The privilege is granted, or its error is that of the call.
        cases call.r.localSystem with
        | true => trivial
        | false =>
          cases call.grant with
          | none => trivial
          | some err => exact ⟨err, rfl⟩

/-- Behind any saves to new databases, these are well formed and parallel, and a job that is looked
up has the account and the data of the book. -/
theorem saves_keep_credentials {calls : List SaveCall} {book : CredentialBook}
    (hcalls : Along (saveStep fresh moves) (fun call s => call.Fits moves s.1) calls
      (⟨none, none⟩, CredentialBook.empty))
    (hrun : runAll (saveStep fresh moves) calls (⟨none, none⟩, CredentialBook.empty) = (lsa, book)) :
    (∃ es, Stored es lsa) ∧ ∀ id, lookupCredential id lsa = .ok (book.lookup id) := by
  have hinvariant := runAll_invariant (I := fun s => ∃ es, Stored es s.1 ∧ Records es s.2)
    (fun call s hfits hs => ?_) ⟨[], stored_empty, ?_⟩ hcalls
  · rw [hrun] at hinvariant
    obtain ⟨es, hstored, hrecords⟩ := hinvariant
    refine ⟨⟨es, hstored⟩, fun id => ?_⟩
    obtain ⟨found, hfound, hhas⟩ := lookupCredential_spec hstored id
    rw [hfound]
    refine congrArg Except.ok (Option.ext fun c => ?_)
    rw [hhas, hrecords]
  · obtain ⟨es, hstored, hrecords⟩ := hs
    rw [saveStep]
    rcases hstored.save hfits with
      ⟨result, lsa', es', hrun, hwritten, hsaved, hstored'⟩ | ⟨hr, hrun, hnot⟩
    · have heffect := hsaved.effect hstored.wellFormed hfits.identity hfits.account
      rw [hrun]
      dsimp only
      rw [if_pos hwritten]
      exact ⟨es', hstored', hrecords.saved hstored.wellFormed heffect⟩
    · rw [hrun]
      dsimp only
      rw [if_neg hnot]
      exact ⟨es, hstored, hrecords⟩
  · intro id c
    refine iff_of_false (fun hhas => ?_) (fun hnone => ?_)
    · obtain ⟨e, he, -⟩ := hhas
      exact List.not_mem_nil he
    · cases hnone

end Runs

theorem updateFits_nil (hdata : r.pbEncryptedData = []) : UpdateFits false r es := by
  intro _ es₁ b c ids a _ _ _
  rw [hdata]
  exact ⟨fun hgrow => absurd hgrow (Nat.not_lt_zero _), fun _ => rfl⟩

def saveOf (job account : UInt8) (data : Bytes) (nullPassword : Bool) (grant : Option ℕ) :
    SaveCall where
  r := ⟨List.replicate hashDataSize job, List.replicate hashDataSize account, data, nullPassword,
    fun _ => true, false⟩
  folder := .failed
  w := ⟨true, true, true⟩
  wScavenge := ⟨true, true, true⟩
  grant := grant

/-- A job is saved for an account with a `NULL` password, another one with a password, and then the
first one for a second account, which cannot be granted the privilege. -/
def threeSaves : List SaveCall :=
  [saveOf 2 8 [1, 2, 3] true none, saveOf 4 8 [] false none, saveOf 2 10 [] false (some 5)]

theorem saves_keep_credentials_threeSaves : ∃ lsa book,
    runAll (saveStep (fun _ => 0) false) threeSaves (⟨none, none⟩, CredentialBook.empty) =
        (lsa, book) ∧
      lookupCredential (List.replicate hashDataSize 2) lsa =
        .ok (book.lookup (List.replicate hashDataSize 2)) := by
  have hsecond : blockLengths (saveStep (fun _ => 0) false (saveOf 2 8 [1, 2, 3] true none)
      (⟨none, none⟩, CredentialBook.empty)).1 = (76, 79) := by
    rw [saveStep_fst]
    decide +kernel
  have hthird : blockLengths (saveStep (fun _ => 0) false (saveOf 4 8 [] false none)
      (saveStep (fun _ => 0) false (saveOf 2 8 [1, 2, 3] true none)
        (⟨none, none⟩, CredentialBook.empty))).1 = (140, 76) := by
    rw [saveStep_fst, saveStep_fst]
    decide +kernel
  have hcalls : Along (saveStep (fun _ => 0) false) (fun call s => call.Fits false s.1) threeSaves
      (⟨none, none⟩, CredentialBook.empty) := by
    refine ⟨?_, ?_, ?_, trivial⟩
    · exact ⟨⟨by decide, by decide⟩, ⟨by decide, by decide⟩, fun _ => rfl, by decide, by decide,
        fun es _ hnull => absurd hnull (by decide)⟩
    · exact ⟨⟨by decide, by decide⟩, ⟨by decide, by decide⟩, fun _ => rfl, by rw [hsecond]; decide,
        by rw [hsecond]; decide, fun es _ => updateFits_nil rfl⟩
    · exact ⟨⟨by decide, by decide⟩, ⟨by decide, by decide⟩, fun _ => rfl, by rw [hthird]; decide,
        by rw [hthird]; decide, fun es _ => updateFits_nil rfl⟩
  cases hrun : runAll (saveStep (fun _ => 0) false) threeSaves
      (⟨none, none⟩, CredentialBook.empty) with
  | mk lsa book => exact ⟨lsa, book, rfl, (saves_keep_credentials hcalls hrun).2 _⟩

end NtAdmin.Sched
