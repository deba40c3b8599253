import Mathlib.Data.List.Flatten
import NtAdmin.Sched.SvcCore.SecurityStore

/-! What a save and a removal do to the entries. -/
namespace NtAdmin.Sched
open Lib

/-- An entry with other identities, which goes with the last of them. -/
def withIds (b a : List Entry) (c : Credential) : List Bytes → List Entry
  | [] => b ++ a
  | x :: ids => b ++ ⟨c, x :: ids⟩ :: a

/-- One entry loses the identity `x`. -/
inductive Removed (id : Bytes) : List Entry → List Entry → Prop
  | mk {b a c pre x post} : sameIdentity x id = true →
      Removed id (b ++ ⟨c, pre ++ x :: post⟩ :: a) (withIds b a c (pre ++ post))

/-- What a save makes of the credential of the account. -/
def SaveRequest.updated (r : SaveRequest) (c : Credential) : Credential :=
  if r.nullPassword then c else { c with data := r.pbEncryptedData }

/-- What a save makes of any credential. -/
def SaveRequest.changed (r : SaveRequest) (c : Credential) : Credential :=
  if c.identity = r.rgbHashedAccountSid then r.updated c else c

def SaveRequest.credential (r : SaveRequest) : Credential :=
  ⟨r.rgbHashedAccountSid, r.pbEncryptedData⟩

def HasAccount (es : List Entry) (account : Bytes) : Prop :=
  ∃ e ∈ es, e.credential.identity = account

/-- The entries once the job is out of the set of another account. -/
inductive Cleared (r : SaveRequest) : List Entry → List Entry → Prop
  | absent {es} : (∀ s ∈ idSets es, ∀ x ∈ s, sameIdentity x r.identity = false) → Cleared r es es
  | moved {b a c pre x post} : sameIdentity x r.identity = true →
      c.identity ≠ r.rgbHashedAccountSid →
      Cleared r (b ++ ⟨c, pre ++ x :: post⟩ :: a) (withIds b a c (pre ++ post))

inductive Saved (r : SaveRequest) : List Entry → List Entry → Prop
  | insert {es b a c ids} : Cleared r es (b ++ ⟨c, ids⟩ :: a) →
      c.identity = r.rgbHashedAccountSid →
      Saved r es (b ++ ⟨r.updated c, r.identity :: ids⟩ :: a)
  | add {es es₁} : Cleared r es es₁ → ¬HasAccount es r.rgbHashedAccountSid →
      Saved r es (es₁ ++ [⟨r.credential, [r.identity]⟩])
  | keep {b a c pre x post} : sameIdentity x r.identity = true →
      c.identity = r.rgbHashedAccountSid →
      Saved r (b ++ ⟨c, pre ++ x :: post⟩ :: a) (b ++ ⟨r.updated c, pre ++ r.identity :: post⟩ :: a)

variable {es es' b a : List Entry} {c d : Credential} {ids ids' pre post : List Bytes} {x id id' : Bytes}
  {r : SaveRequest}

@[simp] theorem updated_identity (r : SaveRequest) (c : Credential) :
    (r.updated c).identity = c.identity := by
  unfold SaveRequest.updated
  split_ifs <;> rfl

theorem has_append : Has (b ++ a) id c ↔ Has b id c ∨ Has a id c := by
  constructor
  · rintro ⟨e, he, h⟩
    cases List.mem_append.mp he with
    | inl he => exact Or.inl ⟨e, he, h⟩
    | inr he => exact Or.inr ⟨e, he, h⟩
  · rintro (⟨e, he, h⟩ | ⟨e, he, h⟩)
    · exact ⟨e, List.mem_append_left a he, h⟩
    · exact ⟨e, List.mem_append_right b he, h⟩

theorem has_cons {e : Entry} : Has (e :: a) id c ↔
    (e.credential = c ∧ ∃ x ∈ e.ids, idKey x = idKey id) ∨ Has a id c := by
  constructor
  · rintro ⟨e', he, h⟩
    cases List.mem_cons.mp he with
    | inl heq => exact Or.inl (heq ▸ h)
    | inr he => exact Or.inr ⟨e', he, h⟩
  · rintro (h | ⟨e', he, h⟩)
    · exact ⟨e, List.mem_cons_self, h⟩
    · exact ⟨e', List.mem_cons_of_mem e he, h⟩

/-- The parts of well formed entries around one of them. -/
theorem WellFormed.around (h : WellFormed (b ++ ⟨c, ids⟩ :: a)) (hc : c.identity = d.identity)
    (hids : ∀ x ∈ ids', IsHash x) (hne : ids' ≠ [])
    (hkeys : ((allIds b ++ (ids' ++ allIds a)).map idKey).Nodup) :
    WellFormed (b ++ ⟨d, ids'⟩ :: a) where
  accountsHash e he := by
    cases List.mem_append.mp he with
    | inl hb => exact h.accountsHash e (List.mem_append_left _ hb)
    | inr ha =>
      cases List.mem_cons.mp ha with
      | inl heq =>
        rw [heq]
        show IsHash d.identity
        rw [← hc]
        exact h.accountsHash ⟨c, ids⟩ (List.mem_append_right b List.mem_cons_self)
      | inr ha => exact h.accountsHash e (List.mem_append_right b (List.mem_cons_of_mem _ ha))
  idsHash x hx := by
    rw [allIds_append, allIds_cons] at hx
    have hold := h.idsHash x
    rw [allIds_append, allIds_cons] at hold
    cases List.mem_append.mp hx with
    | inl hb => exact hold (List.mem_append_left _ hb)
    | inr hx =>
      cases List.mem_append.mp hx with
      | inl hx => exact hids x hx
      | inr ha => exact hold (List.mem_append_right _ (List.mem_append_right _ ha))
  nonempty e he := by
    cases List.mem_append.mp he with
    | inl hb => exact h.nonempty e (List.mem_append_left _ hb)
    | inr ha =>
      cases List.mem_cons.mp ha with
      | inl heq =>
        rw [heq]
        exact hne
      | inr ha => exact h.nonempty e (List.mem_append_right b (List.mem_cons_of_mem _ ha))
  accounts := by
    have hold := h.accounts
    rw [List.map_append, List.map_cons] at hold ⊢
    rw [← hc]
    exact hold
  keys := by
    rw [allIds_append, allIds_cons]
    exact hkeys

theorem WellFormed.sublist (h : WellFormed es) (hsub : List.Sublist es' es) : WellFormed es' where
  accountsHash e he := h.accountsHash e (hsub.subset he)
  idsHash x hx := h.idsHash x ((hsub.flatMap Entry.ids).subset hx)
  nonempty e he := h.nonempty e (hsub.subset he)
  accounts := h.accounts.sublist (hsub.map _)
  keys := h.keys.sublist ((hsub.flatMap Entry.ids).map idKey)

/-- The keys of the other identities differ from the key of one of them. -/
theorem WellFormed.other_keys (h : WellFormed (b ++ ⟨c, pre ++ x :: post⟩ :: a)) :
    (∀ y ∈ allIds b, idKey y ≠ idKey x) ∧ (∀ y ∈ pre ++ post, idKey y ≠ idKey x) ∧
      ∀ y ∈ allIds a, idKey y ≠ idKey x := by
  have hkeys := h.keys
  have hperm : ((allIds (b ++ ⟨c, pre ++ x :: post⟩ :: a)).map idKey).Perm
      (idKey x :: (allIds b ++ (pre ++ post ++ allIds a)).map idKey) := by
    rw [← List.map_cons]
    refine List.Perm.map idKey ?_
    rw [allIds_append, allIds_cons]
    simp only [List.append_assoc, List.cons_append]
    rw [← List.append_assoc, ← List.append_assoc (allIds b) pre]
    exact List.perm_middle
  have hnot := (List.nodup_cons.mp (hperm.nodup_iff.mp hkeys)).1
  have hne {y : Bytes} (hy : y ∈ allIds b ++ (pre ++ post ++ allIds a)) : idKey y ≠ idKey x :=
    fun heq => hnot (heq ▸ List.mem_map_of_mem hy)
  refine ⟨fun y hy => hne (List.mem_append_left _ hy), fun y hy => hne ?_, fun y hy => hne ?_⟩
  · exact List.mem_append_right _ (List.mem_append_left _ hy)
  · exact List.mem_append_right _ (List.mem_append_right _ hy)

theorem allIds_withIds (b a : List Entry) (c : Credential) (ids : List Bytes) :
    allIds (withIds b a c ids) = allIds b ++ (ids ++ allIds a) := by
  cases ids with
  | nil => rw [withIds, allIds_append, List.nil_append]
  | cons x ids => rw [withIds, allIds_append, allIds_cons]

theorem has_withIds (hne : ids ≠ []) : Has (withIds b a c ids) id d ↔ Has (b ++ ⟨c, ids⟩ :: a) id d := by
  obtain ⟨x, ids, rfl⟩ := List.exists_cons_of_ne_nil hne
  rfl

/-- A removal takes the identity out, and nothing else. -/
theorem Removed.spec (h : Removed id es es') (hwf : WellFormed es) :
    WellFormed es' ∧ (∀ i d, Has es' i d ↔ idKey i ≠ idKey id ∧ Has es i d) ∧
      (∀ x ∈ allIds es', idKey x ≠ idKey id ∧ x ∈ allIds es) := by
  cases h with
  | @mk b a c pre x post hsame =>
    have hkey := sameIdentity_iff.mp hsame
    obtain ⟨hb, hmid, ha⟩ := hwf.other_keys
    rw [hkey] at hb hmid ha
    have hsub : (pre ++ post).Sublist (pre ++ x :: post) :=
      List.Sublist.append_left (List.sublist_cons_self x post) pre
    have hids : ∀ y ∈ allIds (withIds b a c (pre ++ post)), idKey y ≠ idKey id ∧
        y ∈ allIds (b ++ ⟨c, pre ++ x :: post⟩ :: a) := by
      intro y hy
      rw [allIds_withIds] at hy
      rw [allIds_append, allIds_cons]
      cases List.mem_append.mp hy with
      | inl hy => exact ⟨hb y hy, List.mem_append_left _ hy⟩
      | inr hy =>
        cases List.mem_append.mp hy with
        | inl hy =>
          exact ⟨hmid y hy, List.mem_append_right _ (List.mem_append_left _ (hsub.subset hy))⟩
        | inr hy => exact ⟨ha y hy, List.mem_append_right _ (List.mem_append_right _ hy)⟩
    have hhas {i : Bytes} {d : Credential} : Has (withIds b a c (pre ++ post)) i d ↔
        idKey i ≠ idKey id ∧ Has (b ++ ⟨c, pre ++ x :: post⟩ :: a) i d := by
      constructor
      · rintro ⟨e, he, hd, y, hy, hyi⟩
        have hmem : y ∈ allIds (withIds b a c (pre ++ post)) := List.mem_flatMap.mpr ⟨e, he, hy⟩
        refine ⟨hyi ▸ (hids y hmem).1, ?_⟩
        cases hleft : pre ++ post with
        | nil =>
          rw [hleft, withIds] at he
          rw [has_append, has_cons]
          cases List.mem_append.mp he with
          | inl he => exact Or.inl ⟨e, he, hd, y, hy, hyi⟩
          | inr he => exact Or.inr (Or.inr ⟨e, he, hd, y, hy, hyi⟩)
        | cons z zs =>
          rw [hleft, withIds] at he
          rw [has_append, has_cons]
          cases List.mem_append.mp he with
          | inl he => exact Or.inl ⟨e, he, hd, y, hy, hyi⟩
          | inr he =>
            cases List.mem_cons.mp he with
            | inl heq =>
              subst heq
              rw [← hleft] at hy
              exact Or.inr (Or.inl ⟨hd, y, hsub.subset hy, hyi⟩)
            | inr he => exact Or.inr (Or.inr ⟨e, he, hd, y, hy, hyi⟩)
      · rintro ⟨hne, hold⟩
        rw [has_append, has_cons] at hold
        have hmore : (∃ y ∈ pre ++ post, idKey y = idKey i) ∧ c = d →
            Has (withIds b a c (pre ++ post)) i d := by
          rintro ⟨⟨y, hy, hyi⟩, rfl⟩
          rw [has_withIds (List.ne_nil_of_mem hy), has_append, has_cons]
          exact Or.inr (Or.inl ⟨rfl, y, hy, hyi⟩)
        have hside : Has b i d ∨ Has a i d → Has (withIds b a c (pre ++ post)) i d := by
          intro hside
          cases hleft : pre ++ post with
          | nil =>
            rw [withIds, has_append]
            exact hside
          | cons z zs =>
            rw [withIds, has_append, has_cons]
            exact hside.imp_right Or.inr
        rcases hold with hold | ⟨hd, y, hy, hyi⟩ | hold
        · exact hside (Or.inl hold)
        · refine hmore ⟨⟨y, ?_, hyi⟩, hd⟩
          cases List.mem_append.mp hy with
          | inl hy => exact List.mem_append_left post hy
          | inr hy =>
            cases List.mem_cons.mp hy with
            | inl heq => exact absurd (hyi.symm.trans (heq ▸ hkey)) hne
            | inr hy => exact List.mem_append_right pre hy
        · exact hside (Or.inr hold)
    refine ⟨?_, fun i d => hhas, hids⟩
    cases hleft : pre ++ post with
    | nil =>
      exact hwf.sublist (List.Sublist.append_left (List.sublist_cons_self _ a) b)
    | cons z zs =>
      rw [withIds]
      refine hwf.around rfl (fun y hy => hwf.idsHash y ?_) (List.cons_ne_nil z zs) ?_
      · rw [← hleft] at hy
        rw [allIds_append, allIds_cons]
        exact List.mem_append_right _ (List.mem_append_left _ (hsub.subset hy))
      · have hkeys := hwf.keys
        rw [allIds_append, allIds_cons] at hkeys
        rw [← hleft]
        exact hkeys.sublist (List.Sublist.map idKey
          (List.Sublist.append_left (List.Sublist.append_right hsub (allIds a)) (allIds b)))

/-- The entries without the job, as far as what follows depends on them. -/
theorem Cleared.spec {es₁ : List Entry} (h : Cleared r es es₁) (hwf : WellFormed es) :
    WellFormed es₁ ∧
      (∀ i d, Has es₁ i d ↔ idKey i ≠ idKey r.identity ∧ Has es i d) ∧
      (∀ x ∈ allIds es₁, idKey x ≠ idKey r.identity ∧ x ∈ allIds es) ∧
      (∀ e ∈ es, e.credential.identity = r.rgbHashedAccountSid → e ∈ es₁) ∧
      ∀ e ∈ es₁, ∃ e' ∈ es, e'.credential = e.credential := by
  cases h with
  | absent hnone =>
    refine ⟨hwf, fun i d => ⟨fun hhas => ⟨fun hkey => ?_, hhas⟩, And.right⟩, fun x hx => ⟨?_, hx⟩,
      fun e he _ => he, fun e he => ⟨e, he, rfl⟩⟩
    · obtain ⟨e, he, -, x, hx, hxi⟩ := hhas
      exact sameIdentity_eq_false_iff.mp (hnone e.ids (List.mem_map_of_mem he) x hx)
        (hxi.trans hkey)
    · obtain ⟨e, he, hxe⟩ := List.mem_flatMap.mp hx
      exact sameIdentity_eq_false_iff.mp (hnone e.ids (List.mem_map_of_mem he) x hxe)
  | @moved b a c pre x post hsame hother =>
    obtain ⟨hwf₁, hhas, hids⟩ := (show Removed r.identity (b ++ ⟨c, pre ++ x :: post⟩ :: a)
      (withIds b a c (pre ++ post)) from .mk hsame).spec hwf
    refine ⟨hwf₁, hhas, hids, fun e he hacc => ?_, fun e he => ?_⟩
    · have hside : e ∈ b ∨ e ∈ a := by
        cases List.mem_append.mp he with
        | inl he => exact Or.inl he
        | inr he =>
          cases List.mem_cons.mp he with
          | inl heq =>
            subst heq
            exact absurd hacc hother
          | inr he => exact Or.inr he
      cases pre ++ post with
      | nil => exact List.mem_append.mpr hside
      | cons z zs => exact List.mem_append.mpr (hside.imp_right (List.mem_cons_of_mem _))
    · cases hleft : pre ++ post with
      | nil =>
        rw [hleft, withIds] at he
        exact ⟨e, List.mem_append.mpr ((List.mem_append.mp he).imp_right (List.mem_cons_of_mem _)),
          rfl⟩
      | cons z zs =>
        rw [hleft, withIds] at he
        cases List.mem_append.mp he with
        | inl he => exact ⟨e, List.mem_append_left _ he, rfl⟩
        | inr he =>
          cases List.mem_cons.mp he with
          | inl heq =>
            subst heq
            exact ⟨_, List.mem_append_right b List.mem_cons_self, rfl⟩
          | inr he => exact ⟨e, List.mem_append_right b (List.mem_cons_of_mem _ he), rfl⟩

/-- The other entries belong to other accounts. -/
theorem WellFormed.other_accounts (h : WellFormed (b ++ ⟨c, ids⟩ :: a)) :
    (∀ e ∈ b, e.credential.identity ≠ c.identity) ∧ ∀ e ∈ a, e.credential.identity ≠ c.identity := by
  have hnodup := h.accounts
  rw [List.map_append, List.map_cons, List.nodup_append] at hnodup
  obtain ⟨-, hca, hb⟩ := hnodup
  refine ⟨fun e he => hb _ (List.mem_map_of_mem he) _ List.mem_cons_self, fun e he heq => ?_⟩
  exact (List.nodup_cons.mp hca).1 (heq ▸ List.mem_map_of_mem he)

/-- The credential that a save gives to its job. -/
def SaveRequest.Result (r : SaveRequest) (es : List Entry) (d : Credential) : Prop :=
  (∃ e ∈ es, e.credential.identity = r.rgbHashedAccountSid ∧ d = r.updated e.credential) ∨
    ¬HasAccount es r.rgbHashedAccountSid ∧ d = r.credential

/-- The entries around the one that a save puts its job into. -/
theorem has_saved (hwf : WellFormed (b ++ ⟨c, ids⟩ :: a)) (hacc : c.identity = r.rgbHashedAccountSid)
    (hnew : ∀ i, (∃ x ∈ ids', idKey x = idKey i) ↔
      idKey i = idKey r.identity ∨ idKey i ≠ idKey r.identity ∧ ∃ x ∈ ids, idKey x = idKey i)
    (hkeys : ∀ e, e ∈ b ∨ e ∈ a → ∀ x ∈ e.ids, idKey x ≠ idKey r.identity) (i : Bytes)
    (d : Credential) :
    Has (b ++ ⟨r.updated c, ids'⟩ :: a) i d ↔
      (idKey i = idKey r.identity ∧ d = r.updated c) ∨
      (idKey i ≠ idKey r.identity ∧ ∃ d₀, Has (b ++ ⟨c, ids⟩ :: a) i d₀ ∧ d = r.changed d₀) := by
  obtain ⟨hb, ha⟩ := hwf.other_accounts
  have hsame : r.changed c = r.updated c := if_pos hacc
  have hside {e : Entry} (he : e ∈ b ∨ e ∈ a) : r.changed e.credential = e.credential :=
    if_neg (hacc ▸ he.elim (hb e) (ha e))
  have hother {l : List Entry} (hl : ∀ e ∈ l, e ∈ b ∨ e ∈ a) :
      Has l i d ↔ idKey i ≠ idKey r.identity ∧ ∃ d₀, Has l i d₀ ∧ d = r.changed d₀ := by
    constructor
    · rintro ⟨e, he, rfl, x, hx, hxi⟩
      exact ⟨hxi ▸ hkeys e (hl e he) x hx, e.credential, ⟨e, he, rfl, x, hx, hxi⟩,
        (hside (hl e he)).symm⟩
    · rintro ⟨-, d₀, ⟨e, he, rfl, x, hx, hxi⟩, rfl⟩
      exact ⟨e, he, (hside (hl e he)).symm, x, hx, hxi⟩
  rw [has_append, has_cons, hother (fun e he => Or.inl he), hother (l := a) (fun e he => Or.inr he),
    hnew]
  constructor
  · rintro (⟨hne, d₀, hhas, rfl⟩ | ⟨rfl, hkey | ⟨hne, hx⟩⟩ | ⟨hne, d₀, hhas, rfl⟩)
    · exact Or.inr ⟨hne, d₀, has_append.mpr (Or.inl hhas), rfl⟩
    · exact Or.inl ⟨hkey, rfl⟩
    · exact Or.inr ⟨hne, c, has_append.mpr (Or.inr (has_cons.mpr (Or.inl ⟨rfl, hx⟩))), hsame.symm⟩
    · exact Or.inr ⟨hne, d₀, has_append.mpr (Or.inr (has_cons.mpr (Or.inr hhas))), rfl⟩
  · rintro (⟨hkey, rfl⟩ | ⟨hne, d₀, hhas, rfl⟩)
    · exact Or.inr (Or.inl ⟨rfl, Or.inl hkey⟩)
    · rw [has_append, has_cons] at hhas
      rcases hhas with hhas | ⟨rfl, hx⟩ | hhas
      · exact Or.inl ⟨hne, d₀, hhas, rfl⟩
      · exact Or.inr (Or.inl ⟨hsame.symm, Or.inr ⟨hne, hx⟩⟩)
      · exact Or.inr (Or.inr ⟨hne, d₀, hhas, rfl⟩)

/-- A save gives its job the credential of its account, and changes no other account. -/
structure SaveEffect (r : SaveRequest) (es es' : List Entry) : Prop where
  wellFormed : WellFormed es'
  has : ∀ i d, Has es' i d ↔ (idKey i = idKey r.identity ∧ r.Result es d) ∨
    (idKey i ≠ idKey r.identity ∧ ∃ d₀, Has es i d₀ ∧ d = r.changed d₀)
  ids : ∀ x ∈ allIds es', x = r.identity ∨ x ∈ allIds es

/-- The credential of an account that has one. -/
theorem result_of_account (hwf : WellFormed (b ++ ⟨c, ids⟩ :: a))
    (hacc : c.identity = r.rgbHashedAccountSid)
    (hmem : ∀ e ∈ es, e.credential.identity = r.rgbHashedAccountSid → e ∈ b ++ ⟨c, ids⟩ :: a)
    (hcred : ∃ e ∈ es, e.credential = c) (d : Credential) : r.Result es d ↔ d = r.updated c := by
  obtain ⟨e, he, rfl⟩ := hcred
  obtain ⟨hb, ha⟩ := hwf.other_accounts
  constructor
  · rintro (⟨e', he', hace', rfl⟩ | ⟨hno, -⟩)
    · have hin := hmem e' he' hace'
      have hsame := hace'.trans hacc.symm
      cases List.mem_append.mp hin with
      | inl hin => exact absurd hsame (hb e' hin)
      | inr hin =>
        cases List.mem_cons.mp hin with
        | inl heq => rw [heq]
        | inr hin => exact absurd hsame (ha e' hin)
    · exact absurd ⟨e, he, hacc⟩ hno
  · rintro rfl
    exact Or.inl ⟨e, he, hacc, rfl⟩

/-- The identity goes in front of the set of its account. -/
theorem insert_effect (hclear : Cleared r es (b ++ ⟨c, ids⟩ :: a)) (hwf : WellFormed es)
    (hacc : c.identity = r.rgbHashedAccountSid) (hid : IsHash r.identity) :
    SaveEffect r es (b ++ ⟨r.updated c, r.identity :: ids⟩ :: a) := by
  obtain ⟨hwf₁, hhas, hids, hmem, hcred⟩ := hclear.spec hwf
  rw [allIds_append, allIds_cons] at hids
  refine ⟨?_, fun i d => ?_, fun y hy => ?_⟩
  · refine hwf₁.around (updated_identity r c).symm (fun y hy => ?_) (List.cons_ne_nil _ _) ?_
    · cases List.mem_cons.mp hy with
      | inl heq => exact heq ▸ hid
      | inr hy =>
        refine hwf₁.idsHash y ?_
        rw [allIds_append, allIds_cons]
        exact List.mem_append_right _ (List.mem_append_left _ hy)
    · have hkeys := hwf₁.keys
      rw [allIds_append, allIds_cons] at hkeys
      have hperm : (allIds b ++ (r.identity :: ids ++ allIds a)).Perm
          (r.identity :: (allIds b ++ (ids ++ allIds a))) := List.perm_middle
      rw [(hperm.map idKey).nodup_iff, List.map_cons, List.nodup_cons]
      refine ⟨fun hin => ?_, hkeys⟩
      obtain ⟨y, hy, hkey⟩ := List.mem_map.mp hin
      exact (hids y hy).1 hkey
  · have hresult := result_of_account hwf₁ hacc hmem
      (hcred ⟨c, ids⟩ (List.mem_append_right b List.mem_cons_self)) d
    rw [has_saved hwf₁ hacc, hresult]
    · refine or_congr_right (and_congr_right fun hi => exists_congr fun d₀ => ?_)
      rw [hhas]
      exact and_congr_left fun _ => and_iff_right hi
    · intro i
      constructor
      · rintro ⟨y, hy, hyi⟩
        cases List.mem_cons.mp hy with
        | inl heq => exact Or.inl (heq ▸ hyi.symm)
        | inr hy =>
          have hin := List.mem_append_right (allIds b) (List.mem_append_left (allIds a) hy)
          exact Or.inr ⟨hyi ▸ (hids y hin).1, y, hy, hyi⟩
      · rintro (hkey | ⟨-, y, hy, hyi⟩)
        · exact ⟨r.identity, List.mem_cons_self, hkey.symm⟩
        · exact ⟨y, List.mem_cons_of_mem _ hy, hyi⟩
    · rintro e he y hy
      have hye {l : List Entry} (hl : e ∈ l) : y ∈ allIds l := List.mem_flatMap.mpr ⟨e, hl, hy⟩
      refine (hids y ?_).1
      cases he with
      | inl he => exact List.mem_append_left _ (hye he)
      | inr he => exact List.mem_append_right _ (List.mem_append_right _ (hye he))
  · rw [allIds_append, allIds_cons] at hy
    cases List.mem_append.mp hy with
    | inl hy => exact Or.inr (hids y (List.mem_append_left _ hy)).2
    | inr hy =>
      cases List.mem_cons.mp hy with
      | inl heq => exact Or.inl heq
      | inr hy => exact Or.inr (hids y (List.mem_append_right _ hy)).2

/-- A new account comes last. -/
theorem add_effect {es₁ : List Entry} (hclear : Cleared r es es₁) (hwf : WellFormed es)
    (hno : ¬HasAccount es r.rgbHashedAccountSid) (hid : IsHash r.identity)
    (hsid : IsHash r.rgbHashedAccountSid) :
    SaveEffect r es (es₁ ++ [⟨r.credential, [r.identity]⟩]) := by
  obtain ⟨hwf₁, hhas, hids, -, hcred⟩ := hclear.spec hwf
  have hother (e : Entry) (he : e ∈ es₁) : e.credential.identity ≠ r.rgbHashedAccountSid := by
    obtain ⟨e', he', heq⟩ := hcred e he
    exact fun hacc => hno ⟨e', he', by rw [heq, hacc]⟩
  have hall : allIds (es₁ ++ [⟨r.credential, [r.identity]⟩]) = allIds es₁ ++ [r.identity] := by
    rw [allIds_append, allIds_cons]
    rfl
  refine ⟨⟨fun e he => ?_, fun y hy => ?_, fun e he => ?_, ?_, ?_⟩, fun i d => ?_, fun y hy => ?_⟩
  · cases List.mem_append.mp he with
    | inl he => exact hwf₁.accountsHash e he
    | inr he =>
      rw [List.mem_singleton.mp he]
      exact hsid
  · rw [hall] at hy
    cases List.mem_append.mp hy with
    | inl hy => exact hwf₁.idsHash y hy
    | inr hy => exact List.mem_singleton.mp hy ▸ hid
  · cases List.mem_append.mp he with
    | inl he => exact hwf₁.nonempty e he
    | inr he =>
      rw [List.mem_singleton.mp he]
      exact List.cons_ne_nil _ _
  · rw [List.map_append, List.nodup_append]
    refine ⟨hwf₁.accounts, List.pairwise_singleton _ _, fun x hx y hy => ?_⟩
    obtain ⟨e, he, rfl⟩ := List.mem_map.mp hx
    rw [List.mem_singleton.mp hy]
    exact hother e he
  · rw [hall, List.map_append, List.nodup_append]
    refine ⟨hwf₁.keys, List.pairwise_singleton _ _, fun x hx y hy => ?_⟩
    obtain ⟨z, hz, rfl⟩ := List.mem_map.mp hx
    rw [List.mem_singleton.mp hy]
    exact (hids z hz).1
  · have hresult : r.Result es d ↔ d = r.credential := by
      constructor
      · rintro (⟨e, he, hacc, -⟩ | ⟨-, rfl⟩)
        · exact absurd ⟨e, he, hacc⟩ hno
        · rfl
      · rintro rfl
        exact Or.inr ⟨hno, rfl⟩
    rw [has_append, has_cons, hhas, hresult]
    constructor
    · rintro (⟨hne, hold⟩ | ⟨rfl, x, hx, hxi⟩ | ⟨e, he, -⟩)
      · have hsame : r.changed d = d := by
          obtain ⟨e, he, rfl, -⟩ := (hhas i d).mpr ⟨hne, hold⟩
          exact if_neg (hother e he)
        exact Or.inr ⟨hne, d, hold, hsame.symm⟩
      · rw [List.mem_singleton.mp hx] at hxi
        exact Or.inl ⟨hxi.symm, rfl⟩
      · exact absurd he List.not_mem_nil
    · rintro (⟨hkey, rfl⟩ | ⟨hne, d₀, hold, rfl⟩)
      · exact Or.inr (Or.inl ⟨rfl, r.identity, List.mem_singleton_self _, hkey.symm⟩)
      · have hsame : r.changed d₀ = d₀ := by
          obtain ⟨e, he, rfl, -⟩ := (hhas i d₀).mpr ⟨hne, hold⟩
          exact if_neg (hother e he)
        exact Or.inl ⟨hne, by rw [hsame]; exact hold⟩
  · rw [hall] at hy
    cases List.mem_append.mp hy with
    | inl hy => exact Or.inr (hids y hy).2
    | inr hy => exact Or.inl (List.mem_singleton.mp hy)

/-- The identity takes the place of the one that the job has with the account. -/
theorem keep_effect (hsame : sameIdentity x r.identity = true)
    (hwf : WellFormed (b ++ ⟨c, pre ++ x :: post⟩ :: a))
    (hacc : c.identity = r.rgbHashedAccountSid) (hid : IsHash r.identity) :
    SaveEffect r (b ++ ⟨c, pre ++ x :: post⟩ :: a)
      (b ++ ⟨r.updated c, pre ++ r.identity :: post⟩ :: a) := by
  have hkey := sameIdentity_iff.mp hsame
  obtain ⟨hb, hmid, ha⟩ := hwf.other_keys
  rw [hkey] at hb hmid ha
  have hids (y : Bytes) (hy : y ∈ pre ++ r.identity :: post) : y = r.identity ∨ y ∈ pre ++ post := by
    cases List.mem_append.mp hy with
    | inl hy => exact Or.inr (List.mem_append_left post hy)
    | inr hy => exact (List.mem_cons.mp hy).imp_right (List.mem_append_right pre)
  have hsub : (pre ++ post).Sublist (pre ++ x :: post) :=
    List.Sublist.append_left (List.sublist_cons_self x post) pre
  refine ⟨?_, fun i d => ?_, fun y hy => ?_⟩
  · refine hwf.around (updated_identity r c).symm (fun y hy => ?_) (by simp) ?_
    · cases hids y hy with
      | inl heq => exact heq ▸ hid
      | inr hy =>
        refine hwf.idsHash y ?_
        rw [allIds_append, allIds_cons]
        exact List.mem_append_right _ (List.mem_append_left _ (hsub.subset hy))
    · have hkeys := hwf.keys
      rw [allIds_append, allIds_cons] at hkeys
      simp only [List.map_append, List.map_cons] at hkeys ⊢
      rw [← hkey]
      exact hkeys
  · have hresult := result_of_account hwf hacc (fun e he _ => he)
      ⟨⟨c, pre ++ x :: post⟩, List.mem_append_right b List.mem_cons_self, rfl⟩ d
    rw [has_saved hwf hacc, hresult]
    · intro i
      constructor
      · rintro ⟨y, hy, hyi⟩
        cases hids y hy with
        | inl heq => exact Or.inl (heq ▸ hyi.symm)
        | inr hy => exact Or.inr ⟨hyi ▸ hmid y hy, y, hsub.subset hy, hyi⟩
      · rintro (hi | ⟨hne, y, hy, hyi⟩)
        · exact ⟨r.identity, List.mem_append_right pre List.mem_cons_self, hi.symm⟩
        · refine ⟨y, ?_, hyi⟩
          cases List.mem_append.mp hy with
          | inl hy => exact List.mem_append_left _ hy
          | inr hy =>
            cases List.mem_cons.mp hy with
            | inl heq => exact absurd (hyi.symm.trans (heq ▸ hkey)) hne
            | inr hy => exact List.mem_append_right pre (List.mem_cons_of_mem _ hy)
    · rintro e he y hy
      have hye {l : List Entry} (hl : e ∈ l) : y ∈ allIds l := List.mem_flatMap.mpr ⟨e, hl, hy⟩
      exact he.elim (fun he => hb y (hye he)) fun he => ha y (hye he)
  · rw [allIds_append, allIds_cons] at hy ⊢
    cases List.mem_append.mp hy with
    | inl hy => exact Or.inr (List.mem_append_left _ hy)
    | inr hy =>
      cases List.mem_append.mp hy with
      | inl hy =>
        refine (hids y hy).imp_right fun hy => ?_
        exact List.mem_append_right _ (List.mem_append_left _ (hsub.subset hy))
      | inr hy => exact Or.inr (List.mem_append_right _ (List.mem_append_right _ hy))

theorem Saved.effect (h : Saved r es es') (hwf : WellFormed es) (hid : IsHash r.identity)
    (hsid : IsHash r.rgbHashedAccountSid) : SaveEffect r es es' := by
  cases h with
  | insert hclear hacc => exact insert_effect hclear hwf hacc hid
  | add hclear hno => exact add_effect hclear hwf hno hid hsid
  | keep hsame hacc => exact keep_effect hsame hwf hacc hid

end NtAdmin.Sched
