import NtAdmin.Wmi.Btr.KeyEncoding

/-! The key codes of a page as a sequence of coded keys. -/
namespace NtAdmin.Wmi.Btr
open Lib

/-- The codes of keys one behind the other, each with its number of tokens in front. -/
def encode (seqs : List (List UInt16)) : List UInt16 :=
  seqs.flatMap fun q => UInt16.ofNat q.length :: q

/-- A coded key starts at an offset. -/
def KeyAt (seqs : List (List UInt16)) (wStartOffs : UInt16) (q : List UInt16) : Prop :=
  ∃ pre post, seqs = pre ++ q :: post ∧ wStartOffs.toNat = (encode pre).length

/-- The lookup and the key codes of a page with the coded keys `qs`, where there are `n` strings. -/
structure Coding (pwKeyLookup pwKeyCodes : List UInt16) (n : ℕ) (seqs qs : List (List UInt16)) :
    Prop where
  codes : pwKeyCodes = encode seqs
  size : ∀ q ∈ seqs, q ≠ [] ∧ q.length ≤ MAX_TOKENS_PER_KEY
  ids : ∀ q ∈ seqs, ∀ id ∈ q, id.toNat < n
  lookup : List.Forall₂ (KeyAt seqs) pwKeyLookup qs
  distinct : pwKeyLookup.Nodup

variable {pwKeyLookup pwKeyCodes : List UInt16} {n : ℕ} {seqs qs : List (List UInt16)}
  {q : List UInt16}

theorem encode_append (pre post : List (List UInt16)) :
    encode (pre ++ post) = encode pre ++ encode post := List.flatMap_append

theorem encode_cons (q : List UInt16) (seqs : List (List UInt16)) :
    encode (q :: seqs) = UInt16.ofNat q.length :: q ++ encode seqs := rfl

theorem length_encode_map (φ : UInt16 → UInt16) (seqs : List (List UInt16)) :
    (encode (seqs.map (List.map φ))).length = (encode seqs).length := by
  induction seqs with
  | nil => rfl
  | cons q seqs ih =>
    rw [List.map_cons, encode_cons, encode_cons, List.length_append, List.length_append, ih]
    simp only [List.length_cons, List.length_map]

theorem toNat_tokenCount (hq : q.length ≤ MAX_TOKENS_PER_KEY) :
    (UInt16.ofNat q.length).toNat = q.length := by
  rw [MAX_TOKENS_PER_KEY] at hq
  exact toNat_count (by omega)

/-! ### Going over the codes -/

section Loops
variable (wID : ℕ) (nAdjustment : ℤ)

theorem adjust_run (q rest : List UInt16) :
    adjustKeyCodes wID nAdjustment q.length (q ++ rest) =
      q.map (adjustCode wID nAdjustment) ++ adjustKeyCodes wID nAdjustment 0 rest := by
  induction q with
  | nil => rfl
  | cons code q ih =>
    rw [List.cons_append, List.length_cons, adjustKeyCodes, ih, List.map_cons, List.cons_append]

/-- `AdjustKeyCodes` changes the codes and leaves the numbers of tokens. -/
theorem adjust_encode (hsize : ∀ q ∈ seqs, q.length ≤ MAX_TOKENS_PER_KEY) :
    adjustKeyCodes wID nAdjustment 0 (encode seqs) =
      encode (seqs.map (List.map (adjustCode wID nAdjustment))) := by
  induction seqs with
  | nil => rfl
  | cons q seqs ih =>
    have hq := toNat_tokenCount (hsize q List.mem_cons_self)
    have hrec := ih fun q' hq' => hsize q' (List.mem_cons_of_mem q hq')
    rw [encode_cons, List.cons_append, adjustKeyCodes, hq, adjust_run, hrec, List.map_cons,
      encode_cons, List.length_map, List.cons_append]

end Loops

theorem used_run (q rest : List UInt16) :
    usedCodes q.length (q ++ rest) = q ++ usedCodes 0 rest := by
  induction q with
  | nil => rfl
  | cons code q ih => rw [List.cons_append, List.length_cons, usedCodes, ih, List.cons_append]

theorem used_encode (hsize : ∀ q ∈ seqs, q.length ≤ MAX_TOKENS_PER_KEY) :
    usedCodes 0 (encode seqs) = seqs.flatten := by
  induction seqs with
  | nil => rfl
  | cons q seqs ih =>
    have hq := toNat_tokenCount (hsize q List.mem_cons_self)
    have hrec := ih fun q' hq' => hsize q' (List.mem_cons_of_mem q hq')
    rw [encode_cons, List.cons_append, usedCodes, hq, used_run, hrec, List.flatten_cons]

/-! ### Reading, recoding, adding and removing keys -/

theorem KeyAt.mem {wStartOffs : UInt16} (h : KeyAt seqs wStartOffs q) : q ∈ seqs := by
  obtain ⟨pre, post, rfl, -⟩ := h
  exact List.mem_append_right pre List.mem_cons_self

namespace Coding
variable (h : Coding pwKeyLookup pwKeyCodes n seqs qs)
include h

theorem mem_seqs (hq : q ∈ qs) : q ∈ seqs := by
  obtain ⟨i, hi, rfl⟩ := List.mem_iff_getElem.mp hq
  have hlength := h.lookup.length_eq
  exact (h.lookup.get (by omega) hi).mem

/-- The codes of the key at an offset. -/
theorem codesAt {wStartOffs : UInt16} (hkey : KeyAt seqs wStartOffs q) :
    (List.range (pwKeyCodes.getD wStartOffs.toNat 0).toNat).map (fun i =>
      pwKeyCodes.getD (wStartOffs.toNat + 1 + i) 0) = q := by
  have hq := toNat_tokenCount (h.size q hkey.mem).2
  obtain ⟨pre, post, rfl, hstart⟩ := hkey
  have hcodes : pwKeyCodes = encode pre ++ (UInt16.ofNat q.length :: (q ++ encode post)) := by
    rw [h.codes, encode_append, encode_cons, List.cons_append]
  have hcount : pwKeyCodes.getD wStartOffs.toNat 0 = UInt16.ofNat q.length := by
    rw [hcodes, hstart, List.getD_append_right _ _ _ _ (Nat.le_refl _), Nat.sub_self]
    rfl
  rw [hcount, hq]
  refine List.ext_getElem (by rw [List.length_map, List.length_range]) fun i hi hi' => ?_
  rw [List.getElem_map, List.getElem_range, hcodes, hstart,
    List.getD_append_right _ _ _ _ (by omega)]
  have hindex : (encode pre).length + 1 + i - (encode pre).length = i + 1 := by omega
  rw [hindex, List.getD_cons_succ, List.getD_append _ _ _ _ hi', List.getD_eq_getElem _ _ hi']

end Coding

theorem KeyAt.map (φ : UInt16 → UInt16) {wStartOffs : UInt16} (h : KeyAt seqs wStartOffs q) :
    KeyAt (seqs.map (List.map φ)) wStartOffs (q.map φ) := by
  obtain ⟨pre, post, rfl, hstart⟩ := h
  exact ⟨pre.map (List.map φ), post.map (List.map φ), by simp, by rw [length_encode_map, hstart]⟩

namespace Coding

/-- The strings are numbered anew. -/
theorem recode (h : Coding pwKeyLookup pwKeyCodes n seqs qs) {φ : UInt16 → UInt16} {n' : ℕ}
    (hφ : ∀ q ∈ seqs, ∀ id ∈ q, (φ id).toNat < n') :
    Coding pwKeyLookup (encode (seqs.map (List.map φ))) n' (seqs.map (List.map φ))
      (qs.map (List.map φ)) where
  codes := rfl
  size q hq := by
    obtain ⟨p, hp, rfl⟩ := List.mem_map.mp hq
    obtain ⟨hne, hlength⟩ := h.size p hp
    exact ⟨fun heq => hne (List.map_eq_nil_iff.mp heq), by rwa [List.length_map]⟩
  ids q hq id hid := by
    obtain ⟨p, hp, rfl⟩ := List.mem_map.mp hq
    obtain ⟨id', hid', rfl⟩ := List.mem_map.mp hid
    exact hφ p hp id' hid'
  lookup := by
    rw [List.forall₂_map_right_iff]
    exact h.lookup.imp fun _ _ hkey => hkey.map φ
  distinct := h.distinct

theorem forall₂_insert {α β : Type} {R : α → β → Prop} {xs : List α} {ys : List β} {x : α} {y : β}
    (h : List.Forall₂ R xs ys) (hxy : R x y) (i : ℕ) :
    List.Forall₂ R (xs.take i ++ x :: xs.drop i) (ys.take i ++ y :: ys.drop i) :=
  List.rel_append (List.forall₂_take i h) (List.Forall₂.cons hxy (List.forall₂_drop i h))

/-- A new key comes behind the others in the key codes, and at its place in the lookup. -/
theorem insert (h : Coding pwKeyLookup pwKeyCodes n seqs qs) (i : ℕ) (hne : q ≠ [])
    (hq : q.length ≤ MAX_TOKENS_PER_KEY) (hids : ∀ id ∈ q, id.toNat < n)
    (hroom : pwKeyCodes.length < 2 ^ 16) :
    Coding (pwKeyLookup.take i ++ UInt16.ofNat pwKeyCodes.length :: pwKeyLookup.drop i)
      (pwKeyCodes ++ UInt16.ofNat q.length :: q) n (seqs ++ [q]) (qs.take i ++ q :: qs.drop i) := by
  have hstart := toNat_count hroom
  have hold {wStartOffs : UInt16} {p : List UInt16} (hkey : KeyAt seqs wStartOffs p) :
      KeyAt (seqs ++ [q]) wStartOffs p := by
    obtain ⟨pre, post, rfl, hoffs⟩ := hkey
    exact ⟨pre, post ++ [q], by rw [List.append_assoc, List.cons_append], hoffs⟩
  have hnew : KeyAt (seqs ++ [q]) (UInt16.ofNat pwKeyCodes.length) q :=
    ⟨seqs, [], rfl, by rw [hstart, h.codes]⟩
  refine ⟨?_, ?_, ?_, forall₂_insert (h.lookup.imp fun _ _ hkey => hold hkey) hnew i, ?_⟩
  · rw [encode_append, h.codes, encode_cons]
    exact congrArg _ (List.append_nil _).symm
  · intro p hp
    rcases List.mem_append.mp hp with hp | hp
    · exact h.size p hp
    · rw [List.mem_singleton.mp hp]
      exact ⟨hne, hq⟩
  · intro p hp
    rcases List.mem_append.mp hp with hp | hp
    · exact h.ids p hp
    · rw [List.mem_singleton.mp hp]
      exact hids
  · rw [List.nodup_middle, List.take_append_drop]
    refine List.nodup_cons.mpr ⟨fun hmem => ?_, h.distinct⟩
    obtain ⟨j, hj, hget⟩ := List.mem_iff_getElem.mp hmem
    have hlength := h.lookup.length_eq
    obtain ⟨pre, post, hseqs, hoffs⟩ := h.lookup.get hj (by omega)
    have hcodes := h.codes
    rw [hseqs, encode_append, encode_cons] at hcodes
    have hsize := congrArg List.length hcodes
    simp only [List.length_append, List.length_cons] at hsize
    rw [List.get_eq_getElem, hget, hstart] at hoffs
    omega

/-- Where a key starts when the one at `doomed` is taken out with its `wCount` codes. -/
def moveStart (doomed wCount wStartOffs : UInt16) : UInt16 :=
  if doomed ≤ wStartOffs then wStartOffs - wCount else wStartOffs

theorem keyAt_moveStart {pre post : List (List UInt16)} {p : List UInt16}
    {doomed wCount wStartOffs : UInt16} (hdoomed : doomed.toNat = (encode pre).length)
    (hcount : wCount.toNat = q.length + 1) (hkey : KeyAt (pre ++ q :: post) wStartOffs p)
    (hne : wStartOffs ≠ doomed) :
    KeyAt (pre ++ post) (moveStart doomed wCount wStartOffs) p ∧
      ((wStartOffs.toNat < doomed.toNat ∧ moveStart doomed wCount wStartOffs = wStartOffs) ∨
        (doomed.toNat ≤ (moveStart doomed wCount wStartOffs).toNat ∧
          wStartOffs.toNat = (moveStart doomed wCount wStartOffs).toNat + wCount.toNat)) := by
  obtain ⟨pre', post', hseqs, hstart⟩ := hkey
  have hsame (hpre : pre' = pre) : False := by
    rw [hpre, ← hdoomed] at hstart
    exact hne (UInt16.toNat_inj.mp hstart)
  rcases List.append_eq_append_iff.mp hseqs with ⟨between, hpre', hpost⟩ | ⟨between, hpre, hpost⟩
  · cases between with
    | nil => exact absurd (by rw [hpre', List.append_nil]) hsame
    | cons q' between =>
      obtain ⟨rfl, rfl⟩ := List.cons.inj hpost
      rw [hpre', encode_append, encode_cons] at hstart
      simp only [List.length_append, List.length_cons] at hstart
      have hle : doomed ≤ wStartOffs := UInt16.le_iff_toNat_le.mpr (by omega)
      have hsub : wCount ≤ wStartOffs := UInt16.le_iff_toNat_le.mpr (by omega)
      have hmove : (moveStart doomed wCount wStartOffs).toNat =
          wStartOffs.toNat - wCount.toNat := by
        rw [moveStart, if_pos hle, UInt16.toNat_sub_of_le _ _ hsub]
      refine ⟨⟨pre ++ between, post', by rw [List.append_assoc]; rfl, ?_⟩,
        Or.inr ⟨by omega, by omega⟩⟩
      rw [hmove, encode_append, List.length_append]
      omega
  · cases between with
    | nil => exact absurd (by rw [hpre, List.append_nil]) hsame
    | cons p' between =>
      obtain ⟨rfl, rfl⟩ := List.cons.inj hpost
      rw [hpre, encode_append, encode_cons] at hdoomed
      simp only [List.length_append, List.length_cons] at hdoomed
      have hlt : wStartOffs.toNat < doomed.toNat := by omega
      have hnot : ¬doomed ≤ wStartOffs := fun hle => by
        have hle' := UInt16.le_iff_toNat_le.mp hle
        omega
      have hmove : moveStart doomed wCount wStartOffs = wStartOffs := if_neg hnot
      refine ⟨⟨pre', between ++ post, ?_, by rw [hmove, hstart]⟩, Or.inl ⟨hlt, hmove⟩⟩
      rw [hpre, List.append_assoc, List.cons_append]

theorem forall₂_eraseIdx {α β : Type} {R : α → β → Prop} {xs : List α} {ys : List β}
    (h : List.Forall₂ R xs ys) (i : ℕ) : List.Forall₂ R (xs.eraseIdx i) (ys.eraseIdx i) := by
  rw [List.eraseIdx_eq_take_drop_succ, List.eraseIdx_eq_take_drop_succ]
  exact List.rel_append (List.forall₂_take i h) (List.forall₂_drop (i + 1) h)

/-- Removing a key takes its codes out and its place in the lookup. -/
theorem remove (h : Coding pwKeyLookup pwKeyCodes n seqs qs) {i : ℕ} (hi : i < pwKeyLookup.length) :
    ∃ seqs', Coding
      ((pwKeyLookup.eraseIdx i).map (moveStart (pwKeyLookup.getD i 0)
        (pwKeyCodes.getD (pwKeyLookup.getD i 0).toNat 0 + 1)))
      (pwKeyCodes.take (pwKeyLookup.getD i 0).toNat ++ pwKeyCodes.drop
        ((pwKeyLookup.getD i 0).toNat +
          (pwKeyCodes.getD (pwKeyLookup.getD i 0).toNat 0 + 1).toNat)) n seqs' (qs.eraseIdx i) := by
  have hlength := h.lookup.length_eq
  have hkey := h.lookup.get hi (by omega)
  rw [List.get_eq_getElem, List.get_eq_getElem] at hkey
  rw [List.getD_eq_getElem _ _ hi]
  have hnotMem : pwKeyLookup[i] ∉ pwKeyLookup.eraseIdx i := by
    have hnodup := h.distinct
    rw [← List.take_append_drop i pwKeyLookup, List.drop_eq_getElem_cons hi,
      List.nodup_middle] at hnodup
    rw [List.eraseIdx_eq_take_drop_succ]
    exact (List.nodup_cons.mp hnodup).1
  have hsize := (h.size _ hkey.mem).2
  obtain ⟨pre, post, hseqs, hdoomed⟩ := hkey
  generalize hq : qs[i] = q at hseqs hsize
  generalize pwKeyLookup[i] = doomed at hnotMem hdoomed
  have hcodes : pwKeyCodes = encode pre ++ (UInt16.ofNat q.length :: (q ++ encode post)) := by
    rw [h.codes, hseqs, encode_append, encode_cons, List.cons_append]
  have hget : pwKeyCodes.getD doomed.toNat 0 = UInt16.ofNat q.length := by
    rw [hcodes, hdoomed, List.getD_append_right _ _ _ _ (Nat.le_refl _), Nat.sub_self]
    rfl
  have hcount : (UInt16.ofNat q.length + 1).toNat = q.length + 1 := by
    have hone : (1 : UInt16).toNat = 1 := rfl
    rw [UInt16.toNat_add, toNat_tokenCount hsize, hone]
    rw [MAX_TOKENS_PER_KEY] at hsize
    omega
  rw [hget]
  have hothers : List.Forall₂ (fun wStartOffs p => wStartOffs ≠ doomed ∧ KeyAt seqs wStartOffs p)
      (pwKeyLookup.eraseIdx i) (qs.eraseIdx i) :=
    (List.forall₂_and_left (p := fun wStartOffs => wStartOffs ≠ doomed) _ _).mpr
      ⟨fun wStartOffs hmem heq => hnotMem (heq ▸ hmem), forall₂_eraseIdx h.lookup i⟩
  rw [hseqs] at hothers
  have hmem (p : List UInt16) (hp : p ∈ pre ++ post) : p ∈ seqs := by
    rw [hseqs]
    exact List.mem_append.mpr ((List.mem_append.mp hp).imp_right (List.mem_cons_of_mem q))
  refine ⟨pre ++ post, ?_, fun p hp => h.size p (hmem p hp), fun p hp => h.ids p (hmem p hp),
    ?_, ?_⟩
  · have hdrop : pwKeyCodes.drop ((encode pre).length + (q.length + 1)) = encode post := by
      rw [hcodes, ← List.drop_drop, List.drop_left, List.drop_succ_cons, List.drop_left]
    rw [hcount, hdoomed, hdrop, hcodes, List.take_left, encode_append]
  · rw [List.forall₂_map_left_iff]
    exact hothers.imp fun _ _ hother =>
      (keyAt_moveStart hdoomed hcount hother.2 hother.1).1
  · refine (h.distinct.sublist (List.eraseIdx_sublist _ _)).map_on fun a ha b hb heq => ?_
    obtain ⟨j, hj, rfl⟩ := List.mem_iff_getElem.mp ha
    obtain ⟨k, hk, rfl⟩ := List.mem_iff_getElem.mp hb
    have hlengths := hothers.length_eq
    obtain ⟨hnej, hkeyj⟩ := hothers.get hj (by omega)
    obtain ⟨hnek, hkeyk⟩ := hothers.get hk (by omega)
    have hmovej := (keyAt_moveStart hdoomed hcount hkeyj hnej).2
    have hmovek := (keyAt_moveStart hdoomed hcount hkeyk hnek).2
    rw [List.get_eq_getElem] at hmovej hmovek
    dsimp only at hmovej hmovek
    rw [heq] at hmovej
    rw [← UInt16.toNat_inj]
    rcases hmovej with ⟨hlow, hsame⟩ | ⟨hhigh, hsum⟩
    · rcases hmovek with ⟨hlow', hsame'⟩ | ⟨hhigh', hsum'⟩
      · exact congrArg UInt16.toNat (hsame.symm.trans hsame')
      · have hstart := congrArg UInt16.toNat hsame
        omega
    · rcases hmovek with ⟨hlow', hsame'⟩ | ⟨hhigh', hsum'⟩
      · have hstart := congrArg UInt16.toNat hsame'
        omega
      · omega

end Coding

end NtAdmin.Wmi.Btr
