import NtAdmin.Sched.SvcCore.SacSpec

/-! What the operations of the SAI do to a packed array of sets. -/
namespace NtAdmin.Sched
open Lib

def SizedIds (ids : List Bytes) : Prop := ∀ x ∈ ids, x.length = hashDataSize

def SizedSets (sets : List (List Bytes)) : Prop := ∀ s ∈ sets, SizedIds s

variable {usn : UInt8} {fresh : ℕ → UInt8} {b a sets : List (List Bytes)}
  {s pre post ids : List Bytes} {x id : Bytes}

theorem SizedIds.of_append (h : SizedIds (pre ++ post)) : SizedIds pre ∧ SizedIds post :=
  ⟨fun x hx => h x (List.mem_append_left post hx), fun x hx => h x (List.mem_append_right pre hx)⟩

theorem SizedSets.of_append (h : SizedSets (b ++ a)) : SizedSets b ∧ SizedSets a :=
  ⟨fun s hs => h s (List.mem_append_left a hs), fun s hs => h s (List.mem_append_right b hs)⟩

/-- Where the set behind `b` has its first identity. -/
def setOffset (b : List (List Bytes)) : ℕ := 8 + (packSets b).length + 4

/-- Where the identity behind `pre` is. -/
def identityOffset (b : List (List Bytes)) (pre : List Bytes) : ℕ :=
  setOffset b + hashDataSize * pre.length

theorem packSai_mid (usn : UInt8) (b a : List (List Bytes)) (s : List Bytes) :
    packSai usn (b ++ s :: a) = header usn (b ++ s :: a).length ++ packSets b ++
      dword s.length ++ (s.flatten ++ packSets a) := by
  simp only [packSai, packSets_append, packSets_cons, packSet, List.append_assoc]

theorem length_packSai_mid (usn : UInt8) (hs : SizedIds s) :
    (packSai usn (b ++ s :: a)).length =
      setOffset b + hashDataSize * s.length + (packSets a).length := by
  rw [packSai_mid]
  simp only [List.length_append, length_header, length_dword, length_flatten_of_sized hs, setOffset]
  omega

theorem set_at {pbSAI u v : Bytes} {pb : ℕ} (hpb : pbSAI = u ++ packSet s ++ v)
    (hoff : pb = u.length) (hs : SizedIds s) (hfit : pbSAI.length < 2 ^ 32) :
    getDword pbSAI pb = s.length ∧
      pbSAI.length = pb + 4 + hashDataSize * s.length + v.length := by
  have htotal : pbSAI.length = pb + 4 + hashDataSize * s.length + v.length := by
    rw [hpb, List.length_append, List.length_append, length_packSet hs, hoff]
    omega
  have hcount : s.length < 2 ^ 32 := by
    unfold hashDataSize at htotal
    omega
  have hsplit : pbSAI = u ++ dword s.length ++ (s.flatten ++ v) := by
    rw [hpb, packSet]
    simp only [List.append_assoc]
  exact ⟨getDword_mid hsplit hoff hcount, htotal⟩

theorem getDword_packSai (hfit : (packSai usn sets).length < 2 ^ 32) :
    getDword (packSai usn sets) usnSize = sets.length := by
  have hle := length_le_packSets sets
  rw [length_packSai] at hfit
  exact getDword_header (by omega)

/-- The scan of a set passes an identity of another job. -/
theorem scanSet_skip {pbSAI u v : Bytes} {pb n : ℕ} (hpb : pbSAI = u ++ x ++ v)
    (hoff : pb = u.length) (hx : x.length = hashDataSize) (hne : sameIdentity x id = false) :
    scanSet id pbSAI (n + 1) pb = scanSet id pbSAI n (u ++ x).length := by
  have htotal : pbSAI.length = pb + hashDataSize + v.length := by
    rw [hpb, List.length_append, List.length_append, hx, hoff]
  have hslice : sliceAt pbSAI pb hashDataSize = x := sliceAt_mid hpb hoff hx.symm
  have hin : pb < pbSAI.length := by
    unfold hashDataSize at htotal
    omega
  have hroom : ¬pbSAI.length < pb + hashDataSize := by omega
  have hnext : pb + hashDataSize = (u ++ x).length := by rw [List.length_append, hx, hoff]
  have hother : ¬sameIdentity x id = true := by
    rw [hne]
    exact Bool.false_ne_true
  rw [scanSet, if_pos hin, if_neg hroom, hslice, if_neg hother, hnext]

theorem scanSet_append {pbSAI u v : Bytes} {pb n : ℕ} (hpb : pbSAI = u ++ ids.flatten ++ v)
    (hoff : pb = u.length) (hs : SizedIds ids) (hne : ∀ x ∈ ids, sameIdentity x id = false) :
    scanSet id pbSAI (ids.length + n) pb =
      scanSet id pbSAI n (u.length + hashDataSize * ids.length) := by
  induction ids generalizing u pb with
  | nil => rw [List.length_nil, Nat.zero_add, Nat.mul_zero, Nat.add_zero, hoff]
  | cons x ids ih =>
    have hx := hs x List.mem_cons_self
    have hsplit : pbSAI = u ++ x ++ (ids.flatten ++ v) := by
      rw [hpb, List.flatten_cons]
      simp only [List.append_assoc]
    have hskip := scanSet_skip (n := ids.length + n) hsplit hoff hx (hne x List.mem_cons_self)
    have hnext := ih (u := u ++ x) (by rw [hsplit]; simp only [List.append_assoc]) rfl
      (fun y hy => hs y (List.mem_cons_of_mem x hy)) fun y hy => hne y (List.mem_cons_of_mem x hy)
    rw [List.length_cons, Nat.succ_add, hskip, hnext, List.length_append, hx, Nat.mul_succ]
    congr 1
    omega

theorem scanSet_found {pbSAI u v : Bytes} {pb n : ℕ} (hpb : pbSAI = u ++ x ++ v)
    (hoff : pb = u.length) (hx : x.length = hashDataSize) (hsame : sameIdentity x id = true) :
    scanSet id pbSAI (n + 1) pb = .ok (some pb, n + 1, pb) := by
  have htotal : pbSAI.length = pb + hashDataSize + v.length := by
    rw [hpb, List.length_append, List.length_append, hx, hoff]
  have hslice : sliceAt pbSAI pb hashDataSize = x := sliceAt_mid hpb hoff hx.symm
  have hin : pb < pbSAI.length := by
    unfold hashDataSize at htotal
    omega
  have hroom : ¬pbSAI.length < pb + hashDataSize := by omega
  rw [scanSet, if_pos hin, if_neg hroom, hslice, if_pos hsame]
  rfl

/-- The scan passes a set without the identity. -/
theorem scanSets_skip {pbSAI u v : Bytes} {i pb n : ℕ} (hpb : pbSAI = u ++ packSet s ++ v)
    (hoff : pb = u.length) (hs : SizedIds s) (hfit : pbSAI.length < 2 ^ 32)
    (hne : ∀ x ∈ s, sameIdentity x id = false) :
    scanSets id pbSAI (n + 1) i pb = scanSets id pbSAI n (i + 1) (u ++ packSet s).length := by
  obtain ⟨hcount, htotal⟩ := set_at hpb hoff hs hfit
  have hin : pb < pbSAI.length := by omega
  have hroom : ¬pbSAI.length < pb + 4 := by omega
  have hsplit : pbSAI = (u ++ dword s.length) ++ s.flatten ++ v := by
    rw [hpb, packSet]
    simp only [List.append_assoc]
  have hstart : pb + 4 = (u ++ dword s.length).length := by
    rw [List.length_append, length_dword, hoff]
  have hscan := scanSet_append (n := 0) hsplit hstart hs hne
  have hdone : ¬(0 ≠ 0 ∨ pbSAI.length < (u ++ dword s.length).length + hashDataSize * s.length) := by
    rw [← hstart]
    omega
  have hnext : (u ++ dword s.length).length + hashDataSize * s.length = (u ++ packSet s).length := by
    rw [List.length_append, List.length_append, length_packSet hs, length_dword]
    omega
  rw [scanSets, if_pos hin, if_neg hroom]
  dsimp only
  rw [hcount, show s.length = s.length + 0 from rfl, hscan]
  dsimp only [scanSet, bind, Except.bind, pure, Except.pure]
  rw [if_neg hdone, hnext]

theorem scanSets_none {pbSAI u : Bytes} {i pb n : ℕ} (hpb : pbSAI = u ++ packSets sets)
    (hoff : pb = u.length) (hn : n = sets.length) (hs : SizedSets sets)
    (hfit : pbSAI.length < 2 ^ 32) (hne : ∀ s ∈ sets, ∀ x ∈ s, sameIdentity x id = false) :
    scanSets id pbSAI n i pb = .ok none := by
  induction sets generalizing i pb n u with
  | nil =>
    have hend : ¬pb ≠ pbSAI.length := by
      rw [hpb, hoff, packSets_nil, List.append_nil]
      exact not_not_intro rfl
    subst hn
    rw [List.length_nil, scanSets, if_neg hend]
    rfl
  | cons s sets ih =>
    have hsplit : pbSAI = u ++ packSet s ++ packSets sets := by
      rw [hpb, List.append_assoc]
      rfl
    have hskip := scanSets_skip (n := sets.length) (i := i) hsplit hoff (hs s List.mem_cons_self)
      hfit (hne s List.mem_cons_self)
    rw [hn, List.length_cons, hskip]
    exact ih hsplit rfl rfl (fun t ht => hs t (List.mem_cons_of_mem s ht))
      fun t ht => hne t (List.mem_cons_of_mem s ht)

/-- What a search for `id` tells about the identity behind `pre` in the set behind `b`. -/
def foundAt (id x : Bytes) (b : List (List Bytes)) (pre post : List Bytes) : FoundIdentity :=
  ⟨b.length, lastHashByte x ^^^ lastHashByte id != 0, identityOffset b pre,
    (pre ++ x :: post).length, setOffset b⟩

theorem scanSets_some {pbSAI u v : Bytes} {i pb n : ℕ}
    (hpb : pbSAI = u ++ packSets b ++ packSet (pre ++ x :: post) ++ v) (hoff : pb = u.length)
    (hn : b.length < n) (hb : SizedSets b) (hs : SizedIds (pre ++ x :: post))
    (hfit : pbSAI.length < 2 ^ 32) (hne : ∀ t ∈ b, ∀ y ∈ t, sameIdentity y id = false)
    (hpre : ∀ y ∈ pre, sameIdentity y id = false) (hsame : sameIdentity x id = true) :
    scanSets id pbSAI n i pb = .ok (some ⟨i + b.length, lastHashByte x ^^^ lastHashByte id != 0,
      u.length + (packSets b).length + 4 + hashDataSize * pre.length, (pre ++ x :: post).length,
      u.length + (packSets b).length + 4⟩) := by
  induction b generalizing i pb n u with
  | nil =>
    obtain ⟨n, rfl⟩ : ∃ m, n = m + 1 := ⟨n - 1, (Nat.succ_pred_eq_of_pos hn).symm⟩
    have hx := hs x (List.mem_append_right pre List.mem_cons_self)
    have hfront : pbSAI = u ++ packSet (pre ++ x :: post) ++ v := by
      rw [hpb, packSets_nil, List.append_nil]
    obtain ⟨hcount, htotal⟩ := set_at hfront hoff hs hfit
    have hin : pb < pbSAI.length := by omega
    have hroom : ¬pbSAI.length < pb + 4 := by omega
    have hsplit : pbSAI = (u ++ dword (pre ++ x :: post).length) ++ pre.flatten ++
        (x ++ (post.flatten ++ v)) := by
      rw [hfront, packSet, List.flatten_append, List.flatten_cons]
      simp only [List.append_assoc]
    have hstart : pb + 4 = (u ++ dword (pre ++ x :: post).length).length := by
      rw [List.length_append, length_dword, hoff]
    have hscan := scanSet_append (n := post.length + 1) hsplit hstart hs.of_append.1 hpre
    have hhere : pbSAI = (u ++ dword (pre ++ x :: post).length ++ pre.flatten) ++ x ++
        (post.flatten ++ v) := by
      rw [hsplit]
      simp only [List.append_assoc]
    have hat : pb + 4 + hashDataSize * pre.length =
        (u ++ dword (pre ++ x :: post).length ++ pre.flatten).length := by
      rw [List.length_append, ← hstart, length_flatten_of_sized hs.of_append.1]
    have hfound := scanSet_found (n := post.length) hhere hat hx hsame
    have hslice : sliceAt pbSAI (pb + 4 + hashDataSize * pre.length) hashDataSize = x :=
      sliceAt_mid hhere hat hx.symm
    have hlen : (pre ++ x :: post).length = pre.length + (post.length + 1) := by
      rw [List.length_append, List.length_cons]
    rw [scanSets, if_pos hin, if_neg hroom]
    dsimp only
    rw [hcount, hlen, hscan, ← hlen, ← hstart, hfound]
    dsimp only [bind, Except.bind, pure, Except.pure]
    rw [hslice, hoff]
    rfl
  | cons t b ih =>
    obtain ⟨n, rfl⟩ : ∃ m, n = m + 1 := ⟨n - 1, (Nat.succ_pred_eq_of_pos (Nat.zero_lt_of_lt hn)).symm⟩
    have hsplit : pbSAI = u ++ packSet t ++
        (packSets b ++ packSet (pre ++ x :: post) ++ v) := by
      rw [hpb, packSets_cons]
      simp only [List.append_assoc]
    have hskip := scanSets_skip (n := n) (i := i) hsplit hoff (hb t List.mem_cons_self) hfit
      (hne t List.mem_cons_self)
    have hnext := ih (i := i + 1) (n := n) (u := u ++ packSet t)
      (by rw [hsplit]; simp only [List.append_assoc]) rfl (Nat.lt_of_succ_lt_succ hn)
      (fun s hs => hb s (List.mem_cons_of_mem t hs)) fun s hs => hne s (List.mem_cons_of_mem t hs)
    rw [hskip, hnext, packSets_cons]
    simp only [List.length_append, List.length_cons, Nat.add_assoc, Nat.add_comm 1]

theorem saiFindIdentity_none (hs : SizedSets sets) (hfit : (packSai usn sets).length < 2 ^ 32)
    (hne : ∀ s ∈ sets, ∀ x ∈ s, sameIdentity x id = false) :
    saiFindIdentity id (packSai usn sets) = .ok none := by
  unfold saiFindIdentity
  split_ifs with hempty
  · rfl
  · rw [getDword_packSai hfit]
    exact scanSets_none rfl rfl rfl hs hfit hne

theorem saiFindIdentity_some (hs : SizedSets (b ++ (pre ++ x :: post) :: a))
    (hfit : (packSai usn (b ++ (pre ++ x :: post) :: a)).length < 2 ^ 32)
    (hne : ∀ t ∈ b, ∀ y ∈ t, sameIdentity y id = false)
    (hpre : ∀ y ∈ pre, sameIdentity y id = false) (hsame : sameIdentity x id = true) :
    saiFindIdentity id (packSai usn (b ++ (pre ++ x :: post) :: a)) =
      .ok (some (foundAt id x b pre post)) := by
  have hset : SizedIds (pre ++ x :: post) := hs _ (List.mem_append_right b List.mem_cons_self)
  have hend := length_packSai_mid (b := b) (a := a) usn hset
  have hne' : ¬(packSai usn (b ++ (pre ++ x :: post) :: a)).length ≤ saiHeaderSize := by
    unfold setOffset at hend
    show ¬_ ≤ 8
    omega
  have hcount : b.length < (b ++ (pre ++ x :: post) :: a).length := by
    rw [List.length_append, List.length_cons]
    omega
  have hscan := scanSets_some (i := 0) (u := header usn (b ++ (pre ++ x :: post) :: a).length)
    (v := packSets a)
    (show packSai usn (b ++ (pre ++ x :: post) :: a) = _ by
      simp only [packSai, packSets_append, packSets_cons, List.append_assoc]) rfl hcount
    hs.of_append.1 hset hfit hne hpre hsame
  unfold saiFindIdentity
  rw [if_neg hne', getDword_packSai hfit]
  rw [length_header, Nat.zero_add] at hscan
  exact hscan

/-- The search for an index passes a set with another one. -/
theorem indexSet_skip {pbSAI : Bytes} {j pb n : ℕ}
    (hfit : pb + hashDataSize * n ≤ pbSAI.length) :
    indexSet false 0 pbSAI n j pb = .ok (none, 0, pb + hashDataSize * n) := by
  induction n generalizing j pb with
  | zero => rfl
  | succ n ih =>
    rw [Nat.mul_succ] at hfit
    have hin : pb < pbSAI.length := by
      unfold hashDataSize at hfit
      omega
    have hother : ¬(false = true ∧ j = 0) := fun h => Bool.false_ne_true h.1
    rw [indexSet, if_pos hin, if_neg hother, ih (by omega), Nat.mul_succ]
    congr 3
    omega

theorem indexSets_spec {pbSAI u v : Bytes} {idx i pb n : ℕ}
    (hpb : pbSAI = u ++ packSets b ++ packSet s ++ v) (hoff : pb = u.length)
    (hidx : idx = i + b.length) (hn : b.length < n) (hb : SizedSets b) (hs : SizedIds s)
    (hne : s ≠ []) (hfit : pbSAI.length < 2 ^ 32) :
    indexSets idx 0 pbSAI n i pb = .ok (some (u.length + (packSets b).length + 4, s.length,
      u.length + (packSets b).length + 4)) := by
  induction b generalizing i pb n u with
  | nil =>
    obtain ⟨n, rfl⟩ : ∃ m, n = m + 1 := ⟨n - 1, (Nat.succ_pred_eq_of_pos hn).symm⟩
    obtain ⟨x, s, rfl⟩ := List.exists_cons_of_ne_nil hne
    have hfront : pbSAI = u ++ packSet (x :: s) ++ v := by
      rw [hpb, packSets_nil, List.append_nil]
    obtain ⟨hcount, htotal⟩ := set_at hfront hoff hs hfit
    rw [List.length_cons, Nat.mul_succ] at htotal
    have hin : pb < pbSAI.length := by omega
    have hroom : ¬pbSAI.length < pb + 4 := by omega
    have hin' : pb + 4 < pbSAI.length := by
      unfold hashDataSize at htotal
      omega
    have hroom' : ¬pbSAI.length < pb + 4 + hashDataSize := by omega
    have hhere : decide (i = idx) = true ∧ (0 : ℕ) = 0 := ⟨by rw [hidx]; exact decide_eq_true rfl, rfl⟩
    rw [indexSets, if_pos hin, if_neg hroom]
    dsimp only
    rw [hcount, List.length_cons, indexSet, if_pos hin', if_pos hhere, if_neg hroom']
    dsimp only [bind, Except.bind, pure, Except.pure]
    rw [hoff]
    rfl
  | cons t b ih =>
    obtain ⟨n, rfl⟩ : ∃ m, n = m + 1 := ⟨n - 1, (Nat.succ_pred_eq_of_pos (Nat.zero_lt_of_lt hn)).symm⟩
    have hsplit : pbSAI = u ++ packSet t ++ (packSets b ++ packSet s ++ v) := by
      rw [hpb, packSets_cons]
      simp only [List.append_assoc]
    have ht := hb t List.mem_cons_self
    obtain ⟨hcount, htotal⟩ := set_at hsplit hoff ht hfit
    have hin : pb < pbSAI.length := by omega
    have hroom : ¬pbSAI.length < pb + 4 := by omega
    have hother : decide (i = idx) = false := by
      rw [hidx, List.length_cons]
      exact decide_eq_false (by omega)
    have hskip := indexSet_skip (j := 0)
      (show pb + 4 + hashDataSize * t.length ≤ pbSAI.length by omega)
    have hdone : ¬(0 ≠ 0 ∨ pbSAI.length < pb + 4 + hashDataSize * t.length) := by omega
    have hstart : pb + 4 + hashDataSize * t.length = (u ++ packSet t).length := by
      rw [List.length_append, length_packSet ht, hoff]
      omega
    have hnext := ih (i := i + 1) (n := n) (u := u ++ packSet t)
      (by rw [hsplit]; simp only [List.append_assoc]) rfl
      (by rw [hidx, List.length_cons]; omega) (Nat.lt_of_succ_lt_succ hn)
      fun s hs => hb s (List.mem_cons_of_mem t hs)
    rw [indexSets, if_pos hin, if_neg hroom]
    dsimp only
    rw [hcount, hother, hskip]
    dsimp only [bind, Except.bind]
    rw [if_neg hdone, hstart, hnext, packSets_cons]
    simp only [List.length_append, Nat.add_assoc]

theorem saiIndexIdentity_spec (hs : SizedSets (b ++ s :: a)) (hne : s ≠ [])
    (hfit : (packSai usn (b ++ s :: a)).length < 2 ^ 32) :
    saiIndexIdentity b.length 0 (packSai usn (b ++ s :: a)) =
      .ok (some (setOffset b, s.length, setOffset b)) := by
  have hset : SizedIds s := hs _ (List.mem_append_right b List.mem_cons_self)
  have hend := length_packSai_mid (b := b) (a := a) usn hset
  have hne' : ¬(packSai usn (b ++ s :: a)).length ≤ saiHeaderSize := by
    unfold setOffset at hend
    show ¬_ ≤ 8
    omega
  have hcount : b.length < (b ++ s :: a).length := by
    rw [List.length_append, List.length_cons]
    omega
  have hindex := indexSets_spec (i := 0) (u := header usn (b ++ s :: a).length)
    (v := packSets a)
    (show packSai usn (b ++ s :: a) = _ by
      simp only [packSai, packSets_append, packSets_cons, List.append_assoc]) rfl
    (Nat.zero_add _).symm hcount hs.of_append.1 hset hne hfit
  unfold saiIndexIdentity
  rw [if_neg hne', getDword_packSai hfit]
  rw [length_header] at hindex
  exact hindex

/-- An identity takes the place of another one. -/
theorem saiUpdateIdentity_spec (hs : SizedIds (pre ++ x :: post)) (hid : id.length = hashDataSize) :
    saiUpdateIdentity id (identityOffset b pre) (packSai usn (b ++ (pre ++ x :: post) :: a)) =
      packSai usn (b ++ (pre ++ id :: post) :: a) := by
  have hx := hs x (List.mem_append_right pre List.mem_cons_self)
  have hpre := length_flatten_of_sized hs.of_append.1
  have hpack (y : Bytes) : packSai usn (b ++ (pre ++ y :: post) :: a) =
      (header usn (b ++ (pre ++ x :: post) :: a).length ++ packSets b ++
        dword (pre ++ x :: post).length ++ pre.flatten) ++ y ++ (post.flatten ++ packSets a) := by
    rw [packSai_mid, List.flatten_append, List.flatten_cons]
    simp only [List.length_append, List.length_cons, List.append_assoc]
  rw [hpack id]
  refine copyAt_mid (hpack x) ?_ (by rw [hid, hx])
  simp only [List.length_append, length_header, length_dword, hpre, identityOffset, setOffset]

/-- A block is a packed array, or there is no block and no set. -/
def SaiBlock (usn : UInt8) (sets : List (List Bytes)) (pbSAI : Bytes) : Prop :=
  pbSAI = [] ∧ usn = 0 ∧ sets = [] ∨ pbSAI = packSai usn sets

theorem SaiBlock.header {pbSAI : Bytes} (hb : SaiBlock usn sets pbSAI) :
    (pbSAI = [] ∧ usn = 0 ∧ sets.length = 0 ∧ packSets sets = [] ∨
      pbSAI = header usn sets.length ++ packSets sets) ∧
      (if pbSAI.length = 0 then saiHeaderSize else pbSAI.length) = 8 + (packSets sets).length ∧
      (pbSAI.length = 0 → sets.length = 0) := by
  cases hb with
  | inl h =>
    obtain ⟨rfl, rfl, rfl⟩ := h
    exact ⟨Or.inl ⟨rfl, rfl, rfl, rfl⟩, rfl, fun _ => rfl⟩
  | inr h =>
    have hlen := length_packSai usn sets
    have hne : pbSAI.length ≠ 0 := by rw [h]; omega
    refine ⟨Or.inr h, ?_, fun h0 => absurd h0 hne⟩
    rw [if_neg hne, h, hlen]

theorem saiAddIdentity_spec {pbSAI pbSAI' : Bytes} (hb : SaiBlock usn sets pbSAI)
    (hid : id.length = hashDataSize) (h : saiAddIdentity fresh id pbSAI = .ok pbSAI') :
    pbSAI' = packSai usn (sets ++ [[id]]) := by
  obtain ⟨hblock, hpos, hfirst⟩ := hb.header
  obtain ⟨v, hv, hroom, hcopy⟩ := makeRoom_spec (f := fresh) (sets.length + 1) hblock
    (4 + hashDataSize)
  obtain ⟨v₁, hv₁, hcount⟩ := copyAt_fill (o := 8 + (packSets sets).length)
    (s := dword 1) (n := hashDataSize) hcopy (by rw [List.length_append, length_header]) hv
  obtain ⟨v₂, hv₂, hidentity⟩ := copyAt_fill (o := 8 + (packSets sets).length + 4)
    (s := id) (n := 0) hcount (by simp only [List.length_append, length_header, length_dword])
    (by rw [hv₁, hid, Nat.add_zero])
  obtain rfl := List.eq_nil_of_length_eq_zero hv₂
  have hsets : ¬maxSecretSize < pbSAI.length + 4 + hashDataSize →
      (if pbSAI.length = 0 then 1
        else getDword (makeRoom fresh pbSAI (pbSAI.length + (4 + hashDataSize)) 8) usnSize + 1) =
        sets.length + 1 := by
    intro hmax
    have hle := length_le_packSets sets
    unfold maxSecretSize at hmax
    split_ifs with h0
    · rw [hfirst h0]
    · rw [hroom, List.append_assoc, getDword_header]
      cases hblock with
      | inl h => rw [h.2.2.1]; decide
      | inr h =>
        have := congrArg List.length h
        rw [List.length_append, length_header] at this
        omega
  unfold saiAddIdentity at h
  dsimp only at h
  by_cases hmax : maxSecretSize < pbSAI.length + 4 + hashDataSize
  · rw [if_pos hmax] at h
    cases h
  · rw [if_neg hmax] at h
    have h := Except.ok.inj h
    have hlen : sets.length + 1 = (sets ++ [[id]]).length := by rw [List.length_append]; rfl
    simp only [decide_eq_true_eq] at h
    rw [hpos, Nat.add_assoc pbSAI.length, show saiHeaderSize = 8 from rfl, hsets hmax, hidentity] at h
    rw [← h, packSai, hlen]
    simp only [packSet, packSets_append, packSets_cons, packSets_nil, List.append_assoc,
      List.append_nil, List.flatten_cons, List.flatten_nil, List.length_cons, List.length_nil]

/-- An identity in front of the set behind `b`. -/
theorem saiInsertIdentity_spec {pbSAI' : Bytes} (hs : SizedIds s)
    (hid : id.length = hashDataSize)
    (h : saiInsertIdentity fresh id (setOffset b) (packSai usn (b ++ s :: a)) = .ok pbSAI') :
    pbSAI' = packSai usn (b ++ (id :: s) :: a) := by
  have hend := length_packSai_mid (b := b) (a := a) usn hs
  have hpack := packSai_mid usn b a s
  have hoff : setOffset b = (header usn (b ++ s :: a).length ++ packSets b ++
      dword s.length).length := by
    simp only [List.length_append, length_header, length_dword, setOffset]
  have hpos : 12 ≤ setOffset b := by
    unfold setOffset
    omega
  unfold saiInsertIdentity at h
  dsimp only at h
  split_ifs at h with hbounds hmax
  · have h := Except.ok.inj h
    have hne : (packSai usn (b ++ s :: a)).length ≠ 0 := by omega
    obtain ⟨g, hg, hgrow⟩ := resize_grow fresh (packSai usn (b ++ s :: a))
      (Nat.le_add_right _ hashDataSize)
    rw [Nat.add_sub_cancel_left] at hg
    have hroom : makeRoom fresh (packSai usn (b ++ s :: a))
        ((packSai usn (b ++ s :: a)).length + hashDataSize) saiHeaderSize =
        header usn (b ++ s :: a).length ++ packSets b ++ dword s.length ++ [] ++
          (s.flatten ++ packSets a) ++ g := by
      rw [makeRoom, if_neg hne, hgrow, hpack, List.append_nil]
    obtain ⟨w, hw, hmove⟩ := moveWithin_up (d := setOffset b + hashDataSize) (s := setOffset b)
      (n := (packSai usn (b ++ s :: a)).length - setOffset b) hroom
      (by rw [List.length_nil, Nat.add_zero, ← hoff, hg])
      (by rw [List.length_nil, Nat.add_zero, hoff])
      (by rw [List.length_append, length_flatten_of_sized hs]; omega)
    rw [List.length_nil, Nat.zero_add, hg] at hw
    have hcountpos : setOffset b - 4 = (header usn (b ++ s :: a).length ++ packSets b).length := by
      rw [List.length_append, length_header, setOffset, Nat.add_sub_cancel]
    have hfit : s.length < 2 ^ 32 := by
      unfold maxSecretSize hashDataSize at *
      omega
    have hsub : getDword (header usn (b ++ s :: a).length ++ packSets b ++ dword s.length ++ w ++
        (s.flatten ++ packSets a)) (setOffset b - 4) = s.length :=
      getDword_mid (v := w ++ (s.flatten ++ packSets a)) (by simp only [List.append_assoc])
        hcountpos hfit
    have hcount := copyAt_mid (p := header usn (b ++ s :: a).length ++ packSets b ++
      dword s.length ++ w ++ (s.flatten ++ packSets a)) (v := w ++ (s.flatten ++ packSets a))
      (by simp only [List.append_assoc]) hcountpos
      (show (dword (s.length + 1)).length = (dword s.length).length by
        rw [length_dword, length_dword])
    have hidentity := copyAt_mid (p := header usn (b ++ s :: a).length ++ packSets b ++
      dword (s.length + 1) ++ (w ++ (s.flatten ++ packSets a)))
      (u := header usn (b ++ s :: a).length ++ packSets b ++ dword (s.length + 1))
      (w := w) (v := s.flatten ++ packSets a)
      (by simp only [List.append_assoc])
      (show setOffset b = _ by simp only [hoff, List.length_append, length_dword])
      (show id.length = w.length by rw [hid, hw])
    rw [hmove, hsub, hcount, hidentity] at h
    rw [← h, packSai_mid, List.flatten_cons, List.length_cons]
    simp only [List.length_append, List.length_cons, List.append_assoc]

/-- The last identity of a set takes the set and its credential along. -/
theorem saiRemoveIdentity_last {cs ds : List Credential} {c : Credential}
    (hx : x.length = hashDataSize) (hcs : SizedCredentials (cs ++ c :: ds))
    (hlen : b.length = cs.length) (hfit : (packSai usn (b ++ [x] :: a)).length < 2 ^ 32)
    (hfit' : (packSac usn (cs ++ c :: ds)).length < 2 ^ 32) :
    saiRemoveIdentity fresh (identityOffset b []) (setOffset b) (packSai usn (b ++ [x] :: a))
        b.length (packSac usn (cs ++ c :: ds)) =
      .ok (packSai usn (b ++ a), packSac usn (cs ++ ds)) := by
  have hs : SizedIds [x] := fun y hy => by rw [List.mem_singleton.mp hy, hx]
  have hend := length_packSai_mid (b := b) (a := a) usn hs
  rw [List.length_singleton, Nat.mul_one] at hend
  have hpack := packSai_mid usn b a [x]
  have hid : identityOffset b [] = setOffset b := by
    rw [identityOffset, List.length_nil, Nat.mul_zero, Nat.add_zero]
  have hpos : 12 ≤ setOffset b := by
    unfold setOffset
    omega
  have hbounds : ¬(setOffset b < setOffset b ∨ setOffset b < saiHeaderSize + 4 ∨
      (packSai usn (b ++ [x] :: a)).length < setOffset b + hashDataSize) := by
    show ¬(_ ∨ _ < 12 ∨ _)
    omega
  have hcountpos : setOffset b - 4 = (header usn (b ++ [x] :: a).length ++ packSets b).length := by
    rw [List.length_append, length_header, setOffset, Nat.add_sub_cancel]
  have hsub : getDword (packSai usn (b ++ [x] :: a)) (setOffset b - 4) = 1 :=
    getDword_mid hpack hcountpos (by decide)
  have hsets : (b ++ [x] :: a).length - 1 = (b ++ a).length := by
    simp only [List.length_append, List.length_cons]
    omega
  have hset : packSet [x] = dword 1 ++ x := by
    rw [packSet, List.flatten_cons, List.flatten_nil, List.append_nil]
    rfl
  have hheader : copyAt (packSai usn (b ++ [x] :: a)) usnSize
      (dword (getDword (packSai usn (b ++ [x] :: a)) usnSize - 1)) =
      header usn (b ++ a).length ++ packSets b ++ packSet [x] ++ packSets a ++ [] := by
    rw [getDword_packSai hfit, hsets, packSai, copyAt_header, packSets_append, packSets_cons]
    simp only [List.append_assoc, List.append_nil]
  obtain ⟨stale, hstale, hmove⟩ := moveWithin_down (d := setOffset b - 4)
    (s := setOffset b + hashDataSize)
    (n := (packSai usn (b ++ [x] :: a)).length - (setOffset b + hashDataSize)) hheader
    (by simp only [hcountpos, List.length_append, length_header])
    (by
      simp only [hset, List.length_append, length_header, length_dword, hx, setOffset]
      omega)
    (by omega)
  unfold saiRemoveIdentity
  dsimp only
  rw [hid, if_neg hbounds, hsub, if_pos (Nat.sub_self 1), hlen, sacRemoveCredential_spec hcs hfit']
  dsimp only [bind, Except.bind, pure, Except.pure]
  rw [hmove]
  have hcut : resize fresh _ _ = _ := resize_shrink
    (u := header usn (b ++ a).length ++ packSets b ++ packSets a) (v := stale ++ []) rfl
    (show (packSai usn (b ++ [x] :: a)).length - (hashDataSize + 4) = _ by
      rw [List.length_append, List.length_append, length_header]
      unfold setOffset at hend
      omega)
  rw [hcut, packSai, packSets_append, List.append_assoc]

/-- One of several identities leaves its set. -/
theorem saiRemoveIdentity_more {pbSAC : Bytes} {n : ℕ} (hs : SizedIds (pre ++ x :: post))
    (hne : pre ++ post ≠ []) (hfit : (packSai usn (b ++ (pre ++ x :: post) :: a)).length < 2 ^ 32) :
    saiRemoveIdentity fresh (identityOffset b pre) (setOffset b)
        (packSai usn (b ++ (pre ++ x :: post) :: a)) n pbSAC =
      .ok (packSai usn (b ++ (pre ++ post) :: a), pbSAC) := by
  have hx := hs x (List.mem_append_right pre List.mem_cons_self)
  have hpre := length_flatten_of_sized hs.of_append.1
  have hend := length_packSai_mid (b := b) (a := a) usn hs
  have hlen : (pre ++ x :: post).length = (pre ++ post).length + 1 := by
    simp only [List.length_append, List.length_cons]
    omega
  have hpost : hashDataSize * (pre ++ post).length =
      hashDataSize * pre.length + hashDataSize * post.length := by
    rw [List.length_append, Nat.mul_add]
  rw [hlen, Nat.mul_succ] at hend
  have hpack := packSai_mid usn b a (pre ++ x :: post)
  have hpos : 12 ≤ setOffset b := by
    unfold setOffset
    omega
  have hbounds : ¬(identityOffset b pre < setOffset b ∨ setOffset b < saiHeaderSize + 4 ∨
      (packSai usn (b ++ (pre ++ x :: post) :: a)).length < identityOffset b pre + hashDataSize) := by
    show ¬(_ ∨ _ < 12 ∨ _)
    unfold identityOffset
    omega
  have hcountpos : setOffset b - 4 =
      (header usn (b ++ (pre ++ x :: post) :: a).length ++ packSets b).length := by
    rw [List.length_append, length_header, setOffset, Nat.add_sub_cancel]
  have hcountfit : (pre ++ x :: post).length < 2 ^ 32 := by
    unfold hashDataSize at hend
    omega
  have hsub : getDword (packSai usn (b ++ (pre ++ x :: post) :: a)) (setOffset b - 4) =
      (pre ++ post).length + 1 := by
    rw [getDword_mid hpack hcountpos hcountfit, hlen]
  have hleft : ¬(pre ++ post).length + 1 - 1 = 0 := by
    rw [Nat.add_sub_cancel]
    exact fun h => hne (List.eq_nil_of_length_eq_zero h)
  have hcount : copyAt (packSai usn (b ++ (pre ++ x :: post) :: a)) (setOffset b - 4)
      (dword (pre ++ post).length) =
      (header usn (b ++ (pre ++ x :: post) :: a).length ++ packSets b ++ dword (pre ++ post).length ++
        pre.flatten) ++ x ++ (post.flatten ++ packSets a) ++ [] := by
    rw [copyAt_mid hpack hcountpos (by rw [length_dword, length_dword]), List.flatten_append,
      List.flatten_cons]
    simp only [List.append_assoc, List.append_nil]
  have hat : identityOffset b pre = (header usn (b ++ (pre ++ x :: post) :: a).length ++
      packSets b ++ dword (pre ++ post).length ++ pre.flatten).length := by
    simp only [List.length_append, length_header, length_dword, hpre, identityOffset, setOffset]
  obtain ⟨stale, hstale, hmove⟩ := moveWithin_down (d := identityOffset b pre)
    (s := identityOffset b pre + hashDataSize)
    (n := (packSai usn (b ++ (pre ++ x :: post) :: a)).length -
      (identityOffset b pre + hashDataSize)) hcount hat (by rw [← hat, hx])
    (by
      rw [List.length_append, length_flatten_of_sized fun y hy =>
        hs y (List.mem_append_right pre (List.mem_cons_of_mem x hy))]
      unfold identityOffset
      omega)
  unfold saiRemoveIdentity
  dsimp only
  rw [if_neg hbounds, hsub, if_neg hleft, Nat.add_sub_cancel, hmove]
  have hcut : resize fresh _ _ = _ := resize_shrink
    (u := header usn (b ++ (pre ++ x :: post) :: a).length ++ packSets b ++
      dword (pre ++ post).length ++ pre.flatten ++ (post.flatten ++ packSets a))
    (v := stale ++ []) rfl
    (show (packSai usn (b ++ (pre ++ x :: post) :: a)).length - hashDataSize = _ by
      rw [List.length_append, ← hat, List.length_append, length_flatten_of_sized fun y hy =>
        hs y (List.mem_append_right pre (List.mem_cons_of_mem x hy))]
      unfold identityOffset
      omega)
  rw [hcut, packSai_mid, List.flatten_append]
  simp only [List.length_append, List.length_cons, List.append_assoc]
  rfl

end NtAdmin.Sched
