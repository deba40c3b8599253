import NtAdmin.Sched.SvcCore.SaiSpec
import NtAdmin.Sched.SvcCore.SacCoalesce

/-! The removal of marked identities from the SAI. -/
namespace NtAdmin.Sched
open Lib

/-- The identities that stay. -/
def keptIds (ids : List Bytes) : List Bytes := ids.filter (! marked ·)

/-- The sets that stay. -/
def keptSets (sets : List (List Bytes)) : List (List Bytes) :=
  (sets.map keptIds).filter (! List.isEmpty ·)

variable {fresh : ℕ → UInt8} {usn : UInt8} {sets : List (List Bytes)} {s ids : List Bytes}

theorem length_keptIds (ids : List Bytes) :
    (keptIds ids).length + ids.countP marked = ids.length := by
  rw [keptIds, ← List.countP_eq_length_filter, Nat.add_comm,
    List.length_eq_countP_add_countP marked (l := ids)]
  simp only [Bool.not_eq_true, Bool.decide_eq_false]

theorem keptIds_eq_self (h : ids.countP marked = 0) : keptIds ids = ids := by
  have hnone := List.countP_eq_zero.mp h
  exact List.filter_eq_self.mpr fun x hx => by rw [Bool.eq_false_iff.mpr (hnone x hx)]; rfl

theorem SizedIds.kept (h : SizedIds ids) : SizedIds (keptIds ids) :=
  fun x hx => h x (List.mem_of_mem_filter hx)

theorem countDeleted_spec {p u v : Bytes} {k m c : ℕ} (hp : p = u ++ ids.flatten ++ v)
    (hoff : k = u.length) (hs : SizedIds ids)
    (hend : k + hashDataSize * ids.length ≤ m) :
    countDeleted p m ids.length k c =
      .ok (c + ids.countP marked, k + hashDataSize * ids.length) := by
  induction ids generalizing u k c with
  | nil => rfl
  | cons x ids ih =>
    have hx := hs x List.mem_cons_self
    have hsplit : p = u ++ x ++ (ids.flatten ++ v) := by
      rw [hp, List.flatten_cons]
      simp only [List.append_assoc]
    rw [List.length_cons, Nat.mul_succ] at hend
    have hin : k < m := by
      unfold hashDataSize at hend
      omega
    have hroom : ¬m < k + hashDataSize := by omega
    have hmarked := deletedEntry_mid hsplit hoff hx
    have hnext := ih (c := if marked x = true then c + 1 else c) (u := u ++ x)
      (k := k + hashDataSize) (by rw [hsplit]; simp only [List.append_assoc])
      (by rw [List.length_append, hx, hoff]) (fun y hy => hs y (List.mem_cons_of_mem x hy)) (by omega)
    rw [List.length_cons, countDeleted, if_pos hin, if_neg hroom, hmarked, hnext, List.countP_cons,
      Nat.mul_succ]
    congr 2
    · split_ifs <;> omega
    · omega

/-- The identities behind the removed ones move down with everything up to the end. -/
theorem removeDeleted_spec {p u v t : Bytes} {d m n c : ℕ}
    (hp : p = u ++ ids.flatten ++ v ++ t) (hoff : d = u.length) (hs : SizedIds ids)
    (hend : m = u.length + ids.flatten.length + v.length) (hn : n = ids.length)
    (hc : c = ids.countP marked) :
    ∃ t', removeDeleted m n c d p = u ++ (keptIds ids).flatten ++ v ++ t' ∧
      t'.length = t.length + hashDataSize * c := by
  induction ids generalizing u v p d n c with
  | nil =>
    subst hn hc
    exact ⟨t, hp, rfl⟩
  | cons x ids ih =>
    have hx := hs x List.mem_cons_self
    have hs' : SizedIds ids := fun y hy => hs y (List.mem_cons_of_mem x hy)
    have hsplit : p = u ++ x ++ (ids.flatten ++ v) ++ t := by
      rw [hp, List.flatten_cons]
      simp only [List.append_assoc]
    have hmarked : deletedEntry p d = marked x :=
      deletedEntry_mid (v := ids.flatten ++ v ++ t) (by rw [hsplit]; simp only [List.append_assoc])
        hoff hx
    rw [List.flatten_cons, List.length_append, hx] at hend
    rw [hn, List.length_cons, removeDeleted]
    by_cases hgo : c ≠ 0
    · have hin : d < m := by
        unfold hashDataSize at hend
        omega
      rw [if_pos ⟨hgo, hin⟩]
      dsimp only
      rw [hmarked]
      rw [List.countP_cons] at hc
      cases hx' : marked x with
      | true =>
        rw [hx', if_pos rfl] at hc
        obtain ⟨stale, hstale, hmove⟩ := moveWithin_down (d := d) (s := d + hashDataSize)
          (n := m - (d + hashDataSize)) hsplit hoff (by rw [hoff, hx])
          (by rw [List.length_append]; omega)
        have hrest := ih (v := v ++ stale) (d := d) (n := ids.length) (c := c - 1)
          (p := u ++ (ids.flatten ++ v) ++ (stale ++ t)) (by simp only [List.append_assoc]) hoff hs'
          (by rw [List.length_append, hstale, hx]; omega) rfl (by omega)
        obtain ⟨t', hrest, hlen⟩ := hrest
        refine ⟨stale ++ t', ?_, ?_⟩
        · rw [if_pos rfl, hmove, hrest, keptIds, keptIds,
            List.filter_cons_of_neg (by rw [hx']; decide)]
          simp only [List.append_assoc]
        · obtain ⟨k, rfl⟩ := Nat.exists_eq_succ_of_ne_zero hgo
          rw [List.length_append, hstale, hx, hlen, Nat.succ_sub_one, Nat.mul_succ]
          omega
      | false =>
        rw [hx', if_neg Bool.false_ne_true, Nat.add_zero] at hc
        have hrest := ih (u := u ++ x) (v := v) (d := d + hashDataSize) (n := ids.length)
          (c := c) (p := p) (by rw [hsplit]; simp only [List.append_assoc])
          (by rw [List.length_append, hx, hoff]) hs' (by rw [List.length_append, hx]; omega) rfl hc
        obtain ⟨t', hrest, hlen⟩ := hrest
        refine ⟨t', ?_, hlen⟩
        rw [if_neg Bool.false_ne_true, hrest, keptIds, keptIds,
          List.filter_cons_of_pos (by rw [hx']; rfl), List.flatten_cons]
        simp only [List.append_assoc]
    · have hnone : (x :: ids).countP marked = 0 := by omega
      have hzero : c = 0 := not_not.mp hgo
      rw [if_neg fun h => hgo h.1, keptIds_eq_self hnone, hzero]
      exact ⟨t, hp, rfl⟩

theorem coalesceSets_spec {p u t : Bytes} {n i m r : ℕ}
    (hp : p = u ++ packSets sets ++ t) (hoff : i = u.length) (hs : SizedSets sets)
    (hne : ∀ s ∈ sets, s ≠ []) (hfit : p.length < 2 ^ 32)
    (hend : m = u.length + (packSets sets).length) (hn : n = sets.length) :
    ∃ t' r', coalesceSets n i m r p =
        .ok (u ++ packSets (keptSets sets) ++ t',
          u.length + (packSets (keptSets sets)).length, r') ∧
      r' + (keptSets sets).length = r + sets.length ∧
      (packSets (keptSets sets)).length + t'.length = (packSets sets).length + t.length := by
  induction sets generalizing p u t n i m r with
  | nil =>
    subst hn
    refine ⟨t, r, ?_, rfl, rfl⟩
    rw [hp, hend]
    rfl
  | cons s sets ih =>
    have hids := hs s List.mem_cons_self
    have hs' : SizedSets sets := fun s' h => hs s' (List.mem_cons_of_mem s h)
    have hne' : ∀ s' ∈ sets, s' ≠ [] := fun s' h => hne s' (List.mem_cons_of_mem s h)
    have hsplit : p = u ++ packSet s ++ (packSets sets ++ t) := by
      rw [hp, packSets_cons]
      simp only [List.append_assoc]
    obtain ⟨hcount, htotal⟩ := set_at hsplit hoff hids hfit
    have hlen := length_packSet hids
    rw [packSets_cons, List.length_append, hlen] at hend
    have hin : i < m := by omega
    have hroom : ¬m < i + 4 := by omega
    have hinner : p = (u ++ dword s.length) ++ s.flatten ++ (packSets sets ++ t) := by
      rw [hsplit, packSet]
      simp only [List.append_assoc]
    have hstart : i + 4 = (u ++ dword s.length).length := by
      rw [List.length_append, length_dword, hoff]
    have hdeleted := countDeleted_spec (c := 0) (m := m) hinner hstart hids (by omega)
    have hkept := length_keptIds s
    rw [hn, List.length_cons, coalesceSets, if_pos hin, if_neg hroom]
    dsimp only
    rw [hcount, hdeleted, Nat.zero_add]
    dsimp only [bind, Except.bind]
    by_cases hany : s.countP marked ≠ 0
    · rw [if_pos hany]
      by_cases hall : s.countP marked = s.length
      · -- The whole set goes.
        have hgone : keptSets (s :: sets) = keptSets sets := by
          have hnil : keptIds s = [] := List.eq_nil_of_length_eq_zero (by omega)
          rw [keptSets, List.map_cons, hnil, List.filter_cons_of_neg (by decide)]
          rfl
        obtain ⟨stale, hstale, hmove⟩ := moveWithin_down (d := i)
          (s := i + 4 + hashDataSize * s.length)
          (n := m - (i + 4 + hashDataSize * s.length))
          (show p = u ++ packSet s ++ packSets sets ++ t by rw [hsplit, List.append_assoc _ _ t]) hoff
          (by rw [hlen, hoff]; omega) (by omega)
        have hfit' : (u ++ packSets sets ++ (stale ++ t)).length < 2 ^ 32 := by
          have := congrArg List.length hsplit
          simp only [List.length_append] at this ⊢
          omega
        obtain ⟨t', r', hrest, hr, ht⟩ := ih (r := r + 1) (i := i)
          (m := m - (hashDataSize * s.countP marked + 4)) rfl hoff hs' hne' hfit'
          (by rw [hall]; omega) rfl
        refine ⟨t', r', ?_, ?_, ?_⟩
        · rw [if_pos hall, hmove, hrest, hgone]
        · rw [hgone, hr]
          omega
        · rw [hgone, ht, packSets_cons, List.length_append, List.length_append, hstale]
          omega
      · -- Some identities go.
        have hsome : keptIds s ≠ [] := fun h => hall (by rw [h, List.length_nil] at hkept; omega)
        have hstay : keptSets (s :: sets) = keptIds s :: keptSets sets := by
          rw [keptSets, List.map_cons, List.filter_cons_of_pos]
          · rfl
          · cases h : keptIds s with
            | nil => exact absurd h hsome
            | cons x l => rfl
        have hcut : s.length - s.countP marked = (keptIds s).length := by omega
        have hcopy := copyAt_mid (p := p) (u := u) (w := dword s.length)
          (v := s.flatten ++ (packSets sets ++ t))
          (by rw [hinner]; simp only [List.append_assoc]) hoff
          (show (dword (keptIds s).length).length = (dword s.length).length by
            rw [length_dword, length_dword])
        obtain ⟨t₁, hremove, ht₁⟩ := removeDeleted_spec (v := packSets sets) (t := t)
          (p := u ++ dword (keptIds s).length ++ (s.flatten ++ (packSets sets ++ t)))
          (u := u ++ dword (keptIds s).length) (d := i + 4) (m := m)
          (by simp only [List.append_assoc]) (by rw [List.length_append, length_dword, hoff]) hids
          (by
            rw [List.length_append, length_dword, length_flatten_of_sized hids]
            omega)
          rfl rfl
        have hsplit' := congrArg List.length hinner
        have hkeptlen := length_flatten_of_sized hids.kept
        have hbytes : hashDataSize * (keptIds s).length + hashDataSize * s.countP marked =
            hashDataSize * s.length := by rw [← Nat.mul_add, hkept]
        simp only [List.length_append, length_dword, length_flatten_of_sized hids] at hsplit'
        obtain ⟨t', r', hrest, hr, ht⟩ := ih (r := r) (u := u ++ packSet (keptIds s)) (t := t₁)
          (p := u ++ dword (keptIds s).length ++ (keptIds s).flatten ++ packSets sets ++ t₁)
          (i := i + 4 + hashDataSize * (s.length - s.countP marked))
          (m := m - hashDataSize * s.countP marked)
          (by rw [packSet]; simp only [List.append_assoc])
          (by rw [List.length_append, length_packSet hids.kept, hoff, hcut]; omega) hs' hne'
          (by simp only [List.length_append, length_dword, hkeptlen]; omega)
          (by rw [List.length_append, length_packSet hids.kept]; omega) rfl
        rw [hcut] at hrest
        refine ⟨t', r', ?_, ?_, ?_⟩
        · rw [if_neg hall, hcut, hcopy, hremove, hrest, hstay, packSets_cons]
          simp only [List.length_append, List.append_assoc, Nat.add_assoc]
        · rw [hstay, List.length_cons]
          omega
        · rw [hstay, packSets_cons, packSets_cons, List.length_append, List.length_append,
            length_packSet hids.kept, hlen]
          omega
    · -- Nothing goes.
      have hzero : s.countP marked = 0 := not_not.mp hany
      have hstay : keptSets (s :: sets) = s :: keptSets sets := by
        rw [keptSets, List.map_cons, keptIds_eq_self hzero, List.filter_cons_of_pos]
        · rfl
        · cases h : s with
          | nil => exact absurd h (hne s List.mem_cons_self)
          | cons x l => rfl
      obtain ⟨t', r', hrest, hr, ht⟩ := ih (r := r) (u := u ++ packSet s)
        (i := i + (hashDataSize * s.length + 4)) (m := m) (t := t) (p := p)
        (by rw [hsplit]; simp only [List.append_assoc])
        (by rw [List.length_append, hlen, hoff]; omega) hs' hne' hfit
        (by rw [List.length_append, hlen]; omega) rfl
      refine ⟨t', r', ?_, ?_, ?_⟩
      · rw [if_neg hany, hrest, hstay, packSets_cons]
        simp only [List.length_append, List.append_assoc, Nat.add_assoc]
      · rw [hstay, List.length_cons]
        omega
      · rw [hstay, packSets_cons, packSets_cons, List.length_append, List.length_append]
        omega

theorem saiCoalesceDeletedEntries_spec (hs : SizedSets sets) (hne : ∀ s ∈ sets, s ≠ [])
    (hfit : (packSai usn sets).length < 2 ^ 32) :
    saiCoalesceDeletedEntries fresh (packSai usn sets) = .ok (packSai usn (keptSets sets)) := by
  have hlen := length_packSai usn sets
  by_cases hempty : sets = []
  · subst hempty
    rfl
  · have hsets := length_le_packSets sets
    have hpos := List.length_pos_of_ne_nil hempty
    have hne' : ¬(packSai usn sets).length ≤ saiHeaderSize := by
      show ¬_ ≤ 8
      omega
    obtain ⟨t, r, hrun, hr, ht⟩ := coalesceSets_spec (p := packSai usn sets) (t := []) (r := 0)
      (u := header usn sets.length) (by rw [packSai, List.append_nil]) rfl hs hne hfit rfl rfl
    have hcount : sets.length - r = (keptSets sets).length := by omega
    rw [length_header] at hrun
    unfold saiCoalesceDeletedEntries
    rw [if_neg hne', getDword_packSai hfit]
    dsimp only
    rw [hlen, show saiHeaderSize = 8 from rfl, hrun]
    dsimp only [bind, Except.bind, pure, Except.pure]
    rw [List.append_assoc, copyAt_header, hcount]
    congr 1
    split_ifs with hchanged
    · refine resize_shrink (u := packSai usn (keptSets sets)) (v := t) ?_ (length_packSai usn _).symm
      rw [packSai, List.append_assoc]
    · rw [List.length_nil] at ht
      have hnil := List.eq_nil_of_length_eq_zero (l := t) (by omega)
      rw [hnil, List.append_nil, packSai]

end NtAdmin.Sched
