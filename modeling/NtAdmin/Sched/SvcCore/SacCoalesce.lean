import NtAdmin.Sched.SvcCore.SacSpec

/-! The removal of marked credentials from the SAC. -/
namespace NtAdmin.Sched
open Lib

/-- An identity that is marked for removal. -/
def marked (id : Bytes) : Bool := deletedEntry id 0

theorem deletedEntry_mid {p u w v : Bytes} {off : ℕ} (hp : p = u ++ w ++ v) (hoff : off = u.length)
    (hw : w.length = hashDataSize) : deletedEntry p off = marked w := by
  have hslice : sliceAt p off deletedEntryMarkerSize = sliceAt w 0 deletedEntryMarkerSize := by
    refine sliceAt_mid (v := w.drop deletedEntryMarkerSize ++ v) ?_ hoff ?_
    · rw [hp, sliceAt, List.drop_zero, List.append_assoc, List.append_assoc,
        ← List.append_assoc (w.take _), List.take_append_drop]
    · rw [sliceAt, List.length_take, List.drop_zero, hw]
      rfl
  rw [marked, deletedEntry, deletedEntry, hslice]

/-- The credentials that stay. -/
def keptCredentials (cs : List Credential) : List Credential := cs.filter (! marked ·.identity)

variable {fresh : ℕ → UInt8} {usn : UInt8} {cs ds : List Credential} {c : Credential}

theorem skipDeleted_marked {p u v : Bytes} {pb pbEnd n b r s : ℕ}
    (hp : p = u ++ packCredential c ++ v) (hoff : pb = u.length)
    (hc : c.identity.length = hashDataSize) (hfit : p.length < 2 ^ 32)
    (hend : pb + (packCredential c).length ≤ pbEnd) (hm : marked c.identity = true) :
    skipDeleted p pbEnd (n + 1) pb pb b r s =
      skipDeleted p pbEnd n (pb + (packCredential c).length) (pb + (packCredential c).length)
        (b + (packCredential c).length) (r + 1) (hashDataSize + c.data.length) := by
  have hlen := length_packCredential hc
  obtain ⟨hsize, -, -⟩ := credential_at hp hoff hc hfit
  have hdeleted : deletedEntry p (pb + 4) = true := by
    rw [← hm]
    refine deletedEntry_mid (u := u ++ dword (hashDataSize + c.data.length)) (v := c.data ++ v) ?_ ?_
      hc
    · rw [hp, packCredential]
      simp only [List.append_assoc]
    · rw [hoff, List.length_append, length_dword]
  have hgo : pb < pbEnd := by omega
  have hbogus : ¬(hashDataSize + c.data.length < deletedEntryMarkerSize ∨
      pbEnd < pb + 4 + deletedEntryMarkerSize) := by
    unfold deletedEntryMarkerSize hashDataSize at *
    omega
  rw [skipDeleted, if_pos hgo]
  dsimp only
  rw [hsize, if_neg hbogus, if_pos hdeleted, Nat.add_assoc pb, hlen]

theorem skipDeleted_kept {p u v : Bytes} {pb pbEnd n b r s : ℕ}
    (hp : p = u ++ packCredential c ++ v) (hoff : pb = u.length)
    (hc : c.identity.length = hashDataSize) (hfit : p.length < 2 ^ 32)
    (hend : pb + (packCredential c).length ≤ pbEnd) (hm : marked c.identity = false) :
    skipDeleted p pbEnd (n + 1) pb pb b r s =
      .ok ⟨n + 1, pb + (packCredential c).length, pb, b, r, hashDataSize + c.data.length⟩ := by
  have hlen := length_packCredential hc
  obtain ⟨hsize, -, -⟩ := credential_at hp hoff hc hfit
  have hdeleted : ¬deletedEntry p (pb + 4) = true := by
    rw [deletedEntry_mid (u := u ++ dword (hashDataSize + c.data.length)) (v := c.data ++ v) ?_ ?_
      hc, hm]
    · exact Bool.false_ne_true
    · rw [hp, packCredential]
      simp only [List.append_assoc]
    · rw [hoff, List.length_append, length_dword]
  have hgo : pb < pbEnd := by omega
  have hbogus : ¬(hashDataSize + c.data.length < deletedEntryMarkerSize ∨
      pbEnd < pb + 4 + deletedEntryMarkerSize) := by
    unfold deletedEntryMarkerSize hashDataSize at *
    omega
  rw [skipDeleted, if_pos hgo]
  dsimp only
  rw [hsize, if_neg hbogus, if_neg hdeleted, Nat.add_assoc pb, hlen]
  rfl

/-- The inner loop passes marked credentials. -/
theorem skipDeleted_append {p u v : Bytes} {pb pbEnd n b r s : ℕ}
    (hp : p = u ++ packCredentials ds ++ v) (hoff : pb = u.length) (hs : SizedCredentials ds)
    (hfit : p.length < 2 ^ 32) (hend : pb + (packCredentials ds).length ≤ pbEnd)
    (hm : ∀ d ∈ ds, marked d.identity = true) :
    ∃ size', skipDeleted p pbEnd (ds.length + n) pb pb b r s =
      skipDeleted p pbEnd n (pb + (packCredentials ds).length) (pb + (packCredentials ds).length)
        (b + (packCredentials ds).length) (r + ds.length) size' := by
  induction ds generalizing u pb b r s with
  | nil =>
    refine ⟨s, ?_⟩
    rw [packCredentials_nil, List.length_nil, Nat.zero_add]
    rfl
  | cons d ds ih =>
    have hsplit : p = u ++ packCredential d ++ (packCredentials ds ++ v) := by
      rw [hp, packCredentials_cons]
      simp only [List.append_assoc]
    rw [packCredentials_cons, List.length_append] at hend
    have hd := hs d List.mem_cons_self
    have hroom : pb + (packCredential d).length ≤ pbEnd := by omega
    have hskip := skipDeleted_marked (n := ds.length + n) (b := b) (r := r) (s := s) hsplit hoff hd hfit hroom
      (hm d List.mem_cons_self)
    obtain ⟨size', hnext⟩ := @ih (u ++ packCredential d) (pb + (packCredential d).length)
      (b + (packCredential d).length) (r + 1) (hashDataSize + d.data.length)
      (by rw [hsplit]; simp only [List.append_assoc]) (by rw [List.length_append, hoff])
      (fun e he => hs e (List.mem_cons_of_mem d he)) (by omega)
      fun e he => hm e (List.mem_cons_of_mem d he)
    refine ⟨size', ?_⟩
    rw [List.length_cons, Nat.succ_add, hskip, hnext, packCredentials_cons, List.length_append]
    simp only [Nat.add_assoc, Nat.add_comm 1]

/-- The marked credentials at the front of an array, and what is behind them. -/
theorem marked_split (cs : List Credential) :
    ∃ ds rest, cs = ds ++ rest ∧ (∀ d ∈ ds, marked d.identity = true) ∧
      (rest = [] ∨ ∃ k rest', rest = k :: rest' ∧ marked k.identity = false) := by
  induction cs with
  | nil => exact ⟨[], [], rfl, fun d hd => absurd hd List.not_mem_nil, Or.inl rfl⟩
  | cons c cs ih =>
    cases hc : marked c.identity with
    | false =>
      exact ⟨[], c :: cs, rfl, fun d hd => absurd hd List.not_mem_nil, Or.inr ⟨c, cs, rfl, hc⟩⟩
    | true =>
      obtain ⟨ds, rest, rfl, hds, hrest⟩ := ih
      refine ⟨c :: ds, rest, rfl, fun d hd => ?_, hrest⟩
      cases List.mem_cons.mp hd with
      | inl h => rw [h, hc]
      | inr h => exact hds d h

theorem keptCredentials_append_marked (hm : ∀ d ∈ ds, marked d.identity = true)
    (rest : List Credential) : keptCredentials (ds ++ rest) = keptCredentials rest := by
  have hnone : ds.filter (! marked ·.identity) = [] :=
    List.filter_eq_nil_iff.mpr fun d hd => by rw [hm d hd]; decide
  rw [keptCredentials, List.filter_append, hnone]
  rfl

theorem coalesceCredentials_nothing_left (fuel pb pbEnd r : ℕ) (p : Bytes) :
    coalesceCredentials fuel 0 pb pbEnd r p = .ok (p, pbEnd, r) := by
  cases fuel with
  | zero => rfl
  | succ fuel =>
    have hstop : ¬(0 < 0 ∧ pb < pbEnd) := fun h => Nat.lt_irrefl 0 h.1
    rw [coalesceCredentials, if_neg hstop]
    rfl

theorem length_packCredentials_pos (h : cs ≠ []) : 4 ≤ (packCredentials cs).length := by
  obtain ⟨c, cs, rfl⟩ := List.exists_cons_of_ne_nil h
  rw [packCredentials_cons, List.length_append, packCredential, List.length_append, length_dword]
  omega

theorem coalesceCredentials_spec {p u t : Bytes} {fuel left pb pbEnd r : ℕ}
    (hp : p = u ++ packCredentials cs ++ t) (hoff : pb = u.length) (hs : SizedCredentials cs)
    (hfit : p.length < 2 ^ 32) (hend : pbEnd = u.length + (packCredentials cs).length)
    (hleft : left = cs.length) (hfuel : cs.length ≤ fuel) :
    ∃ t' r', coalesceCredentials fuel left pb pbEnd r p =
        .ok (u ++ packCredentials (keptCredentials cs) ++ t',
          u.length + (packCredentials (keptCredentials cs)).length, r') ∧
      r' + (keptCredentials cs).length = r + cs.length ∧
      (packCredentials (keptCredentials cs)).length + t'.length =
        (packCredentials cs).length + t.length := by
  induction fuel generalizing cs u t p left pb pbEnd r with
  | zero =>
    obtain rfl := List.eq_nil_of_length_eq_zero (Nat.le_zero.mp hfuel)
    refine ⟨t, r, ?_, rfl, rfl⟩
    rw [coalesceCredentials, hp, hend]
    rfl
  | succ fuel ih =>
    by_cases hne : cs = []
    · subst hne
      refine ⟨t, r, ?_, rfl, rfl⟩
      rw [hleft, List.length_nil, coalesceCredentials_nothing_left, hp, hend]
      rfl
    · have hlen := length_packCredentials_pos hne
      have hgo : 0 < left ∧ pb < pbEnd := by
        have := List.length_pos_of_ne_nil hne
        omega
      have hroom : ¬pbEnd < pb + 4 := by omega
      obtain ⟨ds, rest, rfl, hds, hrest⟩ := marked_split cs
      have hsplit : p = u ++ packCredentials ds ++ (packCredentials rest ++ t) := by
        rw [hp, packCredentials_append]
        simp only [List.append_assoc]
      rw [packCredentials_append, List.length_append] at hend
      obtain ⟨size, hskip⟩ := skipDeleted_append (n := rest.length) (b := 0) (r := 0) (s := 0) hsplit
        hoff hs.of_append.1 hfit (show pb + (packCredentials ds).length ≤ pbEnd by omega) hds
      rw [← List.length_append, ← hleft] at hskip
      rw [coalesceCredentials, if_pos hgo, if_neg hroom, hskip, keptCredentials_append_marked hds]
      obtain ⟨stale, hstale, hmove⟩ := moveWithin_down (d := pb)
        (s := pb + (packCredentials ds).length) (n := pbEnd - (pb + (packCredentials ds).length))
        (show p = u ++ packCredentials ds ++ packCredentials rest ++ t by
          rw [hsplit, List.append_assoc _ _ t]) hoff (by rw [hoff]) (by omega)
      cases hrest with
      | inl hnil =>
        subst hnil
        have hds0 : 4 ≤ (packCredentials ds).length := length_packCredentials_pos fun h =>
          hne (by rw [h]; rfl)
        have hdiff : pb ≠ pb + (packCredentials ds).length := by omega
        refine ⟨stale ++ t, r + ds.length, ?_, ?_, ?_⟩
        · have hcut : pbEnd - (0 + (packCredentials ds).length) = u.length + 0 := by
            rw [packCredentials_nil, List.length_nil] at hend
            omega
          rw [List.length_nil, skipDeleted]
          dsimp only [bind, Except.bind, pure, Except.pure]
          rw [if_pos hdiff, hmove, coalesceCredentials_nothing_left, hcut, Nat.zero_add]
          rfl
        · rw [List.length_append]
          rfl
        · rw [packCredentials_append, List.length_append, List.length_append, hstale]
          exact (Nat.zero_add _).trans (congrArg (· + t.length) (Nat.add_zero _).symm)
      | inr hkept =>
        obtain ⟨k, rest', rfl, hk⟩ := hkept
        have hs' := hs.of_append.2
        have hkid := hs' k List.mem_cons_self
        have hfilter : keptCredentials (k :: rest') = k :: keptCredentials rest' := by
          rw [keptCredentials, List.filter_cons_of_pos (by rw [hk]; rfl)]
          rfl
        have hklen := length_packCredential hkid
        have hpacked : (packCredentials (k :: rest')).length =
            (packCredential k).length + (packCredentials rest').length := by
          rw [packCredentials_cons, List.length_append]
        have hrest' : rest'.length ≤ fuel := by
          rw [List.length_append, List.length_cons] at hfuel
          omega
        have hstop := skipDeleted_kept (n := rest'.length) (b := 0 + (packCredentials ds).length)
          (r := 0 + ds.length) (s := size) (show p = u ++ packCredentials ds ++ packCredential k ++
            (packCredentials rest' ++ t) by
              rw [hsplit, packCredentials_cons]; simp only [List.append_assoc])
          (show pb + (packCredentials ds).length = _ by rw [List.length_append, hoff]) hkid hfit
          (show _ ≤ pbEnd by omega) hk
        rw [List.length_cons, hstop]
        dsimp only [bind, Except.bind]
        by_cases hds0 : ds = []
        · subst hds0
          have hsame : ¬pb ≠ pb + (packCredentials []).length := not_not_intro rfl
          rw [if_neg hsame]
          obtain ⟨t', r', hih, hcount, hsize⟩ := @ih rest' p (u ++ packCredential k) t rest'.length
            (pb + 0 + (packCredential k).length) pbEnd (r + (0 + 0))
            (by rw [hp]; simp only [List.nil_append, packCredentials_cons, List.append_assoc])
            (by rw [List.length_append, hoff, Nat.add_zero])
            (fun e he => hs' e (List.mem_cons_of_mem k he)) hfit
            (by
              rw [packCredentials_nil, List.length_nil] at hend
              rw [List.length_append]
              omega)
            rfl hrest'
          refine ⟨t', r', ?_, ?_, ?_⟩
          · rw [Nat.add_sub_cancel]
            refine hih.trans ?_
            rw [hfilter, packCredentials_cons]
            simp only [List.length_append, List.append_assoc, Nat.add_assoc]
          · rw [hfilter, List.nil_append, List.length_cons, List.length_cons]
            omega
          · rw [hfilter, List.nil_append, packCredentials_cons, List.length_append, hpacked]
            omega
        · have hlen := length_packCredentials_pos hds0
          have hdiff : pb ≠ pb + (packCredentials ds).length := by omega
          have hfit' : (u ++ packCredentials (k :: rest') ++ (stale ++ t)).length < 2 ^ 32 := by
            have := congrArg List.length hsplit
            simp only [List.length_append] at this ⊢
            omega
          rw [if_pos hdiff, hmove]
          obtain ⟨t', r', hih, hcount, hsize⟩ := @ih rest' (u ++ packCredentials (k :: rest') ++ (stale ++ t))
            (u ++ packCredential k) (stale ++ t) rest'.length
            (pb + 4 + (hashDataSize + k.data.length)) (pbEnd - (0 + (packCredentials ds).length))
            (r + (0 + ds.length))
            (by simp only [packCredentials_cons, List.append_assoc])
            (by rw [List.length_append, hoff, hklen]; omega)
            (fun e he => hs' e (List.mem_cons_of_mem k he)) hfit'
            (by
              rw [List.length_append]
              omega)
            rfl hrest'
          refine ⟨t', r', ?_, ?_, ?_⟩
          · rw [Nat.add_sub_cancel]
            refine hih.trans ?_
            rw [hfilter, packCredentials_cons]
            simp only [List.length_append, List.append_assoc, Nat.add_assoc]
          · rw [hfilter, List.length_append, List.length_cons, List.length_cons]
            omega
          · rw [List.length_append, hstale] at hsize
            rw [hfilter, packCredentials_cons, packCredentials_append, List.length_append,
              List.length_append, hpacked]
            omega

theorem sacCoalesceDeletedEntries_spec (hs : SizedCredentials cs)
    (hfit : (packSac usn cs).length < 2 ^ 32) :
    sacCoalesceDeletedEntries fresh (packSac usn cs) = .ok (packSac usn (keptCredentials cs)) := by
  have hlen := length_packSac usn cs
  by_cases hempty : cs = []
  · subst hempty
    rfl
  · have hcs := length_packCredentials_pos hempty
    have hne' : ¬(packSac usn cs).length ≤ sacHeaderSize := by
      show ¬_ ≤ 8
      omega
    obtain ⟨t, r, hrun, hr, ht⟩ := coalesceCredentials_spec (p := packSac usn cs) (t := []) (r := 0)
      (u := header usn cs.length) (by rw [packSac, List.append_nil]) rfl hs hfit rfl rfl
      (Nat.le_refl cs.length)
    have hcount : cs.length - r = (keptCredentials cs).length := by omega
    rw [length_header] at hrun
    unfold sacCoalesceDeletedEntries
    rw [if_neg hne', getDword_packSac hfit]
    dsimp only
    rw [hlen, show sacHeaderSize = 8 from rfl, hrun]
    dsimp only [bind, Except.bind, pure, Except.pure]
    rw [List.append_assoc, copyAt_header, hcount]
    congr 1
    split_ifs with hchanged
    · refine resize_shrink (u := packSac usn (keptCredentials cs)) (v := t) ?_
        (length_packSac usn _).symm
      rw [packSac, List.append_assoc]
    · rw [List.length_nil] at ht
      have hnil := List.eq_nil_of_length_eq_zero (l := t) (by omega)
      rw [hnil, List.append_nil, packSac]

end NtAdmin.Sched
