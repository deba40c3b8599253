import NtAdmin.Sched.SvcCore.SecurityEntries

/-! Scavenging takes exactly the identities of jobs that no longer exist out of the databases. -/
namespace NtAdmin.Sched
open Lib

/-- The identity of a job that exists. -/
def survives (identities : List Bytes) (x : Bytes) : Bool := identities.any (sameIdentity x ·)

def survivors (identities : List Bytes) (e : Entry) : Entry :=
  { e with ids := e.ids.filter (survives identities) }

/-- The entries without the identities of jobs that do not exist, and without those that are left
empty. -/
def scavenged (identities : List Bytes) (es : List Entry) : List Entry :=
  (es.map (survivors identities)).filter (! ·.ids.isEmpty)

/-- The pointers to the identities of a set, `NULL` for those that stay. -/
def idPtrs (keep : Bytes → Bool) : List Bytes → ℕ → List (Option ℕ)
  | [], _ => []
  | x :: ids, pb => (if keep x then none else some pb) :: idPtrs keep ids (pb + hashDataSize)

def setPtrs (keep : Bytes → Bool) : List (List Bytes) → ℕ → List (List (Option ℕ))
  | [], _ => []
  | s :: sets, pb =>
    idPtrs keep s (pb + 4) :: setPtrs keep sets (pb + 4 + hashDataSize * s.length)

variable {fresh : ℕ → UInt8} {usn : UInt8} {keep keep' : Bytes → Bool} {ids pre post : List Bytes}
  {sets b a : List (List Bytes)} {x id : Bytes} {es : List Entry} {identities : List Bytes}

theorem length_idPtrs (keep : Bytes → Bool) (ids : List Bytes) (pb : ℕ) :
    (idPtrs keep ids pb).length = ids.length := by
  induction ids generalizing pb with
  | nil => rfl
  | cons x ids ih => rw [idPtrs, List.length_cons, ih, List.length_cons]

theorem idPtrs_append (keep : Bytes → Bool) (pre post : List Bytes) (pb : ℕ) :
    idPtrs keep (pre ++ post) pb =
      idPtrs keep pre pb ++ idPtrs keep post (pb + hashDataSize * pre.length) := by
  induction pre generalizing pb with
  | nil => rfl
  | cons x pre ih =>
    rw [List.cons_append, idPtrs, ih, idPtrs, List.length_cons, Nat.mul_succ, Nat.add_assoc,
      Nat.add_comm hashDataSize]
    rfl

theorem setPtrs_append (hs : SizedSets b) (pb : ℕ) :
    setPtrs keep (b ++ a) pb = setPtrs keep b pb ++ setPtrs keep a (pb + (packSets b).length) := by
  induction b generalizing pb with
  | nil => rfl
  | cons s b ih =>
    have hlen := length_packSet (hs s List.mem_cons_self)
    rw [List.cons_append, setPtrs, ih fun t ht => hs t (List.mem_cons_of_mem s ht), setPtrs,
      packSets_cons, List.length_append, hlen]
    simp only [List.cons_append, Nat.add_assoc]

theorem idPtrs_congr (h : ∀ x ∈ ids, keep x = keep' x) (pb : ℕ) :
    idPtrs keep ids pb = idPtrs keep' ids pb := by
  induction ids generalizing pb with
  | nil => rfl
  | cons x ids ih =>
    rw [idPtrs, idPtrs, h x List.mem_cons_self, ih fun y hy => h y (List.mem_cons_of_mem x hy)]

theorem setPtrs_congr (h : ∀ s ∈ sets, ∀ x ∈ s, keep x = keep' x) (pb : ℕ) :
    setPtrs keep sets pb = setPtrs keep' sets pb := by
  induction sets generalizing pb with
  | nil => rfl
  | cons s sets ih =>
    rw [setPtrs, setPtrs, idPtrs_congr (h s List.mem_cons_self),
      ih fun t ht => h t (List.mem_cons_of_mem s ht)]

/-- A pointer to another place changes nothing. -/
theorem map_clearPtr_idPtrs {p pb : ℕ} (h : p < pb ∨ pb + hashDataSize * ids.length ≤ p) :
    (idPtrs keep ids pb).map (clearPtr p) = idPtrs keep ids pb := by
  induction ids generalizing pb with
  | nil => rfl
  | cons x ids ih =>
    rw [List.length_cons, Nat.mul_succ] at h
    have hp : pb ≠ p := by
      unfold hashDataSize at h
      omega
    have hhead : clearPtr p (if keep x then none else some pb) =
        if keep x then none else some pb := by
      cases keep x with
      | true => rfl
      | false => exact if_neg fun h => hp (Option.some.inj h)
    rw [idPtrs, List.map_cons, hhead, ih (by omega)]

theorem map_clearPtr_setPtrs {p pb : ℕ} (hs : SizedSets sets)
    (h : p < pb ∨ pb + (packSets sets).length ≤ p) :
    (setPtrs keep sets pb).map (List.map (clearPtr p)) = setPtrs keep sets pb := by
  induction sets generalizing pb with
  | nil => rfl
  | cons s sets ih =>
    have hlen := length_packSet (hs s List.mem_cons_self)
    rw [packSets_cons, List.length_append, hlen] at h
    rw [setPtrs, List.map_cons, map_clearPtr_idPtrs (by omega),
      ih (fun t ht => hs t (List.mem_cons_of_mem s ht)) (by omega)]

/-- The pointer to an identity that is found is cleared. -/
theorem clear_found (hs : SizedSets (b ++ (pre ++ x :: post) :: a)) (hkeep : keep' x = true)
    (hb : ∀ s ∈ b, ∀ y ∈ s, keep y = keep' y) (ha : ∀ s ∈ a, ∀ y ∈ s, keep y = keep' y)
    (hpre : ∀ y ∈ pre, keep y = keep' y) (hpost : ∀ y ∈ post, keep y = keep' y) :
    (setPtrs keep (b ++ (pre ++ x :: post) :: a) 8).map
        (List.map (clearPtr (identityOffset b pre))) =
      setPtrs keep' (b ++ (pre ++ x :: post) :: a) 8 := by
  obtain ⟨hsb, hsa⟩ := hs.of_append
  have hsa' : SizedSets a := fun s h => hsa s (List.mem_cons_of_mem _ h)
  have hoff : identityOffset b pre = 8 + (packSets b).length + 4 + hashDataSize * pre.length := rfl
  have hhead : clearPtr (identityOffset b pre)
      (if keep x then none else some (identityOffset b pre)) = none := by
    cases keep x with
    | true => rfl
    | false => exact if_pos rfl
  have hset : (idPtrs keep (pre ++ x :: post) (8 + (packSets b).length + 4)).map
      (clearPtr (identityOffset b pre)) =
        idPtrs keep' (pre ++ x :: post) (8 + (packSets b).length + 4) := by
    rw [idPtrs_append, idPtrs_append, List.map_append,
      map_clearPtr_idPtrs (Or.inr (Nat.le_of_eq hoff.symm)), idPtrs_congr hpre, idPtrs, idPtrs,
      ← hoff, List.map_cons, hhead, hkeep, if_pos rfl,
      map_clearPtr_idPtrs (Or.inl (by unfold hashDataSize; omega)), idPtrs_congr hpost]
  have hlen : (pre ++ x :: post).length = pre.length + (post.length + 1) := by
    rw [List.length_append, List.length_cons]
  rw [setPtrs_append hsb, setPtrs_append hsb, List.map_append,
    map_clearPtr_setPtrs hsb (Or.inr (by omega)), setPtrs_congr hb, setPtrs, setPtrs,
    List.map_cons, hset, map_clearPtr_setPtrs hsa' (Or.inl (by
      rw [hlen, Nat.mul_add]
      unfold hashDataSize at hoff ⊢
      omega)), setPtrs_congr ha]

/-- The pointers are taken of every identity. -/
theorem identityPtrs_spec {pbSAIEnd pb : ℕ} (h : pb + hashDataSize * ids.length ≤ pbSAIEnd) :
    identityPtrs pbSAIEnd ids.length pb =
      .ok (idPtrs (fun _ => false) ids pb, pb + hashDataSize * ids.length) := by
  induction ids generalizing pb with
  | nil => rfl
  | cons x ids ih =>
    rw [List.length_cons, Nat.mul_succ] at h
    have hroom : ¬pbSAIEnd < pb + hashDataSize := by omega
    rw [List.length_cons, identityPtrs, if_neg hroom, ih (by omega), Nat.mul_succ, idPtrs]
    dsimp only [bind, Except.bind, pure, Except.pure]
    rw [if_neg Bool.false_ne_true, Nat.add_assoc, Nat.add_comm hashDataSize]

theorem identitySets_spec {pbSAI u : Bytes} {n pb : ℕ} (hp : pbSAI = u ++ packSets sets)
    (hoff : pb = u.length) (hs : SizedSets sets) (hfit : pbSAI.length < 2 ^ 32)
    (hn : n = sets.length) :
    identitySets pbSAI n pb = .ok (setPtrs (fun _ => false) sets pb) := by
  induction sets generalizing u pb n with
  | nil =>
    subst hn
    rfl
  | cons s sets ih =>
    have hids := hs s List.mem_cons_self
    have hsplit : pbSAI = u ++ packSet s ++ packSets sets := by
      rw [hp, packSets_cons, List.append_assoc]
    obtain ⟨hcount, htotal⟩ := set_at hsplit hoff hids hfit
    have hroom : ¬pbSAI.length < pb + 4 := by omega
    have hptrs : identityPtrs pbSAI.length s.length (pb + 4) =
        .ok (idPtrs (fun _ => false) s (pb + 4), pb + 4 + hashDataSize * s.length) :=
      identityPtrs_spec (by omega)
    have hnext : pb + 4 + hashDataSize * s.length = (u ++ packSet s).length := by
      rw [List.length_append, length_packSet hids, hoff, Nat.add_assoc]
    have hrest := ih hsplit hnext (fun t ht => hs t (List.mem_cons_of_mem s ht)) rfl
    rw [hn, List.length_cons, identitySets, if_neg hroom, hcount, hptrs]
    dsimp only [bind, Except.bind]
    rw [hrest]
    rfl

/-- The pointers to the identities of the jobs that exist are cleared. -/
theorem clearExisting_spec (h : WellFormed es) (hfit : (packSai usn (idSets es)).length < 2 ^ 32) :
    clearExisting (packSai usn (idSets es)) identities (setPtrs keep (idSets es) 8) =
      .ok (setPtrs (fun x => keep x || survives identities x) (idSets es) 8) := by
  induction identities generalizing keep with
  | nil =>
    rw [clearExisting]
    exact congrArg Except.ok (setPtrs_congr (fun s hs x hx => (Bool.or_false _).symm) 8)
  | cons id identities ih =>
    have hstep : (fun x => (keep x || sameIdentity x id) || survives identities x) =
        fun x => keep x || survives (id :: identities) x :=
      funext fun x => Bool.or_assoc _ _ _
    have hother {y : Bytes} (hy : sameIdentity y id = false) :
        keep y = (keep y || sameIdentity y id) := by rw [hy, Bool.or_false]
    rcases entries_split es id with hnone | ⟨b, e, a, pre, x, post, hes, hids, hsame, hne, hpre⟩
    · have hfind := saiFindIdentity_none h.sizedSets hfit hnone
      have hkeep := setPtrs_congr (fun s hs x hx => hother (hnone s hs x hx)) 8
      rw [clearExisting, hfind]
      dsimp only [bind, Except.bind]
      rw [hkeep, ih, hstep]
    · obtain ⟨c, ids⟩ := e
      dsimp only at hids
      subst hids hes
      have hsets := h.sizedSets
      obtain ⟨-, hset, hbehind⟩ := h.other_keys
      have hkey := sameIdentity_iff.mp hsame
      have hdiffer {y : Bytes} (hy : idKey y ≠ idKey x) : sameIdentity y id = false :=
        sameIdentity_eq_false_iff.mpr fun heq => hy (heq.trans hkey.symm)
      rw [idSets_append, idSets_cons] at hsets hfit
      have hfind := saiFindIdentity_some hsets hfit hne hpre hsame
      have hclear := clear_found hsets
        (show (fun y => keep y || sameIdentity y id) x = true by
          dsimp only
          rw [hsame, Bool.or_true]) (fun s hs y hy => hother (hne s hs y hy))
        (fun s hs y hy => by
          obtain ⟨e, he, rfl⟩ := List.mem_map.mp hs
          exact hother (hdiffer (hbehind y (List.mem_flatMap.mpr ⟨e, he, hy⟩))))
        (fun y hy => hother (hpre y hy))
        (fun y hy => hother (hdiffer (hset y (List.mem_append_right pre hy))))
      have hrest := @ih fun y => keep y || sameIdentity y id
      rw [idSets_append, idSets_cons] at hrest ⊢
      rw [clearExisting, hfind]
      dsimp only [bind, Except.bind, foundAt]
      rw [hclear, hrest, hstep]

/-- An identity with the marker at its start. -/
def markId (x : Bytes) : Bytes := markDeletedEntry x 0

def markStale (keep : Bytes → Bool) (x : Bytes) : Bytes := if keep x then x else markId x

def markOwner (c : Credential) : Credential := { c with identity := markId c.identity }

/-- What the marking makes of an entry. -/
def markEntry (keep : Bytes → Bool) (e : Entry) : Entry where
  credential := if e.ids.any keep then e.credential else markOwner e.credential
  ids := e.ids.map (markStale keep)

theorem markDeletedEntry_mid {p u v : Bytes} {off : ℕ} (hp : p = u ++ x ++ v) (hoff : off = u.length)
    (hx : x.length = hashDataSize) : markDeletedEntry p off = u ++ markId x ++ v := by
  have hsplit : x = x.take 13 ++ x.drop 13 := (List.take_append_drop 13 x).symm
  have htake : (x.take 13).length = 13 := by
    rw [List.length_take, hx]
    rfl
  have hmark : markId x = deletedEntryMarker ++ x.drop 13 := rfl
  have hcut : p = u ++ x.take 13 ++ (x.drop 13 ++ v) := by
    rw [hp]
    nth_rewrite 1 [hsplit]
    simp only [List.append_assoc]
  have hcopy : copyAt p off deletedEntryMarker = u ++ deletedEntryMarker ++ (x.drop 13 ++ v) :=
    copyAt_mid hcut hoff htake.symm
  rw [markDeletedEntry, hcopy, hmark]
  simp only [List.append_assoc]

theorem length_markId (hx : x.length = hashDataSize) : (markId x).length = hashDataSize := by
  have hmark : markId x = deletedEntryMarker ++ x.drop 13 := rfl
  rw [hmark, List.length_append, List.length_drop, hx]
  rfl

theorem marked_markId (x : Bytes) : marked (markId x) = true := by
  have hmark : markId x = deletedEntryMarker ++ x.drop 13 := rfl
  rw [marked, deletedEntry, hmark, sliceAt, List.drop_zero]
  exact beq_iff_eq.mpr (List.take_left' rfl)

theorem length_markStale (hx : x.length = hashDataSize) :
    (markStale keep x).length = hashDataSize := by
  unfold markStale
  split_ifs
  · exact hx
  · exact length_markId hx

theorem SizedIds.markStale (hs : SizedIds ids) : SizedIds (ids.map (markStale keep)) := by
  intro y hy
  obtain ⟨x, hx, rfl⟩ := List.mem_map.mp hy
  exact length_markStale (hs x hx)

/-- The credential of a set is marked. -/
theorem markCredential_spec {b a : List Credential} {c : Credential}
    (hs : SizedCredentials (b ++ c :: a)) (hfit : (packSac usn (b ++ c :: a)).length < 2 ^ 32) :
    markCredential b.length (packSac usn (b ++ c :: a)) =
      .ok (packSac usn (b ++ markOwner c :: a)) := by
  have hc := hs c (List.mem_append_right b List.mem_cons_self)
  have hpack (d : Credential) : packSac usn (b ++ d :: a) =
      header usn (b ++ c :: a).length ++ packCredentials b ++
        dword (hashDataSize + d.data.length) ++ d.identity ++ (d.data ++ packCredentials a) := by
    rw [packSac_mid]
    simp only [List.length_append, List.length_cons, List.append_assoc]
  have hoff : credentialOffset b = (header usn (b ++ c :: a).length ++ packCredentials b ++
      dword (hashDataSize + c.data.length)).length := by
    simp only [List.length_append, length_header, length_dword, credentialOffset]
  have hmark := markDeletedEntry_mid (hpack c) hoff hc
  rw [markCredential, sacIndexCredential_spec hs hfit]
  dsimp only [bind, Except.bind, pure, Except.pure]
  rw [hmark, hpack (markOwner c)]
  rfl

theorem SizedCredentials.markOwner {b a : List Credential} {c : Credential}
    (hs : SizedCredentials (b ++ c :: a)) : SizedCredentials (b ++ markOwner c :: a) := by
  intro d hd
  cases List.mem_append.mp hd with
  | inl hin => exact hs d (List.mem_append_left _ hin)
  | inr hin =>
    cases List.mem_cons.mp hin with
    | inl heq =>
      rw [heq]
      exact length_markId (hs c (List.mem_append_right b List.mem_cons_self))
    | inr hin => exact hs d (List.mem_append_right b (List.mem_cons_of_mem c hin))

theorem length_markOwner {b a : List Credential} {c : Credential}
    (hs : SizedCredentials (b ++ c :: a)) :
    (packSac usn (b ++ markOwner c :: a)).length = (packSac usn (b ++ c :: a)).length := by
  have hid : (markOwner c).identity.length = c.identity.length := by
    have hc := hs c (List.mem_append_right b List.mem_cons_self)
    rw [hc]
    exact length_markId hc
  rw [packSac_mid, packSac_mid]
  simp only [List.length_append, List.length_cons, length_header, length_dword, hid]
  rfl

/-- The identities of a set that do not stay are marked. The credential goes with the last of the
`n` identities. -/
theorem markIdentities_spec {b a : List Credential} {c : Credential} {u v pbSAI : Bytes} {n pb : ℕ}
    (hp : pbSAI = u ++ ids.flatten ++ v) (hoff : pb = u.length) (hids : SizedIds ids)
    (hs : SizedCredentials (b ++ c :: a)) (hfit : (packSac usn (b ++ c :: a)).length < 2 ^ 32)
    (hn : ids.countP (! keep ·) ≤ n) :
    markIdentities b.length (idPtrs keep ids pb) n pbSAI (packSac usn (b ++ c :: a)) =
      .ok (u ++ (ids.map (markStale keep)).flatten ++ v,
        packSac usn (b ++ (if n = ids.countP (! keep ·) ∧ 0 < n then markOwner c else c) :: a)) := by
  induction ids generalizing u pb n pbSAI c with
  | nil =>
    have hstay : ¬(n = 0 ∧ 0 < n) := by omega
    rw [List.countP_nil, if_neg hstay, hp]
    rfl
  | cons x ids ih =>
    have hx := hids x List.mem_cons_self
    have hids' : SizedIds ids := fun y hy => hids y (List.mem_cons_of_mem x hy)
    have hsplit : pbSAI = u ++ x ++ (ids.flatten ++ v) := by
      rw [hp, List.flatten_cons]
      simp only [List.append_assoc]
    rw [List.countP_cons] at hn
    rw [idPtrs, List.countP_cons, List.map_cons, List.flatten_cons, markStale]
    cases hkeep : keep x with
    | true =>
      have hrest := ih
        (show pbSAI = u ++ x ++ ids.flatten ++ v by rw [hsplit]; simp only [List.append_assoc])
        (show pb + hashDataSize = _ by rw [List.length_append, hx, hoff]) hids' hs hfit
        (show _ ≤ n by omega)
      simp only [Bool.not_true, Bool.false_eq_true, if_false, if_true, Nat.add_zero,
        markIdentities, List.append_assoc] at hrest ⊢
      exact hrest
    | false =>
      rw [hkeep, Bool.not_false, if_pos rfl] at hn
      have hmark := markDeletedEntry_mid hsplit hoff hx
      have hrest {d : Credential} (hsd : SizedCredentials (b ++ d :: a))
          (hfitd : (packSac usn (b ++ d :: a)).length < 2 ^ 32) :=
        ih (show u ++ markId x ++ (ids.flatten ++ v) = u ++ markId x ++ ids.flatten ++ v by
            simp only [List.append_assoc])
          (show pb + hashDataSize = _ by rw [List.length_append, length_markId hx, hoff]) hids' hsd
          hfitd (show _ ≤ n - 1 by omega)
      simp only [Bool.false_eq_true, if_false, Bool.not_false, if_true, markIdentities]
      by_cases hlast : n - 1 = 0
      · have hn1 : n = 1 := by omega
        have hnone : ids.countP (! keep ·) = 0 := by omega
        rw [if_pos hlast, markCredential_spec hs hfit]
        dsimp only [bind, Except.bind]
        rw [hmark, hrest hs.markOwner (by rwa [length_markOwner hs]), hn1, hnone,
          if_neg (by omega), if_pos (by omega)]
        simp only [List.append_assoc]
      · have hiff : (n = ids.countP (! keep ·) + 1 ∧ 0 < n) ↔
            n - 1 = ids.countP (! keep ·) ∧ 0 < n - 1 := by omega
        rw [if_neg hlast]
        dsimp only [bind, Except.bind, pure, Except.pure]
        rw [hmark, hrest hs hfit]
        simp only [hiff, List.append_assoc]

theorem markEntry_credential {e : Entry} (hne : e.ids ≠ []) :
    (if e.ids.length = e.ids.countP (! keep ·) ∧ 0 < e.ids.length then markOwner e.credential
      else e.credential) = (markEntry keep e).credential := by
  have hpos := List.length_pos_of_ne_nil hne
  have hall : e.ids.length = e.ids.countP (! keep ·) ↔ e.ids.any keep = false := by
    rw [eq_comm, List.countP_eq_length, List.any_eq_false]
    simp only [Bool.not_eq_true, Bool.not_eq_true']
  rw [markEntry]
  cases hany : e.ids.any keep with
  | true =>
    have hstay : ¬(e.ids.length = e.ids.countP (! keep ·) ∧ 0 < e.ids.length) :=
      fun h => Bool.noConfusion (hany.symm.trans (hall.mp h.1))
    rw [if_neg hstay, if_pos rfl]
  | false => rw [if_pos ⟨hall.mpr hany, hpos⟩, if_neg Bool.false_ne_true]

theorem markSets_spec {bs : List Credential} {u pbSAI : Bytes} {i pb : ℕ}
    (hp : pbSAI = u ++ packSets (idSets es)) (hoff : pb = u.length) (hi : i = bs.length)
    (hsets : SizedSets (idSets es)) (hs : SizedCredentials (bs ++ credentials es))
    (hfit : (packSac usn (bs ++ credentials es)).length < 2 ^ 32) (hne : ∀ e ∈ es, e.ids ≠ []) :
    markSets i (setPtrs keep (idSets es) pb) pbSAI (packSac usn (bs ++ credentials es)) =
      .ok (u ++ packSets (idSets (es.map (markEntry keep))),
        packSac usn (bs ++ credentials (es.map (markEntry keep)))) := by
  induction es generalizing bs u pbSAI i pb with
  | nil =>
    rw [hp]
    rfl
  | cons e es ih =>
    have hids : SizedIds e.ids := hsets e.ids List.mem_cons_self
    have hsplit : pbSAI = u ++ dword e.ids.length ++ e.ids.flatten ++ packSets (idSets es) := by
      rw [hp, idSets_cons, packSets_cons, packSet]
      simp only [List.append_assoc]
    have hstart : pb + 4 = (u ++ dword e.ids.length).length := by
      rw [List.length_append, length_dword, hoff]
    rw [credentials_cons] at hs hfit ⊢
    have hmark := markIdentities_spec hsplit hstart hids hs hfit
      (show e.ids.countP (! keep ·) ≤ _ from List.countP_le_length)
    rw [markEntry_credential (hne e List.mem_cons_self)] at hmark
    have hset : u ++ dword e.ids.length ++ (e.ids.map (markStale keep)).flatten ++
        packSets (idSets es) =
        u ++ packSet (markEntry keep e).ids ++ packSets (idSets es) := by
      rw [packSet, markEntry, List.length_map]
      simp only [List.append_assoc]
    have hlen : pb + 4 + hashDataSize * e.ids.length =
        (u ++ packSet (markEntry keep e).ids).length := by
      rw [List.length_append, markEntry, length_packSet hids.markStale, List.length_map, hoff,
        Nat.add_assoc]
    have hcred : (markEntry keep e).credential = e.credential ∨
        (markEntry keep e).credential = markOwner e.credential := by
      rw [markEntry]
      dsimp only
      split_ifs
      · exact Or.inl rfl
      · exact Or.inr rfl
    have hs' : SizedCredentials (bs ++ (markEntry keep e).credential :: credentials es) := by
      cases hcred with
      | inl h => rwa [h]
      | inr h =>
        rw [h]
        exact hs.markOwner
    have hfit' : (packSac usn (bs ++ (markEntry keep e).credential :: credentials es)).length <
        2 ^ 32 := by
      cases hcred with
      | inl h => rwa [h]
      | inr h => rwa [h, length_markOwner hs]
    rw [List.append_cons] at hs' hfit'
    have hrest := ih hset hlen (show i + 1 = _ by rw [List.length_append, hi]; rfl)
      (fun s hs => hsets s (List.mem_cons_of_mem e.ids hs)) hs' hfit'
      fun e' he' => hne e' (List.mem_cons_of_mem e he')
    rw [idSets_cons, setPtrs, markSets, length_idPtrs, hi, hmark]
    dsimp only [bind, Except.bind]
    rw [List.append_cons, ← hi, hrest]
    simp only [List.map_cons, idSets_cons, credentials_cons, packSets_cons, List.append_assoc,
      List.singleton_append]

/-- The marked identities of a set are those that do not stay. -/
theorem keptIds_markStale (h : ∀ x ∈ ids, marked x = false) :
    keptIds (ids.map (markStale keep)) = ids.filter keep := by
  induction ids with
  | nil => rfl
  | cons x ids ih =>
    have hrest := ih fun y hy => h y (List.mem_cons_of_mem x hy)
    rw [keptIds] at hrest ⊢
    cases hkeep : keep x with
    | true =>
      have hx := h x List.mem_cons_self
      rw [List.map_cons, List.filter_cons_of_pos hkeep, markStale, hkeep, if_pos rfl,
        List.filter_cons_of_pos (by rw [hx]; rfl), hrest]
    | false =>
      have hx : markStale keep x = markId x := if_neg (Bool.eq_false_iff.mp hkeep)
      rw [List.map_cons, List.filter_cons_of_neg (Bool.eq_false_iff.mp hkeep), hx,
        List.filter_cons_of_neg (by rw [marked_markId]; decide), hrest]

theorem keptSets_cons (s : List Bytes) (sets : List (List Bytes)) :
    keptSets (s :: sets) = if keptIds s = [] then keptSets sets else keptIds s :: keptSets sets := by
  rw [keptSets, List.map_cons, List.filter_cons]
  cases keptIds s <;> rfl

theorem keptCredentials_cons (c : Credential) (cs : List Credential) :
    keptCredentials (c :: cs) =
      if marked c.identity = true then keptCredentials cs else c :: keptCredentials cs := by
  rw [keptCredentials, List.filter_cons]
  cases marked c.identity <;> rfl

theorem scavenged_cons (identities : List Bytes) (e : Entry) (es : List Entry) :
    scavenged identities (e :: es) =
      if (survivors identities e).ids = [] then scavenged identities es
      else survivors identities e :: scavenged identities es := by
  rw [scavenged, List.map_cons, List.filter_cons]
  cases (survivors identities e).ids <;> rfl

/-- What coalescing keeps of the marked entries. -/
theorem kept_markEntry (h : WellFormed es) :
    keptSets (idSets (es.map (markEntry (survives identities)))) =
        idSets (scavenged identities es) ∧
      keptCredentials (credentials (es.map (markEntry (survives identities)))) =
        credentials (scavenged identities es) := by
  have hmarks : ∀ e ∈ es, (∀ x ∈ e.ids, marked x = false) ∧ marked e.credential.identity = false :=
    fun e he => ⟨fun x hx => (h.idsHash x (List.mem_flatMap.mpr ⟨e, he, hx⟩)).2,
      (h.accountsHash e he).2⟩
  clear h
  induction es with
  | nil => exact ⟨rfl, rfl⟩
  | cons e es ih =>
    obtain ⟨hsets, hcreds⟩ := ih fun e' he' => hmarks e' (List.mem_cons_of_mem e he')
    obtain ⟨hids, hcred⟩ := hmarks e List.mem_cons_self
    have hkept : keptIds (markEntry (survives identities) e).ids =
        (survivors identities e).ids := keptIds_markStale hids
    rw [List.map_cons, idSets_cons, credentials_cons, keptSets_cons, keptCredentials_cons, hkept,
      hsets, hcreds, scavenged_cons]
    cases hany : e.ids.any (survives identities) with
    | true =>
      have hcons : (survivors identities e).ids ≠ [] := fun hnil => by
        obtain ⟨x, hx, hsurvives⟩ := List.any_eq_true.mp hany
        have hmem : x ∈ (survivors identities e).ids := List.mem_filter.mpr ⟨hx, hsurvives⟩
        rw [hnil] at hmem
        exact List.not_mem_nil hmem
      have hstay : marked (markEntry (survives identities) e).credential.identity = false := by
        rw [markEntry, hany]
        exact hcred
      have hsame : (markEntry (survives identities) e).credential = e.credential := by
        rw [markEntry, hany]
        rfl
      rw [if_neg hcons, if_neg hcons, hstay, if_neg Bool.false_ne_true, hsame]
      exact ⟨rfl, rfl⟩
    | false =>
      have hnil : (survivors identities e).ids = [] := by
        refine List.filter_eq_nil_iff.mpr fun x hx => ?_
        exact List.any_eq_false.mp hany x hx
      have hgone : marked (markEntry (survives identities) e).credential.identity = true := by
        rw [markEntry, hany]
        exact marked_markId e.credential.identity
      rw [if_pos hnil, if_pos hnil, if_pos hgone]
      exact ⟨rfl, rfl⟩

/-- Every entry that is left is an earlier one with some of its identities. -/
theorem WellFormed.scavenged (h : WellFormed es) : WellFormed (scavenged identities es) := by
  have hsub : List.Sublist ((Sched.scavenged identities es).map Entry.credential)
      (es.map Entry.credential) := by
    have hmap : es.map Entry.credential = (es.map (survivors identities)).map Entry.credential := by
      rw [List.map_map]
      rfl
    rw [hmap]
    exact List.filter_sublist.map _
  have hids : List.Sublist (allIds (Sched.scavenged identities es)) (allIds es) := by
    clear h hsub
    induction es with
    | nil => exact List.Sublist.refl []
    | cons e es ih =>
      rw [scavenged_cons, allIds_cons]
      split_ifs
      · exact ih.trans (List.sublist_append_right e.ids _)
      · exact List.Sublist.append List.filter_sublist ih
  constructor
  · intro e he
    obtain ⟨d, hd, heq⟩ := List.mem_map.mp (hsub.subset (List.mem_map_of_mem he))
    rw [← heq]
    exact h.accountsHash d hd
  · exact fun x hx => h.idsHash x (hids.subset hx)
  · intro e he hnil
    have hkept := (List.mem_filter.mp he).2
    rw [hnil] at hkept
    exact nomatch hkept
  · have haccounts (l : List Entry) : l.map (·.credential.identity) =
        (l.map Entry.credential).map Credential.identity := by
      rw [List.map_map]
      rfl
    have hnodup := h.accounts
    rw [haccounts] at hnodup ⊢
    exact hnodup.sublist (hsub.map Credential.identity)
  · exact h.keys.sublist (hids.map idKey)

theorem any_isSome_setPtrs (keep : Bytes → Bool) (sets : List (List Bytes)) (pb : ℕ) :
    (setPtrs keep sets pb).any (List.any · Option.isSome) = sets.any (List.any · (! keep ·)) := by
  have hset (ids : List Bytes) (pb : ℕ) :
      (idPtrs keep ids pb).any Option.isSome = ids.any (! keep ·) := by
    induction ids generalizing pb with
    | nil => rfl
    | cons x ids ih =>
      rw [idPtrs, List.any_cons, List.any_cons, ih]
      cases keep x <;> rfl
  induction sets generalizing pb with
  | nil => rfl
  | cons s sets ih => rw [setPtrs, List.any_cons, List.any_cons, hset, ih]

/-- The marking keeps the sizes of the sets. -/
theorem sized_markEntry (keep : Bytes → Bool) (hs : SizedSets (idSets es)) :
    SizedSets (idSets (es.map (markEntry keep))) ∧
      (packSets (idSets (es.map (markEntry keep)))).length = (packSets (idSets es)).length := by
  induction es with
  | nil => exact ⟨hs, rfl⟩
  | cons e es ih =>
    have hids : SizedIds e.ids := hs e.ids List.mem_cons_self
    have hids' : SizedIds (markEntry keep e).ids := hids.markStale
    have hcount : (markEntry keep e).ids.length = e.ids.length := List.length_map _
    obtain ⟨hsets, hlen⟩ := ih fun s h => hs s (List.mem_cons_of_mem e.ids h)
    constructor
    · intro s h
      cases List.mem_cons.mp h with
      | inl heq => rwa [heq]
      | inr hin => exact hsets s hin
    · rw [List.map_cons, idSets_cons, idSets_cons, packSets_cons, packSets_cons, List.length_append,
        List.length_append, hlen, length_packSet hids', length_packSet hids, hcount]

theorem sizedCredentials_markEntry (keep : Bytes → Bool) (hs : SizedCredentials (credentials es)) :
    SizedCredentials (credentials (es.map (markEntry keep))) ∧
      (packCredentials (credentials (es.map (markEntry keep)))).length =
        (packCredentials (credentials es)).length := by
  induction es with
  | nil => exact ⟨hs, rfl⟩
  | cons e es ih =>
    have hid : e.credential.identity.length = hashDataSize := hs e.credential List.mem_cons_self
    have hid' : (markEntry keep e).credential.identity.length = hashDataSize := by
      rw [markEntry]
      dsimp only
      split_ifs
      · exact hid
      · exact length_markId hid
    have hdata : (markEntry keep e).credential.data = e.credential.data := by
      rw [markEntry]
      dsimp only
      split_ifs <;> rfl
    obtain ⟨hcreds, hlen⟩ := ih fun c h => hs c (List.mem_cons_of_mem e.credential h)
    constructor
    · intro c h
      cases List.mem_cons.mp h with
      | inl heq => rwa [heq]
      | inr hin => exact hcreds c hin
    · rw [List.map_cons, credentials_cons, credentials_cons, packCredentials_cons,
        packCredentials_cons, List.length_append, List.length_append, hlen,
        length_packCredential hid', length_packCredential hid, hdata]

/-- Scavenging filters the databases: if some identity belongs to no job, they are packed again
from the entries that are left, and otherwise they stay as they are. -/
theorem removeStale_spec (h : WellFormed es) {pbSAI pbSAC : Bytes}
    (hsai : SaiBlock usn (idSets es) pbSAI) (hsac : SacBlock usn (credentials es) pbSAC)
    (hfit : pbSAI.length < 2 ^ 32) (hfit' : pbSAC.length < 2 ^ 32) :
    removeStale fresh identities pbSAI pbSAC =
        .ok (if (allIds es).all (survives identities) then none
          else some (packSai usn (idSets (scavenged identities es)),
            packSac usn (credentials (scavenged identities es)))) ∧
      WellFormed (scavenged identities es) := by
  refine ⟨?_, h.scavenged⟩
  have hlen := length_packSai usn (idSets es)
  cases hempty : es with
  | nil =>
    have hshort : pbSAI.length ≤ saiHeaderSize := by
      rw [hempty] at hsai
      cases hsai with
      | inl hnone => rw [hnone.1]; exact Nat.zero_le _
      | inr hpack => rw [hpack]; exact Nat.le_refl _
    rw [removeStale, if_pos hshort]
    rfl
  | cons e es' =>
    have hsplit : es = [] ++ e :: es' := hempty
    have hpack := (hsplit ▸ hsai).eq_packSai
    have hpack' := (hsplit ▸ hsac).eq_packSac
    rw [← hsplit] at hpack hpack'
    rw [← hempty]
    subst hpack hpack'
    have hne' : ¬(packSai usn (idSets es)).length ≤ saiHeaderSize := by
      have hsets := length_le_packSets (idSets es)
      rw [length_idSets, hempty, List.length_cons, ← hempty] at hsets
      show ¬_ ≤ 8
      omega
    have hptrs : identitySets (packSai usn (idSets es)) (idSets es).length saiHeaderSize =
        .ok (setPtrs (fun _ => false) (idSets es) 8) :=
      identitySets_spec (u := header usn (idSets es).length) rfl rfl h.sizedSets hfit rfl
    have hclear : clearExisting (packSai usn (idSets es)) identities
        (setPtrs (fun _ => false) (idSets es) 8) =
          .ok (setPtrs (survives identities) (idSets es) 8) := clearExisting_spec h hfit
    set marks := es.map (markEntry (survives identities)) with hmarks
    have hmark : markSets 0 (setPtrs (survives identities) (idSets es) 8)
        (packSai usn (idSets es)) (packSac usn (credentials es)) =
          .ok (header usn (idSets es).length ++ packSets (idSets marks),
            packSac usn (credentials marks)) :=
      @markSets_spec usn _ es [] _ _ 0 8 rfl rfl rfl h.sizedSets h.sizedCredentials hfit' h.nonempty
    have hcount : (idSets marks).length = (idSets es).length := by
      rw [length_idSets, length_idSets, List.length_map]
    obtain ⟨hsized, hbytes⟩ := sized_markEntry (survives identities) h.sizedSets
    obtain ⟨hsized', hbytes'⟩ := sizedCredentials_markEntry (survives identities) h.sizedCredentials
    have hsets : ∀ s ∈ idSets marks, s ≠ [] := by
      intro s hs hnil
      obtain ⟨d, hd, rfl⟩ := List.mem_map.mp hs
      obtain ⟨e, he, rfl⟩ := List.mem_map.mp hd
      exact h.nonempty e he (List.map_eq_nil_iff.mp hnil)
    obtain ⟨hkept, hkept'⟩ := @kept_markEntry es identities h
    have hcoalesce : saiCoalesceDeletedEntries fresh (packSai usn (idSets marks)) =
        .ok (packSai usn (keptSets (idSets marks))) := by
      refine saiCoalesceDeletedEntries_spec hsized hsets ?_
      rwa [length_packSai, hbytes, ← length_packSai usn]
    have hcoalesce' : sacCoalesceDeletedEntries fresh (packSac usn (credentials marks)) =
        .ok (packSac usn (keptCredentials (credentials marks))) := by
      refine sacCoalesceDeletedEntries_spec hsized' ?_
      rwa [length_packSac, hbytes', ← length_packSac usn]
    have hdirty : (setPtrs (survives identities) (idSets es) 8).any (List.any · Option.isSome) =
        ! (allIds es).all (survives identities) := by
      rw [any_isSome_setPtrs, allIds, List.all_flatMap, idSets, List.any_map]
      simp only [List.not_all_eq_any_not, Function.comp_def]
    unfold removeStale
    rw [if_neg hne', getDword_packSai hfit, hptrs]
    dsimp only [bind, Except.bind]
    rw [hclear]
    dsimp only
    rw [hmark]
    dsimp only
    rw [hdirty, ← hcount, ← packSai, hcoalesce]
    dsimp only
    rw [hcoalesce', hkept, hkept']
    cases (allIds es).all (survives identities) <;> rfl

/-- A job that exists and one that does not share a credential, the third job is gone with its
credential. -/
def threeJobs : List Entry :=
  [⟨⟨List.replicate hashDataSize 2, [1]⟩,
      [List.replicate hashDataSize 4, List.replicate hashDataSize 6]⟩,
    ⟨⟨List.replicate hashDataSize 8, []⟩, [List.replicate hashDataSize 10]⟩]

theorem wellFormed_threeJobs : WellFormed threeJobs where
  accountsHash := by
    intro e he
    simp only [threeJobs, List.mem_cons, List.not_mem_nil, or_false] at he
    obtain rfl | rfl := he <;> exact ⟨List.length_replicate, by decide⟩
  idsHash := by
    intro x hx
    simp only [threeJobs, allIds, List.flatMap_cons, List.flatMap_nil, List.mem_append,
      List.mem_cons, List.not_mem_nil, or_false] at hx
    obtain (rfl | rfl) | rfl := hx <;> exact ⟨List.length_replicate, by decide⟩
  nonempty := by
    intro e he
    simp only [threeJobs, List.mem_cons, List.not_mem_nil, or_false] at he
    obtain rfl | rfl := he <;> exact List.cons_ne_nil _ _
  accounts := by decide
  keys := by decide

theorem removeStale_spec_threeJobs :
    removeStale (fun _ => 0) [List.replicate hashDataSize 4] (packSai 7 (idSets threeJobs))
        (packSac 7 (credentials threeJobs)) =
      .ok (some (packSai 7 [[List.replicate hashDataSize 4]],
        packSac 7 [⟨List.replicate hashDataSize 2, [1]⟩])) :=
  (removeStale_spec wellFormed_threeJobs (Or.inr rfl) (Or.inr rfl)
    (by simp [packSai, packSets, packSet, idSets, threeJobs]; decide)
    (by simp [packSac, packCredentials, packCredential, credentials, threeJobs]; decide)).1

end NtAdmin.Sched
