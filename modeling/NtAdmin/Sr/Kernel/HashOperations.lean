import Mathlib.Algebra.Order.BigOperators.Group.Finset
import NtAdmin.Sr.Kernel.HashInvariant

/-! What the operations of a hash list do to its entries. -/
namespace NtAdmin.Sr

open SortedSearch NtStatus HashHeader

variable {nls : Nls} {pre : List Wchar} {h h' : HashHeader}

namespace HashHeader

theorem Ok.index_lt (hok : h.Ok nls pre) {i : ℕ} {b : HashBucket} (hb : h.bucket i = some b) :
    i < h.BucketCount := by
  rw [bucket] at hb
  obtain ⟨p, hp, -⟩ := Option.bind_eq_some_iff.1 hb
  exact (hok.owned.allocated i p hp).1

/-- A pointer of the header points to a bucket. -/
theorem Ok.bucket_of_pointer (hok : h.Ok nls pre) {i p : ℕ} (hp : h.Buckets i = some p) :
    ∃ b, h.pool p = some b ∧ h.bucket i = some b := by
  obtain ⟨b, hb⟩ := Option.isSome_iff_exists.1 (hok.owned.allocated i p hp).2
  exact ⟨b, hb, by rw [bucket, hp, Option.bind_some, hb]⟩

theorem bucket_of_null {i : ℕ} (hp : h.Buckets i = none) : h.bucket i = none := by
  rw [bucket, hp, Option.bind_none]

/-- Entries of one key are the same entry. -/
theorem Ok.unique (hnls : nls.Lawful) (hok : h.Ok nls pre) {e e' : HashEntry} (he : h.Mem e)
    (he' : h.Mem e') (hsame : nls.SameKey e.Key e'.Key) : e = e' := by
  obtain ⟨i, b, hb, he⟩ := he
  obtain ⟨i', b', hb', he'⟩ := he'
  have hbok := hok.buckets i b hb
  have hbok' := hok.buckets i' b' hb'
  obtain ⟨hv, hi⟩ := hbok.hashed e he
  obtain ⟨hv', hi'⟩ := hbok'.hashed e' he'
  have hrank : e.rank nls pre.length = e'.rank nls pre.length :=
    (rankOf_eq_iff hnls (hbok.shares e he) (hbok'.shares e' he') hv hv').2 hsame
  have hvalue : e.HashValue = e'.HashValue := congrArg Prod.fst hrank
  obtain rfl : i = i' := by rw [← hi, ← hi', hvalue]
  obtain rfl := Option.some.inj (hb.symm.trans hb')
  have hfind := find?_rank_eq hbok.sorted he
  rw [hrank, find?_rank_eq hbok.sorted he'] at hfind
  exact (Option.some.inj hfind).symm

theorem Ok.setTrimTime (hok : h.Ok nls pre) (t : ℤ) :
    { h with LastTrimTime := t }.Ok nls pre :=
  ⟨hok.count, hok.prefix_length, ⟨hok.owned.allocated, hok.owned.distinct, hok.owned.linked⟩,
    hok.buckets, hok.used⟩

/-- A bucket is replaced at its address. -/
theorem Put.same {i p : ℕ} (hi : i < h.BucketCount) (hp : h.Buckets i = some p) (h' : HashHeader)
    (b : HashBucket) (count : h'.BucketCount = h.BucketCount)
    (prefix_length : h'.PrefixLength = h.PrefixLength) (hBuckets : h'.Buckets = h.Buckets)
    (hpool : h'.pool = Function.update h.pool p (some b)) : h.Put h' i p b := by
  refine ⟨hi, Or.inl hp, count, prefix_length, ?_, fun q => ?_⟩
  · rw [hBuckets, ← hp, Function.update_eq_self]
  · rw [hpool, Function.update_apply, hp]
    by_cases hq : q = p
    · rw [if_pos hq, if_pos hq]
    · rw [if_neg hq, if_neg hq, if_neg fun h => hq (Option.some.inj h).symm]

/-! ### Throwing away -/

/-- Some entries were thrown away. -/
structure Thrown (nls : Nls) (pre : List Wchar) (h h' : HashHeader) (thrown : List HashEntry) :
    Prop where
  ok : h'.Ok nls pre
  count : h'.BucketCount = h.BucketCount
  thrown_mem : ∀ e ∈ thrown, h.Mem e
  mem : ∀ e, h'.Mem e ↔ h.Mem e ∧ e ∉ thrown

theorem Thrown.refl (hok : h.Ok nls pre) : Thrown nls pre h h [] :=
  ⟨hok, rfl, by simp, by simp⟩

theorem Thrown.trans {h'' : HashHeader} {thrown thrown' : List HashEntry}
    (hfirst : Thrown nls pre h h' thrown) (hsecond : Thrown nls pre h' h'' thrown') :
    Thrown nls pre h h'' (thrown ++ thrown') := by
  constructor
  · exact hsecond.ok
  · exact hsecond.count.trans hfirst.count
  · intro e he
    obtain he | he := List.mem_append.1 he
    · exact hfirst.thrown_mem e he
    · exact ((hfirst.mem e).1 (hsecond.thrown_mem e he)).1
  · intro e
    rw [hsecond.mem, hfirst.mem, List.mem_append, not_or, and_assoc]

end HashHeader

theorem foldl_used (entries : List HashEntry) (total used : ℕ) (hle : keyLengths entries ≤ total)
    (hused : used = total % 2 ^ 32) :
    entries.foldl (fun used e => (used + (2 ^ 32 - e.Key.keyLength % 2 ^ 32)) % 2 ^ 32) used =
      (total - keyLengths entries) % 2 ^ 32 := by
  induction entries generalizing total used with
  | nil => exact hused
  | cons e entries ih =>
    have hsum : keyLengths (e :: entries) = e.Key.keyLength + keyLengths entries := rfl
    rw [hsum] at hle ⊢
    rw [List.foldl_cons, ih (total - e.Key.keyLength) _ (by omega) (by omega)]
    congr 1
    omega

theorem keyLengths_entriesAt_le (h : HashHeader) {i : ℕ} (hi : i < h.BucketCount) :
    keyLengths (h.entriesAt i) ≤ h.totalLength :=
  Finset.single_le_sum (f := fun i => keyLengths (h.entriesAt i)) (fun _ _ => Nat.zero_le _)
    (Finset.mem_range.2 hi)

/-- One bucket is emptied. -/
theorem throwAway_spec (hok : h.Ok nls pre) {i : ℕ} (hi : i < h.BucketCount) :
    Thrown nls pre h (throwAway h i).1 (throwAway h i).2 ∧
      ∀ e, h.Mem e → e.HashValue % h.BucketCount = i → e ∈ (throwAway h i).2 := by
  cases hp : h.Buckets i with
  | none =>
    have hthrow : throwAway h i = (h, []) := by
      rw [throwAway, hp]
    rw [hthrow]
    refine ⟨Thrown.refl hok, ?_⟩
    rintro e ⟨j, b, hb, he⟩ hindex
    obtain rfl : j = i := by rw [← ((hok.buckets j b hb).hashed e he).2, hindex]
    rw [bucket_of_null hp] at hb
    cases hb
  | some p =>
    obtain ⟨b, hpool, hb⟩ := hok.bucket_of_pointer hp
    have hbok := hok.buckets i b hb
    have hentries : h.entriesAt i = b.Entries := by
      rw [entriesAt, hb]
      rfl
    have hthrow : throwAway h i = ({ h with
        UsedLength := b.Entries.foldl
          (fun used e => (used + (2 ^ 32 - e.Key.keyLength % 2 ^ 32)) % 2 ^ 32) h.UsedLength
        pool := Function.update h.pool p (some { b with Entries := [] }) }, b.Entries) := by
      rw [throwAway, hp]
      dsimp only
      rw [hpool]
    rw [hthrow]
    dsimp only
    have hput := Put.same hi hp { h with
        UsedLength := b.Entries.foldl
          (fun used e => (used + (2 ^ 32 - e.Key.keyLength % 2 ^ 32)) % 2 ^ 32) h.UsedLength
        pool := Function.update h.pool p (some { b with Entries := [] }) }
      { b with Entries := [] } rfl rfl rfl rfl
    have hlengths := hput.totalLength hok.owned
    have hempty : keyLengths ([] : List HashEntry) = 0 := rfl
    rw [hentries, hempty, Nat.add_zero] at hlengths
    have hempty_ok : BucketOk nls pre h.BucketCount i { b with Entries := [] } :=
      ⟨List.Pairwise.nil, ⟨hbok.room.1, Nat.zero_le _⟩, by simp, by simp⟩
    have hin : ∀ e, h.Mem e → (e.HashValue % h.BucketCount = i ↔ e ∈ b.Entries) := by
      rintro e ⟨j, b', hb', he⟩
      have hindex := ((hok.buckets j b' hb').hashed e he).2
      constructor
      · intro hi
        obtain rfl : j = i := by rw [← hindex, hi]
        obtain rfl := Option.some.inj (hb.symm.trans hb')
        exact he
      · intro he
        exact (hbok.hashed e he).2
    refine ⟨⟨hok.put hput hempty_ok ?_, rfl, ?_, ?_⟩, fun e he => (hin e he).1⟩
    · have hused := foldl_used b.Entries h.totalLength h.UsedLength (by omega) hok.used
      rw [← hlengths, Nat.add_sub_cancel] at hused
      exact hused
    · intro e he
      exact ⟨i, b, hb, he⟩
    · intro e
      rw [hput.mem hok.owned]
      constructor
      · rintro (he | ⟨j, b', hj, hb', he⟩)
        · cases he
        · have hmem : h.Mem e := ⟨j, b', hb', he⟩
          refine ⟨hmem, fun hthrown => hj ?_⟩
          rw [← ((hok.buckets j b' hb').hashed e he).2, (hin e hmem).2 hthrown]
      · rintro ⟨⟨j, b', hb', he⟩, hkept⟩
        refine Or.inr ⟨j, b', ?_, hb', he⟩
        rintro rfl
        obtain rfl := Option.some.inj (hb.symm.trans hb')
        exact hkept he

/-- The loop of `HashClearEntries` throws the entries of its buckets away. -/
theorem clearLoop_spec (hok : h.Ok nls pre) (indexes : List ℕ)
    (hindexes : ∀ i ∈ indexes, i < h.BucketCount) :
    Thrown nls pre h (clearLoop indexes h).1 (clearLoop indexes h).2 ∧
      ∀ e, h.Mem e → e.HashValue % h.BucketCount ∈ indexes → e ∈ (clearLoop indexes h).2 := by
  induction indexes generalizing h with
  | nil => exact ⟨Thrown.refl hok, fun e _ he => (nomatch he)⟩
  | cons i indexes ih =>
    obtain ⟨hfirst, hall⟩ := throwAway_spec hok (hindexes i List.mem_cons_self)
    have hrest := ih hfirst.ok fun j hj => by
      rw [hfirst.count]
      exact hindexes j (List.mem_cons_of_mem i hj)
    rw [clearLoop]
    dsimp only
    refine ⟨hfirst.trans hrest.1, fun e he hindex => ?_⟩
    rw [List.mem_append]
    by_cases hthrown : e ∈ (throwAway h i).2
    · exact Or.inl hthrown
    · have hne : e.HashValue % h.BucketCount ≠ i := fun h => hthrown (hall e he h)
      have hlater := (List.mem_cons.1 hindex).resolve_left hne
      rw [← hfirst.count] at hlater
      exact Or.inr (hrest.2 e ((hfirst.mem e).2 ⟨he, hthrown⟩) hlater)

theorem hashClearEntries_spec (hok : h.Ok nls pre) :
    (hashClearEntries h).1.Ok nls pre ∧ ∀ e, ¬ (hashClearEntries h).1.Mem e := by
  obtain ⟨hthrown, hall⟩ := clearLoop_spec hok (List.range h.BucketCount)
    fun i hi => List.mem_range.1 hi
  rw [hashClearEntries]
  dsimp only
  refine ⟨hthrown.ok.setTrimTime 0, fun e hmem => ?_⟩
  obtain ⟨hbefore, hkept⟩ := (hthrown.mem e).1 hmem
  exact hkept (hall e hbefore (List.mem_range.2 (Nat.mod_lt _ hok.count)))

theorem trimLoop_spec (clock : ℕ → ℤ) (EndTime : ℤ) (EndLength : ℕ) (hok : h.Ok nls pre)
    (indexes : List ℕ) (hindexes : ∀ i ∈ indexes, i < h.BucketCount) :
    Thrown nls pre h (trimLoop clock EndTime EndLength indexes h).1
      (trimLoop clock EndTime EndLength indexes h).2 := by
  induction indexes generalizing h with
  | nil => exact Thrown.refl hok
  | cons i indexes ih =>
    obtain ⟨hfirst, -⟩ := throwAway_spec hok (hindexes i List.mem_cons_self)
    have hrest := ih hfirst.ok fun j hj => by
      rw [hfirst.count]
      exact hindexes j (List.mem_cons_of_mem i hj)
    rw [trimLoop]
    dsimp only
    split_ifs
    · exact hfirst
    · exact hfirst
    · exact hfirst.trans hrest

theorem hashTrimList_spec (hok : h.Ok nls pre) (clock : TrimClock) :
    Thrown nls pre h (hashTrimList clock h).1 (hashTrimList clock h).2 := by
  rw [hashTrimList]
  dsimp only
  have htrim := trimLoop_spec clock.loop
    (clock.CurrentTime + (trimShare (if h.LastTrimTime = 0 then 0xffffffff
      else ((clock.CurrentTime - h.LastTrimTime) % 2 ^ 32).toNat / NANO_FULL_SECOND)).2 *
        NANO_FULL_SECOND)
    (h.UsedLength - h.UsedLength / (trimShare (if h.LastTrimTime = 0 then 0xffffffff
      else ((clock.CurrentTime - h.LastTrimTime) % 2 ^ 32).toNat / NANO_FULL_SECOND)).1)
    (hok.setTrimTime clock.LastTrimTime) (List.range h.BucketCount)
    fun i hi => List.mem_range.1 hi
  exact ⟨htrim.ok, htrim.count, htrim.thrown_mem, htrim.mem⟩

/-! ### Adding -/

theorem pool_update_restore {p : ℕ} (hfree : h.pool p = none) (b : Option HashBucket) :
    Function.update (Function.update h.pool p b) p none = h.pool := by
  rw [Function.update_idem, ← hfree, Function.update_eq_self]

/-- What a successful insertion leaves. -/
structure Inserted (h h' : HashHeader) (i Index : ℕ) (e : HashEntry) (p : ℕ) (b : HashBucket) :
    Prop where
  put : h.Put h' i p b
  entries : b.Entries = (h.entriesAt i).take Index ++ e :: (h.entriesAt i).drop Index
  room : 0 < b.AllocCount ∧ b.UsedCount ≤ b.AllocCount
  used : h'.UsedLength = (h.UsedLength + e.Key.keyLength) % 2 ^ 32

theorem length_insert {ε : Type*} (l : List ε) (x : ε) (i : ℕ) :
    (l.take i ++ x :: l.drop i).length = l.length + 1 := by
  rw [List.length_append, List.length_cons, List.length_take, List.length_drop]
  omega

theorem keyLengths_insert (l : List HashEntry) (e : HashEntry) (i : ℕ) :
    keyLengths (l.take i ++ e :: l.drop i) = keyLengths l + e.Key.keyLength := by
  have hsplit : keyLengths l = keyLengths (l.take i) + keyLengths (l.drop i) := by
    rw [keyLengths, keyLengths, keyLengths, ← List.sum_append, ← List.map_append,
      List.take_append_drop]
  rw [hsplit, keyLengths, List.map_append, List.sum_append, List.map_cons, List.sum_cons,
    keyLengths, keyLengths]
  omega

/-- A new entry is inserted, or an allocation fails and the header is as before. -/
theorem addNewEntry_spec (hok : h.Ok nls pre) {i : ℕ} (hi : i < h.BucketCount) (Index : ℕ)
    (e : HashEntry) (address : Option ℕ) (keyBuffer : Bool) :
    let locals := addNewEntry h i Index e address keyBuffer
    (locals.Status = STATUS_SUCCESS ∧ ∃ p b, Inserted h (addFinally i locals) i Index e p b) ∨
      (locals.Status = STATUS_INSUFFICIENT_RESOURCES ∧ addFinally i locals = h) := by
  cases hp : h.Buckets i with
  | none =>
    have hb := bucket_of_null hp
    have hentries : h.entriesAt i = [] := by
      rw [entriesAt, hb]
      rfl
    cases haddress : allocate h.pool address with
    | none =>
      right
      simp [addNewEntry, hp, hb, haddress, addFinally]
    | some new =>
      have hfree : h.pool new = none := by
        simpa using (Option.filter_eq_some_iff.1 haddress).2
      cases keyBuffer with
      | false =>
        right
        have hrestore := pool_update_restore hfree (some ⟨HASH_ENTRY_DEFAULT_WIDTH, []⟩)
        simp [addNewEntry, hp, hb, haddress, addFinally, HashHeader.free, hrestore]
      | true =>
        left
        refine ⟨by simp [addNewEntry, hp, hb, haddress], new, ⟨HASH_ENTRY_DEFAULT_WIDTH, [e]⟩, ?_⟩
        have hlocals : addFinally i (addNewEntry h i Index e address true) =
            insertEntry h i new ⟨HASH_ENTRY_DEFAULT_WIDTH, []⟩ Index e := by
          simp [addNewEntry, hp, hb, haddress, addFinally]
        rw [hlocals]
        constructor
        · refine ⟨hi, Or.inr hfree, rfl, rfl, rfl, fun q => ?_⟩
          simp [insertEntry, Function.update_apply, hp]
        · simp [hentries]
        · simp [HASH_ENTRY_DEFAULT_WIDTH, HashBucket.UsedCount]
        · rfl
  | some old =>
    obtain ⟨b, hpool, hb⟩ := hok.bucket_of_pointer hp
    have hroom := (hok.buckets i b hb).room
    have hentries : h.entriesAt i = b.Entries := by
      rw [entriesAt, hb]
      rfl
    by_cases hfull : b.UsedCount + 1 > b.AllocCount
    · cases haddress : allocate h.pool address with
      | none =>
        right
        simp [addNewEntry, hp, hb, haddress, addFinally, hfull]
      | some new =>
        have hfree : h.pool new = none := by
          simpa using (Option.filter_eq_some_iff.1 haddress).2
        have hne : new ≠ old := by
          rintro rfl
          cases hfree.symm.trans hpool
        cases keyBuffer with
        | false =>
          right
          have hrestore := pool_update_restore hfree
            (some { b with AllocCount := b.AllocCount * 2 })
          simp [addNewEntry, hp, hb, haddress, addFinally, HashHeader.free, hrestore, hfull,
            hne.symm]
        | true =>
          left
          refine ⟨by simp [addNewEntry, hp, hb, haddress, hfull], new,
            ⟨b.AllocCount * 2, b.Entries.take Index ++ e :: b.Entries.drop Index⟩, ?_⟩
          have hlocals : addFinally i (addNewEntry h i Index e address true) =
              (insertEntry h i new { b with AllocCount := b.AllocCount * 2 } Index e).free old := by
            simp [addNewEntry, hp, hb, haddress, addFinally, hfull]
          rw [hlocals]
          constructor
          · refine ⟨hi, Or.inr hfree, rfl, rfl, rfl, fun q => ?_⟩
            simp only [HashHeader.free, insertEntry, Function.update_apply, hp, Option.some.injEq]
            by_cases hnew : q = new
            · rw [if_neg (hnew ▸ hne), if_pos hnew, if_pos hnew]
            · rw [if_neg hnew, if_neg hnew]
              simp only [eq_comm]
          · rw [hentries]
          · have hlength := length_insert b.Entries e Index
            simp only [HashBucket.UsedCount] at hroom hfull ⊢
            omega
          · rfl
    · cases keyBuffer with
      | false =>
        right
        simp [addNewEntry, hp, hb, addFinally, hfull]
      | true =>
        left
        refine ⟨by simp [addNewEntry, hp, hb, hfull], old,
          ⟨b.AllocCount, b.Entries.take Index ++ e :: b.Entries.drop Index⟩, ?_⟩
        have hlocals : addFinally i (addNewEntry h i Index e address true) =
            insertEntry h i old b Index e := by
          simp [addNewEntry, hp, hb, addFinally, hfull]
        rw [hlocals]
        constructor
        · exact Put.same hi hp _ _ rfl rfl (by rw [insertEntry, ← hp, Function.update_eq_self]) rfl
        · rw [hentries]
        · have hlength := length_insert b.Entries e Index
          simp only [HashBucket.UsedCount] at hroom hfull ⊢
          omega
        · rfl

/-- The invariant behind an insertion at the position of a new key. -/
theorem Inserted.spec (hnls : nls.Lawful) (hok : h.Ok nls pre) {i p : ℕ} {e : HashEntry}
    {b : HashBucket} (hvalue : nls.rtlHashUnicodeString e.Key.FileName = some e.HashValue)
    (hindex : e.HashValue % h.BucketCount = i) (hshares : e.Key.Shares pre)
    (hnew : ∀ e', h.Mem e' → ¬ nls.SameKey e.Key e'.Key)
    (hins : Inserted h h' i
      (position (HashEntry.rank nls pre.length) (e.rank nls pre.length) (h.entriesAt i)) e p b) :
    h'.Ok nls pre ∧ ∀ e', h'.Mem e' ↔ e' = e ∨ h.Mem e' := by
  have hold : ∀ e' ∈ h.entriesAt i, ∃ b, h.bucket i = some b ∧ e' ∈ b.Entries := by
    intro e' he'
    rw [entriesAt] at he'
    cases hb : h.bucket i with
    | none =>
      rw [hb] at he'
      cases he'
    | some b =>
      rw [hb] at he'
      exact ⟨b, rfl, he'⟩
  have hmemEntries : ∀ e', e' ∈ b.Entries ↔ e' = e ∨ e' ∈ h.entriesAt i := by
    intro e'
    rw [hins.entries]
    exact mem_insert _
  have hbok : BucketOk nls pre h.BucketCount i b := by
    constructor
    · have hsorted : Ascending (HashEntry.rank nls pre.length) (h.entriesAt i) := by
        rw [entriesAt]
        cases hb : h.bucket i with
        | none => exact List.Pairwise.nil
        | some b => exact (hok.buckets i b hb).sorted
      rw [hins.entries]
      refine ascending_insert hsorted fun e' he' hrank => ?_
      obtain ⟨b', hb', he'⟩ := hold e' he'
      have hbok' := hok.buckets i b' hb'
      have hsame := (rankOf_eq_iff hnls (hbok'.shares e' he') hshares (hbok'.hashed e' he').1
        hvalue).1 hrank
      exact hnew e' ⟨i, b', hb', he'⟩ hsame.symm
    · exact hins.room
    · intro e' he'
      obtain rfl | he' := (hmemEntries e').1 he'
      · exact ⟨hvalue, hindex⟩
      · obtain ⟨b', hb', he'⟩ := hold e' he'
        exact (hok.buckets i b' hb').hashed e' he'
    · intro e' he'
      obtain rfl | he' := (hmemEntries e').1 he'
      · exact hshares
      · obtain ⟨b', hb', he'⟩ := hold e' he'
        exact (hok.buckets i b' hb').shares e' he'
  have hlengths : keyLengths b.Entries = keyLengths (h.entriesAt i) + e.Key.keyLength := by
    rw [hins.entries, keyLengths_insert]
  have htotal := hins.put.totalLength hok.owned
  constructor
  · refine hok.put hins.put hbok ?_
    rw [hins.used, hok.used]
    omega
  · intro e'
    rw [hins.put.mem hok.owned, hmemEntries]
    constructor
    · rintro ((rfl | he') | ⟨j, b', -, hb', he'⟩)
      · exact Or.inl rfl
      · obtain ⟨b', hb', he'⟩ := hold e' he'
        exact Or.inr ⟨i, b', hb', he'⟩
      · exact Or.inr ⟨j, b', hb', he'⟩
    · rintro (rfl | ⟨j, b', hb', he'⟩)
      · exact Or.inl (Or.inl rfl)
      · by_cases hj : j = i
        · subst hj
          refine Or.inl (Or.inr ?_)
          rw [entriesAt, hb']
          exact he'
        · exact Or.inr ⟨j, b', hj, hb', he'⟩

/-! ### Contexts -/

/-- New contexts for the entries of a bucket. -/
theorem mapBucket_spec (hok : h.Ok nls pre) {i p : ℕ} {b : HashBucket}
    (hp : h.Buckets i = some p) (hb : h.bucket i = some b) (g : HashEntry → HashEntry)
    (hkey : ∀ e, (g e).Key = e.Key) (hvalue : ∀ e, (g e).HashValue = e.HashValue)
    (hother : ∀ e, h.Mem e → e.HashValue % h.BucketCount ≠ i → g e = e) :
    let h' := { h with
      pool := Function.update h.pool p (some { b with Entries := b.Entries.map g }) }
    h'.Ok nls pre ∧ ∀ e', h'.Mem e' ↔ ∃ e, h.Mem e ∧ e' = g e := by
  intro h'
  have hbok := hok.buckets i b hb
  have hput : h.Put h' i p { b with Entries := b.Entries.map g } :=
    Put.same (hok.index_lt hb) hp h' _ rfl rfl rfl rfl
  have hlengths : keyLengths (b.Entries.map g) = keyLengths b.Entries := by
    rw [keyLengths, keyLengths, List.map_map]
    congr 1
    exact List.map_congr_left fun e _ => congrArg HashKey.keyLength (hkey e)
  have hentries : h.entriesAt i = b.Entries := by
    rw [entriesAt, hb]
    rfl
  have htotal := hput.totalLength hok.owned
  have hrank : ∀ e, (g e).rank nls pre.length = e.rank nls pre.length := by
    intro e
    rw [HashEntry.rank, HashEntry.rank, hkey, hvalue]
  constructor
  · refine hok.put hput ⟨hbok.sorted.map hrank, ?_, ?_, ?_⟩ ?_
    · rw [HashBucket.UsedCount, List.length_map]
      exact hbok.room
    · intro e' he'
      obtain ⟨e, he, rfl⟩ := List.mem_map.1 he'
      rw [hkey, hvalue]
      exact hbok.hashed e he
    · intro e' he'
      obtain ⟨e, he, rfl⟩ := List.mem_map.1 he'
      rw [hkey]
      exact hbok.shares e he
    · rw [hentries, hlengths] at htotal
      rw [Nat.add_right_cancel htotal]
      exact hok.used
  · intro e'
    rw [hput.mem hok.owned]
    constructor
    · rintro (he' | ⟨j, b', hj, hb', he'⟩)
      · obtain ⟨e, he, rfl⟩ := List.mem_map.1 he'
        exact ⟨e, ⟨i, b, hb, he⟩, rfl⟩
      · have hindex := ((hok.buckets j b' hb').hashed e' he').2
        have hmem : h.Mem e' := ⟨j, b', hb', he'⟩
        exact ⟨e', hmem, (hother e' hmem (by rw [hindex]; exact hj)).symm⟩
    · rintro ⟨e, ⟨j, b', hb', he⟩, rfl⟩
      by_cases hj : j = i
      · subst hj
        obtain rfl := Option.some.inj (hb.symm.trans hb')
        exact Or.inl (List.mem_map_of_mem he)
      · have hindex := ((hok.buckets j b' hb').hashed e he).2
        rw [hother e ⟨j, b', hb', he⟩ (by rw [hindex]; exact hj)]
        exact Or.inr ⟨j, b', hj, hb', he⟩

/-- The entry of a key is given a context. -/
def withContext (nls : Nls) (key : HashKey) (pContext : ℕ) (e : HashEntry) : HashEntry :=
  if nls.SameKey key e.Key then { e with pContext := pContext } else e

/-- What an addition does behind the trim. -/
inductive Added (nls : Nls) (h h' : HashHeader) (key : HashKey) (pContext : ℕ) : NtStatus → Prop
  | success {e : HashEntry} (key_eq : e.Key = key) (context_eq : e.pContext = pContext)
      (new : ∀ e', h.Mem e' → ¬ nls.SameKey key e'.Key)
      (mem : ∀ e', h'.Mem e' ↔ e' = e ∨ h.Mem e') : Added nls h h' key pContext STATUS_SUCCESS
  | duplicate (old : ∃ e, h.Mem e ∧ nls.SameKey key e.Key)
      (mem : ∀ e', h'.Mem e' ↔ ∃ e, h.Mem e ∧ e' = withContext nls key pContext e) :
      Added nls h h' key pContext STATUS_DUPLICATE_OBJECTID
  | failed {Status : NtStatus} (failure : Status ≠ STATUS_SUCCESS)
      (failure' : Status ≠ STATUS_DUPLICATE_OBJECTID) (same : h' = h) :
      Added nls h h' key pContext Status

/-- The header that an addition starts from, and what was trimmed for it. -/
def trimmed (clock : TrimClock) (h : HashHeader) : HashHeader × List HashEntry :=
  if h.UsedLength > h.AllowedLength then hashTrimList clock h else (h, [])

theorem trimmed_spec (hok : h.Ok nls pre) (clock : TrimClock) :
    Thrown nls pre h (trimmed clock h).1 (trimmed clock h).2 := by
  rw [trimmed]
  split_ifs
  · exact hashTrimList_spec hok clock
  · exact Thrown.refl hok

/-- What the search in the bucket of a key gives. -/
theorem hashpFindEntry_eq (hnls : nls.Lawful) (hok : h.Ok nls pre) {key : HashKey}
    (hkey : key.Shares pre) (v i : ℕ) :
    hashpFindEntry nls h (h.bucket i) v key =
      (((h.entriesAt i).find? fun e => e.rank nls pre.length = rankOf nls pre.length v key).map
          HashEntry.pContext,
        position (HashEntry.rank nls pre.length) (rankOf nls pre.length v key)
          (h.entriesAt i)) := by
  rw [entriesAt]
  cases hb : h.bucket i with
  | none => rfl
  | some b =>
    have hbok := hok.buckets i b hb
    rw [hashpFindEntry, hashpFindLoop_eq hnls hok.prefix_length hkey v hbok.shares hbok.sorted 0]
    dsimp only
    rw [Nat.zero_add]
    rfl

/-- The part of an addition behind the trim, with the hash of the key. -/
theorem addLocals_spec (hnls : nls.Lawful) (hok : h.Ok nls pre) {key : HashKey}
    (hkey : key.Shares pre) {v : ℕ} (hv : nls.rtlHashUnicodeString key.FileName = some v)
    (pContext : ℕ) (address : Option ℕ) (keyBuffer : Bool) :
    let i := v % h.BucketCount
    let locals : AddLocals :=
      match hashpFindEntry nls h (h.bucket i) v key with
      | (some _, Index) =>
        match h.Buckets i with
        | none => ⟨STATUS_INVALID_DEVICE_REQUEST, h, none, none⟩
        | some p => ⟨STATUS_DUPLICATE_OBJECTID, setContext h p Index pContext, some p, none⟩
      | (none, Index) => addNewEntry h i Index ⟨v, key, pContext⟩ address keyBuffer
    (addFinally i locals).Ok nls pre ∧
      Added nls h (addFinally i locals) key pContext locals.Status := by
  intro i
  have hi : i < h.BucketCount := Nat.mod_lt _ hok.count
  rw [hashpFindEntry_eq hnls hok hkey v i]
  cases hfind : (h.entriesAt i).find? fun e =>
      e.rank nls pre.length = rankOf nls pre.length v key with
  | none =>
    dsimp only [Option.map_none]
    have hnew : ∀ e', h.Mem e' → ¬ nls.SameKey key e'.Key := by
      rintro e' ⟨j, b, hb, he'⟩ hsame
      have hbok := hok.buckets j b hb
      have hrank := (rankOf_eq_iff hnls hkey (hbok.shares e' he') hv (hbok.hashed e' he').1).2 hsame
      have hvalue : v = e'.HashValue := congrArg Prod.fst hrank
      obtain rfl : j = i := by rw [← (hbok.hashed e' he').2, ← hvalue]
      rw [entriesAt, hb, List.find?_eq_none] at hfind
      exact hfind e' he' (decide_eq_true hrank.symm)
    obtain ⟨hstatus, p, b, hins⟩ | ⟨hstatus, hsame⟩ := addNewEntry_spec hok hi
      (position (HashEntry.rank nls pre.length) (rankOf nls pre.length v key) (h.entriesAt i))
      ⟨v, key, pContext⟩ address keyBuffer
    · obtain ⟨hok', hmem⟩ := hins.spec (e := ⟨v, key, pContext⟩) hnls hok hv rfl hkey hnew
      rw [hstatus]
      exact ⟨hok', .success rfl rfl hnew hmem⟩
    · rw [hstatus, hsame]
      exact ⟨hok, .failed (by decide) (by decide) rfl⟩
  | some e =>
    dsimp only [Option.map_some]
    have he := List.mem_of_find?_eq_some hfind
    have hrank : e.rank nls pre.length = rankOf nls pre.length v key := by
      simpa using List.find?_some hfind
    cases hp : h.Buckets i with
    | none =>
      rw [entriesAt, bucket_of_null hp] at he
      cases he
    | some p =>
      obtain ⟨b, hpool, hb⟩ := hok.bucket_of_pointer hp
      have hbok := hok.buckets i b hb
      have hentries : h.entriesAt i = b.Entries := by
        rw [entriesAt, hb]
        rfl
      rw [hentries] at he ⊢
      have hset : setContext h p (position (HashEntry.rank nls pre.length)
          (rankOf nls pre.length v key) b.Entries) pContext = { h with
          pool := Function.update h.pool p (some { b with
            Entries := b.Entries.map (withContext nls key pContext) }) } := by
        rw [setContext, hpool, Option.map_some,
          modify_position _ hbok.sorted ⟨e, he, hrank⟩]
        congr 4
        refine List.map_congr_left fun e' he' => ?_
        have hiff := rankOf_eq_iff hnls hkey (hbok.shares e' he') hv (hbok.hashed e' he').1
        rw [withContext]
        refine if_congr ?_ rfl rfl
        exact eq_comm.trans hiff
      have hmap := mapBucket_spec hok hp hb (withContext nls key pContext)
        (fun e => by rw [withContext]; split_ifs <;> rfl)
        (fun e => by rw [withContext]; split_ifs <;> rfl)
        (by
          rintro e' ⟨j, b', hb', he'⟩ hindex
          have hbok' := hok.buckets j b' hb'
          refine if_neg fun hsame => hindex ?_
          have hrank := (rankOf_eq_iff hnls hkey (hbok'.shares e' he') hv
            (hbok'.hashed e' he').1).2 hsame
          have hvalue : v = e'.HashValue := congrArg Prod.fst hrank
          rw [← hvalue])
      dsimp only [addFinally]
      rw [hset]
      have hsame := (rankOf_eq_iff hnls hkey (hbok.shares e he) hv (hbok.hashed e he).1).1
        hrank.symm
      exact ⟨hmap.1, .duplicate ⟨e, ⟨i, b, hb, he⟩, hsame⟩ hmap.2⟩

/-- An addition trims, and then adds the key, or sets its context, or fails without a trace. -/
theorem hashAddEntry_spec (hnls : nls.Lawful) (hok : h.Ok nls pre) {key : HashKey}
    (hkey : key.Shares pre) (pContext : ℕ) (address : Option ℕ) (keyBuffer : Bool)
    (clock : TrimClock) :
    let added := hashAddEntry nls h key pContext address keyBuffer clock
    added.2.2 = (trimmed clock h).2 ∧ added.2.1.Ok nls pre ∧
      Added nls (trimmed clock h).1 added.2.1 key pContext added.1 := by
  have htrim := trimmed_spec hok clock
  rw [hashAddEntry, ← trimmed]
  dsimp only
  cases hv : nls.rtlHashUnicodeString key.FileName with
  | none => exact ⟨rfl, htrim.ok, .failed NtStatus.noConfusion NtStatus.noConfusion rfl⟩
  | some v => exact ⟨rfl, addLocals_spec hnls htrim.ok hkey hv pContext address keyBuffer⟩

theorem hashClearAllFileEntries_spec (hok : h.Ok nls pre) (name : List Wchar) :
    (hashClearAllFileEntries nls h name).2.Ok nls pre ∧
      ∀ e', (hashClearAllFileEntries nls h name).2.Mem e' ↔ ∃ e, h.Mem e ∧
        e' = if nls.rtlEqualUnicodeString name e.Key.FileName then
          { e with pContext := SrEventInvalid } else e := by
  -- the entries of the file are in the bucket of its hash
  have hbucket : ∀ e, h.Mem e → nls.rtlEqualUnicodeString name e.Key.FileName = true →
      nls.rtlHashUnicodeString name = some e.HashValue ∧
        h.bucket (e.HashValue % h.BucketCount) ≠ none := by
    rintro e ⟨j, b, hb, he⟩ hequal
    obtain ⟨hvalue, hindex⟩ := (hok.buckets j b hb).hashed e he
    have hupcase : name.map nls.upcase = e.Key.FileName.map nls.upcase := of_decide_eq_true hequal
    rw [Nls.rtlHashUnicodeString] at hvalue ⊢
    rw [hupcase, hindex, hb]
    exact ⟨hvalue, Option.some_ne_none b⟩
  have hnone (hmiss : ∀ e, h.Mem e → ¬ nls.rtlEqualUnicodeString name e.Key.FileName = true) :
      ∀ e', h.Mem e' ↔ ∃ e, h.Mem e ∧ e' =
        if nls.rtlEqualUnicodeString name e.Key.FileName then { e with pContext := SrEventInvalid }
        else e := by
    intro e'
    constructor
    · intro he'
      exact ⟨e', he', by rw [if_neg (hmiss e' he')]⟩
    · rintro ⟨e, he, rfl⟩
      rw [if_neg (hmiss e he)]
      exact he
  rw [hashClearAllFileEntries]
  cases hv : nls.rtlHashUnicodeString name with
  | none =>
    refine ⟨hok, hnone fun e he hequal => ?_⟩
    cases hv.symm.trans (hbucket e he hequal).1
  | some v =>
    dsimp only
    cases hp : h.Buckets (v % h.BucketCount) with
    | none =>
      refine ⟨hok, hnone fun e he hequal => ?_⟩
      obtain ⟨hvalue, hb⟩ := hbucket e he hequal
      obtain rfl := Option.some.inj (hv.symm.trans hvalue)
      exact hb (bucket_of_null hp)
    | some p =>
      obtain ⟨b, hpool, hb⟩ := hok.bucket_of_pointer hp
      dsimp only
      rw [hpool, Option.map_some]
      refine mapBucket_spec hok hp hb _ (fun e => by split_ifs <;> rfl)
        (fun e => by split_ifs <;> rfl) fun e he hindex => if_neg fun hequal => ?_
      obtain ⟨hvalue, -⟩ := hbucket e he hequal
      obtain rfl := Option.some.inj (hv.symm.trans hvalue)
      exact hindex rfl

end NtAdmin.Sr
