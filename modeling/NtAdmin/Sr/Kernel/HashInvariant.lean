import Mathlib.Algebra.BigOperators.Group.Finset.Basic
import NtAdmin.Sr.Kernel.HashSpec

/-! The invariant of a hash list, and what the operations do to its entries. -/
namespace NtAdmin.Sr

open SortedSearch NtStatus

/-! ### Keys -/

section keys
variable (nls : Nls)

/-- The same file and stream, without regard to case. -/
def Nls.SameKey (key key' : HashKey) : Prop :=
  nls.fold key.FileName = nls.fold key'.FileName ∧
    nls.fold key.StreamName = nls.fold key'.StreamName

instance (key key' : HashKey) : Decidable (nls.SameKey key key') :=
  inferInstanceAs (Decidable (_ ∧ _))

variable {nls}

theorem Nls.SameKey.symm {key key' : HashKey} (h : nls.SameKey key key') : nls.SameKey key' key :=
  ⟨h.1.symm, h.2.symm⟩

theorem Nls.SameKey.trans {key key' key'' : HashKey} (h : nls.SameKey key key')
    (h' : nls.SameKey key' key'') : nls.SameKey key key'' :=
  ⟨h.1.trans h'.1, h.2.trans h'.2⟩

/-- Names of one lower case are equal for the library. -/
theorem Nls.Lawful.map_upcase (hnls : nls.Lawful) {name name' : List Wchar}
    (h : nls.fold name = nls.fold name') : name.map nls.upcase = name'.map nls.upcase := by
  induction name generalizing name' with
  | nil =>
    cases name' with
    | nil => rfl
    | cons c' name' => nomatch h
  | cons c name ih =>
    cases name' with
    | nil => nomatch h
    | cons c' name' =>
      simp only [Nls.fold, List.map_cons, List.cons.injEq] at h ih ⊢
      exact ⟨hnls.upcase_eq c c' (UInt16.toNat_inj.1 h.1), ih h.2⟩

/-- Keys behind one prefix are the same exactly when their ranks are. -/
theorem rankOf_eq_iff (hnls : nls.Lawful) {pre : List Wchar} {key key' : HashKey}
    (hkey : key.Shares pre) (hkey' : key'.Shares pre) {v v' : ℕ}
    (hv : nls.rtlHashUnicodeString key.FileName = some v)
    (hv' : nls.rtlHashUnicodeString key'.FileName = some v') :
    rankOf nls pre.length v key = rankOf nls pre.length v' key' ↔ nls.SameKey key key' := by
  have hsplit : key.FileName = pre ++ key.FileName.drop pre.length := by
    conv_lhs => rw [← List.take_append_drop pre.length key.FileName, hkey.prefix_eq]
  have hsplit' : key'.FileName = pre ++ key'.FileName.drop pre.length := by
    conv_lhs => rw [← List.take_append_drop pre.length key'.FileName, hkey'.prefix_eq]
  simp only [rankOf, EmbeddingLike.apply_eq_iff_eq, Prod.mk.injEq]
  constructor
  · rintro ⟨-, -, hfile, -, hstream⟩
    refine ⟨?_, hstream⟩
    rw [hsplit, hsplit', Nls.fold, Nls.fold, List.map_append, List.map_append]
    exact congrArg _ hfile
  · rintro ⟨hfile, hstream⟩
    have hlength := congrArg List.length hfile
    have hlength' := congrArg List.length hstream
    simp only [Nls.fold, List.length_map] at hlength hlength'
    rw [Nls.rtlHashUnicodeString, hnls.map_upcase hfile] at hv
    have hhash : v = v' := Option.some.inj (hv.symm.trans hv')
    refine ⟨hhash, ?_, ?_, ?_, hstream⟩
    · rw [HashKey.Length, HashKey.Length, hlength]
    · rw [hsplit, hsplit', Nls.fold, Nls.fold, List.map_append, List.map_append] at hfile
      exact List.append_cancel_left hfile
    · rw [HashKey.StreamNameLength, HashKey.StreamNameLength, hlength']

end keys

/-! ### The invariant -/

/-- What a bucket holds. -/
structure BucketOk (nls : Nls) (pre : List Wchar) (BucketCount Index : ℕ) (b : HashBucket) :
    Prop where
  sorted : Ascending (HashEntry.rank nls pre.length) b.Entries
  room : 0 < b.AllocCount ∧ b.UsedCount ≤ b.AllocCount
  hashed : ∀ e ∈ b.Entries, nls.rtlHashUnicodeString e.Key.FileName = some e.HashValue ∧
    e.HashValue % BucketCount = Index
  shares : ∀ e ∈ b.Entries, e.Key.Shares pre

/-- The lengths of the keys of a list of entries. -/
def keyLengths (entries : List HashEntry) : ℕ := (entries.map fun e => e.Key.keyLength).sum

namespace HashHeader

def entriesAt (h : HashHeader) (Index : ℕ) : List HashEntry :=
  ((h.bucket Index).map HashBucket.Entries).getD []

/-- The lengths of all keys. -/
def totalLength (h : HashHeader) : ℕ :=
  ∑ Index ∈ Finset.range h.BucketCount, keyLengths (h.entriesAt Index)

/-- Every bucket of the pool is linked at exactly one index. -/
structure Owned (h : HashHeader) : Prop where
  allocated : ∀ i p, h.Buckets i = some p → i < h.BucketCount ∧ (h.pool p).isSome
  distinct : ∀ i j p, h.Buckets i = some p → h.Buckets j = some p → i = j
  linked : ∀ p, (h.pool p).isSome → ∃ i, h.Buckets i = some p

structure Ok (nls : Nls) (pre : List Wchar) (h : HashHeader) : Prop where
  count : 0 < h.BucketCount
  prefix_length : h.PrefixLength / 2 = pre.length
  owned : h.Owned
  buckets : ∀ i b, h.bucket i = some b → BucketOk nls pre h.BucketCount i b
  used : h.UsedLength = h.totalLength % 2 ^ 32

/-- An entry of the list. -/
def Mem (h : HashHeader) (e : HashEntry) : Prop := ∃ i b, h.bucket i = some b ∧ e ∈ b.Entries

end HashHeader

/-! ### What is found -/

theorem hashFindEntry_eq_some_iff {nls : Nls} (hnls : nls.Lawful) {pre : List Wchar}
    {h : HashHeader} (hok : h.Ok nls pre) {key : HashKey} (hkey : key.Shares pre) (c : ℕ) :
    hashFindEntry nls h key = some c ↔ ∃ e, h.Mem e ∧ nls.SameKey key e.Key ∧ e.pContext = c := by
  rw [hashFindEntry]
  cases hhash : nls.rtlHashUnicodeString key.FileName with
  | none =>
    constructor
    · intro hnone
      nomatch hnone
    · rintro ⟨e, ⟨i, b, hb, he⟩, hsame, -⟩
      have hvalue := ((hok.buckets i b hb).hashed e he).1
      rw [Nls.rtlHashUnicodeString, ← hnls.map_upcase hsame.1] at hvalue
      nomatch hhash.symm.trans hvalue
  | some v =>
    -- an entry of this key is in the bucket of its hash
    have hbucket : ∀ i b e, h.bucket i = some b → e ∈ b.Entries → nls.SameKey key e.Key →
        i = v % h.BucketCount ∧ e.rank nls pre.length = rankOf nls pre.length v key := by
      intro i b e hb he hsame
      obtain ⟨hvalue, hindex⟩ := (hok.buckets i b hb).hashed e he
      have hshares := (hok.buckets i b hb).shares e he
      have hrank := (rankOf_eq_iff hnls hkey hshares hhash hvalue).2 hsame
      have hv : v = e.HashValue := congrArg Prod.fst hrank
      exact ⟨by rw [hv, hindex], hrank.symm⟩
    simp only [Option.bind_eq_bind, Option.bind_some, hashpFindEntry]
    cases hb : h.bucket (v % h.BucketCount) with
    | none =>
      constructor
      · intro hnone
        nomatch hnone
      · rintro ⟨e, ⟨i, b, hb', he⟩, hsame, -⟩
        obtain ⟨rfl, -⟩ := hbucket i b e hb' he hsame
        nomatch hb.symm.trans hb'
    | some b =>
      have hbok := hok.buckets _ b hb
      dsimp only
      rw [hashpFindLoop_eq hnls hok.prefix_length hkey v hbok.shares hbok.sorted 0]
      dsimp only
      rw [Option.map_eq_some_iff]
      constructor
      · rintro ⟨e, hfind, hc⟩
        have he := List.mem_of_find?_eq_some hfind
        have hrank : e.rank nls pre.length = rankOf nls pre.length v key := by
          simpa using List.find?_some hfind
        have hsame := (rankOf_eq_iff hnls hkey (hbok.shares e he) hhash (hbok.hashed e he).1).1
          hrank.symm
        exact ⟨e, ⟨_, b, hb, he⟩, hsame, hc⟩
      · rintro ⟨e, ⟨i, b', hb', he⟩, hsame, hc⟩
        obtain ⟨rfl, hrank⟩ := hbucket i b' e hb' he hsame
        obtain rfl := Option.some.inj (hb.symm.trans hb')
        exact ⟨e, hrank ▸ find?_rank_eq hbok.sorted he, hc⟩

/-! ### A bucket is replaced -/

namespace HashHeader

variable {h h' : HashHeader} {i p : ℕ} {b : HashBucket}

/-- One bucket is replaced by a bucket at its own address or at a fresh one. -/
structure Put (h h' : HashHeader) (i p : ℕ) (b : HashBucket) : Prop where
  index : i < h.BucketCount
  address : h.Buckets i = some p ∨ h.pool p = none
  count : h'.BucketCount = h.BucketCount
  prefix_length : h'.PrefixLength = h.PrefixLength
  Buckets : h'.Buckets = Function.update h.Buckets i (some p)
  pool : ∀ q, h'.pool q =
    if q = p then some b else if h.Buckets i = some q then none else h.pool q

theorem Put.other (hput : h.Put h' i p b) (howned : h.Owned) {j q : ℕ} (hj : j ≠ i)
    (hq : h.Buckets j = some q) : q ≠ p ∧ h.Buckets i ≠ some q := by
  have hold : h.Buckets i ≠ some q := fun hi => hj (howned.distinct j i q hq hi)
  refine ⟨?_, hold⟩
  rintro rfl
  obtain hi | hfree := hput.address
  · exact hold hi
  · have hused := (howned.allocated j q hq).2
    rw [hfree] at hused
    nomatch hused

theorem Put.bucket (hput : h.Put h' i p b) (howned : h.Owned) (j : ℕ) :
    h'.bucket j = if j = i then some b else h.bucket j := by
  rw [HashHeader.bucket, hput.Buckets]
  split_ifs with hj
  · rw [hj, Function.update_self, Option.bind_some, hput.pool, if_pos rfl]
  · rw [Function.update_of_ne hj, HashHeader.bucket]
    cases hq : h.Buckets j with
    | none => rfl
    | some q =>
      obtain ⟨hne, hold⟩ := hput.other howned hj hq
      rw [Option.bind_some, Option.bind_some, hput.pool, if_neg hne, if_neg hold]

theorem Put.owned (hput : h.Put h' i p b) (howned : h.Owned) : h'.Owned := by
  constructor
  · intro j q hq
    rw [hput.Buckets] at hq
    rw [hput.count, hput.pool]
    by_cases hj : j = i
    · rw [hj, Function.update_self] at hq
      rw [if_pos (Option.some.inj hq).symm]
      exact ⟨hj ▸ hput.index, rfl⟩
    · rw [Function.update_of_ne hj] at hq
      obtain ⟨hne, hold⟩ := hput.other howned hj hq
      rw [if_neg hne, if_neg hold]
      exact howned.allocated j q hq
  · intro j k q hj hk
    rw [hput.Buckets] at hj hk
    by_cases hji : j = i <;> by_cases hki : k = i
    · rw [hji, hki]
    · rw [hji, Function.update_self] at hj
      rw [Function.update_of_ne hki] at hk
      exact absurd (Option.some.inj hj).symm (hput.other howned hki hk).1
    · rw [hki, Function.update_self] at hk
      rw [Function.update_of_ne hji] at hj
      exact absurd (Option.some.inj hk).symm (hput.other howned hji hj).1
    · rw [Function.update_of_ne hji] at hj
      rw [Function.update_of_ne hki] at hk
      exact howned.distinct j k q hj hk
  · intro q hq
    rw [hput.pool] at hq
    split_ifs at hq with hqp hold
    · exact ⟨i, by rw [hput.Buckets, Function.update_self, hqp]⟩
    · nomatch hq
    · obtain ⟨j, hj⟩ := howned.linked q hq
      have hji : j ≠ i := by
        rintro rfl
        exact hold hj
      exact ⟨j, by rw [hput.Buckets, Function.update_of_ne hji, hj]⟩

/-- The lengths change by those of the bucket. -/
theorem Put.totalLength (hput : h.Put h' i p b) (howned : h.Owned) :
    h'.totalLength + keyLengths (h.entriesAt i) = h.totalLength + keyLengths b.Entries := by
  have hmem : i ∈ Finset.range h.BucketCount := Finset.mem_range.2 hput.index
  have hother : ∑ j ∈ (Finset.range h.BucketCount).erase i, keyLengths (h'.entriesAt j) =
      ∑ j ∈ (Finset.range h.BucketCount).erase i, keyLengths (h.entriesAt j) := by
    refine Finset.sum_congr rfl fun j hj => ?_
    rw [entriesAt, hput.bucket howned, if_neg (Finset.ne_of_mem_erase hj), entriesAt]
  have hself : h'.entriesAt i = b.Entries := by
    rw [entriesAt, hput.bucket howned, if_pos rfl]
    rfl
  rw [HashHeader.totalLength, HashHeader.totalLength, hput.count,
    ← Finset.add_sum_erase _ _ hmem, ← Finset.add_sum_erase _ _ hmem, hother, hself]
  omega

/-- The invariant after a bucket is replaced. -/
theorem Ok.put {nls : Nls} {pre : List Wchar} (hok : h.Ok nls pre) (hput : h.Put h' i p b)
    (hb : BucketOk nls pre h.BucketCount i b) (hused : h'.UsedLength = h'.totalLength % 2 ^ 32) :
    h'.Ok nls pre := by
  constructor
  · rw [hput.count]
    exact hok.count
  · rw [hput.prefix_length]
    exact hok.prefix_length
  · exact hput.owned hok.owned
  · intro j b' hb'
    rw [hput.bucket hok.owned] at hb'
    rw [hput.count]
    split_ifs at hb' with hj
    · obtain rfl := Option.some.inj hb'
      rw [hj]
      exact hb
    · exact hok.buckets j b' hb'
  · exact hused

theorem Put.mem (hput : h.Put h' i p b) (howned : h.Owned) (e : HashEntry) :
    h'.Mem e ↔ e ∈ b.Entries ∨ ∃ j b', j ≠ i ∧ h.bucket j = some b' ∧ e ∈ b'.Entries := by
  simp only [Mem, hput.bucket howned]
  constructor
  · rintro ⟨j, b', hb', he⟩
    split_ifs at hb' with hj
    · obtain rfl := Option.some.inj hb'
      exact Or.inl he
    · exact Or.inr ⟨j, b', hj, hb', he⟩
  · rintro (he | ⟨j, b', hj, hb', he⟩)
    · exact ⟨i, b, if_pos rfl, he⟩
    · exact ⟨j, b', by rw [if_neg hj, hb'], he⟩

end HashHeader

end NtAdmin.Sr
