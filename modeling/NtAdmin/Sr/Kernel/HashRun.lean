import NtAdmin.Sr.Kernel.HashOperations

/-! Runs of a hash list: a lookup finds the keys that were added and not thrown away since. -/
namespace NtAdmin.Sr

open SortedSearch NtStatus HashHeader

variable (nls : Nls)

/-! ### Runs -/

/-- The calls, with what the pool and the clock give them. -/
inductive HashOp
  | add (pKey : HashKey) (pContext : ℕ) (address : Option ℕ) (keyBuffer : Bool)
      (clock : TrimClock)
  | find (pKey : HashKey)
  | clearAllFileEntries (pFileName : List Wchar)
  | trim (clock : TrimClock)
  | clear

/-- What a call did: a key got a context, keys were trimmed, the entries of a file were cleared, or
all of them. -/
inductive HashEvent
  | set (key : HashKey) (pContext : ℕ)
  | trimmed (key : HashKey)
  | fileCleared (pFileName : List Wchar)
  | cleared

def trimEvents (thrown : List HashEntry) : List HashEvent := thrown.map fun e => .trimmed e.Key

def HashOp.step (pHeader : HashHeader) : HashOp → HashHeader × List HashEvent
  | add pKey pContext address keyBuffer clock =>
    let (Status, pHeader, thrown) := hashAddEntry nls pHeader pKey pContext address keyBuffer clock
    (pHeader, trimEvents thrown ++
      if Status = STATUS_SUCCESS ∨ Status = STATUS_DUPLICATE_OBJECTID then [.set pKey pContext]
      else [])
  | find _ => (pHeader, [])
  | clearAllFileEntries pFileName =>
    ((hashClearAllFileEntries nls pHeader pFileName).2, [.fileCleared pFileName])
  | trim clock =>
    let (pHeader, thrown) := hashTrimList clock pHeader
    (pHeader, trimEvents thrown)
  | clear => ((hashClearEntries pHeader).1, [.cleared])

def hashRun (pHeader : HashHeader) : List HashOp → HashHeader × List HashEvent
  | [] => (pHeader, [])
  | op :: ops =>
    let (pHeader, events) := op.step nls pHeader
    let (pHeader, events') := hashRun pHeader ops
    (pHeader, events ++ events')

/-- The keys of a call. -/
def HashOp.Shares (pre : List Wchar) : HashOp → Prop
  | add pKey _ _ _ _ => pKey.Shares pre
  | _ => True

/-! ### What is held -/

/-- The contexts of the keys after an event. -/
def HashEvent.apply (contexts : HashKey → Option ℕ) : HashEvent → HashKey → Option ℕ
  | set key pContext, key' => if nls.SameKey key' key then some pContext else contexts key'
  | trimmed key, key' => if nls.SameKey key' key then none else contexts key'
  | fileCleared pFileName, key' =>
    if nls.rtlEqualUnicodeString pFileName key'.FileName then
      (contexts key').map fun _ => SrEventInvalid
    else contexts key'
  | cleared, _ => none

/-- The contexts after the events of a run, from a list without entries. -/
def contextsAfter (contexts : HashKey → Option ℕ) (events : List HashEvent) : HashKey → Option ℕ :=
  events.foldl (HashEvent.apply nls) contexts

section runs
variable {nls} {pre : List Wchar} {h h' : HashHeader} {contexts : HashKey → Option ℕ}

/-- The list holds the contexts. -/
def Holds (nls : Nls) (pre : List Wchar) (h : HashHeader) (contexts : HashKey → Option ℕ) : Prop :=
  ∀ key : HashKey, key.Shares pre → ∀ c,
    contexts key = some c ↔ ∃ e, h.Mem e ∧ nls.SameKey key e.Key ∧ e.pContext = c

theorem contextsAfter_trimEvents (thrown : List HashEntry) (contexts : HashKey → Option ℕ)
    (key : HashKey) : contextsAfter nls contexts (trimEvents thrown) key =
      if ∃ e ∈ thrown, nls.SameKey key e.Key then none else contexts key := by
  classical
  induction thrown generalizing contexts with
  | nil => simp [trimEvents, contextsAfter]
  | cons e thrown ih =>
    have hstep : contextsAfter nls contexts (trimEvents (e :: thrown)) =
        contextsAfter nls (HashEvent.apply nls contexts (.trimmed e.Key)) (trimEvents thrown) := rfl
    rw [hstep, ih, HashEvent.apply]
    by_cases hsame : nls.SameKey key e.Key <;> simp [hsame]

theorem HashHeader.Thrown.holds (hnls : nls.Lawful) (hok : h.Ok nls pre) {thrown : List HashEntry}
    (hthrown : Thrown nls pre h h' thrown) (hholds : Holds nls pre h contexts) :
    Holds nls pre h' (contextsAfter nls contexts (trimEvents thrown)) := by
  intro key hkey c
  rw [contextsAfter_trimEvents]
  split_ifs with hgone
  · obtain ⟨t, ht, hsame⟩ := hgone
    refine ⟨fun hnone => (nomatch hnone), ?_⟩
    rintro ⟨e, he, hsame', -⟩
    obtain ⟨hbefore, hkept⟩ := (hthrown.mem e).1 he
    have heq := hok.unique hnls (hthrown.thrown_mem t ht) hbefore (hsame.symm.trans hsame')
    exact absurd (heq ▸ ht) hkept
  · rw [hholds key hkey c]
    constructor
    · rintro ⟨e, he, hsame, hc⟩
      exact ⟨e, (hthrown.mem e).2 ⟨he, fun ht => hgone ⟨e, ht, hsame⟩⟩, hsame, hc⟩
    · rintro ⟨e, he, hsame, hc⟩
      exact ⟨e, ((hthrown.mem e).1 he).1, hsame, hc⟩

/-- A key that is added or set has its context, and the others keep theirs. -/
theorem Added.holds {key : HashKey} {pContext : ℕ} {Status : NtStatus}
    (hadded : Added nls h h' key pContext Status) (hholds : Holds nls pre h contexts) :
    Holds nls pre h' (contextsAfter nls contexts
      (if Status = STATUS_SUCCESS ∨ Status = STATUS_DUPLICATE_OBJECTID then [.set key pContext]
        else [])) := by
  cases hadded with
  | failed hfailure hfailure' hsame =>
    rw [if_neg (by simp [hfailure, hfailure']), hsame]
    exact hholds
  | success hkey hcontext hnew hmem =>
    rw [if_pos (Or.inl rfl)]
    intro key' hkey' c
    have happly : contextsAfter nls contexts [.set key pContext] key' =
        if nls.SameKey key' key then some pContext else contexts key' := rfl
    rw [happly]
    split_ifs with hsame
    · constructor
      · intro hc
        exact ⟨_, (hmem _).2 (Or.inl rfl), hkey ▸ hsame, hcontext.trans (Option.some.inj hc)⟩
      · rintro ⟨e, he, hsame', rfl⟩
        obtain rfl | he := (hmem e).1 he
        · rw [hcontext]
        · exact absurd (hsame.symm.trans hsame') (hnew e he)
    · rw [hholds key' hkey' c]
      constructor
      · rintro ⟨e, he, hsame', hc⟩
        exact ⟨e, (hmem e).2 (Or.inr he), hsame', hc⟩
      · rintro ⟨e, he, hsame', hc⟩
        obtain rfl | he := (hmem e).1 he
        · exact absurd (hkey ▸ hsame') hsame
        · exact ⟨e, he, hsame', hc⟩
  | duplicate hold hmem =>
    rw [if_pos (Or.inr rfl)]
    intro key' hkey' c
    have happly : contextsAfter nls contexts [.set key pContext] key' =
        if nls.SameKey key' key then some pContext else contexts key' := rfl
    rw [happly]
    split_ifs with hsame
    · constructor
      · intro hc
        obtain ⟨e, he, hsame'⟩ := hold
        refine ⟨withContext nls key pContext e, (hmem _).2 ⟨e, he, rfl⟩, ?_, ?_⟩
        · rw [withContext, if_pos hsame']
          exact hsame.trans hsame'
        · rw [withContext, if_pos hsame']
          exact Option.some.inj hc
      · rintro ⟨e', he', hsame', rfl⟩
        obtain ⟨e, he, rfl⟩ := (hmem e').1 he'
        have hsame'' : nls.SameKey key e.Key := by
          rw [withContext] at hsame'
          split_ifs at hsame' with hsame''
          · exact hsame''
          · exact hsame.symm.trans hsame'
        rw [withContext, if_pos hsame'']
    · rw [hholds key' hkey' c]
      constructor
      · rintro ⟨e, he, hsame', hc⟩
        refine ⟨e, (hmem e).2 ⟨e, he, ?_⟩, hsame', hc⟩
        rw [withContext, if_neg fun hsame'' => hsame (hsame'.trans hsame''.symm)]
      · rintro ⟨e', he', hsame', hc⟩
        obtain ⟨e, he, rfl⟩ := (hmem e').1 he'
        rw [withContext] at hsame' hc
        split_ifs at hsame' hc with hsame''
        · exact absurd (hsame'.trans hsame''.symm) hsame
        · exact ⟨e, he, hsame', hc⟩

theorem fileCleared_holds (hnls : nls.Lawful) (name : List Wchar)
    (hmem : ∀ e', h'.Mem e' ↔ ∃ e, h.Mem e ∧ e' =
      if nls.rtlEqualUnicodeString name e.Key.FileName then { e with pContext := SrEventInvalid }
      else e)
    (hholds : Holds nls pre h contexts) :
    Holds nls pre h' (contextsAfter nls contexts [.fileCleared name]) := by
  intro key hkey c
  have happly : contextsAfter nls contexts [.fileCleared name] key =
      if nls.rtlEqualUnicodeString name key.FileName then
        (contexts key).map fun _ => SrEventInvalid
      else contexts key := rfl
  have hequal : ∀ e : HashEntry, nls.SameKey key e.Key →
      nls.rtlEqualUnicodeString name e.Key.FileName =
        nls.rtlEqualUnicodeString name key.FileName := by
    intro e hsame
    rw [Nls.rtlEqualUnicodeString, Nls.rtlEqualUnicodeString, hnls.map_upcase hsame.1]
  have hkeyOf : ∀ e : HashEntry, (if nls.rtlEqualUnicodeString name e.Key.FileName then
      { e with pContext := SrEventInvalid } else e).Key = e.Key := by
    intro e
    split_ifs <;> rfl
  rw [happly]
  by_cases hfile : nls.rtlEqualUnicodeString name key.FileName = true
  · rw [if_pos hfile, Option.map_eq_some_iff]
    constructor
    · rintro ⟨c', hc', hc⟩
      obtain ⟨e, he, hsame, -⟩ := (hholds key hkey c').1 hc'
      refine ⟨_, (hmem _).2 ⟨e, he, rfl⟩, ?_, ?_⟩
      · rw [hkeyOf]
        exact hsame
      · rw [if_pos ((hequal e hsame).trans hfile)]
        exact hc
    · rintro ⟨e', he', hsame, hc⟩
      obtain ⟨e, he, rfl⟩ := (hmem e').1 he'
      rw [hkeyOf] at hsame
      rw [if_pos ((hequal e hsame).trans hfile)] at hc
      exact ⟨e.pContext, (hholds key hkey _).2 ⟨e, he, hsame, rfl⟩, hc⟩
  · rw [if_neg hfile, hholds key hkey c]
    constructor
    · rintro ⟨e, he, hsame, hc⟩
      refine ⟨e, (hmem e).2 ⟨e, he, ?_⟩, hsame, hc⟩
      rw [if_neg fun h => hfile ((hequal e hsame).symm.trans h)]
    · rintro ⟨e', he', hsame, hc⟩
      obtain ⟨e, he, rfl⟩ := (hmem e').1 he'
      rw [hkeyOf] at hsame
      rw [if_neg fun h => hfile ((hequal e hsame).symm.trans h)] at hc
      exact ⟨e, he, hsame, hc⟩

theorem contextsAfter_append (events events' : List HashEvent) :
    contextsAfter nls contexts (events ++ events') =
      contextsAfter nls (contextsAfter nls contexts events) events' :=
  List.foldl_append

/-- A call keeps the invariant, and the list holds what the call did. -/
theorem HashOp.step_holds (hnls : nls.Lawful) (hok : h.Ok nls pre)
    (hholds : Holds nls pre h contexts) {op : HashOp} (hop : op.Shares pre) :
    (op.step nls h).1.Ok nls pre ∧
      Holds nls pre (op.step nls h).1 (contextsAfter nls contexts (op.step nls h).2) := by
  cases op with
  | add pKey pContext address keyBuffer clock =>
    obtain ⟨hthrown, hok', hadded⟩ :=
      hashAddEntry_spec hnls hok hop pContext address keyBuffer clock
    have htrimmed := (trimmed_spec hok clock).holds hnls hok hholds
    rw [HashOp.step]
    dsimp only
    rw [contextsAfter_append, hthrown]
    exact ⟨hok', hadded.holds htrimmed⟩
  | find pKey => exact ⟨hok, hholds⟩
  | clearAllFileEntries pFileName =>
    obtain ⟨hok', hmem⟩ := hashClearAllFileEntries_spec hok pFileName
    exact ⟨hok', fileCleared_holds hnls pFileName hmem hholds⟩
  | trim clock =>
    have htrim := hashTrimList_spec hok clock
    exact ⟨htrim.ok, htrim.holds hnls hok hholds⟩
  | clear =>
    obtain ⟨hok', hempty⟩ := hashClearEntries_spec hok
    refine ⟨hok', fun key _ c => ?_⟩
    constructor
    · intro hnone
      nomatch hnone
    · rintro ⟨e, he, -⟩
      exact absurd he (hempty e)

theorem hashRun_spec (hnls : nls.Lawful) (hok : h.Ok nls pre) (hholds : Holds nls pre h contexts)
    (ops : List HashOp) (hops : ∀ op ∈ ops, op.Shares pre) :
    (hashRun nls h ops).1.Ok nls pre ∧
      Holds nls pre (hashRun nls h ops).1 (contextsAfter nls contexts (hashRun nls h ops).2) := by
  induction ops generalizing h contexts with
  | nil => exact ⟨hok, hholds⟩
  | cons op ops ih =>
    obtain ⟨hok', hholds'⟩ := HashOp.step_holds hnls hok hholds (hops op List.mem_cons_self)
    rw [hashRun]
    dsimp only
    rw [contextsAfter_append]
    exact ih hok' hholds' fun op' hop' => hops op' (List.mem_cons_of_mem op hop')

theorem create_ok {BucketCount AllowedLength PrefixLength : ℕ} (hcount : 0 < BucketCount)
    (hskip : PrefixLength / 2 = pre.length) :
    (create BucketCount AllowedLength PrefixLength).Ok nls pre := by
  constructor
  · exact hcount
  · exact hskip
  · constructor
    · intro i p hp
      nomatch hp
    · intro i j p hp
      nomatch hp
    · intro p hp
      nomatch hp
  · intro i b hb
    nomatch hb
  · simp [totalLength, create, entriesAt, bucket, keyLengths]

/-- After every run from a new list whose keys share the characters that comparisons skip, the
buckets are sorted and have room, the used length counts the keys, every bucket of the pool is
linked once, a lookup gives the context of the last event of its key, so that the search never stops
in front of an entry of the key, and an addition that fails leaves the list as it was trimmed. -/
theorem hashRun_holds (hnls : nls.Lawful) {BucketCount AllowedLength PrefixLength : ℕ}
    (hcount : 0 < BucketCount) (hskip : PrefixLength / 2 = pre.length) (ops : List HashOp)
    (hops : ∀ op ∈ ops, op.Shares pre) :
    let run := hashRun nls (create BucketCount AllowedLength PrefixLength) ops
    (∀ i b, run.1.bucket i = some b →
      Ascending (HashEntry.rank nls pre.length) b.Entries ∧ b.UsedCount ≤ b.AllocCount) ∧
    run.1.UsedLength = run.1.totalLength % 2 ^ 32 ∧
    run.1.Owned ∧
    (∀ key : HashKey, key.Shares pre →
      hashFindEntry nls run.1 key = contextsAfter nls (fun _ => none) run.2 key) ∧
    (∀ key : HashKey, key.Shares pre →
      ((hashFindEntry nls run.1 key).isSome ↔ ∃ e, run.1.Mem e ∧ nls.SameKey key e.Key)) ∧
    ∀ (key : HashKey) (pContext : ℕ) (address : Option ℕ) (keyBuffer : Bool) (clock : TrimClock),
      key.Shares pre →
      let added := hashAddEntry nls run.1 key pContext address keyBuffer clock
      added.1 ≠ STATUS_SUCCESS → added.1 ≠ STATUS_DUPLICATE_OBJECTID →
        added.2.1 = (trimmed clock run.1).1 := by
  intro run
  have hempty : Holds nls pre (create BucketCount AllowedLength PrefixLength) fun _ => none := by
    intro key _ c
    constructor
    · intro hnone
      nomatch hnone
    · rintro ⟨e, ⟨i, b, hb, -⟩, -⟩
      nomatch hb
  obtain ⟨hok, hholds⟩ := hashRun_spec hnls (create_ok hcount hskip) hempty ops hops
  refine ⟨fun i b hb => ?_, hok.used, hok.owned, fun key hkey => ?_, fun key hkey => ?_, ?_⟩
  · exact ⟨(hok.buckets i b hb).sorted, (hok.buckets i b hb).room.2⟩
  · refine Option.ext fun c => ?_
    rw [hashFindEntry_eq_some_iff hnls hok hkey, hholds key hkey]
  · rw [Option.isSome_iff_exists]
    constructor
    · rintro ⟨c, hc⟩
      obtain ⟨e, he, hsame, -⟩ := (hashFindEntry_eq_some_iff hnls hok hkey c).1 hc
      exact ⟨e, he, hsame⟩
    · rintro ⟨e, he, hsame⟩
      exact ⟨e.pContext, (hashFindEntry_eq_some_iff hnls hok hkey _).2 ⟨e, he, hsame, rfl⟩⟩
  · intro key pContext address keyBuffer clock hkey added hsuccess hduplicate
    obtain ⟨-, -, hadded⟩ := hashAddEntry_spec hnls hok hkey pContext address keyBuffer clock
    generalize hstatus : (hashAddEntry nls run.1 key pContext address keyBuffer clock).1 = Status
      at hadded
    cases hadded with
    | success => exact absurd hstatus hsuccess
    | duplicate => exact absurd hstatus hduplicate
    | failed _ _ hsame => exact hsame

end runs

/-- The cases of the letters of ASCII, and a hash that adds the characters. -/
def asciiNls : Nls where
  upcase c := if 97 ≤ c ∧ c ≤ 122 then c - 32 else c
  towlower c := if 65 ≤ c ∧ c ≤ 90 then c + 32 else c
  hash name := some ((name.map UInt16.toNat).sum)

theorem asciiNls_lawful : asciiNls.Lawful := by
  constructor
  · intro c
    simp only [asciiNls]
    split_ifs <;> grind
  · intro c c'
    simp only [asciiNls]
    split_ifs <;> grind

theorem hashRun_holds_of_two_streams :
    let key : HashKey := ⟨[92, 86, 92, 97], [58, 115]⟩
    let key' : HashKey := ⟨[92, 86, 92, 65], []⟩
    let run := hashRun asciiNls (create 7 100 4)
      [.add key 1 (some 0) true ⟨5, 5, fun _ => 5⟩, .add key' 2 (some 1) false ⟨5, 5, fun _ => 5⟩]
    hashFindEntry asciiNls run.1 key = contextsAfter asciiNls (fun _ => none) run.2 key := by
  intro key key' run
  have hkey : key.Shares [92, 86] := ⟨rfl, by decide⟩
  have hkey' : key'.Shares [92, 86] := ⟨rfl, by decide⟩
  have hcount : 0 < 7 := by decide
  have hall := @hashRun_holds asciiNls [92, 86] asciiNls_lawful 7 100 4 hcount rfl
    [.add key 1 (some 0) true ⟨5, 5, fun _ => 5⟩, .add key' 2 (some 1) false ⟨5, 5, fun _ => 5⟩]
    (by simp [HashOp.Shares, hkey, hkey'])
  exact hall.2.2.2.1 key hkey

end NtAdmin.Sr
