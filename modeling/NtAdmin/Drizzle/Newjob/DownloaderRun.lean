import NtAdmin.Drizzle.Newjob.Downloader

/-! What the two kinds of download leave in the local file. -/
namespace NtAdmin.Drizzle.Newjob

open NtAdmin.Lib

/-- The server honours ranges, no call fails and nobody aborts. -/
structure Honours (t : Transport) (remote : List UInt8) : Prop where
  fileSize : t.fileSize = remote.length
  reply : ∀ first last, first ≤ last → last < remote.length →
    ∃ r, t.sendRequest first last = .ok r ∧
      r.body = (remote.drop first).take (last + 1 - first) ∧
      (r.status = httpStatusPartialContent ∧
          r.contentRange = some (some (first, last, remote.length)) ∨
        r.status = httpStatusOk ∧ first = 0 ∧ r.contentLength = some (some (last + 1)))
  readFile : ∀ i, ∃ n, t.readFile i = some n
  abort : ∀ i, t.abort i = false

/-- The local file has the remote bytes from `start` to `o`, and in front of them what it had. -/
structure Fetched (remote file : List UInt8) (start o : ℕ) (f : List UInt8) : Prop where
  length : f.length = remote.length
  start_le : start ≤ o
  le : o ≤ remote.length
  bytes : f.take o = file.take start ++ (remote.drop start).take (o - start)

variable {t : Transport} {remote file : List UInt8} {start e n : ℕ} {d : Download}
  {reply buffer : List UInt8} {E : Stop → Download → Prop}

/-- The download has what it is after. -/
theorem Fetched.done {f : List UInt8} (h : Fetched remote file start remote.length f) :
    f = file.take start ++ remote.drop start := by
  have hbytes := h.bytes
  have hall : (remote.drop start).take (remote.length - start) = remote.drop start :=
    List.take_of_length_le (Nat.le_of_eq List.length_drop)
  rw [hall, ← h.length, List.take_length] at hbytes
  exact hbytes

theorem Fetched.write {o : ℕ} {f : List UInt8} (h : Fetched remote file start o f) (n : ℕ) :
    Fetched remote file start (o + ((remote.drop o).take n).length)
      (writeAt 0 f o ((remote.drop o).take n)) := by
  by_cases hnil : (remote.drop o).take n = []
  · rw [hnil, writeAt_nil, List.length_nil, Nat.add_zero]
    exact h
  · have hle : o + ((remote.drop o).take n).length ≤ remote.length := by
      have hstart := h.le
      rw [List.length_take, List.length_drop]
      omega
    have hstart := h.start_le
    have hlen := h.length
    have htake := List.prefix_iff_eq_take.mp (List.take_prefix n (remote.drop o))
    refine ⟨?_, by omega, hle, ?_⟩
    · rw [length_writeAt_of_ne 0 f o hnil, hlen]
      omega
    · have hgap : o - f.length = 0 := by omega
      have hfront : (f.take o).length = o := by
        rw [List.length_take]
        omega
      have hmore : o + ((remote.drop o).take n).length - start =
          (o - start) + ((remote.drop o).take n).length := by omega
      have hat : start + (o - start) = o := by omega
      rw [writeAt, if_neg hnil, hgap, List.replicate_zero, List.append_nil, List.append_assoc,
        List.take_append, hfront, Nat.add_sub_cancel_left, List.take_append_of_le_length (Nat.le_refl _),
        List.take_length, List.take_of_length_le (by rw [hfront]; omega), h.bytes, hmore,
        List.take_add, List.drop_drop, hat, ← htake, List.append_assoc]

theorem pollAbort_spec (h : Honours t remote) {Q : Unit → Download → Prop}
    (hQ : ∀ d', d'.file = d.file → d'.currentOffset = d.currentOffset → Q () d') :
    (pollAbort t).wp Q E d := by
  unfold pollAbort
  simp only [Prog.wp_bind, Prog.wp_get, Prog.wp_set, Prog.wp_ite, Prog.wp_throw, Prog.wp_pure,
    h.abort]
  exact ⟨fun hfalse => absurd hfalse Bool.false_ne_true, fun _ => hQ _ rfl rfl⟩

theorem internetReadFile_spec (h : Honours t remote) {Q : List UInt8 × List UInt8 → Download → Prop}
    (hQ : ∀ k d', k ≤ n → (0 < n → 0 < k) → d'.file = d.file →
      d'.currentOffset = d.currentOffset → Q (reply.take k, reply.drop k) d') :
    (internetReadFile t reply n).wp Q E d := by
  obtain ⟨m, hm⟩ := h.readFile d.reads
  unfold internetReadFile
  simp only [Prog.wp_bind, Prog.wp_get, Prog.wp_set, hm, Prog.wp_pure]
  exact hQ _ _ (Nat.min_le_left n (m + 1)) (fun hn => by omega) rfl rfl

/-- A block takes what there is of it from the reply, however the reads split it. -/
theorem readBlock_spec (h : Honours t remote) {Q : List UInt8 × List UInt8 → Download → Prop}
    (hQ : ∀ d', d'.file = d.file → d'.currentOffset = d.currentOffset →
      Q (buffer ++ reply.take n, reply.drop n) d') :
    (readBlock t reply buffer n).wp Q E d := by
  induction n using Nat.strongRecOn generalizing reply buffer d with
  | ind n ih =>
    rw [readBlock]
    simp only [Prog.wp_bind]
    refine internetReadFile_spec h fun k d' hk hpos hf ho => ?_
    dsimp only
    split_ifs with hread hleft
    · -- The reply is at its end, or no byte was asked for.
      rw [Prog.wp_pure]
      have hnone : n = 0 ∨ reply = [] := by
        rcases Nat.eq_zero_or_pos n with h0 | hn
        · exact Or.inl h0
        · exact Or.inr ((List.take_eq_nil_iff.mp hread).resolve_left (by have := hpos hn; omega))
      have hdone := hQ d' hf ho
      rcases hnone with rfl | rfl
      · rw [Nat.le_zero.mp hk, List.drop_zero]
        rwa [List.take_zero, List.append_nil, List.drop_zero] at hdone
      · rw [List.drop_nil]
        rwa [List.take_nil, List.append_nil, List.drop_nil] at hdone
    · rw [Prog.wp_pure]
      have hlen : (reply.take k).length = min k reply.length := List.length_take
      have hkn : k = n := by omega
      rw [hkn]
      exact hQ d' hf ho
    · rw [Prog.wp_bind]
      refine pollAbort_spec h fun d'' hf' ho' => ?_
      have hlen : (reply.take k).length = min k reply.length := List.length_take
      have hgot := List.length_pos_of_ne_nil hread
      have htake : reply.take k = reply.take (reply.take k).length :=
        List.prefix_iff_eq_take.mp (List.take_prefix k reply)
      have hdrop : reply.drop k = reply.drop (reply.take k).length := by
        rw [hlen]
        rcases Nat.le_total k reply.length with hle | hle
        · rw [Nat.min_eq_left hle]
        · rw [Nat.min_eq_right hle, List.drop_length, List.drop_of_length_le hle]
      have hsum : (reply.take k).length + (n - (reply.take k).length) = n := by omega
      refine ih (n - (reply.take k).length) (by omega) fun d''' hf'' ho'' => ?_
      have hall := hQ d''' (hf''.trans (hf'.trans hf)) (ho''.trans (ho'.trans ho))
      rw [← hsum, List.take_add, ← htake, ← hdrop, ← List.append_assoc, ← List.drop_drop, ← hdrop]
        at hall
      exact hall

theorem startRangeRequest_spec (h : Honours t remote) {Q : List UInt8 → Download → Prop}
    (hn : 0 < n) (hle : d.currentOffset + n ≤ remote.length)
    (hQ : Q ((remote.drop d.currentOffset).take n) d) :
    (startRangeRequest t n).wp Q E d := by
  obtain ⟨r, hr, hbody, hhead⟩ := h.reply d.currentOffset (d.currentOffset + n - 1) (by omega)
    (by omega)
  have hcount : d.currentOffset + n - 1 + 1 - d.currentOffset = n := by omega
  have hlast : d.currentOffset + n - 1 + 1 = d.currentOffset + n := by omega
  rw [hcount] at hbody
  rw [hlast] at hhead
  unfold startRangeRequest
  simp only [Prog.wp_bind, Prog.wp_get, hr]
  dsimp only [bind, Except.bind]
  rcases hhead with ⟨hstatus, hrange⟩ | ⟨hstatus, hzero, hlength⟩
  · rw [hstatus, if_neg (by decide), if_neg (by decide), if_pos rfl, checkReplyRange, hrange,
      h.fileSize]
    dsimp only
    rw [if_neg (not_not_intro rfl)]
    rw [← hbody] at hQ
    exact hQ
  · rw [hstatus, if_neg (by decide), if_neg (by decide), if_neg (by decide), checkReplyLength,
      if_neg (not_not_intro hzero), hlength]
    dsimp only
    rw [if_neg (not_not_intro (by rw [hzero, Nat.zero_add]))]
    rw [← hbody] at hQ
    exact hQ

theorem writeBlockToCache_spec {Q : Unit → Download → Prop}
    (hd : Fetched remote file start d.currentOffset d.file)
    (hQ : ∀ d', d'.currentOffset =
        d.currentOffset + ((remote.drop d.currentOffset).take n).length →
      Fetched remote file start d'.currentOffset d'.file → Q () d') :
    (writeBlockToCache ((remote.drop d.currentOffset).take n)).wp Q E d := by
  unfold writeBlockToCache
  rw [Prog.wp_modify]
  exact hQ _ rfl (hd.write n)

theorem isFileComplete_spec (h : Honours t remote) {Q : Bool → Download → Prop}
    (hQ : Q (d.currentOffset == remote.length) d) : (isFileComplete t).wp Q E d := by
  unfold isFileComplete
  rw [Prog.wp_bind, Prog.wp_get, Prog.wp_pure, h.fileSize]
  exact hQ

theorem nextForegroundBlockSize_spec (delta remaining : ℕ) (hn : 0 < n) :
    nextForegroundBlockSize delta n remaining ≤ remaining ∧
      (0 < remaining → 0 < nextForegroundBlockSize delta n remaining) := by
  have hbuffer : 0 < fileDataBufferLen := by decide
  have hblock : 0 < minForegroundBlock := by decide
  refine ⟨Nat.min_le_right _ _, fun hr => ?_⟩
  refine Nat.lt_min.mpr ⟨?_, hr⟩
  split_ifs
  · exact Nat.lt_min.mpr ⟨Nat.add_pos_left hn _, hbuffer⟩
  · exact Nat.lt_of_lt_of_le hblock (Nat.le_max_right _ _)
  · exact hn

/-- A reply up to the end of the file is read to its end. -/
theorem readBlocks_last (h : Honours t remote) (fuel : ℕ)
    (hd : Fetched remote file start d.currentOffset d.file)
    (hn : n ≤ remote.length - d.currentOffset)
    (hpos : d.currentOffset < remote.length → 0 < n)
    (hreply : reply = remote.drop d.currentOffset)
    (hfuel : remote.length - d.currentOffset < fuel) :
    (readBlocks t fuel reply n).wp
      (fun r d' => r = some () ∧ d'.currentOffset = remote.length ∧
        Fetched remote file start d'.currentOffset d'.file) (fun _ _ => False) d := by
  induction fuel generalizing reply n d with
  | zero => exact absurd hfuel (Nat.not_lt_zero _)
  | succ fuel ih =>
    rw [readBlocks]
    simp only [Prog.wp_bind]
    refine pollAbort_spec h fun d₁ hf₁ ho₁ => ?_
    rw [Prog.wp_bind]
    refine isFileComplete_spec h ?_
    rw [← hf₁, ← ho₁] at hd
    rw [← ho₁] at hn hpos hreply hfuel
    simp only [beq_iff_eq, Prog.wp_ite, Prog.wp_pure, Prog.wp_bind]
    refine ⟨fun hdone => ⟨trivial, hdone, hd⟩, fun hmore => ?_⟩
    have hlt := Nat.lt_of_le_of_ne hd.le hmore
    refine readBlock_spec h fun d₂ hf₂ ho₂ => ?_
    rw [List.nil_append, hreply, ← ho₂]
    rw [← hf₂, ← ho₂] at hd
    rw [← ho₂] at hn hpos hreply hfuel hlt
    dsimp only
    rw [Prog.wp_bind]
    refine writeBlockToCache_spec hd fun d₃ ho₃ hd₃ => ?_
    have hlen : ((remote.drop d₂.currentOffset).take n).length = n := by
      rw [List.length_take, List.length_drop]
      omega
    have hnpos := hpos hlt
    rw [hlen] at ho₃ ⊢
    simp only [Prog.wp_get, Prog.wp_ite, Prog.wp_bind]
    refine ⟨fun hshort => absurd rfl hshort.1, fun _ => ?_⟩
    refine pollAbort_spec h fun d₄ hf₄ ho₄ => ?_
    obtain ⟨hle, hnext⟩ := nextForegroundBlockSize_spec (t.timeDelta d₃.reads)
      (t.fileSize - d₃.currentOffset) hnpos
    rw [h.fileSize] at hle hnext ⊢
    refine ih (by rw [hf₄, ho₄]; exact hd₃) (by rw [ho₄]; exact hle) (fun hlt' => hnext ?_)
      ?_ (by omega)
    · rw [ho₄] at hlt'
      omega
    · rw [List.drop_drop, ho₄, ho₃]

/-- A reply that ends before the file does stops the download, however it is read. -/
theorem readBlocks_short (h : Honours t remote) (fuel : ℕ)
    (hd : Fetched remote file start d.currentOffset d.file) (hle : d.currentOffset ≤ e)
    (he : e < remote.length) (hreply : reply = (remote.drop d.currentOffset).take (e - d.currentOffset)) :
    (readBlocks t fuel reply n).wp (fun r _ => r = none) (fun _ _ => True) d := by
  induction fuel generalizing reply n d with
  | zero =>
    rw [readBlocks, Prog.wp_pure]
  | succ fuel ih =>
    rw [readBlocks]
    simp only [Prog.wp_bind]
    refine pollAbort_spec h fun d₁ hf₁ ho₁ => ?_
    rw [Prog.wp_bind]
    refine isFileComplete_spec h ?_
    rw [← hf₁, ← ho₁] at hd
    rw [← ho₁] at hle hreply
    simp only [beq_iff_eq, Prog.wp_ite, Prog.wp_pure, Prog.wp_bind]
    refine ⟨fun hdone => by omega, fun _ => ?_⟩
    refine readBlock_spec h fun d₂ hf₂ ho₂ => ?_
    rw [List.nil_append, hreply, List.take_take, ← ho₂]
    rw [← hf₂, ← ho₂] at hd
    rw [← ho₂] at hle hreply
    dsimp only
    rw [Prog.wp_bind]
    refine writeBlockToCache_spec hd fun d₃ ho₃ hd₃ => ?_
    have hlen : ((remote.drop d₂.currentOffset).take (min n (e - d₂.currentOffset))).length =
        min n (e - d₂.currentOffset) := by
      rw [List.length_take, List.length_drop]
      omega
    rw [hlen] at ho₃ ⊢
    simp only [Prog.wp_get, Prog.wp_ite, Prog.wp_throw, Prog.wp_bind, h.fileSize]
    refine ⟨fun _ => trivial, fun hgo => ?_⟩
    refine pollAbort_spec h fun d₄ hf₄ ho₄ => ?_
    have hfull : min n (e - d₂.currentOffset) = n := by
      by_contra hshort
      exact hgo ⟨hshort, by omega⟩
    refine ih (by rw [hf₄, ho₄]; exact hd₃) (by omega) ?_
    have hrest : e - d₄.currentOffset = e - d₂.currentOffset - n := by omega
    rw [List.drop_take, List.drop_drop, hrest, ho₄, ho₃, hfull]

/-- A throttled block is written as it comes in. -/
theorem readThrottled_spec (h : Honours t remote) {Q : Unit → Download → Prop}
    (hd : Fetched remote file start d.currentOffset d.file)
    (hle : d.currentOffset + n ≤ remote.length)
    (hreply : reply = (remote.drop d.currentOffset).take n)
    (hQ : ∀ d', d'.currentOffset = d.currentOffset + n →
      Fetched remote file start d'.currentOffset d'.file → Q () d') :
    (readThrottled t reply n).wp Q E d := by
  induction n using Nat.strongRecOn generalizing reply d with
  | ind n ih =>
    rw [readThrottled]
    split_ifs with hleft
    · rw [Prog.wp_pure]
      exact hQ d (by omega) hd
    · rw [Prog.wp_bind]
      refine internetReadFile_spec h fun k d₁ hk hpos hf₁ ho₁ => ?_
      have hbuffer : 0 < fileDataBufferLen := by decide
      have hkpos : 0 < k := hpos (Nat.lt_min.mpr ⟨Nat.pos_of_ne_zero hleft, hbuffer⟩)
      have hkn : k ≤ n := Nat.le_trans hk (Nat.min_le_left _ _)
      rw [hreply, List.take_take, Nat.min_eq_left hkn, ← ho₁]
      rw [← hf₁, ← ho₁] at hd
      rw [← ho₁] at hle hQ
      have hlen : ((remote.drop d₁.currentOffset).take k).length = k := by
        rw [List.length_take, List.length_drop]
        omega
      dsimp only
      split_ifs with hread
      · rw [hread, List.length_nil] at hlen
        omega
      · rw [Prog.wp_bind]
        refine writeBlockToCache_spec hd fun d₂ ho₂ hd₂ => ?_
        rw [hlen] at ho₂ ⊢
        rw [Prog.wp_bind]
        refine pollAbort_spec h fun d₃ hf₃ ho₃ => ?_
        refine ih (n - k) (by omega) (by rw [hf₃, ho₃]; exact hd₂) (by omega) ?_
          fun d₄ ho₄ hd₄ => hQ d₄ (by omega) hd₄
        rw [List.drop_take, List.drop_drop, ho₃, ho₂]

theorem getNextBlock_spec (h : Honours t remote) {Q : Unit → Download → Prop}
    (hd : Fetched remote file start d.currentOffset d.file)
    (hQ : ∀ d', d.currentOffset ≤ d'.currentOffset →
      (0 < t.blockSize d.blocks → d.currentOffset < remote.length →
        d.currentOffset < d'.currentOffset) →
      Fetched remote file start d'.currentOffset d'.file → Q () d') :
    (getNextBlock t).wp Q E d := by
  unfold getNextBlock
  simp only [Prog.wp_bind, Prog.wp_get, Prog.wp_set, Prog.wp_ite, Prog.wp_pure, h.fileSize]
  have hmax : 0 < maxIisSendSize := by decide
  have hle := hd.le
  refine ⟨fun hnone => hQ _ (Nat.le_refl _) (fun hb hlt => by omega) hd, fun hsome => ?_⟩
  have hfits : d.currentOffset + min (t.blockSize d.blocks)
      (min (remote.length - d.currentOffset) maxIisSendSize) ≤ remote.length := by omega
  refine startRangeRequest_spec h (Nat.pos_of_ne_zero hsome) hfits ?_
  rw [Prog.wp_bind]
  refine readThrottled_spec h hd hfits rfl
    fun d₁ ho₁ hd₁ => ?_
  dsimp only at ho₁
  refine pollAbort_spec h fun d₂ hf₂ ho₂ => hQ d₂ (by omega) (fun _ _ => by omega) ?_
  rw [hf₂, ho₂]
  exact hd₁

/-- A throttled download never fails, and has the file when it ends. -/
theorem getBlocks_spec (h : Honours t remote) (fuel : ℕ)
    (hd : Fetched remote file start d.currentOffset d.file) :
    (getBlocks t fuel).wp
      (fun r d' => r = some () → d'.currentOffset = remote.length ∧
        Fetched remote file start d'.currentOffset d'.file) (fun _ _ => False) d := by
  induction fuel generalizing d with
  | zero =>
    rw [getBlocks, Prog.wp_pure]
    exact nofun
  | succ fuel ih =>
    rw [getBlocks, Prog.wp_bind]
    refine getNextBlock_spec h hd fun d₁ _ _ hd₁ => ?_
    rw [Prog.wp_bind]
    refine isFileComplete_spec h ?_
    simp only [beq_iff_eq, Prog.wp_ite, Prog.wp_pure]
    exact ⟨fun hdone _ => ⟨hdone, hd₁⟩, fun _ => ih hd₁⟩

/-- It ends if the network is always good for a block. -/
theorem getBlocks_ends (h : Honours t remote) (hblocks : ∀ i, 0 < t.blockSize i) (fuel : ℕ)
    (hd : Fetched remote file start d.currentOffset d.file)
    (hlt : d.currentOffset < remote.length) (hfuel : remote.length - d.currentOffset ≤ fuel) :
    (getBlocks t fuel).wp (fun r _ => r = some ()) (fun _ _ => False) d := by
  induction fuel generalizing d with
  | zero => omega
  | succ fuel ih =>
    rw [getBlocks, Prog.wp_bind]
    refine getNextBlock_spec h hd fun d₁ _ hmore hd₁ => ?_
    have hgrow := hmore (hblocks _) hlt
    rw [Prog.wp_bind]
    refine isFileComplete_spec h ?_
    simp only [beq_iff_eq, Prog.wp_ite, Prog.wp_pure]
    have hle := hd₁.le
    exact ⟨fun _ => trivial, fun hmore => ih hd₁ (by omega) (by omega)⟩

theorem of_wp {α : Type} {m : DownloadOp α} {Q : α → Download → Prop} (h : m.wp Q E d) {a : α}
    {d' : Download} (hrun : m d = (.ok a, d')) : Q a d' := by
  unfold Prog.wp at h
  rw [hrun] at h
  exact h

theorem exists_of_wp {α : Type} {m : DownloadOp α} {Q : α → Download → Prop}
    (h : m.wp Q (fun _ _ => False) d) : ∃ a d', m d = (.ok a, d') ∧ Q a d' := by
  unfold Prog.wp at h
  rcases hm : m d with ⟨_ | a, d'⟩
  · rw [hm] at h
    exact h.elim
  · rw [hm] at h
    exact ⟨a, d', rfl, h⟩

theorem openLocalDownloadFile_spec (h : Honours t remote) (hstart : start ≤ remote.length)
    (hfile : 0 < start → file.length = remote.length) :
    ∃ d, openLocalDownloadFile t file start = .ok d ∧ d.currentOffset = start ∧
      Fetched remote file start d.currentOffset d.file := by
  unfold openLocalDownloadFile
  split_ifs with hpos hsize
  · rw [h.fileSize, hfile hpos] at hsize
    exact absurd rfl hsize
  · refine ⟨_, rfl, rfl, hfile hpos, Nat.le_refl _, hstart, ?_⟩
    rw [Nat.sub_self, List.take_zero, List.append_nil]
  · obtain rfl : start = 0 := by omega
    refine ⟨_, rfl, rfl, ?_, Nat.le_refl _, hstart, ?_⟩
    · rw [List.length_replicate, h.fileSize]
    · rw [Nat.sub_self, List.take_zero, List.take_zero, List.take_zero, List.append_nil]

theorem downloadForegroundFile_ends (h : Honours t remote)
    (hd : Fetched remote file start d.currentOffset d.file)
    (hlt : d.currentOffset < remote.length) (hle : remote.length - d.currentOffset ≤ maxRequest) :
    (downloadForegroundFile t (remote.length + 1)).wp
      (fun r d' => r = some () ∧ d'.currentOffset = remote.length ∧
        Fetched remote file start d'.currentOffset d'.file) (fun _ _ => False) d := by
  have hall : (remote.drop d.currentOffset).take (remote.length - d.currentOffset) =
      remote.drop d.currentOffset :=
    List.take_of_length_le (Nat.le_of_eq List.length_drop)
  have hblock : 0 < minForegroundBlock := by decide
  unfold downloadForegroundFile
  simp only [Prog.wp_bind, Prog.wp_get, h.fileSize]
  rw [Nat.min_eq_left hle]
  refine startRangeRequest_spec h (by omega) (by omega) ?_
  rw [hall]
  exact readBlocks_last h _ hd (Nat.min_le_right _ _)
    (fun _ => Nat.lt_min.mpr ⟨hblock, by omega⟩) rfl (by omega)

theorem downloadForegroundFile_stops (h : Honours t remote)
    (hd : Fetched remote file start d.currentOffset d.file)
    (hlong : maxRequest < remote.length - d.currentOffset) (fuel : ℕ) :
    (downloadForegroundFile t fuel).wp (fun r _ => r = none) (fun _ _ => True) d := by
  have hpos : 0 < maxRequest := by decide
  unfold downloadForegroundFile
  simp only [Prog.wp_bind, Prog.wp_get, h.fileSize]
  rw [Nat.min_eq_right (Nat.le_of_lt hlong)]
  refine startRangeRequest_spec h hpos (by omega) ?_
  refine readBlocks_short (e := d.currentOffset + maxRequest) h _ hd (by omega) (by omega) ?_
  rw [Nat.add_sub_cancel_left]

/-- The foreground download succeeds, and its file is the remote one from the offset on. That is what
every throttled download leaves that ends, and one ends if the network is always good for a
block. -/
def ForegroundDownloads (t : Transport) (remote existing : List UInt8) (offset : ℕ) : Prop :=
  ∃ d fuel d', openLocalDownloadFile t existing offset = .ok d ∧
    downloadFile t false fuel d = (.ok (some ()), d') ∧
    d'.file = existing.take offset ++ remote.drop offset ∧
    ∀ t', Honours t' remote →
      (∀ fuel' d'', downloadFile t' true fuel' d = (.ok (some ()), d'') → d''.file = d'.file) ∧
      ((∀ i, 0 < t'.blockSize i) →
        ∃ fuel' d'', downloadFile t' true fuel' d = (.ok (some ()), d''))

theorem throttled_spec (h : Honours t remote)
    (hd : Fetched remote file start d.currentOffset d.file) (fuel : ℕ) :
    (downloadFile t true fuel).wp
      (fun r d' => r = some () → d'.file = file.take start ++ remote.drop start)
      (fun _ _ => False) d := by
  unfold downloadFile
  rw [Prog.wp_bind]
  refine isFileComplete_spec h ?_
  simp only [beq_iff_eq, Prog.wp_ite, Prog.wp_pure, Prog.wp_bind]
  refine ⟨fun hdone _ => Fetched.done (hdone ▸ hd), fun _ => ⟨fun hfalse => (by cases hfalse),
    fun _ => ?_⟩⟩
  refine pollAbort_spec h fun d₁ hf₁ ho₁ => ?_
  refine Prog.wp_mono (getBlocks_spec h fuel (by rw [hf₁, ho₁]; exact hd)) ?_ fun _ _ hfalse => hfalse
  intro r d₂ hr hsome
  obtain ⟨hdone, hd₂⟩ := hr hsome
  exact Fetched.done (hdone ▸ hd₂)

theorem throttled_ends (h : Honours t remote) (hblocks : ∀ i, 0 < t.blockSize i)
    (hd : Fetched remote file start d.currentOffset d.file) :
    (downloadFile t true remote.length).wp (fun r _ => r = some ()) (fun _ _ => False) d := by
  unfold downloadFile
  rw [Prog.wp_bind]
  refine isFileComplete_spec h ?_
  simp only [beq_iff_eq, Prog.wp_ite, Prog.wp_pure, Prog.wp_bind]
  refine ⟨fun _ => trivial, fun hmore => ⟨fun hfalse => (by cases hfalse), fun _ => ?_⟩⟩
  have hle := hd.le
  refine pollAbort_spec h fun d₁ hf₁ ho₁ => ?_
  exact getBlocks_ends h hblocks _ (by rw [hf₁, ho₁]; exact hd) (by omega) (by omega)

theorem not_foregroundDownloads (h : Honours t remote) {existing : List UInt8} {offset : ℕ}
    (hexisting : 0 < offset → existing.length = remote.length)
    (hlong : 2 ^ 31 < remote.length - offset) : ¬ForegroundDownloads t remote existing offset := by
  have hmax : maxRequest = 2 ^ 31 := rfl
  obtain ⟨d₀, hopen, ho, hd⟩ := openLocalDownloadFile_spec h (show offset ≤ remote.length by omega)
    hexisting
  rintro ⟨d, fuel, d', hopen', hrun, -, -⟩
  rw [hopen] at hopen'
  obtain rfl := Except.ok.inj hopen'
  have hstops : (downloadFile t false fuel).wp (fun r _ => r = none) (fun _ _ => True) d₀ := by
    unfold downloadFile
    rw [Prog.wp_bind]
    refine isFileComplete_spec h ?_
    simp only [beq_iff_eq, Prog.wp_ite, Prog.wp_pure]
    refine ⟨fun hdone => by omega, fun _ => ⟨fun _ => ?_, fun hfalse => absurd trivial hfalse⟩⟩
    exact downloadForegroundFile_stops h hd (by omega) fuel
  cases of_wp hstops hrun

/-- A foreground download does what it is meant to do unless what is left of the file is more than
one request may ask for. -/
theorem foregroundDownloads_iff (h : Honours t remote) {existing : List UInt8} {offset : ℕ}
    (hoffset : offset ≤ remote.length) (hexisting : 0 < offset → existing.length = remote.length) :
    ForegroundDownloads t remote existing offset ↔ remote.length - offset ≤ 2 ^ 31 := by
  have hmax : maxRequest = 2 ^ 31 := rfl
  obtain ⟨d₀, hopen, ho, hd⟩ := openLocalDownloadFile_spec h hoffset hexisting
  constructor
  · intro hdownloads
    by_contra hlong
    exact not_foregroundDownloads h hexisting (Nat.not_le.mp hlong) hdownloads
  · intro hle
    have hends : (downloadFile t false (remote.length + 1)).wp
        (fun r d' => r = some () ∧ d'.file = existing.take offset ++ remote.drop offset)
        (fun _ _ => False) d₀ := by
      unfold downloadFile
      rw [Prog.wp_bind]
      refine isFileComplete_spec h ?_
      simp only [beq_iff_eq, Prog.wp_ite, Prog.wp_pure]
      refine ⟨fun hdone => ⟨trivial, Fetched.done (hdone ▸ hd)⟩, fun hmore => ⟨fun _ => ?_,
        fun hfalse => absurd trivial hfalse⟩⟩
      have hbound := hd.le
      refine Prog.wp_mono (downloadForegroundFile_ends h hd (by omega) (by omega)) ?_
        fun _ _ hfalse => hfalse
      rintro r d' ⟨hr, hdone, hd'⟩
      exact ⟨hr, Fetched.done (hdone ▸ hd')⟩
    obtain ⟨r, d', hrun, rfl, hfile⟩ := exists_of_wp hends
    refine ⟨d₀, _, d', hopen, hrun, hfile, fun t' h' => ⟨fun fuel' d'' hrun' => ?_, fun hblocks => ?_⟩⟩
    · rw [hfile]
      exact of_wp (throttled_spec h' hd fuel') hrun' rfl
    · obtain ⟨r, d'', hrun', rfl⟩ := exists_of_wp (throttled_ends h' hblocks hd)
      exact ⟨_, d'', hrun'⟩

/-- A server of a file, which sends ten bytes at a time. -/
def rangeServer (remote : List UInt8) : Transport where
  fileSize := remote.length
  sendRequest first last := .ok
    { status := httpStatusPartialContent
      contentRange := some (some (first, last, remote.length))
      contentLength := some (some (last + 1 - first))
      body := (remote.drop first).take (last + 1 - first) }
  readFile _ := some 9
  abort _ := false
  timeDelta _ := 2000
  blockSize _ := 1000

theorem honours_rangeServer (remote : List UInt8) : Honours (rangeServer remote) remote where
  fileSize := rfl
  reply _ _ _ _ := ⟨_, rfl, rfl, Or.inl ⟨rfl, rfl⟩⟩
  readFile _ := ⟨9, rfl⟩
  abort _ := rfl

theorem foregroundDownloads_three_bytes :
    ForegroundDownloads (rangeServer [1, 2, 3]) [1, 2, 3] [1, 0, 0] 1 := by
  have hoffset : 1 ≤ [1, 2, (3 : UInt8)].length := by decide
  have hleft : [1, 2, (3 : UInt8)].length - 1 ≤ 2 ^ 31 := by decide
  have hexisting : 0 < 1 → [1, 0, (0 : UInt8)].length = [1, 2, (3 : UInt8)].length := fun _ => rfl
  exact (foregroundDownloads_iff (honours_rangeServer _) hoffset hexisting).mpr hleft

/-- A file of one byte more than a request may ask for. -/
theorem not_foregroundDownloads_large :
    ¬ForegroundDownloads (rangeServer (List.replicate (2 ^ 31 + 1) 0))
      (List.replicate (2 ^ 31 + 1) 0) [] 0 := by
  refine not_foregroundDownloads (honours_rangeServer _) (fun h => absurd h (Nat.lt_irrefl 0)) ?_
  rw [List.length_replicate]
  exact Nat.lt_succ_self _

end NtAdmin.Drizzle.Newjob
