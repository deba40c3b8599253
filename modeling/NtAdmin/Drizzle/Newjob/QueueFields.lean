import NtAdmin.Drizzle.Newjob.QueueRead

/-! Every part of a job reads back as it was written. -/
namespace NtAdmin.Drizzle.Newjob.Queue

open NtAdmin.Lib NtAdmin.Lib.Reader

section scalars
variable {W : Windows} {s : LoadState W}

theorem reads_pure_eq {α : Type} {a b : α} (h : a = b) : Reads (pure a : Load W α) [] s b s := by
  subst h
  exact Reads.pure a

theorem reads_fits {p : Prop} [Decidable p] (h : p) :
    Reads (fits p : Load W (PLift p)) [] s ⟨h⟩ s := by
  unfold fits
  rw [dif_pos h]
  exact Reads.pure _

theorem reads_safeReadFile {bs : List UInt8} {n : ℕ} (h : bs.length = n) :
    Reads (safeReadFile n : Load W (List UInt8)) bs s bs s := by
  subst h
  exact reads_bytes ComError.invalidArg bs

theorem reads_dword (x : UInt32) : Reads (readDword : Load W UInt32) (writeDword x) s x s := by
  apply (reads_safeReadFile (length_leBytes 4 x.toNat)).map
  apply reads_pure_eq
  rw [leNat_leBytes_of_lt x.toNat_lt, UInt32.ofNat_toNat]

theorem reads_count {n : ℕ} (h : n < 2 ^ 32) :
    Reads (readDword : Load W UInt32) (writeCount n) s (UInt32.ofNat n) s := by
  apply (reads_safeReadFile (length_leBytes 4 n)).map
  apply reads_pure_eq
  rw [leNat_leBytes_of_lt h]

theorem toNat_count {n : ℕ} (h : n < 2 ^ 32) : (UInt32.ofNat n).toNat = n :=
  UInt32.toNat_ofNat_of_lt' h

theorem reads_uint64 (x : UInt64) : Reads (readUInt64 : Load W UInt64) (writeUInt64 x) s x s := by
  apply (reads_safeReadFile (length_leBytes 8 x.toNat)).map
  apply reads_pure_eq
  rw [leNat_leBytes_of_lt x.toNat_lt, UInt64.ofNat_toNat]

theorem reads_bool (b : Bool) : Reads (readBool : Load W Bool) (writeBool b) s b s := by
  have h : (writeBool b).length = 1 := rfl
  apply (reads_safeReadFile h).map
  apply reads_pure_eq
  cases b <;> decide

theorem reads_guid (guid : Guid) : Reads (readGuid : Load W Guid) guid.bytes s guid s := by
  apply (reads_safeReadFile guid.length_bytes).map
  apply (reads_fits guid.length_bytes).map
  exact Reads.pure _

theorem reads_block {guid : List UInt8} (h : guid.length = 16) :
    Reads (safeReadBlock guid : Load W Unit) guid s () s := by
  apply (reads_safeReadFile h).map
  rw [if_pos rfl]
  exact Reads.pure ()

end scalars

section strings
variable {W : Windows} {s : LoadState W}

@[simp] theorem length_writeWide (chars : List UInt16) :
    (writeWide chars).length = 2 * chars.length := by
  induction chars with
  | nil => rfl
  | cons c chars ih =>
    unfold writeWide at ih ⊢
    rw [List.flatMap_cons, List.length_append, length_leBytes, ih, List.length_cons]
    omega

theorem wideChars_writeWide (chars : List UInt16) : wideChars (writeWide chars) = chars := by
  induction chars with
  | nil => rfl
  | cons c chars ih =>
    have hc : UInt16.ofNat (leNat (leBytes 2 c.toNat)) = c := by
      rw [leNat_leBytes_of_lt c.toNat_lt, UInt16.ofNat_toNat]
    show UInt16.ofNat (leNat (leBytes 2 c.toNat)) :: wideChars (writeWide chars) = c :: chars
    rw [hc, ih]

theorem takeWhile_terminated {chars : List UInt16} (h : 0 ∉ chars) :
    (chars ++ [0]).takeWhile (· ≠ 0) = chars := by
  induction chars with
  | nil => rfl
  | cons c chars ih =>
    rw [List.mem_cons, not_or] at h
    have hc : c ≠ 0 := fun hc => h.1 hc.symm
    rw [List.cons_append, List.takeWhile_cons, if_pos (by simpa using hc), ih h.2]

theorem reads_stringHandle (str : StringHandle) :
    Reads (safeReadStringHandle : Load W StringHandle) (safeWriteStringHandle str) s str s := by
  have hlt : str.chars.length + 1 < 2 ^ 32 := Nat.lt_trans str.size_lt (by decide)
  have hlen : (writeWide (str.chars ++ [0])).length =
      2 * (UInt32.ofNat (str.chars.length + 1)).toNat := by
    rw [length_writeWide, toNat_count hlt, List.length_append]
    rfl
  have htake := takeWhile_terminated str.noNul
  unfold safeReadStringHandle safeWriteStringHandle
  apply (reads_count hlt).bind
  apply (reads_safeReadFile hlen).map
  rw [wideChars_writeWide, if_pos (by simp)]
  have hnul : 0 ∉ (str.chars ++ [0]).takeWhile (· ≠ 0) := by
    rw [htake]
    exact str.noNul
  have hsize : ((str.chars ++ [0]).takeWhile (· ≠ 0)).length + 1 < 2 ^ 31 := by
    rw [htake]
    exact str.size_lt
  unfold stringInBuffer
  apply (reads_fits hnul).bind_nil
  apply (reads_fits hsize).bind_nil
  apply reads_pure_eq
  exact StringHandle.ext htake

/-- A value that is written behind a flag, when there is one. -/
theorem reads_flagged {α : Type} {m : Load W α} {f : α → List UInt8} {s' : LoadState W}
    {a b : α} (hm : Reads m (f a) s b s') :
    Reads (do
      let flag ← readBool
      if flag then do
        let x ← m
        pure (some x)
      else
        pure none) (writeBool true ++ f a) s (some b) s' := by
  apply (reads_bool true).bind
  rw [if_pos rfl]
  exact hm.map (Reads.pure _)

theorem reads_unflagged {α : Type} {m : Load W α} :
    Reads (do
      let flag ← readBool
      if flag then do
        let x ← m
        pure (some x)
      else
        pure none) (writeBool false) s none s := by
  apply (reads_bool false).map
  rw [if_neg (by decide)]
  exact Reads.pure none

theorem reads_string (str : Option StringHandle) :
    Reads (readString : Load W (Option StringHandle)) (writeString str) s str s := by
  cases str with
  | none => exact reads_unflagged
  | some str => exact reads_flagged (reads_stringHandle str)

end strings

section conversions
variable {W : Windows} {s : LoadState W}

theorem reads_convert {α : Type} {o : Option α} {a : α} (h : o = some a) :
    Reads (convert o : Load W α) [] s a s := by
  subst h
  exact Reads.pure a

theorem reads_sid (sid : W.Sid) : Reads (safeReadSid : Load W W.Sid) (safeWriteSid sid) s sid s :=
  (reads_stringHandle _).map (reads_convert (W.sid_inverse sid))

theorem reads_sd (sd : W.Sd) : Reads (unserializeSd : Load W W.Sd) (serializeSd sd) s sd s := by
  apply (reads_count (W.sd_size sd).2).bind
  apply (reads_safeReadFile (toNat_count (W.sd_size sd).2).symm).map
  exact reads_convert (W.sd_inverse sd)

end conversions

section timers
variable {W : Windows} {s : LoadState W}

/-- The world after an item has been inserted again, if it was in the scheduler. -/
def LoadState.tick (s : LoadState W) : Option Timer → LoadState W
  | some _ => { s with inserted := s.inserted + 1 }
  | none => s

/-- The item that is inserted: its time to run is what it was, its insertion time is that of the
insertion. -/
def LoadState.item (s : LoadState W) (item : Option Timer) : Option Timer :=
  item.map fun t => { t with m_InsertionTime := s.now s.inserted }

theorem reads_item (item : Option Timer) :
    Reads (unserializeItem : Load W (Option Timer)) (serializeItem item) s (s.item item)
      (s.tick item) := by
  unfold unserializeItem
  cases item with
  | none =>
    apply (reads_bool false).map
    rw [if_neg (by decide)]
    exact Reads.pure none
  | some t =>
    apply (reads_bool true).bind
    rw [if_pos rfl]
    apply (reads_uint64 _).bind
    apply (reads_uint64 _).map
    have hget : Reads (getState : Load W (LoadState W)) [] s s s := reads_getState
    have hinsert : Reads (insertWorkItem t.m_TimeToRun : Load W Timer) [] s
        { m_InsertionTime := s.now s.inserted, m_TimeToRun := t.m_TimeToRun } (s.tick (some t)) := by
      apply hget.bind_nil
      apply (reads_modifyState _).bind_nil
      exact Reads.pure _
    exact hinsert.bind_nil (Reads.pure _)

end timers

section files
variable {W : Windows} {s : LoadState W}

/-- A file as it is read: the file time of a download is not written. -/
def CFile.loaded (type : UInt32) (memory : UInt64) (file : CFile) : CFile :=
  { file with m_LocalFileTime := if type ≠ BG_JOB_TYPE_DOWNLOAD then file.m_LocalFileTime else memory }

theorem reads_fileTime (type : UInt32) (time : UInt64) :
    Reads (unserializeFileTime type : Load W UInt64)
      (if type ≠ BG_JOB_TYPE_DOWNLOAD then writeUInt64 time else []) s
      (if type ≠ BG_JOB_TYPE_DOWNLOAD then time else s.memory) s := by
  unfold unserializeFileTime
  by_cases h : type ≠ BG_JOB_TYPE_DOWNLOAD
  · rw [if_pos h, if_pos h, if_pos h]
    exact reads_uint64 time
  · rw [if_neg h, if_neg h, if_neg h]
    have hget : Reads (getState : Load W (LoadState W)) [] s s s := reads_getState
    exact hget.bind_nil (Reads.pure _)

theorem reads_file (type : UInt32) (file : CFile) :
    Reads (CFile.unserialize type : Load W CFile) (file.serialize type) s
      (file.loaded type s.memory) s := by
  unfold CFile.unserialize CFile.serialize
  apply (reads_fileTime type file.m_LocalFileTime).bind
  apply (reads_stringHandle _).bind
  apply (reads_stringHandle _).bind
  apply (reads_stringHandle _).bind
  apply (reads_uint64 _).bind
  apply (reads_uint64 _).bind
  apply (reads_bool _).bind
  apply (reads_stringHandle _).bind
  apply (reads_stringHandle _).bind
  apply (reads_dword _).bind
  apply (reads_dword _).map
  exact Reads.pure _

def CFileList.loaded (type : UInt32) (memory : UInt64) (list : CFileList) : CFileList :=
  ⟨list.files.map (CFile.loaded type memory), by rw [List.length_map]; exact list.size_lt⟩

theorem reads_fileList (type : UInt32) (list : CFileList) :
    Reads (CFileList.unserialize type : Load W CFileList) (list.serialize type) s
      (list.loaded type s.memory) s := by
  have hblock : FileListStorageGuid.length = 16 := rfl
  have hlen : (list.files.map (CFile.loaded type s.memory)).length < 2 ^ 32 := by
    rw [List.length_map]
    exact list.size_lt
  unfold CFileList.unserialize CFileList.serialize
  apply (reads_block hblock).bind
  apply (reads_count list.size_lt).bind
  rw [toNat_count list.size_lt]
  apply (reads_times_of_pure list.files fun file _ => reads_file type file).bind
  apply (reads_block hblock).map
  apply (reads_fits hlen).bind_nil
  exact Reads.pure _

theorem reads_replyFile (type : UInt32) (file : Option CFile) :
    Reads (unserializeReplyFile type : Load W (Option CFile)) (serializeReplyFile type file) s
      (file.map (CFile.loaded type s.memory)) s := by
  cases file with
  | none => exact reads_unflagged
  | some file => exact reads_flagged (f := CFile.serialize type) (reads_file type file)

end files

section records
variable {W : Windows} {s : LoadState W}

theorem reads_error (err : Option CJobError) :
    Reads (unserializeError : Load W (Option CJobError)) (serializeError err) s err s := by
  unfold unserializeError
  cases err with
  | none =>
    apply (reads_dword 0).map
    rw [if_pos rfl]
    exact Reads.pure none
  | some err =>
    apply (reads_dword 1).bind
    rw [if_neg (by decide)]
    apply (reads_dword _).bind
    apply (reads_uint64 _).bind
    apply (reads_dword _).bind
    apply (reads_dword _).bind
    apply (reads_dword _).bind
    apply (reads_string _).map
    exact Reads.pure _

theorem reads_oldJob (guid : Option Guid) :
    Reads (unserializeOldJob : Load W (Option Guid))
      (match guid with
      | some guid => writeBool true ++ guid.bytes
      | none => writeBool false) s guid s := by
  cases guid with
  | none => exact reads_unflagged
  | some guid => exact reads_flagged (f := Guid.bytes) (reads_guid guid)

theorem reads_oldGroup (group : Option COldGroupInterface) :
    Reads (unserializeOldGroup : Load W (Option COldGroupInterface)) (serializeOldGroup group) s
      group s := by
  cases group with
  | none => exact reads_unflagged
  | some group =>
    apply reads_flagged (f := COldGroupInterface.serialize)
    apply (reads_guid _).bind
    exact (reads_oldJob _).map (Reads.pure _)

theorem reads_uploadData (data : UPLOAD_DATA) :
    Reads (UPLOAD_DATA.unserialize : Load W UPLOAD_DATA) data.serialize s
      { data with fSchedulable := true } s := by
  unfold UPLOAD_DATA.unserialize UPLOAD_DATA.serialize
  apply (reads_dword _).bind
  apply (reads_guid _).bind
  apply (reads_stringHandle _).bind
  apply (reads_stringHandle _).bind
  apply (reads_stringHandle _).bind
  apply (reads_dword _).bind
  apply (reads_uint64 _).map
  exact Reads.pure _

end records

section credentials
variable {W : Windows} {s : LoadState W}

theorem pow_sizeT (n : ℕ) : 2 ^ (8 * n) = 256 ^ n := by
  rw [Nat.pow_mul]

theorem reads_blob (blob : CEncryptedBlob W) :
    Reads (CEncryptedBlob.unserialize : Load W (CEncryptedBlob W)) blob.serialize s blob s := by
  have hlength : blob.m_Length.toNat < 256 ^ W.sizeT := by
    rw [← pow_sizeT]
    exact blob.m_Length.isLt
  unfold CEncryptedBlob.unserialize CEncryptedBlob.serialize
  apply (reads_safeReadFile (length_leBytes _ _)).bind
  apply (reads_count blob.cbData_lt).bind
  apply (reads_safeReadFile (toNat_count blob.cbData_lt).symm).map
  apply (reads_fits blob.cbData_lt).bind_nil
  apply reads_pure_eq
  rw [leNat_leBytes_of_lt hlength, BitVec.ofNat_toNat, BitVec.setWidth_eq]

theorem reads_credentials (cred : CEncryptedCredentials W) :
    Reads (unserializeCredentials : Load W (CEncryptedCredentials W)) (serializeCredentials cred) s
      cred s := by
  cases cred with
  | none => exact reads_unflagged
  | some blob => exact reads_flagged (f := CEncryptedBlob.serialize) (reads_blob blob)

theorem reads_entry (e : UInt32 × CEncryptedCredentials W) :
    Reads (unserializeEntry : Load W (UInt32 × CEncryptedCredentials W))
      (writeDword e.1 ++ serializeCredentials e.2) s e s :=
  (reads_dword _).bind ((reads_credentials _).map (Reads.pure _))

/-- A key behind all others goes to the end. -/
theorem insertEntry_append {α : Type} {key : UInt32} {cred : α} {entries : List (UInt32 × α)}
    (h : ∀ e ∈ entries, e.1 < key) : insertEntry key cred entries = entries ++ [(key, cred)] := by
  induction entries with
  | nil => rfl
  | cons e entries ih =>
    have he := h e List.mem_cons_self
    have hne : key ≠ e.1 := fun hk => UInt32.lt_irrefl _ (hk ▸ he)
    have hnlt : ¬key < e.1 := UInt32.lt_asymm he
    rw [insertEntry, if_neg hnlt, if_neg hne, ih fun x hx => h x (List.mem_cons_of_mem e hx),
      List.cons_append]

theorem foldl_insertEntry {α β : Type} {f : β → α} {l : List (UInt32 × β)}
    {entries : List (UInt32 × α)} (hl : (l.map Prod.fst).Pairwise (· < ·))
    (h : ∀ e ∈ entries, ∀ x ∈ l, e.1 < x.1) :
    l.foldl (fun m e => insertEntry e.1 (f e.2) m) entries =
      entries ++ l.map fun e => (e.1, f e.2) := by
  induction l generalizing entries with
  | nil => simp
  | cons x l ih =>
    rw [List.map_cons, List.pairwise_cons] at hl
    rw [List.foldl_cons, insertEntry_append fun e he => h e he x List.mem_cons_self, ih hl.2,
      List.map_cons, List.append_assoc]
    · rfl
    · intro e he y hy
      rw [List.mem_append, List.mem_singleton] at he
      rcases he with he | rfl
      · exact h e he y (List.mem_cons_of_mem x hy)
      · exact hl.1 _ (List.mem_map_of_mem hy)

/-- The map without the keys that have no credentials. -/
def loadedEntries (entries : List (UInt32 × Option (CEncryptedCredentials W))) :
    List (UInt32 × Option (CEncryptedCredentials W)) :=
  (present entries).map fun e => (e.1, some e.2)

theorem keys_present_sublist (entries : List (UInt32 × Option (CEncryptedCredentials W))) :
    ((present entries).map Prod.fst).Sublist (entries.map Prod.fst) := by
  induction entries with
  | nil => exact List.Sublist.slnil
  | cons e entries ih =>
    obtain ⟨key, cred⟩ := e
    cases cred with
    | none => exact ih.cons key
    | some cred => exact ih.cons_cons key

theorem length_present_le (entries : List (UInt32 × Option (CEncryptedCredentials W))) :
    (present entries).length ≤ entries.length := List.length_filterMap_le _ _

theorem keys_loadedEntries (entries : List (UInt32 × Option (CEncryptedCredentials W))) :
    (loadedEntries entries).map Prod.fst = (present entries).map Prod.fst := by
  rw [loadedEntries, List.map_map]
  rfl

def CCredentialsContainer.loaded (container : CCredentialsContainer W) :
    CCredentialsContainer W where
  entries := loadedEntries container.entries
  sorted := by
    rw [keys_loadedEntries]
    exact container.sorted.sublist (keys_present_sublist _)
  count_lt := by
    rw [loadedEntries, List.length_map]
    exact Nat.lt_of_le_of_lt (length_present_le _) container.count_lt

theorem toInt_count {n : ℕ} (h : n < 2 ^ 31) : (UInt32.ofNat n).toInt32.toInt.toNat = n := by
  have hb : (UInt32.ofNat n).toBitVec.toNat = n := toNat_count (Nat.lt_trans h (by decide))
  show (UInt32.ofNat n).toBitVec.toInt.toNat = n
  rw [BitVec.toInt_eq_toNat_of_lt (by rw [hb]; omega), hb, Int.toNat_natCast]

theorem reads_container (container : CCredentialsContainer W) :
    Reads (CCredentialsContainer.unserialize : Load W (CCredentialsContainer W))
      container.serialize s container.loaded s := by
  have hcount : (present container.entries).length < 2 ^ 31 :=
    Nat.lt_of_le_of_lt (length_present_le _) container.count_lt
  have hsorted := container.sorted.sublist (keys_present_sublist container.entries)
  have hfold : (present container.entries).foldl
      (fun m e => insertEntry e.1 (some e.2) m) [] = container.loaded.entries :=
    foldl_insertEntry hsorted fun e he => by cases he
  unfold CCredentialsContainer.unserialize CCredentialsContainer.serialize
  apply (reads_count (Nat.lt_trans hcount (by decide))).bind
  rw [toInt_count hcount]
  apply (reads_times_of_pure (g := id) (present container.entries) fun e _ => reads_entry e).map
  rw [List.map_id]
  dsimp only
  have h1 : ((present container.entries).foldl (fun m e => insertEntry e.1 (some e.2) m) []
      |>.map Prod.fst).Pairwise (· < ·) := by
    rw [hfold]
    exact container.loaded.sorted
  have h2 : ((present container.entries).foldl (fun m e => insertEntry e.1 (some e.2) m)
      []).length < 2 ^ 31 := by
    rw [hfold]
    exact container.loaded.count_lt
  apply (reads_fits h1).bind_nil
  apply (reads_fits h2).bind_nil
  apply reads_pure_eq
  exact CCredentialsContainer.ext hfold

end credentials

end NtAdmin.Drizzle.Newjob.Queue
