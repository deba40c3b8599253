import NtAdmin.Drizzle.Server.AsyncReaderRun
import NtAdmin.Drizzle.Server.SessionStep

/-! Whatever Fragment requests a session gets, its cache file only grows, and every byte of it is
the one that the first fragment to cover its offset brought. -/
namespace NtAdmin.Drizzle.Server

open NtAdmin.Lib

/-- The byte at `o` is in the range of the fragment, and was in the cache file when the fragment was
done. -/
def Accepted.Covers (f : Accepted) (o : ℕ) : Prop :=
  f.rangeStart ≤ o ∧ o < f.rangeStart + f.rangeLength ∧ o < f.reach

instance (f : Accepted) (o : ℕ) : Decidable (f.Covers o) :=
  inferInstanceAs (Decidable (_ ∧ _ ∧ _))

/-- The first fragment for the cache file `copy` that covers `o`. -/
def firstCovering (fs : List Accepted) (copy o : ℕ) : Option Accepted :=
  fs.find? fun f => f.copy = copy ∧ f.Covers o

/-- Every byte of the cache file `copy` is the one that the first fragment to cover it brought. -/
def Supplied (fs : List Accepted) (copy : ℕ) (file : List UInt8) : Prop :=
  ∀ o < file.length, ∃ f, firstCovering fs copy o = some f ∧ f.body[o - f.rangeStart]? = file[o]?

/-- The bytes of the cache file in place come from the fragments that are done. -/
structure Settled (fs : List Accepted) (copy : ℕ) (file : List UInt8) : Prop where
  bytes : Supplied fs copy file
  reach : ∀ f ∈ fs, f.copy = copy → f.reach ≤ file.length
  copies : ∀ f ∈ fs, f.copy ≤ copy

namespace Session

/-- The fragments accepted so far. The one that is under way has come as far as the file. -/
def fragments (s : Session) : List Accepted :=
  s.accepted ++ (s.upload.map fun u => { u.fragment with reach := s.file.length }).toList

/-- The total lengths that the accepted fragments announced. -/
def totals (s : Session) : List ℕ :=
  s.accepted.map Accepted.totalLength ++ (s.upload.map fun u => u.fragment.totalLength).toList

/-- The cache file without what the request under way has written. -/
def settledFile (s : Session) : List UInt8 :=
  match s.upload with
  | none => s.file
  | some u => u.base

/-- The cache files, of which the last one is in place. -/
def copies (s : Session) : List (List UInt8) := s.gone ++ [s.file]

theorem totals_eq (s : Session) : s.totals = s.fragments.map Accepted.totalLength := by
  unfold totals fragments
  rcases s.upload with _ | u <;> simp

end Session

/-- The request under way appends what the ranges leave of its body. -/
structure Uploading (s : Session) (u : Upload) : Prop where
  start : u.fragment.rangeStart ≤ u.base.length
  copy : u.fragment.copy = s.gone.length
  fits : u.fragment.rangeStart + u.fragment.rangeLength ≤ s.stateFile.uploadFileSize
  base : u.base.length ≤ s.stateFile.uploadFileSize
  pump : PumpInv u.base.length (u.fragment.rangeLength - u.fragment.drained u.base)
    (u.fragment.body.drop (u.fragment.drained u.base)) u.pump
  file : s.cacheFile = some (u.base ++ bytesOf u.pump.written)

structure SessionInv (s : Session) : Prop where
  size : s.file.length ≤ s.stateFile.uploadFileSize
  total : s.stateFile.uploadFileSize < 2 ^ 64
  settled : Settled s.accepted s.gone.length s.settledFile
  gone : ∀ copy file, s.gone[copy]? = some file → Supplied s.accepted copy file
  uploading : ∀ u, s.upload = some u → Uploading s u

/-- The accepted fragments agree on the total length. -/
structure Announced (s : Session) : Prop where
  unset : s.stateFile.uploadFileSize = 0 → s.totals = [] ∧ s.gone = []
  total : ∀ t ∈ s.totals, t = s.stateFile.uploadFileSize
  gone : ∀ m ∈ s.gone, m.length = s.stateFile.uploadFileSize

/-- Every cache file of `s` is a beginning of the same one of `s'`, and those that are gone are
the same. -/
def Grows (s s' : Session) : Prop :=
  s.gone <+: s'.gone ∧ ∃ file, s'.copies[s.gone.length]? = some file ∧ s.file <+: file

section settled
variable {fs : List Accepted} {copy : ℕ} {file base : List UInt8}

theorem firstCovering_eq_some {o : ℕ} {f : Accepted} (h : firstCovering fs copy o = some f) :
    f ∈ fs ∧ f.copy = copy ∧ f.Covers o := by
  unfold firstCovering at h
  have hp := List.find?_some h
  exact ⟨List.mem_of_find?_eq_some h, of_decide_eq_true hp⟩

/-- More fragments change nothing about the first. -/
theorem Supplied.append (h : Supplied fs copy file) (gs : List Accepted) :
    Supplied (fs ++ gs) copy file := by
  intro o ho
  obtain ⟨f, hf, hbyte⟩ := h o ho
  refine ⟨f, ?_, hbyte⟩
  unfold firstCovering at hf ⊢
  rw [List.find?_append, hf]
  rfl

/-- What pieces of a file supply is a beginning of the file. -/
theorem Supplied.beginning {l : List UInt8} (h : Supplied fs copy file)
    (hfs : ∀ f ∈ fs, f.body <+: l.drop f.rangeStart) : file <+: l := by
  refine List.prefix_iff_getElem?.mpr fun o ho => ?_
  obtain ⟨f, hf, hbyte⟩ := h o ho
  obtain ⟨hmem, -, hle, -⟩ := firstCovering_eq_some hf
  obtain ⟨rest, hrest⟩ := hfs f hmem
  have hget : f.body[o - f.rangeStart]? = some file[o] := hbyte.trans (List.getElem?_eq_getElem ho)
  have hlt := (List.getElem?_eq_some_iff.mp hget).1
  have hbody : (f.body ++ rest)[o - f.rangeStart]? = some file[o] :=
    (List.getElem?_append_left hlt).trans hget
  rw [hrest, List.getElem?_drop] at hbody
  rwa [Nat.add_sub_cancel' hle] at hbody

theorem settled_nil (copy : ℕ) : Settled [] copy [] :=
  ⟨fun o ho => absurd ho (Nat.not_lt_zero o), fun _ hf => absurd hf List.not_mem_nil,
    fun _ hf => absurd hf List.not_mem_nil⟩

/-- Nothing covers what is behind the file. -/
theorem Settled.firstCovering_eq_none (h : Settled fs copy file) {o : ℕ} (ho : file.length ≤ o) :
    firstCovering fs copy o = none := by
  refine List.find?_eq_none.mpr fun f hf hp => ?_
  obtain ⟨hcopy, -, -, hreach⟩ := of_decide_eq_true hp
  have := h.reach f hf hcopy
  omega

/-- The next cache file starts empty. -/
theorem Settled.moveAway (h : Settled fs copy file) : Settled fs (copy + 1) [] :=
  ⟨fun o ho => absurd ho (Nat.not_lt_zero o), fun f hf hcopy => by
    have := h.copies f hf
    omega, fun f hf => Nat.le_succ_of_le (h.copies f hf)⟩

/-- A fragment that is answered without a look at the file covers nothing. -/
theorem Settled.append_answered (h : Settled fs copy file) {f : Accepted} (hcopy : f.copy = copy)
    (hreach : f.reach = 0) : Settled (fs ++ [f]) copy file := by
  refine ⟨h.bytes.append _, fun g hg hg' => ?_, fun g hg => ?_⟩
  · rcases List.mem_append.mp hg with hg | hg
    · exact h.reach g hg hg'
    · rw [List.mem_singleton.mp hg, hreach]
      exact Nat.zero_le _
  · rcases List.mem_append.mp hg with hg | hg
    · exact h.copies g hg
    · exact Nat.le_of_eq (List.mem_singleton.mp hg ▸ hcopy)

/-- A fragment appends what the file does not have of it. -/
theorem Settled.append (h : Settled fs copy base) {f : Accepted} {bs : List UInt8}
    (hcopy : f.copy = copy) (hstart : f.rangeStart ≤ base.length)
    (hbs : bs <+: (f.body.drop (f.drained base)).take (f.rangeLength - f.drained base)) :
    Settled (fs ++ [{ f with reach := (base ++ bs).length }]) copy (base ++ bs) := by
  have hlen : (base ++ bs).length = base.length + bs.length := List.length_append
  refine ⟨fun o ho => ?_, fun g hg hg' => ?_, fun g hg => ?_⟩
  · rcases Nat.lt_or_ge o base.length with hlt | hge
    · obtain ⟨g, hg, hbyte⟩ := h.bytes.append [_] o hlt
      exact ⟨g, hg, hbyte.trans (List.getElem?_append_left hlt).symm⟩
    · -- the byte is one of those appended
      have hwrite : bs.length ≤ f.rangeLength - f.drained base :=
        Nat.le_trans hbs.length_le (by rw [List.length_take]; exact Nat.min_le_left _ _)
      have hdrained : f.drained base = base.length - f.rangeStart := by
        unfold Accepted.drained at hwrite ⊢
        omega
      refine ⟨{ f with reach := (base ++ bs).length }, ?_, ?_⟩
      · have hnone := h.firstCovering_eq_none hge
        unfold firstCovering at hnone ⊢
        rw [List.find?_append, hnone, Option.none_or, List.find?_singleton,
          if_pos (decide_eq_true ?_)]
        refine ⟨hcopy, Nat.le_trans hstart hge, ?_, ho⟩
        show o < f.rangeStart + f.rangeLength
        omega
      · show f.body[o - f.rangeStart]? = _
        obtain ⟨rest, hrest⟩ := hbs
        have hhead : (bs ++ rest)[o - base.length]? = bs[o - base.length]? :=
          List.getElem?_append_left (by omega)
        rw [List.getElem?_append_right hge, ← hhead, hrest, List.getElem?_take_of_lt (by omega),
          List.getElem?_drop, hdrained]
        congr 1
        omega
  · rcases List.mem_append.mp hg with hg | hg
    · exact Nat.le_trans (h.reach g hg hg') (by omega)
    · exact Nat.le_of_eq (congrArg Accepted.reach (List.mem_singleton.mp hg))
  · rcases List.mem_append.mp hg with hg | hg
    · exact h.copies g hg
    · rw [List.mem_singleton.mp hg]
      exact Nat.le_of_eq hcopy

end settled

section grows
variable {s s' s'' : Session}

theorem grows_of_gone_eq (hm : s'.gone = s.gone) (hf : s.file <+: s'.file) : Grows s s' := by
  refine ⟨hm ▸ List.prefix_refl _, s'.file, ?_, hf⟩
  unfold Session.copies
  rw [hm, List.getElem?_append_right (Nat.le_refl _), Nat.sub_self]
  rfl

theorem grows_moveAway (s : Session) : Grows s s.moveAway := by
  refine ⟨List.prefix_append _ _, s.file, ?_, List.prefix_refl _⟩
  show ((s.gone ++ [s.file]) ++ [_])[s.gone.length]? = _
  rw [List.append_assoc, List.getElem?_append_right (Nat.le_refl _), Nat.sub_self]
  rfl

theorem Grows.trans (h : Grows s s') (h' : Grows s' s'') : Grows s s'' := by
  obtain ⟨hm, file, hfile, hpre⟩ := h
  obtain ⟨hm', file', hfile', hpre'⟩ := h'
  refine ⟨hm.trans hm', ?_⟩
  rcases Nat.lt_or_ge s.gone.length s'.gone.length with hlt | hge
  · -- the file of `s` has been moved away in `s'`
    refine ⟨file, ?_, hpre⟩
    unfold Session.copies at hfile ⊢
    obtain ⟨rest, hrest⟩ := hm'
    rw [List.getElem?_append_left hlt] at hfile
    rw [← hrest, List.append_assoc, List.getElem?_append_left hlt, hfile]
  · have heq : s.gone = s'.gone := hm.eq_of_length (Nat.le_antisymm hm.length_le hge)
    unfold Session.copies at hfile
    rw [heq, List.getElem?_append_right (Nat.le_refl _), Nat.sub_self] at hfile
    obtain rfl := Option.some.inj hfile
    exact ⟨file', heq ▸ hfile', hpre.trans hpre'⟩

/-- A cache file that has not gone is the one it was, with more bytes. -/
theorem Grows.file (hg : Grows s s') (hgone : s'.gone = s.gone) : s.file <+: s'.file := by
  obtain ⟨-, file, hfile, hpre⟩ := hg
  unfold Session.copies at hfile
  rw [hgone, List.getElem?_append_right (Nat.le_refl _), Nat.sub_self] at hfile
  exact Option.some.inj hfile ▸ hpre

/-- A whole cache file stays one of the cache files as they grow. -/
theorem Grows.mem_copies {l : List UInt8} (hg : Grows s s') (h : ∀ c ∈ s'.copies, c <+: l)
    (hmem : l ∈ s.copies) : l ∈ s'.copies := by
  obtain ⟨hgone, file, hfile, hpre⟩ := hg
  rcases List.mem_append.mp hmem with hmem | hmem
  · exact List.mem_append_left _ (hgone.subset hmem)
  · have hmem' := List.mem_of_getElem? hfile
    have heq : file = l := (h file hmem').eq_of_length_le
      (List.mem_singleton.mp hmem ▸ hpre.length_le)
    exact heq ▸ hmem'

end grows

/-- Writes in order from the end of the file on append. -/
theorem applyWrites_eq {file : List UInt8} {ws : List (ℕ × List UInt8)}
    (h : WritesFrom file.length ws) (hlt : file.length + (bytesOf ws).length < 2 ^ 64) :
    Host.applyWrites file ws = file ++ bytesOf ws := by
  induction ws generalizing file with
  | nil => exact (List.append_nil file).symm
  | cons w ws ih =>
    obtain ⟨o, bs⟩ := w
    obtain ⟨ho, hws⟩ := h
    have hbytes : bytesOf ((o, bs) :: ws) = bs ++ bytesOf ws := rfl
    rw [hbytes, List.length_append] at hlt
    rw [Nat.mod_eq_of_lt (by omega)] at ho
    show Host.applyWrites (writeAt 0 file o bs) ws = _
    rw [ho, writeAt_length, ih (by rwa [List.length_append]) (by rw [List.length_append]; omega),
      List.append_assoc]
    rfl

section upload
variable {s : Session} {u : Upload}

/-- The bytes to be written fit into the announced length. -/
theorem Uploading.room (h : Uploading s u) :
    u.base.length + (u.fragment.rangeLength - u.fragment.drained u.base) ≤
      s.stateFile.uploadFileSize := by
  have := h.start
  have := h.fits
  have := h.base
  unfold Accepted.drained
  omega

theorem length_bytesOf_le {o w : ℕ} {stream : List UInt8} {p : Pump} (h : PumpInv o w stream p) :
    (bytesOf p.written).length ≤ w :=
  Nat.le_trans h.sane.bytes.length_le (by rw [List.length_take]; exact Nat.min_le_left _ _)

/-- The file that the request under way appends to. -/
theorem Uploading.file_eq (h : Uploading s u) : s.file = u.base ++ bytesOf u.pump.written :=
  Host.file_of_cacheFile h.file

theorem SessionInv.uploading_pumped (h : SessionInv s) (hu : s.upload = some u) {ev : PumpEvent}
    (hev : ev.Enabled u.pump) :
    Uploading (s.pumped u (ev.step u.pump)) { u with pump := ev.step u.pump } := by
  have hup := h.uploading u hu
  have hpump := hup.pump.step hev
  refine { hup with pump := hpump, file := ?_ }
  have := hup.room
  have := length_bytesOf_le hpump
  have := h.total
  exact congrArg some (applyWrites_eq hpump.sane.written (by omega))

theorem Uploading.size_le (h : Uploading s u) : s.file.length ≤ s.stateFile.uploadFileSize := by
  have := h.room
  have := length_bytesOf_le h.pump
  rw [h.file_eq, List.length_append]
  omega

theorem SessionInv.pumped (h : SessionInv s) (hu : s.upload = some u) {ev : PumpEvent}
    (hev : ev.Enabled u.pump) : SessionInv (s.pumped u (ev.step u.pump)) := by
  have hup := h.uploading_pumped hu hev
  refine ⟨hup.size_le, h.total, ?_, h.gone, fun u' hu' => ?_⟩
  · have hsettled := h.settled
    unfold Session.settledFile at hsettled
    rw [hu] at hsettled
    exact hsettled
  · rw [← Option.some.inj hu']
    exact hup

/-- The bytes of the file are settled when the request is done. -/
theorem SessionInv.settled_append (h : SessionInv s) (hu : s.upload = some u) :
    Settled (s.accepted ++ [{ u.fragment with reach := s.file.length }]) s.gone.length s.file := by
  have hup := h.uploading u hu
  have hsettled := h.settled
  unfold Session.settledFile at hsettled
  rw [hu] at hsettled
  rw [hup.file_eq]
  exact hsettled.append hup.copy hup.start hup.pump.sane.bytes

theorem SessionInv.closed (h : SessionInv s) (hu : s.upload = some u) :
    SessionInv (s.closed u) :=
  ⟨h.size, h.total, h.settled_append hu, fun copy file hfile => (h.gone copy file hfile).append _,
    fun _ hu' => nomatch hu'⟩

/-- Every byte of the file comes from the accepted fragments. -/
theorem SessionInv.settled_fragments (h : SessionInv s) :
    Settled s.fragments s.gone.length s.file := by
  unfold Session.fragments
  rcases hu : s.upload with _ | u
  · have hsettled := h.settled
    unfold Session.settledFile at hsettled
    rw [hu] at hsettled
    simpa using hsettled
  · exact h.settled_append hu

/-- Every byte of every cache file comes from the accepted fragments. -/
theorem SessionInv.supplied (h : SessionInv s) {copy : ℕ} {file : List UInt8}
    (hfile : s.copies[copy]? = some file) : Supplied s.fragments copy file := by
  rcases Nat.lt_or_ge copy s.gone.length with hlt | hge
  · rw [Session.copies, List.getElem?_append_left hlt] at hfile
    exact (h.gone copy file hfile).append _
  · rw [Session.copies, List.getElem?_append_right hge] at hfile
    have hcopy := (List.getElem?_eq_some_iff.mp hfile).1
    rw [List.length_singleton] at hcopy
    obtain rfl : copy = s.gone.length := by omega
    rw [Nat.sub_self] at hfile
    exact Option.some.inj hfile ▸ h.settled_fragments.bytes

theorem SessionInv.moveAway (h : SessionInv s) (hu : s.upload = none) : SessionInv s.moveAway := by
  have hsettled := h.settled
  unfold Session.settledFile at hsettled
  rw [hu] at hsettled
  refine ⟨Nat.zero_le _, h.total, ?_, fun copy file hfile => ?_, fun u hu' => ?_⟩
  · show Settled s.accepted (s.gone ++ [s.file]).length _
    unfold Session.settledFile Session.moveAway
    rw [List.length_append]
    simp only [hu]
    exact hsettled.moveAway
  · rcases Nat.lt_or_ge copy s.gone.length with hlt | hge
    · rw [Session.moveAway, List.getElem?_append_left hlt] at hfile
      exact h.gone copy file hfile
    · rw [Session.moveAway, List.getElem?_append_right hge] at hfile
      have hcopy := (List.getElem?_eq_some_iff.mp hfile).1
      rw [List.length_singleton] at hcopy
      obtain rfl : copy = s.gone.length := by omega
      rw [Nat.sub_self] at hfile
      exact Option.some.inj hfile ▸ hsettled.bytes
  · exact absurd (hu'.symm.trans hu) (Option.some_ne_none u)

theorem Session.dropFile_eq (s : Session) :
    s.dropFile = s ∧ s.file = [] ∨ s.dropFile = s.moveAway := by
  unfold Session.dropFile Session.moveAway Session.file
  rcases hc : s.cacheFile with _ | file
  · refine Or.inl ⟨?_, rfl⟩
    show { s with cacheFile := none, gone := s.gone ++ [] } = s
    rw [List.append_nil, ← hc]
  · exact Or.inr rfl

theorem SessionInv.dropFile (h : SessionInv s) (hu : s.upload = none) : SessionInv s.dropFile := by
  rcases s.dropFile_eq with ⟨heq, -⟩ | heq
  · rwa [heq]
  · rw [heq]
    exact h.moveAway hu

/-- Without a cache file the state file may be anything. -/
theorem SessionInv.reset (h : SessionInv s) (hu : s.upload = none) (hfile : s.file = [])
    {stateFile : StateFile} (htotal : stateFile.uploadFileSize < 2 ^ 64) (directory : Bool) :
    SessionInv { s with stateFile, directory } := by
  refine ⟨?_, htotal, h.settled, h.gone, fun u hu' => ?_⟩
  · show s.file.length ≤ _
    rw [hfile]
    exact Nat.zero_le _
  · exact absurd (hu'.symm.trans hu) (Option.some_ne_none u)

end upload

end NtAdmin.Drizzle.Server
