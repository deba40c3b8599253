import NtAdmin.Drizzle.Server.SessionStep

/-! The numbers of a fragment that is accepted. -/
namespace NtAdmin.Drizzle.Server.Host

open NtAdmin.Lib

/-- What `CrackContentRange` and the check of the range behind it accept. -/
def AcceptsRange (config : DirectoryConfig) (f : FragmentRequest)
    (rangeStart rangeLength totalLength : ℕ) (h : Host) : Prop :=
  crackContentRange config f h = (.ok (rangeStart, rangeLength, totalLength), h) ∧
    ¬(rangeStart + rangeLength) % 2 ^ 64 > totalLength

/-- The range ends within the upload, and so does what is written of it. -/
structure RangeSafe (config : DirectoryConfig) (f : FragmentRequest) (starts : List (Option ℕ))
    (rangeStart rangeLength totalLength : ℕ) (h : Host) : Prop where
  range : rangeStart + rangeLength ≤ totalLength
  total : totalLength ≤ config.maxFileSize
  reader : h.session.upload = none →
    ∀ u, ((addFragment config f starts).after h).session.upload = some u →
    ∃ bytesToDrain bytesToWrite,
      u.pump = .init bytesToDrain bytesToWrite h.session.file.length f.preread f.unread starts ∧
      bytesToDrain + bytesToWrite = f.contentLength ∧
      h.session.file.length + bytesToWrite ≤ totalLength

variable {config : DirectoryConfig} {f : FragmentRequest} {starts : List (Option ℕ)} {h : Host}
  {rangeStart rangeEnd rangeLength totalLength : ℕ}

/-- The range of an accepted fragment starts where its header says, and is as long as its body. -/
theorem AcceptsRange.spec (hacc : AcceptsRange config f rangeStart rangeLength totalLength h) :
    ∃ rangeEnd, f.contentRange = some (rangeStart, rangeEnd, totalLength) ∧
      totalLength ≤ config.maxFileSize ∧ f.contentLength = rangeLength ∧
      (rangeStart = (rangeEnd + 1) % 2 ^ 64 ∧ rangeLength = 0 ∧ rangeStart = totalLength ∨
        rangeStart ≤ rangeEnd ∧ rangeLength = (rangeEnd - rangeStart + 1) % 2 ^ 64) := by
  obtain ⟨hcrack, -⟩ := hacc
  unfold crackContentRange at hcrack
  rcases hr : f.contentRange with _ | ⟨a, b, t⟩
  · rw [hr] at hcrack
    cases hcrack
  · rw [hr] at hcrack
    dsimp only at hcrack
    split_ifs at hcrack with htotal hcont hlt hlen
    · cases hcrack
    · cases hcrack
      exact ⟨b, by rw [hcont.2.2], Nat.not_lt.mp htotal, hcont.2.1,
        Or.inl ⟨hcont.2.2 ▸ hcont.1, rfl, rfl⟩⟩
    · cases hcrack
    · cases hcrack
    · cases hcrack
      exact ⟨b, rfl, Nat.not_lt.mp htotal, not_not.mp hlen, Or.inr ⟨Nat.not_lt.mp hlt, rfl⟩⟩

/-- The reader of an accepted fragment writes within the upload, unless the range wraps. -/
theorem reader_of_fits (hfits : f.Fits) (hpre : f.preread.length ≤ f.contentLength)
    (hrange : f.contentRange = some (rangeStart, rangeEnd, totalLength))
    (hfree : h.session.upload = none) (hcache : h.session.file.length ≤ totalLength) (u : Upload)
    (hu : ((addFragment config f starts).after h).session.upload = some u) :
    ∃ bytesToDrain bytesToWrite,
      u.pump = .init bytesToDrain bytesToWrite h.session.file.length f.preread f.unread starts ∧
      bytesToDrain + bytesToWrite = f.contentLength ∧
      h.session.file.length + bytesToWrite ≤ totalLength := by
  have hstep : (addFragment config f starts).wp
      (fun _ h' => ∃ r, FragmentStep f starts h.session h'.session r)
      (fun _ h' => ∃ r, FragmentStep f starts h.session h'.session r) h :=
    addFragment_spec hfits hpre (fun _ r hstep _ _ => ⟨r, hstep⟩)
      (fun e _ _ hstep _ _ => ⟨some e.response, hstep⟩)
  obtain ⟨r, hstep⟩ := Prog.after_of_wp hstep
  generalize ((addFragment config f starts).after h).session = s' at hstep hu
  cases hstep with
  | refused | failed | behind | answered =>
    have hnone : h.session.upload = some u := hu
    rw [hfree] at hnone
    cases hnone
  | @opened rangeStart' rangeLength totalLength' fragment checked _ _ hle _ hfragment =>
    obtain ⟨rangeEnd', hrange'⟩ := checked.range
    rw [hrange, Option.some.injEq, Prod.mk.injEq, Prod.mk.injEq] at hrange'
    obtain ⟨rfl, -, rfl⟩ := hrange'
    have hfits := checked.fits
    have hlen := checked.length
    subst hfragment
    cases hu
    refine ⟨_, _, rfl, ?_, ?_⟩
    · simp only [Accepted.drained]
      omega
    · simp only [Accepted.drained]
      omega

/-- The arithmetic of an accepted fragment is safe unless the end of its range wraps. -/
theorem rangeSafe_iff (hstart : rangeStart < 2 ^ 64) (hend : rangeEnd < 2 ^ 64)
    (htotal : totalLength < 2 ^ 64) (hpre : f.preread.length ≤ f.contentLength)
    (hrange : f.contentRange = some (rangeStart, rangeEnd, totalLength))
    (hacc : AcceptsRange config f rangeStart rangeLength totalLength h)
    (hcache : h.session.file.length ≤ totalLength) :
    RangeSafe config f starts rangeStart rangeLength totalLength h ↔
      ¬(rangeEnd = 2 ^ 64 - 1 ∧ 0 < rangeStart) := by
  obtain ⟨rangeEnd', hrange', hmax, hlen, hcases⟩ := hacc.spec
  have hsame := hrange'
  rw [hrange, Option.some.injEq, Prod.mk.injEq, Prod.mk.injEq] at hsame
  obtain ⟨-, rfl, -⟩ := hsame
  have hcheck := hacc.2
  constructor
  · -- A range up to the last number of all passes the check as its end is 0 there.
    rintro hsafe ⟨rfl, hpos⟩
    have hfit := hsafe.range
    omega
  · intro hwrap
    have hfits : f.Fits := by
      intro a b t hr
      rw [hrange, Option.some.injEq, Prod.mk.injEq, Prod.mk.injEq] at hr
      obtain ⟨rfl, rfl, rfl⟩ := hr
      exact ⟨hstart, htotal, by omega⟩
    exact ⟨by omega, hmax, fun hfree => reader_of_fits hfits hpre hrange hfree hcache⟩

/-- A new session, with the bytes of its cache file. -/
def newSession (file : List UInt8) : Host := ⟨⟨true, .initial, some file, none, [], []⟩, [], [], []⟩

theorem rangeSafe_two_bytes :
    RangeSafe ⟨10, .none, true⟩ ⟨some (0, 1, 2), 2, [], []⟩ [] 0 2 2 (newSession []) :=
  (rangeSafe_iff (by decide) (by decide) (by decide) (by decide) rfl
    ⟨rfl, by decide⟩ (by decide)).mpr (by decide)

/-- The range from 1 to the last number of all, of an upload of one byte. -/
theorem not_rangeSafe_last :
    AcceptsRange ⟨10, .none, true⟩ ⟨some (1, 2 ^ 64 - 1, 1), 2 ^ 64 - 1, [], []⟩ 1 (2 ^ 64 - 1) 1
      (newSession [0]) ∧
    ¬RangeSafe ⟨10, .none, true⟩ ⟨some (1, 2 ^ 64 - 1, 1), 2 ^ 64 - 1, [], []⟩ [] 1 (2 ^ 64 - 1) 1
      (newSession [0]) ∧
    (((addFragment ⟨10, .none, true⟩ ⟨some (1, 2 ^ 64 - 1, 1), 2 ^ 64 - 1, [], []⟩ []).after
      (newSession [0])).session.upload.map (·.pump.reader.bytesToWrite)) = some (2 ^ 64 - 1) :=
  ⟨⟨rfl, by decide⟩, fun h => absurd h.range (by decide), by rfl⟩

end NtAdmin.Drizzle.Server.Host
