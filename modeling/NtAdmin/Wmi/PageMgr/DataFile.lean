import NtAdmin.Wmi.PageMgr.PageCache

/-! What a run of page writes leaves of a data file. -/
namespace NtAdmin.Wmi.PageMgr

open NtAdmin.Lib

/-- The page lies below 4 GiB, so that its position is not cut to a DWORD. -/
def InRange (ps id : ℕ) : Prop := ps * (id + 1) ≤ 2 ^ 32

instance (ps id : ℕ) : Decidable (InRange ps id) := inferInstanceAs (Decidable (_ ≤ _))

/-- Only the pages in `D` of the file `name` differ, apart from an extension of the file. -/
structure DiskKept (ps : ℕ) (name : FileName) (D : ℕ → Prop) (d d' : Disk) : Prop where
  other : ∀ n, n ≠ name → d' n = d n
  page : ∀ id p, InRange ps id → ¬D id → pageAt ps (d name) id = some p →
    pageAt ps (d' name) id = some p

/-- The disk and every disk on the way to it differ from the first one in the pages `D` only. -/
structure OsKept (ps : ℕ) (name : FileName) (D : ℕ → Prop) (o o' : Os) : Prop where
  allocs : o'.allocs <:+ o.allocs
  ios : o'.ios <:+ o.ios
  disk : DiskKept ps name D o.disk o'.disk
  trail : ∃ ds, o'.trail = ds ++ o.trail ∧ ∀ d ∈ ds, DiskKept ps name D o.disk d

/-- A file request that fails writes nothing. -/
def Os.Atomic (o : Os) : Prop := ∀ code torn, IoFate.fails code torn ∈ o.ios → torn = []

/-- No request fails any more. -/
def Os.Calm (o : Os) : Prop := o.allocs = [] ∧ o.ios = []

variable {ps : ℕ} {name : FileName} {D D' : ℕ → Prop} {d d' d'' : Disk} {o o' o'' : Os}

theorem pageAt_eq_some {f : List UInt8} {id : ℕ} {p : Page ps} :
    pageAt ps f id = some p ↔ readAt f (pageOffset ps id) ps = some p.1 := by
  unfold pageAt toPage?
  rcases h : readAt f (pageOffset ps id) ps with _ | bs
  · simp
  · have hbs := (readAt_eq_some.mp h).1
    simp [hbs, Subtype.ext_iff]

theorem pageOffset_of_inRange {id : ℕ} (hps : 0 < ps) (h : InRange ps id) :
    pageOffset ps id = ps * id := by
  unfold pageOffset
  unfold InRange at h
  rw [Nat.mul_add] at h
  exact Nat.mod_eq_of_lt (by omega)

/-- Pages in range do not overlap. -/
theorem pageOffset_disjoint {i j : ℕ} (hps : 0 < ps) (hi : InRange ps i) (hj : InRange ps j)
    (hij : i ≠ j) :
    pageOffset ps i + ps ≤ pageOffset ps j ∨ pageOffset ps j + ps ≤ pageOffset ps i := by
  rw [pageOffset_of_inRange hps hi, pageOffset_of_inRange hps hj]
  rcases Nat.lt_or_gt_of_ne hij with h | h
  · exact Or.inl (by simpa [Nat.mul_add] using Nat.mul_le_mul_left ps (Nat.succ_le_of_lt h))
  · exact Or.inr (by simpa [Nat.mul_add] using Nat.mul_le_mul_left ps (Nat.succ_le_of_lt h))

@[simp] theorem Disk.write_nil (d : Disk) (name : FileName) (off : ℕ) :
    d.write name off [] = d := by
  simp [Disk.write]

namespace DiskKept

theorem refl (d : Disk) : DiskKept ps name D d d := ⟨fun _ _ => rfl, fun _ _ _ _ h => h⟩

theorem trans (h : DiskKept ps name D d d') (h' : DiskKept ps name D d' d'') :
    DiskKept ps name D d d'' :=
  ⟨fun n hn => (h'.other n hn).trans (h.other n hn),
    fun id p hr hD hp => h'.page id p hr hD (h.page id p hr hD hp)⟩

theorem mono (hD : ∀ id, D id → D' id) (h : DiskKept ps name D d d') :
    DiskKept ps name D' d d' :=
  ⟨h.other, fun id p hr hid => h.page id p hr (mt (hD id) hid)⟩

end DiskKept

/-- Bytes written inside the range of one page leave the other pages alone. -/
theorem diskKept_write (hps : 0 < ps) {id : ℕ} (hr : InRange ps id) {bs : List UInt8}
    (hbs : bs.length ≤ ps) :
    DiskKept ps name (fun j => j = id) d (d.write name (pageOffset ps id) bs) where
  other n hn := by simp [Disk.write, hn]
  page j p hj hne hp := by
    simp only [Disk.write, Function.update_self]
    rw [pageAt_eq_some] at hp ⊢
    refine readAt_writeAt_disjoint 0 ?_ hp
    have := pageOffset_disjoint hps hj hr hne
    omega

theorem pageAt_write (hps : 0 < ps) (id : ℕ) (p : Page ps) :
    pageAt ps (d.write name (pageOffset ps id) p.1 name) id = some p := by
  have hne : p.1 ≠ [] := by
    intro h
    have := p.2
    simp only [h, List.length_nil] at this
    omega
  rw [pageAt_eq_some]
  simp only [Disk.write, Function.update_self]
  have h := readAt_writeAt_self 0 (d name) (pageOffset ps id) hne
  rwa [p.2] at h

namespace OsKept

theorem refl (o : Os) : OsKept ps name D o o :=
  ⟨List.suffix_refl _, List.suffix_refl _, .refl _, [], rfl, by simp⟩

theorem trans (h : OsKept ps name D o o') (h' : OsKept ps name D o' o'') :
    OsKept ps name D o o'' := by
  obtain ⟨ds, hds, hd⟩ := h.trail
  obtain ⟨ds', hds', hd'⟩ := h'.trail
  refine ⟨h'.allocs.trans h.allocs, h'.ios.trans h.ios, h.disk.trans h'.disk, ds' ++ ds,
    by rw [hds', hds, List.append_assoc], fun x hx => ?_⟩
  rcases List.mem_append.mp hx with hx | hx
  · exact h.disk.trans (hd' x hx)
  · exact hd x hx

theorem mono (hD : ∀ id, D id → D' id) (h : OsKept ps name D o o') : OsKept ps name D' o o' := by
  obtain ⟨ds, hds, hd⟩ := h.trail
  exact ⟨h.allocs, h.ios, h.disk.mono hD, ds, hds, fun x hx => (hd x hx).mono hD⟩

theorem allocs_eq {a : List (Option ℕ)} (h : a <:+ o.allocs) :
    OsKept ps name D o { o with allocs := a } :=
  ⟨h, List.suffix_refl _, .refl _, [], rfl, by simp⟩

theorem ios_eq {r : List IoFate} (h : r <:+ o.ios) : OsKept ps name D o { o with ios := r } :=
  ⟨List.suffix_refl _, h, .refl _, [], rfl, by simp⟩

theorem write (hps : 0 < ps) {id : ℕ} (hr : InRange ps id) {bs : List UInt8}
    (hbs : bs.length ≤ ps) {r : List IoFate} (h : r <:+ o.ios) :
    OsKept ps name (fun j => j = id) o
      (({ o with ios := r } : Os).write name (pageOffset ps id) bs) := by
  refine ⟨List.suffix_refl _, h, diskKept_write hps hr hbs, [o.disk], rfl, fun x hx => ?_⟩
  rw [List.mem_singleton.mp hx]
  exact .refl _

theorem atomic (h : OsKept ps name D o o') (ho : o.Atomic) : o'.Atomic :=
  fun code torn hmem => ho code torn (h.ios.mem hmem)

theorem calm (h : OsKept ps name D o o') (ho : o.Calm) : o'.Calm := by
  have ha := h.allocs
  have hi := h.ios
  rw [ho.1] at ha
  rw [ho.2] at hi
  exact ⟨List.suffix_nil.mp ha, List.suffix_nil.mp hi⟩

end OsKept

end NtAdmin.Wmi.PageMgr
