import NtAdmin.Wmi.Containers.Cache

/-! What holds of one element of the cache at every point where another thread can run. -/
namespace NtAdmin.Wmi.Containers

variable {Key : Type}

/-- The counts and flags of an element that is found under its key or not, is in the decay queue or
not, and has `pr` and `pf` pending releases and `ds` destructions. -/
structure ElementOk (x : WmiCacheElement Key) (found queued : Prop) (pr pf ds : ℕ) (ins : Bool) :
    Prop where
  counts : x.m_InternalReferenceCount =
    (if 0 < x.m_ReferenceCount then 1 else 0) + (if x.m_Cached && !x.m_Decayed then 1 else 0) + pr
  nonCyclic : x.m_NonCylicReferenceCount = (if 0 < x.m_InternalReferenceCount then 1 else 0) + pf
  pending_le : pr ≤ 1
  pending : 0 < pr → x.m_Decayed = true
  decaying : x.m_Decaying = true → x.m_Cached = true ∧ x.m_Decayed = false
  waiting : queued → ds + pf = 0
  kept : x.m_Cached = true → x.m_Decayed = false → found
  cached : found → x.m_Cached = true
  inserted : ins = true → x.m_Decayed = false → x.m_Cached = true
  touched : x.m_Cached = true ∨ x.m_Decayed = true → ins = true
  once : ds + pf ≤ 1
  alive : 0 < x.m_InternalReferenceCount → ds + pf = 0
  gone : 0 < ds + pf → x.m_Cached = false
  unused : x.m_InternalReferenceCount = 0 → ds + pf = 0 → ins = false

namespace ElementOk

variable {x : WmiCacheElement Key} {found queued : Prop} {pr pf ds : ℕ} {ins : Bool}

theorem alive_of_cached (h : ElementOk x found queued pr pf ds ins) (hc : x.m_Cached = true) :
    ds + pf = 0 := by
  by_contra hne
  have hgone := h.gone (Nat.pos_of_ne_zero hne)
  exact Bool.noConfusion (hgone.symm.trans hc)

/-- What is to know of an element that no one has had a reference to. -/
theorem of_isNew (h : ElementOk x found queued pr pf ds ins) (hnew : x.isNew = true) (hds : ds = 0) :
    pr = 0 ∧ pf = 0 ∧ ins = false ∧ x.m_Cached = false ∧ x.m_Decayed = false ∧ ¬found := by
  obtain ⟨href, hint, hnon⟩ := of_decide_eq_true hnew
  have hpf : pf = 0 := by
    have := h.nonCyclic
    rw [hnon, hint] at this
    simpa using this.symm
  have hins := h.unused hint (by rw [hds, hpf])
  have htouched : ¬(x.m_Cached = true ∨ x.m_Decayed = true) := by
    intro ht
    exact Bool.noConfusion (hins.symm.trans (h.touched ht))
  obtain ⟨hcached, hdecayed⟩ := not_or.mp htouched
  have hpr : pr = 0 := by
    have := h.counts
    rw [hint] at this
    omega
  refine ⟨hpr, hpf, hins, Bool.eq_false_iff.mpr hcached, Bool.eq_false_iff.mpr hdecayed, ?_⟩
  exact fun hf => hcached (h.cached hf)

theorem new (key : Key) (period : UInt32) (queued : Prop) :
    ElementOk (WmiCacheElement.new key period) False queued 0 0 0 false := by
  constructor <;> simp [WmiCacheElement.new]

theorem addRef (h : ElementOk x found queued pr pf ds ins) (hlive : ds + pf = 0) :
    ElementOk x.addRef found queued pr pf ds ins := by
  have hcounts := h.counts
  have hnon := h.nonCyclic
  unfold WmiCacheElement.addRef WmiCacheElement.internalAddRef
  split_ifs with href hint
  · constructor <;> grind [ElementOk]
  · constructor <;> grind [ElementOk]
  · constructor <;> grind [ElementOk]

theorem insert (h : ElementOk x found queued pr pf ds ins) (href : 0 < x.m_ReferenceCount)
    (hins : ins = false) :
    ElementOk { x.internalAddRef with m_Cached := true } True queued pr pf ds true := by
  have hcounts := h.counts
  have hnon := h.nonCyclic
  have hflags : x.m_Cached = false ∧ x.m_Decayed = false := by
    constructor
    · exact Bool.eq_false_iff.mpr fun hc => Bool.noConfusion (hins.symm.trans (h.touched (Or.inl hc)))
    · exact Bool.eq_false_iff.mpr fun hd => Bool.noConfusion (hins.symm.trans (h.touched (Or.inr hd)))
  unfold WmiCacheElement.internalAddRef
  constructor <;> grind [ElementOk]

/-- A reference goes that is not the last. -/
theorem releaseOne (h : ElementOk x found queued pr pf ds ins) (href : 1 < x.m_ReferenceCount) :
    ElementOk { x with m_ReferenceCount := x.m_ReferenceCount - 1 } found queued pr pf ds ins := by
  have hcounts := h.counts
  have hnon := h.nonCyclic
  constructor <;> grind [ElementOk]

/-- The last reference goes, with the internal count it stood for. -/
theorem releaseLast (h : ElementOk x found queued pr pf ds ins) (href : x.m_ReferenceCount = 1)
    (hint : x.m_InternalReferenceCount ≠ 1) :
    ElementOk { x with
      m_ReferenceCount := 0, m_InternalReferenceCount := x.m_InternalReferenceCount - 1 }
      found queued pr pf ds ins := by
  have hcounts := h.counts
  have hnon := h.nonCyclic
  constructor <;> grind [ElementOk]

/-- The last count goes, and the element is about to be deleted. -/
theorem freeReference (h : ElementOk x found queued pr pf ds ins) (href : x.m_ReferenceCount = 1)
    (hint : x.m_InternalReferenceCount = 1) (hqueued : ¬queued) :
    ElementOk { x with
      m_ReferenceCount := 0, m_InternalReferenceCount := 0, m_Cached := false }
      False queued pr (pf + 1) ds ins := by
  have hcounts := h.counts
  have hnon := h.nonCyclic
  constructor <;> grind [ElementOk]

theorem internalRelease (h : ElementOk x found queued pr pf ds ins) (hpr : 0 < pr)
    (hint : x.m_InternalReferenceCount ≠ 1) :
    ElementOk { x with m_InternalReferenceCount := x.m_InternalReferenceCount - 1 }
      found queued (pr - 1) pf ds ins := by
  have hcounts := h.counts
  have hnon := h.nonCyclic
  constructor <;> grind [ElementOk]

theorem freeInternal (h : ElementOk x found queued pr pf ds ins) (hpr : 0 < pr)
    (hint : x.m_InternalReferenceCount = 1) (hqueued : ¬queued) :
    ElementOk { x with m_InternalReferenceCount := 0, m_Cached := false }
      False queued (pr - 1) (pf + 1) ds ins := by
  have hcounts := h.counts
  have hnon := h.nonCyclic
  constructor <;> grind [ElementOk]

/-- The element waits in the queue for its expiry. -/
theorem decay (h : ElementOk x found queued pr pf ds ins) (hcached : x.m_Cached = true)
    (hdecayed : x.m_Decayed = false) :
    ElementOk { x with m_Decaying := true } found True pr pf ds ins where
  counts := h.counts
  nonCyclic := h.nonCyclic
  pending_le := h.pending_le
  pending := h.pending
  decaying _ := ⟨hcached, hdecayed⟩
  waiting _ := h.alive_of_cached hcached
  kept := h.kept
  cached := h.cached
  inserted := h.inserted
  touched := h.touched
  once := h.once
  alive := h.alive
  gone := h.gone
  unused := h.unused

/-- The element expires. -/
theorem expire (h : ElementOk x found queued pr pf ds ins) (hdecaying : x.m_Decaying = true) :
    ElementOk (x.setDecayed x.m_Cached) found queued (pr + 1) pf ds ins := by
  have hcounts := h.counts
  have hnon := h.nonCyclic
  obtain ⟨hcached, hdecayed⟩ := h.decaying hdecaying
  unfold WmiCacheElement.setDecayed
  constructor <;> grind [ElementOk]

/-- Nodes only go from the queue. -/
theorem dequeue {queued' : Prop} (h : ElementOk x found queued pr pf ds ins)
    (hqueued : queued' → queued) : ElementOk x found queued' pr pf ds ins := by
  constructor <;> grind [ElementOk]

/-- The element is shut down. -/
theorem shutdown (h : ElementOk x found queued pr pf ds ins) (hfound : found)
    (hdecayed : x.m_Decayed = false) :
    ElementOk (x.setDecayed false) False queued (pr + 1) pf ds ins := by
  have hcounts := h.counts
  have hnon := h.nonCyclic
  have hcached := h.cached hfound
  unfold WmiCacheElement.setDecayed
  constructor <;> grind [ElementOk]

/-- An element that has expired is no longer found. -/
theorem lose (h : ElementOk x found queued pr pf ds ins) (hdecayed : x.m_Decayed = true) :
    ElementOk x False queued pr pf ds ins := by
  constructor <;> grind [ElementOk]

/-- The cache does not need an element any more that is not found or has expired. -/
theorem clear (h : ElementOk x found queued pr pf ds ins)
    (hnot : ¬(found ∧ x.m_Decayed = false)) : ElementOk x False queued pr pf ds ins := by
  constructor <;> grind [ElementOk]

theorem free (h : ElementOk x found queued pr pf ds ins) (hpf : 0 < pf) :
    ElementOk { x with m_NonCylicReferenceCount := x.m_NonCylicReferenceCount - 1 }
      found queued pr (pf - 1) (if x.m_NonCylicReferenceCount = 1 then ds + 1 else ds) ins := by
  have hcounts := h.counts
  have hnon := h.nonCyclic
  constructor <;> grind [ElementOk]

/-- Only the answers about the element matter. -/
theorem congr {found' : Prop} (h : ElementOk x found queued pr pf ds ins) (hf : found' ↔ found) :
    ElementOk x found' queued pr pf ds ins := by
  rw [propext hf]
  exact h

end ElementOk

end NtAdmin.Wmi.Containers
