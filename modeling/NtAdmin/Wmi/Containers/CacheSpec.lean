import NtAdmin.Wmi.Containers.CacheElement

/-! What the steps on the cache keep. -/
namespace NtAdmin.Wmi.Containers
open Lib

namespace CacheDecay
variable {queue queue' : CacheDecay}

/-- The elements of the queue. -/
def elements (queue : CacheDecay) : List ElementPtr := queue.toList.map Prod.snd

theorem enqueue_perm {alloc : Bool} {t_Key : WmiUniqueTimeout} {e : ElementPtr}
    (h : queue.enqueue alloc (t_Key, e) = some queue') :
    queue'.elements.Perm (e :: queue.elements) := by
  cases alloc with
  | true => exact (SearchTree.perm_insert h).map Prod.snd
  | false => cases h

theorem delete_sublist (node : DecayNode) (queue : CacheDecay) :
    (queue.delete node).elements.Sublist queue.elements :=
  (SearchTree.sublist_erase node queue).map Prod.snd

theorem unqueue_sublist (e : ElementPtr) (queue : CacheDecay) :
    (queue.unqueue e).elements.Sublist queue.elements := by
  unfold unqueue
  split
  · exact delete_sublist _ queue
  · exact List.Sublist.refl _

end CacheDecay

namespace WmiCacheController
variable {Key : Type} [DecidableEq Key] {s t : WmiCacheController Key} {e : ElementPtr}

def queued (s : WmiCacheController Key) (e : ElementPtr) : Prop := e ∈ s.m_CacheDecay.elements

/-- The element is found under its key. -/
def found (s : WmiCacheController Key) (e : ElementPtr) : Prop :=
  s.m_Cache.find (s.element e).m_Key = some e

instance (s : WmiCacheController Key) (e : ElementPtr) : Decidable (s.found e) :=
  inferInstanceAs (Decidable (_ = _))

structure Inv (s : WmiCacheController Key) : Prop where
  ok : ∀ e, ElementOk (s.element e) (s.found e) (s.queued e) (s.pendingRelease e) (s.pendingFree e)
    (s.destroyed e) (s.inserted e)
  keys : ∀ key e, s.m_Cache.find key = some e → (s.element e).m_Key = key
  nodup : s.m_CacheDecay.elements.Nodup

/-- An element with its counts. -/
def view (s : WmiCacheController Key) (e : ElementPtr) :
    WmiCacheElement Key × ℕ × ℕ × ℕ × Bool :=
  (s.element e, s.pendingRelease e, s.pendingFree e, s.destroyed e, s.inserted e)

/-- A step on one element. Others that are no longer found have expired. -/
theorem Inv.change (h : Inv s) (e : ElementPtr)
    (hview : ∀ x, x ≠ e → t.view x = s.view x)
    (hok : ElementOk (t.element e) (t.found e) (t.queued e) (t.pendingRelease e) (t.pendingFree e)
      (t.destroyed e) (t.inserted e))
    (hfound : ∀ x, x ≠ e → (t.found x ↔ s.found x) ∨
      (¬t.found x ∧ (s.element x).m_Decayed = true))
    (hqueued : ∀ x, x ≠ e → t.queued x → s.queued x)
    (hkeys : ∀ key x, t.m_Cache.find key = some x → (t.element x).m_Key = key)
    (hnodup : t.m_CacheDecay.elements.Nodup) : Inv t where
  ok x := by
    by_cases hx : x = e
    · rw [hx]
      exact hok
    · have hxview := hview x hx
      simp only [view, Prod.mk.injEq] at hxview
      obtain ⟨helement, hpr, hpf, hds, hins⟩ := hxview
      rw [helement, hpr, hpf, hds, hins]
      rcases hfound x hx with hsame | ⟨hlost, hdecayed⟩
      · exact ((h.ok x).congr hsame).dequeue (hqueued x hx)
      · exact (((h.ok x).lose hdecayed).congr (iff_false_intro hlost)).dequeue (hqueued x hx)
  keys := hkeys
  nodup := hnodup

/-- A step that changes counts and flags of one element only. -/
theorem Inv.changeElement (h : Inv s) (e : ElementPtr)
    (hview : ∀ x, x ≠ e → t.view x = s.view x) (hcache : t.m_Cache = s.m_Cache)
    (hqueue : t.m_CacheDecay = s.m_CacheDecay) (hkey : (t.element e).m_Key = (s.element e).m_Key)
    (hok : ElementOk (t.element e) (s.found e) (s.queued e) (t.pendingRelease e) (t.pendingFree e)
      (t.destroyed e) (t.inserted e)) : Inv t := by
  have helement : ∀ x, (t.element x).m_Key = (s.element x).m_Key := by
    intro x
    by_cases hx : x = e
    · rw [hx]
      exact hkey
    · have hxview := hview x hx
      simp only [view, Prod.mk.injEq] at hxview
      rw [hxview.1]
  have hfound : ∀ x, t.found x ↔ s.found x := by
    intro x
    unfold found
    rw [hcache, helement]
  have hqueued : ∀ x, t.queued x ↔ s.queued x := by
    intro x
    unfold queued
    rw [hqueue]
  refine h.change e hview ((hok.congr (hfound e)).dequeue (hqueued e).mp)
    (fun x _ => Or.inl (hfound x)) (fun x _ => (hqueued x).mp) ?_ ?_
  · intro key x hx
    rw [hcache] at hx
    rw [helement]
    exact h.keys key x hx
  · rw [hqueue]
    exact h.nodup

omit [DecidableEq Key] in
theorem view_modify {f : WmiCacheElement Key → WmiCacheElement Key} {x : ElementPtr} (hx : x ≠ e) :
    (s.modify e f).view x = s.view x := by
  simp [view, modify, hx]

omit [DecidableEq Key] in
theorem element_modify (f : WmiCacheElement Key → WmiCacheElement Key) :
    (s.modify e f).element e = f (s.element e) := by
  simp [modify]

/-- One element changes. -/
theorem Inv.modify (h : Inv s) (e : ElementPtr) {f : WmiCacheElement Key → WmiCacheElement Key}
    (hkey : (f (s.element e)).m_Key = (s.element e).m_Key)
    (hok : ElementOk (f (s.element e)) (s.found e) (s.queued e) (s.pendingRelease e)
      (s.pendingFree e) (s.destroyed e) (s.inserted e)) : Inv (s.modify e f) := by
  refine h.changeElement e (fun x hx => view_modify hx) rfl rfl ?_ ?_
  · rw [element_modify]
    exact hkey
  · rw [element_modify]
    exact hok

/-! ### References -/

omit [DecidableEq Key] in
theorem addRef_key (x : WmiCacheElement Key) : x.addRef.m_Key = x.m_Key := by
  unfold WmiCacheElement.addRef
  split_ifs <;> rfl

theorem Inv.addRef (h : Inv s) (hlive : s.destroyed e + s.pendingFree e = 0) :
    Inv (s.modify e WmiCacheElement.addRef) :=
  h.modify e (addRef_key _) ((h.ok e).addRef hlive)

theorem Inv.live_of_reference (h : Inv s) (href : 0 < (s.element e).m_ReferenceCount) :
    s.destroyed e + s.pendingFree e = 0 := by
  have hcounts := (h.ok e).counts
  rw [if_pos href] at hcounts
  exact (h.ok e).alive (by omega)

theorem Inv.live_of_isNew (h : Inv s) (hnew : (s.element e).isNew = true)
    (hds : s.destroyed e = 0) : s.destroyed e + s.pendingFree e = 0 := by
  rw [hds, ((h.ok e).of_isNew hnew hds).2.1]

theorem Inv.find (h : Inv s) (key : Key) : Inv (s.find key) := by
  unfold WmiCacheController.find
  split
  · rename_i e he
    have hfound : s.found e := by
      unfold found
      rw [h.keys key e he]
      exact he
    exact h.addRef ((h.ok e).alive_of_cached ((h.ok e).cached hfound))
  · exact h

theorem Inv.create (h : Inv s) (hnew : (s.element e).isNew = true) (hds : s.destroyed e = 0)
    (key : Key) (period : UInt32) : Inv (s.modify e fun _ => WmiCacheElement.new key period) := by
  obtain ⟨hpr, hpf, hins, -, -, hfound⟩ := (h.ok e).of_isNew hnew hds
  have hnot : ∀ key, s.m_Cache.find key ≠ some e := by
    intro key hkey
    apply hfound
    unfold found
    rw [h.keys key e hkey]
    exact hkey
  refine h.change e (fun x hx => view_modify hx) ?_ ?_ (fun _ _ => id) ?_ h.nodup
  · rw [element_modify]
    change ElementOk _ _ _ (s.pendingRelease e) (s.pendingFree e) (s.destroyed e) (s.inserted e)
    rw [hpr, hpf, hds, hins]
    exact (ElementOk.new key period _).congr (iff_false_intro (hnot _))
  · intro x hx
    left
    unfold found
    simp only [WmiCacheController.modify, Function.update_of_ne hx]
  · intro key' x hx
    have hxe : x ≠ e := by
      rintro rfl
      exact hnot key' hx
    simp only [WmiCacheController.modify, Function.update_of_ne hxe]
    exact h.keys key' x hx

/-! ### Keys -/

/-- An element that is not found under its key is not found under any. -/
theorem Inv.not_lookup (h : Inv s) (hnot : ¬s.found e) (key : Key) :
    s.m_Cache.find key ≠ some e := by
  intro hkey
  apply hnot
  unfold found
  rw [h.keys key e hkey]
  exact hkey

theorem Inv.insert (h : Inv s) (href : 0 < (s.element e).m_ReferenceCount)
    (hins : s.inserted e = false) (alloc : Bool) : Inv (s.insert alloc e) := by
  unfold WmiCacheController.insert
  split_ifs with hcond
  · have hnone : s.m_Cache.find (s.element e).m_Key = none := by
      rw [Bool.and_eq_true, decide_eq_true_eq] at hcond
      exact hcond.2
    have hkey : ∀ x, ({ s.modify e fun x => { x.internalAddRef with m_Cached := true } with
        m_Cache := AList.insert (s.element e).m_Key e s.m_Cache
        inserted := Function.update s.inserted e true } : WmiCacheController Key).element x =
          Function.update s.element e
            { (s.element e).internalAddRef with m_Cached := true } x := fun _ => rfl
    refine h.change e ?_ ?_ ?_ (fun _ _ => id) ?_ h.nodup
    · intro x hx
      simp [view, WmiCacheController.modify, hx]
    · have hok := (h.ok e).insert href hins
      simp only [found, WmiCacheController.modify, Function.update_self]
      refine hok.congr ?_
      exact iff_of_true (Cache.find_insert _ _ _) trivial
    · intro x hx
      left
      simp only [found, WmiCacheController.modify, Function.update_of_ne hx]
      by_cases hk : (s.element x).m_Key = (s.element e).m_Key
      · rw [hk, Cache.find_insert, hnone]
        exact iff_of_false (fun heq => hx (Option.some.inj heq).symm) nofun
      · rw [Cache.find_insert_ne _ _ hk]
    · intro key x hx
      by_cases hk : key = (s.element e).m_Key
      · dsimp only at hx
        rw [hk, Cache.find_insert] at hx
        rw [← Option.some.inj hx, hkey, Function.update_self, hk]
        rfl
      · dsimp only at hx
        rw [Cache.find_insert_ne _ _ hk] at hx
        have hxkey := h.keys key x hx
        rw [hkey]
        by_cases hxe : x = e
        · rw [hxe] at hxkey
          exact absurd hxkey.symm hk
        · rw [Function.update_of_ne hxe]
          exact hxkey
  · exact h

/-! ### Releases -/

/-- The step drops the last count of an element, whose key then leaves the cache. -/
theorem Inv.dropLast (h : Inv s) (hview : ∀ x, x ≠ e → t.view x = s.view x)
    (hcache : t.m_Cache =
      if (s.element e).m_Cached then AList.erase (s.element e).m_Key s.m_Cache else s.m_Cache)
    (hqueue : t.m_CacheDecay = s.m_CacheDecay) (hkey : (t.element e).m_Key = (s.element e).m_Key)
    (hother : (s.element e).m_Cached = true → ∀ x, s.m_Cache.find (s.element e).m_Key = some x →
      x = e ∨ (s.element x).m_Decayed = true)
    (hok : ElementOk (t.element e) False (s.queued e) (t.pendingRelease e) (t.pendingFree e)
      (t.destroyed e) (t.inserted e)) : Inv t := by
  have helement : ∀ x, x ≠ e → t.element x = s.element x := by
    intro x hx
    have hxview := hview x hx
    simp only [view, Prod.mk.injEq] at hxview
    exact hxview.1
  have hlookup : ∀ key x, t.m_Cache.find key = some x → s.m_Cache.find key = some x := by
    intro key x hx
    rw [hcache] at hx
    split_ifs at hx
    · by_cases hk : key = (s.element e).m_Key
      · rw [hk, Cache.find_erase] at hx
        nomatch hx
      · rwa [Cache.find_erase_ne _ hk] at hx
    · exact hx
  have hnot : ∀ key, t.m_Cache.find key ≠ some e := by
    intro key hx
    have hs := hlookup key e hx
    have hk := h.keys key e hs
    have hcached : (s.element e).m_Cached = true := by
      apply (h.ok e).cached
      unfold found
      rw [hk]
      exact hs
    rw [hcache, if_pos hcached, ← hk, Cache.find_erase] at hx
    nomatch hx
  refine h.change e hview ?_ ?_ ?_ ?_ ?_
  · refine (hok.congr (iff_false_intro (hnot _))).dequeue fun hq => ?_
    unfold queued at hq
    rwa [hqueue] at hq
  · intro x hx
    unfold found
    rw [helement x hx]
    by_cases hcached : (s.element e).m_Cached = true
    · by_cases hk : (s.element x).m_Key = (s.element e).m_Key
      · rw [hcache, if_pos hcached, hk, Cache.find_erase]
        by_cases hsx : s.m_Cache.find (s.element e).m_Key = some x
        · exact Or.inr ⟨nofun, (hother hcached x hsx).resolve_left hx⟩
        · exact Or.inl (iff_of_false nofun hsx)
      · rw [hcache, if_pos hcached, Cache.find_erase_ne _ hk]
        exact Or.inl Iff.rfl
    · rw [hcache, if_neg hcached]
      exact Or.inl Iff.rfl
  · intro x _ hq
    unfold queued at hq
    rwa [hqueue] at hq
  · intro key x hx
    have hs := hlookup key x hx
    by_cases hxe : x = e
    · rw [hxe, hkey]
      exact h.keys key e (hxe ▸ hs)
    · rw [helement x hxe]
      exact h.keys key x hs
  · rw [hqueue]
    exact h.nodup

/-- The element under the key of one whose last count goes is that one, or it has expired. -/
def KeyFree (s : WmiCacheController Key) (e : ElementPtr) : Prop :=
  (s.element e).m_Cached = true → ∀ x, s.m_Cache.find (s.element e).m_Key = some x →
    x = e ∨ (s.element x).m_Decayed = true

/-- Nor is the element in the queue. -/
def Free (s : WmiCacheController Key) (e : ElementPtr) : Prop := KeyFree s e ∧ ¬s.queued e

theorem Inv.internalRelease (h : Inv s) (hpr : 0 < s.pendingRelease e)
    (hfree : (s.element e).m_InternalReferenceCount = 1 → Free s e) :
    Inv (s.internalRelease e) := by
  unfold WmiCacheController.internalRelease unLockedInternalRelease
  dsimp only
  by_cases hint : (s.element e).m_InternalReferenceCount = 1
  · rw [if_pos hint]
    refine h.dropLast (e := e) ?_ rfl rfl ?_ (hfree hint).1 ?_
    · intro x hx
      simp [view, WmiCacheController.modify, hx]
    · simp [WmiCacheController.modify]
    · simp only [WmiCacheController.modify, Function.update_self]
      exact (h.ok e).freeInternal hpr hint (hfree hint).2
  · rw [if_neg hint]
    refine h.changeElement e ?_ rfl rfl ?_ ?_
    · intro x hx
      simp [view, WmiCacheController.modify, hx]
    · simp [WmiCacheController.modify]
    · simp only [WmiCacheController.modify, Function.update_self]
      exact (h.ok e).internalRelease hpr hint

/-- The node with which `Decay` queues an element. -/
def decayNode (s : WmiCacheController Key) (e : ElementPtr) (ticks : UInt32) : DecayNode :=
  (⟨ticks + (s.element e).m_Period, s.m_Counter + 1⟩, e)

/-- No node of the element is left when it is queued again, and `EnQueue` succeeds. -/
def Requeues (s : WmiCacheController Key) (alloc : Bool) (e : ElementPtr) (ticks : UInt32) : Prop :=
  e ∉ (s.m_CacheDecay.unqueue e).elements ∧
    ((s.m_CacheDecay.unqueue e).enqueue alloc (s.decayNode e ticks)).isSome = true

/-- The element goes to its new place in the queue. -/
theorem Inv.decay (h : Inv s) (hcached : (s.element e).m_Cached = true)
    (hdecayed : (s.element e).m_Decayed = false) {queue : CacheDecay}
    (hperm : queue.elements.Perm (e :: (s.m_CacheDecay.unqueue e).elements))
    (hgone : e ∉ (s.m_CacheDecay.unqueue e).elements) (counter : UInt32) :
    Inv ({ s with m_CacheDecay := queue, m_Counter := counter }.modify e
      fun x => { x with m_Decaying := true }) := by
  have hsub := CacheDecay.unqueue_sublist e s.m_CacheDecay
  have hsame : ∀ x, (s.modify e fun x => { x with m_Decaying := true }).found x ↔ s.found x := by
    intro x
    unfold found
    by_cases hx : x = e
    · simp [hx, WmiCacheController.modify]
    · simp only [WmiCacheController.modify, Function.update_of_ne hx]
  refine h.change e ?_ ?_ (fun x _ => Or.inl (hsame x)) ?_ ?_ ?_
  · intro x hx
    simp [view, WmiCacheController.modify, hx]
  · have hok := (h.ok e).decay hcached hdecayed
    rw [element_modify]
    exact (hok.congr (hsame e)).dequeue fun _ => trivial
  · intro x hx hq
    have hq' := hperm.mem_iff.mp hq
    rw [List.mem_cons] at hq'
    exact hsub.subset (hq'.resolve_left hx)
  · intro key x hx
    have hkey := h.keys key x hx
    by_cases hxe : x = e
    · rw [hxe] at hkey ⊢
      rw [element_modify]
      exact hkey
    · simp only [WmiCacheController.modify, Function.update_of_ne hxe]
      exact hkey
  · exact hperm.nodup_iff.mpr (List.nodup_cons.mpr ⟨hgone, h.nodup.sublist hsub⟩)

/-- The reference count goes down by one. -/
def dropReference (x : WmiCacheElement Key) : WmiCacheElement Key :=
  { x with m_ReferenceCount := x.m_ReferenceCount - 1 }

theorem Inv.releaseLast (h : Inv s) (href : (s.element e).m_ReferenceCount = 1)
    (hfree : (s.element e).m_InternalReferenceCount = 1 → Free s e) :
    Inv ((s.modify e dropReference).unLockedInternalRelease e) := by
  have hzero : dropReference (s.element e) = { s.element e with m_ReferenceCount := 0 } := by
    rw [dropReference, href]
  unfold unLockedInternalRelease
  simp only [element_modify, hzero]
  by_cases hint : (s.element e).m_InternalReferenceCount = 1
  · rw [if_pos hint]
    refine h.dropLast (e := e) ?_ rfl rfl ?_ (hfree hint).1 ?_
    · intro x hx
      simp [view, WmiCacheController.modify, hx]
    · simp [WmiCacheController.modify, hzero]
    · simp only [WmiCacheController.modify, Function.update_self, hzero]
      exact (h.ok e).freeReference href hint (hfree hint).2
  · rw [if_neg hint]
    refine h.changeElement e ?_ rfl rfl ?_ ?_
    · intro x hx
      simp [view, WmiCacheController.modify, hx]
    · simp [WmiCacheController.modify, hzero]
    · simp only [WmiCacheController.modify, Function.update_self, hzero]
      exact (h.ok e).releaseLast href hint

omit [DecidableEq Key] in
/-- The decay does not look at the reference count. -/
theorem decays_dropReference : (s.modify e dropReference).decays e = s.decays e := by
  unfold decays
  rw [element_modify]
  rfl

omit [DecidableEq Key] in
theorem decayNode_dropReference (ticks : UInt32) :
    (s.modify e dropReference).decayNode e ticks = s.decayNode e ticks := by
  unfold decayNode
  rw [element_modify]
  rfl

theorem found_dropReference : (s.modify e dropReference).found e ↔ s.found e := by
  unfold found
  rw [element_modify]
  rfl

theorem Inv.of_decays (h : Inv s) (hdecays : s.decays e = true) :
    (s.element e).m_Cached = true ∧ (s.element e).m_Decayed = false ∧ s.found e := by
  simp only [decays, Bool.and_eq_true, Bool.not_eq_true'] at hdecays
  exact ⟨hdecays.1.1, hdecays.1.2, (h.ok e).kept hdecays.1.1 hdecays.1.2⟩

/-- The cache has a count for the element, besides the one that is released. -/
theorem Inv.count_of_decays (h : Inv s) (hone : (s.element e).m_ReferenceCount = 1)
    (hdecays : s.decays e = true) : (s.element e).m_InternalReferenceCount = 2 := by
  obtain ⟨hcached, hdecayed, -⟩ := h.of_decays hdecays
  have hcounts := (h.ok e).counts
  have hpending := (h.ok e).pending
  rw [hone, hcached, hdecayed] at hcounts
  have hpr : s.pendingRelease e = 0 := by
    by_contra hne
    exact Bool.noConfusion (hdecayed.symm.trans (hpending (Nat.pos_of_ne_zero hne)))
  rw [hpr] at hcounts
  exact hcounts

/-! What `Release` does: it drops a reference that is not the last, the element starts to decay, it
finds no room in the queue, or it only loses its count. -/

theorem release_of_many (alloc : Bool) (ticks : UInt32)
    (hmany : (s.element e).m_ReferenceCount ≠ 1) :
    s.release alloc e ticks = s.modify e dropReference := by
  unfold WmiCacheController.release
  exact if_neg hmany

theorem release_of_last (alloc : Bool) (ticks : UInt32)
    (hone : (s.element e).m_ReferenceCount = 1) :
    s.release alloc e ticks =
      ((s.modify e dropReference).beginDecay alloc e ticks).unLockedInternalRelease e := by
  unfold WmiCacheController.release
  exact if_pos hone

theorem release_of_not {alloc : Bool} {ticks : UInt32} (hone : (s.element e).m_ReferenceCount = 1)
    (h : s.decays e = false ∨ s.m_Cache.find (s.element e).m_Key = none) :
    s.release alloc e ticks = (s.modify e dropReference).unLockedInternalRelease e := by
  have hbegin : (s.modify e dropReference).beginDecay alloc e ticks = s.modify e dropReference := by
    unfold beginDecay
    rw [decays_dropReference]
    rcases h with hdecays | hnone
    · rw [hdecays]
      rfl
    · have hnone' : (s.modify e dropReference).m_Cache.find
          ((s.modify e dropReference).element e).m_Key = none := by
        rw [element_modify]
        exact hnone
      unfold WmiCacheController.decay
      rw [hnone']
      exact ite_id _
  rw [release_of_last alloc ticks hone, hbegin]

theorem release_of_some {alloc : Bool} {ticks : UInt32} {queue : CacheDecay}
    (hone : (s.element e).m_ReferenceCount = 1) (hdecays : s.decays e = true) (hfound : s.found e)
    (hqueue : (s.m_CacheDecay.unqueue e).enqueue alloc (s.decayNode e ticks) = some queue) :
    s.release alloc e ticks =
      ({ s.modify e dropReference with
        m_CacheDecay := queue
        m_Counter := s.m_Counter + 1 }.modify e
          fun x => { x with m_Decaying := true }).unLockedInternalRelease e := by
  have hfound' := found_dropReference.mpr hfound
  rw [← decayNode_dropReference] at hqueue
  unfold found at hfound'
  have hqueue' : ((s.modify e dropReference).m_CacheDecay.unqueue e).enqueue alloc
      (⟨ticks + ((s.modify e dropReference).element e).m_Period,
        (s.modify e dropReference).m_Counter + 1⟩, e) = some queue := hqueue
  rw [release_of_last alloc ticks hone, beginDecay, decays_dropReference, if_pos hdecays,
    WmiCacheController.decay, hfound']
  dsimp only
  rw [hqueue']
  rfl

theorem release_of_none {alloc : Bool} {ticks : UInt32}
    (hone : (s.element e).m_ReferenceCount = 1) (hdecays : s.decays e = true) (hfound : s.found e)
    (hqueue : (s.m_CacheDecay.unqueue e).enqueue alloc (s.decayNode e ticks) = none) :
    s.release alloc e ticks =
      ({ s.modify e dropReference with
        m_CacheDecay := s.m_CacheDecay.unqueue e
        m_Counter := s.m_Counter + 1 }.unLockedInternalRelease e).unLockedInternalRelease e := by
  have hfound' := found_dropReference.mpr hfound
  rw [← decayNode_dropReference] at hqueue
  unfold found at hfound'
  have hqueue' : ((s.modify e dropReference).m_CacheDecay.unqueue e).enqueue alloc
      (⟨ticks + ((s.modify e dropReference).element e).m_Period,
        (s.modify e dropReference).m_Counter + 1⟩, e) = none := hqueue
  rw [release_of_last alloc ticks hone, beginDecay, decays_dropReference, if_pos hdecays,
    WmiCacheController.decay, hfound']
  dsimp only
  rw [hqueue']
  rfl

theorem Inv.release (h : Inv s) {alloc : Bool} {ticks : UInt32}
    (href : 0 < (s.element e).m_ReferenceCount)
    (hrequeues : (s.element e).m_ReferenceCount = 1 → s.decays e = true → s.Requeues alloc e ticks)
    (hfree : (s.element e).m_ReferenceCount = 1 → s.decays e = false →
      (s.element e).m_InternalReferenceCount = 1 → Free s e) : Inv (s.release alloc e ticks) := by
  by_cases hone : (s.element e).m_ReferenceCount = 1
  · cases hdecays : s.decays e with
    | true =>
      -- The element starts to decay, and the cache keeps its count.
      obtain ⟨hcached, hdecayed, hfound⟩ := h.of_decays hdecays
      obtain ⟨hgone, hsome⟩ := hrequeues hone hdecays
      obtain ⟨queue, hqueue⟩ := Option.isSome_iff_exists.mp hsome
      have hinv := h.decay hcached hdecayed (CacheDecay.enqueue_perm hqueue) hgone
        (s.m_Counter + 1)
      have hcommute : { s.modify e dropReference with
            m_CacheDecay := queue
            m_Counter := s.m_Counter + 1 }.modify e (fun x => { x with m_Decaying := true }) =
          ({ s with m_CacheDecay := queue, m_Counter := s.m_Counter + 1 }.modify e
            fun x => { x with m_Decaying := true }).modify e dropReference := by
        simp [WmiCacheController.modify, dropReference]
      rw [release_of_some hone hdecays hfound hqueue, hcommute]
      refine hinv.releaseLast ?_ fun hint => ?_
      · rw [element_modify]
        exact hone
      · rw [element_modify] at hint
        have htwo := h.count_of_decays hone hdecays
        change (s.element e).m_InternalReferenceCount = 1 at hint
        omega
    | false =>
      rw [release_of_not hone (Or.inl hdecays)]
      exact h.releaseLast hone (hfree hone hdecays)
  · rw [release_of_many alloc ticks hone]
    exact h.modify e rfl ((h.ok e).releaseOne (by omega))

/-! ### Expiry and shutdown -/

/-- Some nodes go from the queue. -/
theorem Inv.shrink (h : Inv s) {queue : CacheDecay}
    (hsub : queue.elements.Sublist s.m_CacheDecay.elements) :
    Inv { s with m_CacheDecay := queue } where
  ok x := (h.ok x).dequeue fun hq => hsub.subset hq
  keys := h.keys
  nodup := h.nodup.sublist hsub

theorem Inv.strobe (h : Inv s) (ticks a_NextStrobeDelta : UInt32) :
    Inv (s.strobe ticks a_NextStrobeDelta).2.2 := by
  unfold WmiCacheController.strobe
  split
  · exact h
  · rename_i t_Key e queue hqueue
    dsimp only
    have hshrink := h.shrink (CacheDecay.delete_sublist (t_Key, e) s.m_CacheDecay)
    split_ifs with hticks hdecaying
    · refine hshrink.changeElement e ?_ rfl rfl ?_ ?_
      · intro x hx
        simp [view, WmiCacheController.modify, hx]
      · simp [WmiCacheController.modify, WmiCacheElement.setDecayed]
      · have hok := (hshrink.ok e).expire hdecaying
        simp only [WmiCacheController.modify, Function.update_self]
        exact hok
    · exact hshrink
    · exact h

theorem Inv.shutdownKey (h : Inv s) (key : Key) : Inv (s.shutdownKey key) := by
  unfold WmiCacheController.shutdownKey
  split
  · rename_i e he
    have hekey := h.keys key e he
    have hfound : s.found e := by
      unfold found
      rw [hekey]
      exact he
    have hlookup : ∀ k x, Cache.find (AList.erase key s.m_Cache) k = some x →
        s.m_Cache.find k = some x := by
      intro k x hx
      by_cases hk : k = key
      · rw [hk, Cache.find_erase] at hx
        nomatch hx
      · rwa [Cache.find_erase_ne _ hk] at hx
    have hothers : ∀ x, x ≠ e →
        (Cache.find (AList.erase key s.m_Cache) (s.element x).m_Key = some x ↔ s.found x) := by
      intro x hx
      unfold found
      by_cases hk : (s.element x).m_Key = key
      · rw [hk, Cache.find_erase, he]
        exact iff_of_false nofun fun heq => hx (Option.some.inj heq).symm
      · rw [Cache.find_erase_ne _ hk]
    split_ifs with hdecayed
    · refine h.change e (fun _ _ => rfl) ?_ (fun x hx => Or.inl (hothers x hx))
        (fun _ _ => id) (fun k x hx => h.keys k x (hlookup k x hx)) h.nodup
      refine ((h.ok e).lose hdecayed).congr (iff_false_intro ?_)
      unfold found
      dsimp only
      rw [hekey, Cache.find_erase]
      exact nofun
    · have hfalse : (s.element e).m_Decayed = false := Bool.eq_false_iff.mpr hdecayed
      have hsub := CacheDecay.unqueue_sublist e s.m_CacheDecay
      have hkeys : ∀ x, (({ s.modify e (WmiCacheElement.setDecayed false) with
          m_CacheDecay := s.m_CacheDecay.unqueue e
          m_Cache := AList.erase key s.m_Cache
          pendingRelease := Function.update s.pendingRelease e (s.pendingRelease e + 1) } :
            WmiCacheController Key).element x).m_Key = (s.element x).m_Key := by
        intro x
        by_cases hx : x = e
        · simp [WmiCacheController.modify, hx, WmiCacheElement.setDecayed]
        · simp [WmiCacheController.modify, hx]
      refine h.change e ?_ ?_ ?_ ?_ ?_ ?_
      · intro x hx
        simp [view, WmiCacheController.modify, hx]
      · have hok := (h.ok e).shutdown hfound hfalse
        simp only [WmiCacheController.modify, Function.update_self]
        refine (hok.congr (iff_false_intro ?_)).dequeue fun hq => hsub.subset hq
        unfold found
        simp only [Function.update_self, WmiCacheElement.setDecayed]
        rw [hekey, Cache.find_erase]
        exact nofun
      · intro x hx
        left
        unfold found
        rw [hkeys]
        exact hothers x hx
      · exact fun x _ hq => hsub.subset hq
      · intro k x hx
        rw [hkeys]
        exact h.keys k x (hlookup k x hx)
      · exact h.nodup.sublist hsub
  · exact h

omit [DecidableEq Key] in
theorem queue_shutdownElements (l : List ElementPtr) :
    (shutdownElements l s).m_CacheDecay = s.m_CacheDecay := by
  induction l generalizing s with
  | nil => rfl
  | cons e l ih =>
    unfold shutdownElements
    split_ifs
    · exact ih
    · exact ih

omit [DecidableEq Key] in
/-- What the loop does with each element. -/
theorem view_shutdownElements (l : List ElementPtr) (x : ElementPtr) :
    (shutdownElements l s).view x =
      if x ∈ l ∧ (s.element x).m_Decayed = false then
        ((s.element x).setDecayed false, s.pendingRelease x + 1, s.pendingFree x, s.destroyed x,
          s.inserted x)
      else s.view x := by
  induction l generalizing s with
  | nil => simp [shutdownElements]
  | cons e l ih =>
    unfold shutdownElements
    split_ifs with hdecayed hx hx
    · rw [ih]
      have hmem : x ∈ l ∧ (s.element x).m_Decayed = false := by
        refine ⟨(List.mem_cons.mp hx.1).resolve_left ?_, hx.2⟩
        rintro rfl
        exact Bool.noConfusion (hdecayed.symm.trans hx.2)
      exact if_pos hmem
    · rw [ih]
      exact if_neg fun hmem => hx ⟨List.mem_cons_of_mem e hmem.1, hmem.2⟩
    · rw [ih]
      by_cases hxe : x = e
      · simp [view, modify, hxe, WmiCacheElement.setDecayed]
      · have hmem : x ∈ l := (List.mem_cons.mp hx.1).resolve_left hxe
        simp [modify, hxe, hmem, hx.2]
    · rw [ih]
      have hxe : x ≠ e := by
        rintro rfl
        exact hx ⟨List.mem_cons_self, Bool.eq_false_iff.mpr hdecayed⟩
      have hmem : ¬(x ∈ l ∧ (s.element x).m_Decayed = false) :=
        fun hmem => hx ⟨List.mem_cons_of_mem e hmem.1, hmem.2⟩
      simp only [modify, Function.update_of_ne hxe]
      rw [if_neg hmem]
      simp [view, hxe]

/-- The elements that are found are those in the tree. -/
theorem Inv.mem_entries (h : Inv s) (x : ElementPtr) :
    x ∈ s.m_Cache.entries.map Sigma.snd ↔ s.found x := by
  constructor
  · intro hx
    obtain ⟨⟨key, y⟩, hy, rfl⟩ := List.mem_map.mp hx
    have hfind : s.m_Cache.find key = some y := AList.mem_lookup_iff.mpr hy
    unfold found
    rw [h.keys key y hfind]
    exact hfind
  · intro hx
    exact List.mem_map.mpr ⟨⟨_, x⟩, AList.mem_lookup_iff.mp hx, rfl⟩

theorem Inv.shutdown (h : Inv s) {alloc : Bool} (ht : s.shutdown alloc = some t) : Inv t := by
  have hempty : Inv { s with m_CacheDecay := .leaf } := h.shrink (List.nil_sublist _)
  obtain ⟨-, ht⟩ := Option.ite_none_right_eq_some.mp ht
  cases alloc with
  | false =>
    obtain rfl := Option.some.inj ht
    exact hempty
  | true =>
    obtain rfl := Option.some.inj ht
    have hqueue := queue_shutdownElements (s := { s with m_CacheDecay := .leaf })
      (s.m_Cache.entries.map Sigma.snd)
    constructor
    · intro x
      have hview := view_shutdownElements (s := { s with m_CacheDecay := .leaf })
        (s.m_Cache.entries.map Sigma.snd) x
      have hqueued : ∀ p : Prop, (x ∈ (shutdownElements (s.m_Cache.entries.map Sigma.snd)
          { s with m_CacheDecay := .leaf }).m_CacheDecay.elements → p) := by
        intro p hq
        rw [hqueue] at hq
        exact absurd hq List.not_mem_nil
      split_ifs at hview with hx
      · simp only [view, Prod.mk.injEq] at hview
        obtain ⟨helement, hpr, hpf, hds, hins⟩ := hview
        have hok := (hempty.ok x).shutdown ((h.mem_entries x).mp hx.1) hx.2
        dsimp only at hok
        rw [← helement, ← hpr, ← hpf, ← hds, ← hins] at hok
        exact (hok.congr (iff_false_intro nofun)).dequeue (hqueued _)
      · simp only [view, Prod.mk.injEq] at hview
        obtain ⟨helement, hpr, hpf, hds, hins⟩ := hview
        have hok := (hempty.ok x).clear fun hclear =>
          hx ⟨(h.mem_entries x).mpr hclear.1, hclear.2⟩
        dsimp only at hok
        rw [← helement, ← hpr, ← hpf, ← hds, ← hins] at hok
        exact (hok.congr (iff_false_intro nofun)).dequeue (hqueued _)
    · intro _ _ hx
      nomatch hx
    · dsimp only
      rw [hqueue]
      exact List.nodup_nil

theorem Inv.nonCyclicRelease (h : Inv s) (hpf : 0 < s.pendingFree e) :
    Inv (s.nonCyclicRelease e) := by
  have hok := (h.ok e).free hpf
  unfold WmiCacheController.nonCyclicRelease
  refine h.changeElement e ?_ rfl rfl ?_ ?_
  · intro x hx
    by_cases hnon : (s.element e).m_NonCylicReferenceCount = 1
    · simp [view, WmiCacheController.modify, hx, hnon]
    · simp [view, WmiCacheController.modify, hx, hnon]
  · simp [WmiCacheController.modify]
  · by_cases hnon : (s.element e).m_NonCylicReferenceCount = 1
    · rw [if_pos hnon] at hok
      simp only [WmiCacheController.modify, Function.update_self, if_pos hnon]
      exact hok
    · rw [if_neg hnon] at hok
      simp only [WmiCacheController.modify, Function.update_self, if_neg hnon]
      exact hok

end WmiCacheController

end NtAdmin.Wmi.Containers
