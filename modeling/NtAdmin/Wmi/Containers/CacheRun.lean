import NtAdmin.Wmi.Containers.CacheSpec
import NtAdmin.Lib.Runs

/-! What the cache owes its elements, in every run. -/
namespace NtAdmin.Wmi.Containers

open NtAdmin.Lib

namespace WmiCacheController
variable {Key : Type} [DecidableEq Key] {s t : WmiCacheController Key} {e : ElementPtr}

/-- The cache still has to release the element. -/
def owes (s : WmiCacheController Key) (e : ElementPtr) : Bool :=
  (s.element e).m_Cached && !(s.element e).m_Decayed || 0 < s.pendingRelease e

structure Owned (s : WmiCacheController Key) : Prop where
  counts : ∀ e, (s.element e).m_InternalReferenceCount =
    (if 0 < (s.element e).m_ReferenceCount then 1 else 0) + (if s.owes e then 1 else 0)
  destroyed : ∀ e, 0 < s.destroyed e + s.pendingFree e →
    s.destroyed e + s.pendingFree e = 1 ∧ (s.element e).m_InternalReferenceCount = 0 ∧
      ¬s.queued e ∧ ∀ key, s.m_Cache.find key ≠ some e
  deleted : ∀ e, s.inserted e = true → (s.element e).m_InternalReferenceCount = 0 →
    s.destroyed e + s.pendingFree e = 1
  nodup : s.m_CacheDecay.elements.Nodup
  kept : ∀ e, s.inserted e = true → (s.element e).m_Decayed = false → s.found e

/-- An element that starts to decay is queued anew, and the last count of one does not go while a
node of it is in the queue or another one is found under its key. -/
def Meets (s : WmiCacheController Key) : CacheEvent Key → Prop
  | .release alloc e ticks => (s.element e).m_ReferenceCount = 1 →
      if s.decays e then Requeues s alloc e ticks
      else (s.element e).m_InternalReferenceCount = 1 → Free s e
  | .internalRelease e => (s.element e).m_InternalReferenceCount = 1 → Free s e
  | _ => True

theorem Inv.owned (h : Inv s) : Owned s where
  counts e := by
    have hcounts := (h.ok e).counts
    have hle := (h.ok e).pending_le
    have hpending := (h.ok e).pending
    rw [hcounts]
    unfold owes
    cases hcached : (s.element e).m_Cached && !(s.element e).m_Decayed with
    | false =>
      by_cases hpr : 0 < s.pendingRelease e
      · have hone : s.pendingRelease e = 1 := by omega
        simp [hone]
      · have hzero : s.pendingRelease e = 0 := by omega
        simp [hzero]
    | true =>
      have hpr : s.pendingRelease e = 0 := by
        by_contra hne
        rw [hpending (Nat.pos_of_ne_zero hne), Bool.not_true, Bool.and_false] at hcached
        contradiction
      simp [hpr]
  destroyed e hgone := by
    have hcached := (h.ok e).gone hgone
    have hnot : ∀ p : Prop, (p → (s.element e).m_Cached = true) → ¬p :=
      fun p hp hq => Bool.noConfusion (hcached.symm.trans (hp hq))
    have honce := (h.ok e).once
    constructor
    · omega
    constructor
    · by_contra hne
      have halive := (h.ok e).alive (Nat.pos_of_ne_zero hne)
      omega
    constructor
    · intro hq
      have hwaiting := (h.ok e).waiting hq
      omega
    · exact h.not_lookup (hnot _ (h.ok e).cached)
  deleted e hins hint := by
    have honce := (h.ok e).once
    by_contra hne
    have hunused := (h.ok e).unused hint (by omega)
    exact Bool.noConfusion (hunused.symm.trans hins)
  nodup := h.nodup
  kept e hins hdecayed := (h.ok e).kept ((h.ok e).inserted hins hdecayed) hdecayed

/-! ### One step -/

theorem inv_start (key : Key) : Inv (start key) where
  ok _ := (ElementOk.new key 0 _).congr (iff_false_intro nofun)
  keys _ _ hx := nomatch hx
  nodup := List.nodup_nil

theorem Inv.step {ev : CacheEvent Key} (h : Inv s) (hmeets : Meets s ev)
    (ht : s.step ev = some t) : Inv t := by
  obtain ⟨hallows, hnext⟩ := Option.ite_none_right_eq_some.mp ht
  cases ev with
  | create e key period =>
    obtain rfl := Option.some.inj hnext
    simp only [allows, Bool.and_eq_true, decide_eq_true_eq] at hallows
    exact h.create hallows.1 hallows.2 key period
  | addRef e =>
    obtain rfl := Option.some.inj hnext
    simp only [allows, Bool.or_eq_true, Bool.and_eq_true, decide_eq_true_eq] at hallows
    apply h.addRef
    rcases hallows with href | hnew
    · exact h.live_of_reference href
    · exact h.live_of_isNew hnew.1 hnew.2
  | insert alloc e =>
    obtain rfl := Option.some.inj hnext
    simp only [allows, Bool.and_eq_true, decide_eq_true_eq, Bool.not_eq_true'] at hallows
    exact h.insert hallows.1 hallows.2 alloc
  | find key =>
    obtain rfl := Option.some.inj hnext
    exact h.find key
  | release alloc e ticks =>
    obtain rfl := Option.some.inj hnext
    simp only [allows, decide_eq_true_eq] at hallows
    refine h.release hallows (fun hone hdecays => ?_) (fun hone hdecays => ?_)
    · have hcond := hmeets hone
      rwa [if_pos hdecays] at hcond
    · have hcond := hmeets hone
      rwa [hdecays, if_neg Bool.false_ne_true] at hcond
  | strobe ticks a_NextStrobeDelta =>
    obtain rfl := Option.some.inj hnext
    exact h.strobe ticks a_NextStrobeDelta
  | shutdownKey key =>
    obtain rfl := Option.some.inj hnext
    exact h.shutdownKey key
  | shutdown alloc => exact h.shutdown hnext
  | internalRelease e =>
    obtain rfl := Option.some.inj hnext
    simp only [allows, decide_eq_true_eq] at hallows
    exact h.internalRelease hallows hmeets
  | nonCyclicRelease e =>
    obtain rfl := Option.some.inj hnext
    simp only [allows, decide_eq_true_eq] at hallows
    exact h.nonCyclicRelease hallows

/-- If every element is still found afterwards, the last count went while none was lost. -/
theorem Owned.keyFree (ho : Owned t) (h : Inv s)
    (hcache : (s.element e).m_Cached = true →
      t.m_Cache = AList.erase (s.element e).m_Key s.m_Cache)
    (hview : ∀ x, x ≠ e → t.view x = s.view x) : KeyFree s e := by
  intro hcached x hx
  by_contra hor
  obtain ⟨hxe, hdecayed⟩ := not_or.mp hor
  have hdecayed := Bool.eq_false_iff.mpr hdecayed
  have hkey := h.keys _ x hx
  have hfound : s.found x := by
    unfold found
    rw [hkey]
    exact hx
  have hins : s.inserted x = true := (h.ok x).touched (Or.inl ((h.ok x).cached hfound))
  have hxview := hview x hxe
  simp only [view, Prod.mk.injEq] at hxview
  obtain ⟨helement, -, -, -, htins⟩ := hxview
  have hlost := ho.kept x (by rw [htins, hins]) (by rw [helement, hdecayed])
  unfold found at hlost
  rw [helement, hkey, hcache hcached, Cache.find_erase] at hlost
  contradiction

theorem view_unLockedInternalRelease {x : ElementPtr} (hx : x ≠ e) :
    (s.unLockedInternalRelease e).view x = s.view x := by
  unfold unLockedInternalRelease
  dsimp only
  split_ifs
  · simp [view, WmiCacheController.modify, hx]
  · simp [view, WmiCacheController.modify, hx]
  · exact view_modify hx

theorem cache_unLockedInternalRelease (hint : (s.element e).m_InternalReferenceCount = 1)
    (hcached : (s.element e).m_Cached = true) :
    (s.unLockedInternalRelease e).m_Cache = AList.erase (s.element e).m_Key s.m_Cache := by
  unfold unLockedInternalRelease
  dsimp only
  rw [if_pos hint]
  exact if_pos hcached

/-- What dropping the last count tells: nothing is left of the element in the queue. -/
theorem Owned.not_queued (ho : Owned (s.unLockedInternalRelease e))
    (hint : (s.element e).m_InternalReferenceCount = 1) : ¬s.queued e := by
  have hpending : 0 < (s.unLockedInternalRelease e).pendingFree e := by
    unfold unLockedInternalRelease
    simp [hint]
  have hgone := (ho.destroyed e (Nat.add_pos_right _ hpending)).2.2.1
  unfold unLockedInternalRelease at hgone
  rwa [if_pos hint] at hgone

theorem Owned.free (ho : Owned (s.unLockedInternalRelease e)) {r : WmiCacheController Key}
    (h : Inv r) (hint : (s.element e).m_InternalReferenceCount = 1)
    (hcached : (s.element e).m_Cached = (r.element e).m_Cached)
    (hkey : (s.element e).m_Key = (r.element e).m_Key) (hcache : s.m_Cache = r.m_Cache)
    (hqueue : s.m_CacheDecay = r.m_CacheDecay) (hview : ∀ x, x ≠ e → s.view x = r.view x) :
    Free r e := by
  constructor
  · apply ho.keyFree h
    · intro hrcached
      rw [cache_unLockedInternalRelease hint (hcached.trans hrcached), hkey, hcache]
    · intro x hx
      rw [view_unLockedInternalRelease hx, hview x hx]
  · have hgone := ho.not_queued hint
    unfold queued at hgone ⊢
    rwa [hqueue] at hgone

/-- An element that is not queued loses both its counts. -/
theorem not_owned_of_not_enqueued (h : Inv s) {alloc : Bool} {ticks : UInt32}
    (hone : (s.element e).m_ReferenceCount = 1) (hdecays : s.decays e = true)
    (hnone : (s.m_CacheDecay.unqueue e).enqueue alloc (s.decayNode e ticks) = none) :
    ¬Owned (s.release alloc e ticks) := by
  intro ho
  obtain ⟨hcached, hdecayed, hfound⟩ := h.of_decays hdecays
  have htwo := h.count_of_decays hone hdecays
  have hins : s.inserted e = true := (h.ok e).touched (Or.inl hcached)
  rw [release_of_none hone hdecays hfound hnone] at ho
  have hlost := ho.kept e
  unfold found at hlost
  simp [unLockedInternalRelease, WmiCacheController.modify, dropReference, htwo, hins, hcached,
    hdecayed, Cache.find_erase] at hlost

/-- The step has to meet the condition if it loses no element. -/
theorem Owned.meets {ev : CacheEvent Key} (ho : Owned t) (h : Inv s)
    (ht : s.step ev = some t) : Meets s ev := by
  obtain ⟨-, hnext⟩ := Option.ite_none_right_eq_some.mp ht
  cases ev with
  | release alloc e ticks =>
    intro hone
    obtain rfl := Option.some.inj hnext
    cases hdecays : s.decays e with
    | true =>
      rw [if_pos rfl]
      cases hqueue : (s.m_CacheDecay.unqueue e).enqueue alloc (s.decayNode e ticks) with
      | none => exact absurd ho (not_owned_of_not_enqueued h hone hdecays hqueue)
      | some queue =>
        obtain ⟨-, -, hfound⟩ := h.of_decays hdecays
        refine ⟨?_, by rw [hqueue]; rfl⟩
        have hnodup := ho.nodup
        rw [release_of_some hone hdecays hfound hqueue] at hnodup
        have hqueue' : queue.elements.Nodup := by
          unfold unLockedInternalRelease at hnodup
          dsimp only at hnodup
          split_ifs at hnodup <;> exact hnodup
        rw [(CacheDecay.enqueue_perm hqueue).nodup_iff, List.nodup_cons] at hqueue'
        exact hqueue'.1
    | false =>
      rw [if_neg Bool.false_ne_true]
      intro hint
      rw [release_of_not hone (Or.inl hdecays)] at ho
      refine ho.free h ?_ ?_ ?_ rfl rfl fun x hx => view_modify hx
      · rw [element_modify]
        exact hint
      · rw [element_modify]
        rfl
      · rw [element_modify]
        rfl
  | internalRelease e =>
    intro hint
    obtain rfl := Option.some.inj hnext
    unfold WmiCacheController.internalRelease at ho
    refine ho.free h hint rfl rfl rfl rfl fun x hx => ?_
    simp [view, hx]
  | _ => trivial

/-! ### Runs -/

/-- The second element goes with the first, which has expired and been shut down. -/
def staleRun : List (CacheEvent ℕ) :=
  [.create 1 7 5, .addRef 1, .insert true 1, .release true 1 0, .strobe 10 5000, .shutdownKey 7,
    .create 2 7 5, .addRef 2, .insert true 2, .internalRelease 1]

theorem staleRun_possible : (runEvents step (start 0) staleRun).isSome = true := by
  decide +kernel

end WmiCacheController

end NtAdmin.Wmi.Containers
