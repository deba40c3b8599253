import Mathlib.Algebra.GroupWithZero.Nat
import Mathlib.Data.List.Nodup
import Mathlib.Data.Prod.Lex
import Mathlib.Logic.Function.Basic
import NtAdmin.Lib.Runs
import NtAdmin.Wmi.Containers.CacheSpec

/-! When the cache of cache.cpp lets elements expire. -/
namespace NtAdmin.Wmi.Containers.CacheTicks
open Lib

variable {Key : Type} [DecidableEq Key]

/-- The cache at a time. `now` is the time in milliseconds that the tick count is cut from, and `due`
when the period of an element has passed since it started to decay last. `decays` counts the calls of
`Decay` that queue, and `decayNumber` is the number of the one that an element is queued by. -/
structure Timeline (Key : Type) where
  controller : WmiCacheController Key
  now : ℕ
  due : ElementPtr → ℕ
  decays : ℕ
  decayNumber : ElementPtr → ℕ

namespace Timeline
variable (t : Timeline Key)

def getTickCount : UInt32 := UInt32.ofNat t.now

/-- `Release` of an element comes to the queue. -/
def startsDecay (e : ElementPtr) : Bool :=
  (t.controller.element e).m_ReferenceCount = 1 && t.controller.decays e &&
    (t.controller.m_Cache.find (t.controller.element e).m_Key).isSome

/-- When the element is due if it is released now. -/
def nextDue (e : ElementPtr) : ℕ := t.now + (t.controller.element e).m_Period.toNat

def stamp : CacheEvent Key → Timeline Key
  | .release _ e _ =>
    if t.startsDecay e then
      { t with
        due := Function.update t.due e (t.nextDue e)
        decays := t.decays + 1
        decayNumber := Function.update t.decayNumber e (t.decays + 1) }
    else t
  | _ => t

end Timeline

/-- The tick count that a step has read. -/
def ticks? : CacheEvent Key → Option UInt32
  | .release _ _ ticks => some ticks
  | .strobe ticks _ => some ticks
  | _ => none

/-- What the threads do under the lock, in any order, while time passes. -/
inductive Event (Key : Type)
  | wait (ms : ℕ)
  | call (event : CacheEvent Key)

def step (t : Timeline Key) : Event Key → Option (Timeline Key)
  | .wait ms => some { t with now := t.now + ms }
  | .call event =>
    if (ticks? event).all (· = t.getTickCount) then
      (t.controller.next event).map fun controller => { t.stamp event with controller := controller }
    else none

/-- A cache before its first element, at any tick count. -/
def start (now : ℕ) (key : Key) : Timeline Key where
  controller := WmiCacheController.start key
  now := now
  due _ := 0
  decays := 0
  decayNumber _ := 0

/-- The element `e` is taken from the queue, and is due before all others in it. -/
def TakesFirst (t : Timeline Key) (queue : CacheDecay) (e : ElementPtr) : Prop :=
  queue.toList.length < t.controller.m_CacheDecay.toList.length ∧
    ∀ node ∈ t.controller.m_CacheDecay.toList, t.due e ≤ t.due node.2

/-- Elements are taken from the queue as they are due, expire no sooner than that, and when a call
returns nothing that was due is left. -/
def ExpiresInTime (t : Timeline Key) : Event Key → Prop
  | .call (.strobe ticks a_NextStrobeDelta) =>
    match t.controller.strobe ticks a_NextStrobeDelta with
    | (.expired e, _, controller) => t.due e ≤ t.now ∧ TakesFirst t controller.m_CacheDecay e
    | (.dropped e, _, controller) => TakesFirst t controller.m_CacheDecay e
    | (.done, _, _) => ∀ e, (t.controller.element e).m_Decaying = true → t.now < t.due e
  | _ => True

/-- Two nodes whose signed difference shows which is due before the other. -/
def Comparable (due number due' number' : ℕ) : Prop :=
  due < due' + 2 ^ 31 ∧ due' < due + 2 ^ 31 ∧
    (due = due' → number < number' + 2 ^ 31 ∧ number' < number + 2 ^ 31)

/-- A due time that the tick counts tell from now. -/
def TicksTell (now due : ℕ) : Prop :=
  due / 2 ^ 32 = now / 2 ^ 32 ∨ due / 2 ^ 32 < now / 2 ^ 32 ∧ due % 2 ^ 32 ≤ now % 2 ^ 32

/-- No wrap of the tick count shows: not where an element is queued, nor where the first one is
tried. -/
def NoWrapShows (t : Timeline Key) : Event Key → Prop
  | .call (.release _ e _) => t.startsDecay e = true →
      ∀ node ∈ (t.controller.m_CacheDecay.unqueue e).toList,
        Comparable (t.nextDue e) (t.decays + 1) (t.due node.2) (t.decayNumber node.2)
  | .call (.strobe _ _) =>
      ∀ node ∈ t.controller.m_CacheDecay.toList.head?, TicksTell t.now (t.due node.2)
  | _ => True

/-- The cache finds the element that is released under its key, and `Shutdown` of all keys every one
that decays. -/
def FindsElements (t : Timeline Key) : Event Key → Prop
  | .call (.release _ e _) => t.startsDecay e = true → t.controller.found e
  | .call (.shutdown alloc) => ∀ e, (t.controller.element e).m_Decaying = true →
      alloc = true ∧ ∃ key, t.controller.m_Cache.find key = some e
  | _ => True

def Meets (t : Timeline Key) (event : Event Key) : Prop := NoWrapShows t event ∧ FindsElements t event

/-! ### The queue -/

theorem sub_toNat {x y : ℕ} (hxy : x < y + 2 ^ 31) (hyx : y < x + 2 ^ 31) :
    (UInt32.ofNat x - UInt32.ofNat y = 0 ↔ x = y) ∧
      (0x80000000 ≤ (UInt32.ofNat x - UInt32.ofNat y).toNat ↔ x < y) := by
  have hsub : (UInt32.ofNat x - UInt32.ofNat y).toNat =
      (2 ^ 32 - y % 2 ^ 32 + x % 2 ^ 32) % 2 ^ 32 := by
    rw [UInt32.toNat_sub, UInt32.toNat_ofNat', UInt32.toNat_ofNat']
  constructor
  · rw [← UInt32.toNat_inj, hsub, UInt32.toNat_zero]
    omega
  · rw [hsub]
    omega

/-- What the order of the nodes is meant to be. -/
def rank (due number : ElementPtr → ℕ) (node : DecayNode) : ℕ ×ₗ ℕ :=
  toLex (due node.2, number node.2)

theorem compare_of {a b : DecayNode} {due number due' number' : ℕ}
    (ha : a.1 = ⟨UInt32.ofNat due, UInt32.ofNat number⟩)
    (hb : b.1 = ⟨UInt32.ofNat due', UInt32.ofNat number'⟩)
    (h : Comparable due number due' number') :
    compareElement a b = compare (toLex (due, number)) (toLex (due', number')) := by
  obtain ⟨hlt, hgt, hnumber⟩ := h
  obtain ⟨heq, hless⟩ := sub_toNat hlt hgt
  rw [compareElement, WmiUniqueTimeout.eq, WmiUniqueTimeout.lt, WmiUniqueTimeout.difference, ha, hb]
  rcases lt_trichotomy due due' with hd | rfl | hd
  · have hcompare : compare (toLex (due, number)) (toLex (due', number')) = .lt :=
      compare_lt_iff_lt.mpr (Prod.Lex.toLex_lt_toLex.mpr (Or.inl hd))
    have hne : UInt32.ofNat due - UInt32.ofNat due' ≠ 0 := fun h0 => hd.ne (heq.mp h0)
    simp only [hcompare, hne, if_false, decide_false, hless.mpr hd, decide_true, if_true,
      Bool.false_eq_true]
  · obtain ⟨heq', hless'⟩ := sub_toNat (hnumber rfl).1 (hnumber rfl).2
    simp only [heq.mpr rfl, if_true]
    rcases lt_trichotomy number number' with hn | rfl | hn
    · have hcompare : compare (toLex (due, number)) (toLex (due, number')) = .lt :=
        compare_lt_iff_lt.mpr (Prod.Lex.toLex_lt_toLex.mpr (Or.inr ⟨rfl, hn⟩))
      have hne : UInt32.ofNat number - UInt32.ofNat number' ≠ 0 := fun h0 => hn.ne (heq'.mp h0)
      simp only [hcompare, hne, decide_false, if_false, hless'.mpr hn, decide_true, if_true,
        Bool.false_eq_true]
    · simp only [heq'.mpr rfl, decide_true, if_true, compare_eq_iff_eq.mpr rfl]
    · have hcompare : compare (toLex (due, number)) (toLex (due, number')) = .gt :=
        compare_gt_iff_gt.mpr (Prod.Lex.toLex_lt_toLex.mpr (Or.inr ⟨rfl, hn⟩))
      have hne : UInt32.ofNat number - UInt32.ofNat number' ≠ 0 := fun h0 => hn.ne' (heq'.mp h0)
      have hge : ¬ 0x80000000 ≤ (UInt32.ofNat number - UInt32.ofNat number').toNat :=
        fun hle => absurd (hless'.mp hle) hn.not_gt
      simp only [hcompare, hne, decide_false, if_false, hge, Bool.false_eq_true]
  · have hcompare : compare (toLex (due, number)) (toLex (due', number')) = .gt :=
      compare_gt_iff_gt.mpr (Prod.Lex.toLex_lt_toLex.mpr (Or.inl hd))
    have hne : UInt32.ofNat due - UInt32.ofNat due' ≠ 0 := fun h0 => hd.ne' (heq.mp h0)
    have hge : ¬ 0x80000000 ≤ (UInt32.ofNat due - UInt32.ofNat due').toNat :=
      fun hle => absurd (hless.mp hle) hd.not_gt
    simp only [hcompare, hne, if_false, decide_false, hge, Bool.false_eq_true]

/-- The nodes of the queue carry the low bits of their true times, and are ordered by these. -/
structure Timed (due number : ElementPtr → ℕ) (nodes : List DecayNode) : Prop where
  key : ∀ node ∈ nodes,
    node.1 = ⟨UInt32.ofNat (due node.2), UInt32.ofNat (number node.2)⟩
  sorted : nodes.Pairwise fun a b => rank due number a < rank due number b
  comparable : ∀ a ∈ nodes, ∀ b ∈ nodes,
    Comparable (due a.2) (number a.2) (due b.2) (number b.2)

namespace Timed
variable {due number due' number' : ElementPtr → ℕ} {nodes nodes' : List DecayNode}

theorem sublist (h : Timed due number nodes) (hsub : nodes'.Sublist nodes) :
    Timed due number nodes' where
  key node hnode := h.key node (hsub.subset hnode)
  sorted := h.sorted.sublist hsub
  comparable a ha b hb := h.comparable a (hsub.subset ha) b (hsub.subset hb)

theorem congr (h : Timed due number nodes) (hdue : ∀ node ∈ nodes, due' node.2 = due node.2)
    (hnumber : ∀ node ∈ nodes, number' node.2 = number node.2) :
    Timed due' number' nodes where
  key node hnode := by rw [hdue node hnode, hnumber node hnode]; exact h.key node hnode
  sorted := by
    refine h.sorted.imp_of_mem fun {a b} ha hb hab => ?_
    rw [rank, rank, hdue a ha, hnumber a ha, hdue b hb, hnumber b hb]
    exact hab
  comparable a ha b hb := by
    rw [hdue a ha, hnumber a ha, hdue b hb, hnumber b hb]
    exact h.comparable a ha b hb

theorem cmp (h : Timed due number nodes) {a b : DecayNode} (ha : a ∈ nodes) (hb : b ∈ nodes) :
    compareElement a b = compare (rank due number a) (rank due number b) :=
  compare_of (h.key a ha) (h.key b hb) (h.comparable a ha b hb)

theorem eq_of_rank (h : Timed due number nodes) {a b : DecayNode} (ha : a ∈ nodes)
    (hb : b ∈ nodes) (heq : rank due number a = rank due number b) : a = b := by
  have hnodup : (nodes.map (rank due number)).Nodup :=
    List.pairwise_map.mpr (h.sorted.imp fun hab => hab.ne)
  exact List.inj_on_of_nodup_map hnodup ha hb heq

/-- An element is queued once at most. -/
theorem eq_of_element (h : Timed due number nodes) {a b : DecayNode} (ha : a ∈ nodes)
    (hb : b ∈ nodes) (heq : a.2 = b.2) : a = b :=
  h.eq_of_rank ha hb (by rw [rank, rank, heq])

/-- Deleting the key of a node deletes the node. -/
theorem delete {queue : CacheDecay} (h : Timed due number queue.toList) {node : DecayNode}
    (hnode : node ∈ queue.toList) :
    (queue.delete node).toList.Sublist queue.toList ∧
      (∀ a ∈ queue.toList, a ≠ node → a ∈ (queue.delete node).toList) ∧
      node ∉ (queue.delete node).toList := by
  have hcmp : ∀ y ∈ queue.toList,
      compareElement node y = compare (rank due number node) (rank due number y) :=
    fun y hy => h.cmp hnode hy
  obtain ⟨queue', hqueue'⟩ := SearchTree.erase_isSome hnode hcmp h.sorted
  obtain ⟨u, y, v, hu, hv, heq⟩ := SearchTree.toList_erase hqueue'
  have hy : y ∈ queue.toList := by rw [hu]; simp
  have hnodey : node = y := by
    rw [hcmp y hy] at heq
    exact h.eq_of_rank hnode hy (compare_eq_iff_eq.mp heq)
  subst hnodey
  have hnodup : queue.toList.Nodup := h.sorted.imp fun {a b} hab heq => hab.ne (by rw [heq])
  rw [hu] at hnodup
  rw [CacheDecay.delete, hqueue', Option.getD_some, hv, hu]
  constructor
  · exact List.Sublist.append_left (List.sublist_cons_self node v) u
  constructor
  · intro a ha hne
    simpa [hne] using ha
  · have hperm : (node :: (u ++ v)).Nodup := List.perm_middle.nodup_iff.mp hnodup
    exact (List.nodup_cons.mp hperm).1

end Timed

theorem unqueue_spec {queue : CacheDecay} {due number : ElementPtr → ℕ}
    (h : Timed due number queue.toList) (e : ElementPtr) :
    (queue.unqueue e).toList.Sublist queue.toList ∧
      (∀ node ∈ queue.toList, node.2 ≠ e → node ∈ (queue.unqueue e).toList) ∧
      ∀ node ∈ (queue.unqueue e).toList, node.2 ≠ e := by
  unfold CacheDecay.unqueue
  cases hfind : queue.toList.find? (·.2 = e) with
  | none =>
    have hnone : ∀ node ∈ queue.toList, node.2 ≠ e := by
      simpa using List.find?_eq_none.mp hfind
    exact ⟨List.Sublist.refl _, fun node hnode _ => hnode, hnone⟩
  | some found =>
    have hmem := List.mem_of_find?_eq_some hfind
    have helement : found.2 = e := by simpa using List.find?_some hfind
    obtain ⟨hsub, hkept, hgone⟩ := h.delete hmem
    refine ⟨hsub, fun node hnode hne => hkept node hnode ?_, fun node hnode heq => hgone ?_⟩
    · rintro rfl
      exact hne helement
    · have hfound : node = found :=
        h.eq_of_element (hsub.subset hnode) hmem (heq.trans helement.symm)
      rw [hfound] at hnode
      exact hnode

/-- Queueing an element that is not in the queue. -/
theorem insert_spec {t t' : CacheDecay} {due number : ElementPtr → ℕ} {e : ElementPtr}
    (t_Key : WmiUniqueTimeout) (h : Timed due number t.toList)
    (hkey : t_Key = ⟨UInt32.ofNat (due e), UInt32.ofNat (number e)⟩)
    (hcomparable : ∀ node ∈ t.toList,
      Comparable (due e) (number e) (due node.2) (number node.2))
    (ht' : t.insert compareElement (t_Key, e) = some t') :
    Timed due number t'.toList ∧ ∀ node, node ∈ t'.toList ↔ node = (t_Key, e) ∨ node ∈ t.toList := by
  have hcmp : ∀ y ∈ t.toList, compareElement (t_Key, e) y =
      compare (rank due number (t_Key, e)) (rank due number y) :=
    fun y hy => compare_of hkey (h.key y hy) (hcomparable y hy)
  obtain ⟨u, v, hu, hv, hbelow, habove⟩ := SearchTree.toList_insert ht' hcmp h.sorted
  have hmem : ∀ node, node ∈ t'.toList ↔ node = (t_Key, e) ∨ node ∈ t.toList := by
    intro node
    rw [hv, hu]
    simp only [List.mem_append, List.mem_cons]
    tauto
  have hself : Comparable (due e) (number e) (due e) (number e) := by
    unfold Comparable
    omega
  constructor
  · constructor
    · intro node hnode
      rcases (hmem node).mp hnode with rfl | hnode
      · exact hkey
      · exact h.key node hnode
    · have hsorted := h.sorted
      rw [hu, List.pairwise_append] at hsorted
      rw [hv, List.pairwise_append, List.pairwise_cons]
      refine ⟨hsorted.1, ⟨habove, hsorted.2.1⟩, fun a ha b hb => ?_⟩
      rcases List.mem_cons.mp hb with rfl | hb
      · exact hbelow a ha
      · exact hsorted.2.2 a ha b hb
    · intro a ha b hb
      rcases (hmem a).mp ha with rfl | ha <;> rcases (hmem b).mp hb with rfl | hb
      · exact hself
      · exact hcomparable b hb
      · obtain ⟨h1, h2, h3⟩ := hcomparable a ha
        exact ⟨h2, h1, fun heq => (h3 heq.symm).symm⟩
      · exact h.comparable a ha b hb
  · exact hmem

/-! ### Runs -/

/-- The decaying elements are in the queue, and the queue goes by their true times. -/
structure Queued (t : Timeline Key) : Prop where
  timed : Timed t.due t.decayNumber t.controller.m_CacheDecay.toList
  counter : t.controller.m_Counter = UInt32.ofNat t.decays
  live : ∀ e, (t.controller.element e).m_Decaying = true → (t.controller.element e).m_Decayed = false
  decaying : ∀ e, (t.controller.element e).m_Decaying = true →
    ∃ node ∈ t.controller.m_CacheDecay.toList, node.2 = e

/-- No element starts to decay, and those that do have not expired. -/
def Quiet (s s' : WmiCacheController Key) : Prop :=
  ∀ e, (s'.element e).m_Decaying = true →
    (s.element e).m_Decaying = true ∧ (s'.element e).m_Decayed = (s.element e).m_Decayed

omit [DecidableEq Key] in
theorem Quiet.trans {s s' s'' : WmiCacheController Key} (h : Quiet s s') (h' : Quiet s' s'') :
    Quiet s s'' := by
  intro e he
  obtain ⟨hdecaying', hdecayed'⟩ := h' e he
  obtain ⟨hdecaying, hdecayed⟩ := h e hdecaying'
  exact ⟨hdecaying, hdecayed'.trans hdecayed⟩

omit [DecidableEq Key] in
theorem quiet_of_element {s s' : WmiCacheController Key} {e : ElementPtr} {x : WmiCacheElement Key}
    (helement : s'.element = Function.update s.element e x)
    (hx : x.m_Decaying = true → (s.element e).m_Decaying = true ∧
      x.m_Decayed = (s.element e).m_Decayed) : Quiet s s' := by
  intro y hy
  rw [helement] at hy ⊢
  by_cases hye : y = e
  · rw [hye, Function.update_self] at hy ⊢
    exact hx hy
  · rw [Function.update_of_ne hye] at hy ⊢
    exact ⟨hy, rfl⟩

theorem quiet_unLockedInternalRelease (s : WmiCacheController Key) (e : ElementPtr) :
    Quiet s (s.unLockedInternalRelease e) := by
  unfold WmiCacheController.unLockedInternalRelease
  dsimp only
  split
  · exact quiet_of_element rfl fun hx => ⟨hx, rfl⟩
  · exact quiet_of_element rfl fun hx => ⟨hx, rfl⟩

theorem queue_unLockedInternalRelease (s : WmiCacheController Key) (e : ElementPtr) :
    (s.unLockedInternalRelease e).m_CacheDecay = s.m_CacheDecay ∧
      (s.unLockedInternalRelease e).m_Counter = s.m_Counter := by
  unfold WmiCacheController.unLockedInternalRelease
  dsimp only
  split <;> exact ⟨rfl, rfl⟩

variable {t : Timeline Key}

omit [DecidableEq Key] in
/-- A step that leaves the queue as it is. -/
theorem Queued.keep (h : Queued t) {controller : WmiCacheController Key}
    (hqueue : controller.m_CacheDecay = t.controller.m_CacheDecay)
    (hcounter : controller.m_Counter = t.controller.m_Counter)
    (hquiet : Quiet t.controller controller) : Queued { t with controller := controller } where
  timed := by rw [hqueue]; exact h.timed
  counter := hcounter.trans h.counter
  live e he := (hquiet e he).2.trans (h.live e (hquiet e he).1)
  decaying e he := by rw [hqueue]; exact h.decaying e (hquiet e he).1

omit [DecidableEq Key] in
/-- Taking an element out of the queue that does not decay any longer. -/
theorem Queued.dequeue (h : Queued t) {controller : WmiCacheController Key} {e : ElementPtr}
    (hsub : controller.m_CacheDecay.toList.Sublist t.controller.m_CacheDecay.toList)
    (hkept : ∀ node ∈ t.controller.m_CacheDecay.toList, node.2 ≠ e →
      node ∈ controller.m_CacheDecay.toList)
    (hcounter : controller.m_Counter = t.controller.m_Counter)
    (hquiet : Quiet t.controller controller) (he : (controller.element e).m_Decaying = false) :
    Queued { t with controller := controller } where
  timed := h.timed.sublist hsub
  counter := hcounter.trans h.counter
  live e' he' := (hquiet e' he').2.trans (h.live e' (hquiet e' he').1)
  decaying e' he' := by
    obtain ⟨node, hnode, rfl⟩ := h.decaying e' (hquiet e' he').1
    refine ⟨node, hkept node hnode ?_, rfl⟩
    intro heq
    rw [← heq, he'] at he
    cases he

theorem ofNat_le_ofNat {now due : ℕ} (h : TicksTell now due) :
    UInt32.ofNat due ≤ UInt32.ofNat now ↔ due ≤ now := by
  unfold TicksTell at h
  rw [UInt32.le_iff_toNat_le, UInt32.toNat_ofNat', UInt32.toNat_ofNat']
  omega

theorem Timed.first_le {due number : ElementPtr → ℕ} {first : DecayNode} {nodes : List DecayNode}
    (h : Timed due number (first :: nodes)) : ∀ node ∈ first :: nodes, due first.2 ≤ due node.2 := by
  intro node hnode
  rcases List.mem_cons.mp hnode with rfl | hnode
  · exact le_refl _
  · have hlt := (List.pairwise_cons.mp h.sorted).1 node hnode
    rcases Prod.Lex.toLex_lt_toLex.mp hlt with hlt | ⟨heq, -⟩
    · exact hlt.le
    · exact heq.le

omit [DecidableEq Key] in
/-- The state of the queue while the element goes to its new place. -/
theorem Queued.stamp (h : Queued t) {e : ElementPtr} {queue : CacheDecay}
    (hqueue : Timed (Function.update t.due e (t.nextDue e))
      (Function.update t.decayNumber e (t.decays + 1)) queue.toList)
    (hkept : ∀ node ∈ t.controller.m_CacheDecay.toList, node.2 ≠ e → node ∈ queue.toList)
    {controller : WmiCacheController Key} (hcontroller : controller.m_CacheDecay = queue)
    (hcounter : controller.m_Counter = t.controller.m_Counter + 1)
    (hother : ∀ x, x ≠ e → (controller.element x).m_Decaying = true →
      (t.controller.element x).m_Decaying = true ∧
        (controller.element x).m_Decayed = (t.controller.element x).m_Decayed)
    (hself : (controller.element e).m_Decaying = true →
      (controller.element e).m_Decayed = false ∧ ∃ node ∈ queue.toList, node.2 = e) :
    Queued { t with
      controller := controller
      due := Function.update t.due e (t.nextDue e)
      decays := t.decays + 1
      decayNumber := Function.update t.decayNumber e (t.decays + 1) } where
  timed := by
    dsimp only
    rw [hcontroller]
    exact hqueue
  counter := by
    dsimp only
    rw [hcounter, h.counter, UInt32.ofNat_add]
    rfl
  live x hx := by
    by_cases hxe : x = e
    · subst hxe
      exact (hself hx).1
    · obtain ⟨hdecaying, hdecayed⟩ := hother x hxe hx
      exact hdecayed.trans (h.live x hdecaying)
  decaying x hx := by
    dsimp only
    rw [hcontroller]
    by_cases hxe : x = e
    · subst hxe
      exact (hself hx).2
    · obtain ⟨node, hnode, rfl⟩ := h.decaying x (hother x hxe hx).1
      exact ⟨node, hkept node hnode hxe, rfl⟩

omit [DecidableEq Key] in
/-- The queue without the element that is about to be queued anew. -/
theorem Queued.unqueued (h : Queued t) (e : ElementPtr) :
    Timed (Function.update t.due e (t.nextDue e)) (Function.update t.decayNumber e (t.decays + 1))
        (t.controller.m_CacheDecay.unqueue e).toList ∧
      ∀ node ∈ t.controller.m_CacheDecay.toList, node.2 ≠ e →
        node ∈ (t.controller.m_CacheDecay.unqueue e).toList := by
  obtain ⟨hsub, hkept, hgone⟩ := unqueue_spec h.timed e
  refine ⟨(h.timed.sublist hsub).congr (fun node hnode => ?_) fun node hnode => ?_, hkept⟩
  · exact Function.update_of_ne (hgone node hnode) _ _
  · exact Function.update_of_ne (hgone node hnode) _ _

omit [DecidableEq Key] in
theorem Queued.enqueued (h : Queued t) {alloc : Bool} {e : ElementPtr} {queue : CacheDecay}
    (hcomparable : ∀ node ∈ (t.controller.m_CacheDecay.unqueue e).toList,
      Comparable (t.nextDue e) (t.decays + 1) (t.due node.2) (t.decayNumber node.2))
    (hqueue : (t.controller.m_CacheDecay.unqueue e).enqueue alloc
      (t.controller.decayNode e t.getTickCount) = some queue) :
    Timed (Function.update t.due e (t.nextDue e)) (Function.update t.decayNumber e (t.decays + 1))
        queue.toList ∧
      (∀ node ∈ t.controller.m_CacheDecay.toList, node.2 ≠ e → node ∈ queue.toList) ∧
      ∃ node ∈ queue.toList, node.2 = e := by
  obtain ⟨-, -, hgone⟩ := unqueue_spec h.timed e
  obtain ⟨htimed, hkept⟩ := h.unqueued e
  have hinsert : (t.controller.m_CacheDecay.unqueue e).insert compareElement
      (t.controller.decayNode e t.getTickCount) = some queue := by
    cases alloc with
    | true => exact hqueue
    | false => cases hqueue
  have hkey : (t.controller.decayNode e t.getTickCount).1 =
      ⟨UInt32.ofNat (Function.update t.due e (t.nextDue e) e),
        UInt32.ofNat (Function.update t.decayNumber e (t.decays + 1) e)⟩ := by
    rw [Function.update_self, Function.update_self, Timeline.nextDue,
      WmiCacheController.decayNode, h.counter, UInt32.ofNat_add, UInt32.ofNat_toNat,
      Timeline.getTickCount, UInt32.ofNat_add]
    rfl
  have hfits : ∀ node ∈ (t.controller.m_CacheDecay.unqueue e).toList,
      Comparable (Function.update t.due e (t.nextDue e) e)
        (Function.update t.decayNumber e (t.decays + 1) e)
        (Function.update t.due e (t.nextDue e) node.2)
        (Function.update t.decayNumber e (t.decays + 1) node.2) := fun node hnode => by
    rw [Function.update_self, Function.update_self, Function.update_of_ne (hgone node hnode),
      Function.update_of_ne (hgone node hnode)]
    exact hcomparable node hnode
  obtain ⟨hnewTimed, hmem⟩ := insert_spec (t.controller.decayNode e t.getTickCount).1 htimed hkey
    hfits hinsert
  exact ⟨hnewTimed, fun node hnode hne => (hmem node).mpr (Or.inr (hkept node hnode hne)),
    _, (hmem _).mpr (Or.inl rfl), rfl⟩

/-- The state after the release of a last reference with which the element starts to decay. -/
def Timeline.released (t : Timeline Key) (alloc : Bool) (e : ElementPtr) : Timeline Key :=
  { t with
    controller := t.controller.release alloc e t.getTickCount
    due := Function.update t.due e (t.nextDue e)
    decays := t.decays + 1
    decayNumber := Function.update t.decayNumber e (t.decays + 1) }

omit [DecidableEq Key] in
theorem quiet_dropReference (s : WmiCacheController Key) (e : ElementPtr) :
    Quiet s (s.modify e WmiCacheController.dropReference) :=
  quiet_of_element rfl fun hx => ⟨hx, rfl⟩

omit [DecidableEq Key] in
theorem decayed_dropReference (s : WmiCacheController Key) (e : ElementPtr) :
    ((s.modify e WmiCacheController.dropReference).element e).m_Decayed =
      (s.element e).m_Decayed :=
  (congrArg WmiCacheElement.m_Decayed (WmiCacheController.element_modify _)).trans rfl

section LastReference
variable {alloc : Bool} {e : ElementPtr} (hone : (t.controller.element e).m_ReferenceCount = 1)
  (hdecays : t.controller.decays e = true) (hfound : t.controller.found e)
include hone hdecays hfound

/-- `EnQueue` has succeeded. -/
theorem Queued.released_of_some (h : Queued t) {queue : CacheDecay}
    (hlive : (t.controller.element e).m_Decayed = false)
    (hcomparable : ∀ node ∈ (t.controller.m_CacheDecay.unqueue e).toList,
      Comparable (t.nextDue e) (t.decays + 1) (t.due node.2) (t.decayNumber node.2))
    (hqueue : (t.controller.m_CacheDecay.unqueue e).enqueue alloc
      (t.controller.decayNode e t.getTickCount) = some queue) :
    Queued (t.released alloc e) := by
  let decaying := { t.controller.modify e WmiCacheController.dropReference with
    m_CacheDecay := queue
    m_Counter := t.controller.m_Counter + 1 }.modify e fun x => { x with m_Decaying := true }
  obtain ⟨htimed, hkept, hnew⟩ := h.enqueued hcomparable hqueue
  rw [Timeline.released, WmiCacheController.release_of_some hone hdecays hfound hqueue]
  have hquiet := quiet_unLockedInternalRelease decaying e
  obtain ⟨hqueue', hcounter⟩ := queue_unLockedInternalRelease decaying e
  refine h.stamp htimed hkept hqueue' hcounter (fun x hx hdecaying => ?_) fun hdecaying => ?_
  · obtain ⟨hd, hd'⟩ := hquiet x hdecaying
    simp only [decaying, WmiCacheController.modify, Function.update_of_ne hx] at hd hd'
    exact ⟨hd, hd'⟩
  · obtain ⟨-, hd'⟩ := hquiet e hdecaying
    rw [WmiCacheController.element_modify] at hd'
    exact ⟨hd'.trans ((decayed_dropReference t.controller e).trans hlive), hnew⟩

/-- `EnQueue` has failed, and the element is released once more. -/
theorem Queued.released_of_none (h : Queued t)
    (hqueue : (t.controller.m_CacheDecay.unqueue e).enqueue alloc
      (t.controller.decayNode e t.getTickCount) = none)
    (hnot : (t.controller.element e).m_Decaying = false) : Queued (t.released alloc e) := by
  let unqueued := { t.controller.modify e WmiCacheController.dropReference with
    m_CacheDecay := t.controller.m_CacheDecay.unqueue e
    m_Counter := t.controller.m_Counter + 1 }
  obtain ⟨htimed, hkept⟩ := h.unqueued e
  rw [Timeline.released, WmiCacheController.release_of_none hone hdecays hfound hqueue]
  have hunqueued : Quiet t.controller unqueued := quiet_dropReference t.controller e
  have hquiet := (hunqueued.trans (quiet_unLockedInternalRelease unqueued e)).trans
    (quiet_unLockedInternalRelease _ e)
  obtain ⟨hqueue1, hcounter1⟩ := queue_unLockedInternalRelease unqueued e
  obtain ⟨hqueue2, hcounter2⟩ :=
    queue_unLockedInternalRelease (unqueued.unLockedInternalRelease e) e
  refine h.stamp htimed hkept (hqueue2.trans hqueue1) (hcounter2.trans hcounter1)
    (fun x _ => hquiet x) fun hdecaying => ?_
  have hbefore := (hquiet e hdecaying).1
  rw [hnot] at hbefore
  cases hbefore

end LastReference

/-- The release of a reference with which the element does not start to decay. -/
theorem Queued.release_of_not (h : Queued t) (alloc : Bool) {e : ElementPtr}
    (hstarts : ¬ t.startsDecay e = true) :
    Queued { t with controller := t.controller.release alloc e t.getTickCount } := by
  have hdrop := quiet_dropReference t.controller e
  by_cases hone : (t.controller.element e).m_ReferenceCount = 1
  · have hnot : t.controller.decays e = false ∨
        t.controller.m_Cache.find (t.controller.element e).m_Key = none := by
      simp only [Timeline.startsDecay, hone, decide_true, Bool.true_and, Bool.and_eq_true,
        not_and_or, Bool.not_eq_true, Option.isSome_eq_false_iff, Option.isNone_iff_eq_none]
        at hstarts
      exact hstarts
    rw [WmiCacheController.release_of_not hone hnot]
    obtain ⟨hqueue, hcounter⟩ :=
      queue_unLockedInternalRelease (t.controller.modify e WmiCacheController.dropReference) e
    exact h.keep hqueue hcounter (hdrop.trans (quiet_unLockedInternalRelease _ e))
  · rw [WmiCacheController.release_of_many alloc t.getTickCount hone]
    exact h.keep rfl rfl hdrop

theorem Queued.release (h : Queued t) {alloc : Bool} {e : ElementPtr}
    (hwrap : NoWrapShows t (.call (.release alloc e t.getTickCount)))
    (hfinds : FindsElements t (.call (.release alloc e t.getTickCount))) :
    Queued { t.stamp (.release alloc e t.getTickCount) with
      controller := t.controller.release alloc e t.getTickCount } := by
  by_cases hstarts : t.startsDecay e = true
  · have hfound := hfinds hstarts
    have hcomparable := hwrap hstarts
    have hstamp : t.stamp (.release alloc e t.getTickCount) =
        { t with
          due := Function.update t.due e (t.nextDue e)
          decays := t.decays + 1
          decayNumber := Function.update t.decayNumber e (t.decays + 1) } := if_pos hstarts
    rw [hstamp]
    simp only [Timeline.startsDecay, Bool.and_eq_true, decide_eq_true_eq] at hstarts
    obtain ⟨⟨hone, hdecays⟩, -⟩ := hstarts
    have hflags := hdecays
    simp only [WmiCacheController.decays, Bool.and_eq_true, Bool.not_eq_true'] at hflags
    cases hqueue : (t.controller.m_CacheDecay.unqueue e).enqueue alloc
        (t.controller.decayNode e t.getTickCount) with
    | some queue => exact h.released_of_some hone hdecays hfound hflags.1.2 hcomparable hqueue
    | none => exact h.released_of_none hone hdecays hfound hqueue hflags.2
  · have hstamp : t.stamp (.release alloc e t.getTickCount) = t := if_neg hstarts
    rw [hstamp]
    exact h.release_of_not alloc hstarts

theorem Queued.shutdownKey (h : Queued t) (key : Key) :
    Queued { t with controller := t.controller.shutdownKey key } := by
  unfold WmiCacheController.shutdownKey
  split
  · rename_i e he
    split
    · exact h.keep rfl rfl fun _ hx => ⟨hx, rfl⟩
    · obtain ⟨hsub, hkept, -⟩ := unqueue_spec h.timed e
      refine h.dequeue (e := e) hsub hkept rfl (quiet_of_element rfl fun hx => ?_) ?_
      · cases hx
      · rw [WmiCacheController.modify]
        dsimp only
        rw [Function.update_self]
        rfl
  · exact h

omit [DecidableEq Key] in
/-- No element that decays is left by the loop over the elements. -/
theorem decaying_shutdownElements {s : WmiCacheController Key} (l : List ElementPtr)
    (hlive : ∀ e, (s.element e).m_Decaying = true → (s.element e).m_Decayed = false ∧ e ∈ l)
    (e : ElementPtr) :
    ((WmiCacheController.shutdownElements l s).element e).m_Decaying = false := by
  have hview := WmiCacheController.view_shutdownElements (s := s) l e
  split_ifs at hview with he
  · simp only [WmiCacheController.view, Prod.mk.injEq] at hview
    rw [hview.1]
    rfl
  · simp only [WmiCacheController.view, Prod.mk.injEq] at hview
    rw [hview.1]
    exact Bool.eq_false_iff.mpr fun hdecaying =>
      he ⟨(hlive e hdecaying).2, (hlive e hdecaying).1⟩

omit [DecidableEq Key] in
theorem counter_shutdownElements {s : WmiCacheController Key} (l : List ElementPtr) :
    (WmiCacheController.shutdownElements l s).m_Counter = s.m_Counter := by
  induction l generalizing s with
  | nil => rfl
  | cons e l ih =>
    unfold WmiCacheController.shutdownElements
    split_ifs
    · exact ih
    · exact ih

theorem Queued.shutdown (h : Queued t) {alloc : Bool} {controller : WmiCacheController Key}
    (hfinds : FindsElements t (.call (.shutdown alloc)))
    (hnext : t.controller.shutdown alloc = some controller) :
    Queued { t with controller := controller } := by
  obtain ⟨-, hnext⟩ := Option.ite_none_right_eq_some.mp hnext
  have hempty : Timed t.due t.decayNumber [] := h.timed.sublist (List.nil_sublist _)
  cases alloc with
  | false =>
    obtain rfl := Option.some.inj hnext
    exact ⟨hempty, h.counter, h.live, fun e he => absurd (hfinds e he).1 Bool.false_ne_true⟩
  | true =>
    obtain rfl := Option.some.inj hnext
    have hgone := decaying_shutdownElements (s := { t.controller with m_CacheDecay := .leaf })
      (t.controller.m_Cache.entries.map Sigma.snd) fun e he => by
        obtain ⟨key, hkey⟩ := (hfinds e he).2
        exact ⟨h.live e he, List.mem_map.mpr ⟨⟨key, e⟩, AList.mem_lookup_iff.mp hkey, rfl⟩⟩
    have hqueue := WmiCacheController.queue_shutdownElements
      (s := { t.controller with m_CacheDecay := .leaf })
      (t.controller.m_Cache.entries.map Sigma.snd)
    constructor
    · dsimp only
      rw [hqueue]
      exact hempty
    · exact (counter_shutdownElements _).trans h.counter
    · exact fun e he => absurd he (by rw [hgone e]; exact Bool.false_ne_true)
    · exact fun e he => absurd he (by rw [hgone e]; exact Bool.false_ne_true)

theorem Queued.strobe (h : Queued t) (a_NextStrobeDelta : UInt32)
    (hwrap : NoWrapShows t (.call (.strobe t.getTickCount a_NextStrobeDelta))) :
    Queued { t with controller := (t.controller.strobe t.getTickCount a_NextStrobeDelta).2.2 } ∧
      ExpiresInTime t (.call (.strobe t.getTickCount a_NextStrobeDelta)) := by
  unfold ExpiresInTime WmiCacheController.strobe
  have htimed := h.timed
  have hwrap' : ∀ node ∈ t.controller.m_CacheDecay.toList.head?, TicksTell t.now (t.due node.2) :=
    hwrap
  cases hnodes : t.controller.m_CacheDecay.toList with
  | nil =>
    refine ⟨h, fun e he => ?_⟩
    obtain ⟨node, hnode, -⟩ := h.decaying e he
    rw [hnodes] at hnode
    exact absurd hnode List.not_mem_nil
  | cons first nodes =>
    obtain ⟨t_Key, e⟩ := first
    have hmem : (t_Key, e) ∈ t.controller.m_CacheDecay.toList := by simp [hnodes]
    have hkey := htimed.key _ hmem
    rw [hnodes] at htimed hwrap'
    have hfirst := htimed.first_le
    have htell := ofNat_le_ofNat (hwrap' (t_Key, e) rfl)
    have hticks : t_Key.m_Ticks ≤ t.getTickCount ↔ t.due e ≤ t.now := by
      rw [show t_Key = _ from hkey]
      exact htell
    obtain ⟨hsub, hkept, hgone⟩ := h.timed.delete hmem
    have hshorter : (t.controller.m_CacheDecay.delete (t_Key, e)).toList.length <
        t.controller.m_CacheDecay.toList.length :=
      lt_of_le_of_ne hsub.length_le fun heq => hgone (by rw [hsub.eq_of_length heq]; exact hmem)
    have htakes : ∀ node ∈ t.controller.m_CacheDecay.toList, t.due e ≤ t.due node.2 := by
      rw [hnodes]
      exact hfirst
    have hkept' : ∀ node ∈ t.controller.m_CacheDecay.toList, node.2 ≠ e → node ∈
        (t.controller.m_CacheDecay.delete (t_Key, e)).toList :=
      fun node hnode hne => hkept node hnode fun heq => hne (by rw [heq])
    dsimp only
    split_ifs with hdue hdecays
    · refine ⟨h.dequeue (e := e) hsub hkept' rfl (quiet_of_element rfl fun hx => ?_) ?_,
        hticks.mp hdue, hshorter, htakes⟩
      · cases hx
      · rw [WmiCacheController.modify]
        dsimp only
        rw [Function.update_self]
        rfl
    · have hquiet : Quiet t.controller
          { t.controller with m_CacheDecay := t.controller.m_CacheDecay.delete (t_Key, e) } :=
        fun _ hx => ⟨hx, rfl⟩
      exact ⟨h.dequeue (e := e) hsub hkept' rfl hquiet (Bool.eq_false_iff.mpr hdecays), hshorter,
        htakes⟩
    · refine ⟨h, fun e' he' => ?_⟩
      obtain ⟨node, hnode, rfl⟩ := h.decaying e' he'
      rw [hnodes] at hnode
      exact lt_of_lt_of_le (not_le.mp fun hle => hdue (hticks.mpr hle)) (hfirst node hnode)

/-- Calls that neither queue nor expire elements. -/
theorem quiet_next {s s' : WmiCacheController Key} {event : CacheEvent Key}
    (hnext : s.next event = some s')
    (hevent : match event with
      | .release _ _ _ => False
      | .strobe _ _ => False
      | .shutdownKey _ => False
      | .shutdown _ => False
      | _ => True) :
    Quiet s s' ∧ s'.m_CacheDecay = s.m_CacheDecay ∧ s'.m_Counter = s.m_Counter := by
  have haddRef : ∀ x : WmiCacheElement Key, x.addRef.m_Decaying = true →
      x.m_Decaying = true ∧ x.addRef.m_Decayed = x.m_Decayed := by
    intro x hx
    unfold WmiCacheElement.addRef at hx ⊢
    by_cases href : x.m_ReferenceCount = 0
    · rw [if_pos href] at hx
      cases hx
    · rw [if_neg href] at hx ⊢
      exact ⟨hx, rfl⟩
  cases event with
  | create e key period =>
    obtain rfl := Option.some.inj hnext
    refine ⟨quiet_of_element rfl fun hx => ?_, rfl, rfl⟩
    cases hx
  | addRef e =>
    obtain rfl := Option.some.inj hnext
    exact ⟨quiet_of_element rfl (haddRef _), rfl, rfl⟩
  | insert alloc e =>
    obtain rfl := Option.some.inj hnext
    unfold WmiCacheController.insert
    split
    · exact ⟨quiet_of_element rfl fun hx => ⟨hx, rfl⟩, rfl, rfl⟩
    · exact ⟨fun _ hx => ⟨hx, rfl⟩, rfl, rfl⟩
  | find key =>
    obtain rfl := Option.some.inj hnext
    unfold WmiCacheController.find
    split
    · exact ⟨quiet_of_element rfl (haddRef _), rfl, rfl⟩
    · exact ⟨fun _ hx => ⟨hx, rfl⟩, rfl, rfl⟩
  | internalRelease e =>
    obtain rfl := Option.some.inj hnext
    have hquiet := quiet_unLockedInternalRelease { s with
      pendingRelease := Function.update s.pendingRelease e (s.pendingRelease e - 1) } e
    have hqueue := queue_unLockedInternalRelease { s with
      pendingRelease := Function.update s.pendingRelease e (s.pendingRelease e - 1) } e
    exact ⟨hquiet, hqueue⟩
  | nonCyclicRelease e =>
    obtain rfl := Option.some.inj hnext
    exact ⟨quiet_of_element rfl fun hx => ⟨hx, rfl⟩, rfl, rfl⟩
  | release => exact hevent.elim
  | strobe => exact hevent.elim
  | shutdownKey => exact hevent.elim
  | shutdown => exact hevent.elim

/-- What one step preserves. -/
theorem step_queued (h : Queued t) {t' : Timeline Key} {event : Event Key} (hmeets : Meets t event)
    (hstep : step t event = some t') : Queued t' ∧ ExpiresInTime t event := by
  obtain ⟨hwrap, hfinds⟩ := hmeets
  cases event with
  | wait ms =>
    obtain rfl := Option.some.inj hstep
    exact ⟨⟨h.timed, h.counter, h.live, h.decaying⟩, trivial⟩
  | call event =>
    obtain ⟨hticks, hstep⟩ := Option.ite_none_right_eq_some.mp hstep
    obtain ⟨controller, hnext, rfl⟩ := Option.map_eq_some_iff.mp hstep
    cases event with
    | release alloc e ticks =>
      obtain rfl := Option.some.inj hnext
      obtain rfl : ticks = t.getTickCount := of_decide_eq_true hticks
      exact ⟨h.release hwrap hfinds, trivial⟩
    | strobe ticks a_NextStrobeDelta =>
      obtain rfl := Option.some.inj hnext
      obtain rfl : ticks = t.getTickCount := of_decide_eq_true hticks
      exact h.strobe a_NextStrobeDelta hwrap
    | shutdownKey key =>
      obtain rfl := Option.some.inj hnext
      exact ⟨h.shutdownKey key, trivial⟩
    | shutdown alloc => exact ⟨h.shutdown hfinds hnext, trivial⟩
    | _ =>
      obtain ⟨hquiet, hqueue, hcounter⟩ := quiet_next hnext trivial
      exact ⟨h.keep hqueue hcounter hquiet, trivial⟩

omit [DecidableEq Key] in
theorem start_queued (now : ℕ) (key : Key) : Queued (start now key) where
  timed := ⟨fun _ h => absurd h List.not_mem_nil, List.Pairwise.nil,
    fun _ h => absurd h List.not_mem_nil⟩
  counter := rfl
  live _ he := by cases he
  decaying _ he := by cases he

theorem stepsMeet_queued (h : Queued t) (events : List (Event Key))
    (hok : StepsMeet step Meets t events) : StepsMeet step ExpiresInTime t events := by
  induction events generalizing t with
  | nil => trivial
  | cons event events ih =>
    intro t' ht'
    obtain ⟨hmeets, hrest⟩ := hok t' ht'
    obtain ⟨hqueued, hright⟩ := step_queued h hmeets ht'
    exact ⟨hright, ih hqueued hrest⟩

/-- A cache expires its elements in time as long as no wrap of the tick count shows and it finds them
under their keys. -/
theorem expiresInTime_of_meets (now : ℕ) (key : Key) (events : List (Event Key))
    (hok : StepsMeet step Meets (start now key) events) :
    StepsMeet step ExpiresInTime (start now key) events :=
  stepsMeet_queued (start_queued now key) events hok

theorem stepsMeet_cons {ok : Timeline Key → Event Key → Prop} {t' : Timeline Key}
    {event : Event Key} {events : List (Event Key)} (hstep : step t event = some t')
    (hevent : ok t event) (hrest : StepsMeet step ok t' events) :
    StepsMeet step ok t (event :: events) := by
  intro t'' ht''
  rw [← Option.some.inj (hstep.symm.trans ht'')]
  exact ⟨hevent, hrest⟩

/-- An element with a period of a second is released at tick 0, one with half a second a little
later. -/
theorem expiresInTime_of_meets_two :
    StepsMeet step ExpiresInTime (start 0 7)
      [.call (.create 0 7 1000), .call (.addRef 0), .call (.insert true 0),
        .call (.release true 0 0), .call (.create 1 8 500), .call (.addRef 1),
        .call (.insert true 1), .wait 100, .call (.release true 1 100), .wait 500,
        .call (.strobe 600 5000), .call (.strobe 600 5000), .wait 400, .call (.strobe 1000 5000)] := by
  apply expiresInTime_of_meets
  apply stepsMeet_cons rfl ⟨trivial, trivial⟩
  apply stepsMeet_cons rfl ⟨trivial, trivial⟩
  apply stepsMeet_cons rfl ⟨trivial, trivial⟩
  apply stepsMeet_cons rfl
  · refine ⟨fun _ node hnode => ?_, fun _ => by decide +kernel⟩
    exact absurd hnode List.not_mem_nil
  apply stepsMeet_cons rfl ⟨trivial, trivial⟩
  apply stepsMeet_cons rfl ⟨trivial, trivial⟩
  apply stepsMeet_cons rfl ⟨trivial, trivial⟩
  apply stepsMeet_cons rfl ⟨trivial, trivial⟩
  apply stepsMeet_cons rfl
  · refine ⟨fun _ node hnode => ?_, fun _ => by decide +kernel⟩
    obtain rfl := List.mem_singleton.mp hnode
    exact ⟨by decide, by decide, fun _ => by decide⟩
  apply stepsMeet_cons rfl ⟨trivial, trivial⟩
  apply stepsMeet_cons rfl
  · refine ⟨fun node hnode => ?_, trivial⟩
    rw [← Option.some.inj hnode]
    exact Or.inl (by decide)
  apply stepsMeet_cons rfl
  · refine ⟨fun node hnode => ?_, trivial⟩
    rw [← Option.some.inj hnode]
    exact Or.inl (by decide)
  apply stepsMeet_cons rfl ⟨trivial, trivial⟩
  apply stepsMeet_cons rfl
  · refine ⟨fun node hnode => ?_, trivial⟩
    rw [← Option.some.inj hnode]
    exact Or.inl (by decide)
  trivial

/-- Ten milliseconds before the tick count wraps, an element with a period of a second is released. It
expires after five. -/
theorem not_expiresInTime_beforeWrap :
    ¬ StepsMeet step ExpiresInTime (start (2 ^ 32 - 10) 7)
      [.call (.create 0 7 1000), .call (.addRef 0), .call (.insert true 0),
        .call (.release true 0 0xFFFFFFF6), .wait 5, .call (.strobe 0xFFFFFFFB 5000)] := by
  intro h
  obtain ⟨-, h⟩ := h _ rfl
  obtain ⟨-, h⟩ := h _ rfl
  obtain ⟨-, h⟩ := h _ rfl
  obtain ⟨-, h⟩ := h _ rfl
  obtain ⟨-, h⟩ := h _ rfl
  obtain ⟨h, -⟩ := h _ rfl
  have hdue : (2 ^ 32 - 10 + 1000 : ℕ) ≤ 2 ^ 32 - 10 + 5 := h.1
  exact absurd hdue (by decide)

end NtAdmin.Wmi.Containers.CacheTicks
