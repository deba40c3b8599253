import NtAdmin.Wmi.A51.ForestTree

/-! What each operation of the class cache does to the tree and to the chain. -/
namespace NtAdmin.Wmi.A51
open Lib Prog

variable {Hash Obj : Type}

/-- A change of a record that its chain does not see. -/
def Light (f : CClassRecord Hash Obj → CClassRecord Hash Obj) : Prop :=
  ∀ r, (f r).moreRecentlyUsed = r.moreRecentlyUsed ∧ (f r).lessRecentlyUsed = r.lessRecentlyUsed ∧
    (f r).classDef = r.classDef ∧ (f r).classDefSize = r.classDefSize

/-- The cache has its chain, the tree `K` and no more than `M` in memory. -/
structure Held (K : Skeleton Hash) (M : ℕ) (s : CForestCache Hash Obj) : Prop where
  lru : ∃ ns, s.Lru ns
  init : s.init = true
  skeleton : s.skeleton = K
  max : s.maxMemory = M
  room : s.totalMemory ≤ M

open CForestCache

variable {s t : CForestCache Hash Obj} {ns : List ℕ} {p q : ℕ} {r : CClassRecord Hash Obj}
  {K : Skeleton Hash} {M : ℕ} {n m : Shape Hash}
  {f : CClassRecord Hash Obj → CClassRecord Hash Obj}

theorem skeleton_update {o : Option (CClassRecord Hash Obj)} :
    CForestCache.skeleton { s with heap := Function.update s.heap p o } =
      s.skeleton.put p (o.map CClassRecord.shape) := by
  have hnode : (fun a => (Function.update s.heap p o a).map CClassRecord.shape) =
      Function.update (fun a => (s.heap a).map CClassRecord.shape) p
        (o.map CClassRecord.shape) := by
    funext a
    by_cases hap : a = p
    · subst hap
      rw [Function.update_self, Function.update_self]
    · rw [Function.update_of_ne hap, Function.update_of_ne hap]
  rw [Skeleton.put, skeleton, skeleton, hnode]

theorem shape_of_bare {r r' : CClassRecord Hash Obj} (h : r.bare = r'.bare) :
    r.shape = r'.shape := by
  change r.bare.shape = r'.bare.shape
  rw [h]

/-- Evictions leave the tree and the map as they are. -/
theorem CForestCache.Evicted.skeleton (h : Evicted s t) : t.skeleton = s.skeleton := by
  have hnode : (fun a => (t.heap a).map CClassRecord.shape) =
      fun a => (s.heap a).map CClassRecord.shape := by
    funext a
    rcases hs : s.heap a with _ | r
    · have hb := h.bare a
      rw [hs, Option.map_none, Option.map_eq_none_iff] at hb
      rw [hb]
    · obtain ⟨r', hr', heq⟩ := h.heap_eq hs
      rw [hr', Option.map_some, Option.map_some, shape_of_bare heq]
  rw [CForestCache.skeleton, CForestCache.skeleton, hnode, h.rest]

theorem CForestCache.Evicted.init (h : Evicted s t) : t.init = s.init := by
  rw [h.rest]

theorem CForestCache.Evicted.maxMemory (h : Evicted s t) : t.maxMemory = s.maxMemory := by
  rw [h.rest]

namespace Held

theorem record (h : Held K M s) (hp : K.node p = some n) :
    ∃ r, s.heap p = some r ∧ r.shape = n := by
  rw [← h.skeleton] at hp
  exact Option.map_eq_some_iff.mp hp

theorem node (h : Held K M s) (hp : s.heap p = some r) : K.node p = some r.shape := by
  rw [← h.skeleton]
  exact congrArg (Option.map CClassRecord.shape) hp

theorem evicted (h : Held K M s) (hev : Evicted s t) (hlru : ∃ ns, t.Lru ns) : Held K M t :=
  ⟨hlru, hev.init.trans h.init, hev.skeleton.trans h.skeleton, hev.maxMemory.trans h.max,
    Nat.le_trans hev.total h.room⟩

/-- What is neither in the chain nor in the tree may change. -/
theorem of_eq (h : Held K M s) (hheap : t.heap = s.heap)
    (hleast : t.leastRecentlyUsed = s.leastRecentlyUsed)
    (hmost : t.mostRecentlyUsed = s.mostRecentlyUsed) (hfresh : t.fresh = s.fresh)
    (htotal : t.totalMemory = s.totalMemory) (hmap : t.map = s.map) (hinit : t.init = s.init)
    (hmax : t.maxMemory = s.maxMemory) : Held K M t := by
  obtain ⟨ns, hlru⟩ := h.lru
  refine ⟨⟨ns, hlru.of_eq hheap hleast hmost hfresh htotal⟩, hinit.trans h.init, ?_,
    hmax.trans h.max, htotal ▸ h.room⟩
  rw [← h.skeleton, CForestCache.skeleton, CForestCache.skeleton, hheap, hmap, hfresh]

end Held

theorem CForestCache.Lru.put {r' : CClassRecord Hash Obj} (h : s.Lru ns) (hp : s.heap p = some r)
    (hm : r'.moreRecentlyUsed = r.moreRecentlyUsed) (hl : r'.lessRecentlyUsed = r.lessRecentlyUsed)
    (hdef : r'.classDef = r.classDef) (hsize : r'.classDefSize = r.classDefSize) :
    Lru { s with heap := Function.update s.heap p (some r') } ns := by
  refine ⟨h.chained.put hp hm hl rfl rfl rfl rfl, fun a m ha => ?_, ?_, h.small⟩
  · rcases update_eq_some ha with ⟨rfl, hr⟩ | ⟨-, ha⟩
    · obtain rfl := Option.some.inj hr
      rw [hdef]
      exact h.mem a r hp
    · exact h.mem a m ha
  · refine h.total.trans (congrArg List.sum (List.map_congr_left fun a _ => ?_))
    by_cases hap : a = p
    · subst hap
      simp [sizeAt, hp, hsize]
    · simp [sizeAt, Function.update_of_ne hap]

theorem runs_update (h : Held K M s) (hp : s.heap p = some r) (hf : Light f) :
    Runs (update p f) (fun _ t => Held (K.put p (some (f r).shape)) M t ∧
      t.heap p = some (f r) ∧ t.defs = s.defs) s := by
  rw [Runs, wp_update hp]
  obtain ⟨ns, hlru⟩ := h.lru
  obtain ⟨hm, hl, hdef, hsize⟩ := hf r
  refine ⟨⟨⟨ns, hlru.put hp hm hl hdef hsize⟩, h.init, ?_, h.max, h.room⟩,
    Function.update_self .., ?_⟩
  · rw [skeleton_update, h.skeleton]
    rfl
  · funext a
    by_cases hap : a = p
    · subst hap
      simp [defs, hp, hdef]
    · simp [defs, Function.update_of_ne hap]

/-- A change that the tree does not see either. -/
theorem runs_update_flags (h : Held K M s) (hp : s.heap p = some r) (hf : Light f)
    (hshape : (f r).shape = r.shape) :
    Runs (update p f) (fun _ t => Held K M t ∧ t.heap p = some (f r) ∧ t.defs = s.defs) s := by
  refine (runs_update h hp hf).mono fun _ t ht => ?_
  rw [hshape, ← h.node hp, Skeleton.put_self] at ht
  exact ht

theorem runs_removeRecord_held (h : Held K M s) (hp : s.heap p = some r) :
    Runs (removeRecord p) (fun _ t => Held K M t ∧ t.heap p = some r.bare ∧
      t.totalMemory = s.totalMemory - if r.classDef.isSome then r.classDefSize else 0) s := by
  obtain ⟨ns, hlru⟩ := h.lru
  refine (runs_removeRecord hlru h.init hp).mono fun _ t ht => ?_
  obtain ⟨hlru', hrem⟩ := ht
  exact ⟨h.evicted hrem.evicted ⟨_, hlru'⟩, hrem.own, hrem.total⟩

theorem CForestCache.Lru.free (h : s.Lru ns) (hp : s.heap p = some r) (hdef : r.classDef = none) :
    Lru { s with heap := Function.update s.heap p none } ns := by
  have hmem : p ∉ ns := fun hmem => (h.mem p r hp).mp hmem hdef
  have hne : ∀ a ∈ ns, a ≠ p := fun a ha heq => hmem (heq ▸ ha)
  have hback : ∀ a m, Function.update s.heap p none a = some m → s.heap a = some m := by
    intro a m ha
    rcases update_eq_some ha with ⟨-, hm⟩ | ⟨-, ha⟩
    · cases hm
    · exact ha
  refine ⟨⟨h.chained.chain.congr (fun a ha => ?_) fun a ha => ?_, fun a ha => ?_,
    fun a m ha => h.chained.loose a m (hback a m ha),
    fun a m ha => h.chained.bound a m (hback a m ha)⟩, fun a m ha => h.mem a m (hback a m ha), ?_, h.small⟩
  · simp [more, Function.update_of_ne (hne a ha)]
  · simp [less, Function.update_of_ne (hne a ha)]
  · obtain ⟨m, hm⟩ := h.chained.allocated a ha
    exact ⟨m, (Function.update_of_ne (hne a ha) _ _).trans hm⟩
  · refine h.total.trans (congrArg List.sum (List.map_congr_left fun a ha => ?_))
    simp [sizeAt, Function.update_of_ne (hne a ha)]

/-- The last reference to a record without definition is given up. -/
theorem runs_release (h : Held K M s) (hp : s.heap p = some r) (hdef : r.classDef = none)
    (hone : r.lRef = 1) : Runs (release p) (fun _ t => Held (K.put p none) M t) s := by
  rw [Runs, release, wp_bind, wp_record hp, wp_ite]
  refine ⟨fun _ => ?_, fun hno => absurd hone hno⟩
  obtain ⟨ns, hlru⟩ := h.lru
  rw [wp_modify]
  refine ⟨⟨ns, hlru.free hp hdef⟩, h.init, ?_, h.max, h.room⟩
  rw [skeleton_update, h.skeleton]
  rfl

/-- Another reference stays. -/
theorem runs_release_shared (h : Held K M s) (hp : s.heap p = some r) (hmany : r.lRef ≠ 1) :
    Runs (release p) (fun _ t => Held (K.put p (some { r.shape with lRef := r.lRef - 1 })) M t ∧
      t.heap p = some { r with lRef := r.lRef - 1 }) s := by
  rw [Runs, release, wp_bind, wp_record hp, wp_ite]
  refine ⟨fun hone => absurd hone hmany, fun _ => ?_⟩
  refine (runs_update (f := fun n => { n with lRef := n.lRef - 1 }) h hp
    fun _ => ⟨rfl, rfl, rfl, rfl⟩).mono fun _ t ht => ?_
  exact ⟨ht.1, ht.2.1⟩

/-! ### Subtrees that leave -/

open Skeleton

variable {lv : ℕ → ℕ} {R : Set ℕ} {inv : ℕ → CacheM Hash Obj PUnit}

/-- The program removes the subtree at `c`, after whatever was removed outside of it. -/
def Removes (K : Skeleton Hash) (M c : ℕ) (m : CacheM Hash Obj PUnit) : Prop :=
  ∀ (R : Set ℕ) (s : CForestCache Hash Obj), (∀ a ∈ R, a ∉ K.subtree c) → Held (K.without R) M s →
    Runs m (fun _ t => Held (K.without (R ∪ K.subtree c)) M t) s

theorem runs_invalidateChildren (hK : K.Tree) (hl : K.Level lv) (hp : K.node p = some n)
    (hR : ∀ a ∈ R, a ∉ K.subtree p) (hinv : ∀ c ∈ n.children, Removes K M c (inv c)) (k i : ℕ)
    (hi : i + k = n.children.length)
    (h : Held (K.without (R ∪ {a | ∃ c ∈ n.children.take i, a ∈ K.subtree c})) M s) :
    Runs (invalidateChildren inv p k i) (fun _ t => Held (K.without (R ∪ K.below n)) M t) s := by
  induction k generalizing i s with
  | zero =>
    rw [List.take_of_length_le (by omega)] at h
    exact h
  | succ k ih =>
    have hlt : i < n.children.length := by omega
    have hmem : n.children[i] ∈ n.children := List.getElem_mem hlt
    have hunder : ∀ c ∈ n.children, K.Under c p := fun c hc => hK.under hp hc
    have hout : p ∉ R ∪ {a | ∃ c ∈ n.children.take i, a ∈ K.subtree c} := by
      rintro (hpR | ⟨c, hc, hpc⟩)
      · exact hR p hpR mem_subtree_self
      · exact hl.not_mem_below (hunder c (List.mem_of_mem_take hc)) hpc
    obtain ⟨r, hr, hshape⟩ := h.record (p := p) (by rw [without_node hout, hp])
    have hchildren : r.children = n.children := by
      rw [← hshape]
      rfl
    rw [Runs, invalidateChildren, wp_bind, wp_record hr, hchildren, List.getElem?_eq_getElem hlt]
    simp only
    rw [wp_bind]
    have hdisj : ∀ a ∈ R ∪ {a | ∃ c ∈ n.children.take i, a ∈ K.subtree c},
        a ∉ K.subtree n.children[i] := by
      rintro a (haR | ⟨c, hc, hac⟩) hai
      · exact hR a haR (Relation.ReflTransGen.tail hai (hunder _ hmem))
      · have heq := hl.sibling (hunder c (List.mem_of_mem_take hc)) (hunder _ hmem) hac hai
        obtain ⟨j, hj, hcj⟩ := List.mem_take_iff_getElem.mp hc
        have hji := (hK.distinct p n hp).getElem_inj_iff.mp (hcj.trans heq)
        omega
    refine (hinv _ hmem _ s hdisj h).mono fun _ t ht => ih (i + 1) (by omega) ?_
    have hset : R ∪ {a | ∃ c ∈ n.children.take i, a ∈ K.subtree c} ∪ K.subtree n.children[i] =
        R ∪ {a | ∃ c ∈ n.children.take (i + 1), a ∈ K.subtree c} := by
      ext a
      rw [List.take_succ_eq_append_getElem hlt]
      simp only [Set.mem_union, Set.mem_ofPred_eq, List.mem_append, List.mem_singleton, or_assoc]
      constructor
      · rintro (haR | ⟨c, hc, hac⟩ | hai)
        · exact Or.inl haR
        · exact Or.inr ⟨c, Or.inl hc, hac⟩
        · exact Or.inr ⟨_, Or.inr rfl, hai⟩
      · rintro (haR | ⟨c, hc | rfl, hac⟩)
        · exact Or.inl haR
        · exact Or.inr (Or.inl ⟨c, hc, hac⟩)
        · exact Or.inr (Or.inr hac)
    rwa [hset] at ht

/-- The ancestors are there, and there are fewer than the program has fuel for. -/
theorem runs_clearTreeComplete (fuel : ℕ) {o : Option ℕ}
    (hup : ∀ a q, K.Under a q → lv q < lv a ∧ ∃ m, K.node q = some m)
    (ho : ∀ q, o = some q → lv q < fuel ∧ ∃ m, K.node q = some m) (h : Held K M s) :
    Runs (clearTreeComplete fuel o) (fun _ t => Held K M t ∧ t.defs = s.defs) s := by
  induction fuel generalizing o s with
  | zero =>
    cases o with
    | none => exact ⟨h, rfl⟩
    | some q => exact absurd (ho q rfl).1 (Nat.not_lt_zero _)
  | succ fuel ih =>
    cases o with
    | none => exact ⟨h, rfl⟩
    | some q =>
      obtain ⟨hlt, m, hm⟩ := ho q rfl
      obtain ⟨r, hr, hshape⟩ := h.record hm
      rw [Runs, clearTreeComplete, wp_bind]
      refine (runs_update_flags (f := fun r => { r with treeComplete := false }) h hr
        (fun _ => ⟨rfl, rfl, rfl, rfl⟩) rfl).mono fun _ t ht => ?_
      obtain ⟨ht, hr', hdefs⟩ := ht
      rw [wp_bind, wp_record hr', ← hdefs]
      refine ih (fun q' hq' => ?_) ht
      have hparent : m.parent = some q' := by
        rw [← hshape]
        exact hq'
      obtain ⟨hlt', hm'⟩ := hup q q' ⟨m, hm, hparent⟩
      exact ⟨by omega, hm'⟩

/-- The parent, if there is one, does not list the record any more. -/
theorem runs_untieFromParent {fuel : ℕ} {index : ℤ} {x : Shape Hash}
    (hup : ∀ a q, K.Under a q → lv q < lv a ∧ ∃ m, K.node q = some m)
    (hlt : ∀ a y, K.node a = some y → lv a < fuel) (h : Held K M s) (hp : K.node p = some x) :
    Runs (untieFromParent fuel p index) (fun _ t => t.defs = s.defs ∧
      (x.parent = none → Held K M t) ∧
      ∀ q m, x.parent = some q → K.node q = some m →
        Held (K.put q (some { m with children := m.children.erase p })) M t) s := by
  obtain ⟨r, hr, hshape⟩ := h.record hp
  have hparent : r.parent = x.parent := by
    rw [← hshape]
    rfl
  rw [Runs, untieFromParent, wp_bind, wp_record hr, hparent]
  rcases hq : x.parent with _ | q
  · exact ⟨rfl, fun _ => h, fun _ _ hq => by cases hq⟩
  obtain ⟨hltq, m, hm⟩ := hup p q ⟨x, hp, hq⟩
  obtain ⟨rq, hrq, hshapeq⟩ := h.record hm
  simp only
  rw [wp_bind]
  refine (runs_update_flags (f := fun r => { r with
    childrenComplete := false, treeComplete := false, lastChildInvalidationIndex := index }) h hrq
    (fun _ => ⟨rfl, rfl, rfl, rfl⟩) rfl).mono fun _ t₁ h₁ => ?_
  obtain ⟨h₁, hrq₁, hdefs₁⟩ := h₁
  rw [wp_bind]
  refine (runs_update (f := fun n => { n with children := n.children.erase p }) h₁ hrq₁
    fun _ => ⟨rfl, rfl, rfl, rfl⟩).mono fun _ t₂ h₂ => ?_
  obtain ⟨h₂, hrq₂, hdefs₂⟩ := h₂
  rw [wp_bind, wp_record hrq₂]
  have hput : CClassRecord.shape { rq with
      childrenComplete := false, treeComplete := false, lastChildInvalidationIndex := index
      children := rq.children.erase p } = { m with children := m.children.erase p } := by
    rw [← hshapeq]
    rfl
  have hK₂ : ∀ a y, (K.put q (some { m with children := m.children.erase p })).node a = some y →
      ∃ z, K.node a = some z ∧ y.parent = z.parent := by
    intro a y ha
    rcases update_eq_some ha with ⟨rfl, hy⟩ | ⟨-, hy⟩
    · obtain rfl := Option.some.inj hy
      exact ⟨m, hm, rfl⟩
    · exact ⟨y, hy, rfl⟩
  have halive : ∀ a y, K.node a = some y →
      ∃ z, (K.put q (some { m with children := m.children.erase p })).node a = some z := by
    intro a y ha
    by_cases haq : a = q
    · subst haq
      exact ⟨_, put_node⟩
    · exact ⟨y, (put_node_of_ne haq).trans ha⟩
  have h₂' : Held (K.put q (some { m with children := m.children.erase p })) M t₂ := hput ▸ h₂
  have hup₂ : ∀ a b, (K.put q (some { m with children := m.children.erase p })).Under a b →
      lv b < lv a ∧
        ∃ z, (K.put q (some { m with children := m.children.erase p })).node b = some z := by
    intro a b hab
    obtain ⟨y, hy, hpar⟩ := hab
    obtain ⟨z, hz, heq⟩ := hK₂ a y hy
    obtain ⟨hlt', w, hw⟩ := hup a b ⟨z, hz, heq ▸ hpar⟩
    exact ⟨hlt', halive b w hw⟩
  refine (runs_clearTreeComplete fuel hup₂ (fun b hb => ?_) h₂').mono fun _ t ht => ?_
  · have hparq : m.parent = some b := by
      rw [← hshapeq]
      exact hb
    obtain ⟨-, w, hw⟩ := hup q b ⟨m, hm, hparq⟩
    exact ⟨hlt b w hw, halive b w hw⟩
  · refine ⟨ht.2.trans (hdefs₂.trans hdefs₁), fun hnone => (by cases hnone), fun q' m' hq' hm' => ?_⟩
    obtain rfl := Option.some.inj hq'
    rw [hm] at hm'
    obtain rfl := Option.some.inj hm'
    exact ht.1

section keys
variable [DecidableEq Hash]

/-- The map without a key. -/
def Skeleton.erase (K : Skeleton Hash) (key : ℕ × Hash) : Skeleton Hash :=
  { K with map := K.map.filter fun e => e.1 ≠ key }

theorem runs_erase {key : ℕ × Hash} (h : Held K M s) (hp : s.heap p = some r) :
    Runs (erase key) (fun _ t => Held (K.erase key) M t ∧ t.heap p = some r) s := by
  obtain ⟨ns, hlru⟩ := h.lru
  rw [Runs, CForestCache.erase, wp_modify]
  refine ⟨⟨⟨ns, hlru.of_eq rfl rfl rfl rfl rfl⟩, h.init, ?_, h.max, h.room⟩, hp⟩
  rw [← h.skeleton]
  rfl

namespace Skeleton

/-- A record leaves the map by its key. -/
theorem Tree.without_erase (h : K.Tree) (hp : K.node p = some n) (R : Set ℕ) :
    ((K.without R).erase n.key).put p none = K.without (R ∪ {p}) := by
  have hnode : Function.update (K.without R).node p none = (K.without (R ∪ {p})).node := by
    funext a
    by_cases hap : a = p
    · subst hap
      rw [Function.update_self, without_node_of_mem (Or.inr rfl)]
    · rw [Function.update_of_ne hap]
      by_cases haR : a ∈ R
      · rw [without_node_of_mem haR, without_node_of_mem (Or.inl haR)]
      · rw [without_node haR, without_node fun hmem => hmem.elim haR hap]
  have hmap : (K.without R).map.filter (fun e => e.1 ≠ n.key) = (K.without (R ∪ {p})).map := by
    simp only [without, List.filter_filter]
    refine List.filter_congr fun e he => ?_
    have hinj : e.1 = n.key ↔ e.2 = p := h.entry_inj he (h.mapped p n hp)
    rw [Bool.eq_iff_iff]
    simp [hinj]
  rw [put, erase, hmap, hnode]
  rfl

end Skeleton

/-- What is below the record is gone, and so are its definition and its entry in the map. -/
theorem runs_dropRecord (hK : K.Tree) (hl : K.Level lv) (hp : K.node p = some n)
    (hR : ∀ a ∈ R, a ∉ K.subtree p) (hinv : ∀ c ∈ n.children, Removes K M c (inv c))
    (h : Held (K.without R) M s) :
    Runs (dropRecord inv p) (fun _ t => Held
        (((K.without (R ∪ K.below n)).erase n.key).put p (some { n with children := [] })) M t ∧
      ∃ r, t.heap p = some r ∧ r.classDef = none ∧ r.shape = { n with children := [] }) s := by
  have hpR : p ∉ R := fun hmem => hR p hmem mem_subtree_self
  have hbelow : p ∉ R ∪ K.below n := by
    rintro (hmem | ⟨c, hc, hpc⟩)
    · exact hpR hmem
    · exact hl.not_mem_below (hK.under hp hc) hpc
  obtain ⟨r₀, hr₀, hshape₀⟩ := h.record (p := p) (by rw [without_node hpR, hp])
  have hlen : r₀.children.length = n.children.length := by
    rw [← hshape₀]
    rfl
  rw [Runs, dropRecord, wp_bind, wp_record hr₀, wp_bind, hlen]
  have hstart : Held (K.without (R ∪ {a | ∃ c ∈ n.children.take 0, a ∈ K.subtree c})) M s := by
    simpa using h
  refine (runs_invalidateChildren hK hl hp hR hinv _ 0 (by omega) hstart).mono fun _ t₁ h₁ => ?_
  obtain ⟨r₁, hr₁, hshape₁⟩ := h₁.record (p := p) (by rw [without_node hbelow, hp])
  rw [wp_bind]
  refine (runs_update (f := fun r => { r with children := [] }) h₁ hr₁
    fun _ => ⟨rfl, rfl, rfl, rfl⟩).mono fun _ t₂ h₂ => ?_
  obtain ⟨h₂, hr₂, -⟩ := h₂
  rw [wp_bind]
  refine (runs_removeRecord_held h₂ hr₂).mono fun _ t₃ h₃ => ?_
  obtain ⟨h₃, hr₃, -⟩ := h₃
  rw [wp_bind, wp_record hr₃]
  have hkey : r₁.key = n.key := by
    rw [← hshape₁]
    rfl
  have hshape : CClassRecord.shape { r₁ with children := [] } = { n with children := [] } := by
    rw [← hshape₁]
    rfl
  refine (runs_erase h₃ hr₃).mono fun _ t h₄ => ?_
  obtain ⟨h₄, hr₄⟩ := h₄
  rw [hshape] at h₄
  exact ⟨hkey ▸ h₄, _, hr₄, rfl, hshape⟩

theorem runs_invalidateClassInternal (hK : K.Tree) (hl : K.Level lv) (depth : ℕ)
    (hp : K.node p = some n) (hdepth : K.fresh ≤ lv p + depth)
    (hone : ∀ a ∈ K.subtree p, ∀ x, K.node a = some x → x.lRef = 1) :
    Removes K M p (invalidateClassInternal depth p : CacheM Hash Obj PUnit) := by
  induction depth generalizing p n with
  | zero =>
    have := hl.lt p n hp
    omega
  | succ depth ih =>
    intro R s hR h
    have hinv : ∀ c ∈ n.children,
        Removes K M c (invalidateClassInternal depth c : CacheM Hash Obj PUnit) := by
      intro c hc
      obtain ⟨m, hm, -⟩ := hK.child p n c hp hc
      have hunder := hK.under hp hc
      have hlevel := hl.succ c p hunder
      exact ih hm (by omega) fun a ha => hone a (Relation.ReflTransGen.tail ha hunder)
    rw [Runs, invalidateClassInternal, wp_bind]
    refine (runs_dropRecord hK hl hp hR hinv h).mono fun _ t ht => ?_
    obtain ⟨ht, r, hr, hdef, hshape⟩ := ht
    have hlRef : r.lRef = 1 := by
      have hn := hone p mem_subtree_self n hp
      rw [← hn]
      exact congrArg Shape.lRef hshape
    refine (runs_release ht hr hdef hlRef).mono fun _ u hu => ?_
    rw [put_put, hK.without_erase hp] at hu
    rwa [hK.subtree_eq hp, ← Set.union_assoc]

/-! ### Lookups and `InvalidateClass` -/

omit [DecidableEq Hash] in
theorem runs_allocate (h : Held K M s) : Runs allocate (fun _ t => Held K M t) s :=
  wp_allocate fun _ _ => h.of_eq rfl rfl rfl rfl rfl rfl rfl rfl

omit [DecidableEq Hash] in
theorem runs_makeKey {A51Hash : String → Hash} {nsp : ℕ} {name : String} (h : Held K M s) :
    Runs (makeKey A51Hash nsp name)
      (fun o t => Held K M t ∧ ∀ key, o = some key → key = (nsp, A51Hash name)) s := by
  rw [Runs, makeKey, wp_bind]
  refine (runs_allocate h).mono fun b t₁ h₁ => ?_
  rw [wp_ite]
  refine ⟨fun _ => ⟨h₁, fun _ hkey => by cases hkey⟩, fun _ => ?_⟩
  rw [wp_bind]
  refine (runs_allocate h₁).mono fun b' t₂ h₂ => ?_
  rw [wp_ite]
  refine ⟨fun _ => ⟨h₂, fun _ hkey => by cases hkey⟩, fun _ => ⟨h₂, fun key hkey => ?_⟩⟩
  exact (Option.some.inj hkey).symm

theorem Held.find_mem {key : ℕ × Hash} (h : Held K M s) (hf : s.find key = some p) :
    (key, p) ∈ K.map := by
  rw [← h.skeleton]
  obtain ⟨e, he, rfl⟩ := Option.map_eq_some_iff.mp hf
  have hkey : e.1 = key := by simpa using List.find?_some he
  have hmem := List.mem_of_find?_eq_some he
  rwa [← hkey]

theorem Held.find_none {key : ℕ × Hash} (h : Held K M s) (hf : s.find key = none) :
    ∀ e ∈ K.map, e.1 ≠ key := by
  rw [← h.skeleton]
  intro e he hkey
  have hnone := List.find?_eq_none.mp (Option.map_eq_none_iff.mp hf) e he
  exact hnone (by simpa using hkey)

theorem runs_findClass {A51Hash : String → Hash} {nsp : ℕ} {name : String} (h : Held K M s) :
    Runs (findClass A51Hash nsp name)
      (fun o t => Held K M t ∧ ∀ p, o = some p → ((nsp, A51Hash name), p) ∈ K.map) s := by
  rw [Runs, findClass, wp_bind]
  refine (runs_makeKey h).mono fun o t ht => ?_
  obtain ⟨ht, hkey⟩ := ht
  cases o with
  | none => exact ⟨ht, fun _ hp => by cases hp⟩
  | some key =>
    rw [wp_bind, wp_get, wp_pure]
    exact ⟨ht, fun p hp => hkey key rfl ▸ ht.find_mem hp⟩

/-- The cache is sound: there is a chain, a tree and one reference to each record. -/
structure Sound (s : CForestCache Hash Obj) : Prop where
  lru : ∃ ns, s.Lru ns
  init : s.init = true
  room : s.totalMemory ≤ s.maxMemory
  tree : s.skeleton.Tree
  single : s.skeleton.Single

/-- A record with two references loses one of them and all that is below it, then its parent, and
then the other reference. -/
theorem runs_leave {fuel : ℕ} (index : ℤ) (hK : K.Tree) (hp : K.node p = some n)
    (htwo : n.lRef = 2) (hone : ∀ a x, a ≠ p → K.node a = some x → x.lRef = 1)
    (hfuel : fuel = K.fresh) (h : Held K M s) :
    Runs (do
      invalidateClassInternal fuel p
      untieFromParent fuel p index
      release p) (fun _ t => Held (K.prune (K.subtree p)) M t) s := by
  obtain ⟨lv, hlv⟩ := hK.level
  have hlt := hlv.lt p n hp
  obtain ⟨depth, rfl⟩ : ∃ depth, fuel = depth + 1 := ⟨fuel - 1, by omega⟩
  have hinv : ∀ c ∈ n.children,
      Removes K M c (invalidateClassInternal depth c : CacheM Hash Obj PUnit) := by
    intro c hc
    obtain ⟨m, hm, -⟩ := hK.child p n c hp hc
    have hunder := hK.under hp hc
    have hlevel := hlv.succ c p hunder
    refine runs_invalidateClassInternal hK hlv depth hm (by omega) fun a ha x hx => ?_
    exact hone a x (fun heq => hlv.not_mem_below hunder (heq ▸ ha)) hx
  have hstart : Held (K.without ∅) M s := by
    rw [without_empty]
    exact h
  rw [Runs, wp_bind, invalidateClassInternal, wp_bind]
  refine (runs_dropRecord hK hlv hp (fun a ha => absurd ha (Set.notMem_empty a)) hinv hstart).mono
    fun _ t₁ h₁ => ?_
  obtain ⟨h₁, r, hr, hdef, hshape⟩ := h₁
  have hlRef : r.lRef = 2 := (congrArg Shape.lRef hshape).trans htwo
  refine (runs_release_shared h₁ hr (by omega)).mono fun _ t₂ h₂ => ?_
  obtain ⟨h₂, hr₂⟩ := h₂
  rw [put_put] at h₂
  let W := (K.without (∅ ∪ K.below n)).erase n.key
  let x : Shape Hash := { r.shape with lRef := r.lRef - 1 }
  have hxpar : r.shape.parent = n.parent := by
    rw [hshape]
  have hW : ∀ a y, (W.put p (some x)).node a = some y → ∃ z, K.node a = some z ∧
      y.parent = z.parent := by
    intro a y ha
    rcases update_eq_some ha with ⟨rfl, hy⟩ | ⟨-, hy⟩
    · obtain rfl := Option.some.inj hy
      exact ⟨n, hp, hxpar⟩
    · by_cases haR : a ∈ ∅ ∪ K.below n
      · cases hy.symm.trans (without_node_of_mem haR)
      · exact ⟨y, (without_node haR).symm.trans hy, rfl⟩
  have hkeep : ∀ b z, K.node b = some z → b ∉ ∅ ∪ K.below n → b ≠ p →
      (W.put p (some x)).node b = some z := by
    intro b z hb hbR hbp
    exact (put_node_of_ne hbp).trans ((without_node hbR).trans hb)
  have hup : ∀ a q, (W.put p (some x)).Under a q → lv q < lv a ∧
      ∃ m, (W.put p (some x)).node q = some m := by
    intro a q haq
    obtain ⟨y, hy, hpar⟩ := haq
    obtain ⟨z, hz, heq⟩ := hW a y hy
    have hunder : K.Under a q := ⟨z, hz, heq ▸ hpar⟩
    have hlevel := hlv.succ a q hunder
    refine ⟨by omega, ?_⟩
    by_cases hqp : q = p
    · exact ⟨x, hqp ▸ put_node⟩
    obtain ⟨m, hm, -⟩ := hK.parent a z q hz (heq ▸ hpar)
    refine ⟨m, hkeep q m hm (fun hq => ?_) hqp⟩
    -- the parent of what is left is not below `p`
    have hqsub : q ∈ K.subtree p := by
      rw [hK.subtree_eq hp]
      exact Or.inl (hq.resolve_left (Set.notMem_empty q))
    have hasub := subtree_closed hunder hqsub
    rw [hK.subtree_eq hp] at hasub
    rcases hasub with haR | rfl
    · have hap : a ≠ p := by
        rintro rfl
        obtain ⟨c, hc, hac⟩ := haR
        exact hlv.not_mem_below (hK.under hp hc) hac
      have hnone := (put_node_of_ne hap (K := W) (o := some x)).symm.trans hy
      cases hnone.symm.trans (without_node_of_mem (Or.inr haR))
    · have hle := hlv.le hqsub
      omega
  have hlevels : ∀ a y, (W.put p (some x)).node a = some y → lv a < depth + 1 := by
    intro a y ha
    obtain ⟨z, hz, -⟩ := hW a y ha
    have := hlv.lt a z hz
    omega
  rw [wp_bind]
  refine (runs_untieFromParent hup hlevels h₂ put_node).mono fun _ t₃ h₃ => ?_
  obtain ⟨hdefs, hroot, hchild⟩ := h₃
  -- the record itself is untouched, and its last reference goes
  have hlast : ∀ K', Held K' M t₃ → K'.node p = some x → Runs (release p)
      (fun _ t => Held (K'.put p none) M t) t₃ := by
    intro K' h' hp'
    obtain ⟨r₃, hr₃, hshape₃⟩ := h'.record hp'
    have hdef₃ : r₃.classDef = none := by
      have heq := congrFun hdefs p
      rw [defs, defs, hr₃, hr₂] at heq
      exact (Option.some.inj heq).trans hdef
    have hone₃ : r₃.lRef = 1 := by
      have heq : r₃.lRef = r.lRef - 1 := congrArg Shape.lRef hshape₃
      omega
    exact runs_release h' hr₃ hdef₃ hone₃
  have hW' : W.put p none = K.without (K.subtree p) := by
    rw [hK.subtree_eq hp, hK.without_erase hp, Set.empty_union]
  rcases hpar : n.parent with _ | q
  · refine (hlast _ (hroot (hxpar.trans hpar)) put_node).mono fun _ t ht => ?_
    rwa [put_put, hW', ← hK.prune_of_root hp hpar] at ht
  · obtain ⟨m, hm, -⟩ := hK.parent p n q hp hpar
    have hqp : q ≠ p := by
      rintro rfl
      have := hlv.succ q q ⟨n, hp, hpar⟩
      omega
    have hqR : q ∉ ∅ ∪ K.below n := by
      rintro (hq | ⟨c, hc, hqc⟩)
      · exact hq
      · have hle := hlv.le hqc
        have h₁ := hlv.succ c p (hK.under hp hc)
        have h₂ := hlv.succ p q ⟨n, hp, hpar⟩
        omega
    have hheld := hchild q m (hxpar.trans hpar) (hkeep q m hm hqR hqp)
    have hnode : (((W.put p (some x)).put q
        (some { m with children := m.children.erase p })).node p) = some x :=
      (put_node_of_ne hqp.symm).trans put_node
    refine (hlast _ hheld hnode).mono fun _ t ht => ?_
    rwa [put_comm hqp.symm, put_put, hW', ← hK.prune_of_child hlv hp hpar hm] at ht

theorem runs_invalidateClass {A51Hash : String → Hash} {nsp : ℕ} {name : String} (hK : K.Tree)
    (hone : K.Single) (h : Held K M s) :
    Runs (invalidateClass A51Hash nsp name)
      (fun _ t => ∃ K', Held K' M t ∧ K'.Tree ∧ K'.Single) s := by
  rw [Runs, invalidateClass, wp_bind]
  refine (runs_findClass h).mono fun o t₁ h₁ => ?_
  obtain ⟨h₁, hfound⟩ := h₁
  cases o with
  | none => exact ⟨K, h₁, hK, hone⟩
  | some p =>
    obtain ⟨n, hn, -⟩ := hK.entry _ (hfound p rfl)
    obtain ⟨r, hr, hshape⟩ := h₁.record hn
    have hlRef : n.lRef = 1 := hone p n hn
    simp only
    rw [wp_bind]
    refine (runs_update (f := fun r => { r with lRef := r.lRef + 1 }) h₁ hr
      fun _ => ⟨rfl, rfl, rfl, rfl⟩).mono fun _ t₂ h₂ => ?_
    obtain ⟨h₂, -, -⟩ := h₂
    have hshape₂ : CClassRecord.shape { r with lRef := r.lRef + 1 } = { n with lRef := 2 } := by
      rw [← hshape] at hlRef ⊢
      have hr1 : r.lRef = 1 := hlRef
      simp [CClassRecord.shape, hr1]
    rw [hshape₂] at h₂
    rw [wp_bind, wp_get, wp_bind, wp_modify]
    have hK₁ : (K.put p (some { n with lRef := 2 })).Tree := hK.put_lRef hn
    have hone₁ : ∀ a x, a ≠ p → (K.put p (some { n with lRef := 2 })).node a = some x →
        x.lRef = 1 := fun a x hap ha => hone a x ((put_node_of_ne hap).symm.trans ha)
    have hfresh : t₂.fresh = (K.put p (some { n with lRef := 2 })).fresh := by
      rw [← h₂.skeleton]
      rfl
    have h₃ := h₂.of_eq (t := { t₂ with
      nextInvalidationIndex :=
        Function.update t₂.nextInvalidationIndex nsp (t₂.nextInvalidationIndex nsp + 1) })
      rfl rfl rfl rfl rfl rfl rfl rfl
    have hrun := runs_leave (t₂.nextInvalidationIndex nsp) hK₁ put_node rfl hone₁ hfresh h₃
    have hsound : Runs _ (fun _ t => ∃ K', Held K' M t ∧ K'.Tree ∧ K'.Single) _ :=
      hrun.mono fun _ u hu => ⟨_, hu, hK₁.prune fun a q ha hq => subtree_closed ha hq,
        fun a x ha => by
          obtain ⟨hout, y, hy, -, -, hl, -⟩ := prune_node ha
          rw [hl]
          exact hone₁ a y (fun heq => hout (heq ▸ mem_subtree_self)) hy⟩
    rw [Runs, wp_bind] at hsound
    rw [wp_bind]
    refine Runs.mono hsound fun _ u hu => ?_
    rw [wp_bind] at hu ⊢
    refine Runs.mono hu fun _ v hv => ?_
    rw [wp_bind]
    exact Runs.mono hv fun _ _ hw => hw

end keys

end NtAdmin.Wmi.A51
