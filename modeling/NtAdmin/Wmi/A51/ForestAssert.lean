import NtAdmin.Wmi.A51.ForestSpec

/-! `AssertClass`, the lookups and `Clear` of the class cache. -/
namespace NtAdmin.Wmi.A51
open Lib Prog CForestCache Skeleton

variable {Hash Obj : Type} {s t : CForestCache Hash Obj} {ns : List ℕ} {p q : ℕ}
  {r : CClassRecord Hash Obj} {K : Skeleton Hash} {M : ℕ} {n m : Shape Hash}

/-! ### Definitions that come and are used -/

theorem CForestCache.Promoted.skeleton (h : Promoted p r s t) (hp : s.heap p = some r) :
    t.skeleton = s.skeleton := by
  have hnode : (fun a => (t.heap a).map CClassRecord.shape) =
      fun a => (s.heap a).map CClassRecord.shape := by
    funext a
    by_cases hap : a = p
    · subst hap
      obtain ⟨r', now, hr', hdata⟩ := h.own
      rw [hr', hp, Option.map_some, Option.map_some]
      change some r'.data.shape = _
      rw [hdata]
      rfl
    · have hshape : ∀ u : CForestCache Hash Obj, (u.heap a).map CClassRecord.shape =
          ((u.heap a).map CClassRecord.data).map CClassRecord.shape := by
        intro u
        rw [Option.map_map]
        rfl
      rw [hshape, hshape, h.others a hap]
  rw [CForestCache.skeleton, CForestCache.skeleton, hnode, h.rest]

theorem CForestCache.Promoted.own_eq (h : Promoted p r s t) : ∃ r', t.heap p = some r' ∧
    r'.classDef = r.classDef ∧ r'.classDefSize = r.classDefSize := by
  obtain ⟨r', now, hr', hdata⟩ := h.own
  refine ⟨r', hr', ?_, ?_⟩
  · change r'.data.classDef = _
    rw [hdata]
    rfl
  · change r'.data.classDefSize = _
    rw [hdata]
    rfl

theorem mem_iff_of_defs {a : ℕ} (h : t.defs a = s.defs a) (hs : s.Lru ns)
    {m : CClassRecord Hash Obj} (hm : t.heap a = some m) : a ∈ ns ↔ m.classDef ≠ none := by
  rw [defs, hm] at h
  obtain ⟨m', hm', heq⟩ := Option.map_eq_some_iff.mp h.symm
  rw [← heq]
  exact hs.mem a m' hm'

/-- A record of the chain becomes the most recently used one. -/
theorem CForestCache.Lru.promoted (h : s.Lru ns) (hp : s.heap p = some r) (hmem : p ∈ ns)
    (hch : t.Chained (ns.erase p ++ [p])) (hpro : Promoted p r s t) :
    t.Lru (ns.erase p ++ [p]) := by
  obtain ⟨r', hr', hdef, hsize⟩ := hpro.own_eq
  have hperm : ∀ a, a ∈ ns.erase p ++ [p] ↔ a ∈ ns := by
    intro a
    by_cases hap : a = p
    · subst hap
      simp [hmem]
    · simp [hap, List.mem_erase_of_ne hap]
  have hdefs : ∀ a, t.defs a = s.defs a := by
    intro a
    by_cases hap : a = p
    · subst hap
      rw [defs, defs, hr', hp, Option.map_some, Option.map_some, hdef]
    · exact defs_of_data (hpro.others a hap)
  have hsizes : ∀ a, t.sizeAt a = s.sizeAt a := by
    intro a
    by_cases hap : a = p
    · subst hap
      simp [sizeAt, hr', hp, hsize]
    · exact sizeAt_of_data (hpro.others a hap)
  have htotal : t.totalMemory = s.totalMemory := by rw [hpro.rest]
  refine ⟨hch, fun a m hm => (hperm a).trans (mem_iff_of_defs (hdefs a) h hm), ?_, htotal ▸ h.small⟩
  rw [htotal, h.total, ← sum_sizes_erase hmem, funext hsizes, List.map_append, List.sum_append,
    Nat.add_comm]
  rfl

/-- A record outside of the chain comes to its end with a definition. -/
theorem CForestCache.Lru.append (h : s.Lru ns) (hp : p ∉ ns) (hch : t.Chained (ns ++ [p]))
    (hothers : ∀ a, a ≠ p → (t.heap a).map CClassRecord.data = (s.heap a).map CClassRecord.data)
    (hown : ∃ r, t.heap p = some r ∧ r.classDef ≠ none)
    (htotal : t.totalMemory = s.totalMemory + t.sizeAt p) (hsmall : t.totalMemory < 2 ^ 32) :
    t.Lru (ns ++ [p]) := by
  obtain ⟨r, hr, hdef⟩ := hown
  refine ⟨hch, fun a m hm => ?_, ?_, hsmall⟩
  · by_cases hap : a = p
    · subst hap
      rw [hr] at hm
      obtain rfl := Option.some.inj hm
      simp [hdef]
    · have hmem : a ∈ ns ++ [p] ↔ a ∈ ns := by simp [hap]
      exact hmem.trans (mem_iff_of_defs (defs_of_data (hothers a hap)) h hm)
  · have hsizes : ns.map t.sizeAt = ns.map s.sizeAt := by
      refine List.map_congr_left fun a ha => sizeAt_of_data (hothers a fun heq => ?_)
      exact hp (heq ▸ ha)
    rw [htotal, h.total, List.map_append, List.sum_append, hsizes]
    rfl

theorem runs_getClassDefFromRecord {clone : Obj → Option Obj} (h : Held K M s)
    (hp : s.heap p = some r) :
    Runs (getClassDefFromRecord clone p) (fun _ t => Held K M t) s := by
  rw [Runs, getClassDefFromRecord, wp_bind, wp_record hp]
  rcases hdef : r.classDef with _ | classDef
  · exact h
  obtain ⟨ns, hlru⟩ := h.lru
  have hmem : p ∈ ns := (hlru.mem p r hp).mpr (by simp [hdef])
  simp only
  rw [wp_bind]
  refine (runs_makeMostRecentlyUsed hlru.chained hp).mono fun _ t ht => ?_
  obtain ⟨hch, hpro⟩ := ht
  rw [wp_pure]
  refine ⟨⟨_, hlru.promoted hp hmem hch hpro⟩, ?_, (hpro.skeleton hp).trans h.skeleton, ?_, ?_⟩
  · rw [hpro.rest]
    exact h.init
  · rw [hpro.rest]
    exact h.max
  · rw [hpro.rest]
    exact h.room

/-- A definition for which there is room is stored in a record that has none. -/
theorem runs_storeDefinition {classDef : Obj} {dwSize nTime : ℕ} {bSystemClass : Bool}
    (h : Held K M s) (hp : s.heap p = some r) (hdef : r.classDef = none)
    (hroom : s.totalMemory + dwSize ≤ M) (hwrap : s.totalMemory + dwSize < 2 ^ 32) :
    Runs (storeDefinition p (some classDef) dwSize nTime bSystemClass)
      (fun _ t => Held K M t) s := by
  obtain ⟨ns, hlru⟩ := h.lru
  have hmem : p ∉ ns := fun hmem => (hlru.mem p r hp).mp hmem hdef
  rw [Runs, storeDefinition, wp_bind, wp_get, wp_bind, wp_update hp, wp_bind, wp_modify, add,
    wp_bind, wp_get, wp_ite]
  refine ⟨fun _ => ?_, fun hno => absurd h.init hno⟩
  -- the record as it is stored
  generalize hr₁ : ({ r with
    classDef := (some classDef).or r.classDef
    read := nTime ≠ 0
    classDefCachedTime := if nTime ≠ 0 then nTime else s.currentTime
    classDefSize := dwSize
    systemClass := bSystemClass } : CClassRecord Hash Obj) = r₁
  have hshape : r₁.shape = r.shape := by
    subst hr₁
    rfl
  have hdef₁ : r₁.classDef = some classDef := by
    subst hr₁
    rfl
  have hsize₁ : r₁.classDefSize = dwSize := by
    subst hr₁
    rfl
  have hp₁ : Function.update s.heap p (some r₁) p = some r₁ := Function.update_self ..
  have hmore₁ : r₁.moreRecentlyUsed = r.moreRecentlyUsed := by
    subst hr₁
    rfl
  have hless₁ : r₁.lessRecentlyUsed = r.lessRecentlyUsed := by
    subst hr₁
    rfl
  have hch : Chained { s with
      heap := Function.update s.heap p (some r₁)
      currentTime := if nTime ≠ 0 then s.currentTime else s.currentTime + 1 } ns :=
    hlru.chained.put hp hmore₁ hless₁ rfl rfl rfl rfl
  rw [wp_bind]
  refine (runs_makeMostRecentlyUsed hch hp₁).mono fun _ t ht => ?_
  obtain ⟨hch', hpro⟩ := ht
  rw [List.erase_of_not_mem hmem] at hch'
  obtain ⟨r', hr', hdef', hsize'⟩ := hpro.own_eq
  have htotal : t.totalMemory = s.totalMemory := by rw [hpro.rest]
  rw [wp_bind, wp_record hr', wp_modify, hsize', hsize₁, htotal, Nat.mod_eq_of_lt hwrap]
  refine ⟨⟨ns ++ [p], hlru.append hmem ?_ (fun a hap => ?_) ⟨r', hr', ?_⟩ ?_ hwrap⟩, ?_, ?_, ?_,
    hroom⟩
  · exact ⟨hch'.chain, hch'.allocated, hch'.loose, hch'.bound⟩
  · exact (hpro.others a hap).trans
      (congrArg (Option.map CClassRecord.data) (Function.update_of_ne hap _ _))
  · simp [hdef', hdef₁]
  · change s.totalMemory + dwSize =
      s.totalMemory + ((t.heap p).map CClassRecord.classDefSize).getD 0
    rw [hr', Option.map_some, Option.getD_some, hsize', hsize₁]
  · change t.init = true
    rw [hpro.rest]
    exact h.init
  · change t.skeleton = K
    rw [hpro.skeleton hp₁]
    change CForestCache.skeleton { s with heap := Function.update s.heap p (some r₁) } = K
    rw [skeleton_update, h.skeleton, Option.map_some, hshape, ← h.node hp, put_self]
  · change t.maxMemory = M
    rw [hpro.rest]
    exact h.max

theorem runs_makeRoom_held {dwSize : ℕ} (h : Held K M s)
    (hwrap : dwSize ≤ M → s.totalMemory + dwSize < 2 ^ 32) :
    Runs (makeRoom dwSize) (fun b t => Held K M t ∧ Evicted s t ∧
      (b = true → t.totalMemory + dwSize ≤ M) ∧ (b = false → M < dwSize)) s := by
  obtain ⟨ns, hlru⟩ := h.lru
  refine (runs_makeRoom hlru h.init (h.max.symm ▸ hwrap)).mono fun b t ht => ?_
  obtain ⟨hlru', hev, htrue, hfalse⟩ := ht
  rw [h.max] at htrue hfalse
  exact ⟨h.evicted hev hlru', hev, htrue, fun hb => (hfalse hb).2⟩

/-- The definition can be stored: its size does not wrap the sum of sizes, and a clone is one. -/
def Storable (s : CForestCache Hash Obj) (p : ℕ) (pClass : WmiObject Obj) (bClone : Bool) : Prop :=
  ∀ r keyed dwSize, s.heap p = some r → pClass.keyed = .ok keyed → pClass.memory = .ok dwSize →
    dwSize ≤ s.maxMemory →
    s.totalMemory - (if r.classDef.isSome then r.classDefSize else 0) + dwSize < 2 ^ 32 ∧
      (bClone = true → pClass.clone ≠ .ok none)

theorem runs_assertDefinition {pClass : WmiObject Obj} {bClone bSystemClass : Bool} {nTime : ℕ}
    (h : Held K M s) (hp : s.heap p = some r) (hstore : Storable s p pClass bClone) :
    Runs (assertDefinition p pClass bClone nTime bSystemClass) (fun _ t => Held K M t) s := by
  rw [Runs, assertDefinition]
  rcases hkeyed : pClass.keyed with hres | keyed
  · exact h
  simp only
  rw [wp_bind, wp_update hp]
  have h₁ := runs_update_flags (f := fun r => { r with
    isKeyed := if keyed then .keyed else .notKeyed }) h hp (fun _ => ⟨rfl, rfl, rfl, rfl⟩) rfl
  rw [Runs, wp_update hp] at h₁
  obtain ⟨h₁, hr₁, -⟩ := h₁
  rw [wp_bind]
  refine (runs_removeRecord_held h₁ hr₁).mono fun _ t₂ h₂ => ?_
  obtain ⟨h₂, hr₂, htotal⟩ := h₂
  rcases hmemory : pClass.memory with (_ | hres) | dwSize
  · exact h₂
  · exact h₂
  simp only
  have hfits : dwSize ≤ M → t₂.totalMemory + dwSize < 2 ^ 32 ∧
      (bClone = true → pClass.clone ≠ .ok none) := by
    intro hle
    have hst := hstore r keyed dwSize hp hkeyed hmemory (h.max.symm ▸ hle)
    rw [htotal]
    exact hst
  rw [wp_bind]
  refine (runs_makeRoom_held h₂ fun hle => (hfits hle).1).mono fun b t₃ h₃ => ?_
  obtain ⟨h₃, hev, htrue, -⟩ := h₃
  rw [wp_ite]
  refine ⟨fun hb => ?_, fun _ => h₃⟩
  have hroom := htrue hb
  have hle : dwSize ≤ M := by omega
  obtain ⟨hsum, hclone⟩ := hfits hle
  have hnone : t₃.defs p = some none := hev.lost p (by rw [defs, hr₂]; rfl)
  obtain ⟨r₃, hr₃, hdef₃⟩ := Option.map_eq_some_iff.mp hnone
  have hev_total := hev.total
  have hstored : ∀ classDef : Obj, Runs (do
      storeDefinition p (some classDef) dwSize nTime bSystemClass
      return CacheResult.noError) (fun _ t => Held K M t) t₃ := by
    intro classDef
    rw [Runs, wp_bind]
    exact runs_storeDefinition h₃ hr₃ hdef₃ hroom (by omega)
  cases bClone with
  | false => exact hstored pClass.self
  | true =>
    simp only [if_true]
    rcases hcl : pClass.clone with hres | (_ | classDef)
    · exact h₃
    · exact absurd hcl (hclone rfl)
    · exact hstored classDef

/-! ### New records and new edges -/

section keys
variable [DecidableEq Hash] {A51Hash : String → Hash} {nsp : ℕ} {name : String}

omit [DecidableEq Hash] in
theorem CForestCache.Lru.enter {key : ℕ × Hash} {now : ℕ} (h : s.Lru ns) :
    Lru { s with
      heap := Function.update s.heap s.fresh (some (newRecord name key now))
      fresh := s.fresh + 1
      map := (key, s.fresh) :: s.map } ns := by
  have hne : ∀ a ∈ ns, a ≠ s.fresh := fun a ha => Nat.ne_of_lt (h.chained.lt_fresh ha)
  refine ⟨⟨h.chained.chain.congr (fun a ha => ?_) fun a ha => ?_, fun a ha => ?_,
    fun a m ha hnot => ?_, fun a m ha => ?_⟩, fun a m ha => ?_, ?_, h.small⟩
  · simp [more, Function.update_of_ne (hne a ha)]
  · simp [less, Function.update_of_ne (hne a ha)]
  · obtain ⟨m, hm⟩ := h.chained.allocated a ha
    exact ⟨m, (Function.update_of_ne (hne a ha) _ _).trans hm⟩
  · rcases update_eq_some ha with ⟨-, hm⟩ | ⟨-, hm⟩
    · obtain rfl := Option.some.inj hm
      exact ⟨rfl, rfl⟩
    · exact h.chained.loose a m hm hnot
  · rcases update_eq_some ha with ⟨rfl, -⟩ | ⟨-, hm⟩
    · exact Nat.lt_succ_self _
    · exact Nat.lt_succ_of_lt (h.chained.bound a m hm)
  · rcases update_eq_some ha with ⟨rfl, hm⟩ | ⟨-, hm⟩
    · obtain rfl := Option.some.inj hm
      exact ⟨fun hmem => absurd rfl (hne _ hmem), fun hdef => absurd rfl hdef⟩
    · exact h.mem a m hm
  · refine h.total.trans (congrArg List.sum (List.map_congr_left fun a ha => ?_))
    simp [sizeAt, Function.update_of_ne (hne a ha)]

/-- The tree `K'` has all records of `K` and may have more. -/
structure Grown (K K' : Skeleton Hash) : Prop where
  tree : K'.Tree
  single : K'.Single
  kept : ∀ a n, K.node a = some n → K'.node a = some n

omit [DecidableEq Hash] in
theorem Held.fresh_eq (h : Held K M s) : s.fresh = K.fresh := by
  rw [← h.skeleton]
  rfl

theorem runs_ensureClass (hK : K.Tree) (hone : K.Single) (h : Held K M s) :
    Runs (ensureClass A51Hash nsp name) (fun o t => ∃ K', Held K' M t ∧ Grown K K' ∧
      ∀ p, o = some p → ∃ n, K'.node p = some n ∧ n.key = (nsp, A51Hash name)) s := by
  have hsame : Grown K K := ⟨hK, hone, fun _ _ => id⟩
  rw [Runs, ensureClass, wp_bind]
  refine (runs_makeKey h).mono fun o t₁ h₁ => ?_
  obtain ⟨h₁, hkey⟩ := h₁
  cases o with
  | none => exact ⟨K, h₁, hsame, fun _ hp => by cases hp⟩
  | some key =>
    obtain rfl := hkey key rfl
    rw [wp_bind, wp_get]
    rcases hf : t₁.find (nsp, A51Hash name) with _ | p
    · rw [wp_bind]
      refine (runs_allocate h₁).mono fun b t₂ h₂ => ?_
      rw [wp_ite]
      refine ⟨fun _ => ⟨K, h₂, hsame, fun _ hp => by cases hp⟩, fun _ => ?_⟩
      rw [wp_bind]
      refine wp_getTickCount fun now ts => ?_
      have h₃ := h₂.of_eq (t := { t₂ with ticks := ts }) rfl rfl rfl rfl rfl rfl rfl rfl
      rw [wp_bind]
      refine (runs_allocate h₃).mono fun b' t₄ h₄ => ?_
      rw [wp_ite]
      refine ⟨fun _ => ⟨K, h₄, hsame, fun _ hp => by cases hp⟩, fun _ => ?_⟩
      rw [wp_bind, wp_get, wp_bind, wp_modify, wp_pure]
      obtain ⟨ns, hlru⟩ := h₄.lru
      have hfresh := h₄.fresh_eq
      refine ⟨K.insert (nsp, A51Hash name), ⟨⟨ns, hlru.enter⟩, h₄.init, ?_, h₄.max, h₄.room⟩,
        ⟨hK.insert (h₁.find_none hf), hone.insert, fun a n ha => hK.insert_node ha⟩, fun p hp => ?_⟩
      · rw [← h₄.skeleton]
        have hnode := congrArg Skeleton.node (skeleton_update (s := t₄) (p := t₄.fresh)
          (o := some (newRecord name (nsp, A51Hash name) now)))
        exact Skeleton.ext hnode rfl rfl
      · obtain rfl := Option.some.inj hp
        rw [hfresh]
        exact ⟨_, insert_fresh, rfl⟩
    · obtain ⟨n, hn, hk⟩ := hK.entry _ (h₁.find_mem hf)
      refine ⟨K, h₁, hsame, fun p' hp' => ?_⟩
      obtain rfl := Option.some.inj hp'
      exact ⟨n, hn, hk⟩

/-- The record may become a child of the one at `o`: it stays under its parent, or it has none and
the other is neither itself nor below it, and the list of children can grow. -/
def Placeable (s : CForestCache Hash Obj) (p : ℕ) (o : Option ℕ) : Prop :=
  ∀ r, s.heap p = some r → (∀ q, r.parent = some q → o = some q) ∧
    (r.parent = none → ∀ q, o = some q → q ∉ s.skeleton.subtree p ∧ s.allocs.head? ≠ some false)

omit [DecidableEq Hash] in
theorem runs_allocate_true (h : Held K M s) (hhead : s.allocs.head? ≠ some false) :
    Runs allocate (fun b t => b = true ∧ Held K M t ∧ ∃ bs, t = { s with allocs := bs }) s := by
  rw [Runs, allocate, wp_bind, wp_get]
  rcases hbs : s.allocs with _ | ⟨b, bs⟩
  · exact ⟨rfl, h, [], by rw [← hbs]⟩
  · simp only
    rw [wp_bind, wp_modify, wp_pure]
    refine ⟨?_, h.of_eq rfl rfl rfl rfl rfl rfl rfl rfl, bs, rfl⟩
    rw [hbs] at hhead
    cases b with
    | false => exact absurd rfl hhead
    | true => rfl

omit [DecidableEq Hash] in
theorem runs_assertParent {o : Option ℕ} (hK : K.Tree) (hone : K.Single) (h : Held K M s)
    (hp : K.node p = some n) (ho : ∀ q, o = some q → ∃ m, K.node q = some m ∧ m.key.1 = n.key.1)
    (hplace : Placeable s p o) :
    Runs (assertParent p o) (fun _ t => ∃ K', Held K' M t ∧ K'.Tree ∧ K'.Single ∧
      (∃ x, K'.node p = some x) ∧ t.totalMemory = s.totalMemory ∧ t.maxMemory = s.maxMemory ∧
      ∀ r, s.heap p = some r → ∃ r', t.heap p = some r' ∧ r'.classDef = r.classDef ∧
        r'.classDefSize = r.classDefSize) s := by
  obtain ⟨r, hr, hshape⟩ := h.record hp
  obtain ⟨hsame, hnew⟩ := hplace r hr
  have hpar : r.parent = n.parent := by
    rw [← hshape]
    rfl
  have h₁ := runs_update (f := fun r => { r with parent := o }) h hr fun _ => ⟨rfl, rfl, rfl, rfl⟩
  rw [Runs, wp_update hr] at h₁
  obtain ⟨h₁, hr₁, -⟩ := h₁
  have hshape₁ : CClassRecord.shape { r with parent := o } = { n with parent := o } := by
    rw [← hshape]
    rfl
  rw [hshape₁] at h₁
  have hkept : n.parent = o → Held K M { s with
      heap := Function.update s.heap p (some { r with parent := o }) } := by
    intro hno
    have heq : { n with parent := o } = n := by
      rw [← hno]
    rwa [heq, ← hp, put_self] at h₁
  cases o with
  | none =>
    rw [Runs, assertParent, wp_bind, wp_update hr]
    have hno : n.parent = none := by
      rcases hn : n.parent with _ | q
      · rfl
      · cases hsame q (hpar.trans hn)
    exact ⟨K, hkept hno, hK, hone, ⟨n, hp⟩, rfl, rfl, fun r' hr' => by
      obtain rfl := Option.some.inj (hr.symm.trans hr')
      exact ⟨_, Function.update_self .., rfl, rfl⟩⟩
  | some q =>
    obtain ⟨m, hm, hns⟩ := ho q rfl
    rw [Runs, assertParent, wp_bind, wp_update hr, wp_bind, ensureChild, wp_bind]
    rcases hn : n.parent with _ | q'
    · obtain ⟨hbelow, hhead⟩ := hnew (hpar.trans hn) q rfl
      rw [h.skeleton] at hbelow
      have hqp : q ≠ p := fun heq => hbelow (heq ▸ mem_subtree_self)
      obtain ⟨rq, hrq, hshapeq⟩ := h₁.record (p := q) ((put_node_of_ne hqp).trans hm)
      have hnot : p ∉ rq.children := by
        have hno := hK.not_listed hp hm (by simp [hn])
        rw [← hshapeq] at hno
        exact hno
      rw [wp_record hrq, wp_ite]
      refine ⟨fun hmem => absurd hmem hnot, fun _ => ?_⟩
      rw [wp_bind]
      refine (runs_allocate_true h₁ hhead).mono fun b t ht => ?_
      obtain ⟨rfl, ht, bs, heq⟩ := ht
      have hrq' : t.heap q = some rq := by
        rw [heq]
        exact hrq
      subst heq
      rw [wp_ite]
      refine ⟨fun hdone => (by cases hdone), fun _ => ?_⟩
      rw [wp_bind, wp_update hrq', wp_pure]
      have h₂ := runs_update (f := fun n => { n with children := n.children ++ [p] }) ht hrq'
        fun _ => ⟨rfl, rfl, rfl, rfl⟩
      rw [Runs, wp_update hrq'] at h₂
      have hshape₂ : CClassRecord.shape { rq with children := rq.children ++ [p] } =
          { m with children := m.children ++ [p] } := by
        rw [← hshapeq]
        rfl
      rw [hshape₂] at h₂
      refine ⟨K.link p q n m, h₂.1, hK.link hp hn hm hbelow hns, hone.link hp hm hqp,
        ⟨_, (Function.update_of_ne hqp.symm _ _).trans (Function.update_self p _ _)⟩, rfl, rfl,
        fun r' hr' => ?_⟩
      obtain rfl := Option.some.inj (hr.symm.trans hr')
      exact ⟨_, (Function.update_of_ne hqp.symm _ _).trans (Function.update_self p _ _), rfl, rfl⟩
    · obtain rfl : q' = q := (Option.some.inj (hsame q' (hpar.trans hn))).symm
      obtain ⟨m', hm', hmem, -⟩ := hK.parent p n q' hp hn
      obtain ⟨rq, hrq, hshapeq⟩ := (hkept hn).record hm'
      rw [wp_record hrq, wp_ite]
      refine ⟨fun _ => ?_, fun hnot => absurd ?_ hnot⟩
      · exact ⟨K, hkept hn, hK, hone, ⟨n, hp⟩, rfl, rfl, fun r' hr' => by
          obtain rfl := Option.some.inj (hr.symm.trans hr')
          exact ⟨_, Function.update_self .., rfl, rfl⟩⟩
      · rw [← hshapeq] at hmem
        exact hmem

theorem runs_assertRecord {pClass : WmiObject Obj} {wszClassName : Option String} (hK : K.Tree)
    (hone : K.Single) (h : Held K M s) :
    Runs (assertRecord A51Hash nsp pClass wszClassName) (fun x t => ∃ K', Held K' M t ∧ Grown K K' ∧
      ∀ p, x = .ok p → ∃ n, K'.node p = some n ∧ n.key.1 = nsp) s := by
  rw [Runs, assertRecord.eq_def]
  rcases wszClassName.or pClass.className with _ | name
  · exact ⟨K, h, ⟨hK, hone, fun _ _ => id⟩, fun _ hp => by cases hp⟩
  · simp only
    rw [wp_bind]
    refine (runs_ensureClass hK hone h).mono fun o t ht => ?_
    obtain ⟨K', h', hgrown, hnode⟩ := ht
    cases o with
    | none => exact ⟨K', h', hgrown, fun _ hp => by cases hp⟩
    | some p =>
      refine ⟨K', h', hgrown, fun p' hp' => ?_⟩
      cases hp'
      obtain ⟨n, hn, hkey⟩ := hnode p rfl
      exact ⟨n, hn, by rw [hkey]⟩

/-- The records that `AssertClass` gets for the class and its superclass. -/
def assertPlace (A51Hash : String → Hash) (nsp : ℕ) (pClass : WmiObject Obj)
    (wszClassName : Option String) : CacheM Hash Obj (Option (ℕ × Option ℕ)) := do
  match ← assertRecord A51Hash nsp pClass wszClassName with
  | .error _ => return none
  | .ok p => do
    match pClass.superclass with
    | .error _ => return none
    | .ok wszSuper => return some (p, ← ensureClass A51Hash nsp (wszSuper.getD ""))

/-- The class keeps its place in the tree or gets a first one, and its definition can be stored. -/
def Assertable (A51Hash : String → Hash) (nsp : ℕ) (pClass : WmiObject Obj)
    (wszClassName : Option String) (bClone : Bool) (s : CForestCache Hash Obj) : Prop :=
  wp (assertPlace A51Hash nsp pClass wszClassName)
    (fun x t => ∀ p o, x = some (p, o) → Placeable t p o ∧ Storable t p pClass bClone)
    (fun _ _ => True) s

theorem runs_assertClass {pClass : WmiObject Obj} {wszClassName : Option String}
    {bClone bSystemClass : Bool} {nTime : ℕ} (hK : K.Tree) (hone : K.Single) (h : Held K M s)
    (hok : Assertable A51Hash nsp pClass wszClassName bClone s) :
    Runs (assertClass A51Hash nsp pClass wszClassName bClone nTime bSystemClass)
      (fun _ t => ∃ K', Held K' M t ∧ K'.Tree ∧ K'.Single) s := by
  rw [Assertable, assertPlace, wp_bind] at hok
  rw [Runs, assertClass, wp_bind]
  refine wp_mono (wp_and (runs_assertRecord hK hone h) hok) (fun x t₁ h₁ => ?_) fun _ _ he => he.1
  obtain ⟨⟨K₁, h₁, hgrown₁, hnode₁⟩, hok₁⟩ := h₁
  cases x with
  | error hres => exact ⟨K₁, h₁, hgrown₁.tree, hgrown₁.single⟩
  | ok p =>
    obtain ⟨n, hn, hns⟩ := hnode₁ p rfl
    rcases hsuper : pClass.superclass with hres | wszSuper
    · exact ⟨K₁, h₁, hgrown₁.tree, hgrown₁.single⟩
    simp only [hsuper] at hok₁ ⊢
    rw [wp_bind] at hok₁ ⊢
    refine wp_mono (wp_and (runs_ensureClass hgrown₁.tree hgrown₁.single h₁) hok₁)
      (fun o t₂ h₂ => ?_) fun _ _ he => he.1
    obtain ⟨⟨K₂, h₂, hgrown₂, hnode₂⟩, hok₂⟩ := h₂
    obtain ⟨hplace, hstore⟩ := hok₂ p o rfl
    have hparent : ∀ q, o = some q → ∃ m, K₂.node q = some m ∧ m.key.1 = n.key.1 := by
      intro q hq
      obtain ⟨m, hm, hkey⟩ := hnode₂ q hq
      exact ⟨m, hm, by rw [hkey, hns]⟩
    rw [wp_bind]
    refine (runs_assertParent hgrown₂.tree hgrown₂.single h₂ (hgrown₂.kept p n hn) hparent
      hplace).mono fun _ t₃ h₃ => ?_
    obtain ⟨K₃, h₃, hK₃, hone₃, ⟨x, hx⟩, htotal, hmax, hown⟩ := h₃
    obtain ⟨r₂, hr₂, -⟩ := h₂.record (hgrown₂.kept p n hn)
    obtain ⟨r₃, hr₃, hdef, hsize⟩ := hown r₂ hr₂
    have hstore₃ : Storable t₃ p pClass bClone := by
      intro r keyed dwSize hr hkeyed hmemory hle
      obtain rfl := Option.some.inj (hr₃.symm.trans hr)
      rw [htotal, hdef, hsize]
      exact hstore r₂ keyed dwSize hr₂ hkeyed hmemory (hmax ▸ hle)
    exact (runs_assertDefinition h₃ hr₃ hstore₃).mono fun _ t ht => ⟨K₃, ht, hK₃, hone₃⟩

/-! ### Lookups -/

theorem runs_getClassDef {clone : Obj → Option Obj} (hK : K.Tree) (h : Held K M s) :
    Runs (getClassDef A51Hash nsp name clone) (fun _ t => Held K M t) s := by
  rw [Runs, getClassDef, wp_bind]
  refine (runs_findClass h).mono fun o t₁ h₁ => ?_
  obtain ⟨h₁, hfound⟩ := h₁
  cases o with
  | none => exact h₁
  | some p =>
    obtain ⟨n, hn, -⟩ := hK.entry _ (hfound p rfl)
    obtain ⟨r, hr, -⟩ := h₁.record hn
    simp only
    rw [wp_bind, wp_record hr, wp_bind]
    exact (runs_getClassDefFromRecord h₁ hr).mono fun _ t ht => ht

theorem runs_getClassDefByHash {key : ℕ × Hash} {clone : Obj → Option Obj} (hK : K.Tree)
    (h : Held K M s) : Runs (getClassDefByHash key clone) (fun _ t => Held K M t) s := by
  rw [Runs, getClassDefByHash, wp_bind, wp_get]
  rcases hf : s.find key with _ | p
  · exact h
  · obtain ⟨n, hn, -⟩ := hK.entry _ (h.find_mem hf)
    obtain ⟨r, hr, -⟩ := h.record hn
    simp only
    rw [wp_bind, wp_record hr, wp_bind]
    exact (runs_getClassDefFromRecord h hr).mono fun _ t ht => ht

theorem runs_getParent (hK : K.Tree) (h : Held K M s) :
    Runs (getParent A51Hash nsp name) (fun _ t => Held K M t) s := by
  rw [Runs, getParent, wp_bind]
  refine (runs_findClass h).mono fun o t₁ h₁ => ?_
  obtain ⟨h₁, hfound⟩ := h₁
  cases o with
  | none => exact h₁
  | some p =>
    obtain ⟨n, hn, -⟩ := hK.entry _ (hfound p rfl)
    obtain ⟨r, hr, hshape⟩ := h₁.record hn
    simp only
    rw [wp_bind, wp_record hr]
    rcases hq : r.parent with _ | q
    · exact h₁
    · have hpar : n.parent = some q := by
        rw [← hshape]
        exact hq
      obtain ⟨m, hm, -⟩ := hK.parent p n q hn hpar
      simp only
      rw [wp_bind]
      refine (runs_allocate h₁).mono fun b t₂ h₂ => ?_
      obtain ⟨rq, hrq, -⟩ := h₂.record hm
      rw [wp_ite]
      refine ⟨fun _ => ?_, fun _ => h₂⟩
      rw [wp_bind, wp_record hrq]
      exact h₂

/-! ### Limits and `Clear` -/

omit [DecidableEq Hash] in
theorem runs_setMaxMemory {dwMaxMemory dwMaxAgeMs : ℕ} (h : Held K M s) :
    Runs (setMaxMemory dwMaxMemory dwMaxAgeMs) (fun _ t => Held K dwMaxMemory t) s := by
  rw [Runs, setMaxMemory, wp_bind, wp_modify]
  obtain ⟨ns, hlru⟩ := h.lru
  have hlru' : Lru { s with maxMemory := dwMaxMemory, maxAgeMs := dwMaxAgeMs } ns :=
    hlru.of_eq rfl rfl rfl rfl rfl
  refine (runs_makeRoom hlru' h.init fun _ => hlru.small).mono fun b t ht => ?_
  obtain ⟨hlru'', hev, htrue, hfalse⟩ := ht
  refine ⟨hlru'', hev.init.trans h.init, hev.skeleton.trans h.skeleton, hev.maxMemory, ?_⟩
  cases b with
  | true => exact htrue rfl
  | false => exact absurd (hfalse rfl).2 (Nat.not_lt_zero _)

omit [DecidableEq Hash] in
theorem runs_flush_held (h : Held K M s) :
    Runs flush (fun _ t => Held K M t ∧ Evicted s t) s := by
  obtain ⟨ns, hlru⟩ := h.lru
  refine (runs_flush hlru h.init).mono fun _ t ht => ?_
  exact ⟨h.evicted ht.2 ⟨[], ht.1⟩, ht.2⟩

theorem runs_clearEntries (hK : K.Tree) (hone : K.Single) (es : List ((ℕ × Hash) × ℕ)) {R : Set ℕ}
    (hes : ∀ e ∈ es, e ∈ K.map ∧ e.2 ∉ R) (hnodup : (es.map Prod.snd).Nodup)
    (h : Held (K.without R) M s) :
    Runs (clearEntries es)
      (fun _ t => Held (K.without (R ∪ {a | ∃ e ∈ es, e.2 = a})) M t) s := by
  induction es generalizing R s with
  | nil =>
    have hset : R ∪ {a | ∃ e ∈ ([] : List ((ℕ × Hash) × ℕ)), e.2 = a} = R := by
      ext a
      simp
    rw [hset]
    exact h
  | cons e es ih =>
    obtain ⟨hmem, hout⟩ := hes e List.mem_cons_self
    obtain ⟨n, hn, hkey⟩ := hK.entry e hmem
    obtain ⟨r, hr, hshape⟩ := h.record (p := e.2) (by rw [without_node hout, hn])
    have hlRef : r.lRef = 1 := by
      have hn1 := hone e.2 n hn
      rw [← hshape] at hn1
      exact hn1
    rw [Runs, clearEntries, wp_bind]
    refine (runs_removeRecord_held h hr).mono fun _ t₁ h₁ => ?_
    obtain ⟨h₁, hr₁, -⟩ := h₁
    rw [wp_bind]
    refine (runs_erase h₁ hr₁).mono fun _ t₂ h₂ => ?_
    obtain ⟨h₂, hr₂⟩ := h₂
    rw [wp_bind]
    refine (runs_release h₂ hr₂ rfl hlRef).mono fun _ t₃ h₃ => ?_
    rw [← hkey, hK.without_erase hn] at h₃
    have hnodup' := List.nodup_cons.mp hnodup
    refine (ih (fun e' he' => ?_) hnodup'.2 h₃).mono fun _ t ht => ?_
    · obtain ⟨hmem', hout'⟩ := hes e' (List.mem_cons_of_mem _ he')
      refine ⟨hmem', fun hR => hR.elim hout' fun heq => ?_⟩
      exact hnodup'.1 (List.mem_map.mpr ⟨e', he', heq⟩)
    · have hset : R ∪ {e.2} ∪ {a | ∃ e' ∈ es, e'.2 = a} = R ∪ {a | ∃ e' ∈ e :: es, e'.2 = a} := by
        ext a
        constructor
        · rintro ((hR | rfl) | ⟨e', he', rfl⟩)
          · exact Or.inl hR
          · exact Or.inr ⟨e, List.mem_cons_self, rfl⟩
          · exact Or.inr ⟨e', List.mem_cons_of_mem _ he', rfl⟩
        · rintro (hR | ⟨e', he', rfl⟩)
          · exact Or.inl (Or.inl hR)
          · rcases List.mem_cons.mp he' with rfl | he'
            · exact Or.inl (Or.inr rfl)
            · exact Or.inr ⟨e', he', rfl⟩
      rwa [hset] at ht

/-- Whole namespaces leave. -/
theorem runs_clear_namespaces (P : ℕ → Bool) (hK : K.Tree) (hone : K.Single) (h : Held K M s) :
    Runs (clearEntries (K.map.filter fun e => P e.1.1))
      (fun _ t => ∃ K', Held K' M t ∧ K'.Tree ∧ K'.Single) s := by
  have hkeys : K.map.Nodup := hK.keys.of_map
  have hinj : ∀ e ∈ K.map, ∀ e' ∈ K.map, e.2 = e'.2 → e = e' := fun e he e' he' heq =>
    Prod.ext ((hK.entry_inj he he').mpr heq) heq
  have hnodup : ((K.map.filter fun e => P e.1.1).map Prod.snd).Nodup :=
    (hkeys.map_on hinj).sublist (List.filter_sublist.map _)
  have hes : ∀ e ∈ K.map.filter fun e => P e.1.1, e ∈ K.map ∧ e.2 ∉ (∅ : Set ℕ) := fun e he =>
    ⟨(List.mem_filter.mp he).1, Set.notMem_empty _⟩
  have hstart : Held (K.without ∅) M s := by
    rw [without_empty]
    exact h
  -- what leaves are the records of these namespaces
  have hmem : ∀ a n, K.node a = some n →
      (a ∈ ∅ ∪ {a | ∃ e ∈ K.map.filter fun e => P e.1.1, e.2 = a} ↔ P n.key.1 = true) := by
    intro a n ha
    constructor
    · rintro (ha' | ⟨e, he, rfl⟩)
      · exact absurd ha' (Set.notMem_empty a)
      · obtain ⟨hmap, hP⟩ := List.mem_filter.mp he
        obtain ⟨n', hn', hkey⟩ := hK.entry e hmap
        obtain rfl := Option.some.inj (hn'.symm.trans ha)
        rw [hkey]
        exact hP
    · intro hP
      exact Or.inr ⟨(n.key, a), List.mem_filter.mpr ⟨hK.mapped a n ha, hP⟩, rfl⟩
  have hclosed : ∀ a q, K.Under a q →
      (a ∈ ∅ ∪ {a | ∃ e ∈ K.map.filter fun e => P e.1.1, e.2 = a} ↔
        q ∈ ∅ ∪ {a | ∃ e ∈ K.map.filter fun e => P e.1.1, e.2 = a}) := by
    rintro a q ⟨n, hn, hq⟩
    obtain ⟨m, hm, -, hns⟩ := hK.parent a n q hn hq
    rw [hmem a n hn, hmem q m hm, hns]
  refine (runs_clearEntries hK hone _ hes hnodup hstart).mono fun _ t ht => ?_
  rw [← hK.prune_of_closed fun a q haq => (hclosed a q haq).mp] at ht
  exact ⟨_, ht, hK.prune fun a q haq => (hclosed a q haq).mpr, hone.prune⟩

omit [DecidableEq Hash] in
theorem Held.map_eq (h : Held K M s) : s.map = K.map := by
  rw [← h.skeleton]
  rfl

theorem runs_clearNamespace (hK : K.Tree) (hone : K.Single) (h : Held K M s) :
    Runs (clearNamespace nsp) (fun _ t => ∃ K', Held K' M t ∧ K'.Tree ∧ K'.Single) s := by
  rw [Runs, clearNamespace, wp_bind, wp_get, h.map_eq]
  exact runs_clear_namespaces (fun x => x = nsp) hK hone h

theorem runs_clear (hK : K.Tree) (hone : K.Single) (h : Held K M s) :
    Runs clear (fun _ t => ∃ K', Held K' M t ∧ K'.Tree ∧ K'.Single) s := by
  rw [Runs, clear, wp_bind, wp_get, wp_ite]
  refine ⟨fun _ => ?_, fun hno => absurd h.init hno⟩
  rw [wp_bind]
  refine (runs_flush_held h).mono fun _ t ht => ?_
  have hall : K.map = K.map.filter fun _ => true := (List.filter_eq_self.mpr fun _ _ => rfl).symm
  rw [wp_bind, wp_get, ht.1.map_eq, hall]
  exact runs_clear_namespaces (fun _ => true) hK hone ht.1

end keys

end NtAdmin.Wmi.A51
