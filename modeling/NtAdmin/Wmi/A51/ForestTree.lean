import Mathlib.Data.Finset.Card
import Mathlib.Data.Finset.Range
import Mathlib.Data.Set.Basic
import Mathlib.Logic.Relation
import NtAdmin.Wmi.A51.ForestChain

/-! The tree of the class cache with its map: new records, new edges, and subtrees that leave. -/
namespace NtAdmin.Wmi.A51
open Lib

variable {Hash Obj : Type}

/-- The place of a record in the tree. -/
structure Shape (Hash : Type) where
  key : ℕ × Hash
  parent : Option ℕ
  children : List ℕ
  lRef : ℕ

/-- The tree and the map, by the addresses of the records. -/
@[ext]
structure Skeleton (Hash : Type) where
  node : ℕ → Option (Shape Hash)
  map : List ((ℕ × Hash) × ℕ)
  fresh : ℕ

def CClassRecord.shape (r : CClassRecord Hash Obj) : Shape Hash :=
  ⟨r.key, r.parent, r.children, r.lRef⟩

def CForestCache.skeleton (s : CForestCache Hash Obj) : Skeleton Hash :=
  ⟨fun a => (s.heap a).map CClassRecord.shape, s.map, s.fresh⟩

theorem update_eq_some {β : Type} {f : ℕ → Option β} {p a : ℕ} {x : Option β} {y : β}
    (h : Function.update f p x a = some y) : (a = p ∧ x = some y) ∨ (a ≠ p ∧ f a = some y) := by
  by_cases hap : a = p
  · subst hap
    rw [Function.update_self] at h
    exact Or.inl ⟨rfl, h⟩
  · rw [Function.update_of_ne hap] at h
    exact Or.inr ⟨hap, h⟩

namespace Skeleton
variable {K : Skeleton Hash} {p q a b c : ℕ} {n m : Shape Hash} {lv : ℕ → ℕ}

/-- The map finds each record by its key, and the links up and down belong together. -/
structure Tree (K : Skeleton Hash) : Prop where
  keys : (K.map.map Prod.fst).Nodup
  entry : ∀ e ∈ K.map, ∃ n, K.node e.2 = some n ∧ n.key = e.1
  mapped : ∀ a n, K.node a = some n → (n.key, a) ∈ K.map
  bound : ∀ a n, K.node a = some n → a < K.fresh
  child : ∀ a n c, K.node a = some n → c ∈ n.children →
    ∃ m, K.node c = some m ∧ m.parent = some a
  distinct : ∀ a n, K.node a = some n → n.children.Nodup
  parent : ∀ a n q, K.node a = some n → n.parent = some q →
    ∃ m, K.node q = some m ∧ a ∈ m.children ∧ m.key.1 = n.key.1
  ranked : ∃ rank : ℕ → ℕ, ∀ a n q, K.node a = some n → n.parent = some q → rank q < rank a

/-- Nothing but the map refers to a record. -/
def Single (K : Skeleton Hash) : Prop := ∀ a n, K.node a = some n → n.lRef = 1

/-- `q` is the parent of `a`. -/
def Under (K : Skeleton Hash) (a q : ℕ) : Prop := ∃ n, K.node a = some n ∧ n.parent = some q

/-- A record with all that is below it. -/
def subtree (K : Skeleton Hash) (p : ℕ) : Set ℕ := {a | Relation.ReflTransGen K.Under a p}

/-- The number of ancestors of each record. -/
structure Level (K : Skeleton Hash) (level : ℕ → ℕ) : Prop where
  succ : ∀ a q, K.Under a q → level a = level q + 1
  lt : ∀ a n, K.node a = some n → level a < K.fresh

theorem Under.unique (h : K.Under a b) (h' : K.Under a c) : b = c := by
  obtain ⟨n, hn, hb⟩ := h
  obtain ⟨m, hm, hc⟩ := h'
  obtain rfl : n = m := Option.some.inj (hn.symm.trans hm)
  exact Option.some.inj (hb.symm.trans hc)

theorem Tree.entry_inj (h : K.Tree) {e e' : (ℕ × Hash) × ℕ} (he : e ∈ K.map) (he' : e' ∈ K.map) :
    e.1 = e'.1 ↔ e.2 = e'.2 := by
  constructor
  · intro hk
    rw [List.inj_on_of_nodup_map h.keys he he' hk]
  · intro ha
    obtain ⟨n, hn, hk⟩ := h.entry e he
    obtain ⟨m, hm, hk'⟩ := h.entry e' he'
    rw [ha, hm] at hn
    cases hn
    exact hk.symm.trans hk'

open Classical in
/-- A tree has levels. -/
theorem Tree.level (h : K.Tree) : ∃ level, K.Level level := by
  obtain ⟨rank, hrank⟩ := h.ranked
  have hup : ∀ a b, Relation.TransGen K.Under a b → rank b < rank a := by
    intro a b hab
    induction hab with
    | single hab => exact hrank _ _ _ hab.choose_spec.1 hab.choose_spec.2
    | tail _ hbc ih => exact Nat.lt_trans (hrank _ _ _ hbc.choose_spec.1 hbc.choose_spec.2) ih
  have halive : ∀ a b, Relation.TransGen K.Under a b → b < K.fresh := by
    intro a b hab
    obtain ⟨c, -, n, hn, hp⟩ := Relation.TransGen.tail'_iff.mp hab
    obtain ⟨m, hm, -⟩ := h.parent c n b hn hp
    exact h.bound b m hm
  let anc : ℕ → Finset ℕ := fun a => (Finset.range K.fresh).filter (Relation.TransGen K.Under a)
  refine ⟨fun a => (anc a).card, fun a q hau => ?_, fun a n ha => ?_⟩
  · have hq' : q ∉ anc q := fun hmem =>
      Nat.lt_irrefl _ (hup q q (Finset.mem_filter.mp hmem).2)
    have hins : anc a = insert q (anc q) := by
      ext b
      rw [Finset.mem_insert]
      constructor
      · intro hb
        obtain ⟨hlt, hab⟩ := Finset.mem_filter.mp hb
        rcases Relation.TransGen.head'_iff.mp hab with ⟨c, hac, hcb⟩
        obtain rfl := hac.unique hau
        rcases Relation.reflTransGen_iff_eq_or_transGen.mp hcb with heq | hcb
        · exact Or.inl heq
        · exact Or.inr (Finset.mem_filter.mpr ⟨hlt, hcb⟩)
      · rintro (rfl | hb)
        · exact Finset.mem_filter.mpr ⟨Finset.mem_range.mpr (halive a b (.single hau)), .single hau⟩
        · obtain ⟨hlt, hqb⟩ := Finset.mem_filter.mp hb
          exact Finset.mem_filter.mpr ⟨hlt, Relation.TransGen.head hau hqb⟩
    show (anc a).card = (anc q).card + 1
    rw [hins, Finset.card_insert_of_notMem hq']
  · have hsub : anc a ⊆ (Finset.range K.fresh).erase a := by
      intro b hb
      obtain ⟨hlt, hab⟩ := Finset.mem_filter.mp hb
      refine Finset.mem_erase.mpr ⟨fun heq => ?_, hlt⟩
      subst heq
      exact Nat.lt_irrefl _ (hup b b hab)
    have hcard := Finset.card_le_card hsub
    have hmem : a ∈ Finset.range K.fresh := Finset.mem_range.mpr (h.bound a n ha)
    rw [Finset.card_erase_of_mem hmem, Finset.card_range] at hcard
    have := h.bound a n ha
    show (anc a).card < K.fresh
    omega

/-- A place of the tree is replaced or emptied. -/
def put (K : Skeleton Hash) (p : ℕ) (o : Option (Shape Hash)) : Skeleton Hash :=
  { K with node := Function.update K.node p o }

theorem put_self : K.put p (K.node p) = K := by
  rw [put, Function.update_eq_self]

theorem put_put {o o' : Option (Shape Hash)} :
    (K.put p o).put p o' = K.put p o' := by
  simp [put]

theorem put_comm {o o' : Option (Shape Hash)} (h : p ≠ q) :
    (K.put q o).put p o' = (K.put p o').put q o := by
  simp only [put, Function.update_comm h.symm o o' K.node]

theorem put_node {o : Option (Shape Hash)} :
    (K.put p o).node p = o := by
  exact Function.update_self p o K.node

theorem put_node_of_ne {o : Option (Shape Hash)}
    (h : a ≠ p) : (K.put p o).node a = K.node a := by
  exact Function.update_of_ne h o K.node

/-! ### Subtrees -/

theorem Level.le (h : K.Level lv) (hab : a ∈ K.subtree b) : lv b ≤ lv a := by
  induction hab with
  | refl => exact Nat.le_refl _
  | tail _ hbc ih =>
    have := h.succ _ _ hbc
    omega

theorem Tree.under (h : K.Tree) (hp : K.node p = some n) (hc : c ∈ n.children) : K.Under c p :=
  h.child p n c hp hc

theorem Tree.mem_children (h : K.Tree) (hp : K.node p = some n) (hc : K.Under c p) :
    c ∈ n.children := by
  obtain ⟨m, hm, hpar⟩ := hc
  obtain ⟨n', hn', hmem, -⟩ := h.parent c m p hm hpar
  rw [hp] at hn'
  cases hn'
  exact hmem

theorem Tree.mem_subtree (h : K.Tree) (hp : K.node p = some n) :
    a ∈ K.subtree p ↔ a = p ∨ ∃ c ∈ n.children, a ∈ K.subtree c := by
  constructor
  · intro ha
    rcases Relation.ReflTransGen.cases_tail ha with heq | ⟨c, hac, hcp⟩
    · exact Or.inl heq.symm
    · exact Or.inr ⟨c, h.mem_children hp hcp, hac⟩
  · rintro (rfl | ⟨c, hc, hac⟩)
    · exact Relation.ReflTransGen.refl
    · exact Relation.ReflTransGen.tail hac (h.under hp hc)

theorem mem_subtree_self : p ∈ K.subtree p := Relation.ReflTransGen.refl

/-- What is below a record. -/
def below (K : Skeleton Hash) (n : Shape Hash) : Set ℕ := {a | ∃ c ∈ n.children, a ∈ K.subtree c}

theorem Tree.subtree_eq (h : K.Tree) (hp : K.node p = some n) :
    K.subtree p = K.below n ∪ {p} := by
  ext a
  rw [h.mem_subtree hp, or_comm]
  exact Iff.rfl

theorem Level.not_mem_below (h : K.Level lv) (hcp : K.Under c p) : p ∉ K.subtree c := by
  intro hp
  have hle := h.le hp
  have := h.succ c p hcp
  omega

/-- The subtrees of two children have nothing in common. -/
theorem Level.sibling (h : K.Level lv) (hb : K.Under b p) (hc : K.Under c p)
    (hab : a ∈ K.subtree b) (hac : a ∈ K.subtree c) : b = c := by
  have hno : ∀ x y, K.Under x p → K.Under y p → x ∈ K.subtree y → x = y := by
    intro x y hx hy hxy
    rcases Relation.ReflTransGen.cases_head hxy with heq | ⟨z, hxz, hzy⟩
    · exact heq
    · obtain rfl := hxz.unique hx
      exact absurd hzy (h.not_mem_below hy)
  have hunique : Relator.RightUnique K.Under := fun x y z hy hz => hy.unique hz
  rcases Relation.ReflTransGen.total_of_right_unique hunique hab hac with hbc | hcb
  · exact hno b c hb hc hbc
  · exact (hno c b hc hb hcb).symm

/-- What is listed by a record outside of a subtree is in it only as its root. -/
theorem Tree.root_of_listed (h : K.Tree) (ha : K.node a = some n) (hnot : a ∉ K.subtree p)
    (hc : c ∈ n.children) (hcp : c ∈ K.subtree p) : c = p := by
  rcases Relation.ReflTransGen.cases_head hcp with heq | ⟨b, hcb, hbp⟩
  · exact heq
  · obtain rfl := hcb.unique (h.under ha hc)
    exact absurd hbp hnot

/-! ### Records that leave -/

open Classical in
/-- The records in `R` are gone, also from the map. -/
noncomputable def without (K : Skeleton Hash) (R : Set ℕ) : Skeleton Hash where
  node a := if a ∈ R then none else K.node a
  map := K.map.filter fun e => e.2 ∉ R
  fresh := K.fresh

open Classical in
/-- The records in `R` are gone, and no other record lists one of them. -/
noncomputable def prune (K : Skeleton Hash) (R : Set ℕ) : Skeleton Hash where
  node a := if a ∈ R then none
    else (K.node a).map fun n => { n with children := n.children.filter fun c => c ∉ R }
  map := K.map.filter fun e => e.2 ∉ R
  fresh := K.fresh

theorem without_node {R : Set ℕ} {a : ℕ} (h : a ∉ R) : (K.without R).node a = K.node a := by
  simp [without, h]

theorem without_node_of_mem {R : Set ℕ} {a : ℕ} (h : a ∈ R) : (K.without R).node a = none := by
  simp [without, h]

theorem without_empty : K.without ∅ = K := by
  refine Skeleton.ext ?_ ?_ rfl
  · funext a
    simp [without]
  · simp [without]

theorem prune_node {R : Set ℕ} (h : (K.prune R).node a = some n) : a ∉ R ∧
    ∃ m, K.node a = some m ∧ n.key = m.key ∧ n.parent = m.parent ∧ n.lRef = m.lRef ∧
      ∀ c, c ∈ n.children ↔ c ∈ m.children ∧ c ∉ R := by
  by_cases hR : a ∈ R
  · simp [prune, hR] at h
  · simp only [prune, hR, if_false, Option.map_eq_some_iff] at h
    obtain ⟨m, hm, rfl⟩ := h
    exact ⟨hR, m, hm, rfl, rfl, rfl, fun c => by simp⟩

open Classical in
theorem node_prune {R : Set ℕ} (hR : a ∉ R) (h : K.node a = some m) :
    ∃ n, (K.prune R).node a = some n ∧ n.key = m.key ∧ n.parent = m.parent ∧
      ∀ c, c ∈ n.children ↔ c ∈ m.children ∧ c ∉ R := by
  have hn : (K.prune R).node a =
      some { m with children := m.children.filter fun c => c ∉ R } := by
    simp only [prune, hR, if_false, h, Option.map_some]
  exact ⟨_, hn, rfl, rfl, fun c => by simp⟩

/-- A tree stays one where whole subtrees leave. -/
theorem Tree.prune {R : Set ℕ} (h : K.Tree) (hR : ∀ a q, K.Under a q → q ∈ R → a ∈ R) :
    (K.prune R).Tree := by
  obtain ⟨rank, hrank⟩ := h.ranked
  constructor
  · exact h.keys.sublist (List.filter_sublist.map _)
  · intro e he
    obtain ⟨he, hnot⟩ := List.mem_filter.mp he
    obtain ⟨m, hm, hkey⟩ := h.entry e he
    obtain ⟨n, hn, hk, -⟩ := node_prune (by simpa using hnot) hm
    exact ⟨n, hn, hk.trans hkey⟩
  · intro a n ha
    obtain ⟨hnot, m, hm, hk, -⟩ := prune_node ha
    refine List.mem_filter.mpr ⟨?_, by simpa using hnot⟩
    rw [hk]
    exact h.mapped a m hm
  · intro a n ha
    obtain ⟨-, m, hm, -⟩ := prune_node ha
    exact h.bound a m hm
  · intro a n c ha hc
    obtain ⟨hnot, m, hm, -, -, -, hmem⟩ := prune_node ha
    obtain ⟨hc, hcR⟩ := (hmem c).mp hc
    obtain ⟨mc, hmc, hpar⟩ := h.child a m c hm hc
    obtain ⟨nc, hnc, -, hp, -⟩ := node_prune hcR hmc
    exact ⟨nc, hnc, hp.trans hpar⟩
  · intro a n ha
    by_cases haR : a ∈ R
    · simp [Skeleton.prune, haR] at ha
    · simp only [Skeleton.prune, haR, if_false, Option.map_eq_some_iff] at ha
      obtain ⟨m, hm, rfl⟩ := ha
      exact (h.distinct a m hm).filter _
  · intro a n q ha hq
    obtain ⟨hnot, m, hm, hk, hp, -, -⟩ := prune_node ha
    rw [hp] at hq
    obtain ⟨mq, hmq, hmem, hns⟩ := h.parent a m q hm hq
    have hqR : q ∉ R := fun hqR => hnot (hR a q ⟨m, hm, hq⟩ hqR)
    obtain ⟨nq, hnq, hkq, -, hcq⟩ := node_prune hqR hmq
    refine ⟨nq, hnq, (hcq a).mpr ⟨hmem, hnot⟩, ?_⟩
    rw [hkq, hk]
    exact hns
  · refine ⟨rank, fun a n q ha hq => ?_⟩
    obtain ⟨-, m, hm, -, hp, -⟩ := prune_node ha
    exact hrank a m q hm (hp.symm.trans hq)

theorem Single.prune {R : Set ℕ} (h : K.Single) : (K.prune R).Single := by
  intro a n ha
  obtain ⟨-, m, hm, -, -, hl, -⟩ := prune_node ha
  exact hl.trans (h a m hm)

theorem subtree_closed (ha : K.Under a q) (hq : q ∈ K.subtree p) : a ∈ K.subtree p :=
  Relation.ReflTransGen.head ha hq

open Classical in
/-- A record outside of a subtree loses no child but the root. -/
theorem Tree.filter_children (h : K.Tree) (ha : K.node a = some n) (hnot : a ∉ K.subtree p) :
    n.children.filter (fun c => c ∉ K.subtree p) = n.children.erase p := by
  rw [(h.distinct a n ha).erase_eq_filter]
  refine List.filter_congr fun c hc => ?_
  rw [Bool.eq_iff_iff]
  simp only [decide_eq_true_eq, bne_iff_ne, not_iff_not]
  constructor
  · exact h.root_of_listed ha hnot hc
  · rintro rfl
    exact mem_subtree_self

theorem Tree.not_listed (h : K.Tree) (hp : K.node p = some n) (ha : K.node a = some m)
    (hpar : n.parent ≠ some a) : p ∉ m.children := by
  intro hmem
  obtain ⟨n', hn', heq⟩ := h.child a m p ha hmem
  rw [hp] at hn'
  cases hn'
  exact hpar heq

open Classical in
/-- The subtree of a root leaves. -/
theorem Tree.prune_of_root (h : K.Tree) (hp : K.node p = some n) (hroot : n.parent = none) :
    K.prune (K.subtree p) = K.without (K.subtree p) := by
  have hnode : (K.prune (K.subtree p)).node = (K.without (K.subtree p)).node := by
    funext a
    by_cases ha : a ∈ K.subtree p
    · simp [Skeleton.prune, without, ha]
    · rcases hn : K.node a with _ | x
      · simp [Skeleton.prune, without, ha, hn]
      · have hno := h.not_listed hp hn (by simp [hroot])
        simp only [Skeleton.prune, without, ha, if_false, hn, Option.map_some,
          h.filter_children hn ha, List.erase_of_not_mem hno]
  exact Skeleton.ext hnode rfl rfl

open Classical in
/-- The subtree of a child leaves, and its parent loses it. -/
theorem Tree.prune_of_child (h : K.Tree) (hl : K.Level lv) (hp : K.node p = some n)
    (hpar : n.parent = some q) (hq : K.node q = some m) :
    K.prune (K.subtree p) =
      (K.without (K.subtree p)).put q (some { m with children := m.children.erase p }) := by
  have hqp : q ∉ K.subtree p := by
    intro hmem
    have hle := hl.le hmem
    have := hl.succ p q ⟨n, hp, hpar⟩
    omega
  have hnode : (K.prune (K.subtree p)).node = Function.update (K.without (K.subtree p)).node q
      (some { m with children := m.children.erase p }) := by
    funext a
    by_cases haq : a = q
    · subst haq
      rw [Function.update_self]
      simp only [Skeleton.prune, hqp, if_false, hq, Option.map_some, h.filter_children hq hqp]
    · rw [Function.update_of_ne haq]
      by_cases ha : a ∈ K.subtree p
      · simp [Skeleton.prune, without, ha]
      · rcases hn : K.node a with _ | x
        · simp [Skeleton.prune, without, ha, hn]
        · have hno := h.not_listed hp hn fun heq => haq (Option.some.inj (hpar.symm.trans heq)).symm
          simp only [Skeleton.prune, without, ha, if_false, hn, Option.map_some,
            h.filter_children hn ha, List.erase_of_not_mem hno]
  exact Skeleton.ext hnode rfl rfl

open Classical in
/-- Where parents leave with their children, no list of children has to change. -/
theorem Tree.prune_of_closed {R : Set ℕ} (h : K.Tree) (hR : ∀ a q, K.Under a q → a ∈ R → q ∈ R) :
    K.prune R = K.without R := by
  have hnode : (K.prune R).node = (K.without R).node := by
    funext a
    by_cases ha : a ∈ R
    · simp [Skeleton.prune, without, ha]
    · rcases hn : K.node a with _ | x
      · simp [Skeleton.prune, without, ha, hn]
      · have hall : x.children.filter (fun c => c ∉ R) = x.children := by
          refine List.filter_eq_self.mpr fun c hc => ?_
          simpa using fun hcR => ha (hR c a (h.under hn hc) hcR)
        simp only [Skeleton.prune, without, ha, if_false, hn, Option.map_some, hall]
  exact Skeleton.ext hnode rfl rfl

/-- A count of references says nothing about the tree. -/
theorem Tree.put_lRef {l : ℕ} (h : K.Tree) (hp : K.node p = some n) :
    (K.put p (some { n with lRef := l })).Tree := by
  have hback : ∀ a x, (K.put p (some { n with lRef := l })).node a = some x → ∃ y,
      K.node a = some y ∧ x.key = y.key ∧ x.parent = y.parent ∧ x.children = y.children := by
    intro a x ha
    rcases update_eq_some ha with ⟨rfl, hx⟩ | ⟨-, hx⟩
    · obtain rfl := Option.some.inj hx
      exact ⟨n, hp, rfl, rfl, rfl⟩
    · exact ⟨x, hx, rfl, rfl, rfl⟩
  have hforth : ∀ a y, K.node a = some y → ∃ x,
      (K.put p (some { n with lRef := l })).node a = some x ∧ x.key = y.key ∧
        x.parent = y.parent ∧ x.children = y.children := by
    intro a y ha
    by_cases hap : a = p
    · subst hap
      rw [hp] at ha
      obtain rfl := Option.some.inj ha
      exact ⟨_, put_node, rfl, rfl, rfl⟩
    · exact ⟨y, (put_node_of_ne hap).trans ha, rfl, rfl, rfl⟩
  obtain ⟨rank, hrank⟩ := h.ranked
  constructor
  · exact h.keys
  · intro e he
    obtain ⟨y, hy, hk⟩ := h.entry e he
    obtain ⟨x, hx, hkey, -⟩ := hforth _ y hy
    exact ⟨x, hx, hkey.trans hk⟩
  · intro a x ha
    obtain ⟨y, hy, hkey, -⟩ := hback a x ha
    exact hkey ▸ h.mapped a y hy
  · intro a x ha
    obtain ⟨y, hy, -⟩ := hback a x ha
    exact h.bound a y hy
  · intro a x c ha hc
    obtain ⟨y, hy, -, -, hch⟩ := hback a x ha
    obtain ⟨z, hz, hpar⟩ := h.child a y c hy (hch ▸ hc)
    obtain ⟨w, hw, -, hpw, -⟩ := hforth c z hz
    exact ⟨w, hw, hpw.trans hpar⟩
  · intro a x ha
    obtain ⟨y, hy, -, -, hch⟩ := hback a x ha
    exact hch ▸ h.distinct a y hy
  · intro a x b ha hb
    obtain ⟨y, hy, hkey, hpar, -⟩ := hback a x ha
    obtain ⟨z, hz, hmem, hns⟩ := h.parent a y b hy (hpar ▸ hb)
    obtain ⟨w, hw, hkw, -, hch⟩ := hforth b z hz
    exact ⟨w, hw, hch ▸ hmem, by rw [hkw, hkey, hns]⟩
  · refine ⟨rank, fun a x b ha hb => ?_⟩
    obtain ⟨y, hy, -, hpar, -⟩ := hback a x ha
    exact hrank a y b hy (hpar ▸ hb)

/-! ### A new record and a new edge -/

/-- A record that nothing is linked to is entered under its key. -/
def insert (K : Skeleton Hash) (key : ℕ × Hash) : Skeleton Hash where
  node := Function.update K.node K.fresh (some ⟨key, none, [], 1⟩)
  map := (key, K.fresh) :: K.map
  fresh := K.fresh + 1

theorem Tree.node_fresh (h : K.Tree) : K.node K.fresh = none := by
  rcases hn : K.node K.fresh with _ | n
  · rfl
  · exact absurd (h.bound _ n hn) (Nat.lt_irrefl _)

theorem insert_fresh {key : ℕ × Hash} :
    (K.insert key).node K.fresh = some ⟨key, none, [], 1⟩ := by
  exact Function.update_self K.fresh _ K.node

theorem Tree.insert_node (h : K.Tree) {key : ℕ × Hash} (ha : K.node a = some n) :
    (K.insert key).node a = some n := by
  have hne : a ≠ K.fresh := fun heq => by
    rw [heq, h.node_fresh] at ha
    cases ha
  exact (Function.update_of_ne hne _ _).trans ha

theorem Tree.insert {key : ℕ × Hash} (h : K.Tree) (hkey : ∀ e ∈ K.map, e.1 ≠ key) :
    (K.insert key).Tree := by
  obtain ⟨rank, hrank⟩ := h.ranked
  constructor
  · refine List.nodup_cons.mpr ⟨fun hmem => ?_, h.keys⟩
    obtain ⟨e, he, heq⟩ := List.mem_map.mp hmem
    exact hkey e he heq
  · intro e he
    rcases List.mem_cons.mp he with rfl | he
    · exact ⟨_, Function.update_self K.fresh _ K.node, rfl⟩
    · obtain ⟨n, hn, hk⟩ := h.entry e he
      exact ⟨n, h.insert_node hn, hk⟩
  · intro a n ha
    rcases update_eq_some ha with ⟨rfl, hn⟩ | ⟨-, hn⟩
    · cases hn
      exact List.mem_cons_self
    · exact List.mem_cons_of_mem _ (h.mapped a n hn)
  · intro a n ha
    rcases update_eq_some ha with ⟨rfl, -⟩ | ⟨-, hn⟩
    · exact Nat.lt_succ_self _
    · exact Nat.lt_succ_of_lt (h.bound a n hn)
  · intro a n c ha hc
    rcases update_eq_some ha with ⟨rfl, hn⟩ | ⟨-, hn⟩
    · cases hn
      cases hc
    · obtain ⟨m, hm, hp⟩ := h.child a n c hn hc
      exact ⟨m, h.insert_node hm, hp⟩
  · intro a n ha
    rcases update_eq_some ha with ⟨rfl, hn⟩ | ⟨-, hn⟩
    · cases hn
      exact List.nodup_nil
    · exact h.distinct a n hn
  · intro a n q ha hq
    rcases update_eq_some ha with ⟨rfl, hn⟩ | ⟨-, hn⟩
    · cases hn
      cases hq
    · obtain ⟨m, hm, hmem, hk⟩ := h.parent a n q hn hq
      exact ⟨m, h.insert_node hm, hmem, hk⟩
  · refine ⟨rank, fun a n q ha hq => ?_⟩
    rcases update_eq_some ha with ⟨rfl, hn⟩ | ⟨-, hn⟩
    · cases hn
      cases hq
    · exact hrank a n q hn hq

theorem Single.insert {key : ℕ × Hash} (h : K.Single) : (K.insert key).Single := by
  intro a n ha
  rcases update_eq_some ha with ⟨rfl, hn⟩ | ⟨-, hn⟩
  · cases hn
    rfl
  · exact h a n hn

/-- `p` becomes the last child of `q`. -/
def link (K : Skeleton Hash) (p q : ℕ) (n m : Shape Hash) : Skeleton Hash where
  node := Function.update (Function.update K.node p (some { n with parent := some q })) q
    (some { m with children := m.children ++ [p] })
  map := K.map
  fresh := K.fresh

theorem link_node {x : Shape Hash} (hp : K.node p = some n) (hq : K.node q = some m) (hpq : q ≠ p)
    (h : (K.link p q n m).node a = some x) : ∃ y, K.node a = some y ∧ x.key = y.key ∧
      x.lRef = y.lRef ∧ x.parent = (if a = p then some q else y.parent) ∧
      x.children = if a = q then y.children ++ [p] else y.children := by
  change Function.update (Function.update K.node p _) q _ a = some x at h
  rcases update_eq_some h with ⟨rfl, hx⟩ | ⟨haq, hx⟩
  · obtain rfl := Option.some.inj hx
    exact ⟨m, hq, rfl, rfl, by rw [if_neg hpq], by rw [if_pos rfl]⟩
  · rcases update_eq_some hx with ⟨rfl, hn⟩ | ⟨hap, hy⟩
    · obtain rfl := Option.some.inj hn
      exact ⟨n, hp, rfl, rfl, (if_pos rfl).symm, (if_neg haq).symm⟩
    · exact ⟨x, hy, rfl, rfl, (if_neg hap).symm, (if_neg haq).symm⟩

theorem node_link {y : Shape Hash} (hp : K.node p = some n) (hq : K.node q = some m) (hpq : q ≠ p)
    (h : K.node a = some y) : ∃ x, (K.link p q n m).node a = some x ∧ x.key = y.key ∧
      x.parent = (if a = p then some q else y.parent) ∧
      x.children = if a = q then y.children ++ [p] else y.children := by
  by_cases haq : a = q
  · subst haq
    rw [hq] at h
    cases h
    exact ⟨_, Function.update_self a _ _, rfl, (if_neg hpq).symm, (if_pos rfl).symm⟩
  · by_cases hap : a = p
    · subst hap
      rw [hp] at h
      cases h
      exact ⟨_, (Function.update_of_ne haq _ _).trans (Function.update_self a _ _), rfl,
        (if_pos rfl).symm, (if_neg haq).symm⟩
    · exact ⟨y, (Function.update_of_ne haq _ _).trans ((Function.update_of_ne hap _ _).trans h),
        rfl, (if_neg hap).symm, (if_neg haq).symm⟩

open Classical in
/-- A root becomes a child of a record that is not below it. -/
theorem Tree.link (h : K.Tree) (hp : K.node p = some n) (hroot : n.parent = none)
    (hq : K.node q = some m) (hbelow : q ∉ K.subtree p) (hns : m.key.1 = n.key.1) :
    (K.link p q n m).Tree := by
  obtain ⟨rank, hrank⟩ := h.ranked
  have hpq : q ≠ p := fun heq => hbelow (heq ▸ mem_subtree_self)
  have hfree : ∀ a x, K.node a = some x → p ∉ x.children := by
    intro a x ha hmem
    obtain ⟨n', hn', hpar⟩ := h.child a x p ha hmem
    rw [hp] at hn'
    cases hn'
    rw [hroot] at hpar
    cases hpar
  constructor
  · exact h.keys
  · intro e he
    obtain ⟨y, hy, hk⟩ := h.entry e he
    obtain ⟨x, hx, hkey, -⟩ := node_link hp hq hpq hy
    exact ⟨x, hx, hkey.trans hk⟩
  · intro a x hx
    obtain ⟨y, hy, hkey, -⟩ := link_node hp hq hpq hx
    rw [hkey]
    exact h.mapped a y hy
  · intro a x hx
    obtain ⟨y, hy, -⟩ := link_node hp hq hpq hx
    exact h.bound a y hy
  · intro a x c hx hc
    obtain ⟨y, hy, -, -, -, hch⟩ := link_node hp hq hpq hx
    have hcases : (a = q ∧ c = p) ∨ c ∈ y.children := by
      rw [hch] at hc
      split_ifs at hc with haq
      · rcases List.mem_append.mp hc with hc | hc
        · exact Or.inr hc
        · exact Or.inl ⟨haq, List.mem_singleton.mp hc⟩
      · exact Or.inr hc
    rcases hcases with ⟨rfl, rfl⟩ | hc
    · obtain ⟨z, hz, -, hpar, -⟩ := node_link hp hq hpq hp
      exact ⟨z, hz, by rw [hpar, if_pos rfl]⟩
    · obtain ⟨w, hw, hpar⟩ := h.child a y c hy hc
      have hcp : c ≠ p := fun heq => hfree a y hy (heq ▸ hc)
      obtain ⟨z, hz, -, hpar', -⟩ := node_link hp hq hpq hw
      exact ⟨z, hz, by rw [hpar', if_neg hcp, hpar]⟩
  · intro a x hx
    obtain ⟨y, hy, -, -, -, hch⟩ := link_node hp hq hpq hx
    have hd := h.distinct a y hy
    rw [hch]
    split_ifs
    · refine List.Nodup.append hd (List.nodup_singleton p) ?_
      exact List.disjoint_singleton.mpr (hfree a y hy)
    · exact hd
  · intro a x b hx hb
    obtain ⟨y, hy, hkey, -, hpar, -⟩ := link_node hp hq hpq hx
    rw [hpar] at hb
    by_cases hap : a = p
    · subst hap
      rw [if_pos rfl] at hb
      cases hb
      rw [hp] at hy
      cases hy
      obtain ⟨z, hz, hkz, -, hch⟩ := node_link hp hq hpq hq
      refine ⟨z, hz, by rw [hch, if_pos rfl]; simp, ?_⟩
      rw [hkz, hkey]
      exact hns
    · rw [if_neg hap] at hb
      obtain ⟨w, hw, hmem, hk⟩ := h.parent a y b hy hb
      obtain ⟨z, hz, hkz, -, hch⟩ := node_link hp hq hpq hw
      refine ⟨z, hz, ?_, ?_⟩
      · rw [hch]
        split_ifs
        · exact List.mem_append_left _ hmem
        · exact hmem
      · rw [hkz, hkey]
        exact hk
  · -- what is below `p` comes below `q`
    refine ⟨fun a => if a ∈ K.subtree p then rank a + rank q + 1 else rank a, fun a x b hx hb => ?_⟩
    obtain ⟨y, hy, -, -, hpar, -⟩ := link_node hp hq hpq hx
    rw [hpar] at hb
    by_cases hap : a = p
    · subst hap
      rw [if_pos rfl] at hb
      cases hb
      simp only [hbelow, if_false, mem_subtree_self, if_true]
      omega
    · rw [if_neg hap] at hb
      have hlt := hrank a y b hy hb
      have hab : K.Under a b := ⟨y, hy, hb⟩
      have hiff : a ∈ K.subtree p ↔ b ∈ K.subtree p := by
        constructor
        · intro ha
          rcases Relation.ReflTransGen.cases_head ha with heq | ⟨c, hac, hcp⟩
          · exact absurd heq hap
          · rwa [← hac.unique hab]
        · exact subtree_closed hab
      by_cases hbp : b ∈ K.subtree p
      · simp only [hbp, hiff.mpr hbp, if_true]
        omega
      · simp only [hbp, mt hiff.mp hbp, if_false]
        exact hlt

theorem Single.link (h : K.Single) (hp : K.node p = some n) (hq : K.node q = some m) (hpq : q ≠ p) :
    (K.link p q n m).Single := by
  intro a x hx
  obtain ⟨y, hy, -, hl, -⟩ := link_node hp hq hpq hx
  exact hl.trans (h a y hy)

end Skeleton

end NtAdmin.Wmi.A51
