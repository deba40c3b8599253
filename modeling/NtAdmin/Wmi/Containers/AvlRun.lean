import NtAdmin.Wmi.Containers.AvlDelete
import NtAdmin.Lib.Runs

/-! The search tree against a finite map, in every run. -/
namespace NtAdmin.Wmi.Containers

open NtAdmin.Lib NtAdmin.Lib.Avl

namespace WmiAvlTree
variable {Key Element : Type} [LinearOrder Key] {t t' : WmiAvlTree Key Element}
  {T W : Bst (AvlItem Key Element)} {ctx : List (Frame (AvlItem Key Element))} {key : Key}

/-! ### Find -/

theorem findLoop_spec {fuel : ℕ} {parent : Option NodePtr} (h : Rep t.node parent T)
    (hfuel : T.toList.length ≤ fuel) (hsorted : Sorted T) (key : Key) :
    ((∀ x ∈ T.toList, x.key ≠ key) ∧ t.findLoop key fuel (root T) = some none) ∨
    ∃ x ∈ T.toList, x.key = key ∧ t.findLoop key fuel (root T) = some (some x.address) := by
  induction T generalizing fuel parent with
  | nil =>
    left
    refine ⟨nofun, ?_⟩
    cases fuel <;> rfl
  | node l x state r ihl ihr =>
    obtain ⟨hx, hl, hr⟩ := h
    have hlength := length_lt_of_mk .left l x state r
    have hlength' := length_lt_of_mk .right r x state l
    change _ < (Bst.node l x state r).toList.length at hlength hlength'
    obtain ⟨fuel, rfl⟩ : ∃ k, fuel = k + 1 := ⟨fuel - 1, by omega⟩
    have hsorted' := hsorted
    unfold Sorted Bst.toList at hsorted'
    rw [List.pairwise_append, List.pairwise_cons] at hsorted'
    obtain ⟨hsl, ⟨hxr, hsr⟩, hlr⟩ := hsorted'
    have hmem : ∀ y, y ∈ (Bst.node l x state r).toList ↔ y ∈ l.toList ∨ y = x ∨ y ∈ r.toList := by
      intro y
      rw [Bst.toList, List.mem_append, List.mem_cons]
    have hroot : root (Bst.node l x state r) = some x.address := rfl
    have hfuell : l.toList.length ≤ fuel := by omega
    have hfuelr : r.toList.length ≤ fuel := by omega
    rcases lt_trichotomy key x.key with hlt | heq | hgt
    · have hstep : t.findLoop key (fuel + 1) (some x.address) = t.findLoop key fuel (root l) := by
        simp [findLoop, hx, AvlItem.node, hlt, hlt.ne]
      rw [hroot, hstep]
      rcases ihl hl hfuell hsl with ⟨hnone, hrun⟩ | ⟨y, hy, hkey, hrun⟩
      · left
        refine ⟨?_, hrun⟩
        intro y hy
        rcases (hmem y).mp hy with hy | rfl | hy
        · exact hnone y hy
        · exact hlt.ne'
        · exact (hlt.trans (hxr y hy)).ne'
      · exact Or.inr ⟨y, (hmem y).mpr (Or.inl hy), hkey, hrun⟩
    · right
      refine ⟨x, (hmem x).mpr (Or.inr (Or.inl rfl)), heq.symm, ?_⟩
      rw [hroot]
      simp [findLoop, hx, AvlItem.node, heq]
    · have hstep : t.findLoop key (fuel + 1) (some x.address) = t.findLoop key fuel (root r) := by
        simp [findLoop, hx, AvlItem.node, hgt.ne', hgt.not_gt]
      rw [hroot, hstep]
      rcases ihr hr hfuelr hsr with ⟨hnone, hrun⟩ | ⟨y, hy, hkey, hrun⟩
      · left
        refine ⟨?_, hrun⟩
        intro y hy
        rcases (hmem y).mp hy with hy | rfl | hy
        · exact ((hlr y hy x List.mem_cons_self).trans hgt).ne
        · exact hgt.ne
        · exact hnone y hy
      · exact Or.inr ⟨y, (hmem y).mpr (Or.inr (Or.inr hy)), hkey, hrun⟩

theorem Represents.find_spec {fuel : ℕ} (h : Represents t W) (hfuel : W.toList.length < fuel) (key : Key) :
    ((∀ x ∈ W.toList, x.key ≠ key) ∧ t.find fuel key = some (.e_StatusCode_NotFound, none)) ∨
    ∃ x ∈ W.toList, x.key = key ∧
      t.find fuel key = some (.e_StatusCode_Success, some x.address) := by
  have htop := h.place.top
  change t.m_Root = root W at htop
  have hloop := findLoop_spec h.place.tree (Nat.le_of_lt hfuel) h.sorted key
  rw [← htop] at hloop
  rcases hloop with ⟨hnone, hrun⟩ | ⟨x, hx, hkey, hrun⟩
  · exact Or.inl ⟨hnone, by simp [find, hrun]⟩
  · exact Or.inr ⟨x, hx, hkey, by simp [find, hrun]⟩

end WmiAvlTree

/-! ### Runs -/

/-- The allocator gives the address `new`. -/
inductive AvlEvent (Key Element : Type)
  | insert (key : Key) (element : Element) (new : NodePtr)
  | delete (key : Key)

/-- The tree, and the finite map that the same operations make. -/
structure AvlState (Key Element : Type) where
  tree : WmiAvlTree Key Element
  map : Key → Option Element

namespace AvlState

variable {Key Element : Type} [LinearOrder Key]

/-- The allocator gives addresses that are not in use. -/
def step (s : AvlState Key Element) : AvlEvent Key Element → Option (AvlState Key Element)
  | .insert key element new =>
    if (s.tree.node new).isSome then none
    else (s.tree.insert (s.tree.m_Size + 1) key element new).map fun r =>
      { tree := r.2
        map := if (s.map key).isSome then s.map else Function.update s.map key (some element) }
  | .delete key =>
    (s.tree.delete (s.tree.m_Size + 1) key).map fun r =>
      { tree := r.2
        map := Function.update s.map key none }

def start : AvlState Key Element where
  tree := .empty
  map _ := none

/-- The tree holds the pairs of the map. -/
def Holds (s : AvlState Key Element) (W : Bst (AvlItem Key Element)) : Prop :=
  ∀ key element, s.map key = some element ↔ ∃ x ∈ W.toList, x.key = key ∧ x.element = element

/-- The tree is a search tree that is balanced as its nodes tell, and each operation ends and does
what it does to the map. -/
structure Good (s : AvlState Key Element) : Prop where
  tree : ∃ W, s.tree.Represents W ∧ s.Holds W
  insert : ∀ fuel key element new, s.tree.m_Size < fuel → s.tree.node new = none →
    ((s.map key).isSome = true ∧
      s.tree.insert fuel key element new = some (.e_StatusCode_AlreadyExists, s.tree)) ∨
    (s.map key = none ∧ ∃ t, s.tree.insert fuel key element new = some (.e_StatusCode_Success, t))
  delete : ∀ fuel key, s.tree.m_Size < fuel →
    (s.map key = none ∧ s.tree.delete fuel key = some (.e_StatusCode_NotFound, s.tree)) ∨
    ((s.map key).isSome = true ∧ ∃ t, s.tree.delete fuel key = some (.e_StatusCode_Success, t))
  find : ∀ fuel key, s.tree.m_Size < fuel →
    (s.map key = none ∧ s.tree.find fuel key = some (.e_StatusCode_NotFound, none)) ∨
    ∃ p n, s.tree.find fuel key = some (.e_StatusCode_Success, some p) ∧ s.tree.node p = some n ∧
      n.m_Key = key ∧ s.map key = some n.m_Element

def Inv (s : AvlState Key Element) : Prop := ∃ W, s.tree.Represents W ∧ s.Holds W

variable {s t : AvlState Key Element} {W W' : Bst (AvlItem Key Element)} {key : Key}

omit [LinearOrder Key] in
theorem Holds.none_iff (h : s.Holds W) : s.map key = none ↔ ∀ x ∈ W.toList, x.key ≠ key := by
  constructor
  · intro hnone x hx hkey
    have hsome := (h key x.element).mpr ⟨x, hx, hkey, rfl⟩
    rw [hnone] at hsome
    contradiction
  · intro hkeys
    cases hmap : s.map key with
    | none => rfl
    | some element =>
      obtain ⟨x, hx, hkey, -⟩ := (h key element).mp hmap
      exact absurd hkey (hkeys x hx)

omit [LinearOrder Key] in
theorem Holds.some_iff (h : s.Holds W) :
    (s.map key).isSome = true ↔ ∃ x ∈ W.toList, x.key = key := by
  rw [← Option.ne_none_iff_isSome, ne_eq, h.none_iff]
  push Not
  rfl

theorem Inv.good (h : s.Inv) : Good s := by
  obtain ⟨W, hW, hholds⟩ := h
  constructor
  · exact ⟨W, hW, hholds⟩
  · intro fuel key element new hfuel hnew
    rw [hW.size] at hfuel
    rcases hW.insert_spec hnew hfuel key element with ⟨hkey, hrun⟩ | ⟨hkeys, t, -, -, -, hrun, -⟩
    · exact Or.inl ⟨hholds.some_iff.mpr hkey, hrun⟩
    · exact Or.inr ⟨hholds.none_iff.mpr hkeys, t, hrun⟩
  · intro fuel key hfuel
    rw [hW.size] at hfuel
    rcases hW.delete_spec hfuel key with ⟨hkeys, hrun⟩ | ⟨t, W', l, x, r, hkey, hitems, hrun, -⟩
    · exact Or.inl ⟨hholds.none_iff.mpr hkeys, hrun⟩
    · have hmem : x ∈ W.toList := hitems ▸ List.mem_append_right _ List.mem_cons_self
      exact Or.inr ⟨hholds.some_iff.mpr ⟨x, hmem, hkey⟩, t, hrun⟩
  · intro fuel key hfuel
    rw [hW.size] at hfuel
    rcases hW.find_spec hfuel key with ⟨hkeys, hrun⟩ | ⟨x, hx, hkey, hrun⟩
    · exact Or.inl ⟨hholds.none_iff.mpr hkeys, hrun⟩
    · right
      obtain ⟨n, hn, hnkey, helement⟩ := hW.place.tree.node_of_mem hx
      refine ⟨x.address, n, hrun, hn, hnkey.trans hkey, ?_⟩
      exact (hholds key n.m_Element).mpr ⟨x, hx, hkey, helement.symm⟩

theorem inv_start : Inv (start : AvlState Key Element) := by
  refine ⟨.nil, ?_, ?_⟩
  · constructor
    · rw [WmiAvlTree.at_iff]
      exact ⟨rfl, trivial, List.nodup_nil⟩
    · trivial
    · exact List.Pairwise.nil
    · rfl
    · exact nofun
  · intro key element
    exact iff_of_false nofun nofun

omit [LinearOrder Key] in
/-- A pair more. -/
theorem Holds.insert {l r : List (AvlItem Key Element)} {x : AvlItem Key Element} [DecidableEq Key]
    (h : s.Holds W) (hitems : W.toList = l ++ r) (hitems' : W'.toList = l ++ x :: r)
    (hkeys : ∀ y ∈ W.toList, y.key ≠ x.key) (htree : WmiAvlTree Key Element) :
    Holds ⟨htree, Function.update s.map x.key (some x.element)⟩ W' := by
  have hmem : ∀ y, y ∈ W'.toList ↔ y = x ∨ y ∈ W.toList := by
    intro y
    rw [hitems, hitems', List.mem_append, List.mem_cons, List.mem_append]
    exact or_left_comm
  intro key element
  dsimp only
  by_cases hkey : key = x.key
  · rw [hkey, Function.update_self]
    constructor
    · intro hx
      exact ⟨x, (hmem x).mpr (Or.inl rfl), rfl, Option.some.inj hx⟩
    · rintro ⟨y, hy, hykey, rfl⟩
      rcases (hmem y).mp hy with rfl | hy
      · rfl
      · exact absurd hykey (hkeys y hy)
  · rw [Function.update_of_ne hkey, h key element]
    constructor
    · rintro ⟨y, hy, hykey⟩
      exact ⟨y, (hmem y).mpr (Or.inr hy), hykey⟩
    · rintro ⟨y, hy, hykey⟩
      rcases (hmem y).mp hy with rfl | hy
      · exact absurd hykey.1.symm hkey
      · exact ⟨y, hy, hykey⟩

omit [LinearOrder Key] in
/-- A pair less. -/
theorem Holds.delete {l r : List (AvlItem Key Element)} {x : AvlItem Key Element} [DecidableEq Key]
    (h : s.Holds W) (hitems : W.toList = l ++ x :: r) (hitems' : W'.toList = l ++ r)
    (hkeys : ∀ y ∈ W'.toList, y.key ≠ x.key) (htree : WmiAvlTree Key Element) :
    Holds ⟨htree, Function.update s.map x.key none⟩ W' := by
  have hmem : ∀ y, y ∈ W.toList ↔ y = x ∨ y ∈ W'.toList := by
    intro y
    rw [hitems, hitems', List.mem_append, List.mem_cons, List.mem_append]
    exact or_left_comm
  intro key element
  dsimp only
  by_cases hkey : key = x.key
  · rw [hkey, Function.update_self]
    refine iff_of_false nofun ?_
    rintro ⟨y, hy, hykey, -⟩
    exact hkeys y hy hykey
  · rw [Function.update_of_ne hkey, h key element]
    constructor
    · rintro ⟨y, hy, hykey⟩
      rcases (hmem y).mp hy with rfl | hy
      · exact absurd hykey.1.symm hkey
      · exact ⟨y, hy, hykey⟩
    · rintro ⟨y, hy, hykey⟩
      exact ⟨y, (hmem y).mpr (Or.inr hy), hykey⟩

/-- In a search tree the other keys differ. -/
theorem keys_ne {l r : List (AvlItem Key Element)} {x : AvlItem Key Element}
    (h : (l ++ x :: r).Pairwise fun y z => y.key < z.key) : ∀ y ∈ l ++ r, y.key ≠ x.key := by
  rw [List.pairwise_append, List.pairwise_cons] at h
  intro y hy
  rcases List.mem_append.mp hy with hy | hy
  · exact (h.2.2 y hy x List.mem_cons_self).ne
  · exact (h.2.1.1 y hy).ne'

theorem Inv.step {ev : AvlEvent Key Element} (h : s.Inv) (ht : s.step ev = some t) : t.Inv := by
  obtain ⟨W, hW, hholds⟩ := h
  have hfuel : W.toList.length < s.tree.m_Size + 1 := by
    rw [hW.size]
    exact Nat.lt_succ_self _
  cases ev with
  | insert key element new =>
    obtain ⟨hnew, ht⟩ := Option.ite_none_left_eq_some.mp ht
    have hnew := Option.not_isSome_iff_eq_none.mp hnew
    rcases hW.insert_spec hnew hfuel key element with
      ⟨hkey, hrun⟩ | ⟨hkeys, t', W', l, r, hrun, hW', hitems, hitems'⟩
    · rw [hrun] at ht
      obtain rfl := Option.some.inj ht
      have hsome := hholds.some_iff.mpr hkey
      refine ⟨W, hW, ?_⟩
      rw [if_pos hsome]
      exact hholds
    · rw [hrun] at ht
      obtain rfl := Option.some.inj ht
      have hnone := hholds.none_iff.mpr hkeys
      refine ⟨W', hW', ?_⟩
      rw [hnone]
      exact hholds.insert hitems hitems' hkeys t'
  | delete key =>
    rcases hW.delete_spec hfuel key with
      ⟨hkeys, hrun⟩ | ⟨t', W', l, x, r, rfl, hitems, hrun, hW', hitems'⟩
    · simp only [AvlState.step, hrun, Option.map_some] at ht
      obtain rfl := Option.some.inj ht
      have hnone := hholds.none_iff.mpr hkeys
      refine ⟨W, hW, ?_⟩
      rw [← hnone, Function.update_eq_self]
      exact hholds
    · simp only [AvlState.step, hrun, Option.map_some] at ht
      obtain rfl := Option.some.inj ht
      refine ⟨W', hW', hholds.delete hitems hitems' ?_ t'⟩
      have hsorted := hW.sorted
      unfold WmiAvlTree.Sorted at hsorted
      rw [hitems] at hsorted
      rw [hitems']
      exact keys_ne hsorted

theorem always_good (events : List (AvlEvent Key Element)) : Always step Good start events :=
  always_of_invariant (fun _ h => h.good) (fun _ _ _ h ht => h.step ht) inv_start events

end AvlState

end NtAdmin.Wmi.Containers
