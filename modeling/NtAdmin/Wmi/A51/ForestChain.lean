import Mathlib.Algebra.BigOperators.Group.List.Basic
import Mathlib.Data.List.Perm.Subperm
import NtAdmin.Lib.DoublyLinked
import NtAdmin.Wmi.A51.ForestCache

/-! The chain of use of the class cache, and what evictions leave of the records. -/
namespace NtAdmin.Wmi.A51
open Lib Prog

variable {Hash Obj : Type}

/-- A record without its links. -/
def CClassRecord.data (r : CClassRecord Hash Obj) : CClassRecord Hash Obj :=
  { r with moreRecentlyUsed := none, lessRecentlyUsed := none }

/-- A record without its links and its definition. -/
def CClassRecord.bare (r : CClassRecord Hash Obj) : CClassRecord Hash Obj :=
  { r.data with classDef := none }

namespace CForestCache

def more (s : CForestCache Hash Obj) (a : ℕ) : Option ℕ :=
  (s.heap a).bind CClassRecord.moreRecentlyUsed

def less (s : CForestCache Hash Obj) (a : ℕ) : Option ℕ :=
  (s.heap a).bind CClassRecord.lessRecentlyUsed

def sizeAt (s : CForestCache Hash Obj) (a : ℕ) : ℕ :=
  ((s.heap a).map CClassRecord.classDefSize).getD 0

/-- The definitions of the records. -/
def defs (s : CForestCache Hash Obj) (a : ℕ) : Option (Option Obj) :=
  (s.heap a).map CClassRecord.classDef

/-- The records `ns` are linked, from the least to the most recently used one. -/
structure Chained (s : CForestCache Hash Obj) (ns : List ℕ) : Prop where
  chain : DoublyLinked s.more s.less s.leastRecentlyUsed s.mostRecentlyUsed ns
  allocated : ∀ a ∈ ns, ∃ r, s.heap a = some r
  loose : ∀ a r, s.heap a = some r → a ∉ ns →
    r.moreRecentlyUsed = none ∧ r.lessRecentlyUsed = none
  bound : ∀ a r, s.heap a = some r → a < s.fresh

/-- The chain holds the records that have a definition, and the memory in use is theirs. -/
structure Lru (s : CForestCache Hash Obj) (ns : List ℕ) : Prop where
  chained : s.Chained ns
  mem : ∀ a r, s.heap a = some r → (a ∈ ns ↔ r.classDef ≠ none)
  total : s.totalMemory = (ns.map s.sizeAt).sum
  small : s.totalMemory < 2 ^ 32

/-- Only links have changed. -/
structure Relinked (s t : CForestCache Hash Obj) : Prop where
  data : ∀ a, (t.heap a).map CClassRecord.data = (s.heap a).map CClassRecord.data
  rest : t = { s with
    heap := t.heap, mostRecentlyUsed := t.mostRecentlyUsed,
    leastRecentlyUsed := t.leastRecentlyUsed }

/-- Some records have lost their definition. -/
structure Evicted (s t : CForestCache Hash Obj) : Prop where
  bare : ∀ a, (t.heap a).map CClassRecord.bare = (s.heap a).map CClassRecord.bare
  rest : t = { s with
    heap := t.heap, mostRecentlyUsed := t.mostRecentlyUsed,
    leastRecentlyUsed := t.leastRecentlyUsed, totalMemory := t.totalMemory, ticks := t.ticks }
  total : t.totalMemory ≤ s.totalMemory
  lost : ∀ a, s.defs a = some none → t.defs a = some none

end CForestCache

open CForestCache

variable {s t u : CForestCache Hash Obj} {ns : List ℕ} {p : ℕ} {r : CClassRecord Hash Obj}
  {α : Type}

/-- The program meets no freed record and comes to its end. -/
def Runs (m : CacheM Hash Obj α) (Q : α → CForestCache Hash Obj → Prop)
    (s : CForestCache Hash Obj) : Prop :=
  wp m Q (fun _ _ => False) s

theorem Runs.mono {m : CacheM Hash Obj α} {Q Q' : α → CForestCache Hash Obj → Prop}
    (h : Runs m Q s) (hQ : ∀ a t, Q a t → Q' a t) : Runs m Q' s :=
  wp_mono h hQ fun _ _ => False.elim

section access
variable {E : CacheFault → CForestCache Hash Obj → Prop}
  {f : CClassRecord Hash Obj → CClassRecord Hash Obj} {o : Option ℕ}

theorem wp_record {Q : CClassRecord Hash Obj → CForestCache Hash Obj → Prop}
    (h : s.heap p = some r) : wp (record p) Q E s ↔ Q r s := by
  simp [record, h]

theorem wp_update {Q : PUnit → CForestCache Hash Obj → Prop} (h : s.heap p = some r) :
    wp (update p f) Q E s ↔ Q ⟨⟩ { s with heap := Function.update s.heap p (some (f r)) } := by
  simp [update, wp_record h]

/-- The record at `o`, if there is one, is changed by `f`. -/
def CForestCache.adjust (s : CForestCache Hash Obj) (o : Option ℕ)
    (f : CClassRecord Hash Obj → CClassRecord Hash Obj) : CForestCache Hash Obj :=
  { s with heap := fun a => if o = some a then (s.heap a).map f else s.heap a }

theorem adjust_none (s : CForestCache Hash Obj)
    (f : CClassRecord Hash Obj → CClassRecord Hash Obj) : s.adjust none f = s := by
  simp [adjust]

theorem adjust_some (h : s.heap p = some r) :
    s.adjust (some p) f = { s with heap := Function.update s.heap p (some (f r)) } := by
  have hheap : (fun a => if some p = some a then (s.heap a).map f else s.heap a) =
      Function.update s.heap p (some (f r)) := by
    funext a
    by_cases ha : a = p
    · subst ha
      simp [h]
    · rw [Function.update_of_ne ha, if_neg fun hp => ha (Option.some.inj hp).symm]
  rw [adjust, hheap]

theorem wp_updateIf {Q : PUnit → CForestCache Hash Obj → Prop}
    (h : ∀ p, o = some p → ∃ r, s.heap p = some r) :
    wp (updateIf o f) Q E s ↔ Q ⟨⟩ (s.adjust o f) := by
  cases o with
  | none => simp [updateIf, adjust_none]
  | some p =>
    obtain ⟨r, hr⟩ := h p rfl
    rw [adjust_some hr]
    simp [updateIf, wp_update hr]

theorem wp_getTickCount {Q : ℕ → CForestCache Hash Obj → Prop}
    (h : ∀ now ts, Q now { s with ticks := ts }) : wp getTickCount Q E s := by
  rcases hts : s.ticks with _ | ⟨now, ts⟩
  · have hs : { s with ticks := ([] : List ℕ) } = s := by
      rw [← hts]
    simpa [getTickCount, hts, hs] using h 0 []
  · simp only [getTickCount, wp_bind, wp_get, hts, wp_modify, wp_pure]
    exact h (now % 2 ^ 32) ts

theorem wp_allocate {Q : Bool → CForestCache Hash Obj → Prop}
    (h : ∀ b bs, Q b { s with allocs := bs }) : wp allocate Q E s := by
  rcases hbs : s.allocs with _ | ⟨b, bs⟩
  · have hs : { s with allocs := ([] : List Bool) } = s := by
      rw [← hbs]
    simpa [allocate, hbs, hs] using h true []
  · simpa [allocate, hbs] using h b bs

end access

/-! ### Linking and unlinking -/

namespace CForestCache

theorem Relinked.heap_eq (h : Relinked s t) {a : ℕ} (ha : s.heap a = some r) :
    ∃ r', t.heap a = some r' ∧ r'.data = r.data := by
  have hd := h.data a
  rw [ha] at hd
  exact Option.map_eq_some_iff.mp hd

theorem Relinked.totalMemory_eq (h : Relinked s t) : t.totalMemory = s.totalMemory := by
  rw [h.rest]

theorem Relinked.ticks_eq (h : Relinked s t) : t.ticks = s.ticks := by
  rw [h.rest]

theorem Chained.lt_fresh (h : s.Chained ns) {a : ℕ} (ha : a ∈ ns) : a < s.fresh := by
  obtain ⟨r, hr⟩ := h.allocated a ha
  exact h.bound a r hr

theorem Chained.length_le (h : s.Chained ns) : ns.length ≤ s.fresh := by
  have hsub : ns ⊆ List.range s.fresh := fun a ha => List.mem_range.2 (h.lt_fresh ha)
  simpa using (List.subperm_of_subset h.chain.nodup hsub).length_le

theorem Chained.links (h : s.Chained ns) (hp : s.heap p = some r) :
    (∀ q, r.lessRecentlyUsed = some q → q ∈ ns ∧ q ≠ p) ∧
      ∀ q, r.moreRecentlyUsed = some q → q ∈ ns ∧ q ≠ p := by
  by_cases hmem : p ∈ ns
  · constructor
    · intro q hq
      have hless : s.less p = some q := by simp [less, hp, hq]
      exact ⟨h.chain.prev_mem hmem hless, fun heq => h.chain.prev_ne hmem (heq ▸ hless)⟩
    · intro q hq
      have hmore : s.more p = some q := by simp [more, hp, hq]
      exact ⟨h.chain.next_mem hmem hmore, fun heq => h.chain.next_ne hmem (heq ▸ hmore)⟩
  · obtain ⟨hmore, hless⟩ := h.loose p r hp hmem
    simp [hmore, hless]

theorem runs_untie (h : s.Chained ns) (hp : s.heap p = some r) :
    Runs (untie p) (fun _ t =>
      t.Chained (ns.erase p) ∧ Relinked s t ∧ t.heap p = some r.data) s := by
  obtain ⟨hless, hmore⟩ := h.links hp
  -- the state when both neighbours are linked to each other
  let s₂ := (s.adjust r.lessRecentlyUsed fun n => { n with
      moreRecentlyUsed := r.moreRecentlyUsed }).adjust r.moreRecentlyUsed
    fun n => { n with lessRecentlyUsed := r.lessRecentlyUsed }
  have hp₂ : s₂.heap p = some r := by
    have h₁ : r.lessRecentlyUsed ≠ some p := fun heq => (hless p heq).2 rfl
    have h₂ : r.moreRecentlyUsed ≠ some p := fun heq => (hmore p heq).2 rfl
    simp [s₂, adjust, h₁, h₂, hp]
  have hheap₂ : ∀ a m, s.heap a = some m → s₂.heap a = some { m with
      moreRecentlyUsed :=
        if r.lessRecentlyUsed = some a then r.moreRecentlyUsed else m.moreRecentlyUsed
      lessRecentlyUsed :=
        if r.moreRecentlyUsed = some a then r.lessRecentlyUsed else m.lessRecentlyUsed } := by
    intro a m hm
    by_cases hl : r.lessRecentlyUsed = some a <;> by_cases hr : r.moreRecentlyUsed = some a <;>
      simp [s₂, adjust, hl, hr, hm]
  have hnone₂ : ∀ a, s.heap a = none → s₂.heap a = none := by
    intro a ha
    simp [s₂, adjust, ha]
  have hrun : ∀ Q : PUnit → CForestCache Hash Obj → Prop, Runs (untie p) Q s ↔ Q ⟨⟩
      { s₂ with
        leastRecentlyUsed :=
          if s.leastRecentlyUsed = some p then r.moreRecentlyUsed else s.leastRecentlyUsed
        mostRecentlyUsed :=
          if s.mostRecentlyUsed = some p then r.lessRecentlyUsed else s.mostRecentlyUsed
        heap := Function.update s₂.heap p (some r.data) } := by
    intro Q
    rw [Runs, untie, wp_bind, wp_record hp, wp_bind,
      wp_updateIf fun q hq => h.allocated q (hless q hq).1, wp_bind, wp_updateIf, wp_bind,
      wp_record, wp_bind, wp_modify, wp_update]
    · exact Iff.rfl
    · exact hp₂
    · exact hp₂
    · intro q hq
      obtain ⟨m, hm⟩ := h.allocated q (hmore q hq).1
      simp only [adjust]
      split_ifs
      · exact ⟨_, by rw [hm]; rfl⟩
      · exact ⟨m, hm⟩
  rw [hrun]
  have hdata : ∀ a, a ≠ p → (s₂.heap a).map CClassRecord.data =
      (s.heap a).map CClassRecord.data := by
    intro a _
    rcases ha : s.heap a with _ | m
    · rw [hnone₂ a ha]
    · rw [hheap₂ a m ha]
      rfl
  refine ⟨?_, ⟨fun a => ?_, rfl⟩, Function.update_self ..⟩
  · constructor
    · by_cases hmem : p ∈ ns
      · refine h.chain.unlink hmem ?_ ?_ ?_ ?_
        · intro a ha hap
          obtain ⟨m, hm⟩ := h.allocated a ha
          simp [more, less, Function.update_of_ne hap, hheap₂ a m hm, hp, hm]
        · intro a ha hap
          obtain ⟨m, hm⟩ := h.allocated a ha
          simp [more, less, Function.update_of_ne hap, hheap₂ a m hm, hp, hm]
        · simp [more, hp]
        · simp [less, hp]
      · obtain ⟨hm, hl⟩ := h.loose p r hp hmem
        have hs₂ : s₂ = s := by simp [s₂, hm, hl, adjust_none]
        have hleast : s.leastRecentlyUsed ≠ some p := fun heq =>
          hmem (List.mem_of_mem_head? (h.chain.head_eq.symm.trans heq))
        have hmost : s.mostRecentlyUsed ≠ some p := fun heq =>
          hmem (List.mem_of_getLast? (h.chain.tail_eq.symm.trans heq))
        simp only [hleast, hmost, if_false, hs₂, List.erase_of_not_mem hmem]
        refine h.chain.congr (fun a ha => ?_) fun a ha => ?_
        · have hap : a ≠ p := fun heq => hmem (heq ▸ ha)
          simp [more, Function.update_of_ne hap]
        · have hap : a ≠ p := fun heq => hmem (heq ▸ ha)
          simp [less, Function.update_of_ne hap]
    · intro a ha
      by_cases hap : a = p
      · subst hap
        exact ⟨r.data, Function.update_self a (some r.data) s₂.heap⟩
      · obtain ⟨m, hm⟩ := h.allocated a (List.mem_of_mem_erase ha)
        exact ⟨_, (Function.update_of_ne hap _ _).trans (hheap₂ a m hm)⟩
    · intro a m hm hnot
      by_cases hap : a = p
      · subst hap
        have heq : some r.data = some m := (Function.update_self a _ s₂.heap).symm.trans hm
        obtain rfl : r.data = m := Option.some.inj heq
        exact ⟨rfl, rfl⟩
      · have hnot' : a ∉ ns := fun ha => hnot ((List.mem_erase_of_ne hap).mpr ha)
        have hl : r.lessRecentlyUsed ≠ some a := fun heq => hnot' (hless a heq).1
        have hr : r.moreRecentlyUsed ≠ some a := fun heq => hnot' (hmore a heq).1
        have hsame : s₂.heap a = s.heap a := by simp [s₂, adjust, hl, hr]
        refine h.loose a m ?_ hnot'
        rw [← hsame]
        exact (Function.update_of_ne hap _ _).symm.trans hm
    · intro a m hm
      by_cases hap : a = p
      · exact hap ▸ h.bound p r hp
      · have hm' : s₂.heap a = some m := (Function.update_of_ne hap _ _).symm.trans hm
        rcases ha : s.heap a with _ | m'
        · rw [hnone₂ a ha] at hm'
          cases hm'
        · exact h.bound a m' ha
  · by_cases hap : a = p
    · subst hap
      simp [hp, CClassRecord.data]
    · change (Function.update s₂.heap p (some r.data) a).map CClassRecord.data = _
      rw [Function.update_of_ne hap]
      exact hdata a hap

/-- A record that is in no chain is linked in behind the last one. -/
theorem Chained.snoc (h : s.Chained ns) (hp : p ∉ ns) (hlt : p < t.fresh)
    (hown : ∃ n, t.heap p = some n ∧ n.moreRecentlyUsed = none ∧
      n.lessRecentlyUsed = s.mostRecentlyUsed)
    (hlast : ∀ b m, s.mostRecentlyUsed = some b → s.heap b = some m →
      t.heap b = some { m with moreRecentlyUsed := some p })
    (hother : ∀ a, a ≠ p → s.mostRecentlyUsed ≠ some a → t.heap a = s.heap a)
    (hmost : t.mostRecentlyUsed = some p)
    (hleast : t.leastRecentlyUsed =
      if s.leastRecentlyUsed = none then some p else s.leastRecentlyUsed)
    (hfresh : t.fresh = s.fresh) : t.Chained (ns ++ [p]) := by
  obtain ⟨n, hn, hmore, hless⟩ := hown
  have hsplit : ∀ a ∈ ns, ∃ m, s.heap a = some m ∧ t.heap a = some { m with
      moreRecentlyUsed := if s.mostRecentlyUsed = some a then some p else m.moreRecentlyUsed } := by
    intro a ha
    obtain ⟨m, hm⟩ := h.allocated a ha
    by_cases hb : s.mostRecentlyUsed = some a
    · exact ⟨m, hm, by rw [if_pos hb]; exact hlast a m hb hm⟩
    · exact ⟨m, hm, by rw [if_neg hb]; exact (hother a (fun heq => hp (heq ▸ ha)) hb).trans hm⟩
  have hprev : ∀ a ∈ ns, t.less a = s.less a := by
    intro a ha
    obtain ⟨m, hm, ht⟩ := hsplit a ha
    simp [less, hm, ht]
  constructor
  · rw [hmost, hleast]
    rcases hb : s.mostRecentlyUsed with _ | b
    · have hnil : ns = [] := by
        have htail := h.chain.tail_eq
        rw [hb] at htail
        exact List.getLast?_eq_none_iff.mp htail.symm
      subst hnil
      have hhead : s.leastRecentlyUsed = none := h.chain.head_eq
      rw [if_pos hhead]
      exact .append_of_empty p (by simp [more, hn, hmore]) (by simp [less, hn, hless, hb])
    · have hchain := h.chain
      rw [hb] at hchain
      have hbmem := hchain.tail_mem
      have hhead : s.leastRecentlyUsed ≠ none := by
        intro hnone
        rw [hnone] at hchain
        rw [hchain.eq_nil_of_head] at hbmem
        cases hbmem
      rw [if_neg hhead]
      refine hchain.append hp ?_ (by simp [more, hn, hmore]) (by simp [less, hn, hless, hb])
        (fun a ha hab => ?_) hprev
      · obtain ⟨m, -, ht⟩ := hsplit b hbmem
        simp [more, ht, hb]
      · obtain ⟨m, hm, ht⟩ := hsplit a ha
        have hne : b ≠ a := fun heq => hab heq.symm
        simp [more, hm, ht, hb, hne]
  · intro a ha
    rcases List.mem_append.mp ha with ha | ha
    · obtain ⟨m, -, ht⟩ := hsplit a ha
      exact ⟨_, ht⟩
    · rw [List.mem_singleton.mp ha]
      exact ⟨n, hn⟩
  · intro a m hm hnot
    have hap : a ≠ p := fun heq => hnot (by simp [heq])
    have hns : a ∉ ns := fun ha => hnot (List.mem_append_left _ ha)
    have hb : s.mostRecentlyUsed ≠ some a := fun heq =>
      hns (List.mem_of_getLast? (h.chain.tail_eq.symm.trans heq))
    exact h.loose a m ((hother a hap hb).symm.trans hm) hns
  · intro a m hm
    by_cases hap : a = p
    · exact hap ▸ hlt
    · rw [hfresh]
      by_cases hb : s.mostRecentlyUsed = some a
      · exact h.lt_fresh (List.mem_of_getLast? (h.chain.tail_eq.symm.trans hb))
      · exact h.bound a m ((hother a hap hb).symm.trans hm)

/-- The record at `p` is the most recently used one, and nothing but links has changed else. -/
structure Promoted (p : ℕ) (r : CClassRecord Hash Obj) (s t : CForestCache Hash Obj) : Prop where
  own : ∃ r' now, t.heap p = some r' ∧ r'.data = { r.data with lastUsed := now }
  others : ∀ a, a ≠ p → (t.heap a).map CClassRecord.data = (s.heap a).map CClassRecord.data
  rest : t = { s with
    heap := t.heap, mostRecentlyUsed := t.mostRecentlyUsed,
    leastRecentlyUsed := t.leastRecentlyUsed, ticks := t.ticks }

theorem runs_makeMostRecentlyUsed (h : s.Chained ns) (hp : s.heap p = some r) :
    Runs (makeMostRecentlyUsed p)
      (fun _ t => t.Chained (ns.erase p ++ [p]) ∧ Promoted p r s t) s := by
  rw [Runs, makeMostRecentlyUsed, wp_bind]
  refine (runs_untie h hp).mono fun _ t₁ h₁ => ?_
  obtain ⟨hch, hrel, hp₁⟩ := h₁
  have hnot : p ∉ ns.erase p := h.chain.nodup.not_mem_erase
  have hmost : ∀ b, t₁.mostRecentlyUsed = some b → b ≠ p ∧ ∃ m, t₁.heap b = some m := by
    intro b hb
    have hmem : b ∈ ns.erase p := List.mem_of_getLast? (hch.chain.tail_eq.symm.trans hb)
    exact ⟨fun heq => hnot (heq ▸ hmem), hch.allocated b hmem⟩
  simp only [wp_bind, wp_get]
  rw [wp_update hp₁, wp_bind, wp_updateIf]
  rotate_left
  · intro b hb
    obtain ⟨hne, m, hm⟩ := hmost b hb
    exact ⟨m, (Function.update_of_ne hne _ _).trans hm⟩
  rw [wp_bind, wp_modify, wp_bind]
  refine wp_getTickCount fun now ts => ?_
  let n : CClassRecord Hash Obj :=
    { r.data with moreRecentlyUsed := none, lessRecentlyUsed := t₁.mostRecentlyUsed }
  have hself : t₁.mostRecentlyUsed ≠ some p := fun heq => (hmost p heq).1 rfl
  rw [wp_update (r := n)]
  rotate_left
  · simp [adjust, hself, n]
  have hlast : ∀ b m, t₁.mostRecentlyUsed = some b → t₁.heap b = some m → Function.update
      (({ t₁ with heap := Function.update t₁.heap p (some n) } : CForestCache Hash Obj).adjust
        t₁.mostRecentlyUsed fun n => { n with moreRecentlyUsed := some p }).heap p
      (some { n with lastUsed := now }) b = some { m with moreRecentlyUsed := some p } := by
    intro b m hb hm
    have hne := (hmost b hb).1
    simp [adjust, hb, hne, hm]
  have hother : ∀ a, a ≠ p → t₁.mostRecentlyUsed ≠ some a → Function.update
      (({ t₁ with heap := Function.update t₁.heap p (some n) } : CForestCache Hash Obj).adjust
        t₁.mostRecentlyUsed fun n => { n with moreRecentlyUsed := some p }).heap p
      (some { n with lastUsed := now }) a = t₁.heap a := by
    intro a hap hb
    simp [adjust, hap, hb]
  refine ⟨hch.snoc hnot (hch.bound p _ hp₁) ⟨_, Function.update_self .., rfl, rfl⟩ hlast hother rfl
    rfl rfl, ⟨⟨_, now, Function.update_self .., rfl⟩, fun a hap => ?_, ?_⟩⟩
  · rw [← hrel.data a]
    by_cases hb : t₁.mostRecentlyUsed = some a
    · obtain ⟨-, m, hm⟩ := hmost a hb
      rw [hm]
      exact (congrArg (Option.map CClassRecord.data) (hlast a m hb hm)).trans rfl
    · exact congrArg (Option.map CClassRecord.data) (hother a hap hb)
  · rw [hrel.rest]
    rfl

/-! ### Evictions -/

theorem Evicted.refl (s : CForestCache Hash Obj) : Evicted s s :=
  ⟨fun _ => rfl, rfl, Nat.le_refl _, fun _ => id⟩

theorem Evicted.trans (h : Evicted s t) (h' : Evicted t u) : Evicted s u where
  bare a := (h'.bare a).trans (h.bare a)
  rest := by
    rw [h'.rest, h.rest]
  total := Nat.le_trans h'.total h.total
  lost a ha := h'.lost a (h.lost a ha)

theorem Evicted.heap_eq (h : Evicted s t) {a : ℕ} (ha : s.heap a = some r) :
    ∃ r', t.heap a = some r' ∧ r'.bare = r.bare := by
  have hb := h.bare a
  rw [ha] at hb
  exact Option.map_eq_some_iff.mp hb

/-- The sizes of the records are untouched by links. -/
theorem sizeAt_of_data {a : ℕ}
    (h : (t.heap a).map CClassRecord.data = (s.heap a).map CClassRecord.data) :
    t.sizeAt a = s.sizeAt a := by
  have hsize : ∀ u : CForestCache Hash Obj, u.sizeAt a =
      (((u.heap a).map CClassRecord.data).map CClassRecord.classDefSize).getD 0 := by
    intro u
    simp only [sizeAt, Option.map_map]
    rfl
  rw [hsize, hsize, h]

theorem defs_of_data {a : ℕ}
    (h : (t.heap a).map CClassRecord.data = (s.heap a).map CClassRecord.data) :
    t.defs a = s.defs a := by
  have hdefs : ∀ u : CForestCache Hash Obj, u.defs a =
      ((u.heap a).map CClassRecord.data).map CClassRecord.classDef := by
    intro u
    rw [Option.map_map]
    rfl
  rw [hdefs, hdefs, h]

theorem sum_sizes_erase (hp : p ∈ ns) :
    s.sizeAt p + ((ns.erase p).map s.sizeAt).sum = (ns.map s.sizeAt).sum :=
  List.sum_map_erase s.sizeAt hp

theorem bare_of_data {a : ℕ}
    (h : (t.heap a).map CClassRecord.data = (s.heap a).map CClassRecord.data) :
    (t.heap a).map CClassRecord.bare = (s.heap a).map CClassRecord.bare := by
  have hbare : ∀ u : CForestCache Hash Obj, (u.heap a).map CClassRecord.bare =
      ((u.heap a).map CClassRecord.data).map CClassRecord.bare := by
    intro u
    rw [Option.map_map]
    rfl
  rw [hbare t, hbare s, h]

/-- A record gets other contents, but keeps its links. -/
theorem Chained.put {n n' : CClassRecord Hash Obj} (h : s.Chained ns) (hp : s.heap p = some n)
    (hm : n'.moreRecentlyUsed = n.moreRecentlyUsed) (hl : n'.lessRecentlyUsed = n.lessRecentlyUsed)
    (hheap : t.heap = Function.update s.heap p (some n'))
    (hleast : t.leastRecentlyUsed = s.leastRecentlyUsed)
    (hmost : t.mostRecentlyUsed = s.mostRecentlyUsed) (hfresh : t.fresh = s.fresh) :
    t.Chained ns := by
  have hlinks : ∀ a, t.more a = s.more a ∧ t.less a = s.less a := by
    intro a
    by_cases hap : a = p
    · subst hap
      simp [more, less, hheap, hp, hm, hl]
    · simp [more, less, hheap, Function.update_of_ne hap]
  have hback : ∀ a m, t.heap a = some m → ∃ m', s.heap a = some m' ∧
      m.moreRecentlyUsed = m'.moreRecentlyUsed ∧ m.lessRecentlyUsed = m'.lessRecentlyUsed := by
    intro a m ham
    rw [hheap] at ham
    by_cases hap : a = p
    · subst hap
      rw [Function.update_self] at ham
      cases ham
      exact ⟨n, hp, hm, hl⟩
    · rw [Function.update_of_ne hap] at ham
      exact ⟨m, ham, rfl, rfl⟩
  constructor
  · rw [hleast, hmost]
    exact h.chain.congr (fun a _ => (hlinks a).1) fun a _ => (hlinks a).2
  · intro a ha
    rw [hheap]
    by_cases hap : a = p
    · subst hap
      exact ⟨n', Function.update_self a _ _⟩
    · obtain ⟨m, hm⟩ := h.allocated a ha
      exact ⟨m, (Function.update_of_ne hap _ _).trans hm⟩
  · intro a m ham hnot
    obtain ⟨m', hm', h₁, h₂⟩ := hback a m ham
    rw [h₁, h₂]
    exact h.loose a m' hm' hnot
  · intro a m ham
    obtain ⟨m', hm', -, -⟩ := hback a m ham
    rw [hfresh]
    exact h.bound a m' hm'

/-- What `RemoveRecord` leaves: the record has no definition, the others are as before. -/
structure Removed (p : ℕ) (r : CClassRecord Hash Obj) (s t : CForestCache Hash Obj) : Prop where
  evicted : Evicted s t
  own : t.heap p = some r.bare
  others : ∀ a, a ≠ p → (t.heap a).map CClassRecord.data = (s.heap a).map CClassRecord.data
  ticks : t.ticks = s.ticks
  total : t.totalMemory = s.totalMemory - if r.classDef.isSome then r.classDefSize else 0

theorem runs_removeRecord (h : s.Lru ns) (hinit : s.init = true) (hp : s.heap p = some r) :
    Runs (removeRecord p) (fun _ t => t.Lru (ns.erase p) ∧ Removed p r s t) s := by
  rw [Runs, removeRecord, wp_bind, wp_get, wp_ite]
  refine ⟨fun _ => ?_, fun hno => absurd hinit hno⟩
  rw [wp_bind, wp_record hp, wp_ite]
  refine ⟨fun hdef => ?_, fun hdef => ?_⟩
  · have hmem : p ∈ ns := (h.mem p r hp).mpr (by
      intro hnone
      rw [hnone] at hdef
      cases hdef)
    rw [wp_bind]
    refine (runs_untie h.chained hp).mono fun _ t₁ h₁ => ?_
    obtain ⟨hch, hrel, hp₁⟩ := h₁
    rw [wp_bind, wp_modify, wp_update (r := r.data)]
    rotate_left
    · exact hp₁
    have htot := hrel.totalMemory_eq
    have hsum := sum_sizes_erase (s := s) hmem
    have hsize : s.sizeAt p = r.classDefSize := by simp [sizeAt, hp]
    have htotal := h.total
    have hsmall := h.small
    have hnew : (t₁.totalMemory + 2 ^ 32 - r.classDefSize) % 2 ^ 32 =
        s.totalMemory - r.classDefSize := by
      rw [htot, show s.totalMemory + 2 ^ 32 - r.classDefSize =
        s.totalMemory - r.classDefSize + 2 ^ 32 by omega, Nat.add_mod_right,
        Nat.mod_eq_of_lt (by omega)]
    rw [hnew]
    have hnot : p ∉ ns.erase p := h.chained.chain.nodup.not_mem_erase
    have hother : ∀ a, a ≠ p → (Function.update t₁.heap p (some r.bare) a).map CClassRecord.data =
          (s.heap a).map CClassRecord.data := by
      intro a hap
      rw [Function.update_of_ne hap]
      exact hrel.data a
    refine ⟨⟨hch.put hp₁ (show r.bare.moreRecentlyUsed = _ from rfl) rfl rfl rfl rfl rfl,
      fun a m hm => ?_, ?_, ?_⟩, ⟨fun a => ?_, ?_, ?_, fun a ha => ?_⟩,
      Function.update_self p _ _, hother, ?_, ?_⟩
    · by_cases hap : a = p
      · subst hap
        have hbare : some r.bare = some m := (Function.update_self a _ t₁.heap).symm.trans hm
        cases hbare
        exact ⟨fun hmem' => absurd hmem' hnot, fun hne => absurd rfl hne⟩
      · have hd := hother a hap
        rw [show Function.update t₁.heap p (some r.bare) a = some m from hm] at hd
        obtain ⟨m', hm', heq⟩ := Option.map_eq_some_iff.mp hd.symm
        have hdef : m'.classDef = m.classDef := by
          change m'.data.classDef = m.data.classDef
          rw [heq]
        rw [List.mem_erase_of_ne hap, ← hdef]
        exact h.mem a m' hm'
    · have hsizes : (ns.erase p).map s.sizeAt = (ns.erase p).map (CForestCache.sizeAt
          { t₁ with
            totalMemory := s.totalMemory - r.classDefSize
            heap := Function.update t₁.heap p (some r.bare) }) := by
        refine List.map_congr_left fun a ha => (sizeAt_of_data (hother a fun heq => ?_)).symm
        exact hnot (heq ▸ ha)
      refine Eq.trans ?_ (congrArg List.sum hsizes)
      change s.totalMemory - r.classDefSize = _
      omega
    · change s.totalMemory - r.classDefSize < _
      omega
    · by_cases hap : a = p
      · subst hap
        change (Function.update t₁.heap a (some r.bare) a).map CClassRecord.bare = _
        rw [Function.update_self, hp]
        rfl
      · exact bare_of_data (hother a hap)
    · rw [hrel.rest]
    · exact Nat.sub_le _ _
    · by_cases hap : a = p
      · subst hap
        change (Function.update t₁.heap a (some r.bare) a).map CClassRecord.classDef = _
        rw [Function.update_self]
        rfl
      · exact (defs_of_data (hother a hap)).trans ha
    · exact hrel.ticks_eq
    · rw [if_pos hdef]
  · have hnone : r.classDef = none := by simpa using hdef
    have hmem : p ∉ ns := fun hmem => (h.mem p r hp).mp hmem hnone
    obtain ⟨hm, hl⟩ := h.chained.loose p r hp hmem
    have hbare : r.bare = r := by
      cases r
      simp only at hm hl hnone
      subst hm hl hnone
      rfl
    rw [wp_pure, List.erase_of_not_mem hmem]
    exact ⟨h, .refl s, hbare ▸ hp, fun _ _ => rfl, rfl, by rw [if_neg hdef, Nat.sub_zero]⟩

theorem Lru.least_allocated (h : s.Lru ns) (hl : s.leastRecentlyUsed = some p) :
    p ∈ ns ∧ ∃ r, s.heap p = some r := by
  have hmem : p ∈ ns := List.mem_of_mem_head? (h.chained.chain.head_eq.symm.trans hl)
  exact ⟨hmem, h.chained.allocated p hmem⟩

/-- Evictions come to an end, and what is left is not stale. -/
theorem runs_evictWhile (stale : CForestCache Hash Obj → CClassRecord Hash Obj → Bool) (fuel : ℕ)
    (h : s.Lru ns) (hinit : s.init = true) (hfuel : ns.length < fuel) :
    Runs (evictWhile stale fuel) (fun _ t => (∃ ns', t.Lru ns') ∧ Evicted s t ∧ t.ticks = s.ticks ∧
      ∀ p r, t.leastRecentlyUsed = some p → t.heap p = some r → stale t r = false) s := by
  induction fuel generalizing s ns with
  | zero => exact absurd hfuel (Nat.not_lt_zero _)
  | succ fuel ih =>
    rw [Runs, evictWhile, wp_bind, wp_get]
    rcases hl : s.leastRecentlyUsed with _ | p
    · exact ⟨⟨ns, h⟩, .refl s, rfl, fun p r hp => nomatch hl.symm.trans hp⟩
    obtain ⟨hmem, r, hr⟩ := h.least_allocated hl
    simp only
    rw [wp_bind, wp_record hr, wp_bind, wp_get, wp_ite]
    refine ⟨fun _ => ?_, fun hno => ?_⟩
    · rw [wp_bind]
      refine (runs_removeRecord h hinit hr).mono fun _ t₁ h₁ => ?_
      obtain ⟨hlru, hrem⟩ := h₁
      have hinit₁ : t₁.init = true := by
        rw [hrem.evicted.rest]
        exact hinit
      have hlen : (ns.erase p).length < fuel := by
        have := List.length_pos_of_mem hmem
        rw [List.length_erase_of_mem hmem]
        omega
      refine (ih hlru hinit₁ hlen).mono fun _ t h₂ => ?_
      obtain ⟨hlru', hev, hticks, hstale⟩ := h₂
      exact ⟨hlru', hrem.evicted.trans hev, hticks.trans hrem.ticks, hstale⟩
    · rw [wp_pure]
      refine ⟨⟨ns, h⟩, .refl s, rfl, fun p' r' hp' hr' => ?_⟩
      obtain rfl : p = p' := Option.some.inj (hl.symm.trans hp')
      obtain rfl : r = r' := Option.some.inj (hr.symm.trans hr')
      simpa using hno

/-- The chain does not depend on the rest of the cache. -/
theorem Lru.of_eq (h : s.Lru ns) (hheap : t.heap = s.heap)
    (hleast : t.leastRecentlyUsed = s.leastRecentlyUsed)
    (hmost : t.mostRecentlyUsed = s.mostRecentlyUsed) (hfresh : t.fresh = s.fresh)
    (htotal : t.totalMemory = s.totalMemory) : t.Lru ns := by
  have hmore : t.more = s.more := by
    funext a
    rw [more, more, hheap]
  have hless : t.less = s.less := by
    funext a
    rw [less, less, hheap]
  have hsize : t.sizeAt = s.sizeAt := by
    funext a
    rw [sizeAt, sizeAt, hheap]
  constructor
  · constructor
    · rw [hmore, hless, hleast, hmost]
      exact h.chained.chain
    · rw [hheap]
      exact h.chained.allocated
    · rw [hheap]
      exact h.chained.loose
    · rw [hheap, hfresh]
      exact h.chained.bound
  · rw [hheap]
    exact h.mem
  · rw [hsize, htotal]
    exact h.total
  · rw [htotal]
    exact h.small

/-- `MakeRoom` makes room, unless there never is enough. -/
theorem runs_makeRoom {dwSize : ℕ} (h : s.Lru ns) (hinit : s.init = true)
    (hwrap : dwSize ≤ s.maxMemory → s.totalMemory + dwSize < 2 ^ 32) :
    Runs (makeRoom dwSize) (fun b t => (∃ ns', t.Lru ns') ∧ Evicted s t ∧
      (b = true → t.totalMemory + dwSize ≤ s.maxMemory) ∧
      (b = false → t = s ∧ s.maxMemory < dwSize)) s := by
  rw [Runs, makeRoom, wp_bind, wp_get, wp_ite]
  refine ⟨fun hno => ?_, fun _ => ?_⟩
  · rw [hinit] at hno
    cases hno
  rw [wp_ite]
  refine ⟨fun hbig => ?_, fun hfits => ?_⟩
  · rw [wp_pure]
    exact ⟨⟨ns, h⟩, .refl s, nofun, fun _ => ⟨rfl, hbig⟩⟩
  rw [wp_bind]
  refine wp_getTickCount fun now ts => ?_
  rw [wp_bind]
  have hfuel : ns.length < s.fresh + 1 := Nat.lt_succ_of_le h.chained.length_le
  have hticks : Lru { s with ticks := ts } ns := h.of_eq rfl rfl rfl rfl rfl
  refine (runs_evictWhile (tooFull dwSize now) _ hticks hinit hfuel).mono fun _ t h₁ => ?_
  obtain ⟨⟨ns', hlru⟩, hev, hticks, hstale⟩ := h₁
  rw [wp_pure]
  have hev' : Evicted s t := by
    refine ⟨hev.bare, ?_, hev.total, hev.lost⟩
    rw [hev.rest]
  refine ⟨⟨ns', hlru⟩, hev', fun _ => ?_, nofun⟩
  have hmax : t.maxMemory = s.maxMemory := by
    rw [hev'.rest]
  have hle := hev'.total
  have hsum := hwrap (Nat.not_lt.mp hfits)
  rcases hl : t.leastRecentlyUsed with _ | p
  · have hchain := hlru.chained.chain
    rw [hl] at hchain
    have hzero : t.totalMemory = 0 := by
      rw [hlru.total, hchain.eq_nil_of_head]
      rfl
    omega
  · obtain ⟨-, r, hr⟩ := hlru.least_allocated hl
    have hno := hstale p r hl hr
    simp only [tooFull, decide_eq_false_iff_not, not_or, Nat.not_lt] at hno
    rw [Nat.mod_eq_of_lt (by omega), hmax] at hno
    exact hno.1

theorem runs_flush (h : s.Lru ns) (hinit : s.init = true) :
    Runs flush (fun _ t => t.Lru [] ∧ Evicted s t) s := by
  rw [Runs, flush, wp_bind, wp_get, wp_ite]
  refine ⟨fun hno => ?_, fun _ => ?_⟩
  · rw [hinit] at hno
    cases hno
  rw [wp_bind]
  have hfuel : ns.length < s.fresh + 1 := Nat.lt_succ_of_le h.chained.length_le
  refine (runs_evictWhile (fun _ _ => true) _ h hinit hfuel).mono fun _ t h₁ => ?_
  obtain ⟨⟨ns', hlru⟩, hev, -, hstale⟩ := h₁
  rw [wp_pure]
  rcases hl : t.leastRecentlyUsed with _ | p
  · have hchain := hlru.chained.chain
    rw [hl] at hchain
    obtain rfl := hchain.eq_nil_of_head
    exact ⟨hlru, hev⟩
  · obtain ⟨-, r, hr⟩ := hlru.least_allocated hl
    cases hstale p r hl hr

end CForestCache

end NtAdmin.Wmi.A51
