import Mathlib.Data.List.Perm.Subperm
import NtAdmin.Lib.DoublyLinked
import NtAdmin.Sr.Restmap.RestoreList

/-! What the operations on the nodes of a restore list do to its links and to the data in it. -/
namespace NtAdmin.Sr
open Lib Prog

variable {Path : Type}

/-- A node without its links. -/
def CNode.data (n : CNode Path) : CNode Path := { n with m_pNext := none, m_pPrev := none }

namespace RestoreList

def next (s : RestoreList Path) (a : ℕ) : Option ℕ := (s.heap a).bind CNode.m_pNext

def prev (s : RestoreList Path) (a : ℕ) : Option ℕ := (s.heap a).bind CNode.m_pPrev

def dataAt (s : RestoreList Path) (a : ℕ) : Option (CNode Path) := (s.heap a).map CNode.data

/-- The nodes `ns` are linked, and allocated. -/
structure Linked (s : RestoreList Path) (ns : List ℕ) : Prop where
  chain : DoublyLinked s.next s.prev s.m_pListHead s.m_pListTail ns
  allocated : ∀ a ∈ ns, ∃ n, s.heap a = some n
  bound : ∀ a n, s.heap a = some n → a < s.fresh

end RestoreList

open RestoreList

variable {s t : RestoreList Path} {ns : List ℕ}

theorem linked_new : (RestoreList.new Path).Linked [] where
  chain := DoublyLinked.empty _ _
  allocated a ha := by simp at ha
  bound a n hn := by simp [RestoreList.new] at hn

theorem RestoreList.Linked.lt_fresh (h : s.Linked ns) {a : ℕ} (ha : a ∈ ns) : a < s.fresh := by
  obtain ⟨n, hn⟩ := h.allocated a ha
  exact h.bound a n hn

theorem RestoreList.Linked.length_le (h : s.Linked ns) : ns.length ≤ s.fresh := by
  have hsub : ns ⊆ List.range s.fresh := fun a ha => List.mem_range.2 (h.lt_fresh ha)
  simpa using (List.subperm_of_subset h.chain.nodup hsub).length_le

/-! ### Single accesses -/

section access
variable {p : ℕ} {n m : CNode Path} {E : AccessFault → RestoreList Path → Prop}

theorem wp_node {Q : CNode Path → RestoreList Path → Prop} (h : s.heap p = some n) :
    wp (node p) Q E s ↔ Q n s := by
  simp [node, h]

theorem wp_put {Q : PUnit → RestoreList Path → Prop} (h : s.heap p = some n) :
    wp (put p m) Q E s ↔ Q ⟨⟩ { s with heap := Function.update s.heap p (some m) } := by
  simp [put, wp_node h]

/-- The successor of a node, if there is one, gets other links. -/
def RestoreList.adjust (s : RestoreList Path) (o : Option ℕ) (f : CNode Path → CNode Path) :
    RestoreList Path :=
  { s with heap := fun a => if o = some a then (s.heap a).map f else s.heap a }

theorem adjust_some (h : s.heap p = some n) (f : CNode Path → CNode Path) :
    s.adjust (some p) f = { s with heap := Function.update s.heap p (some (f n)) } := by
  have hheap : (fun a => if some p = some a then (s.heap a).map f else s.heap a) =
      Function.update s.heap p (some (f n)) := by
    funext a
    by_cases ha : a = p
    · subst ha
      simp [h]
    · rw [Function.update_of_ne ha, if_neg (fun hp => ha (Option.some.inj hp).symm)]
  rw [RestoreList.adjust, hheap]

theorem wp_setNext {Q : PUnit → RestoreList Path → Prop} {o next : Option ℕ}
    (h : ∀ p, o = some p → ∃ n, s.heap p = some n) :
    wp (setNext o next) Q E s ↔ Q ⟨⟩ (s.adjust o fun n => { n with m_pNext := next }) := by
  cases o with
  | none => simp [setNext, RestoreList.adjust]
  | some p =>
    obtain ⟨n, hn⟩ := h p rfl
    rw [adjust_some hn]
    simp [setNext, wp_node hn, wp_put hn]

theorem wp_setPrev {Q : PUnit → RestoreList Path → Prop} {o prev : Option ℕ}
    (h : ∀ p, o = some p → ∃ n, s.heap p = some n) :
    wp (setPrev o prev) Q E s ↔ Q ⟨⟩ (s.adjust o fun n => { n with m_pPrev := prev }) := by
  cases o with
  | none => simp [setPrev, RestoreList.adjust]
  | some p =>
    obtain ⟨n, hn⟩ := h p rfl
    rw [adjust_some hn]
    simp [setPrev, wp_node hn, wp_put hn]

end access

/-! ### Nodes that are taken out -/

/-- No access of the program fails. -/
def Safe {α : Type} (m : ListM Path α) (Q : α → RestoreList Path → Prop) (s : RestoreList Path) :
    Prop :=
  wp m Q (fun _ _ => False) s

theorem adjust_heap_isSome {o : Option ℕ} {f : CNode Path → CNode Path} {a : ℕ} {n : CNode Path}
    (h : s.heap a = some n) : ∃ n', (s.adjust o f).heap a = some n' := by
  simp only [RestoreList.adjust]
  split_ifs
  · exact ⟨f n, by rw [h]; rfl⟩
  · exact ⟨n, h⟩

/-- What is left when a node is unlinked. -/
structure Unlinked (s t : RestoreList Path) (ns : List ℕ) (q : ℕ) : Prop where
  linked : t.Linked (ns.erase q)
  own : ∃ n, s.heap q = some n ∧ t.heap q = some n.data
  others : ∀ a, a ≠ q → t.dataAt a = s.dataAt a

theorem safe_removeNode {q : ℕ} (h : s.Linked ns) (hq : q ∈ ns) :
    Safe (removeNode q) (fun _ t => Unlinked s t ns q) s := by
  obtain ⟨n, hn⟩ := h.allocated q hq
  have hprev : ∀ p, n.m_pPrev = some p → p ∈ ns := fun p hp =>
    h.chain.prev_mem hq (by simp [RestoreList.prev, hn, hp])
  have hnext : ∀ p, n.m_pNext = some p → p ∈ ns := fun p hp =>
    h.chain.next_mem hq (by simp [RestoreList.next, hn, hp])
  -- the state when both neighbours are relinked
  let s₂ := (s.adjust n.m_pPrev fun m => { m with m_pNext := n.m_pNext }).adjust n.m_pNext
    fun m => { m with m_pPrev := n.m_pPrev }
  have hself : n.m_pPrev ≠ some q ∧ n.m_pNext ≠ some q := by
    constructor
    · intro hp
      exact h.chain.prev_ne hq (by simp [RestoreList.prev, hn, hp])
    · intro hp
      exact h.chain.next_ne hq (by simp [RestoreList.next, hn, hp])
  have hq₂ : s₂.heap q = some n := by
    simp [s₂, RestoreList.adjust, hself.1, hself.2, hn]
  have hheap₂ : ∀ a m, s.heap a = some m → s₂.heap a = some { m with
      m_pNext := if n.m_pPrev = some a then n.m_pNext else m.m_pNext
      m_pPrev := if n.m_pNext = some a then n.m_pPrev else m.m_pPrev } := by
    intro a m hm
    by_cases hp : n.m_pPrev = some a <;> by_cases hx : n.m_pNext = some a <;>
      simp [s₂, RestoreList.adjust, hp, hx, hm]
  have hnone₂ : ∀ a, s.heap a = none → s₂.heap a = none := by
    intro a ha
    simp [s₂, RestoreList.adjust, ha]
  have hrun : ∀ Q : PUnit → RestoreList Path → Prop, Safe (removeNode q) Q s ↔ Q ⟨⟩
      { s₂ with
        m_pListHead := if s.m_pListHead = some q then n.m_pNext else s.m_pListHead
        m_pListTail := if s.m_pListTail = some q then n.m_pPrev else s.m_pListTail
        heap := Function.update s₂.heap q (some n.data) } := by
    intro Q
    rw [Safe, removeNode, wp_bind, wp_node hn, wp_bind,
      wp_setNext fun p hp => h.allocated p (hprev p hp), wp_bind, wp_setPrev, wp_bind, wp_modify,
      wp_bind, wp_node, wp_put]
    · exact Iff.rfl
    · exact hq₂
    · exact hq₂
    · intro p hp
      obtain ⟨m, hm⟩ := h.allocated p (hnext p hp)
      exact adjust_heap_isSome hm
  rw [hrun]
  have hne : ∀ a ∈ ns.erase q, a ≠ q := by
    rintro a ha rfl
    exact h.chain.nodup.not_mem_erase ha
  constructor
  · constructor
    · refine h.chain.unlink hq ?_ ?_ ?_ ?_
      · intro a ha haq
        obtain ⟨m, hm⟩ := h.allocated a ha
        simp [RestoreList.next, RestoreList.prev, Function.update_of_ne haq, hheap₂ a m hm, hn, hm]
      · intro a ha haq
        obtain ⟨m, hm⟩ := h.allocated a ha
        simp [RestoreList.next, RestoreList.prev, Function.update_of_ne haq, hheap₂ a m hm, hn, hm]
      · simp [RestoreList.next, hn]
      · simp [RestoreList.prev, hn]
    · intro a ha
      obtain ⟨m, hm⟩ := h.allocated a (List.mem_of_mem_erase ha)
      exact ⟨_, (Function.update_of_ne (hne a ha) _ _).trans (hheap₂ a m hm)⟩
    · intro a m hm
      by_cases haq : a = q
      · subst haq
        exact h.bound a n hn
      · have hm' : s₂.heap a = some m := (Function.update_of_ne haq _ _).symm.trans hm
        cases ha : s.heap a with
        | none => simp [hnone₂ a ha] at hm'
        | some m' => exact h.bound a m' ha
  · exact ⟨n, hn, Function.update_self ..⟩
  · intro a haq
    simp only [RestoreList.dataAt, Function.update_of_ne haq]
    cases ha : s.heap a with
    | none => rw [hnone₂ a ha]
    | some m => rw [hheap₂ a m ha]; rfl

/-- What is left when a node is freed. -/
structure Freed (s t : RestoreList Path) (ns : List ℕ) (q : ℕ) : Prop where
  linked : t.Linked (ns.erase q)
  others : ∀ a, a ≠ q → t.dataAt a = s.dataAt a

/-- A node that is not linked can be freed. -/
theorem safe_freeNode {q : ℕ} {n : CNode Path} (h : s.Linked ns) (hq : q ∉ ns)
    (hn : s.heap q = some n.data) :
    Safe (freeNode q) (fun _ t => t.Linked ns ∧ ∀ a, a ≠ q → t.dataAt a = s.dataAt a) s := by
  have hhead : s.m_pListHead ≠ some q := fun hh =>
    hq (List.mem_of_mem_head? (h.chain.head_eq.symm.trans hh))
  have htail : s.m_pListTail ≠ some q := fun ht =>
    hq (List.mem_of_getLast? (h.chain.tail_eq.symm.trans ht))
  have hne : ∀ a ∈ ns, a ≠ q := fun a ha haq => hq (haq ▸ ha)
  have hrun : ∀ Q : PUnit → RestoreList Path → Prop, Safe (freeNode q) Q s ↔
      Q ⟨⟩ { s with heap := Function.update s.heap q none } := by
    intro Q
    simp [Safe, freeNode, wp_node hn, CNode.data, hhead, htail]
  rw [hrun]
  refine ⟨?_, ?_⟩
  · constructor
    · refine h.chain.congr ?_ ?_
      · intro a ha
        simp [RestoreList.next, Function.update_of_ne (hne a ha)]
      · intro a ha
        simp [RestoreList.prev, Function.update_of_ne (hne a ha)]
    · intro a ha
      obtain ⟨m, hm⟩ := h.allocated a ha
      exact ⟨m, (Function.update_of_ne (hne a ha) _ _).trans hm⟩
    · intro a m hm
      by_cases haq : a = q
      · subst haq
        nomatch (Function.update_self a none s.heap).symm.trans hm
      · exact h.bound a m ((Function.update_of_ne haq _ _).symm.trans hm)
  · intro a haq
    simp [RestoreList.dataAt, Function.update_of_ne haq]

theorem safe_dropNode {q : ℕ} (h : s.Linked ns) (hq : q ∈ ns) :
    Safe (dropNode q) (fun _ t => Freed s t ns q) s := by
  rw [Safe, dropNode, wp_bind]
  refine wp_mono (safe_removeNode h hq) ?_ (fun _ _ hf => hf)
  intro _ t ht
  obtain ⟨n, -, hn⟩ := ht.own
  refine wp_mono (safe_freeNode ht.linked h.chain.nodup.not_mem_erase hn) ?_ (fun _ _ hf => hf)
  rintro _ u ⟨hu, hothers⟩
  exact ⟨hu, fun a ha => (hothers a ha).trans (ht.others a ha)⟩

/-! ### Nodes that are changed and linked in -/

/-- Data of a node are replaced. -/
theorem linked_put {p : ℕ} {n m : CNode Path} (h : s.Linked ns) (hn : s.heap p = some n)
    (hnext : m.m_pNext = n.m_pNext) (hprev : m.m_pPrev = n.m_pPrev) :
    { s with heap := Function.update s.heap p (some m) }.Linked ns := by
  constructor
  · refine h.chain.congr ?_ ?_
    · intro a _
      by_cases hap : a = p
      · simp [RestoreList.next, hap, hn, hnext]
      · simp [RestoreList.next, Function.update_of_ne hap]
    · intro a _
      by_cases hap : a = p
      · simp [RestoreList.prev, hap, hn, hprev]
      · simp [RestoreList.prev, Function.update_of_ne hap]
  · intro a ha
    by_cases hap : a = p
    · exact ⟨m, hap ▸ Function.update_self a (some m) s.heap⟩
    · obtain ⟨m', hm'⟩ := h.allocated a ha
      exact ⟨m', (Function.update_of_ne hap _ _).trans hm'⟩
  · intro a m' hm'
    by_cases hap : a = p
    · exact hap ▸ h.bound p n hn
    · exact h.bound a m' ((Function.update_of_ne hap _ _).symm.trans hm')

/-- The contents of a new node. -/
def CNode.new (pPath1 pPath2 : Option Path) : CNode Path :=
  ⟨none, none, .unknown, noAttributes, none, none, false, pPath1, pPath2⟩

/-- What holds when a node is linked in at the end. -/
structure Appended (s t : RestoreList Path) (ns : List ℕ) (pPath1 pPath2 : Option Path) (p : ℕ) :
    Prop where
  notMem : p ∉ ns
  linked : t.Linked (ns ++ [p])
  own : t.dataAt p = some (CNode.new pPath1 pPath2)
  others : ∀ a, a ≠ p → t.dataAt a = s.dataAt a

theorem safe_appendNode (h : s.Linked ns) (pPath1 pPath2 : Option Path) :
    Safe (appendNode pPath1 pPath2) (fun p t => Appended s t ns pPath1 pPath2 p) s := by
  have hfresh : s.fresh ∉ ns := fun hf => Nat.lt_irrefl _ (h.lt_fresh hf)
  have hne : ∀ a ∈ ns, a ≠ s.fresh := fun a ha haf => hfresh (haf ▸ ha)
  cases hhead : s.m_pListHead with
  | none =>
    have hchain := h.chain
    rw [hhead] at hchain
    obtain rfl := hchain.eq_nil_of_head
    have hrun : ∀ Q : ℕ → RestoreList Path → Prop, Safe (appendNode pPath1 pPath2) Q s ↔
        Q s.fresh ⟨some s.fresh, some s.fresh,
          Function.update s.heap s.fresh (some (CNode.new pPath1 pPath2)), s.fresh + 1⟩ := by
      intro Q
      simp [Safe, appendNode, allocateNode, hhead, node, put, CNode.new]
    rw [hrun]
    refine ⟨by simp, ⟨?_, ?_, ?_⟩, ?_, ?_⟩
    · apply DoublyLinked.append_of_empty <;> simp [RestoreList.next, RestoreList.prev, CNode.new]
    · intro a ha
      obtain rfl : a = s.fresh := by simpa using ha
      exact ⟨_, Function.update_self ..⟩
    · intro a m hm
      by_cases ha : a = s.fresh
      · simp [ha]
      · exact Nat.lt_succ_of_lt (h.bound a m ((Function.update_of_ne ha _ _).symm.trans hm))
    · simp [RestoreList.dataAt, CNode.new, CNode.data]
    · intro a ha
      simp [RestoreList.dataAt, Function.update_of_ne ha]
  | some a =>
    have hns : ns ≠ [] := by
      rintro rfl
      nomatch hhead.symm.trans h.chain.head_eq
    obtain ⟨b, htail⟩ : ∃ b, s.m_pListTail = some b :=
      ⟨_, h.chain.tail_eq.trans (List.getLast?_eq_some_getLast hns)⟩
    have hchain := h.chain
    rw [htail] at hchain
    have hb : b ∈ ns := hchain.tail_mem
    have hbf : b ≠ s.fresh := hne b hb
    obtain ⟨n, hn⟩ := h.allocated b hb
    have hrun : ∀ Q : ℕ → RestoreList Path → Prop, Safe (appendNode pPath1 pPath2) Q s ↔
        Q s.fresh ⟨some a, some s.fresh,
          Function.update (Function.update s.heap b (some { n with m_pNext := some s.fresh })) s.fresh
            (some { CNode.new pPath1 pPath2 with m_pPrev := some b }), s.fresh + 1⟩ := by
      intro Q
      simp [Safe, appendNode, allocateNode, hhead, htail, node, put, CNode.new, hbf, hn,
        Function.update_comm hbf.symm]
    rw [hrun]
    have hheap : ∀ c, c ≠ s.fresh → c ≠ b → Function.update (Function.update s.heap b
        (some { n with m_pNext := some s.fresh })) s.fresh
          (some { CNode.new pPath1 pPath2 with m_pPrev := some b }) c = s.heap c := by
      intro c hc hcb
      rw [Function.update_of_ne hc, Function.update_of_ne hcb]
    refine ⟨hfresh, ⟨?_, ?_, ?_⟩, ?_, ?_⟩
    · refine (hhead ▸ hchain).append hfresh ?_ ?_ ?_ ?_ ?_
      · simp [RestoreList.next, Function.update_of_ne hbf]
      · simp [RestoreList.next, CNode.new]
      · simp [RestoreList.prev]
      · intro c hc hcb
        simp only [RestoreList.next, hheap c (hne c hc) hcb]
      · intro c hc
        by_cases hcb : c = b
        · subst hcb
          simp [RestoreList.prev, Function.update_of_ne hbf, hn]
        · simp only [RestoreList.prev, hheap c (hne c hc) hcb]
    · intro c hc
      by_cases hcf : c = s.fresh
      · subst hcf
        exact ⟨_, Function.update_self ..⟩
      · by_cases hcb : c = b
        · subst hcb
          exact ⟨_, (Function.update_of_ne hcf _ _).trans (Function.update_self ..)⟩
        · have hc' : c ∈ ns := by simpa [hcf] using hc
          obtain ⟨m, hm⟩ := h.allocated c hc'
          exact ⟨m, (hheap c hcf hcb).trans hm⟩
    · intro c m hm
      by_cases hcf : c = s.fresh
      · exact hcf ▸ Nat.lt_succ_self _
      · by_cases hcb : c = b
        · subst hcb
          exact Nat.lt_succ_of_lt (h.bound c n hn)
        · exact Nat.lt_succ_of_lt (h.bound c m ((hheap c hcf hcb).symm.trans hm))
    · simp [RestoreList.dataAt, CNode.new, CNode.data]
    · intro c hcf
      by_cases hcb : c = b
      · subst hcb
        simp [RestoreList.dataAt, Function.update_of_ne hcf, hn, CNode.data]
      · simp only [RestoreList.dataAt, hheap c hcf hcb]

/-! ### The search -/

section search
variable (shell : Shell Path) (pPath1 pPath2 : Option Path) (fFailOnPrefixMatch : Bool)

/-- The search through nodes with the data `D`. -/
def scanBack (D : ℕ → Option (CNode Path)) : List ℕ → Option ℕ
  | [] => none
  | a :: as =>
    match (D a).map (examine shell pPath1 pPath2 fFailOnPrefixMatch) with
    | some .goOn => scanBack D as
    | some .found => some a
    | _ => none

def scanBehind (D : ℕ → Option (CNode Path)) (p : ℕ) (des : CNode Path) : List ℕ → Option ℕ
  | [] => some p
  | a :: as =>
    if a = p then some p
    else if (D a).any (dependsOn shell des) then none
    else scanBehind D p des as

/-- The node that `GetLastNode` finds among `ns`. -/
def lastNode (D : ℕ → Option (CNode Path)) (ns : List ℕ) : Option ℕ :=
  (scanBack shell pPath1 pPath2 fFailOnPrefixMatch D ns.reverse).bind fun p =>
    (D p).bind fun n =>
      if isRename n.m_dwOperation then scanBehind shell D p n ns.reverse else some p

variable {shell pPath1 pPath2 fFailOnPrefixMatch}

theorem scanBack_mem {D : ℕ → Option (CNode Path)} {as : List ℕ} {p : ℕ}
    (h : scanBack shell pPath1 pPath2 fFailOnPrefixMatch D as = some p) :
    p ∈ as ∧ ∃ n, D p = some n ∧ n.m_dwOperation ≠ .unknown := by
  induction as with
  | nil => nomatch h
  | cons a as ih =>
    rw [scanBack] at h
    split at h
    · exact ⟨List.mem_cons_of_mem _ (ih h).1, (ih h).2⟩
    · next hexamine =>
      obtain rfl := Option.some.inj h
      obtain ⟨n, hn, hfound⟩ := Option.map_eq_some_iff.1 hexamine
      refine ⟨List.mem_cons_self, n, hn, ?_⟩
      intro hop
      simp [examine, hop] at hfound
    · nomatch h

theorem scanBehind_eq {D : ℕ → Option (CNode Path)} {as : List ℕ} {p q : ℕ} {des : CNode Path}
    (h : scanBehind shell D p des as = some q) : q = p := by
  induction as with
  | nil => exact (Option.some.inj h).symm
  | cons a as ih =>
    rw [scanBehind] at h
    split_ifs at h
    · exact (Option.some.inj h).symm
    · exact ih h

theorem lastNode_mem {D : ℕ → Option (CNode Path)} {p : ℕ}
    (h : lastNode shell pPath1 pPath2 fFailOnPrefixMatch D ns = some p) :
    p ∈ ns ∧ ∃ n, D p = some n ∧ n.m_dwOperation ≠ .unknown := by
  rw [lastNode, Option.bind_eq_some_iff] at h
  obtain ⟨q, hscan, h⟩ := h
  obtain ⟨hq, n, hn, hop⟩ := scanBack_mem hscan
  rw [hn, Option.bind_some] at h
  have hpq : p = q := by
    split_ifs at h
    · exact scanBehind_eq h
    · exact (Option.some.inj h).symm
  subst hpq
  exact ⟨List.mem_reverse.1 hq, n, hn, hop⟩

theorem scanBack_congr {D D' : ℕ → Option (CNode Path)} {as : List ℕ} (h : ∀ a ∈ as, D' a = D a) :
    scanBack shell pPath1 pPath2 fFailOnPrefixMatch D' as =
      scanBack shell pPath1 pPath2 fFailOnPrefixMatch D as := by
  induction as with
  | nil => rfl
  | cons a as ih =>
    rw [scanBack, scanBack, h a List.mem_cons_self,
      ih fun b hb => h b (List.mem_cons_of_mem _ hb)]

theorem scanBehind_congr {D D' : ℕ → Option (CNode Path)} {as : List ℕ} {p : ℕ} {des : CNode Path}
    (h : ∀ a ∈ as, D' a = D a) :
    scanBehind shell D' p des as = scanBehind shell D p des as := by
  induction as with
  | nil => rfl
  | cons a as ih =>
    rw [scanBehind, scanBehind, h a List.mem_cons_self,
      ih fun b hb => h b (List.mem_cons_of_mem _ hb)]

theorem scanBehind_data (D : ℕ → Option (CNode Path)) (as : List ℕ) (p : ℕ) (des : CNode Path) :
    scanBehind shell D p des.data as = scanBehind shell D p des as := by
  have hdepends : dependsOn shell des.data = dependsOn shell des := rfl
  induction as with
  | nil => rfl
  | cons a as ih => rw [scanBehind, scanBehind, ih, hdepends]

/-- A node at the end without an operation is passed over. -/
theorem lastNode_append {D D' : ℕ → Option (CNode Path)} {b : ℕ} {n : CNode Path} (hb : b ∉ ns)
    (hn : D' b = some n) (hop : n.m_dwOperation = .unknown) (h : ∀ a, a ≠ b → D' a = D a) :
    lastNode shell pPath1 pPath2 fFailOnPrefixMatch D' (ns ++ [b]) =
      lastNode shell pPath1 pPath2 fFailOnPrefixMatch D ns := by
  have hne : ∀ a ∈ ns.reverse, D' a = D a := by
    intro a ha
    exact h a fun hab => hb (hab ▸ List.mem_reverse.1 ha)
  have hexamine : examine shell pPath1 pPath2 fFailOnPrefixMatch n = .goOn := by
    simp [examine, hop]
  have hdepends : ∀ des, dependsOn shell des n = false := by
    intro des
    simp [dependsOn, isDirectoryLife, isRename, hop]
  rw [lastNode, lastNode, List.reverse_append, List.reverse_singleton, List.singleton_append,
    scanBack, hn, Option.map_some, hexamine]
  dsimp only
  rw [scanBack_congr hne]
  cases hscan : scanBack shell pPath1 pPath2 fFailOnPrefixMatch D ns.reverse with
  | none => rfl
  | some p =>
    have hp := (scanBack_mem hscan).1
    have hbp : b ≠ p := fun hbp => hb (hbp ▸ List.mem_reverse.1 hp)
    simp only [Option.bind_some, hne p hp, scanBehind, if_neg hbp, hn, Option.any_some, hdepends,
      Bool.false_eq_true, if_false, scanBehind_congr hne]

theorem examine_data (n : CNode Path) :
    examine shell pPath1 pPath2 fFailOnPrefixMatch n.data =
      examine shell pPath1 pPath2 fFailOnPrefixMatch n := rfl

/-- The search from a node backward reads the nodes in front of it. -/
theorem safe_searchBack (h : s.Linked ns) {as bs : List ℕ} (hns : ns = as.reverse ++ bs)
    {rounds : ℕ} (hrounds : as.length ≤ rounds) :
    Safe (searchBack shell pPath1 pPath2 fFailOnPrefixMatch rounds as.head?)
      (fun r t => t = s ∧ r = scanBack shell pPath1 pPath2 fFailOnPrefixMatch s.dataAt as) s := by
  induction as generalizing rounds bs with
  | nil => cases rounds <;> exact ⟨rfl, rfl⟩
  | cons a as ih =>
    cases rounds with
    | zero => simp at hrounds
    | succ rounds =>
      rw [List.reverse_cons, List.append_assoc, List.singleton_append] at hns
      obtain ⟨n, hn⟩ := h.allocated a (by simp [hns])
      have hprev : n.m_pPrev = as.head? := by
        have hp := h.chain.prev_eq _ a bs hns
        rw [List.getLast?_reverse] at hp
        simpa [RestoreList.prev, hn] using hp
      have hdata : (s.dataAt a).map (examine shell pPath1 pPath2 fFailOnPrefixMatch) =
          some (examine shell pPath1 pPath2 fFailOnPrefixMatch n) := by
        simp [RestoreList.dataAt, hn, examine_data]
      rw [List.head?_cons, Safe, searchBack, wp_bind, wp_node hn]
      simp only [scanBack, hdata]
      cases examine shell pPath1 pPath2 fFailOnPrefixMatch n with
      | goOn =>
        dsimp only
        rw [hprev]
        exact ih hns (Nat.le_of_succ_le_succ hrounds)
      | found => exact ⟨rfl, rfl⟩
      | stop => exact ⟨rfl, rfl⟩

theorem safe_checkBehind (h : s.Linked ns) {as bs : List ℕ} (hns : ns = as.reverse ++ bs)
    {rounds p : ℕ} {des : CNode Path} (hrounds : as.length ≤ rounds) :
    Safe (checkBehind shell p des rounds as.head?)
      (fun r t => t = s ∧ r = scanBehind shell s.dataAt p des as) s := by
  induction as generalizing rounds bs with
  | nil => cases rounds <;> exact ⟨rfl, rfl⟩
  | cons a as ih =>
    cases rounds with
    | zero => simp at hrounds
    | succ rounds =>
      rw [List.reverse_cons, List.append_assoc, List.singleton_append] at hns
      obtain ⟨n, hn⟩ := h.allocated a (by simp [hns])
      have hprev : n.m_pPrev = as.head? := by
        have hp := h.chain.prev_eq _ a bs hns
        rw [List.getLast?_reverse] at hp
        simpa [RestoreList.prev, hn] using hp
      have hdata : (s.dataAt a).any (dependsOn shell des) = dependsOn shell des n := by
        simp only [RestoreList.dataAt, hn, Option.map_some, Option.any_some]
        rfl
      rw [List.head?_cons, Safe, checkBehind, scanBehind, hdata]
      by_cases hap : a = p
      · rw [if_pos hap, if_pos hap]
        exact ⟨rfl, rfl⟩
      · rw [if_neg hap, if_neg hap, wp_bind, wp_node hn]
        cases dependsOn shell des n with
        | true => exact ⟨rfl, rfl⟩
        | false =>
          rw [hprev]
          exact ih hns (Nat.le_of_succ_le_succ hrounds)

theorem safe_getLastNode (h : s.Linked ns) :
    Safe (getLastNode shell pPath1 pPath2 fFailOnPrefixMatch) (fun r t => t = s ∧
      r = lastNode shell pPath1 pPath2 fFailOnPrefixMatch s.dataAt ns) s := by
  have htail : s.m_pListTail = ns.reverse.head? := by
    rw [h.chain.tail_eq, List.head?_reverse]
  have hns : ns = ns.reverse.reverse ++ [] := by simp
  have hrounds : ns.reverse.length ≤ s.fresh + 1 := by
    rw [List.length_reverse]
    exact Nat.le_succ_of_le h.length_le
  rw [Safe, getLastNode, wp_bind, wp_get, htail, wp_bind]
  refine wp_mono (safe_searchBack h hns hrounds) ?_ (fun _ _ hf => hf)
  rintro r t ⟨rfl, rfl⟩
  cases hscan : scanBack shell pPath1 pPath2 fFailOnPrefixMatch t.dataAt ns.reverse with
  | none => exact ⟨rfl, by rw [lastNode, hscan]; rfl⟩
  | some p =>
    have hp := List.mem_reverse.1 (scanBack_mem hscan).1
    obtain ⟨n, hn⟩ := h.allocated p hp
    have hlast : lastNode shell pPath1 pPath2 fFailOnPrefixMatch t.dataAt ns =
        if isRename n.m_dwOperation then scanBehind shell t.dataAt p n ns.reverse else some p := by
      have hdata : t.dataAt p = some n.data := by simp [RestoreList.dataAt, hn]
      have hop : n.data.m_dwOperation = n.m_dwOperation := rfl
      rw [lastNode, hscan, Option.bind_some, hdata, Option.bind_some, hop, scanBehind_data]
    dsimp only
    rw [wp_bind, wp_node hn, hlast]
    cases isRename n.m_dwOperation with
    | true => exact safe_checkBehind h hns hrounds
    | false => exact ⟨rfl, rfl⟩

end search

end NtAdmin.Sr
