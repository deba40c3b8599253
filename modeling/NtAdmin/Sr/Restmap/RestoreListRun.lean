import NtAdmin.Sr.Restmap.RestoreListSpec

/-! Which nodes a restore list holds after any entries, and when its map can be generated. -/
namespace NtAdmin.Sr
open Lib Prog

variable {Path : Type}

/-! ### Nodes -/

namespace CNode
variable (n : CNode Path) (pTmpFile : Option Path) (pbAcl : Option (List UInt8)) (fAclInline : Bool)

@[simp] theorem copyTemp_next : (n.copyTemp pTmpFile).m_pNext = n.m_pNext := rfl
@[simp] theorem copyTemp_prev : (n.copyTemp pTmpFile).m_pPrev = n.m_pPrev := rfl
@[simp] theorem copyTemp_op : (n.copyTemp pTmpFile).m_dwOperation = n.m_dwOperation := rfl
@[simp] theorem copyTemp_path1 : (n.copyTemp pTmpFile).m_pPath1 = n.m_pPath1 := rfl
@[simp] theorem copyTemp_path2 : (n.copyTemp pTmpFile).m_pPath2 = n.m_pPath2 := rfl

@[simp] theorem copyAcl_next : (n.copyAcl pbAcl fAclInline).m_pNext = n.m_pNext := by
  cases pbAcl <;> rfl
@[simp] theorem copyAcl_prev : (n.copyAcl pbAcl fAclInline).m_pPrev = n.m_pPrev := by
  cases pbAcl <;> rfl
@[simp] theorem copyAcl_op : (n.copyAcl pbAcl fAclInline).m_dwOperation = n.m_dwOperation := by
  cases pbAcl <;> rfl
@[simp] theorem copyAcl_path1 : (n.copyAcl pbAcl fAclInline).m_pPath1 = n.m_pPath1 := by
  cases pbAcl <;> rfl
@[simp] theorem copyAcl_path2 : (n.copyAcl pbAcl fAclInline).m_pPath2 = n.m_pPath2 := by
  cases pbAcl <;> rfl

@[simp] theorem data_op : n.data.m_dwOperation = n.m_dwOperation := rfl
@[simp] theorem data_path1 : n.data.m_pPath1 = n.m_pPath1 := rfl
@[simp] theorem data_path2 : n.data.m_pPath2 = n.m_pPath2 := rfl

end CNode

variable (shell : Shell Path)

/-- A node whose operation is known, with a second path exactly for a rename, to another name. -/
structure NodeOk (n : CNode Path) : Prop where
  known : n.m_dwOperation ≠ .unknown
  path1 : n.m_pPath1.isSome
  path2 : n.m_pPath2.isSome = isRename n.m_dwOperation
  renames : isRename n.m_dwOperation → shell.same n.m_pPath1 n.m_pPath2 = false

/-- All nodes but `p` are in order. -/
def OkExcept (s : RestoreList Path) (ns : List ℕ) (p : ℕ) : Prop :=
  ∀ a ∈ ns, a ≠ p → ∃ n, s.dataAt a = some n ∧ NodeOk shell n

structure RestoreList.Inv (s : RestoreList Path) (ns : List ℕ) : Prop where
  linked : s.Linked ns
  nodes : ∀ a ∈ ns, ∃ n, s.dataAt a = some n ∧ NodeOk shell n

variable {shell} {s t : RestoreList Path} {ns : List ℕ} {p q : ℕ} {n m : CNode Path}
  {e : LogEntry Path}

/-- A node whose links and paths stay keeps in order if its operation still goes with the paths. -/
theorem NodeOk.of_paths (h : NodeOk shell n) (hpath1 : m.m_pPath1 = n.m_pPath1)
    (hpath2 : m.m_pPath2 = n.m_pPath2) (hknown : m.m_dwOperation ≠ .unknown)
    (hop : isRename m.m_dwOperation = isRename n.m_dwOperation) : NodeOk shell m where
  known := hknown
  path1 := hpath1 ▸ h.path1
  path2 := by rw [hpath2, hop, h.path2]
  renames hr := by
    rw [hpath1, hpath2]
    exact h.renames (hop ▸ hr)

/-- A rename that becomes another operation on its second path. -/
theorem NodeOk.second (h : NodeOk shell n) (hr : isRename n.m_dwOperation)
    (hpath1 : m.m_pPath1 = n.m_pPath2) (hpath2 : m.m_pPath2 = none)
    (hknown : m.m_dwOperation ≠ .unknown) (hop : isRename m.m_dwOperation = false) :
    NodeOk shell m where
  known := hknown
  path1 := by rw [hpath1, h.path2, hr]
  path2 := by rw [hpath2, hop]; rfl
  renames hm := by rw [hop] at hm; nomatch hm

theorem isRename_reverse (op : Operation) : isRename (getReverseOperation op) = isRename op := by
  cases op <;> rfl

theorem reverse_ne_unknown {op : Operation} (h : op ≠ .unknown) :
    getReverseOperation op ≠ .unknown := by
  cases op <;> simp_all [getReverseOperation]

theorem safe_put (h : s.Linked ns) (hn : s.heap p = some n) (hnext : m.m_pNext = n.m_pNext)
    (hprev : m.m_pPrev = n.m_pPrev) :
    Safe (put p m) (fun _ t => t.Linked ns ∧ t.heap p = some m ∧
      (∀ a, a ≠ p → t.heap a = s.heap a)) s := by
  rw [Safe, wp_put hn]
  exact ⟨linked_put h hn hnext hprev, Function.update_self .., fun a ha =>
    Function.update_of_ne ha _ _⟩

theorem OkExcept.of_data (h : OkExcept shell s ns p) {ns' : List ℕ} (hsub : ∀ a ∈ ns', a ∈ ns)
    (hdata : ∀ a ∈ ns', a ≠ p → t.dataAt a = s.dataAt a) : OkExcept shell t ns' p := by
  intro a ha hap
  rw [hdata a ha hap]
  exact h a (hsub a ha) hap

theorem inv_of_okExcept (hl : s.Linked ns) (h : OkExcept shell s ns p) (hn : s.heap p = some n)
    (hok : NodeOk shell n.data) : s.Inv shell ns where
  linked := hl
  nodes a ha := by
    by_cases hap : a = p
    · exact ⟨n.data, by simp [RestoreList.dataAt, hap, hn], hok⟩
    · exact h a ha hap

/-- One node is changed, the others are in order. -/
theorem safe_put_inv (h : s.Linked ns) (hothers : OkExcept shell s ns p) (hn : s.heap p = some n)
    (hnext : m.m_pNext = n.m_pNext) (hprev : m.m_pPrev = n.m_pPrev) (hok : NodeOk shell m.data) :
    Safe (put p m) (fun _ t => t.Inv shell ns) s := by
  refine wp_mono (safe_put h hn hnext hprev) ?_ (fun _ _ hf => hf)
  rintro _ t ⟨hl, hp, hheap⟩
  have hothers' : OkExcept shell t ns p := hothers.of_data (fun a ha => ha) fun a _ hap => by
    simp only [RestoreList.dataAt, hheap a hap]
  exact inv_of_okExcept hl hothers' hp hok

/-- One node is taken out, the others are in order. -/
theorem safe_dropNode_inv (h : s.Linked ns) (hothers : OkExcept shell s ns p) (hp : p ∈ ns) :
    Safe (dropNode p) (fun _ t => t.Inv shell (ns.erase p)) s := by
  refine wp_mono (safe_dropNode h hp) ?_ (fun _ _ hf => hf)
  intro _ t ht
  refine ⟨ht.linked, ?_⟩
  intro a ha
  have hap : a ≠ p := fun hap => h.chain.nodup.not_mem_erase (hap ▸ ha)
  rw [ht.others a hap]
  exact hothers a (List.mem_of_mem_erase ha) hap

theorem RestoreList.Inv.except (h : s.Inv shell ns) (p : ℕ) : OkExcept shell s ns p :=
  fun a ha _ => h.nodes a ha

theorem RestoreList.Inv.heap (h : s.Inv shell ns) (hp : p ∈ ns) :
    ∃ n, s.heap p = some n ∧ NodeOk shell n.data := by
  obtain ⟨d, hd, hok⟩ := h.nodes p hp
  obtain ⟨n, hn, rfl⟩ := Option.map_eq_some_iff.1 hd
  exact ⟨n, hn, hok⟩

/-! ### A node is created -/

theorem nodeOk_fill (hknown : e.dwOpr ≠ .unknown) (hpath1 : n.m_pPath1.isSome)
    (hpath2 : n.m_pPath2.isSome = isRename e.dwOpr)
    (hrenames : isRename e.dwOpr → shell.same n.m_pPath1 n.m_pPath2 = false) :
    NodeOk shell (n.fill e).data where
  known := by simpa [CNode.fill] using reverse_ne_unknown hknown
  path1 := by simpa [CNode.fill] using hpath1
  path2 := by simpa [CNode.fill, isRename_reverse] using hpath2
  renames := by simpa [CNode.fill, isRename_reverse] using hrenames

/-- A rename that is merged with a node of its destination, unless that renames a directory. -/
theorem nodeOk_mergeRename {des : CNode Path} (hdes : NodeOk shell des)
    (hop : n.m_dwOperation = .unknown) (hpath1 : n.m_pPath1.isSome) (hpath2 : n.m_pPath2.isSome)
    (hsame : shell.same n.m_pPath1 n.m_pPath2 = false) (hdir : des.m_dwOperation ≠ .dirRename)
    (hcycle : des.m_dwOperation = .fileRename → shell.same n.m_pPath1 des.m_pPath2 = false) :
    NodeOk shell (mergeRename n des .fileRename n.m_pPath2).data := by
  have hknown := hdes.known
  have hsecond := hdes.path2
  cases hdesOp : des.m_dwOperation <;> simp_all only [ne_eq, not_true_eq_false] <;>
    constructor <;> simp_all [mergeRename, copyNode, isRename]

@[simp] theorem copyNode_next (src des : CNode Path) (f : Bool) :
    (copyNode src des f).m_pNext = src.m_pNext := by
  rw [copyNode]
  split_ifs <;> simp

@[simp] theorem copyNode_prev (src des : CNode Path) (f : Bool) :
    (copyNode src des f).m_pPrev = src.m_pPrev := by
  rw [copyNode]
  split_ifs <;> simp

theorem mergeRename_next (n des : CNode Path) (op : Operation) (pPath2 : Option Path) :
    (mergeRename n des op pPath2).m_pNext = n.m_pNext := by
  simp only [mergeRename]
  split_ifs <;> simp

theorem mergeRename_prev (n des : CNode Path) (op : Operation) (pPath2 : Option Path) :
    (mergeRename n des op pPath2).m_pPrev = n.m_pPrev := by
  simp only [mergeRename]
  split_ifs <;> simp

/-- An entry for which a node is created. -/
structure EntryOk (shell : Shell Path) (e : LogEntry Path) : Prop where
  known : e.dwOpr ≠ .unknown
  path1 : e.pPath1.isSome
  path2 : e.pPath2.isSome = isRename e.dwOpr

/-- What is left when a node was created: it is in order, or is to be dropped. -/
def Created (shell : Shell Path) (p : ℕ) (fRet : Bool) (t : RestoreList Path) : Prop :=
  ∃ ns, if fRet then t.Inv shell ns else t.Linked ns ∧ p ∈ ns ∧ OkExcept shell t ns p

theorem safe_fill (h : s.Linked ns) (hothers : OkExcept shell s ns p) (hn : s.heap p = some n)
    (hentry : EntryOk shell e) (hpath1 : n.m_pPath1 = e.pPath1) (hpath2 : n.m_pPath2 = e.pPath2)
    (hsame : isRename e.dwOpr → shell.same e.pPath1 e.pPath2 = false) :
    Safe (do put p (n.fill e); pure true) (Created shell p) s := by
  have hok : NodeOk shell (n.fill e).data := by
    apply nodeOk_fill hentry.known
    · exact hpath1 ▸ hentry.path1
    · exact hpath2 ▸ hentry.path2
    · rw [hpath1, hpath2]
      exact hsame
  rw [Safe, wp_bind]
  refine wp_mono (safe_put_inv h hothers hn ?_ ?_ hok) ?_ (fun _ _ hf => hf)
  · simp [CNode.fill]
  · simp [CNode.fill]
  · intro _ t ht
    exact ⟨ns, ht⟩

theorem safe_createRestoreNode (h : s.Linked ns) (hp : p ∈ ns)
    (hown : s.dataAt p = some (CNode.new e.pPath1 e.pPath2)) (hothers : OkExcept shell s ns p)
    (hentry : EntryOk shell e)
    (hdir : e.dwOpr = .fileRename → shell.same e.pPath1 e.pPath2 = false → ∀ q d,
      lastNode shell e.pPath2 e.pPath1 true s.dataAt ns = some q → s.dataAt q = some d →
        d.m_dwOperation ≠ .dirRename) :
    Safe (createRestoreNode shell p e) (Created shell p) s := by
  obtain ⟨n, hn, hdata⟩ := Option.map_eq_some_iff.1 hown
  have hpath1 : n.m_pPath1 = e.pPath1 := congrArg CNode.m_pPath1 hdata
  have hpath2 : n.m_pPath2 = e.pPath2 := congrArg CNode.m_pPath2 hdata
  have hop : n.m_dwOperation = .unknown := congrArg CNode.m_dwOperation hdata
  rw [Safe, createRestoreNode, wp_bind, wp_node hn, isRename_reverse, hpath1, hpath2, wp_ite]
  constructor
  · -- a rename to the same name
    intro _
    rw [wp_bind]
    refine wp_mono (safe_dropNode_inv h hothers hp) ?_ (fun _ _ hf => hf)
    intro _ t ht
    exact ⟨_, ht⟩
  · intro hnot
    have hsame : isRename e.dwOpr → shell.same e.pPath1 e.pPath2 = false := by
      intro hr
      simpa [hr] using hnot
    rw [wp_ite]
    constructor
    · intro hrename
      have hfile : e.dwOpr = .fileRename := by
        cases hcase : e.dwOpr <;> simp [hcase, getReverseOperation] at hrename ⊢
      have hr : isRename e.dwOpr := by rw [hfile]; rfl
      rw [wp_bind]
      refine wp_mono (safe_getLastNode h) ?_ (fun _ _ hf => hf)
      rintro r t ⟨rfl, rfl⟩
      cases hlast : lastNode shell e.pPath2 e.pPath1 true t.dataAt ns with
      | none => exact safe_fill h hothers hn hentry hpath1 hpath2 hsame
      | some q =>
        obtain ⟨hq, d, hd, hdop⟩ := lastNode_mem hlast
        have hqp : q ≠ p := by
          rintro rfl
          obtain rfl := Option.some.inj (hd.symm.trans hown)
          exact hdop rfl
        obtain ⟨d', hd', hdes⟩ := hothers q hq hqp
        obtain rfl := Option.some.inj (hd.symm.trans hd')
        obtain ⟨des, hdesHeap, rfl⟩ := Option.map_eq_some_iff.1 hd
        have hdesKnown : des.m_dwOperation ≠ .unknown := hdop
        dsimp only
        rw [wp_bind, wp_node hdesHeap, if_pos hdesKnown, wp_ite]
        constructor
        · -- the renames cancel
          rintro ⟨hdesOp, -⟩
          have hdesRename : isRename des.data.m_dwOperation := by
            rw [CNode.data_op, hdesOp]
            rfl
          rw [wp_ite]
          constructor
          · intro _
            rw [wp_bind]
            refine wp_mono (safe_dropNode h hq) ?_ (fun _ _ hf => hf)
            intro _ u hu
            refine ⟨ns.erase q, hu.linked, (List.mem_erase_of_ne hqp.symm).2 hp, ?_⟩
            refine hothers.of_data (fun a ha => List.mem_of_mem_erase ha) fun a ha _ => ?_
            have haq : a ≠ q := fun haq => h.chain.nodup.not_mem_erase (haq ▸ ha)
            exact hu.others a haq
          · intro _
            have hok : NodeOk shell des.withoutRename.data := by
              refine hdes.second hdesRename rfl rfl ?_ ?_
              · simp only [CNode.withoutRename, CNode.data_op]
                split_ifs <;> simp
              · simp only [CNode.withoutRename, CNode.data_op]
                split_ifs <;> rfl
            rw [wp_bind]
            refine wp_mono (safe_put h hdesHeap rfl rfl) ?_ (fun _ _ hf => hf)
            rintro _ u ⟨hl, huq, hheap⟩
            refine ⟨ns, hl, hp, ?_⟩
            intro a ha hap
            by_cases haq : a = q
            · exact ⟨_, by rw [haq, RestoreList.dataAt, huq]; rfl, hok⟩
            · rw [RestoreList.dataAt, hheap a haq]
              exact hothers a ha hap
        · intro hnocycle
          have hcycle : des.data.m_dwOperation = .fileRename →
              shell.same n.m_pPath1 des.data.m_pPath2 = false := by
            intro hdesOp
            rw [CNode.data_op] at hdesOp
            simpa [hdesOp, hpath1] using hnocycle
          rw [wp_bind]
          refine wp_mono (safe_removeNode h hq) ?_ (fun _ _ hf => hf)
          intro _ u hu
          obtain ⟨_, -, huq⟩ := hu.own
          have hown' : u.dataAt p = some n.data := by
            rw [hu.others p hqp.symm, RestoreList.dataAt, hn]
            rfl
          obtain ⟨n', hn', hn'data⟩ := Option.map_eq_some_iff.1 hown'
          have hop' : n'.m_dwOperation = .unknown := (congrArg CNode.m_dwOperation hn'data).trans hop
          have hpath1' : n'.m_pPath1 = e.pPath1 := (congrArg CNode.m_pPath1 hn'data).trans hpath1
          have hpath2' : n'.m_pPath2 = e.pPath2 := (congrArg CNode.m_pPath2 hn'data).trans hpath2
          have hok := nodeOk_mergeRename hdes hop' (hpath1' ▸ hentry.path1)
            (by rw [hpath2', hentry.path2, hr]) (by rw [hpath1', hpath2']; exact hsame hr)
            (hdir hfile (hsame hr) q des.data hlast hd) (by rw [hpath1', ← hpath1]; exact hcycle)
          rw [hpath2'] at hok
          have hothers' : OkExcept shell u (ns.erase q) p :=
            hothers.of_data (fun a ha => List.mem_of_mem_erase ha) fun a ha _ =>
              hu.others a fun haq => h.chain.nodup.not_mem_erase (haq ▸ ha)
          rw [wp_bind, wp_node hn', hrename, wp_bind]
          refine wp_mono (safe_put hu.linked hn' (mergeRename_next ..) (mergeRename_prev ..)) ?_
            (fun _ _ hf => hf)
          rintro _ v ⟨hl, hvp, hheap⟩
          rw [wp_bind]
          refine wp_mono (safe_freeNode hl h.chain.nodup.not_mem_erase ((hheap q hqp).trans huq)) ?_
            (fun _ _ hf => hf)
          rintro _ w ⟨hlw, hw⟩
          refine ⟨ns.erase q, hlw, ?_⟩
          intro a ha
          have haq : a ≠ q := fun haq => h.chain.nodup.not_mem_erase (haq ▸ ha)
          rw [hw a haq]
          by_cases hap : a = p
          · exact ⟨_, by rw [hap, RestoreList.dataAt, hvp]; rfl, hok⟩
          · rw [RestoreList.dataAt, hheap a hap]
            exact hothers' a ha hap
    · intro _
      exact safe_fill h hothers hn hentry hpath1 hpath2 hsame

/-! ### A node is merged -/

theorem nodeOk_mergeFill (h : NodeOk shell n.data) (hknown : e.dwOpr ≠ .unknown)
    (hop : isRename e.dwOpr = isRename n.m_dwOperation) : NodeOk shell (n.mergeFill e).data := by
  apply h.of_paths
  · simp [CNode.mergeFill]
  · simp [CNode.mergeFill]
  · simpa [CNode.mergeFill] using reverse_ne_unknown hknown
  · simpa [CNode.mergeFill, isRename_reverse] using hop

theorem not_rename_of_canMerge {op op' : Operation} (h : canMerge op op')
    (hop : op' = .fileDelete ∨ op' = .dirDelete ∨ op' = .dirCreate) : isRename op = false := by
  obtain rfl | rfl | rfl := hop <;> cases op <;> first | rfl | nomatch h

/-- A program that ends with success. -/
theorem safe_then_true {α : Type} {m : ListM Path α} {P : RestoreList Path → Prop}
    (h : Safe m (fun _ => P) s) : Safe (do let _ ← m; pure true) (fun fRet t => fRet ∧ P t) s := by
  rw [Safe, wp_bind]
  refine wp_mono h ?_ (fun _ _ hf => hf)
  exact fun _ _ ht => ⟨rfl, ht⟩

theorem safe_mergeRestoreNode (h : s.Inv shell ns) (hp : p ∈ ns) (hn : s.heap p = some n)
    (hknown : e.dwOpr ≠ .unknown) (hrename : isRename e.dwOpr = false)
    (hmerge : canMerge n.m_dwOperation e.dwOpr) :
    Safe (mergeRestoreNode shell p e) (fun fRet t => fRet ∧ ∃ ns, t.Inv shell ns) s := by
  obtain ⟨n', hn', hok⟩ := h.heap hp
  obtain rfl := Option.some.inj (hn.symm.trans hn')
  have hput : ∀ m : CNode Path, m.m_pNext = n.m_pNext → m.m_pPrev = n.m_pPrev →
      NodeOk shell m.data →
      Safe (do put p m; pure true) (fun fRet t => fRet ∧ ∃ ns, t.Inv shell ns) s := by
    intro m hnext hprev hm
    refine safe_then_true (wp_mono (safe_put_inv h.linked (h.except p) hn hnext hprev hm) ?_
      (fun _ _ hf => hf))
    exact fun _ t ht => ⟨ns, ht⟩
  have hdrop : Safe (do dropNode p; pure true) (fun fRet t => fRet ∧ ∃ ns, t.Inv shell ns) s := by
    refine safe_then_true (wp_mono (safe_dropNode_inv h.linked (h.except p) hp) ?_
      (fun _ _ hf => hf))
    exact fun _ t ht => ⟨_, ht⟩
  have hfill : isRename n.m_dwOperation = false →
      Safe (do put p (n.mergeFill e); pure true) (fun fRet t => fRet ∧ ∃ ns, t.Inv shell ns) s := by
    intro hnr
    refine hput _ ?_ ?_ (nodeOk_mergeFill hok hknown (by rw [hrename]; exact hnr.symm))
    · simp [CNode.mergeFill]
    · simp [CNode.mergeFill]
  have hop : n.m_dwOperation ≠ .unknown := hok.known
  rw [Safe, mergeRestoreNode, wp_bind, wp_node hn]
  cases hcase : e.dwOpr with
  | unknown => exact absurd hcase hknown
  | fileRename => simp [hcase, isRename] at hrename
  | dirRename => simp [hcase, isRename] at hrename
  | fileAdd =>
    dsimp only
    split_ifs with hadd hr
    · exact hdrop
    · exact hput _ rfl rfl (hok.second hr rfl rfl (by simp [CNode.toDelete]) rfl)
    · exact hfill (by simpa using hr)
  | fileDelete =>
    have hnr := not_rename_of_canMerge hmerge (Or.inl hcase)
    dsimp only
    split_ifs with hdelete
    · refine hput _ (by simp) (by simp) (hok.of_paths (by simp) (by simp) (by simp) ?_)
      rw [CNode.data_op n, hnr]
      simp [isRename]
    · exact hfill hnr
  | fileModify =>
    dsimp only
    split_ifs with hkeep
    · exact hput _ rfl rfl (hok.of_paths rfl rfl hop rfl)
    · exact hfill (by simpa using (not_or.1 hkeep).2)
  | setAttrib =>
    dsimp only
    rw [if_pos hop]
    exact hput _ rfl rfl (hok.of_paths rfl rfl hop rfl)
  | setAcl =>
    dsimp only
    rw [if_pos hop]
    refine hput _ (by simp) (by simp) (hok.of_paths (by simp) (by simp) ?_ (by simp))
    simpa using hop
  | dirDelete =>
    have hnr := not_rename_of_canMerge hmerge (Or.inr (Or.inl hcase))
    dsimp only
    split_ifs with hdelete
    · refine hput _ (by simp) (by simp) (hok.of_paths (by simp) (by simp) (by simp) ?_)
      rw [CNode.data_op n, hnr]
      simp [isRename]
    · exact hfill hnr
  | dirCreate =>
    have hnr := not_rename_of_canMerge hmerge (Or.inr (Or.inr hcase))
    dsimp only
    split_ifs with hcreate hr
    · exact hdrop
    · rw [hnr] at hr
      cases hr
    · exact hfill hnr

/-! ### Entries -/

/-- No entry but a rename has a second path unless it is merged, and no file rename is merged with
the rename of a directory. -/
structure Settled (shell : Shell Path) (e : LogEntry Path) (s : RestoreList Path) : Prop where
  path2 : isRename e.dwOpr = false → e.pPath2 = none ∨
    ∃ p, (mergeCandidate shell e).result s = .ok (some p)
  renames : e.dwOpr = .fileRename → shell.same e.pPath1 e.pPath2 = false → ∀ p n,
    (getLastNode shell e.pPath2 e.pPath1 true).result s = .ok (some p) → s.heap p = some n →
      n.m_dwOperation ≠ .dirRename

theorem exists_of_safe {α : Type} {m : ListM Path α} {Q : α → RestoreList Path → Prop}
    (h : Safe m Q s) : ∃ a, m.result s = .ok a ∧ Q a (m.after s) := by
  unfold Safe wp at h
  unfold result after
  rcases hm : m s with ⟨_ | a, t⟩ <;> rw [hm] at h
  · exact h.elim
  · exact ⟨a, rfl, h⟩

theorem getLastNode_result (h : s.Linked ns) (pPath1 pPath2 : Option Path) :
    (getLastNode shell pPath1 pPath2 true).result s =
      .ok (lastNode shell pPath1 pPath2 true s.dataAt ns) := by
  have hsafe : Safe (getLastNode shell pPath1 pPath2 true) (fun r t => t = s ∧
      r = lastNode shell pPath1 pPath2 true s.dataAt ns) s := safe_getLastNode h
  obtain ⟨r, hresult, -, rfl⟩ := exists_of_safe hsafe
  exact hresult

theorem safe_mergeCandidate (h : s.Linked ns) : Safe (mergeCandidate shell e) (fun r t => t = s ∧
    ∀ p, r = some p → isRename e.dwOpr = false ∧ p ∈ ns ∧
      ∃ n, s.heap p = some n ∧ canMerge n.m_dwOperation e.dwOpr) s := by
  rw [Safe, mergeCandidate, wp_ite]
  constructor
  · intro _
    exact ⟨rfl, fun p hp => by cases hp⟩
  · intro hrename
    rw [wp_bind]
    refine wp_mono (safe_getLastNode h) ?_ (fun _ _ hf => hf)
    rintro r t ⟨rfl, rfl⟩
    cases hlast : lastNode shell e.pPath1 e.pPath2 true t.dataAt ns with
    | none => exact ⟨rfl, fun p hp => by cases hp⟩
    | some p =>
      obtain ⟨hp, -⟩ := lastNode_mem hlast
      obtain ⟨n, hn⟩ := h.allocated p hp
      dsimp only
      rw [wp_bind, wp_node hn]
      refine ⟨rfl, ?_⟩
      intro q hq
      split_ifs at hq with hmerge
      obtain rfl := Option.some.inj hq
      exact ⟨by simpa using hrename, hp, n, hn, hmerge⟩

/-- An entry that passes the check, and is not merged, gets a node of its own. -/
theorem entryOk_of_settled (hknown : e.dwOpr ≠ .unknown) (hcheck : checkIntegrity shell e)
    (hpath2 : isRename e.dwOpr = false → e.pPath2 = none) : EntryOk shell e where
  known := hknown
  path1 := by
    rw [checkIntegrity] at hcheck
    cases hpath1 : e.pPath1 with
    | none => simp [hpath1] at hcheck
    | some path1 => rfl
  path2 := by
    cases hr : isRename e.dwOpr with
    | false => rw [hpath2 hr]; rfl
    | true =>
      rw [checkIntegrity] at hcheck
      split_ifs at hcheck
      cases hop : e.dwOpr <;> simp_all [isRename]

theorem safe_addMergeElement (h : s.Inv shell ns) (hknown : e.dwOpr ≠ .unknown)
    (hcheck : checkIntegrity shell e) (hsettled : Settled shell e s) :
    Safe (addMergeElement shell e) (fun fRet t => fRet ∧ ∃ ns, t.Inv shell ns) s := by
  rw [Safe, addMergeElement, if_pos hcheck, wp_bind]
  refine wp_mono (wp_and (safe_mergeCandidate h.linked) (wp_run _ s)) ?_ (fun _ _ hf => hf.1)
  rintro r t ⟨⟨rfl, hmerge⟩, hresult, -⟩
  cases r with
  | some p =>
    obtain ⟨hrename, hp, n, hn, hmerge⟩ := hmerge p rfl
    exact safe_mergeRestoreNode h hp hn hknown hrename hmerge
  | none =>
    have hentry : EntryOk shell e := by
      refine entryOk_of_settled hknown hcheck fun hr => ?_
      obtain hpath2 | ⟨p, hp⟩ := hsettled.path2 hr
      · exact hpath2
      · cases hresult.symm.trans hp
    dsimp only
    rw [wp_bind]
    refine wp_mono (safe_appendNode h.linked e.pPath1 e.pPath2) ?_ (fun _ _ hf => hf)
    intro p u hu
    have hothers : OkExcept shell u (ns ++ [p]) p := by
      intro a ha hap
      rw [hu.others a hap]
      exact h.nodes a (by simpa [hap] using ha)
    have hdir : e.dwOpr = .fileRename → shell.same e.pPath1 e.pPath2 = false → ∀ q d,
        lastNode shell e.pPath2 e.pPath1 true u.dataAt (ns ++ [p]) = some q →
          u.dataAt q = some d → d.m_dwOperation ≠ .dirRename := by
      intro hop hsame q d hlast hd
      rw [lastNode_append hu.notMem hu.own rfl hu.others] at hlast
      have hq := (lastNode_mem hlast).1
      have hqp : q ≠ p := fun hqp => hu.notMem (hqp ▸ hq)
      rw [hu.others q hqp] at hd
      obtain ⟨n, hn, rfl⟩ := Option.map_eq_some_iff.1 hd
      refine hsettled.renames hop hsame q n ?_ hn
      rw [getLastNode_result h.linked, hlast]
    rw [wp_bind]
    refine wp_mono (safe_createRestoreNode hu.linked (by simp) hu.own hothers hentry hdir) ?_
      (fun _ _ hf => hf)
    rintro fRet v ⟨ns', hns'⟩
    cases fRet with
    | true => exact ⟨rfl, ns', hns'⟩
    | false =>
      obtain ⟨hl, hp, hothers⟩ := hns'
      refine safe_then_true (wp_mono (safe_dropNode_inv hl hothers hp) ?_ (fun _ _ hf => hf))
      exact fun _ _ ht => ⟨_, ht⟩

/-! ### The map -/

/-- What was written to `f` gives `r`, which is a failure only if a write failed. -/
structure Honest (f : MapFile Path) (r : Bool × MapFile Path) : Prop where
  outcomes : r.2.writeFile = f.writeFile
  writes : f.writes ≤ r.2.writes
  failed : r.1 = false → ∃ k, f.writes ≤ k ∧ k < r.2.writes ∧ f.writeFile k = false

section map
variable {f : MapFile Path} {record : MapRecord Path} {r : Bool × MapFile Path}

theorem Honest.trans (h : Honest f r) {r' : Bool × MapFile Path} (h' : Honest r.2 r') :
    Honest f r' where
  outcomes := h'.outcomes.trans h.outcomes
  writes := Nat.le_trans h.writes h'.writes
  failed hr := by
    obtain ⟨k, hk, hlt, hfail⟩ := h'.failed hr
    exact ⟨k, Nat.le_trans h.writes hk, hlt, h.outcomes ▸ hfail⟩

theorem honest_appendEntry (h : record.pPathSrc.isSome) (f : MapFile Path) :
    Honest f (appendEntry record f) := by
  have hnone : record.pPathSrc.isNone = false := by simpa [Option.isNone_iff_eq_none,
    Option.isSome_iff_ne_none] using h
  rw [appendEntry, hnone, if_neg Bool.false_ne_true]
  constructor
  · rfl
  · exact Nat.le_succ _
  · intro hfail
    exact ⟨f.writes, Nat.le_refl _, Nat.lt_succ_self _, hfail⟩

theorem Honest.appendIf (h : Honest f r) (c : Bool) (hpath : record.pPathSrc.isSome) :
    Honest f (appendIf c record r) := by
  cases c with
  | false => exact h
  | true => exact h.trans (honest_appendEntry hpath r.2)

theorem honest_generateOperation (h : NodeOk shell n) (f : MapFile Path) :
    Honest f (generateOperation shell n f) := by
  rw [generateOperation]
  dsimp only
  rw [if_neg h.known]
  by_cases hr : isRename n.m_dwOperation
  · -- a rename is to another name, so that the entry is not skipped
    rw [if_pos hr, generateRenameEntry, if_pos hr, h.renames hr]
    refine Honest.appendIf (Honest.appendIf (Honest.appendIf ?_ _ h.path1) _ h.path1) _ h.path1
    exact honest_appendEntry h.path1 f
  · rw [if_neg hr]
    exact ((honest_appendEntry h.path1 f).appendIf _ h.path1).appendIf _ h.path1

theorem safe_generateLoop (h : s.Inv shell ns) {as bs : List ℕ} (hns : ns = bs ++ as) {rounds : ℕ}
    (hrounds : as.length ≤ rounds) (f : MapFile Path) :
    Safe (generateLoop shell rounds as.head? f) (fun r t => t = s ∧ Honest f r) s := by
  induction as generalizing rounds bs f with
  | nil => cases rounds <;> exact ⟨rfl, rfl, Nat.le_refl _, fun hr => nomatch hr⟩
  | cons a as ih =>
    cases rounds with
    | zero => simp at hrounds
    | succ rounds =>
      obtain ⟨n, hn, hok⟩ := h.heap (p := a) (by simp [hns])
      have hnext : n.m_pNext = as.head? := by
        have hx := h.linked.chain.next_eq bs a as hns
        simpa [RestoreList.next, hn] using hx
      have hgen : Honest f (generateOperation shell n f) := honest_generateOperation hok f
      rw [List.head?_cons, Safe, generateLoop, wp_bind, wp_node hn, hnext]
      dsimp only
      rw [wp_ite]
      constructor
      · intro _
        have hsplit : ns = (bs ++ [a]) ++ as := by simp [hns]
        have hrest := ih hsplit (Nat.le_of_succ_le_succ hrounds) (generateOperation shell n f).2
        refine wp_mono hrest ?_ (fun _ _ hf => hf)
        rintro r t ⟨rfl, hr⟩
        exact ⟨rfl, hgen.trans hr⟩
      · intro hfail
        refine ⟨rfl, hgen.outcomes, hgen.writes, fun _ => hgen.failed ?_⟩
        simpa using hfail

end map

/-! ### Runs -/

/-- The links agree forward and backward from end to end, and every linked node has a known operation
with a second path exactly when it is a rename. -/
def RestoreList.WellFormed (s : RestoreList Path) : Prop :=
  ∃ ns, DoublyLinked s.next s.prev s.m_pListHead s.m_pListTail ns ∧ ∀ a ∈ ns, ∃ n, s.heap a = some n ∧
    n.m_dwOperation ≠ .unknown ∧ (n.m_pPath2.isSome ↔ isRename n.m_dwOperation)

/-- The list is well formed, and its map is generated unless a write fails. -/
def RestoreList.Total (shell : Shell Path) (s : RestoreList Path) : Prop :=
  s.WellFormed ∧ ∀ hFile, ∃ fRet hFile',
    (generateRestoreMap shell hFile).result s = .ok (fRet, hFile') ∧
      (fRet = false → ∃ k, hFile.writes ≤ k ∧ k < hFile'.writes ∧ hFile.writeFile k = false)

theorem wellFormed_of_inv (h : s.Inv shell ns) : s.WellFormed := by
  refine ⟨ns, h.linked.chain, ?_⟩
  intro a ha
  obtain ⟨n, hn, hok⟩ := h.heap ha
  refine ⟨n, hn, hok.known, ?_⟩
  have hpath2 : n.m_pPath2.isSome = isRename n.m_dwOperation := hok.path2
  rw [hpath2]

theorem total_of_inv (h : s.Inv shell ns) : s.Total shell := by
  refine ⟨wellFormed_of_inv h, ?_⟩
  intro f
  have hrounds : ns.length ≤ s.fresh + 1 := Nat.le_succ_of_le h.linked.length_le
  have hloop := safe_generateLoop h (List.nil_append ns).symm hrounds f
  have hmap : Safe (generateRestoreMap shell f) (fun r t => t = s ∧ Honest f r) s := by
    rw [Safe, generateRestoreMap, wp_bind, wp_get, h.linked.chain.head_eq]
    exact hloop
  obtain ⟨r, hresult, -, hr⟩ := exists_of_safe hmap
  exact ⟨r.1, r.2, hresult, hr.failed⟩

/-- The state after an entry. -/
def addEntry (shell : Shell Path) (e : LogEntry Path) (s : RestoreList Path) : RestoreList Path :=
  (addMergeElement shell e).after s

/-- From the empty list on, every entry is added without an invalid access, and the list is total in
every state. -/
def RunTotal (shell : Shell Path) (es : List (LogEntry Path)) : Prop :=
  ∀ pre post, es = pre ++ post →
    (runAll (addEntry shell) pre (RestoreList.new Path)).Total shell ∧ ∀ e ∈ post.head?,
      (addMergeElement shell e).result (runAll (addEntry shell) pre (RestoreList.new Path)) = .ok true

theorem inv_new : (RestoreList.new Path).Inv shell [] where
  linked := linked_new
  nodes a ha := by simp at ha

/-- An entry that is settled is added without an invalid access and keeps the invariant. -/
theorem inv_addEntry (h : s.Inv shell ns) (he : e.dwOpr ≠ .unknown ∧ checkIntegrity shell e)
    (hsettled : Settled shell e s) :
    (addMergeElement shell e).result s = .ok true ∧ ∃ ns, (addEntry shell e s).Inv shell ns := by
  obtain ⟨fRet, hresult, hret, hinv⟩ := exists_of_safe
    (safe_addMergeElement h he.1 he.2 hsettled)
  rw [hresult, hret]
  exact ⟨rfl, hinv⟩

theorem inv_runAll {es : List (LogEntry Path)} (h : s.Inv shell ns)
    (hes : ∀ e ∈ es, e.dwOpr ≠ .unknown ∧ checkIntegrity shell e)
    (hsettled : Along (addEntry shell) (Settled shell) es s) :
    ∃ ns, (runAll (addEntry shell) es s).Inv shell ns := by
  induction es generalizing s ns with
  | nil => exact ⟨ns, h⟩
  | cons e es ih =>
    obtain ⟨-, ns', h'⟩ := inv_addEntry h (hes e List.mem_cons_self) hsettled.1
    exact ih h' (fun e' he' => hes e' (List.mem_cons_of_mem _ he')) hsettled.2

theorem addMergeElement_run (shell : Shell Path) (es : List (LogEntry Path))
    (hes : ∀ e ∈ es, e.dwOpr ≠ .unknown ∧ checkIntegrity shell e)
    (hsettled : Along (addEntry shell) (Settled shell) es (RestoreList.new Path)) :
    RunTotal shell es := by
  rintro pre post rfl
  obtain ⟨hpre, hpost⟩ := (along_append pre post _).1 hsettled
  obtain ⟨ns, h⟩ := inv_runAll inv_new (fun e he => hes e (List.mem_append_left _ he)) hpre
  refine ⟨total_of_inv h, ?_⟩
  intro e he
  cases post with
  | nil => nomatch he
  | cons e' post =>
    obtain rfl : e' = e := by simpa using he
    exact (inv_addEntry h (hes e' (by simp)) hpost.1).1

/-! ### Two renames that are merged -/

/-- Names as they are, and files that all exist. -/
def exactShell : Shell (List UInt16) where
  same a b := a = b
  strStrI a b := a.any fun text => b.any fun part =>
    (List.range (text.length + 1)).any fun i => part.isPrefixOf (text.drop i)
  tempExists _ := true
  aclExists _ := true

/-- A directory is renamed from b to c, and before that a file was renamed from a to b. -/
def renamedTwice : List (LogEntry (List UInt16)) :=
  [⟨.dirRename, noAttributes, none, some [98], some [99], none, false⟩,
   ⟨.fileRename, noAttributes, none, some [97], some [98], none, false⟩]

/-- The directory rename that is left has no second path. -/
theorem not_runTotal_renamedTwice : ¬ ∀ es : List (LogEntry (List UInt16)),
    (∀ e ∈ es, e.dwOpr ≠ .unknown ∧ checkIntegrity exactShell e) → RunTotal exactShell es := by
  intro h
  have hes : ∀ e ∈ renamedTwice, e.dwOpr ≠ .unknown ∧ checkIntegrity exactShell e := by decide
  obtain ⟨⟨ns, hchain, hnodes⟩, -⟩ := (h renamedTwice hes renamedTwice [] rfl).1
  have hhead : (runAll (addEntry exactShell) renamedTwice (RestoreList.new _)).m_pListHead =
      some 1 := by decide
  have hleft : ((runAll (addEntry exactShell) renamedTwice (RestoreList.new _)).heap 1).map
      (fun n => (n.m_dwOperation, n.m_pPath2)) = some (.dirRename, none) := by decide
  have hmem : 1 ∈ ns := List.mem_of_mem_head? (hchain.head_eq.symm.trans hhead)
  obtain ⟨n, hn, -, hpath2⟩ := hnodes 1 hmem
  rw [hn, Option.map_some, Option.some.injEq, Prod.mk.injEq] at hleft
  rw [hleft.1, hleft.2] at hpath2
  nomatch hpath2.2 rfl

/-- A file that was created as a, then renamed to b, and after that changed. -/
def createdRenamedModified : List (LogEntry (List UInt16)) :=
  [⟨.fileModify, noAttributes, some [84], some [98], none, none, false⟩,
   ⟨.fileRename, noAttributes, none, some [97], some [98], none, false⟩,
   ⟨.fileAdd, noAttributes, none, some [97], none, none, false⟩]

theorem addMergeElement_run_renamed : RunTotal exactShell createdRenamedModified := by
  apply addMergeElement_run
  · decide
  · refine ⟨⟨fun _ => Or.inl rfl, fun hop => nomatch hop⟩, ⟨?_, fun _ _ p n hp hn => ?_⟩,
      ⟨fun _ => Or.inl rfl, fun hop => nomatch hop⟩, trivial⟩
    · exact fun hop => Bool.noConfusion hop
    · have hlast : (getLastNode exactShell (some [98]) (some [97]) true).result
          (addEntry exactShell ⟨.fileModify, noAttributes, some [84], some [98], none, none, false⟩
            (RestoreList.new _)) = .ok (some 0) := rfl
      have hmodify : ((addEntry exactShell ⟨.fileModify, noAttributes, some [84], some [98], none,
          none, false⟩ (RestoreList.new _)).heap 0).map CNode.m_dwOperation =
            some .fileModify := rfl
      obtain rfl : 0 = p := Option.some.inj (Except.ok.inj (hlast.symm.trans hp))
      rw [hn] at hmodify
      rw [Option.some.inj hmodify]
      exact fun hop => Operation.noConfusion hop

end NtAdmin.Sr
