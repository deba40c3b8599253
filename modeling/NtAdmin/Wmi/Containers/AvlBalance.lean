import NtAdmin.Wmi.Containers.AvlMemory

/-! What balancing does to the tree that stands in memory. -/
namespace NtAdmin.Wmi.Containers

open NtAdmin.Lib.Avl

namespace WmiAvlTree
variable {Key Element : Type} {t t' t'' : WmiAvlTree Key Element}
  {T T' c o : Bst (AvlItem Key Element)} {ctx : List (Frame (AvlItem Key Element))}
  {x : AvlItem Key Element} {s : Side} {state : WmAvlState}

/-- The same nodes exist, at other places of the tree. -/
structure Keeps (t t' : WmiAvlTree Key Element) : Prop where
  exist : ∀ a, (t'.node a).isSome = (t.node a).isSome
  size : t'.m_Size = t.m_Size

theorem Keeps.refl (t : WmiAvlTree Key Element) : Keeps t t := ⟨fun _ => rfl, rfl⟩

theorem Keeps.trans (h : Keeps t t') (h' : Keeps t' t'') : Keeps t t'' :=
  ⟨fun a => (h'.exist a).trans (h.exist a), h'.size.trans h.size⟩

/-- The subtree `T` stands in memory at the end of the path `ctx` from the root. -/
structure At (t : WmiAvlTree Key Element) (ctx : List (Frame (AvlItem Key Element)))
    (T : Bst (AvlItem Key Element)) : Prop where
  top : t.m_Root = topmost (root T) ctx
  path : RepPath t.node none (root T) ctx
  tree : Rep t.node (above none ctx) T
  nodup : (addresses T).Nodup
  nodup_path : (pathAddresses ctx).Nodup
  disjoint : ∀ a ∈ pathAddresses ctx, a ∉ addresses T

/-- Where the path ends makes no difference. -/
theorem at_iff : At t ctx T ↔ t.m_Root = root (T.plug ctx) ∧ Rep t.node none (T.plug ctx) ∧
    (addresses (T.plug ctx)).Nodup := by
  rw [root_plug, rep_plug, addresses_plug_perm.nodup_iff, List.nodup_append]
  constructor
  · intro h
    exact ⟨h.top, ⟨h.path, h.tree⟩, h.nodup, h.nodup_path,
      fun a ha b hb hab => h.disjoint b hb (hab ▸ ha)⟩
  · rintro ⟨htop, ⟨hpath, htree⟩, hnodup, hnodup_path, hdisjoint⟩
    exact ⟨htop, hpath, htree, hnodup, hnodup_path, fun a ha ha' => hdisjoint a ha' a ha rfl⟩

theorem At.move {ctx' : List (Frame (AvlItem Key Element))} (h : At t ctx T)
    (hplug : T'.plug ctx' = T.plug ctx) : At t ctx' T' := by
  rw [at_iff] at h ⊢
  rwa [hplug]

theorem at_cons {f : Frame (AvlItem Key Element)} :
    At t (f :: ctx) T ↔ At t ctx (.mk f.side T f.x f.state f.sibling) := by
  rw [at_iff, at_iff, Bst.plug]

/-! ### Writes -/

@[simp] theorem put_node (a : NodePtr) (n : WmiAvlNode Key Element) :
    (t.put a n).node = Function.update t.node a (some n) := rfl

@[simp] theorem put_root (a : NodePtr) (n : WmiAvlNode Key Element) :
    (t.put a n).m_Root = t.m_Root := rfl

variable (t) in
theorem put_of_ne {a b : NodePtr} (n : WmiAvlNode Key Element) (h : b ≠ a) :
    (t.put a n).node b = t.node b := Function.update_of_ne h _ _

theorem modify_of_node {a : NodePtr} {n : WmiAvlNode Key Element} (h : t.node a = some n)
    (f : WmiAvlNode Key Element → WmiAvlNode Key Element) : t.modify a f = some (t.put a (f n)) := by
  unfold modify
  rw [h, Option.map_some]

theorem keeps_put {a : NodePtr} {n : WmiAvlNode Key Element} (h : t.node a = some n)
    (n' : WmiAvlNode Key Element) : Keeps t (t.put a n') where
  exist b := by
    by_cases hb : b = a
    · rw [hb, h]
      simp
    · simp [hb]
  size := rfl

/-- A subtree gets another parent. -/
theorem setParent_spec {parent : Option NodePtr} (parent' : Option NodePtr)
    (h : Rep t.node parent T) (hnodup : (addresses T).Nodup) : ∃ t', t.setParent (root T) parent' = some t' ∧
      Rep t'.node parent' T ∧ (∀ a, a ∉ addresses T → t'.node a = t.node a) ∧
      t'.m_Root = t.m_Root ∧ Keeps t t' := by
  cases T with
  | nil => exact ⟨t, rfl, trivial, fun _ _ => rfl, rfl, Keeps.refl t⟩
  | node l x state r =>
    change (addresses (.mk .left l x state r)).Nodup at hnodup
    change Rep t.node parent (.mk .left l x state r) at h
    rw [nodup_addresses_mk] at hnodup
    rw [rep_mk] at h
    obtain ⟨hx, hl, hr⟩ := h
    refine ⟨_, modify_of_node hx _, ?_, ?_, rfl, keeps_put hx _⟩
    · change Rep _ parent' (.mk .left l x state r)
      rw [put_node, rep_mk, rep_update hnodup.1.1, rep_update hnodup.1.2]
      exact ⟨by simp, hl, hr⟩
    · intro a ha
      change a ∉ addresses (.mk .left l x state r) at ha
      rw [mem_addresses_mk, not_or] at ha
      exact Function.update_of_ne ha.1 _ _

/-- Another node takes the place of a subtree in its parent. -/
theorem replaceChild_spec {A : NodePtr} {B : Option NodePtr}
    (htop : t.m_Root = topmost (some A) ctx) (hpath : RepPath t.node none (some A) ctx)
    (hnodup : (pathAddresses ctx).Nodup) (hA : A ∉ pathAddresses ctx) :
    ∃ t', t.replaceChild (above none ctx) A B = some t' ∧ RepPath t'.node none B ctx ∧
      t'.m_Root = topmost B ctx ∧ (∀ a, a ∉ pathAddresses ctx → t'.node a = t.node a) ∧
      Keeps t t' := by
  cases ctx with
  | nil => exact ⟨_, rfl, trivial, rfl, fun _ _ => rfl, ⟨fun _ => rfl, rfl⟩⟩
  | cons f ctx =>
    obtain ⟨hf, hsibling, hctx⟩ := hpath
    unfold pathAddresses at hnodup hA
    rw [List.nodup_cons, List.mem_append, not_or] at hnodup
    have hroot : root f.sibling ≠ some A := by
      intro h
      exact hA (List.mem_cons_of_mem _ (List.mem_append_left _ (root_mem h)))
    refine ⟨_, modify_of_node hf _, ?_, htop, ?_, keeps_put hf _⟩
    · constructor
      · rw [put_node, Function.update_self]
        cases f.side with
        | left => simp [AvlItem.node]
        | right => simp [AvlItem.node, hroot]
      constructor
      · exact (rep_update hnodup.1.1).mpr hsibling
      · exact (repPath_update hnodup.1.2).mpr hctx
    · intro a ha
      exact Function.update_of_ne (ne_of_mem_of_not_mem List.mem_cons_self ha).symm _ _

/-- The subtree changes at its place, and may lose nodes. -/
theorem At.shrink (h : At t ctx T) (htop : t'.m_Root = topmost (root T') ctx)
    (hpath : RepPath t'.node none (root T') ctx) (htree : Rep t'.node (above none ctx) T')
    (hitems : T'.toList.Sublist T.toList) : At t' ctx T' where
  top := htop
  path := hpath
  tree := htree
  nodup := h.nodup.sublist (hitems.map _)
  nodup_path := h.nodup_path
  disjoint a ha ha' := h.disjoint a ha ((hitems.map _).subset ha')

theorem At.replace (h : At t ctx T) (htop : t'.m_Root = topmost (root T') ctx)
    (hpath : RepPath t'.node none (root T') ctx) (htree : Rep t'.node (above none ctx) T')
    (hitems : T'.toList = T.toList) : At t' ctx T' :=
  h.shrink htop hpath htree (by rw [hitems])

/-! ### Rotations -/

section rotations
variable {t₁ t₂ t₃ t₄ : Bst (AvlItem Key Element)} {a b c : AvlItem Key Element}
  {sa sb sc : WmAvlState}

/-- The nodes of the subtree are as before. -/
theorem At.rep_of_path (h : At t ctx T)
    (hsame : ∀ a, a ∉ pathAddresses ctx → t'.node a = t.node a) :
    Rep t'.node (above none ctx) T :=
  h.tree.congr fun a ha => hsame a fun hctx => h.disjoint a hctx ha

theorem rotate_spec (sa' sb' : WmAvlState)
    (h : At t ctx (.mk s (.mk s t₁ b sb t₂) a sa t₃)) :
    ∃ t', t.rotate s a.address b.address sa' sb' = some t' ∧
      At t' ctx (.mk s t₁ b sb' (.mk s t₂ a sa' t₃)) ∧ Keeps t t' := by
  have hdisjoint := h.disjoint
  have hnodup := h.nodup
  simp only [mem_addresses_mk, not_or] at hdisjoint
  simp only [nodup_addresses_mk, mem_addresses_mk, not_or] at hnodup
  obtain ⟨⟨⟨hab, ha₁, ha₂⟩, ha₃⟩, ⟨⟨hb₁, hb₂⟩, hn₁, hn₂, h₁₂⟩, hn₃, h₃⟩ := hnodup
  have htop := h.top
  have hpath := h.path
  rw [root_mk] at htop hpath
  obtain ⟨u, hu, hupath, hutop, husame, hukeeps⟩ := replaceChild_spec
    (B := some b.address) htop hpath h.nodup_path fun hctx => (hdisjoint _ hctx).1 rfl
  have htree := h.rep_of_path husame
  have hA := h.tree
  simp only [rep_mk, root_mk] at htree hA
  obtain ⟨huA, ⟨huB, hu₁, hu₂⟩, hu₃⟩ := htree
  obtain ⟨v, hv, hv₂, hvsame, hvtop, hvkeeps⟩ := setParent_spec (some a.address) hu₂ hn₂
  have hvA := (hvsame _ ha₂).trans huA
  have hvB := (hvsame _ hb₂).trans huB
  have hv₁ : Rep v.node (some b.address) t₁ := hu₁.congr fun x hx => hvsame x (h₁₂ x hx)
  have hv₃ : Rep v.node (some a.address) t₃ :=
    hu₃.congr fun x hx => hvsame x fun hx₂ => h₃ x (Or.inr (Or.inr hx₂)) hx
  have hvpath : RepPath v.node none (some b.address) ctx :=
    hupath.congr fun x hx => hvsame x (hdisjoint x hx).2.1.2.2
  have hpath_a : a.address ∉ pathAddresses ctx := fun hctx => (hdisjoint _ hctx).1 rfl
  have hpath_b : b.address ∉ pathAddresses ctx := fun hctx => (hdisjoint _ hctx).2.1.1 rfl
  have hb₃ := h₃ b.address (Or.inl rfl)
  have hba := Ne.symm hab
  have hwB := (v.put_of_ne (a.node s (root t₂) (root t₃) (some b.address) sa') hba).trans hvB
  have hwkeeps := keeps_put hwB (b.node s (root t₁) (some a.address) (above none ctx) sb')
  refine ⟨_, ?_, h.replace ?_ ?_ ?_ (Bst.toList_rotate s t₁ t₂ t₃ a b sa sb sa' sb'),
    hukeeps.trans (hvkeeps.trans ((keeps_put hvA _).trans hwkeeps))⟩
  · simp only [rotate, hA.1, hu, huB, node_child_other, node_parent, hv, modify_of_node hvA,
      node_setChild, node_with, Option.bind_eq_bind, Option.bind_some]
    rw [modify_of_node hwB]
    simp only [node_setChild_other, node_with]
  · rw [root_mk]
    exact hvtop.trans hutop
  · simp [hpath_a, hpath_b, hvpath]
  · simp [ha₁, ha₂, ha₃, hb₁, hb₂, hb₃, hab, hv₁, hv₂, hv₃]

theorem doubleRotate_spec
    (h : At t ctx (.mk s (.mk s t₁ b sb (.mk s t₂ c sc t₃)) a sa t₄)) :
    ∃ t', t.doubleRotate s a.address b.address = some (c.address, t') ∧
      At t' ctx (.mk s (.mk s t₁ b (Bst.lower s sc) t₂) c .equal
        (.mk s t₃ a (Bst.upper s sc) t₄)) ∧ Keeps t t' := by
  have hdisjoint := h.disjoint
  have hnodup := h.nodup
  simp only [mem_addresses_mk, not_or] at hdisjoint
  simp only [nodup_addresses_mk, mem_addresses_mk, not_or] at hnodup
  obtain ⟨⟨⟨hab, ha₁, hac, ha₂, ha₃⟩, ha₄⟩,
    ⟨⟨hb₁, hbc, hb₂, hb₃⟩, hn₁, ⟨⟨hc₂, hc₃⟩, hn₂, hn₃, h₂₃⟩, h₁⟩, hn₄, h₄⟩ := hnodup
  have hpath_ne : ∀ x ∈ [a, b, c], x.address ∉ pathAddresses ctx := by
    intro x hx hctx
    have hnot := hdisjoint _ hctx
    simp only [List.mem_cons, List.not_mem_nil, or_false] at hx
    rcases hx with rfl | rfl | rfl
    · exact hnot.1 rfl
    · exact hnot.2.1.1 rfl
    · exact hnot.2.1.2.2.1 rfl
  simp only [List.mem_cons, List.not_mem_nil, or_false, forall_eq_or_imp, forall_eq] at hpath_ne
  obtain ⟨hpath_a, hpath_b, hpath_c⟩ := hpath_ne
  have htop := h.top
  have hpath := h.path
  rw [root_mk] at htop hpath
  obtain ⟨u, hu, hupath, hutop, husame, hukeeps⟩ := replaceChild_spec
    (B := some c.address) htop hpath h.nodup_path hpath_a
  have htree := h.rep_of_path husame
  have hold := h.tree
  simp only [rep_mk, root_mk] at htree hold
  obtain ⟨huA, ⟨huB, hu₁, huC, hu₂, hu₃⟩, hu₄⟩ := htree
  obtain ⟨hA, ⟨hB, -⟩, -⟩ := hold
  have hba := Ne.symm hab
  have hca := Ne.symm hac
  have hcb := Ne.symm hbc
  have hb₄ := h₄ b.address (Or.inl rfl)
  have hc₁ : c.address ∉ addresses t₁ := fun hc => (h₁ _ hc).1 rfl
  have hc₄ := h₄ c.address (Or.inr (Or.inr (Or.inl rfl)))
  -- `A` and `B` point to `C` first.
  let u₁ := u.put a.address (a.node s (some b.address) (root t₄) (some c.address) sa)
  have hB₁ : u₁.node b.address = _ := (u.put_of_ne _ hba).trans huB
  let u₂ := u₁.put b.address (b.node s (root t₁) (some c.address) (some c.address) sb)
  have hA₂ : u₂.node a.address = some (a.node s (some b.address) (root t₄) (some c.address) sa) := by
    simp [u₂, u₁, hab]
  have hB₂ : u₂.node b.address =
      some (b.node s (root t₁) (some c.address) (some c.address) sb) := by
    simp [u₂]
  have hC₂ : u₂.node c.address = _ :=
    (u₁.put_of_ne _ hcb).trans ((u.put_of_ne _ hca).trans huC)
  have hkeeps₂ : Keeps t u₂ := hukeeps.trans ((keeps_put huA _).trans (keeps_put hB₁ _))
  have hkeep : ∀ {p : Option NodePtr} {T : Bst (AvlItem Key Element)}, a.address ∉ addresses T →
      b.address ∉ addresses T → Rep u.node p T → Rep u₂.node p T := by
    intro p T ha hb hT
    simpa [u₂, u₁, ha, hb] using hT
  -- Then the subtrees of `C`.
  obtain ⟨v, hv, hv₂, hvsame, hvtop, hvkeeps⟩ :=
    setParent_spec (some b.address) (hkeep ha₂ hb₂ hu₂) hn₂
  have hv₃ : Rep v.node (some c.address) t₃ :=
    (hkeep ha₃ hb₃ hu₃).congr fun x hx => hvsame x fun hx₂ => h₂₃ x hx₂ hx
  obtain ⟨w, hw, hw₃, hwsame, hwtop, hwkeeps⟩ :=
    setParent_spec (some a.address) hv₃ hn₃
  have hsame : ∀ x, x ∉ addresses t₂ → x ∉ addresses t₃ → w.node x = u₂.node x :=
    fun x hx₂ hx₃ => (hwsame x hx₃).trans (hvsame x hx₂)
  have hw₂ : Rep w.node (some b.address) t₂ := hv₂.congr fun x hx => hwsame x (h₂₃ x hx)
  have hw₁ : Rep w.node (some b.address) t₁ :=
    (hkeep ha₁ hb₁ hu₁).congr fun x hx => hsame x (h₁ x hx).2.1 (h₁ x hx).2.2
  have hw₄ : Rep w.node (some a.address) t₄ :=
    (hkeep ha₄ hb₄ hu₄).congr fun x hx => hsame x
      (fun hx₂ => h₄ x (Or.inr (Or.inr (Or.inr (Or.inl hx₂)))) hx)
      fun hx₃ => h₄ x (Or.inr (Or.inr (Or.inr (Or.inr hx₃)))) hx
  have hwA := (hsame _ ha₂ ha₃).trans hA₂
  have hwB := (hsame _ hb₂ hb₃).trans hB₂
  have hwC := (hsame _ hc₂ hc₃).trans hC₂
  have hwpath : RepPath w.node none (some c.address) ctx := by
    have hpath₂ : RepPath u₂.node none (some c.address) ctx := by
      simpa [u₂, u₁, hpath_a, hpath_b] using hupath
    exact hpath₂.congr fun x hx => hsame x (hdisjoint x hx).2.1.2.2.2.1
      (hdisjoint x hx).2.1.2.2.2.2
  -- Last, the three nodes.
  let w₁ := w.put a.address (a.node s (root t₃) (root t₄) (some c.address) (Bst.upper s sc))
  have hB₃ : w₁.node b.address = _ := (w.put_of_ne _ hba).trans hwB
  let w₂ := w₁.put b.address (b.node s (root t₁) (root t₂) (some c.address) (Bst.lower s sc))
  have hC₃ : w₂.node c.address = _ :=
    (w₁.put_of_ne _ hcb).trans ((w.put_of_ne _ hca).trans hwC)
  refine ⟨w₂.put c.address (c.node s (some b.address) (some a.address) (above none ctx) .equal), ?_,
    h.replace ?_ ?_ ?_ (Bst.toList_doubleRotate s t₁ t₂ t₃ t₄ a b c sa sb sc _ _ _),
    hkeeps₂.trans (hvkeeps.trans (hwkeeps.trans ((keeps_put hwA _).trans
      ((keeps_put hB₃ _).trans (keeps_put hC₃ _)))))⟩
  · have hm₁ : u.modify a.address (fun n => { n with m_Parent := some c.address }) = some u₁ := by
      simp only [modify_of_node huA, node_with, node_state, u₁]
    have hm₂ : u₁.modify b.address (fun n => { n with m_Parent := some c.address }) = some u₂ := by
      simp only [modify_of_node hB₁, node_with, node_state, u₂]
    simp only [doubleRotate, hA, hB, node_child, node_child_other, node_parent, node_state, hu, hm₁,
      hm₂, hC₂, hv, hw, modify_of_node hwA, node_setChild, node_with, Option.bind_eq_bind,
      Option.bind_some]
    change (w₁.modify b.address _).bind _ = _
    simp only [modify_of_node hB₃, node_setChild_other, node_with, node_parent, Option.bind_some]
    change (w₂.modify c.address _).bind _ = _
    simp only [modify_of_node hC₃, node_setChild, node_setChild_other, node_with, Option.bind_some]
    rfl
  · rw [root_mk]
    exact hwtop.trans (hvtop.trans hutop)
  · simp [w₂, w₁, hpath_a, hpath_b, hpath_c, hwpath]
  · simp [w₂, w₁, ha₁, ha₂, ha₃, ha₄, hb₁, hb₂, hb₃, hb₄, hc₁, hc₂, hc₃, hc₄, hab, hac, hbc,
      hw₁, hw₂, hw₃, hw₄]

end rotations

/-! ### Balancing -/

theorem At.node (h : At t ctx (.mk s c x state o)) : t.node x.address =
    some (x.node s (root c) (root o) (above none ctx) state) :=
  (rep_mk.mp h.tree).1

/-- The state of a node changes. -/
theorem setState_spec (h : At t ctx (.mk s c x state o)) (state' : WmAvlState) :
    ∃ t', t.modify x.address (fun n => { n with m_State := state' }) = some t' ∧
      At t' ctx (.mk s c x state' o) ∧ Keeps t t' := by
  have hnode := h.node
  have htop := h.top
  have hpath := h.path
  rw [root_mk] at htop hpath
  have hdisjoint : x.address ∉ pathAddresses ctx := by
    intro hctx
    exact h.disjoint _ hctx (mem_addresses_mk.mpr (Or.inl rfl))
  have hnodup := (nodup_addresses_mk.mp h.nodup).1
  have htree := (rep_mk.mp h.tree).2
  refine ⟨_, modify_of_node hnode _, h.replace ?_ ?_ ?_ ?_, keeps_put hnode _⟩
  · rw [put_root, root_mk]
    exact htop
  · simp [hdisjoint, hpath]
  · simp [hnodup.1, hnodup.2, htree.1, htree.2]
  · exact Bst.toList_mk_congr s x state state' rfl rfl

/-- A subtree that has grown and is no new leaf leans to one side. -/
def Leans (T : Bst (AvlItem Key Element)) : Prop := T.height = 1 ∨ T.state ≠ .equal

/-- The subtree on side `s` has grown from the height `m`. -/
theorem insertBalance_spec {m : ℕ} (h : At t ctx (.mk s c x state o)) (hc : c.Balanced)
    (ho : o.Balanced) (hfits : state.Fits s m o.height) (hgrown : c.height = m + 1)
    (hleans : Leans c) {B : NodePtr} (hB : root c = some B) :
    ∃ A' increased t' T', t.insertBalance s x.address B true = some (A', increased, t') ∧
      At t' ctx T' ∧ Keeps t t' ∧ root T' = some A' ∧ T'.Balanced ∧
      T'.toList = (Bst.mk s c x state o).toList ∧
      (increased = true ∧ T' = .mk s c x (.higher s) o ∧ T'.height = max m o.height + 2 ∧ Leans T' ∨
        increased = false ∧ T'.height = max m o.height + 1) := by
  have hnode := h.node
  have hitems := fun state' => Bst.toList_mk_congr s x state state' (Eq.refl c.toList) (Eq.refl o.toList)
  have hother : Balance.higher s ≠ .higher s.other := fun h => s.other_ne (Balance.higher.inj h).symm
  cases state with
  | equal =>
    obtain ⟨t', ht', hat, hkeeps⟩ := setState_spec h (.higher s)
    refine ⟨x.address, true, t', _, ?_, hat, hkeeps, root_mk, ?_, hitems _, Or.inl ⟨rfl, rfl, ?_, ?_⟩⟩
    · simp [insertBalance, hnode, ht']
    · rw [fits_equal] at hfits
      simp [hc, ho]
      omega
    · rw [fits_equal] at hfits
      simp
      omega
    · right
      simp
  | higher s' =>
    rcases s.eq_or_other s' with rfl | rfl
    · -- The subtree was the higher one already.
      rw [fits_higher] at hfits
      have hne : c.state ≠ .equal := hleans.resolve_left (by omega)
      obtain ⟨t₁, b, sb, t₂, rfl⟩ := Bst.exists_mk s' (t := c) (by omega)
      rw [root_mk] at hB
      obtain rfl := Option.some.inj hB
      rw [Bst.state_mk] at hne
      have hchild := (rep_mk.mp h.tree).2.1
      rw [rep_mk] at hchild
      have hheavy : (Bst.mk s' t₁ b sb t₂).height = o.height + 2 := by omega
      have hmax : max m o.height + 1 = o.height + 2 := by omega
      cases sb with
      | equal => contradiction
      | higher s'' =>
        rcases s'.eq_or_other s'' with rfl | rfl
        · obtain ⟨t', ht', hat, hkeeps⟩ := rotate_spec .equal .equal h
          have hbalanced := Bst.balanced_rotate (a := x) hc ho hheavy
          refine ⟨b.address, false, t', _, ?_, hat, hkeeps, root_mk, hbalanced.1,
            Bst.toList_rotate _ _ _ _ _ _ _ _ _ _, Or.inr ⟨rfl, hbalanced.2.trans hmax.symm⟩⟩
          simp [insertBalance, hnode, hother, hchild.1, ht']
        · have hfits₂ := ((Bst.balanced_mk _ _ _ _ _).mp hc).1
          rw [fits_higher_other] at hfits₂
          obtain ⟨t₃, y, sy, t₄, rfl⟩ := Bst.exists_mk s' (t := t₂) (by omega)
          obtain ⟨t', ht', hat, hkeeps⟩ := doubleRotate_spec h
          have hbalanced := Bst.balanced_doubleRotate (a := x) hc ho hheavy
          refine ⟨y.address, false, t', _, ?_, hat, hkeeps, root_mk, hbalanced.1,
            Bst.toList_doubleRotate _ _ _ _ _ _ _ _ _ _ _ _ _ _,
            Or.inr ⟨rfl, hbalanced.2.trans hmax.symm⟩⟩
          simp [insertBalance, hnode, hother, hchild.1, hother.symm, ht']
    · rw [fits_higher_other] at hfits
      obtain ⟨t', ht', hat, hkeeps⟩ := setState_spec h .equal
      refine ⟨x.address, false, t', _, ?_, hat, hkeeps, root_mk, ?_, hitems _, Or.inr ⟨rfl, ?_⟩⟩
      · simp [insertBalance, hnode, ht']
      · simp [hc, ho]
        omega
      · simp
        omega

/-- The subtree on side `s` has become lower than `m`. -/
theorem deleteBalance_spec {m : ℕ} (h : At t ctx (.mk s c x state o)) (hc : c.Balanced)
    (ho : o.Balanced) (hfits : state.Fits s m o.height) (hshrunk : c.height + 1 = m) :
    ∃ A' decreased t' T', t.deleteBalance s x.address (root o) true = some (A', decreased, t') ∧
      At t' ctx T' ∧ Keeps t t' ∧ root T' = some A' ∧ T'.Balanced ∧
      T'.toList = (Bst.mk s c x state o).toList ∧
      (decreased = true ∧ T'.height = max m o.height ∨
        decreased = false ∧ T'.height = max m o.height + 1) := by
  obtain ⟨r, rfl⟩ : ∃ r : Side, s = r.other := ⟨s.other, s.other_other.symm⟩
  rw [Bst.mk_other] at h
  rw [Bst.mk_other]
  rw [fits_other] at hfits
  have hnode := h.node
  have hitems := fun state' => Bst.toList_mk_congr r x state state' (Eq.refl o.toList) (Eq.refl c.toList)
  have hother : Balance.higher r ≠ .higher r.other := fun h => r.other_ne (Balance.higher.inj h).symm
  cases state with
  | equal =>
    rw [fits_equal] at hfits
    obtain ⟨t', ht', hat, hkeeps⟩ := setState_spec h (.higher r)
    refine ⟨x.address, false, t', _, ?_, hat, hkeeps, root_mk, ?_, hitems _, Or.inr ⟨rfl, ?_⟩⟩
    · simp [deleteBalance, hnode, ht']
    · simp [hc, ho]
      omega
    · simp
      omega
  | higher s' =>
    rcases r.eq_or_other s' with rfl | rfl
    · -- The other subtree was the higher one already.
      rw [fits_higher] at hfits
      obtain ⟨t₁, b, sb, t₂, rfl⟩ := Bst.exists_mk s' (t := o) (by omega)
      have hchild := (rep_mk.mp h.tree).2.1
      rw [rep_mk] at hchild
      have hheavy : (Bst.mk s' t₁ b sb t₂).height = c.height + 2 := by omega
      have hmax : max m (Bst.mk s' t₁ b sb t₂).height = c.height + 2 := by omega
      rw [hmax]
      cases sb with
      | equal =>
        obtain ⟨t', ht', hat, hkeeps⟩ := rotate_spec (.higher s') (.higher s'.other) h
        have hbalanced := Bst.balanced_rotate_equal (a := x) ho hc hheavy
        refine ⟨b.address, false, t', _, ?_, hat, hkeeps, root_mk, hbalanced.1,
          Bst.toList_rotate _ _ _ _ _ _ _ _ _ _, Or.inr ⟨rfl, hbalanced.2⟩⟩
        simp [deleteBalance, hnode, hother, hchild.1, ht']
      | higher s'' =>
        rcases s'.eq_or_other s'' with rfl | rfl
        · obtain ⟨t', ht', hat, hkeeps⟩ := rotate_spec .equal .equal h
          have hbalanced := Bst.balanced_rotate (a := x) ho hc hheavy
          refine ⟨b.address, true, t', _, ?_, hat, hkeeps, root_mk, hbalanced.1,
            Bst.toList_rotate _ _ _ _ _ _ _ _ _ _, Or.inl ⟨rfl, hbalanced.2⟩⟩
          simp [deleteBalance, hnode, hother, hchild.1, ht']
        · have hfits₂ := ((Bst.balanced_mk _ _ _ _ _).mp ho).1
          rw [fits_higher_other] at hfits₂
          obtain ⟨t₃, y, sy, t₄, rfl⟩ := Bst.exists_mk s' (t := t₂) (by omega)
          obtain ⟨t', ht', hat, hkeeps⟩ := doubleRotate_spec h
          have hbalanced := Bst.balanced_doubleRotate (a := x) ho hc hheavy
          refine ⟨y.address, true, t', _, ?_, hat, hkeeps, root_mk, hbalanced.1,
            Bst.toList_doubleRotate _ _ _ _ _ _ _ _ _ _ _ _ _ _, Or.inl ⟨rfl, hbalanced.2⟩⟩
          simp [deleteBalance, hnode, hother, hchild.1, hother.symm, ht']
    · rw [fits_higher_other] at hfits
      obtain ⟨t', ht', hat, hkeeps⟩ := setState_spec h .equal
      refine ⟨x.address, true, t', _, ?_, hat, hkeeps, root_mk, ?_, hitems _, Or.inl ⟨rfl, ?_⟩⟩
      · simp [deleteBalance, hnode, ht']
      · simp [hc, ho]
        omega
      · simp
        omega

/-- The balancing with a flag that tells whether the subtree is lower. -/
theorem deleteBalance_flag {m : ℕ} {decreased : Bool} (h : At t ctx (.mk s c x state o))
    (hc : c.Balanced) (ho : o.Balanced) (hfits : state.Fits s m o.height)
    (hflag : decreased = true ∧ c.height + 1 = m ∨ decreased = false ∧ c.height = m) :
    ∃ A' decreased' t' T',
      t.deleteBalance s x.address (root o) decreased = some (A', decreased', t') ∧
      At t' ctx T' ∧ Keeps t t' ∧ root T' = some A' ∧ T'.Balanced ∧
      T'.toList = (Bst.mk s c x state o).toList ∧
      (decreased' = true ∧ T'.height + 1 = max m o.height + 1 ∨
        decreased' = false ∧ T'.height = max m o.height + 1) := by
  rcases hflag with ⟨rfl, hheight⟩ | ⟨rfl, rfl⟩
  · obtain ⟨A', decreased', t', T', hrun, hat, hkeeps, hroot, hbalanced, hitems, hcases⟩ :=
      deleteBalance_spec h hc ho hfits hheight
    refine ⟨A', decreased', t', T', hrun, hat, hkeeps, hroot, hbalanced, hitems, ?_⟩
    exact hcases.imp_left fun hlower => ⟨hlower.1, by rw [hlower.2]⟩
  · refine ⟨x.address, false, t, _, rfl, h, Keeps.refl t, root_mk, ?_, rfl, Or.inr ⟨rfl, ?_⟩⟩
    · exact (Bst.balanced_mk _ _ _ _ _).mpr ⟨hfits, hc, ho⟩
    · exact Bst.height_mk _ _ _ _ _

end WmiAvlTree

end NtAdmin.Wmi.Containers
