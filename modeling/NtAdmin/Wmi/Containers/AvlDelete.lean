import NtAdmin.Wmi.Containers.AvlInsert

/-! Deleting. -/
namespace NtAdmin.Wmi.Containers

open NtAdmin.Lib.Avl

namespace WmiAvlTree
variable {Key Element : Type} [LinearOrder Key] {t t' : WmiAvlTree Key Element}
  {T W l r r₂ : Bst (AvlItem Key Element)} {ctx path : List (Frame (AvlItem Key Element))}
  {x y : AvlItem Key Element} {state sy : WmAvlState}

/-! ### The successor -/

/-- The path goes to the left only. -/
def Leftwards (path : List (Frame (AvlItem Key Element))) : Prop := ∀ f ∈ path, f.side = .left

omit [LinearOrder Key] in
theorem Leftwards.before_eq (h : Leftwards path) : before path = [] := by
  induction path with
  | nil => rfl
  | cons f path ih =>
    unfold before
    rw [ih fun g hg => h g (List.mem_cons_of_mem _ hg), h f List.mem_cons_self]
    rfl

omit [LinearOrder Key] in
theorem leftMost_spec {fuel : ℕ} {p : NodePtr} {parent : Option NodePtr}
    (h : Rep t.node parent T) (hroot : root T = some p) (hfuel : T.toList.length ≤ fuel) :
    ∃ y sy r₂ path, T = (Bst.mk .left .nil y sy r₂).plug path ∧ Leftwards path ∧
      t.leftMost fuel p = some y.address := by
  induction T generalizing fuel p parent with
  | nil => nomatch hroot
  | node l x state r ih =>
    obtain rfl := Option.some.inj hroot
    obtain ⟨hx, hl, -⟩ := h
    have hlength := length_lt_of_mk .left l x state r
    change _ < (Bst.node l x state r).toList.length at hlength
    obtain ⟨fuel, rfl⟩ : ∃ k, fuel = k + 1 := ⟨fuel - 1, by omega⟩
    cases l with
    | nil =>
      refine ⟨x, state, r, [], rfl, nofun, ?_⟩
      simp [leftMost, hx, AvlItem.node, root]
    | node ll z statel lr =>
      have hfuel' : (Bst.node ll z statel lr).toList.length ≤ fuel := by omega
      obtain ⟨y, sy, r₂, path, heq, hpath, hrun⟩ := ih hl rfl hfuel'
      refine ⟨y, sy, r₂, path ++ [⟨.left, x, state, r⟩], ?_, ?_, ?_⟩
      · rw [Bst.plug_append, ← heq]
        rfl
      · intro f hf
        rcases List.mem_append.mp hf with hf | hf
        · exact hpath f hf
        · rw [List.mem_singleton.mp hf]
      · simpa [leftMost, hx, AvlItem.node, root] using hrun

/-! ### The successor takes the node's place -/

omit [LinearOrder Key] in
/-- The neighbours of the node point to the successor. -/
theorem detach_spec
    (h : At t ctx (.mk .left l x state ((Bst.mk .left .nil y sy r₂).plug path))) :
    ∃ t₁ t₂ t₃ t₄,
      t.modify y.address (fun n => { n with m_State := state }) = some t₁ ∧
      t₁.replaceChild (above none ctx) x.address (some y.address) = some t₂ ∧
      t₂.setParent (root l) (some y.address) = some t₃ ∧
      t₃.setParent (root ((Bst.mk .left .nil y sy r₂).plug path)) (some y.address) = some t₄ ∧
      t₂.node y.address =
        some (y.node .left none (root r₂) (above (some x.address) path) state) ∧
      t₄.m_Root = topmost (some y.address) ctx ∧ RepPath t₄.node none (some y.address) ctx ∧
      Rep t₄.node (some y.address) l ∧
      Rep t₄.node (some y.address) ((Bst.mk .left .nil y state r₂).plug path) ∧ Keeps t t₄ := by
  have haddresses : addresses ((Bst.mk .left .nil y state r₂).plug path) =
      addresses ((Bst.mk .left .nil y sy r₂).plug path) := by
    unfold addresses
    rw [Bst.toList_plug, Bst.toList_plug, Bst.toList_mk_congr .left y sy state rfl rfl]
  have hy : y.address ∈ addresses ((Bst.mk .left .nil y sy r₂).plug path) := by
    rw [addresses_plug_perm.mem_iff, List.mem_append, mem_addresses_mk]
    exact Or.inl (Or.inl rfl)
  have hnodup := h.nodup
  have hdisjoint := h.disjoint
  rw [nodup_addresses_mk] at hnodup
  simp only [mem_addresses_mk, not_or] at hdisjoint
  obtain ⟨⟨hxl, hxr⟩, hnl, hnr, hlr⟩ := hnodup
  have hyl : y.address ∉ addresses l := fun hl => hlr _ hl hy
  obtain ⟨hx, hl, hr⟩ := rep_mk.mp h.tree
  have hyctx : y.address ∉ pathAddresses ctx := fun hctx => (hdisjoint _ hctx).2.2 hy
  have hxctx : x.address ∉ pathAddresses ctx := fun hctx => (hdisjoint _ hctx).1 rfl
  obtain ⟨hpath, hyr⟩ := rep_plug.mp hr
  obtain ⟨hynode, -, hr₂⟩ := rep_mk.mp hyr
  have hnr' := addresses_plug_perm.nodup_iff.mp hnr
  rw [List.nodup_append, nodup_addresses_mk] at hnr'
  obtain ⟨⟨⟨-, hyr₂⟩, -⟩, -, hypath⟩ := hnr'
  have hypath : y.address ∉ pathAddresses path := by
    intro hp
    exact hypath _ (mem_addresses_mk.mpr (Or.inl rfl)) _ hp rfl
  let t₁ := t.put y.address (y.node .left none (root r₂) (above (some x.address) path) state)
  have hmodify : t.modify y.address (fun n => { n with m_State := state }) = some t₁ := by
    simp only [modify_of_node hynode, node_with, node_parent, t₁]
    rfl
  have hr₁ : Rep t₁.node (some x.address) ((Bst.mk .left .nil y state r₂).plug path) := by
    rw [rep_plug, rep_mk, root_mk]
    rw [root_mk] at hpath
    simp [t₁, hypath, hyr₂, hpath, hr₂, root]
  have hl₁ : Rep t₁.node (some x.address) l := (rep_update hyl).mpr hl
  have htop := h.top
  have hctx := h.path
  rw [root_mk] at htop hctx
  obtain ⟨t₂, hreplace, hctx₂, htop₂, hsame₂, hkeeps₂⟩ := replaceChild_spec (t := t₁)
    (B := some y.address) htop ((repPath_update hyctx).mpr hctx) h.nodup_path hxctx
  have hr₂' : Rep t₂.node (some x.address) ((Bst.mk .left .nil y state r₂).plug path) :=
    hr₁.congr fun a ha => hsame₂ a fun hactx => (hdisjoint a hactx).2.2 (haddresses ▸ ha)
  have hl₂ : Rep t₂.node (some x.address) l :=
    hl₁.congr fun a ha => hsame₂ a fun hactx => (hdisjoint a hactx).2.1 ha
  obtain ⟨t₃, hset₃, hl₃, hsame₃, htop₃, hkeeps₃⟩ :=
    setParent_spec (some y.address) hl₂ hnl
  have hr₃ : Rep t₃.node (some x.address) ((Bst.mk .left .nil y state r₂).plug path) :=
    hr₂'.congr fun a ha => hsame₃ a fun hal => hlr a hal (haddresses ▸ ha)
  obtain ⟨t₄, hset₄, hr₄, hsame₄, htop₄, hkeeps₄⟩ :=
    setParent_spec (some y.address) hr₃ (haddresses ▸ hnr)
  refine ⟨t₁, t₂, t₃, t₄, hmodify, hreplace, hset₃, ?_, ?_, ?_, ?_, ?_, hr₄, ?_⟩
  · rw [← hset₄, root_plug, root_plug, root_mk, root_mk]
  · exact (hsame₂ _ hyctx).trans (Function.update_self _ _ _)
  · exact htop₄.trans (htop₃.trans htop₂)
  · refine hctx₂.congr fun a ha => ?_
    rw [hsame₄ a (haddresses ▸ (hdisjoint a ha).2.2), hsame₃ a (hdisjoint a ha).2.1]
  · exact hl₃.congr fun a ha => hsame₄ a (haddresses ▸ hlr a ha)
  · exact (keeps_put hynode _).trans (hkeeps₂.trans (hkeeps₃.trans hkeeps₄))

omit [LinearOrder Key] in
/-- The right subtree of the successor takes the successor's old place. -/
theorem splice_spec {f : Frame (AvlItem Key Element)}
    (h : Rep t.node (some y.address) ((Bst.mk .left .nil y state r₂).plug (f :: path)))
    (hnodup : (addresses ((Bst.mk .left .nil y state r₂).plug (f :: path))).Nodup)
    (hf : f.side = .left) :
    ∃ t₁ t₂, t.modify f.x.address (fun n => { n with m_Left := root r₂ }) = some t₁ ∧
      t₁.setParent (root r₂) (some f.x.address) = some t₂ ∧
      t₂.node y.address = some (y.node .left none (root r₂) (some f.x.address) state) ∧
      Rep t₂.node (some y.address) (r₂.plug (f :: path)) ∧
      (∀ a, a ∉ addresses ((Bst.mk .left .nil y state r₂).plug (f :: path)) →
        t₂.node a = t.node a) ∧ t₂.m_Root = t.m_Root ∧ Keeps t t₂ := by
  have hperm : (addresses ((Bst.mk .left .nil y state r₂).plug (f :: path))).Perm _ :=
    addresses_plug_perm
  have hmem := fun a => hperm.mem_iff (a := a)
  have hnodup' := addresses_plug_perm.nodup_iff.mp hnodup
  rw [List.nodup_append, nodup_addresses_mk] at hnodup'
  obtain ⟨⟨⟨-, hyr₂⟩, -, hnr₂, -⟩, hnpath, hdisjoint⟩ := hnodup'
  unfold pathAddresses at hnpath
  rw [List.nodup_cons, List.mem_append, not_or] at hnpath
  obtain ⟨⟨hfsibling, hfpath⟩, -⟩ := hnpath
  have hyf : y.address ≠ f.x.address :=
    hdisjoint _ (mem_addresses_mk.mpr (Or.inl rfl)) _ List.mem_cons_self
  have hr₂path : ∀ a ∈ addresses r₂, a ∉ pathAddresses (f :: path) := fun a ha hp =>
    hdisjoint _ (mem_addresses_mk.mpr (Or.inr (Or.inr ha))) _ hp rfl
  have hfr₂ : f.x.address ∉ addresses r₂ := fun hr => hr₂path _ hr List.mem_cons_self
  obtain ⟨⟨hframe, hsibling, hpath⟩, hyr⟩ := rep_plug.mp h
  obtain ⟨hynode, -, hr₂⟩ := rep_mk.mp hyr
  have hfnode : { f.x.node f.side (root (Bst.mk .left .nil y state r₂)) (root f.sibling)
      (above (some y.address) path) f.state with m_Left := root r₂ } =
        f.x.node f.side (root r₂) (root f.sibling) (above (some y.address) path) f.state := by
    rw [hf]
    rfl
  have hset : Rep (t.put f.x.address (f.x.node f.side (root r₂) (root f.sibling)
      (above (some y.address) path) f.state)).node (some y.address) r₂ := (rep_update hfr₂).mpr hr₂
  obtain ⟨t₂, hset₂, hr₂', hsame, htop, hkeeps⟩ :=
    setParent_spec (some f.x.address) hset hnr₂
  refine ⟨_, t₂, ?_, hset₂, ?_, ?_, ?_, htop, (keeps_put hframe _).trans hkeeps⟩
  · rw [modify_of_node hframe, hfnode]
  · rw [hsame _ hyr₂, put_of_ne _ _ hyf]
    exact hynode
  · rw [rep_plug]
    constructor
    · have hput : RepPath (t.put f.x.address (f.x.node f.side (root r₂) (root f.sibling)
          (above (some y.address) path) f.state)).node (some y.address) (root r₂) (f :: path) := by
        simp [RepPath, hfsibling, hfpath, hsibling, hpath]
      exact hput.congr fun a ha => hsame a fun hr => hr₂path a hr ha
    · exact hr₂'
  · intro a ha
    rw [hmem, List.mem_append, mem_addresses_mk] at ha
    have hnot := not_or.mp ha
    have hne : a ≠ f.x.address := fun heq => hnot.2 (heq ▸ List.mem_cons_self)
    rw [hsame a fun hr => hnot.1 (Or.inr (Or.inr hr)), put_of_ne _ _ hne]

omit [LinearOrder Key] in
theorem mem_pathAddresses_append {g : Frame (AvlItem Key Element)} :
    g.x.address ∈ pathAddresses (path ++ g :: ctx) := by
  induction path with
  | nil => exact List.mem_cons_self
  | cons f path ih => exact List.mem_cons_of_mem _ (List.mem_append_right _ ih)

omit [LinearOrder Key] in
theorem At.root_parent {A : NodePtr} (h : At t ctx T) (hroot : root T = some A) :
    ∃ n, t.node A = some n ∧ n.m_Parent = above none ctx := by
  cases T with
  | nil => nomatch hroot
  | node l z state r =>
    obtain rfl := Option.some.inj hroot
    exact ⟨_, At.node (s := .left) h, node_parent⟩

omit [LinearOrder Key] in
/-- One round of the loop. -/
theorem fixupRound_spec {f : Frame (AvlItem Key Element)} {m : ℕ} {decreased : Bool}
    (h : At t (f :: ctx) T) (hleft : f.side = .left) (hT : T.Balanced)
    (hfit : f.state.Fits f.side m f.sibling.height) (hsibling : f.sibling.Balanced)
    (hflag : decreased = true ∧ T.height + 1 = m ∨ decreased = false ∧ T.height = m) :
    ∃ A' decreased' t' T' n n',
      t.node f.x.address = some n ∧
      t.Delete_LeftBalance f.x.address n.m_Right decreased = some (A', decreased', t') ∧
      t'.node A' = some n' ∧ n'.m_Parent = above none ctx ∧ At t' ctx T' ∧ Keeps t t' ∧
      T'.Balanced ∧ T'.toList = T.toList ++ after [f] ∧
      (decreased' = true ∧ T'.height + 1 = max m f.sibling.height + 1 ∨
        decreased' = false ∧ T'.height = max m f.sibling.height + 1) := by
  have hframe := h.node_frame
  have hat := at_cons.mp h
  rw [hleft] at hat hfit hframe
  obtain ⟨A', decreased', t', T', hrun, hat', hkeeps, hroot, hbalanced, hitems, hcases⟩ :=
    deleteBalance_flag hat hT hsibling hfit hflag
  obtain ⟨n', hnode', hparent⟩ := hat'.root_parent hroot
  refine ⟨A', decreased', t', T', _, n', hframe, hrun, hnode', hparent, hat', hkeeps, hbalanced, ?_,
    hcases⟩
  rw [hitems]
  unfold after
  rw [hleft]
  simp [Bst.mk, Bst.toList, after]

omit [LinearOrder Key] in
/-- The loop balances the nodes between the successor's old place and its new one. -/
theorem fixupLoop_spec {f g : Frame (AvlItem Key Element)} {fuel m : ℕ} {decreased : Bool}
    (h : At t (f :: path ++ g :: ctx) T) (hleft : Leftwards (f :: path)) (hT : T.Balanced)
    (hfits : ContextFits (f :: path) m)
    (hflag : decreased = true ∧ T.height + 1 = m ∨ decreased = false ∧ T.height = m)
    (hfuel : path.length < fuel) :
    ∃ decreased' t' T',
      fixupLoop g.x.address fuel f.x.address decreased t = some (decreased', t') ∧
      At t' (g :: ctx) T' ∧ Keeps t t' ∧ T'.Balanced ∧
      T'.toList = T.toList ++ after (f :: path) ∧
      (decreased' = true ∧ T'.height + 1 = contextHeight (f :: path) m ∨
        decreased' = false ∧ T'.height = contextHeight (f :: path) m) := by
  induction path generalizing t T f fuel m decreased with
  | nil =>
    obtain ⟨fuel, rfl⟩ : ∃ k, fuel = k + 1 := ⟨fuel - 1, by simp at hfuel; omega⟩
    obtain ⟨A', decreased', t', T', n, n', hnode, hrun, hnode', hparent, hat, hkeeps, hbalanced,
      hitems, hcases⟩ := fixupRound_spec h (hleft f List.mem_cons_self) hT hfits.1 hfits.2.1 hflag
    change n'.m_Parent = some g.x.address at hparent
    refine ⟨decreased', t', T', ?_, hat, hkeeps, hbalanced, hitems, hcases⟩
    simp [fixupLoop, hnode, hrun, hnode', hparent]
  | cons f' path ih =>
    obtain ⟨fuel, rfl⟩ : ∃ k, fuel = k + 1 := ⟨fuel - 1, by simp at hfuel; omega⟩
    obtain ⟨A', decreased', t', T', n, n', hnode, hrun, hnode', hparent, hat, hkeeps, hbalanced,
      hitems, hcases⟩ := fixupRound_spec h (hleft f List.mem_cons_self) hT hfits.1 hfits.2.1 hflag
    change n'.m_Parent = some f'.x.address at hparent
    have hne : f'.x.address ≠ g.x.address := by
      intro heq
      have hnodup : (pathAddresses (f' :: (path ++ g :: ctx))).Nodup := hat.nodup_path
      rw [pathAddresses, List.nodup_cons, heq] at hnodup
      exact hnodup.1 (List.mem_append_right _ mem_pathAddresses_append)
    obtain ⟨decreased'', t'', T'', hloop, hat', hkeeps', hbalanced', hitems', hcases'⟩ :=
      ih hat (fun f'' hf'' => hleft f'' (List.mem_cons_of_mem _ hf'')) hbalanced hfits.2.2 hcases
        (Nat.lt_of_succ_lt_succ hfuel)
    refine ⟨decreased'', t'', T'', ?_, hat', hkeeps.trans hkeeps', hbalanced', ?_, hcases'⟩
    · simp [fixupLoop, hnode, hrun, hnode', hparent, hne, hloop]
    · rw [hitems', hitems, List.append_assoc]
      congr 1
      unfold after
      simp [after]

omit [LinearOrder Key] in
/-- The successor has got its links. -/
theorem At.succeed {r' : Bst (AvlItem Key Element)} {n : WmiAvlNode Key Element}
    (h : At t ctx (.mk .left l x state r)) (htop : t'.m_Root = topmost (some y.address) ctx)
    (hpath : RepPath t'.node none (some y.address) ctx) (hl : Rep t'.node (some y.address) l)
    (hr : Rep t'.node (some y.address) r') (hitems : r.toList = y :: r'.toList)
    (hnode : n = y.node .left (root l) (root r') (above none ctx) state) :
    At (t'.put y.address n) ctx (.mk .left l y state r') := by
  have hsub : (Bst.mk .left l y state r').toList.Sublist (Bst.mk .left l x state r).toList := by
    change (l.toList ++ y :: r'.toList).Sublist (l.toList ++ x :: r.toList)
    rw [hitems]
    exact (List.Sublist.refl _).append (List.sublist_cons_self _ _)
  have hnodup := h.nodup.sublist (hsub.map AvlItem.address)
  change (addresses (Bst.mk .left l y state r')).Nodup at hnodup
  rw [nodup_addresses_mk] at hnodup
  have hyctx : y.address ∉ pathAddresses ctx := by
    intro hctx
    apply h.disjoint _ hctx
    exact (hsub.map AvlItem.address).subset (mem_addresses_mk.mpr (Or.inl rfl))
  refine h.shrink ?_ ?_ ?_ hsub
  · rw [put_root, root_mk, htop]
  · rw [put_node, root_mk, repPath_update hyctx]
    exact hpath
  · rw [rep_mk, put_node, rep_update hnodup.1.1, rep_update hnodup.1.2, Function.update_self, hnode]
    exact ⟨rfl, hl, hr⟩

omit [LinearOrder Key] in
theorem fixupInner_spec {fuel : ℕ} {p : NodePtr} (h : At t ctx (.mk .left l x state r))
    (hroot : root r = some p) (hbalanced : (Bst.mk .left l x state r).Balanced)
    (hfuel : r.toList.length ≤ fuel) :
    ∃ decreased t' T', t.fixupInner fuel x.address = some (decreased, t') ∧ At t' ctx T' ∧
      Keeps t t' ∧ T'.Balanced ∧ T'.toList = l.toList ++ r.toList ∧
      (decreased = true ∧ T'.height + 1 = (Bst.mk .left l x state r).height ∨
        decreased = false ∧ T'.height = (Bst.mk .left l x state r).height) := by
  obtain ⟨hx, -, hr⟩ := rep_mk.mp h.tree
  obtain ⟨y, sy, r₂, path, rfl, hleft, hmost⟩ := leftMost_spec hr hroot hfuel
  have hincrement : t.increment fuel x.address = some (some y.address) := by
    simp [increment, hx, hroot, hmost, node_right]
  obtain ⟨t₁, t₂, t₃, t₄, h₁, h₂, h₃, h₄, hy₂, htop, hpath, hl, hr₄, hkeeps⟩ := detach_spec h
  obtain ⟨hfits, hlb, hrb⟩ := (Bst.balanced_mk _ _ _ _ _).mp hbalanced
  have hfits' := (fits_other .left state _ _).mpr hfits
  obtain ⟨hyb, hctx⟩ := (Bst.balanced_plug _ _).mp hrb
  obtain ⟨hsy, -, hr₂b⟩ := (Bst.balanced_mk _ _ _ _ _).mp hyb
  have hyheight : r₂.height + 1 = (Bst.mk .left .nil y sy r₂).height := by
    rw [Bst.height_mk, Bst.height, Nat.zero_max]
  cases path with
  | nil =>
    obtain ⟨hy₄, -, hr₂⟩ := rep_mk.mp hr₄
    let t₅ := t₄.put y.address (y.node .left (root l) (root r₂) (above none ctx) state)
    have h₅ : t₄.modify y.address (fun n => { n with
        m_Left := root l, m_Parent := above none ctx }) = some t₅ := by
      rw [modify_of_node hy₄]
      rfl
    have hat : At t₅ ctx (.mk .left l y state r₂) := h.succeed htop hpath hl hr₂ rfl rfl
    obtain ⟨A', decreased, t', T', hrun, hat', hkeeps', -, hbalanced', hitems, hcases⟩ :=
      deleteBalance_flag (s := .right) hat hr₂b hlb hfits'
        (Or.inl ⟨rfl, hyheight⟩)
    have hheight : (Bst.mk .left l x state (Bst.mk .left .nil y sy r₂)).height =
        max (Bst.mk .left .nil y sy r₂).height l.height + 1 := by
      rw [Bst.height_mk, Nat.max_comm]
    refine ⟨decreased, t', T', ?_, hat', hkeeps.trans ((keeps_put hy₄ _).trans hkeeps'),
      hbalanced', hitems, ?_⟩
    · simp only [fixupInner, hx, node_parent, node_state, node_left, node_right, hincrement, h₁, h₂,
        h₃, h₄, hy₂, h₅, above_nil, ne_eq, not_true_eq_false, if_false, Option.bind_eq_bind,
        Option.bind_some]
      have hrun' : t₅.Delete_RightBalance y.address (root l) true = some _ := hrun
      rw [hrun']
      rfl
    · rw [Bst.plug, hheight]
      exact hcases
  | cons f path =>
    have haddresses : addresses ((Bst.mk .left .nil y state r₂).plug (f :: path)) =
        addresses ((Bst.mk .left .nil y sy r₂).plug (f :: path)) := by
      unfold addresses
      rw [Bst.toList_plug, Bst.toList_plug, Bst.toList_mk_congr .left y sy state rfl rfl]
    have hnodup := nodup_addresses_mk.mp h.nodup
    obtain ⟨t₅, t₆, h₅, h₆, hy₆, hr₆, hsame₆, htop₆, hkeeps₆⟩ :=
      splice_spec hr₄ (haddresses ▸ hnodup.2.2.1) (hleft f List.mem_cons_self)
    have hpath₆ : RepPath t₆.node none (some y.address) ctx := by
      refine hpath.congr fun a ha => hsame₆ a fun har => ?_
      exact h.disjoint a ha (mem_addresses_mk.mpr (Or.inr (Or.inr (haddresses ▸ har))))
    have hl₆ : Rep t₆.node (some y.address) l :=
      hl.congr fun a ha => hsame₆ a fun har => hnodup.2.2.2 a ha (haddresses ▸ har)
    let t₇ := t₆.put y.address
      (y.node .left (root l) (root (r₂.plug (f :: path))) (above none ctx) state)
    have h₇ : t₆.modify y.address (fun n => { n with
        m_Left := root l
        m_Right := root ((Bst.mk .left .nil y sy r₂).plug (f :: path))
        m_Parent := above none ctx }) = some t₇ := by
      rw [modify_of_node hy₆, root_plug]
      simp only [t₇, root_plug]
      rfl
    have hyitems : ((Bst.mk .left .nil y sy r₂).plug (f :: path)).toList =
        y :: (r₂.plug (f :: path)).toList := by
      rw [Bst.toList_plug, Bst.toList_plug, hleft.before_eq]
      rfl
    have hat₇ : At t₇ ctx (.mk .left l y state (r₂.plug (f :: path))) :=
      h.succeed (htop₆.trans htop) hpath₆ hl₆ hr₆ hyitems rfl
    have hat₇' : At t₇ (f :: path ++ ⟨.right, y, state, l⟩ :: ctx) r₂ := by
      apply hat₇.move
      rw [Bst.plug_append]
      rfl
    have hlength := length_le_plug (Bst.mk .left .nil y sy r₂) (f :: path)
    rw [List.length_cons] at hlength
    have hfuel' : path.length < fuel := by omega
    obtain ⟨decreased, t₈, T₈, hloop, hat₈, hkeeps₈, hb₈, hitems₈, hcases₈⟩ :=
      fixupLoop_spec hat₇' hleft hr₂b hctx (Or.inl ⟨rfl, hyheight⟩) hfuel'
    rw [← Bst.height_plug] at hcases₈
    have hy₈ := hat₈.node_frame
    obtain ⟨A', decreased', t', T', hrun, hat', hkeeps', -, hbalanced', hitems, hcases⟩ :=
      deleteBalance_flag (s := .right) (at_cons.mp hat₈) hb₈ hlb hfits' hcases₈
    refine ⟨decreased', t', T', ?_, hat', hkeeps.trans (hkeeps₆.trans ((keeps_put hy₆ _).trans
      (hkeeps₈.trans hkeeps'))), hbalanced', ?_, ?_⟩
    · have hfx : f.x.address ≠ x.address := by
        intro heq
        apply hnodup.1.2
        rw [addresses_plug_perm.mem_iff, ← heq]
        exact List.mem_append_right _ List.mem_cons_self
      have hy₄ := (rep_mk.mp (rep_plug.mp hr₄).2).1
      have hnone : t₅.setParent none (some f.x.address) = some t₅ := rfl
      have hyleft : (y.node .right (root T₈) (root l) (above none ctx) state).m_Left = root l := rfl
      have hrun' : t₈.Delete_RightBalance y.address (root l) decreased = some _ := hrun
      have hroot_nil : root (.nil : Bst (AvlItem Key Element)) = none := rfl
      simp only [fixupInner, hx, node_parent, node_state, node_left, node_right, hincrement, h₁, h₂,
        h₃, h₄, hy₂, hy₄, above_cons, ne_eq, Option.some.injEq, hfx, not_false_eq_true, if_true, h₅,
        hroot_nil, hnone, h₆, h₇, hloop, hy₈, hyleft, hrun', Option.bind_eq_bind, Option.bind_some]
      rfl
    · rw [hitems, Bst.toList_plug, hleft.before_eq]
      change l.toList ++ y :: T₈.toList = _
      rw [hitems₈]
      rfl
    · rw [Bst.height_mk, Nat.max_comm]
      exact hcases

omit [LinearOrder Key] in
/-- The only child, which has no children, takes the node's place. -/
theorem onlyChild_spec {s : Side}
    (h : At t ctx (.mk s (.mk s .nil y .equal .nil) x (.higher s) .nil)) :
    ∃ t₁ t₂ t₃, t.replaceChild (above none ctx) x.address (some y.address) = some t₁ ∧
      t₁.modify y.address (fun n => { n with m_State := .higher s, m_Parent := above none ctx }) =
        some t₂ ∧
      t₂.node y.address = some (y.node s none none (above none ctx) (.higher s)) ∧
      (∀ B, t₂.deleteBalance s y.address B true = some (y.address, true, t₃)) ∧
      At t₃ ctx (.mk s .nil y .equal .nil) ∧ Keeps t t₃ := by
  have hdisjoint := h.disjoint
  have hnodup := h.nodup
  simp only [mem_addresses_mk, not_or] at hdisjoint
  have hxctx : x.address ∉ pathAddresses ctx := fun hctx => (hdisjoint _ hctx).1 rfl
  have hyctx : y.address ∉ pathAddresses ctx := fun hctx => (hdisjoint _ hctx).2.1.1 rfl
  have htop := h.top
  have hpath := h.path
  rw [root_mk] at htop hpath
  obtain ⟨t₁, h₁, hpath₁, htop₁, hsame₁, hkeeps₁⟩ := replaceChild_spec
    (B := some y.address) htop hpath h.nodup_path hxctx
  have htree := h.rep_of_path hsame₁
  simp only [rep_mk] at htree
  have hy := htree.2.1.1
  let t₂ := t₁.put y.address (y.node s none none (above none ctx) (.higher s))
  have h₂ : t₁.modify y.address (fun n => { n with
      m_State := .higher s, m_Parent := above none ctx }) = some t₂ := by
    rw [modify_of_node hy, node_with]
    rfl
  have hsub : (Bst.mk s .nil y (.higher s) .nil).toList.Sublist
      (Bst.mk s (.mk s .nil y .equal .nil) x (.higher s) .nil).toList := by
    cases s <;> simp [Bst.mk, Bst.toList]
  have hat₂ : At t₂ ctx (.mk s .nil y (.higher s) .nil) := by
    refine h.shrink ?_ ?_ ?_ hsub
    · rw [put_root, root_mk, htop₁]
    · rw [put_node, root_mk, repPath_update hyctx]
      exact hpath₁
    · rw [rep_mk, put_node, Function.update_self]
      exact ⟨rfl, trivial, trivial⟩
  obtain ⟨t₃, h₃, hat₃, hkeeps₃⟩ := setState_spec hat₂ .equal
  have hnode₂ : t₂.node y.address = some (y.node s none none (above none ctx) (.higher s)) :=
    Function.update_self _ _ _
  refine ⟨t₁, t₂, t₃, h₁, h₂, hnode₂, ?_, hat₃,
    hkeeps₁.trans ((keeps_put hy _).trans hkeeps₃)⟩
  intro B
  simp [deleteBalance, hnode₂, h₃]

omit [LinearOrder Key] in
/-- A balanced tree of height one is a node without children. -/
theorem eq_leaf (s : Side) (hbalanced : T.Balanced) (hheight : T.height = 1) :
    ∃ y, T = .mk s .nil y .equal .nil := by
  obtain ⟨c, y, state, o, rfl⟩ := Bst.exists_mk s (t := T) (by omega)
  rw [Bst.height_mk] at hheight
  have hc : c = .nil := Bst.height_eq_zero.mp (by omega)
  have ho : o = .nil := Bst.height_eq_zero.mp (by omega)
  rw [hc, ho, Bst.balanced_mk] at hbalanced
  refine ⟨y, ?_⟩
  rw [hc, ho]
  cases state with
  | equal => rfl
  | higher s' =>
    rcases s.eq_or_other s' with rfl | rfl
    · rw [fits_higher] at hbalanced
      nomatch hbalanced.1
    · rw [fits_higher_other] at hbalanced
      nomatch hbalanced.1

omit [LinearOrder Key] in
theorem fixupOuter_spec (h : At t ctx (.mk .left l x state r)) (hempty : l = .nil ∨ r = .nil)
    (hbalanced : (Bst.mk .left l x state r).Balanced) :
    ∃ t' T', t.fixupOuter x.address = some (true, t') ∧ At t' ctx T' ∧ Keeps t t' ∧
      T'.Balanced ∧ T'.toList = l.toList ++ r.toList ∧
      T'.height + 1 = (Bst.mk .left l x state r).height := by
  have hx := h.node
  obtain ⟨hfits, hlb, hrb⟩ := (Bst.balanced_mk _ _ _ _ _).mp hbalanced
  have hleaf : ∀ (s : Side) (y : AvlItem Key Element),
      (Bst.mk s .nil y .equal .nil).Balanced := by
    intro s y
    cases s <;> exact ⟨rfl, trivial, trivial⟩
  have htop := h.top
  have hpath := h.path
  rw [root_mk] at htop hpath
  have hxctx : x.address ∉ pathAddresses ctx := by
    intro hctx
    exact h.disjoint _ hctx (mem_addresses_mk.mpr (Or.inl rfl))
  have hroot_nil : root (.nil : Bst (AvlItem Key Element)) = none := rfl
  cases l with
  | nil =>
    cases r with
    | nil =>
      obtain ⟨t₁, h₁, hpath₁, htop₁, -, hkeeps₁⟩ :=
        replaceChild_spec (B := none) htop hpath h.nodup_path hxctx
      refine ⟨t₁, .nil, ?_, h.shrink htop₁ hpath₁ trivial (List.nil_sublist _), hkeeps₁, trivial,
        rfl, rfl⟩
      simp [fixupOuter, hx, node_left, node_right, hroot_nil, h₁]
    | node rl z stater rr =>
      have hstate : state = .higher .right ∧ (Bst.node rl z stater rr).height = 1 := by
        rcases state with _ | s
        · nomatch hfits
        · cases s with
          | left => nomatch hfits
          | right => exact ⟨rfl, hfits⟩
      obtain ⟨y, hy⟩ := eq_leaf .right hrb hstate.2
      rw [hstate.1, hy] at h hx ⊢
      obtain ⟨t₁, t₂, t₃, h₁, h₂, hy₂, h₃, hat₃, hkeeps₃⟩ := onlyChild_spec (s := .right) h
      refine ⟨t₃, _, ?_, hat₃, hkeeps₃, hleaf .right y, rfl, ?_⟩
      · have h₃' : ∀ B, t₂.Delete_RightBalance y.address B true = some (y.address, true, t₃) := h₃
        simp [fixupOuter, hx, node_left, node_right, hroot_nil, h₁, h₂, hy₂, h₃']
      · rfl
  | node ll z statel lr =>
    obtain rfl : r = .nil := hempty.resolve_left nofun
    have hstate : state = .higher .left ∧ (Bst.node ll z statel lr).height = 1 := by
      rcases state with _ | s
      · nomatch hfits
      · cases s with
        | left => exact ⟨rfl, hfits⟩
        | right => nomatch hfits
    obtain ⟨y, hy⟩ := eq_leaf .left hlb hstate.2
    rw [hstate.1, hy] at h hx ⊢
    obtain ⟨t₁, t₂, t₃, h₁, h₂, hy₂, h₃, hat₃, hkeeps₃⟩ := onlyChild_spec (s := .left) h
    refine ⟨t₃, _, ?_, hat₃, hkeeps₃, hleaf .left y, rfl, ?_⟩
    · have h₃' : ∀ B, t₂.Delete_LeftBalance y.address B true = some (y.address, true, t₃) := h₃
      simp [fixupOuter, hx, node_left, node_right, hroot_nil, h₁, h₂, hy₂, h₃']
    · rfl

/-! ### The node goes -/

omit [LinearOrder Key] in
theorem At.free {a : NodePtr} (h : At t ctx T) (ha : a ∉ addresses T)
    (hctx : a ∉ pathAddresses ctx) : At (t.free a) ctx T where
  top := h.top
  path := (repPath_update hctx).mpr h.path
  tree := (rep_update ha).mpr h.tree
  nodup := h.nodup
  nodup_path := h.nodup_path
  disjoint := h.disjoint

omit [LinearOrder Key] in
/-- The subtree loses its root, and may become lower. -/
theorem deleteFixup_spec (fuel : ℕ) (h : At t ctx (.mk .left l x state r))
    (hbalanced : (Bst.mk .left l x state r).Balanced) (hfuel : r.toList.length ≤ fuel) :
    ∃ decreased t' T', t.deleteFixup fuel x.address = some (decreased, t') ∧ At t' ctx T' ∧
      (∀ a, (t'.node a).isSome = true → (t.node a).isSome = true ∧ a ≠ x.address) ∧
      t'.m_Size = t.m_Size ∧ T'.Balanced ∧ T'.toList = l.toList ++ r.toList ∧
      (decreased = true ∧ T'.height + 1 = (Bst.mk .left l x state r).height ∨
        decreased = false ∧ T'.height = (Bst.mk .left l x state r).height) := by
  have hrun : ∃ decreased t' T', (if (root l).isSome ∧ (root r).isSome then
        t.fixupInner fuel x.address else t.fixupOuter x.address) = some (decreased, t') ∧
      At t' ctx T' ∧ Keeps t t' ∧ T'.Balanced ∧ T'.toList = l.toList ++ r.toList ∧
      (decreased = true ∧ T'.height + 1 = (Bst.mk .left l x state r).height ∨
        decreased = false ∧ T'.height = (Bst.mk .left l x state r).height) := by
    have hroot : ∀ T : Bst (AvlItem Key Element), (root T).isSome = true ∨ T = .nil := by
      intro T
      cases T with
      | nil => exact Or.inr rfl
      | node => exact Or.inl rfl
    split_ifs with hboth
    · obtain ⟨p, hp⟩ := Option.isSome_iff_exists.mp hboth.2
      exact fixupInner_spec h hp hbalanced hfuel
    · have hempty : l = .nil ∨ r = .nil := by
        rcases hroot l with hl | hl
        · exact Or.inr ((hroot r).resolve_left fun hr => hboth ⟨hl, hr⟩)
        · exact Or.inl hl
      obtain ⟨t', T', hrun, hat, hkeeps, hb, hitems, hheight⟩ := fixupOuter_spec h hempty hbalanced
      exact ⟨true, t', T', hrun, hat, hkeeps, hb, hitems, Or.inl ⟨rfl, hheight⟩⟩
  obtain ⟨decreased, t', T', hrun, hat, hkeeps, hb, hitems, hcases⟩ := hrun
  have hx : x.address ∉ addresses T' := by
    have hnodup := (nodup_addresses_mk.mp h.nodup).1
    unfold addresses at hnodup ⊢
    rw [hitems, List.map_append, List.mem_append, not_or]
    exact hnodup
  have hxctx : x.address ∉ pathAddresses ctx := by
    intro hctx
    exact h.disjoint _ hctx (mem_addresses_mk.mpr (Or.inl rfl))
  refine ⟨decreased, t'.free x.address, T', ?_, hat.free hx hxctx, ?_, hkeeps.size, hb, hitems, hcases⟩
  · have hnode := h.node
    by_cases hboth : (root l).isSome = true ∧ (root r).isSome = true
    · rw [if_pos hboth] at hrun
      simp [deleteFixup, hnode, node_left, node_right, hboth, hrun]
    · rw [if_neg hboth] at hrun
      simp [deleteFixup, hnode, node_left, node_right, hboth, hrun]
  · intro a ha
    by_cases hax : a = x.address
    · rw [hax] at ha
      simp [WmiAvlTree.free] at ha
    · have hold : ((t'.free x.address).node a) = t'.node a := Function.update_of_ne hax _ _
      rw [hold, hkeeps.exist] at ha
      exact ⟨ha, hax⟩

omit [LinearOrder Key] in
theorem deleteLoop_spec {m : ℕ} {decreased : Bool} (fuel : ℕ) (leftSide : Bool) (h : At t ctx T)
    (hT : T.Balanced) (hfits : ContextFits ctx m)
    (hflag : decreased = true ∧ T.height + 1 = m ∨ decreased = false ∧ T.height = m)
    (hside : ∀ f ctx', ctx = f :: ctx' → leftSide = decide (f.side = .left))
    (hfuel : ctx.length < fuel) :
    ∃ t' W, deleteLoop fuel (above none ctx) leftSide decreased t = some t' ∧ At t' [] W ∧
      Keeps t t' ∧ W.Balanced ∧ W.toList = (T.plug ctx).toList := by
  induction ctx generalizing t T fuel m decreased leftSide with
  | nil =>
    obtain ⟨fuel, rfl⟩ : ∃ k, fuel = k + 1 := ⟨fuel - 1, by simp at hfuel; omega⟩
    refine ⟨t, T, ?_, h, Keeps.refl t, hT, rfl⟩
    cases decreased <;> rfl
  | cons f ctx ih =>
    obtain ⟨fuel, rfl⟩ : ∃ k, fuel = k + 1 := ⟨fuel - 1, by simp at hfuel; omega⟩
    rcases hflag with ⟨rfl, hheight⟩ | ⟨rfl, hheight⟩
    · obtain ⟨hfit, hsibling, hrest⟩ := hfits
      obtain ⟨A', decreased', t', T', hrun, hat, hkeeps, hroot, hbalanced, hitems, hcases⟩ :=
        deleteBalance_flag (at_cons.mp h) hT hsibling hfit (Or.inl ⟨rfl, hheight⟩)
      obtain ⟨n', hnode', hparent⟩ := hat.root_parent hroot
      have hframe := h.node_frame
      have hstep : ∃ leftSide', (∀ f' ctx', ctx = f' :: ctx' → leftSide' = decide (f'.side = .left)) ∧
          deleteLoop (fuel + 1) (above none (f :: ctx)) leftSide true t =
            deleteLoop fuel (above none ctx) leftSide' decreased' t' := by
        have hbalance : ∀ n, t.node f.x.address = some n →
            (if leftSide then t.Delete_LeftBalance f.x.address n.m_Right true
              else t.Delete_RightBalance f.x.address n.m_Left true) =
                some (A', decreased', t') := by
          intro n hn
          obtain rfl := Option.some.inj (hframe.symm.trans hn)
          rw [hside f ctx rfl, ← hrun]
          cases f.side <;> rfl
        cases ctx with
        | nil =>
          refine ⟨leftSide, nofun, ?_⟩
          rw [above_nil] at hparent hframe ⊢
          cases hs : leftSide with
          | false =>
            rw [hs] at hbalance
            have hrun' : t.Delete_RightBalance _ _ _ = _ := hbalance _ hframe
            simp [deleteLoop, above_cons, hframe, hrun', hnode', hparent]
          | true =>
            rw [hs] at hbalance
            have hrun' : t.Delete_LeftBalance _ _ _ = _ := hbalance _ hframe
            simp [deleteLoop, above_cons, hframe, hrun', hnode', hparent]
        | cons f' ctx =>
          refine ⟨decide (f'.side = .left), ?_, ?_⟩
          · rintro f'' ctx' ⟨⟩
            rfl
          · rw [above_cons] at hparent hframe
            have hframe' := hat.node_frame
            rw [hroot] at hframe'
            have hleft := left_iff hat hroot
            cases hs : leftSide with
            | false =>
              rw [hs] at hbalance
              have hrun' : t.Delete_RightBalance _ _ _ = _ := hbalance _ hframe
              simp [deleteLoop, above_cons, hframe, hrun', hnode', hparent, hframe', hleft]
            | true =>
              rw [hs] at hbalance
              have hrun' : t.Delete_LeftBalance _ _ _ = _ := hbalance _ hframe
              simp [deleteLoop, above_cons, hframe, hrun', hnode', hparent, hframe', hleft]
      obtain ⟨leftSide', hside', hstep⟩ := hstep
      obtain ⟨t'', W, hloop, hatW, hkeepsW, hbalancedW, hitemsW⟩ :=
        ih fuel leftSide' hat hbalanced hrest hcases hside' (Nat.lt_of_succ_lt_succ hfuel)
      refine ⟨t'', W, hstep.trans hloop, hatW, hkeeps.trans hkeepsW, hbalancedW, hitemsW.trans ?_⟩
      rw [Bst.toList_plug, hitems, ← Bst.toList_plug]
      rfl
    · refine ⟨t, T.plug (f :: ctx), ?_, h.move rfl, Keeps.refl t, ?_, rfl⟩
      · unfold deleteLoop
        rfl
      · rw [Bst.balanced_plug, hheight]
        exact ⟨hT, hfits⟩

/-! ### Delete -/

omit [LinearOrder Key] in
theorem At.resize (h : At t ctx T) (n : ℕ) : At { t with m_Size := n } ctx T where
  top := h.top
  path := h.path
  tree := h.tree
  nodup := h.nodup
  nodup_path := h.nodup_path
  disjoint := h.disjoint

/-- One node has gone. -/
theorem Represents.remove {W' : Bst (AvlItem Key Element)} {l r : List (AvlItem Key Element)}
    (h : Represents t W) (hat : At t' [] W') (hbalanced : W'.Balanced)
    (hitems : W.toList = l ++ x :: r) (hitems' : W'.toList = l ++ r)
    (hexist : ∀ a, (t'.node a).isSome = true → (t.node a).isSome = true ∧ a ≠ x.address)
    (hsize : t'.m_Size = t.m_Size - 1) : Represents t' W' where
  place := hat
  balanced := hbalanced
  sorted := by
    have hsorted := h.sorted
    unfold Sorted at hsorted ⊢
    rw [hitems] at hsorted
    rw [hitems']
    exact hsorted.sublist ((List.Sublist.refl l).append (List.sublist_cons_self x r))
  size := by
    rw [hsize, h.size, hitems, hitems', List.length_append, List.length_append, List.length_cons]
    omega
  only a ha := by
    obtain ⟨hold, hne⟩ := hexist a ha
    have hmem := h.only a hold
    unfold addresses at hmem ⊢
    rw [hitems, List.map_append, List.map_cons, List.mem_append, List.mem_cons] at hmem
    rw [hitems', List.map_append, List.mem_append]
    exact hmem.imp_right fun hr => hr.resolve_left hne

/-- `Delete` changes nothing if the key is not there, and else takes its node out. -/
theorem Represents.delete_spec {fuel : ℕ} (h : Represents t W) (hfuel : W.toList.length < fuel) (key : Key) :
    ((∀ x ∈ W.toList, x.key ≠ key) ∧ t.delete fuel key = some (.e_StatusCode_NotFound, t)) ∨
    ∃ t' W' l x r, x.key = key ∧ W.toList = l ++ x :: r ∧
      t.delete fuel key = some (.e_StatusCode_Success, t') ∧ Represents t' W' ∧
        W'.toList = l ++ r := by
  have htop := h.place.top
  change t.m_Root = root W at htop
  cases hroot : root W with
  | none =>
    obtain rfl : W = .nil := by
      cases W with
      | nil => rfl
      | node l x state r => nomatch hroot
    left
    refine ⟨nofun, ?_⟩
    unfold delete
    rw [htop]
    rfl
  | some p =>
    rw [hroot] at htop
    have hsearch := search_spec key h.place hroot (Nat.le_of_lt hfuel) h.sorted nofun nofun
    rcases hsearch with ⟨l, x, state, r, ctx, hrun, hkey, hplug⟩ |
      ⟨f, ctx, hrun, hplug, hbefore, hafter⟩
    · right
      have hat : At t ctx (.mk .left l x state r) := h.place.move hplug
      have hitems := Bst.toList_plug (.mk .left l x state r) ctx
      change (Bst.plug (.node l x state r) ctx).toList = _ at hitems
      rw [hplug] at hitems
      change W.toList = _ ++ (l.toList ++ x :: r.toList) ++ _ at hitems
      have hbalanced := (Bst.balanced_plug (.mk .left l x state r) ctx).mp (hplug ▸ h.balanced)
      have hlength := congrArg List.length hitems
      simp only [List.length_append, List.length_cons] at hlength
      have hctxlength := length_le_plug (Bst.mk .left l x state r) ctx
      change _ ≤ (Bst.plug (.node l x state r) ctx).toList.length at hctxlength
      rw [hplug] at hctxlength
      change _ ≤ W.toList.length at hctxlength
      have hsplit : W.toList = (before ctx ++ l.toList) ++ x :: (r.toList ++ after ctx) := by
        rw [hitems]
        simp
      have hnode := hat.node
      cases ctx with
      | nil =>
        obtain ⟨decreased, t₁, T₁, hfixup, hat₁, hexist₁, hsize₁, hbalanced₁, hitems₁, -⟩ :=
          deleteFixup_spec fuel (hat.resize (t.m_Size - 1)) hbalanced.1 (by omega)
        refine ⟨t₁, T₁, _, x, _, hkey, hsplit, ?_, ?_, ?_⟩
        · rw [htop] at hfixup
          simp [delete, htop, hrun, hnode, above_nil, hfixup]
        · exact h.remove hat₁ hbalanced₁ hsplit (by simp [hitems₁, before, after]) hexist₁ hsize₁
        · simp [hitems₁, before, after]
      | cons f ctx =>
        obtain ⟨decreased, t₁, T₁, hfixup, hat₁, hexist₁, hsize₁, hbalanced₁, hitems₁, hcases⟩ :=
          deleteFixup_spec fuel hat hbalanced.1 (by omega)
        have hframe := hat.node_frame
        have hleft := left_iff hat root_mk
        rw [root_mk] at hframe
        rw [above_cons] at hnode
        obtain ⟨t₂, W', hloop, hat₂, hkeeps₂, hbalanced₂, hitems₂⟩ := deleteLoop_spec fuel
          (decide (f.side = .left)) (hat₁.resize (t₁.m_Size - 1)) hbalanced₁ hbalanced.2
          hcases (by rintro f' ctx' ⟨⟩; rfl) (by omega)
        have hitems' : W'.toList = (before (f :: ctx) ++ l.toList) ++ (r.toList ++ after (f :: ctx)) := by
          rw [hitems₂, Bst.toList_plug, hitems₁]
          simp
        refine ⟨t₂, W', _, x, _, hkey, hsplit, ?_, ?_, hitems'⟩
        · rw [above_cons] at hloop
          simp [delete, htop, hrun, hnode, hframe, hleft, hfixup, hloop]
        · refine h.remove hat₂ hbalanced₂ hsplit hitems' ?_ ?_
          · intro a ha
            rw [hkeeps₂.exist] at ha
            exact hexist₁ a ha
          · rw [hkeeps₂.size, ← hsize₁]
    · left
      have hitems := Bst.toList_plug (.nil : Bst (AvlItem Key Element)) (f :: ctx)
      rw [hplug, Bst.toList, List.append_nil] at hitems
      change W.toList = _ at hitems
      constructor
      · intro x hx
        rw [hitems] at hx
        rcases List.mem_append.mp hx with hx | hx
        · exact (hbefore x hx).ne
        · exact (hafter x hx).ne'
      · simp [delete, htop, hrun]

end WmiAvlTree

end NtAdmin.Wmi.Containers
