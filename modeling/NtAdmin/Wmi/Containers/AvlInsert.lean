import NtAdmin.Wmi.Containers.AvlBalance
import Mathlib.Order.Basic

/-! Searching and inserting. -/
namespace NtAdmin.Wmi.Containers

open NtAdmin.Lib.Avl

namespace WmiAvlTree
variable {Key Element : Type} [LinearOrder Key] {t t' : WmiAvlTree Key Element}
  {T W : Bst (AvlItem Key Element)} {ctx : List (Frame (AvlItem Key Element))}
  {key : Key} {element : Element}

/-- The keys increase from left to right. -/
def Sorted (T : Bst (AvlItem Key Element)) : Prop :=
  T.toList.Pairwise fun x y => x.key < y.key

/-- Memory holds the tree `W` and nothing else. -/
structure Represents (t : WmiAvlTree Key Element) (W : Bst (AvlItem Key Element)) : Prop where
  place : At t [] W
  balanced : W.Balanced
  sorted : Sorted W
  size : t.m_Size = W.toList.length
  only : ∀ a, (t.node a).isSome = true → a ∈ addresses W

/-! ### The way down -/

omit [LinearOrder Key] in
theorem length_lt_of_mk (s : Side) (c : Bst (AvlItem Key Element)) (x : AvlItem Key Element)
    (state : WmAvlState) (o : Bst (AvlItem Key Element)) :
    c.toList.length < (Bst.mk s c x state o).toList.length := by
  rw [(Bst.toList_mk_perm s c x state o).length_eq, List.length_cons, List.length_append]
  omega

/-- The loop ends at the node with the key, or where it belongs. -/
theorem search_spec (key : Key) {fuel : ℕ} {p : NodePtr} (h : At t ctx T) (hroot : root T = some p)
    (hfuel : T.toList.length ≤ fuel) (hsorted : Sorted T)
    (hbefore : ∀ y ∈ before ctx, y.key < key) (hafter : ∀ y ∈ after ctx, key < y.key) :
    (∃ l x state r ctx', t.search key fuel p = some (.found x.address) ∧ x.key = key ∧
      (Bst.node l x state r).plug ctx' = T.plug ctx) ∨
    ∃ f ctx', t.search key fuel p = some (.missing f.x.address f.side) ∧
      Bst.nil.plug (f :: ctx') = T.plug ctx ∧ (∀ y ∈ before (f :: ctx'), y.key < key) ∧
        ∀ y ∈ after (f :: ctx'), key < y.key := by
  induction T generalizing ctx fuel p with
  | nil => cases hroot
  | node l x state r ihl ihr =>
    obtain rfl := Option.some.inj hroot
    have hnode := (rep_mk (s := .left)).mp h.tree
    obtain ⟨hnode, -, -⟩ := hnode
    have hlength := length_lt_of_mk .left l x state r
    have hlength' := length_lt_of_mk .right r x state l
    change _ < (Bst.node l x state r).toList.length at hlength hlength'
    obtain ⟨fuel, rfl⟩ : ∃ k, fuel = k + 1 := ⟨fuel - 1, by omega⟩
    unfold Sorted Bst.toList at hsorted
    rw [List.pairwise_append, List.pairwise_cons] at hsorted
    obtain ⟨hl, ⟨hxr, hr⟩, hlr⟩ := hsorted
    rcases lt_trichotomy key x.key with hlt | heq | hgt
    · have hafter' : ∀ y ∈ after (⟨.left, x, state, r⟩ :: ctx), key < y.key := by
        intro y hy
        rcases List.mem_append.mp hy with hy | hy
        · rcases List.mem_cons.mp hy with rfl | hy
          · exact hlt
          · exact hlt.trans (hxr y hy)
        · exact hafter y hy
      have hbefore' : ∀ y ∈ before (⟨.left, x, state, r⟩ :: ctx), y.key < key := by
        intro y hy
        rcases List.mem_append.mp hy with hy | hy
        · exact hbefore y hy
        · cases hy
      cases l with
      | nil =>
        right
        refine ⟨⟨.left, x, state, r⟩, ctx, ?_, rfl, hbefore', hafter'⟩
        simp [search, hnode, AvlItem.node, root, hlt, hlt.ne]
      | node ll y statel lr =>
        have hstep : t.search key (fuel + 1) x.address = t.search key fuel y.address := by
          simp [search, hnode, AvlItem.node, root, hlt, hlt.ne]
        rw [hstep]
        exact ihl (at_cons.mpr h) rfl (by omega) hl hbefore'
          hafter'
    · left
      refine ⟨l, x, state, r, ctx, ?_, heq.symm, rfl⟩
      simp [search, hnode, AvlItem.node, heq]
    · have hafter' : ∀ y ∈ after (⟨.right, x, state, l⟩ :: ctx), key < y.key := by
        intro y hy
        rcases List.mem_append.mp hy with hy | hy
        · cases hy
        · exact hafter y hy
      have hbefore' : ∀ y ∈ before (⟨.right, x, state, l⟩ :: ctx), y.key < key := by
        intro y hy
        rcases List.mem_append.mp hy with hy | hy
        · exact hbefore y hy
        · rcases List.mem_append.mp hy with hy | hy
          · exact (hlr y hy x List.mem_cons_self).trans hgt
          · rw [List.mem_singleton.mp hy]
            exact hgt
      cases r with
      | nil =>
        right
        refine ⟨⟨.right, x, state, l⟩, ctx, ?_, rfl, hbefore', hafter'⟩
        simp [search, hnode, AvlItem.node, root, hgt.ne', hgt.not_gt]
      | node rl y stater rr =>
        have hstep : t.search key (fuel + 1) x.address = t.search key fuel y.address := by
          simp [search, hnode, AvlItem.node, root, hgt.ne', hgt.not_gt]
        rw [hstep]
        exact ihr (at_cons.mpr h) rfl (by omega) hr hbefore'
          hafter'

/-! ### The way back -/

omit [LinearOrder Key] in
/-- The parent has the node on the side from which the path comes. -/
theorem left_iff {f : Frame (AvlItem Key Element)} {p : NodePtr} (h : At t (f :: ctx) T)
    (hroot : root T = some p) :
    (f.x.node f.side (some p) (root f.sibling) (above none ctx) f.state).m_Left = some p ↔
      f.side = .left := by
  have hsibling : root f.sibling ≠ some p := by
    intro hp
    have hpath : p ∈ pathAddresses (f :: ctx) :=
      List.mem_cons_of_mem _ (List.mem_append_left _ (root_mem hp))
    exact h.disjoint p hpath (root_mem hroot)
  cases hs : f.side with
  | left => exact iff_of_true rfl rfl
  | right => exact iff_of_false hsibling nofun

omit [LinearOrder Key] in
theorem At.node_frame {f : Frame (AvlItem Key Element)} (h : At t (f :: ctx) T) :
    t.node f.x.address = some (f.x.node f.side (root T) (root f.sibling) (above none ctx) f.state) :=
  h.path.1

omit [LinearOrder Key] in
theorem insertLoop_spec {s : Side} {m : ℕ} {increased : Bool} (fuel : ℕ) (next : Option NodePtr)
    (h : At t ctx T) (hbalanced : T.Balanced) (hfits : ContextFits ctx m)
    (hfuel : ctx.length < fuel) (hnext : increased = true → next = root T)
    (hcases : increased = true ∧ T.height = m + 1 ∧ Leans T ∨ increased = false ∧ T.height = m) :
    ∃ t' W, insertLoop s fuel next increased t = some t' ∧ At t' [] W ∧ Keeps t t' ∧ W.Balanced ∧
      W.toList = (T.plug ctx).toList := by
  induction ctx generalizing t T fuel m next increased with
  | nil =>
    refine ⟨t, T, ?_, h, Keeps.refl t, hbalanced, rfl⟩
    obtain ⟨fuel, rfl⟩ : ∃ k, fuel = k + 1 := ⟨fuel - 1, by simp at hfuel; omega⟩
    rcases hcases with ⟨rfl, hheight, -⟩ | ⟨rfl, -⟩
    · obtain ⟨c, x, state, o, rfl⟩ := Bst.exists_mk .left (t := T) (by omega)
      rw [hnext rfl, root_mk]
      simp [insertLoop, h.node, above]
    · rfl
  | cons f ctx ih =>
    rcases hcases with ⟨rfl, hheight, hleans⟩ | ⟨rfl, hheight⟩
    · obtain ⟨c, x, state, o, rfl⟩ := Bst.exists_mk .left (t := T) (by omega)
      obtain ⟨hfit, hsibling, hrest⟩ := hfits
      have hleft := left_iff h root_mk
      have hframe := h.node_frame
      rw [root_mk] at hframe
      obtain ⟨A', increased', t', T', hrun, hat, hkeeps, hroot, hbalanced', hitems, hcases⟩ :=
        insertBalance_spec (at_cons.mp h) hbalanced hsibling hfit hheight hleans root_mk
      obtain ⟨fuel, rfl⟩ : ∃ k, fuel = k + 1 := ⟨fuel - 1, by simp at hfuel; omega⟩
      have hx : ∃ n, t'.node x.address = some n ∧ (increased' = true → n.m_Parent = root T') := by
        rcases hcases with ⟨-, rfl, -⟩ | ⟨rfl, -⟩
        · have hchild : At t' (⟨f.side, f.x, .higher f.side, f.sibling⟩ :: ctx) _ := at_cons.mpr hat
          refine ⟨_, hchild.node, fun _ => ?_⟩
          rw [node_parent, root_mk]
          rfl
        · have hsome := hkeeps.exist x.address
          rw [h.node, Option.isSome_some] at hsome
          obtain ⟨n, hn⟩ := Option.isSome_iff_exists.mp hsome
          exact ⟨n, hn, fun hinc => by cases hinc⟩
      obtain ⟨n, hn, hparent⟩ := hx
      have hstep : ∃ next', (increased' = true → next' = root T') ∧
          insertLoop s (fuel + 1) next true t = insertLoop s fuel next' increased' t' := by
        refine ⟨if s = .left then n.m_Parent else some A', ?_, ?_⟩
        · intro hinc
          split_ifs
          · exact hparent hinc
          · exact hroot.symm
        · rw [hnext rfl, root_mk]
          simp only [insertLoop, h.node, node_parent, above_cons, hframe, Option.bind_eq_bind,
            Option.bind_some]
          by_cases hside : f.side = .left
          · have hleftrun : t.Insert_LeftBalance f.x.address x.address true = _ := hside ▸ hrun
            rw [if_pos (hleft.mpr hside), hleftrun]
            cases s with
            | left => simp [hn]
            | right => rfl
          · have hright : f.side = .right := (Side.eq_or_other .left f.side).resolve_left hside
            have hrightrun : t.Insert_RightBalance f.x.address x.address true = _ := hright ▸ hrun
            rw [if_neg fun hp => hside (hleft.mp hp), hrightrun]
            cases s with
            | left => simp [hn]
            | right => rfl
      obtain ⟨next', hnext', hstep⟩ := hstep
      obtain ⟨t'', W, hloop, hatW, hkeepsW, hbalancedW, hitemsW⟩ := ih fuel next' hat hbalanced' hrest
        (by simp at hfuel; omega) hnext' (hcases.imp_left fun hgrown => ⟨hgrown.1, hgrown.2.2⟩)
      refine ⟨t'', W, hstep.trans hloop, hatW, hkeeps.trans hkeepsW, hbalancedW, hitemsW.trans ?_⟩
      rw [Bst.toList_plug, hitems, ← Bst.toList_plug]
      rfl
    · refine ⟨t, T.plug (f :: ctx), ?_, h.move rfl, Keeps.refl t, ?_, rfl⟩
      · unfold insertLoop
        rfl
      · rw [Bst.balanced_plug, hheight]
        exact ⟨hbalanced, hfits⟩

/-! ### Insert -/

omit [LinearOrder Key] in
theorem length_le_plug (T : Bst (AvlItem Key Element)) (ctx : List (Frame (AvlItem Key Element))) :
    T.toList.length + ctx.length ≤ (T.plug ctx).toList.length := by
  induction ctx generalizing T with
  | nil => exact Nat.le_refl _
  | cons f ctx ih =>
    have hmk := length_lt_of_mk f.side T f.x f.state f.sibling
    have hrest := ih (.mk f.side T f.x f.state f.sibling)
    rw [List.length_cons, Bst.plug]
    omega

omit [LinearOrder Key] in
/-- The new node, when it has been linked to the node that is to be its parent. -/
theorem link_spec (key : Key) (element : Element) {f : Frame (AvlItem Key Element)}
    {new : NodePtr} (h : At t (f :: ctx) .nil)
    (hnew : t.node new = none) (hout : new ∉ pathAddresses (f :: ctx)) :
    ∃ t', ({ t.put new (newNode key element (some f.x.address)) with
        m_Size := t.m_Size + 1 } : WmiAvlTree Key Element).modify f.x.address
          (WmiAvlNode.setChild f.side (some new)) = some t' ∧
      At t' (f :: ctx) (.mk .left .nil ⟨new, key, element⟩ .equal .nil) ∧
      t'.m_Size = t.m_Size + 1 ∧
      ∀ a, (t'.node a).isSome = true → a = new ∨ (t.node a).isSome = true := by
  have hframe := h.node_frame
  have hne : f.x.address ≠ new := by
    rintro rfl
    rw [hnew] at hframe
    nomatch hframe
  obtain ⟨-, hsibling, hctx⟩ := h.path
  have hnodup := h.nodup_path
  unfold pathAddresses at hnodup hout
  rw [List.nodup_cons, List.mem_append, not_or] at hnodup
  rw [List.mem_cons, List.mem_append, not_or, not_or] at hout
  have hput : ({ t.put new (newNode key element (some f.x.address)) with
      m_Size := t.m_Size + 1 } : WmiAvlTree Key Element).node f.x.address = _ :=
    (t.put_of_ne _ hne).trans hframe
  refine ⟨_, modify_of_node hput _, ?_, rfl, ?_⟩
  · constructor
    · exact h.top
    · constructor
      · rw [put_node, Function.update_self, node_setChild, root_mk]
      constructor
      · rw [put_node, rep_update hnodup.1.1, put_node, rep_update hout.2.1]
        exact hsibling
      · rw [put_node, repPath_update hnodup.1.2, put_node, repPath_update hout.2.2]
        exact hctx
    · rw [rep_mk, put_node, Function.update_of_ne hne.symm, put_node, Function.update_self]
      exact ⟨rfl, trivial, trivial⟩
    · exact List.nodup_singleton _
    · exact h.nodup_path
    · intro a ha ha'
      rw [mem_addresses_mk] at ha'
      have hanew : a = new := by simpa using ha'
      subst hanew
      simp only [pathAddresses, List.mem_cons, List.mem_append] at ha
      rcases ha with ha | ha | ha
      · exact hout.1 ha
      · exact hout.2.1 ha
      · exact hout.2.2 ha
  · intro a ha
    by_cases hx : a = f.x.address
    · right
      rw [hx, hframe]
      rfl
    · rw [put_node, Function.update_of_ne hx, put_node] at ha
      by_cases hanew : a = new
      · exact Or.inl hanew
      · rw [Function.update_of_ne hanew] at ha
        exact Or.inr ha

/-- The first node. -/
theorem represents_first (h : Represents t .nil) (key : Key) (element : Element) (new : NodePtr) :
    Represents { t.put new (newNode key element none) with
        m_Root := some new
        m_Size := t.m_Size + 1 } (.node .nil ⟨new, key, element⟩ .equal .nil) where
  place := by
    rw [at_iff]
    refine ⟨rfl, ⟨?_, trivial, trivial⟩, List.nodup_singleton _⟩
    exact Function.update_self _ _ _
  balanced := ⟨rfl, trivial, trivial⟩
  sorted := List.pairwise_singleton _ _
  size := congrArg (· + 1) h.size
  only a ha := by
    by_cases hanew : a = new
    · rw [hanew]
      exact List.mem_singleton_self _
    · have hsome : (t.node a).isSome = true := by
        rw [← ha]
        exact congrArg Option.isSome (t.put_of_ne _ hanew).symm
      nomatch h.only a hsome

/-- The keys still increase with a new one at its place. -/
theorem pairwise_insert {l r : List (AvlItem Key Element)} {x : AvlItem Key Element}
    (h : (l ++ r).Pairwise fun y z => y.key < z.key) (hl : ∀ y ∈ l, y.key < x.key)
    (hr : ∀ y ∈ r, x.key < y.key) : (l ++ x :: r).Pairwise fun y z => y.key < z.key := by
  rw [List.pairwise_append] at h
  rw [List.pairwise_append, List.pairwise_cons]
  refine ⟨h.1, ⟨hr, h.2.1⟩, ?_⟩
  intro y hy z hz
  rcases List.mem_cons.mp hz with rfl | hz
  · exact hl y hy
  · exact h.2.2 y hy z hz

/-- `Insert` changes nothing if the key is there, and else puts the new node between the smaller and
the greater keys. -/
theorem Represents.insert_spec {fuel : ℕ} {new : NodePtr} (h : Represents t W) (hnew : t.node new = none)
    (hfuel : W.toList.length < fuel) (key : Key) (element : Element) :
    ((∃ x ∈ W.toList, x.key = key) ∧
      t.insert fuel key element new = some (.e_StatusCode_AlreadyExists, t)) ∨
    (∀ x ∈ W.toList, x.key ≠ key) ∧ ∃ t' W' l r,
      t.insert fuel key element new = some (.e_StatusCode_Success, t') ∧ Represents t' W' ∧
        W.toList = l ++ r ∧ W'.toList = l ++ ⟨new, key, element⟩ :: r := by
  have htop := h.place.top
  change t.m_Root = root W at htop
  cases hroot : root W with
  | none =>
    obtain rfl : W = .nil := by
      cases W with
      | nil => rfl
      | node l x state r => cases hroot
    right
    refine ⟨fun _ hx => (by cases hx), _, _, [], [], ?_, represents_first h key element new, rfl, rfl⟩
    unfold insert
    rw [htop]
    rfl
  | some p =>
    rw [hroot] at htop
    have hsearch := search_spec key h.place hroot (Nat.le_of_lt hfuel) h.sorted
      (fun _ hy => by cases hy) fun _ hy => by cases hy
    rcases hsearch with ⟨l, x, state, r, ctx, hrun, hkey, hplug⟩ |
      ⟨f, ctx, hrun, hplug, hbefore, hafter⟩
    · left
      constructor
      · refine ⟨x, ?_, hkey⟩
        change _ ∈ (W.plug []).toList
        rw [← hplug, Bst.toList_plug]
        simp [Bst.toList]
      · simp [insert, htop, hrun]
    · right
      have hitems := Bst.toList_plug (.nil : Bst (AvlItem Key Element)) (f :: ctx)
      rw [hplug, Bst.toList, List.append_nil] at hitems
      change W.toList = _ at hitems
      have hat : At t (f :: ctx) .nil := h.place.move hplug
      have hout : new ∉ pathAddresses (f :: ctx) := by
        intro hmem
        have htree := addresses_plug_perm.mem_iff.mpr (List.mem_append_right (addresses .nil) hmem)
        rw [hplug] at htree
        have hsome := h.place.tree.isSome htree
        rw [hnew] at hsome
        cases hsome
      have hfits := (Bst.balanced_plug (.nil : Bst (AvlItem Key Element)) (f :: ctx)).mp
        (hplug ▸ h.balanced)
      obtain ⟨-, hfit, hsibling, hrest⟩ := hfits
      have hlength := length_le_plug (.nil : Bst (AvlItem Key Element)) (f :: ctx)
      rw [hplug] at hlength
      change _ ≤ W.toList.length at hlength
      obtain ⟨t₁, hlink, hat₁, hsize, hexist⟩ := link_spec key element hat hnew hout
      obtain ⟨A', increased, t₂, T', hbalance, hat₂, hkeeps₂, hroot₂, hbalanced₂, hitems₂, hcases⟩ :=
        insertBalance_spec (at_cons.mp hat₁) ⟨rfl, trivial, trivial⟩ hsibling hfit rfl (Or.inl rfl)
          root_mk
      obtain ⟨t₃, W', hloop, hat₃, hkeeps₃, hbalanced₃, hitems₃⟩ := insertLoop_spec (s := f.side)
        fuel (some A') hat₂ hbalanced₂ hrest
        (by simp only [List.length_cons] at hlength; omega) (fun _ => hroot₂.symm)
        (hcases.imp_left fun hgrown => ⟨hgrown.1, hgrown.2.2⟩)
      have hitems' : W'.toList = before (f :: ctx) ++ ⟨new, key, element⟩ :: after (f :: ctx) := by
        rw [hitems₃, Bst.toList_plug, hitems₂, ← Bst.toList_plug]
        have hleaf := Bst.toList_plug (.mk .left .nil ⟨new, key, element⟩ .equal .nil) (f :: ctx)
        rw [Bst.plug] at hleaf
        rw [hleaf]
        simp [Bst.mk, Bst.toList]
      have hsorted := h.sorted
      unfold Sorted at hsorted
      rw [hitems] at hsorted
      refine ⟨?_, t₃, W', before (f :: ctx), after (f :: ctx), ?_, ?_, hitems, hitems'⟩
      · intro x hx
        rw [hitems] at hx
        rcases List.mem_append.mp hx with hx | hx
        · exact (hbefore x hx).ne
        · exact (hafter x hx).ne'
      · simp only [insert, htop, hrun, hlink, hbalance, hloop, Option.bind_eq_bind,
          Option.bind_some, Option.pure_def]
      · constructor
        · exact hat₃
        · exact hbalanced₃
        · unfold Sorted
          rw [hitems']
          exact pairwise_insert hsorted hbefore hafter
        · rw [hkeeps₃.size, hkeeps₂.size, hsize, h.size, hitems, hitems']
          simp
          omega
        · intro a ha
          rw [hkeeps₃.exist, hkeeps₂.exist] at ha
          have haddresses : addresses W' = _ := congrArg (List.map AvlItem.address) hitems'
          rw [haddresses, List.map_append, List.map_cons, List.mem_append, List.mem_cons]
          rcases hexist a ha with rfl | hold
          · exact Or.inr (Or.inl rfl)
          · have hmem := h.only a hold
            unfold addresses at hmem
            rw [hitems, List.map_append, List.mem_append] at hmem
            exact hmem.imp_right Or.inr

end WmiAvlTree

end NtAdmin.Wmi.Containers
