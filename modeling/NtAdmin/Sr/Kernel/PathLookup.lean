import NtAdmin.Sr.Kernel.PathTree

/-! When the lookup in a path tree follows the tree, whatever the order of siblings is. -/
namespace NtAdmin.Sr

/-! ### Trees -/

/-- A node with its children in the order of their links. The files of a node are the types of the
names in its file list. -/
inductive PathTree
  | node (iNode : ℕ) (name : Element) (type : ℕ) (disabled : Bool) (files : Element → Option ℕ)
      (sons : List PathTree)

namespace PathTree

def iNode : PathTree → ℕ
  | node iNode _ _ _ _ _ => iNode

def name : PathTree → Element
  | node _ name _ _ _ _ => name

def type : PathTree → ℕ
  | node _ _ type _ _ _ => type

def disabled : PathTree → Bool
  | node _ _ _ disabled _ _ => disabled

def files : PathTree → Element → Option ℕ
  | node _ _ _ _ files _ => files

def sons : PathTree → List PathTree
  | node _ _ _ _ _ sons => sons

/-- The child of a name. -/
def son (t : PathTree) (name : Element) : Option PathTree := t.sons.find? fun s => s.name = name

/-- The child that is followed: the one of that name, or else the wildcard in front of the last
element. -/
def follows (t : PathTree) (ppElem : Element) (rest : List Element) : Option PathTree :=
  (t.son ppElem).or (if rest ≠ [] then t.son wildCard else none)

/-- A node with that index is in the tree. -/
inductive Occurs : ℕ → PathTree → Prop
  | root (t : PathTree) : Occurs t.iNode t
  | son {i : ℕ} {t s : PathTree} (hmem : s ∈ t.sons) (h : Occurs i s) : Occurs i t

theorem occurs_node {i iNode type : ℕ} {name : Element} {disabled : Bool}
    {files : Element → Option ℕ} {sons : List PathTree} :
    Occurs i (node iNode name type disabled files sons) ↔ i = iNode ∨ ∃ s ∈ sons, Occurs i s := by
  constructor
  · rintro (_ | ⟨hmem, h⟩)
    · exact Or.inl rfl
    · exact Or.inr ⟨_, hmem, h⟩
  · rintro (rfl | ⟨s, hmem, h⟩)
    · exact Occurs.root (node i name type disabled files sons)
    · exact Occurs.son (t := node iNode name type disabled files sons) hmem h

/-- Siblings have distinct names, and no node is below itself. -/
inductive WellFormed : PathTree → Prop
  | intro {t : PathTree} (names : (t.sons.map name).Nodup)
      (acyclic : ∀ s ∈ t.sons, ¬ Occurs t.iNode s) (sons : ∀ s ∈ t.sons, WellFormed s) :
      WellFormed t

end PathTree

theorem exists_son_mem {t son : PathTree} {name : Element} (h : t.son name = some son) :
    son ∈ t.sons ∧ son.name = name :=
  ⟨List.mem_of_find?_eq_some h, by simpa using List.find?_some h⟩

theorem PathTree.follows_mem {t son : PathTree} {ppElem : Element} {rest : List Element}
    (h : t.follows ppElem rest = some son) : son ∈ t.sons := by
  rw [follows, Option.or_eq_some_iff] at h
  obtain h | ⟨-, h⟩ := h
  · exact (exists_son_mem h).1
  · split_ifs at h
    exact (exists_son_mem h).1

/-- A type that is not known leaves the type that was found before. -/
def known (type before : ℕ) : ℕ := if type ≠ NODE_TYPE_UNKNOWN then type else before

/-- A lookup that failed leaves its level. -/
def leave (found : Bool × Match) : Bool × Match :=
  if found.1 then found else (false, { found.2 with pLevel := found.2.pLevel - 1 })

section lookup
variable (read : PathTree → Element → PathTree → PathTree) (last : PathTree → ℕ → ℕ)

/-- The lookup in a tree. `read` is the node whose type and flags count when a child is followed,
and `last` the type that a wildcard gives the last element. -/
def lookup : PathTree → List Element → Match → Bool × Match
  | father, [], m => (true, { m with pNode := father.iNode, pfExactMatch := true })
  | father, ppElem :: rest, m =>
    match father.follows ppElem rest with
    | some son =>
      let node := read father ppElem son
      let m := { m with pLevel := m.pLevel + 1, pType := known node.type m.pType }
      if node.disabled then (true, { m with pType := NODE_TYPE_EXCLUDE, pNode := son.iNode })
      else leave (lookup son rest m)
    | none =>
      if rest = [] then
        match father.files ppElem with
        | some type => (true, { m with pType := type, pfExactMatch := true, pNode := father.iNode })
        | none =>
          match father.son wildCard with
          | some son => (true, { m with pType := last son m.pType, pNode := son.iNode })
          | none => (false, m)
      else (false, m)

end lookup

/-- The lookup that is meant: the node that is followed counts, with the deepest type that is known,
or the exclusion where it is disabled. -/
def treeLookup : PathTree → List Element → Match → Bool × Match :=
  lookup (fun _ _ son => son)
    fun son type => if son.disabled then NODE_TYPE_EXCLUDE else known son.type type

section order

/-- The same nodes, with other orders of siblings. -/
inductive Reordered : PathTree → PathTree → Prop
  | intro {t t' : PathTree} {sons : List PathTree} (iNode : t.iNode = t'.iNode)
      (name : t.name = t'.name) (type : t.type = t'.type) (disabled : t.disabled = t'.disabled)
      (files : t.files = t'.files) (order : t.sons.Perm sons)
      (below : List.Forall₂ Reordered sons t'.sons) : Reordered t t'

theorem find?_perm {sons sons' : List PathTree} (h : sons.Perm sons')
    (hnames : (sons.map PathTree.name).Nodup) (name : Element) :
    (sons.find? fun s => s.name = name) = sons'.find? fun s => s.name = name := by
  induction h with
  | nil => rfl
  | cons s _ ih =>
    rw [List.map_cons, List.nodup_cons] at hnames
    rw [List.find?_cons, List.find?_cons, ih hnames.2]
  | swap s s' sons =>
    have hne : s'.name ≠ s.name := by
      rw [List.map_cons, List.nodup_cons] at hnames
      exact fun h => hnames.1 (by simp [h])
    by_cases hname : s.name = name
    · have hname' : s'.name ≠ name := hname ▸ hne
      simp [hname, hname']
    · simp [List.find?_cons, hname]
  | trans hperm _ ih ih' => exact (ih hnames).trans (ih' ((hperm.map _).nodup_iff.1 hnames))

theorem find?_reordered {sons sons' : List PathTree} (h : List.Forall₂ Reordered sons sons')
    (name : Element) :
    Option.Rel Reordered (sons.find? fun s => s.name = name)
      (sons'.find? fun s => s.name = name) := by
  induction h with
  | nil => exact .none
  | cons hson _ ih =>
    obtain ⟨-, hname, -, -, -, -, -⟩ := id hson
    rw [List.find?_cons, List.find?_cons, hname]
    split
    · exact .some hson
    · exact ih

theorem Reordered.son {t t' : PathTree} (h : Reordered t t') (hwf : t.WellFormed) (name : Element) :
    Option.Rel Reordered (t.son name) (t'.son name) := by
  obtain ⟨-, -, -, -, -, horder, hbelow⟩ := h
  obtain ⟨hnames, -, -⟩ := hwf
  rw [PathTree.son, PathTree.son, find?_perm horder hnames]
  exact find?_reordered hbelow name

theorem Reordered.follows {t t' : PathTree} (h : Reordered t t') (hwf : t.WellFormed)
    (ppElem : Element) (rest : List Element) :
    Option.Rel Reordered (t.follows ppElem rest) (t'.follows ppElem rest) := by
  rw [PathTree.follows, PathTree.follows]
  have hson := h.son hwf ppElem
  generalize t.son ppElem = son, t'.son ppElem = son' at hson
  cases hson with
  | some hson => exact .some hson
  | none =>
    split_ifs
    · exact h.son hwf wildCard
    · exact .none

/-- The order of siblings does not change what is looked up. -/
theorem treeLookup_reordered {t t' : PathTree} (h : Reordered t t') (hwf : t.WellFormed)
    (path : List Element) (m : Match) : treeLookup t path m = treeLookup t' path m := by
  induction path generalizing t t' m with
  | nil =>
    obtain ⟨hiNode, -, -, -, -, -, -⟩ := h
    rw [treeLookup, lookup, lookup, hiNode]
  | cons ppElem rest ih =>
    obtain ⟨hiNode, -, -, -, hfiles, -, -⟩ := id h
    rw [treeLookup, lookup, lookup]
    have hfollows := h.follows hwf ppElem rest
    generalize hson : t.follows ppElem rest = son, t'.follows ppElem rest = son' at hfollows
    cases hfollows with
    | some hbelow =>
      obtain ⟨-, -, hwfs⟩ := hwf
      have hrec := ih hbelow (hwfs _ (PathTree.follows_mem hson))
      rw [treeLookup] at hrec
      obtain ⟨hiNode, -, htype, hdisabled, -, -, -⟩ := hbelow
      simp only [hiNode, htype, hdisabled, hrec]
    | none =>
      have hwild := h.son hwf wildCard
      generalize t.son wildCard = wild, t'.son wildCard = wild' at hwild
      cases hwild with
      | none => simp only [hfiles, hiNode]
      | some hwild =>
        obtain ⟨hiNode', -, htype, hdisabled, -, -, -⟩ := hwild
        simp only [hfiles, hiNode, hiNode', htype, hdisabled]

end order

/-- The node that the code looked at last: the child of that name, or else the last sibling. -/
def visited (father : PathTree) (ppElem : Element) (son : PathTree) : PathTree :=
  if son.name = ppElem then son else father.sons.getLast?.getD son

/-- The lookup of the code. -/
def codeLookup : PathTree → List Element → Match → Bool × Match :=
  lookup visited fun son _ => son.type

/-! ### The trees in a blob -/

/-- The entries of a bucket from an index on. -/
def Chain (nodes : ℕ → ListEntry) : ℕ → List ListEntry → Prop
  | _, [] => False
  | iNode, entry :: entries => nodes iNode = entry ∧
      if entry.m_iNext = 0 then entries = [] else Chain nodes entry.m_iNext entries

/-- A file list has the entry of a name in the bucket of its hash. -/
def HashList.Holds (pList : HashList) (files : Element → Option ℕ) : Prop :=
  ∀ name, ∃ entries : List ListEntry,
    (if pList.buckets (pList.hashStr name) = 0 then entries = []
      else Chain pList.nodes (pList.buckets (pList.hashStr name)) entries) ∧
    (entries.find? fun entry => entry.m_dwData = name).map ListEntry.m_dwType = files name

/-- Siblings that are linked from an index on. -/
def Linked (pTree : ℕ → TreeNode) : ℕ → List PathTree → Prop
  | iNode, [] => iNode = 0
  | iNode, son :: sons => iNode ≠ 0 ∧ son.iNode = iNode ∧ Linked pTree (pTree iNode).m_iSibling sons

/-- The blob holds the tree. -/
inductive Represents (pTree : ℕ → TreeNode) : PathTree → Prop
  | intro {t : PathTree} (name : (pTree t.iNode).m_dwData = t.name)
      (type : (pTree t.iNode).m_dwType = t.type) (flags : (pTree t.iNode).disabled = t.disabled)
      (files : match (pTree t.iNode).m_dwFileList with
        | some pList => pList.Holds t.files
        | none => ∀ name, t.files name = none)
      (linked : Linked pTree (pTree t.iNode).m_iSon t.sons)
      (sons : ∀ s ∈ t.sons, Represents pTree s) : Represents pTree t

theorem Represents.data {pTree : ℕ → TreeNode} {t : PathTree} (h : Represents pTree t) :
    (pTree t.iNode).m_dwData = t.name := by
  cases h
  assumption

/-! ### The loops -/

theorem matchLoop_spec {pList : HashList} {pStr : Element} {entries : List ListEntry}
    {iNode fuel : ℕ} (h : Chain pList.nodes iNode entries) (hfuel : entries.length ≤ fuel) :
    pList.matchLoop pStr fuel iNode =
      some ((entries.find? fun entry => entry.m_dwData = pStr).map ListEntry.m_dwType) := by
  induction entries generalizing iNode fuel with
  | nil => exact h.elim
  | cons entry entries ih =>
    obtain ⟨fuel, rfl⟩ : ∃ k, fuel = k + 1 := ⟨fuel - 1, by rw [List.length_cons] at hfuel; omega⟩
    obtain ⟨hentry, hnext⟩ := h
    rw [List.length_cons] at hfuel
    rw [HashList.matchLoop, hentry]
    by_cases hdata : entry.m_dwData = pStr
    · rw [List.find?_cons_of_pos (by simpa using hdata)]
      simp only [hdata, if_true, Option.map_some]
    · rw [List.find?_cons_of_neg (by simpa using hdata)]
      simp only [hdata, if_false]
      split_ifs at hnext ⊢ with hend
      · rw [hnext]
        rfl
      · exact ih hnext (by omega)

/-- The file list of a node gives the type of a file. -/
theorem matchEntry_spec {pList : HashList} {files : Element → Option ℕ} (h : pList.Holds files)
    (pStr : Element) : ∃ N, ∀ fuel, N ≤ fuel → matchEntry fuel pList pStr = some (files pStr) := by
  obtain ⟨entries, hentries, hfind⟩ := h pStr
  refine ⟨entries.length, fun fuel hfuel => ?_⟩
  unfold matchEntry
  by_cases hbucket : pList.buckets (pList.hashStr pStr) = 0
  · rw [if_pos hbucket] at hentries
    simp only [hbucket, ne_eq, not_true, if_false]
    rw [← hfind, hentries]
    rfl
  · rw [if_neg hbucket] at hentries
    simp only [hbucket, ne_eq, not_false_eq_true, if_true]
    rw [matchLoop_spec hentries hfuel, hfind]

section children
variable {pTree : ℕ → TreeNode} {sons : List PathTree} {ppElem : Element} {fuel iNode : ℕ}

/-- A child of the name ends the loop. -/
theorem childrenLoop_found {son : PathTree} (hlinked : Linked pTree iNode sons)
    (hsons : ∀ s ∈ sons, Represents pTree s) (hfuel : sons.length < fuel)
    (hfind : (sons.find? fun s => s.name = ppElem) = some son) (wild : ℕ) (node : Option TreeNode) :
    ∃ wild', childrenLoop pTree ppElem fuel iNode wild node =
      some ⟨son.iNode, wild', some (pTree son.iNode)⟩ := by
  induction sons generalizing iNode fuel wild node with
  | nil => nomatch hfind
  | cons s sons ih =>
    obtain ⟨fuel, rfl⟩ : ∃ k, fuel = k + 1 := ⟨fuel - 1, by omega⟩
    obtain ⟨hne, rfl, hnext⟩ := hlinked
    have hname := (hsons s List.mem_cons_self).data
    rw [List.length_cons] at hfuel
    rw [childrenLoop, if_neg hne]
    simp only [hname]
    by_cases hsame : s.name = ppElem
    · rw [List.find?_cons_of_pos (by simpa using hsame)] at hfind
      obtain rfl := Option.some.inj hfind
      exact ⟨_, if_pos hsame⟩
    · rw [List.find?_cons_of_neg (by simpa using hsame)] at hfind
      rw [if_neg hsame]
      exact ih hnext (fun s' hs' => hsons s' (List.mem_cons_of_mem s hs')) (by omega) hfind _ _

/-- Without a child of the name the loop notes the wildcard, and ends at the last sibling. -/
theorem childrenLoop_missing (hlinked : Linked pTree iNode sons)
    (hsons : ∀ s ∈ sons, Represents pTree s) (hfuel : sons.length < fuel)
    (hnames : (sons.map PathTree.name).Nodup)
    (hfind : (sons.find? fun s => s.name = ppElem) = none) (wild : ℕ) (node : Option TreeNode) :
    childrenLoop pTree ppElem fuel iNode wild node =
      some ⟨0, ((sons.find? fun s => s.name = wildCard).map PathTree.iNode).getD wild,
        (sons.getLast?.map fun s => pTree s.iNode).or node⟩ := by
  induction sons generalizing iNode fuel wild node with
  | nil =>
    obtain ⟨fuel, rfl⟩ : ∃ k, fuel = k + 1 := ⟨fuel - 1, by omega⟩
    have hzero : iNode = 0 := hlinked
    rw [childrenLoop, if_pos hzero]
    rfl
  | cons s sons ih =>
    obtain ⟨fuel, rfl⟩ : ∃ k, fuel = k + 1 := ⟨fuel - 1, by omega⟩
    obtain ⟨hne, rfl, hnext⟩ := hlinked
    have hname := (hsons s List.mem_cons_self).data
    rw [List.map_cons, List.nodup_cons] at hnames
    rw [List.length_cons] at hfuel
    have hsame : s.name ≠ ppElem := by
      intro hsame
      rw [List.find?_cons_of_pos (by simpa using hsame)] at hfind
      nomatch hfind
    rw [List.find?_cons_of_neg (by simpa using hsame)] at hfind
    rw [childrenLoop, if_neg hne]
    simp only [hname, if_neg hsame]
    rw [ih hnext (fun s' hs' => hsons s' (List.mem_cons_of_mem s hs')) (by omega) hnames.2 hfind]
    congr 2
    · by_cases hwild : s.name = wildCard
      · -- the names are distinct, and no later sibling is a wildcard
        have hnone : (sons.find? fun s => s.name = wildCard) = none := by
          rw [List.find?_eq_none]
          intro s' hs'
          have hother : s'.name ≠ s.name := fun h => hnames.1 (h ▸ List.mem_map_of_mem hs')
          simpa [← hwild] using hother
        rw [hnone, List.find?_cons_of_pos (by simpa using hwild), if_pos hwild]
        rfl
      · rw [List.find?_cons_of_neg (by simpa using hwild), if_neg hwild]
    · cases sons with
      | nil => rfl
      | cons s' sons =>
        rw [List.getLast?_cons_cons]
        cases hlast : (s' :: sons).getLast? with
        | none => simp at hlast
        | some last => rfl

end children

theorem Linked.ne_zero {pTree : ℕ → TreeNode} {sons : List PathTree} {iNode : ℕ} {son : PathTree}
    (h : Linked pTree iNode sons) (hmem : son ∈ sons) : son.iNode ≠ 0 := by
  induction sons generalizing iNode with
  | nil => nomatch hmem
  | cons s sons ih =>
    obtain ⟨hne, rfl, hnext⟩ := h
    obtain rfl | hmem := List.mem_cons.1 hmem
    · exact hne
    · exact ih hnext hmem

/-! ### The code follows the tree with the node it visited last -/

section follow
variable {pTree : ℕ → TreeNode} {fuel iFather : ℕ} {ppElem : Element} {rest : List Element}
  {children : Children} {m : Match}

/-- A child is followed with the type and the flags of the node at hand. -/
theorem matchPrefix_follow {son node : PathTree}
    (hloop : childrenLoop pTree ppElem fuel (pTree iFather).m_iSon 0 none = some children)
    (hson : (if children.iNode = 0 ∧ children.iWildCardNode ≠ 0 ∧ rest ≠ []
      then children.iWildCardNode else children.iNode) = son.iNode)
    (hne : son.iNode ≠ 0) (hnode : children.node = some (pTree node.iNode))
    (hrep : Represents pTree node)
    (hbelow : ∀ m, matchPrefix pTree fuel son.iNode rest m = some (codeLookup son rest m)) :
    matchPrefix pTree fuel iFather (ppElem :: rest) m = some
      (let m := { m with pLevel := m.pLevel + 1, pType := known node.type m.pType }
        if node.disabled then (true, { m with pType := NODE_TYPE_EXCLUDE, pNode := son.iNode })
        else leave (codeLookup son rest m)) := by
  obtain ⟨-, htype, hflags, -, -, -⟩ := hrep
  have hm : (if ¬ node.type = NODE_TYPE_UNKNOWN
      then (⟨m.pNode, m.pLevel + 1, node.type, m.pfExactMatch⟩ : Match)
      else ⟨m.pNode, m.pLevel + 1, m.pType, m.pfExactMatch⟩) =
      ⟨m.pNode, m.pLevel + 1, known node.type m.pType, m.pfExactMatch⟩ := by
    by_cases hunknown : node.type = NODE_TYPE_UNKNOWN <;> simp [known, hunknown]
  rw [matchPrefix]
  simp only [hloop, Option.bind_eq_bind, Option.bind_some, hson, hne, ne_eq, not_false_eq_true,
    if_true, hnode, htype, hflags, hbelow, hm]
  cases node.disabled with
  | true => rfl
  | false =>
    generalize codeLookup son rest
      ⟨m.pNode, m.pLevel + 1, known node.type m.pType, m.pfExactMatch⟩ = found
    obtain ⟨fRet, m'⟩ := found
    cases fRet <;> rfl

end follow

/-- The file list of a represented node. -/
theorem Represents.file {pTree : ℕ → TreeNode} {t : PathTree} (h : Represents pTree t)
    (ppElem : Element) : ∃ N, ∀ fuel, N ≤ fuel →
      ((pTree t.iNode).m_dwFileList.map fun pList => matchEntry fuel pList ppElem).getD
        (some none) = some (t.files ppElem) := by
  obtain ⟨-, -, -, hfiles, -, -⟩ := h
  cases hlist : (pTree t.iNode).m_dwFileList with
  | none =>
    rw [hlist] at hfiles
    exact ⟨0, fun fuel _ => congrArg some (hfiles ppElem).symm⟩
  | some pList =>
    rw [hlist] at hfiles
    exact matchEntry_spec hfiles ppElem

/-- The last element without a child of its name. -/
theorem matchPrefix_last {pTree : ℕ → TreeNode} {t : PathTree} {ppElem : Element}
    (hrep : Represents pTree t) (hnames : (t.sons.map PathTree.name).Nodup)
    (hson : t.son ppElem = none) : ∃ N, ∀ fuel, N ≤ fuel → ∀ m,
      matchPrefix pTree fuel t.iNode [ppElem] m = some (codeLookup t [ppElem] m) := by
  obtain ⟨N, hN⟩ := hrep.file ppElem
  obtain ⟨-, -, -, -, hlinked, hsons⟩ := id hrep
  refine ⟨max N (t.sons.length + 1), fun fuel hfuel m => ?_⟩
  have hfuel' : t.sons.length < fuel := by omega
  have hloop := childrenLoop_missing hlinked hsons hfuel' hnames hson 0 none
  rw [matchPrefix, codeLookup, lookup, PathTree.follows, hson]
  simp only [hloop, hN fuel (by omega), Option.bind_eq_bind, Option.bind_some, ne_eq, not_true,
    and_false, if_false, if_true, Option.none_or]
  cases hfile : t.files ppElem with
  | some type => simp
  | none =>
    cases hwild : t.son wildCard with
    | none =>
      rw [PathTree.son] at hwild
      simp [hwild]
    | some wild =>
      obtain ⟨hmem, hname⟩ := exists_son_mem hwild
      have hne := hlinked.ne_zero hmem
      obtain ⟨-, htype, -, -, -, -⟩ := hsons wild hmem
      rw [PathTree.son] at hwild
      simp [hwild, hne, htype]

theorem eq_of_leave_eq_true {found : Bool × Match} {m : Match} (h : leave found = (true, m)) :
    found = (true, m) := by
  obtain ⟨fRet, m'⟩ := found
  cases fRet with
  | true => exact h
  | false => nomatch h

theorem leave_injective : Function.Injective leave := by
  rintro ⟨fRet, m⟩ ⟨fRet', m'⟩ h
  cases fRet <;> cases fRet'
  · obtain ⟨pNode, pLevel, pType, pfExactMatch⟩ := m
    obtain ⟨pNode', pLevel', pType', pfExactMatch'⟩ := m'
    have hm := (Prod.mk.inj h).2
    simpa using hm
  · nomatch h
  · nomatch h
  · exact h

/-- The result of the code, from fuel for every loop on. -/
theorem matchPrefix_eq {pTree : ℕ → TreeNode} {t : PathTree} (hrep : Represents pTree t)
    (hwf : t.WellFormed) (path : List Element) :
    ∃ N, ∀ fuel, N ≤ fuel → ∀ m,
      matchPrefix pTree fuel t.iNode path m = some (codeLookup t path m) := by
  induction path generalizing t with
  | nil => exact ⟨0, fun fuel _ m => rfl⟩
  | cons ppElem rest ih =>
    obtain ⟨-, -, -, hfiles, hlinked, hsons⟩ := id hrep
    obtain ⟨hnames, -, hwfs⟩ := id hwf
    cases hson : t.son ppElem with
    | some son =>
      obtain ⟨hmem, hname⟩ := exists_son_mem hson
      obtain ⟨N, hN⟩ := ih (hsons son hmem) (hwfs son hmem)
      refine ⟨max N (t.sons.length + 1), fun fuel hfuel m => ?_⟩
      have hfuel' : t.sons.length < fuel := by omega
      obtain ⟨wild, hloop⟩ := childrenLoop_found hlinked hsons hfuel' hson 0 none
      have hne := hlinked.ne_zero hmem
      have hchosen :
          (if son.iNode = 0 ∧ wild ≠ 0 ∧ rest ≠ [] then wild else son.iNode) = son.iNode :=
        if_neg fun h => hne h.1
      rw [matchPrefix_follow hloop hchosen hne rfl (hsons son hmem) (hN fuel (by omega))]
      rw [codeLookup, lookup, PathTree.follows, hson]
      simp only [Option.some_or, visited, hname, if_true]
    | none =>
      by_cases hrest : rest = []
      · rw [hrest]
        exact matchPrefix_last hrep hnames hson
      cases hwild : t.son wildCard with
      | some wild =>
        obtain ⟨hmem, hname⟩ := exists_son_mem hwild
        have hne := hlinked.ne_zero hmem
        obtain ⟨last, hlast⟩ : ∃ last, t.sons.getLast? = some last :=
          ⟨_, List.getLast?_eq_some_getLast (List.ne_nil_of_mem hmem)⟩
        have hvisited : visited t ppElem wild = last := by
          have hother : wild.name ≠ ppElem := by
            intro h
            rw [PathTree.son, List.find?_eq_none] at hson
            exact hson wild hmem (by simpa using h)
          rw [visited, if_neg hother, hlast]
          rfl
        obtain ⟨N, hN⟩ := ih (hsons wild hmem) (hwfs wild hmem)
        refine ⟨max N (t.sons.length + 1), fun fuel hfuel m => ?_⟩
        have hfuel' : t.sons.length < fuel := by omega
        have hloop := childrenLoop_missing hlinked hsons hfuel' hnames hson 0 none
        rw [PathTree.son] at hwild
        rw [hwild, hlast] at hloop
        rw [matchPrefix_follow hloop (if_pos ⟨rfl, hne, hrest⟩) hne rfl
          (hsons last (List.mem_of_getLast? hlast)) (hN fuel (by omega))]
        rw [codeLookup, lookup, PathTree.follows, hson, if_pos hrest, PathTree.son, hwild]
        simp only [Option.none_or, hvisited]
      | none =>
        refine ⟨t.sons.length + 1, fun fuel hfuel m => ?_⟩
        have hloop := childrenLoop_missing hlinked hsons hfuel hnames hson 0 none
        rw [PathTree.son] at hwild
        rw [hwild] at hloop
        rw [matchPrefix, codeLookup, lookup, PathTree.follows, hson, if_pos hrest, PathTree.son,
          hwild]
        simp only [hloop, Option.bind_eq_bind, Option.bind_some, Option.map_none, Option.getD_none,
          ne_eq, not_true, false_and, and_false, if_false, hrest, Option.none_or]
        rw [Int.add_sub_cancel]

/-! ### When the code follows the tree -/

/-- Only the file list of a node gives the node itself for a path that goes on below it. -/
theorem lookup_cases (read : PathTree → Element → PathTree → PathTree) (last : PathTree → ℕ → ℕ)
    {t : PathTree} {path : List Element} {m m' : Match} (h : lookup read last t path m = (true, m'))
    (hpath : path ≠ []) :
    (∃ s ∈ t.sons, ∃ i : ℕ, m'.pNode = i ∧ PathTree.Occurs i s) ∨
      ∃ name type, path = [name] ∧ t.son name = none ∧ t.files name = some type ∧
        m' = { m with pType := type, pfExactMatch := true, pNode := t.iNode } := by
  induction path generalizing t m with
  | nil => exact absurd rfl hpath
  | cons ppElem rest ih =>
    rw [lookup] at h
    cases hfollows : t.follows ppElem rest with
    | some son =>
      left
      have hmem : son ∈ t.sons := PathTree.follows_mem hfollows
      simp only [hfollows] at h
      split_ifs at h with hdisabled
      · obtain rfl := (Prod.mk.inj h).2
        exact ⟨son, hmem, son.iNode, rfl, .root son⟩
      · have hbelow := eq_of_leave_eq_true h
        by_cases hrest : rest = []
        · subst hrest
          obtain rfl := (Prod.mk.inj hbelow).2
          exact ⟨son, hmem, son.iNode, rfl, .root son⟩
        · obtain ⟨s, hs, i, hi, hocc⟩ | ⟨_, _, -, -, -, rfl⟩ := ih hbelow hrest
          · exact ⟨son, hmem, i, hi, .son hs hocc⟩
          · exact ⟨son, hmem, son.iNode, rfl, .root son⟩
    | none =>
      simp only [hfollows] at h
      split_ifs at h with hrest
      swap
      · nomatch h
      subst hrest
      cases hfile : t.files ppElem with
      | some type =>
        simp only [hfile] at h
        right
        rw [PathTree.follows, Option.or_eq_none_iff] at hfollows
        exact ⟨ppElem, type, rfl, hfollows.1, hfile, (Prod.mk.inj h).2.symm⟩
      | none =>
        left
        simp only [hfile] at h
        cases hwild : t.son wildCard with
        | none => simp [hwild] at h
        | some wild =>
          simp only [hwild] at h
          obtain rfl := (Prod.mk.inj h).2
          exact ⟨wild, (exists_son_mem hwild).1, wild.iNode, rfl, .root wild⟩

/-- The rest of the path is a name that the file list of the node excludes. -/
def ExcludedFile (son : PathTree) (rest : List Element) : Prop :=
  ∃ name, rest = [name] ∧ son.son name = none ∧ son.files name = some NODE_TYPE_EXCLUDE

/-- The code and the tree agree with the types `type` and `type'` so far: where a wildcard is
followed, the last sibling is enabled exactly when the wildcard is, and the types that are left at
the end are the same. The flags only differ unseen in a lookup that starts with an exact match,
where the file list of the wildcard excludes the last element. -/
def Agree (exact : Bool) : PathTree → List Element → ℕ → ℕ → Prop
  | _, [], type, type' => type = type'
  | father, ppElem :: rest, type, type' =>
    match father.follows ppElem rest with
    | some son =>
      let node := visited father ppElem son
      if node.disabled = son.disabled then
        son.disabled = false → Agree exact son rest (known node.type type) (known son.type type')
      else exact = true ∧ ExcludedFile son rest
    | none =>
      if rest = [] then
        match father.files ppElem, father.son wildCard with
        | some _, _ => True
        | none, some son =>
          son.type = if son.disabled then NODE_TYPE_EXCLUDE else known son.type type'
        | none, none => type = type'
      else type = type'

/-- An exclusion at a node as the result of a lookup that goes on below it. -/
theorem excluded_eq_below_iff (read : PathTree → Element → PathTree → PathTree)
    (last : PathTree → ℕ → ℕ) {son : PathTree} {rest : List Element} (m : Match) (type : ℕ)
    (hwf : son.WellFormed) (hrest : rest ≠ []) :
    (true, { m with pType := NODE_TYPE_EXCLUDE, pNode := son.iNode }) =
        leave (lookup read last son rest { m with pType := type }) ↔
      m.pfExactMatch = true ∧ ExcludedFile son rest := by
  constructor
  · intro h
    have hbelow := eq_of_leave_eq_true h.symm
    obtain ⟨s, hs, i, hi, hocc⟩ | ⟨name, type', rfl, hson, hfile, hm⟩ :=
      lookup_cases read last hbelow hrest
    · obtain ⟨-, hacyclic, -⟩ := hwf
      have hnode : (son.iNode : ℤ) = i := hi
      obtain rfl : son.iNode = i := by exact_mod_cast hnode
      exact absurd hocc (hacyclic s hs)
    · simp only [Match.mk.injEq, true_and] at hm
      obtain ⟨rfl, hexact⟩ := hm
      exact ⟨hexact, name, rfl, hson, hfile⟩
  · rintro ⟨hexact, name, rfl, hson, hfile⟩
    rw [lookup, PathTree.follows, hson]
    simp [hfile, leave, hexact]

/-- A node that is not the child that is followed belongs to a wildcard before the last element. -/
theorem follows_of_visited_ne {t son : PathTree} {ppElem : Element} {rest : List Element}
    (h : t.follows ppElem rest = some son) (hne : visited t ppElem son ≠ son) : rest ≠ [] := by
  intro hrest
  rw [PathTree.follows, if_neg (by simpa using hrest), Option.or_none] at h
  exact hne (if_pos (exists_son_mem h).2)

/-- The code gives the result of the tree exactly when they agree. -/
theorem codeLookup_eq_iff {t : PathTree} (hwf : t.WellFormed) (path : List Element) (m : Match)
    (type type' : ℕ) :
    codeLookup t path { m with pType := type } = treeLookup t path { m with pType := type' } ↔
      Agree m.pfExactMatch t path type type' := by
  induction path generalizing t m type type' with
  | nil => simp [codeLookup, treeLookup, lookup, Agree]
  | cons ppElem rest ih =>
    rw [codeLookup, treeLookup, lookup, lookup, Agree]
    cases hfollows : t.follows ppElem rest with
    | some son =>
      obtain ⟨-, -, hsons⟩ := id hwf
      have hson := hsons son (PathTree.follows_mem hfollows)
      simp only
      by_cases hflags : (visited t ppElem son).disabled = son.disabled
      · simp only [hflags, if_true]
        cases son.disabled with
        | true => simp
        | false =>
          simp only [Bool.false_eq_true, if_false, true_imp_iff]
          exact leave_injective.eq_iff.trans (ih hson { m with pLevel := m.pLevel + 1 } _ _)
      · have hrest : rest ≠ [] := follows_of_visited_ne hfollows (fun h => hflags (by rw [h]))
        rw [if_neg hflags]
        cases hcode : (visited t ppElem son).disabled with
        | true =>
          have hdisabled : son.disabled = false := by simpa [hcode] using hflags
          rw [if_pos rfl, hdisabled, if_neg Bool.false_ne_true]
          exact excluded_eq_below_iff _ _ { m with pLevel := m.pLevel + 1 } _ hson hrest
        | false =>
          have hdisabled : son.disabled = true := by simpa [hcode] using hflags
          rw [if_neg Bool.false_ne_true, hdisabled, if_pos rfl]
          exact eq_comm.trans
            (excluded_eq_below_iff _ _ { m with pLevel := m.pLevel + 1 } _ hson hrest)
    | none =>
      by_cases hrest : rest = []
      · simp only [if_pos hrest]
        cases t.files ppElem with
        | some type => simp
        | none =>
          cases t.son wildCard with
          | some wild => simp
          | none => simp
      · simp [hrest]

/-- A lookup gives the result of the tree, for any order of siblings, exactly when the code and the
tree agree. -/
theorem matchPrefix_eq_treeLookup_iff {pTree : ℕ → TreeNode} {t : PathTree}
    (hrep : Represents pTree t) (hwf : t.WellFormed) (path : List Element) (m : Match) :
    (∃ N, ∀ fuel, N ≤ fuel → matchPrefix pTree fuel t.iNode path m = some (treeLookup t path m)) ↔
      Agree m.pfExactMatch t path m.pType m.pType := by
  obtain ⟨N, hcode⟩ := matchPrefix_eq hrep hwf path
  rw [← codeLookup_eq_iff hwf path m]
  constructor
  · rintro ⟨N', htree⟩
    have hboth := (hcode (max N N') (by omega) m).symm.trans (htree (max N N') (by omega))
    exact Option.some.inj hboth
  · intro heq
    exact ⟨N, fun fuel hfuel => (hcode fuel hfuel m).trans (congrArg some heq)⟩

/-- Under the root an included wildcard in front of an excluded B, and C under the wildcard. -/
def wildcardTree : PathTree :=
  .node 0 [] NODE_TYPE_UNKNOWN false (fun _ => none)
    [.node 2 wildCard NODE_TYPE_INCLUDE false (fun _ => none)
      [.node 4 [67] NODE_TYPE_UNKNOWN false (fun _ => none) []],
    .node 3 [66] NODE_TYPE_EXCLUDE false (fun _ => none) []]

def wildcardBlob : ℕ → TreeNode
  | 0 => ⟨2, 0, [], none, NODE_TYPE_UNKNOWN, 0⟩
  | 2 => ⟨4, 3, wildCard, none, NODE_TYPE_INCLUDE, 0⟩
  | 3 => ⟨0, 0, [66], none, NODE_TYPE_EXCLUDE, 0⟩
  | _ => ⟨0, 0, [67], none, NODE_TYPE_UNKNOWN, 0⟩

theorem wildcardBlob_represents : Represents wildcardBlob wildcardTree := by
  have leaf (name : Element) (iNode type : ℕ)
      (h : wildcardBlob iNode = ⟨0, 0, name, none, type, 0⟩) :
      Represents wildcardBlob (.node iNode name type false (fun _ => none) []) := by
    constructor <;> simp [PathTree.iNode, PathTree.name, PathTree.type, PathTree.disabled,
      PathTree.files, PathTree.sons, TreeNode.disabled, Linked, h]
  have hC := leaf [67] 4 NODE_TYPE_UNKNOWN rfl
  have hB := leaf [66] 3 NODE_TYPE_EXCLUDE rfl
  have hwild : Represents wildcardBlob (.node 2 wildCard NODE_TYPE_INCLUDE false (fun _ => none)
      [.node 4 [67] NODE_TYPE_UNKNOWN false (fun _ => none) []]) := by
    constructor
    case sons => simpa [PathTree.sons] using hC
    all_goals simp [PathTree.iNode, PathTree.name, PathTree.type, PathTree.disabled,
      PathTree.files, PathTree.sons, TreeNode.disabled, Linked, wildcardBlob]
  constructor
  case sons => simpa [wildcardTree, PathTree.sons] using ⟨hwild, hB⟩
  all_goals simp [wildcardTree, PathTree.iNode, PathTree.name, PathTree.type, PathTree.disabled,
    PathTree.files, PathTree.sons, TreeNode.disabled, Linked, wildcardBlob]

theorem wildcardTree_wellFormed : wildcardTree.WellFormed := by
  have leaf (iNode type : ℕ) (name : Element) :
      (PathTree.node iNode name type false (fun _ => none) []).WellFormed := by
    constructor <;> simp [PathTree.sons]
  have hC := leaf 4 NODE_TYPE_UNKNOWN [67]
  have hB := leaf 3 NODE_TYPE_EXCLUDE [66]
  have hwild : (PathTree.node 2 wildCard NODE_TYPE_INCLUDE false (fun _ => none)
      [.node 4 [67] NODE_TYPE_UNKNOWN false (fun _ => none) []]).WellFormed := by
    constructor
    case sons => simpa [PathTree.sons] using hC
    all_goals simp [PathTree.iNode, PathTree.sons, PathTree.occurs_node]
  constructor
  case sons => simpa [wildcardTree, PathTree.sons] using ⟨hwild, hB⟩
  all_goals simp [wildcardTree, wildCard, PathTree.iNode, PathTree.name, PathTree.sons,
    PathTree.occurs_node]

/-- The wildcard is followed with the type of the sibling behind it. -/
theorem matchPrefix_takes_last_sibling :
    ¬ ∃ N, ∀ fuel, N ≤ fuel → matchPrefix wildcardBlob fuel 0 [[65], [67]] ⟨-1, 0, 0, false⟩ =
      some (treeLookup wildcardTree [[65], [67]] ⟨-1, 0, 0, false⟩) := by
  rintro ⟨N, h⟩
  obtain ⟨N', hcode⟩ :=
    matchPrefix_eq wildcardBlob_represents wildcardTree_wellFormed [[65], [67]]
  have hboth := (hcode (max N N') (by omega) _).symm.trans (h (max N N') (by omega))
  exact absurd (Option.some.inj hboth) (by decide)

theorem matchPrefix_eq_treeLookup_iff_at_sibling :
    ∃ N, ∀ fuel, N ≤ fuel → matchPrefix wildcardBlob fuel 0 [[66]] ⟨-1, 0, 0, false⟩ =
      some (treeLookup wildcardTree [[66]] ⟨-1, 0, 0, false⟩) :=
  (matchPrefix_eq_treeLookup_iff wildcardBlob_represents wildcardTree_wellFormed [[66]]
    ⟨-1, 0, 0, false⟩).2 fun _ => rfl

end NtAdmin.Sr
