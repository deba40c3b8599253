import Mathlib.Data.List.Basic
import Mathlib.Data.List.Infix
import NtAdmin.Drizzle.Server.Session

/-! The paths of a request, of `ServerRequest::GeneratePhysicalPaths`, and the directories that it
confines the destination to. -/
namespace NtAdmin.Drizzle.Server

abbrev Text := List Char

def separator : Char := '\\'

/-- Whether `_strnicmp` is 0, for strings without a NUL and the C locale. -/
def strnicmpEqual (a b : Text) (n : ℕ) : Bool :=
  (a.take n).map Char.toLower == (b.take n).map Char.toLower

def requestFileName : Text := "requestfile.bin".toList
def responseFileName : Text := "responsefile.bin".toList
def stateFileName : Text := "statefile".toList
def requestsDirName : Text := "Requests".toList
def repliesDirName : Text := "Replies".toList

/-- The part of `VDirConfig` that the paths depend on. -/
structure VDirConfig where
  physicalPath : Text
  connectionsDir : Text
  allowOverwrites : Bool
  notificationType : NotificationType

namespace VDirConfig

def sessionDir (c : VDirConfig) : Text := c.physicalPath ++ [separator] ++ c.connectionsDir
def requestsDir (c : VDirConfig) : Text := c.sessionDir ++ [separator] ++ requestsDirName
def repliesDir (c : VDirConfig) : Text := c.sessionDir ++ [separator] ++ repliesDirName

end VDirConfig

/-- What `GetFullPathName` makes of a path: all of it up to the file part, and the file part. -/
structure FullPathName where
  directory : Text
  filePart : Option Text

/-- What `GetFileAttributes` says. -/
inductive FileAttributes
  | invalid (error : ℕ)
  | directory
  | file

inductive PathError
  | fullPathName (error : ℕ)
  | toDirectory
  | attributes (error : ℕ)
  | overwrite
  | notBelowRoot
  | endsWithSlash
  | endsWithColon
  | insideSessionDir
  deriving DecidableEq

def PathError.hresult : PathError → ℕ
  | .fullPathName error => hresultFromWin32 error
  | .toDirectory => eInvalidArg
  | .attributes error => hresultFromWin32 error
  | .overwrite => hresultFromWin32 errorAccessDenied
  | .notBelowRoot => eInvalidArg
  | .endsWithSlash => eInvalidArg
  | .endsWithColon => eInvalidArg
  | .insideSessionDir => hresultFromWin32 errorAccessDenied

structure PhysicalPaths where
  destinationFile : Text
  destinationDirectory : Text
  requestDirectory : Text
  requestFile : Text
  stateFile : Text
  responseDirectory : Text
  responseFile : Text

def checkAttributes (config : VDirConfig) : FileAttributes → Except PathError Unit
  | .invalid error =>
    if error ≠ errorFileNotFound ∧ error ≠ errorAccessDenied then throw (.attributes error)
    else pure ()
  | .directory => throw .toDirectory
  | .file =>
    if config.allowOverwrites = false ∧ config.notificationType = .none then throw .overwrite
    else pure ()

/-- The physical path is below the virtual directory root. -/
def checkBelowRoot (config : VDirConfig) (destinationDirectory : Text) : Except PathError Unit :=
  if strnicmpEqual config.physicalPath destinationDirectory config.physicalPath.length then pure ()
  else throw .notBelowRoot

/-- The physical path does not end with a slash or a colon. -/
def checkPathEnd (pathTranslated : Text) : Except PathError Unit :=
  if pathTranslated.getLast? = some separator ∨ pathTranslated.getLast? = some '/' then
    throw .endsWithSlash
  else if pathTranslated.getLast? = some ':' then throw .endsWithColon
  else pure ()

/-- The physical path is not inside the cache directory. -/
def checkOutsideSessionDir (config : VDirConfig) (destinationDirectory : Text) :
    Except PathError Unit :=
  if strnicmpEqual config.sessionDir destinationDirectory config.sessionDir.length then
    throw .insideSessionDir
  else pure ()

def generatePhysicalPaths (config : VDirConfig) (sessionIdString pathTranslated : Text)
    (fullPathName : Except ℕ FullPathName) (attributes : FileAttributes) :
    Except PathError PhysicalPaths :=
  match fullPathName with
  | .error error => throw (.fullPathName error)
  | .ok ⟨_, none⟩ => throw .toDirectory
  | .ok ⟨destinationDirectory, some filePart⟩ => do
    checkAttributes config attributes
    checkBelowRoot config destinationDirectory
    checkPathEnd pathTranslated
    let requestDirectory := config.requestsDir ++ [separator] ++ sessionIdString
    let responseDirectory := config.repliesDir ++ [separator] ++ sessionIdString
    checkOutsideSessionDir config destinationDirectory
    pure
      { destinationFile := destinationDirectory ++ filePart
        destinationDirectory
        requestDirectory
        requestFile := requestDirectory ++ [separator] ++ requestFileName
        stateFile := requestDirectory ++ [separator] ++ stateFileName
        responseDirectory
        responseFile := responseDirectory ++ [separator] ++ responseFileName }

def IsName (n : Text) : Prop := n ≠ [] ∧ separator ∉ n

instance (n : Text) : Decidable (IsName n) := inferInstanceAs (Decidable (_ ∧ _))

/-- A directory, by the names on the way to it. -/
structure Directory where
  unc : Bool
  names : List Text
  isName : ∀ n ∈ names, IsName n
  nonempty : names ≠ []

def uncPrefix (unc : Bool) : Text := if unc then [separator, separator] else []

def joinNames (names : List Text) : Text := names.flatMap (· ++ [separator])

namespace Directory

/-- The canonical path of a directory, with a separator at its end. -/
def text (d : Directory) : Text := uncPrefix d.unc ++ joinNames d.names

/-- A path of a directory, with a separator at its end or without. -/
def path (d : Directory) (trailing : Bool) : Text := if trailing then d.text else d.text.dropLast

def lower (d : Directory) : List Text := d.names.map (List.map Char.toLower)

/-- `e` is `d` or a descendant of it. -/
def Contains (d e : Directory) : Prop := d.unc = e.unc ∧ d.lower <+: e.lower

instance (d e : Directory) : Decidable (d.Contains e) := inferInstanceAs (Decidable (_ ∧ _))

/-- `e` is, or is below, a sibling of `d` whose name begins with the name of `d`. -/
def Sibling (d e : Directory) : Prop :=
  d.unc = e.unc ∧ ∃ front n m rest, d.lower = front ++ [n] ∧ e.lower = front ++ m :: rest ∧
    n <+: m ∧ n ≠ m

/-- A directory below `d`. -/
def append (d e : Directory) : Directory where
  unc := d.unc
  names := d.names ++ e.names
  isName n hn := (List.mem_append.mp hn).elim (d.isName n) (e.isName n)
  nonempty h := d.nonempty (List.append_eq_nil_iff.mp h).1

end Directory

section text
variable {n m u v : Text} {a b : List Text} {d e : Directory}

@[simp] theorem joinNames_nil : joinNames [] = [] := rfl

@[simp] theorem joinNames_cons (n : Text) (a : List Text) :
    joinNames (n :: a) = n ++ separator :: joinNames a := by
  rw [joinNames, List.flatMap_cons, List.append_assoc]
  rfl

@[simp] theorem joinNames_append (a b : List Text) :
    joinNames (a ++ b) = joinNames a ++ joinNames b := List.flatMap_append

/-- A name ends where the first separator is. -/
theorem name_prefix_iff (hn : separator ∉ n) (hm : separator ∉ m) :
    n ++ separator :: u <+: m ++ separator :: v ↔ n = m ∧ u <+: v := by
  induction n generalizing m with
  | nil =>
    cases m with
    | nil => simp
    | cons c m => simp [Ne.symm (List.ne_of_not_mem_cons hm).symm]
  | cons c n ih =>
    obtain ⟨hc, hn⟩ := List.ne_and_not_mem_of_not_mem_cons hn
    cases m with
    | nil => simp [hc.symm]
    | cons c' m =>
      have hrest := ih hn (List.not_mem_of_not_mem_cons hm)
      rw [List.cons_append, List.cons_append, List.cons_prefix_cons, hrest, List.cons.injEq,
        and_assoc]

theorem name_prefix (hn : separator ∉ n) : n <+: m ++ separator :: v ↔ n <+: m := by
  constructor
  · intro h
    have hm : m <+: m ++ separator :: v := List.prefix_append m _
    refine List.prefix_of_prefix_length_le h hm ?_
    by_contra hlong
    have hsep : m ++ [separator] <+: m ++ separator :: v :=
      (List.prefix_append_right_inj m).mpr ⟨v, rfl⟩
    have hin : m ++ [separator] <+: n := by
      refine List.prefix_of_prefix_length_le hsep h ?_
      rw [List.length_append, List.length_singleton]
      omega
    exact hn (hin.subset (List.mem_append_right m (List.mem_singleton_self _)))
  · exact fun h => h.trans (List.prefix_append m _)

theorem joinNames_prefix_iff (ha : ∀ n ∈ a, IsName n) (hb : ∀ n ∈ b, IsName n) :
    joinNames a <+: joinNames b ↔ a <+: b := by
  induction a generalizing b with
  | nil => simp
  | cons n a ih =>
    cases b with
    | nil => simp
    | cons m b =>
      have hn := ha n List.mem_cons_self
      have hm := hb m List.mem_cons_self
      rw [joinNames_cons, joinNames_cons, name_prefix_iff hn.2 hm.2,
        ih (fun x hx => ha x (List.mem_cons_of_mem n hx)) fun x hx => hb x (List.mem_cons_of_mem m hx),
        List.cons_prefix_cons]

/-- Without a separator at its end, a path begins the paths of siblings too. -/
theorem joinNames_name_prefix_iff (ha : ∀ n ∈ a, IsName n) (hn : IsName n)
    (hb : ∀ n ∈ b, IsName n) :
    joinNames a ++ n <+: joinNames b ↔
      a ++ [n] <+: b ∨ ∃ m rest, b = a ++ m :: rest ∧ n <+: m ∧ n ≠ m := by
  induction a generalizing b with
  | nil =>
    cases b with
    | nil => simp [hn.1]
    | cons m b =>
      rw [joinNames_nil, List.nil_append, joinNames_cons, name_prefix hn.2, List.nil_append]
      constructor
      · intro h
        by_cases heq : n = m
        · exact Or.inl (heq ▸ (List.cons_prefix_cons.mpr ⟨rfl, List.nil_prefix⟩))
        · exact Or.inr ⟨m, b, rfl, h, heq⟩
      · rintro (h | ⟨m', rest, h, hpre, -⟩)
        · exact (List.cons_prefix_cons.mp h).1 ▸ List.prefix_refl n
        · exact (List.cons.inj h).1 ▸ hpre
  | cons x a ih =>
    have hx := ha x List.mem_cons_self
    cases b with
    | nil => simp
    | cons m b =>
      have hm := hb m List.mem_cons_self
      have hrest := ih (fun y hy => ha y (List.mem_cons_of_mem x hy)) fun y hy =>
        hb y (List.mem_cons_of_mem m hy)
      rw [joinNames_cons, joinNames_cons, List.append_assoc, List.cons_append,
        name_prefix_iff hx.2 hm.2, hrest, List.cons_append, List.cons_prefix_cons]
      constructor
      · rintro ⟨rfl, h | ⟨m', rest, rfl, hpre⟩⟩
        · exact Or.inl ⟨rfl, h⟩
        · exact Or.inr ⟨m', rest, rfl, hpre⟩
      · rintro (⟨rfl, h⟩ | ⟨m', rest, h, hpre⟩)
        · exact ⟨rfl, Or.inl h⟩
        · obtain ⟨rfl, rfl⟩ := List.cons.inj h
          exact ⟨rfl, Or.inr ⟨m', rest, rfl, hpre⟩⟩

/-- A text that does not begin with a separator. -/
def StartsWithName (x : Text) : Prop := ∃ c w, x = c :: w ∧ c ≠ separator

theorem IsName.starts (hn : IsName n) (u : Text) : StartsWithName (n ++ u) := by
  obtain ⟨c, n, rfl⟩ := List.exists_cons_of_ne_nil hn.1
  exact ⟨c, n ++ u, rfl, fun h => hn.2 (h ▸ List.mem_cons_self)⟩

theorem uncPrefix_prefix_iff (hu : StartsWithName u) (hv : StartsWithName v) (p q : Bool) :
    uncPrefix p ++ u <+: uncPrefix q ++ v ↔ p = q ∧ u <+: v := by
  obtain ⟨c, u, rfl, hc⟩ := hu
  obtain ⟨c', v, rfl, hc'⟩ := hv
  cases p <;> cases q <;> simp [uncPrefix, List.cons_prefix_cons, hc, Ne.symm hc']

theorem toLower_eq_separator {c : Char} : c.toLower = separator ↔ c = separator := by
  constructor
  · intro h
    unfold Char.toLower at h
    split_ifs at h with hup
    · have hval := congrArg (fun c : Char => c.val.toNat) h
      have h1 : 65 ≤ c.val.toNat := hup.1
      have h2 : c.val.toNat ≤ 90 := hup.2
      have hsum : (c.val + ('a'.val - 'A'.val)).toNat = 92 := hval
      rw [UInt32.toNat_add] at hsum
      have h32 : ('a'.val - 'A'.val).toNat = 32 := by decide
      rw [h32] at hsum
      omega
    · exact h
  · rintro rfl
    rfl

theorem IsName.lower (hn : IsName n) : IsName (n.map Char.toLower) := by
  refine ⟨fun h => hn.1 (List.map_eq_nil_iff.mp h), fun h => hn.2 ?_⟩
  obtain ⟨c, hc, hlower⟩ := List.mem_map.mp h
  exact toLower_eq_separator.mp hlower ▸ hc

theorem lower_joinNames (a : List Text) :
    (joinNames a).map Char.toLower = joinNames (a.map (List.map Char.toLower)) := by
  induction a with
  | nil => rfl
  | cons n a ih =>
    rw [joinNames_cons, List.map_append, List.map_cons, ih, List.map_cons, joinNames_cons]
    rfl

theorem lower_uncPrefix (p : Bool) : (uncPrefix p).map Char.toLower = uncPrefix p := by
  cases p <;> rfl

/-- A comparison of all of `a` is one for a prefix. -/
theorem strnicmpEqual_iff {a b : Text} :
    strnicmpEqual a b a.length = true ↔ a.map Char.toLower <+: b.map Char.toLower := by
  rw [strnicmpEqual, beq_iff_eq, List.take_length, List.prefix_iff_eq_take, List.length_map,
    List.map_take]

namespace Directory

theorem isName_lower (d : Directory) : ∀ n ∈ d.lower, IsName n := by
  intro n hn
  obtain ⟨m, hm, rfl⟩ := List.mem_map.mp hn
  exact (d.isName m hm).lower

theorem lower_text (d : Directory) :
    d.text.map Char.toLower = uncPrefix d.unc ++ joinNames d.lower := by
  rw [text, List.map_append, lower_uncPrefix, lower_joinNames]
  rfl

theorem lower_ne_nil (d : Directory) : d.lower ≠ [] :=
  fun h => d.nonempty (List.map_eq_nil_iff.mp h)

theorem startsWithName (d : Directory) : StartsWithName (joinNames d.lower) := by
  obtain ⟨n, a, h⟩ := List.exists_cons_of_ne_nil d.lower_ne_nil
  have hn := d.isName_lower n (h ▸ List.mem_cons_self)
  rw [h, joinNames_cons]
  exact hn.starts _

theorem text_prefix_iff :
    d.text.map Char.toLower <+: e.text.map Char.toLower ↔ d.Contains e := by
  rw [lower_text, lower_text, uncPrefix_prefix_iff d.startsWithName e.startsWithName,
    joinNames_prefix_iff d.isName_lower e.isName_lower]
  rfl

/-- The path without its last separator. -/
theorem lower_dropLast (d : Directory) : ∃ front n, d.lower = front ++ [n] ∧
    d.text.dropLast.map Char.toLower = uncPrefix d.unc ++ (joinNames front ++ n) := by
  obtain ⟨front, n, h⟩ := (List.eq_nil_or_concat d.lower).resolve_left d.lower_ne_nil
  rw [List.concat_eq_append] at h
  refine ⟨front, n, h, ?_⟩
  rw [List.map_dropLast, lower_text, h, joinNames_append, joinNames_cons, joinNames_nil,
    ← List.append_assoc, ← List.append_assoc, List.dropLast_concat, List.append_assoc]

/-- What a comparison with a path of `d` finds: `d`, what is below it, and siblings if the path has
no separator at its end. -/
theorem path_prefix_iff (trailing : Bool) :
    (d.path trailing).map Char.toLower <+: e.text.map Char.toLower ↔
      d.Contains e ∨ trailing = false ∧ d.Sibling e := by
  cases trailing with
  | true => simp [path, text_prefix_iff]
  | false =>
    obtain ⟨front, n, hlower, hdrop⟩ := d.lower_dropLast
    have hnames := d.isName_lower
    rw [hlower] at hnames
    have hfront : ∀ x ∈ front, IsName x := fun x hx => hnames x (List.mem_append_left _ hx)
    have hn := hnames n (List.mem_append_right _ (List.mem_singleton_self n))
    have hstarts : StartsWithName (joinNames front ++ n) := by
      cases front with
      | nil => simpa using hn.starts []
      | cons x front =>
        rw [joinNames_cons, List.append_assoc]
        exact (hfront x List.mem_cons_self).starts _
    rw [path, if_neg Bool.false_ne_true, hdrop, lower_text,
      uncPrefix_prefix_iff hstarts e.startsWithName,
      joinNames_name_prefix_iff hfront hn e.isName_lower, ← hlower, and_or_left]
    refine or_congr Iff.rfl ?_
    constructor
    · rintro ⟨hunc, m, rest, he, hpre, hne⟩
      exact ⟨rfl, hunc, front, n, m, rest, hlower, he, hpre, hne⟩
    · rintro ⟨-, hunc, front', n', m, rest, hlower', he, hpre, hne⟩
      rw [hlower] at hlower'
      obtain ⟨rfl, hlast⟩ := List.append_inj' hlower' rfl
      obtain rfl := List.singleton_inj.mp hlast
      exact ⟨hunc, m, rest, he, hpre, hne⟩

/-- No canonical path has two separators behind a name. -/
theorem not_doubled_prefix (s : Text) :
    ¬(d.text ++ [separator] ++ s).map Char.toLower <+: e.text.map Char.toLower := by
  intro h
  have hd : d.text.map Char.toLower <+: (d.text ++ [separator] ++ s).map Char.toLower := by
    rw [List.append_assoc, List.map_append]
    exact List.prefix_append _ _
  obtain ⟨hunc, rest, hrest⟩ := text_prefix_iff.mp (hd.trans h)
  rw [List.append_assoc, List.map_append, lower_text, lower_text, hunc, List.append_assoc,
    List.prefix_append_right_inj, ← hrest, joinNames_append, List.prefix_append_right_inj] at h
  cases rest with
  | nil => simp at h
  | cons m rest =>
    have hm : IsName m := e.isName_lower m (hrest ▸ List.mem_append_right _ List.mem_cons_self)
    obtain ⟨c, w, hstart, hc⟩ := hm.starts (separator :: joinNames rest)
    rw [joinNames_cons, hstart, List.singleton_append, List.map_cons, List.cons_prefix_cons] at h
    exact hc h.1.symm

theorem Sibling.not_contains (h : d.Sibling e) : ¬d.Contains e := by
  obtain ⟨-, front, n, m, rest, hd, he, -, hne⟩ := h
  rintro ⟨-, hpre⟩
  rw [hd, he, List.prefix_append_right_inj, List.cons_prefix_cons] at hpre
  exact hne hpre.1

theorem lower_append (d s : Directory) : (d.append s).lower = d.lower ++ s.lower := List.map_append

theorem contains_of_append {s : Directory} (h : (d.append s).Contains e) : d.Contains e := by
  refine ⟨h.1, List.IsPrefix.trans ?_ h.2⟩
  rw [lower_append]
  exact List.prefix_append _ _

/-- A sibling of a directory below `d` is below `d`. -/
theorem Sibling.contains_of_append {s : Directory} (h : (d.append s).Sibling e) : d.Contains e := by
  obtain ⟨hunc, front, n, m, rest, hd, he, -, -⟩ := h
  obtain ⟨front', n', hs, -⟩ := s.lower_dropLast
  rw [lower_append, hs, ← List.append_assoc] at hd
  obtain ⟨hfront, -⟩ := List.append_inj' hd rfl
  refine ⟨hunc, ?_⟩
  rw [he, ← hfront, List.append_assoc]
  exact List.prefix_append _ _

theorem text_dropLast (d : Directory) : d.text.dropLast ++ [separator] = d.text := by
  obtain ⟨front, n, h⟩ := (List.eq_nil_or_concat d.names).resolve_left d.nonempty
  rw [List.concat_eq_append] at h
  rw [text, h, joinNames_append, joinNames_cons, joinNames_nil, ← List.append_assoc,
    ← List.append_assoc, List.dropLast_concat]

/-- The session directory of a root without a separator at its end. -/
theorem append_path {s : Directory} (hs : s.unc = false) (trailing : Bool) :
    d.text.dropLast ++ [separator] ++ s.path trailing = (d.append s).path trailing := by
  have htext : d.text ++ s.text = (d.append s).text := by
    rw [text, text, text, hs, List.append_assoc]
    show _ = uncPrefix d.unc ++ joinNames (d.names ++ s.names)
    rw [joinNames_append]
    rfl
  rw [text_dropLast]
  cases trailing with
  | true => exact htext
  | false =>
    have hne : s.text ≠ [] := by
      rw [← text_dropLast]
      exact List.append_ne_nil_of_right_ne_nil _ (List.cons_ne_nil _ _)
    rw [path, path, if_neg Bool.false_ne_true, if_neg Bool.false_ne_true, ← htext,
      List.dropLast_append_of_ne_nil hne]

end Directory

/-- An accepted destination is below the root and outside the session directory, and siblings of the
two are not taken for them. -/
structure Confined (root session destination : Directory) (r : Except PathError PhysicalPaths) :
    Prop where
  below : ∀ p, r = .ok p →
    root.Contains destination ∧ ¬(root.append session).Contains destination
  rootSibling : root.Sibling destination → ∀ p, r ≠ .ok p
  sessionSibling : (root.append session).Sibling destination → r ≠ .error .insideSessionDir

section confinement
variable {config : VDirConfig} {root session destination : Directory} {t₁ t₂ : Bool}

variable (destination) in
theorem checkBelowRoot_cases (hroot : config.physicalPath = root.path t₁) :
    checkBelowRoot config destination.text = .ok () ∧
        (root.Contains destination ∨ t₁ = false ∧ root.Sibling destination) ∨
      checkBelowRoot config destination.text = .error .notBelowRoot ∧
        ¬(root.Contains destination ∨ t₁ = false ∧ root.Sibling destination) := by
  unfold checkBelowRoot
  split_ifs with h
  · rw [strnicmpEqual_iff, hroot, Directory.path_prefix_iff] at h
    exact Or.inl ⟨rfl, h⟩
  · rw [strnicmpEqual_iff, hroot, Directory.path_prefix_iff] at h
    exact Or.inr ⟨rfl, h⟩

variable (destination) in
theorem checkOutsideSessionDir_eq (hroot : config.physicalPath = root.path t₁)
    (hsession : config.connectionsDir = session.path t₂) (hrel : session.unc = false) :
    (checkOutsideSessionDir config destination.text = .error .insideSessionDir ↔
      t₁ = false ∧ ((root.append session).Contains destination ∨
        t₂ = false ∧ (root.append session).Sibling destination)) ∧
      (checkOutsideSessionDir config destination.text = .error .insideSessionDir ∨
        checkOutsideSessionDir config destination.text = .ok ()) := by
  have hdir : strnicmpEqual config.sessionDir destination.text config.sessionDir.length = true ↔
      t₁ = false ∧ ((root.append session).Contains destination ∨
        t₂ = false ∧ (root.append session).Sibling destination) := by
    rw [strnicmpEqual_iff, VDirConfig.sessionDir, hroot, hsession]
    cases t₁ with
    | true =>
      constructor
      · exact fun h => absurd h (root.not_doubled_prefix _)
      · exact fun h => absurd h.1 (Bool.noConfusion ·)
    | false =>
      rw [← Directory.path_prefix_iff, ← Directory.append_path hrel]
      exact ⟨fun h => ⟨rfl, h⟩, And.right⟩
  unfold checkOutsideSessionDir
  split_ifs with h
  · exact ⟨⟨fun _ => hdir.mp h, fun _ => rfl⟩, Or.inl rfl⟩
  · refine ⟨⟨fun herr => ?_, fun hin => absurd (hdir.mpr hin) h⟩, Or.inr rfl⟩
    cases herr

/-- When no other check rejects it, a destination is confined unless it is in a directory with the
name of the root or of the session directory and more, or the root ends with a separator. -/
theorem confined_iff (hroot : config.physicalPath = root.path t₁)
    (hsession : config.connectionsDir = session.path t₂) (hrel : session.unc = false)
    (sessionIdString pathTranslated : Text) (filePart : Option Text) (attributes : FileAttributes) :
    Confined root session destination (generatePhysicalPaths config sessionIdString pathTranslated
        (.ok ⟨destination.text, filePart⟩) attributes) ↔
      (filePart.isSome → checkAttributes config attributes = .ok () →
        checkPathEnd pathTranslated = .ok () →
        ¬(t₁ = false ∧ root.Sibling destination) ∧
        ¬(t₁ = true ∧ (root.append session).Contains destination) ∧
        ¬(t₁ = false ∧ t₂ = false ∧ (root.append session).Sibling destination)) := by
  have hrejected {e : PathError} (he : e ≠ .insideSessionDir) :
      Confined root session destination (.error e) :=
    ⟨fun _ hp => (nomatch hp), fun _ _ hp => (nomatch hp), fun _ h => he (Except.error.inj h)⟩
  have hattributes : ∀ e, checkAttributes config attributes = .error e → e ≠ .insideSessionDir := by
    intro e he
    unfold checkAttributes at he
    cases attributes with
    | invalid error =>
      dsimp only at he
      split_ifs at he <;> cases he
      exact nofun
    | directory =>
      cases he
      exact nofun
    | file =>
      dsimp only at he
      split_ifs at he <;> cases he
      exact nofun
  have hend : ∀ e, checkPathEnd pathTranslated = .error e → e ≠ .insideSessionDir := by
    intro e he
    unfold checkPathEnd at he
    split_ifs at he <;> cases he <;> exact nofun
  unfold generatePhysicalPaths
  cases filePart with
  | none => exact ⟨fun _ h => (nomatch h), fun _ => hrejected nofun⟩
  | some file =>
    dsimp only
    cases hatt : checkAttributes config attributes with
    | error e => exact ⟨fun _ _ h => (nomatch h), fun _ => hrejected (hattributes e hatt)⟩
    | ok _ =>
      rcases checkBelowRoot_cases destination hroot with ⟨hbelow, hin⟩ | ⟨hbelow, hout⟩
      · rw [hbelow]
        cases hlast : checkPathEnd pathTranslated with
        | error e => exact ⟨fun _ _ _ h => (nomatch h), fun _ => hrejected (hend e hlast)⟩
        | ok _ =>
          obtain ⟨hiff, hcases⟩ := checkOutsideSessionDir_eq destination hroot
            hsession hrel
          rcases hcases with hinside | hok
          · -- The session check rejects, rightly or because of a sibling.
            rw [hinside]
            have hreject := hiff.mp hinside
            constructor
            · intro h _ _ _
              refine ⟨fun hs => ?_, fun hs => ?_, fun hs => h.sessionSibling hs.2.2 rfl⟩
              · rcases hreject.2 with hc | hc
                · exact hs.2.not_contains (Directory.contains_of_append hc)
                · exact hs.2.not_contains (Directory.Sibling.contains_of_append hc.2)
              · exact absurd (hs.1.symm.trans hreject.1) (Bool.noConfusion ·)
            · intro h
              obtain ⟨-, -, hsib⟩ := h rfl rfl rfl
              refine ⟨fun _ hp => (nomatch hp), fun _ _ hp => (nomatch hp), fun hs _ => ?_⟩
              rcases hreject.2 with hc | hc
              · exact hs.not_contains hc
              · exact hsib ⟨hreject.1, hc⟩
          · rw [hok]
            have hpass : ¬(t₁ = false ∧ ((root.append session).Contains destination ∨
                t₂ = false ∧ (root.append session).Sibling destination)) := by
              intro hin
              rw [hiff.mpr hin] at hok
              cases hok
            constructor
            · intro h _ _ _
              refine ⟨fun hs => h.rootSibling hs.2 _ rfl, fun hs => (h.below _ rfl).2 hs.2,
                fun hs => hpass ⟨hs.1, Or.inr hs.2⟩⟩
            · intro h
              obtain ⟨hroot', hdoubled, -⟩ := h rfl rfl rfl
              have hcontains := hin.resolve_right hroot'
              refine ⟨fun p _ => ⟨hcontains, fun hc => ?_⟩,
                fun hs => absurd hcontains hs.not_contains, fun _ h => nomatch h⟩
              cases ht : t₁ with
              | true => exact hdoubled ⟨ht, hc⟩
              | false => exact hpass ⟨ht, Or.inl hc⟩
      · rw [hbelow]
        constructor
        · intro _ _ _ _
          refine ⟨fun hs => hout (Or.inr hs), fun hs => hout (Or.inl ?_), fun hs => hout (Or.inl ?_)⟩
          · exact Directory.contains_of_append hs.2
          · exact Directory.Sibling.contains_of_append hs.2.2
        · exact fun _ => hrejected nofun

def rootDirectory : Directory := ⟨false, ["C:".toList, "Root".toList], by decide, by decide⟩

def rootConfig : VDirConfig :=
  ⟨rootDirectory.path false, "BITS-Sessions\\".toList, false, .none⟩

def sessionDirectory : Directory := ⟨false, ["BITS-Sessions".toList], by decide, by decide⟩

theorem confined_sub :
    Confined rootDirectory sessionDirectory
      ⟨false, ["C:".toList, "root".toList, "sub".toList], by decide, by decide⟩
      (generatePhysicalPaths rootConfig [] "C:\\Root\\sub\\f".toList
        (.ok ⟨Directory.text ⟨false, ["C:".toList, "root".toList, "sub".toList], by decide, by decide⟩,
          some "f".toList⟩) (.invalid errorFileNotFound)) := by
  have hroot : rootConfig.physicalPath = rootDirectory.path false := rfl
  have hsession : rootConfig.connectionsDir = sessionDirectory.path true := rfl
  refine (confined_iff hroot hsession rfl _ _ _ _).mpr fun _ _ _ => ?_
  exact ⟨fun h => h.2.not_contains (by decide), fun h => Bool.noConfusion h.1,
    fun h => Bool.noConfusion h.2.1⟩

/-- A destination in the directory `C:\root2` beside the root. -/
theorem not_confined_sibling :
    ¬Confined rootDirectory sessionDirectory
      ⟨false, ["C:".toList, "root2".toList], by decide, by decide⟩
      (generatePhysicalPaths rootConfig [] "C:\\Root2\\f".toList
        (.ok ⟨Directory.text ⟨false, ["C:".toList, "root2".toList], by decide, by decide⟩,
          some "f".toList⟩) (.invalid errorFileNotFound)) :=
  fun h => absurd (h.below _ rfl).1 (by decide)

end confinement

end text

end NtAdmin.Drizzle.Server
