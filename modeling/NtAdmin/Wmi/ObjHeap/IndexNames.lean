import Mathlib.Data.List.TakeWhile
import NtAdmin.Lib.Decimal
import NtAdmin.Wmi.Btr.IteratorBatch

/-! The names under which objheap.cpp has objects in the index: a path, and behind it where the object
is. Paths stand without the directory of the repository, and are not empty. -/
namespace NtAdmin.Wmi.ObjHeap
open Lib Btr

def slash : UInt8 := 0x5C

def dot : UInt8 := 0x2E

/-- What the calls of the index and of the object heap return. -/
inductive IndexError
  | ERROR_FILE_NOT_FOUND
  | ERROR_NOT_FOUND
  | ERROR_INVALID_PARAMETER
  /-- The tree has not kept its keys, and the model goes no further. -/
  | keysLost
  deriving DecidableEq

/-- The page, the offset and the length of an object. -/
structure FileInfo where
  nPage : ℕ
  nOffset : ℕ
  dwLength : ℕ
  deriving DecidableEq

def decimalText (n : ℕ) : List UInt8 := (Decimal.printed 1 n).map fun d => UInt8.ofNat (0x30 + d)

/-- `.%u.%u.%u`, with which `CreateIndexFile` ends a name. -/
def FileInfo.text (info : FileInfo) : List UInt8 :=
  (dot :: decimalText info.nPage) ++ (dot :: decimalText info.nOffset) ++
    dot :: decimalText info.dwLength

/-- A `char` is widened with its sign. -/
def wide (c : UInt8) : ℕ := if c.toNat < 0x80 then c.toNat else c.toNat + 0xFF00

/-- The loops of `ParseInfoFromIndexFile`, on a `DWORD`: the number, and what is behind it. -/
def readNumber : ℕ → List UInt8 → ℕ × List UInt8
  | n, [] => (n, [])
  | n, c :: pwc =>
    if c = dot then (n, c :: pwc) else readNumber ((n * 10 + wide c + (2 ^ 32 - 0x30)) % 2 ^ 32) pwc

def parseInfoFromIndexFile (wszIndexFileName : Key) : Except IndexError FileInfo :=
  match wszIndexFileName.1.dropWhile (· ≠ dot) with
  | [] => .error .ERROR_INVALID_PARAMETER
  | _ :: pwc =>
    match readNumber 0 pwc with
    | (_, []) => .error .ERROR_INVALID_PARAMETER
    | (nPage, _ :: pwc) =>
      match readNumber 0 pwc with
      | (_, []) => .error .ERROR_INVALID_PARAMETER
      | (nOffset, _ :: pwc) => .ok ⟨nPage, nOffset, (readNumber 0 pwc).1⟩

/-! ### Keys -/

theorem decimalText_digit {n : ℕ} {c : UInt8} (h : c ∈ decimalText n) :
    0x30 ≤ c.toNat ∧ c.toNat < 0x3A := by
  obtain ⟨d, hd, rfl⟩ := List.mem_map.mp h
  have hlt := Decimal.lt_ten_of_mem_fixed hd
  rw [UInt8.toNat_ofNat_of_lt' (by have : UInt8.size = 256 := rfl; omega)]
  omega

theorem text_char {info : FileInfo} {c : UInt8} (h : c ∈ info.text) :
    c = dot ∨ 0x30 ≤ c.toNat ∧ c.toNat < 0x3A := by
  simp only [FileInfo.text, List.mem_append, List.mem_cons] at h
  rcases h with ((h | h) | h | h) | h | h
  · exact .inl h
  · exact .inr (decimalText_digit h)
  · exact .inl h
  · exact .inr (decimalText_digit h)
  · exact .inl h
  · exact .inr (decimalText_digit h)

/-- What is behind the path of a link, or of an object. -/
def ending : Option FileInfo → List UInt8
  | none => []
  | some info => info.text

theorem notMem_ending {entry : Option FileInfo} {c : UInt8} (hdot : c ≠ dot)
    (hc : c.toNat < 0x30 ∨ 0x3A ≤ c.toNat) : c ∉ ending entry := by
  intro h
  cases entry with
  | none => cases h
  | some info =>
    rcases text_char h with h | ⟨hlow, hhigh⟩
    · exact hdot h
    · omega

theorem indexName_chars (path : Key) (entry : Option FileInfo) : 0 ∉ path.1 ++ ending entry := by
  intro h
  rcases List.mem_append.mp h with h | h
  · exact path.2 h
  · exact notMem_ending (by decide) (by decide) h

/-- The name of a link or of an object. -/
def indexName (path : Key) (entry : Option FileInfo) : Key :=
  ⟨path.1 ++ ending entry, indexName_chars path entry⟩

theorem indexName_val (path : Key) (entry : Option FileInfo) :
    (indexName path entry).1 = path.1 ++ ending entry := rfl

/-- What is behind the last backslash of a key, which has one character at least. -/
def suffixOf (pszKey : List UInt8) : List UInt8 :=
  (pszKey.dropLast.reverse.takeWhile (· ≠ slash)).reverse ++ pszKey.getLast?.toList

theorem suffixOf_chars (pszKey : Key) : 0 ∉ suffixOf pszKey.1 := by
  intro h
  apply pszKey.2
  rcases List.mem_append.mp h with h | h
  · have hrev := (List.takeWhile_sublist _).subset (List.mem_reverse.mp h)
    exact (List.dropLast_sublist _).subset (List.mem_reverse.mp hrev)
  · exact List.mem_of_getLast? (Option.mem_toList.mp h)

/-- `CopyStringToWIN32_FIND_DATA`. -/
def fileName (pszKey : Key) : Key := ⟨suffixOf pszKey.1, suffixOf_chars pszKey⟩

theorem fileName_val (pszKey : Key) : (fileName pszKey).1 = suffixOf pszKey.1 := rfl

/-- A path up to its last backslash. -/
def folderOf (path : List UInt8) : List UInt8 := (path.reverse.dropWhile (· ≠ slash)).reverse

theorem inFolder_chars (path name : Key) : 0 ∉ folderOf path.1 ++ name.1 := by
  intro h
  rcases List.mem_append.mp h with h | h
  · have hrev := (List.dropWhile_sublist _).subset (List.mem_reverse.mp h)
    exact path.2 (List.mem_reverse.mp hrev)
  · exact name.2 h

def inFolder (wszFilePath wszIndexFileName : Key) : Key :=
  ⟨folderOf wszFilePath.1 ++ wszIndexFileName.1, inFolder_chars wszFilePath wszIndexFileName⟩

theorem inFolder_val (path name : Key) : (inFolder path name).1 = folderOf path.1 ++ name.1 := rfl

theorem fromDot_chars (path name : Key) : 0 ∉ path.1 ++ name.1.dropWhile (· ≠ dot) := by
  intro h
  rcases List.mem_append.mp h with h | h
  · exact path.2 h
  · exact name.2 ((List.dropWhile_sublist _).subset h)

/-- The path with what the name has from its first dot on. -/
def withInfoOf (wszFilePath wszIndexFileName : Key) : Key :=
  ⟨wszFilePath.1 ++ wszIndexFileName.1.dropWhile (· ≠ dot), fromDot_chars wszFilePath wszIndexFileName⟩

theorem withInfoOf_val (path name : Key) :
    (withInfoOf path name).1 = path.1 ++ name.1.dropWhile (· ≠ dot) := rfl

/-! ### Calls of the index -/

/-- What the index is to the object heap: the calls of a B-tree and its keys in the order of its
iterator, and how long the directory of the repository is. Nothing is asked of `InsertKey` and
`DeleteKey`; the calls of the index look at what they have done. -/
class KeyTree (τ : Type) where
  keys : τ → List Key
  insertKey : Key → τ → τ
  deleteKey : Key → τ → τ
  /-- The tree that `Init` makes on a new file. -/
  init : τ
  keys_init : keys init = []
  m_dwPrefixLength : ℕ

def MAX_PATH : ℕ := 260

/-- The characters that a `CFileName` has for a path behind the directory. -/
def room (τ : Type) [KeyTree τ] : ℕ := MAX_PATH - KeyTree.m_dwPrefixLength τ

theorem fitted_chars (length : ℕ) (key : Key) : 0 ∉ key.1.take length :=
  fun h => key.2 (List.mem_of_mem_take h)

/-- What the functions on strings with a length leave of a name. -/
def fitted (length : ℕ) (key : Key) : Key := ⟨key.1.take length, fitted_chars length key⟩

theorem fitted_eq {length : ℕ} {key : Key} (h : key.1.length ≤ length) : fitted length key = key :=
  Subtype.ext (List.take_of_length_le h)

section Index
variable {τ : Type} [KeyTree τ]

/-- The keys, as an index that no one enumerates. -/
def listed (m_Index : τ) : CBtrIndex := ⟨KeyTree.keys m_Index, fun _ => Enumeration.fill []⟩

/-- `CBtrIndex::Create`. A key that is there already is no error. -/
def create (key : Key) (m_Index : τ) : Except IndexError τ :=
  if key.1 = [] then .error .ERROR_INVALID_PARAMETER
  else if KeyTree.keys (KeyTree.insertKey key m_Index) = ((listed m_Index).create key).keys then
    .ok (KeyTree.insertKey key m_Index)
  else .error .keysLost

/-- `FindFirst` asks for the first key that begins with the path. -/
def getIndexFileName (m_Index : τ) (wszFilePath : Key) : Except IndexError Key :=
  if wszFilePath.1 = [] then .error .ERROR_INVALID_PARAMETER
  else match (listed m_Index).range wszFilePath with
  | [] => .error .ERROR_FILE_NOT_FOUND
  | pszKey :: _ => .ok (fitted MAX_PATH (fileName pszKey))

def getFileInfo (m_Index : τ) (wszFilePath : Key) : Except IndexError FileInfo := do
  let wszIndexFileName ← getIndexFileName m_Index wszFilePath
  parseInfoFromIndexFile wszIndexFileName

def createIndexFile (m_Index : τ) (wszFilePath : Key) (info : FileInfo) : Except IndexError τ :=
  create (fitted (room τ) (indexName wszFilePath (some info))) m_Index

def deleteZeroLengthFile (m_Index : τ) (wszFilePath : Key) : Except IndexError τ :=
  if wszFilePath.1 = [] then .error .ERROR_INVALID_PARAMETER
  else if (KeyTree.keys m_Index).contains wszFilePath then
    if KeyTree.keys (KeyTree.deleteKey wszFilePath m_Index) =
        ((listed m_Index).delete wszFilePath).keys then
      .ok (KeyTree.deleteKey wszFilePath m_Index)
    else .error .keysLost
  else .error .ERROR_NOT_FOUND

def deleteIndexFile (m_Index : τ) (wszFilePath wszIndexFileName : Key) : Except IndexError τ :=
  if wszFilePath.1.contains slash then
    deleteZeroLengthFile m_Index (fitted (room τ) (inFolder wszFilePath wszIndexFileName))
  else .error .ERROR_INVALID_PARAMETER

/-- What `DeleteLink` does with the index. -/
def deleteLinkFile (m_Index : τ) (wszFilePath : Key) : Except IndexError τ := do
  let wszIndexFileName ← getIndexFileName m_Index wszFilePath
  deleteZeroLengthFile m_Index (fitted (room τ) (withInfoOf wszFilePath wszIndexFileName))

end Index

/-! ### Numbers -/

def FileInfo.IsDwords (info : FileInfo) : Prop :=
  info.nPage < 2 ^ 32 ∧ info.nOffset < 2 ^ 32 ∧ info.dwLength < 2 ^ 32

theorem readNumber_digits {digits : List ℕ} {n : ℕ} (hdigits : ∀ d ∈ digits, d < 10)
    (h : digits.foldl (fun n d => 10 * n + d) n < 2 ^ 32) (pwc : List UInt8) :
    readNumber n (digits.map (fun d => UInt8.ofNat (0x30 + d)) ++ pwc) =
      readNumber (digits.foldl (fun n d => 10 * n + d) n) pwc := by
  induction digits generalizing n with
  | nil => rfl
  | cons d digits ih =>
    have hd := hdigits d List.mem_cons_self
    have hgrow (ds : List ℕ) (m : ℕ) : m ≤ ds.foldl (fun n d => 10 * n + d) m := by
      induction ds generalizing m with
      | nil => exact le_rfl
      | cons e ds ih => exact (by omega : m ≤ 10 * m + e).trans (ih _)
    have hlt := (hgrow digits (10 * n + d)).trans_lt h
    have hchar : (UInt8.ofNat (0x30 + d)).toNat = 0x30 + d :=
      UInt8.toNat_ofNat_of_lt' (by have : UInt8.size = 256 := rfl; omega)
    have hdot : UInt8.ofNat (0x30 + d) ≠ dot := by
      intro heq
      have hnat := congrArg UInt8.toNat heq
      rw [hchar, show dot.toNat = 0x2E from rfl] at hnat
      omega
    have hwide : wide (UInt8.ofNat (0x30 + d)) = 0x30 + d := by
      rw [wide, hchar, if_pos (by omega)]
    rw [List.map_cons, List.cons_append, readNumber, if_neg hdot, hwide]
    have hnext : (n * 10 + (0x30 + d) + (2 ^ 32 - 0x30)) % 2 ^ 32 = 10 * n + d := by omega
    rw [hnext]
    exact ih (fun e he => hdigits e (List.mem_cons_of_mem d he)) h

theorem readNumber_decimalText {n : ℕ} (h : n < 2 ^ 32) (pwc : List UInt8) :
    readNumber 0 (decimalText n ++ pwc) = readNumber n pwc := by
  have hvalue : Decimal.value (Decimal.printed 1 n) = n := by
    apply Decimal.value_fixed
    exact (Nat.lt_pow_succ_log_self (by omega) n).trans_le
      (Nat.pow_le_pow_right (by omega) (le_max_right _ _))
  rw [Decimal.value] at hvalue
  have hread := readNumber_digits (fun d (hd : d ∈ Decimal.printed 1 n) => Decimal.lt_ten_of_mem_fixed hd)
    (by rwa [hvalue]) pwc
  rwa [hvalue] at hread

/-- Three dots, and three numbers of ten digits at most. -/
theorem length_text_le {info : FileInfo} (h : info.IsDwords) : info.text.length ≤ 33 := by
  have hten {n : ℕ} (hn : n < 2 ^ 32) : (decimalText n).length ≤ 10 := by
    rw [decimalText, List.length_map, Decimal.printed, Decimal.length_fixed]
    have hlog : Nat.log 10 n < 10 :=
      Nat.log_lt_of_lt_pow' (by decide) (hn.trans_le (by decide))
    omega
  have hpage := hten h.1
  have hoffset := hten h.2.1
  have hlength := hten h.2.2
  simp only [FileInfo.text, List.length_append, List.length_cons]
  omega

/-- A name tells what was printed. -/
theorem parse_text {name : List UInt8} {key : Key} {info : FileInfo} (hname : dot ∉ name)
    (hkey : key.1 = name ++ info.text) (h : info.IsDwords) : parseInfoFromIndexFile key = .ok info := by
  have hdrop : key.1.dropWhile (· ≠ dot) = info.text := by
    rw [hkey, List.dropWhile_append_of_pos]
    · rfl
    · exact fun c hc => decide_eq_true fun heq => hname (heq ▸ hc)
  have hstop (n : ℕ) (pwc : List UInt8) : readNumber n (dot :: pwc) = (n, dot :: pwc) := by
    rw [readNumber, if_pos rfl]
  rw [parseInfoFromIndexFile, hdrop, FileInfo.text, List.cons_append, List.cons_append]
  dsimp only
  rw [List.append_assoc, List.cons_append, readNumber_decimalText h.1, hstop]
  dsimp only
  rw [readNumber_decimalText h.2.1, hstop]
  dsimp only
  rw [← List.append_nil (decimalText info.dwLength), readNumber_decimalText h.2.2]
  rfl

theorem parse_plain {key : Key} (h : dot ∉ key.1) :
    parseInfoFromIndexFile key = .error .ERROR_INVALID_PARAMETER := by
  have hdrop : key.1.dropWhile (· ≠ dot) = [] := by
    rw [List.dropWhile_eq_nil_iff]
    exact fun c hc => decide_eq_true fun heq => h (heq ▸ hc)
  rw [parseInfoFromIndexFile, hdrop]

end NtAdmin.Wmi.ObjHeap
