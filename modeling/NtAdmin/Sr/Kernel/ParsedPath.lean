import Mathlib.Data.List.TakeWhile
import NtAdmin.Lib.Buffer
import NtAdmin.Lib.Reader

/-! ConvertToParsedPath of ptree.c. A counted path is the list of its characters, and the memory
behind them and behind the buffer is not there to be read or written. -/
namespace NtAdmin.Sr
open Lib

abbrev Wchar := UInt16

def backslash : Wchar := 92

/-- A path with a 16-bit count. -/
structure CountedPath where
  chars : List Wchar
  length_lt : chars.length < 2 ^ 16

/-- A buffer with a 16-bit size. -/
structure PathBuffer where
  bytes : List UInt8
  length_lt : bytes.length < 2 ^ 16

/-- An access outside of the memory a function was given. -/
inductive Fault
  | read
  | write (off : ℕ)
  deriving DecidableEq

def sizeofWchar : ℕ := 2

/-- `CALC_PPATH_SIZE`. -/
def calcPpathSize (a : ℕ) : ℕ := (a + 3) * sizeofWchar

/-- The 16-bit word at `off`. -/
def wordAt (buf : List UInt8) (off : ℕ) : ℕ := leNat (sliceAt buf off 2)

def writeWord (buf : List UInt8) (off w : ℕ) : Except Fault (List UInt8) :=
  if off + 2 ≤ buf.length then .ok (copyAt buf off (leBytes 2 w)) else .error (.write off)

/-- The loop over the leading backslashes. -/
def skipBackslashes : List Wchar → ℕ → Except Fault (List Wchar × ℕ)
  | [], _ => .error .read
  | c :: pWStr, nLen =>
    if c = backslash then skipBackslashes pWStr ((nLen + 65535) % 65536)
    else .ok (c :: pWStr, nLen)

/-- The variables of the loop over the path; the pointers into the buffer are offsets. -/
structure Conversion where
  buf : List UInt8
  pWBuf : ℕ
  peLength : ℕ
  nChars : ℕ
  nPrefix : ℕ

section convert
variable (upcase : Wchar → Wchar)

/-- The loop over the path, with whether the buffer was large enough. -/
def convertLoop (nBufSize : ℕ) : ℕ → List Wchar → Conversion → Except Fault (Bool × Conversion)
  | 0, _, s => .ok (true, s)
  | _ + 1, [], _ => .error .read
  | nLen + 1, c :: pWStr, s =>
    if c = backslash then do
      let buf ← writeWord s.buf s.peLength ((s.nChars + 1) * sizeofWchar)
      let nPrefix := (s.nPrefix + wordAt buf s.peLength) % 65536
      let s' : Conversion := ⟨buf, s.pWBuf + 2, s.pWBuf, 0, nPrefix⟩
      if nBufSize ≤ nPrefix then .ok (false, s')
      else convertLoop nBufSize nLen pWStr s'
    else do
      let buf ← writeWord s.buf s.pWBuf (upcase c).toNat
      convertLoop nBufSize nLen pWStr
        { s with buf := buf, pWBuf := s.pWBuf + 2, nChars := (s.nChars + 1) % 65536 }

/-- What is written behind the loop. -/
def closePath (s : Conversion) : Except Fault (List UInt8) := do
  let buf ← writeWord s.buf s.peLength ((s.nChars + 1) * sizeofWchar)
  let buf ← writeWord buf 2 s.nPrefix
  let buf ← writeWord buf 0 (s.nPrefix + wordAt buf s.peLength)
  writeWord buf (s.nPrefix + wordAt buf s.peLength) 0

/-- The result, with the buffer. -/
def convertToParsedPath (lpszPath : Option CountedPath) (pPathBuf : Option PathBuffer) :
    Except Fault (Bool × Option (List UInt8)) :=
  match lpszPath, pPathBuf with
  | none, pPathBuf => .ok (false, pPathBuf.map PathBuffer.bytes)
  | some _, none => .ok (false, none)
  | some path, some pathBuf =>
    let nPathLen := path.chars.length
    let nBufSize := pathBuf.bytes.length
    if nPathLen ≠ 0 ∧ nBufSize < calcPpathSize nPathLen then .ok (false, some pathBuf.bytes)
    else do
      let (pWStr, nLen) ← skipBackslashes path.chars nPathLen
      let nPrefix := 2 * sizeofWchar
      let buf ← writeWord (List.replicate nBufSize 0) nPrefix 0
      let (fRet, s) ← convertLoop upcase nBufSize nLen pWStr ⟨buf, nPrefix + 2, nPrefix, 0, nPrefix⟩
      if fRet then do
        let buf ← closePath s
        .ok (true, some buf)
      else .ok (false, some s.buf)

end convert

/-! ### What a parsed path is -/

def word (c : Wchar) : List UInt8 := leBytes 2 c.toNat

/-- `pe_length`: the length word and the characters. -/
def elementLength (cs : List Wchar) : ℕ := (cs.length + 1) * sizeofWchar

def element (cs : List Wchar) : List UInt8 := leBytes 2 (elementLength cs) ++ cs.flatMap word

/-- The components between the backslashes that are behind the leading ones. -/
def components (chars : List Wchar) : List (List Wchar) :=
  (chars.dropWhile (· = backslash)).splitOnP (· = backslash)

/-- `buf` holds the chain of `elements`, closed by a zero length. -/
structure IsParsedPath (buf : List UInt8) (elements : List (List Wchar)) : Prop where
  totalLength : wordAt buf 0 = 4 + (elements.map elementLength).sum
  prefixLength : wordAt buf 2 = 4 + (elements.dropLast.map elementLength).sum
  chain : ∃ rest, buf.drop 4 = elements.flatMap element ++ leBytes 2 0 ++ rest

/-- A call that stays inside of its memory, and builds the parsed path when it succeeds. -/
def ConvertsSafely (upcase : Wchar → Wchar) (lpszPath : Option CountedPath)
    (pPathBuf : Option PathBuffer) : Prop :=
  ∃ fRet bufs, convertToParsedPath upcase lpszPath pPathBuf = .ok (fRet, bufs) ∧
    (fRet = true → ∃ path pathBuf buf, lpszPath = some path ∧ pPathBuf = some pathBuf ∧
      bufs = some buf ∧ buf.length = pathBuf.bytes.length ∧
      IsParsedPath buf ((components path.chars).map (List.map upcase)))

section layout
variable {u w v : List UInt8} {n off : ℕ}

theorem writeWord_mid (hoff : off = u.length) (hw : w.length = 2) :
    writeWord (u ++ w ++ v) off n = .ok (u ++ leBytes 2 n ++ v) := by
  have hfits : off + 2 ≤ (u ++ w ++ v).length := by
    simp only [List.length_append]
    omega
  have hcopy : copyAt (u ++ w ++ v) off (leBytes 2 n) = u ++ leBytes 2 n ++ v :=
    copyAt_mid rfl hoff (by rw [length_leBytes, hw])
  rw [writeWord, if_pos hfits, hcopy]

theorem wordAt_mid (hoff : off = u.length) (hn : n < 2 ^ 16) :
    wordAt (u ++ leBytes 2 n ++ v) off = n := by
  have hslice : sliceAt (u ++ leBytes 2 n ++ v) off 2 = leBytes 2 n :=
    sliceAt_mid rfl hoff (length_leBytes 2 n).symm
  rw [wordAt, hslice, leNat_leBytes_of_lt hn]

@[simp] theorem length_word (c : Wchar) : (word c).length = 2 := length_leBytes 2 c.toNat

@[simp] theorem length_flatMap_word (cs : List Wchar) : (cs.flatMap word).length = 2 * cs.length := by
  induction cs with
  | nil => rfl
  | cons c cs ih =>
    rw [List.flatMap_cons, List.length_append, ih, length_word, List.length_cons]
    omega

@[simp] theorem length_element (cs : List Wchar) : (element cs).length = elementLength cs := by
  rw [element, List.length_append, length_leBytes, length_flatMap_word, elementLength, sizeofWchar]
  omega

theorem length_flatMap_element (elements : List (List Wchar)) :
    (elements.flatMap element).length = (elements.map elementLength).sum := by
  simp only [List.length_flatMap, length_element]

end layout

/-! ### The loop -/

/-- The buffer in the loop: `finished` elements, then the characters of an element whose length is
still open, then `room` bytes. -/
structure Building (s : Conversion) (finished : List (List Wchar)) (current : List Wchar)
    (room : ℕ) : Prop where
  layout : ∃ header slot rest : List UInt8, header.length = 4 ∧ slot.length = 2 ∧
    rest.length = room ∧
    s.buf = header ++ finished.flatMap element ++ slot ++ current.flatMap word ++ rest
  peLength : s.peLength = 4 + (finished.map elementLength).sum
  pWBuf : s.pWBuf = s.peLength + elementLength current
  nChars : s.nChars = current.length
  nPrefix : s.nPrefix = s.peLength
  length_lt : s.buf.length < 2 ^ 16

section building
variable {s : Conversion} {finished : List (List Wchar)} {current : List Wchar} {room : ℕ}

theorem Building.length (h : Building s finished current room) :
    s.buf.length = 4 + (finished.map elementLength).sum + elementLength current + room := by
  obtain ⟨header, slot, rest, hheader, hslot, hrest, hbuf⟩ := h.layout
  rw [hbuf]
  simp only [List.length_append, length_flatMap_element, length_flatMap_word, elementLength,
    sizeofWchar]
  omega

/-- One more character. -/
theorem Building.char {c : Wchar} (h : Building s finished current (room + 2)) :
    ∃ buf, writeWord s.buf s.pWBuf c.toNat = .ok buf ∧ buf.length = s.buf.length ∧
      Building { s with buf := buf, pWBuf := s.pWBuf + 2, nChars := (s.nChars + 1) % 65536 }
        finished (current ++ [c]) room := by
  have hlength := h.length
  have hlt := h.length_lt
  obtain ⟨header, slot, rest, hheader, hslot, hrest, hbuf⟩ := h.layout
  obtain ⟨b₀, b₁, rest, rfl⟩ : ∃ b₀ b₁ rest', rest = b₀ :: b₁ :: rest' := by
    match rest, hrest with
    | b₀ :: b₁ :: rest', _ => exact ⟨b₀, b₁, rest', rfl⟩
  have hrest' : rest.length = room := by simpa using hrest
  have hoff : s.pWBuf =
      (header ++ finished.flatMap element ++ slot ++ current.flatMap word).length := by
    rw [h.pWBuf, h.peLength]
    simp only [List.length_append, length_flatMap_element, length_flatMap_word, elementLength,
      sizeofWchar]
    omega
  have hwrite := writeWord_mid (w := [b₀, b₁]) (v := rest) (n := c.toNat) hoff rfl
  rw [List.append_assoc _ [b₀, b₁]] at hwrite
  refine ⟨_, hbuf ▸ hwrite, ?_, ?_⟩
  · rw [hbuf]
    simp only [List.length_append, List.length_cons, length_leBytes]
    omega
  · constructor
    · refine ⟨header, slot, rest, hheader, hslot, hrest', ?_⟩
      simp [word]
    · exact h.peLength
    · show s.pWBuf + 2 = s.peLength + elementLength (current ++ [c])
      rw [h.pWBuf, elementLength, elementLength, List.length_append, List.length_singleton,
        sizeofWchar]
      omega
    · show (s.nChars + 1) % 65536 = (current ++ [c]).length
      rw [h.nChars, List.length_append, List.length_singleton]
      rw [elementLength, sizeofWchar] at hlength
      omega
    · exact h.nPrefix
    · show (_ ++ rest).length < 2 ^ 16
      rw [hbuf] at hlt
      simp only [List.length_append, List.length_cons, length_leBytes] at hlt ⊢
      omega

theorem wordAt_last {header rest : List UInt8} (hheader : header.length = 4)
    (hlt : elementLength current < 2 ^ 16) :
    wordAt (header ++ (finished ++ [current]).flatMap element ++ rest)
      (4 + (finished.map elementLength).sum) = elementLength current := by
  have hoff : 4 + (finished.map elementLength).sum =
      (header ++ finished.flatMap element).length := by
    rw [List.length_append, hheader, length_flatMap_element]
  have hword := wordAt_mid (v := current.flatMap word ++ rest) hoff hlt
  simpa [element] using hword

/-- The length of the open element is filled in. -/
theorem Building.fill (h : Building s finished current room) :
    ∃ buf header rest, writeWord s.buf s.peLength ((s.nChars + 1) * sizeofWchar) = .ok buf ∧
      header.length = 4 ∧ rest.length = room ∧
      buf = header ++ (finished ++ [current]).flatMap element ++ rest := by
  obtain ⟨header, slot, rest, hheader, hslot, hrest, hbuf⟩ := h.layout
  have hoff : s.peLength = (header ++ finished.flatMap element).length := by
    rw [h.peLength, List.length_append, hheader, length_flatMap_element]
  have hwrite := writeWord_mid (v := current.flatMap word ++ rest) (n := elementLength current)
    hoff hslot
  refine ⟨header ++ (finished ++ [current]).flatMap element ++ rest, header, rest, ?_, hheader,
    hrest, rfl⟩
  · rw [hbuf, h.nChars, List.append_assoc (_ ++ slot)]
    simpa [element, elementLength] using hwrite

/-- A backslash closes the element. -/
theorem Building.separator (h : Building s finished current (room + 2)) :
    ∃ buf, writeWord s.buf s.peLength ((s.nChars + 1) * sizeofWchar) = .ok buf ∧
      buf.length = s.buf.length ∧ (s.nPrefix + wordAt buf s.peLength) % 65536 < s.buf.length ∧
      Building ⟨buf, s.pWBuf + 2, s.pWBuf, 0, (s.nPrefix + wordAt buf s.peLength) % 65536⟩
        (finished ++ [current]) [] room := by
  have hlength := h.length
  have hlt := h.length_lt
  obtain ⟨buf, header, rest, hwrite, hheader, hrest, hbuf⟩ := h.fill
  have hword : wordAt buf s.peLength = elementLength current := by
    rw [hbuf, h.peLength]
    exact wordAt_last hheader (by omega)
  have hsum : ((finished ++ [current]).map elementLength).sum =
      (finished.map elementLength).sum + elementLength current := by
    simp
  have hbuflength : buf.length = s.buf.length := by
    rw [hbuf, List.length_append, List.length_append, length_flatMap_element, hsum, hheader, hrest,
      hlength]
    omega
  have hprefix : (s.nPrefix + wordAt buf s.peLength) % 65536 =
      4 + ((finished ++ [current]).map elementLength).sum := by
    rw [hword, h.nPrefix, h.peLength, hsum]
    omega
  refine ⟨buf, hwrite, hbuflength, by omega, ?_⟩
  obtain ⟨b₀, b₁, rest, rfl⟩ : ∃ b₀ b₁ rest', rest = b₀ :: b₁ :: rest' := by
    match rest, hrest with
    | b₀ :: b₁ :: rest', _ => exact ⟨b₀, b₁, rest', rfl⟩
  have hpe : s.pWBuf = 4 + ((finished ++ [current]).map elementLength).sum := by
    rw [h.pWBuf, h.peLength, hsum, Nat.add_assoc]
  constructor
  · refine ⟨header, [b₀, b₁], rest, hheader, rfl, by simpa using hrest, ?_⟩
    simp [hbuf]
  · exact hpe
  · rfl
  · rfl
  · exact hprefix.trans hpe.symm
  · exact hbuflength ▸ hlt

theorem convertLoop_spec (upcase : Wchar → Wchar) (pWStr : List Wchar) {raw : List Wchar}
    (h : Building s finished (raw.map upcase) (room + 2 * pWStr.length)) :
    ∃ s' finished' current', convertLoop upcase s.buf.length pWStr.length pWStr s = .ok (true, s') ∧
      Building s' finished' current' room ∧ s'.buf.length = s.buf.length ∧
      finished' ++ [current'] = finished ++
        (List.splitOnPPrepend (· = backslash) pWStr raw.reverse).map (List.map upcase) := by
  induction pWStr generalizing s finished raw with
  | nil =>
    refine ⟨s, finished, raw.map upcase, rfl, h, rfl, ?_⟩
    rw [List.splitOnPPrepend_nil, List.reverse_reverse]
    rfl
  | cons c pWStr ih =>
    have hroom : room + 2 * (c :: pWStr).length = room + 2 * pWStr.length + 2 := by
      rw [List.length_cons]
      omega
    rw [hroom] at h
    by_cases hc : c = backslash
    · obtain ⟨buf, hwrite, hlength, hlt, hbuilding⟩ := h.separator
      obtain ⟨s', finished', current', hloop, hbuilding', hlength', hsplit⟩ :=
        ih (show Building _ _ (List.map upcase []) _ from hbuilding)
      refine ⟨s', finished', current', ?_, hbuilding', hlength'.trans hlength, ?_⟩
      · rw [List.length_cons, convertLoop, if_pos hc, hwrite]
        change (if _ ≤ _ then _ else _) = _
        rw [if_neg (Nat.not_le.mpr hlt)]
        exact hlength ▸ hloop
      · rw [hsplit, List.splitOnPPrepend_cons_pos (by simpa using hc), List.map_cons,
          List.reverse_reverse, List.append_assoc]
        rfl
    · obtain ⟨buf, hwrite, hlength, hbuilding⟩ := h.char (c := upcase c)
      have hmap : raw.map upcase ++ [upcase c] = (raw ++ [c]).map upcase := by simp
      rw [hmap] at hbuilding
      obtain ⟨s', finished', current', hloop, hbuilding', hlength', hsplit⟩ := ih hbuilding
      refine ⟨s', finished', current', ?_, hbuilding', hlength'.trans hlength, ?_⟩
      · rw [List.length_cons, convertLoop, if_neg hc, hwrite]
        exact hlength ▸ hloop
      · rw [hsplit, List.splitOnPPrepend_cons_neg (by simpa using hc), List.reverse_append]
        rfl

/-- The lengths are written, and the closing zero where there is room for it. -/
theorem closePath_spec (h : Building s finished current room) :
    if 2 ≤ room then ∃ buf, closePath s = .ok buf ∧ buf.length = s.buf.length ∧
      IsParsedPath buf (finished ++ [current])
    else ∃ off, closePath s = .error (.write off) := by
  have hlength := h.length
  have hlt := h.length_lt
  obtain ⟨buf, header, rest, hwrite, hheader, hrest, hbuf⟩ := h.fill
  obtain ⟨b₀, b₁, b₂, b₃, rfl⟩ : ∃ b₀ b₁ b₂ b₃, header = [b₀, b₁, b₂, b₃] := by
    match header, hheader with
    | [b₀, b₁, b₂, b₃], _ => exact ⟨b₀, b₁, b₂, b₃, rfl⟩
  obtain ⟨chain, hdef⟩ : ∃ chain, chain = (finished ++ [current]).flatMap element := ⟨_, rfl⟩
  obtain ⟨total, hsum⟩ : ∃ total, total = s.nPrefix + elementLength current := ⟨_, rfl⟩
  rw [← hdef] at hbuf
  have hchain : chain.length = (finished.map elementLength).sum + elementLength current := by
    rw [hdef]
    simp
  have htotal : total = 4 + chain.length := by
    rw [hsum, hchain, ← Nat.add_assoc, ← h.peLength, ← h.nPrefix]
  have hprefixlen : writeWord buf 2 s.nPrefix =
      .ok ([b₀, b₁] ++ leBytes 2 s.nPrefix ++ (chain ++ rest)) := by
    have hmid := writeWord_mid (u := [b₀, b₁]) (w := [b₂, b₃]) (v := chain ++ rest)
      (n := s.nPrefix) rfl rfl
    rw [hbuf]
    simpa using hmid
  have hlast (header : List UInt8) (hheader : header.length = 4) :
      wordAt (header ++ chain ++ rest) s.peLength = elementLength current := by
    rw [h.peLength, hdef]
    exact wordAt_last hheader (by omega)
  have hlast₁ := hlast ([b₀, b₁] ++ leBytes 2 s.nPrefix) (by simp)
  have htotallen : writeWord ([b₀, b₁] ++ leBytes 2 s.nPrefix ++ chain ++ rest) 0 total =
      .ok (leBytes 2 total ++ leBytes 2 s.nPrefix ++ chain ++ rest) := by
    have hmid := writeWord_mid (u := []) (w := [b₀, b₁]) (n := total)
      (v := leBytes 2 s.nPrefix ++ chain ++ rest) rfl rfl
    simpa using hmid
  have hlast₂ := hlast (leBytes 2 total ++ leBytes 2 s.nPrefix) (by simp)
  have hclose : closePath s =
      writeWord (leBytes 2 total ++ leBytes 2 s.nPrefix ++ chain ++ rest) total 0 := by
    rw [closePath, hwrite]
    simp only [bind, Except.bind]
    rw [hprefixlen, ← List.append_assoc]
    simp only []
    rw [hlast₁, ← hsum, htotallen]
    simp only []
    rw [hlast₂, ← hsum]
  have hoff : total = (leBytes 2 total ++ leBytes 2 s.nPrefix ++ chain).length := by
    rw [htotal]
    simp only [List.length_append, length_leBytes]
  rw [hclose]
  split_ifs with hroom
  · obtain ⟨c₀, c₁, rest, rfl⟩ : ∃ c₀ c₁ rest', rest = c₀ :: c₁ :: rest' := by
      match rest, hrest with
      | c₀ :: c₁ :: rest', _ => exact ⟨c₀, c₁, rest', rfl⟩
      | [c₀], hrest => simp at hrest; omega
      | [], hrest => simp at hrest; omega
    have hzero := writeWord_mid (w := [c₀, c₁]) (v := rest) (n := 0) hoff rfl
    rw [List.append_assoc _ [c₀, c₁]] at hzero
    refine ⟨_, hzero, ?_, ?_⟩
    · rw [hlength, ← hrest]
      simp only [List.length_append, length_leBytes, hchain, List.length_cons]
      omega
    · constructor
      · have hword := wordAt_mid (u := []) (n := total)
          (v := leBytes 2 s.nPrefix ++ chain ++ leBytes 2 0 ++ rest) rfl (by omega)
        rw [List.map_append, List.sum_append, List.map_singleton, List.sum_singleton, ← hchain,
          ← htotal]
        simpa using hword
      · have hoff₂ : 2 = (leBytes 2 total).length := (length_leBytes 2 total).symm
        have hword := wordAt_mid (n := s.nPrefix) (v := chain ++ leBytes 2 0 ++ rest) hoff₂ (by omega)
        rw [List.dropLast_concat, ← h.peLength, ← h.nPrefix]
        simpa using hword
      · have hheader' : (leBytes 2 total ++ leBytes 2 s.nPrefix).length = 4 := by
          rw [List.length_append, length_leBytes, length_leBytes]
        refine ⟨rest, ?_⟩
        rw [← hdef, List.append_assoc _ chain, List.append_assoc _ (chain ++ _)]
        exact List.drop_left' hheader'
  · refine ⟨total, ?_⟩
    have hfits : ¬ total + 2 ≤
        (leBytes 2 total ++ leBytes 2 s.nPrefix ++ chain ++ rest).length := by
      rw [List.length_append, ← hoff]
      omega
    rw [writeWord, if_neg hfits]

end building

/-! ### The call -/

theorem skipBackslashes_spec (chars : List Wchar) (hlt : chars.length < 2 ^ 16) :
    skipBackslashes chars chars.length =
      match chars.dropWhile (· = backslash) with
      | [] => .error .read
      | c :: pWStr => .ok (c :: pWStr, pWStr.length + 1) := by
  induction chars with
  | nil => rfl
  | cons c chars ih =>
    rw [List.length_cons] at hlt ⊢
    have hdec : (chars.length + 1 + 65535) % 65536 = chars.length := by omega
    by_cases hc : c = backslash
    · rw [skipBackslashes, if_pos hc, hdec, ih (by omega),
        List.dropWhile_cons_of_pos (by simpa using hc)]
    · rw [skipBackslashes, if_neg hc, List.dropWhile_cons_of_neg (by simpa using hc)]

/-- The condition under which a call stays inside of its memory: it ends at a null pointer or at the
estimate of the size, or the path has a character that is no backslash, and begins with a
backslash or leaves room for one more. -/
def StaysInside (lpszPath : Option CountedPath) (pPathBuf : Option PathBuffer) : Prop :=
  ∀ path pathBuf, lpszPath = some path → pPathBuf = some pathBuf →
    path.chars ≠ [] ∧ pathBuf.bytes.length < calcPpathSize path.chars.length ∨
    (∃ c ∈ path.chars, c ≠ backslash) ∧
      (path.chars.head? = some backslash ∨
        calcPpathSize (path.chars.length + 1) ≤ pathBuf.bytes.length)

theorem convertToParsedPath_small (upcase : Wchar → Wchar) {path : CountedPath}
    {pathBuf : PathBuffer} (hne : path.chars ≠ [])
    (hsmall : pathBuf.bytes.length < calcPpathSize path.chars.length) :
    convertToParsedPath upcase (some path) (some pathBuf) = .ok (false, some pathBuf.bytes) := by
  have hne' : path.chars.length ≠ 0 := fun h => hne (List.eq_nil_of_length_eq_zero h)
  exact if_pos ⟨hne', hsmall⟩

/-- A path without a character that is no backslash is read beyond its end. -/
theorem convertToParsedPath_separators (upcase : Wchar → Wchar) {path : CountedPath}
    {pathBuf : PathBuffer} (hall : path.chars.dropWhile (· = backslash) = [])
    (hsize : path.chars = [] ∨ calcPpathSize path.chars.length ≤ pathBuf.bytes.length) :
    convertToParsedPath upcase (some path) (some pathBuf) = .error .read := by
  have hskip := skipBackslashes_spec path.chars path.length_lt
  rw [hall] at hskip
  unfold convertToParsedPath
  simp only [hskip]
  rw [if_neg]
  · rfl
  · rintro ⟨hne, hsmall⟩
    rcases hsize with hnil | hsize
    · exact hne (by rw [hnil, List.length_nil])
    · exact Nat.not_lt.mpr hsize hsmall

/-- Every other path is converted, up to the closing zero. -/
theorem convertToParsedPath_closed {path : CountedPath} {pathBuf : PathBuffer} {c : Wchar}
    {pWStr : List Wchar} (upcase : Wchar → Wchar)
    (hdrop : path.chars.dropWhile (· = backslash) = c :: pWStr)
    (hsize : calcPpathSize path.chars.length ≤ pathBuf.bytes.length) :
    if calcPpathSize (pWStr.length + 1) + 2 ≤ pathBuf.bytes.length then
      ∃ buf, convertToParsedPath upcase (some path) (some pathBuf) = .ok (true, some buf) ∧
        buf.length = pathBuf.bytes.length ∧
        IsParsedPath buf ((components path.chars).map (List.map upcase))
    else ∃ off, convertToParsedPath upcase (some path) (some pathBuf) = .error (.write off) := by
  have hskip := skipBackslashes_spec path.chars path.length_lt
  rw [hdrop] at hskip
  have hle : pWStr.length + 1 ≤ path.chars.length := by
    have hsuffix := (List.dropWhile_suffix (l := path.chars) (· = backslash)).length_le
    rwa [hdrop, List.length_cons] at hsuffix
  have hestimate : ¬ (path.chars.length ≠ 0 ∧
      pathBuf.bytes.length < calcPpathSize path.chars.length) :=
    fun h => Nat.not_lt.mpr hsize h.2
  have hcalc (a : ℕ) : calcPpathSize a = 2 * a + 6 := by
    rw [calcPpathSize, sizeofWchar]
    omega
  rw [hcalc] at hsize
  obtain ⟨room, hroom⟩ : ∃ room, pathBuf.bytes.length = 6 + (room + 2 * (c :: pWStr).length) :=
    ⟨pathBuf.bytes.length - 6 - 2 * (c :: pWStr).length, by rw [List.length_cons]; omega⟩
  obtain ⟨n, hn⟩ : ∃ n, n = room + 2 * (c :: pWStr).length := ⟨_, rfl⟩
  let buf := [0, 0, 0, 0] ++ leBytes 2 0 ++ List.replicate n 0
  have hwrite : writeWord (List.replicate pathBuf.bytes.length 0) (2 * sizeofWchar) 0 =
      .ok buf := by
    have hmid := writeWord_mid (u := [0, 0, 0, 0]) (w := [0, 0]) (v := List.replicate n 0)
      (n := 0) (show 4 = _ from rfl) rfl
    rw [hroom, ← hn, ← List.replicate_append_replicate]
    exact hmid
  have hlength : buf.length = pathBuf.bytes.length := by
    rw [hroom, ← hn]
    simp [buf]
    omega
  have hbuilding : Building ⟨buf, 2 * sizeofWchar + 2, 2 * sizeofWchar, 0, 2 * sizeofWchar⟩ []
      (List.map upcase []) (room + 2 * (c :: pWStr).length) := by
    constructor
    · refine ⟨[0, 0, 0, 0], leBytes 2 0, List.replicate n 0, rfl, rfl, ?_, ?_⟩
      · rw [List.length_replicate, hn]
      · simp [buf]
    · rfl
    · rfl
    · rfl
    · rfl
    · exact hlength ▸ pathBuf.length_lt
  obtain ⟨s, finished, current, hloop, hbuilding', hlength', hsplit⟩ :=
    convertLoop_spec upcase (c :: pWStr) hbuilding
  have hconvert : convertToParsedPath upcase (some path) (some pathBuf) =
      (closePath s).map fun buf => (true, some buf) := by
    unfold convertToParsedPath
    simp only [hestimate, if_false, hskip, bind, Except.bind, hwrite]
    rw [← hlength]
    rw [List.length_cons] at hloop
    simp only [hloop, if_true]
    cases closePath s <;> rfl
  have hcomponents : finished ++ [current] = (components path.chars).map (List.map upcase) := by
    rw [hsplit, components, hdrop]
    rfl
  have hclose := closePath_spec hbuilding'
  rw [hcomponents] at hclose
  rw [hconvert, hcalc]
  rw [List.length_cons] at hroom
  split_ifs with hfits
  · rw [if_pos (by omega)] at hclose
    obtain ⟨buf', hclose, hlength'', hparsed⟩ := hclose
    exact ⟨buf', by rw [hclose]; rfl, hlength''.trans (hlength'.trans hlength), hparsed⟩
  · rw [if_neg (by omega)] at hclose
    obtain ⟨off, hclose⟩ := hclose
    exact ⟨off, by rw [hclose]; rfl⟩

/-- The closing zero has room behind a leading backslash, or else in a larger buffer. -/
theorem closing_fits {chars pWStr : List Wchar} {c : Wchar} {nBufSize : ℕ}
    (hdrop : chars.dropWhile (· = backslash) = c :: pWStr)
    (hsize : calcPpathSize chars.length ≤ nBufSize) :
    calcPpathSize (pWStr.length + 1) + 2 ≤ nBufSize ↔
      (∃ c ∈ chars, c ≠ backslash) ∧
        (chars.head? = some backslash ∨ calcPpathSize (chars.length + 1) ≤ nBufSize) := by
  have hexists : ∃ c ∈ chars, c ≠ backslash := by
    by_contra hall
    have hnil : chars.dropWhile (· = backslash) = [] := by
      rw [List.dropWhile_eq_nil_iff]
      intro x hx
      by_contra hne
      exact hall ⟨x, hx, by simpa using hne⟩
    rw [hnil] at hdrop
    nomatch hdrop
  rw [and_iff_right hexists]
  simp only [calcPpathSize, sizeofWchar] at hsize ⊢
  cases chars with
  | nil => nomatch hdrop
  | cons a chars =>
    by_cases ha : a = backslash
    · rw [List.dropWhile_cons_of_pos (by simpa using ha)] at hdrop
      have hsuffix := (List.dropWhile_suffix (l := chars) (· = backslash)).length_le
      rw [hdrop, List.length_cons] at hsuffix
      rw [List.length_cons] at hsize ⊢
      have hhead : (a :: chars).head? = some backslash := congrArg some ha
      exact iff_of_true (by omega) (Or.inl hhead)
    · rw [List.dropWhile_cons_of_neg (by simpa using ha)] at hdrop
      obtain ⟨-, rfl⟩ := List.cons.inj hdrop
      have hhead : (a :: chars).head? ≠ some backslash := fun h => ha (Option.some.inj h)
      rw [or_iff_right hhead, List.length_cons]
      omega

/-- A conversion stays inside of its memory and builds the parsed path exactly when the path has a
component and its buffer has room for the closing zero. -/
theorem convertsSafely_iff (upcase : Wchar → Wchar) (lpszPath : Option CountedPath)
    (pPathBuf : Option PathBuffer) :
    ConvertsSafely upcase lpszPath pPathBuf ↔ StaysInside lpszPath pPathBuf := by
  match lpszPath, pPathBuf with
  | none, pPathBuf =>
    constructor
    · intro _ path pathBuf hpath
      nomatch hpath
    · intro _
      exact ⟨false, _, rfl, nofun⟩
  | some path, none =>
    constructor
    · intro _ path pathBuf _ hbuf
      nomatch hbuf
    · intro _
      exact ⟨false, none, rfl, nofun⟩
  | some path, some pathBuf =>
    have hinside : StaysInside (some path) (some pathBuf) ↔
        path.chars ≠ [] ∧ pathBuf.bytes.length < calcPpathSize path.chars.length ∨
        (∃ c ∈ path.chars, c ≠ backslash) ∧
          (path.chars.head? = some backslash ∨
            calcPpathSize (path.chars.length + 1) ≤ pathBuf.bytes.length) := by
      constructor
      · intro h
        exact h path pathBuf rfl rfl
      · intro h path' pathBuf' hpath hbuf
        obtain rfl := Option.some.inj hpath
        obtain rfl := Option.some.inj hbuf
        exact h
    rw [hinside]
    by_cases hsmall : path.chars ≠ [] ∧ pathBuf.bytes.length < calcPpathSize path.chars.length
    · have hrun := convertToParsedPath_small upcase hsmall.1 hsmall.2
      exact iff_of_true ⟨false, _, hrun, nofun⟩ (Or.inl hsmall)
    · cases hdrop : path.chars.dropWhile (· = backslash) with
      | nil =>
        have hsize : path.chars = [] ∨
            calcPpathSize path.chars.length ≤ pathBuf.bytes.length := by
          rcases Decidable.not_and_iff_or_not.mp hsmall with h | h
          · exact Or.inl (Decidable.not_not.mp h)
          · exact Or.inr (Nat.not_lt.mp h)
        have hrun := convertToParsedPath_separators upcase hdrop hsize
        have hall := List.dropWhile_eq_nil_iff.mp hdrop
        apply iff_of_false
        · rintro ⟨fRet, bufs, hok, -⟩
          rw [hrun] at hok
          nomatch hok
        · rintro (h | ⟨⟨c, hc, hne⟩, -⟩)
          · exact hsmall h
          · exact hne (by simpa using hall c hc)
      | cons c pWStr =>
        have hne : path.chars ≠ [] := by
          intro hnil
          rw [hnil] at hdrop
          nomatch hdrop
        have hsize : calcPpathSize path.chars.length ≤ pathBuf.bytes.length :=
          Nat.not_lt.mp fun h => hsmall ⟨hne, h⟩
        have hclosed := convertToParsedPath_closed upcase hdrop hsize
        have hfits := closing_fits hdrop hsize
        by_cases h : calcPpathSize (pWStr.length + 1) + 2 ≤ pathBuf.bytes.length
        · rw [if_pos h] at hclosed
          obtain ⟨buf, hrun, hlength, hparsed⟩ := hclosed
          have hsafe : ConvertsSafely upcase (some path) (some pathBuf) :=
            ⟨true, some buf, hrun, fun _ => ⟨path, pathBuf, buf, rfl, rfl, rfl, hlength, hparsed⟩⟩
          exact iff_of_true hsafe (Or.inr (hfits.mp h))
        · rw [if_neg h] at hclosed
          obtain ⟨off, hrun⟩ := hclosed
          apply iff_of_false
          · rintro ⟨fRet, bufs, hok, -⟩
            rw [hrun] at hok
            nomatch hok
          · rintro (h' | h')
            · exact hsmall h'
            · exact h (hfits.mpr h')

/-- The loop over the leading backslashes does not stop at the end of the path. -/
theorem not_convertsSafely_separator : ¬ ∀ (upcase : Wchar → Wchar)
    (lpszPath : Option CountedPath) (pPathBuf : Option PathBuffer),
    ConvertsSafely upcase lpszPath pPathBuf := by
  intro h
  let path : CountedPath := ⟨[backslash], by decide⟩
  let pathBuf : PathBuffer := ⟨List.replicate 8 0, by decide⟩
  obtain ⟨fRet, bufs, hrun, -⟩ := h id (some path) (some pathBuf)
  have hfault : convertToParsedPath id (some path) (some pathBuf) = .error .read := by
    decide +kernel
  rw [hfault] at hrun
  nomatch hrun

end NtAdmin.Sr
