import NtAdmin.Lib.BitStream

/-! The decompression of mrcicode.cpp. -/
namespace NtAdmin.Wmi.Mrci

def maxDispSmall : ℕ := 2 ^ 6 - 1
def maxDispMed : ℕ := 2 ^ 8 + maxDispSmall
def maxDispBig : ℕ := 2 ^ 12 + maxDispMed
def minDispSmall : ℕ := 0
def minDispMed : ℕ := maxDispSmall + 1
def minDispBig : ℕ := maxDispMed + 1
def sigSize : ℕ := 4

/-- Why a loop ends early: the exception of an input overrun, an operation without a meaning, a
write behind the output limit or a read in front of the output. -/
inductive Stop
  | overrun
  | undefined
  | write
  | source
  | fuel
  deriving DecidableEq

/-- The bits that are ready, their number, and the bytes behind `pCompressed`, of which there are
`cCompressed`. -/
structure BitReader where
  abits : ℕ
  cbitsleft : ℕ
  pCompressed : List UInt8

namespace BitReader

def getbit (r : BitReader) : Except Stop (ℕ × BitReader) :=
  if r.cbitsleft ≠ 0 then
    .ok (r.abits % 2, { r with abits := r.abits / 2, cbitsleft := r.cbitsleft - 1 })
  else
    match r.pCompressed with
    | [] => .error .overrun
    | b :: pCompressed => .ok (b.toNat % 2, ⟨b.toNat / 2, 7, pCompressed⟩)

/-- Get a byte when no bits are ready. -/
def fill (r : BitReader) : Except Stop BitReader :=
  if r.cbitsleft = 0 then
    match r.pCompressed with
    | [] => .error .overrun
    | b :: pCompressed => .ok ⟨b.toNat, 8, pCompressed⟩
  else .ok r

/-- The loop of `getbits`, which runs at most once for each bit. A shift by 32 or more has no
meaning. -/
def getbitsLoop : ℕ → ℕ → ℕ → ℕ → BitReader → Except Stop (ℕ × BitReader)
  | 0, _, _, _, _ => .error .fuel
  | fuel + 1, bits, cbitsdone, cbitsneeded, r => do
    let r ← r.fill
    if 32 ≤ cbitsdone then .error .undefined
    else
      let bits := bits ||| (r.abits <<< cbitsdone) % 2 ^ 32
      if cbitsneeded ≤ r.cbitsleft then
        .ok (bits, { r with
          abits := r.abits / 2 ^ cbitsneeded, cbitsleft := r.cbitsleft - cbitsneeded })
      else
        getbitsLoop fuel bits (cbitsdone + r.cbitsleft) (cbitsneeded - r.cbitsleft)
          { r with cbitsleft := 0 }

/-- `BITMASK` of 31 bits or more has no meaning. -/
def getbits (r : BitReader) (cbits : ℕ) : Except Stop (ℕ × BitReader) := do
  let (bits, r) ←
    if cbits ≤ r.cbitsleft then
      .ok (r.abits, { r with abits := r.abits / 2 ^ cbits, cbitsleft := r.cbitsleft - cbits })
    else getbitsLoop cbits 0 0 cbits r
  if 31 ≤ cbits then .error .undefined else .ok (bits % 2 ^ cbits, r)

/-- The bits that are left. -/
def bitsLeft (r : BitReader) : ℕ := r.cbitsleft + 8 * r.pCompressed.length

end BitReader

/-- What bits are got from. -/
structure BitSource (σ : Type) where
  getbit : σ → Except Stop (ℕ × σ)
  getbits : σ → ℕ → Except Stop (ℕ × σ)
  bitsLeft : σ → ℕ

/-- The compressed input. -/
def BitReader.source : BitSource BitReader := ⟨getbit, getbits, bitsLeft⟩

/-- What the decompression reads before it writes. -/
inductive Token
  | literal (b : UInt8)
  | marker
  | string (disp length : ℕ)
  deriving DecidableEq

section tokens
variable {σ : Type} (src : BitSource σ)

/-- The loop that counts the leading zeroes of a length. -/
def countZeroes : ℕ → ℕ → σ → Except Stop (ℕ × σ)
  | 0, _, _ => .error .fuel
  | fuel + 1, length, r => do
    let (bit, r) ← src.getbit r
    if bit = 0 then countZeroes fuel (length + 1) r else .ok (length, r)

def readLength (r : σ) : Except Stop (ℕ × σ) := do
  let (length, r) ← countZeroes src (src.bitsLeft r + 1) 0 r
  if length ≠ 0 then do
    let (bits, r) ← src.getbits r length
    .ok (bits + 2 ^ length + 1, r)
  else .ok (2, r)

/-- A medium or a big displacement. -/
def readDisp (r : σ) : Except Stop (ℕ × σ) := do
  let (bit, r) ← src.getbit r
  if bit = 0 then do
    let (bits, r) ← src.getbits r 8
    .ok (bits + minDispMed, r)
  else do
    let (bits, r) ← src.getbits r 12
    .ok (bits + minDispBig, r)

def readLiteral (high : ℕ) (r : σ) : Except Stop (Token × σ) := do
  let (bits, r) ← src.getbits r 7
  .ok (.literal (UInt8.ofNat (bits ||| high)), r)

/-- The rest of a match behind its displacement; the format adds `more` to its length. -/
def readMatch (more disp : ℕ) (r : σ) : Except Stop (Token × σ) :=
  if disp = maxDispBig then .ok (.marker, r)
  else do
    let (length, r) ← readLength src r
    .ok (.string disp (length + more), r)

def readSmall (more : ℕ) (r : σ) : Except Stop (Token × σ) := do
  let (bits, r) ← src.getbits r 6
  readMatch src more (bits + minDispSmall) r

def readFar (more : ℕ) (r : σ) : Except Stop (Token × σ) := do
  let (disp, r) ← readDisp src r
  readMatch src more disp r

/-- One round of the loop of `Mrci1Decompress`, up to what it writes. -/
def mrci1Token (r : σ) : Except Stop (Token × σ) := do
  let (b, r) ← src.getbits r 2
  if b = 1 then readLiteral src 128 r
  else if b = 2 then readLiteral src 0 r
  else if b = 0 then readSmall src 0 r
  else readFar src 0 r

/-- One round of the loop of `Mrci2Decompress`, up to what it writes. -/
def mrci2Token (r : σ) : Except Stop (Token × σ) := do
  let (bit, r) ← src.getbit r
  if bit = 0 then readLiteral src 0 r
  else do
    let (bit, r) ← src.getbit r
    if bit = 1 then readLiteral src 128 r
    else do
      let (bit, r) ← src.getbit r
      if bit = 0 then readSmall src 1 r else readFar src 1 r

end tokens

section output
variable (uninit : ℕ → UInt8) (cchdecMax : ℕ)

/-- Write a byte behind the output. -/
def writeByte (out : List UInt8) (b : UInt8) : Except Stop (List UInt8) :=
  if out.length < cchdecMax then .ok (out ++ [b]) else .error .write

/-- Copy a match. A displacement of zero copies what the buffer held before, `uninit`. -/
def expandstring (disp : ℕ) : ℕ → List UInt8 → Except Stop (List UInt8)
  | 0, out => .ok out
  | cb + 1, out =>
    if out.length < disp then .error .source
    else do
      let out ← writeByte cchdecMax out (out.getD (out.length - disp) (uninit out.length))
      expandstring disp cb out

/-- The loop over the tokens, with the output so far. -/
def decompressLoop {σ : Type} (readToken : σ → Except Stop (Token × σ)) :
    ℕ → σ → List UInt8 → Except Stop (List UInt8)
  | 0, _, _ => .error .fuel
  | fuel + 1, r, out => do
    let (token, r) ← readToken r
    match token with
    | .literal b => do
      let out ← writeByte cchdecMax out b
      decompressLoop readToken fuel r out
    | .marker => if cchdecMax ≤ out.length then .ok out else decompressLoop readToken fuel r out
    | .string disp length => do
      let out ← expandstring uninit cchdecMax disp length out
      decompressLoop readToken fuel r out

/-- The handler of the exception, which returns -1. -/
def catchOverrun : Except Stop (List UInt8) → Except Stop (Option (List UInt8))
  | .ok out => .ok (some out)
  | .error .overrun => .ok none
  | .error stop => .error stop

/-- The output, or none for the return value -1. -/
def decompress (readToken : BitReader → Except Stop (Token × BitReader)) (sig₀ sig₁ : UInt8)
    (pchin : List UInt8) : Except Stop (Option (List UInt8)) :=
  if pchin.length ≤ sigSize ∨ pchin[0]? ≠ some sig₀ ∨ pchin[1]? ≠ some sig₁ then .ok none
  else
    let pCompressed := pchin.drop sigSize
    catchOverrun (decompressLoop uninit cchdecMax readToken (8 * pCompressed.length + 1)
      ⟨0, 0, pCompressed⟩ [])

def Mrci1Decompress (pchin : List UInt8) : Except Stop (Option (List UInt8)) :=
  decompress uninit cchdecMax (mrci1Token BitReader.source) 68 83 pchin

def Mrci2Decompress (pchin : List UInt8) : Except Stop (Option (List UInt8)) :=
  decompress uninit cchdecMax (mrci2Token BitReader.source) 74 77 pchin

end output

end NtAdmin.Wmi.Mrci
