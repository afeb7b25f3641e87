import Nouns.Evm

/-!
# Inflate — the decompressor

`Inflate.sol`.  A function that returns an error code leaves the state as it is then, which is what
`puff` returns the output of.  Five iterations of a loop that the source writes out one after the
other are one iteration each here.
-/

namespace Nouns

namespace Inflate

/-- Maximum bits in a code. -/
def MAXBITS : Nat := 15
/-- Maximum number of literal/length codes. -/
def MAXLCODES : Nat := 286
/-- Maximum number of distance codes. -/
def MAXDCODES : Nat := 30
/-- Maximum code lengths to read. -/
def MAXCODES : Nat := MAXLCODES + MAXDCODES
/-- Number of fixed literal/length codes. -/
def FIXLCODES : Nat := 288

inductive ErrorCode
  | ERR_NONE
  | ERR_NOT_TERMINATED
  | ERR_OUTPUT_EXHAUSTED
  | ERR_INVALID_BLOCK_TYPE
  | ERR_STORED_LENGTH_NO_MATCH
  | ERR_TOO_MANY_LENGTH_OR_DISTANCE_CODES
  | ERR_CODE_LENGTHS_CODES_INCOMPLETE
  | ERR_REPEAT_NO_FIRST_LENGTH
  | ERR_REPEAT_MORE
  | ERR_INVALID_LITERAL_LENGTH_CODE_LENGTHS
  | ERR_INVALID_DISTANCE_CODE_LENGTHS
  | ERR_MISSING_END_OF_BLOCK
  | ERR_INVALID_LENGTH_OR_DISTANCE_CODE
  | ERR_DISTANCE_TOO_FAR
  | ERR_CONSTRUCT
deriving DecidableEq, Repr

/-- A decoding table. -/
structure Huffman where
  counts : List Nat
  symbols : List Nat
deriving DecidableEq, Repr

structure State where
  output : Bytes
  outcnt : Nat
  input : Bytes
  incnt : Nat
  bitbuf : Nat
  bitcnt : Nat
  lencode : Huffman
  distcode : Huffman
deriving DecidableEq, Repr

/-- A function on the state that returns an error code, or `ERR_NONE` and an `α`. -/
abbrev Puff (α : Type) : Type := ExceptT ErrorCode (StateT State Tx) α

/-! ## Bits -/

/-- The `while` loop of `bits`.  Each iteration loads eight bits, so that `need` of them are
enough. -/
def loadBits (need : Nat) : (fuel val : Nat) → Puff Nat
  | 0, val => return val
  | fuel + 1, val => do
    let s ← get
    if s.bitcnt < need then
      if s.incnt = s.input.length then throw .ERR_NOT_TERMINATED
      let byte ← getAt s.input s.incnt
      set { s with incnt := s.incnt + 1, bitcnt := s.bitcnt + 8 }
      loadBits need fuel (val ||| byte.toNat <<< s.bitcnt)
    else return val

def bits (need : Nat) : Puff Nat := do
  let val ← loadBits need need (← get).bitbuf
  modify fun s => { s with bitbuf := val >>> need, bitcnt := s.bitcnt - need }
  return val &&& (1 <<< need - 1)

/-! ## Stored blocks -/

/-- `uint256(uint8(s.input[s.incnt++]))`. -/
def nextByte : Puff Nat := do
  let s ← get
  let byte ← getAt s.input s.incnt
  set { s with incnt := s.incnt + 1 }
  return byte.toNat

def copyStored : (len : Nat) → Puff Unit
  | 0 => return
  | len + 1 => do
    let s ← get
    let output ← setAt s.output s.outcnt (← getAt s.input s.incnt)
    set { s with output, outcnt := s.outcnt + 1, incnt := s.incnt + 1 }
    copyStored len

def stored : Puff Unit := do
  modify fun s => { s with bitbuf := 0, bitcnt := 0 }
  let s ← get
  if s.incnt + 4 > s.input.length then throw .ERR_NOT_TERMINATED
  let low ← nextByte
  let len := low ||| (← nextByte) <<< 8
  -- `~len`
  let complement := 2 ^ 256 - 1 - len
  if (← nextByte) ≠ complement &&& 0xFF then throw .ERR_STORED_LENGTH_NO_MATCH
  if (← nextByte) ≠ (complement >>> 8) &&& 0xFF then throw .ERR_STORED_LENGTH_NO_MATCH
  let s ← get
  if s.incnt + len > s.input.length then throw .ERR_NOT_TERMINATED
  if s.outcnt + len > s.output.length then throw .ERR_OUTPUT_EXHAUSTED
  copyStored len

/-! ## Huffman codes -/

/-- The loop of `_decode` from length `len` on, for `fuel` lengths. -/
def decodeFrom (h : Huffman) : (fuel len code first index : Nat) → Puff Nat
  | 0, _, _, _, _ => throw .ERR_INVALID_LENGTH_OR_DISTANCE_CODE
  | fuel + 1, len, code, first, index => do
    let code := code ||| (← bits 1)
    let count ← getAt h.counts len
    if code < first + count then getAt h.symbols (index + (code - first))
    else decodeFrom h fuel (len + 1) (code <<< 1) ((first + count) <<< 1) (index + count)

def decode (h : Huffman) : Puff Nat := decodeFrom h MAXBITS 1 0 0 0

/-- How many codes there are of each length. -/
def countLengths (lengths : List Nat) (n start : Nat) : Tx (List Nat) :=
  (List.range n).foldlM (fun counts symbol => do
    let len ← getAt lengths (start + symbol)
    setAt counts len ((← getAt counts len) + 1)) (List.replicate (MAXBITS + 1) 0)

/-- The codes of the next `fuel` lengths, from `len` on, taken from those left; `none` if there are
too many. -/
def codesLeft (counts : List Nat) : (fuel len left : Nat) → Tx (Option Nat)
  | 0, _, left => return some left
  | fuel + 1, len, left => do
    let count ← getAt counts len
    if left <<< 1 < count then return none
    else codesLeft counts fuel (len + 1) (left <<< 1 - count)

/-- Where the symbols of each length begin. -/
def offsets (counts : List Nat) : Tx (List Nat) :=
  (List.range' 1 (MAXBITS - 1)).foldlM
    (fun offs len => do setAt offs (len + 1) ((← getAt offs len) + (← getAt counts len)))
    (List.replicate (MAXBITS + 1) 0)

/-- Puts a symbol where its length says, with the offsets and the symbols as they are. -/
def sortSymbol (lengths : List Nat) (start : Nat) (state : List Nat × List Nat) (symbol : Nat) :
    Tx (List Nat × List Nat) := do
  let len ← getAt lengths (start + symbol)
  if len ≠ 0 then
    let off ← getAt state.1 len
    return (← setAt state.1 len (off + 1), ← setAt state.2 off symbol)
  else return state

/-- The symbols sorted by length. -/
def sortSymbols (lengths : List Nat) (n start : Nat) (offs symbols : List Nat) : Tx (List Nat) := do
  let (_, symbols) ← (List.range n).foldlM (sortSymbol lengths start) (offs, symbols)
  return symbols

def construct (h : Huffman) (lengths : List Nat) (n start : Nat) : Tx (ErrorCode × Huffman) := do
  let counts ← countLengths lengths n start
  let h := { h with counts }
  -- No codes: complete, but `decode` will fail.
  if (← getAt counts 0) = n then return (.ERR_NONE, h)
  else
    match ← codesLeft counts MAXBITS 1 1 with
    | none => return (.ERR_CONSTRUCT, h)
    | some left =>
      let symbols ← sortSymbols lengths n start (← offsets counts) h.symbols
      return (if left > 0 then .ERR_CONSTRUCT else .ERR_NONE, { h with symbols })

/-! ## Compressed data -/

/-- Size base for length codes 257..285. -/
def lens : List Nat :=
  [3, 4, 5, 6, 7, 8, 9, 10, 11, 13, 15, 17, 19, 23, 27, 31, 35, 43, 51, 59, 67, 83, 99, 115, 131, 163,
    195, 227, 258]

/-- Extra bits for length codes 257..285. -/
def lext : List Nat :=
  [0, 0, 0, 0, 0, 0, 0, 0, 1, 1, 1, 1, 2, 2, 2, 2, 3, 3, 3, 3, 4, 4, 4, 4, 5, 5, 5, 5, 0]

/-- Offset base for distance codes 0..29. -/
def dists : List Nat :=
  [1, 2, 3, 4, 5, 7, 9, 13, 17, 25, 33, 49, 65, 97, 129, 193, 257, 385, 513, 769, 1025, 1537, 2049,
    3073, 4097, 6145, 8193, 12289, 16385, 24577]

/-- Extra bits for distance codes 0..29. -/
def dext : List Nat :=
  [0, 0, 0, 0, 1, 1, 2, 2, 3, 3, 4, 4, 5, 5, 6, 6, 7, 7, 8, 8, 9, 9, 10, 10, 11, 11, 12, 12, 13, 13]

/-- The copy of `len` bytes from `dist` bytes back. -/
def copyBack (dist : Nat) : (len : Nat) → Puff Unit
  | 0 => return
  | len + 1 => do
    let s ← get
    let output ← setAt s.output s.outcnt (← getAt s.output (s.outcnt - dist))
    set { s with output, outcnt := s.outcnt + 1 }
    copyBack dist len

/-- An iteration of the loop of `_codes`.  Returns `symbol` as it is at the end of it.  Where the
source adds `len` to `outcnt`, a copy has counted it down to 0. -/
def codesStep (lencode distcode : Huffman) : Puff Nat := do
  let symbol ← decode lencode
  if symbol < 256 then
    let s ← get
    if s.outcnt = s.output.length then throw .ERR_OUTPUT_EXHAUSTED
    let output ← setAt s.output s.outcnt (UInt8.ofNat symbol)
    set { s with output, outcnt := s.outcnt + 1 }
    return symbol
  else if symbol > 256 then
    let symbol := symbol - 257
    if symbol ≥ 29 then throw .ERR_INVALID_LENGTH_OR_DISTANCE_CODE
    let tempBits ← bits (← getAt lext symbol)
    let len := (← getAt lens symbol) + tempBits
    let symbol ← decode distcode
    let tempBits ← bits (← getAt dext symbol)
    let dist := (← getAt dists symbol) + tempBits
    let s ← get
    if dist > s.outcnt then throw .ERR_DISTANCE_TOO_FAR
    if s.outcnt + len > s.output.length then throw .ERR_OUTPUT_EXHAUSTED
    copyBack dist len
    return symbol
  else return symbol

/-- The loop of `_codes`.  Each iteration reads a bit at least. -/
def codesLoop (lencode distcode : Huffman) : (fuel : Nat) → Puff Unit
  | 0 => throw .ERR_NOT_TERMINATED
  | fuel + 1 => do
    let symbol ← codesStep lencode distcode
    if symbol ≠ 256 then codesLoop lencode distcode fuel

def codes (lencode distcode : Huffman) : Puff Unit := do
  codesLoop lencode distcode (8 * (← get).input.length + 1)

/-! ## Fixed and dynamic blocks -/

/-- The two tables of an empty state and what `_build_fixed` makes of them. -/
def buildFixed : Tx (Huffman × Huffman) := do
  let lencode : Huffman := ⟨List.replicate (MAXBITS + 1) 0, List.replicate FIXLCODES 0⟩
  let distcode : Huffman := ⟨List.replicate (MAXBITS + 1) 0, List.replicate MAXDCODES 0⟩
  let lengths := List.replicate 144 8 ++ List.replicate 112 9 ++ List.replicate 24 7 ++
    List.replicate 8 8
  -- Neither error code is looked at.
  let (_, lencode) ← construct lencode lengths FIXLCODES 0
  let lengths := List.replicate MAXDCODES 5 ++ lengths.drop MAXDCODES
  let (_, distcode) ← construct distcode lengths MAXDCODES 0
  return (lencode, distcode)

def fixed : Puff Unit := do
  let s ← get
  codes s.lencode s.distcode

/-- The order in which the lengths of the code length codes are. -/
def order : List Nat := [16, 17, 18, 0, 8, 7, 9, 6, 10, 5, 11, 4, 12, 3, 13, 2, 14, 1, 15]

def buildDynamicLengths : Puff (List Nat) := do
  let ncode := (← bits 4) + 4
  let lengths ← (List.range ncode).foldlM (fun lengths index => do
    let len ← bits 3
    setAt lengths (← getAt order index) len) (List.replicate MAXCODES 0)
  (List.range' ncode (19 - ncode)).foldlM
    (fun lengths index => do setAt lengths (← getAt order index) 0) lengths

/-- `lengths[index++] = len`, `n` times. -/
def repeatLength (len : Nat) : (n : Nat) → List Nat × Nat → Tx (List Nat × Nat)
  | 0, state => return state
  | n + 1, (lengths, index) => do
    repeatLength len n (← setAt lengths index len, index + 1)

/-- The loop that reads `total` code lengths.  Each iteration reads one at least. -/
def readLengths (lencode : Huffman) (total : Nat) :
    (fuel : Nat) → List Nat × Nat → Puff (List Nat)
  | 0, (lengths, _) => return lengths
  | fuel + 1, (lengths, index) => do
    if index < total then
      let symbol ← decode lencode
      if symbol < 16 then
        readLengths lencode total fuel (← setAt lengths index symbol, index + 1)
      else
        let mut len := 0
        let mut count := 0
        if symbol = 16 then
          if index = 0 then throw .ERR_REPEAT_NO_FIRST_LENGTH
          len ← getAt lengths (index - 1)
          count := 3 + (← bits 2)
        else if symbol = 17 then
          count := 3 + (← bits 3)
        else
          count := 11 + (← bits 7)
        if index + count > total then throw .ERR_REPEAT_MORE
        readLengths lencode total fuel (← repeatLength len count (lengths, index))
    else return lengths

/-- The error of a table is ignored if it has a single code, of length 1. -/
def refuses (err : ErrorCode) (n : Nat) (h : Huffman) : Tx Bool := do
  if err = .ERR_NONE then return false
  else
    return err = .ERR_NOT_TERMINATED ∨ err = .ERR_OUTPUT_EXHAUSTED ∨
      n ≠ (← getAt h.counts 0) + (← getAt h.counts 1)

def buildDynamic : Puff (Huffman × Huffman) := do
  let lencode : Huffman := ⟨List.replicate (MAXBITS + 1) 0, List.replicate MAXLCODES 0⟩
  let distcode : Huffman := ⟨List.replicate (MAXBITS + 1) 0, List.replicate MAXDCODES 0⟩
  let nlen := (← bits 5) + 257
  let ndist := (← bits 5) + 1
  if nlen > MAXLCODES ∨ ndist > MAXDCODES then throw .ERR_TOO_MANY_LENGTH_OR_DISTANCE_CODES
  let lengths ← buildDynamicLengths
  let (err, lencode) ← construct lencode lengths 19 0
  if err ≠ .ERR_NONE then throw .ERR_CODE_LENGTHS_CODES_INCOMPLETE
  let lengths ← readLengths lencode (nlen + ndist) (nlen + ndist) (lengths, 0)
  if (← getAt lengths 256) = 0 then throw .ERR_MISSING_END_OF_BLOCK
  let (err, lencode) ← construct lencode lengths nlen 0
  if (← refuses err nlen lencode) = true then throw .ERR_INVALID_LITERAL_LENGTH_CODE_LENGTHS
  let (err, distcode) ← construct distcode lengths ndist nlen
  if (← refuses err ndist distcode) = true then throw .ERR_INVALID_DISTANCE_CODE_LENGTHS
  return (lencode, distcode)

def dynamic : Puff Unit := do
  let (lencode, distcode) ← buildDynamic
  codes lencode distcode

/-! ## Streams -/

/-- The loop over the blocks.  Each iteration reads three bits at least. -/
def blocks : (fuel : Nat) → Puff Unit
  | 0 => throw .ERR_NOT_TERMINATED
  | fuel + 1 => do
    let last ← bits 1
    let t ← bits 2
    if t = 0 then stored
    else if t = 1 then fixed
    else if t = 2 then dynamic
    else throw .ERR_INVALID_BLOCK_TYPE
    if last = 0 then blocks fuel

/-- How the loop over the blocks ends, and the state then. -/
def inflate (source : Bytes) (destlen : Nat) : Tx (Except ErrorCode Unit × State) := do
  let (lencode, distcode) ← buildFixed
  (blocks (8 * source.length + 1)).run.run
    ⟨List.replicate destlen 0, 0, source, 0, 0, 0, lencode, distcode⟩

def puff (source : Bytes) (destlen : Nat) : Tx (ErrorCode × Bytes) := do
  let (result, s) ← inflate source destlen
  match result with
  | .ok _ => return (.ERR_NONE, s.output)
  | .error err => return (err, s.output)

end Inflate

end Nouns
