import Nouns.Art.Inflate
import Nouns.Lib.WordArithmetic

/-!
# Unchecked — the decompressor, operation by operation

`Inflate.sol` with every operation of its `unchecked` blocks and every iteration that it writes out.
The counter of a `for` loop is below its bound when it is incremented.  A `while` loop that would not
end fails.
-/

open WordArithmetic

namespace Nouns

namespace Inflate

/-- The bytes of an array in memory, which has less than `2 ^ 64` of them. -/
abbrev Memory : Type := { bytes : Bytes // bytes.length < 2 ^ 64 }

namespace Unchecked

variable (A : Arithmetic Revert)

/-! ## Bits -/

def loadBits (need : Nat) : (fuel val : Nat) → Puff Nat
  | 0, _ => (throw .panic : Tx Nat)
  | fuel + 1, val => do
    let s ← get
    if s.bitcnt < need then
      if s.incnt = s.input.length then throw .ERR_NOT_TERMINATED
      let byte ← getAt s.input s.incnt
      let val := val ||| (← A.shl byte.toNat s.bitcnt)
      set { s with incnt := ← A.add s.incnt 1, bitcnt := ← A.add s.bitcnt 8 }
      loadBits need fuel val
    else return val

def bits (need : Nat) : Puff Nat := do
  let val ← loadBits A need (need + 1) (← get).bitbuf
  let s ← get
  set { s with bitbuf := val >>> need, bitcnt := ← A.sub s.bitcnt need }
  return val &&& (← A.sub (← A.shl 1 need) 1)

/-! ## Stored blocks -/

def nextByte : Puff Nat := do
  let s ← get
  let byte ← getAt s.input s.incnt
  set { s with incnt := ← A.add s.incnt 1 }
  return byte.toNat

def copyStored : (fuel len : Nat) → Puff Unit
  | 0, _ => (throw .panic : Tx Unit)
  | fuel + 1, len => do
    if len ≠ 0 then
      let len ← A.sub len 1
      let s ← get
      let output ← setAt s.output s.outcnt (← getAt s.input s.incnt)
      set { s with output, outcnt := ← A.add s.outcnt 1, incnt := ← A.add s.incnt 1 }
      copyStored fuel len

def stored : Puff Unit := do
  modify fun s => { s with bitbuf := 0, bitcnt := 0 }
  let s ← get
  if (← A.add s.incnt 4) > s.input.length then throw .ERR_NOT_TERMINATED
  let low ← nextByte A
  let len := low ||| (← A.shl (← nextByte A) 8)
  -- `~len`
  let complement := 2 ^ 256 - 1 - len
  if (← nextByte A) ≠ complement &&& 0xFF then throw .ERR_STORED_LENGTH_NO_MATCH
  if (← nextByte A) ≠ (complement >>> 8) &&& 0xFF then throw .ERR_STORED_LENGTH_NO_MATCH
  let s ← get
  if (← A.add s.incnt len) > s.input.length then throw .ERR_NOT_TERMINATED
  if (← A.add s.outcnt len) > s.output.length then throw .ERR_OUTPUT_EXHAUSTED
  copyStored A (len + 1) len

/-! ## Huffman codes -/

/-- `code`, `first` and `index`. -/
structure Codes where
  code : Nat
  first : Nat
  index : Nat
deriving DecidableEq, Repr

/-- The part of the loop of `_decode` for one length: either it returns a symbol, or the next part
goes on. -/
def decodePart (h : Huffman) (len : Nat) (c : Codes) (next : Codes → Puff Nat) : Puff Nat := do
  let code := c.code ||| (← bits A 1)
  let count ← getAt h.counts len
  if code < (← A.add c.first count) then getAt h.symbols (← A.add c.index (← A.sub code c.first))
  else
    let index ← A.add c.index count
    let first ← A.shl (← A.add c.first count) 1
    next ⟨← A.shl code 1, first, index⟩

/-- The loop of `_decode`. -/
def decodeLoop (h : Huffman) : (fuel len : Nat) → Codes → Puff Nat
  | 0, _, _ => (throw .panic : Tx Nat)
  | fuel + 1, len, c => do
    if len ≤ MAXBITS then
      decodePart A h len c fun c => do
      decodePart A h (← A.add len 1) c fun c => do
      decodePart A h (← A.add len 2) c fun c => do
      decodePart A h (← A.add len 3) c fun c => do
      decodePart A h (← A.add len 4) c fun c => do
      decodeLoop h fuel (← A.add len 5) c
    else throw .ERR_INVALID_LENGTH_OR_DISTANCE_CODE

def decode (h : Huffman) : Puff Nat := decodeLoop A h 4 1 ⟨0, 0, 0⟩

def countLengths (lengths : List Nat) (n start : Nat) : Tx (List Nat) :=
  (List.range n).foldlM (fun counts symbol => do
    let len ← getAt lengths (← A.add start symbol)
    setAt counts len (← A.add (← getAt counts len) 1)) (List.replicate (MAXBITS + 1) 0)

/-- The part of the check for one length: either there are too many codes of it, or the next part
goes on with those that are left. -/
def leftPart (counts : List Nat) (len left : Nat) (next : Nat → Tx (Option Nat)) :
    Tx (Option Nat) := do
  let left ← A.shl left 1
  let count ← getAt counts len
  if left < count then return none
  else next (← A.sub left count)

/-- The check for an over-subscribed or incomplete set of lengths. -/
def codesLeft (counts : List Nat) : (fuel len left : Nat) → Tx (Option Nat)
  | 0, _, _ => throw .panic
  | fuel + 1, len, left => do
    if len ≤ MAXBITS then
      leftPart A counts len left fun left => do
      leftPart A counts (← A.add len 1) left fun left => do
      leftPart A counts (← A.add len 2) left fun left => do
      leftPart A counts (← A.add len 3) left fun left => do
      leftPart A counts (← A.add len 4) left fun left => do
      codesLeft counts fuel (← A.add len 5) left
    else return some left

def offsets (counts : List Nat) : Tx (List Nat) :=
  (List.range' 1 (MAXBITS - 1)).foldlM (fun offs len => do
    let off ← A.add (← getAt offs len) (← getAt counts len)
    setAt offs (← A.add len 1) off) (List.replicate (MAXBITS + 1) 0)

def sortSymbol (lengths : List Nat) (start : Nat) (state : List Nat × List Nat) (symbol : Nat) :
    Tx (List Nat × List Nat) := do
  let len ← getAt lengths (← A.add start symbol)
  if len ≠ 0 then
    let off ← getAt state.1 len
    return (← setAt state.1 len (← A.add off 1), ← setAt state.2 off symbol)
  else return state

def sortSymbols (lengths : List Nat) (n start : Nat) (offs symbols : List Nat) : Tx (List Nat) := do
  let (_, symbols) ← (List.range n).foldlM (sortSymbol A lengths start) (offs, symbols)
  return symbols

def construct (h : Huffman) (lengths : List Nat) (n start : Nat) : Tx (ErrorCode × Huffman) := do
  let counts ← countLengths A lengths n start
  let h := { h with counts }
  if (← getAt counts 0) = n then return (.ERR_NONE, h)
  else
    match ← codesLeft A counts 4 1 1 with
    | none => return (.ERR_CONSTRUCT, h)
    | some left =>
      let symbols ← sortSymbols A lengths n start (← offsets A counts) h.symbols
      return (if left > 0 then .ERR_CONSTRUCT else .ERR_NONE, { h with symbols })

/-! ## Compressed data -/

def copyBack (dist : Nat) : (fuel len : Nat) → Puff Unit
  | 0, _ => (throw .panic : Tx Unit)
  | fuel + 1, len => do
    if len ≠ 0 then
      let len ← A.sub len 1
      let s ← get
      let output ← setAt s.output s.outcnt (← getAt s.output (← A.sub s.outcnt dist))
      set { s with output, outcnt := ← A.add s.outcnt 1 }
      copyBack dist fuel len

/-- An iteration of the loop of `_codes`.  Returns `symbol` and `len` as they are at the end of
it. -/
def codesStep (lencode distcode : Huffman) (len : Nat) : Puff (Nat × Nat) := do
  let symbol ← decode A lencode
  if symbol < 256 then
    let s ← get
    if s.outcnt = s.output.length then throw .ERR_OUTPUT_EXHAUSTED
    let output ← setAt s.output s.outcnt (UInt8.ofNat symbol)
    set { s with output, outcnt := ← A.add s.outcnt 1 }
    return (symbol, len)
  else if symbol > 256 then
    let symbol ← A.sub symbol 257
    if symbol ≥ 29 then throw .ERR_INVALID_LENGTH_OR_DISTANCE_CODE
    let tempBits ← bits A (← getAt lext symbol)
    let len ← A.add (← getAt lens symbol) tempBits
    let symbol ← decode A distcode
    let tempBits ← bits A (← getAt dext symbol)
    let dist ← A.add (← getAt dists symbol) tempBits
    let s ← get
    if dist > s.outcnt then throw .ERR_DISTANCE_TOO_FAR
    if (← A.add s.outcnt len) > s.output.length then throw .ERR_OUTPUT_EXHAUSTED
    copyBack A dist (len + 1) len
    -- The copy counts `len` down to 0.
    return (symbol, 0)
  else
    let s ← get
    set { s with outcnt := ← A.add s.outcnt len }
    return (symbol, len)

def codesLoop (lencode distcode : Huffman) : (fuel len : Nat) → Puff Unit
  | 0, _ => (throw .panic : Tx Unit)
  | fuel + 1, len => do
    let (symbol, len) ← codesStep A lencode distcode len
    if symbol ≠ 256 then codesLoop lencode distcode fuel len

def codes (lencode distcode : Huffman) : Puff Unit := do
  codesLoop A lencode distcode (8 * (← get).input.length + 1) 0

/-! ## Fixed and dynamic blocks -/

def buildFixed : Tx (Huffman × Huffman) := do
  let lencode : Huffman := ⟨List.replicate (MAXBITS + 1) 0, List.replicate FIXLCODES 0⟩
  let distcode : Huffman := ⟨List.replicate (MAXBITS + 1) 0, List.replicate MAXDCODES 0⟩
  let lengths := List.replicate 144 8 ++ List.replicate 112 9 ++ List.replicate 24 7 ++
    List.replicate 8 8
  let (_, lencode) ← construct A lencode lengths FIXLCODES 0
  let lengths := List.replicate MAXDCODES 5 ++ lengths.drop MAXDCODES
  let (_, distcode) ← construct A distcode lengths MAXDCODES 0
  return (lencode, distcode)

def fixed : Puff Unit := do
  let s ← get
  codes A s.lencode s.distcode

def buildDynamicLengths : Puff (List Nat) := do
  let ncode ← A.add (← bits A 4) 4
  let lengths ← (List.range ncode).foldlM (fun lengths index => do
    let len ← bits A 3
    setAt lengths (← getAt order index) len) (List.replicate MAXCODES 0)
  (List.range' ncode (19 - ncode)).foldlM
    (fun lengths index => do setAt lengths (← getAt order index) 0) lengths

def repeatLength (len : Nat) : (fuel symbol : Nat) → List Nat × Nat → Tx (List Nat × Nat)
  | 0, _, _ => throw .panic
  | fuel + 1, symbol, (lengths, index) => do
    if symbol ≠ 0 then
      let symbol ← A.sub symbol 1
      repeatLength len fuel symbol (← setAt lengths index len, ← A.add index 1)
    else return (lengths, index)

/-- The length to repeat and how many times. -/
def readRepeat (lengths : List Nat) (index symbol : Nat) : Puff (Nat × Nat) := do
  if symbol = 16 then
    if index = 0 then throw .ERR_REPEAT_NO_FIRST_LENGTH
    let len ← getAt lengths (← A.sub index 1)
    let tempBits ← bits A 2
    return (len, ← A.add 3 tempBits)
  else if symbol = 17 then
    let tempBits ← bits A 3
    return (0, ← A.add 3 tempBits)
  else
    let tempBits ← bits A 7
    return (0, ← A.add 11 tempBits)

def readLengths (lencode : Huffman) (nlen ndist : Nat) :
    (fuel : Nat) → List Nat × Nat → Puff (List Nat)
  | 0, _ => (throw .panic : Tx (List Nat))
  | fuel + 1, (lengths, index) => do
    if index < (← A.add nlen ndist) then
      let symbol ← decode A lencode
      if symbol < 16 then
        readLengths lencode nlen ndist fuel (← setAt lengths index symbol, ← A.add index 1)
      else
        let (len, symbol) ← readRepeat A lengths index symbol
        if (← A.add index symbol) > (← A.add nlen ndist) then throw .ERR_REPEAT_MORE
        readLengths lencode nlen ndist fuel
          (← repeatLength A len (symbol + 1) symbol (lengths, index))
    else return lengths

def refuses (err : ErrorCode) (n : Nat) (h : Huffman) : Tx Bool := do
  if err = .ERR_NONE then return false
  else
    return err = .ERR_NOT_TERMINATED ∨ err = .ERR_OUTPUT_EXHAUSTED ∨
      n ≠ (← A.add (← getAt h.counts 0) (← getAt h.counts 1))

def buildDynamic : Puff (Huffman × Huffman) := do
  let lencode : Huffman := ⟨List.replicate (MAXBITS + 1) 0, List.replicate MAXLCODES 0⟩
  let distcode : Huffman := ⟨List.replicate (MAXBITS + 1) 0, List.replicate MAXDCODES 0⟩
  let nlen ← A.add (← bits A 5) 257
  let ndist ← A.add (← bits A 5) 1
  if nlen > MAXLCODES ∨ ndist > MAXDCODES then throw .ERR_TOO_MANY_LENGTH_OR_DISTANCE_CODES
  let lengths ← buildDynamicLengths A
  let (err, lencode) ← construct A lencode lengths 19 0
  if err ≠ .ERR_NONE then throw .ERR_CODE_LENGTHS_CODES_INCOMPLETE
  let lengths ← readLengths A lencode nlen ndist (nlen + ndist + 1) (lengths, 0)
  if (← getAt lengths 256) = 0 then throw .ERR_MISSING_END_OF_BLOCK
  let (err, lencode) ← construct A lencode lengths nlen 0
  if (← refuses A err nlen lencode) = true then throw .ERR_INVALID_LITERAL_LENGTH_CODE_LENGTHS
  let (err, distcode) ← construct A distcode lengths ndist nlen
  if (← refuses A err ndist distcode) = true then throw .ERR_INVALID_DISTANCE_CODE_LENGTHS
  return (lencode, distcode)

def dynamic : Puff Unit := do
  let (lencode, distcode) ← buildDynamic A
  codes A lencode distcode

/-! ## Streams -/

def blocks : (fuel : Nat) → Puff Unit
  | 0 => (throw .panic : Tx Unit)
  | fuel + 1 => do
    let last ← bits A 1
    let t ← bits A 2
    if t = 0 then stored A
    else if t = 1 then fixed A
    else if t = 2 then dynamic A
    else throw .ERR_INVALID_BLOCK_TYPE
    if last = 0 then blocks fuel

/-- `new bytes(destlen)` fails where no such memory can be allocated. -/
def inflate (source : Bytes) (destlen : Nat) : Tx (Except ErrorCode Unit × State) := do
  if destlen ≥ 2 ^ 64 then throw .panic
  let (lencode, distcode) ← buildFixed A
  (blocks A (8 * source.length + 1)).run.run
    ⟨List.replicate destlen 0, 0, source, 0, 0, 0, lencode, distcode⟩

end Unchecked

end Inflate

end Nouns
