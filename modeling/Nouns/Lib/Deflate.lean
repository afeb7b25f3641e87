import Nouns.Lib.CanonicalCode

/-!
# Deflate — compressed streams

The streams of RFC 1951 and the data they stand for, as relations: from the bits before a part of a
stream and the data before it to the bits and the data after it.
-/

open Bits CanonicalCode

namespace Deflate

/-! ## Copies -/

/-- The bits after length symbol `257 + k`. -/
def lengthExtra (k : Nat) : Nat := if k = 28 then 0 else k / 4 - 1

/-- The least length of length symbol `257 + k`. -/
def lengthBase (k : Nat) : Nat :=
  if k = 28 then 258 else if k < 4 then 3 + k else 3 + (4 + k % 4) * 2 ^ (k / 4 - 1)

/-- The bits after a distance symbol. -/
def distanceExtra (j : Nat) : Nat := j / 2 - 1

/-- The least distance of a distance symbol. -/
def distanceBase (j : Nat) : Nat := if j < 2 then 1 + j else 1 + (2 + j % 2) * 2 ^ (j / 2 - 1)

/-- The data with `n` more bytes, each the one `distance` bytes back. -/
def copy (distance : Nat) : (n : Nat) → List UInt8 → List UInt8
  | 0, out => out
  | n + 1, out => copy distance n (out ++ [out.getD (out.length - distance) 0])

/-- Literals and copies up to the end of the block, with these code lengths. -/
inductive Data (lit dist : List Nat) :
    List Bool → List UInt8 → List Bool → List UInt8 → Prop
  | endOfBlock {bits : List Bool} {out : List UInt8} (hend : IsCoded lit 256) :
      Data lit dist (codeword lit 256 ++ bits) out bits out
  | literal {bits bits' : List Bool} {out out' : List UInt8} {b : UInt8}
      (hliteral : IsCoded lit b.toNat) (hrest : Data lit dist bits (out ++ [b]) bits' out') :
      Data lit dist (codeword lit b.toNat ++ bits) out bits' out'
  | copy {bits bits' extra extra' : List Bool} {out out' : List UInt8} {k j : Nat} (hk : k < 29)
      (hlength : IsCoded lit (257 + k)) (hextra : extra.length = lengthExtra k) (hj : j < 30)
      (hdistance : IsCoded dist j) (hextra' : extra'.length = distanceExtra j)
      (hback : distanceBase j + ofBits extra' ≤ out.length)
      (hrest : Data lit dist bits
        (copy (distanceBase j + ofBits extra') (lengthBase k + ofBits extra) out) bits' out') :
      Data lit dist (codeword lit (257 + k) ++ (extra ++ (codeword dist j ++ (extra' ++ bits)))) out
        bits' out'

/-- Literals and copies as in `Data`, with distances in words of any kind. -/
inductive DataBy (lit : List Nat) (word : List Bool → Nat → Prop) :
    List Bool → List UInt8 → List Bool → List UInt8 → Prop
  | endOfBlock {bits : List Bool} {out : List UInt8} (hend : IsCoded lit 256) :
      DataBy lit word (codeword lit 256 ++ bits) out bits out
  | literal {bits bits' : List Bool} {out out' : List UInt8} {b : UInt8}
      (hliteral : IsCoded lit b.toNat) (hrest : DataBy lit word bits (out ++ [b]) bits' out') :
      DataBy lit word (codeword lit b.toNat ++ bits) out bits' out'
  | copy {bits bits' extra w extra' : List Bool} {out out' : List UInt8} {k j : Nat} (hk : k < 29)
      (hlength : IsCoded lit (257 + k)) (hextra : extra.length = lengthExtra k) (hj : j < 30)
      (hdistance : word w j) (hextra' : extra'.length = distanceExtra j)
      (hback : distanceBase j + ofBits extra' ≤ out.length)
      (hrest : DataBy lit word bits
        (copy (distanceBase j + ofBits extra') (lengthBase k + ofBits extra) out) bits' out') :
      DataBy lit word (codeword lit (257 + k) ++ (extra ++ (w ++ (extra' ++ bits)))) out bits' out'

/-- The words of a code. -/
def Codeword (code : List Nat) (w : List Bool) (symbol : Nat) : Prop :=
  IsCoded code symbol ∧ w = codeword code symbol

/-! ## Codes -/

def fixedLit : List Nat :=
  List.replicate 144 8 ++ List.replicate 112 9 ++ List.replicate 24 7 ++ List.replicate 8 8

def fixedDist : List Nat := List.replicate 32 5

/-- The order in which the lengths of the code length code are written. -/
def lengthOrder : List Nat := [16, 17, 18, 0, 8, 7, 9, 6, 10, 5, 11, 4, 12, 3, 13, 2, 14, 1, 15]

/-- Code lengths, written with the code length code `lens`. -/
inductive CodeLengths (lens : List Nat) : List Bool → List Nat → List Bool → List Nat → Prop
  | done {bits : List Bool} {read : List Nat} : CodeLengths lens bits read bits read
  | length {bits bits' : List Bool} {read read' : List Nat} {l : Nat} (hl : l < 16)
      (hcoded : IsCoded lens l) (hrest : CodeLengths lens bits (read ++ [l]) bits' read') :
      CodeLengths lens (codeword lens l ++ bits) read bits' read'
  | again {bits bits' extra : List Bool} {read read' : List Nat} {l : Nat}
      (hlast : read.getLast? = some l) (hcoded : IsCoded lens 16) (hextra : extra.length = 2)
      (hrest : CodeLengths lens bits (read ++ List.replicate (3 + ofBits extra) l) bits' read') :
      CodeLengths lens (codeword lens 16 ++ (extra ++ bits)) read bits' read'
  | zeros {bits bits' extra : List Bool} {read read' : List Nat} (hcoded : IsCoded lens 17)
      (hextra : extra.length = 3)
      (hrest : CodeLengths lens bits (read ++ List.replicate (3 + ofBits extra) 0) bits' read') :
      CodeLengths lens (codeword lens 17 ++ (extra ++ bits)) read bits' read'
  | manyZeros {bits bits' extra : List Bool} {read read' : List Nat} (hcoded : IsCoded lens 18)
      (hextra : extra.length = 7)
      (hrest : CodeLengths lens bits (read ++ List.replicate (11 + ofBits extra) 0) bits' read') :
      CodeLengths lens (codeword lens 18 ++ (extra ++ bits)) read bits' read'

/-- The codes take the whole code space. -/
def Complete (code : List Nat) : Prop := kraft code 15 = 2 ^ 15

/-- There is one code, of one bit. -/
def Single (code : List Nat) : Prop := code.count 1 = 1 ∧ code.count 0 + 1 = code.length

/-- There is no code. -/
def Empty (code : List Nat) : Prop := ∀ symbol, ¬ IsCoded code symbol

/-! ## Blocks -/

/-- A length and its complement, low bytes first. -/
def lengthBytes (len : Nat) : List UInt8 :=
  [.ofNat (len % 256), .ofNat (len / 256), .ofNat (255 - len % 256), .ofNat (255 - len / 256)]

/-- What the codes of a dynamic block are read from, with at most `maxDist` distance code lengths. -/
structure Header (maxDist : Nat) (bits bits' : List Bool) (lit dist : List Nat) : Prop where
  litLength : 257 ≤ lit.length ∧ lit.length ≤ 286
  distLength : 1 ≤ dist.length ∧ dist.length ≤ maxDist
  read : ∃ (lens : List Nat) (ncode : Nat) (rest : List Bool),
    lens.length = 19 ∧ (∀ l ∈ lens, l < 8) ∧ 4 ≤ ncode ∧ ncode ≤ 19 ∧
    (∀ symbol ∈ lengthOrder.drop ncode, ¬ IsCoded lens symbol) ∧ Complete lens ∧
    bits = toBits 5 (lit.length - 257) ++ (toBits 5 (dist.length - 1) ++ (toBits 4 (ncode - 4) ++
      ((lengthOrder.take ncode).flatMap (fun symbol => toBits 3 (lens.getD symbol 0)) ++ rest))) ∧
    CodeLengths lens rest [] bits' (lit ++ dist)
  endOfBlock : IsCoded lit 256
  litCode : Complete lit ∨ Single lit
  distCode : Complete dist ∨ Single dist ∨ Empty dist

/-- A block after its first bit. -/
inductive Block (maxDist : Nat) : List Bool → List UInt8 → List Bool → List UInt8 → Prop
  | stored {pad : List Bool} {data rest out : List UInt8} (hpad : pad.length < 8)
      (hlen : data.length < 2 ^ 16) :
      Block maxDist (false :: false :: (pad ++ bytesBits (lengthBytes data.length ++ data ++ rest)))
        out (bytesBits rest) (out ++ data)
  | fixed {bits bits' : List Bool} {out out' : List UInt8}
      (hdata : Data fixedLit fixedDist bits out bits' out') :
      Block maxDist (true :: false :: bits) out bits' out'
  | dynamic {bits bits' bits'' : List Bool} {out out' : List UInt8} {lit dist : List Nat}
      (hheader : Header maxDist bits bits' lit dist) (hdata : Data lit dist bits' out bits'' out') :
      Block maxDist (false :: true :: bits) out bits'' out'

/-- Blocks up to the last one, which what follows does not matter after. -/
inductive Stream (maxDist : Nat) : List Bool → List UInt8 → List UInt8 → Prop
  | last {bits bits' : List Bool} {out out' : List UInt8}
      (hblock : Block maxDist bits out bits' out') : Stream maxDist (true :: bits) out out'
  | next {bits bits' : List Bool} {out out' out'' : List UInt8}
      (hblock : Block maxDist bits out bits' out') (hrest : Stream maxDist bits' out' out'') :
      Stream maxDist (false :: bits) out out''

/-- The stream decompresses to the data.  By the format there are at most 32 distance code
lengths. -/
def Decompresses (maxDist : Nat) (stream data : List UInt8) : Prop :=
  Stream maxDist (bytesBits stream) [] data

/-! ## Data only grows -/

theorem length_copy (distance n : Nat) (out : List UInt8) :
    (copy distance n out).length = out.length + n := by
  induction n generalizing out with
  | zero => rfl
  | succ n ih =>
    rw [copy, ih, List.length_append, List.length_singleton]
    omega

variable {lit dist : List Nat} {maxDist : Nat} {bits bits' : List Bool} {out out' : List UInt8}

theorem CodeLengths.length_le {lens read read' : List Nat}
    (h : CodeLengths lens bits read bits' read') : read.length ≤ read'.length := by
  induction h with
  | done => exact le_rfl
  | length _ _ _ ih | again _ _ _ _ ih | zeros _ _ _ ih | manyZeros _ _ _ ih =>
    rw [List.length_append] at ih
    omega

theorem data_iff :
    Data lit dist bits out bits' out' ↔ DataBy lit (Codeword dist) bits out bits' out' := by
  constructor
  · intro h
    induction h with
    | endOfBlock hend => exact .endOfBlock hend
    | literal hliteral _ ih => exact .literal hliteral ih
    | copy hk hlength hextra hj hdistance hextra' hback _ ih =>
      exact .copy hk hlength hextra hj ⟨hdistance, rfl⟩ hextra' hback ih
  · intro h
    induction h with
    | endOfBlock hend => exact .endOfBlock hend
    | literal hliteral _ ih => exact .literal hliteral ih
    | copy hk hlength hextra hj hdistance hextra' hback _ ih =>
      obtain ⟨hcoded, rfl⟩ := hdistance
      exact .copy hk hlength hextra hj hcoded hextra' hback ih

theorem DataBy.length_le {word : List Bool → Nat → Prop} (h : DataBy lit word bits out bits' out') :
    out.length ≤ out'.length := by
  induction h with
  | endOfBlock => exact le_rfl
  | literal _ _ ih =>
    rw [List.length_append] at ih
    omega
  | copy _ _ _ _ _ _ _ _ ih =>
    rw [length_copy] at ih
    omega

theorem Data.length_le (h : Data lit dist bits out bits' out') : out.length ≤ out'.length :=
  (data_iff.mp h).length_le

theorem Block.length_le (h : Block maxDist bits out bits' out') : out.length ≤ out'.length := by
  cases h with
  | stored => exact List.length_append.symm ▸ Nat.le_add_right _ _
  | fixed hdata => exact hdata.length_le
  | dynamic _ hdata => exact hdata.length_le

theorem Stream.length_le (h : Stream maxDist bits out out') : out.length ≤ out'.length := by
  induction h with
  | last hblock => exact hblock.length_le
  | next hblock _ ih => exact hblock.length_le.trans ih

/-! ## Bits are read -/

theorem DataBy.bits_le {word : List Bool → Nat → Prop} (h : DataBy lit word bits out bits' out') :
    bits'.length ≤ bits.length := by
  induction h with
  | endOfBlock =>
    rw [List.length_append]
    omega
  | literal _ _ ih =>
    rw [List.length_append]
    omega
  | copy _ _ _ _ _ _ _ _ ih =>
    simp only [List.length_append]
    omega

theorem Data.bits_le (h : Data lit dist bits out bits' out') : bits'.length ≤ bits.length :=
  (data_iff.mp h).bits_le

theorem CodeLengths.bits_le {lens read read' : List Nat}
    (h : CodeLengths lens bits read bits' read') : bits'.length ≤ bits.length := by
  induction h with
  | done => exact le_rfl
  | length _ _ _ ih | again _ _ _ _ ih | zeros _ _ _ ih | manyZeros _ _ _ ih =>
    simp only [List.length_append]
    omega

theorem Header.bits_le (h : Header maxDist bits bits' lit dist) : bits'.length ≤ bits.length := by
  obtain ⟨lens, ncode, rest, -, -, -, -, -, -, rfl, hcodes⟩ := h.read
  have hle := hcodes.bits_le
  simp only [List.length_append]
  omega

theorem Block.bits_lt (h : Block maxDist bits out bits' out') : bits'.length < bits.length := by
  cases h with
  | stored =>
    simp only [bytesBits, List.length_cons, List.length_append, List.flatMap_append]
    omega
  | fixed hdata =>
    have hle := hdata.bits_le
    rw [List.length_cons, List.length_cons]
    omega
  | dynamic hheader hdata =>
    have hle := hdata.bits_le.trans hheader.bits_le
    rw [List.length_cons, List.length_cons]
    omega

end Deflate
