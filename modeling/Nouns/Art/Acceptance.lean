import Nouns.Lib.Deflate

/-!
# Acceptance — the streams that are taken

Beside the streams of the format these are streams with dynamic blocks that give one bit to three
distance codes or more.  The table of such codes is never filled, and each bit is read as the first
distance.
-/

open Bits CanonicalCode Deflate

namespace Nouns

namespace Inflate

/-- There are three codes or more, and none is longer than one bit. -/
def Crowded (code : List Nat) : Prop :=
  3 ≤ code.count 1 ∧ code.count 0 + code.count 1 = code.length

/-- Any bit stands for symbol 0. -/
def OneBit (w : List Bool) (symbol : Nat) : Prop := w.length = 1 ∧ symbol = 0

/-- What the codes of a dynamic block are read from, whatever the distance codes are. -/
structure Descriptor (bits bits' : List Bool) (lit dist : List Nat) : Prop where
  litLength : 257 ≤ lit.length ∧ lit.length ≤ 286
  distLength : 1 ≤ dist.length ∧ dist.length ≤ 30
  read : ∃ (lens : List Nat) (ncode : Nat) (rest : List Bool),
    lens.length = 19 ∧ (∀ l ∈ lens, l < 8) ∧ 4 ≤ ncode ∧ ncode ≤ 19 ∧
    (∀ symbol ∈ lengthOrder.drop ncode, ¬ IsCoded lens symbol) ∧ Complete lens ∧
    bits = toBits 5 (lit.length - 257) ++ (toBits 5 (dist.length - 1) ++ (toBits 4 (ncode - 4) ++
      ((lengthOrder.take ncode).flatMap (fun symbol => toBits 3 (lens.getD symbol 0)) ++ rest))) ∧
    CodeLengths lens rest [] bits' (lit ++ dist)
  endOfBlock : IsCoded lit 256
  litCode : Complete lit ∨ Single lit

/-- A block after its first bit, and whether its distance codes are crowded. -/
inductive AcceptedBlock : Bool → List Bool → List UInt8 → List Bool → List UInt8 → Prop
  | valid {bits bits' : List Bool} {out out' : List UInt8} (hblock : Block 30 bits out bits' out') :
      AcceptedBlock false bits out bits' out'
  | crowded {bits bits' bits'' : List Bool} {out out' : List UInt8} {lit dist : List Nat}
      (hdescriptor : Descriptor bits bits' lit dist) (hcrowded : Crowded dist)
      (hdata : DataBy lit OneBit bits' out bits'' out') :
      AcceptedBlock true (false :: true :: bits) out bits'' out'

/-- Blocks up to the last one, and whether one of them has crowded distance codes. -/
inductive AcceptedStream : Bool → List Bool → List UInt8 → List UInt8 → Prop
  | last {crowded : Bool} {bits bits' : List Bool} {out out' : List UInt8}
      (hblock : AcceptedBlock crowded bits out bits' out') :
      AcceptedStream crowded (true :: bits) out out'
  | next {crowded crowded' : Bool} {bits bits' : List Bool} {out out' out'' : List UInt8}
      (hblock : AcceptedBlock crowded bits out bits' out')
      (hrest : AcceptedStream crowded' bits' out' out'') :
      AcceptedStream (crowded || crowded') (false :: bits) out out''

variable {crowded : Bool} {bits bits' : List Bool} {out out' : List UInt8} {lit dist : List Nat}

theorem header_iff : Header 30 bits bits' lit dist ↔
    Descriptor bits bits' lit dist ∧ (Complete dist ∨ Single dist ∨ Empty dist) := by
  constructor
  · intro h
    exact ⟨⟨h.litLength, h.distLength, h.read, h.endOfBlock, h.litCode⟩, h.distCode⟩
  · rintro ⟨h, hdist⟩
    exact ⟨h.litLength, h.distLength, h.read, h.endOfBlock, h.litCode, hdist⟩

/-- Without crowded distance codes these are the streams of the format. -/
theorem acceptedStream_false : AcceptedStream false bits out out' ↔ Stream 30 bits out out' := by
  constructor
  · intro h
    generalize hcrowded : false = crowded at h
    induction h with
    | last hblock =>
      subst hcrowded
      cases hblock with
      | valid hblock => exact .last hblock
    | @next crowded crowded' _ _ _ _ _ hblock hrest ih =>
      obtain ⟨rfl, rfl⟩ := Bool.or_eq_false_iff.mp hcrowded.symm
      cases hblock with
      | valid hblock => exact .next hblock (ih rfl)
  · intro h
    induction h with
    | last hblock => exact .last (.valid hblock)
    | next hblock _ ih => exact .next (.valid hblock) ih

theorem Descriptor.bits_le (h : Descriptor bits bits' lit dist) : bits'.length ≤ bits.length := by
  obtain ⟨lens, ncode, rest, -, -, -, -, -, -, rfl, hcodes⟩ := h.read
  have hle := hcodes.bits_le
  simp only [List.length_append]
  omega

theorem AcceptedBlock.length_le (h : AcceptedBlock crowded bits out bits' out') :
    out.length ≤ out'.length := by
  cases h with
  | valid hblock => exact hblock.length_le
  | crowded _ _ hdata => exact hdata.length_le

theorem AcceptedBlock.bits_lt (h : AcceptedBlock crowded bits out bits' out') :
    bits'.length < bits.length := by
  cases h with
  | valid hblock => exact hblock.bits_lt
  | crowded hdescriptor _ hdata =>
    have hle := hdata.bits_le.trans hdescriptor.bits_le
    rw [List.length_cons, List.length_cons]
    omega

theorem AcceptedStream.length_le (h : AcceptedStream crowded bits out out') :
    out.length ≤ out'.length := by
  induction h with
  | last hblock => exact hblock.length_le
  | next hblock _ ih => exact hblock.length_le.trans ih

end Inflate

end Nouns
