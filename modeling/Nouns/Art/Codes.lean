import Nouns.Art.Tables
import Nouns.Lib.Deflate

/-!
# Codes — compressed data

The loop of `_codes` writes the literals and copies of a block.
-/

open Bits CanonicalCode Deflate

namespace Nouns

namespace Inflate

variable {α β : Type}

/-! ## The tables of lengths and distances -/

theorem getAt_lens : ∀ k < 29, getAt lens k = .ok (lengthBase k) := by
  decide

theorem getAt_lext : ∀ k < 29, getAt lext k = .ok (lengthExtra k) := by
  decide

theorem getAt_dists : ∀ j < 30, getAt dists j = .ok (distanceBase j) := by
  decide

theorem getAt_dext : ∀ j < 30, getAt dext j = .ok (distanceExtra j) := by
  decide

/-! ## Writing -/

/-- The state with another output. -/
def State.written (s : State) (output : Bytes) (outcnt : Nat) : State := { s with output, outcnt }

theorem runs_copyBack {distance n : Nat} {out free : Bytes} {s : State}
    (houtput : s.output = out ++ free) (houtcnt : s.outcnt = out.length) (hpos : 1 ≤ distance)
    (hback : distance ≤ out.length) (hroom : n ≤ free.length) :
    Runs (copyBack distance n) s ()
      (s.written (copy distance n out ++ free.drop n) (out.length + n)) := by
  induction n generalizing out free s with
  | zero =>
    have hsame : s.written (copy distance 0 out ++ free.drop 0) (out.length + 0) = s := by
      rw [copy, List.drop_zero, ← houtput, Nat.add_zero, ← houtcnt]
      rfl
    rw [hsame]
    exact runs_pure () s
  | succ n ih =>
    obtain ⟨z, free, rfl⟩ : ∃ z free', free = z :: free' := by
      cases free with
      | nil => exact absurd hroom (by simp)
      | cons z free => exact ⟨z, free, rfl⟩
    let b := out.getD (out.length - distance) 0
    have hb : getAt s.output (s.outcnt - distance) = .ok b := by
      rw [getAt_eq_ok, houtput, houtcnt, List.getElem?_append_left (by omega)]
      simp only [b, List.getD_eq_getElem?_getD]
      rw [List.getElem?_eq_getElem (by omega), Option.getD_some]
    have hset : setAt s.output s.outcnt b = .ok (out ++ [b] ++ free) := by
      rw [setAt_eq_ok, houtput, houtcnt]
      refine ⟨?_, ?_⟩
      · rw [List.length_append, List.length_cons]
        omega
      · rw [List.set_append_right _ _ le_rfl, Nat.sub_self, List.set_cons_zero, List.append_assoc,
          List.singleton_append]
    let s₁ := s.written (out ++ [b] ++ free) (s.outcnt + 1)
    have hlength : (out ++ [b]).length = out.length + 1 := by
      rw [List.length_append, List.length_singleton]
    have hrest : Runs (copyBack distance n) s₁ ()
        (s₁.written (copy distance n (out ++ [b]) ++ free.drop n) ((out ++ [b]).length + n)) :=
      ih rfl (by rw [hlength, ← houtcnt]; rfl) (by omega) (by simpa using hroom)
    have hwritten : s₁.written (copy distance n (out ++ [b]) ++ free.drop n)
          ((out ++ [b]).length + n) =
        s.written (copy distance (n + 1) out ++ (z :: free).drop (n + 1)) (out.length + (n + 1)) := by
      rw [hlength, List.drop_succ_cons, Nat.add_assoc, Nat.add_comm 1 n]
      rfl
    rw [hwritten] at hrest
    exact (runs_get s).bind ((runs_lift hb s).bind ((runs_lift hset s).bind
      ((runs_set s s₁).bind hrest)))

namespace Setting

variable {c : Setting} {bits bits' : List Bool} {out out' : Bytes}

theorem parses_get {f : State → Puff α} {a : α}
    (h : ∀ s, c.At s bits out → ∃ s', Runs (f s) s a s' ∧ c.At s' bits' out') :
    c.Parses (get >>= f) bits out a bits' out' := by
  intro s hs
  obtain ⟨s', hrun, hs'⟩ := h s hs
  exact ⟨s', (runs_get s).bind hrun, hs'⟩

theorem At.written {s : State} (hs : c.At s bits out) (hroom : out'.length ≤ c.destlen) :
    c.At (s.written (out' ++ List.replicate (c.destlen - out'.length) 0) out'.length) bits out' :=
  ⟨hs.input, hs.lencode, hs.distcode, ⟨hs.ready.buffer, hs.ready.incnt, hs.ready.loaded⟩, hs.bitcnt,
    hs.remaining, rfl, rfl, hroom⟩

/-! ## Symbols -/

/-- The symbols below `bound` are decoded. -/
def Decodes (c : Setting) (code : List Nat) (bound : Nat) (h : Huffman) : Prop :=
  ∀ symbol < bound, IsCoded code symbol → ∀ bits out,
    c.Parses (decode h) (codeword code symbol ++ bits) out symbol bits out

/-- Words for the symbols below `bound` are decoded. -/
def DecodesBy (c : Setting) (word : List Bool → Nat → Prop) (bound : Nat) (h : Huffman) : Prop :=
  ∀ w, ∀ symbol < bound, word w symbol → ∀ bits out, c.Parses (decode h) (w ++ bits) out symbol bits out

theorem Decodes.decodesBy {code : List Nat} {bound : Nat} {h : Huffman} (hh : c.Decodes code bound h) :
    c.DecodesBy (Codeword code) bound h := by
  rintro w symbol hsymbol ⟨hcoded, rfl⟩ bits out
  exact hh symbol hsymbol hcoded bits out

variable {lit : List Nat} {word : List Bool → Nat → Prop} {lencode distcode : Huffman}

theorem parses_end (hlit : c.Decodes lit 286 lencode) (hend : IsCoded lit 256) :
    c.Parses (codesStep lencode distcode) (codeword lit 256 ++ bits) out 256 bits out := by
  rw [codesStep]
  refine (hlit 256 (by decide) hend bits out).bind ?_
  rw [if_neg (by decide), if_neg (by decide)]
  exact parses_pure 256

theorem parses_literal (hlit : c.Decodes lit 286 lencode) {b : UInt8}
    (hliteral : IsCoded lit b.toNat) (hroom : out.length < c.destlen) :
    c.Parses (codesStep lencode distcode) (codeword lit b.toNat ++ bits) out b.toNat bits
      (out ++ [b]) := by
  have hb := b.toNat_lt
  rw [codesStep]
  refine (hlit b.toNat (by omega) hliteral bits out).bind ?_
  rw [if_pos hb]
  refine parses_get fun s hs => ?_
  have hfree : List.replicate (c.destlen - out.length) (0 : UInt8) =
      0 :: List.replicate (c.destlen - (out ++ [b]).length) 0 := by
    rw [← List.replicate_succ, List.length_append, List.length_singleton]
    congr 1
    omega
  have hset : setAt s.output s.outcnt (UInt8.ofNat b.toNat) =
      .ok (out ++ [b] ++ List.replicate (c.destlen - (out ++ [b]).length) 0) := by
    rw [setAt_eq_ok, hs.output, hs.outcnt, UInt8.ofNat_toNat, hfree]
    refine ⟨?_, ?_⟩
    · rw [List.length_append, List.length_cons]
      omega
    · rw [List.set_append_right _ _ le_rfl, Nat.sub_self, List.set_cons_zero, List.append_assoc,
        List.singleton_append]
  have hlength : (out ++ [b]).length = out.length + 1 := by
    rw [List.length_append, List.length_singleton]
  have hnext := hs.written (show (out ++ [b]).length ≤ c.destlen by omega)
  rw [show (out ++ [b]).length = s.outcnt + 1 by rw [hs.outcnt, hlength]] at hset hnext
  refine ⟨_, ?_, hnext⟩
  rw [if_neg (by
    rw [hs.outcnt, hs.output, List.length_append, List.length_replicate]
    omega)]
  exact (runs_lift hset s).bind ((runs_set s _).bind (runs_pure _ _))

theorem parses_copy (hlit : c.Decodes lit 286 lencode) (hdist : c.DecodesBy word 30 distcode)
    {extra w extra' : List Bool} {k j : Nat} (hk : k < 29) (hlength : IsCoded lit (257 + k))
    (hextra : extra.length = lengthExtra k) (hj : j < 30) (hdistance : word w j)
    (hextra' : extra'.length = distanceExtra j)
    (hback : distanceBase j + ofBits extra' ≤ out.length)
    (hroom : out.length + (lengthBase k + ofBits extra) ≤ c.destlen) :
    c.Parses (codesStep lencode distcode)
      (codeword lit (257 + k) ++ (extra ++ (w ++ (extra' ++ bits)))) out j bits
      (copy (distanceBase j + ofBits extra') (lengthBase k + ofBits extra) out) := by
  have hpos : 1 ≤ distanceBase j + ofBits extra' := by
    have : 1 ≤ distanceBase j := by
      unfold distanceBase
      split <;> omega
    omega
  rw [codesStep]
  refine (hlit (257 + k) (by omega) hlength _ out).bind ?_
  rw [if_neg (by omega), if_pos (by omega)]
  dsimp only
  rw [Nat.add_sub_cancel_left, if_neg (by omega)]
  refine (parses_lift (getAt_lext k hk)).bind ((parses_bits hextra).bind ?_)
  refine (parses_lift (getAt_lens k hk)).bind ((hdist w j hj hdistance _ out).bind ?_)
  refine (parses_lift (getAt_dext j hj)).bind ((parses_bits hextra').bind ?_)
  refine (parses_lift (getAt_dists j hj)).bind (parses_get fun s hs => ?_)
  have hfree : lengthBase k + ofBits extra ≤
      (List.replicate (c.destlen - out.length) (0 : UInt8)).length := by
    rw [List.length_replicate]
    omega
  have hcopy := runs_copyBack hs.output hs.outcnt hpos hback hfree
  have hnext := hs.written ((length_copy (distanceBase j + ofBits extra')
    (lengthBase k + ofBits extra) out).trans_le hroom)
  rw [List.drop_replicate, Nat.sub_sub] at hcopy
  rw [length_copy] at hnext
  refine ⟨_, ?_, hnext⟩
  rw [if_neg (by rw [hs.outcnt]; omega), if_neg (by
    rw [hs.outcnt, hs.output, List.length_append, List.length_replicate]
    omega)]
  exact hcopy.bind (runs_pure _ _)

/-! ## The loop -/

theorem codeword_length_pos {code : List Nat} {symbol : Nat} (h : IsCoded code symbol) :
    0 < (codeword code symbol).length := by
  rw [codeword, List.length_reverse, length_toBits]
  exact Nat.pos_of_ne_zero h

/-- The bits that are left pay for the iterations. -/
theorem parses_codesLoop (hlit : c.Decodes lit 286 lencode) (hdist : c.DecodesBy word 30 distcode)
    (hdata : DataBy lit word bits out bits' out') (hroom : out'.length ≤ c.destlen) {fuel : Nat}
    (hfuel : bits.length < fuel) :
    c.Parses (codesLoop lencode distcode fuel) bits out () bits' out' := by
  induction hdata generalizing fuel with
  | endOfBlock hend =>
    obtain ⟨fuel, rfl⟩ : ∃ fuel', fuel = fuel' + 1 := ⟨fuel - 1, by omega⟩
    rw [codesLoop]
    exact (parses_end hlit hend).bind (parses_pure ())
  | @literal bits _ out _ b hliteral hrest ih =>
    obtain ⟨fuel, rfl⟩ : ∃ fuel', fuel = fuel' + 1 := ⟨fuel - 1, by omega⟩
    have hb := b.toNat_lt
    have hle := hrest.length_le
    have hpos := codeword_length_pos hliteral
    rw [List.length_append] at hfuel
    rw [List.length_append, List.length_singleton] at hle
    rw [codesLoop]
    refine (parses_literal hlit hliteral (by omega)).bind ?_
    rw [if_pos (by omega)]
    exact ih hroom (by omega)
  | copy hk hlength hextra hj hdistance hextra' hback hrest ih =>
    obtain ⟨fuel, rfl⟩ : ∃ fuel', fuel = fuel' + 1 := ⟨fuel - 1, by omega⟩
    have hle := hrest.length_le
    have hpos := codeword_length_pos hlength
    simp only [List.length_append] at hfuel
    rw [length_copy] at hle
    rw [codesLoop]
    refine (parses_copy hlit hdist hk hlength hextra hj hdistance hextra' hback (by omega)).bind ?_
    rw [if_pos (by omega)]
    exact ih hroom (by omega)

theorem At.length_le {s : State} (hs : c.At s bits out) : bits.length ≤ 8 * s.input.length := by
  have hincnt := hs.ready.incnt
  have hloaded := hs.ready.loaded
  rw [← hs.remaining, State.remaining, List.length_append, length_toBits, length_bytesBits,
    List.length_drop]
  omega

/-- A block's data is decompressed. -/
theorem parses_codes (hlit : c.Decodes lit 286 lencode) (hdist : c.DecodesBy word 30 distcode)
    (hdata : DataBy lit word bits out bits' out') (hroom : out'.length ≤ c.destlen) :
    c.Parses (codes lencode distcode) bits out () bits' out' :=
  parses_get fun s hs =>
    parses_codesLoop hlit hdist hdata hroom (Nat.lt_succ_of_le hs.length_le) s hs

end Setting

end Inflate

end Nouns
