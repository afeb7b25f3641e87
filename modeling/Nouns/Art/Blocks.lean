import Nouns.Art.Acceptance
import Nouns.Art.CodeLengths
import Nouns.Art.StoredBlocks

/-!
# Blocks — streams of blocks

The tables of fixed and dynamic blocks are made, and the blocks are read up to the last one.
-/

open Bits CanonicalCode Deflate

namespace Nouns

namespace Inflate

/-- The table of a code decodes its symbols. -/
theorem TableOf.decodes {code : List Nat} {h : Huffman} (hh : TableOf code h)
    (hkraft : kraft code MAXBITS ≤ 2 ^ MAXBITS) (hmax : ∀ l ∈ code, l ≤ MAXBITS) (c : Setting)
    (bound : Nat) : c.Decodes code bound h :=
  fun _ _ hcoded _ _ => parses_decode hh hkraft hmax hcoded

/-! ## Fixed codes -/

theorem kraft_replicate (n l max : Nat) :
    kraft (List.replicate n l) max = n * if l = 0 then 0 else 2 ^ (max - l) := by
  rw [kraft, List.map_replicate, List.sum_replicate_nat]

theorem kraft_append (code code' : List Nat) (max : Nat) :
    kraft (code ++ code') max = kraft code max + kraft code' max := by
  rw [kraft, List.map_append, List.sum_append]
  rfl

theorem length_fixedLit : fixedLit.length = FIXLCODES := by
  simp only [fixedLit, List.length_append, List.length_replicate]
  rfl

theorem kraft_fixedLit : kraft fixedLit MAXBITS = 2 ^ MAXBITS := by
  simp only [fixedLit, kraft_append, kraft_replicate]
  decide

theorem kraft_fixedDist : kraft (List.replicate MAXDCODES 5) MAXBITS ≤ 2 ^ MAXBITS := by
  rw [kraft_replicate]
  decide

/-- The last two of the fixed distance codes are never written, and the others do not depend on
them. -/
theorem codeword_fixedDist {symbol : Nat} (h : symbol < MAXDCODES) :
    codeword fixedDist symbol = codeword (List.replicate MAXDCODES 5) symbol := by
  have hmany : ∀ symbol < MAXDCODES,
      codeword (List.replicate 32 5) symbol = codeword (List.replicate MAXDCODES 5) symbol := by
    decide
  exact hmany symbol h

theorem isCoded_fixedDist {symbol : Nat} (h : symbol < MAXDCODES) :
    IsCoded (List.replicate MAXDCODES 5) symbol := by
  rw [IsCoded, List.getD_eq_getElem?_getD, List.getElem?_replicate, if_pos h]
  decide

theorem fixedLit_le : ∀ l ∈ fixedLit, l ≤ MAXBITS := by
  intro l hl
  simp only [fixedLit, List.mem_append, List.mem_replicate] at hl
  change l ≤ 15
  omega

theorem fixedDist_le :
    ∀ l ∈ List.replicate MAXDCODES 5 ++ fixedLit.drop MAXDCODES, l ≤ MAXBITS := by
  intro l hl
  rcases List.mem_append.mp hl with h | h
  · rw [List.eq_of_mem_replicate h]
    decide
  · exact fixedLit_le l (List.mem_of_mem_drop h)

theorem buildFixed_ok : ∃ lencode distcode, buildFixed = .ok (lencode, distcode) ∧
    TableOf fixedLit lencode ∧ TableOf (List.replicate MAXDCODES 5) distcode := by
  have hlit : slice fixedLit 0 FIXLCODES = fixedLit := by
    rw [slice, List.drop_zero]
    exact List.take_of_length_le length_fixedLit.le
  have hdist : slice (List.replicate MAXDCODES 5 ++ fixedLit.drop MAXDCODES) 0 MAXDCODES =
      List.replicate MAXDCODES 5 := by
    rw [slice, List.drop_zero, List.take_left' List.length_replicate]
  obtain ⟨err, lencode, hconstruct, htable, -⟩ :=
    @construct_ok fixedLit 0 FIXLCODES length_fixedLit.ge fixedLit_le (by rw [hlit, kraft_fixedLit])
      ⟨List.replicate (MAXBITS + 1) 0, List.replicate FIXLCODES 0⟩ List.length_replicate.ge
  obtain ⟨err', distcode, hconstruct', htable', -⟩ :=
    @construct_ok _ 0 MAXDCODES (by rw [List.length_append, List.length_replicate]; omega) fixedDist_le
      (by rw [hdist]; exact kraft_fixedDist)
      ⟨List.replicate (MAXBITS + 1) 0, List.replicate MAXDCODES 0⟩ List.length_replicate.ge
  rw [hlit] at htable
  rw [hdist] at htable'
  refine ⟨lencode, distcode, ?_, htable, htable'⟩
  exact Fallible.bind_eq_ok.mpr ⟨_, hconstruct, Fallible.bind_eq_ok.mpr ⟨_, hconstruct', rfl⟩⟩

/-! ## Dynamic codes -/

/-- The codes that a block may have. -/
def Allowed (code : List Nat) : Prop := Complete code ∨ Single code ∨ Empty code

/-- If all codes have one bit, so has the code space two parts. -/
theorem kraft_of_single (code : List Nat) (max : Nat) :
    code.count 1 + code.count 0 ≤ code.length ∧
      (code.count 1 + code.count 0 = code.length →
        kraft code max = code.count 1 * 2 ^ (max - 1)) := by
  induction code with
  | nil => exact ⟨le_rfl, fun _ => by simp [kraft]⟩
  | cons l code ih =>
    have hkraft : kraft (l :: code) max = (if l = 0 then 0 else 2 ^ (max - l)) + kraft code max := by
      rw [kraft, List.map_cons, List.sum_cons]
      rfl
    obtain ⟨hle, heq⟩ := ih
    rw [List.count_cons, List.count_cons, List.length_cons, hkraft]
    simp only [beq_iff_eq]
    by_cases hzero : l = 0
    · subst hzero
      simp only [if_true, Nat.zero_ne_one, if_false, Nat.add_zero, Nat.zero_add]
      exact ⟨by omega, fun h => heq (by omega)⟩
    · by_cases hone : l = 1
      · subst hone
        simp only [if_true, Nat.one_ne_zero, if_false, Nat.add_zero]
        refine ⟨by omega, fun h => ?_⟩
        rw [heq (by omega)]
        ring
      · simp only [hzero, hone, if_false, Nat.add_zero]
        exact ⟨by omega, fun h => by omega⟩

theorem kraft_of_empty {code : List Nat} (h : Empty code) (max : Nat) : kraft code max = 0 := by
  have hzero := count_zero_eq_length.mpr h
  have hsingle := kraft_of_single code max
  rw [hsingle.2 (by omega), show code.count 1 = 0 by omega, Nat.zero_mul]

theorem Allowed.kraft_le {code : List Nat} (h : Allowed code) :
    kraft code MAXBITS ≤ 2 ^ MAXBITS := by
  rcases h with hcomplete | hsingle | hempty
  · exact hcomplete.le
  · rw [(kraft_of_single code MAXBITS).2 (by have := hsingle.1; have := hsingle.2; omega), hsingle.1]
    decide
  · rw [kraft_of_empty hempty]
    exact Nat.zero_le _

theorem Crowded.lt_kraft {code : List Nat} (h : Crowded code) :
    2 ^ MAXBITS < kraft code MAXBITS := by
  have hcodes := h.1
  rw [(kraft_of_single code MAXBITS).2 ((Nat.add_comm _ _).trans h.2)]
  change 2 ^ 15 < code.count 1 * 2 ^ 14
  omega

theorem Allowed.not_crowded {code : List Nat} (h : Allowed code) : ¬ Crowded code :=
  fun hcrowded => Nat.not_lt.mpr h.kraft_le hcrowded.lt_kraft

/-- An error of `construct` is ignored if no code is longer than one bit. -/
theorem refuses_of_counts {code : List Nat} {h : Huffman} (hcounts : Counts h.counts code)
    {err : ErrorCode} (herr : err = .ERR_NONE ∨ err = .ERR_CONSTRUCT) :
    refuses err code.length h =
      .ok (decide (err ≠ .ERR_NONE ∧ code.count 0 + code.count 1 ≠ code.length)) := by
  rw [refuses]
  rcases herr with rfl | rfl
  · rfl
  · have hzero := getAt_eq_ok.mpr (hcounts.count 0 (Nat.zero_le _))
    have hone := getAt_eq_ok.mpr (hcounts.count 1 (by decide))
    rw [if_neg (by decide), hzero, hone]
    refine congrArg Except.ok (decide_eq_decide.mpr ?_)
    simp only [reduceCtorEq, false_or, ne_eq, not_false_eq_true, true_and, eq_comm]

/-- The table is in order, or it has crowded codes and is not filled, or it is refused. -/
theorem construct_accepts {lengths code : List Nat} {start : Nat}
    (hslice : slice lengths start code.length = code)
    (hlength : start + code.length ≤ lengths.length) (hmax : ∀ l ∈ lengths, l ≤ MAXBITS)
    {h : Huffman} (hroom : code.length ≤ h.symbols.length) :
    ∃ err h', construct h lengths code.length start = .ok (err, h') ∧ Counts h'.counts code ∧
      (refuses err code.length h' = .ok false ∧ Allowed code ∧ TableOf code h' ∨
        refuses err code.length h' = .ok false ∧ Crowded code ∧ h'.symbols = h.symbols ∨
        refuses err code.length h' = .ok true ∧ ¬ Allowed code ∧ ¬ Crowded code) := by
  obtain ⟨err, h', hconstruct, hcounts, -, hcases⟩ := construct_cases hlength hmax hroom
  rw [hslice] at hcounts hcases
  have hfew := (kraft_of_single code MAXBITS).2
  rw [Nat.add_comm] at hfew
  refine ⟨err, h', hconstruct, hcounts, ?_⟩
  rcases hcases with ⟨hempty, rfl, -⟩ | ⟨hover, rfl, hsame⟩ | ⟨hfits, ⟨symbol, hcoded⟩, rfl, htable⟩
  · exact .inl ⟨rfl, .inr (.inr hempty), hcounts, fun symbol hcoded => absurd hcoded (hempty symbol)⟩
  · rw [refuses_of_counts hcounts (.inr rfl)]
    have hnot : ¬ Allowed code := fun hallowed => Nat.not_lt.mpr hallowed.kraft_le hover
    by_cases hshort : code.count 0 + code.count 1 = code.length
    · -- Two codes of one bit would fit.
      rw [hfew hshort] at hover
      change 2 ^ 15 < code.count 1 * 2 ^ 14 at hover
      refine .inr (.inl ⟨?_, ⟨by omega, hshort⟩, hsame⟩)
      rw [decide_eq_false (fun hlong => hlong.2 hshort)]
    · refine .inr (.inr ⟨?_, hnot, fun hcrowded => hshort hcrowded.2⟩)
      rw [decide_eq_true ⟨by decide, hshort⟩]
  · by_cases hcomplete : kraft code MAXBITS = 2 ^ MAXBITS
    · rw [if_pos hcomplete]
      exact .inl ⟨rfl, .inl hcomplete, htable⟩
    · rw [if_neg hcomplete, refuses_of_counts hcounts (.inr rfl)]
      have hsome : ¬ Empty code := fun hempty => hempty symbol hcoded
      by_cases hshort : code.count 0 + code.count 1 = code.length
      · rw [hfew hshort] at hfits hcomplete
        change code.count 1 * 2 ^ 14 ≤ 2 ^ 15 at hfits
        change ¬ code.count 1 * 2 ^ 14 = 2 ^ 15 at hcomplete
        have hpos : code.count 0 ≠ code.length := fun hall => hsome (count_zero_eq_length.mp hall)
        refine .inl ⟨?_, .inr (.inl ⟨by omega, by omega⟩), htable⟩
        rw [decide_eq_false (fun hlong => hlong.2 hshort)]
      · refine .inr (.inr ⟨?_, ?_, fun hcrowded => hshort hcrowded.2⟩)
        · rw [decide_eq_true ⟨by decide, hshort⟩]
        · rintro (hfull | hsingle | hempty)
          · exact hcomplete hfull
          · have := hsingle.1
            have := hsingle.2
            omega
          · exact hsome hempty

/-- The distance table of a block that is taken. -/
inductive DistanceTable (dist : List Nat) (h : Huffman) : Prop
  | filled (hallowed : Allowed dist) (htable : TableOf dist h)
  | unfilled (hcrowded : Crowded dist) (hcounts : Counts h.counts dist)
      (hsymbols : h.symbols = List.replicate MAXDCODES 0)

theorem DistanceTable.counts {dist : List Nat} {h : Huffman} (hh : DistanceTable dist h) :
    Counts h.counts dist := by
  cases hh with
  | filled _ htable => exact htable.counts
  | unfilled _ hcounts _ => exact hcounts

/-- In a crowded table the next bit is enough. -/
theorem decodesBy_oneBit {dist : List Nat} {h : Huffman} (hh : DistanceTable dist h)
    (hcrowded : Crowded dist) (c : Setting) (bound : Nat) : c.DecodesBy OneBit bound h := by
  rintro w symbol - ⟨hw, rfl⟩ bits out
  obtain ⟨b, rfl⟩ := List.length_eq_one_iff.mp hw
  cases hh with
  | filled hallowed _ => exact absurd hcrowded hallowed.not_crowded
  | unfilled _ hcounts hsymbols =>
    have hb : ofBits [b] < 2 := ofBits_lt [b]
    have hcodes := hcrowded.1
    have hzero : getAt h.symbols (0 + (ofBits [b] - 0)) = .ok 0 := by
      rw [getAt_eq_ok, hsymbols, List.getElem?_replicate, if_pos]
      change 0 + (ofBits [b] - 0) < 30
      omega
    refine (Setting.parses_bit b).bind ?_
    dsimp only
    refine (Setting.parses_lift (getAt_eq_ok.mpr (hcounts.count 1 (by decide)))).bind ?_
    rw [Nat.zero_or, if_pos (by omega)]
    exact Setting.parses_lift hzero

section

variable {lit dist lengths : List Nat} (h : ReadTo (lit ++ dist) lengths)

include h

theorem ReadTo.slice_left : slice lengths 0 lit.length = lit := by
  have htake := congrArg (List.take lit.length) h.taken
  rw [List.take_take, List.length_append, Nat.min_eq_left (Nat.le_add_right _ _),
    List.take_left] at htake
  rw [slice, List.drop_zero, htake]

theorem ReadTo.slice_right : slice lengths lit.length dist.length = dist := by
  have hdrop := congrArg (List.drop lit.length) h.taken
  rw [List.drop_take, List.length_append, Nat.add_sub_cancel_left, List.drop_left] at hdrop
  exact hdrop

theorem ReadTo.length_le : (lit ++ dist).length ≤ lengths.length := by
  have htake := congrArg List.length h.taken
  rw [List.length_take] at htake
  omega

theorem ReadTo.getAt_lit {symbol : Nat} (hcoded : IsCoded lit symbol) :
    getAt lengths symbol = .ok (lit.getD symbol 0) := by
  have hget : (lit ++ dist)[symbol]? = some (lit.getD symbol 0) := by
    rw [List.getElem?_append_left hcoded.lt_length]
    exact getElem?_of_isCoded hcoded
  have hlt := (List.getElem?_eq_some_iff.mp hget).1
  rw [← h.taken, List.getElem?_take_of_lt hlt] at hget
  exact getAt_eq_ok.mpr hget

end

namespace Setting

variable {c : Setting} {bits bits' bits'' : List Bool} {out out' out'' : Bytes}

theorem parses_buildDynamic {lit dist : List Nat} (h : Descriptor bits bits' lit dist)
    (hdist : Allowed dist ∨ Crowded dist) :
    ∃ lencode distcode, c.Decodes lit 286 lencode ∧ DistanceTable dist distcode ∧
      (∀ l ∈ dist, l ≤ MAXBITS) ∧
      c.Parses buildDynamic bits out (lencode, distcode) bits' out := by
  obtain ⟨hlit, hlit'⟩ := h.litLength
  obtain ⟨hdist₁, hdist₂⟩ := h.distLength
  have hlitCode : Allowed lit := h.litCode.imp_right Or.inl
  have hend := h.endOfBlock
  obtain ⟨lens, ncode, rest, hlength, hlens, hncode, hncode', hzero, hcomplete, rfl, hcodes⟩ := h.read
  -- The code length code.
  obtain ⟨lengths, hfilled, hlengths⟩ := @parses_buildDynamicLengths c rest out lens ncode hlens
    ⟨hncode, hncode'⟩ hzero
  have hmax := hfilled.le (getD_lt hlens (by decide))
  have hslice := hfilled.slice_eq hlength
  obtain ⟨err₁, table₁, hconstruct₁, htable₁, hsize₁, -, hnone₁⟩ :=
    @construct_ok lengths 0 19 (by rw [hfilled.length]; decide) hmax (by rw [hslice]; exact hcomplete.le)
      ⟨List.replicate (MAXBITS + 1) 0, List.replicate MAXLCODES 0⟩
      (by rw [List.length_replicate]; decide)
  rw [hslice] at htable₁ hnone₁
  obtain rfl : err₁ = .ERR_NONE := hnone₁.mpr (Or.inl hcomplete)
  have hdecodes₁ := htable₁.decodes hcomplete.le
    (fun l hl => hmax l (List.mem_of_mem_take (hslice ▸ hl))) c 19
  -- The other two codes.
  have htotal : (lit ++ dist).length = lit.length + dist.length := List.length_append
  obtain ⟨lengths', hread, hparses⟩ := @parses_readLengths c rest bits' out lens [] _ lengths table₁
    hdecodes₁ hcodes _ htotal (show _ ≤ 286 + 30 by omega) _ (Nat.le_add_left _ 0)
    ⟨hfilled.length, rfl, hmax⟩
  have hle := hread.length_le
  obtain ⟨err₂, table₂, hconstruct₂, -, hcases₂⟩ :=
    @construct_accepts lengths' lit 0 hread.slice_left (by omega) hread.max table₁
      (hlit'.trans_eq (hsize₁.trans List.length_replicate).symm)
  obtain ⟨haccepts₂, htable₂⟩ :
      refuses err₂ lit.length table₂ = .ok false ∧ TableOf lit table₂ := by
    rcases hcases₂ with ⟨haccepts, -, htable⟩ | ⟨-, hcrowded, -⟩ | ⟨-, hnot, -⟩
    · exact ⟨haccepts, htable⟩
    · exact absurd hcrowded hlitCode.not_crowded
    · exact absurd hlitCode hnot
  obtain ⟨err₃, table₃, hconstruct₃, hcounts₃, hcases₃⟩ :=
    @construct_accepts lengths' dist lit.length hread.slice_right (by omega) hread.max
      ⟨List.replicate (MAXBITS + 1) 0, List.replicate MAXDCODES 0⟩
      (by rw [List.length_replicate]; exact hdist₂)
  obtain ⟨haccepts₃, htable₃⟩ :
      refuses err₃ dist.length table₃ = .ok false ∧ DistanceTable dist table₃ := by
    rcases hcases₃ with ⟨haccepts, hallowed, htable⟩ | ⟨haccepts, hcrowded, hsame⟩ | ⟨-, hnot, hnot'⟩
    · exact ⟨haccepts, .filled hallowed htable⟩
    · exact ⟨haccepts, .unfilled hcrowded hcounts₃ hsame⟩
    · exact absurd hdist (not_or.mpr ⟨hnot, hnot'⟩)
  have hmaxAll : ∀ l ∈ lit ++ dist, l ≤ MAXBITS := fun l hl =>
    hread.max l (List.mem_of_mem_take (hread.taken.symm ▸ hl))
  refine ⟨table₂, table₃,
    htable₂.decodes hlitCode.kraft_le (fun l hl => hmaxAll l (List.mem_append_left _ hl)) c 286,
    htable₃, fun l hl => hmaxAll l (List.mem_append_right _ hl), ?_⟩
  have hfew : ¬ (lit.length > MAXLCODES ∨ dist.length > MAXDCODES) :=
    not_or.mpr ⟨Nat.not_lt.mpr hlit', Nat.not_lt.mpr hdist₂⟩
  rw [buildDynamic]
  dsimp only
  refine (parses_number (by omega)).bind ((parses_number (by omega)).bind ?_)
  rw [Nat.sub_add_cancel hlit, Nat.sub_add_cancel hdist₁, if_neg hfew]
  refine hlengths.bind ((parses_lift hconstruct₁).bind ?_)
  dsimp only
  rw [if_neg (not_not.mpr rfl)]
  refine hparses.bind ((parses_lift (hread.getAt_lit hend)).bind ?_)
  rw [if_neg hend]
  refine (parses_lift hconstruct₂).bind ((parses_lift haccepts₂).bind ?_)
  rw [if_neg Bool.false_ne_true]
  refine (parses_lift hconstruct₃).bind ((parses_lift haccepts₃).bind ?_)
  rw [if_neg Bool.false_ne_true]
  exact parses_pure _

/-! ## Streams -/

/-- The tables that fixed blocks are read with. -/
structure FixedTables (c : Setting) : Prop where
  lit : TableOf fixedLit c.lencode
  dist : TableOf (List.replicate MAXDCODES 5) c.distcode

theorem FixedTables.decodesLit (hc : FixedTables c) : c.Decodes fixedLit 286 c.lencode :=
  hc.lit.decodes kraft_fixedLit.le fixedLit_le c 286

theorem FixedTables.decodesDist (hc : FixedTables c) : c.DecodesBy (Codeword fixedDist) 30 c.distcode := by
  rintro w symbol hsymbol ⟨hcoded, rfl⟩ bits out
  rw [codeword_fixedDist hsymbol]
  exact hc.dist.decodes kraft_fixedDist (fun l hl => fixedDist_le l (List.mem_append_left _ hl)) c 30
    symbol hsymbol (isCoded_fixedDist hsymbol) bits out

/-- The words that stand for the distances of a block. -/
def DistanceWords (dist : List Nat) (word : List Bool → Nat → Prop) : Prop :=
  Allowed dist ∧ word = Codeword dist ∨ Crowded dist ∧ word = OneBit

theorem parses_dynamic {lit dist : List Nat} {word : List Bool → Nat → Prop}
    (h : Descriptor bits bits' lit dist) (hword : DistanceWords dist word)
    (hdata : DataBy lit word bits' out bits'' out') (hroom : out'.length ≤ c.destlen) :
    c.Parses dynamic bits out () bits'' out' := by
  obtain ⟨lencode, distcode, hlit, htable, hmax, hparses⟩ :=
    parses_buildDynamic h (hword.imp And.left And.left)
  refine hparses.bind (parses_codes hlit ?_ hdata hroom)
  rcases hword with ⟨hallowed, rfl⟩ | ⟨hcrowded, rfl⟩
  · cases htable with
    | filled _ htable => exact (htable.decodes hallowed.kraft_le hmax c 30).decodesBy
    | unfilled hcrowded _ _ => exact absurd hcrowded hallowed.not_crowded
  · exact decodesBy_oneBit htable hcrowded c 30

/-- A block by its type, and what follows it. -/
theorem parses_block (hc : FixedTables c) {crowded : Bool}
    (hblock : AcceptedBlock crowded bits out bits' out') (hroom : out'.length ≤ c.destlen)
    {next : Puff Unit} (hnext : c.Parses next bits' out' () bits'' out'') :
    c.Parses (do
        let t ← Inflate.bits 2
        if t = 0 then stored
        else if t = 1 then fixed
        else if t = 2 then dynamic
        else throw .ERR_INVALID_BLOCK_TYPE
        next) bits out () bits'' out'' := by
  cases hblock with
  | valid hblock =>
    cases hblock with
    | stored hpad hlen =>
      refine (parses_bits (show [false, false].length = 2 from rfl)).bind ?_
      rw [List.length_append] at hroom
      exact (parses_stored hpad hlen hroom).bind hnext
    | fixed hdata =>
      refine (parses_bits (show [true, false].length = 2 from rfl)).bind ?_
      have hfixed : c.Parses fixed _ out () bits' out' := parses_get fun s hs => by
        rw [hs.lencode, hs.distcode]
        exact parses_codes hc.decodesLit hc.decodesDist (data_iff.mp hdata) hroom s hs
      exact hfixed.bind hnext
    | dynamic hheader hdata =>
      obtain ⟨hdescriptor, hdist⟩ := header_iff.mp hheader
      refine (parses_bits (show [false, true].length = 2 from rfl)).bind ?_
      exact (parses_dynamic hdescriptor (.inl ⟨hdist, rfl⟩) (data_iff.mp hdata) hroom).bind hnext
  | crowded hdescriptor hcrowded hdata =>
    refine (parses_bits (show [false, true].length = 2 from rfl)).bind ?_
    exact (parses_dynamic hdescriptor (.inr ⟨hcrowded, rfl⟩) hdata hroom).bind hnext

/-- The bits that are left pay for the blocks. -/
theorem parses_blocks (hc : FixedTables c) {crowded : Bool}
    (hstream : AcceptedStream crowded bits out out') (hroom : out'.length ≤ c.destlen) {fuel : Nat}
    (hfuel : bits.length < fuel) :
    ∃ bits', c.Parses (blocks fuel) bits out () bits' out' := by
  induction hstream generalizing fuel with
  | @last _ _ bits' _ _ hblock =>
    obtain ⟨fuel, rfl⟩ : ∃ fuel', fuel = fuel' + 1 := ⟨fuel - 1, by omega⟩
    refine ⟨bits', (parses_bit true).bind (parses_block hc hblock hroom ?_)⟩
    rw [if_neg (by decide)]
    exact parses_pure ()
  | @next _ _ bits _ _ _ _ hblock hrest ih =>
    obtain ⟨fuel, rfl⟩ : ∃ fuel', fuel = fuel' + 1 := ⟨fuel - 1, by omega⟩
    have hlt := hblock.bits_lt
    rw [List.length_cons] at hfuel
    obtain ⟨bits', hparses⟩ := ih hroom (show _ < fuel by omega)
    refine ⟨bits', (parses_bit false).bind
      (parses_block hc hblock (hrest.length_le.trans hroom) ?_)⟩
    rw [if_pos (by decide)]
    exact hparses

end Setting

/-- The state that `puff` starts in. -/
theorem inflate_start (stream : Bytes) (destlen : Nat) :
    ∃ (c : Setting) (s : State), c.FixedTables ∧ c.destlen = destlen ∧
      c.At s (bytesBits stream) [] ∧
      inflate stream destlen = (blocks (8 * stream.length + 1)).run.run s := by
  obtain ⟨lencode, distcode, hbuild, hlit, hdist⟩ := buildFixed_ok
  refine ⟨⟨stream, destlen, lencode, distcode⟩,
    ⟨List.replicate destlen 0, 0, stream, 0, 0, 0, lencode, distcode⟩,
    ⟨hlit, hdist⟩, rfl,
    ⟨rfl, rfl, rfl, ⟨Nat.zero_lt_one, Nat.zero_le _, le_rfl⟩, Nat.zero_lt_succ 7, rfl, rfl, rfl,
      Nat.zero_le _⟩, ?_⟩
  rw [inflate, hbuild]
  rfl

theorem inflate_of_accepted {stream data : Bytes} {crowded : Bool} {destlen : Nat}
    (h : AcceptedStream crowded (bytesBits stream) [] data) (hroom : data.length ≤ destlen) :
    ∃ s', inflate stream destlen = .ok (.ok (), s') ∧
      s'.output = data ++ List.replicate (destlen - data.length) 0 ∧ s'.outcnt = data.length := by
  obtain ⟨c, s, hc, rfl, hs, hinflate⟩ := inflate_start stream destlen
  obtain ⟨bits', hparses⟩ := Setting.parses_blocks hc h hroom
    (show _ < 8 * stream.length + 1 by rw [length_bytesBits]; omega)
  obtain ⟨s', hrun, hs'⟩ := hparses s hs
  exact ⟨s', hinflate.trans hrun, hs'.output, hs'.outcnt⟩

theorem inflate_of_decompresses {stream data : Bytes} (h : Decompresses 30 stream data) :
    ∃ s', inflate stream data.length = .ok (.ok (), s') ∧ s'.output = data ∧
      s'.outcnt = data.length := by
  obtain ⟨s', hinflate, houtput, houtcnt⟩ :=
    inflate_of_accepted (acceptedStream_false.mpr h) le_rfl
  refine ⟨s', hinflate, ?_, houtcnt⟩
  rw [houtput, Nat.sub_self, List.replicate_zero, List.append_nil]

/-- A stream is decompressed if none of its blocks has too many distance code lengths. -/
theorem puff_of_decompresses (stream data : Bytes) (h : Decompresses 30 stream data) :
    puff stream data.length = .ok (.ERR_NONE, data) := by
  obtain ⟨s', hinflate, houtput, -⟩ := inflate_of_decompresses h
  rw [puff, hinflate, ← houtput]
  rfl

/-- A literal and a copy of it, in a fixed block. -/
theorem puff_of_decompresses_sample :
    Decompresses 30 [75, 4, 2, 0] [97, 97, 97, 97] ∧
      puff [75, 4, 2, 0] ([97, 97, 97, 97] : Bytes).length = .ok (.ERR_NONE, [97, 97, 97, 97]) := by
  have hbits : bytesBits [75, 4, 2, 0] = true :: true :: false ::
      (codeword fixedLit (97 : UInt8).toNat ++ (codeword fixedLit (257 + 0) ++ ([] ++
        (codeword fixedDist 0 ++ ([] ++ (codeword fixedLit 256 ++ [false, false])))))) := by
    decide +kernel
  have hend : Data fixedLit fixedDist (codeword fixedLit 256 ++ [false, false])
      (copy (distanceBase 0 + ofBits []) (lengthBase 0 + ofBits []) [97]) [false, false]
      [97, 97, 97, 97] := .endOfBlock (by decide +kernel)
  have hcopy : Data fixedLit fixedDist (codeword fixedLit (257 + 0) ++ ([] ++ (codeword fixedDist 0 ++
      ([] ++ (codeword fixedLit 256 ++ [false, false]))))) ([] ++ [97]) [false, false]
      [97, 97, 97, 97] :=
    .copy (by decide) (by decide +kernel) rfl (by decide) (by decide +kernel) rfl (by decide) hend
  have hdata := Data.literal (show IsCoded fixedLit (97 : UInt8).toNat by decide +kernel) hcopy
  have h : Decompresses 30 [75, 4, 2, 0] [97, 97, 97, 97] := by
    rw [Decompresses, hbits]
    exact .last (.fixed hdata)
  exact ⟨h, puff_of_decompresses _ _ h⟩

/-! ## Many distance code lengths -/

/-- A dynamic block that has 31 distance code lengths, all of them 0. -/
def manyDistances : Bytes := [5, 222, 129, 0, 0, 0, 0, 0, 144, 255, 107, 41, 0]

/-- The code length code of `manyDistances`, in which 1 and 18 have a code. -/
def manyDistancesLens : List Nat := List.replicate 1 0 ++ 1 :: List.replicate 16 0 ++ [1]

theorem manyDistances_decompresses : Decompresses 32 manyDistances [] := by
  let lit : List Nat := List.replicate 256 0 ++ [1]
  let dist : List Nat := List.replicate 31 0
  let rest : List Bool := codeword manyDistancesLens 18 ++ (toBits 7 127 ++
    (codeword manyDistancesLens 18 ++ (toBits 7 107 ++ (codeword manyDistancesLens 1 ++
    (codeword manyDistancesLens 18 ++ (toBits 7 20 ++
    (codeword lit 256 ++ List.replicate 7 false)))))))
  have hbits : bytesBits manyDistances = true :: false :: true ::
      (toBits 5 (lit.length - 257) ++ (toBits 5 (dist.length - 1) ++ (toBits 4 (18 - 4) ++
        ((lengthOrder.take 18).flatMap (fun symbol => toBits 3 (manyDistancesLens.getD symbol 0)) ++
          rest)))) := by
    decide +kernel
  have hread : List.replicate (11 + ofBits (toBits 7 127)) 0 ++
      List.replicate (11 + ofBits (toBits 7 107)) 0 ++ [1] ++
      List.replicate (11 + ofBits (toBits 7 20)) 0 = lit ++ dist := by
    decide +kernel
  have hcodes : CodeLengths manyDistancesLens rest []
      (codeword lit 256 ++ List.replicate 7 false) (lit ++ dist) := by
    refine .manyZeros (by decide) (length_toBits _ _) (.manyZeros (by decide) (length_toBits _ _)
      (.length (by decide) (by decide) (.manyZeros (by decide) (length_toBits _ _) ?_)))
    rw [List.nil_append, hread]
    exact .done
  have hsingle : Single lit := by
    refine ⟨?_, ?_⟩ <;> simp only [lit, List.count_append, List.count_replicate, List.length_append,
      List.length_replicate] <;> decide
  have hempty : Empty dist := fun symbol => by
    rw [IsCoded, List.getD_eq_getElem?_getD, List.getElem?_replicate]
    split <;> decide
  have hheader : Header 32 _ (codeword lit 256 ++ List.replicate 7 false) lit dist :=
    ⟨by decide +kernel, by decide, ⟨manyDistancesLens, 18, rest, by decide, by decide, by decide,
      by decide, by decide, by unfold Complete; decide, rfl, hcodes⟩, by decide +kernel, Or.inr hsingle,
      Or.inr (Or.inr hempty)⟩
  rw [Decompresses, hbits]
  exact .last (.dynamic hheader (.endOfBlock (by decide +kernel)))

/-- Such a block is refused. -/
theorem puff_manyDistances (destlen : Nat) :
    ∃ output, puff manyDistances destlen =
      .ok (.ERR_TOO_MANY_LENGTH_OR_DISTANCE_CODES, output) := by
  obtain ⟨c, s, -, -, hs, hinflate⟩ := inflate_start manyDistances destlen
  have hbits : bytesBits manyDistances = true :: ([false, true] ++ (toBits 5 0 ++ (toBits 5 30 ++
      (bytesBits manyDistances).drop 13))) := by
    decide +kernel
  rw [hbits] at hs
  obtain ⟨s₁, hrun₁, hs₁⟩ := Setting.parses_bit true s hs
  obtain ⟨s₂, hrun₂, hs₂⟩ := Setting.parses_bits (show [false, true].length = 2 from rfl) s₁ hs₁
  obtain ⟨s₃, hrun₃, hs₃⟩ := Setting.parses_number (show 0 < 2 ^ 5 by decide) s₂ hs₂
  obtain ⟨s₄, hrun₄, -⟩ := Setting.parses_number (show 30 < 2 ^ 5 by decide) s₃ hs₃
  have hstops : Stops buildDynamic s₂ .ERR_TOO_MANY_LENGTH_OR_DISTANCE_CODES s₄ :=
    hrun₃.stops (hrun₄.stops (stops_throw _ s₄))
  have hblocks : Stops (blocks (8 * manyDistances.length + 1)) s
      .ERR_TOO_MANY_LENGTH_OR_DISTANCE_CODES s₄ :=
    hrun₁.stops (hrun₂.stops (Stops.bind _ (Stops.bind _ hstops)))
  rw [puff, hinflate, hblocks]
  exact ⟨s₄.output, rfl⟩

theorem manyDistances_refused :
    ¬ ∀ stream data, Decompresses 32 stream data →
      puff stream data.length = .ok (.ERR_NONE, data) := by
  intro hall
  obtain ⟨output, hpuff⟩ := puff_manyDistances ([] : Bytes).length
  rw [hall manyDistances [] manyDistances_decompresses] at hpuff
  nomatch hpuff

end Inflate

end Nouns
