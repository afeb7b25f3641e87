import Nouns.Art.Blocks
import Nouns.Art.Returning

/-!
# Soundness — what the inflator takes is a stream

Where `puff` returns without an error the bytes begin with a stream that is accepted, and it returns
the data of that stream.
-/

open Bits CanonicalCode Deflate

namespace Nouns

namespace Inflate

namespace Setting

variable {c : Setting} {bits bits' : List Bool} {out out' : Bytes}

/-! ## The code length code -/

/-- The lengths of the code length code, which are written in an order of their own. -/
def lensOf (written : List Nat) : List Nat :=
  (List.range 19).map fun symbol => written.getD (lengthOrder.idxOf symbol) 0

theorem getD_lensOf (written : List Nat) {index : Nat} (h : index < 19) :
    (lensOf written).getD (lengthOrder.getD index 0) 0 = written.getD index 0 := by
  have horder : ∀ index < 19, lengthOrder.getD index 0 < 19 ∧
      lengthOrder.idxOf (lengthOrder.getD index 0) = index := by
    decide
  obtain ⟨hlt, hindex⟩ := horder index h
  rw [List.getD_eq_getElem?_getD, lensOf, List.getElem?_map, List.getElem?_range hlt, Option.map_some,
    Option.getD_some, hindex]

theorem lensOf_taken {written : List Nat} (h : written.length ≤ 19) :
    (lengthOrder.take written.length).map ((lensOf written).getD · 0) = written := by
  refine List.ext_getElem? fun index => ?_
  rw [List.getElem?_map]
  by_cases hindex : index < written.length
  · have horder : lengthOrder[index]? = some (lengthOrder.getD index 0) := by
      rw [List.getD_eq_getElem?_getD, List.getElem?_eq_getElem (show index < 19 by omega),
        Option.getD_some]
    rw [List.getElem?_take_of_lt hindex, horder, Option.map_some,
      getD_lensOf written (show index < 19 by omega), List.getD_eq_getElem?_getD,
      List.getElem?_eq_getElem hindex, Option.getD_some]
  · rw [List.getElem?_take_eq_none (by omega), List.getElem?_eq_none (by omega), Option.map_none]

theorem lensOf_dropped {written : List Nat} {symbol : Nat}
    (h : symbol ∈ lengthOrder.drop written.length) : ¬ IsCoded (lensOf written) symbol := by
  obtain ⟨i, hi⟩ := List.mem_iff_getElem?.mp h
  rw [List.getElem?_drop] at hi
  have hlt : written.length + i < 19 := (List.getElem?_eq_some_iff.mp hi).1
  have hsymbol : lengthOrder.getD (written.length + i) 0 = symbol := by
    rw [List.getD_eq_getElem?_getD, hi, Option.getD_some]
  refine not_not.mpr ?_
  rw [← hsymbol, getD_lensOf written hlt]
  exact List.getD_eq_default _ _ (by omega)

theorem lensOf_lt {written : List Nat} {bound : Nat} (hpos : 0 < bound)
    (h : ∀ l ∈ written, l < bound) : ∀ l ∈ lensOf written, l < bound := by
  intro l hl
  obtain ⟨symbol, -, rfl⟩ := List.mem_map.mp hl
  exact getD_lt h hpos _

/-- The lengths that are written are there. -/
theorem returns_written (indices lengths : List Nat) :
    c.Returns (indices.foldlM (fun lengths index => do
        let len ← Inflate.bits 3
        setAt lengths (← getAt order index) len) lengths) bits out fun _ bits' out' =>
      ∃ written : List Nat, written.length = indices.length ∧ (∀ l ∈ written, l < 8) ∧
        bits = written.flatMap (toBits 3) ++ bits' ∧ out' = out := by
  induction indices generalizing lengths bits with
  | nil => exact returns_pure ⟨[], rfl, fun _ h => absurd h List.not_mem_nil, rfl, rfl⟩
  | cons index indices ih =>
    rw [List.foldlM_cons]
    have hhead : c.Returns (do
          let len ← Inflate.bits 3
          setAt lengths (← getAt order index) len) bits out fun _ bits' out' =>
        ∃ len < 8, bits = toBits 3 len ++ bits' ∧ out' = out := by
      refine (returns_bits 3).bind ?_
      rintro _ bits' out ⟨read, hread, rfl, rfl, rfl⟩
      refine returns_lift_bind fun symbol _ => returns_lift fun lengths' _ => ?_
      refine ⟨ofBits read, (ofBits_lt read).trans_eq (by rw [hread]; rfl), ?_, rfl⟩
      rw [← hread, toBits_ofBits]
    refine hhead.bind ?_
    rintro lengths' _ out ⟨len, hlen, rfl, rfl⟩
    refine (ih lengths').mono ?_
    rintro _ bits' out ⟨written, hwritten, hlt, rfl, rfl⟩
    refine ⟨len :: written, ?_, List.forall_mem_cons.mpr ⟨hlen, hlt⟩, ?_, rfl⟩
    · rw [List.length_cons, List.length_cons, hwritten]
    · rw [List.flatMap_cons, List.append_assoc]

/-- The code length code is there. -/
theorem returns_buildDynamicLengths :
    c.Returns buildDynamicLengths bits out fun lengths bits' out' => ∃ (lens : List Nat) (ncode : Nat),
      lens.length = 19 ∧ (∀ l ∈ lens, l < 8) ∧ (4 ≤ ncode ∧ ncode ≤ 19) ∧
      (∀ symbol ∈ lengthOrder.drop ncode, ¬ IsCoded lens symbol) ∧
      bits = toBits 4 (ncode - 4) ++
        ((lengthOrder.take ncode).flatMap (fun symbol => toBits 3 (lens.getD symbol 0)) ++ bits') ∧
      Filled lens lengthOrder lengths ∧ out' = out := by
  intro s lengths s' hs hrun
  have hlengths := hrun
  unfold buildDynamicLengths at hrun
  obtain ⟨n, s₁, hbits, hrun⟩ := hrun.of_bind
  obtain ⟨bits₁, out, ⟨read, hread, rfl, rfl, rfl⟩, hs₁⟩ := returns_bits 4 s _ s₁ hs hbits
  obtain ⟨lengths₁, s₂, hwritten, -⟩ := hrun.of_bind
  obtain ⟨bits₂, out, ⟨written, hlength, hlt, rfl, rfl⟩, -⟩ :=
    returns_written _ _ s₁ _ s₂ hs₁ hwritten
  have hn : ofBits read < 2 ^ 4 := (ofBits_lt read).trans_eq (by rw [hread])
  rw [List.length_range] at hlength
  have hlens := lensOf_lt (by decide) hlt
  have hfour : toBits 4 (written.length - 4) = read := by
    rw [hlength, Nat.add_sub_cancel, ← hread, toBits_ofBits]
  have htaken : (lengthOrder.take written.length).flatMap
      (fun symbol => toBits 3 ((lensOf written).getD symbol 0)) = written.flatMap (toBits 3) := by
    have hmap := congrArg (List.flatMap (toBits 3)) (lensOf_taken (show written.length ≤ 19 by omega))
    rw [List.flatMap_map] at hmap
    exact hmap
  obtain ⟨lengths', hfilled, hparses⟩ := @parses_buildDynamicLengths c bits₂ out (lensOf written)
    written.length hlens (by omega) (fun _ => lensOf_dropped)
  rw [hfour, htaken] at hparses
  obtain ⟨s'', hrun', hs''⟩ := hparses s hs
  obtain ⟨rfl, rfl⟩ := hlengths.unique hrun'
  refine ⟨bits₂, out, ⟨lensOf written, written.length, ?_, hlens, by omega, fun _ => lensOf_dropped,
    ?_, hfilled, rfl⟩, hs''⟩
  · rw [lensOf, List.length_map, List.length_range]
  · rw [hfour, htaken]

/-! ## The lengths of the other codes -/

/-- A length is repeated as often as some bits say, and the rest is there. -/
theorem returns_repeatLength {lens read lengths : List Nat} {lencode : Huffman}
    {total fuel l base need : Nat} (h : ReadTo read lengths) (hl : l ≤ MAXBITS)
    (hmax : total ≤ MAXCODES)
    (hrest : ∀ {n : Nat} {bits : List Bool} {out : Bytes} {lengths : List Nat}, base ≤ n →
      read.length + n ≤ total → ReadTo (read ++ List.replicate n l) lengths →
      c.Returns (readLengths lencode total fuel (lengths, (read ++ List.replicate n l).length)) bits out
        fun lengths' bits' out' => ∃ read', read'.length = total ∧ ReadTo read' lengths' ∧
          CodeLengths lens bits (read ++ List.replicate n l) bits' read' ∧ out' = out) :
    c.Returns (do
        let n ← Inflate.bits need
        if read.length + (base + n) > total then throw .ERR_REPEAT_MORE
        readLengths lencode total fuel (← repeatLength l (base + n) (lengths, read.length))) bits out
      fun lengths' bits' out' => ∃ (extra rest : List Bool) (read' : List Nat),
        extra.length = need ∧ bits = extra ++ rest ∧ read'.length = total ∧ ReadTo read' lengths' ∧
        CodeLengths lens rest (read ++ List.replicate (base + ofBits extra) l) bits' read' ∧
        out' = out := by
  refine (returns_bits need).bind ?_
  rintro _ rest out ⟨extra, hextra, rfl, rfl, rfl⟩
  split
  next => exact returns_throw_bind _ _
  next hfits =>
    refine returns_lift_bind fun state hstate => ?_
    obtain ⟨lengths₁, hrepeat, hread₁⟩ := @repeatLength_ok read lengths h l (base + ofBits extra) hl
      (by omega)
    obtain rfl := Except.ok.inj (hrepeat.symm.trans hstate)
    have hlength : read.length + (base + ofBits extra) =
        (read ++ List.replicate (base + ofBits extra) l).length := by
      rw [List.length_append, List.length_replicate]
    rw [hlength]
    refine (hrest (Nat.le_add_right _ _) (by omega) hread₁).mono ?_
    rintro lengths' bits' out ⟨read', htotal, hread, hcodes, rfl⟩
    exact ⟨extra, rest, read', hextra, rfl, htotal, hread, hcodes, rfl⟩

theorem returns_readLengths {lens : List Nat} {lencode : Huffman} (hlens : lens.length = 19)
    (honly : c.DecodesOnly (Codeword lens) lencode) {total : Nat} (hmax : total ≤ MAXCODES)
    {fuel : Nat} {read lengths : List Nat} (hfuel : total ≤ read.length + fuel)
    (hle : read.length ≤ total) (h : ReadTo read lengths) :
    c.Returns (readLengths lencode total fuel (lengths, read.length)) bits out
      fun lengths' bits' out' => ∃ read', read'.length = total ∧ ReadTo read' lengths' ∧
        CodeLengths lens bits read bits' read' ∧ out' = out := by
  induction fuel generalizing bits out read lengths with
  | zero => exact returns_pure ⟨read, by omega, h, .done, rfl⟩
  | succ fuel ih =>
    rw [readLengths]
    split
    next hmore =>
      refine (honly bits out).bind ?_
      rintro symbol bits₁ out ⟨_, ⟨hcoded, rfl⟩, rfl, rfl⟩
      have hsymbol := hcoded.lt_length
      split
      next hlength =>
        have hl : symbol ≤ MAXBITS := Nat.lt_succ_iff.mp hlength
        obtain ⟨hset, hpush⟩ := h.push hl (by omega)
        refine returns_lift_bind fun lengths₁ hset₁ => ?_
        obtain rfl := Except.ok.inj (hset.symm.trans hset₁)
        have hsucc : read.length + 1 = (read ++ [symbol]).length := by
          rw [List.length_append, List.length_singleton]
        rw [hsucc]
        refine (ih (by omega) (by omega) hpush).mono ?_
        rintro lengths' bits' out ⟨read', htotal, hread, hcodes, rfl⟩
        exact ⟨read', htotal, hread, .length hlength hcoded hcodes, rfl⟩
      next hlarge =>
        -- The symbols that are left repeat the last length or zero.
        have hrest : ∀ {l base n : Nat} {bits : List Bool} {out : Bytes} {lengths : List Nat}, 0 < base →
            base ≤ n → read.length + n ≤ total → ReadTo (read ++ List.replicate n l) lengths →
            c.Returns (readLengths lencode total fuel
              (lengths, (read ++ List.replicate n l).length)) bits out fun lengths' bits' out' =>
              ∃ read', read'.length = total ∧ ReadTo read' lengths' ∧
                CodeLengths lens bits (read ++ List.replicate n l) bits' read' ∧ out' = out := by
          intro l base n bits out lengths hpos hbase hfits hread
          have hlength : (read ++ List.replicate n l).length = read.length + n := by
            rw [List.length_append, List.length_replicate]
          exact ih (by omega) (by omega) hread
        dsimp only
        split
        next hagain =>
          subst hagain
          split
          next => exact returns_throw_bind _ _
          next hsome =>
            refine returns_lift_bind fun l hl => ?_
            have hlast : read.getLast? = some l := by
              have hne : read ≠ [] := fun hnil => hsome (congrArg List.length hnil)
              have hget := h.getAt_last (List.getLast?_eq_some_getLast hne)
              rw [List.getLast?_eq_some_getLast hne, Except.ok.inj (hget.symm.trans hl)]
            have hle : l ≤ MAXBITS := h.max l (List.mem_of_getElem? (getAt_eq_ok.mp hl))
            refine (returns_repeatLength h hle hmax (hrest (by decide))).mono ?_
            rintro lengths' bits' out ⟨extra, rest, read', hextra, rfl, htotal, hread, hcodes, rfl⟩
            exact ⟨read', htotal, hread, .again hlast hcoded hextra hcodes, rfl⟩
        next hnotAgain =>
          split
          next hzeros =>
            subst hzeros
            refine (returns_repeatLength h (Nat.zero_le _) hmax (hrest (by decide))).mono ?_
            rintro lengths' bits' out ⟨extra, rest, read', hextra, rfl, htotal, hread, hcodes, rfl⟩
            exact ⟨read', htotal, hread, .zeros hcoded hextra hcodes, rfl⟩
          next hnotZeros =>
            obtain rfl : symbol = 18 := by omega
            refine (returns_repeatLength h (Nat.zero_le _) hmax (hrest (by decide))).mono ?_
            rintro lengths' bits' out ⟨extra, rest, read', hextra, rfl, htotal, hread, hcodes, rfl⟩
            exact ⟨read', htotal, hread, .manyZeros hcoded hextra hcodes, rfl⟩
    next hdone => exact returns_pure ⟨read, by omega, h, .done, rfl⟩

/-! ## Dynamic codes -/

/-- A table of which only literals are decoded. -/
def Stuck (h : Huffman) : Prop := ∀ s symbol s', Runs (decode h) s symbol s' → symbol < 256

/-- The end of the block is never read. -/
theorem not_runs_codes {lencode distcode : Huffman} (hstuck : Stuck lencode) {s s' : State} :
    ¬ Runs (codes lencode distcode) s () s' := by
  have hstep : ∀ s symbol s', Runs (codesStep lencode distcode) s symbol s' → symbol ≠ 256 := by
    intro s symbol s' hrun
    unfold codesStep at hrun
    obtain ⟨symbol₁, s₁, hdecode, hrun⟩ := hrun.of_bind
    have hlt := hstuck s symbol₁ s₁ hdecode
    rw [if_pos hlt] at hrun
    replace hrun := hrun.of_get
    split at hrun
    · exact absurd hrun not_runs_throw_bind
    · obtain ⟨output, s₂, -, hrun⟩ := hrun.of_bind
      cases hrun.of_set
      omega
  have hloop : ∀ fuel s s', ¬ Runs (codesLoop lencode distcode fuel) s () s' := by
    intro fuel
    induction fuel with
    | zero =>
      intro s s' hrun
      cases hrun
    | succ fuel ih =>
      intro s s' hrun
      rw [codesLoop] at hrun
      obtain ⟨symbol, s₁, hrun₁, hrun⟩ := hrun.of_bind
      rw [if_pos (hstep s symbol s₁ hrun₁)] at hrun
      exact ih s₁ s' hrun
  exact fun hrun => hloop _ s s' hrun.of_get

theorem runs_bits_lt {need a : Nat} {s s' : State} (h : Runs (Inflate.bits need) s a s') :
    a < 2 ^ need := by
  obtain ⟨val, s₁, -, hrest⟩ := h.of_get.of_bind
  cases hrest.of_modify
  rw [Nat.one_shiftLeft, Nat.and_two_pow_sub_one_eq_mod]
  exact Nat.mod_lt _ (Nat.two_pow_pos need)

/-- The table of crowded codes is not filled: what it held before is decoded. -/
theorem stuck_of_crowded {code : List Nat} {h : Huffman} (hcrowded : Crowded code)
    (hcounts : Counts h.counts code)
    (hsymbols : ∀ i < 2, ∀ symbol, h.symbols[i]? = some symbol → symbol < 256) : Stuck h := by
  intro s symbol s' hrun
  have hcodes := hcrowded.1
  obtain ⟨b, s₁, hbit, hrun⟩ := hrun.of_bind
  have hb : b < 2 := runs_bits_lt hbit
  obtain ⟨count, s₂, hcount, hrun⟩ := hrun.of_bind
  have hone := getAt_eq_ok.mp hcount.of_lift.1
  rw [hcounts.count 1 (by decide), Option.some.injEq] at hone
  rw [Nat.zero_or, if_pos (by omega)] at hrun
  exact hsymbols (0 + (b - 0)) (by omega) symbol (getAt_eq_ok.mp hrun.of_lift.1)

/-- The two first places of a complete table are taken. -/
theorem symbols_lt_of_complete {code : List Nat} {h : Huffman} (hh : TableOf code h)
    (hcomplete : Complete code) (hmax : ∀ l ∈ code, l ≤ MAXBITS) {i symbol : Nat} (hi : i < 2) (hsymbol : h.symbols[i]? = some symbol) :
    symbol < code.length := by
  have hcount : 2 ^ 15 ≤ firstIndex code (MAXBITS + 1) * 2 ^ 14 := hcomplete.ge.trans (kraft_le hmax)
  obtain ⟨symbol', hcoded, -, rfl⟩ := exists_place (show i < firstIndex code (MAXBITS + 1) by omega)
  rw [hh.symbols symbol' hcoded, Option.some.injEq] at hsymbol
  exact hsymbol ▸ hcoded.lt_length

theorem exists_coded {lens read read' : List Nat} (h : CodeLengths lens bits read bits' read')
    (hlt : read.length < read'.length) : ∃ symbol, IsCoded lens symbol := by
  cases h with
  | done => exact absurd hlt (lt_irrefl _)
  | length _ hcoded _ | again _ hcoded _ _ | zeros hcoded _ _ | manyZeros hcoded _ _ =>
    exact ⟨_, hcoded⟩

/-- A number that was read and increased. -/
theorem toBits_read {read : List Bool} {need n : Nat} (h : read.length = need) :
    toBits need (ofBits read + n - n) = read := by
  rw [Nat.add_sub_cancel, ← h, toBits_ofBits]

/-- The length of a symbol of the first code stands in the array. -/
theorem isCoded_of_getAt {lit dist lengths : List Nat} (h : ReadTo (lit ++ dist) lengths)
    {symbol l : Nat} (hsymbol : symbol < lit.length) (hl : getAt lengths symbol = .ok l)
    (hpos : l ≠ 0) : IsCoded lit symbol := by
  have hlt : symbol < (lit ++ dist).length := by
    rw [List.length_append]
    omega
  rw [getAt_eq_ok, ← List.getElem?_take_of_lt hlt, h.taken, List.getElem?_append_left hsymbol] at hl
  rw [IsCoded, List.getD_eq_getElem?_getD, hl, Option.getD_some]
  exact hpos

/-- The table of the code length code. -/
theorem construct_lens {lens lengths : List Nat} {h h' : Huffman} (hlength : lens.length = 19)
    (hlens : ∀ l ∈ lens, l < 8) (hfilled : Filled lens lengthOrder lengths)
    (hroom : 19 ≤ h.symbols.length) (hconstruct : construct h lengths 19 0 = .ok (.ERR_NONE, h')) :
    (Complete lens ∨ Empty lens) ∧ TableOf lens h' ∧ h'.symbols.length = h.symbols.length := by
  have hslice := hfilled.slice_eq hlength
  obtain ⟨err, h'', hrun, hcounts, hsize, hcases⟩ :=
    @construct_cases lengths 0 19 (by rw [hfilled.length]; decide)
      (hfilled.le (getD_lt hlens (by decide))) h hroom
  obtain ⟨rfl, rfl⟩ := Prod.mk.inj (Except.ok.inj (hrun.symm.trans hconstruct))
  rw [hslice] at hcounts hcases
  rcases hcases with ⟨hempty, -, -⟩ | ⟨-, herr, -⟩ | ⟨-, -, herr, htable⟩
  · exact ⟨.inr hempty, ⟨hcounts, fun symbol hcoded => absurd hcoded (hempty symbol)⟩, hsize⟩
  · cases herr
  · split at herr
    next hcomplete => exact ⟨.inl hcomplete, htable, hsize⟩
    next => cases herr

/-- What the tables of a dynamic block are. -/
def DynamicTables (bits bits' : List Bool) (tables : Huffman × Huffman) : Prop :=
  ∃ lit dist, Descriptor bits bits' lit dist ∧ TableOf lit tables.1 ∧ DistanceTable dist tables.2 ∧
    ∀ l ∈ lit ++ dist, l ≤ MAXBITS

/-- The header of a dynamic block is there, or the block does not end. -/
theorem returns_buildDynamic :
    c.Returns buildDynamic bits out fun tables bits' out' =>
      (Stuck tables.1 ∨ DynamicTables bits bits' tables) ∧ out' = out := by
  rw [buildDynamic]
  dsimp only
  refine (returns_bits 5).bind ?_
  rintro _ bits₁ out ⟨read₁, hread₁, rfl, rfl, rfl⟩
  refine (returns_bits 5).bind ?_
  rintro _ bits₂ out ⟨read₂, hread₂, rfl, rfl, rfl⟩
  split
  next => exact returns_throw_bind _ _
  next hfew =>
    obtain ⟨hlit, hdist⟩ := not_or.mp hfew
    change ¬ ofBits read₁ + 257 > 286 at hlit
    change ¬ ofBits read₂ + 1 > 30 at hdist
    refine returns_buildDynamicLengths.bind ?_
    rintro lengths bits₃ out ⟨lens, ncode, hlength, hlens, hncode, hzero, rfl, hfilled, rfl⟩
    refine returns_lift_bind ?_
    rintro ⟨err, table₁⟩ hconstruct
    dsimp only
    split
    next => exact returns_throw_bind _ _
    next herr =>
      obtain rfl := not_not.mp herr
      obtain ⟨hlensCode, htable₁, hsize₁⟩ := construct_lens hlength hlens hfilled
        (by rw [List.length_replicate]; decide) hconstruct
      have hread₀ : ReadTo [] lengths :=
        ⟨hfilled.length, rfl, hfilled.le (getD_lt hlens (by decide))⟩
      refine (returns_readLengths hlength (htable₁.decodesOnly c)
        (show ofBits read₁ + 257 + (ofBits read₂ + 1) ≤ 286 + 30 by omega) (Nat.le_add_left _ 0)
        (Nat.zero_le _) hread₀).bind ?_
      rintro lengths' bits₄ out ⟨read, htotal, hread, hcodes, rfl⟩
      have hcomplete : Complete lens := by
        obtain ⟨symbol, hcoded⟩ := exists_coded hcodes (by rw [htotal, List.length_nil]; omega)
        exact hlensCode.resolve_right fun hempty => hempty symbol hcoded
      -- The lengths of the two codes.
      obtain ⟨lit, dist, rfl, hlitLength⟩ : ∃ lit dist, read = lit ++ dist ∧
          lit.length = ofBits read₁ + 257 :=
        ⟨_, _, (List.take_append_drop (ofBits read₁ + 257) read).symm,
          List.length_take_of_le (by omega)⟩
      have hdistLength : dist.length = ofBits read₂ + 1 := by
        rw [List.length_append] at htotal
        omega
      have hle := hread.length_le
      rw [List.length_append] at hle
      refine returns_lift_bind fun l hl => ?_
      split
      next => exact returns_throw_bind _ _
      next hcoded =>
        refine returns_lift_bind ?_
        rintro ⟨err₂, lencode⟩ hconstruct₂
        dsimp only
        refine returns_lift_bind fun refused₂ hrefuses₂ => ?_
        split
        next => exact returns_throw_bind _ _
        next haccepts₂ =>
          refine returns_lift_bind ?_
          rintro ⟨err₃, distcode⟩ hconstruct₃
          dsimp only
          refine returns_lift_bind fun refused₃ hrefuses₃ => ?_
          split
          next => exact returns_throw_bind _ _
          next haccepts₃ =>
            refine returns_pure ⟨?_, rfl⟩
            have hend : IsCoded lit 256 := isCoded_of_getAt hread (by omega) hl hcoded
            rw [← hlitLength] at hconstruct₂ hrefuses₂ hconstruct₃
            rw [← hdistLength] at hconstruct₃ hrefuses₃
            obtain ⟨err, table₂, hrun, hcounts₂, hcases₂⟩ :=
              @construct_accepts lengths' lit 0 hread.slice_left (by omega) hread.max table₁
                (by rw [hsize₁, List.length_replicate]; change lit.length ≤ 286; omega)
            obtain ⟨rfl, rfl⟩ := Prod.mk.inj (Except.ok.inj (hrun.symm.trans hconstruct₂))
            obtain ⟨err, table₃, hrun, hcounts₃, hcases₃⟩ :=
              @construct_accepts lengths' dist lit.length hread.slice_right (by omega) hread.max
                ⟨List.replicate (MAXBITS + 1) 0, List.replicate MAXDCODES 0⟩
                (by rw [List.length_replicate]; change dist.length ≤ 30; omega)
            obtain ⟨rfl, rfl⟩ := Prod.mk.inj (Except.ok.inj (hrun.symm.trans hconstruct₃))
            have htable₃ : DistanceTable dist table₃ := by
              rcases hcases₃ with ⟨-, hallowed, htable⟩ | ⟨-, hcrowded, hsame⟩ | ⟨hrefuses, -⟩
              · exact .filled hallowed htable
              · exact .unfilled hcrowded hcounts₃ hsame
              · exact absurd (Except.ok.inj (hrefuses₃.symm.trans hrefuses)) haccepts₃
            rcases hcases₂ with ⟨-, hallowed, htable₂⟩ | ⟨-, hcrowded, hsame⟩ | ⟨hrefuses, -⟩
            · refine .inr ⟨lit, dist, ⟨by omega, by omega, ⟨lens, ncode, bits₃, hlength, hlens, hncode.1,
                hncode.2, hzero, hcomplete, ?_, hcodes⟩, hend, ?_⟩, htable₂, htable₃, ?_⟩
              · rw [hlitLength, hdistLength, toBits_read hread₁, toBits_read hread₂]
              · rcases hallowed with hfull | hsingle | hempty
                · exact .inl hfull
                · exact .inr hsingle
                · exact absurd hend (hempty 256)
              · exact fun l hl => hread.max l (List.mem_of_mem_take (hread.taken.symm ▸ hl))
            · refine .inl (stuck_of_crowded hcrowded hcounts₂ fun i hi symbol hsymbol => ?_)
              have hmax : ∀ l ∈ lens, l ≤ MAXBITS := fun l hl => (hlens l hl).le.trans (by decide)
              rw [hsame] at hsymbol
              have hlt := symbols_lt_of_complete htable₁ hcomplete hmax hi hsymbol
              omega
            · exact absurd (Except.ok.inj (hrefuses₂.symm.trans hrefuses)) haccepts₂

/-! ## Blocks -/

/-- From crowded codes only the first distance is decoded. -/
theorem decodesOnly_oneBit {dist : List Nat} {h : Huffman} (hcrowded : Crowded dist)
    (hcounts : Counts h.counts dist) (hsymbols : h.symbols = List.replicate MAXDCODES 0) :
    c.DecodesOnly OneBit h := by
  intro bits out
  have hcodes := hcrowded.1
  refine returns_bit.bind ?_
  rintro _ bits' out ⟨b, rfl, rfl, rfl⟩
  have hb : b.toNat < 2 := Bool.toNat_lt b
  refine returns_lift_bind fun count hcount => ?_
  rw [getAt_eq_ok, hcounts.count 1 (by decide), Option.some.injEq] at hcount
  dsimp only
  rw [Nat.zero_or, if_pos (by omega)]
  refine returns_lift fun symbol hsymbol => ⟨[b], ⟨rfl, ?_⟩, rfl, rfl⟩
  rw [getAt_eq_ok, hsymbols, List.getElem?_replicate, if_pos (by change _ < 30; omega),
    Option.some.injEq] at hsymbol
  exact hsymbol.symm

/-- The tables of a dynamic block and the words they stand for. -/
theorem reading_of_tables {lit dist : List Nat} {tables : Huffman × Huffman}
    (hlitCode : Complete lit ∨ Single lit) (hlit : TableOf lit tables.1)
    (hdist : DistanceTable dist tables.2) (hmax : ∀ l ∈ lit ++ dist, l ≤ MAXBITS) :
    ∃ word, DistanceWords dist word ∧ c.Reading lit word tables.1 tables.2 := by
  have hallowed : Allowed lit := hlitCode.imp_right Or.inl
  have hdecodes := hlit.decodes hallowed.kraft_le (fun l hl => hmax l (List.mem_append_left _ hl)) c 286
  cases hdist with
  | filled hallowed' htable =>
    have hdecodes' := htable.decodes hallowed'.kraft_le
      (fun l hl => hmax l (List.mem_append_right _ hl)) c 30
    exact ⟨_, .inl ⟨hallowed', rfl⟩, hdecodes, hdecodes'.decodesBy, hlit.decodesOnly c,
      htable.decodesOnly c⟩
  | unfilled hcrowded hcounts hsymbols =>
    exact ⟨_, .inr ⟨hcrowded, rfl⟩, hdecodes,
      decodesBy_oneBit (.unfilled hcrowded hcounts hsymbols) hcrowded c 30, hlit.decodesOnly c,
      decodesOnly_oneBit hcrowded hcounts hsymbols⟩

theorem returns_dynamic :
    c.Returns dynamic bits out fun _ bits' out' =>
      ∃ crowded, AcceptedBlock crowded (false :: true :: bits) out bits' out' := by
  refine returns_buildDynamic.bind ?_
  rintro tables bits₁ out ⟨htables, rfl⟩
  rcases htables with hstuck | ⟨lit, dist, hdescriptor, hlit, hdist, hmax⟩
  · exact fun s _ s' _ hrun => absurd hrun (not_runs_codes hstuck)
  · obtain ⟨word, hword, hreading⟩ := @reading_of_tables c lit dist tables hdescriptor.litCode hlit
      hdist hmax
    refine (returns_codes hreading).mono fun _ bits' out' hdata => ?_
    rcases hword with ⟨hallowed, rfl⟩ | ⟨hcrowded, rfl⟩
    · exact ⟨false, .valid (.dynamic (header_iff.mpr ⟨hdescriptor, hallowed⟩) (data_iff.mpr hdata))⟩
    · exact ⟨true, .crowded hdescriptor hcrowded hdata⟩

theorem FixedTables.reading (hc : FixedTables c) :
    c.Reading fixedLit (Codeword fixedDist) c.lencode c.distcode := by
  refine ⟨hc.decodesLit, hc.decodesDist, hc.lit.decodesOnly c, fun bits out => ?_⟩
  refine (hc.dist.decodesOnly c bits out).mono ?_
  rintro symbol bits' out' ⟨_, ⟨hcoded, rfl⟩, hbits, hout⟩
  have hsymbol : symbol < MAXDCODES := hcoded.lt_length.trans_eq List.length_replicate
  rw [← codeword_fixedDist hsymbol] at hbits
  refine ⟨_, ⟨?_, rfl⟩, hbits, hout⟩
  rw [IsCoded, fixedDist, List.getD_eq_getElem?_getD, List.getElem?_replicate,
    if_pos (hsymbol.trans (by decide)), Option.getD_some]
  decide

theorem returns_fixed (hc : FixedTables c) :
    c.Returns fixed bits out fun _ bits' out' =>
      Data fixedLit fixedDist bits out bits' out' := by
  refine returns_get fun s hs _ s' hrun => ?_
  rw [hs.lencode, hs.distcode] at hrun
  obtain ⟨bits', out', hdata, hs'⟩ := returns_codes hc.reading s _ s' hs hrun
  exact ⟨bits', out', data_iff.mpr hdata, hs'⟩

theorem returns_blocks (hc : FixedTables c) (fuel : Nat) :
    c.Returns (blocks fuel) bits out fun _ _ out' =>
      ∃ crowded, AcceptedStream crowded bits out out' := by
  induction fuel generalizing bits out with
  | zero => exact returns_throw _
  | succ fuel ih =>
    rw [blocks]
    refine returns_bit.bind ?_
    rintro _ bits₁ out ⟨last, rfl, rfl, rfl⟩
    refine (returns_bits 2).bind ?_
    rintro _ bits₂ out ⟨type, htype, rfl, rfl, rfl⟩
    obtain ⟨x, y, rfl⟩ := List.length_eq_two.mp htype
    have hnext : ∀ {crowded : Bool} {bits₃ : List Bool} {out₃ : Bytes},
        AcceptedBlock crowded ([x, y] ++ bits₂) out bits₃ out₃ →
        c.Returns (if last.toNat = 0 then blocks fuel else pure ()) bits₃ out₃ fun _ _ out' =>
          ∃ crowded, AcceptedStream crowded (last :: ([x, y] ++ bits₂)) out out' := by
      intro crowded bits₃ out₃ hblock
      cases last with
      | true => exact returns_pure ⟨crowded, .last hblock⟩
      | false =>
        refine (@ih bits₃ out₃).mono ?_
        rintro _ _ out' ⟨crowded', hrest⟩
        exact ⟨_, .next hblock hrest⟩
    cases x with
    | false =>
      cases y with
      | false =>
        refine returns_stored.bind ?_
        rintro _ _ _ ⟨pad, data, rest, hpad, hlen, -, rfl, rfl, rfl⟩
        exact hnext (.valid (.stored hpad hlen))
      | true =>
        refine returns_dynamic.bind ?_
        rintro _ bits₃ out₃ ⟨crowded, hblock⟩
        exact hnext hblock
    | true =>
      cases y with
      | false =>
        refine (returns_fixed hc).bind ?_
        rintro _ bits₃ out₃ hdata
        exact hnext (.valid (.fixed hdata))
      | true => exact returns_throw_bind _ _

/-! ## One stream -/

/-- A header is not read both with codes of the format and with crowded ones. -/
theorem not_crowded_of_allowed {lit dist lit' dist' : List Nat} {bits₁ bits₂ : List Bool}
    (h : Descriptor bits bits₁ lit dist) (hallowed : Allowed dist)
    (h' : Descriptor bits bits₂ lit' dist') (hcrowded : Crowded dist') {s : State}
    (hs : c.At s bits out) : False := by
  obtain ⟨lencode, distcode, -, htable, -, hparses⟩ :=
    @parses_buildDynamic c bits bits₁ out lit dist h (.inl hallowed)
  obtain ⟨lencode', distcode', -, htable', -, hparses'⟩ :=
    @parses_buildDynamic c bits bits₂ out lit' dist' h' (.inr hcrowded)
  obtain ⟨s₁, hrun, -⟩ := hparses s hs
  obtain ⟨s₂, hrun', -⟩ := hparses' s hs
  obtain ⟨-, rfl⟩ := Prod.mk.inj (hrun.unique hrun').1
  -- The one table counts the codes of one bit of both.
  have hone := htable.counts.count 1 (by decide)
  rw [htable'.counts.count 1 (by decide), Option.some.injEq] at hone
  have hfits := firstCode_add_codeCount_le hallowed.kraft_le (show 1 ≤ MAXBITS by decide)
  rw [codeCount_of_pos le_rfl] at hfits
  have hcodes := hcrowded.1
  omega

/-- The bits of a block and the data before it determine how it is read. -/
theorem acceptedBlock_unique (hc : FixedTables c) {crowded crowded' : Bool} {bits₁ bits₂ : List Bool}
    {out₁ out₂ : Bytes} (h₁ : AcceptedBlock crowded bits out bits₁ out₁)
    (h₂ : AcceptedBlock crowded' bits out bits₂ out₂) (hroom₁ : out₁.length ≤ c.destlen)
    (hroom₂ : out₂.length ≤ c.destlen) {s : State} (hs : c.At s bits out) :
    crowded = crowded' ∧ bits₁ = bits₂ ∧ out₁ = out₂ := by
  constructor
  · cases h₁ with
    | valid hblock =>
      cases h₂ with
      | valid _ => rfl
      | crowded hdescriptor hcrowded _ =>
        cases hblock with
        | dynamic hheader _ =>
          obtain ⟨hdescriptor', hallowed⟩ := header_iff.mp hheader
          obtain ⟨s₁, -, hs₁⟩ := parses_bits (show [false, true].length = 2 from rfl) s hs
          exact (not_crowded_of_allowed hdescriptor' hallowed hdescriptor hcrowded hs₁).elim
    | crowded hdescriptor hcrowded _ =>
      cases h₂ with
      | crowded _ _ _ => rfl
      | valid hblock =>
        cases hblock with
        | dynamic hheader _ =>
          obtain ⟨hdescriptor', hallowed⟩ := header_iff.mp hheader
          obtain ⟨s₁, -, hs₁⟩ := parses_bits (show [false, true].length = 2 from rfl) s hs
          exact (not_crowded_of_allowed hdescriptor' hallowed hdescriptor hcrowded hs₁).elim
  · obtain ⟨s₁, hrun₁, hs₁⟩ := parses_block hc h₁ hroom₁ (parses_pure ()) s hs
    obtain ⟨s₂, hrun₂, hs₂⟩ := parses_block hc h₂ hroom₂ (parses_pure ()) s hs
    obtain ⟨-, rfl⟩ := hrun₁.unique hrun₂
    exact hs₁.unique hs₂

theorem acceptedStream_unique (hc : FixedTables c) {crowded crowded' : Bool} {out₁ out₂ : Bytes}
    (h₁ : AcceptedStream crowded bits out out₁) (h₂ : AcceptedStream crowded' bits out out₂)
    (hroom₁ : out₁.length ≤ c.destlen) (hroom₂ : out₂.length ≤ c.destlen) {s : State}
    (hs : c.At s bits out) : crowded = crowded' ∧ out₁ = out₂ := by
  induction h₁ generalizing crowded' s with
  | last hblock =>
    cases h₂ with
    | last hblock' =>
      obtain ⟨s₁, -, hs₁⟩ := parses_bit true s hs
      obtain ⟨hsame, -, hout⟩ := acceptedBlock_unique hc hblock hblock' hroom₁ hroom₂ hs₁
      exact ⟨hsame, hout⟩
  | next hblock hrest ih =>
    cases h₂ with
    | next hblock' hrest' =>
      obtain ⟨s₁, -, hs₁⟩ := parses_bit false s hs
      have hroom := hrest.length_le.trans hroom₁
      obtain ⟨rfl, rfl, rfl⟩ := acceptedBlock_unique hc hblock hblock' hroom
        (hrest'.length_le.trans hroom₂) hs₁
      obtain ⟨s₂, -, hs₂⟩ := parses_block hc hblock hroom (parses_pure ()) s₁ hs₁
      obtain ⟨rfl, hout⟩ := ih hrest' hroom₁ hs₂
      exact ⟨rfl, hout⟩

end Setting

/-- How the bytes are read, whatever the length that is expected. -/
theorem puff_eq_ok_iff (source : Bytes) (destlen : Nat) (out : Bytes) :
    puff source destlen = .ok (.ERR_NONE, out) ↔
      ∃ crowded data, AcceptedStream crowded (bytesBits source) [] data ∧ data.length ≤ destlen ∧
        out = data ++ List.replicate (destlen - data.length) 0 := by
  constructor
  · intro hpuff
    obtain ⟨c, s, hc, rfl, hs, hinflate⟩ := inflate_start source destlen
    rw [puff, hinflate] at hpuff
    obtain ⟨⟨result, s'⟩, hrun, hresult⟩ := Fallible.bind_eq_ok.mp hpuff
    have hcode := (forward_blocks _ s result s' hrun).code
    cases result with
    | error err =>
      cases hresult
      exact absurd rfl hcode
    | ok u =>
      obtain ⟨bits', data, ⟨crowded, hstream⟩, hs'⟩ :=
        Setting.returns_blocks hc _ s u s' hs hrun
      cases hresult
      exact ⟨crowded, data, hstream, hs'.room, hs'.output⟩
  · rintro ⟨crowded, data, hstream, hroom, rfl⟩
    obtain ⟨s', hinflate, houtput, -⟩ := inflate_of_accepted hstream hroom
    rw [puff, hinflate, ← houtput]
    rfl

/-- A stream with crowded distance codes is not a stream of the format. -/
theorem not_decompresses_of_crowded {source data data' : Bytes}
    (hstream : AcceptedStream true (bytesBits source) [] data) : ¬ Decompresses 30 source data' := by
  intro hdecompresses
  obtain ⟨c, s, hc, hdestlen, hs, -⟩ := inflate_start source (max data.length data'.length)
  have hunique := Setting.acceptedStream_unique hc hstream (acceptedStream_false.mpr hdecompresses)
    (hdestlen ▸ le_max_left _ _) (hdestlen ▸ le_max_right _ _) hs
  exact Bool.noConfusion hunique.1

/-- What is returned without an error is the data of a stream of the format, unless some block that
was read gives one bit to three distance codes or more. -/
theorem puff_sound_iff (source : Bytes) (destlen : Nat) :
    (∀ out, puff source destlen = .ok (.ERR_NONE, out) →
      ∃ data, Decompresses 30 source data ∧ data.length ≤ destlen ∧
        out = data ++ List.replicate (destlen - data.length) 0) ↔
      ¬ ∃ data, AcceptedStream true (bytesBits source) [] data ∧ data.length ≤ destlen := by
  constructor
  · rintro hsound ⟨data, hstream, hroom⟩
    obtain ⟨data', hdecompresses, -⟩ :=
      hsound _ ((puff_eq_ok_iff source destlen _).mpr ⟨true, data, hstream, hroom, rfl⟩)
    exact not_decompresses_of_crowded hstream hdecompresses
  · intro hnone out hpuff
    obtain ⟨crowded, data, hstream, hroom, hout⟩ := (puff_eq_ok_iff source destlen out).mp hpuff
    cases crowded with
    | true => exact absurd ⟨data, hstream, hroom⟩ hnone
    | false => exact ⟨data, acceptedStream_false.mp hstream, hroom, hout⟩

/-- A dynamic block with three distance codes of one bit, and a literal. -/
def crowdedBlock : Bytes := [5, 194, 129, 0, 0, 0, 0, 0, 144, 86, 255, 19, 32]

/-- It is taken, though it is not a stream of the format. -/
theorem crowdedBlock_returned :
    puff crowdedBlock 1 = .ok (.ERR_NONE, [97]) ∧ ∀ data, ¬ Decompresses 30 crowdedBlock data := by
  let lit : List Nat := List.replicate 97 0 ++ (1 :: List.replicate 158 0 ++ [1])
  let dist : List Nat := [1, 1, 1]
  let rest : List Bool := codeword manyDistancesLens 18 ++ (toBits 7 86 ++
    (codeword manyDistancesLens 1 ++ (codeword manyDistancesLens 18 ++ (toBits 7 127 ++
    (codeword manyDistancesLens 18 ++ (toBits 7 9 ++ (codeword manyDistancesLens 1 ++
    (codeword manyDistancesLens 1 ++ (codeword manyDistancesLens 1 ++ (codeword manyDistancesLens 1 ++
    (codeword lit (97 : UInt8).toNat ++ (codeword lit 256 ++ [false, false]))))))))))))
  have hbits : bytesBits crowdedBlock = true :: false :: true ::
      (toBits 5 (lit.length - 257) ++ (toBits 5 (dist.length - 1) ++ (toBits 4 (18 - 4) ++
        ((lengthOrder.take 18).flatMap (fun symbol => toBits 3 (manyDistancesLens.getD symbol 0)) ++
          rest)))) := by
    decide +kernel
  have hread : List.replicate (11 + ofBits (toBits 7 86)) 0 ++ [1] ++
      List.replicate (11 + ofBits (toBits 7 127)) 0 ++ List.replicate (11 + ofBits (toBits 7 9)) 0 ++
      [1] ++ [1] ++ [1] ++ [1] = lit ++ dist := by
    decide +kernel
  have hcodes : CodeLengths manyDistancesLens rest []
      (codeword lit (97 : UInt8).toNat ++ (codeword lit 256 ++ [false, false])) (lit ++ dist) := by
    refine .manyZeros (by decide) (length_toBits _ _) (.length (by decide) (by decide)
      (.manyZeros (by decide) (length_toBits _ _) (.manyZeros (by decide) (length_toBits _ _)
      (.length (by decide) (by decide) (.length (by decide) (by decide) (.length (by decide) (by decide)
      (.length (by decide) (by decide) ?_)))))))
    rw [List.nil_append, hread]
    exact .done
  have hcomplete : Complete lit := by
    unfold Complete
    decide +kernel
  have hdescriptor : Descriptor _
      (codeword lit (97 : UInt8).toNat ++ (codeword lit 256 ++ [false, false])) lit dist :=
    ⟨by decide +kernel, by decide, ⟨manyDistancesLens, 18, rest, by decide, by decide, by decide,
      by decide, by decide, by unfold Complete; decide, rfl, hcodes⟩, by decide +kernel, .inl hcomplete⟩
  have hstream : AcceptedStream true (bytesBits crowdedBlock) [] [97] := by
    rw [hbits]
    exact .last (.crowded hdescriptor ⟨by decide, by decide⟩
      (.literal (by decide +kernel) (.endOfBlock (by decide +kernel))))
  refine ⟨?_, fun data => not_decompresses_of_crowded hstream⟩
  exact (puff_eq_ok_iff crowdedBlock 1 [97]).mpr ⟨true, [97], hstream, le_rfl, rfl⟩

end Inflate

end Nouns
