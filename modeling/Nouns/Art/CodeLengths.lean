import Nouns.Art.Codes

/-!
# CodeLengths — the header of a dynamic block

The lengths of the code length code come in an order of their own, and those of the other two codes
are written in it.
-/

open Bits CanonicalCode Deflate

namespace Nouns

namespace Inflate

/-! ## The code length code -/

/-- The lengths of the symbols that are passed are in the array, which is zero elsewhere. -/
structure Filled (lens passed lengths : List Nat) : Prop where
  length : lengths.length = MAXCODES
  get : ∀ symbol < MAXCODES,
    lengths[symbol]? = some (if symbol ∈ passed then lens.getD symbol 0 else 0)

theorem filled_nil (lens : List Nat) : Filled lens [] (List.replicate MAXCODES 0) := by
  refine ⟨List.length_replicate, fun symbol h => ?_⟩
  rw [List.getElem?_replicate, if_pos h, if_neg List.not_mem_nil]

theorem Filled.push {lens passed lengths : List Nat} (h : Filled lens passed lengths)
    (symbol : Nat) :
    Filled lens (passed ++ [symbol]) (lengths.set symbol (lens.getD symbol 0)) := by
  refine ⟨by rw [List.length_set, h.length], fun other hother => ?_⟩
  by_cases hsame : symbol = other
  · subst hsame
    rw [List.getElem?_set_self (by rw [h.length]; exact hother), if_pos (by simp)]
  · rw [List.getElem?_set_ne hsame, h.get other hother]
    simp [Ne.symm hsame]

theorem getAt_order : ∀ index < 19, getAt order index = .ok (order.getD index 0) := by
  decide

theorem getD_order_lt : ∀ index < 19, order.getD index 0 < 19 := by
  decide

namespace Setting

variable {c : Setting} {bits bits' rest : List Bool} {out : Bytes} {lens passed lengths : List Nat}

/-- The lengths that are written. -/
theorem parses_written (hlens : ∀ symbol, lens.getD symbol 0 < 8) {indices : List Nat}
    (hindices : ∀ index ∈ indices, index < 19) (h : Filled lens passed lengths) :
    ∃ lengths', Filled lens (passed ++ indices.map (order.getD · 0)) lengths' ∧
      c.Parses (indices.foldlM (fun lengths index => do
          let len ← Inflate.bits 3
          setAt lengths (← getAt order index) len) lengths)
        ((indices.map (order.getD · 0)).flatMap (fun symbol => toBits 3 (lens.getD symbol 0)) ++ rest)
        out lengths' rest out := by
  induction indices generalizing passed lengths with
  | nil =>
    refine ⟨lengths, ?_, parses_pure lengths⟩
    rw [List.map_nil, List.append_nil]
    exact h
  | cons index indices ih =>
    obtain ⟨hindex, hindices⟩ := List.forall_mem_cons.mp hindices
    have hsymbol := getD_order_lt index hindex
    have hmax : order.getD index 0 < MAXCODES := hsymbol.trans (by decide)
    obtain ⟨lengths', hfilled, hparses⟩ := ih hindices (h.push _)
    rw [List.append_assoc] at hfilled
    refine ⟨lengths', hfilled, ?_⟩
    rw [List.foldlM_cons, List.map_cons, List.flatMap_cons, List.append_assoc]
    refine Parses.bind ((parses_number (hlens _)).bind
      ((parses_lift (getAt_order index hindex)).bind ?_)) hparses
    exact parses_lift (setAt_eq_ok.mpr ⟨by rw [h.length]; exact hmax, rfl⟩)

/-- The lengths that are not written are zero. -/
theorem parses_unwritten {indices : List Nat} (hindices : ∀ index ∈ indices, index < 19)
    (hzero : ∀ index ∈ indices, lens.getD (order.getD index 0) 0 = 0)
    (h : Filled lens passed lengths) :
    ∃ lengths', Filled lens (passed ++ indices.map (order.getD · 0)) lengths' ∧
      c.Parses (indices.foldlM (fun lengths index => do setAt lengths (← getAt order index) 0) lengths)
        bits out lengths' bits out := by
  induction indices generalizing passed lengths with
  | nil =>
    refine ⟨lengths, ?_, parses_pure lengths⟩
    rw [List.map_nil, List.append_nil]
    exact h
  | cons index indices ih =>
    obtain ⟨hindex, hindices⟩ := List.forall_mem_cons.mp hindices
    obtain ⟨hhead, hzero⟩ := List.forall_mem_cons.mp hzero
    have hsymbol := getD_order_lt index hindex
    have hmax : order.getD index 0 < MAXCODES := hsymbol.trans (by decide)
    have hpush := h.push (order.getD index 0)
    rw [hhead] at hpush
    obtain ⟨lengths', hfilled, hparses⟩ := ih hindices hzero hpush
    rw [List.append_assoc] at hfilled
    refine ⟨lengths', hfilled, ?_⟩
    rw [List.foldlM_cons]
    refine Parses.bind ((parses_lift (getAt_order index hindex)).bind ?_) hparses
    exact parses_lift (setAt_eq_ok.mpr ⟨by rw [h.length]; exact hmax, rfl⟩)

end Setting

theorem map_order_range : ∀ ncode ≤ 19,
    (List.range ncode).map (order.getD · 0) = lengthOrder.take ncode := by
  decide

theorem map_order_range' : ∀ ncode ≤ 19,
    (List.range' ncode (19 - ncode)).map (order.getD · 0) = lengthOrder.drop ncode := by
  decide

theorem mem_lengthOrder : ∀ symbol < 19, symbol ∈ lengthOrder := by
  decide

/-- When all symbols are passed the array begins with the code. -/
theorem Filled.slice_eq {lens lengths : List Nat} (hlens : lens.length = 19)
    (h : Filled lens lengthOrder lengths) : slice lengths 0 19 = lens := by
  have hlength : (slice lengths 0 19).length = 19 := length_slice (by
    rw [h.length]
    decide)
  refine List.ext_getElem? fun symbol => ?_
  by_cases hsymbol : symbol < 19
  · rw [slice, List.getElem?_take_of_lt hsymbol, List.drop_zero,
      h.get symbol (hsymbol.trans (by decide)), if_pos (mem_lengthOrder symbol hsymbol),
      List.getD_eq_getElem?_getD, List.getElem?_eq_getElem (by omega), Option.getD_some]
  · rw [List.getElem?_eq_none (by omega), List.getElem?_eq_none (by omega)]

theorem Filled.le {lens passed lengths : List Nat} (hlens : ∀ symbol, lens.getD symbol 0 < 8)
    (h : Filled lens passed lengths) : ∀ l ∈ lengths, l ≤ MAXBITS := by
  intro l hl
  obtain ⟨symbol, hsymbol⟩ := List.mem_iff_getElem?.mp hl
  have hlt : symbol < MAXCODES := h.length ▸ (List.getElem?_eq_some_iff.mp hsymbol).1
  have hget := (h.get symbol hlt).symm.trans hsymbol
  have := hlens symbol
  change l ≤ 15
  split at hget <;> simp only [Option.some.injEq] at hget <;> omega

theorem getD_lt {lens : List Nat} {bound : Nat} (hlens : ∀ l ∈ lens, l < bound) (hpos : 0 < bound)
    (symbol : Nat) : lens.getD symbol 0 < bound := by
  rw [List.getD_eq_getElem?_getD]
  cases h : lens[symbol]? with
  | none => exact hpos
  | some l => exact hlens l (List.mem_of_getElem? h)

/-- The code length code is read. -/
theorem Setting.parses_buildDynamicLengths {c : Setting} {rest : List Bool} {out : Bytes}
    {lens : List Nat} {ncode : Nat} (hlens : ∀ l ∈ lens, l < 8) (hncode : 4 ≤ ncode ∧ ncode ≤ 19)
    (hzero : ∀ symbol ∈ lengthOrder.drop ncode, ¬ IsCoded lens symbol) :
    ∃ lengths, Filled lens lengthOrder lengths ∧
      c.Parses buildDynamicLengths (toBits 4 (ncode - 4) ++
        ((lengthOrder.take ncode).flatMap (fun symbol => toBits 3 (lens.getD symbol 0)) ++ rest)) out
        lengths rest out := by
  have hlt := getD_lt hlens (by decide)
  obtain ⟨lengths₁, hfilled₁, hwritten⟩ := @parses_written c rest out lens [] _ hlt
    (List.range ncode) (fun index h => (List.mem_range.mp h).trans_le hncode.2) (filled_nil lens)
  have hindices : ∀ index ∈ List.range' ncode (19 - ncode), index < 19 := fun index h => by
    have := List.mem_range'_1.mp h
    omega
  have hunwritten : ∀ index ∈ List.range' ncode (19 - ncode), lens.getD (order.getD index 0) 0 = 0 := by
    intro index h
    refine not_not.mp (hzero _ ?_)
    rw [← map_order_range' ncode hncode.2]
    exact List.mem_map_of_mem h
  obtain ⟨lengths₂, hfilled₂, hunwritten'⟩ := @parses_unwritten c rest out lens _ _ _ hindices
    hunwritten hfilled₁
  rw [map_order_range ncode hncode.2] at hwritten
  rw [map_order_range ncode hncode.2, map_order_range' ncode hncode.2, List.nil_append,
    List.take_append_drop] at hfilled₂
  refine ⟨lengths₂, hfilled₂, ?_⟩
  rw [buildDynamicLengths]
  refine (parses_number (by omega)).bind ?_
  dsimp only
  rw [Nat.sub_add_cancel hncode.1]
  exact hwritten.bind hunwritten'

/-! ## The lengths of the other codes -/

/-- The lengths that are read stand at the start of the array. -/
structure ReadTo (read lengths : List Nat) : Prop where
  length : lengths.length = MAXCODES
  taken : lengths.take read.length = read
  max : ∀ l ∈ lengths, l ≤ MAXBITS

theorem ReadTo.push {read lengths : List Nat} (h : ReadTo read lengths) {l : Nat} (hl : l ≤ MAXBITS)
    (hroom : read.length < MAXCODES) :
    setAt lengths read.length l = .ok (lengths.set read.length l) ∧
      ReadTo (read ++ [l]) (lengths.set read.length l) := by
  have hlt : read.length < lengths.length := by rw [h.length]; exact hroom
  refine ⟨setAt_eq_ok.mpr ⟨hlt, rfl⟩, by rw [List.length_set, h.length], ?_, fun l' hl' => ?_⟩
  · rw [List.length_append, List.length_singleton, List.take_add_one, List.take_set_of_le le_rfl,
      h.taken, List.getElem?_set_self hlt, Option.toList_some]
  · rcases List.mem_or_eq_of_mem_set hl' with hmem | rfl
    · exact h.max l' hmem
    · exact hl

theorem repeatLength_ok {read lengths : List Nat} (h : ReadTo read lengths) {l n : Nat}
    (hl : l ≤ MAXBITS) (hroom : read.length + n ≤ MAXCODES) :
    ∃ lengths', repeatLength l n (lengths, read.length) = .ok (lengths', read.length + n) ∧
      ReadTo (read ++ List.replicate n l) lengths' := by
  induction n generalizing read lengths with
  | zero =>
    refine ⟨lengths, rfl, ?_⟩
    rw [List.replicate_zero, List.append_nil]
    exact h
  | succ n ih =>
    obtain ⟨hset, hpush⟩ := h.push hl (by omega)
    have hlength : (read ++ [l]).length = read.length + 1 := by
      rw [List.length_append, List.length_singleton]
    obtain ⟨lengths', hrun, hread⟩ := ih hpush (by omega)
    rw [hlength, Nat.add_assoc, Nat.add_comm 1 n] at hrun
    rw [List.append_assoc, List.singleton_append, ← List.replicate_succ] at hread
    refine ⟨lengths', ?_, hread⟩
    rw [repeatLength, hset]
    exact hrun

theorem ReadTo.getAt_last {read lengths : List Nat} (h : ReadTo read lengths) {l : Nat}
    (hlast : read.getLast? = some l) : getAt lengths (read.length - 1) = .ok l := by
  rw [List.getLast?_eq_getElem?] at hlast
  have hlt := (List.getElem?_eq_some_iff.mp hlast).1
  rw [← h.taken, List.getElem?_take_of_lt (by rw [h.taken]; exact hlt), h.taken] at hlast
  exact getAt_eq_ok.mpr hlast

namespace Setting

variable {c : Setting} {bits bits' : List Bool} {out : Bytes} {lens read read' lengths : List Nat}

/-- A length is repeated and the rest is read. -/
theorem parses_repeatLength {lencode : Huffman} {total fuel l n : Nat} (h : ReadTo read lengths)
    (hl : l ≤ MAXBITS) (hroom : read.length + n ≤ MAXCODES)
    (hrest : ∀ {lengths : List Nat}, ReadTo (read ++ List.replicate n l) lengths →
      ∃ lengths', ReadTo read' lengths' ∧ c.Parses (readLengths lencode total fuel
        (lengths, (read ++ List.replicate n l).length)) bits out lengths' bits' out) :
    ∃ lengths', ReadTo read' lengths' ∧
      c.Parses (do
          let state ← liftM (repeatLength l n (lengths, read.length))
          readLengths lencode total fuel state) bits out lengths' bits' out := by
  obtain ⟨lengths₁, hrepeat, hread₁⟩ := repeatLength_ok h hl hroom
  obtain ⟨lengths', hread, hparses⟩ := hrest hread₁
  rw [List.length_append, List.length_replicate] at hparses
  exact ⟨lengths', hread, (parses_lift hrepeat).bind hparses⟩

/-- Every iteration reads one more length at least, up to `total`. -/
theorem parses_readLengths {lencode : Huffman} (hlens : c.Decodes lens 19 lencode)
    (hcodes : CodeLengths lens bits read bits' read') {total : Nat} (htotal : read'.length = total)
    (hmax : total ≤ MAXCODES) {fuel : Nat} (hfuel : total ≤ read.length + fuel)
    (h : ReadTo read lengths) :
    ∃ lengths', ReadTo read' lengths' ∧
      c.Parses (readLengths lencode total fuel (lengths, read.length)) bits out lengths' bits' out := by
  induction hcodes generalizing lengths fuel with
  | @done bits read =>
    refine ⟨lengths, h, ?_⟩
    cases fuel with
    | zero => exact parses_pure lengths
    | succ fuel =>
      rw [readLengths, if_neg (by omega)]
      exact parses_pure lengths
  | @length bits _ read _ l hl hcoded hrest ih =>
    have hle := hrest.length_le
    rw [List.length_append, List.length_singleton] at hle
    obtain ⟨fuel, rfl⟩ : ∃ fuel', fuel = fuel' + 1 := ⟨fuel - 1, by omega⟩
    obtain ⟨hset, hpush⟩ := h.push (Nat.lt_succ_iff.mp hl) (by omega)
    have hlength : (read ++ [l]).length = read.length + 1 := by
      rw [List.length_append, List.length_singleton]
    obtain ⟨lengths', hread, hparses⟩ :=
      ih htotal (show total ≤ (read ++ [l]).length + fuel by omega) hpush
    rw [hlength] at hparses
    refine ⟨lengths', hread, ?_⟩
    rw [readLengths, if_pos (by omega)]
    refine (hlens l (by omega) hcoded bits out).bind ?_
    rw [if_pos hl]
    exact (parses_lift hset).bind hparses
  | @again bits _ extra read _ l hlast hcoded hextra hrest ih =>
    have hle := hrest.length_le
    rw [List.length_append, List.length_replicate] at hle
    obtain ⟨fuel, rfl⟩ : ∃ fuel', fuel = fuel' + 1 := ⟨fuel - 1, by omega⟩
    have hpos : 0 < read.length := List.length_pos_iff.mpr (fun hnil => by simp [hnil] at hlast)
    have hget := h.getAt_last hlast
    have hl : l ≤ MAXBITS := h.max l (List.mem_of_getElem? (getAt_eq_ok.mp hget))
    have hleft : total ≤ (read ++ List.replicate (3 + ofBits extra) l).length + fuel := by
      rw [List.length_append, List.length_replicate]
      omega
    obtain ⟨lengths', hread, hparses⟩ := parses_repeatLength h hl (by omega) (ih htotal hleft)
    refine ⟨lengths', hread, ?_⟩
    rw [readLengths, if_pos (by omega)]
    refine (hlens 16 (by decide) hcoded _ out).bind ?_
    dsimp only
    rw [if_neg (by decide), if_pos rfl, if_neg (by omega)]
    refine (parses_lift hget).bind ((parses_bits hextra).bind ?_)
    rw [if_neg (by omega)]
    exact hparses
  | @zeros bits _ extra read _ hcoded hextra hrest ih =>
    have hle := hrest.length_le
    rw [List.length_append, List.length_replicate] at hle
    obtain ⟨fuel, rfl⟩ : ∃ fuel', fuel = fuel' + 1 := ⟨fuel - 1, by omega⟩
    have hleft : total ≤ (read ++ List.replicate (3 + ofBits extra) 0).length + fuel := by
      rw [List.length_append, List.length_replicate]
      omega
    obtain ⟨lengths', hread, hparses⟩ :=
      parses_repeatLength h (Nat.zero_le MAXBITS) (by omega) (ih htotal hleft)
    refine ⟨lengths', hread, ?_⟩
    rw [readLengths, if_pos (by omega)]
    refine (hlens 17 (by decide) hcoded _ out).bind ?_
    dsimp only
    rw [if_neg (by decide), if_neg (by decide), if_pos rfl]
    refine (parses_bits hextra).bind ?_
    rw [if_neg (by omega)]
    exact hparses
  | @manyZeros bits _ extra read _ hcoded hextra hrest ih =>
    have hle := hrest.length_le
    rw [List.length_append, List.length_replicate] at hle
    obtain ⟨fuel, rfl⟩ : ∃ fuel', fuel = fuel' + 1 := ⟨fuel - 1, by omega⟩
    have hleft : total ≤ (read ++ List.replicate (11 + ofBits extra) 0).length + fuel := by
      rw [List.length_append, List.length_replicate]
      omega
    obtain ⟨lengths', hread, hparses⟩ :=
      parses_repeatLength h (Nat.zero_le MAXBITS) (by omega) (ih htotal hleft)
    refine ⟨lengths', hread, ?_⟩
    rw [readLengths, if_pos (by omega)]
    refine (hlens 18 (by decide) hcoded _ out).bind ?_
    dsimp only
    rw [if_neg (by decide), if_neg (by decide), if_neg (by decide)]
    refine (parses_bits hextra).bind ?_
    rw [if_neg (by omega)]
    exact hparses

end Setting

end Inflate

end Nouns
