import Nouns.Art.Reading
import Nouns.Lib.CanonicalCode

/-!
# Tables — the decoding tables

`construct` makes the table of a canonical code, and `decode` reads the symbols of that code.
-/

open Fallible CanonicalCode Bits

namespace Nouns

namespace Inflate

/-! ## Code lengths -/

/-- The `n` lengths from `start` on. -/
def slice (lengths : List Nat) (start n : Nat) : List Nat := (lengths.drop start).take n

theorem slice_succ {lengths : List Nat} {start n len : Nat} (h : lengths[start + n]? = some len) :
    slice lengths start (n + 1) = slice lengths start n ++ [len] := by
  rw [slice, List.take_add_one, List.getElem?_drop, h, Option.toList_some]
  rfl

theorem length_slice {lengths : List Nat} {start n : Nat} (h : start + n ≤ lengths.length) :
    (slice lengths start n).length = n := by
  rw [slice, List.length_take, List.length_drop]
  omega

variable {lengths : List Nat} {start n : Nat}

/-- The counters hold the number of lengths seen. -/
structure Counts (counts : List Nat) (code : List Nat) : Prop where
  length : counts.length = MAXBITS + 1
  count : ∀ l ≤ MAXBITS, counts[l]? = some (code.count l)

theorem countLengths_ok (hlength : start + n ≤ lengths.length) (hmax : ∀ l ∈ lengths, l ≤ MAXBITS) :
    ∃ counts, countLengths lengths n start = .ok counts ∧ Counts counts (slice lengths start n) := by
  induction n with
  | zero =>
    refine ⟨_, rfl, List.length_replicate, fun l hl => ?_⟩
    rw [List.getElem?_replicate, if_pos (by omega), slice, List.take_zero, List.count_nil]
  | succ n ih =>
    obtain ⟨counts, hcounts, hcount⟩ := ih (by omega)
    have hlt : start + n < lengths.length := by omega
    have hlen : lengths[start + n]? = some lengths[start + n] := List.getElem?_eq_getElem hlt
    have hle := hmax _ (List.getElem_mem hlt)
    generalize lengths[start + n] = len at hlen hle
    refine ⟨counts.set len ((slice lengths start n).count len + 1), ?_, ?_, ?_⟩
    · rw [countLengths] at hcounts ⊢
      rw [List.range_succ, List.foldlM_append, hcounts]
      simp only [List.foldlM_cons, List.foldlM_nil, bind_pure, bind_eq_ok, Except.ok.injEq,
        getAt_eq_ok, setAt_eq_ok]
      exact ⟨counts, rfl, len, hlen, _, hcount.count len hle, by rw [hcount.length]; omega, rfl⟩
    · rw [List.length_set, hcount.length]
    · intro l hl
      rw [slice_succ hlen, List.count_append, List.count_singleton]
      by_cases hsame : len = l
      · subst hsame
        rw [List.getElem?_set_self (by rw [hcount.length]; omega), beq_self_eq_true, if_pos rfl]
      · rw [List.getElem?_set_ne hsame, hcount.count l hl, beq_false_of_ne hsame,
          if_neg Bool.false_ne_true, Nat.add_zero]

/-! ## Codes that are left -/

variable {counts code : List Nat}

/-- Either the codes do not fit, or what they leave of the code space is left. -/
theorem codesLeft_cases (hcounts : Counts counts code) {fuel len left : Nat}
    (hlen : len + fuel = MAXBITS) (hleft : left + (firstCode code len + codeCount code len) = 2 ^ len) :
    codesLeft counts fuel (len + 1) left = .ok none ∧ 2 ^ MAXBITS < kraft code MAXBITS ∨
      ∃ left', codesLeft counts fuel (len + 1) left = .ok (some left') ∧
        left' + (firstCode code MAXBITS + codeCount code MAXBITS) = 2 ^ MAXBITS := by
  induction fuel generalizing len left with
  | zero =>
    obtain rfl : len = MAXBITS := by omega
    exact Or.inr ⟨left, rfl, hleft⟩
  | succ fuel ih =>
    have hcount := hcounts.count (len + 1) (by omega)
    have hcodes : codeCount code (len + 1) = code.count (len + 1) := codeCount_of_pos (by omega)
    have hfirst : firstCode code (len + 1) = (firstCode code len + codeCount code len) * 2 := rfl
    have hpow : 2 ^ (len + 1) = 2 ^ len * 2 := pow_succ 2 len
    have hshift : left <<< 1 = left * 2 := by rw [Nat.shiftLeft_eq, pow_one]
    rw [codesLeft, getAt_eq_ok.mpr hcount]
    change ((if left <<< 1 < code.count (len + 1) then _ else _) = _ ∧ _) ∨
      ∃ left', (if left <<< 1 < code.count (len + 1) then _ else _) = _ ∧ _
    by_cases hover : left <<< 1 < code.count (len + 1)
    · rw [if_pos hover]
      refine Or.inl ⟨rfl, ?_⟩
      by_contra hkraft
      have hfits := firstCode_add_codeCount_le (Nat.le_of_not_lt hkraft)
        (show len + 1 ≤ MAXBITS by omega)
      omega
    · rw [if_neg hover]
      exact ih (by omega) (by omega)

/-- The check finds too many codes exactly if they do not fit. -/
theorem codesLeft_eq_none (hcounts : Counts counts code) (hmax : ∀ l ∈ code, l ≤ MAXBITS) :
    codesLeft counts MAXBITS 1 1 = .ok none ↔ 2 ^ MAXBITS < kraft code MAXBITS := by
  rcases codesLeft_cases hcounts (Nat.zero_add _)
      (show 1 + (firstCode code 0 + codeCount code 0) = 2 ^ 0 from rfl) with
    ⟨hnone, hover⟩ | ⟨left, hleft, hspace⟩
  · exact iff_of_true hnone hover
  · have hfull := @kraftTo_eq code _ _ (le_refl MAXBITS)
    rw [kraftTo_max hmax, Nat.sub_self, pow_zero, Nat.mul_one] at hfull
    rw [Nat.zero_add] at hleft
    rw [hleft]
    exact iff_of_false (fun h => nomatch h) (by omega)

/-! ## Offsets -/

/-- Where the symbols of each length begin, with so many of each passed. -/
def Offsets (code passed offs : List Nat) : Prop :=
  offs.length = MAXBITS + 1 ∧
    ∀ l, 1 ≤ l → l ≤ MAXBITS → offs[l]? = some (firstIndex code l + passed.count l)

theorem offsets_below (hcounts : Counts counts code) {k : Nat} (hk : k ≤ MAXBITS - 1) :
    ∃ offs, (List.range' 1 k).foldlM
        (fun offs len => do setAt offs (len + 1) ((← getAt offs len) + (← getAt counts len)))
        (List.replicate (MAXBITS + 1) 0) = (.ok offs : Tx (List Nat)) ∧
      offs.length = MAXBITS + 1 ∧ ∀ l, 1 ≤ l → l ≤ k + 1 → offs[l]? = some (firstIndex code l) := by
  induction k with
  | zero =>
    refine ⟨_, rfl, List.length_replicate, fun l hl hle => ?_⟩
    obtain rfl : l = 1 := by omega
    rfl
  | succ k ih =>
    obtain ⟨offs, hoffs, hlength, hoff⟩ := ih (by omega)
    have hk1 := hoff (k + 1) (by omega) le_rfl
    have hcount := hcounts.count (k + 1) (by omega)
    refine ⟨offs.set (k + 2) (firstIndex code (k + 1) + code.count (k + 1)), ?_, ?_, ?_⟩
    · rw [List.range'_1_concat, List.foldlM_append, hoffs]
      simp only [List.foldlM_cons, List.foldlM_nil, bind_pure, bind_eq_ok, Except.ok.injEq,
        getAt_eq_ok, setAt_eq_ok]
      rw [Nat.add_comm 1 k]
      exact ⟨offs, rfl, _, hk1, _, hcount, by omega, rfl⟩
    · rw [List.length_set, hlength]
    · intro l hl hle
      by_cases hlast : l = k + 2
      · subst hlast
        rw [List.getElem?_set_self (by omega), ← codeCount_of_pos (by omega)]
        rfl
      · rw [List.getElem?_set_ne (Ne.symm hlast)]
        exact hoff l hl (by omega)

theorem offsets_ok (hcounts : Counts counts code) :
    ∃ offs, offsets counts = .ok offs ∧ Offsets code [] offs := by
  obtain ⟨offs, hoffs, hlength, hoff⟩ := offsets_below hcounts le_rfl
  refine ⟨offs, hoffs, hlength, fun l hl hle => ?_⟩
  rw [hoff l hl hle, List.count_nil, Nat.add_zero]

/-! ## Symbols -/

/-- The symbols below `k` are sorted. -/
structure Sorted (code : List Nat) (k : Nat) (state : List Nat × List Nat) : Prop where
  offsets : Offsets code (code.take k) state.1
  symbols : ∀ symbol < k, IsCoded code symbol → state.2[place code symbol]? = some symbol

theorem sortSymbol_ok {k : Nat} (hlen : lengths[start + k]? = code[k]?) (hk : k < code.length)
    (hmax : ∀ l ∈ code, l ≤ MAXBITS) {state : List Nat × List Nat}
    (hroom : code.length ≤ state.2.length) (h : Sorted code k state) :
    ∃ state', sortSymbol lengths start state k = .ok state' ∧
      state'.2.length = state.2.length ∧ Sorted code (k + 1) state' := by
  have hget : code[k]? = some (code.getD k 0) := by
    rw [List.getD_eq_getElem?_getD, List.getElem?_eq_getElem hk, Option.getD_some]
  have hle : code.getD k 0 ≤ MAXBITS := hmax _ (List.mem_of_getElem? hget)
  have htake : code.take (k + 1) = code.take k ++ [code.getD k 0] := by
    rw [List.take_add_one, hget, Option.toList_some]
  rw [hget] at hlen
  by_cases hcoded : IsCoded code k
  · have hplace := place_lt_length hcoded
    have hoff := h.offsets.2 _ (Nat.pos_of_ne_zero hcoded) hle
    have hset : setAt state.1 (code.getD k 0) (place code k + 1) =
        .ok (state.1.set (code.getD k 0) (place code k + 1)) :=
      setAt_eq_ok.mpr ⟨by rw [h.offsets.1]; omega, rfl⟩
    have hsymbol : setAt state.2 (place code k) k = .ok (state.2.set (place code k) k) :=
      setAt_eq_ok.mpr ⟨hplace.trans_le hroom, rfl⟩
    refine ⟨(state.1.set (code.getD k 0) (place code k + 1), state.2.set (place code k) k), ?_,
      List.length_set, ⟨?_, ?_⟩, ?_⟩
    · rw [sortSymbol, getAt_eq_ok.mpr hlen]
      change (if code.getD k 0 ≠ 0 then _ else _) = _
      rw [if_pos (show code.getD k 0 ≠ 0 from hcoded), getAt_eq_ok.mpr hoff]
      change (setAt state.1 _ (place code k + 1) >>= fun _ => setAt state.2 (place code k) k >>= _) = _
      rw [hset, hsymbol]
      rfl
    · rw [List.length_set]
      exact h.offsets.1
    · intro l hl hle'
      rw [htake, List.count_append, List.count_singleton]
      by_cases hsame : code.getD k 0 = l
      · subst hsame
        rw [List.getElem?_set_self (by rw [h.offsets.1]; omega), beq_self_eq_true, if_pos rfl,
          ← Nat.add_assoc]
        rfl
      · rw [List.getElem?_set_ne hsame, h.offsets.2 l hl hle', beq_false_of_ne hsame,
          if_neg Bool.false_ne_true, Nat.add_zero]
    · intro symbol hsymbol' hcoded'
      rcases Nat.lt_succ_iff_lt_or_eq.mp hsymbol' with hlt | rfl
      · refine (List.getElem?_set_ne (place_ne hcoded' hcoded hlt).symm).trans ?_
        exact h.symbols symbol hlt hcoded'
      · exact List.getElem?_set_self (hplace.trans_le hroom)
  · -- A symbol without a code is passed over.
    have hzero : code.getD k 0 = 0 := not_not.mp hcoded
    refine ⟨state, ?_, rfl, ⟨h.offsets.1, ?_⟩, ?_⟩
    · rw [sortSymbol, getAt_eq_ok.mpr hlen]
      change (if code.getD k 0 ≠ 0 then _ else _) = _
      rw [if_neg (not_not.mpr hzero)]
      rfl
    · intro l hl hle'
      rw [htake, List.count_append, hzero, List.count_singleton, beq_false_of_ne (by omega),
        if_neg Bool.false_ne_true]
      exact h.offsets.2 l hl hle'
    · intro symbol hsymbol hcoded'
      rcases Nat.lt_succ_iff_lt_or_eq.mp hsymbol with hlt | rfl
      · exact h.symbols symbol hlt hcoded'
      · exact absurd hcoded' hcoded

theorem sortSymbols_ok (hlength : start + n ≤ lengths.length) (hmax : ∀ l ∈ lengths, l ≤ MAXBITS)
    {offs symbols : List Nat} (hoffs : Offsets (slice lengths start n) [] offs)
    (hroom : n ≤ symbols.length) :
    ∃ symbols', sortSymbols lengths n start offs symbols = .ok symbols' ∧
      symbols'.length = symbols.length ∧ ∀ symbol, IsCoded (slice lengths start n) symbol →
        symbols'[place (slice lengths start n) symbol]? = some symbol := by
  have hn := length_slice hlength
  have hmax' : ∀ l ∈ slice lengths start n, l ≤ MAXBITS := fun l hl =>
    hmax l (List.mem_of_mem_drop (List.mem_of_mem_take hl))
  have hloop : ∀ k ≤ n, ∃ state,
      (List.range k).foldlM (sortSymbol lengths start) (offs, symbols) = .ok state ∧
      state.2.length = symbols.length ∧ Sorted (slice lengths start n) k state := by
    intro k hk
    induction k with
    | zero => exact ⟨_, rfl, rfl, hoffs, fun _ h => absurd h (Nat.not_lt_zero _)⟩
    | succ k ih =>
      obtain ⟨state, hrun, hsize, hsorted⟩ := ih (by omega)
      have hlen : lengths[start + k]? = (slice lengths start n)[k]? := by
        rw [slice, List.getElem?_take_of_lt (by omega), List.getElem?_drop]
      obtain ⟨state', hstep, hsize', hsorted'⟩ :=
        sortSymbol_ok hlen (by omega) hmax' (by omega) hsorted
      refine ⟨state', ?_, hsize'.trans hsize, hsorted'⟩
      rw [List.range_succ, List.foldlM_append, hrun]
      change (sortSymbol lengths start state k >>= pure) = _
      rw [hstep]
      rfl
  obtain ⟨state, hrun, hsize, hsorted⟩ := hloop n le_rfl
  refine ⟨state.2, ?_, hsize, fun symbol hcoded => ?_⟩
  · rw [sortSymbols, hrun]
    rfl
  · exact hsorted.symbols symbol (hcoded.lt_length.trans_eq hn) hcoded

/-! ## Tables -/

/-- The table of a canonical code. -/
structure TableOf (code : List Nat) (h : Huffman) : Prop where
  counts : Counts h.counts code
  symbols : ∀ symbol, IsCoded code symbol → h.symbols[place code symbol]? = some symbol

/-- The codes are none, too many, or in the table, and the error code says whether they take all of
the code space. -/
theorem construct_cases (hlength : start + n ≤ lengths.length) (hmax : ∀ l ∈ lengths, l ≤ MAXBITS)
    {h : Huffman} (hroom : n ≤ h.symbols.length) :
    ∃ err h', construct h lengths n start = .ok (err, h') ∧
      Counts h'.counts (slice lengths start n) ∧ h'.symbols.length = h.symbols.length ∧
      ((∀ symbol, ¬ IsCoded (slice lengths start n) symbol) ∧ err = .ERR_NONE ∧
          h'.symbols = h.symbols ∨
        2 ^ MAXBITS < kraft (slice lengths start n) MAXBITS ∧ err = .ERR_CONSTRUCT ∧
          h'.symbols = h.symbols ∨
        kraft (slice lengths start n) MAXBITS ≤ 2 ^ MAXBITS ∧
          (∃ symbol, IsCoded (slice lengths start n) symbol) ∧
          err = (if kraft (slice lengths start n) MAXBITS = 2 ^ MAXBITS then .ERR_NONE
            else .ERR_CONSTRUCT) ∧
          TableOf (slice lengths start n) h') := by
  obtain ⟨counts, hcountLengths, hcounts⟩ := countLengths_ok hlength hmax
  have hn := length_slice hlength
  have hmax' : ∀ l ∈ slice lengths start n, l ≤ MAXBITS := fun l hl =>
    hmax l (List.mem_of_mem_drop (List.mem_of_mem_take hl))
  have hzero := getAt_eq_ok.mpr (hcounts.count 0 (Nat.zero_le _))
  have huncoded : (slice lengths start n).count 0 = n ↔
      ∀ symbol, ¬ IsCoded (slice lengths start n) symbol := by
    rw [← count_zero_eq_length, hn]
  rw [construct, hcountLengths]
  change ∃ err h', (getAt counts 0 >>= fun count => if count = n then _ else _) = _ ∧ _
  rw [hzero]
  change ∃ err h', (if (slice lengths start n).count 0 = n then _ else _) = _ ∧ _
  by_cases hnone : (slice lengths start n).count 0 = n
  · rw [if_pos hnone]
    exact ⟨.ERR_NONE, { h with counts }, rfl, hcounts, rfl, Or.inl ⟨huncoded.mp hnone, rfl, rfl⟩⟩
  · rw [if_neg hnone]
    rcases codesLeft_cases hcounts (Nat.zero_add _)
        (show 1 + (firstCode (slice lengths start n) 0 + codeCount (slice lengths start n) 0) = 2 ^ 0
          from rfl) with ⟨hleft, hover⟩ | ⟨left, hleft, hspace⟩
    · rw [hleft]
      exact ⟨.ERR_CONSTRUCT, { h with counts }, rfl, hcounts, rfl, Or.inr (Or.inl ⟨hover, rfl, rfl⟩)⟩
    · obtain ⟨offs, hoffsets, hoffs⟩ := offsets_ok hcounts
      obtain ⟨symbols, hsort, hsize, hsymbols⟩ := sortSymbols_ok hlength hmax hoffs hroom
      have hfull := @kraftTo_eq (slice lengths start n) _ _ (le_refl MAXBITS)
      rw [kraftTo_max hmax', Nat.sub_self, pow_zero, Nat.mul_one] at hfull
      rw [hleft, hoffsets]
      change ∃ err h', (sortSymbols lengths n start offs h.symbols >>= _) = _ ∧ _
      rw [hsort]
      refine ⟨_, _, rfl, hcounts, hsize, Or.inr (Or.inr ⟨by omega, ?_, ?_, hcounts, hsymbols⟩)⟩
      · exact not_forall_not.mp (mt huncoded.mpr hnone)
      · -- Nothing is left exactly if the codes take all of the code space.
        by_cases hcomplete : kraft (slice lengths start n) MAXBITS = 2 ^ MAXBITS
        · rw [if_pos hcomplete, if_neg (by omega)]
        · rw [if_neg hcomplete, if_pos (by omega)]

/-- The table is made, and the error code says whether all of the code space is taken. -/
theorem construct_ok (hlength : start + n ≤ lengths.length) (hmax : ∀ l ∈ lengths, l ≤ MAXBITS)
    (hkraft : kraft (slice lengths start n) MAXBITS ≤ 2 ^ MAXBITS) {h : Huffman}
    (hroom : n ≤ h.symbols.length) :
    ∃ err h', construct h lengths n start = .ok (err, h') ∧ TableOf (slice lengths start n) h' ∧
      h'.symbols.length = h.symbols.length ∧
      (err = .ERR_NONE ∨ err = .ERR_CONSTRUCT) ∧
      (err = .ERR_NONE ↔ kraft (slice lengths start n) MAXBITS = 2 ^ MAXBITS ∨
        ∀ symbol, ¬ IsCoded (slice lengths start n) symbol) := by
  obtain ⟨err, h', hrun, hcounts, hsize, hcases⟩ := construct_cases hlength hmax hroom
  refine ⟨err, h', hrun, ?_⟩
  rcases hcases with ⟨hnone, rfl, -⟩ | ⟨hover, -⟩ | ⟨-, ⟨symbol, hcoded⟩, rfl, htable⟩
  · exact ⟨⟨hcounts, fun symbol hcoded => absurd hcoded (hnone symbol)⟩, hsize, Or.inl rfl,
      iff_of_true rfl (Or.inr hnone)⟩
  · omega
  · have hsome : ¬ ∀ symbol, ¬ IsCoded (slice lengths start n) symbol :=
      fun hnone => hnone symbol hcoded
    refine ⟨htable, hsize, ?_, ?_⟩
    · split
      · exact Or.inl rfl
      · exact Or.inr rfl
    · rw [or_iff_left hsome]
      split
      next hcomplete => exact iff_of_true rfl hcomplete
      next hincomplete => exact iff_of_false (fun h => nomatch h) hincomplete

/-! ## Decoding -/

/-- The first bit of a code and the bits after it. -/
theorem reverse_toBits_succ (k n : Nat) :
    (toBits (k + 1) n).reverse = decide (n / 2 ^ k % 2 = 1) :: (toBits k n).reverse := by
  rw [toBits_add, List.reverse_append]
  rfl

/-- One more bit of a code. -/
theorem shift_or_bit (n k : Nat) :
    2 * (n / 2 ^ (k + 1)) ||| ofBits [decide (n / 2 ^ k % 2 = 1)] = n / 2 ^ k := by
  have hbit : ofBits [decide (n / 2 ^ k % 2 = 1)] = n / 2 ^ k % 2 := by
    rcases Nat.mod_two_eq_zero_or_one (n / 2 ^ k) with h | h <;> simp [ofBits, h]
  have hlt : n / 2 ^ k % 2 < 2 ^ 1 := Nat.mod_lt _ (by decide)
  have hor := Nat.shiftLeft_add_eq_or_of_lt hlt (n / 2 ^ (k + 1))
  rw [Nat.shiftLeft_eq, pow_one, Nat.mul_comm] at hor
  rw [hbit, ← hor, pow_succ, ← Nat.div_div_eq_div_mul]
  omega

variable {c : Setting} {h : Huffman} {bits : List Bool} {out : Bytes}

/-- The loop of `decode`, with `k` bits to follow after the next one. -/
theorem parses_decodeFrom (hh : TableOf code h) {symbol : Nat} (hcoded : IsCoded code symbol)
    (hlen : code.getD symbol 0 ≤ MAXBITS) {k len fuel : Nat}
    (hk : len + k = code.getD symbol 0) (hpos : 1 ≤ len) (hfuel : k < fuel) :
    c.Parses (decodeFrom h fuel len (2 * (codeOf code symbol / 2 ^ (k + 1))) (firstCode code len)
        (firstIndex code len))
      ((toBits (k + 1) (codeOf code symbol)).reverse ++ bits) out symbol bits out := by
  induction k generalizing len fuel with
  | zero =>
    obtain ⟨fuel, rfl⟩ : ∃ fuel', fuel = fuel' + 1 := ⟨fuel - 1, by omega⟩
    have hlast : len = code.getD symbol 0 := hk
    have hrank := rank_lt hcoded
    rw [codeCount_of_pos (hlast ▸ hpos)] at hrank
    have hcount := getAt_eq_ok.mpr (hh.counts.count len (hlast.trans_le hlen))
    have hsymbol := getAt_eq_ok.mpr (hh.symbols symbol hcoded)
    rw [reverse_toBits_succ, List.cons_append, decodeFrom]
    refine (Setting.parses_bit _).bind ?_
    dsimp only
    rw [shift_or_bit, pow_zero, Nat.div_one]
    refine (Setting.parses_lift hcount).bind ?_
    rw [hlast, if_pos (by rw [codeOf]; omega), codeOf, Nat.add_sub_cancel_left]
    exact Setting.parses_lift hsymbol
  | succ k ih =>
    obtain ⟨fuel, rfl⟩ : ∃ fuel', fuel = fuel' + 1 := ⟨fuel - 1, by omega⟩
    have hcount := getAt_eq_ok.mpr (hh.counts.count len (by omega))
    have hlonger := le_codeOf_div hk.symm
    rw [codeCount_of_pos hpos] at hlonger
    have hnext := ih (show len + 1 + k = code.getD symbol 0 by omega) (by omega)
      (show k < fuel by omega)
    rw [reverse_toBits_succ, List.cons_append, decodeFrom]
    refine (Setting.parses_bit _).bind ?_
    dsimp only
    rw [shift_or_bit]
    refine (Setting.parses_lift hcount).bind ?_
    rw [if_neg (by omega), Nat.shiftLeft_eq, Nat.shiftLeft_eq, pow_one, Nat.mul_comm _ 2,
      ← codeCount_of_pos hpos]
    exact hnext

/-- The bits of a symbol are decoded. -/
theorem parses_decode (hh : TableOf code h) (hkraft : kraft code MAXBITS ≤ 2 ^ MAXBITS)
    (hmax : ∀ l ∈ code, l ≤ MAXBITS) {symbol : Nat} (hcoded : IsCoded code symbol) :
    c.Parses (decode h) (codeword code symbol ++ bits) out symbol bits out := by
  have hlen : code.getD symbol 0 ≤ MAXBITS :=
    hmax _ (List.mem_of_getElem? (getElem?_of_isCoded hcoded))
  have hpos := Nat.pos_of_ne_zero hcoded
  have hlt := codeOf_lt hkraft hcoded hlen
  have hstart := @parses_decodeFrom code c h bits out hh symbol hcoded hlen
    (code.getD symbol 0 - 1) 1 MAXBITS (by omega) le_rfl (by omega)
  rw [Nat.sub_add_cancel hpos, Nat.div_eq_of_lt hlt] at hstart
  exact hstart

end Inflate

end Nouns
