import Nouns.Art.Tables
import Nouns.Art.Unchecked

/-!
# Unrolling — loops written out five iterations at a time

The loops of `decode` and `construct` do what loops with one code length for each iteration do.
-/

open Fallible CanonicalCode WordArithmetic

namespace Nouns

namespace Inflate

/-- The words of the EVM as an `unchecked` block computes with them. -/
def unchecked : Arithmetic Revert := wrapping Revert 256

/-! ## Decoding -/

namespace Plain

/-- The loop of the decoder with one code length for each iteration, from `len` on. -/
def decodeFrom (A : Arithmetic Revert) (h : Huffman) :
    (fuel len code first index : Nat) → Puff Nat
  | 0, _, _, _, _ => throw .ERR_INVALID_LENGTH_OR_DISTANCE_CODE
  | fuel + 1, len, code, first, index => do
    let code := code ||| (← Unchecked.bits A 1)
    let count ← getAt h.counts len
    if code < (← A.add first count) then getAt h.symbols (← A.add index (← A.sub code first))
    else
      let index ← A.add index count
      let first ← A.shl (← A.add first count) 1
      decodeFrom A h fuel (len + 1) (← A.shl code 1) first index

def decode (A : Arithmetic Revert) (h : Huffman) : Puff Nat := decodeFrom A h MAXBITS 1 0 0 0

end Plain

variable {A : Arithmetic Revert}

theorem ok_bind {α β : Type} (a : α) (f : α → Tx β) : (Except.ok a >>= f) = f a := rfl

theorem liftM_ok_bind {α β : Type} (a : α) (f : α → Puff β) :
    ((liftM (Except.ok a : Tx α) : Puff α) >>= f) = f a := rfl

/-- A counter of code lengths is far below the word size. -/
theorem add_len (hA : Exact 256 A) {len k : Nat} (hlen : len + k ≤ 20) :
    A.add len k = .ok (len + k) := hA.add (lt_of_le_of_lt hlen (by decide))

/-- A part of the unrolled loop is an iteration of the plain one. -/
theorem decodePart_eq {h : Huffman} {fuel len : Nat} {next : Unchecked.Codes → Puff Nat}
    (hnext : ∀ c, next c = Plain.decodeFrom A h fuel (len + 1) c.code c.first c.index)
    (c : Unchecked.Codes) :
    Unchecked.decodePart A h len c next =
      Plain.decodeFrom A h (fuel + 1) len c.code c.first c.index := by
  unfold Unchecked.decodePart
  rw [Plain.decodeFrom]
  simp only [hnext]

theorem decodeLoop_eq (hA : Exact 256 A) {h : Huffman} {chunks fuel len : Nat}
    (hfuel : chunks < fuel) (hlen : len + 5 * chunks = MAXBITS + 1) (c : Unchecked.Codes) :
    Unchecked.decodeLoop A h fuel len c =
      Plain.decodeFrom A h (5 * chunks) len c.code c.first c.index := by
  induction chunks generalizing fuel len c with
  | zero =>
    obtain ⟨fuel, rfl⟩ : ∃ n, fuel = n + 1 := ⟨fuel - 1, by omega⟩
    rw [Unchecked.decodeLoop, if_neg (by omega)]
    rfl
  | succ chunks ih =>
    obtain ⟨fuel, rfl⟩ : ∃ n, fuel = n + 1 := ⟨fuel - 1, by omega⟩
    have hmax : MAXBITS = 15 := rfl
    rw [Unchecked.decodeLoop, if_pos (by omega), add_len hA (by omega), add_len hA (by omega),
      add_len hA (by omega), add_len hA (by omega), add_len hA (by omega)]
    simp only [liftM_ok_bind]
    -- From the last part to the first, each goes on as the plain loop does.
    apply decodePart_eq; intro c
    apply decodePart_eq; intro c
    apply decodePart_eq; intro c
    apply decodePart_eq; intro c
    apply decodePart_eq; intro c
    exact ih (by omega) (by omega) c

theorem decode_eq_plain (hA : Exact 256 A) (h : Huffman) :
    Unchecked.decode A h = Plain.decode A h :=
  decodeLoop_eq hA (show 3 < 4 by decide) rfl ⟨0, 0, 0⟩

/-! ## The check of the code lengths -/

theorem leftPart_eq (hA : Exact 256 A) {counts : List Nat} {fuel len left : Nat}
    {next : Nat → Tx (Option Nat)} (hleft : left ≤ 2 ^ len) (hlen : len ≤ MAXBITS)
    (hnext : ∀ left, left ≤ 2 ^ (len + 1) → next left = codesLeft counts fuel (len + 1) left) :
    Unchecked.leftPart A counts len left next = codesLeft counts (fuel + 1) len left := by
  have hmax : MAXBITS = 15 := rfl
  have hdouble : left <<< 1 ≤ 2 ^ (len + 1) := by
    rw [Nat.shiftLeft_eq, pow_one, pow_succ]
    exact Nat.mul_le_mul_right 2 hleft
  have hword : left <<< 1 < 2 ^ 256 :=
    hdouble.trans_lt (Nat.pow_lt_pow_right (by decide) (by omega))
  unfold Unchecked.leftPart
  rw [codesLeft, hA.shl hword, ok_bind]
  cases getAt counts len with
  | error e => rfl
  | ok count =>
    rw [ok_bind, ok_bind]
    by_cases hover : left <<< 1 < count
    · rw [if_pos hover, if_pos hover]
    · rw [if_neg hover, if_neg hover, hA.sub (by omega) hword, ok_bind]
      exact hnext _ ((Nat.sub_le _ _).trans hdouble)

theorem codesLeft_eq (hA : Exact 256 A) {counts : List Nat} {chunks fuel len left : Nat}
    (hfuel : chunks < fuel) (hlen : len + 5 * chunks = MAXBITS + 1) (hleft : left ≤ 2 ^ len) :
    Unchecked.codesLeft A counts fuel len left = codesLeft counts (5 * chunks) len left := by
  induction chunks generalizing fuel len left with
  | zero =>
    obtain ⟨fuel, rfl⟩ : ∃ n, fuel = n + 1 := ⟨fuel - 1, by omega⟩
    rw [Unchecked.codesLeft, if_neg (by omega)]
    rfl
  | succ chunks ih =>
    obtain ⟨fuel, rfl⟩ : ∃ n, fuel = n + 1 := ⟨fuel - 1, by omega⟩
    have hmax : MAXBITS = 15 := rfl
    rw [Unchecked.codesLeft, if_pos (by omega), add_len hA (by omega), add_len hA (by omega),
      add_len hA (by omega), add_len hA (by omega), add_len hA (by omega)]
    simp only [ok_bind]
    apply leftPart_eq hA hleft (by omega); intro left hleft
    apply leftPart_eq hA hleft (by omega); intro left hleft
    apply leftPart_eq hA hleft (by omega); intro left hleft
    apply leftPart_eq hA hleft (by omega); intro left hleft
    apply leftPart_eq hA hleft (by omega); intro left hleft
    exact ih (by omega) (by omega) hleft

/-! ## Tables -/

section

variable {lengths : List Nat} {start n : Nat}

theorem countLengths_eq (hA : Exact 256 A) (hlength : start + n ≤ lengths.length)
    (hwords : lengths.length < 2 ^ 256) (hmax : ∀ l ∈ lengths, l ≤ MAXBITS) :
    Unchecked.countLengths A lengths n start = countLengths lengths n start := by
  apply foldlM_congr
  intro k hk counts hrun
  rw [List.length_range] at hk
  rw [List.take_range, Nat.min_eq_left hk.le] at hrun
  obtain ⟨counts', hrun', hcounts⟩ := @countLengths_ok lengths start k (by omega) hmax
  obtain rfl : counts = counts' := Except.ok.inj (hrun.symm.trans hrun')
  have hlt : start + k < lengths.length := by omega
  have hle := hmax _ (List.getElem_mem hlt)
  rw [List.getElem_range, hA.add (by omega), ok_bind,
    getAt_eq_ok.mpr (List.getElem?_eq_getElem hlt)]
  generalize lengths[start + k] = len at hle
  -- A counter is at most the number of lengths seen.
  have hcount : (slice lengths start k).count len ≤ k :=
    List.count_le_length.trans (length_slice (by omega)).le
  rw [ok_bind, ok_bind, getAt_eq_ok.mpr (hcounts.count len hle), ok_bind, hA.add (by omega)]
  rfl

variable {counts code : List Nat}

theorem offsets_eq (hA : Exact 256 A) (hcounts : Counts counts code)
    (hwords : code.length < 2 ^ 256) : Unchecked.offsets A counts = offsets counts := by
  apply foldlM_congr
  intro k hk offs hrun
  rw [List.length_range'] at hk
  rw [List.take_range'_of_length_ge hk.le] at hrun
  obtain ⟨offs', hrun', -, hoff⟩ := offsets_below hcounts hk.le
  obtain rfl : offs = offs' := Except.ok.inj (hrun.symm.trans hrun')
  have hmax : MAXBITS = 15 := rfl
  have hle := @firstIndex_le_length code (k + 2)
  rw [firstIndex, codeCount_of_pos (by omega)] at hle
  rw [List.getElem_range', Nat.one_mul, Nat.add_comm 1 k,
    getAt_eq_ok.mpr (hoff (k + 1) (by omega) le_rfl), ok_bind,
    getAt_eq_ok.mpr (hcounts.count (k + 1) (by omega)), ok_bind, hA.add (by omega), ok_bind,
    add_len hA (by omega)]
  rfl

/-- No offset goes beyond the symbols. -/
def Bounded (state : List Nat × List Nat) : Prop :=
  ∀ l off, 1 ≤ l → state.1[l]? = some off → off ≤ state.2.length

theorem sortSymbol_eq (hA : Exact 256 A) {symbol : Nat} (hstart : start + symbol < 2 ^ 256)
    {state : List Nat × List Nat} (hbounded : Bounded state)
    (hsymbols : state.2.length + 1 < 2 ^ 256) :
    Unchecked.sortSymbol A lengths start state symbol = sortSymbol lengths start state symbol := by
  unfold Unchecked.sortSymbol sortSymbol
  rw [hA.add hstart, ok_bind]
  cases getAt lengths (start + symbol) with
  | error e => rfl
  | ok len =>
    rw [ok_bind, ok_bind]
    split
    · cases hoff : getAt state.1 len with
      | error e => rfl
      | ok off =>
        have hle := hbounded len off (by omega) (getAt_eq_ok.mp hoff)
        rw [ok_bind, ok_bind, hA.add (by omega), ok_bind]
    · rfl

theorem sortSymbol_bounded {symbol : Nat} {state state' : List Nat × List Nat}
    (h : sortSymbol lengths start state symbol = .ok state') (hbounded : Bounded state) :
    state'.2.length = state.2.length ∧ Bounded state' := by
  obtain ⟨len, -, h⟩ := bind_eq_ok.mp h
  split at h
  · obtain ⟨off, hoff, h⟩ := bind_eq_ok.mp h
    obtain ⟨offs, hset, h⟩ := bind_eq_ok.mp h
    obtain ⟨symbols, hsymbol, h⟩ := bind_eq_ok.mp h
    cases h
    obtain ⟨hlen, rfl⟩ := setAt_eq_ok.mp hset
    obtain ⟨hlt, rfl⟩ := setAt_eq_ok.mp hsymbol
    refine ⟨List.length_set, fun l off' hl hoff' => ?_⟩
    show off' ≤ (state.2.set off symbol).length
    rw [List.length_set]
    by_cases hsame : len = l
    · subst hsame
      rw [List.getElem?_set_self hlen] at hoff'
      cases hoff'
      exact hlt
    · rw [List.getElem?_set_ne hsame] at hoff'
      exact hbounded l off' hl hoff'
  · cases h
    exact ⟨rfl, hbounded⟩

theorem sortSymbols_eq (hA : Exact 256 A) {offs symbols : List Nat}
    (hstart : start + n ≤ 2 ^ 256) (hsymbols : symbols.length + 1 < 2 ^ 256)
    (hbounded : Bounded (offs, symbols)) :
    Unchecked.sortSymbols A lengths n start offs symbols =
      sortSymbols lengths n start offs symbols := by
  unfold Unchecked.sortSymbols sortSymbols
  refine congrArg (· >>= _) (foldlM_congr fun k hk state hrun => ?_)
  rw [List.length_range] at hk
  rw [List.getElem_range]
  let Kept (state : List Nat × List Nat) : Prop :=
    state.2.length = symbols.length ∧ Bounded state
  obtain ⟨hsame, hstate⟩ : Kept state := by
    refine foldlM_ok hrun ⟨rfl, hbounded⟩ fun symbol _ u v hu hv => ?_
    obtain ⟨hlength, hbounded'⟩ := sortSymbol_bounded hv hu.2
    exact ⟨hlength.trans hu.1, hbounded'⟩
  exact sortSymbol_eq hA (by omega) hstate (by omega)

end

/-- The table and the error code are those of the plain loops. -/
theorem construct_eq (hA : Exact 256 A) {h : Huffman} {lengths : List Nat} {n start : Nat}
    (hlength : start + n ≤ lengths.length) (hwords : lengths.length < 2 ^ 256)
    (hmax : ∀ l ∈ lengths, l ≤ MAXBITS) (hsymbols : h.symbols.length + 1 < 2 ^ 256)
    (hroom : n ≤ h.symbols.length) :
    Unchecked.construct A h lengths n start = construct h lengths n start := by
  obtain ⟨counts, hcountLengths, hcounts⟩ := countLengths_ok hlength hmax
  have hn := length_slice hlength
  unfold Unchecked.construct construct
  rw [countLengths_eq hA hlength hwords hmax, hcountLengths, ok_bind, ok_bind,
    getAt_eq_ok.mpr (hcounts.count 0 (Nat.zero_le _)), ok_bind, ok_bind,
    codesLeft_eq hA (show 3 < 4 by decide) rfl (by decide), offsets_eq hA hcounts (by omega)]
  split
  · rfl
  · refine congrArg _ (funext fun verdict => ?_)
    cases verdict with
    | none => rfl
    | some left =>
      obtain ⟨offs, hoffsets, hoffs⟩ := offsets_ok hcounts
      dsimp only
      rw [hoffsets, ok_bind, ok_bind, sortSymbols_eq hA (by omega) hsymbols]
      intro l off hl hoff
      have hlt : l < offs.length := (List.getElem?_eq_some_iff.mp hoff).1
      rw [hoffs.2 l hl (by rw [hoffs.1] at hlt; omega)] at hoff
      cases hoff
      have hle := @firstIndex_le_length (slice lengths start n) l
      show firstIndex (slice lengths start n) l + 0 ≤ h.symbols.length
      omega

/-- The unrolled loops are the plain ones: `_decode` returns what the plain decoder does and leaves
the same state, and `_construct` comes to the same verdict, and to a table with the symbols in order
if the lengths are not over-subscribed.  If they are, it leaves the symbols as they are.  An array in
memory has less than `2 ^ 64` entries. -/
theorem unrolled_eq_plain :
    (∀ (h : Huffman) (s : State), h.counts.length = MAXBITS + 1 →
      (Unchecked.decode unchecked h).run.run s = (Plain.decode unchecked h).run.run s) ∧
    ∀ (h : Huffman) (lengths : List Nat) (n start : Nat), start + n ≤ lengths.length →
      lengths.length < 2 ^ 64 → (∀ l ∈ lengths, l ≤ MAXBITS) → n ≤ h.symbols.length →
      h.symbols.length < 2 ^ 64 → ∃ err h',
        Unchecked.construct unchecked h lengths n start = .ok (err, h') ∧
        Unchecked.codesLeft unchecked h'.counts 4 1 1 = codesLeft h'.counts MAXBITS 1 1 ∧
        construct h lengths n start = .ok (err, h') ∧
        (codesLeft h'.counts MAXBITS 1 1 ≠ .ok none → ListsInOrder (slice lengths start n)
          (h'.symbols.take (firstIndex (slice lengths start n) (MAXBITS + 1)))) ∧
        (codesLeft h'.counts MAXBITS 1 1 = .ok none → h'.symbols = h.symbols) := by
  have hA : Exact 256 unchecked := wrapping_exact
  have hwords : (2 : Nat) ^ 64 + 1 < 2 ^ 256 := by decide
  refine ⟨fun h s _ => by rw [decode_eq_plain hA], ?_⟩
  intro h lengths n start hlength hlengths hmax hroom hsymbols
  have hmax' : ∀ l ∈ slice lengths start n, l ≤ MAXBITS := fun l hl =>
    hmax l (List.mem_of_mem_drop (List.mem_of_mem_take hl))
  obtain ⟨err, h', hrun, hcounts, hsize, hcases⟩ := construct_cases hlength hmax hroom
  refine ⟨err, h', ?_, codesLeft_eq hA (show 3 < 4 by decide) rfl (by decide), hrun, ?_⟩
  · rw [construct_eq hA hlength (by omega) hmax (by omega) hroom, hrun]
  · rw [Ne, codesLeft_eq_none hcounts hmax']
    rcases hcases with ⟨hnone, -, hsame⟩ | ⟨hover, -, hsame⟩ | ⟨hkraft, -, -, htable⟩
    · exact ⟨fun _ => listsInOrder_take hmax' fun symbol hcoded => absurd hcoded (hnone symbol),
        fun _ => hsame⟩
    · exact ⟨fun hfits => absurd hover hfits, fun _ => hsame⟩
    · exact ⟨fun _ => listsInOrder_take hmax' htable.symbols, fun hover => by omega⟩

theorem unrolled_eq_plain_sample :
    (Unchecked.decode unchecked ⟨List.replicate 16 0, []⟩).run.run
        ⟨[], 0, [], 0, 0, 0, ⟨[], []⟩, ⟨[], []⟩⟩ =
      (Plain.decode unchecked ⟨List.replicate 16 0, []⟩).run.run
        ⟨[], 0, [], 0, 0, 0, ⟨[], []⟩, ⟨[], []⟩⟩ ∧
    ∃ err h', Unchecked.construct unchecked ⟨List.replicate 16 0, [0, 0, 0]⟩ [2, 1, 2] 3 0 =
        .ok (err, h') ∧
      Unchecked.codesLeft unchecked h'.counts 4 1 1 = codesLeft h'.counts MAXBITS 1 1 ∧
      construct ⟨List.replicate 16 0, [0, 0, 0]⟩ [2, 1, 2] 3 0 = .ok (err, h') ∧
      (codesLeft h'.counts MAXBITS 1 1 ≠ .ok none → ListsInOrder (slice [2, 1, 2] 0 3)
        (h'.symbols.take (firstIndex (slice [2, 1, 2] 0 3) (MAXBITS + 1)))) ∧
      (codesLeft h'.counts MAXBITS 1 1 = .ok none → h'.symbols = [0, 0, 0]) :=
  ⟨unrolled_eq_plain.1 ⟨List.replicate 16 0, []⟩ _ (by decide),
    unrolled_eq_plain.2 ⟨List.replicate 16 0, [0, 0, 0]⟩ [2, 1, 2] 3 0 (by decide) (by decide)
      (by decide) (by decide) (by decide)⟩

/-- Three codes of one bit are too many, and none of their symbols is put into the table. -/
theorem construct_overSubscribed :
    Unchecked.construct unchecked ⟨List.replicate 16 0, [0, 0, 0]⟩ [1, 1, 1] 3 0 =
        .ok (.ERR_CONSTRUCT, ⟨(List.replicate 16 0).set 1 3, [0, 0, 0]⟩) ∧
      ¬ ListsInOrder [1, 1, 1]
        (List.take (firstIndex [1, 1, 1] (MAXBITS + 1)) [0, 0, 0]) := by
  refine ⟨by decide, fun h => ?_⟩
  have hmem := (h.mem 1).mpr (by decide)
  revert hmem
  decide

end Inflate

end Nouns

