import Mathlib.Algebra.BigOperators.Group.List.Basic
import Nouns.Lib.Bits

/-!
# CanonicalCode — prefix codes given by their lengths

A symbol is a place in a list of code lengths, and has no code if its length is 0.  The codes of a
length are consecutive numbers, in the order of their symbols, and follow those of the lengths below.
A code is written with its most significant bit first.
-/

namespace CanonicalCode

variable (lengths : List Nat)

/-- The number of codes of a length. -/
def codeCount (l : Nat) : Nat := if l = 0 then 0 else lengths.count l

/-- The first code of a length. -/
def firstCode : Nat → Nat
  | 0 => 0
  | l + 1 => (firstCode l + codeCount lengths l) * 2

/-- The symbols with codes that are shorter. -/
def firstIndex : Nat → Nat
  | 0 => 0
  | l + 1 => firstIndex l + codeCount lengths l

/-- The symbols before this one with its length. -/
def rank (symbol : Nat) : Nat := (lengths.take symbol).count (lengths.getD symbol 0)

/-- The place of a symbol in the order of the codes. -/
def place (symbol : Nat) : Nat := firstIndex lengths (lengths.getD symbol 0) + rank lengths symbol

def codeOf (symbol : Nat) : Nat := firstCode lengths (lengths.getD symbol 0) + rank lengths symbol

/-- A symbol that has a code. -/
def IsCoded (symbol : Nat) : Prop := lengths.getD symbol 0 ≠ 0

instance (symbol : Nat) : Decidable (IsCoded lengths symbol) := inferInstanceAs (Decidable (_ ≠ _))

/-- The bits of a symbol. -/
def codeword (symbol : Nat) : List Bool :=
  (Bits.toBits (lengths.getD symbol 0) (codeOf lengths symbol)).reverse

/-- The code space that is taken, of which there is `2 ^ max`. -/
def kraft (max : Nat) : Nat :=
  (lengths.map fun l => if l = 0 then 0 else 2 ^ (max - l)).sum

variable {lengths} {symbol l max : Nat}

theorem codeCount_of_pos (h : 1 ≤ l) : codeCount lengths l = lengths.count l := if_neg (by omega)

theorem IsCoded.lt_length (h : IsCoded lengths symbol) : symbol < lengths.length := by
  by_contra hle
  exact h (List.getD_eq_default _ _ (by omega))

theorem getElem?_of_isCoded (h : IsCoded lengths symbol) :
    lengths[symbol]? = some (lengths.getD symbol 0) := by
  rw [List.getD_eq_getElem?_getD, List.getElem?_eq_getElem h.lt_length, Option.getD_some]

theorem count_zero_eq_length :
    lengths.count 0 = lengths.length ↔ ∀ symbol, ¬ IsCoded lengths symbol := by
  rw [List.count_eq_length]
  refine ⟨fun hall symbol hcoded => ?_, fun hall l hl => ?_⟩
  · exact hcoded (hall _ (List.mem_of_getElem? (getElem?_of_isCoded hcoded))).symm
  · obtain ⟨symbol, hsymbol⟩ := List.mem_iff_getElem?.mp hl
    have hzero := not_not.mp (hall symbol)
    rw [List.getD_eq_getElem?_getD, hsymbol, Option.getD_some] at hzero
    exact hzero.symm

/-! ## Ranks -/

/-- A symbol is one more of its length. -/
theorem count_take_succ (h : IsCoded lengths symbol) :
    (lengths.take (symbol + 1)).count (lengths.getD symbol 0) = rank lengths symbol + 1 := by
  rw [List.take_add_one, getElem?_of_isCoded h, Option.toList_some, List.count_append,
    List.count_singleton_self, rank]

theorem rank_lt (h : IsCoded lengths symbol) :
    rank lengths symbol < codeCount lengths (lengths.getD symbol 0) := by
  have hle : (lengths.take (symbol + 1)).count (lengths.getD symbol 0) ≤
      lengths.count (lengths.getD symbol 0) := (List.take_sublist _ _).count_le _
  rw [codeCount, if_neg h]
  rw [count_take_succ h] at hle
  omega

/-- Symbols with the same length are ranked in their order. -/
theorem rank_lt_rank {symbol' : Nat} (h : IsCoded lengths symbol) (hlt : symbol < symbol')
    (hlength : lengths.getD symbol' 0 = lengths.getD symbol 0) :
    rank lengths symbol < rank lengths symbol' := by
  have hle : (lengths.take (symbol + 1)).count (lengths.getD symbol 0) ≤
      (lengths.take symbol').count (lengths.getD symbol 0) :=
    (List.take_sublist_take_left (by omega)).count_le _
  rw [count_take_succ h] at hle
  unfold rank at hle ⊢
  rw [hlength]
  omega

/-! ## Places in the order of the codes -/

theorem firstIndex_mono {l' : Nat} (h : l ≤ l') : firstIndex lengths l ≤ firstIndex lengths l' := by
  induction h with
  | refl => exact le_rfl
  | step _ ih => exact ih.trans (Nat.le_add_right _ _)

theorem codeCount_cons (l' l : Nat) :
    codeCount (l' :: lengths) l = codeCount lengths l + if 0 < l' ∧ l' = l then 1 else 0 := by
  by_cases hl : l = 0
  · rw [codeCount, if_pos hl, codeCount, if_pos hl, if_neg (by omega)]
  · rw [codeCount, if_neg hl, codeCount, if_neg hl, List.count_cons]
    simp only [beq_iff_eq]
    split_ifs <;> omega

theorem firstIndex_eq_countP (l : Nat) :
    firstIndex lengths l = lengths.countP fun l' => 0 < l' ∧ l' < l := by
  induction lengths with
  | nil =>
    induction l with
    | zero => rfl
    | succ l ih => rw [firstIndex, ih, codeCount]; simp
  | cons l' lengths ih =>
    rw [List.countP_cons, ← ih]
    clear ih
    induction l with
    | zero => simp [firstIndex]
    | succ l ih =>
      rw [firstIndex, firstIndex, ih, codeCount_cons]
      simp only [decide_eq_true_eq]
      split_ifs <;> omega

theorem firstIndex_le_length (l : Nat) : firstIndex lengths l ≤ lengths.length := by
  rw [firstIndex_eq_countP]
  exact List.countP_le_length

theorem place_lt_length (h : IsCoded lengths symbol) : place lengths symbol < lengths.length := by
  have hle := @firstIndex_le_length lengths (lengths.getD symbol 0 + 1)
  have hrank := rank_lt h
  rw [firstIndex] at hle
  rw [place]
  omega

/-- Symbols have places of their own. -/
theorem place_ne {symbol' : Nat} (h : IsCoded lengths symbol) (h' : IsCoded lengths symbol')
    (hlt : symbol < symbol') : place lengths symbol ≠ place lengths symbol' := by
  have hr := rank_lt h
  have hr' := rank_lt h'
  unfold place
  rcases lt_trichotomy (lengths.getD symbol 0) (lengths.getD symbol' 0) with hl | hl | hl
  · have hmono := @firstIndex_mono lengths _ _ (Nat.succ_le_of_lt hl)
    rw [Nat.succ_eq_add_one, firstIndex] at hmono
    omega
  · have hrank := rank_lt_rank h hlt hl.symm
    rw [hl]
    omega
  · have hmono := @firstIndex_mono lengths _ _ (Nat.succ_le_of_lt hl)
    rw [Nat.succ_eq_add_one, firstIndex] at hmono
    omega

/-- Every rank below the number of codes of a length is taken. -/
theorem exists_rank {r : Nat} (hl : 1 ≤ l) (hr : r < lengths.count l) :
    ∃ symbol, IsCoded lengths symbol ∧ lengths.getD symbol 0 = l ∧ rank lengths symbol = r := by
  have hall : ∀ k ≤ lengths.length, r < (lengths.take k).count l →
      ∃ symbol, IsCoded lengths symbol ∧ lengths.getD symbol 0 = l ∧ rank lengths symbol = r := by
    intro k hk hlt
    induction k with
    | zero => exact absurd hlt (Nat.not_lt_zero _)
    | succ k ih =>
      have hget : lengths[k]? = some (lengths.getD k 0) := by
        rw [List.getD_eq_getElem?_getD, List.getElem?_eq_getElem (by omega), Option.getD_some]
      rw [List.take_add_one, hget, Option.toList_some, List.count_append, List.count_singleton] at hlt
      by_cases hbefore : r < (lengths.take k).count l
      · exact ih (by omega) hbefore
      · -- The symbol at `k` is the one more.
        by_cases hsame : lengths.getD k 0 = l
        · rw [hsame, beq_self_eq_true, if_pos rfl] at hlt
          refine ⟨k, ?_, hsame, ?_⟩
          · unfold IsCoded
            omega
          · rw [rank, hsame]
            omega
        · rw [beq_false_of_ne hsame, if_neg Bool.false_ne_true] at hlt
          omega
  apply hall lengths.length le_rfl
  rwa [List.take_length]

/-- Every place below the number of codes is taken. -/
theorem exists_place {i : Nat} (hi : i < firstIndex lengths (l + 1)) :
    ∃ symbol, IsCoded lengths symbol ∧ lengths.getD symbol 0 ≤ l ∧ place lengths symbol = i := by
  induction l with
  | zero => exact absurd hi (Nat.not_lt_zero _)
  | succ l ih =>
    by_cases hbelow : i < firstIndex lengths (l + 1)
    · obtain ⟨symbol, hcoded, hle, hplace⟩ := ih hbelow
      exact ⟨symbol, hcoded, Nat.le_succ_of_le hle, hplace⟩
    · rw [firstIndex, codeCount_of_pos (by omega)] at hi
      obtain ⟨symbol, hcoded, hlength, hrank⟩ := @exists_rank lengths (l + 1)
        (i - firstIndex lengths (l + 1)) (by omega) (by omega)
      refine ⟨symbol, hcoded, hlength.le, ?_⟩
      rw [place, hlength, hrank]
      omega

/-! ## The order of the codes -/

/-- A shorter code comes first, and of two codes of a length that of the lower symbol. -/
def Before (lengths : List Nat) (symbol symbol' : Nat) : Prop :=
  lengths.getD symbol 0 < lengths.getD symbol' 0 ∨
    lengths.getD symbol 0 = lengths.getD symbol' 0 ∧ symbol < symbol'

instance (symbol symbol' : Nat) : Decidable (Before lengths symbol symbol') :=
  inferInstanceAs (Decidable (_ ∨ _))

theorem place_lt_place {symbol' : Nat} (h : IsCoded lengths symbol)
    (hbefore : Before lengths symbol symbol') : place lengths symbol < place lengths symbol' := by
  have hr := rank_lt h
  unfold place
  rcases hbefore with hl | ⟨hl, hlt⟩
  · have hmono := @firstIndex_mono lengths _ _ (Nat.succ_le_of_lt hl)
    rw [Nat.succ_eq_add_one, firstIndex] at hmono
    omega
  · have hrank := rank_lt_rank h hlt hl.symm
    rw [hl]
    omega

theorem before_of_place_lt {symbol' : Nat} (h' : IsCoded lengths symbol')
    (hlt : place lengths symbol < place lengths symbol') : Before lengths symbol symbol' := by
  by_contra hnot
  rcases Nat.lt_trichotomy symbol symbol' with hs | rfl | hs
  · have hlength : lengths.getD symbol' 0 < lengths.getD symbol 0 := by
      unfold Before at hnot
      omega
    exact absurd (place_lt_place h' (Or.inl hlength)) (by omega)
  · omega
  · have hbefore : Before lengths symbol' symbol := by
      unfold Before at hnot ⊢
      omega
    exact absurd (place_lt_place h' hbefore) (by omega)

/-- The list has the symbols that have a code, in the order of the codes. -/
structure ListsInOrder (lengths symbols : List Nat) : Prop where
  mem : ∀ symbol, symbol ∈ symbols ↔ IsCoded lengths symbol
  sorted : symbols.Pairwise (Before lengths)

/-- A list with every symbol at its place has them in order. -/
theorem listsInOrder_take {symbols : List Nat} (hmax : ∀ l ∈ lengths, l ≤ max)
    (hplaces : ∀ symbol, IsCoded lengths symbol → symbols[place lengths symbol]? = some symbol) :
    ListsInOrder lengths (symbols.take (firstIndex lengths (max + 1))) := by
  have hat : ∀ i symbol, (symbols.take (firstIndex lengths (max + 1)))[i]? = some symbol →
      IsCoded lengths symbol ∧ place lengths symbol = i := by
    intro i symbol hi
    rw [List.getElem?_take] at hi
    split at hi
    next hlt =>
      obtain ⟨symbol', hcoded, -, rfl⟩ := exists_place hlt
      rw [hplaces symbol' hcoded] at hi
      exact Option.some.inj hi ▸ ⟨hcoded, rfl⟩
    next => nomatch hi
  refine ⟨fun symbol => ⟨fun hmem => ?_, fun hcoded => ?_⟩, ?_⟩
  · obtain ⟨i, hi⟩ := List.mem_iff_getElem?.mp hmem
    exact (hat i symbol hi).1
  · have hle : lengths.getD symbol 0 ≤ max :=
      hmax _ (List.mem_of_getElem? (getElem?_of_isCoded hcoded))
    have hmono := @firstIndex_mono lengths _ _ (Nat.add_le_add_right hle 1)
    have hrank := rank_lt hcoded
    rw [firstIndex] at hmono
    refine List.mem_iff_getElem?.mpr ⟨place lengths symbol, ?_⟩
    rw [List.getElem?_take_of_lt (by rw [place]; omega)]
    exact hplaces symbol hcoded
  · rw [List.pairwise_iff_getElem]
    intro i j hi hj hlt
    obtain ⟨-, hplace⟩ := hat i _ (List.getElem?_eq_getElem hi)
    obtain ⟨hcoded', hplace'⟩ := hat j _ (List.getElem?_eq_getElem hj)
    apply before_of_place_lt hcoded'
    omega

/-! ## Prefixes -/

/-- The codes of a length all end before the longer ones begin. -/
theorem firstCode_le (k : Nat) :
    (firstCode lengths l + codeCount lengths l) * 2 ^ (k + 1) ≤ firstCode lengths (l + (k + 1)) := by
  induction k with
  | zero => rw [pow_one]; rfl
  | succ k ih =>
    rw [← Nat.add_assoc l, firstCode, pow_succ, ← Nat.mul_assoc]
    exact Nat.mul_le_mul_right 2 (ih.trans (Nat.le_add_right _ _))

/-- The first bits of a code are above all codes of their length. -/
theorem le_codeOf_div {k : Nat} (h : lengths.getD symbol 0 = l + (k + 1)) :
    firstCode lengths l + codeCount lengths l ≤ codeOf lengths symbol / 2 ^ (k + 1) := by
  rw [Nat.le_div_iff_mul_le (Nat.two_pow_pos _), codeOf, h]
  exact (firstCode_le k).trans (Nat.le_add_right _ _)

/-! ## Code space -/

/-- The code space taken by codes of a length or less. -/
def kraftTo (lengths : List Nat) (max l : Nat) : Nat :=
  (lengths.map fun l' => if l' = 0 ∨ l < l' then 0 else 2 ^ (max - l')).sum

theorem kraftTo_succ (lengths : List Nat) (max l : Nat) :
    kraftTo lengths max (l + 1) =
      kraftTo lengths max l + lengths.count (l + 1) * 2 ^ (max - (l + 1)) := by
  unfold kraftTo
  induction lengths with
  | nil => simp
  | cons l' lengths ih =>
    rw [List.map_cons, List.map_cons, List.sum_cons, List.sum_cons, ih, List.count_cons]
    by_cases hl' : l' = l + 1
    · subst hl'
      rw [if_neg (by omega), if_pos (by omega)]
      simp only [beq_self_eq_true, if_true]
      ring
    · have hcond : (l' = 0 ∨ l + 1 < l') ↔ (l' = 0 ∨ l < l') := by omega
      simp only [hcond, beq_iff_eq, hl', if_false, Nat.add_zero]
      ring

theorem kraftTo_le (lengths : List Nat) (max l : Nat) :
    kraftTo lengths max l ≤ kraft lengths max := by
  unfold kraftTo kraft
  induction lengths with
  | nil => exact le_rfl
  | cons l' lengths ih =>
    have hhead : (if l' = 0 ∨ l < l' then 0 else 2 ^ (max - l')) ≤
        if l' = 0 then 0 else 2 ^ (max - l') := by
      split
      · exact Nat.zero_le _
      · rw [if_neg (by omega)]
    rw [List.map_cons, List.map_cons, List.sum_cons, List.sum_cons]
    exact Nat.add_le_add hhead ih

theorem kraftTo_eq (hl : l ≤ max) :
    (firstCode lengths l + codeCount lengths l) * 2 ^ (max - l) = kraftTo lengths max l := by
  induction l with
  | zero =>
    have hzero : ∀ l' ∈ lengths, (if l' = 0 ∨ 0 < l' then 0 else 2 ^ (max - l')) = 0 :=
      fun l' _ => if_pos (by omega)
    rw [kraftTo, List.map_congr_left hzero, firstCode, codeCount, if_pos rfl]
    simp
  | succ l ih =>
    have hpow : 2 ^ (max - l) = 2 * 2 ^ (max - (l + 1)) := by
      rw [← pow_succ', show max - (l + 1) + 1 = max - l by omega]
    rw [kraftTo_succ, ← ih (by omega), hpow, firstCode]
    simp only [codeCount, Nat.succ_ne_zero, if_false]
    ring

/-- The codes of a length fit in their bits if the code space is large enough. -/
theorem firstCode_add_codeCount_le (hkraft : kraft lengths max ≤ 2 ^ max) (hl : l ≤ max) :
    firstCode lengths l + codeCount lengths l ≤ 2 ^ l := by
  have hle := (@kraftTo_eq lengths _ _ hl).trans_le ((kraftTo_le lengths max l).trans hkraft)
  rw [show 2 ^ max = 2 ^ l * 2 ^ (max - l) by rw [← pow_add, Nat.add_sub_cancel' hl]] at hle
  exact Nat.le_of_mul_le_mul_right hle (Nat.two_pow_pos _)

theorem codeOf_lt (hkraft : kraft lengths max ≤ 2 ^ max) (h : IsCoded lengths symbol)
    (hl : lengths.getD symbol 0 ≤ max) : codeOf lengths symbol < 2 ^ lengths.getD symbol 0 := by
  have := firstCode_add_codeCount_le hkraft hl
  have := rank_lt h
  rw [codeOf]
  omega

/-- With lengths up to the maximum the codes take the whole code space. -/
theorem kraftTo_max (h : ∀ l ∈ lengths, l ≤ max) : kraftTo lengths max max = kraft lengths max := by
  unfold kraftTo kraft
  refine congrArg List.sum (List.map_congr_left fun l hl => ?_)
  have := h l hl
  by_cases hzero : l = 0
  · rw [if_pos (Or.inl hzero), if_pos hzero]
  · rw [if_neg (by omega), if_neg hzero]

/-- A code takes half of the code space at most. -/
theorem kraft_le (h : ∀ l ∈ lengths, l ≤ max) :
    kraft lengths max ≤ firstIndex lengths (max + 1) * 2 ^ (max - 1) := by
  rw [firstIndex_eq_countP, kraft]
  induction lengths with
  | nil => exact Nat.zero_le _
  | cons l lengths ih =>
    obtain ⟨hl, hrest⟩ := List.forall_mem_cons.mp h
    have hle := ih hrest
    rw [List.map_cons, List.sum_cons, List.countP_cons, Nat.add_mul]
    by_cases hzero : l = 0
    · rw [if_pos hzero, if_neg (by simp [hzero])]
      omega
    · have hhalf : 2 ^ (max - l) ≤ 2 ^ (max - 1) := Nat.pow_le_pow_right (by decide) (by omega)
      rw [if_neg hzero, if_pos (decide_eq_true ⟨by omega, by omega⟩)]
      omega

end CanonicalCode
