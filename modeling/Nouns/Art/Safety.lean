import Nouns.Art.Blocks
import Nouns.Art.CorruptPages
import Nouns.Art.Unrolling

/-!
# Safety — no operation wraps and no access fails

The decompressor operation by operation does what the model of its loops does, for every arithmetic
that is exact as long as it can be: so none of its operations wraps, none of its array accesses fails
and each of its loops ends.
-/

open Fallible CanonicalCode WordArithmetic Deflate

namespace Nouns

namespace Inflate

variable {α α' β β' : Type}

/-! ## States in order -/

/-- The table can be decoded with: a place for each of its codes, and symbols below `bound`. -/
structure Usable (h : Huffman) (bound : Nat) : Prop where
  code : ∃ code, Counts h.counts code ∧ code.length ≤ h.symbols.length
  size : h.symbols.length < 2 ^ 64
  symbols : ∀ symbol ∈ h.symbols, symbol < bound

/-- The state between two reads. -/
structure State.InOrder (s : State) : Prop where
  ready : s.Ready s.bitbuf
  bitcnt : s.bitcnt < 8
  input : s.input.length < 2 ^ 64
  output : s.output.length < 2 ^ 64
  outcnt : s.outcnt ≤ s.output.length
  lencode : Usable s.lencode 288
  distcode : Usable s.distcode 30

theorem State.InOrder.within {s : State} (h : s.InOrder) : s.Within :=
  ⟨h.ready.incnt, h.ready.loaded⟩

/-! ## Runs side by side -/

/-- Both functions return, as `Q` says, or both stop with an error code, and they leave the same
state. -/
def Together (m' : Puff α') (m : Puff α) (s : State) (Q : α' → α → State → Prop) : Prop :=
  (∃ a' a s', Runs m' s a' s' ∧ Runs m s a s' ∧ Q a' a s') ∨
    ∃ err s', Stops m' s err s' ∧ Stops m s err s'

section

variable {γ : Type} {m' : Puff α'} {m : Puff α} {f' : α' → Puff β'} {f : α → Puff β} {s : State}
  {Q : α' → α → State → Prop} {Q' : β' → β → State → Prop}

theorem together_pure {a' : α'} {a : α} (h : Q a' a s) : Together (pure a') (pure a) s Q :=
  Or.inl ⟨a', a, s, runs_pure a' s, runs_pure a s, h⟩

theorem together_throw (err : ErrorCode) :
    Together (throw err : Puff α') (throw err : Puff α) s Q :=
  Or.inr ⟨err, s, stops_throw err s, stops_throw err s⟩

theorem together_throw_bind (err : ErrorCode) :
    Together (throw err >>= f' : Puff β') (throw err >>= f) s Q' :=
  Or.inr ⟨err, s, (stops_throw err s).bind f', (stops_throw err s).bind f⟩

theorem Together.bind (h : Together m' m s Q)
    (hf : ∀ a' a s', Runs m s a s' → Q a' a s' → Together (f' a') (f a) s' Q') :
    Together (m' >>= f') (m >>= f) s Q' := by
  rcases h with ⟨a', a, s', hm', hm, hQ⟩ | ⟨err, s', hm', hm⟩
  · rcases hf a' a s' hm hQ with ⟨b', b, s'', hrun', hrun, hQ'⟩ | ⟨err, s'', hrun', hrun⟩
    · exact Or.inl ⟨b', b, s'', hm'.bind hrun', hm.bind hrun, hQ'⟩
    · exact Or.inr ⟨err, s'', hm'.stops hrun', hm.stops hrun⟩
  · exact Or.inr ⟨err, s', hm'.bind f', hm.bind f⟩

theorem together_get {f' : State → Puff β'} {f : State → Puff β}
    (h : Together (f' s) (f s) s Q') : Together (get >>= f') (get >>= f) s Q' := h

/-- The first function looks at the state once more. -/
theorem together_look {f' : State → Puff β'} {m : Puff β} (h : Together (f' s) m s Q') :
    Together (get >>= f') m s Q' := h

theorem together_set {f' : PUnit → Puff β'} {f : PUnit → Puff β} {s₁ : State}
    (h : Together (f' ⟨⟩) (f ⟨⟩) s₁ Q') : Together (set s₁ >>= f') (set s₁ >>= f) s Q' := h

theorem together_modify {g : State → State} {f' : PUnit → Puff β'} {f : PUnit → Puff β}
    (h : Together (f' ⟨⟩) (f ⟨⟩) (g s) Q') :
    Together (modify g >>= f') (modify g >>= f) s Q' := h

/-- An operation of the first function. -/
theorem together_op {x : Tx γ} {c : γ} {f' : γ → Puff β'} {m : Puff β} (hx : x = .ok c)
    (h : Together (f' c) m s Q') : Together (liftM x >>= f') m s Q' := by
  subst hx
  exact h

/-- An array access of both. -/
theorem together_lift {x : Tx γ} {c : γ} {f' : γ → Puff β'} {f : γ → Puff β} (hx : x = .ok c)
    (h : Together (f' c) (f c) s Q') : Together (liftM x >>= f') (liftM x >>= f) s Q' := by
  subst hx
  exact h

end

/-! ## Bits -/

variable {A : Arithmetic Revert}

/-- Loading goes on until there are enough bits or there is no more input. -/
theorem together_loadBits (hA : Exact 256 A) {need fuel' fuel val : Nat} (hneed : need ≤ 16)
    {s : State} (hs : s.Ready val) (hcnt : s.bitcnt < need + 8)
    (hfuel' : need + 8 ≤ s.bitcnt + 8 * fuel') (hfuel : need ≤ s.bitcnt + 8 * fuel)
    (hinput : s.input.length < 2 ^ 64) :
    Together (Unchecked.loadBits A need fuel' val) (loadBits need fuel val) s fun val' v s' =>
      val' = v ∧ ∃ incnt bitcnt, s' = s.counters incnt bitcnt ∧ s'.Ready v ∧ need ≤ bitcnt ∧
        bitcnt < need + 8 := by
  induction fuel' generalizing fuel val s with
  | zero => omega
  | succ fuel' ih =>
    rw [Unchecked.loadBits]
    by_cases hload : s.bitcnt < need
    · obtain ⟨fuel, rfl⟩ : ∃ n, fuel = n + 1 := ⟨fuel - 1, by omega⟩
      rw [loadBits]
      apply together_get
      rw [if_pos hload, if_pos hload]
      by_cases hend : s.incnt = s.input.length
      · rw [if_pos hend, if_pos hend]
        exact together_throw_bind _
      · rw [if_neg hend, if_neg hend]
        have hlt : s.incnt < s.input.length := by
          have := hs.incnt
          omega
        obtain ⟨b, hb⟩ : ∃ b, s.input[s.incnt]? = some b := ⟨_, List.getElem?_eq_getElem hlt⟩
        have hshift : b.toNat <<< s.bitcnt < 2 ^ (s.bitcnt + 8) := by
          rw [Nat.shiftLeft_eq, Nat.add_comm, pow_add]
          exact Nat.mul_lt_mul_of_pos_right b.toNat_lt (Nat.two_pow_pos _)
        have hword : (2 : Nat) ^ (s.bitcnt + 8) ≤ 2 ^ 256 := Nat.pow_le_pow_right (by decide) (by omega)
        have hready : (s.counters (s.incnt + 1) (s.bitcnt + 8)).Ready
            (val ||| b.toNat <<< s.bitcnt) := by
          refine ⟨?_, hlt, ?_⟩
          · apply Nat.or_lt_two_pow _ hshift
            exact hs.buffer.trans_le (Nat.pow_le_pow_right (by decide) (by omega))
          · show s.bitcnt + 8 ≤ 8 * (s.incnt + 1)
            have := hs.loaded
            omega
        apply together_lift (getAt_eq_ok.mpr hb)
        apply together_op (hA.shl (hshift.trans_le hword))
        apply together_op (hA.add (by omega))
        apply together_op (hA.add (by omega))
        apply together_set
        exact ih hready (show s.bitcnt + 8 < need + 8 by omega)
          (show need + 8 ≤ s.bitcnt + 8 + 8 * fuel' by omega)
          (show need ≤ s.bitcnt + 8 + 8 * fuel by omega) hinput
    · -- There are enough bits, whatever fuel the model has left.
      have hdone : Together (pure val) (loadBits need fuel val) s fun val' v s' =>
          val' = v ∧ ∃ incnt bitcnt, s' = s.counters incnt bitcnt ∧ s'.Ready v ∧ need ≤ bitcnt ∧
            bitcnt < need + 8 := by
        have hstay : Together (pure val) (pure val : Puff Nat) s fun val' v s' =>
            val' = v ∧ ∃ incnt bitcnt, s' = s.counters incnt bitcnt ∧ s'.Ready v ∧ need ≤ bitcnt ∧
              bitcnt < need + 8 :=
          together_pure ⟨rfl, s.incnt, s.bitcnt, rfl, hs, by omega, hcnt⟩
        cases fuel with
        | zero => exact hstay
        | succ fuel =>
          rw [loadBits]
          show Together _ (if s.bitcnt < need then _ else _) s _
          rw [if_neg hload]
          exact hstay
      apply together_look
      rw [if_neg hload]
      exact hdone

theorem State.InOrder.counters {s : State} (hs : s.InOrder) {incnt bitbuf bitcnt : Nat}
    (hready : ({ s with incnt, bitbuf, bitcnt } : State).Ready bitbuf) (hbitcnt : bitcnt < 8) :
    ({ s with incnt, bitbuf, bitcnt } : State).InOrder :=
  ⟨hready, hbitcnt, hs.input, hs.output, hs.outcnt, hs.lencode, hs.distcode⟩

theorem together_bits (hA : Exact 256 A) {need : Nat} (hneed : need ≤ 16) {s : State}
    (hs : s.InOrder) :
    Together (Unchecked.bits A need) (bits need) s fun v' v s' =>
      v' = v ∧ v < 2 ^ need ∧ s'.InOrder := by
  have hbitcnt := hs.bitcnt
  have hpow : (2 : Nat) ^ need ≤ 2 ^ 16 := Nat.pow_le_pow_right (by decide) hneed
  have hpos : 1 ≤ 2 ^ need := Nat.two_pow_pos need
  have hshift : 1 <<< need < 2 ^ 256 := by
    rw [Nat.one_shiftLeft]
    omega
  unfold Unchecked.bits bits
  apply together_get
  refine (together_loadBits hA hneed hs.ready (by omega) (by omega) (by omega) hs.input).bind ?_
  rintro val' val _ - ⟨rfl, incnt, bitcnt, rfl, hready, hle, hlt⟩
  apply together_look
  apply together_op (hA.sub hle (by show bitcnt < _; omega))
  apply together_set
  apply together_op (hA.shl hshift)
  apply together_op (hA.sub (by rw [Nat.one_shiftLeft]; exact hpos) hshift)
  apply together_pure
  refine ⟨rfl, ?_, hs.counters ⟨?_, hready.incnt, ?_⟩ ?_⟩
  · rw [Nat.one_shiftLeft, Nat.and_two_pow_sub_one_eq_mod]
    exact Nat.mod_lt _ (Nat.two_pow_pos need)
  · show val' >>> need < 2 ^ (bitcnt - need)
    have hbuffer : val' < 2 ^ bitcnt := hready.buffer
    rw [Nat.shiftRight_eq_div_pow, Nat.div_lt_iff_lt_mul (Nat.two_pow_pos need), ← pow_add,
      Nat.sub_add_cancel hle]
    exact hbuffer
  · show bitcnt - need ≤ 8 * incnt
    have hloaded : bitcnt ≤ 8 * incnt := hready.loaded
    omega
  · show bitcnt - need < 8
    omega

/-! ## Stored blocks -/

theorem together_nextByte (hA : Exact 256 A) {s : State} (hinput : s.input.length < 2 ^ 64)
    (hlt : s.incnt < s.input.length) {f' : Nat → Puff β'} {f : Nat → Puff β}
    {Q : β' → β → State → Prop}
    (h : ∀ n < 2 ^ 8, Together (f' n) (f n) { s with incnt := s.incnt + 1 } Q) :
    Together (Unchecked.nextByte A >>= f') (nextByte >>= f) s Q := by
  obtain ⟨b, hb⟩ : ∃ b, s.input[s.incnt]? = some b := ⟨_, List.getElem?_eq_getElem hlt⟩
  have hread : Together (Unchecked.nextByte A) nextByte s fun n' n s' =>
      n' = n ∧ n < 2 ^ 8 ∧ s' = { s with incnt := s.incnt + 1 } := by
    apply together_get
    apply together_lift (getAt_eq_ok.mpr hb)
    apply together_op (hA.add (by omega))
    apply together_set
    exact together_pure ⟨rfl, b.toNat_lt, rfl⟩
  apply hread.bind
  rintro n' n _ - ⟨rfl, hn, rfl⟩
  exact h n' hn

/-- A byte is copied from the input or from the output. -/
theorem State.InOrder.write {s : State} (hs : s.InOrder) (hlt : s.outcnt < s.output.length)
    (b : UInt8) {incnt : Nat} (hincnt : s.incnt ≤ incnt) (hle : incnt ≤ s.input.length) :
    ({ s with output := s.output.set s.outcnt b, outcnt := s.outcnt + 1, incnt } : State).InOrder := by
  refine ⟨⟨hs.ready.buffer, hle, ?_⟩, hs.bitcnt, hs.input, ?_, ?_, hs.lencode, hs.distcode⟩
  · show s.bitcnt ≤ 8 * incnt
    have := hs.ready.loaded
    omega
  · show (s.output.set s.outcnt b).length < 2 ^ 64
    rw [List.length_set]
    exact hs.output
  · show s.outcnt + 1 ≤ (s.output.set s.outcnt b).length
    rw [List.length_set]
    exact hlt

theorem together_copyStored (hA : Exact 256 A) {fuel len : Nat} (hfuel : len < fuel) {s : State}
    (hs : s.InOrder) (hread : s.incnt + len ≤ s.input.length)
    (hwrite : s.outcnt + len ≤ s.output.length) :
    Together (Unchecked.copyStored A fuel len) (copyStored len) s fun _ _ s' => s'.InOrder := by
  have hinput := hs.input
  have houtput := hs.output
  induction fuel generalizing len s with
  | zero => omega
  | succ fuel ih =>
    rw [Unchecked.copyStored]
    cases len with
    | zero =>
      rw [if_neg (not_not.mpr rfl)]
      exact together_pure hs
    | succ len =>
      have hlt : s.outcnt < s.output.length := by omega
      obtain ⟨b, hb⟩ : ∃ b, s.input[s.incnt]? = some b :=
        ⟨_, List.getElem?_eq_getElem (by omega)⟩
      have hset : setAt s.output s.outcnt b = .ok (s.output.set s.outcnt b) :=
        setAt_eq_ok.mpr ⟨hlt, rfl⟩
      have hs' := hs.write hlt b (Nat.le_succ s.incnt) (by omega)
      rw [if_pos (Nat.succ_ne_zero len), copyStored]
      apply together_op (hA.sub (by omega) (by omega))
      apply together_get
      apply together_lift (getAt_eq_ok.mpr hb)
      apply together_lift hset
      apply together_op (hA.add (by omega))
      apply together_op (hA.add (by omega))
      apply together_set
      refine ih (by omega) hs' (show s.incnt + 1 + len ≤ s.input.length by omega) ?_ hs'.input
        hs'.output
      show s.outcnt + 1 + len ≤ (s.output.set s.outcnt b).length
      rw [List.length_set]
      omega

theorem State.InOrder.skip {s : State} (hs : s.InOrder) {incnt : Nat} (hle : s.incnt ≤ incnt)
    (hinput : incnt ≤ s.input.length) : ({ s with incnt } : State).InOrder :=
  ⟨⟨hs.ready.buffer, hinput, hs.ready.loaded.trans (Nat.mul_le_mul_left 8 hle)⟩, hs.bitcnt, hs.input,
    hs.output, hs.outcnt, hs.lencode, hs.distcode⟩

theorem together_stored (hA : Exact 256 A) {s : State} (hs : s.InOrder) :
    Together (Unchecked.stored A) stored s fun _ _ s' => s'.InOrder := by
  have hinput := hs.input
  have houtput := hs.output
  have houtcnt := hs.outcnt
  have hincnt := hs.ready.incnt
  have hs₀ : ({ s with bitbuf := 0, bitcnt := 0 } : State).InOrder :=
    hs.counters ⟨Nat.zero_lt_one, hincnt, Nat.zero_le _⟩ (by decide)
  unfold Unchecked.stored stored
  dsimp only
  apply together_modify
  apply together_get
  apply together_op (hA.add (show s.incnt + 4 < 2 ^ 256 by omega))
  by_cases hfour : s.incnt + 4 > s.input.length
  · rw [if_pos hfour, if_pos hfour]
    exact together_throw_bind _
  · rw [if_neg hfour, if_neg hfour]
    refine together_nextByte hA ?_ ?_ fun low hlow => ?_
    · exact hinput
    · show s.incnt < s.input.length
      omega
    refine together_nextByte hA ?_ ?_ fun high hhigh => ?_
    · exact hinput
    · show s.incnt + 1 < s.input.length
      omega
    have hshift : high <<< 8 < 2 ^ 16 := by
      rw [Nat.shiftLeft_eq]
      omega
    have hlen : low ||| high <<< 8 < 2 ^ 16 :=
      Nat.or_lt_two_pow (hlow.trans (by decide)) hshift
    apply together_op (hA.shl (hshift.trans (by decide)))
    generalize low ||| high <<< 8 = len at hlen
    refine together_nextByte hA ?_ ?_ fun low' _ => ?_
    · exact hinput
    · show s.incnt + 1 + 1 < s.input.length
      omega
    split
    · exact together_throw_bind _
    · refine together_nextByte hA ?_ ?_ fun high' _ => ?_
      · exact hinput
      · show s.incnt + 1 + 1 + 1 < s.input.length
        omega
      split
      · exact together_throw_bind _
      · apply together_get
        apply together_op (hA.add (show s.incnt + 1 + 1 + 1 + 1 + len < 2 ^ 256 by omega))
        by_cases hread : s.incnt + 1 + 1 + 1 + 1 + len > s.input.length
        · rw [if_pos hread, if_pos hread]
          exact together_throw_bind _
        · rw [if_neg hread, if_neg hread]
          apply together_op (hA.add (show s.outcnt + len < 2 ^ 256 by omega))
          by_cases hwrite : s.outcnt + len > s.output.length
          · rw [if_pos hwrite, if_pos hwrite]
            exact together_throw_bind _
          · rw [if_neg hwrite, if_neg hwrite]
            apply together_copyStored hA (Nat.lt_succ_self len)
            · exact hs₀.skip (show s.incnt ≤ s.incnt + 1 + 1 + 1 + 1 by omega)
                (show s.incnt + 1 + 1 + 1 + 1 ≤ s.input.length by omega)
            · exact Nat.le_of_not_lt hread
            · exact Nat.le_of_not_lt hwrite

/-! ## Huffman codes -/

/-- The first code of a length is never above the code read so far, and the codes of a length are
places in the table. -/
theorem together_decodeFrom (hA : Exact 256 A) {h : Huffman} {bound : Nat} {lengths : List Nat}
    (hcounts : Counts h.counts lengths) (hlength : lengths.length ≤ h.symbols.length)
    (hsize : h.symbols.length < 2 ^ 64) (hsymbols : ∀ symbol ∈ h.symbols, symbol < bound)
    {fuel len code first : Nat} (hlen : len + fuel = MAXBITS + 1) (hpos : 1 ≤ len)
    (hfirst : first ≤ code) (hcode : code < 2 ^ len) {s : State} (hs : s.InOrder) :
    Together (Plain.decodeFrom A h fuel len code first (firstIndex lengths len))
      (decodeFrom h fuel len code first (firstIndex lengths len)) s fun v' v s' =>
        v' = v ∧ v < bound ∧ s'.InOrder := by
  induction fuel generalizing len code first s with
  | zero => exact together_throw _
  | succ fuel ih =>
    have hmax : MAXBITS = 15 := rfl
    have hpow : (2 : Nat) ^ len ≤ 2 ^ 15 := Nat.pow_le_pow_right (by decide) (by omega)
    have hnext : firstIndex lengths len + lengths.count len = firstIndex lengths (len + 1) := by
      rw [firstIndex, codeCount_of_pos hpos]
    have hplaces := @firstIndex_le_length lengths (len + 1)
    rw [Plain.decodeFrom, decodeFrom]
    refine (together_bits hA (by decide) hs).bind ?_
    rintro bit' bit s' - ⟨rfl, hbit, hs'⟩
    have hread : code ||| bit' < 2 ^ len := by
      apply Nat.or_lt_two_pow hcode
      exact hbit.trans_le (Nat.pow_le_pow_right (by decide) hpos)
    have hle : first ≤ code ||| bit' := hfirst.trans Nat.left_le_or
    generalize code ||| bit' = code at hread hle
    apply together_lift (getAt_eq_ok.mpr (hcounts.count len (by omega)))
    apply together_op (hA.add (show first + lengths.count len < 2 ^ 256 by omega))
    by_cases hfound : code < first + lengths.count len
    · rw [if_pos hfound, if_pos hfound]
      obtain ⟨symbol, hsymbol⟩ : ∃ symbol,
          h.symbols[firstIndex lengths len + (code - first)]? = some symbol :=
        ⟨_, List.getElem?_eq_getElem (by omega)⟩
      apply together_op (hA.sub hle (by omega))
      apply together_op (hA.add (by omega))
      rw [getAt_eq_ok.mpr hsymbol]
      exact together_pure ⟨rfl, hsymbols symbol (List.mem_of_getElem? hsymbol), hs'⟩
    · rw [if_neg hfound, if_neg hfound]
      have hdouble : ∀ n, n <<< 1 = n * 2 := fun n => by rw [Nat.shiftLeft_eq, pow_one]
      apply together_op (hA.add (by omega))
      apply together_op (hA.add (show first + lengths.count len < 2 ^ 256 by omega))
      apply together_op (hA.shl (by rw [hdouble]; omega))
      apply together_op (hA.shl (by rw [hdouble]; omega))
      rw [hnext]
      apply ih (by omega) (by omega)
      · rw [hdouble, hdouble]
        omega
      · rw [hdouble, pow_succ]
        omega
      · exact hs'

theorem together_decode (hA : Exact 256 A) {h : Huffman} {bound : Nat} (hh : Usable h bound)
    {s : State} (hs : s.InOrder) :
    Together (Unchecked.decode A h) (decode h) s fun v' v s' => v' = v ∧ v < bound ∧ s'.InOrder := by
  obtain ⟨lengths, hcounts, hlength⟩ := hh.code
  rw [decode_eq_plain hA]
  exact together_decodeFrom hA hcounts hlength hh.size hh.symbols (show 1 + MAXBITS = MAXBITS + 1 by rfl)
    le_rfl le_rfl (by decide) hs

/-! ## Compressed data -/

theorem together_copyBack (hA : Exact 256 A) {distance fuel len : Nat} (hfuel : len < fuel)
    {s : State} (hs : s.InOrder) (hpos : 1 ≤ distance) (hback : distance ≤ s.outcnt)
    (hwrite : s.outcnt + len ≤ s.output.length) :
    Together (Unchecked.copyBack A distance fuel len) (copyBack distance len) s fun _ _ s' =>
      s'.InOrder := by
  have houtput := hs.output
  induction fuel generalizing len s with
  | zero => omega
  | succ fuel ih =>
    rw [Unchecked.copyBack]
    cases len with
    | zero =>
      rw [if_neg (not_not.mpr rfl)]
      exact together_pure hs
    | succ len =>
      have hlt : s.outcnt < s.output.length := by omega
      obtain ⟨b, hb⟩ : ∃ b, s.output[s.outcnt - distance]? = some b :=
        ⟨_, List.getElem?_eq_getElem (by omega)⟩
      have hset : setAt s.output s.outcnt b = .ok (s.output.set s.outcnt b) :=
        setAt_eq_ok.mpr ⟨hlt, rfl⟩
      have hs' := hs.write hlt b le_rfl hs.ready.incnt
      rw [if_pos (Nat.succ_ne_zero len), copyBack]
      apply together_op (hA.sub (by omega) (by omega))
      apply together_get
      apply together_op (hA.sub hback (by omega))
      apply together_lift (getAt_eq_ok.mpr hb)
      apply together_lift hset
      apply together_op (hA.add (by omega))
      apply together_set
      refine ih (by omega) hs' (show distance ≤ s.outcnt + 1 by omega) ?_ hs'.output
      show s.outcnt + 1 + len ≤ (s.output.set s.outcnt b).length
      rw [List.length_set]
      omega

theorem lengthBase_le : ∀ k < 29, lengthBase k ≤ 258 ∧ lengthExtra k ≤ 16 := by
  decide

theorem distanceBase_le : ∀ j < 30,
    1 ≤ distanceBase j ∧ distanceBase j ≤ 24577 ∧ distanceExtra j ≤ 16 := by
  decide

theorem together_codesStep (hA : Exact 256 A) {lencode distcode : Huffman}
    (hlencode : Usable lencode 288) (hdistcode : Usable distcode 30) {s : State} (hs : s.InOrder) :
    Together (Unchecked.codesStep A lencode distcode 0) (codesStep lencode distcode) s
      fun v' v s' => v' = (v, 0) ∧ s'.InOrder := by
  unfold Unchecked.codesStep codesStep
  dsimp only
  refine (together_decode hA hlencode hs).bind ?_
  rintro symbol' symbol s₁ - ⟨rfl, hsymbol, hs₁⟩
  have houtput := hs₁.output
  have houtcnt := hs₁.outcnt
  by_cases hliteral : symbol' < 256
  · rw [if_pos hliteral, if_pos hliteral]
    apply together_get
    by_cases hfull : s₁.outcnt = s₁.output.length
    · rw [if_pos hfull, if_pos hfull]
      exact together_throw_bind _
    · rw [if_neg hfull, if_neg hfull]
      have hlt : s₁.outcnt < s₁.output.length := by omega
      apply together_lift (setAt_eq_ok.mpr ⟨hlt, rfl⟩)
      apply together_op (hA.add (by omega))
      apply together_set
      exact together_pure ⟨rfl, hs₁.write hlt _ le_rfl hs₁.ready.incnt⟩
  · rw [if_neg hliteral, if_neg hliteral]
    by_cases hcopy : symbol' > 256
    · rw [if_pos hcopy, if_pos hcopy]
      apply together_op (hA.sub (by omega) (by omega))
      by_cases hinvalid : symbol' - 257 ≥ 29
      · rw [if_pos hinvalid, if_pos hinvalid]
        exact together_throw_bind _
      · rw [if_neg hinvalid, if_neg hinvalid]
        have hk : symbol' - 257 < 29 := by omega
        obtain ⟨hbase, hextra⟩ := lengthBase_le _ hk
        apply together_lift (getAt_lext _ hk)
        refine (together_bits hA hextra hs₁).bind ?_
        rintro tempBits' tempBits s₂ - ⟨rfl, htempBits, hs₂⟩
        apply together_lift (getAt_lens _ hk)
        have hpow : (2 : Nat) ^ lengthExtra (symbol' - 257) ≤ 2 ^ 16 :=
          Nat.pow_le_pow_right (by decide) hextra
        have hlen : lengthBase (symbol' - 257) + tempBits' < 2 ^ 17 := by omega
        apply together_op (hA.add (hlen.trans (by decide)))
        refine (together_decode hA hdistcode hs₂).bind ?_
        rintro j' j s₃ - ⟨rfl, hj, hs₃⟩
        obtain ⟨hpos, hbase', hextra'⟩ := distanceBase_le _ hj
        apply together_lift (getAt_dext _ hj)
        refine (together_bits hA hextra' hs₃).bind ?_
        rintro distBits' distBits s₄ - ⟨rfl, hdistBits, hs₄⟩
        apply together_lift (getAt_dists _ hj)
        have hpow' : (2 : Nat) ^ distanceExtra j' ≤ 2 ^ 16 :=
          Nat.pow_le_pow_right (by decide) hextra'
        apply together_op (hA.add (by omega))
        apply together_get
        have houtput₄ := hs₄.output
        have houtcnt₄ := hs₄.outcnt
        by_cases hfar : distanceBase j' + distBits' > s₄.outcnt
        · rw [if_pos hfar, if_pos hfar]
          exact together_throw_bind _
        · rw [if_neg hfar, if_neg hfar]
          apply together_op (hA.add (by omega))
          by_cases hwrite : s₄.outcnt + (lengthBase (symbol' - 257) + tempBits') > s₄.output.length
          · rw [if_pos hwrite, if_pos hwrite]
            exact together_throw_bind _
          · rw [if_neg hwrite, if_neg hwrite]
            refine (together_copyBack hA (Nat.lt_succ_self _) hs₄ (by omega) (by omega)
              (by omega)).bind ?_
            rintro _ _ s₅ - hs₅
            exact together_pure ⟨rfl, hs₅⟩
    · rw [if_neg hcopy, if_neg hcopy]
      apply together_look
      apply together_op (hA.add (by omega))
      show Together _ (set s₁ >>= fun _ => pure symbol') s₁ _
      apply together_set
      exact together_pure ⟨rfl, hs₁⟩

theorem together_codesLoop (hA : Exact 256 A) {lencode distcode : Huffman}
    (hlencode : Usable lencode 288) (hdistcode : Usable distcode 30) {fuel' fuel : Nat} {s : State}
    (hs : s.InOrder) (hfuel' : 8 * s.input.length < s.position + fuel')
    (hfuel : 8 * s.input.length < s.position + fuel) :
    Together (Unchecked.codesLoop A lencode distcode fuel' 0) (codesLoop lencode distcode fuel) s
      fun _ _ s' => s'.InOrder := by
  induction fuel' generalizing fuel s with
  | zero =>
    have := hs.within.position_le
    omega
  | succ fuel' ih =>
    obtain ⟨fuel, rfl⟩ : ∃ n, fuel = n + 1 := ⟨fuel - 1, by have := hs.within.position_le; omega⟩
    rw [Unchecked.codesLoop, codesLoop]
    apply (together_codesStep hA hlencode hdistcode hs).bind
    rintro _ symbol s' hstep ⟨rfl, hs'⟩
    -- An iteration reads a bit.
    obtain ⟨hforward, hreads⟩ := codesStep_forward lencode distcode s
    have hadvances := (hforward _ _ hstep).advances
    have hmore := hreads _ _ hstep hs.within
    dsimp only
    by_cases hend : symbol ≠ 256
    · rw [if_pos hend, if_pos hend]
      apply ih hs' <;>
      · rw [hadvances.input]
        omega
    · rw [if_neg hend, if_neg hend]
      exact together_pure hs'

theorem together_codes (hA : Exact 256 A) {lencode distcode : Huffman}
    (hlencode : Usable lencode 288) (hdistcode : Usable distcode 30) {s : State} (hs : s.InOrder) :
    Together (Unchecked.codes A lencode distcode) (codes lencode distcode) s fun _ _ s' =>
      s'.InOrder := by
  apply together_get
  apply together_codesLoop hA hlencode hdistcode hs <;> omega

/-! ## Tables -/

/-- The symbols that are put into a table are below the number of lengths. -/
theorem sortSymbols_lt {lengths offs symbols symbols' : List Nat} {n start bound : Nat}
    (h : sortSymbols lengths n start offs symbols = .ok symbols') (hn : n ≤ bound)
    (hsymbols : ∀ symbol ∈ symbols, symbol < bound) : ∀ symbol ∈ symbols', symbol < bound := by
  obtain ⟨state, hloop, hreturn⟩ := bind_eq_ok.mp h
  cases hreturn
  let Below (state : List Nat × List Nat) : Prop := ∀ symbol ∈ state.2, symbol < bound
  show Below state
  refine foldlM_ok hloop hsymbols fun k hk u v hu hv => ?_
  have hlt := List.mem_range.mp hk
  obtain ⟨len, -, hv⟩ := bind_eq_ok.mp hv
  split at hv
  · obtain ⟨off, -, hv⟩ := bind_eq_ok.mp hv
    obtain ⟨offs, -, hv⟩ := bind_eq_ok.mp hv
    obtain ⟨symbols, hset, hv⟩ := bind_eq_ok.mp hv
    cases hv
    obtain ⟨-, rfl⟩ := setAt_eq_ok.mp hset
    intro symbol hmem
    rcases List.mem_or_eq_of_mem_set hmem with hold | rfl
    · exact hu symbol hold
    · omega
  · cases hv
    exact hu

theorem construct_symbols {h h' : Huffman} {lengths : List Nat} {n start bound : Nat}
    {err : ErrorCode} (hrun : construct h lengths n start = .ok (err, h')) (hn : n ≤ bound)
    (hsymbols : ∀ symbol ∈ h.symbols, symbol < bound) : ∀ symbol ∈ h'.symbols, symbol < bound := by
  obtain ⟨counts, -, hrun⟩ := bind_eq_ok.mp hrun
  obtain ⟨count, -, hrun⟩ := bind_eq_ok.mp hrun
  split at hrun
  · cases hrun
    exact hsymbols
  · obtain ⟨verdict, -, hrun⟩ := bind_eq_ok.mp hrun
    cases verdict with
    | none =>
      cases hrun
      exact hsymbols
    | some left =>
      obtain ⟨offs, -, hrun⟩ := bind_eq_ok.mp hrun
      obtain ⟨symbols, hsort, hrun⟩ := bind_eq_ok.mp hrun
      cases hrun
      exact sortSymbols_lt hsort hn hsymbols

/-- A table is made without a failure, and can be decoded with. -/
theorem construct_usable (hA : Exact 256 A) {h : Huffman} {lengths : List Nat} {n start bound : Nat}
    (hlength : start + n ≤ lengths.length) (hwords : lengths.length ≤ MAXCODES)
    (hmax : ∀ l ∈ lengths, l ≤ MAXBITS) (hroom : n ≤ h.symbols.length)
    (hsize : h.symbols.length < 2 ^ 64) (hn : n ≤ bound)
    (hsymbols : ∀ symbol ∈ h.symbols, symbol < bound) :
    ∃ err h', Unchecked.construct A h lengths n start = .ok (err, h') ∧
      construct h lengths n start = .ok (err, h') ∧ h'.symbols.length = h.symbols.length ∧
      Usable h' bound := by
  have hcodes : MAXCODES = 316 := rfl
  obtain ⟨err, h', hrun, hcounts, hsame, -⟩ := construct_cases hlength hmax hroom
  refine ⟨err, h', ?_, hrun, hsame, ⟨_, hcounts, ?_⟩, by omega,
    construct_symbols hrun hn hsymbols⟩
  · rw [construct_eq hA hlength (by omega) hmax (by omega) hroom, hrun]
  · rw [length_slice hlength]
    omega

theorem buildFixed_usable (hA : Exact 256 A) :
    ∃ lencode distcode, Unchecked.buildFixed A = .ok (lencode, distcode) ∧
      buildFixed = .ok (lencode, distcode) ∧ Usable lencode 288 ∧ Usable distcode 30 := by
  have hzeros : ∀ n bound : Nat, 0 < bound → ∀ symbol ∈ List.replicate n 0, symbol < bound := by
    intro n bound hbound symbol hmem
    rwa [List.eq_of_mem_replicate hmem]
  obtain ⟨err, lencode, hrun', hrun, -, hlencode⟩ :=
    @construct_usable A hA ⟨List.replicate (MAXBITS + 1) 0, List.replicate FIXLCODES 0⟩ fixedLit
      FIXLCODES 0 288 length_fixedLit.ge (by rw [length_fixedLit]; decide) fixedLit_le
      List.length_replicate.ge (by rw [List.length_replicate]; decide) le_rfl
      (hzeros _ _ (by decide))
  obtain ⟨err', distcode, hdist', hdist, -, hdistcode⟩ :=
    @construct_usable A hA ⟨List.replicate (MAXBITS + 1) 0, List.replicate MAXDCODES 0⟩
      (List.replicate MAXDCODES 5 ++ fixedLit.drop MAXDCODES) MAXDCODES 0 30
      (by rw [List.length_append, List.length_replicate]; omega)
      (by rw [List.length_append, List.length_replicate, List.length_drop, length_fixedLit]; decide)
      fixedDist_le List.length_replicate.ge (by rw [List.length_replicate]; decide) le_rfl
      (hzeros _ _ (by decide))
  refine ⟨lencode, distcode, ?_, ?_, hlencode, hdistcode⟩
  · exact bind_eq_ok.mpr ⟨_, hrun', bind_eq_ok.mpr ⟨_, hdist', rfl⟩⟩
  · exact bind_eq_ok.mpr ⟨_, hrun, bind_eq_ok.mpr ⟨_, hdist, rfl⟩⟩

/-! ## Code lengths -/

/-- The array of code lengths. -/
structure Lengths (lengths : List Nat) : Prop where
  length : lengths.length = MAXCODES
  le : ∀ l ∈ lengths, l ≤ MAXBITS

theorem Lengths.set {lengths : List Nat} (h : Lengths lengths) {l : Nat} (hl : l ≤ MAXBITS)
    (i : Nat) : Lengths (lengths.set i l) := by
  refine ⟨List.length_set.trans h.length, fun l' hl' => ?_⟩
  rcases List.mem_or_eq_of_mem_set hl' with hold | rfl
  · exact h.le l' hold
  · exact hl

theorem Lengths.setAt {lengths : List Nat} (h : Lengths lengths) {i : Nat} (hi : i < MAXCODES)
    (l : Nat) : setAt lengths i l = .ok (lengths.set i l) :=
  setAt_eq_ok.mpr ⟨by rw [h.length]; exact hi, rfl⟩

theorem together_foldlM {ι σ : Type} {f' f : σ → ι → Puff σ} {I : σ → Prop} {l : List ι}
    (hf : ∀ i ∈ l, ∀ u s, s.InOrder → I u →
      Together (f' u i) (f u i) s fun v' v s' => v' = v ∧ I v ∧ s'.InOrder)
    {u : σ} (hu : I u) {s : State} (hs : s.InOrder) :
    Together (l.foldlM f' u) (l.foldlM f u) s fun v' v s' => v' = v ∧ I v ∧ s'.InOrder := by
  induction l generalizing u s with
  | nil => exact together_pure ⟨rfl, hu, hs⟩
  | cons i l ih =>
    rw [List.foldlM_cons, List.foldlM_cons]
    apply (hf i List.mem_cons_self u s hs hu).bind
    rintro v' v s' - ⟨rfl, hv, hs'⟩
    exact ih (fun j hj => hf j (List.mem_cons_of_mem i hj)) hv hs'

theorem together_buildDynamicLengths (hA : Exact 256 A) {s : State} (hs : s.InOrder) :
    Together (Unchecked.buildDynamicLengths A) buildDynamicLengths s fun v' v s' =>
      v' = v ∧ Lengths v ∧ s'.InOrder := by
  have hcodes : MAXCODES = 316 := rfl
  unfold Unchecked.buildDynamicLengths buildDynamicLengths
  dsimp only
  refine (together_bits hA (by decide) hs).bind ?_
  rintro ncode' ncode s₁ - ⟨rfl, hncode, hs₁⟩
  apply together_op (hA.add (by omega))
  have hzeros : Lengths (List.replicate MAXCODES 0) := by
    refine ⟨List.length_replicate, fun l hl => ?_⟩
    rw [List.eq_of_mem_replicate hl]
    exact Nat.zero_le _
  refine (together_foldlM (I := Lengths) ?_ hzeros hs₁).bind ?_
  · intro i hi lengths s₂ hs₂ hlengths
    have hi19 : i < 19 := by
      have := List.mem_range.mp hi
      omega
    have hsymbol := getD_order_lt i hi19
    refine (together_bits hA (by decide) hs₂).bind ?_
    rintro len' len s₃ - ⟨rfl, hlen, hs₃⟩
    have hle : len' ≤ MAXBITS := by
      show len' ≤ 15
      omega
    apply together_lift (getAt_order i hi19)
    rw [hlengths.setAt (by omega)]
    exact together_pure ⟨rfl, hlengths.set hle _, hs₃⟩
  · rintro lengths' lengths s₂ - ⟨rfl, hlengths, hs₂⟩
    refine together_foldlM (fun i hi lengths s₃ hs₃ hlengths => ?_) hlengths hs₂
    have hi19 : i < 19 := by
      have := (List.mem_range'_1.mp hi).2
      omega
    have hsymbol := getD_order_lt i hi19
    apply together_lift (getAt_order i hi19)
    rw [hlengths.setAt (by omega)]
    exact together_pure ⟨rfl, hlengths.set (Nat.zero_le _) _, hs₃⟩

theorem repeatLength_usable (hA : Exact 256 A) {len fuel count index : Nat} (hfuel : count < fuel)
    (hlen : len ≤ MAXBITS) {lengths : List Nat} (hlengths : Lengths lengths)
    (hroom : index + count ≤ MAXCODES) :
    ∃ lengths', Unchecked.repeatLength A len fuel count (lengths, index) =
        .ok (lengths', index + count) ∧
      repeatLength len count (lengths, index) = .ok (lengths', index + count) ∧ Lengths lengths' := by
  have hcodes : MAXCODES = 316 := rfl
  induction fuel generalizing count index lengths with
  | zero => omega
  | succ fuel ih =>
    rw [Unchecked.repeatLength]
    cases count with
    | zero =>
      rw [if_neg (not_not.mpr rfl)]
      exact ⟨lengths, rfl, rfl, hlengths⟩
    | succ count =>
      obtain ⟨lengths', hrun', hrun, hlengths'⟩ := @ih count (index + 1) (by omega) _
        (hlengths.set hlen index) (by omega)
      rw [Nat.add_right_comm] at hrun' hrun
      refine ⟨lengths', ?_, ?_, hlengths'⟩
      · rw [if_pos (Nat.succ_ne_zero count), hA.sub (by omega) (by omega), ok_bind,
          hlengths.setAt (by omega), ok_bind, hA.add (by omega), ok_bind]
        exact hrun'
      · rw [repeatLength, hlengths.setAt (by omega), ok_bind]
        exact hrun

theorem together_readLengths (hA : Exact 256 A) {lencode : Huffman} (hlencode : Usable lencode 19)
    {nlen ndist fuel' fuel index : Nat} {lengths : List Nat} (hlengths : Lengths lengths)
    (htotal : nlen + ndist ≤ MAXCODES) (hindex : index ≤ nlen + ndist)
    (hfuel' : nlen + ndist < index + fuel') (hfuel : nlen + ndist ≤ index + fuel) {s : State}
    (hs : s.InOrder) :
    Together (Unchecked.readLengths A lencode nlen ndist fuel' (lengths, index))
      (readLengths lencode (nlen + ndist) fuel (lengths, index)) s fun v' v s' =>
        v' = v ∧ Lengths v ∧ s'.InOrder := by
  have hcodes : MAXCODES = 316 := rfl
  have hbits : MAXBITS = 15 := rfl
  induction fuel' generalizing fuel index lengths s with
  | zero => omega
  | succ fuel' ih =>
    have hadd := hA.add (show nlen + ndist < 2 ^ 256 by omega)
    rw [Unchecked.readLengths]
    apply together_op hadd
    by_cases hmore : index < nlen + ndist
    · obtain ⟨fuel, rfl⟩ : ∃ n, fuel = n + 1 := ⟨fuel - 1, by omega⟩
      -- A length that is repeated brings the index on.
      have hrepeat : ∀ {len count : Nat} {s : State}, len ≤ MAXBITS → 3 ≤ count → count < 2 ^ 8 →
          s.InOrder → Together
            (do
              if (← A.add index count) > (← A.add nlen ndist) then throw .ERR_REPEAT_MORE
              Unchecked.readLengths A lencode nlen ndist fuel'
                (← Unchecked.repeatLength A len (count + 1) count (lengths, index)))
            (do
              if index + count > nlen + ndist then throw .ERR_REPEAT_MORE
              readLengths lencode (nlen + ndist) fuel (← repeatLength len count (lengths, index))) s
            fun v' v s' => v' = v ∧ Lengths v ∧ s'.InOrder := by
        intro len count s hlen hthree hcount hs
        dsimp only
        apply together_op (hA.add (by omega))
        apply together_op hadd
        by_cases hfar : index + count > nlen + ndist
        · rw [if_pos hfar, if_pos hfar]
          exact together_throw_bind _
        · rw [if_neg hfar, if_neg hfar]
          obtain ⟨lengths', hrun', hrun, hlengths'⟩ :=
            repeatLength_usable hA (Nat.lt_succ_self count) hlen hlengths
              (show index + count ≤ MAXCODES by omega)
          rw [hrun', hrun]
          exact ih hlengths' (by omega) (by omega) (by omega) hs
      rw [if_pos hmore, readLengths, if_pos hmore]
      refine (together_decode hA hlencode hs).bind ?_
      rintro symbol' symbol s₁ - ⟨rfl, hsymbol, hs₁⟩
      dsimp only
      by_cases hlength : symbol' < 16
      · rw [if_pos hlength, if_pos hlength]
        apply together_lift (hlengths.setAt (by omega) symbol')
        apply together_op (hA.add (by omega))
        exact ih (hlengths.set (by omega) index) (by omega) (by omega) (by omega) hs₁
      · rw [if_neg hlength, if_neg hlength]
        unfold Unchecked.readRepeat
        by_cases hagain : symbol' = 16
        · rw [if_pos hagain, if_pos hagain]
          by_cases hfirst : index = 0
          · rw [if_pos hfirst, if_pos hfirst]
            simp only [bind_assoc]
            exact together_throw_bind _
          · rw [if_neg hfirst, if_neg hfirst]
            simp only [bind_assoc, pure_bind]
            have hlt : index - 1 < lengths.length := by
              rw [hlengths.length]
              omega
            apply together_op (hA.sub (by omega) (by omega))
            apply together_lift (getAt_eq_ok.mpr (List.getElem?_eq_getElem hlt))
            refine (together_bits hA (by decide) hs₁).bind ?_
            rintro tempBits' tempBits s₂ - ⟨rfl, htempBits, hs₂⟩
            apply together_op (hA.add (by omega))
            exact hrepeat (hlengths.le _ (List.getElem_mem hlt)) (by omega) (by omega) hs₂
        · rw [if_neg hagain, if_neg hagain]
          by_cases hzeros : symbol' = 17
          · rw [if_pos hzeros, if_pos hzeros]
            simp only [bind_assoc, pure_bind]
            refine (together_bits hA (by decide) hs₁).bind ?_
            rintro tempBits' tempBits s₂ - ⟨rfl, htempBits, hs₂⟩
            apply together_op (hA.add (by omega))
            exact hrepeat (Nat.zero_le _) (by omega) (by omega) hs₂
          · rw [if_neg hzeros, if_neg hzeros]
            simp only [bind_assoc, pure_bind]
            refine (together_bits hA (by decide) hs₁).bind ?_
            rintro tempBits' tempBits s₂ - ⟨rfl, htempBits, hs₂⟩
            apply together_op (hA.add (by omega))
            exact hrepeat (Nat.zero_le _) (by omega) (by omega) hs₂
    · rw [if_neg hmore]
      cases fuel with
      | zero => exact together_pure ⟨rfl, hlengths, hs⟩
      | succ fuel =>
        rw [readLengths, if_neg hmore]
        exact together_pure ⟨rfl, hlengths, hs⟩

/-! ## Blocks -/

theorem refuses_eq (hA : Exact 256 A) {h : Huffman} {bound : Nat} (hh : Usable h bound)
    (err : ErrorCode) (n : Nat) :
    ∃ b, Unchecked.refuses A err n h = .ok b ∧ refuses err n h = .ok b := by
  obtain ⟨lengths, hcounts, hlength⟩ := hh.code
  have hsize := hh.size
  have hzero : lengths.count 0 ≤ lengths.length := List.count_le_length
  have hone : lengths.count 1 ≤ lengths.length := List.count_le_length
  unfold Unchecked.refuses refuses
  split
  · exact ⟨false, rfl, rfl⟩
  · rw [getAt_eq_ok.mpr (hcounts.count 0 (by decide)), getAt_eq_ok.mpr (hcounts.count 1 (by decide)),
      ok_bind, ok_bind, hA.add (by omega)]
    exact ⟨_, rfl, rfl⟩

theorem together_buildDynamic (hA : Exact 256 A) {s : State} (hs : s.InOrder) :
    Together (Unchecked.buildDynamic A) buildDynamic s fun v' v s' =>
      v' = v ∧ Usable v.1 288 ∧ Usable v.2 30 ∧ s'.InOrder := by
  have hcodes : MAXCODES = 316 := rfl
  have hlit : MAXLCODES = 286 := rfl
  have hdist : MAXDCODES = 30 := rfl
  have hzeros : ∀ n bound : Nat, 0 < bound → ∀ symbol ∈ List.replicate n 0, symbol < bound := by
    intro n bound hbound symbol hmem
    rwa [List.eq_of_mem_replicate hmem]
  unfold Unchecked.buildDynamic buildDynamic
  dsimp only
  refine (together_bits hA (by decide) hs).bind ?_
  rintro nlen' nlen s₁ - ⟨rfl, hnlen, hs₁⟩
  apply together_op (hA.add (by omega))
  refine (together_bits hA (by decide) hs₁).bind ?_
  rintro ndist' ndist s₂ - ⟨rfl, hndist, hs₂⟩
  apply together_op (hA.add (by omega))
  by_cases hmany : nlen' + 257 > MAXLCODES ∨ ndist' + 1 > MAXDCODES
  · rw [if_pos hmany, if_pos hmany]
    exact together_throw_bind _
  · rw [if_neg hmany, if_neg hmany]
    have hbound : nlen' + 257 ≤ 286 ∧ ndist' + 1 ≤ 30 := by omega
    generalize nlen' + 257 = nlen at hbound
    generalize ndist' + 1 = ndist at hbound
    refine (together_buildDynamicLengths hA hs₂).bind ?_
    rintro lengths' lengths s₃ - ⟨rfl, hlengths, hs₃⟩
    -- The code of the code lengths
    obtain ⟨err, code, hrun', hrun, hroom, hcode⟩ := @construct_usable A hA
      ⟨List.replicate (MAXBITS + 1) 0, List.replicate MAXLCODES 0⟩ lengths' 19 0 19
      (by rw [hlengths.length]; decide) hlengths.length.le hlengths.le
      (by rw [List.length_replicate]; decide) (by rw [List.length_replicate]; decide) le_rfl
      (hzeros _ _ (by decide))
    rw [hrun', hrun, liftM_ok_bind, liftM_ok_bind]
    dsimp only
    by_cases herr : err ≠ .ERR_NONE
    · rw [if_pos herr, if_pos herr]
      exact together_throw_bind _
    · rw [if_neg herr, if_neg herr]
      refine (together_readLengths hA hcode hlengths (by omega) (Nat.zero_le _) (by omega) (by omega)
        hs₃).bind ?_
      rintro read' read s₄ - ⟨rfl, hread, hs₄⟩
      have hlt : 256 < read'.length := by
        rw [hread.length]
        decide
      apply together_lift (getAt_eq_ok.mpr (List.getElem?_eq_getElem hlt))
      split
      · exact together_throw_bind _
      · have hsize : code.symbols.length = 286 := hroom.trans List.length_replicate
        obtain ⟨err, lencode, hrun', hrun, -, hlencode⟩ := @construct_usable A hA code read' nlen 0 288
          (by rw [hread.length]; omega) hread.length.le hread.le (by omega) hcode.size (by omega)
          (fun symbol hmem => (hcode.symbols symbol hmem).trans (by decide))
        obtain ⟨refused, hrefuses', hrefuses⟩ := refuses_eq hA hlencode err nlen
        rw [hrun', hrun, liftM_ok_bind, liftM_ok_bind]
        dsimp only
        rw [hrefuses', hrefuses, liftM_ok_bind, liftM_ok_bind]
        split
        · exact together_throw_bind _
        · obtain ⟨err, distcode, hrun', hrun, -, hdistcode⟩ := @construct_usable A hA
            ⟨List.replicate (MAXBITS + 1) 0, List.replicate MAXDCODES 0⟩ read' ndist nlen 30
            (by rw [hread.length]; omega) hread.length.le hread.le
            (by rw [List.length_replicate]; omega) (by rw [List.length_replicate]; decide) (by omega)
            (hzeros _ _ (by decide))
          obtain ⟨refused, hrefuses', hrefuses⟩ := refuses_eq hA hdistcode err ndist
          rw [hrun', hrun, liftM_ok_bind, liftM_ok_bind]
          dsimp only
          rw [hrefuses', hrefuses, liftM_ok_bind]
          split
          · exact together_throw_bind _
          · exact together_pure ⟨rfl, hlencode, hdistcode, hs₄⟩

theorem together_blocks (hA : Exact 256 A) {fuel' fuel : Nat} {s : State} (hs : s.InOrder)
    (hfuel' : 8 * s.input.length < s.position + fuel')
    (hfuel : 8 * s.input.length < s.position + fuel) :
    Together (Unchecked.blocks A fuel') (blocks fuel) s fun _ _ s' => s'.InOrder := by
  induction fuel' generalizing fuel s with
  | zero =>
    have := hs.within.position_le
    omega
  | succ fuel' ih =>
    obtain ⟨fuel, rfl⟩ : ∃ n, fuel = n + 1 := ⟨fuel - 1, by have := hs.within.position_le; omega⟩
    rw [Unchecked.blocks, blocks]
    dsimp only
    refine (together_bits hA (by decide) hs).bind ?_
    rintro last' last s₁ h₁ ⟨rfl, -, hs₁⟩
    have hadvances₁ := (forward_bits 1 s _ _ h₁).advances
    have hmore := reads_bits 1 s _ _ h₁ hs.within
    -- After a block there are fewer bits.
    have hnext : ∀ s', Advances s₁ s' → s'.InOrder →
        Together (if last' = 0 then Unchecked.blocks A fuel' else pure ())
          (if last' = 0 then blocks fuel else pure ()) s' fun _ _ s'' => s''.InOrder := by
      intro s' hadvances' hs'
      have hinput := (hadvances₁.trans hadvances').input
      have hle := (hadvances'.within hs₁.within).2
      split
      · apply ih hs' <;>
        · rw [hinput]
          omega
      · exact together_pure hs'
    refine (together_bits hA (by decide) hs₁).bind ?_
    rintro t' t s₂ h₂ ⟨rfl, -, hs₂⟩
    have hadvances₂ := (forward_bits 2 s₁ _ _ h₂).advances
    by_cases hstored : t' = 0
    · rw [if_pos hstored, if_pos hstored]
      apply (together_stored hA hs₂).bind
      rintro _ _ s' h hs'
      exact hnext s' (hadvances₂.trans (forward_stored s₂ _ _ h).advances) hs'
    · rw [if_neg hstored, if_neg hstored]
      by_cases hfixed : t' = 1
      · rw [if_pos hfixed, if_pos hfixed]
        have hblock : Together (Unchecked.fixed A) fixed s₂ fun _ _ s' => s'.InOrder :=
          together_get (together_codes hA hs₂.lencode hs₂.distcode hs₂)
        apply hblock.bind
        rintro _ _ s' h hs'
        exact hnext s' (hadvances₂.trans (forward_get (forward_codes _ _ s₂) _ _ h).advances) hs'
      · rw [if_neg hfixed, if_neg hfixed]
        by_cases hdynamic : t' = 2
        · rw [if_pos hdynamic, if_pos hdynamic]
          have hblock : Together (Unchecked.dynamic A) dynamic s₂ fun _ _ s' => s'.InOrder := by
            apply (together_buildDynamic hA hs₂).bind
            rintro codes' codes s₃ - ⟨rfl, hlencode, hdistcode, hs₃⟩
            exact together_codes hA hlencode hdistcode hs₃
          apply hblock.bind
          rintro _ _ s' h hs'
          refine hnext s' (hadvances₂.trans ?_) hs'
          exact (((forward_buildDynamic s₂).bind fun codes s₃ _ =>
            forward_codes codes.1 codes.2 s₃) _ _ h).advances
        · rw [if_neg hdynamic, if_neg hdynamic]
          exact together_throw_bind _

/-- The decompressor runs to its end as the model does, for every arithmetic that is exact as long as
it can be. -/
theorem inflate_together (hA : Exact 256 A) {source : Bytes} {destlen : Nat}
    (hsource : source.length < 2 ^ 64) (hdestlen : destlen < 2 ^ 64) :
    ∃ result s, Unchecked.inflate A source destlen = .ok (result, s) ∧
      inflate source destlen = .ok (result, s) := by
  obtain ⟨lencode, distcode, hfixed', hfixed, hlencode, hdistcode⟩ := buildFixed_usable hA
  let s₀ : State := ⟨List.replicate destlen 0, 0, source, 0, 0, 0, lencode, distcode⟩
  have hs₀ : s₀.InOrder := by
    refine ⟨⟨Nat.zero_lt_one, Nat.zero_le _, le_rfl⟩, Nat.zero_lt_succ 7, hsource, ?_, Nat.zero_le _, hlencode,
      hdistcode⟩
    show (List.replicate destlen (0 : UInt8)).length < 2 ^ 64
    rw [List.length_replicate]
    exact hdestlen
  have hrun := @together_blocks A hA (8 * source.length + 1) (8 * source.length + 1) s₀ hs₀
    (show 8 * source.length < 0 + _ by omega) (show 8 * source.length < 0 + _ by omega)
  unfold Unchecked.inflate inflate
  rw [if_neg (by omega), hfixed', hfixed]
  rcases hrun with ⟨_, _, s, hrun', hrun, -⟩ | ⟨err, s, hstops', hstops⟩
  · exact ⟨.ok (), s, hrun', hrun⟩
  · exact ⟨.error err, s, hstops', hstops⟩

/-- The words of the EVM, with a failure of every operation that would wrap. -/
def checkedWords : Arithmetic Revert := failing 256 .panic

/-- On every input the decompressor ends without a failure, so no operation wraps, no array access is
out of bounds and no loop goes on, and it does not write more than `destlen` bytes.  The arithmetic
of the EVM gives the same.  An output that is too long is never allocated. -/
theorem inflate_safe (source : Memory) (destlen : Nat) :
    (destlen < 2 ^ 64 → ∃ result s,
      Unchecked.inflate checkedWords source.1 destlen = .ok (result, s) ∧
      Unchecked.inflate unchecked source.1 destlen = .ok (result, s) ∧
      inflate source.1 destlen = .ok (result, s) ∧
      s.output.length = destlen ∧ s.outcnt ≤ destlen) ∧
    (2 ^ 64 ≤ destlen → ∀ A, Unchecked.inflate A source.1 destlen = .error .panic) := by
  refine ⟨fun hdestlen => ?_, fun hdestlen A => ?_⟩
  · obtain ⟨result, s, hchecked, hmodel⟩ := inflate_together (failing_exact .panic) source.2 hdestlen
    obtain ⟨result', s', hunchecked, hmodel'⟩ := inflate_together wrapping_exact source.2 hdestlen
    obtain ⟨rfl, rfl⟩ : result = result' ∧ s = s' := by
      have hsame := hmodel.symm.trans hmodel'
      cases hsame
      exact ⟨rfl, rfl⟩
    obtain ⟨houtput, houtcnt⟩ := output_eq_zeroFilled hmodel
    refine ⟨result, s, hchecked, hunchecked, hmodel, ?_, houtcnt⟩
    have hlength := congrArg List.length houtput
    rw [zeroFilled, List.length_append, List.length_take, List.length_replicate] at hlength
    omega
  · unfold Unchecked.inflate
    rw [if_pos hdestlen]
    rfl

/-- An input that ends too early, with a bound on the output that can be allocated and one that
cannot. -/
theorem inflate_safe_sample :
    (∃ result s, Unchecked.inflate checkedWords [1] 2 = .ok (result, s) ∧
      Unchecked.inflate unchecked [1] 2 = .ok (result, s) ∧ inflate [1] 2 = .ok (result, s) ∧
      s.output.length = 2 ∧ s.outcnt ≤ 2) ∧
    ∀ A, Unchecked.inflate A [1] (2 ^ 64) = .error .panic :=
  ⟨(inflate_safe ⟨[1], by decide⟩ 2).1 (by decide),
    (inflate_safe ⟨[1], by decide⟩ (2 ^ 64)).2 le_rfl⟩

end Inflate

end Nouns
