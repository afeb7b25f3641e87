import Nouns.Art.Inflate
import Nouns.Lib.Bits

/-!
# Reading — the bits of the input

The state stands before the bits of the bit buffer and of the bytes that are not loaded.
-/

open Bits

namespace Nouns

namespace Inflate

variable {α β : Type}

/-! ## Runs -/

/-- The function returns `a` and leaves `s'`. -/
def Runs (m : Puff α) (s : State) (a : α) (s' : State) : Prop := m.run.run s = .ok (.ok a, s')

theorem Runs.bind {m : Puff α} {f : α → Puff β} {s s' s'' : State} {a : α} {b : β}
    (h : Runs m s a s') (h' : Runs (f a) s' b s'') : Runs (m >>= f) s b s'' := by
  unfold Runs at *
  change ((m.run.run s) >>= _) = _
  rw [h]
  exact h'

theorem runs_pure (a : α) (s : State) : Runs (pure a) s a s := rfl

theorem runs_get (s : State) : Runs get s s s := rfl

theorem runs_set (s s' : State) : Runs (set s') s ⟨⟩ s' := rfl

theorem runs_modify (f : State → State) (s : State) : Runs (modify f) s ⟨⟩ (f s) := rfl

theorem runs_lift {x : Tx α} {a : α} (h : x = .ok a) (s : State) : Runs (liftM x) s a s := by
  subst h
  rfl

theorem Runs.of_bind {m : Puff α} {f : α → Puff β} {s s'' : State} {b : β}
    (h : Runs (m >>= f) s b s'') : ∃ a s', Runs m s a s' ∧ Runs (f a) s' b s'' := by
  change (m.run.run s >>= _) = _ at h
  obtain ⟨⟨r, s'⟩, hm, hrest⟩ := Fallible.bind_eq_ok.mp h
  cases r with
  | ok a => exact ⟨a, s', hm, hrest⟩
  | error err => nomatch hrest

theorem Runs.of_get {f : State → Puff β} {s s' : State} {b : β} (h : Runs (get >>= f) s b s') :
    Runs (f s) s b s' := h

theorem Runs.of_set {f : PUnit → Puff β} {s s₁ s' : State} {b : β}
    (h : Runs (set s₁ >>= f) s b s') : Runs (f ⟨⟩) s₁ b s' := h

theorem Runs.of_modify {g : State → State} {f : PUnit → Puff β} {s s' : State} {b : β}
    (h : Runs (modify g >>= f) s b s') : Runs (f ⟨⟩) (g s) b s' := h

theorem Runs.of_lift {x : Tx α} {s s' : State} {a : α} (h : Runs (liftM x) s a s') :
    x = .ok a ∧ s' = s := by
  cases x with
  | error e => nomatch h
  | ok a' =>
    cases h
    exact ⟨rfl, rfl⟩

/-- The function stops with an error code and leaves `s'`. -/
def Stops (m : Puff α) (s : State) (err : ErrorCode) (s' : State) : Prop :=
  m.run.run s = .ok (.error err, s')

theorem stops_throw (err : ErrorCode) (s : State) : Stops (throw err : Puff α) s err s := rfl

theorem Stops.bind {m : Puff α} (f : α → Puff β) {s s' : State} {err : ErrorCode}
    (h : Stops m s err s') : Stops (m >>= f) s err s' := by
  unfold Stops at *
  change ((m.run.run s) >>= _) = _
  rw [h]
  rfl

theorem Runs.stops {m : Puff α} {f : α → Puff β} {s s' s'' : State} {a : α} {err : ErrorCode}
    (h : Runs m s a s') (h' : Stops (f a) s' err s'') : Stops (m >>= f) s err s'' := by
  unfold Runs at h
  unfold Stops at *
  change ((m.run.run s) >>= _) = _
  rw [h]
  exact h'

/-! ## The bit buffer -/

/-- The bits that are not read yet, with `val` as the bit buffer. -/
def State.remaining (s : State) (val : Nat) : List Bool :=
  toBits s.bitcnt val ++ bytesBits (s.input.drop s.incnt)

/-- The input and the counters are in order, with `val` as the bit buffer. -/
structure State.Ready (s : State) (val : Nat) : Prop where
  buffer : val < 2 ^ s.bitcnt
  incnt : s.incnt ≤ s.input.length
  loaded : s.bitcnt ≤ 8 * s.incnt

/-- The state with other counters. -/
def State.counters (s : State) (incnt bitcnt : Nat) : State := { s with incnt, bitcnt }

/-- Loading moves bits into the buffer until there are enough. -/
theorem runs_loadBits {need fuel val : Nat} {s : State} (hs : s.Ready val)
    (hfuel : need ≤ s.bitcnt + 8 * fuel) (hbits : need ≤ (s.remaining val).length)
    (hcnt : s.bitcnt < need + 8) :
    ∃ val' incnt bitcnt, Runs (loadBits need fuel val) s val' (s.counters incnt bitcnt) ∧
      (s.counters incnt bitcnt).Ready val' ∧
      (s.counters incnt bitcnt).remaining val' = s.remaining val ∧
      need ≤ bitcnt ∧ bitcnt < need + 8 := by
  induction fuel generalizing val s with
  | zero => exact ⟨val, s.incnt, s.bitcnt, runs_pure _ _, hs, rfl, by omega, hcnt⟩
  | succ fuel ih =>
    by_cases hload : s.bitcnt < need
    · have hlt : s.incnt < s.input.length := by
        rw [State.remaining, List.length_append, length_toBits, length_bytesBits,
          List.length_drop] at hbits
        omega
      obtain ⟨b, hb⟩ : ∃ b, s.input[s.incnt]? = some b := ⟨_, List.getElem?_eq_getElem hlt⟩
      have hdrop : s.input.drop s.incnt = b :: s.input.drop (s.incnt + 1) := by
        rw [List.drop_eq_getElem_cons hlt, Option.some.inj ((List.getElem?_eq_getElem hlt).symm.trans hb)]
      let s₁ := s.counters (s.incnt + 1) (s.bitcnt + 8)
      have hremaining : s₁.remaining (val ||| b.toNat <<< s.bitcnt) = s.remaining val := by
        change toBits (s.bitcnt + 8) _ ++ bytesBits (s.input.drop (s.incnt + 1)) = _
        rw [toBits_shift_or hs.buffer, List.append_assoc, ← bytesBits_cons, ← hdrop]
        rfl
      have hready : s₁.Ready (val ||| b.toNat <<< s.bitcnt) := by
        refine ⟨?_, hlt, ?_⟩
        · change val ||| b.toNat <<< s.bitcnt < 2 ^ (s.bitcnt + 8)
          refine Nat.or_lt_two_pow (hs.buffer.trans_le (Nat.pow_le_pow_right (by decide) (by omega))) ?_
          rw [Nat.shiftLeft_eq, Nat.add_comm, pow_add]
          exact Nat.mul_lt_mul_of_pos_right b.toNat_lt (Nat.two_pow_pos _)
        · change s.bitcnt + 8 ≤ 8 * (s.incnt + 1)
          have := hs.loaded
          omega
      obtain ⟨val', incnt, bitcnt, hrun, hrest⟩ := ih hready
        (by change need ≤ s.bitcnt + 8 + 8 * fuel; omega) (by rw [hremaining]; exact hbits)
        (by change s.bitcnt + 8 < need + 8; omega)
      rw [hremaining] at hrest
      refine ⟨val', incnt, bitcnt, ?_, hrest⟩
      rw [loadBits]
      refine (runs_get s).bind ?_
      rw [if_pos hload, if_neg (by omega)]
      exact (runs_lift (getAt_eq_ok.mpr hb) s).bind ((runs_set s s₁).bind hrun)
    · refine ⟨val, s.incnt, s.bitcnt, ?_, hs, rfl, by omega, hcnt⟩
      rw [loadBits]
      refine (runs_get s).bind ?_
      rw [if_neg hload]
      exact runs_pure val s

/-! ## Parsing -/

/-- What does not change while a stream is read. -/
structure Setting where
  source : Bytes
  destlen : Nat
  lencode : Huffman
  distcode : Huffman

/-- The state stands before `bits`, and `out` is written. -/
structure Setting.At (c : Setting) (s : State) (bits : List Bool) (out : Bytes) : Prop where
  input : s.input = c.source
  lencode : s.lencode = c.lencode
  distcode : s.distcode = c.distcode
  ready : s.Ready s.bitbuf
  bitcnt : s.bitcnt < 8
  remaining : s.remaining s.bitbuf = bits
  output : s.output = out ++ List.replicate (c.destlen - out.length) 0
  outcnt : s.outcnt = out.length
  room : out.length ≤ c.destlen

/-- The function returns `a` and goes from `bits` to `bits'` and from `out` to `out'`. -/
def Setting.Parses (c : Setting) (m : Puff α) (bits : List Bool) (out : Bytes) (a : α)
    (bits' : List Bool) (out' : Bytes) : Prop :=
  ∀ s, c.At s bits out → ∃ s', Runs m s a s' ∧ c.At s' bits' out'

variable {c : Setting} {bits bits' bits'' : List Bool} {out out' out'' : Bytes}

namespace Setting

theorem Parses.bind {m : Puff α} {f : α → Puff β} {a : α} {b : β}
    (h : c.Parses m bits out a bits' out') (h' : c.Parses (f a) bits' out' b bits'' out'') :
    c.Parses (m >>= f) bits out b bits'' out'' := by
  intro s hs
  obtain ⟨s', hrun, hs'⟩ := h s hs
  obtain ⟨s'', hrun', hs''⟩ := h' s' hs'
  exact ⟨s'', hrun.bind hrun', hs''⟩

theorem parses_pure (a : α) : c.Parses (pure a) bits out a bits out :=
  fun s hs => ⟨s, runs_pure a s, hs⟩

theorem parses_lift {x : Tx α} {a : α} (h : x = .ok a) : c.Parses (liftM x) bits out a bits out :=
  fun s hs => ⟨s, runs_lift h s, hs⟩

/-- The next bits, as a number. -/
theorem parses_bits {need : Nat} {read : List Bool} (hread : read.length = need) :
    c.Parses (Inflate.bits need) (read ++ bits) out (ofBits read) bits out := by
  intro s hs
  have hlength : need ≤ (s.remaining s.bitbuf).length := by
    rw [hs.remaining, List.length_append, hread]
    omega
  have hbitcnt := hs.bitcnt
  obtain ⟨val, incnt, bitcnt, hrun, hready, hremaining, hneed, hlt⟩ :=
    runs_loadBits hs.ready (show need ≤ s.bitcnt + 8 * need by omega) hlength (by omega)
  rw [hs.remaining] at hremaining
  -- The buffer has the bits that are read, and then those it keeps.
  have hsplit : toBits bitcnt val = toBits need val ++ toBits (bitcnt - need) (val / 2 ^ need) := by
    rw [← toBits_add, Nat.add_sub_cancel' hneed]
  obtain ⟨hhead, htail⟩ : toBits need val = read ∧
      toBits (bitcnt - need) (val / 2 ^ need) ++ bytesBits (s.input.drop incnt) = bits := by
    change toBits bitcnt val ++ bytesBits (s.input.drop incnt) = read ++ bits at hremaining
    rw [hsplit, List.append_assoc] at hremaining
    exact List.append_inj hremaining (by rw [length_toBits, hread])
  have hval : val &&& (1 <<< need - 1) = ofBits read := by
    rw [Nat.one_shiftLeft, Nat.and_two_pow_sub_one_eq_mod, ← hhead, ofBits_toBits]
  refine ⟨{ s with incnt, bitbuf := val >>> need, bitcnt := bitcnt - need }, ?_, ?_⟩
  · rw [Inflate.bits, ← hval]
    exact (runs_get s).bind (hrun.bind ((runs_modify _ _).bind (runs_pure _ _)))
  · refine ⟨hs.input, hs.lencode, hs.distcode, ⟨?_, hready.incnt, ?_⟩, ?_, ?_, hs.output, hs.outcnt,
      hs.room⟩
    · change val >>> need < 2 ^ (bitcnt - need)
      have hbuffer : val < 2 ^ bitcnt := hready.buffer
      rw [Nat.shiftRight_eq_div_pow, Nat.div_lt_iff_lt_mul (Nat.two_pow_pos need), ← pow_add,
        Nat.sub_add_cancel hneed]
      exact hbuffer
    · change bitcnt - need ≤ 8 * incnt
      have hloaded : bitcnt ≤ 8 * incnt := hready.loaded
      omega
    · change bitcnt - need < 8
      omega
    · change toBits (bitcnt - need) (val >>> need) ++ bytesBits (s.input.drop incnt) = bits
      rw [Nat.shiftRight_eq_div_pow, htail]

theorem parses_bit (b : Bool) : c.Parses (Inflate.bits 1) (b :: bits) out (ofBits [b]) bits out :=
  parses_bits (List.length_singleton (a := b))

theorem parses_number {need n : Nat} (h : n < 2 ^ need) :
    c.Parses (Inflate.bits need) (toBits need n ++ bits) out n bits out := by
  have hval : ofBits (toBits need n) = n := by rw [ofBits_toBits, Nat.mod_eq_of_lt h]
  have hread := @parses_bits c bits out need _ (length_toBits need n)
  rw [hval] at hread
  exact hread

theorem At.take_output {s : State} (hs : c.At s bits out) : s.output.take s.outcnt = out := by
  rw [hs.output, hs.outcnt, List.take_left]

/-- Nothing is left to read. -/
theorem stops_bits {need : Nat} (hneed : 0 < need) {s : State} (hs : c.At s [] out) :
    Stops (Inflate.bits need) s .ERR_NOT_TERMINATED s := by
  obtain ⟨n, rfl⟩ : ∃ n, need = n + 1 := ⟨need - 1, by omega⟩
  have hlength := congrArg List.length hs.remaining
  have hincnt := hs.ready.incnt
  rw [State.remaining, List.length_append, length_toBits, length_bytesBits, List.length_drop,
    List.length_nil] at hlength
  have hload : Stops (loadBits (n + 1) (n + 1) s.bitbuf) s .ERR_NOT_TERMINATED s := by
    rw [loadBits]
    refine (runs_get s).stops ?_
    rw [if_pos (by omega), if_pos (by omega)]
    exact (stops_throw _ s).bind _
  exact (runs_get s).stops (hload.bind _)

end Setting

end Inflate

end Nouns
