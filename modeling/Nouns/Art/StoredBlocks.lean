import Nouns.Art.Reading
import Nouns.Lib.Deflate

/-!
# StoredBlocks — data that is not compressed

A stored block starts at a whole byte and has its length twice, the second time complemented.
-/

open Bits Deflate

namespace Nouns

namespace Inflate

/-- The state with so many bytes more read. -/
def State.skip (s : State) (n : Nat) : State := { s with incnt := s.incnt + n }

theorem runs_nextByte {s : State} {b : UInt8} {rest : Bytes} (h : s.input.drop s.incnt = b :: rest) :
    Runs nextByte s b.toNat (s.skip 1) := by
  have hb : getAt s.input s.incnt = .ok b := by
    rw [getAt_eq_ok, ← List.head?_drop, h, List.head?_cons]
  exact (runs_get s).bind ((runs_lift hb s).bind ((runs_set s _).bind (runs_pure _ _)))

theorem drop_skip {s : State} {b : UInt8} {rest : Bytes} (h : s.input.drop s.incnt = b :: rest) :
    (s.skip 1).input.drop (s.skip 1).incnt = rest := by
  change s.input.drop (s.incnt + 1) = rest
  rw [← List.drop_drop, h, List.drop_one, List.tail_cons]

/-- The state after `len` bytes are copied. -/
def State.copied (s : State) (output : Bytes) (len : Nat) : State :=
  { s with output, outcnt := s.outcnt + len, incnt := s.incnt + len }

theorem runs_copyStored {data rest free : Bytes} {s : State} {out : Bytes}
    (hinput : s.input.drop s.incnt = data ++ rest) (houtput : s.output = out ++ free)
    (houtcnt : s.outcnt = out.length) (hroom : data.length ≤ free.length) :
    Runs (copyStored data.length) s ()
      (s.copied (out ++ data ++ free.drop data.length) data.length) := by
  induction data generalizing s out free with
  | nil =>
    rw [List.append_nil, List.length_nil, List.drop_zero, ← houtput]
    exact runs_pure () s
  | cons b data ih =>
    rw [List.length_cons] at hroom
    obtain ⟨z, free, rfl⟩ : ∃ z free', free = z :: free' := by
      cases free with
      | nil => exact absurd hroom (by simp)
      | cons z free => exact ⟨z, free, rfl⟩
    have hb : getAt s.input s.incnt = .ok b := by
      rw [getAt_eq_ok, ← List.head?_drop, hinput]
      rfl
    have hset : setAt s.output s.outcnt b = .ok (out ++ b :: free) := by
      rw [setAt_eq_ok, houtput, houtcnt]
      refine ⟨?_, ?_⟩
      · rw [List.length_append, List.length_cons]
        omega
      · rw [List.set_append_right _ _ le_rfl, Nat.sub_self, List.set_cons_zero]
    let s₁ : State := { s with output := out ++ b :: free, outcnt := s.outcnt + 1, incnt := s.incnt + 1 }
    have hrest : Runs (copyStored data.length) s₁ ()
        (s₁.copied (out ++ [b] ++ data ++ free.drop data.length) data.length) := by
      refine ih ?_ ?_ ?_ ?_
      · exact drop_skip hinput
      · change out ++ b :: free = _
        rw [List.append_assoc, List.singleton_append]
      · change s.outcnt + 1 = _
        rw [houtcnt, List.length_append, List.length_singleton]
      · simpa using hroom
    have hcopied : s₁.copied (out ++ [b] ++ data ++ free.drop data.length) data.length =
        s.copied (out ++ b :: data ++ (z :: free).drop (data.length + 1)) (data.length + 1) := by
      unfold State.copied
      rw [List.append_assoc out, List.singleton_append, List.drop_succ_cons]
      congr 1
      · change s.outcnt + 1 + data.length = _
        omega
      · change s.incnt + 1 + data.length = _
        omega
    rw [hcopied] at hrest
    exact (runs_get s).bind ((runs_lift hb s).bind ((runs_lift hset s).bind
      ((runs_set s s₁).bind hrest)))

namespace Setting

variable {c : Setting} {out : Bytes}

theorem lengthBytes_or {len : Nat} (h : len < 2 ^ 16) :
    (UInt8.ofNat (len % 256)).toNat ||| (UInt8.ofNat (len / 256)).toNat <<< 8 = len := by
  have hlow : (UInt8.ofNat (len % 256)).toNat = len % 256 := by
    rw [UInt8.toNat_ofNat']
    omega
  have hhigh : (UInt8.ofNat (len / 256)).toNat = len / 256 := by
    rw [UInt8.toNat_ofNat']
    omega
  have hlt : len % 256 < 2 ^ 8 := by omega
  rw [hlow, hhigh, Nat.or_comm, ← Nat.shiftLeft_add_eq_or_of_lt hlt, Nat.shiftLeft_eq]
  omega

theorem complement_low {len : Nat} (h : len < 2 ^ 16) :
    (UInt8.ofNat (255 - len % 256)).toNat = (2 ^ 256 - 1 - len) &&& 0xFF := by
  rw [UInt8.toNat_ofNat', Nat.mod_eq_of_lt (by omega), show 0xFF = 2 ^ 8 - 1 by rfl,
    Nat.and_two_pow_sub_one_eq_mod]
  omega

theorem complement_high {len : Nat} (h : len < 2 ^ 16) :
    (UInt8.ofNat (255 - len / 256)).toNat = (2 ^ 256 - 1 - len) >>> 8 &&& 0xFF := by
  rw [UInt8.toNat_ofNat', Nat.mod_eq_of_lt (by omega), show 0xFF = 2 ^ 8 - 1 by rfl,
    Nat.and_two_pow_sub_one_eq_mod, Nat.shiftRight_eq_div_pow]
  omega

/-- The data of a stored block is copied. -/
theorem parses_stored {pad : List Bool} {data rest : Bytes} (hpad : pad.length < 8)
    (hlen : data.length < 2 ^ 16) (hroom : out.length + data.length ≤ c.destlen) :
    c.Parses stored (pad ++ bytesBits (lengthBytes data.length ++ data ++ rest)) out ()
      (bytesBits rest) (out ++ data) := by
  intro s hs
  -- The bits in the buffer are those that are skipped.
  have hinput : s.input.drop s.incnt = lengthBytes data.length ++ data ++ rest := by
    have hremaining := hs.remaining
    have hlength := congrArg List.length hremaining
    have hbitcnt := hs.bitcnt
    rw [State.remaining, List.length_append, List.length_append, length_toBits, length_bytesBits,
      length_bytesBits] at hlength
    exact bytesBits_injective (List.append_inj hremaining (by rw [length_toBits]; omega)).2
  have hlength : s.incnt + 4 + data.length + rest.length = s.input.length := by
    have hdrop := congrArg List.length hinput
    have hincnt := hs.ready.incnt
    rw [List.length_drop, List.length_append, List.length_append] at hdrop
    change _ = 4 + _ + _ at hdrop
    omega
  let s₀ : State := { s with bitbuf := 0, bitcnt := 0 }
  have h₀ : s₀.input.drop s₀.incnt = lengthBytes data.length ++ data ++ rest := hinput
  let s₄ := (((s₀.skip 1).skip 1).skip 1).skip 1
  have h₁ := drop_skip h₀
  have h₂ := drop_skip h₁
  have h₃ := drop_skip h₂
  have h₄ : s₄.input.drop s₄.incnt = data ++ rest := drop_skip h₃
  have hcopy := runs_copyStored h₄ (hs.output : s₄.output = _) (hs.outcnt : s₄.outcnt = _)
    (by rw [List.length_replicate]; omega)
  let s₅ := s₄.copied
    (out ++ data ++ (List.replicate (c.destlen - out.length) 0).drop data.length) data.length
  have hrest : s₅.input.drop s₅.incnt = rest := by
    change s₄.input.drop (s₄.incnt + data.length) = rest
    rw [← List.drop_drop, h₄, List.drop_left]
  refine ⟨s₅, ?_, ?_⟩
  · unfold stored
    refine (runs_modify _ s).bind ((runs_get s₀).bind ?_)
    rw [if_neg (by change ¬ s.incnt + 4 > s.input.length; omega)]
    refine (runs_nextByte h₀).bind ((runs_nextByte h₁).bind ?_)
    dsimp only
    rw [lengthBytes_or hlen]
    refine (runs_nextByte h₂).bind ?_
    rw [if_neg (not_not.mpr (complement_low hlen))]
    refine (runs_nextByte h₃).bind ?_
    rw [if_neg (not_not.mpr (complement_high hlen))]
    refine (runs_get s₄).bind ?_
    rw [if_neg (by change ¬ s.incnt + 1 + 1 + 1 + 1 + data.length > s.input.length; omega),
      if_neg (by
        change ¬ s.outcnt + data.length > s.output.length
        rw [hs.outcnt, hs.output, List.length_append, List.length_replicate]
        omega)]
    exact hcopy
  · refine ⟨hs.input, hs.lencode, hs.distcode, ⟨Nat.zero_lt_one, ?_, Nat.zero_le _⟩,
      Nat.zero_lt_succ 7, ?_, ?_, ?_, ?_⟩
    · change s.incnt + 1 + 1 + 1 + 1 + data.length ≤ s.input.length
      omega
    · change bytesBits (s₅.input.drop s₅.incnt) = _
      rw [hrest]
    · change out ++ data ++ _ = _
      rw [List.drop_replicate, List.length_append, Nat.sub_sub]
    · change s.outcnt + data.length = _
      rw [hs.outcnt, List.length_append]
    · rw [List.length_append]
      exact hroom

end Setting

end Inflate

end Nouns
