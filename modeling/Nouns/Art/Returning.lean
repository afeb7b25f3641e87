import Nouns.Art.Codes
import Nouns.Art.Filling
import Nouns.Art.StoredBlocks

/-!
# Returning — what a run tells of the bits

A function that returns has found bits that it could read: the conditions on the way to its result
say which.
-/

open Bits CanonicalCode Deflate

namespace Nouns

namespace Inflate

variable {α β : Type}

theorem Runs.unique {m : Puff α} {s s' s'' : State} {a a' : α} (h : Runs m s a s')
    (h' : Runs m s a' s'') : a = a' ∧ s' = s'' := by
  have hsame := h.symm.trans h'
  simp only [Except.ok.injEq, Prod.mk.injEq] at hsame
  exact hsame

theorem not_runs_throw_bind {err : ErrorCode} {f : α → Puff β} {s s' : State} {b : β} :
    ¬ Runs (throw err >>= f) s b s' := by
  intro h
  obtain ⟨a, s₁, hthrow, -⟩ := h.of_bind
  cases hthrow

theorem exists_four {l : List α} (h : 4 ≤ l.length) :
    ∃ a b c d l', l = a :: b :: c :: d :: l' := by
  rcases l with _ | ⟨a, _ | ⟨b, _ | ⟨c, _ | ⟨d, l'⟩⟩⟩⟩
  · exact absurd h (by simp)
  · exact absurd h (by simp)
  · exact absurd h (by simp)
  · exact absurd h (by simp)
  · exact ⟨a, b, c, d, l', rfl⟩

namespace Setting

variable {c : Setting} {bits bits' : List Bool} {out out' : Bytes}

/-- Where the state stands. -/
theorem At.unique {s : State} (hs : c.At s bits out) (hs' : c.At s bits' out') :
    bits = bits' ∧ out = out' :=
  ⟨hs.remaining.symm.trans hs'.remaining, hs.take_output.symm.trans hs'.take_output⟩

/-- If the function returns, it leaves the state where `post` says. -/
def Returns (c : Setting) (m : Puff α) (bits : List Bool) (out : Bytes)
    (post : α → List Bool → Bytes → Prop) : Prop :=
  ∀ s a s', c.At s bits out → Runs m s a s' → ∃ bits' out', post a bits' out' ∧ c.At s' bits' out'

variable {post : α → List Bool → Bytes → Prop} {post' : β → List Bool → Bytes → Prop}

theorem Returns.bind {m : Puff α} {f : α → Puff β} (h : c.Returns m bits out post)
    (h' : ∀ a bits' out', post a bits' out' → c.Returns (f a) bits' out' post') :
    c.Returns (m >>= f) bits out post' := by
  intro s b s'' hs hrun
  obtain ⟨a, s', hm, hf⟩ := hrun.of_bind
  obtain ⟨bits', out', hpost, hs'⟩ := h s a s' hs hm
  exact h' a bits' out' hpost s' b s'' hs' hf

theorem Returns.mono {post₁ : α → List Bool → Bytes → Prop} {m : Puff α}
    (h : c.Returns m bits out post₁) (h' : ∀ a bits' out', post₁ a bits' out' → post a bits' out') :
    c.Returns m bits out post := by
  intro s a s' hs hrun
  obtain ⟨bits', out', hpost, hs'⟩ := h s a s' hs hrun
  exact ⟨bits', out', h' _ _ _ hpost, hs'⟩

theorem returns_pure {a : α} (h : post a bits out) : c.Returns (pure a) bits out post := by
  intro s b s' hs hrun
  cases hrun
  exact ⟨bits, out, h, hs⟩

theorem returns_throw (err : ErrorCode) : c.Returns (throw err) bits out post := by
  intro s a s' _ hrun
  cases hrun

theorem returns_throw_bind (err : ErrorCode) (f : α → Puff β) :
    c.Returns (throw err >>= f) bits out post' :=
  fun _ _ _ _ hrun => absurd hrun not_runs_throw_bind

theorem returns_get {f : State → Puff β}
    (h : ∀ s, c.At s bits out → ∀ b s', Runs (f s) s b s' →
      ∃ bits' out', post' b bits' out' ∧ c.At s' bits' out') :
    c.Returns (get >>= f) bits out post' :=
  fun s b s' hs hrun => h s hs b s' hrun.of_get

theorem returns_lift {x : Tx α} (h : ∀ a, x = .ok a → post a bits out) :
    c.Returns (liftM x) bits out post := by
  intro s a s' hs hrun
  obtain ⟨hx, rfl⟩ := hrun.of_lift
  exact ⟨bits, out, h a hx, hs⟩

theorem returns_lift_bind {x : Tx α} {f : α → Puff β}
    (h : ∀ a, x = .ok a → c.Returns (f a) bits out post') :
    c.Returns (liftM x >>= f) bits out post' := by
  have hlift : c.Returns (liftM x) bits out fun a bits' out' =>
      x = .ok a ∧ bits' = bits ∧ out' = out := returns_lift fun a hx => ⟨hx, rfl, rfl⟩
  refine hlift.bind ?_
  rintro a _ _ ⟨hx, rfl, rfl⟩
  exact h a hx

/-- There are so many bits left to read. -/
theorem le_length_of_reads {m : Puff α} {n : Nat} {s s' : State} {a : α} (hs : c.At s bits out)
    (hforward : Forward m s) (hreads : Reads n m s) (hrun : Runs m s a s') : n ≤ bits.length := by
  have hwithin : s.Within := ⟨hs.ready.incnt, hs.ready.loaded⟩
  have hadvances := (hforward _ _ hrun).advances
  have hle := hreads a s' hrun hwithin
  have hincnt := (hadvances.within hwithin).1.1
  have hloaded := hs.ready.loaded
  rw [hadvances.input] at hincnt
  unfold State.position at hle
  rw [← hs.remaining, State.remaining, List.length_append, length_toBits, length_bytesBits,
    List.length_drop]
  omega

/-- The bits that are read are there. -/
theorem returns_bits (need : Nat) :
    c.Returns (Inflate.bits need) bits out fun a bits' out' =>
      ∃ read, read.length = need ∧ bits = read ++ bits' ∧ a = ofBits read ∧ out' = out := by
  intro s a s' hs hrun
  have hle := le_length_of_reads hs (forward_bits need s) (reads_bits need s) hrun
  have htake : (bits.take need).length = need := List.length_take_of_le hle
  have hsplit : bits = bits.take need ++ bits.drop need := (List.take_append_drop need bits).symm
  rw [hsplit] at hs
  obtain ⟨s'', hrun', hs''⟩ := parses_bits htake s hs
  obtain ⟨rfl, rfl⟩ := hrun.unique hrun'
  exact ⟨_, _, ⟨_, htake, hsplit, rfl, rfl⟩, hs''⟩

theorem returns_bit :
    c.Returns (Inflate.bits 1) bits out fun a bits' out' =>
      ∃ b : Bool, bits = b :: bits' ∧ a = b.toNat ∧ out' = out := by
  refine (returns_bits 1).mono ?_
  rintro a bits' _ ⟨read, hread, rfl, rfl, rfl⟩
  obtain ⟨b, rfl⟩ := List.length_eq_one_iff.mp hread
  exact ⟨b, rfl, by rw [ofBits, ofBits, Nat.mul_zero, Nat.add_zero], rfl⟩

/-! ## Symbols -/

/-- Only these words are decoded. -/
def DecodesOnly (c : Setting) (word : List Bool → Nat → Prop) (h : Huffman) : Prop :=
  ∀ bits out, c.Returns (decode h) bits out fun symbol bits' out' =>
    ∃ w, word w symbol ∧ bits = w ++ bits' ∧ out' = out

end Setting

variable {c : Setting} {code : List Nat} {h : Huffman} {bits : List Bool} {out : Bytes}

/-- After `k` bits without a symbol, which are `p`, the bits are above all codes of `k` bits. -/
theorem returns_decodeFrom (hh : TableOf code h) {k p fuel : Nat} (hfuel : k + fuel ≤ MAXBITS)
    (habove : firstCode code k + codeCount code k ≤ p) (bits : List Bool) :
    c.Returns (decodeFrom h fuel (k + 1) (2 * p) (firstCode code (k + 1)) (firstIndex code (k + 1)))
      bits out fun symbol bits' out' =>
        IsCoded code symbol ∧ (toBits k p).reverse ++ bits = codeword code symbol ++ bits' ∧
          out' = out := by
  induction fuel generalizing k p bits with
  | zero => exact Setting.returns_throw _
  | succ fuel ih =>
    rw [decodeFrom]
    refine Setting.returns_bit.bind ?_
    rintro _ bits' _ ⟨b, rfl, rfl, rfl⟩
    refine Setting.returns_lift_bind fun count hcount => ?_
    have hle : k + 1 ≤ MAXBITS := by omega
    rw [getAt_eq_ok, hh.counts.count (k + 1) hle, Option.some.injEq] at hcount
    have hcodes : codeCount code (k + 1) = count := (codeCount_of_pos (by omega)).trans hcount
    have hfirst : firstCode code (k + 1) = (firstCode code k + codeCount code k) * 2 := rfl
    have hb : b.toNat < 2 := Bool.toNat_lt b
    have hor : 2 * p ||| b.toNat = 2 * p + b.toNat := by
      have hor' := Nat.shiftLeft_add_eq_or_of_lt (show b.toNat < 2 ^ 1 from hb) p
      rw [Nat.shiftLeft_eq, pow_one, Nat.mul_comm] at hor'
      exact hor'.symm
    have hread : (toBits k p).reverse ++ b :: bits' =
        (toBits (k + 1) (2 * p + b.toNat)).reverse ++ bits' := by
      have hbit : decide ((2 * p + b.toNat) % 2 = 1) = b := by
        cases b <;> simp [Nat.add_mod]
      rw [toBits, hbit, show (2 * p + b.toNat) / 2 = p by omega, List.reverse_cons, List.append_assoc,
        List.singleton_append]
    rw [hor, hread]
    split
    next hlt =>
      -- The code is one of this length.
      obtain ⟨symbol, hcoded, hlength, hrank⟩ := @exists_rank code (k + 1)
        (2 * p + b.toNat - firstCode code (k + 1)) (by omega) (by omega)
      have hcode : codeOf code symbol = 2 * p + b.toNat := by
        rw [codeOf, hlength, hrank]
        omega
      have hplace : place code symbol =
          firstIndex code (k + 1) + (2 * p + b.toNat - firstCode code (k + 1)) := by
        rw [place, hlength, hrank]
      refine Setting.returns_lift fun symbol' hsymbol => ?_
      rw [getAt_eq_ok, ← hplace, hh.symbols symbol hcoded, Option.some.injEq] at hsymbol
      subst hsymbol
      exact ⟨hcoded, by rw [codeword, hlength, hcode], rfl⟩
    next hge =>
      have hnext := @ih (k + 1) (2 * p + b.toNat) (by omega) (by omega) bits'
      rw [firstCode, hcodes, firstIndex, hcodes, Nat.mul_comm 2] at hnext
      rw [Nat.shiftLeft_eq, Nat.shiftLeft_eq, pow_one]
      exact hnext

/-- Only the words of its code are decoded with a table. -/
theorem TableOf.decodesOnly (hh : TableOf code h) (c : Setting) :
    c.DecodesOnly (Codeword code) h := by
  intro bits out
  refine (@returns_decodeFrom c code h out hh 0 0 MAXBITS le_rfl le_rfl bits).mono ?_
  rintro symbol bits' out' ⟨hcoded, hbits, rfl⟩
  exact ⟨_, ⟨hcoded, rfl⟩, hbits, rfl⟩

/-! ## Stored blocks -/

/-- Four bytes that pass the check of the complement are a length and its complement. -/
theorem lengthBytes_eq {b₀ b₁ b₂ b₃ : UInt8} {len : Nat} (hlen : len = b₀.toNat ||| b₁.toNat <<< 8)
    (hlow : b₂.toNat = (2 ^ 256 - 1 - len) &&& 0xFF)
    (hhigh : b₃.toNat = (2 ^ 256 - 1 - len) >>> 8 &&& 0xFF) :
    len < 2 ^ 16 ∧ lengthBytes len = [b₀, b₁, b₂, b₃] := by
  have h₀ := b₀.toNat_lt
  have h₁ := b₁.toNat_lt
  have hsum : len = b₁.toNat * 2 ^ 8 + b₀.toNat := by
    rw [hlen, Nat.or_comm, ← Nat.shiftLeft_add_eq_or_of_lt (show b₀.toNat < 2 ^ 8 from h₀),
      Nat.shiftLeft_eq]
  have hlt : len < 2 ^ 16 := by omega
  rw [← Setting.complement_low hlt, UInt8.toNat_inj] at hlow
  rw [← Setting.complement_high hlt, UInt8.toNat_inj] at hhigh
  have hmod : UInt8.ofNat (len % 256) = b₀ := by
    rw [← UInt8.toNat_inj, UInt8.toNat_ofNat']
    omega
  have hdiv : UInt8.ofNat (len / 256) = b₁ := by
    rw [← UInt8.toNat_inj, UInt8.toNat_ofNat']
    omega
  refine ⟨hlt, ?_⟩
  rw [lengthBytes, hmod, hdiv, hlow, hhigh]

/-- The bytes of a stored block are there, and there is room for its data. -/
theorem Setting.returns_stored :
    c.Returns stored bits out fun _ bits' out' => ∃ (pad : List Bool) (data rest : Bytes),
      pad.length < 8 ∧ data.length < 2 ^ 16 ∧ out'.length ≤ c.destlen ∧
      bits = pad ++ bytesBits (lengthBytes data.length ++ data ++ rest) ∧ bits' = bytesBits rest ∧
      out' = out ++ data := by
  intro s u s' hs hrun
  have hstored := hrun
  unfold stored at hrun
  replace hrun := hrun.of_modify.of_get
  split at hrun
  · exact absurd hrun not_runs_throw_bind
  next hfour =>
    let s₀ : State := { s with bitbuf := 0, bitcnt := 0 }
    change ¬ s.incnt + 4 > s.input.length at hfour
    obtain ⟨b₀, b₁, b₂, b₃, more, h₀⟩ := exists_four (show 4 ≤ (s₀.input.drop s₀.incnt).length by
      change 4 ≤ (s.input.drop s.incnt).length
      rw [List.length_drop]
      omega)
    have h₁ := drop_skip h₀
    have h₂ := drop_skip h₁
    have h₃ := drop_skip h₂
    have h₄ := drop_skip h₃
    -- The four bytes are read, and the last two of them are checked.
    obtain ⟨low, s₁, hrun₁, hrun⟩ := hrun.of_bind
    obtain ⟨rfl, rfl⟩ := hrun₁.unique (runs_nextByte h₀)
    obtain ⟨high, s₂, hrun₂, hrun⟩ := hrun.of_bind
    obtain ⟨rfl, rfl⟩ := hrun₂.unique (runs_nextByte h₁)
    dsimp only at hrun
    generalize hlen : b₀.toNat ||| b₁.toNat <<< 8 = len at hrun
    obtain ⟨low', s₃, hrun₃, hrun⟩ := hrun.of_bind
    obtain ⟨rfl, rfl⟩ := hrun₃.unique (runs_nextByte h₂)
    split at hrun
    · exact absurd hrun not_runs_throw_bind
    next hlow =>
      obtain ⟨high', s₄, hrun₄, hrun⟩ := hrun.of_bind
      obtain ⟨rfl, rfl⟩ := hrun₄.unique (runs_nextByte h₃)
      split at hrun
      · exact absurd hrun not_runs_throw_bind
      next hhigh =>
        replace hrun := hrun.of_get
        split at hrun
        · exact absurd hrun not_runs_throw_bind
        next hinput =>
          split at hrun
          · exact absurd hrun not_runs_throw_bind
          next houtput =>
            change ¬ s.incnt + 1 + 1 + 1 + 1 + len > s.input.length at hinput
            change ¬ s.outcnt + len > s.output.length at houtput
            obtain ⟨hlt, hbytes⟩ := lengthBytes_eq hlen.symm (not_not.mp hlow) (not_not.mp hhigh)
            have hmore : s.input.length - s.incnt = more.length + 1 + 1 + 1 + 1 := by
              rw [← List.length_drop]
              exact congrArg List.length h₀
            have hdata : (more.take len).length = len := List.length_take_of_le (by omega)
            have hroom : out.length + (more.take len).length ≤ c.destlen := by
              have hsize := hs.room
              rw [hs.output, hs.outcnt, List.length_append, List.length_replicate] at houtput
              omega
            have hbits : bits = toBits s.bitcnt s.bitbuf ++
                bytesBits (lengthBytes (more.take len).length ++ more.take len ++ more.drop len) := by
              rw [← hs.remaining, State.remaining, hdata, hbytes, List.append_assoc,
                List.take_append_drop]
              exact congrArg (_ ++ bytesBits ·) h₀
            have hpad : (toBits s.bitcnt s.bitbuf).length < 8 :=
              (length_toBits _ _).trans_lt hs.bitcnt
            rw [hbits] at hs
            obtain ⟨s', hrun', hs'⟩ := parses_stored hpad (hdata.trans_lt hlt) hroom s hs
            obtain ⟨-, rfl⟩ := hstored.unique hrun'
            exact ⟨_, _, ⟨_, _, _, hpad, hdata.trans_lt hlt, List.length_append.trans_le hroom, hbits,
              rfl, rfl⟩, hs'⟩

/-! ## Compressed data -/

namespace Setting

variable {lit : List Nat} {word : List Bool → Nat → Prop} {lencode distcode : Huffman}

/-- What the tables of a block do: symbols are decoded from their words, and from no others. -/
structure Reading (c : Setting) (lit : List Nat) (word : List Bool → Nat → Prop)
    (lencode distcode : Huffman) : Prop where
  decodesLit : c.Decodes lit 286 lencode
  decodesDist : c.DecodesBy word 30 distcode
  onlyLit : c.DecodesOnly (Codeword lit) lencode
  onlyDist : c.DecodesOnly word distcode

/-- A literal or a copy, before data that follows, or the end of the block. -/
theorem returns_codesStep (hread : c.Reading lit word lencode distcode) :
    c.Returns (codesStep lencode distcode) bits out fun symbol bits' out' =>
      (symbol = 256 → DataBy lit word bits out bits' out') ∧
      (symbol ≠ 256 → ∀ bits'' out'', DataBy lit word bits' out' bits'' out'' →
        DataBy lit word bits out bits'' out'') := by
  intro s symbol s' hs hrun
  have hstep := hrun
  unfold codesStep at hrun
  obtain ⟨symbol₁, s₁, hdecode, hrun⟩ := hrun.of_bind
  obtain ⟨bits₁, out, ⟨_, ⟨hcoded, rfl⟩, rfl, rfl⟩, hs₁⟩ := hread.onlyLit bits out s _ s₁ hs hdecode
  split at hrun
  next hliteral =>
    replace hrun := hrun.of_get
    split at hrun
    · exact absurd hrun not_runs_throw_bind
    next hfull =>
      have hroom : out.length < c.destlen := by
        have hsize := hs₁.room
        rw [hs₁.output, hs₁.outcnt, List.length_append, List.length_replicate] at hfull
        omega
      obtain ⟨b, rfl⟩ : ∃ b : UInt8, symbol₁ = b.toNat :=
        ⟨.ofNat symbol₁, (UInt8.toNat_ofNat_of_lt hliteral).symm⟩
      obtain ⟨s'', hrun', hs''⟩ := parses_literal hread.decodesLit hcoded hroom s hs
      obtain ⟨rfl, rfl⟩ := hstep.unique hrun'
      exact ⟨_, _, ⟨fun h => by omega, fun _ _ _ hrest => .literal hcoded hrest⟩, hs''⟩
  next hlarge =>
    split at hrun
    next hcopy =>
      dsimp only at hrun
      split at hrun
      · exact absurd hrun not_runs_throw_bind
      next hk =>
        obtain ⟨k, rfl⟩ : ∃ k, symbol₁ = 257 + k := ⟨symbol₁ - 257, by omega⟩
        rw [Nat.add_sub_cancel_left] at hrun hk
        have hk' : k < 29 := Nat.lt_of_not_ge hk
        -- The extra bits of the length, the distance and its extra bits.
        obtain ⟨n, s₁, hext, hrun⟩ := hrun.of_bind
        obtain ⟨hn, rfl⟩ := hext.of_lift
        obtain rfl := Except.ok.inj ((getAt_lext k hk').symm.trans hn)
        obtain ⟨_, s₂, hbits, hrun⟩ := hrun.of_bind
        obtain ⟨bits₂, out, ⟨extra, hextra, rfl, rfl, rfl⟩, hs₂⟩ := returns_bits _ s₁ _ s₂ hs₁ hbits
        obtain ⟨n, s₂, hbase, hrun⟩ := hrun.of_bind
        obtain ⟨hn, rfl⟩ := hbase.of_lift
        obtain rfl := Except.ok.inj ((getAt_lens k hk').symm.trans hn)
        obtain ⟨j, s₃, hdecode', hrun⟩ := hrun.of_bind
        obtain ⟨bits₃, out, ⟨w, hword, rfl, rfl⟩, hs₃⟩ := hread.onlyDist _ _ s₂ _ s₃ hs₂ hdecode'
        obtain ⟨n, s₃, hext', hrun⟩ := hrun.of_bind
        obtain ⟨hn, rfl⟩ := hext'.of_lift
        have hj : j < 30 := lt_of_getAt hn
        obtain rfl := Except.ok.inj ((getAt_dext j hj).symm.trans hn)
        obtain ⟨_, s₄, hbits', hrun⟩ := hrun.of_bind
        obtain ⟨bits₄, out, ⟨extra', hextra', rfl, rfl, rfl⟩, hs₄⟩ := returns_bits _ s₃ _ s₄ hs₃ hbits'
        obtain ⟨n, s₄, hbase', hrun⟩ := hrun.of_bind
        obtain ⟨hn, rfl⟩ := hbase'.of_lift
        obtain rfl := Except.ok.inj ((getAt_dists j hj).symm.trans hn)
        replace hrun := hrun.of_get
        split at hrun
        · exact absurd hrun not_runs_throw_bind
        next hback =>
          split at hrun
          · exact absurd hrun not_runs_throw_bind
          next hfull =>
            have hsize := hs₄.room
            rw [hs₄.outcnt] at hback
            rw [hs₄.output, hs₄.outcnt, List.length_append, List.length_replicate] at hfull
            obtain ⟨s'', hrun', hs''⟩ := parses_copy hread.decodesLit hread.decodesDist hk' hcoded hextra
              hj hword hextra' (Nat.le_of_not_lt hback) (by omega) s hs
            obtain ⟨rfl, rfl⟩ := hstep.unique hrun'
            refine ⟨_, _, ⟨fun h => by omega, fun _ _ _ hrest => ?_⟩, hs''⟩
            exact .copy hk' hcoded hextra hj hword hextra' (Nat.le_of_not_lt hback) hrest
    next hend =>
      obtain rfl : symbol₁ = 256 := by omega
      cases hrun
      exact ⟨bits₁, out, ⟨fun _ => .endOfBlock hcoded, fun h => absurd rfl h⟩, hs₁⟩

theorem returns_codesLoop (hread : c.Reading lit word lencode distcode) (fuel : Nat) :
    c.Returns (codesLoop lencode distcode fuel) bits out fun _ bits' out' =>
      DataBy lit word bits out bits' out' := by
  induction fuel generalizing bits out with
  | zero => exact returns_throw _
  | succ fuel ih =>
    rw [codesLoop]
    refine (returns_codesStep hread).bind fun symbol bits₁ out₁ hstep => ?_
    split
    next hmore => exact ih.mono fun _ bits' out' hdata => hstep.2 hmore bits' out' hdata
    next hend => exact returns_pure (hstep.1 (not_not.mp hend))

/-- A block's data is there. -/
theorem returns_codes (hread : c.Reading lit word lencode distcode) :
    c.Returns (codes lencode distcode) bits out fun _ bits' out' =>
      DataBy lit word bits out bits' out' :=
  returns_get fun s hs _ s' hrun => returns_codesLoop hread _ s _ s' hs hrun

end Setting

end Inflate

end Nouns
