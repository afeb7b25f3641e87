import Nouns.Art.Reading

/-!
# Filling — what a run may do to the state

However a run ends, it has read forward, and what it has not written of the output is zero.
-/

open Bits

namespace Nouns

namespace Inflate

variable {α β : Type}

/-! ## States -/

/-- The first `outcnt` bytes of the output are written, and the others are zero. -/
def State.Filled (s : State) (written : Bytes) : Prop :=
  s.outcnt = written.length ∧ written.length ≤ s.output.length ∧
    s.output = written ++ List.replicate (s.output.length - written.length) 0

/-- The counters are in order. -/
def State.Within (s : State) : Prop := s.incnt ≤ s.input.length ∧ s.bitcnt ≤ 8 * s.incnt

/-- The bits that are read. -/
def State.position (s : State) : Nat := 8 * s.incnt - s.bitcnt

/-- A state in order has bits left for every iteration. -/
theorem State.Within.position_le {s : State} (h : s.Within) : s.position ≤ 8 * s.input.length := by
  have := h.1
  unfold State.position
  omega

/-- What is kept on the way from a state to a later one. -/
structure Advances (s s' : State) : Prop where
  input : s'.input = s.input
  output : s'.output.length = s.output.length
  filled : ∀ written, s.Filled written → ∃ more, s'.Filled (written ++ more)
  within : s.Within → s'.Within ∧ s.position ≤ s'.position

theorem Advances.refl (s : State) : Advances s s :=
  ⟨rfl, rfl, fun _ h => ⟨[], by rwa [List.append_nil]⟩, fun h => ⟨h, le_rfl⟩⟩

theorem Advances.trans {s s' s'' : State} (h : Advances s s') (h' : Advances s' s'') :
    Advances s s'' := by
  refine ⟨h'.input.trans h.input, h'.output.trans h.output, fun written hwritten => ?_, fun hs => ?_⟩
  · obtain ⟨more, hmore⟩ := h.filled written hwritten
    obtain ⟨more', hmore'⟩ := h'.filled _ hmore
    exact ⟨more ++ more', by rwa [← List.append_assoc]⟩
  · obtain ⟨hs', hle⟩ := h.within hs
    obtain ⟨hs'', hle'⟩ := h'.within hs'
    exact ⟨hs'', hle.trans hle'⟩

/-- A byte is written. -/
theorem advances_write {s : State} {output : Bytes} {b : UInt8}
    (h : setAt s.output s.outcnt b = .ok output) :
    Advances s { s with output, outcnt := s.outcnt + 1 } := by
  obtain ⟨hlt, rfl⟩ := setAt_eq_ok.mp h
  refine ⟨rfl, List.length_set, fun written hwritten => ⟨[b], ?_⟩, fun hs => ⟨hs, le_rfl⟩⟩
  obtain ⟨houtcnt, hle, houtput⟩ := hwritten
  have hlength : (written ++ [b]).length = written.length + 1 := by
    rw [List.length_append, List.length_singleton]
  refine ⟨by rw [hlength, ← houtcnt], ?_, ?_⟩
  · change _ ≤ (s.output.set s.outcnt b).length
    rw [List.length_set]
    omega
  · change s.output.set s.outcnt b = _ ++ List.replicate ((s.output.set s.outcnt b).length - _) 0
    have hfree : s.output.length - written.length = s.output.length - (written ++ [b]).length + 1 := by
      omega
    rw [List.length_set, houtcnt]
    nth_rewrite 1 [houtput]
    rw [List.set_append_right _ _ le_rfl, Nat.sub_self, hfree, List.replicate_succ,
      List.set_cons_zero, List.append_assoc, List.singleton_append]

/-! ## Runs -/

/-- How a run may end: the state has advanced, and an error has a code of its own. -/
structure Ends (s : State) (r : Except ErrorCode α) (s' : State) : Prop where
  advances : Advances s s'
  code : r ≠ .error .ERR_NONE

/-- The function advances from `s`, however it ends. -/
def Forward (m : Puff α) (s : State) : Prop := ∀ r s', m.run.run s = .ok (r, s') → Ends s r s'

theorem forward_pure (a : α) (s : State) : Forward (pure a : Puff α) s := by
  intro r s' h
  cases h
  exact ⟨.refl s, by simp⟩

theorem forward_throw {err : ErrorCode} (herr : err ≠ .ERR_NONE) (s : State) :
    Forward (throw err : Puff α) s := by
  intro r s' h
  cases h
  exact ⟨.refl s, fun hsame => herr (Except.error.inj hsame)⟩

theorem Forward.bind {m : Puff α} {f : α → Puff β} {s : State} (h : Forward m s)
    (h' : ∀ a s', Runs m s a s' → Forward (f a) s') : Forward (m >>= f) s := by
  intro r s'' hrun
  change (m.run.run s >>= _) = _ at hrun
  obtain ⟨⟨r', s'⟩, hm, hrest⟩ := Fallible.bind_eq_ok.mp hrun
  obtain ⟨hadvances, hcode⟩ := h _ _ hm
  cases r' with
  | ok a =>
    obtain ⟨hadvances', hcode'⟩ := h' a s' hm r s'' hrest
    exact ⟨hadvances.trans hadvances', hcode'⟩
  | error err =>
    cases hrest
    exact ⟨hadvances, fun hsame => hcode (congrArg Except.error (Except.error.inj hsame))⟩

theorem forward_throw_bind {err : ErrorCode} (herr : err ≠ .ERR_NONE) (f : α → Puff β) (s : State) :
    Forward (throw err >>= f) s :=
  (forward_throw herr s).bind fun _ _ h => nomatch h

/-- The function reads `n` bits at least if it returns. -/
def Reads (n : Nat) (m : Puff α) (s : State) : Prop :=
  ∀ a s', Runs m s a s' → s.Within → s.position + n ≤ s'.position

theorem Forward.bind_reads {n : Nat} {m : Puff α} {f : α → Puff β} {s : State} (h : Forward m s)
    (hreads : Reads n m s) (h' : ∀ a s', Runs m s a s' → Forward (f a) s') :
    Forward (m >>= f) s ∧ Reads n (m >>= f) s := by
  refine ⟨h.bind h', fun b s'' hrun hs => ?_⟩
  obtain ⟨a, s', hm, hrest⟩ := hrun.of_bind
  have hle := hreads a s' hm hs
  obtain ⟨hs', -⟩ := (h _ _ hm).advances.within hs
  exact hle.trans ((h' a s' hm _ _ hrest).advances.within hs').2

/-- A function that does not touch the state. -/
theorem forward_lift {x : Tx α} {f : α → Puff β} {s : State}
    (h : ∀ a, x = .ok a → Forward (f a) s) : Forward (liftM x >>= f) s := by
  cases x with
  | error e =>
    intro r s' hrun
    nomatch hrun
  | ok a => exact h a rfl

theorem forward_get {f : State → Puff β} {s : State} (h : Forward (f s) s) :
    Forward (get >>= f) s := h

theorem forward_set {f : PUnit → Puff β} {s s' : State} (hs : Advances s s')
    (h : Forward (f ⟨⟩) s') : Forward (set s' >>= f) s :=
  fun r s'' hrun => ⟨hs.trans (h r s'' hrun).advances, (h r s'' hrun).code⟩

theorem forward_modify {f : PUnit → Puff β} {g : State → State} {s : State}
    (hs : Advances s (g s)) (h : Forward (f ⟨⟩) (g s)) : Forward (modify g >>= f) s :=
  fun r s'' hrun => ⟨hs.trans (h r s'' hrun).advances, (h r s'' hrun).code⟩

theorem forward_liftM (x : Tx α) (s : State) : Forward (liftM x : Puff α) s := by
  cases x with
  | error e =>
    intro r s' hrun
    nomatch hrun
  | ok a => exact forward_pure a s

theorem forward_foldlM {ι σ : Type} {f : σ → ι → Puff σ} (hf : ∀ u i s, Forward (f u i) s)
    (l : List ι) (u : σ) (s : State) : Forward (l.foldlM f u) s := by
  induction l generalizing u s with
  | nil => exact forward_pure u s
  | cons i l ih =>
    rw [List.foldlM_cons]
    exact (hf u i s).bind fun u' s' _ => ih u' s'

/-! ## Reading -/

/-- A byte is loaded or passed. -/
theorem advances_skip {s : State} (hlt : s.incnt < s.input.length) {bitcnt : Nat}
    (hbitcnt : bitcnt ≤ s.bitcnt + 8) :
    Advances s { s with incnt := s.incnt + 1, bitcnt } := by
  refine ⟨rfl, rfl, fun _ h => ⟨[], by rwa [List.append_nil]⟩, fun hs => ⟨⟨hlt, ?_⟩, ?_⟩⟩
  · change bitcnt ≤ 8 * (s.incnt + 1)
    have := hs.2
    omega
  · change 8 * s.incnt - s.bitcnt ≤ 8 * (s.incnt + 1) - bitcnt
    omega

/-- Bits of the buffer are dropped. -/
theorem advances_drop (s : State) {bitbuf bitcnt : Nat} (hbitcnt : bitcnt ≤ s.bitcnt) :
    Advances s { s with bitbuf, bitcnt } := by
  refine ⟨rfl, rfl, fun _ h => ⟨[], by rwa [List.append_nil]⟩, fun hs => ⟨⟨hs.1, ?_⟩, ?_⟩⟩
  · exact hbitcnt.trans hs.2
  · change 8 * s.incnt - s.bitcnt ≤ 8 * s.incnt - bitcnt
    omega

theorem lt_of_getAt {array : List α} {i : Nat} {a : α} (h : getAt array i = .ok a) :
    i < array.length :=
  (List.getElem?_eq_some_iff.mp (getAt_eq_ok.mp h)).1

theorem forward_loadBits (need fuel val : Nat) (s : State) : Forward (loadBits need fuel val) s := by
  induction fuel generalizing val s with
  | zero => exact forward_pure val s
  | succ fuel ih =>
    rw [loadBits]
    refine forward_get ?_
    split
    · split
      · exact forward_throw_bind (by decide) _ s
      · exact forward_lift fun byte hbyte =>
          forward_set (advances_skip (lt_of_getAt hbyte) le_rfl) (ih _ _)
    · exact forward_pure val s

theorem forward_bits (need : Nat) (s : State) : Forward (Inflate.bits need) s := by
  refine forward_get ((forward_loadBits need need s.bitbuf s).bind fun val s' _ => ?_)
  exact forward_modify (advances_drop s' (Nat.sub_le _ _)) (forward_pure _ _)

theorem runs_loadBits_le {need fuel val v : Nat} {s s' : State}
    (h : Runs (loadBits need fuel val) s v s') (hfuel : need ≤ s.bitcnt + 8 * fuel) :
    need ≤ s'.bitcnt := by
  induction fuel generalizing val s with
  | zero =>
    cases h
    omega
  | succ fuel ih =>
    rw [loadBits] at h
    replace h := h.of_get
    split at h
    · split at h
      · cases h
      · obtain ⟨byte, s₁, hbyte, h⟩ := h.of_bind
        obtain ⟨-, rfl⟩ := hbyte.of_lift
        exact ih h.of_set (by change need ≤ s₁.bitcnt + 8 + 8 * fuel; omega)
    · cases h
      omega

theorem reads_bits (need : Nat) (s : State) : Reads need (Inflate.bits need) s := by
  intro v s'' h hs
  obtain ⟨val, s', hload, h⟩ := h.of_get.of_bind
  cases h.of_modify
  obtain ⟨hs', hle⟩ := (forward_loadBits need need s.bitbuf s _ _ hload).advances.within hs
  have hneed := runs_loadBits_le hload (by omega)
  have hbitcnt := hs'.2
  change s.position + need ≤ 8 * s'.incnt - (s'.bitcnt - need)
  unfold State.position at hle ⊢
  omega

theorem forward_nextByte (s : State) : Forward nextByte s :=
  forward_get (forward_lift fun _ hb =>
    forward_set (advances_skip (lt_of_getAt hb) (Nat.le_add_right _ _)) (forward_pure _ _))

/-! ## Writing -/

theorem forward_copyStored (len : Nat) (s : State) : Forward (copyStored len) s := by
  induction len generalizing s with
  | zero => exact forward_pure () s
  | succ len ih =>
    refine forward_get (forward_lift fun b hb => forward_lift fun output houtput => ?_)
    have hskip := @advances_skip { s with output, outcnt := s.outcnt + 1 } (lt_of_getAt hb) s.bitcnt
      (Nat.le_add_right _ _)
    exact forward_set ((advances_write houtput).trans hskip) (ih _)

theorem forward_copyBack (distance len : Nat) (s : State) : Forward (copyBack distance len) s := by
  induction len generalizing s with
  | zero => exact forward_pure () s
  | succ len ih =>
    exact forward_get (forward_lift fun b hb => forward_lift fun output houtput =>
      forward_set (advances_write houtput) (ih _))

theorem forward_stored (s : State) : Forward stored s := by
  unfold stored
  dsimp only
  refine forward_modify (advances_drop s (Nat.zero_le _)) (forward_get ?_)
  split
  · exact forward_throw_bind (by decide) _ _
  · refine (forward_nextByte _).bind fun low s₁ _ => (forward_nextByte s₁).bind fun high s₂ _ => ?_
    refine (forward_nextByte s₂).bind fun low' s₃ _ => ?_
    split
    · exact forward_throw_bind (by decide) _ _
    · refine (forward_nextByte s₃).bind fun high' s₄ _ => ?_
      split
      · exact forward_throw_bind (by decide) _ _
      · refine forward_get ?_
        split
        · exact forward_throw_bind (by decide) _ _
        · split
          · exact forward_throw_bind (by decide) _ _
          · exact forward_copyStored _ s₄

/-! ## Codes -/

theorem forward_decodeFrom (h : Huffman) (fuel len code first index : Nat) (s : State) :
    Forward (decodeFrom h fuel len code first index) s := by
  induction fuel generalizing len code first index s with
  | zero => exact forward_throw (by decide) s
  | succ fuel ih =>
    rw [decodeFrom]
    refine (forward_bits 1 s).bind fun bit s' _ => forward_lift fun count _ => ?_
    split
    · exact forward_liftM _ s'
    · exact ih _ _ _ _ s'

theorem forward_decode (h : Huffman) (s : State) : Forward (decode h) s :=
  forward_decodeFrom h _ _ _ _ _ s

theorem reads_decode (h : Huffman) (s : State) : Reads 1 (decode h) s := by
  unfold decode MAXBITS
  rw [decodeFrom]
  refine (Forward.bind_reads (forward_bits 1 s) (reads_bits 1 s) fun bit s' _ =>
    forward_lift fun count _ => ?_).2
  split
  · exact forward_liftM _ s'
  · exact forward_decodeFrom h _ _ _ _ _ s'

theorem codesStep_forward (lencode distcode : Huffman) (s : State) :
    Forward (codesStep lencode distcode) s ∧ Reads 1 (codesStep lencode distcode) s := by
  unfold codesStep
  dsimp only
  refine Forward.bind_reads (forward_decode lencode s) (reads_decode lencode s) fun symbol s₁ _ => ?_
  split
  · refine forward_get ?_
    split
    · exact forward_throw_bind (by decide) _ _
    · exact forward_lift fun output houtput =>
        forward_set (advances_write houtput) (forward_pure _ _)
  · split
    · split
      · exact forward_throw_bind (by decide) _ _
      · refine forward_lift fun extra _ => (forward_bits _ s₁).bind fun tempBits s₂ _ => ?_
        refine forward_lift fun base _ => (forward_decode distcode s₂).bind fun symbol s₃ _ => ?_
        refine forward_lift fun extra _ => (forward_bits _ s₃).bind fun tempBits s₄ _ => ?_
        refine forward_lift fun base _ => forward_get ?_
        split
        · exact forward_throw_bind (by decide) _ _
        · split
          · exact forward_throw_bind (by decide) _ _
          · exact (forward_copyBack _ _ s₄).bind fun _ s₅ _ => forward_pure _ s₅
    · exact forward_pure _ s₁

theorem forward_codesLoop (lencode distcode : Huffman) (fuel : Nat) (s : State) :
    Forward (codesLoop lencode distcode fuel) s := by
  induction fuel generalizing s with
  | zero => exact forward_throw (by decide) s
  | succ fuel ih =>
    rw [codesLoop]
    refine (codesStep_forward lencode distcode s).1.bind fun symbol s' _ => ?_
    split
    · exact ih s'
    · exact forward_pure () s'

theorem forward_codes (lencode distcode : Huffman) (s : State) :
    Forward (codes lencode distcode) s :=
  forward_get (forward_codesLoop lencode distcode _ s)

/-! ## Blocks -/

theorem forward_buildDynamicLengths (s : State) : Forward buildDynamicLengths s := by
  unfold buildDynamicLengths
  dsimp only
  refine (forward_bits 4 s).bind fun ncode s₁ _ => ?_
  refine (forward_foldlM (fun lengths index s => ?_) _ _ s₁).bind fun lengths s₂ _ =>
    forward_foldlM (fun lengths index s => ?_) _ _ s₂
  · exact (forward_bits 3 s).bind fun len s' _ => forward_lift fun symbol _ => forward_liftM _ s'
  · exact forward_lift fun symbol _ => forward_liftM _ s

theorem forward_readLengths (lencode : Huffman) (total fuel : Nat) (state : List Nat × Nat)
    (s : State) : Forward (readLengths lencode total fuel state) s := by
  induction fuel generalizing state s with
  | zero => exact forward_pure _ s
  | succ fuel ih =>
    obtain ⟨lengths, index⟩ := state
    rw [readLengths]
    dsimp only
    split
    · refine (forward_decode lencode s).bind fun symbol s₁ _ => ?_
      split
      · exact forward_lift fun lengths _ => ih _ s₁
      · -- The lengths repeated are those of the three symbols.
        have hrepeat : ∀ (len count : Nat) (s : State), Forward (do
            if index + count > total then
              throw .ERR_REPEAT_MORE
              readLengths lencode total fuel (← repeatLength len count (lengths, index))
            else readLengths lencode total fuel (← repeatLength len count (lengths, index))) s := by
          intro len count s
          split
          · exact forward_throw_bind (by decide) _ _
          · exact forward_lift fun state _ => ih state s
        split
        · split
          · exact forward_throw_bind (by decide) _ _
          · exact forward_lift fun len _ => (forward_bits 2 s₁).bind fun bits s₂ _ => hrepeat _ _ s₂
        · split
          · exact (forward_bits 3 s₁).bind fun bits s₂ _ => hrepeat _ _ s₂
          · exact (forward_bits 7 s₁).bind fun bits s₂ _ => hrepeat _ _ s₂
    · exact forward_pure _ s

theorem forward_buildDynamic (s : State) : Forward buildDynamic s := by
  unfold buildDynamic
  dsimp only
  refine (forward_bits 5 s).bind fun nlen s₁ _ => (forward_bits 5 s₁).bind fun ndist s₂ _ => ?_
  split
  · exact forward_throw_bind (by decide) _ _
  · refine (forward_buildDynamicLengths s₂).bind fun lengths s₃ _ => forward_lift fun code _ => ?_
    split
    · exact forward_throw_bind (by decide) _ _
    · refine (forward_readLengths _ _ _ _ s₃).bind fun lengths s₄ _ => forward_lift fun endLength _ => ?_
      split
      · exact forward_throw_bind (by decide) _ _
      · refine forward_lift fun lencode _ => forward_lift fun refused _ => ?_
        split
        · exact forward_throw_bind (by decide) _ _
        · refine forward_lift fun distcode _ => forward_lift fun refused _ => ?_
          split
          · exact forward_throw_bind (by decide) _ _
          · exact forward_pure _ s₄

theorem forward_blocks (fuel : Nat) (s : State) : Forward (blocks fuel) s := by
  induction fuel generalizing s with
  | zero => exact forward_throw (by decide) s
  | succ fuel ih =>
    have hnext : ∀ (last : Nat) (s : State), Forward (if last = 0 then blocks fuel else pure ()) s := by
      intro last s
      split
      · exact ih s
      · exact forward_pure () s
    rw [blocks]
    dsimp only
    refine (forward_bits 1 s).bind fun last s₁ _ => (forward_bits 2 s₁).bind fun t s₂ _ => ?_
    split
    · exact (forward_stored s₂).bind fun _ s' _ => hnext last s'
    · split
      · refine Forward.bind (forward_get (forward_codes _ _ s₂)) fun _ s' _ => hnext last s'
      · split
        · refine Forward.bind ((forward_buildDynamic s₂).bind fun codes s₃ _ =>
            forward_codes codes.1 codes.2 s₃) fun _ s' _ => hnext last s'
        · exact forward_throw_bind (by decide) _ _

end Inflate

end Nouns
