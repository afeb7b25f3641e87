import Nouns.Token.Reverts

/-!
# Histories — the two tokens over whole runs

A run interleaves calls by any accounts with the passage of blocks.  Conservation of votes holds
throughout the life of the fork token, and of the original token as long as nobody's balance is
delegated to the zero address by signature.  Looking a block up returns what the votes were at its
end, and goes on returning it.
-/

open Fallible Checkpoints GroupSums Transition

namespace Nouns

open Token

/-- A token at a moment of the chain. -/
structure Clocked (T : Type) where
  blockNumber : Nat
  timestamp : Nat
  token : T

/-- Blocks pass. -/
def Clocked.Later {T : Type} (s s' : Clocked T) : Prop :=
  s.blockNumber ≤ s'.blockNumber ∧ s.timestamp ≤ s'.timestamp ∧ s'.token = s.token

theorem Clocked.later {T : Type} (s : Clocked T) (blockNumber timestamp : Nat)
    (hblock : s.blockNumber ≤ blockNumber) (htime : s.timestamp ≤ timestamp) :
    s.Later ⟨blockNumber, timestamp, s.token⟩ :=
  ⟨hblock, htime, rfl⟩

section Systems

variable {H : Type} (c : Crypto H)

namespace NounsToken

def Deployed (s : Clocked NounsToken) : Prop :=
  ∃ owner noundersDAO minter, s.token = deploy owner noundersDAO minter

/-- A step of the token on its own; `admits` restricts the calls of a run. -/
inductive Next (admits : NounsToken → NounsTokenCall → Prop) :
    Clocked NounsToken → Clocked NounsToken → Prop
  | advance {s s'} : s.Later s' → Next admits s s'
  | call {s n'} (proxies : Address → Address) (received : Address → Tx Unit) (sender : Account)
      (cl : NounsTokenCall) : admits s.token cl →
      s.token.call c proxies received s.blockNumber s.timestamp sender cl = .ok n' →
      Next admits s { s with token := n' }

end NounsToken

namespace NounsTokenFork

def Deployed (s : Clocked NounsTokenFork) : Prop :=
  ∃ owner minter forkId startNounId tokensToClaim forkingPeriodEndTimestamp,
    s.token = deploy owner minter forkId startNounId tokensToClaim forkingPeriodEndTimestamp

inductive Next : Clocked NounsTokenFork → Clocked NounsTokenFork → Prop
  | advance {s s'} : s.Later s' → Next s s'
  | call {s n'} (escrow : EscrowView) (received : Address → Tx Unit) (sender : Account)
      (cl : NounsTokenForkCall) :
      s.token.call c escrow received s.blockNumber s.timestamp sender cl = .ok n' →
      Next s { s with token := n' }

end NounsTokenFork

end Systems

variable {H : Type} {c : Crypto H}

/-! ## Conservation over a run -/

/-- What a run without lossy delegations keeps. -/
structure Token.Sound (t : Token) : Prop where
  ledger : t.Ledger
  conserved : t.Conserved
  backed : t.Backed

theorem Token.empty_sound : Token.empty.Sound := ⟨empty_ledger, empty_conserved, empty_backed⟩

theorem Token.Changes.sound {t t' : Token} {now : Nat} (h : Changes False now t t')
    (hs : t.Sound) : t'.Sound :=
  ⟨h.ledger hs.ledger, (h.conserved hs.ledger hs.conserved).2, (h.backed hs.ledger hs.backed).2⟩

namespace NounsTokenFork

theorem sound_of_reachable {s : Clocked NounsTokenFork} (h : Reachable Deployed (Next c) s) :
    s.token.Sound := by
  refine h.invariant (P := fun s => s.token.Sound) ?_ ?_
  · rintro s ⟨_, _, _, _, _, _, hs⟩
    rw [hs]
    exact empty_sound
  · intro s s' _ hsound hstep
    cases hstep with
    | advance hl =>
      rw [hl.2.2]
      exact hsound
    | call escrow received sender cl hcall => exact (call_changes hcall).sound hsound

/-- In every reachable state of the fork token the votes of an account are the balances delegated
to it.  So no call reverts because an amount under- or overflows (unless the recipient of a safe
transfer reverts with that very text), and below 2^32 blocks and 2^96 tokens an owner's transfer,
burn and delegation succeed. -/
theorem votes_conserved {s : Clocked NounsTokenFork} (h : Reachable Deployed (Next c) s) :
    (∀ a, a ≠ 0 → s.token.getCurrentVotes a = groupSum s.token.delegates s.token.balances a) ∧
    (∀ escrow received sender cl e,
      s.token.call c escrow received s.blockNumber s.timestamp sender cl = .error e →
      AmountRevert e → ∃ a, received a = .error e) ∧
    (s.blockNumber < 2 ^ 32 → s.token.totalSupply < 2 ^ 96 →
      (∀ tokenId, s.token.owners tokenId ≠ 0 →
        (∀ to_, to_ ≠ 0 → ∃ n', s.token.transferFrom s.blockNumber (s.token.owners tokenId)
          (s.token.owners tokenId) to_ tokenId = .ok n') ∧
        ∃ n', s.token.burn s.blockNumber s.token.minter tokenId = .ok n') ∧
      (∀ (sender : Account) delegatee,
        ∃ t', s.token.delegate s.blockNumber sender delegatee = .ok t')) := by
  obtain ⟨hl, hc, hb⟩ := sound_of_reachable h
  refine ⟨hc, ?_, ?_⟩
  · intro escrow received sender cl e he hamount
    by_contra hnone
    exact call_avoids hl hc cl e he ⟨hamount, not_exists.mp hnone⟩
  · intro hnow hsupply
    refine ⟨fun tokenId howner => ⟨fun to_ hto => ?_, ?_⟩, fun sender delegatee => ?_⟩
    · obtain ⟨t', ht'⟩ := transfer_succeeds hc hb hnow hsupply hl howner hto
      simp only [NounsTokenFork.transferFrom, Token.transferFrom, isApprovedOrOwner, bind_eq_ok,
        require_eq_ok, pure_eq_ok]
      exact ⟨_, t', ⟨_, ⟨(), howner, rfl⟩, (), by simp, ht'⟩, rfl⟩
    · obtain ⟨t', ht'⟩ := burnToken_succeeds hl hc hnow howner
      simp only [burn, onlyMinter, bind_eq_ok, require_eq_ok, pure_eq_ok]
      exact ⟨_, (), trivial, t', ht', rfl⟩
    · exact delegateTo_succeeds hc hb hnow hsupply _ sender.property

/-- The fork's minter (7) mints token 5 and passes it to 8. -/
theorem votes_conserved_after_transfer :
    ∃ s : Clocked NounsTokenFork, Reachable Deployed (Next Crypto.transparent) s ∧
      s.token.owners 5 = 8 ∧ s.token.getCurrentVotes 8 = 1 ∧
      groupSum s.token.delegates s.token.balances 8 = 1 := by
  have h₀ : Reachable Deployed (Next Crypto.transparent) ⟨1, 1, deploy 9 7 0 5 0 1⟩ :=
    .start ⟨9, 7, 0, 5, 0, 1, rfl⟩
  have h₁ := h₀.step (.call ⟨0, fun _ _ => 0⟩ (fun _ => .ok ()) ⟨7, by decide⟩ .mint rfl)
  have h₂ := h₁.step (.call ⟨0, fun _ _ => 0⟩ (fun _ => .ok ()) ⟨7, by decide⟩
    (.transferFrom 7 8 5) rfl)
  exact ⟨_, h₂, rfl, rfl, ((votes_conserved h₂).1 8 (by decide)).symm⟩

end NounsTokenFork

namespace NounsToken

/-- Runs in which no call loses votes. -/
abbrev Conserving (c : Crypto H) : Clocked NounsToken → Clocked NounsToken → Prop :=
  Next c (fun n cl => ¬ n.losesVotes c cl)

theorem sound_of_reachable {s : Clocked NounsToken} (h : Reachable Deployed (Conserving c) s) :
    s.token.Sound := by
  refine h.invariant (P := fun s => s.token.Sound) ?_ ?_
  · rintro s ⟨_, _, _, hs⟩
    rw [hs]
    exact empty_sound
  · intro s s' _ hsound hstep
    cases hstep with
    | advance hl =>
      rw [hl.2.2]
      exact hsound
    | call proxies received sender cl hcl hcall => exact (call_changes hcall hcl).sound hsound

/-- As long as no call delegates a signer's nonzero balance to the zero address, votes are
conserved in every state and no call reverts because an amount underflows. -/
theorem votes_conserved_while_none_lost {s : Clocked NounsToken}
    (h : Reachable Deployed (Conserving c) s) :
    (∀ a, a ≠ 0 → s.token.getCurrentVotes a = groupSum s.token.delegates s.token.balances a) ∧
    (∀ proxies received sender cl e,
      s.token.call c proxies received s.blockNumber s.timestamp sender cl = .error e →
      AmountRevert e → ∃ a, received a = .error e) := by
  obtain ⟨hl, hc, -⟩ := sound_of_reachable h
  refine ⟨hc, ?_⟩
  intro proxies received sender cl e he hamount
  by_contra hnone
  exact call_avoids hl hc cl e he ⟨hamount, not_exists.mp hnone⟩

/-- The minter (7) mints tokens 0 (to the founders, 8) and 1 and passes its own to 8. -/
theorem votes_conserved_after_mint_and_transfer :
    ∃ s : Clocked NounsToken, Reachable Deployed (Conserving Crypto.transparent) s ∧
      s.token.getCurrentVotes 8 = 2 ∧ groupSum s.token.delegates s.token.balances 8 = 2 := by
  have h₀ : Reachable Deployed (Conserving Crypto.transparent) ⟨1, 1, deploy 9 8 7⟩ :=
    .start ⟨9, 8, 7, rfl⟩
  have h₁ := h₀.step (.call (fun _ => 0) (fun _ => .ok ()) ⟨7, by decide⟩ .mint not_false rfl)
  have h₂ := h₁.step (.call (fun _ => 0) (fun _ => .ok ()) ⟨7, by decide⟩
    (.transferFrom 7 8 1) not_false rfl)
  exact ⟨_, h₂, rfl, ((votes_conserved_while_none_lost h₂).1 8 (by decide)).symm⟩

/-- The minter (7) mints, then signs a delegation of its one token to the zero address.  It is its
own delegate without a vote, and can no longer transfer the token. -/
theorem votes_lost_by_delegation_to_zero :
    ∃ s : Clocked NounsToken, Reachable Deployed (Next Crypto.transparent (fun _ _ => True)) s ∧
      s.token.getCurrentVotes 7 ≠ groupSum s.token.delegates s.token.balances 7 ∧
      s.token.owners 1 = 7 ∧
      s.token.call .transparent (fun _ => 0) (fun _ => .ok ()) s.blockNumber s.timestamp
        ⟨7, by decide⟩ (.transferFrom 7 8 1) = .error (.require amountUnderflows) := by
  have h₀ : Reachable Deployed (Next Crypto.transparent (fun _ _ => True)) ⟨1, 1, deploy 9 8 7⟩ :=
    .start ⟨9, 8, 7, rfl⟩
  have h₁ := h₀.step (.call (fun _ => 0) (fun _ => .ok ()) ⟨7, by decide⟩ .mint trivial rfl)
  have h₂ := h₁.step (.call (fun _ => 0) (fun _ => .ok ()) ⟨7, by decide⟩
    (.delegateBySig 0 0 1 [7]) trivial rfl)
  refine ⟨_, h₂, ?_, rfl, rfl⟩
  intro h
  have hle := Nat.le_trans (le_groupSum _ _ (7 : Address)) (Nat.le_of_eq h.symm)
  exact absurd hle (by decide)

/-- The condition is exact: from a conserving state, a call that loses votes ends conservation. -/
theorem not_conserved_of_losesVotes {n n' : NounsToken} {proxies : Address → Address}
    {received : Address → Tx Unit} {now timestamp : Nat} {sender : Account} {cl : NounsTokenCall}
    (hc : n.Conserved) (hcl : n.losesVotes c cl)
    (h : n.call c proxies received now timestamp sender cl = .ok n') : ¬ n'.Conserved := by
  cases cl with
  | delegateBySig delegatee nonce expiry sig =>
    obtain ⟨rfl, hbal⟩ := hcl
    simp only [call, delegateBySig, delegateBySigChecked, bind_eq_ok, require_eq_ok,
      pure_eq_ok] at h
    obtain ⟨t', ⟨_, hne, _, -, _, -, h⟩, rfl⟩ := h
    obtain ⟨-, hd⟩ := delegateTo_ok h
    generalize c.ecrecover (c.keccak256 (.delegation 0 nonce expiry)) sig = signatory at *
    intro hc'
    -- The signer is its own delegate again, but its balance is not among its votes.
    have hself : t'.delegates signatory = signatory := by
      simp [Token.delegates, hd.delegateMap]
    have hvotes := hd.moved.votes signatory hne
    have hsum := groupSum_add_of_eq_off n.delegates t'.delegates n.balances t'.balances
      signatory (by
        intro x hx
        simp [Token.delegates, hd.delegateMap, hd.balances, Function.update_of_ne hx]) signatory
    have hbefore := hc signatory hne
    have hafter := hc' signatory hne
    have hbal' : t'.balances = n.balances := hd.balances
    simp only [hself, hbal', if_true, if_neg (Ne.symm hne)] at hvotes hsum
    simp only [setToken, hbal'] at hafter
    change t'.getCurrentVotes signatory + (if n.delegates signatory = signatory then
      n.balances signatory else 0) = n.getCurrentVotes signatory + 0 at hvotes
    omega
  | _ => exact hcl.elim

end NounsToken

/-! ## Looking up past votes -/

theorem NounsToken.recorded (c : Crypto H) (admits : NounsToken → NounsTokenCall → Prop)
    (a : Address) : Recorded Deployed (Next c admits) Clocked.blockNumber
      (fun s => s.token.checkpoints a) where
  start := by
    rintro s ⟨_, _, _, hs⟩
    rw [hs]
    exact .nil _
  step := by
    intro s s' hstep
    cases hstep with
    | advance hl => exact .inr ⟨hl.1, by rw [hl.2.2]⟩
    | call proxies received sender cl _ hcall =>
      have hchanges : Token.Changes True _ _ _ := call_changes hcall (fun _ => trivial)
      exact .inl ⟨rfl, hchanges.writes a⟩

theorem NounsTokenFork.recorded (c : Crypto H) (a : Address) :
    Recorded Deployed (Next c) Clocked.blockNumber (fun s => s.token.checkpoints a) where
  start := by
    rintro s ⟨_, _, _, _, _, _, hs⟩
    rw [hs]
    exact .nil _
  step := by
    intro s s' hstep
    cases hstep with
    | advance hl => exact .inr ⟨hl.1, by rw [hl.2.2]⟩
    | call escrow received sender cl hcall =>
      have hchanges : Token.Changes True _ _ _ := call_changes hcall
      exact .inl ⟨rfl, hchanges.writes a⟩

/-- The votes of `a` at the end of block `b`, read off the history of a token. -/
def votesAt {T : Type} (votes : T → Address → Nat) (a : Address) (b : Nat)
    (history : List (Clocked T)) : Nat :=
  match lastAt Clocked.blockNumber b history with
  | some s => votes s.token a
  | none => 0

section Lookup

variable {T : Type} {init : Clocked T → Prop} {next : Clocked T → Clocked T → Prop}
  (token : T → Token) {a : Address}

/-- A token whose checkpoints are recorded answers every past block exactly, and for good. -/
theorem getPriorVotes_of_recorded
    (hrec : Recorded init next Clocked.blockNumber (fun s => (token s.token).checkpoints a))
    (hempty : ∀ s, init s → (token s.token).checkpoints a = []) {s : Clocked T}
    {h : List (Clocked T)} (hr : Run init next (s :: h)) {b : Nat} (hb : b < s.blockNumber)
    {s' : Clocked T} (hs' : Relation.ReflTransGen next s s') :
    (token s'.token).getPriorVotes s'.blockNumber a b =
      .ok (votesAt (fun t a => (token t).getCurrentVotes a) a b (s :: h)) := by
  obtain ⟨hb', hstable⟩ := hrec.valueAt_stable hr.reachable hs' hb
  have hwf := hrec.wellFormed (hr.reachable.steps hs')
  have hvalue := hrec.valueAt_eq hempty hr b
  simp only [getPriorVotes, bind_eq_ok, require_eq_ok, pure_eq_ok]
  refine ⟨(), hb', ?_⟩
  rw [lookup_eq_valueAt hwf, hstable, hvalue, votesAt]
  cases lastAt Clocked.blockNumber b (s :: h) with
  | none => rfl
  | some t => rfl

/-- In any system around a token, a vote count looked up for a block of the history is what the
votes were at the end of that block. -/
theorem getPriorVotes_of_run {σ : Type} {init : σ → Prop} {next : σ → σ → Prop} {clock : σ → Nat}
    (token : σ → Token) {a : Address}
    (hrec : Recorded init next clock (fun s => (token s).checkpoints a)) {s s₀ : σ} {h : List σ}
    (hr : Run init next (s :: h)) {b votes : Nat} (hs₀ : s₀ ∈ s :: h) (hb : clock s₀ ≤ b)
    (hprior : (token s).getPriorVotes (clock s) a b = .ok votes) :
    b < clock s ∧
      ∃ t, lastAt clock b (s :: h) = some t ∧ (token t).getCurrentVotes a = votes := by
  obtain ⟨t, ht⟩ := lastAt_eq_some hs₀ hb
  simp only [getPriorVotes, bind_eq_ok, require_eq_ok, pure_eq_ok] at hprior
  obtain ⟨_, hlt, rfl⟩ := hprior
  refine ⟨hlt, t, ht, ?_⟩
  rw [lookup_eq_valueAt (hrec.wellFormed hr.reachable), hrec.valueAt_of_lastAt hr ht]
  rfl

end Lookup

/-! ## Votes and supply -/

/-- What a token keeps even where votes are lost. -/
structure Token.Funded (t : Token) : Prop where
  ledger : t.Ledger
  backed : t.Backed

theorem Token.Changes.funded {lossy : Prop} {t t' : Token} {now : Nat} (h : Changes lossy now t t')
    (ht : t.Funded) : t'.Funded :=
  ⟨h.ledger ht.ledger, (h.backed ht.ledger ht.backed).2⟩

theorem NounsToken.funded_of_reachable {admits : NounsToken → NounsTokenCall → Prop}
    {s : Clocked NounsToken} (h : Reachable Deployed (Next c admits) s) : s.token.Funded := by
  refine h.invariant (P := fun s => s.token.Funded) ?_ ?_
  · rintro s ⟨_, _, _, hs⟩
    rw [hs]
    exact ⟨empty_ledger, empty_backed⟩
  · intro s s' _ hfunded hstep
    cases hstep with
    | advance hl =>
      rw [hl.2.2]
      exact hfunded
    | call proxies received sender cl _ hcall =>
      have hchanges : Token.Changes True _ _ _ := call_changes hcall (fun _ => trivial)
      exact hchanges.funded hfunded

/-- For both tokens, every run and every block before the current one: the lookup returns the votes
the account had at the end of that block, in this state and in every later one. -/
theorem getPriorVotes_exact (c : Crypto H) :
    (∀ (s : Clocked NounsToken) (h : List (Clocked NounsToken)),
      Run NounsToken.Deployed (NounsToken.Next c (fun _ _ => True)) (s :: h) →
      ∀ (a : Address) (b : Nat), b < s.blockNumber →
      ∀ s', Relation.ReflTransGen (NounsToken.Next c (fun _ _ => True)) s s' →
        s'.token.getPriorVotes s'.blockNumber a b =
          .ok (votesAt (fun n a => n.getCurrentVotes a) a b (s :: h))) ∧
    (∀ (s : Clocked NounsTokenFork) (h : List (Clocked NounsTokenFork)),
      Run NounsTokenFork.Deployed (NounsTokenFork.Next c) (s :: h) →
      ∀ (a : Address) (b : Nat), b < s.blockNumber →
      ∀ s', Relation.ReflTransGen (NounsTokenFork.Next c) s s' →
        s'.token.getPriorVotes s'.blockNumber a b =
          .ok (votesAt (fun n a => n.getCurrentVotes a) a b (s :: h))) := by
  refine ⟨?_, ?_⟩
  · intro s h hr a b hb s' hs'
    refine getPriorVotes_of_recorded NounsToken.toToken (NounsToken.recorded c _ a) ?_ hr hb hs'
    rintro s ⟨_, _, _, hs⟩
    rw [hs]
    rfl
  · intro s h hr a b hb s' hs'
    refine getPriorVotes_of_recorded NounsTokenFork.toToken (NounsTokenFork.recorded c a) ?_ hr hb
      hs'
    rintro s ⟨_, _, _, _, _, _, hs⟩
    rw [hs]
    rfl

/-- A mint in block 1 is seen at block 1 from block 2 on, and a second mint in block 2 is not. -/
theorem getPriorVotes_exact_after_mints :
    ∃ s : Clocked NounsToken, s.blockNumber = 2 ∧ s.token.getCurrentVotes 7 = 2 ∧
      s.token.getPriorVotes 2 7 1 = .ok 1 := by
  have h₀ : Run NounsToken.Deployed (NounsToken.Next Crypto.transparent (fun _ _ => True))
      [⟨1, 1, NounsToken.deploy 9 8 7⟩] := .start ⟨9, 8, 7, rfl⟩
  have h₁ := h₀.step (.call (fun _ => 0) (fun _ => .ok ()) ⟨7, by decide⟩ .mint trivial rfl)
  have h₂ := h₁.step (.advance (Clocked.later _ 2 2 (by decide) (by decide)))
  have h₃ := h₂.step (.call (fun _ => 0) (fun _ => .ok ()) ⟨7, by decide⟩ .mint trivial rfl)
  exact ⟨_, rfl, rfl, (getPriorVotes_exact .transparent).1 _ _ h₃ 7 1 (by decide) _ .refl⟩

end Nouns
