import Nouns.Token.VoteConservation

/-!
# Reverts — vote accounting never blocks an owner

With conserved votes the subtraction in `_moveDelegates` cannot underflow, and with votes backed by
the supply the addition fits 96 bits.  So no call reverts for its amounts, and an owner's transfer,
burn or delegation goes through.
-/

open Fallible Checkpoints Transition

namespace Nouns

namespace Token

variable {t t' : Token} {now : Nat}

/-- The reverts of `_moveDelegates` about amounts. -/
def AmountRevert (e : Revert) : Prop :=
  e = .require amountUnderflows ∨ e = .require amountOverflows

theorem require_avoids {p : Prop} [Decidable p] {reason : String}
    (hu : reason ≠ amountUnderflows) (ho : reason ≠ amountOverflows) :
    Avoids AmountRevert (require p (Revert.require reason)) := by
  apply Avoids.require
  rintro (h | h)
  · exact hu (Revert.require.inj h)
  · exact ho (Revert.require.inj h)

theorem panic_not_amountRevert : ¬ AmountRevert .panic := by
  simp [AmountRevert]

theorem checked_avoids (bits n : Nat) : Avoids AmountRevert (checked bits n) := by
  intro e h
  unfold checked at h
  split at h
  · cases h
  · cases h
    exact panic_not_amountRevert

theorem checkedSub_avoids (a b : Nat) : Avoids AmountRevert (checkedSub a b) := by
  intro e h
  unfold checkedSub at h
  split at h
  · cases h
  · cases h
    exact panic_not_amountRevert

theorem writeCheckpoint_avoids (delegatee : Address) (oldVotes newVotes : Nat) :
    Avoids AmountRevert (t.writeCheckpoint now delegatee oldVotes newVotes) :=
  .bind (require_avoids (by decide) (by decide)) (fun _ _ => .pure _)

theorem removeVotes_avoids {src : Address} {amount : Nat}
    (h : src ≠ 0 → amount ≤ t.getCurrentVotes src) :
    Avoids AmountRevert (t.removeVotes now src amount) := by
  unfold removeVotes
  split
  · rename_i hsrc
    refine .bind ?_ (fun _ _ => writeCheckpoint_avoids _ _ _)
    intro e he
    simp only [sub96, bind_eq_error, require_eq_error, pure_ne_error, and_false, exists_false,
      or_false] at he
    exact absurd (h hsrc) he.1
  · exact .pure t

theorem addVotes_avoids (dst : Address) (amount : Nat) :
    Avoids AmountRevert (t.addVotes now dst amount) := by
  unfold addVotes
  split
  · refine .bind ?_ (fun _ _ => writeCheckpoint_avoids _ _ _)
    refine .bind (checked_avoids _ _) (fun c hc => ?_)
    rw [checked_eq_ok] at hc
    -- The checked addition has already reverted, so `amount overflows` is dead code.
    intro e he
    simp only [bind_eq_error, require_eq_error, pure_ne_error, and_false, exists_false,
      or_false] at he
    omega
  · exact .pure t

theorem moveDelegates_avoids {src dst : Address} {amount : Nat}
    (h : src ≠ 0 → amount ≤ t.getCurrentVotes src) :
    Avoids AmountRevert (t.moveDelegates now src dst amount) := by
  unfold moveDelegates
  split
  · exact .bind (removeVotes_avoids h) (fun _ _ => addVotes_avoids _ _)
  · exact .pure t

theorem ownerOf_avoids (tokenId : Nat) : Avoids AmountRevert (t.ownerOf tokenId) :=
  .bind (require_avoids (by decide) (by decide)) (fun _ _ => .pure _)

theorem approveToken_avoids (to_ : Address) (tokenId : Nat) :
    Avoids AmountRevert (t.approveToken to_ tokenId) :=
  .bind (ownerOf_avoids tokenId) (fun _ _ => .pure _)

theorem updateEnumeration_ok {from_ to_ : Address} {tokenId : Nat}
    (h : t.updateEnumeration from_ to_ tokenId = .ok t') :
    ∃ allTokens, t' = { t with allTokens } := by
  simp only [updateEnumeration] at h
  split at h
  · split at h
    · rw [pure_eq_ok] at h
      subst h
      split <;> exact ⟨_, rfl⟩
    · simp at h
  · rw [pure_eq_ok] at h
    subst h
    split <;> exact ⟨_, rfl⟩

theorem updateEnumeration_avoids (from_ to_ : Address) (tokenId : Nat) :
    Avoids AmountRevert (t.updateEnumeration from_ to_ tokenId) := by
  intro e h
  simp only [updateEnumeration] at h
  split at h
  · split at h
    · simp at h
    · cases h
      exact panic_not_amountRevert
  · simp at h

theorem beforeTokenTransfer_avoids {from_ to_ : Address} {tokenId : Nat} (hl : Ledger t)
    (h : from_ ≠ 0 → 1 ≤ t.getCurrentVotes (t.delegates from_)) :
    Avoids AmountRevert (t.beforeTokenTransfer now from_ to_ tokenId) := by
  refine .bind (updateEnumeration_avoids _ _ _) (fun t₁ ht₁ => ?_)
  obtain ⟨allTokens, rfl⟩ := updateEnumeration_ok ht₁
  refine moveDelegates_avoids (fun hne => h ?_)
  rintro rfl
  exact hne hl.delegates_zero

/-- The owner of a token has a positive balance, and its delegate a vote. -/
theorem Ledger.balance_pos (hl : Ledger t) {tokenId : Nat} (h : t.owners tokenId ≠ 0) :
    1 ≤ t.balances (t.owners tokenId) := by
  rw [hl.balances_eq _ h]
  exact List.count_pos_iff.mpr (List.mem_map_of_mem ((hl.listed tokenId).mpr h))

theorem Conserved.votes_pos (hc : Conserved t) (hl : Ledger t) {tokenId : Nat}
    (h : t.owners tokenId ≠ 0) : 1 ≤ t.getCurrentVotes (t.delegates (t.owners tokenId)) :=
  Nat.le_trans (hl.balance_pos h) (hc.balance_le h)

theorem mintTo_avoids (hl : Ledger t) (to_ : Address) (tokenId : Nat) :
    Avoids AmountRevert (t.mintTo now to_ tokenId) :=
  .bind (require_avoids (by decide) (by decide)) fun _ _ =>
    .bind (require_avoids (by decide) (by decide)) fun _ _ =>
      .bind (beforeTokenTransfer_avoids hl (fun h => absurd rfl h)) (fun _ _ => .pure _)

theorem burnToken_avoids (hl : Ledger t) (hc : Conserved t) (tokenId : Nat) :
    Avoids AmountRevert (t.burnToken now tokenId) := by
  refine .bind (ownerOf_avoids tokenId) (fun owner howner => ?_)
  obtain ⟨hne, rfl⟩ := ownerOf_ok howner
  refine .bind (beforeTokenTransfer_avoids hl (fun _ => hc.votes_pos hl hne)) (fun _ _ => ?_)
  exact .bind (approveToken_avoids _ _) fun _ _ => .bind (checkedSub_avoids _ _) (fun _ _ => .pure _)

theorem transfer_avoids (hl : Ledger t) (hc : Conserved t) (from_ to_ : Address) (tokenId : Nat) :
    Avoids AmountRevert (t.transfer now from_ to_ tokenId) := by
  refine .bind (ownerOf_avoids tokenId) (fun owner howner => ?_)
  obtain ⟨hne, rfl⟩ := ownerOf_ok howner
  refine .bind (require_avoids (by decide) (by decide)) (fun _ hfrom => ?_)
  rw [require_eq_ok] at hfrom
  subst hfrom
  refine .bind (require_avoids (by decide) (by decide)) (fun _ _ => ?_)
  refine .bind (beforeTokenTransfer_avoids hl (fun _ => hc.votes_pos hl hne)) (fun _ _ => ?_)
  exact .bind (approveToken_avoids _ _) fun _ _ => .bind (checkedSub_avoids _ _) (fun _ _ => .pure _)

theorem transferFrom_avoids (hl : Ledger t) (hc : Conserved t)
    (isApprovedForAll : Address → Address → Bool) (sender from_ to_ : Address) (tokenId : Nat) :
    Avoids AmountRevert (t.transferFrom isApprovedForAll now sender from_ to_ tokenId) :=
  .bind (.bind (require_avoids (by decide) (by decide)) (fun _ _ => .pure _)) fun _ _ =>
    .bind (require_avoids (by decide) (by decide)) (fun _ _ => transfer_avoids hl hc _ _ _)

theorem delegateTo_avoids (hc : Conserved t) (delegator delegatee : Address) :
    Avoids AmountRevert (t.delegateTo now delegator delegatee) := by
  refine .bind ?_ (fun amount hamount => ?_)
  · exact .bind (.bind (require_avoids (by decide) (by decide)) (fun _ _ => .pure _)) fun _ _ =>
      .bind (require_avoids (by decide) (by decide)) (fun _ _ => .pure _)
  · simp only [votesToDelegate, balanceOf, safe96, bind_eq_ok, require_eq_ok, pure_eq_ok] at hamount
    obtain ⟨_, ⟨_, hne, rfl⟩, _, -, rfl⟩ := hamount
    exact moveDelegates_avoids (fun _ => hc.balance_le hne)

theorem delegateBySigChecked_avoids (hc : Conserved t) {H : Type} (c : Crypto H)
    (timestamp : Nat) (delegatee : Address) (nonce expiry : Nat) (sig : Bytes) :
    Avoids AmountRevert (t.delegateBySigChecked c now timestamp delegatee nonce expiry sig) :=
  .bind (require_avoids (by decide) (by decide)) fun _ _ =>
    .bind (require_avoids (by decide) (by decide)) fun _ _ =>
      .bind (require_avoids (by decide) (by decide)) (fun _ _ => delegateTo_avoids (by exact hc) _ _)

theorem approve_avoids (isApprovedForAll : Address → Address → Bool) (sender : Account)
    (to_ : Address) (tokenId : Nat) :
    Avoids AmountRevert (t.approve isApprovedForAll sender to_ tokenId) :=
  .bind (ownerOf_avoids tokenId) fun _ _ =>
    .bind (require_avoids (by decide) (by decide)) fun _ _ =>
      .bind (require_avoids (by decide) (by decide)) (fun _ _ => approveToken_avoids _ _)

theorem setApprovalForAll_avoids (sender : Account) (operator : Address) (approved : Bool) :
    Avoids AmountRevert (t.setApprovalForAll sender operator approved) :=
  .bind (require_avoids (by decide) (by decide)) (fun _ _ => .pure _)

/-! ## Texts and panics

Moving, minting and burning fail in no other way. -/

/-- Neither a `require` with a text nor a panic is `bad`. -/
structure Ordinary (bad : Revert → Prop) : Prop where
  require : ∀ reason, ¬ bad (.require reason)
  panic : ¬ bad .panic

section Ordinary

variable {bad : Revert → Prop} (hbad : Ordinary bad)
include hbad

theorem Ordinary.require_avoids {p : Prop} [Decidable p] (reason : String) :
    Avoids bad (Fallible.require p (Revert.require reason)) :=
  .require (hbad.require reason)

theorem Ordinary.checkedSub_avoids (a b : Nat) : Avoids bad (checkedSub a b) := by
  intro e he
  unfold checkedSub at he
  split at he
  · cases he
  · cases he
    exact hbad.panic

theorem Ordinary.writeCheckpoint_avoids (delegatee : Address) (oldVotes newVotes : Nat) :
    Avoids bad (t.writeCheckpoint now delegatee oldVotes newVotes) :=
  .bind (hbad.require_avoids _) (fun _ _ => .pure _)

theorem Ordinary.moveDelegates_avoids (src dst : Address) (amount : Nat) :
    Avoids bad (t.moveDelegates now src dst amount) := by
  have hremove : Avoids bad (t.removeVotes now src amount) := by
    unfold removeVotes
    split
    · refine .bind ?_ (fun _ _ => hbad.writeCheckpoint_avoids _ _ _)
      exact .bind (hbad.require_avoids _) (fun _ _ => .pure _)
    · exact .pure t
  have hadd (t : Token) : Avoids bad (t.addVotes now dst amount) := by
    unfold addVotes
    split
    · refine .bind ?_ (fun _ _ => hbad.writeCheckpoint_avoids _ _ _)
      refine .bind ?_ (fun _ _ => .bind (hbad.require_avoids _) (fun _ _ => .pure _))
      intro e he
      unfold checked at he
      split at he
      · cases he
      · cases he
        exact hbad.panic
    · exact .pure t
  unfold moveDelegates
  split
  · exact .bind hremove (fun t _ => hadd t)
  · exact .pure t

theorem Ordinary.beforeTokenTransfer_avoids (from_ to_ : Address) (tokenId : Nat) :
    Avoids bad (t.beforeTokenTransfer now from_ to_ tokenId) := by
  refine .bind ?_ (fun _ _ => hbad.moveDelegates_avoids _ _ _)
  intro e he
  simp only [updateEnumeration] at he
  split at he
  · split at he
    · simp at he
    · cases he
      exact hbad.panic
  · simp at he

theorem Ordinary.ownerOf_avoids (tokenId : Nat) : Avoids bad (t.ownerOf tokenId) :=
  .bind (hbad.require_avoids _) (fun _ _ => .pure _)

theorem Ordinary.approveToken_avoids (to_ : Address) (tokenId : Nat) :
    Avoids bad (t.approveToken to_ tokenId) :=
  .bind (hbad.ownerOf_avoids _) (fun _ _ => .pure _)

theorem Ordinary.mintTo_avoids (to_ : Address) (tokenId : Nat) :
    Avoids bad (t.mintTo now to_ tokenId) := by
  refine .bind (hbad.require_avoids _) (fun _ _ => .bind (hbad.require_avoids _) (fun _ _ => ?_))
  exact .bind (hbad.beforeTokenTransfer_avoids _ _ _) (fun _ _ => .pure _)

theorem Ordinary.burnToken_avoids (tokenId : Nat) : Avoids bad (t.burnToken now tokenId) := by
  refine .bind (hbad.ownerOf_avoids _) (fun _ _ => ?_)
  refine .bind (hbad.beforeTokenTransfer_avoids _ _ _) (fun _ _ => ?_)
  refine .bind (hbad.approveToken_avoids _ _) (fun _ _ => ?_)
  exact .bind (hbad.checkedSub_avoids _ _) (fun _ _ => .pure _)

theorem Ordinary.transferFrom_avoids (isApprovedForAll : Address → Address → Bool)
    (sender from_ to_ : Address) (tokenId : Nat) :
    Avoids bad (t.transferFrom isApprovedForAll now sender from_ to_ tokenId) := by
  refine .bind (.bind (hbad.require_avoids _) (fun _ _ => .pure _)) (fun _ _ => ?_)
  refine .bind (hbad.require_avoids _) (fun _ _ => ?_)
  refine .bind (hbad.ownerOf_avoids _) (fun _ _ => .bind (hbad.require_avoids _) (fun _ _ => ?_))
  refine .bind (hbad.require_avoids _) (fun _ _ => ?_)
  refine .bind (hbad.beforeTokenTransfer_avoids _ _ _) (fun _ _ => ?_)
  refine .bind (hbad.approveToken_avoids _ _) (fun _ _ => ?_)
  exact .bind (hbad.checkedSub_avoids _ _) (fun _ _ => .pure _)

end Ordinary

/-! ## An owner's operations go through -/

theorem writeCheckpoint_succeeds (hnow : now < 2 ^ 32) (delegatee : Address)
    (oldVotes newVotes : Nat) : ∃ t', t.writeCheckpoint now delegatee oldVotes newVotes = .ok t' := by
  simp only [writeCheckpoint, bind_eq_ok, require_eq_ok, pure_eq_ok]
  exact ⟨_, (), hnow, rfl⟩

theorem removeVotes_succeeds (hnow : now < 2 ^ 32) (src : Address) {amount : Nat}
    (h : amount ≤ t.getCurrentVotes src) : ∃ t', t.removeVotes now src amount = .ok t' := by
  unfold removeVotes
  split
  · simp only [sub96, bind_eq_ok, require_eq_ok, pure_eq_ok]
    obtain ⟨t', ht'⟩ := writeCheckpoint_succeeds (t := t) hnow src (t.getCurrentVotes src)
      (t.getCurrentVotes src - amount)
    exact ⟨t', _, ⟨(), h, rfl⟩, ht'⟩
  · exact ⟨t, rfl⟩

theorem addVotes_succeeds (hnow : now < 2 ^ 32) (dst : Address) (amount : Nat)
    (h : t.getCurrentVotes dst + amount < 2 ^ 96) : ∃ t', t.addVotes now dst amount = .ok t' := by
  unfold addVotes
  split
  · simp only [add96, bind_eq_ok, checked_eq_ok, require_eq_ok, pure_eq_ok]
    obtain ⟨t', ht'⟩ := writeCheckpoint_succeeds (t := t) hnow dst (t.getCurrentVotes dst)
      (t.getCurrentVotes dst + amount)
    exact ⟨t', _, ⟨_, ⟨h, rfl⟩, (), by omega, rfl⟩, ht'⟩
  · exact ⟨t, rfl⟩

theorem moveDelegates_succeeds (hnow : now < 2 ^ 32) (hb : Backed t)
    (hsupply : t.totalSupply < 2 ^ 96) {src : Address} (dst : Address) {amount : Nat}
    (hsrc : src ≠ 0) (h : amount ≤ t.getCurrentVotes src) :
    ∃ t', t.moveDelegates now src dst amount = .ok t' := by
  unfold moveDelegates
  split
  · obtain ⟨t₁, h₁⟩ := removeVotes_succeeds hnow src h
    -- What the source lost makes room for what the target gains.
    have hsum := (removeVotes_ok h₁).2.sum
    rw [if_neg hsrc, if_pos rfl] at hsum
    have hle := Finset.single_le_sum (f := t₁.getCurrentVotes) (fun _ _ => Nat.zero_le _)
      (Finset.mem_univ dst)
    unfold Backed at hb
    obtain ⟨t₂, h₂⟩ := addVotes_succeeds (t := t₁) hnow dst amount (by omega)
    exact ⟨t₂, by rw [h₁]; exact h₂⟩
  · exact ⟨t, rfl⟩

theorem approveToken_succeeds (to_ : Address) {tokenId : Nat} (h : t.owners tokenId ≠ 0) :
    ∃ t', t.approveToken to_ tokenId = .ok t' := by
  simp [approveToken, ownerOf, require, h]

theorem burnToken_succeeds (hl : Ledger t) (hc : Conserved t) (hnow : now < 2 ^ 32)
    {tokenId : Nat} (howner : t.owners tokenId ≠ 0) : ∃ t', t.burnToken now tokenId = .ok t' := by
  obtain ⟨allTokens, hrem, -, -⟩ :=
    IndexedList.remove_consistent hl.consistent ((hl.listed tokenId).mpr howner)
  obtain ⟨t₁, h₁⟩ := removeVotes_succeeds (t := { t with allTokens := allTokens }) hnow _
    (hc.votes_pos hl howner)
  obtain ⟨⟨cps, log, rfl⟩, -⟩ := removeVotes_ok h₁
  have hmove : ({ t with allTokens := allTokens } : Token).moveDelegates now
      (t.delegates (t.owners tokenId)) (t.delegates 0) 1 =
      .ok { t with allTokens := allTokens, checkpoints := cps, log := log } := by
    rw [hl.delegates_zero, moveDelegates, if_pos ⟨delegates_ne_zero howner, Nat.one_pos⟩, h₁]
    rfl
  obtain ⟨t₂, h₂⟩ := approveToken_succeeds
    (t := { t with allTokens := allTokens, checkpoints := cps, log := log }) 0 howner
  have hbal : 1 ≤ t₂.balances (t.owners tokenId) := by
    obtain ⟨ap, log', rfl⟩ := approveToken_ok h₂
    exact hl.balance_pos howner
  simp only [burnToken, beforeTokenTransfer, updateEnumeration, ownerOf, bind_eq_ok, require_eq_ok,
    checkedSub_eq_ok, pure_eq_ok]
  refine ⟨_, _, ⟨(), howner, rfl⟩, _, ⟨{ t with allTokens := allTokens }, ?_, hmove⟩, t₂, h₂, _,
    ⟨hbal, rfl⟩, rfl⟩
  rw [if_neg howner, if_pos trivial, hrem]
  rfl

theorem mintTo_succeeds (hl : Ledger t) (hb : Backed t) (hnow : now < 2 ^ 32)
    (hsupply : t.totalSupply + 1 < 2 ^ 96) {to_ : Address} {tokenId : Nat} (hto : to_ ≠ 0)
    (hfree : t.owners tokenId = 0) : ∃ t', t.mintTo now to_ tokenId = .ok t' := by
  have hle := Finset.single_le_sum (f := t.getCurrentVotes) (fun _ _ => Nat.zero_le _)
    (Finset.mem_univ (t.delegates to_))
  unfold Backed at hb
  obtain ⟨t₁, h₁⟩ := addVotes_succeeds (t := { t with allTokens := t.allTokens.add tokenId }) hnow
    (t.delegates to_) 1 (show t.getCurrentVotes (t.delegates to_) + 1 < 2 ^ 96 by omega)
  have hmove : ({ t with allTokens := t.allTokens.add tokenId } : Token).moveDelegates now
      (t.delegates 0) (t.delegates to_) 1 = .ok t₁ := by
    rw [hl.delegates_zero, moveDelegates, if_pos ⟨Ne.symm (delegates_ne_zero hto), Nat.one_pos⟩]
    exact h₁
  simp only [mintTo, beforeTokenTransfer, updateEnumeration, bind_eq_ok, require_eq_ok, pure_eq_ok,
    if_pos, if_neg hto]
  exact ⟨_, (), hto, (), hfree, t₁, ⟨_, rfl, hmove⟩, rfl⟩

section Owner

variable (hc : Conserved t) (hb : Backed t) (hnow : now < 2 ^ 32)
  (hsupply : t.totalSupply < 2 ^ 96)
include hc hb hnow hsupply

theorem transfer_succeeds (hl : Ledger t) {to_ : Address} {tokenId : Nat}
    (howner : t.owners tokenId ≠ 0) (hto : to_ ≠ 0) :
    ∃ t', t.transfer now (t.owners tokenId) to_ tokenId = .ok t' := by
  obtain ⟨t₁, h₁⟩ := moveDelegates_succeeds hnow hb hsupply (t.delegates to_)
    (delegates_ne_zero howner) (hc.votes_pos hl howner)
  obtain ⟨⟨cps, log, rfl⟩, -⟩ := moveDelegates_ok h₁
  obtain ⟨t₂, h₂⟩ := approveToken_succeeds (t := { t with checkpoints := cps, log := log }) 0
    howner
  have hbal : 1 ≤ t₂.balances (t.owners tokenId) := by
    obtain ⟨ap, log', rfl⟩ := approveToken_ok h₂
    exact hl.balance_pos howner
  simp only [transfer, beforeTokenTransfer, updateEnumeration, ownerOf, bind_eq_ok, require_eq_ok,
    checkedSub_eq_ok, pure_eq_ok, if_neg howner, if_neg hto]
  exact ⟨_, _, ⟨(), howner, rfl⟩, (), rfl, (), hto, _, ⟨t, rfl, h₁⟩, t₂, h₂, _, ⟨hbal, rfl⟩, rfl⟩

theorem delegateTo_succeeds {delegator : Address} (delegatee : Address) (hne : delegator ≠ 0) :
    ∃ t', t.delegateTo now delegator delegatee = .ok t' := by
  have hle := hc.balance_le hne
  have hvotes := Finset.single_le_sum (f := t.getCurrentVotes) (fun _ _ => Nat.zero_le _)
    (Finset.mem_univ (t.delegates delegator))
  unfold Backed at hb
  have hamount : t.balances delegator < 2 ^ 96 := by omega
  simp only [delegateTo, votesToDelegate, balanceOf, safe96, bind_eq_ok, require_eq_ok, pure_eq_ok]
  obtain ⟨t', ht'⟩ := moveDelegates_succeeds
    (t := ({ t with delegateMap := Function.update t.delegateMap delegator delegatee } :
      Token).emit (.DelegateChanged delegator (t.delegates delegator) delegatee))
    hnow hb hsupply delegatee (delegates_ne_zero hne) hle
  exact ⟨t', _, ⟨_, ⟨(), hne, rfl⟩, (), hamount, rfl⟩, ht'⟩

end Owner

end Token

/-! ## Calls -/

namespace NounsToken

open Token

variable {H : Type} {c : Crypto H} {n n' : NounsToken} {now : Nat}

theorem mintNext_avoids (hl : Ledger n.toToken) (to_ : Address) :
    Avoids AmountRevert (n.mintNext now to_) :=
  .bind (mintTo_avoids (t := n.toToken) hl _ _) (fun _ _ => .pure _)

/-- A call reverts for an amount only when the recipient of a safe transfer does. -/
theorem call_avoids (hl : Ledger n.toToken) (hc : Conserved n.toToken)
    {proxies : Address → Address} {received : Address → Tx Unit} {timestamp : Nat}
    {sender : Account} (cl : NounsTokenCall) :
    Avoids (fun e => AmountRevert e ∧ ∀ a, received a ≠ .error e)
      (n.call c proxies received now timestamp sender cl) := by
  cases cl with
  | safeTransferFrom from_ to_ tokenId =>
    refine .bind (.mono And.left ?_) fun _ _ => .bind ?_ (fun _ _ => .pure _)
    · exact .bind (transferFrom_avoids hl hc _ _ _ _ _) (fun _ _ => .pure _)
    · exact fun e he hbad => hbad.2 _ he
  | mint =>
    refine .mono And.left (.bind (require_avoids (by decide) (by decide)) (fun _ _ => ?_))
    split
    · refine .bind (mintNext_avoids hl _) (fun n₁ h₁ => ?_)
      have hchanges : Changes False now n.toToken n₁.toToken := mintNext_changes h₁
      exact mintNext_avoids (hchanges.ledger hl) _
    · exact mintNext_avoids hl _
  | burn nounId =>
    exact .mono And.left (.bind (require_avoids (by decide) (by decide)) fun _ _ =>
      .bind (burnToken_avoids hl hc _) (fun _ _ => .pure _))
  | approve to_ tokenId =>
    exact .mono And.left (.bind (approve_avoids _ _ _ _) (fun _ _ => .pure _))
  | setApprovalForAll operator approved =>
    exact .mono And.left (.bind (setApprovalForAll_avoids _ _ _) (fun _ _ => .pure _))
  | transferFrom from_ to_ tokenId =>
    exact .mono And.left (.bind (transferFrom_avoids hl hc _ _ _ _ _) (fun _ _ => .pure _))
  | delegate delegatee =>
    exact .mono And.left (.bind (delegateTo_avoids hc _ _) (fun _ _ => .pure _))
  | delegateBySig delegatee nonce expiry sig =>
    exact .mono And.left (.bind (delegateBySigChecked_avoids hc _ _ _ _ _ _) (fun _ _ => .pure _))
  | setNoundersDAO noundersDAO =>
    exact .mono And.left (.bind (require_avoids (by decide) (by decide)) (fun _ _ => .pure _))
  | setMinter minter =>
    exact .mono And.left (.bind (require_avoids (by decide) (by decide)) fun _ _ =>
      .bind (require_avoids (by decide) (by decide)) (fun _ _ => .pure _))
  | lockMinter =>
    exact .mono And.left (.bind (require_avoids (by decide) (by decide)) fun _ _ =>
      .bind (require_avoids (by decide) (by decide)) (fun _ _ => .pure _))
  | transferOwnership newOwner =>
    exact .mono And.left (.bind (require_avoids (by decide) (by decide)) fun _ _ =>
      .bind (require_avoids (by decide) (by decide)) (fun _ _ => .pure _))
  | renounceOwnership =>
    exact .mono And.left (.bind (require_avoids (by decide) (by decide)) (fun _ _ => .pure _))

end NounsToken

namespace NounsTokenFork

open Token

variable {H : Type} {c : Crypto H} {n n' : NounsTokenFork} {now : Nat}

theorem mintNoun_avoids (hl : Ledger n.toToken) (to_ : Address) (nounId : Nat) :
    Avoids AmountRevert (n.mintNoun now to_ nounId) :=
  .bind (mintTo_avoids hl _ _) (fun _ _ => .pure _)

theorem mintNoun_ledger {to_ : Address} {nounId : Nat} (hl : Ledger n.toToken)
    (h : n.mintNoun now to_ nounId = .ok n') : Ledger n'.toToken := by
  have hchanges : Changes False now n.toToken n'.toToken := mintNoun_changes h
  exact hchanges.ledger hl

theorem claimFromEscrow_avoids (hl : Ledger n.toToken) (escrow : EscrowView) (sender : Address)
    (tokenIds : List Nat) : Avoids AmountRevert (n.claimFromEscrow escrow now sender tokenIds) := by
  refine .bind (.foldlM (P := fun m => Ledger m.toToken) hl ?_ ?_)
    fun _ _ => .bind (checkedSub_avoids _ _) (fun _ _ => .pure _)
  · intro m nounId hm
    exact .bind (.revertIf (by simp [AmountRevert])) (fun _ _ => mintNoun_avoids hm _ _)
  · intro m nounId m' hm h
    rw [bind_eq_ok] at h
    obtain ⟨_, -, h⟩ := h
    exact mintNoun_ledger hm h

theorem claimDuringForkPeriod_avoids (hl : Ledger n.toToken) (escrow : EscrowView)
    (timestamp : Nat) (sender to_ : Address) (tokenIds : List Nat) :
    Avoids AmountRevert (n.claimDuringForkPeriod escrow now timestamp sender to_ tokenIds) := by
  refine .bind (.revertIf (by simp [AmountRevert])) fun _ _ =>
    .bind (.revertIf (by simp [AmountRevert])) fun _ _ => .bind ?_ (fun _ _ => .pure _)
  exact .foldlM (P := fun m => Ledger m.toToken) hl (fun m nounId hm => mintNoun_avoids hm _ _)
    (fun m nounId m' hm h => mintNoun_ledger hm h)

theorem call_avoids (hl : Ledger n.toToken) (hc : Conserved n.toToken) {escrow : EscrowView}
    {received : Address → Tx Unit} {timestamp : Nat} {sender : Account} (cl : NounsTokenForkCall) :
    Avoids (fun e => AmountRevert e ∧ ∀ a, received a ≠ .error e)
      (n.call c escrow received now timestamp sender cl) := by
  cases cl with
  | safeTransferFrom from_ to_ tokenId =>
    refine .bind (.mono And.left ?_) fun _ _ => .bind ?_ (fun _ _ => .pure _)
    · exact .bind (transferFrom_avoids hl hc _ _ _ _ _) (fun _ _ => .pure _)
    · exact fun e he hbad => hbad.2 _ he
  | claimFromEscrow tokenIds => exact .mono And.left (claimFromEscrow_avoids hl _ _ _)
  | claimDuringForkPeriod to_ tokenIds =>
    exact .mono And.left (claimDuringForkPeriod_avoids hl _ _ _ _ _)
  | mint =>
    exact .mono And.left (.bind (require_avoids (by decide) (by decide)) fun _ _ =>
      mintNoun_avoids (n := { n with currentNounId := n.currentNounId + 1 }) hl _ _)
  | burn nounId =>
    exact .mono And.left (.bind (require_avoids (by decide) (by decide)) fun _ _ =>
      .bind (burnToken_avoids hl hc _) (fun _ _ => .pure _))
  | approve to_ tokenId =>
    exact .mono And.left (.bind (approve_avoids _ _ _ _) (fun _ _ => .pure _))
  | setApprovalForAll operator approved =>
    exact .mono And.left (.bind (setApprovalForAll_avoids _ _ _) (fun _ _ => .pure _))
  | transferFrom from_ to_ tokenId =>
    exact .mono And.left (.bind (transferFrom_avoids hl hc _ _ _ _ _) (fun _ _ => .pure _))
  | delegate delegatee =>
    exact .mono And.left (.bind (delegateTo_avoids hc _ _) (fun _ _ => .pure _))
  | delegateBySig delegatee nonce expiry sig =>
    refine .mono And.left (.bind (.bind (require_avoids (by decide) (by decide)) fun _ _ => ?_)
      (fun _ _ => .pure _))
    exact delegateBySigChecked_avoids hc _ _ _ _ _ _
  | setMinter minter =>
    exact .mono And.left (.bind (require_avoids (by decide) (by decide)) fun _ _ =>
      .bind (require_avoids (by decide) (by decide)) (fun _ _ => .pure _))
  | lockMinter =>
    exact .mono And.left (.bind (require_avoids (by decide) (by decide)) fun _ _ =>
      .bind (require_avoids (by decide) (by decide)) (fun _ _ => .pure _))
  | transferOwnership newOwner =>
    exact .mono And.left (.bind (require_avoids (by decide) (by decide)) fun _ _ =>
      .bind (require_avoids (by decide) (by decide)) (fun _ _ => .pure _))
  | renounceOwnership =>
    exact .mono And.left (.bind (require_avoids (by decide) (by decide)) (fun _ _ => .pure _))

end NounsTokenFork

end Nouns
