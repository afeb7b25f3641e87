import Nouns.Governance.Tally
import Nouns.Governance.CallStack

/-!
# Refunds — refundable votes are votes

`castRefundableVote` and `castRefundableVoteWithReason` vote first and then send ETH to the origin
of the transaction, who may call the DAO again before the call returns.  The amount is computed
without overflow checks.
-/

open Fallible Transition

namespace Nouns

variable {H : Type}

/-! ## The amount -/

/-- `min` of `NounsDAOV3Votes`. -/
def minWord (a b : BitVec 256) : BitVec 256 := if a < b then a else b

/-- The arithmetic of `_refundGas` in words of the machine, where nothing is checked. -/
def uncheckedRefundAmount (startGas gasleft basefee gasprice balance : BitVec 256) : BitVec 256 :=
  let basefee := minWord basefee (BitVec.ofNat 256 MAX_REFUND_BASE_FEE)
  let gasPrice := minWord gasprice (basefee + BitVec.ofNat 256 MAX_REFUND_PRIORITY_FEE)
  let gasUsed := minWord (startGas - gasleft + BitVec.ofNat 256 REFUND_BASE_GAS)
    (BitVec.ofNat 256 MAX_REFUND_GAS_USED)
  minWord (gasPrice * gasUsed) balance

theorem minWord_toNat (a b : BitVec 256) : (minWord a b).toNat = min a.toNat b.toNat := by
  unfold minWord
  split
  · rename_i hlt
    rw [BitVec.lt_def] at hlt
    omega
  · rename_i hle
    rw [BitVec.lt_def] at hle
    omega

theorem add_toNat {a b : BitVec 256} (h : a.toNat + b.toNat < 2 ^ 256) :
    (a + b).toNat = a.toNat + b.toNat := by
  rw [BitVec.toNat_add]
  exact Nat.mod_eq_of_lt h

theorem sub_toNat {a b : BitVec 256} (h : b.toNat ≤ a.toNat) :
    (a - b).toNat = a.toNat - b.toNat := by
  apply BitVec.toNat_sub_of_le
  exact BitVec.le_def.mpr h

theorem mul_toNat {a b : BitVec 256} {m n : Nat} (ha : a.toNat ≤ m) (hb : b.toNat ≤ n)
    (h : m * n < 2 ^ 256) : (a * b).toNat = a.toNat * b.toNat := by
  rw [BitVec.toNat_mul]
  apply Nat.mod_eq_of_lt
  exact lt_of_le_of_lt (Nat.mul_le_mul ha hb) h

/-- The most that one vote is refunded. -/
def MAX_REFUND : Nat := (MAX_REFUND_BASE_FEE + MAX_REFUND_PRIORITY_FEE) * MAX_REFUND_GAS_USED

/-- No operation wraps around, as long as the gas spent is far from the word size. -/
theorem uncheckedRefundAmount_toNat {startGas gasleft basefee gasprice balance : BitVec 256}
    (hgas : gasleft.toNat ≤ startGas.toNat)
    (hspent : startGas.toNat - gasleft.toNat + REFUND_BASE_GAS < 2 ^ 256) (origin : Address)
    (acceptsETH : Bool) :
    (uncheckedRefundAmount startGas gasleft basefee gasprice balance).toNat =
      refundAmount ⟨origin, basefee.toNat, gasprice.toNat, startGas.toNat - gasleft.toNat,
        acceptsETH⟩ balance.toNat := by
  have hbase : (minWord basefee (BitVec.ofNat 256 MAX_REFUND_BASE_FEE)).toNat =
      min basefee.toNat MAX_REFUND_BASE_FEE := minWord_toNat ..
  have hsum : (minWord basefee (BitVec.ofNat 256 MAX_REFUND_BASE_FEE) +
      BitVec.ofNat 256 MAX_REFUND_PRIORITY_FEE).toNat =
      min basefee.toNat MAX_REFUND_BASE_FEE + MAX_REFUND_PRIORITY_FEE := by
    rw [add_toNat, hbase]
    · rfl
    · rw [hbase]
      apply lt_of_le_of_lt (Nat.add_le_add_right (Nat.min_le_right _ _) _)
      decide
  have hprice : (minWord gasprice (minWord basefee (BitVec.ofNat 256 MAX_REFUND_BASE_FEE) +
      BitVec.ofNat 256 MAX_REFUND_PRIORITY_FEE)).toNat =
      min gasprice.toNat (min basefee.toNat MAX_REFUND_BASE_FEE + MAX_REFUND_PRIORITY_FEE) := by
    rw [minWord_toNat, hsum]
  have hspentWord : (startGas - gasleft + BitVec.ofNat 256 REFUND_BASE_GAS).toNat =
      startGas.toNat - gasleft.toNat + REFUND_BASE_GAS := by
    rw [add_toNat, sub_toNat hgas]
    · rfl
    · rw [sub_toNat hgas]
      exact hspent
  have hused : (minWord (startGas - gasleft + BitVec.ofNat 256 REFUND_BASE_GAS)
      (BitVec.ofNat 256 MAX_REFUND_GAS_USED)).toNat =
      min (startGas.toNat - gasleft.toNat + REFUND_BASE_GAS) MAX_REFUND_GAS_USED := by
    rw [minWord_toNat, hspentWord]
    rfl
  show (minWord _ balance).toNat = _
  rw [minWord_toNat, mul_toNat (m := MAX_REFUND_BASE_FEE + MAX_REFUND_PRIORITY_FEE)
    (n := MAX_REFUND_GAS_USED), hprice, hused]
  · rfl
  · rw [hprice]
    apply (Nat.min_le_right _ _).trans
    exact Nat.add_le_add_right (Nat.min_le_right _ _) _
  · rw [hused]
    exact Nat.min_le_right _ _
  · decide

theorem refundAmount_le (tx : TxContext) (balance : Nat) :
    refundAmount tx balance ≤ balance ∧ refundAmount tx balance ≤ MAX_REFUND := by
  apply And.intro
  · exact Nat.min_le_right _ _
  · apply (Nat.min_le_left _ _).trans
    apply Nat.mul_le_mul
    · apply (Nat.min_le_right _ _).trans
      exact Nat.add_le_add_right (Nat.min_le_right _ _) _
    · exact Nat.min_le_right _ _

/-! ## One vote -/

namespace StorageV3

variable {ds ds' : StorageV3 H} {env : Env H} {voter : Address} {id support votes : Nat}

/-- Only who has no receipt votes, and the receipt holds the votes that were cast. -/
theorem castVoteInternal_receipt
    (h : ds.castVoteInternal env voter id support = .ok (ds', votes)) :
    ((ds.proposals id).receipts voter).hasVoted = false ∧
    ∃ side, (ds'.proposals id).receipts voter = ⟨true, side, votes⟩ := by
  simp only [castVoteInternal, bind_eq_ok] at h
  obtain ⟨state, -, h⟩ := h
  split at h
  · simp only [castVoteDuringVotingPeriodInternal, bind_eq_ok, require_eq_ok, pure_eq_ok,
      Prod.mk.injEq] at h
    obtain ⟨_, -, _, hvoted, votes, -, _, -, _, -, ds₁, -, rfl, rfl⟩ := h
    refine ⟨hvoted, support, ?_⟩
    simp [setProposal, setReceipt]
  · split at h
    · simp only [bind_eq_ok, castObjectionInternal, require_eq_ok, pure_eq_ok, Prod.mk.injEq] at h
      obtain ⟨_, -, _, hvoted, votes, -, rfl, rfl⟩ := h
      refine ⟨hvoted, 0, ?_⟩
      simp [setProposal, setReceipt]
    · simp at h

end StorageV3

/-- The two calls that vote and ask for a refund. -/
def DAOCall.refundable (id support : Nat) : Option String → DAOCall
  | none => .castRefundableVote id support
  | some reason => .castRefundableVoteWithReason id support reason

namespace World

variable {d : Deployment H} {w w' w₁ w₂ : World H} {tx : TxContext}

/-- What `_refundGas` makes of a state. -/
inductive Refunding (d : Deployment H) (tx : TxContext) (w : World H) : World H → Prop
  | nothing : w.eth d.dao = 0 → Refunding d tx w w
  | sent (eth : Address → Nat) : w.eth d.dao ≠ 0 → Refunding d tx w
      (({ w with eth } : World H).callOut tx.origin
        (.refundGas tx.origin (refundAmount tx (w.eth d.dao))))
  | refused : w.eth d.dao ≠ 0 → Refunding d tx w
      (w.emit (.RefundableVote tx.origin (refundAmount tx (w.eth d.dao)) false))

/-- A call that `_refundGas` leaves in progress only has an event to emit. -/
theorem Refunding.same (h : Refunding d tx w w') :
    (∃ eth frames log, w' = { w with dao := { w.dao with log }, eth, frames }) ∧
    (w'.frames = w.frames ∨ ∃ amount, w'.dao = w.dao ∧
      w'.frames = ⟨tx.origin, none, .refundGas tx.origin amount⟩ :: w.frames) := by
  cases h with
  | nothing hzero => exact ⟨⟨_, _, _, rfl⟩, .inl rfl⟩
  | sent eth hpos => exact ⟨⟨eth, _, _, rfl⟩, .inr ⟨_, rfl, rfl⟩⟩
  | refused hpos => exact ⟨⟨_, _, _, rfl⟩, .inl rfl⟩

/-- `_refundGas` never reverts: it sends no more than the DAO has. -/
theorem refundGas_ok (d : Deployment H) (tx : TxContext) (w : World H) :
    ∃ w', w.refundGas d tx = .ok w' ∧ Refunding d tx w w' := by
  unfold refundGas
  by_cases hbalance : w.eth d.dao = 0
  · refine ⟨w, ?_, .nothing hbalance⟩
    simp only [hbalance, if_true]
    rfl
  · by_cases haccepts : tx.acceptsETH = true
    · have hle : refundAmount tx (w.eth d.dao) ≤ w.eth d.dao := (refundAmount_le _ _).1
      have hsend : ∃ eth, w.sendValue d.dao tx.origin (refundAmount tx (w.eth d.dao)) =
          .ok { w with eth } := by
        unfold sendValue
        simp only [require, if_pos hle]
        exact ⟨_, rfl⟩
      obtain ⟨eth, hsend⟩ := hsend
      refine ⟨_, ?_, .sent eth hbalance⟩
      simp only [hbalance, if_false, haccepts, if_true, hsend]
      rfl
    · refine ⟨_, ?_, .refused hbalance⟩
      simp only [hbalance, if_false, haccepts]
      rfl

variable [DecidableEq H] {sender : Account} {id support votes : Nat} {reason : Option String} {e : Revert}
  {ds : StorageV3 H}

/-- The state after a vote and its event. -/
def afterVote (w : World H) (ds : StorageV3 H) (voter : Address) (id support votes : Nat)
    (reason : String) : World H :=
  { w with dao := ds.emit (.VoteCast voter id support votes reason) }

theorem callDAO_refundable_error
    (h : w.dao.castVoteInternal (w.env d) sender id support = .error e) :
    w.callDAO d tx sender (.refundable id support reason) = .error e ∧
    w.callDAO d tx sender (.castVote id support) = .error e := by
  apply And.intro
  · cases reason with
    | none =>
      show w.castRefundableVoteInternal d tx sender id support "" = _
      rw [castRefundableVoteInternal, h]
      rfl
    | some reason =>
      show w.castRefundableVoteInternal d tx sender id support reason = _
      rw [castRefundableVoteInternal, h]
      rfl
  · show w.withStorage (w.dao.castVoteWithReason (w.env d) sender id support "") = _
    rw [StorageV3.castVoteWithReason, h]
    rfl

omit [DecidableEq H] in
theorem castRefundableVoteInternal_ok (tx : TxContext) (reason : String)
    (h : w.dao.castVoteInternal (w.env d) sender id support = .ok (ds, votes)) :
    ∃ w', w.castRefundableVoteInternal d tx sender id support reason = .ok w' ∧
      (0 < votes ∧ Refunding d tx (w.afterVote ds sender id support votes reason) w' ∨
        votes = 0 ∧ w' = w.afterVote ds sender id support votes reason) := by
  by_cases hvotes : 0 < votes
  · obtain ⟨w', hrefund, hrefunding⟩ :=
      refundGas_ok d tx (w.afterVote ds sender id support votes reason)
    refine ⟨w', ?_, .inl ⟨hvotes, hrefunding⟩⟩
    rw [castRefundableVoteInternal, h, ← hrefund]
    exact if_pos hvotes
  · refine ⟨_, ?_, .inr ⟨Nat.eq_zero_of_not_pos hvotes, rfl⟩⟩
    rw [castRefundableVoteInternal, h]
    exact if_neg hvotes

/-- A refundable vote is the vote, its event, and the refund if the vote weighs anything. -/
theorem callDAO_refundable_ok (tx : TxContext) (reason : Option String)
    (h : w.dao.castVoteInternal (w.env d) sender id support = .ok (ds, votes)) :
    ∃ w' text, w.callDAO d tx sender (.refundable id support reason) = .ok w' ∧
      (0 < votes ∧ Refunding d tx (w.afterVote ds sender id support votes text) w' ∨
        votes = 0 ∧ w' = w.afterVote ds sender id support votes text) := by
  cases reason with
  | none =>
    obtain ⟨w', hw', hrefund⟩ := castRefundableVoteInternal_ok tx "" h
    exact ⟨w', "", hw', hrefund⟩
  | some reason =>
    obtain ⟨w', hw', hrefund⟩ := castRefundableVoteInternal_ok tx reason h
    exact ⟨w', reason, hw', hrefund⟩

theorem callDAO_castVote_ok
    (h : w.dao.castVoteInternal (w.env d) sender id support = .ok (ds, votes)) :
    w.callDAO d tx sender (.castVote id support) =
      .ok (w.afterVote ds sender id support votes "") := by
  show w.withStorage (w.dao.castVoteWithReason (w.env d) sender id support "") = _
  rw [StorageV3.castVoteWithReason, h]
  rfl

/-- When the recipient of a refund has done nothing to the DAO, its return does no more than emit
an event. -/
theorem return_refund {amount : Nat} {frames : List Frame}
    (hframes : w.frames = ⟨tx.origin, none, .refundGas tx.origin amount⟩ :: frames)
    (forkTreasury forkToken : Address) :
    w.step d (.return_ forkTreasury forkToken) =
      .ok (({ w with frames } : World H).emit (.RefundableVote tx.origin amount true)) := by
  simp only [step, hframes]
  rfl

/-- Refundable votes are votes.  In every state they revert when `castVote` does, for the same
reason; otherwise they leave what it leaves, but for the log and the ETH sent, and so does the
return of the recipient if it has made no call that changes the DAO. -/
theorem refundable_votes_are_votes (d : Deployment H) (w : World H) (tx : TxContext)
    (sender : Account) (id support : Nat) (reason : Option String) :
    (∀ e, w.step d (.callDAO tx sender (.refundable id support reason)) = .error e ↔
      w.step d (.callDAO tx sender (.castVote id support)) = .error e) ∧
    ∀ w₁, w.step d (.callDAO tx sender (.castVote id support)) = .ok w₁ →
      ∃ w₂, w.step d (.callDAO tx sender (.refundable id support reason)) = .ok w₂ ∧
        (∃ eth frames log, w₂ = { w₁ with dao := { w₁.dao with log }, eth, frames }) ∧
        (w₂.frames = w₁.frames ∨ ∃ amount,
          w₂.frames = ⟨tx.origin, none, .refundGas tx.origin amount⟩ :: w₁.frames ∧
          ∀ (w₃ : World H) forkTreasury forkToken, w₃.dao = w₂.dao → w₃.frames = w₂.frames →
            ∃ w₄ : World H, w₃.step d (.return_ forkTreasury forkToken) = .ok w₄ ∧
              w₄.frames = w₁.frames ∧ ∃ log, w₄.dao = { w₁.dao with log }) := by
  cases henter : w.enter d sender d.dao with
  | error e =>
    -- Neither call gets in.
    have hstep : ∀ call, w.step d (.callDAO tx sender call) = .error e := by
      intro call
      simp only [step, henter]
      rfl
    rw [hstep, hstep]
    refine ⟨fun e' => Iff.rfl, ?_⟩
    intro w₁ h
    cases h
  | ok u =>
    have hstep : ∀ call, w.step d (.callDAO tx sender call) = u.callDAO d tx sender call := by
      intro call
      simp only [step, henter]
      rfl
    rw [hstep, hstep]
    cases hcast : u.dao.castVoteInternal (u.env d) sender id support with
    | error e =>
      have hreverts : u.callDAO d tx sender (.refundable id support reason) = .error e ∧
          u.callDAO d tx sender (.castVote id support) = .error e :=
        callDAO_refundable_error hcast
      rw [hreverts.1, hreverts.2]
      refine ⟨fun e' => Iff.rfl, ?_⟩
      intro w₁ h
      cases h
    | ok r =>
      obtain ⟨ds, votes⟩ := r
      obtain ⟨w₂, text, hw₂, hrefund⟩ := callDAO_refundable_ok tx reason hcast
      rw [callDAO_castVote_ok hcast, hw₂]
      refine ⟨fun e' => by simp, ?_⟩
      rintro w₁ ⟨⟩
      refine ⟨w₂, rfl, ?_⟩
      rcases hrefund with ⟨-, hrefunding⟩ | ⟨-, rfl⟩
      · obtain ⟨⟨eth, frames, log, hsame⟩, hframes⟩ := hrefunding.same
        refine ⟨⟨eth, frames, log, hsame⟩, ?_⟩
        rcases hframes with hframes | ⟨amount, hdao, hframes⟩
        · exact .inl hframes
        · refine .inr ⟨amount, hframes, ?_⟩
          intro w₃ forkTreasury forkToken hdao₃ hframes₃
          refine ⟨_, return_refund (hframes₃.trans hframes) _ _, rfl, ?_⟩
          show ∃ log, w₃.dao.emit _ = _
          rw [hdao₃, hdao]
          exact ⟨_, rfl⟩
      · exact ⟨⟨_, _, _, rfl⟩, .inl rfl⟩

/-! ## Runs -/

omit [DecidableEq H] in
theorem Entered.length {sender : Address} {frames : List Frame} (h : w.Entered d sender frames) :
    frames.length = w.frames.length := by
  cases h with
  | outside => rfl
  | frame f rest hframes =>
    rw [hframes]
    rfl

/-- The vote in a refundable vote that returned. -/
theorem step_refundable {reason : Option String}
    (h : w.step d (.callDAO tx sender (.refundable id support reason)) = .ok w') :
    ∃ frames ds votes text, frames.length = w.frames.length ∧
      w.dao.castVoteInternal (w.env d) sender id support = .ok (ds, votes) ∧
      (0 < votes ∧ Refunding d tx
        (({ w with frames } : World H).afterVote ds sender id support votes text) w' ∨
      votes = 0 ∧ w' = ({ w with frames } : World H).afterVote ds sender id support votes text) := by
  simp only [step, bind_eq_ok] at h
  obtain ⟨u, henter, hcall⟩ := h
  obtain ⟨frames, hentered, rfl⟩ := enter_entered henter
  cases hcast : w.dao.castVoteInternal (w.env d) sender id support with
  | error e =>
    have hvote : ({ w with frames } : World H).dao.castVoteInternal
        (({ w with frames } : World H).env d) sender id support = .error e := hcast
    have hreverts : ({ w with frames } : World H).callDAO d tx sender
        (.refundable id support reason) = .error e := (callDAO_refundable_error hvote).1
    rw [hreverts] at hcall
    cases hcall
  | ok r =>
    obtain ⟨ds, votes⟩ := r
    have hvote : ({ w with frames } : World H).dao.castVoteInternal
        (({ w with frames } : World H).env d) sender id support = .ok (ds, votes) := hcast
    obtain ⟨w₂, text, hw₂, hvoted⟩ := callDAO_refundable_ok tx reason hvote
    rw [hw₂] at hcall
    cases hcall
    exact ⟨frames, ds, votes, text, hentered.length, rfl, hvoted⟩

/-- The step from `w` to `w'` is a vote of `voter` on proposal `id` that sends `amount` to the
origin of `tx`, or tries to. -/
structure Refunds (d : Deployment H) (tx : TxContext) (voter : Account) (id amount : Nat)
    (w w' : World H) : Prop where
  vote : ∃ support reason, w.step d (.callDAO tx voter (.refundable id support reason)) = .ok w'
  refund : w.frames.length < w'.frames.length ∧
      w'.frames.head? = some ⟨tx.origin, none, .refundGas tx.origin amount⟩ ∨
    w'.dao.log.head? = some (.RefundableVote tx.origin amount false)

/-- A refundable vote that is still in progress when it has voted is paying a refund. -/
theorem refunds_of_frames {reason : Option String}
    (h : w.step d (.callDAO tx sender (.refundable id support reason)) = .ok w')
    (hlt : w.frames.length < w'.frames.length) : ∃ amount, Refunds d tx sender id amount w w' := by
  obtain ⟨frames, ds, votes, text, hlength, -, hvoted⟩ := step_refundable h
  rcases hvoted with ⟨-, hrefunding⟩ | ⟨-, rfl⟩
  · rcases hrefunding.same.2 with hframes | ⟨amount, -, hframes⟩
    · rw [hframes] at hlt
      change w.frames.length < frames.length at hlt
      omega
    · refine ⟨amount, ⟨support, reason, h⟩, .inl ⟨hlt, ?_⟩⟩
      rw [hframes]
      rfl
  · change w.frames.length < frames.length at hlt
    omega

/-- The vote that makes a step a refund. -/
theorem Refunds.vote_ok {voter : Account} {amount : Nat} (h : Refunds d tx voter id amount w w') :
    ∃ support ds votes, w.dao.castVoteInternal (w.env d) voter id support = .ok (ds, votes) ∧
      w'.dao.proposals = ds.proposals ∧ 0 < votes ∧ amount = refundAmount tx (w.eth d.dao) := by
  obtain ⟨⟨support, reason, hstep⟩, hrefund⟩ := h
  obtain ⟨frames, ds, votes, text, hlength, hcast, hvoted⟩ := step_refundable hstep
  refine ⟨support, ds, votes, hcast, ?_⟩
  rcases hvoted with ⟨hvotes, hrefunding⟩ | ⟨-, rfl⟩
  · cases hrefunding with
    | nothing hzero =>
      -- The DAO has nothing to send, and the last event is the vote.
      exfalso
      rcases hrefund with ⟨hlt, -⟩ | hevent
      · change w.frames.length < frames.length at hlt
        omega
      · simp [afterVote, StorageV3.emit] at hevent
    | sent eth hpos =>
      refine ⟨rfl, hvotes, ?_⟩
      rcases hrefund with ⟨-, hhead⟩ | hevent
      · simp only [callOut, List.head?_cons, Option.some.injEq, Frame.mk.injEq,
          Continuation.refundGas.injEq, true_and] at hhead
        exact hhead.symm
      · simp [afterVote, callOut, StorageV3.emit] at hevent
    | refused hpos =>
      refine ⟨rfl, hvotes, ?_⟩
      rcases hrefund with ⟨hlt, -⟩ | hevent
      · change w.frames.length < frames.length at hlt
        omega
      · simp only [emit, afterVote, StorageV3.emit, List.head?_cons, Option.some.injEq,
          DAOEvent.RefundableVote.injEq, true_and, and_true] at hevent
        exact hevent.symm
  · exfalso
    rcases hrefund with ⟨hlt, -⟩ | hevent
    · change w.frames.length < frames.length at hlt
      omega
    · simp [afterVote, StorageV3.emit] at hevent

/-- Whatever happens between two votes, calls from the recipient of a refund included: a voter is
refunded once for a proposal, only for a vote that weighs something, with no more than the DAO has
and `MAX_REFUND`, and the unchecked computation of the amount does not wrap around. -/
theorem refunded_once {voter : Account} {amount : Nat} (h : Refunds d tx voter id amount w w') :
    0 < ((w'.dao.proposals id).receipts voter).votes ∧
    amount ≤ w.eth d.dao ∧ amount ≤ MAX_REFUND ∧
    (∀ startGas gasleft basefee gasprice balance : BitVec 256, gasleft.toNat ≤ startGas.toNat →
      tx.gasSpent = startGas.toNat - gasleft.toNat → tx.gasSpent + REFUND_BASE_GAS < 2 ^ 256 →
      tx.basefee = basefee.toNat → tx.gasprice = gasprice.toNat → w.eth d.dao = balance.toNat →
      (uncheckedRefundAmount startGas gasleft basefee gasprice balance).toNat = amount) ∧
    ∀ w₁ w₂ tx' amount', Relation.ReflTransGen (NextAny d) w' w₁ →
      ¬ Refunds d tx' voter id amount' w₁ w₂ := by
  obtain ⟨support, ds, votes, hvote, hproposals, hpos, hamount⟩ := h.vote_ok
  obtain ⟨-, side, hreceipt⟩ := StorageV3.castVoteInternal_receipt hvote
  rw [← hproposals] at hreceipt
  obtain ⟨hbalance, hmax⟩ := refundAmount_le tx (w.eth d.dao)
  rw [← hamount] at hbalance hmax
  refine ⟨?_, hbalance, hmax, ?_, ?_⟩
  · rw [hreceipt]
    exact hpos
  · intro startGas gasleft basefee gasprice balance hgas hspent hsmall hbase hprice hbalance
    rw [hspent] at hsmall
    rw [uncheckedRefundAmount_toNat hgas hsmall tx.origin tx.acceptsETH, ← hspent, ← hbase,
      ← hprice, ← hbalance, hamount]
  · intro w₁ w₂ tx' amount' hsteps hagain
    obtain ⟨support', ds', votes', hvote', -⟩ := hagain.vote_ok
    obtain ⟨hnot, -⟩ := StorageV3.castVoteInternal_receipt hvote'
    -- The receipt of the first vote is still there.
    have hkept : (w₁.dao.proposals id).receipts voter = (w'.dao.proposals id).receipts voter := by
      apply steps_preserve (P := fun w₁ => (w₁.dao.proposals id).receipts voter =
        (w'.dao.proposals id).receipts voter) hsteps rfl
      intro u v hsame hn
      refine (hn.storeStep.receipt ?_).trans hsame
      show ((u.dao.proposals id).receipts voter).hasVoted = true
      rw [hsame, hreceipt]
    rw [hkept, hreceipt] at hnot
    cases hnot

/-- 7 is refunded 360000 wei for a vote at 10 wei for the gas, and never again. -/
theorem refunded_once_of_vote :
    ∃ w w' : World Preimage, Refunds .sample ⟨5, 10, 10, 0, true⟩ .minter 1 360000 w w' ∧
      ∀ w₁ w₂ tx amount, Relation.ReflTransGen (NextAny .sample) w' w₁ →
        ¬ Refunds .sample tx .minter 1 amount w₁ w₂ := by
  have hrun : Yields (World.sample.run .sample (fun _ _ _ => True)
      [.callToken .minter .mint, .advance 2 2, .ofDAO .minter (.propose .sample ""),
        .advance 4 4]) (fun w => w.frames.length = 0 ∧ w.eth 100 = 10 ^ 18 ∧
      Yields (w.step .sample (.callDAO ⟨5, 10, 10, 0, true⟩ .minter (.castRefundableVote 1 1)))
        (fun w' => w'.frames.length = 1)) := by
    decide +kernel
  obtain ⟨w, -, hframes, heth, w', hvote, hframes'⟩ := hrun
  have hstep : w.step .sample (.callDAO ⟨5, 10, 10, 0, true⟩ .minter (.refundable 1 1 none)) =
      .ok w' := hvote
  have hlt : w.frames.length < w'.frames.length := by omega
  obtain ⟨amount, hrefunds⟩ := refunds_of_frames hstep hlt
  have hamount : amount = 360000 := by
    obtain ⟨_, _, _, _, _, _, hamount⟩ := hrefunds.vote_ok
    rw [hamount, show w.eth Deployment.sample.dao = 10 ^ 18 from heth]
    decide
  subst hamount
  exact ⟨w, w', hrefunds, (refunded_once hrefunds).2.2.2.2⟩

end World

end Nouns
