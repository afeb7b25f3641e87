import Nouns.Governance.EscrowSteps
import Nouns.Lib.ProRata

/-!
# Payouts — `executeFork` and `joinFork` from beginning to end

A call that pays the fork calls out once for every asset.  Here nothing happens meanwhile: the code
called, each time, just returns.  `PaidUpTo` follows the loop over the ERC20 tokens; what a whole
call does is read off where the loop ends.
-/

open Fallible ProRata

namespace Nouns

variable {H : Type}

inductive Asset
  | ETH
  | ERC20 (token : Address)
deriving DecidableEq

namespace World

def balance (w : World H) : Asset → Address → Nat
  | .ETH, a => w.eth a
  | .ERC20 token, a => w.erc20 token a

/-- The assets that a fork gets a part of. -/
def Splits (w : World H) : Asset → Prop
  | .ETH => True
  | .ERC20 token => token ∈ w.dao.erc20TokensToIncludeInFork

section Unwinding

variable [DecidableEq H] (d : Deployment H)

/-- The outside code in control returns, until `depth` calls are in progress. -/
inductive Unwinds (depth : Nat) : World H → World H → Prop
  | done {w : World H} : w.frames.length = depth → Unwinds depth w w
  | return_ {w w' w'' : World H} (forkTreasury forkToken : Address) : w.frames.length ≠ depth →
      w.step d (.return_ forkTreasury forkToken) = .ok w' → Unwinds depth w' w'' →
      Unwinds depth w w''

/-- A whole call of the DAO that calls out: it pushes a frame, and is over when that is off the
stack again. -/
def Completes (sender : Account) (call : DAOCall) (w w' : World H) : Prop :=
  ∃ tx w₁, w.step d (.callDAO tx sender call) = .ok w₁ ∧ Unwinds d (w₁.frames.length - 1) w₁ w'

end Unwinding

/-! ## One transfer -/

variable {d : Deployment H} {w v v' : World H}

theorem sendValue_balance {from_ to_ : Address} {amount : Nat}
    (h : w.sendValue from_ to_ amount = .ok v) :
    (∃ eth, v = { w with eth }) ∧
      v.eth from_ = if to_ = from_ then w.eth from_ else w.eth from_ - amount := by
  simp only [sendValue, bind_eq_ok, require_eq_ok, pure_eq_ok] at h
  obtain ⟨_, hle, rfl⟩ := h
  refine ⟨⟨_, rfl⟩, ?_⟩
  by_cases heq : to_ = from_
  · subst heq
    simp only [Function.update_self, if_true]
    omega
  · simp only [Function.update_of_ne (Ne.symm heq), Function.update_self, if_neg heq]

theorem sendToken_balance {token from_ to_ : Address} {amount : Nat}
    (h : w.sendToken token from_ to_ amount = .ok v) :
    (∃ erc20, v = { w with erc20 }) ∧
      (∀ token', token' ≠ token → v.erc20 token' = w.erc20 token') ∧
      v.erc20 token from_ =
        if to_ = from_ then w.erc20 token from_ else w.erc20 token from_ - amount := by
  simp only [sendToken, bind_eq_ok, require_eq_ok, pure_eq_ok] at h
  obtain ⟨_, hle, rfl⟩ := h
  refine ⟨⟨_, rfl⟩, fun token' hne => Function.update_of_ne hne _ _, ?_⟩
  by_cases heq : to_ = from_
  · subst heq
    simp only [Function.update_self, if_true]
    omega
  · simp only [Function.update_of_ne (Ne.symm heq), Function.update_self, if_neg heq]

end World

/-- What is left of `balance` after the payout. -/
def Payout.rest (payout : Payout) (balance : Nat) : Nat :=
  if payout.newDAOTreasury = payout.timelock then balance
  else balance - share balance payout.tokenCount payout.totalSupply

namespace World

variable {d : Deployment H} {w v v' : World H} {payout : Payout}

/-- ETH and the first `i` tokens of the list were paid, and nothing else happened. -/
structure PaidUpTo (payout : Payout) (w : World H) (i : Nat) (v : World H) : Prop where
  same : ∃ executors eth erc20 frames, v = { w with executors, eth, erc20, frames }
  eth : v.eth payout.timelock = payout.rest (w.eth payout.timelock)
  paid : ∀ token ∈ w.dao.erc20TokensToIncludeInFork.take i,
    v.erc20 token payout.timelock = payout.rest (w.erc20 token payout.timelock)
  unpaid : ∀ token, token ∉ w.dao.erc20TokensToIncludeInFork.take i →
    v.erc20 token payout.timelock = w.erc20 token payout.timelock

theorem PaidUpTo.dao {i : Nat} (h : PaidUpTo payout w i v) : v.dao = w.dao := by
  obtain ⟨executors, eth, erc20, frames, rfl⟩ := h.same
  rfl

theorem PaidUpTo.setExecutor {i : Nat} (h : PaidUpTo payout w i v) (a : Address) (e : Executor H) :
    PaidUpTo payout w i (v.setExecutor a e) := by
  refine ⟨?_, h.eth, h.paid, h.unpaid⟩
  obtain ⟨executors, eth, erc20, frames, rfl⟩ := h.same
  exact ⟨_, _, _, _, rfl⟩

/-- The next token of the list is paid; a share of zero is not sent. -/
theorem PaidUpTo.succ {i : Nat} {token : Address} (h : PaidUpTo payout w i v)
    (hnodup : w.dao.erc20TokensToIncludeInFork.Nodup)
    (htoken : w.dao.erc20TokensToIncludeInFork[i]? = some token)
    (hsame : ∃ erc20, v' = { v with erc20 })
    (hothers : ∀ token', token' ≠ token → v'.erc20 token' = v.erc20 token')
    (hrest : v'.erc20 token payout.timelock = payout.rest (v.erc20 token payout.timelock)) :
    PaidUpTo payout w (i + 1) v' := by
  have htake : w.dao.erc20TokensToIncludeInFork.take (i + 1) =
      w.dao.erc20TokensToIncludeInFork.take i ++ [token] := by
    rw [List.take_add_one, htoken]
    rfl
  have hnew : token ∉ w.dao.erc20TokensToIncludeInFork.take i := by
    have hnodup' := hnodup.sublist (List.take_sublist (i + 1) _)
    rw [htake] at hnodup'
    intro hmem
    exact List.disjoint_of_nodup_append hnodup' hmem (List.mem_singleton.mpr rfl)
  obtain ⟨erc20, rfl⟩ := hsame
  refine ⟨?_, h.eth, ?_, ?_⟩
  · obtain ⟨executors, eth, erc20', frames, rfl⟩ := h.same
    exact ⟨_, _, _, _, rfl⟩
  · rw [htake]
    intro token' hmem
    by_cases heq : token' = token
    · subst heq
      rw [hrest, h.unpaid _ hnew]
    · rw [hothers token' heq]
      refine h.paid token' ?_
      simpa [heq] using hmem
  · rw [htake]
    intro token' hmem
    simp only [List.mem_append, List.mem_singleton, not_or] at hmem
    rw [hothers token' hmem.2]
    exact h.unpaid token' hmem.1

/-! ## The loop -/

/-- The loop stops at a transfer, or goes on to the end. -/
theorem PaidUpTo.payERC20 {erc20Count remaining : Nat}
    (hnodup : w.dao.erc20TokensToIncludeInFork.Nodup)
    (hcount : erc20Count = w.dao.erc20TokensToIncludeInFork.length)
    (hremaining : remaining ≤ erc20Count) (h : PaidUpTo payout w (erc20Count - remaining) v)
    (hpay : v.payERC20 d payout erc20Count remaining = .ok v') :
    (∃ r u token amount, r < remaining ∧ PaidUpTo payout w (erc20Count - r) u ∧
      u.frames = v.frames ∧ v' = u.callOut token (.sendERC20 payout erc20Count r token amount)) ∨
    (PaidUpTo payout w erc20Count v ∧ v.endPayout d payout = .ok v') := by
  induction remaining with
  | zero => exact .inr ⟨h, hpay⟩
  | succ r ih =>
    simp only [World.payERC20] at hpay
    have hindex : erc20Count - r = erc20Count - (r + 1) + 1 := by omega
    split at hpay
    · exact absurd hpay throw_ne_ok
    · rename_i token htoken
      rw [h.dao] at htoken
      split at hpay
      · rename_i hamount
        simp only [bind_eq_ok, pure_eq_ok] at hpay
        obtain ⟨_, -, u, hsend, rfl⟩ := hpay
        obtain ⟨hsame, hothers, hrest⟩ := sendToken_balance hsend
        refine .inl ⟨r, u, token, _, Nat.lt_succ_self r, ?_, ?_, rfl⟩
        · rw [hindex]
          exact h.succ hnodup htoken hsame hothers hrest
        · obtain ⟨erc20, rfl⟩ := hsame
          rfl
      · rename_i hamount
        have hzero : payout.rest (v.erc20 token payout.timelock) =
            v.erc20 token payout.timelock := by
          simp only [Payout.rest, share, Nat.eq_zero_of_not_pos hamount, Nat.sub_zero, ite_self]
        have hnext : PaidUpTo payout w (erc20Count - r) v := by
          rw [hindex]
          exact h.succ hnodup htoken ⟨_, rfl⟩ (fun _ _ => rfl) hzero.symm
        rcases ih (by omega) hnext hpay with ⟨r', u, token', amount, hr', hrest⟩ | hend
        · exact .inl ⟨r', u, token', amount, Nat.lt_succ_of_lt hr', hrest⟩
        · exact .inr hend

/-! ## Whole calls -/

section Calls

variable [DecidableEq H] {depth : Nat} {w' : World H}

/-- A frame that is on top has to return first. -/
theorem Unwinds.of_callOut {callee : Address} {k : Continuation} (hframes : v.frames.length = depth)
    (h : Unwinds d depth (v.callOut callee k) w') :
    ∃ forkTreasury forkToken v', v.resume d forkTreasury forkToken k = .ok v' ∧
      Unwinds d depth v' w' := by
  generalize hu : v.callOut callee k = u at h
  cases h with
  | done hdone =>
    rw [← hu, callOut, List.length_cons, hframes] at hdone
    exact absurd hdone (Nat.succ_ne_self depth)
  | return_ forkTreasury forkToken _ hstep hrest =>
    rw [← hu] at hstep
    exact ⟨forkTreasury, forkToken, _, hstep, hrest⟩

theorem Unwinds.of_done (hframes : v.frames.length = depth) (h : Unwinds d depth v w') : w' = v := by
  cases h with
  | done _ => rfl
  | return_ _ _ hne _ _ => exact absurd hframes hne

theorem Unwinds.of_payERC20 {erc20Count remaining : Nat}
    (hnodup : w.dao.erc20TokensToIncludeInFork.Nodup)
    (hcount : erc20Count = w.dao.erc20TokensToIncludeInFork.length)
    (hremaining : remaining ≤ erc20Count) (hpaid : PaidUpTo payout w (erc20Count - remaining) v)
    (hframes : v.frames.length = depth) (hpay : v.payERC20 d payout erc20Count remaining = .ok v')
    (h : Unwinds d depth v' w') :
    ∃ u u', PaidUpTo payout w erc20Count u ∧ u.frames.length = depth ∧ u.endPayout d payout = .ok u' ∧
      Unwinds d depth u' w' := by
  induction remaining using Nat.strong_induction_on generalizing v v' with
  | h remaining ih =>
    rcases hpaid.payERC20 hnodup hcount hremaining hpay with
      ⟨r, u, token, amount, hr, hu, huframes, rfl⟩ | ⟨hend, hpayout⟩
    · rw [← huframes] at hframes
      obtain ⟨_, _, u', hresume, hrest⟩ := h.of_callOut hframes
      exact ih r hr (by omega) (hu.setExecutor _ _) hframes hresume hrest
    · exact ⟨v, v', hend, hframes, hpayout, h⟩

theorem Unwinds.of_sendProRataTreasury (hnodup : w.dao.erc20TokensToIncludeInFork.Nodup)
    (hsame : ∃ frames, v = { w with frames }) (hframes : v.frames.length = depth)
    (hpay : v.sendProRataTreasury d payout = .ok v') (h : Unwinds d depth v' w') :
    ∃ u u', PaidUpTo payout w w.dao.erc20TokensToIncludeInFork.length u ∧ u.frames.length = depth ∧
      u.endPayout d payout = .ok u' ∧ Unwinds d depth u' w' := by
  obtain ⟨frames, rfl⟩ := hsame
  simp only [sendProRataTreasury, bind_eq_ok, pure_eq_ok] at hpay
  obtain ⟨_, -, _, -, u, hsend, rfl⟩ := hpay
  obtain ⟨hsame, heth⟩ := sendValue_balance hsend
  -- ETH is paid, and the loop starts
  have hpaid : PaidUpTo payout w 0 u ∧ u.frames.length = depth := by
    obtain ⟨eth, rfl⟩ := hsame
    exact ⟨⟨⟨_, _, _, _, rfl⟩, heth, by simp, by simp⟩, hframes⟩
  obtain ⟨_, _, u', hresume, hrest⟩ := h.of_callOut hpaid.2
  have hdao : w.dao.erc20TokensToIncludeInFork.length = u.dao.erc20TokensToIncludeInFork.length := by
    rw [hpaid.1.dao]
  rw [hdao]
  refine Unwinds.of_payERC20 (v := u.setExecutor _ _) hnodup hdao.symm (Nat.le_refl _) ?_ hpaid.2
    hresume hrest
  rw [Nat.sub_self]
  exact hpaid.1.setExecutor _ _

end Calls

end World

end Nouns
