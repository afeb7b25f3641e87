import Nouns.Governance.EscrowSteps

/-!
# ClosedForks — the records of a fork that is over

The escrow writes records for its current fork only.  Once it is closed, what it recorded stays, in
every run and whatever addresses the DAO uses from then on.
-/

open Fallible Transition

namespace Nouns

variable {H : Type}

namespace ForkEscrow

/-- No record of an earlier fork changed. -/
structure Later (e e' : ForkEscrow) : Prop where
  forkId_le : e.forkId ≤ e'.forkId
  records : ∀ f, f < e.forkId → e'.escrowedTokensByForkId f = e.escrowedTokensByForkId f

theorem Later.refl (e : ForkEscrow) : Later e e := ⟨Nat.le_refl _, fun _ _ => rfl⟩

theorem Later.trans {e₁ e₂ e₃ : ForkEscrow} (h : Later e₁ e₂) (h' : Later e₂ e₃) :
    Later e₁ e₃ := by
  refine ⟨Nat.le_trans h.forkId_le h'.forkId_le, ?_⟩
  intro f hf
  rw [h'.records f (Nat.lt_of_lt_of_le hf h.forkId_le), h.records f hf]

theorem later_setEscrowed (e : ForkEscrow) (tokenId : Nat) (owner : Address) :
    Later e (e.setEscrowed tokenId owner) := by
  refine ⟨Nat.le_refl _, ?_⟩
  intro f hf
  exact Function.update_of_ne (Nat.ne_of_lt hf) _ _

theorem later_closeEscrow (e : ForkEscrow) : Later e e.closeEscrow :=
  ⟨Nat.le_succ _, fun _ _ => rfl⟩

theorem later_onERC721Received {e e' : ForkEscrow} {dao operator from_ : Address} {tokenId : Nat}
    (h : e.onERC721Received dao operator from_ tokenId = .ok e') : Later e e' := by
  simp only [onERC721Received, bind_eq_ok, pure_eq_ok] at h
  obtain ⟨_, -, rfl⟩ := h
  obtain ⟨hle, hrecords⟩ := e.later_setEscrowed tokenId from_
  exact ⟨hle, hrecords⟩

theorem later_returnTokensToOwner {e e' : ForkEscrow} {proxies : Address → Address} {now : Nat}
    {dao this owner : Address} {nouns nouns' : NounsToken} {tokenIds : List Nat}
    (h : e.returnTokensToOwner proxies now dao this nouns owner tokenIds = .ok (e', nouns')) :
    Later e e' := by
  simp only [returnTokensToOwner, bind_eq_ok, pure_eq_ok] at h
  obtain ⟨⟨e₁, nouns₁⟩, hfold, _, -, hend⟩ := h
  cases hend
  have hlater : Later e e₁ := by
    refine foldlM_ok (P := fun s => Later e s.1) hfold (Later.refl e) ?_
    rintro tokenId - ⟨e₂, nouns₂⟩ v hlater hround
    simp only [bind_eq_ok, pure_eq_ok] at hround
    obtain ⟨_, -, _, -, rfl⟩ := hround
    exact hlater.trans (e₂.later_setEscrowed tokenId 0)
  exact ⟨hlater.forkId_le, hlater.records⟩

end ForkEscrow

namespace World

open ForkEscrow (Later)

variable {d : Deployment H} {w w' : World H}

/-- At every address, the records of earlier forks are as they were. -/
def KeepsRecords (w w' : World H) : Prop := ∀ a, Later (w.escrows a) (w'.escrows a)

theorem KeepsRecords.of_eq (h : w'.escrows = w.escrows) : KeepsRecords w w' := by
  intro a
  rw [h]
  exact Later.refl _

theorem KeepsRecords.of_update {a : Address} {e : ForkEscrow}
    (h : w'.escrows = Function.update w.escrows a e) (he : Later (w.escrows a) e) :
    KeepsRecords w w' := by
  intro b
  rw [h]
  by_cases hb : b = a
  · subst hb
    rw [Function.update_self]
    exact he
  · rw [Function.update_of_ne hb]
    exact Later.refl _

theorem KeepsRecords.of_quiet (h : ∀ a, Quiet d a w w') : KeepsRecords w w' :=
  .of_eq (funext (fun a => (h a).sameEscrow))

theorem escrowToFork_keepsRecords {sender : Address} {tokenIds proposalIds : List Nat}
    {reason : String} (h : w.escrowToFork d sender tokenIds proposalIds reason = .ok w') :
    KeepsRecords w w' := by
  simp only [escrowToFork, bind_eq_ok, pure_eq_ok] at h
  obtain ⟨_, -, ⟨nouns, e⟩, hfold, rfl⟩ := h
  refine .of_update (e := e) rfl ?_
  refine foldlM_ok (P := fun s => Later (w.escrows w.dao.forkEscrow) s.2) hfold (Later.refl _) ?_
  rintro tokenId - ⟨nouns₁, e₁⟩ v hlater hround
  simp only [bind_eq_ok, pure_eq_ok] at hround
  obtain ⟨_, -, e₂, hreceived, rfl⟩ := hround
  exact hlater.trans (ForkEscrow.later_onERC721Received hreceived)

theorem sendProRataTreasury_escrows {payout : Payout}
    (h : w.sendProRataTreasury d payout = .ok w') : w'.escrows = w.escrows := by
  simp only [sendProRataTreasury, bind_eq_ok, pure_eq_ok] at h
  obtain ⟨_, -, _, -, w₁, hsend, rfl⟩ := h
  exact (sendValue_quiet hsend).2.1

theorem payERC20_keepsRecords {payout : Payout} {erc20Count remaining : Nat}
    (h : w.payERC20 d payout erc20Count remaining = .ok w') : KeepsRecords w w' := by
  induction remaining with
  | zero =>
    simp only [payERC20, endPayout] at h
    split at h
    · rw [← pure_eq_ok.mp h]
      exact .of_update rfl (ForkEscrow.later_closeEscrow _)
    · simp only [joinForkTransfers, bind_eq_ok, pure_eq_ok] at h
      obtain ⟨_, -, rfl⟩ := h
      exact .of_eq rfl
  | succ remaining ih =>
    simp only [payERC20] at h
    split at h
    · exact absurd h throw_ne_ok
    · split at h
      · simp only [bind_eq_ok, pure_eq_ok] at h
        obtain ⟨_, -, w₁, hsend, rfl⟩ := h
        exact .of_eq (sendToken_quiet hsend).2.1
      · exact ih h

variable [DecidableEq H]

theorem executeFrom_escrows {id i : Nat} {timelock : Address}
    (h : w.executeFrom d id timelock i = .ok w') : w'.escrows = w.escrows := by
  simp only [executeFrom] at h
  split at h
  · simp only [bind_eq_ok, pure_eq_ok] at h
    obtain ⟨tx, -, e, -, w₁, hsend, rfl⟩ := h
    exact (sendValue_quiet hsend).2.1
  · rw [← pure_eq_ok.mp h]
    rfl

theorem callDAO_keepsRecords {tx : TxContext} {sender : Account} {call : DAOCall}
    (h : w.callDAO d tx sender call = .ok w') : KeepsRecords w w' := by
  cases call with
  | cancelSig sig =>
    rw [← pure_eq_ok.mp h]
    exact .of_eq rfl
  | queue id | cancel id | veto id =>
    simp only [callDAO] at h
    obtain ⟨ds, e, -, rfl⟩ := withTimelock_ok h
    exact .of_eq rfl
  | execute id | executeOnTimelockV1 id =>
    simp only [callDAO, executeInternal, bind_eq_ok] at h
    obtain ⟨_, -, _, -, _, -, h⟩ := h
    have hescrows := executeFrom_escrows h
    exact .of_eq hescrows
  | castRefundableVote id support | castRefundableVoteWithReason id support reason =>
    exact .of_quiet (fun _ => castRefundableVoteInternal_quiet h)
  | withdraw => exact .of_quiet (fun _ => withdraw_quiet h)
  | escrowToFork tokenIds proposalIds reason => exact escrowToFork_keepsRecords h
  | withdrawFromForkEscrow tokenIds =>
    simp only [callDAO, withdrawFromForkEscrow, bind_eq_ok, pure_eq_ok] at h
    obtain ⟨_, -, ⟨e, nouns⟩, hreturn, rfl⟩ := h
    exact .of_update (e := e) rfl (ForkEscrow.later_returnTokensToOwner hreturn)
  | executeFork =>
    simp only [callDAO, executeFork, bind_eq_ok, pure_eq_ok] at h
    obtain ⟨_, -, _, -, _, -, rfl⟩ := h
    exact .of_eq rfl
  | joinFork tokenIds proposalIds reason =>
    simp only [callDAO, joinFork, bind_eq_ok] at h
    obtain ⟨_, -, _, -, h⟩ := h
    exact .of_eq (sendProRataTreasury_escrows h)
  | withdrawDAONounsFromEscrowToTreasury tokenIds =>
    obtain ⟨-, nouns, log, -, rfl⟩ := withdrawDAONounsFromEscrow_ok h
    exact .of_eq rfl
  | withdrawDAONounsFromEscrowIncreasingTotalSupply tokenIds to_ =>
    simp only [callDAO, withdrawDAONounsFromEscrowIncreasingTotalSupply, bind_eq_ok,
      pure_eq_ok] at h
    obtain ⟨_, -, w₁, hw₁, rfl⟩ := h
    obtain ⟨-, nouns, log, -, rfl⟩ := withdrawDAONounsFromEscrow_ok hw₁
    exact .of_eq rfl
  | _ =>
    obtain ⟨ds, -, rfl⟩ := withStorage_ok h
    exact .of_eq rfl

theorem resume_keepsRecords {forkTreasury forkToken : Address} {k : Continuation}
    (h : w.resume d forkTreasury forkToken k = .ok w') : KeepsRecords w w' := by
  cases k with
  | executeInternal proposalId timelock i tx =>
    have hescrows := executeFrom_escrows h
    exact .of_eq hescrows
  | refundGas origin amount | withdraw amount =>
    rw [← pure_eq_ok.mp h]
    exact .of_eq rfl
  | deployForkDAO fork =>
    simp only [resume, bind_eq_ok] at h
    obtain ⟨_, -, h⟩ := h
    exact .of_eq (sendProRataTreasury_escrows h)
  | sendETH payout amount =>
    have hkeeps := payERC20_keepsRecords h
    exact hkeeps
  | sendERC20 payout erc20Count remaining erc20token amount =>
    have hkeeps := payERC20_keepsRecords h
    exact hkeeps
  | claimDuringForkPeriod join =>
    simp only [resume, bind_eq_ok, pure_eq_ok] at h
    obtain ⟨_, -, rfl⟩ := h
    exact .of_eq rfl

theorem step_keepsRecords {a : Action} (h : w.step d a = .ok w') : KeepsRecords w w' := by
  cases a with
  | advance blockNumber timestamp =>
    simp only [step, bind_eq_ok, pure_eq_ok] at h
    obtain ⟨_, -, rfl⟩ := h
    exact .of_eq rfl
  | callDAO tx sender call =>
    simp only [step, bind_eq_ok] at h
    obtain ⟨w₁, henter, hcall⟩ := h
    obtain ⟨frames, -, rfl⟩ := enter_entered henter
    have hkeeps := callDAO_keepsRecords hcall
    exact hkeeps
  | callToken sender call =>
    simp only [step, callToken, bind_eq_ok, pure_eq_ok] at h
    obtain ⟨w₁, henter, nouns, -, rfl⟩ := h
    obtain ⟨frames, -, rfl⟩ := enter_entered henter
    exact .of_eq rfl
  | callExecutor executor sender call =>
    simp only [step, callExecutor, bind_eq_ok, pure_eq_ok] at h
    obtain ⟨w₁, henter, e, -, rfl⟩ := h
    obtain ⟨frames, -, rfl⟩ := enter_entered henter
    exact .of_eq rfl
  | return_ forkTreasury forkToken =>
    simp only [step] at h
    split at h
    · exact absurd h throw_ne_ok
    · have hkeeps := resume_keepsRecords h
      exact hkeeps

theorem Next.keepsRecords {admits : World H → Action → Prop} (h : Next d admits w w') :
    KeepsRecords w w' := by
  cases h with
  | step a _ hstep => exact step_keepsRecords hstep
  | outside hout =>
    obtain ⟨⟨eth, erc20, outside, rfl⟩, -, -⟩ := hout
    exact .of_eq rfl

end World

end Nouns
