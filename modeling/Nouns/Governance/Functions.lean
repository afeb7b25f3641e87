import Nouns.Governance.Refinement

/-!
# Functions — which function of the DAO a step runs

`StorageV3.Step` is the inversion of `World.step` for the storage of the DAO: a step runs one of its
functions, with the checks the function makes, or leaves the storage alone.  The events are left
open.
-/

open Fallible Checkpoints

namespace Nouns

variable {H : Type}

/-- `executors` are the timelocks as the function finds them. -/
inductive StorageV3.Step [DecidableEq H] (env : Env H) (executors : Address → Executor H)
    (ds : StorageV3 H) : StorageV3 H → Prop
  | quiet (log : List DAOEvent) : Step env executors ds { ds with log }
  | propose (sender : Account) (txs : ProposalTxs) (description : String) (ds' : StorageV3 H)
      (id : Nat) : ds.propose env sender txs description = .ok (ds', id) →
      Step env executors ds ds'
  | proposeOnTimelockV1 (sender : Account) (txs : ProposalTxs) (description : String)
      (ds' : StorageV3 H) (id : Nat) :
      ds.proposeOnTimelockV1 env sender txs description = .ok (ds', id) → Step env executors ds ds'
  | proposeBySigs (sender : Account) (signatures : List ProposerSignature) (txs : ProposalTxs)
      (description : String) (ds' : StorageV3 H) (id : Nat) :
      ds.proposeBySigs env sender signatures txs description = .ok (ds', id) →
      Step env executors ds ds'
  | cancelSig (sender : Account) (sig : Bytes) : Step env executors ds (ds.cancelSig env sender sig)
  | updateTransactions (sender : Account) (id : Nat) (txs : ProposalTxs) (ds' : StorageV3 H)
      (log : List DAOEvent) :
      ds.updateProposalTransactionsInternal env sender id txs = .ok ds' →
      Step env executors ds { ds' with log }
  | updateBySigs (sender : Account) (id : Nat) (signatures : List ProposerSignature)
      (txs : ProposalTxs) (description message : String) (ds' : StorageV3 H) :
      ds.updateProposalBySigs env sender id signatures txs description message = .ok ds' →
      Step env executors ds ds'
  | vote (voter : Address) (id support votes : Nat) (ds' : StorageV3 H) (log : List DAOEvent) :
      ds.castVoteInternal env voter id support = .ok (ds', votes) →
      Step env executors ds { ds' with log }
  | queue (id : Nat) (ds' : StorageV3 H) (e : Executor H) :
      ds.queue env (executors (ds.getProposalTimelock (ds.proposals id))) id = .ok (ds', e) →
      Step env executors ds ds'
  | cancel (sender : Account) (id : Nat) (ds' : StorageV3 H) (e : Executor H) :
      ds.cancel env (executors (ds.getProposalTimelock (ds.proposals id))) sender id =
        .ok (ds', e) → Step env executors ds ds'
  | veto (sender : Account) (id : Nat) (ds' : StorageV3 H) (e : Executor H) :
      ds.veto env (executors (ds.getProposalTimelock (ds.proposals id))) sender id =
        .ok (ds', e) → Step env executors ds ds'
  | execute (id : Nat) (log : List DAOEvent) :
      ds.stateInternal env.toClock (ds.proposals id).id = .ok .Queued →
      Step env executors ds { ds.setProposal id { ds.proposals id with executed := true } with log }
  | admin (sender : Account) (c : AdminCall) (ds' : StorageV3 H) :
      ds.adminCall sender c = .ok ds' → Step env executors ds ds'
  | quorum (sender : Account) (c : QuorumCall) (ds' : StorageV3 H) :
      ds.quorumCall sender env.blockNumber c = .ok ds' → Step env executors ds ds'
  | switch (sender : Account) (ds' : StorageV3 H) :
      ds.setVoteSnapshotBlockSwitchProposalId sender = .ok ds' → Step env executors ds ds'
  | endFork (forkDAOTreasury forkDAOToken : Address) (forkEndTimestamp : Nat)
      (log : List DAOEvent) :
      Step env executors ds { ds with forkDAOTreasury, forkDAOToken, forkEndTimestamp, log }

namespace World

open StorageV3 (Step)

/-! ## Calls that leave the DAO -/

variable {d : Deployment H} {w w' : World H}

/-- Nothing but the events changed. -/
def Logs (w w' : World H) : Prop := ∃ log, w'.dao = { w.dao with log }

theorem Logs.of_eq (h : w'.dao = w.dao) : Logs w w' := ⟨w.dao.log, h⟩

theorem Logs.quiet [DecidableEq H] {env : Env H} {executors : Address → Executor H}
    (h : Logs w w') : Step env executors w.dao w'.dao := by
  obtain ⟨log, hlog⟩ := h
  rw [hlog]
  exact .quiet log

theorem sendValue_dao {from_ to_ : Address} {amount : Nat}
    (h : w.sendValue from_ to_ amount = .ok w') : w'.dao = w.dao := by
  simp only [sendValue, bind_eq_ok, pure_eq_ok] at h
  obtain ⟨_, -, rfl⟩ := h
  rfl

theorem sendToken_dao {erc20token from_ to_ : Address} {amount : Nat}
    (h : w.sendToken erc20token from_ to_ amount = .ok w') : w'.dao = w.dao := by
  simp only [sendToken, bind_eq_ok, pure_eq_ok] at h
  obtain ⟨_, -, rfl⟩ := h
  rfl

theorem refundGas_logs {tx : TxContext} (h : w.refundGas d tx = .ok w') : Logs w w' := by
  simp only [refundGas] at h
  split at h
  · rw [← pure_eq_ok.mp h]
    exact .of_eq rfl
  · split at h
    · simp only [bind_eq_ok, pure_eq_ok] at h
      obtain ⟨w₁, hsend, rfl⟩ := h
      have hdao := sendValue_dao hsend
      exact .of_eq hdao
    · rw [← pure_eq_ok.mp h]
      exact ⟨_, rfl⟩

theorem withdraw_logs {tx : TxContext} {sender : Address} (h : w.withdraw d tx sender = .ok w') :
    Logs w w' := by
  simp only [withdraw, bind_eq_ok] at h
  obtain ⟨_, -, h⟩ := h
  split at h
  · simp only [bind_eq_ok, pure_eq_ok] at h
    obtain ⟨w₁, hsend, rfl⟩ := h
    have hdao := sendValue_dao hsend
    exact .of_eq hdao
  · rw [← pure_eq_ok.mp h]
    exact ⟨_, rfl⟩

theorem sendProRataTreasury_logs {payout : Payout} (h : w.sendProRataTreasury d payout = .ok w') :
    Logs w w' := by
  simp only [sendProRataTreasury, bind_eq_ok, pure_eq_ok] at h
  obtain ⟨_, -, _, -, w₁, hsend, rfl⟩ := h
  have hdao := sendValue_dao hsend
  exact .of_eq hdao

theorem withdrawDAONounsFromEscrow_logs {sender to_ : Address} {tokenIds : List Nat}
    (h : w.withdrawDAONounsFromEscrow d sender tokenIds to_ = .ok w') : Logs w w' := by
  simp only [withdrawDAONounsFromEscrow, bind_eq_ok, pure_eq_ok] at h
  obtain ⟨_, -, nouns, -, rfl⟩ := h
  exact ⟨_, rfl⟩

variable [DecidableEq H]

theorem executeFrom_logs {id i : Nat} {timelock : Address}
    (h : w.executeFrom d id timelock i = .ok w') : Logs w w' := by
  simp only [executeFrom] at h
  split at h
  · simp only [bind_eq_ok, pure_eq_ok] at h
    obtain ⟨tx, -, e, -, w₁, hsend, rfl⟩ := h
    have hdao := sendValue_dao hsend
    exact .of_eq hdao
  · rw [← pure_eq_ok.mp h]
    exact ⟨_, rfl⟩

theorem executeInternal_dao {id : Nat} {timelock : Address}
    (h : w.executeInternal d id timelock = .ok w') : Step (w.env d) w.executors w.dao w'.dao := by
  simp only [executeInternal, bind_eq_ok, require_eq_ok] at h
  obtain ⟨_, hstate, _, rfl, _, -, h⟩ := h
  obtain ⟨log, hlog⟩ := executeFrom_logs h
  rw [hlog]
  exact .execute id log hstate

theorem castRefundableVoteInternal_dao {tx : TxContext} {sender : Address} {id support : Nat}
    {reason : String} (h : w.castRefundableVoteInternal d tx sender id support reason = .ok w') :
    Step (w.env d) w.executors w.dao w'.dao := by
  simp only [castRefundableVoteInternal, bind_eq_ok] at h
  obtain ⟨⟨ds, votes⟩, hcast, h⟩ := h
  have hlogs : ∃ log, w'.dao = { ds with log } := by
    split at h
    · exact refundGas_logs h
    · rw [← pure_eq_ok.mp h]
      exact ⟨_, rfl⟩
  obtain ⟨log, hlog⟩ := hlogs
  rw [hlog]
  exact .vote sender id support votes ds log hcast

theorem castVoteWithReason_dao {voter : Address} {id support : Nat} {reason : String}
    {ds : StorageV3 H} (h : w.dao.castVoteWithReason (w.env d) voter id support reason = .ok ds) :
    Step (w.env d) w.executors w.dao ds := by
  simp only [StorageV3.castVoteWithReason, bind_eq_ok, pure_eq_ok] at h
  obtain ⟨⟨ds₁, votes⟩, hcast, rfl⟩ := h
  exact .vote voter id support votes ds₁ _ hcast

theorem payERC20_dao {env : Env H} {executors : Address → Executor H} {payout : Payout}
    {erc20Count remaining : Nat} (h : w.payERC20 d payout erc20Count remaining = .ok w') :
    Step env executors w.dao w'.dao := by
  induction remaining with
  | zero =>
    simp only [payERC20, endPayout] at h
    split at h
    · rw [← pure_eq_ok.mp h]
      exact .endFork _ _ _ _
    · simp only [joinForkTransfers, bind_eq_ok, pure_eq_ok] at h
      obtain ⟨nouns, -, rfl⟩ := h
      exact .quiet _
  | succ remaining ih =>
    simp only [payERC20] at h
    split at h
    · simp at h
    · split at h
      · simp only [bind_eq_ok, pure_eq_ok] at h
        obtain ⟨_, -, w₁, hsend, rfl⟩ := h
        have hdao : w₁.dao = w.dao := sendToken_dao hsend
        exact Logs.quiet (.of_eq hdao)
      · exact ih h

/-! ## All steps -/

theorem callDAO_dao {tx : TxContext} {sender : Account} {call : DAOCall}
    (h : w.callDAO d tx sender call = .ok w') : Step (w.env d) w.executors w.dao w'.dao := by
  cases call with
  | propose txs description =>
    obtain ⟨ds, hds, rfl⟩ := withStorage_ok h
    obtain ⟨⟨ds₁, id⟩, hpropose, rfl⟩ := map_eq_ok.mp hds
    exact .propose sender txs description _ id hpropose
  | proposeOnTimelockV1 txs description =>
    obtain ⟨ds, hds, rfl⟩ := withStorage_ok h
    obtain ⟨⟨ds₁, id⟩, hpropose, rfl⟩ := map_eq_ok.mp hds
    exact .proposeOnTimelockV1 sender txs description _ id hpropose
  | proposeBySigs signatures txs description =>
    obtain ⟨ds, hds, rfl⟩ := withStorage_ok h
    obtain ⟨⟨ds₁, id⟩, hpropose, rfl⟩ := map_eq_ok.mp hds
    exact .proposeBySigs sender signatures txs description _ id hpropose
  | cancelSig sig =>
    rw [← pure_eq_ok.mp h]
    exact .cancelSig sender sig
  | updateProposal id txs description message =>
    obtain ⟨ds, hds, rfl⟩ := withStorage_ok h
    simp only [StorageV3.updateProposal, bind_eq_ok, pure_eq_ok] at hds
    obtain ⟨ds₁, hupdate, rfl⟩ := hds
    exact .updateTransactions sender id txs ds₁ _ hupdate
  | updateProposalTransactions id txs message =>
    obtain ⟨ds, hds, rfl⟩ := withStorage_ok h
    simp only [StorageV3.updateProposalTransactions, bind_eq_ok, pure_eq_ok] at hds
    obtain ⟨ds₁, hupdate, rfl⟩ := hds
    exact .updateTransactions sender id txs ds₁ _ hupdate
  | updateProposalDescription id description message =>
    obtain ⟨ds, hds, rfl⟩ := withStorage_ok h
    simp only [StorageV3.updateProposalDescription, bind_eq_ok, pure_eq_ok] at hds
    obtain ⟨_, -, rfl⟩ := hds
    exact .quiet _
  | updateProposalBySigs id signatures txs description message =>
    obtain ⟨ds, hds, rfl⟩ := withStorage_ok h
    exact .updateBySigs sender id signatures txs description message ds hds
  | queue id =>
    simp only [callDAO] at h
    obtain ⟨ds, e, hqueue, rfl⟩ := withTimelock_ok h
    exact .queue id ds e hqueue
  | execute id => exact executeInternal_dao h
  | executeOnTimelockV1 id => exact executeInternal_dao h
  | cancel id =>
    simp only [callDAO] at h
    obtain ⟨ds, e, hcancel, rfl⟩ := withTimelock_ok h
    exact .cancel sender id ds e hcancel
  | veto id =>
    simp only [callDAO] at h
    obtain ⟨ds, e, hveto, rfl⟩ := withTimelock_ok h
    exact .veto sender id ds e hveto
  | castVote id support =>
    obtain ⟨ds, hds, rfl⟩ := withStorage_ok h
    exact castVoteWithReason_dao hds
  | castVoteWithReason id support reason =>
    obtain ⟨ds, hds, rfl⟩ := withStorage_ok h
    exact castVoteWithReason_dao hds
  | castVoteBySig id support sig =>
    obtain ⟨ds, hds, rfl⟩ := withStorage_ok h
    simp only [StorageV3.castVoteBySig, bind_eq_ok] at hds
    obtain ⟨_, -, hds⟩ := hds
    exact castVoteWithReason_dao hds
  | castRefundableVote id support => exact castRefundableVoteInternal_dao h
  | castRefundableVoteWithReason id support reason => exact castRefundableVoteInternal_dao h
  | admin call =>
    obtain ⟨ds, hds, rfl⟩ := withStorage_ok h
    exact .admin sender call ds hds
  | quorum call =>
    obtain ⟨ds, hds, rfl⟩ := withStorage_ok h
    exact .quorum sender call ds hds
  | setVoteSnapshotBlockSwitchProposalId =>
    obtain ⟨ds, hds, rfl⟩ := withStorage_ok h
    exact .switch sender ds hds
  | withdraw => exact (withdraw_logs h).quiet
  | escrowToFork tokenIds proposalIds reason =>
    simp only [callDAO, escrowToFork, bind_eq_ok, pure_eq_ok] at h
    obtain ⟨_, -, ⟨nouns, escrow⟩, -, rfl⟩ := h
    exact .quiet _
  | withdrawFromForkEscrow tokenIds =>
    simp only [callDAO, withdrawFromForkEscrow, bind_eq_ok, pure_eq_ok] at h
    obtain ⟨_, -, ⟨escrow, nouns⟩, -, rfl⟩ := h
    exact .quiet _
  | executeFork =>
    simp only [callDAO, executeFork, bind_eq_ok, pure_eq_ok] at h
    obtain ⟨_, -, _, -, _, -, rfl⟩ := h
    exact .quiet _
  | joinFork tokenIds proposalIds reason =>
    simp only [callDAO, joinFork, bind_eq_ok] at h
    obtain ⟨_, -, supply, -, h⟩ := h
    exact (sendProRataTreasury_logs h).quiet
  | withdrawDAONounsFromEscrowToTreasury tokenIds =>
    exact (withdrawDAONounsFromEscrow_logs h).quiet
  | withdrawDAONounsFromEscrowIncreasingTotalSupply tokenIds to_ =>
    simp only [callDAO, withdrawDAONounsFromEscrowIncreasingTotalSupply, bind_eq_ok,
      pure_eq_ok] at h
    obtain ⟨_, -, w₁, hw₁, rfl⟩ := h
    obtain ⟨log, hlog⟩ := withdrawDAONounsFromEscrow_logs hw₁
    simp only [emit, hlog]
    exact .quiet _

theorem resume_dao {forkTreasury forkToken : Address} {k : Continuation}
    (h : w.resume d forkTreasury forkToken k = .ok w') : Step (w.env d) w.executors w.dao w'.dao := by
  cases k with
  | executeInternal proposalId timelock i tx =>
    obtain ⟨log, hlog⟩ := executeFrom_logs h
    rw [hlog]
    exact .quiet log
  | refundGas origin amount =>
    rw [← pure_eq_ok.mp h]
    exact .quiet _
  | withdraw amount =>
    rw [← pure_eq_ok.mp h]
    exact .quiet _
  | deployForkDAO fork =>
    simp only [resume, bind_eq_ok] at h
    obtain ⟨supply, -, h⟩ := h
    exact (sendProRataTreasury_logs h).quiet
  | sendETH payout amount =>
    exact payERC20_dao (w := w.setExecutor payout.timelock _) h
  | sendERC20 payout erc20Count remaining erc20token amount =>
    exact payERC20_dao (w := w.setExecutor payout.timelock _) h
  | claimDuringForkPeriod join =>
    simp only [resume, bind_eq_ok, pure_eq_ok] at h
    obtain ⟨_, -, rfl⟩ := h
    exact .quiet _

theorem dao_step {a : Action} (h : w.step d a = .ok w') : Step (w.env d) w.executors w.dao w'.dao := by
  cases a with
  | advance blockNumber timestamp =>
    simp only [step, bind_eq_ok, pure_eq_ok] at h
    obtain ⟨_, -, rfl⟩ := h
    exact .quiet _
  | callDAO tx sender call =>
    simp only [step, bind_eq_ok] at h
    obtain ⟨w₁, henter, h⟩ := h
    obtain ⟨frames, rfl, -⟩ := enter_ok henter
    have hcall := callDAO_dao h
    exact hcall
  | callToken sender call =>
    simp only [step, callToken, bind_eq_ok, pure_eq_ok] at h
    obtain ⟨w₁, henter, nouns, -, rfl⟩ := h
    obtain ⟨frames, rfl, -⟩ := enter_ok henter
    exact .quiet _
  | callExecutor a sender call =>
    simp only [step, callExecutor, bind_eq_ok, pure_eq_ok] at h
    obtain ⟨w₁, henter, e, -, rfl⟩ := h
    obtain ⟨frames, rfl, -⟩ := enter_ok henter
    exact .quiet _
  | return_ forkTreasury forkToken =>
    simp only [step] at h
    split at h
    · simp at h
    · have hresume := resume_dao h
      exact hresume

theorem Next.daoStep {admits : World H → Action → Prop} (h : Next d admits w w') :
    Step (w.env d) w.executors w.dao w'.dao := by
  cases h with
  | step a _ hstep => exact dao_step hstep
  | outside hout =>
    obtain ⟨⟨eth, erc20, outside, rfl⟩, -, -⟩ := hout
    exact .quiet _

end World

end Nouns
