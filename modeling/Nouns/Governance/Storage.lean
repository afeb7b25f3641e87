import Nouns.Evm
import Nouns.Lib.Checkpoints
import Mathlib.Logic.Function.Basic

/-!
# Storage — the state of the V3 DAO

`NounsDAOStorageV3` with the events of the DAO as a log.  The token's address and the proxy's
implementation slot are left out: no function of the DAO changes them.
-/

open Fallible Checkpoints

namespace Nouns

inductive ProposalState
  | Pending | Active | Canceled | Defeated | Succeeded | Queued | Expired | Executed | Vetoed
  | ObjectionPeriod | Updatable
deriving DecidableEq, Repr

structure Receipt where
  hasVoted : Bool
  support : Nat
  votes : Nat
deriving DecidableEq

structure Proposal extends ProposalTxs where
  id : Nat
  proposer : Address
  proposalThreshold : Nat
  quorumVotes : Nat
  eta : Nat
  startBlock : Nat
  endBlock : Nat
  forVotes : Nat
  againstVotes : Nat
  abstainVotes : Nat
  canceled : Bool
  vetoed : Bool
  executed : Bool
  receipts : Address → Receipt
  totalSupply : Nat
  creationBlock : Nat
  updatePeriodEndBlock : Nat
  objectionPeriodEndBlock : Nat
  signers : List Address
  executeOnTimelockV1 : Bool

/-- A storage slot that was never written. -/
def Proposal.empty : Proposal where
  targets := []
  values := []
  signatures := []
  calldatas := []
  id := 0
  proposer := 0
  proposalThreshold := 0
  quorumVotes := 0
  eta := 0
  startBlock := 0
  endBlock := 0
  forVotes := 0
  againstVotes := 0
  abstainVotes := 0
  canceled := false
  vetoed := false
  executed := false
  receipts := fun _ => ⟨false, 0, 0⟩
  totalSupply := 0
  creationBlock := 0
  updatePeriodEndBlock := 0
  objectionPeriodEndBlock := 0
  signers := []
  executeOnTimelockV1 := false

structure DynamicQuorumParams where
  minQuorumVotesBPS : Nat
  maxQuorumVotesBPS : Nat
  quorumCoefficient : Nat
deriving DecidableEq, Repr

structure ProposerSignature where
  sig : Bytes
  signer : Address
  expirationTimestamp : Nat

inductive DAOEvent
  | ProposalCreated (id : Nat) (proposer : Address) (txs : ProposalTxs) (startBlock endBlock : Nat)
      (description : String)
  | ProposalCreatedWithRequirements (id : Nat) (proposer : Address) (signers : List Address)
      (txs : ProposalTxs) (startBlock endBlock updatePeriodEndBlock proposalThreshold
      quorumVotes : Nat) (description : String)
  | ProposalCreatedOnTimelockV1 (id : Nat)
  | ProposalUpdated (id : Nat) (proposer : Address) (txs : ProposalTxs)
      (description updateMessage : String)
  | ProposalTransactionsUpdated (id : Nat) (proposer : Address) (txs : ProposalTxs)
      (updateMessage : String)
  | ProposalDescriptionUpdated (id : Nat) (proposer : Address) (description updateMessage : String)
  | ProposalQueued (id eta : Nat)
  | ProposalExecuted (id : Nat)
  | ProposalCanceled (id : Nat)
  | ProposalVetoed (id : Nat)
  | SignatureCancelled (signer : Address) (sig : Bytes)
  | VoteCast (voter : Address) (proposalId support votes : Nat) (reason : String)
  | RefundableVote (voter : Address) (refundAmount : Nat) (refundSent : Bool)
  | ProposalObjectionPeriodSet (id objectionPeriodEndBlock : Nat)
  | ProposalThresholdBPSSet (oldValue newValue : Nat)
  | VotingDelaySet (oldValue newValue : Nat)
  | VotingPeriodSet (oldValue newValue : Nat)
  | ObjectionPeriodDurationSet (oldValue newValue : Nat)
  | LastMinuteWindowSet (oldValue newValue : Nat)
  | ProposalUpdatablePeriodSet (oldValue newValue : Nat)
  | NewPendingAdmin (oldPendingAdmin newPendingAdmin : Address)
  | NewAdmin (oldAdmin newAdmin : Address)
  | NewPendingVetoer (oldPendingVetoer newPendingVetoer : Address)
  | NewVetoer (oldVetoer newVetoer : Address)
  | MinQuorumVotesBPSSet (oldValue newValue : Nat)
  | MaxQuorumVotesBPSSet (oldValue newValue : Nat)
  | QuorumCoefficientSet (oldValue newValue : Nat)
  | Withdraw (amount : Nat) (sent : Bool)
  | VoteSnapshotBlockSwitchProposalIdSet (oldValue newValue : Nat)
  | ForkDAODeployerSet (oldForkDAODeployer newForkDAODeployer : Address)
  | ERC20TokensToIncludeInForkSet (oldErc20Tokens newErc20tokens : List Address)
  | ForkEscrowSet (oldForkEscrow newForkEscrow : Address)
  | ForkPeriodSet (oldValue newValue : Nat)
  | ForkThresholdSet (oldValue newValue : Nat)
  | TimelocksAndAdminSet (timelock timelockV1 admin : Address)
  | EscrowedToFork (forkId : Nat) (owner : Address) (tokenIds proposalIds : List Nat)
      (reason : String)
  | WithdrawFromForkEscrow (forkId : Nat) (owner : Address) (tokenIds : List Nat)
  | ExecuteFork (forkId : Nat) (forkTreasury forkToken : Address)
      (forkEndTimestamp tokensInEscrow : Nat)
  | JoinFork (forkId : Nat) (owner : Address) (tokenIds proposalIds : List Nat) (reason : String)
  | DAOWithdrawNounsFromEscrow (tokenIds : List Nat) (to_ : Address)
  | DAONounsSupplyIncreasedFromEscrow (numTokens : Nat) (to_ : Address)

/-- The part of the storage that decides the state of a proposal and its vote snapshot. -/
structure ProposalStorage where
  quorumVotesBPS : Nat
  proposalCount : Nat
  timelock : Address
  timelockV1 : Address
  proposals : Nat → Proposal
  quorumParamsCheckpoints : List (Checkpoint DynamicQuorumParams)
  voteSnapshotBlockSwitchProposalId : Nat

structure StorageV3 (H : Type) extends ProposalStorage where
  admin : Address
  pendingAdmin : Address
  vetoer : Address
  pendingVetoer : Address
  votingDelay : Nat
  votingPeriod : Nat
  proposalThresholdBPS : Nat
  latestProposalIds : Address → Nat
  cancelledSigs : Address → H → Bool
  lastMinuteWindowInBlocks : Nat
  objectionPeriodDurationInBlocks : Nat
  proposalUpdatablePeriodInBlocks : Nat
  forkEscrow : Address
  forkDAODeployer : Address
  erc20TokensToIncludeInFork : List Address
  forkDAOTreasury : Address
  forkDAOToken : Address
  forkEndTimestamp : Nat
  forkPeriod : Nat
  forkThresholdBPS : Nat
  log : List DAOEvent

/-- The timelock a proposal is queued on. -/
def ProposalStorage.getProposalTimelock (s : ProposalStorage) (p : Proposal) : Address :=
  if p.executeOnTimelockV1 then s.timelockV1 else s.timelock

namespace StorageV3

variable {H : Type} (ds : StorageV3 H)

def emit (e : DAOEvent) : StorageV3 H := { ds with log := e :: ds.log }

def setProposal (id : Nat) (p : Proposal) : StorageV3 H :=
  { ds with proposals := Function.update ds.proposals id p }

def isForkPeriodActive (timestamp : Nat) : Prop := ds.forkEndTimestamp > timestamp

instance (timestamp : Nat) : Decidable (ds.isForkPeriodActive timestamp) :=
  inferInstanceAs (Decidable (_ > _))

end StorageV3

/-! ## Actions of a proposal -/

namespace ProposalTxs

variable (txs : ProposalTxs) (eta : Nat)

/-- Action `i`, read from the four arrays. -/
def action (i : Nat) : Tx Transaction :=
  match txs.targets[i]?, txs.values[i]?, txs.signatures[i]?, txs.calldatas[i]? with
  | some target, some value, some signature, some data =>
    .ok { target, value, signature, data, eta }
  | _, _, _, _ => .error .panic

def actions : List Transaction :=
  (List.range txs.targets.length).filterMap (fun i => (txs.action eta i).toOption)

/-- The loop over the actions in `queue`, `cancel` and `veto`. -/
def forEachAction {σ : Type} (f : σ → Transaction → Tx σ) (s : σ) : Tx σ :=
  (List.range txs.targets.length).foldlM (fun s i => do f s (← txs.action eta i)) s

variable {txs eta}

theorem mem_actions {tx : Transaction} :
    tx ∈ txs.actions eta ↔ ∃ i < txs.targets.length, txs.action eta i = .ok tx := by
  simp only [actions, List.mem_filterMap, List.mem_range]
  refine exists_congr fun i => and_congr_right fun _ => ?_
  cases txs.action eta i with
  | error e => simp [Except.toOption]
  | ok tx' => simp [Except.toOption]

theorem action_eta {i : Nat} {tx : Transaction} (h : txs.action eta i = .ok tx) : tx.eta = eta := by
  unfold action at h
  split at h
  · cases h
    rfl
  · cases h

theorem eta_of_mem_actions {tx : Transaction} (h : tx ∈ txs.actions eta) : tx.eta = eta := by
  obtain ⟨i, -, hi⟩ := mem_actions.mp h
  exact action_eta hi

/-- A loop that returns has read every action. -/
theorem forEachAction_ok {σ : Type} {f : σ → Transaction → Tx σ} {s s' : σ}
    (h : txs.forEachAction eta f s = .ok s') : (txs.actions eta).foldlM f s = .ok s' := by
  unfold forEachAction at h
  unfold actions
  generalize List.range txs.targets.length = l at h
  induction l generalizing s with
  | nil => exact h
  | cons i l ih =>
    rw [List.foldlM_cons, bind_eq_ok] at h
    obtain ⟨s₁, h₁, hrest⟩ := h
    obtain ⟨tx, htx, hf⟩ := bind_eq_ok.mp h₁
    rw [List.filterMap_cons, htx]
    simp only [Except.toOption]
    rw [List.foldlM_cons, hf]
    exact ih hrest

end ProposalTxs

end Nouns
