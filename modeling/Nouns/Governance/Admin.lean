import Nouns.Governance.DynamicQuorum
import Mathlib.Data.List.Nodup

/-!
# Admin — the setters of the V3 DAO

`NounsDAOV3Admin`.  Paying out the DAO's own balance (`_withdraw`) calls the admin and is modelled
with the other calls that leave the DAO.
-/

open Fallible Checkpoints

namespace Nouns

def MIN_PROPOSAL_THRESHOLD_BPS : Nat := 1
def MAX_PROPOSAL_THRESHOLD_BPS : Nat := 1000
def MIN_VOTING_PERIOD_BLOCKS : Nat := 86400 / 12
def MAX_VOTING_PERIOD_BLOCKS : Nat := 14 * 86400 / 12
def MIN_VOTING_DELAY_BLOCKS : Nat := 1
def MAX_VOTING_DELAY_BLOCKS : Nat := 14 * 86400 / 12
def MIN_QUORUM_VOTES_BPS_LOWER_BOUND : Nat := 200
def MIN_QUORUM_VOTES_BPS_UPPER_BOUND : Nat := 2000
def MAX_QUORUM_VOTES_BPS_UPPER_BOUND : Nat := 6000
def MAX_FORK_PERIOD : Nat := 14 * 86400
def MIN_FORK_PERIOD : Nat := 2 * 86400
def MAX_OBJECTION_PERIOD_BLOCKS : Nat := 7 * 86400 / 12
def MAX_UPDATABLE_PERIOD_BLOCKS : Nat := 7 * 86400 / 12

/-- The setters that write a checkpoint of the quorum parameters. -/
inductive QuorumCall
  | setMinQuorumVotesBPS (newMinQuorumVotesBPS : Nat)
  | setMaxQuorumVotesBPS (newMaxQuorumVotesBPS : Nat)
  | setQuorumCoefficient (newQuorumCoefficient : Nat)
  | setDynamicQuorumParams (newMinQuorumVotesBPS newMaxQuorumVotesBPS newQuorumCoefficient : Nat)
deriving DecidableEq

/-- The other setters. -/
inductive AdminCall
  | setVotingDelay (newVotingDelay : Nat)
  | setVotingPeriod (newVotingPeriod : Nat)
  | setProposalThresholdBPS (newProposalThresholdBPS : Nat)
  | setObjectionPeriodDurationInBlocks (newObjectionPeriodDurationInBlocks : Nat)
  | setLastMinuteWindowInBlocks (newLastMinuteWindowInBlocks : Nat)
  | setProposalUpdatablePeriodInBlocks (newProposalUpdatablePeriodInBlocks : Nat)
  | setPendingAdmin (newPendingAdmin : Address)
  | acceptAdmin
  | setPendingVetoer (newPendingVetoer : Address)
  | acceptVetoer
  | burnVetoPower
  | setForkDAODeployer (newForkDAODeployer : Address)
  | setErc20TokensToIncludeInFork (erc20tokens : List Address)
  | setForkEscrow (newForkEscrow : Address)
  | setForkPeriod (newForkPeriod : Nat)
  | setForkThresholdBPS (newForkThresholdBPS : Nat)
  | setForkParams (forkEscrow forkDAODeployer : Address) (erc20TokensToIncludeInFork : List Address)
      (forkPeriod forkThresholdBPS : Nat)
  | setTimelocksAndAdmin (timelock timelockV1 admin : Address)

namespace StorageV3

variable {H : Type} (ds : StorageV3 H) (sender : Address)

def onlyAdmin : Tx Unit := revertIf (sender ≠ ds.admin) .AdminOnly

def setVotingDelay (newVotingDelay : Nat) : Tx (StorageV3 H) := do
  ds.onlyAdmin sender
  require (newVotingDelay ≥ MIN_VOTING_DELAY_BLOCKS ∧ newVotingDelay ≤ MAX_VOTING_DELAY_BLOCKS)
    (.require "NounsDAO::_setVotingDelay: invalid voting delay")
  return { ds with votingDelay := newVotingDelay }.emit
    (.VotingDelaySet ds.votingDelay newVotingDelay)

def setVotingPeriod (newVotingPeriod : Nat) : Tx (StorageV3 H) := do
  ds.onlyAdmin sender
  require (newVotingPeriod ≥ MIN_VOTING_PERIOD_BLOCKS ∧ newVotingPeriod ≤ MAX_VOTING_PERIOD_BLOCKS)
    (.require "NounsDAO::_setVotingPeriod: invalid voting period")
  return { ds with votingPeriod := newVotingPeriod }.emit
    (.VotingPeriodSet ds.votingPeriod newVotingPeriod)

def setProposalThresholdBPS (newProposalThresholdBPS : Nat) : Tx (StorageV3 H) := do
  ds.onlyAdmin sender
  require (newProposalThresholdBPS ≥ MIN_PROPOSAL_THRESHOLD_BPS ∧
      newProposalThresholdBPS ≤ MAX_PROPOSAL_THRESHOLD_BPS)
    (.require "NounsDAO::_setProposalThreshold: invalid proposal threshold bps")
  return { ds with proposalThresholdBPS := newProposalThresholdBPS }.emit
    (.ProposalThresholdBPSSet ds.proposalThresholdBPS newProposalThresholdBPS)

def setObjectionPeriodDurationInBlocks (newValue : Nat) : Tx (StorageV3 H) := do
  ds.onlyAdmin sender
  revertIf (newValue > MAX_OBJECTION_PERIOD_BLOCKS) .InvalidObjectionPeriodDurationInBlocks
  return { ds with objectionPeriodDurationInBlocks := newValue }.emit
    (.ObjectionPeriodDurationSet ds.objectionPeriodDurationInBlocks newValue)

def setLastMinuteWindowInBlocks (newValue : Nat) : Tx (StorageV3 H) := do
  ds.onlyAdmin sender
  return { ds with lastMinuteWindowInBlocks := newValue }.emit
    (.LastMinuteWindowSet ds.lastMinuteWindowInBlocks newValue)

def setProposalUpdatablePeriodInBlocks (newValue : Nat) : Tx (StorageV3 H) := do
  ds.onlyAdmin sender
  revertIf (newValue > MAX_UPDATABLE_PERIOD_BLOCKS) .InvalidProposalUpdatablePeriodInBlocks
  return { ds with proposalUpdatablePeriodInBlocks := newValue }.emit
    (.ProposalUpdatablePeriodSet ds.proposalUpdatablePeriodInBlocks newValue)

def setPendingAdmin (newPendingAdmin : Address) : Tx (StorageV3 H) := do
  ds.onlyAdmin sender
  return { ds with pendingAdmin := newPendingAdmin }.emit
    (.NewPendingAdmin ds.pendingAdmin newPendingAdmin)

def acceptAdmin : Tx (StorageV3 H) := do
  require (sender = ds.pendingAdmin ∧ sender ≠ 0)
    (.require "NounsDAO::_acceptAdmin: pending admin only")
  let ds' := { ds with admin := ds.pendingAdmin, pendingAdmin := 0 }
  return (ds'.emit (.NewAdmin ds.admin ds'.admin)).emit (.NewPendingAdmin ds.pendingAdmin 0)

def setPendingVetoer (newPendingVetoer : Address) : Tx (StorageV3 H) := do
  revertIf (sender ≠ ds.vetoer) .VetoerOnly
  return { ds with pendingVetoer := newPendingVetoer }.emit
    (.NewPendingVetoer ds.pendingVetoer newPendingVetoer)

def acceptVetoer : Tx (StorageV3 H) := do
  revertIf (sender ≠ ds.pendingVetoer) .PendingVetoerOnly
  let ds' := { ds with vetoer := ds.pendingVetoer, pendingVetoer := 0 }
  return (ds'.emit (.NewVetoer ds.vetoer ds.pendingVetoer)).emit
    (.NewPendingVetoer ds.pendingVetoer 0)

def burnVetoPower : Tx (StorageV3 H) := do
  require (sender = ds.vetoer) (.require "NounsDAO::_burnVetoPower: vetoer only")
  let ds' := { ds with vetoer := 0, pendingVetoer := 0 }
  return (ds'.emit (.NewVetoer ds.vetoer 0)).emit (.NewPendingVetoer ds.pendingVetoer 0)

def setForkDAODeployer (newForkDAODeployer : Address) : Tx (StorageV3 H) := do
  ds.onlyAdmin sender
  return { ds with forkDAODeployer := newForkDAODeployer }.emit
    (.ForkDAODeployerSet ds.forkDAODeployer newForkDAODeployer)

def checkForDuplicates (erc20tokens : List Address) : Tx Unit :=
  checkDistinct erc20tokens .DuplicateTokenAddress

def setErc20TokensToIncludeInFork (erc20tokens : List Address) : Tx (StorageV3 H) := do
  ds.onlyAdmin sender
  checkForDuplicates erc20tokens
  return { ds with erc20TokensToIncludeInFork := erc20tokens }.emit
    (.ERC20TokensToIncludeInForkSet ds.erc20TokensToIncludeInFork erc20tokens)

def setForkEscrow (newForkEscrow : Address) : Tx (StorageV3 H) := do
  ds.onlyAdmin sender
  return { ds with forkEscrow := newForkEscrow }.emit (.ForkEscrowSet ds.forkEscrow newForkEscrow)

def setForkPeriod (newForkPeriod : Nat) : Tx (StorageV3 H) := do
  ds.onlyAdmin sender
  revertIf (newForkPeriod > MAX_FORK_PERIOD) .ForkPeriodTooLong
  revertIf (newForkPeriod < MIN_FORK_PERIOD) .ForkPeriodTooShort
  return { ds with forkPeriod := newForkPeriod }.emit (.ForkPeriodSet ds.forkPeriod newForkPeriod)

def setForkThresholdBPS (newForkThresholdBPS : Nat) : Tx (StorageV3 H) := do
  ds.onlyAdmin sender
  return { ds with forkThresholdBPS := newForkThresholdBPS }.emit
    (.ForkThresholdSet ds.forkThresholdBPS newForkThresholdBPS)

def setForkParams (forkEscrow forkDAODeployer : Address) (erc20TokensToIncludeInFork : List Address)
    (forkPeriod forkThresholdBPS : Nat) : Tx (StorageV3 H) := do
  let ds ← ds.setForkEscrow sender forkEscrow
  let ds ← ds.setForkDAODeployer sender forkDAODeployer
  let ds ← ds.setErc20TokensToIncludeInFork sender erc20TokensToIncludeInFork
  let ds ← ds.setForkPeriod sender forkPeriod
  ds.setForkThresholdBPS sender forkThresholdBPS

def setTimelocksAndAdmin (timelock timelockV1 admin : Address) : Tx (StorageV3 H) := do
  ds.onlyAdmin sender
  return { ds with timelock, timelockV1, admin }.emit (.TimelocksAndAdminSet timelock timelockV1 admin)

def adminCall : AdminCall → Tx (StorageV3 H)
  | .setVotingDelay v => ds.setVotingDelay sender v
  | .setVotingPeriod v => ds.setVotingPeriod sender v
  | .setProposalThresholdBPS v => ds.setProposalThresholdBPS sender v
  | .setObjectionPeriodDurationInBlocks v => ds.setObjectionPeriodDurationInBlocks sender v
  | .setLastMinuteWindowInBlocks v => ds.setLastMinuteWindowInBlocks sender v
  | .setProposalUpdatablePeriodInBlocks v => ds.setProposalUpdatablePeriodInBlocks sender v
  | .setPendingAdmin a => ds.setPendingAdmin sender a
  | .acceptAdmin => ds.acceptAdmin sender
  | .setPendingVetoer a => ds.setPendingVetoer sender a
  | .acceptVetoer => ds.acceptVetoer sender
  | .burnVetoPower => ds.burnVetoPower sender
  | .setForkDAODeployer a => ds.setForkDAODeployer sender a
  | .setErc20TokensToIncludeInFork l => ds.setErc20TokensToIncludeInFork sender l
  | .setForkEscrow a => ds.setForkEscrow sender a
  | .setForkPeriod v => ds.setForkPeriod sender v
  | .setForkThresholdBPS v => ds.setForkThresholdBPS sender v
  | .setForkParams a b l v w => ds.setForkParams sender a b l v w
  | .setTimelocksAndAdmin a b e => ds.setTimelocksAndAdmin sender a b e

def setVoteSnapshotBlockSwitchProposalId : Tx (StorageV3 H) := do
  ds.onlyAdmin sender
  let oldId := ds.voteSnapshotBlockSwitchProposalId
  revertIf (oldId > 0) .VoteSnapshotSwitchAlreadySet
  let newId := ds.proposalCount + 1
  return { ds with voteSnapshotBlockSwitchProposalId := newId }.emit
    (.VoteSnapshotBlockSwitchProposalIdSet oldId newId)

/-! ## Quorum parameters -/

variable (now : Nat)

def writeQuorumParamsCheckpoint (params : DynamicQuorumParams) : Tx (StorageV3 H) := do
  let blockNumber ← safe32 now "block number exceeds 32 bits"
  return { ds with
    quorumParamsCheckpoints := write ds.quorumParamsCheckpoints blockNumber params }

def setMinQuorumVotesBPS (newMin : Nat) : Tx (StorageV3 H) := do
  ds.onlyAdmin sender
  let params ← ds.getDynamicQuorumParamsAt now
  require (newMin ≥ MIN_QUORUM_VOTES_BPS_LOWER_BOUND ∧ newMin ≤ MIN_QUORUM_VOTES_BPS_UPPER_BOUND)
    (.require "NounsDAO::_setMinQuorumVotesBPS: invalid min quorum votes bps")
  require (newMin ≤ params.maxQuorumVotesBPS)
    (.require "NounsDAO::_setMinQuorumVotesBPS: min quorum votes bps greater than max")
  let ds ← ds.writeQuorumParamsCheckpoint now { params with minQuorumVotesBPS := newMin }
  return ds.emit (.MinQuorumVotesBPSSet params.minQuorumVotesBPS newMin)

def setMaxQuorumVotesBPS (newMax : Nat) : Tx (StorageV3 H) := do
  ds.onlyAdmin sender
  let params ← ds.getDynamicQuorumParamsAt now
  require (newMax ≤ MAX_QUORUM_VOTES_BPS_UPPER_BOUND)
    (.require "NounsDAO::_setMaxQuorumVotesBPS: invalid max quorum votes bps")
  require (params.minQuorumVotesBPS ≤ newMax)
    (.require "NounsDAO::_setMaxQuorumVotesBPS: min quorum votes bps greater than max")
  let ds ← ds.writeQuorumParamsCheckpoint now { params with maxQuorumVotesBPS := newMax }
  return ds.emit (.MaxQuorumVotesBPSSet params.maxQuorumVotesBPS newMax)

def setQuorumCoefficient (newCoefficient : Nat) : Tx (StorageV3 H) := do
  ds.onlyAdmin sender
  let params ← ds.getDynamicQuorumParamsAt now
  let ds ← ds.writeQuorumParamsCheckpoint now { params with quorumCoefficient := newCoefficient }
  return ds.emit (.QuorumCoefficientSet params.quorumCoefficient newCoefficient)

def setDynamicQuorumParams (newMin newMax newCoefficient : Nat) : Tx (StorageV3 H) := do
  ds.onlyAdmin sender
  revertIf (newMin < MIN_QUORUM_VOTES_BPS_LOWER_BOUND ∨ newMin > MIN_QUORUM_VOTES_BPS_UPPER_BOUND)
    .InvalidMinQuorumVotesBPS
  revertIf (newMax > MAX_QUORUM_VOTES_BPS_UPPER_BOUND) .InvalidMaxQuorumVotesBPS
  revertIf (newMin > newMax) .MinQuorumBPSGreaterThanMaxQuorumBPS
  let oldParams ← ds.getDynamicQuorumParamsAt now
  let ds ← ds.writeQuorumParamsCheckpoint now ⟨newMin, newMax, newCoefficient⟩
  let ds := ds.emit (.MinQuorumVotesBPSSet oldParams.minQuorumVotesBPS newMin)
  let ds := ds.emit (.MaxQuorumVotesBPSSet oldParams.maxQuorumVotesBPS newMax)
  return ds.emit (.QuorumCoefficientSet oldParams.quorumCoefficient newCoefficient)

def quorumCall : QuorumCall → Tx (StorageV3 H)
  | .setMinQuorumVotesBPS newMin => ds.setMinQuorumVotesBPS sender now newMin
  | .setMaxQuorumVotesBPS newMax => ds.setMaxQuorumVotesBPS sender now newMax
  | .setQuorumCoefficient newCoefficient => ds.setQuorumCoefficient sender now newCoefficient
  | .setDynamicQuorumParams newMin newMax newCoefficient =>
      ds.setDynamicQuorumParams sender now newMin newMax newCoefficient

end StorageV3

end Nouns
