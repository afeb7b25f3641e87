import Nouns.Governance.Proposals
import Nouns.Token.NounsTokenFork

/-!
# Governor — the logic of a fork DAO

`NounsDAOLogicV1Fork` with its storage, but for execution and quitting, which call outside code and
are modelled with the whole system.  The timelock and the token are set once, by `initialize`, and
belong to the deployment; upgrades are left out.
-/

open Fallible

namespace Nouns

/-- The states of a proposal of a fork DAO. -/
inductive ForkProposalState
  | Pending | Active | Canceled | Defeated | Succeeded | Queued | Expired | Executed
deriving DecidableEq, Repr

structure ForkProposal extends ProposalTxs where
  id : Nat
  proposer : Address
  proposalThreshold : Nat
  quorumVotes : Nat
  eta : Nat
  startBlock : Nat
  endBlock : Nat
  forVotes : Nat
  againstVotes : Nat
  abstainVotes : Nat
  canceled : Bool
  executed : Bool
  receipts : Address → Receipt
  creationBlock : Nat

/-- A storage slot that was never written. -/
def ForkProposal.empty : ForkProposal where
  targets := []
  values := []
  signatures := []
  calldatas := []
  id := 0
  proposer := 0
  proposalThreshold := 0
  quorumVotes := 0
  eta := 0
  startBlock := 0
  endBlock := 0
  forVotes := 0
  againstVotes := 0
  abstainVotes := 0
  canceled := false
  executed := false
  receipts := fun _ => ⟨false, 0, 0⟩
  creationBlock := 0

inductive ForkDAOEvent
  | ProposalCreated (id : Nat) (proposer : Address) (txs : ProposalTxs) (startBlock endBlock : Nat)
      (description : String)
  | ProposalCreatedWithRequirements (id : Nat) (proposer : Address) (txs : ProposalTxs)
      (startBlock endBlock proposalThreshold quorumVotes : Nat) (description : String)
  | VoteCast (voter : Address) (proposalId support votes : Nat) (reason : String)
  | ProposalCanceled (id : Nat)
  | ProposalQueued (id eta : Nat)
  | ProposalExecuted (id : Nat)
  | VotingDelaySet (oldValue newValue : Nat)
  | VotingPeriodSet (oldValue newValue : Nat)
  | ProposalThresholdBPSSet (oldValue newValue : Nat)
  | QuorumVotesBPSSet (oldValue newValue : Nat)
  | NewPendingAdmin (oldPendingAdmin newPendingAdmin : Address)
  | NewAdmin (oldAdmin newAdmin : Address)
  | ERC20TokensToIncludeInQuitSet (oldErc20Tokens newErc20tokens : List Address)
  | Quit (msgSender : Address) (tokenIds : List Nat)

/-- `entered` is the status of the reentrancy guard. -/
structure StorageV1Fork where
  admin : Address
  pendingAdmin : Address
  votingDelay : Nat
  votingPeriod : Nat
  proposalThresholdBPS : Nat
  quorumVotesBPS : Nat
  proposalCount : Nat
  proposals : Nat → ForkProposal
  latestProposalIds : Address → Nat
  delayedGovernanceExpirationTimestamp : Nat
  erc20TokensToIncludeInQuit : List Address
  entered : Bool
  log : List ForkDAOEvent

/-- What the fork DAO reads besides its own storage, and the addresses it knows. -/
structure ForkEnv (H : Type) where
  blockNumber : Nat
  timestamp : Nat
  crypto : Crypto H
  dao : Address
  timelock : Address
  nouns : NounsTokenFork

/-- The setters of a fork DAO. -/
inductive ForkAdminCall
  | setVotingDelay (newVotingDelay : Nat)
  | setVotingPeriod (newVotingPeriod : Nat)
  | setProposalThresholdBPS (newProposalThresholdBPS : Nat)
  | setQuorumVotesBPS (newQuorumVotesBPS : Nat)
  | setPendingAdmin (newPendingAdmin : Address)
  | acceptAdmin
  | setErc20TokensToIncludeInQuit (erc20tokens : List Address)

namespace StorageV1Fork

def MIN_VOTING_PERIOD : Nat := 7200
def MAX_VOTING_PERIOD : Nat := 100800
def MIN_VOTING_DELAY : Nat := 1
def MAX_VOTING_DELAY : Nat := 100800
def MIN_QUORUM_VOTES_BPS : Nat := 200
def MAX_QUORUM_VOTES_BPS : Nat := 2000
def proposalMaxOperations : Nat := 10

variable {H : Type} [DecidableEq H] (ds : StorageV1Fork) (env : ForkEnv H)

/-- The storage `initialize` leaves behind. -/
def deploy (timelock : Address) (votingPeriod votingDelay proposalThresholdBPS quorumVotesBPS : Nat)
    (erc20TokensToIncludeInQuit : List Address) (delayedGovernanceExpirationTimestamp : Nat) :
    StorageV1Fork where
  admin := timelock
  pendingAdmin := 0
  votingDelay
  votingPeriod
  proposalThresholdBPS
  quorumVotesBPS
  proposalCount := 0
  proposals := fun _ => ForkProposal.empty
  latestProposalIds := fun _ => 0
  delayedGovernanceExpirationTimestamp
  erc20TokensToIncludeInQuit
  entered := false
  log := [.QuorumVotesBPSSet 0 quorumVotesBPS, .ProposalThresholdBPSSet 0 proposalThresholdBPS,
    .VotingDelaySet 0 votingDelay, .VotingPeriodSet 0 votingPeriod]

def emit (e : ForkDAOEvent) : StorageV1Fork := { ds with log := e :: ds.log }

def setProposal (id : Nat) (p : ForkProposal) : StorageV1Fork :=
  { ds with proposals := Function.update ds.proposals id p }

def adjustedTotalSupply : Tx Nat := do
  let rest ← checkedSub env.nouns.totalSupply (← env.nouns.balanceOf env.timelock)
  return rest + env.nouns.remainingTokensToClaim

def checkGovernanceActive : Tx Unit := do
  revertIf (env.timestamp < env.nouns.forkingPeriodEndTimestamp)
    .GovernanceBlockedDuringForkingPeriod
  revertIf (env.timestamp < ds.delayedGovernanceExpirationTimestamp ∧
    env.nouns.remainingTokensToClaim > 0) .WaitingForTokensToClaimOrExpiration

/-- `nouns.getPriorVotes(account, block.number - 1)`. -/
def votesBeforeNow (account : Address) : Tx Nat := do
  env.nouns.getPriorVotes env.blockNumber account (← checkedSub env.blockNumber 1)

def state (proposalId : Nat) : Tx ForkProposalState := do
  require (ds.proposalCount ≥ proposalId) (.require "NounsDAO::state: invalid proposal id")
  let proposal := ds.proposals proposalId
  if proposal.canceled then return .Canceled
  else if env.blockNumber ≤ proposal.startBlock then return .Pending
  else if env.blockNumber ≤ proposal.endBlock then return .Active
  else if proposal.forVotes ≤ proposal.againstVotes ∨ proposal.forVotes < proposal.quorumVotes then
    return .Defeated
  else if proposal.eta = 0 then return .Succeeded
  else if proposal.executed then return .Executed
  else if env.timestamp ≥ proposal.eta + ExecutorVersion.NounsDAOExecutorV2.GRACE_PERIOD then
    return .Expired
  else return .Queued

/-! ## Proposing -/

/-- The checks of `propose` on the latest proposal of its caller. -/
def checkLatestProposal (sender : Address) : Tx Unit := do
  let latestProposalId := ds.latestProposalIds sender
  if latestProposalId ≠ 0 then
    let proposersLatestProposalState ← ds.state env latestProposalId
    require (proposersLatestProposalState ≠ .Active) (.require ("NounsDAO::propose: " ++
      "one live proposal per proposer, found an already active proposal"))
    require (proposersLatestProposalState ≠ .Pending) (.require ("NounsDAO::propose: " ++
      "one live proposal per proposer, found an already pending proposal"))

def propose (sender : Address) (txs : ProposalTxs) (description : String) :
    Tx (StorageV1Fork × Nat) := do
  ds.checkGovernanceActive env
  let totalSupply ← adjustedTotalSupply env
  let proposalThreshold := bps2Uint ds.proposalThresholdBPS totalSupply
  require ((← votesBeforeNow env sender) > proposalThreshold)
    (.require "NounsDAO::propose: proposer votes below proposal threshold")
  require (txs.targets.length = txs.values.length ∧
      txs.targets.length = txs.signatures.length ∧ txs.targets.length = txs.calldatas.length)
    (.require "NounsDAO::propose: proposal function information arity mismatch")
  require (txs.targets.length ≠ 0) (.require "NounsDAO::propose: must provide actions")
  require (txs.targets.length ≤ proposalMaxOperations)
    (.require "NounsDAO::propose: too many actions")
  ds.checkLatestProposal env sender
  let startBlock := env.blockNumber + ds.votingDelay
  let endBlock := startBlock + ds.votingPeriod
  let id := ds.proposalCount + 1
  let quorumVotes := bps2Uint ds.quorumVotesBPS totalSupply
  let ds := { ds with
    proposalCount := id
    latestProposalIds := Function.update ds.latestProposalIds sender id }
  let ds := ds.setProposal id { ds.proposals id with
    toProposalTxs := txs
    id
    proposer := sender
    proposalThreshold
    quorumVotes
    eta := 0
    startBlock
    endBlock
    forVotes := 0
    againstVotes := 0
    abstainVotes := 0
    canceled := false
    executed := false
    creationBlock := env.blockNumber }
  let ds := ds.emit (.ProposalCreated id sender txs startBlock endBlock description)
  return (ds.emit (.ProposalCreatedWithRequirements id sender txs startBlock endBlock
    proposalThreshold quorumVotes description), id)

/-! ## Queue and cancel

`e` is the executor at the timelock. -/

def queueOrRevertInternal (e : Executor H) (tx : Transaction) : Tx (Executor H) := do
  require (e.isQueued env.crypto tx = false)
    (.require ("NounsDAO::queueOrRevertInternal: " ++
      "identical proposal action already queued at eta"))
  e.queueTransaction env.crypto env.timestamp env.dao tx

def queue (e : Executor H) (proposalId : Nat) : Tx (StorageV1Fork × Executor H) := do
  require ((← ds.state env proposalId) = .Succeeded)
    (.require "NounsDAO::queue: proposal can only be queued if it is succeeded")
  let proposal := ds.proposals proposalId
  let eta := env.timestamp + e.delay
  let e ← proposal.forEachAction eta (queueOrRevertInternal env) e
  let ds := ds.setProposal proposalId { proposal with eta }
  return (ds.emit (.ProposalQueued proposalId eta), e)

def cancel (e : Executor H) (sender : Address) (proposalId : Nat) :
    Tx (StorageV1Fork × Executor H) := do
  require ((← ds.state env proposalId) ≠ .Executed)
    (.require "NounsDAO::cancel: cannot cancel executed proposal")
  let proposal := ds.proposals proposalId
  -- The votes are looked up only if the caller is not the proposer.
  if sender ≠ proposal.proposer then
    require ((← votesBeforeNow env proposal.proposer) ≤ proposal.proposalThreshold)
      (.require "NounsDAO::cancel: proposer above threshold")
  let ds := ds.setProposal proposalId { proposal with canceled := true }
  let e ← proposal.forEachAction proposal.eta
    (fun e tx => e.cancelTransaction env.crypto env.dao tx) e
  return (ds.emit (.ProposalCanceled proposalId), e)

/-! ## Votes -/

/-- The votes added to the side the voter takes. -/
def countVotes (proposal : ForkProposal) (support votes : Nat) : ForkProposal :=
  if support = 0 then { proposal with againstVotes := proposal.againstVotes + votes }
  else if support = 1 then { proposal with forVotes := proposal.forVotes + votes }
  else if support = 2 then { proposal with abstainVotes := proposal.abstainVotes + votes }
  else proposal

/-- Returns the storage and the number of votes cast. -/
def castVoteInternal (voter : Address) (proposalId support : Nat) : Tx (StorageV1Fork × Nat) := do
  require ((← ds.state env proposalId) = .Active)
    (.require "NounsDAO::castVoteInternal: voting is closed")
  require (support ≤ 2) (.require "NounsDAO::castVoteInternal: invalid vote type")
  let proposal := ds.proposals proposalId
  require ((proposal.receipts voter).hasVoted = false)
    (.require "NounsDAO::castVoteInternal: voter already voted")
  let votes ← env.nouns.getPriorVotes env.blockNumber voter proposal.creationBlock
  let proposal := countVotes proposal support votes
  let proposal := { proposal with
    receipts := Function.update proposal.receipts voter ⟨true, support, votes⟩ }
  return (ds.setProposal proposalId proposal, votes)

def castVoteWithReason (sender : Address) (proposalId support : Nat) (reason : String) :
    Tx StorageV1Fork := do
  let (ds, votes) ← ds.castVoteInternal env sender proposalId support
  return ds.emit (.VoteCast sender proposalId support votes reason)

def castVote (sender : Address) (proposalId support : Nat) : Tx StorageV1Fork :=
  ds.castVoteWithReason env sender proposalId support ""

def castVoteBySig (proposalId support : Nat) (sig : Bytes) : Tx StorageV1Fork := do
  let signatory := env.crypto.ecrecover (env.crypto.keccak256 (.ballot proposalId support)) sig
  require (signatory ≠ 0) (.require "NounsDAO::castVoteBySig: invalid signature")
  ds.castVoteWithReason env signatory proposalId support ""

/-! ## Setters -/

/-- The body of a setter with a range: its name, the bounds and the text of the range check. -/
def setInRange (sender : Address) (name invalid : String) (min max value : Nat)
    (ds' : StorageV1Fork) : Tx StorageV1Fork := do
  require (sender = ds.admin) (.require ("NounsDAO::" ++ name ++ ": admin only"))
  require (value ≥ min ∧ value ≤ max) (.require ("NounsDAO::" ++ invalid))
  return ds'

def setVotingDelay (sender : Address) (newVotingDelay : Nat) : Tx StorageV1Fork :=
  ds.setInRange sender "_setVotingDelay" "_setVotingDelay: invalid voting delay" MIN_VOTING_DELAY
    MAX_VOTING_DELAY newVotingDelay
    ({ ds with votingDelay := newVotingDelay }.emit (.VotingDelaySet ds.votingDelay newVotingDelay))

def setVotingPeriod (sender : Address) (newVotingPeriod : Nat) : Tx StorageV1Fork :=
  ds.setInRange sender "_setVotingPeriod" "_setVotingPeriod: invalid voting period"
    MIN_VOTING_PERIOD MAX_VOTING_PERIOD newVotingPeriod
    ({ ds with votingPeriod := newVotingPeriod }.emit
      (.VotingPeriodSet ds.votingPeriod newVotingPeriod))

def setProposalThresholdBPS (sender : Address) (newProposalThresholdBPS : Nat) :
    Tx StorageV1Fork :=
  ds.setInRange sender "_setProposalThresholdBPS"
    "_setProposalThreshold: invalid proposal threshold" MIN_PROPOSAL_THRESHOLD_BPS
    MAX_PROPOSAL_THRESHOLD_BPS newProposalThresholdBPS
    ({ ds with proposalThresholdBPS := newProposalThresholdBPS }.emit
      (.ProposalThresholdBPSSet ds.proposalThresholdBPS newProposalThresholdBPS))

def setQuorumVotesBPS (sender : Address) (newQuorumVotesBPS : Nat) : Tx StorageV1Fork :=
  ds.setInRange sender "_setQuorumVotesBPS"
    "_setQuorumVotesBPS: invalid quorum votes basis points" MIN_QUORUM_VOTES_BPS
    MAX_QUORUM_VOTES_BPS newQuorumVotesBPS
    ({ ds with quorumVotesBPS := newQuorumVotesBPS }.emit
      (.QuorumVotesBPSSet ds.quorumVotesBPS newQuorumVotesBPS))

def setPendingAdmin (sender newPendingAdmin : Address) : Tx StorageV1Fork := do
  require (sender = ds.admin) (.require "NounsDAO::_setPendingAdmin: admin only")
  return { ds with pendingAdmin := newPendingAdmin }.emit
    (.NewPendingAdmin ds.pendingAdmin newPendingAdmin)

def acceptAdmin (sender : Address) : Tx StorageV1Fork := do
  require (sender = ds.pendingAdmin ∧ sender ≠ 0)
    (.require "NounsDAO::_acceptAdmin: pending admin only")
  let ds' := { ds with admin := ds.pendingAdmin, pendingAdmin := 0 }
  return (ds'.emit (.NewAdmin ds.admin ds'.admin)).emit (.NewPendingAdmin ds.pendingAdmin 0)

def checkForDuplicates (erc20tokens : List Address) : Tx Unit :=
  checkDistinct erc20tokens .DuplicateTokenAddress

def setErc20TokensToIncludeInQuit (sender : Address) (erc20tokens : List Address) :
    Tx StorageV1Fork := do
  revertIf (sender ≠ ds.admin) .AdminOnly
  checkForDuplicates erc20tokens
  return { ds with erc20TokensToIncludeInQuit := erc20tokens }.emit
    (.ERC20TokensToIncludeInQuitSet ds.erc20TokensToIncludeInQuit erc20tokens)

def adminCall (sender : Address) : ForkAdminCall → Tx StorageV1Fork
  | .setVotingDelay v => ds.setVotingDelay sender v
  | .setVotingPeriod v => ds.setVotingPeriod sender v
  | .setProposalThresholdBPS v => ds.setProposalThresholdBPS sender v
  | .setQuorumVotesBPS v => ds.setQuorumVotesBPS sender v
  | .setPendingAdmin a => ds.setPendingAdmin sender a
  | .acceptAdmin => ds.acceptAdmin sender
  | .setErc20TokensToIncludeInQuit l => ds.setErc20TokensToIncludeInQuit sender l

end StorageV1Fork

end Nouns
