import Nouns.Subgraph.TokenHandlers

/-!
# DAOHandlers — the events of the DAO

`nouns-dao.ts`, `ParsedProposalV3.ts` and `dynamicQuorum.ts`.  `none` stands for a handler that aborts:
one about a proposal that was never created, whose entity lacks fields that are required, or one that
divides by zero.  Counters of type `i32` count tokens and stay far from their bounds.
-/

open EntityStore

namespace Nouns.Subgraph

/-- The block of an event.  A handler that calls the DAO reads the state at the end of it. -/
structure Block where
  number : Nat
  timestamp : Nat
  adjustedTotalSupply : Nat
deriving DecidableEq

structure ParsedProposalV3 extends ProposalTxs where
  id : Nat
  proposer : Address
  createdTimestamp : Nat
  createdBlock : Nat
  startBlock : Nat
  endBlock : Nat
  updatePeriodEndBlock : Nat
  proposalThreshold : Nat
  quorumVotes : Nat
  status : ProposalStatus
  signers : List Address
  adjustedTotalSupply : Nat

def initialStatus (block : Block) (startBlock : Nat) : ProposalStatus :=
  if block.number ≥ startBlock then .ACTIVE else .PENDING

/-- `fromV1Event`, of the event that the first two versions of the DAO emit. -/
def ParsedProposalV3.fromV1Event (block : Block) (id : Nat) (proposer : Address) (txs : ProposalTxs)
    (startBlock endBlock proposalThreshold quorumVotes : Nat) : ParsedProposalV3 where
  toProposalTxs := txs
  id := id
  proposer := proposer
  createdTimestamp := block.timestamp
  createdBlock := block.number
  startBlock := startBlock
  endBlock := endBlock
  updatePeriodEndBlock := 0
  proposalThreshold := proposalThreshold
  quorumVotes := quorumVotes
  status := initialStatus block startBlock
  signers := []
  adjustedTotalSupply := 0

def ParsedProposalV3.fromV3Event (block : Block) (id : Nat) (proposer : Address)
    (signers : List Address) (txs : ProposalTxs) (startBlock endBlock updatePeriodEndBlock
    proposalThreshold quorumVotes : Nat) : ParsedProposalV3 where
  toProposalTxs := txs
  id := id
  proposer := proposer
  createdTimestamp := block.timestamp
  createdBlock := block.number
  startBlock := startBlock
  endBlock := endBlock
  updatePeriodEndBlock := updatePeriodEndBlock
  proposalThreshold := proposalThreshold
  quorumVotes := quorumVotes
  status := initialStatus block startBlock
  signers := signers
  adjustedTotalSupply := block.adjustedTotalSupply

/-! ## Dynamic quorum -/

/-- `BigInt.toI32`, which aborts on overflow. -/
def toI32 (n : Int) : Option Int := if -2 ^ 31 ≤ n ∧ n < 2 ^ 31 then some n else none

/-- `BigInt.div`, which rounds towards zero. -/
def bigIntDiv (a b : Int) : Option Int := if b = 0 then none else some (a.tdiv b)

def dynamicQuorumVotes (againstVotes totalSupply minQuorumVotesBPS maxQuorumVotesBPS
    quorumCoefficient : Int) : Option Int := do
  let againstVotesBPS ← bigIntDiv (againstVotes * 10000) totalSupply
  let quorumAdjustmentBPS ← bigIntDiv (quorumCoefficient * againstVotesBPS) 1000000
  let adjustedQuorumBPS := quorumAdjustmentBPS + minQuorumVotesBPS
  let quorumBPS := min maxQuorumVotesBPS (← toI32 adjustedQuorumBPS)
  bigIntDiv (totalSupply * quorumBPS) 10000

namespace Store

variable (s : Store) (block : Block)

/-! ## Proposals -/

/-- An entity that exists keeps its optional fields. -/
def handleProposalCreated (parsedProposal : ParsedProposalV3) : Store :=
  let previous := s.proposals.load parsedProposal.id
  let s := if previous = none then s.countProposal else s
  let s := (s.getOrCreateDelegate parsedProposal.proposer).1
  let s := parsedProposal.signers.foldl (fun s signer => (s.getOrCreateDelegate signer).1) s
  let governance := s.getGovernanceEntity
  let dynamicQuorum := s.getOrCreateDynamicQuorumParams none
  let beforeSwitch := governance.voteSnapshotBlockSwitchProposalId = 0 ∨
    parsedProposal.id < governance.voteSnapshotBlockSwitchProposalId
  dynamicQuorum.1.saveProposal
    { toProposalTxs := parsedProposal.toProposalTxs
      id := parsedProposal.id
      proposer := parsedProposal.proposer
      signers := parsedProposal.signers
      createdTimestamp := parsedProposal.createdTimestamp
      createdBlock := parsedProposal.createdBlock
      lastUpdatedTimestamp := parsedProposal.createdTimestamp
      lastUpdatedBlock := parsedProposal.createdBlock
      startBlock := parsedProposal.startBlock
      endBlock := parsedProposal.endBlock
      proposalThreshold := parsedProposal.proposalThreshold
      quorumVotes := parsedProposal.quorumVotes
      forVotes := 0
      againstVotes := 0
      abstainVotes := 0
      status := parsedProposal.status
      executionETA := previous.bind (·.executionETA)
      totalSupply := governance.totalTokenHolders
      adjustedTotalSupply := if parsedProposal.adjustedTotalSupply = 0 then
        governance.totalTokenHolders else parsedProposal.adjustedTotalSupply
      minQuorumVotesBPS := dynamicQuorum.2.minQuorumVotesBPS
      maxQuorumVotesBPS := dynamicQuorum.2.maxQuorumVotesBPS
      quorumCoefficient := dynamicQuorum.2.quorumCoefficient
      objectionPeriodEndBlock := 0
      updatePeriodEndBlock := parsedProposal.updatePeriodEndBlock
      onTimelockV1 := previous.bind (·.onTimelockV1)
      voteSnapshotBlock := if beforeSwitch then parsedProposal.createdBlock
        else parsedProposal.startBlock
      canceledBlock := previous.bind (·.canceledBlock)
      canceledTimestamp := previous.bind (·.canceledTimestamp)
      executedBlock := previous.bind (·.executedBlock)
      executedTimestamp := previous.bind (·.executedTimestamp)
      vetoedBlock := previous.bind (·.vetoedBlock)
      vetoedTimestamp := previous.bind (·.vetoedTimestamp)
      queuedBlock := previous.bind (·.queuedBlock)
      queuedTimestamp := previous.bind (·.queuedTimestamp) }

def handleProposalCreatedOnTimelockV1 (id : Nat) : Option Store := do
  let proposal ← s.proposals.load id
  return s.saveProposal { proposal with onTimelockV1 := some true }

/-- `handleProposalUpdated` and `handleProposalTransactionsUpdated`. -/
def handleProposalTransactionsUpdated (id : Nat) (txs : ProposalTxs) : Option Store := do
  let proposal ← s.proposals.load id
  return s.saveProposal { proposal with
    toProposalTxs := txs
    lastUpdatedTimestamp := block.timestamp
    lastUpdatedBlock := block.number }

def handleProposalDescriptionUpdated (id : Nat) : Option Store := do
  let proposal ← s.proposals.load id
  return s.saveProposal { proposal with
    lastUpdatedTimestamp := block.timestamp
    lastUpdatedBlock := block.number }

def handleProposalCanceled (id : Nat) : Option Store := do
  let proposal ← s.proposals.load id
  return s.saveProposal { proposal with
    status := .CANCELLED
    canceledBlock := some block.number
    canceledTimestamp := some block.timestamp }

def handleProposalVetoed (id : Nat) : Option Store := do
  let proposal ← s.proposals.load id
  return s.saveProposal { proposal with
    status := .VETOED
    vetoedBlock := some block.number
    vetoedTimestamp := some block.timestamp }

def handleProposalQueued (id eta : Nat) : Option Store := do
  let governance := s.getGovernanceEntity
  let proposal ← s.proposals.load id
  let s := s.saveProposal { proposal with
    status := .QUEUED
    executionETA := some eta
    queuedBlock := some block.number
    queuedTimestamp := some block.timestamp }
  return s.saveGovernance { governance with proposalsQueued := governance.proposalsQueued + 1 }

def handleProposalExecuted (id : Nat) : Option Store := do
  let governance := s.getGovernanceEntity
  let proposal ← s.proposals.load id
  let s := s.saveProposal { proposal with
    status := .EXECUTED
    executionETA := none
    executedBlock := some block.number
    executedTimestamp := some block.timestamp }
  return s.saveGovernance { governance with proposalsQueued := governance.proposalsQueued - 1 }

def handleProposalObjectionPeriodSet (id objectionPeriodEndBlock : Nat) : Option Store := do
  let proposal ← s.proposals.load id
  return s.saveProposal { proposal with objectionPeriodEndBlock }

/-! ## Votes -/

/-- The counts of a proposal after a vote; a `support` above 2 does not occur. -/
def countVotes (proposal : Proposal) (support votes : Nat) : Proposal :=
  match support with
  | 0 => { proposal with againstVotes := proposal.againstVotes + votes }
  | 1 => { proposal with forVotes := proposal.forVotes + votes }
  | 2 => { proposal with abstainVotes := proposal.abstainVotes + votes }
  | _ => proposal

def usingDynamicQuorum (dqParams : DynamicQuorumParams) (createdBlock : Nat) : Bool :=
  match dqParams.dynamicQuorumStartBlock with
  | none => false
  | some startBlock => startBlock < createdBlock

/-- The quorum of a proposal after its votes were counted. -/
def updatedQuorum (dqParams : DynamicQuorumParams) (proposal : Proposal) : Option Int :=
  if usingDynamicQuorum dqParams proposal.createdBlock then
    dynamicQuorumVotes proposal.againstVotes proposal.adjustedTotalSupply
      proposal.minQuorumVotesBPS proposal.maxQuorumVotesBPS proposal.quorumCoefficient
  else some proposal.quorumVotes

def handleVoteCast (voter : Address) (proposalId support votes : Nat) (reason : String) :
    Option Store := do
  let proposal ← s.proposals.load proposalId
  let vote := s.votes.load (voter, proposalId)
  let voterResult := s.getOrCreateDelegate voter
  let s := voterResult.1.saveVote
    { proposal := proposalId
      voter := voter
      votesRaw := votes
      votes := votes
      support := support = 1
      supportDetailed := support
      reason := if reason ≠ "" then some reason else vote.bind (·.reason)
      nouns := voterResult.2.nounsRepresented
      blockNumber := block.number
      blockTimestamp := block.timestamp }
  let proposal := countVotes proposal support votes
  let dqParams := s.getOrCreateDynamicQuorumParams none
  let quorumVotes ← updatedQuorum dqParams.2 proposal
  return dqParams.1.saveProposal { proposal with
    quorumVotes := quorumVotes
    status := if proposal.status = .PENDING then .ACTIVE else proposal.status }

/-! ## Quorum parameters -/

def handleMinQuorumVotesBPSSet (newMinQuorumVotesBPS : Nat) : Store :=
  let params := s.getOrCreateDynamicQuorumParams (some block.number)
  params.1.saveDynamicQuorumParams { params.2 with minQuorumVotesBPS := newMinQuorumVotesBPS }

def handleMaxQuorumVotesBPSSet (newMaxQuorumVotesBPS : Nat) : Store :=
  let params := s.getOrCreateDynamicQuorumParams (some block.number)
  params.1.saveDynamicQuorumParams { params.2 with maxQuorumVotesBPS := newMaxQuorumVotesBPS }

def handleQuorumCoefficientSet (newQuorumCoefficient : Nat) : Store :=
  let params := s.getOrCreateDynamicQuorumParams (some block.number)
  params.1.saveDynamicQuorumParams { params.2 with quorumCoefficient := newQuorumCoefficient }

/-! ## Forks -/

def handleEscrowedToFork (forkId : Nat) (owner : Address) (tokenIds : List Nat) : Store :=
  let fork := s.getOrCreateFork forkId
  let s := (s.getOrCreateDelegate owner).1
  let s := tokenIds.foldl
    (fun s tokenId => s.saveEscrowedNoun { fork := fork.forkID, noun := tokenId, owner }) s
  s.saveFork { fork with tokensInEscrowCount := fork.tokensInEscrowCount + tokenIds.length }

def handleWithdrawFromForkEscrow (forkId : Nat) (owner : Address) (tokenIds : List Nat) : Store :=
  let fork := s.getOrCreateFork forkId
  let s := (s.getOrCreateDelegate owner).1
  let s := tokenIds.foldl (fun s tokenId => s.removeEscrowedNoun fork.forkID tokenId) s
  s.saveFork { fork with tokensInEscrowCount := fork.tokensInEscrowCount - tokenIds.length }

def handleExecuteFork (forkId : Nat) (forkTreasury forkToken : Address)
    (forkEndTimestamp tokensInEscrow : Nat) : Store :=
  let fork := s.getOrCreateFork forkId
  -- A count that differs is logged as a mismatch.
  let tokensInEscrowCount := if fork.tokensInEscrowCount ≠ tokensInEscrow then
    (tokensInEscrow : Int) else fork.tokensInEscrowCount
  s.saveFork { fork with
    executed := some true
    executedAt := some block.timestamp
    forkingPeriodEndTimestamp := some forkEndTimestamp
    forkTreasury := some forkTreasury
    forkToken := some forkToken
    tokensInEscrowCount := tokensInEscrowCount
    tokensForkingCount := tokensInEscrowCount }

def handleJoinFork (forkId : Nat) (owner : Address) (tokenIds : List Nat) : Store :=
  let fork := s.getOrCreateFork forkId
  let s := (s.getOrCreateDelegate owner).1
  s.saveFork { fork with tokensForkingCount := fork.tokensForkingCount + tokenIds.length }

def handleVoteSnapshotBlockSwitchProposalIdSet (newVoteSnapshotBlockSwitchProposalId : Nat) :
    Store :=
  s.saveGovernance { s.getGovernanceEntity with
    voteSnapshotBlockSwitchProposalId := newVoteSnapshotBlockSwitchProposalId }

/-- The handlers of `subgraph.yaml` for the DAO.  That of `SignatureCancelled` is about candidates,
which are left out. -/
def handleDAOEvent : DAOEvent → Option Store
  | .ProposalCreatedWithRequirements id proposer signers txs startBlock endBlock
      updatePeriodEndBlock proposalThreshold quorumVotes _ =>
      some (s.handleProposalCreated (.fromV3Event block id proposer signers txs startBlock endBlock
        updatePeriodEndBlock proposalThreshold quorumVotes))
  | .ProposalCreatedOnTimelockV1 id => s.handleProposalCreatedOnTimelockV1 id
  | .ProposalUpdated id _ txs _ _ => s.handleProposalTransactionsUpdated block id txs
  | .ProposalTransactionsUpdated id _ txs _ => s.handleProposalTransactionsUpdated block id txs
  | .ProposalDescriptionUpdated id _ _ _ => s.handleProposalDescriptionUpdated block id
  | .ProposalCanceled id => s.handleProposalCanceled block id
  | .ProposalVetoed id => s.handleProposalVetoed block id
  | .ProposalQueued id eta => s.handleProposalQueued block id eta
  | .ProposalExecuted id => s.handleProposalExecuted block id
  | .VoteCast voter proposalId support votes reason =>
      s.handleVoteCast block voter proposalId support votes reason
  | .MinQuorumVotesBPSSet _ newValue => some (s.handleMinQuorumVotesBPSSet block newValue)
  | .MaxQuorumVotesBPSSet _ newValue => some (s.handleMaxQuorumVotesBPSSet block newValue)
  | .QuorumCoefficientSet _ newValue => some (s.handleQuorumCoefficientSet block newValue)
  | .ProposalObjectionPeriodSet id objectionPeriodEndBlock =>
      s.handleProposalObjectionPeriodSet id objectionPeriodEndBlock
  | .EscrowedToFork forkId owner tokenIds _ _ => some (s.handleEscrowedToFork forkId owner tokenIds)
  | .WithdrawFromForkEscrow forkId owner tokenIds =>
      some (s.handleWithdrawFromForkEscrow forkId owner tokenIds)
  | .ExecuteFork forkId forkTreasury forkToken forkEndTimestamp tokensInEscrow =>
      some (s.handleExecuteFork block forkId forkTreasury forkToken forkEndTimestamp tokensInEscrow)
  | .JoinFork forkId owner tokenIds _ _ => some (s.handleJoinFork forkId owner tokenIds)
  | .VoteSnapshotBlockSwitchProposalIdSet _ newValue =>
      some (s.handleVoteSnapshotBlockSwitchProposalIdSet newValue)
  | _ => some s

end Store

/-! ## Indexing -/

/-- An event that the subgraph indexes. -/
inductive Event
  | token (e : TokenEvent)
  | dao (block : Block) (e : DAOEvent)
  /-- `ProposalCreatedWithRequirements` of the first two versions of the DAO. -/
  | proposalCreatedV1 (block : Block) (id : Nat) (proposer : Address) (txs : ProposalTxs)
      (startBlock endBlock proposalThreshold quorumVotes : Nat)

def Store.handle (s : Store) : Event → Option Store
  | .token e => some (s.handleTokenEvent e)
  | .dao block e => s.handleDAOEvent block e
  | .proposalCreatedV1 block id proposer txs startBlock endBlock proposalThreshold quorumVotes =>
      some (s.handleProposalCreated (.fromV1Event block id proposer txs startBlock endBlock
        proposalThreshold quorumVotes))

/-- The store after these events, of which the latest comes first. -/
def indexed : List Event → Option Store
  | [] => some Store.empty
  | e :: events => do (← indexed events).handle e

/-- The events of the token among these. -/
def tokenEvents (events : List Event) : List TokenEvent :=
  events.filterMap fun
    | .token e => some e
    | _ => none

end Nouns.Subgraph
