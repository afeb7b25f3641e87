import Nouns.Governance.Storage
import Nouns.Lib.EntityStore

/-!
# Store — the entities of the subgraph

`schema.graphql` and `utils/helpers.ts`.  An id that is a hex string is the address it stands for, a
`BigInt` an integer.  What no handler reads is left out: the logs of transfers, delegations, deposits
and joins, the versions and texts of proposals, seeds and candidates.
-/

open EntityStore

namespace Nouns.Subgraph

structure Account where
  delegate : Option Address
  tokenBalanceRaw : Int
  tokenBalance : Int
  totalTokensHeldRaw : Int
  totalTokensHeld : Int
  nouns : List Nat
deriving DecidableEq

structure Delegate where
  delegatedVotesRaw : Int
  delegatedVotes : Int
  tokenHoldersRepresentedAmount : Int
  nounsRepresented : List Nat
deriving DecidableEq

structure Noun where
  owner : Address
deriving DecidableEq

structure Governance where
  proposals : Int
  totalTokenHolders : Int
  currentTokenHolders : Int
  currentDelegates : Int
  totalDelegates : Int
  delegatedVotesRaw : Int
  delegatedVotes : Int
  proposalsQueued : Int
  voteSnapshotBlockSwitchProposalId : Int
deriving DecidableEq

structure DynamicQuorumParams where
  minQuorumVotesBPS : Int
  maxQuorumVotesBPS : Int
  quorumCoefficient : Int
  dynamicQuorumStartBlock : Option Nat
deriving DecidableEq

inductive ProposalStatus
  | PENDING | ACTIVE | CANCELLED | VETOED | QUEUED | EXECUTED
deriving DecidableEq, Repr

structure Proposal extends ProposalTxs where
  id : Nat
  proposer : Address
  signers : List Address
  createdTimestamp : Nat
  createdBlock : Nat
  lastUpdatedTimestamp : Nat
  lastUpdatedBlock : Nat
  startBlock : Nat
  endBlock : Nat
  proposalThreshold : Nat
  quorumVotes : Int
  forVotes : Int
  againstVotes : Int
  abstainVotes : Int
  status : ProposalStatus
  executionETA : Option Nat
  totalSupply : Int
  adjustedTotalSupply : Int
  minQuorumVotesBPS : Int
  maxQuorumVotesBPS : Int
  quorumCoefficient : Int
  objectionPeriodEndBlock : Nat
  updatePeriodEndBlock : Nat
  onTimelockV1 : Option Bool
  voteSnapshotBlock : Nat
  canceledBlock : Option Nat
  canceledTimestamp : Option Nat
  executedBlock : Option Nat
  executedTimestamp : Option Nat
  vetoedBlock : Option Nat
  vetoedTimestamp : Option Nat
  queuedBlock : Option Nat
  queuedTimestamp : Option Nat

structure Vote where
  proposal : Nat
  voter : Address
  votesRaw : Int
  votes : Int
  support : Bool
  supportDetailed : Nat
  reason : Option String
  nouns : List Nat
  blockNumber : Nat
  blockTimestamp : Nat
deriving DecidableEq

structure Fork where
  forkID : Nat
  tokensInEscrowCount : Int
  tokensForkingCount : Int
  executed : Option Bool
  executedAt : Option Nat
  forkingPeriodEndTimestamp : Option Nat
  forkTreasury : Option Address
  forkToken : Option Address
deriving DecidableEq

structure EscrowedNoun where
  fork : Nat
  noun : Nat
  owner : Address
deriving DecidableEq

/-- `votes` are by voter and proposal, `escrowedNouns` by fork and Noun. -/
structure Store where
  accounts : Table Address Account
  delegates : Table Address Delegate
  nouns : Table Nat Noun
  governance : Option Governance
  dynamicQuorumParams : Option DynamicQuorumParams
  proposals : Table Nat Proposal
  votes : Table (Address × Nat) Vote
  forks : Table Nat Fork
  escrowedNouns : Table (Nat × Nat) EscrowedNoun

def Account.new : Account where
  delegate := none
  tokenBalanceRaw := 0
  tokenBalance := 0
  totalTokensHeldRaw := 0
  totalTokensHeld := 0
  nouns := []

def Delegate.new : Delegate where
  delegatedVotesRaw := 0
  delegatedVotes := 0
  tokenHoldersRepresentedAmount := 0
  nounsRepresented := []

def Governance.new : Governance where
  proposals := 0
  totalTokenHolders := 0
  currentTokenHolders := 0
  currentDelegates := 0
  totalDelegates := 0
  delegatedVotesRaw := 0
  delegatedVotes := 0
  proposalsQueued := 0
  voteSnapshotBlockSwitchProposalId := 0

def Fork.new (id : Nat) : Fork where
  forkID := id
  tokensInEscrowCount := 0
  tokensForkingCount := 0
  executed := none
  executedAt := none
  forkingPeriodEndTimestamp := none
  forkTreasury := none
  forkToken := none

namespace Store

def empty : Store where
  accounts := .empty
  delegates := .empty
  nouns := .empty
  governance := none
  dynamicQuorumParams := none
  proposals := .empty
  votes := .empty
  forks := .empty
  escrowedNouns := .empty

variable (s : Store)

def saveAccount (id : Address) (account : Account) : Store :=
  { s with accounts := s.accounts.save id account }

def saveDelegate (id : Address) (delegate : Delegate) : Store :=
  { s with delegates := s.delegates.save id delegate }

def saveNoun (id : Nat) (noun : Noun) : Store := { s with nouns := s.nouns.save id noun }

def saveGovernance (governance : Governance) : Store := { s with governance := some governance }

def saveDynamicQuorumParams (params : DynamicQuorumParams) : Store :=
  { s with dynamicQuorumParams := some params }

def saveProposal (proposal : Proposal) : Store :=
  { s with proposals := s.proposals.save proposal.id proposal }

def saveVote (vote : Vote) : Store :=
  { s with votes := s.votes.save (vote.voter, vote.proposal) vote }

def saveFork (fork : Fork) : Store := { s with forks := s.forks.save fork.forkID fork }

def saveEscrowedNoun (noun : EscrowedNoun) : Store :=
  { s with escrowedNouns := s.escrowedNouns.save (noun.fork, noun.noun) noun }

def removeEscrowedNoun (fork noun : Nat) : Store :=
  { s with escrowedNouns := s.escrowedNouns.remove (fork, noun) }

/-! ## Helpers

A helper that may save returns the store as well. -/

def getOrCreateAccount (id : Address) : Store × Account :=
  match s.accounts.load id with
  | some tokenHolder => (s, tokenHolder)
  | none => (s.saveAccount id Account.new, Account.new)

/-- A new entity is not saved. -/
def getGovernanceEntity : Governance := s.governance.getD Governance.new

def getOrCreateDelegate (id : Address) : Store × Delegate :=
  match s.delegates.load id with
  | some delegate => (s, delegate)
  | none =>
    let governance := s.getGovernanceEntity
    let s := if id ≠ 0 then
        s.saveGovernance { governance with totalDelegates := governance.totalDelegates + 1 }
      else s
    (s.saveDelegate id Delegate.new, Delegate.new)

/-- The part of `getOrCreateProposal` for an id that has no entity; the new entity is not saved. -/
def countProposal : Store :=
  let governance := s.getGovernanceEntity
  s.saveGovernance { governance with proposals := governance.proposals + 1 }

/-- `getOrCreateDynamicQuorumParams`; the handlers of the parameters pass their block. -/
def getOrCreateDynamicQuorumParams (block : Option Nat) : Store × DynamicQuorumParams :=
  match s.dynamicQuorumParams with
  | none =>
    let params : DynamicQuorumParams :=
      { minQuorumVotesBPS := 0, maxQuorumVotesBPS := 0, quorumCoefficient := 0
        dynamicQuorumStartBlock := block }
    (s.saveDynamicQuorumParams params, params)
  | some params =>
    if params.dynamicQuorumStartBlock = none ∧ block ≠ none then
      let params := { params with dynamicQuorumStartBlock := block }
      (s.saveDynamicQuorumParams params, params)
    else (s, params)

/-- A new entity is not saved. -/
def getOrCreateFork (id : Nat) : Fork := s.forks.get (Fork.new id) id

end Store

end Nouns.Subgraph
