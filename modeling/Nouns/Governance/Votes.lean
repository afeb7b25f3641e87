import Nouns.Governance.Proposals

/-!
# Votes — casting votes

`NounsDAOV3Votes` but for sending the gas refund, which calls outside code and is modelled with the
whole system.
-/

open Fallible

namespace Nouns

def gwei : Nat := 10 ^ 9
def MAX_REFUND_PRIORITY_FEE : Nat := 2 * gwei
def REFUND_BASE_GAS : Nat := 36000
def MAX_REFUND_GAS_USED : Nat := 200000
def MAX_REFUND_BASE_FEE : Nat := 200 * gwei

/-- The transaction a refund is computed from: `gasSpent` is `startGas - gasleft()`, and
`acceptsETH` tells whether the recipient of ETH takes it. -/
structure TxContext where
  origin : Address
  basefee : Nat
  gasprice : Nat
  gasSpent : Nat
  acceptsETH : Bool

/-- The amount `_refundGas` sends out of `balance`. -/
def refundAmount (tx : TxContext) (balance : Nat) : Nat :=
  let basefee := min tx.basefee MAX_REFUND_BASE_FEE
  let gasPrice := min tx.gasprice (basefee + MAX_REFUND_PRIORITY_FEE)
  let gasUsed := min (tx.gasSpent + REFUND_BASE_GAS) MAX_REFUND_GAS_USED
  min (gasPrice * gasUsed) balance

def ProposalStorage.proposalVoteSnapshotBlock (ds : ProposalStorage) (proposalId : Nat)
    (proposal : Proposal) : Nat :=
  let switchId := ds.voteSnapshotBlockSwitchProposalId
  if proposalId < switchId ∨ switchId = 0 then proposal.creationBlock else proposal.startBlock

namespace StorageV3

variable {H : Type} (ds : StorageV3 H) (env : Env H)

/-- The votes added to the side the voter takes. -/
def countVotes (proposal : Proposal) (support votes : Nat) : Proposal :=
  if support = 0 then { proposal with againstVotes := proposal.againstVotes + votes }
  else if support = 1 then { proposal with forVotes := proposal.forVotes + votes }
  else if support = 2 then { proposal with abstainVotes := proposal.abstainVotes + votes }
  else proposal

def setReceipt (proposal : Proposal) (voter : Address) (receipt : Receipt) : Proposal :=
  { proposal with receipts := Function.update proposal.receipts voter receipt }

def isForVoteInLastMinuteWindow (proposal : Proposal) (support : Nat) : Tx Bool :=
  if support = 1 then do
    return (← checkedSub proposal.endBlock env.blockNumber) < ds.lastMinuteWindowInBlocks
  else return false

def isDefeatedBefore (proposal : Proposal) (isForVoteInLastMinuteWindow : Bool) : Tx Bool :=
  if isForVoteInLastMinuteWindow then ds.isDefeated proposal else return false

/-- Opens an objection period when a For vote in the last minutes turned the outcome. -/
def triggerObjection (proposalId : Nat) (flipped : Bool) : Tx (StorageV3 H) := do
  let proposal := ds.proposals proposalId
  if flipped = true ∧ proposal.objectionPeriodEndBlock = 0 then
    if (← ds.isDefeated proposal) = false then
      let objectionPeriodEndBlock ← toUint64
        (proposal.endBlock + ds.objectionPeriodDurationInBlocks)
      let ds := ds.setProposal proposalId { proposal with objectionPeriodEndBlock }
      return ds.emit (.ProposalObjectionPeriodSet proposal.id objectionPeriodEndBlock)
    else return ds
  else return ds

/-- Returns the storage and the number of votes cast. -/
def castVoteDuringVotingPeriodInternal (proposalId : Nat) (voter : Address) (support : Nat) :
    Tx (StorageV3 H × Nat) := do
  require (support ≤ 2)
    (.require "NounsDAO::castVoteDuringVotingPeriodInternal: invalid vote type")
  let proposal := ds.proposals proposalId
  require ((proposal.receipts voter).hasVoted = false)
    (.require "NounsDAO::castVoteDuringVotingPeriodInternal: voter already voted")
  let votes ← env.nouns.getPriorVotes env.blockNumber voter
    (ds.proposalVoteSnapshotBlock proposalId proposal)
  let isForVoteInLastMinuteWindow ← ds.isForVoteInLastMinuteWindow env proposal support
  let isDefeatedBefore ← ds.isDefeatedBefore proposal isForVoteInLastMinuteWindow
  let ds := ds.setProposal proposalId (countVotes proposal support votes)
  let ds ← ds.triggerObjection proposalId isDefeatedBefore
  let ds := ds.setProposal proposalId
    (setReceipt (ds.proposals proposalId) voter ⟨true, support, votes⟩)
  return (ds, votes)

def castObjectionInternal (proposalId : Nat) (voter : Address) : Tx (StorageV3 H × Nat) := do
  let proposal := ds.proposals proposalId
  require ((proposal.receipts voter).hasVoted = false)
    (.require "NounsDAO::castVoteInternal: voter already voted")
  let votes ← env.nouns.getPriorVotes env.blockNumber voter
    (ds.proposalVoteSnapshotBlock proposalId proposal)
  let proposal := setReceipt proposal voter ⟨true, 0, votes⟩
  return (ds.setProposal proposalId
    { proposal with againstVotes := proposal.againstVotes + votes }, votes)

def castVoteInternal (voter : Address) (proposalId support : Nat) : Tx (StorageV3 H × Nat) := do
  let proposalState ← ds.stateInternal env.toClock proposalId
  if proposalState = .Active then
    ds.castVoteDuringVotingPeriodInternal env proposalId voter support
  else if proposalState = .ObjectionPeriod then
    revertIf (support ≠ 0) .CanOnlyVoteAgainstDuringObjectionPeriod
    ds.castObjectionInternal env proposalId voter
  else throw (.require "NounsDAO::castVoteInternal: voting is closed")

def castVoteWithReason (sender : Address) (proposalId support : Nat) (reason : String) :
    Tx (StorageV3 H) := do
  let (ds, votes) ← ds.castVoteInternal env sender proposalId support
  return ds.emit (.VoteCast sender proposalId support votes reason)

def castVote (sender : Address) (proposalId support : Nat) : Tx (StorageV3 H) :=
  ds.castVoteWithReason env sender proposalId support ""

def castVoteBySig (proposalId support : Nat) (sig : Bytes) : Tx (StorageV3 H) := do
  let signatory := env.crypto.ecrecover (env.crypto.keccak256 (.ballot proposalId support)) sig
  require (signatory ≠ 0) (.require "NounsDAO::castVoteBySig: invalid signature")
  ds.castVoteWithReason env signatory proposalId support ""

end StorageV3

end Nouns
