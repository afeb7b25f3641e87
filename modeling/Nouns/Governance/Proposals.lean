import Nouns.Governance.Admin
import Nouns.Governance.Executor
import Nouns.Governance.ForkEscrow

/-!
# Proposals — the life of a proposal

`NounsDAOV3Proposals` but for execution, which calls outside code and is modelled with the whole
system.
-/

open Fallible Checkpoints

namespace Nouns

/-- The current block, and the grace period of the timelock at an address. -/
structure Clock where
  blockNumber : Nat
  timestamp : Nat
  gracePeriod : Address → Nat

/-- What the DAO reads besides its own storage, and its own address. -/
structure Env (H : Type) extends Clock where
  crypto : Crypto H
  outside : Outside H
  dao : Address
  nouns : NounsToken
  escrows : Address → ForkEscrow

def PROPOSAL_MAX_OPERATIONS : Nat := 10

def toUint64 (n : Nat) : Tx Nat := do
  require (n < 2 ^ 64) (.require "SafeCast: value doesn't fit in 64 bits")
  return n

def checkProposalTxs (txs : ProposalTxs) : Tx Unit := do
  revertIf (txs.targets.length ≠ txs.values.length ∨
    txs.targets.length ≠ txs.signatures.length ∨
    txs.targets.length ≠ txs.calldatas.length) .ProposalInfoArityMismatch
  revertIf (txs.targets.length = 0) .MustProvideActions
  revertIf (txs.targets.length > PROPOSAL_MAX_OPERATIONS) .TooManyActions

/-! ## State -/

namespace ProposalStorage

variable (ds : ProposalStorage) (clock : Clock)

def isDefeated (proposal : Proposal) : Tx Bool :=
  if proposal.forVotes ≤ proposal.againstVotes then return true
  else do return proposal.forVotes < (← ds.quorumVotes proposal.id)

def stateInternal (proposalId : Nat) : Tx ProposalState := do
  require (ds.proposalCount ≥ proposalId) (.require "NounsDAO::state: invalid proposal id")
  let proposal := ds.proposals proposalId
  if proposal.vetoed then return .Vetoed
  else if proposal.canceled then return .Canceled
  else if clock.blockNumber ≤ proposal.updatePeriodEndBlock then return .Updatable
  else if clock.blockNumber ≤ proposal.startBlock then return .Pending
  else if clock.blockNumber ≤ proposal.endBlock then return .Active
  else if clock.blockNumber ≤ proposal.objectionPeriodEndBlock then return .ObjectionPeriod
  else if (← ds.isDefeated proposal) = true then return .Defeated
  else if proposal.eta = 0 then return .Succeeded
  else if proposal.executed then return .Executed
  else if clock.timestamp ≥ proposal.eta + clock.gracePeriod (ds.getProposalTimelock proposal) then
    return .Expired
  else return .Queued

end ProposalStorage

namespace StorageV3

variable {H : Type} [DecidableEq H] (ds : StorageV3 H) (env : Env H)

/-! ## Reading the token -/

def adjustedTotalSupply : Tx Nat := do
  let rest ← checkedSub env.nouns.totalSupply (← env.nouns.balanceOf ds.timelock)
  checkedSub rest
    (← (env.escrows ds.forkEscrow).numTokensOwnedByDAO env.nouns.toToken ds.forkEscrow)

/-- `nouns.getPriorVotes(account, block.number - 1)`. -/
def votesBeforeNow (account : Address) : Tx Nat := do
  env.nouns.getPriorVotes env.blockNumber account (← checkedSub env.blockNumber 1)

def proposalThreshold (adjustedTotalSupply : Nat) : Nat :=
  bps2Uint ds.proposalThresholdBPS adjustedTotalSupply

def checkPropThreshold (votes adjustedTotalSupply : Nat) : Tx Nat := do
  let propThreshold := ds.proposalThreshold adjustedTotalSupply
  revertIf (votes ≤ propThreshold) .VotesBelowProposalThreshold
  return propThreshold

def checkNoActiveProp (proposer : Address) : Tx Unit := do
  let latestProposalId := ds.latestProposalIds proposer
  if latestProposalId ≠ 0 then
    let latestState ← ds.stateInternal env.toClock latestProposalId
    revertIf (latestState = .ObjectionPeriod ∨ latestState = .Active ∨ latestState = .Pending ∨
      latestState = .Updatable) .ProposerAlreadyHasALiveProposal

/-! ## Creation -/

def createNewProposal (sender : Address) (proposalId proposalThreshold adjustedTotalSupply : Nat)
    (txs : ProposalTxs) : Tx (StorageV3 H) := do
  let updatePeriodEndBlock ← toUint64 (env.blockNumber + ds.proposalUpdatablePeriodInBlocks)
  let startBlock := updatePeriodEndBlock + ds.votingDelay
  let endBlock := startBlock + ds.votingPeriod
  let creationBlock ← toUint64 env.blockNumber
  return ds.setProposal proposalId { ds.proposals proposalId with
    id := proposalId
    proposer := sender
    proposalThreshold
    toProposalTxs := txs
    startBlock
    endBlock
    totalSupply := adjustedTotalSupply
    creationBlock
    updatePeriodEndBlock }

def emitNewPropEvents (sender : Address) (proposalId : Nat) (signers : List Address)
    (minQuorumVotes : Nat) (txs : ProposalTxs) (description : String) : StorageV3 H :=
  let p := ds.proposals proposalId
  (ds.emit (.ProposalCreated p.id sender txs p.startBlock p.endBlock description)).emit
    (.ProposalCreatedWithRequirements p.id sender signers txs p.startBlock p.endBlock
      p.updatePeriodEndBlock p.proposalThreshold minQuorumVotes description)

/-- Returns the storage and the id of the new proposal. -/
def propose (sender : Address) (txs : ProposalTxs) (description : String) :
    Tx (StorageV3 H × Nat) := do
  let adjustedTotalSupply ← ds.adjustedTotalSupply env
  let proposalThreshold ← ds.checkPropThreshold (← votesBeforeNow env sender) adjustedTotalSupply
  checkProposalTxs txs
  ds.checkNoActiveProp env sender
  let proposalId := ds.proposalCount + 1
  let ds := { ds with proposalCount := proposalId }
  let ds ← ds.createNewProposal env sender proposalId proposalThreshold adjustedTotalSupply txs
  let ds := { ds with latestProposalIds := Function.update ds.latestProposalIds sender proposalId }
  let minQuorumVotes ← ds.minQuorumVotes env.blockNumber adjustedTotalSupply
  return (ds.emitNewPropEvents sender proposalId [] minQuorumVotes txs description, proposalId)

def proposeOnTimelockV1 (sender : Address) (txs : ProposalTxs) (description : String) :
    Tx (StorageV3 H × Nat) := do
  let (ds, newProposalId) ← ds.propose env sender txs description
  let ds := ds.setProposal newProposalId
    { ds.proposals newProposalId with executeOnTimelockV1 := true }
  return (ds.emit (.ProposalCreatedOnTimelockV1 newProposalId), newProposalId)

/-- `message` is the signed content without the expiry. -/
def verifyProposalSignature (message : Nat → Preimage) (s : ProposerSignature) : Tx Unit := do
  revertIf (ds.cancelledSigs s.signer (env.crypto.keccak256 (.signature s.sig)) = true)
    .SignatureIsCancelled
  let digest := env.crypto.keccak256 (message s.expirationTimestamp)
  revertIf (env.outside.isValidSignatureNow s.signer digest s.sig = false) .InvalidSignature
  revertIf (env.timestamp > s.expirationTimestamp) .SignatureExpired

/-- Returns the storage, the votes and the signers that have any. -/
def verifySignersCanBackThisProposalAndCountTheirVotes (sender : Address)
    (proposerSignatures : List ProposerSignature) (txs : ProposalTxs) (description : String)
    (proposalId : Nat) : Tx (StorageV3 H × Nat × List Address) := do
  let (ds, votes, signers) ← proposerSignatures.foldlM (fun (ds, votes, signers) s => do
    verifyProposalSignature ds env (.proposal sender txs description) s
    ds.checkNoActiveProp env s.signer
    let signerVotes ← votesBeforeNow env s.signer
    if signerVotes = 0 then return (ds, votes, signers)
    else
      let ds := { ds with
        latestProposalIds := Function.update ds.latestProposalIds s.signer proposalId }
      return (ds, votes + signerVotes, signers ++ [s.signer])) (ds, 0, [])
  ds.checkNoActiveProp env sender
  let ds := { ds with latestProposalIds := Function.update ds.latestProposalIds sender proposalId }
  return (ds, votes + (← votesBeforeNow env sender), signers)

def proposeBySigs (sender : Address) (proposerSignatures : List ProposerSignature)
    (txs : ProposalTxs) (description : String) : Tx (StorageV3 H × Nat) := do
  revertIf (proposerSignatures.length = 0) .MustProvideSignatures
  checkProposalTxs txs
  let proposalId := ds.proposalCount + 1
  let ds := { ds with proposalCount := proposalId }
  let adjustedTotalSupply ← ds.adjustedTotalSupply env
  let propThreshold := ds.proposalThreshold adjustedTotalSupply
  let ds ← ds.createNewProposal env sender proposalId propThreshold adjustedTotalSupply txs
  let (ds, votes, signers) ← ds.verifySignersCanBackThisProposalAndCountTheirVotes env sender
    proposerSignatures txs description proposalId
  revertIf (signers.length = 0) .MustProvideSignatures
  revertIf (votes ≤ propThreshold) .VotesBelowProposalThreshold
  let ds := ds.setProposal proposalId { ds.proposals proposalId with signers }
  let minQuorumVotes ← ds.minQuorumVotes env.blockNumber adjustedTotalSupply
  return (ds.emitNewPropEvents sender proposalId signers minQuorumVotes txs description, proposalId)

def cancelSig (sender : Address) (sig : Bytes) : StorageV3 H :=
  let sigHash := env.crypto.keccak256 (.signature sig)
  { ds with
    cancelledSigs := Function.update ds.cancelledSigs sender
      (Function.update (ds.cancelledSigs sender) sigHash true) }.emit
    (.SignatureCancelled sender sig)

/-! ## Updates -/

def checkProposalUpdatable (sender : Address) (proposalId : Nat) : Tx Unit := do
  let proposal := ds.proposals proposalId
  revertIf ((← ds.stateInternal env.toClock proposalId) ≠ .Updatable) .CanOnlyEditUpdatableProposals
  revertIf (sender ≠ proposal.proposer) .OnlyProposerCanEdit
  revertIf (proposal.signers.length > 0) .ProposerCannotUpdateProposalWithSigners

def setTransactions (proposalId : Nat) (txs : ProposalTxs) : StorageV3 H :=
  ds.setProposal proposalId { ds.proposals proposalId with toProposalTxs := txs }

def updateProposalTransactionsInternal (sender : Address) (proposalId : Nat) (txs : ProposalTxs) :
    Tx (StorageV3 H) := do
  checkProposalTxs txs
  ds.checkProposalUpdatable env sender proposalId
  return ds.setTransactions proposalId txs

def updateProposal (sender : Address) (proposalId : Nat) (txs : ProposalTxs)
    (description updateMessage : String) : Tx (StorageV3 H) := do
  let ds ← ds.updateProposalTransactionsInternal env sender proposalId txs
  return ds.emit (.ProposalUpdated proposalId sender txs description updateMessage)

def updateProposalTransactions (sender : Address) (proposalId : Nat) (txs : ProposalTxs)
    (updateMessage : String) : Tx (StorageV3 H) := do
  let ds ← ds.updateProposalTransactionsInternal env sender proposalId txs
  return ds.emit (.ProposalTransactionsUpdated proposalId sender txs updateMessage)

def updateProposalDescription (sender : Address) (proposalId : Nat)
    (description updateMessage : String) : Tx (StorageV3 H) := do
  ds.checkProposalUpdatable env sender proposalId
  return ds.emit (.ProposalDescriptionUpdated proposalId sender description updateMessage)

def updateProposalBySigs (sender : Address) (proposalId : Nat)
    (proposerSignatures : List ProposerSignature) (txs : ProposalTxs)
    (description updateMessage : String) : Tx (StorageV3 H) := do
  checkProposalTxs txs
  revertIf (proposerSignatures.length = 0) .MustProvideSignatures
  let proposal := ds.proposals proposalId
  revertIf ((← ds.stateInternal env.toClock proposalId) ≠ .Updatable) .CanOnlyEditUpdatableProposals
  revertIf (sender ≠ proposal.proposer) .OnlyProposerCanEdit
  revertIf (proposerSignatures.length ≠ proposal.signers.length) .SignerCountMismtach
  (proposerSignatures.zip proposal.signers).forM (fun (s, signer) => do
    verifyProposalSignature ds env (.updateProposal proposalId sender txs description) s
    revertIf (signer ≠ s.signer) .OnlyProposerCanEdit)
  let ds := ds.setTransactions proposalId txs
  return ds.emit (.ProposalUpdated proposalId sender txs description updateMessage)

/-! ## Queue, cancel and veto

`e` is the executor at the proposal's timelock. -/

def queueOrRevertInternal (e : Executor H) (tx : Transaction) : Tx (Executor H) := do
  require (e.isQueued env.crypto tx = false)
    (.require ("NounsDAO::queueOrRevertInternal: " ++
      "identical proposal action already queued at eta"))
  e.queueTransaction env.crypto env.timestamp env.dao tx

def queue (e : Executor H) (proposalId : Nat) : Tx (StorageV3 H × Executor H) := do
  require ((← ds.stateInternal env.toClock proposalId) = .Succeeded)
    (.require "NounsDAO::queue: proposal can only be queued if it is succeeded")
  let proposal := ds.proposals proposalId
  let eta := env.timestamp + e.delay
  let e ← proposal.forEachAction eta (queueOrRevertInternal env) e
  let ds := ds.setProposal proposalId { proposal with eta }
  return (ds.emit (.ProposalQueued proposalId eta), e)

/-- The loop that takes a proposal's actions off the timelock. -/
def cancelTransactions (e : Executor H) (proposal : Proposal) : Tx (Executor H) :=
  proposal.forEachAction proposal.eta (fun e tx => e.cancelTransaction env.crypto env.dao tx) e

def veto (e : Executor H) (sender : Address) (proposalId : Nat) :
    Tx (StorageV3 H × Executor H) := do
  revertIf (ds.vetoer = 0) .VetoerBurned
  revertIf (sender ≠ ds.vetoer) .VetoerOnly
  revertIf ((← ds.stateInternal env.toClock proposalId) = .Executed) .CantVetoExecutedProposal
  let proposal := ds.proposals proposalId
  let ds := ds.setProposal proposalId { proposal with vetoed := true }
  let e ← cancelTransactions env e proposal
  return (ds.emit (.ProposalVetoed proposalId), e)

def cancel (e : Executor H) (sender : Address) (proposalId : Nat) :
    Tx (StorageV3 H × Executor H) := do
  let proposalState ← ds.stateInternal env.toClock proposalId
  revertIf (proposalState = .Canceled ∨ proposalState = .Defeated ∨ proposalState = .Expired ∨
    proposalState = .Executed ∨ proposalState = .Vetoed) .CantCancelProposalAtFinalState
  let proposal := ds.proposals proposalId
  let proposerVotes ← votesBeforeNow env proposal.proposer
  let votes ← proposal.signers.foldlM (fun votes signer => do
    return votes + (← votesBeforeNow env signer)) proposerVotes
  let msgSenderIsProposer : Prop := proposal.proposer = sender ∨ sender ∈ proposal.signers
  require (msgSenderIsProposer ∨ votes ≤ proposal.proposalThreshold)
    (.require "NounsDAO::cancel: proposer above threshold")
  let ds := ds.setProposal proposalId { proposal with canceled := true }
  let e ← cancelTransactions env e proposal
  return (ds.emit (.ProposalCanceled proposalId), e)

end StorageV3

end Nouns
