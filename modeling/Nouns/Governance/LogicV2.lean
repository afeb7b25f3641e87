import Nouns.Governance.Proposals
import Nouns.Lib.StorageSlots

/-!
# LogicV2 — the DAO before its upgrade

`NounsDAOLogicV2` over the slots of its storage.  Functions read through `StorageV2`, the view that
the declarations of V2 give of the slots, and write one field after the other.  Events, the refund of
gas and `_withdraw` write no slot and are left out, and `execute` ends where it calls the timelock.
-/

open Fallible Checkpoints StorageSlots

namespace Nouns

/-! ## Declarations

The fields of storage, structs and their widths in bits.  Those that only V3 has come last. -/

inductive DAOField
  | admin | pendingAdmin | implementation | vetoer | votingDelay | votingPeriod
  | proposalThresholdBPS | quorumVotesBPS | proposalCount | timelock | nouns | proposals
  | latestProposalIds | quorumParamsCheckpoints | pendingVetoer
  | cancelledSigs | lastMinuteWindowInBlocks | objectionPeriodDurationInBlocks
  | proposalUpdatablePeriodInBlocks | forkEscrow | forkDAODeployer | erc20TokensToIncludeInFork
  | forkDAOTreasury | forkDAOToken | forkEndTimestamp | forkPeriod | forkThresholdBPS | timelockV1
  | voteSnapshotBlockSwitchProposalId
deriving DecidableEq

inductive ProposalField
  | id | proposer | proposalThreshold | quorumVotes | eta | targets | values | signatures | calldatas
  | startBlock | endBlock | forVotes | againstVotes | abstainVotes | canceled | vetoed | executed
  | receipts | totalSupply | creationBlock
  | updatePeriodEndBlock | objectionPeriodEndBlock | placeholder | signers | executeOnTimelockV1
deriving DecidableEq

inductive ReceiptField
  | hasVoted | support | votes
deriving DecidableEq

inductive CheckpointField
  | fromBlock | params
deriving DecidableEq

inductive ParamsField
  | minQuorumVotesBPS | maxQuorumVotesBPS | quorumCoefficient
deriving DecidableEq

/-- `NounsDAOProxyStorage`, `NounsDAOStorageV1Adjusted` and `NounsDAOStorageV2`. -/
def DAOField.declaredV2 : List (DAOField × Nat) :=
  [(admin, 160), (pendingAdmin, 160), (implementation, 160), (vetoer, 160), (votingDelay, 256),
    (votingPeriod, 256), (proposalThresholdBPS, 256), (quorumVotesBPS, 256), (proposalCount, 256),
    (timelock, 160), (nouns, 160), (proposals, 256), (latestProposalIds, 256),
    (quorumParamsCheckpoints, 256), (pendingVetoer, 160)]

/-- The struct `Proposal` of `NounsDAOStorageV1Adjusted`. -/
def ProposalField.declaredV2 : List (ProposalField × Nat) :=
  [(id, 256), (proposer, 160), (proposalThreshold, 256), (quorumVotes, 256), (eta, 256),
    (targets, 256), (values, 256), (signatures, 256), (calldatas, 256), (startBlock, 256),
    (endBlock, 256), (forVotes, 256), (againstVotes, 256), (abstainVotes, 256), (canceled, 8),
    (vetoed, 8), (executed, 8), (receipts, 256), (totalSupply, 256), (creationBlock, 256)]

def ReceiptField.declared : List (ReceiptField × Nat) := [(hasVoted, 8), (support, 8), (votes, 96)]

def CheckpointField.declared : List (CheckpointField × Nat) := [(fromBlock, 32), (params, 256)]

def ParamsField.declared : List (ParamsField × Nat) :=
  [(minQuorumVotesBPS, 16), (maxQuorumVotesBPS, 16), (quorumCoefficient, 32)]

/-! ## Reading and writing values -/

def Address.toWord (a : Address) : Nat := Fin.val (n := 2 ^ 160) a

theorem Address.word_lt (n : Nat) : n % 2 ^ 160 < 2 ^ 160 := Nat.mod_lt n (by decide)

def Address.ofWord (n : Nat) : Address := Fin.mk (n % 2 ^ 160) (Address.word_lt n)

def getAddress (σ : Slots) (r : Region) (slot : Nat) : Address := .ofWord (σ r slot)

def getString (σ : Slots) (r : Region) (slot : Nat) : String :=
  (String.fromUTF8? ⟨(getBytes σ r slot).toArray⟩).getD ""

def setString (σ : Slots) (r : Region) (slot : Nat) (s : String) : Slots :=
  setBytes σ r slot s.toUTF8.data.toList

/-- The four arrays of a proposal at these slots of its struct. -/
def getTxs (σ : Slots) (r : Region) (targets values signatures calldatas : Nat) : ProposalTxs where
  targets := getArray getAddress σ r targets
  values := getArray (fun σ r i => σ r i) σ r values
  signatures := getArray getString σ r signatures
  calldatas := getArray getBytes σ r calldatas

def getReceipt (σ : Slots) (r : Region) : Receipt where
  hasVoted := get σ r (position ReceiptField.declared .hasVoted) ≠ 0
  support := get σ r (position ReceiptField.declared .support)
  votes := get σ r (position ReceiptField.declared .votes)

def getParams (σ : Slots) (r : Region) (base : Nat) : DynamicQuorumParams :=
  let field := fun f => get σ r ((position ParamsField.declared f).after base)
  { minQuorumVotesBPS := field .minQuorumVotesBPS
    maxQuorumVotesBPS := field .maxQuorumVotesBPS
    quorumCoefficient := field .quorumCoefficient }

def setParams (σ : Slots) (r : Region) (base : Nat) (params : DynamicQuorumParams) : Slots :=
  let field := fun f => (position ParamsField.declared f).after base
  let σ := set σ r (field .minQuorumVotesBPS) params.minQuorumVotesBPS
  let σ := set σ r (field .maxQuorumVotesBPS) params.maxQuorumVotesBPS
  set σ r (field .quorumCoefficient) params.quorumCoefficient

/-- A checkpoint has two slots, the struct in it being in the second. -/
def getCheckpoint (σ : Slots) (r : Region) (i : Nat) : Checkpoint DynamicQuorumParams where
  fromBlock := get σ r ((position CheckpointField.declared .fromBlock).after (2 * i))
  value := getParams σ r (2 * i + (position CheckpointField.declared .params).slot)

/-! ## The view of V2 -/

structure ProposalV2 extends ProposalTxs where
  id : Nat
  proposer : Address
  proposalThreshold : Nat
  quorumVotes : Nat
  eta : Nat
  startBlock : Nat
  endBlock : Nat
  forVotes : Nat
  againstVotes : Nat
  abstainVotes : Nat
  canceled : Bool
  vetoed : Bool
  executed : Bool
  receipts : Address → Receipt
  totalSupply : Nat
  creationBlock : Nat

structure StorageV2 where
  admin : Address
  pendingAdmin : Address
  vetoer : Address
  votingDelay : Nat
  votingPeriod : Nat
  proposalThresholdBPS : Nat
  quorumVotesBPS : Nat
  proposalCount : Nat
  timelock : Address
  proposals : Nat → ProposalV2
  latestProposalIds : Address → Nat
  quorumParamsCheckpoints : List (Checkpoint DynamicQuorumParams)
  pendingVetoer : Address

namespace SlotsV2

def fieldAt (f : DAOField) : Position := position DAOField.declaredV2 f

def proposalFieldAt (f : ProposalField) : Position := position ProposalField.declaredV2 f

/-- The struct of a proposal. -/
def proposal (id : Nat) : Region := .entry .fixed (fieldAt .proposals).slot id

def receipt (id : Nat) (voter : Address) : Region :=
  .entry (proposal id) (proposalFieldAt .receipts).slot voter.toWord

def latestProposalId (proposer : Address) : Region :=
  .entry .fixed (fieldAt .latestProposalIds).slot proposer.toWord

def checkpoints : Region := .data .fixed (fieldAt .quorumParamsCheckpoints).slot

end SlotsV2

open SlotsV2

def ProposalV2.ofSlots (σ : Slots) (id : Nat) : ProposalV2 :=
  let field := fun f => get σ (proposal id) (proposalFieldAt f)
  { getTxs σ (proposal id) (proposalFieldAt .targets).slot (proposalFieldAt .values).slot
      (proposalFieldAt .signatures).slot (proposalFieldAt .calldatas).slot with
    id := field .id
    proposer := .ofWord (field .proposer)
    proposalThreshold := field .proposalThreshold
    quorumVotes := field .quorumVotes
    eta := field .eta
    startBlock := field .startBlock
    endBlock := field .endBlock
    forVotes := field .forVotes
    againstVotes := field .againstVotes
    abstainVotes := field .abstainVotes
    canceled := field .canceled ≠ 0
    vetoed := field .vetoed ≠ 0
    executed := field .executed ≠ 0
    receipts := fun voter => getReceipt σ (receipt id voter)
    totalSupply := field .totalSupply
    creationBlock := field .creationBlock }

def StorageV2.ofSlots (σ : Slots) : StorageV2 :=
  let field := fun f => get σ .fixed (fieldAt f)
  { admin := .ofWord (field .admin)
    pendingAdmin := .ofWord (field .pendingAdmin)
    vetoer := .ofWord (field .vetoer)
    votingDelay := field .votingDelay
    votingPeriod := field .votingPeriod
    proposalThresholdBPS := field .proposalThresholdBPS
    quorumVotesBPS := field .quorumVotesBPS
    proposalCount := field .proposalCount
    timelock := .ofWord (field .timelock)
    proposals := ProposalV2.ofSlots σ
    latestProposalIds := fun proposer => σ (latestProposalId proposer) 0
    quorumParamsCheckpoints := (List.range (field .quorumParamsCheckpoints)).map
      (getCheckpoint σ checkpoints)
    pendingVetoer := .ofWord (field .pendingVetoer) }

inductive ProposalStateV2
  | Pending | Active | Canceled | Defeated | Succeeded | Queued | Expired | Executed | Vetoed
deriving DecidableEq, Repr

/-- The states of V2, each as the state of V3 with its name. -/
def ProposalStateV2.toV3 : ProposalStateV2 → ProposalState
  | Pending => .Pending
  | Active => .Active
  | Canceled => .Canceled
  | Defeated => .Defeated
  | Succeeded => .Succeeded
  | Queued => .Queued
  | Expired => .Expired
  | Executed => .Executed
  | Vetoed => .Vetoed

/-! ## Reading functions -/

namespace StorageV2

variable (s : StorageV2) (clock : Clock)

/-- The parameters before the first checkpoint. -/
def defaultQuorumParams : Tx DynamicQuorumParams := do
  return {
    minQuorumVotesBPS := ← safe16 s.quorumVotesBPS
    maxQuorumVotesBPS := ← safe16 s.quorumVotesBPS
    quorumCoefficient := 0 }

def getDynamicQuorumParamsAt (blockNumber : Nat) : Tx DynamicQuorumParams := do
  let blockNumber ← safe32 blockNumber
    "NounsDAO::getDynamicQuorumParamsAt: block number exceeds 32 bits"
  match lookup s.quorumParamsCheckpoints blockNumber with
  | some params => return params
  | none => s.defaultQuorumParams

def quorumVotes (proposalId : Nat) : Tx Nat := do
  let proposal := s.proposals proposalId
  if proposal.totalSupply = 0 then return proposal.quorumVotes
  else
    let params ← s.getDynamicQuorumParamsAt proposal.creationBlock
    dynamicQuorumVotes proposal.againstVotes proposal.totalSupply params

/-- The condition of `state` for `Defeated`. -/
def isDefeated (proposal : ProposalV2) : Tx Bool :=
  if proposal.forVotes ≤ proposal.againstVotes then return true
  else do return proposal.forVotes < (← s.quorumVotes proposal.id)

def state (proposalId : Nat) : Tx ProposalStateV2 := do
  require (s.proposalCount ≥ proposalId) (.require "NounsDAO::state: invalid proposal id")
  let proposal := s.proposals proposalId
  if proposal.vetoed then return .Vetoed
  else if proposal.canceled then return .Canceled
  else if clock.blockNumber ≤ proposal.startBlock then return .Pending
  else if clock.blockNumber ≤ proposal.endBlock then return .Active
  else if (← s.isDefeated proposal) = true then return .Defeated
  else if proposal.eta = 0 then return .Succeeded
  else if proposal.executed then return .Executed
  else if clock.timestamp ≥ proposal.eta + clock.gracePeriod s.timelock then return .Expired
  else return .Queued

def proposalCreationBlock (proposal : ProposalV2) : Tx Nat :=
  if proposal.creationBlock = 0 then checkedSub proposal.startBlock s.votingDelay
  else return proposal.creationBlock

def minQuorumVotes (now totalSupply : Nat) : Tx Nat := do
  return bps2Uint (← s.getDynamicQuorumParamsAt now).minQuorumVotesBPS totalSupply

end StorageV2

/-! ## Functions that write

`e` is the executor at the timelock.  A Boolean is written as 0 or 1. -/

/-- What the DAO reads besides its own storage, and its own address. -/
structure EnvV2 (H : Type) extends Clock where
  crypto : Crypto H
  dao : Address
  nouns : NounsToken

def MIN_VOTING_PERIOD : Nat := 5760
def MAX_VOTING_PERIOD : Nat := 80640
def MIN_VOTING_DELAY : Nat := 1
def MAX_VOTING_DELAY : Nat := 40320

inductive CallV2
  | initializeBy (timelock nouns vetoer : Address)
      (votingPeriod votingDelay proposalThresholdBPS : Nat) (params : DynamicQuorumParams)
  | propose (txs : ProposalTxs)
  | queue (proposalId : Nat)
  | execute (proposalId : Nat)
  | cancel (proposalId : Nat)
  | veto (proposalId : Nat)
  | castVote (proposalId support : Nat)
  | castVoteBySig (proposalId support : Nat) (sig : Bytes)
  | setVotingDelay (newVotingDelay : Nat)
  | setVotingPeriod (newVotingPeriod : Nat)
  | setProposalThresholdBPS (newProposalThresholdBPS : Nat)
  | quorum (call : QuorumCall)
  | setPendingAdmin (newPendingAdmin : Address)
  | acceptAdmin
  | setPendingVetoer (newPendingVetoer : Address)
  | acceptVetoer
  | burnVetoPower

namespace SlotsV2

def setField (σ : Slots) (f : DAOField) (value : Nat) : Slots := set σ .fixed (fieldAt f) value

def setProposalField (σ : Slots) (id : Nat) (f : ProposalField) (value : Nat) : Slots :=
  set σ (proposal id) (proposalFieldAt f) value

/-- One assignment after the other. -/
def setProposalFields (σ : Slots) (id : Nat) (values : List (ProposalField × Nat)) : Slots :=
  values.foldl (fun σ v => setProposalField σ id v.1 v.2) σ

def setTxs (σ : Slots) (id : Nat) (txs : ProposalTxs) : Slots :=
  let r := proposal id
  let σ := setArray (fun σ r i a => write σ r i (Address.toWord a)) σ r
    (proposalFieldAt .targets).slot txs.targets
  let σ := setArray write σ r (proposalFieldAt .values).slot txs.values
  let σ := setArray setString σ r (proposalFieldAt .signatures).slot txs.signatures
  setArray setBytes σ r (proposalFieldAt .calldatas).slot txs.calldatas

variable {H : Type} (σ : Slots) (env : EnvV2 H) (sender : Address)

def onlyAdmin : Tx Unit := revertIf (sender ≠ (StorageV2.ofSlots σ).admin) .AdminOnly

/-! ### Quorum parameters -/

def writeQuorumParamsCheckpoint (params : DynamicQuorumParams) : Tx Slots := do
  let blockNumber ← safe32 env.blockNumber "block number exceeds 32 bits"
  let pos := get σ .fixed (fieldAt .quorumParamsCheckpoints)
  let paramsAt := fun i => 2 * i + (position CheckpointField.declared .params).slot
  if pos > 0 ∧ (getCheckpoint σ checkpoints (pos - 1)).fromBlock = blockNumber then
    return setParams σ checkpoints (paramsAt (pos - 1)) params
  else
    let σ := setField σ .quorumParamsCheckpoints (pos + 1)
    let σ := set σ checkpoints ((position CheckpointField.declared .fromBlock).after (2 * pos))
      blockNumber
    return setParams σ checkpoints (paramsAt pos) params

def setMinQuorumVotesBPS (newMin : Nat) : Tx Slots := do
  onlyAdmin σ sender
  let params ← (StorageV2.ofSlots σ).getDynamicQuorumParamsAt env.blockNumber
  require (newMin ≥ MIN_QUORUM_VOTES_BPS_LOWER_BOUND ∧ newMin ≤ MIN_QUORUM_VOTES_BPS_UPPER_BOUND)
    (.require "NounsDAO::_setMinQuorumVotesBPS: invalid min quorum votes bps")
  require (newMin ≤ params.maxQuorumVotesBPS)
    (.require "NounsDAO::_setMinQuorumVotesBPS: min quorum votes bps greater than max")
  writeQuorumParamsCheckpoint σ env { params with minQuorumVotesBPS := newMin }

def setMaxQuorumVotesBPS (newMax : Nat) : Tx Slots := do
  onlyAdmin σ sender
  let params ← (StorageV2.ofSlots σ).getDynamicQuorumParamsAt env.blockNumber
  require (newMax ≤ MAX_QUORUM_VOTES_BPS_UPPER_BOUND)
    (.require "NounsDAO::_setMaxQuorumVotesBPS: invalid max quorum votes bps")
  require (params.minQuorumVotesBPS ≤ newMax)
    (.require "NounsDAO::_setMaxQuorumVotesBPS: min quorum votes bps greater than max")
  writeQuorumParamsCheckpoint σ env { params with maxQuorumVotesBPS := newMax }

def setQuorumCoefficient (newCoefficient : Nat) : Tx Slots := do
  onlyAdmin σ sender
  let params ← (StorageV2.ofSlots σ).getDynamicQuorumParamsAt env.blockNumber
  writeQuorumParamsCheckpoint σ env { params with quorumCoefficient := newCoefficient }

def setDynamicQuorumParams (newMin newMax newCoefficient : Nat) : Tx Slots := do
  onlyAdmin σ sender
  revertIf (newMin < MIN_QUORUM_VOTES_BPS_LOWER_BOUND ∨ newMin > MIN_QUORUM_VOTES_BPS_UPPER_BOUND)
    .InvalidMinQuorumVotesBPS
  revertIf (newMax > MAX_QUORUM_VOTES_BPS_UPPER_BOUND) .InvalidMaxQuorumVotesBPS
  revertIf (newMin > newMax) .MinQuorumBPSGreaterThanMaxQuorumBPS
  let _oldParams ← (StorageV2.ofSlots σ).getDynamicQuorumParamsAt env.blockNumber
  writeQuorumParamsCheckpoint σ env ⟨newMin, newMax, newCoefficient⟩

def quorumCall : QuorumCall → Tx Slots
  | .setMinQuorumVotesBPS newMin => setMinQuorumVotesBPS σ env sender newMin
  | .setMaxQuorumVotesBPS newMax => setMaxQuorumVotesBPS σ env sender newMax
  | .setQuorumCoefficient newCoefficient => setQuorumCoefficient σ env sender newCoefficient
  | .setDynamicQuorumParams newMin newMax newCoefficient =>
      setDynamicQuorumParams σ env sender newMin newMax newCoefficient

/-! ### Proposals -/

/-- The one call of `initialize`. -/
def initializeBy (timelock nouns vetoer : Address)
    (votingPeriod votingDelay proposalThresholdBPS : Nat) (params : DynamicQuorumParams) :
    Tx Slots := do
  require ((StorageV2.ofSlots σ).timelock = 0)
    (.require "NounsDAO::initialize: can only initialize once")
  onlyAdmin σ sender
  require (timelock ≠ 0) (.require "NounsDAO::initialize: invalid timelock address")
  require (nouns ≠ 0) (.require "NounsDAO::initialize: invalid nouns address")
  require (votingPeriod ≥ MIN_VOTING_PERIOD ∧ votingPeriod ≤ MAX_VOTING_PERIOD)
    (.require "NounsDAO::initialize: invalid voting period")
  require (votingDelay ≥ MIN_VOTING_DELAY ∧ votingDelay ≤ MAX_VOTING_DELAY)
    (.require "NounsDAO::initialize: invalid voting delay")
  require (proposalThresholdBPS ≥ MIN_PROPOSAL_THRESHOLD_BPS ∧
      proposalThresholdBPS ≤ MAX_PROPOSAL_THRESHOLD_BPS)
    (.require "NounsDAO::initialize: invalid proposal threshold bps")
  let σ := setField σ .timelock timelock.toWord
  let σ := setField σ .nouns nouns.toWord
  let σ := setField σ .vetoer vetoer.toWord
  let σ := setField σ .votingPeriod votingPeriod
  let σ := setField σ .votingDelay votingDelay
  let σ := setField σ .proposalThresholdBPS proposalThresholdBPS
  setDynamicQuorumParams σ env sender params.minQuorumVotesBPS params.maxQuorumVotesBPS
    params.quorumCoefficient

/-- `nouns.getPriorVotes(account, block.number - 1)`. -/
def votesBeforeNow (account : Address) : Tx Nat := do
  env.nouns.getPriorVotes env.blockNumber account (← checkedSub env.blockNumber 1)

/-- The check of `propose` on the latest proposal of the sender. -/
def checkLatestProposal (proposer : Address) : Tx Unit := do
  let s := StorageV2.ofSlots σ
  let latestProposalId := s.latestProposalIds proposer
  if latestProposalId ≠ 0 then
    let proposersLatestProposalState ← s.state env.toClock latestProposalId
    require (proposersLatestProposalState ≠ .Active)
      (.require ("NounsDAO::propose: one live proposal per proposer, " ++
        "found an already active proposal"))
    require (proposersLatestProposalState ≠ .Pending)
      (.require ("NounsDAO::propose: one live proposal per proposer, " ++
        "found an already pending proposal"))

def propose (txs : ProposalTxs) : Tx Slots := do
  let s := StorageV2.ofSlots σ
  let totalSupply := env.nouns.totalSupply
  let proposalThreshold := bps2Uint s.proposalThresholdBPS totalSupply
  require ((← votesBeforeNow env sender) > proposalThreshold)
    (.require "NounsDAO::propose: proposer votes below proposal threshold")
  require (txs.targets.length = txs.values.length ∧ txs.targets.length = txs.signatures.length ∧
      txs.targets.length = txs.calldatas.length)
    (.require "NounsDAO::propose: proposal function information arity mismatch")
  require (txs.targets.length ≠ 0) (.require "NounsDAO::propose: must provide actions")
  require (txs.targets.length ≤ PROPOSAL_MAX_OPERATIONS)
    (.require "NounsDAO::propose: too many actions")
  checkLatestProposal σ env sender
  let startBlock ← checked 256 (env.blockNumber + s.votingDelay)
  let endBlock ← checked 256 (startBlock + s.votingPeriod)
  let proposalId ← checked 256 (s.proposalCount + 1)
  let σ := setField σ .proposalCount proposalId
  let σ := setProposalFields σ proposalId
    [(.id, proposalId), (.proposer, sender.toWord), (.proposalThreshold, proposalThreshold),
      (.eta, 0)]
  let σ := setTxs σ proposalId txs
  let σ := setProposalFields σ proposalId
    [(.startBlock, startBlock), (.endBlock, endBlock), (.forVotes, 0), (.againstVotes, 0),
      (.abstainVotes, 0), (.canceled, 0), (.executed, 0), (.vetoed, 0),
      (.totalSupply, totalSupply), (.creationBlock, env.blockNumber)]
  let σ := write σ (latestProposalId sender) 0 proposalId
  -- The event has the quorum in it, which may be out of range.
  let _minQuorumVotes ← (StorageV2.ofSlots σ).minQuorumVotes env.blockNumber totalSupply
  return σ

/-- `execute` up to its calls of the timelock, after which it writes no more. -/
def execute (proposalId : Nat) : Tx Slots := do
  require ((← (StorageV2.ofSlots σ).state env.toClock proposalId) = .Queued)
    (.require "NounsDAO::execute: proposal can only be executed if it is queued")
  return setProposalField σ proposalId .executed 1

section Timelock

variable [DecidableEq H] (e : Executor H)

def queueOrRevertInternal (e : Executor H) (tx : Transaction) : Tx (Executor H) := do
  require (e.isQueued env.crypto tx = false)
    (.require ("NounsDAO::queueOrRevertInternal: " ++
      "identical proposal action already queued at eta"))
  e.queueTransaction env.crypto env.timestamp env.dao tx

def queue (proposalId : Nat) : Tx (Slots × Executor H) := do
  require ((← (StorageV2.ofSlots σ).state env.toClock proposalId) = .Succeeded)
    (.require "NounsDAO::queue: proposal can only be queued if it is succeeded")
  let eta ← checked 256 (env.timestamp + e.delay)
  let e ← (ProposalV2.ofSlots σ proposalId).forEachAction eta (queueOrRevertInternal env) e
  return (setProposalField σ proposalId .eta eta, e)

/-- The loop that takes a proposal's actions off the timelock. -/
def cancelTransactions (proposal : ProposalV2) : Tx (Executor H) :=
  proposal.forEachAction proposal.eta (fun e tx => e.cancelTransaction env.crypto env.dao tx) e

/-- The check of `cancel`, which asks the token only about a proposer that is not the sender. -/
def checkCanceler (proposal : ProposalV2) : Tx Unit := do
  if sender ≠ proposal.proposer then
    require ((← votesBeforeNow env proposal.proposer) ≤ proposal.proposalThreshold)
      (.require "NounsDAO::cancel: proposer above threshold")

def cancel (proposalId : Nat) : Tx (Slots × Executor H) := do
  revertIf ((← (StorageV2.ofSlots σ).state env.toClock proposalId) = .Executed)
    .CantCancelExecutedProposal
  let p := ProposalV2.ofSlots σ proposalId
  checkCanceler env sender p
  return (setProposalField σ proposalId .canceled 1, ← cancelTransactions env e p)

def veto (proposalId : Nat) : Tx (Slots × Executor H) := do
  let s := StorageV2.ofSlots σ
  revertIf (s.vetoer = 0) .VetoerBurned
  revertIf (sender ≠ s.vetoer) .VetoerOnly
  revertIf ((← s.state env.toClock proposalId) = .Executed) .CantVetoExecutedProposal
  return (setProposalField σ proposalId .vetoed 1,
    ← cancelTransactions env e (ProposalV2.ofSlots σ proposalId))

end Timelock

/-! ### Votes -/

/-- The votes added to the side the voter takes. -/
def countVotes (proposalId support votes : Nat) : Tx Slots := do
  let p := ProposalV2.ofSlots σ proposalId
  if support = 0 then
    return setProposalField σ proposalId .againstVotes (← checked 256 (p.againstVotes + votes))
  else if support = 1 then
    return setProposalField σ proposalId .forVotes (← checked 256 (p.forVotes + votes))
  else if support = 2 then
    return setProposalField σ proposalId .abstainVotes (← checked 256 (p.abstainVotes + votes))
  else return σ

def setReceipt (r : Region) (support votes : Nat) : Slots :=
  let σ := set σ r (position ReceiptField.declared .hasVoted) 1
  let σ := set σ r (position ReceiptField.declared .support) support
  set σ r (position ReceiptField.declared .votes) votes

def castVoteInternal (voter : Address) (proposalId support : Nat) : Tx (Slots × Nat) := do
  let s := StorageV2.ofSlots σ
  require ((← s.state env.toClock proposalId) = .Active)
    (.require "NounsDAO::castVoteInternal: voting is closed")
  require (support ≤ 2) (.require "NounsDAO::castVoteInternal: invalid vote type")
  let p := s.proposals proposalId
  require ((p.receipts voter).hasVoted = false)
    (.require "NounsDAO::castVoteInternal: voter already voted")
  let votes ← env.nouns.getPriorVotes env.blockNumber voter (← s.proposalCreationBlock p)
  let σ ← countVotes σ proposalId support votes
  return (setReceipt σ (receipt proposalId voter) support votes, votes)

/-- Also `castVoteWithReason` and the functions that refund the gas. -/
def castVote (proposalId support : Nat) : Tx Slots :=
  Prod.fst <$> castVoteInternal σ env sender proposalId support

def castVoteBySig (proposalId support : Nat) (sig : Bytes) : Tx Slots := do
  let digest := env.crypto.keccak256 (.ballot proposalId support)
  let signatory := env.crypto.ecrecover digest sig
  require (signatory ≠ 0) (.require "NounsDAO::castVoteBySig: invalid signature")
  castVote σ env signatory proposalId support

/-! ### Setters -/

/-- An admin function for a setting with bounds. -/
def setInRange (f : DAOField) (value lower upper : Nat) (reason : String) : Tx Slots := do
  onlyAdmin σ sender
  require (value ≥ lower ∧ value ≤ upper) (.require reason)
  return setField σ f value

def setVotingDelay (newVotingDelay : Nat) : Tx Slots :=
  setInRange σ sender .votingDelay newVotingDelay MIN_VOTING_DELAY MAX_VOTING_DELAY
    "NounsDAO::_setVotingDelay: invalid voting delay"

def setVotingPeriod (newVotingPeriod : Nat) : Tx Slots :=
  setInRange σ sender .votingPeriod newVotingPeriod MIN_VOTING_PERIOD MAX_VOTING_PERIOD
    "NounsDAO::_setVotingPeriod: invalid voting period"

def setProposalThresholdBPS (newProposalThresholdBPS : Nat) : Tx Slots :=
  setInRange σ sender .proposalThresholdBPS newProposalThresholdBPS MIN_PROPOSAL_THRESHOLD_BPS
    MAX_PROPOSAL_THRESHOLD_BPS "NounsDAO::_setProposalThreshold: invalid proposal threshold bps"

def setPendingAdmin (newPendingAdmin : Address) : Tx Slots := do
  require (sender = (StorageV2.ofSlots σ).admin)
    (.require "NounsDAO::_setPendingAdmin: admin only")
  return setField σ .pendingAdmin newPendingAdmin.toWord

def acceptAdmin : Tx Slots := do
  let pendingAdmin := (StorageV2.ofSlots σ).pendingAdmin
  require (sender = pendingAdmin ∧ sender ≠ 0)
    (.require "NounsDAO::_acceptAdmin: pending admin only")
  return setField (setField σ .admin pendingAdmin.toWord) .pendingAdmin 0

def setPendingVetoer (newPendingVetoer : Address) : Tx Slots := do
  revertIf (sender ≠ (StorageV2.ofSlots σ).vetoer) .VetoerOnly
  return setField σ .pendingVetoer newPendingVetoer.toWord

def acceptVetoer : Tx Slots := do
  let pendingVetoer := (StorageV2.ofSlots σ).pendingVetoer
  revertIf (sender ≠ pendingVetoer) .PendingVetoerOnly
  return setField (setField σ .vetoer pendingVetoer.toWord) .pendingVetoer 0

def burnVetoPower : Tx Slots := do
  require (sender = (StorageV2.ofSlots σ).vetoer)
    (.require "NounsDAO::_burnVetoPower: vetoer only")
  return setField (setField σ .vetoer 0) .pendingVetoer 0

variable [DecidableEq H]

/-- The storage after a call. -/
def call (e : Executor H) : CallV2 → Tx Slots
  | .initializeBy timelock nouns vetoer votingPeriod votingDelay proposalThresholdBPS params =>
      initializeBy σ env sender timelock nouns vetoer votingPeriod votingDelay proposalThresholdBPS
        params
  | .propose txs => propose σ env sender txs
  | .queue proposalId => Prod.fst <$> queue σ env e proposalId
  | .execute proposalId => execute σ env proposalId
  | .cancel proposalId => Prod.fst <$> cancel σ env sender e proposalId
  | .veto proposalId => Prod.fst <$> veto σ env sender e proposalId
  | .castVote proposalId support => castVote σ env sender proposalId support
  | .castVoteBySig proposalId support sig => castVoteBySig σ env proposalId support sig
  | .setVotingDelay newVotingDelay => setVotingDelay σ sender newVotingDelay
  | .setVotingPeriod newVotingPeriod => setVotingPeriod σ sender newVotingPeriod
  | .setProposalThresholdBPS newThreshold => setProposalThresholdBPS σ sender newThreshold
  | .quorum call => quorumCall σ env sender call
  | .setPendingAdmin newPendingAdmin => setPendingAdmin σ sender newPendingAdmin
  | .acceptAdmin => acceptAdmin σ sender
  | .setPendingVetoer newPendingVetoer => setPendingVetoer σ sender newPendingVetoer
  | .acceptVetoer => acceptVetoer σ sender
  | .burnVetoPower => burnVetoPower σ sender

end SlotsV2

end Nouns
