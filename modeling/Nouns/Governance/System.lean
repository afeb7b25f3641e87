import Nouns.Governance.Votes
import Mathlib.Logic.Relation

/-!
# System — the V3 DAO with its timelocks, token and fork escrow

The state of all contracts, and what one step of the chain does to it.  A contract that calls
outside code stops at the call: the call stack holds a `Frame` with what is left to do, outside code
may make any calls meanwhile, and a `return_` step resumes it.  A reverted call has no effect, so a
run consists of the calls that were not reverted.

The addresses of the contracts modelled here are known: they make no calls but those of their own
code.  When a timelock executes an action whose target is one of them, that call is the next step.
-/

open Fallible

namespace Nouns

/-- What is fixed at deployment. -/
structure Deployment (H : Type) where
  crypto : Crypto H
  dao : Address
  nouns : Address
  timelock : Address
  timelockV1 : Address
  /-- The version of the executor deployed at an address. -/
  executorVersion : Address → ExecutorVersion
  /-- The addresses of the DAO, the token, the executors and the escrows. -/
  isContract : Address → Bool

/-! ## Call stack -/

/-- The local variables of `executeFork` while it calls out. -/
structure ForkStart where
  forkEscrow : Address
  tokensInEscrow : Nat
  forkEndTimestamp : Nat

/-- The arguments and local variables of `joinFork` while it calls out. -/
structure ForkJoin where
  sender : Address
  tokenIds : List Nat
  proposalIds : List Nat
  reason : String
  forkEscrow : Address
  timelock : Address

/-- What `sendProRataTreasury` returns to. -/
inductive PayoutPurpose
  | executeFork (fork : ForkStart) (forkTreasury forkToken : Address)
  | joinFork (join : ForkJoin)

/-- The local variables of `sendProRataTreasury`. -/
structure Payout where
  purpose : PayoutPurpose
  timelock : Address
  newDAOTreasury : Address
  tokenCount : Nat
  totalSupply : Nat

/-- What is left to do when an outside call returns. -/
inductive Continuation
  /-- The timelock is in action `i` of a proposal. -/
  | executeInternal (proposalId : Nat) (timelock : Address) (i : Nat) (tx : Transaction)
  | refundGas (origin : Address) (amount : Nat)
  | withdraw (amount : Nat)
  | deployForkDAO (fork : ForkStart)
  | sendETH (payout : Payout) (amount : Nat)
  /-- `remaining` of the `erc20Count` tokens come after this one. -/
  | sendERC20 (payout : Payout) (erc20Count remaining : Nat) (erc20token : Address) (amount : Nat)
  | claimDuringForkPeriod (join : ForkJoin)

/-- `callee` is the address in control.  When it is a modelled contract, `caller` is who may call
it from this frame, until the call is made. -/
structure Frame where
  callee : Address
  caller : Option Address
  continuation : Continuation

/-! ## State -/

structure World (H : Type) where
  blockNumber : Nat
  timestamp : Nat
  dao : StorageV3 H
  executors : Address → Executor H
  nouns : NounsToken
  escrows : Address → ForkEscrow
  eth : Address → Nat
  erc20 : Address → Address → Nat
  outside : Outside H
  frames : List Frame

/-- The public functions of the DAO that change its state. -/
inductive DAOCall
  | propose (txs : ProposalTxs) (description : String)
  | proposeOnTimelockV1 (txs : ProposalTxs) (description : String)
  | proposeBySigs (proposerSignatures : List ProposerSignature) (txs : ProposalTxs)
      (description : String)
  | cancelSig (sig : Bytes)
  | updateProposal (proposalId : Nat) (txs : ProposalTxs) (description updateMessage : String)
  | updateProposalTransactions (proposalId : Nat) (txs : ProposalTxs) (updateMessage : String)
  | updateProposalDescription (proposalId : Nat) (description updateMessage : String)
  | updateProposalBySigs (proposalId : Nat) (proposerSignatures : List ProposerSignature)
      (txs : ProposalTxs) (description updateMessage : String)
  | queue (proposalId : Nat)
  | execute (proposalId : Nat)
  | executeOnTimelockV1 (proposalId : Nat)
  | cancel (proposalId : Nat)
  | veto (proposalId : Nat)
  | castVote (proposalId support : Nat)
  | castVoteWithReason (proposalId support : Nat) (reason : String)
  | castVoteBySig (proposalId support : Nat) (sig : Bytes)
  | castRefundableVote (proposalId support : Nat)
  | castRefundableVoteWithReason (proposalId support : Nat) (reason : String)
  | admin (call : AdminCall)
  | quorum (call : QuorumCall)
  | setVoteSnapshotBlockSwitchProposalId
  | withdraw
  | escrowToFork (tokenIds proposalIds : List Nat) (reason : String)
  | withdrawFromForkEscrow (tokenIds : List Nat)
  | executeFork
  | joinFork (tokenIds proposalIds : List Nat) (reason : String)
  | withdrawDAONounsFromEscrowToTreasury (tokenIds : List Nat)
  | withdrawDAONounsFromEscrowIncreasingTotalSupply (tokenIds : List Nat) (to_ : Address)

inductive Action
  /-- Blocks pass; a transaction lies within one block. -/
  | advance (blockNumber timestamp : Nat)
  | callDAO (tx : TxContext) (sender : Account) (call : DAOCall)
  | callToken (sender : Account) (call : NounsTokenCall)
  | callExecutor (executor : Address) (sender : Account) (call : ExecutorCall)
  /-- The outside code in control returns, `deployForkDAO` with the two addresses. -/
  | return_ (forkTreasury forkToken : Address)

namespace World

variable {H : Type} [DecidableEq H] (d : Deployment H) (w : World H)

def env : Env H where
  blockNumber := w.blockNumber
  timestamp := w.timestamp
  gracePeriod := fun a => (d.executorVersion a).GRACE_PERIOD
  crypto := d.crypto
  outside := w.outside
  dao := d.dao
  nouns := w.nouns
  escrows := w.escrows

/-- The state of a proposal, as the DAO reports it. -/
def state (proposalId : Nat) : Tx ProposalState :=
  w.dao.stateInternal (w.env d).toClock proposalId

def setExecutor (a : Address) (e : Executor H) : World H :=
  { w with executors := Function.update w.executors a e }

def setEscrow (a : Address) (e : ForkEscrow) : World H :=
  { w with escrows := Function.update w.escrows a e }

def emit (e : DAOEvent) : World H := { w with dao := w.dao.emit e }

/-- Hands control to `callee`. -/
def callOut (callee : Address) (continuation : Continuation) : World H :=
  { w with frames := ⟨callee, none, continuation⟩ :: w.frames }

def sendValue (from_ to_ : Address) (amount : Nat) : Tx (World H) := do
  require (amount ≤ w.eth from_) .callFailed
  let eth := Function.update w.eth from_ (w.eth from_ - amount)
  return { w with eth := Function.update eth to_ (eth to_ + amount) }

/-- A standard ERC20 transfer. -/
def sendToken (erc20token from_ to_ : Address) (amount : Nat) : Tx (World H) := do
  let balances := w.erc20 erc20token
  require (amount ≤ balances from_) .callFailed
  let balances := Function.update balances from_ (balances from_ - amount)
  return { w with
    erc20 := Function.update w.erc20 erc20token
      (Function.update balances to_ (balances to_ + amount)) }

/-! ## Queue, cancel, veto and execution -/

/-- Runs a function of the DAO that calls the executor of the proposal's timelock. -/
def withTimelock (proposalId : Nat)
    (f : StorageV3 H → Executor H → Tx (StorageV3 H × Executor H)) : Tx (World H) := do
  let timelock := w.dao.getProposalTimelock (w.dao.proposals proposalId)
  let (dao, e) ← f w.dao (w.executors timelock)
  return ({ w with dao }).setExecutor timelock e

/-- The loop of `executeInternal` from action `i` on, up to the next outside call. -/
def executeFrom (proposalId : Nat) (timelock : Address) (i : Nat) : Tx (World H) := do
  let proposal := w.dao.proposals proposalId
  if i < proposal.targets.length then
    let tx ← proposal.action proposal.eta i
    let e ← (w.executors timelock).beginTransaction d.crypto (d.executorVersion timelock)
      w.timestamp d.dao tx
    let w ← (w.setExecutor timelock e).sendValue timelock tx.target tx.value
    let caller := if d.isContract tx.target then some timelock else none
    return { w with
      frames := ⟨tx.target, caller, .executeInternal proposalId timelock i tx⟩ :: w.frames }
  else return w.emit (.ProposalExecuted proposal.id)

def executeInternal (proposalId : Nat) (timelock : Address) : Tx (World H) := do
  let proposal := w.dao.proposals proposalId
  require ((← w.state d proposal.id) = .Queued)
    (.require "NounsDAO::execute: proposal can only be executed if it is queued")
  revertIf (w.dao.isForkPeriodActive w.timestamp) .CannotExecuteDuringForkingPeriod
  let w := { w with dao := w.dao.setProposal proposalId { proposal with executed := true } }
  w.executeFrom d proposalId timelock 0

/-! ## Calls that send ETH -/

/-- `_refundGas`.  A refund that is refused leaves no trace but its event. -/
def refundGas (tx : TxContext) : Tx (World H) := do
  let balance := w.eth d.dao
  if balance = 0 then return w
  else
    let amount := refundAmount tx balance
    if tx.acceptsETH then
      return (← w.sendValue d.dao tx.origin amount).callOut tx.origin (.refundGas tx.origin amount)
    else return w.emit (.RefundableVote tx.origin amount false)

def castRefundableVoteInternal (tx : TxContext) (sender : Address) (proposalId support : Nat)
    (reason : String) : Tx (World H) := do
  let (dao, votes) ← w.dao.castVoteInternal (w.env d) sender proposalId support
  let w := { w with dao := dao.emit (.VoteCast sender proposalId support votes reason) }
  if votes > 0 then w.refundGas d tx else return w

/-- `_withdraw`. -/
def withdraw (tx : TxContext) (sender : Address) : Tx (World H) := do
  w.dao.onlyAdmin sender
  let amount := w.eth d.dao
  if tx.acceptsETH then
    return (← w.sendValue d.dao sender amount).callOut sender (.withdraw amount)
  else return w.emit (.Withdraw amount false)

/-! ## Forks -/

def escrowToFork (sender : Address) (tokenIds proposalIds : List Nat) (reason : String) :
    Tx (World H) := do
  revertIf (w.dao.isForkPeriodActive w.timestamp) .ForkPeriodActive
  let forkEscrow := w.dao.forkEscrow
  let (nouns, escrow) ← tokenIds.foldlM (fun (nouns, escrow) tokenId => do
    let nouns ← NounsToken.transferFrom nouns w.outside.proxies w.blockNumber d.dao sender
      forkEscrow tokenId
    return (nouns, ← escrow.onERC721Received d.dao d.dao sender tokenId))
    (w.nouns, w.escrows forkEscrow)
  let w := ({ w with nouns }).setEscrow forkEscrow escrow
  return w.emit (.EscrowedToFork escrow.forkId sender tokenIds proposalIds reason)

def withdrawFromForkEscrow (sender : Address) (tokenIds : List Nat) : Tx (World H) := do
  revertIf (w.dao.isForkPeriodActive w.timestamp) .ForkPeriodActive
  let forkEscrow := w.dao.forkEscrow
  let (escrow, nouns) ← (w.escrows forkEscrow).returnTokensToOwner w.outside.proxies
    w.blockNumber d.dao forkEscrow w.nouns sender tokenIds
  let w := ({ w with nouns }).setEscrow forkEscrow escrow
  return w.emit (.WithdrawFromForkEscrow escrow.forkId sender tokenIds)

def forkThreshold : Tx Nat := do
  return (← w.dao.adjustedTotalSupply (w.env d)) * w.dao.forkThresholdBPS / 10000

/-- `executeFork` up to the call of the deployer. -/
def executeFork : Tx (World H) := do
  revertIf (w.dao.isForkPeriodActive w.timestamp) .ForkPeriodActive
  let forkEscrow := w.dao.forkEscrow
  let tokensInEscrow := (w.escrows forkEscrow).numTokensInEscrow
  revertIf (tokensInEscrow ≤ (← w.forkThreshold d)) .ForkThresholdNotMet
  let forkEndTimestamp := w.timestamp + w.dao.forkPeriod
  return w.callOut w.dao.forkDAODeployer
    (.deployForkDAO { forkEscrow, tokensInEscrow, forkEndTimestamp })

/-- The rest of `executeFork` after the treasury was paid. -/
def endExecuteFork (fork : ForkStart) (forkTreasury forkToken : Address) : World H :=
  let forkId := (w.escrows fork.forkEscrow).forkId
  let w := w.setEscrow fork.forkEscrow (w.escrows fork.forkEscrow).closeEscrow
  let w := { w with dao := { w.dao with
    forkDAOTreasury := forkTreasury
    forkDAOToken := forkToken
    forkEndTimestamp := fork.forkEndTimestamp } }
  w.emit (.ExecuteFork forkId forkTreasury forkToken fork.forkEndTimestamp fork.tokensInEscrow)

/-- The rest of `joinFork` after the treasury was paid, up to the claim on the fork's token. -/
def joinForkTransfers (join : ForkJoin) : Tx (World H) := do
  let nouns ← join.tokenIds.foldlM (fun nouns tokenId =>
    NounsToken.transferFrom nouns w.outside.proxies w.blockNumber d.dao join.sender join.timelock
      tokenId) w.nouns
  return ({ w with nouns }).callOut w.dao.forkDAOToken (.claimDuringForkPeriod join)

def endPayout (payout : Payout) : Tx (World H) :=
  match payout.purpose with
  | .executeFork fork forkTreasury forkToken =>
    return w.endExecuteFork fork forkTreasury forkToken
  | .joinFork join => w.joinForkTransfers d join

/-- The loop of `sendProRataTreasury` with `remaining` tokens to go, up to the next transfer. -/
def payERC20 (payout : Payout) (erc20Count : Nat) : Nat → Tx (World H)
  | 0 => w.endPayout d payout
  | remaining + 1 => do
    match w.dao.erc20TokensToIncludeInFork[erc20Count - (remaining + 1)]? with
    | none => throw .panic
    | some erc20token =>
      let tokensToSend := w.erc20 erc20token payout.timelock * payout.tokenCount /
        payout.totalSupply
      if tokensToSend > 0 then
        (w.executors payout.timelock).beginSendERC20 d.dao
        let w ← w.sendToken erc20token payout.timelock payout.newDAOTreasury tokensToSend
        return w.callOut erc20token
          (.sendERC20 payout erc20Count remaining erc20token tokensToSend)
      else payERC20 payout erc20Count remaining

/-- `sendProRataTreasury` up to the ETH payment. -/
def sendProRataTreasury (payout : Payout) : Tx (World H) := do
  require (payout.totalSupply ≠ 0) .panic
  let ethToSend := w.eth payout.timelock * payout.tokenCount / payout.totalSupply
  (w.executors payout.timelock).beginSendETH d.dao
  let w ← w.sendValue payout.timelock payout.newDAOTreasury ethToSend
  return w.callOut payout.newDAOTreasury (.sendETH payout ethToSend)

def joinFork (sender : Address) (tokenIds proposalIds : List Nat) (reason : String) :
    Tx (World H) := do
  require (w.dao.isForkPeriodActive w.timestamp) .ForkPeriodNotActive
  let join : ForkJoin :=
    { sender, tokenIds, proposalIds, reason
      forkEscrow := w.dao.forkEscrow
      timelock := w.dao.timelock }
  w.sendProRataTreasury d
    { purpose := .joinFork join
      timelock := w.dao.timelock
      newDAOTreasury := w.dao.forkDAOTreasury
      tokenCount := tokenIds.length
      totalSupply := ← w.dao.adjustedTotalSupply (w.env d) }

def withdrawDAONounsFromEscrow (sender : Address) (tokenIds : List Nat) (to_ : Address) :
    Tx (World H) := do
  revertIf (sender ≠ w.dao.admin) .AdminOnly
  let nouns ← (w.escrows w.dao.forkEscrow).withdrawTokens w.outside.proxies w.blockNumber d.dao
    w.dao.forkEscrow w.nouns tokenIds to_
  return ({ w with nouns }).emit (.DAOWithdrawNounsFromEscrow tokenIds to_)

def withdrawDAONounsFromEscrowToTreasury (sender : Address) (tokenIds : List Nat) :
    Tx (World H) :=
  w.withdrawDAONounsFromEscrow d sender tokenIds w.dao.timelock

def withdrawDAONounsFromEscrowIncreasingTotalSupply (sender : Address) (tokenIds : List Nat)
    (to_ : Address) : Tx (World H) := do
  revertIf (to_ = w.dao.timelock) .UseAlternativeWithdrawFunction
  let w ← w.withdrawDAONounsFromEscrow d sender tokenIds to_
  return w.emit (.DAONounsSupplyIncreasedFromEscrow tokenIds.length to_)

/-! ## Steps -/

/-- Runs a function of the DAO that changes its storage only. -/
def withStorage (dao : Tx (StorageV3 H)) : Tx (World H) := do
  return { w with dao := ← dao }

def callDAO (tx : TxContext) (sender : Account) : DAOCall → Tx (World H)
  | .propose txs description =>
      w.withStorage (Prod.fst <$> w.dao.propose (w.env d) sender txs description)
  | .proposeOnTimelockV1 txs description =>
      w.withStorage (Prod.fst <$> w.dao.proposeOnTimelockV1 (w.env d) sender txs description)
  | .proposeBySigs signatures txs description =>
      w.withStorage (Prod.fst <$> w.dao.proposeBySigs (w.env d) sender signatures txs description)
  | .cancelSig sig => return { w with dao := w.dao.cancelSig (w.env d) sender sig }
  | .updateProposal id txs description message =>
      w.withStorage (w.dao.updateProposal (w.env d) sender id txs description message)
  | .updateProposalTransactions id txs message =>
      w.withStorage (w.dao.updateProposalTransactions (w.env d) sender id txs message)
  | .updateProposalDescription id description message =>
      w.withStorage (w.dao.updateProposalDescription (w.env d) sender id description message)
  | .updateProposalBySigs id signatures txs description message =>
      w.withStorage
        (w.dao.updateProposalBySigs (w.env d) sender id signatures txs description message)
  | .queue id => w.withTimelock id (fun dao e => dao.queue (w.env d) e id)
  | .execute id => w.executeInternal d id (w.dao.getProposalTimelock (w.dao.proposals id))
  | .executeOnTimelockV1 id => w.executeInternal d id w.dao.timelockV1
  | .cancel id => w.withTimelock id (fun dao e => dao.cancel (w.env d) e sender id)
  | .veto id => w.withTimelock id (fun dao e => dao.veto (w.env d) e sender id)
  | .castVote id support => w.withStorage (w.dao.castVote (w.env d) sender id support)
  | .castVoteWithReason id support reason =>
      w.withStorage (w.dao.castVoteWithReason (w.env d) sender id support reason)
  | .castVoteBySig id support sig =>
      w.withStorage (w.dao.castVoteBySig (w.env d) id support sig)
  | .castRefundableVote id support => w.castRefundableVoteInternal d tx sender id support ""
  | .castRefundableVoteWithReason id support reason =>
      w.castRefundableVoteInternal d tx sender id support reason
  | .admin call => w.withStorage (w.dao.adminCall sender call)
  | .quorum call => w.withStorage (w.dao.quorumCall sender w.blockNumber call)
  | .setVoteSnapshotBlockSwitchProposalId =>
      w.withStorage (w.dao.setVoteSnapshotBlockSwitchProposalId sender)
  | .withdraw => w.withdraw d tx sender
  | .escrowToFork tokenIds proposalIds reason =>
      w.escrowToFork d sender tokenIds proposalIds reason
  | .withdrawFromForkEscrow tokenIds => w.withdrawFromForkEscrow d sender tokenIds
  | .executeFork => w.executeFork d
  | .joinFork tokenIds proposalIds reason => w.joinFork d sender tokenIds proposalIds reason
  | .withdrawDAONounsFromEscrowToTreasury tokenIds =>
      w.withdrawDAONounsFromEscrowToTreasury d sender tokenIds
  | .withdrawDAONounsFromEscrowIncreasingTotalSupply tokenIds to_ =>
      w.withdrawDAONounsFromEscrowIncreasingTotalSupply d sender tokenIds to_

/-- The modelled contracts refuse a safe transfer they did not ask for. -/
def received (to_ : Address) : Tx Unit :=
  require (d.isContract to_ = false ∧ w.outside.acceptsERC721 to_ = true) .callFailed

def callToken (sender : Account) (call : NounsTokenCall) : Tx (World H) := do
  let nouns ← w.nouns.call d.crypto w.outside.proxies (w.received d) w.blockNumber w.timestamp
    sender call
  return { w with nouns }

def callExecutor (a : Address) (sender : Account) (call : ExecutorCall) : Tx (World H) := do
  return w.setExecutor a (← (w.executors a).call a sender call)

/-- Resumes the contract that waits for the outside call on top of the stack. -/
def resume (forkTreasury forkToken : Address) : Continuation → Tx (World H)
  | .executeInternal proposalId timelock i tx =>
      (w.setExecutor timelock ((w.executors timelock).endTransaction tx)).executeFrom d proposalId
        timelock (i + 1)
  | .refundGas origin amount => return w.emit (.RefundableVote origin amount true)
  | .withdraw amount => return w.emit (.Withdraw amount true)
  | .deployForkDAO fork => do
      w.sendProRataTreasury d
        { purpose := .executeFork fork forkTreasury forkToken
          timelock := w.dao.timelock
          newDAOTreasury := forkTreasury
          tokenCount := fork.tokensInEscrow
          totalSupply := ← w.dao.adjustedTotalSupply (w.env d) }
  | .sendETH payout amount =>
      let e := (w.executors payout.timelock).emit (.ETHSent payout.newDAOTreasury amount)
      let erc20Count := w.dao.erc20TokensToIncludeInFork.length
      (w.setExecutor payout.timelock e).payERC20 d payout erc20Count erc20Count
  | .sendERC20 payout erc20Count remaining erc20token amount =>
      let e := (w.executors payout.timelock).emit
        (.ERC20Sent payout.newDAOTreasury erc20token amount)
      (w.setExecutor payout.timelock e).payERC20 d payout erc20Count remaining
  | .claimDuringForkPeriod join => do
      let forkId ← checkedSub (w.escrows join.forkEscrow).forkId 1
      return w.emit (.JoinFork forkId join.sender join.tokenIds join.proposalIds join.reason)

/-- Checks that `sender` can call `callee` now. -/
def enter (sender callee : Address) : Tx (World H) :=
  match w.frames with
  | [] => do
    require (d.isContract sender = false) .callFailed
    return w
  | frame :: frames =>
    if d.isContract frame.callee then do
      require (frame.caller = some sender ∧ callee = frame.callee) .callFailed
      return { w with frames := { frame with caller := none } :: frames }
    else do
      require (d.isContract sender = false) .callFailed
      return w

def step : Action → Tx (World H)
  | .advance blockNumber timestamp => do
      require (w.frames.isEmpty = true ∧ w.blockNumber ≤ blockNumber ∧ w.timestamp ≤ timestamp)
        .callFailed
      return { w with blockNumber, timestamp }
  | .callDAO tx sender call => do (← w.enter d sender d.dao).callDAO d tx sender call
  | .callToken sender call => do (← w.enter d sender d.nouns).callToken d sender call
  | .callExecutor a sender call => do (← w.enter d sender a).callExecutor a sender call
  | .return_ forkTreasury forkToken =>
      match w.frames with
      | [] => throw .callFailed
      | frame :: frames =>
          ({ w with frames }).resume d forkTreasury forkToken frame.continuation

/-- Outside the modelled contracts, balances and answers change freely; the contracts may receive
ETH and tokens. -/
structure OutsideChange (w' : World H) : Prop where
  same : ∃ eth erc20 outside, w' = { w with eth, erc20, outside }
  eth_le : ∀ a, d.isContract a = true → w.eth a ≤ w'.eth a
  erc20_le : ∀ token a, d.isContract a = true → w.erc20 token a ≤ w'.erc20 token a

/-- One step of the chain; `admits` restricts the actions of a run. -/
inductive Next (admits : World H → Action → Prop) : World H → World H → Prop
  | step {w w' : World H} (a : Action) : admits w a → w.step d a = .ok w' → Next admits w w'
  | outside {w w' : World H} : OutsideChange d w w' → Next admits w w'

end World

end Nouns
