import Nouns.Fork.Governor
import Mathlib.Logic.Relation

/-!
# System — a fork DAO with its timelock and token

As in the system of the original DAO, a contract that calls outside code stops at the call: the call
stack holds what is left to do, and a `return_` step resumes it.
-/

open Fallible

namespace Nouns

/-- What is fixed at deployment. -/
structure ForkDeployment (H : Type) where
  crypto : Crypto H
  dao : Address
  nouns : Address
  timelock : Address
  /-- The addresses of the DAO, the token and the timelock. -/
  isContract : Address → Bool

/-! ## Call stack -/

/-- Who quits with which tokens. -/
structure Quitting where
  sender : Address
  tokenIds : List Nat

/-- What is left to do when an outside call returns. -/
inductive ForkContinuation
  /-- The timelock is in action `i` of a proposal. -/
  | execute (proposalId i : Nat) (tx : Transaction)
  /-- The balances in `rest` are sent after this one. -/
  | sendETH (quitting : Quitting) (rest : List (Address × Nat)) (amount : Nat)
  | sendERC20 (quitting : Quitting) (rest : List (Address × Nat)) (erc20token : Address)
      (amount : Nat)

/-- `callee` is the address in control.  When it is a modelled contract, `caller` is who may call
it from this frame, until the call is made. -/
structure ForkFrame where
  callee : Address
  caller : Option Address
  continuation : ForkContinuation

/-! ## State -/

structure ForkWorld (H : Type) where
  blockNumber : Nat
  timestamp : Nat
  dao : StorageV1Fork
  executor : Executor H
  nouns : NounsTokenFork
  escrow : EscrowView
  eth : Address → Nat
  erc20 : Address → Address → Nat
  outside : Outside H
  frames : List ForkFrame

/-- The public functions of the fork DAO that change its state. -/
inductive ForkDAOCall
  | propose (txs : ProposalTxs) (description : String)
  | queue (proposalId : Nat)
  | execute (proposalId : Nat)
  | cancel (proposalId : Nat)
  | castVote (proposalId support : Nat)
  | castVoteWithReason (proposalId support : Nat) (reason : String)
  | castVoteBySig (proposalId support : Nat) (sig : Bytes)
  | admin (call : ForkAdminCall)
  | quit (tokenIds : List Nat)
  | quitWith (tokenIds : List Nat) (erc20TokensToInclude : List Address)

inductive ForkAction
  /-- Blocks pass; a transaction lies within one block. -/
  | advance (blockNumber timestamp : Nat)
  | callDAO (sender : Account) (call : ForkDAOCall)
  | callToken (sender : Account) (call : NounsTokenForkCall)
  | callExecutor (sender : Account) (call : ExecutorCall)
  | return_

namespace ForkWorld

variable {H : Type} [DecidableEq H] (d : ForkDeployment H) (w : ForkWorld H)

def env : ForkEnv H where
  blockNumber := w.blockNumber
  timestamp := w.timestamp
  crypto := d.crypto
  dao := d.dao
  timelock := d.timelock
  nouns := w.nouns

def emit (e : ForkDAOEvent) : ForkWorld H := { w with dao := w.dao.emit e }

/-- Hands control to `callee`. -/
def callOut (callee : Address) (continuation : ForkContinuation) : ForkWorld H :=
  { w with frames := ⟨callee, none, continuation⟩ :: w.frames }

def sendValue (from_ to_ : Address) (amount : Nat) : Tx (ForkWorld H) := do
  require (amount ≤ w.eth from_) .callFailed
  let eth := Function.update w.eth from_ (w.eth from_ - amount)
  return { w with eth := Function.update eth to_ (eth to_ + amount) }

/-- A standard ERC20 transfer. -/
def sendToken (erc20token from_ to_ : Address) (amount : Nat) : Tx (ForkWorld H) := do
  let balances := w.erc20 erc20token
  require (amount ≤ balances from_) .callFailed
  let balances := Function.update balances from_ (balances from_ - amount)
  return { w with
    erc20 := Function.update w.erc20 erc20token
      (Function.update balances to_ (balances to_ + amount)) }

/-! ## Execution -/

/-- Runs a function of the DAO that calls the timelock. -/
def withTimelock (f : StorageV1Fork → Executor H → Tx (StorageV1Fork × Executor H)) :
    Tx (ForkWorld H) := do
  let (dao, executor) ← f w.dao w.executor
  return { w with dao, executor }

/-- The loop of `execute` from action `i` on, up to the next outside call. -/
def executeFrom (proposalId i : Nat) : Tx (ForkWorld H) := do
  let proposal := w.dao.proposals proposalId
  if i < proposal.targets.length then
    let tx ← proposal.action proposal.eta i
    let executor ← w.executor.beginTransaction d.crypto .NounsDAOExecutorV2 w.timestamp d.dao tx
    let w ← ({ w with executor }).sendValue d.timelock tx.target tx.value
    let caller := if d.isContract tx.target then some d.timelock else none
    return { w with frames := ⟨tx.target, caller, .execute proposalId i tx⟩ :: w.frames }
  else return w.emit (.ProposalExecuted proposalId)

def execute (proposalId : Nat) : Tx (ForkWorld H) := do
  require ((← w.dao.state (w.env d) proposalId) = .Queued)
    (.require "NounsDAO::execute: proposal can only be executed if it is queued")
  let proposal := w.dao.proposals proposalId
  let w := { w with dao := w.dao.setProposal proposalId { proposal with executed := true } }
  w.executeFrom d proposalId 0

/-! ## Quitting -/

/-- The end of a guarded call. -/
def leave : ForkWorld H := { w with dao := { w.dao with entered := false } }

/-- The ERC20 payments of `quitInternal`, up to the next transfer. -/
def payERC20 (quitting : Quitting) : List (Address × Nat) → Tx (ForkWorld H)
  | [] => return (w.emit (.Quit quitting.sender quitting.tokenIds)).leave
  | (erc20token, amount) :: rest =>
    if amount > 0 then do
      w.executor.beginSendERC20 d.dao
      let w ← w.sendToken erc20token d.timelock quitting.sender amount
      return w.callOut erc20token (.sendERC20 quitting rest erc20token amount)
    else payERC20 quitting rest

/-- `quitInternal` up to the ETH payment. -/
def quitInternal (sender : Address) (tokenIds : List Nat) (erc20TokensToInclude : List Address) :
    Tx (ForkWorld H) := do
  w.dao.checkGovernanceActive (w.env d)
  let totalSupply ← StorageV1Fork.adjustedTotalSupply (w.env d)
  let nouns ← tokenIds.foldlM (fun nouns tokenId =>
    NounsTokenFork.transferFrom nouns w.blockNumber d.dao sender d.timelock tokenId) w.nouns
  require (totalSupply ≠ 0) .panic
  let ethToSend := w.eth d.timelock * tokenIds.length / totalSupply
  let balancesToSend := erc20TokensToInclude.map (fun erc20token =>
    (erc20token, w.erc20 erc20token d.timelock * tokenIds.length / totalSupply))
  w.executor.beginSendETH d.dao
  let w ← ({ w with nouns }).sendValue d.timelock sender ethToSend
  return w.callOut sender (.sendETH { sender, tokenIds } balancesToSend ethToSend)

/-- The reentrancy guard around `quit`. -/
def nonReentrant (f : ForkWorld H → Tx (ForkWorld H)) : Tx (ForkWorld H) := do
  require (w.dao.entered = false) (.require "ReentrancyGuard: reentrant call")
  f { w with dao := { w.dao with entered := true } }

def quit (sender : Address) (tokenIds : List Nat) : Tx (ForkWorld H) :=
  w.nonReentrant (fun w => w.quitInternal d sender tokenIds w.dao.erc20TokensToIncludeInQuit)

/-- The overload of `quit` with a list of tokens. -/
def quitWith (sender : Address) (tokenIds : List Nat) (erc20TokensToInclude : List Address) :
    Tx (ForkWorld H) :=
  w.nonReentrant (fun w => do
    StorageV1Fork.checkForDuplicates erc20TokensToInclude
    revertIf (¬ ∀ a ∈ erc20TokensToInclude, a ∈ w.dao.erc20TokensToIncludeInQuit)
      .TokensMustBeASubsetOfWhitelistedTokens
    w.quitInternal d sender tokenIds erc20TokensToInclude)

/-! ## Steps -/

/-- Runs a function of the DAO that changes its storage only. -/
def withStorage (dao : Tx StorageV1Fork) : Tx (ForkWorld H) := do
  return { w with dao := ← dao }

def callDAO (sender : Account) : ForkDAOCall → Tx (ForkWorld H)
  | .propose txs description =>
      w.withStorage (Prod.fst <$> w.dao.propose (w.env d) sender txs description)
  | .queue id => w.withTimelock (fun dao e => dao.queue (w.env d) e id)
  | .execute id => w.execute d id
  | .cancel id => w.withTimelock (fun dao e => dao.cancel (w.env d) e sender id)
  | .castVote id support => w.withStorage (w.dao.castVote (w.env d) sender id support)
  | .castVoteWithReason id support reason =>
      w.withStorage (w.dao.castVoteWithReason (w.env d) sender id support reason)
  | .castVoteBySig id support sig =>
      w.withStorage (w.dao.castVoteBySig (w.env d) id support sig)
  | .admin call => w.withStorage (w.dao.adminCall sender call)
  | .quit tokenIds => w.quit d sender tokenIds
  | .quitWith tokenIds erc20TokensToInclude => w.quitWith d sender tokenIds erc20TokensToInclude

/-- The modelled contracts refuse a safe transfer. -/
def received (to_ : Address) : Tx Unit :=
  require (d.isContract to_ = false ∧ w.outside.acceptsERC721 to_ = true) .callFailed

def callToken (sender : Account) (call : NounsTokenForkCall) : Tx (ForkWorld H) := do
  let nouns ← w.nouns.call d.crypto w.escrow (w.received d) w.blockNumber w.timestamp sender call
  return { w with nouns }

def callExecutor (sender : Account) (call : ExecutorCall) : Tx (ForkWorld H) := do
  return { w with executor := ← w.executor.call d.timelock sender call }

/-- Resumes the contract that waits for the outside call on top of the stack. -/
def resume : ForkContinuation → Tx (ForkWorld H)
  | .execute proposalId i tx =>
      ({ w with executor := w.executor.endTransaction tx }).executeFrom d proposalId (i + 1)
  | .sendETH quitting rest amount =>
      let executor := w.executor.emit (.ETHSent quitting.sender amount)
      ({ w with executor }).payERC20 d quitting rest
  | .sendERC20 quitting rest erc20token amount =>
      let executor := w.executor.emit (.ERC20Sent quitting.sender erc20token amount)
      ({ w with executor }).payERC20 d quitting rest

/-- Checks that `sender` can call `callee` now. -/
def enter (sender callee : Address) : Tx (ForkWorld H) :=
  match w.frames with
  | [] => do
    require (d.isContract sender = false) .callFailed
    return w
  | frame :: frames =>
    if d.isContract frame.callee then do
      require (frame.caller = some sender ∧ callee = frame.callee) .callFailed
      return { w with frames := { frame with caller := none } :: frames }
    else do
      require (d.isContract sender = false) .callFailed
      return w

def step : ForkAction → Tx (ForkWorld H)
  | .advance blockNumber timestamp => do
      require (w.frames.isEmpty = true ∧ w.blockNumber ≤ blockNumber ∧ w.timestamp ≤ timestamp)
        .callFailed
      return { w with blockNumber, timestamp }
  | .callDAO sender call => do (← w.enter d sender d.dao).callDAO d sender call
  | .callToken sender call => do (← w.enter d sender d.nouns).callToken d sender call
  | .callExecutor sender call => do (← w.enter d sender d.timelock).callExecutor d sender call
  | .return_ =>
      match w.frames with
      | [] => throw .callFailed
      | frame :: frames => ({ w with frames }).resume d frame.continuation

/-- Outside the modelled contracts, balances and answers change freely; the contracts may receive
ETH and tokens. -/
structure OutsideChange (w' : ForkWorld H) : Prop where
  same : ∃ escrow eth erc20 outside, w' = { w with escrow, eth, erc20, outside }
  eth_le : ∀ a, d.isContract a = true → w.eth a ≤ w'.eth a
  erc20_le : ∀ token a, d.isContract a = true → w.erc20 token a ≤ w'.erc20 token a

/-- One step of the chain; `admits` restricts the actions of a run. -/
inductive Next (admits : ForkWorld H → ForkAction → Prop) : ForkWorld H → ForkWorld H → Prop
  | step {w w' : ForkWorld H} (a : ForkAction) : admits w a → w.step d a = .ok w' →
      Next admits w w'
  | outside {w w' : ForkWorld H} : OutsideChange d w w' → Next admits w w'

/-- All steps of the chain. -/
abbrev NextAny : ForkWorld H → ForkWorld H → Prop := Next d (fun _ _ => True)

/-! ## Evaluating runs -/

/-- Makes the calls one after the other. -/
def run (w : ForkWorld H) : List ForkAction → Tx (ForkWorld H)
  | [] => return w
  | a :: actions => do
    let w' ← w.step d a
    run w' actions

variable {d}

theorem run_steps {w w' : ForkWorld H} {actions : List ForkAction}
    (h : w.run d actions = .ok w') : Relation.ReflTransGen (NextAny d) w w' := by
  induction actions generalizing w with
  | nil =>
    cases pure_eq_ok.mp h
    exact .refl
  | cons a actions ih =>
    simp only [run, bind_eq_ok] at h
    obtain ⟨w₁, hstep, hrest⟩ := h
    exact .head (.step a trivial hstep) (ih hrest)

end ForkWorld

/-! ## A small deployment -/

def ForkDeployment.sample : ForkDeployment Preimage where
  crypto := .transparent
  dao := 200
  nouns := 201
  timelock := 202
  isContract := fun a => a ∈ [200, 201, 202]

/-- Tokens are minted to 7. -/
def ForkWorld.sample : ForkWorld Preimage where
  blockNumber := 1
  timestamp := 1
  dao := .deploy 202 StorageV1Fork.MIN_VOTING_PERIOD 1 1 200 [] 1
  executor :=
    { admin := 200
      pendingAdmin := 0
      delay := .shortest
      queuedTransactions := fun _ => false
      log := [] }
  nouns := .deploy 202 7 0 5 0 1
  escrow := ⟨0, fun _ _ => 0⟩
  eth := fun _ => 10 ^ 18
  erc20 := fun _ _ => 0
  outside := ⟨fun _ _ _ => false, fun _ => 0, fun _ => true⟩
  frames := []

end Nouns
