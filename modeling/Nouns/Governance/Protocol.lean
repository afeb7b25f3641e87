import Nouns.Governance.System
import Nouns.Token.Changes

/-!
# Protocol — governance as a transition system

What the invariants are about: proposals, quorum parameters, the timelocks' queues and logs, the
actions in progress, the end of the fork period and the token.  `Gov.Step` lists everything that can
happen to them; `Refinement` shows that every step of the contracts is one of these.
-/

open Fallible Checkpoints

namespace Nouns

/-- A timelock as a queue of transactions, with those it queued and ran so far. -/
structure TxQueue (H : Type) where
  queued : H → Bool
  queueings : List Transaction
  runs : List Transaction

/-- A timelock is in the call of action `i` of a proposal. -/
structure Execution where
  proposalId : Nat
  timelock : Address
  i : Nat
  tx : Transaction
deriving DecidableEq

structure Gov (H : Type) where
  blockNumber : Nat
  timestamp : Nat
  store : ProposalStorage
  forkEndTimestamp : Nat
  queues : Address → TxQueue H
  executing : List Execution
  nouns : Token

/-! ## The governance view of the contracts -/

def ExecutorEvent.queueing? : ExecutorEvent → Option Transaction
  | .QueueTransaction tx => some tx
  | _ => none

def ExecutorEvent.run? : ExecutorEvent → Option Transaction
  | .ExecuteTransaction tx => some tx
  | _ => none

def Executor.toQueue {H : Type} (e : Executor H) : TxQueue H where
  queued := e.queuedTransactions
  queueings := e.log.filterMap ExecutorEvent.queueing?
  runs := e.log.filterMap ExecutorEvent.run?

def Frame.execution? (f : Frame) : Option Execution :=
  match f.continuation with
  | .executeInternal proposalId timelock i tx => some ⟨proposalId, timelock, i, tx⟩
  | _ => none

def World.gov {H : Type} (w : World H) : Gov H where
  blockNumber := w.blockNumber
  timestamp := w.timestamp
  store := w.dao.toProposalStorage
  forkEndTimestamp := w.dao.forkEndTimestamp
  queues := fun a => (w.executors a).toQueue
  executing := w.frames.filterMap Frame.execution?
  nouns := w.nouns.toToken

/-! ## Transitions -/

/-- The parameters a setter asks for, given those in force. -/
def QuorumCall.apply (params : DynamicQuorumParams) : QuorumCall → DynamicQuorumParams
  | .setMinQuorumVotesBPS newMin => { params with minQuorumVotesBPS := newMin }
  | .setMaxQuorumVotesBPS newMax => { params with maxQuorumVotesBPS := newMax }
  | .setQuorumCoefficient newCoefficient => { params with quorumCoefficient := newCoefficient }
  | .setDynamicQuorumParams newMin newMax newCoefficient => ⟨newMin, newMax, newCoefficient⟩

namespace TxQueue

variable {H : Type} (c : Crypto H)

/-- All of `txs` were off the queue, and were put on it. -/
structure QueuedAll (txs : List Transaction) (q q' : TxQueue H) : Prop where
  nodup : txs.Nodup
  fresh : ∀ tx ∈ txs, q.queued (Executor.txHash c tx) = false
  queued : ∀ tx ∈ txs, q'.queued (Executor.txHash c tx) = true
  others : ∀ h, (∀ tx ∈ txs, Executor.txHash c tx ≠ h) → q'.queued h = q.queued h
  queueings : ∀ tx, tx ∈ q'.queueings ↔ tx ∈ txs ∨ tx ∈ q.queueings
  runs : q'.runs = q.runs

/-- All of `txs` were taken off the queue. -/
structure CanceledAll (txs : List Transaction) (q q' : TxQueue H) : Prop where
  canceled : ∀ tx ∈ txs, q'.queued (Executor.txHash c tx) = false
  others : ∀ h, (∀ tx ∈ txs, Executor.txHash c tx ≠ h) → q'.queued h = q.queued h
  queueings : q'.queueings = q.queueings
  runs : q'.runs = q.runs

end TxQueue

/-- `p` can be created in block `now`: the next free slot with the fields of a new proposal. -/
structure ProposalStorage.Created (s : ProposalStorage) (now : Nat) (p : Proposal) : Prop where
  content : ∃ txs proposer proposalThreshold startBlock endBlock totalSupply updatePeriodEndBlock
      signers executeOnTimelockV1, p = { s.proposals (s.proposalCount + 1) with
    toProposalTxs := txs
    id := s.proposalCount + 1
    proposer
    proposalThreshold
    startBlock
    endBlock
    totalSupply
    creationBlock := now
    updatePeriodEndBlock
    signers
    executeOnTimelockV1 }
  txs : checkProposalTxs p.toProposalTxs = .ok ()
  creation_le : now ≤ p.updatePeriodEndBlock
  update_le : p.updatePeriodEndBlock ≤ p.startBlock
  start_le : p.startBlock ≤ p.endBlock
  quorum : ∃ params, s.getDynamicQuorumParamsAt now = .ok params

/-- What its proposer and the voters can make of proposal `id`. -/
inductive ProposalStorage.BallotChange (s : ProposalStorage) (clock : Clock) (nouns : Token)
    (id : Nat) : Proposal → Prop
  | update (txs : ProposalTxs) : s.stateInternal clock id = .ok .Updatable →
      checkProposalTxs txs = .ok () →
      BallotChange s clock nouns id { s.proposals id with toProposalTxs := txs }
  | vote (voter : Address) (support votes objectionPeriodEndBlock : Nat) :
      s.stateInternal clock id = .ok .Active → support ≤ 2 →
      ((s.proposals id).receipts voter).hasVoted = false →
      nouns.getPriorVotes clock.blockNumber voter
        (s.proposalVoteSnapshotBlock id (s.proposals id)) = .ok votes →
      objectionPeriodEndBlock = (s.proposals id).objectionPeriodEndBlock ∨
        (s.proposals id).endBlock ≤ objectionPeriodEndBlock →
      BallotChange s clock nouns id { StorageV3.setReceipt
        (StorageV3.countVotes (s.proposals id) support votes) voter ⟨true, support, votes⟩ with
        objectionPeriodEndBlock }
  | object (voter : Address) (votes : Nat) : s.stateInternal clock id = .ok .ObjectionPeriod →
      ((s.proposals id).receipts voter).hasVoted = false →
      nouns.getPriorVotes clock.blockNumber voter
        (s.proposalVoteSnapshotBlock id (s.proposals id)) = .ok votes →
      BallotChange s clock nouns id (StorageV3.setReceipt
        (StorageV3.countVotes (s.proposals id) 0 votes) voter ⟨true, 0, votes⟩)

namespace Gov

variable {H : Type} [DecidableEq H] (d : Deployment H) (g : Gov H)

def clock : Clock where
  blockNumber := g.blockNumber
  timestamp := g.timestamp
  gracePeriod := fun a => (d.executorVersion a).GRACE_PERIOD

def state (proposalId : Nat) : Tx ProposalState := g.store.stateInternal (g.clock d) proposalId

def isForkPeriodActive : Prop := g.forkEndTimestamp > g.timestamp

def setProposal (id : Nat) (p : Proposal) : Gov H :=
  { g with store := { g.store with proposals := Function.update g.store.proposals id p } }

def setQueue (a : Address) (q : TxQueue H) : Gov H :=
  { g with queues := Function.update g.queues a q }

def ownTimelock (id : Nat) : Address := g.store.getProposalTimelock (g.store.proposals id)

def actions (id : Nat) : List Transaction :=
  (g.store.proposals id).actions (g.store.proposals id).eta

/-- The execution of proposal `id` on `timelock` goes on with action `i`, or ends. -/
inductive Continues (id : Nat) (timelock : Address) (i : Nat) : Gov H → Prop
  | next (tx : Transaction) : i < (g.store.proposals id).targets.length →
      (g.store.proposals id).action (g.store.proposals id).eta i = .ok tx →
      (g.queues timelock).queued (Executor.txHash d.crypto tx) = true →
      tx.eta ≤ g.timestamp →
      Continues id timelock i { g.setQueue timelock { g.queues timelock with
        queued := Function.update (g.queues timelock).queued (Executor.txHash d.crypto tx) false }
        with executing := ⟨id, timelock, i, tx⟩ :: g.executing }
  | done : (g.store.proposals id).targets.length ≤ i → Continues id timelock i g

/-- The kind of a step, as far as runs are restricted by it. -/
inductive Label
  | quorum (call : QuorumCall)
  | execute (id : Nat) (timelock : Address)
  | veto (id : Nat)
  | resume
  | fork
  | other
deriving DecidableEq

inductive Step : Label → Gov H → Prop
  | token (l : Label) (t : Token) : Token.Changes True g.blockNumber g.nouns t →
      Step l { g with nouns := t }
  | advance (blockNumber timestamp : Nat) : g.executing = [] → g.blockNumber ≤ blockNumber →
      g.timestamp ≤ timestamp → Step .other { g with blockNumber, timestamp }
  | quorum (call : QuorumCall) (params : DynamicQuorumParams) :
      g.store.getDynamicQuorumParamsAt g.blockNumber = .ok params →
      Step (.quorum call) { g with store := { g.store with
        quorumParamsCheckpoints :=
          write g.store.quorumParamsCheckpoints g.blockNumber (call.apply params) } }
  | switch : g.store.voteSnapshotBlockSwitchProposalId = 0 →
      Step .other { g with store := { g.store with
        voteSnapshotBlockSwitchProposalId := g.store.proposalCount + 1 } }
  | timelocks (timelock timelockV1 : Address) :
      Step .other { g with store := { g.store with timelock, timelockV1 } }
  | create (p : Proposal) : g.store.Created g.blockNumber p →
      Step .other { g with store := { g.store with
        proposalCount := g.store.proposalCount + 1
        proposals := Function.update g.store.proposals (g.store.proposalCount + 1) p } }
  | ballot (id : Nat) (p : Proposal) : g.store.BallotChange (g.clock d) g.nouns id p →
      Step .other (g.setProposal id p)
  | queue (id : Nat) (delay : Delay) (q : TxQueue H) : g.state d id = .ok .Succeeded →
      TxQueue.QueuedAll d.crypto ((g.store.proposals id).actions (g.timestamp + delay))
        (g.queues (g.ownTimelock id)) q →
      Step .other ((g.setProposal id { g.store.proposals id with
        eta := g.timestamp + delay }).setQueue (g.ownTimelock id) q)
  | cancel (id : Nat) (s : ProposalState) (q : TxQueue H) : g.state d id = .ok s →
      s ≠ .Canceled → s ≠ .Defeated → s ≠ .Expired → s ≠ .Executed → s ≠ .Vetoed →
      TxQueue.CanceledAll d.crypto (g.actions id) (g.queues (g.ownTimelock id)) q →
      Step .other ((g.setProposal id { g.store.proposals id with canceled := true }).setQueue
        (g.ownTimelock id) q)
  | veto (id : Nat) (s : ProposalState) (q : TxQueue H) : g.state d id = .ok s → s ≠ .Executed →
      TxQueue.CanceledAll d.crypto (g.actions id) (g.queues (g.ownTimelock id)) q →
      Step (.veto id) ((g.setProposal id { g.store.proposals id with vetoed := true }).setQueue
        (g.ownTimelock id) q)
  | execute (id : Nat) (timelock : Address) (g' : Gov H) :
      g.state d (g.store.proposals id).id = .ok .Queued → ¬ g.isForkPeriodActive →
      Continues d (g.setProposal id { g.store.proposals id with executed := true }) id timelock 0
        g' → Step (.execute id timelock) g'
  | resume (x : Execution) (rest : List Execution) (g' : Gov H) : g.executing = x :: rest →
      Continues d { g.setQueue x.timelock { g.queues x.timelock with
        runs := x.tx :: (g.queues x.timelock).runs } with executing := rest }
        x.proposalId x.timelock (x.i + 1) g' → Step .resume g'
  | fork (forkEndTimestamp : Nat) : Step .fork { g with forkEndTimestamp }

/-- A step of a kind that `admits` allows. -/
def Next (admits : Gov H → Label → Prop) (g' : Gov H) : Prop := ∃ l, admits g l ∧ g.Step d l g'

end Gov

/-! ## The kind of an action -/

/-- The frame belongs to an `executeFork` that has not ended. -/
def Frame.isForking (f : Frame) : Bool :=
  match f.continuation with
  | .deployForkDAO _ => true
  | .sendETH payout _ | .sendERC20 payout _ _ _ _ =>
    match payout.purpose with
    | .executeFork _ _ _ => true
    | .joinFork _ => false
  | _ => false

def World.label {H : Type} (w : World H) : Action → Gov.Label
  | .callDAO _ _ (.execute id) =>
      .execute id (w.dao.getProposalTimelock (w.dao.proposals id))
  | .callDAO _ _ (.executeOnTimelockV1 id) => .execute id w.dao.timelockV1
  | .callDAO _ _ (.veto id) => .veto id
  | .callDAO _ _ (.quorum call) => .quorum call
  | .return_ _ _ =>
      match w.frames with
      | [] => .other
      | f :: _ =>
        if f.isForking then .fork
        else if f.execution?.isSome then .resume
        else .other
  | _ => .other

end Nouns
