import Nouns.Governance.Functions
import Nouns.Governance.Timelocks

/-!
# Events — what the DAO logs about proposals

`Course.Step` is the inversion of `World.step` for the proposals, the parameters of their quorum and
the log: it says which event goes with which change.  An execution logs its event when it ends, so the
executions in progress are part of the state.
-/

open Fallible Checkpoints Relation

namespace Nouns

variable {H : Type}

/-- The events of a change of proposals or of the parameters of their quorum. -/
def DAOEvent.ofProposals : DAOEvent → Bool
  | .ProposalCreated .. | .ProposalCreatedWithRequirements .. | .ProposalCreatedOnTimelockV1 _
  | .ProposalUpdated .. | .ProposalTransactionsUpdated .. | .ProposalDescriptionUpdated ..
  | .ProposalQueued .. | .ProposalExecuted _ | .ProposalCanceled _ | .ProposalVetoed _
  | .VoteCast .. | .ProposalObjectionPeriodSet .. | .MinQuorumVotesBPSSet ..
  | .MaxQuorumVotesBPSSet .. | .QuorumCoefficientSet .. | .VoteSnapshotBlockSwitchProposalIdSet .. =>
      true
  | _ => false

/-- The proposal an event is about. -/
def DAOEvent.proposalId? : DAOEvent → Option Nat
  | .ProposalCreated id .. | .ProposalCreatedWithRequirements id .. | .ProposalCreatedOnTimelockV1 id
  | .ProposalUpdated id .. | .ProposalTransactionsUpdated id .. | .ProposalDescriptionUpdated id ..
  | .ProposalQueued id _ | .ProposalExecuted id | .ProposalCanceled id | .ProposalVetoed id
  | .VoteCast _ id .. | .ProposalObjectionPeriodSet id _ => some id
  | _ => none

theorem DAOEvent.proposalId?_of_aside {e : DAOEvent} (h : e.ofProposals = false) :
    e.proposalId? = none := by
  cases e <;> first | rfl | exact absurd h Bool.true_eq_false.mp

/-- The DAO with the proposals in execution, the innermost first. -/
structure Course (H : Type) where
  ds : StorageV3 H
  executing : List Nat

def World.course (w : World H) : Course H := ⟨w.dao, w.gov.executing.map Execution.proposalId⟩

namespace StorageV3

variable {ds ds' ds₁ : StorageV3 H}

/-- These are the proposals now, and these events were logged. -/
structure Logged (ds ds' : StorageV3 H) (proposals : Nat → Proposal) (proposalCount : Nat)
    (events : List DAOEvent) : Prop where
  proposals : ds'.proposals = proposals
  proposalCount : ds'.proposalCount = proposalCount
  quorumParamsCheckpoints : ds'.quorumParamsCheckpoints = ds.quorumParamsCheckpoints
  switch : ds'.voteSnapshotBlockSwitchProposalId = ds.voteSnapshotBlockSwitchProposalId
  log : ds'.log = events ++ ds.log

theorem Logged.emit {proposals : Nat → Proposal} {proposalCount : Nat} {events : List DAOEvent}
    (h : Logged ds ds' proposals proposalCount events) (e : DAOEvent) :
    Logged ds (ds'.emit e) proposals proposalCount (e :: events) :=
  ⟨h.proposals, h.proposalCount, h.quorumParamsCheckpoints, h.switch, congrArg (e :: ·) h.log⟩

/-- Nothing about proposals changed. -/
def Aside (ds ds' : StorageV3 H) : Prop :=
  ∃ events, (∀ e ∈ events, DAOEvent.ofProposals e = false) ∧
    Logged ds ds' ds.proposals ds.proposalCount events

theorem Aside.refl (ds : StorageV3 H) : Aside ds ds := ⟨[], nofun, rfl, rfl, rfl, rfl, rfl⟩

theorem Aside.trans (h : Aside ds ds₁) (h' : Aside ds₁ ds') : Aside ds ds' := by
  obtain ⟨events, hevents, hlogged⟩ := h
  obtain ⟨events', hevents', hlogged'⟩ := h'
  refine ⟨events' ++ events, ?_, ?_, ?_, ?_, ?_, ?_⟩
  · intro e he
    rcases List.mem_append.mp he with he | he
    · exact hevents' e he
    · exact hevents e he
  · exact hlogged'.proposals.trans hlogged.proposals
  · exact hlogged'.proposalCount.trans hlogged.proposalCount
  · exact hlogged'.quorumParamsCheckpoints.trans hlogged.quorumParamsCheckpoints
  · exact hlogged'.switch.trans hlogged.switch
  · rw [hlogged'.log, hlogged.log, List.append_assoc]

/-- One event. -/
theorem Aside.of_log {e : DAOEvent} (he : e.ofProposals = false)
    (hproposals : ds'.proposals = ds.proposals) (hcount : ds'.proposalCount = ds.proposalCount)
    (hquorum : ds'.quorumParamsCheckpoints = ds.quorumParamsCheckpoints)
    (hswitch : ds'.voteSnapshotBlockSwitchProposalId = ds.voteSnapshotBlockSwitchProposalId)
    (hlog : ds'.log = e :: ds.log) : Aside ds ds' :=
  ⟨[e], by simpa using he, hproposals, hcount, hquorum, hswitch, hlog⟩

theorem Aside.emit (ds : StorageV3 H) {e : DAOEvent} (he : e.ofProposals = false) :
    Aside ds (ds.emit e) :=
  .of_log he rfl rfl rfl rfl rfl

/-- The events of a new proposal, the latest first. -/
def creationEvents (p : Proposal) (minQuorumVotes : Nat) (description : String) : List DAOEvent :=
  (if p.executeOnTimelockV1 then [.ProposalCreatedOnTimelockV1 p.id] else []) ++
  [.ProposalCreatedWithRequirements p.id p.proposer p.signers p.toProposalTxs p.startBlock p.endBlock
      p.updatePeriodEndBlock p.proposalThreshold minQuorumVotes description,
    .ProposalCreated p.id p.proposer p.toProposalTxs p.startBlock p.endBlock description]

/-- An update of proposal `id` to these transactions logs this event. -/
inductive Updates (ds : StorageV3 H) (id : Nat) (txs : ProposalTxs) : DAOEvent → Prop
  | both (sender : Address) (description message : String) :
      Updates ds id txs (.ProposalUpdated id sender txs description message)
  | transactions (sender : Address) (message : String) :
      Updates ds id txs (.ProposalTransactionsUpdated id sender txs message)
  | description (sender : Address) (description message : String) :
      txs = (ds.proposals id).toProposalTxs →
      Updates ds id txs (.ProposalDescriptionUpdated id sender description message)

/-- The event of an objection period that a vote on `p` opened until block `o`, if any. -/
inductive Objection (p : Proposal) : Nat → List DAOEvent → Prop
  | none : Objection p p.objectionPeriodEndBlock []
  | opened (o : Nat) : Objection p o [.ProposalObjectionPeriodSet p.id o]

/-- The events of a setter, the latest first, given the parameters in force. -/
def quorumEvents (params : DynamicQuorumParams) : QuorumCall → List DAOEvent
  | .setMinQuorumVotesBPS newMin => [.MinQuorumVotesBPSSet params.minQuorumVotesBPS newMin]
  | .setMaxQuorumVotesBPS newMax => [.MaxQuorumVotesBPSSet params.maxQuorumVotesBPS newMax]
  | .setQuorumCoefficient newCoefficient =>
      [.QuorumCoefficientSet params.quorumCoefficient newCoefficient]
  | .setDynamicQuorumParams newMin newMax newCoefficient =>
      [.QuorumCoefficientSet params.quorumCoefficient newCoefficient,
        .MaxQuorumVotesBPSSet params.maxQuorumVotesBPS newMax,
        .MinQuorumVotesBPSSet params.minQuorumVotesBPS newMin]

end StorageV3

/-- One change of the proposals or of the parameters of their quorum, with its events. -/
inductive Course.Step [DecidableEq H] (env : Env H) (g : Course H) : Course H → Prop
  | aside (ds' : StorageV3 H) : g.ds.Aside ds' → Step env g ⟨ds', g.executing⟩
  | create (ds' : StorageV3 H) (p : Proposal) (minQuorumVotes : Nat) (description : String) :
      0 < env.blockNumber → g.ds.proposals (g.ds.proposalCount + 1) = Proposal.empty →
      g.ds.toProposalStorage.Created env.blockNumber p →
      g.ds.adjustedTotalSupply env = .ok p.totalSupply →
      g.ds.minQuorumVotes env.blockNumber p.totalSupply = .ok minQuorumVotes →
      g.ds.Logged ds' (Function.update g.ds.proposals (g.ds.proposalCount + 1) p)
        (g.ds.proposalCount + 1) (StorageV3.creationEvents p minQuorumVotes description) →
      Step env g ⟨ds', g.executing⟩
  | update (ds' : StorageV3 H) (id : Nat) (txs : ProposalTxs) (e : DAOEvent) :
      g.ds.stateInternal env.toClock id = .ok .Updatable → g.ds.Updates id txs e →
      g.ds.Logged ds' (Function.update g.ds.proposals id
        { g.ds.proposals id with toProposalTxs := txs }) g.ds.proposalCount [e] →
      Step env g ⟨ds', g.executing⟩
  | vote (ds' : StorageV3 H) (id : Nat) (voter : Address) (support votes : Nat) (reason : String)
      (o : Nat) (objection : List DAOEvent) :
      g.ds.stateInternal env.toClock id = .ok .Active ∨
        g.ds.stateInternal env.toClock id = .ok .ObjectionPeriod →
      support ≤ 2 → StorageV3.Objection (g.ds.proposals id) o objection →
      g.ds.Logged ds' (Function.update g.ds.proposals id
        { StorageV3.setReceipt (StorageV3.countVotes (g.ds.proposals id) support votes) voter
          ⟨true, support, votes⟩ with objectionPeriodEndBlock := o }) g.ds.proposalCount
        (.VoteCast voter id support votes reason :: objection) →
      Step env g ⟨ds', g.executing⟩
  | queue (ds' : StorageV3 H) (id eta : Nat) :
      g.ds.stateInternal env.toClock id = .ok .Succeeded → eta ≠ 0 →
      g.ds.Logged ds' (Function.update g.ds.proposals id { g.ds.proposals id with eta })
        g.ds.proposalCount [.ProposalQueued id eta] → Step env g ⟨ds', g.executing⟩
  | begin_ (ds' : StorageV3 H) (id : Nat) :
      0 < id → (g.ds.proposals id).id = id → g.ds.stateInternal env.toClock id = .ok .Queued →
      g.ds.Logged ds' (Function.update g.ds.proposals id { g.ds.proposals id with executed := true })
        g.ds.proposalCount [] → Step env g ⟨ds', id :: g.executing⟩
  | finish (ds' : StorageV3 H) (id : Nat) (rest : List Nat) : g.executing = id :: rest →
      g.ds.Logged ds' g.ds.proposals g.ds.proposalCount
        [.ProposalExecuted (g.ds.proposals id).id] → Step env g ⟨ds', rest⟩
  | cancel (ds' : StorageV3 H) (id : Nat) (s : ProposalState) :
      g.ds.stateInternal env.toClock id = .ok s →
      (s ≠ .Canceled ∧ s ≠ .Defeated ∧ s ≠ .Expired ∧ s ≠ .Executed ∧ s ≠ .Vetoed) →
      ((g.ds.proposals id).Alive → (g.ds.proposals id).executed = false) →
      g.ds.Logged ds' (Function.update g.ds.proposals id { g.ds.proposals id with canceled := true })
        g.ds.proposalCount [.ProposalCanceled id] → Step env g ⟨ds', g.executing⟩
  | veto (ds' : StorageV3 H) (id : Nat) (s : ProposalState) :
      g.ds.stateInternal env.toClock id = .ok s → s ≠ .Executed →
      ((g.ds.proposals id).Alive → (g.ds.proposals id).executed = false) →
      g.ds.Logged ds' (Function.update g.ds.proposals id { g.ds.proposals id with vetoed := true })
        g.ds.proposalCount [.ProposalVetoed id] → Step env g ⟨ds', g.executing⟩
  | quorum (ds' : StorageV3 H) (call : QuorumCall) (params : DynamicQuorumParams) :
      g.ds.getDynamicQuorumParamsAt env.blockNumber = .ok params →
      ds'.toProposalStorage = { g.ds.toProposalStorage with
        quorumParamsCheckpoints :=
          write g.ds.quorumParamsCheckpoints env.blockNumber (call.apply params) } →
      ds'.log = StorageV3.quorumEvents params call ++ g.ds.log → Step env g ⟨ds', g.executing⟩
  | switch (ds' : StorageV3 H) : g.ds.voteSnapshotBlockSwitchProposalId = 0 →
      ds'.toProposalStorage = { g.ds.toProposalStorage with
        voteSnapshotBlockSwitchProposalId := g.ds.proposalCount + 1 } →
      ds'.log = .VoteSnapshotBlockSwitchProposalIdSet 0 (g.ds.proposalCount + 1) :: g.ds.log →
      Step env g ⟨ds', g.executing⟩

abbrev Course.Steps [DecidableEq H] (env : Env H) : Course H → Course H → Prop :=
  ReflTransGen (Course.Step env)

namespace StorageV3

variable {ds ds' : StorageV3 H} {sender : Address}

/-! ## Setters -/

theorem setForkEscrow_aside {a : Address} (h : ds.setForkEscrow sender a = .ok ds') :
    Aside ds ds' := by
  simp only [setForkEscrow, bind_eq_ok, pure_eq_ok] at h
  obtain ⟨_, -, rfl⟩ := h
  exact .of_log rfl rfl rfl rfl rfl rfl

theorem setForkDAODeployer_aside {a : Address} (h : ds.setForkDAODeployer sender a = .ok ds') :
    Aside ds ds' := by
  simp only [setForkDAODeployer, bind_eq_ok, pure_eq_ok] at h
  obtain ⟨_, -, rfl⟩ := h
  exact .of_log rfl rfl rfl rfl rfl rfl

theorem setErc20TokensToIncludeInFork_aside {l : List Address}
    (h : ds.setErc20TokensToIncludeInFork sender l = .ok ds') : Aside ds ds' := by
  simp only [setErc20TokensToIncludeInFork, bind_eq_ok, pure_eq_ok] at h
  obtain ⟨_, -, _, -, rfl⟩ := h
  exact .of_log rfl rfl rfl rfl rfl rfl

theorem setForkPeriod_aside {v : Nat} (h : ds.setForkPeriod sender v = .ok ds') : Aside ds ds' := by
  simp only [setForkPeriod, bind_eq_ok, pure_eq_ok] at h
  obtain ⟨_, -, _, -, _, -, rfl⟩ := h
  exact .of_log rfl rfl rfl rfl rfl rfl

theorem setForkThresholdBPS_aside {v : Nat} (h : ds.setForkThresholdBPS sender v = .ok ds') :
    Aside ds ds' := by
  simp only [setForkThresholdBPS, bind_eq_ok, pure_eq_ok] at h
  obtain ⟨_, -, rfl⟩ := h
  exact .of_log rfl rfl rfl rfl rfl rfl

theorem adminCall_aside {c : AdminCall} (h : ds.adminCall sender c = .ok ds') : Aside ds ds' := by
  cases c with
  | setForkParams forkEscrow forkDAODeployer erc20s forkPeriod forkThresholdBPS =>
    simp only [adminCall, setForkParams, bind_eq_ok] at h
    obtain ⟨ds₁, h₁, ds₂, h₂, ds₃, h₃, ds₄, h₄, h₅⟩ := h
    exact (((setForkEscrow_aside h₁).trans (setForkDAODeployer_aside h₂)).trans
      (setErc20TokensToIncludeInFork_aside h₃)).trans (setForkPeriod_aside h₄) |>.trans
      (setForkThresholdBPS_aside h₅)
  | setForkEscrow a => exact setForkEscrow_aside h
  | setForkDAODeployer a => exact setForkDAODeployer_aside h
  | setErc20TokensToIncludeInFork l => exact setErc20TokensToIncludeInFork_aside h
  | setForkPeriod v => exact setForkPeriod_aside h
  | setForkThresholdBPS v => exact setForkThresholdBPS_aside h
  | setTimelocksAndAdmin timelock timelockV1 admin =>
    simp only [adminCall, setTimelocksAndAdmin, bind_eq_ok, pure_eq_ok] at h
    obtain ⟨_, -, rfl⟩ := h
    exact .of_log rfl rfl rfl rfl rfl rfl
  | setVotingDelay v =>
    simp only [adminCall, setVotingDelay, bind_eq_ok, pure_eq_ok] at h
    obtain ⟨_, -, _, -, rfl⟩ := h
    exact .of_log rfl rfl rfl rfl rfl rfl
  | setVotingPeriod v =>
    simp only [adminCall, setVotingPeriod, bind_eq_ok, pure_eq_ok] at h
    obtain ⟨_, -, _, -, rfl⟩ := h
    exact .of_log rfl rfl rfl rfl rfl rfl
  | setProposalThresholdBPS v =>
    simp only [adminCall, setProposalThresholdBPS, bind_eq_ok, pure_eq_ok] at h
    obtain ⟨_, -, _, -, rfl⟩ := h
    exact .of_log rfl rfl rfl rfl rfl rfl
  | setObjectionPeriodDurationInBlocks v =>
    simp only [adminCall, setObjectionPeriodDurationInBlocks, bind_eq_ok, pure_eq_ok] at h
    obtain ⟨_, -, _, -, rfl⟩ := h
    exact .of_log rfl rfl rfl rfl rfl rfl
  | setLastMinuteWindowInBlocks v =>
    simp only [adminCall, setLastMinuteWindowInBlocks, bind_eq_ok, pure_eq_ok] at h
    obtain ⟨_, -, rfl⟩ := h
    exact .of_log rfl rfl rfl rfl rfl rfl
  | setProposalUpdatablePeriodInBlocks v =>
    simp only [adminCall, setProposalUpdatablePeriodInBlocks, bind_eq_ok, pure_eq_ok] at h
    obtain ⟨_, -, _, -, rfl⟩ := h
    exact .of_log rfl rfl rfl rfl rfl rfl
  | setPendingAdmin a =>
    simp only [adminCall, setPendingAdmin, bind_eq_ok, pure_eq_ok] at h
    obtain ⟨_, -, rfl⟩ := h
    exact .of_log rfl rfl rfl rfl rfl rfl
  | acceptAdmin =>
    simp only [adminCall, acceptAdmin, bind_eq_ok, pure_eq_ok] at h
    obtain ⟨_, -, rfl⟩ := h
    exact ⟨[_, _], by simp [DAOEvent.ofProposals], rfl, rfl, rfl, rfl, rfl⟩
  | setPendingVetoer a =>
    simp only [adminCall, setPendingVetoer, bind_eq_ok, pure_eq_ok] at h
    obtain ⟨_, -, rfl⟩ := h
    exact .of_log rfl rfl rfl rfl rfl rfl
  | acceptVetoer =>
    simp only [adminCall, acceptVetoer, bind_eq_ok, pure_eq_ok] at h
    obtain ⟨_, -, rfl⟩ := h
    exact ⟨[_, _], by simp [DAOEvent.ofProposals], rfl, rfl, rfl, rfl, rfl⟩
  | burnVetoPower =>
    simp only [adminCall, burnVetoPower, bind_eq_ok, pure_eq_ok] at h
    obtain ⟨_, -, rfl⟩ := h
    exact ⟨[_, _], by simp [DAOEvent.ofProposals], rfl, rfl, rfl, rfl, rfl⟩

theorem quorumCall_logged {now : Nat} {c : QuorumCall} (h : ds.quorumCall sender now c = .ok ds') :
    ∃ params, ds.getDynamicQuorumParamsAt now = .ok params ∧
      ds'.toProposalStorage = { ds.toProposalStorage with
        quorumParamsCheckpoints := write ds.quorumParamsCheckpoints now (c.apply params) } ∧
      ds'.log = quorumEvents params c ++ ds.log := by
  cases c with
  | setMinQuorumVotesBPS newMin =>
    simp only [quorumCall, setMinQuorumVotesBPS, bind_eq_ok, pure_eq_ok] at h
    obtain ⟨_, -, params, hp, _, -, _, -, ds₁, hw, rfl⟩ := h
    rw [writeQuorumParamsCheckpoint_ok hw]
    exact ⟨params, hp, rfl, rfl⟩
  | setMaxQuorumVotesBPS newMax =>
    simp only [quorumCall, setMaxQuorumVotesBPS, bind_eq_ok, pure_eq_ok] at h
    obtain ⟨_, -, params, hp, _, -, _, -, ds₁, hw, rfl⟩ := h
    rw [writeQuorumParamsCheckpoint_ok hw]
    exact ⟨params, hp, rfl, rfl⟩
  | setQuorumCoefficient newCoefficient =>
    simp only [quorumCall, setQuorumCoefficient, bind_eq_ok, pure_eq_ok] at h
    obtain ⟨_, -, params, hp, ds₁, hw, rfl⟩ := h
    rw [writeQuorumParamsCheckpoint_ok hw]
    exact ⟨params, hp, rfl, rfl⟩
  | setDynamicQuorumParams newMin newMax newCoefficient =>
    simp only [quorumCall, setDynamicQuorumParams, bind_eq_ok, pure_eq_ok] at h
    obtain ⟨_, -, _, -, _, -, _, -, params, hp, ds₁, hw, rfl⟩ := h
    rw [writeQuorumParamsCheckpoint_ok hw]
    exact ⟨params, hp, rfl, rfl⟩

theorem setVoteSnapshotBlockSwitchProposalId_logged
    (h : ds.setVoteSnapshotBlockSwitchProposalId sender = .ok ds') :
    ds'.log = .VoteSnapshotBlockSwitchProposalIdSet 0 (ds.proposalCount + 1) :: ds.log := by
  have hzero := (setVoteSnapshotBlockSwitchProposalId_ok h).1
  simp only [setVoteSnapshotBlockSwitchProposalId, bind_eq_ok, pure_eq_ok] at h
  obtain ⟨_, -, _, -, rfl⟩ := h
  exact congrArg (DAOEvent.VoteSnapshotBlockSwitchProposalIdSet · _ :: ds.log) hzero

/-! ## Proposing -/

section Proposing

variable {env : Env H}

/-- A call that proposes `p`. -/
structure Creates (env : Env H) (ds ds' : StorageV3 H) (p : Proposal) (minQuorumVotes : Nat)
    (description : String) : Prop where
  block_pos : 0 < env.blockNumber
  created : ds.toProposalStorage.Created env.blockNumber p
  supply : ds.adjustedTotalSupply env = .ok p.totalSupply
  quorum : ds.minQuorumVotes env.blockNumber p.totalSupply = .ok minQuorumVotes
  logged : Logged ds ds' (Function.update ds.proposals (ds.proposalCount + 1) p)
    (ds.proposalCount + 1) (creationEvents p minQuorumVotes description)

theorem minQuorumVotes_congr {s s' : ProposalStorage}
    (hquorum : s'.quorumParamsCheckpoints = s.quorumParamsCheckpoints)
    (hbps : s'.quorumVotesBPS = s.quorumVotesBPS) (now supply : Nat) :
    s'.minQuorumVotes now supply = s.minQuorumVotes now supply := by
  simp only [ProposalStorage.minQuorumVotes, ProposalStorage.getDynamicQuorumParamsAt,
    ProposalStorage.defaultQuorumParams, hquorum, hbps]

/-- The votes before block 0 are not defined. -/
theorem votesBeforeNow_pos {account : Address} {votes : Nat}
    (h : votesBeforeNow env account = .ok votes) : 0 < env.blockNumber := by
  simp only [votesBeforeNow, bind_eq_ok, checkedSub_eq_ok] at h
  obtain ⟨_, ⟨hle, -⟩, -⟩ := h
  exact hle

theorem propose_creates {txs : ProposalTxs} {description : String} {id : Nat}
    (hslot : ds.proposals (ds.proposalCount + 1) = Proposal.empty)
    (h : ds.propose env sender txs description = .ok (ds', id)) :
    id = ds.proposalCount + 1 ∧ ∃ p q, p.executeOnTimelockV1 = false ∧
      Creates env ds ds' p q description := by
  simp only [propose, bind_eq_ok, pure_eq_ok, Prod.mk.injEq] at h
  obtain ⟨supply, hsupply, votes, hvotes, threshold, -, _, htxs, _, -, ds₁, hcreate, q, hq, rfl,
    rfl⟩ := h
  obtain ⟨ub, hub, rfl⟩ := createNewProposal_ok hcreate
  have hparams := minQuorumVotes_ok hq
  refine ⟨rfl, _, q, ?_, votesBeforeNow_pos hvotes, ?_, hsupply, ?_, ⟨rfl, rfl, rfl, rfl, ?_⟩⟩
  · rw [hslot]
    rfl
  · refine ⟨⟨_, _, _, _, _, _, _, _, _, rfl⟩, htxs, hub, ?_, ?_, hparams⟩
    · exact Nat.le_add_right _ _
    · exact Nat.le_add_right _ _
  · exact (minQuorumVotes_congr rfl rfl _ _).symm.trans hq
  · simp only [emitNewPropEvents, setProposal, Function.update_self, hslot]
    rfl

theorem proposeOnTimelockV1_creates {txs : ProposalTxs} {description : String} {id : Nat}
    (hslot : ds.proposals (ds.proposalCount + 1) = Proposal.empty)
    (h : ds.proposeOnTimelockV1 env sender txs description = .ok (ds', id)) :
    ∃ p q, Creates env ds ds' p q description := by
  simp only [proposeOnTimelockV1, bind_eq_ok, pure_eq_ok, Prod.mk.injEq] at h
  obtain ⟨⟨ds₁, id₁⟩, h₁, rfl, rfl⟩ := h
  obtain ⟨rfl, p, q, hflag, hcreates⟩ := propose_creates hslot h₁
  obtain ⟨hblock, ⟨⟨_, _, _, _, _, _, _, _, _, hp⟩, htxs, hub, hle₁, hle₂, hparams⟩, hsupply, hq,
    hproposals, hcount, hquorum, hswitch, hlog⟩ := hcreates
  have hnew : ds₁.proposals (ds.proposalCount + 1) = p := by rw [hproposals, Function.update_self]
  have hid : p.id = ds.proposalCount + 1 := by rw [hp]
  rw [hnew]
  refine ⟨{ p with executeOnTimelockV1 := true }, q, hblock, ?_, hsupply, hq, ?_, hcount, hquorum,
    hswitch, ?_⟩
  · refine ⟨?_, htxs, hub, hle₁, hle₂, hparams⟩
    subst hp
    exact ⟨_, _, _, _, _, _, _, _, true, rfl⟩
  · simp only [emit, setProposal, hproposals, Function.update_idem]
  · simp only [emit, setProposal, hlog, creationEvents, hflag, hid]
    rfl

/-- Checking the signers logs nothing. -/
theorem verifySigners_aside {signatures : List ProposerSignature} {txs : ProposalTxs}
    {description : String} {id votes : Nat} {signers : List Address}
    (h : ds.verifySignersCanBackThisProposalAndCountTheirVotes env sender signatures txs description
      id = .ok (ds', votes, signers)) :
    (∃ latestProposalIds, ds' = { ds with latestProposalIds }) ∧ 0 < env.blockNumber := by
  simp only [verifySignersCanBackThisProposalAndCountTheirVotes, bind_eq_ok, pure_eq_ok,
    Prod.mk.injEq] at h
  obtain ⟨⟨ds₁, votes₁, signers₁⟩, hloop, _, -, _, hvotes, rfl, -, -⟩ := h
  have hsame : ∃ latestProposalIds, ds₁ = { ds with latestProposalIds } := by
    refine foldlM_ok (P := fun s => ∃ latestProposalIds, s.1 = { ds with latestProposalIds })
      hloop ⟨_, rfl⟩ ?_
    rintro s - ⟨ds₂, votes₂, signers₂⟩ ⟨ds₃, votes₃, signers₃⟩ ⟨latestProposalIds, rfl⟩ hs
    simp only [bind_eq_ok] at hs
    obtain ⟨_, -, _, -, votes, -, hs⟩ := hs
    split at hs
    · simp only [pure_eq_ok, Prod.mk.injEq] at hs
      obtain ⟨rfl, -, -⟩ := hs
      exact ⟨_, rfl⟩
    · simp only [pure_eq_ok, Prod.mk.injEq] at hs
      obtain ⟨rfl, -, -⟩ := hs
      exact ⟨_, rfl⟩
  obtain ⟨latestProposalIds, rfl⟩ := hsame
  exact ⟨⟨_, rfl⟩, votesBeforeNow_pos hvotes⟩

theorem proposeBySigs_creates {signatures : List ProposerSignature} {txs : ProposalTxs}
    {description : String} {id : Nat}
    (hslot : ds.proposals (ds.proposalCount + 1) = Proposal.empty)
    (h : ds.proposeBySigs env sender signatures txs description = .ok (ds', id)) :
    ∃ p q, Creates env ds ds' p q description := by
  simp only [proposeBySigs, bind_eq_ok, pure_eq_ok, Prod.mk.injEq] at h
  obtain ⟨_, -, _, htxs, supply, hsupply, ds₁, hcreate, ⟨ds₂, votes, signers⟩, hverify, _, -, _, -,
    q, hq, rfl, rfl⟩ := h
  obtain ⟨ub, hub, rfl⟩ := createNewProposal_ok hcreate
  obtain ⟨⟨latestProposalIds, rfl⟩, hblock⟩ := verifySigners_aside hverify
  have hparams := minQuorumVotes_ok hq
  refine ⟨{ ds.proposals (ds.proposalCount + 1) with
    id := ds.proposalCount + 1
    proposer := sender
    proposalThreshold := ds.proposalThreshold supply
    toProposalTxs := txs
    startBlock := ub + ds.votingDelay
    endBlock := ub + ds.votingDelay + ds.votingPeriod
    totalSupply := supply
    creationBlock := env.blockNumber
    updatePeriodEndBlock := ub
    signers }, q, hblock, ?_, hsupply, ?_, ⟨?_, rfl, rfl, rfl, ?_⟩⟩
  · refine ⟨⟨_, _, _, _, _, _, _, _, _, rfl⟩, htxs, hub, ?_, ?_, hparams⟩
    · exact Nat.le_add_right _ _
    · exact Nat.le_add_right _ _
  · exact (minQuorumVotes_congr rfl rfl _ _).symm.trans hq
  · simp only [emitNewPropEvents, emit, setProposal, Function.update_self, Function.update_idem]
    rfl
  · simp only [emitNewPropEvents, setProposal, Function.update_self, hslot]
    rfl

/-! ## Updates and votes -/

variable {id : Nat}

/-- A call that updates proposal `id`. -/
def Revises (env : Env H) (ds ds' : StorageV3 H) (id : Nat) : Prop :=
  ∃ txs e, ds.stateInternal env.toClock id = .ok .Updatable ∧ Updates ds id txs e ∧
    Logged ds ds' (Function.update ds.proposals id { ds.proposals id with toProposalTxs := txs })
      ds.proposalCount [e]

theorem updateProposal_logged {txs : ProposalTxs} {description message : String}
    (h : ds.updateProposal env sender id txs description message = .ok ds') : Revises env ds ds' id := by
  simp only [updateProposal, updateProposalTransactionsInternal, bind_eq_ok, pure_eq_ok] at h
  obtain ⟨_, ⟨_, -, _, hup, rfl⟩, rfl⟩ := h
  exact ⟨txs, _, checkProposalUpdatable_ok hup, .both sender description message, rfl, rfl, rfl, rfl,
    rfl⟩

theorem updateProposalTransactions_logged {txs : ProposalTxs} {message : String}
    (h : ds.updateProposalTransactions env sender id txs message = .ok ds') :
    Revises env ds ds' id := by
  simp only [updateProposalTransactions, updateProposalTransactionsInternal, bind_eq_ok,
    pure_eq_ok] at h
  obtain ⟨_, ⟨_, -, _, hup, rfl⟩, rfl⟩ := h
  exact ⟨txs, _, checkProposalUpdatable_ok hup, .transactions sender message, rfl, rfl, rfl, rfl, rfl⟩

theorem updateProposalDescription_logged {description message : String}
    (h : ds.updateProposalDescription env sender id description message = .ok ds') :
    Revises env ds ds' id := by
  simp only [updateProposalDescription, bind_eq_ok, pure_eq_ok] at h
  obtain ⟨_, hup, rfl⟩ := h
  refine ⟨_, _, checkProposalUpdatable_ok hup, .description sender description message rfl, ?_, rfl,
    rfl, rfl, rfl⟩
  exact (Function.update_eq_self id ds.proposals).symm

theorem updateProposalBySigs_logged {signatures : List ProposerSignature} {txs : ProposalTxs}
    {description message : String}
    (h : ds.updateProposalBySigs env sender id signatures txs description message = .ok ds') :
    Revises env ds ds' id := by
  simp only [updateProposalBySigs, bind_eq_ok, revertIf_eq_ok, ne_eq, Decidable.not_not,
    pure_eq_ok] at h
  obtain ⟨_, -, _, -, _, hstate, _, rfl, _, -, _, -, _, -, rfl⟩ := h
  exact ⟨txs, _, hstate, .both sender description message, rfl, rfl, rfl, rfl, rfl⟩

theorem triggerObjection_logged {flipped : Bool} (h : ds.triggerObjection id flipped = .ok ds') :
    ∃ o objection, Objection (ds.proposals id) o objection ∧
      Logged ds ds' (Function.update ds.proposals id
        { ds.proposals id with objectionPeriodEndBlock := o }) ds.proposalCount objection := by
  have hsame : ds = ds' → ∃ o objection, Objection (ds.proposals id) o objection ∧
      Logged ds ds' (Function.update ds.proposals id
        { ds.proposals id with objectionPeriodEndBlock := o }) ds.proposalCount objection := by
    rintro rfl
    exact ⟨_, _, .none, (Function.update_eq_self id ds.proposals).symm, rfl, rfl, rfl, rfl⟩
  simp only [triggerObjection] at h
  split at h
  · rw [bind_eq_ok] at h
    obtain ⟨defeated, -, h⟩ := h
    split at h
    · simp only [toUint64, bind_eq_ok, require_eq_ok, pure_eq_ok] at h
      obtain ⟨_, ⟨_, -, rfl⟩, rfl⟩ := h
      exact ⟨_, _, .opened _, rfl, rfl, rfl, rfl, rfl⟩
    · exact hsame (pure_eq_ok.mp h)
  · exact hsame (pure_eq_ok.mp h)

/-- A vote, but for its own event. -/
structure Votes (env : Env H) (ds ds' : StorageV3 H) (id : Nat) (voter : Address)
    (support votes o : Nat) (events : List DAOEvent) : Prop where
  state : ds.stateInternal env.toClock id = .ok .Active ∨
    ds.stateInternal env.toClock id = .ok .ObjectionPeriod
  support_le : support ≤ 2
  objection : Objection (ds.proposals id) o events
  logged : Logged ds ds' (Function.update ds.proposals id
    { setReceipt (countVotes (ds.proposals id) support votes) voter ⟨true, support, votes⟩ with
      objectionPeriodEndBlock := o }) ds.proposalCount events

theorem castVoteInternal_logged {voter : Address} {support votes : Nat}
    (h : ds.castVoteInternal env voter id support = .ok (ds', votes)) :
    ∃ o objection, Votes env ds ds' id voter support votes o objection := by
  simp only [castVoteInternal, bind_eq_ok] at h
  obtain ⟨s, hs, h⟩ := h
  split at h
  · rename_i hactive
    simp only [castVoteDuringVotingPeriodInternal, bind_eq_ok, require_eq_ok, pure_eq_ok,
      Prod.mk.injEq] at h
    obtain ⟨_, hsupport, _, -, votes, -, _, -, _, -, ds₁, htrigger, rfl, rfl⟩ := h
    obtain ⟨o, objection, hobjection, hproposals, hcount, hquorum, hswitch, hlog⟩ :=
      triggerObjection_logged htrigger
    have hterms : ((ds.setProposal id (countVotes (ds.proposals id) support votes)).proposals id) =
        countVotes (ds.proposals id) support votes := Function.update_self ..
    have hopen : Objection (ds.proposals id) o objection := by
      rw [hterms, countVotes_eq _ hsupport] at hobjection
      cases hobjection with
      | none => exact .none
      | opened o => exact .opened o
    refine ⟨o, objection, .inl (hactive ▸ hs), hsupport, hopen, ?_, hcount, hquorum, hswitch, hlog⟩
    simp only [setProposal] at hproposals ⊢
    rw [hproposals]
    simp only [Function.update_self, Function.update_idem]
    rfl
  · split at h
    · rename_i hobjection
      simp only [castObjectionInternal, bind_eq_ok, revertIf_eq_ok, require_eq_ok, pure_eq_ok,
        Prod.mk.injEq, ne_eq, Decidable.not_not] at h
      obtain ⟨_, rfl, _, -, votes, -, rfl, rfl⟩ := h
      exact ⟨_, [], .inr (hobjection ▸ hs), Nat.zero_le 2, .none, rfl, rfl, rfl, rfl, rfl⟩
    · simp at h

/-! ## Queue, cancel and veto -/

theorem eta_ne_zero (timestamp : Nat) (delay : Delay) : timestamp + delay ≠ 0 := by
  have hdelay : 0 < (delay : Nat) := Nat.lt_of_lt_of_le (by decide) delay.2.1
  omega

variable [DecidableEq H] {e e' : Executor H}

theorem queue_logged (h : ds.queue env e id = .ok (ds', e')) :
    Logged ds ds' (Function.update ds.proposals id
      { ds.proposals id with eta := env.timestamp + e.delay }) ds.proposalCount
      [.ProposalQueued id (env.timestamp + e.delay)] := by
  simp only [queue, bind_eq_ok, pure_eq_ok, Prod.mk.injEq] at h
  obtain ⟨_, -, _, -, e₁, -, rfl, rfl⟩ := h
  exact ⟨rfl, rfl, rfl, rfl, rfl⟩

theorem cancel_logged (h : ds.cancel env e sender id = .ok (ds', e')) :
    Logged ds ds' (Function.update ds.proposals id { ds.proposals id with canceled := true })
      ds.proposalCount [.ProposalCanceled id] := by
  simp only [cancel, bind_eq_ok, pure_eq_ok, Prod.mk.injEq] at h
  obtain ⟨_, -, _, -, _, -, _, -, _, -, e₁, -, rfl, rfl⟩ := h
  exact ⟨rfl, rfl, rfl, rfl, rfl⟩

theorem veto_logged (h : ds.veto env e sender id = .ok (ds', e')) :
    Logged ds ds' (Function.update ds.proposals id { ds.proposals id with vetoed := true })
      ds.proposalCount [.ProposalVetoed id] := by
  simp only [veto, bind_eq_ok, pure_eq_ok, Prod.mk.injEq] at h
  obtain ⟨_, -, _, -, _, -, _, -, e₁, -, rfl, rfl⟩ := h
  exact ⟨rfl, rfl, rfl, rfl, rfl⟩

end Proposing

end StorageV3

/-! ## Steps -/

namespace World

open StorageV3

variable {d : Deployment H} {w w' : World H}

theorem refundGas_aside {tx : TxContext} (h : w.refundGas d tx = .ok w') : w.dao.Aside w'.dao := by
  simp only [refundGas] at h
  split at h
  · rw [← pure_eq_ok.mp h]
    exact .refl _
  · split at h
    · simp only [bind_eq_ok, pure_eq_ok] at h
      obtain ⟨w₁, hsend, rfl⟩ := h
      have hdao := sendValue_dao hsend
      rw [callOut, hdao]
      exact .refl _
    · rw [← pure_eq_ok.mp h]
      exact .emit _ rfl

theorem withdraw_aside {tx : TxContext} {sender : Address} (h : w.withdraw d tx sender = .ok w') :
    w.dao.Aside w'.dao := by
  simp only [withdraw, bind_eq_ok] at h
  obtain ⟨_, -, h⟩ := h
  split at h
  · simp only [bind_eq_ok, pure_eq_ok] at h
    obtain ⟨w₁, hsend, rfl⟩ := h
    have hdao := sendValue_dao hsend
    rw [callOut, hdao]
    exact .refl _
  · rw [← pure_eq_ok.mp h]
    exact .emit _ rfl

theorem sendProRataTreasury_dao {payout : Payout} (h : w.sendProRataTreasury d payout = .ok w') :
    w'.dao = w.dao := by
  simp only [sendProRataTreasury, bind_eq_ok, pure_eq_ok] at h
  obtain ⟨_, -, _, -, w₁, hsend, rfl⟩ := h
  have hdao := sendValue_dao hsend
  exact hdao

theorem withdrawDAONounsFromEscrow_aside {sender to_ : Address} {tokenIds : List Nat}
    (h : w.withdrawDAONounsFromEscrow d sender tokenIds to_ = .ok w') : w.dao.Aside w'.dao := by
  simp only [withdrawDAONounsFromEscrow, bind_eq_ok, pure_eq_ok] at h
  obtain ⟨_, -, nouns, -, rfl⟩ := h
  exact .emit _ rfl

theorem withdrawDAONounsFromEscrow_executing {sender to_ : Address} {tokenIds : List Nat}
    (h : w.withdrawDAONounsFromEscrow d sender tokenIds to_ = .ok w') :
    w'.gov.executing = w.gov.executing := by
  simp only [withdrawDAONounsFromEscrow, bind_eq_ok, pure_eq_ok] at h
  obtain ⟨_, -, nouns, -, rfl⟩ := h
  rfl

theorem payERC20_executing {payout : Payout} {erc20Count remaining : Nat}
    (h : w.payERC20 d payout erc20Count remaining = .ok w') :
    w'.gov.executing = w.gov.executing := by
  induction remaining with
  | zero =>
    simp only [payERC20, endPayout] at h
    split at h
    · rw [← pure_eq_ok.mp h]
      rfl
    · simp only [joinForkTransfers, bind_eq_ok, pure_eq_ok] at h
      obtain ⟨nouns, -, rfl⟩ := h
      rw [callOut_gov rfl]
      rfl
  | succ remaining ih =>
    simp only [payERC20] at h
    split at h
    · simp at h
    · split at h
      · simp only [bind_eq_ok, pure_eq_ok] at h
        obtain ⟨_, -, w₁, hsend, rfl⟩ := h
        rw [callOut_gov rfl, sendToken_gov hsend]
      · exact ih h

theorem payERC20_aside {payout : Payout} {erc20Count remaining : Nat}
    (h : w.payERC20 d payout erc20Count remaining = .ok w') : w.dao.Aside w'.dao := by
  induction remaining with
  | zero =>
    simp only [payERC20, endPayout] at h
    split at h
    · rw [← pure_eq_ok.mp h]
      exact .of_log rfl rfl rfl rfl rfl rfl
    · simp only [joinForkTransfers, bind_eq_ok, pure_eq_ok] at h
      obtain ⟨nouns, -, rfl⟩ := h
      exact .refl _
  | succ remaining ih =>
    simp only [payERC20] at h
    split at h
    · simp at h
    · split at h
      · simp only [bind_eq_ok, pure_eq_ok] at h
        obtain ⟨_, -, w₁, hsend, rfl⟩ := h
        have hdao := sendToken_dao hsend
        rw [callOut, hdao]
        exact .refl _
      · exact ih h

/-- A proposal that was executed is in no other state while it is alive. -/
theorem not_executed {id : Nat} {s : ProposalState} (hwf : w.gov.Wf) (hwon : w.gov.Won)
    (h : w.dao.stateInternal (w.env d).toClock id = .ok s) (hs : s ≠ .Executed)
    (halive : (w.dao.proposals id).Alive) : (w.dao.proposals id).executed = false := by
  by_contra hexecuted
  have hexecuted := Bool.eq_true_of_not_eq_false hexecuted
  have heta : (w.gov.store.proposals id).eta ≠ 0 := (hwf.timeline id).executed hexecuted
  obtain ⟨b, hb, hin⟩ := hwf.isIn h
  rw [hwon id heta] at hb
  cases hb
  exact hs (hin.unique (.executed halive (hwf.closed_of_eta heta) rfl heta hexecuted))

section Steps

variable [DecidableEq H] {env : Env H}

theorem steps_of_aside (hdao : w.dao.Aside w'.dao) (hexec : w'.gov.executing = w.gov.executing) :
    Course.Steps env w.course w'.course := by
  have hcourse : w'.course = ⟨w'.dao, w.course.executing⟩ := by simp only [course, hexec]
  rw [hcourse]
  exact .single (.aside w'.dao hdao)

/-- The action goes on, or the execution ends and logs its event. -/
theorem executeFrom_steps {id i : Nat} {timelock : Address}
    (h : w.executeFrom d id timelock i = .ok w') :
    Course.Steps env ⟨w.dao, id :: w.course.executing⟩ w'.course := by
  simp only [executeFrom] at h
  split at h
  · simp only [bind_eq_ok, pure_eq_ok] at h
    obtain ⟨tx, -, e, -, w₁, hsend, rfl⟩ := h
    have hdao : w₁.dao = w.dao := sendValue_dao (w := w.setExecutor timelock e) hsend
    have hframes : w₁.frames = w.frames := (sendValue_gov (w := w.setExecutor timelock e) hsend).2
    have hcourse : ({ w₁ with frames := ⟨tx.target, if d.isContract tx.target then some timelock
        else none, .executeInternal id timelock i tx⟩ :: w₁.frames } : World H).course =
        ⟨w.dao, id :: w.course.executing⟩ := by
      simp only [course, gov, hdao, hframes]
      rfl
    rw [hcourse]
  · rw [← pure_eq_ok.mp h]
    exact .single (.finish _ id _ rfl ⟨rfl, rfl, rfl, rfl, rfl⟩)

theorem executeInternal_steps {id : Nat} {timelock : Address} (hwf : w.gov.Wf)
    (h : w.executeInternal d id timelock = .ok w') :
    Course.Steps (w.env d) w.course w'.course := by
  simp only [executeInternal, bind_eq_ok, require_eq_ok] at h
  obtain ⟨_, hstate, _, rfl, _, -, h⟩ := h
  have hid : (w.dao.proposals id).id = id := (hwf.executable hstate).2
  have hqueued : w.dao.stateInternal (w.env d).toClock id = .ok .Queued :=
    (congrArg (w.dao.stateInternal (w.env d).toClock) hid).symm.trans hstate
  have hpos : 0 < id := by
    refine Nat.pos_of_ne_zero ?_
    rintro rfl
    obtain ⟨b, hb, hin⟩ := hwf.isIn hqueued
    rw [hwf.defeated_zero] at hb
    cases hb
    cases hin with
    | queued _ _ hd _ _ _ => cases hd
  have hbegin : Course.Step (w.env d) w.course
      ⟨w.dao.setProposal id { w.dao.proposals id with executed := true },
        id :: w.course.executing⟩ :=
    .begin_ _ id hpos hid hqueued ⟨rfl, rfl, rfl, rfl, rfl⟩
  exact .head hbegin (executeFrom_steps h)

theorem steps_of_creates {ds : StorageV3 H} {p : Proposal} {minQuorumVotes : Nat}
    {description : String}
    (hslot : w.dao.proposals (w.dao.proposalCount + 1) = Proposal.empty) (h : Creates (w.env d) w.dao ds p minQuorumVotes description) :
    Course.Steps (w.env d) w.course ({ w with dao := ds } : World H).course :=
  .single (.create ds p minQuorumVotes description h.block_pos hslot h.created h.supply h.quorum h.logged)

theorem steps_of_revises {ds : StorageV3 H} {id : Nat} (h : Revises (w.env d) w.dao ds id) :
    Course.Steps (w.env d) w.course ({ w with dao := ds } : World H).course := by
  obtain ⟨txs, e, hstate, he, hlogged⟩ := h
  exact .single (.update ds id txs e hstate he hlogged)

theorem steps_of_vote {ds : StorageV3 H} {voter : Address} {id support votes : Nat} (reason : String)
    (h : w.dao.castVoteInternal (w.env d) voter id support = .ok (ds, votes)) :
    Course.Steps (w.env d) w.course
      ({ w with dao := ds.emit (.VoteCast voter id support votes reason) } : World H).course := by
  obtain ⟨o, events, hstate, hsupport, hobjection, hlogged⟩ := castVoteInternal_logged h
  exact .single (.vote _ id voter support votes reason o events hstate hsupport hobjection
    (hlogged.emit _))

theorem castVoteWithReason_steps {ds : StorageV3 H} {voter : Address} {id support : Nat}
    {reason : String}
    (h : w.dao.castVoteWithReason (w.env d) voter id support reason = .ok ds) :
    Course.Steps (w.env d) w.course ({ w with dao := ds } : World H).course := by
  simp only [castVoteWithReason, bind_eq_ok, pure_eq_ok] at h
  obtain ⟨⟨ds₁, votes⟩, hcast, rfl⟩ := h
  exact steps_of_vote reason hcast

theorem castRefundableVoteInternal_steps {tx : TxContext} {sender : Address} {id support : Nat}
    {reason : String} (h : w.castRefundableVoteInternal d tx sender id support reason = .ok w') :
    Course.Steps (w.env d) w.course w'.course := by
  simp only [castRefundableVoteInternal, bind_eq_ok] at h
  obtain ⟨⟨ds, votes⟩, hcast, h⟩ := h
  have hvote := steps_of_vote reason hcast
  split at h
  · have hexec := congrArg Gov.executing (refundGas_gov h)
    exact hvote.trans (steps_of_aside (refundGas_aside h) hexec)
  · rw [← pure_eq_ok.mp h]
    exact hvote

/-- A call of the DAO. -/
theorem callDAO_steps {tx : TxContext} {sender : Account} {call : DAOCall} (hwf : w.gov.Wf)
    (hwon : w.gov.Won) (h : w.callDAO d tx sender call = .ok w') : Course.Steps (w.env d) w.course w'.course := by
  have hslot : w.dao.proposals (w.dao.proposalCount + 1) = Proposal.empty :=
    hwf.fresh _ (Nat.lt_succ_self _)
  cases call with
  | propose txs description =>
    obtain ⟨ds, hds, rfl⟩ := withStorage_ok h
    obtain ⟨⟨ds₁, id⟩, hpropose, rfl⟩ := map_eq_ok.mp hds
    obtain ⟨-, p, q, -, hcreates⟩ := propose_creates hslot hpropose
    exact steps_of_creates hslot hcreates
  | proposeOnTimelockV1 txs description =>
    obtain ⟨ds, hds, rfl⟩ := withStorage_ok h
    obtain ⟨⟨ds₁, id⟩, hpropose, rfl⟩ := map_eq_ok.mp hds
    obtain ⟨p, q, hcreates⟩ := proposeOnTimelockV1_creates hslot hpropose
    exact steps_of_creates hslot hcreates
  | proposeBySigs signatures txs description =>
    obtain ⟨ds, hds, rfl⟩ := withStorage_ok h
    obtain ⟨⟨ds₁, id⟩, hpropose, rfl⟩ := map_eq_ok.mp hds
    obtain ⟨p, q, hcreates⟩ := proposeBySigs_creates hslot hpropose
    exact steps_of_creates hslot hcreates
  | cancelSig sig =>
    rw [← pure_eq_ok.mp h]
    exact steps_of_aside (.of_log rfl rfl rfl rfl rfl rfl) rfl
  | updateProposal id txs description message =>
    obtain ⟨ds, hds, rfl⟩ := withStorage_ok h
    exact steps_of_revises (updateProposal_logged hds)
  | updateProposalTransactions id txs message =>
    obtain ⟨ds, hds, rfl⟩ := withStorage_ok h
    exact steps_of_revises (updateProposalTransactions_logged hds)
  | updateProposalDescription id description message =>
    obtain ⟨ds, hds, rfl⟩ := withStorage_ok h
    exact steps_of_revises (updateProposalDescription_logged hds)
  | updateProposalBySigs id signatures txs description message =>
    obtain ⟨ds, hds, rfl⟩ := withStorage_ok h
    exact steps_of_revises (updateProposalBySigs_logged hds)
  | queue id =>
    simp only [callDAO] at h
    obtain ⟨ds, e, hqueue, rfl⟩ := withTimelock_ok h
    obtain ⟨hstate, -, -⟩ := queue_ok hqueue
    have heta := eta_ne_zero (w.env d).timestamp (w.executors (w.gov.ownTimelock id)).delay
    exact .single (.queue ds id _ hstate heta (queue_logged hqueue))
  | execute id => exact executeInternal_steps hwf h
  | executeOnTimelockV1 id => exact executeInternal_steps hwf h
  | cancel id =>
    simp only [callDAO] at h
    obtain ⟨ds, e, hcancel, rfl⟩ := withTimelock_ok h
    obtain ⟨s, hstate, hs, -, -⟩ := cancel_ok hcancel
    exact .single (.cancel ds id s hstate hs (not_executed hwf hwon hstate hs.2.2.2.1)
      (cancel_logged hcancel))
  | veto id =>
    simp only [callDAO] at h
    obtain ⟨ds, e, hveto, rfl⟩ := withTimelock_ok h
    obtain ⟨s, hstate, hs, -, -⟩ := veto_ok hveto
    exact .single (.veto ds id s hstate hs (not_executed hwf hwon hstate hs) (veto_logged hveto))
  | castVote id support =>
    obtain ⟨ds, hds, rfl⟩ := withStorage_ok h
    exact castVoteWithReason_steps hds
  | castVoteWithReason id support reason =>
    obtain ⟨ds, hds, rfl⟩ := withStorage_ok h
    exact castVoteWithReason_steps hds
  | castVoteBySig id support sig =>
    obtain ⟨ds, hds, rfl⟩ := withStorage_ok h
    simp only [castVoteBySig, bind_eq_ok] at hds
    obtain ⟨_, -, hds⟩ := hds
    exact castVoteWithReason_steps hds
  | castRefundableVote id support => exact castRefundableVoteInternal_steps h
  | castRefundableVoteWithReason id support reason => exact castRefundableVoteInternal_steps h
  | admin call =>
    obtain ⟨ds, hds, rfl⟩ := withStorage_ok h
    exact steps_of_aside (adminCall_aside hds) rfl
  | quorum call =>
    obtain ⟨ds, hds, rfl⟩ := withStorage_ok h
    obtain ⟨params, hparams, hstore, hlog⟩ := quorumCall_logged hds
    exact .single (.quorum ds call params hparams hstore hlog)
  | setVoteSnapshotBlockSwitchProposalId =>
    obtain ⟨ds, hds, rfl⟩ := withStorage_ok h
    obtain ⟨hzero, hstore, -⟩ := setVoteSnapshotBlockSwitchProposalId_ok hds
    exact .single (.switch ds hzero hstore (setVoteSnapshotBlockSwitchProposalId_logged hds))
  | withdraw => exact steps_of_aside (withdraw_aside h) (congrArg Gov.executing (withdraw_gov h))
  | escrowToFork tokenIds proposalIds reason =>
    simp only [callDAO, escrowToFork, bind_eq_ok, pure_eq_ok] at h
    obtain ⟨_, -, ⟨nouns, escrow⟩, -, rfl⟩ := h
    exact steps_of_aside (.emit _ rfl) rfl
  | withdrawFromForkEscrow tokenIds =>
    simp only [callDAO, withdrawFromForkEscrow, bind_eq_ok, pure_eq_ok] at h
    obtain ⟨_, -, ⟨escrow, nouns⟩, -, rfl⟩ := h
    exact steps_of_aside (.emit _ rfl) rfl
  | executeFork =>
    have hgov := executeFork_gov h
    simp only [callDAO, executeFork, bind_eq_ok, pure_eq_ok] at h
    obtain ⟨_, -, _, -, _, -, rfl⟩ := h
    exact steps_of_aside (.refl _) (congrArg Gov.executing hgov)
  | joinFork tokenIds proposalIds reason =>
    have hgov := joinFork_gov h
    simp only [callDAO, joinFork, bind_eq_ok] at h
    obtain ⟨_, -, supply, -, h⟩ := h
    have hdao := sendProRataTreasury_dao h
    exact steps_of_aside (hdao ▸ .refl _) (congrArg Gov.executing hgov)
  | withdrawDAONounsFromEscrowToTreasury tokenIds =>
    exact steps_of_aside (withdrawDAONounsFromEscrow_aside h)
      (withdrawDAONounsFromEscrow_executing h)
  | withdrawDAONounsFromEscrowIncreasingTotalSupply tokenIds to_ =>
    simp only [callDAO, withdrawDAONounsFromEscrowIncreasingTotalSupply, bind_eq_ok,
      pure_eq_ok] at h
    obtain ⟨_, -, w₁, hw₁, rfl⟩ := h
    have hexec := withdrawDAONounsFromEscrow_executing hw₁
    exact steps_of_aside ((withdrawDAONounsFromEscrow_aside hw₁).trans (.emit _ rfl)) hexec

theorem resume_steps {forkTreasury forkToken : Address} {f : Frame} {frames : List Frame}
    (hframes : w.frames = f :: frames)
    (h : ({ w with frames } : World H).resume d forkTreasury forkToken f.continuation = .ok w') :
    Course.Steps (w.env d) w.course w'.course := by
  obtain ⟨callee, caller, k⟩ := f
  -- All frames but those of executions are popped unseen.
  have hpop : Frame.execution? ⟨callee, caller, k⟩ = none →
      ({ w with frames } : World H).gov.executing = w.gov.executing := by
    intro hnone
    simp only [gov, hframes, List.filterMap_cons_none hnone]
  cases k with
  | executeInternal proposalId timelock i tx =>
    have hcourse : w.course =
        ⟨w.dao, proposalId :: ({ w with frames } : World H).course.executing⟩ := by
      simp only [course, gov, hframes]
      rfl
    rw [hcourse]
    exact executeFrom_steps h
  | refundGas origin amount =>
    rw [← pure_eq_ok.mp h]
    exact steps_of_aside (.emit _ rfl) (hpop rfl)
  | withdraw amount =>
    rw [← pure_eq_ok.mp h]
    exact steps_of_aside (.emit _ rfl) (hpop rfl)
  | deployForkDAO fork =>
    simp only [resume, bind_eq_ok] at h
    obtain ⟨supply, -, h⟩ := h
    have hdao : w'.dao = w.dao := sendProRataTreasury_dao (w := { w with frames }) h
    have hexec := (congrArg Gov.executing (sendProRataTreasury_gov h)).trans (hpop rfl)
    exact steps_of_aside (hdao ▸ .refl _) hexec
  | sendETH payout amount =>
    have haside := payERC20_aside (w := ({ w with frames } : World H).setExecutor payout.timelock _) h
    have hexec := payERC20_executing
      (w := ({ w with frames } : World H).setExecutor payout.timelock _) h
    exact steps_of_aside haside (hexec.trans (hpop rfl))
  | sendERC20 payout erc20Count remaining erc20token amount =>
    have haside := payERC20_aside (w := ({ w with frames } : World H).setExecutor payout.timelock _) h
    have hexec := payERC20_executing
      (w := ({ w with frames } : World H).setExecutor payout.timelock _) h
    exact steps_of_aside haside (hexec.trans (hpop rfl))
  | claimDuringForkPeriod join =>
    simp only [resume, bind_eq_ok, pure_eq_ok] at h
    obtain ⟨_, -, rfl⟩ := h
    exact steps_of_aside (.emit _ rfl) (hpop rfl)

/-- Every step of the contracts is made of these changes. -/
theorem course_step {a : Action} (hwf : w.gov.Wf) (hwon : w.gov.Won) (h : w.step d a = .ok w') :
    Course.Steps (w.env d) w.course w'.course := by
  cases a with
  | advance blockNumber timestamp =>
    simp only [step, bind_eq_ok, pure_eq_ok] at h
    obtain ⟨_, -, rfl⟩ := h
    exact .refl
  | callDAO tx sender call =>
    simp only [step, bind_eq_ok] at h
    obtain ⟨w₁, henter, h⟩ := h
    obtain ⟨frames, rfl, hgov⟩ := enter_ok henter
    have hcourse : ({ w with frames } : World H).course = w.course := by
      simp only [course, hgov]
    rw [← hcourse]
    exact callDAO_steps (w := { w with frames }) (hgov ▸ hwf) (hgov ▸ hwon) h
  | callToken sender call =>
    simp only [step, callToken, bind_eq_ok, pure_eq_ok] at h
    obtain ⟨w₁, henter, nouns, -, rfl⟩ := h
    obtain ⟨frames, rfl, hgov⟩ := enter_ok henter
    have hexec := congrArg Gov.executing hgov
    exact steps_of_aside (.refl _) hexec
  | callExecutor a sender call =>
    simp only [step, callExecutor, bind_eq_ok, pure_eq_ok] at h
    obtain ⟨w₁, henter, e, -, rfl⟩ := h
    obtain ⟨frames, rfl, hgov⟩ := enter_ok henter
    have hexec := congrArg Gov.executing hgov
    exact steps_of_aside (.refl _) hexec
  | return_ forkTreasury forkToken =>
    simp only [step] at h
    split at h
    · simp at h
    · rename_i f frames hframes
      exact resume_steps hframes h

theorem Next.course {admits : World H → Action → Prop} (hwf : w.gov.Wf) (hwon : w.gov.Won)
    (h : Next d admits w w') :
    Course.Steps (w.env d) w.course w'.course := by
  cases h with
  | step a _ hstep => exact course_step hwf hwon hstep
  | outside hout =>
    obtain ⟨⟨eth, erc20, outside, rfl⟩, -, -⟩ := hout
    exact .refl

end Steps

end World

end Nouns
