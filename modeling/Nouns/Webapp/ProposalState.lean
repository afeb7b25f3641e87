import Nouns.Subgraph.Proposals

/-!
# ProposalState — the state of a proposal that the webapp shows

`wrappers/nounsDao.ts`.  The webapp derives it from the entity, the block and the time, in other
branches than the contract.  A `BigInt` that is parsed and a `number` are natural numbers, a `Date` the
seconds it stands for.
-/

open EntityStore EntityStore.Table Fallible Relation Transition

namespace Nouns.Webapp

open Subgraph (ProposalStatus)

/-! ## The source -/

inductive ProposalState
  | UNDETERMINED | PENDING | ACTIVE | CANCELLED | DEFEATED | SUCCEEDED | QUEUED | EXPIRED | EXECUTED
  | VETOED | OBJECTION_PERIOD | UPDATABLE
deriving DecidableEq, Repr

/-- The number that the enumeration gives a state. -/
def ProposalState.value : ProposalState → Int
  | UNDETERMINED => -1
  | PENDING => 0
  | ACTIVE => 1
  | CANCELLED => 2
  | DEFEATED => 3
  | SUCCEEDED => 4
  | QUEUED => 5
  | EXPIRED => 6
  | EXECUTED => 7
  | VETOED => 8
  | OBJECTION_PERIOD => 9
  | UPDATABLE => 10

/-- `ProposalState[proposal.status]`. -/
def ProposalState.ofStatus : ProposalStatus → ProposalState
  | .PENDING => PENDING
  | .ACTIVE => ACTIVE
  | .CANCELLED => CANCELLED
  | .VETOED => VETOED
  | .QUEUED => QUEUED
  | .EXECUTED => EXECUTED

/-- Block 0 is taken for a block that is not known. -/
def getProposalState (blockNumber blockTimestamp : Option Nat) (proposal : Subgraph.Proposal)
    (isDaoGteV3 onTimelockV1 : Bool) : ProposalState :=
  let status := ProposalState.ofStatus proposal.status
  if status = .PENDING ∨ status = .ACTIVE then
    let blockNumber := blockNumber.getD 0
    if blockNumber = 0 then .UNDETERMINED
    else if isDaoGteV3 ∧ blockNumber ≤ proposal.updatePeriodEndBlock then .UPDATABLE
    else if blockNumber ≤ proposal.startBlock then .PENDING
    else if isDaoGteV3 ∧ blockNumber > proposal.endBlock ∧ proposal.objectionPeriodEndBlock > 0 ∧
        blockNumber ≤ proposal.objectionPeriodEndBlock then .OBJECTION_PERIOD
    else if blockNumber > proposal.endBlock ∧ blockNumber > proposal.objectionPeriodEndBlock then
      if proposal.forVotes ≤ proposal.againstVotes ∨ proposal.forVotes < proposal.quorumVotes then
        .DEFEATED
      else if proposal.executionETA = none then .SUCCEEDED
      else .ACTIVE
    else .ACTIVE
  else if status = .QUEUED then
    match blockTimestamp, proposal.executionETA with
    | some blockTimestamp, some executionETA =>
      let GRACE_PERIOD := if isDaoGteV3 ∧ ¬ onTimelockV1 then 21 * 60 * 60 * 24 else 14 * 60 * 60 * 24
      if blockTimestamp ≥ executionETA + GRACE_PERIOD then .EXPIRED else status
    | _, _ => .UNDETERMINED
  else status

structure PartialProposal where
  id : Nat
  status : ProposalState
  startBlock : Nat
  endBlock : Nat
  updatePeriodEndBlock : Nat
  forCount : Int
  againstCount : Int
  abstainCount : Int
  quorumVotes : Int
  eta : Option Nat

structure Proposal extends PartialProposal where
  proposer : Address
  proposalThreshold : Nat
  createdBlock : Nat
  createdTimestamp : Nat
  objectionPeriodEndBlock : Nat
  signers : List Address
  onTimelockV1 : Bool
  voteSnapshotBlock : Nat

def parsePartialSubgraphProposal (proposal : Subgraph.Proposal) (blockNumber timestamp : Option Nat)
    (isDaoGteV3 : Bool) : PartialProposal :=
  let onTimelockV1 := if proposal.onTimelockV1 = none then false else true
  { id := proposal.id
    status := getProposalState blockNumber (some (timestamp.getD 0)) proposal isDaoGteV3 onTimelockV1
    startBlock := proposal.startBlock
    endBlock := proposal.endBlock
    updatePeriodEndBlock := proposal.updatePeriodEndBlock
    forCount := proposal.forVotes
    againstCount := proposal.againstVotes
    abstainCount := proposal.abstainVotes
    quorumVotes := proposal.quorumVotes
    eta := proposal.executionETA }

def parseSubgraphProposal (proposal : Subgraph.Proposal) (blockNumber timestamp : Option Nat)
    (isDaoGteV3 : Bool) : Proposal :=
  let onTimelockV1 := if proposal.onTimelockV1 = none then false else true
  { id := proposal.id
    proposer := proposal.proposer
    status := getProposalState blockNumber (some (timestamp.getD 0)) proposal isDaoGteV3 onTimelockV1
    proposalThreshold := proposal.proposalThreshold
    quorumVotes := proposal.quorumVotes
    forCount := proposal.forVotes
    againstCount := proposal.againstVotes
    abstainCount := proposal.abstainVotes
    createdBlock := proposal.createdBlock
    startBlock := proposal.startBlock
    endBlock := proposal.endBlock
    createdTimestamp := proposal.createdTimestamp
    eta := proposal.executionETA
    objectionPeriodEndBlock := proposal.objectionPeriodEndBlock
    updatePeriodEndBlock := proposal.updatePeriodEndBlock
    signers := proposal.signers
    onTimelockV1 := onTimelockV1
    voteSnapshotBlock := proposal.voteSnapshotBlock }

/-- The list of proposals and the page of one show the same. -/
theorem parseSubgraphProposal_toPartialProposal (proposal : Subgraph.Proposal)
    (blockNumber timestamp : Option Nat) (isDaoGteV3 : Bool) :
    (parseSubgraphProposal proposal blockNumber timestamp isDaoGteV3).toPartialProposal =
      parsePartialSubgraphProposal proposal blockNumber timestamp isDaoGteV3 := rfl

/-! ## The state of the contract -/

/-- The state that the webapp shows for a state of the contract. -/
def ProposalState.ofContract : Nouns.ProposalState → ProposalState
  | .Pending => PENDING
  | .Active => ACTIVE
  | .Canceled => CANCELLED
  | .Defeated => DEFEATED
  | .Succeeded => SUCCEEDED
  | .Queued => QUEUED
  | .Expired => EXPIRED
  | .Executed => EXECUTED
  | .Vetoed => VETOED
  | .ObjectionPeriod => OBJECTION_PERIOD
  | .Updatable => UPDATABLE

/-- The contract reports its states by the same numbers. -/
theorem ProposalState.value_ofContract (state : Nouns.ProposalState) :
    (ofContract state).value = state.ctorIdx := by
  cases state <;> rfl

section State

variable {p : Nouns.Proposal} {e : Subgraph.Proposal} {clock : Clock} {timelock : Address} {b : Bool}
  {state : Nouns.ProposalState} {blockTimestamp : Option Nat} {onTimelockV1 : Bool}

/-- While only the creation and votes were logged, the blocks and the votes tell the state. -/
theorem getProposalState_opened (hstatus : e.status = .PENDING ∨ e.status = .ACTIVE)
    (hpos : 0 < clock.blockNumber) (hstart : e.startBlock = p.startBlock)
    (hend : e.endBlock = p.endBlock) (hupdate : e.updatePeriodEndBlock = p.updatePeriodEndBlock)
    (hobjection : e.objectionPeriodEndBlock = p.objectionPeriodEndBlock)
    (hnone : e.executionETA = none)
    (hdefeated : b = true ↔ e.forVotes ≤ e.againstVotes ∨ e.forVotes < e.quorumVotes)
    (halive : p.Alive) (heta : p.eta = 0) (hin : p.IsIn clock timelock b state) :
    getProposalState (some clock.blockNumber) blockTimestamp e true onTimelockV1 =
      .ofContract state := by
  have hopen : ProposalState.ofStatus e.status = .PENDING ∨
      ProposalState.ofStatus e.status = .ACTIVE := by
    rcases hstatus with h | h
    · exact .inl (congrArg ProposalState.ofStatus h)
    · exact .inr (congrArg ProposalState.ofStatus h)
  simp only [getProposalState, if_pos hopen, Option.getD_some, if_neg (Nat.ne_of_gt hpos), hstart,
    hend, hupdate, hobjection, hnone, ← hdefeated, true_and, if_true]
  cases hin with
  | vetoed hv => exact absurd (halive.1.symm.trans hv) Bool.false_ne_true
  | canceled _ hc => exact absurd (halive.2.symm.trans hc) Bool.false_ne_true
  | updatable _ hu => rw [if_pos hu]; rfl
  | pending _ hu hs => rw [if_neg (by omega), if_pos hs]; rfl
  | active _ hu hs he =>
    rw [if_neg (by omega), if_neg (by omega), if_neg (by omega), if_neg (by omega)]
    rfl
  | objectionPeriod _ hu hs he ho =>
    rw [if_neg (by omega), if_neg (by omega), if_pos (by omega)]
    rfl
  | defeated _ hclosed hd =>
    obtain ⟨hu, hs, he, ho⟩ := hclosed
    rw [if_neg (by omega), if_neg (by omega), if_neg (by omega), if_pos (by omega), if_pos hd]
    rfl
  | succeeded _ hclosed hd _ =>
    obtain ⟨hu, hs, he, ho⟩ := hclosed
    rw [if_neg (by omega), if_neg (by omega), if_neg (by omega), if_pos (by omega),
      if_neg (by simp [hd])]
    rfl
  | executed _ _ _ hne _ => exact absurd heta hne
  | expired _ _ _ hne _ _ => exact absurd heta hne
  | queued _ _ _ hne _ _ => exact absurd heta hne

/-- Once queued, the time tells it. -/
theorem getProposalState_queued (hstatus : e.status = .QUEUED) (hsome : e.executionETA = some p.eta)
    (hgrace : clock.gracePeriod timelock =
      if onTimelockV1 then 14 * 60 * 60 * 24 else 21 * 60 * 60 * 24)
    (halive : p.Alive) (hclosed : p.Closed clock.blockNumber) (hwon : b = false) (heta : p.eta ≠ 0)
    (hexecuted : p.executed = false) (hin : p.IsIn clock timelock b state) :
    getProposalState (some clock.blockNumber) (some clock.timestamp) e true onTimelockV1 =
      .ofContract state := by
  have hstate : getProposalState (some clock.blockNumber) (some clock.timestamp) e true
      onTimelockV1 =
      if p.eta + clock.gracePeriod timelock ≤ clock.timestamp then .EXPIRED else .QUEUED := by
    rw [hgrace]
    cases onTimelockV1 <;> simp [getProposalState, hstatus, hsome, ProposalState.ofStatus]
  rw [hstate]
  by_cases hexpired : p.eta + clock.gracePeriod timelock ≤ clock.timestamp
  · rw [if_pos hexpired, hin.unique (.expired halive hclosed hwon heta hexecuted hexpired)]
    rfl
  · rw [if_neg hexpired,
      hin.unique (.queued halive hclosed hwon heta hexecuted (Nat.lt_of_not_le hexpired))]
    rfl

/-- An entity that mirrors its proposal tells the state of the contract. -/
theorem getProposalState_of_mirrors (hm : Subgraph.Mirrors p False e) (hpos : 0 < clock.blockNumber)
    (hdefeated : b = true ↔ e.forVotes ≤ e.againstVotes ∨ e.forVotes < e.quorumVotes)
    (hqueued : p.eta ≠ 0 → p.Closed clock.blockNumber ∧ b = false)
    (hgrace : clock.gracePeriod timelock =
      if p.executeOnTimelockV1 then 14 * 60 * 60 * 24 else 21 * 60 * 60 * 24)
    (hin : p.IsIn clock timelock b state) :
    getProposalState (some clock.blockNumber) (some clock.timestamp) e true p.executeOnTimelockV1 =
      .ofContract state := by
  obtain ⟨-, hstart, hend, hupdate, hobjection, -, hstatus⟩ := hm
  generalize hs : e.status = status at hstatus
  generalize hx : e.executionETA = executionETA at hstatus
  cases hstatus with
  | opened status halive heta _ hopen =>
    exact getProposalState_opened (hs ▸ hopen) hpos hstart hend hupdate hobjection hx hdefeated
      halive heta hin
  | queued halive heta hrunning =>
    obtain ⟨hclosed, hwon⟩ := hqueued heta
    have hexecuted : p.executed = false := Bool.eq_false_of_not_eq_true hrunning
    exact getProposalState_queued hs hx hgrace halive hclosed hwon heta hexecuted hin
  | executed halive heta hexecuted _ =>
    obtain ⟨hclosed, hwon⟩ := hqueued heta
    rw [hin.unique (.executed halive hclosed hwon heta hexecuted)]
    simp [getProposalState, hs, ProposalState.ofStatus, ProposalState.ofContract]
  | canceled executionETA hvetoed hcanceled _ _ =>
    rw [hin.unique (.canceled hvetoed hcanceled)]
    simp [getProposalState, hs, ProposalState.ofStatus, ProposalState.ofContract]
  | vetoed executionETA hvetoed _ _ =>
    rw [hin.unique (.vetoed hvetoed)]
    simp [getProposalState, hs, ProposalState.ofStatus, ProposalState.ofContract]

end State

/-! ## Runs -/

section Runs

variable {H : Type} {d : Deployment H} {w w' : World H}

theorem isDefeated_iff {store : ProposalStorage} {p : Nouns.Proposal} {b : Bool} {quorumVotes : Nat}
    (h : store.isDefeated p = .ok b) (hquorum : store.quorumVotes p.id = .ok quorumVotes) :
    b = true ↔ p.forVotes ≤ p.againstVotes ∨ p.forVotes < quorumVotes := by
  unfold ProposalStorage.isDefeated at h
  rw [hquorum] at h
  split at h
  · rename_i hlost
    rw [← Except.ok.inj h]
    exact iff_of_true rfl (.inl hlost)
  · rename_i hmore
    rw [← Except.ok.inj h, decide_eq_true_iff]
    exact (or_iff_right hmore).symm

theorem onTimelockV1_of_mirrors {p : Nouns.Proposal} {running : Prop} {e : Subgraph.Proposal}
    (hm : Subgraph.Mirrors p running e) :
    (if e.onTimelockV1 = none then false else true) = p.executeOnTimelockV1 := by
  rw [hm.onTimelockV1]
  cases p.executeOnTimelockV1 <;> rfl

theorem gracePeriod_eq (htimelock : d.executorVersion w.dao.timelock = .NounsDAOExecutorV2)
    (htimelockV1 : d.executorVersion w.dao.timelockV1 = .NounsDAOExecutor) (p : Nouns.Proposal) :
    (w.env d).gracePeriod (w.dao.getProposalTimelock p) =
      if p.executeOnTimelockV1 then 14 * 60 * 60 * 24 else 21 * 60 * 60 * 24 := by
  simp only [World.env, ProposalStorage.getProposalTimelock]
  split
  · rw [htimelockV1]
    rfl
  · rw [htimelock]
    rfl

variable [DecidableEq H]

/-- There is no proposal in block 0. -/
theorem proposalCount_of_step {env : Env H} {g g' : Course H} (hstep : g.Step env g')
    (hzero : env.blockNumber = 0) : g'.ds.proposalCount = g.ds.proposalCount := by
  cases hstep with
  | create _ _ _ _ hpos => omega
  | aside ds' haside => exact haside.elim fun _ h => h.2.proposalCount
  | update _ _ _ _ _ _ hlogged => exact hlogged.proposalCount
  | vote _ _ _ _ _ _ _ _ _ _ _ hlogged => exact hlogged.proposalCount
  | queue _ _ _ _ _ hlogged => exact hlogged.proposalCount
  | begin_ _ _ _ _ _ hlogged => exact hlogged.proposalCount
  | finish _ _ _ _ hlogged => exact hlogged.proposalCount
  | cancel _ _ _ _ _ _ hlogged => exact hlogged.proposalCount
  | veto _ _ _ _ _ _ hlogged => exact hlogged.proposalCount
  | quorum ds' _ _ _ hstore _ => rw [hstore]
  | switch ds' _ hstore _ => rw [hstore]

theorem blockNumber_pos (hr : Reachable Subgraph.Starts (World.NextAny d) w)
    (hcount : 0 < w.dao.proposalCount) : 0 < w.blockNumber := by
  have hinv : w.blockNumber = 0 → w.dao.proposalCount = 0 := by
    refine hr.invariant (P := fun w => w.blockNumber = 0 → w.dao.proposalCount = 0) ?_ ?_
    · exact fun w hw _ => hw.fresh.proposalCount
    · intro w w' hr hzero hn hzero'
      have hle : w.blockNumber ≤ w'.blockNumber := hn.storeStep.blockNumber_le
      have hnow : w.blockNumber = 0 := by omega
      have htold := Subgraph.told_of_reachable hr
      have hsame := steps_preserve (P := fun g => g.ds.proposalCount = w.dao.proposalCount)
        (hn.course htold.wf htold.won) rfl fun g g' h hstep =>
          (proposalCount_of_step hstep hnow).trans h
      exact hsame.trans (hzero hnow)
  refine Nat.pos_of_ne_zero fun hzero => ?_
  rw [hinv hzero] at hcount
  exact absurd hcount (Nat.lt_irrefl 0)

/-- Between transactions every proposal has an entity.  In every later block the webapp shows the state
of the contract if the entity has its votes and its quorum. -/
theorem webapp_state_eq {s : Subgraph.Store} {id : Nat}
    (hr : Reachable Subgraph.Starts (World.NextAny d) w)
    (hs : Subgraph.EventsIndexed w.dao.log s) (hframes : w.frames = [])
    (htimelock : d.executorVersion w.dao.timelock = .NounsDAOExecutorV2)
    (htimelockV1 : d.executorVersion w.dao.timelockV1 = .NounsDAOExecutor)
    (hpos : 0 < id) (hle : id ≤ w.dao.proposalCount) :
    ∃ e, s.proposals.load id = some e ∧ ∀ quorumVotes : Nat,
      e.forVotes = (w.dao.proposals id).forVotes →
      e.againstVotes = (w.dao.proposals id).againstVotes →
      w.dao.quorumVotes id = .ok quorumVotes → e.quorumVotes = quorumVotes →
      ∀ blockNumber timestamp, w.blockNumber ≤ blockNumber →
        ∃ state, w.dao.stateInternal { (w.env d).toClock with blockNumber, timestamp } id =
            .ok state ∧
          (parseSubgraphProposal e (some blockNumber) (some timestamp) true).status =
            .ofContract state := by
  have htold := Subgraph.told_of_reachable hr
  have hindexed := htold.mirrored s hs
  obtain ⟨e, hload, hm⟩ := hindexed.created id hpos hle
  have hm : Subgraph.Mirrors (w.dao.proposals id) False e := by
    -- Between transactions no execution is in progress.
    have hidle : (id ∈ w.course.executing) = False := by
      simp [World.course, World.gov, hframes]
    rwa [hidle] at hm
  refine ⟨e, hload, fun quorumVotes hfor hagainst hquorum hquorum' blockNumber timestamp hblock => ?_⟩
  have hid : (w.dao.proposals id).id = id := hindexed.id_eq id hle
  obtain ⟨b, hb⟩ : ∃ b, w.dao.isDefeated (w.dao.proposals id) = .ok b := htold.wf.isDefeated_ok hle
  have hdefeated : b = true ↔ e.forVotes ≤ e.againstVotes ∨ e.forVotes < e.quorumVotes := by
    rw [hfor, hagainst, hquorum', Nat.cast_le, Nat.cast_lt]
    exact isDefeated_iff hb (hid.symm ▸ hquorum)
  have hqueued : (w.dao.proposals id).eta ≠ 0 →
      (w.dao.proposals id).Closed blockNumber ∧ b = false := by
    intro heta
    obtain ⟨hupdate, hstart, hend, hobjection⟩ := htold.wf.closed_of_eta heta
    have hwon : w.dao.isDefeated (w.dao.proposals id) = .ok false := htold.won id heta
    rw [hb] at hwon
    exact ⟨⟨hupdate.trans_le hblock, hstart.trans_le hblock, hend.trans_le hblock,
      hobjection.trans_le hblock⟩, Except.ok.inj hwon⟩
  have hlater : 0 < blockNumber := (blockNumber_pos hr (hpos.trans_le hle)).trans_le hblock
  let clock : Clock := { (w.env d).toClock with blockNumber, timestamp }
  have hgrace : clock.gracePeriod (w.dao.getProposalTimelock (w.dao.proposals id)) = _ :=
    gracePeriod_eq htimelock htimelockV1 _
  have hin := Nouns.Proposal.isIn_stateWith (w.dao.proposals id) clock
    (w.dao.getProposalTimelock (w.dao.proposals id)) b
  refine ⟨_, ProposalStorage.stateInternal_eq hle hb, ?_⟩
  simp only [parseSubgraphProposal, Option.getD_some, onTimelockV1_of_mirrors hm]
  exact getProposalState_of_mirrors hm hlater hdefeated hqueued hgrace hin

end Runs

/-- The proposal that 7 queued is shown as what it is, at any later time. -/
theorem webapp_state_of_first_proposal :
    ∃ w s e, Reachable Subgraph.Starts (World.NextAny .sample) w ∧
      Subgraph.EventsIndexed w.dao.log s ∧ s.proposals.load 1 = some e ∧
      ∀ blockNumber timestamp, w.blockNumber ≤ blockNumber →
        ∃ state, w.dao.stateInternal { (w.env .sample).toClock with blockNumber, timestamp } 1 =
            .ok state ∧
          (parseSubgraphProposal e (some blockNumber) (some timestamp) true).status =
            .ofContract state := by
  have hrun : Yields (World.sample.run .sample (fun _ _ _ => True) Subgraph.queuesFirstProposal)
      (fun w => 1 ≤ w.dao.proposalCount ∧ w.frames.length = 0 ∧ w.dao.timelock = 102 ∧
      w.dao.timelockV1 = 103 ∧ (w.dao.proposals 1).forVotes = 1 ∧
      (w.dao.proposals 1).againstVotes = 0 ∧ w.dao.quorumVotes 1 = .ok 0 ∧
      (Subgraph.indexed (w.dao.log.map (.dao ⟨7204, 100000, 2⟩))).any fun s =>
        (s.proposals.load 1).all fun e =>
          e.forVotes = 1 ∧ e.againstVotes = 0 ∧ e.quorumVotes = 0) := by
    decide +kernel
  obtain ⟨w, hw, hcount, hframes, htimelock, htimelockV1, hfor, hagainst, hquorum, hindexed⟩ := hrun
  obtain ⟨s, hs, hall⟩ := (Option.any_eq_true _ _).mp hindexed
  have hr : Reachable Subgraph.Starts (World.NextAny .sample) w :=
    ⟨World.sample, Subgraph.starts_sample,
      World.run_steps (fun w a w' hstep _ => .step a trivial hstep) hw⟩
  have hindexed := Subgraph.eventsIndexed_of_indexed hs
  obtain ⟨e, hload, hstate⟩ := webapp_state_eq hr hindexed (List.length_eq_zero_iff.mp hframes)
    (by rw [htimelock]; rfl) (by rw [htimelockV1]; rfl) Nat.one_pos hcount
  have he := (Option.all_eq_true _ _).mp hall e hload
  obtain ⟨hfor', hagainst', hquorum'⟩ := of_decide_eq_true he
  refine ⟨w, s, e, hr, hindexed, hload, hstate 0 ?_ ?_ hquorum hquorum'⟩
  · rw [hfor', hfor]
    rfl
  · rw [hagainst', hagainst]
    rfl

end Nouns.Webapp
