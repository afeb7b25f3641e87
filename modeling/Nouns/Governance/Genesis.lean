import Nouns.Governance.WellFormed
import Nouns.Lib.Transition

/-!
# Genesis — deployment of the DAO and runs from there

The constructor of `NounsDAOProxyV3` with `initialize` of the logic contract, the world it leaves,
and a small deployment on which runs can be evaluated.
-/

open Fallible Checkpoints Transition

namespace Nouns

variable {H : Type}

structure NounsDAOParams where
  votingPeriod : Nat
  votingDelay : Nat
  proposalThresholdBPS : Nat
  lastMinuteWindowInBlocks : Nat
  objectionPeriodDurationInBlocks : Nat
  proposalUpdatablePeriodInBlocks : Nat

namespace StorageV3

/-- Storage that was never written, but for the admin. -/
def blank (admin : Address) : StorageV3 H where
  quorumVotesBPS := 0
  proposalCount := 0
  timelock := 0
  timelockV1 := 0
  proposals := fun _ => Proposal.empty
  quorumParamsCheckpoints := []
  voteSnapshotBlockSwitchProposalId := 0
  admin
  pendingAdmin := 0
  vetoer := 0
  pendingVetoer := 0
  votingDelay := 0
  votingPeriod := 0
  proposalThresholdBPS := 0
  latestProposalIds := fun _ => 0
  cancelledSigs := fun _ _ => false
  lastMinuteWindowInBlocks := 0
  objectionPeriodDurationInBlocks := 0
  proposalUpdatablePeriodInBlocks := 0
  forkEscrow := 0
  forkDAODeployer := 0
  erc20TokensToIncludeInFork := []
  forkDAOTreasury := 0
  forkDAOToken := 0
  forkEndTimestamp := 0
  forkPeriod := 0
  forkThresholdBPS := 0
  log := []

/-- The logic contract's `initialize`. -/
def initializeBy (ds : StorageV3 H) (sender : Address) (now : Nat)
    (timelock nouns forkEscrow forkDAODeployer vetoer : Address) (daoParams : NounsDAOParams)
    (dynamicQuorumParams : DynamicQuorumParams) : Tx (StorageV3 H) := do
  revertIf (ds.timelock ≠ 0) .CanOnlyInitializeOnce
  ds.onlyAdmin sender
  revertIf (timelock = 0) .InvalidTimelockAddress
  revertIf (nouns = 0) .InvalidNounsAddress
  let ds ← ds.setVotingPeriod sender daoParams.votingPeriod
  let ds ← ds.setVotingDelay sender daoParams.votingDelay
  let ds ← ds.setProposalThresholdBPS sender daoParams.proposalThresholdBPS
  let ds := { ds with timelock, forkEscrow, forkDAODeployer, vetoer }
  let ds ← ds.setDynamicQuorumParams sender now dynamicQuorumParams.minQuorumVotesBPS
    dynamicQuorumParams.maxQuorumVotesBPS dynamicQuorumParams.quorumCoefficient
  let ds ← ds.setLastMinuteWindowInBlocks sender daoParams.lastMinuteWindowInBlocks
  let ds ← ds.setObjectionPeriodDurationInBlocks sender daoParams.objectionPeriodDurationInBlocks
  ds.setProposalUpdatablePeriodInBlocks sender daoParams.proposalUpdatablePeriodInBlocks

/-- The constructor of the proxy. -/
def deploy (sender : Address) (now : Nat)
    (timelock nouns forkEscrow forkDAODeployer vetoer admin : Address) (daoParams : NounsDAOParams)
    (dynamicQuorumParams : DynamicQuorumParams) : Tx (StorageV3 H) := do
  let ds ← (blank sender).initializeBy sender now timelock nouns forkEscrow forkDAODeployer vetoer
    daoParams dynamicQuorumParams
  return { ds with admin }

variable {ds ds' : StorageV3 H}

theorem adminCall_proposals {sender : Address} {c : AdminCall}
    (h : ds.adminCall sender c = .ok ds') :
    ds'.proposals = ds.proposals ∧ ds'.proposalCount = ds.proposalCount ∧
      ds'.quorumParamsCheckpoints = ds.quorumParamsCheckpoints := by
  obtain ⟨hstore, -⟩ | ⟨timelock, timelockV1, hstore, -⟩ := adminCall_ok h
  · rw [hstore]
    exact ⟨rfl, rfl, rfl⟩
  · rw [hstore]
    exact ⟨rfl, rfl, rfl⟩

/-- A DAO just deployed has no proposals, and one checkpoint of the quorum parameters. -/
theorem deploy_ok {sender timelock nouns forkEscrow forkDAODeployer vetoer admin : Address}
    {now : Nat} {daoParams : NounsDAOParams} {dynamicQuorumParams : DynamicQuorumParams}
    (h : deploy sender now timelock nouns forkEscrow forkDAODeployer vetoer admin daoParams
      dynamicQuorumParams = .ok ds) :
    ds.proposals = (fun _ => Proposal.empty) ∧ ds.proposalCount = 0 ∧
      ds.quorumParamsCheckpoints = [⟨now, dynamicQuorumParams⟩] := by
  simp only [deploy, initializeBy, bind_eq_ok, pure_eq_ok] at h
  obtain ⟨ds₈, ⟨_, -, _, -, _, -, _, -, ds₁, h₁, ds₂, h₂, ds₃, h₃, ds₅, h₅, ds₆, h₆, ds₇, h₇, h₈⟩,
    rfl⟩ := h
  obtain ⟨hp₁, hc₁, hq₁⟩ := adminCall_proposals (c := .setVotingPeriod _) h₁
  obtain ⟨hp₂, hc₂, hq₂⟩ := adminCall_proposals (c := .setVotingDelay _) h₂
  obtain ⟨hp₃, hc₃, hq₃⟩ := adminCall_proposals (c := .setProposalThresholdBPS _) h₃
  obtain ⟨params, -, hstore, -⟩ := quorumCall_ok (c := .setDynamicQuorumParams _ _ _) h₅
  obtain ⟨hp₆, hc₆, hq₆⟩ := adminCall_proposals (c := .setLastMinuteWindowInBlocks _) h₆
  obtain ⟨hp₇, hc₇, hq₇⟩ := adminCall_proposals (c := .setObjectionPeriodDurationInBlocks _) h₇
  obtain ⟨hp₈, hc₈, hq₈⟩ := adminCall_proposals (c := .setProposalUpdatablePeriodInBlocks _) h₈
  refine ⟨?_, ?_, ?_⟩
  · rw [show ds₈.proposals = _ from hp₈, hp₇, hp₆, hstore]
    exact hp₃.trans (hp₂.trans hp₁)
  · rw [show ds₈.proposalCount = _ from hc₈, hc₇, hc₆, hstore]
    exact hc₃.trans (hc₂.trans hc₁)
  · rw [show ds₈.quorumParamsCheckpoints = _ from hq₈, hq₇, hq₆, hstore]
    simp only [hq₃, hq₂, hq₁]
    rfl

end StorageV3

namespace World

theorem fresh_of_deploy {w : World H}
    {sender timelock nouns forkEscrow forkDAODeployer vetoer admin : Address}
    {daoParams : NounsDAOParams} {dynamicQuorumParams : DynamicQuorumParams}
    (hdao : StorageV3.deploy sender w.blockNumber timelock nouns forkEscrow forkDAODeployer vetoer
      admin daoParams dynamicQuorumParams = .ok w.dao) (hframes : w.frames = []) : w.Fresh := by
  obtain ⟨hproposals, hcount, hcheckpoints⟩ := StorageV3.deploy_ok hdao
  refine ⟨hcount, fun id => by rw [hproposals], ?_, hframes⟩
  rw [hcheckpoints]
  exact write_wellFormed (WellFormed.nil _) _

/-! ## Evaluating runs -/

section Run

/-- All steps of the chain. -/
abbrev NextAny [DecidableEq H] (d : Deployment H) : World H → World H → Prop :=
  Next d (fun _ _ => True)

variable [DecidableEq H] (d : Deployment H) (admits : World H → Action → World H → Prop)
  [∀ w a w', Decidable (admits w a w')]

/-- Makes the calls one after the other, each of which `admits` must allow. -/
def run (w : World H) : List Action → Tx (World H)
  | [] => return w
  | a :: actions => do
    let w' ← w.step d a
    require (admits w a w') .callFailed
    run w' actions

variable {d admits}

theorem run_steps {next : World H → World H → Prop} {w w' : World H} {actions : List Action}
    (hnext : ∀ w a w', w.step d a = .ok w' → admits w a w' → next w w')
    (h : w.run d admits actions = .ok w') : Relation.ReflTransGen next w w' := by
  induction actions generalizing w with
  | nil =>
    cases pure_eq_ok.mp h
    exact .refl
  | cons a actions ih =>
    simp only [run, bind_eq_ok, require_eq_ok] at h
    obtain ⟨w₁, hstep, _, hadmits, hrest⟩ := h
    exact .head (hnext w a w₁ hstep hadmits) (ih hrest)

end Run

end World

/-! ## A small deployment -/

def Deployment.sample : Deployment Preimage where
  crypto := .transparent
  dao := 100
  nouns := 101
  timelock := 102
  timelockV1 := 103
  executorVersion := fun a => if a = 103 then .NounsDAOExecutor else .NounsDAOExecutorV2
  isContract := fun a => a ∈ [100, 101, 102, 103, 104]

def Executor.sample : Executor Preimage where
  admin := 100
  pendingAdmin := 0
  delay := .shortest
  queuedTransactions := fun _ => false
  log := []

def Account.minter : Account := ⟨7, by decide⟩

def Account.noundersDAO : Account := ⟨8, by decide⟩

/-- The vetoer is 9, Nouns are minted to 7 and to 8, the escrow is 104. -/
def World.sample : World Preimage where
  blockNumber := 1
  timestamp := 1
  dao := { StorageV3.blank 102 with
    timelock := 102
    timelockV1 := 103
    vetoer := 9
    votingDelay := 1
    votingPeriod := MIN_VOTING_PERIOD_BLOCKS
    proposalThresholdBPS := 1
    quorumParamsCheckpoints := [⟨1, ⟨200, 200, 0⟩⟩]
    forkEscrow := 104
    forkDAODeployer := 105
    forkPeriod := MIN_FORK_PERIOD
    forkThresholdBPS := 2000 }
  executors := fun _ => .sample
  nouns := NounsToken.deploy 102 8 7
  escrows := fun _ => ⟨0, fun _ _ => 0, 0⟩
  eth := fun _ => 10 ^ 18
  erc20 := fun _ _ => 0
  outside := ⟨fun _ _ _ => false, fun _ => 0, fun _ => true⟩
  frames := []

def TxContext.sample : TxContext where
  origin := 5
  basefee := 0
  gasprice := 0
  gasSpent := 0
  acceptsETH := true

/-- One call of address 50 without value. -/
def ProposalTxs.sample : ProposalTxs := ⟨[50], [0], [""], [[]]⟩

/-- A call of the DAO by `sender`. -/
def Action.ofDAO (sender : Account) (call : DAOCall) : Action := .callDAO .sample sender call

/-- The signature of 8 under the sample proposal of 7, good until time 100. -/
def ProposerSignature.sample : ProposerSignature where
  sig := [8]
  signer := 8
  expirationTimestamp := 100

/-- Signature checks know that signature and no other. -/
def Outside.sampleSigned : Outside Preimage where
  isValidSignatureNow := fun signer digest sig =>
    signer = 8 ∧ digest = .proposal 7 .sample "" 100 ∧ sig = [8]
  proxies := fun _ => 0
  acceptsERC721 := fun _ => true

theorem World.sample_fresh : World.sample.Fresh :=
  ⟨rfl, fun _ => rfl, write_wellFormed (WellFormed.nil _) _, rfl⟩

end Nouns
