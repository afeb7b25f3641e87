import Nouns.Governance.Protocol

/-!
# Refinement — every step of the contracts is a step of the protocol

One lemma for each function says what it does to the governance view of the state; together they
give `gov_step`.  No invariant is needed here: the protocol's transitions are read off the checks
the functions make.
-/

open Fallible Checkpoints

namespace Nouns

variable {H : Type}

namespace StorageV3

variable {ds ds' : StorageV3 H} {sender : Address}

/-! ## Setters -/

/-- Nothing that governance depends on changed. -/
def Quiet (ds ds' : StorageV3 H) : Prop :=
  ds'.toProposalStorage = ds.toProposalStorage ∧ ds'.forkEndTimestamp = ds.forkEndTimestamp

theorem Quiet.trans {ds₁ ds₂ ds₃ : StorageV3 H} (h : Quiet ds₁ ds₂) (h' : Quiet ds₂ ds₃) :
    Quiet ds₁ ds₃ :=
  ⟨h'.1.trans h.1, h'.2.trans h.2⟩

theorem setForkEscrow_quiet {a : Address} (h : ds.setForkEscrow sender a = .ok ds') :
    Quiet ds ds' := by
  simp only [setForkEscrow, bind_eq_ok, pure_eq_ok] at h
  obtain ⟨_, -, rfl⟩ := h
  exact ⟨rfl, rfl⟩

theorem setForkDAODeployer_quiet {a : Address} (h : ds.setForkDAODeployer sender a = .ok ds') :
    Quiet ds ds' := by
  simp only [setForkDAODeployer, bind_eq_ok, pure_eq_ok] at h
  obtain ⟨_, -, rfl⟩ := h
  exact ⟨rfl, rfl⟩

theorem setErc20TokensToIncludeInFork_quiet {l : List Address}
    (h : ds.setErc20TokensToIncludeInFork sender l = .ok ds') : Quiet ds ds' := by
  simp only [setErc20TokensToIncludeInFork, bind_eq_ok, pure_eq_ok] at h
  obtain ⟨_, -, _, -, rfl⟩ := h
  exact ⟨rfl, rfl⟩

theorem setForkPeriod_quiet {v : Nat} (h : ds.setForkPeriod sender v = .ok ds') :
    Quiet ds ds' := by
  simp only [setForkPeriod, bind_eq_ok, pure_eq_ok] at h
  obtain ⟨_, -, _, -, _, -, rfl⟩ := h
  exact ⟨rfl, rfl⟩

theorem setForkThresholdBPS_quiet {v : Nat} (h : ds.setForkThresholdBPS sender v = .ok ds') :
    Quiet ds ds' := by
  simp only [setForkThresholdBPS, bind_eq_ok, pure_eq_ok] at h
  obtain ⟨_, -, rfl⟩ := h
  exact ⟨rfl, rfl⟩

/-- Only `_setTimelocksAndAdmin` is seen by governance. -/
theorem adminCall_ok {c : AdminCall} (h : ds.adminCall sender c = .ok ds') :
    Quiet ds ds' ∨ ∃ timelock timelockV1, ds'.toProposalStorage =
      { ds.toProposalStorage with timelock, timelockV1 } ∧
      ds'.forkEndTimestamp = ds.forkEndTimestamp := by
  cases c with
  | setTimelocksAndAdmin timelock timelockV1 admin =>
    simp only [adminCall, setTimelocksAndAdmin, bind_eq_ok, pure_eq_ok] at h
    obtain ⟨_, -, rfl⟩ := h
    exact .inr ⟨timelock, timelockV1, rfl, rfl⟩
  | setForkParams forkEscrow forkDAODeployer erc20s forkPeriod forkThresholdBPS =>
    simp only [adminCall, setForkParams, bind_eq_ok] at h
    obtain ⟨ds₁, h₁, ds₂, h₂, ds₃, h₃, ds₄, h₄, h₅⟩ := h
    exact .inl ((((setForkEscrow_quiet h₁).trans (setForkDAODeployer_quiet h₂)).trans
      (setErc20TokensToIncludeInFork_quiet h₃)).trans (setForkPeriod_quiet h₄) |>.trans
      (setForkThresholdBPS_quiet h₅))
  | setForkEscrow a => exact .inl (setForkEscrow_quiet h)
  | setForkDAODeployer a => exact .inl (setForkDAODeployer_quiet h)
  | setErc20TokensToIncludeInFork l => exact .inl (setErc20TokensToIncludeInFork_quiet h)
  | setForkPeriod v => exact .inl (setForkPeriod_quiet h)
  | setForkThresholdBPS v => exact .inl (setForkThresholdBPS_quiet h)
  | setVotingDelay v =>
    simp only [adminCall, setVotingDelay, bind_eq_ok, pure_eq_ok] at h
    obtain ⟨_, -, _, -, rfl⟩ := h
    exact .inl ⟨rfl, rfl⟩
  | setVotingPeriod v =>
    simp only [adminCall, setVotingPeriod, bind_eq_ok, pure_eq_ok] at h
    obtain ⟨_, -, _, -, rfl⟩ := h
    exact .inl ⟨rfl, rfl⟩
  | setProposalThresholdBPS v =>
    simp only [adminCall, setProposalThresholdBPS, bind_eq_ok, pure_eq_ok] at h
    obtain ⟨_, -, _, -, rfl⟩ := h
    exact .inl ⟨rfl, rfl⟩
  | setObjectionPeriodDurationInBlocks v =>
    simp only [adminCall, setObjectionPeriodDurationInBlocks, bind_eq_ok, pure_eq_ok] at h
    obtain ⟨_, -, _, -, rfl⟩ := h
    exact .inl ⟨rfl, rfl⟩
  | setLastMinuteWindowInBlocks v =>
    simp only [adminCall, setLastMinuteWindowInBlocks, bind_eq_ok, pure_eq_ok] at h
    obtain ⟨_, -, rfl⟩ := h
    exact .inl ⟨rfl, rfl⟩
  | setProposalUpdatablePeriodInBlocks v =>
    simp only [adminCall, setProposalUpdatablePeriodInBlocks, bind_eq_ok, pure_eq_ok] at h
    obtain ⟨_, -, _, -, rfl⟩ := h
    exact .inl ⟨rfl, rfl⟩
  | setPendingAdmin a =>
    simp only [adminCall, setPendingAdmin, bind_eq_ok, pure_eq_ok] at h
    obtain ⟨_, -, rfl⟩ := h
    exact .inl ⟨rfl, rfl⟩
  | acceptAdmin =>
    simp only [adminCall, acceptAdmin, bind_eq_ok, pure_eq_ok] at h
    obtain ⟨_, -, rfl⟩ := h
    exact .inl ⟨rfl, rfl⟩
  | setPendingVetoer a =>
    simp only [adminCall, setPendingVetoer, bind_eq_ok, pure_eq_ok] at h
    obtain ⟨_, -, rfl⟩ := h
    exact .inl ⟨rfl, rfl⟩
  | acceptVetoer =>
    simp only [adminCall, acceptVetoer, bind_eq_ok, pure_eq_ok] at h
    obtain ⟨_, -, rfl⟩ := h
    exact .inl ⟨rfl, rfl⟩
  | burnVetoPower =>
    simp only [adminCall, burnVetoPower, bind_eq_ok, pure_eq_ok] at h
    obtain ⟨_, -, rfl⟩ := h
    exact .inl ⟨rfl, rfl⟩

theorem writeQuorumParamsCheckpoint_ok {now : Nat} {params : DynamicQuorumParams}
    (h : ds.writeQuorumParamsCheckpoint now params = .ok ds') :
    ds' = { ds with quorumParamsCheckpoints := write ds.quorumParamsCheckpoints now params } := by
  simp only [writeQuorumParamsCheckpoint, safe32, bind_eq_ok, pure_eq_ok] at h
  obtain ⟨_, ⟨_, -, rfl⟩, rfl⟩ := h
  rfl

theorem quorumCall_ok {now : Nat} {c : QuorumCall} (h : ds.quorumCall sender now c = .ok ds') :
    ∃ params, ds.getDynamicQuorumParamsAt now = .ok params ∧
      ds'.toProposalStorage = { ds.toProposalStorage with
        quorumParamsCheckpoints := write ds.quorumParamsCheckpoints now (c.apply params) } ∧
      ds'.forkEndTimestamp = ds.forkEndTimestamp := by
  cases c with
  | setMinQuorumVotesBPS newMin =>
    simp only [quorumCall, setMinQuorumVotesBPS, bind_eq_ok, pure_eq_ok] at h
    obtain ⟨_, -, params, hp, _, -, _, -, ds₁, hw, rfl⟩ := h
    rw [writeQuorumParamsCheckpoint_ok hw]
    exact ⟨params, hp, rfl, rfl⟩
  | setMaxQuorumVotesBPS newMax =>
    simp only [quorumCall, setMaxQuorumVotesBPS, bind_eq_ok, pure_eq_ok] at h
    obtain ⟨_, -, params, hp, _, -, _, -, ds₁, hw, rfl⟩ := h
    rw [writeQuorumParamsCheckpoint_ok hw]
    exact ⟨params, hp, rfl, rfl⟩
  | setQuorumCoefficient newCoefficient =>
    simp only [quorumCall, setQuorumCoefficient, bind_eq_ok, pure_eq_ok] at h
    obtain ⟨_, -, params, hp, ds₁, hw, rfl⟩ := h
    rw [writeQuorumParamsCheckpoint_ok hw]
    exact ⟨params, hp, rfl, rfl⟩
  | setDynamicQuorumParams newMin newMax newCoefficient =>
    simp only [quorumCall, setDynamicQuorumParams, bind_eq_ok, pure_eq_ok] at h
    obtain ⟨_, -, _, -, _, -, _, -, params, hp, ds₁, hw, rfl⟩ := h
    rw [writeQuorumParamsCheckpoint_ok hw]
    exact ⟨params, hp, rfl, rfl⟩

theorem setVoteSnapshotBlockSwitchProposalId_ok
    (h : ds.setVoteSnapshotBlockSwitchProposalId sender = .ok ds') :
    ds.voteSnapshotBlockSwitchProposalId = 0 ∧
      ds'.toProposalStorage = { ds.toProposalStorage with
        voteSnapshotBlockSwitchProposalId := ds.proposalCount + 1 } ∧
      ds'.forkEndTimestamp = ds.forkEndTimestamp := by
  simp only [setVoteSnapshotBlockSwitchProposalId, bind_eq_ok, revertIf_eq_ok, pure_eq_ok] at h
  obtain ⟨_, -, _, hzero, rfl⟩ := h
  exact ⟨by omega, rfl, rfl⟩

/-! ## Proposing -/

variable {env : Env H}

/-- What a call that proposes `p` leaves behind. -/
structure Proposed (now : Nat) (ds ds' : StorageV3 H) (p : Proposal) : Prop where
  store : ds'.toProposalStorage = { ds.toProposalStorage with
    proposalCount := ds.proposalCount + 1
    proposals := Function.update ds.proposals (ds.proposalCount + 1) p }
  forkEndTimestamp : ds'.forkEndTimestamp = ds.forkEndTimestamp
  created : ds.toProposalStorage.Created now p

theorem createNewProposal_ok {id threshold supply : Nat} {txs : ProposalTxs}
    (h : ds.createNewProposal env sender id threshold supply txs = .ok ds') :
    ∃ updatePeriodEndBlock, env.blockNumber ≤ updatePeriodEndBlock ∧
      ds' = ds.setProposal id { ds.proposals id with
        id
        proposer := sender
        proposalThreshold := threshold
        toProposalTxs := txs
        startBlock := updatePeriodEndBlock + ds.votingDelay
        endBlock := updatePeriodEndBlock + ds.votingDelay + ds.votingPeriod
        totalSupply := supply
        creationBlock := env.blockNumber
        updatePeriodEndBlock } := by
  simp only [createNewProposal, toUint64, bind_eq_ok, require_eq_ok, pure_eq_ok] at h
  obtain ⟨_, ⟨_, -, rfl⟩, _, ⟨_, -, rfl⟩, rfl⟩ := h
  exact ⟨env.blockNumber + ds.proposalUpdatablePeriodInBlocks, by omega, rfl⟩

theorem minQuorumVotes_ok {s : ProposalStorage} {now supply votes : Nat}
    (h : s.minQuorumVotes now supply = .ok votes) :
    ∃ params, s.getDynamicQuorumParamsAt now = .ok params := by
  simp only [ProposalStorage.minQuorumVotes, bind_eq_ok] at h
  obtain ⟨params, hp, -⟩ := h
  exact ⟨params, hp⟩

theorem propose_ok {txs : ProposalTxs} {description : String} {id : Nat}
    (h : ds.propose env sender txs description = .ok (ds', id)) :
    id = ds.proposalCount + 1 ∧ ∃ p, Proposed env.blockNumber ds ds' p := by
  simp only [propose, bind_eq_ok, pure_eq_ok, Prod.mk.injEq] at h
  obtain ⟨supply, -, votes, -, threshold, -, _, htxs, _, -, ds₁, hcreate, q, hq, rfl, rfl⟩ := h
  obtain ⟨ub, hub, rfl⟩ := createNewProposal_ok hcreate
  refine ⟨rfl, _, rfl, rfl, ⟨⟨_, _, _, _, _, _, _, _, _, rfl⟩, htxs, hub, ?_, ?_, ?_⟩⟩
  · exact Nat.le_add_right _ _
  · exact Nat.le_add_right _ _
  · exact minQuorumVotes_ok hq

theorem proposeOnTimelockV1_ok {txs : ProposalTxs} {description : String} {id : Nat}
    (h : ds.proposeOnTimelockV1 env sender txs description = .ok (ds', id)) :
    ∃ p, Proposed env.blockNumber ds ds' p := by
  simp only [proposeOnTimelockV1, bind_eq_ok, pure_eq_ok, Prod.mk.injEq] at h
  obtain ⟨⟨ds₁, id₁⟩, h₁, rfl, rfl⟩ := h
  obtain ⟨rfl, p, hp⟩ := propose_ok h₁
  obtain ⟨⟨_, _, _, _, _, _, _, _, _, rfl⟩, htxs, hub, hle₁, hle₂, hq⟩ := hp.created
  refine ⟨{ ds₁.proposals (ds.proposalCount + 1) with executeOnTimelockV1 := true }, ?_,
    hp.forkEndTimestamp, ?_⟩
  · simp only [emit, setProposal, hp.store, Function.update_idem]
  · rw [show ds₁.proposals = _ from congrArg ProposalStorage.proposals hp.store]
    simp only [Function.update_self]
    exact ⟨⟨_, _, _, _, _, _, _, _, _, rfl⟩, htxs, hub, hle₁, hle₂, hq⟩

section Signers

/-- Checking the signers touches no proposal. -/
theorem verifySigners_ok {signatures : List ProposerSignature} {txs : ProposalTxs}
    {description : String} {id votes : Nat} {signers : List Address}
    (h : ds.verifySignersCanBackThisProposalAndCountTheirVotes env sender signatures txs description
      id = .ok (ds', votes, signers)) : Quiet ds ds' := by
  simp only [verifySignersCanBackThisProposalAndCountTheirVotes, bind_eq_ok, pure_eq_ok,
    Prod.mk.injEq] at h
  obtain ⟨⟨ds₁, votes₁, signers₁⟩, hloop, _, -, _, -, rfl, -, -⟩ := h
  have hquiet : Quiet ds ds₁ := by
    refine foldlM_ok (P := fun s => Quiet ds s.1) hloop ⟨rfl, rfl⟩ ?_
    rintro s - ⟨ds₂, votes₂, signers₂⟩ ⟨ds₃, votes₃, signers₃⟩ hq hs
    simp only [bind_eq_ok] at hs
    obtain ⟨_, -, _, -, votes, -, hs⟩ := hs
    split at hs
    · simp only [pure_eq_ok, Prod.mk.injEq] at hs
      obtain ⟨rfl, -, -⟩ := hs
      exact hq
    · simp only [pure_eq_ok, Prod.mk.injEq] at hs
      obtain ⟨rfl, -, -⟩ := hs
      exact hq
  exact hquiet

theorem proposeBySigs_ok {signatures : List ProposerSignature} {txs : ProposalTxs}
    {description : String} {id : Nat}
    (h : ds.proposeBySigs env sender signatures txs description = .ok (ds', id)) :
    ∃ p, Proposed env.blockNumber ds ds' p := by
  simp only [proposeBySigs, bind_eq_ok, pure_eq_ok, Prod.mk.injEq] at h
  obtain ⟨_, -, _, htxs, supply, -, ds₁, hcreate, ⟨ds₂, votes, signers⟩, hverify, _, -, _, -, q, hq,
    rfl, rfl⟩ := h
  obtain ⟨ub, hub, rfl⟩ := createNewProposal_ok hcreate
  obtain ⟨hstore, hfork⟩ := verifySigners_ok hverify
  have hproposals := congrArg ProposalStorage.proposals hstore
  refine ⟨{ ds₂.proposals (ds.proposalCount + 1) with signers := signers }, ?_, hfork, ?_⟩
  · simp only [emit, emitNewPropEvents, setProposal, hstore, Function.update_idem]
  · rw [show ds₂.proposals = _ from hproposals]
    simp only [setProposal, Function.update_self]
    refine ⟨⟨_, _, _, _, _, _, _, _, _, rfl⟩, htxs, hub, ?_, ?_, ?_⟩
    · exact Nat.le_add_right _ _
    · exact Nat.le_add_right _ _
    · obtain ⟨params, hparams⟩ := minQuorumVotes_ok hq
      refine ⟨params, ?_⟩
      simp only [setProposal, ProposalStorage.getDynamicQuorumParamsAt,
        ProposalStorage.defaultQuorumParams, hstore] at hparams ⊢
      exact hparams

end Signers

/-! ## Updates and votes -/

/-- What a call that changes proposal `id` to `p` leaves behind. -/
structure Changed (ds ds' : StorageV3 H) (id : Nat) (p : Proposal) : Prop where
  store : ds'.toProposalStorage =
    { ds.toProposalStorage with proposals := Function.update ds.proposals id p }
  forkEndTimestamp : ds'.forkEndTimestamp = ds.forkEndTimestamp

theorem checkProposalUpdatable_ok {id : Nat} {u : Unit}
    (h : ds.checkProposalUpdatable env sender id = .ok u) :
    ds.stateInternal env.toClock id = .ok .Updatable := by
  simp only [checkProposalUpdatable, bind_eq_ok, revertIf_eq_ok, ne_eq, Decidable.not_not] at h
  obtain ⟨_, hstate, _, rfl, -⟩ := h
  exact hstate

theorem updateProposalTransactionsInternal_ok {id : Nat} {txs : ProposalTxs}
    (h : ds.updateProposalTransactionsInternal env sender id txs = .ok ds') :
    ∃ p, ds.BallotChange env.toClock env.nouns.toToken id p ∧ Changed ds ds' id p := by
  simp only [updateProposalTransactionsInternal, bind_eq_ok, pure_eq_ok] at h
  obtain ⟨_, htxs, _, hup, rfl⟩ := h
  exact ⟨_, .update txs (checkProposalUpdatable_ok hup) htxs, rfl, rfl⟩

theorem updateProposalBySigs_ok {id : Nat} {signatures : List ProposerSignature}
    {txs : ProposalTxs} {description message : String}
    (h : ds.updateProposalBySigs env sender id signatures txs description message = .ok ds') :
    ∃ p, ds.BallotChange env.toClock env.nouns.toToken id p ∧ Changed ds ds' id p := by
  simp only [updateProposalBySigs, bind_eq_ok, revertIf_eq_ok, ne_eq, Decidable.not_not,
    pure_eq_ok] at h
  obtain ⟨_, htxs, _, -, _, hstate, _, rfl, _, -, _, -, _, -, rfl⟩ := h
  exact ⟨_, .update txs hstate htxs, rfl, rfl⟩

theorem triggerObjection_ok {id : Nat} {flipped : Bool}
    (h : ds.triggerObjection id flipped = .ok ds') :
    ∃ o, (o = (ds.proposals id).objectionPeriodEndBlock ∨ (ds.proposals id).endBlock ≤ o) ∧
      Changed ds ds' id { ds.proposals id with objectionPeriodEndBlock := o } := by
  have hsame : ds = ds' → ∃ o, (o = (ds.proposals id).objectionPeriodEndBlock ∨
      (ds.proposals id).endBlock ≤ o) ∧
      Changed ds ds' id { ds.proposals id with objectionPeriodEndBlock := o } := by
    rintro rfl
    exact ⟨_, .inl rfl, by simp, rfl⟩
  simp only [triggerObjection] at h
  split at h
  · rw [bind_eq_ok] at h
    obtain ⟨defeated, -, h⟩ := h
    split at h
    · simp only [toUint64, bind_eq_ok, require_eq_ok, pure_eq_ok] at h
      obtain ⟨_, ⟨_, -, rfl⟩, rfl⟩ := h
      exact ⟨_, .inr (Nat.le_add_right _ _), rfl, rfl⟩
    · exact hsame (pure_eq_ok.mp h)
  · exact hsame (pure_eq_ok.mp h)

theorem countVotes_eq {support : Nat} (p : Proposal) (hsupport : support ≤ 2) (votes : Nat) :
    countVotes p support votes = { p with
      forVotes := p.forVotes + if support = 1 then votes else 0
      againstVotes := p.againstVotes + if support = 0 then votes else 0
      abstainVotes := p.abstainVotes + if support = 2 then votes else 0 } := by
  have hcases : support = 0 ∨ support = 1 ∨ support = 2 := by omega
  rcases hcases with rfl | rfl | rfl
  · rfl
  · rfl
  · rfl

theorem castVoteDuringVotingPeriodInternal_ok {id support votes : Nat} {voter : Address}
    (hstate : ds.stateInternal env.toClock id = .ok .Active)
    (h : ds.castVoteDuringVotingPeriodInternal env id voter support = .ok (ds', votes)) :
    ∃ p, ds.BallotChange env.toClock env.nouns.toToken id p ∧ Changed ds ds' id p := by
  simp only [castVoteDuringVotingPeriodInternal, bind_eq_ok, require_eq_ok, pure_eq_ok,
    Prod.mk.injEq] at h
  obtain ⟨_, hsupport, _, hvoted, votes, hvotes, _, -, _, -, ds₁, htrigger, rfl, rfl⟩ := h
  obtain ⟨o, ho, hstore, hfork⟩ := triggerObjection_ok htrigger
  have hp : ds₁.proposals id = { countVotes (ds.proposals id) support votes with
      objectionPeriodEndBlock := o } := by
    rw [show ds₁.proposals = _ from congrArg ProposalStorage.proposals hstore]
    simp [setProposal]
  refine ⟨_, .vote voter support votes o hstate hsupport hvoted hvotes ?_, ?_, hfork⟩
  · simpa [setProposal, countVotes_eq _ hsupport] using ho
  · simp only [setProposal, hp]
    simp only [hstore, setProposal, Function.update_idem]
    rfl

theorem castObjectionInternal_ok {id votes : Nat} {voter : Address}
    (hstate : ds.stateInternal env.toClock id = .ok .ObjectionPeriod)
    (h : ds.castObjectionInternal env id voter = .ok (ds', votes)) :
    ∃ p, ds.BallotChange env.toClock env.nouns.toToken id p ∧ Changed ds ds' id p := by
  simp only [castObjectionInternal, bind_eq_ok, require_eq_ok, pure_eq_ok, Prod.mk.injEq] at h
  obtain ⟨_, hvoted, votes, hvotes, rfl, rfl⟩ := h
  exact ⟨_, .object voter votes hstate hvoted hvotes, rfl, rfl⟩

theorem castVoteInternal_ok {id support votes : Nat} {voter : Address}
    (h : ds.castVoteInternal env voter id support = .ok (ds', votes)) :
    ∃ p, ds.BallotChange env.toClock env.nouns.toToken id p ∧ Changed ds ds' id p := by
  simp only [castVoteInternal, bind_eq_ok] at h
  obtain ⟨s, hs, h⟩ := h
  split at h
  · rename_i hactive
    exact castVoteDuringVotingPeriodInternal_ok (hactive ▸ hs) h
  · split at h
    · rename_i hobjection
      rw [bind_eq_ok] at h
      obtain ⟨_, -, h⟩ := h
      exact castObjectionInternal_ok (hobjection ▸ hs) h
    · simp at h

theorem castVoteWithReason_ok {id support : Nat} {reason : String}
    (h : ds.castVoteWithReason env sender id support reason = .ok ds') :
    ∃ p, ds.BallotChange env.toClock env.nouns.toToken id p ∧ Changed ds ds' id p := by
  simp only [castVoteWithReason, bind_eq_ok, pure_eq_ok] at h
  obtain ⟨⟨ds₁, votes⟩, h₁, rfl⟩ := h
  obtain ⟨p, hp, hstore, hfork⟩ := castVoteInternal_ok h₁
  exact ⟨p, hp, hstore, hfork⟩

end StorageV3

/-! ## Loops over the timelock -/

namespace TxQueue

variable {c : Crypto H} {tx : Transaction} {txs : List Transaction} {q q₁ q' : TxQueue H}

theorem QueuedAll.nil (q : TxQueue H) : QueuedAll c [] q q :=
  ⟨List.nodup_nil, by simp, by simp, by simp, by simp, rfl⟩

theorem QueuedAll.cons [DecidableEq H] (hfresh : q.queued (Executor.txHash c tx) = false)
    (hq₁ : q₁.queued = Function.update q.queued (Executor.txHash c tx) true)
    (hlog : q₁.queueings = tx :: q.queueings) (hruns : q₁.runs = q.runs)
    (h : QueuedAll c txs q₁ q') : QueuedAll c (tx :: txs) q q' := by
  have hne : ∀ tx' ∈ txs, Executor.txHash c tx' ≠ Executor.txHash c tx := by
    intro tx' htx' heq
    have hf := h.fresh tx' htx'
    rw [hq₁, heq, Function.update_self] at hf
    cases hf
  refine ⟨List.nodup_cons.mpr ⟨fun hmem => hne tx hmem rfl, h.nodup⟩, ?_, ?_, ?_, ?_, ?_⟩
  · intro tx' htx'
    rcases List.mem_cons.mp htx' with rfl | htx'
    · exact hfresh
    · have hf := h.fresh tx' htx'
      rwa [hq₁, Function.update_of_ne (hne tx' htx')] at hf
  · intro tx' htx'
    rcases List.mem_cons.mp htx' with rfl | htx'
    · rw [h.others _ hne, hq₁, Function.update_self]
    · exact h.queued tx' htx'
  · intro k hk
    rw [h.others k (fun tx' htx' => hk tx' (List.mem_cons_of_mem tx htx')), hq₁,
      Function.update_of_ne (hk tx List.mem_cons_self).symm]
  · intro tx'
    rw [h.queueings, hlog, List.mem_cons, List.mem_cons]
    exact ⟨fun hm => hm.elim (fun h => .inl (.inr h)) (fun h => h.elim (fun h => .inl (.inl h)) .inr),
      fun hm => hm.elim (fun h => h.elim (fun h => .inr (.inl h)) .inl) (fun h => .inr (.inr h))⟩
  · rw [h.runs, hruns]

theorem CanceledAll.nil (q : TxQueue H) : CanceledAll c [] q q :=
  ⟨by simp, by simp, rfl, rfl⟩

theorem CanceledAll.cons [DecidableEq H]
    (hq₁ : q₁.queued = Function.update q.queued (Executor.txHash c tx) false)
    (hlog : q₁.queueings = q.queueings) (hruns : q₁.runs = q.runs)
    (h : CanceledAll c txs q₁ q') : CanceledAll c (tx :: txs) q q' := by
  refine ⟨?_, ?_, h.queueings.trans hlog, h.runs.trans hruns⟩
  · intro tx' htx'
    rcases List.mem_cons.mp htx' with rfl | htx'
    · by_cases hmem : ∃ tx'' ∈ txs, Executor.txHash c tx'' = Executor.txHash c tx'
      · obtain ⟨tx'', hmem, heq⟩ := hmem
        rw [← heq]
        exact h.canceled tx'' hmem
      · rw [h.others _ (fun tx'' hm heq => hmem ⟨tx'', hm, heq⟩), hq₁, Function.update_self]
    · exact h.canceled tx' htx'
  · intro k hk
    rw [h.others k (fun tx' htx' => hk tx' (List.mem_cons_of_mem tx htx')), hq₁,
      Function.update_of_ne (hk tx List.mem_cons_self).symm]

/-- A loop that puts new entries on the queue. -/
theorem QueuedAll.of_loop [DecidableEq H] {f : Executor H → Transaction → Tx (Executor H)}
    {e e' : Executor H}
    (hf : ∀ e tx e', f e tx = .ok e' → e.isQueued c tx = false ∧
      e' = (e.setQueued c tx true).emit (.QueueTransaction tx))
    (h : txs.foldlM f e = .ok e') : QueuedAll c txs e.toQueue e'.toQueue := by
  induction txs generalizing e with
  | nil =>
    cases pure_eq_ok.mp h
    exact .nil _
  | cons tx txs ih =>
    rw [List.foldlM_cons, bind_eq_ok] at h
    obtain ⟨e₁, h₁, hrest⟩ := h
    obtain ⟨hfresh, rfl⟩ := hf e tx e₁ h₁
    refine .cons hfresh ?_ ?_ ?_ (ih hrest)
    · rfl
    · rfl
    · rfl

/-- The loop that takes entries off the queue. -/
theorem CanceledAll.of_loop [DecidableEq H] {sender : Address} {e e' : Executor H}
    (h : txs.foldlM (fun e tx => e.cancelTransaction c sender tx) e = .ok e') :
    CanceledAll c txs e.toQueue e'.toQueue := by
  induction txs generalizing e with
  | nil =>
    cases pure_eq_ok.mp h
    exact .nil _
  | cons tx txs ih =>
    rw [List.foldlM_cons, bind_eq_ok] at h
    obtain ⟨e₁, h₁, hrest⟩ := h
    simp only [Executor.cancelTransaction, bind_eq_ok, pure_eq_ok] at h₁
    obtain ⟨_, -, rfl⟩ := h₁
    refine .cons ?_ ?_ ?_ (ih hrest)
    · rfl
    · rfl
    · rfl

end TxQueue

namespace StorageV3

variable [DecidableEq H] {ds ds' : StorageV3 H} {sender : Address} {env : Env H} {e e' : Executor H}

theorem queueOrRevertInternal_ok {tx : Transaction} (h : queueOrRevertInternal env e tx = .ok e') :
    e.isQueued env.crypto tx = false ∧
      e' = (e.setQueued env.crypto tx true).emit (.QueueTransaction tx) := by
  simp only [queueOrRevertInternal, Executor.queueTransaction, bind_eq_ok, require_eq_ok,
    pure_eq_ok] at h
  obtain ⟨_, hfresh, _, -, _, -, rfl⟩ := h
  exact ⟨hfresh, rfl⟩

theorem cancelTransactions_ok {p : Proposal} (h : cancelTransactions env e p = .ok e') :
    TxQueue.CanceledAll env.crypto (p.actions p.eta) e.toQueue e'.toQueue :=
  .of_loop (ProposalTxs.forEachAction_ok h)

theorem queue_ok {id : Nat} (h : ds.queue env e id = .ok (ds', e')) :
    ds.stateInternal env.toClock id = .ok .Succeeded ∧
      TxQueue.QueuedAll env.crypto ((ds.proposals id).actions (env.timestamp + e.delay)) e.toQueue
        e'.toQueue ∧
      Changed ds ds' id { ds.proposals id with eta := env.timestamp + e.delay } := by
  simp only [queue, bind_eq_ok, require_eq_ok, pure_eq_ok, Prod.mk.injEq] at h
  obtain ⟨_, hstate, _, rfl, e₁, hloop, rfl, rfl⟩ := h
  exact ⟨hstate, .of_loop (fun _ _ _ => queueOrRevertInternal_ok) (ProposalTxs.forEachAction_ok hloop),
    rfl, rfl⟩

theorem cancel_ok {id : Nat} (h : ds.cancel env e sender id = .ok (ds', e')) :
    ∃ s, ds.stateInternal env.toClock id = .ok s ∧
      (s ≠ .Canceled ∧ s ≠ .Defeated ∧ s ≠ .Expired ∧ s ≠ .Executed ∧ s ≠ .Vetoed) ∧
      TxQueue.CanceledAll env.crypto ((ds.proposals id).actions (ds.proposals id).eta) e.toQueue
        e'.toQueue ∧
      Changed ds ds' id { ds.proposals id with canceled := true } := by
  simp only [cancel, bind_eq_ok, revertIf_eq_ok, pure_eq_ok, Prod.mk.injEq, not_or] at h
  obtain ⟨s, hstate, _, hlive, _, -, _, -, _, -, e₁, hloop, rfl, rfl⟩ := h
  exact ⟨s, hstate, hlive, cancelTransactions_ok hloop, rfl, rfl⟩

theorem veto_ok {id : Nat} (h : ds.veto env e sender id = .ok (ds', e')) :
    ∃ s, ds.stateInternal env.toClock id = .ok s ∧ s ≠ .Executed ∧
      TxQueue.CanceledAll env.crypto ((ds.proposals id).actions (ds.proposals id).eta) e.toQueue
        e'.toQueue ∧
      Changed ds ds' id { ds.proposals id with vetoed := true } := by
  simp only [veto, bind_eq_ok, revertIf_eq_ok, pure_eq_ok, Prod.mk.injEq] at h
  obtain ⟨_, -, _, -, s, hstate, _, hs, e₁, hloop, rfl, rfl⟩ := h
  exact ⟨s, hstate, hs, cancelTransactions_ok hloop, rfl, rfl⟩

end StorageV3

/-! ## Steps of the contracts -/

namespace World

open Gov

variable {w w' : World H}

theorem gov_setExecutor (w : World H) (a : Address) (e : Executor H) :
    (w.setExecutor a e).gov = w.gov.setQueue a e.toQueue := by
  have hqueues : (fun b => (Function.update w.executors a e b).toQueue) =
      Function.update (fun b => (w.executors b).toQueue) a e.toQueue := by
    funext b
    by_cases hb : b = a
    · subst hb
      simp
    · simp [hb]
  simp only [gov, setExecutor, setQueue, hqueues]

/-- An executor whose queue is as before. -/
theorem gov_setExecutor_of_toQueue {a : Address} {e : Executor H}
    (h : e.toQueue = (w.executors a).toQueue) : (w.setExecutor a e).gov = w.gov := by
  rw [gov_setExecutor, h]
  simp [setQueue, gov]

theorem gov_of_changed {ds : StorageV3 H} {id : Nat} {p : Proposal}
    (h : StorageV3.Changed w.dao ds id p) :
    ({ w with dao := ds } : World H).gov = w.gov.setProposal id p := by
  simp only [gov, Gov.setProposal, h.store, h.forkEndTimestamp]

theorem gov_of_quiet {ds : StorageV3 H} (h : StorageV3.Quiet w.dao ds) :
    ({ w with dao := ds } : World H).gov = w.gov := by
  simp only [gov, h.1, h.2]

theorem sendValue_gov {from_ to_ : Address} {amount : Nat}
    (h : w.sendValue from_ to_ amount = .ok w') : w'.gov = w.gov ∧ w'.frames = w.frames := by
  simp only [sendValue, bind_eq_ok, pure_eq_ok] at h
  obtain ⟨_, -, rfl⟩ := h
  exact ⟨rfl, rfl⟩

theorem sendToken_gov {erc20token from_ to_ : Address} {amount : Nat}
    (h : w.sendToken erc20token from_ to_ amount = .ok w') : w'.gov = w.gov := by
  simp only [sendToken, bind_eq_ok, pure_eq_ok] at h
  obtain ⟨_, -, rfl⟩ := h
  rfl

theorem withStorage_ok {x : Tx (StorageV3 H)} (h : w.withStorage x = .ok w') :
    ∃ ds, x = .ok ds ∧ w' = { w with dao := ds } := by
  simp only [withStorage, bind_eq_ok, pure_eq_ok] at h
  obtain ⟨ds, hds, rfl⟩ := h
  exact ⟨ds, hds, rfl⟩

theorem withTimelock_ok {id : Nat} {f : StorageV3 H → Executor H → Tx (StorageV3 H × Executor H)}
    (h : w.withTimelock id f = .ok w') :
    ∃ ds e, f w.dao (w.executors (w.gov.ownTimelock id)) = .ok (ds, e) ∧
      w' = ({ w with dao := ds } : World H).setExecutor (w.gov.ownTimelock id) e := by
  simp only [withTimelock, bind_eq_ok, pure_eq_ok] at h
  obtain ⟨⟨ds, e⟩, hf, rfl⟩ := h
  exact ⟨ds, e, hf, rfl⟩

/-- Handing control to outside code, but for an action of a proposal. -/
theorem callOut_gov {callee : Address} {k : Continuation}
    (hk : Frame.execution? ⟨callee, none, k⟩ = none) : (w.callOut callee k).gov = w.gov := by
  simp only [gov, callOut, List.filterMap_cons_none hk]

variable {d : Deployment H}

theorem refundGas_gov {tx : TxContext} (h : w.refundGas d tx = .ok w') : w'.gov = w.gov := by
  simp only [refundGas] at h
  split at h
  · rw [pure_eq_ok.mp h]
  · split at h
    · simp only [bind_eq_ok, pure_eq_ok] at h
      obtain ⟨w₁, hsend, rfl⟩ := h
      rw [callOut_gov rfl, (sendValue_gov hsend).1]
    · rw [← pure_eq_ok.mp h]
      rfl

theorem withdraw_gov {tx : TxContext} {sender : Address} (h : w.withdraw d tx sender = .ok w') :
    w'.gov = w.gov := by
  simp only [withdraw, bind_eq_ok] at h
  obtain ⟨_, -, h⟩ := h
  split at h
  · simp only [bind_eq_ok, pure_eq_ok] at h
    obtain ⟨w₁, hsend, rfl⟩ := h
    rw [callOut_gov rfl, (sendValue_gov hsend).1]
  · rw [← pure_eq_ok.mp h]
    rfl

theorem sendProRataTreasury_gov {payout : Payout} (h : w.sendProRataTreasury d payout = .ok w') :
    w'.gov = w.gov := by
  simp only [sendProRataTreasury, bind_eq_ok, pure_eq_ok] at h
  obtain ⟨_, -, _, -, w₁, hsend, rfl⟩ := h
  rw [callOut_gov rfl, (sendValue_gov hsend).1]

theorem executeFork_gov (h : w.executeFork d = .ok w') : w'.gov = w.gov := by
  simp only [executeFork, bind_eq_ok, pure_eq_ok] at h
  obtain ⟨_, -, _, -, _, -, rfl⟩ := h
  exact callOut_gov rfl

theorem enter_ok {sender callee : Address} (h : w.enter d sender callee = .ok w') :
    ∃ frames, w' = { w with frames } ∧ w'.gov = w.gov := by
  simp only [enter] at h
  split at h
  · simp only [bind_eq_ok, pure_eq_ok] at h
    obtain ⟨_, -, rfl⟩ := h
    exact ⟨w.frames, rfl, rfl⟩
  · rename_i frame frames hframes
    split at h
    · simp only [bind_eq_ok, pure_eq_ok] at h
      obtain ⟨_, -, rfl⟩ := h
      refine ⟨_, rfl, ?_⟩
      simp only [gov, hframes, List.filterMap_cons]
      rfl
    · simp only [bind_eq_ok, pure_eq_ok] at h
      obtain ⟨_, -, rfl⟩ := h
      exact ⟨w.frames, rfl, rfl⟩

theorem callExecutor_gov {a : Address} {sender : Account} {call : ExecutorCall}
    (h : w.callExecutor a sender call = .ok w') : w'.gov = w.gov := by
  simp only [callExecutor, bind_eq_ok, pure_eq_ok] at h
  obtain ⟨e, he, rfl⟩ := h
  refine gov_setExecutor_of_toQueue ?_
  obtain ⟨_, _, rfl⟩ | ⟨_, rfl⟩ | ⟨_, rfl⟩ := Executor.call_cases he
  · rfl
  · rfl
  · rfl

theorem joinFork_gov {sender : Address} {tokenIds proposalIds : List Nat} {reason : String}
    (h : w.joinFork d sender tokenIds proposalIds reason = .ok w') : w'.gov = w.gov := by
  simp only [joinFork, bind_eq_ok] at h
  obtain ⟨_, -, _, -, h⟩ := h
  exact sendProRataTreasury_gov h

theorem OutsideChange.gov_eq (h : OutsideChange d w w') : w'.gov = w.gov := by
  obtain ⟨⟨eth, erc20, outside, rfl⟩, -, -⟩ := h
  rfl

/-! ## Proposals and execution -/

variable [DecidableEq H]

/-- A step that governance does not see is a token step without a change. -/
theorem step_of_gov_eq (l : Label) (h : w'.gov = w.gov) : w.gov.Step d l w'.gov := by
  rw [h]
  exact .token l w.gov.nouns .refl

theorem step_of_nouns {l : Label} {t : Token} (ht : Token.Changes True w.blockNumber w.nouns.toToken t)
    (h : w'.gov = { w.gov with nouns := t }) : w.gov.Step d l w'.gov := by
  rw [h]
  exact .token l t ht

/-- A call that proposes, updates or votes. -/
theorem step_of_proposed {ds : StorageV3 H} {p : Proposal}
    (h : StorageV3.Proposed w.blockNumber w.dao ds p) :
    w.gov.Step d .other ({ w with dao := ds } : World H).gov := by
  have hgov : ({ w with dao := ds } : World H).gov = { w.gov with store := { w.gov.store with
      proposalCount := w.gov.store.proposalCount + 1
      proposals := Function.update w.gov.store.proposals (w.gov.store.proposalCount + 1) p } } := by
    simp only [gov, h.store, h.forkEndTimestamp]
  rw [hgov]
  exact .create p h.created

theorem step_of_ballot {ds : StorageV3 H} {id : Nat} {p : Proposal}
    (hp : w.dao.BallotChange (w.env d).toClock w.nouns.toToken id p)
    (h : StorageV3.Changed w.dao ds id p) :
    w.gov.Step d .other ({ w with dao := ds } : World H).gov := by
  rw [gov_of_changed h]
  exact .ballot id p hp

theorem executeFrom_ok {id i : Nat} {timelock : Address}
    (h : w.executeFrom d id timelock i = .ok w') : w.gov.Continues d id timelock i w'.gov := by
  simp only [executeFrom] at h
  split at h
  · rename_i hi
    simp only [bind_eq_ok, pure_eq_ok, Executor.beginTransaction, require_eq_ok] at h
    obtain ⟨tx, htx, e, ⟨_, -, _, hqueued, _, heta, _, -, rfl⟩, w₁, hsend, rfl⟩ := h
    obtain ⟨hgov, hframes⟩ := sendValue_gov hsend
    have hgov' : ({ w₁ with frames := ⟨tx.target, if d.isContract tx.target then some timelock
        else none, .executeInternal id timelock i tx⟩ :: w₁.frames } : World H).gov =
        { w.gov.setQueue timelock { w.gov.queues timelock with
          queued := Function.update (w.gov.queues timelock).queued (Executor.txHash d.crypto tx)
            false } with executing := ⟨id, timelock, i, tx⟩ :: w.gov.executing } := by
      have hexec : w₁.gov.executing = w.gov.executing := by
        rw [hgov]
        rfl
      have hrest : ({ w₁ with frames := ⟨tx.target, if d.isContract tx.target then some timelock
          else none, .executeInternal id timelock i tx⟩ :: w₁.frames } : World H).gov =
          { w₁.gov with executing := ⟨id, timelock, i, tx⟩ :: w₁.gov.executing } := rfl
      rw [hrest, hgov, gov_setExecutor]
      rfl
    rw [hgov']
    exact .next tx hi htx hqueued heta
  · rename_i hi
    rw [pure_eq_ok] at h
    subst h
    exact .done (Nat.not_lt.mp hi)

theorem executeInternal_ok {id : Nat} {timelock : Address}
    (h : w.executeInternal d id timelock = .ok w') :
    w.gov.Step d (.execute id timelock) w'.gov := by
  simp only [executeInternal, bind_eq_ok, require_eq_ok, revertIf_eq_ok] at h
  obtain ⟨_, hstate, _, rfl, _, hfork, h⟩ := h
  exact .execute id timelock w'.gov hstate hfork (executeFrom_ok h)

/-! ## Payments, forks and the token -/

theorem castRefundableVoteInternal_step {tx : TxContext} {sender : Address} {id support : Nat}
    {reason : String} (h : w.castRefundableVoteInternal d tx sender id support reason = .ok w') :
    w.gov.Step d .other w'.gov := by
  simp only [castRefundableVoteInternal, bind_eq_ok] at h
  obtain ⟨⟨ds, votes⟩, hcast, h⟩ := h
  obtain ⟨p, hp, hstore, hfork⟩ := StorageV3.castVoteInternal_ok hcast
  have hchanged : StorageV3.Changed w.dao (ds.emit (.VoteCast sender id support votes reason)) id p :=
    ⟨hstore, hfork⟩
  have hvote := step_of_ballot (d := d) hp hchanged
  split at h
  · rw [refundGas_gov h]
    exact hvote
  · rw [← pure_eq_ok.mp h]
    exact hvote

theorem escrowToFork_step {l : Label} {sender : Address} {tokenIds proposalIds : List Nat}
    {reason : String} (h : w.escrowToFork d sender tokenIds proposalIds reason = .ok w') :
    w.gov.Step d l w'.gov := by
  simp only [escrowToFork, bind_eq_ok, pure_eq_ok] at h
  obtain ⟨_, -, ⟨nouns, escrow⟩, hloop, rfl⟩ := h
  refine step_of_nouns (t := nouns.toToken) ?_ rfl
  refine foldlM_ok (P := fun s => Token.Changes True w.blockNumber w.nouns.toToken s.1.toToken)
    hloop .refl ?_
  rintro tokenId - ⟨n₁, e₁⟩ ⟨n₂, e₂⟩ hchanges hs
  simp only [bind_eq_ok, pure_eq_ok, Prod.mk.injEq] at hs
  obtain ⟨n, hn, _, -, rfl, -⟩ := hs
  exact hchanges.trans (NounsToken.transferFrom_changes hn)

theorem withdrawFromForkEscrow_step {l : Label} {sender : Address} {tokenIds : List Nat}
    (h : w.withdrawFromForkEscrow d sender tokenIds = .ok w') : w.gov.Step d l w'.gov := by
  simp only [withdrawFromForkEscrow, ForkEscrow.returnTokensToOwner, bind_eq_ok,
    pure_eq_ok] at h
  obtain ⟨_, -, ⟨escrow, nouns⟩, ⟨⟨e, n⟩, hloop, _, -, -, rfl⟩, rfl⟩ := h
  refine step_of_nouns (t := n.toToken) ?_ rfl
  refine foldlM_ok (P := fun s => Token.Changes True w.blockNumber w.nouns.toToken s.2.toToken)
    hloop .refl ?_
  rintro tokenId - ⟨e₁, n₁⟩ ⟨e₂, n₂⟩ hchanges hs
  simp only [bind_eq_ok, pure_eq_ok, Prod.mk.injEq] at hs
  obtain ⟨_, -, n', hn, -, rfl⟩ := hs
  exact hchanges.trans (NounsToken.transferFrom_changes hn)

theorem withdrawDAONounsFromEscrow_step {l : Label} {sender to_ : Address} {tokenIds : List Nat}
    (h : w.withdrawDAONounsFromEscrow d sender tokenIds to_ = .ok w') : w.gov.Step d l w'.gov := by
  simp only [withdrawDAONounsFromEscrow, ForkEscrow.withdrawTokens, bind_eq_ok, pure_eq_ok] at h
  obtain ⟨_, -, nouns, hloop, rfl⟩ := h
  refine step_of_nouns (t := nouns.toToken) ?_ rfl
  refine foldlM_ok (P := fun n => Token.Changes True w.blockNumber w.nouns.toToken n.toToken)
    hloop .refl ?_
  intro tokenId _ n₁ n₂ hchanges hs
  simp only [bind_eq_ok] at hs
  obtain ⟨_, -, hn⟩ := hs
  exact hchanges.trans (NounsToken.transferFrom_changes hn)

theorem joinForkTransfers_step {l : Label} {join : ForkJoin}
    (h : w.joinForkTransfers d join = .ok w') : w.gov.Step d l w'.gov := by
  simp only [joinForkTransfers, bind_eq_ok, pure_eq_ok] at h
  obtain ⟨nouns, hloop, rfl⟩ := h
  rw [callOut_gov rfl]
  refine step_of_nouns (t := nouns.toToken) ?_ rfl
  refine foldlM_ok (P := fun n => Token.Changes True w.blockNumber w.nouns.toToken n.toToken)
    hloop .refl ?_
  intro tokenId _ n₁ n₂ hchanges hn
  exact hchanges.trans (NounsToken.transferFrom_changes hn)

/-- The payout of a fork ends with the fork period, or calls out once more. -/
theorem payERC20_step {l : Label} {payout : Payout} {erc20Count remaining : Nat}
    (hl : ∀ fork a b, payout.purpose = .executeFork fork a b → l = .fork)
    (h : w.payERC20 d payout erc20Count remaining = .ok w') : w.gov.Step d l w'.gov := by
  induction remaining with
  | zero =>
    simp only [payERC20, endPayout] at h
    split at h
    · rename_i fork forkTreasury forkToken hpurpose
      rw [hl _ _ _ hpurpose, ← pure_eq_ok.mp h]
      exact .fork fork.forkEndTimestamp
    · exact joinForkTransfers_step h
  | succ remaining ih =>
    simp only [payERC20] at h
    split at h
    · simp at h
    · split at h
      · simp only [bind_eq_ok, pure_eq_ok] at h
        obtain ⟨_, -, w₁, hsend, rfl⟩ := h
        refine step_of_gov_eq l ?_
        rw [callOut_gov rfl, sendToken_gov hsend]
      · exact ih h

/-! ## All steps -/

theorem callDAO_step {tx : TxContext} {sender : Account} {call : DAOCall}
    (h : w.callDAO d tx sender call = .ok w') :
    w.gov.Step d (w.label (.callDAO tx sender call)) w'.gov := by
  cases call with
  | propose txs description =>
    obtain ⟨ds, hds, rfl⟩ := withStorage_ok h
    obtain ⟨⟨ds, id⟩, hpropose, rfl⟩ := map_eq_ok.mp hds
    obtain ⟨-, p, hp⟩ := StorageV3.propose_ok hpropose
    exact step_of_proposed hp
  | proposeOnTimelockV1 txs description =>
    obtain ⟨ds, hds, rfl⟩ := withStorage_ok h
    obtain ⟨⟨ds, id⟩, hpropose, rfl⟩ := map_eq_ok.mp hds
    obtain ⟨p, hp⟩ := StorageV3.proposeOnTimelockV1_ok hpropose
    exact step_of_proposed hp
  | proposeBySigs signatures txs description =>
    obtain ⟨ds, hds, rfl⟩ := withStorage_ok h
    obtain ⟨⟨ds, id⟩, hpropose, rfl⟩ := map_eq_ok.mp hds
    obtain ⟨p, hp⟩ := StorageV3.proposeBySigs_ok hpropose
    exact step_of_proposed hp
  | cancelSig sig =>
    rw [← pure_eq_ok.mp h]
    exact step_of_gov_eq _ rfl
  | updateProposal id txs description message =>
    obtain ⟨ds, hds, rfl⟩ := withStorage_ok h
    simp only [StorageV3.updateProposal, bind_eq_ok, pure_eq_ok] at hds
    obtain ⟨ds₁, hds₁, rfl⟩ := hds
    obtain ⟨p, hp, hstore, hfork⟩ := StorageV3.updateProposalTransactionsInternal_ok hds₁
    exact step_of_ballot hp ⟨hstore, hfork⟩
  | updateProposalTransactions id txs message =>
    obtain ⟨ds, hds, rfl⟩ := withStorage_ok h
    simp only [StorageV3.updateProposalTransactions, bind_eq_ok, pure_eq_ok] at hds
    obtain ⟨ds₁, hds₁, rfl⟩ := hds
    obtain ⟨p, hp, hstore, hfork⟩ := StorageV3.updateProposalTransactionsInternal_ok hds₁
    exact step_of_ballot hp ⟨hstore, hfork⟩
  | updateProposalDescription id description message =>
    obtain ⟨ds, hds, rfl⟩ := withStorage_ok h
    simp only [StorageV3.updateProposalDescription, bind_eq_ok, pure_eq_ok] at hds
    obtain ⟨_, -, rfl⟩ := hds
    exact step_of_gov_eq _ rfl
  | updateProposalBySigs id signatures txs description message =>
    obtain ⟨ds, hds, rfl⟩ := withStorage_ok h
    obtain ⟨p, hp, hchanged⟩ := StorageV3.updateProposalBySigs_ok hds
    exact step_of_ballot hp hchanged
  | queue id =>
    simp only [callDAO] at h
    obtain ⟨ds, e, hqueue, rfl⟩ := withTimelock_ok h
    obtain ⟨hstate, hqueued, hchanged⟩ := StorageV3.queue_ok hqueue
    rw [gov_setExecutor, gov_of_changed hchanged]
    exact .queue id (w.executors (w.gov.ownTimelock id)).delay e.toQueue hstate hqueued
  | execute id => exact executeInternal_ok h
  | executeOnTimelockV1 id => exact executeInternal_ok h
  | cancel id =>
    simp only [callDAO] at h
    obtain ⟨ds, e, hcancel, rfl⟩ := withTimelock_ok h
    obtain ⟨s, hstate, ⟨h₁, h₂, h₃, h₄, h₅⟩, hcanceled, hchanged⟩ := StorageV3.cancel_ok hcancel
    rw [gov_setExecutor, gov_of_changed hchanged]
    exact .cancel id s e.toQueue hstate h₁ h₂ h₃ h₄ h₅ hcanceled
  | veto id =>
    simp only [callDAO] at h
    obtain ⟨ds, e, hveto, rfl⟩ := withTimelock_ok h
    obtain ⟨s, hstate, hs, hcanceled, hchanged⟩ := StorageV3.veto_ok hveto
    rw [gov_setExecutor, gov_of_changed hchanged]
    exact .veto id s e.toQueue hstate hs hcanceled
  | castVote id support =>
    obtain ⟨ds, hds, rfl⟩ := withStorage_ok h
    obtain ⟨p, hp, hchanged⟩ := StorageV3.castVoteWithReason_ok hds
    exact step_of_ballot hp hchanged
  | castVoteWithReason id support reason =>
    obtain ⟨ds, hds, rfl⟩ := withStorage_ok h
    obtain ⟨p, hp, hchanged⟩ := StorageV3.castVoteWithReason_ok hds
    exact step_of_ballot hp hchanged
  | castVoteBySig id support sig =>
    obtain ⟨ds, hds, rfl⟩ := withStorage_ok h
    simp only [StorageV3.castVoteBySig, bind_eq_ok] at hds
    obtain ⟨_, -, hds⟩ := hds
    obtain ⟨p, hp, hchanged⟩ := StorageV3.castVoteWithReason_ok hds
    exact step_of_ballot hp hchanged
  | castRefundableVote id support => exact castRefundableVoteInternal_step h
  | castRefundableVoteWithReason id support reason => exact castRefundableVoteInternal_step h
  | admin call =>
    obtain ⟨ds, hds, rfl⟩ := withStorage_ok h
    obtain hquiet | ⟨timelock, timelockV1, hstore, hfork⟩ := StorageV3.adminCall_ok hds
    · exact step_of_gov_eq _ (gov_of_quiet hquiet)
    · have hgov : ({ w with dao := ds } : World H).gov =
          { w.gov with store := { w.gov.store with timelock, timelockV1 } } := by
        simp only [gov, hstore, hfork]
      rw [hgov]
      exact .timelocks timelock timelockV1
  | quorum call =>
    obtain ⟨ds, hds, rfl⟩ := withStorage_ok h
    obtain ⟨params, hparams, hstore, hfork⟩ := StorageV3.quorumCall_ok hds
    have hgov : ({ w with dao := ds } : World H).gov = { w.gov with store := { w.gov.store with
        quorumParamsCheckpoints :=
          write w.gov.store.quorumParamsCheckpoints w.gov.blockNumber (call.apply params) } } := by
      simp only [gov, hstore, hfork]
    rw [hgov]
    exact .quorum call params hparams
  | setVoteSnapshotBlockSwitchProposalId =>
    obtain ⟨ds, hds, rfl⟩ := withStorage_ok h
    obtain ⟨hzero, hstore, hfork⟩ := StorageV3.setVoteSnapshotBlockSwitchProposalId_ok hds
    have hgov : ({ w with dao := ds } : World H).gov = { w.gov with store := { w.gov.store with
        voteSnapshotBlockSwitchProposalId := w.gov.store.proposalCount + 1 } } := by
      simp only [gov, hstore, hfork]
    rw [hgov]
    exact .switch hzero
  | withdraw => exact step_of_gov_eq _ (withdraw_gov h)
  | escrowToFork tokenIds proposalIds reason => exact escrowToFork_step h
  | withdrawFromForkEscrow tokenIds => exact withdrawFromForkEscrow_step h
  | executeFork => exact step_of_gov_eq _ (executeFork_gov h)
  | joinFork tokenIds proposalIds reason => exact step_of_gov_eq _ (joinFork_gov h)
  | withdrawDAONounsFromEscrowToTreasury tokenIds => exact withdrawDAONounsFromEscrow_step h
  | withdrawDAONounsFromEscrowIncreasingTotalSupply tokenIds to_ =>
    simp only [callDAO, withdrawDAONounsFromEscrowIncreasingTotalSupply, bind_eq_ok,
      pure_eq_ok] at h
    obtain ⟨_, -, w₁, hw₁, rfl⟩ := h
    have hstep := withdrawDAONounsFromEscrow_step (l := .other) hw₁
    exact hstep

theorem resume_step {forkTreasury forkToken : Address} {frame : Frame} {frames : List Frame}
    (hframes : w.frames = frame :: frames)
    (h : ({ w with frames } : World H).resume d forkTreasury forkToken frame.continuation = .ok w') :
    w.gov.Step d (w.label (.return_ forkTreasury forkToken)) w'.gov := by
  obtain ⟨callee, caller, k⟩ := frame
  have hgov : Frame.execution? ⟨callee, caller, k⟩ = none →
      ({ w with frames } : World H).gov = w.gov := by
    intro hnone
    simp only [gov, hframes, List.filterMap_cons_none hnone]
  cases k with
  | executeInternal proposalId timelock i tx =>
    have hstep := Step.resume (d := d) (g := w.gov) ⟨proposalId, timelock, i, tx⟩
      (frames.filterMap Frame.execution?) w'.gov
      (by simp only [gov, hframes]; rfl)
      (by have hcont := executeFrom_ok h; rwa [gov_setExecutor] at hcont)
    simpa [label, hframes, Frame.isForking, Frame.execution?] using hstep
  | refundGas origin amount =>
    rw [← pure_eq_ok.mp h]
    exact step_of_gov_eq _ (hgov rfl)
  | withdraw amount =>
    rw [← pure_eq_ok.mp h]
    exact step_of_gov_eq _ (hgov rfl)
  | deployForkDAO fork =>
    simp only [resume, bind_eq_ok] at h
    obtain ⟨supply, -, h⟩ := h
    exact step_of_gov_eq _ ((sendProRataTreasury_gov h).trans (hgov rfl))
  | sendETH payout amount =>
    rw [← hgov rfl, ← gov_setExecutor_of_toQueue (w := { w with frames }) (a := payout.timelock)
      (e := (w.executors payout.timelock).emit (.ETHSent payout.newDAOTreasury amount)) rfl]
    refine payERC20_step ?_ h
    intro fork a b hpurpose
    simp [label, hframes, Frame.isForking, hpurpose]
  | sendERC20 payout erc20Count remaining erc20token amount =>
    rw [← hgov rfl, ← gov_setExecutor_of_toQueue (w := { w with frames }) (a := payout.timelock)
      (e := (w.executors payout.timelock).emit
        (.ERC20Sent payout.newDAOTreasury erc20token amount)) rfl]
    refine payERC20_step ?_ h
    intro fork a b hpurpose
    simp [label, hframes, Frame.isForking, hpurpose]
  | claimDuringForkPeriod join =>
    simp only [resume, bind_eq_ok, pure_eq_ok] at h
    obtain ⟨_, -, rfl⟩ := h
    exact step_of_gov_eq _ (hgov rfl)

theorem gov_step {a : Action} (h : w.step d a = .ok w') :
    w.gov.Step d (w.label a) w'.gov := by
  cases a with
  | advance blockNumber timestamp =>
    simp only [step, bind_eq_ok, require_eq_ok, pure_eq_ok] at h
    obtain ⟨_, ⟨hempty, hblock, htime⟩, rfl⟩ := h
    refine Step.advance (d := d) (g := w.gov) blockNumber timestamp ?_ hblock htime
    simp only [gov, List.isEmpty_iff.mp hempty, List.filterMap_nil]
  | callDAO tx sender call =>
    simp only [step, bind_eq_ok] at h
    obtain ⟨w₁, henter, h⟩ := h
    obtain ⟨frames, hw₁, hgov⟩ := enter_ok henter
    have hlabel : w₁.label (.callDAO tx sender call) = w.label (.callDAO tx sender call) := by
      subst hw₁
      cases call <;> rfl
    rw [← hgov, ← hlabel]
    exact callDAO_step h
  | callToken sender call =>
    simp only [step, callToken, bind_eq_ok, pure_eq_ok] at h
    obtain ⟨w₁, henter, nouns, hcall, rfl⟩ := h
    obtain ⟨frames, rfl, hgov⟩ := enter_ok henter
    rw [← hgov]
    exact step_of_nouns (NounsToken.call_changes hcall (fun _ => trivial)) rfl
  | callExecutor a sender call =>
    simp only [step, bind_eq_ok] at h
    obtain ⟨w₁, henter, h⟩ := h
    obtain ⟨frames, -, hgov⟩ := enter_ok henter
    exact step_of_gov_eq _ ((callExecutor_gov h).trans hgov)
  | return_ forkTreasury forkToken =>
    simp only [step] at h
    split at h
    · simp at h
    · rename_i frame frames hframes
      exact resume_step hframes h

/-- Steps of the contracts are steps of the protocol. -/
theorem gov_next {admits : World H → Action → Prop} {admits' : Gov H → Label → Prop}
    (hadmits : ∀ a, admits w a → admits' w.gov (w.label a)) (hother : admits' w.gov .other)
    (h : World.Next d admits w w') : w.gov.Next d admits' w'.gov := by
  cases h with
  | step a ha hstep => exact ⟨_, hadmits a ha, gov_step hstep⟩
  | outside hout => exact ⟨.other, hother, step_of_gov_eq .other hout.gov_eq⟩

/-- Of whatever kind. -/
theorem Next.exists_gov_step {admits : World H → Action → Prop} (h : Next d admits w w') :
    ∃ l, w.gov.Step d l w'.gov := by
  have hn : w.gov.Next d (fun _ _ => True) w'.gov := gov_next (fun _ _ => trivial) trivial h
  obtain ⟨l, -, hstep⟩ := hn
  exact ⟨l, hstep⟩

end World

end Nouns
