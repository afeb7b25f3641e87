import Nouns.Governance.Functions

/-!
# Settings — what the setters leave alone

Every setter checks the bounds of what it writes, if it has any, and none of them touches the
registers of accounts.
-/

open Fallible Checkpoints

namespace Nouns

variable {H : Type}

namespace StorageV3

variable {ds ds' ds₁ ds₂ : StorageV3 H} {sender : Address}

/-- What a setter leaves alone, and what it checks of the settings it writes. -/
structure SettingsStep (ds ds' : StorageV3 H) : Prop where
  latestProposalIds : ds'.latestProposalIds = ds.latestProposalIds
  cancelledSigs : ds'.cancelledSigs = ds.cancelledSigs
  votingDelay : ds'.votingDelay = ds.votingDelay ∨
    MIN_VOTING_DELAY_BLOCKS ≤ ds'.votingDelay ∧ ds'.votingDelay ≤ MAX_VOTING_DELAY_BLOCKS
  votingPeriod : ds'.votingPeriod = ds.votingPeriod ∨
    MIN_VOTING_PERIOD_BLOCKS ≤ ds'.votingPeriod ∧ ds'.votingPeriod ≤ MAX_VOTING_PERIOD_BLOCKS
  erc20s : ds'.erc20TokensToIncludeInFork = ds.erc20TokensToIncludeInFork ∨
    ds'.erc20TokensToIncludeInFork.Nodup

theorem SettingsStep.of_eq (hlatest : ds'.latestProposalIds = ds.latestProposalIds)
    (hsigs : ds'.cancelledSigs = ds.cancelledSigs) (hdelay : ds'.votingDelay = ds.votingDelay)
    (hperiod : ds'.votingPeriod = ds.votingPeriod)
    (herc20s : ds'.erc20TokensToIncludeInFork = ds.erc20TokensToIncludeInFork) :
    SettingsStep ds ds' :=
  ⟨hlatest, hsigs, .inl hdelay, .inl hperiod, .inl herc20s⟩

theorem setErc20TokensToIncludeInFork_settings {l : List Address}
    (h : ds.setErc20TokensToIncludeInFork sender l = .ok ds') : SettingsStep ds ds' := by
  simp only [setErc20TokensToIncludeInFork, checkForDuplicates, bind_eq_ok, pure_eq_ok] at h
  obtain ⟨_, -, _, hdistinct, rfl⟩ := h
  exact ⟨rfl, rfl, .inl rfl, .inl rfl, .inr (nodup_of_checkDistinct hdistinct)⟩

theorem setForkParams_settings {forkEscrow forkDAODeployer : Address} {l : List Address}
    {forkPeriod forkThresholdBPS : Nat}
    (h : ds.setForkParams sender forkEscrow forkDAODeployer l forkPeriod forkThresholdBPS =
      .ok ds') : SettingsStep ds ds' := by
  simp only [setForkParams, setForkEscrow, setForkDAODeployer, setForkPeriod, setForkThresholdBPS,
    bind_eq_ok, pure_eq_ok] at h
  obtain ⟨ds₁, ⟨_, -, rfl⟩, ds₂, ⟨_, -, rfl⟩, ds₃, hds₃, ds₄, ⟨_, -, _, -, _, -, rfl⟩, _, -, rfl⟩ := h
  -- Four of the five calls write nothing that is looked at here.
  have hstep := setErc20TokensToIncludeInFork_settings hds₃
  exact ⟨hstep.latestProposalIds, hstep.cancelledSigs, hstep.votingDelay, hstep.votingPeriod,
    hstep.erc20s⟩

theorem adminCall_settings {c : AdminCall} (h : ds.adminCall sender c = .ok ds') :
    SettingsStep ds ds' := by
  cases c with
  | setVotingDelay v =>
    simp only [adminCall, setVotingDelay, bind_eq_ok, require_eq_ok, pure_eq_ok] at h
    obtain ⟨_, -, _, hbounds, rfl⟩ := h
    exact ⟨rfl, rfl, .inr hbounds, .inl rfl, .inl rfl⟩
  | setVotingPeriod v =>
    simp only [adminCall, setVotingPeriod, bind_eq_ok, require_eq_ok, pure_eq_ok] at h
    obtain ⟨_, -, _, hbounds, rfl⟩ := h
    exact ⟨rfl, rfl, .inl rfl, .inr hbounds, .inl rfl⟩
  | setErc20TokensToIncludeInFork l => exact setErc20TokensToIncludeInFork_settings h
  | setForkParams a b l v w => exact setForkParams_settings h
  | setProposalThresholdBPS v =>
    simp only [adminCall, setProposalThresholdBPS, bind_eq_ok, pure_eq_ok] at h
    obtain ⟨_, -, _, -, rfl⟩ := h
    exact .of_eq rfl rfl rfl rfl rfl
  | setObjectionPeriodDurationInBlocks v =>
    simp only [adminCall, setObjectionPeriodDurationInBlocks, bind_eq_ok, pure_eq_ok] at h
    obtain ⟨_, -, _, -, rfl⟩ := h
    exact .of_eq rfl rfl rfl rfl rfl
  | setLastMinuteWindowInBlocks v =>
    simp only [adminCall, setLastMinuteWindowInBlocks, bind_eq_ok, pure_eq_ok] at h
    obtain ⟨_, -, rfl⟩ := h
    exact .of_eq rfl rfl rfl rfl rfl
  | setProposalUpdatablePeriodInBlocks v =>
    simp only [adminCall, setProposalUpdatablePeriodInBlocks, bind_eq_ok, pure_eq_ok] at h
    obtain ⟨_, -, _, -, rfl⟩ := h
    exact .of_eq rfl rfl rfl rfl rfl
  | setPendingAdmin a =>
    simp only [adminCall, setPendingAdmin, bind_eq_ok, pure_eq_ok] at h
    obtain ⟨_, -, rfl⟩ := h
    exact .of_eq rfl rfl rfl rfl rfl
  | acceptAdmin =>
    simp only [adminCall, acceptAdmin, bind_eq_ok, pure_eq_ok] at h
    obtain ⟨_, -, rfl⟩ := h
    exact .of_eq rfl rfl rfl rfl rfl
  | setPendingVetoer a =>
    simp only [adminCall, setPendingVetoer, bind_eq_ok, pure_eq_ok] at h
    obtain ⟨_, -, rfl⟩ := h
    exact .of_eq rfl rfl rfl rfl rfl
  | acceptVetoer =>
    simp only [adminCall, acceptVetoer, bind_eq_ok, pure_eq_ok] at h
    obtain ⟨_, -, rfl⟩ := h
    exact .of_eq rfl rfl rfl rfl rfl
  | burnVetoPower =>
    simp only [adminCall, burnVetoPower, bind_eq_ok, pure_eq_ok] at h
    obtain ⟨_, -, rfl⟩ := h
    exact .of_eq rfl rfl rfl rfl rfl
  | setForkDAODeployer a =>
    simp only [adminCall, setForkDAODeployer, bind_eq_ok, pure_eq_ok] at h
    obtain ⟨_, -, rfl⟩ := h
    exact .of_eq rfl rfl rfl rfl rfl
  | setForkEscrow a =>
    simp only [adminCall, setForkEscrow, bind_eq_ok, pure_eq_ok] at h
    obtain ⟨_, -, rfl⟩ := h
    exact .of_eq rfl rfl rfl rfl rfl
  | setForkPeriod v =>
    simp only [adminCall, setForkPeriod, bind_eq_ok, pure_eq_ok] at h
    obtain ⟨_, -, _, -, _, -, rfl⟩ := h
    exact .of_eq rfl rfl rfl rfl rfl
  | setForkThresholdBPS v =>
    simp only [adminCall, setForkThresholdBPS, bind_eq_ok, pure_eq_ok] at h
    obtain ⟨_, -, rfl⟩ := h
    exact .of_eq rfl rfl rfl rfl rfl
  | setTimelocksAndAdmin a b e =>
    simp only [adminCall, setTimelocksAndAdmin, bind_eq_ok, pure_eq_ok] at h
    obtain ⟨_, -, rfl⟩ := h
    exact .of_eq rfl rfl rfl rfl rfl

theorem quorumCall_settings {now : Nat} {c : QuorumCall}
    (h : ds.quorumCall sender now c = .ok ds') : SettingsStep ds ds' := by
  cases c with
  | setMinQuorumVotesBPS newMin =>
    simp only [quorumCall, setMinQuorumVotesBPS, bind_eq_ok, pure_eq_ok] at h
    obtain ⟨_, -, params, -, _, -, _, -, ds₁, hw, rfl⟩ := h
    rw [writeQuorumParamsCheckpoint_ok hw]
    exact .of_eq rfl rfl rfl rfl rfl
  | setMaxQuorumVotesBPS newMax =>
    simp only [quorumCall, setMaxQuorumVotesBPS, bind_eq_ok, pure_eq_ok] at h
    obtain ⟨_, -, params, -, _, -, _, -, ds₁, hw, rfl⟩ := h
    rw [writeQuorumParamsCheckpoint_ok hw]
    exact .of_eq rfl rfl rfl rfl rfl
  | setQuorumCoefficient newCoefficient =>
    simp only [quorumCall, setQuorumCoefficient, bind_eq_ok, pure_eq_ok] at h
    obtain ⟨_, -, params, -, ds₁, hw, rfl⟩ := h
    rw [writeQuorumParamsCheckpoint_ok hw]
    exact .of_eq rfl rfl rfl rfl rfl
  | setDynamicQuorumParams newMin newMax newCoefficient =>
    simp only [quorumCall, setDynamicQuorumParams, bind_eq_ok, pure_eq_ok] at h
    obtain ⟨_, -, _, -, _, -, _, -, params, -, ds₁, hw, rfl⟩ := h
    rw [writeQuorumParamsCheckpoint_ok hw]
    exact .of_eq rfl rfl rfl rfl rfl

theorem setVoteSnapshotBlockSwitchProposalId_settings
    (h : ds.setVoteSnapshotBlockSwitchProposalId sender = .ok ds') : SettingsStep ds ds' := by
  simp only [setVoteSnapshotBlockSwitchProposalId, bind_eq_ok, pure_eq_ok] at h
  obtain ⟨_, -, _, -, rfl⟩ := h
  exact .of_eq rfl rfl rfl rfl rfl

end StorageV3

end Nouns
