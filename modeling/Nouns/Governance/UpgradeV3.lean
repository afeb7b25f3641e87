import Nouns.Governance.Genesis
import Nouns.Governance.LogicV2

/-!
# UpgradeV3 — the storage of V2 read by V3

V3 reads the slots that V2 wrote.  Its struct `Proposal` has four fields of 64 bits where V2 has the
creation block, and two more fields at the end, in slots that no function of V2 writes.
-/

open Fallible Checkpoints StorageSlots Transition

namespace Nouns

/-! ## The view of V3 -/

/-- The struct `StorageV3`. -/
def DAOField.declaredV3 : List (DAOField × Nat) :=
  declaredV2 ++
    [(cancelledSigs, 256), (lastMinuteWindowInBlocks, 32), (objectionPeriodDurationInBlocks, 32),
      (proposalUpdatablePeriodInBlocks, 32), (forkEscrow, 160), (forkDAODeployer, 160),
      (erc20TokensToIncludeInFork, 256), (forkDAOTreasury, 160), (forkDAOToken, 160),
      (forkEndTimestamp, 256), (forkPeriod, 256), (forkThresholdBPS, 256), (timelockV1, 160),
      (voteSnapshotBlockSwitchProposalId, 256)]

/-- The struct `Proposal` of `NounsDAOStorageV3`. -/
def ProposalField.declaredV3 : List (ProposalField × Nat) :=
  [(id, 256), (proposer, 160), (proposalThreshold, 256), (quorumVotes, 256), (eta, 256),
    (targets, 256), (values, 256), (signatures, 256), (calldatas, 256), (startBlock, 256),
    (endBlock, 256), (forVotes, 256), (againstVotes, 256), (abstainVotes, 256), (canceled, 8),
    (vetoed, 8), (executed, 8), (receipts, 256), (totalSupply, 256), (creationBlock, 64),
    (updatePeriodEndBlock, 64), (objectionPeriodEndBlock, 64), (placeholder, 64), (signers, 256),
    (executeOnTimelockV1, 8)]

namespace SlotsV3

def fieldAt (f : DAOField) : Position := position DAOField.declaredV3 f

def proposalFieldAt (f : ProposalField) : Position := position ProposalField.declaredV3 f

/-- The struct of a proposal. -/
def proposal (id : Nat) : Region := .entry .fixed (fieldAt .proposals).slot id

def receipt (id : Nat) (voter : Address) : Region :=
  .entry (proposal id) (proposalFieldAt .receipts).slot voter.toWord

def checkpoints : Region := .data .fixed (fieldAt .quorumParamsCheckpoints).slot

end SlotsV3

open SlotsV3

def Proposal.ofSlots (σ : Slots) (id : Nat) : Proposal :=
  let field := fun f => get σ (proposal id) (proposalFieldAt f)
  { getTxs σ (proposal id) (proposalFieldAt .targets).slot (proposalFieldAt .values).slot
      (proposalFieldAt .signatures).slot (proposalFieldAt .calldatas).slot with
    id := field .id
    proposer := .ofWord (field .proposer)
    proposalThreshold := field .proposalThreshold
    quorumVotes := field .quorumVotes
    eta := field .eta
    startBlock := field .startBlock
    endBlock := field .endBlock
    forVotes := field .forVotes
    againstVotes := field .againstVotes
    abstainVotes := field .abstainVotes
    canceled := field .canceled ≠ 0
    vetoed := field .vetoed ≠ 0
    executed := field .executed ≠ 0
    receipts := fun voter => getReceipt σ (receipt id voter)
    totalSupply := field .totalSupply
    creationBlock := field .creationBlock
    updatePeriodEndBlock := field .updatePeriodEndBlock
    objectionPeriodEndBlock := field .objectionPeriodEndBlock
    signers := getArray getAddress σ (proposal id) (proposalFieldAt .signers).slot
    executeOnTimelockV1 := field .executeOnTimelockV1 ≠ 0 }

def ProposalStorage.ofSlots (σ : Slots) : ProposalStorage :=
  let field := fun f => get σ .fixed (fieldAt f)
  { quorumVotesBPS := field .quorumVotesBPS
    proposalCount := field .proposalCount
    timelock := .ofWord (field .timelock)
    timelockV1 := .ofWord (field .timelockV1)
    proposals := Proposal.ofSlots σ
    quorumParamsCheckpoints := (List.range (field .quorumParamsCheckpoints)).map
      (getCheckpoint σ checkpoints)
    voteSnapshotBlockSwitchProposalId := field .voteSnapshotBlockSwitchProposalId }

/-! ## What V2 does not write -/

/-- The slots behind the struct of V2 were never written.  They are zero in new storage and in that
of V1, whose struct ends earlier. -/
def StartV2 (σ : Slots) : Prop := ∀ id slot, 18 ≤ slot → σ (SlotsV2.proposal id) slot = 0

/-- A call of V2 at any time, with any token and any timelock. -/
def NextV2 (H : Type) [DecidableEq H] (σ σ' : Slots) : Prop :=
  ∃ (env : EnvV2 H) (sender : Account) (e : Executor H) (c : CallV2),
    SlotsV2.call σ env sender e c = .ok σ'

namespace SlotsV2

/-- The structs of proposals are as before from slot `n` on. -/
def Spares (n : Nat) (σ σ' : Slots) : Prop :=
  ∀ id slot, n ≤ slot → σ' (proposal id) slot = σ (proposal id) slot

variable {n : Nat} {σ σ' σ₁ σ₂ : Slots}

theorem Spares.trans (h : Spares n σ σ₁) (h' : Spares n σ₁ σ₂) : Spares n σ σ₂ :=
  fun id slot hslot => (h' id slot hslot).trans (h id slot hslot)

theorem Spares.mono {m : Nat} (h : Spares n σ σ') (hle : n ≤ m) : Spares m σ σ' :=
  fun id slot hslot => h id slot (Nat.le_trans hle hslot)

theorem Spares.of_elsewhere {r : Region} {slot : Nat} (h : Leaves r slot σ σ')
    (hr : ∀ id, r ≠ proposal id) : Spares n σ σ' :=
  fun id _ _ => h _ _ (fun _ _ hp => nomatch hp) (.inl (fun h => hr id h.symm))

theorem Spares.of_before {r : Region} {slot : Nat} (h : Leaves r slot σ σ') (hslot : slot < n) :
    Spares n σ σ' :=
  fun _ _ hi => h _ _ (fun _ _ hp => nomatch hp) (.inr (by omega))

theorem setField_spares (σ : Slots) (f : DAOField) (value : Nat) :
    Spares n σ (setField σ f value) :=
  .of_elsewhere (set_leaves σ _ _ _) (fun _ h => nomatch h)

theorem setProposalField_spares (σ : Slots) (id : Nat) {f : ProposalField} (value : Nat)
    (hf : (proposalFieldAt f).slot < n) : Spares n σ (setProposalField σ id f value) :=
  .of_before (set_leaves σ _ _ _) hf

theorem setProposalFields_spares (σ : Slots) (id : Nat) {values : List (ProposalField × Nat)}
    (hvalues : ∀ f ∈ values.map Prod.fst, (proposalFieldAt f).slot < n) :
    Spares n σ (setProposalFields σ id values) := by
  induction values generalizing σ with
  | nil => exact fun _ _ _ => rfl
  | cons v values ih =>
    rw [List.map_cons, List.forall_mem_cons] at hvalues
    exact (setProposalField_spares σ id v.2 hvalues.1).trans (ih _ hvalues.2)

theorem setTxs_spares (σ : Slots) (id : Nat) (txs : ProposalTxs) :
    Spares 17 σ (setTxs σ id txs) := by
  have htargets := setArray_leaves (fun σ r i a => write_leaves σ r i (Address.toWord a)) σ
    (proposal id) (proposalFieldAt .targets).slot txs.targets
  have hvalues := fun σ => setArray_leaves write_leaves σ (proposal id)
    (proposalFieldAt .values).slot txs.values
  have hstring : ∀ σ r i s, Leaves r i σ (setString σ r i s) := fun σ r i s =>
    setBytes_leaves σ r i _
  have hsignatures := fun σ => setArray_leaves hstring σ (proposal id)
    (proposalFieldAt .signatures).slot txs.signatures
  have hcalldatas := fun σ => setArray_leaves setBytes_leaves σ (proposal id)
    (proposalFieldAt .calldatas).slot txs.calldatas
  refine (Spares.of_before htargets (by decide)).trans ?_
  refine (Spares.of_before (hvalues _) (by decide)).trans ?_
  refine (Spares.of_before (hsignatures _) (by decide)).trans ?_
  exact .of_before (hcalldatas _) (by decide)

theorem setParams_spares (σ : Slots) (base : Nat) (params : DynamicQuorumParams) :
    Spares n σ (setParams σ checkpoints base params) := by
  have hset : ∀ σ p value, Spares n σ (set σ checkpoints p value) := fun σ p value =>
    .of_elsewhere (set_leaves σ checkpoints p value) (fun _ h => nomatch h)
  exact ((hset _ _ _).trans (hset _ _ _)).trans (hset _ _ _)

theorem setReceipt_spares (σ : Slots) (id : Nat) (voter : Address) (support votes : Nat) :
    Spares n σ (setReceipt σ (receipt id voter) support votes) := by
  -- Entries of the mapping `receipts` are regions of their own, two levels down.
  have hset : ∀ σ p value, Spares n σ (set σ (receipt id voter) p value) := fun σ p value =>
    .of_elsewhere (set_leaves σ (receipt id voter) p value) (fun _ h => nomatch h)
  exact ((hset _ _ _).trans (hset _ _ _)).trans (hset _ _ _)

variable {H : Type} {env : EnvV2 H} {sender : Address}

theorem writeQuorumParamsCheckpoint_spares {params : DynamicQuorumParams}
    (h : writeQuorumParamsCheckpoint σ env params = .ok σ') : Spares n σ σ' := by
  obtain ⟨blockNumber, -, h⟩ := bind_eq_ok.mp h
  dsimp only at h
  split at h
  · rw [← pure_eq_ok.mp h]
    exact setParams_spares _ _ _
  · rw [← pure_eq_ok.mp h]
    refine Spares.trans ?_ (setParams_spares _ _ _)
    exact (setField_spares _ _ _).trans (.of_elsewhere (set_leaves _ _ _ _) (fun _ h => nomatch h))

theorem setDynamicQuorumParams_spares {newMin newMax newCoefficient : Nat}
    (h : setDynamicQuorumParams σ env sender newMin newMax newCoefficient = .ok σ') :
    Spares n σ σ' := by
  simp only [setDynamicQuorumParams, bind_eq_ok] at h
  obtain ⟨_, -, _, -, _, -, _, -, _, -, h⟩ := h
  exact writeQuorumParamsCheckpoint_spares h

theorem quorumCall_spares {c : QuorumCall} (h : quorumCall σ env sender c = .ok σ') :
    Spares n σ σ' := by
  cases c with
  | setMinQuorumVotesBPS newMin =>
    simp only [quorumCall, setMinQuorumVotesBPS, bind_eq_ok] at h
    obtain ⟨_, -, _, -, _, -, _, -, h⟩ := h
    exact writeQuorumParamsCheckpoint_spares h
  | setMaxQuorumVotesBPS newMax =>
    simp only [quorumCall, setMaxQuorumVotesBPS, bind_eq_ok] at h
    obtain ⟨_, -, _, -, _, -, _, -, h⟩ := h
    exact writeQuorumParamsCheckpoint_spares h
  | setQuorumCoefficient newCoefficient =>
    simp only [quorumCall, setQuorumCoefficient, bind_eq_ok] at h
    obtain ⟨_, -, _, -, h⟩ := h
    exact writeQuorumParamsCheckpoint_spares h
  | setDynamicQuorumParams newMin newMax newCoefficient => exact setDynamicQuorumParams_spares h

theorem initializeBy_spares {timelock nouns vetoer : Address}
    {votingPeriod votingDelay proposalThresholdBPS : Nat} {params : DynamicQuorumParams}
    (h : initializeBy σ env sender timelock nouns vetoer votingPeriod votingDelay
      proposalThresholdBPS params = .ok σ') : Spares n σ σ' := by
  simp only [initializeBy, bind_eq_ok] at h
  obtain ⟨_, -, _, -, _, -, _, -, _, -, _, -, _, -, h⟩ := h
  refine Spares.trans ?_ (setDynamicQuorumParams_spares h)
  refine Spares.trans ?_ (setField_spares _ _ _)
  refine Spares.trans ?_ (setField_spares _ _ _)
  refine Spares.trans ?_ (setField_spares _ _ _)
  refine Spares.trans ?_ (setField_spares _ _ _)
  exact (setField_spares _ _ _).trans (setField_spares _ _ _)

/-- The creation block is the last field that is written. -/
theorem propose_spares {txs : ProposalTxs} (h : propose σ env sender txs = .ok σ') :
    ∃ σ₁ proposalId, Spares 17 σ σ₁ ∧
      Spares 17 (setProposalField σ₁ proposalId .creationBlock env.blockNumber) σ' := by
  simp only [propose, bind_eq_ok, pure_eq_ok] at h
  obtain ⟨_, -, _, -, _, -, _, -, _, -, _, -, startBlock, -, endBlock, -, proposalId, -, _, -, rfl⟩ := h
  have hfirst : ∀ σ threshold, Spares 17 σ (setProposalFields σ proposalId
      [(.id, proposalId), (.proposer, sender.toWord), (.proposalThreshold, threshold),
        (.eta, 0)]) := by
    intro σ threshold
    refine setProposalFields_spares σ proposalId ?_
    simp only [List.map_cons, List.map_nil]
    decide
  have hearlier : ∀ σ, Spares 17 σ (setProposalFields σ proposalId
      [(.startBlock, startBlock), (.endBlock, endBlock), (.forVotes, 0), (.againstVotes, 0),
        (.abstainVotes, 0), (.canceled, 0), (.executed, 0), (.vetoed, 0),
        (.totalSupply, env.nouns.totalSupply)]) := by
    intro σ
    refine setProposalFields_spares σ proposalId ?_
    simp only [List.map_cons, List.map_nil]
    decide
  refine ⟨_, proposalId, ?_, .of_elsewhere (write_leaves _ _ _ _) fun _ h => ?_⟩
  · refine Spares.trans ?_ (hearlier _)
    refine Spares.trans ?_ (setTxs_spares _ _ _)
    exact (setField_spares _ _ _).trans (hfirst _ _)
  · cases h

theorem castVote_spares {proposalId support : Nat}
    (h : castVote σ env sender proposalId support = .ok σ') : Spares 17 σ σ' := by
  simp only [castVote, castVoteInternal, map_eq_ok, bind_eq_ok, pure_eq_ok] at h
  obtain ⟨_, ⟨_, -, _, -, _, -, _, -, _, -, votes, -, σ₁, hcount, rfl⟩, rfl⟩ := h
  refine Spares.trans ?_ (setReceipt_spares _ _ _ _ _)
  simp only [countVotes] at hcount
  split_ifs at hcount
  · obtain ⟨_, -, hcount⟩ := bind_eq_ok.mp hcount
    rw [← pure_eq_ok.mp hcount]
    exact setProposalField_spares _ _ _ (by decide)
  · obtain ⟨_, -, hcount⟩ := bind_eq_ok.mp hcount
    rw [← pure_eq_ok.mp hcount]
    exact setProposalField_spares _ _ _ (by decide)
  · obtain ⟨_, -, hcount⟩ := bind_eq_ok.mp hcount
    rw [← pure_eq_ok.mp hcount]
    exact setProposalField_spares _ _ _ (by decide)
  · rw [← pure_eq_ok.mp hcount]
    exact fun _ _ _ => rfl

theorem setInRange_spares {f : DAOField} {value lower upper : Nat} {reason : String}
    (h : setInRange σ sender f value lower upper reason = .ok σ') : Spares n σ σ' := by
  simp only [setInRange, bind_eq_ok, pure_eq_ok] at h
  obtain ⟨_, -, _, -, rfl⟩ := h
  exact setField_spares _ _ _

/-- A call leaves the last fields of all structs alone, or creates a proposal. -/
theorem call_spares [DecidableEq H] {e : Executor H} {c : CallV2}
    (h : call σ env sender e c = .ok σ') :
    Spares 17 σ σ' ∨ ∃ txs, propose σ env sender txs = .ok σ' := by
  cases c with
  | initializeBy _ _ _ _ _ _ _ => exact .inl (initializeBy_spares h)
  | propose txs => exact .inr ⟨txs, h⟩
  | queue id =>
    simp only [call, queue, map_eq_ok, bind_eq_ok, pure_eq_ok] at h
    obtain ⟨_, ⟨_, -, _, -, _, -, _, -, rfl⟩, rfl⟩ := h
    exact .inl (setProposalField_spares _ _ _ (by decide))
  | execute id =>
    simp only [call, execute, bind_eq_ok, pure_eq_ok] at h
    obtain ⟨_, -, _, -, rfl⟩ := h
    exact .inl (setProposalField_spares _ _ _ (by decide))
  | cancel id =>
    simp only [call, cancel, map_eq_ok, bind_eq_ok, pure_eq_ok] at h
    obtain ⟨_, ⟨_, -, _, -, _, -, _, -, rfl⟩, rfl⟩ := h
    exact .inl (setProposalField_spares _ _ _ (by decide))
  | veto id =>
    simp only [call, veto, map_eq_ok, bind_eq_ok, pure_eq_ok] at h
    obtain ⟨_, ⟨_, -, _, -, _, -, _, -, _, -, rfl⟩, rfl⟩ := h
    exact .inl (setProposalField_spares _ _ _ (by decide))
  | castVote id support => exact .inl (castVote_spares h)
  | castVoteBySig id support sig =>
    obtain ⟨_, -, h⟩ := bind_eq_ok.mp h
    exact .inl (castVote_spares h)
  | setVotingDelay value => exact .inl (setInRange_spares h)
  | setVotingPeriod value => exact .inl (setInRange_spares h)
  | setProposalThresholdBPS value => exact .inl (setInRange_spares h)
  | quorum c => exact .inl (quorumCall_spares h)
  | setPendingAdmin a =>
    simp only [call, setPendingAdmin, bind_eq_ok, pure_eq_ok] at h
    obtain ⟨_, -, rfl⟩ := h
    exact .inl (setField_spares _ _ _)
  | acceptAdmin =>
    simp only [call, acceptAdmin, bind_eq_ok, pure_eq_ok] at h
    obtain ⟨_, -, rfl⟩ := h
    exact .inl ((setField_spares _ _ _).trans (setField_spares _ _ _))
  | setPendingVetoer a =>
    simp only [call, setPendingVetoer, bind_eq_ok, pure_eq_ok] at h
    obtain ⟨_, -, rfl⟩ := h
    exact .inl (setField_spares _ _ _)
  | acceptVetoer =>
    simp only [call, acceptVetoer, bind_eq_ok, pure_eq_ok] at h
    obtain ⟨_, -, rfl⟩ := h
    exact .inl ((setField_spares _ _ _).trans (setField_spares _ _ _))
  | burnVetoPower =>
    simp only [call, burnVetoPower, bind_eq_ok, pure_eq_ok] at h
    obtain ⟨_, -, rfl⟩ := h
    exact .inl ((setField_spares _ _ _).trans (setField_spares _ _ _))

theorem call_spares_end [DecidableEq H] {e : Executor H} {c : CallV2}
    (h : call σ env sender e c = .ok σ') : Spares 18 σ σ' := by
  rcases call_spares h with hspares | ⟨txs, hpropose⟩
  · exact hspares.mono (by decide)
  · obtain ⟨σ₁, proposalId, hearlier, hlater⟩ := propose_spares hpropose
    have hcreation := setProposalField_spares (n := 18) σ₁ proposalId
      (f := .creationBlock) env.blockNumber (by decide)
    exact ((hearlier.mono (by decide)).trans hcreation).trans (hlater.mono (by decide))

/-- Proposals keep their creation block, and a new one has the current block. -/
theorem call_creationBlock [DecidableEq H] {e : Executor H} {c : CallV2}
    (h : call σ env sender e c = .ok σ') (id : Nat) :
    (ProposalV2.ofSlots σ' id).creationBlock = (ProposalV2.ofSlots σ id).creationBlock ∨
      (ProposalV2.ofSlots σ' id).creationBlock = env.blockNumber % 2 ^ 256 := by
  have hread : ∀ {σ σ' : Slots}, Spares 17 σ σ' →
      (ProposalV2.ofSlots σ' id).creationBlock = (ProposalV2.ofSlots σ id).creationBlock := by
    intro σ σ' hspares
    simp only [ProposalV2.ofSlots, StorageSlots.get]
    rw [hspares id _ (by decide)]
  rcases call_spares h with hspares | ⟨txs, hpropose⟩
  · exact .inl (hread hspares)
  · obtain ⟨σ₁, proposalId, hearlier, hlater⟩ := propose_spares hpropose
    rw [hread hlater]
    by_cases hid : id = proposalId
    · subst hid
      exact .inr (get_set σ₁ _ (by decide) env.blockNumber)
    · -- The write is to the struct of another proposal.
      left
      rw [← hread hearlier]
      have hne : proposal id ≠ proposal proposalId := fun heq => hid (Region.entry.inj heq).2.2
      have hslot := set_leaves σ₁ (proposal proposalId) (proposalFieldAt .creationBlock)
        env.blockNumber (proposal id) (proposalFieldAt .creationBlock).slot (fun _ _ hp => nomatch hp)
        (.inl hne)
      simp only [ProposalV2.ofSlots, StorageSlots.get, setProposalField]
      rw [hslot]

/-- In a run of V2 the slots behind its struct stay zero. -/
theorem startV2_of_reachable [DecidableEq H] (h : Reachable StartV2 (NextV2 H) σ) : StartV2 σ := by
  refine h.invariant (fun _ hstart => hstart) ?_
  rintro σ σ' - hσ ⟨env, sender, e, c, hcall⟩ id slot hslot
  rw [call_spares_end hcall id slot hslot]
  exact hσ id slot hslot

end SlotsV2

/-! ## The two views -/

namespace SlotsV3

theorem fieldAt_eq {f : DAOField} (h : f ∈ DAOField.declaredV2.map Prod.fst) :
    fieldAt f = SlotsV2.fieldAt f := by
  revert h
  cases f <;> decide

/-- The fields of both structs are at the same places, but for the one that V3 narrows. -/
theorem proposalFieldAt_eq {f : ProposalField} (h : f ∈ ProposalField.declaredV2.map Prod.fst)
    (hne : f ≠ .creationBlock) : proposalFieldAt f = SlotsV2.proposalFieldAt f := by
  revert h hne
  cases f <;> decide

theorem proposal_eq (id : Nat) : proposal id = SlotsV2.proposal id := by
  rw [proposal, fieldAt_eq (by decide), SlotsV2.proposal]

theorem receipt_eq (id : Nat) (voter : Address) : receipt id voter = SlotsV2.receipt id voter := by
  rw [receipt, proposal_eq, proposalFieldAt_eq (by decide) (by decide), SlotsV2.receipt]

theorem checkpoints_eq : checkpoints = SlotsV2.checkpoints := by
  rw [checkpoints, fieldAt_eq (by decide), SlotsV2.checkpoints]

end SlotsV3

/-- The proposal as V3 has it: nothing of V2 can be updated or objected to, or has signers. -/
def ProposalV2.toV3 (p : ProposalV2) : Proposal where
  toProposalTxs := p.toProposalTxs
  id := p.id
  proposer := p.proposer
  proposalThreshold := p.proposalThreshold
  quorumVotes := p.quorumVotes
  eta := p.eta
  startBlock := p.startBlock
  endBlock := p.endBlock
  forVotes := p.forVotes
  againstVotes := p.againstVotes
  abstainVotes := p.abstainVotes
  canceled := p.canceled
  vetoed := p.vetoed
  executed := p.executed
  receipts := p.receipts
  totalSupply := p.totalSupply
  creationBlock := p.creationBlock
  updatePeriodEndBlock := 0
  objectionPeriodEndBlock := 0
  signers := []
  executeOnTimelockV1 := false

variable {σ : Slots} {id : Nat}

theorem Proposal.ofSlots_eq (hσ : StartV2 σ)
    (hblock : (ProposalV2.ofSlots σ id).creationBlock < 2 ^ 64) :
    Proposal.ofSlots σ id = (ProposalV2.ofSlots σ id).toV3 := by
  -- The creation block leaves the rest of its slot zero, where V3 has three more fields.
  have hcreationAt : SlotsV2.proposalFieldAt .creationBlock = ⟨17, 0, 256⟩ := by decide
  have hlt : bits (σ (SlotsV2.proposal id) 17) 0 256 < 2 ^ 64 := by
    simp only [ProposalV2.ofSlots, hcreationAt] at hblock
    exact hblock
  obtain ⟨hnarrow, hrest⟩ := bits_of_lt (by decide) hlt
  have hcreation : get σ (SlotsV2.proposal id) (proposalFieldAt .creationBlock) =
      get σ (SlotsV2.proposal id) (SlotsV2.proposalFieldAt .creationBlock) := by
    rw [hcreationAt, show proposalFieldAt .creationBlock = ⟨17, 0, 64⟩ by decide]
    exact hnarrow
  have hupdate : get σ (SlotsV2.proposal id) (proposalFieldAt .updatePeriodEndBlock) = 0 := by
    rw [show proposalFieldAt .updatePeriodEndBlock = ⟨17, 64, 64⟩ by decide]
    exact hrest 64 64 (by decide) (by decide)
  have hobjection : get σ (SlotsV2.proposal id) (proposalFieldAt .objectionPeriodEndBlock) = 0 := by
    rw [show proposalFieldAt .objectionPeriodEndBlock = ⟨17, 128, 64⟩ by decide]
    exact hrest 128 64 (by decide) (by decide)
  -- The other new fields are in slots of their own.
  have hsigners : σ (SlotsV2.proposal id) (proposalFieldAt .signers).slot = 0 :=
    hσ id _ (by decide)
  have hflag : get σ (SlotsV2.proposal id) (proposalFieldAt .executeOnTimelockV1) = 0 := by
    rw [StorageSlots.get, hσ id _ (by decide)]
    exact Nat.zero_mod _
  simp (disch := decide) only [Proposal.ofSlots, ProposalV2.ofSlots, ProposalV2.toV3, proposal_eq,
    receipt_eq, proposalFieldAt_eq, hcreation, hupdate, hobjection, hflag, getArray, hsigners]
  rfl

/-- What the proposals of V3 need of the slots. -/
structure Upgradable (σ : Slots) : Prop where
  unwritten : StartV2 σ
  creationBlock : ∀ id, (ProposalV2.ofSlots σ id).creationBlock < 2 ^ 64

namespace Upgradable

variable (hσ : Upgradable σ)
include hσ

theorem proposal (id : Nat) :
    (ProposalStorage.ofSlots σ).proposals id = ((StorageV2.ofSlots σ).proposals id).toV3 :=
  Proposal.ofSlots_eq hσ.unwritten (hσ.creationBlock id)

omit hσ in
theorem getDynamicQuorumParamsAt_eq (blockNumber : Nat) :
    (ProposalStorage.ofSlots σ).getDynamicQuorumParamsAt blockNumber =
      (StorageV2.ofSlots σ).getDynamicQuorumParamsAt blockNumber := by
  have hcheckpoints : (ProposalStorage.ofSlots σ).quorumParamsCheckpoints =
      (StorageV2.ofSlots σ).quorumParamsCheckpoints := by
    simp (disch := decide) only [ProposalStorage.ofSlots, StorageV2.ofSlots, fieldAt_eq,
      checkpoints_eq]
  have hdefault : (ProposalStorage.ofSlots σ).defaultQuorumParams =
      (StorageV2.ofSlots σ).defaultQuorumParams := by
    simp (disch := decide) only [ProposalStorage.defaultQuorumParams,
      StorageV2.defaultQuorumParams, ProposalStorage.ofSlots, StorageV2.ofSlots, fieldAt_eq]
  unfold ProposalStorage.getDynamicQuorumParamsAt StorageV2.getDynamicQuorumParamsAt
  apply bind_congr
  intro n
  rw [hcheckpoints]
  cases lookup (StorageV2.ofSlots σ).quorumParamsCheckpoints n with
  | some params => rfl
  | none => exact hdefault

theorem quorumVotes_eq (id : Nat) :
    (ProposalStorage.ofSlots σ).quorumVotes id = (StorageV2.ofSlots σ).quorumVotes id := by
  simp only [ProposalStorage.quorumVotes, StorageV2.quorumVotes, hσ.proposal, ProposalV2.toV3,
    getDynamicQuorumParamsAt_eq]

theorem isDefeated_eq (p : ProposalV2) :
    (ProposalStorage.ofSlots σ).isDefeated p.toV3 = (StorageV2.ofSlots σ).isDefeated p := by
  simp only [ProposalStorage.isDefeated, StorageV2.isDefeated, ProposalV2.toV3, hσ.quorumVotes_eq]
  rfl

/-- The two branches of V3 that V2 lacks end at block 0 for every proposal. -/
theorem state_eq (clock : Clock) (hblock : clock.blockNumber ≠ 0) (id : Nat) :
    (ProposalStorage.ofSlots σ).stateInternal clock id =
      ProposalStateV2.toV3 <$> (StorageV2.ofSlots σ).state clock id := by
  have hcount : (ProposalStorage.ofSlots σ).proposalCount = (StorageV2.ofSlots σ).proposalCount := by
    simp (disch := decide) only [ProposalStorage.ofSlots, StorageV2.ofSlots, fieldAt_eq]
  have htimelock : (ProposalStorage.ofSlots σ).timelock = (StorageV2.ofSlots σ).timelock := by
    simp (disch := decide) only [ProposalStorage.ofSlots, StorageV2.ofSlots, fieldAt_eq]
  have hzero : ¬ clock.blockNumber ≤ 0 := by omega
  have hgrace : ∀ p : ProposalV2, (ProposalStorage.ofSlots σ).getProposalTimelock p.toV3 =
      (StorageV2.ofSlots σ).timelock := fun p => htimelock
  simp only [ProposalStorage.stateInternal, StorageV2.state, hσ.proposal, hσ.isDefeated_eq, hcount,
    hgrace, map_bind, map_pure, apply_ite (ProposalStateV2.toV3 <$> ·)]
  simp only [ProposalV2.toV3, hzero, if_false, ProposalStateV2.toV3]
  rfl

end Upgradable

/-- After the upgrade V3 reads the proposals that V2 wrote as V2 did. -/
theorem upgrade_keeps_proposals {H : Type} [DecidableEq H]
    (hr : Reachable StartV2 (NextV2 H) σ)
    (hblocks : ∀ id, (ProposalV2.ofSlots σ id).creationBlock < 2 ^ 64) (id : Nat) :
    (∀ clock : Clock, clock.blockNumber ≠ 0 →
      (ProposalStorage.ofSlots σ).stateInternal clock id =
        ProposalStateV2.toV3 <$> (StorageV2.ofSlots σ).state clock id) ∧
    (ProposalStorage.ofSlots σ).quorumVotes id = (StorageV2.ofSlots σ).quorumVotes id ∧
    ((ProposalStorage.ofSlots σ).proposals id).toProposalTxs =
      ((StorageV2.ofSlots σ).proposals id).toProposalTxs ∧
    ((ProposalStorage.ofSlots σ).proposals id).receipts =
      ((StorageV2.ofSlots σ).proposals id).receipts ∧
    ((ProposalStorage.ofSlots σ).proposals id).signers = [] := by
  have hσ : Upgradable σ := ⟨SlotsV2.startV2_of_reachable hr, hblocks⟩
  refine ⟨fun clock hblock => hσ.state_eq clock hblock id, hσ.quorumVotes_eq id, ?_, ?_, ?_⟩
  · rw [hσ.proposal]
    rfl
  · rw [hσ.proposal]
    rfl
  · rw [hσ.proposal]
    rfl

/-! ## A run of V2 -/

namespace SlotsV2

variable {H : Type} [DecidableEq H] {σ σ' : Slots} {e : Executor H}
  {calls : List (EnvV2 H × Account × CallV2)}

/-- The calls one after the other, each at its time. -/
def run (σ : Slots) (e : Executor H) (calls : List (EnvV2 H × Account × CallV2)) : Tx Slots :=
  calls.foldlM (fun σ c => call σ c.1 c.2.1 e c.2.2) σ

theorem reachable_of_run (hσ : StartV2 σ) (h : run σ e calls = .ok σ') :
    Reachable StartV2 (NextV2 H) σ' := by
  refine foldlM_ok (P := Reachable StartV2 (NextV2 H)) h (.start hσ) ?_
  intro c _ σ₁ σ₂ hr hcall
  exact hr.step ⟨c.1, c.2.1, e, c.2.2, hcall⟩

theorem creationBlock_lt_of_run (hσ : ∀ id, (ProposalV2.ofSlots σ id).creationBlock < 2 ^ 64)
    (hblocks : ∀ c ∈ calls, c.1.blockNumber < 2 ^ 64) (h : run σ e calls = .ok σ') :
    ∀ id, (ProposalV2.ofSlots σ' id).creationBlock < 2 ^ 64 := by
  refine foldlM_ok (P := fun σ => ∀ id, (ProposalV2.ofSlots σ id).creationBlock < 2 ^ 64) h hσ ?_
  intro c hc σ₁ σ₂ hlt hcall id
  rcases call_creationBlock hcall id with hsame | hnew
  · rw [hsame]
    exact hlt id
  · rw [hnew]
    exact Nat.lt_of_le_of_lt (Nat.mod_le _ _) (hblocks c hc)

/-- The storage of a new proxy whose admin is 5. -/
def sample : Slots := setField (fun _ _ => 0) .admin 5

theorem sample_proposal (id slot : Nat) : sample (proposal id) slot = 0 :=
  setField_spares (n := 0) (fun _ _ => 0) .admin 5 id slot (Nat.zero_le slot)

end SlotsV2

def EnvV2.sample (nouns : NounsToken) (blockNumber timestamp : Nat) : EnvV2 Preimage where
  blockNumber := blockNumber
  timestamp := timestamp
  gracePeriod := fun _ => 14 * days
  crypto := .transparent
  dao := 100
  nouns := nouns

/-- 7 proposes, votes for the proposal and has it queued. -/
def CallV2.sample (nouns : NounsToken) : List (EnvV2 Preimage × Account × CallV2) :=
  [(.sample nouns 1 1, ⟨5, Address.five_ne_zero⟩, .initializeBy 103 101 9 5760 1 1 ⟨200, 2000, 0⟩),
    (.sample nouns 2 2, .minter, .propose .sample),
    (.sample nouns 4 4, .minter, .castVote 1 1),
    (.sample nouns 5764 70000, .minter, .queue 1)]

theorem EnvV2.sample_run {nouns : NounsToken} {σ : Slots}
    (h : SlotsV2.run SlotsV2.sample Executor.sample (CallV2.sample nouns) = .ok σ) :
    Reachable StartV2 (NextV2 Preimage) σ ∧
      ∀ id, (ProposalV2.ofSlots σ id).creationBlock < 2 ^ 64 := by
  refine ⟨SlotsV2.reachable_of_run (fun id slot _ => SlotsV2.sample_proposal id slot) h, ?_⟩
  refine SlotsV2.creationBlock_lt_of_run (fun id => ?_) ?_ h
  · simp only [ProposalV2.ofSlots, StorageSlots.get, SlotsV2.sample_proposal]
    decide
  · intro c hc
    simp only [CallV2.sample, List.mem_cons, List.not_mem_nil, or_false] at hc
    rcases hc with rfl | rfl | rfl | rfl
    all_goals
      simp only [EnvV2.sample]
      decide

/-- The queued proposal of V2 is queued in V3, with its action and the vote of 7. -/
theorem queued_proposal_upgraded :
    ∃ (σ : Slots) (clock : Clock), Reachable StartV2 (NextV2 Preimage) σ ∧
      (ProposalStorage.ofSlots σ).stateInternal clock 1 = .ok .Queued ∧
      (ProposalStorage.ofSlots σ).quorumVotes 1 = .ok 0 ∧
      ((ProposalStorage.ofSlots σ).proposals 1).targets = [50] ∧
      ((ProposalStorage.ofSlots σ).proposals 1).receipts 7 = ⟨true, 1, 1⟩ ∧
      ((ProposalStorage.ofSlots σ).proposals 1).signers = [] := by
  have hrun : Yields ((NounsToken.deploy 102 8 7).mint 1 7) (fun nouns =>
      Yields (SlotsV2.run SlotsV2.sample Executor.sample (CallV2.sample nouns)) (fun σ =>
        (StorageV2.ofSlots σ).state (EnvV2.sample nouns 5765 80000).toClock 1 = .ok .Queued ∧
        (StorageV2.ofSlots σ).quorumVotes 1 = .ok 0 ∧
        ((StorageV2.ofSlots σ).proposals 1).targets = [50] ∧
        ((StorageV2.ofSlots σ).proposals 1).receipts 7 = ⟨true, 1, 1⟩)) := by
    decide +kernel
  obtain ⟨nouns, -, σ, hσ, hstate, hquorum, htargets, hreceipt⟩ := hrun
  obtain ⟨hr, hblocks⟩ := EnvV2.sample_run hσ
  obtain ⟨hstates, hquorums, htxs, hreceipts, hsigners⟩ := upgrade_keeps_proposals hr hblocks 1
  refine ⟨σ, (EnvV2.sample nouns 5765 80000).toClock, hr, ?_, ?_, ?_, ?_, hsigners⟩
  · rw [hstates _ (by simp [EnvV2.sample]), hstate]
    rfl
  · rw [hquorums, hquorum]
  · rw [htxs, htargets]
  · rw [hreceipts, hreceipt]

/-- At block 0 V3 takes a proposal that was never updatable for updatable. -/
theorem updatable_at_block_zero :
    ∃ (σ : Slots) (clock : Clock), Reachable StartV2 (NextV2 Preimage) σ ∧
      (∀ id, (ProposalV2.ofSlots σ id).creationBlock < 2 ^ 64) ∧ clock.blockNumber = 0 ∧
      (StorageV2.ofSlots σ).state clock 1 = .ok .Pending ∧
      (ProposalStorage.ofSlots σ).stateInternal clock 1 = .ok .Updatable := by
  have hrun : Yields ((NounsToken.deploy 102 8 7).mint 1 7) (fun nouns =>
      Yields (SlotsV2.run SlotsV2.sample Executor.sample (CallV2.sample nouns)) (fun σ =>
        (StorageV2.ofSlots σ).state (EnvV2.sample nouns 0 0).toClock 1 = .ok .Pending ∧
        (ProposalStorage.ofSlots σ).stateInternal (EnvV2.sample nouns 0 0).toClock 1 =
          .ok .Updatable)) := by
    decide +kernel
  obtain ⟨nouns, -, σ, hσ, hpending, hupdatable⟩ := hrun
  obtain ⟨hr, hblocks⟩ := EnvV2.sample_run hσ
  exact ⟨σ, (EnvV2.sample nouns 0 0).toClock, hr, hblocks, rfl, hpending, hupdatable⟩

end Nouns
