import Nouns.Governance.Settings
import Nouns.Governance.WellFormed

/-!
# Creation — proposing, and the content of proposals

There are three ways to propose and five functions that write what a proposal contains.  `Proposing`
says what the first three leave behind; `ContentStep` lists how the content of a proposal can
change in one step.
-/

open Fallible Checkpoints

namespace Nouns

variable {H : Type}

/-! ## Live proposals -/

/-- The states in which an account may back no other proposal. -/
def ProposalState.IsLive (s : ProposalState) : Prop :=
  s = Updatable ∨ s = Pending ∨ s = Active ∨ s = ObjectionPeriod

instance (s : ProposalState) : Decidable s.IsLive := inferInstanceAs (Decidable (_ ∨ _))

/-- Neither canceled nor vetoed, and the vote is not over. -/
def Proposal.Live (p : Proposal) (now : Nat) : Prop := p.Alive ∧ ¬ p.Closed now

theorem Proposal.not_closed_of_le {p : Proposal} {now : Nat} (h : now ≤ p.updatePeriodEndBlock) :
    ¬ p.Closed now :=
  fun hclosed => Nat.not_lt.mpr h hclosed.update

namespace ProposalStorage

variable {s : ProposalStorage} {clock : Clock} {id : Nat} {state : ProposalState}

/-- Whether a proposal is live shows before its votes are counted. -/
theorem stateInternal_isLive (h : s.stateInternal clock id = .ok state) :
    state.IsLive ↔ (s.proposals id).Live clock.blockNumber := by
  simp only [stateInternal, bind_eq_ok, require_eq_ok] at h
  obtain ⟨_, -, h⟩ := h
  by_cases hvetoed : (s.proposals id).vetoed = true
  · rw [if_pos hvetoed, pure_eq_ok] at h
    subst h
    simp [ProposalState.IsLive, Proposal.Live, Proposal.Alive, hvetoed]
  rw [if_neg hvetoed] at h
  by_cases hcanceled : (s.proposals id).canceled = true
  · rw [if_pos hcanceled, pure_eq_ok] at h
    subst h
    simp [ProposalState.IsLive, Proposal.Live, Proposal.Alive, hcanceled]
  rw [if_neg hcanceled] at h
  have halive : (s.proposals id).Alive := ⟨by simpa using hvetoed, by simpa using hcanceled⟩
  by_cases hupdate : clock.blockNumber ≤ (s.proposals id).updatePeriodEndBlock
  · rw [if_pos hupdate, pure_eq_ok] at h
    subst h
    exact iff_of_true (.inl rfl) ⟨halive, Proposal.not_closed_of_le hupdate⟩
  rw [if_neg hupdate] at h
  by_cases hstart : clock.blockNumber ≤ (s.proposals id).startBlock
  · rw [if_pos hstart, pure_eq_ok] at h
    subst h
    exact iff_of_true (.inr (.inl rfl))
      ⟨halive, fun hclosed => Nat.not_lt.mpr hstart hclosed.start⟩
  rw [if_neg hstart] at h
  by_cases hend : clock.blockNumber ≤ (s.proposals id).endBlock
  · rw [if_pos hend, pure_eq_ok] at h
    subst h
    exact iff_of_true (.inr (.inr (.inl rfl)))
      ⟨halive, fun hclosed => Nat.not_lt.mpr hend hclosed.end_⟩
  rw [if_neg hend] at h
  by_cases hobjection : clock.blockNumber ≤ (s.proposals id).objectionPeriodEndBlock
  · rw [if_pos hobjection, pure_eq_ok] at h
    subst h
    exact iff_of_true (.inr (.inr (.inr rfl)))
      ⟨halive, fun hclosed => Nat.not_lt.mpr hobjection hclosed.objection⟩
  rw [if_neg hobjection] at h
  have hclosed : (s.proposals id).Closed clock.blockNumber :=
    ⟨Nat.not_le.mp hupdate, Nat.not_le.mp hstart, Nat.not_le.mp hend, Nat.not_le.mp hobjection⟩
  -- What is left are the states after the vote.
  have hnot : ¬ state.IsLive := by
    obtain ⟨defeated, -, h⟩ := bind_eq_ok.mp h
    split_ifs at h <;> (rw [pure_eq_ok] at h; subst h; decide)
  exact iff_of_false hnot (fun hlive => hlive.2 hclosed)

end ProposalStorage

namespace StorageV3

variable {ds ds' : StorageV3 H} {env : Env H} {sender a : Address} {txs : ProposalTxs}
  {description : String} {id : Nat}

/-- `checkNoActiveProp` has found that the latest proposal of an account is over. -/
theorem checkNoActiveProp_ok (h : ds.checkNoActiveProp env a = .ok ()) (hid : 0 < id)
    (hlatest : ds.latestProposalIds a = id) : ¬ (ds.proposals id).Live env.blockNumber := by
  simp only [checkNoActiveProp, hlatest] at h
  rw [if_pos (Nat.pos_iff_ne_zero.mp hid), bind_eq_ok] at h
  obtain ⟨state, hstate, h⟩ := h
  rw [revertIf_eq_ok] at h
  intro hlive
  apply h
  rcases (ProposalStorage.stateInternal_isLive hstate).mpr hlive with hs | hs | hs | hs
  · exact .inr (.inr (.inr hs))
  · exact .inr (.inr (.inl hs))
  · exact .inr (.inl hs)
  · exact .inl hs

/-! ## Proposing -/

/-- What `createNewProposal` writes to a slot that was never written. -/
def newProposal (ds : StorageV3 H) (env : Env H) (sender : Address)
    (proposalThreshold totalSupply : Nat) (txs : ProposalTxs) : Proposal :=
  { Proposal.empty with
    id := ds.proposalCount + 1
    proposer := sender
    proposalThreshold
    toProposalTxs := txs
    startBlock := env.blockNumber + ds.proposalUpdatablePeriodInBlocks + ds.votingDelay
    endBlock :=
      env.blockNumber + ds.proposalUpdatablePeriodInBlocks + ds.votingDelay + ds.votingPeriod
    totalSupply
    creationBlock := env.blockNumber
    updatePeriodEndBlock := env.blockNumber + ds.proposalUpdatablePeriodInBlocks }

/-- A call by `sender` that proposes `txs`, with the signers it records. -/
structure Proposing (env : Env H) (sender : Address) (txs : ProposalTxs) (signers : List Address)
    (executeOnTimelockV1 : Bool) (ds ds' : StorageV3 H) : Prop where
  check : checkProposalTxs txs = .ok ()
  result : ∃ proposalThreshold totalSupply, ds' = { ds with
    proposalCount := ds.proposalCount + 1
    proposals := Function.update ds.proposals (ds.proposalCount + 1)
      { ds.newProposal env sender proposalThreshold totalSupply txs with
        signers, executeOnTimelockV1 }
    latestProposalIds := fun a =>
      if a = sender ∨ a ∈ signers then ds.proposalCount + 1 else ds.latestProposalIds a
    log := ds'.log }
  /-- The last proposal of everyone who backs the new one is over. -/
  idle : ∀ a, a = sender ∨ a ∈ signers → ∀ id, 0 < id → id ≤ ds.proposalCount →
    ds.latestProposalIds a = id → ¬ (ds.proposals id).Live env.blockNumber

section Proposing

variable {signers : List Address} {onV1 : Bool} (h : Proposing env sender txs signers onV1 ds ds')

include h

theorem Proposing.proposalCount_eq : ds'.proposalCount = ds.proposalCount + 1 := by
  obtain ⟨threshold, supply, hds⟩ := h.result
  rw [hds]

theorem Proposing.proposals_new : ∃ threshold supply, ds'.proposals (ds.proposalCount + 1) =
    { ds.newProposal env sender threshold supply txs with
      signers, executeOnTimelockV1 := onV1 } := by
  obtain ⟨threshold, supply, hds⟩ := h.result
  refine ⟨threshold, supply, ?_⟩
  rw [hds]
  exact Function.update_self ..

theorem Proposing.proposals_old (hid : id ≠ ds.proposalCount + 1) :
    ds'.proposals id = ds.proposals id := by
  obtain ⟨threshold, supply, hds⟩ := h.result
  rw [hds]
  exact Function.update_of_ne hid _ _

theorem Proposing.latestProposalIds_eq (a : Address) : ds'.latestProposalIds a =
    if a = sender ∨ a ∈ signers then ds.proposalCount + 1 else ds.latestProposalIds a := by
  obtain ⟨threshold, supply, hds⟩ := h.result
  rw [hds]

theorem Proposing.settings_eq : ds'.votingDelay = ds.votingDelay ∧
    ds'.votingPeriod = ds.votingPeriod ∧
    ds'.erc20TokensToIncludeInFork = ds.erc20TokensToIncludeInFork := by
  obtain ⟨threshold, supply, hds⟩ := h.result
  rw [hds]
  exact ⟨rfl, rfl, rfl⟩

end Proposing

/-- Creation in a free slot. -/
theorem createNewProposal_eq {threshold supply : Nat}
    (hslot : ds.proposals (ds.proposalCount + 1) = Proposal.empty)
    (h : ({ ds with proposalCount := ds.proposalCount + 1 } : StorageV3 H).createNewProposal env
      sender (ds.proposalCount + 1) threshold supply txs = .ok ds') :
    ds' = { ds with
      proposalCount := ds.proposalCount + 1
      proposals := Function.update ds.proposals (ds.proposalCount + 1)
        (ds.newProposal env sender threshold supply txs) } := by
  simp only [createNewProposal, toUint64, bind_eq_ok, require_eq_ok, pure_eq_ok] at h
  obtain ⟨_, ⟨_, -, rfl⟩, _, ⟨_, -, rfl⟩, rfl⟩ := h
  simp only [setProposal, hslot]
  rfl

theorem propose_proposing (hslot : ds.proposals (ds.proposalCount + 1) = Proposal.empty)
    (h : ds.propose env sender txs description = .ok (ds', id)) :
    id = ds.proposalCount + 1 ∧ Proposing env sender txs [] false ds ds' := by
  simp only [propose, bind_eq_ok, pure_eq_ok, Prod.mk.injEq] at h
  obtain ⟨supply, -, votes, -, threshold, -, _, htxs, _, hidle, ds₁, hcreate, q, -, rfl, rfl⟩ := h
  have hlatest : Function.update ds.latestProposalIds sender (ds.proposalCount + 1) = fun a =>
      if a = sender ∨ a ∈ [] then ds.proposalCount + 1 else ds.latestProposalIds a := by
    funext a
    simp [Function.update_apply]
  refine ⟨rfl, htxs, ⟨threshold, supply, ?_⟩, ?_⟩
  · rw [createNewProposal_eq hslot hcreate, ← hlatest]
    rfl
  · intro a ha id hid _ hid'
    rcases ha with rfl | ha
    · exact checkNoActiveProp_ok hidle hid hid'
    · cases ha

theorem proposeOnTimelockV1_proposing
    (hslot : ds.proposals (ds.proposalCount + 1) = Proposal.empty)
    (h : ds.proposeOnTimelockV1 env sender txs description = .ok (ds', id)) :
    Proposing env sender txs [] true ds ds' := by
  simp only [proposeOnTimelockV1, bind_eq_ok, pure_eq_ok, Prod.mk.injEq] at h
  obtain ⟨⟨ds₁, id₁⟩, hpropose, rfl, rfl⟩ := h
  obtain ⟨rfl, hcheck, ⟨threshold, supply, hds⟩, hidle⟩ := propose_proposing hslot hpropose
  refine ⟨hcheck, ⟨threshold, supply, ?_⟩, hidle⟩
  rw [hds]
  simp only [setProposal, emit, Function.update_self, Function.update_idem]

/-! ## Signers -/

/-- What the loop over the signatures has found when it comes to the end of a prefix. -/
structure SignersChecked (env : Env H) (message : Nat → Preimage) (proposalId : Nat)
    (signatures : List ProposerSignature) (ds₀ : StorageV3 H) (ds : StorageV3 H)
    (signers : List Address) : Prop where
  result : ds = { ds₀ with latestProposalIds := fun a =>
    if a ∈ signers then proposalId else ds₀.latestProposalIds a }
  idle : ∀ a ∈ signers, ∀ id, 0 < id → ds₀.latestProposalIds a = id →
    ¬ (ds₀.proposals id).Live env.blockNumber
  signed : ∀ a ∈ signers, ∃ s ∈ signatures, s.signer = a ∧
    verifyProposalSignature ds₀ env message s = .ok ()

theorem SignersChecked.nil {message : Nat → Preimage}
    {signatures : List ProposerSignature} (ds₀ : StorageV3 H) :
    SignersChecked env message id signatures ds₀ ds₀ [] :=
  ⟨by simp, by simp, by simp⟩

/-- A signer with votes is recorded. -/
theorem SignersChecked.record {ds₀ : StorageV3 H} {message : Nat → Preimage}
    {signatures : List ProposerSignature} {signers : List Address}
    (h : SignersChecked env message id signatures ds₀ ds signers) {s : ProposerSignature}
    (hs : s ∈ signatures) (hverify : verifyProposalSignature ds env message s = .ok ())
    (hidle : ds.checkNoActiveProp env s.signer = .ok ()) :
    SignersChecked env message id signatures ds₀
      { ds with latestProposalIds := Function.update ds.latestProposalIds s.signer id }
      (signers ++ [s.signer]) := by
  obtain ⟨rfl, hold, hsigned⟩ := h
  refine ⟨?_, ?_, ?_⟩
  · congr 1
    funext a
    by_cases ha : a = s.signer
    · simp [ha]
    · simp [ha]
  · intro a ha id' hid' hlatest
    by_cases hmem : a ∈ signers
    · exact hold a hmem id' hid' hlatest
    · -- Not recorded before, so the check has seen the id the loop started with.
      have hself : a = s.signer := by simpa [hmem] using ha
      subst hself
      have hover := checkNoActiveProp_ok hidle hid' (by simpa [hmem] using hlatest)
      exact hover
  · intro a ha
    by_cases hmem : a ∈ signers
    · exact hsigned a hmem
    · have hself : a = s.signer := by simpa [hmem] using ha
      exact ⟨s, hs, hself.symm, hverify⟩

theorem verifySigners_checked {signatures : List ProposerSignature} {votes : Nat}
    {signers : List Address}
    (h : ds.verifySignersCanBackThisProposalAndCountTheirVotes env sender signatures txs description
      id = .ok (ds', votes, signers)) :
    ∃ ds₁, SignersChecked env (.proposal sender txs description) id signatures ds ds₁ signers ∧
      ds₁.checkNoActiveProp env sender = .ok () ∧
      ds' = { ds₁ with latestProposalIds := Function.update ds₁.latestProposalIds sender id } := by
  simp only [verifySignersCanBackThisProposalAndCountTheirVotes, bind_eq_ok, pure_eq_ok,
    Prod.mk.injEq] at h
  obtain ⟨⟨ds₁, votes₁, signers₁⟩, hloop, _, hidle, _, -, rfl, -, rfl⟩ := h
  refine ⟨ds₁, ?_, hidle, rfl⟩
  refine foldlM_ok (P := fun r => SignersChecked env (.proposal sender txs description) id signatures
    ds r.1 r.2.2) hloop (.nil ds) ?_
  rintro s hs ⟨ds₂, votes₂, signers₂⟩ ⟨ds₃, votes₃, signers₃⟩ hchecked hstep
  simp only [bind_eq_ok] at hstep
  obtain ⟨_, hverify, _, hcheck, votes, -, hstep⟩ := hstep
  split at hstep
  · simp only [pure_eq_ok, Prod.mk.injEq] at hstep
    obtain ⟨rfl, -, rfl⟩ := hstep
    exact hchecked
  · simp only [pure_eq_ok, Prod.mk.injEq] at hstep
    obtain ⟨rfl, -, rfl⟩ := hstep
    exact hchecked.record hs hverify hcheck

/-- Who is recorded as a signer has signed the proposal. -/
theorem proposeBySigs_proposing {signatures : List ProposerSignature}
    (hslot : ds.proposals (ds.proposalCount + 1) = Proposal.empty)
    (h : ds.proposeBySigs env sender signatures txs description = .ok (ds', id)) :
    ∃ signers, signers ≠ [] ∧ Proposing env sender txs signers false ds ds' ∧
      ∀ a ∈ signers, ∃ s ∈ signatures, s.signer = a ∧
        verifyProposalSignature ds env (.proposal sender txs description) s = .ok () := by
  simp only [proposeBySigs, bind_eq_ok, revertIf_eq_ok, pure_eq_ok, Prod.mk.injEq] at h
  obtain ⟨_, -, _, hcheck, supply, -, ds₁, hcreate, ⟨ds₂, votes, signers⟩, hverify, _, hsome, _, -,
    q, -, rfl, -⟩ := h
  have hds₁ := createNewProposal_eq hslot hcreate
  subst hds₁
  obtain ⟨ds₃, ⟨rfl, hidle, hsigned⟩, hsender, rfl⟩ := verifySigners_checked hverify
  have hlatest : Function.update (fun a =>
      if a ∈ signers then ds.proposalCount + 1 else ds.latestProposalIds a) sender
      (ds.proposalCount + 1) = fun a =>
      if a = sender ∨ a ∈ signers then ds.proposalCount + 1 else ds.latestProposalIds a := by
    funext a
    by_cases ha : a = sender
    · simp [ha]
    · simp [ha]
  refine ⟨signers, ?_, ⟨hcheck, ⟨ds.proposalThreshold supply, supply, ?_⟩, ?_⟩, hsigned⟩
  · rintro rfl
    exact hsome rfl
  · simp only [emitNewPropEvents, emit, setProposal, Function.update_self, Function.update_idem,
      hlatest]
    rfl
  · intro a ha id' hid hle hid'
    have hold : Function.update ds.proposals (ds.proposalCount + 1) (ds.newProposal env sender
        (ds.proposalThreshold supply) supply txs) id' = ds.proposals id' :=
      Function.update_of_ne (by omega) _ _
    rw [← hold]
    by_cases hmem : a ∈ signers
    · exact hidle a hmem id' hid hid'
    · rcases ha with rfl | ha
      · have hover := checkNoActiveProp_ok hsender hid (by simpa [hmem] using hid')
        exact hover
      · exact absurd ha hmem

end StorageV3

/-! ## Content -/

/-- Who backs the proposal and what it would do are the same. -/
structure SameContent (p p' : Proposal) : Prop where
  txs : p'.toProposalTxs = p.toProposalTxs
  proposer : p'.proposer = p.proposer
  signers : p'.signers = p.signers

theorem SameContent.refl (p : Proposal) : SameContent p p := ⟨rfl, rfl, rfl⟩

theorem SameContent.symm {p p' : Proposal} (h : SameContent p p') : SameContent p' p :=
  ⟨h.txs.symm, h.proposer.symm, h.signers.symm⟩

theorem SameContent.trans {p₁ p₂ p₃ : Proposal} (h : SameContent p₁ p₂) (h' : SameContent p₂ p₃) :
    SameContent p₁ p₃ :=
  ⟨h'.txs.trans h.txs, h'.proposer.trans h.proposer, h'.signers.trans h.signers⟩

namespace StorageV3

variable {ds ds' ds₁ ds₂ : StorageV3 H} {env : Env H} {sender voter : Address} {id support votes : Nat}
  {e e' : Executor H}

/-- Only proposal `id` changed, and not its content. -/
def Edits (id : Nat) (ds ds' : StorageV3 H) : Prop :=
  ∃ p log, SameContent (ds.proposals id) p ∧
    ds' = { ds with proposals := Function.update ds.proposals id p, log }

theorem Edits.refl (id : Nat) (ds : StorageV3 H) : Edits id ds ds :=
  ⟨ds.proposals id, ds.log, .refl _, by simp⟩

theorem Edits.trans (h : Edits id ds ds₁) (h' : Edits id ds₁ ds₂) : Edits id ds ds₂ := by
  obtain ⟨p, log, hp, rfl⟩ := h
  obtain ⟨p', log', hp', rfl⟩ := h'
  refine ⟨p', log', hp.trans (by simpa using hp'), ?_⟩
  simp

theorem Edits.emit (h : Edits id ds ds') (event : DAOEvent) : Edits id ds (ds'.emit event) := by
  obtain ⟨p, log, hp, rfl⟩ := h
  exact ⟨p, event :: log, hp, rfl⟩

theorem setProposal_edits {p : Proposal} (hp : SameContent (ds.proposals id) p) :
    Edits id ds (ds.setProposal id p) :=
  ⟨p, ds.log, hp, rfl⟩

theorem Edits.sameContent (h : Edits id ds ds') (id' : Nat) :
    SameContent (ds.proposals id') (ds'.proposals id') := by
  obtain ⟨p, log, hp, rfl⟩ := h
  by_cases hid : id' = id
  · subst hid
    simpa using hp
  · simp only [Function.update_of_ne hid]
    exact .refl _

theorem Edits.latestProposalIds_eq (h : Edits id ds ds') :
    ds'.latestProposalIds = ds.latestProposalIds := by
  obtain ⟨p, log, hp, rfl⟩ := h
  rfl

theorem Edits.proposalCount_eq (h : Edits id ds ds') : ds'.proposalCount = ds.proposalCount := by
  obtain ⟨p, log, hp, rfl⟩ := h
  rfl

/-- An update leaves the backers of every proposal as they are. -/
theorem setTransactions_backers (ds : StorageV3 H) (id : Nat) (txs : ProposalTxs) (id' : Nat) :
    ((ds.setTransactions id txs).proposals id').proposer = (ds.proposals id').proposer ∧
    ((ds.setTransactions id txs).proposals id').signers = (ds.proposals id').signers := by
  by_cases hid : id' = id
  · subst hid
    simp [setTransactions, setProposal]
  · simp [setTransactions, setProposal, hid]

theorem countVotes_sameContent (p : Proposal) (support votes : Nat) :
    SameContent p (countVotes p support votes) := by
  unfold countVotes
  split
  · exact ⟨rfl, rfl, rfl⟩
  split
  · exact ⟨rfl, rfl, rfl⟩
  split
  · exact ⟨rfl, rfl, rfl⟩
  · exact .refl p

theorem triggerObjection_edits {flipped : Bool} (h : ds.triggerObjection id flipped = .ok ds') :
    Edits id ds ds' := by
  simp only [triggerObjection] at h
  split at h
  · rw [bind_eq_ok] at h
    obtain ⟨defeated, -, h⟩ := h
    split at h
    · simp only [bind_eq_ok, pure_eq_ok] at h
      obtain ⟨o, -, rfl⟩ := h
      apply Edits.emit
      exact setProposal_edits ⟨rfl, rfl, rfl⟩
    · rw [← pure_eq_ok.mp h]
      exact .refl id ds
  · rw [← pure_eq_ok.mp h]
    exact .refl id ds

theorem castVoteInternal_edits (h : ds.castVoteInternal env voter id support = .ok (ds', votes)) :
    Edits id ds ds' := by
  simp only [castVoteInternal, bind_eq_ok] at h
  obtain ⟨state, -, h⟩ := h
  split at h
  · simp only [castVoteDuringVotingPeriodInternal, bind_eq_ok, pure_eq_ok, Prod.mk.injEq] at h
    obtain ⟨_, -, _, -, votes, -, _, -, _, -, ds₁, htrigger, rfl, rfl⟩ := h
    exact ((setProposal_edits (countVotes_sameContent _ support votes)).trans
      (triggerObjection_edits htrigger)).trans (setProposal_edits ⟨rfl, rfl, rfl⟩)
  · split at h
    · simp only [castObjectionInternal, bind_eq_ok, pure_eq_ok, Prod.mk.injEq] at h
      obtain ⟨_, -, _, -, votes, -, rfl, rfl⟩ := h
      exact setProposal_edits ⟨rfl, rfl, rfl⟩
    · simp at h

variable [DecidableEq H]

theorem queue_edits (h : ds.queue env e id = .ok (ds', e')) : Edits id ds ds' := by
  simp only [queue, bind_eq_ok, pure_eq_ok, Prod.mk.injEq] at h
  obtain ⟨_, -, _, -, e₁, -, rfl, -⟩ := h
  apply Edits.emit
  exact setProposal_edits ⟨rfl, rfl, rfl⟩

theorem cancel_edits (h : ds.cancel env e sender id = .ok (ds', e')) : Edits id ds ds' := by
  simp only [cancel, bind_eq_ok, pure_eq_ok, Prod.mk.injEq] at h
  obtain ⟨_, -, _, -, _, -, _, -, _, -, e₁, -, rfl, -⟩ := h
  apply Edits.emit
  exact setProposal_edits ⟨rfl, rfl, rfl⟩

theorem veto_edits (h : ds.veto env e sender id = .ok (ds', e')) : Edits id ds ds' := by
  simp only [veto, bind_eq_ok, pure_eq_ok, Prod.mk.injEq] at h
  obtain ⟨_, -, _, -, _, -, _, -, e₁, -, rfl, -⟩ := h
  apply Edits.emit
  exact setProposal_edits ⟨rfl, rfl, rfl⟩

/-! ## Effects -/

/-- `a` has signed `message`, and the signature was accepted. -/
def SignedBy (ds : StorageV3 H) (env : Env H) (message : Nat → Preimage) (a : Address) : Prop :=
  ∃ s : ProposerSignature, s.signer = a ∧ verifyProposalSignature ds env message s = .ok ()

/-- What a step does to the proposals, their backers and the settings. -/
inductive Effect (env : Env H) (ds ds' : StorageV3 H) : Prop
  | propose (sender : Account) (txs : ProposalTxs) (signers : List Address)
      (executeOnTimelockV1 : Bool) (description : String) :
      Proposing env sender txs signers executeOnTimelockV1 ds ds' →
      (∀ a ∈ signers, SignedBy ds env (.proposal sender txs description) a) → Effect env ds ds'
  | update (sender : Account) (id : Nat) (txs : ProposalTxs) (log : List DAOEvent) :
      ds.checkProposalUpdatable env sender id = .ok () → checkProposalTxs txs = .ok () →
      ds' = { ds.setTransactions id txs with log } → Effect env ds ds'
  | updateBySigs (sender : Account) (id : Nat) (txs : ProposalTxs) (description : String)
      (log : List DAOEvent) :
      ds.stateInternal env.toClock id = .ok .Updatable → sender = (ds.proposals id).proposer →
      checkProposalTxs txs = .ok () →
      (∀ a ∈ (ds.proposals id).signers,
        SignedBy ds env (.updateProposal id sender txs description) a) →
      ds' = { ds.setTransactions id txs with log } → Effect env ds ds'
  | edit (id : Nat) : Edits id ds ds' → Effect env ds ds'
  | cancelSig (sender : Account) (sig : Bytes) : ds' = ds.cancelSig env sender sig →
      Effect env ds ds'
  | settings : ds'.proposals = ds.proposals → ds'.proposalCount = ds.proposalCount →
      SettingsStep ds ds' → Effect env ds ds'

theorem updateProposalBySigs_effect {sender : Account} {signatures : List ProposerSignature}
    {txs : ProposalTxs} {description message : String}
    (h : ds.updateProposalBySigs env sender id signatures txs description message = .ok ds') :
    Effect env ds ds' := by
  simp only [updateProposalBySigs, bind_eq_ok, revertIf_eq_ok, ne_eq, Decidable.not_not,
    pure_eq_ok] at h
  obtain ⟨_, hcheck, _, -, _, hstate, _, rfl, _, hsender, _, hlength, _, hloop, rfl⟩ := h
  refine .updateBySigs sender id txs description _ hstate hsender hcheck ?_ rfl
  intro a ha
  -- The loop compares the signatures with the signers one by one.
  obtain ⟨i, hi, rfl⟩ := List.getElem_of_mem ha
  have hi' : i < signatures.length := by omega
  have hzip : i < (signatures.zip (ds.proposals id).signers).length := by
    rw [List.length_zip]
    omega
  have hmem : (signatures[i], (ds.proposals id).signers[i]) ∈
      signatures.zip (ds.proposals id).signers := by
    rw [← List.getElem_zip (h := hzip)]
    exact List.getElem_mem _
  have hiter := forM_ok hloop hmem
  simp only [bind_eq_ok, revertIf_eq_ok, Decidable.not_not] at hiter
  obtain ⟨_, hverify, hsigner⟩ := hiter
  exact ⟨_, hsigner.symm, hverify⟩

theorem Step.effect {executors : Address → Executor H}
    (hslot : ds.proposals (ds.proposalCount + 1) = Proposal.empty)
    (h : Step env executors ds ds') : Effect env ds ds' := by
  cases h with
  | quiet log => exact .settings rfl rfl (.of_eq rfl rfl rfl rfl rfl)
  | propose sender txs description ds' id hpropose =>
    obtain ⟨-, hp⟩ := propose_proposing hslot hpropose
    exact .propose sender txs [] false description hp (by simp)
  | proposeOnTimelockV1 sender txs description ds' id hpropose =>
    have hp := proposeOnTimelockV1_proposing hslot hpropose
    exact .propose sender txs [] true description hp (by simp)
  | proposeBySigs sender signatures txs description ds' id hpropose =>
    obtain ⟨signers, -, hp, hsigned⟩ := proposeBySigs_proposing hslot hpropose
    refine .propose sender txs signers false description hp ?_
    intro a ha
    obtain ⟨s, -, hs, hverify⟩ := hsigned a ha
    exact ⟨s, hs, hverify⟩
  | cancelSig sender sig => exact .cancelSig sender sig rfl
  | updateTransactions sender id txs ds₁ log hupdate =>
    simp only [updateProposalTransactionsInternal, bind_eq_ok, pure_eq_ok] at hupdate
    obtain ⟨_, hcheck, _, hupdatable, rfl⟩ := hupdate
    exact .update sender id txs log hupdatable hcheck rfl
  | updateBySigs sender id signatures txs description message ds' hupdate =>
    exact updateProposalBySigs_effect hupdate
  | vote voter id support votes ds₁ log hcast =>
    obtain ⟨p, log₁, hp, rfl⟩ := castVoteInternal_edits hcast
    exact .edit id ⟨p, log, hp, rfl⟩
  | queue id ds' e hqueue => exact .edit id (queue_edits hqueue)
  | cancel sender id ds' e hcancel => exact .edit id (cancel_edits hcancel)
  | veto sender id ds' e hveto => exact .edit id (veto_edits hveto)
  | execute id log hstate =>
    exact .edit id ⟨{ ds.proposals id with executed := true }, log, ⟨rfl, rfl, rfl⟩, rfl⟩
  | admin sender c ds' hcall =>
    obtain ⟨hstore, -⟩ | ⟨timelock, timelockV1, hstore, -⟩ := adminCall_ok hcall
    · refine .settings ?_ ?_ (adminCall_settings hcall)
      · rw [hstore]
      · rw [hstore]
    · refine .settings ?_ ?_ (adminCall_settings hcall)
      · rw [hstore]
      · rw [hstore]
  | quorum sender c ds' hcall =>
    obtain ⟨params, -, hstore, -⟩ := quorumCall_ok hcall
    refine .settings ?_ ?_ (quorumCall_settings hcall)
    · rw [hstore]
    · rw [hstore]
  | switch sender ds' hcall =>
    obtain ⟨-, hstore, -⟩ := setVoteSnapshotBlockSwitchProposalId_ok hcall
    refine .settings ?_ ?_ (setVoteSnapshotBlockSwitchProposalId_settings hcall)
    · rw [hstore]
    · rw [hstore]
  | endFork treasury token timestamp log =>
    exact .settings rfl rfl (.of_eq rfl rfl rfl rfl rfl)

end StorageV3

namespace World

variable [DecidableEq H] {d : Deployment H} {admits : World H → Action → Prop} {w w' : World H}

theorem Next.effect (h : Next d admits w w') (hwf : w.gov.Wf) :
    StorageV3.Effect (w.env d) w.dao w'.dao :=
  h.daoStep.effect (hwf.fresh _ (Nat.lt_succ_self _))

end World

end Nouns
