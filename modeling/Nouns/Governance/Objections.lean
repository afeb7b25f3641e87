import Nouns.Governance.Functions
import Nouns.Governance.QuorumBounds

/-!
# Objections — last-minute votes and the objection period

The quorum rises with the votes against a proposal, so its verdict can turn back and forth.  Only a
vote for the proposal turns it from defeated to passing, and the first such vote in the last-minute
window opens the objection period.
-/

open Fallible Checkpoints Transition

namespace Nouns

variable {H : Type}

/-! ## Votes on one proposal -/

/-- Everything that voting writes is the same. -/
structure SameVotes (p p' : Proposal) : Prop where
  forVotes : p'.forVotes = p.forVotes
  againstVotes : p'.againstVotes = p.againstVotes
  abstainVotes : p'.abstainVotes = p.abstainVotes
  objectionPeriodEndBlock : p'.objectionPeriodEndBlock = p.objectionPeriodEndBlock
  receipts : p'.receipts = p.receipts

theorem SameVotes.refl (p : Proposal) : SameVotes p p := ⟨rfl, rfl, rfl, rfl, rfl⟩

namespace StorageV3

variable {ds ds' : StorageV3 H} {env : Env H} {executors : Address → Executor H} {id : Nat}

theorem Proposed.sameVotes {now : Nat} {p : Proposal} (h : Proposed now ds ds' p) (id : Nat) :
    SameVotes (ds.proposals id) (ds'.proposals id) := by
  rw [h.store]
  by_cases hid : id = ds.proposalCount + 1
  · obtain ⟨_, _, _, _, _, _, _, _, _, hp⟩ := h.created.content
    subst hid
    simp only [Function.update_self, hp]
    exact ⟨rfl, rfl, rfl, rfl, rfl⟩
  · simp only [Function.update_of_ne hid]
    exact .refl _

theorem Changed.sameVotes {id' : Nat} {p : Proposal} (h : Changed ds ds' id' p)
    (hp : SameVotes (ds.proposals id') p) (id : Nat) :
    SameVotes (ds.proposals id) (ds'.proposals id) := by
  rw [h.store]
  by_cases hid : id = id'
  · subst hid
    simp only [Function.update_self]
    exact hp
  · simp only [Function.update_of_ne hid]
    exact .refl _

theorem sameVotes_of_proposals (h : ds'.proposals = ds.proposals) (id : Nat) :
    SameVotes (ds.proposals id) (ds'.proposals id) := by
  rw [h]
  exact .refl _

theorem updateProposalTransactionsInternal_changed {sender : Address} {txs : ProposalTxs}
    (h : ds.updateProposalTransactionsInternal env sender id txs = .ok ds') :
    Changed ds ds' id { ds.proposals id with toProposalTxs := txs } := by
  simp only [updateProposalTransactionsInternal, bind_eq_ok, pure_eq_ok] at h
  obtain ⟨_, -, _, -, rfl⟩ := h
  exact ⟨rfl, rfl⟩

theorem updateProposalBySigs_changed {sender : Address} {signatures : List ProposerSignature}
    {txs : ProposalTxs} {description message : String}
    (h : ds.updateProposalBySigs env sender id signatures txs description message = .ok ds') :
    Changed ds ds' id { ds.proposals id with toProposalTxs := txs } := by
  simp only [updateProposalBySigs, bind_eq_ok, pure_eq_ok] at h
  obtain ⟨_, -, _, -, _, -, _, -, _, -, _, -, _, -, rfl⟩ := h
  exact ⟨rfl, rfl⟩

/-- Only `castVoteInternal` writes votes. -/
theorem Step.votes [DecidableEq H] (h : Step env executors ds ds') (id : Nat) :
    SameVotes (ds.proposals id) (ds'.proposals id) ∨
    ∃ voter support votes ds₁, ds.castVoteInternal env voter id support = .ok (ds₁, votes) ∧
      ds'.toProposalStorage = ds₁.toProposalStorage := by
  cases h with
  | quiet log => exact .inl (.refl _)
  | propose sender txs description ds' id' hpropose =>
    obtain ⟨-, p, hp⟩ := propose_ok hpropose
    exact .inl (hp.sameVotes id)
  | proposeOnTimelockV1 sender txs description ds' id' hpropose =>
    obtain ⟨p, hp⟩ := proposeOnTimelockV1_ok hpropose
    exact .inl (hp.sameVotes id)
  | proposeBySigs sender signatures txs description ds' id' hpropose =>
    obtain ⟨p, hp⟩ := proposeBySigs_ok hpropose
    exact .inl (hp.sameVotes id)
  | cancelSig sender sig => exact .inl (.refl _)
  | updateTransactions sender id' txs ds₁ log hupdate =>
    have hvotes := (updateProposalTransactionsInternal_changed hupdate).sameVotes
      ⟨rfl, rfl, rfl, rfl, rfl⟩ id
    exact .inl hvotes
  | updateBySigs sender id' signatures txs description message ds' hupdate =>
    exact .inl ((updateProposalBySigs_changed hupdate).sameVotes ⟨rfl, rfl, rfl, rfl, rfl⟩ id)
  | vote voter id' support votes ds₁ log hcast =>
    by_cases hid : id = id'
    · subst hid
      exact .inr ⟨voter, support, votes, ds₁, hcast, rfl⟩
    · obtain ⟨p, -, hchanged⟩ := castVoteInternal_ok hcast
      left
      change SameVotes (ds.proposals id) (ds₁.proposals id)
      rw [hchanged.store]
      simp only [Function.update_of_ne hid]
      exact .refl _
  | queue id' ds' e hqueue =>
    obtain ⟨-, -, hchanged⟩ := queue_ok hqueue
    exact .inl (hchanged.sameVotes ⟨rfl, rfl, rfl, rfl, rfl⟩ id)
  | cancel sender id' ds' e hcancel =>
    obtain ⟨_, -, -, -, hchanged⟩ := cancel_ok hcancel
    exact .inl (hchanged.sameVotes ⟨rfl, rfl, rfl, rfl, rfl⟩ id)
  | veto sender id' ds' e hveto =>
    obtain ⟨_, -, -, -, hchanged⟩ := veto_ok hveto
    exact .inl (hchanged.sameVotes ⟨rfl, rfl, rfl, rfl, rfl⟩ id)
  | execute id' log hstate =>
    have hchanged : Changed ds
        { ds.setProposal id' { ds.proposals id' with executed := true } with log } id'
        { ds.proposals id' with executed := true } := ⟨rfl, rfl⟩
    exact .inl (hchanged.sameVotes ⟨rfl, rfl, rfl, rfl, rfl⟩ id)
  | admin sender c ds' hcall =>
    exact .inl (sameVotes_of_proposals (adminCall_proposals hcall).1 id)
  | quorum sender c ds' hcall =>
    obtain ⟨params, -, hstore, -⟩ := quorumCall_ok hcall
    have hproposals : ds'.proposals = ds.proposals := by rw [hstore]
    exact .inl (sameVotes_of_proposals hproposals id)
  | switch sender ds' hcall =>
    obtain ⟨-, hstore, -⟩ := setVoteSnapshotBlockSwitchProposalId_ok hcall
    have hproposals : ds'.proposals = ds.proposals := by rw [hstore]
    exact .inl (sameVotes_of_proposals hproposals id)
  | endFork treasury token timestamp log => exact .inl (.refl _)

/-! ## Opening the objection period -/

/-- The check of `castVoteDuringVotingPeriodInternal`, in two parts around the count. -/
structure Opens (ds : StorageV3 H) (env : Env H) (id support votes : Nat) : Prop where
  forVote : support = 1
  window : (ds.proposals id).endBlock - env.blockNumber < ds.lastMinuteWindowInBlocks
  before : ds.isDefeated (ds.proposals id) = .ok true
  unset : (ds.proposals id).objectionPeriodEndBlock = 0
  after : (ds.setProposal id (countVotes (ds.proposals id) support votes)).isDefeated
    (countVotes (ds.proposals id) support votes) = .ok false

theorem triggerObjection_objection {flipped : Bool} (h : ds.triggerObjection id flipped = .ok ds') :
    (flipped = true ∧ (ds.proposals id).objectionPeriodEndBlock = 0 ∧
      ds.isDefeated (ds.proposals id) = .ok false ∧
      (ds'.proposals id).objectionPeriodEndBlock =
        (ds.proposals id).endBlock + ds.objectionPeriodDurationInBlocks) ∨
    (¬ (flipped = true ∧ (ds.proposals id).objectionPeriodEndBlock = 0 ∧
      ds.isDefeated (ds.proposals id) = .ok false) ∧
      (ds'.proposals id).objectionPeriodEndBlock =
        (ds.proposals id).objectionPeriodEndBlock) := by
  simp only [triggerObjection] at h
  split at h
  · rename_i hflipped
    rw [bind_eq_ok] at h
    obtain ⟨defeated, hdefeated, h⟩ := h
    split at h
    · rename_i hfalse
      simp only [toUint64, bind_eq_ok, require_eq_ok, pure_eq_ok] at h
      obtain ⟨_, ⟨_, -, rfl⟩, rfl⟩ := h
      refine .inl ⟨hflipped.1, hflipped.2, hfalse ▸ hdefeated, ?_⟩
      simp [setProposal, emit]
    · rename_i htrue
      rw [← pure_eq_ok.mp h]
      refine .inr ⟨?_, rfl⟩
      rintro ⟨-, -, hfalse⟩
      rw [hdefeated] at hfalse
      exact htrue (Except.ok.inj hfalse)
  · rename_i hnot
    rw [← pure_eq_ok.mp h]
    exact .inr ⟨fun hall => hnot ⟨hall.1, hall.2.1⟩, rfl⟩

/-- What a vote during the voting period does to the end of the objection period. -/
theorem castVoteDuringVotingPeriodInternal_objection {voter : Address} {support votes : Nat}
    (h : ds.castVoteDuringVotingPeriodInternal env id voter support = .ok (ds', votes)) :
    (Opens ds env id support votes ∧ (ds'.proposals id).objectionPeriodEndBlock =
      (ds.proposals id).endBlock + ds.objectionPeriodDurationInBlocks) ∨
    (¬ Opens ds env id support votes ∧ (ds'.proposals id).objectionPeriodEndBlock =
      (ds.proposals id).objectionPeriodEndBlock) := by
  simp only [castVoteDuringVotingPeriodInternal, bind_eq_ok, require_eq_ok, pure_eq_ok,
    Prod.mk.injEq] at h
  obtain ⟨_, hsupport, _, -, votes, -, inWindow, hwindow, before, hbefore, ds₁, htrigger, rfl,
    rfl⟩ := h
  have hcount : countVotes (ds.proposals id) support votes = _ := countVotes_eq _ hsupport votes
  have hself : (ds.setProposal id (countVotes (ds.proposals id) support votes)).proposals id =
      countVotes (ds.proposals id) support votes := Function.update_self ..
  have hobjection : ((ds₁.setProposal id (setReceipt (ds₁.proposals id) voter
      ⟨true, support, votes⟩)).proposals id).objectionPeriodEndBlock =
      (ds₁.proposals id).objectionPeriodEndBlock := by
    simp [setProposal, setReceipt]
  rw [hobjection]
  have hunset : (countVotes (ds.proposals id) support votes).objectionPeriodEndBlock =
      (ds.proposals id).objectionPeriodEndBlock := by rw [hcount]
  have hend : (countVotes (ds.proposals id) support votes).endBlock =
      (ds.proposals id).endBlock := by rw [hcount]
  -- The flag of the first part is set exactly when its three conditions hold.
  have hflag : before = true ↔ support = 1 ∧
      (ds.proposals id).endBlock - env.blockNumber < ds.lastMinuteWindowInBlocks ∧
      ds.isDefeated (ds.proposals id) = .ok true := by
    simp only [isForVoteInLastMinuteWindow] at hwindow
    simp only [isDefeatedBefore] at hbefore
    split at hwindow
    · rename_i hfor
      simp only [bind_eq_ok, checkedSub_eq_ok, pure_eq_ok] at hwindow
      obtain ⟨_, ⟨-, rfl⟩, rfl⟩ := hwindow
      simp only [decide_eq_true_eq] at hbefore
      split at hbefore
      · rename_i hin
        rw [hbefore]
        simp [hfor, hin]
      · rename_i hout
        rw [← pure_eq_ok.mp hbefore]
        simp [hout]
    · rename_i hnot
      rw [← pure_eq_ok.mp hwindow] at hbefore
      simp only [Bool.false_eq_true, if_false] at hbefore
      rw [← pure_eq_ok.mp hbefore]
      simp [hnot]
  rcases triggerObjection_objection htrigger with ⟨hset, h0, hafter, ho⟩ | ⟨hnot, ho⟩
  · rw [hself] at h0 hafter ho
    obtain ⟨hfor, hin, hdefeated⟩ := hflag.mp hset
    refine .inl ⟨⟨hfor, hin, hdefeated, hunset ▸ h0, hafter⟩, ?_⟩
    rw [ho, hend]
    rfl
  · rw [hself] at hnot ho
    refine .inr ⟨?_, ho.trans hunset⟩
    rintro ⟨hfor, hin, hdefeated, h0, hafter⟩
    exact hnot ⟨hflag.mpr ⟨hfor, hin, hdefeated⟩, hunset.trans h0, hafter⟩

/-- What a vote adds to a proposal; the receipt and the objection period are left open. -/
structure Counts (ds ds' : StorageV3 H) (id support votes : Nat) : Prop where
  support_le : support ≤ 2
  proposal : ∃ receipts objectionPeriodEndBlock, ds'.proposals id =
    { countVotes (ds.proposals id) support votes with receipts, objectionPeriodEndBlock }

theorem castVoteDuringVotingPeriodInternal_counts {voter : Address} {support votes : Nat}
    (h : ds.castVoteDuringVotingPeriodInternal env id voter support = .ok (ds', votes)) :
    Counts ds ds' id support votes := by
  simp only [castVoteDuringVotingPeriodInternal, bind_eq_ok, require_eq_ok, pure_eq_ok,
    Prod.mk.injEq] at h
  obtain ⟨_, hsupport, _, -, votes, -, _, -, _, -, ds₁, htrigger, rfl, rfl⟩ := h
  obtain ⟨o, -, hstore, -⟩ := triggerObjection_ok htrigger
  have hp : ds₁.proposals id = { countVotes (ds.proposals id) support votes with
      objectionPeriodEndBlock := o } := by
    rw [show ds₁.proposals = _ from congrArg ProposalStorage.proposals hstore]
    simp [setProposal]
  refine ⟨hsupport, (setReceipt (ds₁.proposals id) voter ⟨true, support, votes⟩).receipts, o, ?_⟩
  simp only [setProposal, Function.update_self, setReceipt, hp]

/-- A vote is cast while the proposal is active, or against it in the objection period. -/
theorem castVoteInternal_cases {voter : Address} {support votes : Nat}
    (h : ds.castVoteInternal env voter id support = .ok (ds', votes)) :
    Counts ds ds' id support votes ∧
    (ds.stateInternal env.toClock id = .ok .Active ∧
      ds.castVoteDuringVotingPeriodInternal env id voter support = .ok (ds', votes) ∨
    ds.stateInternal env.toClock id = .ok .ObjectionPeriod ∧ support = 0 ∧
      (ds'.proposals id).objectionPeriodEndBlock = (ds.proposals id).objectionPeriodEndBlock) := by
  simp only [castVoteInternal, bind_eq_ok] at h
  obtain ⟨s, hs, h⟩ := h
  split at h
  · rename_i hactive
    exact ⟨castVoteDuringVotingPeriodInternal_counts h, .inl ⟨hactive ▸ hs, h⟩⟩
  · split at h
    · rename_i hobjection
      simp only [bind_eq_ok, revertIf_eq_ok, Decidable.not_not, castObjectionInternal, pure_eq_ok,
        Prod.mk.injEq] at h
      obtain ⟨_, rfl, _, -, votes, -, rfl, rfl⟩ := h
      refine ⟨⟨by decide, (setReceipt (ds.proposals id) voter ⟨true, 0, votes⟩).receipts,
        (ds.proposals id).objectionPeriodEndBlock, ?_⟩, .inr ⟨hobjection ▸ hs, rfl, ?_⟩⟩
      · simp only [setProposal, Function.update_self]
        rfl
      · simp only [setProposal, Function.update_self]
        rfl
    · simp at h

end StorageV3

/-! ## The verdict -/

namespace ProposalStorage

variable {s s' : ProposalStorage} {id : Nat}

theorem quorumFor_mono {p : Proposal} {againstVotes againstVotes' votes votes' : Nat}
    (hle : againstVotes ≤ againstVotes') (h : s.quorumFor p againstVotes = .ok votes)
    (h' : s.quorumFor p againstVotes' = .ok votes') : votes ≤ votes' := by
  unfold quorumFor at h h'
  split at h
  · rw [if_pos ‹_›, pure_eq_ok] at h'
    rw [pure_eq_ok] at h
    omega
  · rw [if_neg ‹_›] at h'
    simp only [bind_eq_ok, dynamicQuorumVotes, require_eq_ok, pure_eq_ok] at h h'
    obtain ⟨params, hparams, _, -, rfl⟩ := h
    obtain ⟨params', hparams', _, -, rfl⟩ := h'
    rw [hparams] at hparams'
    cases hparams'
    -- The quorum is the same fraction as in `quorumBPS`.
    exact Nat.div_le_div_right (Nat.mul_le_mul_left _ (quorumBPS_mono hle))

theorem isDefeated_of_forVotes_eq_zero {p : Proposal} (h : p.forVotes = 0) :
    s.isDefeated p = .ok true := by
  simp [isDefeated, h, pure, Except.pure]

/-- Votes against and abstentions never rescue a defeated proposal. -/
theorem isDefeated_mono (hid : (s.proposals id).id = id)
    (hterms : Gov.SameTerms (s.proposals id) (s'.proposals id))
    (hquorum : s'.getDynamicQuorumParamsAt (s.proposals id).creationBlock =
      s.getDynamicQuorumParamsAt (s.proposals id).creationBlock)
    (hfor : (s'.proposals id).forVotes ≤ (s.proposals id).forVotes)
    (hagainst : (s.proposals id).againstVotes ≤ (s'.proposals id).againstVotes)
    (h : s.isDefeated (s.proposals id) = .ok true) :
    s'.isDefeated (s'.proposals id) ≠ .ok false := by
  intro h'
  simp only [isDefeated, hterms.id, hid] at h h'
  split at h'
  · simp at h'
  · simp only [bind_eq_ok, pure_eq_ok, decide_eq_false_iff_not] at h'
    obtain ⟨votes', hvotes', hge⟩ := h'
    rw [if_neg (by omega)] at h
    simp only [bind_eq_ok, pure_eq_ok, decide_eq_true_eq] at h
    obtain ⟨votes, hvotes, hlt⟩ := h
    have hsame : s'.quorumFor (s'.proposals id) (s'.proposals id).againstVotes =
        s.quorumFor (s.proposals id) (s'.proposals id).againstVotes := by
      rw [quorumFor, quorumFor, hterms.totalSupply, hterms.quorumVotes, hterms.creationBlock,
        hquorum]
    rw [quorumVotes_eq, hsame] at hvotes'
    have hle := quorumFor_mono hagainst hvotes hvotes'
    omega

end ProposalStorage

namespace StorageV3

variable {ds ds' : StorageV3 H} {env : Env H} {id support votes : Nat} {voter : Address}

theorem Counts.sameTerms (h : Counts ds ds' id support votes) :
    Gov.SameTerms (ds.proposals id) (ds'.proposals id) := by
  obtain ⟨receipts, o, hp⟩ := h.proposal
  rw [hp, countVotes_eq _ h.support_le]
  exact ⟨rfl, rfl, rfl, rfl, rfl, rfl, rfl, rfl⟩

theorem Counts.forVotes_eq (h : Counts ds ds' id support votes) :
    (ds'.proposals id).forVotes = (ds.proposals id).forVotes + if support = 1 then votes else 0 := by
  obtain ⟨receipts, o, hp⟩ := h.proposal
  rw [hp, countVotes_eq _ h.support_le]

theorem Counts.againstVotes_eq (h : Counts ds ds' id support votes) :
    (ds'.proposals id).againstVotes =
      (ds.proposals id).againstVotes + if support = 0 then votes else 0 := by
  obtain ⟨receipts, o, hp⟩ := h.proposal
  rw [hp, countVotes_eq _ h.support_le]

theorem Counts.abstainVotes_eq (h : Counts ds ds' id support votes) :
    (ds'.proposals id).abstainVotes =
      (ds.proposals id).abstainVotes + if support = 2 then votes else 0 := by
  obtain ⟨receipts, o, hp⟩ := h.proposal
  rw [hp, countVotes_eq _ h.support_le]

theorem castVoteInternal_quorumParams (h : ds.castVoteInternal env voter id support = .ok (ds', votes))
    (block : Nat) : ds'.getDynamicQuorumParamsAt block = ds.getDynamicQuorumParamsAt block := by
  obtain ⟨p, -, hchanged⟩ := castVoteInternal_ok h
  rw [hchanged.store]
  rfl

/-- A vote that adds nothing to the votes for a defeated proposal leaves it defeated. -/
theorem castVoteInternal_defeated (h : ds.castVoteInternal env voter id support = .ok (ds', votes))
    (hid : (ds.proposals id).id = id)
    (hfor : (ds'.proposals id).forVotes ≤ (ds.proposals id).forVotes)
    (hbefore : ds.isDefeated (ds.proposals id) = .ok true) :
    ds'.isDefeated (ds'.proposals id) ≠ .ok false := by
  obtain ⟨hcounts, -⟩ := castVoteInternal_cases h
  apply ProposalStorage.isDefeated_mono hid hcounts.sameTerms
    (castVoteInternal_quorumParams h _) hfor _ hbefore
  rw [hcounts.againstVotes_eq]
  omega

/-- The second part of the check looks at the verdict the vote leaves behind. -/
theorem castVoteInternal_isDefeated
    (h : ds.castVoteInternal env voter id support = .ok (ds', votes))
    (hid : (ds.proposals id).id = id) :
    (ds.setProposal id (countVotes (ds.proposals id) support votes)).isDefeated
      (countVotes (ds.proposals id) support votes) = ds'.isDefeated (ds'.proposals id) := by
  obtain ⟨hcounts, -⟩ := castVoteInternal_cases h
  obtain ⟨receipts, o, hp⟩ := hcounts.proposal
  have hself : (ds.setProposal id (countVotes (ds.proposals id) support votes)).proposals id =
      countVotes (ds.proposals id) support votes := Function.update_self ..
  have hverdict : ProposalStorage.SameVerdict
      (ds.setProposal id (countVotes (ds.proposals id) support votes)).toProposalStorage
      ds'.toProposalStorage id := by
    refine ⟨?_, ?_, ?_, castVoteInternal_quorumParams h _⟩
    · rw [hself, hp]
      exact ⟨rfl, rfl, rfl, rfl, rfl, rfl, rfl, rfl⟩
    · rw [hself, hp]
    · rw [hself, hp]
  have heq := hverdict.isDefeated_eq (by rw [hself, countVotes_eq _ hcounts.support_le]; exact hid)
  rw [hself] at heq
  exact heq.symm

end StorageV3

/-! ## Runs -/

namespace World

variable {d : Deployment H} {w w' : World H} {h : List (World H)} {id W : Nat}

/-- The verdict on proposal `id` as it stands. -/
def defeated (w : World H) (id : Nat) : Tx Bool := w.dao.isDefeated (w.dao.proposals id)

/-- The step casts a vote for proposal `id`. -/
def VotesFor (d : Deployment H) (id : Nat) (w w' : World H) : Prop :=
  ∃ voter votes ds, w.dao.castVoteInternal (w.env d) voter id 1 = .ok (ds, votes) ∧
    w'.dao.toProposalStorage = ds.toProposalStorage

/-- A vote for the proposal, within the last `W` blocks, takes it from defeated to passing. -/
structure LastMinuteFlip (d : Deployment H) (W id : Nat) (w w' : World H) : Prop where
  vote : VotesFor d id w w'
  window : (w.dao.proposals id).endBlock - w.blockNumber < W
  before : w.defeated id = .ok true
  after : w'.defeated id = .ok false

theorem VotesFor.active (hv : VotesFor d id w w') : w.state d id = .ok .Active := by
  obtain ⟨voter, votes, ds, hcast, -⟩ := hv
  obtain ⟨-, ⟨hactive, -⟩ | ⟨-, h0, -⟩⟩ := StorageV3.castVoteInternal_cases hcast
  · exact hactive
  · exact absurd h0 (by decide)

theorem le_proposalCount_of_forVotes (hwf : w.gov.Wf) (hfor : (w.dao.proposals id).forVotes ≠ 0) :
    id ≤ w.dao.proposalCount := by
  by_contra hlt
  have hempty : w.dao.proposals id = Proposal.empty := hwf.fresh id (Nat.not_le.mp hlt)
  rw [hempty] at hfor
  exact hfor rfl

variable [DecidableEq H]

theorem Next.votes (hn : NextAny d w w') (id : Nat) :
    SameVotes (w.dao.proposals id) (w'.dao.proposals id) ∨
    ∃ voter support votes ds, w.dao.castVoteInternal (w.env d) voter id support =
      .ok (ds, votes) ∧ w'.dao.toProposalStorage = ds.toProposalStorage :=
  hn.daoStep.votes id

theorem voted_after_creation (hr : Reachable Fresh (NextAny d) w) (id : Nat)
    (hfor : (w.dao.proposals id).forVotes ≠ 0) :
    (w.dao.proposals id).creationBlock < w.blockNumber := by
  revert hfor
  apply hr.invariant (P := fun w => (w.dao.proposals id).forVotes ≠ 0 →
    (w.dao.proposals id).creationBlock < w.blockNumber)
  · intro w hw hfor
    rw [hw.proposals] at hfor
    exact absurd rfl hfor
  · intro w w' hr ih hn hfor
    have hwf := wf_of_fresh hr
    have hle : w.blockNumber ≤ w'.blockNumber := hn.storeStep.blockNumber_le
    rcases hn.votes id with hsame | ⟨voter, support, votes, ds, hcast, hstore⟩
    · rw [hsame.forVotes] at hfor
      have hterms := hn.storeStep.sameTerms (le_proposalCount_of_forVotes hwf hfor)
      have hcreation := ih hfor
      have heq : (w'.dao.proposals id).creationBlock = (w.dao.proposals id).creationBlock :=
        hterms.creationBlock
      omega
    · -- A vote comes after the start of the voting period.
      obtain ⟨hcounts, hstate⟩ := StorageV3.castVoteInternal_cases hcast
      have heq : (w'.dao.proposals id).creationBlock = (w.dao.proposals id).creationBlock := by
        rw [hstore]
        exact hcounts.sameTerms.creationBlock
      have htimeline := hwf.timeline id
      have hstart : (w.dao.proposals id).startBlock < w.blockNumber := by
        rcases hstate with ⟨hactive, -⟩ | ⟨hobjection, -⟩
        · obtain ⟨b, -, hin⟩ := hwf.isIn hactive
          cases hin with
          | active _ _ hstart _ => exact hstart
        · obtain ⟨b, -, hin⟩ := hwf.isIn hobjection
          cases hin with
          | objectionPeriod _ _ hstart _ _ => exact hstart
      have hupdate := htimeline.update
      have hstarts := htimeline.start
      change (w.dao.proposals id).creationBlock ≤ _ at hupdate
      change _ ≤ (w.dao.proposals id).startBlock at hstarts
      omega

/-- Only a vote for a proposal turns it from defeated to passing. -/
theorem votesFor_of_flip (hr : Reachable Fresh (NextAny d) w) (hn : NextAny d w w')
    (hbefore : w.defeated id = .ok true) (hafter : w'.defeated id = .ok false) :
    VotesFor d id w w' := by
  have hwf := wf_of_fresh hr
  rcases hn.votes id with hsame | ⟨voter, support, votes, ds, hcast, hstore⟩
  · by_cases hfor : (w.dao.proposals id).forVotes = 0
    · have hstill : w'.defeated id = .ok true :=
        ProposalStorage.isDefeated_of_forVotes_eq_zero (hsame.forVotes.trans hfor)
      rw [hafter] at hstill
      cases hstill
    · -- With votes for it, the proposal is past its creation block and its quorum is settled.
      have hid := le_proposalCount_of_forVotes hwf hfor
      obtain ⟨hterms, hquorum⟩ := hn.storeStep.sameQuorum hwf hid (voted_after_creation hr id hfor)
      have hverdict : ProposalStorage.SameVerdict w.dao.toProposalStorage
          w'.dao.toProposalStorage id := ⟨hterms, hsame.forVotes, hsame.againstVotes, hquorum⟩
      have heq : w'.defeated id = w.defeated id := hverdict.isDefeated_eq (hwf.id_eq id hid)
      rw [heq, hbefore] at hafter
      cases hafter
  · obtain ⟨hcounts, hstate⟩ := StorageV3.castVoteInternal_cases hcast
    have hid : id ≤ w.dao.proposalCount := by
      rcases hstate with ⟨hactive, -⟩ | ⟨hobjection, -⟩
      · exact ProposalStorage.stateInternal_le hactive
      · exact ProposalStorage.stateInternal_le hobjection
    by_cases hsupport : support = 1
    · subst hsupport
      exact ⟨voter, votes, ds, hcast, hstore⟩
    · have hfor : (ds.proposals id).forVotes ≤ (w.dao.proposals id).forVotes := by
        rw [hcounts.forVotes_eq, if_neg hsupport]
        omega
      unfold defeated at hafter
      rw [hstore] at hafter
      exact absurd hafter
        (StorageV3.castVoteInternal_defeated hcast (hwf.id_eq id hid) hfor hbefore)

/-- The end of the objection period is written by the first flip in the window, and only by it. -/
theorem objection_latched (hr : Reachable Fresh (NextAny d) w) (hn : NextAny d w w')
    (hW : w.state d id = .ok .Active → w.dao.lastMinuteWindowInBlocks = W) :
    Latched (LastMinuteFlip d W id)
      (fun w => (w.dao.proposals id).endBlock + w.dao.objectionPeriodDurationInBlocks)
      (fun w => (w.dao.proposals id).objectionPeriodEndBlock) w w' := by
  have hwf := wf_of_fresh hr
  -- A step that is no flip and still writes the end would have passed the two-part check.
  have hkeep : (w.dao.proposals id).objectionPeriodEndBlock ≠ 0 ∨ ¬ LastMinuteFlip d W id w w' →
      (w'.dao.proposals id).objectionPeriodEndBlock =
        (w.dao.proposals id).objectionPeriodEndBlock := by
    intro hnot
    rcases hn.votes id with hsame | ⟨voter, support, votes, ds, hcast, hstore⟩
    · exact hsame.objectionPeriodEndBlock
    · rw [hstore]
      obtain ⟨hcounts, ⟨hactive, hvote⟩ | ⟨-, -, hobjection⟩⟩ :=
        StorageV3.castVoteInternal_cases hcast
      · obtain ⟨hopens, -⟩ | ⟨-, hsame⟩ :=
          StorageV3.castVoteDuringVotingPeriodInternal_objection hvote
        · exfalso
          rcases hnot with hset | hnot
          · exact hset hopens.unset
          · have hid : id ≤ w.dao.proposalCount := ProposalStorage.stateInternal_le hactive
            have hafter := hopens.after
            rw [StorageV3.castVoteInternal_isDefeated hcast (hwf.id_eq id hid)] at hafter
            refine hnot ⟨⟨voter, votes, ds, hopens.forVote ▸ hcast, hstore⟩, ?_, hopens.before, ?_⟩
            · rw [← hW hactive]
              exact hopens.window
            · unfold defeated
              rw [hstore]
              exact hafter
        · exact hsame
      · exact hobjection
  refine ⟨fun hset => hkeep (.inl hset), ?_, fun h0 hnot => (hkeep (.inr hnot)).trans h0⟩
  intro h0 hflip
  obtain ⟨voter, votes, ds, hcast, hstore⟩ := hflip.vote
  have hactive := hflip.vote.active
  have hid : id ≤ w.dao.proposalCount := ProposalStorage.stateInternal_le hactive
  obtain ⟨-, ⟨-, hvote⟩ | ⟨-, hsupport, -⟩⟩ := StorageV3.castVoteInternal_cases hcast
  · have hopens : StorageV3.Opens w.dao (w.env d) id 1 votes := by
      refine ⟨rfl, ?_, hflip.before, h0, ?_⟩
      · rw [hW hactive]
        exact hflip.window
      · rw [StorageV3.castVoteInternal_isDefeated hcast (hwf.id_eq id hid)]
        have hafter := hflip.after
        unfold defeated at hafter
        rw [hstore] at hafter
        exact hafter
    obtain ⟨-, hend⟩ | ⟨hnot, -⟩ := StorageV3.castVoteDuringVotingPeriodInternal_objection hvote
    · refine ⟨?_, ?_⟩
      · change (w'.dao.proposals id).objectionPeriodEndBlock = _
        rw [hstore]
        exact hend
      · change (w.dao.proposals id).endBlock + w.dao.objectionPeriodDurationInBlocks ≠ 0
        obtain ⟨b, -, hin⟩ := hwf.isIn hactive
        cases hin with
        | active _ _ hstart hle =>
          have hblock : (w.dao.proposals id).startBlock < w.blockNumber := hstart
          have hend : w.blockNumber ≤ (w.dao.proposals id).endBlock := hle
          omega
    · exact absurd hopens hnot
  · exact absurd hsupport (by decide)

/-- In the objection period a step adds votes against the proposal, or none. -/
theorem objection_votes (hr : Reachable Fresh (NextAny d) w) (hn : NextAny d w w')
    (hstate : w.state d id = .ok .ObjectionPeriod) :
    (w'.dao.proposals id).forVotes = (w.dao.proposals id).forVotes ∧
    (w'.dao.proposals id).abstainVotes = (w.dao.proposals id).abstainVotes ∧
    (w.dao.proposals id).againstVotes ≤ (w'.dao.proposals id).againstVotes ∧
    (w.defeated id = .ok true → w'.defeated id = .ok true) := by
  have hwf' := wf_of_fresh (hr.step hn)
  have hid : id ≤ w.dao.proposalCount := ProposalStorage.stateInternal_le hstate
  have hid' : id ≤ w'.dao.proposalCount := hid.trans hn.storeStep.proposalCount_le
  have hdefeated : w.defeated id = .ok true → w'.defeated id = .ok true := by
    intro hbefore
    obtain ⟨b, hb⟩ := hwf'.isDefeated_ok hid'
    have hafter : w'.defeated id = .ok b := hb
    cases b with
    | true => exact hafter
    | false =>
      have hactive := (votesFor_of_flip hr hn hbefore hafter).active
      rw [hstate] at hactive
      cases hactive
  rcases hn.votes id with hsame | ⟨voter, support, votes, ds, hcast, hstore⟩
  · exact ⟨hsame.forVotes, hsame.abstainVotes, hsame.againstVotes.ge, hdefeated⟩
  · obtain ⟨hcounts, ⟨hactive, -⟩ | ⟨-, rfl, -⟩⟩ := StorageV3.castVoteInternal_cases hcast
    · have hstate' : w.state d id = .ok .Active := hactive
      rw [hstate] at hstate'
      cases hstate'
    · refine ⟨?_, ?_, ?_, hdefeated⟩
      · rw [hstore, hcounts.forVotes_eq]
        rfl
      · rw [hstore, hcounts.abstainVotes_eq]
        rfl
      · rw [hstore, hcounts.againstVotes_eq]
        omega

/-- A proposal that was defeated in the window and passes now was turned in the window. -/
theorem exists_flip (hr : Run Fresh (NextAny d) (w :: h)) {t : World H} (ht : t ∈ w :: h)
    (hid : id ≤ t.dao.proposalCount) (hwindow : (t.dao.proposals id).endBlock - t.blockNumber < W)
    (hbefore : t.defeated id = .ok true) (hafter : w.defeated id = .ok false) :
    ∃ u u', Follows (w :: h) u u' ∧ LastMinuteFlip d W id u u' := by
  have hnow : ¬ w.defeated id = .ok true := by
    rw [hafter]
    simp
  obtain ⟨u, u', hf, hsteps, hu, hu'⟩ :=
    hr.exists_change (P := fun t => t.defeated id = .ok true) ht hbefore hnow
  have hreach := hr.reachable_of_mem hf.mem.1
  have hn := hr.next_of_follows hf
  obtain ⟨hterms, hle⟩ := sameTerms_of_steps hsteps hid
  have hflipped : u'.defeated id = .ok false := by
    obtain ⟨b, hb⟩ :=
      (wf_of_fresh (hreach.step hn)).isDefeated_ok (hle.trans hn.storeStep.proposalCount_le)
    have hverdict : u'.defeated id = .ok b := hb
    cases b with
    | true => exact absurd hverdict hu'
    | false => exact hverdict
  have hclock : t.blockNumber ≤ u.blockNumber := by
    apply steps_preserve (P := fun u => t.blockNumber ≤ u.blockNumber) hsteps Nat.le.refl
    intro v v' hv hn
    exact hv.trans hn.storeStep.blockNumber_le
  refine ⟨u, u', hf, votesFor_of_flip hreach hn hu hflipped, ?_, hu, hflipped⟩
  rw [hterms.endBlock]
  omega

/-- Runs in which the window is `W` whenever votes are taken on the proposal.  It gets an objection
period exactly when a last-minute vote turned it; so it gets one, as long as the first such vote
asks for, when it was defeated in the window and passes in the end.  In the objection period it can
only lose. -/
theorem last_minute_flips (hr : Run Fresh (NextAny d) (w :: h))
    (hW : ∀ t ∈ w :: h, t.state d id = .ok .Active → t.dao.lastMinuteWindowInBlocks = W) :
    ((w.dao.proposals id).objectionPeriodEndBlock ≠ 0 ↔
      ∃ t t', Follows (w :: h) t t' ∧ LastMinuteFlip d W id t t') ∧
    ((∃ t ∈ w :: h, id ≤ t.dao.proposalCount ∧ t.blockNumber ≤ (t.dao.proposals id).endBlock ∧
        (t.dao.proposals id).endBlock - t.blockNumber < W ∧ t.defeated id = .ok true) →
      w.defeated id = .ok false →
      ∃ t t', FirstStep (LastMinuteFlip d W id) (w :: h) t t' ∧
        (w.dao.proposals id).objectionPeriodEndBlock =
          (w.dao.proposals id).endBlock + t.dao.objectionPeriodDurationInBlocks) ∧
    (w.state d id = .ok .ObjectionPeriod → ∀ w', NextAny d w w' →
      (w'.dao.proposals id).forVotes = (w.dao.proposals id).forVotes ∧
      (w'.dao.proposals id).abstainVotes = (w.dao.proposals id).abstainVotes ∧
      (w.dao.proposals id).againstVotes ≤ (w'.dao.proposals id).againstVotes ∧
      (w.defeated id = .ok true → w'.defeated id = .ok true)) := by
  have hlatched := hr.latched (P := LastMinuteFlip d W id)
    (fun w hw => by rw [hw.proposals]; rfl)
    (fun t t' hf => objection_latched (hr.reachable_of_mem hf.mem.1) (hr.next_of_follows hf)
      (hW t hf.mem.1))
  obtain ⟨hzero, hfilled⟩ := hlatched
  have hexact : (w.dao.proposals id).objectionPeriodEndBlock ≠ 0 ↔
      ∃ t t', Follows (w :: h) t t' ∧ LastMinuteFlip d W id t t' := by
    constructor
    · intro hset
      obtain ⟨t, t', hfirst, -⟩ := hfilled hset
      obtain ⟨l, r, hl, hflip, -⟩ := hfirst
      exact ⟨t, t', ⟨l, r, hl⟩, hflip⟩
    · rintro ⟨t, t', hf, hflip⟩ h0
      exact hzero h0 t t' hf hflip
  refine ⟨hexact, ?_, fun hstate w' hn => objection_votes hr.reachable hn hstate⟩
  rintro ⟨t, ht, hid, -, hwindow, hbefore⟩ hafter
  obtain ⟨t, t', hfirst, hvalue⟩ := hfilled (hexact.mpr (exists_flip hr ht hid hwindow hbefore hafter))
  refine ⟨t, t', hfirst, ?_⟩
  obtain ⟨l, r, hl, hflip, -⟩ := hfirst
  have hmem : t ∈ w :: h := by
    rw [hl]
    simp
  obtain ⟨hterms, -⟩ := sameTerms_of_steps (hr.steps_of_mem hmem)
    (ProposalStorage.stateInternal_le hflip.vote.active)
  rw [hterms.endBlock]
  exact hvalue

/-- A deployment with a window longer than the voting period. -/
def sampleWithWindow : World Preimage :=
  { World.sample with
    dao := { World.sample.dao with
      lastMinuteWindowInBlocks := 10000
      objectionPeriodDurationInBlocks := 5 } }

/-- 7 proposes and, two blocks later, its own vote turns the proposal. -/
theorem last_minute_flips_of_first_vote :
    ∃ w h, Run Fresh (NextAny .sample) (w :: h) ∧ w.defeated 1 = .ok false ∧
      (∃ t t', Follows (w :: h) t t' ∧ LastMinuteFlip .sample 10000 1 t t') ∧
      ∃ t t', FirstStep (LastMinuteFlip .sample 10000 1) (w :: h) t t' ∧
        (w.dao.proposals 1).objectionPeriodEndBlock =
          (w.dao.proposals 1).endBlock + t.dao.objectionPeriodDurationInBlocks := by
  have hrun : Yields (sampleWithWindow.run .sample
      (fun _ _ w' => w'.dao.lastMinuteWindowInBlocks = 10000)
      [.callToken .minter .mint, .advance 2 2, .ofDAO .minter (.propose .sample ""),
        .advance 4 4]) (fun w => (w.dao.proposalCount = 1 ∧
          w.blockNumber ≤ (w.dao.proposals 1).endBlock ∧
          (w.dao.proposals 1).endBlock - w.blockNumber < 10000 ∧ w.defeated 1 = .ok true) ∧
        Yields (w.step .sample (.ofDAO .minter (.castVote 1 1)))
          (fun w' => w'.dao.lastMinuteWindowInBlocks = 10000 ∧ w'.defeated 1 = .ok false)) := by
    decide +kernel
  obtain ⟨w, hw, ⟨hcount, hblock, hwindow, hbefore⟩, w', hstep, hsame, hafter⟩ := hrun
  -- Steps that leave the window as it is.
  let next : World Preimage → World Preimage → Prop := fun w w' =>
    NextAny .sample w w' ∧ w'.dao.lastMinuteWindowInBlocks = 10000
  let init : World Preimage → Prop := fun w => w.Fresh ∧ w.dao.lastMinuteWindowInBlocks = 10000
  have hstart : init sampleWithWindow := ⟨⟨rfl, fun _ => rfl, sample_fresh.checkpoints, rfl⟩, rfl⟩
  have hsteps : Relation.ReflTransGen next sampleWithWindow w :=
    run_steps (fun w a w' hstep hadmits => ⟨.step a trivial hstep, hadmits⟩) hw
  obtain ⟨h, hr⟩ := Reachable.exists_run ⟨_, hstart, hsteps⟩
  have hr' : Run init next (w' :: w :: h) := hr.step ⟨.step _ trivial hstep, hsame⟩
  have hW : ∀ t ∈ w' :: w :: h, t.state .sample 1 = .ok .Active →
      t.dao.lastMinuteWindowInBlocks = 10000 := by
    intro t ht _
    apply (hr'.reachable_of_mem ht).invariant (P := fun t => t.dao.lastMinuteWindowInBlocks = 10000)
    · exact fun _ hs => hs.2
    · exact fun _ _ _ _ hn => hn.2
  have hany : Run Fresh (NextAny .sample) (w' :: w :: h) :=
    hr'.mono (fun _ hs => hs.1) (fun _ _ hn => hn.1)
  obtain ⟨hexact, hturned, -⟩ := last_minute_flips hany hW
  have hmoment := hturned ⟨w, by simp, hcount.ge, hblock, hwindow, hbefore⟩ hafter
  refine ⟨w', w :: h, hany, hafter, ?_, hmoment⟩
  obtain ⟨t, t', ⟨l, r, hl, hflip, -⟩, -⟩ := hmoment
  exact ⟨t, t', ⟨l, r, hl⟩, hflip⟩

end World

end Nouns
