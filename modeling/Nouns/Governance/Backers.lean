import Nouns.Governance.Creation
import Nouns.Governance.QuorumHistory

/-!
# Backers — one live proposal per account

The DAO stores only the latest proposal of an account.  That is enough: a proposal that is over
never becomes live again, and everyone who backs a new proposal is registered with it.
-/

open Fallible Checkpoints Transition

namespace Nouns

variable {H : Type}

namespace Proposal

variable {p p' : Proposal} {now now' : Nat}

/-- `a` proposed it or is one of its recorded signers. -/
def BackedBy (p : Proposal) (a : Address) : Prop := p.proposer = a ∨ a ∈ p.signers

instance (p : Proposal) (a : Address) : Decidable (p.BackedBy a) :=
  inferInstanceAs (Decidable (_ ∨ _))

theorem BackedBy.of_eq {a : Address} (h : p'.BackedBy a) (hproposer : p'.proposer = p.proposer)
    (hsigners : p'.signers = p.signers) : p.BackedBy a := by
  unfold BackedBy at h ⊢
  rw [← hproposer, ← hsigners]
  exact h

/-- Being live is a matter of six fields. -/
theorem Live.of_eq (h : p'.Live now) (hvetoed : p'.vetoed = p.vetoed)
    (hcanceled : p'.canceled = p.canceled)
    (hupdate : p'.updatePeriodEndBlock = p.updatePeriodEndBlock)
    (hstart : p'.startBlock = p.startBlock) (hend : p'.endBlock = p.endBlock)
    (hobjection : p'.objectionPeriodEndBlock = p.objectionPeriodEndBlock) : p.Live now := by
  obtain ⟨⟨halive, hnot⟩, hopen⟩ := h
  refine ⟨⟨hvetoed ▸ halive, hcanceled ▸ hnot⟩, fun hclosed => hopen ?_⟩
  obtain ⟨hu, hs, he, ho⟩ := hclosed
  exact ⟨by omega, by omega, by omega, by omega⟩

theorem Live.mono (h : p.Live now') (hle : now ≤ now') : p.Live now := by
  refine ⟨h.1, fun hclosed => h.2 ?_⟩
  obtain ⟨hupdate, hstart, hend, hobjection⟩ := hclosed
  exact ⟨by omega, by omega, by omega, by omega⟩

end Proposal

/-! ## What is over stays over -/

namespace Gov

variable {d : Deployment H} {g g' : Gov H} {id : Nat}

theorem ProposalChange.live {p : Proposal} (h : ProposalChange d g id p)
    (hlive : p.Live g.blockNumber) : (g.store.proposals id).Live g.blockNumber := by
  cases h with
  | ballot p hballot =>
    cases hballot with
    | update txs _ _ => exact hlive.of_eq rfl rfl rfl rfl rfl rfl
    | vote voter support votes o hactive _ _ _ _ =>
      -- The end of the objection period is written while the proposal is active.
      exact (ProposalStorage.stateInternal_isLive hactive).mp (by decide)
    | object voter votes hobjection _ _ =>
      exact (ProposalStorage.stateInternal_isLive hobjection).mp (by decide)
  | queue delay _ => exact hlive.of_eq rfl rfl rfl rfl rfl rfl
  | cancel s _ _ _ _ _ _ => exact absurd hlive.1.2 (by simp)
  | veto s _ _ => exact absurd hlive.1.1 (by simp)
  | execute _ => exact hlive.of_eq rfl rfl rfl rfl rfl rfl

theorem StoreStep.live (h : StoreStep d g g') (hid : id ≤ g.store.proposalCount)
    (hlive : (g'.store.proposals id).Live g'.blockNumber) :
    (g.store.proposals id).Live g.blockNumber := by
  have hle := h.blockNumber_le
  revert hlive
  apply h.proposal (P := fun p => p.Live g'.blockNumber → (g.store.proposals id).Live g.blockNumber)
  · exact fun hlive => hlive.mono hle
  · exact fun p hp hlive => hp.live (hlive.mono hle)
  · intro p hnew
    omega

end Gov

/-! ## Steps -/

namespace World

variable [DecidableEq H] {d : Deployment H} {w w' : World H}

/-- Everyone who backs a live proposal is registered with it. -/
def Registered (w : World H) : Prop :=
  ∀ id a, 0 < id → id ≤ w.dao.proposalCount → (w.dao.proposals id).Live w.blockNumber →
    (w.dao.proposals id).BackedBy a → w.dao.latestProposalIds a = id

/-- A step that creates no proposal and registers nobody. -/
theorem Registered.of_same (h : w.Registered) (hn : NextAny d w w')
    (hcount : w'.dao.proposalCount = w.dao.proposalCount)
    (hlatest : w'.dao.latestProposalIds = w.dao.latestProposalIds)
    (hback : ∀ id a, (w'.dao.proposals id).BackedBy a → (w.dao.proposals id).BackedBy a) :
    w'.Registered := by
  intro id a hid hle hlive ha
  rw [hcount] at hle
  rw [hlatest]
  exact h id a hid hle (hn.storeStep.live hle hlive) (hback id a ha)

theorem Registered.propose (h : w.Registered) (hn : NextAny d w w') {sender : Address}
    {txs : ProposalTxs} {signers : List Address} {onV1 : Bool}
    (hp : StorageV3.Proposing (w.env d) sender txs signers onV1 w.dao w'.dao) : w'.Registered := by
  intro id a hid hle hlive ha
  rw [hp.latestProposalIds_eq]
  by_cases hnew : id = w.dao.proposalCount + 1
  · subst hnew
    obtain ⟨threshold, supply, hself⟩ := hp.proposals_new
    rw [hself] at ha
    have hmem : a = sender ∨ a ∈ signers := by
      rcases ha with ha | ha
      · exact .inl ha.symm
      · exact .inr ha
    exact if_pos hmem
  · have hold : id ≤ w.dao.proposalCount := by
      rw [hp.proposalCount_eq] at hle
      omega
    have hlive₀ : (w.dao.proposals id).Live w.blockNumber := hn.storeStep.live hold hlive
    rw [hp.proposals_old hnew] at ha
    have hlatest := h id a hid hold hlive₀ ha
    -- Registered with a live proposal, `a` would not have passed the check.
    have hnot : ¬ (a = sender ∨ a ∈ signers) :=
      fun hmem => hp.idle a hmem id hid hold hlatest hlive₀
    rw [if_neg hnot]
    exact hlatest

theorem Registered.next (h : w.Registered) (hwf : w.gov.Wf) (hn : NextAny d w w') :
    w'.Registered := by
  cases hn.effect hwf with
  | propose sender txs signers onV1 description hp _ => exact h.propose hn hp
  | update sender id txs log _ _ hdao =>
    refine h.of_same hn (by rw [hdao]; rfl) (by rw [hdao]; rfl) ?_
    intro id' a ha
    rw [hdao] at ha
    obtain ⟨hproposer, hsigners⟩ := w.dao.setTransactions_backers id txs id'
    exact ha.of_eq hproposer hsigners
  | updateBySigs sender id txs description log _ _ _ _ hdao =>
    refine h.of_same hn (by rw [hdao]; rfl) (by rw [hdao]; rfl) ?_
    intro id' a ha
    rw [hdao] at ha
    obtain ⟨hproposer, hsigners⟩ := w.dao.setTransactions_backers id txs id'
    exact ha.of_eq hproposer hsigners
  | edit id hedit =>
    exact h.of_same hn hedit.proposalCount_eq hedit.latestProposalIds_eq
      (fun id' a ha => ha.of_eq (hedit.sameContent id').proposer (hedit.sameContent id').signers)
  | cancelSig sender sig hdao =>
    refine h.of_same hn (by rw [hdao]; rfl) (by rw [hdao]; rfl) ?_
    intro id a ha
    rw [hdao] at ha
    exact ha
  | settings hproposals hcount hsettings =>
    refine h.of_same hn hcount hsettings.latestProposalIds ?_
    intro id a ha
    rw [hproposals] at ha
    exact ha

/-- An account is registered with a proposal that it backs. -/
def LatestBacked (w : World H) : Prop :=
  ∀ a, w.dao.latestProposalIds a ≠ 0 → w.dao.latestProposalIds a ≤ w.dao.proposalCount ∧
    (w.dao.proposals (w.dao.latestProposalIds a)).BackedBy a

omit [DecidableEq H] in
theorem LatestBacked.of_same (h : w.LatestBacked)
    (hcount : w'.dao.proposalCount = w.dao.proposalCount)
    (hlatest : w'.dao.latestProposalIds = w.dao.latestProposalIds)
    (hback : ∀ id a, (w.dao.proposals id).BackedBy a → (w'.dao.proposals id).BackedBy a) :
    w'.LatestBacked := by
  intro a ha
  rw [hlatest] at ha ⊢
  rw [hcount]
  exact (h a ha).imp_right (hback _ a)

omit [DecidableEq H] in
theorem LatestBacked.propose (h : w.LatestBacked) {env : Env H} {sender : Address}
    {txs : ProposalTxs} {signers : List Address} {onV1 : Bool}
    (hp : StorageV3.Proposing env sender txs signers onV1 w.dao w'.dao) : w'.LatestBacked := by
  intro a ha
  rw [hp.latestProposalIds_eq] at ha ⊢
  rw [hp.proposalCount_eq]
  split at ha
  · rename_i hmem
    rw [if_pos hmem]
    obtain ⟨threshold, supply, hself⟩ := hp.proposals_new
    rw [hself]
    exact ⟨le_rfl, hmem.imp_left Eq.symm⟩
  · rename_i hmem
    rw [if_neg hmem]
    obtain ⟨hle, hback⟩ := h a ha
    rw [hp.proposals_old (by omega)]
    exact ⟨by omega, hback⟩

theorem LatestBacked.next (h : w.LatestBacked) (hwf : w.gov.Wf) (hn : NextAny d w w') :
    w'.LatestBacked := by
  cases hn.effect hwf with
  | propose sender txs signers onV1 description hp _ => exact h.propose hp
  | update sender id txs log _ _ hdao =>
    refine h.of_same (by rw [hdao]; rfl) (by rw [hdao]; rfl) fun id' a ha => ?_
    rw [hdao]
    obtain ⟨hproposer, hsigners⟩ := w.dao.setTransactions_backers id txs id'
    exact ha.of_eq hproposer.symm hsigners.symm
  | updateBySigs sender id txs description log _ _ _ _ hdao =>
    refine h.of_same (by rw [hdao]; rfl) (by rw [hdao]; rfl) fun id' a ha => ?_
    rw [hdao]
    obtain ⟨hproposer, hsigners⟩ := w.dao.setTransactions_backers id txs id'
    exact ha.of_eq hproposer.symm hsigners.symm
  | edit id hedit =>
    exact h.of_same hedit.proposalCount_eq hedit.latestProposalIds_eq fun id' a ha =>
      ha.of_eq (hedit.sameContent id').proposer.symm (hedit.sameContent id').signers.symm
  | cancelSig sender sig hdao =>
    refine h.of_same (by rw [hdao]; rfl) (by rw [hdao]; rfl) fun id a ha => ?_
    rw [hdao]
    exact ha
  | settings hproposals hcount hsettings =>
    refine h.of_same hcount hsettings.latestProposalIds fun id a ha => ?_
    rw [hproposals]
    exact ha

/-! ## Runs -/

/-- No proposal was made yet, and nobody is registered with one. -/
structure Unbacked (w : World H) : Prop where
  fresh : w.Fresh
  latest : ∀ a, w.dao.latestProposalIds a = 0

theorem latestBacked_of_reachable (hr : Reachable Unbacked (NextAny d) w) : w.LatestBacked := by
  apply hr.invariant (P := LatestBacked)
  · intro w hw a ha
    exact absurd (hw.latest a) ha
  · intro w w' hr h hn
    have hfresh : Reachable Fresh (NextAny d) w := hr.mono (fun _ hw => hw.fresh) fun _ _ => id
    exact h.next (wf_of_fresh hfresh) hn

theorem registered_of_reachable (hr : Reachable Fresh (NextAny d) w) : w.Registered := by
  apply hr.invariant (P := Registered)
  · intro w hw id a hid hle
    rw [hw.proposalCount] at hle
    omega
  · exact fun w w' hr h hn => h.next (wf_of_fresh hr) hn

/-- No account proposes or signs two proposals that are both live, whoever proposes what with which
signatures and whenever. -/
theorem one_live_proposal (hr : Reachable Fresh (NextAny d) w) {a : Address} {id id' : Nat}
    {s s' : ProposalState} (hid : 0 < id) (hid' : 0 < id') (hs : w.state d id = .ok s)
    (hs' : w.state d id' = .ok s') (hlive : s.IsLive) (hlive' : s'.IsLive)
    (ha : (w.dao.proposals id).BackedBy a) (ha' : (w.dao.proposals id').BackedBy a) : id = id' := by
  have hregistered := registered_of_reachable hr
  have hlatest : w.dao.latestProposalIds a = id :=
    hregistered id a hid (ProposalStorage.stateInternal_le hs)
      ((ProposalStorage.stateInternal_isLive hs).mp hlive) ha
  have hlatest' : w.dao.latestProposalIds a = id' :=
    hregistered id' a hid' (ProposalStorage.stateInternal_le hs')
      ((ProposalStorage.stateInternal_isLive hs').mp hlive') ha'
  exact hlatest.symm.trans hlatest'

/-- 7 proposes with the signature of 8, so neither backs another live proposal. -/
theorem one_live_proposal_of_signed_proposal :
    ∃ w, Reachable Fresh (NextAny .sample) w ∧ w.state .sample 1 = .ok .Updatable ∧
      (w.dao.proposals 1).signers = [8] ∧
      ∀ id s, 0 < id → w.state .sample id = .ok s → s.IsLive →
        (w.dao.proposals id).BackedBy 8 → id = 1 := by
  have hrun : Yields (({ World.sample with outside := .sampleSigned } : World Preimage).run .sample
      (fun _ _ _ => True) [.callToken .minter .mint, .advance 2 2,
        .ofDAO .minter (.proposeBySigs [.sample] .sample "")]) (fun w =>
      w.state .sample 1 = .ok .Updatable ∧ (w.dao.proposals 1).signers = [8]) := by
    decide +kernel
  obtain ⟨w, hw, hstate, hsigners⟩ := hrun
  have hr : Reachable Fresh (NextAny .sample) w := by
    refine ⟨_, ?_, run_steps (fun w a w' hstep _ => .step a trivial hstep) hw⟩
    exact ⟨rfl, fun _ => rfl, sample_fresh.checkpoints, rfl⟩
  refine ⟨w, hr, hstate, hsigners, fun id s hid hs hlive ha => ?_⟩
  have hback : (w.dao.proposals 1).BackedBy 8 := by
    right
    rw [hsigners]
    exact List.mem_singleton.mpr rfl
  exact one_live_proposal hr hid Nat.one_pos hs hstate hlive (by decide) ha hback

end World

end Nouns
