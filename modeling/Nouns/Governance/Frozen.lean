import Nouns.Governance.Creation
import Nouns.Governance.QuorumHistory

/-!
# Frozen — what is voted on is what is executed

The actions of a proposal can be edited while it is updatable, and not after that, nor once it is
canceled or vetoed.  The timelock is given exactly these actions, with the stored eta.
-/

open Fallible Checkpoints Transition

namespace Nouns

variable {H : Type}

/-! ## The list of actions -/

namespace ProposalTxs

variable {txs : ProposalTxs} {eta i : Nat}

/-- The four arrays have one length between 1 and 10. -/
structure Uniform (txs : ProposalTxs) : Prop where
  aligned : txs.Aligned
  ge : 1 ≤ txs.targets.length
  le : txs.targets.length ≤ PROPOSAL_MAX_OPERATIONS

theorem uniform_of_check (h : checkProposalTxs txs = .ok ()) : txs.Uniform := by
  refine ⟨aligned_of_check h, ?_, ?_⟩
  · simp only [checkProposalTxs, bind_eq_ok, revertIf_eq_ok] at h
    obtain ⟨_, -, _, hne, -⟩ := h
    omega
  · simp only [checkProposalTxs, bind_eq_ok, revertIf_eq_ok] at h
    obtain ⟨_, -, _, -, hle⟩ := h
    omega

theorem lt_of_action {tx : Transaction} (h : txs.action eta i = .ok tx) :
    i < txs.targets.length := by
  unfold action at h
  split at h
  · rename_i htarget _ _ _
    exact (List.getElem?_eq_some_iff.mp htarget).1
  · cases h

theorem Aligned.action_toOption (h : txs.Aligned) (hi : i < txs.targets.length) :
    (txs.action eta i).toOption =
      some ((txs.action eta i).toOption.getD ⟨0, 0, "", [], 0⟩) := by
  obtain ⟨tx, htx⟩ := h.action_ok eta hi
  rw [htx]
  rfl

/-- No action is skipped. -/
theorem Aligned.actions_eq_map (h : txs.Aligned) (eta : Nat) :
    txs.actions eta = (List.range txs.targets.length).map
      (fun i => (txs.action eta i).toOption.getD ⟨0, 0, "", [], 0⟩) := by
  rw [← List.filterMap_eq_map']
  exact List.filterMap_congr (fun i hi => h.action_toOption (List.mem_range.mp hi))

theorem Aligned.length_actions (h : txs.Aligned) (eta : Nat) :
    (txs.actions eta).length = txs.targets.length := by
  rw [h.actions_eq_map, List.length_map, List.length_range]

/-- Action `i` of the list is read at index `i` of the four arrays. -/
theorem Aligned.actions_getElem? (h : txs.Aligned) (hi : i < txs.targets.length) :
    (txs.actions eta)[i]? = (txs.action eta i).toOption := by
  rw [h.actions_eq_map, List.getElem?_map, List.getElem?_range hi]
  exact (h.action_toOption hi).symm

end ProposalTxs

/-! ## Content -/

/-- The updatable period is over, or the proposal was canceled or vetoed. -/
def Proposal.Settled (p : Proposal) (now : Nat) : Prop :=
  p.updatePeriodEndBlock < now ∨ p.canceled = true ∨ p.vetoed = true

/-- The updatable period, the delay and the vote follow one another, the last two not empty. -/
structure Proposal.Ordered (p : Proposal) : Prop where
  update : p.creationBlock ≤ p.updatePeriodEndBlock
  start : p.updatePeriodEndBlock < p.startBlock
  end_ : p.startBlock < p.endBlock

namespace Gov

variable {d : Deployment H} {g g' : Gov H} {id : Nat}

theorem ProposalChange.settled {p : Proposal} (h : ProposalChange d g id p)
    (hold : (g.store.proposals id).Settled g.blockNumber) : p.Settled g.blockNumber := by
  cases h with
  | ballot p hballot =>
    cases hballot with
    | update txs _ _ => exact hold
    | vote voter support votes o _ hsupport _ _ _ =>
      rw [StorageV3.countVotes_eq _ hsupport]
      exact hold
    | object voter votes _ _ _ =>
      rw [StorageV3.countVotes_eq _ (Nat.zero_le 2)]
      exact hold
  | queue delay _ => exact hold
  | cancel s _ _ _ _ _ _ => exact .inr (.inl rfl)
  | veto s _ _ => exact .inr (.inr rfl)
  | execute _ => exact hold

theorem StoreStep.settled (h : StoreStep d g g') (hid : id ≤ g.store.proposalCount)
    (hold : (g.store.proposals id).Settled g.blockNumber) :
    (g'.store.proposals id).Settled g'.blockNumber := by
  have hle := h.blockNumber_le
  have hmono : ∀ p : Proposal, p.Settled g.blockNumber → p.Settled g'.blockNumber :=
    fun p hp => hp.imp_left (fun hlt => Nat.lt_of_lt_of_le hlt hle)
  apply h.proposal (P := fun p => p.Settled g'.blockNumber) (hmono _ hold)
  · exact fun p hp => hmono p (hp.settled hold)
  · intro p hnew
    omega

end Gov

namespace World

variable {d : Deployment H} {w w' : World H} {id : Nat}

/-- A proposal that was there before the step has the actions it had. -/
def KeepsTxs (w w' : World H) (id : Nat) : Prop :=
  (w'.dao.proposals id).toProposalTxs = (w.dao.proposals id).toProposalTxs ∧
    (id ≤ w'.dao.proposalCount → id ≤ w.dao.proposalCount)

/-- The actions of proposal `id` are written and were checked, and it is new or updatable. -/
def WritesTxs (d : Deployment H) (w w' : World H) (id : Nat) : Prop :=
  checkProposalTxs (w'.dao.proposals id).toProposalTxs = .ok () ∧
    (id = w.dao.proposalCount + 1 ∨ w.state d id = .ok .Updatable)

theorem txs_cases_of_update {id' : Nat} {txs : ProposalTxs} {log : List DAOEvent}
    (hdao : w'.dao = { w.dao.setTransactions id' txs with log })
    (hcheck : checkProposalTxs txs = .ok ()) (hstate : w.state d id' = .ok .Updatable) (id : Nat) :
    KeepsTxs w w' id ∨ WritesTxs d w w' id := by
  unfold KeepsTxs WritesTxs
  rw [hdao]
  by_cases hid : id = id'
  · subst hid
    right
    simp only [StorageV3.setTransactions, StorageV3.setProposal, Function.update_self]
    exact ⟨hcheck, .inr hstate⟩
  · left
    simp only [StorageV3.setTransactions, StorageV3.setProposal, Function.update_of_ne hid]
    exact ⟨trivial, fun hle => hle⟩

variable [DecidableEq H]

theorem Next.txs_cases (hn : NextAny d w w') (hwf : w.gov.Wf) (id : Nat) :
    KeepsTxs w w' id ∨ WritesTxs d w w' id := by
  cases hn.effect hwf with
  | propose sender txs signers onV1 description hp _ =>
    by_cases hid : id = w.dao.proposalCount + 1
    · subst hid
      obtain ⟨threshold, supply, hself⟩ := hp.proposals_new
      refine .inr ⟨?_, .inl rfl⟩
      rw [hself]
      exact hp.check
    · refine .inl ⟨by rw [hp.proposals_old hid], fun hle => ?_⟩
      rw [hp.proposalCount_eq] at hle
      omega
  | update sender id' txs log hupdatable hcheck hdao =>
    exact txs_cases_of_update hdao hcheck (StorageV3.checkProposalUpdatable_ok hupdatable) id
  | updateBySigs sender id' txs description log hstate _ hcheck _ hdao =>
    exact txs_cases_of_update hdao hcheck hstate id
  | edit id' hedit =>
    exact .inl ⟨(hedit.sameContent id).txs, fun hle => hedit.proposalCount_eq ▸ hle⟩
  | cancelSig sender sig hdao =>
    unfold KeepsTxs
    rw [hdao]
    exact .inl ⟨rfl, fun hle => hle⟩
  | settings hproposals hcount _ =>
    refine .inl ⟨?_, fun hle => hcount ▸ hle⟩
    rw [hproposals]

theorem uniform_of_reachable (hr : Reachable Fresh (NextAny d) w) {id : Nat} (hid : 0 < id)
    (hle : id ≤ w.dao.proposalCount) : (w.dao.proposals id).Uniform := by
  revert hle
  apply hr.invariant (P := fun w => id ≤ w.dao.proposalCount → (w.dao.proposals id).Uniform)
  · intro w hw hle
    rw [hw.proposalCount] at hle
    omega
  · intro w w' hr ih hn hle
    have hwf := wf_of_fresh hr
    rcases hn.txs_cases hwf id with ⟨hsame, hold⟩ | ⟨hcheck, -⟩
    · rw [hsame]
      exact ih (hold hle)
    · exact ProposalTxs.uniform_of_check hcheck

theorem txs_eq_of_settled (hn : NextAny d w w') (hwf : w.gov.Wf) (hid : id ≤ w.dao.proposalCount)
    (hsettled : (w.dao.proposals id).Settled w.blockNumber) :
    (w'.dao.proposals id).toProposalTxs = (w.dao.proposals id).toProposalTxs := by
  rcases hn.txs_cases hwf id with ⟨hsame, -⟩ | ⟨-, hnew | hstate⟩
  · exact hsame
  · omega
  · -- An updatable proposal is alive, and its updatable period is not over.
    exfalso
    obtain ⟨b, -, hin⟩ := hwf.isIn hstate
    cases hin with
    | updatable halive hle =>
      rcases hsettled with hlt | hcanceled | hvetoed
      · exact Nat.not_lt.mpr hle hlt
      · exact Proposal.not_alive_of_canceled halive hcanceled
      · exact Proposal.not_alive_of_vetoed halive hvetoed

theorem settled_of_steps (hsteps : Relation.ReflTransGen (NextAny d) w w')
    (hid : id ≤ w.dao.proposalCount) (hsettled : (w.dao.proposals id).Settled w.blockNumber) :
    (w'.dao.proposals id).Settled w'.blockNumber ∧ id ≤ w'.dao.proposalCount := by
  apply steps_preserve (P := fun w' => (w'.dao.proposals id).Settled w'.blockNumber ∧
    id ≤ w'.dao.proposalCount) hsteps ⟨hsettled, hid⟩
  rintro w w' ⟨hsettled, hid⟩ hn
  exact ⟨hn.storeStep.settled hid hsettled, hid.trans hn.storeStep.proposalCount_le⟩

/-- A run does not change the actions of a proposal that is past its updatable period, canceled or
vetoed. -/
theorem txs_eq_of_steps (hr : Reachable Fresh (NextAny d) w)
    (hsteps : Relation.ReflTransGen (NextAny d) w w') (hid : id ≤ w.dao.proposalCount)
    (hsettled : (w.dao.proposals id).Settled w.blockNumber) :
    (w'.dao.proposals id).toProposalTxs = (w.dao.proposals id).toProposalTxs := by
  induction hsteps with
  | refl => rfl
  | tail hsteps hn ih =>
    obtain ⟨hsettled', hid'⟩ := settled_of_steps hsteps hid hsettled
    exact (txs_eq_of_settled hn (wf_of_fresh (hr.steps hsteps)) hid' hsettled').trans ih

/-! ## Schedule -/

/-- The settings that a new proposal takes its blocks from are in the bounds of their setters. -/
structure VotingInBounds (w : World H) : Prop where
  delay : MIN_VOTING_DELAY_BLOCKS ≤ w.dao.votingDelay ∧ w.dao.votingDelay ≤ MAX_VOTING_DELAY_BLOCKS
  period : MIN_VOTING_PERIOD_BLOCKS ≤ w.dao.votingPeriod ∧
    w.dao.votingPeriod ≤ MAX_VOTING_PERIOD_BLOCKS

theorem Next.settings (hn : NextAny d w w') (hwf : w.gov.Wf) :
    (w'.dao.votingDelay = w.dao.votingDelay ∨ MIN_VOTING_DELAY_BLOCKS ≤ w'.dao.votingDelay ∧
      w'.dao.votingDelay ≤ MAX_VOTING_DELAY_BLOCKS) ∧
    (w'.dao.votingPeriod = w.dao.votingPeriod ∨ MIN_VOTING_PERIOD_BLOCKS ≤ w'.dao.votingPeriod ∧
      w'.dao.votingPeriod ≤ MAX_VOTING_PERIOD_BLOCKS) ∧
    (w'.dao.erc20TokensToIncludeInFork = w.dao.erc20TokensToIncludeInFork ∨
      w'.dao.erc20TokensToIncludeInFork.Nodup) := by
  cases hn.effect hwf with
  | propose sender txs signers onV1 description hp _ =>
    obtain ⟨hdelay, hperiod, herc20s⟩ := hp.settings_eq
    exact ⟨.inl hdelay, .inl hperiod, .inl herc20s⟩
  | update sender id txs log _ _ hdao =>
    rw [hdao]
    exact ⟨.inl rfl, .inl rfl, .inl rfl⟩
  | updateBySigs sender id txs description log _ _ _ _ hdao =>
    rw [hdao]
    exact ⟨.inl rfl, .inl rfl, .inl rfl⟩
  | edit id hedit =>
    obtain ⟨p, log, -, hdao⟩ := hedit
    rw [hdao]
    exact ⟨.inl rfl, .inl rfl, .inl rfl⟩
  | cancelSig sender sig hdao =>
    rw [hdao]
    exact ⟨.inl rfl, .inl rfl, .inl rfl⟩
  | settings _ _ hsettings =>
    exact ⟨hsettings.votingDelay, hsettings.votingPeriod, hsettings.erc20s⟩

theorem VotingInBounds.next (h : w.VotingInBounds) (hn : NextAny d w w') (hwf : w.gov.Wf) :
    w'.VotingInBounds := by
  obtain ⟨hdelay, hperiod, -⟩ := hn.settings hwf
  refine ⟨?_, ?_⟩
  · rcases hdelay with heq | hbounds
    · rw [heq]
      exact h.delay
    · exact hbounds
  · rcases hperiod with heq | hbounds
    · rw [heq]
      exact h.period
    · exact hbounds

/-- A proposal that was not there before the step was proposed in it. -/
theorem Next.created (hn : NextAny d w w') (hwf : w.gov.Wf) (hold : ¬ id ≤ w.dao.proposalCount)
    (hnew : id ≤ w'.dao.proposalCount) : ∃ sender txs signers onV1,
      StorageV3.Proposing (w.env d) sender txs signers onV1 w.dao w'.dao ∧
      id = w.dao.proposalCount + 1 := by
  cases hn.effect hwf with
  | propose sender txs signers onV1 description hp _ =>
    rw [hp.proposalCount_eq] at hnew
    exact ⟨sender, txs, signers, onV1, hp, by omega⟩
  | update sender id txs log _ _ hdao =>
    rw [hdao] at hnew
    exact absurd hnew hold
  | updateBySigs sender id txs description log _ _ _ _ hdao =>
    rw [hdao] at hnew
    exact absurd hnew hold
  | edit id hedit =>
    rw [hedit.proposalCount_eq] at hnew
    exact absurd hnew hold
  | cancelSig sender sig hdao =>
    rw [hdao] at hnew
    exact absurd hnew hold
  | settings _ hcount _ =>
    rw [hcount] at hnew
    exact absurd hnew hold

theorem ordered_of_reachable
    (hr : Reachable (fun w => w.Fresh ∧ w.VotingInBounds) (NextAny d) w) (hid : 0 < id)
    (hle : id ≤ w.dao.proposalCount) : (w.dao.proposals id).Ordered := by
  have hboth : w.VotingInBounds ∧ (id ≤ w.dao.proposalCount → (w.dao.proposals id).Ordered) := by
    clear hle
    apply hr.invariant (P := fun w => w.VotingInBounds ∧
      (id ≤ w.dao.proposalCount → (w.dao.proposals id).Ordered))
    · rintro w ⟨hw, hbounds⟩
      refine ⟨hbounds, fun hle => ?_⟩
      rw [hw.proposalCount] at hle
      omega
    · rintro w w' hr ⟨hbounds, hordered⟩ hn
      have hwf : w.gov.Wf := wf_of_fresh (hr.mono (fun _ hw => hw.1) (fun _ _ hn => hn))
      refine ⟨hbounds.next hn hwf, fun hnew => ?_⟩
      by_cases hold : id ≤ w.dao.proposalCount
      · have hterms : Gov.SameTerms (w.dao.proposals id) (w'.dao.proposals id) :=
          hn.storeStep.sameTerms hold
        obtain ⟨hupdate, hstart, hend⟩ := hordered hold
        refine ⟨?_, ?_, ?_⟩
        · rw [hterms.creationBlock, hterms.updatePeriodEndBlock]
          exact hupdate
        · rw [hterms.updatePeriodEndBlock, hterms.startBlock]
          exact hstart
        · rw [hterms.startBlock, hterms.endBlock]
          exact hend
      · obtain ⟨sender, txs, signers, onV1, hp, rfl⟩ := hn.created hwf hold hnew
        obtain ⟨threshold, supply, hself⟩ := hp.proposals_new
        rw [hself]
        have hdelay := hbounds.delay.1
        have hperiod := hbounds.period.1
        unfold MIN_VOTING_DELAY_BLOCKS at hdelay
        unfold MIN_VOTING_PERIOD_BLOCKS at hperiod
        simp only [StorageV3.newProposal]
        exact ⟨by simp, by simp; omega, by simp; omega⟩
  exact hboth.2 hle

end World

/-! ## Actions in progress -/

/-- `tx` is action `i` of a proposal that was queued. -/
structure Proposal.Underway (p : Proposal) (now i : Nat) (tx : Transaction) : Prop where
  action : p.action p.eta i = .ok tx
  eta : p.eta ≠ 0
  closed : p.updatePeriodEndBlock < now

namespace Gov

variable {d : Deployment H} {g g' : Gov H} {id i : Nat} {tx : Transaction}

theorem ProposalChange.underway {p : Proposal} (h : ProposalChange d g id p) (hwf : g.Wf)
    (hold : (g.store.proposals id).Underway g.blockNumber i tx) :
    p.Underway g.blockNumber i tx := by
  obtain ⟨haction, heta, hclosed⟩ := hold
  cases h with
  | ballot p hballot =>
    cases hballot with
    | update txs hstate _ =>
      obtain ⟨b, -, hin⟩ := hwf.isIn hstate
      cases hin with
      | updatable _ hle => exact absurd hclosed (Nat.not_lt.mpr hle)
    | vote voter support votes o _ hsupport _ _ _ =>
      rw [StorageV3.countVotes_eq _ hsupport]
      exact ⟨haction, heta, hclosed⟩
    | object voter votes _ _ _ =>
      rw [StorageV3.countVotes_eq _ (Nat.zero_le 2)]
      exact ⟨haction, heta, hclosed⟩
  | queue delay hstate =>
    -- Only a proposal without an eta is queued.
    obtain ⟨b, -, hin⟩ := hwf.isIn hstate
    cases hin with
    | succeeded _ _ _ hzero => exact absurd hzero heta
  | cancel s _ _ _ _ _ _ => exact ⟨haction, heta, hclosed⟩
  | veto s _ _ => exact ⟨haction, heta, hclosed⟩
  | execute _ => exact ⟨haction, heta, hclosed⟩

theorem StoreStep.underway (h : StoreStep d g g') (hwf : g.Wf)
    (hold : (g.store.proposals id).Underway g.blockNumber i tx) :
    (g'.store.proposals id).Underway g'.blockNumber i tx := by
  have hle := h.blockNumber_le
  have hmono : ∀ p : Proposal, p.Underway g.blockNumber i tx → p.Underway g'.blockNumber i tx :=
    fun p hp => ⟨hp.action, hp.eta, Nat.lt_of_lt_of_le hp.closed hle⟩
  apply h.proposal (P := fun p => p.Underway g'.blockNumber i tx) (hmono _ hold)
  · exact fun p hp => hmono p (hp.underway hwf hold)
  · intro p hnew _
    have hempty := hwf.fresh id (by omega)
    have heta := hold.eta
    rw [hempty] at heta
    exact absurd rfl heta

/-- Every call in progress is an action of its proposal, with the stored eta. -/
def Running (g : Gov H) : Prop :=
  ∀ x ∈ g.executing, (g.store.proposals x.proposalId).Underway g.blockNumber x.i x.tx

/-- The execution of a proposal goes on. -/
theorem Continues.running [DecidableEq H] {timelock : Address} (h : g.Continues d id timelock i g')
    (hrunning : g.Running) (heta : (g.store.proposals id).eta ≠ 0)
    (hclosed : (g.store.proposals id).updatePeriodEndBlock < g.blockNumber) : g'.Running := by
  cases h with
  | next tx _ haction _ _ =>
    intro x hx
    rcases List.mem_cons.mp hx with rfl | hx
    · exact ⟨haction, heta, hclosed⟩
    · exact hrunning x hx
  | done _ => exact hrunning

theorem Step.running [DecidableEq H] {l : Label} (h : g.Step d l g') (hwf : g.Wf)
    (hrunning : g.Running) : g'.Running := by
  have hsame : g'.executing = g.executing → g'.Running := by
    intro hexec x hx
    exact h.storeStep.underway hwf (hrunning x (hexec ▸ hx))
  cases h with
  | token l t _ => exact hsame rfl
  | advance blockNumber timestamp _ _ _ => exact hsame rfl
  | quorum call params _ => exact hsame rfl
  | switch _ => exact hsame rfl
  | timelocks timelock timelockV1 => exact hsame rfl
  | create p _ => exact hsame rfl
  | ballot id p _ => exact hsame rfl
  | queue id delay q _ _ => exact hsame rfl
  | cancel id s q _ _ _ _ _ _ _ => exact hsame rfl
  | veto id s q _ _ _ => exact hsame rfl
  | fork forkEndTimestamp => exact hsame rfl
  | execute id timelock g' hstate _ hcont =>
    obtain ⟨-, hid⟩ := hwf.executable hstate
    rw [hid] at hstate
    obtain ⟨b, -, hin⟩ := hwf.isIn hstate
    cases hin with
    | queued _ hclosed _ heta _ _ =>
      have hself : (g.setProposal id { g.store.proposals id with executed := true }).store.proposals
          id = { g.store.proposals id with executed := true } := Function.update_self ..
      refine hcont.running ?_ ?_ ?_
      · intro x hx
        have hold := hrunning x hx
        by_cases hx' : x.proposalId = id
        · rw [hx'] at hold ⊢
          rw [hself]
          exact ⟨hold.action, hold.eta, hold.closed⟩
        · have hother : (g.setProposal id { g.store.proposals id with
              executed := true }).store.proposals x.proposalId = g.store.proposals x.proposalId :=
            Function.update_of_ne hx' _ _
          rw [hother]
          exact hold
      · rw [hself]
        exact heta
      · rw [hself]
        exact hclosed.update
  | resume x rest g' hexec hcont =>
    have hx := hrunning x (by rw [hexec]; exact List.mem_cons_self)
    refine hcont.running ?_ hx.eta hx.closed
    intro y hy
    exact hrunning y (by rw [hexec]; exact List.mem_cons_of_mem _ hy)

end Gov

namespace World

variable [DecidableEq H] {d : Deployment H} {w w' : World H} {id : Nat}

theorem running_of_reachable (hr : Reachable Fresh (NextAny d) w) : w.gov.Running := by
  apply hr.invariant (P := fun w => w.gov.Running)
  · intro w hw x hx
    simp [gov, hw.frames] at hx
  · intro w w' hr hrunning hn
    obtain ⟨l, hstep⟩ := hn.exists_gov_step
    exact hstep.running (wf_of_fresh hr) hrunning

end World

/-! ## What the timelock is given -/

namespace StorageV3

variable [DecidableEq H] {ds ds' : StorageV3 H} {env : Env H} {e e' : Executor H} {sender : Address}
  {id : Nat}

theorem queueTransactions_log {txs : List Transaction}
    (h : txs.foldlM (queueOrRevertInternal env) e = .ok e') :
    e'.log = (txs.map ExecutorEvent.QueueTransaction).reverse ++ e.log := by
  induction txs generalizing e with
  | nil =>
    rw [List.foldlM_nil, pure_eq_ok] at h
    rw [h]
    rfl
  | cons tx txs ih =>
    rw [List.foldlM_cons, bind_eq_ok] at h
    obtain ⟨e₁, hqueue, hrest⟩ := h
    simp only [queueOrRevertInternal, Executor.queueTransaction, bind_eq_ok, pure_eq_ok] at hqueue
    obtain ⟨_, -, _, -, _, -, rfl⟩ := hqueue
    rw [ih hrest]
    simp [Executor.emit, Executor.setQueued]

theorem cancelTransactions_log {p : Proposal} (h : cancelTransactions env e p = .ok e') :
    e'.log = ((p.actions p.eta).map ExecutorEvent.CancelTransaction).reverse ++ e.log := by
  have hloop := ProposalTxs.forEachAction_ok h
  clear h
  generalize p.actions p.eta = txs at hloop
  induction txs generalizing e with
  | nil =>
    rw [List.foldlM_nil, pure_eq_ok] at hloop
    rw [hloop]
    rfl
  | cons tx txs ih =>
    rw [List.foldlM_cons, bind_eq_ok] at hloop
    obtain ⟨e₁, hcancel, hrest⟩ := hloop
    simp only [Executor.cancelTransaction, bind_eq_ok, pure_eq_ok] at hcancel
    obtain ⟨_, -, rfl⟩ := hcancel
    rw [ih hrest]
    simp [Executor.emit, Executor.setQueued]

end StorageV3

namespace World

variable {d : Deployment H} {w w' : World H} {id i : Nat} {timelock : Address}

/-- The step passes the actions of proposal `id` with the stored eta to its timelock, all of them
and in order, as the events tell; other timelocks are not called. -/
structure PassesAll (event : Transaction → ExecutorEvent) (id : Nat) (w w' : World H) : Prop where
  txs : (w'.dao.proposals id).toProposalTxs = (w.dao.proposals id).toProposalTxs
  log : (w'.executors (w.dao.getProposalTimelock (w.dao.proposals id))).log =
    (((w'.dao.proposals id).actions (w'.dao.proposals id).eta).map event).reverse ++
      (w.executors (w.dao.getProposalTimelock (w.dao.proposals id))).log
  others : ∀ a, a ≠ w.dao.getProposalTimelock (w.dao.proposals id) →
    w'.executors a = w.executors a

theorem PassesAll.of_call {event : Transaction → ExecutorEvent} {ds : StorageV3 H} {e : Executor H}
    (htxs : (ds.proposals id).toProposalTxs = (w.dao.proposals id).toProposalTxs)
    (hlog : e.log = (((ds.proposals id).actions (ds.proposals id).eta).map event).reverse ++
      (w.executors (w.gov.ownTimelock id)).log) :
    PassesAll event id w (({ w with dao := ds } : World H).setExecutor (w.gov.ownTimelock id) e) := by
  refine ⟨htxs, ?_, fun a ha => Function.update_of_ne ha _ _⟩
  change (Function.update w.executors (w.gov.ownTimelock id) e (w.gov.ownTimelock id)).log = _
  rw [Function.update_self]
  exact hlog

theorem PassesAll.of_frames {event : Transaction → ExecutorEvent} {frames : List Frame}
    (h : PassesAll event id { w with frames } w') : PassesAll event id w w' :=
  ⟨h.txs, h.log, h.others⟩

/-- The step calls `executeTransaction` of `timelock`, whose state is `e`, with action `i` of
proposal `id` and the stored eta. -/
def PassesAction (d : Deployment H) (id : Nat) (timelock : Address) (i : Nat) (e : Executor H)
    [DecidableEq H] (w w' : World H) : Prop :=
  ∃ tx e' f rest, ((w.dao.proposals id).actions (w.dao.proposals id).eta)[i]? = some tx ∧
    e.beginTransaction d.crypto (d.executorVersion timelock) w.timestamp d.dao tx = .ok e' ∧
    w'.executors timelock = e' ∧ w'.frames = f :: rest ∧
    f.execution? = some ⟨id, timelock, i, tx⟩

variable [DecidableEq H]

theorem callDAO_queue_passes {tx : TxContext} {sender : Account}
    (h : w.callDAO d tx sender (.queue id) = .ok w') :
    PassesAll .QueueTransaction id w w' := by
  simp only [callDAO] at h
  obtain ⟨ds, e, hqueue, rfl⟩ := withTimelock_ok h
  simp only [StorageV3.queue, bind_eq_ok, pure_eq_ok, Prod.mk.injEq] at hqueue
  obtain ⟨_, -, _, -, e₁, hloop, rfl, rfl⟩ := hqueue
  have hlog := StorageV3.queueTransactions_log (ProposalTxs.forEachAction_ok hloop)
  apply PassesAll.of_call
  · simp [StorageV3.setProposal, StorageV3.emit]
  · simp only [StorageV3.setProposal, StorageV3.emit, Function.update_self]
    exact hlog

theorem callDAO_cancel_passes {tx : TxContext} {sender : Account}
    (h : w.callDAO d tx sender (.cancel id) = .ok w') :
    PassesAll .CancelTransaction id w w' := by
  simp only [callDAO] at h
  obtain ⟨ds, e, hcancel, rfl⟩ := withTimelock_ok h
  simp only [StorageV3.cancel, bind_eq_ok, pure_eq_ok, Prod.mk.injEq] at hcancel
  obtain ⟨_, -, _, -, _, -, _, -, _, -, e₁, hloop, rfl, rfl⟩ := hcancel
  have hlog := StorageV3.cancelTransactions_log hloop
  apply PassesAll.of_call
  · simp [StorageV3.setProposal, StorageV3.emit]
  · simp only [StorageV3.setProposal, StorageV3.emit, Function.update_self]
    exact hlog

theorem callDAO_veto_passes {tx : TxContext} {sender : Account}
    (h : w.callDAO d tx sender (.veto id) = .ok w') :
    PassesAll .CancelTransaction id w w' := by
  simp only [callDAO] at h
  obtain ⟨ds, e, hveto, rfl⟩ := withTimelock_ok h
  simp only [StorageV3.veto, bind_eq_ok, pure_eq_ok, Prod.mk.injEq] at hveto
  obtain ⟨_, -, _, -, _, -, _, -, e₁, hloop, rfl, rfl⟩ := hveto
  have hlog := StorageV3.cancelTransactions_log hloop
  apply PassesAll.of_call
  · simp [StorageV3.setProposal, StorageV3.emit]
  · simp only [StorageV3.setProposal, StorageV3.emit, Function.update_self]
    exact hlog

theorem executeFrom_passes (haligned : (w.dao.proposals id).Aligned)
    (h : w.executeFrom d id timelock i = .ok w') :
    (i < (w.dao.proposals id).targets.length ∧
      PassesAction d id timelock i (w.executors timelock) w w') ∨
    ((w.dao.proposals id).targets.length ≤ i ∧
      w' = w.emit (.ProposalExecuted (w.dao.proposals id).id)) := by
  simp only [executeFrom] at h
  split at h
  · rename_i hi
    simp only [bind_eq_ok, pure_eq_ok] at h
    obtain ⟨tx, htx, e, hbegin, w₁, hsend, rfl⟩ := h
    refine .inl ⟨hi, tx, e, _, w₁.frames, ?_, hbegin, ?_, rfl, rfl⟩
    · rw [haligned.actions_getElem? hi, htx]
      rfl
    · simp only [sendValue, bind_eq_ok, pure_eq_ok] at hsend
      obtain ⟨_, -, rfl⟩ := hsend
      exact Function.update_self ..
  · rename_i hi
    exact .inr ⟨Nat.not_lt.mp hi, (pure_eq_ok.mp h).symm⟩

/-- Executing a proposal begins with its first action. -/
theorem executeInternal_passes (huniform : (w.dao.proposals id).Uniform)
    (h : w.executeInternal d id timelock = .ok w') :
    PassesAction d id timelock 0 (w.executors timelock) w w' := by
  simp only [executeInternal, bind_eq_ok] at h
  obtain ⟨_, -, _, -, _, -, h⟩ := h
  have hself : (w.dao.setProposal id { w.dao.proposals id with executed := true }).proposals id =
      { w.dao.proposals id with executed := true } := Function.update_self ..
  have hpasses := executeFrom_passes (by rw [hself]; exact huniform.aligned) h
  rw [hself] at hpasses
  rcases hpasses with ⟨-, tx, e, f, rest, haction, hbegin, he, hframes, hx⟩ | ⟨hle, -⟩
  · rw [hself] at haction
    exact ⟨tx, e, f, rest, haction, hbegin, he, hframes, hx⟩
  · have hge := huniform.ge
    exact absurd (Nat.le_zero.mp hle) (by change ¬ (w.dao.proposals id).targets.length = 0; omega)

/-- A call that begins to execute proposal `id` on `timelock`. -/
def BeginsExecution (w : World H) (id : Nat) (timelock : Address) (call : DAOCall) : Prop :=
  (call = .execute id ∧ timelock = w.dao.getProposalTimelock (w.dao.proposals id)) ∨
  (call = .executeOnTimelockV1 id ∧ timelock = w.dao.timelockV1)

theorem callDAO_execute_passes {tx : TxContext} {sender : Account} {call : DAOCall}
    (huniform : (w.dao.proposals id).Uniform) (hcall : w.BeginsExecution id timelock call)
    (h : w.callDAO d tx sender call = .ok w') :
    PassesAction d id timelock 0 (w.executors timelock) w w' := by
  rcases hcall with ⟨rfl, rfl⟩ | ⟨rfl, rfl⟩
  · exact executeInternal_passes huniform h
  · exact executeInternal_passes huniform h

/-- What happens to the calls to the timelock when an action of proposal `id` returns. -/
structure PassesNext (d : Deployment H) (id : Nat) (x : Execution) (rest : List Frame)
    (w w' : World H) : Prop where
  next : x.i + 1 < (w.dao.proposals id).targets.length →
    PassesAction d id x.timelock (x.i + 1) ((w.executors x.timelock).endTransaction x.tx) w w'
  done : (w.dao.proposals id).targets.length ≤ x.i + 1 →
    w'.frames = rest ∧ w'.executors x.timelock = (w.executors x.timelock).endTransaction x.tx ∧
    w'.dao.log = .ProposalExecuted (w.dao.proposals id).id :: w.dao.log

theorem return_passes (haligned : (w.dao.proposals id).Aligned) {f : Frame} {rest : List Frame}
    {x : Execution} {forkTreasury forkToken : Address} (hframes : w.frames = f :: rest)
    (hx : f.execution? = some x) (hid : x.proposalId = id)
    (h : w.step d (.return_ forkTreasury forkToken) = .ok w') : PassesNext d id x rest w w' := by
  obtain ⟨callee, caller, k⟩ := f
  cases k with
  | executeInternal proposalId timelock i tx =>
    cases hx
    subst hid
    simp only [step, hframes, resume] at h
    have hself : Function.update w.executors timelock ((w.executors timelock).endTransaction tx)
        timelock = (w.executors timelock).endTransaction tx := Function.update_self ..
    have hpasses := executeFrom_passes (w := ({ w with frames := rest } : World H).setExecutor
      timelock ((w.executors timelock).endTransaction tx)) haligned h
    rcases hpasses with
      ⟨hi, tx', e, f, rest', haction, hbegin, he, hframes', hx⟩ | ⟨hle, rfl⟩
    · refine ⟨fun _ => ⟨tx', e, f, rest', haction, ?_, he, hframes', hx⟩,
        fun hle => absurd hi (Nat.not_lt.mpr hle)⟩
      rw [← hself]
      exact hbegin
    · exact ⟨fun hi => absurd hi (Nat.not_lt.mpr hle), fun _ => ⟨rfl, hself, rfl⟩⟩
  | refundGas origin amount => cases hx
  | withdraw amount => cases hx
  | deployForkDAO fork => cases hx
  | sendETH payout amount => cases hx
  | sendERC20 payout count remaining token amount => cases hx
  | claimDuringForkPeriod join => cases hx

/-! ## Runs -/

/-- In every state, the arrays of every proposal have one length from 1 to 10.  Later states keep
its blocks and its supply, and its actions once it is settled; its blocks are in order when the
settings started in bounds.  What `queue`, `cancel` and `veto` pass to the timelock is the whole
list of its actions with the stored eta; an execution passes the first action, and when action `i`
of that list returns, action `i + 1`, until there are no more. -/
theorem voted_is_executed (hr : Reachable Fresh (NextAny d) w) (hid : 0 < id)
    (hle : id ≤ w.dao.proposalCount) :
    (w.dao.proposals id).Uniform ∧
    (∀ w', Relation.ReflTransGen (NextAny d) w w' →
      Gov.SameTerms (w.dao.proposals id) (w'.dao.proposals id) ∧
      ((w.dao.proposals id).Settled w.blockNumber →
        (w'.dao.proposals id).toProposalTxs = (w.dao.proposals id).toProposalTxs)) ∧
    (Reachable (fun w => w.Fresh ∧ w.VotingInBounds) (NextAny d) w →
      (w.dao.proposals id).Ordered) ∧
    (∀ eta, ((w.dao.proposals id).actions eta).length = (w.dao.proposals id).targets.length) ∧
    (∀ tx sender w', w.step d (.callDAO tx sender (.queue id)) = .ok w' →
      PassesAll .QueueTransaction id w w') ∧
    (∀ tx sender w', w.step d (.callDAO tx sender (.cancel id)) = .ok w' →
      PassesAll .CancelTransaction id w w') ∧
    (∀ tx sender w', w.step d (.callDAO tx sender (.veto id)) = .ok w' →
      PassesAll .CancelTransaction id w w') ∧
    (∀ tx sender call timelock w', w.BeginsExecution id timelock call →
      w.step d (.callDAO tx sender call) = .ok w' →
      PassesAction d id timelock 0 (w.executors timelock) w w') ∧
    (∀ f rest x, w.frames = f :: rest → f.execution? = some x → x.proposalId = id →
      ((w.dao.proposals id).actions (w.dao.proposals id).eta)[x.i]? = some x.tx ∧
      ∀ forkTreasury forkToken w', w.step d (.return_ forkTreasury forkToken) = .ok w' →
        PassesNext d id x rest w w') := by
  have huniform := uniform_of_reachable hr hid hle
  refine ⟨huniform, ?_, fun hr' => ordered_of_reachable hr' hid hle,
    huniform.aligned.length_actions, ?_, ?_, ?_, ?_, ?_⟩
  · intro w' hsteps
    exact ⟨(sameTerms_of_steps hsteps hle).1, txs_eq_of_steps hr hsteps hle⟩
  · intro tx sender w' h
    simp only [step, bind_eq_ok] at h
    obtain ⟨w₁, henter, h⟩ := h
    obtain ⟨frames, rfl, -⟩ := enter_ok henter
    exact (callDAO_queue_passes h).of_frames
  · intro tx sender w' h
    simp only [step, bind_eq_ok] at h
    obtain ⟨w₁, henter, h⟩ := h
    obtain ⟨frames, rfl, -⟩ := enter_ok henter
    exact (callDAO_cancel_passes h).of_frames
  · intro tx sender w' h
    simp only [step, bind_eq_ok] at h
    obtain ⟨w₁, henter, h⟩ := h
    obtain ⟨frames, rfl, -⟩ := enter_ok henter
    exact (callDAO_veto_passes h).of_frames
  · intro tx sender call timelock w' hcall h
    simp only [step, bind_eq_ok] at h
    obtain ⟨w₁, henter, h⟩ := h
    obtain ⟨frames, rfl, -⟩ := enter_ok henter
    have hpasses := callDAO_execute_passes (w := { w with frames }) huniform hcall h
    exact hpasses
  · intro f rest x hframes hx hxid
    have hmem : x ∈ w.gov.executing := by
      change x ∈ w.frames.filterMap Frame.execution?
      rw [hframes]
      exact List.mem_filterMap.mpr ⟨f, List.mem_cons_self, hx⟩
    have hunderway := running_of_reachable hr x hmem
    refine ⟨?_, fun forkTreasury forkToken w' h =>
      return_passes huniform.aligned hframes hx hxid h⟩
    subst hxid
    have hi : x.i < (w.dao.proposals x.proposalId).targets.length :=
      ProposalTxs.lt_of_action hunderway.action
    rw [huniform.aligned.actions_getElem? hi]
    have haction : (w.dao.proposals x.proposalId).action (w.dao.proposals x.proposalId).eta x.i =
        .ok x.tx := hunderway.action
    rw [haction]
    rfl

/-- Proposal 1 passes its vote; queueing it hands its one action to the timelock. -/
theorem voted_is_executed_of_first_proposal :
    ∃ w w', Reachable Fresh (NextAny .sample) w ∧
      w.step .sample (.ofDAO .minter (.queue 1)) = .ok w' ∧ (w'.dao.proposals 1).eta ≠ 0 ∧
      (w.dao.proposals 1).Uniform ∧ (w.dao.proposals 1).Ordered ∧
      PassesAll .QueueTransaction 1 w w' := by
  have hrun : Yields (World.sample.run .sample (fun _ _ _ => True)
      [.callToken .minter .mint, .advance 2 2, .ofDAO .minter (.propose .sample ""), .advance 4 4,
        .ofDAO .minter (.castVote 1 1), .advance 7204 7204]) (fun w => w.dao.proposalCount = 1 ∧
      Yields (w.step .sample (.ofDAO .minter (.queue 1)))
        (fun w' => (w'.dao.proposals 1).eta ≠ 0)) := by
    decide +kernel
  obtain ⟨w, hw, hcount, w', hstep, heta⟩ := hrun
  have hsteps : Relation.ReflTransGen (NextAny .sample) World.sample w :=
    run_steps (fun w a w' hstep _ => .step a trivial hstep) hw
  have hr : Reachable Fresh (NextAny .sample) w := ⟨_, sample_fresh, hsteps⟩
  have hbounds : World.sample.VotingInBounds := ⟨by decide, by decide⟩
  obtain ⟨huniform, -, hordered, -, hqueue, -⟩ := voted_is_executed hr Nat.one_pos hcount.ge
  exact ⟨w, w', hr, hstep, heta, huniform, hordered ⟨_, ⟨sample_fresh, hbounds⟩, hsteps⟩,
    hqueue _ _ w' hstep⟩

end World

end Nouns
