import Nouns.Governance.Refinement

/-!
# WellFormed — the invariant of the proposal storage

Which stored values are possible: the windows of a proposal follow one another, only a proposal
whose vote is over has an eta, and the quorum of a proposal can be computed.
-/

open Fallible Checkpoints

namespace Nouns

variable {H : Type}

/-! ## Quorum parameters -/

namespace ProposalStorage

variable {s : ProposalStorage} {now block : Nat}

theorem getDynamicQuorumParamsAt_of_lt (h : WellFormed s.quorumParamsCheckpoints now)
    (hlt : block < 2 ^ 32) :
    s.getDynamicQuorumParamsAt block =
      (valueAt block s.quorumParamsCheckpoints).elim s.defaultQuorumParams pure := by
  have hsafe : ∀ message, safe32 block message = pure block := by
    intro message
    rw [safe32, require, if_pos hlt]
    rfl
  rw [getDynamicQuorumParamsAt, hsafe, pure_bind, lookup_eq_valueAt h]
  cases valueAt block s.quorumParamsCheckpoints <;> rfl

theorem getDynamicQuorumParamsAt_lt {params : DynamicQuorumParams}
    (h : s.getDynamicQuorumParamsAt block = .ok params) : block < 2 ^ 32 := by
  simp only [getDynamicQuorumParamsAt, safe32, bind_eq_ok, require_eq_ok] at h
  obtain ⟨_, ⟨_, hlt, -⟩, -⟩ := h
  exact hlt

/-- Parameters written now are in force now and not before. -/
theorem getDynamicQuorumParamsAt_write (h : WellFormed s.quorumParamsCheckpoints now)
    (hlt : block < 2 ^ 32) (params : DynamicQuorumParams) :
    ({ s with quorumParamsCheckpoints := write s.quorumParamsCheckpoints now params } :
      ProposalStorage).getDynamicQuorumParamsAt block =
      if now ≤ block then .ok params else s.getDynamicQuorumParamsAt block := by
  rw [getDynamicQuorumParamsAt_of_lt h hlt,
    getDynamicQuorumParamsAt_of_lt (write_wellFormed h params) hlt, valueAt_write h]
  split <;> rfl

theorem getDynamicQuorumParamsAt_write_of_lt (h : WellFormed s.quorumParamsCheckpoints now)
    (hlt : block < now) (params : DynamicQuorumParams) :
    ({ s with quorumParamsCheckpoints := write s.quorumParamsCheckpoints now params } :
      ProposalStorage).getDynamicQuorumParamsAt block = s.getDynamicQuorumParamsAt block := by
  by_cases h32 : block < 2 ^ 32
  · rw [getDynamicQuorumParamsAt_write h h32, if_neg (Nat.not_le.mpr hlt)]
  · simp only [getDynamicQuorumParamsAt, safe32, require, if_neg h32]
    rfl

/-- The quorum of a proposal as a function of the votes against it. -/
def quorumFor (s : ProposalStorage) (p : Proposal) (againstVotes : Nat) : Tx Nat :=
  if p.totalSupply = 0 then return p.quorumVotes
  else do
    let params ← s.getDynamicQuorumParamsAt p.creationBlock
    dynamicQuorumVotes againstVotes p.totalSupply params

theorem quorumVotes_eq (s : ProposalStorage) (id : Nat) :
    s.quorumVotes id = s.quorumFor (s.proposals id) (s.proposals id).againstVotes := rfl

end ProposalStorage

/-! ## State of a proposal, once its vote is counted -/

/-- The state a proposal is in when `defeated` is its verdict. -/
def Proposal.stateWith (p : Proposal) (clock : Clock) (timelock : Address) (defeated : Bool) :
    ProposalState :=
  if p.vetoed then .Vetoed
  else if p.canceled then .Canceled
  else if clock.blockNumber ≤ p.updatePeriodEndBlock then .Updatable
  else if clock.blockNumber ≤ p.startBlock then .Pending
  else if clock.blockNumber ≤ p.endBlock then .Active
  else if clock.blockNumber ≤ p.objectionPeriodEndBlock then .ObjectionPeriod
  else if defeated then .Defeated
  else if p.eta = 0 then .Succeeded
  else if p.executed then .Executed
  else if clock.timestamp ≥ p.eta + clock.gracePeriod timelock then .Expired
  else .Queued

namespace Proposal

def Alive (p : Proposal) : Prop := p.vetoed = false ∧ p.canceled = false

/-- Nobody can vote any more. -/
structure Closed (p : Proposal) (now : Nat) : Prop where
  update : p.updatePeriodEndBlock < now
  start : p.startBlock < now
  end_ : p.endBlock < now
  objection : p.objectionPeriodEndBlock < now

/-- The states, each with the conditions it stands for. -/
inductive IsIn (p : Proposal) (clock : Clock) (timelock : Address) (defeated : Bool) :
    ProposalState → Prop
  | vetoed : p.vetoed = true → IsIn p clock timelock defeated .Vetoed
  | canceled : p.vetoed = false → p.canceled = true → IsIn p clock timelock defeated .Canceled
  | updatable : p.Alive → clock.blockNumber ≤ p.updatePeriodEndBlock →
      IsIn p clock timelock defeated .Updatable
  | pending : p.Alive → p.updatePeriodEndBlock < clock.blockNumber →
      clock.blockNumber ≤ p.startBlock → IsIn p clock timelock defeated .Pending
  | active : p.Alive → p.updatePeriodEndBlock < clock.blockNumber →
      p.startBlock < clock.blockNumber → clock.blockNumber ≤ p.endBlock →
      IsIn p clock timelock defeated .Active
  | objectionPeriod : p.Alive → p.updatePeriodEndBlock < clock.blockNumber →
      p.startBlock < clock.blockNumber → p.endBlock < clock.blockNumber →
      clock.blockNumber ≤ p.objectionPeriodEndBlock →
      IsIn p clock timelock defeated .ObjectionPeriod
  | defeated : p.Alive → p.Closed clock.blockNumber → defeated = true →
      IsIn p clock timelock defeated .Defeated
  | succeeded : p.Alive → p.Closed clock.blockNumber → defeated = false → p.eta = 0 →
      IsIn p clock timelock defeated .Succeeded
  | executed : p.Alive → p.Closed clock.blockNumber → defeated = false → p.eta ≠ 0 →
      p.executed = true → IsIn p clock timelock defeated .Executed
  | expired : p.Alive → p.Closed clock.blockNumber → defeated = false → p.eta ≠ 0 →
      p.executed = false → p.eta + clock.gracePeriod timelock ≤ clock.timestamp →
      IsIn p clock timelock defeated .Expired
  | queued : p.Alive → p.Closed clock.blockNumber → defeated = false → p.eta ≠ 0 →
      p.executed = false → clock.timestamp < p.eta + clock.gracePeriod timelock →
      IsIn p clock timelock defeated .Queued

variable {p : Proposal} {clock : Clock} {timelock : Address} {defeated : Bool}

theorem isIn_stateWith (p : Proposal) (clock : Clock) (timelock : Address) (defeated : Bool) :
    p.IsIn clock timelock defeated (p.stateWith clock timelock defeated) := by
  unfold stateWith
  by_cases hv : p.vetoed = true
  · rw [if_pos hv]
    exact .vetoed hv
  rw [if_neg hv]
  have hv' := Bool.eq_false_iff.mpr hv
  by_cases hc : p.canceled = true
  · rw [if_pos hc]
    exact .canceled hv' hc
  rw [if_neg hc]
  have halive : p.Alive := ⟨hv', Bool.eq_false_iff.mpr hc⟩
  by_cases hu : clock.blockNumber ≤ p.updatePeriodEndBlock
  · rw [if_pos hu]
    exact .updatable halive hu
  rw [if_neg hu]
  by_cases hs : clock.blockNumber ≤ p.startBlock
  · rw [if_pos hs]
    exact .pending halive (Nat.lt_of_not_le hu) hs
  rw [if_neg hs]
  by_cases he : clock.blockNumber ≤ p.endBlock
  · rw [if_pos he]
    exact .active halive (Nat.lt_of_not_le hu) (Nat.lt_of_not_le hs) he
  rw [if_neg he]
  by_cases ho : clock.blockNumber ≤ p.objectionPeriodEndBlock
  · rw [if_pos ho]
    exact .objectionPeriod halive (Nat.lt_of_not_le hu) (Nat.lt_of_not_le hs)
      (Nat.lt_of_not_le he) ho
  rw [if_neg ho]
  have hclosed : p.Closed clock.blockNumber := ⟨Nat.lt_of_not_le hu, Nat.lt_of_not_le hs,
    Nat.lt_of_not_le he, Nat.lt_of_not_le ho⟩
  by_cases hd : defeated = true
  · rw [if_pos hd]
    exact .defeated halive hclosed hd
  rw [if_neg hd]
  have hd' := Bool.eq_false_iff.mpr hd
  by_cases hz : p.eta = 0
  · rw [if_pos hz]
    exact .succeeded halive hclosed hd' hz
  rw [if_neg hz]
  by_cases hx : p.executed = true
  · rw [if_pos hx]
    exact .executed halive hclosed hd' hz hx
  rw [if_neg hx]
  have hx' := Bool.eq_false_iff.mpr hx
  by_cases ht : clock.timestamp ≥ p.eta + clock.gracePeriod timelock
  · rw [if_pos ht]
    exact .expired halive hclosed hd' hz hx' ht
  · rw [if_neg ht]
    exact .queued halive hclosed hd' hz hx' (Nat.lt_of_not_le ht)

theorem IsIn.stateWith_eq {state : ProposalState} (h : p.IsIn clock timelock defeated state) :
    p.stateWith clock timelock defeated = state := by
  have hclosed : p.Closed clock.blockNumber → ¬ clock.blockNumber ≤ p.updatePeriodEndBlock ∧
      ¬ clock.blockNumber ≤ p.startBlock ∧ ¬ clock.blockNumber ≤ p.endBlock ∧
      ¬ clock.blockNumber ≤ p.objectionPeriodEndBlock := by
    intro ⟨hu, hs, he, ho⟩
    omega
  cases h with
  | vetoed hv => simp [stateWith, hv]
  | canceled hv hc => simp [stateWith, hv, hc]
  | updatable ha hu => simp [stateWith, ha.1, ha.2, hu]
  | pending ha hu hs => simp [stateWith, ha.1, ha.2, Nat.not_le.mpr hu, hs]
  | active ha hu hs he =>
    simp [stateWith, ha.1, ha.2, Nat.not_le.mpr hu, Nat.not_le.mpr hs, he]
  | objectionPeriod ha hu hs he ho =>
    simp [stateWith, ha.1, ha.2, Nat.not_le.mpr hu, Nat.not_le.mpr hs, Nat.not_le.mpr he, ho]
  | defeated ha hc hd => simp [stateWith, ha.1, ha.2, hclosed hc, hd]
  | succeeded ha hc hd hz => simp [stateWith, ha.1, ha.2, hclosed hc, hd, hz]
  | executed ha hc hd hz hx => simp [stateWith, ha.1, ha.2, hclosed hc, hd, hz, hx]
  | expired ha hc hd hz hx ht => simp [stateWith, ha.1, ha.2, hclosed hc, hd, hz, hx, ht]
  | queued ha hc hd hz hx ht =>
    simp [stateWith, ha.1, ha.2, hclosed hc, hd, hz, hx, Nat.not_le.mpr ht]

end Proposal

theorem ProposalStorage.stateInternal_eq {s : ProposalStorage} {clock : Clock} {id : Nat} {b : Bool}
    (hid : id ≤ s.proposalCount) (hb : s.isDefeated (s.proposals id) = .ok b) :
    s.stateInternal clock id = .ok ((s.proposals id).stateWith clock
      (s.getProposalTimelock (s.proposals id)) b) := by
  unfold stateInternal Proposal.stateWith
  simp only [require, if_pos hid, hb, bind, Except.bind, pure, Except.pure, apply_ite Except.ok]

theorem ProposalStorage.stateInternal_le {s : ProposalStorage} {clock : Clock} {id : Nat}
    {state : ProposalState} (h : s.stateInternal clock id = .ok state) : id ≤ s.proposalCount := by
  simp only [stateInternal, bind_eq_ok, require_eq_ok] at h
  obtain ⟨_, hid, -⟩ := h
  exact hid

/-- The verdict is read only after the vote. -/
theorem ProposalStorage.isIn_of_stateInternal {s : ProposalStorage} {clock : Clock} {id : Nat}
    {state : ProposalState} (h : s.stateInternal clock id = .ok state) :
    ∃ b, (s.proposals id).IsIn clock (s.getProposalTimelock (s.proposals id)) b state := by
  have hid := stateInternal_le h
  cases hb : s.isDefeated (s.proposals id) with
  | ok b =>
    rw [stateInternal_eq hid hb] at h
    cases h
    exact ⟨b, Proposal.isIn_stateWith _ _ _ _⟩
  | error e =>
    refine ⟨true, ?_⟩
    have hopen : (s.proposals id).stateWith clock (s.getProposalTimelock (s.proposals id)) true =
        state := by
      unfold stateInternal at h
      unfold Proposal.stateWith
      simp only [require, if_pos hid, hb, bind, Except.bind, pure, Except.pure] at h
      split_ifs at h ⊢ <;> simp_all
    rw [← hopen]
    exact Proposal.isIn_stateWith _ _ _ _

/-! ## The invariant -/

/-- The four arrays have one length. -/
structure ProposalTxs.Aligned (txs : ProposalTxs) : Prop where
  values : txs.values.length = txs.targets.length
  signatures : txs.signatures.length = txs.targets.length
  calldatas : txs.calldatas.length = txs.targets.length

theorem ProposalTxs.aligned_of_check {txs : ProposalTxs} (h : checkProposalTxs txs = .ok ()) :
    txs.Aligned := by
  simp only [checkProposalTxs, bind_eq_ok, revertIf_eq_ok] at h
  obtain ⟨_, harity, -⟩ := h
  exact ⟨by omega, by omega, by omega⟩

theorem ProposalTxs.Aligned.action_ok {txs : ProposalTxs} (h : txs.Aligned) (eta : Nat) {i : Nat}
    (hi : i < txs.targets.length) : ∃ tx, txs.action eta i = .ok tx := by
  unfold action
  rw [List.getElem?_eq_getElem hi, List.getElem?_eq_getElem (h.values ▸ hi),
    List.getElem?_eq_getElem (h.signatures ▸ hi), List.getElem?_eq_getElem (h.calldatas ▸ hi)]
  exact ⟨_, rfl⟩

/-- The windows of a proposal, seen in block `now`. -/
structure Proposal.Timeline (p : Proposal) (now : Nat) : Prop where
  created : p.creationBlock ≤ now
  update : p.creationBlock ≤ p.updatePeriodEndBlock
  start : p.updatePeriodEndBlock ≤ p.startBlock
  end_ : p.startBlock ≤ p.endBlock
  queued : p.eta ≠ 0 → p.endBlock < now ∧ p.objectionPeriodEndBlock < now
  executed : p.executed = true → p.eta ≠ 0

theorem Proposal.empty_timeline (now : Nat) : Proposal.empty.Timeline now :=
  ⟨Nat.zero_le _, Nat.le_refl _, Nat.le_refl _, Nat.le_refl _, fun h => absurd rfl h,
    fun h => absurd h (by decide)⟩

theorem Proposal.Timeline.mono {p : Proposal} {now now' : Nat} (h : p.Timeline now)
    (hle : now ≤ now') : p.Timeline now' := by
  refine ⟨Nat.le_trans h.created hle, h.update, h.start, h.end_, ?_, h.executed⟩
  intro heta
  have hover := h.queued heta
  omega

structure ProposalStorage.Wf (s : ProposalStorage) (now : Nat) : Prop where
  checkpoints : WellFormed s.quorumParamsCheckpoints now
  fresh : ∀ id, s.proposalCount < id → s.proposals id = Proposal.empty
  /-- The slot below the first proposal takes no votes. -/
  zero : (s.proposals 0).endBlock = 0 ∧ (s.proposals 0).objectionPeriodEndBlock = 0 ∧
    (s.proposals 0).forVotes = 0
  id_eq : ∀ id ≤ s.proposalCount, (s.proposals id).id = id
  timeline : ∀ id, (s.proposals id).Timeline now
  quorum : ∀ id, (s.proposals id).totalSupply = 0 ∨
    ∃ params, s.getDynamicQuorumParamsAt (s.proposals id).creationBlock = .ok params
  aligned : ∀ id, (s.proposals id).Aligned

def Gov.Wf (g : Gov H) : Prop := g.store.Wf g.blockNumber

namespace ProposalStorage

variable {s : ProposalStorage} {now : Nat}

theorem Wf.quorumFor_ok (h : s.Wf now) (id againstVotes : Nat) :
    ∃ votes, s.quorumFor (s.proposals id) againstVotes = .ok votes := by
  unfold quorumFor
  by_cases hz : (s.proposals id).totalSupply = 0
  · rw [if_pos hz]
    exact ⟨_, rfl⟩
  · rw [if_neg hz]
    rcases h.quorum id with hz' | ⟨params, hparams⟩
    · exact absurd hz' hz
    · simp only [hparams, bind, Except.bind, dynamicQuorumVotes, require, ne_eq, if_pos hz, pure,
        Except.pure]
      exact ⟨_, rfl⟩

theorem Wf.isDefeated_ok (h : s.Wf now) {id : Nat} (hid : id ≤ s.proposalCount) :
    ∃ b, s.isDefeated (s.proposals id) = .ok b := by
  unfold isDefeated
  split
  · exact ⟨true, rfl⟩
  · obtain ⟨votes, hvotes⟩ := h.quorumFor_ok id (s.proposals id).againstVotes
    rw [h.id_eq id hid, quorumVotes_eq, hvotes]
    exact ⟨_, rfl⟩

theorem Wf.stateInternal_ok (h : s.Wf now) {id : Nat} (hid : id ≤ s.proposalCount)
    (clock : Clock) : ∃ state, s.stateInternal clock id = .ok state := by
  obtain ⟨b, hb⟩ := h.isDefeated_ok hid
  exact ⟨_, stateInternal_eq hid hb⟩

theorem Wf.isIn (h : s.Wf now) {id : Nat} {clock : Clock} {state : ProposalState}
    (hstate : s.stateInternal clock id = .ok state) :
    ∃ b, s.isDefeated (s.proposals id) = .ok b ∧ (s.proposals id).IsIn clock
      (s.getProposalTimelock (s.proposals id)) b state := by
  have hid := stateInternal_le hstate
  obtain ⟨b, hb⟩ := h.isDefeated_ok hid
  rw [stateInternal_eq hid hb] at hstate
  cases hstate
  exact ⟨b, hb, Proposal.isIn_stateWith _ _ _ _⟩

/-- No votes are cast for the slot below the first proposal. -/
theorem Wf.defeated_zero (h : s.Wf now) : s.isDefeated (s.proposals 0) = .ok true := by
  unfold isDefeated
  rw [h.zero.2.2, if_pos (Nat.zero_le _)]
  rfl

/-- Execution looks up the id stored in the proposal, which is the id asked for. -/
theorem Wf.executable (h : s.Wf now) {id : Nat} {clock : Clock}
    (hstate : s.stateInternal clock (s.proposals id).id = .ok .Queued) :
    id ≤ s.proposalCount ∧ (s.proposals id).id = id := by
  rcases Nat.lt_or_ge s.proposalCount id with hlt | hle
  · rw [h.fresh id hlt] at hstate
    obtain ⟨b, hb, hin⟩ := h.isIn hstate
    cases hin with
    | queued _ _ hd _ _ _ =>
      rw [show Proposal.empty.id = 0 from rfl, h.defeated_zero] at hb
      cases hb
      cases hd
  · exact ⟨hle, h.id_eq id hle⟩

end ProposalStorage

/-! ## What a step does to the storage -/

namespace Gov

variable {d : Deployment H} {g g' : Gov H} {l : Label}

def SameTime (g g' : Gov H) : Prop := g'.blockNumber = g.blockNumber ∧ g'.timestamp = g.timestamp

/-- What can become of proposal `id`. -/
inductive ProposalChange (d : Deployment H) (g : Gov H) (id : Nat) : Proposal → Prop
  | ballot (p : Proposal) : g.store.BallotChange (g.clock d) g.nouns id p → ProposalChange d g id p
  | queue (delay : Delay) : g.state d id = .ok .Succeeded →
      ProposalChange d g id { g.store.proposals id with eta := g.timestamp + delay }
  | cancel (s : ProposalState) : g.state d id = .ok s → s ≠ .Canceled → s ≠ .Defeated →
      s ≠ .Expired → s ≠ .Executed → s ≠ .Vetoed →
      ProposalChange d g id { g.store.proposals id with canceled := true }
  | veto (s : ProposalState) : g.state d id = .ok s → s ≠ .Executed →
      ProposalChange d g id { g.store.proposals id with vetoed := true }
  | execute : g.state d (g.store.proposals id).id = .ok .Queued →
      ProposalChange d g id { g.store.proposals id with executed := true }

inductive StoreStep (d : Deployment H) (g g' : Gov H) : Prop
  | pass : g'.store = g.store → g.blockNumber ≤ g'.blockNumber → g.timestamp ≤ g'.timestamp →
      StoreStep d g g'
  | quorum (params : DynamicQuorumParams) : SameTime g g' →
      g'.store = { g.store with
        quorumParamsCheckpoints := write g.store.quorumParamsCheckpoints g.blockNumber params } →
      StoreStep d g g'
  | switch : SameTime g g' → g.store.voteSnapshotBlockSwitchProposalId = 0 →
      g'.store = { g.store with
        voteSnapshotBlockSwitchProposalId := g.store.proposalCount + 1 } → StoreStep d g g'
  | timelocks (timelock timelockV1 : Address) : SameTime g g' →
      g'.store = { g.store with timelock, timelockV1 } → StoreStep d g g'
  | create (p : Proposal) : SameTime g g' → g.store.Created g.blockNumber p →
      g'.store = { g.store with
        proposalCount := g.store.proposalCount + 1
        proposals := Function.update g.store.proposals (g.store.proposalCount + 1) p } →
      StoreStep d g g'
  | change (id : Nat) (p : Proposal) : SameTime g g' → ProposalChange d g id p →
      g'.store = { g.store with proposals := Function.update g.store.proposals id p } →
      StoreStep d g g'

/-- Running actions touches the queues only. -/
theorem Continues.same [DecidableEq H] {id i : Nat} {timelock : Address} (h : g.Continues d id timelock i g') :
    g'.store = g.store ∧ SameTime g g' := by
  cases h with
  | next tx hi htx hqueued heta => exact ⟨rfl, rfl, rfl⟩
  | done hi => exact ⟨rfl, rfl, rfl⟩

theorem Step.storeStep [DecidableEq H] (h : g.Step d l g') : StoreStep d g g' := by
  cases h with
  | token l t ht => exact .pass rfl (Nat.le_refl _) (Nat.le_refl _)
  | advance blockNumber timestamp hidle hblock htime => exact .pass rfl hblock htime
  | quorum call params hparams => exact .quorum (call.apply params) ⟨rfl, rfl⟩ rfl
  | switch hzero => exact .switch ⟨rfl, rfl⟩ hzero rfl
  | timelocks timelock timelockV1 => exact .timelocks timelock timelockV1 ⟨rfl, rfl⟩ rfl
  | create p hp => exact .create p ⟨rfl, rfl⟩ hp rfl
  | ballot id p hp => exact .change id p ⟨rfl, rfl⟩ (.ballot p hp) rfl
  | queue id delay q hstate hq => exact .change id _ ⟨rfl, rfl⟩ (.queue delay hstate) rfl
  | cancel id s q hstate h₁ h₂ h₃ h₄ h₅ hq =>
    exact .change id _ ⟨rfl, rfl⟩ (.cancel s hstate h₁ h₂ h₃ h₄ h₅) rfl
  | veto id s q hstate hs hq => exact .change id _ ⟨rfl, rfl⟩ (.veto s hstate hs) rfl
  | execute id timelock g' hstate hfork hcont =>
    obtain ⟨hstore, htime⟩ := hcont.same
    exact .change id _ htime (.execute hstate) hstore
  | resume x rest g' hexec hcont =>
    obtain ⟨hstore, hblock, htime⟩ := hcont.same
    exact .pass hstore (Nat.le_of_eq hblock.symm) (Nat.le_of_eq htime.symm)
  | fork forkEndTimestamp => exact .pass rfl (Nat.le_refl _) (Nat.le_refl _)

/-! ## Every step keeps the invariant -/

/-- The fields no vote, update, queueing or execution writes. -/
structure SameTerms (p p' : Proposal) : Prop where
  id : p'.id = p.id
  totalSupply : p'.totalSupply = p.totalSupply
  quorumVotes : p'.quorumVotes = p.quorumVotes
  creationBlock : p'.creationBlock = p.creationBlock
  updatePeriodEndBlock : p'.updatePeriodEndBlock = p.updatePeriodEndBlock
  startBlock : p'.startBlock = p.startBlock
  endBlock : p'.endBlock = p.endBlock
  executeOnTimelockV1 : p'.executeOnTimelockV1 = p.executeOnTimelockV1

theorem SameTerms.refl (p : Proposal) : SameTerms p p := ⟨rfl, rfl, rfl, rfl, rfl, rfl, rfl, rfl⟩

theorem SameTerms.trans {p₁ p₂ p₃ : Proposal} (h : SameTerms p₁ p₂) (h' : SameTerms p₂ p₃) :
    SameTerms p₁ p₃ :=
  ⟨h'.id.trans h.id, h'.totalSupply.trans h.totalSupply, h'.quorumVotes.trans h.quorumVotes,
    h'.creationBlock.trans h.creationBlock, h'.updatePeriodEndBlock.trans h.updatePeriodEndBlock,
    h'.startBlock.trans h.startBlock, h'.endBlock.trans h.endBlock,
    h'.executeOnTimelockV1.trans h.executeOnTimelockV1⟩

theorem ProposalChange.sameTerms {id : Nat} {p : Proposal} (h : ProposalChange d g id p) :
    SameTerms (g.store.proposals id) p := by
  cases h with
  | ballot p hp =>
    cases hp with
    | update txs hstate htxs => exact ⟨rfl, rfl, rfl, rfl, rfl, rfl, rfl, rfl⟩
    | vote voter support votes o hstate hsupport hvoted hvotes ho =>
      rw [StorageV3.countVotes_eq _ hsupport]
      exact ⟨rfl, rfl, rfl, rfl, rfl, rfl, rfl, rfl⟩
    | object voter votes hstate hvoted hvotes =>
      rw [StorageV3.countVotes_eq _ (Nat.zero_le 2)]
      exact ⟨rfl, rfl, rfl, rfl, rfl, rfl, rfl, rfl⟩
  | queue delay hstate => exact ⟨rfl, rfl, rfl, rfl, rfl, rfl, rfl, rfl⟩
  | cancel s hstate h₁ h₂ h₃ h₄ h₅ => exact ⟨rfl, rfl, rfl, rfl, rfl, rfl, rfl, rfl⟩
  | veto s hstate hs => exact ⟨rfl, rfl, rfl, rfl, rfl, rfl, rfl, rfl⟩
  | execute hstate => exact ⟨rfl, rfl, rfl, rfl, rfl, rfl, rfl, rfl⟩

theorem ProposalChange.id_le {id : Nat} {p : Proposal} (h : ProposalChange d g id p)
    (hwf : g.Wf) : id ≤ g.store.proposalCount := by
  cases h with
  | ballot p hp =>
    cases hp with
    | update txs hstate htxs => exact ProposalStorage.stateInternal_le hstate
    | vote voter support votes o hstate hsupport hvoted hvotes ho =>
      exact ProposalStorage.stateInternal_le hstate
    | object voter votes hstate hvoted hvotes => exact ProposalStorage.stateInternal_le hstate
  | queue delay hstate => exact ProposalStorage.stateInternal_le hstate
  | cancel s hstate h₁ h₂ h₃ h₄ h₅ => exact ProposalStorage.stateInternal_le hstate
  | veto s hstate hs => exact ProposalStorage.stateInternal_le hstate
  | execute hstate => exact (hwf.executable hstate).1

theorem ProposalChange.timeline {id : Nat} {p : Proposal} (h : ProposalChange d g id p)
    (hwf : g.Wf) : p.Timeline g.blockNumber := by
  have hold := hwf.timeline id
  have hsame := h.sameTerms
  -- The windows are those of the old proposal; only the last two fields need an argument.
  suffices hrest : (p.eta ≠ 0 → p.endBlock < g.blockNumber ∧
      p.objectionPeriodEndBlock < g.blockNumber) ∧ (p.executed = true → p.eta ≠ 0) by
    refine ⟨?_, ?_, ?_, ?_, hrest.1, hrest.2⟩
    · rw [hsame.creationBlock]
      exact hold.created
    · rw [hsame.creationBlock, hsame.updatePeriodEndBlock]
      exact hold.update
    · rw [hsame.updatePeriodEndBlock, hsame.startBlock]
      exact hold.start
    · rw [hsame.startBlock, hsame.endBlock]
      exact hold.end_
  cases h with
  | ballot p hp =>
    cases hp with
    | update txs hstate htxs => exact ⟨hold.queued, hold.executed⟩
    | vote voter support votes o hstate hsupport hvoted hvotes ho =>
      obtain ⟨b, -, hin⟩ := hwf.isIn hstate
      rw [StorageV3.countVotes_eq _ hsupport]
      refine ⟨?_, hold.executed⟩
      intro heta
      cases hin with
      | active _ _ _ hle =>
        have hlt := (hold.queued heta).1
        exact absurd hle (Nat.not_le.mpr hlt)
    | object voter votes hstate hvoted hvotes =>
      rw [StorageV3.countVotes_eq _ (Nat.zero_le 2)]
      exact ⟨hold.queued, hold.executed⟩
  | queue delay hstate =>
    obtain ⟨b, -, hin⟩ := hwf.isIn hstate
    cases hin with
    | succeeded _ hclosed _ hz =>
      refine ⟨fun _ => ⟨hclosed.end_, hclosed.objection⟩, ?_⟩
      intro hx
      exact absurd hz (hold.executed hx)
  | cancel s hstate h₁ h₂ h₃ h₄ h₅ => exact ⟨hold.queued, hold.executed⟩
  | veto s hstate hs => exact ⟨hold.queued, hold.executed⟩
  | execute hstate =>
    rw [(hwf.executable hstate).2] at hstate
    obtain ⟨b, -, hin⟩ := hwf.isIn hstate
    cases hin with
    | queued _ _ _ hz _ _ => exact ⟨hold.queued, fun _ => hz⟩

theorem ProposalChange.aligned {id : Nat} {p : Proposal} (h : ProposalChange d g id p)
    (hold : (g.store.proposals id).Aligned) : p.Aligned := by
  cases h with
  | ballot p hp =>
    cases hp with
    | update txs hstate htxs => exact ProposalTxs.aligned_of_check htxs
    | vote voter support votes o hstate hsupport hvoted hvotes ho =>
      rw [StorageV3.countVotes_eq _ hsupport]
      exact hold
    | object voter votes hstate hvoted hvotes =>
      rw [StorageV3.countVotes_eq _ (Nat.zero_le 2)]
      exact hold
  | queue delay hstate => exact hold
  | cancel s hstate h₁ h₂ h₃ h₄ h₅ => exact hold
  | veto s hstate hs => exact hold
  | execute hstate => exact hold

theorem ProposalChange.zero {p : Proposal} (h : ProposalChange d g 0 p) (hwf : g.Wf) :
    p.endBlock = 0 ∧ p.objectionPeriodEndBlock = 0 ∧ p.forVotes = 0 := by
  have hzero := hwf.zero
  cases h with
  | ballot p hp =>
    cases hp with
    | update txs hstate htxs => exact hzero
    | vote voter support votes o hstate hsupport hvoted hvotes ho =>
      obtain ⟨b, -, hin⟩ := hwf.isIn hstate
      cases hin with
      | active _ _ hlt hle => omega
    | object voter votes hstate hvoted hvotes =>
      obtain ⟨b, -, hin⟩ := hwf.isIn hstate
      cases hin with
      | objectionPeriod _ _ _ hlt hle => omega
  | queue delay hstate => exact hzero
  | cancel s hstate h₁ h₂ h₃ h₄ h₅ => exact hzero
  | veto s hstate hs => exact hzero
  | execute hstate => exact hzero

/-- What holds of a proposal under every change, and of a slot under creation, holds of it after
every step. -/
theorem StoreStep.proposal {P : Proposal → Prop} {id : Nat} (h : StoreStep d g g')
    (hp : P (g.store.proposals id))
    (hchange : ∀ p, ProposalChange d g id p → P p)
    (hcreate : ∀ p, id = g.store.proposalCount + 1 → g.store.Created g.blockNumber p → P p) :
    P (g'.store.proposals id) := by
  cases h with
  | pass hstore _ _ =>
    rw [hstore]
    exact hp
  | quorum _ _ hstore =>
    rw [hstore]
    exact hp
  | switch _ _ hstore =>
    rw [hstore]
    exact hp
  | timelocks _ _ _ hstore =>
    rw [hstore]
    exact hp
  | create p _ hcreated hstore =>
    rw [hstore]
    by_cases heq : id = g.store.proposalCount + 1
    · subst heq
      simp only [Function.update_self]
      exact hcreate p rfl hcreated
    · simp only [Function.update_of_ne heq]
      exact hp
  | change id' p _ hpc hstore =>
    rw [hstore]
    by_cases heq : id = id'
    · subst heq
      simp only [Function.update_self]
      exact hchange p hpc
    · simp only [Function.update_of_ne heq]
      exact hp

theorem StoreStep.sameTerms {id : Nat} (h : StoreStep d g g')
    (hid : id ≤ g.store.proposalCount) :
    SameTerms (g.store.proposals id) (g'.store.proposals id) := by
  refine h.proposal (P := SameTerms (g.store.proposals id)) (.refl _)
    (fun p hp => hp.sameTerms) ?_
  rintro p rfl -
  exact absurd hid (Nat.not_succ_le_self _)

theorem StoreStep.proposalCount_cases (h : StoreStep d g g') :
    g'.store.proposalCount = g.store.proposalCount ∨
    g'.store.proposalCount = g.store.proposalCount + 1 ∧
      (g'.store.proposals (g.store.proposalCount + 1)).creationBlock = g.blockNumber := by
  cases h with
  | create p _ hcreated hstore =>
    refine .inr ⟨by rw [hstore], ?_⟩
    obtain ⟨_, _, _, _, _, _, _, _, _, rfl⟩ := hcreated.content
    rw [hstore]
    simp only [Function.update_self]
  | pass hstore _ _ => exact .inl (by rw [hstore])
  | quorum _ _ hstore => exact .inl (by rw [hstore])
  | switch _ _ hstore => exact .inl (by rw [hstore])
  | timelocks _ _ _ hstore => exact .inl (by rw [hstore])
  | change id' p _ _ hstore => exact .inl (by rw [hstore])

theorem StoreStep.proposalCount_le (h : StoreStep d g g') :
    g.store.proposalCount ≤ g'.store.proposalCount := by
  rcases h.proposalCount_cases with hsame | ⟨hcount, -⟩
  · exact Nat.le_of_eq hsame.symm
  · rw [hcount]
    exact Nat.le_succ _

theorem StoreStep.blockNumber_le (h : StoreStep d g g') : g.blockNumber ≤ g'.blockNumber := by
  cases h with
  | pass _ hblock _ => exact hblock
  | quorum _ htime _ => exact Nat.le_of_eq htime.1.symm
  | switch htime _ _ => exact Nat.le_of_eq htime.1.symm
  | timelocks _ _ htime _ => exact Nat.le_of_eq htime.1.symm
  | create _ htime _ _ => exact Nat.le_of_eq htime.1.symm
  | change _ _ htime _ _ => exact Nat.le_of_eq htime.1.symm

theorem wf_of_pass (hwf : g.Wf) (hstore : g'.store = g.store)
    (hblock : g.blockNumber ≤ g'.blockNumber) : g'.Wf := by
  unfold Gov.Wf
  rw [hstore]
  exact ⟨hwf.checkpoints.mono hblock, hwf.fresh, hwf.zero, hwf.id_eq,
    fun id => (hwf.timeline id).mono hblock, hwf.quorum, hwf.aligned⟩

theorem wf_of_quorum (hwf : g.Wf) (params : DynamicQuorumParams) :
    ({ g.store with
      quorumParamsCheckpoints := write g.store.quorumParamsCheckpoints g.blockNumber params } :
      ProposalStorage).Wf g.blockNumber := by
  refine ⟨write_wellFormed hwf.checkpoints params, hwf.fresh, hwf.zero, hwf.id_eq, hwf.timeline, ?_,
    hwf.aligned⟩
  intro id
  rcases hwf.quorum id with hz | ⟨params', hok⟩
  · exact .inl hz
  · refine .inr ?_
    rw [ProposalStorage.getDynamicQuorumParamsAt_write hwf.checkpoints
      (ProposalStorage.getDynamicQuorumParamsAt_lt hok)]
    split
    · exact ⟨params, rfl⟩
    · exact ⟨params', hok⟩

theorem wf_of_create (hwf : g.Wf) {p : Proposal} (hp : g.store.Created g.blockNumber p) :
    ({ g.store with
      proposalCount := g.store.proposalCount + 1
      proposals := Function.update g.store.proposals (g.store.proposalCount + 1) p } :
      ProposalStorage).Wf g.blockNumber := by
  have hfresh := hwf.fresh (g.store.proposalCount + 1) (Nat.lt_succ_self _)
  obtain ⟨⟨_, _, _, _, _, _, _, _, _, rfl⟩, htxs, hupdate, hstart, hend, hquorum⟩ := hp
  rw [hfresh] at hupdate hstart hend ⊢
  refine ⟨hwf.checkpoints, ?_, ?_, ?_, ?_, ?_, ?_⟩
  · intro id hid
    change g.store.proposalCount + 1 < id at hid
    change Function.update _ _ _ id = _
    rw [Function.update_of_ne (by omega)]
    exact hwf.fresh id (by omega)
  · exact hwf.zero
  · intro id hid
    change id ≤ g.store.proposalCount + 1 at hid
    by_cases hlast : id = g.store.proposalCount + 1
    · subst hlast
      simp
    · simp only [Function.update_of_ne hlast]
      exact hwf.id_eq id (by omega)
  · intro id
    by_cases hlast : id = g.store.proposalCount + 1
    · subst hlast
      simp only [Function.update_self]
      exact ⟨Nat.le_refl _, hupdate, hstart, hend, fun h => absurd rfl h,
        fun h => absurd h Bool.false_ne_true⟩
    · simp only [Function.update_of_ne hlast]
      exact hwf.timeline id
  · intro id
    by_cases hlast : id = g.store.proposalCount + 1
    · subst hlast
      simp only [Function.update_self]
      exact .inr hquorum
    · simp only [Function.update_of_ne hlast]
      exact hwf.quorum id
  · intro id
    by_cases hlast : id = g.store.proposalCount + 1
    · subst hlast
      simp only [Function.update_self]
      exact ProposalTxs.aligned_of_check htxs
    · simp only [Function.update_of_ne hlast]
      exact hwf.aligned id

theorem wf_of_change (hwf : g.Wf) {id : Nat} {p : Proposal} (hp : ProposalChange d g id p) :
    ({ g.store with proposals := Function.update g.store.proposals id p } :
      ProposalStorage).Wf g.blockNumber := by
  have hsame := hp.sameTerms
  have hle := hp.id_le hwf
  refine ⟨hwf.checkpoints, ?_, ?_, ?_, ?_, ?_, ?_⟩
  · intro id' hid'
    change g.store.proposalCount < id' at hid'
    simp only [Function.update_of_ne (show id' ≠ id by omega)]
    exact hwf.fresh id' hid'
  · by_cases h0 : 0 = id
    · subst h0
      simp only [Function.update_self]
      exact hp.zero hwf
    · simp only [Function.update_of_ne h0]
      exact hwf.zero
  · intro id' hid'
    by_cases heq : id' = id
    · subst heq
      simp only [Function.update_self, hsame.id]
      exact hwf.id_eq id' hle
    · simp only [Function.update_of_ne heq]
      exact hwf.id_eq id' hid'
  · intro id'
    by_cases heq : id' = id
    · subst heq
      simp only [Function.update_self]
      exact hp.timeline hwf
    · simp only [Function.update_of_ne heq]
      exact hwf.timeline id'
  · intro id'
    by_cases heq : id' = id
    · subst heq
      simp only [Function.update_self, hsame.totalSupply, hsame.creationBlock]
      exact hwf.quorum id'
    · simp only [Function.update_of_ne heq]
      exact hwf.quorum id'
  · intro id'
    by_cases heq : id' = id
    · subst heq
      simp only [Function.update_self]
      exact hp.aligned (hwf.aligned id')
    · simp only [Function.update_of_ne heq]
      exact hwf.aligned id'

theorem StoreStep.wf (h : StoreStep d g g') (hwf : g.Wf) : g'.Wf := by
  cases h with
  | pass hstore hblock htime => exact wf_of_pass hwf hstore hblock
  | quorum params htime hstore =>
    unfold Gov.Wf
    rw [hstore, htime.1]
    exact wf_of_quorum hwf params
  | switch htime hzero hstore =>
    unfold Gov.Wf
    rw [hstore, htime.1]
    exact ⟨hwf.checkpoints, hwf.fresh, hwf.zero, hwf.id_eq, hwf.timeline, hwf.quorum, hwf.aligned⟩
  | timelocks timelock timelockV1 htime hstore =>
    unfold Gov.Wf
    rw [hstore, htime.1]
    exact ⟨hwf.checkpoints, hwf.fresh, hwf.zero, hwf.id_eq, hwf.timeline, hwf.quorum, hwf.aligned⟩
  | create p htime hp hstore =>
    unfold Gov.Wf
    rw [hstore, htime.1]
    exact wf_of_create hwf hp
  | change id p htime hp hstore =>
    unfold Gov.Wf
    rw [hstore, htime.1]
    exact wf_of_change hwf hp

end Gov

/-! ## Runs that start without proposals -/

/-- No proposal was made yet, and no call is in progress. -/
structure World.Fresh (w : World H) : Prop where
  proposalCount : w.dao.proposalCount = 0
  proposals : ∀ id, w.dao.proposals id = Proposal.empty
  checkpoints : WellFormed w.dao.quorumParamsCheckpoints w.blockNumber
  frames : w.frames = []

namespace World

variable {w w' : World H}

theorem Fresh.wf (h : w.Fresh) : w.gov.Wf := by
  have hp : w.gov.store.proposals = fun _ => Proposal.empty := funext h.proposals
  refine ⟨h.checkpoints, fun id _ => h.proposals id, ?_, ?_, ?_, ?_, ?_⟩
  · rw [hp]
    exact ⟨rfl, rfl, rfl⟩
  · intro id hid
    rw [show w.gov.store.proposalCount = 0 from h.proposalCount] at hid
    rw [hp, Nat.le_zero.mp hid]
    rfl
  · intro id
    rw [hp]
    exact Proposal.empty_timeline _
  · intro id
    rw [hp]
    exact .inl rfl
  · intro id
    rw [hp]
    exact ⟨rfl, rfl, rfl⟩

variable [DecidableEq H] {d : Deployment H} {admits : World H → Action → Prop}

theorem Next.storeStep (h : Next d admits w w') : Gov.StoreStep d w.gov w'.gov := by
  obtain ⟨l, hstep⟩ := h.exists_gov_step
  exact hstep.storeStep

theorem Next.wf (h : Next d admits w w') (hwf : w.gov.Wf) : w'.gov.Wf := h.storeStep.wf hwf

end World

end Nouns
