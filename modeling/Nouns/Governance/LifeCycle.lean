import Nouns.Governance.Genesis

/-!
# LifeCycle — how the state of a proposal moves

The state is computed from the stored fields, the clock and the quorum each time it is asked for.
It only moves forward along the path of a vote, or leaves it by a cancellation or a veto.
-/

open Fallible Checkpoints Transition

namespace Nouns

variable {H : Type}

namespace ProposalState

/-- The place of a state on the path of a vote. -/
def rank : ProposalState → Nat
  | Updatable => 0
  | Pending => 1
  | Active => 2
  | ObjectionPeriod => 3
  | Defeated | Succeeded => 4
  | Queued => 5
  | Executed | Expired => 6
  | Canceled | Vetoed => 7

def OnPath (s : ProposalState) : Prop := s ≠ Canceled ∧ s ≠ Vetoed

instance (s : ProposalState) : Decidable s.OnPath := inferInstanceAs (Decidable (_ ∧ _))

/-- The states a proposal can be canceled in. -/
def Cancelable (s : ProposalState) : Prop :=
  s = Updatable ∨ s = Pending ∨ s = Active ∨ s = ObjectionPeriod ∨ s = Succeeded ∨ s = Queued

/-- The states from which nothing can be executed any more. -/
def Lost (s : ProposalState) : Prop := s = Defeated ∨ s = Expired ∨ s = Canceled ∨ s = Vetoed

inductive Moves (s : ProposalState) : ProposalState → Prop
  | stay : Moves s s
  | forward {s' : ProposalState} : s.OnPath → s'.OnPath → s ≠ Defeated → s.rank < s'.rank →
      Moves s s'
  | veto : s ≠ Executed → Moves s Vetoed
  | cancel : s.Cancelable → Moves s Canceled

variable {s s' : ProposalState}

theorem Moves.executed (h : Moves Executed s') : s' = Executed := by
  cases h with
  | stay => rfl
  | forward _ hpath _ hlt => cases s' <;> simp_all [rank, OnPath]
  | veto hne => exact absurd rfl hne
  | cancel hc => simp [Cancelable] at hc

theorem Moves.vetoed (h : Moves Vetoed s') : s' = Vetoed := by
  cases h with
  | stay => rfl
  | forward hpath _ _ _ => exact absurd rfl hpath.2
  | veto _ => rfl
  | cancel hc => simp [Cancelable] at hc

theorem Moves.canceled (h : Moves Canceled s') : s' = Canceled ∨ s' = Vetoed := by
  cases h with
  | stay => exact .inl rfl
  | forward hpath _ _ _ => exact absurd rfl hpath.1
  | veto _ => exact .inr rfl
  | cancel _ => exact .inl rfl

theorem Moves.lost (h : Moves s s') (hs : s.Lost) : s'.Lost := by
  cases h with
  | stay => exact hs
  | forward hpath hpath' hne hlt =>
    rcases hs with rfl | rfl | rfl | rfl
    · exact absurd rfl hne
    · cases s' <;> simp_all [rank, OnPath]
    · exact absurd rfl hpath.1
    · exact absurd rfl hpath.2
  | veto _ => exact .inr (.inr (.inr rfl))
  | cancel _ => exact .inr (.inr (.inl rfl))

end ProposalState

open ProposalState

/-! ## One proposal as time passes -/

namespace Proposal

variable {p p' : Proposal} {clock clock' : Clock} {timelock : Address} {b b' : Bool}
  {s s' : ProposalState}

theorem IsIn.unique (h : p.IsIn clock timelock b s) (h' : p.IsIn clock timelock b s') : s = s' :=
  h.stateWith_eq.symm.trans h'.stateWith_eq

theorem Closed.mono {now now' : Nat} (h : p.Closed now) (hle : now ≤ now') : p.Closed now' :=
  ⟨Nat.lt_of_lt_of_le h.update hle, Nat.lt_of_lt_of_le h.start hle,
    Nat.lt_of_lt_of_le h.end_ hle, Nat.lt_of_lt_of_le h.objection hle⟩

theorem not_alive_of_vetoed (ha : p.Alive) : ¬ p.vetoed = true := by simp [ha.1]

theorem not_alive_of_canceled (ha : p.Alive) : ¬ p.canceled = true := by simp [ha.2]

/-- Time passes; the verdict may still change while the proposal is updatable. -/
theorem IsIn.moves (h : p.IsIn clock timelock b s) (h' : p.IsIn clock' timelock b' s')
    (hblock : clock.blockNumber ≤ clock'.blockNumber) (htime : clock.timestamp ≤ clock'.timestamp)
    (hgrace : clock'.gracePeriod = clock.gracePeriod)
    (hb : p.updatePeriodEndBlock < clock'.blockNumber → b' = b) : s.Moves s' := by
  have hverdict : p.Closed clock.blockNumber → b' = b := fun hc => hb (hc.mono hblock).update
  cases h with
  | vetoed hv =>
    rw [h'.unique (.vetoed hv)]
    exact .stay
  | canceled hv hc =>
    rw [h'.unique (.canceled hv hc)]
    exact .stay
  | defeated ha hc hd =>
    rw [h'.unique (.defeated ha (hc.mono hblock) (hverdict hc ▸ hd))]
    exact .stay
  | succeeded ha hc hd hz =>
    rw [h'.unique (.succeeded ha (hc.mono hblock) (hverdict hc ▸ hd) hz)]
    exact .stay
  | executed ha hc hd hz hx =>
    rw [h'.unique (.executed ha (hc.mono hblock) (hverdict hc ▸ hd) hz hx)]
    exact .stay
  | expired ha hc hd hz hx ht =>
    rw [h'.unique (.expired ha (hc.mono hblock) (hverdict hc ▸ hd) hz hx
      (hgrace ▸ Nat.le_trans ht htime))]
    exact .stay
  | queued ha hc hd hz hx ht =>
    rcases Nat.lt_or_ge clock'.timestamp (p.eta + clock'.gracePeriod timelock) with hlt | hge
    · rw [h'.unique (.queued ha (hc.mono hblock) (hverdict hc ▸ hd) hz hx hlt)]
      exact .stay
    · rw [h'.unique (.expired ha (hc.mono hblock) (hverdict hc ▸ hd) hz hx hge)]
      exact .forward (by decide) (by decide) (by decide) (by decide)
  -- In the four windows of the vote any later state of the path can follow.
  | updatable ha hu =>
    cases h' with
    | vetoed hv => exact absurd hv (not_alive_of_vetoed ha)
    | canceled _ hc => exact absurd hc (not_alive_of_canceled ha)
    | updatable _ _ => exact .stay
    | _ => exact .forward (by decide) (by decide) (by decide) (by decide)
  | pending ha hu hs =>
    cases h' with
    | vetoed hv => exact absurd hv (not_alive_of_vetoed ha)
    | canceled _ hc => exact absurd hc (not_alive_of_canceled ha)
    | updatable _ hu' => omega
    | pending _ _ _ => exact .stay
    | _ => exact .forward (by decide) (by decide) (by decide) (by decide)
  | active ha hu hs he =>
    cases h' with
    | vetoed hv => exact absurd hv (not_alive_of_vetoed ha)
    | canceled _ hc => exact absurd hc (not_alive_of_canceled ha)
    | updatable _ hu' => omega
    | pending _ _ hs' => omega
    | active _ _ _ _ => exact .stay
    | _ => exact .forward (by decide) (by decide) (by decide) (by decide)
  | objectionPeriod ha hu hs he ho =>
    cases h' with
    | vetoed hv => exact absurd hv (not_alive_of_vetoed ha)
    | canceled _ hc => exact absurd hc (not_alive_of_canceled ha)
    | updatable _ hu' => omega
    | pending _ _ hs' => omega
    | active _ _ _ he' => omega
    | objectionPeriod _ _ _ _ _ => exact .stay
    | _ => exact .forward (by decide) (by decide) (by decide) (by decide)

end Proposal

/-! ## Verdicts -/

namespace ProposalStorage

variable {s s' : ProposalStorage} {now id : Nat}

/-- What decides whether proposal `id` is defeated is the same in both storages. -/
structure SameVerdict (s s' : ProposalStorage) (id : Nat) : Prop where
  terms : Gov.SameTerms (s.proposals id) (s'.proposals id)
  forVotes : (s'.proposals id).forVotes = (s.proposals id).forVotes
  againstVotes : (s'.proposals id).againstVotes = (s.proposals id).againstVotes
  quorum : s'.getDynamicQuorumParamsAt (s.proposals id).creationBlock =
    s.getDynamicQuorumParamsAt (s.proposals id).creationBlock

theorem SameVerdict.isDefeated_eq (h : SameVerdict s s' id) (hid : (s.proposals id).id = id) :
    s'.isDefeated (s'.proposals id) = s.isDefeated (s.proposals id) := by
  have hquorum : s'.quorumVotes id = s.quorumVotes id := by
    rw [quorumVotes_eq, quorumVotes_eq, quorumFor, quorumFor, h.terms.totalSupply,
      h.terms.quorumVotes, h.terms.creationBlock, h.againstVotes, h.quorum]
  simp only [isDefeated, h.forVotes, h.againstVotes, h.terms.id, hid, hquorum]

theorem SameVerdict.of_eq (h : s'.proposals id = s.proposals id)
    (hquorum : s'.getDynamicQuorumParamsAt (s.proposals id).creationBlock =
      s.getDynamicQuorumParamsAt (s.proposals id).creationBlock) : SameVerdict s s' id := by
  refine ⟨?_, ?_, ?_, hquorum⟩
  · rw [h]
    exact .refl _
  · rw [h]
  · rw [h]

end ProposalStorage

namespace Gov

variable {d : Deployment H} {g g' : Gov H} {id : Nat}

def SameTimelocks (g g' : Gov H) : Prop :=
  g'.store.timelock = g.store.timelock ∧ g'.store.timelockV1 = g.store.timelockV1

theorem SameTimelocks.getProposalTimelock_eq (h : SameTimelocks g g') {p p' : Proposal}
    (hp : p'.executeOnTimelockV1 = p.executeOnTimelockV1) :
    g'.store.getProposalTimelock p' = g.store.getProposalTimelock p := by
  simp only [ProposalStorage.getProposalTimelock, h.1, h.2, hp]

/-- A step that leaves the proposal as it is. -/
theorem moves_of_eq (hwf : g.Wf) (hwf' : g'.Wf) (hblock : g.blockNumber ≤ g'.blockNumber)
    (htime : g.timestamp ≤ g'.timestamp) (hlocks : SameTimelocks g g')
    (hid : id ≤ g.store.proposalCount) (hid' : id ≤ g'.store.proposalCount)
    (hp : g'.store.proposals id = g.store.proposals id)
    (hquorum : (g.store.proposals id).updatePeriodEndBlock < g'.blockNumber →
      g'.store.getDynamicQuorumParamsAt (g.store.proposals id).creationBlock =
        g.store.getDynamicQuorumParamsAt (g.store.proposals id).creationBlock) :
    ∃ s s', g.state d id = .ok s ∧ g'.state d id = .ok s' ∧ s.Moves s' := by
  obtain ⟨s, hs⟩ := hwf.stateInternal_ok hid (g.clock d)
  obtain ⟨s', hs'⟩ := hwf'.stateInternal_ok hid' (g'.clock d)
  obtain ⟨b, hb, hin⟩ := hwf.isIn hs
  obtain ⟨b', hb', hin'⟩ := hwf'.isIn hs'
  rw [hlocks.getProposalTimelock_eq (congrArg _ hp), hp] at hin'
  refine ⟨s, s', hs, hs', hin.moves hin' hblock htime rfl ?_⟩
  intro hlt
  have hsame := (ProposalStorage.SameVerdict.of_eq hp (hquorum hlt)).isDefeated_eq
    (hwf.id_eq id hid)
  rw [hsame, hb] at hb'
  exact (Except.ok.inj hb').symm

theorem ProposalChange.moves {p : Proposal} (h : ProposalChange d g id p) (hwf : g.Wf)
    (hwf' : g'.Wf) (htime : SameTime g g')
    (hstore : g'.store = { g.store with
      proposals := Function.update g.store.proposals id p }) :
    ∃ s s', g.state d id = .ok s ∧ g'.state d id = .ok s' ∧ s.Moves s' := by
  have hid := h.id_le hwf
  have hp : g'.store.proposals id = p := by simp [hstore]
  have hclock : g'.clock d = g.clock d := by simp only [clock, htime.1, htime.2]
  have hid' : id ≤ g'.store.proposalCount := by
    rw [hstore]
    exact hid
  obtain ⟨s', hs'⟩ := hwf'.stateInternal_ok hid' (g.clock d)
  obtain ⟨b', hb', hin'⟩ := hwf'.isIn hs'
  rw [hp] at hb' hin'
  have hverdict : p.forVotes = (g.store.proposals id).forVotes →
      p.againstVotes = (g.store.proposals id).againstVotes →
      g'.store.isDefeated p = g.store.isDefeated (g.store.proposals id) := by
    intro hfor hagainst
    have hsame : g.store.SameVerdict g'.store id := by
      refine ⟨hp ▸ h.sameTerms, hp ▸ hfor, hp ▸ hagainst, ?_⟩
      rw [hstore]
      rfl
    have heq := hsame.isDefeated_eq (hwf.id_eq id hid)
    rwa [hp] at heq
  unfold state
  rw [hclock, hs']
  cases h with
  | ballot p hpc =>
    cases hpc with
    | update txs hstate htxs =>
      obtain ⟨b, -, hin⟩ := hwf.isIn hstate
      cases hin with
      | updatable ha hu =>
        refine ⟨.Updatable, s', hstate, rfl, ?_⟩
        rw [hin'.unique (.updatable ha hu)]
        exact .stay
    | vote voter support votes o hstate hsupport hvoted hvotes ho =>
      obtain ⟨b, -, hin⟩ := hwf.isIn hstate
      rw [StorageV3.countVotes_eq _ hsupport] at hin'
      cases hin with
      | active ha hu hs he =>
        refine ⟨.Active, s', hstate, rfl, ?_⟩
        rw [hin'.unique (.active ha hu hs he)]
        exact .stay
    | object voter votes hstate hvoted hvotes =>
      obtain ⟨b, -, hin⟩ := hwf.isIn hstate
      rw [StorageV3.countVotes_eq _ (Nat.zero_le 2)] at hin'
      cases hin with
      | objectionPeriod ha hu hs he ho =>
        refine ⟨.ObjectionPeriod, s', hstate, rfl, ?_⟩
        rw [hin'.unique (.objectionPeriod ha hu hs he ho)]
        exact .stay
  | queue delay hstate =>
    obtain ⟨b, hb, hin⟩ := hwf.isIn hstate
    rw [hverdict rfl rfl, hb] at hb'
    cases hb'
    cases hin with
    | succeeded ha hc hd hz =>
      have hx : (g.store.proposals id).executed = false := by
        by_contra hne
        exact (hwf.timeline id).executed (Bool.eq_true_of_not_eq_false hne) hz
      have hdelay : 0 < (delay : Nat) := Nat.lt_of_lt_of_le (by decide) delay.2.1
      refine ⟨.Succeeded, s', hstate, rfl, ?_⟩
      rw [hin'.unique (.queued ha ⟨hc.update, hc.start, hc.end_, hc.objection⟩ hd
        (by change g.timestamp + delay ≠ 0; omega) hx
        (by change g.timestamp < g.timestamp + delay + _; omega))]
      exact .forward (by decide) (by decide) (by decide) (by decide)
  | cancel s hstate h₁ h₂ h₃ h₄ h₅ =>
    obtain ⟨b, -, hin⟩ := hwf.isIn hstate
    have hv : (g.store.proposals id).vetoed = false := by
      by_contra hne
      exact h₅ (hin.unique (.vetoed (Bool.eq_true_of_not_eq_false hne)))
    refine ⟨s, s', hstate, rfl, ?_⟩
    rw [hin'.unique (.canceled hv rfl)]
    refine .cancel ?_
    cases s <;> simp_all [Cancelable]
  | veto s hstate hs =>
    refine ⟨s, s', hstate, rfl, ?_⟩
    rw [hin'.unique (.vetoed rfl)]
    exact .veto hs
  | execute hstate =>
    rw [(hwf.executable hstate).2] at hstate
    obtain ⟨b, hb, hin⟩ := hwf.isIn hstate
    rw [hverdict rfl rfl, hb] at hb'
    cases hb'
    cases hin with
    | queued ha hc hd hz hx ht =>
      refine ⟨.Queued, s', hstate, rfl, ?_⟩
      rw [hin'.unique (.executed ha ⟨hc.update, hc.start, hc.end_, hc.objection⟩ hd hz rfl)]
      exact .forward (by decide) (by decide) (by decide) (by decide)

theorem StoreStep.moves (h : StoreStep d g g') (hwf : g.Wf) (hlocks : SameTimelocks g g')
    (hid : id ≤ g.store.proposalCount) :
    ∃ s s', g.state d id = .ok s ∧ g'.state d id = .ok s' ∧ s.Moves s' := by
  have hwf' := h.wf hwf
  cases h with
  | pass hstore hblock htime =>
    exact moves_of_eq hwf hwf' hblock htime hlocks hid (hstore ▸ hid) (by rw [hstore])
      (fun _ => by rw [hstore])
  | quorum params htime hstore =>
    refine moves_of_eq hwf hwf' (Nat.le_of_eq htime.1.symm) (Nat.le_of_eq htime.2.symm) hlocks hid
      (by rw [hstore]; exact hid) (by rw [hstore]) ?_
    -- The block of the creation is over once the proposal cannot be updated.
    intro hlt
    have hcreated := (hwf.timeline id).update
    rw [htime.1] at hlt
    rw [hstore]
    exact ProposalStorage.getDynamicQuorumParamsAt_write_of_lt hwf.checkpoints (by omega) params
  | switch htime hzero hstore =>
    exact moves_of_eq hwf hwf' (Nat.le_of_eq htime.1.symm) (Nat.le_of_eq htime.2.symm) hlocks hid
      (by rw [hstore]; exact hid) (by rw [hstore]) (fun _ => by rw [hstore]; rfl)
  | timelocks timelock timelockV1 htime hstore =>
    exact moves_of_eq hwf hwf' (Nat.le_of_eq htime.1.symm) (Nat.le_of_eq htime.2.symm) hlocks hid
      (by rw [hstore]; exact hid) (by rw [hstore]) (fun _ => by rw [hstore]; rfl)
  | create p htime hp hstore =>
    refine moves_of_eq hwf hwf' (Nat.le_of_eq htime.1.symm) (Nat.le_of_eq htime.2.symm) hlocks hid
      (by rw [hstore]; exact Nat.le_succ_of_le hid) ?_ (fun _ => by rw [hstore]; rfl)
    rw [hstore]
    exact Function.update_of_ne (by omega) _ _
  | change id' p htime hp hstore =>
    by_cases heq : id = id'
    · subst heq
      exact hp.moves hwf hwf' htime hstore
    · refine moves_of_eq hwf hwf' (Nat.le_of_eq htime.1.symm) (Nat.le_of_eq htime.2.symm) hlocks
        hid (by rw [hstore]; exact hid) ?_ (fun _ => by rw [hstore]; rfl)
      rw [hstore]
      exact Function.update_of_ne heq _ _

/-! ## Votes are final -/

/-- The votes on proposal `id`, their receipts, the end of the vote and the verdict are the same in
both storages. -/
structure SameBallot (s s' : ProposalStorage) (id : Nat) : Prop where
  forVotes : (s'.proposals id).forVotes = (s.proposals id).forVotes
  againstVotes : (s'.proposals id).againstVotes = (s.proposals id).againstVotes
  abstainVotes : (s'.proposals id).abstainVotes = (s.proposals id).abstainVotes
  receipts : (s'.proposals id).receipts = (s.proposals id).receipts
  endBlock : (s'.proposals id).endBlock = (s.proposals id).endBlock
  objectionPeriodEndBlock :
    (s'.proposals id).objectionPeriodEndBlock = (s.proposals id).objectionPeriodEndBlock
  isDefeated : s'.isDefeated (s'.proposals id) = s.isDefeated (s.proposals id)

theorem SameBallot.refl (s : ProposalStorage) (id : Nat) : SameBallot s s id :=
  ⟨rfl, rfl, rfl, rfl, rfl, rfl, rfl⟩

theorem SameBallot.trans {s₁ s₂ s₃ : ProposalStorage} (h : SameBallot s₁ s₂ id)
    (h' : SameBallot s₂ s₃ id) : SameBallot s₁ s₃ id :=
  ⟨h'.forVotes.trans h.forVotes, h'.againstVotes.trans h.againstVotes,
    h'.abstainVotes.trans h.abstainVotes, h'.receipts.trans h.receipts,
    h'.endBlock.trans h.endBlock, h'.objectionPeriodEndBlock.trans h.objectionPeriodEndBlock,
    h'.isDefeated.trans h.isDefeated⟩

theorem sameBallot_of_eq (hwf : g.Wf) (hid : id ≤ g.store.proposalCount)
    (hp : g'.store.proposals id = g.store.proposals id)
    (hquorum : g'.store.getDynamicQuorumParamsAt (g.store.proposals id).creationBlock =
      g.store.getDynamicQuorumParamsAt (g.store.proposals id).creationBlock) :
    SameBallot g.store g'.store id := by
  have hverdict := (ProposalStorage.SameVerdict.of_eq hp hquorum).isDefeated_eq (hwf.id_eq id hid)
  refine ⟨?_, ?_, ?_, ?_, ?_, ?_, hverdict⟩ <;> rw [hp]

theorem ProposalChange.sameBallot {p : Proposal} (h : ProposalChange d g id p) (hwf : g.Wf)
    (hclosed : (g.store.proposals id).Closed g.blockNumber)
    (hstore : g'.store = { g.store with
      proposals := Function.update g.store.proposals id p }) :
    SameBallot g.store g'.store id := by
  have hp : g'.store.proposals id = p := by simp [hstore]
  have hsame : p.forVotes = (g.store.proposals id).forVotes →
      p.againstVotes = (g.store.proposals id).againstVotes →
      p.abstainVotes = (g.store.proposals id).abstainVotes →
      p.receipts = (g.store.proposals id).receipts →
      p.objectionPeriodEndBlock = (g.store.proposals id).objectionPeriodEndBlock →
      SameBallot g.store g'.store id := by
    intro h₁ h₂ h₃ h₄ h₅
    have hverdict : g.store.SameVerdict g'.store id := by
      refine ⟨hp ▸ h.sameTerms, hp ▸ h₁, hp ▸ h₂, ?_⟩
      rw [hstore]
      rfl
    exact ⟨hp ▸ h₁, hp ▸ h₂, hp ▸ h₃, hp ▸ h₄, hp ▸ h.sameTerms.endBlock, hp ▸ h₅,
      hverdict.isDefeated_eq (hwf.id_eq id (h.id_le hwf))⟩
  cases h with
  | ballot p hpc =>
    cases hpc with
    | update txs hstate htxs => exact hsame rfl rfl rfl rfl rfl
    | vote voter support votes o hstate hsupport hvoted hvotes ho =>
      obtain ⟨b, -, hin⟩ := hwf.isIn hstate
      cases hin with
      | active _ _ _ he => exact absurd hclosed.end_ (Nat.not_lt.mpr he)
    | object voter votes hstate hvoted hvotes =>
      obtain ⟨b, -, hin⟩ := hwf.isIn hstate
      cases hin with
      | objectionPeriod _ _ _ _ ho => exact absurd hclosed.objection (Nat.not_lt.mpr ho)
  | queue delay hstate => exact hsame rfl rfl rfl rfl rfl
  | cancel s hstate h₁ h₂ h₃ h₄ h₅ => exact hsame rfl rfl rfl rfl rfl
  | veto s hstate hs => exact hsame rfl rfl rfl rfl rfl
  | execute hstate => exact hsame rfl rfl rfl rfl rfl

theorem StoreStep.sameBallot (h : StoreStep d g g') (hwf : g.Wf)
    (hid : id ≤ g.store.proposalCount) (hclosed : (g.store.proposals id).Closed g.blockNumber) :
    SameBallot g.store g'.store id := by
  cases h with
  | pass hstore hblock htime =>
    rw [hstore]
    exact .refl _ _
  | quorum params htime hstore =>
    have hcreated := (hwf.timeline id).update
    have hlt := hclosed.update
    refine sameBallot_of_eq hwf hid (by rw [hstore]) ?_
    rw [hstore]
    exact ProposalStorage.getDynamicQuorumParamsAt_write_of_lt hwf.checkpoints (by omega) params
  | switch htime hzero hstore =>
    exact sameBallot_of_eq hwf hid (by rw [hstore]) (by rw [hstore]; rfl)
  | timelocks timelock timelockV1 htime hstore =>
    exact sameBallot_of_eq hwf hid (by rw [hstore]) (by rw [hstore]; rfl)
  | create p htime hp hstore =>
    refine sameBallot_of_eq hwf hid ?_ (by rw [hstore]; rfl)
    rw [hstore]
    exact Function.update_of_ne (by omega) _ _
  | change id' p htime hp hstore =>
    by_cases heq : id = id'
    · subst heq
      exact hp.sameBallot hwf hclosed hstore
    · refine sameBallot_of_eq hwf hid ?_ (by rw [hstore]; rfl)
      rw [hstore]
      exact Function.update_of_ne heq _ _

end Gov

/-! ## Runs -/

namespace World

variable [DecidableEq H] {d : Deployment H} {w w' : World H} {id : Nat}

/-- The two timelocks are those of the deployment. -/
def TimelocksFixed (d : Deployment H) (w : World H) : Prop :=
  w.dao.timelock = d.timelock ∧ w.dao.timelockV1 = d.timelockV1

instance (d : Deployment H) (w : World H) : Decidable (w.TimelocksFixed d) :=
  inferInstanceAs (Decidable (_ ∧ _))

/-- Steps of the chain, as long as the timelocks stay where they are. -/
def NextFixed (d : Deployment H) (w w' : World H) : Prop :=
  Next d (fun _ _ => True) w w' ∧ w'.TimelocksFixed d

/-- A run starts without proposals. -/
def Start (d : Deployment H) (w : World H) : Prop := w.Fresh ∧ w.TimelocksFixed d

theorem wf_of_reachable (h : Reachable (Start d) (NextFixed d) w) :
    w.gov.Wf ∧ w.TimelocksFixed d := by
  refine h.invariant (P := fun w => w.gov.Wf ∧ w.TimelocksFixed d) ?_ ?_
  · exact fun w hw => ⟨hw.1.wf, hw.2⟩
  · exact fun w w' _ hw hn => ⟨hn.1.wf hw.1, hn.2⟩

theorem NextFixed.moves (h : NextFixed d w w') (hr : Reachable (Start d) (NextFixed d) w)
    (hid : id ≤ w.dao.proposalCount) :
    ∃ s s', w.state d id = .ok s ∧ w'.state d id = .ok s' ∧ s.Moves s' := by
  obtain ⟨hwf, hfixed⟩ := wf_of_reachable hr
  exact h.1.storeStep.moves hwf ⟨h.2.1.trans hfixed.1.symm, h.2.2.trans hfixed.2.symm⟩ hid

/-- A whole run moves the state of a proposal by single moves. -/
theorem moves_of_steps (hr : Reachable (Start d) (NextFixed d) w)
    (h : Relation.ReflTransGen (NextFixed d) w w') (hid : id ≤ w.dao.proposalCount) :
    ∃ s s', w.state d id = .ok s ∧ w'.state d id = .ok s' ∧ id ≤ w'.dao.proposalCount ∧
      Relation.ReflTransGen Moves s s' := by
  induction h with
  | refl =>
    obtain ⟨s, hs⟩ := (wf_of_reachable hr).1.stateInternal_ok hid (w.gov.clock d)
    exact ⟨s, s, hs, hs, hid, .refl⟩
  | tail hsteps hn ih =>
    obtain ⟨s, s₁, hs, hs₁, hid₁, hmoves⟩ := ih
    obtain ⟨s₁', s₂, hs₁', hs₂, hmove⟩ := hn.moves (hr.steps hsteps) hid₁
    rw [hs₁] at hs₁'
    cases hs₁'
    exact ⟨s, s₂, hs, hs₂, Nat.le_trans hid₁ hn.1.storeStep.proposalCount_le, hmoves.tail hmove⟩

theorem sameBallot_of_steps (hr : Reachable (Start d) (NextFixed d) w)
    (h : Relation.ReflTransGen (NextFixed d) w w') (hid : id ≤ w.dao.proposalCount)
    (hend : (w.dao.proposals id).endBlock < w.blockNumber)
    (hobjection : (w.dao.proposals id).objectionPeriodEndBlock < w.blockNumber) :
    Gov.SameBallot w.dao.toProposalStorage w'.dao.toProposalStorage id := by
  suffices hall : id ≤ w'.dao.proposalCount ∧
      (w'.dao.proposals id).endBlock < w'.blockNumber ∧
      (w'.dao.proposals id).objectionPeriodEndBlock < w'.blockNumber ∧
      Gov.SameBallot w.dao.toProposalStorage w'.dao.toProposalStorage id from hall.2.2.2
  induction h with
  | refl => exact ⟨hid, hend, hobjection, .refl _ _⟩
  | @tail w₁ w₂ hsteps hn ih =>
    obtain ⟨hid₁, hend₁, hobjection₁, hsame₁⟩ := ih
    have hwf := (wf_of_reachable (hr.steps hsteps)).1
    have hstep := hn.1.storeStep
    have htimeline := hwf.timeline id
    have hclosed : (w₁.gov.store.proposals id).Closed w₁.gov.blockNumber :=
      ⟨Nat.lt_of_le_of_lt (Nat.le_trans htimeline.start htimeline.end_) hend₁,
        Nat.lt_of_le_of_lt htimeline.end_ hend₁, hend₁, hobjection₁⟩
    have hsame := hstep.sameBallot hwf hid₁ hclosed
    have hblock : w₁.blockNumber ≤ w₂.blockNumber := hstep.blockNumber_le
    refine ⟨Nat.le_trans hid₁ hstep.proposalCount_le, ?_, ?_, hsame₁.trans hsame⟩
    · rw [show (w₂.dao.proposals id).endBlock = _ from hsame.endBlock]
      exact Nat.lt_of_lt_of_le hend₁ hblock
    · rw [show (w₂.dao.proposals id).objectionPeriodEndBlock = _ from
        hsame.objectionPeriodEndBlock]
      exact Nat.lt_of_lt_of_le hobjection₁ hblock

/-- The life of a proposal.  Its state always has a value; a step leaves it or moves it forward,
to `Vetoed` or to `Canceled`; over a whole run the final states stay final, and when the vote is over
its outcome is. -/
theorem proposal_life_cycle (hr : Reachable (Start d) (NextFixed d) w)
    (hid : id ≤ w.dao.proposalCount) :
    (∀ w', NextFixed d w w' →
      ∃ s s', w.state d id = .ok s ∧ w'.state d id = .ok s' ∧ s.Moves s') ∧
    (∀ w', Relation.ReflTransGen (NextFixed d) w w' →
      ∃ s s', w.state d id = .ok s ∧ w'.state d id = .ok s' ∧
        (s = .Executed → s' = .Executed) ∧ (s = .Vetoed → s' = .Vetoed) ∧
        (s = .Canceled → s' = .Canceled ∨ s' = .Vetoed) ∧
        (s.Lost → s' ≠ .Succeeded ∧ s' ≠ .Queued ∧ s' ≠ .Executed)) ∧
    (∀ w', Relation.ReflTransGen (NextFixed d) w w' →
      (w.dao.proposals id).endBlock < w.blockNumber →
      (w.dao.proposals id).objectionPeriodEndBlock < w.blockNumber →
      Gov.SameBallot w.dao.toProposalStorage w'.dao.toProposalStorage id) := by
  refine ⟨fun w' hn => hn.moves hr hid, fun w' hsteps => ?_, fun w' hsteps hend hobjection =>
    sameBallot_of_steps hr hsteps hid hend hobjection⟩
  obtain ⟨s, s', hs, hs', -, hmoves⟩ := moves_of_steps hr hsteps hid
  refine ⟨s, s', hs, hs', ?_, ?_, ?_, ?_⟩
  · intro hex
    exact steps_preserve (P := (· = .Executed)) hmoves hex (fun _ _ h hm => (h ▸ hm).executed)
  · intro hve
    exact steps_preserve (P := (· = .Vetoed)) hmoves hve (fun _ _ h hm => (h ▸ hm).vetoed)
  · intro hca
    refine steps_preserve (P := fun s => s = .Canceled ∨ s = .Vetoed) hmoves (.inl hca) ?_
    intro s₁ s₂ h hm
    rcases h with rfl | rfl
    · exact hm.canceled
    · exact .inr hm.vetoed
  · intro hlost
    have hlost' := steps_preserve (P := Lost) hmoves hlost (fun _ _ h hm => hm.lost h)
    rcases hlost' with rfl | rfl | rfl | rfl
    all_goals exact ⟨by decide, by decide, by decide⟩

/-- 7 mints two Nouns and proposes; two blocks later its proposal is active. -/
theorem proposal_life_cycle_of_first_proposal :
    ∃ w w', Reachable (Start .sample) (NextFixed .sample) w ∧ w.state .sample 1 = .ok .Updatable ∧
      NextFixed .sample w w' ∧ w'.state .sample 1 = .ok .Active ∧
      ∃ s s', w.state .sample 1 = .ok s ∧ w'.state .sample 1 = .ok s' ∧ s.Moves s' := by
  have hrun : Yields (World.sample.run .sample (fun _ _ w' => w'.TimelocksFixed .sample)
      [.callToken ⟨7, by decide⟩ .mint, .advance 2 2,
        .ofDAO ⟨7, by decide⟩ (.propose .sample "")]) (fun w => 1 ≤ w.dao.proposalCount ∧
      w.state .sample 1 = .ok .Updatable ∧ Yields (w.step .sample (.advance 4 4))
        (fun w' => w'.TimelocksFixed .sample ∧ w'.state .sample 1 = .ok .Active)) := by
    decide +kernel
  obtain ⟨w, hw, hid, hs, w', hstep, hfixed, hs'⟩ := hrun
  have hr : Reachable (Start .sample) (NextFixed .sample) w := by
    refine ⟨World.sample, ⟨World.sample_fresh, rfl, rfl⟩, run_steps ?_ hw⟩
    exact fun w a w' hstep hfixed => ⟨.step a trivial hstep, hfixed⟩
  have hnext : NextFixed .sample w w' := ⟨.step _ trivial hstep, hfixed⟩
  exact ⟨w, w', hr, hs, hnext, hs', (proposal_life_cycle hr hid).1 w' hnext⟩

end World

end Nouns
