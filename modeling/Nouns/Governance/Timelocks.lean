import Nouns.Governance.LifeCycle

/-!
# Timelocks — what a step does to the queues

A proposal that was queued keeps its actions and its eta for good.  `QueueStep` sorts the steps of
the protocol by what they do to the queues of the timelocks and to the actions in progress.
-/

open Fallible Transition

namespace Nouns

variable {H : Type}

namespace Proposal

/-- Queued, and neither executed, canceled nor vetoed since. -/
structure Holding (p : Proposal) : Prop where
  eta : p.eta ≠ 0
  executed : p.executed = false
  alive : p.Alive

/-- Nothing changed that the timelocks depend on. -/
structure SameQueued (p p' : Proposal) : Prop where
  eta : p'.eta = p.eta
  executed : p'.executed = p.executed
  canceled : p'.canceled = p.canceled
  vetoed : p'.vetoed = p.vetoed
  txs : p.eta ≠ 0 → p'.toProposalTxs = p.toProposalTxs
  executeOnTimelockV1 : p.eta ≠ 0 → p'.executeOnTimelockV1 = p.executeOnTimelockV1

theorem SameQueued.refl (p : Proposal) : SameQueued p p :=
  ⟨rfl, rfl, rfl, rfl, fun _ => rfl, fun _ => rfl⟩

theorem SameQueued.holding {p p' : Proposal} (h : SameQueued p p') (hp : p'.Holding) :
    p.Holding := by
  refine ⟨?_, ?_, ?_, ?_⟩
  · rw [← h.eta]
    exact hp.eta
  · rw [← h.executed]
    exact hp.executed
  · rw [← h.vetoed]
    exact hp.alive.1
  · rw [← h.canceled]
    exact hp.alive.2

end Proposal

namespace Gov

variable {d : Deployment H} {g g' : Gov H} {id : Nat} {l : Label}

/-! ## Queued proposals -/

theorem Wf.le_of_eta (hwf : g.Wf) (heta : (g.store.proposals id).eta ≠ 0) :
    id ≤ g.store.proposalCount := by
  by_contra hlt
  rw [hwf.fresh id (Nat.lt_of_not_le hlt)] at heta
  exact heta rfl

theorem Wf.closed_of_eta (hwf : g.Wf) (heta : (g.store.proposals id).eta ≠ 0) :
    (g.store.proposals id).Closed g.blockNumber := by
  have htimeline := hwf.timeline id
  obtain ⟨hend, hobjection⟩ := htimeline.queued heta
  exact ⟨Nat.lt_of_le_of_lt (Nat.le_trans htimeline.start htimeline.end_) hend,
    Nat.lt_of_le_of_lt htimeline.end_ hend, hend, hobjection⟩

/-- Every proposal that was queued had won its vote. -/
def Won (g : Gov H) : Prop :=
  ∀ id, (g.store.proposals id).eta ≠ 0 → g.store.isDefeated (g.store.proposals id) = .ok false

/-- Only a proposal that succeeded gets an eta. -/
theorem StoreStep.eta (h : StoreStep d g g') (id : Nat) :
    (g'.store.proposals id).eta = (g.store.proposals id).eta ∨ g.state d id = .ok .Succeeded := by
  refine h.proposal (P := fun p => p.eta = (g.store.proposals id).eta ∨
    g.state d id = .ok .Succeeded) (.inl rfl) ?_ ?_
  · intro p hp
    cases hp with
    | ballot p hp =>
      cases hp with
      | update txs hstate htxs => exact .inl rfl
      | vote voter support votes o hstate hsupport hvoted hvotes ho =>
        rw [StorageV3.countVotes_eq _ hsupport]
        exact .inl rfl
      | object voter votes hstate hvoted hvotes =>
        rw [StorageV3.countVotes_eq _ (Nat.zero_le 2)]
        exact .inl rfl
    | queue delay hstate => exact .inr hstate
    | cancel s hstate h₁ h₂ h₃ h₄ h₅ => exact .inl rfl
    | veto s hstate hs => exact .inl rfl
    | execute hstate => exact .inl rfl
  · rintro p rfl hcreated
    obtain ⟨_, _, _, _, _, _, _, _, _, rfl⟩ := hcreated.content
    exact .inl rfl

theorem StoreStep.won (h : StoreStep d g g') (hwf : g.Wf) (hwon : g.Won) : g'.Won := by
  intro id heta
  have hbefore : (g.store.proposals id).Closed g.blockNumber ∧ id ≤ g.store.proposalCount ∧
      g.store.isDefeated (g.store.proposals id) = .ok false := by
    rcases h.eta id with hsame | hstate
    · rw [hsame] at heta
      exact ⟨hwf.closed_of_eta heta, hwf.le_of_eta heta, hwon id heta⟩
    · obtain ⟨b, hb, hin⟩ := hwf.isIn hstate
      cases hin with
      | succeeded _ hc hd _ => exact ⟨hc, ProposalStorage.stateInternal_le hstate, hd ▸ hb⟩
  exact (h.sameBallot hwf hbefore.2.1 hbefore.1).isDefeated.trans hbefore.2.2

theorem holding_of_queued (hwf : g.Wf) (h : g.state d id = .ok .Queued) :
    (g.store.proposals id).Holding := by
  obtain ⟨_, -, hin⟩ := hwf.isIn h
  cases hin with
  | queued ha _ _ hz hx _ => exact ⟨hz, hx, ha⟩

theorem queued_iff (hwf : g.Wf) (hwon : g.Won) : g.state d id = .ok .Queued ↔
    (g.store.proposals id).Holding ∧ g.timestamp < (g.store.proposals id).eta +
      (g.clock d).gracePeriod (g.ownTimelock id) := by
  constructor
  · intro hstate
    obtain ⟨b, -, hin⟩ := hwf.isIn hstate
    cases hin with
    | queued ha _ _ hz hx ht => exact ⟨⟨hz, hx, ha⟩, ht⟩
  · intro ⟨hold, ht⟩
    obtain ⟨s, hs⟩ := hwf.stateInternal_ok (hwf.le_of_eta hold.eta) (g.clock d)
    obtain ⟨b, hb, hin⟩ := hwf.isIn hs
    rw [hwon id hold.eta] at hb
    cases hb
    rw [hin.unique (.queued hold.alive (hwf.closed_of_eta hold.eta) rfl hold.eta hold.executed
      ht)] at hs
    exact hs

/-! ## Steps -/

inductive QueueStep [DecidableEq H] (d : Deployment H) (g g' : Gov H) : Label → Prop
  | quiet (l : Label) : g'.queues = g.queues → g'.executing = g.executing →
      g.timestamp ≤ g'.timestamp →
      (∀ id, (g.store.proposals id).SameQueued (g'.store.proposals id)) → QueueStep d g g' l
  | queue (id : Nat) (delay : Delay) (q : TxQueue H) : g.state d id = .ok .Succeeded →
      TxQueue.QueuedAll d.crypto ((g.store.proposals id).actions (g.timestamp + delay))
        (g.queues (g.ownTimelock id)) q →
      g' = (g.setProposal id { g.store.proposals id with
        eta := g.timestamp + delay }).setQueue (g.ownTimelock id) q → QueueStep d g g' .other
  | cancel (id : Nat) (q : TxQueue H) : (g.store.proposals id).Alive →
      TxQueue.CanceledAll d.crypto (g.actions id) (g.queues (g.ownTimelock id)) q →
      g' = (g.setProposal id { g.store.proposals id with canceled := true }).setQueue
        (g.ownTimelock id) q → QueueStep d g g' .other
  | veto (id : Nat) (q : TxQueue H) :
      TxQueue.CanceledAll d.crypto (g.actions id) (g.queues (g.ownTimelock id)) q →
      g' = (g.setProposal id { g.store.proposals id with vetoed := true }).setQueue
        (g.ownTimelock id) q → QueueStep d g g' (.veto id)
  | execute (id : Nat) (timelock : Address) : g.state d id = .ok .Queued →
      Continues d (g.setProposal id { g.store.proposals id with executed := true }) id timelock 0
        g' → QueueStep d g g' (.execute id timelock)
  | resume (x : Execution) (rest : List Execution) : g.executing = x :: rest →
      Continues d { g.setQueue x.timelock { g.queues x.timelock with
        runs := x.tx :: (g.queues x.timelock).runs } with executing := rest }
        x.proposalId x.timelock (x.i + 1) g' → QueueStep d g g' .resume

/-- Updates and votes are over when a proposal is queued. -/
theorem BallotChange.sameQueued {p : Proposal} (hwf : g.Wf)
    (h : g.store.BallotChange (g.clock d) g.nouns id p) :
    (g.store.proposals id).SameQueued p := by
  cases h with
  | update txs hstate htxs =>
    refine ⟨rfl, rfl, rfl, rfl, ?_, fun _ => rfl⟩
    intro heta
    obtain ⟨b, -, hin⟩ := hwf.isIn hstate
    cases hin with
    | updatable _ hu => exact absurd (hwf.closed_of_eta heta).update (Nat.not_lt.mpr hu)
  | vote voter support votes o hstate hsupport hvoted hvotes ho =>
    rw [StorageV3.countVotes_eq _ hsupport]
    exact ⟨rfl, rfl, rfl, rfl, fun _ => rfl, fun _ => rfl⟩
  | object voter votes hstate hvoted hvotes =>
    rw [StorageV3.countVotes_eq _ (Nat.zero_le 2)]
    exact ⟨rfl, rfl, rfl, rfl, fun _ => rfl, fun _ => rfl⟩

theorem Step.queueStep [DecidableEq H] (h : g.Step d l g') (hwf : g.Wf) :
    QueueStep d g g' l := by
  cases h with
  | token l t ht => exact .quiet l rfl rfl (Nat.le_refl _) (fun _ => .refl _)
  | advance blockNumber timestamp hidle hblock htime =>
    exact .quiet _ rfl rfl htime (fun _ => .refl _)
  | quorum call params hparams => exact .quiet _ rfl rfl (Nat.le_refl _) (fun _ => .refl _)
  | switch hzero => exact .quiet _ rfl rfl (Nat.le_refl _) (fun _ => .refl _)
  | timelocks timelock timelockV1 => exact .quiet _ rfl rfl (Nat.le_refl _) (fun _ => .refl _)
  | create p hp =>
    refine .quiet _ rfl rfl (Nat.le_refl _) ?_
    intro id
    by_cases heq : id = g.store.proposalCount + 1
    · subst heq
      have hfresh := hwf.fresh (g.store.proposalCount + 1) (Nat.lt_succ_self _)
      obtain ⟨_, _, _, _, _, _, _, _, _, rfl⟩ := hp.content
      simp only [Function.update_self]
      refine ⟨rfl, rfl, rfl, rfl, ?_, ?_⟩
      · intro heta
        rw [hfresh] at heta
        exact absurd rfl heta
      · intro heta
        rw [hfresh] at heta
        exact absurd rfl heta
    · simp only [Function.update_of_ne heq]
      exact .refl _
  | ballot id p hp =>
    refine .quiet _ rfl rfl (Nat.le_refl _) ?_
    intro id'
    by_cases heq : id' = id
    · subst heq
      simp only [setProposal, Function.update_self]
      exact BallotChange.sameQueued hwf hp
    · simp only [setProposal, Function.update_of_ne heq]
      exact .refl _
  | queue id delay q hstate hq => exact .queue id delay q hstate hq rfl
  | cancel id s q hstate h₁ h₂ h₃ h₄ h₅ hq =>
    obtain ⟨b, -, hin⟩ := hwf.isIn hstate
    refine .cancel id q ⟨?_, ?_⟩ hq rfl
    · by_contra hne
      exact h₅ (hin.unique (.vetoed (Bool.eq_true_of_not_eq_false hne)))
    · by_contra hne
      have hv : (g.store.proposals id).vetoed = false := by
        by_contra hv
        exact h₅ (hin.unique (.vetoed (Bool.eq_true_of_not_eq_false hv)))
      exact h₁ (hin.unique (.canceled hv (Bool.eq_true_of_not_eq_false hne)))
  | veto id s q hstate hs hq => exact .veto id q hq rfl
  | execute id timelock g' hstate hfork hcont =>
    rw [(hwf.executable hstate).2] at hstate
    exact .execute id timelock hstate hcont
  | resume x rest g' hexec hcont => exact .resume x rest hexec hcont
  | fork forkEndTimestamp => exact .quiet _ rfl rfl (Nat.le_refl _) (fun _ => .refl _)

/-- What a quiet step leaves of a queued proposal. -/
theorem quiet_same (hlocks : SameTimelocks g g')
    (hsame : (g.store.proposals id).SameQueued (g'.store.proposals id))
    (heta : (g.store.proposals id).eta ≠ 0) :
    g'.ownTimelock id = g.ownTimelock id ∧ g'.actions id = g.actions id := by
  refine ⟨hlocks.getProposalTimelock_eq (hsame.executeOnTimelockV1 heta), ?_⟩
  rw [actions, actions, hsame.txs heta, hsame.eta]

end Gov

/-! ## Runs -/

namespace World

variable {d : Deployment H} {w w' : World H}

/-- The timelocks stay where they are, and the DAO is their admin: nobody else can queue, cancel or
execute a transaction. -/
structure Governed (d : Deployment H) (w : World H) : Prop where
  fixed : w.TimelocksFixed d
  timelock : (w.executors d.timelock).admin = d.dao
  timelockV1 : (w.executors d.timelockV1).admin = d.dao

instance (d : Deployment H) (w : World H) : Decidable (w.Governed d) :=
  decidable_of_iff (w.TimelocksFixed d ∧ (w.executors d.timelock).admin = d.dao ∧
    (w.executors d.timelockV1).admin = d.dao)
    ⟨fun ⟨h₁, h₂, h₃⟩ => ⟨h₁, h₂, h₃⟩, fun ⟨h₁, h₂, h₃⟩ => ⟨h₁, h₂, h₃⟩⟩

theorem Governed.sameTimelocks (h : w.Governed d) (h' : w'.Governed d) :
    Gov.SameTimelocks w.gov w'.gov :=
  ⟨h'.fixed.1.trans h.fixed.1.symm, h'.fixed.2.trans h.fixed.2.symm⟩

def StartGoverned (d : Deployment H) (w : World H) : Prop := w.Fresh ∧ w.Governed d

variable [DecidableEq H] {admits : World H → Action → Prop}

/-- Steps that `admits` allows, while the DAO governs its timelocks. -/
def NextGoverned (d : Deployment H) (admits : World H → Action → Prop) (w w' : World H) : Prop :=
  Next d admits w w' ∧ w'.Governed d

theorem governed_of_reachable (h : Reachable (StartGoverned d) (NextGoverned d admits) w) :
    w.gov.Wf ∧ w.gov.Won ∧ w.Governed d := by
  refine h.invariant (P := fun w => w.gov.Wf ∧ w.gov.Won ∧ w.Governed d) ?_ ?_
  · intro w hw
    refine ⟨hw.1.wf, ?_, hw.2⟩
    intro id heta
    rw [show w.gov.store.proposals id = _ from hw.1.proposals id] at heta
    exact absurd rfl heta
  · rintro w w' - ⟨hwf, hwon, -⟩ hn
    have hstep := hn.1.storeStep
    exact ⟨hstep.wf hwf, hstep.won hwf hwon, hn.2⟩

/-- A step of the chain, seen by the queues. -/
theorem Next.queueStep {K : Gov H → Gov.Label → Prop}
    (h : Next d (fun w a => K w.gov (w.label a)) w w') (hother : K w.gov .other)
    (hwf : w.gov.Wf) : ∃ l, K w.gov l ∧ Gov.QueueStep d w.gov w'.gov l := by
  have hn : w.gov.Next d K w'.gov := gov_next (fun _ ha => ha) hother h
  obtain ⟨l, hl, hstep⟩ := hn
  exact ⟨l, hl, hstep.queueStep hwf⟩

end World

end Nouns
