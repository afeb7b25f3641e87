import Nouns.Governance.Timelocks

/-!
# Handover — old proposals under a new timelock

A proposal that was queued before `_setTimelocksAndAdmin` has its entries on the old timelock, and
`executeOnTimelockV1` executes it there.  But its state goes by the grace period of the new timelock,
which is a week longer: during that week it is reported as queued, although it had expired before and
the old timelock refuses it as stale.
-/

open Fallible Transition

namespace Nouns

variable {H : Type}

namespace ProposalStorage

variable {ds ds' : ProposalStorage} {clock clock' : Clock} {id : Nat} {s : ProposalState}

/-- A state that comes after the vote was counted. -/
theorem isIn_of_counted (h : ds.stateInternal clock id = .ok s) (hs : s = .Queued ∨ s = .Expired) :
    ∃ b, ds.isDefeated (ds.proposals id) = .ok b ∧ (ds.proposals id).IsIn clock
      (ds.getProposalTimelock (ds.proposals id)) b s := by
  have hid := stateInternal_le h
  cases hb : ds.isDefeated (ds.proposals id) with
  | ok b =>
    rw [stateInternal_eq hid hb] at h
    cases h
    exact ⟨b, rfl, Proposal.isIn_stateWith _ _ _ _⟩
  | error e =>
    -- The vote is counted in the last branch only, and there the error is passed on.
    unfold stateInternal at h
    obtain ⟨_, -, h⟩ := bind_eq_ok.mp h
    simp only [hb] at h
    rcases hs with rfl | rfl
    all_goals
      iterate 6
        split at h
        · cases h
      cases h

/-- Once queued, only time changes the state, and the grace period of the timelock. -/
theorem stateInternal_of_queued (h : ds.stateInternal clock id = .ok s)
    (hs : s = .Queued ∨ s = .Expired) (hproposal : ds'.proposals id = ds.proposals id)
    (hcount : ds'.proposalCount = ds.proposalCount)
    (hdefeated : ds'.isDefeated (ds.proposals id) = ds.isDefeated (ds.proposals id))
    (hblock : clock.blockNumber ≤ clock'.blockNumber) :
    ds'.stateInternal clock' id = .ok (
      if (ds.proposals id).eta + clock'.gracePeriod (ds'.getProposalTimelock (ds.proposals id)) ≤
        clock'.timestamp then .Expired else .Queued) := by
  have hid := stateInternal_le h
  obtain ⟨b, hb, hin⟩ := isIn_of_counted h hs
  have hheld : (ds.proposals id).Alive ∧ (ds.proposals id).Closed clock.blockNumber ∧ b = false ∧
      (ds.proposals id).eta ≠ 0 ∧ (ds.proposals id).executed = false := by
    rcases hs with rfl | rfl
    · cases hin with
      | queued ha hc hd hz hx _ => exact ⟨ha, hc, hd, hz, hx⟩
    · cases hin with
      | expired ha hc hd hz hx _ => exact ⟨ha, hc, hd, hz, hx⟩
  obtain ⟨halive, ⟨hupdate, hstart, hend, hobjection⟩, rfl, heta, hexecuted⟩ := hheld
  have hclosed : (ds.proposals id).Closed clock'.blockNumber :=
    ⟨Nat.lt_of_lt_of_le hupdate hblock, Nat.lt_of_lt_of_le hstart hblock,
      Nat.lt_of_lt_of_le hend hblock, Nat.lt_of_lt_of_le hobjection hblock⟩
  rw [← hcount] at hid
  rw [← hdefeated, ← hproposal] at hb
  rw [stateInternal_eq hid hb, hproposal]
  split
  · rename_i hge
    rw [Proposal.IsIn.stateWith_eq (.expired halive hclosed rfl heta hexecuted hge)]
  · rename_i hlt
    rw [Proposal.IsIn.stateWith_eq
      (.queued halive hclosed rfl heta hexecuted (Nat.lt_of_not_le hlt))]

end ProposalStorage

/-! ## The checks of a timelock -/

/-- A loop that reads every action runs over all of them. -/
theorem ProposalTxs.forEachAction_eq {σ : Type} {txs : ProposalTxs} {eta : Nat}
    {f : σ → Transaction → Tx σ}
    (hreads : ∀ i < txs.targets.length, ∃ tx, txs.action eta i = .ok tx) (s : σ) :
    txs.forEachAction eta f s = (txs.actions eta).foldlM f s := by
  unfold forEachAction actions
  have hreads' : ∀ i ∈ List.range txs.targets.length, ∃ tx, txs.action eta i = .ok tx :=
    fun i hi => hreads i (List.mem_range.mp hi)
  generalize List.range txs.targets.length = l at hreads'
  induction l generalizing s with
  | nil => rfl
  | cons i l ih =>
    obtain ⟨tx, htx⟩ := hreads' i List.mem_cons_self
    have htail := fun j hj => hreads' j (List.mem_cons_of_mem i hj)
    simp only [List.foldlM_cons, htx, List.filterMap_cons, Except.toOption]
    change (f s tx >>= _) = _
    exact congrArg _ (funext fun s' => ih s' htail)

namespace Executor

variable [DecidableEq H] {c : Crypto H} {e : Executor H} {version : ExecutorVersion}
  {timestamp eta : Nat} {sender : Address} {txs : List Transaction}

/-- Distinct queued transactions that are due and not stale can all begin. -/
theorem beginAll_ok (hinj : Function.Injective c.keccak256) (hsender : sender = e.admin)
    (hqueued : ∀ tx ∈ txs, e.isQueued c tx = true) (hnodup : txs.Nodup)
    (heta : ∀ tx ∈ txs, tx.eta = eta) (hdue : eta ≤ timestamp)
    (hfresh : timestamp ≤ eta + version.GRACE_PERIOD) :
    ∃ e', txs.foldlM (fun e tx => e.beginTransaction c version timestamp sender tx) e = .ok e' := by
  induction txs generalizing e with
  | nil => exact ⟨e, rfl⟩
  | cons tx txs ih =>
    obtain ⟨hnot, hnodup⟩ := List.nodup_cons.mp hnodup
    have hbegin : e.beginTransaction c version timestamp sender tx = .ok (e.setQueued c tx false) := by
      simp only [beginTransaction, bind_eq_ok, require_eq_ok, pure_eq_ok]
      have htx := heta tx List.mem_cons_self
      exact ⟨(), hsender, (), hqueued tx List.mem_cons_self, (), htx ▸ hdue, (), htx ▸ hfresh, trivial⟩
    rw [List.foldlM_cons, hbegin]
    refine ih hsender ?_ hnodup (fun tx' h => heta tx' (List.mem_cons_of_mem tx h))
    intro tx' h
    rw [isQueued_setQueued _ hinj, if_neg]
    · exact hqueued tx' (List.mem_cons_of_mem tx h)
    · rintro rfl
      exact hnot h

end Executor

/-! ## The step -/

namespace World

variable {d : Deployment H} {w w' : World H} {id : Nat} {newTimelock : Address}

/-- The state at another moment. -/
def atTime (w : World H) (blockNumber timestamp : Nat) : World H := { w with blockNumber, timestamp }

/-- The actions of a proposal are on a timelock. -/
def Present (d : Deployment H) (w : World H) (timelock : Address) (id : Nat) : Prop :=
  ∀ i < (w.dao.proposals id).targets.length, ∃ tx,
    (w.dao.proposals id).action (w.dao.proposals id).eta i = .ok tx ∧
      (w.executors timelock).isQueued d.crypto tx = true

variable [DecidableEq H]

/-- The checks that a timelock makes when it executes a proposal, whose targets leave its queue
alone. -/
def timelockChecks (d : Deployment H) (w : World H) (timelock : Address) (id : Nat) :
    Tx (Executor H) :=
  (w.dao.proposals id).forEachAction (w.dao.proposals id).eta
    (fun e tx => e.beginTransaction d.crypto (d.executorVersion timelock) w.timestamp d.dao tx)
    (w.executors timelock)

/-- `_setTimelocksAndAdmin` installs a `NounsDAOExecutorV2`, and keeps the old timelock, which the
DAO administers, as `timelockV1`. -/
structure Handover (d : Deployment H) (newTimelock : Address) (w w' : World H) : Prop where
  step : ∃ tx sender admin, w.step d (.callDAO tx sender
    (.admin (.setTimelocksAndAdmin newTimelock w.dao.timelock admin))) = .ok w'
  old : d.executorVersion w.dao.timelock = .NounsDAOExecutor
  new : d.executorVersion newTimelock = .NounsDAOExecutorV2
  admin : (w.executors w.dao.timelock).admin = d.dao

/-- Proposal `id` was queued on the timelock of the DAO.  `queue` refuses an action that is there
already, so it has none twice. -/
structure QueuedOnTimelock (d : Deployment H) (w : World H) (id : Nat) : Prop where
  executeOnTimelockV1 : (w.dao.proposals id).executeOnTimelockV1 = false
  state : w.state d id = .ok .Queued ∨ w.state d id = .ok .Expired
  nodup : ((w.dao.proposals id).actions (w.dao.proposals id).eta).Nodup

/-- What is expected of the handover at one moment: nothing that expired comes back, and what is
reported as queued and due can be executed on the old timelock. -/
structure Honest (d : Deployment H) (w w' : World H) (id blockNumber timestamp : Nat) : Prop where
  expired : (w.atTime blockNumber timestamp).state d id = .ok .Expired →
    (w'.atTime blockNumber timestamp).state d id ≠ .ok .Queued
  executable : (w'.atTime blockNumber timestamp).state d id = .ok .Queued →
    (w'.dao.proposals id).eta ≤ timestamp → w'.Present d w'.dao.timelockV1 id →
    w'.dao.isForkPeriodActive timestamp = false →
    ∃ e, (w'.atTime blockNumber timestamp).timelockChecks d w'.dao.timelockV1 id = .ok e

theorem Handover.dao (h : Handover d newTimelock w w') : ∃ frames admin log, w' = { w with
    frames, dao := { w.dao with
      timelock := newTimelock, timelockV1 := w.dao.timelock, admin, log } } := by
  obtain ⟨tx, sender, admin, hstep⟩ := h.step
  simp only [World.step, callDAO, withStorage, StorageV3.adminCall, StorageV3.setTimelocksAndAdmin,
    bind_eq_ok, pure_eq_ok] at hstep
  obtain ⟨w₁, henter, _, ⟨_, -, rfl⟩, rfl⟩ := hstep
  obtain ⟨frames, rfl, -⟩ := enter_ok henter
  exact ⟨frames, admin, _, rfl⟩

/-- The state before and after the step, at any later time. -/
theorem Handover.states (h : Handover d newTimelock w w') (hid : w.QueuedOnTimelock d id)
    {blockNumber : Nat} (hblock : w.blockNumber ≤ blockNumber) (timestamp : Nat) :
    (w.atTime blockNumber timestamp).state d id = .ok (
      if (w.dao.proposals id).eta + 14 * days ≤ timestamp then .Expired else .Queued) ∧
    (w'.atTime blockNumber timestamp).state d id = .ok (
      if (w.dao.proposals id).eta + 21 * days ≤ timestamp then .Expired else .Queued) := by
  obtain ⟨s, hstate, hs⟩ : ∃ s, w.state d id = .ok s ∧ (s = .Queued ∨ s = .Expired) := by
    rcases hid.state with hstate | hstate
    · exact ⟨_, hstate, .inl rfl⟩
    · exact ⟨_, hstate, .inr rfl⟩
  have hbefore : (w.atTime blockNumber timestamp).state d id = .ok (
      if (w.dao.proposals id).eta + (d.executorVersion
          (w.dao.getProposalTimelock (w.dao.proposals id))).GRACE_PERIOD ≤ timestamp
        then .Expired else .Queued) :=
    ProposalStorage.stateInternal_of_queued hstate hs rfl rfl rfl hblock
  have hafter : (w'.atTime blockNumber timestamp).state d id = .ok (
      if (w.dao.proposals id).eta + (d.executorVersion
          (w'.dao.getProposalTimelock (w.dao.proposals id))).GRACE_PERIOD ≤ timestamp
        then .Expired else .Queued) := by
    obtain ⟨frames, admin, log, rfl⟩ := h.dao
    exact ProposalStorage.stateInternal_of_queued hstate hs rfl rfl rfl hblock
  have hold : w.dao.getProposalTimelock (w.dao.proposals id) = w.dao.timelock := by
    rw [ProposalStorage.getProposalTimelock, hid.executeOnTimelockV1]
    rfl
  have hnew : w'.dao.getProposalTimelock (w.dao.proposals id) = newTimelock := by
    rw [ProposalStorage.getProposalTimelock, hid.executeOnTimelockV1]
    obtain ⟨frames, admin, log, rfl⟩ := h.dao
    rfl
  rw [hold, h.old] at hbefore
  rw [hnew, h.new] at hafter
  exact ⟨hbefore, hafter⟩

/-- The old timelock lets everything pass that is queued there, due and not stale. -/
theorem Handover.checks (hinj : Function.Injective d.crypto.keccak256)
    (h : Handover d newTimelock w w') (hid : w.QueuedOnTimelock d id) {blockNumber timestamp : Nat}
    (hdue : (w'.dao.proposals id).eta ≤ timestamp)
    (hfresh : timestamp ≤ (w.dao.proposals id).eta + 14 * days)
    (hpresent : w'.Present d w'.dao.timelockV1 id) :
    ∃ e, (w'.atTime blockNumber timestamp).timelockChecks d w'.dao.timelockV1 id = .ok e := by
  have hreads := fun i hi => (hpresent i hi).imp (fun _ htx => htx.1)
  have hqueued : ∀ tx ∈ (w'.dao.proposals id).actions (w'.dao.proposals id).eta,
      (w'.executors w'.dao.timelockV1).isQueued d.crypto tx = true := by
    intro tx htx
    obtain ⟨i, hi, haction⟩ := ProposalTxs.mem_actions.mp htx
    obtain ⟨tx', haction', hqueued⟩ := hpresent i hi
    rw [haction] at haction'
    cases haction'
    exact hqueued
  have heta : ∀ tx ∈ (w'.dao.proposals id).actions (w'.dao.proposals id).eta,
      tx.eta = (w'.dao.proposals id).eta := fun tx => ProposalTxs.eta_of_mem_actions
  have hproposal : w'.dao.proposals id = w.dao.proposals id := by
    obtain ⟨frames, admin, log, rfl⟩ := h.dao
    rfl
  have hadmin : d.dao = (w'.executors w'.dao.timelockV1).admin := by
    obtain ⟨frames, admin, log, rfl⟩ := h.dao
    exact h.admin.symm
  have hold : d.executorVersion w'.dao.timelockV1 = .NounsDAOExecutor := by
    obtain ⟨frames, admin, log, rfl⟩ := h.dao
    exact h.old
  have hgrace : timestamp ≤ (w'.dao.proposals id).eta +
      (d.executorVersion w'.dao.timelockV1).GRACE_PERIOD := by
    rw [hproposal, hold]
    exact hfresh
  have hnodup : ((w'.dao.proposals id).actions (w'.dao.proposals id).eta).Nodup := by
    rw [hproposal]
    exact hid.nodup
  obtain ⟨e, he⟩ := Executor.beginAll_ok hinj hadmin hqueued hnodup heta hdue hgrace
  refine ⟨e, ?_⟩
  rw [← ProposalTxs.forEachAction_eq hreads] at he
  exact he

/-- The handover is honest about a proposal at every moment but those of the week in which the old
grace period is over and the new one is not. -/
theorem honest_iff_grace_periods_agree (hinj : Function.Injective d.crypto.keccak256)
    (h : Handover d newTimelock w w') (hid : w.QueuedOnTimelock d id) {blockNumber : Nat}
    (hblock : w.blockNumber ≤ blockNumber) (timestamp : Nat) :
    Honest d w w' id blockNumber timestamp ↔
      ¬ ((w.dao.proposals id).eta + 14 * days ≤ timestamp ∧
        timestamp < (w.dao.proposals id).eta + 21 * days) := by
  obtain ⟨hbefore, hafter⟩ := h.states hid hblock timestamp
  constructor
  · rintro hhonest ⟨hge, hlt⟩
    rw [if_pos hge] at hbefore
    rw [if_neg (Nat.not_le.mpr hlt)] at hafter
    exact hhonest.expired hbefore hafter
  · intro hagree
    have hlt : (w'.atTime blockNumber timestamp).state d id = .ok .Queued →
        timestamp < (w.dao.proposals id).eta + 21 * days := by
      intro hqueued
      by_contra hge
      rw [hqueued, if_pos (Nat.le_of_not_lt hge)] at hafter
      cases hafter
    refine ⟨?_, ?_⟩
    · intro hexpired hqueued
      have hge : (w.dao.proposals id).eta + 14 * days ≤ timestamp := by
        by_contra hlt
        rw [hexpired, if_neg hlt] at hbefore
        cases hbefore
      exact hagree ⟨hge, hlt hqueued⟩
    · intro hqueued hdue hpresent _
      have hfresh : timestamp ≤ (w.dao.proposals id).eta + 14 * days := by
        by_contra hstale
        exact hagree ⟨Nat.le_of_not_le hstale, hlt hqueued⟩
      exact h.checks hinj hid hdue hfresh hpresent

/-! ## Runs -/

end World

namespace Gov

variable {d : Deployment H} {g g' : Gov H} {l : Label}

/-- No queued proposal has an action twice. -/
def Distinct (g : Gov H) : Prop :=
  ∀ id, (g.store.proposals id).eta ≠ 0 → (g.actions id).Nodup

/-- The proposals are as before, but for one whose actions stay. -/
theorem Distinct.of_update (hg : g.Distinct) {id : Nat} {p : Proposal}
    (hproposals : g'.store.proposals = Function.update g.store.proposals id p)
    (hp : p.eta ≠ 0 → (p.actions p.eta).Nodup) : g'.Distinct := by
  intro x hx
  rw [hproposals] at hx
  rw [actions, hproposals]
  by_cases hid : x = id
  · subst hid
    rw [Function.update_self] at hx ⊢
    exact hp hx
  · rw [Function.update_of_ne hid] at hx ⊢
    exact hg x hx

theorem Distinct.queueStep [DecidableEq H] (hg : g.Distinct) (h : QueueStep d g g' l) :
    g'.Distinct := by
  cases h with
  | quiet _ _ _ _ hsame =>
    intro id hid
    rw [(hsame id).eta] at hid
    rw [actions, (hsame id).txs hid, (hsame id).eta]
    exact hg id hid
  | queue id delay q _ hqueued hg' =>
    subst hg'
    exact hg.of_update rfl (fun _ => hqueued.nodup)
  | cancel id q _ _ hg' =>
    subst hg'
    exact hg.of_update rfl (hg id)
  | veto id q _ hg' =>
    subst hg'
    exact hg.of_update rfl (hg id)
  | execute id timelock _ hcont =>
    have hproposals : g'.store.proposals = Function.update g.store.proposals id
        { g.store.proposals id with executed := true } := by
      rw [hcont.same.1]
      rfl
    exact hg.of_update hproposals (hg id)
  | resume x rest _ hcont =>
    intro id hid
    rw [hcont.same.1] at hid
    rw [actions, hcont.same.1]
    exact hg id hid

end Gov

namespace World

variable [DecidableEq H] {d : Deployment H} {w w' : World H} {id : Nat}

/-- What is queued in a run of the DAO meets the condition above. -/
theorem queuedOnTimelock_of_reachable (hr : Reachable World.Fresh (NextAny d) w)
    (hflag : (w.dao.proposals id).executeOnTimelockV1 = false)
    (hstate : w.state d id = .ok .Queued ∨ w.state d id = .ok .Expired) :
    w.QueuedOnTimelock d id := by
  obtain ⟨hwf, hdistinct⟩ : w.gov.Wf ∧ w.gov.Distinct := by
    refine hr.invariant (P := fun w => w.gov.Wf ∧ w.gov.Distinct) ?_ ?_
    · intro w hw
      refine ⟨hw.wf, fun id hid => ?_⟩
      rw [show w.gov.store.proposals id = _ from hw.proposals id] at hid
      exact absurd rfl hid
    · rintro w w' - ⟨hwf, hdistinct⟩ hn
      obtain ⟨l, -, hstep⟩ := Next.queueStep (K := fun _ _ => True) hn trivial hwf
      exact ⟨hn.wf hwf, hdistinct.queueStep hstep⟩
  have heta : (w.dao.proposals id).eta ≠ 0 := by
    rcases hstate with hstate | hstate
    · obtain ⟨_, -, hin⟩ := ProposalStorage.isIn_of_counted hstate (.inl rfl)
      cases hin with
      | queued _ _ _ hz _ _ => exact hz
    · obtain ⟨_, -, hin⟩ := ProposalStorage.isIn_of_counted hstate (.inr rfl)
      cases hin with
      | expired _ _ _ hz _ _ => exact hz
  exact ⟨hflag, hstate, hdistinct id heta⟩

/-- The DAO before the handover, administered by 5. -/
def sampleV1 : World Preimage :=
  { World.sample with dao := { World.sample.dao with timelock := 103, timelockV1 := 0, admin := 5 } }

/-- Proposal 1 is queued at 103, for time 272800. -/
def queuedOnV1 : List Action :=
  let seven : Account := ⟨7, Address.seven_ne_zero⟩
  [.callToken seven .mint, .advance 2 2, .ofDAO seven (.propose .sample ""), .advance 4 4,
    .ofDAO seven (.castVote 1 1), .advance 7204 100000,
    .ofDAO ⟨5, Address.five_ne_zero⟩ (.queue 1)]

theorem sampleV1_fresh : sampleV1.Fresh :=
  ⟨rfl, fun _ => rfl, Checkpoints.write_wellFormed (Checkpoints.WellFormed.nil _) _, rfl⟩

theorem handover_of_sample {w w' : World Preimage} (htimelock : w.dao.timelock = 103)
    (hadmin : (w.executors 103).admin = 100)
    (h : w.step .sample (.ofDAO ⟨5, by decide⟩ (.admin (.setTimelocksAndAdmin 102 103 102))) =
      .ok w') : Handover .sample 102 w w' := by
  refine ⟨⟨.sample, ⟨5, by decide⟩, 102, ?_⟩, ?_, rfl, ?_⟩
  · rw [htimelock]
    exact h
  · rw [htimelock]
    rfl
  · rw [htimelock]
    exact hadmin

/-- Proposal 1 can still be executed at the end of the old grace period. -/
theorem honest_before_grace_period_ends :
    ∃ w w', Handover .sample 102 w w' ∧ w.QueuedOnTimelock .sample 1 ∧
      (w.dao.proposals 1).eta = 272800 ∧ Honest .sample w w' 1 w.blockNumber 1482399 := by
  have hrun : Yields (sampleV1.run .sample (fun _ _ _ => True) queuedOnV1)
      (fun w => w.state .sample 1 = .ok .Queued ∧ (w.dao.proposals 1).eta = 272800 ∧
        (w.dao.proposals 1).executeOnTimelockV1 = false ∧ w.dao.timelock = 103 ∧
        (w.executors 103).admin = 100 ∧
        Yields (w.step .sample (.ofDAO ⟨5, by decide⟩ (.admin (.setTimelocksAndAdmin 102 103 102))))
          (fun _ => True)) := by
    decide +kernel
  obtain ⟨w, hw, hstate, heta, hflag, htimelock, hadmin, w', hw', -⟩ := hrun
  have hr : Reachable World.Fresh (NextAny .sample) w := by
    refine ⟨sampleV1, sampleV1_fresh, run_steps ?_ hw⟩
    exact fun w a w' hstep _ => .step a trivial hstep
  have hhandover := handover_of_sample htimelock hadmin hw'
  have hqueued := queuedOnTimelock_of_reachable hr hflag (.inl hstate)
  refine ⟨w, w', hhandover, hqueued, heta, ?_⟩
  refine (honest_iff_grace_periods_agree (fun _ _ h => h) hhandover hqueued (Nat.le_refl _) _).mpr ?_
  rw [heta]
  decide

/-- Proposal 1 expires at 103.  After the handover it is reported as queued again, and the old
timelock, which still has its entry, refuses it as stale. -/
theorem expired_proposal_queued_again :
    ∃ w w', Reachable World.Fresh (NextAny .sample) w ∧ Handover .sample 102 w w' ∧
      w.QueuedOnTimelock .sample 1 ∧ w.state .sample 1 = .ok .Expired ∧
      w'.state .sample 1 = .ok .Queued ∧ w'.Present .sample 103 1 ∧
      w'.step .sample (.ofDAO ⟨5, by decide⟩ (.executeOnTimelockV1 1)) =
        .error (.require "NounsDAOExecutor::executeTransaction: Transaction is stale.") ∧
      ¬ Honest .sample w w' 1 w.blockNumber w.timestamp := by
  have hrun : Yields (sampleV1.run .sample (fun _ _ _ => True)
      (queuedOnV1 ++ [.advance 7205 1482401]))
      (fun w => w.state .sample 1 = .ok .Expired ∧
        (w.dao.proposals 1).executeOnTimelockV1 = false ∧ w.dao.timelock = 103 ∧
        (w.executors 103).admin = 100 ∧
        Yields (w.step .sample (.ofDAO ⟨5, by decide⟩ (.admin (.setTimelocksAndAdmin 102 103 102))))
          (fun w' => w'.state .sample 1 = .ok .Queued ∧
            (w'.atTime w.blockNumber w.timestamp).state .sample 1 = .ok .Queued ∧
            (w'.dao.proposals 1).targets.length = 1 ∧
            Yields ((w'.dao.proposals 1).action (w'.dao.proposals 1).eta 0)
              (fun tx => (w'.executors 103).isQueued .transparent tx = true) ∧
            RevertsWith (w'.step .sample (.ofDAO ⟨5, by decide⟩ (.executeOnTimelockV1 1)))
              (.require "NounsDAOExecutor::executeTransaction: Transaction is stale."))) := by
    decide +kernel
  obtain ⟨w, hw, hstate, hflag, htimelock, hadmin, w', hw', hstate', hlater, hlen, hentry, hstale⟩ :=
    hrun
  have hr : Reachable World.Fresh (NextAny .sample) w := by
    refine ⟨sampleV1, sampleV1_fresh, run_steps ?_ hw⟩
    exact fun w a w' hstep _ => .step a trivial hstep
  have hhandover := handover_of_sample htimelock hadmin hw'
  have hqueued := queuedOnTimelock_of_reachable hr hflag (.inr hstate)
  refine ⟨w, w', hr, hhandover, hqueued, hstate, hstate', ?_, hstale, ?_⟩
  · intro i hi
    obtain rfl : i = 0 := by omega
    exact hentry
  · intro hhonest
    exact hhonest.expired hstate hlater

end World

end Nouns
