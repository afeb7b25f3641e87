import Nouns.Governance.CallStack
import Nouns.Governance.Timelocks

/-!
# ForkFreeze — what the DAO can do during a fork period

`execute` checks once, before the first action, that no fork period is active.  A fork that starts
in the middle of a proposal is not noticed by the actions after it; as long as `executeFork` is only
called when no execution in progress has actions left, the DAO is frozen.
-/

open Fallible Transition

namespace Nouns

variable {H : Type}

/-! ## Actions in progress -/

namespace Gov

variable {d : Deployment H} {g g' : Gov H} {id : Nat} {l : Label}

/-- The proposals being executed were queued. -/
def RunsQueued (g : Gov H) : Prop :=
  ∀ x ∈ g.executing, (g.store.proposals x.proposalId).eta ≠ 0

/-- A queued proposal keeps its actions. -/
theorem StoreStep.keeps_txs (h : StoreStep d g g') (hwf : g.Wf)
    (heta : (g.store.proposals id).eta ≠ 0) :
    (g'.store.proposals id).toProposalTxs = (g.store.proposals id).toProposalTxs ∧
      (g'.store.proposals id).eta ≠ 0 := by
  refine h.proposal (P := fun p => p.toProposalTxs = (g.store.proposals id).toProposalTxs ∧
    p.eta ≠ 0) ⟨rfl, heta⟩ ?_ ?_
  · intro p hp
    cases hp with
    | ballot p hp =>
      have hsame := BallotChange.sameQueued hwf hp
      exact ⟨hsame.txs heta, hsame.eta ▸ heta⟩
    | queue delay hstate =>
      obtain ⟨_, -, hin⟩ := hwf.isIn hstate
      cases hin with
      | succeeded _ _ _ hz => exact absurd hz heta
    | cancel s hstate h₁ h₂ h₃ h₄ h₅ => exact ⟨rfl, heta⟩
    | veto s hstate hs => exact ⟨rfl, heta⟩
    | execute hstate => exact ⟨rfl, heta⟩
  · rintro p rfl -
    exact absurd (hwf.le_of_eta heta) (Nat.not_succ_le_self _)

theorem Continues.executing [DecidableEq H] {i : Nat} {timelock : Address}
    (h : g.Continues d id timelock i g') {x : Execution} (hx : x ∈ g'.executing) :
    x ∈ g.executing ∨ x.proposalId = id := by
  cases h with
  | next tx hi htx hqueued heta =>
    rcases List.mem_cons.mp hx with rfl | hx
    · exact .inr rfl
    · exact .inl hx
  | done hi => exact .inl hx

theorem QueueStep.executing [DecidableEq H] (h : QueueStep d g g' l) {x : Execution}
    (hx : x ∈ g'.executing) :
    (∃ y ∈ g.executing, x.proposalId = y.proposalId) ∨ g.state d x.proposalId = .ok .Queued := by
  cases h with
  | quiet l _ hexec _ _ => exact .inl ⟨x, hexec ▸ hx, rfl⟩
  | queue id delay q hstate hq hg => exact .inl ⟨x, by rw [hg] at hx; exact hx, rfl⟩
  | cancel id q halive hq hg => exact .inl ⟨x, by rw [hg] at hx; exact hx, rfl⟩
  | veto id q hq hg => exact .inl ⟨x, by rw [hg] at hx; exact hx, rfl⟩
  | execute id timelock hstate hcont =>
    rcases hcont.executing hx with hx | rfl
    · exact .inl ⟨x, hx, rfl⟩
    · exact .inr hstate
  | resume y rest hexec hcont =>
    rcases hcont.executing hx with hx | hid
    · exact .inl ⟨x, hexec ▸ List.mem_cons_of_mem y hx, rfl⟩
    · exact .inl ⟨y, hexec ▸ List.mem_cons_self, hid⟩

theorem QueueStep.runsQueued [DecidableEq H] (h : QueueStep d g g' l) (hstore : StoreStep d g g')
    (hwf : g.Wf) (hruns : g.RunsQueued) : g'.RunsQueued := by
  intro x hx
  refine (hstore.keeps_txs hwf ?_).2
  rcases h.executing hx with ⟨y, hy, heq⟩ | hstate
  · rw [heq]
    exact hruns y hy
  · exact (holding_of_queued hwf hstate).eta

end Gov

/-! ## The call stack during a fork period -/

namespace World

variable {d : Deployment H} {w w' : World H} {whole : Bool}

/-- The frame is an action of a proposal with actions left after it, or any action if `whole`. -/
def Busy (w : World H) (whole : Bool) (f : Frame) : Prop :=
  ∃ x, f.execution? = some x ∧
    (whole = true ∨ x.i + 1 < (w.dao.proposals x.proposalId).targets.length)

/-- While a fork period is active, nothing on the stack is busy or can call as a timelock; while an
`executeFork` is in progress, nothing below it is busy. -/
structure Frozen (d : Deployment H) (whole : Bool) (w : World H) : Prop where
  outside : ∀ f ∈ w.frames, d.isContract f.callee = false → f.caller = none
  callers : ∀ f ∈ w.frames.tail, f.caller = none
  forking : w.frames.Pairwise (fun f g => f.isForking = true → ¬ w.Busy whole g)
  active : w.gov.isForkPeriodActive → ∀ f ∈ w.frames, f.caller = none ∧ ¬ w.Busy whole f

theorem busy_congr {f g : Frame} (h : f.execution? = g.execution?) :
    w.Busy whole f ↔ w.Busy whole g := by
  simp only [Busy, h]

theorem not_busy_of_waits {f : Frame} (h : f.Waits) : ¬ w.Busy whole f := by
  rintro ⟨x, hx, -⟩
  rw [h.execution] at hx
  cases hx

theorem not_isForking_of_execution {f : Frame} {x : Execution} (h : f.execution? = some x) :
    f.isForking = false := by
  obtain ⟨callee, caller, k⟩ := f
  cases k with
  | executeInternal proposalId timelock i tx => rfl
  | _ => cases h

/-- The frames that stay on the stack when something is called, or returns. -/
structure Below (whole : Bool) (w : World H) (frames : List Frame) : Prop where
  callers : ∀ f ∈ frames, f.caller = none
  forking : frames.Pairwise (fun f g => f.isForking = true → ¬ w.Busy whole g)
  mem : ∀ f ∈ frames, ∃ g ∈ w.frames, f.execution? = g.execution?

theorem Below.not_busy {frames : List Frame} (h : Below whole w frames)
    (hw : ∀ f ∈ w.frames, ¬ w.Busy whole f) : ∀ f ∈ frames, ¬ w.Busy whole f := by
  intro f hf
  obtain ⟨g, hg, heq⟩ := h.mem f hf
  rw [busy_congr heq]
  exact hw g hg

theorem Frozen.below_of_cons (hw : w.Frozen d whole) {f : Frame} {rest : List Frame}
    (hframes : w.frames = f :: rest) : Below whole w rest := by
  have hforking := hw.forking
  rw [hframes, List.pairwise_cons] at hforking
  refine ⟨?_, hforking.2, ?_⟩
  · intro g hg
    exact hw.callers g (by rw [hframes]; exact hg)
  · intro g hg
    exact ⟨g, hframes ▸ List.mem_cons_of_mem f hg, rfl⟩

theorem Entered.below {sender : Address} {frames : List Frame} (h : w.Entered d sender frames)
    (hw : w.Frozen d whole) : Below whole w frames := by
  cases h with
  | outside hsender hcallee =>
    refine ⟨?_, hw.forking, fun f hf => ⟨f, hf, rfl⟩⟩
    intro f hf
    cases hframes : w.frames with
    | nil =>
      rw [hframes] at hf
      cases hf
    | cons g rest =>
      rw [hframes] at hf
      rcases List.mem_cons.mp hf with rfl | hf
      · exact hw.outside f (hframes ▸ List.mem_cons_self) (hcallee f rest hframes)
      · exact hw.callers f (by rw [hframes]; exact hf)
  | frame f rest hframes hcaller =>
    have hrest := hw.below_of_cons hframes
    have hforking := hw.forking
    rw [hframes, List.pairwise_cons] at hforking
    refine ⟨?_, List.pairwise_cons.mpr hforking, ?_⟩
    · intro g hg
      rcases List.mem_cons.mp hg with rfl | hg
      · rfl
      · exact hrest.callers g hg
    · intro g hg
      rcases List.mem_cons.mp hg with rfl | hg
      · exact ⟨f, hframes ▸ List.mem_cons_self, rfl⟩
      · exact hrest.mem g hg

/-- Frames on the stack do not become busy. -/
def StaysIdle (whole : Bool) (w w' : World H) : Prop :=
  ∀ f, (∃ g ∈ w.frames, f.execution? = g.execution?) → w'.Busy whole f → w.Busy whole f

/-- A call or a return keeps the DAO frozen, if a fork starts or ends only above idle frames and an
action begins only outside fork periods. -/
theorem Pushes.frozen {frames : List Frame} {forks : Prop} {begins : Execution → Prop}
    (h : Pushes d { w with frames } forks begins w') (hbelow : Below whole w frames)
    (hidle : StaysIdle whole w w') (hforks : forks → ∀ f ∈ frames, ¬ w.Busy whole f)
    (hactive : w'.gov.isForkPeriodActive → ∀ f ∈ frames, ¬ w.Busy whole f)
    (hbegins : ∀ x, begins x → ¬ w'.gov.isForkPeriodActive) : w'.Frozen d whole := by
  have hstill : ∀ f ∈ frames, ¬ w.Busy whole f → ¬ w'.Busy whole f :=
    fun f hf hno hbusy => hno (hidle f (hbelow.mem f hf) hbusy)
  have hforking : frames.Pairwise (fun f g => f.isForking = true → ¬ w'.Busy whole g) := by
    refine hbelow.forking.imp_of_mem ?_
    intro f g _ hg hfg hfork
    exact hstill g hg (hfg hfork)
  cases h with
  | nothing htime hframes =>
    change w'.frames = frames at hframes
    refine ⟨?_, ?_, hframes ▸ hforking, ?_⟩
    · intro f hf _
      exact hbelow.callers f (hframes ▸ hf)
    · intro f hf
      exact hbelow.callers f (List.mem_of_mem_tail (hframes ▸ hf))
    · intro hact f hf
      rw [hframes] at hf
      exact ⟨hbelow.callers f hf, hstill f hf (hactive hact f hf)⟩
  | waiting f hw hforks' htime hframes =>
    change w'.frames = f :: frames at hframes
    refine ⟨?_, ?_, ?_, ?_⟩
    · intro g hg _
      rcases List.mem_cons.mp (hframes ▸ hg) with rfl | hg
      · exact hw.caller
      · exact hbelow.callers g hg
    · intro g hg
      rw [hframes] at hg
      exact hbelow.callers g hg
    · rw [hframes, List.pairwise_cons]
      exact ⟨fun g hg hfork => hstill g hg (hforks (hforks' hfork) g hg), hforking⟩
    · intro hact g hg
      rcases List.mem_cons.mp (hframes ▸ hg) with rfl | hg
      · exact ⟨hw.caller, not_busy_of_waits hw⟩
      · exact ⟨hbelow.callers g hg, hstill g hg (hactive hact g hg)⟩
  | action f x hx hbegin hcaller htime hframes =>
    change w'.frames = f :: frames at hframes
    refine ⟨?_, ?_, ?_, ?_⟩
    · intro g hg
      rcases List.mem_cons.mp (hframes ▸ hg) with rfl | hg
      · exact hcaller
      · exact fun _ => hbelow.callers g hg
    · intro g hg
      rw [hframes] at hg
      exact hbelow.callers g hg
    · rw [hframes, List.pairwise_cons]
      refine ⟨?_, hforking⟩
      intro g _ hfork
      rw [not_isForking_of_execution hx] at hfork
      cases hfork
    · intro hact
      exact absurd hact (hbegins x hbegin)

theorem StackStep.frozen {a : Action} (h : StackStep d w a w') (hw : w.Frozen d whole)
    (hidle : StaysIdle whole w w')
    (hforks : ∀ tx sender, a = .callDAO tx sender .executeFork → ∀ f ∈ w.frames, ¬ w.Busy whole f) :
    w'.Frozen d whole := by
  cases h with
  | pass hframes htime hend =>
    have hact : w'.gov.isForkPeriodActive → w.gov.isForkPeriodActive := by
      intro hact
      change w'.dao.forkEndTimestamp > w'.timestamp at hact
      change w.dao.forkEndTimestamp > w.timestamp
      omega
    refine ⟨hframes ▸ hw.outside, hframes ▸ hw.callers, ?_, ?_⟩
    · rw [hframes]
      refine hw.forking.imp_of_mem ?_
      intro f g _ hg hfg hfork hbusy
      exact hfg hfork (hidle g ⟨g, hg, rfl⟩ hbusy)
    · intro hact' f hf
      rw [hframes] at hf
      obtain ⟨hcaller, hno⟩ := hw.active (hact hact') f hf
      exact ⟨hcaller, fun hbusy => hno (hidle f ⟨f, hf, rfl⟩ hbusy)⟩
  | call sender frames hentered hend hpushes =>
    have hbelow := hentered.below hw
    have hact : w'.gov.isForkPeriodActive → w.gov.isForkPeriodActive := by
      have htime := hpushes.timestamp
      intro hact
      change w'.dao.forkEndTimestamp > w'.timestamp at hact
      change w.dao.forkEndTimestamp > w.timestamp
      rwa [hend, htime] at hact
    refine hpushes.frozen hbelow hidle ?_ ?_ ?_
    · rintro ⟨tx, sender, ha⟩
      exact hbelow.not_busy (hforks tx sender ha)
    · intro hact'
      exact hbelow.not_busy (fun f hf => (hw.active (hact hact') f hf).2)
    · intro x hx hact'
      exact hx (hact hact')
  | return_ f frames hframes hend hpushes =>
    have hbelow := hw.below_of_cons hframes
    have hforking := hw.forking
    rw [hframes, List.pairwise_cons] at hforking
    have hact : w'.gov.isForkPeriodActive → f.isForking = true ∨ w.gov.isForkPeriodActive := by
      have htime := hpushes.timestamp
      intro hact
      rcases hend with hfork | hend
      · exact .inl hfork
      · change w'.dao.forkEndTimestamp > w'.timestamp at hact
        rw [hend, htime] at hact
        exact .inr hact
    refine hpushes.frozen hbelow hidle ?_ ?_ ?_
    · intro hfork g hg
      exact hforking.1 g hg hfork
    · intro hact' g hg
      rcases hact hact' with hfork | hactive
      · exact hforking.1 g hg hfork
      · exact hbelow.not_busy (fun f hf => (hw.active hactive f hf).2) g hg
    · rintro x ⟨y, hy, hid, hi, hlt⟩ hact'
      -- The action that returned was busy: another one follows.
      rcases hact hact' with hfork | hactive
      · rw [not_isForking_of_execution hy] at hfork
        cases hfork
      · refine (hw.active hactive f (hframes ▸ List.mem_cons_self)).2 ⟨y, hy, .inr ?_⟩
        rwa [hid, hi] at hlt

/-- During a fork period no action begins. -/
theorem StackStep.begins_nothing {a : Action} (h : StackStep d w a w') (hw : w.Frozen d whole)
    (hactive : w.gov.isForkPeriodActive) {x : Execution} (hx : x ∈ w'.gov.executing) :
    x ∈ w.gov.executing := by
  have hmem : ∀ frames, Below whole w frames → ∀ f ∈ frames, f.execution? = some x →
      x ∈ w.gov.executing := by
    intro frames hbelow f hf hfx
    obtain ⟨g, hg, heq⟩ := hbelow.mem f hf
    exact List.mem_filterMap.mpr ⟨g, hg, heq ▸ hfx⟩
  have hpush : ∀ frames forks begins, Below whole w frames → (∀ y, ¬ begins y) →
      Pushes d { w with frames } forks begins w' → x ∈ w.gov.executing := by
    intro frames forks begins hbelow hno hpushes
    obtain ⟨f, hf, hfx⟩ := List.mem_filterMap.mp hx
    cases hpushes with
    | nothing _ hframes =>
      rw [hframes] at hf
      exact hmem frames hbelow f hf hfx
    | waiting g hg _ _ hframes =>
      rcases List.mem_cons.mp (hframes ▸ hf) with rfl | hf
      · rw [hg.execution] at hfx
        cases hfx
      · exact hmem frames hbelow f hf hfx
    | action g y hgy hbegins _ _ _ => exact absurd hbegins (hno y)
  cases h with
  | pass hframes htime hend =>
    rw [gov, hframes] at hx
    exact hx
  | call sender frames hentered hend hpushes =>
    exact hpush frames _ _ (hentered.below hw) (fun _ hno => hno hactive) hpushes
  | return_ f frames hframes hend hpushes =>
    refine hpush frames _ _ (hw.below_of_cons hframes) ?_ hpushes
    rintro z ⟨y, hy, hid, hi, hlt⟩
    refine (hw.active hactive f (hframes ▸ List.mem_cons_self)).2 ⟨y, hy, .inr ?_⟩
    rwa [hid, hi] at hlt

/-- A timelock cannot call the DAO when no frame lets it. -/
theorem not_entered_of_frozen {sender : Address} {frames : List Frame} {whole : Bool}
    (hw : w.Frozen d whole) (hactive : w.gov.isForkPeriodActive)
    (hsender : d.isContract sender = true) : ¬ w.Entered d sender frames := by
  intro h
  cases h with
  | outside hout _ =>
    rw [hout] at hsender
    cases hsender
  | frame f rest hframes hcaller =>
    rw [(hw.active hactive f (hframes ▸ List.mem_cons_self)).1] at hcaller
    cases hcaller

end World

/-! ## Functions of the admin -/

def AdminCall.byAdmin : AdminCall → Bool
  | .acceptAdmin | .setPendingVetoer _ | .acceptVetoer | .burnVetoPower => false
  | _ => true

/-- The functions that only the admin can call: its setters and the withdrawals. -/
def DAOCall.byAdmin : DAOCall → Bool
  | .admin call => call.byAdmin
  | .quorum _ | .setVoteSnapshotBlockSwitchProposalId | .withdraw
  | .withdrawDAONounsFromEscrowToTreasury _
  | .withdrawDAONounsFromEscrowIncreasingTotalSupply _ _ => true
  | _ => false

namespace StorageV3

variable {ds ds' : StorageV3 H} {sender : Address}

theorem onlyAdmin_ok {u : Unit} (h : ds.onlyAdmin sender = .ok u) : sender = ds.admin := by
  rw [onlyAdmin, revertIf_eq_ok] at h
  exact not_not.mp h

theorem adminCall_by_admin {call : AdminCall} (hcall : call.byAdmin = true)
    (h : ds.adminCall sender call = .ok ds') : sender = ds.admin := by
  cases call with
  | acceptAdmin | setPendingVetoer a | acceptVetoer | burnVetoPower => cases hcall
  | setForkParams forkEscrow forkDAODeployer erc20s forkPeriod forkThresholdBPS =>
    simp only [adminCall, setForkParams, bind_eq_ok] at h
    obtain ⟨ds₁, h₁, -⟩ := h
    rw [setForkEscrow, bind_eq_ok] at h₁
    obtain ⟨_, hadmin, -⟩ := h₁
    exact onlyAdmin_ok hadmin
  | _ =>
    obtain ⟨_, hadmin, -⟩ := bind_eq_ok.mp h
    exact onlyAdmin_ok hadmin

theorem quorumCall_by_admin {now : Nat} {call : QuorumCall}
    (h : ds.quorumCall sender now call = .ok ds') : sender = ds.admin := by
  cases call with
  | _ =>
    obtain ⟨_, hadmin, -⟩ := bind_eq_ok.mp h
    exact onlyAdmin_ok hadmin

end StorageV3

/-! ## Runs -/

namespace World

/-- `executeFork` is called only when every execution in progress is in its last action. -/
def ForksInLastAction (w : World H) : Action → Prop
  | .callDAO _ _ .executeFork =>
      ∀ x ∈ w.gov.executing, (w.dao.proposals x.proposalId).targets.length ≤ x.i + 1
  | _ => True

/-- `executeFork` is called only when no execution is in progress. -/
def ForksOutsideActions (w : World H) : Action → Prop
  | .callDAO _ _ .executeFork => w.gov.executing = []
  | _ => True

instance (w : World H) (a : Action) : Decidable (w.ForksOutsideActions a) := by
  unfold ForksOutsideActions
  split <;> infer_instance

/-- The DAO is the admin of its timelocks, and the timelock is the admin of the DAO. -/
def SelfGoverned (d : Deployment H) (w : World H) : Prop :=
  w.Governed d ∧ w.dao.admin = d.timelock

instance (d : Deployment H) (w : World H) : Decidable (w.SelfGoverned d) :=
  inferInstanceAs (Decidable (_ ∧ _))

def StartSelfGoverned (d : Deployment H) (w : World H) : Prop := w.Fresh ∧ w.SelfGoverned d

variable [DecidableEq H] {d : Deployment H} {w w' : World H}

def NextSelfGoverned (d : Deployment H) (admits : World H → Action → Prop) (w w' : World H) :
    Prop :=
  Next d admits w w' ∧ w'.SelfGoverned d

theorem callDAO_by_admin {tx : TxContext} {sender : Account} {call : DAOCall}
    (hcall : call.byAdmin = true) (h : w.callDAO d tx sender call = .ok w') :
    (sender : Address) = w.dao.admin := by
  cases call with
  | admin call =>
    obtain ⟨ds, hds, -⟩ := withStorage_ok h
    exact StorageV3.adminCall_by_admin hcall hds
  | quorum call =>
    obtain ⟨ds, hds, -⟩ := withStorage_ok h
    exact StorageV3.quorumCall_by_admin hds
  | setVoteSnapshotBlockSwitchProposalId =>
    obtain ⟨ds, hds, -⟩ := withStorage_ok h
    obtain ⟨_, hadmin, -⟩ := bind_eq_ok.mp hds
    exact StorageV3.onlyAdmin_ok hadmin
  | withdraw =>
    obtain ⟨_, hadmin, -⟩ := bind_eq_ok.mp h
    exact StorageV3.onlyAdmin_ok hadmin
  | withdrawDAONounsFromEscrowToTreasury tokenIds =>
    obtain ⟨_, hadmin, -⟩ := bind_eq_ok.mp h
    exact StorageV3.onlyAdmin_ok hadmin
  | withdrawDAONounsFromEscrowIncreasingTotalSupply tokenIds to_ =>
    simp only [callDAO, withdrawDAONounsFromEscrowIncreasingTotalSupply, bind_eq_ok] at h
    obtain ⟨_, -, w₁, hw₁, -⟩ := h
    obtain ⟨_, hadmin, -⟩ := bind_eq_ok.mp hw₁
    exact StorageV3.onlyAdmin_ok hadmin
  | _ => cases hcall

theorem staysIdle_of_next {whole : Bool} {admits : World H → Action → Prop}
    (h : Next d admits w w') (hwf : w.gov.Wf) (hruns : w.gov.RunsQueued) :
    StaysIdle whole w w' := by
  rintro f ⟨g, hg, heq⟩ ⟨x, hx, hbusy⟩
  refine ⟨x, hx, hbusy.imp_right ?_⟩
  have hmem : x ∈ w.gov.executing := List.mem_filterMap.mpr ⟨g, hg, heq ▸ hx⟩
  have htxs := (h.storeStep.keeps_txs hwf (hruns x hmem)).1
  intro hlt
  rwa [show (w'.dao.proposals x.proposalId).toProposalTxs = _ from htxs] at hlt

variable {admits : World H → Action → Prop}

theorem frozen_of_reachable (whole : Bool)
    (hadmits : ∀ w tx sender, admits w (.callDAO tx sender .executeFork) →
      ∀ f ∈ w.frames, ¬ w.Busy whole f)
    (h : Reachable (StartSelfGoverned d) (NextSelfGoverned d admits) w) :
    w.gov.RunsQueued ∧ w.Frozen d whole := by
  refine h.invariant (P := fun w => w.gov.RunsQueued ∧ w.Frozen d whole) ?_ ?_
  · rintro w ⟨hfresh, -⟩
    have hframes : w.frames = [] := hfresh.frames
    refine ⟨?_, ?_, ?_, ?_, ?_⟩
    · intro x hx
      simp [gov, hframes] at hx
    · simp [hframes]
    · simp [hframes]
    · simp [hframes]
    · simp [hframes]
  · rintro w w' hr ⟨hruns, hfrozen⟩ ⟨hnext, -⟩
    have hwf : w.gov.Wf := (governed_of_reachable (hr.mono (fun _ h => ⟨h.1, h.2.1⟩)
      (fun _ _ h => ⟨h.1, h.2.1⟩))).1
    have hidle : StaysIdle whole w w' := staysIdle_of_next hnext hwf hruns
    cases hnext with
    | step a ha hstep =>
      refine ⟨((gov_step hstep).queueStep hwf).runsQueued (gov_step hstep).storeStep hwf hruns,
        (stack_step hstep).frozen hfrozen hidle ?_⟩
      rintro tx sender rfl
      exact hadmits w tx sender ha
    | outside hout =>
      refine ⟨hout.gov_eq ▸ hruns, ?_⟩
      obtain ⟨⟨eth, erc20, outside, rfl⟩, -, -⟩ := hout
      exact ⟨hfrozen.outside, hfrozen.callers, hfrozen.forking, hfrozen.active⟩

/-- In runs that start a fork only from outside of proposals or from their last action, no action
begins and no function of the admin takes effect during a fork period.  If forks start only from
outside, no action is in progress either. -/
theorem frozen_during_fork_period (hd : d.isContract d.timelock = true)
    (hadmits : ∀ w a, admits w a → w.ForksInLastAction a)
    (h : Reachable (StartSelfGoverned d) (NextSelfGoverned d admits) w)
    (hactive : w.dao.isForkPeriodActive w.timestamp) :
    (∀ a w', w.step d a = .ok w' → ∀ x ∈ w'.gov.executing, x ∈ w.gov.executing) ∧
    (∀ tx sender call w', w.step d (.callDAO tx sender call) = .ok w' → call.byAdmin = false) ∧
    ((∀ w a, admits w a → w.ForksOutsideActions a) → w.gov.executing = []) := by
  obtain ⟨-, hfrozen⟩ := frozen_of_reachable false (by
    rintro w tx sender ha f hf ⟨x, hx, hbusy⟩
    have hlast := hadmits w _ ha x (List.mem_filterMap.mpr ⟨f, hf, hx⟩)
    simp only [Bool.false_eq_true, false_or] at hbusy
    omega) h
  have hadmin : w.dao.admin = d.timelock := by
    refine h.invariant (P := fun w => w.dao.admin = d.timelock) (fun _ hw => hw.2.2) ?_
    exact fun _ _ _ _ hn => hn.2.2
  refine ⟨?_, ?_, ?_⟩
  · intro a w' hstep x hx
    exact (stack_step hstep).begins_nothing hfrozen hactive hx
  · intro tx sender call w' hstep
    by_contra hcall
    simp only [step, bind_eq_ok] at hstep
    obtain ⟨w₁, henter, hstep⟩ := hstep
    obtain ⟨frames, hentered, rfl⟩ := enter_entered henter
    refine not_entered_of_frozen hfrozen hactive ?_ hentered
    rw [callDAO_by_admin (Bool.eq_true_of_not_eq_false hcall) hstep]
    change d.isContract w.dao.admin = true
    rw [hadmin]
    exact hd
  · intro houtside
    obtain ⟨-, hwhole⟩ := frozen_of_reachable true (by
      rintro w tx sender ha f hf ⟨x, hx, -⟩
      have hnone : w.gov.executing = [] := houtside w _ ha
      have hmem : x ∈ w.gov.executing := List.mem_filterMap.mpr ⟨f, hf, hx⟩
      rw [hnone] at hmem
      cases hmem) h
    refine List.eq_nil_iff_forall_not_mem.mpr ?_
    intro x hx
    obtain ⟨f, hf, hfx⟩ := List.mem_filterMap.mp hx
    exact (hwhole.active hactive f hf).2 ⟨x, hfx, .inl rfl⟩

/-- 7 lets the DAO take its Nouns, and its proposal 1 is queued. -/
def queuedProposal (txs : ProposalTxs) : List Action :=
  [.callToken .minter .mint, .callToken .minter (.setApprovalForAll 100 true), .advance 2 2,
    .ofDAO .minter (.propose txs ""), .advance 4 4, .ofDAO .minter (.castVote 1 1),
    .advance 7204 100000, .ofDAO .minter (.queue 1), .advance 7205 272800,
    .ofDAO .minter (.escrowToFork [1] [] "")]

theorem sample_selfGoverned : World.sample.StartSelfGoverned .sample :=
  ⟨World.sample_fresh, by decide⟩

/-- Proposal 1 is queued when the fork starts. -/
theorem frozen_during_fork_period_with_queued_proposal :
    ∃ w, Reachable (StartSelfGoverned .sample) (NextSelfGoverned .sample ForksOutsideActions) w ∧
      w.dao.isForkPeriodActive w.timestamp ∧
      (∀ a w', w.step .sample a = .ok w' → ∀ x ∈ w'.gov.executing, x ∈ w.gov.executing) ∧
      (∀ tx sender call w', w.step .sample (.callDAO tx sender call) = .ok w' →
        call.byAdmin = false) ∧ w.gov.executing = [] := by
  have hrun : Yields (World.sample.run .sample
      (fun w a w' => w'.SelfGoverned .sample ∧ w.ForksOutsideActions a)
      (queuedProposal .sample ++ [.ofDAO ⟨5, by decide⟩ .executeFork, .return_ 200 201,
        .return_ 0 0]))
      (fun w => w.dao.isForkPeriodActive w.timestamp) := by
    decide +kernel
  obtain ⟨w, hw, hactive⟩ := hrun
  have hr : Reachable (StartSelfGoverned .sample)
      (NextSelfGoverned .sample ForksOutsideActions) w := by
    refine ⟨World.sample, sample_selfGoverned, run_steps ?_ hw⟩
    exact fun w a w' hstep hw' => ⟨.step a hw'.2 hstep, hw'.1⟩
  obtain ⟨h₁, h₂, h₃⟩ := frozen_during_fork_period (by decide) (by
    intro w a ha
    unfold ForksInLastAction
    split
    · intro x hx
      rw [show w.gov.executing = [] from ha] at hx
      cases hx
    · trivial) hr hactive
  exact ⟨w, hr, hactive, h₁, h₂, h₃ (fun _ _ ha => ha)⟩

/-- Proposal 1 calls `executeFork` and then sets the voting delay: its second action begins, and the
setter takes effect, during the fork period. -/
theorem setter_in_fork_period :
    ∃ w₁ w₂ w₃,
      Reachable (StartSelfGoverned .sample) (NextSelfGoverned .sample (fun _ _ => True)) w₁ ∧
      w₁.dao.isForkPeriodActive w₁.timestamp ∧ w₁.step .sample (.return_ 0 0) = .ok w₂ ∧
      (∃ x ∈ w₂.gov.executing, x ∉ w₁.gov.executing) ∧
      w₂.dao.isForkPeriodActive w₂.timestamp ∧
      w₂.step .sample (.ofDAO ⟨102, by decide⟩ (.admin (.setVotingDelay 2))) = .ok w₃ ∧
      w₂.dao.votingDelay = 1 ∧ w₃.dao.votingDelay = 2 := by
  have hrun : Yields (World.sample.run .sample (fun _ _ w' => w'.SelfGoverned .sample)
      (queuedProposal ⟨[100, 100], [0, 0], ["executeFork()", "_setVotingDelay(uint256)"],
        [[], List.replicate 31 0 ++ [2]]⟩ ++ [.ofDAO ⟨5, by decide⟩ (.execute 1),
        .ofDAO ⟨102, by decide⟩ .executeFork, .return_ 200 201, .return_ 0 0]))
      (fun w₁ => w₁.dao.isForkPeriodActive w₁.timestamp ∧
        Yields (w₁.step .sample (.return_ 0 0)) (fun w₂ =>
          (∃ x ∈ w₂.gov.executing, x ∉ w₁.gov.executing) ∧
          w₂.dao.isForkPeriodActive w₂.timestamp ∧
          Yields (w₂.step .sample (.ofDAO ⟨102, by decide⟩ (.admin (.setVotingDelay 2))))
            (fun w₃ => w₂.dao.votingDelay = 1 ∧ w₃.dao.votingDelay = 2))) := by
    decide +kernel
  obtain ⟨w₁, hw₁, hactive₁, w₂, hw₂, hbegins, hactive₂, w₃, hw₃, hdelay⟩ := hrun
  refine ⟨w₁, w₂, w₃, ⟨World.sample, sample_selfGoverned, run_steps ?_ hw₁⟩, hactive₁, hw₂, hbegins,
    hactive₂, hw₃, hdelay⟩
  exact fun w a w' hstep hgov => ⟨.step a trivial hstep, hgov⟩

end World

end Nouns
