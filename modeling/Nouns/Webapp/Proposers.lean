import Nouns.Governance.Objections
import Nouns.Subgraph.Backers

/-!
# Proposers — the accounts that the webapp takes for busy

`activePendingUpdatableProposersQuery` of `wrappers/subgraph.ts` and the hook that reads it.  The webapp
does not count the signatures of these accounts, since the contract would reject them.
-/

open EntityStore EntityStore.Table Fallible Relation Transition

namespace Nouns.Webapp

/-! ## The source -/

/-- The filter of `activePendingUpdatableProposersQuery`. -/
def activePendingUpdatableProposersQuery (currentBlock : Nat) (proposal : Subgraph.Proposal) : Bool :=
  (proposal.status = .PENDING ∧ proposal.endBlock > currentBlock) ∨
    (proposal.status = .ACTIVE ∧ proposal.endBlock > currentBlock)

/-- What the hook makes of the proposals that the query returns. -/
def useActivePendingUpdatableProposers (proposals : List Subgraph.Proposal) : List Address :=
  proposals.flatMap fun proposal => proposal.proposer :: proposal.signers

/-- The accounts that the hook returns if no limit cuts the proposals off. -/
def busyAccounts (s : Subgraph.Store) (currentBlock : Nat) : Set Address :=
  { a | ∃ id proposal, s.proposals.load id = some proposal ∧
      activePendingUpdatableProposersQuery currentBlock proposal = true ∧
      a ∈ useActivePendingUpdatableProposers [proposal] }

/-! ## The contract -/

section Contract

variable {H : Type} {p : Nouns.Proposal} {now b : Nat}

/-- Being live is a matter of the last two windows. -/
theorem live_succ_iff (h : p.Timeline now) :
    p.Live (b + 1) ↔ p.Alive ∧ (b < p.endBlock ∨ b < p.objectionPeriodEndBlock) := by
  have hstart := h.start
  have hend := h.end_
  refine and_congr_right fun _ => ⟨fun hopen => ?_, fun hlast hclosed => ?_⟩
  · by_contra hover
    apply hopen
    exact ⟨by omega, by omega, by omega, by omega⟩
  · obtain ⟨-, -, hend', hobjection⟩ := hclosed
    omega

variable {ds : StorageV3 H} {env : Env H} {a : Address}

theorem checkNoActiveProp_ok_iff (hwf : ds.Wf now)
    (hle : ds.latestProposalIds a ≤ ds.proposalCount) :
    ds.checkNoActiveProp env a = .ok () ↔ (ds.latestProposalIds a ≠ 0 →
      ¬ (ds.proposals (ds.latestProposalIds a)).Live env.blockNumber) := by
  refine ⟨fun h hne => StorageV3.checkNoActiveProp_ok h (Nat.pos_of_ne_zero hne) rfl, fun h => ?_⟩
  unfold StorageV3.checkNoActiveProp
  by_cases hzero : ds.latestProposalIds a = 0
  · rw [if_neg (not_not.mpr hzero)]
    rfl
  · obtain ⟨state, hstate⟩ := hwf.stateInternal_ok hle env.toClock
    have hover : ¬ state.IsLive := fun hlive =>
      h hzero ((ProposalStorage.stateInternal_isLive hstate).mp hlive)
    rw [if_pos hzero, bind_eq_ok]
    refine ⟨state, hstate, ?_⟩
    rw [revertIf_eq_ok]
    rintro (hs | hs | hs | hs)
    · exact hover (.inr (.inr (.inr hs)))
    · exact hover (.inr (.inr (.inl hs)))
    · exact hover (.inr (.inl hs))
    · exact hover (.inl hs)

end Contract

/-! ## Runs -/

/-- The DAO has no proposals, and nobody is registered with one. -/
structure Begins {H : Type} (w : World H) : Prop extends Subgraph.Starts w where
  latest : ∀ a, w.dao.latestProposalIds a = 0

open StorageV3 in
theorem begins_of_deployed {H : Type} {w : World H} (h : w.Deployed) : Begins w := by
  refine ⟨Subgraph.starts_of_deployed h, fun a => ?_⟩
  obtain ⟨⟨_, _, _, _, _, _, _, _, _, hdao⟩, -⟩ := h
  simp only [deploy, initializeBy, bind_eq_ok, pure_eq_ok] at hdao
  obtain ⟨ds₈, ⟨_, -, _, -, _, -, _, -, ds₁, h₁, ds₂, h₂, ds₃, h₃, ds₅, h₅, ds₆, h₆, ds₇, h₇, h₈⟩,
    hdao⟩ := hdao
  have hs₁ := (adminCall_settings (c := .setVotingPeriod _) h₁).latestProposalIds
  have hs₂ := (adminCall_settings (c := .setVotingDelay _) h₂).latestProposalIds
  have hs₃ := (adminCall_settings (c := .setProposalThresholdBPS _) h₃).latestProposalIds
  have hs₅ := (quorumCall_settings (c := .setDynamicQuorumParams _ _ _) h₅).latestProposalIds
  have hs₆ := (adminCall_settings (c := .setLastMinuteWindowInBlocks _) h₆).latestProposalIds
  have hs₇ := (adminCall_settings (c := .setObjectionPeriodDurationInBlocks _) h₇).latestProposalIds
  have hs₈ := (adminCall_settings (c := .setProposalUpdatablePeriodInBlocks _) h₈).latestProposalIds
  rw [← hdao]
  change ds₈.latestProposalIds a = 0
  rw [hs₈, hs₇, hs₆, hs₅]
  change ds₃.latestProposalIds a = 0
  rw [hs₃, hs₂, hs₁]
  rfl

section Runs

variable {H : Type} [DecidableEq H] {d : Deployment H} {w : World H} {s : Subgraph.Store} {a : Address}
  {b timestamp : Nat}

/-- The contract rejects those who back a live proposal. -/
theorem checkNoActiveProp_iff (hr : Reachable Begins (World.NextAny d) w) (hb : w.blockNumber ≤ b)
    {env : Env H} (henv : env.blockNumber = b + 1) :
    w.dao.checkNoActiveProp env a ≠ .ok () ↔
      ∃ id, 0 < id ∧ id ≤ w.dao.proposalCount ∧ (w.dao.proposals id).BackedBy a ∧
        (w.dao.proposals id).Live (b + 1) := by
  have hfresh : Reachable World.Fresh (World.NextAny d) w := hr.mono (fun _ hw => hw.fresh)
    fun _ _ => id
  have hwf := World.wf_of_fresh hfresh
  have hlatest : w.LatestBacked := World.latestBacked_of_reachable
    (hr.mono (fun _ hw => ⟨hw.fresh, hw.latest⟩) fun _ _ => id)
  have hle : w.dao.latestProposalIds a ≤ w.dao.proposalCount := by
    by_cases hzero : w.dao.latestProposalIds a = 0
    · omega
    · exact (hlatest a hzero).1
  rw [Ne, checkNoActiveProp_ok_iff hwf hle, Classical.not_imp, not_not, henv]
  constructor
  · rintro ⟨hne, hlive⟩
    exact ⟨_, Nat.pos_of_ne_zero hne, hle, (hlatest a hne).2, hlive⟩
  · rintro ⟨id, hpos, hid, hback, hlive⟩
    rw [World.registered_of_reachable hfresh id a hpos hid (hlive.mono (by omega)) hback]
    exact ⟨Nat.ne_of_gt hpos, hlive⟩

omit [DecidableEq H] in
/-- While the vote lasts, the status of a proposal that is alive is still that of its creation. -/
theorem query_iff {p : Nouns.Proposal} {running : Prop} {e : Subgraph.Proposal}
    (hm : Subgraph.Mirrors p running e) (htimeline : p.Timeline w.blockNumber)
    (hb : w.blockNumber ≤ b) :
    activePendingUpdatableProposersQuery b e = true ↔ p.Alive ∧ b < p.endBlock := by
  unfold activePendingUpdatableProposersQuery
  rw [decide_eq_true_iff, ← or_and_right, hm.endBlock]
  have hstatus := hm.status
  generalize e.status = status, e.executionETA = executionETA at hstatus
  constructor
  · rintro ⟨hopen, hend⟩
    cases hstatus with
    | opened _ halive => exact ⟨halive, hend⟩
    | queued halive => exact ⟨halive, hend⟩
    | executed halive => exact ⟨halive, hend⟩
    | canceled => rcases hopen with h | h <;> cases h
    | vetoed => rcases hopen with h | h <;> cases h
  · rintro ⟨halive, hend⟩
    refine ⟨?_, hend⟩
    have hunqueued : p.eta = 0 := by
      by_contra hne
      have hover := (htimeline.queued hne).1
      omega
    cases hstatus with
    | opened _ _ _ _ hopen => exact hopen
    | queued _ heta => exact absurd hunqueued heta
    | executed _ heta => exact absurd hunqueued heta
    | canceled _ _ hcanceled => exact absurd (halive.2.symm.trans hcanceled) Bool.false_ne_true
    | vetoed _ hvetoed => exact absurd (halive.1.symm.trans hvetoed) Bool.false_ne_true

theorem mem_busyAccounts_iff (hr : Reachable Begins (World.NextAny d) w)
    (hs : Subgraph.EventsIndexed w.dao.log s) (hb : w.blockNumber ≤ b) :
    a ∈ busyAccounts s b ↔
      ∃ id, 0 < id ∧ id ≤ w.dao.proposalCount ∧ (w.dao.proposals id).BackedBy a ∧
        (w.dao.proposals id).Alive ∧ b < (w.dao.proposals id).endBlock := by
  have hstarts : Reachable Subgraph.Starts (World.NextAny d) w :=
    hr.mono (fun _ hw => hw.toStarts) fun _ _ => id
  have htold := Subgraph.told_of_reachable hstarts
  have hindexed := htold.mirrored s hs
  have htimeline (id : Nat) : (w.dao.proposals id).Timeline w.blockNumber := htold.wf.timeline id
  -- Being returned by the hook is backing the proposal on the chain.
  have hback : ∀ id e, s.proposals.load id = some e →
      (a ∈ useActivePendingUpdatableProposers [e] ↔ (w.dao.proposals id).BackedBy a) := by
    intro id e hload
    obtain ⟨hproposer, hsigners⟩ := Subgraph.backers_eq hstarts hs hload
    rw [useActivePendingUpdatableProposers, List.flatMap_singleton, List.mem_cons, hproposer,
      hsigners, eq_comm, Nouns.Proposal.BackedBy]
  constructor
  · rintro ⟨id, e, hload, hquery, ha⟩
    obtain ⟨hpos, hle⟩ := hindexed.born hload
    have hm := hindexed.mirrors hload
    exact ⟨id, hpos, hle, (hback id e hload).mp ha, (query_iff hm (htimeline id) hb).mp hquery⟩
  · rintro ⟨id, hpos, hle, ha, halive⟩
    obtain ⟨e, hload, hm⟩ := hindexed.created id hpos hle
    exact ⟨id, e, hload, (query_iff hm (htimeline id) hb).mpr halive, (hback id e hload).mpr ha⟩

/-- The webapp and the contract agree on an account unless it backs a proposal in its objection
period, which the query leaves out. -/
theorem busyAccounts_agree_iff (hr : Reachable Begins (World.NextAny d) w)
    (hs : Subgraph.EventsIndexed w.dao.log s) (hb : w.blockNumber ≤ b) :
    (a ∈ busyAccounts s b ↔ w.dao.checkNoActiveProp
        { w.env d with blockNumber := b + 1, timestamp } a ≠ .ok ()) ↔
      ¬ ∃ id, 0 < id ∧ id ≤ w.dao.proposalCount ∧ (w.dao.proposals id).BackedBy a ∧
        (w.dao.proposals id).Alive ∧ (w.dao.proposals id).endBlock ≤ b ∧
        b < (w.dao.proposals id).objectionPeriodEndBlock := by
  have hfresh : Reachable World.Fresh (World.NextAny d) w := hr.mono (fun _ hw => hw.fresh)
    fun _ _ => id
  have hregistered := World.registered_of_reachable hfresh
  have hlive (id : Nat) := live_succ_iff (b := b) ((World.wf_of_fresh hfresh).timeline id)
  rw [mem_busyAccounts_iff hr hs hb, checkNoActiveProp_iff hr hb rfl]
  constructor
  · rintro hagree ⟨id, hpos, hle, hback, halive, hend, hobjection⟩
    have hid := (hlive id).mpr ⟨halive, .inr hobjection⟩
    obtain ⟨id', hpos', hle', hback', halive', hend'⟩ := hagree.mpr ⟨id, hpos, hle, hback, hid⟩
    have hid' := (hlive id').mpr ⟨halive', .inl hend'⟩
    -- Both are live, so they are the proposal that the account is registered with.
    have hlatest := hregistered id a hpos hle (hid.mono (by omega)) hback
    have hlatest' := hregistered id' a hpos' hle' (hid'.mono (by omega)) hback'
    rw [← hlatest', hlatest] at hend'
    omega
  · intro hnone
    refine ⟨fun ⟨id, hpos, hle, hback, halive, hend⟩ => ?_, fun ⟨id, hpos, hle, hback, hid⟩ => ?_⟩
    · exact ⟨id, hpos, hle, hback, (hlive id).mpr ⟨halive, .inl hend⟩⟩
    · obtain ⟨halive, hopen⟩ := (hlive id).mp hid
      by_cases hend : b < (w.dao.proposals id).endBlock
      · exact ⟨id, hpos, hle, hback, halive, hend⟩
      · refine absurd ⟨id, hpos, hle, hback, halive, ?_, ?_⟩ hnone
        · omega
        · exact hopen.resolve_left hend

end Runs

theorem begins_sampleWithWindow : Begins World.sampleWithWindow where
  fresh := ⟨rfl, fun _ => rfl, World.sample_fresh.checkpoints, rfl⟩
  log := fun _ he => absurd he List.not_mem_nil
  latest := fun _ => rfl

/-- 7 proposes, and its own vote opens an objection period after block 7203. -/
def opensObjectionPeriod : List Action := [.callToken .minter .mint, .advance 2 2,
  .ofDAO .minter (.propose .sample ""), .advance 4 4, .ofDAO .minter (.castVote 1 1)]

theorem exists_objectionPeriod (b : Nat) (actions : List Action)
    (hrun : Yields (World.sampleWithWindow.run .sample (fun _ _ _ => True)
      (opensObjectionPeriod ++ actions)) (fun w => w.blockNumber = b ∧ w.dao.proposalCount = 1 ∧
        (w.dao.proposals 1).endBlock = 7203 ∧ w.dao.checkNoActiveProp
          { w.env .sample with blockNumber := b + 1, timestamp := b + 1 } 7 ≠ .ok () ∧
        (Subgraph.indexed (w.dao.log.map (.dao ⟨4, 4, 2⟩))).isSome)) :
    ∃ w s, Reachable Begins (World.NextAny .sample) w ∧ Subgraph.EventsIndexed w.dao.log s ∧
      w.blockNumber = b ∧ w.dao.proposalCount = 1 ∧ (w.dao.proposals 1).endBlock = 7203 ∧
      w.dao.checkNoActiveProp { w.env .sample with blockNumber := b + 1, timestamp := b + 1 } 7 ≠
        .ok () := by
  obtain ⟨w, hw, hb, hcount, hend, hcheck, hindexed⟩ := hrun
  obtain ⟨s, hs⟩ := Option.isSome_iff_exists.mp hindexed
  have hr : Reachable Begins (World.NextAny .sample) w :=
    ⟨_, begins_sampleWithWindow, World.run_steps (fun w a w' hstep _ => .step a trivial hstep) hw⟩
  exact ⟨w, s, hr, Subgraph.eventsIndexed_of_indexed hs, hb, hcount, hend, hcheck⟩

/-- While the vote lasts, both know that 7 may not propose. -/
theorem busyAccounts_agree_during_vote :
    ∃ w s, Reachable Begins (World.NextAny .sample) w ∧ Subgraph.EventsIndexed w.dao.log s ∧
      w.blockNumber = 4 ∧ 7 ∈ busyAccounts s 4 := by
  obtain ⟨w, s, hr, hs, hb, hcount, hend, hcheck⟩ := exists_objectionPeriod 4 [] (by decide +kernel)
  refine ⟨w, s, hr, hs, hb, ?_⟩
  refine ((busyAccounts_agree_iff hr hs hb.le).mpr ?_).mpr hcheck
  rintro ⟨id, hpos, hle, -, -, hover, -⟩
  obtain rfl : id = 1 := by omega
  omega

/-- In the objection period only the contract does. -/
theorem busyAccounts_disagree_in_objectionPeriod :
    ∃ w s, Reachable Begins (World.NextAny .sample) w ∧ Subgraph.EventsIndexed w.dao.log s ∧
      7 ∉ busyAccounts s w.blockNumber ∧
      w.dao.checkNoActiveProp { w.env .sample with
        blockNumber := w.blockNumber + 1, timestamp := w.blockNumber + 1 } 7 ≠ .ok () := by
  obtain ⟨w, s, hr, hs, hb, hcount, hend, hcheck⟩ :=
    exists_objectionPeriod 7204 [.advance 7204 7204] (by decide +kernel)
  refine ⟨w, s, hr, hs, fun hbusy => ?_, hb ▸ hcheck⟩
  obtain ⟨id, hpos, hle, -, -, hopen⟩ := (mem_busyAccounts_iff hr hs le_rfl).mp hbusy
  obtain rfl : id = 1 := by omega
  omega

end Nouns.Webapp
