import Nouns.Governance.Tally
import Nouns.Token.Histories
import Nouns.Lib.SnapshotVoting

/-!
# Snapshot — the block at which a proposal's votes are weighed

The switch from the creation block to the start block is set to an id that no proposal has yet, so
it moves the snapshot of none.  Every vote weighs what its voter had at the end of the snapshot
block.
-/

open Fallible Checkpoints Transition SnapshotVoting

namespace Nouns

variable {H : Type}

/-- The votes on a receipt that was written. -/
def Receipt.cast (r : Receipt) : Option Nat := if r.hasVoted then some r.votes else none

theorem Proposal.Tallied.sum_le {p : Proposal} (h : p.Tallied) :
    p.forVotes + p.againstVotes + p.abstainVotes ≤ ∑ a, (p.receipts a).cast.getD 0 := by
  rw [h.forVotes, h.againstVotes, h.abstainVotes]
  simp only [votesCast, GroupSums.groupSum]
  rw [← Finset.sum_add_distrib, ← Finset.sum_add_distrib]
  refine Finset.sum_le_sum ?_
  intro a _
  -- A receipt is on one side at most.
  cases hvoted : (p.receipts a).hasVoted with
  | false => simp [Receipt.side, hvoted]
  | true =>
    simp only [Receipt.side, Receipt.cast, hvoted, if_true, Option.getD_some, Option.some.injEq]
    split <;> split <;> split <;> omega

namespace Gov

variable {d : Deployment H} {g g' : Gov H} {id : Nat} {l : Label}

def snapshot (g : Gov H) (id : Nat) : Nat :=
  g.store.proposalVoteSnapshotBlock id (g.store.proposals id)

/-! ## Steps -/

/-- The token changes in the current block, or time passes. -/
theorem Step.token_cases [DecidableEq H] (h : g.Step d l g') :
    (g'.blockNumber = g.blockNumber ∧ Token.Changes True g.blockNumber g.nouns g'.nouns) ∨
    (g.blockNumber ≤ g'.blockNumber ∧ g'.nouns = g.nouns) := by
  cases h with
  | token l t ht => exact .inl ⟨rfl, ht⟩
  | advance blockNumber timestamp hidle hblock htime => exact .inr ⟨hblock, rfl⟩
  | execute id timelock g' _ _ hcont =>
    cases hcont with
    | next => exact .inr ⟨Nat.le_refl _, rfl⟩
    | done => exact .inr ⟨Nat.le_refl _, rfl⟩
  | resume x rest g' _ hcont =>
    cases hcont with
    | next => exact .inr ⟨Nat.le_refl _, rfl⟩
    | done => exact .inr ⟨Nat.le_refl _, rfl⟩
  | _ => exact .inr ⟨Nat.le_refl _, rfl⟩

/-- An existing proposal keeps its snapshot block, also when the switch is set. -/
theorem StoreStep.snapshot_eq (h : StoreStep d g g') (hid : id ≤ g.store.proposalCount) :
    g'.snapshot id = g.snapshot id := by
  have hterms := h.sameTerms hid
  have hsame : g'.store.voteSnapshotBlockSwitchProposalId =
      g.store.voteSnapshotBlockSwitchProposalId → g'.snapshot id = g.snapshot id := by
    intro hswitch
    simp only [snapshot, ProposalStorage.proposalVoteSnapshotBlock, hswitch, hterms.creationBlock,
      hterms.startBlock]
  cases h with
  | pass hstore _ _ => exact hsame (by rw [hstore])
  | quorum _ _ hstore => exact hsame (by rw [hstore])
  | timelocks _ _ _ hstore => exact hsame (by rw [hstore])
  | create p _ _ hstore => exact hsame (by rw [hstore])
  | change id' p _ _ hstore => exact hsame (by rw [hstore])
  | switch _ hzero hstore =>
    -- Before the switch every snapshot is the creation block, after it those of smaller ids.
    have hswitch : g'.store.voteSnapshotBlockSwitchProposalId = g.store.proposalCount + 1 := by
      rw [hstore]
    simp only [snapshot, ProposalStorage.proposalVoteSnapshotBlock, hswitch, hzero,
      hterms.creationBlock, Nat.lt_succ_of_le hid, true_or, or_true, if_true]

/-- A receipt is as before, or was written with the votes of the snapshot block. -/
theorem StoreStep.cast (h : StoreStep d g g') {v : Address} {n : Nat}
    (hcast : ((g'.store.proposals id).receipts v).cast = some n) :
    ((g.store.proposals id).receipts v).cast = some n ∨
    (g.state d id = .ok .Active ∨ g.state d id = .ok .ObjectionPeriod) ∧
      g.nouns.getPriorVotes g.blockNumber v (g.snapshot id) = .ok n := by
  have hnew : ∀ voter receipt,
      (Function.update (g.store.proposals id).receipts voter receipt v).cast = some n →
      ((g.store.proposals id).receipts v).cast = some n ∨ v = voter ∧ receipt.cast = some n := by
    intro voter receipt hr
    by_cases hv : v = voter
    · subst hv
      rw [Function.update_self] at hr
      exact .inr ⟨rfl, hr⟩
    · rw [Function.update_of_ne hv] at hr
      exact .inl hr
  refine h.proposal (P := fun p => (p.receipts v).cast = some n →
    ((g.store.proposals id).receipts v).cast = some n ∨
    (g.state d id = .ok .Active ∨ g.state d id = .ok .ObjectionPeriod) ∧
      g.nouns.getPriorVotes g.blockNumber v (g.snapshot id) = .ok n) .inl ?_ ?_ hcast
  · intro p hp hc
    cases hp with
    | ballot p hp =>
      cases hp with
      | update txs hstate htxs => exact .inl hc
      | vote voter support votes o hstate hsupport hvoted hvotes ho =>
        rw [StorageV3.countVotes_eq _ hsupport] at hc
        rcases hnew voter _ hc with hold | ⟨rfl, hreceipt⟩
        · exact .inl hold
        · cases Option.some.inj hreceipt
          exact .inr ⟨.inl hstate, hvotes⟩
      | object voter votes hstate hvoted hvotes =>
        rw [StorageV3.countVotes_eq _ (Nat.zero_le 2)] at hc
        rcases hnew voter _ hc with hold | ⟨rfl, hreceipt⟩
        · exact .inl hold
        · cases Option.some.inj hreceipt
          exact .inr ⟨.inr hstate, hvotes⟩
    | queue delay hstate => exact .inl hc
    | cancel s hstate h₁ h₂ h₃ h₄ h₅ => exact .inl hc
    | veto s hstate hs => exact .inl hc
    | execute hstate => exact .inl hc
  · rintro p rfl hcreated hc
    obtain ⟨_, _, _, _, _, _, _, _, _, rfl⟩ := hcreated.content
    exact .inl hc

/-- Only proposals that exist take votes. -/
theorem Wf.votable (hwf : g.Wf)
    (hstate : g.state d id = .ok .Active ∨ g.state d id = .ok .ObjectionPeriod) :
    0 < id ∧ id ≤ g.store.proposalCount := by
  have hle : id ≤ g.store.proposalCount := by
    rcases hstate with hstate | hstate
    · exact ProposalStorage.stateInternal_le hstate
    · exact ProposalStorage.stateInternal_le hstate
  refine ⟨Nat.pos_of_ne_zero ?_, hle⟩
  rintro rfl
  obtain ⟨hend, hobjection, -⟩ := hwf.zero
  rcases hstate with hstate | hstate
  · obtain ⟨b, -, hin⟩ := hwf.isIn hstate
    cases hin with
    | active _ _ hstart hle => exact absurd (hend ▸ hle) (Nat.not_le.mpr (Nat.zero_lt_of_lt hstart))
  · obtain ⟨b, -, hin⟩ := hwf.isIn hstate
    cases hin with
    | objectionPeriod _ _ hstart _ hle =>
      exact absurd (hobjection ▸ hle) (Nat.not_le.mpr (Nat.zero_lt_of_lt hstart))

theorem Wf.creationBlock_le_snapshot (hwf : g.Wf) (id : Nat) :
    (g.store.proposals id).creationBlock ≤ g.snapshot id := by
  have htimeline := hwf.timeline id
  simp only [snapshot, ProposalStorage.proposalVoteSnapshotBlock]
  split
  · exact Nat.le_refl _
  · exact Nat.le_trans htimeline.update htimeline.start

end Gov

/-! ## Runs -/

namespace World

/-- No proposals yet, and a token that comes from a run of its own. -/
structure StartWithToken (d : Deployment H) (w : World H) : Prop where
  fresh : w.Fresh
  token : Reachable NounsToken.Deployed (NounsToken.Next d.crypto (fun _ _ => True))
    ⟨w.blockNumber, w.timestamp, w.nouns⟩

variable [DecidableEq H] {d : Deployment H} {w w' : World H} {h : List (World H)}

theorem Next.token_cases {admits : World H → Action → Prop} (hn : Next d admits w w') :
    (w'.blockNumber = w.blockNumber ∧
      Token.Changes True w.blockNumber w.nouns.toToken w'.nouns.toToken) ∨
    (w.blockNumber ≤ w'.blockNumber ∧ w'.nouns.toToken = w.nouns.toToken) := by
  obtain ⟨l, hstep⟩ := hn.exists_gov_step
  exact hstep.token_cases

theorem recorded (a : Address) : Recorded (StartWithToken d) (NextAny d) World.blockNumber
    (fun w => w.nouns.checkpoints a) where
  start := fun _ hw => (NounsToken.recorded d.crypto _ a).wellFormed hw.token
  step := by
    intro w w' hn
    rcases Next.token_cases hn with ⟨hblock, hchanges⟩ | ⟨hblock, hsame⟩
    · exact .inl ⟨hblock, hchanges.writes a⟩
    · exact .inr ⟨hblock, by rw [hsame]⟩

theorem funded_of_reachable (hr : Reachable (StartWithToken d) (NextAny d) w) :
    w.nouns.Funded := by
  refine hr.invariant (P := fun w => w.nouns.Funded) ?_ ?_
  · exact fun _ hw => NounsToken.funded_of_reachable hw.token
  · intro w w' _ hfunded hn
    rcases Next.token_cases hn with ⟨-, hchanges⟩ | ⟨-, hsame⟩
    · exact hchanges.funded hfunded
    · rw [hsame]
      exact hfunded

theorem wf_of_start (hr : Reachable (StartWithToken d) (NextAny d) w) : w.gov.Wf :=
  hr.invariant (P := fun w => w.gov.Wf) (fun _ hw => hw.fresh.wf) (fun _ _ _ hwf hn => hn.wf hwf)

/-- Every proposal was created in the course of the run. -/
theorem created_in_run (hr : Run (StartWithToken d) (NextAny d) (w :: h)) {id : Nat} (hid : 0 < id)
    (hle : id ≤ w.dao.proposalCount) :
    ∃ t ∈ w :: h, t.blockNumber ≤ (w.dao.proposals id).creationBlock := by
  generalize hl : w :: h = l at hr
  induction hr generalizing w h with
  | start hw =>
    cases hl
    rw [hw.fresh.proposalCount] at hle
    omega
  | @step w₀ w₁ h₀ hr hn ih =>
    cases hl
    have hstep := Next.storeStep hn
    have hold : id ≤ w₀.dao.proposalCount → ∃ t ∈ w₁ :: w₀ :: h₀,
        t.blockNumber ≤ (w₁.dao.proposals id).creationBlock := by
      intro hle₀
      obtain ⟨t, ht, hblock⟩ := ih hle₀ rfl
      refine ⟨t, List.mem_cons_of_mem _ ht, ?_⟩
      rw [show (w₁.dao.proposals id).creationBlock = _ from (hstep.sameTerms hle₀).creationBlock]
      exact hblock
    rcases hstep.proposalCount_cases with hsame | ⟨hcount, hcreated⟩
    · exact hold (hsame ▸ hle)
    · by_cases hnew : id = w₀.dao.proposalCount + 1
      · subst hnew
        exact ⟨w₀, List.mem_cons_of_mem _ List.mem_cons_self, Nat.le_of_eq hcreated.symm⟩
      · change w₁.dao.proposalCount = w₀.dao.proposalCount + 1 at hcount
        exact hold (by omega)

theorem weighed : Weighed (StartWithToken d) (NextAny d) World.blockNumber
    (fun w a => w.nouns.getCurrentVotes a) (fun w id => w.gov.snapshot id)
    (fun w id v => ((w.dao.proposals id).receipts v).cast) where
  clock_le := fun _ _ hn => hn.storeStep.blockNumber_le
  start := by
    intro w hw id v
    rw [hw.fresh.proposals id]
    rfl
  step := by
    intro w h w' hr hn id v n hcast
    have hwf := wf_of_start hr.reachable
    have hstep := Next.storeStep hn
    rcases hstep.cast hcast with hold | ⟨hstate, hvotes⟩
    · refine .inl ⟨hold, hstep.snapshot_eq ?_⟩
      -- Slots above the count are empty.
      by_contra hlt
      rw [hwf.fresh id (Nat.lt_of_not_le hlt)] at hold
      cases hold
    · obtain ⟨hid, hle⟩ := hwf.votable hstate
      obtain ⟨t, ht, hblock⟩ := created_in_run hr hid hle
      refine .inr ?_
      rw [hstep.snapshot_eq hle]
      exact getPriorVotes_of_run (fun w => w.nouns.toToken) (recorded v) hr ht
        (Nat.le_trans hblock (hwf.creationBlock_le_snapshot id)) hvotes

theorem snapshot_const {id : Nat} (hw : id ≤ w.dao.proposalCount)
    (hsteps : Relation.ReflTransGen (NextAny d) w w') : w'.gov.snapshot id = w.gov.snapshot id := by
  have hkept : id ≤ w'.dao.proposalCount ∧ w'.gov.snapshot id = w.gov.snapshot id := by
    refine steps_preserve (P := fun w' => id ≤ w'.dao.proposalCount ∧
      w'.gov.snapshot id = w.gov.snapshot id) hsteps ⟨hw, rfl⟩ ?_
    rintro w₁ w₂ ⟨hle, hsame⟩ hn
    have hstep := Next.storeStep hn
    exact ⟨Nat.le_trans hle hstep.proposalCount_le, (hstep.snapshot_eq hle).trans hsame⟩
  exact hkept.2

/-- All votes on a proposal together are no more than the Nouns there were. -/
theorem votes_le_supply (hr : Run (StartWithToken d) (NextAny d) (w :: h)) (id : Nat) :
    (w.dao.proposals id).forVotes + (w.dao.proposals id).againstVotes +
      (w.dao.proposals id).abstainVotes ≤
      lastValue World.blockNumber (fun w => w.nouns.totalSupply) (w.gov.snapshot id) (w :: h) := by
  have htallied : (w.dao.proposals id).Tallied := by
    refine hr.reachable.invariant (P := fun w => (w.dao.proposals id).Tallied) ?_ ?_
    · intro w hw
      rw [hw.fresh.proposals id]
      exact Proposal.empty_tallied
    · exact fun _ _ _ ht hn => (Next.storeStep hn).tallied ht
  refine Nat.le_trans htallied.sum_le (weighed.sum_cast_le hr ?_ id)
  intro t ht
  exact (funded_of_reachable (hr.reachable_of_mem ht)).backed

end World

end Nouns
