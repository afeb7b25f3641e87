import Nouns.Fork.Ballots
import Nouns.Governance.Snapshot

/-!
# Snapshot — votes on a proposal of a fork DAO

A fork DAO weighs votes at the block a proposal was created in.  Neither there nor in the original
DAO can the same Noun count twice for one proposal.
-/

open Fallible Checkpoints Transition SnapshotVoting

namespace Nouns

variable {H : Type}

/-! ## Counting -/

namespace ForkProposal

def votes (p : ForkProposal) : Nat := p.forVotes + p.againstVotes + p.abstainVotes

/-- The votes are those of the receipts. -/
def Counted (p : ForkProposal) : Prop := p.votes = ∑ a, (p.receipts a).cast.getD 0

theorem empty_counted : Counted empty := by
  simp [Counted, votes, empty, Receipt.cast]

theorem SameBallot.counted {p p' : ForkProposal} (h : SameBallot p p') (hp : p.Counted) :
    p'.Counted := by
  rw [Counted, votes, h.forVotes, h.againstVotes, h.abstainVotes, h.receipts]
  exact hp

theorem votes_countVotes (p : ForkProposal) {support : Nat} (hsupport : support ≤ 2) (n : Nat) :
    (StorageV1Fork.countVotes p support n).votes = p.votes + n := by
  rw [StorageV1Fork.countVotes_eq p hsupport]
  simp only [votes]
  split <;> split <;> split <;> omega

/-- A voter without a receipt gets one. -/
theorem Counted.vote {p p' : ForkProposal} (hp : p.Counted) {voter : Address} {support n : Nat}
    (hvoted : (p.receipts voter).hasVoted = false) (hvotes : p'.votes = p.votes + n)
    (hreceipts : p'.receipts = Function.update p.receipts voter ⟨true, support, n⟩) :
    p'.Counted := by
  have hbefore : (p.receipts voter).cast.getD 0 = 0 := by
    simp [Receipt.cast, hvoted]
  have hafter : (p'.receipts voter).cast.getD 0 = n := by
    simp [hreceipts, Receipt.cast]
  have hsum : ∑ a, (p'.receipts a).cast.getD 0 + (p.receipts voter).cast.getD 0 =
      ∑ a, (p.receipts a).cast.getD 0 + (p'.receipts voter).cast.getD 0 := by
    refine GroupSums.sum_add_of_eq_off (fun a => (p.receipts a).cast.getD 0)
      (fun a => (p'.receipts a).cast.getD 0) voter ?_
    intro a ha
    simp only [hreceipts, Function.update_of_ne ha]
  rw [hbefore, hafter, Nat.add_zero] at hsum
  rw [Counted, hvotes, hp]
  exact hsum.symm

end ForkProposal

/-! ## Steps -/

namespace StorageV1Fork

variable {env : ForkEnv H} {ds ds' : StorageV1Fork} {id : Nat}

/-- Slots that hold no proposal take no votes. -/
structure Wf (ds : StorageV1Fork) : Prop where
  fresh : ∀ id, ds.proposalCount < id → ∀ a, ((ds.proposals id).receipts a).cast = none
  zero : (ds.proposals 0).endBlock = 0
  counted : ∀ id, (ds.proposals id).Counted

theorem BallotStep.wf (h : BallotStep env ds ds') (hwf : ds.Wf) : ds'.Wf := by
  cases h with
  | same hcount hsame =>
    refine ⟨?_, ?_, fun id => (hsame id).counted (hwf.counted id)⟩
    · intro id hid a
      rw [(hsame id).receipts]
      exact hwf.fresh id (hcount ▸ hid) a
    · rw [(hsame 0).endBlock]
      exact hwf.zero
  | create p hcount hproposals hreceipts hfor hagainst habstain hcreation hstart =>
    have hnone := hwf.fresh (ds.proposalCount + 1) (Nat.lt_succ_self _)
    rw [← hreceipts] at hnone
    have hother : ∀ id, id ≠ ds.proposalCount + 1 → ds'.proposals id = ds.proposals id := by
      intro id hid
      rw [hproposals, Function.update_of_ne hid]
    refine ⟨?_, ?_, ?_⟩
    · intro id hid a
      rw [hcount] at hid
      rw [hother id (by omega)]
      exact hwf.fresh id (by omega) a
    · rw [hother 0 (Nat.succ_ne_zero _).symm]
      exact hwf.zero
    · intro id
      by_cases hid : id = ds.proposalCount + 1
      · subst hid
        rw [hproposals, Function.update_self, ForkProposal.Counted, ForkProposal.votes, hfor,
          hagainst, habstain]
        simp [hnone]
      · rw [hother id hid]
        exact hwf.counted id
  | vote id voter support votes hstate hsupport hvoted hvotes hcount hproposals =>
    have hother : ∀ id', id' ≠ id → ds'.proposals id' = ds.proposals id' := by
      intro id' hid
      rw [hproposals, Function.update_of_ne hid]
    refine ⟨?_, ?_, ?_⟩
    · intro id' hid a
      rw [hcount] at hid
      have hne : id' ≠ id := by
        rintro rfl
        exact absurd (state_le hstate) (Nat.not_le.mpr hid)
      rw [hother id' hne]
      exact hwf.fresh id' hid a
    · have hne : 0 ≠ id := by
        rintro rfl
        obtain ⟨hstart, hend⟩ := active_of_state hstate
        rw [hwf.zero] at hend
        omega
      rw [hother 0 hne]
      exact hwf.zero
    · intro id'
      by_cases hid : id' = id
      · subst hid
        rw [hproposals, Function.update_self]
        exact (hwf.counted id').vote hvoted
          (ForkProposal.votes_countVotes (ds.proposals id') hsupport votes) rfl
      · rw [hother id' hid]
        exact hwf.counted id'

/-- A receipt is as before, or was written with the votes of the creation block. -/
theorem BallotStep.cast (h : BallotStep env ds ds') {v : Address} {n : Nat}
    (hcast : ((ds'.proposals id).receipts v).cast = some n) :
    ((ds.proposals id).receipts v).cast = some n ∨ ds.state env id = .ok .Active ∧
      env.nouns.getPriorVotes env.blockNumber v (ds.proposals id).creationBlock = .ok n := by
  cases h with
  | same hcount hsame =>
    rw [(hsame id).receipts] at hcast
    exact .inl hcast
  | create p hcount hproposals hreceipts hfor hagainst habstain hcreation hstart =>
    rw [hproposals] at hcast
    by_cases hid : id = ds.proposalCount + 1
    · subst hid
      rw [Function.update_self, hreceipts] at hcast
      exact .inl hcast
    · rw [Function.update_of_ne hid] at hcast
      exact .inl hcast
  | vote id' voter support votes hstate hsupport hvoted hvotes hcount hproposals =>
    rw [hproposals] at hcast
    by_cases hid : id = id'
    · subst hid
      rw [Function.update_self] at hcast
      by_cases hv : v = voter
      · subst hv
        simp only [Function.update_self, Receipt.cast, if_true, Option.some.injEq] at hcast
        exact .inr ⟨hstate, hcast ▸ hvotes⟩
      · simp only [Function.update_of_ne hv] at hcast
        exact .inl hcast
    · rw [Function.update_of_ne hid] at hcast
      exact .inl hcast

/-- An existing proposal keeps its creation block. -/
theorem BallotStep.creationBlock_eq (h : BallotStep env ds ds') (hid : id ≤ ds.proposalCount) :
    (ds'.proposals id).creationBlock = (ds.proposals id).creationBlock := by
  cases h with
  | same hcount hsame => exact (hsame id).creationBlock
  | create p hcount hproposals hreceipts hfor hagainst habstain hcreation hstart =>
    rw [hproposals, Function.update_of_ne (by omega)]
  | vote id' voter support votes hstate hsupport hvoted hvotes hcount hproposals =>
    rw [hproposals]
    by_cases heq : id = id'
    · subst heq
      rw [Function.update_self, countVotes_eq _ hsupport]
    · rw [Function.update_of_ne heq]

theorem BallotStep.proposalCount_cases (h : BallotStep env ds ds') :
    ds'.proposalCount = ds.proposalCount ∨ ds'.proposalCount = ds.proposalCount + 1 ∧
      (ds'.proposals (ds.proposalCount + 1)).creationBlock = env.blockNumber := by
  cases h with
  | same hcount hsame => exact .inl hcount
  | create p hcount hproposals hreceipts hfor hagainst habstain hcreation hstart =>
    refine .inr ⟨hcount, ?_⟩
    rw [hproposals, Function.update_self]
    exact hcreation
  | vote id' voter support votes hstate hsupport hvoted hvotes hcount hproposals => exact .inl hcount

end StorageV1Fork

/-! ## Runs -/

namespace ForkWorld

/-- No proposals yet, and a token that comes from a run of its own. -/
structure Start (d : ForkDeployment H) (w : ForkWorld H) : Prop where
  proposalCount : w.dao.proposalCount = 0
  proposals : ∀ id, w.dao.proposals id = ForkProposal.empty
  frames : w.frames = []
  token : Reachable NounsTokenFork.Deployed (NounsTokenFork.Next d.crypto)
    ⟨w.blockNumber, w.timestamp, w.nouns⟩

theorem Start.wf {d : ForkDeployment H} {w : ForkWorld H} (h : w.Start d) : w.dao.Wf := by
  refine ⟨?_, ?_, ?_⟩
  · intro id _ a
    rw [h.proposals]
    rfl
  · rw [h.proposals]
    rfl
  · intro id
    rw [h.proposals]
    exact ForkProposal.empty_counted

variable [DecidableEq H] {d : ForkDeployment H} {w w' : ForkWorld H} {h : List (ForkWorld H)}

theorem recorded (a : Address) : Recorded (Start d) (NextAny d) ForkWorld.blockNumber
    (fun w => w.nouns.checkpoints a) where
  start := fun _ hw => (NounsTokenFork.recorded d.crypto a).wellFormed hw.token
  step := by
    intro w w' hn
    rcases Next.cases hn with hadv | ⟨hblock, -, htoken⟩
    · exact .inl ⟨hadv.blockNumber, hadv.token.writes a⟩
    · exact .inr ⟨hblock, by rw [htoken]⟩

theorem funded_of_reachable (hr : Reachable (Start d) (NextAny d) w) : w.nouns.Funded := by
  refine hr.invariant (P := fun w => w.nouns.Funded) ?_ ?_
  · intro w hw
    obtain ⟨hledger, -, hbacked⟩ := NounsTokenFork.sound_of_reachable hw.token
    exact ⟨hledger, hbacked⟩
  · intro w w' _ hfunded hn
    rcases Next.cases hn with hadv | ⟨-, -, htoken⟩
    · exact hadv.token.funded hfunded
    · rw [htoken]
      exact hfunded

theorem wf_of_reachable (hr : Reachable (Start d) (NextAny d) w) : w.dao.Wf := by
  refine hr.invariant (P := fun w => w.dao.Wf) (fun _ hw => hw.wf) ?_
  intro w w' _ hwf hn
  rcases Next.cases hn with hadv | ⟨-, hdao, -⟩
  · exact hadv.ballots.wf hwf
  · rw [hdao]
    exact hwf

/-- Every proposal was created in the course of the run. -/
theorem created_in_run (hr : Run (Start d) (NextAny d) (w :: h)) {id : Nat} (hid : 0 < id)
    (hle : id ≤ w.dao.proposalCount) :
    ∃ t ∈ w :: h, t.blockNumber ≤ (w.dao.proposals id).creationBlock := by
  generalize hl : w :: h = l at hr
  induction hr generalizing w h with
  | start hw =>
    cases hl
    rw [hw.proposalCount] at hle
    omega
  | @step w₀ w₁ h₀ hr hn ih =>
    cases hl
    rcases Next.cases hn with hadv | ⟨-, hdao, -⟩
    · by_cases hle₀ : id ≤ w₀.dao.proposalCount
      · obtain ⟨t, ht, hblock⟩ := ih hle₀ rfl
        exact ⟨t, List.mem_cons_of_mem _ ht, hadv.ballots.creationBlock_eq hle₀ ▸ hblock⟩
      · rcases hadv.ballots.proposalCount_cases with hcount | ⟨hcount, hnew⟩
        · exact absurd (hcount ▸ hle) hle₀
        · obtain rfl : id = w₀.dao.proposalCount + 1 := by omega
          exact ⟨w₀, List.mem_cons_of_mem _ List.mem_cons_self, Nat.le_of_eq hnew.symm⟩
    · rw [hdao] at hle ⊢
      obtain ⟨t, ht, hblock⟩ := ih hle rfl
      exact ⟨t, List.mem_cons_of_mem _ ht, hblock⟩

theorem weighed : Weighed (Start d) (NextAny d) ForkWorld.blockNumber
    (fun w a => w.nouns.getCurrentVotes a) (fun w id => (w.dao.proposals id).creationBlock)
    (fun w id v => ((w.dao.proposals id).receipts v).cast) where
  clock_le := by
    intro w w' hn
    rcases Next.cases hn with hadv | ⟨hblock, -, -⟩
    · exact Nat.le_of_eq hadv.blockNumber.symm
    · exact hblock
  start := by
    intro w hw id v
    rw [hw.proposals id]
    rfl
  step := by
    intro w h w' hr hn id v n hcast
    have hwf := wf_of_reachable hr.reachable
    rcases Next.cases hn with hadv | ⟨-, hdao, -⟩
    · have hsnap : id ≤ w.dao.proposalCount →
          (w'.dao.proposals id).creationBlock = (w.dao.proposals id).creationBlock :=
        hadv.ballots.creationBlock_eq
      rcases hadv.ballots.cast hcast with hold | ⟨hstate, hvotes⟩
      · refine .inl ⟨hold, hsnap ?_⟩
        by_contra hlt
        rw [hwf.fresh id (Nat.lt_of_not_le hlt) v] at hold
        cases hold
      · have hle := StorageV1Fork.state_le hstate
        have hpos : 0 < id := by
          refine Nat.pos_of_ne_zero ?_
          rintro rfl
          obtain ⟨hstart, hend⟩ := StorageV1Fork.active_of_state hstate
          rw [hwf.zero] at hend
          omega
        obtain ⟨t, ht, hblock⟩ := created_in_run hr hpos hle
        refine .inr ?_
        rw [hsnap hle]
        exact getPriorVotes_of_run (fun w => w.nouns.toToken) (recorded v) hr ht hblock hvotes
    · rw [hdao] at hcast ⊢
      exact .inl ⟨hcast, rfl⟩

end ForkWorld

/-! ## No double voting -/

/-- In every run of the DAO, an existing proposal keeps its snapshot block, and all votes on a
proposal together are no more than the Nouns there were at the end of it.  In every run of a fork
DAO, they are no more than the tokens at the end of the creation block. -/
theorem no_double_voting [DecidableEq H] (d : Deployment H) (fd : ForkDeployment H) :
    (∀ w h, Run (World.StartWithToken d) (World.NextAny d) (w :: h) → ∀ id,
      (id ≤ w.dao.proposalCount → ∀ w', Relation.ReflTransGen (World.NextAny d) w w' →
        w'.dao.proposalVoteSnapshotBlock id (w'.dao.proposals id) =
          w.dao.proposalVoteSnapshotBlock id (w.dao.proposals id)) ∧
      (w.dao.proposals id).forVotes + (w.dao.proposals id).againstVotes +
          (w.dao.proposals id).abstainVotes ≤
        lastValue World.blockNumber (fun w => w.nouns.totalSupply)
          (w.dao.proposalVoteSnapshotBlock id (w.dao.proposals id)) (w :: h)) ∧
    (∀ w h, Run (ForkWorld.Start fd) (ForkWorld.NextAny fd) (w :: h) → ∀ id,
      (w.dao.proposals id).forVotes + (w.dao.proposals id).againstVotes +
          (w.dao.proposals id).abstainVotes ≤
        lastValue ForkWorld.blockNumber (fun w => w.nouns.totalSupply)
          (w.dao.proposals id).creationBlock (w :: h)) := by
  refine ⟨?_, ?_⟩
  · intro w h hr id
    exact ⟨fun hid w' hsteps => World.snapshot_const hid hsteps, World.votes_le_supply hr id⟩
  · intro w h hr id
    have hcounted := (ForkWorld.wf_of_reachable hr.reachable).counted id
    change (w.dao.proposals id).votes ≤ _
    rw [hcounted]
    refine ForkWorld.weighed.sum_cast_le hr ?_ id
    intro t ht
    exact (ForkWorld.funded_of_reachable (hr.reachable_of_mem ht)).backed

theorem World.sample_startWithToken : World.sample.StartWithToken .sample :=
  ⟨World.sample_fresh, .start ⟨102, 8, 7, rfl⟩⟩

theorem ForkWorld.sample_start : ForkWorld.sample.Start .sample :=
  ⟨rfl, fun _ => rfl, rfl, .start ⟨202, 7, 0, 5, 0, 1, rfl⟩⟩

/-- Proposal 1 sets the switch; its own snapshot stays block 2, that of proposal 2 is its start
block.  In the fork, 7 votes on a proposal of its own. -/
theorem no_double_voting_across_switch :
    (∃ w h w', Run (World.StartWithToken .sample) (World.NextAny .sample) (w' :: h) ∧
      Relation.ReflTransGen (World.NextAny .sample) w w' ∧
      w.dao.voteSnapshotBlockSwitchProposalId = 0 ∧ w'.dao.voteSnapshotBlockSwitchProposalId = 2 ∧
      w'.dao.proposalVoteSnapshotBlock 1 (w'.dao.proposals 1) =
        w.dao.proposalVoteSnapshotBlock 1 (w.dao.proposals 1) ∧
      (w'.dao.proposals 2).forVotes = 1 ∧
      (w'.dao.proposals 2).forVotes + (w'.dao.proposals 2).againstVotes +
          (w'.dao.proposals 2).abstainVotes ≤
        lastValue World.blockNumber (fun w => w.nouns.totalSupply) 7206 (w' :: h)) ∧
    (∃ w h, Run (ForkWorld.Start .sample) (ForkWorld.NextAny .sample) (w :: h) ∧
      (w.dao.proposals 1).forVotes = 1 ∧
      (w.dao.proposals 1).forVotes + (w.dao.proposals 1).againstVotes +
          (w.dao.proposals 1).abstainVotes ≤
        lastValue ForkWorld.blockNumber (fun w => w.nouns.totalSupply) 2 (w :: h)) := by
  refine ⟨?_, ?_⟩
  · have hrun : Yields (World.sample.run .sample (fun _ _ _ => True)
        [.callToken ⟨7, by decide⟩ .mint, .advance 2 2,
          .ofDAO ⟨7, by decide⟩ (.propose
            ⟨[100], [0], ["_setVoteSnapshotBlockSwitchProposalId()"], [[]]⟩ ""),
          .advance 4 4, .ofDAO ⟨7, by decide⟩ (.castVote 1 1)]) (fun w =>
        w.dao.voteSnapshotBlockSwitchProposalId = 0 ∧ 1 ≤ w.dao.proposalCount ∧
        Yields (w.run .sample (fun _ _ _ => True)
          [.advance 7204 100000, .ofDAO ⟨5, by decide⟩ (.queue 1), .advance 7205 272800,
            .ofDAO ⟨5, by decide⟩ (.execute 1),
            .ofDAO ⟨102, by decide⟩ .setVoteSnapshotBlockSwitchProposalId, .return_ 0 0,
            .ofDAO ⟨8, by decide⟩ (.propose .sample ""), .advance 7207 272824,
            .ofDAO ⟨8, by decide⟩ (.castVote 2 1)]) (fun w' =>
          w'.dao.voteSnapshotBlockSwitchProposalId = 2 ∧ (w'.dao.proposals 2).forVotes = 1 ∧
            w'.dao.proposalVoteSnapshotBlock 2 (w'.dao.proposals 2) = 7206)) := by
      decide +kernel
    obtain ⟨w, hw, hswitch, hcount, w', hw', hswitch', hvotes, hsnap⟩ := hrun
    have hsteps : Relation.ReflTransGen (World.NextAny .sample) World.sample w :=
      World.run_steps (fun w a w' hstep _ => .step a trivial hstep) hw
    have hsteps' : Relation.ReflTransGen (World.NextAny .sample) w w' :=
      World.run_steps (fun w a w' hstep _ => .step a trivial hstep) hw'
    obtain ⟨h, hr⟩ := Reachable.exists_run ⟨World.sample, World.sample_startWithToken, hsteps⟩
    obtain ⟨h', hr'⟩ := (hr.reachable.steps hsteps').exists_run
    have hdao := (no_double_voting .sample .sample).1
    exact ⟨w, h', w', hr', hsteps', hswitch, hswitch', (hdao w h hr 1).1 hcount w' hsteps', hvotes,
      hsnap ▸ (hdao w' h' hr' 2).2⟩
  · have hrun : Yields (ForkWorld.sample.run .sample
        [.callToken ⟨7, by decide⟩ .mint, .advance 2 2,
          .callDAO ⟨7, by decide⟩ (.propose .sample ""), .advance 4 4,
          .callDAO ⟨7, by decide⟩ (.castVote 1 1)]) (fun w =>
        (w.dao.proposals 1).forVotes = 1 ∧ (w.dao.proposals 1).creationBlock = 2) := by
      decide +kernel
    obtain ⟨w, hw, hvotes, hcreation⟩ := hrun
    obtain ⟨h, hr⟩ := Reachable.exists_run
      ⟨ForkWorld.sample, ForkWorld.sample_start, ForkWorld.run_steps hw⟩
    exact ⟨w, h, hr, hvotes, hcreation ▸ (no_double_voting .sample .sample).2 w h hr 1⟩

end Nouns
