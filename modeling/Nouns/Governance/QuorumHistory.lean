import Nouns.Governance.LifeCycle

/-!
# QuorumHistory — quorum parameters and the quorum of a proposal

Every setter of the quorum parameters reads the parameters back before it writes a checkpoint, so
the lookup and the checkpoints are right together.  The specification replays the calls.
-/

open Fallible Checkpoints Transition

namespace Nouns

variable {H : Type}

/-- The parameters in force at block `b`: the calls made until then, replayed from the quorum of
the first version of the DAO. -/
def paramsInForce (quorumVotesBPS : Nat) (calls : List (Nat × QuorumCall)) (b : Nat) :
    DynamicQuorumParams :=
  ((calls.filter (fun c => c.1 ≤ b)).map Prod.snd).foldl QuorumCall.apply
    ⟨quorumVotesBPS, quorumVotesBPS, 0⟩

theorem paramsInForce_append (bps : Nat) (calls : List (Nat × QuorumCall)) (now b : Nat)
    (c : QuorumCall) : paramsInForce bps (calls ++ [(now, c)]) b =
      if now ≤ b then c.apply (paramsInForce bps calls b) else paramsInForce bps calls b := by
  unfold paramsInForce
  rw [List.filter_append]
  by_cases hle : now ≤ b
  · simp [hle]
  · simp [hle]

/-- Calls in blocks up to `now` are all in force from `now` on. -/
theorem paramsInForce_of_le {bps now b : Nat} {calls : List (Nat × QuorumCall)}
    (hcalls : ∀ c ∈ calls, c.1 ≤ now) (hb : now ≤ b) :
    paramsInForce bps calls b = paramsInForce bps calls now := by
  have hall : ∀ b, now ≤ b → calls.filter (fun c => c.1 ≤ b) = calls := by
    intro b hb
    rw [List.filter_eq_self]
    intro c hc
    exact decide_eq_true (Nat.le_trans (hcalls c hc) hb)
  unfold paramsInForce
  rw [hall b hb, hall now (Nat.le_refl _)]

namespace ProposalStorage

variable {s : ProposalStorage} {now : Nat} {calls : List (Nat × QuorumCall)}

/-- The checkpoints tell of every block what the calls did until then. -/
structure Replays (s : ProposalStorage) (now : Nat) (calls : List (Nat × QuorumCall)) : Prop where
  wellFormed : WellFormed s.quorumParamsCheckpoints now
  calls_le : ∀ c ∈ calls, c.1 ≤ now
  bps : s.quorumVotesBPS < 2 ^ 16
  valueAt : ∀ b, (valueAt b s.quorumParamsCheckpoints).getD
    ⟨s.quorumVotesBPS, s.quorumVotesBPS, 0⟩ = paramsInForce s.quorumVotesBPS calls b

theorem defaultQuorumParams_eq (h : s.quorumVotesBPS < 2 ^ 16) :
    s.defaultQuorumParams = .ok ⟨s.quorumVotesBPS, s.quorumVotesBPS, 0⟩ := by
  simp only [defaultQuorumParams, safe16, revertIf, if_neg (Nat.not_le.mpr h)]
  rfl

theorem Replays.getDynamicQuorumParamsAt_eq (h : s.Replays now calls) {b : Nat}
    (hb : b < 2 ^ 32) :
    s.getDynamicQuorumParamsAt b = .ok (paramsInForce s.quorumVotesBPS calls b) := by
  rw [getDynamicQuorumParamsAt_of_lt h.wellFormed hb, ← h.valueAt b, defaultQuorumParams_eq h.bps]
  cases Checkpoints.valueAt b s.quorumParamsCheckpoints <;> rfl

/-- A setter applies its change to the parameters in force. -/
theorem Replays.call (h : s.Replays now calls) {c : QuorumCall} {params : DynamicQuorumParams}
    (hparams : s.getDynamicQuorumParamsAt now = .ok params) :
    ({ s with
      quorumParamsCheckpoints := write s.quorumParamsCheckpoints now (c.apply params) } :
      ProposalStorage).Replays now (calls ++ [(now, c)]) := by
  rw [h.getDynamicQuorumParamsAt_eq (getDynamicQuorumParamsAt_lt hparams)] at hparams
  cases hparams
  refine ⟨write_wellFormed h.wellFormed _, ?_, h.bps, ?_⟩
  · intro c' hc'
    rcases List.mem_append.mp hc' with hc' | hc'
    · exact h.calls_le c' hc'
    · rw [List.mem_singleton.mp hc']
  · intro b
    rw [valueAt_write h.wellFormed, paramsInForce_append]
    by_cases hle : now ≤ b
    · rw [if_pos hle, if_pos hle, paramsInForce_of_le h.calls_le hle]
      rfl
    · rw [if_neg hle, if_neg hle]
      exact h.valueAt b

end ProposalStorage

/-! ## Steps -/

namespace Gov

variable {d : Deployment H} {g g' : Gov H} {id : Nat}

theorem StoreStep.quorumVotesBPS_eq (h : StoreStep d g g') :
    g'.store.quorumVotesBPS = g.store.quorumVotesBPS := by
  cases h with
  | pass hstore _ _ => rw [hstore]
  | quorum _ _ hstore => rw [hstore]
  | switch _ _ hstore => rw [hstore]
  | timelocks _ _ _ hstore => rw [hstore]
  | create _ _ _ hstore => rw [hstore]
  | change _ _ _ _ hstore => rw [hstore]

/-- Only the setters of the quorum parameters write checkpoints. -/
theorem Step.quorumParamsCheckpoints_eq [DecidableEq H] {l : Label} (h : g.Step d l g')
    (hl : ∀ call, l ≠ .quorum call) :
    g'.store.quorumParamsCheckpoints = g.store.quorumParamsCheckpoints := by
  cases h with
  | token l t ht => rfl
  | advance blockNumber timestamp hidle hblock htime => rfl
  | quorum call params hparams => exact absurd rfl (hl call)
  | switch hzero => rfl
  | timelocks timelock timelockV1 => rfl
  | create p hp => rfl
  | ballot id p hp => rfl
  | queue id delay q hstate hq => rfl
  | cancel id s q hstate h₁ h₂ h₃ h₄ h₅ hq => rfl
  | veto id s q hstate hs hq => rfl
  | execute id timelock g' hstate hfork hcont => rw [hcont.same.1]; rfl
  | resume x rest g' hexec hcont => rw [hcont.same.1]; rfl
  | fork forkEndTimestamp => rfl

/-- After the block of its creation, what the quorum of a proposal is computed from stays. -/
theorem StoreStep.sameQuorum (h : StoreStep d g g') (hwf : g.Wf)
    (hid : id ≤ g.store.proposalCount)
    (hcreated : (g.store.proposals id).creationBlock < g.blockNumber) :
    SameTerms (g.store.proposals id) (g'.store.proposals id) ∧
      g'.store.getDynamicQuorumParamsAt (g.store.proposals id).creationBlock =
        g.store.getDynamicQuorumParamsAt (g.store.proposals id).creationBlock := by
  cases h with
  | pass hstore _ _ =>
    rw [hstore]
    exact ⟨.refl _, rfl⟩
  | quorum params _ hstore =>
    rw [hstore]
    exact ⟨.refl _, ProposalStorage.getDynamicQuorumParamsAt_write_of_lt hwf.checkpoints hcreated
      params⟩
  | switch _ _ hstore =>
    rw [hstore]
    exact ⟨.refl _, rfl⟩
  | timelocks _ _ _ hstore =>
    rw [hstore]
    exact ⟨.refl _, rfl⟩
  | create p _ _ hstore =>
    rw [hstore]
    simp only [Function.update_of_ne (show id ≠ g.store.proposalCount + 1 by omega)]
    exact ⟨.refl _, rfl⟩
  | change id' p _ hp hstore =>
    rw [hstore]
    by_cases heq : id = id'
    · subst heq
      simp only [Function.update_self]
      exact ⟨hp.sameTerms, rfl⟩
    · simp only [Function.update_of_ne heq]
      exact ⟨.refl _, rfl⟩

end Gov

/-! ## Runs -/

/-- The call of a quorum setter that an action makes. -/
def Action.quorumCall? : Action → Option QuorumCall
  | .callDAO _ _ (.quorum call) => some call
  | _ => none

theorem Action.quorumCall?_eq_some {a : Action} {c : QuorumCall} (h : a.quorumCall? = some c) :
    ∃ tx sender, a = .callDAO tx sender (.quorum c) := by
  unfold quorumCall? at h
  split at h
  · cases h
    exact ⟨_, _, rfl⟩
  · cases h

theorem World.label_ne_quorum {w : World H} {a : Action} (h : a.quorumCall? = none)
    (call : QuorumCall) : w.label a ≠ .quorum call := by
  intro heq
  unfold label at heq
  split at heq
  case h_4 => cases h
  case h_5 =>
    split at heq
    · cases heq
    · split at heq
      · cases heq
      · split at heq <;> cases heq
  all_goals cases heq

namespace World

variable [DecidableEq H] {d : Deployment H} {w w' : World H} {id : Nat}
  {calls : List (Nat × QuorumCall)}

/-- A run that starts without proposals and checkpoints, with the calls of quorum setters in it and
the block of each.  The first version of the DAO bounds `quorumVotesBPS`. -/
inductive QuorumRun (d : Deployment H) : List (Nat × QuorumCall) → World H → Prop
  | start {w : World H} : w.Fresh → w.dao.quorumParamsCheckpoints = [] →
      w.dao.quorumVotesBPS < 2 ^ 16 → QuorumRun d [] w
  | step {calls : List (Nat × QuorumCall)} {w w' : World H} (a : Action) : QuorumRun d calls w →
      w.step d a = .ok w' →
      QuorumRun d (calls ++ (a.quorumCall?.map (fun c => (w.blockNumber, c))).toList) w'
  | outside {calls : List (Nat × QuorumCall)} {w w' : World H} : QuorumRun d calls w →
      OutsideChange d w w' → QuorumRun d calls w'

theorem QuorumRun.reachable (h : QuorumRun d calls w) : Reachable Fresh (NextAny d) w := by
  induction h with
  | start hfresh _ _ => exact .start hfresh
  | step a _ hstep ih => exact ih.step (.step a trivial hstep)
  | outside _ hout ih => exact ih.step (.outside hout)

theorem wf_of_fresh (h : Reachable Fresh (NextAny d) w) : w.gov.Wf :=
  h.invariant (P := fun w => w.gov.Wf) (fun _ hw => hw.wf) (fun _ _ _ hw hn => hn.wf hw)

theorem sameTerms_of_steps (hsteps : Relation.ReflTransGen (NextAny d) w w')
    (hid : id ≤ w.dao.proposalCount) :
    Gov.SameTerms (w.dao.proposals id) (w'.dao.proposals id) ∧ id ≤ w'.dao.proposalCount := by
  apply steps_preserve (P := fun w' =>
    Gov.SameTerms (w.dao.proposals id) (w'.dao.proposals id) ∧ id ≤ w'.dao.proposalCount) hsteps
  · exact ⟨.refl _, hid⟩
  · rintro w₁ w₂ ⟨hterms, hle⟩ hn
    exact ⟨hterms.trans (hn.storeStep.sameTerms hle), hle.trans hn.storeStep.proposalCount_le⟩

theorem quorum_step {tx : TxContext} {sender : Account} {c : QuorumCall}
    (hstep : w.step d (.callDAO tx sender (.quorum c)) = .ok w')
    (h : w.gov.store.Replays w.blockNumber calls) :
    w'.gov.store.Replays w'.blockNumber (calls ++ [(w.blockNumber, c)]) := by
  simp only [step, callDAO, bind_eq_ok] at hstep
  obtain ⟨w₁, henter, hcall⟩ := hstep
  obtain ⟨frames, rfl, -⟩ := enter_ok henter
  obtain ⟨ds, hds, rfl⟩ := withStorage_ok hcall
  obtain ⟨params, hparams, hstore, -⟩ := StorageV3.quorumCall_ok hds
  have hreplays := h.call (c := c) hparams
  simp only [gov, hstore]
  exact hreplays

theorem QuorumRun.replays (h : QuorumRun d calls w) :
    w.gov.store.Replays w.blockNumber calls := by
  induction h with
  | @start w hfresh hnone hbps =>
    refine ⟨hfresh.checkpoints, by simp, hbps, ?_⟩
    intro b
    rw [show w.gov.store.quorumParamsCheckpoints = [] from hnone]
    rfl
  | @step calls w w' a hrun hstep ih =>
    rcases hcall : a.quorumCall? with _ | c
    · have hgov := gov_step hstep
      have hsame := hgov.quorumParamsCheckpoints_eq (label_ne_quorum hcall)
      have hbps := hgov.storeStep.quorumVotesBPS_eq
      have hblock := hgov.storeStep.blockNumber_le
      rw [Option.map_none, Option.toList_none, List.append_nil]
      refine ⟨?_, fun c hc => Nat.le_trans (ih.calls_le c hc) hblock, ?_, ?_⟩
      · rw [hsame]
        exact ih.wellFormed.mono hblock
      · rw [hbps]
        exact ih.bps
      · intro b
        rw [hsame, hbps]
        exact ih.valueAt b
    · obtain ⟨tx, sender, rfl⟩ := Action.quorumCall?_eq_some hcall
      exact quorum_step hstep ih
  | @outside calls w w' hrun hout ih =>
    have hblock : w'.blockNumber = w.blockNumber := congrArg Gov.blockNumber hout.gov_eq
    rw [hout.gov_eq, hblock]
    exact ih

theorem sameQuorum_of_steps (hr : Reachable Fresh (NextAny d) w)
    (h : Relation.ReflTransGen (NextAny d) w w') (hid : id ≤ w.dao.proposalCount)
    (hcreated : (w.dao.proposals id).creationBlock < w.blockNumber) :
    w'.dao.quorumVotes id = w.dao.quorumFor (w.dao.proposals id)
      (w'.dao.proposals id).againstVotes := by
  suffices hall : id ≤ w'.dao.proposalCount ∧ w.blockNumber ≤ w'.blockNumber ∧
      Gov.SameTerms (w.dao.proposals id) (w'.dao.proposals id) ∧
      w'.dao.getDynamicQuorumParamsAt (w.dao.proposals id).creationBlock =
        w.dao.getDynamicQuorumParamsAt (w.dao.proposals id).creationBlock by
    obtain ⟨-, -, hterms, hparams⟩ := hall
    rw [ProposalStorage.quorumVotes_eq, ProposalStorage.quorumFor, ProposalStorage.quorumFor,
      hterms.totalSupply, hterms.quorumVotes, hterms.creationBlock, hparams]
  induction h with
  | refl => exact ⟨hid, Nat.le_refl _, .refl _, rfl⟩
  | @tail w₁ w₂ hsteps hn ih =>
    obtain ⟨hid₁, hblock₁, hterms₁, hparams₁⟩ := ih
    have hstep := hn.storeStep
    have hcreated₁ : (w₁.dao.proposals id).creationBlock < w₁.blockNumber := by
      rw [hterms₁.creationBlock]
      exact Nat.lt_of_lt_of_le hcreated hblock₁
    obtain ⟨hterms, hparams⟩ := hstep.sameQuorum (wf_of_fresh (hr.steps hsteps)) hid₁ hcreated₁
    refine ⟨Nat.le_trans hid₁ hstep.proposalCount_le, Nat.le_trans hblock₁ hstep.blockNumber_le,
      hterms₁.trans hterms, ?_⟩
    rw [← hparams₁, ← hterms₁.creationBlock]
    exact hparams

/-- The lookup answers every block up to the current one with the parameters in force then.  From
the first block after its creation, the quorum of a proposal is a function of the votes against it
that no later call changes. -/
theorem quorum_params_exact (h : QuorumRun d calls w) (hnow : w.blockNumber < 2 ^ 32) :
    (∀ b ≤ w.blockNumber,
      w.dao.getDynamicQuorumParamsAt b = .ok (paramsInForce w.dao.quorumVotesBPS calls b)) ∧
    (∀ id ≤ w.dao.proposalCount, (w.dao.proposals id).creationBlock < w.blockNumber →
      ∀ w', Relation.ReflTransGen (NextAny d) w w' →
        w'.dao.quorumVotes id =
          if (w.dao.proposals id).totalSupply = 0 then .ok (w.dao.proposals id).quorumVotes
          else dynamicQuorumVotes (w'.dao.proposals id).againstVotes
            (w.dao.proposals id).totalSupply
            (paramsInForce w.dao.quorumVotesBPS calls (w.dao.proposals id).creationBlock)) := by
  have hreplays := h.replays
  refine ⟨fun b hb => hreplays.getDynamicQuorumParamsAt_eq (Nat.lt_of_le_of_lt hb hnow), ?_⟩
  intro id hid hcreated w' hsteps
  have hparams : w.dao.getDynamicQuorumParamsAt (w.dao.proposals id).creationBlock =
      .ok (paramsInForce w.dao.quorumVotesBPS calls (w.dao.proposals id).creationBlock) :=
    hreplays.getDynamicQuorumParamsAt_eq (Nat.lt_trans hcreated hnow)
  rw [sameQuorum_of_steps h.reachable hsteps hid hcreated, ProposalStorage.quorumFor, hparams]
  rfl

/-- A DAO whose admin is 1, before the first call of a quorum setter. -/
def sampleV2 : World Preimage :=
  { World.sample with
    dao := { World.sample.dao with admin := 1, quorumVotesBPS := 1000, quorumParamsCheckpoints := [] } }

/-- The admin sets the minimum in block 1; block 0 still answers with the old quorum, and a call in
block 5 sees what the first one wrote. -/
theorem quorum_params_exact_of_two_calls :
    ∃ calls w, QuorumRun .sample calls w ∧ w.blockNumber = 5 ∧
      w.dao.getDynamicQuorumParamsAt 0 = .ok ⟨1000, 1000, 0⟩ ∧
      w.dao.getDynamicQuorumParamsAt 4 = .ok ⟨300, 1000, 0⟩ ∧
      w.dao.getDynamicQuorumParamsAt 5 = .ok ⟨300, 1000, 7⟩ := by
  have hrun : Yields (sampleV2.step .sample
      (.ofDAO ⟨1, by decide⟩ (.quorum (.setMinQuorumVotesBPS 300)))) (fun w₁ =>
      Yields (w₁.step .sample (.advance 5 5)) (fun w₂ => Yields (w₂.step .sample
        (.ofDAO ⟨1, by decide⟩ (.quorum (.setQuorumCoefficient 7)))) (fun w₃ =>
        w₁.blockNumber = 1 ∧ w₂.blockNumber = 5 ∧ w₃.blockNumber = 5 ∧
          w₃.dao.quorumVotesBPS = 1000))) := by
    decide +kernel
  obtain ⟨w₁, h₁, w₂, h₂, w₃, h₃, -, hb₂, hb₃, hbps⟩ := hrun
  have hr₀ : QuorumRun .sample [] sampleV2 :=
    .start ⟨rfl, fun _ => rfl, WellFormed.nil _, rfl⟩ rfl (by decide)
  have hr := ((hr₀.step _ h₁).step _ h₂).step _ h₃
  have hexact := (quorum_params_exact hr (by omega)).1
  rw [hbps, hb₂, hb₃] at hexact
  exact ⟨_, w₃, hr, hb₃, hexact 0 (by decide), hexact 4 (by decide), hexact 5 (by decide)⟩

end World

end Nouns
