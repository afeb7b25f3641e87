import Nouns.Governance.QuorumHistory

/-!
# QuorumBounds — the range of the quorum

The four setters of the quorum parameters check different combinations of the new values and the
ones in force, read back from the checkpoints.  Together they keep every checkpoint in bounds, and
the quorum of a proposal between the two fractions of its supply.
-/

open Fallible Checkpoints Transition

namespace Nouns

variable {H : Type}

/-! ## The quorum as a number -/

structure DynamicQuorumParams.InBounds (params : DynamicQuorumParams) : Prop where
  min_ge : 200 ≤ params.minQuorumVotesBPS
  min_le : params.minQuorumVotesBPS ≤ 2000
  min_le_max : params.minQuorumVotesBPS ≤ params.maxQuorumVotesBPS
  max_le : params.maxQuorumVotesBPS ≤ 6000

/-- The basis points that `dynamicQuorumVotes` arrives at. -/
def quorumBPS (againstVotes totalSupply : Nat) (params : DynamicQuorumParams) : Nat :=
  min params.maxQuorumVotesBPS (params.minQuorumVotesBPS +
    params.quorumCoefficient * (10000 * againstVotes / totalSupply) / 1000000)

/-- No product of `dynamicQuorumVotes` exceeds a word. -/
structure QuorumFits (againstVotes totalSupply : Nat) (params : DynamicQuorumParams) : Prop where
  against : 10000 * againstVotes < 2 ^ 256
  adjustment : params.quorumCoefficient * (10000 * againstVotes / totalSupply) < 2 ^ 256
  quorum : totalSupply * params.maxQuorumVotesBPS < 2 ^ 256

section Numbers

variable {againstVotes totalSupply votes : Nat} {params : DynamicQuorumParams}

theorem dynamicQuorumVotesChecked_ok
    (h : dynamicQuorumVotesChecked againstVotes totalSupply params = .ok votes) :
    votes = totalSupply * quorumBPS againstVotes totalSupply params / 10000 := by
  have hvotes := dynamicQuorumVotes_of_checked h
  simp only [dynamicQuorumVotes, bind_eq_ok, require_eq_ok, pure_eq_ok] at hvotes
  obtain ⟨_, -, rfl⟩ := hvotes
  rfl

theorem QuorumFits.succeeds (h : QuorumFits againstVotes totalSupply params)
    (hsupply : totalSupply ≠ 0) (hmin : params.minQuorumVotesBPS ≤ 2000) :
    ∃ votes, dynamicQuorumVotesChecked againstVotes totalSupply params = .ok votes := by
  have hadjusted : params.minQuorumVotesBPS +
      params.quorumCoefficient * (10000 * againstVotes / totalSupply) / 1000000 < 2 ^ 256 := by
    have hproduct := h.adjustment
    omega
  have hquorum : totalSupply * quorumBPS againstVotes totalSupply params < 2 ^ 256 :=
    Nat.lt_of_le_of_lt (Nat.mul_le_mul_left _ (Nat.min_le_left _ _)) h.quorum
  simp only [dynamicQuorumVotesChecked, bps2UintChecked, bind_eq_ok, checked_eq_ok, require_eq_ok,
    pure_eq_ok]
  exact ⟨_, _, ⟨h.against, rfl⟩, (), hsupply, _, ⟨h.adjustment, rfl⟩, _, ⟨hadjusted, rfl⟩, _,
    ⟨hquorum, rfl⟩, rfl⟩

theorem quorumBPS_ge (h : params.InBounds) :
    params.minQuorumVotesBPS ≤ quorumBPS againstVotes totalSupply params :=
  Nat.le_min.mpr ⟨h.min_le_max, Nat.le_add_right _ _⟩

theorem quorumBPS_mono {againstVotes' : Nat} (hle : againstVotes ≤ againstVotes') :
    quorumBPS againstVotes totalSupply params ≤ quorumBPS againstVotes' totalSupply params := by
  have hbps : 10000 * againstVotes / totalSupply ≤ 10000 * againstVotes' / totalSupply :=
    Nat.div_le_div_right (Nat.mul_le_mul_left _ hle)
  have hadjustment : params.quorumCoefficient * (10000 * againstVotes / totalSupply) / 1000000 ≤
      params.quorumCoefficient * (10000 * againstVotes' / totalSupply) / 1000000 :=
    Nat.div_le_div_right (Nat.mul_le_mul_left _ hbps)
  unfold quorumBPS
  omega

/-- The quorum lies between the two fractions of the supply, and below 60% of it. -/
structure QuorumInRange (totalSupply : Nat) (params : DynamicQuorumParams) (votes : Nat) :
    Prop where
  ge : totalSupply * params.minQuorumVotesBPS / 10000 ≤ votes
  le : votes ≤ totalSupply * params.maxQuorumVotesBPS / 10000
  le_sixty_percent : 10 * votes ≤ 6 * totalSupply

theorem quorumInRange (h : params.InBounds) : QuorumInRange totalSupply params
    (totalSupply * quorumBPS againstVotes totalSupply params / 10000) := by
  have hmax : quorumBPS againstVotes totalSupply params ≤ params.maxQuorumVotesBPS :=
    Nat.min_le_left _ _
  refine ⟨?_, ?_, ?_⟩
  · exact Nat.div_le_div_right (Nat.mul_le_mul_left _ (quorumBPS_ge h))
  · exact Nat.div_le_div_right (Nat.mul_le_mul_left _ hmax)
  · have hbps : totalSupply * quorumBPS againstVotes totalSupply params ≤ totalSupply * 6000 :=
      Nat.mul_le_mul_left _ (Nat.le_trans hmax h.max_le)
    omega

end Numbers

namespace ProposalStorage

variable {s : ProposalStorage} {id : Nat} {params : DynamicQuorumParams}

theorem quorumVotesChecked_eq (params : DynamicQuorumParams)
    (hsupply : (s.proposals id).totalSupply ≠ 0)
    (hparams : s.getDynamicQuorumParamsAt (s.proposals id).creationBlock = .ok params) :
    s.quorumVotesChecked id = dynamicQuorumVotesChecked (s.proposals id).againstVotes
      (s.proposals id).totalSupply params := by
  rw [quorumVotesChecked, if_neg hsupply, hparams]
  rfl

theorem Wf.getDynamicQuorumParamsAt_eq {now block : Nat} (h : s.Wf now) (hlt : block < 2 ^ 32)
    (hvalue : valueAt block s.quorumParamsCheckpoints = some params) :
    s.getDynamicQuorumParamsAt block = .ok params := by
  rw [getDynamicQuorumParamsAt_of_lt h.checkpoints hlt, hvalue]
  rfl

end ProposalStorage

/-! ## Setters -/

namespace StorageV3

variable {ds ds' : StorageV3 H} {sender : Address} {now : Nat} {params : DynamicQuorumParams}

theorem setDynamicQuorumParams_inBounds {newMin newMax newCoefficient : Nat}
    (h : ds.setDynamicQuorumParams sender now newMin newMax newCoefficient = .ok ds') :
    DynamicQuorumParams.InBounds ⟨newMin, newMax, newCoefficient⟩ := by
  simp only [setDynamicQuorumParams, bind_eq_ok, revertIf_eq_ok, not_or, Nat.not_lt] at h
  obtain ⟨_, -, _, ⟨hlower, hupper⟩, _, hmax, _, hle, -⟩ := h
  exact ⟨hlower, hupper, hle, hmax⟩

/-- A setter that is given parameters in bounds asks for parameters in bounds. -/
theorem quorumCall_inBounds {c : QuorumCall} (h : ds.quorumCall sender now c = .ok ds')
    (hparams : ds.getDynamicQuorumParamsAt now = .ok params) (hb : params.InBounds) :
    (c.apply params).InBounds := by
  cases c with
  | setMinQuorumVotesBPS newMin =>
    simp only [quorumCall, setMinQuorumVotesBPS, hparams, bind_eq_ok, require_eq_ok,
      Except.ok.injEq] at h
    obtain ⟨_, -, _, rfl, _, ⟨hlower, hupper⟩, _, hmax, -⟩ := h
    exact ⟨hlower, hupper, hmax, hb.max_le⟩
  | setMaxQuorumVotesBPS newMax =>
    simp only [quorumCall, setMaxQuorumVotesBPS, hparams, bind_eq_ok, require_eq_ok,
      Except.ok.injEq] at h
    obtain ⟨_, -, _, rfl, _, hupper, _, hmin, -⟩ := h
    exact ⟨hb.min_ge, hb.min_le, hmin, hupper⟩
  | setQuorumCoefficient newCoefficient => exact ⟨hb.min_ge, hb.min_le, hb.min_le_max, hb.max_le⟩
  | setDynamicQuorumParams newMin newMax newCoefficient => exact setDynamicQuorumParams_inBounds h

theorem deploy_inBounds {timelock nouns forkEscrow forkDAODeployer vetoer admin : Address}
    {daoParams : NounsDAOParams} (h : deploy sender now timelock nouns forkEscrow forkDAODeployer
      vetoer admin daoParams params = .ok ds) : params.InBounds := by
  simp only [deploy, initializeBy, bind_eq_ok] at h
  obtain ⟨_, ⟨_, -, _, -, _, -, _, -, ds₁, -, ds₂, -, ds₃, -, ds₄, hquorum, -⟩, -⟩ := h
  exact setDynamicQuorumParams_inBounds hquorum

end StorageV3

/-! ## Runs -/

namespace World

variable {d : Deployment H} {w w' : World H}

/-- The DAO was deployed and initialized in this block, and no call is in progress. -/
structure Deployed (w : World H) : Prop where
  dao : ∃ sender timelock nouns forkEscrow forkDAODeployer vetoer admin daoParams
    dynamicQuorumParams, StorageV3.deploy sender w.blockNumber timelock nouns forkEscrow
      forkDAODeployer vetoer admin daoParams dynamicQuorumParams = .ok w.dao
  frames : w.frames = []

theorem Deployed.fresh (h : w.Deployed) : w.Fresh := by
  obtain ⟨⟨_, _, _, _, _, _, _, _, _, hdao⟩, hframes⟩ := h
  exact fresh_of_deploy hdao hframes

/-- Every checkpoint is in bounds, and the current block and the creation of every proposal come
after the first one. -/
structure QuorumBounded (w : World H) : Prop where
  inBounds : ∀ cp ∈ w.dao.quorumParamsCheckpoints, cp.value.InBounds
  now : Covers w.dao.quorumParamsCheckpoints w.blockNumber
  created : ∀ id, 0 < id → id ≤ w.dao.proposalCount →
    Covers w.dao.quorumParamsCheckpoints (w.dao.proposals id).creationBlock

theorem Deployed.quorumBounded (h : w.Deployed) : w.QuorumBounded := by
  obtain ⟨⟨_, _, _, _, _, _, _, _, params, hdao⟩, -⟩ := h
  obtain ⟨-, hcount, hcheckpoints⟩ := StorageV3.deploy_ok hdao
  have hb := StorageV3.deploy_inBounds hdao
  refine ⟨?_, ?_, ?_⟩
  · intro cp hcp
    rw [hcheckpoints, List.mem_singleton] at hcp
    rw [hcp]
    exact hb
  · rw [hcheckpoints]
    exact ⟨_, List.mem_singleton.mpr rfl, Nat.le_refl _⟩
  · intro id hpos hid
    omega

section Steps

/-- A step that leaves the checkpoints alone. -/
theorem QuorumBounded.of_eq (h : w.QuorumBounded) (hstep : Gov.StoreStep d w.gov w'.gov)
    (hsame : w'.dao.quorumParamsCheckpoints = w.dao.quorumParamsCheckpoints) :
    w'.QuorumBounded := by
  have hblock : w.blockNumber ≤ w'.blockNumber := hstep.blockNumber_le
  refine ⟨hsame ▸ h.inBounds, hsame ▸ h.now.mono hblock, ?_⟩
  intro id hpos hid
  rw [hsame]
  by_cases hold : id ≤ w.dao.proposalCount
  · have hterms := hstep.sameTerms hold
    rw [show (w'.dao.proposals id).creationBlock = _ from hterms.creationBlock]
    exact h.created id hpos hold
  · -- A proposal of this step is created in the current block.
    rcases hstep.proposalCount_cases with hcount | ⟨hcount, hcreation⟩
    · exact absurd (hcount ▸ hid : id ≤ w.dao.proposalCount) hold
    · have hnew : id = w.dao.proposalCount + 1 := by
        have hle : id ≤ w.dao.proposalCount + 1 := hcount ▸ hid
        omega
      rw [hnew, show (w'.dao.proposals (w.dao.proposalCount + 1)).creationBlock = _ from hcreation]
      exact h.now

theorem QuorumBounded.quorum (h : w.QuorumBounded) (hwf : w.gov.Wf) {sender : Account}
    {c : QuorumCall} {ds : StorageV3 H} (hcall : w.dao.quorumCall sender w.blockNumber c = .ok ds)
    {frames : List Frame} : ({ w with dao := ds, frames } : World H).QuorumBounded := by
  obtain ⟨params, hparams, hstore, -⟩ := StorageV3.quorumCall_ok hcall
  obtain ⟨cp, hcp, hvalue⟩ := h.now.valueAt
  have hlookup : w.dao.getDynamicQuorumParamsAt w.blockNumber = .ok cp.value :=
    hwf.getDynamicQuorumParamsAt_eq (ProposalStorage.getDynamicQuorumParamsAt_lt hparams) hvalue
  rw [hparams, Except.ok.injEq] at hlookup
  have hb : params.InBounds := hlookup ▸ h.inBounds cp hcp
  have hcps : ds.quorumParamsCheckpoints =
      write w.dao.quorumParamsCheckpoints w.blockNumber (c.apply params) := by
    rw [hstore]
  have hcount : ds.proposalCount = w.dao.proposalCount := by rw [hstore]
  have hproposals : ds.proposals = w.dao.proposals := by rw [hstore]
  refine ⟨?_, ?_, ?_⟩
  · intro cp' hcp'
    rw [hcps] at hcp'
    rcases mem_write hcp' with hold | rfl
    · exact h.inBounds cp' hold
    · exact StorageV3.quorumCall_inBounds hcall hparams hb
  · rw [hcps]
    exact h.now.write _ _
  · intro id hpos hid
    rw [hcps, hproposals]
    exact (h.created id hpos (hcount ▸ hid)).write _ _

theorem quorumBounded_of_reachable [DecidableEq H] (h : Reachable Deployed (NextAny d) w) : w.QuorumBounded := by
  refine h.invariant (P := fun w => w.QuorumBounded) (fun w hw => hw.quorumBounded) ?_
  intro w w' hr hbounded hn
  have hwf : w.gov.Wf := wf_of_fresh (hr.mono (fun _ hw => hw.fresh) (fun _ _ hn => hn))
  cases hn with
  | step a _ hstep =>
    rcases hcall : a.quorumCall? with _ | c
    · have hgov := gov_step hstep
      exact hbounded.of_eq hgov.storeStep (hgov.quorumParamsCheckpoints_eq (label_ne_quorum hcall))
    · obtain ⟨tx, sender, rfl⟩ := Action.quorumCall?_eq_some hcall
      simp only [step, callDAO, bind_eq_ok] at hstep
      obtain ⟨w₁, henter, hstep⟩ := hstep
      obtain ⟨frames, rfl, -⟩ := enter_ok henter
      obtain ⟨ds, hds, rfl⟩ := withStorage_ok hstep
      exact hbounded.quorum hwf hds
  | outside hout =>
    have hgov : w'.gov = w.gov := hout.gov_eq
    refine hbounded.of_eq (d := d) (.pass ?_ ?_ ?_) ?_
    · rw [hgov]
    · rw [hgov]
    · rw [hgov]
    · exact congrArg (fun g => g.store.quorumParamsCheckpoints) hgov

end Steps

/-- The quorum of proposal `id`, if it had these votes against it. -/
def quorumVotesWith (w : World H) (id againstVotes : Nat) : Tx Nat :=
  (w.dao.setProposal id { w.dao.proposals id with againstVotes }).quorumVotesChecked id

theorem quorumVotesWith_eq {id : Nat} {params : DynamicQuorumParams}
    (hsupply : (w.dao.proposals id).totalSupply ≠ 0)
    (hparams : w.dao.getDynamicQuorumParamsAt (w.dao.proposals id).creationBlock = .ok params)
    (againstVotes : Nat) : w.quorumVotesWith id againstVotes =
      dynamicQuorumVotesChecked againstVotes (w.dao.proposals id).totalSupply params := by
  have hself : (w.dao.setProposal id { w.dao.proposals id with againstVotes }).proposals id =
      { w.dao.proposals id with againstVotes } := Function.update_self ..
  refine (ProposalStorage.quorumVotesChecked_eq params ?_ ?_).trans ?_
  · rw [hself]
    exact hsupply
  · rw [hself]
    exact hparams
  · rw [hself]

/-- The quorum with its checks is the one that is used without them elsewhere, and lies between what
`minQuorumVotes` and `maxQuorumVotes` say of the block in which the proposal was created. -/
theorem quorumVotes_between {id votes : Nat} {params : DynamicQuorumParams} (hb : params.InBounds)
    (hsupply : (w.dao.proposals id).totalSupply ≠ 0)
    (hparams : w.dao.getDynamicQuorumParamsAt (w.dao.proposals id).creationBlock = .ok params)
    (hvotes : w.dao.quorumVotesChecked id = .ok votes) :
    w.dao.quorumVotes id = .ok votes ∧ ∃ least most,
      w.dao.minQuorumVotes (w.dao.proposals id).creationBlock (w.dao.proposals id).totalSupply =
        .ok least ∧
      w.dao.maxQuorumVotes (w.dao.proposals id).creationBlock (w.dao.proposals id).totalSupply =
        .ok most ∧ least ≤ votes ∧ votes ≤ most := by
  have hrange : QuorumInRange (w.dao.proposals id).totalSupply params votes := by
    rw [ProposalStorage.quorumVotesChecked_eq params hsupply hparams] at hvotes
    rw [dynamicQuorumVotesChecked_ok hvotes]
    exact quorumInRange hb
  refine ⟨ProposalStorage.quorumVotes_of_checked hvotes,
    bps2Uint params.minQuorumVotesBPS (w.dao.proposals id).totalSupply,
    bps2Uint params.maxQuorumVotesBPS (w.dao.proposals id).totalSupply, ?_, ?_, hrange.ge, hrange.le⟩
  · rw [ProposalStorage.minQuorumVotes, hparams]
    rfl
  · rw [ProposalStorage.maxQuorumVotes, hparams]
    rfl

/-- In every state after `initialize`, all checkpoints are in bounds.  The quorum of a proposal lies
in the range of its own checkpoint for every number of votes against it that no product overflows
for, and grows with it.  For the votes that were counted it is the quorum without checks, between the
views `minQuorumVotes` and `maxQuorumVotes` of its block. -/
theorem quorum_in_bounds [DecidableEq H] (h : Reachable Deployed (NextAny d) w) :
    (∀ cp ∈ w.dao.quorumParamsCheckpoints, cp.value.InBounds) ∧
    ∀ id, 0 < id → id ≤ w.dao.proposalCount → (w.dao.proposals id).totalSupply ≠ 0 →
      ∃ cp ∈ w.dao.quorumParamsCheckpoints,
        w.dao.getDynamicQuorumParamsAt (w.dao.proposals id).creationBlock = .ok cp.value ∧
        (∀ againstVotes, QuorumFits againstVotes (w.dao.proposals id).totalSupply cp.value →
          ∃ votes, w.quorumVotesWith id againstVotes = .ok votes ∧
            QuorumInRange (w.dao.proposals id).totalSupply cp.value votes) ∧
        (∀ againstVotes againstVotes' votes votes', againstVotes ≤ againstVotes' →
          w.quorumVotesWith id againstVotes = .ok votes →
          w.quorumVotesWith id againstVotes' = .ok votes' → votes ≤ votes') ∧
        ∀ votes, w.dao.quorumVotesChecked id = .ok votes →
          w.dao.quorumVotes id = .ok votes ∧ ∃ least most,
            w.dao.minQuorumVotes (w.dao.proposals id).creationBlock
              (w.dao.proposals id).totalSupply = .ok least ∧
            w.dao.maxQuorumVotes (w.dao.proposals id).creationBlock
              (w.dao.proposals id).totalSupply = .ok most ∧ least ≤ votes ∧ votes ≤ most := by
  have hbounded := quorumBounded_of_reachable h
  refine ⟨hbounded.inBounds, ?_⟩
  intro id hpos hid hsupply
  have hwf : w.gov.Wf := wf_of_fresh (h.mono (fun _ hw => hw.fresh) (fun _ _ hn => hn))
  obtain ⟨cp, hcp, hvalue⟩ := (hbounded.created id hpos hid).valueAt
  have hb := hbounded.inBounds cp hcp
  have hparams : w.dao.getDynamicQuorumParamsAt (w.dao.proposals id).creationBlock =
      .ok cp.value := by
    rcases hwf.quorum id with hzero | ⟨params, hparams⟩
    · exact absurd hzero hsupply
    · exact hwf.getDynamicQuorumParamsAt_eq (ProposalStorage.getDynamicQuorumParamsAt_lt hparams)
        hvalue
  have hquorum : ∀ againstVotes, w.quorumVotesWith id againstVotes =
      dynamicQuorumVotesChecked againstVotes (w.dao.proposals id).totalSupply cp.value :=
    fun againstVotes => quorumVotesWith_eq hsupply hparams againstVotes
  refine ⟨cp, hcp, hparams, ?_, ?_, fun votes => quorumVotes_between hb hsupply hparams⟩
  · intro againstVotes hfits
    obtain ⟨votes, hvotes⟩ := hfits.succeeds hsupply hb.min_le
    refine ⟨votes, (hquorum againstVotes).trans hvotes, ?_⟩
    rw [dynamicQuorumVotesChecked_ok hvotes]
    exact quorumInRange hb
  · intro againstVotes againstVotes' votes votes' hle hvotes hvotes'
    rw [hquorum] at hvotes hvotes'
    rw [dynamicQuorumVotesChecked_ok hvotes, dynamicQuorumVotesChecked_ok hvotes']
    exact Nat.div_le_div_right (Nat.mul_le_mul_left _ (quorumBPS_mono hle))

/-- The supply is 2 and the coefficient as large as its type allows. -/
theorem deployed_with_proposal : ∃ w, Reachable Deployed (NextAny .sample) w ∧
    w.dao.proposalCount = 1 ∧ (w.dao.proposals 1).totalSupply = 2 ∧
    w.dao.getDynamicQuorumParamsAt (w.dao.proposals 1).creationBlock =
      .ok ⟨200, 2000, 2 ^ 32 - 1⟩ ∧
    w.quorumVotesWith 1 (2 ^ 240) = .error .panic := by
  have hrun : Yields (StorageV3.deploy 1 1 102 101 104 105 9 102
      ⟨MIN_VOTING_PERIOD_BLOCKS, 1, 1, 0, 0, 0⟩ ⟨200, 2000, 2 ^ 32 - 1⟩) (fun dao =>
      Yields (({ World.sample with dao } : World Preimage).run .sample (fun _ _ _ => True)
        [.callToken .minter .mint, .advance 2 2, .ofDAO .minter (.propose .sample "")]) (fun w =>
        w.dao.proposalCount = 1 ∧ (w.dao.proposals 1).totalSupply = 2 ∧
          w.dao.getDynamicQuorumParamsAt (w.dao.proposals 1).creationBlock =
            .ok ⟨200, 2000, 2 ^ 32 - 1⟩ ∧
          w.quorumVotesWith 1 (2 ^ 240) = .error .panic)) := by
    decide +kernel
  obtain ⟨dao, hdao, w, hw, hcount, hsupply, hparams, hpanic⟩ := hrun
  refine ⟨w, ⟨{ World.sample with dao }, ⟨⟨_, _, _, _, _, _, _, _, _, hdao⟩, rfl⟩, ?_⟩, hcount,
    hsupply, hparams, hpanic⟩
  exact run_steps (fun w a w' hstep _ => .step a trivial hstep) hw

/-- With one vote against, the quorum of that proposal is in range. -/
theorem quorum_in_bounds_of_first_proposal :
    ∃ w, Reachable Deployed (NextAny .sample) w ∧ ∃ cp ∈ w.dao.quorumParamsCheckpoints,
      cp.value.InBounds ∧ ∃ votes, w.quorumVotesWith 1 1 = .ok votes ∧
        QuorumInRange 2 cp.value votes := by
  obtain ⟨w, hr, hcount, hsupply, hparams, -⟩ := deployed_with_proposal
  obtain ⟨hinBounds, hquorum⟩ := quorum_in_bounds hr
  obtain ⟨cp, hcp, hcpParams, hrange, -⟩ :=
    hquorum 1 Nat.one_pos (Nat.le_of_eq hcount.symm) (by rw [hsupply]; decide)
  rw [hparams, Except.ok.injEq] at hcpParams
  rw [hsupply] at hrange
  have hfits : QuorumFits 1 2 cp.value := by
    rw [← hcpParams]
    exact ⟨by decide, by decide, by decide⟩
  obtain ⟨votes, hvotes, hin⟩ := hrange 1 hfits
  exact ⟨w, hr, cp, hcp, hinBounds cp hcp, votes, hvotes, hin⟩

/-- The adjustment overflows although ten thousand times the votes do not. -/
theorem quorum_adjustment_overflows :
    ∃ w, Reachable Deployed (NextAny .sample) w ∧ 1 ≤ w.dao.proposalCount ∧
      (w.dao.proposals 1).totalSupply ≠ 0 ∧ 10000 * 2 ^ 240 < 2 ^ 256 ∧
      w.quorumVotesWith 1 (2 ^ 240) = .error .panic := by
  obtain ⟨w, hr, hcount, hsupply, -, hpanic⟩ := deployed_with_proposal
  exact ⟨w, hr, Nat.le_of_eq hcount.symm, by rw [hsupply]; decide, by decide, hpanic⟩

end World

end Nouns
