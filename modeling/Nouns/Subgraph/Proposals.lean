import Nouns.Governance.Events
import Nouns.Governance.QuorumBounds
import Nouns.Subgraph.Frames

/-!
# Proposals — the indexed proposals and the chain

An entity follows its proposal: the windows are copied, and the status tells the last event of its
life.  A proposal in execution is still indexed as queued, since its event comes last.
-/

open EntityStore EntityStore.Table Fallible Relation Transition

namespace Nouns.Subgraph

variable {H : Type}

/-! ## What the handlers do to proposals -/

namespace Store

variable {s s' : Store} {block : Block}

/-- Neither the proposals nor the number of queued ones changed. -/
structure SameProposals (s s' : Store) : Prop where
  proposals : s'.proposals = s.proposals
  proposalsQueued :
    s'.getGovernanceEntity.proposalsQueued = s.getGovernanceEntity.proposalsQueued

theorem SameProposals.refl (s : Store) : SameProposals s s := ⟨rfl, rfl⟩

theorem SameProposals.trans {s₁ : Store} (h : SameProposals s s₁) (h' : SameProposals s₁ s') :
    SameProposals s s' :=
  ⟨h'.proposals.trans h.proposals, h'.proposalsQueued.trans h.proposalsQueued⟩

theorem LeavesDAO.sameProposals (h : LeavesDAO s s') : SameProposals s s' :=
  ⟨h.proposals, h.proposalsQueued⟩

theorem getOrCreateDynamicQuorumParams_sameProposals (s : Store) (block : Option Nat) :
    SameProposals s (s.getOrCreateDynamicQuorumParams block).1 := by
  unfold getOrCreateDynamicQuorumParams
  split
  · exact ⟨rfl, rfl⟩
  · split
    · exact ⟨rfl, rfl⟩
    · exact .refl s

theorem forEach_sameProposals {α : Type} {f : Store → α → Store}
    (hf : ∀ s a, SameProposals s (f s a)) (l : List α) (s : Store) :
    SameProposals s (l.foldl f s) := by
  induction l generalizing s with
  | nil => exact .refl s
  | cons a l ih => exact (hf s a).trans (ih _)

/-- An event that is not about a proposal. -/
theorem handleDAOEvent_sameProposals {e : DAOEvent} (he : e.proposalId? = none)
    (h : s.handleDAOEvent block e = some s') : SameProposals s s' := by
  cases e with
  | MinQuorumVotesBPSSet | MaxQuorumVotesBPSSet | QuorumCoefficientSet =>
    rw [← Option.some.inj h]
    exact (getOrCreateDynamicQuorumParams_sameProposals s _).trans ⟨rfl, rfl⟩
  | EscrowedToFork forkId owner tokenIds =>
    rw [← Option.some.inj h]
    refine (getOrCreateDelegate_leavesDAO s owner).sameProposals.trans
      ((forEach_sameProposals (fun _ _ => ?_) tokenIds _).trans ⟨rfl, rfl⟩)
    exact ⟨rfl, rfl⟩
  | WithdrawFromForkEscrow forkId owner tokenIds =>
    rw [← Option.some.inj h]
    refine (getOrCreateDelegate_leavesDAO s owner).sameProposals.trans
      ((forEach_sameProposals (fun _ _ => ?_) tokenIds _).trans ⟨rfl, rfl⟩)
    exact ⟨rfl, rfl⟩
  | JoinFork forkId owner tokenIds =>
    rw [← Option.some.inj h]
    exact (getOrCreateDelegate_leavesDAO s owner).sameProposals.trans ⟨rfl, rfl⟩
  | ProposalCreated | ProposalCreatedWithRequirements | ProposalCreatedOnTimelockV1
  | ProposalUpdated | ProposalTransactionsUpdated | ProposalDescriptionUpdated | ProposalQueued
  | ProposalExecuted | ProposalCanceled | ProposalVetoed | VoteCast | ProposalObjectionPeriodSet =>
    cases he
  | _ =>
    rw [← Option.some.inj h]
    exact ⟨rfl, rfl⟩

/-- The parameters that `getOrCreateDynamicQuorumParams` returns. -/
def dqParams (s : Store) : DynamicQuorumParams := s.dynamicQuorumParams.getD ⟨0, 0, 0, none⟩

theorem getOrCreateDynamicQuorumParams_eq (s : Store) (block : Option Nat) :
    s.getOrCreateDynamicQuorumParams block =
      ((s.getOrCreateDynamicQuorumParams block).1, { s.dqParams with
        dynamicQuorumStartBlock := s.dqParams.dynamicQuorumStartBlock.or block }) := by
  unfold getOrCreateDynamicQuorumParams dqParams
  cases hparams : s.dynamicQuorumParams with
  | none => rfl
  | some params =>
    cases hstart : params.dynamicQuorumStartBlock <;> cases block <;> simp [hstart] <;>
      (cases params; simp_all)

theorem getOrCreateDynamicQuorumParams_none (s : Store) :
    (s.getOrCreateDynamicQuorumParams none).2 = s.dqParams := by
  rw [getOrCreateDynamicQuorumParams_eq, Option.or_none]

theorem dqParams_getOrCreate (s : Store) :
    (s.getOrCreateDynamicQuorumParams none).1.dqParams = s.dqParams := by
  unfold getOrCreateDynamicQuorumParams dqParams
  cases hparams : s.dynamicQuorumParams with
  | none => rfl
  | some params => simp [hparams]

theorem LeavesDAO.dqParams (h : LeavesDAO s s') : s'.dqParams = s.dqParams := by
  rw [Store.dqParams, h.dynamicQuorumParams, Store.dqParams]

/-- One entity was saved, and `queued` more proposals are counted as queued. -/
structure Saves (s s' : Store) (proposal : Proposal) (queued : Int) : Prop where
  proposals : s'.proposals = s.proposals.save proposal.id proposal
  proposalsQueued :
    s'.getGovernanceEntity.proposalsQueued = s.getGovernanceEntity.proposalsQueued + queued

theorem Saves.trans {s₁ : Store} {proposal : Proposal} {queued : Int} (h : Saves s s₁ proposal queued)
    (h' : SameProposals s₁ s') : Saves s s' proposal queued :=
  ⟨h'.proposals.trans h.proposals, h'.proposalsQueued.trans h.proposalsQueued⟩

theorem SameProposals.saves {s₁ : Store} {proposal : Proposal} {queued : Int}
    (h : SameProposals s s₁) (h' : Saves s₁ s' proposal queued) : Saves s s' proposal queued := by
  refine ⟨?_, ?_⟩
  · rw [h'.proposals, h.proposals]
  · rw [h'.proposalsQueued, h.proposalsQueued]

theorem saves_saveProposal (s : Store) (proposal : Proposal) :
    Saves s (s.saveProposal proposal) proposal 0 :=
  ⟨rfl, (Int.add_zero _).symm⟩

/-- A handler that loads an entity and saves it. -/
theorem saves_of_load {id : Nat} {f : Proposal → Proposal}
    (h : (s.proposals.load id).bind (fun e => some (s.saveProposal (f e))) = some s') :
    ∃ e, s.proposals.load id = some e ∧ Saves s s' (f e) 0 := by
  obtain ⟨e, hload, h⟩ := Option.bind_eq_some_iff.mp h
  rw [← Option.some.inj h]
  exact ⟨e, hload, saves_saveProposal s (f e)⟩

/-- A handler that counts a proposal as queued as well, or no longer. -/
theorem saves_of_load_queued {id : Nat} {f : Proposal → Proposal} {n : Int} (queued : Int)
    (h : (s.proposals.load id).bind (fun e => some ((s.saveProposal (f e)).saveGovernance
      { s.getGovernanceEntity with proposalsQueued := n })) = some s')
    (hn : n = s.getGovernanceEntity.proposalsQueued + queued) :
    ∃ e, s.proposals.load id = some e ∧ Saves s s' (f e) queued := by
  obtain ⟨e, hload, h⟩ := Option.bind_eq_some_iff.mp h
  rw [← Option.some.inj h]
  exact ⟨e, hload, rfl, hn⟩

/-- Votes and updates write other fields, and the status only to open the vote. -/
structure SameLife (e e' : Proposal) : Prop where
  id : e'.id = e.id
  startBlock : e'.startBlock = e.startBlock
  endBlock : e'.endBlock = e.endBlock
  updatePeriodEndBlock : e'.updatePeriodEndBlock = e.updatePeriodEndBlock
  objectionPeriodEndBlock : e'.objectionPeriodEndBlock = e.objectionPeriodEndBlock
  onTimelockV1 : e'.onTimelockV1 = e.onTimelockV1
  executionETA : e'.executionETA = e.executionETA
  status : e'.status = e.status ∨ e.status = .PENDING ∧ e'.status = .ACTIVE

/-- The entity after a vote, with its quorum. -/
def voted (e : Proposal) (support votes : Nat) (quorumVotes : Int) : Proposal :=
  { countVotes e support votes with
    quorumVotes := quorumVotes
    status := if (countVotes e support votes).status = .PENDING then .ACTIVE
      else (countVotes e support votes).status }

theorem voted_sameLife (e : Proposal) (support votes : Nat) (quorumVotes : Int) :
    SameLife e (voted e support votes quorumVotes) := by
  have hcount : SameLife e (countVotes e support votes) ∧
      (countVotes e support votes).status = e.status := by
    unfold countVotes
    split <;> exact ⟨⟨rfl, rfl, rfl, rfl, rfl, rfl, rfl, .inl rfl⟩, rfl⟩
  obtain ⟨⟨h₁, h₂, h₃, h₄, h₅, h₆, h₇, -⟩, hstatus⟩ := hcount
  refine ⟨h₁, h₂, h₃, h₄, h₅, h₆, h₇, ?_⟩
  by_cases hpending : e.status = .PENDING
  · exact .inr ⟨hpending, by simp only [voted, hstatus, hpending, if_true]⟩
  · exact .inl (by simp only [voted, hstatus, hpending, if_false])

theorem handleVoteCast_saves {voter : Address} {proposalId support votes : Nat} {reason : String}
    (h : s.handleVoteCast block voter proposalId support votes reason = some s') :
    ∃ e q, s.proposals.load proposalId = some e ∧
      updatedQuorum s.dqParams (countVotes e support votes) = some q ∧
      Saves s s' (voted e support votes q) 0 := by
  simp only [handleVoteCast, Option.bind_eq_bind, Option.bind_eq_some_iff, Option.pure_def,
    Option.some.injEq] at h
  obtain ⟨e, he, q, hq, rfl⟩ := h
  have hparams := (getOrCreateDelegate_leavesDAO s voter).dqParams
  rw [getOrCreateDynamicQuorumParams_none] at hq
  refine ⟨e, q, he, (congrArg (updatedQuorum · _) hparams.symm).trans hq,
    SameProposals.saves ?_ (saves_saveProposal _ _)⟩
  refine SameProposals.trans ?_ (getOrCreateDynamicQuorumParams_sameProposals _ none)
  exact (getOrCreateDelegate_leavesDAO s voter).sameProposals.trans ⟨rfl, rfl⟩

/-- The entity of a proposal just created. -/
structure Opens (parsedProposal : ParsedProposalV3) (e : Proposal) : Prop where
  id : e.id = parsedProposal.id
  startBlock : e.startBlock = parsedProposal.startBlock
  endBlock : e.endBlock = parsedProposal.endBlock
  updatePeriodEndBlock : e.updatePeriodEndBlock = parsedProposal.updatePeriodEndBlock
  objectionPeriodEndBlock : e.objectionPeriodEndBlock = 0
  onTimelockV1 : e.onTimelockV1 = none
  executionETA : e.executionETA = none
  status : e.status = parsedProposal.status

/-- What its quorum depends on, whether it has an entity or not. -/
structure OpensBallot (parsedProposal : ParsedProposalV3) (params : DynamicQuorumParams)
    (e : Proposal) : Prop where
  id : e.id = parsedProposal.id
  createdBlock : e.createdBlock = parsedProposal.createdBlock
  quorumVotes : e.quorumVotes = parsedProposal.quorumVotes
  againstVotes : e.againstVotes = 0
  adjustedTotalSupply : parsedProposal.adjustedTotalSupply ≠ 0 →
    e.adjustedTotalSupply = parsedProposal.adjustedTotalSupply
  minQuorumVotesBPS : e.minQuorumVotesBPS = params.minQuorumVotesBPS
  maxQuorumVotesBPS : e.maxQuorumVotesBPS = params.maxQuorumVotesBPS
  quorumCoefficient : e.quorumCoefficient = params.quorumCoefficient

/-- The store in which `handleProposalCreated` looks up the parameters. -/
theorem beforeProposal_leavesDAO (s : Store) (proposer : Address) (signers : List Address) :
    LeavesDAO s (signers.foldl (fun s signer => (s.getOrCreateDelegate signer).1)
      (s.getOrCreateDelegate proposer).1) := by
  have hsigners : ∀ (signers : List Address) (s : Store),
      LeavesDAO s (signers.foldl (fun s signer => (s.getOrCreateDelegate signer).1) s) := by
    intro signers
    induction signers with
    | nil => exact LeavesDAO.refl
    | cons signer signers ih =>
      exact fun s => (getOrCreateDelegate_leavesDAO s signer).trans (ih _)
  exact (getOrCreateDelegate_leavesDAO s proposer).trans (hsigners signers _)

theorem handleProposalCreated_saves (s : Store) (parsedProposal : ParsedProposalV3) :
    ∃ e, Saves s (s.handleProposalCreated parsedProposal) e 0 ∧
      OpensBallot parsedProposal s.dqParams e ∧
      (s.proposals.load parsedProposal.id = none → Opens parsedProposal e) := by
  dsimp only [handleProposalCreated]
  -- Counting the proposal changes another table.
  generalize hcounted : (if s.proposals.load parsedProposal.id = none then s.countProposal else s) =
    counted
  have hsame : SameProposals s counted ∧ counted.dqParams = s.dqParams := by
    rw [← hcounted]
    split <;> exact ⟨⟨rfl, rfl⟩, rfl⟩
  have hbefore := beforeProposal_leavesDAO counted parsedProposal.proposer parsedProposal.signers
  have hparams := hbefore.dqParams.trans hsame.2
  refine ⟨_, SameProposals.saves ?_ (saves_saveProposal _ _), ?_, ?_⟩
  · exact (hsame.1.trans hbefore.sameProposals).trans
      (getOrCreateDynamicQuorumParams_sameProposals _ none)
  · rw [getOrCreateDynamicQuorumParams_none, hparams]
    exact ⟨rfl, rfl, rfl, rfl, fun hne => if_neg hne, rfl, rfl, rfl⟩
  · intro hnew
    simp only [hnew]
    exact ⟨rfl, rfl, rfl, rfl, rfl, rfl, rfl, rfl⟩

end Store

/-! ## The invariant -/

/-- The status and the `executionETA` of a proposal, given whether it is in execution. -/
inductive StatusOf (p : Nouns.Proposal) (running : Prop) : ProposalStatus → Option Nat → Prop
  | opened (status : ProposalStatus) : p.Alive → p.eta = 0 → p.executed = false →
      status = .PENDING ∨ status = .ACTIVE → StatusOf p running status none
  | queued : p.Alive → p.eta ≠ 0 → (p.executed = true → running) →
      StatusOf p running .QUEUED (some p.eta)
  | executed : p.Alive → p.eta ≠ 0 → p.executed = true → ¬ running →
      StatusOf p running .EXECUTED none
  | canceled (executionETA : Option Nat) : p.vetoed = false → p.canceled = true →
      p.executed = false → (executionETA = none ↔ p.eta = 0) →
      StatusOf p running .CANCELLED executionETA
  | vetoed (executionETA : Option Nat) : p.vetoed = true → p.executed = false →
      (executionETA = none ↔ p.eta = 0) → StatusOf p running .VETOED executionETA

structure Mirrors (p : Nouns.Proposal) (running : Prop) (e : Proposal) : Prop where
  id : e.id = p.id
  startBlock : e.startBlock = p.startBlock
  endBlock : e.endBlock = p.endBlock
  updatePeriodEndBlock : e.updatePeriodEndBlock = p.updatePeriodEndBlock
  objectionPeriodEndBlock : e.objectionPeriodEndBlock = p.objectionPeriodEndBlock
  onTimelockV1 : e.onTimelockV1 = if p.executeOnTimelockV1 then some true else none
  status : StatusOf p running e.status e.executionETA

structure ProposalsIndexed (g : Course H) (s : Store) : Prop where
  id_eq : ∀ id, id ≤ g.ds.proposalCount → (g.ds.proposals id).id = id
  created : ∀ id, 0 < id → id ≤ g.ds.proposalCount →
    ∃ e, s.proposals.load id = some e ∧ Mirrors (g.ds.proposals id) (id ∈ g.executing) e
  unborn : ∀ id, id = 0 ∨ g.ds.proposalCount < id → s.proposals.load id = none
  executing : ∀ id ∈ g.executing, 0 < id ∧ id ≤ g.ds.proposalCount ∧
    (g.ds.proposals id).executed = true
  nodup : g.executing.Nodup
  /-- A proposal keeps its `executionETA` when it is canceled or vetoed. -/
  counted : s.getGovernanceEntity.proposalsQueued =
    s.proposals.count fun _ e => e.executionETA ≠ none

namespace ProposalsIndexed

open Store

variable {g g' : Course H} {s s' : Store} {id : Nat} {p : Nouns.Proposal} {e e' : Proposal}
  {queued : Int}

theorem congr (h : ProposalsIndexed g s) (hproposals : g'.ds.proposals = g.ds.proposals)
    (hcount : g'.ds.proposalCount = g.ds.proposalCount) (hexec : g'.executing = g.executing)
    (hs : SameProposals s s') : ProposalsIndexed g' s' := by
  obtain ⟨hid, hcreated, hunborn, hexecuting, hnodup, hcounted⟩ := h
  refine ⟨?_, ?_, ?_, ?_, ?_, ?_⟩
  · rw [hcount, hproposals]
    exact hid
  · rw [hcount, hproposals, hexec, hs.proposals]
    exact hcreated
  · rw [hcount, hs.proposals]
    exact hunborn
  · rw [hcount, hproposals, hexec]
    exact hexecuting
  · rw [hexec]
    exact hnodup
  · rw [hs.proposalsQueued, hs.proposals]
    exact hcounted

/-- Only proposals that were created have an entity. -/
theorem born (h : ProposalsIndexed g s) (hload : s.proposals.load id = some e) :
    0 < id ∧ id ≤ g.ds.proposalCount := by
  by_contra hid
  rw [h.unborn id (by omega)] at hload
  cases hload

theorem finite_ids (h : ProposalsIndexed g s) (P : Nat → Proposal → Prop) :
    (s.proposals.ids P).Finite := by
  refine (Set.finite_le_nat g.ds.proposalCount).subset ?_
  rintro id ⟨e, hload, -⟩
  exact (h.born hload).2

theorem mirrors (h : ProposalsIndexed g s) (hload : s.proposals.load id = some e) :
    Mirrors (g.ds.proposals id) (id ∈ g.executing) e := by
  obtain ⟨hpos, hle⟩ := h.born hload
  obtain ⟨e₁, hload₁, hm⟩ := h.created id hpos hle
  rw [hload] at hload₁
  cases hload₁
  exact hm

/-- What becomes of proposal `id` in an event, on the chain and in the index. -/
structure Change (g g' : Course H) (id : Nat) (p : Nouns.Proposal) (e e' : Proposal)
    (queued : Int) : Prop where
  proposals : g'.ds.proposals = Function.update g.ds.proposals id p
  proposalCount : g'.ds.proposalCount = g.ds.proposalCount
  others : ∀ id' ≠ id, id' ∈ g'.executing ↔ id' ∈ g.executing
  nodup : g.executing.Nodup → g'.executing.Nodup
  executed : id ∈ g'.executing → p.executed = true
  id_eq : p.id = (g.ds.proposals id).id
  mirrors : Mirrors p (id ∈ g'.executing) e'
  queued : queued = (if e'.executionETA ≠ none then 1 else 0) - if e.executionETA ≠ none then 1 else 0

theorem change (h : ProposalsIndexed g s) (hload : s.proposals.load id = some e)
    (hc : Change g g' id p e e' queued) (hs : Saves s s' e' queued) : ProposalsIndexed g' s' := by
  obtain ⟨hpos, hle⟩ := h.born hload
  have hid : e'.id = id := hc.mirrors.id.trans (hc.id_eq.trans (h.id_eq id hle))
  have hproposals := hs.proposals
  rw [hid] at hproposals
  refine ⟨?_, ?_, ?_, ?_, hc.nodup h.nodup, ?_⟩
  · intro id' hle'
    rw [hc.proposalCount] at hle'
    rw [hc.proposals]
    by_cases heq : id' = id
    · subst heq
      rw [Function.update_self]
      exact hc.id_eq.trans (h.id_eq id' hle')
    · rw [Function.update_of_ne heq]
      exact h.id_eq id' hle'
  · intro id' hpos' hle'
    rw [hc.proposalCount] at hle'
    rw [hc.proposals, hproposals]
    by_cases heq : id' = id
    · subst heq
      rw [Function.update_self]
      exact ⟨e', load_save_self, hc.mirrors⟩
    · rw [Function.update_of_ne heq, load_save_ne heq, propext (hc.others id' heq)]
      exact h.created id' hpos' hle'
  · intro id' hid'
    rw [hc.proposalCount] at hid'
    rw [hproposals, load_save_ne (by omega)]
    exact h.unborn id' hid'
  · intro id' hmem
    rw [hc.proposalCount, hc.proposals]
    by_cases heq : id' = id
    · subst heq
      rw [Function.update_self]
      exact ⟨hpos, hle, hc.executed hmem⟩
    · rw [Function.update_of_ne heq]
      exact h.executing id' ((hc.others id' heq).mp hmem)
  · rw [hs.proposalsQueued, hproposals, count_save_load (h.finite_ids _) hload, h.counted, hc.queued]

theorem create (h : ProposalsIndexed g s)
    (hproposals : g'.ds.proposals = Function.update g.ds.proposals (g.ds.proposalCount + 1) p)
    (hcount : g'.ds.proposalCount = g.ds.proposalCount + 1) (hexec : g'.executing = g.executing)
    (hid : p.id = g.ds.proposalCount + 1) (hm : Mirrors p False e) (heta : e.executionETA = none)
    (hs : Saves s s' e 0) : ProposalsIndexed g' s' := by
  have hnew : s.proposals.load (g.ds.proposalCount + 1) = none := h.unborn _ (.inr (by omega))
  have hidle : g.ds.proposalCount + 1 ∉ g.executing := by
    intro hmem
    have hle := (h.executing _ hmem).2.1
    omega
  have hsaved := hs.proposals
  rw [hm.id.trans hid] at hsaved
  refine ⟨?_, ?_, ?_, ?_, ?_, ?_⟩
  · intro id hle
    rw [hcount] at hle
    rw [hproposals]
    by_cases heq : id = g.ds.proposalCount + 1
    · subst heq
      rw [Function.update_self]
      exact hid
    · rw [Function.update_of_ne heq]
      exact h.id_eq id (by omega)
  · intro id hpos hle
    rw [hcount] at hle
    rw [hproposals, hexec, hsaved]
    by_cases heq : id = g.ds.proposalCount + 1
    · subst heq
      rw [Function.update_self, eq_false hidle]
      exact ⟨e, load_save_self, hm⟩
    · rw [Function.update_of_ne heq, load_save_ne heq]
      exact h.created id hpos (by omega)
  · intro id hid
    rw [hcount] at hid
    rw [hsaved, load_save_ne (by omega)]
    exact h.unborn id (by omega)
  · intro id hmem
    rw [hexec] at hmem
    obtain ⟨hpos, hle, hexecuted⟩ := h.executing id hmem
    rw [hcount, hproposals, Function.update_of_ne (by omega)]
    exact ⟨hpos, by omega, hexecuted⟩
  · rw [hexec]
    exact h.nodup
  · have hmem : g.ds.proposalCount + 1 ∉ s.proposals.ids fun _ e => e.executionETA ≠ none := by
      rintro ⟨e₁, hload, -⟩
      rw [hnew] at hload
      cases hload
    rw [hs.proposalsQueued, hsaved, count_save_never (not_not.mpr heta) hmem, h.counted,
      Int.add_zero]

end ProposalsIndexed

/-! ## Steps of the DAO -/

/-- Whatever the blocks and the events of the token in between. -/
def Mirrored (g : Course H) : Prop := ∀ s, EventsIndexed g.ds.log s → ProposalsIndexed g s

section Steps

open Store

variable {s s' : Store} {block : Block} {g g' : Course H} {id : Nat} {p : Nouns.Proposal}
  {e e' : Proposal}

/-- Events that are not about proposals. -/
theorem EventsIndexed.aside {events log : List DAOEvent} (h : EventsIndexed (events ++ log) s)
    (hevents : ∀ e ∈ events, e.proposalId? = none) :
    ∃ s₀, EventsIndexed log s₀ ∧ SameProposals s₀ s := by
  induction events generalizing s with
  | nil => exact ⟨s, h, .refl s⟩
  | cons e events ih =>
    obtain ⟨block, s₁, s₂, hindexed, hhandle, hleaves⟩ := h.cons
    obtain ⟨s₀, hs₀, hsame⟩ := ih hindexed (fun e he => hevents e (List.mem_cons_of_mem _ he))
    have hlast := handleDAOEvent_sameProposals (hevents e List.mem_cons_self) hhandle
    exact ⟨s₀, hs₀, (hsame.trans hlast).trans hleaves.sameProposals⟩

/-- A step whose events are not about proposals. -/
theorem Mirrored.aside (h : Mirrored g) {events : List DAOEvent}
    (hevents : ∀ e ∈ events, e.proposalId? = none) (hlog : g'.ds.log = events ++ g.ds.log)
    (hproposals : g'.ds.proposals = g.ds.proposals)
    (hcount : g'.ds.proposalCount = g.ds.proposalCount) (hexec : g'.executing = g.executing) :
    Mirrored g' := by
  intro s hs
  rw [hlog] at hs
  obtain ⟨s₀, hs₀, hsame⟩ := hs.aside hevents
  exact (h s₀ hs₀).congr hproposals hcount hexec hsame

/-- A step whose event saves the entity of one proposal. -/
theorem Mirrored.change {event : DAOEvent} (h : Mirrored g)
    (hlog : g'.ds.log = event :: g.ds.log)
    (hhandle : ∀ s₀ block s₁, ProposalsIndexed g s₀ → s₀.handleDAOEvent block event = some s₁ →
      ∃ id p e e' queued, s₀.proposals.load id = some e ∧
        ProposalsIndexed.Change g g' id p e e' queued ∧ Saves s₀ s₁ e' queued) :
    Mirrored g' := by
  intro s hs
  rw [hlog] at hs
  obtain ⟨block, s₀, s₁, hs₀, hs₁, hleaves⟩ := hs.cons
  obtain ⟨id, p, e, e', queued, hload, hchange, hsaves⟩ := hhandle s₀ block s₁ (h s₀ hs₀) hs₁
  exact (h s₀ hs₀).change hload hchange (hsaves.trans hleaves.sameProposals)

/-- The proposal was neither queued nor canceled nor vetoed. -/
structure SameMarks (p p' : Nouns.Proposal) : Prop where
  eta : p'.eta = p.eta
  vetoed : p'.vetoed = p.vetoed
  canceled : p'.canceled = p.canceled

theorem SameMarks.refl (p : Nouns.Proposal) : SameMarks p p := ⟨rfl, rfl, rfl⟩

/-- The proposal is as far as before. -/
structure SameStage (p p' : Nouns.Proposal) : Prop extends SameMarks p p' where
  executed : p'.executed = p.executed

/-- The fields of a proposal that its entity tells are as before. -/
structure SameCourse (p p' : Nouns.Proposal) : Prop extends SameStage p p' where
  id : p'.id = p.id
  startBlock : p'.startBlock = p.startBlock
  endBlock : p'.endBlock = p.endBlock
  updatePeriodEndBlock : p'.updatePeriodEndBlock = p.updatePeriodEndBlock
  objectionPeriodEndBlock : p'.objectionPeriodEndBlock = p.objectionPeriodEndBlock
  executeOnTimelockV1 : p'.executeOnTimelockV1 = p.executeOnTimelockV1

theorem StatusOf.keep {p p' : Nouns.Proposal} {running : Prop} {status status' : ProposalStatus}
    {executionETA : Option Nat} (h : StatusOf p running status executionETA) (hp : SameStage p p')
    (hstatus : status' = status ∨ status = .PENDING ∧ status' = .ACTIVE) :
    StatusOf p' running status' executionETA := by
  have halive : p.Alive → p'.Alive := by
    intro ha
    exact ⟨hp.vetoed.trans ha.1, hp.canceled.trans ha.2⟩
  cases h with
  | opened status ha heta hexecuted hopen =>
    refine .opened status' (halive ha) (hp.eta.trans heta) (hp.executed.trans hexecuted) ?_
    rcases hstatus with rfl | ⟨-, rfl⟩
    · exact hopen
    · exact .inr rfl
  | queued ha heta hrunning =>
    obtain rfl | ⟨hpending, -⟩ := hstatus
    · rw [← hp.eta]
      refine .queued (halive ha) (hp.eta ▸ heta) ?_
      rw [hp.executed]
      exact hrunning
    · cases hpending
  | executed ha heta hexecuted hrunning =>
    obtain rfl | ⟨hpending, -⟩ := hstatus
    · exact .executed (halive ha) (hp.eta ▸ heta) (hp.executed.trans hexecuted) hrunning
    · cases hpending
  | canceled _ hvetoed hcanceled hexecuted heta =>
    obtain rfl | ⟨hpending, -⟩ := hstatus
    · refine .canceled _ (hp.vetoed.trans hvetoed) (hp.canceled.trans hcanceled)
        (hp.executed.trans hexecuted) ?_
      rw [hp.eta]
      exact heta
    · cases hpending
  | vetoed _ hvetoed hexecuted heta =>
    obtain rfl | ⟨hpending, -⟩ := hstatus
    · refine .vetoed _ (hp.vetoed.trans hvetoed) (hp.executed.trans hexecuted) ?_
      rw [hp.eta]
      exact heta
    · cases hpending

theorem Mirrors.keep {running : Prop} {p p' : Nouns.Proposal} (h : Mirrors p running e)
    (hp : SameCourse p p') (he : SameLife e e') : Mirrors p' running e' where
  id := by rw [he.id, h.id, hp.id]
  startBlock := by rw [he.startBlock, h.startBlock, hp.startBlock]
  endBlock := by rw [he.endBlock, h.endBlock, hp.endBlock]
  updatePeriodEndBlock := by
    rw [he.updatePeriodEndBlock, h.updatePeriodEndBlock, hp.updatePeriodEndBlock]
  objectionPeriodEndBlock := by
    rw [he.objectionPeriodEndBlock, h.objectionPeriodEndBlock, hp.objectionPeriodEndBlock]
  onTimelockV1 := by rw [he.onTimelockV1, h.onTimelockV1, hp.executeOnTimelockV1]
  status := by
    rw [he.executionETA]
    exact h.status.keep hp.toSameStage he.status

/-- A change of a proposal while the same proposals are in execution. -/
theorem change_of_executing (h : ProposalsIndexed g s) {queued : Int}
    (hproposals : g'.ds.proposals = Function.update g.ds.proposals id p)
    (hcount : g'.ds.proposalCount = g.ds.proposalCount) (hexec : g'.executing = g.executing)
    (hexecuted : p.executed = (g.ds.proposals id).executed) (hid : p.id = (g.ds.proposals id).id)
    (hm : Mirrors p (id ∈ g.executing) e')
    (hqueued : queued = (if e'.executionETA ≠ none then 1 else 0) -
      if e.executionETA ≠ none then 1 else 0) :
    ProposalsIndexed.Change g g' id p e e' queued := by
  refine ⟨hproposals, hcount, ?_, ?_, ?_, hid, ?_, hqueued⟩
  · rw [hexec]
    exact fun _ _ => Iff.rfl
  · rw [hexec]
    exact fun hnodup => hnodup
  · rw [hexec, hexecuted]
    exact fun hmem => (h.executing id hmem).2.2
  · rw [hexec]
    exact hm

/-- The event of an update. -/
theorem handleUpdate_saves {ds : StorageV3 H} {txs : ProposalTxs} {event : DAOEvent}
    (hevent : ds.Updates id txs event) (h : s.handleDAOEvent block event = some s') :
    ∃ e e', s.proposals.load id = some e ∧ SameLife e e' ∧ Saves s s' e' 0 := by
  cases hevent with
  | both sender description message =>
    obtain ⟨e, hload, hsaves⟩ := saves_of_load h
    refine ⟨e, _, hload, ?_, hsaves⟩
    exact ⟨rfl, rfl, rfl, rfl, rfl, rfl, rfl, .inl rfl⟩
  | transactions sender message =>
    obtain ⟨e, hload, hsaves⟩ := saves_of_load h
    refine ⟨e, _, hload, ?_, hsaves⟩
    exact ⟨rfl, rfl, rfl, rfl, rfl, rfl, rfl, .inl rfl⟩
  | description sender description message htxs =>
    obtain ⟨e, hload, hsaves⟩ := saves_of_load h
    refine ⟨e, _, hload, ?_, hsaves⟩
    exact ⟨rfl, rfl, rfl, rfl, rfl, rfl, rfl, .inl rfl⟩

variable {ds' : StorageV3 H}

theorem Mirrored.update (h : Mirrored g) {txs : ProposalTxs} {event : DAOEvent}
    (hevent : g.ds.Updates id txs event)
    (hlogged : g.ds.Logged ds' (Function.update g.ds.proposals id
      { g.ds.proposals id with toProposalTxs := txs }) g.ds.proposalCount [event]) :
    Mirrored ⟨ds', g.executing⟩ := by
  refine h.change hlogged.log ?_
  intro s₀ block s₁ hindexed hhandle
  obtain ⟨e, e', hload, he, hsaves⟩ := handleUpdate_saves hevent hhandle
  have hsame : SameCourse (g.ds.proposals id) { g.ds.proposals id with toProposalTxs := txs } :=
    ⟨⟨⟨rfl, rfl, rfl⟩, rfl⟩, rfl, rfl, rfl, rfl, rfl, rfl⟩
  have hm := (hindexed.mirrors hload).keep hsame he
  refine ⟨id, _, e, e', 0, hload, change_of_executing hindexed hlogged.proposals
    hlogged.proposalCount rfl rfl rfl hm ?_, hsaves⟩
  rw [he.executionETA]
  omega

/-- The event of an objection period comes before that of the vote. -/
theorem Mirrored.objection (h : Mirrored g) {o : Nat} {events : List DAOEvent}
    (hle : id ≤ g.ds.proposalCount)
    (hobjection : StorageV3.Objection (g.ds.proposals id) o events)
    (hlogged : g.ds.Logged ds' (Function.update g.ds.proposals id
      { g.ds.proposals id with objectionPeriodEndBlock := o }) g.ds.proposalCount events) :
    Mirrored ⟨ds', g.executing⟩ := by
  cases hobjection with
  | none =>
    exact h.aside (fun _ he => absurd he List.not_mem_nil) hlogged.log
      (hlogged.proposals.trans (Function.update_eq_self id _)) hlogged.proposalCount rfl
  | opened o =>
    refine h.change hlogged.log ?_
    intro s₀ block s₁ hindexed hhandle
    obtain ⟨e, hload, hsaves⟩ := saves_of_load hhandle
    rw [hindexed.id_eq id hle] at hload
    have hm := hindexed.mirrors hload
    refine ⟨id, _, e, _, 0, hload, change_of_executing hindexed hlogged.proposals
      hlogged.proposalCount rfl rfl rfl ?_ ?_, hsaves⟩
    · exact ⟨hm.id, hm.startBlock, hm.endBlock, hm.updatePeriodEndBlock, rfl, hm.onTimelockV1,
        hm.status.keep ⟨⟨rfl, rfl, rfl⟩, rfl⟩ (.inl rfl)⟩
    · exact (Int.sub_self _).symm

theorem Mirrored.vote (h : Mirrored g) {voter : Address} {support votes o : Nat} {reason : String}
    {events : List DAOEvent} (hle : id ≤ g.ds.proposalCount) (hsupport : support ≤ 2)
    (hobjection : StorageV3.Objection (g.ds.proposals id) o events)
    (hlogged : g.ds.Logged ds' (Function.update g.ds.proposals id
      { StorageV3.setReceipt (StorageV3.countVotes (g.ds.proposals id) support votes) voter
        ⟨true, support, votes⟩ with objectionPeriodEndBlock := o }) g.ds.proposalCount
      (.VoteCast voter id support votes reason :: events)) :
    Mirrored ⟨ds', g.executing⟩ := by
  -- The state between the two events.
  let opened : StorageV3 H := { g.ds with
    proposals := Function.update g.ds.proposals id
      { g.ds.proposals id with objectionPeriodEndBlock := o }
    log := events ++ g.ds.log }
  have hopened : Mirrored ⟨opened, g.executing⟩ :=
    h.objection hle hobjection ⟨rfl, rfl, rfl, rfl, rfl⟩
  refine hopened.change hlogged.log ?_
  intro s₀ block s₁ hindexed hhandle
  obtain ⟨e, q, hload, -, hsaves⟩ := handleVoteCast_saves hhandle
  have he := voted_sameLife e support votes q
  have hterms : opened.proposals id =
      { g.ds.proposals id with objectionPeriodEndBlock := o } := Function.update_self ..
  have hm := hindexed.mirrors hload
  rw [StorageV3.countVotes_eq _ hsupport] at hlogged
  have hproposals : ds'.proposals = Function.update opened.proposals id _ :=
    hlogged.proposals.trans (Function.update_idem ..).symm
  refine ⟨id, _, e, _, 0, hload, change_of_executing hindexed hproposals hlogged.proposalCount rfl
    ?_ ?_ (hm.keep ?_ he) ?_, hsaves⟩
  · rw [hterms]
    rfl
  · rw [hterms]
    rfl
  · rw [hterms]
    exact ⟨⟨⟨rfl, rfl, rfl⟩, rfl⟩, rfl, rfl, rfl, rfl, rfl, rfl⟩
  · rw [he.executionETA]
    omega

/-- A proposal that was never queued has no `executionETA`. -/
theorem StatusOf.executionETA {running : Prop} {status : ProposalStatus} {eta : Option Nat}
    (h : StatusOf p running status eta) (hexecuted : p.executed = false) :
    eta = none ↔ p.eta = 0 := by
  cases h with
  | opened _ _ heta _ _ => exact ⟨fun _ => heta, fun _ => rfl⟩
  | queued _ heta _ => exact ⟨fun h => (nomatch h), fun h => absurd h heta⟩
  | executed _ _ h _ => exact absurd (hexecuted.symm.trans h) Bool.false_ne_true
  | canceled _ _ _ _ heta => exact heta
  | vetoed _ _ _ heta => exact heta

theorem StatusOf.alive_of_executed {running : Prop} {status : ProposalStatus} {eta : Option Nat}
    (h : StatusOf p running status eta) (hexecuted : p.executed = true) : p.Alive := by
  cases h with
  | opened _ ha _ _ _ => exact ha
  | queued ha _ _ => exact ha
  | executed ha _ _ _ => exact ha
  | canceled _ _ _ h _ => exact absurd (h.symm.trans hexecuted) Bool.false_ne_true
  | vetoed _ _ h _ => exact absurd (h.symm.trans hexecuted) Bool.false_ne_true

theorem StatusOf.of_alive {running : Prop} {status : ProposalStatus} {eta : Option Nat}
    (h : StatusOf p running status eta) (halive : p.Alive) :
    (p.eta = 0 ∧ p.executed = false ∧ eta = none) ∨
      (p.eta ≠ 0 ∧ (p.executed = true → running) ∧ status = .QUEUED ∧ eta = some p.eta) ∨
      (p.eta ≠ 0 ∧ p.executed = true ∧ ¬ running) := by
  cases h with
  | opened _ _ heta hexecuted _ => exact .inl ⟨heta, hexecuted, rfl⟩
  | queued _ heta hrunning => exact .inr (.inl ⟨heta, hrunning, rfl, rfl⟩)
  | executed _ heta hexecuted hrunning => exact .inr (.inr ⟨heta, hexecuted, hrunning⟩)
  | canceled _ _ h _ _ => exact absurd (halive.2.symm.trans h) Bool.false_ne_true
  | vetoed _ h _ _ => exact absurd (halive.1.symm.trans h) Bool.false_ne_true

theorem Mirrored.queue (h : Mirrored g) {eta : Nat} (halive : (g.ds.proposals id).Alive)
    (hzero : (g.ds.proposals id).eta = 0) (heta : eta ≠ 0)
    (hlogged : g.ds.Logged ds' (Function.update g.ds.proposals id { g.ds.proposals id with eta })
      g.ds.proposalCount [.ProposalQueued id eta]) : Mirrored ⟨ds', g.executing⟩ := by
  refine h.change hlogged.log ?_
  intro s₀ block s₁ hindexed hhandle
  obtain ⟨e, hload, hsaves⟩ := saves_of_load_queued 1 hhandle rfl
  have hm := hindexed.mirrors hload
  obtain ⟨-, hexecuted, hnone⟩ | ⟨hne, -⟩ | ⟨hne, -⟩ := hm.status.of_alive halive
  · refine ⟨id, _, e, _, 1, hload, change_of_executing hindexed hlogged.proposals
      hlogged.proposalCount rfl rfl rfl ?_ ?_, hsaves⟩
    · refine ⟨hm.id, hm.startBlock, hm.endBlock, hm.updatePeriodEndBlock,
        hm.objectionPeriodEndBlock, hm.onTimelockV1, ?_⟩
      refine .queued halive heta ?_
      intro h'
      exact absurd (hexecuted.symm.trans h') Bool.false_ne_true
    · simp [hnone]
  · exact absurd hzero hne
  · exact absurd hzero hne

/-- The execution logs nothing until it ends. -/
theorem Mirrored.begin_ (h : Mirrored g) (hpos : 0 < id) (hle : id ≤ g.ds.proposalCount)
    (halive : (g.ds.proposals id).Alive) (heta : (g.ds.proposals id).eta ≠ 0)
    (hexecuted : (g.ds.proposals id).executed = false)
    (hlogged : g.ds.Logged ds' (Function.update g.ds.proposals id
      { g.ds.proposals id with executed := true }) g.ds.proposalCount []) :
    Mirrored ⟨ds', id :: g.executing⟩ := by
  intro s hs
  have hlog : ds'.log = g.ds.log := hlogged.log
  rw [hlog] at hs
  have hindexed := h s hs
  obtain ⟨e, hload, hm⟩ := hindexed.created id hpos hle
  have hidle : id ∉ g.executing := by
    intro hmem
    exact absurd (hexecuted.symm.trans (hindexed.executing id hmem).2.2) Bool.false_ne_true
  have hsaves : Saves s s e 0 := by
    refine ⟨?_, (Int.add_zero _).symm⟩
    rw [hm.id, hindexed.id_eq id hle]
    exact (Function.update_eq_self_iff.mpr hload.symm).symm
  refine hindexed.change (p := { g.ds.proposals id with executed := true }) hload ?_ hsaves
  refine ⟨hlogged.proposals, hlogged.proposalCount, ?_, ?_, fun _ => rfl, rfl, ?_, ?_⟩
  · intro id' hne
    exact ⟨fun hmem => (List.mem_cons.mp hmem).resolve_left hne, List.mem_cons_of_mem id⟩
  · exact fun hnodup => List.nodup_cons.mpr ⟨hidle, hnodup⟩
  · refine ⟨hm.id, hm.startBlock, hm.endBlock, hm.updatePeriodEndBlock, hm.objectionPeriodEndBlock,
      hm.onTimelockV1, ?_⟩
    obtain ⟨hzero, -⟩ | ⟨-, -, hstatus, hsome⟩ | ⟨-, htrue, -⟩ := hm.status.of_alive halive
    · exact absurd hzero heta
    · rw [hstatus, hsome]
      exact .queued halive heta (fun _ => List.mem_cons_self)
    · exact absurd (hexecuted.symm.trans htrue) Bool.false_ne_true
  · exact (Int.sub_self _).symm

theorem Mirrored.finish (h : Mirrored g) {rest : List Nat} (hrest : g.executing = id :: rest)
    (hlogged : g.ds.Logged ds' g.ds.proposals g.ds.proposalCount
      [.ProposalExecuted (g.ds.proposals id).id]) : Mirrored ⟨ds', rest⟩ := by
  refine h.change hlogged.log ?_
  intro s₀ block s₁ hindexed hhandle
  have hmem : id ∈ g.executing := hrest ▸ List.mem_cons_self
  obtain ⟨hpos, hle, hexecuted⟩ := hindexed.executing id hmem
  obtain ⟨hidle, hnodup⟩ := List.nodup_cons.mp (hrest ▸ hindexed.nodup)
  obtain ⟨e, hload, hsaves⟩ := saves_of_load_queued (-1) hhandle rfl
  rw [hindexed.id_eq id hle] at hload
  have hm := hindexed.mirrors hload
  have halive := hm.status.alive_of_executed hexecuted
  refine ⟨id, g.ds.proposals id, e, _, -1, hload, ⟨?_, hlogged.proposalCount, ?_, fun _ => hnodup,
    fun _ => hexecuted, rfl, ?_, ?_⟩, hsaves⟩
  · exact hlogged.proposals.trans (Function.update_eq_self id _).symm
  · intro id' hne
    rw [hrest]
    exact ⟨List.mem_cons_of_mem id, fun hmem => (List.mem_cons.mp hmem).resolve_left hne⟩
  · refine ⟨hm.id, hm.startBlock, hm.endBlock, hm.updatePeriodEndBlock, hm.objectionPeriodEndBlock,
      hm.onTimelockV1, ?_⟩
    obtain ⟨-, hfalse, -⟩ | ⟨heta, -⟩ | ⟨-, -, hrunning⟩ := hm.status.of_alive halive
    · exact absurd (hfalse.symm.trans hexecuted) Bool.false_ne_true
    · exact .executed halive heta hexecuted hidle
    · exact absurd hmem hrunning
  · obtain ⟨-, hfalse, -⟩ | ⟨-, -, -, hsome⟩ | ⟨-, -, hrunning⟩ := hm.status.of_alive halive
    · exact absurd (hfalse.symm.trans hexecuted) Bool.false_ne_true
    · simp [hsome]
    · exact absurd hmem hrunning

theorem Mirrored.cancel (h : Mirrored g) (halive : (g.ds.proposals id).Alive)
    (hexecuted : (g.ds.proposals id).executed = false)
    (hlogged : g.ds.Logged ds' (Function.update g.ds.proposals id
      { g.ds.proposals id with canceled := true }) g.ds.proposalCount [.ProposalCanceled id]) :
    Mirrored ⟨ds', g.executing⟩ := by
  refine h.change hlogged.log ?_
  intro s₀ block s₁ hindexed hhandle
  obtain ⟨e, hload, hsaves⟩ := saves_of_load hhandle
  have hm := hindexed.mirrors hload
  refine ⟨id, _, e, _, 0, hload, change_of_executing hindexed hlogged.proposals
    hlogged.proposalCount rfl rfl rfl ?_ ?_, hsaves⟩
  · exact ⟨hm.id, hm.startBlock, hm.endBlock, hm.updatePeriodEndBlock, hm.objectionPeriodEndBlock,
      hm.onTimelockV1, .canceled _ halive.1 rfl hexecuted (hm.status.executionETA hexecuted)⟩
  · exact (Int.sub_self _).symm

theorem Mirrored.veto (h : Mirrored g)
    (hexecuted : (g.ds.proposals id).Alive → (g.ds.proposals id).executed = false)
    (hlogged : g.ds.Logged ds' (Function.update g.ds.proposals id
      { g.ds.proposals id with vetoed := true }) g.ds.proposalCount [.ProposalVetoed id]) :
    Mirrored ⟨ds', g.executing⟩ := by
  refine h.change hlogged.log ?_
  intro s₀ block s₁ hindexed hhandle
  obtain ⟨e, hload, hsaves⟩ := saves_of_load hhandle
  have hm := hindexed.mirrors hload
  have hfalse : (g.ds.proposals id).executed = false := by
    by_contra htrue
    exact htrue (hexecuted (hm.status.alive_of_executed (Bool.eq_true_of_not_eq_false htrue)))
  refine ⟨id, _, e, _, 0, hload, change_of_executing hindexed hlogged.proposals
    hlogged.proposalCount rfl rfl rfl ?_ ?_, hsaves⟩
  · exact ⟨hm.id, hm.startBlock, hm.endBlock, hm.updatePeriodEndBlock, hm.objectionPeriodEndBlock,
      hm.onTimelockV1, .vetoed _ rfl hfalse (hm.status.executionETA hfalse)⟩
  · exact (Int.sub_self _).symm

/-- A proposal starts without votes, and is not queued. -/
theorem created_terms {store : ProposalStorage} {now : Nat}
    (hslot : store.proposals (store.proposalCount + 1) = Nouns.Proposal.empty)
    (h : store.Created now p) : p.id = store.proposalCount + 1 ∧ p.eta = 0 ∧ p.Alive ∧
      p.executed = false ∧ p.objectionPeriodEndBlock = 0 := by
  obtain ⟨_, _, _, _, _, _, _, _, _, hp⟩ := h.content
  rw [hp, hslot]
  exact ⟨rfl, rfl, ⟨rfl, rfl⟩, rfl, rfl⟩

theorem Mirrored.create (h : Mirrored g) {now minQuorumVotes : Nat} {description : String}
    (hslot : g.ds.proposals (g.ds.proposalCount + 1) = Nouns.Proposal.empty)
    (hcreated : g.ds.toProposalStorage.Created now p)
    (hlogged : g.ds.Logged ds' (Function.update g.ds.proposals (g.ds.proposalCount + 1) p)
      (g.ds.proposalCount + 1) (StorageV3.creationEvents p minQuorumVotes description)) :
    Mirrored ⟨ds', g.executing⟩ := by
  obtain ⟨hid, heta, halive, hexecuted, hobjection⟩ := created_terms hslot hcreated
  -- The state after the first two events, of which the first is not indexed.
  let p₁ : Nouns.Proposal := { p with executeOnTimelockV1 := false }
  let created : StorageV3 H := { g.ds with
    proposals := Function.update g.ds.proposals (g.ds.proposalCount + 1) p₁
    proposalCount := g.ds.proposalCount + 1
    log := .ProposalCreatedWithRequirements p.id p.proposer p.signers p.toProposalTxs p.startBlock
      p.endBlock p.updatePeriodEndBlock p.proposalThreshold minQuorumVotes description ::
      .ProposalCreated p.id p.proposer p.toProposalTxs p.startBlock p.endBlock description ::
      g.ds.log }
  have hfirst : Mirrored ⟨created, g.executing⟩ := by
    intro s hs
    obtain ⟨block, s₀, s₁, hs₀, hs₁, hleaves⟩ := hs.cons
    obtain ⟨block', s₂, s₃, hs₂, hs₃, hleaves'⟩ := hs₀.cons
    have hsame : SameProposals s₂ s₀ := by
      rw [← Option.some.inj hs₃] at hleaves'
      exact hleaves'.sameProposals
    have hindexed : ProposalsIndexed g s₀ := (h s₂ hs₂).congr rfl rfl rfl hsame
    have hnew : s₀.proposals.load p.id = none := by
      rw [hid]
      exact hindexed.unborn _ (.inr (Nat.lt_succ_self _))
    obtain ⟨e, hsaves, -, hopens⟩ := handleProposalCreated_saves s₀
      (.fromV3Event block p.id p.proposer p.signers p.toProposalTxs p.startBlock p.endBlock
        p.updatePeriodEndBlock p.proposalThreshold minQuorumVotes)
    have he := hopens hnew
    rw [← Option.some.inj hs₁] at hleaves
    refine hindexed.create rfl rfl rfl hid ?_ he.executionETA
      (hsaves.trans hleaves.sameProposals)
    refine ⟨he.id, he.startBlock, he.endBlock, he.updatePeriodEndBlock,
      he.objectionPeriodEndBlock.trans hobjection.symm, he.onTimelockV1, ?_⟩
    rw [he.executionETA, he.status]
    refine .opened _ halive heta hexecuted ?_
    simp only [ParsedProposalV3.fromV3Event, initialStatus]
    split
    · exact .inr rfl
    · exact .inl rfl
  have hlog := hlogged.log
  unfold StorageV3.creationEvents at hlog
  by_cases hv1 : p.executeOnTimelockV1 = true
  · rw [if_pos hv1] at hlog
    refine hfirst.change hlog ?_
    intro s₀ block s₁ hindexed hhandle
    obtain ⟨e, hload, hsaves⟩ := saves_of_load hhandle
    have hterms : created.proposals p.id = p₁ := by
      simp only [created, hid, Function.update_self]
    have hm := hindexed.mirrors hload
    rw [hterms] at hm
    have hproposals : ds'.proposals = Function.update created.proposals p.id p := by
      rw [hlogged.proposals, hid, Function.update_idem]
    refine ⟨p.id, p, e, _, 0, hload, change_of_executing hindexed hproposals hlogged.proposalCount
      rfl ?_ ?_ ?_ ?_, hsaves⟩
    · rw [hterms]
    · rw [hterms]
    · refine ⟨hm.id, hm.startBlock, hm.endBlock, hm.updatePeriodEndBlock,
        hm.objectionPeriodEndBlock, ?_, hm.status.keep ⟨⟨rfl, rfl, rfl⟩, rfl⟩ (.inl rfl)⟩
      rw [if_pos hv1]
    · exact (Int.sub_self _).symm
  · rw [if_neg hv1] at hlog
    have hsame : p₁ = p := by
      have hfalse := Bool.eq_false_of_not_eq_true hv1
      simp only [p₁, ← hfalse]
    intro s hs
    rw [hlog] at hs
    refine (hfirst s hs).congr ?_ hlogged.proposalCount rfl (.refl s)
    rw [hlogged.proposals, ← hsame]

theorem quorumEvents_unproposed {params : Nouns.DynamicQuorumParams} {call : QuorumCall}
    {e : DAOEvent} (he : e ∈ StorageV3.quorumEvents params call) : e.proposalId? = none := by
  cases call with
  | setDynamicQuorumParams newMin newMax newCoefficient =>
    simp only [StorageV3.quorumEvents, List.mem_cons, List.not_mem_nil, or_false] at he
    rcases he with rfl | rfl | rfl <;> rfl
  | setMinQuorumVotesBPS | setMaxQuorumVotesBPS | setQuorumCoefficient =>
    rw [List.mem_singleton.mp he]
    rfl

/-- Every step of the DAO. -/
theorem Mirrored.step [DecidableEq H] {env : Env H} (h : Mirrored g) (hstep : g.Step env g') :
    Mirrored g' := by
  cases hstep with
  | aside ds' haside =>
    obtain ⟨events, hevents, hlogged⟩ := haside
    exact h.aside (fun e he => DAOEvent.proposalId?_of_aside (hevents e he)) hlogged.log
      hlogged.proposals hlogged.proposalCount rfl
  | create ds' p minQuorumVotes description _ hslot hcreated _ _ hlogged =>
    exact h.create hslot hcreated hlogged
  | update ds' id txs e _ hevent hlogged => exact h.update hevent hlogged
  | vote ds' id voter support votes reason o events hstate hsupport hobjection hlogged =>
    have hle : id ≤ g.ds.proposalCount := by
      rcases hstate with hstate | hstate
      · exact ProposalStorage.stateInternal_le hstate
      · exact ProposalStorage.stateInternal_le hstate
    exact h.vote hle hsupport hobjection hlogged
  | queue ds' id eta hstate heta hlogged =>
    obtain ⟨_, hin⟩ := ProposalStorage.isIn_of_stateInternal hstate
    cases hin with
    | succeeded halive _ _ hzero => exact h.queue halive hzero heta hlogged
  | begin_ ds' id hpos _ hstate hlogged =>
    obtain ⟨_, hin⟩ := ProposalStorage.isIn_of_stateInternal hstate
    cases hin with
    | queued halive _ _ heta hexecuted _ =>
      exact h.begin_ hpos (ProposalStorage.stateInternal_le hstate) halive heta hexecuted hlogged
  | finish ds' id rest hrest hlogged => exact h.finish hrest hlogged
  | cancel ds' id s hstate hs hexecuted hlogged =>
    obtain ⟨_, hin⟩ := ProposalStorage.isIn_of_stateInternal hstate
    have halive : (g.ds.proposals id).Alive := by
      cases hin with
      | vetoed _ => exact absurd rfl hs.2.2.2.2
      | canceled _ _ => exact absurd rfl hs.1
      | updatable ha | pending ha | active ha | objectionPeriod ha | defeated ha | succeeded ha
      | executed ha | expired ha | queued ha => exact ha
    exact h.cancel halive (hexecuted halive) hlogged
  | veto ds' id s _ _ hexecuted hlogged => exact h.veto hexecuted hlogged
  | quorum ds' call params _ hstore hlog =>
    exact h.aside (fun _ he => quorumEvents_unproposed he) hlog (by rw [hstore]) (by rw [hstore]) rfl
  | switch ds' _ hstore hlog =>
    have hevents : ∀ e ∈ [DAOEvent.VoteSnapshotBlockSwitchProposalIdSet 0
        (g.ds.proposalCount + 1)], e.proposalId? = none := by
      intro e he
      rw [List.mem_singleton.mp he]
      rfl
    exact h.aside hevents hlog (by rw [hstore]) (by rw [hstore]) rfl

theorem Mirrored.steps [DecidableEq H] {env : Env H} (h : Mirrored g)
    (hsteps : Course.Steps env g g') : Mirrored g' := by
  induction hsteps with
  | refl => exact h
  | tail _ hstep ih => exact ih.step hstep

end Steps

/-! ## The log -/

/-- The event queues, cancels or vetoes a proposal. -/
def isStage : DAOEvent → Bool
  | .ProposalQueued .. | .ProposalCanceled _ | .ProposalVetoed _ => true
  | _ => false

/-- Where one proposal is replaced by a related one, all are related to what they were. -/
theorem update_related {R : Nouns.Proposal → Nouns.Proposal → Prop} (hrefl : ∀ p, R p p)
    {proposals : Nat → Nouns.Proposal} {id : Nat} {p : Nouns.Proposal} (h : R (proposals id) p)
    (id' : Nat) : R (proposals id') (Function.update proposals id p id') := by
  by_cases heq : id' = id
  · subst heq
    rw [Function.update_self]
    exact h
  · rw [Function.update_of_ne heq]
    exact hrefl _

/-- The log tells which proposals were queued, canceled and vetoed. -/
structure Recorded (ds : StorageV3 H) : Prop where
  queued : ∀ id, (∃ eta, .ProposalQueued id eta ∈ ds.log) ↔ (ds.proposals id).eta ≠ 0
  canceled : ∀ id, .ProposalCanceled id ∈ ds.log ↔ (ds.proposals id).canceled = true
  vetoed : ∀ id, .ProposalVetoed id ∈ ds.log ↔ (ds.proposals id).vetoed = true

namespace Recorded

variable {ds ds' : StorageV3 H}

/-- Other events. -/
theorem of_same (h : Recorded ds) {events : List DAOEvent} (hlog : ds'.log = events ++ ds.log)
    (hevents : ∀ e ∈ events, isStage e = false)
    (hsame : ∀ id, SameMarks (ds.proposals id) (ds'.proposals id)) : Recorded ds' := by
  have hmem : ∀ e, isStage e = true → (e ∈ ds'.log ↔ e ∈ ds.log) := by
    intro e he
    rw [hlog, List.mem_append]
    refine or_iff_right ?_
    intro hnew
    exact absurd ((hevents e hnew).symm.trans he) Bool.false_ne_true
  refine ⟨fun id => ?_, fun id => ?_, fun id => ?_⟩
  · rw [(hsame id).eta, ← h.queued id]
    exact exists_congr fun eta => hmem _ rfl
  · rw [(hsame id).canceled, ← h.canceled id]
    exact hmem _ rfl
  · rw [(hsame id).vetoed, ← h.vetoed id]
    exact hmem _ rfl

/-- One proposal changed and its event was logged. -/
theorem of_update (h : Recorded ds) {id : Nat} {p : Nouns.Proposal} {e : DAOEvent}
    (hlogged : ds.Logged ds' (Function.update ds.proposals id p) ds.proposalCount [e])
    (hqueued : (∃ eta, e = .ProposalQueued id eta) ∨ (ds.proposals id).eta ≠ 0 ↔ p.eta ≠ 0)
    (hcanceled : e = .ProposalCanceled id ∨ (ds.proposals id).canceled = true ↔ p.canceled = true)
    (hvetoed : e = .ProposalVetoed id ∨ (ds.proposals id).vetoed = true ↔ p.vetoed = true)
    (hother : ∀ id' ≠ id, (∀ eta, e ≠ .ProposalQueued id' eta) ∧ e ≠ .ProposalCanceled id' ∧
      e ≠ .ProposalVetoed id') : Recorded ds' := by
  have hlog : ∀ e', e' ∈ ds'.log ↔ e = e' ∨ e' ∈ ds.log := by
    intro e'
    rw [hlogged.log, List.singleton_append, List.mem_cons, eq_comm]
  refine ⟨fun id' => ?_, fun id' => ?_, fun id' => ?_⟩
  · rw [hlogged.proposals]
    simp only [hlog, exists_or, h.queued]
    by_cases heq : id' = id
    · subst heq
      rw [Function.update_self]
      exact hqueued
    · rw [Function.update_of_ne heq]
      exact or_iff_right fun ⟨eta, he⟩ => (hother id' heq).1 eta he
  · rw [hlogged.proposals, hlog, h.canceled]
    by_cases heq : id' = id
    · subst heq
      rw [Function.update_self]
      exact hcanceled
    · rw [Function.update_of_ne heq]
      exact or_iff_right (hother id' heq).2.1
  · rw [hlogged.proposals, hlog, h.vetoed]
    by_cases heq : id' = id
    · subst heq
      rw [Function.update_self]
      exact hvetoed
    · rw [Function.update_of_ne heq]
      exact or_iff_right (hother id' heq).2.2

/-- One proposal changed, with other events. -/
theorem of_logged (h : Recorded ds) {id proposalCount : Nat} {p : Nouns.Proposal}
    {events : List DAOEvent}
    (hlogged : ds.Logged ds' (Function.update ds.proposals id p) proposalCount events)
    (hp : SameMarks (ds.proposals id) p) (hevents : ∀ e ∈ events, isStage e = false) :
    Recorded ds' := by
  refine h.of_same hlogged.log hevents ?_
  rw [hlogged.proposals]
  exact update_related SameMarks.refl hp

variable {g g' : Course H}

theorem step [DecidableEq H] {env : Env H} (h : Recorded g.ds) (hstep : g.Step env g') :
    Recorded g'.ds := by
  cases hstep with
  | aside ds' haside =>
    obtain ⟨events, hevents, hlogged⟩ := haside
    refine h.of_same hlogged.log ?_ ?_
    · intro e he
      have hofProposals := hevents e he
      cases e <;> first | rfl | cases hofProposals
    · rw [hlogged.proposals]
      exact fun _ => .refl _
  | create ds' p minQuorumVotes description _ hslot hcreated _ _ hlogged =>
    obtain ⟨-, heta, halive, -⟩ := created_terms hslot hcreated
    refine h.of_logged hlogged ?_ ?_
    · rw [hslot]
      exact ⟨heta, halive.1, halive.2⟩
    · intro e he
      simp only [StorageV3.creationEvents, List.mem_append, List.mem_cons, List.not_mem_nil,
        or_false] at he
      rcases he with he | rfl | rfl
      · split at he
        · rw [List.mem_singleton.mp he]
          rfl
        · exact absurd he List.not_mem_nil
      · rfl
      · rfl
  | update ds' id txs e _ hevent hlogged =>
    refine h.of_logged hlogged ⟨rfl, rfl, rfl⟩ ?_
    intro e' he'
    rw [List.mem_singleton.mp he']
    cases hevent <;> rfl
  | vote ds' id voter support votes reason o objection _ hsupport hobjection hlogged =>
    refine h.of_logged hlogged ?_ ?_
    · rw [StorageV3.countVotes_eq _ hsupport]
      exact ⟨rfl, rfl, rfl⟩
    · intro e he
      rcases List.mem_cons.mp he with rfl | he
      · rfl
      · cases hobjection with
        | none => exact absurd he List.not_mem_nil
        | opened o =>
          rw [List.mem_singleton.mp he]
          rfl
  | queue ds' id eta _ heta hlogged =>
    refine h.of_update hlogged ?_ ?_ ?_ ?_
    · exact iff_of_true (.inl ⟨eta, rfl⟩) heta
    · exact or_iff_right DAOEvent.noConfusion
    · exact or_iff_right DAOEvent.noConfusion
    · intro id' hne
      refine ⟨fun _ he => hne ?_, DAOEvent.noConfusion, DAOEvent.noConfusion⟩
      exact (DAOEvent.ProposalQueued.inj he).1.symm
  | begin_ ds' id _ _ _ hlogged => exact h.of_logged hlogged ⟨rfl, rfl, rfl⟩ fun _ he => absurd he List.not_mem_nil
  | finish ds' id rest _ hlogged =>
    refine h.of_same hlogged.log ?_ ?_
    · intro e he
      rw [List.mem_singleton.mp he]
      rfl
    · rw [hlogged.proposals]
      exact fun _ => .refl _
  | cancel ds' id s _ _ _ hlogged =>
    refine h.of_update hlogged ?_ ?_ ?_ ?_
    · exact or_iff_right (not_exists.mpr fun _ => DAOEvent.noConfusion)
    · exact iff_of_true (.inl rfl) rfl
    · exact or_iff_right DAOEvent.noConfusion
    · intro id' hne
      refine ⟨fun _ => DAOEvent.noConfusion, fun he => hne ?_, DAOEvent.noConfusion⟩
      exact (DAOEvent.ProposalCanceled.inj he).symm
  | veto ds' id s _ _ _ hlogged =>
    refine h.of_update hlogged ?_ ?_ ?_ ?_
    · exact or_iff_right (not_exists.mpr fun _ => DAOEvent.noConfusion)
    · exact or_iff_right DAOEvent.noConfusion
    · exact iff_of_true (.inl rfl) rfl
    · intro id' hne
      refine ⟨fun _ => DAOEvent.noConfusion, DAOEvent.noConfusion, fun he => hne ?_⟩
      exact (DAOEvent.ProposalVetoed.inj he).symm
  | quorum ds' call params _ hstore hlog =>
    refine h.of_same hlog ?_ ?_
    · intro e he
      have hunproposed := quorumEvents_unproposed he
      cases e <;> first | rfl | cases hunproposed
    · rw [hstore]
      exact fun _ => .refl _
  | switch ds' _ hstore hlog =>
    have hevents : ds'.log = [DAOEvent.VoteSnapshotBlockSwitchProposalIdSet 0
        (g.ds.proposalCount + 1)] ++ g.ds.log := hlog
    refine h.of_same hevents ?_ ?_
    · intro e he
      rw [List.mem_singleton.mp he]
      rfl
    · rw [hstore]
      exact fun _ => .refl _

theorem steps [DecidableEq H] {env : Env H} (h : Recorded g.ds) (hsteps : Course.Steps env g g') :
    Recorded g'.ds := by
  induction hsteps with
  | refl => exact h
  | tail _ hstep ih => exact ih.step hstep

end Recorded

/-! ## The number of queued proposals -/

section Queued

variable {g : Course H} {s : Store} {id : Nat}

theorem StatusOf.queued_some {p : Nouns.Proposal} {running : Prop} {executionETA : Option Nat}
    (h : StatusOf p running .QUEUED executionETA) : executionETA ≠ none := by
  cases h with
  | opened _ _ _ _ hopen => rcases hopen with hopen | hopen <;> cases hopen
  | queued => exact Option.some_ne_none _

/-- Of the proposals that keep an `executionETA`, those canceled or vetoed are no longer queued. -/
theorem StatusOf.not_queued_iff {p : Nouns.Proposal} {running : Prop} {status : ProposalStatus}
    {executionETA : Option Nat} (h : StatusOf p running status executionETA) :
    executionETA ≠ none ∧ status ≠ .QUEUED ↔
      p.eta ≠ 0 ∧ (p.canceled = true ∨ p.vetoed = true) := by
  cases h with
  | opened _ _ heta _ _ => exact iff_of_false (fun h => h.1 rfl) (fun h => h.1 heta)
  | queued halive _ _ =>
    refine iff_of_false (fun h => h.2 rfl) ?_
    rintro ⟨-, hcanceled | hvetoed⟩
    · exact absurd (halive.2.symm.trans hcanceled) Bool.false_ne_true
    · exact absurd (halive.1.symm.trans hvetoed) Bool.false_ne_true
  | executed halive _ _ _ =>
    refine iff_of_false (fun h => h.1 rfl) ?_
    rintro ⟨-, hcanceled | hvetoed⟩
    · exact absurd (halive.2.symm.trans hcanceled) Bool.false_ne_true
    · exact absurd (halive.1.symm.trans hvetoed) Bool.false_ne_true
  | canceled _ _ hcanceled _ heta =>
    exact ⟨fun h => ⟨mt heta.mpr h.1, .inl hcanceled⟩, fun h => ⟨mt heta.mp h.1, nofun⟩⟩
  | vetoed _ hvetoed _ heta =>
    exact ⟨fun h => ⟨mt heta.mpr h.1, .inr hvetoed⟩, fun h => ⟨mt heta.mp h.1, nofun⟩⟩

/-- The counter is the number of queued proposals unless one of them left the queue otherwise than by
its execution. -/
theorem ProposalsIndexed.queued_iff (h : ProposalsIndexed g s)
    (hborn : ∀ id, (g.ds.proposals id).eta ≠ 0 → 0 < id ∧ id ≤ g.ds.proposalCount) :
    s.getGovernanceEntity.proposalsQueued = s.proposals.count (fun _ e => e.status = .QUEUED) ↔
      ∀ id, (g.ds.proposals id).eta ≠ 0 →
        (g.ds.proposals id).canceled = false ∧ (g.ds.proposals id).vetoed = false := by
  have hsubset : s.proposals.ids (fun _ e => e.status = .QUEUED) ⊆
      s.proposals.ids fun _ e => e.executionETA ≠ none := by
    rintro id ⟨e, hload, hqueued⟩
    have hstatus := (h.mirrors hload).status
    rw [hqueued] at hstatus
    exact ⟨e, hload, hstatus.queued_some⟩
  have hcount : s.getGovernanceEntity.proposalsQueued =
      s.proposals.count (fun _ e => e.status = .QUEUED) ↔
      s.proposals.ids (fun _ e => e.status = .QUEUED) =
        s.proposals.ids fun _ e => e.executionETA ≠ none := by
    rw [h.counted, Nat.cast_inj, count, count]
    refine ⟨fun heq => ?_, fun heq => by rw [heq]⟩
    exact Set.eq_of_subset_of_ncard_le hsubset heq.le (h.finite_ids _)
  rw [hcount]
  constructor
  · intro heq id heta
    obtain ⟨hpos, hle⟩ := hborn id heta
    obtain ⟨e, hload, hm⟩ := h.created id hpos hle
    by_contra hended
    have hmarked : (g.ds.proposals id).canceled = true ∨ (g.ds.proposals id).vetoed = true := by
      simpa only [not_and_or, Bool.not_eq_false] using hended
    obtain ⟨hsome, hnot⟩ := hm.status.not_queued_iff.mpr ⟨heta, hmarked⟩
    have hmem : id ∈ s.proposals.ids fun _ e => e.status = .QUEUED := heq ▸ ⟨e, hload, hsome⟩
    obtain ⟨e', hload', hqueued⟩ := hmem
    rw [hload] at hload'
    cases hload'
    exact hnot hqueued
  · intro hends
    refine hsubset.antisymm ?_
    rintro id ⟨e, hload, hsome⟩
    refine ⟨e, hload, ?_⟩
    by_contra hnot
    obtain ⟨heta, hmarked⟩ := (h.mirrors hload).status.not_queued_iff.mp ⟨hsome, hnot⟩
    obtain ⟨hcanceled, hvetoed⟩ := hends id heta
    rcases hmarked with hmarked | hmarked
    · exact absurd (hcanceled.symm.trans hmarked) Bool.false_ne_true
    · exact absurd (hvetoed.symm.trans hmarked) Bool.false_ne_true

end Queued

/-! ## Runs -/

/-- Nothing was logged about a proposal. -/
def Unproposed (ds : StorageV3 H) : Prop := ∀ e ∈ ds.log, e.proposalId? = none

theorem Unproposed.aside {ds ds' : StorageV3 H} (h : Unproposed ds) (haside : ds.Aside ds') :
    Unproposed ds' := by
  obtain ⟨events, hevents, hlogged⟩ := haside
  intro e he
  rw [hlogged.log] at he
  rcases List.mem_append.mp he with he | he
  · exact DAOEvent.proposalId?_of_aside (hevents e he)
  · exact h e he

theorem Unproposed.quorumCall {ds ds' : StorageV3 H} {sender : Address} {now : Nat}
    {c : QuorumCall} (h : Unproposed ds) (hcall : ds.quorumCall sender now c = .ok ds') :
    Unproposed ds' := by
  obtain ⟨params, -, -, hlog⟩ := StorageV3.quorumCall_logged hcall
  intro e he
  rw [hlog] at he
  rcases List.mem_append.mp he with he | he
  · exact quorumEvents_unproposed he
  · exact h e he

open StorageV3 in
/-- Deployment logs the parameters. -/
theorem deploy_unproposed {ds : StorageV3 H}
    {sender timelock nouns forkEscrow forkDAODeployer vetoer admin : Address} {now : Nat}
    {daoParams : NounsDAOParams} {params : Nouns.DynamicQuorumParams}
    (h : deploy sender now timelock nouns forkEscrow forkDAODeployer vetoer admin daoParams params =
      .ok ds) : Unproposed ds := by
  simp only [deploy, initializeBy, bind_eq_ok, pure_eq_ok] at h
  obtain ⟨ds₈, ⟨_, -, _, -, _, -, _, -, ds₁, h₁, ds₂, h₂, ds₃, h₃, ds₅, h₅, ds₆, h₆, ds₇, h₇, h₈⟩,
    rfl⟩ := h
  have hblank : Unproposed (StorageV3.blank sender : StorageV3 H) :=
    fun _ he => absurd he List.not_mem_nil
  have u₁ := hblank.aside (adminCall_aside (c := .setVotingPeriod _) h₁)
  have u₂ := u₁.aside (adminCall_aside (c := .setVotingDelay _) h₂)
  have u₃ := u₂.aside (adminCall_aside (c := .setProposalThresholdBPS _) h₃)
  have u₄ : Unproposed { ds₃ with timelock, forkEscrow, forkDAODeployer, vetoer } := u₃
  have u₅ := u₄.quorumCall (c := .setDynamicQuorumParams _ _ _) h₅
  have u₆ := u₅.aside (adminCall_aside (c := .setLastMinuteWindowInBlocks _) h₆)
  have u₇ := u₆.aside (adminCall_aside (c := .setObjectionPeriodDurationInBlocks _) h₇)
  have u₈ := u₇.aside (adminCall_aside (c := .setProposalUpdatablePeriodInBlocks _) h₈)
  exact u₈

/-- The DAO has no proposals, no call is in progress and nothing was logged about a proposal. -/
structure Starts (w : World H) : Prop where
  fresh : w.Fresh
  log : Unproposed w.dao

theorem starts_of_deployed {w : World H} (h : w.Deployed) : Starts w := by
  refine ⟨h.fresh, ?_⟩
  obtain ⟨⟨_, _, _, _, _, _, _, _, _, hdao⟩, -⟩ := h
  exact deploy_unproposed hdao

theorem Starts.mirrored {w : World H} (h : Starts w) : Mirrored w.course := by
  intro s hs
  have hlog : w.course.ds.log = w.dao.log ++ [] := (List.append_nil _).symm
  rw [hlog] at hs
  obtain ⟨s₀, hs₀, hsame⟩ := hs.aside h.log
  have hempty := hs₀.nil.sameProposals.trans hsame
  have hcount : w.course.ds.proposalCount = 0 := h.fresh.proposalCount
  have hexec : w.course.executing = [] := by
    simp only [World.course, World.gov, h.fresh.frames]
    rfl
  refine ⟨?_, ?_, ?_, ?_, ?_, ?_⟩
  · intro id hle
    rw [show w.course.ds.proposals id = _ from h.fresh.proposals id]
    exact (Nat.le_zero.mp (hcount ▸ hle)).symm
  · intro id hpos hle
    omega
  · intro id _
    rw [hempty.proposals]
    rfl
  · rw [hexec]
    exact fun id hmem => absurd hmem List.not_mem_nil
  · rw [hexec]
    exact List.nodup_nil
  · rw [hempty.proposalsQueued, hempty.proposals]
    exact (congrArg Nat.cast count_empty).symm

/-- Every proposal is empty, and the log tells that nothing happened to any. -/
theorem Starts.recorded {w : World H} (h : Starts w) : Recorded w.course.ds := by
  have hempty : ∀ id, w.dao.proposals id = Nouns.Proposal.empty := h.fresh.proposals
  have hnone : ∀ e ∈ w.dao.log, e.proposalId? = none := h.log
  refine ⟨fun id => iff_of_false ?_ ?_, fun id => iff_of_false ?_ ?_, fun id => iff_of_false ?_ ?_⟩
  · rintro ⟨eta, hmem⟩
    cases hnone _ hmem
  · exact fun heta => heta (congrArg Nouns.Proposal.eta (hempty id))
  · intro hmem
    cases hnone _ hmem
  · intro hcanceled
    exact absurd ((congrArg Nouns.Proposal.canceled (hempty id)).symm.trans hcanceled)
      Bool.false_ne_true
  · intro hmem
    cases hnone _ hmem
  · intro hvetoed
    exact absurd ((congrArg Nouns.Proposal.vetoed (hempty id)).symm.trans hvetoed)
      Bool.false_ne_true

section Runs

variable {d : Deployment H} {w w' : World H} {s : Store}

/-- What holds of every state of the DAO: the log tells it, and so does the index. -/
structure Told (w : World H) : Prop where
  wf : w.gov.Wf
  won : w.gov.Won
  mirrored : Mirrored w.course
  recorded : Recorded w.course.ds

/-- Only a proposal that was created is queued. -/
theorem Told.born (h : Told w) {id : Nat} (heta : (w.dao.proposals id).eta ≠ 0) :
    0 < id ∧ id ≤ w.dao.proposalCount := by
  refine ⟨Nat.pos_of_ne_zero ?_, ?_⟩
  · rintro rfl
    have hwon := h.won 0 heta
    rw [h.wf.defeated_zero] at hwon
    cases hwon
  · by_contra hlt
    have hempty : w.dao.proposals id = Nouns.Proposal.empty := h.wf.fresh id (Nat.lt_of_not_le hlt)
    rw [hempty] at heta
    exact heta rfl

/-- The handlers of `ProposalCanceled` and `ProposalVetoed` leave the counter alone, whereas that of
`ProposalExecuted` lowers it. -/
theorem Told.queued_iff (h : Told w) (hs : EventsIndexed w.dao.log s) :
    s.getGovernanceEntity.proposalsQueued = s.proposals.count (fun _ e => e.status = .QUEUED) ↔
      ∀ id eta, .ProposalQueued id eta ∈ w.dao.log →
        .ProposalCanceled id ∉ w.dao.log ∧ .ProposalVetoed id ∉ w.dao.log := by
  rw [(h.mirrored s hs).queued_iff fun _ => h.born]
  refine forall_congr' fun id => ?_
  have hcanceled : .ProposalCanceled id ∉ w.dao.log ↔ (w.dao.proposals id).canceled = false := by
    rw [← Bool.not_eq_true]
    exact (h.recorded.canceled id).not
  have hvetoed : .ProposalVetoed id ∉ w.dao.log ↔ (w.dao.proposals id).vetoed = false := by
    rw [← Bool.not_eq_true]
    exact (h.recorded.vetoed id).not
  rw [hcanceled, hvetoed]
  exact (imp_congr_left (h.recorded.queued id).symm).trans forall_exists_index

variable [DecidableEq H]

theorem told_of_reachable (hr : Reachable Starts (World.NextAny d) w) : Told w := by
  refine hr.invariant ?_ ?_
  · intro w hw
    refine ⟨hw.fresh.wf, ?_, hw.mirrored, hw.recorded⟩
    intro id heta
    rw [show w.gov.store.proposals id = _ from hw.fresh.proposals id] at heta
    exact absurd rfl heta
  · rintro w w' - ⟨hwf, hwon, hm, hrecorded⟩ hn
    have hstore := hn.storeStep
    have hsteps := hn.course hwf hwon
    exact ⟨hstore.wf hwf, hstore.won hwf hwon, hm.steps hsteps, hrecorded.steps hsteps⟩

/-- `proposalsQueued` is the number of queued proposals as long as no proposal that was queued has been
canceled or vetoed, and never again after. -/
theorem proposalsQueued_eq_iff (hr : Reachable Starts (World.NextAny d) w)
    (hs : EventsIndexed w.dao.log s) :
    s.getGovernanceEntity.proposalsQueued = s.proposals.count (fun _ e => e.status = .QUEUED) ↔
      ∀ id eta, .ProposalQueued id eta ∈ w.dao.log →
        .ProposalCanceled id ∉ w.dao.log ∧ .ProposalVetoed id ∉ w.dao.log :=
  (told_of_reachable hr).queued_iff hs

end Runs

/-- All events of the DAO in one block. -/
theorem eventsIndexed_of_indexed {log : List DAOEvent} {s : Store} {block : Block}
    (h : indexed (log.map (.dao block)) = some s) : EventsIndexed log s := by
  refine ⟨log.map (Prod.mk block), ?_, log.map (.dao block), ?_, ?_, h⟩
  · rw [List.map_map]
    exact List.map_id log
  · intro e he
    obtain ⟨_, -, rfl⟩ := List.mem_map.mp he
    rfl
  · rw [daoBlockEvents, List.filterMap_map]
    exact congrFun List.filterMap_eq_map log

theorem starts_sample : Starts (World.sample : World Preimage) :=
  ⟨World.sample_fresh, fun _ he => absurd he List.not_mem_nil⟩

/-- 7 mints two Nouns, proposes, votes and queues its proposal. -/
def queuesFirstProposal : List Action := [.callToken .minter .mint, .advance 2 2,
  .ofDAO .minter (.propose .sample ""), .advance 4 4, .ofDAO .minter (.castVote 1 1),
  .advance 7204 100000, .ofDAO .minter (.queue 1)]

/-- The proposal that was queued is the one counted. -/
theorem proposalsQueued_of_first_proposal :
    ∃ w s, Reachable Starts (World.NextAny .sample) w ∧ EventsIndexed w.dao.log s ∧
      (∃ eta, .ProposalQueued 1 eta ∈ w.dao.log) ∧ s.getGovernanceEntity.proposalsQueued = 1 ∧
      s.getGovernanceEntity.proposalsQueued = s.proposals.count (fun _ e => e.status = .QUEUED) := by
  have hrun : Yields (World.sample.run .sample (fun _ _ _ => True) queuesFirstProposal) (fun w =>
      w.dao.proposalCount = 1 ∧ (w.dao.proposals 1).eta ≠ 0 ∧
      (w.dao.proposals 1).canceled = false ∧ (w.dao.proposals 1).vetoed = false ∧
      (indexed (w.dao.log.map (.dao ⟨7204, 100000, 2⟩))).any fun s =>
        s.getGovernanceEntity.proposalsQueued = 1) := by
    decide +kernel
  obtain ⟨w, hw, hcount, heta, hcanceled, hvetoed, hindexed⟩ := hrun
  obtain ⟨s, hs, hqueued⟩ := (Option.any_eq_true _ _).mp hindexed
  have hr : Reachable Starts (World.NextAny .sample) w :=
    ⟨World.sample, starts_sample, World.run_steps (fun w a w' hstep _ => .step a trivial hstep) hw⟩
  have htold := told_of_reachable hr
  have hindexed := eventsIndexed_of_indexed hs
  refine ⟨w, s, hr, hindexed, (htold.recorded.queued 1).mpr heta, of_decide_eq_true hqueued, ?_⟩
  refine (proposalsQueued_eq_iff hr hindexed).mpr fun id eta hmem => ?_
  obtain ⟨hpos, hle⟩ := htold.born ((htold.recorded.queued id).mp ⟨eta, hmem⟩)
  obtain rfl : id = 1 := by omega
  refine ⟨fun h => ?_, fun h => ?_⟩
  · exact absurd (hcanceled.symm.trans ((htold.recorded.canceled 1).mp h)) Bool.false_ne_true
  · exact absurd (hvetoed.symm.trans ((htold.recorded.vetoed 1).mp h)) Bool.false_ne_true

/-- Then 7 cancels it: no proposal is queued, and one is counted. -/
theorem proposalsQueued_ne_after_cancel :
    ∃ w s, Reachable Starts (World.NextAny .sample) w ∧ EventsIndexed w.dao.log s ∧
      s.getGovernanceEntity.proposalsQueued = 1 ∧
      s.getGovernanceEntity.proposalsQueued ≠ s.proposals.count (fun _ e => e.status = .QUEUED) := by
  have hrun : Yields (World.sample.run .sample (fun _ _ _ => True)
      (queuesFirstProposal ++ [.ofDAO .minter (.cancel 1)])) (fun w =>
      (w.dao.proposals 1).eta ≠ 0 ∧ (w.dao.proposals 1).canceled = true ∧
      (indexed (w.dao.log.map (.dao ⟨7204, 100000, 2⟩))).any fun s =>
        s.getGovernanceEntity.proposalsQueued = 1) := by
    decide +kernel
  obtain ⟨w, hw, heta, hcanceled, hindexed⟩ := hrun
  obtain ⟨s, hs, hqueued⟩ := (Option.any_eq_true _ _).mp hindexed
  have hr : Reachable Starts (World.NextAny .sample) w :=
    ⟨World.sample, starts_sample, World.run_steps (fun w a w' hstep _ => .step a trivial hstep) hw⟩
  have htold := told_of_reachable hr
  have hindexed := eventsIndexed_of_indexed hs
  refine ⟨w, s, hr, hindexed, of_decide_eq_true hqueued, fun heq => ?_⟩
  obtain ⟨eta, hmem⟩ := (htold.recorded.queued 1).mpr heta
  exact ((htold.queued_iff hindexed).mp heq 1 eta hmem).1 ((htold.recorded.canceled 1).mpr hcanceled)

end Nouns.Subgraph
