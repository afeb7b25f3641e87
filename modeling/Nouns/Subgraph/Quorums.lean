import Nouns.Subgraph.Proposals

/-!
# Quorums — the indexed quorum and the chain

What the log tells about the quorum of a proposal stands between the two: the index follows the log
whatever it is, and so does the contract.  They differ in the parameters, which the contract looks up as
they were when the block ended, and in the supply, which the index reads then.
-/

open Checkpoints EntityStore EntityStore.Table Fallible Relation Transition

namespace Nouns.Subgraph

variable {H : Type}

/-! ## What the log tells -/

/-- The event sets a parameter of the quorum. -/
def isQuorumEvent : DAOEvent → Bool
  | .MinQuorumVotesBPSSet .. | .MaxQuorumVotesBPSSet .. | .QuorumCoefficientSet .. => true
  | _ => false

/-- The parameters after these events, of which the latest comes first. -/
def paramsOf : List DAOEvent → Nouns.DynamicQuorumParams
  | [] => ⟨0, 0, 0⟩
  | .MinQuorumVotesBPSSet _ newMin :: log => { paramsOf log with minQuorumVotesBPS := newMin }
  | .MaxQuorumVotesBPSSet _ newMax :: log => { paramsOf log with maxQuorumVotesBPS := newMax }
  | .QuorumCoefficientSet _ newCoefficient :: log =>
      { paramsOf log with quorumCoefficient := newCoefficient }
  | _ :: log => paramsOf log

/-- The block in which a parameter was first set. -/
def startOf : List (Block × DAOEvent) → Option Nat
  | [] => none
  | (block, e) :: log => if isQuorumEvent e then (startOf log).or (some block.number) else startOf log

/-- The events up to block `n`. -/
def upTo (n : Nat) (log : List (Block × DAOEvent)) : List DAOEvent :=
  (log.filter fun entry => entry.1.number ≤ n).map Prod.snd

/-- What the quorum of a proposal depends on: its block, the quorum and the parameters when it was
created, the votes against it and whether there was a vote at all. -/
structure Ballot where
  block : Block
  minQuorumVotes : Nat
  params : Nouns.DynamicQuorumParams
  start : Option Nat
  againstVotes : Nat
  voted : Bool

def Ballot.vote (x : Ballot) (support votes : Nat) : Ballot :=
  { x with againstVotes := if support = 0 then x.againstVotes + votes else x.againstVotes, voted := true }

def ballotOf (id : Nat) : List (Block × DAOEvent) → Option Ballot
  | [] => none
  | (block, .ProposalCreatedWithRequirements id' _ _ _ _ _ _ _ minQuorumVotes _) :: log =>
      if id' = id then some ⟨block, minQuorumVotes, paramsOf (log.map Prod.snd), startOf log, 0, false⟩
      else ballotOf id log
  | (_, .VoteCast _ id' support votes _) :: log =>
      if id' = id then (ballotOf id log).map (·.vote support votes) else ballotOf id log
  | _ :: log => ballotOf id log

/-- The event opens a ballot or counts a vote. -/
def isBallotEvent : DAOEvent → Bool
  | .ProposalCreatedWithRequirements .. | .VoteCast .. => true
  | _ => false

section Logs

variable {log : List (Block × DAOEvent)} {events older : List DAOEvent} {block : Block} {e : DAOEvent}
  {id n : Nat} {x : Ballot}

theorem paramsOf_cons (he : isQuorumEvent e = false) : paramsOf (e :: older) = paramsOf older := by
  cases e <;> first | rfl | cases he

theorem paramsOf_append (hevents : ∀ e ∈ events, isQuorumEvent e = false) :
    paramsOf (events ++ older) = paramsOf older := by
  induction events with
  | nil => rfl
  | cons e events ih =>
    rw [List.cons_append, paramsOf_cons (hevents e List.mem_cons_self)]
    exact ih fun e he => hevents e (List.mem_cons_of_mem _ he)

theorem ballotOf_cons (he : isBallotEvent e = false) :
    ballotOf id ((block, e) :: log) = ballotOf id log := by
  cases e <;> first | rfl | cases he

theorem ballotOf_append (hevents : ∀ e ∈ events, isBallotEvent e = false) :
    ballotOf id (events.map (Prod.mk block) ++ log) = ballotOf id log := by
  induction events with
  | nil => rfl
  | cons e events ih =>
    rw [List.map_cons, List.cons_append, ballotOf_cons (hevents e List.mem_cons_self)]
    exact ih fun e he => hevents e (List.mem_cons_of_mem _ he)

theorem startOf_cons_of_some (h : startOf log = some n) (entry : Block × DAOEvent) :
    startOf (entry :: log) = some n := by
  obtain ⟨block, e⟩ := entry
  rw [startOf, h]
  split <;> rfl

theorem startOf_append_of_some (h : startOf log = some n) (newer : List (Block × DAOEvent)) :
    startOf (newer ++ log) = some n := by
  induction newer with
  | nil => exact h
  | cons entry newer ih => exact startOf_cons_of_some ih entry

/-- The latest event opened the ballot, or counted a vote in it, or has nothing to do with it. -/
theorem ballotOf_cons_cases (h : ballotOf id ((block, e) :: log) = some x) :
    (∃ minQuorumVotes, x = ⟨block, minQuorumVotes, paramsOf (log.map Prod.snd), startOf log, 0, false⟩) ∨
      (∃ x₀ support votes, ballotOf id log = some x₀ ∧ x = x₀.vote support votes) ∨
      ballotOf id log = some x := by
  by_cases he : isBallotEvent e = true
  · cases e with
    | ProposalCreatedWithRequirements id' =>
      rw [ballotOf] at h
      split at h
      · exact .inl ⟨_, (Option.some.inj h).symm⟩
      · exact .inr (.inr h)
    | VoteCast voter id' support votes =>
      rw [ballotOf] at h
      split at h
      · obtain ⟨x₀, hx₀, rfl⟩ := Option.map_eq_some_iff.mp h
        exact .inr (.inl ⟨x₀, support, votes, hx₀, rfl⟩)
      · exact .inr (.inr h)
    | _ => cases he
  · rw [ballotOf_cons (Bool.eq_false_of_not_eq_true he)] at h
    exact .inr (.inr h)

/-- Once a parameter was set, the first time stays. -/
theorem startOf_of_ballotOf (h : ballotOf id log = some x) (hstart : x.start = some n) :
    startOf log = some n := by
  induction log generalizing x with
  | nil => cases h
  | cons entry log ih =>
    refine startOf_cons_of_some ?_ entry
    obtain ⟨_, rfl⟩ | ⟨x₀, _, _, hx₀, rfl⟩ | h := ballotOf_cons_cases h
    · exact hstart
    · exact ih hx₀ hstart
    · exact ih h hstart

/-- Without a vote there are no votes against. -/
theorem againstVotes_of_not_voted (h : ballotOf id log = some x) (hvoted : x.voted = false) :
    x.againstVotes = 0 := by
  induction log generalizing x with
  | nil => cases h
  | cons entry log ih =>
    obtain ⟨_, rfl⟩ | ⟨x₀, _, _, _, rfl⟩ | h := ballotOf_cons_cases h
    · rfl
    · cases hvoted
    · exact ih h hvoted

/-- Events of a block are among those up to it and none before. -/
theorem upTo_append (events : List DAOEvent) (block : Block) (log : List (Block × DAOEvent)) (n : Nat) :
    upTo n (events.map (Prod.mk block) ++ log) =
      (if block.number ≤ n then events else []) ++ upTo n log := by
  unfold upTo
  rw [List.filter_append, List.map_append, List.filter_map, List.map_map]
  by_cases hn : block.number ≤ n
  · simp [Function.comp_def, hn]
  · simp [Function.comp_def, hn]

theorem upTo_of_le (h : ∀ entry ∈ log, entry.1.number ≤ n) : upTo n log = log.map Prod.snd := by
  unfold upTo
  rw [List.filter_eq_self.mpr]
  intro entry hentry
  exact decide_eq_true (h entry hentry)

end Logs

/-! ## The index -/

namespace Store

variable {s s' s₁ : Store} {block : Block}

/-- The parameters of the index after these events. -/
def dqParamsOf (log : List (Block × DAOEvent)) : DynamicQuorumParams where
  minQuorumVotesBPS := (paramsOf (log.map Prod.snd)).minQuorumVotesBPS
  maxQuorumVotesBPS := (paramsOf (log.map Prod.snd)).maxQuorumVotesBPS
  quorumCoefficient := (paramsOf (log.map Prod.snd)).quorumCoefficient
  dynamicQuorumStartBlock := startOf log

theorem dqParams_of_load {id : Nat} {f : Proposal → Store}
    (h : (s.proposals.load id).bind (fun e => some (f e)) = some s')
    (hf : ∀ e, (f e).dynamicQuorumParams = s.dynamicQuorumParams) : s'.dqParams = s.dqParams := by
  obtain ⟨e, -, h⟩ := Option.bind_eq_some_iff.mp h
  rw [← Option.some.inj h, dqParams, hf, dqParams]

theorem forEach_dynamicQuorumParams {α : Type} {f : Store → α → Store}
    (hf : ∀ s a, (f s a).dynamicQuorumParams = s.dynamicQuorumParams) (l : List α) (s : Store) :
    (l.foldl f s).dynamicQuorumParams = s.dynamicQuorumParams := by
  induction l generalizing s with
  | nil => rfl
  | cons a l ih => exact (ih _).trans (hf s a)

theorem handleProposalCreated_dqParams (s : Store) (parsedProposal : ParsedProposalV3) :
    (s.handleProposalCreated parsedProposal).dqParams = s.dqParams := by
  refine (dqParams_getOrCreate _).trans ((beforeProposal_leavesDAO _ _ _).dqParams.trans ?_)
  split <;> rfl

/-- An event that sets no parameter. -/
theorem handleDAOEvent_dqParams {e : DAOEvent} (he : isQuorumEvent e = false)
    (h : s.handleDAOEvent block e = some s') : s'.dqParams = s.dqParams := by
  cases e with
  | ProposalCreatedWithRequirements =>
    rw [← Option.some.inj h]
    exact handleProposalCreated_dqParams s _
  | ProposalCreatedOnTimelockV1 | ProposalUpdated | ProposalTransactionsUpdated
  | ProposalDescriptionUpdated | ProposalCanceled | ProposalVetoed | ProposalQueued
  | ProposalExecuted | ProposalObjectionPeriodSet => exact dqParams_of_load h fun _ => rfl
  | VoteCast voter proposalId support votes reason =>
    simp only [handleDAOEvent, handleVoteCast, Option.bind_eq_bind, Option.bind_eq_some_iff,
      Option.pure_def, Option.some.injEq] at h
    obtain ⟨e, -, q, -, rfl⟩ := h
    refine (dqParams_getOrCreate _).trans ?_
    exact (getOrCreateDelegate_leavesDAO s voter).dqParams
  | MinQuorumVotesBPSSet | MaxQuorumVotesBPSSet | QuorumCoefficientSet => cases he
  | EscrowedToFork forkId owner tokenIds =>
    have hforEach : (s.handleEscrowedToFork forkId owner tokenIds).dynamicQuorumParams =
        (s.getOrCreateDelegate owner).1.dynamicQuorumParams := by
      simp only [handleEscrowedToFork, saveFork]
      apply forEach_dynamicQuorumParams
      exact fun _ _ => rfl
    rw [← Option.some.inj h, dqParams, hforEach,
      (getOrCreateDelegate_leavesDAO s owner).dynamicQuorumParams, dqParams]
  | WithdrawFromForkEscrow forkId owner tokenIds =>
    have hforEach : (s.handleWithdrawFromForkEscrow forkId owner tokenIds).dynamicQuorumParams =
        (s.getOrCreateDelegate owner).1.dynamicQuorumParams := by
      simp only [handleWithdrawFromForkEscrow, saveFork]
      apply forEach_dynamicQuorumParams
      exact fun _ _ => rfl
    rw [← Option.some.inj h, dqParams, hforEach,
      (getOrCreateDelegate_leavesDAO s owner).dynamicQuorumParams, dqParams]
  | JoinFork forkId owner tokenIds =>
    refine (congrArg dqParams (Option.some.inj h)).symm.trans ?_
    exact (getOrCreateDelegate_leavesDAO s owner).dqParams
  | _ => exact (congrArg dqParams (Option.some.inj h)).symm

/-- The index follows the parameters. -/
theorem dqParams_of_indexed {log : List (Block × DAOEvent)} (h : DAOIndexed log s) :
    s.dqParams = dqParamsOf log := by
  induction log generalizing s with
  | nil => exact h.nil.dqParams
  | cons entry log ih =>
    obtain ⟨block, e⟩ := entry
    obtain ⟨s₀, s₁, hindexed, hhandle, hleaves⟩ := h.cons
    have hs₀ := ih hindexed
    rw [hleaves.dqParams]
    by_cases he : isQuorumEvent e = true
    · cases e with
      | MinQuorumVotesBPSSet | MaxQuorumVotesBPSSet | QuorumCoefficientSet =>
        rw [← Option.some.inj hhandle]
        simp only [handleMinQuorumVotesBPSSet, handleMaxQuorumVotesBPSSet, handleQuorumCoefficientSet]
        rw [getOrCreateDynamicQuorumParams_eq, hs₀]
        rfl
      | _ => cases he
    · have he := Bool.eq_false_of_not_eq_true he
      rw [handleDAOEvent_dqParams he hhandle, hs₀]
      simp only [dqParamsOf, List.map_cons, paramsOf_cons he, startOf, he, Bool.false_eq_true, if_false]

end Store

/-- What the quorum of a proposal depends on is as before. -/
structure SameBallot (e e' : Proposal) : Prop where
  id : e'.id = e.id
  createdBlock : e'.createdBlock = e.createdBlock
  againstVotes : e'.againstVotes = e.againstVotes
  adjustedTotalSupply : e'.adjustedTotalSupply = e.adjustedTotalSupply
  minQuorumVotesBPS : e'.minQuorumVotesBPS = e.minQuorumVotesBPS
  maxQuorumVotesBPS : e'.maxQuorumVotesBPS = e.maxQuorumVotesBPS
  quorumCoefficient : e'.quorumCoefficient = e.quorumCoefficient
  quorumVotes : e'.quorumVotes = e.quorumVotes

theorem SameBallot.refl (e : Proposal) : SameBallot e e := ⟨rfl, rfl, rfl, rfl, rfl, rfl, rfl, rfl⟩

/-- The quorum that the dynamic formula gives for the entity. -/
def Proposal.computedQuorum (e : Proposal) : Option Int :=
  dynamicQuorumVotes e.againstVotes e.adjustedTotalSupply e.minQuorumVotesBPS e.maxQuorumVotesBPS
    e.quorumCoefficient

theorem SameBallot.computedQuorum {e e' : Proposal} (h : SameBallot e e') :
    e'.computedQuorum = e.computedQuorum := by
  simp only [Proposal.computedQuorum, h.againstVotes, h.adjustedTotalSupply, h.minQuorumVotesBPS,
    h.maxQuorumVotesBPS, h.quorumCoefficient]

/-- The entity of proposal `id` has this ballot.  Its quorum is computed anew with every vote, unless the
parameters were first set in its block: then it stays that of the creation. -/
structure Ballot.Indexed (x : Ballot) (id : Nat) (e : Proposal) : Prop where
  id : e.id = id
  createdBlock : e.createdBlock = x.block.number
  againstVotes : e.againstVotes = x.againstVotes
  adjustedTotalSupply : x.block.adjustedTotalSupply ≠ 0 →
    e.adjustedTotalSupply = x.block.adjustedTotalSupply
  minQuorumVotesBPS : e.minQuorumVotesBPS = x.params.minQuorumVotesBPS
  maxQuorumVotesBPS : e.maxQuorumVotesBPS = x.params.maxQuorumVotesBPS
  quorumCoefficient : e.quorumCoefficient = x.params.quorumCoefficient
  quorumVotes : ∀ n, x.start = some n →
    ((x.voted = false ∨ x.block.number ≤ n) ∧ e.quorumVotes = x.minQuorumVotes) ∨
      (n < x.block.number ∧ e.computedQuorum = some e.quorumVotes)

section Index

open Store

variable {log : List (Block × DAOEvent)} {s s' : Store} {block : Block} {id : Nat} {x : Ballot}
  {e e' : Proposal}

theorem Ballot.Indexed.congr (h : x.Indexed id e) (hsame : SameBallot e e') : x.Indexed id e' where
  id := hsame.id.trans h.id
  createdBlock := hsame.createdBlock.trans h.createdBlock
  againstVotes := hsame.againstVotes.trans h.againstVotes
  adjustedTotalSupply := fun hne => hsame.adjustedTotalSupply.trans (h.adjustedTotalSupply hne)
  minQuorumVotesBPS := hsame.minQuorumVotesBPS.trans h.minQuorumVotesBPS
  maxQuorumVotesBPS := hsame.maxQuorumVotesBPS.trans h.maxQuorumVotesBPS
  quorumCoefficient := hsame.quorumCoefficient.trans h.quorumCoefficient
  quorumVotes := by
    rw [hsame.computedQuorum, hsame.quorumVotes]
    exact h.quorumVotes

theorem Ballot.Indexed.vote (h : x.Indexed id e) {params : DynamicQuorumParams} {q : Int}
    {support votes : Nat} (hstart : ∀ n, x.start = some n → params.dynamicQuorumStartBlock = some n)
    (hq : updatedQuorum params (countVotes e support votes) = some q) :
    (x.vote support votes).Indexed id (Store.voted e support votes q) := by
  have hcount : (countVotes e support votes).againstVotes =
      (if support = 0 then x.againstVotes + votes else x.againstVotes : Nat) ∧
      SameBallot { e with againstVotes := (countVotes e support votes).againstVotes }
        (countVotes e support votes) := by
    unfold countVotes
    split
    · exact ⟨by simp [h.againstVotes], rfl, rfl, rfl, rfl, rfl, rfl, rfl, rfl⟩
    · exact ⟨by simp [h.againstVotes], rfl, rfl, rfl, rfl, rfl, rfl, rfl, rfl⟩
    · exact ⟨by simp [h.againstVotes], rfl, rfl, rfl, rfl, rfl, rfl, rfl, rfl⟩
    · rename_i hne _ _
      rw [if_neg hne]
      exact ⟨h.againstVotes, rfl, rfl, rfl, rfl, rfl, rfl, rfl, rfl⟩
  obtain ⟨hagainst, hsame⟩ := hcount
  refine ⟨hsame.id.trans h.id, hsame.createdBlock.trans h.createdBlock, hagainst,
    fun hne => hsame.adjustedTotalSupply.trans (h.adjustedTotalSupply hne),
    hsame.minQuorumVotesBPS.trans h.minQuorumVotesBPS,
    hsame.maxQuorumVotesBPS.trans h.maxQuorumVotesBPS,
    hsame.quorumCoefficient.trans h.quorumCoefficient, fun n hn => ?_⟩
  have husing : usingDynamicQuorum params (countVotes e support votes).createdBlock =
      decide (n < x.block.number) := by
    rw [hsame.createdBlock, usingDynamicQuorum, hstart n hn, ← h.createdBlock]
  by_cases hlt : n < x.block.number
  · rw [updatedQuorum, husing, if_pos (decide_eq_true hlt)] at hq
    exact .inr ⟨hlt, hq⟩
  · rw [updatedQuorum, husing, if_neg (by simpa using hlt), Option.some.injEq,
      hsame.quorumVotes] at hq
    rcases h.quorumVotes n hn with ⟨-, hquorum⟩ | ⟨hlt', -⟩
    · exact .inl ⟨.inr (Nat.not_lt.mp hlt), hq.symm.trans hquorum⟩
    · exact absurd hlt' hlt

/-- Other events about proposals. -/
theorem handleDAOEvent_sameBallot {e : DAOEvent} (he : isBallotEvent e = false)
    (h : s.handleDAOEvent block e = some s') :
    s'.proposals = s.proposals ∨ ∃ id e₀ e₁, s.proposals.load id = some e₀ ∧
      s'.proposals = s.proposals.save e₁.id e₁ ∧ SameBallot e₀ e₁ := by
  cases e with
  | ProposalCreatedWithRequirements | VoteCast => cases he
  | ProposalCreatedOnTimelockV1 | ProposalUpdated | ProposalTransactionsUpdated
  | ProposalDescriptionUpdated | ProposalCanceled | ProposalVetoed | ProposalObjectionPeriodSet =>
    obtain ⟨e₀, hload, hsaves⟩ := saves_of_load h
    exact .inr ⟨_, e₀, _, hload, hsaves.proposals, ⟨rfl, rfl, rfl, rfl, rfl, rfl, rfl, rfl⟩⟩
  | ProposalQueued =>
    obtain ⟨e₀, hload, hsaves⟩ := saves_of_load_queued 1 h rfl
    exact .inr ⟨_, e₀, _, hload, hsaves.proposals, ⟨rfl, rfl, rfl, rfl, rfl, rfl, rfl, rfl⟩⟩
  | ProposalExecuted =>
    obtain ⟨e₀, hload, hsaves⟩ := saves_of_load_queued (-1) h rfl
    exact .inr ⟨_, e₀, _, hload, hsaves.proposals, ⟨rfl, rfl, rfl, rfl, rfl, rfl, rfl, rfl⟩⟩
  | ProposalCreated =>
    rw [← Option.some.inj h]
    exact .inl rfl
  | _ => exact .inl (handleDAOEvent_sameProposals rfl h).proposals

/-- The index follows the ballots. -/
theorem ballot_of_indexed (h : DAOIndexed log s) (hload : s.proposals.load id = some e) :
    ∃ x, ballotOf id log = some x ∧ x.Indexed id e := by
  induction log generalizing s e id with
  | nil =>
    rw [h.nil.proposals] at hload
    cases hload
  | cons entry log ih =>
    obtain ⟨block, event⟩ := entry
    obtain ⟨s₀, s₁, hindexed, hhandle, hleaves⟩ := h.cons
    rw [hleaves.proposals] at hload
    have hparams := dqParams_of_indexed hindexed
    by_cases he : isBallotEvent event = true
    · cases event with
      | ProposalCreatedWithRequirements id' proposer signers txs startBlock endBlock
          updatePeriodEndBlock proposalThreshold minQuorumVotes =>
        obtain ⟨e₁, hsaves, hopens, -⟩ := handleProposalCreated_saves s₀
          (.fromV3Event block id' proposer signers txs startBlock endBlock updatePeriodEndBlock
            proposalThreshold minQuorumVotes)
        rw [← Option.some.inj hhandle, hsaves.proposals, hopens.id] at hload
        change (s₀.proposals.save id' e₁).load id = some e at hload
        rw [ballotOf]
        by_cases hid : id' = id
        · subst hid
          rw [load_save_self, Option.some.injEq] at hload
          subst hload
          rw [if_pos rfl]
          refine ⟨_, rfl, hopens.id, hopens.createdBlock, hopens.againstVotes,
            hopens.adjustedTotalSupply, ?_, ?_, ?_, fun _ _ => .inl ⟨.inl rfl, hopens.quorumVotes⟩⟩
          · rw [hopens.minQuorumVotesBPS, hparams]
            rfl
          · rw [hopens.maxQuorumVotesBPS, hparams]
            rfl
          · rw [hopens.quorumCoefficient, hparams]
            rfl
        · rw [load_save_ne (Ne.symm hid)] at hload
          rw [if_neg hid]
          exact ih hindexed hload
      | VoteCast voter id' support votes reason =>
        obtain ⟨e₀, q, hload₀, hq, hsaves⟩ := handleVoteCast_saves hhandle
        obtain ⟨x, hx, hxe⟩ := ih hindexed hload₀
        rw [hsaves.proposals, (voted_sameLife e₀ support votes q).id, hxe.id] at hload
        rw [ballotOf]
        by_cases hid : id' = id
        · subst hid
          rw [load_save_self, Option.some.injEq] at hload
          subst hload
          rw [if_pos rfl, hx]
          refine ⟨_, rfl, hxe.vote (fun n hn => ?_) hq⟩
          rw [hparams]
          exact startOf_of_ballotOf hx hn
        · rw [load_save_ne (Ne.symm hid)] at hload
          rw [if_neg hid]
          exact ih hindexed hload
      | _ => cases he
    · have he := Bool.eq_false_of_not_eq_true he
      rw [ballotOf_cons he]
      obtain hsame | ⟨id', e₀, e₁, hload₀, hsaved, hsame⟩ := handleDAOEvent_sameBallot he hhandle
      · rw [hsame] at hload
        exact ih hindexed hload
      · obtain ⟨x, hx, hxe⟩ := ih hindexed hload₀
        rw [hsaved, hsame.id, hxe.id] at hload
        by_cases hid : id = id'
        · subst hid
          rw [load_save_self, Option.some.injEq] at hload
          subst hload
          exact ⟨x, hx, hxe.congr hsame⟩
        · rw [load_save_ne hid] at hload
          exact ih hindexed hload

end Index

/-! ## The contract -/

/-- Proposal `p` has this ballot. -/
structure Ballot.Held (x : Ballot) (start : Nat) (p : Nouns.Proposal) : Prop where
  creationBlock : p.creationBlock = x.block.number
  againstVotes : p.againstVotes = x.againstVotes
  minQuorumVotes : x.minQuorumVotes = bps2Uint x.params.minQuorumVotesBPS p.totalSupply
  start_eq : x.start = some start
  start_le : start ≤ x.block.number
  block_lt : x.block.number < 2 ^ 32

/-- What the quorum of a proposal depends on is as before. -/
structure SameVotes (p p' : Nouns.Proposal) : Prop where
  creationBlock : p'.creationBlock = p.creationBlock
  againstVotes : p'.againstVotes = p.againstVotes
  totalSupply : p'.totalSupply = p.totalSupply

theorem SameVotes.refl (p : Nouns.Proposal) : SameVotes p p := ⟨rfl, rfl, rfl⟩

theorem Ballot.Held.congr {x : Ballot} {start : Nat} {p p' : Nouns.Proposal} (h : x.Held start p)
    (hsame : SameVotes p p') : x.Held start p' where
  creationBlock := hsame.creationBlock.trans h.creationBlock
  againstVotes := hsame.againstVotes.trans h.againstVotes
  minQuorumVotes := by rw [hsame.totalSupply, h.minQuorumVotes]
  start_eq := h.start_eq
  start_le := h.start_le
  block_lt := h.block_lt

/-- The log tells the parameters of every block and the ballot of every proposal. -/
structure Tells (start now : Nat) (ds : StorageV3 H) (log : List (Block × DAOEvent)) : Prop where
  wellFormed : WellFormed ds.quorumParamsCheckpoints now
  started : startOf log = some start
  start_le : start ≤ now
  log_le : ∀ entry ∈ log, entry.1.number ≤ now
  params : ∀ n, start ≤ n → valueAt n ds.quorumParamsCheckpoints = some (paramsOf (upTo n log))
  ballots : ∀ id, 0 < id → id ≤ ds.proposalCount →
    ∃ x, ballotOf id log = some x ∧ x.Held start (ds.proposals id)

namespace Tells

variable {start now : Nat} {ds ds' : StorageV3 H} {log : List (Block × DAOEvent)} {block : Block}
  {events : List DAOEvent} {id : Nat} {p : Nouns.Proposal}

theorem log_le_append (h : Tells start now ds log) (hblock : block.number = now) :
    ∀ entry ∈ events.map (Prod.mk block) ++ log, entry.1.number ≤ now := by
  intro entry hentry
  rcases List.mem_append.mp hentry with hentry | hentry
  · obtain ⟨_, -, rfl⟩ := List.mem_map.mp hentry
    exact Nat.le_of_eq hblock
  · exact h.log_le entry hentry

/-- The parameters now are those that all events leave. -/
theorem params_now (h : Tells start now ds log) {params : Nouns.DynamicQuorumParams}
    (hparams : ds.getDynamicQuorumParamsAt now = .ok params) :
    params = paramsOf (log.map Prod.snd) := by
  have hnow := h.params now h.start_le
  rw [upTo_of_le h.log_le] at hnow
  simp only [ProposalStorage.getDynamicQuorumParamsAt, bind_eq_ok, safe32, require_eq_ok,
    pure_eq_ok] at hparams
  obtain ⟨_, ⟨_, -, rfl⟩, hlookup⟩ := hparams
  rw [lookup_eq_valueAt h.wellFormed, hnow] at hlookup
  exact (Except.ok.inj hlookup).symm

/-- Only blocks of 32 bits are looked up. -/
theorem block_lt_of_params {n : Nat} {params : Nouns.DynamicQuorumParams}
    (hparams : ds.getDynamicQuorumParamsAt n = .ok params) : n < 2 ^ 32 := by
  simp only [ProposalStorage.getDynamicQuorumParamsAt, bind_eq_ok, safe32, require_eq_ok,
    pure_eq_ok] at hparams
  obtain ⟨_, ⟨_, hlt, -⟩, -⟩ := hparams
  exact hlt

/-- Time passes. -/
theorem later {now' : Nat} (h : Tells start now ds log) (hle : now ≤ now') :
    Tells start now' ds log :=
  ⟨h.wellFormed.mono hle, h.started, h.start_le.trans hle,
    fun entry hentry => (h.log_le entry hentry).trans hle, h.params, h.ballots⟩

/-- Events that set no parameter. -/
theorem of_events (h : Tells start now ds log) (hblock : block.number = now)
    (hevents : ∀ e ∈ events, isQuorumEvent e = false)
    (hcheckpoints : ds'.quorumParamsCheckpoints = ds.quorumParamsCheckpoints)
    (hballots : ∀ id, 0 < id → id ≤ ds'.proposalCount →
      ∃ x, ballotOf id (events.map (Prod.mk block) ++ log) = some x ∧
        x.Held start (ds'.proposals id)) :
    Tells start now ds' (events.map (Prod.mk block) ++ log) := by
  refine ⟨?_, startOf_append_of_some h.started _, h.start_le, h.log_le_append hblock, ?_, hballots⟩
  · rw [hcheckpoints]
    exact h.wellFormed
  · intro n hn
    rw [hcheckpoints, h.params n hn, upTo_append, paramsOf_append]
    split
    · exact hevents
    · exact fun _ he => absurd he List.not_mem_nil

/-- Events that neither set a parameter nor change a ballot. -/
theorem aside (h : Tells start now ds log) (hblock : block.number = now)
    (hevents : ∀ e ∈ events, isQuorumEvent e = false ∧ isBallotEvent e = false)
    (hcheckpoints : ds'.quorumParamsCheckpoints = ds.quorumParamsCheckpoints)
    (hcount : ds'.proposalCount = ds.proposalCount)
    (hsame : ∀ id, SameVotes (ds.proposals id) (ds'.proposals id)) :
    Tells start now ds' (events.map (Prod.mk block) ++ log) := by
  refine h.of_events hblock (fun e he => (hevents e he).1) hcheckpoints ?_
  intro id hpos hle
  rw [hcount] at hle
  obtain ⟨x, hx, hheld⟩ := h.ballots id hpos hle
  rw [ballotOf_append fun e he => (hevents e he).2]
  exact ⟨x, hx, hheld.congr (hsame id)⟩

/-- One proposal changed in another respect. -/
theorem update (h : Tells start now ds log) (hblock : block.number = now)
    (hlogged : ds.Logged ds' (Function.update ds.proposals id p) ds.proposalCount events)
    (hp : SameVotes (ds.proposals id) p)
    (hevents : ∀ e ∈ events, isQuorumEvent e = false ∧ isBallotEvent e = false) :
    Tells start now ds' (events.map (Prod.mk block) ++ log) := by
  refine h.aside hblock hevents hlogged.quorumParamsCheckpoints hlogged.proposalCount ?_
  rw [hlogged.proposals]
  exact update_related SameVotes.refl hp

/-- The setter of a parameter. -/
theorem quorum (h : Tells start now ds log) (hblock : block.number = now) {call : QuorumCall}
    {params : Nouns.DynamicQuorumParams} (hparams : ds.getDynamicQuorumParamsAt now = .ok params)
    (hstore : ds'.toProposalStorage = { ds.toProposalStorage with
      quorumParamsCheckpoints := write ds.quorumParamsCheckpoints now (call.apply params) }) :
    Tells start now ds' ((StorageV3.quorumEvents params call).map (Prod.mk block) ++ log) := by
  have happly : paramsOf (StorageV3.quorumEvents params call ++ log.map Prod.snd) =
      call.apply params := by
    rw [h.params_now hparams]
    cases call <;> rfl
  refine ⟨?_, startOf_append_of_some h.started _, h.start_le, h.log_le_append hblock, ?_, ?_⟩
  · rw [hstore]
    exact write_wellFormed h.wellFormed _
  · intro n hn
    rw [hstore, valueAt_write h.wellFormed, upTo_append, hblock]
    by_cases hle : now ≤ n
    · have hall : upTo n log = log.map Prod.snd :=
        upTo_of_le fun entry hentry => (h.log_le entry hentry).trans hle
      rw [if_pos hle, if_pos hle, hall, happly]
    · rw [if_neg hle, if_neg hle, List.nil_append]
      exact h.params n hn
  · have hevents : ∀ e ∈ StorageV3.quorumEvents params call, isBallotEvent e = false := by
      intro e he
      have hunproposed := quorumEvents_unproposed he
      cases e <;> first | rfl | cases hunproposed
    rw [hstore]
    intro id hpos hle
    rw [ballotOf_append hevents]
    exact h.ballots id hpos hle

theorem vote (h : Tells start now ds log) (hblock : block.number = now) {voter : Address}
    {support votes o : Nat} {reason : String} (hsupport : support ≤ 2)
    (hobjection : StorageV3.Objection (ds.proposals id) o events)
    (hlogged : ds.Logged ds' (Function.update ds.proposals id
      { StorageV3.setReceipt (StorageV3.countVotes (ds.proposals id) support votes) voter
        ⟨true, support, votes⟩ with objectionPeriodEndBlock := o }) ds.proposalCount
      (.VoteCast voter id support votes reason :: events)) :
    Tells start now ds' ((DAOEvent.VoteCast voter id support votes reason :: events).map
      (Prod.mk block) ++ log) := by
  have hopened : ∀ e ∈ events, isQuorumEvent e = false ∧ isBallotEvent e = false := by
    cases hobjection with
    | none => exact fun _ he => absurd he List.not_mem_nil
    | opened o =>
      intro e he
      rw [List.mem_singleton.mp he]
      exact ⟨rfl, rfl⟩
  refine h.of_events hblock ?_ hlogged.quorumParamsCheckpoints ?_
  · intro e he
    rcases List.mem_cons.mp he with rfl | he
    · rfl
    · exact (hopened e he).1
  · intro id' hpos hle
    rw [hlogged.proposalCount] at hle
    obtain ⟨x, hx, hheld⟩ := h.ballots id' hpos hle
    rw [List.map_cons, List.cons_append, ballotOf, ballotOf_append fun e he => (hopened e he).2, hx,
      hlogged.proposals]
    by_cases heq : id = id'
    · subst heq
      rw [if_pos rfl, Function.update_self, StorageV3.countVotes_eq _ hsupport]
      refine ⟨x.vote support votes, rfl, hheld.creationBlock, ?_, hheld.minQuorumVotes,
        hheld.start_eq, hheld.start_le, hheld.block_lt⟩
      change (ds.proposals id).againstVotes + (if support = 0 then votes else 0) =
        if support = 0 then x.againstVotes + votes else x.againstVotes
      rw [hheld.againstVotes]
      split <;> rfl
    · rw [if_neg heq, Function.update_of_ne (Ne.symm heq)]
      exact ⟨x, rfl, hheld⟩

theorem create (h : Tells start now ds log) (hblock : block.number = now) {minQuorumVotes : Nat}
    {description : String} (hslot : ds.proposals (ds.proposalCount + 1) = Nouns.Proposal.empty)
    (hcreated : ds.toProposalStorage.Created now p)
    (hquorum : ds.minQuorumVotes now p.totalSupply = .ok minQuorumVotes)
    (hlogged : ds.Logged ds' (Function.update ds.proposals (ds.proposalCount + 1) p)
      (ds.proposalCount + 1) (StorageV3.creationEvents p minQuorumVotes description)) :
    Tells start now ds' ((StorageV3.creationEvents p minQuorumVotes description).map
      (Prod.mk block) ++ log) := by
  have hid : p.id = ds.proposalCount + 1 := (created_terms hslot hcreated).1
  have hlast : ∀ e ∈ (if p.executeOnTimelockV1 then [DAOEvent.ProposalCreatedOnTimelockV1 p.id]
      else []), isQuorumEvent e = false ∧ isBallotEvent e = false := by
    intro e he
    split at he
    · rw [List.mem_singleton.mp he]
      exact ⟨rfl, rfl⟩
    · exact absurd he List.not_mem_nil
  refine h.of_events hblock ?_ hlogged.quorumParamsCheckpoints ?_
  · intro e he
    rcases List.mem_append.mp he with he | he
    · exact (hlast e he).1
    · simp only [List.mem_cons, List.not_mem_nil, or_false] at he
      rcases he with rfl | rfl <;> rfl
  · intro id hpos hle
    rw [hlogged.proposalCount] at hle
    rw [StorageV3.creationEvents, List.map_append, List.append_assoc,
      ballotOf_append fun e he => (hlast e he).2]
    rw [List.map_cons, List.cons_append, ballotOf, hid, hlogged.proposals]
    by_cases heq : ds.proposalCount + 1 = id
    · subst heq
      rw [if_pos rfl, Function.update_self]
      have hparams : minQuorumVotes =
          bps2Uint (paramsOf (log.map Prod.snd)).minQuorumVotesBPS p.totalSupply ∧ now < 2 ^ 32 := by
        simp only [ProposalStorage.minQuorumVotes, bind_eq_ok, pure_eq_ok] at hquorum
        obtain ⟨params, hparams, rfl⟩ := hquorum
        exact ⟨by rw [h.params_now hparams], block_lt_of_params hparams⟩
      obtain ⟨_, _, _, _, _, _, _, _, _, hp⟩ := hcreated.content
      rw [hslot] at hp
      have hterms : p.creationBlock = now ∧ p.againstVotes = 0 := by
        rw [hp]
        exact ⟨rfl, rfl⟩
      exact ⟨_, rfl, hterms.1.trans hblock.symm, hterms.2, hparams.1, h.started,
        hblock.symm ▸ h.start_le, hblock.symm ▸ hparams.2⟩
    · rw [if_neg heq, Function.update_of_ne (Ne.symm heq)]
      exact h.ballots id hpos (by omega)

/-- Every step of the DAO in a block. -/
theorem step [DecidableEq H] {env : Env H} {g g' : Course H}
    (h : Tells start env.blockNumber g.ds log) (hstep : g.Step env g')
    (hblock : block.number = env.blockNumber) :
    ∃ events, g'.ds.log = events ++ g.ds.log ∧
      Tells start env.blockNumber g'.ds (events.map (Prod.mk block) ++ log) := by
  cases hstep with
  | aside ds' haside =>
    obtain ⟨events, hevents, hlogged⟩ := haside
    refine ⟨events, hlogged.log, h.aside hblock ?_ hlogged.quorumParamsCheckpoints
      hlogged.proposalCount ?_⟩
    · intro e he
      have hofProposals := hevents e he
      cases e <;> first | exact ⟨rfl, rfl⟩ | cases hofProposals
    · rw [hlogged.proposals]
      exact fun _ => .refl _
  | create ds' p minQuorumVotes description _ hslot hcreated _ hquorum hlogged =>
    exact ⟨_, hlogged.log, h.create hblock hslot hcreated hquorum hlogged⟩
  | update ds' id txs e _ hevent hlogged =>
    refine ⟨[e], hlogged.log, h.update hblock hlogged ⟨rfl, rfl, rfl⟩ ?_⟩
    intro e' he'
    rw [List.mem_singleton.mp he']
    cases hevent <;> exact ⟨rfl, rfl⟩
  | vote ds' id voter support votes reason o objection _ hsupport hobjection hlogged =>
    exact ⟨_, hlogged.log, h.vote hblock hsupport hobjection hlogged⟩
  | queue ds' id eta _ _ hlogged =>
    refine ⟨_, hlogged.log, h.update hblock hlogged ⟨rfl, rfl, rfl⟩ ?_⟩
    intro e he
    rw [List.mem_singleton.mp he]
    exact ⟨rfl, rfl⟩
  | begin_ ds' id _ _ _ hlogged =>
    exact ⟨[], hlogged.log, h.update hblock hlogged ⟨rfl, rfl, rfl⟩
      fun _ he => absurd he List.not_mem_nil⟩
  | finish ds' id rest _ hlogged =>
    refine ⟨_, hlogged.log, h.aside hblock ?_ hlogged.quorumParamsCheckpoints
      hlogged.proposalCount ?_⟩
    · intro e he
      rw [List.mem_singleton.mp he]
      exact ⟨rfl, rfl⟩
    · rw [hlogged.proposals]
      exact fun _ => .refl _
  | cancel ds' id s _ _ _ hlogged =>
    refine ⟨_, hlogged.log, h.update hblock hlogged ⟨rfl, rfl, rfl⟩ ?_⟩
    intro e he
    rw [List.mem_singleton.mp he]
    exact ⟨rfl, rfl⟩
  | veto ds' id s _ _ _ hlogged =>
    refine ⟨_, hlogged.log, h.update hblock hlogged ⟨rfl, rfl, rfl⟩ ?_⟩
    intro e he
    rw [List.mem_singleton.mp he]
    exact ⟨rfl, rfl⟩
  | quorum ds' call params hparams hstore hlog => exact ⟨_, hlog, h.quorum hblock hparams hstore⟩
  | switch ds' _ hstore hlog =>
    refine ⟨[_], hlog, h.aside hblock ?_ (by rw [hstore]) (by rw [hstore]) ?_⟩
    · intro e he
      rw [List.mem_singleton.mp he]
      exact ⟨rfl, rfl⟩
    · rw [hstore]
      exact fun _ => .refl _

theorem steps [DecidableEq H] {env : Env H} {g g' : Course H}
    (h : Tells start env.blockNumber g.ds log) (hsteps : Course.Steps env g g')
    (hblock : block.number = env.blockNumber) :
    ∃ events, g'.ds.log = events ++ g.ds.log ∧
      Tells start env.blockNumber g'.ds (events.map (Prod.mk block) ++ log) := by
  induction hsteps with
  | refl => exact ⟨[], rfl, h⟩
  | tail _ hstep ih =>
    obtain ⟨events, hlog, htells⟩ := ih
    obtain ⟨events', hlog', htells'⟩ := htells.step hstep hblock
    refine ⟨events' ++ events, ?_, ?_⟩
    · rw [hlog', hlog, List.append_assoc]
    · rw [List.map_append, List.append_assoc]
      exact htells'

end Tells

/-! ## Deployment -/

section Deploy

variable {ds : StorageV3 H} {sender timelock nouns forkEscrow forkDAODeployer vetoer admin : Address}
  {now : Nat} {daoParams : NounsDAOParams} {params : Nouns.DynamicQuorumParams}

open StorageV3 in
/-- Deployment sets the parameters once, between setters of other kinds. -/
theorem deploy_log
    (h : deploy sender now timelock nouns forkEscrow forkDAODeployer vetoer admin daoParams params =
      .ok ds) :
    ∃ newer older params₀, ds.log = newer ++ (quorumEvents params₀ (.setDynamicQuorumParams
        params.minQuorumVotesBPS params.maxQuorumVotesBPS params.quorumCoefficient) ++ older) ∧
      (∀ e ∈ newer, DAOEvent.ofProposals e = false) ∧ ∀ e ∈ older, DAOEvent.ofProposals e = false := by
  simp only [deploy, initializeBy, bind_eq_ok, pure_eq_ok] at h
  obtain ⟨ds₈, ⟨_, -, _, -, _, -, _, -, ds₁, h₁, ds₂, h₂, ds₃, h₃, ds₅, h₅, ds₆, h₆, ds₇, h₇, h₈⟩,
    rfl⟩ := h
  have hbefore := ((adminCall_aside (c := .setVotingPeriod _) h₁).trans
    (adminCall_aside (c := .setVotingDelay _) h₂)).trans
      (adminCall_aside (c := .setProposalThresholdBPS _) h₃)
  have hafter := ((adminCall_aside (c := .setLastMinuteWindowInBlocks _) h₆).trans
    (adminCall_aside (c := .setObjectionPeriodDurationInBlocks _) h₇)).trans
      (adminCall_aside (c := .setProposalUpdatablePeriodInBlocks _) h₈)
  obtain ⟨params₀, -, -, hset⟩ := quorumCall_logged (c := .setDynamicQuorumParams _ _ _) h₅
  obtain ⟨older, holder, hlogged⟩ := hbefore
  obtain ⟨newer, hnewer, hlogged'⟩ := hafter
  refine ⟨newer, older, params₀, ?_, hnewer, holder⟩
  change ds₈.log = _
  rw [hlogged'.log, hset]
  refine congrArg (newer ++ ·) (congrArg (_ ++ ·) ?_)
  exact hlogged.log.trans (List.append_nil older)

theorem isQuorumEvent_of_aside {e : DAOEvent} (h : e.ofProposals = false) :
    isQuorumEvent e = false := by
  cases e <;> first | rfl | cases h

theorem startOf_block (events : List DAOEvent) (block : Block) :
    startOf (events.map (Prod.mk block)) =
      if events.any isQuorumEvent then some block.number else none := by
  induction events with
  | nil => rfl
  | cons e events ih =>
    rw [List.map_cons, startOf, ih, List.any_cons]
    cases isQuorumEvent e
    · rfl
    · cases events.any isQuorumEvent <;> rfl

theorem tells_of_deploy
    (h : StorageV3.deploy sender now timelock nouns forkEscrow forkDAODeployer vetoer admin daoParams
      params = .ok ds) {block : Block} (hblock : block.number = now) :
    Tells now now ds (ds.log.map (Prod.mk block)) := by
  obtain ⟨-, hcount, hcheckpoints⟩ := StorageV3.deploy_ok h
  obtain ⟨newer, older, params₀, hlog, hnewer, holder⟩ := deploy_log h
  have hle : ∀ entry ∈ ds.log.map (Prod.mk block), entry.1.number ≤ now := by
    intro entry hentry
    obtain ⟨_, -, rfl⟩ := List.mem_map.mp hentry
    exact Nat.le_of_eq hblock
  have hparams : paramsOf ds.log = params := by
    rw [hlog, paramsOf_append fun e he => isQuorumEvent_of_aside (hnewer e he)]
    rfl
  refine ⟨?_, ?_, Nat.le_refl now, hle, ?_, ?_⟩
  · rw [hcheckpoints]
    exact write_wellFormed (WellFormed.nil _) params
  · rw [startOf_block, hblock, if_pos]
    rw [hlog, List.any_append, List.any_append]
    exact Bool.or_eq_true_iff.mpr (.inr (Bool.or_eq_true_iff.mpr (.inl rfl)))
  · intro n hn
    rw [hcheckpoints, upTo_of_le fun entry hentry => (hle entry hentry).trans hn, List.map_map]
    refine (if_pos hn : (if now ≤ n then some params else none) = _).trans (congrArg some ?_)
    exact hparams.symm.trans (congrArg paramsOf (List.map_id ds.log).symm)
  · intro id hpos hle
    omega

end Deploy

/-! ## The chain and its blocks -/

/-- The chain with the events of the current block, and those of earlier blocks with their blocks, as
the index receives them; the latest come first. -/
structure Chain (H : Type) where
  world : World H
  recent : List DAOEvent
  past : List (Block × DAOEvent)
  log_eq : world.dao.log = recent ++ past.map Prod.snd

/-- The handler of the event calls `adjustedTotalSupply`. -/
def readsSupply : DAOEvent → Bool
  | .ProposalCreatedWithRequirements .. => true
  | _ => false

namespace Chain

/-- All events, if the current block ends here. -/
def blocks (c : Chain H) (block : Block) : List (Block × DAOEvent) :=
  c.recent.map (Prod.mk block) ++ c.past

theorem log_blocks (c : Chain H) (block : Block) :
    (c.blocks block).map Prod.snd = c.world.dao.log := by
  rw [blocks, List.map_append, List.map_map, c.log_eq]
  exact congrArg (· ++ _) (List.map_id c.recent)

theorem recent_eq (c : Chain H) :
    c.recent = c.world.dao.log.take (c.world.dao.log.length - c.past.length) := by
  rw [c.log_eq, List.length_append, List.length_map, Nat.add_sub_cancel, List.take_left]

variable [DecidableEq H] {d : Deployment H} {c c' : Chain H} {block : Block} {w' : World H}

/-- The current block ends here.  A call that fails stops the index. -/
structure Ends (d : Deployment H) (c : Chain H) (block : Block) : Prop where
  idle : c.world.frames = []
  number : block.number = c.world.blockNumber
  timestamp : block.timestamp = c.world.timestamp
  adjustedTotalSupply : c.recent.any readsSupply = true →
    c.world.dao.adjustedTotalSupply (c.world.env d) = .ok block.adjustedTotalSupply

def Start (c : Chain H) : Prop := c.world.Deployed ∧ c.past = []

inductive Next (d : Deployment H) (c c' : Chain H) : Prop
  | within : World.NextAny d c.world c'.world → c'.world.blockNumber = c.world.blockNumber →
      c'.past = c.past → Next d c c'
  | ends (block : Block) : c.Ends d block → World.NextAny d c.world c'.world →
      c.world.blockNumber < c'.world.blockNumber → c'.recent = [] → c'.past = c.blocks block →
      Next d c c'

theorem Next.world (h : Next d c c') : World.NextAny d c.world c'.world := by
  cases h with
  | within hn _ _ => exact hn
  | ends _ _ hn _ _ _ => exact hn

theorem reachable_world (hr : Reachable Start (Next d) c) :
    Reachable World.Deployed (World.NextAny d) c.world := by
  refine hr.invariant (P := fun c => Reachable World.Deployed (World.NextAny d) c.world) ?_ ?_
  · exact fun c hc => .start hc.1
  · exact fun c c' _ hw hn => hw.step hn.world

theorem told (hr : Reachable Start (Next d) c) : Told c.world :=
  told_of_reachable ((reachable_world hr).mono (fun _ => starts_of_deployed) fun _ _ h => h)

theorem tells (hr : Reachable Start (Next d) c) :
    ∃ start, ∀ block : Block, block.number = c.world.blockNumber →
      Tells start c.world.blockNumber c.world.dao (c.blocks block) := by
  refine hr.invariant (P := fun c => ∃ start, ∀ block : Block,
    block.number = c.world.blockNumber →
      Tells start c.world.blockNumber c.world.dao (c.blocks block)) ?_ ?_
  · rintro c ⟨⟨⟨_, _, _, _, _, _, _, _, _, hdao⟩, -⟩, hpast⟩
    refine ⟨c.world.blockNumber, fun block hblock => ?_⟩
    have hlog := c.log_eq
    rw [hpast, List.map_nil, List.append_nil] at hlog
    rw [blocks, hpast, List.append_nil, ← hlog]
    exact tells_of_deploy hdao hblock
  · rintro c c' hr ⟨start, htells⟩ hn
    have htold := told hr
    have hsteps := hn.world.course htold.wf htold.won
    refine ⟨start, fun block hblock => ?_⟩
    cases hn with
    | within _ hsame hpast =>
      rw [hsame] at hblock ⊢
      obtain ⟨events, hlog, htells'⟩ := (htells block hblock).steps hsteps hblock
      have hrecent : c'.recent = events ++ c.recent := by
        have hall : c'.recent ++ c.past.map Prod.snd =
            (events ++ c.recent) ++ c.past.map Prod.snd := by
          rw [List.append_assoc, ← c.log_eq, ← hpast, ← c'.log_eq]
          exact hlog
        exact List.append_cancel_right hall
      rw [blocks, hrecent, hpast, List.map_append, List.append_assoc]
      exact htells'
    | ends last hends _ hlt hrecent hpast =>
      obtain ⟨events, hlog, htells'⟩ := (htells last hends.number).steps hsteps hends.number
      have hnone : events = [] := by
        have hall : c'.world.dao.log = c.world.dao.log := by
          rw [c'.log_eq, hrecent, hpast, log_blocks, List.nil_append]
        have hlog' : c'.world.dao.log = events ++ c.world.dao.log := hlog
        exact List.append_left_eq_self.mp (hlog'.symm.trans hall)
      rw [blocks, hrecent, hpast]
      rw [hnone] at htells'
      exact htells'.later hlt.le

/-- More steps in the current block. -/
theorem reachable_within (hr : Reachable Start (Next d) c)
    (hsteps : ReflTransGen (fun w w' => World.NextAny d w w' ∧ w'.blockNumber = w.blockNumber)
      c.world w') :
    ∃ c', Reachable Start (Next d) c' ∧ c'.world = w' ∧ c'.past = c.past := by
  induction hsteps with
  | refl => exact ⟨c, hr, rfl, rfl⟩
  | @tail w₁ w₂ _ hstep ih =>
    obtain ⟨c₁, hr₁, rfl, hpast⟩ := ih
    obtain ⟨hn, hsame⟩ := hstep
    obtain ⟨start, htells⟩ := tells hr₁
    have htold := told hr₁
    have hnow : (⟨c₁.world.blockNumber, 0, 0⟩ : Block).number = (c₁.world.env d).blockNumber := rfl
    obtain ⟨events, hlog, -⟩ := (htells _ hnow).steps (hn.course htold.wf htold.won) hnow
    have hlog' : w₂.dao.log = (events ++ c₁.recent) ++ c₁.past.map Prod.snd := by
      rw [List.append_assoc, ← c₁.log_eq]
      exact hlog
    exact ⟨⟨w₂, events ++ c₁.recent, c₁.past, hlog'⟩, hr₁.step (.within hn hsame rfl), rfl, hpast⟩

/-- The current block ends. -/
theorem reachable_ends (hr : Reachable Start (Next d) c) (hends : c.Ends d block) {n t : Nat}
    (hstep : c.world.step d (.advance n t) = .ok w') (hlt : c.world.blockNumber < n) :
    ∃ c', Reachable Start (Next d) c' ∧ c'.world = w' ∧ c'.past = c.blocks block := by
  have hn : World.NextAny d c.world w' := .step _ trivial hstep
  simp only [World.step, bind_eq_ok, pure_eq_ok] at hstep
  obtain ⟨_, -, rfl⟩ := hstep
  have hlog := (c.log_blocks block).symm
  exact ⟨⟨{ c.world with blockNumber := n, timestamp := t }, [], c.blocks block, hlog⟩,
    hr.step (.ends block hends hn hlt rfl rfl), rfl, rfl⟩

end Chain

/-! ## The quorum -/

/-- The block in which the proposal was created does not interfere: it is not that in which the
parameters were first set if there are votes against, the parameters in force when it ends are those at
the creation, and so is the supply, which is not zero. -/
structure Ballot.Settled (x : Ballot) (p : Nouns.Proposal) (log : List (Block × DAOEvent)) : Prop where
  later : 0 < p.againstVotes → ∀ n, x.start = some n → n < x.block.number
  params : paramsOf (upTo x.block.number log) = x.params
  supply : x.block.adjustedTotalSupply = p.totalSupply
  supply_ne : p.totalSupply ≠ 0

theorem bigIntDiv_cast {a b : Nat} {q : Int} (h : bigIntDiv a b = some q) : q = ((a / b : Nat) : Int) := by
  unfold bigIntDiv at h
  split at h
  · cases h
  · rw [← Option.some.inj h]
    exact (Int.ofNat_tdiv a b).symm

/-- The two formulas agree where that of the index yields a result. -/
theorem dynamicQuorumVotes_cast {againstVotes totalSupply : Nat} {params : Nouns.DynamicQuorumParams}
    {q : Int} (hsupply : totalSupply ≠ 0)
    (h : dynamicQuorumVotes againstVotes totalSupply params.minQuorumVotesBPS
      params.maxQuorumVotesBPS params.quorumCoefficient = some q) :
    ∃ votes : Nat, Nouns.dynamicQuorumVotes againstVotes totalSupply params = .ok votes ∧
      q = votes := by
  simp only [dynamicQuorumVotes, Option.bind_eq_bind, Option.bind_eq_some_iff] at h
  obtain ⟨a, ha, b, hb, n, hn, hq⟩ := h
  have ha' := bigIntDiv_cast (a := againstVotes * 10000) (by exact_mod_cast ha)
  subst ha'
  have hb' := bigIntDiv_cast (a := params.quorumCoefficient * (againstVotes * 10000 / totalSupply))
    (b := 1000000) (by exact_mod_cast hb)
  subst hb'
  have hn' : n = ((params.quorumCoefficient * (againstVotes * 10000 / totalSupply) / 1000000 +
      params.minQuorumVotesBPS : Nat) : Int) := by
    unfold toI32 at hn
    split at hn
    · rw [← Option.some.inj hn]
      push_cast
      rfl
    · cases hn
  subst hn'
  have hmin : ∀ a b : Nat, min (a : Int) b = (min a b : Nat) := fun a b => by omega
  rw [hmin] at hq
  have hq' := bigIntDiv_cast (a := totalSupply * min params.maxQuorumVotesBPS
    (params.quorumCoefficient * (againstVotes * 10000 / totalSupply) / 1000000 +
      params.minQuorumVotesBPS)) (b := 10000) (by exact_mod_cast hq)
  refine ⟨_, ?_, hq'⟩
  simp only [Nouns.dynamicQuorumVotes, require, if_pos hsupply, bind, Except.bind, pure, Except.pure,
    bps2Uint, Nat.mul_comm 10000, Nat.add_comm params.minQuorumVotesBPS]

section Runs

variable [DecidableEq H] {d : Deployment H} {c : Chain H} {block : Block} {s : Store} {id : Nat}

/-- The contract computes the quorum from the ballot. -/
theorem quorumVotes_of_held {x : Ballot} {start : Nat} (hr : Reachable Chain.Start (Chain.Next d) c)
    (htells : Tells start c.world.blockNumber c.world.dao (c.blocks block))
    (hheld : x.Held start (c.world.dao.proposals id))
    (hsettled : x.Settled (c.world.dao.proposals id) (c.blocks block)) :
    c.world.dao.quorumVotes id = Nouns.dynamicQuorumVotes x.againstVotes
      (c.world.dao.proposals id).totalSupply x.params := by
  have hvalue := htells.params x.block.number hheld.start_le
  rw [hsettled.params] at hvalue
  have hparams : c.world.dao.getDynamicQuorumParamsAt x.block.number = .ok x.params :=
    (Chain.told hr).wf.getDynamicQuorumParamsAt_eq hheld.block_lt hvalue
  simp only [ProposalStorage.quorumVotes, if_neg hsettled.supply_ne, hheld.creationBlock, hparams,
    hheld.againstVotes]
  rfl

/-- When a block ends, a proposal whose own block did not interfere has the quorum of the contract. -/
theorem quorum_indexed (hr : Reachable Chain.Start (Chain.Next d) c) (hends : c.Ends d block)
    (hs : DAOIndexed (c.blocks block) s) (hpos : 0 < id) (hle : id ≤ c.world.dao.proposalCount)
    (hsettled : ∀ x, ballotOf id (c.blocks block) = some x →
      x.Settled (c.world.dao.proposals id) (c.blocks block)) :
    ∃ e q, s.proposals.load id = some e ∧ c.world.dao.quorumVotes id = .ok q ∧ e.quorumVotes = q := by
  have hindexed := (Chain.told hr).mirrored s ⟨c.blocks block, c.log_blocks block, hs⟩
  obtain ⟨e, hload, -⟩ := hindexed.created id hpos hle
  obtain ⟨x, hx, hxe⟩ := ballot_of_indexed hs hload
  obtain ⟨start, htells⟩ := Chain.tells hr
  have htells := htells block hends.number
  obtain ⟨x', hx', hheld⟩ := htells.ballots id hpos hle
  rw [hx] at hx'
  cases hx'
  have hsettled := hsettled x hx
  have hne := hsettled.supply_ne
  have hcontract := quorumVotes_of_held hr htells hheld hsettled
  have hsupply : e.adjustedTotalSupply = (c.world.dao.proposals id).totalSupply := by
    rw [hxe.adjustedTotalSupply (hsettled.supply.symm ▸ hne), hsettled.supply]
  rcases hxe.quorumVotes start hheld.start_eq with ⟨hkept, hquorum⟩ | ⟨-, hcomputed⟩
  · -- Without votes against the quorum is the minimum, which does not exceed the maximum.
    have hnone : x.againstVotes = 0 := by
      rcases hkept with hvoted | hle
      · exact againstVotes_of_not_voted hx hvoted
      · by_contra hagainst
        rw [← hheld.againstVotes] at hagainst
        have hlater := hsettled.later (Nat.pos_of_ne_zero hagainst) start hheld.start_eq
        exact absurd hle (Nat.not_le.mpr hlater)
    have hle : x.params.minQuorumVotesBPS ≤ x.params.maxQuorumVotesBPS := by
      have hbounded := World.quorumBounded_of_reachable (Chain.reachable_world hr)
      obtain ⟨cp, hcp, hvalue⟩ := (hbounded.created id hpos hle).valueAt
      rw [hheld.creationBlock, htells.params x.block.number hheld.start_le, hsettled.params] at hvalue
      rw [Option.some.inj hvalue]
      exact (hbounded.inBounds cp hcp).min_le_max
    rw [hnone] at hcontract
    refine ⟨e, x.minQuorumVotes, hload, hcontract.trans ?_, hquorum⟩
    simp [Nouns.dynamicQuorumVotes, require, hne, bind, Except.bind, pure, Except.pure,
      hheld.minQuorumVotes, Nat.min_eq_right hle]
  · rw [Proposal.computedQuorum, hxe.againstVotes, hsupply, hxe.minQuorumVotesBPS,
      hxe.maxQuorumVotesBPS, hxe.quorumCoefficient] at hcomputed
    obtain ⟨votes, hvotes, hq⟩ := dynamicQuorumVotes_cast hne hcomputed
    exact ⟨e, votes, hload, hcontract.trans hvotes, hq⟩

end Runs

/-- A DAO deployed in block 1 with this minimum; its admin is 5. -/
def sampleDAO (minQuorumVotesBPS : Nat) : Tx (StorageV3 Preimage) :=
  StorageV3.deploy 1 1 102 101 104 105 9 5 ⟨MIN_VOTING_PERIOD_BLOCKS, 1, 1, 0, 0, 0⟩
    ⟨minQuorumVotesBPS, 6000, 0⟩

/-- The world after six mints in block 1 and these actions in block 2, with what the index received in
block 1. -/
def sampleRun (minQuorumVotesBPS : Nat) (actions : List Action) :
    Tx (World Preimage × List (Block × DAOEvent)) := do
  let dao ← sampleDAO minQuorumVotesBPS
  let w₁ ← ({ World.sample with dao } : World Preimage).run .sample
    (fun w _ w' => w'.blockNumber = w.blockNumber) (List.replicate 6 (.callToken .minter .mint))
  require (w₁.frames.isEmpty = true ∧ w₁.timestamp = 1 ∧ w₁.dao.log.any readsSupply = false)
    .callFailed
  let w₂ ← w₁.step .sample (.advance 2 2)
  let w ← w₂.run .sample (fun w _ w' => w'.blockNumber = w.blockNumber) actions
  return (w, w₁.dao.log.map (Prod.mk ⟨1, 1, 7⟩))

theorem chain_of_sampleRun {minQuorumVotesBPS : Nat} {actions : List Action} {w : World Preimage}
    {past : List (Block × DAOEvent)} (h : sampleRun minQuorumVotesBPS actions = .ok (w, past)) :
    ∃ c, Reachable Chain.Start (Chain.Next .sample) c ∧ c.world = w ∧ c.past = past := by
  simp only [sampleRun, bind_eq_ok, require_eq_ok, pure_eq_ok, Prod.mk.injEq] at h
  obtain ⟨dao, hdao, w₁, h₁, _, ⟨hidle, htime, hreads⟩, w₂, hadvance, _, h₃, rfl, rfl⟩ := h
  have hrun : ∀ {w w' : World Preimage} {actions : List Action},
      w.run .sample (fun w _ w' => w'.blockNumber = w.blockNumber) actions = .ok w' →
      ReflTransGen (fun w w' => World.NextAny .sample w w' ∧ w'.blockNumber = w.blockNumber) w w' :=
    World.run_steps fun w a w' hstep hsame => ⟨.step a trivial hstep, hsame⟩
  have hstart : Chain.Start (H := Preimage) ⟨{ World.sample with dao }, dao.log, [],
      (List.append_nil _).symm⟩ :=
    ⟨⟨⟨_, _, _, _, _, _, _, _, _, hdao⟩, rfl⟩, rfl⟩
  obtain ⟨c₁, hr₁, rfl, hpast₁⟩ := Chain.reachable_within (.start hstart) (hrun h₁)
  have hblock : c₁.world.blockNumber = 1 := by
    refine steps_preserve (P := fun w => w.blockNumber = 1) (hrun h₁) rfl ?_
    exact fun w w' hw hn => hn.2.trans hw
  have hrecent : c₁.recent = c₁.world.dao.log := by
    rw [c₁.log_eq, hpast₁]
    exact (List.append_nil _).symm
  have hends : c₁.Ends .sample ⟨1, 1, 7⟩ := by
    refine ⟨List.isEmpty_iff.mp hidle, hblock.symm, htime.symm, fun h => ?_⟩
    rw [hrecent, hreads] at h
    cases h
  obtain ⟨c₂, hr₂, rfl, hpast₂⟩ := Chain.reachable_ends hr₁ hends hadvance (by rw [hblock]; decide)
  obtain ⟨c, hr, hw, hpast⟩ := Chain.reachable_within hr₂ (hrun h₃)
  refine ⟨c, hr, hw, ?_⟩
  rw [hpast, hpast₂, Chain.blocks, hpast₁, hrecent, List.append_nil]

theorem daoIndexed_of_indexed {log : List (Block × DAOEvent)} {s : Store}
    (h : indexed (log.map fun entry => .dao entry.1 entry.2) = some s) : DAOIndexed log s := by
  refine ⟨_, ?_, ?_, h⟩
  · intro e he
    obtain ⟨_, -, rfl⟩ := List.mem_map.mp he
    rfl
  · rw [daoBlockEvents, List.filterMap_map]
    exact List.filterMap_some

/-- With a minimum of 20% the quorum of the first proposal is one of seven votes. -/
theorem quorum_indexed_of_first_proposal :
    ∃ c block s, Reachable Chain.Start (Chain.Next .sample) c ∧ c.Ends .sample block ∧
      DAOIndexed (c.blocks block) s ∧ c.world.dao.quorumVotes 1 = .ok 1 ∧
      ∃ e q, s.proposals.load 1 = some e ∧ c.world.dao.quorumVotes 1 = .ok q ∧ e.quorumVotes = q := by
  have hrun : Yields (sampleRun 2000 [.ofDAO .minter (.propose .sample "")]) (fun r =>
      r.1.frames.isEmpty = true ∧ r.1.blockNumber = 2 ∧ r.1.timestamp = 2 ∧
      r.1.dao.adjustedTotalSupply (r.1.env .sample) = .ok 7 ∧ 1 ≤ r.1.dao.proposalCount ∧
      r.1.dao.quorumVotes 1 = .ok 1 ∧ (r.1.dao.proposals 1).totalSupply = 7 ∧
      let blocks := (r.1.dao.log.take (r.1.dao.log.length - r.2.length)).map
        (Prod.mk ⟨2, 2, 7⟩) ++ r.2
      (indexed (blocks.map fun entry => .dao entry.1 entry.2)).isSome = true ∧
      (ballotOf 1 blocks).all fun x => x.start = some 1 ∧ x.block = ⟨2, 2, 7⟩ ∧
        paramsOf (upTo 2 blocks) = x.params) := by
    decide +kernel
  obtain ⟨⟨w, past⟩, hw, hidle, hnumber, htime, hsupply, hcount, hquorum, htotal, hindexed, hballot⟩ := hrun
  obtain ⟨c, hr, rfl, rfl⟩ := chain_of_sampleRun hw
  rw [← c.recent_eq] at hindexed hballot
  obtain ⟨s, hs⟩ := Option.isSome_iff_exists.mp hindexed
  have hends : c.Ends .sample ⟨2, 2, 7⟩ :=
    ⟨List.isEmpty_iff.mp hidle, hnumber.symm, htime.symm, fun _ => hsupply⟩
  have hs := daoIndexed_of_indexed hs
  refine ⟨c, _, s, hr, hends, hs, hquorum, quorum_indexed hr hends hs Nat.one_pos hcount ?_⟩
  intro x hx
  obtain ⟨hstart, hblock, hparams⟩ := of_decide_eq_true ((Option.all_eq_true _ _).mp hballot x hx)
  refine ⟨fun _ n hn => ?_, ?_, ?_, ?_⟩
  · rw [hstart] at hn
    rw [← Option.some.inj hn, hblock]
    decide
  · rw [hblock]
    exact hparams
  · rw [hblock, htotal]
  · rw [htotal]
    decide

/-- In the block of the first proposal the admin then raises the minimum from 2% to 20%. -/
theorem quorum_not_indexed_after_change :
    ∃ c block s e, Reachable Chain.Start (Chain.Next .sample) c ∧ c.Ends .sample block ∧
      DAOIndexed (c.blocks block) s ∧ s.proposals.load 1 = some e ∧ e.quorumVotes = 0 ∧
      c.world.dao.quorumVotes 1 = .ok 1 := by
  have hrun : Yields (sampleRun 200 [.ofDAO .minter (.propose .sample ""),
      .ofDAO ⟨5, by decide⟩ (.quorum (.setMinQuorumVotesBPS 2000))]) (fun r =>
      r.1.frames.isEmpty = true ∧ r.1.blockNumber = 2 ∧ r.1.timestamp = 2 ∧
      r.1.dao.adjustedTotalSupply (r.1.env .sample) = .ok 7 ∧ r.1.dao.quorumVotes 1 = .ok 1 ∧
      let blocks := (r.1.dao.log.take (r.1.dao.log.length - r.2.length)).map
        (Prod.mk ⟨2, 2, 7⟩) ++ r.2
      (indexed (blocks.map fun entry => .dao entry.1 entry.2)).any fun s =>
          (s.proposals.load 1).any fun e => e.quorumVotes = 0) := by
    decide +kernel
  obtain ⟨⟨w, past⟩, hw, hidle, hnumber, htime, hsupply, hquorum, hindexed⟩ := hrun
  obtain ⟨c, hr, rfl, rfl⟩ := chain_of_sampleRun hw
  rw [← c.recent_eq] at hindexed
  obtain ⟨s, hs, he⟩ := (Option.any_eq_true _ _).mp hindexed
  obtain ⟨e, hload, hzero⟩ := (Option.any_eq_true _ _).mp he
  have hends : c.Ends .sample ⟨2, 2, 7⟩ :=
    ⟨List.isEmpty_iff.mp hidle, hnumber.symm, htime.symm, fun _ => hsupply⟩
  exact ⟨c, _, s, e, hr, hends, daoIndexed_of_indexed hs, hload, of_decide_eq_true hzero, hquorum⟩

end Nouns.Subgraph
