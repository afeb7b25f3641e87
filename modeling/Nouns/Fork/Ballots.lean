import Nouns.Fork.System
import Nouns.Token.Changes

/-!
# Ballots — what a step does to the votes of a fork DAO

`BallotStep` says everything a step can do to the terms and the votes of proposals; the token
changes as by calls of its own.
-/

open Fallible

namespace Nouns

variable {H : Type}

/-- The terms and the votes are as before. -/
structure ForkProposal.SameBallot (p p' : ForkProposal) : Prop where
  creationBlock : p'.creationBlock = p.creationBlock
  startBlock : p'.startBlock = p.startBlock
  endBlock : p'.endBlock = p.endBlock
  forVotes : p'.forVotes = p.forVotes
  againstVotes : p'.againstVotes = p.againstVotes
  abstainVotes : p'.abstainVotes = p.abstainVotes
  receipts : p'.receipts = p.receipts

theorem ForkProposal.SameBallot.refl (p : ForkProposal) : SameBallot p p :=
  ⟨rfl, rfl, rfl, rfl, rfl, rfl, rfl⟩

namespace StorageV1Fork

variable {env : ForkEnv H} {ds ds' : StorageV1Fork} {e e' : Executor H} {sender : Address}

/-- The state of an existing proposal is the first of the cases that applies. -/
theorem state_eq_ok {id : Nat} {s : ForkProposalState} :
    ds.state env id = .ok s ↔ id ≤ ds.proposalCount ∧
      (if (ds.proposals id).canceled then ForkProposalState.Canceled
        else if env.blockNumber ≤ (ds.proposals id).startBlock then .Pending
        else if env.blockNumber ≤ (ds.proposals id).endBlock then .Active
        else if (ds.proposals id).forVotes ≤ (ds.proposals id).againstVotes ∨
            (ds.proposals id).forVotes < (ds.proposals id).quorumVotes then .Defeated
        else if (ds.proposals id).eta = 0 then .Succeeded
        else if (ds.proposals id).executed then .Executed
        else if env.timestamp ≥
            (ds.proposals id).eta + ExecutorVersion.NounsDAOExecutorV2.GRACE_PERIOD then .Expired
        else .Queued) = s := by
  simp only [state, ← apply_ite (pure : ForkProposalState → Tx ForkProposalState), bind_eq_ok,
    require_eq_ok, pure_eq_ok, ge_iff_le, exists_const]

theorem state_le {id : Nat} {s : ForkProposalState} (h : ds.state env id = .ok s) :
    id ≤ ds.proposalCount :=
  (state_eq_ok.mp h).1

theorem active_of_state {id : Nat} (h : ds.state env id = .ok .Active) :
    (ds.proposals id).startBlock < env.blockNumber ∧
      env.blockNumber ≤ (ds.proposals id).endBlock := by
  obtain ⟨-, h⟩ := state_eq_ok.mp h
  split_ifs at h with hcanceled hstart hend
  exact ⟨Nat.not_le.mp hstart, hend⟩

inductive BallotStep (env : ForkEnv H) (ds ds' : StorageV1Fork) : Prop
  | same : ds'.proposalCount = ds.proposalCount →
      (∀ id, (ds.proposals id).SameBallot (ds'.proposals id)) → BallotStep env ds ds'
  | create (p : ForkProposal) : ds'.proposalCount = ds.proposalCount + 1 →
      ds'.proposals = Function.update ds.proposals (ds.proposalCount + 1) p →
      p.receipts = (ds.proposals (ds.proposalCount + 1)).receipts →
      p.forVotes = 0 → p.againstVotes = 0 → p.abstainVotes = 0 →
      p.creationBlock = env.blockNumber → env.blockNumber ≤ p.startBlock → BallotStep env ds ds'
  | vote (id : Nat) (voter : Address) (support votes : Nat) : ds.state env id = .ok .Active →
      support ≤ 2 → ((ds.proposals id).receipts voter).hasVoted = false →
      env.nouns.getPriorVotes env.blockNumber voter (ds.proposals id).creationBlock = .ok votes →
      ds'.proposalCount = ds.proposalCount →
      ds'.proposals = Function.update ds.proposals id
        { countVotes (ds.proposals id) support votes with
          receipts := Function.update (ds.proposals id).receipts voter ⟨true, support, votes⟩ } →
      BallotStep env ds ds'

theorem BallotStep.of_proposals (hcount : ds'.proposalCount = ds.proposalCount)
    (hproposals : ds'.proposals = ds.proposals) : BallotStep env ds ds' :=
  .same hcount (fun _ => hproposals ▸ .refl _)

/-- A proposal is changed, but not its ballot. -/
theorem BallotStep.of_update (id : Nat) {p : ForkProposal}
    (hcount : ds'.proposalCount = ds.proposalCount)
    (hproposals : ds'.proposals = Function.update ds.proposals id p)
    (h : (ds.proposals id).SameBallot p) : BallotStep env ds ds' := by
  refine .same hcount ?_
  intro id'
  rw [hproposals]
  by_cases hid : id' = id
  · subst hid
    rw [Function.update_self]
    exact h
  · rw [Function.update_of_ne hid]
    exact .refl _

theorem countVotes_eq (p : ForkProposal) {support votes : Nat} (h : support ≤ 2) :
    countVotes p support votes = { p with
      forVotes := p.forVotes + if support = 1 then votes else 0
      againstVotes := p.againstVotes + if support = 0 then votes else 0
      abstainVotes := p.abstainVotes + if support = 2 then votes else 0 } := by
  rcases (by omega : support = 0 ∨ support = 1 ∨ support = 2) with rfl | rfl | rfl
  · rfl
  · rfl
  · rfl

theorem propose_ballots {txs : ProposalTxs} {description : String} {id : Nat}
    (h : ds.propose env sender txs description = .ok (ds', id)) : BallotStep env ds ds' := by
  simp only [propose, bind_eq_ok, pure_eq_ok, Prod.mk.injEq] at h
  obtain ⟨_, -, supply, -, votes, -, _, -, _, -, _, -, _, -, _, -, rfl, -⟩ := h
  exact .create _ rfl rfl rfl rfl rfl rfl rfl (Nat.le_add_right _ _)

theorem castVoteWithReason_ballots {id support : Nat} {reason : String}
    (h : ds.castVoteWithReason env sender id support reason = .ok ds') : BallotStep env ds ds' := by
  simp only [castVoteWithReason, castVoteInternal, bind_eq_ok, require_eq_ok, pure_eq_ok] at h
  obtain ⟨⟨ds₁, votes⟩, ⟨_, hstate, _, rfl, _, hsupport, _, hvoted, votes', hvotes, heq⟩, rfl⟩ := h
  cases heq
  refine .vote id sender support votes hstate hsupport hvoted hvotes rfl ?_
  simp only [emit, setProposal, countVotes_eq _ hsupport]

theorem queue_ballots [DecidableEq H] {id : Nat} (h : ds.queue env e id = .ok (ds', e')) :
    BallotStep env ds ds' := by
  simp only [queue, bind_eq_ok, pure_eq_ok, Prod.mk.injEq] at h
  obtain ⟨_, -, _, -, e₁, -, rfl, -⟩ := h
  exact .of_update id rfl rfl ⟨rfl, rfl, rfl, rfl, rfl, rfl, rfl⟩

theorem cancel_ballots [DecidableEq H] {id : Nat} (h : ds.cancel env e sender id = .ok (ds', e')) :
    BallotStep env ds ds' := by
  simp only [cancel, bind_eq_ok] at h
  obtain ⟨_, -, _, -, h⟩ := h
  split at h
  · simp only [bind_eq_ok, pure_eq_ok, Prod.mk.injEq] at h
    obtain ⟨_, -, _, -, e₁, -, rfl, -⟩ := h
    exact .of_update id rfl rfl ⟨rfl, rfl, rfl, rfl, rfl, rfl, rfl⟩
  · simp only [bind_eq_ok, pure_eq_ok, Prod.mk.injEq] at h
    obtain ⟨e₁, -, rfl, -⟩ := h
    exact .of_update id rfl rfl ⟨rfl, rfl, rfl, rfl, rfl, rfl, rfl⟩

/-- The setters leave proposals alone, and what `initialize` fixed. -/
theorem adminCall_same {call : ForkAdminCall} (h : ds.adminCall sender call = .ok ds') :
    ds'.proposalCount = ds.proposalCount ∧ ds'.proposals = ds.proposals ∧
      ds'.delayedGovernanceExpirationTimestamp = ds.delayedGovernanceExpirationTimestamp ∧
      ds'.entered = ds.entered := by
  cases call with
  | setVotingDelay v | setVotingPeriod v | setProposalThresholdBPS v | setQuorumVotesBPS v =>
    simp only [adminCall, setVotingDelay, setVotingPeriod, setProposalThresholdBPS,
      setQuorumVotesBPS, setInRange, bind_eq_ok, pure_eq_ok] at h
    obtain ⟨_, -, _, -, rfl⟩ := h
    exact ⟨rfl, rfl, rfl, rfl⟩
  | setPendingAdmin a =>
    simp only [adminCall, setPendingAdmin, bind_eq_ok, pure_eq_ok] at h
    obtain ⟨_, -, rfl⟩ := h
    exact ⟨rfl, rfl, rfl, rfl⟩
  | acceptAdmin =>
    simp only [adminCall, acceptAdmin, bind_eq_ok, pure_eq_ok] at h
    obtain ⟨_, -, rfl⟩ := h
    exact ⟨rfl, rfl, rfl, rfl⟩
  | setErc20TokensToIncludeInQuit l =>
    simp only [adminCall, setErc20TokensToIncludeInQuit, bind_eq_ok, pure_eq_ok] at h
    obtain ⟨_, -, _, -, rfl⟩ := h
    exact ⟨rfl, rfl, rfl, rfl⟩

theorem adminCall_ballots {call : ForkAdminCall} (h : ds.adminCall sender call = .ok ds') :
    BallotStep env ds ds' := by
  obtain ⟨hcount, hproposals, -, -⟩ := adminCall_same h
  exact .of_proposals hcount hproposals

end StorageV1Fork

/-! ## Steps -/

namespace ForkWorld

variable {d : ForkDeployment H} {w w' : ForkWorld H}

open StorageV1Fork

/-- A part of a step, in terms of ballots and the token. -/
structure Advances (d : ForkDeployment H) (w w' : ForkWorld H) : Prop where
  blockNumber : w'.blockNumber = w.blockNumber
  ballots : BallotStep (w.env d) w.dao w'.dao
  token : Token.Changes False w.blockNumber w.nouns.toToken w'.nouns.toToken

theorem Advances.of_same (hblock : w'.blockNumber = w.blockNumber)
    (hcount : w'.dao.proposalCount = w.dao.proposalCount)
    (hproposals : w'.dao.proposals = w.dao.proposals) (htoken : w'.nouns = w.nouns) :
    Advances d w w' :=
  ⟨hblock, .of_proposals hcount hproposals, htoken ▸ .refl⟩

theorem Advances.of_storage {ds : StorageV1Fork} (h : BallotStep (w.env d) w.dao ds) :
    Advances d w { w with dao := ds } :=
  ⟨rfl, h, .refl⟩

theorem withStorage_ok {x : Tx StorageV1Fork} (h : w.withStorage x = .ok w') :
    ∃ ds, x = .ok ds ∧ w' = { w with dao := ds } := by
  simp only [withStorage, bind_eq_ok, pure_eq_ok] at h
  obtain ⟨ds, hds, rfl⟩ := h
  exact ⟨ds, hds, rfl⟩

theorem sendValue_ok {from_ to_ : Address} {amount : Nat}
    (h : w.sendValue from_ to_ amount = .ok w') : ∃ eth, w' = { w with eth } := by
  simp only [sendValue, bind_eq_ok, pure_eq_ok] at h
  obtain ⟨_, -, rfl⟩ := h
  exact ⟨_, rfl⟩

theorem sendToken_ok {erc20token from_ to_ : Address} {amount : Nat}
    (h : w.sendToken erc20token from_ to_ amount = .ok w') : ∃ erc20, w' = { w with erc20 } := by
  simp only [sendToken, bind_eq_ok, pure_eq_ok] at h
  obtain ⟨_, -, rfl⟩ := h
  exact ⟨_, rfl⟩

theorem payERC20_ok {quitting : Quitting} {rest : List (Address × Nat)}
    (h : w.payERC20 d quitting rest = .ok w') : Advances d w w' := by
  induction rest with
  | nil =>
    rw [← pure_eq_ok.mp h]
    exact .of_same rfl rfl rfl rfl
  | cons payment rest ih =>
    obtain ⟨erc20token, amount⟩ := payment
    simp only [payERC20] at h
    split at h
    · simp only [bind_eq_ok, pure_eq_ok] at h
      obtain ⟨_, -, w₁, hsend, rfl⟩ := h
      obtain ⟨erc20, rfl⟩ := sendToken_ok hsend
      exact .of_same rfl rfl rfl rfl
    · exact ih h

theorem quitInternal_ok {sender : Address} {tokenIds : List Nat}
    {erc20TokensToInclude : List Address}
    (h : w.quitInternal d sender tokenIds erc20TokensToInclude = .ok w') : Advances d w w' := by
  simp only [quitInternal, bind_eq_ok, pure_eq_ok] at h
  obtain ⟨_, -, supply, -, nouns, hloop, _, -, _, -, w₁, hsend, rfl⟩ := h
  obtain ⟨eth, rfl⟩ := sendValue_ok hsend
  refine ⟨rfl, .of_proposals rfl rfl, ?_⟩
  refine foldlM_ok (P := fun n => Token.Changes False w.blockNumber w.nouns.toToken n.toToken)
    hloop .refl ?_
  intro tokenId _ n₁ n₂ hchanges hn
  exact hchanges.trans (NounsTokenFork.transferFrom_changes hn)

/-- The guard touches neither ballots nor the token. -/
theorem nonReentrant_ok {f : ForkWorld H → Tx (ForkWorld H)}
    (hf : ∀ w w', f w = .ok w' → Advances d w w') (h : w.nonReentrant f = .ok w') :
    Advances d w w' := by
  simp only [nonReentrant, bind_eq_ok] at h
  obtain ⟨_, -, h⟩ := h
  obtain ⟨hblock, hballots, htoken⟩ := hf _ _ h
  refine ⟨hblock, ?_, htoken⟩
  cases hballots with
  | same hcount hsame => exact .same hcount hsame
  | create p hcount hproposals hreceipts hfor hagainst habstain hcreation hstart =>
    exact .create p hcount hproposals hreceipts hfor hagainst habstain hcreation hstart
  | vote id voter support votes hstate hsupport hvoted hvotes hcount hproposals =>
    exact .vote id voter support votes hstate hsupport hvoted hvotes hcount hproposals

theorem enter_ok {sender callee : Address} (h : w.enter d sender callee = .ok w') :
    ∃ frames, w' = { w with frames } := by
  simp only [enter] at h
  split at h
  · simp only [bind_eq_ok, pure_eq_ok] at h
    obtain ⟨_, -, rfl⟩ := h
    exact ⟨w.frames, rfl⟩
  · split at h
    · simp only [bind_eq_ok, pure_eq_ok] at h
      obtain ⟨_, -, rfl⟩ := h
      exact ⟨_, rfl⟩
    · simp only [bind_eq_ok, pure_eq_ok] at h
      obtain ⟨_, -, rfl⟩ := h
      exact ⟨w.frames, rfl⟩

variable [DecidableEq H]

theorem executeFrom_ok {id i : Nat} (h : w.executeFrom d id i = .ok w') :
    w'.blockNumber = w.blockNumber ∧ w'.dao.proposalCount = w.dao.proposalCount ∧
      w'.dao.proposals = w.dao.proposals ∧ w'.nouns = w.nouns := by
  simp only [executeFrom] at h
  split at h
  · simp only [bind_eq_ok, pure_eq_ok] at h
    obtain ⟨tx, -, e, -, w₁, hsend, rfl⟩ := h
    obtain ⟨eth, rfl⟩ := sendValue_ok hsend
    exact ⟨rfl, rfl, rfl, rfl⟩
  · rw [← pure_eq_ok.mp h]
    exact ⟨rfl, rfl, rfl, rfl⟩

theorem callDAO_ok {sender : Account} {call : ForkDAOCall}
    (h : w.callDAO d sender call = .ok w') : Advances d w w' := by
  cases call with
  | propose txs description =>
    obtain ⟨ds, hds, rfl⟩ := withStorage_ok h
    obtain ⟨⟨ds, id⟩, hpropose, rfl⟩ := map_eq_ok.mp hds
    exact .of_storage (propose_ballots hpropose)
  | queue id =>
    simp only [callDAO, withTimelock, bind_eq_ok, pure_eq_ok] at h
    obtain ⟨⟨ds, e⟩, hqueue, rfl⟩ := h
    exact ⟨rfl, queue_ballots hqueue, .refl⟩
  | execute id =>
    simp only [callDAO, execute, bind_eq_ok] at h
    obtain ⟨_, -, _, -, h⟩ := h
    obtain ⟨hblock, hcount, hproposals, htoken⟩ := executeFrom_ok h
    exact ⟨hblock, .of_update id hcount hproposals ⟨rfl, rfl, rfl, rfl, rfl, rfl, rfl⟩,
      htoken ▸ .refl⟩
  | cancel id =>
    simp only [callDAO, withTimelock, bind_eq_ok, pure_eq_ok] at h
    obtain ⟨⟨ds, e⟩, hcancel, rfl⟩ := h
    exact ⟨rfl, cancel_ballots hcancel, .refl⟩
  | castVote id support =>
    obtain ⟨ds, hds, rfl⟩ := withStorage_ok h
    exact .of_storage (castVoteWithReason_ballots hds)
  | castVoteWithReason id support reason =>
    obtain ⟨ds, hds, rfl⟩ := withStorage_ok h
    exact .of_storage (castVoteWithReason_ballots hds)
  | castVoteBySig id support sig =>
    obtain ⟨ds, hds, rfl⟩ := withStorage_ok h
    simp only [castVoteBySig, bind_eq_ok] at hds
    obtain ⟨_, -, hds⟩ := hds
    exact .of_storage (castVoteWithReason_ballots hds)
  | admin call =>
    obtain ⟨ds, hds, rfl⟩ := withStorage_ok h
    exact .of_storage (adminCall_ballots hds)
  | quit tokenIds => exact nonReentrant_ok (fun _ _ hq => quitInternal_ok hq) h
  | quitWith tokenIds erc20TokensToInclude =>
    simp only [callDAO, quitWith] at h
    refine nonReentrant_ok ?_ h
    intro w₁ w₂ hq
    simp only [bind_eq_ok] at hq
    obtain ⟨_, -, _, -, hq⟩ := hq
    exact quitInternal_ok hq

theorem resume_ok {k : ForkContinuation} (h : w.resume d k = .ok w') : Advances d w w' := by
  cases k with
  | execute id i tx =>
    obtain ⟨hblock, hcount, hproposals, htoken⟩ := executeFrom_ok h
    exact .of_same hblock hcount hproposals htoken
  | sendETH quitting rest amount =>
    obtain ⟨hblock, hballots, htoken⟩ := payERC20_ok h
    exact ⟨hblock, hballots, htoken⟩
  | sendERC20 quitting rest erc20token amount =>
    obtain ⟨hblock, hballots, htoken⟩ := payERC20_ok h
    exact ⟨hblock, hballots, htoken⟩

/-- Every step advances ballots and the token, or lets time pass. -/
theorem step_cases {a : ForkAction} (h : w.step d a = .ok w') :
    Advances d w w' ∨
      (w.blockNumber ≤ w'.blockNumber ∧ w'.dao = w.dao ∧ w'.nouns = w.nouns) := by
  cases a with
  | advance blockNumber timestamp =>
    simp only [step, bind_eq_ok, require_eq_ok, pure_eq_ok] at h
    obtain ⟨_, ⟨-, hblock, -⟩, rfl⟩ := h
    exact .inr ⟨hblock, rfl, rfl⟩
  | callDAO sender call =>
    simp only [step, bind_eq_ok] at h
    obtain ⟨w₁, henter, h⟩ := h
    obtain ⟨frames, rfl⟩ := enter_ok henter
    obtain ⟨hblock, hballots, htoken⟩ := callDAO_ok h
    exact .inl ⟨hblock, hballots, htoken⟩
  | callToken sender call =>
    simp only [step, callToken, bind_eq_ok, pure_eq_ok] at h
    obtain ⟨w₁, henter, nouns, hcall, rfl⟩ := h
    obtain ⟨frames, rfl⟩ := enter_ok henter
    exact .inl ⟨rfl, .of_proposals rfl rfl, NounsTokenFork.call_changes hcall⟩
  | callExecutor sender call =>
    simp only [step, callExecutor, bind_eq_ok, pure_eq_ok] at h
    obtain ⟨w₁, henter, e, -, rfl⟩ := h
    obtain ⟨frames, rfl⟩ := enter_ok henter
    exact .inl (.of_same rfl rfl rfl rfl)
  | return_ =>
    simp only [step] at h
    split at h
    · simp at h
    · obtain ⟨hblock, hballots, htoken⟩ := resume_ok h
      exact .inl ⟨hblock, hballots, htoken⟩

theorem Next.cases {admits : ForkWorld H → ForkAction → Prop} (h : Next d admits w w') :
    Advances d w w' ∨
      (w.blockNumber ≤ w'.blockNumber ∧ w'.dao = w.dao ∧ w'.nouns = w.nouns) := by
  cases h with
  | step a _ hstep => exact step_cases hstep
  | outside hout =>
    obtain ⟨⟨escrow, eth, erc20, outside, rfl⟩, -, -⟩ := hout
    exact .inr ⟨Nat.le_refl _, rfl, rfl⟩

end ForkWorld

end Nouns
