import Nouns.Governance.ForkEvents
import Nouns.Subgraph.Proposals

/-!
# Forks — the indexed forks

The entity of the current fork counts what the escrow counts, and that of a past fork what was
escrowed for it and what has joined since.  `Counted` says of the log what the handlers need to know,
and `ForksMirrored` is kept by every change of the escrow together with its event.
-/

open EntityStore EntityStore.Table Transition Fallible

namespace Nouns.Subgraph

namespace Store

variable {s s' s₁ : Store} {block : Block}

/-! ## Handlers that are not about forks -/

structure SameForks (s s' : Store) : Prop where
  forks : s'.forks = s.forks
  escrowedNouns : s'.escrowedNouns = s.escrowedNouns

theorem SameForks.refl (s : Store) : SameForks s s := ⟨rfl, rfl⟩

theorem SameForks.trans (h : SameForks s s₁) (h' : SameForks s₁ s') : SameForks s s' :=
  ⟨h'.forks.trans h.forks, h'.escrowedNouns.trans h.escrowedNouns⟩

theorem LeavesDAO.sameForks (h : LeavesDAO s s') : SameForks s s' := ⟨h.forks, h.escrowedNouns⟩

theorem getOrCreateDynamicQuorumParams_sameForks (s : Store) (block : Option Nat) :
    SameForks s (s.getOrCreateDynamicQuorumParams block).1 := by
  unfold getOrCreateDynamicQuorumParams
  split
  · exact ⟨rfl, rfl⟩
  · split
    · exact ⟨rfl, rfl⟩
    · exact .refl s

theorem sameForks_of_load {id : Nat} {f : Proposal → Store}
    (h : (s.proposals.load id).bind (fun e => some (f e)) = some s')
    (hf : ∀ e, SameForks s (f e)) : SameForks s s' := by
  obtain ⟨e, -, h⟩ := Option.bind_eq_some_iff.mp h
  rw [← Option.some.inj h]
  exact hf e

theorem handleProposalCreated_sameForks (s : Store) (parsedProposal : ParsedProposalV3) :
    SameForks s (s.handleProposalCreated parsedProposal) := by
  have hcounted (b : Prop) [Decidable b] : SameForks s (if b then s.countProposal else s) := by
    split
    · exact ⟨rfl, rfl⟩
    · exact .refl s
  have hbefore := (beforeProposal_leavesDAO (if s.proposals.load parsedProposal.id = none then
    s.countProposal else s) parsedProposal.proposer parsedProposal.signers).sameForks
  have hparams := getOrCreateDynamicQuorumParams_sameForks
    (parsedProposal.signers.foldl (fun s signer => (s.getOrCreateDelegate signer).1)
      ((if s.proposals.load parsedProposal.id = none then s.countProposal else
        s).getOrCreateDelegate parsedProposal.proposer).1) none
  exact ((hcounted _).trans hbefore).trans (hparams.trans ⟨rfl, rfl⟩)

theorem handleDAOEvent_sameForks {e : DAOEvent} (he : e.ofForks = false)
    (h : s.handleDAOEvent block e = some s') : SameForks s s' := by
  cases e with
  | ProposalCreatedWithRequirements =>
    rw [← Option.some.inj h]
    exact handleProposalCreated_sameForks s _
  | ProposalCreatedOnTimelockV1 | ProposalUpdated | ProposalTransactionsUpdated
  | ProposalDescriptionUpdated | ProposalCanceled | ProposalVetoed | ProposalQueued
  | ProposalExecuted | ProposalObjectionPeriodSet => exact sameForks_of_load h fun _ => ⟨rfl, rfl⟩
  | VoteCast voter proposalId support votes reason =>
    simp only [handleDAOEvent, handleVoteCast, Option.bind_eq_bind, Option.bind_eq_some_iff,
      Option.pure_def, Option.some.injEq] at h
    obtain ⟨e, -, q, -, rfl⟩ := h
    refine SameForks.trans ?_ (.trans (getOrCreateDynamicQuorumParams_sameForks _ none) ⟨rfl, rfl⟩)
    exact (getOrCreateDelegate_leavesDAO s voter).sameForks.trans ⟨rfl, rfl⟩
  | MinQuorumVotesBPSSet | MaxQuorumVotesBPSSet | QuorumCoefficientSet =>
    rw [← Option.some.inj h]
    exact (getOrCreateDynamicQuorumParams_sameForks s _).trans ⟨rfl, rfl⟩
  | EscrowedToFork | WithdrawFromForkEscrow | ExecuteFork | JoinFork => cases he
  | _ =>
    rw [← Option.some.inj h]
    exact ⟨rfl, rfl⟩

/-! ## Handlers of forks -/

theorem saveEscrowedNouns (s : Store) (forkId : Nat) (owner : Address) (tokenIds : List Nat) :
    (tokenIds.foldl (fun s tokenId => s.saveEscrowedNoun ⟨forkId, tokenId, owner⟩) s).forks =
        s.forks ∧
      ∀ f id, (tokenIds.foldl (fun s tokenId => s.saveEscrowedNoun ⟨forkId, tokenId, owner⟩)
        s).escrowedNouns.load (f, id) =
        if f = forkId ∧ id ∈ tokenIds then some ⟨f, id, owner⟩ else s.escrowedNouns.load (f, id) := by
  have htable : (tokenIds.foldl (fun s tokenId => s.saveEscrowedNoun ⟨forkId, tokenId, owner⟩)
      s).escrowedNouns = (tokenIds.map (Prod.mk forkId)).foldl
        (fun t k => t.save k ⟨k.1, k.2, owner⟩) s.escrowedNouns ∧
      (tokenIds.foldl (fun s tokenId => s.saveEscrowedNoun ⟨forkId, tokenId, owner⟩) s).forks =
        s.forks := by
    induction tokenIds generalizing s with
    | nil => exact ⟨rfl, rfl⟩
    | cons id tokenIds ih => exact ih (s.saveEscrowedNoun ⟨forkId, id, owner⟩)
  refine ⟨htable.2, ?_⟩
  intro f id
  rw [htable.1, load_saveEach _ (fun k : Nat × Nat => EscrowedNoun.mk k.1 k.2 owner)]
  simp only [List.mem_map, Prod.mk.injEq]
  by_cases hf : f = forkId
  · simp [hf]
  · simp [hf, Ne.symm hf]

theorem removeEscrowedNouns (s : Store) (forkId : Nat) (tokenIds : List Nat) :
    (tokenIds.foldl (fun s tokenId => s.removeEscrowedNoun forkId tokenId) s).forks = s.forks ∧
      ∀ f id, (tokenIds.foldl (fun s tokenId => s.removeEscrowedNoun forkId tokenId)
        s).escrowedNouns.load (f, id) =
        if f = forkId ∧ id ∈ tokenIds then none else s.escrowedNouns.load (f, id) := by
  have htable : (tokenIds.foldl (fun s tokenId => s.removeEscrowedNoun forkId tokenId)
      s).escrowedNouns = (tokenIds.map (Prod.mk forkId)).foldl (fun t k => t.remove k)
        s.escrowedNouns ∧
      (tokenIds.foldl (fun s tokenId => s.removeEscrowedNoun forkId tokenId) s).forks = s.forks := by
    induction tokenIds generalizing s with
    | nil => exact ⟨rfl, rfl⟩
    | cons id tokenIds ih => exact ih (s.removeEscrowedNoun forkId id)
  refine ⟨htable.2, ?_⟩
  intro f id
  rw [htable.1, load_removeEach]
  simp only [List.mem_map, Prod.mk.injEq]
  by_cases hf : f = forkId
  · simp [hf]
  · simp [hf, Ne.symm hf]

/-- The entity of a fork is stored under its number. -/
def ForksByID (s : Store) : Prop := ∀ f fork, s.forks.load f = some fork → fork.forkID = f

theorem ForksByID.getOrCreate (h : ForksByID s) (f : Nat) : (s.getOrCreateFork f).forkID = f := by
  rw [getOrCreateFork, Table.get]
  cases hload : s.forks.load f with
  | none => rfl
  | some fork => exact h f fork hload

theorem ForksByID.save (h : ForksByID s) {fork : Fork}
    (hforks : s'.forks = s.forks.save fork.forkID fork) : ForksByID s' := by
  intro f e hload
  rw [hforks, load_save] at hload
  split at hload
  · rename_i hf
    rw [← Option.some.inj hload, hf]
  · exact h f e hload

end Store

/-! ## What the log tells -/

/-- The Nouns that an event of fork `f` adds to those that joined it. -/
def joinedBy (f : Nat) : DAOEvent → Nat
  | .JoinFork forkId _ tokenIds _ _ => if forkId = f then tokenIds.length else 0
  | _ => 0

/-- How many Nouns joined fork `f`. -/
def joined (f : Nat) (log : List DAOEvent) : Nat := (log.map (joinedBy f)).sum

@[simp] theorem joined_cons (f : Nat) (e : DAOEvent) (log : List DAOEvent) :
    joined f (e :: log) = joinedBy f e + joined f log := by
  rw [joined, List.map_cons, List.sum_cons, joined]

theorem joinedBy_of_not_forks {e : DAOEvent} (he : e.ofForks = false) (f : Nat) :
    joinedBy f e = 0 := by
  cases e with
  | JoinFork => cases he
  | _ => rfl

theorem joined_append {events : List DAOEvent} (hevents : ∀ e ∈ events, e.ofForks = false)
    (f : Nat) (log : List DAOEvent) : joined f (events ++ log) = joined f log := by
  induction events with
  | nil => rfl
  | cons e events ih =>
    rw [List.cons_append, joined_cons, joinedBy_of_not_forks (hevents e List.mem_cons_self),
      ih fun e he => hevents e (List.mem_cons_of_mem _ he), Nat.zero_add]

/-- The Nouns recorded for fork `f`. -/
def recordedFor (e : ForkEscrow) (f : Nat) : Set Nat := { id | e.escrowedTokensByForkId f id ≠ 0 }

/-- An execution is logged with the number of the Nouns recorded for the fork, nobody has joined a
fork that is not over, and at most one is being executed. -/
structure Counted (c : ForkCourse) : Prop where
  closed : ∀ f forkTreasury forkToken forkEndTimestamp (n : Nat),
    .ExecuteFork f forkTreasury forkToken forkEndTimestamp n ∈ c.log →
      f < c.e.forkId ∧ (recordedFor c.e f).encard = n
  joins : ∀ f, c.e.forkId ≤ f → joined f c.log = 0
  executing : c.executing = [] ∨
    ∃ fork : ForkStart, c.executing = [fork] ∧ fork.tokensInEscrow = c.e.numTokensInEscrow

theorem recordedFor_of_setAll {e e' : ForkEscrow} {tokenIds : List Nat} {owner : Address} {f : Nat}
    (h : e.SetAll tokenIds owner e') (hf : f ≠ e.forkId) : recordedFor e' f = recordedFor e f := by
  ext id
  show e'.escrowedTokensByForkId f id ≠ 0 ↔ e.escrowedTokensByForkId f id ≠ 0
  rw [h.entry, if_neg (fun hand => hf hand.1)]

namespace Counted

variable {c c' : ForkCourse}

/-- Events that are not about executions, while the past forks stay. -/
theorem of_log {e' : ForkEscrow} {events : List DAOEvent} {executing : List ForkStart}
    (h : Counted c) (hforkId : e'.forkId = c.e.forkId)
    (hpast : ∀ f < c.e.forkId, recordedFor e' f = recordedFor c.e f)
    (hevents : ∀ e ∈ events, ∀ f forkTreasury forkToken forkEndTimestamp n,
      e ≠ .ExecuteFork f forkTreasury forkToken forkEndTimestamp n)
    (hjoins : ∀ f, c.e.forkId ≤ f → joined f (events ++ c.log) = 0)
    (hexecuting : executing = [] ∨
      ∃ fork : ForkStart, executing = [fork] ∧ fork.tokensInEscrow = e'.numTokensInEscrow) :
    Counted ⟨e', events ++ c.log, executing⟩ where
  closed f forkTreasury forkToken forkEndTimestamp n hmem := by
    rcases List.mem_append.mp hmem with hmem | hmem
    · exact absurd rfl (hevents _ hmem f forkTreasury forkToken forkEndTimestamp n)
    · obtain ⟨hlt, hcount⟩ := h.closed f forkTreasury forkToken forkEndTimestamp n hmem
      show f < e'.forkId ∧ (recordedFor e' f).encard = n
      rw [hforkId, hpast f hlt]
      exact ⟨hlt, hcount⟩
  joins f hf := hjoins f (hforkId ▸ hf)
  executing := hexecuting

/-- The one execution began with the Nouns that are in escrow now. -/
theorem current (h : Counted c) {fork : ForkStart} {rest : List ForkStart}
    (hexecuting : c.executing = fork :: rest) : fork.tokensInEscrow = c.e.numTokensInEscrow := by
  rcases h.executing with hnone | ⟨fork', hsome, hfork'⟩
  · rw [hnone] at hexecuting
    cases hexecuting
  · rw [hsome] at hexecuting
    cases hexecuting
    exact hfork'

/-- No other one waits. -/
theorem alone (h : Counted c) {fork : ForkStart} {rest : List ForkStart}
    (hexecuting : c.executing = fork :: rest) : rest = [] := by
  rcases h.executing with hnone | ⟨fork', hsome, -⟩
  · rw [hnone] at hexecuting
    cases hexecuting
  · rw [hsome] at hexecuting
    cases hexecuting
    rfl

theorem step (h : Counted c) (hcount : (recordedFor c.e c.e.forkId).encard = c.e.numTokensInEscrow)
    (hs : c.Step c') : Counted c' := by
  cases hs with
  | aside events hevents =>
    apply h.of_log rfl (fun _ _ => rfl)
    · rintro e he f forkTreasury forkToken forkEndTimestamp n rfl
      cases hevents _ he
    · intro f hf
      rw [joined_append hevents, h.joins f hf]
    · exact h.executing
  | escrow e' owner tokenIds proposalIds reason _ hset _ =>
    show Counted ⟨e', [_] ++ c.log, []⟩
    apply h.of_log hset.forkId
    · intro f hf
      exact recordedFor_of_setAll hset (Nat.ne_of_lt hf)
    · intro e he f forkTreasury forkToken forkEndTimestamp n heq
      rw [List.mem_singleton.mp he] at heq
      cases heq
    · intro f hf
      rw [List.singleton_append, joined_cons, h.joins f hf]
      rfl
    · exact .inl rfl
  | withdraw e' owner tokenIds _ hset _ =>
    show Counted ⟨e', [_] ++ c.log, []⟩
    apply h.of_log hset.forkId
    · intro f hf
      exact recordedFor_of_setAll hset (Nat.ne_of_lt hf)
    · intro e he f forkTreasury forkToken forkEndTimestamp n heq
      rw [List.mem_singleton.mp he] at heq
      cases heq
    · intro f hf
      rw [List.singleton_append, joined_cons, h.joins f hf]
      rfl
    · exact .inl rfl
  | begin_ fork _ hfork => exact ⟨h.closed, h.joins, .inr ⟨fork, rfl, hfork⟩⟩
  | execute fork rest forkTreasury forkToken hexecuting =>
    have hfork := h.current hexecuting
    have hrest := h.alone hexecuting
    refine ⟨?_, ?_, .inl hrest⟩
    · intro f forkTreasury' forkToken' forkEndTimestamp' n hmem
      show f < c.e.forkId + 1 ∧ (recordedFor c.e f).encard = n
      rcases List.mem_cons.mp hmem with heq | hmem
      · cases heq
        exact ⟨Nat.lt_succ_self _, hfork ▸ hcount⟩
      · obtain ⟨hlt, hrecorded⟩ := h.closed _ _ _ _ _ hmem
        exact ⟨Nat.lt_succ_of_lt hlt, hrecorded⟩
    · intro f hf
      show joined f (_ :: c.log) = 0
      rw [joined_cons, h.joins f (Nat.le_of_succ_le hf)]
      rfl
  | join forkId owner tokenIds proposalIds reason hforkId =>
    show Counted ⟨c.e, [_] ++ c.log, c.executing⟩
    apply h.of_log rfl (fun _ _ => rfl)
    · intro e he f forkTreasury forkToken forkEndTimestamp n heq
      rw [List.mem_singleton.mp he] at heq
      cases heq
    · intro f hf
      rw [List.singleton_append, joined_cons, h.joins f hf]
      show (if forkId = f then tokenIds.length else 0) + 0 = 0
      rw [if_neg (by omega)]
    · exact h.executing

end Counted

/-! ## The mirror -/

/-- The index agrees with the escrow. -/
structure ForksMirrored (e : ForkEscrow) (log : List DAOEvent) (s : Store) : Prop where
  byID : s.ForksByID
  /-- A Noun is stored as long as it is recorded, with who escrowed it. -/
  nouns : ∀ f id, s.escrowedNouns.load (f, id) =
    if e.escrowedTokensByForkId f id = 0 then none
    else some ⟨f, id, e.escrowedTokensByForkId f id⟩
  current : (s.getOrCreateFork e.forkId).tokensInEscrowCount = e.numTokensInEscrow ∧
    (s.getOrCreateFork e.forkId).executed = none
  later : ∀ f, e.forkId < f → s.forks.load f = none
  past : ∀ f < e.forkId, ∃ (fork : Fork) (n : Nat), s.forks.load f = some fork ∧
    fork.executed = some true ∧ (recordedFor e f).encard = n ∧ fork.tokensInEscrowCount = n ∧
    fork.tokensForkingCount = n + joined f log

namespace ForksMirrored

open Store

variable {e e' : ForkEscrow} {log : List DAOEvent} {s s' : Store}

theorem congr (h : ForksMirrored e log s) (hs : SameForks s s') : ForksMirrored e log s' := by
  have hget (f : Nat) : s'.getOrCreateFork f = s.getOrCreateFork f := by
    rw [getOrCreateFork, getOrCreateFork, hs.forks]
  constructor
  · intro f fork hload
    rw [hs.forks] at hload
    exact h.byID f fork hload
  · intro f id
    rw [hs.escrowedNouns]
    exact h.nouns f id
  · rw [hget]
    exact h.current
  · intro f hf
    rw [hs.forks]
    exact h.later f hf
  · intro f hf
    rw [hs.forks]
    exact h.past f hf

/-- The records and the count of the current fork change together. -/
theorem setAll (h : ForksMirrored e log s) {tokenIds : List Nat} {owner : Address} {ev : DAOEvent}
    (hset : e.SetAll tokenIds owner e') (hev : ∀ f, joinedBy f ev = 0)
    (hforks : s'.forks = s.forks.save e.forkId { s.getOrCreateFork e.forkId with
      tokensInEscrowCount := e'.numTokensInEscrow })
    (hnouns : ∀ f id, s'.escrowedNouns.load (f, id) =
      if f = e.forkId ∧ id ∈ tokenIds then if owner = 0 then none else some ⟨f, id, owner⟩
      else s.escrowedNouns.load (f, id)) :
    ForksMirrored e' (ev :: log) s' := by
  have hforkID : (s.getOrCreateFork e.forkId).forkID = e.forkId := h.byID.getOrCreate e.forkId
  constructor
  · apply h.byID.save
    rw [hforks]
    exact congrArg (fun f => s.forks.save f _) hforkID.symm
  · intro f id
    rw [hnouns, hset.entry]
    by_cases hin : f = e.forkId ∧ id ∈ tokenIds
    · rw [if_pos hin, if_pos hin]
    · rw [if_neg hin, if_neg hin, h.nouns]
  · rw [hset.forkId, getOrCreateFork, hforks, get_save_self]
    exact ⟨rfl, h.current.2⟩
  · intro f hf
    rw [hset.forkId] at hf
    rw [hforks, load_save_ne (Nat.ne_of_gt hf)]
    exact h.later f hf
  · intro f hf
    rw [hset.forkId] at hf
    have hne : f ≠ e.forkId := Nat.ne_of_lt hf
    rw [hforks, load_save_ne hne, recordedFor_of_setAll hset hne, joined_cons, hev, Nat.zero_add]
    exact h.past f hf

theorem escrow (h : ForksMirrored e log s) {owner : Nouns.Account} {tokenIds proposalIds : List Nat}
    {reason : String} (hset : e.SetAll tokenIds owner e')
    (hnum : e'.numTokensInEscrow = e.numTokensInEscrow + tokenIds.length) :
    ForksMirrored e' (.EscrowedToFork e.forkId owner tokenIds proposalIds reason :: log)
      (s.handleEscrowedToFork e.forkId owner tokenIds) := by
  have hforkID : (s.getOrCreateFork e.forkId).forkID = e.forkId := h.byID.getOrCreate e.forkId
  have hdelegate := getOrCreateDelegate_leavesDAO s (owner : Address)
  obtain ⟨hforks, hnouns⟩ := saveEscrowedNouns (s.getOrCreateDelegate owner).1 e.forkId owner tokenIds
  apply h.setAll hset (fun _ => rfl)
  · simp only [handleEscrowedToFork, saveFork, hforkID]
    rw [hforks, hdelegate.forks, hnum, Nat.cast_add, h.current.1]
  · intro f id
    simp only [handleEscrowedToFork, saveFork, hforkID]
    rw [hnouns, hdelegate.escrowedNouns, if_neg owner.property]

theorem withdraw (h : ForksMirrored e log s) {owner : Address} {tokenIds : List Nat}
    (hset : e.SetAll tokenIds 0 e')
    (hnum : e'.numTokensInEscrow + tokenIds.length = e.numTokensInEscrow) :
    ForksMirrored e' (.WithdrawFromForkEscrow e.forkId owner tokenIds :: log)
      (s.handleWithdrawFromForkEscrow e.forkId owner tokenIds) := by
  have hforkID : (s.getOrCreateFork e.forkId).forkID = e.forkId := h.byID.getOrCreate e.forkId
  have hdelegate := getOrCreateDelegate_leavesDAO s owner
  obtain ⟨hforks, hnouns⟩ := removeEscrowedNouns (s.getOrCreateDelegate owner).1 e.forkId tokenIds
  have hcount : (s.getOrCreateFork e.forkId).tokensInEscrowCount - tokenIds.length =
      e'.numTokensInEscrow := by
    rw [h.current.1]
    omega
  apply h.setAll hset (fun _ => rfl)
  · simp only [handleWithdrawFromForkEscrow, saveFork, hforkID]
    rw [hforks, hdelegate.forks, hcount]
  · intro f id
    simp only [handleWithdrawFromForkEscrow, saveFork, hforkID]
    rw [hnouns, hdelegate.escrowedNouns, if_pos trivial]

theorem execute (h : ForksMirrored e log s) (block : Block)
    {forkTreasury forkToken : Address} {forkEndTimestamp : Nat}
    (hcount : (recordedFor e e.forkId).encard = e.numTokensInEscrow)
    (hjoins : joined e.forkId log = 0) :
    ForksMirrored e.closeEscrow
      (.ExecuteFork e.forkId forkTreasury forkToken forkEndTimestamp e.numTokensInEscrow :: log)
      (s.handleExecuteFork block e.forkId forkTreasury forkToken forkEndTimestamp
        e.numTokensInEscrow) := by
  have hforkID : (s.getOrCreateFork e.forkId).forkID = e.forkId := h.byID.getOrCreate e.forkId
  -- The counts agree, so that nothing is overwritten.
  have hcurrent : (s.getOrCreateFork e.forkId).tokensInEscrowCount = e.numTokensInEscrow :=
    h.current.1
  have hhandle : s.handleExecuteFork block e.forkId forkTreasury forkToken forkEndTimestamp
      e.numTokensInEscrow = s.saveFork
        { forkID := e.forkId
          tokensInEscrowCount := e.numTokensInEscrow
          tokensForkingCount := e.numTokensInEscrow
          executed := some true
          executedAt := some block.timestamp
          forkingPeriodEndTimestamp := some forkEndTimestamp
          forkTreasury := some forkTreasury
          forkToken := some forkToken } := by
    simp only [handleExecuteFork, hcurrent, hforkID, ne_eq, not_true_eq_false, if_false]
  rw [hhandle]
  constructor
  · exact h.byID.save rfl
  · exact h.nouns
  · have hnext : s.forks.load (e.forkId + 1) = none := h.later _ (Nat.lt_succ_self _)
    have hnew : s.getOrCreateFork (e.forkId + 1) = Fork.new (e.forkId + 1) := by
      rw [getOrCreateFork, Table.get, hnext, Option.getD_none]
    show (Table.get (s.forks.save e.forkId _) (Fork.new _) (e.forkId + 1)).tokensInEscrowCount = 0 ∧
      (Table.get (s.forks.save e.forkId _) (Fork.new _) (e.forkId + 1)).executed = none
    rw [get_save_ne (Nat.succ_ne_self _)]
    exact ⟨congrArg Fork.tokensInEscrowCount hnew, congrArg Fork.executed hnew⟩
  · intro f hf
    have hlt : e.forkId < f := Nat.lt_of_succ_lt hf
    rw [saveFork, load_save_ne (Nat.ne_of_gt hlt)]
    exact h.later f hlt
  · intro f hf
    rw [saveFork, load_save, joined_cons]
    show ∃ (fork' : Fork) (n : Nat), _ ∧ fork'.executed = some true ∧ (recordedFor e f).encard = n ∧
      fork'.tokensInEscrowCount = n ∧ fork'.tokensForkingCount = n + ((0 + joined f log : Nat) : Int)
    rw [Nat.zero_add]
    rcases Nat.lt_or_eq_of_le (Nat.le_of_lt_succ hf) with hlt | rfl
    · rw [if_neg (Nat.ne_of_lt hlt)]
      exact h.past f hlt
    · rw [if_pos rfl, hjoins]
      exact ⟨_, e.numTokensInEscrow, rfl, rfl, hcount, rfl, (Int.add_zero _).symm⟩

theorem join (h : ForksMirrored e log s) {forkId : Nat} {owner : Address}
    {tokenIds proposalIds : List Nat} {reason : String} (hforkId : e.forkId = forkId + 1) :
    ForksMirrored e (.JoinFork forkId owner tokenIds proposalIds reason :: log)
      (s.handleJoinFork forkId owner tokenIds) := by
  have hlast : forkId < e.forkId := hforkId ▸ Nat.lt_succ_self forkId
  have hforkID : (s.getOrCreateFork forkId).forkID = forkId := h.byID.getOrCreate forkId
  have hdelegate := getOrCreateDelegate_leavesDAO s owner
  have hforks : (s.handleJoinFork forkId owner tokenIds).forks =
      s.forks.save forkId { s.getOrCreateFork forkId with
        tokensForkingCount := (s.getOrCreateFork forkId).tokensForkingCount + tokenIds.length } := by
    simp only [handleJoinFork, saveFork, hforkID, hdelegate.forks]
  constructor
  · apply h.byID.save
    rw [hforks]
    exact congrArg (fun f => s.forks.save f _) hforkID.symm
  · intro f id
    show (s.getOrCreateDelegate owner).1.escrowedNouns.load (f, id) = _
    rw [hdelegate.escrowedNouns]
    exact h.nouns f id
  · rw [getOrCreateFork, hforks, get_save_ne (Nat.ne_of_gt hlast)]
    exact h.current
  · intro f hf
    rw [hforks, load_save_ne (Nat.ne_of_gt (hlast.trans hf))]
    exact h.later f hf
  · intro f hf
    obtain ⟨fork, n, hload, hexecuted, hcount, hescrow, hforking⟩ := h.past f hf
    rw [hforks, load_save, joined_cons]
    by_cases hjoined : f = forkId
    · subst hjoined
      have hget : s.getOrCreateFork f = fork := get_of_load hload
      rw [if_pos rfl, hget]
      refine ⟨_, n, rfl, hexecuted, hcount, hescrow, ?_⟩
      show fork.tokensForkingCount + tokenIds.length =
        n + (((if f = f then tokenIds.length else 0) + joined f log : Nat) : Int)
      rw [if_pos rfl, hforking]
      omega
    · have hzero : joinedBy f (.JoinFork forkId owner tokenIds proposalIds reason) = 0 :=
        if_neg (Ne.symm hjoined)
      rw [if_neg hjoined, hzero, Nat.zero_add]
      exact ⟨fork, n, hload, hexecuted, hcount, hescrow, hforking⟩

end ForksMirrored

/-! ## Runs -/

/-- Wherever an execution was logged, the index counted as many Nouns as the event names, so that
`handleExecuteFork` logs no mismatch. -/
def NoMismatch (log : List DAOEvent) : Prop :=
  ∀ later f forkTreasury forkToken forkEndTimestamp (n : Nat) earlier,
    log = later ++ .ExecuteFork f forkTreasury forkToken forkEndTimestamp n :: earlier →
      ∀ s, EventsIndexed earlier s → (s.getOrCreateFork f).tokensInEscrowCount = n

theorem NoMismatch.cons {e : DAOEvent} {log : List DAOEvent} (h : NoMismatch log)
    (he : ∀ f forkTreasury forkToken forkEndTimestamp (n : Nat),
      e = .ExecuteFork f forkTreasury forkToken forkEndTimestamp n →
        ∀ s, EventsIndexed log s → (s.getOrCreateFork f).tokensInEscrowCount = n) :
    NoMismatch (e :: log) := by
  intro later f forkTreasury forkToken forkEndTimestamp n earlier heq
  cases later with
  | nil =>
    cases heq
    exact he f forkTreasury forkToken forkEndTimestamp n rfl
  | cons e' later =>
    cases heq
    exact h later f forkTreasury forkToken forkEndTimestamp n earlier rfl

theorem NoMismatch.append {events log : List DAOEvent} (h : NoMismatch log)
    (hevents : ∀ e ∈ events, e.ofForks = false) : NoMismatch (events ++ log) := by
  induction events with
  | nil => exact h
  | cons e events ih =>
    apply NoMismatch.cons (ih fun e' he' => hevents e' (List.mem_cons_of_mem e he'))
    rintro f forkTreasury forkToken forkEndTimestamp n rfl
    cases hevents _ List.mem_cons_self

/-- What holds of the forks in every state of the DAO. -/
structure ForksTold (c : ForkCourse) : Prop where
  counted : Counted c
  mirrored : ∀ s, EventsIndexed c.log s → ForksMirrored c.e c.log s
  noMismatch : NoMismatch c.log

theorem mirrored_append {e : ForkEscrow} {events log : List DAOEvent}
    (hevents : ∀ ev ∈ events, ev.ofForks = false)
    (h : ∀ s, EventsIndexed log s → ForksMirrored e log s) :
    ∀ s, EventsIndexed (events ++ log) s → ForksMirrored e (events ++ log) s := by
  induction events with
  | nil => exact h
  | cons ev events ih =>
    intro s hs
    obtain ⟨block, s₀, s₁, hs₀, hhandle, hleaves⟩ := EventsIndexed.cons hs
    have hev := hevents ev List.mem_cons_self
    have hm := ih (fun e' he' => hevents e' (List.mem_cons_of_mem ev he')) s₀ hs₀
    have hm₁ := (hm.congr (Store.handleDAOEvent_sameForks hev hhandle)).congr hleaves.sameForks
    refine ⟨hm₁.byID, hm₁.nouns, hm₁.current, hm₁.later, ?_⟩
    intro f hf
    rw [List.cons_append, joined_cons, joinedBy_of_not_forks hev, Nat.zero_add]
    exact hm₁.past f hf

theorem ForksTold.step {c c' : ForkCourse} (h : ForksTold c)
    (hcount : (recordedFor c.e c.e.forkId).encard = c.e.numTokensInEscrow) (hs : c.Step c') :
    ForksTold c' := by
  refine ⟨h.counted.step hcount hs, ?_, ?_⟩
  · cases hs with
    | aside events hevents => exact mirrored_append hevents h.mirrored
    | escrow e' owner tokenIds proposalIds reason _ hset hnum =>
      intro s hindexed
      obtain ⟨block, s₀, s₁, hs₀, hhandle, hleaves⟩ := hindexed.cons
      rw [← Option.some.inj hhandle] at hleaves
      exact ((h.mirrored s₀ hs₀).escrow hset hnum).congr hleaves.sameForks
    | withdraw e' owner tokenIds _ hset hnum =>
      intro s hindexed
      obtain ⟨block, s₀, s₁, hs₀, hhandle, hleaves⟩ := hindexed.cons
      rw [← Option.some.inj hhandle] at hleaves
      exact ((h.mirrored s₀ hs₀).withdraw hset hnum).congr hleaves.sameForks
    | begin_ fork _ _ => exact h.mirrored
    | execute fork rest forkTreasury forkToken hexecuting =>
      have hfork := h.counted.current hexecuting
      intro s hindexed
      obtain ⟨block, s₀, s₁, hs₀, hhandle, hleaves⟩ := hindexed.cons
      rw [← Option.some.inj hhandle] at hleaves
      rw [hfork] at hleaves ⊢
      refine ForksMirrored.congr ?_ hleaves.sameForks
      exact (h.mirrored s₀ hs₀).execute block hcount (h.counted.joins _ (Nat.le_refl _))
    | join forkId owner tokenIds proposalIds reason hforkId =>
      intro s hindexed
      obtain ⟨block, s₀, s₁, hs₀, hhandle, hleaves⟩ := hindexed.cons
      rw [← Option.some.inj hhandle] at hleaves
      exact ((h.mirrored s₀ hs₀).join hforkId).congr hleaves.sameForks
  · cases hs with
    | aside events hevents => exact h.noMismatch.append hevents
    | escrow _ _ _ _ _ _ _ _ | withdraw _ _ _ _ _ _ | join _ _ _ _ _ _ =>
      apply h.noMismatch.cons
      intro f forkTreasury forkToken forkEndTimestamp n heq
      cases heq
    | begin_ fork _ _ => exact h.noMismatch
    | execute fork rest forkTreasury forkToken hexecuting =>
      have hfork := h.counted.current hexecuting
      apply h.noMismatch.cons
      intro f forkTreasury' forkToken' forkEndTimestamp n heq s hs
      cases heq
      rw [hfork]
      exact (h.mirrored s hs).current.1

/-- A new escrow next to a new DAO, which has logged nothing about forks. -/
structure StartForks {H : Type} (d : Deployment H) (escrow : Address) (w : World H) : Prop
    extends World.StartEscrow d escrow w where
  fresh : w.Fresh
  log : ∀ e ∈ w.dao.log, e.ofForks = false

section Runs

variable {H : Type} {d : Deployment H} {escrow : Address} {w : World H} {s : Store}

theorem StartForks.told (h : StartForks d escrow w) : ForksTold (w.forkCourse escrow) := by
  have hcourse : w.forkCourse escrow = ⟨.deploy, w.dao.log, []⟩ := by
    simp only [World.forkCourse, h.deployed, h.frames]
    rfl
  rw [hcourse]
  have hnothing : ∀ s, EventsIndexed [] s → ForksMirrored .deploy [] s := by
    intro s hs
    have hsame := hs.nil.sameForks
    refine ForksMirrored.congr ?_ hsame
    refine ⟨?_, fun _ _ => rfl, ⟨rfl, rfl⟩, fun _ _ => rfl, ?_⟩
    · intro f fork hload
      cases hload
    · intro f hf
      exact absurd hf (Nat.not_lt_zero f)
  have hexact : NoMismatch [] := by
    intro later f forkTreasury forkToken forkEndTimestamp n earlier heq
    exact absurd (congrArg List.length heq) (by simp)
  have hlog : w.dao.log = w.dao.log ++ [] := (List.append_nil _).symm
  refine ⟨⟨?_, ?_, .inl rfl⟩, ?_, ?_⟩
  · intro f forkTreasury forkToken forkEndTimestamp n hmem
    cases h.log _ hmem
  · intro f _
    show joined f w.dao.log = 0
    rw [hlog, joined_append h.log]
    rfl
  · show ∀ s, EventsIndexed w.dao.log s → ForksMirrored .deploy w.dao.log s
    rw [hlog]
    exact mirrored_append h.log hnothing
  · show NoMismatch w.dao.log
    rw [hlog]
    exact hexact.append h.log

variable [DecidableEq H]

theorem forksTold_of_reachable (hd : d.Apart escrow)
    (hr : Reachable (StartForks d escrow)
      (World.NextEscrow d escrow World.SparesExecution) w) :
    ForksTold (w.forkCourse escrow) ∧ World.JoinsSited escrow w.frames := by
  refine hr.invariant (P := fun w => ForksTold (w.forkCourse escrow) ∧
    World.JoinsSited escrow w.frames) ?_ ?_
  · intro w hw
    refine ⟨hw.told, ?_⟩
    intro f hf
    rw [hw.frames] at hf
    exact absurd hf List.not_mem_nil
  · intro w w' hr hw hn
    have hescrow : Reachable (World.StartEscrow d escrow)
        (World.NextEscrow d escrow World.SparesExecution) w :=
      hr.mono (fun _ h => h.toStartEscrow) (fun _ _ h => h)
    have hfresh : Reachable World.Fresh (World.NextAny d) w := by
      refine hr.mono (fun _ h => h.fresh) ?_
      rintro w w' ⟨hnext, -⟩
      cases hnext with
      | step a _ hstep => exact .step a trivial hstep
      | outside hout => exact .outside hout
    have hslot : w.dao.proposals (w.dao.proposalCount + 1) = Nouns.Proposal.empty :=
      (World.wf_of_fresh hfresh).fresh _ (Nat.lt_succ_self _)
    have hforks := hn.forks (World.safe_of_reachable hd hescrow) hw.2 hslot
    have hcount := (World.recorded_of_reachable hd hescrow).records.count
    exact ⟨hw.1.step hcount hforks.step, hforks.joins hw.2⟩

/-- As long as nobody touches the escrow while a fork is executed, the index mirrors the escrow, and
every execution was logged with the number of Nouns that the index had counted. -/
theorem forks_mirrored (hd : d.Apart escrow)
    (hr : Reachable (StartForks d escrow)
      (World.NextEscrow d escrow World.SparesExecution) w) (hs : EventsIndexed w.dao.log s) :
    ForksMirrored (w.escrows escrow) w.dao.log s ∧ NoMismatch w.dao.log ∧
      ∀ f forkTreasury forkToken forkEndTimestamp (n : Nat),
        .ExecuteFork f forkTreasury forkToken forkEndTimestamp n ∈ w.dao.log →
          f < (w.escrows escrow).forkId ∧ (recordedFor (w.escrows escrow) f).encard = n := by
  have htold := (forksTold_of_reachable hd hr).1
  exact ⟨htold.mirrored s hs, htold.noMismatch, htold.counted.closed⟩

theorem sample_startForks : StartForks .sample 104 (World.sample : World Preimage) :=
  ⟨World.sample_startEscrow, World.sample_fresh, fun _ he => absurd he List.not_mem_nil⟩

/-- 7 escrows Noun 1 and takes it back, escrows it again and executes the fork, which 8 joins with
Noun 0. -/
theorem forks_mirrored_of_join :
    ∃ w s, Reachable (StartForks .sample 104)
        (World.NextEscrow .sample 104 World.SparesExecution) w ∧
      EventsIndexed w.dao.log s ∧ ForksMirrored (w.escrows 104) w.dao.log s ∧
      (w.escrows 104).forkId = 1 ∧ joined 0 w.dao.log = 1 ∧
      s.escrowedNouns.load (0, 1) = some ⟨0, 1, 7⟩ := by
  have hrun : Yields (World.sample.run .sample
      (fun w a w' => w'.EscrowFixed .sample 104 ∧ w.SparesExecution a)
      [.callToken .minter .mint, .callToken .minter (.setApprovalForAll 100 true),
        .callToken .noundersDAO (.setApprovalForAll 100 true),
        .ofDAO .minter (.escrowToFork [1] [] ""), .ofDAO .minter (.withdrawFromForkEscrow [1]),
        .ofDAO .minter (.escrowToFork [1] [] ""), .ofDAO .minter .executeFork, .return_ 200 201,
        .return_ 0 0, .ofDAO .noundersDAO (.joinFork [0] [] ""), .return_ 0 0, .return_ 0 0])
      (fun w => (w.escrows 104).forkId = 1 ∧ joined 0 w.dao.log = 1 ∧
        (w.escrows 104).escrowedTokensByForkId 0 1 = 7 ∧
        (indexed (w.dao.log.map (.dao ⟨1, 1, 2⟩))).isSome = true) := by
    decide +kernel
  obtain ⟨w, hw, hforkId, hjoined, hrecord, hindexed⟩ := hrun
  obtain ⟨s, hs⟩ := Option.isSome_iff_exists.mp hindexed
  have hr : Reachable (StartForks .sample 104)
      (World.NextEscrow .sample 104 World.SparesExecution) w := by
    refine ⟨World.sample, sample_startForks, World.run_steps ?_ hw⟩
    rintro w a w' hstep ⟨hfixed, hspares⟩
    exact ⟨.step a hspares hstep, hfixed⟩
  have hlog := eventsIndexed_of_indexed hs
  have hmirrored := (forks_mirrored World.sample_apart hr hlog).1
  refine ⟨w, s, hr, hlog, hmirrored, hforkId, hjoined, ?_⟩
  rw [hmirrored.nouns, hrecord]
  rfl

end Runs

end Nouns.Subgraph
