import Nouns.Governance.Backers
import Nouns.Subgraph.Proposals

/-!
# Backers — the proposer and the signers of an indexed proposal

The creation of a proposal logs who backs it, and nothing changes that afterwards, neither on the chain
nor in the index.
-/

open EntityStore EntityStore.Table Fallible Relation Transition

namespace Nouns.Subgraph

variable {H : Type}

/-- The proposal that the event creates, with its proposer and its signers. -/
def backers? : DAOEvent → Option (Nat × Address × List Address)
  | .ProposalCreatedWithRequirements id proposer signers .. => some (id, proposer, signers)
  | _ => none

/-! ## The index -/

namespace Store

variable {s s' : Store} {block : Block}

/-- At most one entity was replaced, by one of the same proposal with the same backers. -/
def KeepsBackers (s s' : Store) : Prop :=
  s'.proposals = s.proposals ∨
    ∃ id p p', s.proposals.load id = some p ∧ s'.proposals = s.proposals.save p'.id p' ∧
      p'.id = p.id ∧ p'.proposer = p.proposer ∧ p'.signers = p.signers

theorem keepsBackers_of_load {id : Nat} {f : Proposal → Proposal}
    (h : (s.proposals.load id).bind (fun p => some (s.saveProposal (f p))) = some s')
    (hf : ∀ p, (f p).id = p.id ∧ (f p).proposer = p.proposer ∧ (f p).signers = p.signers) :
    KeepsBackers s s' := by
  obtain ⟨p, hload, hsaves⟩ := saves_of_load h
  exact .inr ⟨id, p, f p, hload, hsaves.proposals, hf p⟩

theorem handleVoteCast_keepsBackers {voter : Address} {proposalId support votes : Nat}
    {reason : String} (h : s.handleVoteCast block voter proposalId support votes reason = some s') :
    KeepsBackers s s' := by
  obtain ⟨p, quorumVotes, hload, -, hsaves⟩ := handleVoteCast_saves h
  refine .inr ⟨proposalId, p, _, hload, hsaves.proposals, ?_⟩
  unfold voted countVotes
  split <;> exact ⟨rfl, rfl, rfl⟩

/-- Every handler but that of creation. -/
theorem handleDAOEvent_keepsBackers {e : DAOEvent} (he : backers? e = none)
    (h : s.handleDAOEvent block e = some s') : KeepsBackers s s' := by
  cases e with
  | ProposalCreatedWithRequirements => exact absurd he (Option.some_ne_none _)
  | ProposalCreatedOnTimelockV1 | ProposalUpdated | ProposalTransactionsUpdated
  | ProposalDescriptionUpdated | ProposalCanceled | ProposalVetoed | ProposalObjectionPeriodSet =>
    exact keepsBackers_of_load h fun _ => ⟨rfl, rfl, rfl⟩
  | ProposalQueued id eta =>
    obtain ⟨p, hload, hsaves⟩ := saves_of_load_queued 1 h rfl
    exact .inr ⟨id, p, _, hload, hsaves.proposals, rfl, rfl, rfl⟩
  | ProposalExecuted id =>
    obtain ⟨p, hload, hsaves⟩ := saves_of_load_queued (-1) h (Int.sub_eq_add_neg)
    exact .inr ⟨id, p, _, hload, hsaves.proposals, rfl, rfl, rfl⟩
  | VoteCast => exact handleVoteCast_keepsBackers h
  | ProposalCreated =>
    rw [← Option.some.inj h]
    exact .inl rfl
  | _ => exact .inl (handleDAOEvent_sameProposals rfl h).proposals

theorem handleProposalCreated_backers (s : Store) (parsedProposal : ParsedProposalV3) :
    ∃ p, (s.handleProposalCreated parsedProposal).proposals = s.proposals.save p.id p ∧
      p.id = parsedProposal.id ∧ p.proposer = parsedProposal.proposer ∧
      p.signers = parsedProposal.signers := by
  dsimp only [handleProposalCreated]
  generalize hcounted : (if s.proposals.load parsedProposal.id = none then s.countProposal else s) =
    counted
  have hsame : SameProposals s counted := by
    rw [← hcounted]
    split <;> exact ⟨rfl, rfl⟩
  have hbefore := beforeProposal_leavesDAO counted parsedProposal.proposer parsedProposal.signers
  refine ⟨_, (SameProposals.saves ?_ (saves_saveProposal _ _)).proposals, rfl, rfl, rfl⟩
  exact (hsame.trans hbefore.sameProposals).trans
    (getOrCreateDynamicQuorumParams_sameProposals _ none)

end Store

/-- Every entity is that of a proposal whose creation was logged with these backers. -/
def BackersTold (log : List DAOEvent) (s : Store) : Prop :=
  ∀ id p, s.proposals.load id = some p →
    p.id = id ∧ ∃ e ∈ log, backers? e = some (id, p.proposer, p.signers)

section Index

open Store

variable {log : List DAOEvent} {s s' : Store} {block : Block}

theorem BackersTold.congr (h : BackersTold log s) (hs : s'.proposals = s.proposals) :
    BackersTold log s' := by
  unfold BackersTold
  rw [hs]
  exact h

theorem BackersTold.handle {e : DAOEvent} (h : BackersTold log s)
    (hhandle : s.handleDAOEvent block e = some s') : BackersTold (e :: log) s' := by
  have hlater : ∀ id p, s.proposals.load id = some p →
      p.id = id ∧ ∃ e' ∈ e :: log, backers? e' = some (id, p.proposer, p.signers) := by
    intro id p hload
    obtain ⟨hid, e', he', hbackers⟩ := h id p hload
    exact ⟨hid, e', List.mem_cons_of_mem e he', hbackers⟩
  intro id p hload
  cases hbackers : backers? e with
  | none =>
    rcases handleDAOEvent_keepsBackers hbackers hhandle with
      hsame | ⟨id', p₀, p', hload₀, hsave, hid', hproposer, hsigners⟩
    · exact hlater id p (hsame ▸ hload)
    · rw [hsave, load_save] at hload
      split at hload
      · rename_i heq
        -- The entity that was replaced has the same id.
        obtain ⟨hid₀, hlogged⟩ := hlater id' p₀ hload₀
        rw [← Option.some.inj hload, hproposer, hsigners]
        have hsame : id = id' := by rw [heq, hid', hid₀]
        exact ⟨heq.symm, hsame ▸ hlogged⟩
      · exact hlater id p hload
  | some backers =>
    cases e with
    | ProposalCreatedWithRequirements id' proposer signers txs startBlock endBlock
        updatePeriodEndBlock proposalThreshold quorumVotes description =>
      obtain ⟨p', hsave, hid', hproposer, hsigners⟩ := handleProposalCreated_backers s
        (.fromV3Event block id' proposer signers txs startBlock endBlock updatePeriodEndBlock
          proposalThreshold quorumVotes)
      rw [← Option.some.inj hhandle, hsave, load_save] at hload
      split at hload
      · rename_i heq
        rw [← Option.some.inj hload, hproposer, hsigners]
        refine ⟨heq.symm, _, List.mem_cons_self, ?_⟩
        rw [heq, hid']
        rfl
      · exact hlater id p hload
    | _ => exact absurd hbackers.symm (Option.some_ne_none _)

theorem EventsIndexed.backersTold (h : EventsIndexed log s) : BackersTold log s := by
  induction log generalizing s with
  | nil =>
    intro id p hload
    rw [h.nil.proposals] at hload
    exact absurd hload.symm (Option.some_ne_none p)
  | cons e log ih =>
    obtain ⟨block, s₀, s₁, hindexed, hhandle, hleaves⟩ := h.cons
    exact ((ih hindexed).handle hhandle).congr hleaves.proposals

end Index

/-! ## The chain -/

/-- The proposals that the log creates exist, with these backers. -/
def LogsBackers (ds : StorageV3 H) : Prop :=
  ∀ e ∈ ds.log, ∀ id proposer signers, backers? e = some (id, proposer, signers) →
    id ≤ ds.proposalCount ∧ (ds.proposals id).proposer = proposer ∧
      (ds.proposals id).signers = signers

structure SameBackers (p p' : Nouns.Proposal) : Prop where
  proposer : p'.proposer = p.proposer
  signers : p'.signers = p.signers

theorem SameBackers.refl (p : Nouns.Proposal) : SameBackers p p := ⟨rfl, rfl⟩

namespace LogsBackers

variable {ds ds' : StorageV3 H}

/-- No event creates a proposal. -/
theorem of_same (h : LogsBackers ds) {events : List DAOEvent} (hlog : ds'.log = events ++ ds.log)
    (hevents : ∀ e ∈ events, backers? e = none) (hcount : ds'.proposalCount = ds.proposalCount)
    (hsame : ∀ id, SameBackers (ds.proposals id) (ds'.proposals id)) : LogsBackers ds' := by
  intro e he id proposer signers hbackers
  rw [hlog] at he
  rcases List.mem_append.mp he with he | he
  · rw [hevents e he] at hbackers
    exact absurd hbackers.symm (Option.some_ne_none _)
  · obtain ⟨hle, hproposer, hsigners⟩ := h e he id proposer signers hbackers
    rw [hcount, (hsame id).proposer, (hsame id).signers]
    exact ⟨hle, hproposer, hsigners⟩

theorem of_logged (h : LogsBackers ds) {id : Nat} {p : Nouns.Proposal} {events : List DAOEvent}
    (hlogged : ds.Logged ds' (Function.update ds.proposals id p) ds.proposalCount events)
    (hp : SameBackers (ds.proposals id) p) (hevents : ∀ e ∈ events, backers? e = none) :
    LogsBackers ds' := by
  refine h.of_same hlogged.log hevents hlogged.proposalCount ?_
  rw [hlogged.proposals]
  exact update_related SameBackers.refl hp

theorem create (h : LogsBackers ds) {p : Nouns.Proposal} {minQuorumVotes : Nat} {description : String}
    (hid : p.id = ds.proposalCount + 1)
    (hlogged : ds.Logged ds' (Function.update ds.proposals (ds.proposalCount + 1) p)
      (ds.proposalCount + 1) (StorageV3.creationEvents p minQuorumVotes description)) :
    LogsBackers ds' := by
  intro e he id proposer signers hbackers
  rw [hlogged.log] at he
  rw [hlogged.proposalCount, hlogged.proposals]
  rcases List.mem_append.mp he with he | he
  · have hnew : (id, proposer, signers) = (p.id, p.proposer, p.signers) := by
      simp only [StorageV3.creationEvents, List.mem_append, List.mem_cons, List.not_mem_nil,
        or_false] at he
      rcases he with he | rfl | rfl
      · split at he
        · rw [List.mem_singleton.mp he] at hbackers
          exact absurd hbackers.symm (Option.some_ne_none _)
        · exact absurd he List.not_mem_nil
      · exact (Option.some.inj hbackers).symm
      · exact absurd hbackers.symm (Option.some_ne_none _)
    obtain ⟨rfl, hbacks⟩ := Prod.mk.inj hnew
    obtain ⟨rfl, rfl⟩ := Prod.mk.inj hbacks
    rw [hid, Function.update_self]
    exact ⟨le_rfl, rfl, rfl⟩
  · obtain ⟨hle, hproposer, hsigners⟩ := h e he id proposer signers hbackers
    rw [Function.update_of_ne (by omega)]
    exact ⟨by omega, hproposer, hsigners⟩

variable {g g' : Course H}

theorem step [DecidableEq H] {env : Env H} (h : LogsBackers g.ds) (hstep : g.Step env g') :
    LogsBackers g'.ds := by
  cases hstep with
  | aside ds' haside =>
    obtain ⟨events, hevents, hlogged⟩ := haside
    refine h.of_same hlogged.log ?_ hlogged.proposalCount ?_
    · intro e he
      have hofProposals := hevents e he
      cases e <;> first | rfl | cases hofProposals
    · rw [hlogged.proposals]
      exact fun _ => .refl _
  | create ds' p minQuorumVotes description _ hslot hcreated _ _ hlogged =>
    exact h.create (created_terms hslot hcreated).1 hlogged
  | update ds' id txs e _ hevent hlogged =>
    refine h.of_logged hlogged ⟨rfl, rfl⟩ ?_
    intro e' he'
    rw [List.mem_singleton.mp he']
    cases hevent <;> rfl
  | vote ds' id voter support votes reason o objection _ hsupport hobjection hlogged =>
    refine h.of_logged hlogged ?_ ?_
    · rw [StorageV3.countVotes_eq _ hsupport]
      exact ⟨rfl, rfl⟩
    · intro e he
      rcases List.mem_cons.mp he with rfl | he
      · rfl
      · cases hobjection with
        | none => exact absurd he List.not_mem_nil
        | opened o =>
          rw [List.mem_singleton.mp he]
          rfl
  | queue ds' id eta _ _ hlogged =>
    refine h.of_logged hlogged ⟨rfl, rfl⟩ fun e he => ?_
    rw [List.mem_singleton.mp he]
    rfl
  | begin_ ds' id _ _ _ hlogged => exact h.of_logged hlogged ⟨rfl, rfl⟩ nofun
  | finish ds' id rest _ hlogged =>
    refine h.of_same hlogged.log ?_ hlogged.proposalCount ?_
    · intro e he
      rw [List.mem_singleton.mp he]
      rfl
    · rw [hlogged.proposals]
      exact fun _ => .refl _
  | cancel ds' id s _ _ _ hlogged =>
    refine h.of_logged hlogged ⟨rfl, rfl⟩ fun e he => ?_
    rw [List.mem_singleton.mp he]
    rfl
  | veto ds' id s _ _ _ hlogged =>
    refine h.of_logged hlogged ⟨rfl, rfl⟩ fun e he => ?_
    rw [List.mem_singleton.mp he]
    rfl
  | quorum ds' call params _ hstore hlog =>
    refine h.of_same hlog ?_ (by rw [hstore]) ?_
    · intro e he
      have hunproposed := quorumEvents_unproposed he
      cases e <;> first | rfl | cases hunproposed
    · rw [hstore]
      exact fun _ => .refl _
  | switch ds' _ hstore hlog =>
    have hevents : ds'.log = [DAOEvent.VoteSnapshotBlockSwitchProposalIdSet 0
        (g.ds.proposalCount + 1)] ++ g.ds.log := hlog
    refine h.of_same hevents ?_ (by rw [hstore]) ?_
    · intro e he
      rw [List.mem_singleton.mp he]
      rfl
    · rw [hstore]
      exact fun _ => .refl _

end LogsBackers

/-! ## Runs -/

section Runs

variable [DecidableEq H] {d : Deployment H} {w : World H} {s : Store}

theorem logsBackers_of_reachable (hr : Reachable Starts (World.NextAny d) w) : LogsBackers w.dao := by
  apply hr.invariant (P := fun w => LogsBackers w.dao)
  · intro w hw e he id proposer signers hbackers
    have hunproposed := hw.log e he
    cases e with
    | ProposalCreatedWithRequirements => exact absurd hunproposed (Option.some_ne_none _)
    | _ => exact absurd hbackers.symm (Option.some_ne_none _)
  · intro w w' hr h hn
    have htold := told_of_reachable hr
    exact steps_preserve (P := fun g => LogsBackers g.ds) (hn.course htold.wf htold.won) h
      fun g g' h hstep => h.step hstep

/-- An entity has the backers of its proposal. -/
theorem backers_eq (hr : Reachable Starts (World.NextAny d) w) (hs : EventsIndexed w.dao.log s)
    {id : Nat} {p : Proposal} (hload : s.proposals.load id = some p) :
    p.proposer = (w.dao.proposals id).proposer ∧ p.signers = (w.dao.proposals id).signers := by
  obtain ⟨-, e, he, hbackers⟩ := hs.backersTold id p hload
  obtain ⟨-, hproposer, hsigners⟩ :=
    logsBackers_of_reachable hr e he id p.proposer p.signers hbackers
  exact ⟨hproposer.symm, hsigners.symm⟩

end Runs

end Nouns.Subgraph
