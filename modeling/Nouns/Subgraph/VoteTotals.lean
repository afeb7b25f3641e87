import Mathlib.Algebra.BigOperators.Ring.Finset
import Nouns.Subgraph.HolderCounts

/-!
# VoteTotals — the indexed votes and the chain

An event of votes tells the votes before and after, and the two differ: the totals follow.  The copy of
`Governance` that `handleDelegateVotesChanged` saves is older than the delegate it may create, but only
the number of delegates is lost by that.
-/

open EntityStore EntityStore.Table Transition Relation GroupSums

namespace Nouns.Subgraph

open Token

namespace Store

variable {s s' s₁ : Store}

/-! ## Votes of the handlers -/

/-- The two stores agree on votes. -/
structure SameVotes (s s' : Store) : Prop where
  votes : ∀ d, (s'.delegate d).delegatedVotes = (s.delegate d).delegatedVotes
  currentDelegates :
    s'.getGovernanceEntity.currentDelegates = s.getGovernanceEntity.currentDelegates
  delegatedVotesRaw :
    s'.getGovernanceEntity.delegatedVotesRaw = s.getGovernanceEntity.delegatedVotesRaw
  delegatedVotes : s'.getGovernanceEntity.delegatedVotes = s.getGovernanceEntity.delegatedVotes

theorem SameVotes.refl (s : Store) : SameVotes s s := ⟨fun _ => rfl, rfl, rfl, rfl⟩

theorem SameVotes.symm (h : SameVotes s s') : SameVotes s' s :=
  ⟨fun d => (h.votes d).symm, h.currentDelegates.symm, h.delegatedVotesRaw.symm,
    h.delegatedVotes.symm⟩

theorem SameVotes.trans (h : SameVotes s s₁) (h' : SameVotes s₁ s') : SameVotes s s' where
  votes := fun d => (h'.votes d).trans (h.votes d)
  currentDelegates := h'.currentDelegates.trans h.currentDelegates
  delegatedVotesRaw := h'.delegatedVotesRaw.trans h.delegatedVotesRaw
  delegatedVotes := h'.delegatedVotes.trans h.delegatedVotes

theorem LeavesToken.sameVotes (h : LeavesToken s s') : SameVotes s s' where
  votes := fun d => by rw [h.delegate]
  currentDelegates := h.currentDelegates
  delegatedVotesRaw := h.delegatedVotesRaw
  delegatedVotes := h.delegatedVotes

theorem handleTransfer_sameVotes (s : Store) (from_ to_ : Address) (tokenId : Nat) :
    SameVotes s (s.handleTransfer from_ to_ tokenId) := by
  have hwithout : ∀ d, (s.withoutNoun from_ tokenId d).delegatedVotes =
      (s.delegate d).delegatedVotes := by
    intro d
    unfold withoutNoun
    split <;> rfl
  have hgovernance := handleTransfer_apart (s := s) from_ to_ tokenId
  refine ⟨fun d => ?_, (congrArg Governance.currentDelegates hgovernance :),
    (congrArg Governance.delegatedVotesRaw hgovernance :),
    (congrArg Governance.delegatedVotes hgovernance :)⟩
  rw [handleTransfer_delegate]
  split
  · exact hwithout d
  · exact hwithout d

theorem handleDelegateChanged_sameVotes (s : Store) (delegator fromDelegate toDelegate : Address) :
    SameVotes s (s.handleDelegateChanged delegator fromDelegate toDelegate) := by
  have hgovernance := handleDelegateChanged_apart (s := s) delegator fromDelegate toDelegate
  refine ⟨fun d => ?_, (congrArg Governance.currentDelegates hgovernance :),
    (congrArg Governance.delegatedVotesRaw hgovernance :),
    (congrArg Governance.delegatedVotes hgovernance :)⟩
  rw [handleDelegateChanged_delegate]
  split
  · rename_i hto
    rw [hto]
  · split
    · rename_i hfrom
      rw [hfrom]
    · rfl

theorem handleTokenEvent_sameVotes {e : TokenEvent} (he : ¬ ChangesVotes e) :
    SameVotes s (s.handleTokenEvent e) := by
  cases e with
  | Transfer from_ to_ tokenId => exact handleTransfer_sameVotes s from_ to_ tokenId
  | DelegateChanged delegator fromDelegate toDelegate =>
    exact handleDelegateChanged_sameVotes s delegator fromDelegate toDelegate
  | DelegateVotesChanged delegate previousBalance newBalance => exact absurd trivial he
  | _ => exact .refl s

theorem handleDelegateVotesChanged_votes (delegate : Address) (previousBalance newBalance : Nat)
    (d : Address) :
    ((s.handleDelegateVotesChanged delegate previousBalance newBalance).delegate d).delegatedVotes =
      if d = delegate then (newBalance : Int) else (s.delegate d).delegatedVotes := by
  simp only [handleDelegateVotesChanged, getOrCreateDelegate_eq, Store.delegate, saveGovernance,
    saveDelegate, countDelegate_delegates, save_save, get_save]
  split <;> rfl

theorem handleDelegateVotesChanged_currentDelegates (delegate : Address)
    (previousBalance newBalance : Nat) :
    (s.handleDelegateVotesChanged delegate previousBalance
        newBalance).getGovernanceEntity.currentDelegates =
      s.getGovernanceEntity.currentDelegates +
        (if previousBalance = 0 ∧ newBalance > 0 then 1 else 0) -
        if newBalance = 0 then 1 else 0 := by
  simp only [handleDelegateVotesChanged, getGovernanceEntity, saveGovernance, Option.getD_some]
  rcases Nat.eq_zero_or_pos newBalance with rfl | hpos
  · simp
  · rw [if_neg hpos.ne', if_neg hpos.ne']
    split_ifs <;> simp

theorem handleDelegateVotesChanged_delegatedVotesRaw (delegate : Address)
    (previousBalance newBalance : Nat) :
    (s.handleDelegateVotesChanged delegate previousBalance
        newBalance).getGovernanceEntity.delegatedVotesRaw =
      s.getGovernanceEntity.delegatedVotesRaw + (newBalance - previousBalance) := by
  simp only [handleDelegateVotesChanged, getGovernanceEntity, saveGovernance, Option.getD_some]
  split_ifs <;> rfl

theorem handleDelegateVotesChanged_delegatedVotes (delegate : Address)
    (previousBalance newBalance : Nat) :
    (s.handleDelegateVotesChanged delegate previousBalance
        newBalance).getGovernanceEntity.delegatedVotes =
      s.getGovernanceEntity.delegatedVotesRaw + (newBalance - previousBalance) := by
  simp only [handleDelegateVotesChanged, getGovernanceEntity, saveGovernance, Option.getD_some]
  split_ifs <;> rfl

/-! ## Other events in between -/

theorem SameVotes.handleTokenEvent (h : SameVotes s s') (e : TokenEvent) :
    SameVotes (s.handleTokenEvent e) (s'.handleTokenEvent e) := by
  by_cases he : ChangesVotes e
  · cases e with
    | DelegateVotesChanged delegate previousBalance newBalance =>
      refine ⟨fun d => ?_, ?_, ?_, ?_⟩
      · refine (handleDelegateVotesChanged_votes ..).trans ?_
        refine Eq.trans ?_ (handleDelegateVotesChanged_votes ..).symm
        rw [h.votes]
      · refine (handleDelegateVotesChanged_currentDelegates ..).trans ?_
        refine Eq.trans ?_ (handleDelegateVotesChanged_currentDelegates ..).symm
        rw [h.currentDelegates]
      · refine (handleDelegateVotesChanged_delegatedVotesRaw ..).trans ?_
        refine Eq.trans ?_ (handleDelegateVotesChanged_delegatedVotesRaw ..).symm
        rw [h.delegatedVotesRaw]
      · refine (handleDelegateVotesChanged_delegatedVotes ..).trans ?_
        refine Eq.trans ?_ (handleDelegateVotesChanged_delegatedVotes ..).symm
        rw [h.delegatedVotesRaw]
    | _ => exact he.elim
  · exact ((handleTokenEvent_sameVotes he).symm.trans h).trans (handleTokenEvent_sameVotes he)

end Store

open Store

/-- Votes depend on the events of the token alone. -/
theorem sameVotes_of_indexed {events : List Event} {s : Store} (h : indexed events = some s) :
    Store.SameVotes (tokenIndexed (tokenEvents events)) s := by
  induction events generalizing s with
  | nil =>
    rw [← Option.some.inj h]
    exact .refl _
  | cons e events ih =>
    obtain ⟨s₁, h₁, h⟩ := Option.bind_eq_some_iff.mp h
    cases e with
    | token e =>
      rw [← Option.some.inj h]
      exact (ih h₁).handleTokenEvent e
    | dao block e => exact (ih h₁).trans (handleDAOEvent_leavesToken h).sameVotes
    | proposalCreatedV1 block id proposer txs startBlock endBlock proposalThreshold quorumVotes =>
      rw [← Option.some.inj h]
      exact (ih h₁).trans (handleProposalCreated_leavesToken s₁ _).sameVotes

/-! ## Totals -/

/-- The totals and the votes of delegates are these votes. -/
structure VotesIndexed (votes : Address → Nat) (s : Store) : Prop where
  delegate : ∀ a, (s.delegate a).delegatedVotes = votes a
  total : s.getGovernanceEntity.delegatedVotesRaw = (∑ a, votes a : Nat)
  totalRaw : s.getGovernanceEntity.delegatedVotes = s.getGovernanceEntity.delegatedVotesRaw
  current : s.getGovernanceEntity.currentDelegates = positives fun a => votes a

theorem VotesIndexed.of_same {votes : Address → Nat} {s s' : Store} (h : VotesIndexed votes s)
    (hsame : Store.SameVotes s s') : VotesIndexed votes s' where
  delegate := fun a => by rw [hsame.votes a]; exact h.delegate a
  total := by rw [hsame.delegatedVotesRaw]; exact h.total
  totalRaw := by rw [hsame.delegatedVotesRaw, hsame.delegatedVotes]; exact h.totalRaw
  current := by rw [hsame.currentDelegates]; exact h.current

/-- The votes of one account change: a crossing of zero is counted once. -/
theorem VotesIndexed.write {votes : Address → Nat} {s : Store} (h : VotesIndexed votes s)
    {delegatee : Address} {newVotes : Nat} (hne : newVotes ≠ votes delegatee) :
    VotesIndexed (Function.update votes delegatee newVotes)
      (s.handleDelegateVotesChanged delegatee (votes delegatee) newVotes) := by
  refine ⟨fun a => ?_, ?_, ?_, ?_⟩
  · rw [handleDelegateVotesChanged_votes, h.delegate, Function.update_apply]
    split <;> rfl
  · have hsum := sum_update_add votes delegatee newVotes
    rw [handleDelegateVotesChanged_delegatedVotesRaw, h.total]
    omega
  · rw [handleDelegateVotesChanged_delegatedVotes, handleDelegateVotesChanged_delegatedVotesRaw]
  · have hothers : ∀ b, b ≠ delegatee →
        (Function.update votes delegatee newVotes b : Int) = (votes b : Int) :=
      fun b hb => by rw [Function.update_of_ne hb]
    have hpositives := positives_update delegatee hothers (Int.natCast_nonneg _)
      (Int.natCast_nonneg _)
    rw [handleDelegateVotesChanged_currentDelegates, h.current, hpositives, Function.update_self]
    unfold holderChange
    split_ifs <;> omega

theorem VoteStep.votesIndexed {t t' : Token} (hstep : VoteStep t t')
    (h : VotesIndexed t.getCurrentVotes (tokenIndexed t.log)) :
    VotesIndexed t'.getCurrentVotes (tokenIndexed t'.log) := by
  cases hstep with
  | write delegatee newVotes hne hvotes hlog =>
    rw [hvotes, hlog]
    exact h.write hne
  | silent events hcheckpoints hevents hlog =>
    have hvotes : t'.getCurrentVotes = t.getCurrentVotes := by
      funext a
      rw [getCurrentVotes, hcheckpoints, getCurrentVotes]
    rw [hvotes, hlog]
    clear hlog
    induction events with
    | nil => exact h
    | cons e events ih =>
      rw [List.forall_mem_cons] at hevents
      exact (ih hevents.2).of_same (handleTokenEvent_sameVotes hevents.1)

/-! ## Votes over whole runs -/

/-- The votes of all delegates that exist. -/
def delegatesVotes (s : Store) : Int := ∑ a, (s.delegates.load a).elim 0 (·.delegatedVotes)

/-- The accounts with votes. -/
def voters (t : Token) : Finset Address := Finset.univ.filter fun a => 0 < t.getCurrentVotes a

/-- The indexed votes and their totals are those of the token. -/
structure MirrorsVotes (s : Store) (t : Token) : Prop where
  total : s.getGovernanceEntity.delegatedVotes = delegatesVotes s
  votes : ∀ a delegate, s.delegates.load a = some delegate →
    delegate.delegatedVotes = t.getCurrentVotes a
  current : s.getGovernanceEntity.currentDelegates = (voters t).card

variable {H : Type} {c : Crypto H} {n : Clocked NounsToken}
  {admits : NounsToken → NounsTokenCall → Prop}

theorem votesIndexed_of_reachable (h : Reachable NounsToken.Deployed (NounsToken.Next c admits) n) :
    VotesIndexed n.token.getCurrentVotes (tokenIndexed n.token.log) := by
  refine NounsToken.votes_invariant
    (P := fun t => VotesIndexed t.getCurrentVotes (tokenIndexed t.log)) h ?_
    (fun t t' ht hstep => VoteStep.votesIndexed hstep ht)
  have hnone : ∀ a, Token.empty.getCurrentVotes a = 0 := fun a => rfl
  refine ⟨fun a => rfl, ?_, rfl, ?_⟩
  · simp only [hnone, Finset.sum_const_zero]
    rfl
  · simp only [positives, hnone]
    simp only [Nat.cast_zero, lt_self_iff_false, if_false, Finset.sum_const_zero]
    rfl

/-- In every state of a run, with any events of the DAO in between, the indexed votes are those of the
token, and their totals are right. -/
theorem votes_mirrored (h : Reachable NounsToken.Deployed (NounsToken.Next c fun _ _ => True) n)
    {events : List Event} (hevents : tokenEvents events = n.token.log) {s : Store}
    (hindexed : indexed events = some s) : MirrorsVotes s n.token.toToken := by
  have hsame := sameVotes_of_indexed hindexed
  rw [hevents] at hsame
  have hvotes := (votesIndexed_of_reachable h).of_same hsame
  refine ⟨?_, fun a delegate hload => ?_, ?_⟩
  · have hentity : ∀ a, (s.delegates.load a).elim 0 (·.delegatedVotes) =
        ((n.token.getCurrentVotes a : Nat) : Int) := by
      intro a
      rw [← hvotes.delegate a, Store.delegate, Table.get]
      cases s.delegates.load a <;> rfl
    rw [hvotes.totalRaw, hvotes.total, delegatesVotes]
    simp only [hentity, Nat.cast_sum]
  · rw [← hvotes.delegate a, Store.delegate, get_of_load hload]
  · rw [hvotes.current, voters, positives, Finset.card_filter]
    simp only [Int.natCast_pos]

/-- The minter (7) mints Nouns 0 (to the founders, 8) and 1 and delegates to 8. -/
theorem votes_mirrored_after_delegation :
    ∃ n : Clocked NounsToken,
      Reachable NounsToken.Deployed (NounsToken.Next Crypto.transparent fun _ _ => True) n ∧
      n.token.getCurrentVotes 8 = 2 ∧
      ((tokenIndexed n.token.log).getGovernanceEntity).delegatedVotes = 2 ∧
      MirrorsVotes (tokenIndexed n.token.log) n.token.toToken := by
  have h₀ : Reachable NounsToken.Deployed (NounsToken.Next Crypto.transparent fun _ _ => True)
      ⟨1, 1, NounsToken.deploy 9 8 7⟩ := .start ⟨9, 8, 7, rfl⟩
  have h₁ := h₀.step (.call (fun _ => 0) (fun _ => .ok ()) ⟨7, by decide⟩ .mint trivial rfl)
  have h₂ := h₁.step (.call (fun _ => 0) (fun _ => .ok ()) ⟨7, by decide⟩ (.delegate 8) trivial rfl)
  exact ⟨_, h₂, rfl, by decide,
    votes_mirrored h₂ (indexed_tokenEvents _).1 (indexed_tokenEvents _).2⟩

end Nouns.Subgraph
