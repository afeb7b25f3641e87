import Nouns.Subgraph.Effects

/-!
# Frames — what the events of one contract leave alone

Those of the DAO change no account, no Noun, no delegate that exists and no total of the token.  A
delegate that is created is counted: no handler of the DAO saves a copy of `Governance` that was
loaded before.  Those of the token change no proposal, no parameter of the quorum and no fork.
-/

open EntityStore EntityStore.Table

namespace Nouns.Subgraph.Store

variable {s s' s₁ : Store}

/-- The number of delegates other than the zero address. -/
noncomputable def delegateCount (s : Store) : Nat := s.delegates.count fun id _ => id ≠ 0

/-- What a change of the DAO's entities does to those of the token. -/
structure LeavesToken (s s' : Store) : Prop where
  accounts : s'.accounts = s.accounts
  nouns : s'.nouns = s.nouns
  delegate : ∀ d, s'.delegate d = s.delegate d
  kept : ∀ d, s.delegates.load d ≠ none → s'.delegates.load d ≠ none
  totalTokenHolders :
    s'.getGovernanceEntity.totalTokenHolders = s.getGovernanceEntity.totalTokenHolders
  currentTokenHolders :
    s'.getGovernanceEntity.currentTokenHolders = s.getGovernanceEntity.currentTokenHolders
  currentDelegates :
    s'.getGovernanceEntity.currentDelegates = s.getGovernanceEntity.currentDelegates
  delegatedVotesRaw :
    s'.getGovernanceEntity.delegatedVotesRaw = s.getGovernanceEntity.delegatedVotesRaw
  delegatedVotes : s'.getGovernanceEntity.delegatedVotes = s.getGovernanceEntity.delegatedVotes
  counted : s'.getGovernanceEntity.totalDelegates + s.delegateCount =
    s.getGovernanceEntity.totalDelegates + s'.delegateCount

namespace LeavesToken

theorem refl (s : Store) : LeavesToken s s :=
  ⟨rfl, rfl, fun _ => rfl, fun _ => id, rfl, rfl, rfl, rfl, rfl, rfl⟩

theorem trans (h : LeavesToken s s₁) (h' : LeavesToken s₁ s') : LeavesToken s s' where
  accounts := h'.accounts.trans h.accounts
  nouns := h'.nouns.trans h.nouns
  delegate := fun d => (h'.delegate d).trans (h.delegate d)
  kept := fun d hd => h'.kept d (h.kept d hd)
  totalTokenHolders := h'.totalTokenHolders.trans h.totalTokenHolders
  currentTokenHolders := h'.currentTokenHolders.trans h.currentTokenHolders
  currentDelegates := h'.currentDelegates.trans h.currentDelegates
  delegatedVotesRaw := h'.delegatedVotesRaw.trans h.delegatedVotesRaw
  delegatedVotes := h'.delegatedVotes.trans h.delegatedVotes
  counted := by
    have h₁ := h.counted
    have h₂ := h'.counted
    omega

/-- The tables of the token and `Governance` are not written. -/
theorem of_eq (haccounts : s'.accounts = s.accounts) (hdelegates : s'.delegates = s.delegates)
    (hnouns : s'.nouns = s.nouns) (hgovernance : s'.governance = s.governance) :
    LeavesToken s s' := by
  have hgov : s'.getGovernanceEntity = s.getGovernanceEntity := by
    rw [getGovernanceEntity, hgovernance, getGovernanceEntity]
  refine ⟨haccounts, hnouns, fun d => ?_, fun d hd => ?_, ?_, ?_, ?_, ?_, ?_, ?_⟩
  · rw [Store.delegate, hdelegates, Store.delegate]
  · rwa [hdelegates]
  · rw [hgov]
  · rw [hgov]
  · rw [hgov]
  · rw [hgov]
  · rw [hgov]
  · rw [hgov, delegateCount, delegateCount, hdelegates]

/-- The counters of the DAO in `Governance`. -/
theorem saveGovernance (s : Store) (proposals proposalsQueued switch : Int) :
    LeavesToken s (s.saveGovernance { s.getGovernanceEntity with
      proposals := proposals
      proposalsQueued := proposalsQueued
      voteSnapshotBlockSwitchProposalId := switch }) :=
  ⟨rfl, rfl, fun _ => rfl, fun _ => id, rfl, rfl, rfl, rfl, rfl, rfl⟩

end LeavesToken

/-- A delegate that is created is counted once. -/
theorem delegateCount_saveDelegate (s : Store) (id : Address) (delegate : Delegate) :
    (s.saveDelegate id delegate).delegateCount =
      s.delegateCount + if s.delegates.load id = none ∧ id ≠ 0 then 1 else 0 := by
  unfold delegateCount saveDelegate
  by_cases hid : id = 0
  · have hmem : id ∉ s.delegates.ids fun id _ => id ≠ 0 := by
      rintro ⟨_, -, hne⟩
      exact hne hid
    rw [if_neg (fun h => h.2 hid), count_save_never (not_not.mpr hid) hmem, Nat.add_zero]
  · by_cases hload : s.delegates.load id = none
    · have hmem : id ∉ s.delegates.ids fun id _ => id ≠ 0 := by
        rintro ⟨_, hsome, -⟩
        rw [hload] at hsome
        cases hsome
      rw [if_pos ⟨hload, hid⟩, count_save_new (Set.toFinite _) hid hmem]
    · obtain ⟨entity, hentity⟩ := Option.ne_none_iff_exists'.mp hload
      have hmem : id ∈ s.delegates.ids fun id _ => id ≠ 0 := ⟨entity, hentity, hid⟩
      rw [if_neg (fun h => hload h.1), count_save_kept hid hmem, Nat.add_zero]

theorem load_getOrCreateDelegate (s : Store) (id d : Address) :
    (s.getOrCreateDelegate id).1.delegates.load d =
      if d = id then some (s.delegate id) else s.delegates.load d := by
  rw [getOrCreateDelegate_eq]
  simp only [saveDelegate, countDelegate_delegates, load_save]

theorem getOrCreateDelegate_leavesToken (s : Store) (id : Address) :
    LeavesToken s (s.getOrCreateDelegate id).1 := by
  have hapart := getOrCreateDelegate_apart (s := s) id
  refine ⟨getOrCreateDelegate_accounts id, getOrCreateDelegate_nouns id,
    getOrCreateDelegate_delegate id, fun d hd => ?_, ?_, ?_, ?_, ?_, ?_, ?_⟩
  · rw [load_getOrCreateDelegate]
    split
    · exact Option.some_ne_none _
    · exact hd
  · exact (congrArg Governance.totalTokenHolders hapart :)
  · exact (congrArg Governance.currentTokenHolders hapart :)
  · exact (congrArg Governance.currentDelegates hapart :)
  · exact (congrArg Governance.delegatedVotesRaw hapart :)
  · exact (congrArg Governance.delegatedVotes hapart :)
  · have hcount := delegateCount_saveDelegate (s.countDelegate id) id (s.delegate id)
    have hsame : (s.countDelegate id).delegateCount = s.delegateCount := by
      rw [delegateCount, countDelegate_delegates, delegateCount]
    have htotal := congrArg Governance.totalDelegates (countDelegate_governance (s := s) id)
    rw [getOrCreateDelegate_eq]
    rw [countDelegate_delegates, hsame] at hcount
    change (s.countDelegate id).getGovernanceEntity.totalDelegates + _ = _
    rw [htotal, hcount]
    split <;> push_cast <;> omega

theorem getOrCreateDynamicQuorumParams_leavesToken (s : Store) (block : Option Nat) :
    LeavesToken s (s.getOrCreateDynamicQuorumParams block).1 := by
  unfold getOrCreateDynamicQuorumParams
  split
  · exact .of_eq rfl rfl rfl rfl
  · split
    · exact .of_eq rfl rfl rfl rfl
    · exact .refl s

theorem signers_leavesToken (signers : List Address) (s : Store) :
    LeavesToken s (signers.foldl (fun s signer => (s.getOrCreateDelegate signer).1) s) := by
  induction signers generalizing s with
  | nil => exact .refl s
  | cons signer signers ih =>
    exact (getOrCreateDelegate_leavesToken s signer).trans (ih _)

theorem handleProposalCreated_leavesToken (s : Store) (parsedProposal : ParsedProposalV3) :
    LeavesToken s (s.handleProposalCreated parsedProposal) := by
  have hcounted : LeavesToken s
      (if s.proposals.load parsedProposal.id = none then s.countProposal else s) := by
    split
    · exact .saveGovernance s _ s.getGovernanceEntity.proposalsQueued
        s.getGovernanceEntity.voteSnapshotBlockSwitchProposalId
    · exact .refl s
  refine LeavesToken.trans hcounted ?_
  refine (getOrCreateDelegate_leavesToken _ parsedProposal.proposer).trans ?_
  refine (signers_leavesToken parsedProposal.signers _).trans ?_
  refine (getOrCreateDynamicQuorumParams_leavesToken _ none).trans ?_
  exact .of_eq rfl rfl rfl rfl

theorem saveProposal_leavesToken (s : Store) (proposal : Proposal) :
    LeavesToken s (s.saveProposal proposal) :=
  .of_eq rfl rfl rfl rfl

theorem handleVoteCast_leavesToken {block : Block} {voter : Address}
    {proposalId support votes : Nat} {reason : String}
    (h : s.handleVoteCast block voter proposalId support votes reason = some s') :
    LeavesToken s s' := by
  simp only [handleVoteCast, Option.bind_eq_bind, Option.bind_eq_some_iff, Option.pure_def,
    Option.some.injEq] at h
  obtain ⟨_, -, _, -, rfl⟩ := h
  have hvote : ∀ (s : Store) (vote : Vote), LeavesToken s (s.saveVote vote) :=
    fun _ _ => .of_eq rfl rfl rfl rfl
  refine LeavesToken.trans ?_ (saveProposal_leavesToken _ _)
  refine LeavesToken.trans ?_ (getOrCreateDynamicQuorumParams_leavesToken _ none)
  exact (getOrCreateDelegate_leavesToken s voter).trans (hvote _ _)

/-- A handler that changes one proposal. -/
theorem leavesToken_of_load {id : Nat} {f : Proposal → Store}
    (hf : ∀ proposal, LeavesToken s (f proposal))
    (h : (s.proposals.load id).bind (fun proposal => some (f proposal)) = some s') :
    LeavesToken s s' := by
  obtain ⟨proposal, -, h⟩ := Option.bind_eq_some_iff.mp h
  rw [← Option.some.inj h]
  exact hf proposal

theorem forEach_leavesToken {α : Type} {f : Store → α → Store} (hf : ∀ s a, LeavesToken s (f s a))
    (l : List α) (s : Store) : LeavesToken s (l.foldl f s) := by
  induction l generalizing s with
  | nil => exact .refl s
  | cons a l ih => exact (hf s a).trans (ih _)

theorem handleDAOEvent_leavesToken {block : Block} {e : DAOEvent}
    (h : s.handleDAOEvent block e = some s') : LeavesToken s s' := by
  cases e with
  | ProposalCreatedWithRequirements id proposer signers txs startBlock endBlock
      updatePeriodEndBlock proposalThreshold quorumVotes description =>
    rw [← Option.some.inj h]
    exact handleProposalCreated_leavesToken s _
  | VoteCast voter proposalId support votes reason => exact handleVoteCast_leavesToken h
  | ProposalQueued id eta =>
    refine leavesToken_of_load (fun proposal => ?_) h
    exact (saveProposal_leavesToken s _).trans (.saveGovernance _ s.getGovernanceEntity.proposals _
      s.getGovernanceEntity.voteSnapshotBlockSwitchProposalId)
  | ProposalExecuted id =>
    refine leavesToken_of_load (fun proposal => ?_) h
    exact (saveProposal_leavesToken s _).trans (.saveGovernance _ s.getGovernanceEntity.proposals _
      s.getGovernanceEntity.voteSnapshotBlockSwitchProposalId)
  | ProposalCreatedOnTimelockV1 id | ProposalUpdated id | ProposalTransactionsUpdated id
  | ProposalDescriptionUpdated id | ProposalCanceled id | ProposalVetoed id
  | ProposalObjectionPeriodSet id =>
    refine leavesToken_of_load (fun proposal => ?_) h
    exact saveProposal_leavesToken s _
  | MinQuorumVotesBPSSet | MaxQuorumVotesBPSSet | QuorumCoefficientSet =>
    rw [← Option.some.inj h]
    exact (getOrCreateDynamicQuorumParams_leavesToken s _).trans (.of_eq rfl rfl rfl rfl)
  | EscrowedToFork forkId owner tokenIds =>
    rw [← Option.some.inj h]
    refine (getOrCreateDelegate_leavesToken s owner).trans
      ((forEach_leavesToken (fun _ _ => ?_) tokenIds _).trans (.of_eq rfl rfl rfl rfl))
    exact .of_eq rfl rfl rfl rfl
  | WithdrawFromForkEscrow forkId owner tokenIds =>
    rw [← Option.some.inj h]
    refine (getOrCreateDelegate_leavesToken s owner).trans
      ((forEach_leavesToken (fun _ _ => ?_) tokenIds _).trans (.of_eq rfl rfl rfl rfl))
    exact .of_eq rfl rfl rfl rfl
  | JoinFork forkId owner tokenIds =>
    rw [← Option.some.inj h]
    exact (getOrCreateDelegate_leavesToken s owner).trans (.of_eq rfl rfl rfl rfl)
  | VoteSnapshotBlockSwitchProposalIdSet oldValue newValue =>
    rw [← Option.some.inj h]
    exact .saveGovernance s s.getGovernanceEntity.proposals s.getGovernanceEntity.proposalsQueued _
  | _ =>
    rw [← Option.some.inj h]
    exact .of_eq rfl rfl rfl rfl

/-! ## Events of the token -/

/-- The fields of `Governance` that the DAO's handlers write, but for the number of proposals. -/
def ofDAO (governance : Governance) : Int × Int :=
  (governance.proposalsQueued, governance.voteSnapshotBlockSwitchProposalId)

/-- What a change of the token's entities does to those of the DAO. -/
structure LeavesDAO (s s' : Store) : Prop where
  proposals : s'.proposals = s.proposals
  dynamicQuorumParams : s'.dynamicQuorumParams = s.dynamicQuorumParams
  forks : s'.forks = s.forks
  escrowedNouns : s'.escrowedNouns = s.escrowedNouns
  governance : ofDAO s'.getGovernanceEntity = ofDAO s.getGovernanceEntity

namespace LeavesDAO

theorem refl (s : Store) : LeavesDAO s s := ⟨rfl, rfl, rfl, rfl, rfl⟩

theorem trans (h : LeavesDAO s s₁) (h' : LeavesDAO s₁ s') : LeavesDAO s s' where
  proposals := h'.proposals.trans h.proposals
  dynamicQuorumParams := h'.dynamicQuorumParams.trans h.dynamicQuorumParams
  forks := h'.forks.trans h.forks
  escrowedNouns := h'.escrowedNouns.trans h.escrowedNouns
  governance := h'.governance.trans h.governance

theorem proposalsQueued (h : LeavesDAO s s') :
    s'.getGovernanceEntity.proposalsQueued = s.getGovernanceEntity.proposalsQueued :=
  congrArg Prod.fst h.governance

theorem switch (h : LeavesDAO s s') :
    s'.getGovernanceEntity.voteSnapshotBlockSwitchProposalId =
      s.getGovernanceEntity.voteSnapshotBlockSwitchProposalId :=
  congrArg Prod.snd h.governance

theorem saveAccount (s : Store) (id : Address) (account : Account) :
    LeavesDAO s (s.saveAccount id account) := ⟨rfl, rfl, rfl, rfl, rfl⟩

theorem saveDelegate (s : Store) (id : Address) (delegate : Delegate) :
    LeavesDAO s (s.saveDelegate id delegate) := ⟨rfl, rfl, rfl, rfl, rfl⟩

theorem saveNoun (s : Store) (id : Nat) (noun : Noun) : LeavesDAO s (s.saveNoun id noun) :=
  ⟨rfl, rfl, rfl, rfl, rfl⟩

theorem saveGovernance {governance : Governance}
    (h : ofDAO governance = ofDAO s.getGovernanceEntity) :
    LeavesDAO s (s.saveGovernance governance) := ⟨rfl, rfl, rfl, rfl, h⟩

end LeavesDAO

theorem getOrCreateAccount_leavesDAO (s : Store) (id : Address) :
    LeavesDAO s (s.getOrCreateAccount id).1 := by
  rw [getOrCreateAccount_eq]
  exact .saveAccount s id _

theorem getOrCreateDelegate_leavesDAO (s : Store) (id : Address) :
    LeavesDAO s (s.getOrCreateDelegate id).1 := by
  rw [getOrCreateDelegate_eq]
  refine LeavesDAO.trans ?_ (.saveDelegate _ id _)
  unfold countDelegate
  split
  · exact .saveGovernance rfl
  · exact .refl s

theorem updateDelegate_leavesDAO (s : Store) (id : Address) (delegate : Delegate) :
    LeavesDAO s ((s.getOrCreateDelegate id).1.saveDelegate id delegate) :=
  (getOrCreateDelegate_leavesDAO s id).trans (.saveDelegate _ id delegate)

/-- The copy of `Governance` is one of before or after the delegate was created. -/
theorem countHolder_leavesDAO {governance : Governance} (hs : LeavesDAO s₁ s)
    (h : ofDAO governance = ofDAO s₁.getGovernanceEntity) (previousBalance balance : Int) :
    LeavesDAO s₁ (s.countHolder governance previousBalance balance).1 ∧
      ofDAO (s.countHolder governance previousBalance balance).2 =
        ofDAO s₁.getGovernanceEntity := by
  have hgov := h.trans hs.governance.symm
  unfold countHolder
  split_ifs
  · exact ⟨hs.trans (.saveGovernance hgov), h⟩
  · exact ⟨hs.trans (.saveGovernance hgov), h⟩
  · exact ⟨hs, h⟩

theorem debitHolder_leavesDAO {governance : Governance}
    (h : ofDAO governance = ofDAO s.getGovernanceEntity) (from_ : Address) (fromHolder : Account)
    (nounId : Nat) :
    LeavesDAO s (s.debitHolder governance from_ fromHolder nounId).1 ∧
      ofDAO (s.debitHolder governance from_ fromHolder nounId).2 =
        ofDAO s.getGovernanceEntity := by
  unfold debitHolder
  by_cases hzero : from_ = 0
  · rw [if_pos hzero]
    exact ⟨.saveGovernance h, h⟩
  · rw [if_neg hzero]
    have hcounted : ∀ {s₂ : Store} (previousBalance balance : Int) (account : Account),
        LeavesDAO s s₂ →
        LeavesDAO s ((s₂.countHolder governance previousBalance balance).1.saveAccount from_ account) ∧
          ofDAO (s₂.countHolder governance previousBalance balance).2 =
            ofDAO s.getGovernanceEntity := by
      intro s₂ previousBalance balance account hs₂
      obtain ⟨hleaves, hgov⟩ := countHolder_leavesDAO hs₂ h previousBalance balance
      exact ⟨hleaves.trans (.saveAccount _ from_ account), hgov⟩
    cases fromHolder.delegate with
    | none => exact hcounted _ _ _ (.refl s)
    | some delegate => exact hcounted _ _ _ (updateDelegate_leavesDAO s delegate _)

theorem creditHolder_leavesDAO {governance : Governance}
    (h : ofDAO governance = ofDAO s.getGovernanceEntity) (to_ : Address) (toHolder : Account)
    (nounId : Nat) : LeavesDAO s (s.creditHolder governance to_ toHolder nounId) := by
  have hburned : ofDAO (if to_ = 0 then
      { governance with totalTokenHolders := governance.totalTokenHolders - 1 } else governance) =
      ofDAO s.getGovernanceEntity := by
    split <;> exact h
  have hsaved : LeavesDAO s (if to_ = 0 then s.saveGovernance (if to_ = 0 then
      { governance with totalTokenHolders := governance.totalTokenHolders - 1 } else governance)
      else s) := by
    split
    · exact .saveGovernance h
    · exact .refl s
  unfold creditHolder
  dsimp only
  refine LeavesDAO.trans ?_ (.saveAccount _ to_ _)
  refine LeavesDAO.trans ?_ (.saveNoun _ nounId _)
  exact (countHolder_leavesDAO (hsaved.trans (updateDelegate_leavesDAO _ _ _)) hburned _ _).1

theorem handleTokenEvent_leavesDAO (s : Store) (e : TokenEvent) :
    LeavesDAO s (s.handleTokenEvent e) := by
  cases e with
  | Transfer from_ to_ tokenId =>
    have hholders := (getOrCreateAccount_leavesDAO s from_).trans
      (getOrCreateAccount_leavesDAO _ to_)
    obtain ⟨hdebited, hgov⟩ := debitHolder_leavesDAO rfl from_ (s.getOrCreateAccount from_).2 tokenId
    exact hholders.trans (hdebited.trans
      (creditHolder_leavesDAO (hgov.trans hdebited.governance.symm) to_ _ tokenId))
  | DelegateChanged delegator fromDelegate toDelegate =>
    have hcreated := (getOrCreateAccount_leavesDAO s delegator).trans
      ((getOrCreateDelegate_leavesDAO _ fromDelegate).trans
        (getOrCreateDelegate_leavesDAO _ toDelegate))
    exact hcreated.trans ((LeavesDAO.saveAccount _ delegator _).trans
      ((LeavesDAO.saveDelegate _ fromDelegate _).trans (.saveDelegate _ toDelegate _)))
  | DelegateVotesChanged delegate previousBalance newBalance =>
    have hdelegate := updateDelegate_leavesDAO s delegate
      { (s.getOrCreateDelegate delegate).2 with
        delegatedVotesRaw := newBalance
        delegatedVotes := newBalance }
    refine hdelegate.trans (.saveGovernance (Eq.trans ?_ hdelegate.governance.symm))
    split <;> split <;> rfl
  | _ => exact .refl s

end Nouns.Subgraph.Store

namespace Nouns.Subgraph

/-! ## Indexing the DAO -/

/-- The events of the third version of the DAO among these, with their blocks. -/
def daoBlockEvents (events : List Event) : List (Block × DAOEvent) :=
  events.filterMap fun
    | .dao block e => some (block, e)
    | _ => none

/-- The event is one of the first two versions of the DAO only. -/
def Event.isV1 : Event → Bool
  | .proposalCreatedV1 .. => true
  | _ => false

/-- The store after these events of the DAO, with events of the token in between. -/
def DAOIndexed (log : List (Block × DAOEvent)) (s : Store) : Prop :=
  ∃ events, (∀ e ∈ events, e.isV1 = false) ∧ daoBlockEvents events = log ∧ indexed events = some s

namespace DAOIndexed

open Store

variable {log : List (Block × DAOEvent)} {s : Store}

/-- Before the first event of the DAO. -/
theorem nil (h : DAOIndexed [] s) : LeavesDAO Store.empty s := by
  obtain ⟨events, hv1, hlog, hs⟩ := h
  induction events generalizing s with
  | nil =>
    rw [← Option.some.inj hs]
    exact .refl _
  | cons event events ih =>
    simp only [indexed, Option.bind_eq_bind, Option.bind_eq_some_iff] at hs
    obtain ⟨s₀, hs₀, hs⟩ := hs
    cases event with
    | token e =>
      rw [← Option.some.inj hs]
      exact (ih (fun e he => hv1 e (List.mem_cons_of_mem _ he)) hlog hs₀).trans
        (handleTokenEvent_leavesDAO s₀ e)
    | dao block e => exact absurd hlog (List.cons_ne_nil _ _)
    | proposalCreatedV1 => exact absurd (hv1 _ List.mem_cons_self) Bool.true_eq_false.mp

/-- The latest event of the DAO, and the store before it. -/
theorem cons {entry : Block × DAOEvent} (h : DAOIndexed (entry :: log) s) :
    ∃ s₀ s₁, DAOIndexed log s₀ ∧ s₀.handleDAOEvent entry.1 entry.2 = some s₁ ∧ LeavesDAO s₁ s := by
  obtain ⟨events, hv1, hlog, hs⟩ := h
  induction events generalizing s with
  | nil => exact absurd hlog.symm (List.cons_ne_nil _ _)
  | cons event events ih =>
    have hv1' : ∀ e ∈ events, e.isV1 = false := fun e he => hv1 e (List.mem_cons_of_mem _ he)
    simp only [indexed, Option.bind_eq_bind, Option.bind_eq_some_iff] at hs
    obtain ⟨s₀, hs₀, hs⟩ := hs
    cases event with
    | token e =>
      obtain ⟨s₁, s₂, hindexed, hhandle, hleaves⟩ := ih hv1' hlog hs₀
      rw [← Option.some.inj hs]
      exact ⟨s₁, s₂, hindexed, hhandle, hleaves.trans (handleTokenEvent_leavesDAO s₀ e)⟩
    | dao block e =>
      obtain ⟨rfl, hrest⟩ := List.cons.inj hlog
      exact ⟨s₀, s, ⟨events, hv1', hrest, hs₀⟩, hs, .refl s⟩
    | proposalCreatedV1 => exact absurd (hv1 _ List.mem_cons_self) Bool.true_eq_false.mp

end DAOIndexed

/-- The store after these events of the DAO, in whatever blocks. -/
def EventsIndexed (log : List DAOEvent) (s : Store) : Prop :=
  ∃ blocks : List (Block × DAOEvent), blocks.map Prod.snd = log ∧ DAOIndexed blocks s

namespace EventsIndexed

open Store

variable {log : List DAOEvent} {s : Store}

theorem nil (h : EventsIndexed [] s) : LeavesDAO Store.empty s := by
  obtain ⟨blocks, hblocks, hs⟩ := h
  rw [List.map_eq_nil_iff.mp hblocks] at hs
  exact hs.nil

theorem cons {e : DAOEvent} (h : EventsIndexed (e :: log) s) :
    ∃ block s₀ s₁, EventsIndexed log s₀ ∧ s₀.handleDAOEvent block e = some s₁ ∧ LeavesDAO s₁ s := by
  obtain ⟨blocks, hblocks, hs⟩ := h
  obtain ⟨entry, rest, rfl, rfl, rfl⟩ := List.map_eq_cons_iff.mp hblocks
  obtain ⟨s₀, s₁, hindexed, hhandle, hleaves⟩ := hs.cons
  exact ⟨entry.1, s₀, s₁, ⟨rest, rfl, hindexed⟩, hhandle, hleaves⟩

end EventsIndexed

end Nouns.Subgraph
