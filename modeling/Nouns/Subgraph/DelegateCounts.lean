import Nouns.Subgraph.Holders

/-!
# DelegateCounts — the number of delegates

A delegate is counted when it is created.  Two handlers then save a copy of `Governance` that they
loaded before: that of votes always, that of transfers when the receiver becomes a holder.  The count
is lost.
-/

open EntityStore EntityStore.Table Transition

namespace Nouns.Subgraph

namespace Store

variable {s s' : Store}

/-- The delegate in an account exists. -/
def DelegatesExist (s : Store) : Prop :=
  ∀ a d, (s.account a).delegate = some d → s.delegates.load d ≠ none

/-- The handler creates a delegate and loses its count. -/
def losesDelegate (s : Store) : Event → Bool
  | .token (.DelegateVotesChanged delegate _ _) => delegate ≠ 0 ∧ s.delegates.load delegate = none
  | .token (.Transfer _ to_ _) => to_ ≠ 0 ∧ s.delegates.load to_ = none ∧
      (s.account to_).delegate = none ∧ (s.account to_).tokenBalanceRaw = 0
  | _ => false

/-- Delegates stay, and their number grew by those that were counted and `lost` that were not. -/
structure Grows (lost : Nat) (s s' : Store) : Prop where
  kept : ∀ d, s.delegates.load d ≠ none → s'.delegates.load d ≠ none
  counted : s'.getGovernanceEntity.totalDelegates + lost + s.delegateCount =
    s.getGovernanceEntity.totalDelegates + s'.delegateCount

theorem Grows.trans {s₁ : Store} {lost lost' : Nat} (h : Grows lost s s₁) (h' : Grows lost' s₁ s') :
    Grows (lost + lost') s s' := by
  refine ⟨fun d hd => h'.kept d (h.kept d hd), ?_⟩
  have hcounted := h.counted
  have hcounted' := h'.counted
  push_cast
  omega

theorem LeavesToken.grows (h : LeavesToken s s') : Grows 0 s s' := by
  have hcounted := h.counted
  exact ⟨h.kept, by omega⟩

theorem delegateCount_congr (h : s'.delegates = s.delegates) : s'.delegateCount = s.delegateCount := by
  rw [delegateCount, h, delegateCount]

theorem grows_of_eq (hdelegates : s'.delegates = s.delegates)
    (htotal : s'.getGovernanceEntity.totalDelegates = s.getGovernanceEntity.totalDelegates) :
    Grows 0 s s' := by
  refine ⟨fun d hd => by rwa [hdelegates], ?_⟩
  rw [htotal, delegateCount_congr hdelegates]
  omega

theorem grows_saveAccount (id : Address) (account : Account) : Grows 0 s (s.saveAccount id account) :=
  grows_of_eq rfl rfl

theorem load_saveDelegate_ne_none {d id : Address} (delegate : Delegate)
    (h : s.delegates.load d ≠ none) : (s.saveDelegate id delegate).delegates.load d ≠ none := by
  rw [saveDelegate, load_save]
  split
  · exact Option.some_ne_none _
  · exact h

/-- A delegate that exists is saved. -/
theorem grows_saveDelegate {id : Address} (h : s.delegates.load id ≠ none) (delegate : Delegate) :
    Grows 0 s (s.saveDelegate id delegate) := by
  refine ⟨fun d hd => load_saveDelegate_ne_none delegate hd, ?_⟩
  rw [delegateCount_saveDelegate, if_neg (fun hnew => h hnew.1)]
  change s.getGovernanceEntity.totalDelegates + _ + _ = _
  omega

theorem load_getOrCreateDelegate_self (id : Address) :
    (s.getOrCreateDelegate id).1.delegates.load id ≠ none := by
  rw [load_getOrCreateDelegate, if_pos rfl]
  exact Option.some_ne_none _

/-- Creating a delegate that exists. -/
theorem countDelegate_of_load {id : Address} (h : s.delegates.load id ≠ none) :
    s.countDelegate id = s := if_neg fun hnew => h hnew.1

/-! ## Changes of delegate -/

theorem handleDelegateChanged_grows (delegator fromDelegate toDelegate : Address) :
    Grows 0 s (s.handleDelegateChanged delegator fromDelegate toDelegate) ∧
      (s.handleDelegateChanged delegator fromDelegate toDelegate).delegates.load toDelegate ≠
        none := by
  unfold handleDelegateChanged
  rw [getOrCreateAccount_eq]
  dsimp only
  have hholder : Grows 0 s (s.saveAccount delegator (s.account delegator)) := grows_of_eq rfl rfl
  obtain ⟨s₀, hs₀⟩ : ∃ s₀, s₀ = s.saveAccount delegator (s.account delegator) := ⟨_, rfl⟩
  rw [← hs₀] at hholder ⊢
  have hprevious := (getOrCreateDelegate_leavesToken s₀ fromDelegate).grows
  have hfrom := load_getOrCreateDelegate_self (s := s₀) fromDelegate
  obtain ⟨s₁, hs₁⟩ : ∃ s₁, s₁ = (s₀.getOrCreateDelegate fromDelegate).1 := ⟨_, rfl⟩
  rw [← hs₁] at hprevious hfrom ⊢
  have hnew := (getOrCreateDelegate_leavesToken s₁ toDelegate).grows
  have hto := load_getOrCreateDelegate_self (s := s₁) toDelegate
  -- Both delegates exist by the time they are saved.
  have hcreated := (hholder.trans hprevious).trans hnew
  have hsaved : Grows 0 (s₁.getOrCreateDelegate toDelegate).1
      ((s₁.getOrCreateDelegate toDelegate).1.saveAccount delegator
        { s.account delegator with delegate := some toDelegate }) := grows_of_eq rfl rfl
  refine ⟨((hcreated.trans hsaved).trans (grows_saveDelegate ?_ _)).trans (grows_saveDelegate ?_ _), ?_⟩
  · exact hnew.kept _ hfrom
  · exact load_saveDelegate_ne_none _ hto
  · rw [saveDelegate, load_save_self]
    exact Option.some_ne_none _

/-! ## Changes of votes -/

theorem handleDelegateVotesChanged_delegates (delegate : Address) (previousBalance newBalance : Nat) :
    (s.handleDelegateVotesChanged delegate previousBalance newBalance).delegates =
      (s.saveDelegate delegate { s.delegate delegate with
        delegatedVotesRaw := newBalance
        delegatedVotes := newBalance }).delegates := by
  simp only [handleDelegateVotesChanged, getOrCreateDelegate_eq, saveGovernance, saveDelegate,
    countDelegate_delegates, save_save]

/-- The copy of `Governance` was loaded before the delegate was created. -/
theorem handleDelegateVotesChanged_totalDelegates (delegate : Address)
    (previousBalance newBalance : Nat) :
    (s.handleDelegateVotesChanged delegate previousBalance
        newBalance).getGovernanceEntity.totalDelegates =
      s.getGovernanceEntity.totalDelegates := by
  simp only [handleDelegateVotesChanged, getGovernanceEntity, saveGovernance, Option.getD_some]
  split_ifs <;> rfl

theorem handleDelegateVotesChanged_grows (delegate : Address) (previousBalance newBalance : Nat) :
    Grows (if delegate ≠ 0 ∧ s.delegates.load delegate = none then 1 else 0) s
      (s.handleDelegateVotesChanged delegate previousBalance newBalance) := by
  have hdelegates := handleDelegateVotesChanged_delegates (s := s) delegate previousBalance newBalance
  refine ⟨fun d hd => ?_, ?_⟩
  · rw [hdelegates]
    exact load_saveDelegate_ne_none _ hd
  · rw [handleDelegateVotesChanged_totalDelegates, delegateCount_congr hdelegates,
      delegateCount_saveDelegate, if_congr and_comm rfl rfl]
    push_cast
    omega

/-! ## Transfers -/

theorem countHolder_totalDelegates (governance : Governance) (previousBalance balance : Int) :
    (s.countHolder governance previousBalance balance).1.getGovernanceEntity.totalDelegates =
      if holderChange previousBalance balance = 0 then s.getGovernanceEntity.totalDelegates
      else governance.totalDelegates := by
  rw [countHolder_governance, countHolder_snd]
  split <;> rfl

theorem countHolder_grows {governance : Governance} (previousBalance balance : Int)
    (htotal : s.getGovernanceEntity.totalDelegates = governance.totalDelegates) :
    Grows 0 s (s.countHolder governance previousBalance balance).1 := by
  refine grows_of_eq (countHolder_delegates ..) ?_
  rw [countHolder_totalDelegates, htotal, ite_self]

/-- The sender's delegate exists. -/
theorem debitHolder_grows {governance : Governance} {from_ : Address} {fromHolder : Account}
    (nounId : Nat) (hexists : ∀ d, fromHolder.delegate = some d → s.delegates.load d ≠ none)
    (htotal : s.getGovernanceEntity.totalDelegates = governance.totalDelegates) :
    Grows 0 s (s.debitHolder governance from_ fromHolder nounId).1 := by
  unfold debitHolder
  split
  · exact grows_of_eq rfl htotal.symm
  · dsimp only
    cases hdelegate : fromHolder.delegate with
    | none => exact (countHolder_grows _ _ htotal).trans (grows_saveAccount _ _)
    | some d =>
      have hload := hexists d hdelegate
      simp only [getOrCreateDelegate_eq, countDelegate_of_load hload]
      have hsaved : ∀ delegate, Grows 0 s ((s.saveDelegate d (s.delegate d)).saveDelegate d delegate) :=
        fun delegate => (grows_saveDelegate hload _).trans
          (grows_saveDelegate (load_saveDelegate_ne_none _ hload) _)
      exact ((hsaved _).trans (countHolder_grows _ _ htotal)).trans (grows_saveAccount _ _)

theorem debitHolder_totalDelegates {governance : Governance} (from_ : Address) (fromHolder : Account)
    (nounId : Nat) (hexists : ∀ d, fromHolder.delegate = some d → s.delegates.load d ≠ none)
    (htotal : s.getGovernanceEntity.totalDelegates = governance.totalDelegates) :
    (s.debitHolder governance from_ fromHolder nounId).1.getGovernanceEntity.totalDelegates =
      governance.totalDelegates := by
  unfold debitHolder
  split
  · rfl
  · dsimp only
    refine (countHolder_totalDelegates ..).trans ?_
    cases hdelegate : fromHolder.delegate with
    | none =>
      change (if _ then s.getGovernanceEntity.totalDelegates else _) = _
      rw [htotal, ite_self]
    | some d =>
      simp only [getOrCreateDelegate_eq, countDelegate_of_load (hexists d hdelegate)]
      change (if _ then s.getGovernanceEntity.totalDelegates else _) = _
      rw [htotal, ite_self]

theorem load_debitedDelegates {from_ : Address} {fromHolder : Account} (nounId : Nat)
    (hexists : ∀ d, fromHolder.delegate = some d → s.delegates.load d ≠ none) (d : Address) :
    (s.debitedDelegates from_ fromHolder nounId).load d = none ↔ s.delegates.load d = none := by
  unfold debitedDelegates
  split
  · rfl
  · cases hdelegate : fromHolder.delegate with
    | none => rfl
    | some e =>
      rw [load_save]
      by_cases hd : d = e
      · rw [if_pos hd, hd]
        exact iff_of_false (Option.some_ne_none _) (hexists e hdelegate)
      · rw [if_neg hd]

theorem holderChange_credit (previousBalance : Int) :
    holderChange previousBalance (previousBalance + 1) = 0 ↔ previousBalance ≠ 0 := by
  unfold holderChange
  split_ifs <;> omega

theorem creditHolder_totalDelegates {governance : Governance} (to_ : Address) (toHolder : Account)
    (nounId : Nat) (htotal : s.getGovernanceEntity.totalDelegates = governance.totalDelegates) :
    (s.creditHolder governance to_ toHolder nounId).getGovernanceEntity.totalDelegates =
      governance.totalDelegates + if toHolder.tokenBalanceRaw ≠ 0 ∧
        s.delegates.load (toHolder.delegate.getD to_) = none ∧ toHolder.delegate.getD to_ ≠ 0
        then 1 else 0 := by
  unfold creditHolder
  dsimp only
  refine (countHolder_totalDelegates ..).trans ?_
  by_cases hraw : toHolder.tokenBalanceRaw = 0
  · -- The receiver is a new holder: the copy of `Governance` is saved.
    rw [if_neg (mt (holderChange_credit _).mp (not_not.mpr hraw))]
    simp only [hraw, ne_eq, not_true_eq_false, false_and, if_false, Int.add_zero]
    split <;> rfl
  · rw [if_pos ((holderChange_credit _).mpr hraw), getOrCreateDelegate_eq]
    refine (congrArg Governance.totalDelegates (countDelegate_governance _)).trans ?_
    by_cases hto : to_ = 0
    · simp [hto, hraw, saveGovernance, getGovernanceEntity]
    · simp [hto, hraw, htotal]

/-- A delegate that the receiver needs is counted, unless the receiver becomes a holder. -/
theorem creditHolder_grows {governance : Governance} (to_ : Address) (toHolder : Account)
    (nounId : Nat) (htotal : s.getGovernanceEntity.totalDelegates = governance.totalDelegates) :
    Grows (if toHolder.tokenBalanceRaw = 0 ∧ s.delegates.load (toHolder.delegate.getD to_) = none ∧
        toHolder.delegate.getD to_ ≠ 0 then 1 else 0) s
      (s.creditHolder governance to_ toHolder nounId) := by
  have hdelegates : (s.creditHolder governance to_ toHolder nounId).delegates =
    (s.saveDelegate (toHolder.delegate.getD to_)
      { s.delegate (toHolder.delegate.getD to_) with
        nounsRepresented := (s.delegate (toHolder.delegate.getD to_)).nounsRepresented ++
          [nounId] }).delegates := creditHolder_delegates ..
  refine ⟨fun d hd => ?_, ?_⟩
  · rw [hdelegates]
    exact load_saveDelegate_ne_none _ hd
  · rw [creditHolder_totalDelegates to_ toHolder nounId htotal, delegateCount_congr hdelegates,
      delegateCount_saveDelegate, htotal]
    by_cases hnew : s.delegates.load (toHolder.delegate.getD to_) = none ∧
        toHolder.delegate.getD to_ ≠ 0
    · by_cases hraw : toHolder.tokenBalanceRaw = 0
      · rw [if_neg (fun h => h.1 hraw), if_pos ⟨hraw, hnew⟩, if_pos hnew]
        omega
      · rw [if_pos ⟨hraw, hnew⟩, if_neg (fun h => hraw h.1), if_pos hnew]
        omega
    · rw [if_neg (fun h => hnew h.2), if_neg (fun h => hnew h.2), if_neg hnew]
      omega

theorem getOrCreateAccounts_grows (from_ to_ : Address) :
    Grows 0 s ((s.getOrCreateAccount from_).1.getOrCreateAccount to_).1 := by
  rw [getOrCreateAccount_eq, getOrCreateAccount_eq]
  exact (grows_saveAccount _ _).trans (grows_saveAccount _ _)

theorem handleTransfer_grows (hexist : s.DelegatesExist) (from_ to_ : Address) (tokenId : Nat) :
    Grows (if s.losesDelegate (.token (.Transfer from_ to_ tokenId)) then 1 else 0) s
      (s.handleTransfer from_ to_ tokenId) := by
  unfold handleTransfer
  dsimp only
  have haccounts := getOrCreateAccounts_grows (s := s) from_ to_
  simp only [getOrCreateAccount_eq, account_resave] at haccounts ⊢
  obtain ⟨s₀, hs₀⟩ : ∃ s₀, s₀ = (s.saveAccount from_ (s.account from_)).saveAccount to_
    (s.account to_) := ⟨_, rfl⟩
  have hsame : s₀.delegates = s.delegates := by rw [hs₀]; rfl
  rw [← hs₀] at haccounts ⊢
  have hexists : ∀ d, (s.account from_).delegate = some d → s₀.delegates.load d ≠ none := by
    rw [hsame]
    exact hexist from_
  have hdebited := @debitHolder_grows s₀ _ from_ _ tokenId hexists rfl
  have hload := @load_debitedDelegates s₀ from_ _ tokenId hexists
  rw [← debitHolder_delegates s₀.getGovernanceEntity] at hload
  have htotal : (s₀.debitHolder s₀.getGovernanceEntity from_ (s.account from_)
      tokenId).1.getGovernanceEntity.totalDelegates =
        (s₀.debitHolder s₀.getGovernanceEntity from_ (s.account from_) tokenId).2.totalDelegates := by
    rw [debitHolder_snd]
    exact debitHolder_totalDelegates from_ _ tokenId hexists rfl
  have hcredited := creditHolder_grows to_ (s.account to_) tokenId htotal
  rw [hsame] at hload
  simp only [hload] at hcredited
  have hlost : (if s.losesDelegate (.token (.Transfer from_ to_ tokenId)) then 1 else 0) =
      0 + 0 + if (s.account to_).tokenBalanceRaw = 0 ∧
        s.delegates.load ((s.account to_).delegate.getD to_) = none ∧
        (s.account to_).delegate.getD to_ ≠ 0 then 1 else 0 := by
    cases hdelegate : (s.account to_).delegate with
    | none => simp [losesDelegate, hdelegate, and_comm, and_assoc]
    | some d =>
      -- A delegate that was chosen exists already.
      have hne := hexist to_ d hdelegate
      simp [losesDelegate, hdelegate, hne]
  rw [hlost]
  exact (haccounts.trans hdebited).trans hcredited

/-! ## All events -/

theorem handleTokenEvent_grows (hexist : s.DelegatesExist) (e : TokenEvent) :
    Grows (if s.losesDelegate (.token e) then 1 else 0) s (s.handleTokenEvent e) := by
  cases e with
  | Transfer from_ to_ tokenId => exact handleTransfer_grows hexist from_ to_ tokenId
  | DelegateChanged delegator fromDelegate toDelegate =>
    exact (handleDelegateChanged_grows delegator fromDelegate toDelegate).1
  | DelegateVotesChanged delegate previousBalance newBalance =>
    have hgrows := handleDelegateVotesChanged_grows (s := s) delegate previousBalance newBalance
    simp only [losesDelegate, decide_eq_true_eq]
    exact hgrows
  | _ => exact grows_of_eq rfl rfl

/-- A delegate is created before it is put in an account. -/
theorem DelegatesExist.handleTokenEvent (hexist : s.DelegatesExist) (e : TokenEvent) :
    (s.handleTokenEvent e).DelegatesExist := by
  have hkept := (handleTokenEvent_grows hexist e).kept
  cases e with
  | Transfer from_ to_ tokenId =>
    intro a d hd
    have haccount := handleTransfer_account (s := s) from_ to_ tokenId a
    change ((s.handleTransfer from_ to_ tokenId).account a).delegate = some d at hd
    rw [haccount] at hd
    split at hd
    · have hdelegate : d = (s.account to_).delegate.getD to_ := by
        unfold credited at hd
        dsimp only at hd
        split at hd
        · exact (Option.some.inj hd).symm
        · rw [hd]
          rfl
      change (s.handleTransfer from_ to_ tokenId).delegates.load d ≠ none
      unfold handleTransfer
      dsimp only
      rw [creditHolder_delegates]
      simp only [getOrCreateAccount_eq, account_resave]
      rw [hdelegate, load_save_self]
      exact Option.some_ne_none _
    · split at hd
      · exact hkept d (hexist from_ d hd)
      · exact hkept d (hexist a d hd)
  | DelegateChanged delegator fromDelegate toDelegate =>
    intro a d hd
    change ((s.handleDelegateChanged delegator fromDelegate toDelegate).account a).delegate =
      some d at hd
    rw [handleDelegateChanged_account] at hd
    split at hd
    · rw [← Option.some.inj hd]
      exact (handleDelegateChanged_grows delegator fromDelegate toDelegate).2
    · exact hkept d (hexist a d hd)
  | DelegateVotesChanged delegate previousBalance newBalance =>
    intro a d hd
    have haccounts : (s.handleDelegateVotesChanged delegate previousBalance newBalance).accounts =
        s.accounts := by
      simp only [handleDelegateVotesChanged, getOrCreateDelegate_eq, saveGovernance, saveDelegate,
        countDelegate_accounts]
    refine hkept d (hexist a d ?_)
    rw [account, ← haccounts]
    exact hd
  | _ => exact hexist

theorem LeavesToken.delegatesExist (h : LeavesToken s s') (hexist : s.DelegatesExist) :
    s'.DelegatesExist := by
  intro a d hd
  refine h.kept d (hexist a d ?_)
  rw [account, ← h.accounts]
  exact hd

theorem handle_grows (hexist : s.DelegatesExist) {e : Event} (h : s.handle e = some s') :
    Grows (if s.losesDelegate e then 1 else 0) s s' ∧ s'.DelegatesExist := by
  cases e with
  | token e =>
    rw [← Option.some.inj h]
    exact ⟨handleTokenEvent_grows hexist e, hexist.handleTokenEvent e⟩
  | dao block e =>
    have hleaves := handleDAOEvent_leavesToken h
    exact ⟨hleaves.grows, hleaves.delegatesExist hexist⟩
  | proposalCreatedV1 block id proposer txs startBlock endBlock proposalThreshold quorumVotes =>
    rw [← Option.some.inj h]
    have hleaves := handleProposalCreated_leavesToken s
      (.fromV1Event block id proposer txs startBlock endBlock proposalThreshold quorumVotes)
    exact ⟨hleaves.grows, hleaves.delegatesExist hexist⟩

end Store

open Store

/-- How many delegates were created without being counted. -/
def lostDelegates : List Event → Nat
  | [] => 0
  | e :: events => lostDelegates events +
      if (indexed events).any fun s => s.losesDelegate e then 1 else 0

theorem delegatesExist_of_indexed {events : List Event} {s : Store} (h : indexed events = some s) :
    s.DelegatesExist := by
  induction events generalizing s with
  | nil =>
    rw [← Option.some.inj h]
    exact nofun
  | cons e events ih =>
    obtain ⟨s₁, h₁, h⟩ := Option.bind_eq_some_iff.mp h
    exact (handle_grows (ih h₁) h).2

/-- What was counted and what was lost are all delegates. -/
theorem totalDelegates_add_lost {events : List Event} {s : Store} (h : indexed events = some s) :
    s.getGovernanceEntity.totalDelegates + lostDelegates events = s.delegateCount := by
  induction events generalizing s with
  | nil =>
    rw [← Option.some.inj h, delegateCount]
    simp only [lostDelegates, Store.empty, count_empty]
    rfl
  | cons e events ih =>
    obtain ⟨s₁, h₁, h⟩ := Option.bind_eq_some_iff.mp h
    have hgrows := (handle_grows (delegatesExist_of_indexed h₁) h).1.counted
    have hbefore := ih h₁
    rw [lostDelegates, h₁, Option.any_some]
    omega

theorem lostDelegates_eq_zero {events : List Event} {s : Store} (h : indexed events = some s) :
    lostDelegates events = 0 ↔ ∀ newer e older s₁, events = newer ++ e :: older →
      indexed older = some s₁ → s₁.losesDelegate e = false := by
  induction events generalizing s with
  | nil => simp [lostDelegates]
  | cons e events ih =>
    obtain ⟨s₁, h₁, h⟩ := Option.bind_eq_some_iff.mp h
    rw [lostDelegates, Nat.add_eq_zero_iff, ih h₁, h₁, Option.any_some]
    constructor
    · rintro ⟨hnone, hlast⟩ newer e' older s₂ heq h₂
      cases newer with
      | nil =>
        rw [List.nil_append, List.cons.injEq] at heq
        obtain ⟨rfl, rfl⟩ := heq
        rw [h₁] at h₂
        rw [← Option.some.inj h₂]
        simpa using hlast
      | cons e'' newer =>
        rw [List.cons_append, List.cons.injEq] at heq
        exact hnone newer e' older s₂ heq.2 h₂
    · intro hall
      refine ⟨fun newer e' older s₂ heq h₂ => hall (e :: newer) e' older s₂ ?_ h₂, ?_⟩
      · rw [heq, List.cons_append]
      · simpa using hall [] e events s₁ rfl h₁

/-- The counter is right if and only if no event named an account that was no delegate yet, in a change
of its votes or in a transfer to it while it had no Noun and no delegate. -/
theorem delegates_counted_iff {events : List Event} {s : Store} (h : indexed events = some s) :
    s.getGovernanceEntity.totalDelegates = s.delegateCount ↔
      ∀ newer e older s₁, events = newer ++ e :: older → indexed older = some s₁ →
        s₁.losesDelegate e = false := by
  rw [← lostDelegates_eq_zero h, ← totalDelegates_add_lost h]
  omega

/-- Account 5 delegates to 6: both delegates are created by the change of delegate, which precedes that
of votes. -/
theorem delegates_counted_after_delegation :
    ∃ s, indexed [.token (.DelegateVotesChanged 6 0 1), .token (.DelegateChanged 5 5 6)] = some s ∧
      s.getGovernanceEntity.totalDelegates = 2 ∧
      s.getGovernanceEntity.totalDelegates = s.delegateCount := by
  obtain ⟨log, hlog⟩ : ∃ log : List TokenEvent,
    log = [.DelegateVotesChanged 6 0 1, .DelegateChanged 5 5 6] := ⟨_, rfl⟩
  have hindexed := (indexed_tokenEvents log).2
  have hcounted := (delegates_counted_iff hindexed).mpr
  rw [← lostDelegates_eq_zero hindexed] at hcounted
  subst hlog
  exact ⟨_, hindexed, by decide, hcounted (by decide)⟩

/-- The first mint: the founders (8) and the minter (7) first appear as delegates in changes of votes,
and the owner of the token (9) in a transfer to it.  None of them is counted. -/
theorem delegates_not_counted_after_mint :
    ∃ n : Clocked NounsToken,
      Reachable NounsToken.Deployed (NounsToken.Next Crypto.transparent fun _ _ => True) n ∧
      ∃ events s, tokenEvents events = n.token.log ∧ indexed events = some s ∧
        s.getGovernanceEntity.totalDelegates = 0 ∧ s.delegateCount = 3 := by
  have h₀ : Reachable NounsToken.Deployed (NounsToken.Next Crypto.transparent fun _ _ => True)
      ⟨1, 1, NounsToken.deploy 9 8 7⟩ := .start ⟨9, 8, 7, rfl⟩
  have h₁ := h₀.step (.call (fun _ => 0) (fun _ => .ok ()) ⟨7, by decide⟩ .mint trivial rfl)
  refine ⟨_, h₁, _, _, (indexed_tokenEvents _).1, (indexed_tokenEvents _).2, by decide, ?_⟩
  refine Int.natCast_inj.mp ((totalDelegates_add_lost (indexed_tokenEvents _).2).symm.trans ?_)
  decide

end Nouns.Subgraph
