import Nouns.Subgraph.DAOHandlers

/-!
# Effects — what the handlers do to each kind of entity

An entity that does not exist is read as what it would be created as, so that creating one changes
nothing but its existence and the counters of `Governance`.
-/

open EntityStore EntityStore.Table

namespace Nouns.Subgraph

/-- The fields other than the number of delegates. -/
def Governance.apart (governance : Governance) : Governance :=
  { governance with totalDelegates := 0 }

namespace Store

variable {s : Store}

def account (s : Store) (id : Address) : Account := s.accounts.get Account.new id

def delegate (s : Store) (id : Address) : Delegate := s.delegates.get Delegate.new id

/-- The delegate is counted when it is created. -/
def countDelegate (s : Store) (id : Address) : Store :=
  if s.delegates.load id = none ∧ id ≠ 0 then
    s.saveGovernance { s.getGovernanceEntity with
      totalDelegates := s.getGovernanceEntity.totalDelegates + 1 }
  else s

theorem getOrCreateAccount_eq (s : Store) (id : Address) :
    s.getOrCreateAccount id = (s.saveAccount id (s.account id), s.account id) := by
  unfold getOrCreateAccount account
  cases h : s.accounts.load id with
  | none =>
    rw [Table.get, h]
    rfl
  | some tokenHolder =>
    change (s, tokenHolder) = ({ s with accounts := s.accounts.save id _ }, _)
    rw [save_get h, get_of_load h]

/-- Creating an account. -/
@[simp] theorem account_resave (id a : Address) :
    (s.saveAccount id (s.account id)).account a = s.account a := by
  by_cases h : a = id
  · simp [account, saveAccount, h]
  · simp [account, saveAccount, get_save_ne h]

theorem getOrCreateDelegate_eq (s : Store) (id : Address) :
    s.getOrCreateDelegate id =
      ((s.countDelegate id).saveDelegate id (s.delegate id), s.delegate id) := by
  unfold getOrCreateDelegate delegate countDelegate
  cases h : s.delegates.load id with
  | none =>
    rw [Table.get, h]
    simp only [true_and]
    rfl
  | some entity =>
    rw [if_neg (fun hnone => Option.some_ne_none _ hnone.1), saveDelegate, save_get h, get_of_load h]

@[simp] theorem countDelegate_accounts (id : Address) : (s.countDelegate id).accounts = s.accounts := by
  unfold countDelegate
  split <;> rfl

@[simp] theorem countDelegate_delegates (id : Address) :
    (s.countDelegate id).delegates = s.delegates := by
  unfold countDelegate
  split <;> rfl

@[simp] theorem countDelegate_nouns (id : Address) : (s.countDelegate id).nouns = s.nouns := by
  unfold countDelegate
  split <;> rfl

theorem countDelegate_apart (id : Address) :
    (s.countDelegate id).getGovernanceEntity.apart = s.getGovernanceEntity.apart := by
  unfold countDelegate
  split <;> rfl

theorem countDelegate_governance (id : Address) :
    (s.countDelegate id).getGovernanceEntity = { s.getGovernanceEntity with
      totalDelegates := s.getGovernanceEntity.totalDelegates +
        if s.delegates.load id = none ∧ id ≠ 0 then 1 else 0 } := by
  unfold countDelegate
  split
  · rfl
  · rw [Int.add_zero]

@[simp] theorem getOrCreateDelegate_accounts (id : Address) :
    (s.getOrCreateDelegate id).1.accounts = s.accounts := by
  rw [getOrCreateDelegate_eq]
  exact countDelegate_accounts id

@[simp] theorem getOrCreateDelegate_nouns (id : Address) :
    (s.getOrCreateDelegate id).1.nouns = s.nouns := by
  rw [getOrCreateDelegate_eq]
  exact countDelegate_nouns id

/-- Creating a delegate. -/
@[simp] theorem getOrCreateDelegate_delegate (id d : Address) :
    (s.getOrCreateDelegate id).1.delegate d = s.delegate d := by
  simp only [getOrCreateDelegate_eq, delegate, saveDelegate, countDelegate_delegates, get_save]
  by_cases h : d = id
  · rw [if_pos h, h]
  · rw [if_neg h]

theorem getOrCreateDelegate_apart (id : Address) :
    (s.getOrCreateDelegate id).1.getGovernanceEntity.apart = s.getGovernanceEntity.apart := by
  rw [getOrCreateDelegate_eq]
  exact countDelegate_apart id

/-! ## Changes of delegate -/

theorem handleDelegateChanged_account (delegator fromDelegate toDelegate a : Address) :
    (s.handleDelegateChanged delegator fromDelegate toDelegate).account a =
      if a = delegator then { s.account delegator with delegate := some toDelegate }
      else s.account a := by
  simp only [handleDelegateChanged, getOrCreateAccount_eq, account, saveDelegate, saveAccount,
    getOrCreateDelegate_accounts, save_save, get_save]

theorem handleDelegateChanged_nouns (delegator fromDelegate toDelegate : Address) :
    (s.handleDelegateChanged delegator fromDelegate toDelegate).nouns = s.nouns := by
  simp only [handleDelegateChanged, getOrCreateAccount_eq, saveDelegate, saveAccount,
    getOrCreateDelegate_nouns]

/-- The new delegate last: a copy that was loaded before the previous one was saved. -/
theorem handleDelegateChanged_delegate (delegator fromDelegate toDelegate d : Address) :
    (s.handleDelegateChanged delegator fromDelegate toDelegate).delegate d =
      if d = toDelegate then { s.delegate toDelegate with
        tokenHoldersRepresentedAmount :=
          (s.delegate toDelegate).tokenHoldersRepresentedAmount + 1
        nounsRepresented :=
          (s.delegate toDelegate).nounsRepresented ++ (s.account delegator).nouns }
      else if d = fromDelegate then { s.delegate fromDelegate with
        tokenHoldersRepresentedAmount :=
          (s.delegate fromDelegate).tokenHoldersRepresentedAmount - 1
        nounsRepresented := (s.delegate fromDelegate).nounsRepresented.filter
          (· ∉ (s.account delegator).nouns) }
      else s.delegate d := by
  have hprevious : ∀ s : Store, ∀ id, (s.getOrCreateDelegate id).2 = s.delegate id := by
    intro s id
    rw [getOrCreateDelegate_eq]
  have hcreated : ∀ d, (((s.saveAccount delegator (s.account delegator)).getOrCreateDelegate
      fromDelegate).1.getOrCreateDelegate toDelegate).1.delegates.get Delegate.new d =
      s.delegate d := by
    intro d
    change (((s.saveAccount delegator (s.account delegator)).getOrCreateDelegate
      fromDelegate).1.getOrCreateDelegate toDelegate).1.delegate d = _
    rw [getOrCreateDelegate_delegate, getOrCreateDelegate_delegate]
    rfl
  unfold handleDelegateChanged
  simp only [getOrCreateAccount_eq, hprevious, getOrCreateDelegate_delegate]
  rw [delegate]
  simp only [saveDelegate, get_save]
  split
  · rfl
  · split
    · rfl
    · exact hcreated d

theorem handleDelegateChanged_apart (delegator fromDelegate toDelegate : Address) :
    (s.handleDelegateChanged delegator fromDelegate toDelegate).getGovernanceEntity.apart =
      s.getGovernanceEntity.apart := by
  unfold handleDelegateChanged
  refine (getOrCreateDelegate_apart toDelegate).trans ((getOrCreateDelegate_apart _).trans ?_)
  rw [getOrCreateAccount_eq]
  rfl

theorem handleDelegateChanged_totalTokenHolders (delegator fromDelegate toDelegate : Address) :
    (s.handleDelegateChanged delegator fromDelegate
      toDelegate).getGovernanceEntity.totalTokenHolders =
        s.getGovernanceEntity.totalTokenHolders :=
  (congrArg Governance.totalTokenHolders
    (handleDelegateChanged_apart delegator fromDelegate toDelegate) :)

theorem handleDelegateChanged_currentTokenHolders (delegator fromDelegate toDelegate : Address) :
    (s.handleDelegateChanged delegator fromDelegate
      toDelegate).getGovernanceEntity.currentTokenHolders =
        s.getGovernanceEntity.currentTokenHolders :=
  (congrArg Governance.currentTokenHolders
    (handleDelegateChanged_apart delegator fromDelegate toDelegate) :)

/-! ## Transfers -/

/-- The account that sends a Noun. -/
def debited (fromHolder : Account) (nounId : Nat) : Account :=
  { fromHolder with
    tokenBalanceRaw := fromHolder.tokenBalanceRaw - 1
    tokenBalance := fromHolder.tokenBalanceRaw - 1
    nouns := fromHolder.nouns.filter (· ≠ nounId) }

/-- The account that receives a Noun: it delegates to itself if its balance was 0 and it has no
delegate. -/
def credited (to_ : Address) (toHolder : Account) (nounId : Nat) : Account :=
  { delegate := if toHolder.tokenBalanceRaw = 0 then some (toHolder.delegate.getD to_)
      else toHolder.delegate
    tokenBalanceRaw := toHolder.tokenBalanceRaw + 1
    tokenBalance := toHolder.tokenBalanceRaw + 1
    totalTokensHeldRaw := toHolder.totalTokensHeldRaw + 1
    totalTokensHeld := toHolder.totalTokensHeldRaw + 1
    nouns := toHolder.nouns ++ [nounId] }

@[simp] theorem countHolder_accounts (governance : Governance) (previousBalance balance : Int) :
    (s.countHolder governance previousBalance balance).1.accounts = s.accounts := by
  unfold countHolder
  split_ifs <;> rfl

@[simp] theorem countHolder_delegates (governance : Governance) (previousBalance balance : Int) :
    (s.countHolder governance previousBalance balance).1.delegates = s.delegates := by
  unfold countHolder
  split_ifs <;> rfl

@[simp] theorem countHolder_nouns (governance : Governance) (previousBalance balance : Int) :
    (s.countHolder governance previousBalance balance).1.nouns = s.nouns := by
  unfold countHolder
  split_ifs <;> rfl

theorem debitHolder_account (governance : Governance) (from_ : Address) (fromHolder : Account)
    (nounId : Nat) (a : Address) :
    (s.debitHolder governance from_ fromHolder nounId).1.account a =
      if a = from_ ∧ from_ ≠ 0 then debited fromHolder nounId else s.account a := by
  unfold debitHolder
  by_cases hzero : from_ = 0
  · rw [if_pos hzero, if_neg (fun h => h.2 hzero)]
    rfl
  · rw [if_neg hzero]
    cases hdelegate : fromHolder.delegate with
    | none => simp [account, saveAccount, get_save, hzero, debited, hdelegate]
    | some d =>
      simp [account, saveAccount, get_save, hzero, debited, hdelegate, getOrCreateDelegate_eq,
        saveDelegate]

theorem creditHolder_account (governance : Governance) (to_ : Address) (toHolder : Account)
    (nounId : Nat) (a : Address) :
    (s.creditHolder governance to_ toHolder nounId).account a =
      if a = to_ then credited to_ toHolder nounId else s.account a := by
  have hcrossing : toHolder.tokenBalanceRaw + 1 > 0 ∧ toHolder.tokenBalanceRaw = 0 ↔
      toHolder.tokenBalanceRaw = 0 := by
    omega
  unfold creditHolder
  simp only [account, saveAccount, saveNoun, get_save, countHolder_accounts, saveDelegate,
    getOrCreateDelegate_eq, countDelegate_accounts, hcrossing]
  congr 1
  · unfold credited
    split <;> rfl
  · split <;> rfl

/-- The receiver last: a copy that was loaded before the sender was saved. -/
theorem handleTransfer_account (from_ to_ : Address) (tokenId : Nat) (a : Address) :
    (s.handleTransfer from_ to_ tokenId).account a =
      if a = to_ then credited to_ (s.account to_) tokenId
      else if a = from_ ∧ from_ ≠ 0 then debited (s.account from_) tokenId
      else s.account a := by
  have hcopies : ((s.saveAccount from_ (s.account from_)).saveAccount to_
      (s.account to_)).account a = s.account a := by
    have hto : s.account to_ = (s.saveAccount from_ (s.account from_)).account to_ :=
      (account_resave from_ to_).symm
    rw [hto, account_resave, account_resave]
  unfold handleTransfer
  rw [creditHolder_account, debitHolder_account]
  simp only [getOrCreateAccount_eq, account_resave, hcopies]

theorem handleTransfer_nouns (from_ to_ : Address) (tokenId : Nat) :
    (s.handleTransfer from_ to_ tokenId).nouns = s.nouns.save tokenId { owner := to_ } := by
  unfold handleTransfer creditHolder debitHolder
  simp only [getOrCreateAccount_eq, getOrCreateDelegate_eq]
  by_cases hzero : from_ = 0
  · simp only [hzero, if_true]
    simp only [saveAccount, saveNoun, countHolder_nouns, saveDelegate, countDelegate_nouns]
    split <;> rfl
  · simp only [hzero, if_false]
    cases hdelegate : (s.account from_).delegate with
    | none =>
      simp only [saveAccount, saveNoun, countHolder_nouns, saveDelegate, countDelegate_nouns]
      split <;> simp [saveGovernance]
    | some d =>
      simp only [saveAccount, saveNoun, countHolder_nouns, saveDelegate, countDelegate_nouns]
      split <;> simp [saveGovernance]

/-! ## Nouns represented -/

/-- The delegates once the sender's no longer represents the Noun. -/
def debitedDelegates (s : Store) (from_ : Address) (fromHolder : Account) (nounId : Nat) :
    Table Address Delegate :=
  if from_ = 0 then s.delegates
  else match fromHolder.delegate with
    | none => s.delegates
    | some d => s.delegates.save d { s.delegate d with
        nounsRepresented := (s.delegate d).nounsRepresented.filter (· ≠ nounId) }

theorem debitHolder_delegates (governance : Governance) (from_ : Address) (fromHolder : Account)
    (nounId : Nat) :
    (s.debitHolder governance from_ fromHolder nounId).1.delegates =
      s.debitedDelegates from_ fromHolder nounId := by
  unfold debitHolder debitedDelegates
  by_cases hzero : from_ = 0
  · rw [if_pos hzero, if_pos hzero]
    rfl
  · rw [if_neg hzero, if_neg hzero]
    cases fromHolder.delegate with
    | none => exact countHolder_delegates ..
    | some d =>
      refine (countHolder_delegates ..).trans ?_
      simp only [getOrCreateDelegate_eq, saveDelegate, countDelegate_delegates, save_save]

theorem creditHolder_delegates (governance : Governance) (to_ : Address) (toHolder : Account)
    (nounId : Nat) :
    (s.creditHolder governance to_ toHolder nounId).delegates =
      s.delegates.save (toHolder.delegate.getD to_) { s.delegate (toHolder.delegate.getD to_) with
        nounsRepresented :=
          (s.delegate (toHolder.delegate.getD to_)).nounsRepresented ++ [nounId] } := by
  unfold creditHolder
  refine (countHolder_delegates ..).trans ?_
  simp only [getOrCreateDelegate_eq, saveDelegate, countDelegate_delegates, save_save]
  split <;> rfl

/-- What the sender's delegate represents without the Noun. -/
def withoutNoun (s : Store) (from_ : Address) (nounId : Nat) (d : Address) : Delegate :=
  if from_ ≠ 0 ∧ (s.account from_).delegate = some d then
    { s.delegate d with nounsRepresented := (s.delegate d).nounsRepresented.filter (· ≠ nounId) }
  else s.delegate d

theorem get_debitedDelegates (from_ : Address) (nounId : Nat) (d : Address) :
    (s.debitedDelegates from_ (s.account from_) nounId).get Delegate.new d =
      s.withoutNoun from_ nounId d := by
  unfold debitedDelegates withoutNoun
  by_cases hzero : from_ = 0
  · rw [if_pos hzero, if_neg (fun h => h.1 hzero)]
    rfl
  · rw [if_neg hzero]
    cases (s.account from_).delegate with
    | none =>
      rw [if_neg (fun h => nomatch h.2)]
      rfl
    | some d' =>
      rw [get_save]
      by_cases hd : d = d'
      · rw [if_pos hd, if_pos ⟨hzero, congrArg some hd.symm⟩, hd]
      · rw [if_neg hd, if_neg (fun h => hd (Option.some.inj h.2).symm)]
        rfl

theorem handleTransfer_delegate (from_ to_ : Address) (tokenId : Nat) (d : Address) :
    (s.handleTransfer from_ to_ tokenId).delegate d =
      if d = (s.account to_).delegate.getD to_ then
        { s.withoutNoun from_ tokenId d with
          nounsRepresented := (s.withoutNoun from_ tokenId d).nounsRepresented ++ [tokenId] }
      else s.withoutNoun from_ tokenId d := by
  have hdebited : ∀ d, ((((s.getOrCreateAccount from_).1.getOrCreateAccount to_).1.debitHolder
      ((s.getOrCreateAccount from_).1.getOrCreateAccount to_).1.getGovernanceEntity from_
      (s.getOrCreateAccount from_).2 tokenId).1.delegate d) = s.withoutNoun from_ tokenId d := by
    intro d
    rw [← get_debitedDelegates, delegate, debitHolder_delegates]
    simp only [getOrCreateAccount_eq]
    rfl
  unfold handleTransfer
  dsimp only
  rw [delegate, creditHolder_delegates, get_save]
  simp only [hdebited]
  simp only [getOrCreateAccount_eq, account_resave]
  by_cases hd : d = (s.account to_).delegate.getD to_
  · rw [if_pos hd, if_pos hd, hd]
  · rw [if_neg hd, if_neg hd, ← hdebited, delegate]
    simp only [getOrCreateAccount_eq, account_resave]

/-! ## Counting holders -/

/-- How a balance changes the number of holders. -/
def holderChange (previousBalance balance : Int) : Int :=
  if balance = 0 ∧ previousBalance > 0 then -1
  else if balance > 0 ∧ previousBalance = 0 then 1
  else 0

theorem countHolder_snd (governance : Governance) (previousBalance balance : Int) :
    (s.countHolder governance previousBalance balance).2 = { governance with
      currentTokenHolders := governance.currentTokenHolders +
        holderChange previousBalance balance } := by
  unfold countHolder holderChange
  split_ifs
  · rfl
  · rfl
  · rw [Int.add_zero]

theorem countHolder_governance (governance : Governance) (previousBalance balance : Int) :
    (s.countHolder governance previousBalance balance).1.getGovernanceEntity =
      if holderChange previousBalance balance = 0 then s.getGovernanceEntity
      else (s.countHolder governance previousBalance balance).2 := by
  unfold countHolder holderChange
  split_ifs <;> simp_all [saveGovernance, getGovernanceEntity]

theorem countHolder_apart {governance : Governance} (previousBalance balance : Int)
    (h : s.getGovernanceEntity.apart = governance.apart) :
    (s.countHolder governance previousBalance balance).1.getGovernanceEntity.apart =
      (s.countHolder governance previousBalance balance).2.apart := by
  rw [countHolder_governance]
  split
  · rename_i hsame
    rw [countHolder_snd, hsame, Int.add_zero]
    exact h
  · rfl

theorem debitHolder_snd (governance : Governance) (from_ : Address) (fromHolder : Account)
    (nounId : Nat) :
    (s.debitHolder governance from_ fromHolder nounId).2 = { governance with
      totalTokenHolders := governance.totalTokenHolders + if from_ = 0 then 1 else 0
      currentTokenHolders := governance.currentTokenHolders +
        if from_ = 0 then 0
        else holderChange fromHolder.tokenBalanceRaw (fromHolder.tokenBalanceRaw - 1) } := by
  unfold debitHolder
  split
  · simp
  · simp [countHolder_snd]

theorem debitHolder_apart {governance : Governance} (from_ : Address) (fromHolder : Account)
    (nounId : Nat) (h : s.getGovernanceEntity.apart = governance.apart) :
    (s.debitHolder governance from_ fromHolder nounId).1.getGovernanceEntity.apart =
      (s.debitHolder governance from_ fromHolder nounId).2.apart := by
  unfold debitHolder
  split
  · rfl
  · refine countHolder_apart _ _ ?_
    cases fromHolder.delegate with
    | none => exact h
    | some d =>
      simp only [getOrCreateDelegate_eq]
      exact (countDelegate_apart d).trans h

theorem creditHolder_apart {governance : Governance} (to_ : Address) (toHolder : Account)
    (nounId : Nat) (h : s.getGovernanceEntity.apart = governance.apart) :
    (s.creditHolder governance to_ toHolder nounId).getGovernanceEntity.apart =
      { governance.apart with
        totalTokenHolders := governance.totalTokenHolders - if to_ = 0 then 1 else 0
        currentTokenHolders := governance.currentTokenHolders +
          holderChange toHolder.tokenBalanceRaw (toHolder.tokenBalanceRaw + 1) } := by
  unfold creditHolder
  dsimp only
  -- The copy is saved again after the delegate was created.
  refine Eq.trans (countHolder_apart _ _ ?_) ?_
  · simp only [getOrCreateDelegate_eq]
    refine Eq.trans (countDelegate_apart _) ?_
    split
    · rfl
    · exact h
  · rw [countHolder_snd]
    split <;> simp [Governance.apart]

/-- The counters of holders after a transfer. -/
theorem handleTransfer_apart (from_ to_ : Address) (tokenId : Nat) :
    (s.handleTransfer from_ to_ tokenId).getGovernanceEntity.apart =
      { s.getGovernanceEntity.apart with
        totalTokenHolders := s.getGovernanceEntity.totalTokenHolders +
          (if from_ = 0 then 1 else 0) - if to_ = 0 then 1 else 0
        currentTokenHolders := s.getGovernanceEntity.currentTokenHolders +
          (if from_ = 0 then 0 else holderChange (s.account from_).tokenBalanceRaw
            ((s.account from_).tokenBalanceRaw - 1)) +
          holderChange (s.account to_).tokenBalanceRaw ((s.account to_).tokenBalanceRaw + 1) } := by
  unfold handleTransfer
  rw [creditHolder_apart _ _ _ (debitHolder_apart _ _ _ rfl), debitHolder_snd]
  simp only [getOrCreateAccount_eq, account_resave]
  rfl

theorem handleTransfer_totalTokenHolders (from_ to_ : Address) (tokenId : Nat) :
    (s.handleTransfer from_ to_ tokenId).getGovernanceEntity.totalTokenHolders =
      s.getGovernanceEntity.totalTokenHolders + (if from_ = 0 then 1 else 0) -
        if to_ = 0 then 1 else 0 :=
  (congrArg Governance.totalTokenHolders (handleTransfer_apart from_ to_ tokenId) :)

theorem handleTransfer_currentTokenHolders (from_ to_ : Address) (tokenId : Nat) :
    (s.handleTransfer from_ to_ tokenId).getGovernanceEntity.currentTokenHolders =
      s.getGovernanceEntity.currentTokenHolders +
        (if from_ = 0 then 0 else holderChange (s.account from_).tokenBalanceRaw
          ((s.account from_).tokenBalanceRaw - 1)) +
        holderChange (s.account to_).tokenBalanceRaw ((s.account to_).tokenBalanceRaw + 1) :=
  (congrArg Governance.currentTokenHolders (handleTransfer_apart from_ to_ tokenId) :)

end Store

end Nouns.Subgraph
