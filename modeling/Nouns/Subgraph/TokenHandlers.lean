import Nouns.Subgraph.Store
import Nouns.Token.ERC721

/-!
# TokenHandlers — the events of the token

`nouns-erc-721.ts`.  Every entity is a copy: the two holders of a transfer, or the two delegates of a
change, may be copies of one entity, and what is saved last stays.  A copy of `Governance` that was
loaded before a delegate was created does not count that delegate.
-/

open EntityStore

namespace Nouns.Subgraph.Store

variable (s : Store)

def handleDelegateChanged (delegator fromDelegate toDelegate : Address) : Store :=
  let tokenHolder := s.getOrCreateAccount delegator
  let previousDelegate := tokenHolder.1.getOrCreateDelegate fromDelegate
  let newDelegate := previousDelegate.1.getOrCreateDelegate toDelegate
  let accountNouns := tokenHolder.2.nouns
  let s := newDelegate.1.saveAccount delegator { tokenHolder.2 with delegate := some toDelegate }
  let s := s.saveDelegate fromDelegate { previousDelegate.2 with
    tokenHoldersRepresentedAmount := previousDelegate.2.tokenHoldersRepresentedAmount - 1
    nounsRepresented := previousDelegate.2.nounsRepresented.filter (· ∉ accountNouns) }
  s.saveDelegate toDelegate { newDelegate.2 with
    tokenHoldersRepresentedAmount := newDelegate.2.tokenHoldersRepresentedAmount + 1
    nounsRepresented := newDelegate.2.nounsRepresented ++ accountNouns }

def handleDelegateVotesChanged (delegate : Address) (previousBalance newBalance : Nat) : Store :=
  let governance := s.getGovernanceEntity
  let entity := s.getOrCreateDelegate delegate
  let votesDifference : Int := newBalance - previousBalance
  let s := entity.1.saveDelegate delegate { entity.2 with
    delegatedVotesRaw := newBalance
    delegatedVotes := newBalance }
  let governance := if previousBalance = 0 ∧ newBalance > 0 then
      { governance with currentDelegates := governance.currentDelegates + 1 }
    else governance
  let governance := if newBalance = 0 then
      { governance with currentDelegates := governance.currentDelegates - 1 }
    else governance
  s.saveGovernance { governance with
    delegatedVotesRaw := governance.delegatedVotesRaw + votesDifference
    delegatedVotes := governance.delegatedVotesRaw + votesDifference }

/-- What both halves of `handleTransfer` do to the number of holders when a balance changes. -/
def countHolder (governance : Governance) (previousBalance balance : Int) : Store × Governance :=
  if balance = 0 ∧ previousBalance > 0 then
    let governance := { governance with
      currentTokenHolders := governance.currentTokenHolders - 1 }
    (s.saveGovernance governance, governance)
  else if balance > 0 ∧ previousBalance = 0 then
    let governance := { governance with
      currentTokenHolders := governance.currentTokenHolders + 1 }
    (s.saveGovernance governance, governance)
  else (s, governance)

/-- The `fromHolder` half of `handleTransfer`. -/
def debitHolder (governance : Governance) (from_ : Address) (fromHolder : Account)
    (nounId : Nat) : Store × Governance :=
  if from_ = 0 then
    let governance := { governance with totalTokenHolders := governance.totalTokenHolders + 1 }
    (s.saveGovernance governance, governance)
  else
    let fromHolderPreviousBalance := fromHolder.tokenBalanceRaw
    let fromHolder := { fromHolder with
      tokenBalanceRaw := fromHolderPreviousBalance - 1
      tokenBalance := fromHolderPreviousBalance - 1
      nouns := fromHolder.nouns.filter (· ≠ nounId) }
    let s := match fromHolder.delegate with
      | none => s
      | some delegate =>
        let fromHolderDelegate := s.getOrCreateDelegate delegate
        fromHolderDelegate.1.saveDelegate delegate { fromHolderDelegate.2 with
          nounsRepresented := fromHolderDelegate.2.nounsRepresented.filter (· ≠ nounId) }
    let counted := s.countHolder governance fromHolderPreviousBalance fromHolder.tokenBalanceRaw
    (counted.1.saveAccount from_ fromHolder, counted.2)

/-- The `toHolder` half of `handleTransfer`. -/
def creditHolder (governance : Governance) (to_ : Address) (toHolder : Account) (nounId : Nat) :
    Store :=
  let governance := if to_ = 0 then
      { governance with totalTokenHolders := governance.totalTokenHolders - 1 }
    else governance
  let s := if to_ = 0 then s.saveGovernance governance else s
  let delegate := toHolder.delegate.getD to_
  let toHolderDelegate := s.getOrCreateDelegate delegate
  let s := toHolderDelegate.1.saveDelegate delegate { toHolderDelegate.2 with
    nounsRepresented := toHolderDelegate.2.nounsRepresented ++ [nounId] }
  let toHolderPreviousBalance := toHolder.tokenBalanceRaw
  let toHolder := { toHolder with
    tokenBalanceRaw := toHolderPreviousBalance + 1
    tokenBalance := toHolderPreviousBalance + 1
    totalTokensHeldRaw := toHolder.totalTokensHeldRaw + 1
    totalTokensHeld := toHolder.totalTokensHeldRaw + 1
    nouns := toHolder.nouns ++ [nounId] }
  let s := (s.countHolder governance toHolderPreviousBalance toHolder.tokenBalanceRaw).1
  -- The delegate is set in the branch that counts a new holder.
  let toHolder := if toHolder.tokenBalanceRaw > 0 ∧ toHolderPreviousBalance = 0 then
      { toHolder with delegate := some (toHolder.delegate.getD to_) }
    else toHolder
  (s.saveNoun nounId { owner := to_ }).saveAccount to_ toHolder

def handleTransfer (from_ to_ : Address) (tokenId : Nat) : Store :=
  let fromHolder := s.getOrCreateAccount from_
  let toHolder := fromHolder.1.getOrCreateAccount to_
  let governance := toHolder.1.getGovernanceEntity
  let debited := toHolder.1.debitHolder governance from_ fromHolder.2 tokenId
  debited.1.creditHolder debited.2 to_ toHolder.2 tokenId

/-- The handlers of `subgraph.yaml` for the token.  That of `NounCreated` stores the seed, which is
left out. -/
def handleTokenEvent : TokenEvent → Store
  | .Transfer from_ to_ tokenId => s.handleTransfer from_ to_ tokenId
  | .DelegateChanged delegator fromDelegate toDelegate =>
      s.handleDelegateChanged delegator fromDelegate toDelegate
  | .DelegateVotesChanged delegate previousBalance newBalance =>
      s.handleDelegateVotesChanged delegate previousBalance newBalance
  | _ => s

end Nouns.Subgraph.Store
