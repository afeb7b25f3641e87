import Nouns.Evm
import Nouns.Lib.IndexedList
import Nouns.Lib.Checkpoints
import Mathlib.Logic.Function.Basic

/-!
# ERC721 — tokens with checkpointed votes

`ERC721.sol`, `ERC721Enumerable.sol` and `ERC721Checkpointable.sol` as one state: owners, balances
and approvals, the enumeration of all tokens, and the votes of every delegate by block.  The
upgradeable variant of the fork token differs in `delegateBySig` and in the events of a mint.

The per-owner enumeration of `ERC721Enumerable` is left out: only `tokenOfOwnerByIndex` reads it.
-/

open Fallible Checkpoints

namespace Nouns

inductive TokenEvent
  | Transfer (from_ to_ : Address) (tokenId : Nat)
  | Approval (owner approved : Address) (tokenId : Nat)
  | ApprovalForAll (owner operator : Address) (approved : Bool)
  | DelegateChanged (delegator fromDelegate toDelegate : Address)
  | DelegateVotesChanged (delegate : Address) (previousBalance newBalance : Nat)
  | NounCreated (tokenId : Nat)
  | NounBurned (tokenId : Nat)
  | MinterUpdated (minter : Address)
  | MinterLocked
  | NoundersDAOUpdated (noundersDAO : Address)
deriving DecidableEq

/-- `checkpoints a` is the array of `a`'s checkpoints, of length `numCheckpoints[a]`. -/
structure Token where
  owners : Nat → Address
  balances : Address → Nat
  tokenApprovals : Nat → Address
  operatorApprovals : Address → Address → Bool
  allTokens : IndexedList Nat
  delegateMap : Address → Address
  checkpoints : Address → List (Checkpoint Nat)
  nonces : Address → Nat
  log : List TokenEvent

namespace Token

/-- A token right after deployment. -/
def empty : Token where
  owners := fun _ => 0
  balances := fun _ => 0
  tokenApprovals := fun _ => 0
  operatorApprovals := fun _ _ => false
  allTokens := IndexedList.empty
  delegateMap := fun _ => 0
  checkpoints := fun _ => []
  nonces := fun _ => 0
  log := []

variable (t : Token)

def emit (e : TokenEvent) : Token := { t with log := e :: t.log }

def totalSupply : Nat := t.allTokens.items.length

def balanceOf (owner : Address) : Tx Nat := do
  require (owner ≠ 0) (.require "ERC721: balance query for the zero address")
  return t.balances owner

def ownerOf (tokenId : Nat) : Tx Address := do
  require (t.owners tokenId ≠ 0) (.require "ERC721: owner query for nonexistent token")
  return t.owners tokenId

/-! ## Votes -/

/-- An account without a delegate delegates to itself. -/
def delegates (delegator : Address) : Address :=
  let current := t.delegateMap delegator
  if current = 0 then delegator else current

def getCurrentVotes (account : Address) : Nat := (latest (t.checkpoints account)).getD 0

def getPriorVotes (now : Nat) (account : Address) (blockNumber : Nat) : Tx Nat := do
  require (blockNumber < now) (.require "ERC721Checkpointable::getPriorVotes: not yet determined")
  return (lookup (t.checkpoints account) blockNumber).getD 0

def safe96 (n : Nat) (reason : String) : Tx Nat := do
  require (n < 2 ^ 96) (.require reason)
  return n

def add96 (a b : Nat) (reason : String) : Tx Nat := do
  let c ← checked 96 (a + b)
  require (c ≥ a) (.require reason)
  return c

def sub96 (a b : Nat) (reason : String) : Tx Nat := do
  require (b ≤ a) (.require reason)
  return a - b

def votesToDelegate (delegator : Address) : Tx Nat := do
  safe96 (← t.balanceOf delegator)
    "ERC721Checkpointable::votesToDelegate: amount exceeds 96 bits"

-- `numCheckpoints` is a `uint32`: with at most one checkpoint a block it stays below the number
-- of blocks, which the first check bounds.
def writeCheckpoint (now : Nat) (delegatee : Address) (oldVotes newVotes : Nat) : Tx Token := do
  require (now < 2 ^ 32)
    (.require "ERC721Checkpointable::_writeCheckpoint: block number exceeds 32 bits")
  let t := { t with
    checkpoints := Function.update t.checkpoints delegatee
      (write (t.checkpoints delegatee) now newVotes) }
  return t.emit (.DelegateVotesChanged delegatee oldVotes newVotes)

def amountUnderflows : String := "ERC721Checkpointable::_moveDelegates: amount underflows"

def amountOverflows : String := "ERC721Checkpointable::_moveDelegates: amount overflows"

/-- The first half of `_moveDelegates`. -/
def removeVotes (now : Nat) (srcRep : Address) (amount : Nat) : Tx Token :=
  if srcRep ≠ 0 then do
    let srcRepOld := t.getCurrentVotes srcRep
    let srcRepNew ← sub96 srcRepOld amount amountUnderflows
    t.writeCheckpoint now srcRep srcRepOld srcRepNew
  else return t

/-- The second half of `_moveDelegates`. -/
def addVotes (now : Nat) (dstRep : Address) (amount : Nat) : Tx Token :=
  if dstRep ≠ 0 then do
    let dstRepOld := t.getCurrentVotes dstRep
    let dstRepNew ← add96 dstRepOld amount amountOverflows
    t.writeCheckpoint now dstRep dstRepOld dstRepNew
  else return t

def moveDelegates (now : Nat) (srcRep dstRep : Address) (amount : Nat) : Tx Token :=
  if srcRep ≠ dstRep ∧ amount > 0 then do
    let t ← t.removeVotes now srcRep amount
    t.addVotes now dstRep amount
  else return t

/-- The internal `_delegate`. -/
def delegateTo (now : Nat) (delegator delegatee : Address) : Tx Token := do
  let currentDelegate := t.delegates delegator
  let t := { t with delegateMap := Function.update t.delegateMap delegator delegatee }
  let t := t.emit (.DelegateChanged delegator currentDelegate delegatee)
  let amount ← t.votesToDelegate delegator
  t.moveDelegates now currentDelegate delegatee amount

def delegate (now : Nat) (sender : Account) (delegatee : Address) : Tx Token :=
  let delegatee := if delegatee = 0 then sender.val else delegatee
  t.delegateTo now sender delegatee

/-- What both variants of `delegateBySig` do once the arguments are accepted.  The nonce is
consumed before the expiry is checked; a revert undoes it. -/
def delegateBySigChecked {H : Type} (c : Crypto H) (now timestamp : Nat) (delegatee : Address)
    (nonce expiry : Nat) (sig : Bytes) : Tx Token := do
  let signatory := c.ecrecover (c.keccak256 (.delegation delegatee nonce expiry)) sig
  require (signatory ≠ 0) (.require "ERC721Checkpointable::delegateBySig: invalid signature")
  require (nonce = t.nonces signatory)
    (.require "ERC721Checkpointable::delegateBySig: invalid nonce")
  let t := { t with nonces := Function.update t.nonces signatory (nonce + 1) }
  require (timestamp ≤ expiry) (.require "ERC721Checkpointable::delegateBySig: signature expired")
  t.delegateTo now signatory delegatee

/-- `ERC721Checkpointable.delegateBySig`. -/
def delegateBySig {H : Type} (c : Crypto H) (now timestamp : Nat) (delegatee : Address)
    (nonce expiry : Nat) (sig : Bytes) : Tx Token :=
  t.delegateBySigChecked c now timestamp delegatee nonce expiry sig

/-- `ERC721CheckpointableUpgradeable.delegateBySig`, which refuses the zero delegatee. -/
def delegateBySigUpgradeable {H : Type} (c : Crypto H) (now timestamp : Nat)
    (delegatee : Address) (nonce expiry : Nat) (sig : Bytes) : Tx Token := do
  require (delegatee ≠ 0)
    (.require "ERC721Checkpointable::delegateBySig: delegatee cannot be zero address")
  t.delegateBySigChecked c now timestamp delegatee nonce expiry sig

/-! ## Ownership -/

def approveToken (to_ : Address) (tokenId : Nat) : Tx Token := do
  let t := { t with tokenApprovals := Function.update t.tokenApprovals tokenId to_ }
  return t.emit (.Approval (← t.ownerOf tokenId) to_ tokenId)

/-- The enumeration hook: a mint is listed, a burn unlisted. -/
def updateEnumeration (from_ to_ : Address) (tokenId : Nat) : Tx Token := do
  let t := if from_ = 0 then { t with allTokens := t.allTokens.add tokenId } else t
  if to_ = 0 then
    match t.allTokens.remove tokenId with
    | some allTokens => return { t with allTokens }
    | none => throw .panic
  else return t

def beforeTokenTransfer (now : Nat) (from_ to_ : Address) (tokenId : Nat) : Tx Token := do
  let t ← t.updateEnumeration from_ to_ tokenId
  t.moveDelegates now (t.delegates from_) (t.delegates to_) 1

/-- The internal `_mint`, before its events. -/
def mintTo (now : Nat) (to_ : Address) (tokenId : Nat) : Tx Token := do
  require (to_ ≠ 0) (.require "ERC721: mint to the zero address")
  require (t.owners tokenId = 0) (.require "ERC721: token already minted")
  let t ← t.beforeTokenTransfer now 0 to_ tokenId
  return { t with
    balances := Function.update t.balances to_ (t.balances to_ + 1)
    owners := Function.update t.owners tokenId to_ }

/-- The internal `_burn`. -/
def burnToken (now : Nat) (tokenId : Nat) : Tx Token := do
  let owner ← t.ownerOf tokenId
  let t ← t.beforeTokenTransfer now owner 0 tokenId
  let t ← t.approveToken 0 tokenId
  let balance ← checkedSub (t.balances owner) 1
  let t := { t with
    balances := Function.update t.balances owner balance
    owners := Function.update t.owners tokenId 0 }
  return t.emit (.Transfer owner 0 tokenId)

/-- The internal `_transfer`. -/
def transfer (now : Nat) (from_ to_ : Address) (tokenId : Nat) : Tx Token := do
  require ((← t.ownerOf tokenId) = from_) (.require "ERC721: transfer of token that is not own")
  require (to_ ≠ 0) (.require "ERC721: transfer to the zero address")
  let t ← t.beforeTokenTransfer now from_ to_ tokenId
  let t ← t.approveToken 0 tokenId
  let fromBalance ← checkedSub (t.balances from_) 1
  let balances := Function.update t.balances from_ fromBalance
  let t := { t with
    balances := Function.update balances to_ (balances to_ + 1)
    owners := Function.update t.owners tokenId to_ }
  return t.emit (.Transfer from_ to_ tokenId)

section Approvals

-- The deployed token may widen `isApprovedForAll`.
variable (isApprovedForAll : Address → Address → Bool)

def isApprovedOrOwner (spender : Address) (tokenId : Nat) : Tx Bool := do
  require (t.owners tokenId ≠ 0) (.require "ERC721: operator query for nonexistent token")
  let owner := t.owners tokenId
  return spender = owner ∨ t.tokenApprovals tokenId = spender ∨ isApprovedForAll owner spender

def approve (sender : Account) (to_ : Address) (tokenId : Nat) : Tx Token := do
  let owner ← t.ownerOf tokenId
  require (to_ ≠ owner) (.require "ERC721: approval to current owner")
  require (sender.val = owner ∨ isApprovedForAll owner sender)
    (.require "ERC721: approve caller is not owner nor approved for all")
  t.approveToken to_ tokenId

def setApprovalForAll (sender : Account) (operator : Address) (approved : Bool) : Tx Token := do
  require (operator ≠ sender) (.require "ERC721: approve to caller")
  let t := { t with
    operatorApprovals := Function.update t.operatorApprovals sender
      (Function.update (t.operatorApprovals sender) operator approved) }
  return t.emit (.ApprovalForAll sender operator approved)

def transferFrom (now : Nat) (sender from_ to_ : Address) (tokenId : Nat) : Tx Token := do
  require ((← t.isApprovedOrOwner isApprovedForAll sender tokenId) = true)
    (.require "ERC721: transfer caller is not owner nor approved")
  t.transfer now from_ to_ tokenId

end Approvals

end Token

end Nouns
