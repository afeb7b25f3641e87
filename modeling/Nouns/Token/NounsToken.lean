import Nouns.Token.ERC721

/-!
# NounsToken — the Noun and its public calls

The art of a Noun (descriptor, seeder, seeds) is left out: no governance function reads it.
-/

open Fallible

namespace Nouns

structure NounsToken extends Token where
  owner : Address
  noundersDAO : Address
  minter : Address
  isMinterLocked : Bool
  currentNounId : Nat

/-- The public functions of the token that change its state. -/
inductive NounsTokenCall
  | mint
  | burn (nounId : Nat)
  | approve (to_ : Address) (tokenId : Nat)
  | setApprovalForAll (operator : Address) (approved : Bool)
  | transferFrom (from_ to_ : Address) (tokenId : Nat)
  | safeTransferFrom (from_ to_ : Address) (tokenId : Nat)
  | delegate (delegatee : Address)
  | delegateBySig (delegatee : Address) (nonce expiry : Nat) (sig : Bytes)
  | setNoundersDAO (noundersDAO : Address)
  | setMinter (minter : Address)
  | lockMinter
  | transferOwnership (newOwner : Address)
  | renounceOwnership

namespace NounsToken

variable {H : Type} (n : NounsToken)

def setToken (t : Token) : NounsToken := { n with toToken := t }

/-- The constructor. -/
def deploy (owner noundersDAO minter : Address) : NounsToken :=
  { Token.empty with owner, noundersDAO, minter, isMinterLocked := false, currentNounId := 0 }

def onlyOwner (sender : Address) : Tx Unit :=
  require (sender = n.owner) (.require "Ownable: caller is not the owner")

def onlyMinter (sender : Address) : Tx Unit :=
  require (sender = n.minter) (.require "Sender is not the minter")

def whenMinterNotLocked : Tx Unit :=
  require (n.isMinterLocked = false) (.require "Minter is locked")

/-- OpenSea proxies of the owner are approved. -/
def isApprovedForAll (proxies : Address → Address) (owner operator : Address) : Bool :=
  proxies owner = operator ∨ n.operatorApprovals owner operator

/-- The internal `_mintTo`: the creator is credited with the mint and passes the Noun on. -/
def mintNoun (now : Nat) (to_ : Address) (nounId : Nat) : Tx NounsToken := do
  let t ← n.toToken.mintTo now to_ nounId
  let t := (t.emit (.Transfer 0 n.owner nounId)).emit (.Transfer n.owner to_ nounId)
  return { n with toToken := t.emit (.NounCreated nounId) }

/-- `_mintTo(to, _currentNounId++)`. -/
def mintNext (now : Nat) (to_ : Address) : Tx NounsToken := do
  let nounId := n.currentNounId
  let n := { n with currentNounId := nounId + 1 }
  n.mintNoun now to_ nounId

def mint (now : Nat) (sender : Address) : Tx NounsToken := do
  n.onlyMinter sender
  let n ← if n.currentNounId ≤ 1820 ∧ n.currentNounId % 10 = 0 then n.mintNext now n.noundersDAO
    else pure n
  n.mintNext now n.minter

def burn (now : Nat) (sender : Address) (nounId : Nat) : Tx NounsToken := do
  n.onlyMinter sender
  let t ← n.toToken.burnToken now nounId
  return n.setToken (t.emit (.NounBurned nounId))

def transferFrom (proxies : Address → Address) (now : Nat) (sender from_ to_ : Address)
    (tokenId : Nat) : Tx NounsToken := do
  return n.setToken (← n.toToken.transferFrom (n.isApprovedForAll proxies) now sender from_ to_
    tokenId)

/-- `received` is the outcome of `onERC721Received` on the recipient. -/
def safeTransferFrom (proxies : Address → Address) (received : Tx Unit) (now : Nat)
    (sender from_ to_ : Address) (tokenId : Nat) : Tx NounsToken := do
  let n ← n.transferFrom proxies now sender from_ to_ tokenId
  received
  return n

def setNoundersDAO (sender noundersDAO : Address) : Tx NounsToken := do
  require (sender = n.noundersDAO) (.require "Sender is not the nounders DAO")
  return { n with noundersDAO, toToken := n.toToken.emit (.NoundersDAOUpdated noundersDAO) }

def setMinter (sender minter : Address) : Tx NounsToken := do
  n.onlyOwner sender
  n.whenMinterNotLocked
  return { n with minter, toToken := n.toToken.emit (.MinterUpdated minter) }

def lockMinter (sender : Address) : Tx NounsToken := do
  n.onlyOwner sender
  n.whenMinterNotLocked
  return { n with isMinterLocked := true, toToken := n.toToken.emit .MinterLocked }

def transferOwnership (sender newOwner : Address) : Tx NounsToken := do
  n.onlyOwner sender
  require (newOwner ≠ 0) (.require "Ownable: new owner is the zero address")
  return { n with owner := newOwner }

def renounceOwnership (sender : Address) : Tx NounsToken := do
  n.onlyOwner sender
  return { n with owner := 0 }

/-- A call by `sender` in block `now`; `received` is what the recipient of a safe transfer
answers. -/
def call (c : Crypto H) (proxies : Address → Address) (received : Address → Tx Unit)
    (now timestamp : Nat) (sender : Account) : NounsTokenCall → Tx NounsToken
  | .mint => n.mint now sender
  | .burn nounId => n.burn now sender nounId
  | .approve to_ tokenId => return n.setToken (← n.toToken.approve (n.isApprovedForAll proxies)
      sender to_ tokenId)
  | .setApprovalForAll operator approved =>
      return n.setToken (← n.toToken.setApprovalForAll sender operator approved)
  | .transferFrom from_ to_ tokenId => n.transferFrom proxies now sender from_ to_ tokenId
  | .safeTransferFrom from_ to_ tokenId =>
      n.safeTransferFrom proxies (received to_) now sender from_ to_ tokenId
  | .delegate delegatee => return n.setToken (← n.toToken.delegate now sender delegatee)
  | .delegateBySig delegatee nonce expiry sig =>
      return n.setToken (← n.toToken.delegateBySig c now timestamp delegatee nonce expiry sig)
  | .setNoundersDAO noundersDAO => n.setNoundersDAO sender noundersDAO
  | .setMinter minter => n.setMinter sender minter
  | .lockMinter => n.lockMinter sender
  | .transferOwnership newOwner => n.transferOwnership sender newOwner
  | .renounceOwnership => n.renounceOwnership sender

end NounsToken

end Nouns
