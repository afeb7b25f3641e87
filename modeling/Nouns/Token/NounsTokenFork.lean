import Nouns.Token.ERC721

/-!
# NounsTokenFork — the token of a fork DAO

A fork of `NounsToken` on the upgradeable base.  The claim functions read the escrow of the
original DAO, which is a parameter here.  Upgrades, which replace the code, are left out.
-/

open Fallible

namespace Nouns

/-- What the token reads from the escrow it was initialized with. -/
structure EscrowView where
  dao : Address
  ownerOfEscrowedToken : Nat → Nat → Address

structure NounsTokenFork extends Token where
  owner : Address
  minter : Address
  forkId : Nat
  remainingTokensToClaim : Nat
  forkingPeriodEndTimestamp : Nat
  isMinterLocked : Bool
  currentNounId : Nat

/-- The public functions of the token that change its state. -/
inductive NounsTokenForkCall
  | claimFromEscrow (tokenIds : List Nat)
  | claimDuringForkPeriod (to_ : Address) (tokenIds : List Nat)
  | mint
  | burn (nounId : Nat)
  | approve (to_ : Address) (tokenId : Nat)
  | setApprovalForAll (operator : Address) (approved : Bool)
  | transferFrom (from_ to_ : Address) (tokenId : Nat)
  | safeTransferFrom (from_ to_ : Address) (tokenId : Nat)
  | delegate (delegatee : Address)
  | delegateBySig (delegatee : Address) (nonce expiry : Nat) (sig : Bytes)
  | setMinter (minter : Address)
  | lockMinter
  | transferOwnership (newOwner : Address)
  | renounceOwnership

namespace NounsTokenFork

variable {H : Type} (n : NounsTokenFork)

def setToken (t : Token) : NounsTokenFork := { n with toToken := t }

/-- The state `initialize` leaves behind. -/
def deploy (owner minter : Address) (forkId startNounId tokensToClaim
    forkingPeriodEndTimestamp : Nat) : NounsTokenFork :=
  { Token.empty with
    owner, minter, forkId, forkingPeriodEndTimestamp
    remainingTokensToClaim := tokensToClaim
    isMinterLocked := false
    currentNounId := startNounId }

def onlyOwner (sender : Address) : Tx Unit :=
  require (sender = n.owner) (.require "Ownable: caller is not the owner")

def onlyMinter (sender : Address) : Tx Unit :=
  require (sender = n.minter) (.require "Sender is not the minter")

def whenMinterNotLocked : Tx Unit :=
  require (n.isMinterLocked = false) (.require "Minter is locked")

/-- `_mintTo` and `_mintWithOriginalSeed`, which differ in the seed of the art only. -/
def mintNoun (now : Nat) (to_ : Address) (nounId : Nat) : Tx NounsTokenFork := do
  let t ← n.toToken.mintTo now to_ nounId
  return n.setToken ((t.emit (.Transfer 0 to_ nounId)).emit (.NounCreated nounId))

def claimFromEscrow (escrow : EscrowView) (now : Nat) (sender : Address) (tokenIds : List Nat) :
    Tx NounsTokenFork := do
  let n ← tokenIds.foldlM (fun n nounId => do
    revertIf (escrow.ownerOfEscrowedToken n.forkId nounId ≠ sender) .OnlyTokenOwnerCanClaim
    n.mintNoun now sender nounId) n
  let remaining ← checkedSub n.remainingTokensToClaim tokenIds.length
  return { n with remainingTokensToClaim := remaining }

def claimDuringForkPeriod (escrow : EscrowView) (now timestamp : Nat) (sender to_ : Address)
    (tokenIds : List Nat) : Tx NounsTokenFork := do
  let currentNounId := n.currentNounId
  revertIf (sender ≠ escrow.dao) .OnlyOriginalDAO
  revertIf (timestamp ≥ n.forkingPeriodEndTimestamp) .OnlyDuringForkingPeriod
  let n ← tokenIds.foldlM (fun n nounId => n.mintNoun now to_ nounId) n
  let maxNounId := tokenIds.foldl max 0
  return if maxNounId ≥ currentNounId then { n with currentNounId := maxNounId + 1 } else n

def mint (now : Nat) (sender : Address) : Tx NounsTokenFork := do
  n.onlyMinter sender
  let nounId := n.currentNounId
  let n := { n with currentNounId := nounId + 1 }
  n.mintNoun now n.minter nounId

def burn (now : Nat) (sender : Address) (nounId : Nat) : Tx NounsTokenFork := do
  n.onlyMinter sender
  let t ← n.toToken.burnToken now nounId
  return n.setToken (t.emit (.NounBurned nounId))

def transferFrom (now : Nat) (sender from_ to_ : Address) (tokenId : Nat) :
    Tx NounsTokenFork := do
  return n.setToken (← n.toToken.transferFrom n.operatorApprovals now sender from_ to_ tokenId)

/-- `received` is the outcome of `onERC721Received` on the recipient. -/
def safeTransferFrom (received : Tx Unit) (now : Nat) (sender from_ to_ : Address)
    (tokenId : Nat) : Tx NounsTokenFork := do
  let n ← n.transferFrom now sender from_ to_ tokenId
  received
  return n

def setMinter (sender minter : Address) : Tx NounsTokenFork := do
  n.onlyOwner sender
  n.whenMinterNotLocked
  return { n with minter, toToken := n.toToken.emit (.MinterUpdated minter) }

def lockMinter (sender : Address) : Tx NounsTokenFork := do
  n.onlyOwner sender
  n.whenMinterNotLocked
  return { n with isMinterLocked := true, toToken := n.toToken.emit .MinterLocked }

def transferOwnership (sender newOwner : Address) : Tx NounsTokenFork := do
  n.onlyOwner sender
  require (newOwner ≠ 0) (.require "Ownable: new owner is the zero address")
  return { n with owner := newOwner }

def renounceOwnership (sender : Address) : Tx NounsTokenFork := do
  n.onlyOwner sender
  return { n with owner := 0 }

/-- A call by `sender` in block `now`; `received` is what the recipient of a safe transfer
answers. -/
def call (c : Crypto H) (escrow : EscrowView) (received : Address → Tx Unit)
    (now timestamp : Nat) (sender : Account) : NounsTokenForkCall → Tx NounsTokenFork
  | .claimFromEscrow tokenIds => n.claimFromEscrow escrow now sender tokenIds
  | .claimDuringForkPeriod to_ tokenIds =>
      n.claimDuringForkPeriod escrow now timestamp sender to_ tokenIds
  | .mint => n.mint now sender
  | .burn nounId => n.burn now sender nounId
  | .approve to_ tokenId =>
      return n.setToken (← n.toToken.approve n.operatorApprovals sender to_ tokenId)
  | .setApprovalForAll operator approved =>
      return n.setToken (← n.toToken.setApprovalForAll sender operator approved)
  | .transferFrom from_ to_ tokenId => n.transferFrom now sender from_ to_ tokenId
  | .safeTransferFrom from_ to_ tokenId =>
      n.safeTransferFrom (received to_) now sender from_ to_ tokenId
  | .delegate delegatee => return n.setToken (← n.toToken.delegate now sender delegatee)
  | .delegateBySig delegatee nonce expiry sig =>
      return n.setToken
        (← n.toToken.delegateBySigUpgradeable c now timestamp delegatee nonce expiry sig)
  | .setMinter minter => n.setMinter sender minter
  | .lockMinter => n.lockMinter sender
  | .transferOwnership newOwner => n.transferOwnership sender newOwner
  | .renounceOwnership => n.renounceOwnership sender

end NounsTokenFork

end Nouns
