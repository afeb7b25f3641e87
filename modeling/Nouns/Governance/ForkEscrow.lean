import Nouns.Token.NounsToken

/-!
# ForkEscrow — Nouns waiting for a fork

`NounsDAOForkEscrow`.  Its owner and its token are immutable; the functions that move tokens are
given the token and return it with the escrow.
-/

open Fallible

namespace Nouns

structure ForkEscrow where
  forkId : Nat
  escrowedTokensByForkId : Nat → Nat → Address
  numTokensInEscrow : Nat

namespace ForkEscrow

/-- The constructor. -/
def deploy : ForkEscrow where
  forkId := 0
  escrowedTokensByForkId := fun _ _ => 0
  numTokensInEscrow := 0

variable (e : ForkEscrow)

def currentOwnerOf (dao : Address) (tokenId : Nat) : Address :=
  let owner := e.escrowedTokensByForkId e.forkId tokenId
  if owner = 0 then dao else owner

def setEscrowed (tokenId : Nat) (owner : Address) : ForkEscrow :=
  { e with
    escrowedTokensByForkId := Function.update e.escrowedTokensByForkId e.forkId
      (Function.update (e.escrowedTokensByForkId e.forkId) tokenId owner) }

theorem setEscrowed_entry (id : Nat) (a : Address) (f tokenId : Nat) :
    (e.setEscrowed id a).escrowedTokensByForkId f tokenId =
      if f = e.forkId ∧ tokenId = id then a else e.escrowedTokensByForkId f tokenId := by
  simp only [setEscrowed, Function.update_apply]
  by_cases hf : f = e.forkId
  · subst hf
    by_cases hid : tokenId = id
    · simp [hid]
    · simp [hid]
  · simp [hf]

@[simp] theorem setEscrowed_forkId (id : Nat) (a : Address) :
    (e.setEscrowed id a).forkId = e.forkId := rfl

/-- Called by the token; `operator` is who asked the token for the transfer. -/
def onERC721Received (dao operator from_ : Address) (tokenId : Nat) : Tx ForkEscrow := do
  revertIf (operator ≠ dao) .OnlyDAO
  let e := e.setEscrowed tokenId from_
  return { e with numTokensInEscrow := e.numTokensInEscrow + 1 }

def closeEscrow : ForkEscrow := { e with numTokensInEscrow := 0, forkId := e.forkId + 1 }

/-- The tokens sit at `this`, the address of the escrow. -/
def numTokensOwnedByDAO (nouns : Token) (this : Address) : Tx Nat := do
  checkedSub (← nouns.balanceOf this) e.numTokensInEscrow

section Transfers

variable (proxies : Address → Address) (now : Nat) (dao this : Address) (nouns : NounsToken)

def returnTokensToOwner (owner : Address) (tokenIds : List Nat) : Tx (ForkEscrow × NounsToken) := do
  let (e, nouns) ← tokenIds.foldlM (fun (e, nouns) tokenId => do
    revertIf (e.currentOwnerOf dao tokenId ≠ owner) .NotOwner
    let nouns ← NounsToken.transferFrom nouns proxies now this this owner tokenId
    return (e.setEscrowed tokenId 0, nouns)) (e, nouns)
  let remaining ← checkedSub e.numTokensInEscrow tokenIds.length
  return ({ e with numTokensInEscrow := remaining }, nouns)

def withdrawTokens (tokenIds : List Nat) (to_ : Address) : Tx NounsToken :=
  tokenIds.foldlM (fun nouns tokenId => do
    revertIf (e.currentOwnerOf dao tokenId ≠ dao) .NotOwner
    NounsToken.transferFrom nouns proxies now this this to_ tokenId) nouns

end Transfers

end ForkEscrow

end Nouns
