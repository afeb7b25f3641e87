import Nouns.Governance.Storage

/-!
# DynamicQuorum — the quorum of a proposal

`NounsDAOV3DynamicQuorum`: parameters are looked up at the creation block of the proposal, and the
quorum grows with the votes against it.
-/

open Fallible Checkpoints

namespace Nouns

def bps2Uint (bps number : Nat) : Nat := (number * bps) / 10000

def safe32 (n : Nat) (reason : String) : Tx Nat := do
  require (n < 2 ^ 32) (.require reason)
  return n

def safe16 (n : Nat) : Tx Nat := do
  revertIf (n ≥ 2 ^ 16) .UnsafeUint16Cast
  return n

def dynamicQuorumVotes (againstVotes totalSupply : Nat) (params : DynamicQuorumParams) :
    Tx Nat := do
  require (totalSupply ≠ 0) .panic
  let againstVotesBPS := (10000 * againstVotes) / totalSupply
  let quorumAdjustmentBPS := (params.quorumCoefficient * againstVotesBPS) / 1000000
  let adjustedQuorumBPS := params.minQuorumVotesBPS + quorumAdjustmentBPS
  let quorumBPS := min params.maxQuorumVotesBPS adjustedQuorumBPS
  return bps2Uint quorumBPS totalSupply

namespace ProposalStorage

variable (ds : ProposalStorage)

/-- The parameters before the first checkpoint. -/
def defaultQuorumParams : Tx DynamicQuorumParams := do
  return {
    minQuorumVotesBPS := ← safe16 ds.quorumVotesBPS
    maxQuorumVotesBPS := ← safe16 ds.quorumVotesBPS
    quorumCoefficient := 0 }

def getDynamicQuorumParamsAt (blockNumber : Nat) : Tx DynamicQuorumParams := do
  let blockNumber ← safe32 blockNumber
    "NounsDAO::getDynamicQuorumParamsAt: block number exceeds 32 bits"
  match lookup ds.quorumParamsCheckpoints blockNumber with
  | some params => return params
  | none => ds.defaultQuorumParams

def quorumVotes (proposalId : Nat) : Tx Nat := do
  let proposal := ds.proposals proposalId
  if proposal.totalSupply = 0 then return proposal.quorumVotes
  else
    let params ← ds.getDynamicQuorumParamsAt proposal.creationBlock
    dynamicQuorumVotes proposal.againstVotes proposal.totalSupply params

def minQuorumVotes (now adjustedTotalSupply : Nat) : Tx Nat := do
  return bps2Uint (← ds.getDynamicQuorumParamsAt now).minQuorumVotesBPS adjustedTotalSupply

def maxQuorumVotes (now adjustedTotalSupply : Nat) : Tx Nat := do
  return bps2Uint (← ds.getDynamicQuorumParamsAt now).maxQuorumVotesBPS adjustedTotalSupply

end ProposalStorage

/-! ## Overflow

Solidity checks every operation on `uint256`.  The development computes with `Nat` otherwise: votes
and supplies count tokens.  Here the checks are written out, for vote counts of any size. -/

def bps2UintChecked (bps number : Nat) : Tx Nat := do
  return (← checked 256 (number * bps)) / 10000

def dynamicQuorumVotesChecked (againstVotes totalSupply : Nat) (params : DynamicQuorumParams) :
    Tx Nat := do
  let product ← checked 256 (10000 * againstVotes)
  require (totalSupply ≠ 0) .panic
  let againstVotesBPS := product / totalSupply
  let quorumAdjustmentBPS := (← checked 256 (params.quorumCoefficient * againstVotesBPS)) / 1000000
  let adjustedQuorumBPS ← checked 256 (params.minQuorumVotesBPS + quorumAdjustmentBPS)
  let quorumBPS := min params.maxQuorumVotesBPS adjustedQuorumBPS
  bps2UintChecked quorumBPS totalSupply

def ProposalStorage.quorumVotesChecked (ds : ProposalStorage) (proposalId : Nat) : Tx Nat := do
  let proposal := ds.proposals proposalId
  if proposal.totalSupply = 0 then return proposal.quorumVotes
  else
    let params ← ds.getDynamicQuorumParamsAt proposal.creationBlock
    dynamicQuorumVotesChecked proposal.againstVotes proposal.totalSupply params

/-- The checks only ever refuse. -/
theorem dynamicQuorumVotes_of_checked {againstVotes totalSupply votes : Nat}
    {params : DynamicQuorumParams}
    (h : dynamicQuorumVotesChecked againstVotes totalSupply params = .ok votes) :
    dynamicQuorumVotes againstVotes totalSupply params = .ok votes := by
  simp only [dynamicQuorumVotesChecked, bps2UintChecked, bind_eq_ok, checked_eq_ok, require_eq_ok,
    pure_eq_ok] at h
  obtain ⟨_, ⟨-, rfl⟩, _, hsupply, _, ⟨-, rfl⟩, _, ⟨-, rfl⟩, _, ⟨-, rfl⟩, rfl⟩ := h
  simp only [dynamicQuorumVotes, bind_eq_ok, require_eq_ok, pure_eq_ok]
  exact ⟨(), hsupply, rfl⟩

theorem ProposalStorage.quorumVotes_of_checked {ds : ProposalStorage} {id votes : Nat}
    (h : ds.quorumVotesChecked id = .ok votes) : ds.quorumVotes id = .ok votes := by
  simp only [quorumVotesChecked] at h
  simp only [quorumVotes]
  split at h
  · rename_i hzero
    rw [if_pos hzero]
    exact h
  · rename_i hsupply
    obtain ⟨params, hparams, h⟩ := bind_eq_ok.mp h
    rw [if_neg hsupply, hparams]
    exact dynamicQuorumVotes_of_checked h

end Nouns
