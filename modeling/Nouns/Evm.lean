import Mathlib.Algebra.Group.Nat.Defs
import Mathlib.Data.Fintype.Basic
import Mathlib.Data.Fin.Basic
import Mathlib.Data.List.Nodup
import Nouns.Lib.Fallible

/-!
# Evm — addresses, reverts and hashed messages

`uint256` quantities are `Nat`: they are block numbers, timestamps, token counts and basis points,
far from the word size.  Narrower integers carry the range check the source makes on them.

`keccak256` is a parameter.  Its argument is the structured data the source encodes and hashes, so
injectivity of `Crypto.keccak256` says that neither the hash nor the encoding collides.
-/

namespace Nouns

def Address : Type := Fin (2 ^ 160)

instance : DecidableEq Address := inferInstanceAs (DecidableEq (Fin (2 ^ 160)))
instance : Fintype Address := inferInstanceAs (Fintype (Fin (2 ^ 160)))
instance (n : Nat) : OfNat Address n := ⟨Fin.ofNat (2 ^ 160) n⟩
instance : Inhabited Address := ⟨0⟩

/-- An address that can be `msg.sender`. -/
abbrev Account : Type := { a : Address // a ≠ 0 }

theorem Address.five_ne_zero : (5 : Address) ≠ 0 := by decide
theorem Address.seven_ne_zero : (7 : Address) ≠ 0 := by decide
theorem Address.eight_ne_zero : (8 : Address) ≠ 0 := by decide

abbrev Bytes : Type := List UInt8

/-- Why a call reverted: a custom error of the source, a `require` or `revert` with its text, a
failed checked operation or array access, or a low-level call that failed. -/
inductive Revert
  | require (reason : String)
  | panic
  | callFailed
  | AdminOnly | VetoerOnly | PendingVetoerOnly | VetoerBurned
  | CanOnlyInitializeOnce | InvalidTimelockAddress | InvalidNounsAddress
  | InvalidMinQuorumVotesBPS | InvalidMaxQuorumVotesBPS | MinQuorumBPSGreaterThanMaxQuorumBPS
  | ForkPeriodTooLong | ForkPeriodTooShort
  | InvalidObjectionPeriodDurationInBlocks | InvalidProposalUpdatablePeriodInBlocks
  | VoteSnapshotSwitchAlreadySet | DuplicateTokenAddress
  | UnsafeUint16Cast
  | CantCancelExecutedProposal
  | CantCancelProposalAtFinalState | ProposalInfoArityMismatch | MustProvideActions
  | TooManyActions | ProposerAlreadyHasALiveProposal | InvalidSignature | SignatureExpired
  | CanOnlyEditUpdatableProposals | OnlyProposerCanEdit | SignerCountMismtach
  | ProposerCannotUpdateProposalWithSigners | MustProvideSignatures | SignatureIsCancelled
  | CannotExecuteDuringForkingPeriod | CantVetoExecutedProposal | VotesBelowProposalThreshold
  | CanOnlyVoteAgainstDuringObjectionPeriod
  | ForkThresholdNotMet | ForkPeriodNotActive | ForkPeriodActive | UseAlternativeWithdrawFunction
  | OnlyDAO | OnlyNounsToken | NotOwner
  | OnlyTokenOwnerCanClaim | OnlyOriginalDAO | OnlyDuringForkingPeriod
  | WaitingForTokensToClaimOrExpiration | GovernanceBlockedDuringForkingPeriod
  | TokensMustBeASubsetOfWhitelistedTokens
  | EmptyBytes | BadDecompressedLength | BadImageCount | ImageNotFound
deriving DecidableEq, Repr

/-- A call that returns an `α` or reverts. -/
abbrev Tx (α : Type) : Type := Except Revert α

/-- The cast of a checked operation on an unsigned integer of `bits` bits. -/
def checked (bits n : Nat) : Tx Nat :=
  if n < 2 ^ bits then .ok n else .error .panic

@[simp] theorem checked_eq_ok {bits n m : Nat} : checked bits n = .ok m ↔ n < 2 ^ bits ∧ n = m := by
  unfold checked
  split <;> simp_all

/-- Checked subtraction. -/
def checkedSub (a b : Nat) : Tx Nat :=
  if b ≤ a then .ok (a - b) else .error .panic

@[simp] theorem checkedSub_eq_ok {a b c : Nat} : checkedSub a b = .ok c ↔ b ≤ a ∧ a - b = c := by
  unfold checkedSub
  split <;> simp_all

/-! ## Arrays -/

def getAt {α : Type} (array : List α) (i : Nat) : Tx α :=
  match array[i]? with
  | some a => .ok a
  | none => .error .panic

def setAt {α : Type} (array : List α) (i : Nat) (a : α) : Tx (List α) :=
  if i < array.length then .ok (array.set i a) else .error .panic

section

variable {α : Type} {array array' : List α} {i : Nat} {a : α}

theorem getAt_eq_ok : getAt array i = .ok a ↔ array[i]? = some a := by
  unfold getAt
  cases array[i]? with
  | none => simp
  | some b => simp

theorem setAt_eq_ok : setAt array i a = .ok array' ↔ i < array.length ∧ array.set i a = array' := by
  unfold setAt
  by_cases h : i < array.length <;> simp [h]

end

/-- Reverts if two entries are the same: each is compared with all entries after it. -/
def checkDistinct (addresses : List Address) (e : Revert) : Tx PUnit :=
  (List.range (addresses.length - 1)).forM fun i =>
    (List.range' (i + 1) (addresses.length - (i + 1))).forM fun j =>
      Fallible.revertIf (addresses[i]? = addresses[j]?) e

theorem nodup_of_checkDistinct {addresses : List Address} {e : Revert} {u : PUnit}
    (h : checkDistinct addresses e = .ok u) : addresses.Nodup := by
  rw [List.nodup_iff_getElem?_ne_getElem?]
  intro i j hij hj
  have hi : i ∈ List.range (addresses.length - 1) := by
    rw [List.mem_range]
    omega
  have hj' : j ∈ List.range' (i + 1) (addresses.length - (i + 1)) := by
    rw [List.mem_range'_1]
    omega
  exact (Fallible.revertIf_eq_ok _ _ _).mp (Fallible.forM_ok (Fallible.forM_ok h hi) hj')

/-! ## Transactions and messages -/

/-- The arguments of the timelock's `queueTransaction`, `cancelTransaction` and
`executeTransaction`. -/
structure Transaction where
  target : Address
  value : Nat
  signature : String
  data : Bytes
  eta : Nat
deriving DecidableEq

/-- The four parallel arrays of a proposal. -/
structure ProposalTxs where
  targets : List Address
  values : List Nat
  signatures : List String
  calldatas : List Bytes
deriving DecidableEq

/-- What the contracts hash: a timelock transaction, a raw signature, or an EIP-712 message under
the domain separator of the contract that checks it. -/
inductive Preimage
  | transaction (tx : Transaction)
  | signature (sig : Bytes)
  | ballot (proposalId support : Nat)
  | delegation (delegatee : Address) (nonce expiry : Nat)
  | proposal (proposer : Address) (txs : ProposalTxs) (description : String) (expiry : Nat)
  | updateProposal (proposalId : Nat) (proposer : Address) (txs : ProposalTxs)
      (description : String) (expiry : Nat)
deriving DecidableEq

/-- The precompiles: `ecrecover` answers the zero address on an invalid signature. -/
structure Crypto (H : Type) where
  keccak256 : Preimage → H
  ecrecover : H → Bytes → Address

/-- A sample instance: a hash is its preimage, and a signature is the one-byte address of its
signer. -/
def Crypto.transparent : Crypto Preimage where
  keccak256 := id
  ecrecover := fun _ sig =>
    match sig with
    | [signer] => Fin.ofNat (2 ^ 160) signer.toNat
    | _ => 0

/-- What contracts outside the development answer: contract wallets on signatures, the OpenSea
registry on proxies, and receivers of a safe transfer.  It may change at any time. -/
structure Outside (H : Type) where
  isValidSignatureNow : Address → H → Bytes → Bool
  proxies : Address → Address
  acceptsERC721 : Address → Bool

end Nouns
