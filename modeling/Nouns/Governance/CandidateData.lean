import Nouns.Governance.TypedData
import Nouns.Lib.Transition
import Nouns.Token.NounsToken

/-!
# CandidateData — the contract that candidates are posted to

`NounsDAOData.sol`, with its owner.  What is posted is not stored: the contract logs it, and keeps
which slugs each proposer has used.  Creating and updating a candidate pay the fee on before they log,
so that outside code runs in between: a `DataFrame` holds what is left to do, and a `return_` step
does it.  A call that reverts has no effect.  Strings are their bytes.
-/

open Fallible Transition

namespace Nouns

/-- Why a call of this contract reverted; `revert` are the panics, the reverts of the token and the
`require`s with a text. -/
inductive DataRevert
  | revert (r : Revert)
  | MustBeNounerOrPaySufficientFee
  | SlugAlreadyUsed
  | SlugDoesNotExist
  | AmountExceedsBalance
  | FailedWithdrawingETH (data : Bytes)
  | InvalidSignature
  | InvalidSupportValue
deriving DecidableEq

/-- A version of a candidate, as its proposer passes it. -/
structure CandidateVersion where
  txs : ProposalData
  description : Bytes
  slug : Bytes
  proposalIdToUpdate : Word
deriving DecidableEq

inductive DataEvent
  | ProposalCandidateCreated (msgSender : Address) (version : CandidateVersion)
      (encodedProposalHash : Word)
  | ProposalCandidateUpdated (msgSender : Address) (version : CandidateVersion)
      (encodedProposalHash : Word) (reason : Bytes)
  | ProposalCandidateCanceled (msgSender : Address) (slug : Bytes)
  | SignatureAdded (signer : Address) (sig : Bytes) (expirationTimestamp : Word)
      (proposer : Address) (slug : Bytes) (proposalIdToUpdate encodedPropHash sigDigest : Word)
      (reason : Bytes)
  | FeedbackSent (msgSender : Address) (proposalId : Word) (support : Nat) (reason : Bytes)
  | CandidateFeedbackSent (msgSender proposer : Address) (slug : Bytes) (support : Nat)
      (reason : Bytes)
  | CreateCandidateCostSet (oldCreateCandidateCost newCreateCandidateCost : Nat)
  | UpdateCandidateCostSet (oldUpdateCandidateCost newUpdateCandidateCost : Nat)
  | ETHWithdrawn (to_ : Address) (amount : Nat)
  | FeeRecipientSet (oldFeeRecipient newFeeRecipient : Address)
  | OwnershipTransferred (previousOwner newOwner : Address)
deriving DecidableEq

/-- What is left to do when the account that was paid returns. -/
inductive DataFrame
  | createProposalCandidate (msgSender : Address) (version : CandidateVersion)
  | updateProposalCandidate (msgSender : Address) (version : CandidateVersion) (reason : Bytes)
  | withdrawETH (to_ : Address) (amount : Nat)

/-- The state of the contract, its balance and its log, the latest event first. -/
structure CandidateData where
  owner : Address
  createCandidateCost : Nat
  updateCandidateCost : Nat
  propCandidates : Address → Word → Bool
  feeRecipient : Address
  balance : Nat
  log : List DataEvent
  frames : List DataFrame

/-- What is fixed at deployment. -/
structure DataDeployment where
  keccak256 : Bytes → Word
  chainid : Word
  nounsDao : Address

/-- What the contract asks for during a call.  `acceptsETH` says if the account that is paid takes it,
`returnData` what it answers if it does not. -/
structure DataEnv where
  blockNumber : Nat
  nouns : NounsToken
  isValidSignatureNow : Address → Word → Bytes → Bool
  acceptsETH : Bool
  returnData : Bytes

def PRIOR_VOTES_BLOCKS_AGO : Nat := 1

/-- The public functions that change the state or log. -/
inductive DataCall
  | createProposalCandidate (msgValue : Nat) (version : CandidateVersion)
  | updateProposalCandidate (msgValue : Nat) (version : CandidateVersion) (reason : Bytes)
  | cancelProposalCandidate (slug : Bytes)
  | addSignature (sig : Bytes) (expirationTimestamp : Word) (proposer : Address) (slug : Bytes)
      (proposalIdToUpdate : Word) (encodedProp reason : Bytes)
  | sendFeedback (proposalId : Word) (support : Nat) (reason : Bytes)
  | sendCandidateFeedback (proposer : Address) (slug : Bytes) (support : Nat) (reason : Bytes)
  | setCreateCandidateCost (newCreateCandidateCost : Nat)
  | setUpdateCandidateCost (newUpdateCandidateCost : Nat)
  | setFeeRecipient (newFeeRecipient : Address)
  | withdrawETH (to_ : Address) (amount : Nat)
  | transferOwnership (newOwner : Address)
  | renounceOwnership

inductive DataAction
  | call (env : DataEnv) (msgSender : Account) (call : DataCall)
  /-- The account that was paid returns. -/
  | return_
  /-- ETH that no function of the contract receives. -/
  | forceETH (amount : Nat)

/-- The bytes whose hash stands for a version. -/
def CandidateVersion.encodedProp (keccak256 : Bytes → Word) (proposer : Address)
    (version : CandidateVersion) : Bytes :=
  let encodedProp := calcProposalEncodeData keccak256 proposer version.txs version.description
  if version.proposalIdToUpdate ≠ 0 then version.proposalIdToUpdate.toBytes ++ encodedProp
  else encodedProp

namespace CandidateData

/-- The state `initialize` leaves behind. -/
def deploy (admin : Address) (createCandidateCost updateCandidateCost : Nat)
    (feeRecipient : Address) : CandidateData where
  owner := admin
  createCandidateCost := createCandidateCost
  updateCandidateCost := updateCandidateCost
  propCandidates := fun _ _ => false
  feeRecipient := feeRecipient
  balance := 0
  log := [.OwnershipTransferred 0 admin]
  frames := []

variable (d : DataDeployment) (s : CandidateData)

def emit (e : DataEvent) : CandidateData := { s with log := e :: s.log }

def onlyOwner (msgSender : Address) : Except DataRevert Unit :=
  require (s.owner = msgSender) (.revert (.require "Ownable: caller is not the owner"))

def isNouner (env : DataEnv) (account : Address) : Tx Bool := do
  let votes ← env.nouns.getPriorVotes env.blockNumber account
    (← checkedSub env.blockNumber PRIOR_VOTES_BLOCKS_AGO)
  return decide (votes > 0)

/-- The event after the payment. -/
def finish : DataFrame → CandidateData
  | .createProposalCandidate msgSender version =>
      s.emit (.ProposalCandidateCreated msgSender version
        (d.keccak256 (version.encodedProp d.keccak256 msgSender)))
  | .updateProposalCandidate msgSender version reason =>
      s.emit (.ProposalCandidateUpdated msgSender version
        (d.keccak256 (version.encodedProp d.keccak256 msgSender)) reason)
  | .withdrawETH to_ amount => s.emit (.ETHWithdrawn to_ amount)

/-- Control goes to the account that is paid. -/
def pay (amount : Nat) (rest : DataFrame) : CandidateData :=
  { s with balance := s.balance - amount, frames := rest :: s.frames }

/-- `sendValueToRecipient` and what comes after it.  A payment that is refused leaves no trace. -/
def sendValueToRecipient (env : DataEnv) (msgValue : Nat) (rest : DataFrame) : CandidateData :=
  if msgValue > 0 ∧ s.feeRecipient ≠ 0 ∧ env.acceptsETH = true then s.pay msgValue rest
  else s.finish d rest

def setPropCandidate (proposer : Address) (slugHash : Word) : CandidateData :=
  { s with
    propCandidates := Function.update s.propCandidates proposer
      (Function.update (s.propCandidates proposer) slugHash true) }

def receive (msgValue : Nat) : CandidateData := { s with balance := s.balance + msgValue }

def createProposalCandidate (env : DataEnv) (msgSender : Address) (msgValue : Nat)
    (version : CandidateVersion) : Except DataRevert CandidateData := do
  revertIf ((← (isNouner env msgSender).mapError .revert) = false ∧
    msgValue < s.createCandidateCost) .MustBeNounerOrPaySufficientFee
  revertIf (s.propCandidates msgSender (d.keccak256 version.slug) = true) .SlugAlreadyUsed
  let s := s.setPropCandidate msgSender (d.keccak256 version.slug)
  return (s.receive msgValue).sendValueToRecipient d env msgValue
    (.createProposalCandidate msgSender version)

def updateProposalCandidate (env : DataEnv) (msgSender : Address) (msgValue : Nat)
    (version : CandidateVersion) (reason : Bytes) : Except DataRevert CandidateData := do
  revertIf ((← (isNouner env msgSender).mapError .revert) = false ∧
    msgValue < s.updateCandidateCost) .MustBeNounerOrPaySufficientFee
  revertIf (s.propCandidates msgSender (d.keccak256 version.slug) = false) .SlugDoesNotExist
  return (s.receive msgValue).sendValueToRecipient d env msgValue
    (.updateProposalCandidate msgSender version reason)

def cancelProposalCandidate (msgSender : Address) (slug : Bytes) :
    Except DataRevert CandidateData := do
  revertIf (s.propCandidates msgSender (d.keccak256 slug) = false) .SlugDoesNotExist
  return s.emit (.ProposalCandidateCanceled msgSender slug)

/-- The digest that a signer signs for what is claimed to be a new proposal or an update. -/
def signatureDigest (expirationTimestamp proposalIdToUpdate : Word) (encodedProp : Bytes) : Word :=
  let typeHash := if proposalIdToUpdate = 0 then PROPOSAL_TYPEHASH d.keccak256
    else UPDATE_PROPOSAL_TYPEHASH d.keccak256
  sigDigest d.keccak256 d.chainid typeHash encodedProp expirationTimestamp d.nounsDao

def addSignature (env : DataEnv) (msgSender : Address) (sig : Bytes) (expirationTimestamp : Word)
    (proposer : Address) (slug : Bytes) (proposalIdToUpdate : Word) (encodedProp reason : Bytes) :
    Except DataRevert CandidateData := do
  revertIf (s.propCandidates proposer (d.keccak256 slug) = false) .SlugDoesNotExist
  let sigDigest := signatureDigest d expirationTimestamp proposalIdToUpdate encodedProp
  revertIf (env.isValidSignatureNow msgSender sigDigest sig = false) .InvalidSignature
  return s.emit (.SignatureAdded msgSender sig expirationTimestamp proposer slug proposalIdToUpdate
    (d.keccak256 encodedProp) sigDigest reason)

def sendFeedback (msgSender : Address) (proposalId : Word) (support : Nat) (reason : Bytes) :
    Except DataRevert CandidateData := do
  revertIf (support > 2) .InvalidSupportValue
  return s.emit (.FeedbackSent msgSender proposalId support reason)

def sendCandidateFeedback (msgSender proposer : Address) (slug : Bytes) (support : Nat)
    (reason : Bytes) : Except DataRevert CandidateData := do
  revertIf (s.propCandidates proposer (d.keccak256 slug) = false) .SlugDoesNotExist
  revertIf (support > 2) .InvalidSupportValue
  return s.emit (.CandidateFeedbackSent msgSender proposer slug support reason)

/-! ## Functions of the owner -/

def setCreateCandidateCost (msgSender : Address) (newCreateCandidateCost : Nat) :
    Except DataRevert CandidateData := do
  s.onlyOwner msgSender
  return { s with createCandidateCost := newCreateCandidateCost }.emit
    (.CreateCandidateCostSet s.createCandidateCost newCreateCandidateCost)

def setUpdateCandidateCost (msgSender : Address) (newUpdateCandidateCost : Nat) :
    Except DataRevert CandidateData := do
  s.onlyOwner msgSender
  return { s with updateCandidateCost := newUpdateCandidateCost }.emit
    (.UpdateCandidateCostSet s.updateCandidateCost newUpdateCandidateCost)

def setFeeRecipient (msgSender newFeeRecipient : Address) : Except DataRevert CandidateData := do
  s.onlyOwner msgSender
  return { s with feeRecipient := newFeeRecipient }.emit
    (.FeeRecipientSet s.feeRecipient newFeeRecipient)

def withdrawETH (env : DataEnv) (msgSender to_ : Address) (amount : Nat) :
    Except DataRevert CandidateData := do
  s.onlyOwner msgSender
  revertIf (amount > s.balance) .AmountExceedsBalance
  revertIf (env.acceptsETH = false) (.FailedWithdrawingETH env.returnData)
  return s.pay amount (.withdrawETH to_ amount)

def setOwner (newOwner : Address) : CandidateData :=
  { s with owner := newOwner }.emit (.OwnershipTransferred s.owner newOwner)

def transferOwnership (msgSender newOwner : Address) : Except DataRevert CandidateData := do
  s.onlyOwner msgSender
  require (newOwner ≠ 0) (.revert (.require "Ownable: new owner is the zero address"))
  return s.setOwner newOwner

def renounceOwnership (msgSender : Address) : Except DataRevert CandidateData := do
  s.onlyOwner msgSender
  return s.setOwner 0

/-! ## Steps -/

def call (env : DataEnv) (msgSender : Address) : DataCall → Except DataRevert CandidateData
  | .createProposalCandidate msgValue version =>
      s.createProposalCandidate d env msgSender msgValue version
  | .updateProposalCandidate msgValue version reason =>
      s.updateProposalCandidate d env msgSender msgValue version reason
  | .cancelProposalCandidate slug => s.cancelProposalCandidate d msgSender slug
  | .addSignature sig expirationTimestamp proposer slug proposalIdToUpdate encodedProp reason =>
      s.addSignature d env msgSender sig expirationTimestamp proposer slug proposalIdToUpdate
        encodedProp reason
  | .sendFeedback proposalId support reason => s.sendFeedback msgSender proposalId support reason
  | .sendCandidateFeedback proposer slug support reason =>
      s.sendCandidateFeedback d msgSender proposer slug support reason
  | .setCreateCandidateCost cost => s.setCreateCandidateCost msgSender cost
  | .setUpdateCandidateCost cost => s.setUpdateCandidateCost msgSender cost
  | .setFeeRecipient newFeeRecipient => s.setFeeRecipient msgSender newFeeRecipient
  | .withdrawETH to_ amount => s.withdrawETH env msgSender to_ amount
  | .transferOwnership newOwner => s.transferOwnership msgSender newOwner
  | .renounceOwnership => s.renounceOwnership msgSender

def step : DataAction → Except DataRevert CandidateData
  | .call env msgSender call => s.call d env msgSender call
  | .return_ =>
      match s.frames with
      | [] => throw (.revert .callFailed)
      | frame :: frames => return { s with frames }.finish d frame
  | .forceETH amount => return s.receive amount

def Init (s : CandidateData) : Prop :=
  ∃ admin createCandidateCost updateCandidateCost feeRecipient,
    s = deploy admin createCandidateCost updateCandidateCost feeRecipient

/-- A step by an action that is allowed. -/
def Next (allowed : CandidateData → DataAction → Prop) (s s' : CandidateData) : Prop :=
  ∃ a, allowed s a ∧ s.step d a = .ok s'

end CandidateData

end Nouns
