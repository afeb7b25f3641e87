import Nouns.Governance.CandidateLogs
import Nouns.Subgraph.Records

/-!
# Candidates — the entities of candidates

`nouns-dao-data.ts`, and what `nouns-dao.ts` does to its entities when a signature is cancelled or a
version of a proposal is captured.  The entities are beside the `Records`, whose delegates some of the
handlers read or create.  A field that is not set yet cannot be read, and a required one cannot be
saved: `none` is an abort of the indexing.
-/

open EntityStore EntityStore.Table

namespace Nouns.Subgraph

/-! ## Entities -/

structure ProposalCandidate where
  proposer : Address
  slug : String
  createdTransactionHash : Word
  createdTimestamp : Nat
  createdBlock : Nat
  lastUpdatedTimestamp : Nat
  lastUpdatedBlock : Nat
  canceled : Bool
  canceledTimestamp : Option Nat
  canceledBlock : Option Nat
  latestVersion : List Char
  number : Int
deriving DecidableEq

structure ProposalCandidateVersion where
  proposal : List Char
  createdTimestamp : Nat
  createdBlock : Nat
  updateMessage : String
  content : List Char
deriving DecidableEq

structure ProposalCandidateContent extends ProposalTxs where
  proposer : Address
  description : String
  proposalIdToUpdate : Nat
  title : String
  encodedProposalHash : Word
  matchingProposalIds : List Nat
deriving DecidableEq

structure ProposalCandidateSignature where
  content : List Char
  signer : Address
  sig : Bytes
  expirationTimestamp : Nat
  encodedProposalHash : Word
  sigDigest : Word
  reason : String
  canceled : Bool
  createdTimestamp : Nat
  createdBlock : Nat
deriving DecidableEq

structure ProposalFeedback where
  createdTimestamp : Nat
  createdBlock : Nat
  proposal : List Char
  voter : Address
  supportDetailed : Nat
  votes : Int
  reason : String
deriving DecidableEq

structure CandidateFeedback where
  createdTimestamp : Nat
  createdBlock : Nat
  candidate : List Char
  voter : Address
  supportDetailed : Nat
  votes : Int
  reason : String
deriving DecidableEq

/-- `candidateCount` is the field `candidates` of the governance entity. -/
structure CandidateStore where
  records : Records
  candidateCount : Int
  candidates : Table (List Char) ProposalCandidate
  versions : Table (List Char) ProposalCandidateVersion
  contents : Table (List Char) ProposalCandidateContent
  signatures : Table (List Char) ProposalCandidateSignature
  proposalFeedbacks : Table (List Char) ProposalFeedback
  candidateFeedbacks : Table (List Char) CandidateFeedback

/-! ## Events -/

/-- An event of the contract for candidates and where it stands. -/
structure DataLogEvent where
  txHash : Word
  logIndex : Nat
  block : Block
  event : DataEvent

/-- An event that the subgraph indexes. -/
inductive IndexedEvent
  | record (e : LogEvent)
  | data (e : DataLogEvent)

variable (G : GraphTs)

/-- `candidateID`. -/
def candidateID (proposer : Address) (slug : String) : List Char :=
  G.bytesToHex (ProposalContent.addressBytes proposer) ++ '-' :: slug.toList

/-- The id of a content. -/
def contentID (encodedProposalHash : Word) : List Char := G.bytesToHex encodedProposalHash.toBytes

/-- The id of a signature. -/
def signatureID (signer : Address) (sig : Bytes) : List Char :=
  G.bytesToHex (ProposalContent.addressBytes signer) ++ '-' :: G.bytesToHex sig

/-- The transaction hash and the log index. -/
def DataLogEvent.versionId (e : DataLogEvent) : List Char :=
  LogEvent.versionIdOf (G.bytesToHex e.txHash.toBytes) (G.bigIntToString e.logIndex)

/-- The parameters of an event as they are read. -/
def readTxs (txs : ProposalData) : ProposalTxs where
  targets := txs.targets
  values := txs.values.map Word.toNat
  signatures := txs.signatures.map G.decodeString
  calldatas := txs.calldatas

namespace CandidateStore

def empty : CandidateStore where
  records := .empty
  candidateCount := 0
  candidates := .empty
  versions := .empty
  contents := .empty
  signatures := .empty
  proposalFeedbacks := .empty
  candidateFeedbacks := .empty

variable (s : CandidateStore) (e : DataLogEvent)

def setStore (store : Store) : CandidateStore := { s with records := { s.records with store } }

def saveCandidate (id : List Char) (candidate : ProposalCandidate) : CandidateStore :=
  { s with candidates := s.candidates.save id candidate }

def saveVersion (id : List Char) (version : ProposalCandidateVersion) : CandidateStore :=
  { s with versions := s.versions.save id version }

def saveContent (id : List Char) (content : ProposalCandidateContent) : CandidateStore :=
  { s with contents := s.contents.save id content }

def saveSignature (id : List Char) (signature : ProposalCandidateSignature) : CandidateStore :=
  { s with signatures := s.signatures.save id signature }

/-! ## Helpers -/

/-- A new entity has no fields, and is counted. -/
def getOrCreateProposalCandidate (id : List Char) : CandidateStore × Option ProposalCandidate :=
  match s.candidates.load id with
  | some candidate => (s, some candidate)
  | none =>
    let store := s.records.store
    ({ s.setStore (store.saveGovernance store.getGovernanceEntity) with
        candidateCount := s.candidateCount + 1 }, none)

def getCandidateIndex : Int := s.candidateCount

def getOrCreateDelegate (id : Address) : CandidateStore × Delegate :=
  let (store, delegate) := s.records.store.getOrCreateDelegate id
  (s.setStore store, delegate)

def captureProposalCandidateVersion (candidateId : List Char) (version : CandidateVersion)
    (encodedProposalHash : Word) (proposer : Address) (updateMessage : String) : CandidateStore :=
  let description := G.decodeString version.description
  let s := s.saveContent (contentID G encodedProposalHash)
    { toProposalTxs := readTxs G version.txs
      description := description
      proposalIdToUpdate := version.proposalIdToUpdate.toNat
      title := extractTitle description
      proposer := proposer
      encodedProposalHash := encodedProposalHash
      matchingProposalIds := [] }
  s.saveVersion (e.versionId G)
    { content := contentID G encodedProposalHash
      proposal := candidateId
      createdTimestamp := e.block.timestamp
      createdBlock := e.block.number
      updateMessage := updateMessage }

/-! ## Handlers -/

def handleProposalCandidateCreated (msgSender : Address) (version : CandidateVersion)
    (encodedProposalHash : Word) : CandidateStore :=
  let id := candidateID G msgSender (G.decodeString version.slug)
  let (s, candidate) := s.getOrCreateProposalCandidate id
  let number := s.getCandidateIndex
  let s := s.captureProposalCandidateVersion G e id version encodedProposalHash msgSender ""
  s.saveCandidate id
    { proposer := msgSender
      slug := G.decodeString version.slug
      createdTransactionHash := e.txHash
      createdTimestamp := e.block.timestamp
      createdBlock := e.block.number
      lastUpdatedTimestamp := e.block.timestamp
      lastUpdatedBlock := e.block.number
      canceled := false
      canceledTimestamp := candidate.bind (·.canceledTimestamp)
      canceledBlock := candidate.bind (·.canceledBlock)
      latestVersion := e.versionId G
      number := number }

def handleProposalCandidateUpdated (msgSender : Address) (version : CandidateVersion)
    (encodedProposalHash : Word) (reason : Bytes) : Option CandidateStore := do
  let id := candidateID G msgSender (G.decodeString version.slug)
  let (s, candidate) := s.getOrCreateProposalCandidate id
  let candidate ← candidate
  let s := s.captureProposalCandidateVersion G e id version encodedProposalHash candidate.proposer
    (G.decodeString reason)
  return s.saveCandidate id
    { candidate with
      lastUpdatedTimestamp := e.block.timestamp
      lastUpdatedBlock := e.block.number
      latestVersion := e.versionId G }

def handleProposalCandidateCanceled (msgSender : Address) (slug : Bytes) :
    Option CandidateStore := do
  let id := candidateID G msgSender (G.decodeString slug)
  let (s, candidate) := s.getOrCreateProposalCandidate id
  return s.saveCandidate id
    { ← candidate with
      canceled := true
      canceledTimestamp := some e.block.timestamp
      canceledBlock := some e.block.number }

/-- A signature under something else than the latest version is not stored.  One that is stored again
stays cancelled. -/
def handleSignatureAdded (signer : Address) (sig : Bytes) (expirationTimestamp : Word)
    (proposer : Address) (slug : Bytes) (encodedPropHash sigDigest : Word) (reason : Bytes) :
    Option CandidateStore := do
  let candidateSig := s.signatures.load (signatureID G signer sig)
  let (s, candidate) := s.getOrCreateProposalCandidate
    (candidateID G proposer (G.decodeString slug))
  let latestVersion ← s.versions.load (← candidate).latestVersion
  let latestContent ← s.contents.load latestVersion.content
  if latestContent.encodedProposalHash ≠ encodedPropHash then return s
  let s := (s.getOrCreateDelegate signer).1
  return s.saveSignature (signatureID G signer sig)
    { content := latestVersion.content
      signer := signer
      sig := sig
      expirationTimestamp := expirationTimestamp.toNat
      encodedProposalHash := encodedPropHash
      sigDigest := sigDigest
      reason := G.decodeString reason
      canceled := (candidateSig.map (·.canceled)).getD false
      createdBlock := e.block.number
      createdTimestamp := e.block.timestamp }

def handleFeedbackSent (msgSender : Address) (proposalId : Word) (support : Nat) (reason : Bytes) :
    CandidateStore :=
  let (s, delegate) := s.getOrCreateDelegate msgSender
  { s with
    proposalFeedbacks := s.proposalFeedbacks.save (e.versionId G)
      { createdTimestamp := e.block.timestamp
        createdBlock := e.block.number
        proposal := G.bigIntToString proposalId.toNat
        voter := msgSender
        supportDetailed := support
        votes := delegate.delegatedVotes
        reason := G.decodeString reason } }

def handleCandidateFeedbackSent (msgSender proposer : Address) (slug : Bytes) (support : Nat)
    (reason : Bytes) : CandidateStore :=
  let (s, delegate) := s.getOrCreateDelegate msgSender
  { s with
    candidateFeedbacks := s.candidateFeedbacks.save (e.versionId G)
      { createdTimestamp := e.block.timestamp
        createdBlock := e.block.number
        candidate := candidateID G proposer (G.decodeString slug)
        voter := msgSender
        supportDetailed := support
        votes := delegate.delegatedVotes
        reason := G.decodeString reason } }

/-- The handlers of `subgraph.yaml` for `NounsDAOData`. -/
def handleData : Option CandidateStore :=
  match e.event with
  | .ProposalCandidateCreated msgSender version encodedProposalHash =>
      some (s.handleProposalCandidateCreated G e msgSender version encodedProposalHash)
  | .ProposalCandidateUpdated msgSender version encodedProposalHash reason =>
      s.handleProposalCandidateUpdated G e msgSender version encodedProposalHash reason
  | .ProposalCandidateCanceled msgSender slug => s.handleProposalCandidateCanceled G e msgSender slug
  | .SignatureAdded signer sig expirationTimestamp proposer slug _ encodedPropHash sigDigest reason =>
      s.handleSignatureAdded G e signer sig expirationTimestamp proposer slug encodedPropHash
        sigDigest reason
  | .FeedbackSent msgSender proposalId support reason =>
      some (s.handleFeedbackSent G e msgSender proposalId support reason)
  | .CandidateFeedbackSent msgSender proposer slug support reason =>
      some (s.handleCandidateFeedbackSent G e msgSender proposer slug support reason)
  | _ => some s

/-! ## Events of the DAO -/

def handleSignatureCanceled (signer : Address) (sig : Bytes) : CandidateStore :=
  match s.signatures.load (signatureID G signer sig) with
  | none => s
  | some signature => s.saveSignature (signatureID G signer sig) { signature with canceled := true }

variable (keccak256 : Bytes → Word)

/-- The fields of an indexed proposal that its hash is computed from. -/
def proposalContent (proposal : Proposal) (text : ProposalText) : ProposalContent where
  id := G.bigIntToString proposal.id
  proposer := G.bytesToHex (ProposalContent.addressBytes proposal.proposer)
  targets := proposal.targets.map ProposalContent.addressBytes
  values := proposal.values
  signatures := proposal.signatures
  calldatas := proposal.calldatas
  description := text.description

/-- Of the proposal with this id, whose version was just captured. -/
def markProposalCandidateIfExists (id : Nat) (isUpdate : Bool) : Option CandidateStore := do
  let proposal ← s.records.store.proposals.load id
  let text ← s.records.texts.load id
  let hash ← ProposalContent.calcEncodedProposalHash G keccak256 (proposalContent G proposal text)
    isUpdate
  match s.contents.load (contentID G hash) with
  | none => return s
  | some candidate =>
    return s.saveContent (contentID G hash)
      { candidate with matchingProposalIds := candidate.matchingProposalIds ++ [proposal.id] }

def handleRecord (e : LogEvent) : Option CandidateStore := do
  let records ← s.records.handle G e
  let s := { s with records }
  match e.event with
  | .proposalCreatedV1 _ id _ _ _ _ _ _ _ => s.markProposalCandidateIfExists G keccak256 id false
  | .dao _ (.ProposalCreatedWithRequirements id _ _ _ _ _ _ _ _ _) =>
      s.markProposalCandidateIfExists G keccak256 id false
  | .dao _ (.ProposalUpdated id _ _ _ _) => s.markProposalCandidateIfExists G keccak256 id true
  | .dao _ (.ProposalTransactionsUpdated id _ _ _) =>
      s.markProposalCandidateIfExists G keccak256 id true
  | .dao _ (.ProposalDescriptionUpdated id _ _ _) =>
      s.markProposalCandidateIfExists G keccak256 id true
  | .dao _ (.SignatureCancelled signer sig) => some (s.handleSignatureCanceled G signer sig)
  | _ => some s

def handle : IndexedEvent → Option CandidateStore
  | .record e => s.handleRecord G keccak256 e
  | .data e => s.handleData G e

end CandidateStore

/-- The entities after these events, of which the latest comes first. -/
def candidatesIndexed (keccak256 : Bytes → Word) : List IndexedEvent → Option CandidateStore
  | [] => some CandidateStore.empty
  | e :: events => do (← candidatesIndexed keccak256 events).handle G keccak256 e

end Nouns.Subgraph
