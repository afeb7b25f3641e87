import Nouns.Subgraph.ContentHash
import Nouns.Subgraph.DAOHandlers

/-!
# Records — bids and versions of proposals

The entities that `nouns-auction-house.ts` and `captureProposalVersion` of `nouns-dao.ts` save, by ids
made of the transaction hash and the log index of an event.  Ids are strings.  The candidates that a
version marks are left out.
-/

open EntityStore EntityStore.Table

namespace Nouns.Subgraph

/-! ## Titles -/

/-- White space, which `trim` takes away. -/
def isSpace (c : Char) : Bool :=
  let n := c.toNat
  n = 0x20 ∨ n = 0xA0 ∨ (0x09 ≤ n ∧ n ≤ 0x0D) ∨ (0x2000 ≤ n ∧ n ≤ 0x200A) ∨
    n ∈ [0x1680, 0x2028, 0x2029, 0x202F, 0x205F, 0x3000, 0xFEFF]

def trim (s : List Char) : List Char :=
  ((s.dropWhile isSpace).reverse.dropWhile isSpace).reverse

/-- `s.replaceAll('cc', '')`. -/
def removePairs (c : Char) : List Char → List Char
  | [] => []
  | [c'] => [c']
  | c' :: c'' :: s =>
    if c' = c ∧ c'' = c then removePairs c s else c' :: removePairs c (c'' :: s)

/-- The markdown title of a description. -/
def extractTitle (description : String) : String :=
  let splitDescription := (description.toList.splitOn '#').take 3
  let splitDescription := if splitDescription.length > 1 then splitDescription.drop 1
    else splitDescription
  let title := trim ((splitDescription.flatten.splitOn '\n').take 1).flatten
  let title := removePairs '_' (removePairs '*' title)
  if title = [] then "Untitled" else .ofList title

/-! ## Entities -/

structure Auction where
  noun : Nat
  amount : Nat
  startTime : Nat
  endTime : Nat
  settled : Bool
  bidder : Option Address
deriving DecidableEq

structure Bid where
  noun : Nat
  amount : Nat
  bidder : Address
  blockNumber : Nat
  txIndex : Nat
  auction : Nat
  blockTimestamp : Nat
deriving DecidableEq

/-- The texts of a proposal. -/
structure ProposalText where
  title : String
  description : String
deriving DecidableEq

structure ProposalVersion extends ProposalTxs, ProposalText where
  proposal : Nat
  createdBlock : Nat
  createdAt : Nat
  updateMessage : String
deriving DecidableEq

structure Records where
  store : Store
  texts : Table Nat ProposalText
  auctions : Table Nat Auction
  bids : Table (List Char) Bid
  versions : Table (List Char) ProposalVersion

/-! ## Events -/

inductive RecordEvent
  | AuctionCreated (nounId startTime endTime : Nat)
  | AuctionBid (txIndex : Nat) (block : Block) (nounId : Nat) (sender : Address) (value : Nat)
  | AuctionExtended (nounId endTime : Nat)
  | AuctionSettled (nounId : Nat)
  | token (e : TokenEvent)
  | dao (block : Block) (e : DAOEvent)
  /-- `ProposalCreatedWithRequirements` of the first two versions of the DAO. -/
  | proposalCreatedV1 (block : Block) (id : Nat) (proposer : Address) (txs : ProposalTxs)
      (startBlock endBlock proposalThreshold quorumVotes : Nat) (description : String)

/-- An event and where it stands. -/
structure LogEvent where
  txHash : Word
  logIndex : Nat
  event : RecordEvent

namespace LogEvent

variable (G : GraphTs) (e : LogEvent)

/-- `event.transaction.hash.toHexString()`. -/
def hexHash : List Char := G.bytesToHex e.txHash.toBytes

def bidId : List Char := e.hexHash G

/-- The id that `captureProposalVersion` makes. -/
def versionIdOf (txHash logIndex : List Char) : List Char := txHash ++ '-' :: logIndex

/-- Where the event stands in the chain. -/
def place : Word × Nat := (e.txHash, e.logIndex)

/-- One of the three events of updates. -/
def updates : Bool :=
  match e.event with
  | .dao _ (.ProposalUpdated ..) => true
  | .dao _ (.ProposalDescriptionUpdated ..) => true
  | .dao _ (.ProposalTransactionsUpdated ..) => true
  | _ => false

/-- `ProposalCreatedWithRequirements` of the third version of the DAO. -/
def createsV3 : Bool :=
  match e.event with
  | .dao _ (.ProposalCreatedWithRequirements ..) => true
  | _ => false

end LogEvent

/-- The fields of `ParsedProposalV3` that are for the version. -/
structure ParsedIds where
  txHash : List Char := []
  logIndex : List Char := []

def ParsedIds.fromV1Event (G : GraphTs) (e : LogEvent) : ParsedIds where
  txHash := e.hexHash G
  logIndex := G.bigIntToString e.logIndex

/-- `logIndex` is as the class initializes it. -/
def ParsedIds.fromV3Event (G : GraphTs) (e : LogEvent) : ParsedIds where
  txHash := e.hexHash G

namespace Records

def empty : Records where
  store := .empty
  texts := .empty
  auctions := .empty
  bids := .empty
  versions := .empty

variable (G : GraphTs) (r : Records) (e : LogEvent)

def saveBid (id : List Char) (bid : Bid) : Records := { r with bids := r.bids.save id bid }

def saveVersion (id : List Char) (version : ProposalVersion) : Records :=
  { r with versions := r.versions.save id version }

/-! ## Auctions -/

/-- An entity that exists keeps its bidder. -/
def handleAuctionCreated (nounId startTime endTime : Nat) : Records :=
  if r.store.nouns.load nounId = none then r
  else
    let auction : Auction :=
      { noun := nounId
        amount := 0
        startTime := startTime
        endTime := endTime
        settled := false
        bidder := (r.auctions.load nounId).bind (·.bidder) }
    { r with auctions := r.auctions.save nounId auction }

def handleAuctionBid (txIndex : Nat) (block : Block) (nounId : Nat) (sender : Address)
    (value : Nat) : Records :=
  let r := { r with store := (r.store.getOrCreateAccount sender).1 }
  match r.auctions.load nounId with
  | none => r
  | some auction =>
    let auction := { auction with amount := value, bidder := some sender }
    let r := { r with auctions := r.auctions.save nounId auction }
    r.saveBid (e.bidId G)
      { bidder := sender
        amount := auction.amount
        noun := auction.noun
        txIndex := txIndex
        blockNumber := block.number
        blockTimestamp := block.timestamp
        auction := nounId }

def handleAuctionExtended (nounId endTime : Nat) : Records :=
  match r.auctions.load nounId with
  | none => r
  | some auction => { r with auctions := r.auctions.save nounId { auction with endTime } }

def handleAuctionSettled (nounId : Nat) : Records :=
  match r.auctions.load nounId with
  | none => r
  | some auction => { r with auctions := r.auctions.save nounId { auction with settled := true } }

/-! ## Versions -/

def captureProposalVersion (txHash logIndex : List Char) (proposal : Proposal) (text : ProposalText)
    (updateMessage : String) : Records :=
  r.saveVersion (LogEvent.versionIdOf txHash logIndex)
    { toProposalTxs := proposal.toProposalTxs
      toProposalText := text
      proposal := proposal.id
      createdBlock := proposal.lastUpdatedBlock
      createdAt := proposal.lastUpdatedTimestamp
      updateMessage := updateMessage }

/-- The text of an event's description. -/
def textOf (description : String) : ProposalText where
  title := extractTitle (unescape description)
  description := unescape description

/-- The end of `handleProposalCreated`. -/
def captureCreated (ids : ParsedIds) (id : Nat) (description : String) : Option Records := do
  let proposal ← r.store.proposals.load id
  let text := textOf description
  let r := { r with texts := r.texts.save id text }
  return r.captureProposalVersion ids.txHash ids.logIndex proposal text ""

/-- The text after an update, of which one kind has no description. -/
def updatedText (id : Nat) (description : Option String) : Option ProposalText :=
  match description with
  | some description => some (textOf description)
  | none => r.texts.load id

/-- The end of the three handlers of updates. -/
def captureUpdated (id : Nat) (description : Option String) (updateMessage : String) :
    Option Records := do
  let proposal ← r.store.proposals.load id
  let text ← r.updatedText id description
  let r := { r with texts := r.texts.save id text }
  return r.captureProposalVersion (e.hexHash G) (G.bigIntToString e.logIndex) proposal text
    updateMessage

def handleDAOEvent (block : Block) (event : DAOEvent) : Option Records := do
  let store ← r.store.handleDAOEvent block event
  let r := { r with store }
  match event with
  | .ProposalCreatedWithRequirements id _ _ _ _ _ _ _ _ description =>
      r.captureCreated (.fromV3Event G e) id description
  | .ProposalUpdated id _ _ description updateMessage =>
      r.captureUpdated G e id (some description) updateMessage
  | .ProposalDescriptionUpdated id _ description updateMessage =>
      r.captureUpdated G e id (some description) updateMessage
  | .ProposalTransactionsUpdated id _ _ updateMessage => r.captureUpdated G e id none updateMessage
  | _ => some r

def handle : Option Records :=
  match e.event with
  | .AuctionCreated nounId startTime endTime => some (r.handleAuctionCreated nounId startTime endTime)
  | .AuctionBid txIndex block nounId sender value =>
      some (r.handleAuctionBid G e txIndex block nounId sender value)
  | .AuctionExtended nounId endTime => some (r.handleAuctionExtended nounId endTime)
  | .AuctionSettled nounId => some (r.handleAuctionSettled nounId)
  | .token event => some { r with store := r.store.handleTokenEvent event }
  | .dao block event => r.handleDAOEvent G e block event
  | .proposalCreatedV1 block id proposer txs startBlock endBlock proposalThreshold quorumVotes
      description => do
      let store := r.store.handleProposalCreated (.fromV1Event block id proposer txs startBlock endBlock
        proposalThreshold quorumVotes)
      ({ r with store } : Records).captureCreated (.fromV1Event G e) id description

end Records

/-- The records after these events, of which the latest comes first. -/
def recorded (G : GraphTs) : List LogEvent → Option Records
  | [] => some Records.empty
  | e :: events => do (← recorded G events).handle G e

/-! ## Ids -/

/-- The documented behaviour. -/
structure GraphTs.WritesIds (G : GraphTs) : Prop where
  bytesToHex_eq : ∀ bytes, G.bytesToHex bytes = '0' :: 'x' :: Hex.digitsOf bytes
  bigIntToString_eq : ∀ n, G.bigIntToString n = Nat.toDigits 10 n

variable {G : GraphTs} {events later earlier : List LogEvent} {e e' : LogEvent}
  {r r' : Records}

theorem GraphTs.WritesIds.bigIntToString_inj (hG : G.WritesIds) {n n' : Nat}
    (h : G.bigIntToString n = G.bigIntToString n') : n = n' := by
  rw [hG.bigIntToString_eq, hG.bigIntToString_eq] at h
  have hread := congrArg (Nat.ofDigitChars 10 · 0) h
  simpa [Nat.ofDigitChars_toDigits] using hread

theorem GraphTs.WritesIds.bigIntToString_ne_nil (hG : G.WritesIds) (n : Nat) :
    G.bigIntToString n ≠ [] := by
  rw [hG.bigIntToString_eq]
  exact Nat.toDigits_ne_nil

namespace LogEvent

theorem length_hexHash (hG : G.WritesIds) (e : LogEvent) : (e.hexHash G).length = 66 := by
  rw [hexHash, hG.bytesToHex_eq, List.length_cons, List.length_cons, Hex.length_digitsOf,
    Word.length_toBytes]

theorem hexHash_inj (hG : G.WritesIds) (h : e.hexHash G = e'.hexHash G) : e.txHash = e'.txHash := by
  rw [hexHash, hexHash, hG.bytesToHex_eq, hG.bytesToHex_eq] at h
  have hread := congrArg Hex.read (List.cons.inj (List.cons.inj h).2).2
  rw [Hex.read_digitsOf, Hex.read_digitsOf, Option.some.injEq] at hread
  have hnumber (w : Word) : Words.numberOf w.toBytes = w.toNat := by
    rw [Word.toBytes, Words.numberOf_bytesOf, Nat.mod_eq_of_lt (w.toNat_lt.trans_eq (by norm_num))]
  rw [hnumber, hnumber] at hread
  exact Fin.ext hread

theorem bidId_inj (hG : G.WritesIds) (h : e.bidId G = e'.bidId G) : e.txHash = e'.txHash :=
  hexHash_inj hG h

/-- The hashes have one length, so that the ids do not run into each other. -/
theorem versionIdOf_inj (hG : G.WritesIds) {logIndex logIndex' : List Char}
    (h : versionIdOf (e.hexHash G) logIndex = versionIdOf (e'.hexHash G) logIndex') :
    e.txHash = e'.txHash ∧ logIndex = logIndex' := by
  have hlength : (e.hexHash G).length = (e'.hexHash G).length := by
    rw [length_hexHash hG, length_hexHash hG]
  obtain ⟨hhash, htail⟩ := List.append_inj h hlength
  exact ⟨hexHash_inj hG hhash, (List.cons.inj htail).2⟩

variable (G e)

/-- What stands for the log index in the id of the version that the handler captures. -/
def versionLogIndex : Option (List Char) :=
  match e.event with
  | .dao _ (.ProposalCreatedWithRequirements ..) => some (ParsedIds.fromV3Event G e).logIndex
  | .dao _ (.ProposalUpdated ..) => some (G.bigIntToString e.logIndex)
  | .dao _ (.ProposalDescriptionUpdated ..) => some (G.bigIntToString e.logIndex)
  | .dao _ (.ProposalTransactionsUpdated ..) => some (G.bigIntToString e.logIndex)
  | .proposalCreatedV1 .. => some (ParsedIds.fromV1Event G e).logIndex
  | _ => none

def versionId : Option (List Char) :=
  (e.versionLogIndex G).map (versionIdOf (e.hexHash G))

variable {G e}

/-- Only events of creation by the third version of the DAO leave the log index empty. -/
theorem versionLogIndex_cases {logIndex : List Char} (h : e.versionLogIndex G = some logIndex) :
    e.createsV3 = true ∧ e.updates = false ∧ logIndex = [] ∨
      e.createsV3 = false ∧ logIndex = G.bigIntToString e.logIndex := by
  unfold versionLogIndex at h
  unfold createsV3 updates
  split at h
  all_goals
    rename_i hevent
    simp only [hevent]
  · exact .inl ⟨trivial, trivial, (Option.some.inj h).symm⟩
  · exact .inr ⟨trivial, (Option.some.inj h).symm⟩
  · exact .inr ⟨trivial, (Option.some.inj h).symm⟩
  · exact .inr ⟨trivial, (Option.some.inj h).symm⟩
  · exact .inr ⟨trivial, (Option.some.inj h).symm⟩
  · exact absurd h (by simp)

/-- Updates, and creations alone in their transaction, share their version with no other event. -/
theorem versionId_unique (hG : G.WritesIds) (hdistinct : (events.map place).Nodup)
    (he : e ∈ events) (he' : e' ∈ events) {id : List Char} (hid : e.versionId G = some id)
    (hid' : e'.versionId G = some id)
    (halone : e.updates = true ∨ e.createsV3 = true ∧
      ∀ e'' ∈ events, e''.createsV3 = true → e''.txHash = e.txHash → e'' = e) : e' = e := by
  obtain ⟨logIndex, hlog, rfl⟩ := Option.map_eq_some_iff.mp hid
  obtain ⟨logIndex', hlog', heq⟩ := Option.map_eq_some_iff.mp hid'
  obtain ⟨htx, rfl⟩ := versionIdOf_inj hG heq
  rcases versionLogIndex_cases hlog with ⟨hcreates, hupdates, rfl⟩ | ⟨hcreates, rfl⟩
  · -- The other event leaves the log index empty as well.
    rcases versionLogIndex_cases hlog' with ⟨hcreates', -, -⟩ | ⟨-, hnil⟩
    · rcases halone with hupdate | ⟨-, halone⟩
      · rw [hupdates] at hupdate
        exact absurd hupdate Bool.false_ne_true
      · exact halone e' he' hcreates' htx
    · exact absurd hnil.symm (hG.bigIntToString_ne_nil _)
  · rcases versionLogIndex_cases hlog' with ⟨-, -, hnil⟩ | ⟨-, hindex⟩
    · exact absurd hnil (hG.bigIntToString_ne_nil _)
    · have hplace : e'.place = e.place := Prod.ext htx (hG.bigIntToString_inj hindex).symm
      exact List.inj_on_of_nodup_map hdistinct he' he hplace

end LogEvent

/-! ## What a handler saves -/

/-- The entity of this bid. -/
def Bid.IsOf (bid : Bid) (e : LogEvent) : Prop :=
  ∃ txIndex block, e.event = .AuctionBid txIndex block bid.auction bid.bidder bid.amount

namespace Records

/-- The event is a bid for an auction that is indexed. -/
def indexes (r : Records) (e : LogEvent) : Bool :=
  match e.event with
  | .AuctionBid _ _ nounId _ _ => (r.auctions.load nounId).isSome
  | _ => false

theorem captureCreated_eq {ids : ParsedIds} {id : Nat} {description : String}
    (h : r.captureCreated ids id description = some r') :
    r'.bids = r.bids ∧ ∃ version,
      r'.versions = r.versions.save (LogEvent.versionIdOf ids.txHash ids.logIndex) version := by
  obtain ⟨proposal, -, h⟩ := Option.bind_eq_some_iff.mp h
  rw [← Option.some.inj h]
  exact ⟨rfl, _, rfl⟩

theorem captureUpdated_eq {id : Nat} {description : Option String} {updateMessage : String}
    (h : r.captureUpdated G e id description updateMessage = some r') :
    r'.bids = r.bids ∧ ∃ version, r'.versions =
      r.versions.save (LogEvent.versionIdOf (e.hexHash G) (G.bigIntToString e.logIndex)) version := by
  obtain ⟨proposal, -, h⟩ := Option.bind_eq_some_iff.mp h
  obtain ⟨text, -, h⟩ := Option.bind_eq_some_iff.mp h
  rw [← Option.some.inj h]
  exact ⟨rfl, _, rfl⟩

/-- A handler saves at most one bid and at most one version, under the ids of its event. -/
structure Saves (G : GraphTs) (e : LogEvent) (r r' : Records) : Prop where
  bids : r.indexes e = false → r'.bids = r.bids
  bid : r.indexes e = true → ∃ bid, bid.IsOf e ∧ r'.bids = r.bids.save (e.bidId G) bid
  versions : e.versionId G = none → r'.versions = r.versions
  version : ∀ id, e.versionId G = some id → ∃ version, r'.versions = r.versions.save id version

/-- A handler that saves a version. -/
theorem Saves.ofVersion {logIndex : List Char} {version : ProposalVersion}
    (hindexes : r.indexes e = false) (hbids : r'.bids = r.bids)
    (hlog : e.versionLogIndex G = some logIndex)
    (hversions : r'.versions =
      r.versions.save (LogEvent.versionIdOf (e.hexHash G) logIndex) version) : Saves G e r r' where
  bids := fun _ => hbids
  bid := fun h => absurd (hindexes.symm.trans h) Bool.false_ne_true
  versions := fun h => by
    rw [LogEvent.versionId, hlog] at h
    exact absurd h (Option.some_ne_none _)
  version := fun id h => by
    rw [LogEvent.versionId, hlog] at h
    rw [← Option.some.inj h]
    exact ⟨version, hversions⟩

/-- A handler that saves neither. -/
theorem Saves.ofOther (hindexes : r.indexes e = false) (hlog : e.versionLogIndex G = none)
    (hbids : r'.bids = r.bids) (hversions : r'.versions = r.versions) : Saves G e r r' where
  bids := fun _ => hbids
  bid := fun h => absurd (hindexes.symm.trans h) Bool.false_ne_true
  versions := fun _ => hversions
  version := fun id h => by
    rw [LogEvent.versionId, hlog] at h
    exact absurd h.symm (Option.some_ne_none _)

theorem handleDAOEvent_saves {block : Block} {event : DAOEvent} (he : e.event = .dao block event)
    (h : r.handleDAOEvent G e block event = some r') : Saves G e r r' := by
  obtain ⟨store, -, h⟩ := Option.bind_eq_some_iff.mp h
  have hindexes : r.indexes e = false := by
    rw [indexes, he]
  cases event with
  | ProposalCreatedWithRequirements id proposer signers txs startBlock endBlock updatePeriodEndBlock
      proposalThreshold quorumVotes description =>
    obtain ⟨hbids, version, hversions⟩ := captureCreated_eq h
    apply Saves.ofVersion hindexes hbids _ hversions
    rw [LogEvent.versionLogIndex, he]
  | ProposalUpdated id proposer txs description updateMessage =>
    obtain ⟨hbids, version, hversions⟩ := captureUpdated_eq h
    apply Saves.ofVersion hindexes hbids _ hversions
    rw [LogEvent.versionLogIndex, he]
  | ProposalDescriptionUpdated id proposer description updateMessage =>
    obtain ⟨hbids, version, hversions⟩ := captureUpdated_eq h
    apply Saves.ofVersion hindexes hbids _ hversions
    rw [LogEvent.versionLogIndex, he]
  | ProposalTransactionsUpdated id proposer txs updateMessage =>
    obtain ⟨hbids, version, hversions⟩ := captureUpdated_eq h
    apply Saves.ofVersion hindexes hbids _ hversions
    rw [LogEvent.versionLogIndex, he]
  | _ =>
    rw [← Option.some.inj h]
    exact Saves.ofOther hindexes (by rw [LogEvent.versionLogIndex, he]) rfl rfl

theorem handleAuctionBid_saves {txIndex nounId value : Nat} {block : Block} {sender : Address}
    (he : e.event = .AuctionBid txIndex block nounId sender value) :
    Saves G e r (r.handleAuctionBid G e txIndex block nounId sender value) := by
  have hlog : e.versionLogIndex G = none := by
    rw [LogEvent.versionLogIndex, he]
  have hindexes : r.indexes e = (r.auctions.load nounId).isSome := by
    rw [indexes, he]
  dsimp only [handleAuctionBid]
  cases hauction : r.auctions.load nounId with
  | none =>
    rw [hauction] at hindexes
    exact Saves.ofOther hindexes hlog rfl rfl
  | some auction =>
    rw [hauction] at hindexes
    refine ⟨fun h => ?_, fun _ => ⟨_, ?_, rfl⟩, fun _ => rfl, fun id h => ?_⟩
    · rw [hindexes] at h
      exact absurd h.symm Bool.false_ne_true
    · exact ⟨txIndex, block, he⟩
    · rw [LogEvent.versionId, hlog] at h
      exact absurd h.symm (Option.some_ne_none _)

theorem handle_saves (h : r.handle G e = some r') : Saves G e r r' := by
  unfold handle at h
  split at h
  all_goals rename_i he
  -- All but the bids, the events of the DAO and the creations save neither.
  case h_2 => exact Option.some.inj h ▸ handleAuctionBid_saves he
  case h_6 => exact handleDAOEvent_saves he h
  case h_7 =>
    obtain ⟨hbids, version, hversions⟩ := captureCreated_eq h
    have hlog : e.versionLogIndex G = some (ParsedIds.fromV1Event G e).logIndex := by
      rw [LogEvent.versionLogIndex, he]
    exact Saves.ofVersion (r := r) (by rw [indexes, he]) hbids hlog hversions
  all_goals
    have hindexes : r.indexes e = false := by
      rw [indexes, he]
    have hlog : e.versionLogIndex G = none := by
      rw [LogEvent.versionLogIndex, he]
    rw [← Option.some.inj h]
  · unfold handleAuctionCreated
    split <;> exact Saves.ofOther hindexes hlog rfl rfl
  · unfold handleAuctionExtended
    split <;> exact Saves.ofOther hindexes hlog rfl rfl
  · unfold handleAuctionSettled
    split <;> exact Saves.ofOther hindexes hlog rfl rfl
  · exact Saves.ofOther hindexes hlog rfl rfl

end Records

/-! ## Runs -/

theorem recorded_cons (h : recorded G (e :: events) = some r') :
    ∃ r, recorded G events = some r ∧ r.handle G e = some r' :=
  Option.bind_eq_some_iff.mp h

/-- The bids among these events for auctions that were indexed. -/
def indexedBids (G : GraphTs) : List LogEvent → List LogEvent
  | [] => []
  | e :: events =>
    if (recorded G events).any (·.indexes e) then e :: indexedBids G events
    else indexedBids G events

/-- The bid of a transaction is the last one. -/
theorem recorded_bid (hG : G.WritesIds) (h : recorded G events = some r)
    (he : (indexedBids G events).find? (·.txHash = e.txHash) = some e) :
    ∃ bid, bid.IsOf e ∧ r.bids.load (e.bidId G) = some bid := by
  induction events generalizing r with
  | nil => exact absurd he (by simp [indexedBids])
  | cons e' events ih =>
    obtain ⟨r₀, hr₀, hhandle⟩ := recorded_cons h
    have hsaves := Records.handle_saves hhandle
    rw [indexedBids, hr₀, Option.any_some] at he
    cases hindexes : r₀.indexes e' with
    | false =>
      rw [hindexes, if_neg Bool.false_ne_true] at he
      rw [hsaves.bids hindexes]
      exact ih hr₀ he
    | true =>
      rw [hindexes, if_pos rfl] at he
      obtain ⟨bid, hbid, hbids⟩ := hsaves.bid hindexes
      rw [hbids]
      by_cases htx : e'.txHash = e.txHash
      · rw [List.find?_cons_of_pos (by simpa using htx)] at he
        rw [← Option.some.inj he]
        exact ⟨bid, hbid, load_save_self⟩
      · rw [List.find?_cons_of_neg (by simpa using htx)] at he
        rw [load_save_ne fun hid => htx (LogEvent.bidId_inj hG hid).symm]
        exact ih hr₀ he

/-- A version stays as it is while no event saves another under its id. -/
theorem recorded_version {id : List Char} (hlater : ∀ e' ∈ later, e'.versionId G ≠ some id)
    (hr' : recorded G earlier = some r') (h : recorded G (later ++ earlier) = some r) :
    r.versions.load id = r'.versions.load id := by
  induction later generalizing r with
  | nil => rw [Option.some.inj (h.symm.trans hr')]
  | cons e' later ih =>
    obtain ⟨r₀, hr₀, hhandle⟩ := recorded_cons h
    have hsaves := Records.handle_saves hhandle
    rw [← ih (fun e'' he'' => hlater e'' (List.mem_cons_of_mem e' he'')) hr₀]
    cases hid : e'.versionId G with
    | none => rw [hsaves.versions hid]
    | some id' =>
      obtain ⟨version, hversion⟩ := hsaves.version id' hid
      rw [hversion]
      apply load_save_ne
      rintro rfl
      exact hlater e' List.mem_cons_self hid

/-- No other event of its transaction is a creation by the third version of the DAO. -/
def LogEvent.CreatesAlone (events : List LogEvent) (e : LogEvent) : Prop :=
  e.createsV3 = true ∧ ∀ e' ∈ events, e'.createsV3 = true → e'.txHash = e.txHash → e' = e

theorem LogEvent.exists_versionId (h : e.updates = true ∨ e.createsV3 = true) :
    ∃ id, e.versionId G = some id := by
  unfold LogEvent.versionId
  rcases h with h | h
  · unfold LogEvent.updates at h
    split at h
    · rename_i hevent
      exact ⟨_, by rw [LogEvent.versionLogIndex, hevent]; rfl⟩
    · rename_i hevent
      exact ⟨_, by rw [LogEvent.versionLogIndex, hevent]; rfl⟩
    · rename_i hevent
      exact ⟨_, by rw [LogEvent.versionLogIndex, hevent]; rfl⟩
    · exact absurd h Bool.false_ne_true
  · unfold LogEvent.createsV3 at h
    split at h
    · rename_i hevent
      exact ⟨_, by rw [LogEvent.versionLogIndex, hevent]; rfl⟩
    · exact absurd h Bool.false_ne_true

/-- Of each transaction the last bid for an indexed auction is kept.  Updates, and creations alone in
their transaction, keep the version that they captured. -/
theorem records_kept (hG : G.WritesIds) (hdistinct : (events.map LogEvent.place).Nodup)
    (h : recorded G events = some r) :
    (∀ e, (indexedBids G events).find? (·.txHash = e.txHash) = some e →
      ∃ bid, bid.IsOf e ∧ r.bids.load (e.bidId G) = some bid) ∧
    (∀ e e' : LogEvent, e.txHash ≠ e'.txHash → e.bidId G ≠ e'.bidId G) ∧
    ∀ later e earlier before after, events = later ++ e :: earlier →
      recorded G earlier = some before → before.handle G e = some after →
      e.updates = true ∨ e.CreatesAlone events →
      ∃ id version, e.versionId G = some id ∧ after.versions = before.versions.save id version ∧
        r.versions.load id = some version ∧
        ∀ e' ∈ events, e'.versionId G = some id → e' = e := by
  refine ⟨fun e he => recorded_bid hG h he, fun e e' htx hid => htx (LogEvent.bidId_inj hG hid), ?_⟩
  intro later e earlier before after hevents hbefore hafter hkind
  obtain ⟨id, hid⟩ := LogEvent.exists_versionId (hkind.imp_right And.left)
  obtain ⟨version, hversion⟩ := (Records.handle_saves hafter).version id hid
  have he : e ∈ events := by
    rw [hevents]
    exact List.mem_append_right later List.mem_cons_self
  have hunique : ∀ e' ∈ events, e'.versionId G = some id → e' = e := fun e' he' hid' =>
    LogEvent.versionId_unique hG hdistinct he he' hid hid' hkind
  refine ⟨id, version, hid, hversion, ?_, hunique⟩
  -- What comes later has other ids, since the event stands only once.
  have hlater : ∀ e' ∈ later, e'.versionId G ≠ some id := by
    intro e' he' hid'
    have heq := hunique e' (hevents ▸ List.mem_append_left _ he') hid'
    rw [hevents, List.map_append] at hdistinct
    exact List.disjoint_of_nodup_append hdistinct (List.mem_map_of_mem he')
      (List.mem_map.mpr ⟨e, List.mem_cons_self, by rw [heq]⟩)
  have hrecorded : recorded G (e :: earlier) = some after := by
    rw [recorded, hbefore]
    exact hafter
  rw [recorded_version hlater hrecorded (hevents ▸ h), hversion]
  exact load_save_self

/-! ## Two bids in a transaction -/

/-- The numbers are decimal. -/
def decimalGraphTs : GraphTs := { ProposalContent.sampleGraphTs with bigIntToString := Nat.toDigits 10 }

theorem decimalGraphTs_writesIds : decimalGraphTs.WritesIds := ⟨fun _ => rfl, fun _ => rfl⟩

def sampleBlock : Block := ⟨1, 1, 1⟩

/-- The bids are in one transaction, after Noun 1 was transferred and put up for auction. -/
def twoBids : List LogEvent :=
  [⟨Word.ofNat 2, 1, .AuctionBid 0 sampleBlock 1 8 30⟩,
   ⟨Word.ofNat 2, 0, .AuctionBid 0 sampleBlock 1 7 20⟩,
   ⟨Word.ofNat 1, 1, .AuctionCreated 1 0 100⟩,
   ⟨Word.ofNat 1, 0, .token (.Transfer 0 9 1)⟩]

def sampleCreation : LogEvent :=
  ⟨Word.ofNat 3, 0, .dao sampleBlock
    (.ProposalCreatedWithRequirements 1 7 [] ⟨[], [], [], []⟩ 2 5 1 0 0 "")⟩

def sampleUpdate : LogEvent :=
  ⟨Word.ofNat 3, 1, .dao sampleBlock (.ProposalUpdated 1 7 ⟨[], [], [], []⟩ "" "")⟩

/-- A proposal is created and updated in one transaction, after the bids. -/
def sampleLog : List LogEvent := sampleUpdate :: sampleCreation :: twoBids

theorem records_kept_sample :
    ∃ r, recorded decimalGraphTs sampleLog = some r ∧
      (∃ bid, bid.IsOf ⟨Word.ofNat 2, 1, .AuctionBid 0 sampleBlock 1 8 30⟩ ∧
        r.bids.load (decimalGraphTs.bytesToHex (Word.ofNat 2).toBytes) = some bid) ∧
      (∃ id version, sampleCreation.versionId decimalGraphTs = some id ∧
        r.versions.load id = some version) ∧
      ∃ id version, sampleUpdate.versionId decimalGraphTs = some id ∧
        r.versions.load id = some version := by
  obtain ⟨r, hr⟩ : ∃ r, recorded decimalGraphTs sampleLog = some r := ⟨_, rfl⟩
  obtain ⟨created, hcreated, hupdate⟩ := recorded_cons hr
  obtain ⟨before, hbefore, hcreation⟩ := recorded_cons hcreated
  have halone : sampleCreation.CreatesAlone sampleLog := by
    refine ⟨rfl, fun e' he' hcreates _ => ?_⟩
    rcases List.mem_cons.mp he' with rfl | he'
    · exact absurd hcreates (by decide)
    · rcases List.mem_cons.mp he' with rfl | he'
      · rfl
      · have hbids : ∀ e ∈ twoBids, e.createsV3 = false := by decide
        exact absurd ((hbids e' he').symm.trans hcreates) Bool.false_ne_true
  obtain ⟨hbids, -, hversions⟩ := records_kept decimalGraphTs_writesIds (by decide) hr
  obtain ⟨id, version, hid, -, hload, -⟩ :=
    hversions [sampleUpdate] sampleCreation twoBids before created rfl hbefore hcreation (.inr halone)
  obtain ⟨id', version', hid', -, hload', -⟩ :=
    hversions [] sampleUpdate _ created r rfl hcreated hupdate (.inl rfl)
  exact ⟨r, hr, hbids _ rfl, ⟨id, version, hid, hload⟩, id', version', hid', hload'⟩

theorem twoBids_bids {r : Records} (h : recorded decimalGraphTs twoBids = some r) {id : List Char}
    {bid : Bid} (hload : r.bids.load id = some bid) : bid.bidder = 8 := by
  let id₀ := decimalGraphTs.bytesToHex (Word.ofNat 2).toBytes
  have hbids : r.bids = (empty.save id₀ ⟨1, 20, 7, 1, 0, 1, 1⟩).save id₀ ⟨1, 30, 8, 1, 0, 1, 1⟩ := by
    rw [← Option.some.inj h]
    rfl
  rw [hbids, save_save, load_save, load_empty] at hload
  split at hload
  · rw [← Option.some.inj hload]
  · exact absurd hload.symm (Option.some_ne_none bid)

/-- The first of the two bids has no entity. -/
theorem first_bid_lost :
    ¬ ∀ (G : GraphTs) (events : List LogEvent) (r : Records), G.WritesIds →
      (events.map LogEvent.place).Nodup → recorded G events = some r →
      ∀ e ∈ indexedBids G events, ∃ id bid, bid.IsOf e ∧ r.bids.load id = some bid := by
  intro hall
  have hrun : ∃ r, recorded decimalGraphTs twoBids = some r := ⟨_, rfl⟩
  obtain ⟨r, hr⟩ := hrun
  have hmem : (⟨Word.ofNat 2, 0, .AuctionBid 0 sampleBlock 1 7 20⟩ : LogEvent) ∈
      indexedBids decimalGraphTs twoBids := by
    rw [show indexedBids decimalGraphTs twoBids = twoBids.take 2 from rfl]
    exact List.mem_cons_of_mem _ List.mem_cons_self
  obtain ⟨id, bid, ⟨txIndex, block, hbid⟩, hload⟩ :=
    hall _ _ r decimalGraphTs_writesIds (by decide) hr _ hmem
  have hbidder := twoBids_bids hr hload
  injection hbid with _ _ _ hsender _
  rw [hbidder] at hsender
  exact absurd hsender (by decide)

end Nouns.Subgraph
