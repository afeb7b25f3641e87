import Nouns.Lib.Fallible
import Nouns.Lib.Transition
import Nouns.Lib.Checkpoints
import Nouns.Lib.GroupSums
import Nouns.Lib.IndexedList
import Nouns.Lib.SnapshotVoting
import Nouns.Lib.ProRata
import Nouns.Lib.StorageSlots
import Nouns.Lib.OrderedMap
import Nouns.Lib.Raster
import Nouns.Lib.EntityStore
import Nouns.Lib.Paging
import Nouns.Lib.Words
import Nouns.Lib.Hex
import Nouns.Lib.Bits
import Nouns.Lib.CanonicalCode
import Nouns.Lib.Deflate
import Nouns.Lib.Abi
import Nouns.Evm
import Nouns.Token.ERC721
import Nouns.Token.NounsToken
import Nouns.Token.NounsTokenFork
import Nouns.Token.Changes
import Nouns.Token.Approvals
import Nouns.Token.Ids
import Nouns.Token.VoteConservation
import Nouns.Token.Reverts
import Nouns.Token.Histories
import Nouns.Token.Logs
import Nouns.Token.Rewards
import Nouns.Governance.Storage
import Nouns.Governance.Executor
import Nouns.Governance.TimelockHistory
import Nouns.Governance.DynamicQuorum
import Nouns.Governance.Admin
import Nouns.Governance.ForkEscrow
import Nouns.Governance.Proposals
import Nouns.Governance.Votes
import Nouns.Governance.System
import Nouns.Governance.Protocol
import Nouns.Governance.Refinement
import Nouns.Governance.CallStack
import Nouns.Governance.Functions
import Nouns.Governance.Settings
import Nouns.Governance.WellFormed
import Nouns.Governance.Creation
import Nouns.Governance.Genesis
import Nouns.Governance.LifeCycle
import Nouns.Governance.Tally
import Nouns.Governance.Refunds
import Nouns.Governance.QuorumHistory
import Nouns.Governance.QuorumBounds
import Nouns.Governance.Objections
import Nouns.Governance.Backers
import Nouns.Governance.Sponsors
import Nouns.Governance.Signatures
import Nouns.Governance.TypedData
import Nouns.Governance.Frozen
import Nouns.Governance.Timelocks
import Nouns.Governance.Events
import Nouns.Governance.QueueIntegrity
import Nouns.Governance.ExecutedOnce
import Nouns.Governance.ForkFreeze
import Nouns.Governance.Snapshot
import Nouns.Governance.EscrowSteps
import Nouns.Governance.EscrowAccounting
import Nouns.Governance.Custody
import Nouns.Governance.Payouts
import Nouns.Governance.TreasurySplit
import Nouns.Governance.ClosedForks
import Nouns.Governance.ForkRecords
import Nouns.Governance.Handover
import Nouns.Governance.LogicV2
import Nouns.Governance.UpgradeV3
import Nouns.Auction.AuctionHouse
import Nouns.Auction.Payments
import Nouns.Auction.Solvency
import Nouns.Auction.LifeCycle
import Nouns.Auction.WholeCalls
import Nouns.Auction.System
import Nouns.Fork.Governor
import Nouns.Fork.System
import Nouns.Fork.Ballots
import Nouns.Fork.Snapshot
import Nouns.Fork.QueueIntegrity
import Nouns.Fork.Minting
import Nouns.Fork.Claims
import Nouns.Fork.QuitFairness
import Nouns.Image.SvgBuilder
import Nouns.Image.Encoder
import Nouns.Image.Decoding
import Nouns.Image.SvgLoop
import Nouns.Image.RoundTrip
import Nouns.Image.SVGRenderer
import Nouns.Image.Rendering
import Nouns.Image.SdkAgreement
import Nouns.Image.Canvas
import Nouns.Image.RendererAgreement
import Nouns.Image.Seeder
import Nouns.Art.Inflate
import Nouns.Art.NounsArt
import Nouns.Art.Reading
import Nouns.Art.StoredBlocks
import Nouns.Art.Tables
import Nouns.Art.Codes
import Nouns.Art.CodeLengths
import Nouns.Art.Acceptance
import Nouns.Art.Blocks
import Nouns.Art.Filling
import Nouns.Art.Pages
import Nouns.Art.CorruptPages
import Nouns.Lib.WordArithmetic
import Nouns.Art.Unchecked
import Nouns.Art.Unrolling
import Nouns.Art.Safety
import Nouns.Art.Returning
import Nouns.Art.Soundness
import Nouns.Governance.ForkEvents
import Nouns.Governance.CandidateData
import Nouns.Governance.CandidateLogs
import Nouns.Subgraph.Store
import Nouns.Subgraph.TokenHandlers
import Nouns.Subgraph.DAOHandlers
import Nouns.Subgraph.Effects
import Nouns.Subgraph.Frames
import Nouns.Subgraph.Holders
import Nouns.Subgraph.HolderCounts
import Nouns.Subgraph.Delegations
import Nouns.Subgraph.VoteTotals
import Nouns.Subgraph.DelegateCounts
import Nouns.Subgraph.Proposals
import Nouns.Subgraph.Quorums
import Nouns.Subgraph.Backers
import Nouns.Subgraph.ContentHash
import Nouns.Subgraph.Records
import Nouns.Subgraph.Forks
import Nouns.Subgraph.Candidates
import Nouns.Subgraph.CandidateMirror
import Nouns.Subgraph.CandidateSignatures
import Nouns.Webapp.ProposalState
import Nouns.Webapp.Proposers
