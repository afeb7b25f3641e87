import Nouns.Token.NounsToken

/-!
# AuctionHouse — one Noun after the other

`NounsAuctionHouse`.  The functions that move Nouns are given the token and return it with the
house, whose address is `this`.  Nothing of a payment is kept in the state of the house: where the
ETH goes, and what happens while it is sent, is in `Payments`.
-/

open Fallible

namespace Nouns

structure Auction where
  nounId : Nat
  amount : Nat
  startTime : Nat
  endTime : Nat
  bidder : Address
  settled : Bool

inductive AuctionHouseEvent
  | Paused (account : Address)
  | Unpaused (account : Address)
  | AuctionCreated (nounId startTime endTime : Nat)
  | AuctionBid (nounId : Nat) (sender : Address) (value : Nat) (extended : Bool)
  | AuctionExtended (nounId endTime : Nat)
  | AuctionSettled (nounId : Nat) (winner : Address) (amount : Nat)
  | AuctionTimeBufferUpdated (timeBuffer : Nat)
  | AuctionReservePriceUpdated (reservePrice : Nat)
  | AuctionMinBidIncrementPercentageUpdated (minBidIncrementPercentage : Nat)
  | AuctionDurationUpdated (duration : Nat)

structure NounsAuctionHouse where
  owner : Address
  paused : Bool
  timeBuffer : Nat
  reservePrice : Nat
  minBidIncrementPercentage : Nat
  duration : Nat
  auction : Auction
  log : List AuctionHouseEvent

/-- The public functions of the auction house that change its state. -/
inductive AuctionHouseCall
  | settleCurrentAndCreateNewAuction
  | settleAuction
  | createBid (nounId value : Nat)
  | pause
  | unpause
  | setTimeBuffer (timeBuffer : Nat)
  | setReservePrice (reservePrice : Nat)
  | setMinBidIncrementPercentage (minBidIncrementPercentage : Nat)
  | setDuration (duration : Nat)
  | transferOwnership (newOwner : Address)
  | renounceOwnership

namespace NounsAuctionHouse

/-- The state `initialize` leaves behind; it pauses the house. -/
def deploy (owner : Address) (timeBuffer reservePrice minBidIncrementPercentage duration : Nat) :
    NounsAuctionHouse where
  owner
  paused := true
  timeBuffer
  reservePrice
  minBidIncrementPercentage
  duration
  auction := ⟨0, 0, 0, 0, 0, false⟩
  log := [.Paused owner]

variable (house : NounsAuctionHouse)

def emit (e : AuctionHouseEvent) : NounsAuctionHouse := { house with log := e :: house.log }

def onlyOwner (sender : Address) : Tx Unit :=
  require (sender = house.owner) (.require "Ownable: caller is not the owner")

def whenPaused : Tx Unit := require (house.paused = true) (.require "Pausable: not paused")

def whenNotPaused : Tx Unit := require (house.paused = false) (.require "Pausable: paused")

/-- The internal `_pause`. -/
def pauseBy (sender : Address) : Tx NounsAuctionHouse := do
  house.whenNotPaused
  return { house with paused := true }.emit (.Paused sender)

/-- The internal `_unpause`. -/
def unpauseBy (sender : Address) : Tx NounsAuctionHouse := do
  house.whenPaused
  return { house with paused := false }.emit (.Unpaused sender)

section Nouns

variable (proxies : Address → Address) (this : Address) (now timestamp : Nat) (sender : Address)
  (nouns : NounsToken)

/-- The internal `_createAuction`.  A mint that reverts with a text pauses the house. -/
def createAuction : Tx (NounsAuctionHouse × NounsToken) :=
  match nouns.mint now this with
  | .ok nouns =>
    -- what `mint` returns is the id it used last
    let nounId := nouns.currentNounId - 1
    let startTime := timestamp
    let endTime := startTime + house.duration
    let auction := { nounId, amount := 0, startTime, endTime, bidder := 0, settled := false }
    return ({ house with auction }.emit (.AuctionCreated nounId startTime endTime), nouns)
  | .error (.require _) => do return (← house.pauseBy sender, nouns)
  | .error e => throw e

/-- The internal `_settleAuction`. -/
def settle : Tx (NounsAuctionHouse × NounsToken) := do
  let auction := house.auction
  require (auction.startTime ≠ 0) (.require "Auction hasn't begun")
  require (auction.settled = false) (.require "Auction has already been settled")
  require (timestamp ≥ auction.endTime) (.require "Auction hasn't completed")
  let house := { house with auction := { auction with settled := true } }
  let nouns ← if auction.bidder = 0 then nouns.burn now this auction.nounId
    else nouns.transferFrom proxies now this this auction.bidder auction.nounId
  -- here the owner is paid, if the auction brought something in
  return (house.emit (.AuctionSettled auction.nounId auction.bidder auction.amount), nouns)

def settleCurrentAndCreateNewAuction : Tx (NounsAuctionHouse × NounsToken) := do
  house.whenNotPaused
  let (house, nouns) ← house.settle proxies this now timestamp nouns
  house.createAuction this now timestamp sender nouns

def settleAuction : Tx (NounsAuctionHouse × NounsToken) := do
  house.whenPaused
  house.settle proxies this now timestamp nouns

def unpause : Tx (NounsAuctionHouse × NounsToken) := do
  house.onlyOwner sender
  let house ← house.unpauseBy sender
  if house.auction.startTime = 0 ∨ house.auction.settled = true then
    house.createAuction this now timestamp sender nouns
  else return (house, nouns)

end Nouns

def createBid (timestamp : Nat) (sender : Address) (nounId value : Nat) : Tx NounsAuctionHouse := do
  let auction := house.auction
  require (auction.nounId = nounId) (.require "Noun not up for auction")
  require (timestamp < auction.endTime) (.require "Auction expired")
  require (value ≥ house.reservePrice) (.require "Must send at least reservePrice")
  require (value ≥ auction.amount + auction.amount * house.minBidIncrementPercentage / 100)
    (.require "Must send more than last bid by minBidIncrementPercentage amount")
  -- here the last bidder is refunded
  let extended : Bool := auction.endTime - timestamp < house.timeBuffer
  let endTime := if extended then timestamp + house.timeBuffer else auction.endTime
  let house := { house with auction := { auction with amount := value, bidder := sender, endTime } }
  let house := house.emit (.AuctionBid nounId sender value extended)
  return if extended then house.emit (.AuctionExtended nounId endTime) else house

def pause (sender : Address) : Tx NounsAuctionHouse := do
  house.onlyOwner sender
  house.pauseBy sender

/-- A setter of the owner. -/
def set (sender : Address) (house' : NounsAuctionHouse) (e : AuctionHouseEvent) :
    Tx NounsAuctionHouse := do
  house.onlyOwner sender
  return house'.emit e

def setTimeBuffer (sender : Address) (timeBuffer : Nat) : Tx NounsAuctionHouse :=
  house.set sender { house with timeBuffer } (.AuctionTimeBufferUpdated timeBuffer)

def setReservePrice (sender : Address) (reservePrice : Nat) : Tx NounsAuctionHouse :=
  house.set sender { house with reservePrice } (.AuctionReservePriceUpdated reservePrice)

def setMinBidIncrementPercentage (sender : Address) (minBidIncrementPercentage : Nat) :
    Tx NounsAuctionHouse :=
  house.set sender { house with minBidIncrementPercentage }
    (.AuctionMinBidIncrementPercentageUpdated minBidIncrementPercentage)

def setDuration (sender : Address) (duration : Nat) : Tx NounsAuctionHouse :=
  house.set sender { house with duration } (.AuctionDurationUpdated duration)

def transferOwnership (sender newOwner : Address) : Tx NounsAuctionHouse := do
  house.onlyOwner sender
  require (newOwner ≠ 0) (.require "Ownable: new owner is the zero address")
  return { house with owner := newOwner }

def renounceOwnership (sender : Address) : Tx NounsAuctionHouse := do
  house.onlyOwner sender
  return { house with owner := 0 }

/-- A call by `sender` at `timestamp` in block `now`. -/
def call (proxies : Address → Address) (this : Address) (now timestamp : Nat) (sender : Address)
    (nouns : NounsToken) : AuctionHouseCall → Tx (NounsAuctionHouse × NounsToken)
  | .settleCurrentAndCreateNewAuction =>
      house.settleCurrentAndCreateNewAuction proxies this now timestamp sender nouns
  | .settleAuction => house.settleAuction proxies this now timestamp nouns
  | .createBid nounId value => return (← house.createBid timestamp sender nounId value, nouns)
  | .pause => return (← house.pause sender, nouns)
  | .unpause => house.unpause this now timestamp sender nouns
  | .setTimeBuffer timeBuffer => return (← house.setTimeBuffer sender timeBuffer, nouns)
  | .setReservePrice reservePrice => return (← house.setReservePrice sender reservePrice, nouns)
  | .setMinBidIncrementPercentage minBidIncrementPercentage =>
      return (← house.setMinBidIncrementPercentage sender minBidIncrementPercentage, nouns)
  | .setDuration duration => return (← house.setDuration sender duration, nouns)
  | .transferOwnership newOwner => return (← house.transferOwnership sender newOwner, nouns)
  | .renounceOwnership => return (← house.renounceOwnership sender, nouns)

end NounsAuctionHouse

end Nouns
