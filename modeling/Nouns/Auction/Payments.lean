import Nouns.Auction.AuctionHouse
import Nouns.Lib.Transition

/-!
# Payments — the auction house while it pays

A refund or a payout hands control to its recipient before the call that made it is over: `pending`
is what is left of that call, and `return_` goes on with it.  In between anybody can call the house.
A recipient that refuses, or whose code fails, undoes what it did and is sent WETH instead.  The house
knows its token as an `INounsToken`.
-/

open Fallible

namespace Nouns

/-- What the house calls of its token. -/
structure INounsToken (τ : Type) where
  /-- Returns the id. -/
  mint (sender : Address) (token : τ) : Tx (τ × Nat)
  burn (sender : Address) (nounId : Nat) (token : τ) : Tx τ
  transferFrom (sender from_ to_ : Address) (tokenId : Nat) (token : τ) : Tx τ

/-- An auctioned Noun goes to the last bidder, or is burned if there was no bid. -/
def INounsToken.handOver {τ : Type} (t : INounsToken τ) (this : Address) (auction : Auction)
    (token : τ) : Tx τ :=
  if auction.bidder = 0 then t.burn this auction.nounId token
  else t.transferFrom this this auction.bidder auction.nounId token

/-- The token in block `now`. -/
def NounsToken.interface (proxies : Address → Address) (now : Nat) : INounsToken NounsToken where
  mint sender n := do
    let n ← n.mint now sender
    return (n, n.currentNounId - 1)
  burn sender nounId n := n.burn now sender nounId
  transferFrom sender from_ to_ tokenId n := n.transferFrom proxies now sender from_ to_ tokenId

/-! ## State -/

/-- The ETH that a call brings in, `msg.value`. -/
def AuctionHouseCall.value : AuctionHouseCall → Nat
  | .createBid _ value => value
  | _ => 0

/-- What is left to do after a payment; `auction` is the copy in memory. -/
inductive AuctionContinuation
  | createBid (auction : Auction) (sender : Address) (value : Nat)
  /-- A new auction follows if `createsNew`. -/
  | settle (auction : Auction) (sender : Address) (createsNew : Bool)

inductive PaymentReason
  | refund
  | payout
deriving DecidableEq

def AuctionContinuation.reason : AuctionContinuation → PaymentReason
  | .createBid _ _ _ => .refund
  | .settle _ _ _ => .payout

structure Payment where
  to_ : Address
  amount : Nat
  reason : PaymentReason

/-- `entered` is the status of the reentrancy guard, `eth` what the house has and `forced` what came
in otherwise than with a bid, `weth` what anybody has in WETH, and `sent` what the house paid, newest
first. -/
structure AuctionWorld (τ : Type) where
  blockNumber : Nat
  timestamp : Nat
  house : NounsAuctionHouse
  entered : Bool
  token : τ
  eth : Nat
  forced : Nat
  weth : Address → Nat
  sent : List Payment
  pending : Option AuctionContinuation

/-! ## The functions of the house -/

namespace NounsAuctionHouse

variable (house : NounsAuctionHouse)

/-- The checks of `createBid`. -/
def checkBid (timestamp nounId value : Nat) : Tx Unit := do
  require (house.auction.nounId = nounId) (.require "Noun not up for auction")
  require (timestamp < house.auction.endTime) (.require "Auction expired")
  require (value ≥ house.reservePrice) (.require "Must send at least reservePrice")
  require (value ≥ house.auction.amount +
      house.auction.amount * house.minBidIncrementPercentage / 100)
    (.require "Must send more than last bid by minBidIncrementPercentage amount")

/-- `createBid` after the refund. -/
def placeBid (timestamp : Nat) (auction : Auction) (sender : Address) (value : Nat) :
    NounsAuctionHouse :=
  let bid := { house.auction with amount := value, bidder := sender }
  let extended : Bool := auction.endTime - timestamp < house.timeBuffer
  let endTime := timestamp + house.timeBuffer
  let bid := if extended then { bid with endTime } else bid
  let house := { house with auction := bid }.emit (.AuctionBid auction.nounId sender value extended)
  if extended then house.emit (.AuctionExtended auction.nounId endTime) else house

/-- The checks of `_settleAuction`. -/
def checkSettle (timestamp : Nat) : Tx Unit := do
  require (house.auction.startTime ≠ 0) (.require "Auction hasn't begun")
  require (house.auction.settled = false) (.require "Auction has already been settled")
  require (timestamp ≥ house.auction.endTime) (.require "Auction hasn't completed")

/-- The functions of the owner that neither mint nor pay. -/
def ownerCall (sender : Address) : AuctionHouseCall → Tx NounsAuctionHouse
  | .pause => house.pause sender
  | .setTimeBuffer timeBuffer => house.setTimeBuffer sender timeBuffer
  | .setReservePrice reservePrice => house.setReservePrice sender reservePrice
  | .setMinBidIncrementPercentage minBidIncrementPercentage =>
      house.setMinBidIncrementPercentage sender minBidIncrementPercentage
  | .setDuration duration => house.setDuration sender duration
  | .transferOwnership newOwner => house.transferOwnership sender newOwner
  | .renounceOwnership => house.renounceOwnership sender
  | _ => throw .callFailed

end NounsAuctionHouse

namespace AuctionWorld

variable {τ : Type} (t : INounsToken τ) (this : Address) (s : AuctionWorld τ)

/-- The internal `_createAuction`.  A mint that reverts with a text pauses the house. -/
def createAuction (sender : Address) : Tx (AuctionWorld τ) :=
  match t.mint this s.token with
  | .ok (token, nounId) =>
    let startTime := s.timestamp
    let endTime := startTime + s.house.duration
    let auction := { nounId, amount := 0, startTime, endTime, bidder := 0, settled := false }
    let house := { s.house with auction }.emit (.AuctionCreated nounId startTime endTime)
    return { s with token, house }
  | .error (.require _) => do return { s with house := ← s.house.pauseBy sender }
  | .error e => throw e

/-- The beginning of a guarded function. -/
def enter : Tx (AuctionWorld τ) := do
  require (s.entered = false) (.require "ReentrancyGuard: reentrant call")
  return { s with entered := true }

def leave : AuctionWorld τ := { s with entered := false }

/-- Goes on after the payment, or without one. -/
def finish : AuctionContinuation → Tx (AuctionWorld τ)
  | .createBid auction sender value =>
      return { s with house := s.house.placeBid s.timestamp auction sender value }.leave
  | .settle auction sender createsNew => do
      let house := s.house.emit (.AuctionSettled auction.nounId auction.bidder auction.amount)
      let s := { s with house }
      let s ← if createsNew then s.createAuction t this sender else pure s
      return s.leave

/-- `_safeTransferETHWithFallback`, and what follows it.  A recipient that `accepts` is given
control; the others are sent WETH.  Both take the house's own ETH. -/
def pay (to_ : Address) (amount : Nat) (accepts : Bool) (k : AuctionContinuation) :
    Tx (AuctionWorld τ) := do
  require (amount ≤ s.eth) .callFailed
  let s := { s with
    eth := s.eth - amount
    sent := ⟨to_, amount, k.reason⟩ :: s.sent }
  if accepts then return { s with pending := some k }
  else
    let s := { s with weth := Function.update s.weth to_ (s.weth to_ + amount) }
    s.finish t this k

def createBid (sender : Address) (nounId value : Nat) (accepts : Bool) : Tx (AuctionWorld τ) := do
  let s ← s.enter
  let s := { s with eth := s.eth + value }
  s.house.checkBid s.timestamp nounId value
  let auction := s.house.auction
  let k := AuctionContinuation.createBid auction sender value
  if auction.bidder ≠ 0 then s.pay t this auction.bidder auction.amount accepts k
  else s.finish t this k

/-- The internal `_settleAuction`, and what follows it. -/
def settle (sender : Address) (createsNew accepts : Bool) : Tx (AuctionWorld τ) := do
  s.house.checkSettle s.timestamp
  let auction := s.house.auction
  let house := { s.house with auction := { auction with settled := true } }
  let token ← t.handOver this auction s.token
  let s := { s with house, token }
  let k := AuctionContinuation.settle auction sender createsNew
  if auction.amount > 0 then s.pay t this s.house.owner auction.amount accepts k
  else s.finish t this k

def settleCurrentAndCreateNewAuction (sender : Address) (accepts : Bool) : Tx (AuctionWorld τ) := do
  let s ← s.enter
  s.house.whenNotPaused
  s.settle t this sender true accepts

def settleAuction (sender : Address) (accepts : Bool) : Tx (AuctionWorld τ) := do
  s.house.whenPaused
  let s ← s.enter
  s.settle t this sender false accepts

def unpause (sender : Address) : Tx (AuctionWorld τ) := do
  s.house.onlyOwner sender
  let house ← s.house.unpauseBy sender
  let s := { s with house }
  if house.auction.startTime = 0 ∨ house.auction.settled = true then
    s.createAuction t this sender
  else return s

/-- A call by `sender`; `accepts` tells whether the recipient of a payment takes ETH. -/
def call (sender : Address) (accepts : Bool) : AuctionHouseCall → Tx (AuctionWorld τ)
  | .settleCurrentAndCreateNewAuction =>
      s.settleCurrentAndCreateNewAuction t this sender accepts
  | .settleAuction => s.settleAuction t this sender accepts
  | .createBid nounId value => s.createBid t this sender nounId value accepts
  | .unpause => s.unpause t this sender
  | cl => do return { s with house := ← s.house.ownerCall sender cl }

/-- The recipient of the payment returns. -/
def return_ : Tx (AuctionWorld τ) :=
  match s.pending with
  | some k => { s with pending := none }.finish t this k
  | none => throw .callFailed

/-! ## Steps -/

/-- One step of the chain.  `tokens` are the ways the token can behave in a block, `others` what it
does for anybody else than the house, and `admits` restricts when the house is called. -/
inductive Next (tokens : Nat → INounsToken τ → Prop) (others : Nat → Nat → τ → τ → Prop)
    (admits : AuctionWorld τ → Prop) : AuctionWorld τ → AuctionWorld τ → Prop
  /-- A transaction lies within one block. -/
  | advance {s : AuctionWorld τ} (blockNumber timestamp : Nat) : s.pending = none →
      s.blockNumber ≤ blockNumber → s.timestamp ≤ timestamp →
      Next tokens others admits s { s with blockNumber, timestamp }
  | call {s s' : AuctionWorld τ} (t : INounsToken τ) (sender : Account) (accepts : Bool)
      (cl : AuctionHouseCall) : tokens s.blockNumber t → admits s →
      s.call t this sender accepts cl = .ok s' → Next tokens others admits s s'
  | return_ {s s' : AuctionWorld τ} (t : INounsToken τ) : tokens s.blockNumber t →
      s.return_ t this = .ok s' → Next tokens others admits s s'
  | token {s : AuctionWorld τ} {token : τ} : others s.blockNumber s.timestamp s.token token →
      Next tokens others admits s { s with token }
  /-- ETH can be forced on any contract. -/
  | receive {s : AuctionWorld τ} (amount : Nat) :
      Next tokens others admits s { s with eth := s.eth + amount, forced := s.forced + amount }

/-! ## Evaluating runs -/

end AuctionWorld

inductive AuctionAction
  | advance (blockNumber timestamp : Nat)
  | call (sender : Account) (accepts : Bool) (cl : AuctionHouseCall)
  | return_

namespace AuctionWorld

variable {τ : Type} (interface : Nat → INounsToken τ) (this : Address) (s : AuctionWorld τ)

def step : AuctionAction → Tx (AuctionWorld τ)
  | .advance blockNumber timestamp => do
      require (s.pending.isNone = true ∧ s.blockNumber ≤ blockNumber ∧ s.timestamp ≤ timestamp)
        .callFailed
      return { s with blockNumber, timestamp }
  | .call sender accepts cl => s.call (interface s.blockNumber) this sender accepts cl
  | .return_ => s.return_ (interface s.blockNumber) this

/-- Makes the calls one after the other. -/
def run (s : AuctionWorld τ) : List AuctionAction → Tx (AuctionWorld τ)
  | [] => return s
  | a :: actions => do
    let s' ← s.step interface this a
    run s' actions

variable {interface this s}

theorem step_next {tokens : Nat → INounsToken τ → Prop} {others : Nat → Nat → τ → τ → Prop}
    {admits : AuctionWorld τ → Prop} {s' : AuctionWorld τ} {a : AuctionAction}
    (htokens : ∀ now, tokens now (interface now)) (hadmits : admits s)
    (h : s.step interface this a = .ok s') : Next this tokens others admits s s' := by
  cases a with
  | advance blockNumber timestamp =>
    simp only [step, bind_eq_ok, require_eq_ok, pure_eq_ok] at h
    obtain ⟨_, ⟨hpending, hblock, htime⟩, rfl⟩ := h
    exact .advance blockNumber timestamp (Option.isNone_iff_eq_none.mp hpending) hblock htime
  | call sender accepts cl => exact .call _ sender accepts cl (htokens _) hadmits h
  | return_ => exact .return_ _ (htokens _) h

theorem run_steps {tokens : Nat → INounsToken τ → Prop} {others : Nat → Nat → τ → τ → Prop}
    {admits : AuctionWorld τ → Prop} {s' : AuctionWorld τ} {actions : List AuctionAction}
    (htokens : ∀ now, tokens now (interface now))
    (hadmits : ∀ i < actions.length, ∀ s₁,
      s.run interface this (actions.take i) = .ok s₁ → admits s₁)
    (h : s.run interface this actions = .ok s') :
    Relation.ReflTransGen (Next this tokens others admits) s s' := by
  induction actions generalizing s with
  | nil =>
    cases pure_eq_ok.mp h
    exact .refl
  | cons a actions ih =>
    simp only [run, bind_eq_ok] at h
    obtain ⟨s₁, hstep, hrest⟩ := h
    have hnow : admits s := hadmits 0 (Nat.succ_pos _) s rfl
    refine .head (step_next htokens hnow hstep) (ih ?_ hrest)
    intro i hi s₂ hrun
    refine hadmits (i + 1) (Nat.succ_lt_succ hi) s₂ ?_
    simp only [List.take_succ_cons, run, bind_eq_ok]
    exact ⟨s₁, hstep, hrun⟩

/-- The house is at 7, its owner is 8. -/
def sample : AuctionWorld NounsToken where
  blockNumber := 1
  timestamp := 1
  house := .deploy 8 5 1 5 10
  entered := false
  token := .deploy 102 8 7
  eth := 0
  forced := 0
  weth := fun _ => 0
  sent := []
  pending := none

end AuctionWorld

end Nouns
