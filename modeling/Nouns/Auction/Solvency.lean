import Mathlib.Algebra.GroupWithZero.Nat
import Nouns.Auction.Payments
import Nouns.Token.Reverts

/-!
# Solvency — where the ETH of the bids goes

The books of the house are kept in its log: bids come in, a bid that is outbid goes back, and the
last bid of a settled auction goes to the owner.  They balance at every payment, whatever the token
does and whoever is called.
-/

open Fallible Transition

namespace Nouns

/-! ## Reading the log -/

/-- A bid in the auction with this number. -/
structure Bid where
  auction : Nat
  bidder : Address
  value : Nat

namespace AuctionHouseEvent

/-- How many auctions were created. -/
def auctions : List AuctionHouseEvent → Nat
  | [] => 0
  | .AuctionCreated _ _ _ :: log => auctions log + 1
  | _ :: log => auctions log

/-- All bids, newest first. -/
def bids : List AuctionHouseEvent → List Bid
  | [] => []
  | .AuctionBid _ sender value _ :: log => ⟨auctions log, sender, value⟩ :: bids log
  | _ :: log => bids log

/-- The amounts of the auctions that were settled, newest first.  Nothing is paid for a Noun that
went for nothing. -/
def proceeds : List AuctionHouseEvent → List Nat
  | [] => []
  | .AuctionSettled _ _ amount :: log => if amount > 0 then amount :: proceeds log else proceeds log
  | _ :: log => proceeds log

end AuctionHouseEvent

/-- The bids that were followed by another one in the same auction, newest first. -/
def outbid : List Bid → List Bid
  | new :: old :: bids =>
    if new.auction = old.auction then old :: outbid (old :: bids) else outbid (old :: bids)
  | _ => []

/-- Who was paid how much. -/
def Payment.refunds : List Payment → List (Address × Nat)
  | [] => []
  | p :: sent => if p.reason = .refund then (p.to_, p.amount) :: refunds sent else refunds sent

def Payment.payouts : List Payment → List (Address × Nat)
  | [] => []
  | p :: sent => if p.reason = .payout then (p.to_, p.amount) :: payouts sent else payouts sent

def total (payments : List (Address × Nat)) : Nat := (payments.map Prod.snd).sum

open AuctionHouseEvent Payment

namespace AuctionWorld

variable {τ : Type} {t : INounsToken τ} {this : Address} {s s' : AuctionWorld τ}

/-- The amount of the current auction, if it is unsettled. -/
def unsettled (s : AuctionWorld τ) : Nat :=
  if s.house.auction.settled then 0 else s.house.auction.amount

/-! ## The books -/

/-- All bids, with the one that `k` is about to place. -/
def bidsWith (s : AuctionWorld τ) : Option AuctionContinuation → List Bid
  | some (.createBid _ sender value) =>
      ⟨auctions s.house.log, sender, value⟩ :: bids s.house.log
  | _ => bids s.house.log

/-- What the house holds for the current auction: a new bid as soon as the old one is refunded. -/
def heldWith (s : AuctionWorld τ) : Option AuctionContinuation → Nat
  | some (.createBid _ _ value) => value
  | _ => s.unsettled

def proceedsWith (s : AuctionWorld τ) : Option AuctionContinuation → List Nat
  | some (.settle auction _ _) =>
      if auction.amount > 0 then auction.amount :: proceeds s.house.log else proceeds s.house.log
  | _ => proceeds s.house.log

/-- The books with `k` in progress, whose payment has been made. -/
structure Books (s : AuctionWorld τ) (k : Option AuctionContinuation) : Prop where
  conserved : ((s.bidsWith k).map Bid.value).sum =
    total (refunds s.sent) + total (payouts s.sent) + s.heldWith k
  /-- What nobody bid stays in the house. -/
  balanced : s.eth = s.forced + s.heldWith k
  refunded : refunds s.sent = (outbid (s.bidsWith k)).map (fun b => (b.bidder, b.value))
  paidOut : (payouts s.sent).map Prod.snd = s.proceedsWith k
  /-- The bid on record is the newest one. -/
  newest : s.house.auction.settled = false →
    (s.house.auction.bidder = 0 ∧ s.house.auction.amount = 0 ∧
      ∀ b ∈ bids s.house.log, b.auction < auctions s.house.log) ∨
    (s.house.auction.bidder ≠ 0 ∧ ∃ older, bids s.house.log =
      ⟨auctions s.house.log, s.house.auction.bidder, s.house.auction.amount⟩ :: older)
  numbered : ∀ b ∈ bids s.house.log, b.auction ≤ auctions s.house.log

/-- An auction that was settled is over, and the record is empty before the first one. -/
structure Timed (s : AuctionWorld τ) : Prop where
  clock : 0 < s.timestamp
  begun : s.house.auction.startTime = 0 →
    s.house.auction.endTime = 0 ∧ s.house.auction.amount = 0
  closed : s.house.auction.settled = true → s.house.auction.endTime ≤ s.timestamp

/-- While the last bidder is refunded the auction is as it was when the bid was made; while the
owner is paid nothing else is owed. -/
def InProgress (s : AuctionWorld τ) : Option AuctionContinuation → Prop
  | some (.createBid auction sender value) => auction = s.house.auction ∧ sender ≠ 0 ∧
      auction.settled = false ∧ s.timestamp < auction.endTime ∧ auction.amount ≤ value
  | some (.settle _ _ _) => s.unsettled = 0
  | none => True

structure Solvent (s : AuctionWorld τ) : Prop where
  books : s.Books s.pending
  timed : s.Timed
  inProgress : s.InProgress s.pending
  guarded : s.pending ≠ none → s.entered = true

/-! ## Calls that move no money -/

/-- The new events are about neither bids nor auctions. -/
structure SameBooks (house house' : NounsAuctionHouse) : Prop where
  auction : house'.auction = house.auction
  bids : bids house'.log = bids house.log
  auctions : auctions house'.log = auctions house.log
  proceeds : proceeds house'.log = proceeds house.log

theorem Books.of_same {k : Option AuctionContinuation} (h : s.Books k)
    (hhouse : SameBooks s.house s'.house) (hsent : s'.sent = s.sent)
    (heth : s'.eth + s.forced = s.eth + s'.forced) :
    s'.Books k := by
  have hbids : s'.bidsWith k = s.bidsWith k := by
    rcases k with _ | ⟨_, _, _⟩ | ⟨_, _, _⟩ <;> simp only [bidsWith, hhouse.bids, hhouse.auctions]
  have hheld : s'.heldWith k = s.heldWith k := by
    rcases k with _ | ⟨_, _, _⟩ | ⟨_, _, _⟩ <;> simp only [heldWith, unsettled, hhouse.auction]
  have hproceeds : s'.proceedsWith k = s.proceedsWith k := by
    rcases k with _ | ⟨_, _, _⟩ | ⟨_, _, _⟩ <;> simp only [proceedsWith, hhouse.proceeds]
  refine ⟨?_, ?_, ?_, ?_, ?_, ?_⟩
  · rw [hbids, hsent, hheld]
    exact h.conserved
  · have hbalanced := h.balanced
    rw [hheld]
    omega
  · rw [hbids, hsent]
    exact h.refunded
  · rw [hproceeds, hsent]
    exact h.paidOut
  · rw [hhouse.auction, hhouse.bids, hhouse.auctions]
    exact h.newest
  · rw [hhouse.bids, hhouse.auctions]
    exact h.numbered

theorem pauseBy_same {house house' : NounsAuctionHouse} {sender : Address}
    (h : house.pauseBy sender = .ok house') : SameBooks house house' := by
  simp only [NounsAuctionHouse.pauseBy, bind_eq_ok, pure_eq_ok] at h
  obtain ⟨_, -, rfl⟩ := h
  exact ⟨rfl, rfl, rfl, rfl⟩

theorem unpauseBy_same {house house' : NounsAuctionHouse} {sender : Address}
    (h : house.unpauseBy sender = .ok house') : SameBooks house house' := by
  simp only [NounsAuctionHouse.unpauseBy, bind_eq_ok, pure_eq_ok] at h
  obtain ⟨_, -, rfl⟩ := h
  exact ⟨rfl, rfl, rfl, rfl⟩

theorem ownerCall_same {house house' : NounsAuctionHouse} {sender : Address} {cl : AuctionHouseCall}
    (h : house.ownerCall sender cl = .ok house') : SameBooks house house' := by
  cases cl with
  | pause =>
    simp only [NounsAuctionHouse.ownerCall, NounsAuctionHouse.pause, bind_eq_ok] at h
    obtain ⟨_, -, h⟩ := h
    exact pauseBy_same h
  | setTimeBuffer v | setReservePrice v | setMinBidIncrementPercentage v | setDuration v =>
    simp only [NounsAuctionHouse.ownerCall, NounsAuctionHouse.setTimeBuffer,
      NounsAuctionHouse.setReservePrice, NounsAuctionHouse.setMinBidIncrementPercentage,
      NounsAuctionHouse.setDuration, NounsAuctionHouse.set, bind_eq_ok, pure_eq_ok] at h
    obtain ⟨_, -, rfl⟩ := h
    exact ⟨rfl, rfl, rfl, rfl⟩
  | transferOwnership newOwner =>
    simp only [NounsAuctionHouse.ownerCall, NounsAuctionHouse.transferOwnership, bind_eq_ok,
      pure_eq_ok] at h
    obtain ⟨_, -, _, -, rfl⟩ := h
    exact ⟨rfl, rfl, rfl, rfl⟩
  | renounceOwnership =>
    simp only [NounsAuctionHouse.ownerCall, NounsAuctionHouse.renounceOwnership, bind_eq_ok,
      pure_eq_ok] at h
    obtain ⟨_, -, rfl⟩ := h
    exact ⟨rfl, rfl, rfl, rfl⟩
  | settleCurrentAndCreateNewAuction => exact absurd h throw_ne_ok
  | settleAuction => exact absurd h throw_ne_ok
  | createBid nounId value => exact absurd h throw_ne_ok
  | unpause => exact absurd h throw_ne_ok

/-! ## Creating an auction -/

/-- A new auction, or the house paused because the token refused to mint. -/
theorem createAuction_ok {sender : Address} (h : s.createAuction t this sender = .ok s') :
    (∃ token nounId, t.mint this s.token = .ok (token, nounId) ∧
      s' = { s with
        token
        house := { s.house with
          auction := ⟨nounId, 0, s.timestamp, s.timestamp + s.house.duration, 0, false⟩ }.emit
            (.AuctionCreated nounId s.timestamp (s.timestamp + s.house.duration)) }) ∨
    ∃ house, s.house.pauseBy sender = .ok house ∧ s' = { s with house } := by
  simp only [createAuction] at h
  split at h
  · rename_i token nounId hmint
    exact .inl ⟨token, nounId, hmint, (pure_eq_ok.mp h).symm⟩
  · simp only [bind_eq_ok, pure_eq_ok] at h
    obtain ⟨house, hpause, rfl⟩ := h
    exact .inr ⟨house, hpause, rfl⟩
  · exact absurd h throw_ne_ok

/-- No bid is being placed. -/
def NoBid (k : Option AuctionContinuation) : Prop :=
  ∀ auction sender value, k ≠ some (.createBid auction sender value)

theorem bidsWith_of_noBid {k : Option AuctionContinuation} (hk : NoBid k) (s : AuctionWorld τ) :
    s.bidsWith k = bids s.house.log := by
  rcases k with _ | ⟨_, _, _⟩ | ⟨_, _, _⟩
  · rfl
  · exact absurd rfl (hk _ _ _)
  · rfl

theorem heldWith_of_noBid {k : Option AuctionContinuation} (hk : NoBid k) (s : AuctionWorld τ) :
    s.heldWith k = s.unsettled := by
  rcases k with _ | ⟨_, _, _⟩ | ⟨_, _, _⟩
  · rfl
  · exact absurd rfl (hk _ _ _)
  · rfl

theorem createAuction_books {k : Option AuctionContinuation} {sender : Address} (h : s.Books k)
    (hdone : s.unsettled = 0) (hk : NoBid k)
    (hcreate : s.createAuction t this sender = .ok s') : s'.Books k := by
  have hconserved := h.conserved
  have hbalanced := h.balanced
  have hrefunded := h.refunded
  rw [bidsWith_of_noBid hk, heldWith_of_noBid hk, hdone] at hconserved
  rw [heldWith_of_noBid hk, hdone] at hbalanced
  rw [bidsWith_of_noBid hk] at hrefunded
  rcases createAuction_ok hcreate with ⟨token, nounId, -, rfl⟩ | ⟨house, hpause, rfl⟩
  · refine ⟨?_, ?_, ?_, ?_, ?_, ?_⟩
    · rw [bidsWith_of_noBid hk, heldWith_of_noBid hk]
      exact hconserved
    · rw [heldWith_of_noBid hk]
      exact hbalanced
    · rw [bidsWith_of_noBid hk]
      exact hrefunded
    · have hpaid := h.paidOut
      rcases k with _ | ⟨_, _, _⟩ | ⟨_, _, _⟩ <;> exact hpaid
    · intro _
      exact .inl ⟨rfl, rfl, fun b hb => Nat.lt_succ_of_le (h.numbered b hb)⟩
    · intro b hb
      exact Nat.le_succ_of_le (h.numbered b hb)
  · exact h.of_same (pauseBy_same hpause) rfl rfl

/-! ## Bids -/

theorem outbid_cons_of_lt {new : Bid} {bids : List Bid}
    (h : ∀ b ∈ bids, b.auction < new.auction) : outbid (new :: bids) = outbid bids := by
  cases bids with
  | nil => rfl
  | cons old older =>
    have hlt := h old (List.mem_cons_self ..)
    rw [outbid, if_neg (by omega)]

theorem outbid_cons_cons (auction : Nat) (new old : Address) (value amount : Nat)
    (bids : List Bid) :
    outbid (⟨auction, new, value⟩ :: ⟨auction, old, amount⟩ :: bids) =
      ⟨auction, old, amount⟩ :: outbid (⟨auction, old, amount⟩ :: bids) := by
  rw [outbid, if_pos rfl]

@[simp] theorem total_nil : total [] = 0 := rfl

@[simp] theorem total_cons (p : Address × Nat) (l : List (Address × Nat)) :
    total (p :: l) = p.2 + total l := by
  simp [total]

/-- The first bid of an auction comes in. -/
theorem Books.firstBid (h : s.Books none) (hopen : s.house.auction.settled = false)
    (hnone : s.house.auction.bidder = 0) (sender : Address) (value : Nat) :
    Books { s with eth := s.eth + value } (some (.createBid s.house.auction sender value)) := by
  rcases h.newest hopen with ⟨-, hzero, hlt⟩ | ⟨hne, -⟩
  · have hunsettled : s.unsettled = 0 := by rw [unsettled, hopen, hzero]; rfl
    have hconserved := h.conserved
    have hbalanced := h.balanced
    have hrefunded := h.refunded
    simp only [bidsWith, heldWith, hunsettled] at hconserved hbalanced hrefunded
    refine ⟨?_, ?_, ?_, h.paidOut, h.newest, h.numbered⟩
    · simp only [bidsWith, heldWith, List.map_cons, List.sum_cons]
      omega
    · simp only [heldWith]
      omega
    · simp only [bidsWith]
      rw [outbid_cons_of_lt hlt]
      exact hrefunded
  · exact absurd hnone hne

/-- Another bid comes in, and the last one goes back. -/
theorem Books.nextBid (h : s.Books none) (hopen : s.house.auction.settled = false)
    (hsome : s.house.auction.bidder ≠ 0) (sender : Address) (value : Nat) :
    Books { s with
      eth := s.eth + value - s.house.auction.amount
      sent := ⟨s.house.auction.bidder, s.house.auction.amount, .refund⟩ :: s.sent }
      (some (.createBid s.house.auction sender value)) := by
  rcases h.newest hopen with ⟨hnone, -⟩ | ⟨-, older, holder⟩
  · exact absurd hnone hsome
  · have hunsettled : s.unsettled = s.house.auction.amount := by rw [unsettled, hopen]; rfl
    have hconserved := h.conserved
    have hrefunded := h.refunded
    have hbalanced := h.balanced
    simp only [bidsWith, heldWith, hunsettled] at hconserved hrefunded hbalanced
    refine ⟨?_, ?_, ?_, h.paidOut, h.newest, h.numbered⟩
    · simp only [bidsWith, heldWith, refunds, payouts, List.map_cons, List.sum_cons, if_true,
        total_cons]
      rw [if_neg (by decide)]
      omega
    · simp only [heldWith]
      omega
    · simp only [bidsWith, refunds, if_true]
      rw [hrefunded, holder, outbid_cons_cons]
      rfl

theorem placeBid_eq (house : NounsAuctionHouse) (timestamp : Nat) (sender : Address) (value : Nat) :
    let house' := house.placeBid timestamp house.auction sender value
    (∃ endTime, house'.auction =
      { house.auction with amount := value, bidder := sender, endTime }) ∧
    auctions house'.log = auctions house.log ∧ proceeds house'.log = proceeds house.log ∧
    bids house'.log = ⟨auctions house.log, sender, value⟩ :: bids house.log := by
  simp only [NounsAuctionHouse.placeBid]
  split
  · exact ⟨⟨_, rfl⟩, rfl, rfl, rfl⟩
  · exact ⟨⟨_, rfl⟩, rfl, rfl, rfl⟩

/-- The bid is placed. -/
theorem Books.placeBid {sender : Address} {value : Nat}
    (h : s.Books (some (.createBid s.house.auction sender value))) (hsender : sender ≠ 0)
    (hopen : s.house.auction.settled = false) :
    Books { s with house := s.house.placeBid s.timestamp s.house.auction sender value } none := by
  obtain ⟨⟨endTime, hauction⟩, hauctions, hproceeds, hbids⟩ :=
    placeBid_eq s.house s.timestamp sender value
  have hheld : AuctionWorld.unsettled
      { s with house := s.house.placeBid s.timestamp s.house.auction sender value } = value := by
    simp only [unsettled, hauction, hopen]
    rfl
  refine ⟨?_, ?_, ?_, ?_, ?_, ?_⟩
  · simp only [bidsWith, heldWith, hbids, hheld]
    exact h.conserved
  · simp only [heldWith, hheld]
    exact h.balanced
  · simp only [bidsWith, hbids]
    exact h.refunded
  · simp only [proceedsWith, hproceeds]
    exact h.paidOut
  · intro _
    refine .inr ?_
    simp only [hauction, hbids, hauctions]
    exact ⟨hsender, bids s.house.log, rfl⟩
  · intro b hb
    simp only [hbids, hauctions] at hb ⊢
    rcases List.mem_cons.mp hb with rfl | hb
    · exact Nat.le_refl _
    · exact h.numbered b hb

/-! ## Settlements -/

/-- An auction is settled; if it brought something in, the owner is paid. -/
theorem Books.settle (h : s.Books none) (hopen : s.house.auction.settled = false) (token : τ)
    (sender : Address) (createsNew : Bool) :
    (s.house.auction.amount = 0 →
      Books { s with
        token, house := { s.house with auction := { s.house.auction with settled := true } } }
        (some (.settle s.house.auction sender createsNew))) ∧
    (0 < s.house.auction.amount → ∀ to_,
      Books { s with
        token
        eth := s.eth - s.house.auction.amount
        house := { s.house with auction := { s.house.auction with settled := true } }
        sent := ⟨to_, s.house.auction.amount, .payout⟩ :: s.sent }
        (some (.settle s.house.auction sender createsNew))) := by
  have hunsettled : s.unsettled = s.house.auction.amount := by rw [unsettled, hopen]; rfl
  have hconserved := h.conserved
  have hbalanced := h.balanced
  have hpaid := h.paidOut
  simp only [bidsWith, heldWith, hunsettled] at hconserved hbalanced
  simp only [proceedsWith] at hpaid
  constructor
  · intro hzero
    refine ⟨?_, ?_, h.refunded, ?_, ?_, h.numbered⟩
    · simp only [bidsWith, heldWith, unsettled, if_true]
      omega
    · simp only [heldWith, unsettled, if_true]
      omega
    · simp only [proceedsWith, hzero]
      exact hpaid
    · intro hfalse
      cases hfalse
  · intro hpos to_
    refine ⟨?_, ?_, ?_, ?_, ?_, h.numbered⟩
    · simp only [bidsWith, heldWith, unsettled, refunds, payouts, if_true, total_cons]
      rw [if_neg (by decide)]
      omega
    · simp only [heldWith, unsettled, if_true]
      omega
    · simp only [refunds, bidsWith]
      rw [if_neg (by decide)]
      exact h.refunded
    · simp only [payouts, if_true, proceedsWith, List.map_cons, hpaid, if_pos hpos]
    · intro hfalse
      cases hfalse

/-- The event of the settlement. -/
theorem Books.settled {auction : Auction} {sender : Address} {createsNew : Bool}
    (h : s.Books (some (.settle auction sender createsNew))) :
    Books { s with
      house :=
        s.house.emit (.AuctionSettled auction.nounId auction.bidder auction.amount) } none :=
  ⟨h.conserved, h.balanced, h.refunded, h.paidOut, h.newest, h.numbered⟩

/-! ## Calls -/

theorem Timed.startTime_ne_zero (h : s.Timed) (hopen : s.timestamp < s.house.auction.endTime) :
    s.house.auction.startTime ≠ 0 := by
  intro hzero
  rw [(h.begun hzero).1] at hopen
  exact Nat.not_lt_zero _ hopen

theorem Timed.open (h : s.Timed) (hopen : s.timestamp < s.house.auction.endTime) :
    s.house.auction.settled = false := by
  by_contra hsettled
  have hclosed := h.closed (by simpa using hsettled)
  omega

/-- Nothing is owed when there is no auction. -/
theorem Timed.unsettled_eq_zero (h : s.Timed)
    (hdone : s.house.auction.startTime = 0 ∨ s.house.auction.settled = true) : s.unsettled = 0 := by
  rw [unsettled]
  rcases hdone with hzero | hsettled
  · rw [(h.begun hzero).2, ite_self]
  · rw [if_pos hsettled]

theorem createAuction_timed {sender : Address} (h : s.Timed)
    (hcreate : s.createAuction t this sender = .ok s') :
    s'.Timed ∧ s'.pending = s.pending ∧ s'.entered = s.entered ∧
      (s.unsettled = 0 → s'.unsettled = 0) := by
  rcases createAuction_ok hcreate with ⟨token, nounId, -, rfl⟩ | ⟨house, hpause, rfl⟩
  · refine ⟨⟨h.clock, ?_, ?_⟩, rfl, rfl, fun _ => rfl⟩
    · intro hzero
      exact absurd hzero (Nat.ne_of_gt h.clock)
    · intro hsettled
      cases hsettled
  · have hauction := (pauseBy_same hpause).auction
    refine ⟨⟨h.clock, ?_, ?_⟩, rfl, rfl, ?_⟩
    · simp only [hauction]
      exact h.begun
    · simp only [hauction]
      exact h.closed
    · simp only [unsettled, hauction]
      exact id

theorem finish_solvent {k : AuctionContinuation} (hbooks : s.Books (some k)) (htimed : s.Timed)
    (hk : s.InProgress (some k)) (hpending : s.pending = none)
    (h : s.finish t this k = .ok s') : s'.Solvent := by
  cases k with
  | createBid auction sender value =>
    obtain ⟨rfl, hsender, hopen, hlt, -⟩ := hk
    rw [← pure_eq_ok.mp h]
    obtain ⟨⟨endTime, hauction⟩, -⟩ := placeBid_eq s.house s.timestamp sender value
    have hplaced := hbooks.placeBid hsender hopen
    refine ⟨?_, ⟨htimed.clock, ?_, ?_⟩, ?_, fun hsome => absurd hpending hsome⟩
    · simp only [leave, hpending]
      exact hplaced.of_same ⟨rfl, rfl, rfl, rfl⟩ rfl rfl
    · simp only [leave, hauction]
      intro hzero
      exact absurd hzero (htimed.startTime_ne_zero hlt)
    · simp only [leave, hauction, hopen]
      intro hfalse
      cases hfalse
    · simp only [leave, hpending]
      trivial
  | settle auction sender createsNew =>
    have hsettled := hbooks.settled
    have htimed' : Timed { s with
        house := s.house.emit (.AuctionSettled auction.nounId auction.bidder auction.amount) } :=
      ⟨htimed.clock, htimed.begun, htimed.closed⟩
    obtain ⟨s₁, ⟨hbooks₁, htimed₁, hpending₁⟩, rfl⟩ :
        ∃ s₁ : AuctionWorld τ, (s₁.Books none ∧ s₁.Timed ∧ s₁.pending = none) ∧ s' = s₁.leave := by
      simp only [finish] at h
      split at h
      · obtain ⟨s₁, hcreate, hs'⟩ := bind_eq_ok.mp h
        obtain ⟨htimed₁, hpending₁, -⟩ := createAuction_timed htimed' hcreate
        exact ⟨s₁, ⟨createAuction_books hsettled hk (fun _ _ _ => nofun) hcreate, htimed₁,
          hpending₁.trans hpending⟩, (pure_eq_ok.mp hs').symm⟩
      · exact ⟨_, ⟨hsettled, htimed', hpending⟩, (pure_eq_ok.mp h).symm⟩
    refine ⟨?_, ⟨htimed₁.clock, htimed₁.begun, htimed₁.closed⟩, ?_,
      fun hsome => absurd hpending₁ hsome⟩
    · simp only [leave, hpending₁]
      exact hbooks₁.of_same ⟨rfl, rfl, rfl, rfl⟩ rfl rfl
    · simp only [leave, hpending₁]
      trivial

/-- The state right after a payment. -/
def paid (s : AuctionWorld τ) (to_ : Address) (amount : Nat) (reason : PaymentReason) :
    AuctionWorld τ :=
  { s with
    eth := s.eth - amount
    sent := ⟨to_, amount, reason⟩ :: s.sent }

theorem pay_solvent {to_ : Address} {amount : Nat} {accepts : Bool} {k : AuctionContinuation}
    (hbooks : (s.paid to_ amount k.reason).Books (some k)) (htimed : s.Timed)
    (hk : s.InProgress (some k)) (hpending : s.pending = none) (hentered : s.entered = true)
    (h : s.pay t this to_ amount accepts k = .ok s') : s'.Solvent := by
  simp only [pay, bind_eq_ok, require_eq_ok] at h
  obtain ⟨_, -, h⟩ := h
  have hk' : (s.paid to_ amount k.reason).InProgress (some k) := by
    cases k with
    | createBid auction sender value => exact hk
    | settle auction sender createsNew => exact hk
  split at h
  · rw [← pure_eq_ok.mp h]
    refine ⟨?_, ⟨htimed.clock, htimed.begun, htimed.closed⟩, ?_, fun _ => hentered⟩
    · exact hbooks.of_same ⟨rfl, rfl, rfl, rfl⟩ rfl rfl
    · cases k with
      | createBid auction sender value => exact hk
      | settle auction sender createsNew => exact hk
  · refine finish_solvent ?_ ?_ ?_ ?_ h
    · exact hbooks.of_same ⟨rfl, rfl, rfl, rfl⟩ rfl rfl
    · exact ⟨htimed.clock, htimed.begun, htimed.closed⟩
    · cases k with
      | createBid auction sender value => exact hk
      | settle auction sender createsNew => exact hk
    · exact hpending

theorem enter_ok (h : s.enter = .ok s') : s.entered = false ∧ s' = { s with entered := true } := by
  simp only [enter, bind_eq_ok, require_eq_ok, pure_eq_ok] at h
  obtain ⟨_, hentered, rfl⟩ := h
  exact ⟨hentered, rfl⟩

theorem Solvent.pending_eq_none (h : s.Solvent) (hentered : s.entered = false) :
    s.pending = none := by
  by_contra hsome
  rw [h.guarded hsome] at hentered
  cases hentered

theorem createBid_solvent {sender : Account} {nounId value : Nat} {accepts : Bool} (hs : s.Solvent)
    (h : s.createBid t this sender nounId value accepts = .ok s') : s'.Solvent := by
  simp only [createBid, bind_eq_ok] at h
  obtain ⟨s₁, henter, _, hcheck, h⟩ := h
  obtain ⟨hentered, rfl⟩ := enter_ok henter
  simp only [NounsAuctionHouse.checkBid, bind_eq_ok, require_eq_ok] at hcheck
  obtain ⟨_, -, _, hlt, _, -, hvalue⟩ := hcheck
  have hpending := hs.pending_eq_none hentered
  have hopen := hs.timed.open hlt
  have hbooks := hs.books
  rw [hpending] at hbooks
  have htimed : Timed { s with entered := true, eth := s.eth + value } :=
    ⟨hs.timed.clock, hs.timed.begun, hs.timed.closed⟩
  have hk : InProgress { s with entered := true, eth := s.eth + value }
      (some (.createBid s.house.auction sender value)) :=
    ⟨rfl, sender.2, hopen, hlt, by omega⟩
  split at h
  · rename_i hsome
    refine pay_solvent ?_ htimed hk hpending rfl h
    exact (hbooks.nextBid hopen hsome sender value).of_same ⟨rfl, rfl, rfl, rfl⟩ rfl rfl
  · rename_i hnone
    refine finish_solvent ?_ htimed hk hpending h
    exact (hbooks.firstBid hopen (not_not.mp hnone) sender value).of_same ⟨rfl, rfl, rfl, rfl⟩ rfl rfl

theorem settle_solvent {sender : Address} {createsNew accepts : Bool} (hs : s.Solvent)
    (hpending : s.pending = none) (hentered : s.entered = true)
    (h : s.settle t this sender createsNew accepts = .ok s') : s'.Solvent := by
  simp only [settle, NounsAuctionHouse.checkSettle, bind_eq_ok, require_eq_ok] at h
  obtain ⟨_, ⟨_, hbegun, _, hopen, hover⟩, token, -, h⟩ := h
  have hbooks := hs.books
  rw [hpending] at hbooks
  obtain ⟨hnothing, hsomething⟩ := hbooks.settle hopen token sender createsNew
  have htimed : Timed { s with
      house := { s.house with auction := { s.house.auction with settled := true } }, token } :=
    ⟨hs.timed.clock, fun hzero => absurd hzero hbegun, fun _ => hover⟩
  split at h
  · rename_i hpos
    refine pay_solvent ?_ htimed ?_ hpending hentered h
    · exact (hsomething hpos s.house.owner).of_same ⟨rfl, rfl, rfl, rfl⟩ rfl rfl
    · exact rfl
  · rename_i hzero
    exact finish_solvent (hnothing (by omega)) htimed rfl hpending h

theorem InProgress.of_same {k : Option AuctionContinuation} (h : s.InProgress k)
    (hauction : s'.house.auction = s.house.auction) (htime : s'.timestamp = s.timestamp) :
    s'.InProgress k := by
  rcases k with _ | ⟨_, _, _⟩ | ⟨_, _, _⟩
  · trivial
  · simp only [InProgress, hauction, htime] at h ⊢
    exact h
  · simp only [InProgress, unsettled, hauction] at h ⊢
    exact h

/-- Nothing but the settings of the house, the token or the balance changed. -/
theorem Solvent.of_same (h : s.Solvent) (hhouse : SameBooks s.house s'.house)
    (htime : s'.timestamp = s.timestamp) (hsent : s'.sent = s.sent)
    (heth : s'.eth + s.forced = s.eth + s'.forced)
    (hpending : s'.pending = s.pending) (hentered : s'.entered = s.entered) : s'.Solvent := by
  refine ⟨?_, ⟨?_, ?_, ?_⟩, ?_, ?_⟩
  · rw [hpending]
    exact h.books.of_same hhouse hsent heth
  · rw [htime]
    exact h.timed.clock
  · rw [hhouse.auction]
    exact h.timed.begun
  · rw [hhouse.auction, htime]
    exact h.timed.closed
  · rw [hpending]
    exact h.inProgress.of_same hhouse.auction htime
  · rw [hpending, hentered]
    exact h.guarded

theorem unpause_solvent {sender : Address} (hs : s.Solvent)
    (h : s.unpause t this sender = .ok s') : s'.Solvent := by
  simp only [unpause, bind_eq_ok] at h
  obtain ⟨_, -, house, hunpause, h⟩ := h
  have hsame := unpauseBy_same hunpause
  have hs₁ : Solvent { s with house } := hs.of_same hsame rfl rfl rfl rfl rfl
  split at h
  · rename_i hdone
    have hzero := hs₁.timed.unsettled_eq_zero hdone
    obtain ⟨htimed, hpending, hentered, hunsettled⟩ := createAuction_timed hs₁.timed h
    -- while a bid is being made there is an auction, so none is created
    have hk : NoBid s.pending := by
      intro auction bidder value hsome
      have hbid := hs₁.inProgress
      simp only [hsome, InProgress] at hbid
      obtain ⟨rfl, -, hopen, hlt, -⟩ := hbid
      rcases hdone with hstart | hsettled
      · exact hs₁.timed.startTime_ne_zero hlt hstart
      · exact absurd hsettled (by simp [hopen])
    refine ⟨?_, htimed, ?_, ?_⟩
    · rw [hpending]
      exact createAuction_books hs₁.books hzero hk h
    · rw [hpending]
      generalize hp : s.pending = k at hk
      rcases k with _ | ⟨_, _, _⟩ | ⟨_, _, _⟩
      · trivial
      · exact absurd rfl (hk _ _ _)
      · exact hunsettled hzero
    · rw [hpending, hentered]
      exact hs₁.guarded
  · rw [← pure_eq_ok.mp h]
    exact hs₁

theorem enter_solvent (hs : s.Solvent) (h : s.enter = .ok s') :
    s'.Solvent ∧ s'.pending = none ∧ s'.entered = true := by
  obtain ⟨hentered, rfl⟩ := enter_ok h
  refine ⟨⟨?_, ?_, ?_, fun _ => rfl⟩, hs.pending_eq_none hentered, rfl⟩
  · exact hs.books.of_same ⟨rfl, rfl, rfl, rfl⟩ rfl rfl
  · exact ⟨hs.timed.clock, hs.timed.begun, hs.timed.closed⟩
  · exact hs.inProgress.of_same rfl rfl

theorem call_solvent {sender : Account} {accepts : Bool} {cl : AuctionHouseCall} (hs : s.Solvent)
    (h : s.call t this sender accepts cl = .ok s') : s'.Solvent := by
  have howner : ∀ house, s.house.ownerCall sender cl = .ok house → Solvent { s with house } :=
    fun house hcall => hs.of_same (ownerCall_same hcall) rfl rfl rfl rfl rfl
  cases cl with
  | settleCurrentAndCreateNewAuction =>
    simp only [call, settleCurrentAndCreateNewAuction, bind_eq_ok] at h
    obtain ⟨s₁, henter, _, -, h⟩ := h
    obtain ⟨hs₁, hpending, hentered⟩ := enter_solvent hs henter
    exact settle_solvent hs₁ hpending hentered h
  | settleAuction =>
    simp only [call, settleAuction, bind_eq_ok] at h
    obtain ⟨_, -, s₁, henter, h⟩ := h
    obtain ⟨hs₁, hpending, hentered⟩ := enter_solvent hs henter
    exact settle_solvent hs₁ hpending hentered h
  | createBid nounId value => exact createBid_solvent hs h
  | unpause => exact unpause_solvent hs h
  | pause | setTimeBuffer _ | setReservePrice _ | setMinBidIncrementPercentage _ | setDuration _
  | transferOwnership _ | renounceOwnership =>
    simp only [call, bind_eq_ok, pure_eq_ok] at h
    obtain ⟨house, hcall, rfl⟩ := h
    exact howner house hcall

theorem return_solvent (hs : s.Solvent) (h : s.return_ t this = .ok s') : s'.Solvent := by
  simp only [return_] at h
  split at h
  · rename_i k hpending
    have hbooks := hs.books
    have hk := hs.inProgress
    rw [hpending] at hbooks hk
    refine finish_solvent ?_ ?_ ?_ rfl h
    · exact hbooks.of_same ⟨rfl, rfl, rfl, rfl⟩ rfl rfl
    · exact ⟨hs.timed.clock, hs.timed.begun, hs.timed.closed⟩
    · exact hk.of_same rfl rfl
  · exact absurd h throw_ne_ok

/-! ## Runs -/

variable {tokens : Nat → INounsToken τ → Prop} {others : Nat → Nat → τ → τ → Prop}
  {admits : AuctionWorld τ → Prop}

theorem Next.solvent (h : Next this tokens others admits s s') (hs : s.Solvent) : s'.Solvent := by
  cases h with
  | advance blockNumber timestamp hpending _ htime =>
    refine ⟨?_, ⟨?_, hs.timed.begun, ?_⟩, ?_, hs.guarded⟩
    · exact hs.books.of_same ⟨rfl, rfl, rfl, rfl⟩ rfl rfl
    · exact Nat.lt_of_lt_of_le hs.timed.clock htime
    · intro hsettled
      exact Nat.le_trans (hs.timed.closed hsettled) htime
    · simp only [hpending]
      trivial
  | call t sender accepts cl _ _ hcall => exact call_solvent hs hcall
  | return_ t _ hreturn => exact return_solvent hs hreturn
  | token _ => exact hs.of_same ⟨rfl, rfl, rfl, rfl⟩ rfl rfl rfl rfl rfl
  | receive amount =>
    refine hs.of_same ⟨rfl, rfl, rfl, rfl⟩ rfl rfl ?_ rfl rfl
    simp only
    omega

/-- A house that was just initialized, which may have had ETH before.  Clocks do not start at zero. -/
structure Start (s : AuctionWorld τ) : Prop where
  house : ∃ owner timeBuffer reservePrice minBidIncrementPercentage duration,
    s.house = .deploy owner timeBuffer reservePrice minBidIncrementPercentage duration
  clock : 0 < s.timestamp
  forced : s.forced = s.eth
  sent : s.sent = []
  pending : s.pending = none
  entered : s.entered = false

theorem Start.solvent (h : s.Start) : s.Solvent := by
  obtain ⟨owner, timeBuffer, reservePrice, pct, duration, hhouse⟩ := h.house
  have hbooks : s.Books none := by
    refine ⟨?_, ?_, ?_, ?_, ?_, ?_⟩ <;>
      simp [bidsWith, heldWith, unsettled, proceedsWith, hhouse, NounsAuctionHouse.deploy, h.sent,
        h.forced, refunds, payouts, bids, auctions, proceeds, outbid]
  refine ⟨?_, ⟨h.clock, ?_, ?_⟩, ?_, fun hsome => absurd h.pending hsome⟩
  · rw [h.pending]
    exact hbooks
  · simp [hhouse, NounsAuctionHouse.deploy]
  · simp [hhouse, NounsAuctionHouse.deploy]
  · rw [h.pending]
    trivial

theorem solvent_of_reachable (h : Reachable Start (Next this tokens others admits) s) : s.Solvent :=
  h.invariant (fun _ hs => hs.solvent) (fun _ _ _ hs hn => hn.solvent hs)

theorem Solvent.unsettled_le (h : s.Solvent) : s.unsettled ≤ s.eth := by
  have hbalanced := h.books.balanced
  have hk := h.inProgress
  generalize s.pending = k at hbalanced hk
  rcases k with _ | ⟨auction, sender, value⟩ | ⟨auction, sender, createsNew⟩
  · simp only [heldWith] at hbalanced
    omega
  · -- the new bid covers the old one
    obtain ⟨rfl, -, -, -, hvalue⟩ := hk
    simp only [heldWith] at hbalanced
    rw [unsettled]
    split <;> omega
  · simp only [heldWith] at hbalanced
    omega

/-! ## Payments do not fail -/

/-- The revert of a payment that is not covered. -/
def Unfunded (e : Revert) : Prop := e = .callFailed

theorem require_avoids_unfunded {p : Prop} [Decidable p] (reason : String) :
    Avoids Unfunded (require p (Revert.require reason)) :=
  .require (by nofun)

/-- The token never fails in that way. -/
structure TokenFunds (t : INounsToken τ) : Prop where
  mint : ∀ sender token, Avoids Unfunded (t.mint sender token)
  burn : ∀ sender nounId token, Avoids Unfunded (t.burn sender nounId token)
  transferFrom : ∀ sender from_ to_ tokenId token,
    Avoids Unfunded (t.transferFrom sender from_ to_ tokenId token)

theorem pauseBy_avoids (house : NounsAuctionHouse) (sender : Address) :
    Avoids Unfunded (house.pauseBy sender) :=
  .bind (require_avoids_unfunded _) (fun _ _ => .pure _)

theorem createAuction_avoids (ht : TokenFunds t) (s : AuctionWorld τ) (sender : Address) :
    Avoids Unfunded (s.createAuction t this sender) := by
  intro e he hbad
  simp only [createAuction] at he
  split at he
  · exact absurd he pure_ne_error
  · exact Avoids.bind (pauseBy_avoids _ _) (fun _ _ => .pure _) e he hbad
  · rename_i e' _ hmint
    have heq : e' = e := by simpa [throw, throwThe, MonadExceptOf.throw] using he
    exact ht.mint _ _ e' hmint (heq ▸ hbad)

theorem finish_avoids (ht : TokenFunds t) (s : AuctionWorld τ) (k : AuctionContinuation) :
    Avoids Unfunded (s.finish t this k) := by
  cases k with
  | createBid auction sender value => exact .pure _
  | settle auction sender createsNew =>
    intro e he
    simp only [finish] at he
    split at he
    · exact Avoids.bind (createAuction_avoids ht _ _) (fun _ _ => .pure _) e he
    · exact absurd he pure_ne_error

theorem pay_avoids (ht : TokenFunds t) {to_ : Address} {amount : Nat} (accepts : Bool)
    (k : AuctionContinuation) (hfunded : amount ≤ s.eth) :
    Avoids Unfunded (s.pay t this to_ amount accepts k) := by
  refine .bind ?_ (fun _ _ => ?_)
  · intro e he
    exact absurd hfunded ((require_eq_error _ _ _).mp he).1
  · dsimp only
    split
    · exact .pure _
    · exact finish_avoids ht _ k

theorem createBid_avoids (ht : TokenFunds t) (hs : s.Solvent) (sender : Address)
    (nounId value : Nat) (accepts : Bool) :
    Avoids Unfunded (s.createBid t this sender nounId value accepts) := by
  refine .bind (.bind (require_avoids_unfunded _) (fun _ _ => .pure _)) (fun s₁ henter => ?_)
  obtain ⟨-, rfl⟩ := enter_ok henter
  refine .bind ?_ (fun _ hcheck => ?_)
  · refine .bind (require_avoids_unfunded _) (fun _ _ => ?_)
    refine .bind (require_avoids_unfunded _) (fun _ _ => ?_)
    exact .bind (require_avoids_unfunded _) (fun _ _ => require_avoids_unfunded _)
  · simp only [NounsAuctionHouse.checkBid, bind_eq_ok, require_eq_ok] at hcheck
    obtain ⟨_, -, _, hlt, _, -, -⟩ := hcheck
    dsimp only
    split
    · refine pay_avoids ht accepts _ ?_
      have hfunded := hs.unsettled_le
      rw [unsettled, hs.timed.open hlt] at hfunded
      exact Nat.le_trans hfunded (Nat.le_add_right _ _)
    · exact finish_avoids ht _ _

theorem settle_avoids (ht : TokenFunds t) (hs : s.Solvent) (sender : Address)
    (createsNew accepts : Bool) :
    Avoids Unfunded (s.settle t this sender createsNew accepts) := by
  refine .bind ?_ (fun _ hcheck => .bind ?_ (fun token _ => ?_))
  · refine .bind (require_avoids_unfunded _) (fun _ _ => ?_)
    exact .bind (require_avoids_unfunded _) (fun _ _ => require_avoids_unfunded _)
  · rw [INounsToken.handOver]
    split
    · exact ht.burn _ _ _
    · exact ht.transferFrom _ _ _ _ _
  · simp only [NounsAuctionHouse.checkSettle, bind_eq_ok, require_eq_ok] at hcheck
    obtain ⟨_, -, _, hopen, -⟩ := hcheck
    dsimp only
    split
    · refine pay_avoids ht accepts _ ?_
      have hfunded := hs.unsettled_le
      rwa [unsettled, hopen] at hfunded
    · exact finish_avoids ht _ _

/-- No call fails for lack of funds. -/
theorem call_avoids (ht : TokenFunds t) (hs : s.Solvent) (sender : Account) (accepts : Bool)
    (cl : AuctionHouseCall) : Avoids Unfunded (s.call t this sender accepts cl) := by
  have hset (house' : NounsAuctionHouse) (e : AuctionHouseEvent) :
      Avoids Unfunded (s.house.set sender house' e) :=
    .bind (require_avoids_unfunded _) (fun _ _ => .pure _)
  cases cl with
  | settleCurrentAndCreateNewAuction =>
    refine .bind (.bind (require_avoids_unfunded _) (fun _ _ => .pure _)) (fun s₁ henter => ?_)
    refine .bind (require_avoids_unfunded _) (fun _ _ => ?_)
    exact settle_avoids ht (enter_solvent hs henter).1 sender true accepts
  | settleAuction =>
    refine .bind (require_avoids_unfunded _) (fun _ _ => ?_)
    refine .bind (.bind (require_avoids_unfunded _) (fun _ _ => .pure _)) (fun s₁ henter => ?_)
    exact settle_avoids ht (enter_solvent hs henter).1 sender false accepts
  | createBid nounId value => exact createBid_avoids ht hs sender nounId value accepts
  | unpause =>
    refine .bind (require_avoids_unfunded _) (fun _ _ => ?_)
    refine .bind (.bind (require_avoids_unfunded _) (fun _ _ => .pure _)) (fun house _ => ?_)
    dsimp only
    split
    · exact createAuction_avoids ht _ _
    · exact .pure _
  | pause =>
    refine .bind (.bind (require_avoids_unfunded _) (fun _ _ => ?_)) (fun _ _ => .pure _)
    exact pauseBy_avoids _ _
  | setTimeBuffer v => exact .bind (hset _ _) (fun _ _ => .pure _)
  | setReservePrice v => exact .bind (hset _ _) (fun _ _ => .pure _)
  | setMinBidIncrementPercentage v => exact .bind (hset _ _) (fun _ _ => .pure _)
  | setDuration v => exact .bind (hset _ _) (fun _ _ => .pure _)
  | transferOwnership newOwner =>
    refine .bind (.bind (require_avoids_unfunded _) (fun _ _ => ?_)) (fun _ _ => .pure _)
    exact .bind (require_avoids_unfunded _) (fun _ _ => .pure _)
  | renounceOwnership =>
    refine .bind (.bind (require_avoids_unfunded _) (fun _ _ => .pure _)) (fun _ _ => .pure _)

theorem nouns_funds (proxies : Address → Address) (now : Nat) :
    TokenFunds (NounsToken.interface proxies now) := by
  have hbad : Token.Ordinary Unfunded := ⟨fun _ => by nofun, by nofun⟩
  have hnext (n : NounsToken) (to_ : Address) : Avoids Unfunded (n.mintNext now to_) :=
    .bind (hbad.mintTo_avoids _ _) (fun _ _ => .pure _)
  refine ⟨?_, ?_, ?_⟩
  · intro sender n
    refine .bind (.bind (require_avoids_unfunded _) (fun _ _ => ?_)) (fun _ _ => .pure _)
    split
    · exact .bind (hnext _ _) (fun _ _ => hnext _ _)
    · exact hnext _ _
  · intro sender nounId n
    refine .bind (require_avoids_unfunded _) (fun _ _ => ?_)
    exact .bind (hbad.burnToken_avoids _) (fun _ _ => .pure _)
  · intro sender from_ to_ tokenId n
    exact .bind (hbad.transferFrom_avoids _ _ _ _ _) (fun _ _ => .pure _)

/-! ## Where a payment goes -/

/-- Nothing is paid, and `value` comes in. -/
structure Keeps (s s' : AuctionWorld τ) (value : Nat) : Prop where
  sent : s'.sent = s.sent
  eth : s'.eth = s.eth + value
  weth : s'.weth = s.weth

/-- One payment is made out of the ETH of the house, in ETH to a recipient who has control now, or
in WETH.  The owner is paid out. -/
def Sends (s s' : AuctionWorld τ) (value : Nat) : Prop :=
  ∃ p, s'.sent = p :: s.sent ∧ (p.reason = .payout → p.to_ = s.house.owner) ∧
    s'.eth + p.amount = s.eth + value ∧
    ((s'.weth = s.weth ∧ ∃ k, s'.pending = some k ∧ k.reason = p.reason) ∨
      s'.weth = Function.update s.weth p.to_ (s.weth p.to_ + p.amount))

theorem createAuction_keeps {sender : Address} (h : s.createAuction t this sender = .ok s') :
    s.Keeps s' 0 := by
  rcases createAuction_ok h with ⟨_, _, -, rfl⟩ | ⟨_, -, rfl⟩
  · exact ⟨rfl, rfl, rfl⟩
  · exact ⟨rfl, rfl, rfl⟩

theorem finish_keeps {k : AuctionContinuation} (h : s.finish t this k = .ok s') :
    s.Keeps s' 0 := by
  cases k with
  | createBid auction sender value =>
    rw [← pure_eq_ok.mp h]
    exact ⟨rfl, rfl, rfl⟩
  | settle auction sender createsNew =>
    simp only [finish] at h
    split at h
    · obtain ⟨s₁, hcreate, hs'⟩ := bind_eq_ok.mp h
      have hkeeps := createAuction_keeps hcreate
      rw [← pure_eq_ok.mp hs']
      exact ⟨hkeeps.sent, hkeeps.eth, hkeeps.weth⟩
    · rw [← pure_eq_ok.mp h]
      exact ⟨rfl, rfl, rfl⟩

theorem return_keeps (h : s.return_ t this = .ok s') : s.Keeps s' 0 := by
  simp only [return_] at h
  split at h
  · have hkeeps := finish_keeps h
    exact ⟨hkeeps.sent, hkeeps.eth, hkeeps.weth⟩
  · exact absurd h throw_ne_ok

/-- The payment that is made, and where it goes. -/
theorem pay_sends {to_ : Address} {amount : Nat} {accepts : Bool} {k : AuctionContinuation}
    (h : s.pay t this to_ amount accepts k = .ok s') :
    s'.sent = ⟨to_, amount, k.reason⟩ :: s.sent ∧ s'.eth + amount = s.eth ∧
      ((s'.weth = s.weth ∧ s'.pending = some k) ∨
        s'.weth = Function.update s.weth to_ (s.weth to_ + amount)) := by
  simp only [pay, bind_eq_ok, require_eq_ok] at h
  obtain ⟨_, hfunded, h⟩ := h
  split at h
  · rw [← pure_eq_ok.mp h]
    exact ⟨rfl, Nat.sub_add_cancel hfunded, .inl ⟨rfl, rfl⟩⟩
  · have hkeeps := finish_keeps h
    refine ⟨hkeeps.sent, ?_, .inr hkeeps.weth⟩
    rw [hkeeps.eth]
    exact Nat.sub_add_cancel hfunded

theorem settle_sends {sender : Address} {createsNew accepts : Bool}
    (h : s.settle t this sender createsNew accepts = .ok s') : s.Keeps s' 0 ∨ s.Sends s' 0 := by
  simp only [settle, bind_eq_ok] at h
  obtain ⟨_, -, token, -, h⟩ := h
  split at h
  · obtain ⟨hsent, heth, hgoes⟩ := pay_sends h
    exact .inr ⟨_, hsent, fun _ => rfl, heth, hgoes.imp_left fun hk => ⟨hk.1, _, hk.2, rfl⟩⟩
  · have hkeeps := finish_keeps h
    exact .inl ⟨hkeeps.sent, hkeeps.eth, hkeeps.weth⟩

theorem createBid_sends {sender : Address} {nounId value : Nat} {accepts : Bool}
    (h : s.createBid t this sender nounId value accepts = .ok s') :
    s.Keeps s' value ∨ s.Sends s' value := by
  simp only [createBid, bind_eq_ok] at h
  obtain ⟨s₁, henter, _, -, h⟩ := h
  obtain ⟨-, rfl⟩ := enter_ok henter
  split at h
  · obtain ⟨hsent, heth, hgoes⟩ := pay_sends h
    refine .inr ⟨_, hsent, fun hpayout => ?_, heth, hgoes.imp_left fun hk => ⟨hk.1, _, hk.2, rfl⟩⟩
    cases hpayout
  · have hkeeps := finish_keeps h
    exact .inl ⟨hkeeps.sent, hkeeps.eth, hkeeps.weth⟩

/-- A call takes in what comes with it, and pays at most once. -/
theorem call_sends {sender : Account} {accepts : Bool} {cl : AuctionHouseCall}
    (h : s.call t this sender accepts cl = .ok s') :
    s.Keeps s' cl.value ∨ s.Sends s' cl.value := by
  cases cl with
  | settleCurrentAndCreateNewAuction =>
    simp only [call, settleCurrentAndCreateNewAuction, bind_eq_ok] at h
    obtain ⟨s₁, henter, _, -, h⟩ := h
    obtain ⟨-, rfl⟩ := enter_ok henter
    exact (settle_sends h).imp (fun hkeeps => ⟨hkeeps.sent, hkeeps.eth, hkeeps.weth⟩) id
  | settleAuction =>
    simp only [call, settleAuction, bind_eq_ok] at h
    obtain ⟨_, -, s₁, henter, h⟩ := h
    obtain ⟨-, rfl⟩ := enter_ok henter
    exact (settle_sends h).imp (fun hkeeps => ⟨hkeeps.sent, hkeeps.eth, hkeeps.weth⟩) id
  | createBid nounId value => exact createBid_sends h
  | unpause =>
    simp only [call, unpause, bind_eq_ok] at h
    obtain ⟨_, -, house, -, h⟩ := h
    split at h
    · have hkeeps := createAuction_keeps h
      exact .inl ⟨hkeeps.sent, hkeeps.eth, hkeeps.weth⟩
    · rw [← pure_eq_ok.mp h]
      exact .inl ⟨rfl, rfl, rfl⟩
  | pause | setTimeBuffer _ | setReservePrice _ | setMinBidIncrementPercentage _ | setDuration _
  | transferOwnership _ | renounceOwnership =>
    simp only [call, bind_eq_ok, pure_eq_ok] at h
    obtain ⟨house, -, rfl⟩ := h
    exact .inl ⟨rfl, rfl, rfl⟩

/-! ## Payouts -/

/-- Only the owner is paid out. -/
def PaysOwner (s s' : AuctionWorld τ) : Prop :=
  payouts s'.sent = payouts s.sent ∨
    ∃ amount, payouts s'.sent = (s.house.owner, amount) :: payouts s.sent

theorem Keeps.paysOwner {value : Nat} (h : s.Keeps s' value) : PaysOwner s s' :=
  .inl (by rw [h.sent])

theorem Sends.paysOwner {value : Nat} (h : s.Sends s' value) : PaysOwner s s' := by
  obtain ⟨p, hsent, howner, -⟩ := h
  unfold PaysOwner
  rw [hsent, payouts]
  split
  · rename_i hpayout
    rw [howner hpayout]
    exact .inr ⟨p.amount, rfl⟩
  · exact .inl rfl

theorem Next.paysOwner (h : Next this tokens others admits s s') : PaysOwner s s' := by
  cases h with
  | advance blockNumber timestamp _ _ _ => exact .inl rfl
  | call t sender accepts cl _ _ hcall =>
    exact (call_sends hcall).elim Keeps.paysOwner Sends.paysOwner
  | return_ t _ hreturn => exact (return_keeps hreturn).paysOwner
  | token _ => exact .inl rfl
  | receive amount => exact .inl rfl

/-! ## The house is solvent -/

/-- Whatever the token does and whoever is called: between two calls the bids that came in are
accounted for, all that were outbid were sent back, and all that won were paid out.  During a
payment nothing is left of the earlier bids.  At any moment the house has exactly what it is holding
for the current auction and what came in otherwise than with a bid, and no payment fails for lack of
funds.  A payment takes ETH from the house and gives its recipient control, or WETH of that amount.
Payouts go to the owner. -/
theorem bids_accounted_for (h : Reachable Start (Next this tokens others (fun _ => True)) s) :
    (s.pending = none →
      ((bids s.house.log).map Bid.value).sum =
        total (refunds s.sent) + total (payouts s.sent) + s.unsettled ∧
      refunds s.sent = (outbid (bids s.house.log)).map (fun b => (b.bidder, b.value)) ∧
      (payouts s.sent).map Prod.snd = proceeds s.house.log) ∧
    (∀ k, s.pending = some k →
      ((bids s.house.log).map Bid.value).sum =
        total (refunds s.sent) + total (payouts s.sent)) ∧
    s.eth = s.forced + s.heldWith s.pending ∧
    s.unsettled ≤ s.eth ∧
    (∀ t, TokenFunds t → ∀ (sender : Account) accepts cl,
      s.call t this sender accepts cl ≠ .error .callFailed) ∧
    (∀ t (sender : Account) accepts cl s', s.call t this sender accepts cl = .ok s' →
      s.Keeps s' cl.value ∨ s.Sends s' cl.value) ∧
    (∀ t s', s.return_ t this = .ok s' → s.Keeps s' 0) ∧
    ∀ s', Next this tokens others (fun _ => True) s s' → PaysOwner s s' := by
  have hs := solvent_of_reachable h
  refine ⟨?_, ?_, hs.books.balanced, hs.unsettled_le, ?_, fun t sender accepts cl s' => call_sends,
    fun t s' => return_keeps, fun s' hn => hn.paysOwner⟩
  · intro hpending
    have hbooks := hs.books
    rw [hpending] at hbooks
    exact ⟨hbooks.conserved, hbooks.refunded, hbooks.paidOut⟩
  · intro k hpending
    have hconserved := hs.books.conserved
    have hk := hs.inProgress
    rw [hpending] at hconserved hk
    cases k with
    | createBid auction sender value =>
      simp only [bidsWith, heldWith, List.map_cons, List.sum_cons] at hconserved
      omega
    | settle auction sender createsNew =>
      have hzero : s.unsettled = 0 := hk
      simp only [bidsWith, heldWith, hzero] at hconserved
      exact hconserved
  · intro t ht sender accepts cl hcall
    exact call_avoids ht hs sender accepts cl _ hcall rfl

/-- 10 outbids 9, who takes the refund while the owner changes a setting.  The owner refuses ETH when
the auction is settled and is sent WETH. -/
theorem bids_accounted_for_of_two_bids :
    ∃ s, Reachable Start (Next 7 (fun now t => t = NounsToken.interface (fun _ => 0) now)
        (fun _ _ _ _ => False) (fun _ => True)) s ∧
      refunds s.sent = [(9, 100)] ∧ payouts s.sent = [(8, 200)] ∧ s.weth 8 = 200 ∧
      s.eth = s.forced + s.unsettled ∧
      ((bids s.house.log).map Bid.value).sum =
        total (refunds s.sent) + total (payouts s.sent) + s.unsettled ∧
      ∀ (sender : Account) accepts cl,
        s.call (NounsToken.interface (fun _ => 0) 20) 7 sender accepts cl ≠ .error .callFailed := by
  have hrun : Yields (AuctionWorld.sample.run (NounsToken.interface (fun _ => 0)) 7
      [.call ⟨8, by decide⟩ true .unpause, .call ⟨9, by decide⟩ true (.createBid 1 100),
        .call ⟨10, by decide⟩ true (.createBid 1 200),
        .call ⟨8, by decide⟩ true (.setTimeBuffer 7), .return_, .advance 20 20,
        .call ⟨9, by decide⟩ false .settleCurrentAndCreateNewAuction])
      (fun s => refunds s.sent = [(9, 100)] ∧ payouts s.sent = [(8, 200)] ∧ s.weth 8 = 200 ∧
        s.pending.isNone = true) := by
    decide +kernel
  obtain ⟨s, hs, hrefunds, hpayouts, hweth, hpending⟩ := hrun
  have hr : Reachable Start (Next 7 (fun now t => t = NounsToken.interface (fun _ => 0) now)
      (fun _ _ _ _ => False) (fun _ => True)) s :=
    ⟨AuctionWorld.sample, ⟨⟨_, _, _, _, _, rfl⟩, by decide, rfl, rfl, rfl, rfl⟩,
      run_steps (fun _ => rfl) (fun _ _ _ _ => trivial) hs⟩
  obtain ⟨hidle, -, hbalanced, -, hfunds, -⟩ := bids_accounted_for hr
  have hnone := Option.isNone_iff_eq_none.mp hpending
  rw [hnone] at hbalanced
  exact ⟨s, hr, hrefunds, hpayouts, hweth, hbalanced, (hidle hnone).1, hfunds _ (nouns_funds _ _)⟩

end AuctionWorld

end Nouns
