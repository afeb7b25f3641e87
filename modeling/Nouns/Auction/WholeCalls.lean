import Nouns.Auction.Solvency

/-!
# WholeCalls — a call of the house from its beginning to its end

A call that pays somebody is over when the payment has returned.  If nothing happened in between, it
did what the one-step functions of `AuctionHouse` say.
-/

open Fallible

namespace Nouns

namespace AuctionWorld

variable {s s' : AuctionWorld NounsToken} {this : Address} {proxies : Address → Address} {now : Nat}

/-- `s'` is what the call left behind, after the payment if there was one. -/
def Completed (t : INounsToken NounsToken) (this : Address) (s : AuctionWorld NounsToken)
    (sender : Address) (accepts : Bool) (cl : AuctionHouseCall) (s' : AuctionWorld NounsToken) :
    Prop :=
  ∃ s₁, s.call t this sender accepts cl = .ok s₁ ∧
    ((s₁.pending = none ∧ s' = s₁) ∨ s₁.return_ t this = .ok s')

theorem createAuction_pending {t : INounsToken NounsToken} {sender : Address}
    (h : s.createAuction t this sender = .ok s') : s'.pending = s.pending := by
  rcases createAuction_ok h with ⟨token, nounId, -, rfl⟩ | ⟨house, -, rfl⟩
  · rfl
  · rfl

theorem finish_pending {t : INounsToken NounsToken} {k : AuctionContinuation}
    (h : s.finish t this k = .ok s') : s'.pending = s.pending := by
  cases k with
  | createBid auction sender value =>
    rw [← pure_eq_ok.mp h]
    rfl
  | settle auction sender createsNew =>
    simp only [finish] at h
    split at h
    · obtain ⟨s₁, hcreate, hs'⟩ := bind_eq_ok.mp h
      have hpending := createAuction_pending hcreate
      rw [← pure_eq_ok.mp hs']
      exact hpending
    · rw [← pure_eq_ok.mp h]
      rfl

/-- Whoever is paid in whatever way, the call goes on with the house as it was. -/
theorem pay_whole {t : INounsToken NounsToken} {to_ : Address} {amount : Nat} {accepts : Bool}
    {k : AuctionContinuation} {s₁ : AuctionWorld NounsToken}
    (h : s.pay t this to_ amount accepts k = .ok s₁) (hpending : s.pending = none)
    (hend : (s₁.pending = none ∧ s' = s₁) ∨ s₁.return_ t this = .ok s') :
    ∃ s₂ : AuctionWorld NounsToken, s₂.finish t this k = .ok s' ∧
      s₂.house = s.house ∧ s₂.token = s.token ∧ s₂.timestamp = s.timestamp := by
  simp only [pay, bind_eq_ok] at h
  obtain ⟨_, -, h⟩ := h
  split at h
  · cases pure_eq_ok.mp h
    rcases hend with ⟨hnone, -⟩ | hreturn
    · exact absurd hnone (Option.some_ne_none k)
    · exact ⟨_, hreturn, rfl, rfl, rfl⟩
  · have hnone : s₁.pending = none := (finish_pending h).trans hpending
    rcases hend with ⟨-, rfl⟩ | hreturn
    · exact ⟨_, h, rfl, rfl, rfl⟩
    · -- there is nothing to return from
      simp only [return_, hnone] at hreturn
      exact absurd hreturn throw_ne_ok

/-- The token mints as the house expects. -/
theorem createAuction_whole {sender : Address}
    (h : s.createAuction (NounsToken.interface proxies now) this sender = .ok s') :
    s.house.createAuction this now s.timestamp sender s.token = .ok (s'.house, s'.token) := by
  simp only [createAuction, NounsToken.interface] at h
  simp only [NounsAuctionHouse.createAuction]
  cases hmint : s.token.mint now this with
  | ok token =>
    rw [hmint] at h
    cases pure_eq_ok.mp h
    rfl
  | error e =>
    rw [hmint] at h
    cases e with
    | require reason =>
      obtain ⟨house, hpause, hs'⟩ := bind_eq_ok.mp h
      cases pure_eq_ok.mp hs'
      exact bind_eq_ok.mpr ⟨house, hpause, rfl⟩
    | _ => exact absurd h throw_ne_ok

theorem finishBid_whole {t : INounsToken NounsToken} {house : NounsAuctionHouse} {sender : Address}
    {nounId value timestamp : Nat}
    (h : s.finish t this (.createBid house.auction sender value) = .ok s')
    (hcheck : house.checkBid timestamp nounId value = .ok ())
    (hhouse : s.house = house) (htime : s.timestamp = timestamp) :
    house.createBid timestamp sender nounId value = .ok s'.house ∧ s'.token = s.token := by
  cases pure_eq_ok.mp h
  refine ⟨?_, rfl⟩
  simp only [NounsAuctionHouse.checkBid, bind_eq_ok, require_eq_ok] at hcheck
  obtain ⟨_, rfl, _, hlt, _, hreserve, hincrement⟩ := hcheck
  simp only [NounsAuctionHouse.createBid, bind_eq_ok, require_eq_ok, pure_eq_ok]
  refine ⟨(), trivial, (), hlt, (), hreserve, (), hincrement, ?_⟩
  change _ = (s.house.placeBid s.timestamp house.auction sender value)
  rw [hhouse, htime]
  by_cases hextended : house.auction.endTime - timestamp < house.timeBuffer
  · simp [NounsAuctionHouse.placeBid, hextended]
  · simp [NounsAuctionHouse.placeBid, hextended]

/-- Settling an auction, and starting the next one if it is asked for. -/
theorem settle_whole {sender : Address} {createsNew accepts : Bool} {s₁ : AuctionWorld NounsToken}
    (h : s.settle (NounsToken.interface proxies now) this sender createsNew accepts = .ok s₁)
    (hpending : s.pending = none)
    (hend : (s₁.pending = none ∧ s' = s₁) ∨
      s₁.return_ (NounsToken.interface proxies now) this = .ok s') :
    ∃ house nouns, s.house.settle proxies this now s.timestamp s.token = .ok (house, nouns) ∧
      (if createsNew then house.createAuction this now s.timestamp sender nouns
        else return (house, nouns)) = .ok (s'.house, s'.token) := by
  simp only [settle, NounsAuctionHouse.checkSettle, bind_eq_ok, require_eq_ok] at h
  obtain ⟨_, ⟨_, hbegun, _, hopen, hover⟩, token, hgiven, h⟩ := h
  let house := { s.house with auction := { s.house.auction with settled := true } }
  let e := AuctionHouseEvent.AuctionSettled s.house.auction.nounId s.house.auction.bidder
    s.house.auction.amount
  have hsettle : s.house.settle proxies this now s.timestamp s.token = .ok (house.emit e, token) := by
    simp only [NounsAuctionHouse.settle, bind_eq_ok, require_eq_ok]
    refine ⟨(), hbegun, (), hopen, (), hover, ?_⟩
    simp only [INounsToken.handOver, NounsToken.interface] at hgiven
    by_cases hbidder : s.house.auction.bidder = 0
    · rw [if_pos hbidder] at hgiven ⊢
      exact bind_eq_ok.mpr ⟨token, hgiven, rfl⟩
    · rw [if_neg hbidder] at hgiven ⊢
      exact bind_eq_ok.mpr ⟨token, hgiven, rfl⟩
  refine ⟨house.emit e, token, hsettle, ?_⟩
  have hfinish : ∃ s₂ : AuctionWorld NounsToken,
      s₂.finish (NounsToken.interface proxies now) this
        (.settle s.house.auction sender createsNew) = .ok s' ∧
      s₂.house = house ∧ s₂.token = token ∧ s₂.timestamp = s.timestamp := by
    by_cases hamount : s.house.auction.amount > 0
    · rw [if_pos hamount] at h
      obtain ⟨s₂, hfinish, hhouse, htoken, htime⟩ := pay_whole h hpending hend
      exact ⟨s₂, hfinish, hhouse, htoken, htime⟩
    · rw [if_neg hamount] at h
      have hnone : s₁.pending = none := (finish_pending h).trans hpending
      rcases hend with ⟨-, rfl⟩ | hreturn
      · exact ⟨_, h, rfl, rfl, rfl⟩
      · simp only [return_, hnone] at hreturn
        exact absurd hreturn throw_ne_ok
  obtain ⟨s₂, hfinish, hhouse, htoken, htime⟩ := hfinish
  simp only [finish] at hfinish
  split at hfinish
  · rename_i hnew
    obtain ⟨s₃, hcreate, hs'⟩ := bind_eq_ok.mp hfinish
    have hcreated := createAuction_whole hcreate
    rw [← pure_eq_ok.mp hs']
    simp only [hhouse, htoken, htime] at hcreated
    rw [if_pos hnew]
    exact hcreated
  · rename_i hnew
    rw [if_neg hnew, ← pure_eq_ok.mp hfinish]
    simp only [hhouse, htoken, leave]
    rfl

theorem unpause_whole {sender : Address}
    (h : s.unpause (NounsToken.interface proxies now) this sender = .ok s') :
    s'.pending = s.pending ∧
      s.house.unpause this now s.timestamp sender s.token = .ok (s'.house, s'.token) := by
  simp only [unpause, bind_eq_ok] at h
  obtain ⟨_, howner, house, hunpause, h⟩ := h
  split at h
  · rename_i hdone
    have hcreated := createAuction_whole h
    have hpending := createAuction_pending h
    refine ⟨hpending, ?_⟩
    simp only [NounsAuctionHouse.unpause, bind_eq_ok]
    refine ⟨_, howner, house, hunpause, ?_⟩
    rw [if_pos hdone]
    exact hcreated
  · rename_i hdone
    cases pure_eq_ok.mp h
    refine ⟨rfl, ?_⟩
    simp only [NounsAuctionHouse.unpause, bind_eq_ok]
    refine ⟨_, howner, house, hunpause, ?_⟩
    rw [if_neg hdone]
    rfl

theorem createBid_whole {t : INounsToken NounsToken} {sender : Address} {nounId value : Nat}
    {accepts : Bool} {s₁ : AuctionWorld NounsToken} (hpending : s.pending = none)
    (h : s.createBid t this sender nounId value accepts = .ok s₁)
    (hend : (s₁.pending = none ∧ s' = s₁) ∨ s₁.return_ t this = .ok s') :
    s.house.createBid s.timestamp sender nounId value = .ok s'.house ∧ s'.token = s.token := by
  simp only [createBid, bind_eq_ok] at h
  obtain ⟨s₂, henter, _, hcheck, h⟩ := h
  obtain ⟨-, rfl⟩ := enter_ok henter
  by_cases hbidder : s.house.auction.bidder = 0
  · rw [if_neg (not_not.mpr hbidder)] at h
    have hnone : s₁.pending = none := (finish_pending h).trans hpending
    rcases hend with ⟨-, rfl⟩ | hreturn
    · have hbid := finishBid_whole h hcheck rfl rfl
      exact hbid
    · simp only [return_, hnone] at hreturn
      exact absurd hreturn throw_ne_ok
  · rw [if_pos hbidder] at h
    obtain ⟨s₃, hfinish, hhouse, htoken, htime⟩ := pay_whole h hpending hend
    obtain ⟨hbid, htoken'⟩ := finishBid_whole hfinish hcheck hhouse htime
    exact ⟨hbid, htoken'.trans htoken⟩

/-- A call that nobody interrupts does what the functions of the house say. -/
theorem Completed.call_eq {sender : Address} {accepts : Bool} {cl : AuctionHouseCall}
    (h : Completed (NounsToken.interface proxies now) this s sender accepts cl s')
    (hpending : s.pending = none) :
    s.house.call proxies this now s.timestamp sender s.token cl = .ok (s'.house, s'.token) := by
  obtain ⟨s₁, hcall, hend⟩ := h
  -- calls that pay nobody are over at once
  have hover : s₁.pending = none → s' = s₁ := by
    intro hnone
    rcases hend with ⟨-, rfl⟩ | hreturn
    · rfl
    · simp only [return_, hnone] at hreturn
      exact absurd hreturn throw_ne_ok
  cases cl with
  | settleCurrentAndCreateNewAuction =>
    simp only [AuctionWorld.call, settleCurrentAndCreateNewAuction, bind_eq_ok] at hcall
    obtain ⟨s₂, henter, _, hpaused, hsettle⟩ := hcall
    obtain ⟨-, rfl⟩ := enter_ok henter
    obtain ⟨house, nouns, hsettled, hnew⟩ := settle_whole hsettle hpending hend
    exact bind_eq_ok.mpr ⟨_, hpaused, bind_eq_ok.mpr ⟨_, hsettled, hnew⟩⟩
  | settleAuction =>
    simp only [AuctionWorld.call, settleAuction, bind_eq_ok] at hcall
    obtain ⟨_, hpaused, s₂, henter, hsettle⟩ := hcall
    obtain ⟨-, rfl⟩ := enter_ok henter
    obtain ⟨house, nouns, hsettled, hnew⟩ := settle_whole hsettle hpending hend
    cases pure_eq_ok.mp hnew
    exact bind_eq_ok.mpr ⟨_, hpaused, hsettled⟩
  | createBid nounId value =>
    obtain ⟨hbid, htoken⟩ := createBid_whole hpending hcall hend
    rw [htoken]
    exact bind_eq_ok.mpr ⟨_, hbid, rfl⟩
  | unpause =>
    obtain ⟨hnone, hunpause⟩ := unpause_whole hcall
    rw [hover (hnone.trans hpending)]
    exact hunpause
  | pause | setTimeBuffer _ | setReservePrice _ | setMinBidIncrementPercentage _ | setDuration _
  | transferOwnership _ | renounceOwnership =>
    simp only [AuctionWorld.call, bind_eq_ok, pure_eq_ok] at hcall
    obtain ⟨house, hcall, rfl⟩ := hcall
    rw [hover hpending]
    exact bind_eq_ok.mpr ⟨house, hcall, rfl⟩

end AuctionWorld

end Nouns
