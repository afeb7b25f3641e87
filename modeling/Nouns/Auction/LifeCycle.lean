import Nouns.Auction.Solvency
import Nouns.Token.Ids

/-!
# LifeCycle — one auction after the other

A history is the log of the house with the time of each event.  In an orderly one, auctions follow
one another, bids fall into the time of their auction, and an auction ends once, in favour of the
last bidder.  The house with its token makes orderly histories only, and holds the Noun of an
auction until it is settled.
-/

open Fallible Transition

namespace Nouns

/-! ## Histories -/

/-- An event about something else than an auction. -/
def AuctionHouseEvent.isSetting : AuctionHouseEvent → Bool
  | .AuctionCreated _ _ _ | .AuctionBid _ _ _ _ | .AuctionExtended _ _ => false
  | .AuctionSettled _ _ _ => false
  | _ => true

/-- Events with their timestamps, newest first. -/
abbrev AuctionHistory : Type := List (Nat × AuctionHouseEvent)

namespace AuctionHistory

variable {h h' : AuctionHistory} {n time : Nat}

def Created (h : AuctionHistory) (n : Nat) : Prop :=
  ∃ time startTime endTime, (time, .AuctionCreated n startTime endTime) ∈ h

def Settled (h : AuctionHistory) (n : Nat) : Prop :=
  ∃ time winner amount, (time, .AuctionSettled n winner amount) ∈ h

/-- The auction of Noun `n` was meant to end at `endTime`. -/
def EndsAt (h : AuctionHistory) (n endTime : Nat) : Prop :=
  (∃ time startTime, (time, .AuctionCreated n startTime endTime) ∈ h) ∨
    ∃ time, (time, .AuctionExtended n endTime) ∈ h

def BidAt (h : AuctionHistory) (n time : Nat) : Prop :=
  ∃ sender value extended, (time, .AuctionBid n sender value extended) ∈ h

/-- Who bid last for Noun `n`; the zero address if nobody did. -/
def lastBidder : AuctionHistory → Nat → Address
  | [], _ => 0
  | (_, .AuctionBid m sender _ _) :: h, n => if m = n then sender else lastBidder h n
  | _ :: h, n => lastBidder h n

/-- What may happen at `time` after `h`. -/
def Allows (h : AuctionHistory) (time : Nat) : AuctionHouseEvent → Prop
  | .AuctionCreated n _ _ => ¬ Created h n ∧ ∀ m, Created h m → Settled h m
  | .AuctionBid n _ _ _ => Created h n ∧ ¬ Settled h n
  | .AuctionExtended n _ => Created h n ∧ ¬ Settled h n
  | .AuctionSettled n winner _ => Created h n ∧ ¬ Settled h n ∧ winner = lastBidder h n ∧
      (∀ endTime, EndsAt h n endTime → endTime ≤ time) ∧
      ∀ bidTime, BidAt h n bidTime → bidTime < time
  | _ => True

def Orderly : AuctionHistory → Prop
  | [] => True
  | (time, e) :: h => Allows h time e ∧ Orderly h

/-- The new events of the log happen at `time`. -/
def Extends (time : Nat) (log log' : List AuctionHouseEvent) (h h' : AuctionHistory) : Prop :=
  ∃ new, log' = new ++ log ∧ h' = new.map (Prod.mk time) ++ h

theorem Extends.refl (time : Nat) (log : List AuctionHouseEvent) (h : AuctionHistory) :
    Extends time log log h h :=
  ⟨[], rfl, rfl⟩

theorem Extends.cons (time : Nat) (e : AuctionHouseEvent) (log : List AuctionHouseEvent)
    (h : AuctionHistory) : Extends time log (e :: log) h ((time, e) :: h) :=
  ⟨[e], rfl, rfl⟩

theorem Extends.trans {log log₁ log' : List AuctionHouseEvent} {h₁ : AuctionHistory}
    (hx : Extends time log log₁ h h₁) (hx' : Extends time log₁ log' h₁ h') :
    Extends time log log' h h' := by
  obtain ⟨new, rfl, rfl⟩ := hx
  obtain ⟨new', rfl, rfl⟩ := hx'
  exact ⟨new' ++ new, by rw [List.append_assoc], by rw [List.map_append, List.append_assoc]⟩

theorem Extends.unique {log log' : List AuctionHouseEvent} {h₁ : AuctionHistory}
    (hx : Extends time log log' h h₁) (hx' : Extends time log log' h h') : h' = h₁ := by
  obtain ⟨new, hlog, rfl⟩ := hx
  obtain ⟨new', hlog', rfl⟩ := hx'
  rw [List.append_cancel_right (hlog.symm.trans hlog')]

/-! ### Settings do not matter -/

section Settings

variable {e : AuctionHouseEvent} (he : e.isSetting = true)
include he

theorem created_setting : Created ((time, e) :: h) n ↔ Created h n := by
  cases e <;> simp_all [Created, AuctionHouseEvent.isSetting]

theorem settled_setting : Settled ((time, e) :: h) n ↔ Settled h n := by
  cases e <;> simp_all [Settled, AuctionHouseEvent.isSetting]

theorem endsAt_setting {endTime : Nat} : EndsAt ((time, e) :: h) n endTime ↔ EndsAt h n endTime := by
  cases e <;> simp_all [EndsAt, AuctionHouseEvent.isSetting]

theorem bidAt_setting {bidTime : Nat} : BidAt ((time, e) :: h) n bidTime ↔ BidAt h n bidTime := by
  cases e <;> simp_all [BidAt, AuctionHouseEvent.isSetting]

theorem lastBidder_setting : lastBidder ((time, e) :: h) n = lastBidder h n := by
  cases e <;> simp_all [lastBidder, AuctionHouseEvent.isSetting]

theorem orderly_setting : Orderly ((time, e) :: h) ↔ Orderly h := by
  cases e <;> simp_all [Orderly, Allows, AuctionHouseEvent.isSetting]

end Settings

/-! ### What an orderly history tells -/

theorem Created.append {older : AuctionHistory} (hc : Created older n) (newer : AuctionHistory) :
    Created (newer ++ older) n := by
  obtain ⟨time, startTime, endTime, hmem⟩ := hc
  exact ⟨time, startTime, endTime, List.mem_append_right newer hmem⟩

theorem Settled.append {older : AuctionHistory} (hs : Settled older n) (newer : AuctionHistory) :
    Settled (newer ++ older) n := by
  obtain ⟨time, winner, amount, hmem⟩ := hs
  exact ⟨time, winner, amount, List.mem_append_right newer hmem⟩

/-- Every event was allowed by what came before. -/
theorem Orderly.allows {newer older : AuctionHistory} {e : AuctionHouseEvent}
    (ho : Orderly (newer ++ (time, e) :: older)) : Allows older time e := by
  induction newer with
  | nil => exact ho.1
  | cons x newer ih => exact ih ho.2

theorem Orderly.created_of_settled (ho : Orderly h) (hs : Settled h n) : Created h n := by
  obtain ⟨time, winner, amount, hmem⟩ := hs
  obtain ⟨newer, older, rfl⟩ := List.append_of_mem hmem
  rw [List.append_cons]
  exact ho.allows.1.append _

theorem Orderly.created_of_bidAt (ho : Orderly h) {bidTime : Nat} (hb : BidAt h n bidTime) :
    Created h n := by
  obtain ⟨sender, value, extended, hmem⟩ := hb
  obtain ⟨newer, older, rfl⟩ := List.append_of_mem hmem
  rw [List.append_cons]
  exact ho.allows.1.append _

theorem Orderly.created_of_endsAt (ho : Orderly h) {endTime : Nat} (he : EndsAt h n endTime) :
    Created h n := by
  rcases he with ⟨time, startTime, hmem⟩ | ⟨time, hmem⟩
  · exact ⟨time, startTime, endTime, hmem⟩
  · obtain ⟨newer, older, rfl⟩ := List.append_of_mem hmem
    rw [List.append_cons]
    exact ho.allows.1.append _

/-- Nobody has bid for a Noun that is not on auction yet. -/
theorem Orderly.lastBidder_eq_zero (ho : Orderly h) (hn : ¬ Created h n) : lastBidder h n = 0 := by
  induction h with
  | nil => rfl
  | cons x h ih =>
    obtain ⟨time, e⟩ := x
    have hrest := ih ho.2 (fun hc => hn (hc.append [_]))
    cases e with
    | AuctionBid m sender value extended =>
      rw [lastBidder, if_neg ?_]
      · exact hrest
      · rintro rfl
        exact hn (ho.1.1.append [_])
    | _ => exact hrest

theorem lastBidder_of_no_bid (hn : ∀ bidTime, ¬ BidAt h n bidTime) : lastBidder h n = 0 := by
  induction h with
  | nil => rfl
  | cons x h ih =>
    obtain ⟨time, e⟩ := x
    have hrest : lastBidder h n = 0 := by
      refine ih ?_
      rintro bidTime ⟨sender, value, extended, hmem⟩
      exact hn bidTime ⟨sender, value, extended, List.mem_cons_of_mem _ hmem⟩
    cases e with
    | AuctionBid m sender value extended =>
      rw [lastBidder, if_neg ?_]
      · exact hrest
      · rintro rfl
        exact hn time ⟨sender, value, extended, List.mem_cons_self ..⟩
    | _ => exact hrest

section Settlement

variable {newer older : AuctionHistory} {winner : Address} {amount : Nat}
  (ho : Orderly (newer ++ (time, .AuctionSettled n winner amount) :: older))
include ho

/-- After its settlement nothing happens to an auction. -/
theorem Orderly.not_mem_newer {x : Nat × AuctionHouseEvent} (hx : x ∈ newer) :
    ∃ past, Created past n ∧ Settled past n ∧ Allows past x.1 x.2 := by
  obtain ⟨newest, middle, rfl⟩ := List.append_of_mem hx
  rw [List.append_assoc] at ho
  refine ⟨middle ++ (time, .AuctionSettled n winner amount) :: older, ?_, ?_, ho.allows⟩
  · have ho' : Orderly ((newest ++ x :: middle) ++
        (time, .AuctionSettled n winner amount) :: older) := by
      rw [List.append_assoc]
      exact ho
    rw [List.append_cons]
    exact ho'.allows.1.append _
  · exact ⟨time, winner, amount, List.mem_append_right _ (List.mem_cons_self ..)⟩

theorem Orderly.settled_once : ¬ Settled newer n ∧ ¬ Settled older n := by
  refine ⟨?_, ho.allows.2.1⟩
  rintro ⟨time', winner', amount', hmem⟩
  obtain ⟨past, -, hsettled, hallows⟩ := ho.not_mem_newer hmem
  exact hallows.2.1 hsettled

theorem Orderly.bidAt_lt {bidTime : Nat}
    (hb : BidAt (newer ++ (time, .AuctionSettled n winner amount) :: older) n bidTime) :
    bidTime < time := by
  obtain ⟨sender, value, extended, hmem⟩ := hb
  rcases List.mem_append.mp hmem with hmem | hmem
  · obtain ⟨past, -, hsettled, hallows⟩ := ho.not_mem_newer hmem
    exact absurd hsettled hallows.2
  · rcases List.mem_cons.mp hmem with heq | hmem
    · cases heq
    · exact ho.allows.2.2.2.2 bidTime ⟨sender, value, extended, hmem⟩

theorem Orderly.endsAt_le {endTime : Nat}
    (he : EndsAt (newer ++ (time, .AuctionSettled n winner amount) :: older) n endTime) :
    endTime ≤ time := by
  have hended := ho.allows.2.2.2.1 endTime
  rcases he with ⟨time', startTime, hmem⟩ | ⟨time', hmem⟩
  · rcases List.mem_append.mp hmem with hmem | hmem
    · obtain ⟨past, hcreated, -, hallows⟩ := ho.not_mem_newer hmem
      exact absurd hcreated hallows.1
    · rcases List.mem_cons.mp hmem with heq | hmem
      · cases heq
      · exact hended (.inl ⟨time', startTime, hmem⟩)
  · rcases List.mem_append.mp hmem with hmem | hmem
    · obtain ⟨past, -, hsettled, hallows⟩ := ho.not_mem_newer hmem
      exact absurd hsettled hallows.2
    · rcases List.mem_cons.mp hmem with heq | hmem
      · cases heq
      · exact hended (.inr ⟨time', hmem⟩)

end Settlement

end AuctionHistory

/-! ## The record of the house -/

/-- The owner is being paid. -/
def AuctionContinuation.Settling : Option AuctionContinuation → Prop
  | some (.settle _ _ _) => True
  | _ => False

open AuctionContinuation AuctionHistory

/-- What the record of the house tells of the history, with `k` in progress; ids from `next` on are
not minted yet. -/
structure Annals (auction : Auction) (next : Nat) (k : Option AuctionContinuation)
    (h : AuctionHistory) : Prop where
  orderly : h.Orderly
  created_lt : ∀ n, Created h n → n < next
  recorded : auction.startTime ≠ 0 → Created h auction.nounId
  others_settled : ∀ n, Created h n → Settled h n ∨ (auction.startTime ≠ 0 ∧ n = auction.nounId)
  settled : auction.startTime ≠ 0 →
    (Settled h auction.nounId ↔ auction.settled = true ∧ ¬ Settling k)
  bids_lt : auction.startTime ≠ 0 → ∀ time, BidAt h auction.nounId time → time < auction.endTime
  ends_le : auction.startTime ≠ 0 →
    ∀ endTime, EndsAt h auction.nounId endTime → endTime ≤ auction.endTime
  bidder : auction.startTime ≠ 0 → lastBidder h auction.nounId = auction.bidder

namespace Annals

variable {auction : Auction} {next time : Nat} {k k' : Option AuctionContinuation}
  {h : AuctionHistory}

theorem nounId_lt (ha : Annals auction next k h) (hbegun : auction.startTime ≠ 0) :
    auction.nounId < next :=
  ha.created_lt _ (ha.recorded hbegun)

/-- Whether a bid is in progress does not matter. -/
theorem of_settling (ha : Annals auction next k h) (hk : Settling k ↔ Settling k') :
    Annals auction next k' h := by
  refine ⟨ha.orderly, ha.created_lt, ha.recorded, ha.others_settled, fun hbegun => ?_, ha.bids_lt,
    ha.ends_le, ha.bidder⟩
  rw [ha.settled hbegun, hk]

theorem setting (ha : Annals auction next k h) {e : AuctionHouseEvent} (he : e.isSetting = true) :
    Annals auction next k ((time, e) :: h) := by
  refine ⟨?_, ?_, ?_, ?_, ?_, ?_, ?_, ?_⟩
  · exact (orderly_setting he).mpr ha.orderly
  · simpa only [created_setting he] using ha.created_lt
  · simpa only [created_setting he] using ha.recorded
  · simpa only [created_setting he, settled_setting he] using ha.others_settled
  · simpa only [settled_setting he] using ha.settled
  · simpa only [bidAt_setting he] using ha.bids_lt
  · simpa only [endsAt_setting he] using ha.ends_le
  · simpa only [lastBidder_setting he] using ha.bidder

/-- The next auction, when the last one is settled. -/
theorem create {n endTime next' : Nat} (ha : Annals auction next k h) (hk : ¬ Settling k)
    (hdone : auction.startTime = 0 ∨ auction.settled = true) (hclock : time ≠ 0) (hnew : next ≤ n)
    (hnext : n < next') :
    Annals ⟨n, 0, time, endTime, 0, false⟩ next' k ((time, .AuctionCreated n time endTime) :: h) := by
  have hfresh : ¬ Created h n := by
    intro hc
    have := ha.created_lt n hc
    omega
  -- nothing is known of a Noun that was not minted yet
  have hunsettled : ¬ Settled h n := fun hs => hfresh (ha.orderly.created_of_settled hs)
  have hall : ∀ m, Created h m → Settled h m := by
    intro m hm
    rcases ha.others_settled m hm with hs | ⟨hbegun, rfl⟩
    · exact hs
    · refine (ha.settled hbegun).mpr ⟨?_, hk⟩
      exact hdone.resolve_left hbegun
  have hcreated : ∀ m, Created ((time, .AuctionCreated n time endTime) :: h) m →
      m = n ∨ Created h m := by
    rintro m ⟨time', startTime, end', hmem⟩
    rcases List.mem_cons.mp hmem with heq | hmem
    · cases heq
      exact .inl rfl
    · exact .inr ⟨time', startTime, end', hmem⟩
  have hsettled : ∀ m, Settled ((time, .AuctionCreated n time endTime) :: h) m ↔ Settled h m := by
    intro m
    simp [Settled]
  refine ⟨⟨⟨hfresh, hall⟩, ha.orderly⟩, ?_, ?_, ?_, ?_, ?_, ?_, ?_⟩
  · intro m hm
    rcases hcreated m hm with rfl | hm
    · exact hnext
    · have := ha.created_lt m hm
      omega
  · intro _
    exact ⟨time, time, endTime, List.mem_cons_self ..⟩
  · intro m hm
    rcases hcreated m hm with rfl | hm
    · exact .inr ⟨hclock, rfl⟩
    · exact .inl ((hsettled m).mpr (hall m hm))
  · intro _
    simp [hsettled, hunsettled]
  · rintro _ bidTime ⟨sender, value, extended, hmem⟩
    rcases List.mem_cons.mp hmem with heq | hmem
    · cases heq
    · exact absurd (ha.orderly.created_of_bidAt ⟨sender, value, extended, hmem⟩) hfresh
  · rintro _ end' (⟨time', startTime, hmem⟩ | ⟨time', hmem⟩)
    · rcases List.mem_cons.mp hmem with heq | hmem
      · cases heq
        exact Nat.le_refl _
      · exact absurd ⟨time', startTime, end', hmem⟩ hfresh
    · rcases List.mem_cons.mp hmem with heq | hmem
      · cases heq
      · exact absurd (ha.orderly.created_of_endsAt (.inr ⟨time', hmem⟩)) hfresh
  · intro _
    exact ha.orderly.lastBidder_eq_zero hfresh

section Open

variable (hbegun : auction.startTime ≠ 0) (hopen : auction.settled = false)
include hbegun hopen

/-- A bid before the end. -/
theorem bid (ha : Annals auction next k h) (hlt : time < auction.endTime) (sender : Address)
    (value : Nat) (extended : Bool) :
    Annals { auction with amount := value, bidder := sender } next k
      ((time, .AuctionBid auction.nounId sender value extended) :: h) := by
  have hunsettled : ¬ Settled h auction.nounId := by
    rw [ha.settled hbegun]
    simp [hopen]
  refine ⟨⟨⟨ha.recorded hbegun, hunsettled⟩, ha.orderly⟩, ?_, ?_, ?_, ?_, ?_, ?_, ?_⟩
  · simpa [Created] using ha.created_lt
  · simpa [Created] using ha.recorded
  · simpa [Created, Settled] using ha.others_settled
  · simpa [Settled] using ha.settled
  · rintro _ bidTime ⟨sender', value', extended', hmem⟩
    rcases List.mem_cons.mp hmem with heq | hmem
    · cases heq
      exact hlt
    · exact ha.bids_lt hbegun bidTime ⟨sender', value', extended', hmem⟩
  · simpa [EndsAt] using ha.ends_le
  · intro _
    simp [lastBidder]

theorem extend (ha : Annals auction next k h) {endTime : Nat} (hle : auction.endTime ≤ endTime) :
    Annals { auction with endTime } next k
      ((time, .AuctionExtended auction.nounId endTime) :: h) := by
  have hunsettled : ¬ Settled h auction.nounId := by
    rw [ha.settled hbegun]
    simp [hopen]
  refine ⟨⟨⟨ha.recorded hbegun, hunsettled⟩, ha.orderly⟩, ?_, ?_, ?_, ?_, ?_, ?_, ?_⟩
  · simpa [Created] using ha.created_lt
  · simpa [Created] using ha.recorded
  · simpa [Created, Settled] using ha.others_settled
  · simpa [Settled] using ha.settled
  · rintro _ bidTime ⟨sender, value, extended, hmem⟩
    rcases List.mem_cons.mp hmem with heq | hmem
    · cases heq
    · exact Nat.lt_of_lt_of_le (ha.bids_lt hbegun bidTime ⟨sender, value, extended, hmem⟩) hle
  · rintro _ end' (⟨time', startTime, hmem⟩ | ⟨time', hmem⟩)
    · rcases List.mem_cons.mp hmem with heq | hmem
      · cases heq
      · exact Nat.le_trans (ha.ends_le hbegun end' (.inl ⟨time', startTime, hmem⟩)) hle
    · rcases List.mem_cons.mp hmem with heq | hmem
      · cases heq
        exact Nat.le_refl _
      · exact Nat.le_trans (ha.ends_le hbegun end' (.inr ⟨time', hmem⟩)) hle
  · simpa [lastBidder] using ha.bidder

/-- The record is closed first; the event follows the payment. -/
theorem close (ha : Annals auction next k h) (hk : Settling k') :
    Annals { auction with settled := true } next k' h := by
  refine ⟨ha.orderly, ha.created_lt, ha.recorded, ha.others_settled, fun _ => ?_, ha.bids_lt,
    ha.ends_le, ha.bidder⟩
  rw [ha.settled hbegun]
  simp [hopen, hk]

end Open

theorem settle (ha : Annals { auction with settled := true } next k h) (hk : Settling k)
    (hk' : ¬ Settling k') (hbegun : auction.startTime ≠ 0) (hover : auction.endTime ≤ time) :
    Annals { auction with settled := true } next k'
      ((time, .AuctionSettled auction.nounId auction.bidder auction.amount) :: h) := by
  have hunsettled : ¬ Settled h auction.nounId := by
    intro hs
    exact ((ha.settled hbegun).mp hs).2 hk
  have hnow : Settled ((time, .AuctionSettled auction.nounId auction.bidder auction.amount) :: h)
      auction.nounId :=
    ⟨time, auction.bidder, auction.amount, List.mem_cons_self ..⟩
  refine ⟨⟨⟨ha.recorded hbegun, hunsettled, (ha.bidder hbegun).symm, ?_, ?_⟩, ha.orderly⟩, ?_, ?_,
    ?_, ?_, ?_, ?_, ?_⟩
  · intro endTime hends
    exact Nat.le_trans (ha.ends_le hbegun endTime hends) hover
  · intro bidTime hbid
    exact Nat.lt_of_lt_of_le (ha.bids_lt hbegun bidTime hbid) hover
  · simpa [Created] using ha.created_lt
  · simpa [Created] using ha.recorded
  · intro m hm
    have hm : Created h m := by simpa [Created] using hm
    rcases ha.others_settled m hm with hs | ⟨-, rfl⟩
    · exact .inl (hs.append [_])
    · exact .inl hnow
  · intro _
    simp [hnow, hk']
  · simpa [BidAt] using ha.bids_lt
  · simpa [EndsAt] using ha.ends_le
  · simpa [lastBidder] using ha.bidder

end Annals

/-! ## The house with its token -/

namespace AuctionWorld

open AuctionHouseEvent Token

variable {s s' : AuctionWorld NounsToken} {this : Address} {h : AuctionHistory}
  {k : Option AuctionContinuation} {proxies : Address → Address} {now : Nat}

/-- The auction of Noun `n` is running or waits to be settled. -/
def OnAuction (s : AuctionWorld NounsToken) (n : Nat) : Prop :=
  s.house.auction.startTime ≠ 0 ∧ s.house.auction.settled = false ∧ s.house.auction.nounId = n

/-- The house, which is the minter, with the history that led to its state. -/
structure InOrder (this : Address) (s : AuctionWorld NounsToken) (k : Option AuctionContinuation)
    (h : AuctionHistory) : Prop where
  annals : Annals s.house.auction s.token.currentNounId k h
  minter : s.token.minter = this
  silent : Silent this s.token.toToken
  held : ∀ n, s.OnAuction n → s.token.owners n = this
  /-- While the owner is paid, the record is that of the auction being settled. -/
  closed : ∀ auction sender createsNew, k = some (.settle auction sender createsNew) →
    s.house.auction = { auction with settled := true } ∧ auction.startTime ≠ 0 ∧
      auction.endTime ≤ s.timestamp

/-- No auction is ended, and one that starts is about a new Noun; what exists stays with its
owner. -/
structure StartsOnly (s s' : AuctionWorld NounsToken) : Prop where
  fresh : ∀ n, s'.OnAuction n → s.token.currentNounId ≤ n
  owners : ∀ n, n < s.token.currentNounId → s'.token.owners n = s.token.owners n
  bids : bids s'.house.log = bids s.house.log
  pending : s'.pending = s.pending

theorem mint_ok {token : NounsToken} {nounId : Nat} {n : NounsToken}
    (h : (NounsToken.interface proxies now).mint this n = .ok (token, nounId)) :
    n.mint now this = .ok token ∧ nounId = token.currentNounId - 1 := by
  simp only [NounsToken.interface, bind_eq_ok, pure_eq_ok] at h
  obtain ⟨n', hmint, heq⟩ := h
  cases heq
  exact ⟨hmint, rfl⟩

theorem createAuction_inOrder {sender : Address} (hs : InOrder this s k h) (hzero : this ≠ 0)
    (hk : ¬ Settling k) (hclock : s.timestamp ≠ 0)
    (hdone : s.house.auction.startTime = 0 ∨ s.house.auction.settled = true)
    (hcreate : s.createAuction (NounsToken.interface proxies now) this sender = .ok s') :
    ∃ h', Extends s.timestamp s.house.log s'.house.log h h' ∧ InOrder this s' k h' ∧
      StartsOnly s s' := by
  have hclosed : ∀ n, ¬ s.OnAuction n := by
    rintro n ⟨hbegun, hopen, -⟩
    rcases hdone with hstart | hsettled
    · exact hbegun hstart
    · simp [hopen] at hsettled
  have hk' : ∀ auction sender createsNew, k ≠ some (.settle auction sender createsNew) := by
    rintro auction sender createsNew rfl
    exact hk trivial
  rcases createAuction_ok hcreate with ⟨token, nounId, hmint, rfl⟩ | ⟨house, hpause, rfl⟩
  · obtain ⟨hminted, rfl⟩ := mint_ok hmint
    obtain ⟨-, hlt, hminter, howner⟩ := NounsToken.mint_counts hminted
    have hold : s.token.currentNounId ≤ token.currentNounId - 1 := by omega
    have hnew : token.currentNounId - 1 < token.currentNounId := by omega
    refine ⟨_, .cons _ _ _ _, ⟨?_, hminter.trans hs.minter, ?_, ?_, ?_⟩, ⟨?_, ?_, rfl, rfl⟩⟩
    · exact hs.annals.create hk hdone hclock hold hnew
    · exact (NounsToken.mint_kept hs.silent hzero hminted).silent
    · rintro n ⟨-, -, rfl⟩
      exact howner.trans hs.minter
    · intro auction sender createsNew hsome
      exact absurd hsome (hk' _ _ _)
    · rintro n ⟨-, -, rfl⟩
      exact hold
    · intro n hn
      exact NounsToken.mint_owners hminted hn
  · have hsame := pauseBy_same hpause
    simp only [NounsAuctionHouse.pauseBy, bind_eq_ok, pure_eq_ok] at hpause
    obtain ⟨_, -, rfl⟩ := hpause
    refine ⟨_, .cons _ _ _ _, ⟨hs.annals.setting rfl, hs.minter, hs.silent, hs.held, ?_⟩,
      ⟨?_, fun _ _ => rfl, rfl, rfl⟩⟩
    · intro auction sender createsNew hsome
      exact absurd hsome (hk' _ _ _)
    · intro n hn
      exact absurd hn (hclosed n)

/-- A bid is placed; the auction goes on for `timeBuffer` at least. -/
theorem placeBid_inOrder {sender : Address} {value : Nat} (hs : InOrder this s k h)
    (hk : ¬ Settling k) (hbegun : s.house.auction.startTime ≠ 0)
    (hopen : s.house.auction.settled = false) (hlt : s.timestamp < s.house.auction.endTime) :
    let house := s.house.placeBid s.timestamp s.house.auction sender value
    (∃ h', Extends s.timestamp s.house.log house.log h h' ∧
      InOrder this { s with house, entered := false } none h') ∧
    house.auction.startTime = s.house.auction.startTime ∧ house.auction.settled = false ∧
    house.auction.nounId = s.house.auction.nounId ∧
    s.house.auction.endTime ≤ house.auction.endTime ∧
    s.timestamp + house.timeBuffer ≤ house.auction.endTime := by
  intro house
  have hnone : Settling k ↔ Settling none := iff_of_false hk id
  have hannals := (hs.annals.bid hbegun hopen hlt sender value
    (decide (s.house.auction.endTime - s.timestamp < s.house.timeBuffer))).of_settling hnone
  have hheld := hs.held s.house.auction.nounId ⟨hbegun, hopen, rfl⟩
  by_cases hextended : s.house.auction.endTime - s.timestamp < s.house.timeBuffer
  · have hhouse : house = { s.house with
        auction := { s.house.auction with
          amount := value, bidder := sender, endTime := s.timestamp + s.house.timeBuffer }
        log := .AuctionExtended s.house.auction.nounId (s.timestamp + s.house.timeBuffer) ::
          .AuctionBid s.house.auction.nounId sender value true :: s.house.log } := by
      simp [house, NounsAuctionHouse.placeBid, NounsAuctionHouse.emit, hextended]
    simp only [hextended, decide_true] at hannals
    have hle : s.house.auction.endTime ≤ s.timestamp + s.house.timeBuffer := by omega
    rw [hhouse]
    refine ⟨⟨_, (Extends.cons _ _ _ _).trans (.cons _ _ _ _), ?_, hs.minter, hs.silent, ?_, ?_⟩, rfl,
      hopen, rfl, hle, Nat.le_refl _⟩
    · refine Annals.extend ?_ ?_ hannals hle
      · exact hbegun
      · exact hopen
    · rintro n ⟨-, -, rfl⟩
      exact hheld
    · simp
  · have hhouse : house = { s.house with
        auction := { s.house.auction with amount := value, bidder := sender }
        log := .AuctionBid s.house.auction.nounId sender value false :: s.house.log } := by
      simp [house, NounsAuctionHouse.placeBid, NounsAuctionHouse.emit, hextended]
    simp only [hextended, decide_false] at hannals
    rw [hhouse]
    refine ⟨⟨_, .cons _ _ _ _, hannals, hs.minter, hs.silent, ?_, ?_⟩, rfl,
      hopen, rfl, Nat.le_refl _, ?_⟩
    · rintro n ⟨-, -, rfl⟩
      exact hheld
    · simp
    · change s.timestamp + s.house.timeBuffer ≤ s.house.auction.endTime
      omega

/-- The event of the settlement, and the next auction if one follows. -/
theorem finishSettle_inOrder {auction : Auction} {sender : Address} {createsNew : Bool}
    (hs : InOrder this s (some (.settle auction sender createsNew)) h) (hzero : this ≠ 0)
    (hclock : s.timestamp ≠ 0)
    (hfinish : s.finish (NounsToken.interface proxies now) this
      (.settle auction sender createsNew) = .ok s') :
    ∃ h', Extends s.timestamp s.house.log s'.house.log h h' ∧ InOrder this s' none h' ∧
      StartsOnly s s' := by
  obtain ⟨hauction, hbegun, hover⟩ := hs.closed _ _ _ rfl
  have hannals := hs.annals
  rw [hauction] at hannals
  have hsettled := hannals.settle trivial (show ¬ Settling none from id) hbegun hover
  rw [← hauction] at hsettled
  simp only [finish] at hfinish
  have hs₁ : InOrder this { s with
      house := s.house.emit (.AuctionSettled auction.nounId auction.bidder auction.amount) } none
      ((s.timestamp, .AuctionSettled auction.nounId auction.bidder auction.amount) :: h) :=
    ⟨hsettled, hs.minter, hs.silent, hs.held, by simp⟩
  split at hfinish
  · simp only [bind_eq_ok, pure_eq_ok] at hfinish
    obtain ⟨s₁, hnext, rfl⟩ := hfinish
    obtain ⟨h', hextends, hs', hstarts⟩ := createAuction_inOrder hs₁ hzero id hclock
      (.inr (by simp [hauction, NounsAuctionHouse.emit])) hnext
    refine ⟨h', (Extends.cons _ _ _ _).trans hextends, ?_, ?_⟩
    · exact ⟨hs'.annals, hs'.minter, hs'.silent, hs'.held, by simp⟩
    · exact ⟨hstarts.fresh, hstarts.owners, hstarts.bids, hstarts.pending⟩
  · simp only [pure_bind, pure_eq_ok] at hfinish
    cases hfinish
    refine ⟨_, .cons _ _ _ _, ?_, ?_, fun _ _ => rfl, rfl, rfl⟩
    · exact ⟨hs₁.annals, hs₁.minter, hs₁.silent, hs₁.held, by simp⟩
    · rintro n ⟨-, hopen, -⟩
      simp [hauction, NounsAuctionHouse.emit, leave] at hopen

/-! ### Steps -/

/-- What one step does to the auctions. -/
structure Goes (this : Address) (s s' : AuctionWorld NounsToken) (h h' : AuctionHistory) :
    Prop where
  log : Extends s.timestamp s.house.log s'.house.log h h'
  inOrder : InOrder this s' s'.pending h'
  endTime_le : ∀ n, s.OnAuction n → s'.OnAuction n →
    s.house.auction.endTime ≤ s'.house.auction.endTime
  handed : ∀ n, s.OnAuction n → ¬ s'.OnAuction n →
    s.house.auction.endTime ≤ s.timestamp ∧ s'.token.owners n = s.house.auction.bidder
  fresh : ∀ n, s'.OnAuction n → s.OnAuction n ∨ s.token.currentNounId ≤ n
  buffered : bids s'.house.log ≠ bids s.house.log →
    s'.timestamp + s'.house.timeBuffer ≤ s'.house.auction.endTime

/-- The same auction, with other settings or another token. -/
theorem Goes.of_same {h' : AuctionHistory}
    (hlog : Extends s.timestamp s.house.log s'.house.log h h')
    (hs : InOrder this s' s'.pending h') (hauction : s'.house.auction = s.house.auction)
    (hbids : bids s'.house.log = bids s.house.log) : Goes this s s' h h' := by
  have hon : ∀ n, s'.OnAuction n ↔ s.OnAuction n := fun n => by simp only [OnAuction, hauction]
  refine ⟨hlog, hs, ?_, ?_, ?_, ?_⟩
  · intro n _ _
    rw [hauction]
  · intro n hn hn'
    exact absurd ((hon n).mpr hn) hn'
  · intro n hn
    exact .inl ((hon n).mp hn)
  · intro hne
    exact absurd hbids hne

theorem Goes.of_starts {h' : AuctionHistory}
    (hlog : Extends s.timestamp s.house.log s'.house.log h h')
    (hs : InOrder this s' s'.pending h') (hclosed : ∀ n, ¬ s.OnAuction n)
    (hfresh : ∀ n, s'.OnAuction n → s.token.currentNounId ≤ n)
    (hbids : bids s'.house.log = bids s.house.log) : Goes this s s' h h' := by
  refine ⟨hlog, hs, ?_, ?_, ?_, ?_⟩
  · intro n hn
    exact absurd hn (hclosed n)
  · intro n hn
    exact absurd hn (hclosed n)
  · intro n hn
    exact .inr (hfresh n hn)
  · intro hne
    exact absurd hbids hne

/-- Where money moved first. -/
theorem Goes.of_before {s₁ : AuctionWorld NounsToken} {h' : AuctionHistory}
    (hgoes : Goes this s₁ s' h h') (hauction : s₁.house.auction = s.house.auction)
    (hlog : s₁.house.log = s.house.log) (htoken : s₁.token = s.token)
    (htime : s₁.timestamp = s.timestamp) : Goes this s s' h h' := by
  have hon : ∀ n, s₁.OnAuction n ↔ s.OnAuction n := fun n => by simp only [OnAuction, hauction]
  obtain ⟨hextends, hs, hend, hhanded, hfresh, hbuffered⟩ := hgoes
  simp only [hauction, hlog, htoken, htime, hon] at hextends hend hhanded hfresh hbuffered
  exact ⟨hextends, hs, hend, hhanded, hfresh, hbuffered⟩

theorem InOrder.of_before {s₁ : AuctionWorld NounsToken} {k' : Option AuctionContinuation}
    (hs : InOrder this s k h) (hk : ¬ Settling k) (hk' : ¬ Settling k')
    (hauction : s₁.house.auction = s.house.auction) (htoken : s₁.token = s.token) :
    InOrder this s₁ k' h := by
  refine ⟨?_, ?_, ?_, ?_, ?_⟩
  · rw [hauction, htoken]
    exact hs.annals.of_settling (iff_of_false hk hk')
  · rw [htoken]
    exact hs.minter
  · rw [htoken]
    exact hs.silent
  · simpa only [OnAuction, hauction, htoken] using hs.held
  · rintro auction sender createsNew rfl
    exact absurd trivial hk'

section Steps

variable {t : INounsToken NounsToken}

/-- The new bid is placed after the refund. -/
theorem finishBid_goes {sender : Address} {value : Nat} (hs : InOrder this s k h)
    (hk : ¬ Settling k) (hpending : s.pending = none) (hbegun : s.house.auction.startTime ≠ 0)
    (hopen : s.house.auction.settled = false) (hlt : s.timestamp < s.house.auction.endTime)
    (hfinish : s.finish t this (.createBid s.house.auction sender value) = .ok s') :
    ∃ h', Goes this s s' h h' := by
  cases pure_eq_ok.mp hfinish
  obtain ⟨⟨h', hextends, hs'⟩, hstart, hopen', hnoun, hend, hbuffer⟩ :=
    @placeBid_inOrder s this h k sender value hs hk hbegun hopen hlt
  refine ⟨h', hextends, ?_, ?_, ?_, ?_, ?_⟩
  · have hdone : ¬ Settling s.pending := by
      rw [hpending]
      exact id
    exact hs'.of_before id hdone rfl rfl
  · intro n _ _
    exact hend
  · rintro n ⟨-, -, rfl⟩ hn'
    exact absurd ⟨hstart.trans_ne hbegun, hopen', hnoun⟩ hn'
  · rintro n ⟨-, -, rfl⟩
    exact .inl ⟨hbegun, hopen, hnoun.symm⟩
  · intro _
    exact hbuffer

theorem createBid_goes {sender : Account} {nounId value : Nat} {accepts : Bool} (hsolvent : s.Solvent)
    (hs : InOrder this s s.pending h)
    (hcall : s.createBid t this sender nounId value accepts = .ok s') :
    ∃ h', Goes this s s' h h' := by
  simp only [createBid, NounsAuctionHouse.checkBid, bind_eq_ok, require_eq_ok] at hcall
  obtain ⟨s₁, henter, _, ⟨_, -, _, hlt, _, -, -⟩, hcall⟩ := hcall
  obtain ⟨hentered, rfl⟩ := enter_ok henter
  have hpending := hsolvent.pending_eq_none hentered
  have hopen := hsolvent.timed.open hlt
  have hbegun := hsolvent.timed.startTime_ne_zero hlt
  have hk : ¬ Settling s.pending := by
    rw [hpending]
    exact id
  -- with or without a refund in WETH, the bid is placed in this call
  have hplace : ∀ s₁ : AuctionWorld NounsToken,
      s₁.finish t this (.createBid s.house.auction sender value) = .ok s' →
      s₁.house.auction = s.house.auction → s₁.house.log = s.house.log → s₁.token = s.token →
      s₁.timestamp = s.timestamp → s₁.pending = s.pending → ∃ h', Goes this s s' h h' := by
    intro s₁ hfinish hauction hlog htoken htime hpending₁
    rw [← hauction] at hfinish hopen hbegun
    obtain ⟨h', hgoes⟩ := finishBid_goes (hs.of_before hk hk hauction htoken) hk
      (hpending₁.trans hpending) hbegun hopen (by rw [hauction, htime]; exact hlt) hfinish
    exact ⟨h', hgoes.of_before hauction hlog htoken htime⟩
  split at hcall
  · simp only [pay, bind_eq_ok, require_eq_ok] at hcall
    obtain ⟨_, -, hcall⟩ := hcall
    split at hcall
    · cases pure_eq_ok.mp hcall
      exact ⟨h, .of_same (.refl _ _ _) (hs.of_before hk id rfl rfl) rfl rfl⟩
    · exact hplace _ hcall rfl rfl rfl rfl rfl
  · exact hplace _ hcall rfl rfl rfl rfl rfl

theorem handOver_ok {auction : Auction} {n n' : NounsToken} (hsilent : Silent this n.toToken)
    (h : (NounsToken.interface proxies now).handOver this auction n = .ok n') :
    n'.currentNounId = n.currentNounId ∧ n'.minter = n.minter ∧ Silent this n'.toToken ∧
      n'.owners auction.nounId = auction.bidder := by
  rw [INounsToken.handOver] at h
  split at h
  · rename_i hnobody
    obtain ⟨-, hcurrent, hminter⟩ := NounsToken.burn_counts h
    simp only [NounsToken.interface, NounsToken.burn, bind_eq_ok, pure_eq_ok] at h
    obtain ⟨_, -, burned, hburn, rfl⟩ := h
    have hmoved := burnToken_ok hburn
    refine ⟨hcurrent, hminter, ?_, ?_⟩
    · exact (hsilent.of_cleared hmoved (burnToken_cleared hburn)).of_same rfl rfl rfl
    · change burned.owners auction.nounId = auction.bidder
      rw [hmoved.owners, Function.update_self, hnobody]
  · obtain ⟨-, hcurrent, hminter⟩ := NounsToken.transferFrom_counts h
    refine ⟨hcurrent, hminter, NounsToken.transferFrom_silent hsilent h, ?_⟩
    rw [(NounsToken.transferFrom_moved h).owners, Function.update_self]

/-- The auction is over and its Noun has gone to the last bidder. -/
theorem Goes.of_handed {h' : AuctionHistory}
    (hlog : Extends s.timestamp s.house.log s'.house.log h h')
    (hs' : InOrder this s' s'.pending h') (hid : s.house.auction.nounId < s.token.currentNounId)
    (hover : s.house.auction.endTime ≤ s.timestamp)
    (howner : s'.token.owners s.house.auction.nounId = s.house.auction.bidder)
    (hfresh : ∀ n, s'.OnAuction n → s.token.currentNounId ≤ n)
    (hbids : bids s'.house.log = bids s.house.log) : Goes this s s' h h' := by
  refine ⟨hlog, hs', ?_, ?_, ?_, ?_⟩
  · rintro n ⟨-, -, rfl⟩ hn'
    exact absurd (hfresh _ hn') (Nat.not_le.mpr hid)
  · rintro n ⟨-, -, rfl⟩ _
    exact ⟨hover, howner⟩
  · intro n hn'
    exact .inr (hfresh n hn')
  · intro hne
    exact absurd hbids hne

theorem settle_goes {sender : Address} {createsNew accepts : Bool} (hzero : this ≠ 0)
    (hclock : s.timestamp ≠ 0) (hs : InOrder this s s.pending h) (hpending : s.pending = none)
    (hcall : s.settle (NounsToken.interface proxies now) this sender createsNew accepts = .ok s') :
    ∃ h', Goes this s s' h h' := by
  simp only [settle, NounsAuctionHouse.checkSettle, bind_eq_ok, require_eq_ok] at hcall
  obtain ⟨_, ⟨_, hbegun, _, hopen, hover⟩, token, hgiven, hcall⟩ := hcall
  obtain ⟨hcurrent, hminter, hsilent, howner⟩ := handOver_ok hs.silent hgiven
  have hid := hs.annals.nounId_lt hbegun
  -- the state of the house once the Noun is handed over, whatever has been paid
  have hclosed : ∀ s₁ : AuctionWorld NounsToken,
      s₁.house.auction = { s.house.auction with settled := true } → s₁.token = token →
      s₁.timestamp = s.timestamp →
      InOrder this s₁ (some (.settle s.house.auction sender createsNew)) h := by
    intro s₁ hauction htoken htime
    refine ⟨?_, ?_, ?_, ?_, ?_⟩
    · rw [hauction, htoken, hcurrent]
      exact hs.annals.close hbegun hopen trivial
    · rw [htoken, hminter]
      exact hs.minter
    · rw [htoken]
      exact hsilent
    · rintro n ⟨-, hopen', -⟩
      rw [hauction] at hopen'
      cases hopen'
    · rintro auction sender' createsNew' ⟨⟩
      rw [htime]
      exact ⟨hauction, hbegun, hover⟩
  have hfinish : ∀ s₁ : AuctionWorld NounsToken,
      s₁.finish (NounsToken.interface proxies now) this
        (.settle s.house.auction sender createsNew) = .ok s' →
      s₁.house.auction = { s.house.auction with settled := true } → s₁.house.log = s.house.log →
      s₁.token = token → s₁.timestamp = s.timestamp → s₁.pending = s.pending →
      ∃ h', Goes this s s' h h' := by
    intro s₁ hfinish hauction hlog htoken htime hpending₁
    obtain ⟨h', hextends, hs', hstarts⟩ := finishSettle_inOrder (hclosed s₁ hauction htoken htime)
      hzero (by rwa [htime]) hfinish
    rw [hlog, htime] at hextends
    have hpending' : s'.pending = none := hstarts.pending.trans (hpending₁.trans hpending)
    refine ⟨h', .of_handed hextends ?_ hid hover ?_ ?_ ?_⟩
    · rw [hpending']
      exact hs'
    · rw [hstarts.owners _ (by rwa [htoken, hcurrent]), htoken]
      exact howner
    · intro n hn
      have := hstarts.fresh n hn
      rwa [htoken, hcurrent] at this
    · rw [hstarts.bids, hlog]
  split at hcall
  · simp only [pay, bind_eq_ok, require_eq_ok] at hcall
    obtain ⟨_, -, hcall⟩ := hcall
    split at hcall
    · cases pure_eq_ok.mp hcall
      refine ⟨h, .of_handed (.refl _ _ _) (hclosed _ rfl rfl rfl) hid hover howner ?_ rfl⟩
      rintro n ⟨-, hopen', -⟩
      cases hopen'
    · exact hfinish _ hcall rfl rfl rfl rfl rfl
  · exact hfinish _ hcall rfl rfl rfl rfl rfl

theorem unpause_goes {sender : Address} (hsolvent : s.Solvent) (hzero : this ≠ 0)
    (hs : InOrder this s s.pending h) (hk : ¬ Settling s.pending)
    (hcall : s.unpause (NounsToken.interface proxies now) this sender = .ok s') :
    ∃ h', Goes this s s' h h' := by
  simp only [unpause, bind_eq_ok] at hcall
  obtain ⟨_, -, house, hunpause, hcall⟩ := hcall
  have hclock : s.timestamp ≠ 0 := Nat.pos_iff_ne_zero.mp hsolvent.timed.clock
  simp only [NounsAuctionHouse.unpauseBy, bind_eq_ok, pure_eq_ok] at hunpause
  obtain ⟨_, -, rfl⟩ := hunpause
  have hs₁ : InOrder this { s with
      house := NounsAuctionHouse.emit { s.house with paused := false } (.Unpaused sender) } s.pending
      ((s.timestamp, .Unpaused sender) :: h) :=
    ⟨hs.annals.setting rfl, hs.minter, hs.silent, hs.held, hs.closed⟩
  split at hcall
  · rename_i hdone
    obtain ⟨h', hextends, hs', hstarts⟩ := createAuction_inOrder hs₁ hzero hk hclock hdone hcall
    refine ⟨h', .of_starts ((Extends.cons _ _ _ _).trans hextends) ?_ ?_ hstarts.fresh hstarts.bids⟩
    · rw [hstarts.pending]
      exact hs'
    · rintro n ⟨hbegun, hopen, -⟩
      rcases hdone with hstart | hsettled
      · exact hbegun hstart
      · exact absurd (hopen.symm.trans hsettled) (by decide)
  · cases pure_eq_ok.mp hcall
    exact ⟨_, .of_same (.cons _ _ _ _) hs₁ rfl rfl⟩

theorem set_ok {house house' house'' : NounsAuctionHouse} {sender : Address} {e : AuctionHouseEvent}
    (h : house.set sender house' e = .ok house'') : house'' = house'.emit e := by
  simp only [NounsAuctionHouse.set, bind_eq_ok, pure_eq_ok] at h
  obtain ⟨_, -, rfl⟩ := h
  rfl

/-- The owner changes settings only. -/
theorem ownerCall_log {house house' : NounsAuctionHouse} {sender : Address} {cl : AuctionHouseCall}
    (h : house.ownerCall sender cl = .ok house') :
    house'.log = house.log ∨ ∃ e : AuctionHouseEvent, e.isSetting = true ∧ house'.log = e :: house.log := by
  cases cl with
  | pause =>
    simp only [NounsAuctionHouse.ownerCall, NounsAuctionHouse.pause, NounsAuctionHouse.pauseBy,
      bind_eq_ok, pure_eq_ok] at h
    obtain ⟨_, -, _, -, rfl⟩ := h
    exact .inr ⟨_, rfl, rfl⟩
  | setTimeBuffer timeBuffer =>
    cases set_ok h
    exact .inr ⟨_, rfl, rfl⟩
  | setReservePrice reservePrice =>
    cases set_ok h
    exact .inr ⟨_, rfl, rfl⟩
  | setMinBidIncrementPercentage minBidIncrementPercentage =>
    cases set_ok h
    exact .inr ⟨_, rfl, rfl⟩
  | setDuration duration =>
    cases set_ok h
    exact .inr ⟨_, rfl, rfl⟩
  | transferOwnership newOwner =>
    simp only [NounsAuctionHouse.ownerCall, NounsAuctionHouse.transferOwnership, bind_eq_ok,
      pure_eq_ok] at h
    obtain ⟨_, -, _, -, rfl⟩ := h
    exact .inl rfl
  | renounceOwnership =>
    simp only [NounsAuctionHouse.ownerCall, NounsAuctionHouse.renounceOwnership, bind_eq_ok,
      pure_eq_ok] at h
    obtain ⟨_, -, rfl⟩ := h
    exact .inl rfl
  | settleCurrentAndCreateNewAuction | settleAuction | createBid _ _ | unpause =>
    exact absurd h throw_ne_ok

theorem ownerCall_goes {house : NounsAuctionHouse} {sender : Address} {cl : AuctionHouseCall}
    (hs : InOrder this s s.pending h) (hcall : s.house.ownerCall sender cl = .ok house) :
    ∃ h', Goes this s { s with house } h h' := by
  have hsame := ownerCall_same hcall
  rcases ownerCall_log hcall with hlog | ⟨e, he, hlog⟩
  · refine ⟨h, .of_same ?_ ⟨?_, hs.minter, hs.silent, ?_, ?_⟩ hsame.auction hsame.bids⟩
    · rw [hlog]
      exact .refl _ _ _
    · rw [hsame.auction]
      exact hs.annals
    · simpa only [OnAuction, hsame.auction] using hs.held
    · simpa only [hsame.auction] using hs.closed
  · refine ⟨(s.timestamp, e) :: h, .of_same ?_ ⟨?_, hs.minter, hs.silent, ?_, ?_⟩ hsame.auction
      hsame.bids⟩
    · rw [hlog]
      exact .cons _ _ _ _
    · rw [hsame.auction]
      exact hs.annals.setting he
    · simpa only [OnAuction, hsame.auction] using hs.held
    · simpa only [hsame.auction] using hs.closed

theorem enter_inOrder (hs : InOrder this s s.pending h) (henter : s.enter = .ok s') :
    InOrder this s' s'.pending h := by
  obtain ⟨-, rfl⟩ := enter_ok henter
  exact ⟨hs.annals, hs.minter, hs.silent, hs.held, hs.closed⟩

theorem call_goes {sender : Account} {accepts : Bool} {cl : AuctionHouseCall} (hsolvent : s.Solvent)
    (hzero : this ≠ 0) (hs : InOrder this s s.pending h) (hk : ¬ Settling s.pending)
    (hcall : s.call (NounsToken.interface proxies now) this sender accepts cl = .ok s') :
    ∃ h', Goes this s s' h h' := by
  have hclock : s.timestamp ≠ 0 := Nat.pos_iff_ne_zero.mp hsolvent.timed.clock
  -- entering the guard changes nothing that an auction depends on
  have hsettle : ∀ s₁ createsNew, s.enter = .ok s₁ →
      s₁.settle (NounsToken.interface proxies now) this sender createsNew accepts = .ok s' →
      ∃ h', Goes this s s' h h' := by
    intro s₁ createsNew henter hsettle
    obtain ⟨-, hpending, -⟩ := enter_solvent hsolvent henter
    obtain ⟨-, heq⟩ := enter_ok henter
    have hclock₁ : s₁.timestamp ≠ 0 := by rwa [heq]
    obtain ⟨h', hgoes⟩ := settle_goes hzero hclock₁ (enter_inOrder hs henter) hpending hsettle
    exact ⟨h', hgoes.of_before (by rw [heq]) (by rw [heq]) (by rw [heq]) (by rw [heq])⟩
  cases cl with
  | settleCurrentAndCreateNewAuction =>
    simp only [call, settleCurrentAndCreateNewAuction, bind_eq_ok] at hcall
    obtain ⟨s₁, henter, _, -, hcall⟩ := hcall
    exact hsettle s₁ true henter hcall
  | settleAuction =>
    simp only [call, settleAuction, bind_eq_ok] at hcall
    obtain ⟨_, -, s₁, henter, hcall⟩ := hcall
    exact hsettle s₁ false henter hcall
  | createBid nounId value => exact createBid_goes hsolvent hs hcall
  | unpause => exact unpause_goes hsolvent hzero hs hk hcall
  | pause | setTimeBuffer _ | setReservePrice _ | setMinBidIncrementPercentage _ | setDuration _
  | transferOwnership _ | renounceOwnership =>
    simp only [call, bind_eq_ok, pure_eq_ok] at hcall
    obtain ⟨house, hcall, rfl⟩ := hcall
    exact ownerCall_goes hs hcall

theorem return_goes (hsolvent : s.Solvent) (hzero : this ≠ 0) (hs : InOrder this s s.pending h)
    (hreturn : s.return_ (NounsToken.interface proxies now) this = .ok s') :
    ∃ h', Goes this s s' h h' := by
  have hclock : s.timestamp ≠ 0 := Nat.pos_iff_ne_zero.mp hsolvent.timed.clock
  have hk := hsolvent.inProgress
  simp only [return_] at hreturn
  split at hreturn
  · rename_i k hpending
    rw [hpending] at hk hs
    cases k with
    | createBid auction sender value =>
      obtain ⟨rfl, -, hopen, hlt, -⟩ := hk
      have hbegun := hsolvent.timed.startTime_ne_zero hlt
      have hs₁ : InOrder this { s with pending := none } none h := hs.of_before id id rfl rfl
      obtain ⟨h', hgoes⟩ := finishBid_goes hs₁ id rfl hbegun hopen hlt hreturn
      exact ⟨h', hgoes.of_before rfl rfl rfl rfl⟩
    | settle auction sender createsNew =>
      have hs₁ : InOrder this { s with pending := none } (some (.settle auction sender createsNew)) h :=
        ⟨hs.annals, hs.minter, hs.silent, hs.held, hs.closed⟩
      obtain ⟨h', hextends, hs', hstarts⟩ := finishSettle_inOrder hs₁ hzero hclock hreturn
      obtain ⟨hauction, -, -⟩ := hs.closed _ _ _ rfl
      refine ⟨h', .of_starts hextends ?_ ?_ hstarts.fresh hstarts.bids⟩
      · rw [hstarts.pending]
        exact hs'
      · rintro n ⟨-, hopen, -⟩
        rw [hauction] at hopen
        cases hopen
  · exact absurd hreturn throw_ne_ok

end Steps

end AuctionWorld

/-! ## Runs -/

/-- Somebody else than `this`, which has no proxy, calls the token. -/
def NounsToken.CalledByOther {H : Type} (c : Crypto H) (this : Address) (now timestamp : Nat)
    (n n' : NounsToken) : Prop :=
  ∃ proxies received, ∃ sender : Account, ∃ cl, proxies this = 0 ∧ sender ≠ this ∧
    n.call c proxies received now timestamp sender cl = .ok n'

/-- The house with its history. -/
structure Chronicle where
  world : AuctionWorld NounsToken
  history : AuctionHistory

namespace Chronicle

open AuctionWorld Token

variable {H : Type} (c : Crypto H) (this : Account)

/-- A step of a house that stays the minter and whose owner does not call it while being paid. -/
def WorldNext : AuctionWorld NounsToken → AuctionWorld NounsToken → Prop :=
  AuctionWorld.Next this
    (fun now t => ∃ proxies : Address → Address, proxies this = 0 ∧
      t = NounsToken.interface proxies now)
    (fun now timestamp n n' => n.CalledByOther c this now timestamp n' ∧ n'.minter = this)
    (fun s => ¬ Settling s.pending)

def Next (s s' : Chronicle) : Prop :=
  WorldNext c this s.world s'.world ∧
    Extends s.world.timestamp s.world.house.log s'.world.house.log s.history s'.history

/-- A new house, next to a token that it has not called yet. -/
structure WorldStart (s : AuctionWorld NounsToken) : Prop where
  start : s.Start
  token : Reachable (fun n => ∃ owner noundersDAO minter, n = .deploy owner noundersDAO minter)
    (fun n n' => ∃ now timestamp, n.CalledByOther c this now timestamp n') s.token
  minter : s.token.minter = this

structure Start (s : Chronicle) : Prop where
  world : WorldStart c this s.world
  history : s.history = s.world.house.log.map (Prod.mk s.world.timestamp)

variable {c this} {w w' : AuctionWorld NounsToken} {h : AuctionHistory} {s : Chronicle}

theorem WorldStart.silent (hw : WorldStart c this w) : Silent (this : Address) w.token.toToken := by
  refine hw.token.invariant (P := fun n => Silent (this : Address) n.toToken) ?_ ?_
  · rintro n ⟨owner, noundersDAO, minter, rfl⟩
    exact empty_silent _
  · rintro n n' - hsilent ⟨now, timestamp, proxies, received, sender, cl, hproxies, hsender, hcall⟩
    exact (NounsToken.call_kept hsilent this.2 hproxies hsender hcall).1

theorem Start.inOrder (hs : Start c this s) : InOrder this s.world s.world.pending s.history := by
  obtain ⟨owner, timeBuffer, reservePrice, pct, duration, hhouse⟩ := hs.world.start.house
  have hstart : s.world.house.auction.startTime = 0 := by rw [hhouse]; rfl
  have hhistory : s.history = [(s.world.timestamp, .Paused owner)] := by
    rw [hs.history, hhouse]
    rfl
  have hcreated : ∀ n, ¬ Created s.history n := by
    rintro n ⟨time, startTime, endTime, hmem⟩
    simp [hhistory] at hmem
  refine ⟨⟨?_, ?_, ?_, ?_, ?_, ?_, ?_, ?_⟩, hs.world.minter, hs.world.silent, ?_, ?_⟩
  · rw [hhistory]
    exact ⟨trivial, trivial⟩
  · intro n hn
    exact absurd hn (hcreated n)
  · exact fun hbegun => absurd hstart hbegun
  · intro n hn
    exact absurd hn (hcreated n)
  · exact fun hbegun => absurd hstart hbegun
  · exact fun hbegun => absurd hstart hbegun
  · exact fun hbegun => absurd hstart hbegun
  · exact fun hbegun => absurd hstart hbegun
  · exact fun n hn => absurd hstart hn.1
  · rw [hs.world.start.pending]
    simp

theorem WorldNext.goes (hn : WorldNext c this w w') (hsolvent : w.Solvent)
    (hs : InOrder this w w.pending h) : ∃ h', Goes this w w' h h' := by
  cases hn with
  | advance blockNumber timestamp hpending hblock htime =>
    refine ⟨h, .of_same (.refl _ _ _) ⟨hs.annals, hs.minter, hs.silent, hs.held, ?_⟩ rfl rfl⟩
    simp [hpending]
  | call t sender accepts cl ht hadmits hcall =>
    obtain ⟨proxies, -, rfl⟩ := ht
    exact call_goes hsolvent this.2 hs hadmits hcall
  | return_ t ht hreturn =>
    obtain ⟨proxies, -, rfl⟩ := ht
    exact return_goes hsolvent this.2 hs hreturn
  | @token token hother =>
    obtain ⟨⟨proxies, received, sender, cl, hproxies, hsender, hcall⟩, hminter⟩ := hother
    obtain ⟨hsilent, howned⟩ := NounsToken.call_kept hs.silent this.2 hproxies hsender hcall
    -- only the minter, which is the house, makes new ids or burns
    have hother : (sender : Address) ≠ w.token.minter := by
      rw [hs.minter]
      exact hsender
    have hcurrent := (NounsToken.call_counts hcall).2 hother
    refine ⟨h, .of_same (.refl _ _ _) ⟨?_, hminter, hsilent, ?_, hs.closed⟩ rfl rfl⟩
    · change Annals w.house.auction token.currentNounId w.pending h
      rw [hcurrent]
      exact hs.annals
    · intro n hn
      rcases howned n (hs.held n hn) with hkept | ⟨-, hburn⟩
      · exact hkept
      · exact absurd hburn hother
  | receive amount =>
    exact ⟨h, .of_same (.refl _ _ _) ⟨hs.annals, hs.minter, hs.silent, hs.held, hs.closed⟩ rfl rfl⟩

theorem Next.goes {s' : Chronicle} (hn : Next c this s s') (hsolvent : s.world.Solvent)
    (hs : InOrder this s.world s.world.pending s.history) :
    Goes this s.world s'.world s.history s'.history := by
  obtain ⟨h', hgoes⟩ := hn.1.goes hsolvent hs
  rw [hgoes.log.unique hn.2]
  exact hgoes

theorem inOrder_of_reachable (hr : Reachable (Start c this) (Next c this) s) :
    s.world.Solvent ∧ InOrder this s.world s.world.pending s.history := by
  refine hr.invariant (P := fun s => s.world.Solvent ∧ InOrder this s.world s.world.pending s.history)
    ?_ ?_
  · exact fun s hs => ⟨hs.world.start.solvent, hs.inOrder⟩
  · exact fun s s' _ hs hn => ⟨hn.1.solvent hs.1, (hn.goes hs.1 hs.2).inOrder⟩

/-- Every run of the house has its history. -/
theorem exists_history (hr : Reachable (WorldStart c this) (WorldNext c this) w) :
    ∃ h, Reachable (Start c this) (Next c this) ⟨w, h⟩ := by
  refine hr.invariant (P := fun w => ∃ h, Reachable (Start c this) (Next c this) ⟨w, h⟩) ?_ ?_
  · intro w hw
    exact ⟨w.house.log.map (Prod.mk w.timestamp), .start ⟨hw, rfl⟩⟩
  · rintro w w' - ⟨h, hreach⟩ hn
    obtain ⟨hsolvent, hs⟩ := inOrder_of_reachable hreach
    obtain ⟨h', hgoes⟩ := hn.goes hsolvent hs
    exact ⟨h', hreach.step ⟨hn, hgoes.log⟩⟩

/-- Auctions follow one another.  While one runs, and until it is settled, the house has its Noun;
its end is only ever moved back, and a bid leaves `timeBuffer` at least.  It is settled once, when it
is over, in favour of the last bidder; a Noun nobody bid for is burned.  The bids on a Noun are older
than its settlement. -/
theorem auctions_in_order (hr : Reachable (Start c this) (Next c this) s) :
    (∀ newer older time n startTime endTime,
      s.history = newer ++ (time, .AuctionCreated n startTime endTime) :: older →
      ∀ m, Created older m → Settled older m) ∧
    (∀ n, s.world.OnAuction n →
      Created s.history n ∧ ¬ Settled s.history n ∧ s.world.token.owners n = this) ∧
    (∀ n, Created s.history n → ¬ Settled s.history n →
      s.world.OnAuction n ∨ Settling s.world.pending) ∧
    (∀ newer older time n winner amount,
      s.history = newer ++ (time, .AuctionSettled n winner amount) :: older →
      ¬ Settled newer n ∧ ¬ Settled older n ∧ winner = lastBidder older n ∧
      (∀ endTime, EndsAt s.history n endTime → endTime ≤ time) ∧
      ∀ bidTime, BidAt s.history n bidTime → bidTime < time) ∧
    ∀ s', Next c this s s' →
      (∀ n, s'.world.OnAuction n → s.world.OnAuction n ∨ ¬ Created s.history n) ∧
      (∀ n, s.world.OnAuction n → s'.world.OnAuction n →
        s.world.house.auction.endTime ≤ s'.world.house.auction.endTime) ∧
      (∀ n, s.world.OnAuction n → ¬ s'.world.OnAuction n →
        s.world.house.auction.endTime ≤ s.world.timestamp ∧
        s'.world.token.owners n = lastBidder s.history n ∧
        ((∀ time, ¬ BidAt s.history n time) → s'.world.token.owners n = 0)) ∧
      (AuctionHouseEvent.bids s'.world.house.log ≠ AuctionHouseEvent.bids s.world.house.log →
        s'.world.timestamp + s'.world.house.timeBuffer ≤ s'.world.house.auction.endTime) := by
  obtain ⟨hsolvent, hs⟩ := inOrder_of_reachable hr
  have horderly := hs.annals.orderly
  refine ⟨?_, ?_, ?_, ?_, ?_⟩
  · intro newer older time n startTime endTime heq
    rw [heq] at horderly
    exact horderly.allows.2
  · rintro n hn
    obtain ⟨hbegun, hopen, rfl⟩ := id hn
    refine ⟨hs.annals.recorded hbegun, ?_, hs.held _ hn⟩
    rw [hs.annals.settled hbegun]
    simp [hopen]
  · intro n hcreated hunsettled
    obtain ⟨hbegun, rfl⟩ := (hs.annals.others_settled n hcreated).resolve_left hunsettled
    rw [hs.annals.settled hbegun] at hunsettled
    by_cases hk : Settling s.world.pending
    · exact .inr hk
    · refine .inl ⟨hbegun, ?_, rfl⟩
      simpa [hk] using hunsettled
  · intro newer older time n winner amount heq
    rw [heq] at horderly ⊢
    have honce := horderly.settled_once
    exact ⟨honce.1, honce.2, horderly.allows.2.2.1, fun _ => horderly.endsAt_le,
      fun _ => horderly.bidAt_lt⟩
  · intro s' hn
    have hgoes := hn.goes hsolvent hs
    refine ⟨?_, hgoes.endTime_le, ?_, hgoes.buffered⟩
    · intro n hn'
      rcases hgoes.fresh n hn' with hold | hnew
      · exact .inl hold
      · exact .inr fun hcreated => absurd (hs.annals.created_lt n hcreated) (Nat.not_lt.mpr hnew)
    · intro n hon hoff
      obtain ⟨hover, howner⟩ := hgoes.handed n hon hoff
      obtain ⟨hbegun, -, rfl⟩ := hon
      rw [← hs.annals.bidder hbegun] at howner
      refine ⟨hover, howner, fun hnobody => ?_⟩
      rw [howner]
      exact lastBidder_of_no_bid hnobody

/-- 10 outbids 9 for Noun 1 and has it when Noun 2 is put up. -/
theorem auctions_in_order_of_two_auctions :
    ∃ s : Chronicle, Reachable (Start Crypto.transparent ⟨7, by decide⟩)
        (Next Crypto.transparent ⟨7, by decide⟩) s ∧
      s.world.token.owners 1 = 10 ∧ s.world.OnAuction 2 ∧ ¬ Settled s.history 2 ∧
      s.world.token.owners 2 = 7 := by
  let actions : List AuctionAction :=
    [.call ⟨8, by decide⟩ true .unpause, .call ⟨9, by decide⟩ true (.createBid 1 100),
      .call ⟨10, by decide⟩ true (.createBid 1 200), .return_, .advance 20 20,
      .call ⟨9, by decide⟩ false .settleCurrentAndCreateNewAuction]
  have hrun : Yields (AuctionWorld.sample.run (NounsToken.interface (fun _ => 0)) 7 actions)
      (fun w => w.token.owners 1 = 10 ∧ w.house.auction.startTime ≠ 0 ∧
        w.house.auction.settled = false ∧ w.house.auction.nounId = 2) := by
    decide +kernel
  -- the one payment that hands out control is the refund
  have hcalls : ∀ i < actions.length, Yields
      (AuctionWorld.sample.run (NounsToken.interface (fun _ => 0)) 7 (actions.take i))
      (fun w => (w.pending.map AuctionContinuation.reason ≠ some .payout)) := by
    decide +kernel
  obtain ⟨w, hw, howner, hon⟩ := hrun
  have hsteps : Relation.ReflTransGen (WorldNext Crypto.transparent ⟨7, by decide⟩)
      AuctionWorld.sample w := by
    refine run_steps (fun _ => ⟨fun _ => 0, rfl, rfl⟩) ?_ hw
    intro i hi s₁ hs₁ hsettling
    obtain ⟨s₂, hs₂, hrefund⟩ := hcalls i hi
    cases hs₁.symm.trans hs₂
    generalize s₁.pending = k at hsettling hrefund
    rcases k with _ | ⟨_, _, _⟩ | ⟨_, _, _⟩
    · exact hsettling
    · exact hsettling
    · exact hrefund rfl
  have hstart : WorldStart Crypto.transparent ⟨7, by decide⟩ AuctionWorld.sample :=
    ⟨⟨⟨_, _, _, _, _, rfl⟩, by decide, rfl, rfl, rfl, rfl⟩, .start ⟨_, _, _, rfl⟩, rfl⟩
  obtain ⟨h, hr⟩ := exists_history ⟨_, hstart, hsteps⟩
  obtain ⟨-, hheld, -⟩ := auctions_in_order hr
  obtain ⟨-, hunsettled, hhouse⟩ := hheld 2 hon
  exact ⟨⟨w, h⟩, hr, howner, hon, hunsettled, hhouse⟩

end Chronicle

end Nouns
