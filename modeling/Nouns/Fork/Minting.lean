import Nouns.Auction.System
import Nouns.Governance.ClosedForks
import Nouns.Governance.TreasurySplit
import Nouns.Token.Ids

/-!
# Minting — the ids of a fork's Nouns

Three sources of ids meet in the token of a fork: Nouns that waited in the escrow, Nouns that join
later, and new ones.  The new ones count up from the id that `ForkDAODeployer` reads off the
auction of the original DAO, so they are free as long as no Noun from there on waits in the escrow.
-/

open Fallible Transition

namespace Nouns

variable {H : Type}

namespace ForkDAODeployer

def getStartNounId (originalAuction : NounsAuctionHouse) : Nat := originalAuction.auction.nounId

/-- The token of the fork; `treasury` and `auction` are the addresses of its other contracts. -/
def deployForkDAO (forkingPeriodEndTimestamp : Nat) (forkEscrow : ForkEscrow)
    (originalAuction : NounsAuctionHouse) (treasury auction : Address) : NounsTokenFork :=
  .deploy treasury auction forkEscrow.forkId (getStartNounId originalAuction)
    forkEscrow.numTokensInEscrow forkingPeriodEndTimestamp

end ForkDAODeployer

/-- The minter can mint the next id when it is free. -/
theorem NounsTokenFork.exists_mint {n : NounsTokenFork} {now : Nat} (hnow : now < 2 ^ 32)
    (hminter : n.minter ≠ 0) (hfunded : n.Funded) (hsupply : n.totalSupply + 1 < 2 ^ 96)
    (hfree : n.owners n.currentNounId = 0) :
    ∃ n', n.mint now n.minter = .ok n' ∧ n'.Funded ∧ n'.totalSupply = n.totalSupply + 1 ∧
      n'.currentNounId = n.currentNounId + 1 ∧ n'.minter = n.minter ∧ n'.forkId = n.forkId ∧
      ∀ id, id ≠ n.currentNounId → n'.owners id = n.owners id := by
  obtain ⟨t, ht⟩ := Token.mintTo_succeeds hfunded.ledger hfunded.backed hnow hsupply hminter hfree
  have hmoved := Token.mintTo_ok ht
  refine ⟨({ n with currentNounId := n.currentNounId + 1 } : NounsTokenFork).setToken
    ((t.emit (.Transfer 0 n.minter n.currentNounId)).emit (.NounCreated n.currentNounId)),
    ?_, ?_, ?_, rfl, rfl, rfl, ?_⟩
  · simp only [mint, onlyMinter, mintNoun, bind_eq_ok, require_eq_ok, pure_eq_ok]
    exact ⟨(), trivial, t, ht, rfl⟩
  · have hchanges : Token.Changes True now n.toToken t := .of_move hmoved
    exact Token.Changes.funded ((hchanges.tail (.emit True now t _)).tail (.emit True now _ _)) hfunded
  · have htotal := hmoved.totalSupply hfunded.ledger
    rwa [if_pos rfl, if_neg hminter] at htotal
  · intro id hid
    exact (congrFun hmoved.owners id).trans (Function.update_of_ne hid _ _)

/-- The ids that a call claims from the escrow. -/
def NounsTokenForkCall.claims : NounsTokenForkCall → List Nat
  | .claimFromEscrow tokenIds => tokenIds
  | _ => []

namespace NounsTokenFork

variable {n n' : NounsTokenFork} {now : Nat}

/-- What `initialize` fixed, and the tokens to be claimed, are as before. -/
structure SameFork (n n' : NounsTokenFork) : Prop where
  forkingPeriodEndTimestamp : n'.forkingPeriodEndTimestamp = n.forkingPeriodEndTimestamp
  remainingTokensToClaim : n'.remainingTokensToClaim = n.remainingTokensToClaim

/-- A loop that mints. -/
theorem mintLoop_sameFork (now : Nat) {f : NounsTokenFork → Nat → Tx NounsTokenFork} {tokenIds : List Nat}
    (hround : ∀ m m' nounId, f m nounId = .ok m' → ∃ to_, m.mintNoun now to_ nounId = .ok m')
    (h : tokenIds.foldlM f n = .ok n') : SameFork n n' := by
  refine foldlM_ok (P := SameFork n) h ⟨rfl, rfl⟩ ?_
  rintro nounId - m m' ⟨hperiod, hremaining⟩ hmint
  obtain ⟨to_, hmint⟩ := hround m m' nounId hmint
  simp only [mintNoun, bind_eq_ok, pure_eq_ok] at hmint
  obtain ⟨t, -, rfl⟩ := hmint
  exact ⟨hperiod, hremaining⟩

/-- Only claims from the escrow change how many are to be claimed. -/
theorem call_remaining {c : Crypto H} {escrow : EscrowView} {received : Address → Tx Unit}
    {timestamp : Nat} {sender : Account} {cl : NounsTokenForkCall}
    (h : n.call c escrow received now timestamp sender cl = .ok n') :
    n'.forkingPeriodEndTimestamp = n.forkingPeriodEndTimestamp ∧
      n'.remainingTokensToClaim + cl.claims.length = n.remainingTokensToClaim := by
  cases cl with
  | claimFromEscrow tokenIds =>
    simp only [call, claimFromEscrow, bind_eq_ok, checkedSub_eq_ok, pure_eq_ok] at h
    obtain ⟨n₁, hloop, _, ⟨hle, rfl⟩, rfl⟩ := h
    have hsame : SameFork n n₁ := by
      refine mintLoop_sameFork now ?_ hloop
      intro m m' nounId hround
      simp only [bind_eq_ok] at hround
      obtain ⟨_, -, hmint⟩ := hround
      exact ⟨sender, hmint⟩
    have hremaining := hsame.remainingTokensToClaim
    refine ⟨hsame.forkingPeriodEndTimestamp, ?_⟩
    simp only [NounsTokenForkCall.claims]
    omega
  | claimDuringForkPeriod to_ tokenIds =>
    simp only [call, claimDuringForkPeriod, bind_eq_ok, pure_eq_ok] at h
    obtain ⟨_, -, _, -, n₁, hloop, hend⟩ := h
    have hsame : SameFork n n₁ := mintLoop_sameFork now (fun _ _ _ hm => ⟨to_, hm⟩) hloop
    split at hend
    · subst hend
      exact ⟨hsame.forkingPeriodEndTimestamp, hsame.remainingTokensToClaim⟩
    · subst hend
      exact ⟨hsame.forkingPeriodEndTimestamp, hsame.remainingTokensToClaim⟩
  | mint =>
    simp only [call, mint, mintNoun, bind_eq_ok, pure_eq_ok] at h
    obtain ⟨_, -, t, -, rfl⟩ := h
    exact ⟨rfl, rfl⟩
  | safeTransferFrom from_ to_ tokenId =>
    simp only [call, safeTransferFrom, transferFrom, bind_eq_ok, pure_eq_ok] at h
    obtain ⟨_, ⟨t, -, rfl⟩, _, -, rfl⟩ := h
    exact ⟨rfl, rfl⟩
  | burn _ | setMinter _ | lockMinter | transferOwnership _ =>
    simp only [call, burn, setMinter, lockMinter, transferOwnership, bind_eq_ok, pure_eq_ok] at h
    obtain ⟨_, -, _, -, rfl⟩ := h
    exact ⟨rfl, rfl⟩
  | transferFrom _ _ _ | approve _ _ | setApprovalForAll _ _ | delegate _ | delegateBySig _ _ _ _
  | renounceOwnership =>
    simp only [call, transferFrom, renounceOwnership, bind_eq_ok, pure_eq_ok] at h
    obtain ⟨_, -, rfl⟩ := h
    exact ⟨rfl, rfl⟩

end NounsTokenFork

/-- The original DAO, the token of a fork, and what was claimed from the escrow so far. -/
structure Forked (H : Type) where
  original : World H
  token : NounsTokenFork
  claimed : List Nat

namespace Forked

section Steps

variable [DecidableEq H] (d : Deployment H) (escrow : Address)

/-- What the token reads from the escrow it was initialized with. -/
def view (w : World H) : EscrowView where
  dao := d.dao
  ownerOfEscrowedToken := (w.escrows escrow).escrowedTokensByForkId

/-- The original DAO goes on, or anybody calls the token.  Nothing is assumed of the DAO's own calls:
it may claim for those who join at any time the token lets it. -/
inductive Next : Forked H → Forked H → Prop
  | original {s : Forked H} {w' : World H} : World.NextAny d s.original w' →
      Next s { s with original := w' }
  | call {s : Forked H} {token : NounsTokenFork} (received : Address → Tx Unit) (sender : Account)
      (cl : NounsTokenForkCall) :
      s.token.call d.crypto (view d escrow s.original) received s.original.blockNumber
        s.original.timestamp sender cl = .ok token →
      Next s { s with token, claimed := cl.claims ++ s.claimed }

end Steps

variable {d : Deployment H} {escrow : Address} {s s' : Forked H}

/-- Noun `id` was escrowed for this fork. -/
def Escrowed (escrow : Address) (s : Forked H) (id : Nat) : Prop :=
  (s.original.escrows escrow).escrowedTokensByForkId s.token.forkId id ≠ 0

/-- The id that the next mint uses is neither taken nor somebody's to claim, so that the mint does
not fail on an existing token. -/
structure Free (escrow : Address) (s : Forked H) : Prop where
  unused : s.token.owners s.token.currentNounId = 0
  notAwaited : ¬ (s.Escrowed escrow s.token.currentNounId ∧ s.token.currentNounId ∉ s.claimed)
  mints : ∀ now sender,
    s.token.mint now sender ≠ .error (.require "ERC721: token already minted")

/-! ## Runs -/

/-- The fork is past, and all ids it uses or will use are below the next one. -/
structure Below (escrow : Address) (s : Forked H) : Prop where
  closed : s.token.forkId < (s.original.escrows escrow).forkId
  existing : ∀ id, s.token.owners id ≠ 0 → id < s.token.currentNounId
  escrowed : ∀ id, s.Escrowed escrow id → id < s.token.currentNounId

theorem Below.free (h : s.Below escrow) : s.Free escrow := by
  have hunused : s.token.owners s.token.currentNounId = 0 := by
    by_contra hexists
    exact Nat.lt_irrefl _ (h.existing _ hexists)
  refine ⟨hunused, ?_, ?_⟩
  · rintro ⟨hescrowed, -⟩
    exact Nat.lt_irrefl _ (h.escrowed _ hescrowed)
  · intro now sender hmint
    exact NounsTokenFork.mint_avoids_alreadyMinted hunused sender _ hmint rfl

variable [DecidableEq H]

theorem Below.next (h : s.Below escrow) (hn : Next d escrow s s') : s'.Below escrow := by
  cases hn with
  | original hn =>
    have hlater := hn.keepsRecords escrow
    refine ⟨Nat.lt_of_lt_of_le h.closed hlater.forkId_le, h.existing, ?_⟩
    intro id hid
    refine h.escrowed id ?_
    change (_ : Address) ≠ 0 at hid
    rwa [hlater.records _ h.closed] at hid
  | call received sender cl hcall =>
    have hgrows := NounsTokenFork.call_grows hcall
    refine ⟨?_, ?_, ?_⟩
    · rw [hgrows.forkId]
      exact h.closed
    · intro id hid
      rcases hgrows.creates id hid with hold | hlt | hrecord
      · exact Nat.lt_of_lt_of_le (h.existing id hold) hgrows.le
      · exact hlt
      · exact Nat.lt_of_lt_of_le (h.escrowed id hrecord) hgrows.le
    · intro id hid
      refine Nat.lt_of_lt_of_le (h.escrowed id ?_) hgrows.le
      rwa [Escrowed, hgrows.forkId] at hid

theorem below_of_steps (hs : s.Below escrow) (hsteps : Relation.ReflTransGen (Next d escrow) s s') :
    s'.Below escrow :=
  steps_preserve hsteps hs (fun _ _ h hn => h.next hn)

/-! ## The other way round -/

/-- `count` mints by the auction house of the fork. -/
theorem exists_mints (d : Deployment H) (escrow : Address) {w : World H} {n : NounsTokenFork}
    (hnow : w.blockNumber < 2 ^ 32)
    (hminter : n.minter ≠ 0) (hfunded : n.Funded)
    (hunused : ∀ id, n.currentNounId ≤ id → n.owners id = 0) (count : Nat)
    (hcount : n.totalSupply + count < 2 ^ 96) :
    ∃ n', Relation.ReflTransGen (Next d escrow) ⟨w, n, []⟩ ⟨w, n', []⟩ ∧
      n'.currentNounId = n.currentNounId + count ∧ n'.forkId = n.forkId := by
  induction count generalizing n with
  | zero => exact ⟨n, .refl, rfl, rfl⟩
  | succ count ih =>
    obtain ⟨n₁, hmint, hfunded₁, hsupply, hcurrent, hminter₁, hforkId, howners⟩ :=
      NounsTokenFork.exists_mint hnow hminter hfunded (by omega)
        (hunused n.currentNounId (Nat.le_refl _))
    have hunused₁ : ∀ id, n₁.currentNounId ≤ id → n₁.owners id = 0 := by
      intro id hid
      rw [howners id (by omega)]
      exact hunused id (by omega)
    obtain ⟨n', hsteps, hcurrent', hforkId'⟩ :=
      ih (hminter₁ ▸ hminter) hfunded₁ hunused₁ (by omega)
    refine ⟨n', .head ?_ hsteps, by omega, hforkId'.trans hforkId⟩
    exact .call (fun _ => .ok ()) ⟨n.minter, hminter⟩ .mint hmint

/-! ## From `executeFork` on -/

/-- What a whole `executeFork` from `w` to `w'` leaves; `originalAuction` is the auction house of the
original DAO at `w`. -/
def ofExecuteFork (w w' : World H) (originalAuction : NounsAuctionHouse)
    (treasury auction : Address) : Forked H where
  original := w'
  token := ForkDAODeployer.deployForkDAO (w.timestamp + w.dao.forkPeriod)
    (w.escrows w.dao.forkEscrow) originalAuction treasury auction
  claimed := []

variable {w w' : World H} {sender : Account} {treasury auction : Address}

theorem below_of_executeFork {house : NounsAuctionHouse}
    (hr : Reachable (World.StartSplit d) (World.NextAny d) w)
    (h : World.Completes d sender .executeFork w w')
    (hbelow : ∀ id ∈ (w.escrows w.dao.forkEscrow).waiting, id < house.auction.nounId) :
    (ofExecuteFork w w' house treasury auction).Below w.dao.forkEscrow := by
  obtain ⟨_, _, _, -, hclosed⟩ := h.executeFork (World.assets_nodup hr)
  refine ⟨?_, ?_, ?_⟩
  · change _ < (w'.escrows w.dao.forkEscrow).forkId
    rw [hclosed]
    exact Nat.lt_succ_self _
  · intro id hid
    exact absurd rfl hid
  · intro id hid
    refine hbelow id ?_
    rwa [Escrowed, ofExecuteFork, hclosed] at hid

/-- Let `executeFork` run to its end, with the original auction house in any state.  If every Noun
escrowed for this fork has an id below that of the current auction, the fork's next id is free in
every later state.  If one has not, mints alone lead to a state where it is not free. -/
theorem fork_next_id_free (hr : Reachable (World.StartSplit d) (World.NextAny d) w)
    (h : World.Completes d sender .executeFork w w') (originalAuction : NounsAuctionHouse)
    (treasury auction : Address) :
    ((∀ id ∈ (w.escrows w.dao.forkEscrow).waiting, id < originalAuction.auction.nounId) →
      ∀ s, Relation.ReflTransGen (Next d w.dao.forkEscrow)
        (ofExecuteFork w w' originalAuction treasury auction) s → s.Free w.dao.forkEscrow) ∧
    ∀ id ∈ (w.escrows w.dao.forkEscrow).waiting, originalAuction.auction.nounId ≤ id →
      id < 2 ^ 96 → w'.blockNumber < 2 ^ 32 → auction ≠ 0 →
      ∃ s, Relation.ReflTransGen (Next d w.dao.forkEscrow)
        (ofExecuteFork w w' originalAuction treasury auction) s ∧ ¬ s.Free w.dao.forkEscrow := by
  refine ⟨?_, ?_⟩
  · intro hbelow s hsteps
    exact (below_of_steps (below_of_executeFork hr h hbelow) hsteps).free
  · intro id hid hle hlt hnow hauction
    obtain ⟨_, _, _, -, hclosed⟩ := h.executeFork (World.assets_nodup hr)
    obtain ⟨n', hsteps, hcurrent, hforkId⟩ := exists_mints d w.dao.forkEscrow
      (n := (ofExecuteFork w w' originalAuction treasury auction).token) hnow hauction
      ⟨Token.empty_ledger, Token.empty_backed⟩ (fun _ _ => rfl)
      (id - originalAuction.auction.nounId) (Nat.lt_of_le_of_lt (by
        change 0 + _ ≤ id
        omega) hlt)
    have hid' : n'.currentNounId = id := by
      change _ = originalAuction.auction.nounId + _ at hcurrent
      omega
    refine ⟨_, hsteps, ?_⟩
    intro hfree
    refine hfree.notAwaited ⟨?_, ?_⟩
    · change (w'.escrows w.dao.forkEscrow).escrowedTokensByForkId n'.forkId n'.currentNounId ≠ 0
      rw [hclosed, hforkId, hid']
      exact hid
    · exact List.not_mem_nil

/-- Noun 2 is up for auction.  7 escrows Noun 1 and executes the fork, whose next id is 2. -/
theorem fork_next_id_free_of_running_auction :
    ∃ w w', Reachable (World.StartSplit .sample) (World.NextAny .sample) w ∧
      World.Completes .sample .minter .executeFork w w' ∧ w.nouns.owners 2 = 7 ∧
      ∀ s, Relation.ReflTransGen (Next .sample w.dao.forkEscrow) (ofExecuteFork w w'
          { NounsAuctionHouse.deploy 8 5 1 5 10 with auction := ⟨2, 0, 1, 11, 0, false⟩ } 200 203) s →
        s.Free w.dao.forkEscrow := by
  have hrun : Yields (World.sample.run .sample
      (fun _ a w' => w'.EscrowFixed .sample 104 ∧ a.burns = false)
      [.callToken .minter .mint, .callToken .minter .mint,
        .callToken .minter (.setApprovalForAll 100 true),
        .ofDAO .minter (.escrowToFork [1] [] "")])
      (fun w => w.dao.forkEscrow = 104 ∧ w.nouns.owners 2 = 7 ∧
        (w.escrows 104).numTokensInEscrow = 1 ∧
        (w.escrows 104).escrowedTokensByForkId (w.escrows 104).forkId 1 ≠ 0 ∧
        Yields (w.step .sample (.ofDAO .minter .executeFork)) (fun w₁ => w₁.frames.length = 1 ∧
          Yields (w₁.step .sample (.return_ 200 201)) (fun w₂ => w₂.frames.length = 1 ∧
            Yields (w₂.step .sample (.return_ 0 0)) (fun w' => w'.frames.length = 0)))) := by
    decide +kernel
  obtain ⟨w, hw, hescrow, howner, hcount, hone, w₁, h₁, hlen₁, w₂, h₂, hlen₂, w', h', hlen'⟩ := hrun
  have hr : Reachable (World.StartSplit .sample) (World.NextAny .sample) w := by
    refine ⟨World.sample, World.sample_startSplit, World.run_steps ?_ hw⟩
    exact fun w a w' hstep _ => .step a trivial hstep
  have hcompletes : World.Completes .sample .minter .executeFork w w' := by
    refine ⟨_, w₁, h₁, ?_⟩
    rw [hlen₁]
    exact .return_ 200 201 (by omega) h₂ (.return_ 0 0 (by omega) h' (.done hlen'))
  have hwaiting : ∀ id ∈ (w.escrows w.dao.forkEscrow).waiting, id < 2 := by
    have haccounted : w.Accounted .sample 104 := by
      refine World.accounted_of_reachable World.sample_apart
        ⟨World.sample, World.sample_startEscrow, World.run_steps ?_ hw⟩
      rintro w a w' hstep ⟨hfixed, hburns⟩
      exact ⟨.step a (World.sparesEscrowed_of_not_burns hburns) hstep, hfixed⟩
    have hencard := haccounted.accounts.count
    rw [hcount] at hencard
    obtain ⟨x, hx⟩ := Set.encard_eq_one.mp hencard
    intro id hid
    rw [hescrow, hx] at hid
    have hone' : 1 ∈ (w.escrows 104).waiting := hone
    rw [hx] at hone'
    rw [Set.mem_singleton_iff.mp hid, ← Set.mem_singleton_iff.mp hone']
    exact Nat.lt_succ_self 1
  exact ⟨w, w', hr, hcompletes, howner, (fork_next_id_free hr hcompletes _ 200 203).1 hwaiting⟩

/-- The auction of Noun 1 is settled while the house is paused, and its buyer, 9, escrows it.  The
fork's next id is 1: its auction house mints it, and 9 cannot claim it any more. -/
theorem auctioned_noun_escrowed :
    ∃ (s : Auctioned Preimage) (w' : World Preimage) (n' : NounsTokenFork),
      Relation.ReflTransGen (Auctioned.Next .sample .minter)
        ⟨World.sample, .deploy 8 5 1 5 10⟩ s ∧
      World.Completes .sample ⟨9, by decide⟩ .executeFork s.world w' ∧
      ¬ (ofExecuteFork s.world w' s.house 200 203).Free 104 ∧
      (ofExecuteFork s.world w' s.house 200 203).token.mint w'.blockNumber 203 = .ok n' ∧
      n'.claimFromEscrow (view .sample 104 w') w'.blockNumber 9 [1] =
        .error (.require "ERC721: token already minted") := by
  have hrun : Yields (Auctioned.run .sample .minter ⟨World.sample, .deploy 8 5 1 5 10⟩
      [.house .noundersDAO .unpause, .house ⟨9, by decide⟩ (.createBid 1 100),
        .world (.advance 20 20), .house .noundersDAO .pause, .house ⟨9, by decide⟩ .settleAuction,
        .world (.callToken ⟨9, by decide⟩ (.setApprovalForAll 100 true)),
        .world (.ofDAO ⟨9, by decide⟩ (.escrowToFork [1] [] ""))])
      (fun s => Yields (s.world.step .sample (.ofDAO ⟨9, by decide⟩ .executeFork))
        (fun w₁ => w₁.frames.length = 1 ∧
          Yields (w₁.step .sample (.return_ 200 201)) (fun w₂ => w₂.frames.length = 1 ∧
            Yields (w₂.step .sample (.return_ 0 0)) (fun w' => w'.frames.length = 0 ∧
              (w'.escrows 104).escrowedTokensByForkId 0 1 = 9 ∧
              (ofExecuteFork s.world w' s.house 200 203).token.currentNounId = 1 ∧
              (ofExecuteFork s.world w' s.house 200 203).token.forkId = 0 ∧
              Yields ((ofExecuteFork s.world w' s.house 200 203).token.mint w'.blockNumber 203)
                (fun n' => RevertsWith
                  (n'.claimFromEscrow (view .sample 104 w') w'.blockNumber 9 [1])
                  (.require "ERC721: token already minted")))))) := by
    decide +kernel
  obtain ⟨s, hs, w₁, h₁, hlen₁, w₂, h₂, hlen₂, w', h', hlen', hrecord, hcurrent, hforkId, n', hmint,
    hclaim⟩ := hrun
  refine ⟨s, w', n', Auctioned.run_steps hs, ⟨_, w₁, h₁, ?_⟩, ?_, hmint, hclaim⟩
  · rw [hlen₁]
    exact .return_ 200 201 (by omega) h₂ (.return_ 0 0 (by omega) h' (.done hlen'))
  · intro hfree
    refine hfree.notAwaited ⟨?_, List.not_mem_nil⟩
    rw [Escrowed, hcurrent, hforkId]
    change (w'.escrows 104).escrowedTokensByForkId 0 1 ≠ 0
    rw [hrecord]
    decide

end Forked

end Nouns
