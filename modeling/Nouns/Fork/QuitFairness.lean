import Nouns.Fork.Minting
import Nouns.Fork.Snapshot
import Nouns.Governance.TreasurySplit

/-!
# QuitFairness — quitting a fork DAO

Those who quit are paid out of the treasury, those who have not claimed yet are counted as if they
had.  A quit sends its ETH at once and the ERC20 tokens one after the other, with the control handed
out each time; what it has still to send is `owed`.  Without what is owed, no quit and no claim
leaves less of an asset per token.
-/

open Fallible Transition ProRata

namespace Nouns

variable {H : Type}

/-! ## The supply -/

namespace NounsTokenFork

variable {n n' : NounsTokenFork} {now : Nat}

open Token

/-- Tokens moved one after the other by a loop; a mint has no `src`. -/
theorem moveAll_balances {src dst : Address} {f : NounsTokenFork → Nat → Tx NounsTokenFork}
    {tokenIds : List Nat} (hdst : dst ≠ 0)
    (hmove : ∀ m m' tokenId, f m tokenId = .ok m' →
      TokenMoved now src dst tokenId m.toToken m'.toToken ∧
        m'.remainingTokensToClaim = m.remainingTokensToClaim)
    (hledger : n.toToken.Ledger) (h : tokenIds.foldlM f n = .ok n') :
    n'.remainingTokensToClaim = n.remainingTokensToClaim ∧
      n'.totalSupply = n.totalSupply + (if src = 0 then tokenIds.length else 0) ∧
      ∀ a, a ≠ 0 → n'.balances a + (if src = a then tokenIds.length else 0) =
        n.balances a + (if dst = a then tokenIds.length else 0) := by
  induction tokenIds generalizing n with
  | nil =>
    simp only [List.foldlM_nil, pure_eq_ok] at h
    subst h
    simp
  | cons tokenId tokenIds ih =>
    rw [List.foldlM_cons, bind_eq_ok] at h
    obtain ⟨n₁, hone, hrest⟩ := h
    obtain ⟨hmoved, hremaining⟩ := hmove n n₁ tokenId hone
    obtain ⟨hremaining', hsupply, hbalances⟩ := ih (hmoved.ledger hledger) hrest
    refine ⟨hremaining'.trans hremaining, ?_, ?_⟩
    · have hone := hmoved.totalSupply hledger
      rw [hsupply, List.length_cons]
      rw [if_neg hdst] at hone
      split_ifs at hone ⊢ <;> omega
    · intro a ha
      have h₁ := hmoved.balances a ha
      have h₂ := hbalances a ha
      rw [List.length_cons]
      split_ifs at h₁ h₂ ⊢ <;> omega

theorem mintNoun_moved {to_ : Address} {nounId : Nat} (h : n.mintNoun now to_ nounId = .ok n') :
    TokenMoved now 0 to_ nounId n.toToken n'.toToken ∧
      n'.remainingTokensToClaim = n.remainingTokensToClaim := by
  simp only [mintNoun, bind_eq_ok, pure_eq_ok] at h
  obtain ⟨t, ht, rfl⟩ := h
  obtain ⟨howner, hsomeone, howners, hbalances, hzero, hmap, hminted, hburned, hkept, hmoved⟩ :=
    mintTo_ok ht
  exact ⟨⟨howner, hsomeone, howners, hbalances, hzero, hmap, hminted, hburned, hkept,
    ⟨hmoved.writes, hmoved.zero, hmoved.votes⟩⟩, rfl⟩

theorem transferFrom_moved {sender from_ to_ : Address} {tokenId : Nat}
    (h : n.transferFrom now sender from_ to_ tokenId = .ok n') :
    TokenMoved now from_ to_ tokenId n.toToken n'.toToken ∧
      n'.remainingTokensToClaim = n.remainingTokensToClaim := by
  simp only [transferFrom, bind_eq_ok, pure_eq_ok] at h
  obtain ⟨t, ht, rfl⟩ := h
  exact ⟨transferFrom_ok ht, rfl⟩

/-- What is claimed is no longer counted as to be claimed. -/
theorem claimFromEscrow_balances {escrow : EscrowView} {sender : Account} {tokenIds : List Nat}
    (hledger : n.toToken.Ledger) (h : n.claimFromEscrow escrow now sender tokenIds = .ok n') :
    n'.remainingTokensToClaim + tokenIds.length = n.remainingTokensToClaim ∧
      n'.totalSupply = n.totalSupply + tokenIds.length ∧
      ∀ a, a ≠ 0 → n'.balances a =
        n.balances a + (if (sender : Address) = a then tokenIds.length else 0) := by
  simp only [claimFromEscrow, bind_eq_ok, checkedSub_eq_ok, pure_eq_ok] at h
  obtain ⟨n₁, hloop, remaining, ⟨hle, rfl⟩, rfl⟩ := h
  have hround : ∀ (m m' : NounsTokenFork) (tokenId : Nat), (do
      revertIf (escrow.ownerOfEscrowedToken m.forkId tokenId ≠ sender)
        Revert.OnlyTokenOwnerCanClaim
      m.mintNoun now sender tokenId) = (.ok m' : Tx NounsTokenFork) →
      TokenMoved now 0 sender tokenId m.toToken m'.toToken ∧
        m'.remainingTokensToClaim = m.remainingTokensToClaim := by
    intro m m' tokenId hm
    simp only [bind_eq_ok] at hm
    obtain ⟨_, -, hm⟩ := hm
    exact mintNoun_moved hm
  obtain ⟨hremaining, hsupply, hbalances⟩ := moveAll_balances sender.2 hround hledger hloop
  refine ⟨by simp only; omega, hsupply, ?_⟩
  intro a ha
  have hbalance := hbalances a ha
  rw [if_neg ha.symm] at hbalance
  exact hbalance

end NounsTokenFork

/-! ## The treasury -/

/-- What is still to be sent of an asset by a quit with these payments left; a payment of the
treasury to itself does not count. -/
def Quitting.due (timelock : Address) (quitting : Quitting) (rest : List (Address × Nat)) :
    Asset → Nat
  | .ETH => 0
  | .ERC20 token => if quitting.sender = timelock then 0
      else ((rest.filter (fun p => p.1 = token)).map Prod.snd).sum

/-- The quit that waits in this frame, and the payments it has left. -/
def ForkFrame.quitting? (f : ForkFrame) : Option (Quitting × List (Address × Nat)) :=
  match f.continuation with
  | .execute _ _ _ => none
  | .sendETH quitting rest _ => some (quitting, rest)
  | .sendERC20 quitting rest _ _ => some (quitting, rest)

namespace ForkWorld

variable {d : ForkDeployment H} {w w' : ForkWorld H} {asset : Asset}

def treasury (d : ForkDeployment H) (w : ForkWorld H) : Asset → Nat
  | .ETH => w.eth d.timelock
  | .ERC20 token => w.erc20 token d.timelock

/-- The quits in progress. -/
def quits (w : ForkWorld H) : List (Quitting × List (Address × Nat)) :=
  w.frames.filterMap ForkFrame.quitting?

/-- What quits in progress have still to send. -/
def owed (d : ForkDeployment H) (w : ForkWorld H) (asset : Asset) : Nat :=
  (w.quits.map (fun q => q.1.due d.timelock q.2 asset)).sum

/-- All tokens but those of the timelock, with those to be claimed. -/
def supply (d : ForkDeployment H) (w : ForkWorld H) : Nat :=
  w.nouns.totalSupply - w.nouns.balances d.timelock + w.nouns.remainingTokensToClaim

theorem owed_of_quits {q : Quitting} {rest : List (Address × Nat)}
    {quits : List (Quitting × List (Address × Nat))} (h : w'.quits = (q, rest) :: quits)
    (hrest : quits = w.quits) (asset : Asset) :
    w'.owed d asset = q.due d.timelock rest asset + w.owed d asset := by
  simp only [owed, h, hrest, List.map_cons, List.sum_cons]

theorem due_cons (quitting : Quitting) (token : Address) (amount : Nat)
    (rest : List (Address × Nat)) (timelock : Address) (asset : Asset) :
    quitting.due timelock ((token, amount) :: rest) asset = quitting.due timelock rest asset +
      if asset = .ERC20 token ∧ quitting.sender ≠ timelock then amount else 0 := by
  cases asset with
  | ETH => simp [Quitting.due]
  | ERC20 token' =>
    by_cases hself : quitting.sender = timelock
    · simp [Quitting.due, hself]
    · by_cases htoken : token = token'
      · subst htoken
        simp [Quitting.due, hself, Nat.add_comm]
      · simp [Quitting.due, hself, htoken, Ne.symm htoken]

/-- No token is paid twice. -/
theorem due_le_of_nodup (quitting : Quitting) (timelock : Address) (amount : Address → Nat)
    {assets : List Address} (hassets : assets.Nodup) (token : Address) :
    quitting.due timelock (assets.map (fun a => (a, amount a))) (.ERC20 token) ≤ amount token := by
  induction assets with
  | nil => simp [Quitting.due]
  | cons a assets ih =>
    obtain ⟨hnot, hassets⟩ := List.nodup_cons.mp hassets
    rw [List.map_cons, due_cons]
    by_cases ha : token = a
    · subst ha
      have hnone : quitting.due timelock (assets.map (fun a => (a, amount a))) (.ERC20 token) = 0 := by
        have hfilter : (assets.map (fun a => (a, amount a))).filter (fun p => p.1 = token) = [] := by
          simp only [List.filter_eq_nil_iff, List.mem_map, forall_exists_index, and_imp]
          rintro _ b hb rfl
          simp only [decide_eq_true_eq]
          rintro rfl
          exact hnot hb
        simp only [Quitting.due, hfilter, List.map_nil, List.sum_nil, ite_self]
      rw [hnone]
      split_ifs <;> omega
    · have hne : ¬ (Asset.ERC20 token = .ERC20 a ∧ quitting.sender ≠ timelock) := by
        rintro ⟨heq, -⟩
        exact ha (Asset.ERC20.inj heq)
      rw [if_neg hne]
      exact ih hassets

theorem sendToken_treasury {token to_ : Address} {amount : Nat}
    (h : w.sendToken token d.timelock to_ amount = .ok w') (asset : Asset) :
    w'.treasury d asset + (if asset = .ERC20 token ∧ to_ ≠ d.timelock then amount else 0) =
      w.treasury d asset := by
  simp only [sendToken, bind_eq_ok, require_eq_ok, pure_eq_ok] at h
  obtain ⟨_, hle, rfl⟩ := h
  cases asset with
  | ETH => simp [treasury]
  | ERC20 token' =>
    by_cases htoken : token' = token
    · subst htoken
      by_cases hself : to_ = d.timelock
      · simp [treasury, hself, hle]
      · simp [treasury, hself, Function.update_of_ne (Ne.symm hself), hle]
    · simp [treasury, htoken]

theorem sendValue_treasury {to_ : Address} {amount : Nat}
    (h : w.sendValue d.timelock to_ amount = .ok w') (asset : Asset) :
    w'.treasury d asset + (if asset = .ETH ∧ to_ ≠ d.timelock then amount else 0) =
      w.treasury d asset := by
  simp only [sendValue, bind_eq_ok, require_eq_ok, pure_eq_ok] at h
  obtain ⟨_, hle, rfl⟩ := h
  cases asset with
  | ETH =>
    by_cases hself : to_ = d.timelock
    · simp [treasury, hself, hle]
    · simp [treasury, hself, Function.update_of_ne (Ne.symm hself), hle]
  | ERC20 token => simp [treasury]

/-- What a payment takes from the treasury is no longer owed. -/
theorem payERC20_treasury {quitting : Quitting} {rest : List (Address × Nat)}
    (h : w.payERC20 d quitting rest = .ok w') (asset : Asset) :
    w'.treasury d asset ≤ w.treasury d asset ∧
      w'.treasury d asset + (quitting.due d.timelock rest asset + w.owed d asset) =
        w.treasury d asset + w'.owed d asset := by
  induction rest with
  | nil =>
    rw [← pure_eq_ok.mp h]
    refine ⟨by cases asset <;> exact Nat.le_refl _, ?_⟩
    cases asset <;> simp [Quitting.due] <;> rfl
  | cons payment rest ih =>
    obtain ⟨token, amount⟩ := payment
    simp only [payERC20] at h
    rw [due_cons]
    split at h
    · simp only [bind_eq_ok, pure_eq_ok] at h
      obtain ⟨_, -, w₁, hsend, rfl⟩ := h
      have htreasury := sendToken_treasury hsend asset
      obtain ⟨erc20, rfl⟩ := sendToken_ok hsend
      have howed : owed d (({ w with erc20 } : ForkWorld H).callOut token
          (.sendERC20 quitting rest token amount)) asset =
          quitting.due d.timelock rest asset + w.owed d asset := owed_of_quits rfl rfl asset
      rw [howed]
      change treasury d { w with erc20 } asset ≤ _ ∧ treasury d { w with erc20 } asset + _ = _
      omega
    · have hsame := ih h
      have hamount : amount = 0 := by omega
      rw [hamount, ite_self, Nat.add_zero]
      exact hsame

/-! ## The start of a quit -/

section Supply

variable (hledger : w.nouns.toToken.Ledger) (htimelock : d.timelock ≠ 0)

include hledger htimelock

theorem balances_timelock_le : w.nouns.balances d.timelock ≤ w.nouns.totalSupply := by
  have hsubset : {tokenId | w.nouns.owners tokenId = d.timelock} ⊆
      {tokenId | w.nouns.owners tokenId ≠ 0} := by
    intro tokenId h
    exact fun hzero => htimelock (h.symm.trans hzero)
  have hle := Set.encard_le_encard hsubset
  rw [hledger.encard_owned htimelock, hledger.encard_existing] at hle
  exact_mod_cast hle

theorem adjustedTotalSupply_eq :
    StorageV1Fork.adjustedTotalSupply (w.env d) = .ok (w.supply d) := by
  simp only [StorageV1Fork.adjustedTotalSupply, Token.balanceOf, bind_eq_ok, require_eq_ok,
    pure_eq_ok, checkedSub_eq_ok]
  exact ⟨_, ⟨(), htimelock, rfl⟩, _, ⟨balances_timelock_le hledger htimelock, rfl⟩, rfl⟩

/-- The tokens others hold are counted. -/
theorem supply_pos {a : Address} (ha : a ≠ d.timelock) (hholds : 0 < w.nouns.balances a) :
    0 < w.supply d := by
  have hne : a ≠ 0 := by
    rintro rfl
    rw [hledger.balances_zero] at hholds
    omega
  have hle := hledger.balances_add_le hne htimelock ha
  unfold supply
  omega

end Supply

/-- What a quit does before the ETH payment returns. -/
structure QuitStarted (d : ForkDeployment H) (sender : Address) (tokenIds : List Nat)
    (assets : List Address) (w w' : ForkWorld H) : Prop where
  active : w.dao.checkGovernanceActive (w.env d) = .ok ()
  positive : 0 < w.supply d
  moved : tokenIds.foldlM (fun nouns tokenId =>
    NounsTokenFork.transferFrom nouns w.blockNumber d.dao sender d.timelock tokenId) w.nouns =
      .ok w'.nouns
  same : NounsTokenFork.SameFork w.nouns w'.nouns
  timestamp : w'.timestamp = w.timestamp
  dao : w'.dao = { w.dao with entered := true }
  quits : w'.quits = (⟨sender, tokenIds⟩, assets.map (fun erc20token =>
    (erc20token, share (w.treasury d (.ERC20 erc20token)) tokenIds.length (w.supply d)))) :: w.quits
  eth : w'.treasury d .ETH + (if sender = d.timelock then 0
    else share (w.treasury d .ETH) tokenIds.length (w.supply d)) = w.treasury d .ETH
  erc20 : w'.erc20 = w.erc20

theorem quitInternal_started {sender : Address} {tokenIds : List Nat} {assets : List Address}
    {frames : List ForkFrame} (hledger : w.nouns.toToken.Ledger) (htimelock : d.timelock ≠ 0)
    (hquits : frames.filterMap ForkFrame.quitting? = w.quits)
    (h : ({ w with frames, dao := { w.dao with entered := true } } : ForkWorld H).quitInternal d
      sender tokenIds assets = .ok w') :
    QuitStarted d sender tokenIds assets w w' := by
  have hsupply : StorageV1Fork.adjustedTotalSupply
      (({ w with frames, dao := { w.dao with entered := true } } : ForkWorld H).env d) =
      .ok (w.supply d) := adjustedTotalSupply_eq hledger htimelock
  simp only [quitInternal, hsupply, bind_eq_ok, pure_eq_ok,
    require_eq_ok] at h
  obtain ⟨_, hactive, _, heq, nouns, hloop, _, hpositive, _, -, w₁, hsend, rfl⟩ := h
  cases heq
  have heth := sendValue_treasury hsend .ETH
  obtain ⟨eth, rfl⟩ := sendValue_ok hsend
  refine ⟨hactive, Nat.pos_of_ne_zero hpositive, hloop, ?_, rfl, rfl, ?_, ?_, rfl⟩
  · refine foldlM_ok (P := NounsTokenFork.SameFork w.nouns) hloop ⟨rfl, rfl⟩ ?_
    rintro tokenId - m m' ⟨hperiod, hremaining⟩ hm
    simp only [NounsTokenFork.transferFrom, bind_eq_ok, pure_eq_ok] at hm
    obtain ⟨t, -, rfl⟩ := hm
    exact ⟨hperiod, hremaining⟩
  · simp only [quits, callOut, List.filterMap_cons, hquits]
    rfl
  · simp only [true_and, ite_not] at heth
    exact heth

namespace QuitStarted

variable {sender : Address} {tokenIds : List Nat} {assets : List Address}
  (h : QuitStarted d sender tokenIds assets w w')

include h

/-- Tokens of others leave the supply. -/
theorem supply (hledger : w.nouns.toToken.Ledger) (hledger' : w'.nouns.toToken.Ledger)
    (htimelock : d.timelock ≠ 0) (hsender : sender ≠ 0) :
    w'.supply d + (if sender = d.timelock then 0 else tokenIds.length) = w.supply d := by
  obtain ⟨hremaining, htotal, hbalances⟩ := NounsTokenFork.moveAll_balances htimelock
    (fun _ _ _ hm => NounsTokenFork.transferFrom_moved hm) hledger h.moved
  have hbalance := hbalances d.timelock htimelock
  have hle := balances_timelock_le hledger' htimelock
  rw [if_neg hsender] at htotal
  rw [if_pos rfl] at hbalance
  simp only [ForkWorld.supply, hremaining]
  split_ifs at hbalance ⊢ <;> omega

/-- Everything a quit sends, at once or later, is within its share. -/
theorem treasury (hassets : assets.Nodup) (asset : Asset) :
    w.treasury d asset + w'.owed d asset ≤ w'.treasury d asset + w.owed d asset +
      share (w.treasury d asset) tokenIds.length (w.supply d) := by
  rw [owed_of_quits h.quits rfl asset]
  cases asset with
  | ETH =>
    have heth := h.eth
    simp only [Quitting.due]
    split_ifs at heth <;> omega
  | ERC20 token =>
    have hdue := due_le_of_nodup ⟨sender, tokenIds⟩ d.timelock (fun erc20token =>
      share (w.treasury d (.ERC20 erc20token)) tokenIds.length (w.supply d)) hassets token
    have herc20 : w'.treasury d (.ERC20 token) = w.treasury d (.ERC20 token) := by
      simp only [ForkWorld.treasury, h.erc20]
    omega

theorem treasury_le (asset : Asset) : w'.treasury d asset ≤ w.treasury d asset := by
  cases asset with
  | ETH =>
    have heth := h.eth
    omega
  | ERC20 token => simp only [ForkWorld.treasury, h.erc20, Nat.le_refl]

/-- A quit of the timelock itself sends nothing. -/
theorem same_of_timelock (hself : sender = d.timelock) (asset : Asset) :
    w'.treasury d asset = w.treasury d asset ∧ w'.owed d asset = w.owed d asset := by
  rw [owed_of_quits h.quits rfl asset]
  cases asset with
  | ETH =>
    have heth := h.eth
    rw [if_pos hself] at heth
    exact ⟨heth, Nat.zero_add _⟩
  | ERC20 token => simp only [ForkWorld.treasury, h.erc20, Quitting.due, hself, if_true,
      Nat.zero_add, and_self]

end QuitStarted

end ForkWorld

/-! ## Steps -/

/-- What quits depend on of the storage is kept. -/
structure StorageV1Fork.SameTerms (ds ds' : StorageV1Fork) : Prop where
  delayed : ds'.delayedGovernanceExpirationTimestamp = ds.delayedGovernanceExpirationTimestamp
  entered : ds'.entered = ds.entered
  assets : ds.erc20TokensToIncludeInQuit.Nodup → ds'.erc20TokensToIncludeInQuit.Nodup

namespace StorageV1Fork

variable {env : ForkEnv H} {ds ds' : StorageV1Fork} {e e' : Executor H} {sender : Address}

theorem propose_sameTerms {txs : ProposalTxs} {description : String} {id : Nat}
    (h : ds.propose env sender txs description = .ok (ds', id)) : SameTerms ds ds' := by
  simp only [propose, bind_eq_ok, pure_eq_ok, Prod.mk.injEq] at h
  obtain ⟨_, -, supply, -, votes, -, _, -, _, -, _, -, _, -, _, -, rfl, -⟩ := h
  exact ⟨rfl, rfl, fun hassets => hassets⟩

theorem castVoteWithReason_sameTerms {id support : Nat} {reason : String}
    (h : ds.castVoteWithReason env sender id support reason = .ok ds') : SameTerms ds ds' := by
  simp only [castVoteWithReason, castVoteInternal, bind_eq_ok, pure_eq_ok] at h
  obtain ⟨⟨ds₁, votes⟩, ⟨_, -, _, -, _, -, _, -, votes', -, heq⟩, rfl⟩ := h
  cases heq
  exact ⟨rfl, rfl, fun hassets => hassets⟩

theorem adminCall_sameTerms {call : ForkAdminCall} (h : ds.adminCall sender call = .ok ds') :
    SameTerms ds ds' := by
  obtain ⟨-, -, hdelayed, hentered⟩ := adminCall_same h
  refine ⟨hdelayed, hentered, fun hassets => ?_⟩
  cases call with
  | setErc20TokensToIncludeInQuit l =>
    simp only [adminCall, setErc20TokensToIncludeInQuit, bind_eq_ok, pure_eq_ok] at h
    obtain ⟨_, -, _, hdistinct, rfl⟩ := h
    exact nodup_of_checkDistinct hdistinct
  | setVotingDelay v | setVotingPeriod v | setProposalThresholdBPS v | setQuorumVotesBPS v =>
    simp only [adminCall, setVotingDelay, setVotingPeriod, setProposalThresholdBPS,
      setQuorumVotesBPS, setInRange, bind_eq_ok, pure_eq_ok] at h
    obtain ⟨_, -, _, -, rfl⟩ := h
    exact hassets
  | setPendingAdmin _ | acceptAdmin =>
    simp only [adminCall, setPendingAdmin, acceptAdmin, bind_eq_ok, pure_eq_ok] at h
    obtain ⟨_, -, rfl⟩ := h
    exact hassets

variable [DecidableEq H]

theorem queue_sameTerms {id : Nat} (h : ds.queue env e id = .ok (ds', e')) : SameTerms ds ds' := by
  simp only [queue, bind_eq_ok, pure_eq_ok, Prod.mk.injEq] at h
  obtain ⟨_, -, _, -, e₁, -, rfl, -⟩ := h
  exact ⟨rfl, rfl, fun hassets => hassets⟩

theorem cancel_sameTerms {id : Nat} (h : ds.cancel env e sender id = .ok (ds', e')) :
    SameTerms ds ds' := by
  simp only [cancel, bind_eq_ok] at h
  obtain ⟨_, -, _, -, h⟩ := h
  split at h
  · simp only [bind_eq_ok, pure_eq_ok, Prod.mk.injEq] at h
    obtain ⟨_, -, _, -, e₁, -, rfl, -⟩ := h
    exact ⟨rfl, rfl, fun hassets => hassets⟩
  · simp only [bind_eq_ok, pure_eq_ok, Prod.mk.injEq] at h
    obtain ⟨e₁, -, rfl, -⟩ := h
    exact ⟨rfl, rfl, fun hassets => hassets⟩

end StorageV1Fork

/-- The tokens that a call quits with. -/
def ForkAction.quitTokens? : ForkAction → Option (List Nat)
  | .callDAO _ (.quit tokenIds) => some tokenIds
  | .callDAO _ (.quitWith tokenIds _) => some tokenIds
  | _ => none

namespace ForkWorld

variable {d : ForkDeployment H} {w w' : ForkWorld H}

open StorageV1Fork

/-- The outside code that a quit paid returns. -/
def resumesQuit (w : ForkWorld H) : ForkAction → Bool
  | .return_ => (w.frames.head?.bind ForkFrame.quitting?).isSome
  | _ => false

/-- Nothing that quits depend on changes, but time passes and tokens are claimed. -/
structure Undisturbed (w w' : ForkWorld H) : Prop where
  quits : w'.quits = w.quits
  terms : SameTerms w.dao w'.dao
  timestamp : w.timestamp ≤ w'.timestamp
  period : w'.nouns.forkingPeriodEndTimestamp = w.nouns.forkingPeriodEndTimestamp
  remaining : w'.nouns.remainingTokensToClaim ≤ w.nouns.remainingTokensToClaim

theorem Undisturbed.of_storage {ds : StorageV1Fork} {e : Executor H} (h : SameTerms w.dao ds) :
    Undisturbed w { w with dao := ds, executor := e } :=
  ⟨rfl, h, Nat.le_refl _, rfl, Nat.le_refl _⟩

/-- What a step does to quits: it starts one, goes on with one, or does neither. -/
inductive QuitStep (d : ForkDeployment H) (w : ForkWorld H) (a : ForkAction) (w' : ForkWorld H) :
    Prop
  | start (sender : Account) (tokenIds : List Nat) (assets : List Address) :
      a.quitTokens? = some tokenIds → w.dao.entered = false →
      (w.dao.erc20TokensToIncludeInQuit.Nodup → assets.Nodup) →
      QuitStarted d sender tokenIds assets w w' → QuitStep d w a w'
  | pay {v : ForkWorld H} (quitting : Quitting) (rest : List (Address × Nat)) :
      a.quitTokens? = none → w.resumesQuit a = true → w.quits = (quitting, rest) :: v.quits →
      (∃ frames executor, v = { w with frames, executor }) →
      v.payERC20 d quitting rest = .ok w' → QuitStep d w a w'
  | other : a.quitTokens? = none → w.resumesQuit a = false → Undisturbed w w' → QuitStep d w a w'

/-- Entering a contract only marks the frame. -/
theorem enter_quits {sender callee : Address} (h : w.enter d sender callee = .ok w') :
    ∃ frames, w' = { w with frames } ∧ w'.quits = w.quits := by
  simp only [enter] at h
  split at h
  · simp only [bind_eq_ok, pure_eq_ok] at h
    obtain ⟨_, -, rfl⟩ := h
    exact ⟨w.frames, rfl, rfl⟩
  · rename_i hframes
    split at h
    · simp only [bind_eq_ok, pure_eq_ok] at h
      obtain ⟨_, -, rfl⟩ := h
      refine ⟨_, rfl, ?_⟩
      simp only [quits, hframes, List.filterMap_cons]
      rfl
    · simp only [bind_eq_ok, pure_eq_ok] at h
      obtain ⟨_, -, rfl⟩ := h
      exact ⟨w.frames, rfl, rfl⟩

variable [DecidableEq H]

theorem executeFrom_undisturbed {id i : Nat} (h : w.executeFrom d id i = .ok w') :
    Undisturbed w w' := by
  simp only [executeFrom] at h
  split at h
  · simp only [bind_eq_ok, pure_eq_ok] at h
    obtain ⟨tx, -, e, -, w₁, hsend, rfl⟩ := h
    obtain ⟨eth, rfl⟩ := sendValue_ok hsend
    exact ⟨rfl, ⟨rfl, rfl, fun hassets => hassets⟩, Nat.le_refl _, rfl, Nat.le_refl _⟩
  · rw [← pure_eq_ok.mp h]
    exact ⟨rfl, ⟨rfl, rfl, fun hassets => hassets⟩, Nat.le_refl _, rfl, Nat.le_refl _⟩

/-- A call of the DAO that is no quit. -/
theorem callDAO_undisturbed {sender : Account} {call : ForkDAOCall}
    (hcall : (ForkAction.callDAO sender call).quitTokens? = none)
    (h : w.callDAO d sender call = .ok w') : Undisturbed w w' := by
  cases call with
  | propose txs description =>
    obtain ⟨ds, hds, rfl⟩ := withStorage_ok h
    obtain ⟨⟨ds, id⟩, hpropose, rfl⟩ := map_eq_ok.mp hds
    exact .of_storage (propose_sameTerms hpropose)
  | queue id =>
    simp only [callDAO, withTimelock, bind_eq_ok, pure_eq_ok] at h
    obtain ⟨⟨ds, e⟩, hqueue, rfl⟩ := h
    exact .of_storage (queue_sameTerms hqueue)
  | execute id =>
    simp only [callDAO, execute, bind_eq_ok] at h
    obtain ⟨_, -, _, -, h⟩ := h
    obtain ⟨hquits, ⟨hdelayed, hentered, hassets⟩, htime, hperiod, hremaining⟩ :=
      executeFrom_undisturbed h
    exact ⟨hquits, ⟨hdelayed, hentered, hassets⟩, htime, hperiod, hremaining⟩
  | cancel id =>
    simp only [callDAO, withTimelock, bind_eq_ok, pure_eq_ok] at h
    obtain ⟨⟨ds, e⟩, hcancel, rfl⟩ := h
    exact .of_storage (cancel_sameTerms hcancel)
  | castVote id support =>
    obtain ⟨ds, hds, rfl⟩ := withStorage_ok h
    exact .of_storage (castVoteWithReason_sameTerms hds)
  | castVoteWithReason id support reason =>
    obtain ⟨ds, hds, rfl⟩ := withStorage_ok h
    exact .of_storage (castVoteWithReason_sameTerms hds)
  | castVoteBySig id support sig =>
    obtain ⟨ds, hds, rfl⟩ := withStorage_ok h
    simp only [castVoteBySig, bind_eq_ok] at hds
    obtain ⟨_, -, hds⟩ := hds
    exact .of_storage (castVoteWithReason_sameTerms hds)
  | admin call =>
    obtain ⟨ds, hds, rfl⟩ := withStorage_ok h
    exact .of_storage (adminCall_sameTerms hds)
  | quit tokenIds => cases hcall
  | quitWith tokenIds erc20TokensToInclude => cases hcall

theorem callDAO_quitStep {sender : Account} {call : ForkDAOCall} {frames : List ForkFrame}
    (hledger : w.nouns.toToken.Ledger) (htimelock : d.timelock ≠ 0)
    (hquits : ({ w with frames } : ForkWorld H).quits = w.quits)
    (h : ({ w with frames } : ForkWorld H).callDAO d sender call = .ok w') :
    QuitStep d w (.callDAO sender call) w' := by
  cases call with
  | quit tokenIds =>
    simp only [callDAO, quit, nonReentrant, bind_eq_ok, require_eq_ok] at h
    obtain ⟨_, hentered, h⟩ := h
    exact .start sender tokenIds w.dao.erc20TokensToIncludeInQuit rfl hentered
      (fun hassets => hassets) (quitInternal_started hledger htimelock hquits h)
  | quitWith tokenIds erc20TokensToInclude =>
    simp only [callDAO, quitWith, nonReentrant, checkForDuplicates, bind_eq_ok, require_eq_ok] at h
    obtain ⟨_, hentered, _, hdistinct, _, -, h⟩ := h
    exact .start sender tokenIds erc20TokensToInclude rfl hentered
      (fun _ => nodup_of_checkDistinct hdistinct) (quitInternal_started hledger htimelock hquits h)
  | propose _ _ | queue _ | execute _ | cancel _ | castVote _ _ | castVoteWithReason _ _ _
  | castVoteBySig _ _ _ | admin _ =>
    obtain ⟨hquits', hterms, htime, hperiod, hremaining⟩ := callDAO_undisturbed rfl h
    exact .other rfl rfl ⟨hquits'.trans hquits, hterms, htime, hperiod, hremaining⟩

/-- Every step, in terms of quits. -/
theorem step_quitStep {a : ForkAction} (hledger : w.nouns.toToken.Ledger)
    (htimelock : d.timelock ≠ 0) (h : w.step d a = .ok w') : QuitStep d w a w' := by
  cases a with
  | advance blockNumber timestamp =>
    simp only [step, bind_eq_ok, require_eq_ok, pure_eq_ok] at h
    obtain ⟨_, ⟨-, -, htime⟩, rfl⟩ := h
    exact .other rfl rfl ⟨rfl, ⟨rfl, rfl, fun hassets => hassets⟩, htime, rfl, Nat.le_refl _⟩
  | callDAO sender call =>
    simp only [step, bind_eq_ok] at h
    obtain ⟨w₁, henter, h⟩ := h
    obtain ⟨frames, rfl, hquits⟩ := enter_quits henter
    exact callDAO_quitStep hledger htimelock hquits h
  | callToken sender call =>
    simp only [step, callToken, bind_eq_ok, pure_eq_ok] at h
    obtain ⟨w₁, henter, nouns, hcall, rfl⟩ := h
    obtain ⟨frames, rfl, hquits⟩ := enter_quits henter
    obtain ⟨hperiod, hremaining⟩ := NounsTokenFork.call_remaining hcall
    exact .other rfl rfl ⟨hquits, ⟨rfl, rfl, fun hassets => hassets⟩, Nat.le_refl _, hperiod,
      hremaining ▸ Nat.le_add_right _ _⟩
  | callExecutor sender call =>
    simp only [step, callExecutor, bind_eq_ok, pure_eq_ok] at h
    obtain ⟨w₁, henter, e, -, rfl⟩ := h
    obtain ⟨frames, rfl, hquits⟩ := enter_quits henter
    exact .other rfl rfl
      ⟨hquits, ⟨rfl, rfl, fun hassets => hassets⟩, Nat.le_refl _, rfl, Nat.le_refl _⟩
  | return_ =>
    simp only [step] at h
    split at h
    · simp at h
    · rename_i frame frames hframes
      obtain ⟨callee, caller, continuation⟩ := frame
      cases continuation with
      | execute id i tx =>
        obtain ⟨hquits, hterms, htime, hperiod, hremaining⟩ := executeFrom_undisturbed h
        have hsame : w.quits = ({ w with frames } : ForkWorld H).quits := by
          simp only [quits, hframes]
          rfl
        refine .other rfl ?_ ⟨hquits.trans hsame.symm, hterms, htime, hperiod, hremaining⟩
        simp only [resumesQuit, hframes]
        rfl
      | sendETH quitting rest amount =>
        refine .pay quitting rest rfl ?_ ?_ ⟨frames, _, rfl⟩ h
        · simp only [resumesQuit, hframes]
          rfl
        · simp only [quits, hframes]
          rfl
      | sendERC20 quitting rest erc20token amount =>
        refine .pay quitting rest rfl ?_ ?_ ⟨frames, _, rfl⟩ h
        · simp only [resumesQuit, hframes]
          rfl
        · simp only [quits, hframes]
          rfl

omit [DecidableEq H] in
/-- A quit pays the next token, or ends. -/
theorem payERC20_cases {quitting : Quitting} {rest : List (Address × Nat)}
    (h : w.payERC20 d quitting rest = .ok w') :
    (∃ e, w'.dao = { w.dao with log := e :: w.dao.log, entered := false } ∧ w'.quits = w.quits ∧
      w'.nouns = w.nouns ∧ w'.timestamp = w.timestamp) ∨
    (w'.dao = w.dao ∧ (∃ rest', w'.quits = (quitting, rest') :: w.quits) ∧ w'.nouns = w.nouns ∧
      w'.timestamp = w.timestamp) := by
  induction rest with
  | nil =>
    rw [← pure_eq_ok.mp h]
    exact .inl ⟨_, rfl, rfl, rfl, rfl⟩
  | cons payment rest ih =>
    obtain ⟨token, amount⟩ := payment
    simp only [payERC20] at h
    split at h
    · simp only [bind_eq_ok, pure_eq_ok] at h
      obtain ⟨_, -, w₁, hsend, rfl⟩ := h
      obtain ⟨erc20, rfl⟩ := sendToken_ok hsend
      exact .inr ⟨rfl, ⟨rest, rfl⟩, rfl, rfl⟩
    · exact ih h

/-! ## Runs -/

omit [DecidableEq H] in
/-- No quit is in progress.  The list of ERC20 tokens is that of the original DAO, without
duplicates. -/
structure StartQuits (d : ForkDeployment H) (w : ForkWorld H) : Prop extends Start d w where
  entered : w.dao.entered = false
  assets : w.dao.erc20TokensToIncludeInQuit.Nodup

omit [DecidableEq H] in
/-- The reentrancy guard lets through one quit at a time. -/
structure Guarded (w : ForkWorld H) : Prop where
  one : w.quits.length = if w.dao.entered then 1 else 0
  assets : w.dao.erc20TokensToIncludeInQuit.Nodup

omit [DecidableEq H] in
theorem Guarded.owed_eq_zero (h : w.Guarded) (hentered : w.dao.entered = false) (asset : Asset) :
    w.owed d asset = 0 := by
  have hnone := h.one
  rw [hentered] at hnone
  simp only [owed, List.eq_nil_of_length_eq_zero hnone, List.map_nil, List.sum_nil]

theorem ledger_of_reachable (hr : Reachable (StartQuits d) (NextAny d) w) :
    w.nouns.toToken.Ledger :=
  (funded_of_reachable (hr.mono (fun _ hw => hw.toStart) (fun _ _ hn => hn))).ledger

omit [DecidableEq H] in
theorem QuitStep.guarded {a : ForkAction} (hw : w.Guarded) (h : QuitStep d w a w') :
    w'.Guarded := by
  cases h with
  | start sender tokenIds assets _ hentered _ hstarted =>
    have hone := hw.one
    rw [hentered] at hone
    refine ⟨?_, ?_⟩
    · rw [hstarted.dao, hstarted.quits, List.length_cons, hone]
      rfl
    · rw [hstarted.dao]
      exact hw.assets
  | pay quitting rest _ _ hquits hv h =>
    obtain ⟨frames, executor, rfl⟩ := hv
    have hone := hw.one
    rw [hquits, List.length_cons] at hone
    -- The quit that goes on is the only one.
    have hentered : w.dao.entered = true ∧
        ({ w with frames, executor } : ForkWorld H).quits.length = 0 := by
      split at hone
      · exact ⟨by assumption, by omega⟩
      · omega
    rcases payERC20_cases h with ⟨e, hdao, hquits', -, -⟩ | ⟨hdao, ⟨rest', hquits'⟩, -, -⟩
    · refine ⟨?_, hdao ▸ hw.assets⟩
      rw [hdao, hquits', hentered.2]
      rfl
    · refine ⟨?_, hdao ▸ hw.assets⟩
      rw [hdao, hquits', List.length_cons, hentered.2]
      simp only [hentered.1, if_true]
  | other _ _ h =>
    refine ⟨?_, h.terms.assets hw.assets⟩
    rw [h.quits, h.terms.entered]
    exact hw.one

theorem guarded_of_reachable (htimelock : d.timelock ≠ 0)
    (hr : Reachable (StartQuits d) (NextAny d) w) : w.Guarded := by
  refine hr.invariant ?_ ?_
  · intro w hw
    refine ⟨?_, hw.assets⟩
    rw [hw.entered, quits, hw.frames]
    rfl
  · intro w w' hr hw hn
    cases hn with
    | step a _ hstep => exact (step_quitStep (ledger_of_reachable hr) htimelock hstep).guarded hw
    | outside hout =>
      obtain ⟨⟨escrow, eth, erc20, outside, rfl⟩, -, -⟩ := hout
      exact ⟨hw.one, hw.assets⟩

/-! ## The gate -/

omit [DecidableEq H] in
theorem active_iff : w.dao.checkGovernanceActive (w.env d) = .ok () ↔
    w.nouns.forkingPeriodEndTimestamp ≤ w.timestamp ∧
      (w.dao.delayedGovernanceExpirationTimestamp ≤ w.timestamp ∨
        w.nouns.remainingTokensToClaim = 0) := by
  simp only [checkGovernanceActive, bind_eq_ok, revertIf_eq_ok]
  simp only [env]
  constructor
  · rintro ⟨_, hperiod, hwaiting⟩
    exact ⟨by omega, by omega⟩
  · rintro ⟨hperiod, hclaimed⟩
    exact ⟨(), by omega, by omega⟩

omit [DecidableEq H] in
/-- Time passes, and fewer tokens are left to be claimed. -/
theorem QuitStep.active {a : ForkAction} (h : QuitStep d w a w')
    (hactive : w.dao.checkGovernanceActive (w.env d) = .ok ()) :
    w'.dao.checkGovernanceActive (w'.env d) = .ok () := by
  rw [active_iff] at hactive ⊢
  cases h with
  | start sender tokenIds assets _ _ _ hstarted =>
    rw [hstarted.dao, hstarted.timestamp, hstarted.same.forkingPeriodEndTimestamp,
      hstarted.same.remainingTokensToClaim]
    exact hactive
  | pay quitting rest _ _ _ hv h =>
    obtain ⟨frames, executor, rfl⟩ := hv
    rcases payERC20_cases h with ⟨e, hdao, -, hnouns, htime⟩ | ⟨hdao, -, hnouns, htime⟩
    · rw [hdao, hnouns, htime]
      exact hactive
    · rw [hdao, hnouns, htime]
      exact hactive
  | other _ _ h =>
    have htime := h.timestamp
    have hremaining := h.remaining
    rw [h.period, h.terms.delayed]
    exact ⟨by omega, by omega⟩

theorem active_of_steps (htimelock : d.timelock ≠ 0) (hr : Reachable (StartQuits d) (NextAny d) w)
    (hactive : w.dao.checkGovernanceActive (w.env d) = .ok ())
    (hsteps : Relation.ReflTransGen (NextAny d) w w') :
    w'.dao.checkGovernanceActive (w'.env d) = .ok () := by
  induction hsteps with
  | refl => exact hactive
  | tail hsteps hn ih =>
    cases hn with
    | step a _ hstep =>
      have hledger := ledger_of_reachable (hr.steps hsteps)
      exact (step_quitStep hledger htimelock hstep).active ih
    | outside hout =>
      obtain ⟨⟨escrow, eth, erc20, outside, rfl⟩, -, -⟩ := hout
      exact ih

/-- Governance is active only after the forking period. -/
theorem no_join_of_active {sender : Account} {to_ : Address} {tokenIds : List Nat}
    (hactive : w.dao.checkGovernanceActive (w.env d) = .ok ()) :
    w.step d (.callToken sender (.claimDuringForkPeriod to_ tokenIds)) ≠ .ok w' := by
  intro h
  simp only [step, callToken, NounsTokenFork.call, NounsTokenFork.claimDuringForkPeriod, bind_eq_ok,
    revertIf_eq_ok] at h
  obtain ⟨w₁, henter, nouns, ⟨_, -, _, hperiod, -⟩, -⟩ := h
  obtain ⟨frames, rfl⟩ := enter_ok henter
  exact hperiod (active_iff.mp hactive).1

/-! ## The ratio -/

/-- Quits, in all their parts, and claims; time may pass. -/
def QuitsAndClaims (w : ForkWorld H) : ForkAction → Prop
  | .advance _ _ => True
  | .callToken _ (.claimFromEscrow _) => True
  | a => a.quitTokens? ≠ none ∨ w.resumesQuit a = true

/-- What the treasury has and does not owe. -/
def net (d : ForkDeployment H) (w : ForkWorld H) (asset : Asset) : Nat :=
  w.treasury d asset - w.owed d asset

/-- Claims by others than the timelock leave the supply, as each was counted before. -/
theorem claim_supply {sender : Account} {tokenIds : List Nat} (htimelock : d.timelock ≠ 0)
    (hledger : w.nouns.toToken.Ledger)
    (h : w.step d (.callToken sender (.claimFromEscrow tokenIds)) = .ok w') :
    w'.quits = w.quits ∧ w'.treasury d = w.treasury d ∧
      w'.supply d + (if (sender : Address) = d.timelock then tokenIds.length else 0) =
        w.supply d := by
  simp only [step, callToken, bind_eq_ok, pure_eq_ok] at h
  obtain ⟨w₁, henter, nouns, hclaim, rfl⟩ := h
  obtain ⟨frames, rfl, hquits⟩ := enter_quits henter
  obtain ⟨hremaining, htotal, hbalances⟩ :=
    NounsTokenFork.claimFromEscrow_balances hledger hclaim
  have hbalance := hbalances d.timelock htimelock
  have hle := balances_timelock_le hledger htimelock
  refine ⟨hquits, ?_, ?_⟩
  · funext asset
    cases asset <;> rfl
  · simp only [supply]
    split_ifs at hbalance ⊢ <;> omega

/-- Without a record there is nothing to claim. -/
theorem claims_nil_of_no_record {sender : Account} {tokenIds : List Nat}
    (h : w.step d (.callToken sender (.claimFromEscrow tokenIds)) = .ok w')
    (hnone : ∀ id, w.escrow.ownerOfEscrowedToken w.nouns.forkId id ≠ sender) :
    tokenIds.length = 0 := by
  cases tokenIds with
  | nil => rfl
  | cons tokenId tokenIds =>
    simp only [step, callToken, NounsTokenFork.call, NounsTokenFork.claimFromEscrow,
      List.foldlM_cons, bind_eq_ok, revertIf_eq_ok, Decidable.not_not] at h
    obtain ⟨w₁, henter, _, ⟨_, ⟨_, ⟨_, howner, -⟩, -⟩, -⟩, -⟩ := h
    obtain ⟨frames, rfl⟩ := enter_ok henter
    exact absurd howner (hnone tokenId)

omit [DecidableEq H] in
/-- A payment that is made is no longer owed. -/
theorem net_of_pay {quitting : Quitting} {rest : List (Address × Nat)} {v : ForkWorld H}
    (hquits : w.quits = (quitting, rest) :: v.quits)
    (hv : ∃ frames executor, v = { w with frames, executor })
    (h : v.payERC20 d quitting rest = .ok w') (asset : Asset) :
    w'.treasury d asset ≤ w.treasury d asset ∧
      w'.treasury d asset + w.owed d asset = w.treasury d asset + w'.owed d asset := by
  have hpaid := payERC20_treasury h asset
  have howed : w.owed d asset = quitting.due d.timelock rest asset + v.owed d asset :=
    owed_of_quits hquits rfl asset
  obtain ⟨frames, executor, rfl⟩ := hv
  rw [howed]
  exact hpaid

omit [DecidableEq H] in
/-- A quit takes no more than its share of what there was. -/
theorem QuitStarted.ratio {sender : Account} {tokenIds : List Nat} {assets : List Address}
    (h : QuitStarted d sender tokenIds assets w w') (hledger : w.nouns.toToken.Ledger)
    (hledger' : w'.nouns.toToken.Ledger) (htimelock : d.timelock ≠ 0) (hassets : assets.Nodup)
    (hnone : ∀ asset, w.owed d asset = 0) :
    w'.supply d ≤ w.supply d ∧
      ∀ asset, w.net d asset * w'.supply d ≤ w'.net d asset * w.supply d := by
  have hsupply := h.supply hledger hledger' htimelock sender.2
  refine ⟨by omega, fun asset => ?_⟩
  by_cases hself : (sender : Address) = d.timelock
  · obtain ⟨htreasury, howed⟩ := h.same_of_timelock hself asset
    rw [if_pos hself, Nat.add_zero] at hsupply
    rw [net, net, htreasury, howed, hsupply]
  · have htreasury := h.treasury hassets asset
    have hle := h.treasury_le asset
    rw [if_neg hself] at hsupply
    have hpaid : w.treasury d asset - w'.net d asset ≤
        share (w.treasury d asset) tokenIds.length (w.supply d) := by
      have hzero := hnone asset
      unfold net
      omega
    have hrest := le_rest hpaid
    have hnet : w.treasury d asset - (w.treasury d asset - w'.net d asset) = w'.net d asset := by
      unfold net
      omega
    have hbefore : w.net d asset = w.treasury d asset := by
      rw [net, hnone, Nat.sub_zero]
    rw [hnet] at hrest
    rw [hbefore, ← hsupply]
    rw [← hsupply, Nat.add_sub_cancel] at hrest
    exact hrest

/-- One step of a sequence of quits and claims. -/
theorem ratio_of_next (htimelock : d.timelock ≠ 0) (hcontract : d.isContract d.timelock = true)
    (hr : Reachable (StartQuits d) (NextAny d) w) (hn : Next d QuitsAndClaims w w') :
    w'.supply d ≤ w.supply d ∧
      ∀ asset, w.net d asset * w'.supply d ≤ w'.net d asset * w.supply d := by
  have hledger := ledger_of_reachable hr
  have hguarded := guarded_of_reachable htimelock hr
  cases hn with
  | step a hadmits hstep =>
    have hledger' := ledger_of_reachable (hr.step (.step a trivial hstep))
    cases step_quitStep hledger htimelock hstep with
    | start sender tokenIds assets _ hentered hassets hstarted =>
      exact hstarted.ratio hledger hledger' htimelock (hassets hguarded.assets)
        (hguarded.owed_eq_zero hentered)
    | pay quitting rest _ _ hquits hv h =>
      have hnouns : w'.nouns = w.nouns := by
        obtain ⟨frames, executor, rfl⟩ := hv
        rcases payERC20_cases h with ⟨e, -, -, hnouns, -⟩ | ⟨-, -, hnouns, -⟩ <;> exact hnouns
      have hsupply : w'.supply d = w.supply d := by
        rw [supply, hnouns, supply]
      refine ⟨Nat.le_of_eq hsupply, fun asset => ?_⟩
      have hpaid := (net_of_pay hquits hv h asset).2
      have hnet : w'.net d asset = w.net d asset := by
        unfold net
        omega
      rw [hnet, hsupply]
    | other hquit hresumes hother =>
      cases a with
      | advance blockNumber timestamp =>
        simp only [step, bind_eq_ok, pure_eq_ok] at hstep
        obtain ⟨_, -, rfl⟩ := hstep
        exact ⟨Nat.le_refl _, fun asset => Nat.le_refl _⟩
      | callToken sender call =>
        cases call with
        | claimFromEscrow tokenIds =>
          obtain ⟨hquits, htreasury, hsupply⟩ := claim_supply htimelock hledger hstep
          have hle : w'.supply d ≤ w.supply d := by omega
          refine ⟨hle, fun asset => ?_⟩
          have hnet : w'.net d asset = w.net d asset := by
            simp only [net, owed, hquits, htreasury]
          rw [hnet]
          exact Nat.mul_le_mul_left _ hle
        | _ => simp [QuitsAndClaims, hquit, hresumes] at hadmits
      | callDAO _ _ | callExecutor _ _ | return_ =>
        simp [QuitsAndClaims, hquit, hresumes] at hadmits
  | outside hout =>
    obtain ⟨⟨escrow, eth, erc20, outside, rfl⟩, heth, herc20⟩ := hout
    refine ⟨Nat.le_refl _, fun asset => Nat.mul_le_mul_right _ ?_⟩
    refine Nat.sub_le_sub_right ?_ _
    cases asset with
    | ETH => exact heth d.timelock hcontract
    | ERC20 token => exact herc20 token d.timelock hcontract

theorem ratio_of_steps (htimelock : d.timelock ≠ 0) (hcontract : d.isContract d.timelock = true)
    (hr : Reachable (StartQuits d) (NextAny d) w)
    (hsteps : Relation.ReflTransGen (Next d QuitsAndClaims) w w') (asset : Asset) :
    w.net d asset * w'.supply d ≤ w'.net d asset * w.supply d := by
  have hany : ∀ w w' : ForkWorld H, Next d QuitsAndClaims w w' → NextAny d w w' := by
    intro w w' hn
    cases hn with
    | step a _ hstep => exact .step a trivial hstep
    | outside hout => exact .outside hout
  induction hsteps with
  | refl => exact Nat.le_refl _
  | tail hsteps hn ih =>
    have hr' := hr.steps (Relation.ReflTransGen.mono hany _ _ hsteps)
    obtain ⟨hle, hratio⟩ := ratio_of_next htimelock hcontract hr' hn
    exact ratio_trans ih (hratio asset) (fun hzero => by omega)

end ForkWorld

/-! ## What a quit pays -/

/-- A quit: the state it began in, its tokens, and what left the treasury through it so far. -/
structure QuitRecord (H : Type) where
  start : ForkWorld H
  tokenIds : List Nat
  paid : Asset → Nat

/-- A fork DAO with a record of its latest quit. -/
structure QuitLog (H : Type) where
  world : ForkWorld H
  latest : Option (QuitRecord H)

namespace QuitLog

open ForkWorld

variable {d : ForkDeployment H} {s s' : QuitLog H}

/-- The record after action `a` led to `w'`. -/
def record (d : ForkDeployment H) (s : QuitLog H) (a : ForkAction) (w' : ForkWorld H) :
    Option (QuitRecord H) :=
  let sent := fun asset => s.world.treasury d asset - w'.treasury d asset
  match a.quitTokens? with
  | some tokenIds => some ⟨s.world, tokenIds, sent⟩
  | none =>
    if s.world.resumesQuit a then
      s.latest.map (fun q => { q with paid := fun asset => q.paid asset + sent asset })
    else s.latest

def step [DecidableEq H] (d : ForkDeployment H) (s : QuitLog H) (a : ForkAction) :
    Tx (QuitLog H) := do
  let world ← s.world.step d a
  return ⟨world, s.record d a world⟩

inductive Next [DecidableEq H] (d : ForkDeployment H) : QuitLog H → QuitLog H → Prop
  | step {s s' : QuitLog H} (a : ForkAction) : s.step d a = .ok s' → Next d s s'
  | outside {s : QuitLog H} {w' : ForkWorld H} : OutsideChange d s.world w' →
      Next d s ⟨w', s.latest⟩

structure Start (d : ForkDeployment H) (s : QuitLog H) : Prop where
  world : s.world.StartQuits d
  latest : s.latest = none

/-- What the latest quit paid and has still to pay is within its share. -/
def Within (d : ForkDeployment H) (s : QuitLog H) : Prop :=
  ∀ q ∈ s.latest, q.start.nouns.toToken.Ledger ∧ ∀ asset, q.paid asset + s.world.owed d asset ≤
    share (q.start.treasury d asset) q.tokenIds.length (q.start.supply d)

variable [DecidableEq H]

theorem reachable_world (hr : Reachable (Start d) (Next d) s) :
    Reachable (StartQuits d) (NextAny d) s.world := by
  refine hr.invariant (P := fun s => Reachable (StartQuits d) (NextAny d) s.world)
    (fun _ hs => .start hs.world) ?_
  intro s s' _ hr hn
  cases hn with
  | step a hstep =>
    simp only [step, bind_eq_ok, pure_eq_ok] at hstep
    obtain ⟨w', hstep, rfl⟩ := hstep
    exact hr.step (.step a trivial hstep)
  | outside hout => exact hr.step (.outside hout)

theorem Within.step (htimelock : d.timelock ≠ 0) (hledger : s.world.nouns.toToken.Ledger)
    (hguarded : s.world.Guarded) (hs : s.Within d) {a : ForkAction} (hstep : s.step d a = .ok s') :
    s'.Within d := by
  simp only [QuitLog.step, bind_eq_ok, pure_eq_ok] at hstep
  obtain ⟨w', hstep, rfl⟩ := hstep
  cases step_quitStep hledger htimelock hstep with
  | start sender tokenIds assets htokens hentered hassets hstarted =>
    intro q hq
    simp only [record, htokens, Option.mem_def, Option.some.injEq] at hq
    subst hq
    refine ⟨hledger, fun asset => ?_⟩
    have htreasury := hstarted.treasury (hassets hguarded.assets) asset
    have hle := hstarted.treasury_le asset
    have hzero : s.world.owed d asset = 0 := hguarded.owed_eq_zero hentered asset
    simp only
    omega
  | pay quitting rest hquit hresumes hquits hv h =>
    intro q hq
    simp only [record, hquit, hresumes, if_true, Option.mem_def, Option.map_eq_some_iff] at hq
    obtain ⟨q, hq, rfl⟩ := hq
    obtain ⟨hstart, hwithin⟩ := hs q hq
    refine ⟨hstart, fun asset => ?_⟩
    obtain ⟨hsent, hpaid⟩ := net_of_pay hquits hv h asset
    have hle := hwithin asset
    simp only
    omega
  | other hquit hresumes hother =>
    intro q hq
    simp only [record, hquit, hresumes] at hq
    obtain ⟨hstart, hwithin⟩ := hs q hq
    refine ⟨hstart, fun asset => ?_⟩
    have howed : w'.owed d asset = s.world.owed d asset := by
      rw [owed, hother.quits, owed]
    simp only [howed]
    exact hwithin asset

theorem within_of_reachable (htimelock : d.timelock ≠ 0) (hr : Reachable (Start d) (Next d) s) :
    s.Within d := by
  refine hr.invariant (P := Within d) ?_ ?_
  · intro s hs q hq
    rw [hs.latest] at hq
    cases hq
  · intro s s' hr hs hn
    have hworld := reachable_world hr
    cases hn with
    | step a hstep =>
      exact hs.step htimelock (ledger_of_reachable hworld) (guarded_of_reachable htimelock hworld)
        hstep
    | @outside w' hout =>
      obtain ⟨⟨escrow, eth, erc20, outside, hout⟩, -, -⟩ := hout
      intro q hq
      obtain ⟨hstart, hwithin⟩ := hs q hq
      refine ⟨hstart, fun asset => ?_⟩
      have howed : w'.owed d asset = s.world.owed d asset := by
        rw [hout]
        rfl
      simp only [howed]
      exact hwithin asset

end QuitLog

/-! ## Fairness -/

section Fairness

variable [DecidableEq H] {d : ForkDeployment H}

open ForkWorld

/-- In every run of a fork DAO, a quit with `k` tokens pays at most `B * k / S` of each asset, and the
supply `S` counts every token that somebody but the timelock holds.  Any sequence of quits and claims
leaves as much of each asset per token as there was; a claim leaves the supply, as the timelock is
younger than what was escrowed.  Once governance is active it stays so, and after a quit nobody
joins. -/
theorem quits_fair (htimelock : d.timelock ≠ 0) (hcontract : d.isContract d.timelock = true) :
    (∀ s, Reachable (QuitLog.Start d) (QuitLog.Next d) s → ∀ q ∈ s.latest,
      ∃ supply, StorageV1Fork.adjustedTotalSupply (q.start.env d) = .ok supply ∧
        ∀ asset, q.paid asset ≤ q.start.treasury d asset * q.tokenIds.length / supply) ∧
    ∀ w, Reachable (StartQuits d) (NextAny d) w →
      StorageV1Fork.adjustedTotalSupply (w.env d) = .ok (w.supply d) ∧
      (∀ a, a ≠ d.timelock → 0 < w.nouns.balances a → 0 < w.supply d) ∧
      (∀ w', Relation.ReflTransGen (Next d QuitsAndClaims) w w' → ∀ asset,
        w.net d asset * w'.supply d ≤ w'.net d asset * w.supply d ∧
        (w.dao.entered = false →
          w.treasury d asset * w'.supply d ≤ w'.treasury d asset * w.supply d)) ∧
      (∀ sender tokenIds w', w.step d (.callToken sender (.claimFromEscrow tokenIds)) = .ok w' →
        (∀ id, w.escrow.ownerOfEscrowedToken w.nouns.forkId id ≠ d.timelock) →
        w'.supply d = w.supply d) ∧
      (w.dao.checkGovernanceActive (w.env d) = .ok () →
        ∀ w', Relation.ReflTransGen (NextAny d) w w' →
          w'.dao.checkGovernanceActive (w'.env d) = .ok ()) ∧
      (∀ a w₁ w', a.quitTokens? ≠ none → w.step d a = .ok w₁ →
        Relation.ReflTransGen (NextAny d) w₁ w' → ∀ sender to_ tokenIds w'',
          w'.step d (.callToken sender (.claimDuringForkPeriod to_ tokenIds)) ≠ .ok w'') := by
  refine ⟨?_, ?_⟩
  · intro s hr q hq
    obtain ⟨hledger, hwithin⟩ := QuitLog.within_of_reachable htimelock hr q hq
    refine ⟨q.start.supply d, adjustedTotalSupply_eq hledger htimelock, fun asset => ?_⟩
    exact Nat.le_trans (Nat.le_add_right _ _) (hwithin asset)
  · intro w hr
    have hledger := ledger_of_reachable hr
    refine ⟨adjustedTotalSupply_eq hledger htimelock,
      fun a ha hholds => supply_pos hledger htimelock ha hholds, ?_, ?_,
      fun hactive w' hsteps => active_of_steps htimelock hr hactive hsteps, ?_⟩
    · intro w' hsteps asset
      have hratio := ratio_of_steps htimelock hcontract hr hsteps asset
      refine ⟨hratio, fun hentered => ?_⟩
      have hnone := (guarded_of_reachable htimelock hr).owed_eq_zero (d := d) hentered asset
      rw [net, hnone, Nat.sub_zero] at hratio
      exact Nat.le_trans hratio (Nat.mul_le_mul_right _ (Nat.sub_le _ _))
    · intro sender tokenIds w' h hyounger
      obtain ⟨-, -, hsupply⟩ := claim_supply htimelock hledger h
      by_cases hself : (sender : Address) = d.timelock
      · rw [if_pos hself, claims_nil_of_no_record h (hself ▸ hyounger)] at hsupply
        exact hsupply
      · rwa [if_neg hself] at hsupply
    · intro a w₁ w' hquit hstep hsteps sender to_ tokenIds w''
      have hr₁ := hr.step (.step a trivial hstep)
      have hquits := step_quitStep hledger htimelock hstep
      have hstays := hquits.active
      cases hquits with
      | start sender' tokenIds' assets _ _ _ hstarted =>
        exact no_join_of_active
          (active_of_steps htimelock hr₁ (hstays hstarted.active) hsteps)
      | pay _ _ hnone | other hnone => exact absurd hnone hquit

end Fairness

theorem ForkWorld.sample_startQuits : ForkWorld.sample.StartQuits .sample :=
  ⟨ForkWorld.sample_start, rfl, List.nodup_nil⟩

/-- 7 quits with one of two tokens and gets half of the ETH. -/
theorem quits_fair_of_half :
    ∃ (s : QuitLog Preimage) (q : QuitRecord Preimage),
      Reachable (QuitLog.Start .sample) (QuitLog.Next .sample) s ∧ s.latest = some q ∧
      q.start.supply .sample = 2 ∧ s.world.supply .sample = 1 ∧ q.paid .ETH = 5 * 10 ^ 17 ∧
      ∃ supply, StorageV1Fork.adjustedTotalSupply (q.start.env .sample) = .ok supply ∧
        ∀ asset, q.paid asset ≤ q.start.treasury .sample asset * q.tokenIds.length / supply := by
  have hrun : Yields (evaluate (QuitLog.step .sample) (fun _ _ _ => True) .callFailed
      ⟨ForkWorld.sample, none⟩
      [.callToken ⟨7, by decide⟩ .mint, .callToken ⟨7, by decide⟩ .mint,
        .callToken ⟨7, by decide⟩ (.setApprovalForAll 200 true),
        .callDAO ⟨7, by decide⟩ (.quit [5])])
      (fun s => s.world.supply .sample = 1 ∧
        s.latest.map (fun q => (q.start.supply .sample, q.paid .ETH)) = some (2, 5 * 10 ^ 17)) := by
    decide +kernel
  obtain ⟨s, hs, hsupply, hlatest⟩ := hrun
  obtain ⟨q, hq, hpaid⟩ := Option.map_eq_some_iff.mp hlatest
  have hr : Reachable (QuitLog.Start .sample) (QuitLog.Next .sample) s :=
    ⟨_, ⟨ForkWorld.sample_startQuits, rfl⟩, evaluate_steps (fun _ a _ h _ => .step a h) hs⟩
  obtain ⟨hstart, heth⟩ := Prod.mk.inj hpaid
  exact ⟨s, q, hr, hq, hstart, hsupply, heth,
    (quits_fair (d := .sample) (by decide) rfl).1 s hr q hq⟩

end Nouns
