import Nouns.Governance.Payouts
import Nouns.Governance.Frozen
import Nouns.Governance.Snapshot
import Nouns.Governance.EscrowAccounting
import Nouns.Governance.ForkFreeze

/-!
# TreasurySplit — a fork is fair to those who stay

The supply that the treasury is divided by shrinks by the tokens that fork: `executeFork` closes the
escrow after the payment, `joinFork` moves the tokens to the treasury after it.  Every payment is
rounded down, so what is left of each asset per token left does not go down.
-/

open Fallible Transition ProRata

namespace Nouns

variable {H : Type}

/-! ## The adjusted supply -/

theorem Token.Ledger.balances_add_le {t : Token} (hl : t.Ledger) {a b : Address} (ha : a ≠ 0)
    (hb : b ≠ 0) (hne : a ≠ b) : t.balances a + t.balances b ≤ t.totalSupply := by
  have hdisjoint : Disjoint {tokenId | t.owners tokenId = a} {tokenId | t.owners tokenId = b} := by
    rw [Set.disjoint_left]
    intro tokenId h h'
    exact hne (h.symm.trans h')
  have hsubset : {tokenId | t.owners tokenId = a} ∪ {tokenId | t.owners tokenId = b} ⊆
      {tokenId | t.owners tokenId ≠ 0} := by
    rintro tokenId (h | h)
    · exact fun hzero => ha (h.symm.trans hzero)
    · exact fun hzero => hb (h.symm.trans hzero)
  have hle := Set.encard_le_encard hsubset
  rw [Set.encard_union_eq hdisjoint, hl.encard_owned ha, hl.encard_owned hb, hl.encard_existing]
    at hle
  exact_mod_cast hle

/-- Tokens moved one after the other from one account to another. -/
theorem NounsToken.transferAll_balances {proxies : Address → Address} {now : Nat}
    {operator from_ to_ : Address} {tokenIds : List Nat} {n n' : NounsToken} (hfrom : from_ ≠ 0)
    (hto : to_ ≠ 0)
    (h : tokenIds.foldlM (fun nouns tokenId =>
      NounsToken.transferFrom nouns proxies now operator from_ to_ tokenId) n = .ok n') :
    n'.totalSupply = n.totalSupply ∧ ∀ a, a ≠ 0 →
      n'.balances a + (if from_ = a then tokenIds.length else 0) =
        n.balances a + (if to_ = a then tokenIds.length else 0) := by
  induction tokenIds generalizing n with
  | nil =>
    simp only [List.foldlM_nil, pure_eq_ok] at h
    subst h
    simp
  | cons tokenId tokenIds ih =>
    rw [List.foldlM_cons, bind_eq_ok] at h
    obtain ⟨n₁, hone, hrest⟩ := h
    have hmoved := transferFrom_moved hone
    obtain ⟨hsupply, hbalances⟩ := ih hrest
    refine ⟨?_, ?_⟩
    · rw [hsupply, Token.totalSupply, hmoved.kept hfrom hto]
      rfl
    · intro a ha
      have h₁ := hmoved.balances a ha
      have h₂ := hbalances a ha
      rw [List.length_cons]
      split_ifs at h₁ h₂ ⊢ <;> omega

namespace World

variable {d : Deployment H} {w w' v u : World H} {payout : Payout}

def adjustedTotalSupply (d : Deployment H) (w : World H) : Tx Nat :=
  w.dao.adjustedTotalSupply (w.env d)

/-- `supply` counts all tokens but those of the timelock and those the escrow holds for the DAO. -/
structure Supply (w : World H) (supply : Nat) : Prop where
  timelock : w.dao.timelock ≠ 0
  forkEscrow : w.dao.forkEscrow ≠ 0
  le : (w.escrows w.dao.forkEscrow).numTokensInEscrow ≤ w.nouns.balances w.dao.forkEscrow
  sum : supply + w.nouns.balances w.dao.timelock + w.nouns.balances w.dao.forkEscrow =
    w.nouns.totalSupply + (w.escrows w.dao.forkEscrow).numTokensInEscrow

theorem adjustedTotalSupply_eq_ok {supply : Nat} :
    w.adjustedTotalSupply d = .ok supply ↔ w.Supply supply := by
  simp only [adjustedTotalSupply, StorageV3.adjustedTotalSupply, ForkEscrow.numTokensOwnedByDAO,
    Token.balanceOf, env, bind_eq_ok, require_eq_ok, pure_eq_ok, checkedSub_eq_ok]
  constructor
  · rintro ⟨_, ⟨_, htimelock, rfl⟩, _, ⟨hle₁, rfl⟩, _, ⟨_, ⟨_, hescrow, rfl⟩, hle, rfl⟩, hle₂, rfl⟩
    exact ⟨htimelock, hescrow, hle, by omega⟩
  · rintro ⟨htimelock, hescrow, hle, hsum⟩
    exact ⟨_, ⟨(), htimelock, rfl⟩, _, ⟨by omega, rfl⟩, _, ⟨_, ⟨(), hescrow, rfl⟩, hle, rfl⟩,
      by omega, by omega⟩

/-- What the DAO owns of an asset. -/
def treasury (w : World H) (asset : Asset) : Nat := w.balance asset w.dao.timelock

/-! ## One call -/

/-- A call paid `newDAOTreasury` for `tokenCount` tokens out of `totalSupply`, and left the
addresses and the assets as they were. -/
structure Paid (d : Deployment H) (newDAOTreasury : Address) (tokenCount totalSupply : Nat)
    (w w' : World H) : Prop where
  supply : w.adjustedTotalSupply d = .ok totalSupply
  pos : 0 < totalSupply
  timelock : w'.dao.timelock = w.dao.timelock
  forkEscrow : w'.dao.forkEscrow = w.dao.forkEscrow
  assets : w'.dao.erc20TokensToIncludeInFork = w.dao.erc20TokensToIncludeInFork
  split : ∀ asset, w.Splits asset → w'.treasury asset =
    if newDAOTreasury = w.dao.timelock then w.treasury asset
    else w.treasury asset - share (w.treasury asset) tokenCount totalSupply
  others : ∀ asset, ¬ w.Splits asset → w'.treasury asset = w.treasury asset

theorem PaidUpTo.split (h : PaidUpTo payout w w.dao.erc20TokensToIncludeInFork.length u)
    {asset : Asset} (hasset : w.Splits asset) :
    u.balance asset payout.timelock = payout.rest (w.balance asset payout.timelock) := by
  cases asset with
  | ETH => exact h.eth
  | ERC20 token => exact h.paid token (by rwa [List.take_length])

theorem PaidUpTo.others (h : PaidUpTo payout w w.dao.erc20TokensToIncludeInFork.length u)
    {asset : Asset} (hasset : ¬ w.Splits asset) :
    u.balance asset payout.timelock = w.balance asset payout.timelock := by
  cases asset with
  | ETH => exact absurd trivial hasset
  | ERC20 token => exact h.unpaid token (by rwa [List.take_length])

/-- The call is paid for once the loop is over; what follows touches neither addresses nor
balances. -/
theorem PaidUpTo.toPaid (h : PaidUpTo payout w w.dao.erc20TokensToIncludeInFork.length u)
    (htimelock : payout.timelock = w.dao.timelock)
    (hsupply : w.adjustedTotalSupply d = .ok payout.totalSupply) (hpos : payout.totalSupply ≠ 0)
    (haddresses : w'.dao.timelock = u.dao.timelock ∧ w'.dao.forkEscrow = u.dao.forkEscrow ∧
      w'.dao.erc20TokensToIncludeInFork = u.dao.erc20TokensToIncludeInFork)
    (heth : w'.eth = u.eth) (herc20 : w'.erc20 = u.erc20) :
    Paid d payout.newDAOTreasury payout.tokenCount payout.totalSupply w w' := by
  have hbalance : ∀ asset, w'.treasury asset = u.balance asset payout.timelock := by
    intro asset
    rw [treasury, haddresses.1, h.dao, ← htimelock]
    cases asset with
    | ETH => exact congrFun heth _
    | ERC20 token => exact congrFun (congrFun herc20 token) _
  rw [h.dao] at haddresses
  refine ⟨hsupply, Nat.pos_of_ne_zero hpos, haddresses.1, haddresses.2.1, haddresses.2.2, ?_, ?_⟩
  · intro asset hasset
    rw [hbalance, h.split hasset, treasury, ← htimelock]
    rfl
  · intro asset hasset
    rw [hbalance, h.others hasset, treasury, htimelock]

section Calls

variable [DecidableEq H] {sender : Account}

/-- A whole `executeFork` pays for the tokens in escrow, and closes it. -/
theorem Completes.executeFork (hnodup : w.dao.erc20TokensToIncludeInFork.Nodup)
    (h : Completes d sender .executeFork w w') :
    ∃ forkTreasury totalSupply,
      Paid d forkTreasury (w.escrows w.dao.forkEscrow).numTokensInEscrow totalSupply w w' ∧
      w'.nouns = w.nouns ∧
      w'.escrows w.dao.forkEscrow = (w.escrows w.dao.forkEscrow).closeEscrow := by
  obtain ⟨tx, w₁, hstep, hunwinds⟩ := h
  simp only [step, bind_eq_ok] at hstep
  obtain ⟨v, henter, hcall⟩ := hstep
  obtain ⟨frames, -, rfl⟩ := enter_entered henter
  simp only [callDAO, World.executeFork, bind_eq_ok, revertIf_eq_ok, pure_eq_ok] at hcall
  obtain ⟨-, -, -, -, -, -, rfl⟩ := hcall
  obtain ⟨forkTreasury, forkToken, v, hresume, hunwinds⟩ := hunwinds.of_callOut rfl
  simp only [resume, bind_eq_ok] at hresume
  obtain ⟨totalSupply, hsupply, hpay⟩ := hresume
  have hpos : totalSupply ≠ 0 := by
    simp only [sendProRataTreasury, bind_eq_ok, require_eq_ok] at hpay
    obtain ⟨-, hpos, -⟩ := hpay
    exact hpos
  obtain ⟨u, u', hpaid, hframes, hend, hunwinds⟩ :=
    hunwinds.of_sendProRataTreasury hnodup ⟨_, rfl⟩ rfl hpay
  simp only [endPayout, pure_eq_ok] at hend
  obtain rfl : w' = u' := by
    refine hunwinds.of_done ?_
    rw [← hend]
    exact hframes
  rw [← hend]
  refine ⟨forkTreasury, totalSupply, ?_, ?_, ?_⟩
  · exact hpaid.toPaid rfl hsupply hpos ⟨rfl, rfl, rfl⟩ rfl rfl
  · obtain ⟨executors, eth, erc20, frames, rfl⟩ := hpaid.same
    rfl
  · obtain ⟨executors, eth, erc20, frames, rfl⟩ := hpaid.same
    exact Function.update_self _ _ _

/-- A whole `joinFork` pays for the tokens it lists, and moves them to the timelock. -/
theorem Completes.joinFork (hnodup : w.dao.erc20TokensToIncludeInFork.Nodup)
    {tokenIds proposalIds : List Nat} {reason : String}
    (h : Completes d sender (.joinFork tokenIds proposalIds reason) w w') :
    ∃ totalSupply, Paid d w.dao.forkDAOTreasury tokenIds.length totalSupply w w' ∧
      w'.dao.forkDAOTreasury = w.dao.forkDAOTreasury ∧ w'.escrows = w.escrows ∧
      tokenIds.foldlM (fun nouns tokenId => NounsToken.transferFrom nouns w.outside.proxies
        w.blockNumber d.dao sender w.dao.timelock tokenId) w.nouns = .ok w'.nouns := by
  obtain ⟨tx, w₁, hstep, hunwinds⟩ := h
  simp only [step, bind_eq_ok] at hstep
  obtain ⟨v, henter, hcall⟩ := hstep
  obtain ⟨frames, -, rfl⟩ := enter_entered henter
  simp only [callDAO, World.joinFork, bind_eq_ok] at hcall
  obtain ⟨-, -, totalSupply, hsupply, hpay⟩ := hcall
  obtain ⟨hpos, hframes⟩ : totalSupply ≠ 0 ∧ w₁.frames.length - 1 = frames.length := by
    simp only [sendProRataTreasury, bind_eq_ok, require_eq_ok, pure_eq_ok] at hpay
    obtain ⟨-, hpos, -, -, v, hsend, rfl⟩ := hpay
    exact ⟨hpos, congrArg List.length (sendValue_quiet hsend).2.2⟩
  rw [hframes] at hunwinds
  obtain ⟨u, u', hpaid, hframes, hend, hunwinds⟩ :=
    hunwinds.of_sendProRataTreasury hnodup ⟨_, rfl⟩ rfl hpay
  simp only [endPayout, joinForkTransfers, bind_eq_ok, pure_eq_ok] at hend
  obtain ⟨nouns, hnouns, rfl⟩ := hend
  obtain ⟨_, _, u', hresume, hunwinds⟩ := hunwinds.of_callOut (v := { u with nouns }) hframes
  simp only [resume, bind_eq_ok, pure_eq_ok] at hresume
  obtain ⟨_, -, hemit⟩ := hresume
  obtain rfl : w' = u' := by
    refine hunwinds.of_done ?_
    rw [← hemit]
    exact hframes
  rw [← hemit]
  refine ⟨totalSupply, hpaid.toPaid rfl hsupply hpos ⟨rfl, rfl, rfl⟩ rfl rfl, ?_⟩
  obtain ⟨executors, eth, erc20, frames, rfl⟩ := hpaid.same
  exact ⟨rfl, rfl, hnouns⟩

end Calls

/-! ## The supply after a call -/

/-- An account whose tokens the adjusted supply counts. -/
def Counted (w : World H) (a : Address) : Prop := a ≠ w.dao.timelock ∧ a ≠ w.dao.forkEscrow

/-- The tokens in escrow are the DAO's once it is closed. -/
theorem Supply.of_closed {supply : Nat} (h : w.Supply supply) (hledger : w.nouns.toToken.Ledger)
    (hapart : w.dao.timelock ≠ w.dao.forkEscrow) (htimelock : w'.dao.timelock = w.dao.timelock)
    (hescrow : w'.dao.forkEscrow = w.dao.forkEscrow) (hnouns : w'.nouns = w.nouns)
    (hclosed : w'.escrows w.dao.forkEscrow = (w.escrows w.dao.forkEscrow).closeEscrow) :
    ∃ s, w'.Supply s ∧ s + (w.escrows w.dao.forkEscrow).numTokensInEscrow = supply := by
  have hle := hledger.balances_add_le h.timelock h.forkEscrow hapart
  have hsum := h.sum
  refine ⟨supply - (w.escrows w.dao.forkEscrow).numTokensInEscrow, ?_, by omega⟩
  constructor
  · rw [htimelock]
    exact h.timelock
  · rw [hescrow]
    exact h.forkEscrow
  · rw [hescrow, hclosed]
    exact Nat.zero_le _
  · rw [hescrow, hclosed, htimelock, hnouns]
    change _ = _ + 0
    omega

section Joined

variable {supply : Nat} {sender : Address} {tokenIds : List Nat} {proxies : Address → Address}
  {now : Nat} (h : w.Supply supply) (hapart : w.dao.timelock ≠ w.dao.forkEscrow)
  (htimelock : w'.dao.timelock = w.dao.timelock) (hescrow : w'.dao.forkEscrow = w.dao.forkEscrow)
  (hescrows : w'.escrows = w.escrows) (hsender : sender ≠ 0)
  (hmove : tokenIds.foldlM (fun nouns tokenId => NounsToken.transferFrom nouns proxies now d.dao
    sender w.dao.timelock tokenId) w.nouns = .ok w'.nouns)

include h hapart htimelock hescrow hescrows hsender hmove

/-- The tokens of a join are the DAO's afterwards. -/
theorem Supply.of_joined (hledger : w'.nouns.toToken.Ledger) (hcounted : w.Counted sender) :
    ∃ s, w'.Supply s ∧ s + tokenIds.length = supply := by
  obtain ⟨htotal, hbalances⟩ := NounsToken.transferAll_balances hsender h.timelock hmove
  have htl := hbalances _ h.timelock
  have hesc := hbalances _ h.forkEscrow
  rw [if_neg hcounted.1, if_pos rfl] at htl
  rw [if_neg hcounted.2, if_neg hapart] at hesc
  have hadd := hledger.balances_add_le h.timelock h.forkEscrow hapart
  have hsum := h.sum
  have hle := h.le
  refine ⟨supply - tokenIds.length, ?_, by omega⟩
  constructor
  · rw [htimelock]
    exact h.timelock
  · rw [hescrow]
    exact h.forkEscrow
  · rw [hescrow, hescrows]
    omega
  · rw [hescrow, hescrows, htimelock]
    omega

/-- When the DAO itself joins, they were the DAO's before. -/
theorem Supply.joined_cases {s : Nat} (h' : w'.Supply s) :
    s = supply ∨ s + tokenIds.length = supply := by
  obtain ⟨htotal, hbalances⟩ := NounsToken.transferAll_balances hsender h.timelock hmove
  have htl := hbalances _ h.timelock
  have hesc := hbalances _ h.forkEscrow
  rw [if_pos rfl] at htl
  rw [if_neg hapart] at hesc
  have hsum := h.sum
  have hsum' := h'.sum
  have hle := h'.le
  rw [hescrow, hescrows, htimelock] at hsum'
  rw [hescrow, hescrows] at hle
  by_cases hown : sender = w.dao.timelock
  · rw [if_pos hown] at htl
    rw [if_neg (hown ▸ hapart)] at hesc
    left
    omega
  · rw [if_neg hown] at htl
    split at hesc
    · left
      omega
    · right
      omega

end Joined

/-! ## What is left -/

namespace Paid

variable {newDAOTreasury : Address} {tokenCount totalSupply : Nat}

/-- At most the share is sent. -/
theorem exists_sent (h : Paid d newDAOTreasury tokenCount totalSupply w w') (asset : Asset) :
    ∃ sent, sent ≤ share (w.treasury asset) tokenCount totalSupply ∧
      w'.treasury asset = w.treasury asset - sent := by
  by_cases hasset : w.Splits asset
  · rw [h.split asset hasset]
    split
    · exact ⟨0, Nat.zero_le _, rfl⟩
    · exact ⟨_, Nat.le_refl _, rfl⟩
  · exact ⟨0, Nat.zero_le _, h.others asset hasset⟩

theorem treasury_le (h : Paid d newDAOTreasury tokenCount totalSupply w w') (asset : Asset) :
    w.treasury asset ≤ w'.treasury asset + w.treasury asset * tokenCount / totalSupply := by
  obtain ⟨sent, hsent, hleft⟩ := h.exists_sent asset
  rw [share] at hsent
  omega

theorem ratio_le (h : Paid d newDAOTreasury tokenCount totalSupply w w') (asset : Asset) {s : Nat}
    (hs : s + tokenCount = totalSupply) :
    w.treasury asset * s ≤ w'.treasury asset * totalSupply := by
  obtain ⟨sent, hsent, hleft⟩ := h.exists_sent asset
  have hrest := le_rest hsent
  rwa [← hs, Nat.add_sub_cancel, hs, ← hleft] at hrest

/-- Two payments to one treasury leave at least as much as one for all the tokens. -/
theorem two_le {w₁ w₂ : World H} {count₁ count₂ supply₁ : Nat}
    (h : Paid d newDAOTreasury (count₁ + count₂) totalSupply w w')
    (h₁ : Paid d newDAOTreasury count₁ totalSupply w w₁)
    (h₂ : Paid d newDAOTreasury count₂ supply₁ w₁ w₂)
    (hsupply : supply₁ = totalSupply ∨ supply₁ + count₁ = totalSupply) (asset : Asset) :
    w'.treasury asset ≤ w₂.treasury asset := by
  have hsplits : w₁.Splits asset ↔ w.Splits asset := by
    cases asset with
    | ETH => exact Iff.rfl
    | ERC20 token =>
      simp only [Splits]
      rw [h₁.assets]
  by_cases hasset : w.Splits asset
  · rw [h.split asset hasset, h₂.split asset (hsplits.mpr hasset), h₁.timelock,
      h₁.split asset hasset]
    split
    · exact Nat.le_refl _
    · exact rest_le_rest h.pos (by omega)
  · rw [h.others asset hasset, h₂.others asset (hsplits.not.mpr hasset), h₁.others asset hasset]

end Paid

/-! ## Sequences of calls -/

section Runs

variable [DecidableEq H]

theorem Unwinds.steps {depth : Nat} (h : Unwinds d depth w w') :
    Relation.ReflTransGen (NextAny d) w w' := by
  induction h with
  | done _ => exact .refl
  | return_ forkTreasury forkToken _ hstep _ ih =>
    exact .head (.step (.return_ forkTreasury forkToken) trivial hstep) ih

theorem Completes.steps {sender : Account} {call : DAOCall} (h : Completes d sender call w w') :
    Relation.ReflTransGen (NextAny d) w w' := by
  obtain ⟨tx, w₁, hstep, hunwinds⟩ := h
  exact .head (.step (.callDAO tx sender call) trivial hstep) hunwinds.steps

/-- A whole call for `k` tokens, by an account that `joins` allows if it joins. -/
inductive ForkCall (d : Deployment H) (joins : World H → Address → Prop) (w : World H) :
    Nat → World H → Prop
  | executeFork {w' : World H} (sender : Account) : Completes d sender .executeFork w w' →
      ForkCall d joins w (w.escrows w.dao.forkEscrow).numTokensInEscrow w'
  | joinFork {w' : World H} (sender : Account) (tokenIds proposalIds : List Nat) (reason : String) :
      joins w sender → Completes d sender (.joinFork tokenIds proposalIds reason) w w' →
      ForkCall d joins w tokenIds.length w'

/-- A whole `joinFork` with these tokens, by anybody. -/
def Joins (d : Deployment H) (tokenIds : List Nat) (w w' : World H) : Prop :=
  ∃ sender proposalIds reason, Completes d sender (.joinFork tokenIds proposalIds reason) w w'

theorem Joins.two_le {ids₁ ids₂ ids : List Nat} {w₁ w₂ : World H}
    (hnodup : w.dao.erc20TokensToIncludeInFork.Nodup)
    (hapart : w.dao.timelock ≠ w.dao.forkEscrow) (h₁ : Joins d ids₁ w w₁)
    (h₂ : Joins d ids₂ w₁ w₂) (h : Joins d ids w w') (hlen : ids.length = ids₁.length + ids₂.length)
    (asset : Asset) : w'.treasury asset ≤ w₂.treasury asset := by
  obtain ⟨sender₁, _, _, h₁⟩ := h₁
  obtain ⟨_, _, _, h₂⟩ := h₂
  obtain ⟨_, _, _, h⟩ := h
  obtain ⟨s₁, hpaid₁, hfork, hescrows, hmove⟩ := h₁.joinFork hnodup
  obtain ⟨s₂, hpaid₂, -⟩ := h₂.joinFork (hpaid₁.assets ▸ hnodup)
  obtain ⟨s, hpaid, -⟩ := h.joinFork hnodup
  -- both joins from `w` divide by the supply of `w`
  obtain rfl : s₁ = s := by
    have hsupply := hpaid₁.supply
    rw [hpaid.supply] at hsupply
    exact (Except.ok.inj hsupply).symm
  have hsupply := (adjustedTotalSupply_eq_ok.mp hpaid₁.supply).joined_cases hapart hpaid₁.timelock
    hpaid₁.forkEscrow hescrows sender₁.2 hmove (adjustedTotalSupply_eq_ok.mp hpaid₂.supply)
  rw [hfork] at hpaid₂
  rw [hlen] at hpaid
  exact hpaid.two_le hpaid₁ hpaid₂ hsupply asset

theorem ForkCall.steps {joins : World H → Address → Prop} {k : Nat}
    (h : ForkCall d joins w k w') : Relation.ReflTransGen (NextAny d) w w' := by
  cases h with
  | executeFork _ h => exact h.steps
  | joinFork _ _ _ _ _ h => exact h.steps

theorem ForkCall.paid {joins : World H → Address → Prop} {k : Nat}
    (hnodup : w.dao.erc20TokensToIncludeInFork.Nodup) (h : ForkCall d joins w k w') :
    ∃ newDAOTreasury totalSupply, Paid d newDAOTreasury k totalSupply w w' := by
  cases h with
  | executeFork _ h =>
    obtain ⟨forkTreasury, totalSupply, hpaid, -, -⟩ := h.executeFork hnodup
    exact ⟨forkTreasury, totalSupply, hpaid⟩
  | joinFork _ _ _ _ _ h =>
    obtain ⟨totalSupply, hpaid, -⟩ := h.joinFork hnodup
    exact ⟨_, totalSupply, hpaid⟩

/-- The `k` tokens of the call leave the supply. -/
theorem ForkCall.supply {k s : Nat} (hnodup : w.dao.erc20TokensToIncludeInFork.Nodup)
    (hapart : w.dao.timelock ≠ w.dao.forkEscrow) (hledger : w.nouns.toToken.Ledger)
    (hledger' : w'.nouns.toToken.Ledger) (h : ForkCall d Counted w k w') (hs : w.Supply s) :
    ∃ s', w'.Supply s' ∧ s' + k = s := by
  cases h with
  | executeFork _ h =>
    obtain ⟨_, _, hpaid, hnouns, hclosed⟩ := h.executeFork hnodup
    exact hs.of_closed hledger hapart hpaid.timelock hpaid.forkEscrow hnouns hclosed
  | joinFork sender _ _ _ hcounted h =>
    obtain ⟨_, hpaid, -, hescrows, hmove⟩ := h.joinFork hnodup
    exact hs.of_joined hapart hpaid.timelock hpaid.forkEscrow hescrows sender.2 hmove hledger'
      hcounted

/-- Anything else happens, that takes nothing from the treasury and leaves the supply. -/
structure Between (d : Deployment H) (w w' : World H) : Prop where
  next : NextAny d w w'
  timelock : w'.dao.timelock = w.dao.timelock
  forkEscrow : w'.dao.forkEscrow = w.dao.forkEscrow
  supply : w'.adjustedTotalSupply d = w.adjustedTotalSupply d
  treasury : ∀ asset, w.treasury asset ≤ w'.treasury asset

/-- The next call of a sequence of `executeFork` and `joinFork`, or what happens between two. -/
def NextFork (d : Deployment H) (w w' : World H) : Prop :=
  (∃ k, ForkCall d Counted w k w') ∨ Between d w w'

theorem NextFork.steps (h : NextFork d w w') : Relation.ReflTransGen (NextAny d) w w' := by
  rcases h with ⟨_, hcall⟩ | hbetween
  · exact hcall.steps
  · exact .single hbetween.next

/-- The token comes from a run of its own, and no ERC20 tokens are listed yet. -/
structure StartSplit (d : Deployment H) (w : World H) : Prop extends StartWithToken d w where
  assets : w.dao.erc20TokensToIncludeInFork = []

theorem ledger_of_reachable (hr : Reachable (StartSplit d) (NextAny d) w) :
    w.nouns.toToken.Ledger :=
  (funded_of_reachable (hr.mono (fun _ h => h.toStartWithToken) (fun _ _ h => h))).ledger

theorem assets_nodup (hr : Reachable (StartSplit d) (NextAny d) w) :
    w.dao.erc20TokensToIncludeInFork.Nodup := by
  refine hr.invariant (P := fun w => w.dao.erc20TokensToIncludeInFork.Nodup) ?_ ?_
  · intro w hw
    rw [hw.assets]
    exact List.nodup_nil
  · intro w w' hr hnodup hn
    have hwf := wf_of_start (hr.mono (fun _ h => h.toStartWithToken) (fun _ _ h => h))
    rcases (hn.settings hwf).2.2 with heq | hnew
    · rw [heq]
      exact hnodup
    · exact hnew

/-- The supply and the ratio of one asset to it, compared with those at the start. -/
structure NotDiluted (d : Deployment H) (asset : Asset) (w₀ : World H) (s₀ : Nat) (w : World H) :
    Prop where
  apart : w.dao.timelock ≠ w.dao.forkEscrow
  ratio : ∃ s, w.Supply s ∧ w₀.treasury asset * s ≤ w.treasury asset * s₀

theorem NotDiluted.next {asset : Asset} {w₀ : World H} {s₀ : Nat}
    (hr : Reachable (StartSplit d) (NextAny d) w) (h : NotDiluted d asset w₀ s₀ w)
    (hn : NextFork d w w') : NotDiluted d asset w₀ s₀ w' := by
  obtain ⟨s, hs, hratio⟩ := h.ratio
  rcases hn with ⟨k, hcall⟩ | hbetween
  · obtain ⟨newDAOTreasury, totalSupply, hpaid⟩ := hcall.paid (assets_nodup hr)
    obtain ⟨s', hs', hsum⟩ := hcall.supply (assets_nodup hr) h.apart (ledger_of_reachable hr)
      (ledger_of_reachable (hr.steps hcall.steps)) hs
    have heq : totalSupply = s := by
      have hsupply := hpaid.supply
      rw [adjustedTotalSupply_eq_ok.mpr hs] at hsupply
      exact (Except.ok.inj hsupply).symm
    subst heq
    refine ⟨?_, s', hs', ?_⟩
    · rw [hpaid.timelock, hpaid.forkEscrow]
      exact h.apart
    · exact ratio_trans hratio (hpaid.ratio_le asset hsum)
        (fun hzero => absurd hzero (Nat.ne_of_gt hpaid.pos))
  · refine ⟨?_, s, ?_, ?_⟩
    · rw [hbetween.timelock, hbetween.forkEscrow]
      exact h.apart
    · rw [← adjustedTotalSupply_eq_ok (d := d), hbetween.supply, adjustedTotalSupply_eq_ok]
      exact hs
    · exact Nat.le_trans hratio (Nat.mul_le_mul_right s₀ (hbetween.treasury asset))

theorem NotDiluted.steps {asset : Asset} {w₀ : World H} {s₀ : Nat}
    (hr : Reachable (StartSplit d) (NextAny d) w) (h : NotDiluted d asset w₀ s₀ w)
    (hsteps : Relation.ReflTransGen (NextFork d) w w') : NotDiluted d asset w₀ s₀ w' := by
  have hboth : Reachable (StartSplit d) (NextAny d) w' ∧ NotDiluted d asset w₀ s₀ w' := by
    refine steps_preserve (P := fun v => Reachable (StartSplit d) (NextAny d) v ∧
      NotDiluted d asset w₀ s₀ v) hsteps ⟨hr, h⟩ ?_
    rintro v v' ⟨hv, hdiluted⟩ hn
    exact ⟨hv.steps hn.steps, hdiluted.next hv hn⟩
  exact hboth.2

/-- In every state of a run, no asset is listed twice.  A whole `executeFork` or `joinFork` for `k`
tokens takes at most `B * k / S` of each asset.  A sequence of them in which the DAO itself does not
join leaves as much of each asset per token as there was; and joining in two parts takes no more
than joining at once. -/
theorem fork_split_fair (hr : Reachable (StartSplit d) (NextAny d) w) :
    w.dao.erc20TokensToIncludeInFork.Nodup ∧
    ∀ s, w.adjustedTotalSupply d = .ok s → 0 < s → w.dao.timelock ≠ w.dao.forkEscrow → ∀ asset,
      (∀ k w', ForkCall d (fun _ _ => True) w k w' →
        w.treasury asset ≤ w'.treasury asset + w.treasury asset * k / s) ∧
      (∀ w', Relation.ReflTransGen (NextFork d) w w' → ∃ s', w'.adjustedTotalSupply d = .ok s' ∧
        w.treasury asset * s' ≤ w'.treasury asset * s) ∧
      (∀ ids₁ ids₂ ids w₁ w₂ w', Joins d ids₁ w w₁ → Joins d ids₂ w₁ w₂ → Joins d ids w w' →
        ids.length = ids₁.length + ids₂.length → w'.treasury asset ≤ w₂.treasury asset) := by
  refine ⟨assets_nodup hr, ?_⟩
  intro s hs _ hapart asset
  refine ⟨?_, ?_, ?_⟩
  · intro k w' hcall
    obtain ⟨newDAOTreasury, totalSupply, hpaid⟩ := hcall.paid (assets_nodup hr)
    have hsupply := hpaid.supply
    rw [hs] at hsupply
    cases hsupply
    exact hpaid.treasury_le asset
  · intro w' hsteps
    have hstart : NotDiluted d asset w s w :=
      ⟨hapart, s, adjustedTotalSupply_eq_ok.mp hs, Nat.le_refl _⟩
    obtain ⟨s', hs', hratio⟩ := (hstart.steps hr hsteps).ratio
    exact ⟨s', adjustedTotalSupply_eq_ok.mpr hs', hratio⟩
  · intro ids₁ ids₂ ids w₁ w₂ w' h₁ h₂ h hlen
    exact Joins.two_le (assets_nodup hr) hapart h₁ h₂ h hlen asset

end Runs

theorem sample_startSplit : World.sample.StartSplit .sample :=
  ⟨⟨World.sample_fresh, .start ⟨102, 8, 7, rfl⟩⟩, rfl⟩

/-- 7 escrows one of two Nouns and executes the fork; half of the ETH is sent. -/
theorem fork_split_fair_of_half :
    ∃ w w', Reachable (StartSplit .sample) (NextAny .sample) w ∧
      w.adjustedTotalSupply .sample = .ok 2 ∧ ForkCall .sample Counted w 1 w' ∧
      w'.treasury .ETH = 5 * 10 ^ 17 ∧
      w.treasury .ETH ≤ w'.treasury .ETH + w.treasury .ETH * 1 / 2 ∧
      ∃ s', w'.adjustedTotalSupply .sample = .ok s' ∧
        w.treasury .ETH * s' ≤ w'.treasury .ETH * 2 := by
  have hrun : Yields (World.sample.run .sample (fun _ _ _ => True)
      [.callToken .minter .mint, .callToken .minter (.setApprovalForAll 100 true),
        .ofDAO .minter (.escrowToFork [1] [] "")])
      (fun w => w.adjustedTotalSupply .sample = .ok 2 ∧ w.dao.timelock ≠ w.dao.forkEscrow ∧
        (w.escrows w.dao.forkEscrow).numTokensInEscrow = 1 ∧
        Yields (w.step .sample (.ofDAO .minter .executeFork)) (fun w₁ => w₁.frames.length = 1 ∧
          Yields (w₁.step .sample (.return_ 200 201)) (fun w₂ => w₂.frames.length = 1 ∧
            Yields (w₂.step .sample (.return_ 0 0)) (fun w' => w'.frames.length = 0 ∧
              w'.treasury .ETH = 5 * 10 ^ 17)))) := by
    decide +kernel
  obtain ⟨w, hw, hsupply, hapart, hcount, w₁, h₁, hlen₁, w₂, h₂, hlen₂, w', h', hlen', heth⟩ := hrun
  have hr : Reachable (StartSplit .sample) (NextAny .sample) w := by
    refine ⟨World.sample, sample_startSplit, run_steps ?_ hw⟩
    exact fun w a w' hstep _ => .step a trivial hstep
  have hcall (joins : World Preimage → Address → Prop) : ForkCall .sample joins w 1 w' := by
    rw [← hcount]
    refine .executeFork .minter ⟨_, w₁, h₁, ?_⟩
    rw [hlen₁]
    exact .return_ 200 201 (by omega) h₂ (.return_ 0 0 (by omega) h' (.done hlen'))
  obtain ⟨-, hfair⟩ := fork_split_fair hr
  obtain ⟨hle, hratio, -⟩ := hfair 2 hsupply (by decide) hapart .ETH
  exact ⟨w, w', hr, hsupply, hcall _, heth, hle 1 w' (hcall _),
    hratio w' (.single (.inl ⟨1, hcall _⟩))⟩

/-- Arguments of one word each, all below 256. -/
def abiWords (args : Bytes) : Bytes := args.flatMap (fun n => List.replicate 31 0 ++ [n])

/-- The timelock owns Noun 2.  Its proposal executes the fork and then joins it with that Noun: all
of the ETH is sent, and the Nouns that others hold are as many as before. -/
theorem dao_joins_own_fork :
    ∃ w w' s s', Reachable (StartSplit .sample) (NextAny .sample) w ∧
      w.dao.timelock ≠ w.dao.forkEscrow ∧ w.adjustedTotalSupply .sample = .ok s ∧ 0 < s ∧
      Completes .sample ⟨102, by decide⟩ (.joinFork [2] [] "") w w' ∧
      w'.adjustedTotalSupply .sample = .ok s' ∧
      ¬ w.treasury .ETH * s' ≤ w'.treasury .ETH * s := by
  have hrun : Yields (World.sample.run .sample (fun _ _ _ => True)
      ([.callToken .minter .mint] ++ queuedProposal ⟨[101, 100, 100], [0, 0, 0],
          ["setApprovalForAll(address,bool)", "executeFork()",
            "joinFork(uint256[],uint256[],string)"],
          [abiWords [100, 1], [], abiWords [96, 160, 192, 1, 2, 0, 0]]⟩ ++
        [.callToken .minter (.transferFrom 7 102 2), .ofDAO .minter (.execute 1),
          .callToken ⟨102, by decide⟩ (.setApprovalForAll 100 true), .return_ 0 0,
          .ofDAO ⟨102, by decide⟩ .executeFork, .return_ 200 201, .return_ 0 0, .return_ 0 0]))
      (fun w => w.dao.timelock ≠ w.dao.forkEscrow ∧ w.adjustedTotalSupply .sample = .ok 1 ∧
        Yields (w.step .sample (.ofDAO ⟨102, by decide⟩ (.joinFork [2] [] "")))
          (fun w₁ => w₁.frames.length = 2 ∧
          Yields (w₁.step .sample (.return_ 0 0)) (fun w₂ => w₂.frames.length = 2 ∧
            Yields (w₂.step .sample (.return_ 0 0)) (fun w' => w'.frames.length = 1 ∧
              w'.adjustedTotalSupply .sample = .ok 1 ∧
              ¬ w.treasury .ETH * 1 ≤ w'.treasury .ETH * 1)))) := by
    decide +kernel
  obtain ⟨w, hw, hapart, hsupply, w₁, h₁, hlen₁, w₂, h₂, hlen₂, w', h', hlen', hsupply', hratio⟩ :=
    hrun
  refine ⟨w, w', 1, 1, ⟨World.sample, sample_startSplit, run_steps ?_ hw⟩, hapart, hsupply,
    by decide, ⟨_, w₁, h₁, ?_⟩, hsupply', hratio⟩
  · exact fun w a w' hstep _ => .step a trivial hstep
  · rw [hlen₁]
    exact .return_ 0 0 (by omega) h₂ (.return_ 0 0 (by omega) h' (.done hlen'))

end World

end Nouns
