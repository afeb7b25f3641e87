import Nouns.Subgraph.Holders

/-!
# HolderCounts — the counters of holders and the chain

`totalTokenHolders` is the supply.  `currentTokenHolders` is the number of accounts with an indexed
balance, and that includes the zero address from the first transfer to it on.
-/

open EntityStore EntityStore.Table Transition Relation GroupSums

namespace Nouns.Subgraph

open Token Store

/-! ## The supply -/

def SupplyIndexed (t : Token) : Prop :=
  (tokenIndexed t.log).getGovernanceEntity.totalTokenHolders = t.totalSupply

theorem LedgerStep.supplyIndexed {ok : Token → Address → Address → Prop} {now : Nat} {t t' : Token}
    (hstep : LedgerStep ok now t t') (hledger : t.Ledger) (h : SupplyIndexed t) :
    SupplyIndexed t' := by
  unfold SupplyIndexed at h ⊢
  cases hstep with
  | mint creator to_ tokenId t₁ hmoved hquiet hlog =>
    have hsupply := hmoved.totalSupply hledger
    have hto : to_ ≠ 0 := hmoved.someone.resolve_left (fun hne => hne rfl)
    have hsame := (sameHolders_of_quiet hquiet).totalTokenHolders
    rw [if_pos rfl, if_neg hto] at hsupply
    rw [hlog]
    refine (handleTransfer_totalTokenHolders ..).trans ?_
    rw [if_neg hto]
    have hfirst := handleTransfer_totalTokenHolders (s := tokenIndexed t₁.log) 0 creator tokenId
    rw [if_pos rfl, hsame, h] at hfirst
    change ((tokenIndexed t₁.log).handleTransfer 0 creator
      tokenId).getGovernanceEntity.totalTokenHolders + _ - _ = _
    omega
  | move from_ to_ tokenId t₁ hfrom hmoved hquiet hlog =>
    have hsupply := hmoved.totalSupply hledger
    have hsame := (sameHolders_of_quiet hquiet).totalTokenHolders
    rw [if_neg hfrom] at hsupply
    rw [hlog]
    refine (handleTransfer_totalTokenHolders ..).trans ?_
    rw [if_neg hfrom, hsame, h]
    split_ifs at hsupply ⊢ <;> omega
  | delegate delegator delegatee t₁ _ _ hdelegated hquiet hlog =>
    rw [(sameHolders_of_quiet hquiet).totalTokenHolders, hlog]
    refine (handleDelegateChanged_totalTokenHolders ..).trans ?_
    rw [h, totalSupply, totalSupply, hdelegated.allTokens]
  | quiet _ _ hallTokens _ _ hquiet =>
    rw [(sameHolders_of_quiet hquiet).totalTokenHolders, h, totalSupply, totalSupply, hallTokens]

/-! ## The number of holders -/

/-- How many of these balances are positive. -/
def positives (balance : Address → Int) : Nat := ∑ a, if 0 < balance a then 1 else 0

/-- One balance changes. -/
theorem positives_update {balance balance' : Address → Int} (a : Address)
    (hother : ∀ b, b ≠ a → balance' b = balance b) (hbefore : 0 ≤ balance a)
    (hafter : 0 ≤ balance' a) :
    (positives balance' : Int) = positives balance + holderChange (balance a) (balance' a) := by
  have hsum := sum_add_of_eq_off (fun b => if 0 < balance b then 1 else 0)
    (fun b => if 0 < balance' b then 1 else 0) a (fun b hb => by rw [hother b hb])
  unfold holderChange positives
  split_ifs at hsum ⊢ <;> omega

/-- The counter is the number of accounts with an indexed balance, the zero address among them. -/
structure HoldersCounted (s : Store) : Prop where
  nonneg : ∀ a, 0 ≤ (s.account a).tokenBalanceRaw
  counted : s.getGovernanceEntity.currentTokenHolders =
    positives fun a => (s.account a).tokenBalanceRaw

theorem HoldersCounted.of_same {s s' : Store} (h : HoldersCounted s) (hsame : SameHolders s s') :
    HoldersCounted s' := by
  refine ⟨fun a => ?_, ?_⟩
  · rw [hsame.account]
    exact h.nonneg a
  · rw [hsame.currentTokenHolders, h.counted]
    simp only [hsame.account]

theorem HoldersCounted.transfer {s : Store} (h : HoldersCounted s) {from_ to_ : Address}
    (hself : from_ = to_ → from_ = 0) (hheld : from_ ≠ 0 → 1 ≤ (s.account from_).tokenBalanceRaw)
    (tokenId : Nat) : HoldersCounted (s.handleTransfer from_ to_ tokenId) := by
  have hraw : ∀ a, ((s.handleTransfer from_ to_ tokenId).account a).tokenBalanceRaw =
      if a = to_ then (s.account to_).tokenBalanceRaw + 1
      else if a = from_ ∧ from_ ≠ 0 then (s.account from_).tokenBalanceRaw - 1
      else (s.account a).tokenBalanceRaw := by
    intro a
    rw [handleTransfer_account]
    split_ifs <;> rfl
  have hnonneg := h.nonneg
  refine ⟨fun a => ?_, ?_⟩
  · rw [hraw]
    split_ifs with hto hfrom
    · have := hnonneg to_
      omega
    · have := hheld hfrom.2
      omega
    · exact hnonneg a
  rw [handleTransfer_currentTokenHolders, h.counted]
  -- The balances once the sender was debited.
  obtain ⟨middle, hmiddle⟩ : ∃ r : Address → Int, r = fun a =>
      if a = from_ ∧ from_ ≠ 0 then (s.account from_).tokenBalanceRaw - 1
      else (s.account a).tokenBalanceRaw := ⟨_, rfl⟩
  have hsent : (positives middle : Int) =
      positives (fun a => (s.account a).tokenBalanceRaw) +
        if from_ = 0 then 0 else holderChange (s.account from_).tokenBalanceRaw
          ((s.account from_).tokenBalanceRaw - 1) := by
    by_cases hzero : from_ = 0
    · have hsame : middle = fun a => (s.account a).tokenBalanceRaw := by
        rw [hmiddle]
        funext a
        rw [if_neg (fun hfrom => hfrom.2 hzero)]
      rw [hsame, if_pos hzero, Int.add_zero]
    · have hvalue : middle from_ = (s.account from_).tokenBalanceRaw - 1 := by
        rw [hmiddle]
        exact if_pos ⟨rfl, hzero⟩
      have hone := hheld hzero
      rw [if_neg hzero, ← hvalue]
      refine positives_update from_ (fun b hb => ?_) (hnonneg from_) (by omega)
      rw [hmiddle]
      exact if_neg (fun hfrom => hb hfrom.1)
  have hto : middle to_ = (s.account to_).tokenBalanceRaw := by
    rw [hmiddle]
    exact if_neg (fun hfrom => hfrom.2 (hself hfrom.1.symm))
  have hreceived := @positives_update middle
    (fun a => ((s.handleTransfer from_ to_ tokenId).account a).tokenBalanceRaw) to_ ?_ ?_ ?_
  · rw [hreceived, hsent, hto, hraw, if_pos rfl]
  · intro b hb
    rw [hraw, if_neg hb, hmiddle]
  · rw [hto]
    exact hnonneg to_
  · rw [hraw, if_pos rfl]
    have := hnonneg to_
    omega

theorem HoldersCounted.delegate {s : Store} (h : HoldersCounted s)
    (delegator fromDelegate toDelegate : Address) :
    HoldersCounted (s.handleDelegateChanged delegator fromDelegate toDelegate) := by
  have hraw : ∀ a, ((s.handleDelegateChanged delegator fromDelegate
      toDelegate).account a).tokenBalanceRaw = (s.account a).tokenBalanceRaw := by
    intro a
    rw [handleDelegateChanged_account]
    by_cases ha : a = delegator
    · rw [if_pos ha, ha]
    · rw [if_neg ha]
  refine ⟨fun a => ?_, ?_⟩
  · rw [hraw]
    exact h.nonneg a
  · rw [handleDelegateChanged_currentTokenHolders, h.counted]
    simp only [hraw]

theorem LedgerStep.holdersCounted {ok : Token → Address → Address → Prop} {now : Nat} {t t' : Token}
    (hstep : LedgerStep ok now t t') (hbalances : BalancesIndexed t)
    (h : NoSelfTransfer t.log → HoldersCounted (tokenIndexed t.log))
    (hself : NoSelfTransfer t'.log) : HoldersCounted (tokenIndexed t'.log) := by
  cases hstep with
  | mint creator to_ tokenId t₁ hmoved hquiet hlog =>
    rw [hlog] at hself ⊢
    have h₁ := (h ((hself.older [_, _]).quietly hquiet)).of_same (sameHolders_of_quiet hquiet)
    have hself₂ : creator = to_ → creator = 0 := by
      rintro rfl
      by_contra hne
      exact hself creator tokenId hne List.mem_cons_self
    have h₂ : HoldersCounted ((tokenIndexed t₁.log).handleTransfer 0 creator tokenId) :=
      h₁.transfer (fun _ => rfl) (fun hne => absurd rfl hne) tokenId
    refine h₂.transfer hself₂ (fun _ => ?_) tokenId
    rw [handleTransfer_account, if_pos rfl]
    have := h₁.nonneg creator
    dsimp only [credited]
    omega
  | move from_ to_ tokenId t₁ hfrom hmoved hquiet hlog =>
    rw [hlog] at hself ⊢
    have hbefore := (hself.older [_]).quietly hquiet
    have h₁ := (h hbefore).of_same (sameHolders_of_quiet hquiet)
    have hne : from_ ≠ to_ := by
      rintro rfl
      exact hself from_ tokenId hfrom List.mem_cons_self
    refine h₁.transfer (fun heq => absurd heq hne) (fun _ => ?_) tokenId
    have hbalance := hmoved.balances from_ hfrom
    rw [if_pos rfl, if_neg hne.symm] at hbalance
    rw [(sameHolders_of_quiet hquiet).account, hbalances from_ hfrom]
    omega
  | delegate delegator delegatee t₁ _ _ hdelegated hquiet hlog =>
    have hself₁ := hself.quietly hquiet
    rw [hlog] at hself₁
    refine HoldersCounted.of_same ?_ (sameHolders_of_quiet hquiet)
    rw [hlog]
    exact (h (hself₁.older [_])).delegate delegator (t.delegates delegator) delegatee
  | quiet _ _ _ _ _ hquiet =>
    exact (h (hself.quietly hquiet)).of_same (sameHolders_of_quiet hquiet)

/-! ## The zero address -/

/-- How many transfers went to the zero address. -/
def transfersToZero (log : List TokenEvent) : Nat :=
  log.countP fun
    | .Transfer _ to_ _ => to_ = 0
    | _ => false

/-- The zero address is credited and never debited. -/
theorem zeroBalance_eq (log : List TokenEvent) :
    ((tokenIndexed log).account 0).tokenBalanceRaw = transfersToZero log := by
  induction log with
  | nil => rfl
  | cons e log ih =>
    rw [transfersToZero, List.countP_cons, ← transfersToZero]
    cases e with
    | Transfer from_ to_ tokenId =>
      refine (congrArg Account.tokenBalanceRaw (handleTransfer_account from_ to_ tokenId 0)).trans ?_
      by_cases hto : to_ = 0
      · subst hto
        simp [credited, ih]
      · have hfrom : ¬ (0 = from_ ∧ from_ ≠ 0) := fun h => h.2 h.1.symm
        rw [if_neg (Ne.symm hto), if_neg hfrom, ih]
        simp [hto]
    | DelegateChanged delegator fromDelegate toDelegate =>
      refine (congrArg Account.tokenBalanceRaw
        (handleDelegateChanged_account delegator fromDelegate toDelegate 0)).trans ?_
      by_cases hzero : (0 : Address) = delegator
      · rw [if_pos hzero, ← hzero]
        simpa using ih
      · rw [if_neg hzero]
        simpa using ih
    | DelegateVotesChanged delegate previousBalance newBalance =>
      refine (congrArg Account.tokenBalanceRaw
        ((handleDelegateVotesChanged_same delegate previousBalance newBalance).account 0)).trans ?_
      simpa using ih
    | _ =>
      change ((tokenIndexed log).account 0).tokenBalanceRaw = _
      simpa using ih

theorem transfersToZero_eq_zero {log : List TokenEvent} :
    transfersToZero log = 0 ↔ ∀ from_ tokenId, .Transfer from_ 0 tokenId ∉ log := by
  rw [transfersToZero, List.countP_eq_zero]
  constructor
  · intro h from_ tokenId hmem
    exact h _ hmem (by simp)
  · intro h e he hzero
    cases e with
    | Transfer from_ to_ tokenId =>
      simp only [decide_eq_true_eq] at hzero
      exact h from_ tokenId (hzero ▸ he)
    | _ => simp at hzero

/-! ## Counters over whole runs -/

variable {H : Type} {c : Crypto H} {n : Clocked NounsToken}

/-- The accounts with Nouns. -/
def tokenHolders (t : Token) : Finset Address := Finset.univ.filter fun a => a ≠ 0 ∧ 0 < t.balances a

/-- The two counters are the supply and the number of accounts with Nouns. -/
def MirrorsHolderCounts (s : Store) (t : Token) : Prop :=
  s.getGovernanceEntity.totalTokenHolders = t.totalSupply ∧
    s.getGovernanceEntity.currentTokenHolders = (tokenHolders t).card

/-- What is kept of a run without transfers to oneself. -/
structure CountsIndexed (t : Token) : Prop where
  ledger : t.Ledger
  balances : BalancesIndexed t
  supply : SupplyIndexed t
  holders : NoSelfTransfer t.log → HoldersCounted (tokenIndexed t.log)

theorem countsIndexed_of_reachable
    (h : Reachable NounsToken.Deployed (NounsToken.Next c fun _ _ => True) n) :
    CountsIndexed n.token.toToken := by
  refine NounsToken.ledger_invariant h ?_ (fun now t t' ht hstep => ?_)
  · refine ⟨empty_ledger, fun a _ => rfl, rfl, fun _ => ⟨fun a => le_rfl, ?_⟩⟩
    show (0 : Int) = (positives fun _ => 0 : Nat)
    simp only [positives, lt_irrefl, if_false, Finset.sum_const_zero, Nat.cast_zero]
  · exact ⟨hstep.ledger ht.ledger, LedgerStep.balancesIndexed hstep ht.balances,
      LedgerStep.supplyIndexed hstep ht.ledger ht.supply,
      LedgerStep.holdersCounted hstep ht.balances ht.holders⟩

/-- The zero address is the one account that is counted too many. -/
theorem positives_eq {s : Store} {t : Token}
    (h : ∀ a, a ≠ 0 → (s.account a).tokenBalanceRaw = t.balances a) :
    positives (fun a => (s.account a).tokenBalanceRaw) =
      (tokenHolders t).card + if 0 < (s.account 0).tokenBalanceRaw then 1 else 0 := by
  have hsum := sum_add_of_eq_off (fun a => if a ≠ 0 ∧ 0 < t.balances a then 1 else 0)
    (fun a => if 0 < (s.account a).tokenBalanceRaw then 1 else 0) 0 ?_
  · have hzero : ¬ ((0 : Address) ≠ 0 ∧ 0 < t.balances 0) := fun h => h.1 rfl
    rw [if_neg hzero, Nat.add_zero] at hsum
    rw [tokenHolders, Finset.card_filter, positives]
    exact hsum
  · intro a ha
    rw [h a ha]
    simp [ha]

/-- The counters in a run without transfers to oneself. -/
theorem holder_counts_of_reachable
    (h : Reachable NounsToken.Deployed (NounsToken.Next c fun _ _ => True) n)
    (hself : NoSelfTransfer n.token.log) {events : List Event}
    (hevents : tokenEvents events = n.token.log) {s : Store} (hindexed : indexed events = some s) :
    s.getGovernanceEntity.totalTokenHolders = n.token.totalSupply ∧
      s.getGovernanceEntity.currentTokenHolders =
        (tokenHolders n.token.toToken).card + if transfersToZero n.token.log = 0 then 0 else 1 := by
  have hsame := sameHolders_of_indexed hindexed
  rw [hevents] at hsame
  have hcounts := countsIndexed_of_reachable h
  have hbalances : ∀ a, a ≠ 0 →
      ((tokenIndexed n.token.log).account a).tokenBalanceRaw = n.token.balances a := by
    intro a ha
    have hnone : selfTransfers a n.token.log = 0 :=
      selfTransfers_eq_zero.mpr fun tokenId => hself a tokenId ha
    rw [hcounts.balances a ha, hnone]
    rfl
  have hcurrent := (hcounts.holders hself).counted
  rw [positives_eq hbalances, zeroBalance_eq] at hcurrent
  refine ⟨hsame.totalTokenHolders.trans hcounts.supply, ?_⟩
  rw [hsame.currentTokenHolders, hcurrent]
  split_ifs <;> omega

theorem mirrorsHolderCounts_iff_of_reachable
    (h : Reachable NounsToken.Deployed (NounsToken.Next c fun _ _ => True) n)
    (hself : NoSelfTransfer n.token.log) {events : List Event}
    (hevents : tokenEvents events = n.token.log) {s : Store} (hindexed : indexed events = some s) :
    MirrorsHolderCounts s n.token.toToken ↔ transfersToZero n.token.log = 0 := by
  obtain ⟨htotal, hcurrent⟩ := holder_counts_of_reachable h hself hevents hindexed
  rw [MirrorsHolderCounts, htotal, hcurrent]
  constructor
  · rintro ⟨-, heq⟩
    by_contra hne
    rw [if_neg hne] at heq
    omega
  · intro hzero
    rw [if_pos hzero, Int.add_zero]
    exact ⟨rfl, rfl⟩

/-- In every state of a run without transfers to oneself, the counters are those of the token if and
only if no transfer went to the zero address so far: no Noun was burned, and none was minted while
the token had no owner. -/
theorem holder_counts_mirrored_iff
    (h : Reachable NounsToken.Deployed (NounsToken.Next c fun _ _ => True) n)
    (hself : NoSelfTransfer n.token.log) {events : List Event}
    (hevents : tokenEvents events = n.token.log) {s : Store} (hindexed : indexed events = some s) :
    MirrorsHolderCounts s n.token.toToken ↔
      ∀ from_ tokenId, .Transfer from_ 0 tokenId ∉ n.token.log := by
  rw [← transfersToZero_eq_zero]
  exact mirrorsHolderCounts_iff_of_reachable h hself hevents hindexed

/-- The minter (7) mints Nouns 0 (to the founders, 8) and 1 and passes its own to 8. -/
theorem holder_counts_after_transfer :
    ∃ n : Clocked NounsToken,
      Reachable NounsToken.Deployed (NounsToken.Next Crypto.transparent fun _ _ => True) n ∧
      n.token.totalSupply = 2 ∧ MirrorsHolderCounts (tokenIndexed n.token.log) n.token.toToken := by
  have h₀ : Reachable NounsToken.Deployed (NounsToken.Next Crypto.transparent fun _ _ => True)
      ⟨1, 1, NounsToken.deploy 9 8 7⟩ := .start ⟨9, 8, 7, rfl⟩
  have h₁ := h₀.step (.call (fun _ => 0) (fun _ => .ok ()) ⟨7, by decide⟩ .mint trivial rfl)
  have h₂ := h₁.step (.call (fun _ => 0) (fun _ => .ok ()) ⟨7, by decide⟩ (.transferFrom 7 8 1)
    trivial rfl)
  refine ⟨_, h₂, rfl, ?_⟩
  refine (holder_counts_mirrored_iff h₂ (by decide) (indexed_tokenEvents _).1
    (indexed_tokenEvents _).2).mpr ?_
  rw [← transfersToZero_eq_zero]
  decide

/-- The minter (7) mints Nouns 0 (to the founders, 8) and 1 and burns its own: the zero address is
counted beside 8. -/
theorem holder_counts_not_mirrored_after_burn :
    ∃ n : Clocked NounsToken,
      Reachable NounsToken.Deployed (NounsToken.Next Crypto.transparent fun _ _ => True) n ∧
      NoSelfTransfer n.token.log ∧
      (tokenIndexed n.token.log).getGovernanceEntity.currentTokenHolders = 2 ∧
      ∃ events s, tokenEvents events = n.token.log ∧ indexed events = some s ∧
        ¬ MirrorsHolderCounts s n.token.toToken := by
  have h₀ : Reachable NounsToken.Deployed (NounsToken.Next Crypto.transparent fun _ _ => True)
      ⟨1, 1, NounsToken.deploy 9 8 7⟩ := .start ⟨9, 8, 7, rfl⟩
  have h₁ := h₀.step (.call (fun _ => 0) (fun _ => .ok ()) ⟨7, by decide⟩ .mint trivial rfl)
  have h₂ := h₁.step (.call (fun _ => 0) (fun _ => .ok ()) ⟨7, by decide⟩ (.burn 1) trivial rfl)
  refine ⟨_, h₂, by decide, by decide, _, _, (indexed_tokenEvents _).1, (indexed_tokenEvents _).2, ?_⟩
  intro hmirror
  have hzero := (mirrorsHolderCounts_iff_of_reachable h₂ (by decide) (indexed_tokenEvents _).1
    (indexed_tokenEvents _).2).mp hmirror
  revert hzero
  decide

end Nouns.Subgraph
