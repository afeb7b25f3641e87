import Nouns.Governance.EscrowSteps
import Mathlib.Data.Set.Card

/-!
# EscrowAccounting — the escrow's counter and the adjusted supply

`numTokensInEscrow` counts the Nouns recorded for the current fork, and these are all owned by the
escrow: what the escrow owns beyond them belongs to the DAO.  So the adjusted supply is the number
of Nouns that the DAO does not own.  The minter could burn a recorded Noun, which the escrow would
not notice; the results below are about runs in which it does not.
-/

open Fallible Transition

namespace Nouns

/-- The elements of a list that satisfy `P`, as a set. -/
theorem encard_setOf_eq_countP {α : Type} [DecidableEq α] {l : List α} (hl : l.Nodup) (P : α → Prop)
    [DecidablePred P] (hmem : ∀ x, P x → x ∈ l) :
    {x | P x}.encard = l.countP (fun x => P x) := by
  have hset : {x | P x} = ((l.filter (fun x => P x)).toFinset : Set α) := by
    ext x
    simp only [Set.mem_ofPred_eq, List.coe_toFinset, List.mem_filter, decide_eq_true_eq]
    exact ⟨fun h => ⟨hmem x h, h⟩, fun h => h.2⟩
  rw [hset, Set.encard_coe_eq_coe_finsetCard, List.toFinset_card_of_nodup (hl.filter _),
    List.countP_eq_length_filter]

namespace Token

variable {t : Token}

theorem Ledger.encard_owned (hl : Ledger t) {a : Address} (ha : a ≠ 0) :
    {tokenId | t.owners tokenId = a}.encard = t.balances a := by
  rw [encard_setOf_eq_countP hl.consistent.nodup (fun id => t.owners id = a), hl.balances_eq a ha,
    List.count, List.countP_map]
  · rfl
  · intro id hid
    rw [hl.listed, hid]
    exact ha

theorem Ledger.encard_existing (hl : Ledger t) :
    {tokenId | t.owners tokenId ≠ 0}.encard = t.totalSupply := by
  rw [encard_setOf_eq_countP hl.consistent.nodup (fun id => t.owners id ≠ 0)
    (fun id hid => (hl.listed id).mpr hid), List.countP_eq_length.mpr]
  · rfl
  · intro id hid
    simpa using (hl.listed id).mp hid

end Token

/-! ## The escrow's records -/

namespace ForkEscrow

variable {e : ForkEscrow} {this a : Address} {t t' : Token} {now n id : Nat}

/-- The tokens recorded for the current fork. -/
def waiting (e : ForkEscrow) : Set Nat := {tokenId | e.escrowedTokensByForkId e.forkId tokenId ≠ 0}

theorem waiting_setEscrowed (ha : a ≠ 0) :
    (e.setEscrowed id a).waiting = insert id e.waiting := by
  ext tokenId
  simp only [waiting, Set.mem_insert_iff, Set.mem_ofPred_eq, setEscrowed_entry, setEscrowed_forkId,
    true_and]
  by_cases hid : tokenId = id
  · simp [hid, ha]
  · simp [hid]

theorem waiting_setEscrowed_zero : (e.setEscrowed id 0).waiting = e.waiting \ {id} := by
  ext tokenId
  simp only [waiting, Set.mem_sdiff, Set.mem_singleton_iff, Set.mem_ofPred_eq, setEscrowed_entry,
    setEscrowed_forkId, true_and]
  by_cases hid : tokenId = id
  · simp [hid]
  · simp [hid]

/-- `n` tokens are recorded for the current fork, all owned by the escrow at `this`. -/
structure Accounts (this : Address) (t : Token) (e : ForkEscrow) (n : Nat) : Prop where
  count : e.waiting.encard = n
  owned : ∀ id ∈ e.waiting, t.owners id = this

theorem Accounts.of_owners (h : Accounts this t e n)
    (howners : ∀ id ∈ e.waiting, t.owners id = this → t'.owners id = this) :
    Accounts this t' e n :=
  ⟨h.count, fun id hid => howners id hid (h.owned id hid)⟩

theorem Accounts.deposit (h : Accounts this t e n) (ha : a ≠ 0) (hne : a ≠ this)
    (hm : Token.TokenMoved now a this id t t') : Accounts this t' (e.setEscrowed id a) (n + 1) := by
  have hnew : id ∉ e.waiting := by
    intro hid
    exact hne (hm.owner.symm.trans (h.owned id hid))
  refine ⟨?_, ?_⟩
  · rw [waiting_setEscrowed ha, Set.encard_insert_of_notMem hnew, h.count]
    rfl
  · rw [waiting_setEscrowed ha]
    intro id' hid'
    rw [hm.owners]
    rcases Set.mem_insert_iff.mp hid' with heq | hid'
    · rw [heq, Function.update_self]
    · have hne' : id' ≠ id := fun heq => hnew (heq ▸ hid')
      rw [Function.update_of_ne hne']
      exact h.owned id' hid'

theorem Accounts.giveBack (h : Accounts this t e n) (hid : id ∈ e.waiting)
    (hm : Token.TokenMoved now this a id t t') :
    ∃ m, m + 1 = n ∧ Accounts this t' (e.setEscrowed id 0) m := by
  have hcount : (e.waiting \ {id}).encard + 1 = n := by
    rw [Set.encard_sdiff_singleton_add_one hid, h.count]
  obtain ⟨m, hm', hmn⟩ : ∃ m : Nat, (e.waiting \ {id}).encard = m ∧ m + 1 = n := by
    have hfinite : (e.waiting \ {id}).encard ≠ ⊤ := by
      intro htop
      rw [htop, top_add] at hcount
      exact ENat.top_ne_natCast n hcount
    obtain ⟨m, hm'⟩ := ENat.ne_top_iff_exists.mp hfinite
    refine ⟨m, hm'.symm, ?_⟩
    rw [← hm'] at hcount
    exact_mod_cast hcount
  refine ⟨m, hmn, ?_, ?_⟩
  · rw [waiting_setEscrowed_zero, hm']
  · rw [waiting_setEscrowed_zero]
    rintro id' ⟨hid', hne⟩
    rw [hm.owners, Function.update_of_ne hne]
    exact h.owned id' hid'

theorem waiting_closeEscrow (h : e.NoneLater) : e.closeEscrow.waiting = ∅ := by
  ext id
  simp only [waiting, Set.mem_ofPred_eq, Set.mem_empty_iff_false, iff_false, not_not]
  exact h (e.forkId + 1) (Nat.lt_succ_self _) id

end ForkEscrow

/-! ## The token and the escrow together -/

/-- The token's ledger is consistent, and `n` tokens of accounts other than the DAO are recorded for
the current fork. -/
structure Books (dao this : Address) (n : Nat) (nouns : NounsToken) (e : ForkEscrow) : Prop where
  ledger : nouns.toToken.Ledger
  accounts : e.Accounts this nouns.toToken n
  depositors : ∀ id ∈ e.waiting, e.escrowedTokensByForkId e.forkId id ≠ dao

namespace Books

open ForkEscrow

variable {dao this : Address} {n : Nat} {nouns nouns' : NounsToken} {e e' : ForkEscrow}
  {proxies : Address → Address} {now : Nat}

/-- A token that the escrow does not own, or did not record, moves. -/
theorem transferFrom (h : Books dao this n nouns e) {sender from_ to_ : Address} {id : Nat}
    (hid : id ∉ e.waiting)
    (ht : nouns.transferFrom proxies now sender from_ to_ id = .ok nouns') :
    Books dao this n nouns' e := by
  have hm := NounsToken.transferFrom_moved ht
  refine ⟨hm.ledger h.ledger, h.accounts.of_owners ?_, h.depositors⟩
  intro id' hid' howner
  have hne : id' ≠ id := fun heq => hid (heq ▸ hid')
  rw [hm.owners, Function.update_of_ne hne]
  exact howner

theorem not_waiting (h : Books dao this n nouns e) {id : Nat} {a : Address}
    (howner : nouns.owners id = a) (ha : a ≠ this) : id ∉ e.waiting := by
  intro hid
  exact ha (howner.symm.trans (h.accounts.owned id hid))

theorem call {H : Type} {c : Crypto H} {received : Address → Tx Unit} {timestamp : Nat}
    {sender : Account} {cl : NounsTokenCall} (h : Books dao this n nouns e)
    (hsilent : nouns.toToken.Silent this) (hthis : this ≠ 0) (hproxies : proxies this = 0) (hsender : (sender : Address) ≠ this)
    (hburn : ∀ id, cl = .burn id → id ∉ e.waiting)
    (hcall : nouns.call c proxies received now timestamp sender cl = .ok nouns') :
    Books dao this n nouns' e := by
  obtain ⟨-, howned⟩ := NounsToken.call_kept hsilent hthis hproxies hsender hcall
  have hchanges : Token.Changes True now nouns.toToken nouns'.toToken :=
    NounsToken.call_changes hcall (fun _ => trivial)
  refine ⟨hchanges.ledger h.ledger, h.accounts.of_owners ?_, h.depositors⟩
  intro id hid howner
  rcases howned id howner with hkept | ⟨hcl, -⟩
  · exact hkept
  · exact absurd hid (hburn id hcl)

theorem deposit (h : Books dao this n nouns e) {a : Address} {id : Nat} (ha : a ≠ 0)
    (hthis : a ≠ this) (hdao : a ≠ dao)
    (ht : nouns.transferFrom proxies now dao a this id = .ok nouns') :
    Books dao this (n + 1) nouns' (e.setEscrowed id a) := by
  have hm := NounsToken.transferFrom_moved ht
  refine ⟨hm.ledger h.ledger, h.accounts.deposit ha hthis hm, ?_⟩
  intro id' hid'
  rw [setEscrowed_forkId, setEscrowed_entry]
  rw [waiting_setEscrowed ha] at hid'
  by_cases heq : id' = id
  · rw [if_pos ⟨rfl, heq⟩]
    exact hdao
  · rw [if_neg (fun hand => heq hand.2)]
    exact h.depositors id' (Set.mem_of_mem_insert_of_ne hid' heq)

theorem giveBack (h : Books dao this n nouns e) {a : Address} {id : Nat} (hid : id ∈ e.waiting)
    (ht : nouns.transferFrom proxies now this this a id = .ok nouns') :
    ∃ m, m + 1 = n ∧ Books dao this m nouns' (e.setEscrowed id 0) := by
  have hm := NounsToken.transferFrom_moved ht
  obtain ⟨m, hmn, haccounts⟩ := h.accounts.giveBack hid hm
  refine ⟨m, hmn, hm.ledger h.ledger, haccounts, ?_⟩
  intro id' hid'
  rw [setEscrowed_forkId, setEscrowed_entry]
  rw [waiting_setEscrowed_zero] at hid'
  rw [if_neg (fun hand => hid'.2 hand.2)]
  exact h.depositors id' hid'.1

theorem closeEscrow (h : Books dao this n nouns e) (hlater : e.NoneLater) :
    Books dao this 0 nouns e.closeEscrow := by
  have hempty := waiting_closeEscrow hlater
  refine ⟨h.ledger, ⟨?_, ?_⟩, ?_⟩
  · rw [hempty, Set.encard_empty]
    rfl
  · rw [hempty]
    exact fun _ hid => hid.elim
  · rw [hempty]
    exact fun _ hid => hid.elim

/-! ## Loops -/

theorem waiting_of_currentOwnerOf {owner : Address} {id : Nat} (hdao : owner ≠ dao)
    (h : e.currentOwnerOf dao id = owner) : id ∈ e.waiting := by
  intro hzero
  simp only [currentOwnerOf] at h
  rw [if_pos hzero] at h
  exact hdao h.symm

theorem not_waiting_of_currentOwnerOf (h : Books dao this n nouns e) {id : Nat}
    (hid : e.currentOwnerOf dao id = dao) : id ∉ e.waiting := by
  intro hmem
  simp only [currentOwnerOf] at hid
  rw [if_neg hmem] at hid
  exact h.depositors id hmem hid

theorem returnTokensToOwner (h : Books dao this e.numTokensInEscrow nouns e) {owner : Address}
    {tokenIds : List Nat} (hdao : owner ≠ dao)
    (hreturn : e.returnTokensToOwner proxies now dao this nouns owner tokenIds =
      .ok (e', nouns')) : Books dao this e'.numTokensInEscrow nouns' e' := by
  simp only [ForkEscrow.returnTokensToOwner, bind_eq_ok, checkedSub_eq_ok, pure_eq_ok,
    Prod.mk.injEq] at hreturn
  obtain ⟨⟨e₁, nouns₁⟩, hloop, remaining, ⟨-, rfl⟩, rfl, rfl⟩ := hreturn
  -- the loop records each return, and the counter follows after it
  suffices hcount : ∀ n, Books dao this n nouns e →
      ∃ m, m + tokenIds.length = n ∧ Books dao this m nouns₁ e₁ ∧
        e₁.numTokensInEscrow = e.numTokensInEscrow by
    obtain ⟨m, hm, hbooks, hnum⟩ := hcount _ h
    have hremaining : e₁.numTokensInEscrow - tokenIds.length = m := by omega
    rw [hremaining]
    exact ⟨hbooks.ledger, ⟨hbooks.accounts.count, hbooks.accounts.owned⟩, hbooks.depositors⟩
  clear h
  induction tokenIds generalizing e nouns with
  | nil =>
    intro n hbooks
    simp only [List.foldlM_nil, pure_eq_ok, Prod.mk.injEq] at hloop
    obtain ⟨rfl, rfl⟩ := hloop
    exact ⟨n, rfl, hbooks, rfl⟩
  | cons id tokenIds ih =>
    intro n hbooks
    simp only [List.foldlM_cons, bind_eq_ok, revertIf_eq_ok, Decidable.not_not, pure_eq_ok] at hloop
    obtain ⟨_, ⟨_, howner, nouns₂, ht, rfl⟩, hloop⟩ := hloop
    obtain ⟨m, hmn, hbooks'⟩ := hbooks.giveBack (waiting_of_currentOwnerOf hdao howner) ht
    obtain ⟨m', hm', hbooks'', hnum⟩ := ih hloop m hbooks'
    refine ⟨m', ?_, hbooks'', hnum⟩
    rw [List.length_cons]
    omega

theorem withdrawTokens (h : Books dao this n nouns e) {to_ : Address} {tokenIds : List Nat}
    (hwithdraw : e.withdrawTokens proxies now dao this nouns tokenIds to_ = .ok nouns') :
    Books dao this n nouns' e := by
  refine foldlM_ok (P := fun nouns => Books dao this n nouns e) hwithdraw h ?_
  intro id _ nouns₁ nouns₂ hbooks hround
  simp only [bind_eq_ok, revertIf_eq_ok, Decidable.not_not] at hround
  obtain ⟨_, howner, ht⟩ := hround
  exact hbooks.transferFrom (hbooks.not_waiting_of_currentOwnerOf howner) ht

end Books

/-! ## The adjusted supply -/

/-- The Nouns that the DAO does not own: neither in its treasury, nor in the escrow without being
recorded for the current fork. -/
def ForkEscrow.circulating (e : ForkEscrow) (nouns : Token) (timelock this : Address) : Set Nat :=
  {tokenId | nouns.owners tokenId ≠ 0 ∧ nouns.owners tokenId ≠ timelock ∧
    (nouns.owners tokenId ≠ this ∨ e.escrowedTokensByForkId e.forkId tokenId ≠ 0)}

theorem exists_encard_of_subset {α : Type} {s t : Set α} {m : Nat} (ht : t.encard = m)
    (hs : s ⊆ t) : ∃ k : Nat, s.encard = k := by
  have hle : s.encard ≤ m := ht ▸ Set.encard_le_encard hs
  obtain ⟨k, hk, -⟩ := ENat.le_natCast_iff.mp hle
  exact ⟨k, hk⟩

namespace Books

variable {dao this : Address} {nouns : NounsToken} {e : ForkEscrow}

/-- The escrow owns the recorded tokens, and `k` others. -/
theorem numTokensOwnedByDAO (h : Books dao this e.numTokensInEscrow nouns e) (hthis : this ≠ 0) :
    ∃ k : Nat, e.numTokensOwnedByDAO nouns.toToken this = .ok k ∧
      ({tokenId | nouns.owners tokenId = this} \ e.waiting).encard = k := by
  have howned := h.ledger.encard_owned hthis
  have hsub : e.waiting ⊆ {tokenId | nouns.owners tokenId = this} := h.accounts.owned
  obtain ⟨k, hk⟩ := exists_encard_of_subset howned
    (Set.sdiff_subset (s := {tokenId | nouns.owners tokenId = this}) (t := e.waiting))
  have hsum : k + e.numTokensInEscrow = nouns.balances this := by
    have hsplit := Set.encard_sdiff_add_encard_of_subset hsub
    rw [hk, h.accounts.count, howned] at hsplit
    exact_mod_cast hsplit
  refine ⟨k, ?_, hk⟩
  simp only [ForkEscrow.numTokensOwnedByDAO, Token.balanceOf, bind_eq_ok, require_eq_ok, pure_eq_ok,
    checkedSub_eq_ok]
  exact ⟨_, ⟨(), hthis, rfl⟩, by omega, by omega⟩

theorem circulating (h : Books dao this e.numTokensInEscrow nouns e) {timelock : Address}
    (hthis : this ≠ 0) (htimelock : timelock ≠ 0) (hne : timelock ≠ this) {k : Nat}
    (hk : ({tokenId | nouns.owners tokenId = this} \ e.waiting).encard = k) :
    ∃ r : Nat, (e.circulating nouns.toToken timelock this).encard = r ∧
      nouns.totalSupply = nouns.balances timelock + (k + r) := by
  have hexisting := h.ledger.encard_existing
  have hsub : e.circulating nouns.toToken timelock this ⊆ {tokenId | nouns.owners tokenId ≠ 0} :=
    fun _ hid => hid.1
  obtain ⟨r, hr⟩ := exists_encard_of_subset hexisting hsub
  refine ⟨r, hr, ?_⟩
  have hunion : {tokenId | nouns.owners tokenId ≠ 0} = {tokenId | nouns.owners tokenId = timelock} ∪
      (({tokenId | nouns.owners tokenId = this} \ e.waiting) ∪
        e.circulating nouns.toToken timelock this) := by
    ext id
    simp only [Set.mem_union, Set.mem_sdiff, Set.mem_ofPred_eq, ForkEscrow.circulating,
      ForkEscrow.waiting]
    grind
  have hsplit := hexisting
  rw [hunion, Set.encard_union_eq, Set.encard_union_eq, h.ledger.encard_owned htimelock, hk,
    hr] at hsplit
  · exact_mod_cast hsplit.symm
  · rw [Set.disjoint_left]
    rintro id ⟨howner, hid⟩ ⟨-, -, hother | hentry⟩
    · exact hother howner
    · exact hid hentry
  · rw [Set.disjoint_left]
    rintro id howner (⟨howner', -⟩ | ⟨-, hother, -⟩)
    · exact hne (howner.symm.trans howner')
    · exact hother howner

end Books

/-! ## Runs -/

def Action.burns : Action → Bool
  | .callToken _ (.burn _) => true
  | _ => false

namespace World

variable {H : Type} {d : Deployment H} {escrow : Address} {w w' : World H}

/-- A burned Noun is not one that waits for the current fork. -/
def SparesEscrowed (escrow : Address) (w : World H) : Action → Prop
  | .callToken _ (.burn nounId) => nounId ∉ (w.escrows escrow).waiting
  | _ => True

theorem sparesEscrowed_of_not_burns {a : Action} (h : a.burns = false) :
    w.SparesEscrowed escrow a := by
  simp only [Action.burns] at h
  simp only [SparesEscrowed]
  split
  · exact absurd h Bool.true_eq_false.mp
  · trivial

/-- The counter of the escrow is right. -/
def Accounted (d : Deployment H) (escrow : Address) (w : World H) : Prop :=
  Books d.dao escrow (w.escrows escrow).numTokensInEscrow w.nouns (w.escrows escrow)

theorem StartEscrow.accounted (h : w.StartEscrow d escrow) : w.Accounted d escrow := by
  simp only [Accounted, h.deployed]
  refine ⟨(NounsToken.funded_of_reachable h.token).ledger, ⟨?_, ?_⟩, ?_⟩
  · show {tokenId : Nat | (0 : Address) ≠ 0}.encard = ((0 : Nat) : ℕ∞)
    simp
  · exact fun _ hid => absurd rfl hid
  · exact fun _ hid => absurd rfl hid

theorem EscrowStep.accounted {forks : Prop} {a : Action} (h : EscrowStep d escrow forks w a w')
    (hd : d.Apart escrow) (hsafe : w.Safe d escrow) (hspares : w.SparesEscrowed escrow a)
    (hw : w.Accounted d escrow) : w'.Accounted d escrow := by
  simp only [Accounted] at hw ⊢
  cases h with
  | none hnouns hescrow =>
    rw [hnouns, hescrow]
    exact hw
  | @token sender call _ hsender hcall hescrow =>
    rw [hescrow]
    refine hw.call hsafe.guarded.silent hd.escrow_ne_zero hsafe.fixed.proxies hsender.1 ?_ hcall
    rintro id rfl
    exact hspares
  | @escrowToFork tx sender tokenIds proposalIds reason _ hsender hfork hfold =>
    refine foldlM_ok (P := fun s : NounsToken × ForkEscrow =>
      Books d.dao escrow s.2.numTokensInEscrow s.1 s.2) hfold hw ?_
    intro id _ s s' hbooks hround
    obtain ⟨ht, hs'⟩ := escrowOne_ok hround
    have hdeposit := hbooks.deposit sender.2 hsender.1 hsender.2 ht
    rw [hs']
    exact ⟨hdeposit.ledger, ⟨hdeposit.accounts.count, hdeposit.accounts.owned⟩,
      hdeposit.depositors⟩
  | withdrawFromForkEscrow hsender hfork hreturn =>
    exact hw.returnTokensToOwner hsender.2 hreturn
  | executeFork _ hnouns hescrow =>
    rw [hnouns, hescrow]
    exact hw.closeEscrow hsafe.guarded.later
  | joinFork join htimelock hsender hfold hescrow =>
    rw [hescrow]
    refine foldlM_ok (P := fun nouns => Books d.dao escrow _ nouns (w.escrows escrow)) hfold hw ?_
    intro id _ nouns nouns' hbooks ht
    refine hbooks.transferFrom ?_ ht
    exact hbooks.not_waiting (NounsToken.transferFrom_moved ht).owner hsender.1
  | withdrawDAONounsFromEscrow hcall hadmin hwithdraw hescrow =>
    rw [hescrow]
    exact hw.withdrawTokens hwithdraw

theorem Accounted.adjustedTotalSupply (hw : w.Accounted d escrow) (hd : d.Apart escrow)
    (hfixed : w.EscrowFixed d escrow) :
    ∃ s : Nat, w.dao.adjustedTotalSupply (w.env d) = .ok s ∧
      ((w.escrows escrow).circulating w.nouns.toToken d.timelock escrow).encard = s := by
  obtain ⟨k, hk, hcard⟩ := Books.numTokensOwnedByDAO hw hd.escrow_ne_zero
  obtain ⟨r, hr, hsupply⟩ := Books.circulating hw hd.escrow_ne_zero hd.timelock_ne_zero
    hd.timelock_ne.1 hcard
  refine ⟨r, ?_, hr⟩
  simp only [StorageV3.adjustedTotalSupply, env, Token.balanceOf, hfixed.timelocks.1,
    hfixed.forkEscrow, hk, bind_eq_ok, require_eq_ok, pure_eq_ok, checkedSub_eq_ok]
  exact ⟨_, ⟨(), hd.timelock_ne_zero, rfl⟩, _, ⟨by omega, rfl⟩, k, rfl, by omega, by omega⟩

variable [DecidableEq H]

theorem NextEscrow.accounted (hd : d.Apart escrow) (hsafe : w.Safe d escrow)
    (hw : w.Accounted d escrow) (h : NextEscrow d escrow (SparesEscrowed escrow) w w') :
    w'.Accounted d escrow := by
  cases h.1 with
  | step a hspares hstep =>
    exact (step_sorted hd hsafe.fixed hsafe.sited hstep).1.accounted hd hsafe hspares hw
  | outside hout =>
    obtain ⟨⟨eth, erc20, outside, rfl⟩, -, -⟩ := hout
    exact hw

theorem accounted_of_reachable (hd : d.Apart escrow)
    (h : Reachable (StartEscrow d escrow) (NextEscrow d escrow (SparesEscrowed escrow)) w) :
    w.Accounted d escrow := by
  refine h.invariant (fun _ hw => hw.accounted) ?_
  intro w w' hr hw hn
  exact hn.accounted hd (safe_of_reachable hd hr) hw

/-- As long as no Noun waiting for the fork is burned, the escrow's counter is right, it owns what
it records, and the adjusted supply is the number of Nouns that the DAO does not own. -/
theorem escrow_accounts (hd : d.Apart escrow)
    (h : Reachable (StartEscrow d escrow) (NextEscrow d escrow (SparesEscrowed escrow)) w) :
    {tokenId | (w.escrows escrow).escrowedTokensByForkId (w.escrows escrow).forkId tokenId ≠
      0}.encard = (w.escrows escrow).numTokensInEscrow ∧
    (∀ tokenId, (w.escrows escrow).escrowedTokensByForkId (w.escrows escrow).forkId tokenId ≠ 0 →
      w.nouns.owners tokenId = escrow) ∧
    (∃ k : Nat, (w.escrows escrow).numTokensOwnedByDAO w.nouns.toToken escrow = .ok k) ∧
    ∃ s : Nat, w.dao.adjustedTotalSupply (w.env d) = .ok s ∧
      {tokenId | w.nouns.owners tokenId ≠ 0 ∧ w.nouns.owners tokenId ≠ d.timelock ∧
        (w.nouns.owners tokenId ≠ escrow ∨
          (w.escrows escrow).escrowedTokensByForkId (w.escrows escrow).forkId tokenId ≠ 0)}.encard =
        s := by
  have hw := accounted_of_reachable hd h
  have hfixed := (safe_of_reachable hd h).fixed
  obtain ⟨k, hk, -⟩ := Books.numTokensOwnedByDAO hw hd.escrow_ne_zero
  exact ⟨hw.accounts.count, hw.accounts.owned, ⟨k, hk⟩, hw.adjustedTotalSupply hd hfixed⟩

/-- 7 escrows Noun 1, and 8 sends Noun 0 straight to the escrow. -/
theorem escrow_accounts_of_direct_transfer :
    ∃ w, Reachable (StartEscrow .sample 104) (NextEscrow .sample 104 (SparesEscrowed 104)) w ∧
      (w.escrows 104).numTokensInEscrow = 1 ∧ w.nouns.owners 0 = 104 ∧
      ∃ s : Nat, w.dao.adjustedTotalSupply (w.env .sample) = .ok s := by
  have hrun : Yields (World.sample.run .sample
      (fun _ a w' => w'.EscrowFixed .sample 104 ∧ a.burns = false)
      [.callToken .minter .mint, .callToken .minter (.setApprovalForAll 100 true),
        .ofDAO .minter (.escrowToFork [1] [] ""),
        .callToken .noundersDAO (.transferFrom 8 104 0)])
      (fun w => (w.escrows 104).numTokensInEscrow = 1 ∧ w.nouns.owners 0 = 104) := by
    decide +kernel
  obtain ⟨w, hw, hcount, howner⟩ := hrun
  have hr : Reachable (StartEscrow .sample 104) (NextEscrow .sample 104 (SparesEscrowed 104)) w := by
    refine ⟨World.sample, sample_startEscrow, run_steps ?_ hw⟩
    rintro w a w' hstep ⟨hfixed, hburns⟩
    exact ⟨.step a (sparesEscrowed_of_not_burns hburns) hstep, hfixed⟩
  obtain ⟨-, -, -, s, hs, -⟩ := escrow_accounts sample_apart hr
  exact ⟨w, hr, hcount, howner, s, hs⟩

/-- The minter burns the Noun that 7 escrowed. -/
theorem burned_while_escrowed :
    ∃ w, Reachable (StartEscrow .sample 104) (NextEscrow .sample 104 (fun _ _ => True)) w ∧
      (w.escrows 104).escrowedTokensByForkId (w.escrows 104).forkId 1 ≠ 0 ∧
      w.nouns.owners 1 ≠ 104 ∧
      (w.escrows 104).numTokensOwnedByDAO w.nouns.toToken 104 = .error .panic ∧
      w.dao.adjustedTotalSupply (w.env .sample) = .error .panic := by
  have hrun : Yields (World.sample.run .sample (fun _ _ w' => w'.EscrowFixed .sample 104)
      [.callToken .minter .mint, .callToken .minter (.setApprovalForAll 100 true),
        .ofDAO .minter (.escrowToFork [1] [] ""), .callToken .minter (.burn 1)])
      (fun w => (w.escrows 104).escrowedTokensByForkId (w.escrows 104).forkId 1 ≠ 0 ∧
        w.nouns.owners 1 ≠ 104 ∧
        (w.escrows 104).numTokensOwnedByDAO w.nouns.toToken 104 = .error .panic ∧
        w.dao.adjustedTotalSupply (w.env .sample) = .error .panic) := by
    decide +kernel
  obtain ⟨w, hw, hresult⟩ := hrun
  refine ⟨w, ⟨World.sample, sample_startEscrow, run_steps ?_ hw⟩, hresult⟩
  exact fun w a w' hstep hfixed => ⟨.step a trivial hstep, hfixed⟩

end World

end Nouns
