import Nouns.Token.Changes
import Mathlib.Algebra.Order.BigOperators.Group.Multiset
import Mathlib.Algebra.BigOperators.Group.Finset.Basic
import Mathlib.Data.Finset.Lattice.Lemmas

/-!
# VoteConservation — votes are the delegated balances

Three invariants of the token, each kept by every base change: the ledger of owners and balances
is consistent, the votes of an account are the balances delegated to it, and all votes together do
not exceed the supply.  The second fails exactly where a balance is delegated to the zero address;
the third survives that.
-/

open Fallible Checkpoints GroupSums Transition

namespace Nouns

namespace Token

variable {t t' : Token} {now : Nat} {lossy : Prop}

/-! ## The ledger -/

structure Ledger (t : Token) : Prop where
  consistent : t.allTokens.Consistent
  listed : ∀ tokenId, tokenId ∈ t.allTokens.items ↔ t.owners tokenId ≠ 0
  balances_eq : ∀ a, a ≠ 0 → t.balances a = (t.allTokens.items.map t.owners).count a
  balances_zero : t.balances 0 = 0
  delegateMap_zero : t.delegateMap 0 = 0
  checkpoints_zero : t.checkpoints 0 = []

theorem empty_ledger : Ledger Token.empty where
  consistent := IndexedList.empty_consistent
  listed := by simp [Token.empty, IndexedList.empty]
  balances_eq := by simp [Token.empty, IndexedList.empty]
  balances_zero := rfl
  delegateMap_zero := rfl
  checkpoints_zero := rfl

theorem Ledger.delegates_zero (h : Ledger t) : t.delegates 0 = 0 := by
  simp [delegates, h.delegateMap_zero]

theorem delegates_ne_zero {a : Address} (ha : a ≠ 0) : t.delegates a ≠ 0 := by
  simp only [delegates]
  split <;> assumption

theorem Ledger.delegates_eq_zero (h : Ledger t) {a : Address} : t.delegates a = 0 ↔ a = 0 := by
  refine ⟨fun ha => Decidable.byContradiction fun hne => delegates_ne_zero hne ha, ?_⟩
  rintro rfl
  exact h.delegates_zero

/-- The tokens that stay where they are when `tokenId` moves. -/
theorem TokenMoved.rest {src dst : Address} {tokenId : Nat}
    (h : TokenMoved now src dst tokenId t t') (hl : Ledger t) :
    ∃ rest : List Nat, tokenId ∉ rest ∧ t'.allTokens.Consistent ∧
      t.allTokens.items.Perm (if src = 0 then rest else tokenId :: rest) ∧
      t'.allTokens.items.Perm (if dst = 0 then rest else tokenId :: rest) := by
  by_cases hsrc : src = 0
  · have hmem : tokenId ∉ t.allTokens.items := by
      rw [hl.listed, h.owner, hsrc]
      simp
    have hdst : dst ≠ 0 := h.someone.resolve_left (fun hne => hne hsrc)
    refine ⟨t.allTokens.items, hmem, ?_, ?_, ?_⟩
    · rw [h.minted hsrc]
      exact IndexedList.add_consistent hl.consistent hmem
    · rw [if_pos hsrc]
    · rw [if_neg hdst, h.minted hsrc]
      exact List.perm_append_singleton _ _
  · have hmem : tokenId ∈ t.allTokens.items := by
      rw [hl.listed, h.owner]
      exact hsrc
    have hnodup := hl.consistent.nodup
    by_cases hdst : dst = 0
    · obtain ⟨l', hrem, hcons, hperm⟩ := IndexedList.remove_consistent hl.consistent hmem
      have heq : t'.allTokens = l' := Option.some.inj ((h.burned hdst).symm.trans hrem)
      refine ⟨l'.items, (List.nodup_cons.mp (hperm.nodup_iff.mpr hnodup)).1, heq ▸ hcons, ?_, ?_⟩
      · rw [if_neg hsrc]
        exact hperm.symm
      · rw [if_pos hdst, heq]
    · have hperm := List.perm_cons_erase hmem
      refine ⟨t.allTokens.items.erase tokenId,
        (List.nodup_cons.mp (hperm.nodup_iff.mp hnodup)).1, ?_, ?_, ?_⟩
      · rw [h.kept hsrc hdst]
        exact hl.consistent
      · rw [if_neg hsrc]
        exact hperm
      · rw [if_neg hdst, h.kept hsrc hdst]
        exact hperm

theorem TokenMoved.totalSupply {src dst : Address} {tokenId : Nat}
    (h : TokenMoved now src dst tokenId t t') (hl : Ledger t) :
    t'.totalSupply + (if src = 0 then 0 else 1) = t.totalSupply + (if dst = 0 then 0 else 1) := by
  obtain ⟨rest, -, -, hperm, hperm'⟩ := h.rest hl
  unfold Token.totalSupply
  rw [hperm.length_eq, hperm'.length_eq]
  split <;> split <;> simp

theorem TokenMoved.ledger {src dst : Address} {tokenId : Nat}
    (h : TokenMoved now src dst tokenId t t') (hl : Ledger t) : Ledger t' := by
  obtain ⟨rest, hrest, hcons, hperm, hperm'⟩ := h.rest hl
  have howners : ∀ x ∈ rest, t'.owners x = t.owners x := by
    intro x hx
    rw [h.owners, Function.update_of_ne]
    exact fun heq => hrest (heq ▸ hx)
  have howner : t'.owners tokenId = dst := by
    rw [h.owners, Function.update_self]
  refine ⟨hcons, ?_, ?_, ?_, ?_, ?_⟩
  · intro x
    rw [hperm'.mem_iff]
    by_cases hx : x = tokenId
    · subst hx
      rw [howner]
      split <;> simp_all
    · have hmem : x ∈ rest ↔ t.owners x ≠ 0 := by
        rw [← hl.listed, hperm.mem_iff]
        split <;> simp [hx]
      rw [h.owners, Function.update_of_ne hx, ← hmem]
      split <;> simp [hx]
  · intro a ha
    have hmap : rest.map t'.owners = rest.map t.owners := List.map_congr_left howners
    have hcount : (t.allTokens.items.map t.owners).count a =
        (rest.map t.owners).count a + (if src = a then 1 else 0) := by
      rw [(hperm.map t.owners).count_eq]
      split
      · rename_i hsrc
        rw [if_neg (fun heq => ha (heq.symm.trans hsrc)), Nat.add_zero]
      · simp [List.count_cons, h.owner]
    have hcount' : (t'.allTokens.items.map t'.owners).count a =
        (rest.map t.owners).count a + (if dst = a then 1 else 0) := by
      rw [(hperm'.map t'.owners).count_eq]
      split
      · rename_i hdst
        rw [if_neg (fun heq => ha (heq.symm.trans hdst)), hmap, Nat.add_zero]
      · simp [List.count_cons, howner, hmap]
    have hbal := h.balances a ha
    rw [hl.balances_eq a ha, hcount] at hbal
    rw [hcount']
    omega
  · rw [h.balances_zero, hl.balances_zero]
  · rw [h.delegateMap, hl.delegateMap_zero]
  · rw [h.moved.zero, hl.checkpoints_zero]

theorem Delegated.ledger {delegator delegatee : Address}
    (h : Delegated now delegator delegatee t t') (hne : delegator ≠ 0) (hl : Ledger t) :
    Ledger t' where
  consistent := h.allTokens ▸ hl.consistent
  listed := by rw [h.allTokens, h.owners]; exact hl.listed
  balances_eq := by rw [h.allTokens, h.owners, h.balances]; exact hl.balances_eq
  balances_zero := by rw [h.balances, hl.balances_zero]
  delegateMap_zero := by rw [h.delegateMap, Function.update_of_ne (Ne.symm hne), hl.delegateMap_zero]
  checkpoints_zero := by rw [h.moved.zero, hl.checkpoints_zero]

theorem Change.ledger (h : Change lossy now t t') (hl : Ledger t) : Ledger t' := by
  cases h with
  | move src dst tokenId hm => exact hm.ledger hl
  | delegate delegator delegatee hne _ hd => exact hd.ledger hne hl
  | other ho hb ha hd hc =>
    exact ⟨ha ▸ hl.consistent, by rw [ha, ho]; exact hl.listed,
      by rw [ha, ho, hb]; exact hl.balances_eq, by rw [hb, hl.balances_zero],
      by rw [hd, hl.delegateMap_zero], by rw [hc, hl.checkpoints_zero]⟩

theorem Changes.ledger (h : Changes lossy now t t') (hl : Ledger t) : Ledger t' :=
  steps_preserve h hl (fun _ _ hl hc => hc.ledger hl)

/-! ## Conservation -/

/-- The votes of an account are the balances of those who delegate to it. -/
def Conserved (t : Token) : Prop :=
  ∀ a, a ≠ 0 → t.getCurrentVotes a = groupSum t.delegates t.balances a

theorem empty_conserved : Conserved Token.empty := by
  intro a ha
  have hzero : groupSum Token.empty.delegates Token.empty.balances a = 0 :=
    Finset.sum_eq_zero (fun x _ => ite_self 0)
  rw [hzero]
  rfl

theorem TokenMoved.conserved {src dst : Address} {tokenId : Nat}
    (h : TokenMoved now src dst tokenId t t') (hl : Ledger t) (hc : Conserved t) :
    Conserved t' := by
  intro a ha
  have hdel : t'.delegates = t.delegates := by
    funext x
    simp [delegates, h.delegateMap]
  have hvotes := h.moved.votes a ha
  have hsum := groupSum_add_of_shift t.delegates t.balances t'.balances
    (i := src) (j := dst) (n := 1) (k := a) (by
      intro x hx
      refine h.balances x ?_
      rintro rfl
      exact ha (hx.symm.trans hl.delegates_zero))
  rw [hc a ha] at hvotes
  rw [hdel]
  omega

theorem Delegated.conserved {delegator delegatee : Address}
    (h : Delegated now delegator delegatee t t') (hd : delegatee ≠ 0 ∨ t.balances delegator = 0)
    (hc : Conserved t) : Conserved t' := by
  intro a ha
  have hvotes := h.moved.votes a ha
  have hsum := groupSum_add_of_eq_off t.delegates t'.delegates t.balances t'.balances delegator (by
      intro x hx
      simp [delegates, h.delegateMap, h.balances, Function.update_of_ne hx]) a
  have hself : t'.delegates delegator = if delegatee = 0 then delegator else delegatee := by
    simp [delegates, h.delegateMap]
  rw [hc a ha] at hvotes
  rw [hself, h.balances] at hsum
  rw [h.balances]
  rcases hd with hne | hzero
  · rw [if_neg hne] at hsum
    omega
  · simp only [hzero, ite_self] at hsum hvotes
    omega

theorem Change.conserved (h : Change False now t t') (hl : Ledger t) (hc : Conserved t) :
    Conserved t' := by
  cases h with
  | move src dst tokenId hm => exact hm.conserved hl hc
  | delegate delegator delegatee _ hd hdel => exact hdel.conserved (by simpa using hd) hc
  | other ho hb ha hd hcp =>
    intro a ha
    have hdel : t'.delegates = t.delegates := by
      funext x
      simp [delegates, hd]
    rw [getCurrentVotes, hcp, hdel, hb]
    exact hc a ha

theorem Changes.conserved (h : Changes False now t t') (hl : Ledger t) (hc : Conserved t) :
    Ledger t' ∧ Conserved t' :=
  steps_preserve (P := fun t => Ledger t ∧ Conserved t) h ⟨hl, hc⟩
    (fun _ _ hlc h => ⟨h.ledger hlc.1, h.conserved hlc.1 hlc.2⟩)

/-- An account's delegate has at least the account's balance in votes. -/
theorem Conserved.balance_le (hc : Conserved t) {a : Address} (ha : a ≠ 0) :
    t.balances a ≤ t.getCurrentVotes (t.delegates a) := by
  rw [hc _ (delegates_ne_zero ha)]
  exact le_groupSum _ _ _

/-! ## Votes never exceed the supply -/

def Backed (t : Token) : Prop := ∑ a, t.getCurrentVotes a ≤ t.totalSupply

theorem empty_backed : Backed Token.empty := by
  simp [Backed, getCurrentVotes, Token.empty, latest]

/-- All votes before and after a move of votes. -/
theorem VotesMoved.sum {src dst : Address} {amount : Nat} (h : VotesMoved now src dst amount t t') :
    ∑ a, t'.getCurrentVotes a + (if src = 0 then 0 else amount) =
      ∑ a, t.getCurrentVotes a + (if dst = 0 then 0 else amount) := by
  have hsum := sum_add_of_shift (Finset.univ.erase (0 : Address)) t.getCurrentVotes t'.getCurrentVotes
    (fun x hx => h.votes x (Finset.ne_of_mem_erase hx))
  have hzero : t'.getCurrentVotes 0 = t.getCurrentVotes 0 := by
    rw [getCurrentVotes, h.zero, getCurrentVotes]
  simp only [Finset.mem_erase, Finset.mem_univ, and_true, ne_eq, ite_not] at hsum
  rw [← Finset.add_sum_erase _ _ (Finset.mem_univ (0 : Address)),
    ← Finset.add_sum_erase _ t.getCurrentVotes (Finset.mem_univ (0 : Address)), hzero]
  omega

theorem Change.backed (h : Change lossy now t t') (hl : Ledger t) (hb : Backed t) : Backed t' := by
  unfold Backed at *
  cases h with
  | move src dst tokenId hm =>
    have hsum := hm.moved.sum
    have hsupply := hm.totalSupply hl
    simp only [hl.delegates_eq_zero] at hsum
    omega
  | delegate delegator delegatee hne _ hd =>
    have hsum := hd.moved.sum
    have hsupply : t'.totalSupply = t.totalSupply := by
      rw [Token.totalSupply, hd.allTokens, Token.totalSupply]
    rw [if_neg (delegates_ne_zero hne)] at hsum
    split at hsum <;> omega
  | other _ _ ha _ hcp =>
    simp only [getCurrentVotes, Token.totalSupply, ha, hcp]
    exact hb

theorem Changes.backed (h : Changes lossy now t t') (hl : Ledger t) (hb : Backed t) :
    Ledger t' ∧ Backed t' :=
  steps_preserve (P := fun t => Ledger t ∧ Backed t) h ⟨hl, hb⟩
    (fun _ _ hlb h => ⟨h.ledger hlb.1, h.backed hlb.1 hlb.2⟩)

end Token

end Nouns
