import Nouns.Token.Changes

/-!
# Approvals — who can move a token

A contract that never asks the token for an approval, and has no OpenSea proxy, is `Silent`: nobody
but itself can transfer what it owns.  The minter can still burn it.
-/

open Fallible

namespace Nouns

namespace Token

variable {t t' : Token} {now : Nat} {a : Address}

/-- `a` has approved nobody, for all its tokens or for one.  Tokens that do not exist have no
approval either, so that none is left when `a` is the first owner. -/
structure Silent (a : Address) (t : Token) : Prop where
  tokens : ∀ tokenId, t.owners tokenId = 0 ∨ t.owners tokenId = a → t.tokenApprovals tokenId = 0
  operators : ∀ operator, t.operatorApprovals a operator = false

theorem empty_silent (a : Address) : Silent a Token.empty :=
  ⟨fun _ _ => rfl, fun _ => rfl⟩

/-- The approvals of a token that moved are cleared. -/
structure Cleared (tokenId : Nat) (t t' : Token) : Prop where
  tokenApprovals : t'.tokenApprovals = Function.update t.tokenApprovals tokenId 0
  operatorApprovals : t'.operatorApprovals = t.operatorApprovals

theorem transfer_cleared {from_ to_ : Address} {tokenId : Nat}
    (h : t.transfer now from_ to_ tokenId = .ok t') : Cleared tokenId t t' := by
  simp only [transfer, beforeTokenTransfer, updateEnumeration, approveToken, bind_eq_ok,
    require_eq_ok, pure_eq_ok] at h
  obtain ⟨owner, howner, _, rfl, _, hto, t₂, ⟨t₁, ht₁, hmove⟩, t₃, ⟨_, -, rfl⟩, b, -, rfl⟩ := h
  obtain ⟨hne, rfl⟩ := ownerOf_ok howner
  rw [if_neg hne, if_neg hto, pure_eq_ok] at ht₁
  subst ht₁
  obtain ⟨⟨c, l, rfl⟩, -⟩ := moveDelegates_ok hmove
  exact ⟨rfl, rfl⟩

theorem burnToken_cleared {tokenId : Nat} (h : t.burnToken now tokenId = .ok t') :
    Cleared tokenId t t' := by
  simp only [burnToken, beforeTokenTransfer, updateEnumeration, approveToken, bind_eq_ok,
    pure_eq_ok] at h
  obtain ⟨owner, howner, t₂, ⟨t₁, ht₁, hmove⟩, t₃, ⟨_, -, rfl⟩, b, -, rfl⟩ := h
  obtain ⟨hne, rfl⟩ := ownerOf_ok howner
  rw [if_neg hne, if_pos trivial] at ht₁
  split at ht₁
  · rw [pure_eq_ok] at ht₁
    subst ht₁
    obtain ⟨⟨c, l, rfl⟩, -⟩ := moveDelegates_ok hmove
    exact ⟨rfl, rfl⟩
  · exact absurd ht₁ throw_ne_ok

theorem mintTo_approvals {to_ : Address} {tokenId : Nat} (h : t.mintTo now to_ tokenId = .ok t') :
    t'.tokenApprovals = t.tokenApprovals ∧ t'.operatorApprovals = t.operatorApprovals := by
  simp only [mintTo, beforeTokenTransfer, updateEnumeration, bind_eq_ok, require_eq_ok,
    pure_eq_ok] at h
  obtain ⟨_, hto, _, -, t₂, ⟨t₁, ht₁, hmove⟩, rfl⟩ := h
  rw [if_neg hto, pure_eq_ok] at ht₁
  subst ht₁
  obtain ⟨⟨c, l, rfl⟩, -⟩ := moveDelegates_ok hmove
  exact ⟨rfl, rfl⟩

theorem delegateTo_approvals {delegator delegatee : Address}
    (h : t.delegateTo now delegator delegatee = .ok t') :
    t'.owners = t.owners ∧ t'.tokenApprovals = t.tokenApprovals ∧
      t'.operatorApprovals = t.operatorApprovals := by
  simp only [delegateTo, bind_eq_ok] at h
  obtain ⟨_, -, hmove⟩ := h
  obtain ⟨⟨c, l, rfl⟩, -⟩ := moveDelegates_ok hmove
  exact ⟨rfl, rfl, rfl⟩

/-! ## Silence is kept -/

theorem Silent.of_same (hs : Silent a t) (howners : t'.owners = t.owners)
    (htokens : t'.tokenApprovals = t.tokenApprovals)
    (hoperators : t'.operatorApprovals = t.operatorApprovals) : Silent a t' := by
  constructor
  · rw [howners, htokens]
    exact hs.tokens
  · rw [hoperators]
    exact hs.operators

theorem Silent.of_cleared {src dst : Address} {tokenId : Nat} (hs : Silent a t)
    (hm : TokenMoved now src dst tokenId t t') (hc : Cleared tokenId t t') : Silent a t' := by
  constructor
  · intro id hid
    rw [hc.tokenApprovals]
    by_cases heq : id = tokenId
    · rw [heq, Function.update_self]
    · rw [hm.owners, Function.update_of_ne heq] at hid
      rw [Function.update_of_ne heq]
      exact hs.tokens id hid
  · rw [hc.operatorApprovals]
    exact hs.operators

theorem Silent.mintTo {to_ : Address} {tokenId : Nat} (hs : Silent a t)
    (h : t.mintTo now to_ tokenId = .ok t') : Silent a t' := by
  have hm := mintTo_ok h
  obtain ⟨htokens, hoperators⟩ := mintTo_approvals h
  constructor
  · intro id hid
    rw [htokens]
    by_cases heq : id = tokenId
    · rw [heq]
      exact hs.tokens tokenId (.inl hm.owner)
    · rw [hm.owners, Function.update_of_ne heq] at hid
      exact hs.tokens id hid
  · rw [hoperators]
    exact hs.operators

theorem Silent.transferFrom {isApprovedForAll : Address → Address → Bool}
    {sender from_ to_ : Address} {tokenId : Nat} (hs : Silent a t)
    (h : t.transferFrom isApprovedForAll now sender from_ to_ tokenId = .ok t') : Silent a t' := by
  have hm := transferFrom_ok h
  simp only [Token.transferFrom, bind_eq_ok] at h
  obtain ⟨_, -, _, -, h⟩ := h
  exact hs.of_cleared hm (transfer_cleared h)

/-- Nobody else moves what a silent account owns. -/
theorem Silent.not_owner {isApprovedForAll : Address → Address → Bool}
    {sender from_ to_ : Address} {tokenId : Nat} (hs : Silent a t)
    (hnone : isApprovedForAll a sender = false) (hsender : sender ≠ a) (hzero : sender ≠ 0)
    (h : t.transferFrom isApprovedForAll now sender from_ to_ tokenId = .ok t') :
    t.owners tokenId ≠ a := by
  intro howner
  simp only [Token.transferFrom, isApprovedOrOwner, bind_eq_ok, require_eq_ok, pure_eq_ok] at h
  obtain ⟨_, ⟨_, -, rfl⟩, _, happroved, -⟩ := h
  rw [decide_eq_true_eq, howner, hs.tokens tokenId (.inr howner)] at happroved
  rcases happroved with heq | hzero' | hall
  · exact hsender heq
  · exact hzero hzero'.symm
  · exact Bool.false_ne_true (hnone.symm.trans hall)

/-- `a` is silent as before, and keeps its tokens. -/
structure Kept (a : Address) (t t' : Token) : Prop where
  silent : Silent a t'
  owned : ∀ tokenId, t.owners tokenId = a → t'.owners tokenId = a

theorem Kept.of_same (hs : Silent a t) (howners : t'.owners = t.owners)
    (htokens : t'.tokenApprovals = t.tokenApprovals)
    (hoperators : t'.operatorApprovals = t.operatorApprovals) : Kept a t t' :=
  ⟨hs.of_same howners htokens hoperators, fun id h => by rw [howners]; exact h⟩

theorem Kept.trans {t₁ t₂ t₃ : Token} (h : Kept a t₁ t₂) (h' : Kept a t₂ t₃) : Kept a t₁ t₃ :=
  ⟨h'.silent, fun id hid => h'.owned id (h.owned id hid)⟩

theorem TokenMoved.owned {src dst : Address} {tokenId id : Nat}
    (hm : TokenMoved now src dst tokenId t t') (hsrc : src ≠ a) (hid : t.owners id = a) :
    t'.owners id = a := by
  rw [hm.owners, Function.update_of_ne]
  · exact hid
  · rintro rfl
    exact hsrc (hm.owner.symm.trans hid)

theorem mintTo_kept {to_ : Address} {tokenId : Nat} (hs : Silent a t) (ha : a ≠ 0)
    (h : t.mintTo now to_ tokenId = .ok t') : Kept a t t' :=
  ⟨hs.mintTo h, fun _ hid => (mintTo_ok h).owned (Ne.symm ha) hid⟩

theorem transferFrom_kept {isApprovedForAll : Address → Address → Bool}
    {sender from_ to_ : Address} {tokenId : Nat} (hs : Silent a t)
    (hnone : isApprovedForAll a sender = false) (hsender : sender ≠ a) (hzero : sender ≠ 0)
    (h : t.transferFrom isApprovedForAll now sender from_ to_ tokenId = .ok t') : Kept a t t' := by
  have hne := hs.not_owner hnone hsender hzero h
  have hm := transferFrom_ok h
  exact ⟨hs.transferFrom h, fun _ hid => hm.owned (hm.owner ▸ hne) hid⟩

theorem approve_kept {isApprovedForAll : Address → Address → Bool} {sender : Account}
    {to_ : Address} {tokenId : Nat} (hs : Silent a t)
    (hnone : isApprovedForAll a sender = false) (hsender : (sender : Address) ≠ a)
    (h : t.approve isApprovedForAll sender to_ tokenId = .ok t') : Kept a t t' := by
  simp only [approve, approveToken, bind_eq_ok, require_eq_ok, pure_eq_ok] at h
  obtain ⟨owner, howner, _, -, _, hby, _, -, rfl⟩ := h
  obtain ⟨hexists, rfl⟩ := ownerOf_ok howner
  have hne : t.owners tokenId ≠ a := by
    intro heq
    rw [heq] at hby
    rcases hby with heq' | hall
    · exact hsender heq'
    · exact Bool.false_ne_true (hnone.symm.trans hall)
  refine ⟨⟨?_, hs.operators⟩, fun _ hid => hid⟩
  intro id hid
  -- the approval concerns a token of somebody else
  have hid' : id ≠ tokenId := by
    rintro rfl
    rcases hid with hid | hid
    · exact hexists hid
    · exact hne hid
  exact (Function.update_of_ne hid' _ _).trans (hs.tokens id hid)

theorem setApprovalForAll_kept {sender : Account} {operator : Address} {approved : Bool}
    (hs : Silent a t) (hsender : (sender : Address) ≠ a)
    (h : t.setApprovalForAll sender operator approved = .ok t') : Kept a t t' := by
  simp only [setApprovalForAll, bind_eq_ok, pure_eq_ok] at h
  obtain ⟨_, -, rfl⟩ := h
  refine ⟨⟨hs.tokens, ?_⟩, fun _ hid => hid⟩
  intro operator'
  exact (congrFun (Function.update_of_ne (Ne.symm hsender) _ _) _).trans (hs.operators operator')

theorem delegateTo_kept {delegator delegatee : Address} (hs : Silent a t)
    (h : t.delegateTo now delegator delegatee = .ok t') : Kept a t t' := by
  obtain ⟨howners, htokens, hoperators⟩ := delegateTo_approvals h
  exact .of_same hs howners htokens hoperators

theorem delegateBySigChecked_kept {H : Type} {c : Crypto H} {timestamp : Nat} {delegatee : Address}
    {nonce expiry : Nat} {sig : Bytes} (hs : Silent a t)
    (h : t.delegateBySigChecked c now timestamp delegatee nonce expiry sig = .ok t') :
    Kept a t t' := by
  simp only [delegateBySigChecked, bind_eq_ok] at h
  obtain ⟨_, -, _, -, _, -, h⟩ := h
  obtain ⟨howners, htokens, hoperators⟩ := delegateTo_approvals h
  exact .of_same hs howners htokens hoperators

end Token

/-! ## Calls of NounsToken -/

namespace NounsToken

open Token

variable {H : Type} {c : Crypto H} {n n' : NounsToken} {now : Nat} {a : Address}

theorem isApprovedForAll_eq_false {proxies : Address → Address} {sender : Address}
    (hs : Silent a n.toToken) (hproxies : proxies a = 0) (hzero : sender ≠ 0) :
    n.isApprovedForAll proxies a sender = false := by
  simp only [isApprovedForAll, hproxies, hs.operators, Bool.false_eq_true, or_false,
    decide_eq_false_iff_not]
  exact Ne.symm hzero

theorem mintNext_kept {to_ : Address} (hs : Silent a n.toToken) (ha : a ≠ 0)
    (h : n.mintNext now to_ = .ok n') : Kept a n.toToken n'.toToken := by
  simp only [mintNext, mintNoun, bind_eq_ok, pure_eq_ok] at h
  obtain ⟨t, ht, rfl⟩ := h
  have hk := mintTo_kept hs ha ht
  exact ⟨hk.silent.of_same rfl rfl rfl, hk.owned⟩

theorem mint_kept {sender : Address} (hs : Silent a n.toToken) (ha : a ≠ 0)
    (h : n.mint now sender = .ok n') : Kept a n.toToken n'.toToken := by
  simp only [mint, bind_eq_ok] at h
  obtain ⟨_, -, h⟩ := h
  split at h
  · obtain ⟨n₁, h₁, h₂⟩ := bind_eq_ok.mp h
    have hk := mintNext_kept hs ha h₁
    exact hk.trans (mintNext_kept hk.silent ha h₂)
  · exact mintNext_kept hs ha h

theorem transferFrom_kept {proxies : Address → Address} {sender from_ to_ : Address} {tokenId : Nat}
    (hs : Silent a n.toToken) (hproxies : proxies a = 0) (hsender : sender ≠ a) (hzero : sender ≠ 0)
    (h : n.transferFrom proxies now sender from_ to_ tokenId = .ok n') :
    Kept a n.toToken n'.toToken := by
  simp only [transferFrom, bind_eq_ok, pure_eq_ok] at h
  obtain ⟨t, ht, rfl⟩ := h
  exact Token.transferFrom_kept hs (isApprovedForAll_eq_false hs hproxies hzero) hsender hzero ht

theorem transferFrom_moved {proxies : Address → Address} {sender from_ to_ : Address}
    {tokenId : Nat} (h : n.transferFrom proxies now sender from_ to_ tokenId = .ok n') :
    TokenMoved now from_ to_ tokenId n.toToken n'.toToken := by
  simp only [transferFrom, bind_eq_ok, pure_eq_ok] at h
  obtain ⟨t, ht, rfl⟩ := h
  exact transferFrom_ok ht

theorem transferFrom_silent {proxies : Address → Address} {sender from_ to_ a : Address}
    {tokenId : Nat} (hs : Silent a n.toToken)
    (h : n.transferFrom proxies now sender from_ to_ tokenId = .ok n') : Silent a n'.toToken := by
  simp only [transferFrom, bind_eq_ok, pure_eq_ok] at h
  obtain ⟨t, ht, rfl⟩ := h
  exact hs.transferFrom ht

/-- Only a burn takes a token from a silent account. -/
theorem call_kept {proxies : Address → Address} {received : Address → Tx Unit} {timestamp : Nat}
    {sender : Account} {cl : NounsTokenCall} (hs : Silent a n.toToken) (ha : a ≠ 0)
    (hproxies : proxies a = 0) (hsender : (sender : Address) ≠ a)
    (h : n.call c proxies received now timestamp sender cl = .ok n') :
    Silent a n'.toToken ∧ ∀ tokenId, n.owners tokenId = a →
      n'.owners tokenId = a ∨ (cl = .burn tokenId ∧ (sender : Address) = n.minter) := by
  suffices hk : Kept a n.toToken n'.toToken ∨ (Silent a n'.toToken ∧ ∃ nounId, cl = .burn nounId ∧
      (sender : Address) = n.minter ∧ ∀ id, id ≠ nounId → n'.owners id = n.owners id) by
    rcases hk with hk | ⟨hs', nounId, rfl, hminter, howners⟩
    · exact ⟨hk.silent, fun id hid => .inl (hk.owned id hid)⟩
    · refine ⟨hs', fun id hid => ?_⟩
      by_cases heq : id = nounId
      · exact .inr ⟨by rw [heq], hminter⟩
      · exact .inl (by rw [howners id heq, hid])
  have hnone : n.isApprovedForAll proxies a sender = false :=
    isApprovedForAll_eq_false hs hproxies sender.2
  cases cl with
  | burn nounId =>
    simp only [call, burn, onlyMinter, bind_eq_ok, require_eq_ok, pure_eq_ok] at h
    obtain ⟨_, hminter, t, ht, rfl⟩ := h
    have hm := burnToken_ok ht
    refine .inr ⟨(hs.of_cleared hm (burnToken_cleared ht)).of_same rfl rfl rfl, nounId, rfl,
      hminter, fun id hid => ?_⟩
    exact congrFun (hm.owners.trans rfl) id |>.trans (Function.update_of_ne hid _ _)
  | mint => exact .inl (mint_kept hs ha h)
  | approve to_ tokenId =>
    simp only [call, bind_eq_ok, pure_eq_ok] at h
    obtain ⟨t, ht, rfl⟩ := h
    exact .inl (approve_kept hs hnone hsender ht)
  | setApprovalForAll operator approved =>
    simp only [call, bind_eq_ok, pure_eq_ok] at h
    obtain ⟨t, ht, rfl⟩ := h
    exact .inl (setApprovalForAll_kept hs hsender ht)
  | transferFrom from_ to_ tokenId =>
    exact .inl (transferFrom_kept hs hproxies hsender sender.2 h)
  | safeTransferFrom from_ to_ tokenId =>
    simp only [call, safeTransferFrom, bind_eq_ok, pure_eq_ok] at h
    obtain ⟨n₁, h₁, _, -, rfl⟩ := h
    exact .inl (transferFrom_kept hs hproxies hsender sender.2 h₁)
  | delegate delegatee =>
    simp only [call, bind_eq_ok, pure_eq_ok] at h
    obtain ⟨t, ht, rfl⟩ := h
    exact .inl (delegateTo_kept hs ht)
  | delegateBySig delegatee nonce expiry sig =>
    simp only [call, bind_eq_ok, pure_eq_ok] at h
    obtain ⟨t, ht, rfl⟩ := h
    exact .inl (delegateBySigChecked_kept hs ht)
  | setNoundersDAO noundersDAO =>
    simp only [call, setNoundersDAO, bind_eq_ok, pure_eq_ok] at h
    obtain ⟨_, -, rfl⟩ := h
    exact .inl (.of_same hs rfl rfl rfl)
  | setMinter minter =>
    simp only [call, setMinter, bind_eq_ok, pure_eq_ok] at h
    obtain ⟨_, -, _, -, rfl⟩ := h
    exact .inl (.of_same hs rfl rfl rfl)
  | lockMinter =>
    simp only [call, lockMinter, bind_eq_ok, pure_eq_ok] at h
    obtain ⟨_, -, _, -, rfl⟩ := h
    exact .inl (.of_same hs rfl rfl rfl)
  | transferOwnership newOwner =>
    simp only [call, transferOwnership, bind_eq_ok, pure_eq_ok] at h
    obtain ⟨_, -, _, -, rfl⟩ := h
    exact .inl (.of_same hs rfl rfl rfl)
  | renounceOwnership =>
    simp only [call, renounceOwnership, bind_eq_ok, pure_eq_ok] at h
    obtain ⟨_, -, rfl⟩ := h
    exact .inl (.of_same hs rfl rfl rfl)

end NounsToken

end Nouns
