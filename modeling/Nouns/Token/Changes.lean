import Nouns.Token.NounsToken
import Nouns.Token.NounsTokenFork
import Nouns.Lib.GroupSums

/-!
# Changes — what one call does to owners, delegates and votes

Every call of either token is a sequence of base changes: a token moves (minted, burned or
transferred), an account changes its delegate, or nothing that votes depend on changes.  The
specifications below say what each base change does; the invariants of the votes are proved from
them and never unfold a call.
-/

open Fallible Checkpoints GroupSums

namespace Nouns

namespace Token

variable {t t' : Token} {now : Nat}

/-! ## Moving votes -/

/-- `amount` votes moved from `src` to `dst` in block `now`; the zero address has no votes. -/
structure VotesMoved (now : Nat) (src dst : Address) (amount : Nat) (t t' : Token) : Prop where
  writes : ∀ a, Writes now (t.checkpoints a) (t'.checkpoints a)
  zero : t'.checkpoints 0 = t.checkpoints 0
  votes : ∀ a, a ≠ 0 → t'.getCurrentVotes a + (if src = a then amount else 0) =
    t.getCurrentVotes a + (if dst = a then amount else 0)

/-- Only the checkpoints and the log differ. -/
def SameLedger (t t' : Token) : Prop :=
  ∃ checkpoints log, t' = { t with checkpoints, log }

theorem SameLedger.trans {t₁ t₂ t₃ : Token} (h : SameLedger t₁ t₂) (h' : SameLedger t₂ t₃) :
    SameLedger t₁ t₃ := by
  obtain ⟨c, l, rfl⟩ := h
  obtain ⟨c', l', rfl⟩ := h'
  exact ⟨c', l', rfl⟩

theorem writeCheckpoint_ok {delegatee : Address} {oldVotes newVotes : Nat}
    (h : t.writeCheckpoint now delegatee oldVotes newVotes = .ok t') :
    SameLedger t t' ∧ now < 2 ^ 32 ∧ t'.checkpoints =
      Function.update t.checkpoints delegatee (write (t.checkpoints delegatee) now newVotes) := by
  simp only [writeCheckpoint, bind_eq_ok, require_eq_ok, pure_eq_ok] at h
  obtain ⟨_, hnow, rfl⟩ := h
  exact ⟨⟨_, _, rfl⟩, hnow, rfl⟩

/-- Writing the new votes of one account. -/
theorem getCurrentVotes_of_update {a delegatee : Address} {v : Nat}
    (h : t'.checkpoints =
      Function.update t.checkpoints delegatee (write (t.checkpoints delegatee) now v)) :
    t'.getCurrentVotes a = if a = delegatee then v else t.getCurrentVotes a := by
  unfold getCurrentVotes
  rw [h]
  by_cases ha : a = delegatee
  · subst ha
    simp
  · simp [ha]

theorem writes_of_update {delegatee : Address} {v : Nat} (a : Address)
    (h : t'.checkpoints =
      Function.update t.checkpoints delegatee (write (t.checkpoints delegatee) now v)) :
    Writes now (t.checkpoints a) (t'.checkpoints a) := by
  rw [h]
  by_cases ha : a = delegatee
  · subst ha
    rw [Function.update_self]
    exact Writes.one _ _ _
  · rw [Function.update_of_ne ha]
    exact .refl

theorem removeVotes_ok {src : Address} {amount : Nat} (h : t.removeVotes now src amount = .ok t') :
    SameLedger t t' ∧ VotesMoved now src 0 amount t t' := by
  unfold removeVotes at h
  split at h
  · rename_i hsrc
    simp only [sub96, bind_eq_ok, require_eq_ok, pure_eq_ok] at h
    obtain ⟨v, ⟨_, hle, rfl⟩, hw⟩ := h
    obtain ⟨hframe, -, hcps⟩ := writeCheckpoint_ok hw
    refine ⟨hframe, fun a => writes_of_update a hcps, ?_, ?_⟩
    · rw [hcps, Function.update_of_ne (Ne.symm hsrc)]
    · intro a ha
      rw [getCurrentVotes_of_update hcps, if_neg (Ne.symm ha)]
      by_cases has : a = src
      · subst has
        simp only [if_true]
        omega
      · simp [has, Ne.symm has]
  · rename_i hsrc
    simp only [pure_eq_ok] at h
    subst h
    refine ⟨⟨_, _, rfl⟩, fun a => .refl, rfl, ?_⟩
    intro a ha
    rw [Decidable.not_not.mp hsrc]

theorem addVotes_ok {dst : Address} {amount : Nat} (h : t.addVotes now dst amount = .ok t') :
    SameLedger t t' ∧ VotesMoved now 0 dst amount t t' := by
  unfold addVotes at h
  split at h
  · rename_i hdst
    simp only [add96, bind_eq_ok, checked_eq_ok, require_eq_ok, pure_eq_ok] at h
    obtain ⟨v, ⟨_, ⟨-, rfl⟩, _, -, rfl⟩, hw⟩ := h
    obtain ⟨hframe, -, hcps⟩ := writeCheckpoint_ok hw
    refine ⟨hframe, fun a => writes_of_update a hcps, ?_, ?_⟩
    · rw [hcps, Function.update_of_ne (Ne.symm hdst)]
    · intro a ha
      rw [getCurrentVotes_of_update hcps, if_neg (Ne.symm ha)]
      by_cases had : a = dst
      · subst had
        simp
      · simp [had, Ne.symm had]
  · rename_i hdst
    simp only [pure_eq_ok] at h
    subst h
    refine ⟨⟨_, _, rfl⟩, fun a => .refl, rfl, ?_⟩
    intro a ha
    rw [Decidable.not_not.mp hdst]

theorem moveDelegates_ok {src dst : Address} {amount : Nat}
    (h : t.moveDelegates now src dst amount = .ok t') :
    SameLedger t t' ∧ VotesMoved now src dst amount t t' := by
  unfold moveDelegates at h
  split at h
  · rw [bind_eq_ok] at h
    obtain ⟨t₁, h₁, h₂⟩ := h
    obtain ⟨hf₁, hm₁⟩ := removeVotes_ok h₁
    obtain ⟨hf₂, hm₂⟩ := addVotes_ok h₂
    refine ⟨hf₁.trans hf₂, fun a => (hm₁.writes a).trans (hm₂.writes a),
      hm₂.zero.trans hm₁.zero, ?_⟩
    intro a ha
    have hv₁ := hm₁.votes a ha
    have hv₂ := hm₂.votes a ha
    rw [if_neg (Ne.symm ha)] at hv₁ hv₂
    omega
  · rename_i hskip
    simp only [pure_eq_ok] at h
    subst h
    refine ⟨⟨_, _, rfl⟩, fun a => .refl, rfl, ?_⟩
    intro a ha
    rcases not_and_or.mp hskip with heq | hzero
    · rw [Decidable.not_not.mp heq]
    · simp [Nat.eq_zero_of_not_pos hzero]

/-! ## Moving a token -/

/-- Token `tokenId` passed from `src` to `dst`; a mint has no `src`, a burn no `dst`. -/
structure TokenMoved (now : Nat) (src dst : Address) (tokenId : Nat) (t t' : Token) : Prop where
  owner : t.owners tokenId = src
  someone : src ≠ 0 ∨ dst ≠ 0
  owners : t'.owners = Function.update t.owners tokenId dst
  balances : ∀ a, a ≠ 0 → t'.balances a + (if src = a then 1 else 0) =
    t.balances a + (if dst = a then 1 else 0)
  balances_zero : t'.balances 0 = t.balances 0
  delegateMap : t'.delegateMap = t.delegateMap
  minted : src = 0 → t'.allTokens = t.allTokens.add tokenId
  burned : dst = 0 → t.allTokens.remove tokenId = some t'.allTokens
  kept : src ≠ 0 → dst ≠ 0 → t'.allTokens = t.allTokens
  moved : VotesMoved now (t.delegates src) (t.delegates dst) 1 t t'

theorem approveToken_ok {to_ : Address} {tokenId : Nat} (h : t.approveToken to_ tokenId = .ok t') :
    ∃ tokenApprovals log, t' = { t with tokenApprovals, log } := by
  simp only [approveToken, bind_eq_ok, pure_eq_ok] at h
  obtain ⟨_, -, rfl⟩ := h
  exact ⟨_, _, rfl⟩

theorem mintTo_ok {to_ : Address} {tokenId : Nat} (h : t.mintTo now to_ tokenId = .ok t') :
    TokenMoved now 0 to_ tokenId t t' := by
  simp only [mintTo, beforeTokenTransfer, updateEnumeration, bind_eq_ok, require_eq_ok,
    pure_eq_ok] at h
  obtain ⟨_, hto, _, howner, t₂, ⟨t₁, ht₁, hmove⟩, rfl⟩ := h
  rw [if_neg hto, pure_eq_ok] at ht₁
  subst ht₁
  obtain ⟨⟨c, l, rfl⟩, hm⟩ := moveDelegates_ok hmove
  refine ⟨howner, .inr hto, rfl, ?_, ?_, rfl, fun _ => rfl, fun h => absurd h hto,
    fun h => absurd rfl h, hm.writes, hm.zero, hm.votes⟩
  · intro a ha
    rw [if_neg (Ne.symm ha)]
    by_cases hat : a = to_
    · subst hat
      simp
    · simp [Function.update_of_ne hat, Ne.symm hat]
  · exact Function.update_of_ne (Ne.symm hto) _ _

theorem ownerOf_ok {tokenId : Nat} {owner : Address} (h : t.ownerOf tokenId = .ok owner) :
    t.owners tokenId ≠ 0 ∧ t.owners tokenId = owner := by
  simpa [ownerOf] using h

theorem burnToken_ok {tokenId : Nat} (h : t.burnToken now tokenId = .ok t') :
    TokenMoved now (t.owners tokenId) 0 tokenId t t' := by
  simp only [burnToken, beforeTokenTransfer, updateEnumeration, bind_eq_ok, checkedSub_eq_ok,
    pure_eq_ok] at h
  obtain ⟨owner, howner, t₂, ⟨t₁, ht₁, hmove⟩, t₃, happrove, b, ⟨hb, rfl⟩, rfl⟩ := h
  obtain ⟨hne, rfl⟩ := ownerOf_ok howner
  rw [if_neg hne, if_pos trivial] at ht₁
  split at ht₁
  · rename_i allTokens hrem
    simp only [pure_eq_ok] at ht₁
    subst ht₁
    obtain ⟨⟨c, l, rfl⟩, hm⟩ := moveDelegates_ok hmove
    obtain ⟨ap, l', rfl⟩ := approveToken_ok happrove
    refine ⟨rfl, .inl hne, rfl, ?_, ?_, rfl, fun h => absurd h hne, fun _ => hrem,
      fun _ h => absurd rfl h, hm.writes, hm.zero, hm.votes⟩
    · intro a ha
      rw [if_neg (Ne.symm ha)]
      by_cases hat : a = t.owners tokenId
      · subst hat
        simp only [emit, Function.update_self, if_true] at hb ⊢
        omega
      · simp [emit, Function.update_of_ne hat, Ne.symm hat]
    · exact Function.update_of_ne (Ne.symm hne) _ _
  · simp at ht₁

theorem transfer_ok {from_ to_ : Address} {tokenId : Nat}
    (h : t.transfer now from_ to_ tokenId = .ok t') : TokenMoved now from_ to_ tokenId t t' := by
  simp only [transfer, beforeTokenTransfer, updateEnumeration, bind_eq_ok, require_eq_ok,
    checkedSub_eq_ok, pure_eq_ok] at h
  obtain ⟨owner, howner, _, rfl, _, hto, t₂, ⟨t₁, ht₁, hmove⟩, t₃, happrove, b, ⟨hb, rfl⟩, rfl⟩ := h
  obtain ⟨hne, rfl⟩ := ownerOf_ok howner
  rw [if_neg hne, if_neg hto, pure_eq_ok] at ht₁
  subst ht₁
  obtain ⟨⟨c, l, rfl⟩, hm⟩ := moveDelegates_ok hmove
  obtain ⟨ap, l', rfl⟩ := approveToken_ok happrove
  refine ⟨rfl, .inl hne, rfl, ?_, ?_, rfl, fun h => absurd h hne, fun h => absurd h hto,
    fun _ _ => rfl, hm.writes, hm.zero, hm.votes⟩
  · intro a ha
    -- A transfer to oneself takes the token off the balance and puts it back.
    by_cases hat : a = to_ <;> by_cases haf : a = t.owners tokenId
    · subst hat
      simp only [emit, haf, Function.update_self, if_true] at hb ⊢
      omega
    · subst hat
      simp [emit, Function.update_of_ne haf, Ne.symm haf]
    · subst haf
      simp only [emit, Function.update_of_ne hat, Function.update_self, Ne.symm hat, if_true,
        if_false] at hb ⊢
      omega
    · simp [emit, Function.update_of_ne hat, Function.update_of_ne haf, Ne.symm hat, Ne.symm haf]
  · simp only [emit, Function.update_of_ne (Ne.symm hto), Function.update_of_ne (Ne.symm hne)]

/-! ## Delegating -/

/-- `delegator` replaced its delegate by `delegatee` and its balance followed as votes. -/
structure Delegated (now : Nat) (delegator delegatee : Address) (t t' : Token) : Prop where
  owners : t'.owners = t.owners
  balances : t'.balances = t.balances
  allTokens : t'.allTokens = t.allTokens
  delegateMap : t'.delegateMap = Function.update t.delegateMap delegator delegatee
  moved : VotesMoved now (t.delegates delegator) delegatee (t.balances delegator) t t'

theorem delegateTo_ok {delegator delegatee : Address}
    (h : t.delegateTo now delegator delegatee = .ok t') :
    delegator ≠ 0 ∧ Delegated now delegator delegatee t t' := by
  simp only [delegateTo, votesToDelegate, balanceOf, safe96, bind_eq_ok, require_eq_ok,
    pure_eq_ok] at h
  obtain ⟨_, ⟨_, ⟨_, hne, rfl⟩, _, -, rfl⟩, hmove⟩ := h
  obtain ⟨⟨c, l, rfl⟩, hm⟩ := moveDelegates_ok hmove
  exact ⟨hne, rfl, rfl, rfl, rfl, hm.writes, hm.zero, hm.votes⟩

/-! ## Base changes -/

/-- One base change in block `now`.  Delegating a balance to the zero address takes its votes out
of circulation; such a change is admitted when `lossy` holds. -/
inductive Change (lossy : Prop) (now : Nat) (t t' : Token) : Prop
  | move (src dst : Address) (tokenId : Nat) : TokenMoved now src dst tokenId t t' →
      Change lossy now t t'
  | delegate (delegator delegatee : Address) : delegator ≠ 0 →
      delegatee ≠ 0 ∨ t.balances delegator = 0 ∨ lossy →
      Delegated now delegator delegatee t t' → Change lossy now t t'
  | other : t'.owners = t.owners → t'.balances = t.balances → t'.allTokens = t.allTokens →
      t'.delegateMap = t.delegateMap → t'.checkpoints = t.checkpoints → Change lossy now t t'

/-- What a call does: any number of base changes within one block. -/
abbrev Changes (lossy : Prop) (now : Nat) : Token → Token → Prop :=
  Relation.ReflTransGen (Change lossy now)

theorem Change.emit (lossy : Prop) (now : Nat) (t : Token) (e : TokenEvent) :
    Change lossy now t (t.emit e) :=
  .other rfl rfl rfl rfl rfl

variable {lossy : Prop}

theorem Change.writes (h : Change lossy now t t') (a : Address) :
    Writes now (t.checkpoints a) (t'.checkpoints a) := by
  cases h with
  | move _ _ _ hm => exact hm.moved.writes a
  | delegate _ _ _ _ hd => exact hd.moved.writes a
  | other _ _ _ _ hc =>
    rw [hc]
    exact .refl

theorem Changes.writes (h : Changes lossy now t t') (a : Address) :
    Writes now (t.checkpoints a) (t'.checkpoints a) := by
  induction h with
  | refl => exact .refl
  | tail _ hc ih => exact ih.trans (hc.writes a)

theorem Changes.of_move {src dst : Address} {tokenId : Nat}
    (h : TokenMoved now src dst tokenId t t') : Changes lossy now t t' :=
  .single (.move src dst tokenId h)

theorem approveToken_changes {to_ : Address} {tokenId : Nat}
    (h : t.approveToken to_ tokenId = .ok t') : Changes lossy now t t' := by
  obtain ⟨ap, l, rfl⟩ := approveToken_ok h
  exact .single (.other rfl rfl rfl rfl rfl)

theorem approve_changes {isApprovedForAll : Address → Address → Bool} {sender : Account}
    {to_ : Address} {tokenId : Nat}
    (h : t.approve isApprovedForAll sender to_ tokenId = .ok t') : Changes lossy now t t' := by
  simp only [approve, bind_eq_ok] at h
  obtain ⟨_, -, _, -, _, -, h⟩ := h
  exact approveToken_changes h

theorem setApprovalForAll_changes {sender : Account} {operator : Address} {approved : Bool}
    (h : t.setApprovalForAll sender operator approved = .ok t') : Changes lossy now t t' := by
  simp only [setApprovalForAll, bind_eq_ok, pure_eq_ok] at h
  obtain ⟨_, -, rfl⟩ := h
  exact .single (.other rfl rfl rfl rfl rfl)

theorem transferFrom_ok {isApprovedForAll : Address → Address → Bool} {sender from_ to_ : Address}
    {tokenId : Nat} (h : t.transferFrom isApprovedForAll now sender from_ to_ tokenId = .ok t') :
    TokenMoved now from_ to_ tokenId t t' := by
  simp only [transferFrom, bind_eq_ok] at h
  obtain ⟨_, -, _, -, h⟩ := h
  exact transfer_ok h

theorem delegate_changes {sender : Account} {delegatee : Address}
    (h : t.delegate now sender delegatee = .ok t') : Changes lossy now t t' := by
  obtain ⟨hne, hd⟩ := delegateTo_ok h
  refine .single (.delegate sender _ hne (.inl ?_) hd)
  split
  · exact sender.property
  · assumption

theorem delegateBySigChecked_changes {H : Type} {c : Crypto H} {timestamp : Nat}
    {delegatee : Address} {nonce expiry : Nat} {sig : Bytes}
    (h : t.delegateBySigChecked c now timestamp delegatee nonce expiry sig = .ok t')
    (hd : delegatee ≠ 0 ∨
      t.balances (c.ecrecover (c.keccak256 (.delegation delegatee nonce expiry)) sig) = 0 ∨ lossy) :
    Changes lossy now t t' := by
  simp only [delegateBySigChecked, bind_eq_ok] at h
  obtain ⟨_, -, _, -, _, -, h⟩ := h
  obtain ⟨hne, hdel⟩ := delegateTo_ok h
  refine .tail (.single ?_) (.delegate _ delegatee hne (by exact hd) hdel)
  exact .other rfl rfl rfl rfl rfl

end Token

/-! ## Calls of NounsToken -/

namespace NounsToken

open Token

variable {H : Type} {c : Crypto H} {n n' : NounsToken} {now : Nat} {lossy : Prop}

/-- The call takes votes out of circulation: it delegates the balance of the signer to the zero
address. -/
def losesVotes (c : Crypto H) (n : NounsToken) : NounsTokenCall → Prop
  | .delegateBySig delegatee nonce expiry sig => delegatee = 0 ∧
      n.balances (c.ecrecover (c.keccak256 (.delegation delegatee nonce expiry)) sig) ≠ 0
  | _ => False

theorem mintNoun_changes {to_ : Address} {nounId : Nat}
    (h : n.mintNoun now to_ nounId = .ok n') : Changes lossy now n.toToken n'.toToken := by
  simp only [mintNoun, bind_eq_ok, pure_eq_ok] at h
  obtain ⟨t, ht, rfl⟩ := h
  exact (((Changes.of_move (mintTo_ok ht)).tail (.emit _ _ _ _)).tail (.emit _ _ _ _)).tail
    (.emit _ _ _ _)

theorem mintNext_changes {to_ : Address} (h : n.mintNext now to_ = .ok n') :
    Changes lossy now n.toToken n'.toToken :=
  mintNoun_changes (n := { n with currentNounId := n.currentNounId + 1 }) h

theorem mint_changes {sender : Address} (h : n.mint now sender = .ok n') :
    Changes lossy now n.toToken n'.toToken := by
  simp only [mint, bind_eq_ok] at h
  obtain ⟨_, -, h⟩ := h
  split at h
  · obtain ⟨n₁, h₁, h₂⟩ := bind_eq_ok.mp h
    exact (mintNext_changes h₁).trans (mintNext_changes h₂)
  · exact mintNext_changes h

theorem burn_changes {sender : Address} {nounId : Nat} (h : n.burn now sender nounId = .ok n') :
    Changes lossy now n.toToken n'.toToken := by
  simp only [burn, bind_eq_ok, pure_eq_ok] at h
  obtain ⟨_, -, t, ht, rfl⟩ := h
  exact (Changes.of_move (burnToken_ok ht)).tail (.emit _ _ _ _)

theorem transferFrom_changes {proxies : Address → Address} {sender from_ to_ : Address}
    {tokenId : Nat} (h : n.transferFrom proxies now sender from_ to_ tokenId = .ok n') :
    Changes lossy now n.toToken n'.toToken := by
  simp only [NounsToken.transferFrom, bind_eq_ok, pure_eq_ok] at h
  obtain ⟨t, ht, rfl⟩ := h
  exact .of_move (transferFrom_ok ht)

theorem call_changes {proxies : Address → Address} {received : Address → Tx Unit}
    {timestamp : Nat} {sender : Account} {cl : NounsTokenCall}
    (h : n.call c proxies received now timestamp sender cl = .ok n')
    (hlossy : n.losesVotes c cl → lossy) : Changes lossy now n.toToken n'.toToken := by
  cases cl with
  | mint => exact mint_changes h
  | burn nounId => exact burn_changes h
  | approve to_ tokenId =>
    simp only [call, bind_eq_ok, pure_eq_ok] at h
    obtain ⟨t, ht, rfl⟩ := h
    exact approve_changes ht
  | setApprovalForAll operator approved =>
    simp only [call, bind_eq_ok, pure_eq_ok] at h
    obtain ⟨t, ht, rfl⟩ := h
    exact setApprovalForAll_changes ht
  | transferFrom from_ to_ tokenId => exact transferFrom_changes h
  | safeTransferFrom from_ to_ tokenId =>
    simp only [call, safeTransferFrom, bind_eq_ok, pure_eq_ok] at h
    obtain ⟨n₁, h₁, _, -, rfl⟩ := h
    exact transferFrom_changes h₁
  | delegate delegatee =>
    simp only [call, bind_eq_ok, pure_eq_ok] at h
    obtain ⟨t, ht, rfl⟩ := h
    exact delegate_changes ht
  | delegateBySig delegatee nonce expiry sig =>
    simp only [call, bind_eq_ok, pure_eq_ok] at h
    obtain ⟨t, ht, rfl⟩ := h
    refine delegateBySigChecked_changes ht ?_
    by_cases hd : delegatee = 0
    · by_cases hb : n.balances
          (c.ecrecover (c.keccak256 (.delegation delegatee nonce expiry)) sig) = 0
      · exact .inr (.inl hb)
      · exact .inr (.inr (hlossy ⟨hd, hb⟩))
    · exact .inl hd
  | setNoundersDAO noundersDAO =>
    simp only [call, setNoundersDAO, bind_eq_ok, pure_eq_ok] at h
    obtain ⟨_, -, rfl⟩ := h
    exact .single (.emit _ _ _ _)
  | setMinter minter =>
    simp only [call, setMinter, bind_eq_ok, pure_eq_ok] at h
    obtain ⟨_, -, _, -, rfl⟩ := h
    exact .single (.emit _ _ _ _)
  | lockMinter =>
    simp only [call, lockMinter, bind_eq_ok, pure_eq_ok] at h
    obtain ⟨_, -, _, -, rfl⟩ := h
    exact .single (.emit _ _ _ _)
  | transferOwnership newOwner =>
    simp only [call, transferOwnership, bind_eq_ok, pure_eq_ok] at h
    obtain ⟨_, -, _, -, rfl⟩ := h
    exact .refl
  | renounceOwnership =>
    simp only [call, renounceOwnership, bind_eq_ok, pure_eq_ok] at h
    obtain ⟨_, -, rfl⟩ := h
    exact .refl

end NounsToken

/-! ## Calls of NounsTokenFork -/

namespace NounsTokenFork

open Token

variable {H : Type} {c : Crypto H} {n n' : NounsTokenFork} {now : Nat} {lossy : Prop}

theorem mintNoun_changes {to_ : Address} {nounId : Nat}
    (h : n.mintNoun now to_ nounId = .ok n') : Changes lossy now n.toToken n'.toToken := by
  simp only [mintNoun, bind_eq_ok, pure_eq_ok] at h
  obtain ⟨t, ht, rfl⟩ := h
  exact ((Changes.of_move (mintTo_ok ht)).tail (.emit _ _ _ _)).tail (.emit _ _ _ _)

theorem claimFromEscrow_changes {escrow : EscrowView} {sender : Address} {tokenIds : List Nat}
    (h : n.claimFromEscrow escrow now sender tokenIds = .ok n') :
    Changes lossy now n.toToken n'.toToken := by
  simp only [claimFromEscrow, bind_eq_ok, pure_eq_ok] at h
  obtain ⟨n₁, hloop, _, -, rfl⟩ := h
  refine foldlM_ok (P := fun m => Changes lossy now n.toToken m.toToken) hloop .refl ?_
  intro nounId _ u v hu hv
  rw [bind_eq_ok] at hv
  obtain ⟨_, -, hv⟩ := hv
  exact hu.trans (mintNoun_changes hv)

theorem claimDuringForkPeriod_changes {escrow : EscrowView} {timestamp : Nat}
    {sender to_ : Address} {tokenIds : List Nat}
    (h : n.claimDuringForkPeriod escrow now timestamp sender to_ tokenIds = .ok n') :
    Changes lossy now n.toToken n'.toToken := by
  simp only [claimDuringForkPeriod, bind_eq_ok, pure_eq_ok] at h
  obtain ⟨_, -, _, -, n₁, hloop, rfl⟩ := h
  have hchanges : Changes lossy now n.toToken n₁.toToken :=
    foldlM_ok (P := fun m => Changes lossy now n.toToken m.toToken) hloop .refl
      (fun nounId _ u v hu hv => hu.trans (mintNoun_changes hv))
  split
  · exact hchanges
  · exact hchanges

theorem burn_changes {sender : Address} {nounId : Nat} (h : n.burn now sender nounId = .ok n') :
    Changes lossy now n.toToken n'.toToken := by
  simp only [burn, bind_eq_ok, pure_eq_ok] at h
  obtain ⟨_, -, t, ht, rfl⟩ := h
  exact (Changes.of_move (burnToken_ok ht)).tail (.emit _ _ _ _)

theorem transferFrom_changes {sender from_ to_ : Address} {tokenId : Nat}
    (h : n.transferFrom now sender from_ to_ tokenId = .ok n') :
    Changes lossy now n.toToken n'.toToken := by
  simp only [NounsTokenFork.transferFrom, bind_eq_ok, pure_eq_ok] at h
  obtain ⟨t, ht, rfl⟩ := h
  exact .of_move (transferFrom_ok ht)

/-- No call of the fork token takes votes out of circulation. -/
theorem call_changes {escrow : EscrowView} {received : Address → Tx Unit}
    {timestamp : Nat} {sender : Account} {cl : NounsTokenForkCall}
    (h : n.call c escrow received now timestamp sender cl = .ok n') :
    Changes lossy now n.toToken n'.toToken := by
  cases cl with
  | claimFromEscrow tokenIds => exact claimFromEscrow_changes h
  | claimDuringForkPeriod to_ tokenIds => exact claimDuringForkPeriod_changes h
  | mint =>
    simp only [call, mint, bind_eq_ok] at h
    obtain ⟨_, -, h⟩ := h
    exact mintNoun_changes (n := { n with currentNounId := n.currentNounId + 1 }) h
  | burn nounId => exact burn_changes h
  | approve to_ tokenId =>
    simp only [call, bind_eq_ok, pure_eq_ok] at h
    obtain ⟨t, ht, rfl⟩ := h
    exact approve_changes ht
  | setApprovalForAll operator approved =>
    simp only [call, bind_eq_ok, pure_eq_ok] at h
    obtain ⟨t, ht, rfl⟩ := h
    exact setApprovalForAll_changes ht
  | transferFrom from_ to_ tokenId => exact transferFrom_changes h
  | safeTransferFrom from_ to_ tokenId =>
    simp only [call, safeTransferFrom, bind_eq_ok, pure_eq_ok] at h
    obtain ⟨n₁, h₁, _, -, rfl⟩ := h
    exact transferFrom_changes h₁
  | delegate delegatee =>
    simp only [call, bind_eq_ok, pure_eq_ok] at h
    obtain ⟨t, ht, rfl⟩ := h
    exact delegate_changes ht
  | delegateBySig delegatee nonce expiry sig =>
    simp only [call, delegateBySigUpgradeable, bind_eq_ok, require_eq_ok, pure_eq_ok] at h
    obtain ⟨t, ⟨_, hd, ht⟩, rfl⟩ := h
    exact delegateBySigChecked_changes ht (.inl hd)
  | setMinter minter =>
    simp only [call, setMinter, bind_eq_ok, pure_eq_ok] at h
    obtain ⟨_, -, _, -, rfl⟩ := h
    exact .single (.emit _ _ _ _)
  | lockMinter =>
    simp only [call, lockMinter, bind_eq_ok, pure_eq_ok] at h
    obtain ⟨_, -, _, -, rfl⟩ := h
    exact .single (.emit _ _ _ _)
  | transferOwnership newOwner =>
    simp only [call, transferOwnership, bind_eq_ok, pure_eq_ok] at h
    obtain ⟨_, -, _, -, rfl⟩ := h
    exact .refl
  | renounceOwnership =>
    simp only [call, renounceOwnership, bind_eq_ok, pure_eq_ok] at h
    obtain ⟨_, -, rfl⟩ := h
    exact .refl

end NounsTokenFork

end Nouns
