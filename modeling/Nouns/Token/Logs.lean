import Nouns.Token.Histories

/-!
# Logs — the events of a call

What a call does to owners and delegates, and what it does to votes, is in its events.  The two are
told separately: a call is a sequence of changes of the ledger, each with its events, and a sequence
of changes of votes, each with its event.
-/

open Fallible Checkpoints Transition Relation

namespace Nouns

namespace Token

variable {t t' t₁ : Token} {now : Nat}

/-! ## The ledger -/

/-- Neither a transfer nor a change of delegate. -/
def Quiet : TokenEvent → Prop
  | .Transfer .. | .DelegateChanged .. => False
  | _ => True

/-- The log grew by events that are quiet. -/
def QuietlyLogged (t t' : Token) : Prop :=
  ∃ quiet : List TokenEvent, (∀ e ∈ quiet, Quiet e) ∧ t'.log = quiet ++ t.log

theorem QuietlyLogged.refl (t : Token) : QuietlyLogged t t := ⟨[], nofun, rfl⟩

theorem QuietlyLogged.emit (t : Token) {e : TokenEvent} (he : Quiet e) :
    QuietlyLogged t (t.emit e) :=
  ⟨[e], by simpa using he, rfl⟩

theorem QuietlyLogged.trans (h : QuietlyLogged t t₁) (h' : QuietlyLogged t₁ t') :
    QuietlyLogged t t' := by
  obtain ⟨quiet, hquiet, hlog⟩ := h
  obtain ⟨quiet', hquiet', hlog'⟩ := h'
  refine ⟨quiet' ++ quiet, ?_, by rw [hlog', hlog, List.append_assoc]⟩
  intro e he
  rcases List.mem_append.mp he with he | he
  · exact hquiet' e he
  · exact hquiet e he

theorem writeCheckpoint_quiet {delegatee : Address} {oldVotes newVotes : Nat}
    (h : t.writeCheckpoint now delegatee oldVotes newVotes = .ok t') : QuietlyLogged t t' := by
  simp only [writeCheckpoint, bind_eq_ok, require_eq_ok, pure_eq_ok] at h
  obtain ⟨_, -, rfl⟩ := h
  exact ⟨[.DelegateVotesChanged delegatee oldVotes newVotes], by simp [Quiet], rfl⟩

theorem removeVotes_quiet {src : Address} {amount : Nat}
    (h : t.removeVotes now src amount = .ok t') : QuietlyLogged t t' := by
  unfold removeVotes at h
  split at h
  · obtain ⟨_, -, h⟩ := bind_eq_ok.mp h
    exact writeCheckpoint_quiet h
  · rw [← pure_eq_ok.mp h]
    exact .refl t

theorem addVotes_quiet {dst : Address} {amount : Nat} (h : t.addVotes now dst amount = .ok t') :
    QuietlyLogged t t' := by
  unfold addVotes at h
  split at h
  · obtain ⟨_, -, h⟩ := bind_eq_ok.mp h
    exact writeCheckpoint_quiet h
  · rw [← pure_eq_ok.mp h]
    exact .refl t

theorem moveDelegates_quiet {src dst : Address} {amount : Nat}
    (h : t.moveDelegates now src dst amount = .ok t') : QuietlyLogged t t' := by
  unfold moveDelegates at h
  split at h
  · obtain ⟨t₁, h₁, h⟩ := bind_eq_ok.mp h
    exact (removeVotes_quiet h₁).trans (addVotes_quiet h)
  · rw [← pure_eq_ok.mp h]
    exact .refl t

theorem updateEnumeration_log {from_ to_ : Address} {tokenId : Nat}
    (h : t.updateEnumeration from_ to_ tokenId = .ok t') : t'.log = t.log := by
  have hadd : ∀ l, (if from_ = 0 then { t with allTokens := l } else t).log = t.log := by
    intro l
    split <;> rfl
  unfold updateEnumeration at h
  dsimp only at h
  split at h
  · split at h
    · rw [← pure_eq_ok.mp h]
      exact hadd _
    · cases h
  · rw [← pure_eq_ok.mp h]
    exact hadd _

theorem beforeTokenTransfer_quiet {from_ to_ : Address} {tokenId : Nat}
    (h : t.beforeTokenTransfer now from_ to_ tokenId = .ok t') : QuietlyLogged t t' := by
  obtain ⟨t₁, h₁, h⟩ := bind_eq_ok.mp h
  obtain ⟨quiet, hquiet, hlog⟩ := moveDelegates_quiet h
  exact ⟨quiet, hquiet, by rw [hlog, updateEnumeration_log h₁]⟩

theorem approveToken_quiet {to_ : Address} {tokenId : Nat}
    (h : t.approveToken to_ tokenId = .ok t') : QuietlyLogged t t' := by
  simp only [approveToken, bind_eq_ok, pure_eq_ok] at h
  obtain ⟨owner, -, rfl⟩ := h
  exact ⟨[.Approval owner to_ tokenId], by simp [Quiet], rfl⟩

theorem mintTo_quiet {to_ : Address} {tokenId : Nat} (h : t.mintTo now to_ tokenId = .ok t') :
    QuietlyLogged t t' := by
  simp only [mintTo, bind_eq_ok, require_eq_ok, pure_eq_ok] at h
  obtain ⟨_, -, _, -, t₁, h₁, rfl⟩ := h
  obtain ⟨quiet, hquiet, hlog⟩ := beforeTokenTransfer_quiet h₁
  exact ⟨quiet, hquiet, hlog⟩

/-- The event of a transfer comes after its quiet events. -/
theorem transfer_log {from_ to_ : Address} {tokenId : Nat}
    (h : t.transfer now from_ to_ tokenId = .ok t') :
    ∃ t₁, QuietlyLogged t t₁ ∧ t'.log = .Transfer from_ to_ tokenId :: t₁.log := by
  simp only [transfer, bind_eq_ok, require_eq_ok, checkedSub_eq_ok, pure_eq_ok] at h
  obtain ⟨_, -, _, -, _, -, t₁, h₁, t₂, h₂, _, -, rfl⟩ := h
  exact ⟨t₂, (beforeTokenTransfer_quiet h₁).trans (approveToken_quiet h₂), rfl⟩

theorem burnToken_log {tokenId : Nat} (h : t.burnToken now tokenId = .ok t') :
    t.owners tokenId ≠ 0 ∧
      ∃ t₁, QuietlyLogged t t₁ ∧ t'.log = .Transfer (t.owners tokenId) 0 tokenId :: t₁.log := by
  simp only [burnToken, bind_eq_ok, checkedSub_eq_ok, pure_eq_ok] at h
  obtain ⟨owner, howner, t₁, h₁, t₂, h₂, _, -, rfl⟩ := h
  obtain ⟨hne, rfl⟩ := ownerOf_ok howner
  exact ⟨hne, t₂, (beforeTokenTransfer_quiet h₁).trans (approveToken_quiet h₂), rfl⟩

/-- One change of owners or delegates in block `now`, with its events.  The delegations are those
that `ok` allows. -/
inductive LedgerStep (ok : Token → Address → Address → Prop) (now : Nat) (t t' : Token) : Prop
  | mint (creator to_ : Address) (tokenId : Nat) (t₁ : Token) : TokenMoved now 0 to_ tokenId t t' →
      QuietlyLogged t t₁ →
      t'.log = .Transfer creator to_ tokenId :: .Transfer 0 creator tokenId :: t₁.log →
      LedgerStep ok now t t'
  | move (from_ to_ : Address) (tokenId : Nat) (t₁ : Token) : from_ ≠ 0 →
      TokenMoved now from_ to_ tokenId t t' → QuietlyLogged t t₁ →
      t'.log = .Transfer from_ to_ tokenId :: t₁.log → LedgerStep ok now t t'
  | delegate (delegator delegatee : Address) (t₁ : Token) : delegator ≠ 0 → ok t delegator delegatee →
      Delegated now delegator delegatee t t' → QuietlyLogged t₁ t' →
      t₁.log = .DelegateChanged delegator (t.delegates delegator) delegatee :: t.log →
      LedgerStep ok now t t'
  | quiet : t'.owners = t.owners → t'.balances = t.balances → t'.allTokens = t.allTokens →
      t'.delegateMap = t.delegateMap → t'.checkpoints = t.checkpoints → QuietlyLogged t t' →
      LedgerStep ok now t t'

/-- What a call does to the ledger, event by event. -/
abbrev LedgerSteps (ok : Token → Address → Address → Prop) (now : Nat) : Token → Token → Prop :=
  ReflTransGen (LedgerStep ok now)

variable {ok : Token → Address → Address → Prop}

theorem LedgerStep.ledger (h : LedgerStep ok now t t') (hl : t.Ledger) : t'.Ledger := by
  cases h with
  | mint creator to_ tokenId t₁ hmoved => exact hmoved.ledger hl
  | move from_ to_ tokenId t₁ _ hmoved => exact hmoved.ledger hl
  | delegate delegator delegatee t₁ hne _ hdelegated => exact hdelegated.ledger hne hl
  | quiet howners hbalances hallTokens hdelegateMap hcheckpoints _ =>
    have hchange : Change True now t t' :=
      .other howners hbalances hallTokens hdelegateMap hcheckpoints
    exact hchange.ledger hl

theorem transferFrom_ledger {isApprovedForAll : Address → Address → Bool}
    {sender from_ to_ : Address} {tokenId : Nat}
    (h : t.transferFrom isApprovedForAll now sender from_ to_ tokenId = .ok t') :
    LedgerSteps ok now t t' := by
  have hmoved := transferFrom_ok h
  simp only [transferFrom, bind_eq_ok] at h
  obtain ⟨_, -, _, -, h⟩ := h
  obtain ⟨t₁, hquiet, hlog⟩ := transfer_log h
  have hne : from_ ≠ 0 := by
    simp only [transfer, bind_eq_ok, require_eq_ok] at h
    obtain ⟨owner, howner, _, rfl, -⟩ := h
    exact (ownerOf_ok howner).2 ▸ (ownerOf_ok howner).1
  exact .single (.move from_ to_ tokenId t₁ hne hmoved hquiet hlog)

theorem burnToken_ledger {tokenId : Nat} (h : t.burnToken now tokenId = .ok t') :
    LedgerSteps ok now t t' := by
  obtain ⟨hne, t₁, hquiet, hlog⟩ := burnToken_log h
  exact .single (.move _ 0 tokenId t₁ hne (burnToken_ok h) hquiet hlog)

theorem delegateTo_ledger {delegator delegatee : Address}
    (h : t.delegateTo now delegator delegatee = .ok t') (hok : ok t delegator delegatee) :
    LedgerSteps ok now t t' := by
  obtain ⟨hne, hdelegated⟩ := delegateTo_ok h
  simp only [delegateTo, bind_eq_ok] at h
  obtain ⟨_, -, h⟩ := h
  exact .single (.delegate delegator delegatee _ hne hok hdelegated (moveDelegates_quiet h) rfl)

theorem approve_ledger {isApprovedForAll : Address → Address → Bool} {sender : Account}
    {to_ : Address} {tokenId : Nat}
    (h : t.approve isApprovedForAll sender to_ tokenId = .ok t') : LedgerSteps ok now t t' := by
  simp only [approve, bind_eq_ok] at h
  obtain ⟨_, -, _, -, _, -, h⟩ := h
  have hquiet := approveToken_quiet h
  obtain ⟨_, _, rfl⟩ := approveToken_ok h
  exact .single (.quiet rfl rfl rfl rfl rfl hquiet)

theorem LedgerSteps.emit (t : Token) {e : TokenEvent} (he : Quiet e) :
    LedgerSteps ok now t (t.emit e) :=
  .single (.quiet rfl rfl rfl rfl rfl (.emit t he))

theorem setApprovalForAll_ledger {sender : Account} {operator : Address} {approved : Bool}
    (h : t.setApprovalForAll sender operator approved = .ok t') : LedgerSteps ok now t t' := by
  simp only [setApprovalForAll, bind_eq_ok, pure_eq_ok] at h
  obtain ⟨_, -, rfl⟩ := h
  exact .single (.quiet rfl rfl rfl rfl rfl ⟨[.ApprovalForAll sender operator approved], by simp [Quiet],
    rfl⟩)

/-! ## Votes -/

def ChangesVotes : TokenEvent → Prop
  | .DelegateVotesChanged .. => True
  | _ => False

/-- One change of the votes of an account, with its event, or other events. -/
inductive VoteStep (t t' : Token) : Prop
  | write (delegatee : Address) (newVotes : Nat) : newVotes ≠ t.getCurrentVotes delegatee →
      t'.getCurrentVotes = Function.update t.getCurrentVotes delegatee newVotes →
      t'.log = .DelegateVotesChanged delegatee (t.getCurrentVotes delegatee) newVotes :: t.log →
      VoteStep t t'
  | silent (events : List TokenEvent) : t'.checkpoints = t.checkpoints →
      (∀ e ∈ events, ¬ ChangesVotes e) → t'.log = events ++ t.log → VoteStep t t'

abbrev VoteSteps : Token → Token → Prop := ReflTransGen VoteStep

/-- Nothing that votes depend on changes. -/
theorem VoteSteps.of_eq (hcheckpoints : t'.checkpoints = t.checkpoints) (hlog : t'.log = t.log) :
    VoteSteps t t' :=
  .single (.silent [] hcheckpoints nofun hlog)

theorem VoteSteps.of_event {e : TokenEvent} (hcheckpoints : t'.checkpoints = t.checkpoints)
    (he : ¬ ChangesVotes e) (hlog : t'.log = e :: t.log) : VoteSteps t t' :=
  .single (.silent [e] hcheckpoints (by simpa using he) hlog)

theorem writeCheckpoint_votes {delegatee : Address} {newVotes : Nat}
    (h : t.writeCheckpoint now delegatee (t.getCurrentVotes delegatee) newVotes = .ok t')
    (hne : newVotes ≠ t.getCurrentVotes delegatee) : VoteSteps t t' := by
  obtain ⟨-, -, hcheckpoints⟩ := writeCheckpoint_ok h
  simp only [writeCheckpoint, bind_eq_ok, require_eq_ok, pure_eq_ok] at h
  obtain ⟨_, -, rfl⟩ := h
  refine .single (.write delegatee newVotes hne ?_ rfl)
  funext a
  rw [getCurrentVotes_of_update hcheckpoints, Function.update_apply]

theorem removeVotes_votes {src : Address} {amount : Nat} (h : t.removeVotes now src amount = .ok t')
    (hamount : amount > 0) : VoteSteps t t' := by
  unfold removeVotes at h
  split at h
  · simp only [sub96, bind_eq_ok, require_eq_ok, pure_eq_ok] at h
    obtain ⟨v, ⟨_, hle, rfl⟩, h⟩ := h
    exact writeCheckpoint_votes h (by omega)
  · rw [← pure_eq_ok.mp h]

theorem addVotes_votes {dst : Address} {amount : Nat} (h : t.addVotes now dst amount = .ok t')
    (hamount : amount > 0) : VoteSteps t t' := by
  unfold addVotes at h
  split at h
  · simp only [add96, bind_eq_ok, checked_eq_ok, require_eq_ok, pure_eq_ok] at h
    obtain ⟨v, ⟨_, ⟨-, rfl⟩, _, -, rfl⟩, h⟩ := h
    exact writeCheckpoint_votes h (by omega)
  · rw [← pure_eq_ok.mp h]

theorem moveDelegates_votes {src dst : Address} {amount : Nat}
    (h : t.moveDelegates now src dst amount = .ok t') : VoteSteps t t' := by
  unfold moveDelegates at h
  split at h
  · rename_i hmove
    obtain ⟨t₁, h₁, h⟩ := bind_eq_ok.mp h
    exact (removeVotes_votes h₁ hmove.2).trans (addVotes_votes h hmove.2)
  · rw [← pure_eq_ok.mp h]

theorem updateEnumeration_checkpoints {from_ to_ : Address} {tokenId : Nat}
    (h : t.updateEnumeration from_ to_ tokenId = .ok t') : t'.checkpoints = t.checkpoints := by
  have hadd : ∀ l, (if from_ = 0 then { t with allTokens := l } else t).checkpoints =
      t.checkpoints := by
    intro l
    split <;> rfl
  unfold updateEnumeration at h
  dsimp only at h
  split at h
  · split at h
    · rw [← pure_eq_ok.mp h]
      exact hadd _
    · cases h
  · rw [← pure_eq_ok.mp h]
    exact hadd _

theorem beforeTokenTransfer_votes {from_ to_ : Address} {tokenId : Nat}
    (h : t.beforeTokenTransfer now from_ to_ tokenId = .ok t') : VoteSteps t t' := by
  obtain ⟨t₁, h₁, h⟩ := bind_eq_ok.mp h
  exact (VoteSteps.of_eq (updateEnumeration_checkpoints h₁) (updateEnumeration_log h₁)).trans
    (moveDelegates_votes h)

theorem approveToken_votes {to_ : Address} {tokenId : Nat}
    (h : t.approveToken to_ tokenId = .ok t') : VoteSteps t t' := by
  simp only [approveToken, bind_eq_ok, pure_eq_ok] at h
  obtain ⟨owner, -, rfl⟩ := h
  exact .of_event rfl id rfl

theorem mintTo_votes {to_ : Address} {tokenId : Nat} (h : t.mintTo now to_ tokenId = .ok t') :
    VoteSteps t t' := by
  simp only [mintTo, bind_eq_ok, require_eq_ok, pure_eq_ok] at h
  obtain ⟨_, -, _, -, t₁, h₁, rfl⟩ := h
  exact (beforeTokenTransfer_votes h₁).trans (VoteSteps.of_eq rfl rfl)

theorem transfer_votes {from_ to_ : Address} {tokenId : Nat}
    (h : t.transfer now from_ to_ tokenId = .ok t') : VoteSteps t t' := by
  simp only [transfer, bind_eq_ok, require_eq_ok, checkedSub_eq_ok, pure_eq_ok] at h
  obtain ⟨_, -, _, -, _, -, t₁, h₁, t₂, h₂, _, -, rfl⟩ := h
  have hbefore := (beforeTokenTransfer_votes h₁).trans (approveToken_votes h₂)
  exact hbefore.trans (VoteSteps.of_event rfl id rfl)

theorem burnToken_votes {tokenId : Nat} (h : t.burnToken now tokenId = .ok t') : VoteSteps t t' := by
  simp only [burnToken, bind_eq_ok, checkedSub_eq_ok, pure_eq_ok] at h
  obtain ⟨owner, -, t₁, h₁, t₂, h₂, _, -, rfl⟩ := h
  have hbefore := (beforeTokenTransfer_votes h₁).trans (approveToken_votes h₂)
  exact hbefore.trans (VoteSteps.of_event rfl id rfl)

theorem delegateTo_votes {delegator delegatee : Address}
    (h : t.delegateTo now delegator delegatee = .ok t') : VoteSteps t t' := by
  simp only [delegateTo, bind_eq_ok] at h
  obtain ⟨_, -, h⟩ := h
  refine ReflTransGen.trans ?_ (moveDelegates_votes h)
  exact VoteSteps.of_event rfl id rfl

theorem transferFrom_votes {isApprovedForAll : Address → Address → Bool}
    {sender from_ to_ : Address} {tokenId : Nat}
    (h : t.transferFrom isApprovedForAll now sender from_ to_ tokenId = .ok t') : VoteSteps t t' := by
  simp only [transferFrom, bind_eq_ok] at h
  obtain ⟨_, -, _, -, h⟩ := h
  exact transfer_votes h

theorem approve_votes {isApprovedForAll : Address → Address → Bool} {sender : Account}
    {to_ : Address} {tokenId : Nat}
    (h : t.approve isApprovedForAll sender to_ tokenId = .ok t') : VoteSteps t t' := by
  simp only [approve, bind_eq_ok] at h
  obtain ⟨_, -, _, -, _, -, h⟩ := h
  exact approveToken_votes h

theorem setApprovalForAll_votes {sender : Account} {operator : Address} {approved : Bool}
    (h : t.setApprovalForAll sender operator approved = .ok t') : VoteSteps t t' := by
  simp only [setApprovalForAll, bind_eq_ok, pure_eq_ok] at h
  obtain ⟨_, -, rfl⟩ := h
  exact .of_event rfl id rfl

end Token

namespace NounsToken

open Token

variable {H : Type} {c : Crypto H} {n n' : NounsToken} {now : Nat}
  {ok : Token → Address → Address → Prop}

theorem mintNoun_ledger {to_ : Address} {nounId : Nat} (h : n.mintNoun now to_ nounId = .ok n') :
    LedgerSteps ok now n.toToken n'.toToken := by
  obtain ⟨t, hmint, h⟩ := bind_eq_ok.mp h
  obtain rfl := pure_eq_ok.mp h
  have hmoved := mintTo_ok hmint
  have hevents : LedgerStep ok now n.toToken
      ((t.emit (.Transfer 0 n.owner nounId)).emit (.Transfer n.owner to_ nounId)) := by
    refine .mint n.owner to_ nounId t ?_ (mintTo_quiet hmint) rfl
    exact ⟨hmoved.owner, hmoved.someone, hmoved.owners, hmoved.balances, hmoved.balances_zero,
      hmoved.delegateMap, hmoved.minted, hmoved.burned, hmoved.kept, hmoved.moved.writes,
      hmoved.moved.zero, hmoved.moved.votes⟩
  exact .head hevents (LedgerSteps.emit _ trivial)

theorem mintNext_ledger {to_ : Address} (h : n.mintNext now to_ = .ok n') :
    LedgerSteps ok now n.toToken n'.toToken :=
  mintNoun_ledger (n := { n with currentNounId := n.currentNounId + 1 }) h

theorem mint_ledger {sender : Address} (h : n.mint now sender = .ok n') :
    LedgerSteps ok now n.toToken n'.toToken := by
  simp only [mint, bind_eq_ok] at h
  obtain ⟨_, -, h⟩ := h
  split at h
  · obtain ⟨n₁, h₁, h⟩ := bind_eq_ok.mp h
    exact (mintNext_ledger h₁).trans (mintNext_ledger h)
  · exact mintNext_ledger h

/-- Who delegates to whom. -/
def delegating (c : Crypto H) (sender : Account) : NounsTokenCall → Option (Address × Address)
  | .delegate delegatee => some (sender, if delegatee = 0 then sender.val else delegatee)
  | .delegateBySig delegatee nonce expiry sig =>
      some (c.ecrecover (c.keccak256 (.delegation delegatee nonce expiry)) sig, delegatee)
  | _ => none

theorem call_ledger {proxies : Address → Address} {received : Address → Tx Unit} {timestamp : Nat}
    {sender : Account} {cl : NounsTokenCall}
    (h : n.call c proxies received now timestamp sender cl = .ok n')
    (hok : ∀ delegator delegatee, delegating c sender cl = some (delegator, delegatee) →
      ∀ t : Token, t.balances = n.balances → t.delegateMap = n.delegateMap →
        ok t delegator delegatee) :
    LedgerSteps ok now n.toToken n'.toToken := by
  cases cl with
  | mint => exact mint_ledger h
  | burn nounId =>
    obtain ⟨_, -, h⟩ := bind_eq_ok.mp h
    obtain ⟨t, hburn, h⟩ := bind_eq_ok.mp h
    rw [← pure_eq_ok.mp h]
    exact (burnToken_ledger hburn).trans (LedgerSteps.emit t trivial)
  | approve to_ tokenId =>
    obtain ⟨t, happrove, h⟩ := bind_eq_ok.mp h
    rw [← pure_eq_ok.mp h]
    exact approve_ledger happrove
  | setApprovalForAll operator approved =>
    obtain ⟨t, happrove, h⟩ := bind_eq_ok.mp h
    rw [← pure_eq_ok.mp h]
    exact setApprovalForAll_ledger happrove
  | transferFrom from_ to_ tokenId =>
    obtain ⟨t, htransfer, h⟩ := bind_eq_ok.mp h
    rw [← pure_eq_ok.mp h]
    exact transferFrom_ledger htransfer
  | safeTransferFrom from_ to_ tokenId =>
    obtain ⟨n₁, h₁, h⟩ := bind_eq_ok.mp h
    obtain ⟨_, -, h⟩ := bind_eq_ok.mp h
    obtain ⟨t, htransfer, h₁⟩ := bind_eq_ok.mp h₁
    rw [← pure_eq_ok.mp h, ← pure_eq_ok.mp h₁]
    exact transferFrom_ledger htransfer
  | delegate delegatee =>
    obtain ⟨t, hdelegate, h⟩ := bind_eq_ok.mp h
    rw [← pure_eq_ok.mp h]
    exact delegateTo_ledger hdelegate (hok _ _ rfl _ rfl rfl)
  | delegateBySig delegatee nonce expiry sig =>
    obtain ⟨t, hdelegate, h⟩ := bind_eq_ok.mp h
    rw [← pure_eq_ok.mp h]
    simp only [delegateBySig, delegateBySigChecked, bind_eq_ok] at hdelegate
    obtain ⟨_, -, _, -, _, -, hdelegate⟩ := hdelegate
    -- The nonce is consumed first.
    refine ReflTransGen.head ?_ (delegateTo_ledger hdelegate (hok _ _ rfl _ rfl rfl))
    exact .quiet rfl rfl rfl rfl rfl (.refl _)
  | setNoundersDAO noundersDAO =>
    obtain ⟨_, -, h⟩ := bind_eq_ok.mp h
    rw [← pure_eq_ok.mp h]
    exact LedgerSteps.emit _ trivial
  | setMinter minter =>
    obtain ⟨_, -, h⟩ := bind_eq_ok.mp h
    obtain ⟨_, -, h⟩ := bind_eq_ok.mp h
    rw [← pure_eq_ok.mp h]
    exact LedgerSteps.emit _ trivial
  | lockMinter =>
    obtain ⟨_, -, h⟩ := bind_eq_ok.mp h
    obtain ⟨_, -, h⟩ := bind_eq_ok.mp h
    rw [← pure_eq_ok.mp h]
    exact LedgerSteps.emit _ trivial
  | transferOwnership newOwner =>
    obtain ⟨_, -, h⟩ := bind_eq_ok.mp h
    obtain ⟨_, -, h⟩ := bind_eq_ok.mp h
    rw [← pure_eq_ok.mp h]
  | renounceOwnership =>
    obtain ⟨_, -, h⟩ := bind_eq_ok.mp h
    rw [← pure_eq_ok.mp h]

/-- A step of the token in which a call delegates only as `ok` allows. -/
inductive NextDelegating (c : Crypto H) (ok : Token → Address → Address → Prop) :
    Clocked NounsToken → Clocked NounsToken → Prop
  | advance {s s'} : s.Later s' → NextDelegating c ok s s'
  | call {s n'} (proxies : Address → Address) (received : Address → Tx Unit) (sender : Account)
      (cl : NounsTokenCall) :
      (∀ delegator delegatee, delegating c sender cl = some (delegator, delegatee) →
        ok s.token.toToken delegator delegatee) →
      s.token.call c proxies received s.blockNumber s.timestamp sender cl = .ok n' →
      NextDelegating c ok s { s with token := n' }

/-- What holds of a new token and is kept by every change of the ledger. -/
theorem delegating_invariant {P : Token → Prop} {s : Clocked NounsToken}
    (h : Reachable Deployed (NextDelegating c ok) s)
    (hok : ∀ t t' : Token, t'.balances = t.balances → t'.delegateMap = t.delegateMap →
      ∀ delegator delegatee, ok t delegator delegatee → ok t' delegator delegatee)
    (hempty : P Token.empty) (hstep : ∀ now t t', P t → LedgerStep ok now t t' → P t') :
    P s.token.toToken := by
  refine h.invariant (P := fun s => P s.token.toToken) ?_ ?_
  · rintro s ⟨_, _, _, hs⟩
    rw [hs]
    exact hempty
  · intro s s' _ hP hnext
    cases hnext with
    | advance hl =>
      rw [hl.2.2]
      exact hP
    | call proxies received sender cl hdelegating hcall =>
      refine steps_preserve (call_ledger hcall ?_) hP (fun t t' => hstep s.blockNumber t t')
      intro delegator delegatee hd t hbalances hdelegateMap
      exact hok _ t hbalances hdelegateMap _ _ (hdelegating _ _ hd)

theorem Next.delegating {s s' : Clocked NounsToken} {admits : NounsToken → NounsTokenCall → Prop}
    (h : Next c admits s s') : NextDelegating c (fun _ _ _ => True) s s' := by
  cases h with
  | advance hl => exact .advance hl
  | call proxies received sender cl _ hcall =>
    exact .call proxies received sender cl (fun _ _ _ => trivial) hcall

/-- What holds of a new token and is kept by every change of the ledger, in any run. -/
theorem ledger_invariant {P : Token → Prop} {s : Clocked NounsToken}
    {admits : NounsToken → NounsTokenCall → Prop} (h : Reachable Deployed (Next c admits) s)
    (hempty : P Token.empty)
    (hstep : ∀ now t t', P t → LedgerStep (fun _ _ _ => True) now t t' → P t') :
    P s.token.toToken :=
  delegating_invariant (h.mono (fun _ => id) fun _ _ => Next.delegating)
    (fun _ _ _ _ _ _ => id) hempty hstep

/-! ## Votes of a call -/

theorem mintNext_votes {to_ : Address} (h : n.mintNext now to_ = .ok n') :
    VoteSteps n.toToken n'.toToken := by
  simp only [mintNext, mintNoun, bind_eq_ok, pure_eq_ok] at h
  obtain ⟨t, hmint, rfl⟩ := h
  have h₁ : VoteSteps n.toToken t := mintTo_votes hmint
  have h₂ : VoteSteps t (t.emit (.Transfer 0 n.owner n.currentNounId)) := .of_event rfl id rfl
  have h₃ : VoteSteps (t.emit (.Transfer 0 n.owner n.currentNounId))
      ((t.emit (.Transfer 0 n.owner n.currentNounId)).emit (.Transfer n.owner to_ n.currentNounId)) :=
    .of_event rfl id rfl
  exact ((h₁.trans h₂).trans h₃).trans (VoteSteps.of_event rfl id rfl)

theorem call_votes {proxies : Address → Address} {received : Address → Tx Unit} {timestamp : Nat}
    {sender : Account} {cl : NounsTokenCall}
    (h : n.call c proxies received now timestamp sender cl = .ok n') :
    VoteSteps n.toToken n'.toToken := by
  cases cl with
  | mint =>
    simp only [call, mint, bind_eq_ok] at h
    obtain ⟨_, -, h⟩ := h
    split at h
    · obtain ⟨n₁, h₁, h⟩ := bind_eq_ok.mp h
      exact (mintNext_votes h₁).trans (mintNext_votes h)
    · exact mintNext_votes h
  | burn nounId =>
    obtain ⟨_, -, h⟩ := bind_eq_ok.mp h
    obtain ⟨t, hburn, h⟩ := bind_eq_ok.mp h
    rw [← pure_eq_ok.mp h]
    exact (burnToken_votes hburn).trans (VoteSteps.of_event rfl id rfl)
  | approve to_ tokenId =>
    obtain ⟨t, happrove, h⟩ := bind_eq_ok.mp h
    rw [← pure_eq_ok.mp h]
    exact approve_votes happrove
  | setApprovalForAll operator approved =>
    obtain ⟨t, happrove, h⟩ := bind_eq_ok.mp h
    rw [← pure_eq_ok.mp h]
    exact setApprovalForAll_votes happrove
  | transferFrom from_ to_ tokenId =>
    obtain ⟨t, htransfer, h⟩ := bind_eq_ok.mp h
    rw [← pure_eq_ok.mp h]
    exact transferFrom_votes htransfer
  | safeTransferFrom from_ to_ tokenId =>
    obtain ⟨n₁, h₁, h⟩ := bind_eq_ok.mp h
    obtain ⟨_, -, h⟩ := bind_eq_ok.mp h
    obtain ⟨t, htransfer, h₁⟩ := bind_eq_ok.mp h₁
    rw [← pure_eq_ok.mp h, ← pure_eq_ok.mp h₁]
    exact transferFrom_votes htransfer
  | delegate delegatee =>
    obtain ⟨t, hdelegate, h⟩ := bind_eq_ok.mp h
    rw [← pure_eq_ok.mp h]
    exact delegateTo_votes hdelegate
  | delegateBySig delegatee nonce expiry sig =>
    obtain ⟨t, hdelegate, h⟩ := bind_eq_ok.mp h
    rw [← pure_eq_ok.mp h]
    simp only [delegateBySig, delegateBySigChecked, bind_eq_ok] at hdelegate
    obtain ⟨_, -, _, -, _, -, hdelegate⟩ := hdelegate
    refine ReflTransGen.trans ?_ (delegateTo_votes hdelegate)
    exact VoteSteps.of_eq rfl rfl
  | setNoundersDAO noundersDAO =>
    obtain ⟨_, -, h⟩ := bind_eq_ok.mp h
    rw [← pure_eq_ok.mp h]
    exact .of_event rfl id rfl
  | setMinter minter =>
    obtain ⟨_, -, h⟩ := bind_eq_ok.mp h
    obtain ⟨_, -, h⟩ := bind_eq_ok.mp h
    rw [← pure_eq_ok.mp h]
    exact .of_event rfl id rfl
  | lockMinter =>
    obtain ⟨_, -, h⟩ := bind_eq_ok.mp h
    obtain ⟨_, -, h⟩ := bind_eq_ok.mp h
    rw [← pure_eq_ok.mp h]
    exact .of_event rfl id rfl
  | transferOwnership newOwner =>
    obtain ⟨_, -, h⟩ := bind_eq_ok.mp h
    obtain ⟨_, -, h⟩ := bind_eq_ok.mp h
    rw [← pure_eq_ok.mp h]
  | renounceOwnership =>
    obtain ⟨_, -, h⟩ := bind_eq_ok.mp h
    rw [← pure_eq_ok.mp h]

/-- What holds of a new token and is kept by every change of votes. -/
theorem votes_invariant {P : Token → Prop} {s : Clocked NounsToken}
    {admits : NounsToken → NounsTokenCall → Prop} (h : Reachable Deployed (Next c admits) s)
    (hempty : P Token.empty) (hstep : ∀ t t', P t → VoteStep t t' → P t') : P s.token.toToken := by
  refine h.invariant (P := fun s => P s.token.toToken) ?_ ?_
  · rintro s ⟨_, _, _, hs⟩
    rw [hs]
    exact hempty
  · intro s s' _ hP hnext
    cases hnext with
    | advance hl =>
      rw [hl.2.2]
      exact hP
    | call proxies received sender cl _ hcall => exact steps_preserve (call_votes hcall) hP hstep

end NounsToken

end Nouns
