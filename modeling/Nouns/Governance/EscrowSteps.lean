import Nouns.Governance.LifeCycle
import Nouns.Governance.CallStack
import Nouns.Token.Approvals
import Nouns.Token.Histories

/-!
# EscrowSteps — what a step does to the Nouns and to the escrow

The DAO keeps the addresses of its escrow and of its timelocks in local variables while it calls
out, so the calls in progress have to agree with its storage.  `EscrowStep` then sorts the steps of
the chain by what they do to the token and to the escrow at one address.
-/

open Fallible Transition

namespace Nouns

variable {H : Type}

/-- The contracts of the DAO are at different addresses. -/
structure Deployment.Apart (d : Deployment H) (escrow : Address) : Prop where
  dao_isContract : d.isContract d.dao = true
  escrow_isContract : d.isContract escrow = true
  escrow_ne_zero : escrow ≠ 0
  escrow_ne_dao : escrow ≠ d.dao
  timelock_ne_zero : d.timelock ≠ 0
  timelock_ne : d.timelock ≠ escrow ∧ d.timelock ≠ d.dao
  timelockV1_ne : d.timelockV1 ≠ escrow ∧ d.timelockV1 ≠ d.dao

namespace World

/-- The escrow and the timelocks are where they were deployed, and the OpenSea registry has no proxy
for the escrow, which never asked for one. -/
structure EscrowFixed (d : Deployment H) (escrow : Address) (w : World H) : Prop where
  timelocks : w.TimelocksFixed d
  forkEscrow : w.dao.forkEscrow = escrow
  proxies : w.outside.proxies escrow = 0

instance (d : Deployment H) (escrow : Address) (w : World H) : Decidable (w.EscrowFixed d escrow) :=
  decidable_of_iff (w.TimelocksFixed d ∧ w.dao.forkEscrow = escrow ∧
    w.outside.proxies escrow = 0)
    ⟨fun ⟨h₁, h₂, h₃⟩ => ⟨h₁, h₂, h₃⟩, fun ⟨h₁, h₂, h₃⟩ => ⟨h₁, h₂, h₃⟩⟩

end World

/-! ## Calls in progress -/

/-- An account that can call the DAO: neither the escrow nor the DAO itself does. -/
def Deployment.Calls (d : Deployment H) (escrow a : Address) : Prop := a ≠ escrow ∧ a ≠ d.dao

def PayoutPurpose.Sited (d : Deployment H) (escrow : Address) : PayoutPurpose → Prop
  | .executeFork fork _ _ => fork.forkEscrow = escrow
  | .joinFork join => join.timelock = d.timelock ∧ d.Calls escrow join.sender

/-- The local variables agree with the deployment. -/
def Continuation.Sited (d : Deployment H) (escrow : Address) : Continuation → Prop
  | .executeInternal _ timelock _ _ => timelock = d.timelock ∨ timelock = d.timelockV1
  | .deployForkDAO fork => fork.forkEscrow = escrow
  | .sendETH payout _ => payout.purpose.Sited d escrow
  | .sendERC20 payout _ _ _ _ => payout.purpose.Sited d escrow
  | .refundGas _ _ | .withdraw _ | .claimDuringForkPeriod _ => True

structure Frame.Sited (d : Deployment H) (escrow : Address) (f : Frame) : Prop where
  continuation : f.continuation.Sited d escrow
  caller : ∀ a, f.caller = some a → a = d.timelock ∨ a = d.timelockV1

namespace World

variable {d : Deployment H} {escrow : Address} {w w' : World H}

/-- Neither the Nouns nor the escrow changed, and at most one frame was pushed. -/
structure Quiet (d : Deployment H) (escrow : Address) (w w' : World H) : Prop where
  nouns : w'.nouns = w.nouns
  sameEscrow : w'.escrows escrow = w.escrows escrow
  frames : w'.frames = w.frames ∨ ∃ f : Frame, f.Sited d escrow ∧ w'.frames = f :: w.frames

theorem Quiet.congr {w₁ : World H} (h : Quiet d escrow w₁ w') (hnouns : w₁.nouns = w.nouns)
    (hescrow : w₁.escrows escrow = w.escrows escrow) (hframes : w₁.frames = w.frames) :
    Quiet d escrow w w' :=
  ⟨h.nouns.trans hnouns, h.sameEscrow.trans hescrow, hframes ▸ h.frames⟩

/-- Sending ETH or an ERC20 token moves no Noun. -/
theorem sendValue_quiet {from_ to_ : Address} {amount : Nat}
    (h : w.sendValue from_ to_ amount = .ok w') :
    w'.nouns = w.nouns ∧ w'.escrows = w.escrows ∧ w'.frames = w.frames := by
  simp only [sendValue, bind_eq_ok, pure_eq_ok] at h
  obtain ⟨_, -, rfl⟩ := h
  exact ⟨rfl, rfl, rfl⟩

theorem sendToken_quiet {erc20token from_ to_ : Address} {amount : Nat}
    (h : w.sendToken erc20token from_ to_ amount = .ok w') :
    w'.nouns = w.nouns ∧ w'.escrows = w.escrows ∧ w'.frames = w.frames := by
  simp only [sendToken, bind_eq_ok, pure_eq_ok] at h
  obtain ⟨_, -, rfl⟩ := h
  exact ⟨rfl, rfl, rfl⟩

/-- Handing control to outside code after a payment. -/
theorem Quiet.of_callOut {w₁ : World H} {callee : Address} {k : Continuation}
    (h : w₁.nouns = w.nouns ∧ w₁.escrows = w.escrows ∧ w₁.frames = w.frames)
    (hk : k.Sited d escrow) : Quiet d escrow w (w₁.callOut callee k) := by
  obtain ⟨hnouns, hescrows, hframes⟩ := h
  refine ⟨hnouns, congrFun hescrows escrow, .inr ⟨⟨callee, none, k⟩, ⟨hk, ?_⟩, ?_⟩⟩
  · intro a ha
    cases ha
  · rw [callOut, hframes]

theorem refundGas_quiet {tx : TxContext} (h : w.refundGas d tx = .ok w') :
    Quiet d escrow w w' := by
  simp only [refundGas] at h
  split at h
  · rw [← pure_eq_ok.mp h]
    exact ⟨rfl, rfl, .inl rfl⟩
  · split at h
    · simp only [bind_eq_ok, pure_eq_ok] at h
      obtain ⟨w₁, hsend, rfl⟩ := h
      exact .of_callOut (sendValue_quiet hsend) trivial
    · rw [← pure_eq_ok.mp h]
      exact ⟨rfl, rfl, .inl rfl⟩

theorem withdraw_quiet {tx : TxContext} {sender : Address} (h : w.withdraw d tx sender = .ok w') :
    Quiet d escrow w w' := by
  simp only [withdraw, bind_eq_ok] at h
  obtain ⟨_, -, h⟩ := h
  split at h
  · simp only [bind_eq_ok, pure_eq_ok] at h
    obtain ⟨w₁, hsend, rfl⟩ := h
    exact .of_callOut (sendValue_quiet hsend) trivial
  · rw [← pure_eq_ok.mp h]
    exact ⟨rfl, rfl, .inl rfl⟩

theorem castRefundableVoteInternal_quiet {tx : TxContext} {sender : Address} {id support : Nat}
    {reason : String} (h : w.castRefundableVoteInternal d tx sender id support reason = .ok w') :
    Quiet d escrow w w' := by
  simp only [castRefundableVoteInternal, bind_eq_ok] at h
  obtain ⟨⟨ds, votes⟩, -, h⟩ := h
  split at h
  · exact (refundGas_quiet h).congr rfl rfl rfl
  · rw [← pure_eq_ok.mp h]
    exact ⟨rfl, rfl, .inl rfl⟩

theorem withStorage_quiet {x : Tx (StorageV3 H)} (h : w.withStorage x = .ok w') :
    Quiet d escrow w w' := by
  obtain ⟨ds, -, rfl⟩ := withStorage_ok h
  exact ⟨rfl, rfl, .inl rfl⟩

theorem withTimelock_quiet {id : Nat}
    {f : StorageV3 H → Executor H → Tx (StorageV3 H × Executor H)}
    (h : w.withTimelock id f = .ok w') : Quiet d escrow w w' := by
  obtain ⟨ds, e, -, rfl⟩ := withTimelock_ok h
  exact ⟨rfl, rfl, .inl rfl⟩

theorem sendProRataTreasury_quiet {payout : Payout} (hpurpose : payout.purpose.Sited d escrow)
    (h : w.sendProRataTreasury d payout = .ok w') : Quiet d escrow w w' := by
  simp only [sendProRataTreasury, bind_eq_ok, pure_eq_ok] at h
  obtain ⟨_, -, _, -, w₁, hsend, rfl⟩ := h
  exact .of_callOut (sendValue_quiet hsend) hpurpose

theorem executeFrom_quiet [DecidableEq H] {id i : Nat} {timelock : Address}
    (htimelock : timelock = d.timelock ∨ timelock = d.timelockV1)
    (h : w.executeFrom d id timelock i = .ok w') : Quiet d escrow w w' := by
  simp only [executeFrom] at h
  split at h
  · simp only [bind_eq_ok, pure_eq_ok] at h
    obtain ⟨tx, -, e, -, w₁, hsend, rfl⟩ := h
    obtain ⟨hnouns, hescrows, hframes⟩ := sendValue_quiet hsend
    refine ⟨hnouns, congrFun hescrows escrow,
      .inr ⟨⟨tx.target, _, .executeInternal id timelock i tx⟩, ⟨htimelock, ?_⟩, congrArg _ hframes⟩⟩
    intro a ha
    split at ha
    · cases ha
      exact htimelock
    · cases ha
  · rw [← pure_eq_ok.mp h]
    exact ⟨rfl, rfl, .inl rfl⟩

theorem executeInternal_quiet [DecidableEq H] {id : Nat} {timelock : Address}
    (htimelock : timelock = d.timelock ∨ timelock = d.timelockV1)
    (h : w.executeInternal d id timelock = .ok w') : Quiet d escrow w w' := by
  simp only [executeInternal, bind_eq_ok] at h
  obtain ⟨_, -, _, -, _, -, h⟩ := h
  exact (executeFrom_quiet htimelock h).congr rfl rfl rfl

/-! ## Steps that move Nouns -/

/-- One round of the loop in `escrowToFork`. -/
def escrowOne (d : Deployment H) (escrow : Address) (w : World H) (sender : Address)
    (s : NounsToken × ForkEscrow) (tokenId : Nat) : Tx (NounsToken × ForkEscrow) := do
  let nouns ← NounsToken.transferFrom s.1 w.outside.proxies w.blockNumber d.dao sender escrow tokenId
  return (nouns, ← s.2.onERC721Received d.dao d.dao sender tokenId)

/-- One round of the loop in `joinFork`. -/
def joinOne (d : Deployment H) (w : World H) (join : ForkJoin) (nouns : NounsToken)
    (tokenId : Nat) : Tx NounsToken :=
  NounsToken.transferFrom nouns w.outside.proxies w.blockNumber d.dao join.sender join.timelock
    tokenId

/-- The ways in which a step touches the Nouns or the escrow.  It closes the escrow only if it
`forks`. -/
inductive EscrowStep (d : Deployment H) (escrow : Address) (forks : Prop) (w : World H) :
    Action → World H → Prop
  | none {a : Action} {w' : World H} : w'.nouns = w.nouns →
      w'.escrows escrow = w.escrows escrow → EscrowStep d escrow forks w a w'
  | token {sender : Account} {call : NounsTokenCall} {w' : World H} : d.Calls escrow sender →
      w.nouns.call d.crypto w.outside.proxies (w.received d) w.blockNumber w.timestamp sender call =
        .ok w'.nouns →
      w'.escrows escrow = w.escrows escrow → EscrowStep d escrow forks w (.callToken sender call) w'
  | escrowToFork {tx : TxContext} {sender : Account} {tokenIds proposalIds : List Nat}
      {reason : String} {w' : World H} : d.Calls escrow sender →
      ¬ w.dao.isForkPeriodActive w.timestamp →
      tokenIds.foldlM (w.escrowOne d escrow sender) (w.nouns, w.escrows escrow) =
        .ok (w'.nouns, w'.escrows escrow) →
      EscrowStep d escrow forks w (.callDAO tx sender (.escrowToFork tokenIds proposalIds reason)) w'
  | withdrawFromForkEscrow {tx : TxContext} {sender : Account} {tokenIds : List Nat}
      {w' : World H} : d.Calls escrow sender → ¬ w.dao.isForkPeriodActive w.timestamp →
      (w.escrows escrow).returnTokensToOwner w.outside.proxies w.blockNumber d.dao escrow w.nouns
        sender tokenIds = .ok (w'.escrows escrow, w'.nouns) →
      EscrowStep d escrow forks w (.callDAO tx sender (.withdrawFromForkEscrow tokenIds)) w'
  | executeFork {forkTreasury forkToken : Address} {w' : World H} : forks →
      w'.nouns = w.nouns → w'.escrows escrow = (w.escrows escrow).closeEscrow →
      EscrowStep d escrow forks w (.return_ forkTreasury forkToken) w'
  | joinFork {forkTreasury forkToken : Address} {w' : World H} (join : ForkJoin) :
      join.timelock = d.timelock → d.Calls escrow join.sender →
      join.tokenIds.foldlM (w.joinOne d join) w.nouns = .ok w'.nouns →
      w'.escrows escrow = w.escrows escrow →
      EscrowStep d escrow forks w (.return_ forkTreasury forkToken) w'
  | withdrawDAONounsFromEscrow {tx : TxContext} {sender : Account} {tokenIds : List Nat}
      {to_ : Address} {call : DAOCall} {w' : World H} :
      call = .withdrawDAONounsFromEscrowToTreasury tokenIds ∨
        call = .withdrawDAONounsFromEscrowIncreasingTotalSupply tokenIds to_ →
      (sender : Address) = w.dao.admin →
      (w.escrows escrow).withdrawTokens w.outside.proxies w.blockNumber d.dao escrow w.nouns
        tokenIds to_ = .ok w'.nouns →
      w'.escrows escrow = w.escrows escrow → EscrowStep d escrow forks w (.callDAO tx sender call) w'

/-- Neither the executors nor the calls in progress matter. -/
theorem EscrowStep.of_stack {forks forks' : Prop} {executors : Address → Executor H}
    {frames : List Frame} {a : Action} (hforks : forks → forks')
    (h : EscrowStep d escrow forks { w with executors, frames } a w') :
    EscrowStep d escrow forks' w a w' := by
  cases h with
  | none hnouns hescrow => exact .none hnouns hescrow
  | token hsender hcall hescrow => exact .token hsender hcall hescrow
  | escrowToFork hsender hfork hfold => exact .escrowToFork hsender hfork hfold
  | withdrawFromForkEscrow hsender hfork hreturn =>
    exact .withdrawFromForkEscrow hsender hfork hreturn
  | executeFork h hnouns hescrow => exact .executeFork (hforks h) hnouns hescrow
  | joinFork join htimelock hsender hfold hescrow =>
    exact .joinFork join htimelock hsender hfold hescrow
  | withdrawDAONounsFromEscrow hcall hadmin hwithdraw hescrow =>
    exact .withdrawDAONounsFromEscrow hcall hadmin hwithdraw hescrow

/-- What the step did, and the frame it may have pushed. -/
structure Sorted (d : Deployment H) (escrow : Address) (forks : Prop) (w : World H) (a : Action)
    (w' : World H) : Prop where
  step : EscrowStep d escrow forks w a w'
  frames : w'.frames = w.frames ∨ ∃ f : Frame, f.Sited d escrow ∧ w'.frames = f :: w.frames

theorem Quiet.sorted (h : Quiet d escrow w w') (forks : Prop) (a : Action) :
    Sorted d escrow forks w a w' :=
  ⟨.none h.nouns h.sameEscrow, h.frames⟩

theorem payERC20_sorted {payout : Payout} {erc20Count remaining : Nat}
    {forkTreasury forkToken : Address} {forks : Prop} (hpurpose : payout.purpose.Sited d escrow)
    (hforks : ∀ fork a b, payout.purpose = .executeFork fork a b → forks)
    (h : w.payERC20 d payout erc20Count remaining = .ok w') :
    Sorted d escrow forks w (.return_ forkTreasury forkToken) w' := by
  induction remaining with
  | zero =>
    simp only [payERC20, endPayout] at h
    split at h
    · rename_i fork _ _ heq
      have hfork := hforks _ _ _ heq
      rw [heq] at hpurpose
      rw [← pure_eq_ok.mp h]
      refine ⟨.executeFork hfork rfl ?_, .inl rfl⟩
      show Function.update w.escrows fork.forkEscrow (w.escrows fork.forkEscrow).closeEscrow escrow =
        (w.escrows escrow).closeEscrow
      rw [hpurpose, Function.update_self]
    · rename_i join heq
      rw [heq] at hpurpose
      simp only [joinForkTransfers, bind_eq_ok, pure_eq_ok] at h
      obtain ⟨nouns, hnouns, rfl⟩ := h
      refine ⟨.joinFork join hpurpose.1 hpurpose.2 hnouns rfl,
        .inr ⟨⟨w.dao.forkDAOToken, none, .claimDuringForkPeriod join⟩, ⟨trivial, ?_⟩, rfl⟩⟩
      intro a ha
      cases ha
  | succ remaining ih =>
    simp only [payERC20] at h
    split at h
    · exact absurd h throw_ne_ok
    · split at h
      · simp only [bind_eq_ok, pure_eq_ok] at h
        obtain ⟨_, -, w₁, hsend, rfl⟩ := h
        refine Quiet.sorted ?_ _ _
        exact .of_callOut (sendToken_quiet hsend) hpurpose
      · exact ih h

theorem withdrawDAONounsFromEscrow_ok {sender to_ : Address} {tokenIds : List Nat}
    (h : w.withdrawDAONounsFromEscrow d sender tokenIds to_ = .ok w') :
    sender = w.dao.admin ∧ ∃ nouns log, (w.escrows w.dao.forkEscrow).withdrawTokens
      w.outside.proxies w.blockNumber d.dao w.dao.forkEscrow w.nouns tokenIds to_ = .ok nouns ∧
      w' = { w with nouns, dao := { w.dao with log } } := by
  simp only [withdrawDAONounsFromEscrow, bind_eq_ok, revertIf_eq_ok, pure_eq_ok,
    Decidable.not_not] at h
  obtain ⟨_, hadmin, nouns, hnouns, rfl⟩ := h
  exact ⟨hadmin, nouns, _, hnouns, rfl⟩

/-! ## Entering the contracts -/

/-- All calls in progress agree with the deployment. -/
def Sited (d : Deployment H) (escrow : Address) (w : World H) : Prop :=
  ∀ f ∈ w.frames, f.Sited d escrow

theorem Entered.sited {sender : Address} {frames : List Frame} (h : w.Entered d sender frames)
    (hw : w.Sited d escrow) : ∀ f ∈ frames, f.Sited d escrow := by
  cases h with
  | outside _ _ => exact hw
  | frame f rest hframes _ =>
    intro g hg
    rcases List.mem_cons.mp hg with rfl | hg
    · refine ⟨(hw f (by rw [hframes]; simp)).continuation, ?_⟩
      intro a ha
      cases ha
    · exact hw g (by rw [hframes]; exact List.mem_cons_of_mem f hg)

theorem Entered.calls {sender : Address} {frames : List Frame} (h : w.Entered d sender frames)
    (hd : d.Apart escrow) (hw : w.Sited d escrow) : d.Calls escrow sender := by
  cases h with
  | outside hsender _ =>
    constructor
    · rintro rfl
      exact Bool.false_ne_true (hsender.symm.trans hd.escrow_isContract)
    · rintro rfl
      exact Bool.false_ne_true (hsender.symm.trans hd.dao_isContract)
  | frame f rest hframes hcaller =>
    rcases (hw f (by rw [hframes]; simp)).caller sender hcaller with rfl | rfl
    · exact hd.timelock_ne
    · exact hd.timelockV1_ne

theorem sited_of_pushed {frames : List Frame} (hframes : ∀ f ∈ frames, f.Sited d escrow)
    (h : w'.frames = frames ∨ ∃ f : Frame, f.Sited d escrow ∧ w'.frames = f :: frames) :
    w'.Sited d escrow := by
  intro g hg
  rcases h with h | ⟨f, hf, h⟩
  · rw [h] at hg
    exact hframes g hg
  · rw [h] at hg
    rcases List.mem_cons.mp hg with rfl | hg
    · exact hf
    · exact hframes g hg

/-! ## All steps -/

theorem escrowToFork_ok {sender : Address} {tokenIds proposalIds : List Nat} {reason : String}
    (hw : w.EscrowFixed d escrow)
    (h : w.escrowToFork d sender tokenIds proposalIds reason = .ok w') :
    ¬ w.dao.isForkPeriodActive w.timestamp ∧
      tokenIds.foldlM (w.escrowOne d escrow sender) (w.nouns, w.escrows escrow) =
        .ok (w'.nouns, w'.escrows escrow) ∧ w'.frames = w.frames := by
  simp only [escrowToFork, bind_eq_ok, revertIf_eq_ok, pure_eq_ok] at h
  obtain ⟨_, hfork, ⟨nouns, e⟩, hfold, rfl⟩ := h
  refine ⟨hfork, ?_, rfl⟩
  rw [hw.forkEscrow] at hfold
  refine hfold.trans ?_
  show _ = Except.ok (nouns, Function.update w.escrows w.dao.forkEscrow e escrow)
  rw [hw.forkEscrow, Function.update_self]

variable [DecidableEq H]

theorem callDAO_sorted {tx : TxContext} {sender : Account} {call : DAOCall}
    (hw : w.EscrowFixed d escrow) (hsender : d.Calls escrow sender)
    (h : w.callDAO d tx sender call = .ok w') :
    Sorted d escrow False w (.callDAO tx sender call) w' := by
  cases call with
  | cancelSig sig =>
    rw [← pure_eq_ok.mp h]
    exact ⟨.none rfl rfl, .inl rfl⟩
  | queue id | cancel id | veto id =>
    simp only [callDAO] at h
    exact (withTimelock_quiet h).sorted _ _
  | execute id =>
    refine (executeInternal_quiet ?_ h).sorted _ _
    simp only [ProposalStorage.getProposalTimelock]
    split
    · exact .inr hw.timelocks.2
    · exact .inl hw.timelocks.1
  | executeOnTimelockV1 id => exact (executeInternal_quiet (.inr hw.timelocks.2) h).sorted _ _
  | castRefundableVote id support => exact (castRefundableVoteInternal_quiet h).sorted _ _
  | castRefundableVoteWithReason id support reason =>
    exact (castRefundableVoteInternal_quiet h).sorted _ _
  | withdraw => exact (withdraw_quiet h).sorted _ _
  | escrowToFork tokenIds proposalIds reason =>
    obtain ⟨hfork, hfold, hframes⟩ := escrowToFork_ok hw h
    exact ⟨.escrowToFork hsender hfork hfold, .inl hframes⟩
  | withdrawFromForkEscrow tokenIds =>
    simp only [callDAO, withdrawFromForkEscrow, bind_eq_ok, revertIf_eq_ok, pure_eq_ok] at h
    obtain ⟨_, hfork, ⟨e, nouns⟩, hreturn, rfl⟩ := h
    refine ⟨.withdrawFromForkEscrow hsender hfork ?_, .inl rfl⟩
    rw [hw.forkEscrow] at hreturn
    refine hreturn.trans ?_
    show _ = Except.ok (Function.update w.escrows w.dao.forkEscrow e escrow, nouns)
    rw [hw.forkEscrow, Function.update_self]
  | executeFork =>
    simp only [callDAO, executeFork, bind_eq_ok, pure_eq_ok] at h
    obtain ⟨_, -, _, -, _, -, rfl⟩ := h
    refine Quiet.sorted ?_ _ _
    exact .of_callOut ⟨rfl, rfl, rfl⟩ hw.forkEscrow
  | joinFork tokenIds proposalIds reason =>
    simp only [callDAO, joinFork, bind_eq_ok] at h
    obtain ⟨_, -, supply, -, h⟩ := h
    refine (sendProRataTreasury_quiet ?_ h).sorted _ _
    exact ⟨hw.timelocks.1, hsender⟩
  | withdrawDAONounsFromEscrowToTreasury tokenIds =>
    obtain ⟨hadmin, nouns, log, hnouns, rfl⟩ := withdrawDAONounsFromEscrow_ok h
    rw [hw.forkEscrow] at hnouns
    exact ⟨.withdrawDAONounsFromEscrow (.inl rfl) hadmin hnouns rfl, .inl rfl⟩
  | withdrawDAONounsFromEscrowIncreasingTotalSupply tokenIds to_ =>
    simp only [callDAO, withdrawDAONounsFromEscrowIncreasingTotalSupply, bind_eq_ok,
      pure_eq_ok] at h
    obtain ⟨_, -, w₁, hw₁, rfl⟩ := h
    obtain ⟨hadmin, nouns, log, hnouns, rfl⟩ := withdrawDAONounsFromEscrow_ok hw₁
    rw [hw.forkEscrow] at hnouns
    exact ⟨.withdrawDAONounsFromEscrow (.inr rfl) hadmin hnouns rfl, .inl rfl⟩
  | _ => exact (withStorage_quiet h).sorted _ _

theorem resume_sorted {forkTreasury forkToken : Address} {f : Frame} (hf : f.Sited d escrow)
    (h : w.resume d forkTreasury forkToken f.continuation = .ok w') :
    Sorted d escrow (f.isForking = true) w (.return_ forkTreasury forkToken) w' := by
  obtain ⟨callee, caller, k⟩ := f
  have hk := hf.continuation
  cases k with
  | executeInternal proposalId timelock i tx =>
    have hquiet : Quiet d escrow w w' := (executeFrom_quiet hk h).congr rfl rfl rfl
    exact hquiet.sorted _ _
  | refundGas origin amount =>
    rw [← pure_eq_ok.mp h]
    exact ⟨.none rfl rfl, .inl rfl⟩
  | withdraw amount =>
    rw [← pure_eq_ok.mp h]
    exact ⟨.none rfl rfl, .inl rfl⟩
  | deployForkDAO fork =>
    simp only [resume, bind_eq_ok] at h
    obtain ⟨supply, -, h⟩ := h
    refine (sendProRataTreasury_quiet ?_ h).sorted _ _
    exact hk
  | sendETH payout amount =>
    have hforks : ∀ fork a b, payout.purpose = .executeFork fork a b →
        Frame.isForking ⟨callee, caller, .sendETH payout amount⟩ = true := by
      intro fork a b heq
      simp [Frame.isForking, heq]
    have hsorted : Sorted d escrow _ _ (.return_ forkTreasury forkToken) w' :=
      payERC20_sorted hk hforks h
    exact ⟨hsorted.step.of_stack id, hsorted.frames⟩
  | sendERC20 payout erc20Count remaining erc20token amount =>
    have hforks : ∀ fork a b, payout.purpose = .executeFork fork a b →
        Frame.isForking ⟨callee, caller, .sendERC20 payout erc20Count remaining erc20token amount⟩ = true := by
      intro fork a b heq
      simp [Frame.isForking, heq]
    have hsorted : Sorted d escrow _ _ (.return_ forkTreasury forkToken) w' :=
      payERC20_sorted hk hforks h
    exact ⟨hsorted.step.of_stack id, hsorted.frames⟩
  | claimDuringForkPeriod join =>
    simp only [resume, bind_eq_ok, pure_eq_ok] at h
    obtain ⟨_, -, rfl⟩ := h
    exact ⟨.none rfl rfl, .inl rfl⟩

theorem step_sorted {a : Action} (hd : d.Apart escrow) (hfixed : w.EscrowFixed d escrow)
    (hsited : w.Sited d escrow) (h : w.step d a = .ok w') :
    EscrowStep d escrow (∃ f ∈ w.frames.head?, f.isForking = true) w a w' ∧ w'.Sited d escrow := by
  cases a with
  | advance blockNumber timestamp =>
    simp only [step, bind_eq_ok, pure_eq_ok] at h
    obtain ⟨_, -, rfl⟩ := h
    exact ⟨.none rfl rfl, hsited⟩
  | callDAO tx sender call =>
    simp only [step, bind_eq_ok] at h
    obtain ⟨w₁, henter, h⟩ := h
    obtain ⟨frames, hentered, rfl⟩ := enter_entered henter
    have hfixed' : EscrowFixed d escrow { w with frames } :=
      ⟨hfixed.timelocks, hfixed.forkEscrow, hfixed.proxies⟩
    have hsorted := callDAO_sorted hfixed' (hentered.calls hd hsited) h
    exact ⟨hsorted.step.of_stack False.elim, sited_of_pushed (hentered.sited hsited) hsorted.frames⟩
  | callToken sender call =>
    simp only [step, callToken, bind_eq_ok, pure_eq_ok] at h
    obtain ⟨w₁, henter, nouns, hcall, rfl⟩ := h
    obtain ⟨frames, hentered, rfl⟩ := enter_entered henter
    exact ⟨.token (hentered.calls hd hsited) hcall rfl, hentered.sited hsited⟩
  | callExecutor a sender call =>
    simp only [step, callExecutor, bind_eq_ok, pure_eq_ok] at h
    obtain ⟨w₁, henter, e, -, rfl⟩ := h
    obtain ⟨frames, hentered, rfl⟩ := enter_entered henter
    exact ⟨.none rfl rfl, hentered.sited hsited⟩
  | return_ forkTreasury forkToken =>
    simp only [step] at h
    split at h
    · exact absurd h throw_ne_ok
    · rename_i f frames hframes
      have hf : f.Sited d escrow := hsited f (by rw [hframes]; simp)
      have hsorted : Sorted d escrow _ _ (.return_ forkTreasury forkToken) w' := resume_sorted hf h
      refine ⟨hsorted.step.of_stack ?_, sited_of_pushed ?_ hsorted.frames⟩
      · intro hfork
        exact ⟨f, by rw [hframes]; rfl, hfork⟩
      · intro g hg
        exact hsited g (by rw [hframes]; exact List.mem_cons_of_mem f hg)

end World

/-! ## What holds in every run -/

/-- Nothing is recorded for forks to come. -/
def ForkEscrow.NoneLater (e : ForkEscrow) : Prop :=
  ∀ f, e.forkId < f → ∀ tokenId, e.escrowedTokensByForkId f tokenId = 0

theorem ForkEscrow.NoneLater.setEscrowed {e : ForkEscrow} (h : e.NoneLater) (id : Nat)
    (a : Address) : (e.setEscrowed id a).NoneLater := by
  intro f hf tokenId
  rw [setEscrowed_entry, if_neg (fun heq => Nat.ne_of_gt hf heq.1)]
  exact h f hf tokenId

/-- The escrow at `this` approved nobody and looks ahead to no fork. -/
structure Guarded (this : Address) (nouns : NounsToken) (e : ForkEscrow) : Prop where
  silent : nouns.toToken.Silent this
  later : e.NoneLater

theorem Guarded.returnTokensToOwner {this dao owner : Address} {nouns nouns' : NounsToken}
    {e e' : ForkEscrow} {proxies : Address → Address} {now : Nat} {tokenIds : List Nat}
    (h : Guarded this nouns e)
    (hreturn : e.returnTokensToOwner proxies now dao this nouns owner tokenIds =
      .ok (e', nouns')) : Guarded this nouns' e' ∧ e'.forkId = e.forkId := by
  simp only [ForkEscrow.returnTokensToOwner, bind_eq_ok, pure_eq_ok, Prod.mk.injEq] at hreturn
  obtain ⟨⟨e₁, nouns₁⟩, hloop, remaining, -, rfl, rfl⟩ := hreturn
  have hrounds : Guarded this nouns₁ e₁ ∧ e₁.forkId = e.forkId := by
    refine foldlM_ok (P := fun s : ForkEscrow × NounsToken => Guarded this s.2 s.1 ∧
      s.1.forkId = e.forkId) hloop ⟨h, rfl⟩ ?_
    rintro id - ⟨e₂, nouns₂⟩ ⟨e₃, nouns₃⟩ ⟨hguarded, hforkId⟩ hround
    simp only [bind_eq_ok, pure_eq_ok, Prod.mk.injEq] at hround
    obtain ⟨_, -, nouns₄, ht, rfl, rfl⟩ := hround
    exact ⟨⟨NounsToken.transferFrom_silent hguarded.silent ht, hguarded.later.setEscrowed id 0⟩,
      hforkId⟩
  exact ⟨⟨hrounds.1.silent, hrounds.1.later⟩, hrounds.2⟩

namespace World

variable {d : Deployment H} {escrow : Address} {w w' : World H}

theorem escrowOne_ok {sender : Address} {s s' : NounsToken × ForkEscrow} {tokenId : Nat}
    (h : w.escrowOne d escrow sender s tokenId = .ok s') :
    s.1.transferFrom w.outside.proxies w.blockNumber d.dao sender escrow tokenId = .ok s'.1 ∧
      s'.2 = { s.2.setEscrowed tokenId sender with
        numTokensInEscrow := s.2.numTokensInEscrow + 1 } := by
  simp only [escrowOne, ForkEscrow.onERC721Received, bind_eq_ok, pure_eq_ok] at h
  obtain ⟨nouns, ht, e, ⟨_, -, rfl⟩, rfl⟩ := h
  exact ⟨ht, rfl⟩

theorem escrowLoop_guarded {sender : Address} {tokenIds : List Nat}
    {s s' : NounsToken × ForkEscrow}
    (h : tokenIds.foldlM (w.escrowOne d escrow sender) s = .ok s') (hs : Guarded escrow s.1 s.2) :
    Guarded escrow s'.1 s'.2 ∧ s'.2.forkId = s.2.forkId := by
  refine foldlM_ok (P := fun u : NounsToken × ForkEscrow => Guarded escrow u.1 u.2 ∧
    u.2.forkId = s.2.forkId) h ⟨hs, rfl⟩ ?_
  rintro id - u v ⟨hguarded, hforkId⟩ hround
  obtain ⟨ht, hv⟩ := escrowOne_ok hround
  rw [hv]
  exact ⟨⟨NounsToken.transferFrom_silent hguarded.silent ht, hguarded.later.setEscrowed id sender⟩,
    hforkId⟩

/-- The records stay as guarded as they were, and the fork id changes only when the escrow is
closed. -/
theorem EscrowStep.guarded {forks : Prop} {a : Action} (h : EscrowStep d escrow forks w a w')
    (hd : d.Apart escrow) (hfixed : w.EscrowFixed d escrow)
    (hw : Guarded escrow w.nouns (w.escrows escrow)) :
    Guarded escrow w'.nouns (w'.escrows escrow) ∧
      ((w'.escrows escrow).forkId = (w.escrows escrow).forkId ∨
        forks ∧ (∃ forkTreasury forkToken, a = .return_ forkTreasury forkToken) ∧
          w'.escrows escrow = (w.escrows escrow).closeEscrow) := by
  cases h with
  | none hnouns hescrow =>
    rw [hnouns, hescrow]
    exact ⟨hw, .inl rfl⟩
  | token hsender hcall hescrow =>
    rw [hescrow]
    obtain ⟨hsilent, -⟩ :=
      NounsToken.call_kept hw.silent hd.escrow_ne_zero hfixed.proxies hsender.1 hcall
    exact ⟨⟨hsilent, hw.later⟩, .inl rfl⟩
  | escrowToFork hsender hfork hfold =>
    obtain ⟨hguarded, hforkId⟩ := escrowLoop_guarded hfold hw
    exact ⟨hguarded, .inl hforkId⟩
  | withdrawFromForkEscrow hsender hfork hreturn =>
    obtain ⟨hguarded, hforkId⟩ := hw.returnTokensToOwner hreturn
    exact ⟨hguarded, .inl hforkId⟩
  | executeFork hforks hnouns hescrow =>
    rw [hnouns, hescrow]
    refine ⟨⟨hw.silent, ?_⟩, .inr ⟨hforks, ⟨_, _, rfl⟩, rfl⟩⟩
    intro f hf
    exact hw.later f (Nat.lt_of_succ_lt hf)
  | joinFork join htimelock hsender hfold hescrow =>
    rw [hescrow]
    refine ⟨⟨?_, hw.later⟩, .inl rfl⟩
    refine foldlM_ok (P := fun nouns : NounsToken => nouns.toToken.Silent escrow) hfold hw.silent ?_
    exact fun id _ u v hs ht => NounsToken.transferFrom_silent hs ht
  | withdrawDAONounsFromEscrow hcall hadmin hwithdraw hescrow =>
    rw [hescrow]
    refine ⟨⟨?_, hw.later⟩, .inl rfl⟩
    refine foldlM_ok (P := fun nouns : NounsToken => nouns.toToken.Silent escrow) hwithdraw
      hw.silent ?_
    intro id _ u v hs hround
    simp only [bind_eq_ok] at hround
    obtain ⟨_, -, ht⟩ := hround
    exact NounsToken.transferFrom_silent hs ht

/-- A new escrow next to a token that comes from a run of its own. -/
structure StartEscrow (d : Deployment H) (escrow : Address) (w : World H) : Prop where
  fixed : w.EscrowFixed d escrow
  frames : w.frames = []
  token : Reachable NounsToken.Deployed (NounsToken.Next d.crypto (fun _ _ => True))
    ⟨w.blockNumber, w.timestamp, w.nouns⟩
  silent : w.nouns.toToken.Silent escrow
  deployed : w.escrows escrow = .deploy

/-- The addresses are as deployed, also in the calls in progress, and the escrow is guarded. -/
structure Safe (d : Deployment H) (escrow : Address) (w : World H) : Prop where
  fixed : w.EscrowFixed d escrow
  sited : w.Sited d escrow
  guarded : Guarded escrow w.nouns (w.escrows escrow)

theorem StartEscrow.safe (h : w.StartEscrow d escrow) : w.Safe d escrow := by
  refine ⟨h.fixed, ?_, h.silent, ?_⟩
  · intro f hf
    rw [h.frames] at hf
    exact absurd hf List.not_mem_nil
  · rw [h.deployed]
    exact fun _ _ _ => rfl

variable [DecidableEq H] {admits : World H → Action → Prop}

/-- Steps that `admits` allows, while the addresses stay as they are. -/
def NextEscrow (d : Deployment H) (escrow : Address) (admits : World H → Action → Prop)
    (w w' : World H) : Prop :=
  Next d admits w w' ∧ w'.EscrowFixed d escrow

theorem NextEscrow.safe (hd : d.Apart escrow) (hw : w.Safe d escrow)
    (h : NextEscrow d escrow admits w w') : w'.Safe d escrow := by
  obtain ⟨hnext, hfixed⟩ := h
  cases hnext with
  | step a _ hstep =>
    obtain ⟨heffect, hsited⟩ := step_sorted hd hw.fixed hw.sited hstep
    exact ⟨hfixed, hsited, (heffect.guarded hd hw.fixed hw.guarded).1⟩
  | outside hout =>
    obtain ⟨⟨eth, erc20, outside, rfl⟩, -, -⟩ := hout
    exact ⟨hfixed, hw.sited, hw.guarded⟩

theorem safe_of_reachable (hd : d.Apart escrow)
    (h : Reachable (StartEscrow d escrow) (NextEscrow d escrow admits) w) : w.Safe d escrow :=
  h.invariant (fun _ hw => hw.safe) (fun _ _ _ hw hn => hn.safe hd hw)

theorem sample_apart : Deployment.sample.Apart 104 := by
  constructor <;> decide

theorem sample_startEscrow : World.sample.StartEscrow .sample 104 where
  fixed := by decide
  frames := rfl
  token := .start ⟨_, _, _, rfl⟩
  silent := Token.empty_silent 104
  deployed := rfl

end World

end Nouns
