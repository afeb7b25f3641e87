import Nouns.Governance.Refinement

/-!
# CallStack — what a step does to the calls in progress

A call enters a modelled contract, either from outside or from the action on top of the stack, and
pushes at most one frame; a return pops a frame and pushes at most one.
-/

open Fallible

namespace Nouns

variable {H : Type}

/-- The frame is no action of a proposal, and no modelled contract can be called from it. -/
structure Frame.Waits (f : Frame) : Prop where
  caller : f.caller = none
  execution : f.execution? = none

namespace Gov

variable {d : Deployment H} {g g' : Gov H} {l : Label}

/-- Only the end of `executeFork` sets the end of the fork period. -/
theorem Step.forkEndTimestamp [DecidableEq H] (h : g.Step d l g') (hl : l ≠ .fork) :
    g'.forkEndTimestamp = g.forkEndTimestamp := by
  cases h with
  | execute id timelock g' _ _ hcont =>
    cases hcont with
    | next => rfl
    | done => rfl
  | resume x rest g' _ hcont =>
    cases hcont with
    | next => rfl
    | done => rfl
  | fork forkEndTimestamp => exact absurd rfl hl
  | _ => rfl

end Gov

namespace World

variable {d : Deployment H} {w w' : World H}

/-- The stack after `sender` entered a modelled contract. -/
inductive Entered (d : Deployment H) (w : World H) (sender : Address) : List Frame → Prop
  | outside : d.isContract sender = false → (∀ f rest, w.frames = f :: rest →
      d.isContract f.callee = false) → Entered d w sender w.frames
  | frame (f : Frame) (rest : List Frame) : w.frames = f :: rest → f.caller = some sender →
      Entered d w sender ({ f with caller := none } :: rest)

/-- At most one frame is pushed: one that waits, which belongs to an `executeFork` only if `forks`,
or an action, if it `begins`. -/
inductive Pushes (d : Deployment H) (w : World H) (forks : Prop) (begins : Execution → Prop)
    (w' : World H) : Prop
  | nothing : w'.timestamp = w.timestamp → w'.frames = w.frames → Pushes d w forks begins w'
  | waiting (f : Frame) : f.Waits → (f.isForking = true → forks) → w'.timestamp = w.timestamp →
      w'.frames = f :: w.frames → Pushes d w forks begins w'
  | action (f : Frame) (x : Execution) : f.execution? = some x → begins x →
      (d.isContract f.callee = false → f.caller = none) → w'.timestamp = w.timestamp →
      w'.frames = f :: w.frames → Pushes d w forks begins w'

inductive StackStep (d : Deployment H) (w : World H) (a : Action) (w' : World H) : Prop
  | pass : w'.frames = w.frames → w.timestamp ≤ w'.timestamp →
      w'.dao.forkEndTimestamp = w.dao.forkEndTimestamp → StackStep d w a w'
  | call (sender : Address) (frames : List Frame) : w.Entered d sender frames →
      w'.dao.forkEndTimestamp = w.dao.forkEndTimestamp →
      Pushes d { w with frames } (∃ tx sender, a = .callDAO tx sender .executeFork)
        (fun _ => ¬ w.gov.isForkPeriodActive) w' → StackStep d w a w'
  | return_ (f : Frame) (frames : List Frame) : w.frames = f :: frames →
      f.isForking = true ∨ w'.dao.forkEndTimestamp = w.dao.forkEndTimestamp →
      Pushes d { w with frames } (f.isForking = true)
        (fun x => ∃ y, f.execution? = some y ∧ x.proposalId = y.proposalId ∧ x.i = y.i + 1 ∧
          x.i < (w.dao.proposals x.proposalId).targets.length) w' → StackStep d w a w'

theorem Pushes.timestamp {forks : Prop} {begins : Execution → Prop}
    (h : Pushes d w forks begins w') : w'.timestamp = w.timestamp := by
  cases h with
  | nothing htime _ => exact htime
  | waiting _ _ _ htime _ => exact htime
  | action _ _ _ _ _ htime _ => exact htime

theorem enter_entered {sender callee : Address} (h : w.enter d sender callee = .ok w') :
    ∃ frames, w.Entered d sender frames ∧ w' = { w with frames } := by
  simp only [enter] at h
  split at h
  · rename_i hframes
    simp only [bind_eq_ok, require_eq_ok, pure_eq_ok] at h
    obtain ⟨_, hsender, rfl⟩ := h
    refine ⟨w.frames, .outside hsender ?_, rfl⟩
    intro f rest hf
    rw [hframes] at hf
    cases hf
  · rename_i f rest hframes
    split at h
    · simp only [bind_eq_ok, require_eq_ok, pure_eq_ok] at h
      obtain ⟨_, ⟨hcaller, -⟩, rfl⟩ := h
      exact ⟨_, .frame f rest hframes hcaller, rfl⟩
    · rename_i hcallee
      simp only [bind_eq_ok, require_eq_ok, pure_eq_ok] at h
      obtain ⟨_, hsender, rfl⟩ := h
      refine ⟨w.frames, .outside hsender ?_, rfl⟩
      intro f' rest' hf
      rw [hframes] at hf
      cases hf
      exact Bool.eq_false_of_not_eq_true hcallee

/-! ## Calls that leave the DAO -/

variable {forks : Prop} {begins : Execution → Prop}

/-- Only the stack and the time before the step matter. -/
theorem Pushes.congr {w₁ : World H} (h : Pushes d w₁ forks begins w')
    (hframes : w₁.frames = w.frames) (htime : w₁.timestamp = w.timestamp) :
    Pushes d w forks begins w' := by
  cases h with
  | nothing ht hf => exact .nothing (ht.trans htime) (hf.trans hframes)
  | waiting f hw hforks ht hf => exact .waiting f hw hforks (ht.trans htime) (hframes ▸ hf)
  | action f x hx hbegins hc ht hf =>
    exact .action f x hx hbegins hc (ht.trans htime) (hframes ▸ hf)

theorem sendToken_frames {erc20token from_ to_ : Address} {amount : Nat}
    (h : w.sendToken erc20token from_ to_ amount = .ok w') :
    w'.frames = w.frames ∧ w'.timestamp = w.timestamp := by
  simp only [sendToken, bind_eq_ok, pure_eq_ok] at h
  obtain ⟨_, -, rfl⟩ := h
  exact ⟨rfl, rfl⟩

theorem sendValue_frames {from_ to_ : Address} {amount : Nat}
    (h : w.sendValue from_ to_ amount = .ok w') :
    w'.frames = w.frames ∧ w'.timestamp = w.timestamp := by
  simp only [sendValue, bind_eq_ok, pure_eq_ok] at h
  obtain ⟨_, -, rfl⟩ := h
  exact ⟨rfl, rfl⟩

/-- Handing control to outside code. -/
theorem Pushes.of_callOut {w₁ : World H} {callee : Address} {k : Continuation}
    (hframes : w₁.frames = w.frames) (htime : w₁.timestamp = w.timestamp)
    (hk : Frame.execution? ⟨callee, none, k⟩ = none)
    (hforks : Frame.isForking ⟨callee, none, k⟩ = true → forks) :
    Pushes d w forks begins (w₁.callOut callee k) := by
  refine .waiting ⟨callee, none, k⟩ ⟨rfl, hk⟩ hforks htime ?_
  rw [callOut, hframes]

theorem refundGas_pushes {tx : TxContext} (h : w.refundGas d tx = .ok w') :
    Pushes d w forks begins w' := by
  simp only [refundGas] at h
  split at h
  · rw [← pure_eq_ok.mp h]
    exact .nothing rfl rfl
  · split at h
    · simp only [bind_eq_ok, pure_eq_ok] at h
      obtain ⟨w₁, hsend, rfl⟩ := h
      obtain ⟨hframes, htime⟩ := sendValue_frames hsend
      exact .of_callOut hframes htime rfl (fun h => (Bool.false_ne_true h).elim)
    · rw [← pure_eq_ok.mp h]
      exact .nothing rfl rfl

theorem withdraw_pushes {tx : TxContext} {sender : Address} (h : w.withdraw d tx sender = .ok w') :
    Pushes d w forks begins w' := by
  simp only [withdraw, bind_eq_ok] at h
  obtain ⟨_, -, h⟩ := h
  split at h
  · simp only [bind_eq_ok, pure_eq_ok] at h
    obtain ⟨w₁, hsend, rfl⟩ := h
    obtain ⟨hframes, htime⟩ := sendValue_frames hsend
    exact .of_callOut hframes htime rfl (fun h => (Bool.false_ne_true h).elim)
  · rw [← pure_eq_ok.mp h]
    exact .nothing rfl rfl

theorem castRefundableVoteInternal_pushes {tx : TxContext} {sender : Address} {id support : Nat}
    {reason : String} (h : w.castRefundableVoteInternal d tx sender id support reason = .ok w') :
    Pushes d w forks begins w' := by
  simp only [castRefundableVoteInternal, bind_eq_ok] at h
  obtain ⟨⟨ds, votes⟩, -, h⟩ := h
  split at h
  · exact (refundGas_pushes h).congr rfl rfl
  · rw [← pure_eq_ok.mp h]
    exact .nothing rfl rfl

theorem sendProRataTreasury_pushes {payout : Payout}
    (hforks : ∀ fork a b, payout.purpose = .executeFork fork a b → forks)
    (h : w.sendProRataTreasury d payout = .ok w') : Pushes d w forks begins w' := by
  simp only [sendProRataTreasury, bind_eq_ok, pure_eq_ok] at h
  obtain ⟨_, -, _, -, w₁, hsend, rfl⟩ := h
  obtain ⟨hframes, htime⟩ := sendValue_frames hsend
  refine .of_callOut hframes htime rfl ?_
  intro hfork
  cases hpurpose : payout.purpose with
  | executeFork fork a b => exact hforks fork a b hpurpose
  | joinFork join => simp [Frame.isForking, hpurpose] at hfork

theorem payERC20_pushes {payout : Payout} {erc20Count remaining : Nat}
    (hforks : ∀ fork a b, payout.purpose = .executeFork fork a b → forks)
    (h : w.payERC20 d payout erc20Count remaining = .ok w') : Pushes d w forks begins w' := by
  induction remaining with
  | zero =>
    simp only [payERC20, endPayout] at h
    split at h
    · rw [← pure_eq_ok.mp h]
      exact .nothing rfl rfl
    · simp only [joinForkTransfers, bind_eq_ok, pure_eq_ok] at h
      obtain ⟨nouns, -, rfl⟩ := h
      exact .of_callOut rfl rfl rfl (fun h => (Bool.false_ne_true h).elim)
  | succ remaining ih =>
    simp only [payERC20] at h
    split at h
    · simp at h
    · split at h
      · simp only [bind_eq_ok, pure_eq_ok] at h
        obtain ⟨_, -, w₁, hsend, rfl⟩ := h
        obtain ⟨hframes, htime⟩ := sendToken_frames hsend
        refine .of_callOut hframes htime rfl ?_
        intro hfork
        cases hpurpose : payout.purpose with
        | executeFork fork a b => exact hforks fork a b hpurpose
        | joinFork join => simp [Frame.isForking, hpurpose] at hfork
      · exact ih h

/-! ## Calls that do not -/

theorem withStorage_pushes {x : Tx (StorageV3 H)} (h : w.withStorage x = .ok w') :
    Pushes d w forks begins w' := by
  obtain ⟨ds, -, rfl⟩ := withStorage_ok h
  exact .nothing rfl rfl

theorem withTimelock_pushes {id : Nat}
    {f : StorageV3 H → Executor H → Tx (StorageV3 H × Executor H)}
    (h : w.withTimelock id f = .ok w') : Pushes d w forks begins w' := by
  obtain ⟨ds, e, -, rfl⟩ := withTimelock_ok h
  exact .nothing rfl rfl

theorem withdrawDAONounsFromEscrow_frames {sender to_ : Address} {tokenIds : List Nat}
    (h : w.withdrawDAONounsFromEscrow d sender tokenIds to_ = .ok w') :
    w'.frames = w.frames ∧ w'.timestamp = w.timestamp := by
  simp only [withdrawDAONounsFromEscrow, bind_eq_ok, pure_eq_ok] at h
  obtain ⟨_, -, nouns, -, rfl⟩ := h
  exact ⟨rfl, rfl⟩

/-! ## Actions of proposals -/

variable [DecidableEq H]

theorem executeFrom_pushes {id i : Nat} {timelock : Address}
    (hbegins : ∀ x : Execution, x.proposalId = id → x.i = i →
      i < (w.dao.proposals id).targets.length → begins x)
    (h : w.executeFrom d id timelock i = .ok w') : Pushes d w forks begins w' := by
  simp only [executeFrom] at h
  split at h
  · rename_i hi
    simp only [bind_eq_ok, pure_eq_ok] at h
    obtain ⟨tx, -, e, -, w₁, hsend, rfl⟩ := h
    obtain ⟨hframes, htime⟩ := sendValue_frames hsend
    refine .action ⟨tx.target, _, .executeInternal id timelock i tx⟩ ⟨id, timelock, i, tx⟩ rfl
      (hbegins _ rfl rfl hi) ?_ htime (congrArg _ hframes)
    intro hcallee
    simp only [hcallee, Bool.false_eq_true, if_false]
  · rw [← pure_eq_ok.mp h]
    exact .nothing rfl rfl

theorem executeInternal_pushes {id : Nat} {timelock : Address}
    (h : w.executeInternal d id timelock = .ok w') :
    Pushes d w forks (fun _ => ¬ w.gov.isForkPeriodActive) w' := by
  simp only [executeInternal, bind_eq_ok, revertIf_eq_ok] at h
  obtain ⟨_, -, _, -, _, hfork, h⟩ := h
  exact (executeFrom_pushes (fun _ _ _ _ => hfork) h).congr rfl rfl

/-! ## All steps -/

theorem callDAO_pushes {tx : TxContext} {sender : Account} {call : DAOCall}
    (h : w.callDAO d tx sender call = .ok w') :
    Pushes d w (call = .executeFork) (fun _ => ¬ w.gov.isForkPeriodActive) w' := by
  cases call with
  | cancelSig sig =>
    rw [← pure_eq_ok.mp h]
    exact .nothing rfl rfl
  | queue id | cancel id | veto id =>
    simp only [callDAO] at h
    exact withTimelock_pushes h
  | execute id | executeOnTimelockV1 id => exact executeInternal_pushes h
  | castRefundableVote id support => exact castRefundableVoteInternal_pushes h
  | castRefundableVoteWithReason id support reason => exact castRefundableVoteInternal_pushes h
  | withdraw => exact withdraw_pushes h
  | escrowToFork tokenIds proposalIds reason =>
    simp only [callDAO, escrowToFork, bind_eq_ok, pure_eq_ok] at h
    obtain ⟨_, -, ⟨nouns, escrow⟩, -, rfl⟩ := h
    exact .nothing rfl rfl
  | withdrawFromForkEscrow tokenIds =>
    simp only [callDAO, withdrawFromForkEscrow, bind_eq_ok, pure_eq_ok] at h
    obtain ⟨_, -, ⟨escrow, nouns⟩, -, rfl⟩ := h
    exact .nothing rfl rfl
  | executeFork =>
    simp only [callDAO, executeFork, bind_eq_ok, pure_eq_ok] at h
    obtain ⟨_, -, _, -, _, -, rfl⟩ := h
    exact .of_callOut rfl rfl rfl (fun _ => rfl)
  | joinFork tokenIds proposalIds reason =>
    simp only [callDAO, joinFork, bind_eq_ok] at h
    obtain ⟨_, -, supply, -, h⟩ := h
    refine sendProRataTreasury_pushes ?_ h
    intro fork a b hpurpose
    cases hpurpose
  | withdrawDAONounsFromEscrowToTreasury tokenIds =>
    obtain ⟨hframes, htime⟩ := withdrawDAONounsFromEscrow_frames h
    exact .nothing htime hframes
  | withdrawDAONounsFromEscrowIncreasingTotalSupply tokenIds to_ =>
    simp only [callDAO, withdrawDAONounsFromEscrowIncreasingTotalSupply, bind_eq_ok,
      pure_eq_ok] at h
    obtain ⟨_, -, w₁, hw₁, rfl⟩ := h
    obtain ⟨hframes, htime⟩ := withdrawDAONounsFromEscrow_frames hw₁
    exact .nothing htime hframes
  | _ => exact withStorage_pushes h

theorem resume_pushes {forkTreasury forkToken : Address} {f : Frame}
    (h : w.resume d forkTreasury forkToken f.continuation = .ok w') :
    Pushes d w (f.isForking = true)
      (fun x => ∃ y, f.execution? = some y ∧ x.proposalId = y.proposalId ∧ x.i = y.i + 1 ∧
        x.i < (w.dao.proposals x.proposalId).targets.length) w' := by
  obtain ⟨callee, caller, k⟩ := f
  cases k with
  | executeInternal proposalId timelock i tx =>
    refine (executeFrom_pushes ?_ h).congr rfl rfl
    intro x hid hxi hi
    refine ⟨⟨proposalId, timelock, i, tx⟩, rfl, hid, hxi, ?_⟩
    rw [hid, hxi]
    exact hi
  | refundGas origin amount =>
    rw [← pure_eq_ok.mp h]
    exact .nothing rfl rfl
  | withdraw amount =>
    rw [← pure_eq_ok.mp h]
    exact .nothing rfl rfl
  | deployForkDAO fork =>
    simp only [resume, bind_eq_ok] at h
    obtain ⟨supply, -, h⟩ := h
    exact sendProRataTreasury_pushes (fun _ _ _ _ => rfl) h
  | sendETH payout amount =>
    refine (payERC20_pushes ?_ h).congr rfl rfl
    intro fork a b hpurpose
    simp [Frame.isForking, hpurpose]
  | sendERC20 payout erc20Count remaining erc20token amount =>
    refine (payERC20_pushes ?_ h).congr rfl rfl
    intro fork a b hpurpose
    simp [Frame.isForking, hpurpose]
  | claimDuringForkPeriod join =>
    simp only [resume, bind_eq_ok, pure_eq_ok] at h
    obtain ⟨_, -, rfl⟩ := h
    exact .nothing rfl rfl

theorem stack_step {a : Action} (h : w.step d a = .ok w') : StackStep d w a w' := by
  have hend : w.label a ≠ .fork → w'.dao.forkEndTimestamp = w.dao.forkEndTimestamp :=
    (gov_step h).forkEndTimestamp
  cases a with
  | advance blockNumber timestamp =>
    simp only [step, bind_eq_ok, require_eq_ok, pure_eq_ok] at h
    obtain ⟨_, ⟨-, -, htime⟩, rfl⟩ := h
    exact .pass rfl htime rfl
  | callDAO tx sender call =>
    simp only [step, bind_eq_ok] at h
    obtain ⟨w₁, henter, h⟩ := h
    obtain ⟨frames, hentered, rfl⟩ := enter_entered henter
    refine .call sender frames hentered (hend ?_) ?_
    · cases call <;> simp [label]
    · cases callDAO_pushes h with
      | nothing ht hf => exact .nothing ht hf
      | waiting f hw hforks ht hf =>
        refine .waiting f hw ?_ ht hf
        intro hfork
        exact ⟨tx, sender, by rw [hforks hfork]⟩
      | action f x hx hbegins hc ht hf => exact .action f x hx hbegins hc ht hf
  | callToken sender call =>
    simp only [step, callToken, bind_eq_ok, pure_eq_ok] at h
    obtain ⟨w₁, henter, nouns, -, rfl⟩ := h
    obtain ⟨frames, hentered, rfl⟩ := enter_entered henter
    exact .call sender frames hentered rfl (.nothing rfl rfl)
  | callExecutor a sender call =>
    simp only [step, callExecutor, bind_eq_ok, pure_eq_ok] at h
    obtain ⟨w₁, henter, e, -, rfl⟩ := h
    obtain ⟨frames, hentered, rfl⟩ := enter_entered henter
    exact .call sender frames hentered rfl (.nothing rfl rfl)
  | return_ forkTreasury forkToken =>
    simp only [step] at h
    split at h
    · simp at h
    · rename_i f frames hframes
      refine .return_ f frames hframes ?_ (resume_pushes h)
      by_cases hfork : f.isForking = true
      · exact .inl hfork
      · refine .inr (hend ?_)
        simp only [label, hframes, hfork, Bool.false_eq_true, if_false]
        split <;> simp

end World

end Nouns
