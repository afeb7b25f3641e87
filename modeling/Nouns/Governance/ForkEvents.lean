import Nouns.Governance.Events
import Nouns.Governance.ForkRecords

/-!
# ForkEvents — what the DAO logs about forks

`ForkCourse.Step` is the inversion of `World.step` for the escrow and the log: it says which event
goes with which change of the escrow.  An `executeFork` logs how many tokens were in escrow when it
began, and a `joinFork` the fork that is the last one when it ends.
-/

open Fallible Transition

namespace Nouns

variable {H : Type}

/-- The events of the escrow and of the forks. -/
def DAOEvent.ofForks : DAOEvent → Bool
  | .EscrowedToFork .. | .WithdrawFromForkEscrow .. | .ExecuteFork .. | .JoinFork .. => true
  | _ => false

def PayoutPurpose.fork? : PayoutPurpose → Option ForkStart
  | .executeFork fork _ _ => some fork
  | .joinFork _ => none

def PayoutPurpose.joining? : PayoutPurpose → Option ForkJoin
  | .executeFork _ _ _ => none
  | .joinFork join => some join

/-- The `executeFork` that waits in this frame. -/
def Frame.fork? (f : Frame) : Option ForkStart :=
  match f.continuation with
  | .deployForkDAO fork => some fork
  | .sendETH payout _ | .sendERC20 payout _ _ _ _ => payout.purpose.fork?
  | _ => none

/-- The `joinFork` that waits in this frame. -/
def Frame.joining? (f : Frame) : Option ForkJoin :=
  match f.continuation with
  | .claimDuringForkPeriod join => some join
  | .sendETH payout _ | .sendERC20 payout _ _ _ _ => payout.purpose.joining?
  | _ => none

/-- The call escrows Nouns, takes some back or executes a fork. -/
def DAOCall.movesEscrow : DAOCall → Bool
  | .escrowToFork .. | .withdrawFromForkEscrow _ | .executeFork => true
  | _ => false

/-! ## Changes of the escrow -/

namespace ForkEscrow

/-- The records of these tokens for the current fork are set to `owner`. -/
structure SetAll (tokenIds : List Nat) (owner : Address) (e e' : ForkEscrow) : Prop where
  forkId : e'.forkId = e.forkId
  entry : ∀ f id, e'.escrowedTokensByForkId f id =
    if f = e.forkId ∧ id ∈ tokenIds then owner else e.escrowedTokensByForkId f id

variable {e e₁ e' : ForkEscrow} {tokenIds : List Nat} {owner : Address}

theorem SetAll.nil (e : ForkEscrow) (owner : Address) : SetAll [] owner e e := by
  refine ⟨rfl, ?_⟩
  intro f id
  rw [if_neg (fun hand => List.not_mem_nil hand.2)]

theorem SetAll.cons {tokenId : Nat} (h : SetAll tokenIds owner e₁ e')
    (hforkId : e₁.forkId = e.forkId)
    (hentry : e₁.escrowedTokensByForkId = (e.setEscrowed tokenId owner).escrowedTokensByForkId) :
    SetAll (tokenId :: tokenIds) owner e e' := by
  refine ⟨h.forkId.trans hforkId, ?_⟩
  intro f id
  rw [h.entry, hforkId, hentry, setEscrowed_entry]
  by_cases hf : f = e.forkId
  · by_cases hid : id = tokenId
    · simp [hf, hid]
    · simp [hf, hid]
  · simp [hf]

theorem setAll_of_returned {proxies : Address → Address} {now : Nat} {dao this : Address}
    {nouns nouns' : NounsToken}
    (h : e.returnTokensToOwner proxies now dao this nouns owner tokenIds = .ok (e', nouns')) :
    SetAll tokenIds 0 e e' ∧ e'.numTokensInEscrow + tokenIds.length = e.numTokensInEscrow := by
  simp only [returnTokensToOwner, bind_eq_ok, checkedSub_eq_ok, pure_eq_ok, Prod.mk.injEq] at h
  obtain ⟨⟨e₁, nouns₁⟩, hloop, remaining, ⟨hle, rfl⟩, rfl, rfl⟩ := h
  have henough : tokenIds.length ≤ e₁.numTokensInEscrow := hle
  have hrounds : SetAll tokenIds 0 e e₁ ∧ e₁.numTokensInEscrow = e.numTokensInEscrow := by
    clear hle henough
    induction tokenIds generalizing e nouns with
    | nil =>
      simp only [List.foldlM_nil, pure_eq_ok, Prod.mk.injEq] at hloop
      obtain ⟨rfl, rfl⟩ := hloop
      exact ⟨.nil _ 0, rfl⟩
    | cons id tokenIds ih =>
      simp only [List.foldlM_cons, bind_eq_ok, pure_eq_ok] at hloop
      obtain ⟨_, ⟨_, -, nouns₂, -, rfl⟩, hloop⟩ := hloop
      obtain ⟨hset, hnum⟩ := ih hloop
      exact ⟨hset.cons rfl rfl, hnum⟩
  refine ⟨⟨hrounds.1.forkId, hrounds.1.entry⟩, ?_⟩
  show e₁.numTokensInEscrow - tokenIds.length + tokenIds.length = _
  rw [Nat.sub_add_cancel henough, hrounds.2]

end ForkEscrow

/-! ## The course of the forks -/

/-- The escrow, the log, and the executions of forks that have not ended, the innermost first. -/
structure ForkCourse where
  e : ForkEscrow
  log : List DAOEvent
  executing : List ForkStart

/-- One change of the escrow, with its event.  Nobody touches the escrow while a fork is executed. -/
inductive ForkCourse.Step (c : ForkCourse) : ForkCourse → Prop
  | aside (events : List DAOEvent) : (∀ ev ∈ events, ev.ofForks = false) →
      Step c ⟨c.e, events ++ c.log, c.executing⟩
  | escrow (e' : ForkEscrow) (owner : Account) (tokenIds proposalIds : List Nat) (reason : String) :
      c.executing = [] → c.e.SetAll tokenIds owner e' →
      e'.numTokensInEscrow = c.e.numTokensInEscrow + tokenIds.length →
      Step c ⟨e', .EscrowedToFork c.e.forkId owner tokenIds proposalIds reason :: c.log, []⟩
  | withdraw (e' : ForkEscrow) (owner : Address) (tokenIds : List Nat) :
      c.executing = [] → c.e.SetAll tokenIds 0 e' →
      e'.numTokensInEscrow + tokenIds.length = c.e.numTokensInEscrow →
      Step c ⟨e', .WithdrawFromForkEscrow c.e.forkId owner tokenIds :: c.log, []⟩
  | begin_ (fork : ForkStart) : c.executing = [] → fork.tokensInEscrow = c.e.numTokensInEscrow →
      Step c ⟨c.e, c.log, [fork]⟩
  | execute (fork : ForkStart) (rest : List ForkStart) (forkTreasury forkToken : Address) :
      c.executing = fork :: rest →
      Step c ⟨c.e.closeEscrow, .ExecuteFork c.e.forkId forkTreasury forkToken fork.forkEndTimestamp
        fork.tokensInEscrow :: c.log, rest⟩
  | join (forkId : Nat) (owner : Address) (tokenIds proposalIds : List Nat) (reason : String) :
      c.e.forkId = forkId + 1 →
      Step c ⟨c.e, .JoinFork forkId owner tokenIds proposalIds reason :: c.log, c.executing⟩

namespace StorageV3

variable {ds ds' ds₁ : StorageV3 H} {sender : Address}

/-- Only events that are not about forks were logged. -/
def Unforked (ds ds' : StorageV3 H) : Prop :=
  ∃ events, (∀ e ∈ events, DAOEvent.ofForks e = false) ∧ ds'.log = events ++ ds.log

theorem Unforked.of_eq (h : ds'.log = ds.log) : Unforked ds ds' :=
  ⟨[], fun _ hmem => absurd hmem List.not_mem_nil, h⟩

theorem Unforked.of_log {e : DAOEvent} (he : e.ofForks = false) (hlog : ds'.log = e :: ds.log) :
    Unforked ds ds' :=
  ⟨[e], by simpa using he, hlog⟩

theorem Unforked.trans (h : Unforked ds ds₁) (h' : Unforked ds₁ ds') : Unforked ds ds' := by
  obtain ⟨events, hevents, hlog⟩ := h
  obtain ⟨events', hevents', hlog'⟩ := h'
  refine ⟨events' ++ events, ?_, ?_⟩
  · intro e he
    rcases List.mem_append.mp he with he | he
    · exact hevents' e he
    · exact hevents e he
  · rw [hlog', hlog, List.append_assoc]

theorem Unforked.of_logged {proposals : Nat → Proposal} {proposalCount : Nat}
    {events : List DAOEvent} (h : Logged ds ds' proposals proposalCount events)
    (hevents : ∀ e ∈ events, e.ofForks = false) : Unforked ds ds' :=
  ⟨events, hevents, h.log⟩

theorem setForkEscrow_unforked {a : Address} (h : ds.setForkEscrow sender a = .ok ds') :
    Unforked ds ds' := by
  simp only [setForkEscrow, bind_eq_ok, pure_eq_ok] at h
  obtain ⟨_, -, rfl⟩ := h
  exact .of_log rfl rfl

theorem setForkDAODeployer_unforked {a : Address} (h : ds.setForkDAODeployer sender a = .ok ds') :
    Unforked ds ds' := by
  simp only [setForkDAODeployer, bind_eq_ok, pure_eq_ok] at h
  obtain ⟨_, -, rfl⟩ := h
  exact .of_log rfl rfl

theorem setErc20TokensToIncludeInFork_unforked {l : List Address}
    (h : ds.setErc20TokensToIncludeInFork sender l = .ok ds') : Unforked ds ds' := by
  simp only [setErc20TokensToIncludeInFork, bind_eq_ok, pure_eq_ok] at h
  obtain ⟨_, -, _, -, rfl⟩ := h
  exact .of_log rfl rfl

theorem setForkPeriod_unforked {v : Nat} (h : ds.setForkPeriod sender v = .ok ds') :
    Unforked ds ds' := by
  simp only [setForkPeriod, bind_eq_ok, pure_eq_ok] at h
  obtain ⟨_, -, _, -, _, -, rfl⟩ := h
  exact .of_log rfl rfl

theorem setForkThresholdBPS_unforked {v : Nat} (h : ds.setForkThresholdBPS sender v = .ok ds') :
    Unforked ds ds' := by
  simp only [setForkThresholdBPS, bind_eq_ok, pure_eq_ok] at h
  obtain ⟨_, -, rfl⟩ := h
  exact .of_log rfl rfl

theorem adminCall_unforked {c : AdminCall} (h : ds.adminCall sender c = .ok ds') :
    Unforked ds ds' := by
  cases c with
  | setForkParams forkEscrow forkDAODeployer erc20s forkPeriod forkThresholdBPS =>
    simp only [adminCall, setForkParams, bind_eq_ok] at h
    obtain ⟨ds₁, h₁, ds₂, h₂, ds₃, h₃, ds₄, h₄, h₅⟩ := h
    exact (((setForkEscrow_unforked h₁).trans (setForkDAODeployer_unforked h₂)).trans
      (setErc20TokensToIncludeInFork_unforked h₃)).trans (setForkPeriod_unforked h₄) |>.trans
      (setForkThresholdBPS_unforked h₅)
  | setForkEscrow a => exact setForkEscrow_unforked h
  | setForkDAODeployer a => exact setForkDAODeployer_unforked h
  | setErc20TokensToIncludeInFork l => exact setErc20TokensToIncludeInFork_unforked h
  | setForkPeriod v => exact setForkPeriod_unforked h
  | setForkThresholdBPS v => exact setForkThresholdBPS_unforked h
  | setVotingDelay _ | setVotingPeriod _ | setProposalThresholdBPS _
  | setObjectionPeriodDurationInBlocks _ | setProposalUpdatablePeriodInBlocks _ =>
    simp only [adminCall, setVotingDelay, setVotingPeriod, setProposalThresholdBPS,
      setObjectionPeriodDurationInBlocks, setProposalUpdatablePeriodInBlocks, bind_eq_ok,
      pure_eq_ok] at h
    obtain ⟨_, -, _, -, rfl⟩ := h
    exact .of_log rfl rfl
  | setTimelocksAndAdmin _ _ _ | setLastMinuteWindowInBlocks _ | setPendingAdmin _
  | setPendingVetoer _ =>
    simp only [adminCall, setTimelocksAndAdmin, setLastMinuteWindowInBlocks, setPendingAdmin,
      setPendingVetoer, bind_eq_ok, pure_eq_ok] at h
    obtain ⟨_, -, rfl⟩ := h
    exact .of_log rfl rfl
  | acceptAdmin | acceptVetoer | burnVetoPower =>
    simp only [adminCall, acceptAdmin, acceptVetoer, burnVetoPower, bind_eq_ok, pure_eq_ok] at h
    obtain ⟨_, -, rfl⟩ := h
    exact ⟨[_, _], by simp [DAOEvent.ofForks], rfl⟩

theorem creationEvents_unforked (p : Proposal) (minQuorumVotes : Nat) (description : String) :
    ∀ e ∈ creationEvents p minQuorumVotes description, e.ofForks = false := by
  intro e he
  simp only [creationEvents, List.mem_append, List.mem_cons, List.not_mem_nil, or_false] at he
  rcases he with he | rfl | rfl
  · split at he
    · rw [List.mem_singleton.mp he]
      rfl
    · exact absurd he List.not_mem_nil
  · rfl
  · rfl

theorem quorumEvents_unforked (params : DynamicQuorumParams) (c : QuorumCall) :
    ∀ e ∈ quorumEvents params c, e.ofForks = false := by
  cases c <;> simp [quorumEvents, DAOEvent.ofForks]

theorem Revises.unforked {env : Env H} {id : Nat} (h : Revises env ds ds' id) : Unforked ds ds' := by
  obtain ⟨txs, e, -, he, hlogged⟩ := h
  refine .of_log ?_ hlogged.log
  cases he with
  | both => rfl
  | transactions => rfl
  | description => rfl

theorem castVoteInternal_unforked {env : Env H} {voter : Address} {id support votes : Nat}
    (h : ds.castVoteInternal env voter id support = .ok (ds', votes)) (reason : String) :
    Unforked ds (ds'.emit (.VoteCast voter id support votes reason)) := by
  obtain ⟨o, events, -, -, hobjection, hlogged⟩ := castVoteInternal_logged h
  refine .of_logged (hlogged.emit _) ?_
  intro e he
  rcases List.mem_cons.mp he with rfl | he
  · rfl
  · cases hobjection with
    | none => exact absurd he List.not_mem_nil
    | opened o =>
      rw [List.mem_singleton.mp he]
      rfl

theorem castVoteWithReason_unforked {env : Env H} {voter : Address} {id support : Nat}
    {reason : String} (h : ds.castVoteWithReason env voter id support reason = .ok ds') :
    Unforked ds ds' := by
  simp only [castVoteWithReason, bind_eq_ok, pure_eq_ok] at h
  obtain ⟨⟨ds₁, votes⟩, hcast, rfl⟩ := h
  exact castVoteInternal_unforked hcast reason

end StorageV3

namespace World

variable {d : Deployment H} {escrow : Address} {w w' w₁ : World H}

def forkCourse (escrow : Address) (w : World H) : ForkCourse :=
  ⟨w.escrows escrow, w.dao.log, w.frames.filterMap Frame.fork?⟩

/-- Those who wait for the token of a fork, or will, found the escrow at its address. -/
def JoinsSited (escrow : Address) (frames : List Frame) : Prop :=
  ∀ f ∈ frames, ∀ join, f.joining? = some join → join.forkEscrow = escrow

/-- The change of the forks, and what is left on the stack. -/
structure Forks (escrow : Address) (w w' : World H) : Prop where
  step : (w.forkCourse escrow).Step (w'.forkCourse escrow)
  joins : JoinsSited escrow w.frames → JoinsSited escrow w'.frames

/-- Nothing about forks. -/
structure Forkless (escrow : Address) (w w' : World H) : Prop where
  log : StorageV3.Unforked w.dao w'.dao
  sameEscrow : w'.escrows escrow = w.escrows escrow
  frames : w'.frames = w.frames ∨
    ∃ f : Frame, f.fork? = none ∧ f.joining? = none ∧ w'.frames = f :: w.frames

theorem JoinsSited.cons {f : Frame} {frames : List Frame} (h : JoinsSited escrow frames)
    (hf : ∀ join, f.joining? = some join → join.forkEscrow = escrow) :
    JoinsSited escrow (f :: frames) := by
  intro g hg
  rcases List.mem_cons.mp hg with rfl | hg
  · exact hf
  · exact h g hg

theorem Forkless.forks (h : Forkless escrow w w') : Forks escrow w w' := by
  obtain ⟨⟨events, hevents, hlog⟩, hescrow, hframes⟩ := h
  constructor
  · have hcourse : w'.forkCourse escrow =
        ⟨w.escrows escrow, events ++ w.dao.log, w.frames.filterMap Frame.fork?⟩ := by
      simp only [forkCourse, hescrow, hlog, ForkCourse.mk.injEq, true_and]
      rcases hframes with hframes | ⟨f, hfork, -, hframes⟩
      · rw [hframes]
      · rw [hframes, List.filterMap_cons_none hfork]
    rw [hcourse]
    exact .aside events hevents
  · intro hjoins
    rcases hframes with hframes | ⟨f, -, hjoin, hframes⟩
    · rw [hframes]
      exact hjoins
    · rw [hframes]
      apply hjoins.cons
      intro join hsome
      rw [hjoin] at hsome
      cases hsome

/-- One event that is not about forks. -/
theorem Forkless.of_event (e : DAOEvent) (he : e.ofForks = false)
    (hlog : w'.dao.log = e :: w.dao.log) (hescrows : w'.escrows = w.escrows)
    (hframes : w'.frames = w.frames) : Forkless escrow w w' :=
  ⟨.of_log he hlog, congrFun hescrows escrow, .inl hframes⟩

theorem Forkless.of_same (hlog : StorageV3.Unforked w.dao w'.dao)
    (hescrows : w'.escrows = w.escrows) (hframes : w'.frames = w.frames) : Forkless escrow w w' :=
  ⟨hlog, congrFun hescrows escrow, .inl hframes⟩

theorem Forkless.trans_same (h : Forkless escrow w₁ w') (hlog : StorageV3.Unforked w.dao w₁.dao)
    (hescrows : w₁.escrows = w.escrows) (hframes : w₁.frames = w.frames) : Forkless escrow w w' where
  log := hlog.trans h.log
  sameEscrow := h.sameEscrow.trans (congrFun hescrows escrow)
  frames := hframes ▸ h.frames

/-- Outside code is called after a payment. -/
theorem Forkless.of_callOut {from_ to_ callee : Address} {amount : Nat} {k : Continuation}
    (h : w.sendValue from_ to_ amount = .ok w₁)
    (hk : Frame.fork? ⟨callee, none, k⟩ = none ∧ Frame.joining? ⟨callee, none, k⟩ = none) :
    Forkless escrow w (w₁.callOut callee k) := by
  obtain ⟨-, hescrows, hframes⟩ := sendValue_quiet h
  have hdao : w₁.dao = w.dao := sendValue_dao h
  refine ⟨.of_eq (congrArg StorageV3.log hdao), congrFun hescrows escrow,
    .inr ⟨⟨callee, none, k⟩, hk.1, hk.2, ?_⟩⟩
  rw [callOut, hframes]

/-! ## Calls that are not about forks -/

theorem refundGas_forkless {tx : TxContext} (h : w.refundGas d tx = .ok w') :
    Forkless escrow w w' := by
  simp only [refundGas] at h
  split at h
  · rw [← pure_eq_ok.mp h]
    exact .of_same (.of_eq rfl) rfl rfl
  · split at h
    · simp only [bind_eq_ok, pure_eq_ok] at h
      obtain ⟨w₁, hsend, rfl⟩ := h
      exact .of_callOut hsend ⟨rfl, rfl⟩
    · rw [← pure_eq_ok.mp h]
      exact .of_same (.of_log rfl rfl) rfl rfl

theorem withdraw_forkless {tx : TxContext} {sender : Address} (h : w.withdraw d tx sender = .ok w') :
    Forkless escrow w w' := by
  simp only [withdraw, bind_eq_ok] at h
  obtain ⟨_, -, h⟩ := h
  split at h
  · simp only [bind_eq_ok, pure_eq_ok] at h
    obtain ⟨w₁, hsend, rfl⟩ := h
    exact .of_callOut hsend ⟨rfl, rfl⟩
  · rw [← pure_eq_ok.mp h]
    exact .of_same (.of_log rfl rfl) rfl rfl

theorem castRefundableVoteInternal_forkless {tx : TxContext} {sender : Address} {id support : Nat}
    {reason : String} (h : w.castRefundableVoteInternal d tx sender id support reason = .ok w') :
    Forkless escrow w w' := by
  simp only [castRefundableVoteInternal, bind_eq_ok] at h
  obtain ⟨⟨ds, votes⟩, hcast, h⟩ := h
  have hlog := StorageV3.castVoteInternal_unforked hcast reason
  split at h
  · exact (refundGas_forkless h).trans_same hlog rfl rfl
  · rw [← pure_eq_ok.mp h]
    exact .of_same hlog rfl rfl

theorem withStorage_forkless {x : Tx (StorageV3 H)}
    (hx : ∀ ds, x = .ok ds → StorageV3.Unforked w.dao ds) (h : w.withStorage x = .ok w') :
    Forkless escrow w w' := by
  obtain ⟨ds, hds, rfl⟩ := withStorage_ok h
  exact .of_same (hx ds hds) rfl rfl

theorem withdrawDAONounsFromEscrow_forkless {sender to_ : Address} {tokenIds : List Nat}
    (h : w.withdrawDAONounsFromEscrow d sender tokenIds to_ = .ok w') : Forkless escrow w w' := by
  simp only [withdrawDAONounsFromEscrow, bind_eq_ok, pure_eq_ok] at h
  obtain ⟨_, -, nouns, -, rfl⟩ := h
  exact .of_same (.of_log rfl rfl) rfl rfl

theorem executeFrom_forkless [DecidableEq H] {id i : Nat} {timelock : Address}
    (h : w.executeFrom d id timelock i = .ok w') : Forkless escrow w w' := by
  simp only [executeFrom] at h
  split at h
  · simp only [bind_eq_ok, pure_eq_ok] at h
    obtain ⟨tx, -, e, -, w₁, hsend, rfl⟩ := h
    obtain ⟨-, hescrows, hframes⟩ := sendValue_quiet hsend
    have hdao : w₁.dao = w.dao := sendValue_dao (w := w.setExecutor timelock e) hsend
    exact ⟨.of_eq (congrArg StorageV3.log hdao), congrFun hescrows escrow,
      .inr ⟨⟨tx.target, _, .executeInternal id timelock i tx⟩, rfl, rfl, congrArg _ hframes⟩⟩
  · rw [← pure_eq_ok.mp h]
    exact .of_same (.of_log rfl rfl) rfl rfl

theorem executeInternal_forkless [DecidableEq H] {id : Nat} {timelock : Address}
    (h : w.executeInternal d id timelock = .ok w') : Forkless escrow w w' := by
  simp only [executeInternal, bind_eq_ok] at h
  obtain ⟨_, -, _, -, _, -, h⟩ := h
  exact (executeFrom_forkless h).trans_same (.of_eq rfl) rfl rfl

/-! ## Escrowing, executing and joining -/

theorem escrowed_setAll {sender : Address} {tokenIds : List Nat} {nouns nouns' : NounsToken}
    {e e' : ForkEscrow}
    (h : tokenIds.foldlM (w.escrowOne d escrow sender) (nouns, e) = .ok (nouns', e')) :
    e.SetAll tokenIds sender e' ∧
      e'.numTokensInEscrow = e.numTokensInEscrow + tokenIds.length := by
  induction tokenIds generalizing nouns e with
  | nil =>
    simp only [List.foldlM_nil, pure_eq_ok, Prod.mk.injEq] at h
    obtain ⟨rfl, rfl⟩ := h
    exact ⟨.nil _ sender, rfl⟩
  | cons id tokenIds ih =>
    simp only [List.foldlM_cons, bind_eq_ok, escrowOne, ForkEscrow.onERC721Received,
      pure_eq_ok] at h
    obtain ⟨_, ⟨nouns₁, -, _, ⟨_, -, rfl⟩, rfl⟩, hrest⟩ := h
    obtain ⟨hset, hnum⟩ := ih hrest
    refine ⟨hset.cons rfl rfl, hnum.trans ?_⟩
    show e.numTokensInEscrow + 1 + tokenIds.length = e.numTokensInEscrow + (tokenIds.length + 1)
    omega

theorem escrowToFork_forks {sender : Account} {tokenIds proposalIds : List Nat} {reason : String}
    (hw : w.EscrowFixed d escrow) (hidle : (w.forkCourse escrow).executing = [])
    (h : w.escrowToFork d sender tokenIds proposalIds reason = .ok w') : Forks escrow w w' := by
  have hframes := (escrowToFork_ok hw h).2.2
  obtain ⟨hset, hnum⟩ := escrowed_setAll (escrowToFork_ok hw h).2.1
  have hlog : w'.dao.log = .EscrowedToFork (w.escrows escrow).forkId sender tokenIds proposalIds
      reason :: w.dao.log := by
    simp only [escrowToFork, bind_eq_ok, pure_eq_ok] at h
    obtain ⟨_, -, ⟨nouns, e⟩, -, rfl⟩ := h
    have hforkId := hset.forkId
    simp only [World.emit, World.setEscrow, hw.forkEscrow, Function.update_self] at hforkId
    show DAOEvent.EscrowedToFork e.forkId sender tokenIds proposalIds reason :: w.dao.log = _
    rw [hforkId]
  constructor
  · have hcourse : w'.forkCourse escrow = ⟨w'.escrows escrow, .EscrowedToFork
        (w.escrows escrow).forkId sender tokenIds proposalIds reason :: w.dao.log, []⟩ := by
      simp only [forkCourse, hlog, hframes, ForkCourse.mk.injEq, true_and]
      exact hidle
    rw [hcourse]
    exact .escrow _ sender tokenIds proposalIds reason hidle hset hnum
  · rw [hframes]
    exact id

theorem withdrawFromForkEscrow_forks {sender : Address} {tokenIds : List Nat}
    (hw : w.EscrowFixed d escrow) (hidle : (w.forkCourse escrow).executing = [])
    (h : w.withdrawFromForkEscrow d sender tokenIds = .ok w') : Forks escrow w w' := by
  simp only [withdrawFromForkEscrow, bind_eq_ok, pure_eq_ok] at h
  obtain ⟨_, -, ⟨e, nouns⟩, hreturn, rfl⟩ := h
  rw [hw.forkEscrow] at hreturn
  obtain ⟨hset, hnum⟩ := ForkEscrow.setAll_of_returned hreturn
  constructor
  · have hcourse : forkCourse escrow
        ((({ w with nouns } : World H).setEscrow w.dao.forkEscrow e).emit
          (.WithdrawFromForkEscrow e.forkId sender tokenIds)) =
        ⟨e, .WithdrawFromForkEscrow (w.escrows escrow).forkId sender tokenIds :: w.dao.log, []⟩ := by
      simp only [forkCourse, World.emit, World.setEscrow, StorageV3.emit, hw.forkEscrow,
        Function.update_self, hset.forkId, ForkCourse.mk.injEq, true_and]
      exact hidle
    rw [hcourse]
    exact .withdraw e sender tokenIds hidle hset hnum
  · exact id

theorem executeFork_forks (hw : w.EscrowFixed d escrow)
    (hidle : (w.forkCourse escrow).executing = []) (h : w.executeFork d = .ok w') :
    Forks escrow w w' := by
  simp only [executeFork, bind_eq_ok, pure_eq_ok] at h
  obtain ⟨_, -, _, -, _, -, rfl⟩ := h
  constructor
  · rw [hw.forkEscrow]
    have hcourse (fork : ForkStart) : forkCourse escrow
        (w.callOut w.dao.forkDAODeployer (.deployForkDAO fork)) =
        ⟨w.escrows escrow, w.dao.log, [fork]⟩ := by
      have hrest : w.frames.filterMap Frame.fork? = [] := hidle
      simp only [forkCourse, callOut, List.filterMap_cons, hrest, Frame.fork?]
    rw [hcourse]
    exact .begin_ _ hidle rfl
  · intro hjoins
    apply hjoins.cons
    intro join hsome
    cases hsome

theorem Forks.congr (hlog : w₁.dao.log = w.dao.log)
    (hescrow : w₁.escrows escrow = w.escrows escrow) (hframes : w₁.frames = w.frames)
    (h : Forks escrow w₁ w') : Forks escrow w w' := by
  have hcourse : w₁.forkCourse escrow = w.forkCourse escrow := by
    simp only [forkCourse, hlog, hescrow, hframes]
  exact ⟨hcourse ▸ h.step, hframes ▸ h.joins⟩

/-- Calls in progress were replaced by others for the same forks. -/
theorem Forks.of_stack (hlog : w'.dao.log = w.dao.log)
    (hescrow : w'.escrows escrow = w.escrows escrow)
    (hframes : w'.frames.filterMap Frame.fork? = w.frames.filterMap Frame.fork?)
    (hjoins : JoinsSited escrow w.frames → JoinsSited escrow w'.frames) : Forks escrow w w' := by
  have hcourse : w'.forkCourse escrow = w.forkCourse escrow := by
    simp only [forkCourse, hlog, hescrow, hframes]
  refine ⟨?_, hjoins⟩
  rw [hcourse]
  exact .aside [] (fun _ h => absurd h List.not_mem_nil)

theorem joinFork_forks {sender : Address} {tokenIds proposalIds : List Nat} {reason : String}
    (hw : w.EscrowFixed d escrow)
    (h : w.joinFork d sender tokenIds proposalIds reason = .ok w') : Forks escrow w w' := by
  simp only [joinFork, sendProRataTreasury, bind_eq_ok, pure_eq_ok] at h
  obtain ⟨_, -, supply, -, _, -, _, -, w₁, hsend, rfl⟩ := h
  obtain ⟨-, hescrows, hframes⟩ := sendValue_quiet hsend
  have hdao : w₁.dao = w.dao := sendValue_dao hsend
  apply Forks.of_stack
  · show w₁.dao.log = w.dao.log
    rw [hdao]
  · exact congrFun hescrows escrow
  · rw [callOut, hframes]
    rfl
  · intro hjoins
    rw [callOut, hframes]
    apply hjoins.cons
    intro join hsome
    cases hsome
    exact hw.forkEscrow

/-- A payment that goes on leaves the call that pays. -/
theorem payERC20_forks {payout : Payout} {f : Frame} {erc20Count remaining : Nat}
    (hpurpose : payout.purpose.Sited d escrow) (hfork : f.fork? = payout.purpose.fork?)
    (hjoin : f.joining? = payout.purpose.joining?)
    (h : w.payERC20 d payout erc20Count remaining = .ok w') :
    Forks escrow { w with frames := f :: w.frames } w' := by
  induction remaining with
  | zero =>
    simp only [payERC20, endPayout] at h
    split at h
    · rename_i fork forkTreasury forkToken heq
      rw [heq] at hpurpose hfork
      have hescrow : fork.forkEscrow = escrow := hpurpose
      rw [← pure_eq_ok.mp h]
      constructor
      · have hcourse : forkCourse escrow (w.endExecuteFork fork forkTreasury forkToken) =
            ⟨(w.escrows escrow).closeEscrow, .ExecuteFork (w.escrows escrow).forkId forkTreasury
              forkToken fork.forkEndTimestamp fork.tokensInEscrow :: w.dao.log,
              w.frames.filterMap Frame.fork?⟩ := by
          simp only [forkCourse, endExecuteFork, World.emit, World.setEscrow, StorageV3.emit,
            hescrow, Function.update_self]
        rw [hcourse]
        exact .execute fork _ forkTreasury forkToken (List.filterMap_cons_some hfork)
      · intro hjoins g hg
        exact hjoins g (List.mem_cons_of_mem f hg)
    · rename_i join heq
      rw [heq] at hfork hjoin
      simp only [joinForkTransfers, bind_eq_ok, pure_eq_ok] at h
      obtain ⟨nouns, -, rfl⟩ := h
      apply Forks.of_stack
      · rfl
      · rfl
      · exact (List.filterMap_cons_none hfork).symm
      · intro hjoins
        have hrest : JoinsSited escrow w.frames := fun g hg => hjoins g (List.mem_cons_of_mem f hg)
        apply hrest.cons
        intro join' hsome
        exact hjoins f List.mem_cons_self join' (hjoin.trans hsome)
  | succ remaining ih =>
    simp only [payERC20] at h
    split at h
    · exact absurd h throw_ne_ok
    · split at h
      · simp only [bind_eq_ok, pure_eq_ok] at h
        obtain ⟨_, -, w₁, hsend, rfl⟩ := h
        obtain ⟨-, hescrows, hframes⟩ := sendToken_quiet hsend
        have hdao : w₁.dao = w.dao := sendToken_dao hsend
        apply Forks.of_stack
        · show w₁.dao.log = w.dao.log
          rw [hdao]
        · exact congrFun hescrows escrow
        · rw [callOut, hframes]
          simp only [List.filterMap_cons, hfork]
          rfl
        · intro hjoins
          have hrest : JoinsSited escrow w.frames :=
            fun g hg => hjoins g (List.mem_cons_of_mem f hg)
          rw [callOut, hframes]
          apply hrest.cons
          intro join hsome
          exact hjoins f List.mem_cons_self join (hjoin.trans hsome)
      · exact ih h

/-! ## All steps -/

theorem Forks.of_popped {f : Frame} {frames : List Frame} (hframes : w.frames = f :: frames)
    (hfork : f.fork? = none) (h : Forks escrow { w with frames } w') : Forks escrow w w' := by
  have hcourse : ({ w with frames } : World H).forkCourse escrow = w.forkCourse escrow := by
    simp only [forkCourse, hframes, List.filterMap_cons_none hfork]
  refine ⟨hcourse ▸ h.step, ?_⟩
  intro hjoins
  apply h.joins
  intro g hg
  rw [hframes] at hjoins
  exact hjoins g (List.mem_cons_of_mem f hg)

theorem Entered.forkFrames {sender : Address} {frames : List Frame}
    (h : w.Entered d sender frames) (escrow : Address) :
    frames.filterMap Frame.fork? = w.frames.filterMap Frame.fork? ∧
      (JoinsSited escrow w.frames → JoinsSited escrow frames) := by
  cases h with
  | outside _ _ => exact ⟨rfl, id⟩
  | frame f rest hframes _ =>
    rw [hframes]
    refine ⟨rfl, ?_⟩
    intro hjoins g hg
    rcases List.mem_cons.mp hg with rfl | hg
    · exact hjoins f List.mem_cons_self
    · exact hjoins g (List.mem_cons_of_mem f hg)

variable [DecidableEq H]

theorem callDAO_forks {tx : TxContext} {sender : Account} {call : DAOCall}
    (hw : w.EscrowFixed d escrow) (hslot : w.dao.proposals (w.dao.proposalCount + 1) = Proposal.empty)
    (hidle : call.movesEscrow = true → (w.forkCourse escrow).executing = [])
    (h : w.callDAO d tx sender call = .ok w') : Forks escrow w w' := by
  cases call with
  | propose txs description =>
    apply Forkless.forks
    apply withStorage_forkless ?_ h
    intro ds hds
    obtain ⟨⟨ds₁, id⟩, hpropose, rfl⟩ := map_eq_ok.mp hds
    obtain ⟨-, p, q, -, hcreates⟩ := StorageV3.propose_creates hslot hpropose
    exact .of_logged hcreates.logged (StorageV3.creationEvents_unforked p q description)
  | proposeOnTimelockV1 txs description =>
    apply Forkless.forks
    apply withStorage_forkless ?_ h
    intro ds hds
    obtain ⟨⟨ds₁, id⟩, hpropose, rfl⟩ := map_eq_ok.mp hds
    obtain ⟨p, q, hcreates⟩ := StorageV3.proposeOnTimelockV1_creates hslot hpropose
    exact .of_logged hcreates.logged (StorageV3.creationEvents_unforked p q description)
  | proposeBySigs signatures txs description =>
    apply Forkless.forks
    apply withStorage_forkless ?_ h
    intro ds hds
    obtain ⟨⟨ds₁, id⟩, hpropose, rfl⟩ := map_eq_ok.mp hds
    obtain ⟨p, q, hcreates⟩ := StorageV3.proposeBySigs_creates hslot hpropose
    exact .of_logged hcreates.logged (StorageV3.creationEvents_unforked p q description)
  | cancelSig sig =>
    rw [← pure_eq_ok.mp h]
    apply Forkless.forks
    exact .of_event (.SignatureCancelled sender sig) rfl rfl rfl rfl
  | updateProposal id txs description message =>
    exact (withStorage_forkless (fun ds hds => (StorageV3.updateProposal_logged hds).unforked) h).forks
  | updateProposalTransactions id txs message =>
    exact (withStorage_forkless
      (fun ds hds => (StorageV3.updateProposalTransactions_logged hds).unforked) h).forks
  | updateProposalDescription id description message =>
    exact (withStorage_forkless
      (fun ds hds => (StorageV3.updateProposalDescription_logged hds).unforked) h).forks
  | updateProposalBySigs id signatures txs description message =>
    exact (withStorage_forkless
      (fun ds hds => (StorageV3.updateProposalBySigs_logged hds).unforked) h).forks
  | queue id =>
    simp only [callDAO] at h
    obtain ⟨ds, e, hqueue, rfl⟩ := withTimelock_ok h
    apply Forkless.forks
    exact .of_event _ rfl (StorageV3.queue_logged hqueue).log rfl rfl
  | cancel id =>
    simp only [callDAO] at h
    obtain ⟨ds, e, hcancel, rfl⟩ := withTimelock_ok h
    apply Forkless.forks
    exact .of_event _ rfl (StorageV3.cancel_logged hcancel).log rfl rfl
  | veto id =>
    simp only [callDAO] at h
    obtain ⟨ds, e, hveto, rfl⟩ := withTimelock_ok h
    apply Forkless.forks
    exact .of_event _ rfl (StorageV3.veto_logged hveto).log rfl rfl
  | execute id => exact (executeInternal_forkless h).forks
  | executeOnTimelockV1 id => exact (executeInternal_forkless h).forks
  | castVote id support =>
    apply Forkless.forks
    apply withStorage_forkless ?_ h
    intro ds hds
    exact StorageV3.castVoteWithReason_unforked hds
  | castVoteWithReason id support reason =>
    apply Forkless.forks
    apply withStorage_forkless ?_ h
    intro ds hds
    exact StorageV3.castVoteWithReason_unforked hds
  | castVoteBySig id support sig =>
    apply Forkless.forks
    apply withStorage_forkless ?_ h
    intro ds hds
    simp only [StorageV3.castVoteBySig, bind_eq_ok] at hds
    obtain ⟨_, -, hds⟩ := hds
    exact StorageV3.castVoteWithReason_unforked hds
  | castRefundableVote id support => exact (castRefundableVoteInternal_forkless h).forks
  | castRefundableVoteWithReason id support reason =>
    exact (castRefundableVoteInternal_forkless h).forks
  | admin call =>
    exact (withStorage_forkless (fun ds hds => StorageV3.adminCall_unforked hds) h).forks
  | quorum call =>
    apply Forkless.forks
    apply withStorage_forkless ?_ h
    intro ds hds
    obtain ⟨params, -, -, hlog⟩ := StorageV3.quorumCall_logged hds
    exact ⟨_, StorageV3.quorumEvents_unforked params call, hlog⟩
  | setVoteSnapshotBlockSwitchProposalId =>
    apply Forkless.forks
    apply withStorage_forkless ?_ h
    intro ds hds
    exact .of_log rfl (StorageV3.setVoteSnapshotBlockSwitchProposalId_logged hds)
  | withdraw => exact (withdraw_forkless h).forks
  | escrowToFork tokenIds proposalIds reason => exact escrowToFork_forks hw (hidle rfl) h
  | withdrawFromForkEscrow tokenIds => exact withdrawFromForkEscrow_forks hw (hidle rfl) h
  | executeFork => exact executeFork_forks hw (hidle rfl) h
  | joinFork tokenIds proposalIds reason => exact joinFork_forks hw h
  | withdrawDAONounsFromEscrowToTreasury tokenIds =>
    exact (withdrawDAONounsFromEscrow_forkless h).forks
  | withdrawDAONounsFromEscrowIncreasingTotalSupply tokenIds to_ =>
    simp only [callDAO, withdrawDAONounsFromEscrowIncreasingTotalSupply, bind_eq_ok,
      pure_eq_ok] at h
    obtain ⟨_, -, w₁, hw₁, rfl⟩ := h
    simp only [withdrawDAONounsFromEscrow, bind_eq_ok, pure_eq_ok] at hw₁
    obtain ⟨_, -, nouns, -, rfl⟩ := hw₁
    refine Forkless.forks (.of_same ⟨[.DAONounsSupplyIncreasedFromEscrow tokenIds.length to_,
      .DAOWithdrawNounsFromEscrow tokenIds to_], ?_, rfl⟩ rfl rfl)
    intro e he
    rcases List.mem_cons.mp he with rfl | he
    · rfl
    · rw [List.mem_singleton.mp he]
      rfl

theorem resume_forks {forkTreasury forkToken : Address} {f : Frame} {frames : List Frame}
    (hsited : w.Sited d escrow) (hjoins : JoinsSited escrow w.frames)
    (hframes : w.frames = f :: frames)
    (h : ({ w with frames } : World H).resume d forkTreasury forkToken f.continuation = .ok w') :
    Forks escrow w w' := by
  have htop : f ∈ w.frames := by
    rw [hframes]
    exact List.mem_cons_self
  have hf := (hsited f htop).continuation
  obtain ⟨callee, caller, k⟩ := f
  cases k with
  | executeInternal proposalId timelock i tx =>
    apply Forks.of_popped hframes rfl
    have hfrom : Forkless escrow _ w' := executeFrom_forkless h
    apply Forks.congr ?_ ?_ ?_ hfrom.forks
    · rfl
    · rfl
    · rfl
  | refundGas origin amount =>
    apply Forks.of_popped hframes rfl
    rw [← pure_eq_ok.mp h]
    apply Forkless.forks
    exact .of_event (.RefundableVote origin amount true) rfl rfl rfl rfl
  | withdraw amount =>
    apply Forks.of_popped hframes rfl
    rw [← pure_eq_ok.mp h]
    apply Forkless.forks
    exact .of_event (.Withdraw amount true) rfl rfl rfl rfl
  | deployForkDAO fork =>
    simp only [resume, sendProRataTreasury, bind_eq_ok, pure_eq_ok] at h
    obtain ⟨supply, -, _, -, _, -, w₁, hsend, rfl⟩ := h
    obtain ⟨-, hescrows, hrest⟩ := sendValue_quiet hsend
    have hdao : w₁.dao = w.dao := sendValue_dao (w := { w with frames }) hsend
    apply Forks.of_stack
    · show w₁.dao.log = w.dao.log
      rw [hdao]
    · exact congrFun hescrows escrow
    · rw [callOut, hrest, hframes]
      rfl
    · intro _
      rw [callOut, hrest]
      rw [hframes] at hjoins
      have hothers : JoinsSited escrow frames :=
        fun g hg => hjoins g (List.mem_cons_of_mem _ hg)
      apply hothers.cons
      intro join hsome
      cases hsome
  | sendETH payout amount =>
    have hpaid := payERC20_forks
      (w := ({ w with frames } : World H).setExecutor payout.timelock _)
      (f := ⟨callee, caller, .sendETH payout amount⟩) hf rfl rfl h
    apply Forks.congr ?_ ?_ ?_ hpaid
    · rfl
    · rfl
    · exact hframes.symm
  | sendERC20 payout erc20Count remaining erc20token amount =>
    have hpaid := payERC20_forks
      (w := ({ w with frames } : World H).setExecutor payout.timelock _)
      (f := ⟨callee, caller, .sendERC20 payout erc20Count remaining erc20token amount⟩) hf rfl rfl h
    apply Forks.congr ?_ ?_ ?_ hpaid
    · rfl
    · rfl
    · exact hframes.symm
  | claimDuringForkPeriod join =>
    apply Forks.of_popped hframes rfl
    have hescrow : join.forkEscrow = escrow := hjoins _ htop join rfl
    simp only [resume, bind_eq_ok, pure_eq_ok, checkedSub_eq_ok] at h
    obtain ⟨forkId, ⟨hpos, rfl⟩, rfl⟩ := h
    refine ⟨.join _ join.sender join.tokenIds join.proposalIds join.reason ?_, id⟩
    show (w.escrows escrow).forkId = _
    rw [hescrow]
    rw [hescrow] at hpos
    exact (Nat.sub_add_cancel hpos).symm

/-- Nobody touches the escrow while a fork is executed. -/
def SparesExecution (w : World H) : Action → Prop
  | .callDAO _ _ call => call.movesEscrow = true → w.frames.filterMap Frame.fork? = []
  | _ => True

instance (w : World H) : (a : Action) → Decidable (w.SparesExecution a)
  | .callDAO _ _ call => inferInstanceAs
      (Decidable (call.movesEscrow = true → w.frames.filterMap Frame.fork? = []))
  | .advance .. | .callToken .. | .callExecutor .. | .return_ .. => isTrue trivial

/-- Every step of the contracts is one of these changes. -/
theorem step_forks {a : Action} (hw : w.EscrowFixed d escrow) (hsited : w.Sited d escrow)
    (hjoins : JoinsSited escrow w.frames)
    (hslot : w.dao.proposals (w.dao.proposalCount + 1) = Proposal.empty)
    (hspares : w.SparesExecution a) (h : w.step d a = .ok w') : Forks escrow w w' := by
  cases a with
  | advance blockNumber timestamp =>
    simp only [step, bind_eq_ok, pure_eq_ok] at h
    obtain ⟨_, -, rfl⟩ := h
    exact .of_stack rfl rfl rfl id
  | callDAO tx sender call =>
    simp only [step, bind_eq_ok] at h
    obtain ⟨w₁, henter, h⟩ := h
    obtain ⟨frames, hentered, rfl⟩ := enter_entered henter
    obtain ⟨hforks, hkept⟩ := hentered.forkFrames escrow
    have hcourse : ({ w with frames } : World H).forkCourse escrow = w.forkCourse escrow := by
      simp only [forkCourse, hforks]
    have hw₁ : ({ w with frames } : World H).EscrowFixed d escrow :=
      ⟨hw.timelocks, hw.forkEscrow, hw.proxies⟩
    have hidle : call.movesEscrow = true → (({ w with frames } : World H).forkCourse escrow).executing = [] :=
      fun hmoves => hforks.trans (hspares hmoves)
    have hcall := callDAO_forks (w := { w with frames }) hw₁ hslot hidle h
    exact ⟨hcourse ▸ hcall.step, fun hj => hcall.joins (hkept hj)⟩
  | callToken sender call =>
    simp only [step, callToken, bind_eq_ok, pure_eq_ok] at h
    obtain ⟨w₁, henter, nouns, -, rfl⟩ := h
    obtain ⟨frames, hentered, rfl⟩ := enter_entered henter
    obtain ⟨hforks, hkept⟩ := hentered.forkFrames escrow
    exact .of_stack rfl rfl hforks hkept
  | callExecutor a sender call =>
    simp only [step, callExecutor, bind_eq_ok, pure_eq_ok] at h
    obtain ⟨w₁, henter, e, -, rfl⟩ := h
    obtain ⟨frames, hentered, rfl⟩ := enter_entered henter
    obtain ⟨hforks, hkept⟩ := hentered.forkFrames escrow
    exact .of_stack rfl rfl hforks hkept
  | return_ forkTreasury forkToken =>
    simp only [step] at h
    split at h
    · exact absurd h throw_ne_ok
    · rename_i f frames hframes
      exact resume_forks hsited hjoins hframes h

theorem NextEscrow.forks (hsafe : w.Safe d escrow) (hjoins : JoinsSited escrow w.frames)
    (hslot : w.dao.proposals (w.dao.proposalCount + 1) = Proposal.empty)
    (h : NextEscrow d escrow SparesExecution w w') : Forks escrow w w' := by
  obtain ⟨hnext, -⟩ := h
  cases hnext with
  | step a hspares hstep =>
    exact step_forks hsafe.fixed hsafe.sited hjoins hslot hspares hstep
  | outside hout =>
    obtain ⟨⟨eth, erc20, outside, rfl⟩, -, -⟩ := hout
    exact .of_stack rfl rfl rfl id

end World

end Nouns
