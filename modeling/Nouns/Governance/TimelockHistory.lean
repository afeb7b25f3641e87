import Nouns.Governance.Executor
import Nouns.Lib.Transition

/-!
# TimelockHistory — an executor among arbitrary callers

`NounsDAOExecutorV2` on its own, in runs of all its functions.  A transaction in progress is a frame:
until it returns, the executor may be called again by anyone, the chain's clock standing still.  A
call that reverts leaves no trace, so a run consists of the calls that went through.
-/

open Fallible Transition

namespace Nouns

variable {H : Type}

/-- A function of the executor that waits for a call it made. -/
inductive ExecutorFrame
  | executeTransaction (tx : Transaction)
  | sendETH (recipient : Address) (ethToSend : Nat)
  | sendERC20 (recipient erc20Token : Address) (tokensToSend : Nat)
deriving DecidableEq

/-- Whether the executor waits in this frame for its own code at `this`. -/
def ExecutorFrame.calls (this : Address) : ExecutorFrame → Bool
  | .executeTransaction tx => tx.target = this
  | _ => false

/-- What is left of the function after the call. -/
def ExecutorFrame.resume (e : Executor H) : ExecutorFrame → Executor H
  | .executeTransaction tx => e.endTransaction tx
  | .sendETH recipient ethToSend => e.emit (.ETHSent recipient ethToSend)
  | .sendERC20 recipient erc20Token tokensToSend =>
    e.emit (.ERC20Sent recipient erc20Token tokensToSend)

inductive TimelockAction
  | advance (timestamp : Nat)
  | initializeBy (admin : Address) (delay : Nat)
  | administer (sender : Account) (call : ExecutorCall)
  | queueTransaction (sender : Account) (tx : Transaction)
  | cancelTransaction (sender : Account) (tx : Transaction)
  | executeTransaction (sender : Account) (tx : Transaction)
  | sendETH (sender : Account) (recipient : Address) (ethToSend : Nat)
  | sendERC20 (sender : Account) (recipient erc20Token : Address) (tokensToSend : Nat)
  | return_

/-- A proxy of the executor, with the functions in progress, innermost first. -/
structure Timelock (H : Type) where
  timestamp : Nat
  executor : Option (Executor H)
  frames : List ExecutorFrame

namespace Timelock

def Initial (c : Timelock H) : Prop := c.executor = none ∧ c.frames = []

variable [DecidableEq H] (crypto : Crypto H) (this : Address)

/-- The executor as `sender` finds it.  Before `initialize` the admin and the pending admin are zero
and nobody passes the checks; the executor itself is the sender only as the target of a
transaction it executes. -/
def calledBy (c : Timelock H) (sender : Address) : Tx (Executor H) := do
  require (sender = this → c.frames.head?.any (·.calls this)) .callFailed
  match c.executor with
  | some e => return e
  | none => throw .callFailed

def step (c : Timelock H) : TimelockAction → Tx (Timelock H)
  | .advance timestamp => do
    -- a transaction of the chain is over before the next block
    require (c.frames = [] ∧ c.timestamp ≤ timestamp) .callFailed
    return { c with timestamp }
  | .initializeBy admin delay => do
    require (c.executor.isNone) (.require "Initializable: contract is already initialized")
    return { c with executor := some (← Executor.initializeBy admin delay) }
  | .administer sender call => do
    let e ← c.calledBy this sender
    return { c with executor := some (← e.call this sender call) }
  | .queueTransaction sender tx => do
    let e ← c.calledBy this sender
    return { c with executor := some (← e.queueTransaction crypto c.timestamp sender tx) }
  | .cancelTransaction sender tx => do
    let e ← c.calledBy this sender
    return { c with executor := some (← e.cancelTransaction crypto sender tx) }
  | .executeTransaction sender tx => do
    let e ← c.calledBy this sender
    let e ← e.beginTransaction crypto .NounsDAOExecutorV2 c.timestamp sender tx
    return { c with executor := some e, frames := .executeTransaction tx :: c.frames }
  | .sendETH sender recipient ethToSend => do
    let e ← c.calledBy this sender
    e.beginSendETH sender
    return { c with frames := .sendETH recipient ethToSend :: c.frames }
  | .sendERC20 sender recipient erc20Token tokensToSend => do
    let e ← c.calledBy this sender
    e.beginSendERC20 sender
    return { c with frames := .sendERC20 recipient erc20Token tokensToSend :: c.frames }
  | .return_ =>
    -- the innermost call came back, and the function that made it goes on to its event
    match c.frames, c.executor with
    | frame :: frames, some e => return { c with executor := some (frame.resume e), frames }
    | _, _ => throw .callFailed

abbrev Next (c : Timelock H) (a : TimelockAction) (c' : Timelock H) : Prop :=
  c.step crypto this a = .ok c'

/-- A run of the executor: the calls that went through, newest first. -/
abbrev History (h : List (Timelock H × TimelockAction)) (c : Timelock H) : Prop :=
  Trace Initial (Next crypto this) h c

variable {crypto this} {c c' : Timelock H} {a : TimelockAction} {tx : Transaction}

/-! ## What a step does to the queue -/

/-- The transaction waits in the queue. -/
def Holds (crypto : Crypto H) (c : Timelock H) (tx : Transaction) : Prop :=
  ∃ e, c.executor = some e ∧ e.isQueued crypto tx = true

/-- The action queues the transaction, `delay` and more before its eta. -/
def Queues (tx : Transaction) (x : Timelock H × TimelockAction) : Prop :=
  ∃ sender e, x.2 = .queueTransaction sender tx ∧ x.1.executor = some e ∧
    x.1.timestamp + e.delay ≤ tx.eta

def Executes (tx : Transaction) (x : Timelock H × TimelockAction) : Prop :=
  ∃ sender, x.2 = .executeTransaction sender tx

def Cancels (tx : Transaction) (x : Timelock H × TimelockAction) : Prop :=
  ∃ sender, x.2 = .cancelTransaction sender tx

/-- An execution of the transaction comes to its end. -/
def Finishes (tx : Transaction) (x : Timelock H × TimelockAction) : Prop :=
  x.2 = .return_ ∧ x.1.frames.head? = some (.executeTransaction tx)

omit [DecidableEq H] in
theorem calledBy_ok {sender : Address} {e : Executor H} (h : c.calledBy this sender = .ok e) :
    c.executor = some e := by
  simp only [calledBy, bind_eq_ok] at h
  obtain ⟨-, -, h⟩ := h
  split at h
  · next e' he =>
    rw [he, pure_eq_ok.mp h]
  · exact absurd h throw_ne_ok

/-- What became of the queue of the executor. -/
structure StepSpec (crypto : Crypto H) (c : Timelock H) (a : TimelockAction) (c' : Timelock H) :
    Prop where
  timestamp : c.timestamp ≤ c'.timestamp
  holds : ∀ tx, c'.Holds crypto tx →
    Queues tx (c, a) ∨ (c.Holds crypto tx ∧ ¬ Executes tx (c, a) ∧ ¬ Cancels tx (c, a))
  frames : ∀ tx, .executeTransaction tx ∈ c'.frames →
    .executeTransaction tx ∈ c.frames ∨ Executes tx (c, a)
  executes : ∀ tx, Executes tx (c, a) → c.Holds crypto tx ∧ ¬ c'.Holds crypto tx ∧
    tx.eta ≤ c.timestamp ∧ c.timestamp ≤ tx.eta + 21 * days

omit [DecidableEq H] in
/-- A step that leaves the queue alone and starts no transaction. -/
theorem StepSpec.quiet (htimestamp : c.timestamp ≤ c'.timestamp)
    (hholds : ∀ tx, c'.Holds crypto tx → c.Holds crypto tx)
    (hframes : ∀ tx, .executeTransaction tx ∈ c'.frames → .executeTransaction tx ∈ c.frames)
    (hexecutes : ∀ tx, ¬ Executes tx (c, a)) (hcancels : ∀ tx, ¬ Cancels tx (c, a)) :
    StepSpec crypto c a c' where
  timestamp := htimestamp
  holds tx h := .inr ⟨hholds tx h, hexecutes tx, hcancels tx⟩
  frames tx h := .inl (hframes tx h)
  executes tx h := absurd h (hexecutes tx)

omit [DecidableEq H] in
theorem Holds.of_same {e e' : Executor H} (he : c.executor = some e)
    (he' : c'.executor = some e') (hsame : e'.queuedTransactions = e.queuedTransactions)
    (h : c'.Holds crypto tx) : c.Holds crypto tx := by
  obtain ⟨e'', he'', hqueued⟩ := h
  rw [he', Option.some.injEq] at he''
  refine ⟨e, he, ?_⟩
  rw [Executor.isQueued, ← hsame, he'']
  exact hqueued

theorem holds_setQueued (hinj : Function.Injective crypto.keccak256) (c' : Timelock H)
    {e e' : Executor H} {queued : Bool} (he : c.executor = some e) (he' : c'.executor = some e')
    (hqueue : e'.queuedTransactions = (e.setQueued crypto tx queued).queuedTransactions)
    (tx' : Transaction) :
    c'.Holds crypto tx' ↔ if tx' = tx then queued = true else c.Holds crypto tx' := by
  have hqueued := e.isQueued_setQueued hinj tx tx' queued
  simp only [Executor.isQueued] at hqueued
  simp only [Holds, Executor.isQueued, he, he', Option.some.injEq, exists_eq_left', hqueue, hqueued]
  split <;> rfl

theorem Next.queues {sender : Account}
    (h : Next crypto this c (.queueTransaction sender tx) c') :
    Queues tx (c, .queueTransaction sender tx) := by
  simp only [Next, step, Executor.queueTransaction, bind_eq_ok, pure_eq_ok, require_eq_ok] at h
  obtain ⟨e, he, _, ⟨-, -, -, hdelay, -⟩, -⟩ := h
  exact ⟨sender, e, rfl, calledBy_ok he, hdelay⟩

theorem Next.spec (hinj : Function.Injective crypto.keccak256) (h : Next crypto this c a c') :
    StepSpec crypto c a c' := by
  cases a with
  | advance timestamp =>
    simp only [Next, step, bind_eq_ok, pure_eq_ok, require_eq_ok] at h
    obtain ⟨-, ⟨-, hle⟩, rfl⟩ := h
    exact .quiet hle (fun _ h => h) (fun _ h => h) (by simp [Executes]) (by simp [Cancels])
  | initializeBy admin delay =>
    simp only [Next, step, Executor.initializeBy, bind_eq_ok, pure_eq_ok] at h
    obtain ⟨-, -, e, he, rfl⟩ := h
    refine .quiet (Nat.le_refl _) ?_ (fun _ h => h) (by simp [Executes]) (by simp [Cancels])
    -- the storage of a new proxy is empty
    rintro tx ⟨e', hsome, hqueued⟩
    rw [← Option.some.inj hsome] at hqueued
    split at he
    · split at he
      · rw [← pure_eq_ok.mp he] at hqueued
        exact absurd hqueued Bool.false_ne_true
      · exact absurd he throw_ne_ok
    · exact absurd he throw_ne_ok
  | administer sender call =>
    simp only [Next, step, bind_eq_ok, pure_eq_ok] at h
    obtain ⟨e, he, e', he', rfl⟩ := h
    refine .quiet (Nat.le_refl _) ?_ (fun _ h => h) (by simp [Executes]) (by simp [Cancels])
    intro tx hholds
    refine hholds.of_same (calledBy_ok he) rfl ?_
    obtain ⟨_, _, rfl⟩ | ⟨_, rfl⟩ | ⟨_, rfl⟩ := Executor.call_cases he'
    · rfl
    · rfl
    · rfl
  | queueTransaction sender tx =>
    have hqueues := h.queues
    simp only [Next, step, Executor.queueTransaction, bind_eq_ok, pure_eq_ok, require_eq_ok] at h
    obtain ⟨e, he, _, ⟨-, -, -, -, rfl⟩, rfl⟩ := h
    have hholds := holds_setQueued hinj { c with
      executor := some ((e.setQueued crypto tx true).emit (.QueueTransaction tx)) }
      (calledBy_ok he) rfl rfl
    refine ⟨Nat.le_refl _, ?_, fun _ h => .inl h, by simp [Executes]⟩
    intro tx' h
    rw [hholds] at h
    by_cases heq : tx' = tx
    · subst heq
      exact .inl hqueues
    · rw [if_neg heq] at h
      exact .inr ⟨h, by simp [Executes], by simp [Cancels]⟩
  | cancelTransaction sender tx =>
    simp only [Next, step, Executor.cancelTransaction, bind_eq_ok, pure_eq_ok, require_eq_ok] at h
    obtain ⟨e, he, _, ⟨-, -, rfl⟩, rfl⟩ := h
    have hholds := holds_setQueued hinj { c with
      executor := some ((e.setQueued crypto tx false).emit (.CancelTransaction tx)) }
      (calledBy_ok he) rfl rfl
    refine ⟨Nat.le_refl _, ?_, fun _ h => .inl h, by simp [Executes]⟩
    intro tx' h
    rw [hholds] at h
    by_cases heq : tx' = tx
    · rw [if_pos heq] at h
      exact absurd h Bool.false_ne_true
    · rw [if_neg heq] at h
      exact .inr ⟨h, by simp [Executes], by simpa [Cancels] using Ne.symm heq⟩
  | executeTransaction sender tx =>
    simp only [Next, step, Executor.beginTransaction, bind_eq_ok, pure_eq_ok, require_eq_ok] at h
    obtain ⟨e, he, _, ⟨-, -, -, hqueued, -, heta, -, hgrace, rfl⟩, rfl⟩ := h
    have hholds := holds_setQueued hinj { c with
      executor := some (e.setQueued crypto tx false)
      frames := .executeTransaction tx :: c.frames } (calledBy_ok he) rfl rfl
    refine ⟨Nat.le_refl _, ?_, ?_, ?_⟩
    · intro tx' h
      rw [hholds] at h
      by_cases heq : tx' = tx
      · rw [if_pos heq] at h
        exact absurd h Bool.false_ne_true
      · rw [if_neg heq] at h
        exact .inr ⟨h, by simpa [Executes] using Ne.symm heq, by simp [Cancels]⟩
    · intro tx' h
      rcases List.mem_cons.mp h with h | h
      · injection h with h
        exact .inr ⟨sender, by rw [h]⟩
      · exact .inl h
    · rintro tx' ⟨sender', heq⟩
      injection heq with _ heq
      subst heq
      refine ⟨⟨e, calledBy_ok he, hqueued⟩, ?_, heta, hgrace⟩
      rw [hholds, if_pos rfl]
      exact Bool.false_ne_true
  | sendETH sender recipient ethToSend =>
    simp only [Next, step, bind_eq_ok, pure_eq_ok] at h
    obtain ⟨e, -, -, -, rfl⟩ := h
    exact .quiet (Nat.le_refl _) (fun _ h => h) (by simp) (by simp [Executes]) (by simp [Cancels])
  | sendERC20 sender recipient erc20Token tokensToSend =>
    simp only [Next, step, bind_eq_ok, pure_eq_ok] at h
    obtain ⟨e, -, -, -, rfl⟩ := h
    exact .quiet (Nat.le_refl _) (fun _ h => h) (by simp) (by simp [Executes]) (by simp [Cancels])
  | return_ =>
    simp only [Next, step] at h
    split at h
    · next frame frames e hframes he =>
      rw [pure_eq_ok] at h
      subst h
      refine .quiet (Nat.le_refl _) ?_ ?_ (by simp [Executes]) (by simp [Cancels])
      · intro tx hholds
        refine hholds.of_same he rfl ?_
        cases frame <;> rfl
      · intro tx hmem
        rw [hframes]
        exact List.mem_cons_of_mem _ hmem
    · exact absurd h throw_ne_ok

/-! ## Transactions past their eta -/

/-- The transaction is off the queue and can no more be queued. -/
def Spent (crypto : Crypto H) (c : Timelock H) (tx : Transaction) : Prop :=
  tx.eta ≤ c.timestamp ∧ ¬ c.Holds crypto tx

omit [DecidableEq H] in
theorem Queues.two_days (h : Queues tx (c, a)) : c.timestamp + 2 * days ≤ tx.eta := by
  obtain ⟨-, e, -, -, hdelay⟩ := h
  exact Nat.le_trans (Nat.add_le_add_left e.delay.2.1 _) hdelay

omit [DecidableEq H] in
theorem StepSpec.spent (hspec : StepSpec crypto c a c') (h : c.Spent crypto tx) :
    c'.Spent crypto tx := by
  refine ⟨Nat.le_trans h.1 hspec.timestamp, fun hholds => ?_⟩
  rcases hspec.holds tx hholds with hqueues | ⟨hheld, -⟩
  · -- it would have to be queued two days before its eta
    have htwo := hqueues.two_days
    have heta := h.1
    simp only [days] at htwo
    omega
  · exact h.2 hheld

omit [DecidableEq H] in
theorem StepSpec.spent_of_executes (hspec : StepSpec crypto c a c') (h : Executes tx (c, a)) :
    c'.Spent crypto tx := by
  obtain ⟨-, hoff, heta, -⟩ := hspec.executes tx h
  exact ⟨Nat.le_trans heta hspec.timestamp, hoff⟩

section History

variable (hinj : Function.Injective crypto.keccak256) {h : List (Timelock H × TimelockAction)}

include hinj

theorem History.spent_of_executed (hr : History crypto this h c)
    {x : Timelock H × TimelockAction} (hx : x ∈ h) (hexecutes : Executes tx x) :
    c.Spent crypto tx := by
  refine Trace.lasting (P := fun c => c.Spent crypto tx) (Q := Executes tx) hr ?_ ?_ hx hexecutes
  · intro c a c' hnext hexecutes
    exact (hnext.spec hinj).spent_of_executes hexecutes
  · intro c a c' hnext hspent
    exact (hnext.spec hinj).spent hspent

theorem History.spent_of_frame (hr : History crypto this h c)
    (hframe : .executeTransaction tx ∈ c.frames) : c.Spent crypto tx := by
  induction hr with
  | start h₀ =>
    rw [h₀.2] at hframe
    exact absurd hframe List.not_mem_nil
  | step _ hnext ih =>
    have hspec := hnext.spec hinj
    rcases hspec.frames tx hframe with hframe | hexecutes
    · exact hspec.spent (ih hframe)
    · exact hspec.spent_of_executes hexecutes

/-- A transaction in the queue was queued, and neither canceled nor executed since. -/
theorem History.since_queued (hr : History crypto this h c) (hholds : c.Holds crypto tx) :
    Since (fun x => ¬ Executes tx x ∧ ¬ Finishes tx x ∧ ¬ Cancels tx x) (Queues tx) h := by
  refine hr.since (F := fun c => c.Holds crypto tx) ?_ ?_ hholds
  · rintro c ⟨hnone, -⟩ ⟨e, hsome, -⟩
    rw [hnone] at hsome
    cases hsome
  · intro h c a c' hr hnext hholds
    rcases (hnext.spec hinj).holds tx hholds with hqueues | ⟨hheld, hexecutes, hcancels⟩
    · exact .inl hqueues
    · refine .inr ⟨hheld, hexecutes, ?_, hcancels⟩
      rintro ⟨-, hhead⟩
      exact (History.spent_of_frame hinj hr (List.mem_of_head? hhead)).2 hheld

end History

/-- Whenever the executor executes a transaction, it was queued before, in time for the delay of
that moment, and neither canceled nor executed since.  It runs within the 21 days from its eta, two
days or more after each of its queueings, and it never ran before. -/
theorem executed_once_after_delay (hinj : Function.Injective crypto.keccak256)
    {later earlier : List (Timelock H × TimelockAction)} {s : Timelock H} {sender : Account}
    (hr : History crypto this (later ++ (s, .executeTransaction sender tx) :: earlier) c) :
    (∃ mid s₀ sender₀ older e₀, earlier = mid ++ (s₀, .queueTransaction sender₀ tx) :: older ∧
      s₀.executor = some e₀ ∧ s₀.timestamp + e₀.delay ≤ tx.eta ∧ 2 * days ≤ e₀.delay ∧
      ∀ x ∈ mid, ¬ Executes tx x ∧ ¬ Finishes tx x ∧ ¬ Cancels tx x) ∧
    tx.eta ≤ s.timestamp ∧ s.timestamp ≤ tx.eta + 21 * days ∧
    (∀ s₀ sender₀, (s₀, .queueTransaction sender₀ tx) ∈ earlier →
      s₀.timestamp + 2 * days ≤ s.timestamp) ∧
    ∀ s₁ sender₁, (s₁, .executeTransaction sender₁ tx) ∉ earlier := by
  obtain ⟨hearlier, s', hnext⟩ := hr.of_append
  obtain ⟨hheld, -, heta, hgrace⟩ := (hnext.spec hinj).executes tx ⟨sender, rfl⟩
  refine ⟨?_, heta, hgrace, ?_, ?_⟩
  · obtain ⟨mid, ⟨s₀, a₀⟩, older, rfl, ⟨sender₀, e₀, rfl, he₀, hdelay⟩, hmid⟩ :=
      History.since_queued hinj hearlier hheld
    exact ⟨mid, s₀, sender₀, older, e₀, rfl, he₀, hdelay, e₀.delay.2.1, hmid⟩
  · intro s₀ sender₀ hmem
    obtain ⟨_, older, rfl⟩ := List.append_of_mem hmem
    obtain ⟨-, _, hnext₀⟩ := hearlier.of_append
    exact Nat.le_trans hnext₀.queues.two_days heta
  · intro s₁ sender₁ hmem
    exact (History.spent_of_executed hinj hearlier hmem ⟨sender₁, rfl⟩).2 hheld

/-- A payment queued on the first day, executed when it is due. -/
theorem executed_once_after_delay_of_payment :
    ∃ (tx : Transaction) (sender : Account) (earlier : List (Timelock Preimage × TimelockAction))
      (s c : Timelock Preimage),
      History .transparent 102 ([] ++ (s, .executeTransaction sender tx) :: earlier) c ∧
      tx.eta = 2 * days ∧ tx.eta ≤ s.timestamp ∧
      ∀ s₁ sender₁, (s₁, .executeTransaction sender₁ tx) ∉ earlier := by
  let tx : Transaction := ⟨7, 10, "", [], 2 * days⟩
  let dao : Account := ⟨100, by decide⟩
  let e₁ : Executor Preimage := ⟨100, 0, .shortest, fun _ => false, []⟩
  let e₂ := (e₁.setQueued .transparent tx true).emit (.QueueTransaction tx)
  have h₁ : Next .transparent 102 ⟨0, none, []⟩ (.initializeBy 100 (2 * days))
      ⟨0, some e₁, []⟩ := rfl
  have h₂ : Next .transparent 102 ⟨0, some e₁, []⟩ (.queueTransaction dao tx)
      ⟨0, some e₂, []⟩ := by
    simp only [Next, step, calledBy, Executor.queueTransaction, bind_eq_ok, require_eq_ok,
      pure_eq_ok]
    exact ⟨e₁, ⟨(), by decide, rfl⟩, e₂, ⟨(), rfl, (), by decide, rfl⟩, rfl⟩
  have h₃ : Next .transparent 102 ⟨0, some e₂, []⟩ (.advance (2 * days))
      ⟨2 * days, some e₂, []⟩ := rfl
  have h₄ : Next .transparent 102 ⟨2 * days, some e₂, []⟩ (.executeTransaction dao tx)
      ⟨2 * days, some (e₂.setQueued .transparent tx false), [.executeTransaction tx]⟩ := by
    have hqueued : e₂.isQueued .transparent tx = true := by
      simp [e₂, Executor.isQueued, Executor.emit, Executor.setQueued]
    simp only [Next, step, calledBy, Executor.beginTransaction, bind_eq_ok, require_eq_ok,
      pure_eq_ok]
    exact ⟨e₂, ⟨(), by decide, rfl⟩, _,
      ⟨(), rfl, (), hqueued, (), by decide, (), by decide, rfl⟩, rfl⟩
  have hr : History .transparent 102 ([] ++ (_, .executeTransaction dao tx) :: _) _ :=
    .step (.step (.step (.step (.start ⟨rfl, rfl⟩) h₁) h₂) h₃) h₄
  have hresult := executed_once_after_delay Function.injective_id hr
  exact ⟨tx, dao, _, _, _, hr, rfl, hresult.2.1, hresult.2.2.2.2⟩

end Timelock

end Nouns
