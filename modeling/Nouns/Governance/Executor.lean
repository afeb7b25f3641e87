import Nouns.Evm
import Mathlib.Logic.Function.Basic

/-!
# Executor — the timelocks

`NounsDAOExecutor` and `NounsDAOExecutorV2`, which differ in the grace period and in the two
functions that pay a fork.  A function that calls outside code is split at the call: the part before
it here, the part after it when the call returns.
-/

open Fallible

namespace Nouns

inductive ExecutorVersion
  | NounsDAOExecutor
  | NounsDAOExecutorV2
deriving DecidableEq

def days : Nat := 24 * 60 * 60

def ExecutorVersion.GRACE_PERIOD : ExecutorVersion → Nat
  | NounsDAOExecutor => 14 * days
  | NounsDAOExecutorV2 => 21 * days

def MINIMUM_DELAY : Nat := 2 * days

def MAXIMUM_DELAY : Nat := 30 * days

inductive ExecutorEvent
  | NewAdmin (newAdmin : Address)
  | NewPendingAdmin (newPendingAdmin : Address)
  | NewDelay (newDelay : Nat)
  | CancelTransaction (tx : Transaction)
  | ExecuteTransaction (tx : Transaction)
  | QueueTransaction (tx : Transaction)
  | ETHSent (to_ : Address) (amount : Nat)
  | ERC20Sent (to_ erc20Token : Address) (amount : Nat)
deriving DecidableEq

/-- The delay of a timelock, within the bounds its setters check. -/
abbrev Delay : Type := { n : Nat // MINIMUM_DELAY ≤ n ∧ n ≤ MAXIMUM_DELAY }

def Delay.shortest : Delay := ⟨MINIMUM_DELAY, by decide⟩

structure Executor (H : Type) where
  admin : Address
  pendingAdmin : Address
  delay : Delay
  queuedTransactions : H → Bool
  log : List ExecutorEvent

/-- The calls by which an executor is administered. -/
inductive ExecutorCall
  | setDelay (delay : Nat)
  | acceptAdmin
  | setPendingAdmin (pendingAdmin : Address)

namespace Executor

variable {H : Type} [DecidableEq H] (e : Executor H)

def emit (ev : ExecutorEvent) : Executor H := { e with log := ev :: e.log }

/-- The one call of `initialize` on a new proxy, whose storage is empty. -/
def initializeBy (admin : Address) (delay : Nat) : Tx (Executor H) :=
  if hmin : MINIMUM_DELAY ≤ delay then
    if hmax : delay ≤ MAXIMUM_DELAY then
      return { admin, pendingAdmin := 0, delay := ⟨delay, hmin, hmax⟩,
               queuedTransactions := fun _ => false, log := [] }
    else throw (.require "NounsDAOExecutor::setDelay: Delay must not exceed maximum delay.")
  else throw (.require "NounsDAOExecutor::constructor: Delay must exceed minimum delay.")

def setDelay (this sender : Address) (delay : Nat) : Tx (Executor H) := do
  require (sender = this)
    (.require "NounsDAOExecutor::setDelay: Call must come from NounsDAOExecutor.")
  if hmin : MINIMUM_DELAY ≤ delay then
    if hmax : delay ≤ MAXIMUM_DELAY then
      return { e with delay := ⟨delay, hmin, hmax⟩ }.emit (.NewDelay delay)
    else throw (.require "NounsDAOExecutor::setDelay: Delay must not exceed maximum delay.")
  else throw (.require "NounsDAOExecutor::setDelay: Delay must exceed minimum delay.")

def acceptAdmin (sender : Address) : Tx (Executor H) := do
  require (sender = e.pendingAdmin)
    (.require "NounsDAOExecutor::acceptAdmin: Call must come from pendingAdmin.")
  return { e with admin := sender, pendingAdmin := 0 }.emit (.NewAdmin sender)

def setPendingAdmin (this sender pendingAdmin : Address) : Tx (Executor H) := do
  require (sender = this)
    (.require "NounsDAOExecutor::setPendingAdmin: Call must come from NounsDAOExecutor.")
  return { e with pendingAdmin }.emit (.NewPendingAdmin pendingAdmin)

def call (this sender : Address) : ExecutorCall → Tx (Executor H)
  | .setDelay delay => e.setDelay this sender delay
  | .acceptAdmin => e.acceptAdmin sender
  | .setPendingAdmin pendingAdmin => e.setPendingAdmin this sender pendingAdmin

omit [DecidableEq H] in
theorem call_cases {e e' : Executor H} {this sender : Address} {call : ExecutorCall}
    (h : e.call this sender call = .ok e') :
    (∃ delay n, e' = { e with delay }.emit (.NewDelay n)) ∨
    (∃ admin, e' = { e with admin, pendingAdmin := 0 }.emit (.NewAdmin admin)) ∨
    (∃ pendingAdmin, e' = { e with pendingAdmin }.emit (.NewPendingAdmin pendingAdmin)) := by
  cases call with
  | setDelay delay =>
    simp only [Executor.call, setDelay, bind_eq_ok] at h
    obtain ⟨-, -, h⟩ := h
    split at h
    · split at h
      · exact .inl ⟨_, _, (pure_eq_ok.mp h).symm⟩
      · exact absurd h throw_ne_ok
    · exact absurd h throw_ne_ok
  | acceptAdmin =>
    simp only [Executor.call, acceptAdmin, bind_eq_ok, pure_eq_ok] at h
    obtain ⟨-, -, rfl⟩ := h
    exact .inr (.inl ⟨_, rfl⟩)
  | setPendingAdmin pendingAdmin =>
    simp only [Executor.call, setPendingAdmin, bind_eq_ok, pure_eq_ok] at h
    obtain ⟨-, -, rfl⟩ := h
    exact .inr (.inr ⟨_, rfl⟩)

variable (c : Crypto H)

def txHash (c : Crypto H) (tx : Transaction) : H := c.keccak256 (.transaction tx)

def isQueued (tx : Transaction) : Bool := e.queuedTransactions (txHash c tx)

def setQueued (tx : Transaction) (queued : Bool) : Executor H :=
  { e with queuedTransactions := Function.update e.queuedTransactions (txHash c tx) queued }

variable {c} in
theorem isQueued_setQueued (hinj : Function.Injective c.keccak256) (tx tx' : Transaction)
    (queued : Bool) :
    (e.setQueued c tx queued).isQueued c tx' = if tx' = tx then queued else e.isQueued c tx' := by
  simp only [isQueued, setQueued, txHash, Function.update_apply, hinj.eq_iff,
    Preimage.transaction.injEq]

def queueTransaction (timestamp : Nat) (sender : Address) (tx : Transaction) :
    Tx (Executor H) := do
  require (sender = e.admin)
    (.require "NounsDAOExecutor::queueTransaction: Call must come from admin.")
  require (tx.eta ≥ timestamp + e.delay)
    (.require ("NounsDAOExecutor::queueTransaction: " ++
      "Estimated execution block must satisfy delay."))
  return (e.setQueued c tx true).emit (.QueueTransaction tx)

def cancelTransaction (sender : Address) (tx : Transaction) : Tx (Executor H) := do
  require (sender = e.admin)
    (.require "NounsDAOExecutor::cancelTransaction: Call must come from admin.")
  return (e.setQueued c tx false).emit (.CancelTransaction tx)

/-- `executeTransaction` up to the call of the target. -/
def beginTransaction (version : ExecutorVersion) (timestamp : Nat) (sender : Address)
    (tx : Transaction) : Tx (Executor H) := do
  require (sender = e.admin)
    (.require "NounsDAOExecutor::executeTransaction: Call must come from admin.")
  require (e.isQueued c tx = true)
    (.require "NounsDAOExecutor::executeTransaction: Transaction hasn't been queued.")
  require (timestamp ≥ tx.eta)
    (.require "NounsDAOExecutor::executeTransaction: Transaction hasn't surpassed time lock.")
  require (timestamp ≤ tx.eta + version.GRACE_PERIOD)
    (.require "NounsDAOExecutor::executeTransaction: Transaction is stale.")
  return e.setQueued c tx false

/-- `executeTransaction` after the call returned. -/
def endTransaction (tx : Transaction) : Executor H := e.emit (.ExecuteTransaction tx)

/-- `sendETH` up to the payment. -/
def beginSendETH (sender : Address) : Tx Unit :=
  require (sender = e.admin) (.require "NounsDAOExecutor::sendETH: Call must come from admin.")

/-- `sendERC20` up to the payment. -/
def beginSendERC20 (sender : Address) : Tx Unit :=
  require (sender = e.admin) (.require "NounsDAOExecutor::sendERC20: Call must come from admin.")

end Executor

end Nouns
