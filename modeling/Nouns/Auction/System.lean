import Nouns.Auction.AuctionHouse
import Nouns.Governance.Genesis
import Nouns.Governance.CallStack

/-!
# System — the DAO next to its auction house

For the contracts of the DAO the auction house is outside code at a known address.  It calls the
token from its own functions only, and a timelock calls it when it is the target of an action.
-/

open Fallible Transition

namespace Nouns

variable {H : Type}

/-- Who makes the call. -/
def Action.sender? : Action → Option Address
  | .callDAO _ sender _ => some sender
  | .callToken sender _ => some sender
  | .callExecutor _ sender _ => some sender
  | .advance _ _ => none
  | .return_ _ _ => none

structure Auctioned (H : Type) where
  world : World H
  house : NounsAuctionHouse

inductive AuctionedAction
  | world (a : Action)
  | house (sender : Account) (call : AuctionHouseCall)

namespace Auctioned

variable [DecidableEq H] (d : Deployment H) (this : Account)

/-- Checks that `sender` can call the house now. -/
def enterHouse (w : World H) (sender : Address) : Tx Unit :=
  let fromTimelock : Bool := match w.frames with
    | ⟨callee, _, .executeInternal _ timelock _ _⟩ :: _ => callee = this ∧ timelock = sender
    | _ => false
  require (d.isContract sender = false ∨ fromTimelock = true) .callFailed

def step (s : Auctioned H) : AuctionedAction → Tx (Auctioned H)
  | .world a => do
      require (a.sender? ≠ some this.val) .callFailed
      return { s with world := ← s.world.step d a }
  | .house sender call => do
      enterHouse d this s.world sender
      -- the house enters the token as any other account does
      let w ← s.world.enter d this d.nouns
      let (house, nouns) ← s.house.call w.outside.proxies this w.blockNumber w.timestamp sender
        w.nouns call
      return { world := { w with nouns }, house }

inductive Next : Auctioned H → Auctioned H → Prop
  | step {s s' : Auctioned H} (a : AuctionedAction) : s.step d this a = .ok s' → Next s s'
  | outside {s : Auctioned H} {w' : World H} : s.world.OutsideChange d w' →
      Next s { s with world := w' }

/-- Makes the calls one after the other. -/
def run (s : Auctioned H) : List AuctionedAction → Tx (Auctioned H)
  | [] => return s
  | a :: actions => do
    let s' ← s.step d this a
    run s' actions

variable {d this}

theorem run_steps {s s' : Auctioned H} {actions : List AuctionedAction}
    (h : s.run d this actions = .ok s') : Relation.ReflTransGen (Next d this) s s' := by
  induction actions generalizing s with
  | nil =>
    cases pure_eq_ok.mp h
    exact .refl
  | cons a actions ih =>
    simp only [run, bind_eq_ok] at h
    obtain ⟨s₁, hstep, hrest⟩ := h
    exact .head (.step a hstep) (ih hrest)

end Auctioned

end Nouns
