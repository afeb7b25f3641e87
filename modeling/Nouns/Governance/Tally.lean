import Nouns.Governance.Genesis
import Nouns.Lib.GroupSums

/-!
# Tally — the votes of a proposal are those of its receipts

A receipt is written once, together with the votes it stands for.  The refund of a vote calls its
recipient after that, so the invariant holds at every point where outside code has control.
-/

open Fallible Transition GroupSums

namespace Nouns

variable {H : Type}

/-- The side a voter took, if any. -/
def Receipt.side (r : Receipt) : Option Nat := if r.hasVoted then some r.support else none

namespace Proposal

/-- The votes on the receipts of all voters who took side `support`. -/
def votesCast (p : Proposal) (support : Nat) : Nat :=
  groupSum (fun a => (p.receipts a).side) (fun a => (p.receipts a).votes) (some support)

structure Tallied (p : Proposal) : Prop where
  forVotes : p.forVotes = p.votesCast 1
  againstVotes : p.againstVotes = p.votesCast 0
  abstainVotes : p.abstainVotes = p.votesCast 2

theorem Tallied.of_eq {p p' : Proposal} (h : p.Tallied) (hfor : p'.forVotes = p.forVotes)
    (hagainst : p'.againstVotes = p.againstVotes) (habstain : p'.abstainVotes = p.abstainVotes)
    (hreceipts : p'.receipts = p.receipts) : p'.Tallied := by
  have hcast : ∀ support, p'.votesCast support = p.votesCast support := by
    intro support
    rw [votesCast, votesCast, hreceipts]
  exact ⟨by rw [hfor, h.forVotes, hcast], by rw [hagainst, h.againstVotes, hcast],
    by rw [habstain, h.abstainVotes, hcast]⟩

theorem empty_tallied : Proposal.empty.Tallied := by
  have hcast : ∀ support, Proposal.empty.votesCast support = 0 := by
    intro support
    simp [votesCast, groupSum, Proposal.empty, Receipt.side]
  exact ⟨(hcast 1).symm, (hcast 0).symm, (hcast 2).symm⟩

/-- A voter without a receipt gets one. -/
theorem votesCast_setReceipt {p : Proposal} {voter : Address}
    (hvoted : (p.receipts voter).hasVoted = false) (support votes side : Nat) :
    (StorageV3.setReceipt p voter ⟨true, support, votes⟩).votesCast side =
      p.votesCast side + if support = side then votes else 0 := by
  have hsum := groupSum_add_of_eq_off (fun a => (p.receipts a).side)
    (fun a => ((StorageV3.setReceipt p voter ⟨true, support, votes⟩).receipts a).side)
    (fun a => (p.receipts a).votes)
    (fun a => ((StorageV3.setReceipt p voter ⟨true, support, votes⟩).receipts a).votes)
    voter (by
      intro a ha
      simp [StorageV3.setReceipt, Function.update_of_ne ha]) (some side)
  simp only [StorageV3.setReceipt, Function.update_self, Receipt.side, hvoted] at hsum
  simpa [votesCast, StorageV3.setReceipt, Receipt.side] using hsum

/-- Counting the votes of a voter without a receipt, on either of the two vote paths. -/
theorem Tallied.vote {p : Proposal} {voter : Address} {support : Nat} (h : p.Tallied)
    (hsupport : support ≤ 2) (hvoted : (p.receipts voter).hasVoted = false) (votes : Nat) :
    (StorageV3.setReceipt (StorageV3.countVotes p support votes) voter
      ⟨true, support, votes⟩).Tallied := by
  have hcast : ∀ side, (StorageV3.setReceipt (StorageV3.countVotes p support votes) voter
      ⟨true, support, votes⟩).votesCast side =
      p.votesCast side + if support = side then votes else 0 := by
    intro side
    rw [StorageV3.countVotes_eq _ hsupport]
    exact votesCast_setReceipt hvoted support votes side
  refine ⟨?_, ?_, ?_⟩
  · rw [hcast, ← h.forVotes, StorageV3.countVotes_eq _ hsupport]
    rfl
  · rw [hcast, ← h.againstVotes, StorageV3.countVotes_eq _ hsupport]
    rfl
  · rw [hcast, ← h.abstainVotes, StorageV3.countVotes_eq _ hsupport]
    rfl

end Proposal

/-! ## Steps -/

namespace Gov

variable {d : Deployment H} {g g' : Gov H} {id : Nat}

theorem ProposalChange.tallied {p : Proposal} (h : ProposalChange d g id p)
    (ht : (g.store.proposals id).Tallied) : p.Tallied := by
  cases h with
  | ballot p hp =>
    cases hp with
    | update txs hstate htxs => exact ht.of_eq rfl rfl rfl rfl
    | vote voter support votes o hstate hsupport hvoted hvotes ho =>
      exact (ht.vote hsupport hvoted votes).of_eq rfl rfl rfl rfl
    | object voter votes hstate hvoted hvotes => exact ht.vote (Nat.zero_le 2) hvoted votes
  | queue delay hstate => exact ht.of_eq rfl rfl rfl rfl
  | cancel s hstate h₁ h₂ h₃ h₄ h₅ => exact ht.of_eq rfl rfl rfl rfl
  | veto s hstate hs => exact ht.of_eq rfl rfl rfl rfl
  | execute hstate => exact ht.of_eq rfl rfl rfl rfl

/-- A receipt stays as it was written. -/
theorem ProposalChange.receipt {p : Proposal} (h : ProposalChange d g id p) {voter : Address}
    (hvoted : ((g.store.proposals id).receipts voter).hasVoted = true) :
    p.receipts voter = (g.store.proposals id).receipts voter := by
  have hother : ∀ voter' receipt, ((g.store.proposals id).receipts voter').hasVoted = false →
      Function.update (g.store.proposals id).receipts voter' receipt voter =
        (g.store.proposals id).receipts voter := by
    intro voter' receipt hnot
    refine Function.update_of_ne ?_ _ _
    rintro rfl
    rw [hvoted] at hnot
    cases hnot
  cases h with
  | ballot p hp =>
    cases hp with
    | update txs hstate htxs => rfl
    | vote voter' support votes o hstate hsupport hnot hvotes ho =>
      rw [StorageV3.countVotes_eq _ hsupport]
      exact hother voter' _ hnot
    | object voter' votes hstate hnot hvotes =>
      rw [StorageV3.countVotes_eq _ (Nat.zero_le 2)]
      exact hother voter' _ hnot
  | queue delay hstate => rfl
  | cancel s hstate h₁ h₂ h₃ h₄ h₅ => rfl
  | veto s hstate hs => rfl
  | execute hstate => rfl

theorem StoreStep.tallied (h : StoreStep d g g') (ht : (g.store.proposals id).Tallied) :
    (g'.store.proposals id).Tallied := by
  refine h.proposal ht (fun p hp => hp.tallied ht) ?_
  rintro p rfl hcreated
  obtain ⟨_, _, _, _, _, _, _, _, _, rfl⟩ := hcreated.content
  exact ht.of_eq rfl rfl rfl rfl

theorem StoreStep.receipt (h : StoreStep d g g') {voter : Address}
    (hvoted : ((g.store.proposals id).receipts voter).hasVoted = true) :
    (g'.store.proposals id).receipts voter = (g.store.proposals id).receipts voter := by
  refine h.proposal (P := fun p => p.receipts voter = (g.store.proposals id).receipts voter) rfl
    (fun p hp => hp.receipt hvoted) ?_
  rintro p rfl hcreated
  obtain ⟨_, _, _, _, _, _, _, _, _, rfl⟩ := hcreated.content
  rfl

end Gov

/-! ## Runs -/

namespace World

variable [DecidableEq H] {d : Deployment H} {w : World H}

/-- In every state, those of a refund included, the three counts of every proposal are the sums of
its receipts; and a receipt that was written never changes, so that no voter counts twice. -/
theorem tally_eq_receipts (hr : Reachable Fresh (NextAny d) w) (id : Nat) :
    (w.dao.proposals id).Tallied ∧
    ∀ w', Relation.ReflTransGen (NextAny d) w w' →
      ∀ voter, ((w.dao.proposals id).receipts voter).hasVoted = true →
        (w'.dao.proposals id).receipts voter = (w.dao.proposals id).receipts voter := by
  refine ⟨?_, ?_⟩
  · refine hr.invariant (P := fun w => (w.dao.proposals id).Tallied) ?_ ?_
    · intro w hw
      rw [hw.proposals id]
      exact Proposal.empty_tallied
    · exact fun w w' _ ht hn => hn.storeStep.tallied ht
  · intro w' hsteps voter hvoted
    refine steps_preserve (P := fun w' => (w'.dao.proposals id).receipts voter =
      (w.dao.proposals id).receipts voter) hsteps rfl ?_
    intro w₁ w₂ hsame hn
    refine (hn.storeStep.receipt ?_).trans hsame
    exact (congrArg Receipt.hasVoted hsame).trans hvoted

/-- The refund of a vote for proposal 1 calls its origin, and 8 votes against before it returns. -/
theorem tally_eq_receipts_in_refund :
    ∃ w, Reachable Fresh (NextAny .sample) w ∧ w.frames.length = 1 ∧
      (w.dao.proposals 1).votesCast 1 = 1 ∧ (w.dao.proposals 1).votesCast 0 = 1 := by
  have hrun : Yields (World.sample.run .sample (fun _ _ _ => True)
      [.callToken ⟨7, by decide⟩ .mint, .advance 2 2,
        .ofDAO ⟨7, by decide⟩ (.propose .sample ""), .advance 4 4,
        .ofDAO ⟨7, by decide⟩ (.castRefundableVote 1 1),
        .ofDAO ⟨8, by decide⟩ (.castVote 1 0)]) (fun w => w.frames.length = 1 ∧
      (w.dao.proposals 1).forVotes = 1 ∧ (w.dao.proposals 1).againstVotes = 1) := by
    decide +kernel
  obtain ⟨w, hw, hframes, hfor, hagainst⟩ := hrun
  have hr : Reachable Fresh (NextAny .sample) w :=
    ⟨_, World.sample_fresh, run_steps (fun w a w' hstep _ => .step a trivial hstep) hw⟩
  have htallied := (tally_eq_receipts hr 1).1
  exact ⟨w, hr, hframes, htallied.forVotes.symm.trans hfor,
    htallied.againstVotes.symm.trans hagainst⟩

end World

end Nouns
