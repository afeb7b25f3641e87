import Mathlib.Algebra.Ring.Nat
import Nouns.Governance.Backers

/-!
# Sponsors — whose votes carry a signed proposal

`proposeBySigs` counts the votes of everyone who signed.  No list of the signers is searched for
repetitions: a second signature of an account is refused because the first one has registered it
with the proposal, which is already live when the signatures are checked.
-/

open Fallible Transition

namespace Nouns

variable {H : Type}

namespace StorageV3

/-- The votes of an account at the last block, none where the token cannot be asked. -/
def votesBefore (env : Env H) (account : Address) : Nat :=
  (votesBeforeNow env account).toOption.getD 0

theorem votesBeforeNow_eq {env : Env H} {account : Address} {votes : Nat}
    (h : votesBeforeNow env account = .ok votes) : votesBefore env account = votes := by
  unfold votesBefore
  rw [h]
  rfl

/-- The signers among `signatures` that have votes, in their order. -/
def sponsors (env : Env H) (signatures : List ProposerSignature) : List Address :=
  (signatures.map (·.signer)).filter (fun a => votesBefore env a ≠ 0)

theorem sponsors_append (env : Env H) (signatures : List ProposerSignature)
    (s : ProposerSignature) : sponsors env (signatures ++ [s]) =
      sponsors env signatures ++ if votesBefore env s.signer = 0 then [] else [s.signer] := by
  unfold sponsors
  rw [List.map_append, List.filter_append]
  by_cases hvotes : votesBefore env s.signer = 0
  · simp [hvotes]
  · simp [hvotes]

/-- What the loop over the signatures has counted at the end of the prefix `done`. -/
structure Counted (env : Env H) (id : Nat) (ds₀ : StorageV3 H) (done : List ProposerSignature)
    (ds : StorageV3 H) (votes : Nat) (signers : List Address) : Prop where
  proposals : ds.proposals = ds₀.proposals
  signers_eq : signers = sponsors env done
  votes_eq : votes = (signers.map (votesBefore env)).sum
  nodup : signers.Nodup
  registered : ∀ a ∈ signers, ds.latestProposalIds a = id
  asked : ∀ s ∈ done, ∃ v, votesBeforeNow env s.signer = .ok v

section Counted

variable {env : Env H} {id votes v : Nat} {ds₀ ds : StorageV3 H} {done : List ProposerSignature}
  {signers : List Address} {s : ProposerSignature}

theorem Counted.nil (env : Env H) (id : Nat) (ds₀ : StorageV3 H) :
    Counted env id ds₀ [] ds₀ 0 [] :=
  ⟨rfl, rfl, rfl, .nil, by simp, by simp⟩

theorem Counted.asked_append (h : Counted env id ds₀ done ds votes signers)
    (hv : votesBeforeNow env s.signer = .ok v) :
    ∀ s' ∈ done ++ [s], ∃ v, votesBeforeNow env s'.signer = .ok v := by
  intro s' hs'
  rcases List.mem_append.mp hs' with hold | hnew
  · exact h.asked s' hold
  · rw [List.mem_singleton.mp hnew]
    exact ⟨v, hv⟩

/-- A signature without votes behind it leaves no trace. -/
theorem Counted.skip (h : Counted env id ds₀ done ds votes signers)
    (hv : votesBeforeNow env s.signer = .ok 0) :
    Counted env id ds₀ (done ++ [s]) ds votes signers := by
  refine ⟨h.proposals, ?_, h.votes_eq, h.nodup, h.registered, h.asked_append hv⟩
  rw [sponsors_append, if_pos (votesBeforeNow_eq hv), List.append_nil]
  exact h.signers_eq

/-- Whoever is registered with a live proposal is turned away. -/
theorem Counted.not_mem [DecidableEq H] (h : Counted env id ds₀ done ds votes signers)
    (hid : 0 < id) (hlive : (ds₀.proposals id).Live env.blockNumber) {a : Address}
    (hidle : ds.checkNoActiveProp env a = .ok ()) : a ∉ signers := by
  intro ha
  apply checkNoActiveProp_ok hidle hid (h.registered a ha)
  rw [h.proposals]
  exact hlive

/-- A signature with votes behind it counts, and its signer has not been counted before. -/
theorem Counted.record [DecidableEq H] (h : Counted env id ds₀ done ds votes signers)
    (hid : 0 < id) (hlive : (ds₀.proposals id).Live env.blockNumber)
    (hidle : ds.checkNoActiveProp env s.signer = .ok ())
    (hv : votesBeforeNow env s.signer = .ok v) (hpos : v ≠ 0) :
    Counted env id ds₀ (done ++ [s])
      { ds with latestProposalIds := Function.update ds.latestProposalIds s.signer id }
      (votes + v) (signers ++ [s.signer]) := by
  have hvotes : votesBefore env s.signer = v := votesBeforeNow_eq hv
  have hnew : s.signer ∉ signers := h.not_mem hid hlive hidle
  refine ⟨h.proposals, ?_, ?_, ?_, ?_, h.asked_append hv⟩
  · rw [sponsors_append, hvotes, if_neg hpos, h.signers_eq]
  · rw [List.map_append, List.sum_append, ← h.votes_eq]
    simp [hvotes]
  · rw [List.nodup_append]
    refine ⟨h.nodup, by simp, ?_⟩
    intro a ha b hb
    rw [List.mem_singleton.mp hb]
    rintro rfl
    exact hnew ha
  · intro a ha
    show Function.update ds.latestProposalIds s.signer id a = id
    by_cases hself : a = s.signer
    · rw [hself, Function.update_self]
    · rw [Function.update_of_ne hself]
      have hold : a ∈ signers := by simpa [hself] using ha
      exact h.registered a hold

end Counted

variable [DecidableEq H] {env : Env H} {ds ds' : StorageV3 H} {sender : Address}
  {signatures : List ProposerSignature} {txs : ProposalTxs} {description : String} {id votes : Nat}
  {signers : List Address}

/-- What the loop and the check of the sender have established when they are through. -/
theorem verifySigners_counted (hid : 0 < id) (hlive : (ds.proposals id).Live env.blockNumber)
    (h : ds.verifySignersCanBackThisProposalAndCountTheirVotes env sender signatures txs description
      id = .ok (ds', votes, signers)) :
    signers = sponsors env signatures ∧ (sender :: signers).Nodup ∧
    votes = ((sender :: signers).map (votesBefore env)).sum ∧
    (∀ s ∈ signatures, ∃ v, votesBeforeNow env s.signer = .ok v) ∧
    ∃ v, votesBeforeNow env sender = .ok v := by
  simp only [verifySignersCanBackThisProposalAndCountTheirVotes, bind_eq_ok, pure_eq_ok,
    Prod.mk.injEq] at h
  obtain ⟨⟨ds₁, votes₁, signers₁⟩, hloop, _, hidle, v, hv, -, rfl, rfl⟩ := h
  have hcounted : Counted env id ds signatures ds₁ votes₁ signers₁ := by
    apply foldlM_ok_prefix (P := fun done (r : StorageV3 H × Nat × List Address) =>
      Counted env id ds done r.1 r.2.1 r.2.2) hloop (.nil env id ds)
    rintro done s ⟨ds₂, votes₂, signers₂⟩ ⟨ds₃, votes₃, signers₃⟩ hcounted hstep
    simp only [bind_eq_ok] at hstep
    obtain ⟨_, -, _, hcheck, v, hv, hstep⟩ := hstep
    split at hstep
    · rename_i hzero
      simp only [pure_eq_ok, Prod.mk.injEq] at hstep
      obtain ⟨rfl, rfl, rfl⟩ := hstep
      apply hcounted.skip
      rw [hv, hzero]
    · rename_i hpos
      simp only [pure_eq_ok, Prod.mk.injEq] at hstep
      obtain ⟨rfl, rfl, rfl⟩ := hstep
      exact hcounted.record hid hlive hcheck hv hpos
  -- The sender is checked last, when every signer is registered.
  have hsender : sender ∉ signers₁ := hcounted.not_mem hid hlive hidle
  refine ⟨hcounted.signers_eq, List.nodup_cons.mpr ⟨hsender, hcounted.nodup⟩, ?_,
    hcounted.asked, v, hv⟩
  rw [List.map_cons, List.sum_cons, votesBeforeNow_eq hv, ← hcounted.votes_eq]
  exact Nat.add_comm _ _

omit [DecidableEq H] in
theorem newProposal_live (ds : StorageV3 H) (env : Env H) (sender : Address)
    (threshold supply : Nat) (txs : ProposalTxs) :
    (ds.newProposal env sender threshold supply txs).Live env.blockNumber := by
  apply And.intro
  · exact ⟨rfl, rfl⟩
  · apply Proposal.not_closed_of_le
    exact Nat.le_add_right _ _

/-- Each backer of a signed proposal is counted once. -/
theorem proposeBySigs_counts
    (hslot : ds.proposals (ds.proposalCount + 1) = Proposal.empty)
    (h : ds.proposeBySigs env sender signatures txs description = .ok (ds', id)) :
    id = ds.proposalCount + 1 ∧
    (ds'.proposals id).signers = sponsors env signatures ∧
    (ds'.proposals id).signers ≠ [] ∧
    (sender :: (ds'.proposals id).signers).Nodup ∧
    (∀ a, a = sender ∨ a ∈ signatures.map (·.signer) → ∃ v, votesBeforeNow env a = .ok v) ∧
    ds.adjustedTotalSupply env = .ok (ds'.proposals id).totalSupply ∧
    (ds'.proposals id).proposalThreshold =
      ds.proposalThreshold (ds'.proposals id).totalSupply ∧
    (ds'.proposals id).proposalThreshold <
      ((sender :: (ds'.proposals id).signers).map (votesBefore env)).sum := by
  simp only [proposeBySigs, bind_eq_ok, revertIf_eq_ok, pure_eq_ok, Prod.mk.injEq] at h
  obtain ⟨_, -, _, -, supply, hsupply, ds₁, hcreate, ⟨ds₂, votes, signers⟩, hverify, _, hsome, _,
    hthreshold, q, -, rfl, rfl⟩ := h
  have hds₁ := createNewProposal_eq hslot hcreate
  have hnew : ds₁.proposals (ds.proposalCount + 1) = ds.newProposal env sender
      (ds.proposalThreshold supply) supply txs := by
    rw [hds₁]
    exact Function.update_self ..
  have hlive : (ds₁.proposals (ds.proposalCount + 1)).Live env.blockNumber := by
    rw [hnew]
    exact newProposal_live ..
  obtain ⟨hsigners, hnodup, hvotes, hasked, hsender⟩ :=
    verifySigners_counted (Nat.succ_pos _) hlive hverify
  -- The loop has left the new proposal as it was.
  have hkept : ds₂.proposals (ds.proposalCount + 1) = ds.newProposal env sender
      (ds.proposalThreshold supply) supply txs := by
    obtain ⟨ds₃, hchecked, -, rfl⟩ := verifySigners_checked hverify
    rw [hchecked.result, ← hnew]
  have hself : ((ds₂.setProposal (ds.proposalCount + 1) { ds₂.proposals (ds.proposalCount + 1) with
      signers }).emitNewPropEvents sender (ds.proposalCount + 1) signers q txs
      description).proposals (ds.proposalCount + 1) =
      { ds.newProposal env sender (ds.proposalThreshold supply) supply txs with signers } := by
    rw [← hkept]
    exact Function.update_self ..
  rw [hself]
  refine ⟨rfl, hsigners, ?_, hnodup, ?_, hsupply, rfl, ?_⟩
  · show signers ≠ []
    rintro rfl
    exact hsome rfl
  · rintro a (rfl | ha)
    · exact hsender
    · obtain ⟨s, hs, rfl⟩ := List.mem_map.mp ha
      exact hasked s hs
  · show ds.proposalThreshold supply < ((sender :: signers).map (votesBefore env)).sum
    rw [← hvotes]
    exact Nat.not_le.mp hthreshold

end StorageV3

namespace World

variable [DecidableEq H] {d : Deployment H} {w : World H}

/-- Whoever proposes with which signatures, and whenever: the signers of the new proposal are those
who signed and have votes, in the order of the signatures; none of them signed twice or is the
proposer; and the votes of the proposer and the signers, each counted once, exceed the threshold for
the supply at that moment. -/
theorem sponsors_counted_once (hr : Reachable Fresh (NextAny d) w) {sender : Address}
    {signatures : List ProposerSignature} {txs : ProposalTxs} {description : String}
    {ds' : StorageV3 H} {id : Nat}
    (h : w.dao.proposeBySigs (w.env d) sender signatures txs description = .ok (ds', id)) :
    id = w.dao.proposalCount + 1 ∧
    (ds'.proposals id).signers = StorageV3.sponsors (w.env d) signatures ∧
    (ds'.proposals id).signers ≠ [] ∧
    (sender :: (ds'.proposals id).signers).Nodup ∧
    (∀ a, a = sender ∨ a ∈ signatures.map (·.signer) →
      ∃ v, StorageV3.votesBeforeNow (w.env d) a = .ok v) ∧
    w.dao.adjustedTotalSupply (w.env d) = .ok (ds'.proposals id).totalSupply ∧
    (ds'.proposals id).proposalThreshold =
      w.dao.proposalThreshold (ds'.proposals id).totalSupply ∧
    (ds'.proposals id).proposalThreshold <
      ((sender :: (ds'.proposals id).signers).map (StorageV3.votesBefore (w.env d))).sum := by
  apply StorageV3.proposeBySigs_counts _ h
  exact (wf_of_fresh hr).fresh _ (Nat.lt_succ_self _)

/-- 7 proposes with the signature of 8, who has the only vote. -/
theorem sponsors_counted_once_of_signed_proposal :
    ∃ (w : World Preimage) (ds' : StorageV3 Preimage), Reachable Fresh (NextAny .sample) w ∧
      w.dao.proposeBySigs (w.env .sample) 7 [.sample] .sample "" = .ok (ds', 1) ∧
      StorageV3.sponsors (w.env .sample) [.sample] = [8] ∧
      (ds'.proposals 1).signers = [8] := by
  have hrun : Yields (({ World.sample with outside := .sampleSigned } : World Preimage).run .sample
      (fun _ _ _ => True) [.callToken .minter .mint, .advance 2 2]) (fun w =>
      StorageV3.sponsors (w.env .sample) [.sample] = [8] ∧
      Yields (w.dao.proposeBySigs (w.env .sample) 7 [.sample] .sample "") (fun r => r.2 = 1)) := by
    decide +kernel
  obtain ⟨w, hw, hsponsors, ⟨ds', id⟩, hpropose, hid⟩ := hrun
  have hr : Reachable Fresh (NextAny .sample) w := by
    refine ⟨_, ?_, run_steps (fun w a w' hstep _ => .step a trivial hstep) hw⟩
    exact ⟨rfl, fun _ => rfl, sample_fresh.checkpoints, rfl⟩
  have hone : id = 1 := hid
  subst hone
  obtain ⟨-, hsigners, -⟩ := sponsors_counted_once hr hpropose
  exact ⟨w, ds', hr, hpropose, hsponsors, hsigners.trans hsponsors⟩

end World

end Nouns
