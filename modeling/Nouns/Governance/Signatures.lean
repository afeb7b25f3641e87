import Nouns.Governance.Creation
import Nouns.Governance.QuorumHistory

/-!
# Signatures — signers have signed what a proposal contains

A signed proposal gets its content when it is created or when all its signers sign an update.  What
a signer signs names the proposer and the kind of message, and an update also the proposal.
-/

open Fallible Transition

namespace Nouns

variable {H : Type}

namespace World

variable {d : Deployment H} {w w' : World H} {h : List (World H)} {signed : Address → Preimage → Prop}

/-- Signature checks accept only the digests of messages that the signer has really signed. -/
def IdealSignatures (d : Deployment H) (signed : Address → Preimage → Prop) (w : World H) : Prop :=
  ∀ g digest sig, w.outside.isValidSignatureNow g digest sig = true →
    ∃ m, d.crypto.keccak256 m = digest ∧ signed g m

/-- In state `w` the signature `s` is one that `g` made of `message`: it is valid for its digest, and
has neither expired nor been cancelled. -/
structure Accepted (d : Deployment H) (signed : Address → Preimage → Prop) (g : Address)
    (w : World H) (s : ProposerSignature) (message : Preimage) : Prop where
  signer : s.signer = g
  valid : w.outside.isValidSignatureNow g (d.crypto.keccak256 message) s.sig = true
  unexpired : w.timestamp ≤ s.expirationTimestamp
  notCancelled : w.dao.cancelledSigs g (d.crypto.keccak256 (.signature s.sig)) = false
  signed : signed g message

/-- In state `w` the signature `s` of `g` is accepted for the content of `p`, as a new proposal `id` or
as an update of it. -/
def Endorsed (d : Deployment H) (signed : Address → Preimage → Prop) (id : Nat) (p : Proposal)
    (g : Address) (w : World H) (s : ProposerSignature) (description : String) : Prop :=
  (id = w.dao.proposalCount + 1 ∧ Accepted d signed g w s
    (.proposal p.proposer p.toProposalTxs description s.expirationTimestamp)) ∨
  (w.state d id = .ok .Updatable ∧ Accepted d signed g w s
    (.updateProposal id p.proposer p.toProposalTxs description s.expirationTimestamp))

theorem Endorsed.of_same {id : Nat} {p p' : Proposal} {g : Address} {s : ProposerSignature}
    {description : String} (h : Endorsed d signed id p g w s description)
    (hsame : SameContent p p') : Endorsed d signed id p' g w s description := by
  unfold Endorsed
  rw [hsame.proposer, hsame.txs]
  exact h

/-- A signature that passed `verifyProposalSignature` is one the signer made under that message. -/
theorem accepted_of_verified (hkeccak : Function.Injective d.crypto.keccak256)
    (hideal : w.IdealSignatures d signed) {message : Nat → Preimage} {s : ProposerSignature}
    (h : w.dao.verifyProposalSignature (w.env d) message s = .ok ()) :
    Accepted d signed s.signer w s (message s.expirationTimestamp) := by
  simp only [StorageV3.verifyProposalSignature, bind_eq_ok, revertIf_eq_ok] at h
  obtain ⟨_, hcancelled, _, hvalid, hexpired⟩ := h
  have hvalid := Bool.eq_true_of_not_eq_false hvalid
  obtain ⟨m, hm, hsigned⟩ := hideal s.signer _ _ hvalid
  rw [hkeccak hm] at hsigned
  exact ⟨rfl, hvalid, Nat.not_lt.mp hexpired, Bool.eq_false_of_not_eq_true hcancelled, hsigned⟩

/-- In some step of `h` the proposal `id` got the content of `p`, which `g` had endorsed. -/
def EndorsedIn (d : Deployment H) (signed : Address → Preimage → Prop) (id : Nat) (p : Proposal)
    (g : Address) (h : List (World H)) : Prop :=
  ∃ t t', [t', t] <:+: h ∧ SameContent p (t'.dao.proposals id) ∧
    ∃ s description, Endorsed d signed id p g t s description

theorem EndorsedIn.of_same {id : Nat} {p p' : Proposal} {g : Address}
    (hin : EndorsedIn d signed id p g h) (hsame : SameContent p p') (w : World H) :
    EndorsedIn d signed id p' g (w :: h) := by
  obtain ⟨t, t', ht, hstored, s, description, hendorsed⟩ := hin
  exact ⟨t, t', List.infix_cons ht, hsame.symm.trans hstored, s, description,
    hendorsed.of_same hsame⟩

/-- Every recorded signer of every proposal has endorsed its content in some step of `h`. -/
def AllEndorsed (d : Deployment H) (signed : Address → Preimage → Prop) (h : List (World H))
    (w : World H) : Prop :=
  ∀ id, ∀ g ∈ (w.dao.proposals id).signers, EndorsedIn d signed id (w.dao.proposals id) g h

/-- One proposal is written, and the signers it then has endorse it now. -/
theorem AllEndorsed.write (hall : AllEndorsed d signed (w :: h) w) (id : Nat)
    (hothers : ∀ id', id' ≠ id → SameContent (w.dao.proposals id') (w'.dao.proposals id'))
    (hself : ∀ g ∈ (w'.dao.proposals id).signers, ∃ s description,
      Endorsed d signed id (w'.dao.proposals id) g w s description) :
    AllEndorsed d signed (w' :: w :: h) w' := by
  intro id' g hg
  by_cases hid : id' = id
  · subst hid
    exact ⟨w, w', (List.prefix_append [w', w] h).isInfix, .refl _, hself g hg⟩
  · have hsame := hothers id' hid
    rw [hsame.signers] at hg
    exact (hall id' g hg).of_same hsame w'

theorem AllEndorsed.of_same {h : List (World H)} (hall : AllEndorsed d signed h w)
    (hsame : ∀ id, SameContent (w.dao.proposals id) (w'.dao.proposals id)) :
    AllEndorsed d signed (w' :: h) w' := by
  intro id g hg
  rw [(hsame id).signers] at hg
  exact (hall id g hg).of_same (hsame id) w'

variable [DecidableEq H]

theorem AllEndorsed.next (hkeccak : Function.Injective d.crypto.keccak256)
    (hideal : w.IdealSignatures d signed) (hall : AllEndorsed d signed (w :: h) w)
    (hwf : w.gov.Wf) (hn : NextAny d w w') : AllEndorsed d signed (w' :: w :: h) w' := by
  cases hn.effect hwf with
  | propose sender txs signers onV1 description hp hsigned =>
    refine hall.write (w.dao.proposalCount + 1) ?_ ?_
    · intro id' hid
      rw [hp.proposals_old hid]
      exact .refl _
    · obtain ⟨threshold, supply, hself⟩ := hp.proposals_new
      rw [hself]
      intro g hg
      obtain ⟨s, rfl, hverify⟩ := hsigned g hg
      exact ⟨s, description, .inl ⟨rfl, accepted_of_verified hkeccak hideal hverify⟩⟩
  | update sender id txs log hupdatable _ hdao =>
    -- Updates without signatures are for proposals without signers.
    have hnone : (w.dao.proposals id).signers = [] := by
      simp only [StorageV3.checkProposalUpdatable, bind_eq_ok, revertIf_eq_ok] at hupdatable
      obtain ⟨_, -, _, -, _, -, hlength⟩ := hupdatable
      exact List.length_eq_zero_iff.mp (by omega)
    refine hall.write id ?_ ?_
    · intro id' hid
      rw [hdao]
      simp only [StorageV3.setTransactions, StorageV3.setProposal, Function.update_of_ne hid]
      exact .refl _
    · intro g hg
      rw [hdao] at hg
      have hsigners := (w.dao.setTransactions_backers id txs id).2
      change g ∈ ((w.dao.setTransactions id txs).proposals id).signers at hg
      rw [hsigners, hnone] at hg
      cases hg
  | updateBySigs sender id txs description log hstate hsender _ hsigned hdao =>
    refine hall.write id ?_ ?_
    · intro id' hid
      rw [hdao]
      simp only [StorageV3.setTransactions, StorageV3.setProposal, Function.update_of_ne hid]
      exact .refl _
    · have hself : w'.dao.proposals id = { w.dao.proposals id with toProposalTxs := txs } := by
        rw [hdao]
        simp [StorageV3.setTransactions, StorageV3.setProposal]
      rw [hself]
      intro g hg
      obtain ⟨s, rfl, hverify⟩ := hsigned g hg
      have haccepted := accepted_of_verified hkeccak hideal hverify
      rw [hsender] at haccepted
      exact ⟨s, description, .inr ⟨hstate, haccepted⟩⟩
  | edit id hedit => exact hall.of_same hedit.sameContent
  | cancelSig sender sig hdao =>
    apply hall.of_same
    intro id
    rw [hdao]
    exact .refl _
  | settings hproposals _ _ =>
    apply hall.of_same
    intro id
    rw [hproposals]
    exact .refl _

/-- At every moment of every run, each signer of each proposal has signed exactly the actions that
are stored, for the proposer that is stored, in a message for a new proposal or for an update of
this one.  In the step of the run that stored these actions the signature of that message was valid,
unexpired and not cancelled. -/
theorem signers_signed_content (hkeccak : Function.Injective d.crypto.keccak256)
    (hr : Run Fresh (NextAny d) (w :: h)) (hideal : ∀ t ∈ w :: h, t.IdealSignatures d signed)
    {id : Nat} {g : Address} (hg : g ∈ (w.dao.proposals id).signers) :
    EndorsedIn d signed id (w.dao.proposals id) g (w :: h) := by
  have hall : AllEndorsed d signed (w :: h) w := by
    clear hg
    generalize hl : w :: h = l at hr
    induction hr generalizing w h with
    | start hw =>
      cases hl
      intro id g hg
      rw [hw.proposals] at hg
      cases hg
    | @step u u' r hrun hn ih =>
      cases hl
      have hall := ih (fun t ht => hideal t (List.mem_cons_of_mem _ ht)) rfl
      have hu : u.IdealSignatures d signed := hideal u (List.mem_cons_of_mem _ List.mem_cons_self)
      exact hall.next hkeccak hu (wf_of_fresh hrun.reachable) hn
  exact hall id g hg

theorem sampleSigned_ideal {w : World Preimage} (hw : w.outside = .sampleSigned) :
    w.IdealSignatures .sample (fun g m => g = 8 ∧ m = .proposal 7 .sample "" 100) := by
  intro g digest sig hvalid
  rw [hw] at hvalid
  simp only [Outside.sampleSigned, decide_eq_true_eq] at hvalid
  exact ⟨digest, rfl, hvalid.1, hvalid.2.1⟩

/-- The proposal of 7 with the signature of 8 holds what 8 signed. -/
theorem signers_signed_content_of_signed_proposal :
    ∃ w h, Run Fresh (NextAny .sample) (w :: h) ∧ (w.dao.proposals 1).signers = [8] ∧
      EndorsedIn .sample (fun g m => g = 8 ∧ m = .proposal 7 .sample "" 100) 1
        (w.dao.proposals 1) 8 (w :: h) := by
  have hrun : Yields (({ World.sample with outside := .sampleSigned } : World Preimage).run .sample
      (fun _ _ _ => True) [.callToken .minter .mint, .advance 2 2,
        .ofDAO .minter (.proposeBySigs [.sample] .sample "")]) (fun w =>
      (w.dao.proposals 1).signers = [8]) := by
    decide +kernel
  obtain ⟨w, hw, hsigners⟩ := hrun
  simp only [run, bind_eq_ok, pure_eq_ok] at hw
  obtain ⟨w₁, hmint, _, -, w₂, hadvance, _, -, w₃, hpropose, _, -, rfl⟩ := hw
  -- None of the three steps changes what outside contracts answer.
  have ho₁ : w₁.outside = .sampleSigned := by
    simp only [step, callToken, bind_eq_ok, pure_eq_ok] at hmint
    obtain ⟨u, henter, nouns, -, rfl⟩ := hmint
    obtain ⟨frames, rfl, -⟩ := enter_ok henter
    rfl
  have ho₂ : w₂.outside = .sampleSigned := by
    simp only [step, bind_eq_ok, pure_eq_ok] at hadvance
    obtain ⟨_, -, rfl⟩ := hadvance
    exact ho₁
  have ho₃ : w₃.outside = .sampleSigned := by
    simp only [Action.ofDAO, step, callDAO, bind_eq_ok] at hpropose
    obtain ⟨u, henter, hcall⟩ := hpropose
    obtain ⟨frames, rfl, -⟩ := enter_ok henter
    obtain ⟨ds, -, rfl⟩ := withStorage_ok hcall
    exact ho₂
  have hstart : Fresh ({ World.sample with outside := .sampleSigned } : World Preimage) :=
    ⟨rfl, fun _ => rfl, sample_fresh.checkpoints, rfl⟩
  have hr : Run Fresh (NextAny .sample) [w₃, w₂, w₁, { World.sample with outside := .sampleSigned }] :=
    (((Run.start hstart).step (.step _ trivial hmint)).step (.step _ trivial hadvance)).step
      (.step _ trivial hpropose)
  refine ⟨w₃, _, hr, hsigners, signers_signed_content Function.injective_id hr ?_ ?_⟩
  · intro t ht
    simp only [List.mem_cons, List.not_mem_nil, or_false] at ht
    rcases ht with rfl | rfl | rfl | rfl
    · exact sampleSigned_ideal ho₃
    · exact sampleSigned_ideal ho₂
    · exact sampleSigned_ideal ho₁
    · exact sampleSigned_ideal rfl
  · rw [hsigners]
    exact List.mem_singleton.mpr rfl

end World

end Nouns
