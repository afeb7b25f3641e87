import Nouns.Governance.CandidateData

/-!
# CandidateLogs — what the log says about candidates

`Postings.Step` is the inversion of `CandidateData.step` for the used slugs, the log and the stack.  A
slug is used exactly if the creation of its candidate is logged, or waits for its payment, and then
once.  While nobody acts on a candidate whose creation waits, its creation is the first event about it.
-/

open Fallible Transition

namespace Nouns

/-! ## What events are about -/

/-- The proposer of a candidate and the hash of its slug. -/
abbrev SlugKey : Type := Address × Word

section

variable (keccak256 : Bytes → Word)

namespace DataEvent

/-- The candidate that the event is about. -/
def slugKey? : DataEvent → Option SlugKey
  | .ProposalCandidateCreated msgSender version _ => some (msgSender, keccak256 version.slug)
  | .ProposalCandidateUpdated msgSender version _ _ => some (msgSender, keccak256 version.slug)
  | .ProposalCandidateCanceled msgSender slug => some (msgSender, keccak256 slug)
  | .SignatureAdded _ _ _ proposer slug _ _ _ _ => some (proposer, keccak256 slug)
  | .CandidateFeedbackSent _ proposer slug _ _ => some (proposer, keccak256 slug)
  | _ => none

/-- The event logs the creation of this candidate. -/
def creates (k : SlugKey) : DataEvent → Bool
  | .ProposalCandidateCreated msgSender version _ => decide ((msgSender, keccak256 version.slug) = k)
  | _ => false

theorem slugKey?_of_creates {e : DataEvent} {k : SlugKey} (h : e.creates keccak256 k = true) :
    e.slugKey? keccak256 = some k := by
  cases e with
  | ProposalCandidateCreated msgSender version hash => exact congrArg some (of_decide_eq_true h)
  | _ => cases h

end DataEvent

namespace DataFrame

def event (d : DataDeployment) : DataFrame → DataEvent
  | .createProposalCandidate msgSender version =>
      .ProposalCandidateCreated msgSender version
        (d.keccak256 (version.encodedProp d.keccak256 msgSender))
  | .updateProposalCandidate msgSender version reason =>
      .ProposalCandidateUpdated msgSender version
        (d.keccak256 (version.encodedProp d.keccak256 msgSender)) reason
  | .withdrawETH to_ amount => .ETHWithdrawn to_ amount

/-- The creation of this candidate waits in the frame. -/
def creates (k : SlugKey) : DataFrame → Bool
  | .createProposalCandidate msgSender version => decide ((msgSender, keccak256 version.slug) = k)
  | _ => false

end DataFrame

/-- The candidate that a call is about. -/
def DataCall.slugKey? (msgSender : Address) : DataCall → Option SlugKey
  | .createProposalCandidate _ version => some (msgSender, keccak256 version.slug)
  | .updateProposalCandidate _ version _ => some (msgSender, keccak256 version.slug)
  | .cancelProposalCandidate slug => some (msgSender, keccak256 slug)
  | .addSignature _ _ proposer slug _ _ _ => some (proposer, keccak256 slug)
  | .sendCandidateFeedback proposer slug _ _ => some (proposer, keccak256 slug)
  | _ => none

end

/-- The strings that are hashed for a signature, under either type. -/
def signatureHashes (d : DataDeployment) (expirationTimestamp : Word) (encodedProp : Bytes) :
    List Bytes :=
  let types := [PROPOSAL_TYPEHASH d.keccak256, UPDATE_PROPOSAL_TYPEHASH d.keccak256]
  encodedProp :: types.flatMap fun typeHash =>
    let structData := typeHash.toBytes ++ encodedProp ++ expirationTimestamp.toBytes
    [structData, [0x19, 0x01] ++ (domainSeparator d.keccak256 d.chainid d.nounsDao).toBytes ++
      (d.keccak256 structData).toBytes]

/-- The contents that a call hashes, and the strings of its signature. -/
def DataCall.hashes (d : DataDeployment) (msgSender : Address) : DataCall → List Bytes
  | .createProposalCandidate _ version => [version.encodedProp d.keccak256 msgSender]
  | .updateProposalCandidate _ version _ => [version.encodedProp d.keccak256 msgSender]
  | .addSignature _ expirationTimestamp _ _ _ encodedProp _ =>
      signatureHashes d expirationTimestamp encodedProp
  | _ => []

/-- What is known of the calls of a run: the signatures that are valid at some time, and the contents
and messages that are hashed. -/
structure DataCalls where
  valid : Address → Word → Bytes → Prop
  hashed : Bytes → Prop

/-- What the contract has checked or computed itself. -/
def DataEvent.Sound (d : DataDeployment) (A : DataCalls) :
    DataEvent → Prop
  | .ProposalCandidateCreated msgSender version encodedProposalHash =>
      encodedProposalHash = d.keccak256 (version.encodedProp d.keccak256 msgSender) ∧
        A.hashed (version.encodedProp d.keccak256 msgSender)
  | .ProposalCandidateUpdated msgSender version encodedProposalHash _ =>
      encodedProposalHash = d.keccak256 (version.encodedProp d.keccak256 msgSender) ∧
        A.hashed (version.encodedProp d.keccak256 msgSender)
  | .SignatureAdded signer sig expirationTimestamp _ _ proposalIdToUpdate encodedPropHash sigDigest _ =>
      A.valid signer sigDigest sig ∧ ∃ encodedProp, encodedPropHash = d.keccak256 encodedProp ∧
        sigDigest =
          CandidateData.signatureDigest d expirationTimestamp proposalIdToUpdate encodedProp ∧
        ∀ b ∈ signatureHashes d expirationTimestamp encodedProp, A.hashed b
  | .FeedbackSent _ _ support _ => support ≤ 2
  | .CandidateFeedbackSent _ _ _ support _ => support ≤ 2
  | _ => True

theorem DataFrame.creates_event (d : DataDeployment) (f : DataFrame) (k : SlugKey) :
    (f.event d).creates d.keccak256 k = f.creates d.keccak256 k := by
  cases f <;> rfl

/-! ## Postings -/

/-- The part of the state that is about candidates. -/
structure Postings where
  propCandidates : Address → Word → Bool
  log : List DataEvent
  frames : List DataFrame

namespace Postings

def used (c : Postings) (k : SlugKey) : Prop := c.propCandidates k.1 k.2 = true

/-- One change.  Who acts on a candidate finds its slug used, and `may` holds. -/
inductive Step (d : DataDeployment) (A : DataCalls)
    (may : Postings → SlugKey → Prop) (c : Postings) : Postings → Prop
  | create (msgSender : Address) (version : CandidateVersion) :
      ¬ c.used (msgSender, d.keccak256 version.slug) →
      A.hashed (version.encodedProp d.keccak256 msgSender) →
      Step d A may c ⟨Function.update c.propCandidates msgSender
        (Function.update (c.propCandidates msgSender) (d.keccak256 version.slug) true), c.log,
        .createProposalCandidate msgSender version :: c.frames⟩
  | update (msgSender : Address) (version : CandidateVersion) (reason : Bytes) :
      c.used (msgSender, d.keccak256 version.slug) →
      may c (msgSender, d.keccak256 version.slug) →
      A.hashed (version.encodedProp d.keccak256 msgSender) →
      Step d A may c ⟨c.propCandidates, c.log,
        .updateProposalCandidate msgSender version reason :: c.frames⟩
  | withdraw (to_ : Address) (amount : Nat) :
      Step d A may c ⟨c.propCandidates, c.log, .withdrawETH to_ amount :: c.frames⟩
  | finish (f : DataFrame) (frames : List DataFrame) : c.frames = f :: frames →
      Step d A may c ⟨c.propCandidates, f.event d :: c.log, frames⟩
  | post (e : DataEvent) : (∀ k, e.creates d.keccak256 k = false) →
      (∀ k, e.slugKey? d.keccak256 = some k → c.used k ∧ may c k) → e.Sound d A →
      Step d A may c ⟨c.propCandidates, e :: c.log, c.frames⟩

variable {d : DataDeployment} {A : DataCalls}
  {may : Postings → SlugKey → Prop} {c c' : Postings}

abbrev Steps (d : DataDeployment) (A : DataCalls)
    (may : Postings → SlugKey → Prop) : Postings → Postings → Prop :=
  Relation.ReflTransGen (Step d A may)

/-- An event that is about no candidate. -/
theorem steps_of_aside (e : DataEvent) (hkey : e.slugKey? d.keccak256 = none)
    (hsound : e.Sound d A) :
    Steps d A may c ⟨c.propCandidates, e :: c.log, c.frames⟩ := by
  apply Relation.ReflTransGen.single
  apply Step.post e
  · intro k
    apply Bool.eq_false_of_not_eq_true
    intro hcreates
    rw [DataEvent.slugKey?_of_creates d.keccak256 hcreates] at hkey
    cases hkey
  · intro k hk
    rw [hkey] at hk
    cases hk
  · exact hsound

/-- A frame whose payment is refused, or never made, is left at once. -/
theorem steps_of_frame {f : DataFrame} {propCandidates : Address → Word → Bool}
    (h : Step d A may c ⟨propCandidates, c.log, f :: c.frames⟩) :
    Steps d A may c ⟨propCandidates, f.event d :: c.log, c.frames⟩ :=
  .tail (.single h) (.finish f c.frames rfl)

end Postings

namespace CandidateData

variable {d : DataDeployment} {A : DataCalls}
  {may : Postings → SlugKey → Prop} {s s' : CandidateData}

def postings (s : CandidateData) : Postings := ⟨s.propCandidates, s.log, s.frames⟩

/-- The answers about signatures are sound, and `may` holds of what the call is about. -/
def Allowed (d : DataDeployment) (A : DataCalls)
    (may : Postings → SlugKey → Prop) (s : CandidateData) : DataAction → Prop
  | .call env msgSender call =>
      (∀ signer digest sig, env.isValidSignatureNow signer digest sig = true →
        A.valid signer digest sig) ∧
      (∀ b ∈ call.hashes d msgSender, A.hashed b) ∧
      ∀ k, call.slugKey? d.keccak256 msgSender = some k → may s.postings k
  | _ => True

/-- More answers and contents allow more. -/
theorem Allowed.mono {A' : DataCalls} {a : DataAction}
    (hvalid : ∀ signer digest sig, A.valid signer digest sig → A'.valid signer digest sig)
    (hhashed : ∀ b, A.hashed b → A'.hashed b) (h : Allowed d A may s a) : Allowed d A' may s a := by
  cases a with
  | call env msgSender call =>
    obtain ⟨hanswers, hhashes, hmay⟩ := h
    exact ⟨fun signer digest sig hok => hvalid _ _ _ (hanswers signer digest sig hok),
      fun b hb => hhashed b (hhashes b hb), hmay⟩
  | _ => trivial

theorem reachable_mono {A' : DataCalls}
    (hvalid : ∀ signer digest sig, A.valid signer digest sig → A'.valid signer digest sig)
    (hhashed : ∀ b, A.hashed b → A'.hashed b)
    (h : Reachable Init (Next d (Allowed d A may)) s) :
    Reachable Init (Next d (Allowed d A' may)) s := by
  apply h.mono (fun _ hinit => hinit)
  rintro s s' ⟨a, hallowed, hstep⟩
  exact ⟨a, hallowed.mono hvalid hhashed, hstep⟩

theorem finish_postings (s : CandidateData) (f : DataFrame) :
    (s.finish d f).postings = ⟨s.propCandidates, f.event d :: s.log, s.frames⟩ := by
  cases f <;> rfl

/-- The payment goes out, or the frame is left at once. -/
theorem steps_of_sendValue {c : Postings} {env : DataEnv} {msgValue : Nat} {f : DataFrame}
    (hlog : s.log = c.log) (hframes : s.frames = c.frames)
    (h : c.Step d A may ⟨s.propCandidates, c.log, f :: c.frames⟩) :
    c.Steps d A may (s.sendValueToRecipient d env msgValue f).postings := by
  unfold sendValueToRecipient
  split
  · rw [show (s.pay msgValue f).postings = ⟨s.propCandidates, c.log, f :: c.frames⟩ by
      rw [← hlog, ← hframes]; rfl]
    exact .single h
  · rw [finish_postings, hlog, hframes]
    exact Postings.steps_of_frame h

theorem steps_of_call {env : DataEnv} {msgSender : Account} {call : DataCall}
    (hallowed : s.Allowed d A may (.call env msgSender call))
    (h : s.call d env msgSender call = .ok s') :
    s.postings.Steps d A may s'.postings := by
  obtain ⟨hvalid, hhashed, hmay⟩ := hallowed
  cases call with
  | createProposalCandidate msgValue version =>
    simp only [CandidateData.call, createProposalCandidate, bind_eq_ok, revertIf_eq_ok,
      pure_eq_ok] at h
    obtain ⟨_, -, _, -, _, hunused, rfl⟩ := h
    exact steps_of_sendValue (c := s.postings) rfl rfl (.create _ version hunused
      (hhashed _ (List.mem_singleton_self _)))
  | updateProposalCandidate msgValue version reason =>
    simp only [CandidateData.call, updateProposalCandidate, bind_eq_ok, revertIf_eq_ok,
      pure_eq_ok] at h
    obtain ⟨_, -, _, -, _, hused, rfl⟩ := h
    apply steps_of_sendValue (c := s.postings) (s := s.receive msgValue) rfl rfl
    exact .update _ version reason (Bool.eq_true_of_not_eq_false hused) (hmay _ rfl)
      (hhashed _ (List.mem_singleton_self _))
  | cancelProposalCandidate slug =>
    simp only [CandidateData.call, cancelProposalCandidate, bind_eq_ok, revertIf_eq_ok,
      pure_eq_ok] at h
    obtain ⟨_, hused, rfl⟩ := h
    apply Relation.ReflTransGen.single
    apply Postings.Step.post _ (fun _ => rfl)
    · intro k hk
      obtain rfl := Option.some.inj hk
      exact ⟨Bool.eq_true_of_not_eq_false hused, hmay _ rfl⟩
    · trivial
  | addSignature sig expirationTimestamp proposer slug proposalIdToUpdate encodedProp reason =>
    simp only [CandidateData.call, addSignature, bind_eq_ok, revertIf_eq_ok, pure_eq_ok] at h
    obtain ⟨_, hused, _, hsigned, rfl⟩ := h
    apply Relation.ReflTransGen.single
    apply Postings.Step.post _ (fun _ => rfl)
    · intro k hk
      obtain rfl := Option.some.inj hk
      exact ⟨Bool.eq_true_of_not_eq_false hused, hmay _ rfl⟩
    · exact ⟨hvalid _ _ _ (Bool.eq_true_of_not_eq_false hsigned), encodedProp, rfl, rfl, hhashed⟩
  | sendFeedback proposalId support reason =>
    simp only [CandidateData.call, sendFeedback, bind_eq_ok, revertIf_eq_ok, pure_eq_ok] at h
    obtain ⟨_, hsupport, rfl⟩ := h
    exact Postings.steps_of_aside _ rfl (Nat.le_of_not_gt hsupport)
  | sendCandidateFeedback proposer slug support reason =>
    simp only [CandidateData.call, sendCandidateFeedback, bind_eq_ok, revertIf_eq_ok,
      pure_eq_ok] at h
    obtain ⟨_, hused, _, hsupport, rfl⟩ := h
    apply Relation.ReflTransGen.single
    apply Postings.Step.post _ (fun _ => rfl)
    · intro k hk
      obtain rfl := Option.some.inj hk
      exact ⟨Bool.eq_true_of_not_eq_false hused, hmay _ rfl⟩
    · exact Nat.le_of_not_gt hsupport
  | withdrawETH to_ amount =>
    simp only [CandidateData.call, withdrawETH, bind_eq_ok, pure_eq_ok] at h
    obtain ⟨_, -, _, -, _, -, rfl⟩ := h
    exact .single (.withdraw to_ amount)
  | transferOwnership newOwner =>
    simp only [CandidateData.call, transferOwnership, bind_eq_ok, pure_eq_ok] at h
    obtain ⟨_, -, _, -, rfl⟩ := h
    exact Postings.steps_of_aside _ rfl trivial
  | setCreateCandidateCost _ | setUpdateCandidateCost _ | setFeeRecipient _ | renounceOwnership =>
    simp only [CandidateData.call, setCreateCandidateCost, setUpdateCandidateCost, setFeeRecipient,
      renounceOwnership, bind_eq_ok, pure_eq_ok] at h
    obtain ⟨_, -, rfl⟩ := h
    exact Postings.steps_of_aside _ rfl trivial

theorem Next.steps (h : Next d (Allowed d A may) s s') :
    s.postings.Steps d A may s'.postings := by
  obtain ⟨a, hallowed, h⟩ := h
  cases a with
  | call env msgSender call => exact steps_of_call hallowed h
  | return_ =>
    simp only [step] at h
    split at h
    · cases h
    · rename_i frame frames hframes
      rw [← pure_eq_ok.mp h, finish_postings]
      exact .single (.finish frame frames hframes)
  | forceETH amount =>
    rw [← pure_eq_ok.mp h]
    exact .refl

end CandidateData

/-! ## Slugs are used once -/

namespace Postings

variable {d : DataDeployment} {A : DataCalls}
  {may : Postings → SlugKey → Prop} {c c' : Postings}

instance (c : Postings) (k : SlugKey) : Decidable (c.used k) :=
  inferInstanceAs (Decidable (_ = true))

/-- The creations of this candidate that are logged, and those that wait. -/
def logged (d : DataDeployment) (c : Postings) (k : SlugKey) : Nat :=
  c.log.countP (·.creates d.keccak256 k)

def waiting (d : DataDeployment) (c : Postings) (k : SlugKey) : Nat :=
  c.frames.countP (·.creates d.keccak256 k)

structure Counted (d : DataDeployment) (A : DataCalls) (c : Postings) :
    Prop where
  once : ∀ k, c.logged d k + c.waiting d k = if c.used k then 1 else 0
  log_used : ∀ e ∈ c.log, ∀ k, e.slugKey? d.keccak256 = some k → c.used k
  frames_used : ∀ f ∈ c.frames, ∀ k, (f.event d).slugKey? d.keccak256 = some k → c.used k
  sound : ∀ e ∈ c.log, e.Sound d A
  frames_sound : ∀ f ∈ c.frames, (f.event d).Sound d A

theorem used_set {msgSender : Address} {slugHash : Word} {log : List DataEvent}
    {frames : List DataFrame} (k : SlugKey) :
    used ⟨Function.update c.propCandidates msgSender
      (Function.update (c.propCandidates msgSender) slugHash true), log, frames⟩ k ↔
      k = (msgSender, slugHash) ∨ c.used k := by
  obtain ⟨proposer, hash⟩ := k
  unfold used
  by_cases hproposer : proposer = msgSender
  · subst hproposer
    by_cases hhash : hash = slugHash
    · simp [hhash]
    · simp [hhash]
  · simp [hproposer]

/-- A frame of a candidate whose slug is used already. -/
theorem Counted.push {f : DataFrame} (h : c.Counted d A)
    (hnew : ∀ k, f.creates d.keccak256 k = false)
    (hused : ∀ k, (f.event d).slugKey? d.keccak256 = some k → c.used k)
    (hsound : (f.event d).Sound d A) :
    Counted d A ⟨c.propCandidates, c.log, f :: c.frames⟩ := by
  refine ⟨?_, h.log_used, ?_, h.sound, List.forall_mem_cons.mpr ⟨hsound, h.frames_sound⟩⟩
  · intro k
    show c.logged d k + (f :: c.frames).countP _ = _
    rw [List.countP_cons_of_neg (by simp [hnew k])]
    exact h.once k
  · intro g hg k hk
    rcases List.mem_cons.mp hg with rfl | hg
    · exact hused k hk
    · exact h.frames_used g hg k hk

theorem Counted.step (h : c.Counted d A) (hstep : c.Step d A may c') :
    c'.Counted d A := by
  cases hstep with
  | create msgSender version hunused hhashed =>
    refine ⟨?_, ?_, ?_, h.sound, List.forall_mem_cons.mpr ⟨⟨rfl, hhashed⟩, h.frames_sound⟩⟩
    · intro k
      have honce := h.once k
      have hcreates : (DataFrame.createProposalCandidate msgSender version).creates d.keccak256 k =
          decide ((msgSender, d.keccak256 version.slug) = k) := rfl
      show c.logged d k + (DataFrame.createProposalCandidate msgSender version ::
        c.frames).countP _ = _
      rw [List.countP_cons, hcreates, ← Nat.add_assoc]
      show c.logged d k + c.waiting d k + _ = _
      simp only [used_set, decide_eq_true_eq]
      -- The new slug had no creation yet, and the others keep theirs.
      by_cases hk : (msgSender, d.keccak256 version.slug) = k
      · subst hk
        rw [honce, if_neg hunused, if_pos rfl, if_pos (.inl rfl)]
      · rw [honce, if_neg hk]
        simp [Ne.symm hk]
    · intro e he k hk
      exact (used_set k).mpr (.inr (h.log_used e he k hk))
    · intro f hf k hk
      rcases List.mem_cons.mp hf with rfl | hf
      · exact (used_set k).mpr (.inl (Option.some.inj hk).symm)
      · exact (used_set k).mpr (.inr (h.frames_used f hf k hk))
  | update msgSender version reason hused _ hhashed =>
    apply h.push (fun _ => rfl)
    · intro k hk
      rw [← Option.some.inj hk]
      exact hused
    · exact ⟨rfl, hhashed⟩
  | withdraw to_ amount =>
    apply h.push (fun _ => rfl)
    · intro k hk
      cases hk
    · trivial
  | finish f frames hframes =>
    have hf : f ∈ c.frames := by
      rw [hframes]
      exact List.mem_cons_self
    refine ⟨?_, ?_, ?_, ?_, ?_⟩
    · intro k
      have honce := h.once k
      unfold waiting at honce
      rw [hframes, List.countP_cons] at honce
      show (f.event d :: c.log).countP _ + frames.countP _ = _
      rw [List.countP_cons, DataFrame.creates_event]
      unfold logged at honce
      show _ = if c.used k then 1 else 0
      omega
    · intro e he k hk
      rcases List.mem_cons.mp he with rfl | he
      · exact h.frames_used f hf k hk
      · exact h.log_used e he k hk
    · intro g hg
      apply h.frames_used g
      rw [hframes]
      exact List.mem_cons_of_mem f hg
    · intro e he
      rcases List.mem_cons.mp he with rfl | he
      · exact h.frames_sound f hf
      · exact h.sound e he
    · intro g hg
      apply h.frames_sound g
      rw [hframes]
      exact List.mem_cons_of_mem f hg
  | post e hnew hkey hsound =>
    refine ⟨?_, ?_, h.frames_used, ?_, h.frames_sound⟩
    · intro k
      show (e :: c.log).countP _ + c.waiting d k = _
      rw [List.countP_cons_of_neg (by simp [hnew k])]
      exact h.once k
    · intro e' he' k hk
      rcases List.mem_cons.mp he' with rfl | he'
      · exact (hkey k hk).1
      · exact h.log_used e' he' k hk
    · intro e' he'
      rcases List.mem_cons.mp he' with rfl | he'
      · exact hsound
      · exact h.sound e' he'

end Postings

/-! ## Candidates are created before anything else is posted about them -/

section

variable (keccak256 : Bytes → Word)

/-- After this log, the event creates its candidate exactly if nothing was posted about it. -/
def DataEvent.Continues (log : List DataEvent) (e : DataEvent) : Prop :=
  ∀ k, e.slugKey? keccak256 = some k →
    (e.creates keccak256 k = true ↔ ∀ e' ∈ log, e'.slugKey? keccak256 ≠ some k)

def LogOrdered : List DataEvent → Prop
  | [] => True
  | e :: log => e.Continues keccak256 log ∧ LogOrdered log

end

namespace Postings

variable {d : DataDeployment} {A : DataCalls} {c c' : Postings}

/-- No creation of this candidate waits for its payment. -/
def Settled (d : DataDeployment) (c : Postings) (k : SlugKey) : Prop :=
  ∀ f ∈ c.frames, f.creates d.keccak256 k = false

structure Ordered (d : DataDeployment) (A : DataCalls) (c : Postings) :
    Prop where
  counted : c.Counted d A
  log : LogOrdered d.keccak256 c.log
  frames : ∀ f ∈ c.frames, (f.event d).Continues d.keccak256 c.log

theorem Ordered.created (h : c.Ordered d A) {k : SlugKey} (hused : c.used k)
    (hsettled : c.Settled d k) : ∃ e ∈ c.log, e.creates d.keccak256 k = true := by
  have honce := h.counted.once k
  have hnone : c.waiting d k = 0 := by
    apply List.countP_eq_zero.mpr
    intro f hf
    simp [hsettled f hf]
  rw [hnone, if_pos hused] at honce
  apply List.countP_pos_iff.mp
  show 0 < c.logged d k
  omega

/-- What is posted about a settled candidate follows its creation. -/
theorem Ordered.continues (h : c.Ordered d A) {e : DataEvent}
    (hnew : ∀ k, e.creates d.keccak256 k = false)
    (hkey : ∀ k, e.slugKey? d.keccak256 = some k → c.used k ∧ c.Settled d k) :
    e.Continues d.keccak256 c.log := by
  intro k hk
  obtain ⟨e', he', hcreates⟩ := h.created (hkey k hk).1 (hkey k hk).2
  constructor
  · intro htrue
    rw [hnew k] at htrue
    cases htrue
  · intro hnone
    exact absurd (DataEvent.slugKey?_of_creates d.keccak256 hcreates) (hnone e' he')

/-- A frame still continues the log after an event that is not about the candidate it creates. -/
theorem continues_cons {f : DataFrame} {e : DataEvent} {log : List DataEvent}
    (h : (f.event d).Continues d.keccak256 log)
    (he : ∀ k, e.slugKey? d.keccak256 = some k → f.creates d.keccak256 k = false) :
    (f.event d).Continues d.keccak256 (e :: log) := by
  intro k hk
  rw [h k hk]
  constructor
  · intro hnone e' he'
    rcases List.mem_cons.mp he' with rfl | he'
    · intro habout
      have hcreates := (h k hk).mpr hnone
      rw [DataFrame.creates_event, he k habout] at hcreates
      cases hcreates
    · exact hnone e' he'
  · intro hnone e' he'
    exact hnone e' (List.mem_cons_of_mem e he')

theorem Ordered.push {f : DataFrame} (h : c.Ordered d A)
    (hcounted : Counted d A ⟨c.propCandidates, c.log, f :: c.frames⟩)
    (hf : (f.event d).Continues d.keccak256 c.log) :
    Ordered d A ⟨c.propCandidates, c.log, f :: c.frames⟩ := by
  refine ⟨hcounted, h.log, ?_⟩
  intro g hg
  rcases List.mem_cons.mp hg with rfl | hg
  · exact hf
  · exact h.frames g hg

theorem Ordered.step (h : c.Ordered d A) (hstep : c.Step d A (Settled d) c') :
    c'.Ordered d A := by
  have hcounted := h.counted.step hstep
  cases hstep with
  | create msgSender version hunused _ =>
    refine ⟨hcounted, h.log, ?_⟩
    intro f hf
    rcases List.mem_cons.mp hf with rfl | hf
    · intro k hk
      have hkey : (msgSender, d.keccak256 version.slug) = k := Option.some.inj hk
      -- Nothing is logged about a slug that is not used.
      refine ⟨fun _ e he habout => ?_, fun _ => decide_eq_true hkey⟩
      rw [← hkey] at habout
      exact hunused (h.counted.log_used e he _ habout)
    · exact h.frames f hf
  | update msgSender version reason hused hsettled _ =>
    apply h.push hcounted
    apply h.continues (fun _ => rfl)
    intro k hk
    rw [← Option.some.inj hk]
    exact ⟨hused, hsettled⟩
  | withdraw to_ amount =>
    apply h.push hcounted
    intro k hk
    cases hk
  | finish f frames hframes =>
    have hf : (f.event d).Continues d.keccak256 c.log := by
      apply h.frames f
      rw [hframes]
      exact List.mem_cons_self
    refine ⟨hcounted, ⟨hf, h.log⟩, ?_⟩
    intro g hg
    have hg' : g ∈ c.frames := by
      rw [hframes]
      exact List.mem_cons_of_mem f hg
    apply continues_cons (h.frames g hg')
    intro k hk
    apply Bool.eq_false_of_not_eq_true
    intro hcreates
    -- If `g` creates what `f` is about, nothing is logged about it, so that `f` creates it too.
    have hgk : (g.event d).creates d.keccak256 k = true := by
      rw [DataFrame.creates_event]
      exact hcreates
    have hnone := (h.frames g hg' k (DataEvent.slugKey?_of_creates d.keccak256 hgk)).mp hgk
    have hfk : f.creates d.keccak256 k = true := by
      rw [← DataFrame.creates_event d]
      exact (hf k hk).mpr hnone
    have honce := h.counted.once k
    have hsplit : c.waiting d k = frames.countP (·.creates d.keccak256 k) + 1 := by
      unfold waiting
      rw [hframes]
      exact List.countP_cons_of_pos hfk
    have hpos : 0 < frames.countP (·.creates d.keccak256 k) :=
      List.countP_pos_iff.mpr ⟨g, hg, hcreates⟩
    have hle : (if c.used k then 1 else 0) ≤ 1 := by
      split
      · exact Nat.le_refl 1
      · exact Nat.zero_le 1
    omega
  | post e hnew hkey hsound =>
    refine ⟨hcounted, ⟨h.continues hnew hkey, h.log⟩, ?_⟩
    intro f hf
    apply continues_cons (h.frames f hf)
    intro k hk
    exact (hkey k hk).2 f hf

end Postings

/-! ## Runs -/

namespace CandidateData

variable {d : DataDeployment} {A : DataCalls}
  {may : Postings → SlugKey → Prop} {s s' : CandidateData}

theorem Init.ordered (h : Init s) : s.postings.Ordered d A := by
  obtain ⟨admin, createCandidateCost, updateCandidateCost, feeRecipient, rfl⟩ := h
  refine ⟨⟨?_, ?_, ?_, ?_, ?_⟩, ⟨?_, trivial⟩, ?_⟩
  · intro k
    rfl
  · intro e he k hk
    rw [List.mem_singleton.mp he] at hk
    cases hk
  · intro f hf
    exact absurd hf List.not_mem_nil
  · intro e he
    rw [List.mem_singleton.mp he]
    trivial
  · intro f hf
    exact absurd hf List.not_mem_nil
  · intro k hk
    cases hk
  · intro f hf
    exact absurd hf List.not_mem_nil

theorem counted (hr : Reachable Init (Next d (Allowed d A may)) s) :
    s.postings.Counted d A := by
  apply hr.invariant
  · intro s hinit
    exact hinit.ordered.counted
  · intro s s' _ hs hnext
    exact steps_preserve hnext.steps hs fun _ _ h hstep => h.step hstep

/-- Nobody acts on a candidate whose creation waits for its payment. -/
theorem ordered (hr : Reachable Init (Next d (Allowed d A (Postings.Settled d))) s) :
    s.postings.Ordered d A := by
  apply hr.invariant
  · intro s hinit
    exact hinit.ordered
  · intro s s' _ hs hnext
    exact steps_preserve hnext.steps hs fun _ _ h hstep => h.step hstep

/-- Whatever is called while a payment is made: a slug is used exactly if the creation of its candidate
is logged or waits for its payment, and there is then one such creation; every event about a candidate
is about a used slug; and what events say of content, signatures and support was checked. -/
theorem slug_used_once (hr : Reachable Init (Next d (Allowed d A may)) s) (proposer : Address)
    (slugHash : Word) :
    s.log.countP (·.creates d.keccak256 (proposer, slugHash)) +
        s.frames.countP (·.creates d.keccak256 (proposer, slugHash)) =
      (if s.propCandidates proposer slugHash = true then 1 else 0) ∧
    (∀ e ∈ s.log, e.slugKey? d.keccak256 = some (proposer, slugHash) →
      s.propCandidates proposer slugHash = true) ∧
    ∀ e ∈ s.log, e.Sound d A := by
  have hcounted := counted hr
  exact ⟨hcounted.once (proposer, slugHash),
    fun e he hkey => hcounted.log_used e he _ hkey, hcounted.sound⟩

/-! ## A candidate whose creation is being paid for -/

def sampleDeployment : DataDeployment where
  keccak256 := SignedMessage.sampleKeccak256
  chainid := 1
  nounsDao := 2

/-- The fee recipient takes ETH, and no signature is valid. -/
def sampleEnv : DataEnv where
  blockNumber := 2
  nouns := .deploy 9 8 7
  isValidSignatureNow := fun _ _ _ => false
  acceptsETH := true
  returnData := []

def sampleVersion : CandidateVersion where
  txs := ⟨[1], [3], [[]], [[6]]⟩
  description := [97]
  slug := [115]
  proposalIdToUpdate := 0

/-- One content is hashed. -/
def sampleCalls : DataCalls where
  valid := fun _ _ _ => False
  hashed := fun b => b = sampleVersion.encodedProp sampleDeployment.keccak256 7

/-- Account 7 has no Nouns and pays 10. -/
def samplePaying : CandidateData :=
  (((deploy 9 10 5 8).setPropCandidate 7 (sampleDeployment.keccak256 sampleVersion.slug)).receive
    10).pay 10 (.createProposalCandidate 7 sampleVersion)

theorem samplePaying_reachable :
    Reachable Init (Next sampleDeployment (Allowed sampleDeployment sampleCalls
      (Postings.Settled sampleDeployment))) samplePaying := by
  have hinit : Init (deploy 9 10 5 8) := ⟨9, 10, 5, 8, rfl⟩
  apply (Reachable.start hinit).step
  refine ⟨.call sampleEnv ⟨7, Address.seven_ne_zero⟩ (.createProposalCandidate 10 sampleVersion),
    ⟨?_, ?_, ?_⟩, rfl⟩
  · intro signer digest sig hvalid
    cases hvalid
  · intro b hb
    exact List.mem_singleton.mp hb
  · intro k _ f hf
    exact absurd hf List.not_mem_nil

/-- The fee recipient returns. -/
def sampleCreated : CandidateData :=
  { samplePaying with frames := [] }.finish sampleDeployment (.createProposalCandidate 7 sampleVersion)

theorem sampleCreated_reachable :
    Reachable Init (Next sampleDeployment (Allowed sampleDeployment sampleCalls
      (Postings.Settled sampleDeployment))) sampleCreated :=
  samplePaying_reachable.step ⟨.return_, trivial, rfl⟩

theorem slug_used_once_paying :
    samplePaying.log.countP (·.creates sampleDeployment.keccak256
        (7, sampleDeployment.keccak256 sampleVersion.slug)) +
      samplePaying.frames.countP (·.creates sampleDeployment.keccak256
        (7, sampleDeployment.keccak256 sampleVersion.slug)) =
      if samplePaying.propCandidates 7 (sampleDeployment.keccak256 sampleVersion.slug) = true then 1
      else 0 :=
  (slug_used_once samplePaying_reachable 7 (sampleDeployment.keccak256 sampleVersion.slug)).1

end CandidateData

end Nouns
