import Nouns.Governance.Proposals
import Nouns.Subgraph.CandidateMirror

/-!
# CandidateSignatures — the indexed signatures, as the DAO checks them

A signature is stored with the content that was the latest version when it was added.  The contract
for candidates checks it under the type that its signer declares, the DAO under the type of the
content.
-/

open EntityStore EntityStore.Table Transition Fallible

namespace Nouns

/-! ## Messages -/

/-- What the DAO takes as signed by the signers of this version. -/
def CandidateVersion.message (proposer : Address) (version : CandidateVersion) (expiry : Word) :
    SignedMessage :=
  if version.proposalIdToUpdate = 0 then
    .proposal proposer version.txs version.description expiry
  else
    .updateProposal version.proposalIdToUpdate proposer version.txs version.description expiry

section

variable {d : DataDeployment}

theorem CandidateVersion.encodeData_message (proposer : Address) (version : CandidateVersion)
    (expiry : Word) :
    (version.message proposer expiry).encodeData d.keccak256 =
      version.encodedProp d.keccak256 proposer := by
  unfold message encodedProp
  by_cases hid : version.proposalIdToUpdate = 0
  · rw [if_pos hid, if_neg (not_not_intro hid)]
    rfl
  · rw [if_neg hid, if_pos hid]
    rfl

theorem CandidateVersion.expiry_message (proposer : Address) (version : CandidateVersion)
    (expiry : Word) : (version.message proposer expiry).expiry = expiry := by
  unfold message
  split <;> rfl

/-- The digest of a version is that of a signature that declares its type. -/
theorem CandidateVersion.digest_message (proposer : Address) (version : CandidateVersion)
    (expiry : Word) :
    (version.message proposer expiry).digest d.keccak256 d.chainid d.nounsDao =
      CandidateData.signatureDigest d expiry version.proposalIdToUpdate
        (version.encodedProp d.keccak256 proposer) := by
  have htype : (version.message proposer expiry).typehash d.keccak256 =
      if version.proposalIdToUpdate = 0 then PROPOSAL_TYPEHASH d.keccak256
      else UPDATE_PROPOSAL_TYPEHASH d.keccak256 := by
    unfold message
    split <;> rfl
  unfold SignedMessage.digest CandidateData.signatureDigest
  rw [htype, version.encodeData_message, version.expiry_message]

/-- Signatures on one content have one digest exactly if the same type is declared. -/
theorem signatureDigest_eq_iff {expirationTimestamp declared declared' : Word} {encodedProp : Bytes}
    (htypes : PROPOSAL_TYPEHASH d.keccak256 ≠ UPDATE_PROPOSAL_TYPEHASH d.keccak256)
    (hkeccak : CollisionFree d.keccak256 (signatureHashes d expirationTimestamp encodedProp)) :
    CandidateData.signatureDigest d expirationTimestamp declared encodedProp =
        CandidateData.signatureDigest d expirationTimestamp declared' encodedProp ↔
      (declared = 0 ↔ declared' = 0) := by
  have hdiffer : sigDigest d.keccak256 d.chainid (PROPOSAL_TYPEHASH d.keccak256) encodedProp
        expirationTimestamp d.nounsDao ≠
      sigDigest d.keccak256 d.chainid (UPDATE_PROPOSAL_TYPEHASH d.keccak256) encodedProp
        expirationTimestamp d.nounsDao := by
    intro heq
    -- Equal digests come from equal strings, outermost first.
    have houter := hkeccak _ (by simp [signatureHashes]) _ (by simp [signatureHashes]) heq
    have hinner := append_word_inj houter
    have hstruct := hkeccak _ (by simp [signatureHashes]) _ (by simp [signatureHashes]) hinner.2
    have htype := List.append_inj_left (List.append_inj_left hstruct (by simp)) (by simp)
    exact htypes (Word.toBytes_injective htype)
  unfold CandidateData.signatureDigest
  by_cases hdeclared : declared = 0
  · by_cases hdeclared' : declared' = 0
    · simp [hdeclared, hdeclared']
    · simp [hdeclared, hdeclared', hdiffer]
  · by_cases hdeclared' : declared' = 0
    · simp [hdeclared, hdeclared', hdiffer.symm]
    · simp [hdeclared, hdeclared']

end

namespace Subgraph

/-! ## Stored signatures -/

variable {G : GraphTs} {log : List DataLogEvent} {e : DataLogEvent} {id : List Char}
  {s s' : CandidateStore}

/-- The event that a signature was stored from, and a version with the content it was stored with. -/
structure StoredFrom (G : GraphTs) (log : List DataLogEvent) (sg : ProposalCandidateSignature)
    (proposer : Address) (version : CandidateVersion) (expiry declared : Word) : Prop where
  added : ∃ e ∈ log, ∃ candidate slug reason, e.event = .SignatureAdded sg.signer sg.sig expiry
    candidate slug declared sg.encodedProposalHash sg.sigDigest reason
  posted : ∃ e ∈ log, ∃ message,
    e.posted? G = some ⟨proposer, version, sg.encodedProposalHash, message⟩
  content : sg.content = contentID G sg.encodedProposalHash
  expirationTimestamp : sg.expirationTimestamp = expiry.toNat

theorem StoredFrom.cons {sg : ProposalCandidateSignature} {proposer : Address}
    {version : CandidateVersion} {expiry declared : Word}
    (h : StoredFrom G log sg proposer version expiry declared) :
    StoredFrom G (e :: log) sg proposer version expiry declared := by
  obtain ⟨⟨e₁, he₁, hadded⟩, ⟨e₂, he₂, hposted⟩, hcontent, hexpiry⟩ := h
  exact ⟨⟨e₁, List.mem_cons_of_mem e he₁, hadded⟩, ⟨e₂, List.mem_cons_of_mem e he₂, hposted⟩,
    hcontent, hexpiry⟩

/-- Cancelling is all that happens to a stored signature. -/
theorem StoredFrom.cancel {sg : ProposalCandidateSignature} {proposer : Address}
    {version : CandidateVersion} {expiry declared : Word}
    (h : StoredFrom G log sg proposer version expiry declared) :
    StoredFrom G log { sg with canceled := true } proposer version expiry declared :=
  ⟨h.added, h.posted, h.content, h.expirationTimestamp⟩

def SignaturesStored (G : GraphTs) (log : List DataLogEvent) (s : CandidateStore) : Prop :=
  ∀ id sg, s.signatures.load id = some sg → id = signatureID G sg.signer sg.sig ∧
    ∃ proposer version expiry declared, StoredFrom G log sg proposer version expiry declared

namespace SignaturesStored

theorem cons (h : SignaturesStored G log s) (hsame : s'.signatures = s.signatures) :
    SignaturesStored G (e :: log) s' := by
  intro id sg hload
  rw [hsame] at hload
  obtain ⟨hid, proposer, version, expiry, declared, hstored⟩ := h id sg hload
  exact ⟨hid, proposer, version, expiry, declared, hstored.cons⟩

end SignaturesStored

theorem signatures_of_getOrCreate (s : CandidateStore) (id : List Char) :
    (s.getOrCreateProposalCandidate id).1.signatures = s.signatures := by
  unfold CandidateStore.getOrCreateProposalCandidate
  split <;> rfl

/-- Only `SignatureAdded` is about signatures. -/
theorem signatures_of_handleData (hquiet : ∀ signer sig expiry proposer slug declared hash digest
      reason, e.event ≠ .SignatureAdded signer sig expiry proposer slug declared hash digest reason)
    (hs : s.handleData G e = some s') : s'.signatures = s.signatures := by
  unfold CandidateStore.handleData at hs
  cases he : e.event with
  | ProposalCandidateCreated msgSender version hash =>
    rw [he] at hs
    rw [← Option.some.inj hs]
    exact signatures_of_getOrCreate s _
  | ProposalCandidateUpdated msgSender version hash reason =>
    rw [he] at hs
    obtain ⟨c, -, hs⟩ := Option.bind_eq_some_iff.mp hs
    rw [← Option.some.inj hs]
    exact signatures_of_getOrCreate s _
  | ProposalCandidateCanceled msgSender slug =>
    rw [he] at hs
    obtain ⟨c, -, hs⟩ := Option.bind_eq_some_iff.mp hs
    rw [← Option.some.inj hs]
    exact signatures_of_getOrCreate s _
  | SignatureAdded signer sig expiry proposer slug declared hash digest reason =>
    exact absurd he (hquiet _ _ _ _ _ _ _ _ _)
  | FeedbackSent | CandidateFeedbackSent =>
    rw [he] at hs
    rw [← Option.some.inj hs]
    rfl
  | CreateCandidateCostSet | UpdateCandidateCostSet | ETHWithdrawn | FeeRecipientSet
  | OwnershipTransferred =>
    rw [he] at hs
    rw [← Option.some.inj hs]

/-- A signature is about the content of the latest version, which is one that was posted. -/
theorem CandidatesMirrored.exists_signed (hmirrored : CandidatesMirrored G log s)
    (hordered : DataOrdered G (e :: log)) {signer proposer : Address} {sig slug reason : Bytes}
    {expiry declared hash digest : Word}
    (he : e.event = .SignatureAdded signer sig expiry proposer slug declared hash digest reason) :
    ∃ c v k, s.candidates.load (candidateID G proposer (G.decodeString slug)) = some c ∧
      s.versions.load c.latestVersion = some v ∧ s.contents.load v.content = some k ∧
      ∃ e' ∈ log, ∃ p, e'.posted? G = some p ∧ contentID G p.hash = v.content ∧
        k.unmatched = p.content G := by
  have hid : e.candidateID? G = some (candidateID G proposer (G.decodeString slug)) := by
    rw [DataLogEvent.candidateID?, he]
  have hcreation : e.isCreation = false := by
    rw [DataLogEvent.isCreation, he]
  obtain ⟨c, hc⟩ := exists_candidateOf (hordered.created hcreation hid)
  have hload := (hmirrored.candidates _).trans hc
  obtain ⟨v, k, hv, hk⟩ := hmirrored.exists_latest hload
  have hcontent : contentOf G log v.content = some k.unmatched := by
    rw [← hmirrored.contents, hk, Option.map_some]
  exact ⟨c, v, k, hload, hv, hk, contentOf_eq_some hcontent⟩

namespace SignaturesStored

theorem handleData (h : SignaturesStored G log s) (hmirrored : CandidatesMirrored G log s)
    (hordered : DataOrdered G (e :: log)) (hs : s.handleData G e = some s') :
    SignaturesStored G (e :: log) s' := by
  by_cases hadded : ∃ signer sig expiry proposer slug declared hash digest reason,
      e.event = .SignatureAdded signer sig expiry proposer slug declared hash digest reason
  · obtain ⟨signer, sig, expiry, proposer, slug, declared, hash, digest, reason, he⟩ := hadded
    obtain ⟨c, v, k, hload, hv, hk, e', he', p, hposted, hkid, hkp⟩ :=
      hmirrored.exists_signed hordered he
    rw [CandidateStore.handleData, he] at hs
    have hs' := (CandidateStore.handleSignatureAdded_eq hload hv hk).symm.trans hs
    by_cases hhash : k.encodedProposalHash = hash
    · rw [if_pos hhash] at hs'
      intro id sg hsg
      rw [← Option.some.inj hs'] at hsg
      have hp : p.hash = hash := (congrArg (·.encodedProposalHash) hkp).symm.trans hhash
      rw [show ((s.getOrCreateDelegate signer).1.saveSignature (signatureID G signer sig) _).signatures
        = s.signatures.save (signatureID G signer sig) _ from rfl, load_save] at hsg
      split at hsg
      · rename_i hsame
        rw [← Option.some.inj hsg]
        refine ⟨hsame, p.proposer, p.version, expiry, declared, ?_, ?_, ?_, rfl⟩
        · exact ⟨e, List.mem_cons_self, proposer, slug, reason, he⟩
        · refine ⟨e', List.mem_cons_of_mem e he', p.updateMessage, ?_⟩
          rw [hposted, ← hp]
        · show v.content = contentID G hash
          rw [← hkid, hp]
      · obtain ⟨hid, proposer, version, expiry, declared, hstored⟩ := h id sg hsg
        exact ⟨hid, proposer, version, expiry, declared, hstored.cons⟩
    · rw [if_neg hhash] at hs'
      rw [← Option.some.inj hs']
      exact h.cons rfl
  · apply h.cons
    apply signatures_of_handleData _ hs
    intro signer sig expiry proposer slug declared hash digest reason he
    exact hadded ⟨signer, sig, expiry, proposer, slug, declared, hash, digest, reason, he⟩

end SignaturesStored

/-- What marks contents leaves the signatures. -/
theorem signatures_of_mark {keccak256 : Bytes → Word} {proposalId : Nat} {isUpdate : Bool}
    (hs : s.markProposalCandidateIfExists G keccak256 proposalId isUpdate = some s') :
    s'.signatures = s.signatures := by
  simp only [CandidateStore.markProposalCandidateIfExists, Option.bind_eq_bind,
    Option.bind_eq_some_iff, Option.pure_def] at hs
  obtain ⟨proposal, -, text, -, hash, -, hs⟩ := hs
  split at hs
  · rw [← Option.some.inj hs]
  · rw [← Option.some.inj hs]
    rfl

/-- The DAO logs that this signature is cancelled. -/
def cancelsSignature (G : GraphTs) (id : List Char) : IndexedEvent → Prop
  | .record e => ∃ block signer sig, e.event = .dao block (.SignatureCancelled signer sig) ∧
      signatureID G signer sig = id
  | .data _ => False

variable {keccak256 : Bytes → Word}

theorem load_of_cancel (s : CandidateStore) (signer : Address) (sig : Bytes) (id : List Char) :
    (s.handleSignatureCanceled G signer sig).signatures.load id =
      if id = signatureID G signer sig then
        (s.signatures.load id).map fun sg => { sg with canceled := true }
      else s.signatures.load id := by
  unfold CandidateStore.handleSignatureCanceled
  by_cases hid : id = signatureID G signer sig
  · rw [if_pos hid, hid]
    cases hload : s.signatures.load (signatureID G signer sig) with
    | none => exact hload
    | some sg =>
      show (s.signatures.save _ _).load _ = _
      rw [load_save_self, Option.map_some]
  · rw [if_neg hid]
    split
    · rfl
    · exact load_save_ne hid

/-- What an event of the DAO or the token does to a signature. -/
theorem load_of_handleRecord {e : LogEvent} (hs : s.handleRecord G keccak256 e = some s')
    (id : List Char) :
    (cancelsSignature G id (.record e) →
      s'.signatures.load id = (s.signatures.load id).map fun sg => { sg with canceled := true }) ∧
    (¬ cancelsSignature G id (.record e) → s'.signatures.load id = s.signatures.load id) := by
  have hquiet (hsame : s'.signatures = s.signatures)
      (hevent : ∀ block signer sig, e.event ≠ .dao block (.SignatureCancelled signer sig)) :
      (cancelsSignature G id (.record e) →
        s'.signatures.load id = (s.signatures.load id).map fun sg => { sg with canceled := true }) ∧
      (¬ cancelsSignature G id (.record e) →
        s'.signatures.load id = s.signatures.load id) := by
    rw [hsame]
    refine ⟨?_, fun _ => rfl⟩
    rintro ⟨block, signer, sig, he, -⟩
    exact absurd he (hevent block signer sig)
  obtain ⟨records, hcases⟩ := CandidateStore.handleRecord_cases hs
  rcases hcases with ⟨⟨_, _, hmarked⟩, hevent⟩ | ⟨block, signer, sig, he, rfl⟩ | ⟨rfl, hevent⟩
  · have hsame : s'.signatures = ({ s with records } : CandidateStore).signatures :=
      signatures_of_mark hmarked
    exact hquiet hsame hevent
  · have hiff : cancelsSignature G id (.record e) ↔ id = signatureID G signer sig := by
      constructor
      · rintro ⟨_, _, _, he', rfl⟩
        simp only [he, RecordEvent.dao.injEq, DAOEvent.SignatureCancelled.injEq] at he'
        rw [he'.2.1, he'.2.2]
      · rintro rfl
        exact ⟨block, signer, sig, he, rfl⟩
    rw [hiff, load_of_cancel]
    exact ⟨fun hid => if_pos hid, fun hid => if_neg hid⟩
  · exact hquiet rfl hevent

/-- A signature that is stored again stays cancelled. -/
theorem signatures_cases (hs : s.handleData G e = some s') :
    s'.signatures = s.signatures ∨ ∃ id sg, s'.signatures = s.signatures.save id sg ∧
      sg.canceled = ((s.signatures.load id).map (·.canceled)).getD false := by
  by_cases hadded : ∃ signer sig expiry proposer slug declared hash digest reason,
      e.event = .SignatureAdded signer sig expiry proposer slug declared hash digest reason
  · obtain ⟨signer, sig, expiry, proposer, slug, declared, hash, digest, reason, he⟩ := hadded
    rw [CandidateStore.handleData, he] at hs
    simp only [CandidateStore.handleSignatureAdded, Option.bind_eq_bind, Option.bind_eq_some_iff,
      Option.pure_def] at hs
    obtain ⟨_, -, v, -, k, -, hs⟩ := hs
    split at hs
    · rw [← Option.some.inj hs]
      exact .inl (signatures_of_getOrCreate s _)
    · rw [← Option.some.inj hs]
      have hsave (sg : ProposalCandidateSignature) :
          (((s.getOrCreateProposalCandidate (candidateID G proposer
            (G.decodeString slug))).1.getOrCreateDelegate signer).1.saveSignature
              (signatureID G signer sig) sg).signatures =
            s.signatures.save (signatureID G signer sig) sg := by
        rw [← signatures_of_getOrCreate s (candidateID G proposer (G.decodeString slug))]
        rfl
      exact .inr ⟨_, _, hsave _, rfl⟩
  · left
    apply signatures_of_handleData _ hs
    intro signer sig expiry proposer slug declared hash digest reason he
    exact hadded ⟨signer, sig, expiry, proposer, slug, declared, hash, digest, reason, he⟩

/-! ## Cancelled signatures -/

/-- The DAO logged that the signature is cancelled when it was stored already. -/
def CancelledSinceStored (G : GraphTs) (keccak256 : Bytes → Word) (events : List IndexedEvent)
    (id : List Char) : Prop :=
  ∃ later e earlier s, events = later ++ e :: earlier ∧ cancelsSignature G id e ∧
    candidatesIndexed G keccak256 earlier = some s ∧ (s.signatures.load id).isSome = true

theorem stored_of_handle {event : IndexedEvent} (hs : s.handle G keccak256 event = some s')
    (hstored : (s.signatures.load id).isSome = true) : (s'.signatures.load id).isSome = true := by
  cases event with
  | record e =>
    obtain ⟨hcancels, hquiet⟩ := load_of_handleRecord hs id
    by_cases hevent : cancelsSignature G id (.record e)
    · rw [hcancels hevent, Option.isSome_map]
      exact hstored
    · rw [hquiet hevent]
      exact hstored
  | data e =>
    rcases signatures_cases hs with hsame | ⟨id', sg, hsave, -⟩
    · rw [hsame]
      exact hstored
    · rw [hsave, load_save]
      split
      · rfl
      · exact hstored

theorem stored_of_indexed {later earlier : List IndexedEvent}
    (hs : candidatesIndexed G keccak256 earlier = some s)
    (hs' : candidatesIndexed G keccak256 (later ++ earlier) = some s')
    (hstored : (s.signatures.load id).isSome = true) : (s'.signatures.load id).isSome = true := by
  induction later generalizing s' with
  | nil =>
    rw [← Option.some.inj (hs.symm.trans hs')]
    exact hstored
  | cons event later ih =>
    obtain ⟨s₁, hs₁, hhandle⟩ := Option.bind_eq_some_iff.mp hs'
    exact stored_of_handle hhandle (ih hs₁)

theorem cancelledSinceStored_cons {event : IndexedEvent} {events : List IndexedEvent}
    (hs : candidatesIndexed G keccak256 events = some s) :
    CancelledSinceStored G keccak256 (event :: events) id ↔
      (cancelsSignature G id event ∧ (s.signatures.load id).isSome = true) ∨
        CancelledSinceStored G keccak256 events id := by
  constructor
  · rintro ⟨later, e, earlier, s₀, hsplit, hcancels, hs₀, hstored⟩
    cases later with
    | nil =>
      obtain ⟨rfl, rfl⟩ := List.cons.inj hsplit
      rw [← Option.some.inj (hs₀.symm.trans hs)]
      exact .inl ⟨hcancels, hstored⟩
    | cons e' later =>
      exact .inr ⟨later, e, earlier, s₀, (List.cons.inj hsplit).2, hcancels, hs₀, hstored⟩
  · rintro (⟨hcancels, hstored⟩ | ⟨later, e, earlier, s₀, rfl, hcancels, hs₀, hstored⟩)
    · exact ⟨[], event, events, s, rfl, hcancels, hs, hstored⟩
    · exact ⟨event :: later, e, earlier, s₀, rfl, hcancels, hs₀, hstored⟩

theorem CancelledSinceStored.stored {events : List IndexedEvent}
    (h : CancelledSinceStored G keccak256 events id)
    (hs : candidatesIndexed G keccak256 events = some s) :
    (s.signatures.load id).isSome = true := by
  obtain ⟨later, e, earlier, s₀, rfl, -, hs₀, hstored⟩ := h
  have hall : candidatesIndexed G keccak256 (later ++ [e] ++ earlier) = some s := by
    rw [List.append_assoc]
    exact hs
  exact stored_of_indexed hs₀ hall hstored

theorem canceled_iff {events : List IndexedEvent} {sg : ProposalCandidateSignature}
    (hs : candidatesIndexed G keccak256 events = some s) (hload : s.signatures.load id = some sg) :
    sg.canceled = true ↔ CancelledSinceStored G keccak256 events id := by
  induction events generalizing s sg with
  | nil =>
    rw [← Option.some.inj hs] at hload
    cases hload
  | cons event events ih =>
    obtain ⟨s₁, hs₁, hhandle⟩ := Option.bind_eq_some_iff.mp hs
    rw [cancelledSinceStored_cons hs₁]
    cases event with
    | record e =>
      obtain ⟨hcancels, hquiet⟩ := load_of_handleRecord hhandle id
      by_cases hevent : cancelsSignature G id (.record e)
      · rw [hcancels hevent] at hload
        obtain ⟨sg₁, hsg₁, rfl⟩ := Option.map_eq_some_iff.mp hload
        simp [hevent, hsg₁]
      · rw [hquiet hevent] at hload
        rw [ih hs₁ hload]
        simp [hevent]
    | data e =>
      have hnever : ¬ cancelsSignature G id (.data e) := fun h => h
      simp only [hnever, false_and, false_or]
      rcases signatures_cases hhandle with hsame | ⟨id', sg', hsave, hcanceled⟩
      · rw [hsame] at hload
        exact ih hs₁ hload
      · rw [hsave, load_save] at hload
        split at hload
        · rename_i hid
          rw [← Option.some.inj hload, hcanceled, ← hid]
          cases hload₁ : s₁.signatures.load id with
          | none =>
            -- What is not stored yet was not cancelled since.
            have hnot : ¬ CancelledSinceStored G keccak256 events id := by
              intro hsince
              have hstored := hsince.stored hs₁
              rw [hload₁] at hstored
              cases hstored
            simp [hnot]
          | some sg₁ =>
            rw [Option.map_some, Option.getD_some]
            exact ih hs₁ hload₁
        · exact ih hs₁ hload

/-! ## What the DAO makes of an indexed signature -/

/-- The hash that a version is posted with is that of its content. -/
theorem posted_sound {d : DataDeployment} {A : DataCalls} {p : PostedVersion}
    (h : e.event.Sound d A) (hposted : e.posted? G = some p) :
    p.hash = d.keccak256 (p.version.encodedProp d.keccak256 p.proposer) ∧
      A.hashed (p.version.encodedProp d.keccak256 p.proposer) := by
  unfold DataLogEvent.posted? at hposted
  split at hposted
  · rename_i he
    rw [he] at h
    rw [← Option.some.inj hposted]
    exact h
  · rename_i he
    rw [he] at h
    rw [← Option.some.inj hposted]
    exact h
  · cases hposted

theorem SignaturesStored.of_indexed (hG : G.Documented) {events : List IndexedEvent}
    (hordered : DataOrdered G (dataEvents events))
    (hs : candidatesIndexed G keccak256 events = some s) :
    SignaturesStored G (dataEvents events) s := by
  induction events generalizing s with
  | nil =>
    rw [← Option.some.inj hs]
    intro id sg hload
    cases hload
  | cons event events ih =>
    obtain ⟨s₁, hs₁, hhandle⟩ := Option.bind_eq_some_iff.mp hs
    cases event with
    | record e =>
      intro id sg hload
      obtain ⟨hcancels, hquiet⟩ := load_of_handleRecord hhandle id
      by_cases hevent : cancelsSignature G id (.record e)
      · rw [hcancels hevent] at hload
        obtain ⟨sg₁, hsg₁, rfl⟩ := Option.map_eq_some_iff.mp hload
        obtain ⟨hid, proposer, version, expiry, declared, hstored⟩ := ih hordered hs₁ id sg₁ hsg₁
        exact ⟨hid, proposer, version, expiry, declared, hstored.cancel⟩
      · rw [hquiet hevent] at hload
        exact ih hordered hs₁ id sg hload
    | data e =>
      exact (ih hordered.2 hs₁).handleData (.of_indexed hG hordered.2 hs₁) hordered hhandle

/-- The check of `proposeBySigs` and `updateProposalBySigs`, on the digest that was signed. -/
theorem verifyProposalSignature_ok_iff {ds : StorageV3 Word} {env : Env Word}
    {message : Nat → Preimage} {sg : ProposerSignature} {digest : Word}
    (hdigest : env.crypto.keccak256 (message sg.expirationTimestamp) = digest) :
    ds.verifyProposalSignature env message sg = .ok () ↔
      ds.cancelledSigs sg.signer (env.crypto.keccak256 (.signature sg.sig)) = false ∧
      env.outside.isValidSignatureNow sg.signer digest sg.sig = true ∧
      env.timestamp ≤ sg.expirationTimestamp := by
  simp only [StorageV3.verifyProposalSignature, bind_eq_ok, revertIf_eq_ok, hdigest,
    Bool.not_eq_true, Bool.not_eq_false, gt_iff_lt, not_lt]
  constructor
  · rintro ⟨_, hcancelled, _, hvalid, hexpired⟩
    exact ⟨hcancelled, hvalid, hexpired⟩
  · rintro ⟨hcancelled, hvalid, hexpired⟩
    exact ⟨(), hcancelled, (), hvalid, hexpired⟩

/-- A signature is stored with an indexed content, under which its signer made it.  It is shown as
cancelled exactly if the DAO logged so since it was first stored.  It is on the digest that the DAO
checks for the content exactly if its signer declared a new proposal for a new proposal and an update
for an update, and the DAO then accepts it if it is not cancelled or expired and its signer still stands
by it. -/
theorem indexed_signature_verifies {d : DataDeployment} {A : DataCalls} {c : CandidateData}
    (hr : Reachable CandidateData.Init
      (CandidateData.Next d (CandidateData.Allowed d A (Postings.Settled d))) c)
    (hG : G.Documented) {events : List IndexedEvent}
    (hlog : (dataEvents events).map (·.event) = c.log) (hslugs : SlugsRead G d.keccak256 c.log)
    (htypes : PROPOSAL_TYPEHASH d.keccak256 ≠ UPDATE_PROPOSAL_TYPEHASH d.keccak256)
    (hkeccak : ∀ b b', A.hashed b → A.hashed b' → d.keccak256 b = d.keccak256 b' → b = b')
    (hs : candidatesIndexed G d.keccak256 events = some s) {sg : ProposalCandidateSignature}
    (hload : s.signatures.load id = some sg) :
    A.valid sg.signer sg.sigDigest sg.sig ∧
    (sg.canceled = true ↔ CancelledSinceStored G d.keccak256 events id) ∧
    ∃ k version expiry declared,
      s.contents.load sg.content = some k ∧
      k.unmatched = (PostedVersion.mk k.proposer version sg.encodedProposalHash "").content G ∧
      sg.expirationTimestamp = expiry.toNat ∧
      (∃ candidate slug reason, DataEvent.SignatureAdded sg.signer sg.sig expiry candidate slug declared
        sg.encodedProposalHash sg.sigDigest reason ∈ c.log) ∧
      ((version.message k.proposer expiry).digest d.keccak256 d.chainid d.nounsDao = sg.sigDigest ↔
        (declared = 0 ↔ version.proposalIdToUpdate = 0)) ∧
      ((declared = 0 ↔ version.proposalIdToUpdate = 0) →
        ∀ (ds : StorageV3 Word) (env : Env Word) (message : Nat → Preimage),
          (∀ p m, p.message = some m →
            env.crypto.keccak256 p = m.digest d.keccak256 d.chainid d.nounsDao) →
          (message sg.expirationTimestamp).message = some (version.message k.proposer expiry) →
          (ds.verifyProposalSignature env message ⟨sg.sig, sg.signer, sg.expirationTimestamp⟩ =
              .ok () ↔
            ds.cancelledSigs sg.signer (env.crypto.keccak256 (.signature sg.sig)) = false ∧
            env.outside.isValidSignatureNow sg.signer sg.sigDigest sg.sig = true ∧
            env.timestamp ≤ sg.expirationTimestamp)) := by
  have hordered : DataOrdered G (dataEvents events) := by
    apply dataOrdered_of_log hG
    · rw [hlog]
      exact (CandidateData.ordered hr).log
    · rw [hlog]
      exact hslugs
  have hmirrored := CandidatesMirrored.of_indexed hG hordered hs
  have hsound := (CandidateData.counted hr).sound
  obtain ⟨-, _, _, expiry, declared, hstored⟩ := SignaturesStored.of_indexed hG hordered hs id sg hload
  obtain ⟨⟨e, he, candidate, slug, reason, hadded⟩, ⟨e₀, he₀, message₀, hposted₀⟩, hcontent,
    hexpiry⟩ := hstored
  -- The signature as the contract for candidates checked it.
  have hmem : DataEvent.SignatureAdded sg.signer sg.sig expiry candidate slug declared
      sg.encodedProposalHash sg.sigDigest reason ∈ c.log := by
    rw [← hlog, ← hadded]
    exact List.mem_map_of_mem he
  obtain ⟨hvalid, encodedProp, hhash, hdigest, hhashed⟩ := hsound _ hmem
  -- The content as the index has it, which an event posted with the same hash.
  obtain ⟨k₀, hk₀⟩ := exists_contentOf he₀ hposted₀
  rw [← hmirrored.contents, Option.map_eq_some_iff] at hk₀
  obtain ⟨k, hk, -⟩ := hk₀
  have hkof : contentOf G (dataEvents events) (contentID G sg.encodedProposalHash) =
      some k.unmatched := by
    rw [← hmirrored.contents, hk, Option.map_some]
  obtain ⟨e₁, he₁, p, hposted, hpid, hkp⟩ := contentOf_eq_some hkof
  have hphash : p.hash = sg.encodedProposalHash := contentID_inj hG hpid
  have hkproposer : k.proposer = p.proposer := congrArg (·.proposer) hkp
  have hencoded : encodedProp = p.version.encodedProp d.keccak256 p.proposer := by
    have hmem₁ : e₁.event ∈ c.log := by
      rw [← hlog]
      exact List.mem_map_of_mem he₁
    obtain ⟨hhash₁, hhashed₁⟩ := posted_sound (hsound _ hmem₁) hposted
    apply hkeccak _ _ (hhashed _ List.mem_cons_self) hhashed₁
    rw [← hhash, ← hhash₁, hphash]
  have hiff : (p.version.message k.proposer expiry).digest d.keccak256 d.chainid d.nounsDao =
      sg.sigDigest ↔ (declared = 0 ↔ p.version.proposalIdToUpdate = 0) := by
    rw [p.version.digest_message, hdigest, hkproposer, ← hencoded, signatureDigest_eq_iff htypes]
    · exact iff_comm
    · intro b hb b' hb'
      exact hkeccak b b' (hhashed b hb) (hhashed b' hb')
  refine ⟨hvalid, canceled_iff hs hload, k, p.version, expiry, declared, ?_, ?_, hexpiry,
    ⟨candidate, slug, reason, hmem⟩, hiff, ?_⟩
  · rw [hcontent]
    exact hk
  · rw [hkp, hkproposer, ← hphash]
    rfl
  · intro hsame ds env message hcrypto hmessage
    apply verifyProposalSignature_ok_iff
    rw [hcrypto _ _ hmessage]
    exact hiff.mpr hsame

/-! ## A signature on the candidate of `sampleEvents` -/

/-- A log that is ordered is indexed to its end. -/
theorem CandidatesMirrored.exists_indexed (hG : G.Documented) (hordered : DataOrdered G log) :
    ∃ s, candidatesIndexed G keccak256 (log.map .data) = some s ∧ CandidatesMirrored G log s := by
  induction log with
  | nil => exact ⟨CandidateStore.empty, rfl, .empty⟩
  | cons e log ih =>
    obtain ⟨s, hs, hmirrored⟩ := ih hordered.2
    obtain ⟨s', hs', hmirrored'⟩ := hmirrored.handleData hG hordered
    refine ⟨s', ?_, hmirrored'⟩
    rw [List.map_cons, candidatesIndexed, hs]
    exact hs'

/-- A signature under the only content there is is stored. -/
theorem exists_stored (hmirrored : CandidatesMirrored G log s) (hordered : DataOrdered G (e :: log))
    {signer proposer : Address} {sig slug reason : Bytes} {expiry declared hash digest : Word}
    (he : e.event = .SignatureAdded signer sig expiry proposer slug declared hash digest reason)
    (honly : ∀ e' ∈ log, ∀ p, e'.posted? G = some p → p.hash = hash)
    (hs : s.handleData G e = some s') :
    ∃ sg, s'.signatures.load (signatureID G signer sig) = some sg := by
  obtain ⟨c, v, k, hload, hv, hk, e', he', p, hposted, -, hkp⟩ :=
    hmirrored.exists_signed hordered he
  have hhash : k.encodedProposalHash = hash :=
    (congrArg (·.encodedProposalHash) hkp).trans (honly e' he' p hposted)
  rw [CandidateStore.handleData, he] at hs
  have hs' := (CandidateStore.handleSignatureAdded_eq hload hv hk).symm.trans hs
  rw [if_pos hhash] at hs'
  rw [← Option.some.inj hs']
  exact ⟨_, load_save_self⟩

/-- Account 8 signs with one byte. -/
def signingEnv : DataEnv :=
  { CandidateData.sampleEnv with isValidSignatureNow := fun signer _ sig => signer = 8 ∧ sig = [8] }

def sampleEncodedProp : Bytes :=
  CandidateData.sampleVersion.encodedProp CandidateData.sampleDeployment.keccak256 7

def signingCalls : DataCalls where
  valid := fun signer _ sig => signer = 8 ∧ sig = [8]
  hashed := fun b => b ∈ signatureHashes CandidateData.sampleDeployment 100 sampleEncodedProp

def sampleSignatureAdded : DataEvent :=
  .SignatureAdded 8 [8] 100 7 [115] 0 (CandidateData.sampleDeployment.keccak256 sampleEncodedProp)
    (CandidateData.signatureDigest CandidateData.sampleDeployment 100 0 sampleEncodedProp) []

def signedEvents : List IndexedEvent := .data ⟨3, 0, sampleBlock, sampleSignatureAdded⟩ :: sampleEvents

theorem sampleSigned_reachable :
    Reachable CandidateData.Init
      (CandidateData.Next CandidateData.sampleDeployment (CandidateData.Allowed
        CandidateData.sampleDeployment signingCalls (Postings.Settled CandidateData.sampleDeployment)))
      (CandidateData.sampleCreated.emit sampleSignatureAdded) := by
  have hcreated : Reachable CandidateData.Init
      (CandidateData.Next CandidateData.sampleDeployment (CandidateData.Allowed
        CandidateData.sampleDeployment signingCalls (Postings.Settled CandidateData.sampleDeployment)))
      CandidateData.sampleCreated := by
    apply CandidateData.reachable_mono _ _ CandidateData.sampleCreated_reachable
    · intro signer digest sig hvalid
      exact hvalid.elim
    · intro b hb
      exact List.mem_cons.mpr (.inl hb)
  apply hcreated.step
  refine ⟨.call signingEnv ⟨8, Address.eight_ne_zero⟩
    (.addSignature [8] 100 7 [115] 0 sampleEncodedProp []), ⟨?_, ?_, ?_⟩, rfl⟩
  · intro signer digest sig hvalid
    show signer = 8 ∧ sig = [8]
    exact of_decide_eq_true hvalid
  · exact fun b hb => hb
  · intro k _ f hf
    exact absurd hf List.not_mem_nil

theorem sampleSigned_slugs : SlugsRead ProposalContent.sampleGraphTs
    CandidateData.sampleDeployment.keccak256
    (CandidateData.sampleCreated.emit sampleSignatureAdded).log := by
  have hslugs : slugs (CandidateData.sampleCreated.emit sampleSignatureAdded).log =
      List.replicate 2 [115] := rfl
  constructor
  · rw [hslugs]
    intro b hb b' hb' _
    rw [List.eq_of_mem_replicate hb, List.eq_of_mem_replicate hb']
  · rw [hslugs]
    intro b hb
    rw [List.eq_of_mem_replicate hb]
    exact ProposalContent.isUtf8_bytesOfString "s"

theorem signedEvents_indexed :
    ∃ s sg, candidatesIndexed ProposalContent.sampleGraphTs CandidateData.sampleDeployment.keccak256
        signedEvents = some s ∧
      s.signatures.load (signatureID ProposalContent.sampleGraphTs 8 [8]) = some sg := by
  have hG := ProposalContent.sampleGraphTs_documented
  have hordered : DataOrdered ProposalContent.sampleGraphTs (dataEvents signedEvents) :=
    dataOrdered_of_log hG (CandidateData.ordered sampleSigned_reachable).log sampleSigned_slugs
  obtain ⟨s, hs, hmirrored⟩ : ∃ s, candidatesIndexed ProposalContent.sampleGraphTs
      CandidateData.sampleDeployment.keccak256 sampleEvents = some s ∧
      CandidatesMirrored ProposalContent.sampleGraphTs (dataEvents sampleEvents) s :=
    CandidatesMirrored.exists_indexed hG hordered.2
  have hposted : ∀ e ∈ dataEvents sampleEvents, ∀ p,
      e.posted? ProposalContent.sampleGraphTs = some p →
        p.hash = CandidateData.sampleDeployment.keccak256 sampleEncodedProp := by
    intro e he p hp
    rcases List.mem_cons.mp he with rfl | he
    · unfold sampleEncodedProp
      rw [← Option.some.inj hp]
    · rw [List.mem_singleton.mp he] at hp
      cases hp
  obtain ⟨s', hs', -⟩ := hmirrored.handleData hG hordered
  obtain ⟨sg, hload⟩ := exists_stored hmirrored hordered rfl hposted hs'
  refine ⟨s', sg, ?_, hload⟩
  rw [signedEvents, candidatesIndexed, hs]
  exact hs'

theorem indexed_signature_verifies_signed :
    ∃ s sg, candidatesIndexed ProposalContent.sampleGraphTs CandidateData.sampleDeployment.keccak256
        signedEvents = some s ∧
      s.signatures.load (signatureID ProposalContent.sampleGraphTs 8 [8]) = some sg ∧
      signingCalls.valid sg.signer sg.sigDigest sg.sig := by
  have htypes : PROPOSAL_TYPEHASH CandidateData.sampleDeployment.keccak256 ≠
      UPDATE_PROPOSAL_TYPEHASH CandidateData.sampleDeployment.keccak256 := by
    decide +kernel
  have hkeccak : CollisionFree CandidateData.sampleDeployment.keccak256
      (signatureHashes CandidateData.sampleDeployment 100 sampleEncodedProp) := by
    unfold CollisionFree
    decide +kernel
  obtain ⟨s, sg, hs, hload⟩ := signedEvents_indexed
  exact ⟨s, sg, hs, hload, (indexed_signature_verifies sampleSigned_reachable
    ProposalContent.sampleGraphTs_documented rfl sampleSigned_slugs htypes
    (fun b b' hb hb' => hkeccak b hb b' hb') hs hload).1⟩

end Subgraph

end Nouns
