import Nouns.Subgraph.Candidates

/-!
# CandidateMirror — the indexed candidates

`candidateOf`, `versionOf` and `contentOf` read the entities off the log, of which the latest event
comes first: `find?` is the latest event of a kind.  The handlers keep up with them if a candidate is
created before anything else is posted about it.  That is so for the log of the contract while nobody
acts on a candidate whose creation is being paid for.
-/

open EntityStore EntityStore.Table Transition

namespace Nouns.Subgraph

/-! ## What the log says -/

/-- A version of a candidate, as an event posts it. -/
structure PostedVersion where
  proposer : Address
  version : CandidateVersion
  hash : Word
  updateMessage : String

section

variable (G : GraphTs)

namespace PostedVersion

def candidateId (p : PostedVersion) : List Char :=
  candidateID G p.proposer (G.decodeString p.version.slug)

def content (p : PostedVersion) : ProposalCandidateContent where
  toProposalTxs := readTxs G p.version.txs
  description := G.decodeString p.version.description
  proposalIdToUpdate := p.version.proposalIdToUpdate.toNat
  title := extractTitle (G.decodeString p.version.description)
  proposer := p.proposer
  encodedProposalHash := p.hash
  matchingProposalIds := []

end PostedVersion

namespace DataLogEvent

/-- The candidate that the event is about. -/
def candidateID? (e : DataLogEvent) : Option (List Char) :=
  match e.event with
  | .ProposalCandidateCreated msgSender version _ =>
      some (candidateID G msgSender (G.decodeString version.slug))
  | .ProposalCandidateUpdated msgSender version _ _ =>
      some (candidateID G msgSender (G.decodeString version.slug))
  | .ProposalCandidateCanceled msgSender slug =>
      some (candidateID G msgSender (G.decodeString slug))
  | .SignatureAdded _ _ _ proposer slug _ _ _ _ =>
      some (candidateID G proposer (G.decodeString slug))
  | .CandidateFeedbackSent _ proposer slug _ _ =>
      some (candidateID G proposer (G.decodeString slug))
  | _ => none

def isCreation (e : DataLogEvent) : Bool :=
  match e.event with
  | .ProposalCandidateCreated .. => true
  | _ => false

def isCancellation (e : DataLogEvent) : Bool :=
  match e.event with
  | .ProposalCandidateCanceled .. => true
  | _ => false

def posted? (e : DataLogEvent) : Option PostedVersion :=
  match e.event with
  | .ProposalCandidateCreated msgSender version hash => some ⟨msgSender, version, hash, ""⟩
  | .ProposalCandidateUpdated msgSender version hash reason =>
      some ⟨msgSender, version, hash, G.decodeString reason⟩
  | _ => none

/-- Of this candidate. -/
def creates (id : List Char) (e : DataLogEvent) : Bool :=
  e.isCreation && decide (e.candidateID? G = some id)

def captures (id : List Char) (e : DataLogEvent) : Bool :=
  (e.posted? G).isSome && decide (e.candidateID? G = some id)

def cancels (id : List Char) (e : DataLogEvent) : Bool :=
  e.isCancellation && decide (e.candidateID? G = some id)

end DataLogEvent

variable (log : List DataLogEvent) (id : List Char)

/-- How many candidates there were when this one had just been created. -/
def numberOf : Nat := (log.dropWhile (fun e => !e.creates G id)).countP (·.isCreation)

/-- The entity of a candidate. -/
def candidateOf : Option ProposalCandidate := do
  let creation ← log.find? (·.creates G id)
  let latest ← log.find? (·.captures G id)
  let cancellation := log.find? (·.cancels G id)
  let posted ← creation.posted? G
  return { proposer := posted.proposer
           slug := G.decodeString posted.version.slug
           createdTransactionHash := creation.txHash
           createdTimestamp := creation.block.timestamp
           createdBlock := creation.block.number
           lastUpdatedTimestamp := latest.block.timestamp
           lastUpdatedBlock := latest.block.number
           canceled := cancellation.isSome
           canceledTimestamp := cancellation.map (·.block.timestamp)
           canceledBlock := cancellation.map (·.block.number)
           latestVersion := latest.versionId G
           number := numberOf G log id }

/-- The entity of a version. -/
def versionOf : Option ProposalCandidateVersion :=
  log.findSome? fun e => (e.posted? G).bind fun p =>
    if e.versionId G = id then
      some { content := contentID G p.hash
             proposal := p.candidateId G
             createdTimestamp := e.block.timestamp
             createdBlock := e.block.number
             updateMessage := p.updateMessage }
    else none

/-- The entity of a content, without the proposals that match it. -/
def contentOf : Option ProposalCandidateContent :=
  log.findSome? fun e => (e.posted? G).bind fun p =>
    if contentID G p.hash = id then some (p.content G) else none

/-- An event creates its candidate exactly if it is the first about it. -/
def DataOrdered : List DataLogEvent → Prop
  | [] => True
  | e :: log => (∀ id, e.candidateID? G = some id →
      (e.creates G id = true ↔ ∀ e' ∈ log, e'.candidateID? G ≠ some id)) ∧ DataOrdered log

end

/-- The events of the contract for candidates. -/
def dataEvents (events : List IndexedEvent) : List DataLogEvent :=
  events.filterMap fun
    | .data e => some e
    | .record _ => none

/-- Without the proposals that match it. -/
def ProposalCandidateContent.unmatched (c : ProposalCandidateContent) : ProposalCandidateContent :=
  { c with matchingProposalIds := [] }

structure CandidatesMirrored (G : GraphTs) (log : List DataLogEvent) (s : CandidateStore) : Prop where
  count : s.candidateCount = log.countP (·.isCreation)
  candidates : ∀ id, s.candidates.load id = candidateOf G log id
  versions : ∀ id, s.versions.load id = versionOf G log id
  contents : ∀ id, (s.contents.load id).map (·.unmatched) = contentOf G log id

/-! ## One more event -/

variable {G : GraphTs} {log : List DataLogEvent} {e : DataLogEvent} {id : List Char}

theorem DataLogEvent.candidateID?_of_posted {p : PostedVersion} (h : e.posted? G = some p) :
    e.candidateID? G = some (p.candidateId G) := by
  unfold posted? at h
  unfold candidateID?
  split at h
  · rename_i heq
    rw [← Option.some.inj h, heq]
    rfl
  · rename_i heq
    rw [← Option.some.inj h, heq]
    rfl
  · cases h

theorem candidateOf_cons_of_ne (h : e.candidateID? G ≠ some id) :
    candidateOf G (e :: log) id = candidateOf G log id := by
  have hcreates : e.creates G id = false := by simp [DataLogEvent.creates, h]
  have hcaptures : e.captures G id = false := by simp [DataLogEvent.captures, h]
  have hcancels : e.cancels G id = false := by simp [DataLogEvent.cancels, h]
  have hnumber : numberOf G (e :: log) id = numberOf G log id := by
    unfold numberOf
    rw [List.dropWhile_cons_of_pos (by simp [hcreates])]
  unfold candidateOf
  rw [List.find?_cons_of_neg (by simp [hcreates]), List.find?_cons_of_neg (by simp [hcaptures]),
    List.find?_cons_of_neg (by simp [hcancels]), hnumber]

/-- An event that posts no version leaves the versions and contents. -/
theorem versionOf_cons_of_none (h : e.posted? G = none) :
    versionOf G (e :: log) id = versionOf G log id := by
  unfold versionOf
  rw [List.findSome?_cons, h]
  rfl

theorem contentOf_cons_of_none (h : e.posted? G = none) :
    contentOf G (e :: log) id = contentOf G log id := by
  unfold contentOf
  rw [List.findSome?_cons, h]
  rfl

theorem versionOf_cons_of_some {p : PostedVersion} (h : e.posted? G = some p) :
    versionOf G (e :: log) id = if id = e.versionId G then
      some { content := contentID G p.hash
             proposal := p.candidateId G
             createdTimestamp := e.block.timestamp
             createdBlock := e.block.number
             updateMessage := p.updateMessage }
      else versionOf G log id := by
  unfold versionOf
  rw [List.findSome?_cons, h]
  by_cases hid : id = e.versionId G
  · simp [hid]
  · simp [hid, Ne.symm hid]

theorem contentOf_cons_of_some {p : PostedVersion} (h : e.posted? G = some p) :
    contentOf G (e :: log) id =
      if id = contentID G p.hash then some (p.content G) else contentOf G log id := by
  unfold contentOf
  rw [List.findSome?_cons, h]
  by_cases hid : id = contentID G p.hash
  · simp [hid]
  · simp [hid, Ne.symm hid]

/-- What is ordered starts with the creation. -/
theorem DataOrdered.exists_creation (h : DataOrdered G log) {e' : DataLogEvent} (he' : e' ∈ log)
    (hid : e'.candidateID? G = some id) : ∃ e ∈ log, e.creates G id = true := by
  induction log generalizing e' with
  | nil => exact absurd he' List.not_mem_nil
  | cons e log ih =>
    obtain ⟨hfirst, hlog⟩ := h
    by_cases hsome : ∃ e'' ∈ log, e''.candidateID? G = some id
    · obtain ⟨e'', he'', hid''⟩ := hsome
      obtain ⟨creation, hmem, hcreates⟩ := ih hlog he'' hid''
      exact ⟨creation, List.mem_cons_of_mem e hmem, hcreates⟩
    · -- The event itself is the first about the candidate.
      have hnone : ∀ e'' ∈ log, e''.candidateID? G ≠ some id :=
        fun e'' he'' hid'' => hsome ⟨e'', he'', hid''⟩
      rcases List.mem_cons.mp he' with rfl | he'
      · exact ⟨e', List.mem_cons_self, (hfirst id hid).mpr hnone⟩
      · exact absurd hid (hnone e' he')

/-- What is not the creation of its candidate comes after it. -/
theorem DataOrdered.created (h : DataOrdered G (e :: log)) (hcreation : e.isCreation = false)
    (hid : e.candidateID? G = some id) : ∃ e' ∈ log, e'.creates G id = true := by
  obtain ⟨hfirst, hlog⟩ := h
  have hnew : e.creates G id = false := by simp [DataLogEvent.creates, hcreation]
  by_cases hsome : ∃ e' ∈ log, e'.candidateID? G = some id
  · obtain ⟨e', he', hid'⟩ := hsome
    exact hlog.exists_creation he' hid'
  · have hcreates := (hfirst id hid).mpr fun e' he' hid' => hsome ⟨e', he', hid'⟩
    rw [hnew] at hcreates
    cases hcreates

/-! ## The entity of a candidate -/

theorem bytesToHex_inj (hG : G.Documented) {bytes bytes' : Bytes}
    (h : G.bytesToHex bytes = G.bytesToHex bytes') :
    Words.numberOf bytes = Words.numberOf bytes' ∧ bytes.length = bytes'.length := by
  rw [hG.bytesToHex_eq, hG.bytesToHex_eq] at h
  have hdigits : Hex.digitsOf bytes = Hex.digitsOf bytes' := (List.cons.inj (List.cons.inj h).2).2
  have hread := congrArg Hex.read hdigits
  have hlength := congrArg List.length hdigits
  rw [Hex.read_digitsOf, Hex.read_digitsOf, Option.some.injEq] at hread
  rw [Hex.length_digitsOf, Hex.length_digitsOf] at hlength
  exact ⟨hread, by omega⟩

theorem addressHex_inj (hG : G.Documented) {a a' : Address}
    (h : G.bytesToHex (ProposalContent.addressBytes a) =
      G.bytesToHex (ProposalContent.addressBytes a')) : a = a' := by
  have hnumber := (bytesToHex_inj hG h).1
  rw [ProposalContent.numberOf_addressBytes, ProposalContent.numberOf_addressBytes] at hnumber
  exact Fin.ext hnumber

theorem length_addressHex (hG : G.Documented) (a : Address) :
    (G.bytesToHex (ProposalContent.addressBytes a)).length = 42 := by
  rw [hG.bytesToHex_eq, List.length_cons, List.length_cons, Hex.length_digitsOf,
    ProposalContent.addressBytes, Words.length_bytesOf]

/-- Addresses have one length, so that slugs do not run into them. -/
theorem candidateID_inj (hG : G.Documented) {proposer proposer' : Address} {slug slug' : String}
    (h : candidateID G proposer slug = candidateID G proposer' slug') :
    proposer = proposer' ∧ slug = slug' := by
  have hlength := (length_addressHex hG proposer).trans (length_addressHex hG proposer').symm
  obtain ⟨hhex, htail⟩ := List.append_inj h hlength
  exact ⟨addressHex_inj hG hhex, String.toList_injective (List.cons.inj htail).2⟩

theorem contentID_inj (hG : G.Documented) {hash hash' : Word}
    (h : contentID G hash = contentID G hash') : hash = hash' := by
  have hnumber := (bytesToHex_inj hG h).1
  have hword (w : Word) : Words.numberOf w.toBytes = w.toNat := by
    rw [Word.toBytes, Words.numberOf_bytesOf, Nat.mod_eq_of_lt (w.toNat_lt.trans_eq (by norm_num))]
  rw [hword, hword] at hnumber
  exact Fin.ext hnumber

theorem DataLogEvent.captures_of_creates (h : e.creates G id = true) :
    e.captures G id = true ∧ ∃ p, e.posted? G = some p ∧ p.candidateId G = id := by
  simp only [creates, isCreation, Bool.and_eq_true, decide_eq_true_eq] at h
  obtain ⟨hcreation, hid⟩ := h
  split at hcreation
  · rename_i msgSender version hash heq
    have hposted : e.posted? G = some ⟨msgSender, version, hash, ""⟩ := by
      rw [posted?, heq]
    refine ⟨by simp [captures, hposted, hid], _, hposted, ?_⟩
    exact Option.some.inj ((candidateID?_of_posted hposted).symm.trans hid)
  · cases hcreation

/-- The events that the entity is made of. -/
theorem candidateOf_eq_some {c : ProposalCandidate} (h : candidateOf G log id = some c) :
    ∃ creation latest posted, log.find? (·.creates G id) = some creation ∧
      log.find? (·.captures G id) = some latest ∧ creation.posted? G = some posted ∧
      posted.candidateId G = id ∧ c.proposer = posted.proposer ∧
      c.slug = G.decodeString posted.version.slug := by
  simp only [candidateOf, Option.bind_eq_bind, Option.bind_eq_some_iff, Option.pure_def,
    Option.some.injEq] at h
  obtain ⟨creation, hcreation, latest, hlatest, posted, hposted, rfl⟩ := h
  obtain ⟨p, hp, hid⟩ := (DataLogEvent.captures_of_creates (List.find?_some hcreation)).2
  have heq : p = posted := Option.some.inj (hp.symm.trans hposted)
  exact ⟨creation, latest, posted, hcreation, hlatest, hposted, heq ▸ hid, rfl, rfl⟩

theorem proposer_of_candidateOf (hG : G.Documented) {proposer : Address} {slug : String}
    {c : ProposalCandidate} (h : candidateOf G log (candidateID G proposer slug) = some c) :
    c.proposer = proposer := by
  obtain ⟨_, _, posted, -, -, -, hid, hproposer, -⟩ := candidateOf_eq_some h
  rw [hproposer]
  exact (candidateID_inj hG hid).1

theorem candidateOf_eq_none (h : ∀ e ∈ log, e.candidateID? G ≠ some id) :
    candidateOf G log id = none := by
  have hcreation : log.find? (·.creates G id) = none := by
    apply List.find?_eq_none.mpr
    intro e he
    simp [DataLogEvent.creates, h e he]
  rw [candidateOf, hcreation]
  rfl

theorem exists_candidateOf (h : ∃ e ∈ log, e.creates G id = true) :
    ∃ c, candidateOf G log id = some c := by
  obtain ⟨e, he, hcreates⟩ := h
  obtain ⟨creation, hcreation⟩ := Option.isSome_iff_exists.mp
    (List.find?_isSome.mpr ⟨e, he, hcreates⟩)
  have hcaptures := (DataLogEvent.captures_of_creates hcreates).1
  obtain ⟨latest, hlatest⟩ := Option.isSome_iff_exists.mp
    (List.find?_isSome.mpr ⟨e, he, hcaptures⟩)
  obtain ⟨-, posted, hposted, -⟩ :=
    DataLogEvent.captures_of_creates (List.find?_some hcreation)
  apply Option.isSome_iff_exists.mp
  rw [candidateOf, hcreation, hlatest]
  simp [hposted]

/-- What an event about a candidate that exists changes of its entity. -/
theorem candidateOf_cons {c : ProposalCandidate} (h : candidateOf G log id = some c)
    (hnew : e.creates G id = false) :
    candidateOf G (e :: log) id = some
      { c with
        lastUpdatedTimestamp := if e.captures G id then e.block.timestamp else c.lastUpdatedTimestamp
        lastUpdatedBlock := if e.captures G id then e.block.number else c.lastUpdatedBlock
        latestVersion := if e.captures G id then e.versionId G else c.latestVersion
        canceled := e.cancels G id || c.canceled
        canceledTimestamp := if e.cancels G id then some e.block.timestamp else c.canceledTimestamp
        canceledBlock := if e.cancels G id then some e.block.number else c.canceledBlock } := by
  have hnumber : numberOf G (e :: log) id = numberOf G log id := by
    unfold numberOf
    rw [List.dropWhile_cons_of_pos (by simp [hnew])]
  simp only [candidateOf, Option.bind_eq_bind, Option.bind_eq_some_iff, Option.pure_def,
    Option.some.injEq] at h
  obtain ⟨creation, hcreation, latest, hlatest, posted, hposted, rfl⟩ := h
  unfold candidateOf
  rw [List.find?_cons_of_neg (by simp [hnew]), hcreation, List.find?_cons, List.find?_cons, hlatest,
    hnumber]
  cases hcaptures : e.captures G id with
  | true =>
    cases hcancels : e.cancels G id with
    | true => simp [hposted]
    | false => simp [hposted]
  | false =>
    cases hcancels : e.cancels G id with
    | true => simp [hposted]
    | false => simp [hposted]

/-- The first event about a candidate. -/
theorem candidateOf_cons_creation {p : PostedVersion} (hnew : e.creates G id = true)
    (hposted : e.posted? G = some p) (hnone : ∀ e' ∈ log, e'.candidateID? G ≠ some id) :
    candidateOf G (e :: log) id = some
      { proposer := p.proposer
        slug := G.decodeString p.version.slug
        createdTransactionHash := e.txHash
        createdTimestamp := e.block.timestamp
        createdBlock := e.block.number
        lastUpdatedTimestamp := e.block.timestamp
        lastUpdatedBlock := e.block.number
        canceled := false
        canceledTimestamp := none
        canceledBlock := none
        latestVersion := e.versionId G
        number := (e :: log).countP (·.isCreation) } := by
  have hcaptures := (DataLogEvent.captures_of_creates hnew).1
  have hcancels : (e :: log).find? (·.cancels G id) = none := by
    apply List.find?_eq_none.mpr
    intro e' he'
    rcases List.mem_cons.mp he' with rfl | he'
    · have hcreation : e'.isCreation = true := (Bool.and_eq_true_iff.mp hnew).1
      have hkind : e'.isCancellation = false := by
        unfold DataLogEvent.isCreation at hcreation
        unfold DataLogEvent.isCancellation
        split at hcreation
        · rename_i heq
          rw [heq]
        · cases hcreation
      simp [DataLogEvent.cancels, hkind]
    · simp [DataLogEvent.cancels, hnone e' he']
  have hnumber : numberOf G (e :: log) id = (e :: log).countP (·.isCreation) := by
    unfold numberOf
    rw [List.dropWhile_cons_of_neg (by simp [hnew])]
  unfold candidateOf
  rw [List.find?_cons_of_pos hnew, List.find?_cons_of_pos hcaptures, hcancels, hnumber]
  simp [hposted]

/-! ## The entities of versions and contents -/

theorem versionOf_eq_some {v : ProposalCandidateVersion} (h : versionOf G log id = some v) :
    ∃ e ∈ log, ∃ p, e.posted? G = some p ∧ e.versionId G = id ∧ v.content = contentID G p.hash := by
  obtain ⟨e, he, hv⟩ := List.exists_of_findSome?_eq_some h
  obtain ⟨p, hposted, hv⟩ := Option.bind_eq_some_iff.mp hv
  split at hv
  · rename_i hid
    refine ⟨e, he, p, hposted, hid, ?_⟩
    rw [← Option.some.inj hv]
  · cases hv

theorem contentOf_eq_some {c : ProposalCandidateContent} (h : contentOf G log id = some c) :
    ∃ e ∈ log, ∃ p, e.posted? G = some p ∧ contentID G p.hash = id ∧ c = p.content G := by
  obtain ⟨e, he, hc⟩ := List.exists_of_findSome?_eq_some h
  obtain ⟨p, hposted, hc⟩ := Option.bind_eq_some_iff.mp hc
  split at hc
  · rename_i hid
    exact ⟨e, he, p, hposted, hid, (Option.some.inj hc).symm⟩
  · cases hc

theorem exists_versionOf {p : PostedVersion} (he : e ∈ log) (hposted : e.posted? G = some p) :
    ∃ v, versionOf G log (e.versionId G) = some v := by
  apply Option.isSome_iff_exists.mp
  apply List.findSome?_isSome_iff.mpr
  refine ⟨e, he, ?_⟩
  simp [hposted]

theorem exists_contentOf {p : PostedVersion} (he : e ∈ log) (hposted : e.posted? G = some p) :
    ∃ c, contentOf G log (contentID G p.hash) = some c := by
  apply Option.isSome_iff_exists.mp
  apply List.findSome?_isSome_iff.mpr
  refine ⟨e, he, ?_⟩
  simp [hposted]

/-! ## Handlers -/

namespace CandidateStore

variable {s s' : CandidateStore}

theorem getOrCreateProposalCandidate_some {c : ProposalCandidate}
    (h : s.candidates.load id = some c) : s.getOrCreateProposalCandidate id = (s, some c) := by
  rw [getOrCreateProposalCandidate, h]

theorem getOrCreateProposalCandidate_none (h : s.candidates.load id = none) :
    ∃ s', s.getOrCreateProposalCandidate id = (s', none) ∧
      s'.candidateCount = s.candidateCount + 1 ∧ s'.candidates = s.candidates ∧
      s'.versions = s.versions ∧ s'.contents = s.contents := by
  rw [getOrCreateProposalCandidate, h]
  exact ⟨_, rfl, rfl, rfl, rfl, rfl⟩

/-- The versions and contents after a version was captured. -/
structure Captured (G : GraphTs) (log : List DataLogEvent) (s : CandidateStore) : Prop where
  versions : ∀ id, s.versions.load id = versionOf G log id
  contents : ∀ id, (s.contents.load id).map (·.unmatched) = contentOf G log id

theorem Captured.saveCandidate {c : ProposalCandidate} (h : s.Captured G log) :
    (s.saveCandidate id c).Captured G log :=
  ⟨h.versions, h.contents⟩

theorem capture_versions (p : PostedVersion) :
    (s.captureProposalCandidateVersion G e id p.version p.hash p.proposer p.updateMessage).versions =
      s.versions.save (e.versionId G)
        { content := contentID G p.hash
          proposal := id
          createdTimestamp := e.block.timestamp
          createdBlock := e.block.number
          updateMessage := p.updateMessage } := rfl

theorem capture_contents (p : PostedVersion) :
    (s.captureProposalCandidateVersion G e id p.version p.hash p.proposer p.updateMessage).contents =
      s.contents.save (contentID G p.hash) (p.content G) := rfl

theorem unmatched_content (p : PostedVersion) : (p.content G).unmatched = p.content G := by
  simp only [PostedVersion.content, ProposalCandidateContent.unmatched]

theorem captured_of_posted {p : PostedVersion} (h : s.Captured G log)
    (hposted : e.posted? G = some p) :
    (s.captureProposalCandidateVersion G e (p.candidateId G) p.version p.hash p.proposer
      p.updateMessage).Captured G (e :: log) := by
  constructor
  · intro id'
    rw [versionOf_cons_of_some hposted, capture_versions, load_save, h.versions]
  · intro id'
    rw [contentOf_cons_of_some hposted, capture_contents, load_save]
    by_cases hcontent : id' = contentID G p.hash
    · rw [if_pos hcontent, if_pos hcontent, Option.map_some, unmatched_content]
    · rw [if_neg hcontent, if_neg hcontent]
      exact h.contents id'

/-- An event that posts no version, and what its handler leaves alone. -/
theorem Captured.cons_of_none (h : Captured G log s) (hposted : e.posted? G = none)
    (hversions : s'.versions = s.versions) (hcontents : s'.contents = s.contents) :
    Captured G (e :: log) s' := by
  constructor
  · intro id
    rw [hversions, versionOf_cons_of_none hposted]
    exact h.versions id
  · intro id
    rw [hcontents, contentOf_cons_of_none hposted]
    exact h.contents id

end CandidateStore

namespace CandidatesMirrored

variable {s s' : CandidateStore}

theorem captured (h : CandidatesMirrored G log s) : s.Captured G log := ⟨h.versions, h.contents⟩

theorem of_captured (hcaptured : s.Captured G log)
    (hcount : s.candidateCount = log.countP (·.isCreation))
    (hcandidates : ∀ id, s.candidates.load id = candidateOf G log id) :
    CandidatesMirrored G log s :=
  ⟨hcount, hcandidates, hcaptured.versions, hcaptured.contents⟩

/-- The table after the entity of the event's candidate was saved. -/
theorem load_saved {t : Table (List Char) ProposalCandidate} {c : ProposalCandidate}
    (h : CandidatesMirrored G log s) (ht : t = s.candidates) (hid : e.candidateID? G = some id)
    (hc : candidateOf G (e :: log) id = some c) (id' : List Char) :
    (t.save id c).load id' = candidateOf G (e :: log) id' := by
  rw [load_save, ht]
  by_cases heq : id' = id
  · rw [if_pos heq, heq, hc]
  · rw [if_neg heq, candidateOf_cons_of_ne, h.candidates]
    rw [hid]
    exact fun hsome => heq (Option.some.inj hsome).symm

theorem handleProposalCandidateCreated (h : CandidatesMirrored G log s) {msgSender : Address}
    {version : CandidateVersion} {hash : Word}
    (he : e.event = .ProposalCandidateCreated msgSender version hash)
    (hnone : ∀ e' ∈ log, e'.candidateID? G ≠
      some (candidateID G msgSender (G.decodeString version.slug))) :
    CandidatesMirrored G (e :: log) (s.handleProposalCandidateCreated G e msgSender version hash) := by
  have hposted : e.posted? G = some ⟨msgSender, version, hash, ""⟩ := by
    rw [DataLogEvent.posted?, he]
  have hid : e.candidateID? G = some (candidateID G msgSender (G.decodeString version.slug)) := by
    rw [DataLogEvent.candidateID?, he]
  have hcreation : e.isCreation = true := by
    rw [DataLogEvent.isCreation, he]
  have hcreates : e.creates G (candidateID G msgSender (G.decodeString version.slug)) = true := by
    simp [DataLogEvent.creates, hcreation, hid]
  have hload : s.candidates.load (candidateID G msgSender (G.decodeString version.slug)) = none := by
    rw [h.candidates, candidateOf_eq_none hnone]
  obtain ⟨s₁, hget, hcount, hcandidates, hversions, hcontents⟩ :=
    CandidateStore.getOrCreateProposalCandidate_none hload
  have hcount' : s₁.candidateCount = (e :: log).countP (·.isCreation) := by
    rw [hcount, h.count, List.countP_cons_of_pos hcreation]
    rfl
  have hcaptured₁ : s₁.Captured G log :=
    ⟨fun id => hversions ▸ h.versions id, fun id => hcontents ▸ h.contents id⟩
  have hstore : s.handleProposalCandidateCreated G e msgSender version hash =
      (s₁.captureProposalCandidateVersion G e (candidateID G msgSender
        (G.decodeString version.slug)) version hash msgSender "").saveCandidate
        (candidateID G msgSender (G.decodeString version.slug))
        { proposer := msgSender
          slug := G.decodeString version.slug
          createdTransactionHash := e.txHash
          createdTimestamp := e.block.timestamp
          createdBlock := e.block.number
          lastUpdatedTimestamp := e.block.timestamp
          lastUpdatedBlock := e.block.number
          canceled := false
          canceledTimestamp := none
          canceledBlock := none
          latestVersion := e.versionId G
          number := s₁.candidateCount } := by
    simp only [CandidateStore.handleProposalCandidateCreated, hget,
      CandidateStore.getCandidateIndex, Option.bind_none]
  rw [hstore]
  apply of_captured
  · exact (CandidateStore.captured_of_posted hcaptured₁ hposted).saveCandidate
  · exact hcount'
  · apply h.load_saved hcandidates hid
    rw [candidateOf_cons_creation hcreates hposted hnone, hcount']

theorem handleProposalCandidateUpdated (hG : G.Documented) (h : CandidatesMirrored G log s)
    {msgSender : Address} {version : CandidateVersion} {hash : Word} {reason : Bytes}
    (he : e.event = .ProposalCandidateUpdated msgSender version hash reason)
    (hcreated : ∃ e' ∈ log,
      e'.creates G (candidateID G msgSender (G.decodeString version.slug)) = true) :
    ∃ s', s.handleProposalCandidateUpdated G e msgSender version hash reason = some s' ∧
      CandidatesMirrored G (e :: log) s' := by
  have hposted : e.posted? G = some ⟨msgSender, version, hash, G.decodeString reason⟩ := by
    rw [DataLogEvent.posted?, he]
  have hid : e.candidateID? G = some (candidateID G msgSender (G.decodeString version.slug)) := by
    rw [DataLogEvent.candidateID?, he]
  have hcreation : e.isCreation = false := by
    rw [DataLogEvent.isCreation, he]
  have hnew : e.creates G (candidateID G msgSender (G.decodeString version.slug)) = false := by
    simp [DataLogEvent.creates, hcreation]
  have hcaptures : e.captures G (candidateID G msgSender (G.decodeString version.slug)) = true := by
    simp [DataLogEvent.captures, hposted, hid]
  have hcancels : e.cancels G (candidateID G msgSender (G.decodeString version.slug)) = false := by
    simp [DataLogEvent.cancels, DataLogEvent.isCancellation, he]
  obtain ⟨c, hc⟩ := exists_candidateOf hcreated
  have hload := (h.candidates _).trans hc
  have hproposer : c.proposer = msgSender := proposer_of_candidateOf hG hc
  have hstore : s.handleProposalCandidateUpdated G e msgSender version hash reason =
      some ((s.captureProposalCandidateVersion G e (candidateID G msgSender
        (G.decodeString version.slug)) version hash msgSender (G.decodeString reason)).saveCandidate
        (candidateID G msgSender (G.decodeString version.slug))
        { c with
          lastUpdatedTimestamp := e.block.timestamp
          lastUpdatedBlock := e.block.number
          latestVersion := e.versionId G }) := by
    simp only [CandidateStore.handleProposalCandidateUpdated,
      CandidateStore.getOrCreateProposalCandidate_some hload, Option.bind_eq_bind,
      Option.bind_some, Option.pure_def, hproposer]
  refine ⟨_, hstore, of_captured ?_ ?_ ?_⟩
  · exact (CandidateStore.captured_of_posted h.captured hposted).saveCandidate
  · rw [List.countP_cons_of_neg (by simp [hcreation])]
    exact h.count
  · apply h.load_saved rfl hid
    rw [candidateOf_cons hc hnew, hcaptures, hcancels]
    simp

theorem handleProposalCandidateCanceled (h : CandidatesMirrored G log s) {msgSender : Address}
    {slug : Bytes} (he : e.event = .ProposalCandidateCanceled msgSender slug)
    (hcreated : ∃ e' ∈ log, e'.creates G (candidateID G msgSender (G.decodeString slug)) = true) :
    ∃ s', s.handleProposalCandidateCanceled G e msgSender slug = some s' ∧
      CandidatesMirrored G (e :: log) s' := by
  have hposted : e.posted? G = none := by
    rw [DataLogEvent.posted?, he]
  have hid : e.candidateID? G = some (candidateID G msgSender (G.decodeString slug)) := by
    rw [DataLogEvent.candidateID?, he]
  have hcreation : e.isCreation = false := by
    rw [DataLogEvent.isCreation, he]
  have hnew : e.creates G (candidateID G msgSender (G.decodeString slug)) = false := by
    simp [DataLogEvent.creates, hcreation]
  have hcaptures : e.captures G (candidateID G msgSender (G.decodeString slug)) = false := by
    simp [DataLogEvent.captures, hposted]
  have hcancels : e.cancels G (candidateID G msgSender (G.decodeString slug)) = true := by
    simp [DataLogEvent.cancels, DataLogEvent.isCancellation, he, hid]
  obtain ⟨c, hc⟩ := exists_candidateOf hcreated
  have hload := (h.candidates _).trans hc
  have hstore : s.handleProposalCandidateCanceled G e msgSender slug =
      some (s.saveCandidate (candidateID G msgSender (G.decodeString slug))
        { c with
          canceled := true
          canceledTimestamp := some e.block.timestamp
          canceledBlock := some e.block.number }) := by
    simp only [CandidateStore.handleProposalCandidateCanceled,
      CandidateStore.getOrCreateProposalCandidate_some hload, Option.bind_eq_bind,
      Option.bind_some, Option.pure_def]
  refine ⟨_, hstore, of_captured ?_ ?_ ?_⟩
  · exact h.captured.cons_of_none hposted rfl rfl
  · rw [List.countP_cons_of_neg (by simp [hcreation])]
    exact h.count
  · apply h.load_saved rfl hid
    rw [candidateOf_cons hc hnew, hcaptures, hcancels]
    simp

/-- The latest version of a candidate and its content are there. -/
theorem exists_latest (h : CandidatesMirrored G log s) {c : ProposalCandidate}
    (hload : s.candidates.load id = some c) :
    ∃ v k, s.versions.load c.latestVersion = some v ∧ s.contents.load v.content = some k := by
  have hc : candidateOf G log id = some c := by
    rw [← h.candidates]
    exact hload
  have hlatest : ∃ latest ∈ log, latest.captures G id = true ∧ c.latestVersion = latest.versionId G := by
    simp only [candidateOf, Option.bind_eq_bind, Option.bind_eq_some_iff, Option.pure_def,
      Option.some.injEq] at hc
    obtain ⟨_, -, latest, hlatest, _, -, rfl⟩ := hc
    exact ⟨latest, List.mem_of_find?_eq_some hlatest, List.find?_some hlatest, rfl⟩
  obtain ⟨latest, hmem, hcaptures, hversion⟩ := hlatest
  have hsome : (latest.posted? G).isSome = true := (Bool.and_eq_true_iff.mp hcaptures).1
  obtain ⟨p, hposted⟩ := Option.isSome_iff_exists.mp hsome
  obtain ⟨v, hv⟩ := exists_versionOf hmem hposted
  obtain ⟨e', he', p', hposted', -, hcontent⟩ := versionOf_eq_some hv
  obtain ⟨k, hk⟩ := exists_contentOf he' hposted'
  rw [← h.contents, ← hcontent] at hk
  obtain ⟨k', hk', -⟩ := Option.map_eq_some_iff.mp hk
  refine ⟨v, k', ?_, hk'⟩
  rw [hversion, h.versions]
  exact hv

/-- What is about a candidate, or none, but is no version and no cancellation. -/
theorem cons_of_quiet (h : CandidatesMirrored G log s) (hposted : e.posted? G = none)
    (hcreation : e.isCreation = false) (hcancellation : e.isCancellation = false)
    (hcreated : ∀ id, e.candidateID? G = some id → ∃ e' ∈ log, e'.creates G id = true)
    (hcount : s'.candidateCount = s.candidateCount) (hcandidates : s'.candidates = s.candidates)
    (hversions : s'.versions = s.versions) (hcontents : s'.contents = s.contents) :
    CandidatesMirrored G (e :: log) s' := by
  apply of_captured (h.captured.cons_of_none hposted hversions hcontents)
  · rw [hcount, List.countP_cons_of_neg (by simp [hcreation])]
    exact h.count
  · intro id
    rw [hcandidates, h.candidates]
    by_cases hid : e.candidateID? G = some id
    · obtain ⟨c, hc⟩ := exists_candidateOf (hcreated id hid)
      have hnew : e.creates G id = false := by simp [DataLogEvent.creates, hcreation]
      have hcaptures : e.captures G id = false := by simp [DataLogEvent.captures, hposted]
      have hcancels : e.cancels G id = false := by simp [DataLogEvent.cancels, hcancellation]
      rw [candidateOf_cons hc hnew, hc, hcaptures, hcancels]
      simp
    · exact (candidateOf_cons_of_ne hid).symm

end CandidatesMirrored

/-- What is stored of a signature under the latest version of the candidate. -/
theorem CandidateStore.handleSignatureAdded_eq {s : CandidateStore} {c : ProposalCandidate}
    {v : ProposalCandidateVersion} {k : ProposalCandidateContent} {signer proposer : Address}
    {sig slug reason : Bytes} {expirationTimestamp encodedPropHash sigDigest : Word}
    (hload : s.candidates.load (candidateID G proposer (G.decodeString slug)) = some c)
    (hv : s.versions.load c.latestVersion = some v) (hk : s.contents.load v.content = some k) :
    s.handleSignatureAdded G e signer sig expirationTimestamp proposer slug encodedPropHash sigDigest
        reason =
      some (if k.encodedProposalHash = encodedPropHash then
        (s.getOrCreateDelegate signer).1.saveSignature (signatureID G signer sig)
          { content := v.content
            signer := signer
            sig := sig
            expirationTimestamp := expirationTimestamp.toNat
            encodedProposalHash := encodedPropHash
            sigDigest := sigDigest
            reason := G.decodeString reason
            canceled := ((s.signatures.load (signatureID G signer sig)).map (·.canceled)).getD false
            createdBlock := e.block.number
            createdTimestamp := e.block.timestamp }
      else s) := by
  simp only [handleSignatureAdded, getOrCreateProposalCandidate_some hload, Option.bind_eq_bind,
    Option.bind_some, Option.pure_def, hv, hk]
  by_cases hhash : k.encodedProposalHash = encodedPropHash
  · simp [hhash]
  · simp [hhash]

section

variable {s s' : CandidateStore}

/-- What an event of the DAO or the token does: contents are marked, a signature is cancelled, or only
the records change. -/
theorem CandidateStore.handleRecord_cases {keccak256 : Bytes → Word} {e : LogEvent}
    (hs : s.handleRecord G keccak256 e = some s') :
    ∃ records : Records,
      ((∃ proposalId isUpdate, CandidateStore.markProposalCandidateIfExists G { s with records }
          keccak256 proposalId isUpdate = some s') ∧
        ∀ block signer sig, e.event ≠ .dao block (.SignatureCancelled signer sig)) ∨
      (∃ block signer sig, e.event = .dao block (.SignatureCancelled signer sig) ∧
        s' = CandidateStore.handleSignatureCanceled G { s with records } signer sig) ∨
      (s' = { s with records } ∧
        ∀ block signer sig, e.event ≠ .dao block (.SignatureCancelled signer sig)) := by
  simp only [handleRecord, Option.bind_eq_bind, Option.bind_eq_some_iff] at hs
  obtain ⟨records, -, hs⟩ := hs
  refine ⟨records, ?_⟩
  split at hs
  · rename_i he
    exact .inl ⟨⟨_, _, hs⟩, by simp [he]⟩
  · rename_i he
    exact .inl ⟨⟨_, _, hs⟩, by simp [he]⟩
  · rename_i he
    exact .inl ⟨⟨_, _, hs⟩, by simp [he]⟩
  · rename_i he
    exact .inl ⟨⟨_, _, hs⟩, by simp [he]⟩
  · rename_i he
    exact .inl ⟨⟨_, _, hs⟩, by simp [he]⟩
  · rename_i block signer sig he
    exact .inr (.inl ⟨block, signer, sig, he, (Option.some.inj hs).symm⟩)
  · rename_i hnone
    exact .inr (.inr ⟨(Option.some.inj hs).symm, fun block signer sig he => hnone block signer sig he⟩)

end

/-! ## Indexing -/

namespace CandidatesMirrored

variable {s s' : CandidateStore} {keccak256 : Bytes → Word}

/-- An event of the contract for candidates never stops the indexing. -/
theorem handleData (hG : G.Documented) (h : CandidatesMirrored G log s)
    (hordered : DataOrdered G (e :: log)) :
    ∃ s', s.handleData G e = some s' ∧ CandidatesMirrored G (e :: log) s' := by
  have hcreated (hcreation : e.isCreation = false) (id : List Char)
      (hid : e.candidateID? G = some id) : ∃ e' ∈ log, e'.creates G id = true :=
    hordered.created hcreation hid
  unfold CandidateStore.handleData
  cases he : e.event with
  | ProposalCandidateCreated msgSender version hash =>
    have hid : e.candidateID? G = some (candidateID G msgSender (G.decodeString version.slug)) := by
      rw [DataLogEvent.candidateID?, he]
    have hcreates : e.creates G (candidateID G msgSender (G.decodeString version.slug)) = true := by
      simp [DataLogEvent.creates, DataLogEvent.isCreation, he, hid]
    exact ⟨_, rfl, h.handleProposalCandidateCreated he ((hordered.1 _ hid).mp hcreates)⟩
  | ProposalCandidateUpdated msgSender version hash reason =>
    apply h.handleProposalCandidateUpdated hG he
    apply hcreated
    · rw [DataLogEvent.isCreation, he]
    · rw [DataLogEvent.candidateID?, he]
  | ProposalCandidateCanceled msgSender slug =>
    apply h.handleProposalCandidateCanceled he
    apply hcreated
    · rw [DataLogEvent.isCreation, he]
    · rw [DataLogEvent.candidateID?, he]
  | SignatureAdded signer sig expirationTimestamp proposer slug proposalIdToUpdate encodedPropHash
      sigDigest reason =>
    have hcreation : e.isCreation = false := by
      rw [DataLogEvent.isCreation, he]
    have hid : e.candidateID? G = some (candidateID G proposer (G.decodeString slug)) := by
      rw [DataLogEvent.candidateID?, he]
    obtain ⟨c, hc⟩ := exists_candidateOf (hcreated hcreation _ hid)
    have hload := (h.candidates _).trans hc
    obtain ⟨v, k, hv, hk⟩ := h.exists_latest hload
    refine ⟨_, CandidateStore.handleSignatureAdded_eq hload hv hk, ?_⟩
    have hquiet (s' : CandidateStore) (hcount : s'.candidateCount = s.candidateCount)
        (hcandidates : s'.candidates = s.candidates) (hversions : s'.versions = s.versions)
        (hcontents : s'.contents = s.contents) : CandidatesMirrored G (e :: log) s' := by
      apply h.cons_of_quiet _ hcreation _ (hcreated hcreation) hcount hcandidates hversions hcontents
      · rw [DataLogEvent.posted?, he]
      · rw [DataLogEvent.isCancellation, he]
    split
    · exact hquiet _ rfl rfl rfl rfl
    · exact hquiet _ rfl rfl rfl rfl
  | FeedbackSent | CandidateFeedbackSent | CreateCandidateCostSet | UpdateCandidateCostSet
  | ETHWithdrawn | FeeRecipientSet | OwnershipTransferred =>
    have hcreation : e.isCreation = false := by
      rw [DataLogEvent.isCreation, he]
    refine ⟨_, rfl, h.cons_of_quiet ?_ hcreation ?_ (hcreated hcreation) rfl rfl rfl rfl⟩
    · rw [DataLogEvent.posted?, he]
    · rw [DataLogEvent.isCancellation, he]

/-- A handler of other events that only marks contents. -/
theorem of_marked (h : CandidatesMirrored G log s) (hcount : s'.candidateCount = s.candidateCount)
    (hcandidates : s'.candidates = s.candidates) (hversions : s'.versions = s.versions)
    (hcontents : ∀ id, (s'.contents.load id).map (·.unmatched) =
      (s.contents.load id).map (·.unmatched)) : CandidatesMirrored G log s' :=
  ⟨hcount.trans h.count, fun id => hcandidates ▸ h.candidates id,
    fun id => hversions ▸ h.versions id, fun id => (hcontents id).trans (h.contents id)⟩

theorem markProposalCandidateIfExists (h : CandidatesMirrored G log s) {proposalId : Nat}
    {isUpdate : Bool}
    (hs : s.markProposalCandidateIfExists G keccak256 proposalId isUpdate = some s') :
    CandidatesMirrored G log s' := by
  simp only [CandidateStore.markProposalCandidateIfExists, Option.bind_eq_bind,
    Option.bind_eq_some_iff, Option.pure_def] at hs
  obtain ⟨proposal, -, text, -, hash, -, hs⟩ := hs
  split at hs
  · rw [← Option.some.inj hs]
    exact h
  · rename_i content hload
    rw [← Option.some.inj hs]
    refine h.of_marked (by rfl) (by rfl) (by rfl) ?_
    intro id
    show ((s.contents.save (contentID G hash) _).load id).map _ = _
    rw [load_save]
    by_cases hid : id = contentID G hash
    · rw [if_pos hid, hid, hload]
      rfl
    · rw [if_neg hid]

theorem handleSignatureCanceled (h : CandidatesMirrored G log s) (signer : Address) (sig : Bytes) :
    CandidatesMirrored G log (s.handleSignatureCanceled G signer sig) := by
  unfold CandidateStore.handleSignatureCanceled
  split
  · exact h
  · exact h.of_marked rfl rfl rfl fun _ => rfl

theorem handleRecord (h : CandidatesMirrored G log s) {e : LogEvent}
    (hs : s.handleRecord G keccak256 e = some s') : CandidatesMirrored G log s' := by
  obtain ⟨records, hcases⟩ := CandidateStore.handleRecord_cases hs
  have hrecords : CandidatesMirrored G log { s with records } := h.of_marked rfl rfl rfl fun _ => rfl
  rcases hcases with ⟨⟨_, _, hmarked⟩, -⟩ | ⟨_, signer, sig, -, rfl⟩ | ⟨rfl, -⟩
  · exact hrecords.markProposalCandidateIfExists hmarked
  · exact hrecords.handleSignatureCanceled signer sig
  · exact hrecords

theorem empty : CandidatesMirrored G [] CandidateStore.empty :=
  ⟨rfl, fun _ => rfl, fun _ => rfl, fun _ => rfl⟩

theorem of_indexed (hG : G.Documented) {events : List IndexedEvent}
    (hordered : DataOrdered G (dataEvents events))
    (hs : candidatesIndexed G keccak256 events = some s) :
    CandidatesMirrored G (dataEvents events) s := by
  induction events generalizing s with
  | nil =>
    rw [← Option.some.inj hs]
    exact empty
  | cons event events ih =>
    obtain ⟨s₀, hs₀, hs⟩ := Option.bind_eq_some_iff.mp hs
    cases event with
    | record e => exact (ih hordered hs₀).handleRecord hs
    | data e =>
      obtain ⟨s₁, hs₁, hmirrored⟩ := (ih hordered.2 hs₀).handleData hG hordered
      rw [show s = s₁ from Option.some.inj (hs.symm.trans hs₁)]
      exact hmirrored

end CandidatesMirrored

/-! ## The log of the contract -/

/-- The proposer and the slug that an event names. -/
def slugOf : DataEvent → Option (Address × Bytes)
  | .ProposalCandidateCreated msgSender version _ => some (msgSender, version.slug)
  | .ProposalCandidateUpdated msgSender version _ _ => some (msgSender, version.slug)
  | .ProposalCandidateCanceled msgSender slug => some (msgSender, slug)
  | .SignatureAdded _ _ _ proposer slug _ _ _ _ => some (proposer, slug)
  | .CandidateFeedbackSent _ proposer slug _ _ => some (proposer, slug)
  | _ => none

def slugs (log : List DataEvent) : List Bytes := log.filterMap fun e => (slugOf e).map Prod.snd

/-- Different slugs have different hashes, and are read as different strings. -/
structure SlugsRead (G : GraphTs) (keccak256 : Bytes → Word) (log : List DataEvent) : Prop where
  collisionFree : CollisionFree keccak256 (slugs log)
  utf8 : ∀ slug ∈ slugs log, ProposalContent.IsUtf8 slug

section

variable {keccak256 : Bytes → Word}

theorem slugKey?_eq (e : DataEvent) :
    e.slugKey? keccak256 = (slugOf e).map fun k => (k.1, keccak256 k.2) := by
  cases e <;> rfl

theorem candidateID?_eq (e : DataLogEvent) :
    e.candidateID? G = (slugOf e.event).map fun k => candidateID G k.1 (G.decodeString k.2) := by
  unfold DataLogEvent.candidateID?
  cases e.event <;> rfl

theorem creates_of_key {e : DataLogEvent} {k : SlugKey} (hk : e.event.slugKey? keccak256 = some k)
    (hid : e.candidateID? G = some id) :
    e.creates G id = true ↔ e.event.creates keccak256 k = true := by
  unfold DataLogEvent.creates DataLogEvent.isCreation
  rw [hid]
  cases he : e.event with
  | ProposalCandidateCreated msgSender version hash =>
    rw [he] at hk
    simp [DataEvent.creates, Option.some.inj hk]
  | _ => simp [DataEvent.creates]

theorem mem_slugs {log : List DataEvent} {e : DataEvent} {k : Address × Bytes} (he : e ∈ log)
    (hk : slugOf e = some k) : k.2 ∈ slugs log := by
  apply List.mem_filterMap.mpr
  exact ⟨e, he, by rw [hk, Option.map_some]⟩

theorem SlugsRead.tail {log : List DataEvent} {e : DataEvent}
    (h : SlugsRead G keccak256 (e :: log)) : SlugsRead G keccak256 log := by
  have hsub : slugs log ⊆ slugs (e :: log) := by
    intro slug hslug
    obtain ⟨e', he', hk⟩ := List.mem_filterMap.mp hslug
    exact List.mem_filterMap.mpr ⟨e', List.mem_cons_of_mem e he', hk⟩
  exact ⟨h.collisionFree.mono hsub, fun slug hslug => h.utf8 slug (hsub hslug)⟩

/-- The hash of a slug and the id of the entity tell the same candidates apart. -/
theorem SlugsRead.key_iff (hG : G.Documented) {log : List DataEvent}
    (h : SlugsRead G keccak256 log) {e e' : DataEvent} {k k' : Address × Bytes} (he : e ∈ log)
    (he' : e' ∈ log) (hk : slugOf e = some k) (hk' : slugOf e' = some k') :
    (k.1, keccak256 k.2) = (k'.1, keccak256 k'.2) ↔
      candidateID G k.1 (G.decodeString k.2) = candidateID G k'.1 (G.decodeString k'.2) := by
  have hmem := mem_slugs he hk
  have hmem' := mem_slugs he' hk'
  constructor
  · intro heq
    rw [Prod.mk.injEq] at heq
    rw [heq.1, h.collisionFree _ hmem _ hmem' heq.2]
  · intro heq
    obtain ⟨hproposer, hslug⟩ := candidateID_inj hG heq
    have hback := (ProposalContent.bytesOfString_decodeString_iff hG).mpr (h.utf8 _ hmem)
    have hback' := (ProposalContent.bytesOfString_decodeString_iff hG).mpr (h.utf8 _ hmem')
    rw [hproposer, ← hback, hslug, hback']

theorem dataOrdered_of_log (hG : G.Documented)
    (hordered : LogOrdered keccak256 (log.map (·.event)))
    (hslugs : SlugsRead G keccak256 (log.map (·.event))) : DataOrdered G log := by
  induction log with
  | nil => trivial
  | cons e log ih =>
    obtain ⟨hfirst, hlog⟩ := hordered
    refine ⟨?_, ih hlog hslugs.tail⟩
    intro id hid
    obtain ⟨k, hk, hcandidate⟩ := Option.map_eq_some_iff.mp ((candidateID?_eq e).symm.trans hid)
    have hkey : e.event.slugKey? keccak256 = some (k.1, keccak256 k.2) := by
      rw [slugKey?_eq, hk, Option.map_some]
    rw [creates_of_key hkey hid, hfirst _ hkey, List.forall_mem_map]
    apply forall₂_congr
    intro e' he'
    -- An earlier event has the key exactly if it has the id.
    apply not_congr
    rw [slugKey?_eq, candidateID?_eq, ← hcandidate]
    cases hk' : slugOf e'.event with
    | none => simp
    | some k' =>
      simp only [Option.map_some, Option.some.injEq]
      apply hslugs.key_iff hG _ _ hk' hk
      · exact List.mem_map_of_mem (List.mem_cons_of_mem e he')
      · exact List.mem_map_of_mem List.mem_cons_self

end

/-- While nobody acts on a candidate whose creation is being paid for, the entities of candidates, of
their versions and of their contents are what the log says, and no event of the contract stops the
indexing. -/
theorem candidates_mirrored {d : DataDeployment} {A : DataCalls}
    {c : CandidateData} (hr : Reachable CandidateData.Init
      (CandidateData.Next d (CandidateData.Allowed d A (Postings.Settled d))) c)
    (hG : G.Documented) {events : List IndexedEvent}
    (hlog : (dataEvents events).map (·.event) = c.log)
    (hslugs : SlugsRead G d.keccak256 c.log) :
    (∀ s, candidatesIndexed G d.keccak256 events = some s →
      CandidatesMirrored G (dataEvents events) s) ∧
    ∀ later e earlier s, events = later ++ .data e :: earlier →
      candidatesIndexed G d.keccak256 earlier = some s → ∃ s', s.handleData G e = some s' := by
  have hordered : DataOrdered G (dataEvents events) := by
    apply dataOrdered_of_log hG
    · rw [hlog]
      exact (CandidateData.ordered hr).log
    · rw [hlog]
      exact hslugs
  refine ⟨fun s hs => .of_indexed hG hordered hs, ?_⟩
  intro later e earlier s hevents hs
  have hsplit : dataEvents events = dataEvents later ++ e :: dataEvents earlier := by
    rw [hevents, dataEvents, List.filterMap_append]
    rfl
  have htail : ∀ l : List DataLogEvent, DataOrdered G (l ++ e :: dataEvents earlier) →
      DataOrdered G (e :: dataEvents earlier) := by
    intro l
    induction l with
    | nil => exact id
    | cons e' l ih => exact fun h => ih h.2
  have hrest := htail (dataEvents later) (hsplit ▸ hordered)
  obtain ⟨s', hs', -⟩ := (CandidatesMirrored.of_indexed hG hrest.2 hs).handleData hG hrest
  exact ⟨s', hs'⟩

/-! ## One candidate -/

/-- The events that `CandidateData.sampleCreated` has logged. -/
def sampleEvents : List IndexedEvent :=
  [.data ⟨2, 1, sampleBlock, .ProposalCandidateCreated 7 CandidateData.sampleVersion
      (CandidateData.sampleDeployment.keccak256 (CandidateData.sampleVersion.encodedProp
        CandidateData.sampleDeployment.keccak256 7))⟩,
    .data ⟨1, 0, sampleBlock, .OwnershipTransferred 0 9⟩]

theorem sampleSlugs_read : SlugsRead ProposalContent.sampleGraphTs
    CandidateData.sampleDeployment.keccak256 CandidateData.sampleCreated.log := by
  have hslugs : slugs CandidateData.sampleCreated.log = [[115]] := rfl
  constructor
  · rw [hslugs]
    intro b hb b' hb' _
    rw [List.mem_singleton.mp hb, List.mem_singleton.mp hb']
  · rw [hslugs]
    intro b hb
    rw [List.mem_singleton.mp hb]
    exact ProposalContent.isUtf8_bytesOfString "s"

theorem candidates_mirrored_created :
    (∀ s, candidatesIndexed ProposalContent.sampleGraphTs CandidateData.sampleDeployment.keccak256
      sampleEvents = some s →
        CandidatesMirrored ProposalContent.sampleGraphTs (dataEvents sampleEvents) s) ∧
    (dataEvents sampleEvents).countP (·.isCreation) = 1 :=
  ⟨(candidates_mirrored CandidateData.sampleCreated_reachable
    ProposalContent.sampleGraphTs_documented rfl sampleSlugs_read).1, rfl⟩

end Nouns.Subgraph
