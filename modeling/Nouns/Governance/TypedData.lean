import Nouns.Evm
import Nouns.Lib.Words

/-!
# TypedData — the bytes that signers sign

`calcProposalEncodeData` and `sigDigest` of `NounsDAOV3Proposals.sol`, byte by byte.  Strings are
their UTF-8 bytes, and `keccak256` is a parameter.
-/

namespace Nouns

/-! ## Collisions -/

/-- No two of the strings have the same hash. -/
def CollisionFree (keccak256 : Bytes → Word) (strings : List Bytes) : Prop :=
  ∀ s ∈ strings, ∀ t ∈ strings, keccak256 s = keccak256 t → s = t

namespace CollisionFree

variable {keccak256 : Bytes → Word} {strings strings' : List Bytes}

theorem mono (h : CollisionFree keccak256 strings) (hsub : strings' ⊆ strings) :
    CollisionFree keccak256 strings' :=
  fun s hs t ht => h s (hsub hs) t (hsub ht)

/-- Lists of strings with the same hashes are the same. -/
theorem map_inj {as bs : List Bytes} (h : CollisionFree keccak256 (as ++ bs))
    (heq : as.map keccak256 = bs.map keccak256) : as = bs := by
  apply List.ext_getElem
  · simpa using congrArg List.length heq
  · intro i hi hi'
    apply h _ (List.mem_append_left _ (List.getElem_mem hi)) _
      (List.mem_append_right _ (List.getElem_mem hi'))
    have hget := congrArg (·[i]?) heq
    simpa [hi, hi'] using hget

end CollisionFree

/-! ## Encoding -/

/-- A word, as `abi.encode` and the elements of packed arrays are. -/
def Address.toBytes (a : Address) : Bytes := Words.bytesOf 32 a.val

@[simp] theorem Address.length_toBytes (a : Address) : a.toBytes.length = 32 :=
  Words.length_bytesOf 32 a.val

theorem Address.toBytes_injective : Function.Injective Address.toBytes := by
  intro a a' h
  have hlt : ∀ a : Address, a.val < 256 ^ 32 := fun a => a.isLt.trans (by decide)
  exact Fin.ext (Words.bytesOf_inj (hlt a) (hlt a') h)

/-- What a proposal does, with its strings in memory. -/
@[ext] structure ProposalData where
  targets : List Address
  values : List Word
  signatures : List Bytes
  calldatas : List Bytes
deriving DecidableEq

/-- `abi.encodePacked` of an array. -/
def encodePackedAddresses (addresses : List Address) : Bytes := addresses.flatMap Address.toBytes

def encodePackedWords (words : List Word) : Bytes := words.flatMap Word.toBytes

theorem encodePackedAddresses_injective : Function.Injective encodePackedAddresses :=
  Words.flatMap_injective Address.length_toBytes (by decide) Address.toBytes_injective

theorem encodePackedWords_injective : Function.Injective encodePackedWords :=
  Words.flatMap_injective Word.length_toBytes (by decide) Word.toBytes_injective

/-- The bytes of a string. -/
def bytesOfString (s : String) : Bytes := s.toUTF8.data.toList

theorem bytesOfString_injective : Function.Injective bytesOfString := by
  intro s t h
  apply String.toByteArray_inj.mp
  apply ByteArray.ext
  exact Array.toList_inj.mp h

section

variable (keccak256 : Bytes → Word)

/-- `abi.encode` of the proposer and five hashes. -/
def calcProposalEncodeData (proposer : Address) (txs : ProposalData) (description : Bytes) : Bytes :=
  let signatureHashes := txs.signatures.map keccak256
  let calldatasHashes := txs.calldatas.map keccak256
  proposer.toBytes ++ (keccak256 (encodePackedAddresses txs.targets)).toBytes ++
    (keccak256 (encodePackedWords txs.values)).toBytes ++
    (keccak256 (encodePackedWords signatureHashes)).toBytes ++
    (keccak256 (encodePackedWords calldatasHashes)).toBytes ++ (keccak256 description).toBytes

def DOMAIN_TYPEHASH : Word :=
  keccak256 (bytesOfString "EIP712Domain(string name,uint256 chainId,address verifyingContract)")

def PROPOSAL_TYPEHASH : Word :=
  keccak256 (bytesOfString "Proposal(address proposer,address[] targets,uint256[] values,string[] signatures,bytes[] calldatas,string description,uint256 expiry)")

def UPDATE_PROPOSAL_TYPEHASH : Word :=
  keccak256 (bytesOfString "UpdateProposal(uint256 proposalId,address proposer,address[] targets,uint256[] values,string[] signatures,bytes[] calldatas,string description,uint256 expiry)")

/-- `ECDSA.toTypedDataHash`. -/
def toTypedDataHash (domainSeparator structHash : Word) : Word :=
  keccak256 ([0x19, 0x01] ++ domainSeparator.toBytes ++ structHash.toBytes)

def domainSeparator (chainid : Word) (verifyingContract : Address) : Word :=
  keccak256 ((DOMAIN_TYPEHASH keccak256).toBytes ++ (keccak256 (bytesOfString "Nouns DAO")).toBytes ++
    chainid.toBytes ++ verifyingContract.toBytes)

def sigDigest (chainid typehash : Word) (proposalEncodeData : Bytes) (expirationTimestamp : Word)
    (verifyingContract : Address) : Word :=
  let structHash := keccak256 (typehash.toBytes ++ proposalEncodeData ++ expirationTimestamp.toBytes)
  toTypedDataHash keccak256 (domainSeparator keccak256 chainid verifyingContract) structHash

end

/-! ## Reading the encoding back -/

section

variable {keccak256 : Bytes → Word} {proposer proposer' : Address} {txs txs' : ProposalData}
  {description description' : Bytes}

theorem length_calcProposalEncodeData :
    (calcProposalEncodeData keccak256 proposer txs description).length = 192 := by
  simp [calcProposalEncodeData]

/-- The strings whose hashes the encoded data holds. -/
def ProposalData.hashed (keccak256 : Bytes → Word) (txs : ProposalData) (description : Bytes) :
    List Bytes :=
  [encodePackedAddresses txs.targets, encodePackedWords txs.values,
    encodePackedWords (txs.signatures.map keccak256), encodePackedWords (txs.calldatas.map keccak256),
    description] ++ txs.signatures ++ txs.calldatas

theorem ProposalData.signatures_subset : txs.signatures ⊆ txs.hashed keccak256 description := by
  intro s hs
  simp [hashed, hs]

theorem ProposalData.calldatas_subset : txs.calldatas ⊆ txs.hashed keccak256 description := by
  intro s hs
  simp [hashed, hs]

/-- A word at the end is read back. -/
theorem append_word_inj {front front' : Bytes} {w w' : Word}
    (h : front ++ w.toBytes = front' ++ w'.toBytes) : front = front' ∧ w = w' := by
  have hlength : w.toBytes.length = w'.toBytes.length := by
    rw [Word.length_toBytes, Word.length_toBytes]
  obtain ⟨hfront, hword⟩ := List.append_inj' h hlength
  exact ⟨hfront, Word.toBytes_injective hword⟩

theorem calcProposalEncodeData_inj
    (hkeccak : CollisionFree keccak256
      (txs.hashed keccak256 description ++ txs'.hashed keccak256 description'))
    (h : calcProposalEncodeData keccak256 proposer txs description =
      calcProposalEncodeData keccak256 proposer' txs' description') :
    proposer = proposer' ∧ txs = txs' ∧ description = description' := by
  obtain ⟨h, hdescription⟩ := append_word_inj h
  obtain ⟨h, hcalldatas⟩ := append_word_inj h
  obtain ⟨h, hsignatures⟩ := append_word_inj h
  obtain ⟨h, hvalues⟩ := append_word_inj h
  obtain ⟨hproposer, htargets⟩ := append_word_inj h
  -- Each hash is that of one string on either side.
  have hstrings : ∀ {s t}, s ∈ txs.hashed keccak256 description →
      t ∈ txs'.hashed keccak256 description' → keccak256 s = keccak256 t → s = t :=
    fun hs ht => hkeccak _ (List.mem_append_left _ hs) _ (List.mem_append_right _ ht)
  have hsignatures := encodePackedWords_injective
    (hstrings (by simp [ProposalData.hashed]) (by simp [ProposalData.hashed]) hsignatures)
  have hcalldatas := encodePackedWords_injective
    (hstrings (by simp [ProposalData.hashed]) (by simp [ProposalData.hashed]) hcalldatas)
  have hsub : ∀ {as bs : List Bytes}, as ⊆ txs.hashed keccak256 description →
      bs ⊆ txs'.hashed keccak256 description' → CollisionFree keccak256 (as ++ bs) :=
    fun has hbs => hkeccak.mono (List.append_subset.mpr
      ⟨List.subset_append_of_subset_left _ has, List.subset_append_of_subset_right _ hbs⟩)
  refine ⟨Address.toBytes_injective hproposer, ?_, ?_⟩
  · apply ProposalData.ext
    · exact encodePackedAddresses_injective
        (hstrings (by simp [ProposalData.hashed]) (by simp [ProposalData.hashed]) htargets)
    · exact encodePackedWords_injective
        (hstrings (by simp [ProposalData.hashed]) (by simp [ProposalData.hashed]) hvalues)
    · exact (hsub txs.signatures_subset txs'.signatures_subset).map_inj hsignatures
    · exact (hsub txs.calldatas_subset txs'.calldatas_subset).map_inj hcalldatas
  · exact hstrings (by simp [ProposalData.hashed]) (by simp [ProposalData.hashed]) hdescription

end

/-! ## Messages -/

/-- What the signers of a proposal, or of an update of one, sign. -/
inductive SignedMessage
  | proposal (proposer : Address) (txs : ProposalData) (description : Bytes) (expiry : Word)
  | updateProposal (proposalId : Word) (proposer : Address) (txs : ProposalData)
      (description : Bytes) (expiry : Word)
deriving DecidableEq

namespace SignedMessage

variable (keccak256 : Bytes → Word)

/-- The type hash and the encoded data that `proposeBySigs` and `updateProposalBySigs` verify. -/
def typehash : SignedMessage → Word
  | proposal .. => PROPOSAL_TYPEHASH keccak256
  | updateProposal .. => UPDATE_PROPOSAL_TYPEHASH keccak256

def encodeData : SignedMessage → Bytes
  | proposal proposer txs description _ => calcProposalEncodeData keccak256 proposer txs description
  | updateProposal proposalId proposer txs description _ =>
    proposalId.toBytes ++ calcProposalEncodeData keccak256 proposer txs description

def expiry : SignedMessage → Word
  | proposal _ _ _ expiry => expiry
  | updateProposal _ _ _ _ expiry => expiry

def digest (chainid : Word) (verifyingContract : Address) (m : SignedMessage) : Word :=
  sigDigest keccak256 chainid (m.typehash keccak256) (m.encodeData keccak256) m.expiry
    verifyingContract

/-! ## Digests -/

/-- What the message is hashed to before the domain is added. -/
def structData (m : SignedMessage) : Bytes :=
  (m.typehash keccak256).toBytes ++ m.encodeData keccak256 ++ m.expiry.toBytes

/-- The contents of a message. -/
def contents : SignedMessage → Address × ProposalData × Bytes
  | proposal proposer txs description _ => (proposer, txs, description)
  | updateProposal _ proposer txs description _ => (proposer, txs, description)

/-- The strings that are hashed on the way to the digest. -/
def hashed (chainid : Word) (verifyingContract : Address) (m : SignedMessage) : List Bytes :=
  [[0x19, 0x01] ++ (domainSeparator keccak256 chainid verifyingContract).toBytes ++
      (keccak256 (m.structData keccak256)).toBytes, m.structData keccak256] ++
    m.contents.2.1.hashed keccak256 m.contents.2.2

variable {keccak256}

theorem structData_inj {m m' : SignedMessage}
    (hkeccak : CollisionFree keccak256 (m.contents.2.1.hashed keccak256 m.contents.2.2 ++
      m'.contents.2.1.hashed keccak256 m'.contents.2.2))
    (h : m.structData keccak256 = m'.structData keccak256) : m = m' := by
  obtain ⟨h, hexpiry⟩ := append_word_inj h
  obtain ⟨-, hdata⟩ := List.append_inj h (by rw [Word.length_toBytes, Word.length_toBytes])
  have hlength := congrArg List.length hdata
  cases m with
  | proposal proposer txs description expiry =>
    cases m' with
    | proposal proposer' txs' description' expiry' =>
      obtain ⟨rfl, rfl, rfl⟩ : proposer = proposer' ∧ txs = txs' ∧ description = description' :=
        calcProposalEncodeData_inj hkeccak hdata
      rw [show expiry = expiry' from hexpiry]
    | updateProposal =>
      -- The data of an update is one word longer.
      rw [encodeData, encodeData, List.length_append, length_calcProposalEncodeData,
        length_calcProposalEncodeData, Word.length_toBytes] at hlength
      omega
  | updateProposal proposalId proposer txs description expiry =>
    cases m' with
    | proposal =>
      rw [encodeData, encodeData, List.length_append, length_calcProposalEncodeData,
        length_calcProposalEncodeData, Word.length_toBytes] at hlength
      omega
    | updateProposal proposalId' proposer' txs' description' expiry' =>
      obtain ⟨hid, hdata⟩ := List.append_inj hdata
        (by rw [Word.length_toBytes, Word.length_toBytes])
      obtain ⟨rfl, rfl, rfl⟩ : proposer = proposer' ∧ txs = txs' ∧ description = description' :=
        calcProposalEncodeData_inj hkeccak hdata
      rw [Word.toBytes_injective hid, show expiry = expiry' from hexpiry]

/-- Messages have one digest, on one chain and for one contract, only if they are the same: of one
kind and with the same fields. -/
theorem digest_eq_iff (chainid : Word) (verifyingContract : Address) (m m' : SignedMessage)
    (hkeccak : CollisionFree keccak256
      (m.hashed keccak256 chainid verifyingContract ++
        m'.hashed keccak256 chainid verifyingContract)) :
    m.digest keccak256 chainid verifyingContract = m'.digest keccak256 chainid verifyingContract ↔
      m = m' := by
  refine ⟨fun h => ?_, fun h => h ▸ rfl⟩
  have hstrings : ∀ {s t}, s ∈ m.hashed keccak256 chainid verifyingContract →
      t ∈ m'.hashed keccak256 chainid verifyingContract → keccak256 s = keccak256 t → s = t :=
    fun hs ht => hkeccak _ (List.mem_append_left _ hs) _ (List.mem_append_right _ ht)
  have htyped := hstrings (List.mem_cons_self ..) (List.mem_cons_self ..) h
  obtain ⟨-, hstruct⟩ := append_word_inj htyped
  have hdata := hstrings (List.mem_cons_of_mem _ (List.mem_cons_self ..))
    (List.mem_cons_of_mem _ (List.mem_cons_self ..)) hstruct
  apply structData_inj (hkeccak.mono ?_) hdata
  exact List.append_subset.mpr ⟨List.subset_append_of_subset_left _ (List.subset_append_right _ _),
    List.subset_append_of_subset_right _ (List.subset_append_right _ _)⟩

/-- A hash of a few strings, for the sample. -/
def sampleKeccak256 (bytes : Bytes) : Word :=
  .ofNat (bytes.foldl (fun n b => (n * 263 + b.toNat + 1) % (2 ^ 256 - 189)) 7)

/-- A proposal, and an update that only differs from it by its kind. -/
def sampleProposal : SignedMessage := .proposal 7 ⟨[1], [3], [[5]], [[6]]⟩ [8] 9

def sampleUpdate : SignedMessage := .updateProposal 0 7 ⟨[1], [3], [[5]], [[6]]⟩ [8] 9

theorem digest_eq_iff_sample :
    sampleProposal.digest sampleKeccak256 1 2 ≠ sampleUpdate.digest sampleKeccak256 1 2 := by
  have hkeccak : CollisionFree sampleKeccak256
      (sampleProposal.hashed sampleKeccak256 1 2 ++ sampleUpdate.hashed sampleKeccak256 1 2) := by
    unfold CollisionFree
    decide +kernel
  exact mt (digest_eq_iff 1 2 sampleProposal sampleUpdate hkeccak).mp (by decide)

end SignedMessage

/-! ## The messages of the governance model -/

/-- The transactions with their numbers and strings in memory. -/
def ProposalTxs.data (txs : ProposalTxs) : ProposalData where
  targets := txs.targets
  values := txs.values.map Word.ofNat
  signatures := txs.signatures.map bytesOfString
  calldatas := txs.calldatas

theorem ProposalTxs.data_inj {txs txs' : ProposalTxs} (hvalues : ∀ v ∈ txs.values, v < 2 ^ 256)
    (hvalues' : ∀ v ∈ txs'.values, v < 2 ^ 256) (h : txs.data = txs'.data) : txs = txs' := by
  obtain ⟨targets, values, signatures, calldatas⟩ := txs
  obtain ⟨targets', values', signatures', calldatas'⟩ := txs'
  simp only [data, ProposalData.mk.injEq] at h
  obtain ⟨rfl, hwords, hbytes, rfl⟩ := h
  have hread : ∀ {values : List Nat}, (∀ v ∈ values, v < 2 ^ 256) →
      (values.map Word.ofNat).map Word.toNat = values := by
    intro values hvalues
    rw [List.map_map]
    exact (List.map_congr_left fun v hv => Word.toNat_ofNat (hvalues v hv)).trans (List.map_id _)
  have hnumbers := congrArg (List.map Word.toNat) hwords
  rw [hread hvalues, hread hvalues'] at hnumbers
  rw [show values = values' from hnumbers,
    List.map_injective_iff.mpr bytesOfString_injective hbytes]

namespace Preimage

/-- The message that a hashed proposal or update stands for. -/
def message : Preimage → Option SignedMessage
  | proposal proposer txs description expiry =>
    some (.proposal proposer txs.data (bytesOfString description) (.ofNat expiry))
  | updateProposal proposalId proposer txs description expiry =>
    some (.updateProposal (.ofNat proposalId) proposer txs.data (bytesOfString description)
      (.ofNat expiry))
  | _ => none

/-- The numbers of a message are words. -/
def Words : Preimage → Prop
  | proposal _ txs _ expiry => (∀ v ∈ txs.values, v < 2 ^ 256) ∧ expiry < 2 ^ 256
  | updateProposal proposalId _ txs _ expiry =>
    (∀ v ∈ txs.values, v < 2 ^ 256) ∧ expiry < 2 ^ 256 ∧ proposalId < 2 ^ 256
  | _ => True

theorem ofNat_inj {n n' : Nat} (hn : n < 2 ^ 256) (hn' : n' < 2 ^ 256)
    (h : Word.ofNat n = Word.ofNat n') : n = n' := by
  rw [← Word.toNat_ofNat hn, h, Word.toNat_ofNat hn']

theorem message_inj {p p' : Preimage} {m : SignedMessage} (hp : p.Words) (hp' : p'.Words)
    (h : p.message = some m) (h' : p'.message = some m) : p = p' := by
  cases p <;> simp only [message, Option.some.injEq, reduceCtorEq] at h
  all_goals cases p' <;> simp only [message, Option.some.injEq, reduceCtorEq] at h'
  case proposal.proposal =>
    rw [← h', SignedMessage.proposal.injEq] at h
    obtain ⟨rfl, htxs, hdescription, hexpiry⟩ := h
    rw [ProposalTxs.data_inj hp.1 hp'.1 htxs, bytesOfString_injective hdescription,
      ofNat_inj hp.2 hp'.2 hexpiry]
  case proposal.updateProposal => exact nomatch h.trans h'.symm
  case updateProposal.proposal => exact nomatch h.trans h'.symm
  case updateProposal.updateProposal =>
    rw [← h', SignedMessage.updateProposal.injEq] at h
    obtain ⟨hid, rfl, htxs, hdescription, hexpiry⟩ := h
    rw [ProposalTxs.data_inj hp.1 hp'.1 htxs, bytesOfString_injective hdescription,
      ofNat_inj hp.2.1 hp'.2.1 hexpiry, ofNat_inj hp.2.2 hp'.2.2 hid]

end Preimage

end Nouns
