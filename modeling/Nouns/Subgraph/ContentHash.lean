import Nouns.Governance.TypedData
import Nouns.Lib.Hex

/-!
# ContentHash — the hash of an indexed proposal

`calcEncodedProposalHash` of `helpers.ts`, and the fields of the proposal that it reads, as
`ParsedProposalV3.ts` and `nouns-dao.ts` take them from events.  The functions of the `graph-ts`
package are parameters.
-/

namespace Nouns.Subgraph

/-! ## The package -/

/-- A value to encode. -/
inductive EthereumValue
  | address (a : Address)
  | fixedBytes (bytes : Bytes)

/-- What is used of the package.  `none` is an abort. -/
structure GraphTs where
  /-- `Bytes.toHex`. -/
  bytesToHex : Bytes → List Char
  /-- `BigInt.toHex`. -/
  bigIntToHex : Nat → List Char
  /-- `BigInt.toString`. -/
  bigIntToString : Nat → List Char
  /-- `BigInt.fromString`. -/
  bigIntFromString : List Char → Option Nat
  /-- `Bytes.fromHexString`. -/
  fromHexString : List Char → Option Bytes
  /-- `Address.fromString`. -/
  addressFromString : List Char → Option Address
  /-- `ethereum.encode` of a tuple. -/
  encode : List EthereumValue → Option Bytes
  /-- A `string` parameter of an event, from its bytes. -/
  decodeString : Bytes → String

/-- The word that `abi.encode` makes of a value. -/
def EthereumValue.word : EthereumValue → Bytes
  | address a => a.toBytes
  | fixedBytes bytes => bytes

/-- The documented behaviour. -/
structure GraphTs.Documented (G : GraphTs) : Prop where
  bytesToHex_eq : ∀ bytes, G.bytesToHex bytes = '0' :: 'x' :: Hex.digitsOf bytes
  bigIntToHex_eq : ∀ n, G.bigIntToHex n = '0' :: 'x' :: Nat.toDigits 16 n
  bigIntFromString_toString : ∀ n, G.bigIntFromString (G.bigIntToString n) = some n
  fromHexString_eq : ∀ digits n, Hex.read digits = some n → digits.length % 2 = 0 →
    G.fromHexString digits = some (Words.bytesOf (digits.length / 2) n)
  addressFromString_eq : ∀ a : Address,
    G.addressFromString ('0' :: 'x' :: Hex.digitsOf (Words.bytesOf 20 a.val)) = some a
  /-- Of values that take a word each. -/
  encode_eq : ∀ values : List EthereumValue, (∀ v ∈ values, v.word.length = 32) →
    G.encode values = some (values.flatMap EthereumValue.word)
  decodeString_eq : ∀ s, G.decodeString (bytesOfString s) = s

/-! ## Strings -/

/-- `s.replace(search, replacement)`, of the first occurrence. -/
def replaceFirst (search replacement : List Char) : List Char → List Char
  | [] => if search = [] then replacement else []
  | c :: s =>
    if search <+: c :: s then replacement ++ (c :: s).drop search.length
    else c :: replaceFirst search replacement s

/-- `s.split('\\n')`, at each backslash with an `n` after it. -/
def splitEscapes : List Char → List (List Char)
  | [] => [[]]
  | '\\' :: 'n' :: s => [] :: splitEscapes s
  | c :: s =>
    match splitEscapes s with
    | [] => [[c]]
    | piece :: pieces => (c :: piece) :: pieces

/-- `s.split('\\n').join('\n')`. -/
def unescape (s : String) : String := .ofList (List.intercalate ['\n'] (splitEscapes s.toList))

/-- What the pieces join to. -/
def unescapeChars (s : List Char) : List Char := List.intercalate ['\n'] (splitEscapes s)

theorem splitEscapes_ne_nil (s : List Char) : splitEscapes s ≠ [] := by
  fun_induction splitEscapes s <;> simp

theorem unescapeChars_escape (s : List Char) :
    unescapeChars ('\\' :: 'n' :: s) = '\n' :: unescapeChars s := by
  unfold unescapeChars
  rw [splitEscapes]
  cases hpieces : splitEscapes s with
  | nil => exact absurd hpieces (splitEscapes_ne_nil s)
  | cons piece pieces => rfl

theorem unescapeChars_cons {c : Char} {s : List Char} (h : ∀ s', c = '\\' → s = 'n' :: s' → False) :
    unescapeChars (c :: s) = c :: unescapeChars s := by
  unfold unescapeChars
  rw [splitEscapes]
  · cases hpieces : splitEscapes s with
    | nil => exact absurd hpieces (splitEscapes_ne_nil s)
    | cons piece pieces => cases pieces <;> rfl
  · exact h

/-- Every escape takes one character away. -/
theorem unescapeChars_shorter (s : List Char) :
    (unescapeChars s).length ≤ s.length ∧
      (['\\', 'n'] <:+: s → (unescapeChars s).length < s.length) := by
  have hother : ∀ {c : Char} {s : List Char}, (∀ s', c = '\\' → s = 'n' :: s' → False) →
      (unescapeChars s).length ≤ s.length ∧
        (['\\', 'n'] <:+: s → (unescapeChars s).length < s.length) →
      (unescapeChars (c :: s)).length ≤ (c :: s).length ∧
        (['\\', 'n'] <:+: c :: s → (unescapeChars (c :: s)).length < (c :: s).length) := by
    intro c s h ih
    rw [unescapeChars_cons h, List.length_cons, List.length_cons]
    refine ⟨Nat.succ_le_succ ih.1, fun hinfix => Nat.succ_lt_succ (ih.2 ?_)⟩
    -- The escape does not stand at the start.
    rcases List.infix_cons_iff.mp hinfix with ⟨t, ht⟩ | hinfix
    · obtain ⟨hc, hs⟩ := List.cons.inj ht
      exact absurd hs.symm fun hs => h _ hc.symm hs
    · exact hinfix
  induction s using splitEscapes.induct with
  | case1 => exact ⟨le_rfl, fun h => absurd h (by decide)⟩
  | case2 s ih =>
    rw [unescapeChars_escape]
    have := ih.1
    simp only [List.length_cons]
    exact ⟨by omega, fun _ => by omega⟩
  | case3 c s h _ ih => exact hother h ih
  | case4 c s h _ _ _ ih => exact hother h ih

theorem unescapeChars_eq_self {s : List Char} (h : ¬ ['\\', 'n'] <:+: s) : unescapeChars s = s := by
  have hother : ∀ {c : Char} {s : List Char}, (∀ s', c = '\\' → s = 'n' :: s' → False) →
      (¬ ['\\', 'n'] <:+: s → unescapeChars s = s) →
      ¬ ['\\', 'n'] <:+: c :: s → unescapeChars (c :: s) = c :: s := by
    intro c s hc ih h
    rw [unescapeChars_cons hc, ih fun hinfix => h (List.infix_cons hinfix)]
  induction s using splitEscapes.induct with
  | case1 => rfl
  | case2 s => exact absurd ⟨[], s, rfl⟩ h
  | case3 c s hc _ ih => exact hother hc ih h
  | case4 c s hc _ _ _ ih => exact hother hc ih h

theorem unescape_eq_self_iff {s : String} : unescape s = s ↔ ¬ ['\\', 'n'] <:+: s.toList := by
  have hchars : (unescape s).toList = unescapeChars s.toList := String.toList_ofList
  refine ⟨fun h hinfix => ?_, fun h => ?_⟩
  · have hlt := (unescapeChars_shorter s.toList).2 hinfix
    rw [← hchars, h] at hlt
    exact absurd hlt (lt_irrefl _)
  · apply String.toList_inj.mp
    rw [hchars, unescapeChars_eq_self h]

/-! ## Proposals -/

/-- The parameters of the events that create and update a proposal, as the DAO emits them. -/
structure ProposalParams where
  txs : ProposalData
  description : Bytes
deriving DecidableEq

/-- The fields of a proposal that its hash is computed from. -/
structure ProposalContent where
  id : List Char
  proposer : List Char
  targets : List Bytes
  values : List Nat
  signatures : List String
  calldatas : List Bytes
  description : String

namespace ProposalContent

variable (G : GraphTs)

/-- A 20-byte address. -/
def addressBytes (a : Address) : Bytes := Words.bytesOf 20 a.val

/-- `handleProposalCreated` of what `fromV3Event` parses. -/
def handleProposalCreated (id : Word) (proposer : Address) (params : ProposalParams) :
    ProposalContent where
  id := G.bigIntToString id.toNat
  proposer := G.bytesToHex (addressBytes proposer)
  targets := params.txs.targets.map addressBytes
  values := params.txs.values.map Word.toNat
  signatures := params.txs.signatures.map G.decodeString
  calldatas := params.txs.calldatas
  description := unescape (G.decodeString params.description)

/-- `handleProposalUpdated`, of the same proposal. -/
def handleProposalUpdated (proposal : ProposalContent) (params : ProposalParams) : ProposalContent :=
  { proposal with
    targets := params.txs.targets.map addressBytes
    values := params.txs.values.map Word.toNat
    signatures := params.txs.signatures.map G.decodeString
    calldatas := params.txs.calldatas
    description := unescape (G.decodeString params.description) }

/-- `Bytes.fromHexString(hex.replace('0x', '').padStart(64, '0'))`. -/
def wordOfHex (hex : List Char) : Option Bytes :=
  G.fromHexString (List.leftpad 64 '0' (replaceFirst ['0', 'x'] [] hex))

/-- The bytes of each item, one after the other. -/
def concatMap {α : Type} (f : α → Option Bytes) : List α → Option Bytes
  | [] => some []
  | a :: as => do return (← f a) ++ (← concatMap f as)

def calcEncodedProposalHash (keccak256 : Bytes → Word) (proposal : ProposalContent)
    (isUpdate : Bool) : Option Word := do
  let signatureHashes := proposal.signatures.flatMap fun s => (keccak256 (bytesOfString s)).toBytes
  let calldatasHashes := proposal.calldatas.flatMap fun b => (keccak256 b).toBytes
  let targetsConcat ← concatMap (fun target => wordOfHex G (G.bytesToHex target)) proposal.targets
  let valuesConcat ← concatMap (fun value => wordOfHex G (G.bigIntToHex value)) proposal.values
  let proposer ← G.addressFromString proposal.proposer
  let proposalEncodeData ← G.encode [.address proposer, .fixedBytes (keccak256 targetsConcat).toBytes,
    .fixedBytes (keccak256 valuesConcat).toBytes, .fixedBytes (keccak256 signatureHashes).toBytes,
    .fixedBytes (keccak256 calldatasHashes).toBytes,
    .fixedBytes (keccak256 (bytesOfString proposal.description)).toBytes]
  if isUpdate then
    let proposalId ← wordOfHex G (G.bigIntToHex (← G.bigIntFromString proposal.id))
    return keccak256 (proposalId ++ proposalEncodeData)
  else return keccak256 proposalEncodeData

/-! ## Hex strings -/

section

variable {G}

theorem replaceFirst_hex (digits : List Char) :
    replaceFirst ['0', 'x'] [] ('0' :: 'x' :: digits) = digits := by
  rw [replaceFirst, if_pos ⟨digits, rfl⟩]
  rfl

theorem wordOfHex_eq (hG : G.Documented) {digits : List Char} {n : Nat}
    (hread : Hex.read digits = some n) (hlength : digits.length ≤ 64) :
    wordOfHex G ('0' :: 'x' :: digits) = some (Words.bytesOf 32 n) := by
  have hpadded : (List.leftpad 64 '0' digits).length = 64 := by
    rw [List.length_leftpad]
    omega
  rw [wordOfHex, replaceFirst_hex,
    hG.fromHexString_eq _ n (by rw [Hex.read_leftpad, hread]) (by rw [hpadded]), hpadded]

theorem numberOf_addressBytes (a : Address) : Words.numberOf (addressBytes a) = a.val := by
  rw [addressBytes, Words.numberOf_bytesOf, Nat.mod_eq_of_lt (a.isLt.trans_eq (by norm_num))]

theorem wordOfHex_address (hG : G.Documented) (a : Address) :
    wordOfHex G (G.bytesToHex (addressBytes a)) = some a.toBytes := by
  rw [hG.bytesToHex_eq, wordOfHex_eq hG (Hex.read_digitsOf _)
    (by rw [Hex.length_digitsOf, addressBytes, Words.length_bytesOf]; decide),
    numberOf_addressBytes]
  rfl

theorem wordOfHex_word (hG : G.Documented) (w : Word) :
    wordOfHex G (G.bigIntToHex w.toNat) = some w.toBytes := by
  have hlength : (Nat.toDigits 16 w.toNat).length ≤ 64 :=
    (Nat.length_toDigits_le_iff (by decide) (by decide)).mpr (w.isLt.trans_eq (by norm_num))
  rw [hG.bigIntToHex_eq, wordOfHex_eq hG (Hex.read_toDigits _) hlength]
  rfl

theorem concatMap_eq {α β : Type} {f : α → Option Bytes} {g : β → Bytes} {h : β → α}
    (hf : ∀ b, f (h b) = some (g b)) (bs : List β) :
    concatMap f (bs.map h) = some (bs.flatMap g) := by
  induction bs with
  | nil => rfl
  | cons b bs ih =>
    rw [List.map_cons, concatMap, hf, ih]
    rfl

end

/-! ## The hash of an indexed proposal -/

/-- The transactions with their signatures as strings and back. -/
def readBack (txs : ProposalData) : ProposalData :=
  { txs with signatures := txs.signatures.map fun s => bytesOfString (G.decodeString s) }

/-- The description as a string without escapes. -/
def readDescription (description : Bytes) : Bytes :=
  bytesOfString (unescape (G.decodeString description))

variable {G} {keccak256 : Bytes → Word}

/-- The fields are those of the parameters. -/
structure Holds (G : GraphTs) (proposal : ProposalContent) (id : Word) (proposer : Address)
    (params : ProposalParams) : Prop where
  id : proposal.id = G.bigIntToString id.toNat
  proposer : proposal.proposer = G.bytesToHex (addressBytes proposer)
  targets : proposal.targets = params.txs.targets.map addressBytes
  values : proposal.values = params.txs.values.map Word.toNat
  signatures : proposal.signatures = params.txs.signatures.map G.decodeString
  calldatas : proposal.calldatas = params.txs.calldatas
  description : proposal.description = unescape (G.decodeString params.description)

theorem holds_created (id : Word) (proposer : Address) (params : ProposalParams) :
    Holds G (handleProposalCreated G id proposer params) id proposer params :=
  ⟨rfl, rfl, rfl, rfl, rfl, rfl, rfl⟩

theorem Holds.updated {proposal : ProposalContent} {id : Word} {proposer : Address}
    {params : ProposalParams} (h : Holds G proposal id proposer params) (params' : ProposalParams) :
    Holds G (handleProposalUpdated G proposal params') id proposer params' :=
  ⟨h.id, h.proposer, rfl, rfl, rfl, rfl, rfl⟩

/-- The hash is that of the contract's encoding of what is read back. -/
theorem calcEncodedProposalHash_eq (hG : G.Documented) {proposal : ProposalContent} {id : Word}
    {proposer : Address} {params : ProposalParams} (h : Holds G proposal id proposer params)
    (isUpdate : Bool) :
    calcEncodedProposalHash G keccak256 proposal isUpdate =
      some (keccak256 ((if isUpdate then id.toBytes else []) ++ calcProposalEncodeData keccak256
        proposer (readBack G params.txs) (readDescription G params.description))) := by
  have htargets : concatMap (fun target => wordOfHex G (G.bytesToHex target)) proposal.targets =
      some (encodePackedAddresses params.txs.targets) := by
    rw [h.targets]
    exact concatMap_eq (f := fun target => wordOfHex G (G.bytesToHex target)) (h := addressBytes)
      (wordOfHex_address hG) params.txs.targets
  have hvalues : concatMap (fun value => wordOfHex G (G.bigIntToHex value)) proposal.values =
      some (encodePackedWords params.txs.values) := by
    rw [h.values]
    exact concatMap_eq (f := fun value => wordOfHex G (G.bigIntToHex value)) (h := Word.toNat)
      (wordOfHex_word hG) params.txs.values
  have hproposer : G.addressFromString proposal.proposer = some proposer := by
    rw [h.proposer, hG.bytesToHex_eq]
    exact hG.addressFromString_eq proposer
  have hsignatures : (proposal.signatures.flatMap fun s => (keccak256 (bytesOfString s)).toBytes) =
      encodePackedWords ((readBack G params.txs).signatures.map keccak256) := by
    rw [h.signatures, encodePackedWords, readBack, List.flatMap_map, List.flatMap_map,
      List.flatMap_map]
  have hcalldatas : (proposal.calldatas.flatMap fun b => (keccak256 b).toBytes) =
      encodePackedWords (params.txs.calldatas.map keccak256) := by
    rw [h.calldatas, encodePackedWords, List.flatMap_map]
  -- Six words, one for each value of the tuple.
  have hencode := hG.encode_eq [.address proposer,
    .fixedBytes (keccak256 (encodePackedAddresses params.txs.targets)).toBytes,
    .fixedBytes (keccak256 (encodePackedWords params.txs.values)).toBytes,
    .fixedBytes (keccak256 (encodePackedWords
      ((readBack G params.txs).signatures.map keccak256))).toBytes,
    .fixedBytes (keccak256 (encodePackedWords (params.txs.calldatas.map keccak256))).toBytes,
    .fixedBytes (keccak256 (bytesOfString proposal.description)).toBytes] (by
      simp [EthereumValue.word])
  have hdata : [EthereumValue.address proposer,
      .fixedBytes (keccak256 (encodePackedAddresses params.txs.targets)).toBytes,
      .fixedBytes (keccak256 (encodePackedWords params.txs.values)).toBytes,
      .fixedBytes (keccak256 (encodePackedWords
        ((readBack G params.txs).signatures.map keccak256))).toBytes,
      .fixedBytes (keccak256 (encodePackedWords (params.txs.calldatas.map keccak256))).toBytes,
      .fixedBytes (keccak256 (bytesOfString proposal.description)).toBytes].flatMap
        EthereumValue.word = calcProposalEncodeData keccak256 proposer (readBack G params.txs)
          (readDescription G params.description) := by
    rw [h.description]
    simp [EthereumValue.word, calcProposalEncodeData, readBack, readDescription]
  rw [hdata] at hencode
  simp only [calcEncodedProposalHash, htargets, hvalues, hproposer, hsignatures, hcalldatas, hencode,
    Option.bind_eq_bind, Option.bind_some]
  cases isUpdate with
  | false => simp only [Bool.false_eq_true, if_false, List.nil_append, Option.pure_def]
  | true =>
    simp only [if_true, h.id, hG.bigIntFromString_toString, Option.bind_some, wordOfHex_word hG,
      Option.pure_def]

/-! ## When the hashes agree -/

/-- The bytes are those of a string. -/
def IsUtf8 (bytes : Bytes) : Prop := (⟨bytes.toArray⟩ : ByteArray).IsValidUTF8

instance (bytes : Bytes) : Decidable (IsUtf8 bytes) :=
  inferInstanceAs (Decidable (ByteArray.IsValidUTF8 _))

theorem isUtf8_bytesOfString (s : String) : IsUtf8 (bytesOfString s) := s.isValidUTF8

theorem bytesOfString_decodeString_iff (hG : G.Documented) {bytes : Bytes} :
    bytesOfString (G.decodeString bytes) = bytes ↔ IsUtf8 bytes := by
  refine ⟨fun h => h ▸ isUtf8_bytesOfString _, fun h => ?_⟩
  have hbytes : bytesOfString ⟨⟨bytes.toArray⟩, h⟩ = bytes := rfl
  rw [← hbytes, hG.decodeString_eq]

theorem readBack_eq_self_iff (hG : G.Documented) {txs : ProposalData} :
    readBack G txs = txs ↔ ∀ s ∈ txs.signatures, IsUtf8 s := by
  refine ⟨fun h s hs => ?_, fun h => ?_⟩
  · have hmap : txs.signatures.map (fun s => bytesOfString (G.decodeString s)) =
        txs.signatures.map fun s => s :=
      (congrArg ProposalData.signatures h).trans (List.map_id' _).symm
    exact (bytesOfString_decodeString_iff hG).mp (List.map_inj_left.mp hmap s hs)
  · apply ProposalData.ext
    · rfl
    · rfl
    · have hmap := List.map_congr_left fun s hs => (bytesOfString_decodeString_iff hG).mpr (h s hs)
      exact hmap.trans (List.map_id' _)
    · rfl

theorem readDescription_eq_self_iff (hG : G.Documented) {description : String} :
    readDescription G (bytesOfString description) = bytesOfString description ↔
      ¬ ['\\', 'n'] <:+: description.toList := by
  rw [readDescription, hG.decodeString_eq, bytesOfString_injective.eq_iff, unescape_eq_self_iff]

variable (G keccak256)

/-- The strings that are hashed for the contract and for the subgraph. -/
def hashedStrings (id : Word) (proposer : Address) (txs : ProposalData) (description : String) :
    List Bytes :=
  let data := calcProposalEncodeData keccak256 proposer txs (bytesOfString description)
  let indexed := calcProposalEncodeData keccak256 proposer (readBack G txs)
    (readDescription G (bytesOfString description))
  [data, indexed, id.toBytes ++ data, id.toBytes ++ indexed] ++
    (txs.hashed keccak256 (bytesOfString description) ++
      (readBack G txs).hashed keccak256 (readDescription G (bytesOfString description)))

/-- The proposal after updates. -/
def updatedBy (proposal : ProposalContent) (updates : List ProposalParams) : ProposalContent :=
  updates.foldl (handleProposalUpdated G) proposal

variable {G keccak256}

theorem Holds.updatedBy {proposal : ProposalContent} {id : Word} {proposer : Address}
    {params : ProposalParams} (h : Holds G proposal id proposer params)
    (updates : List ProposalParams) :
    ∃ params', Holds G (updatedBy G proposal updates) id proposer params' := by
  induction updates generalizing proposal params with
  | nil => exact ⟨params, h⟩
  | cons update updates ih => exact ih (h.updated update)

/-- What is hashed on both sides is the same exactly if it is read back unchanged. -/
theorem encodeData_eq_iff (hG : G.Documented) {id : Word} {proposer : Address} {txs : ProposalData}
    {description : String}
    (hkeccak : CollisionFree keccak256 (hashedStrings G keccak256 id proposer txs description)) :
    calcProposalEncodeData keccak256 proposer (readBack G txs)
        (readDescription G (bytesOfString description)) =
      calcProposalEncodeData keccak256 proposer txs (bytesOfString description) ↔
    (∀ s ∈ txs.signatures, IsUtf8 s) ∧ ¬ ['\\', 'n'] <:+: description.toList := by
  rw [← readBack_eq_self_iff hG, ← readDescription_eq_self_iff hG]
  refine ⟨fun h => ?_, fun h => by rw [h.1, h.2]⟩
  obtain ⟨-, htxs, hdescription⟩ := calcProposalEncodeData_inj
    (hkeccak.mono (List.subset_append_right _ _)) h.symm
  exact ⟨htxs.symm, hdescription.symm⟩

/-- The indexed hashes of a new proposal, and of a proposal after the last of its updates, are the
contract's exactly if the signatures are UTF-8 and no backslash in the description is followed by an
`n`. -/
theorem contentHash_agrees_iff (hG : G.Documented) (id : Word) (proposer : Address)
    (txs : ProposalData) (description : String)
    (hkeccak : CollisionFree keccak256 (hashedStrings G keccak256 id proposer txs description)) :
    (calcEncodedProposalHash G keccak256
        (handleProposalCreated G id proposer ⟨txs, bytesOfString description⟩) false =
          some (keccak256 (calcProposalEncodeData keccak256 proposer txs
            (bytesOfString description))) ∧
      ∀ (first : ProposalParams) (updates : List ProposalParams),
        calcEncodedProposalHash G keccak256 (handleProposalUpdated G
          (updatedBy G (handleProposalCreated G id proposer first) updates)
          ⟨txs, bytesOfString description⟩) true =
          some (keccak256 (id.toBytes ++ calcProposalEncodeData keccak256 proposer txs
            (bytesOfString description)))) ↔
    (∀ s ∈ txs.signatures, IsUtf8 s) ∧ ¬ ['\\', 'n'] <:+: description.toList := by
  have hcreated := @calcEncodedProposalHash_eq G keccak256 hG _ _ _ _
    (holds_created id proposer ⟨txs, bytesOfString description⟩) false
  rw [if_neg Bool.false_ne_true, List.nil_append] at hcreated
  rw [← encodeData_eq_iff hG hkeccak, hcreated, Option.some.injEq]
  refine ⟨fun h => ?_, fun h => ⟨congrArg keccak256 h, fun first updates => ?_⟩⟩
  · exact hkeccak _ (by simp [hashedStrings]) _ (by simp [hashedStrings]) h.1
  · obtain ⟨params, hholds⟩ := (@holds_created G id proposer first).updatedBy updates
    have hupdated := @calcEncodedProposalHash_eq G keccak256 hG _ _ _ _
      (hholds.updated ⟨txs, bytesOfString description⟩) true
    rw [if_pos rfl] at hupdated
    rw [hupdated, h]

/-- The address of a number. -/
def addressOfNumber (n : Nat) : Address := ⟨n % 2 ^ 160, Nat.mod_lt n (Nat.two_pow_pos 160)⟩

theorem addressOfNumber_val (a : Address) : addressOfNumber a.val = a :=
  Fin.ext (Nat.mod_eq_of_lt a.isLt)

/-- The address that `0x` and its digits stand for. -/
def addressOfHex (s : List Char) : Option Address := (Hex.read (s.drop 2)).map addressOfNumber

theorem addressOfHex_eq (a : Address) :
    addressOfHex ('0' :: 'x' :: Hex.digitsOf (Words.bytesOf 20 a.val)) = some a := by
  have hnumber : Words.numberOf (Words.bytesOf 20 a.val) = a.val := numberOf_addressBytes a
  rw [addressOfHex, List.drop_succ_cons, List.drop_succ_cons, List.drop_zero, Hex.read_digitsOf,
    hnumber, Option.map_some, addressOfNumber_val]

/-- An instance, which agrees with the package on ids below 10. -/
def sampleGraphTs : GraphTs where
  bytesToHex := fun bytes => '0' :: 'x' :: Hex.digitsOf bytes
  bigIntToHex := fun n => '0' :: 'x' :: Nat.toDigits 16 n
  bigIntToString := Nat.toDigits 16
  bigIntFromString := Hex.read
  fromHexString := fun digits =>
    if digits.length % 2 = 0 then (Hex.read digits).map (Words.bytesOf (digits.length / 2)) else none
  addressFromString := addressOfHex
  encode := fun values => some (values.flatMap EthereumValue.word)
  decodeString := fun bytes => if h : IsUtf8 bytes then ⟨⟨bytes.toArray⟩, h⟩ else ""

theorem sampleGraphTs_documented : sampleGraphTs.Documented where
  bytesToHex_eq := fun _ => rfl
  bigIntToHex_eq := fun _ => rfl
  bigIntFromString_toString := Hex.read_toDigits
  fromHexString_eq := fun digits n hread hlength => by
    change (if digits.length % 2 = 0 then _ else none) = _
    rw [if_pos hlength, hread]
    rfl
  addressFromString_eq := fun a => by
    rw [show sampleGraphTs.addressFromString = addressOfHex from rfl, addressOfHex_eq]
  encode_eq := fun _ _ => rfl
  decodeString_eq := fun s => by
    change (if h : IsUtf8 (bytesOfString s) then _ else "") = s
    rw [dif_pos (isUtf8_bytesOfString s)]
    rfl

/-- A transaction with an empty signature. -/
def sampleData : ProposalData := ⟨[1], [3], [[]], [[6]]⟩

theorem sample_readDescription :
    readDescription sampleGraphTs (bytesOfString "\\n") = bytesOfString "\n" := by
  rw [readDescription, sampleGraphTs_documented.decodeString_eq]
  decide +kernel

/-- The description is a backslash and an `n`. -/
theorem escape_not_agreed :
    ¬ ∀ (G : GraphTs) (keccak256 : Bytes → Word), G.Documented →
      ∀ (id : Word) (proposer : Address) (txs : ProposalData) (description : String),
        calcEncodedProposalHash G keccak256
          (handleProposalCreated G id proposer ⟨txs, bytesOfString description⟩) false =
            some (keccak256 (calcProposalEncodeData keccak256 proposer txs
              (bytesOfString description))) := by
  intro hall
  have h := hall sampleGraphTs SignedMessage.sampleKeccak256 sampleGraphTs_documented 1 7 sampleData
    "\\n"
  rw [calcEncodedProposalHash_eq sampleGraphTs_documented (holds_created 1 7 _), if_neg
    Bool.false_ne_true, List.nil_append, Option.some.injEq, sample_readDescription] at h
  revert h
  decide +kernel

theorem contentHash_agrees_iff_sample :
    calcEncodedProposalHash sampleGraphTs SignedMessage.sampleKeccak256
        (handleProposalCreated sampleGraphTs 1 7 ⟨sampleData, bytesOfString "a"⟩) false =
      some (SignedMessage.sampleKeccak256 (calcProposalEncodeData SignedMessage.sampleKeccak256 7
        sampleData (bytesOfString "a"))) := by
  have hdescription : readDescription sampleGraphTs (bytesOfString "a") = bytesOfString "a" :=
    (readDescription_eq_self_iff sampleGraphTs_documented).mpr (by decide +kernel)
  have hkeccak : CollisionFree SignedMessage.sampleKeccak256
      (hashedStrings sampleGraphTs SignedMessage.sampleKeccak256 1 7 sampleData "a") := by
    unfold CollisionFree hashedStrings
    rw [hdescription]
    decide +kernel
  have hutf8 : ∀ s ∈ sampleData.signatures, IsUtf8 s := by
    intro s hs
    rw [List.mem_singleton.mp hs]
    exact isUtf8_bytesOfString ""
  exact ((contentHash_agrees_iff sampleGraphTs_documented 1 7 sampleData "a" hkeccak).mpr
    ⟨hutf8, by decide +kernel⟩).1

end ProposalContent

end Nouns.Subgraph
