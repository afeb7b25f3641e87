import Nouns.Evm
import Nouns.Lib.Hex
import Nouns.Lib.Words

/-!
# Seeder — pseudorandom seeds

`NounsSeeder.sol`, and the functions of `utils.ts` of the assets package that emulate it.  Strings are
lists of characters.  `keccak256` is a parameter, and so is the package that the emulation takes its
integers from.
-/

open Fallible

namespace Nouns

structure Seed where
  background : Nat
  body : Nat
  accessory : Nat
  head : Nat
  glasses : Nat
deriving DecidableEq, Repr

/-- How many of each there are: what the descriptor answers, and the lengths of the image data. -/
structure PartCounts where
  backgroundCount : Nat
  bodyCount : Nat
  accessoryCount : Nat
  headCount : Nat
  glassesCount : Nat

/-! ## NounsSeeder -/

namespace NounsSeeder

/-- `uint48(uint48(pseudorandomness >> shift) % count)`. -/
def part (pseudorandomness shift count : Nat) : Tx Nat := do
  require (count ≠ 0) .panic
  return (pseudorandomness >>> shift) % 2 ^ 48 % count % 2 ^ 48

/-- `blockHash` is that of the previous block. -/
def generateSeed (keccak256 : Bytes → Word) (blockHash nounId : Word) (descriptor : PartCounts) :
    Tx Seed := do
  let pseudorandomness := (keccak256 (blockHash.toBytes ++ nounId.toBytes)).toNat
  return {
    background := ← part pseudorandomness 0 descriptor.backgroundCount
    body := ← part pseudorandomness 48 descriptor.bodyCount
    accessory := ← part pseudorandomness 96 descriptor.accessoryCount
    head := ← part pseudorandomness 144 descriptor.headCount
    glasses := ← part pseudorandomness 192 descriptor.glassesCount }

end NounsSeeder

/-! ## Integers of the emulation -/

/-- What the emulation uses of the package's `BigNumber`.  `none` is an exception. -/
structure BigNumberPackage where
  ofString : List Char → Option Nat
  ofNumber : Nat → Option Nat
  shr : Nat → Nat → Nat
  mod : Nat → Nat → Option Nat
  toNumber : Nat → Option Nat
  toHexString : Nat → List Char

namespace BigNumberPackage

/-- The largest safe integer, from which on numbers are refused. -/
def MAX_SAFE : Nat := 2 ^ 53 - 1

/-- Whole bytes, two digits each. -/
def byteDigits (n : Nat) : List Char :=
  let digits := Nat.toDigits 16 n
  if digits.length % 2 = 0 then digits else '0' :: digits

/-- The documented behaviour, on hex strings and on naturals. -/
structure Documented (B : BigNumberPackage) : Prop where
  ofString_eq : ∀ digits, digits ≠ [] → B.ofString ('0' :: 'x' :: digits) = Hex.read digits
  ofNumber_eq : ∀ n, B.ofNumber n = if n < MAX_SAFE then some n else none
  shr_eq : ∀ n shift, B.shr n shift = n >>> shift
  mod_eq : ∀ n m, B.mod n m = if m = 0 then none else some (n % m)
  toNumber_eq : ∀ n ≤ MAX_SAFE, B.toNumber n = some n
  toHexString_eq : ∀ n, B.toHexString n = '0' :: 'x' :: byteDigits n

/-- An instance, for hex strings only. -/
def sample : BigNumberPackage where
  ofString := fun s => if s.length ≤ 2 then none else Hex.read (s.drop 2)
  ofNumber := fun n => if n < MAX_SAFE then some n else none
  shr := fun n shift => n >>> shift
  mod := fun n m => if m = 0 then none else some (n % m)
  toNumber := some
  toHexString := fun n => '0' :: 'x' :: byteDigits n

theorem sample_documented : sample.Documented where
  ofString_eq := by
    intro digits h
    have := List.length_pos_iff.mpr h
    change (if digits.length + 1 + 1 ≤ 2 then none else Hex.read digits) = _
    rw [if_neg (by omega)]
  ofNumber_eq := fun _ => rfl
  shr_eq := fun _ _ => rfl
  mod_eq := fun _ _ => rfl
  toNumber_eq := fun _ _ => rfl
  toHexString_eq := fun _ => rfl

theorem read_byteDigits (n : Nat) : Hex.read (byteDigits n) = some n := by
  dsimp only [byteDigits]
  split
  · exact Hex.read_toDigits n
  · rw [Hex.read_cons, Hex.read_toDigits]
    simp [Hex.digitValue]

theorem length_byteDigits_even (n : Nat) : (byteDigits n).length % 2 = 0 := by
  dsimp only [byteDigits]
  split
  · assumption
  · rw [List.length_cons]
    omega

/-- Six bytes or more. -/
theorem length_byteDigits {n : Nat} : 12 ≤ (byteDigits n).length ↔ 2 ^ 40 ≤ n := by
  have hlength := Nat.length_toDigits_le_iff (n := n) (k := 10) (by decide : 1 < 16) (by decide)
  rw [show (16 : Nat) ^ 10 = 2 ^ 40 by norm_num] at hlength
  rw [← not_lt (a := n), ← hlength]
  dsimp only [byteDigits]
  split
  · omega
  · rw [List.length_cons]
    omega

end BigNumberPackage

/-! ## The emulation -/

section

variable (B : BigNumberPackage)

/-- `shifted.substring(start)` starts at 0 if `start` is negative. -/
def shiftRightAndCast (value : List Char) (shiftAmount uintSize : Nat) : Option (List Char) := do
  let shifted := B.toHexString (B.shr (← B.ofString value) shiftAmount)
  return '0' :: 'x' :: shifted.drop ((4 * shifted.length - uintSize) / 4)

def getPseudorandomPart (pseudorandomness : List Char) (partCount shiftAmount uintSize : Nat) :
    Option Nat := do
  let hex ← shiftRightAndCast B pseudorandomness shiftAmount uintSize
  B.toNumber (← B.mod (← B.ofString hex) (← B.ofNumber partCount))

/-- A hash as a hex string. -/
def hexOfWord (w : Word) : List Char := '0' :: 'x' :: List.leftpad 64 '0' (Nat.toDigits 16 w.toNat)

def solidityKeccak256 (keccak256 : Bytes → Word) (blockHash nounId : Word) : List Char :=
  hexOfWord (keccak256 (blockHash.toBytes ++ nounId.toBytes))

def getNounSeedFromBlockHash (keccak256 : Bytes → Word) (counts : PartCounts)
    (nounId blockHash : Word) : Option Seed := do
  let pseudorandomness := solidityKeccak256 keccak256 blockHash nounId
  return {
    background := ← getPseudorandomPart B pseudorandomness counts.backgroundCount 0 48
    body := ← getPseudorandomPart B pseudorandomness counts.bodyCount 48 48
    accessory := ← getPseudorandomPart B pseudorandomness counts.accessoryCount 96 48
    head := ← getPseudorandomPart B pseudorandomness counts.headCount 144 48
    glasses := ← getPseudorandomPart B pseudorandomness counts.glassesCount 192 48 }

variable {B}

theorem shiftRightAndCast_eq (hB : B.Documented) {value : List Char} {n : Nat}
    (hvalue : B.ofString value = some n) (shift : Nat) :
    shiftRightAndCast B value shift 48 = some ('0' :: 'x' ::
      ('0' :: 'x' :: BigNumberPackage.byteDigits (n >>> shift)).drop
        ((BigNumberPackage.byteDigits (n >>> shift)).length - 10)) := by
  have hstart : ∀ length, (4 * (length + 1 + 1) - 48) / 4 = length - 10 := by omega
  simp only [shiftRightAndCast, hvalue, hB.shr_eq, hB.toHexString_eq, List.length_cons, hstart]
  rfl

/-- The last twelve digits are read, if there are so many. -/
theorem ofString_shiftRightAndCast (hB : B.Documented) {value hex : List Char} {n : Nat}
    (hvalue : B.ofString value = some n) (shift : Nat)
    (hhex : shiftRightAndCast B value shift 48 = some hex) :
    B.ofString hex = if 2 ^ 40 ≤ n >>> shift then some (n >>> shift % 2 ^ 48) else none := by
  rw [shiftRightAndCast_eq hB hvalue, Option.some.injEq] at hhex
  subst hhex
  have hread := BigNumberPackage.read_byteDigits (n >>> shift)
  have hlength := BigNumberPackage.length_byteDigits (n := n >>> shift)
  have heven := BigNumberPackage.length_byteDigits_even (n >>> shift)
  generalize BigNumberPackage.byteDigits (n >>> shift) = digits at *
  split
  · rename_i hle
    have htwelve := hlength.mpr hle
    obtain ⟨k, hk⟩ : ∃ k, digits.length = k + 12 := ⟨digits.length - 12, by omega⟩
    have hlast := Hex.read_drop hread htwelve
    rw [hk, show k + 12 - 10 = k + 1 + 1 by omega, List.drop_succ_cons, List.drop_succ_cons,
      hB.ofString_eq]
    · rwa [hk, Nat.add_sub_cancel, show (16 : Nat) ^ 12 = 2 ^ 48 by norm_num] at hlast
    · intro hnil
      have := congrArg List.length hnil
      rw [List.length_drop, List.length_nil] at this
      omega
  · rename_i hlt
    -- Nothing is cut off, not even the `0x` of the shifted number.
    have hshort : digits.length - 10 = 0 := by
      have := mt hlength.mp hlt
      omega
    rw [hshort, List.drop_zero, hB.ofString_eq _ (List.cons_ne_nil _ _)]
    rfl

theorem getPseudorandomPart_eq (hB : B.Documented) {value : List Char} {n : Nat}
    (hvalue : B.ofString value = some n) (shift : Nat) {count : Nat} (hcount : 0 < count) :
    getPseudorandomPart B value count shift 48 =
      if 2 ^ 40 ≤ n >>> shift ∧ count < BigNumberPackage.MAX_SAFE
      then some (n >>> shift % 2 ^ 48 % count) else none := by
  have hcast := shiftRightAndCast_eq hB hvalue shift
  have hread := ofString_shiftRightAndCast hB hvalue shift hcast
  rw [getPseudorandomPart, hcast]
  simp only [Option.bind_eq_bind, Option.bind_some, hread, hB.ofNumber_eq]
  by_cases hlarge : 2 ^ 40 ≤ n >>> shift
  · by_cases hsafe : count < BigNumberPackage.MAX_SAFE
    · have hlt : n >>> shift % 2 ^ 48 % count < count := Nat.mod_lt _ hcount
      rw [if_pos hlarge, if_pos hsafe, if_pos ⟨hlarge, hsafe⟩, Option.bind_some, Option.bind_some,
        hB.mod_eq, if_neg (by omega), Option.bind_some, hB.toNumber_eq _ (by omega)]
    · rw [if_pos hlarge, if_neg hsafe, if_neg (not_and_of_not_right _ hsafe)]
      rfl
  · rw [if_neg hlarge, if_neg (not_and_of_not_left _ hlarge)]
    rfl

theorem ofString_hexOfWord (hB : B.Documented) (w : Word) :
    B.ofString (hexOfWord w) = some w.toNat := by
  have hne : List.leftpad 64 '0' (Nat.toDigits 16 w.toNat) ≠ [] := by
    intro h
    have := (List.append_eq_nil_iff.mp h).2
    exact Nat.toDigits_ne_nil this
  rw [hexOfWord, hB.ofString_eq _ hne, Hex.read_leftpad, Hex.read_toDigits]

/-! ## Seeds -/

/-- The contract's parts are not cut by the cast to `uint48`. -/
theorem NounsSeeder.part_eq (pseudorandomness shift : Nat) {count : Nat} (hcount : 0 < count) :
    NounsSeeder.part pseudorandomness shift count =
      .ok (pseudorandomness >>> shift % 2 ^ 48 % count) := by
  have hle := Nat.mod_le (pseudorandomness >>> shift % 2 ^ 48) count
  have hlt := Nat.mod_lt (pseudorandomness >>> shift) (by decide : 0 < 2 ^ 48)
  rw [NounsSeeder.part, require, if_pos (by omega)]
  change Except.ok (pseudorandomness >>> shift % 2 ^ 48 % count % 2 ^ 48) = _
  rw [Nat.mod_eq_of_lt (by omega)]

/-- There is one of each at least, and there are as many as an array can have. -/
structure PartCounts.Arrays (counts : PartCounts) : Prop where
  background : 0 < counts.backgroundCount ∧ counts.backgroundCount < 2 ^ 32
  body : 0 < counts.bodyCount ∧ counts.bodyCount < 2 ^ 32
  accessory : 0 < counts.accessoryCount ∧ counts.accessoryCount < 2 ^ 32
  head : 0 < counts.headCount ∧ counts.headCount < 2 ^ 32
  glasses : 0 < counts.glassesCount ∧ counts.glassesCount < 2 ^ 32

theorem generateSeed_eq {counts : PartCounts} (hcounts : counts.Arrays)
    (keccak256 : Bytes → Word) (blockHash nounId : Word) :
    let n := (keccak256 (blockHash.toBytes ++ nounId.toBytes)).toNat
    NounsSeeder.generateSeed keccak256 blockHash nounId counts = .ok
      ⟨n >>> 0 % 2 ^ 48 % counts.backgroundCount, n >>> 48 % 2 ^ 48 % counts.bodyCount,
        n >>> 96 % 2 ^ 48 % counts.accessoryCount, n >>> 144 % 2 ^ 48 % counts.headCount,
        n >>> 192 % 2 ^ 48 % counts.glassesCount⟩ := by
  intro n
  simp only [NounsSeeder.generateSeed, NounsSeeder.part_eq _ _ hcounts.background.1,
    NounsSeeder.part_eq _ _ hcounts.body.1, NounsSeeder.part_eq _ _ hcounts.accessory.1,
    NounsSeeder.part_eq _ _ hcounts.head.1, NounsSeeder.part_eq _ _ hcounts.glasses.1]
  rfl

/-- The glasses decide, which take the first bits of the hash. -/
theorem getNounSeedFromBlockHash_eq (hB : B.Documented) {counts : PartCounts}
    (hcounts : counts.Arrays) (keccak256 : Bytes → Word) (blockHash nounId : Word) :
    getNounSeedFromBlockHash B keccak256 counts nounId blockHash =
      if 2 ^ 232 ≤ (keccak256 (blockHash.toBytes ++ nounId.toBytes)).toNat
      then (NounsSeeder.generateSeed keccak256 blockHash nounId counts).toOption else none := by
  have hmax : ∀ {n}, n < 2 ^ 32 → n < BigNumberPackage.MAX_SAFE := by
    intro n hn
    unfold BigNumberPackage.MAX_SAFE
    omega
  have hpart := fun shift {count} => @getPseudorandomPart_eq _ hB _ _ (ofString_hexOfWord hB
    (keccak256 (blockHash.toBytes ++ nounId.toBytes))) shift count
  rw [generateSeed_eq hcounts]
  dsimp only [getNounSeedFromBlockHash, solidityKeccak256]
  rw [hpart 0 hcounts.background.1, hpart 48 hcounts.body.1, hpart 96 hcounts.accessory.1,
    hpart 144 hcounts.head.1, hpart 192 hcounts.glasses.1]
  generalize (keccak256 (blockHash.toBytes ++ nounId.toBytes)).toNat = n
  by_cases hn : 2 ^ 232 ≤ n
  · have hshift : ∀ shift ≤ 192, 2 ^ 40 ≤ n >>> shift := by
      intro shift hshift
      rw [Nat.shiftRight_eq_div_pow, Nat.le_div_iff_mul_le (Nat.two_pow_pos shift), ← pow_add]
      exact (Nat.pow_le_pow_right (by decide) (by omega)).trans hn
    rw [if_pos hn, if_pos ⟨hshift 0 (by omega), hmax hcounts.background.2⟩,
      if_pos ⟨hshift 48 (by omega), hmax hcounts.body.2⟩,
      if_pos ⟨hshift 96 (by omega), hmax hcounts.accessory.2⟩,
      if_pos ⟨hshift 144 (by omega), hmax hcounts.head.2⟩,
      if_pos ⟨hshift 192 (by omega), hmax hcounts.glasses.2⟩]
    rfl
  · have hglasses : ¬ 2 ^ 40 ≤ n >>> 192 := by
      rw [Nat.shiftRight_eq_div_pow, Nat.le_div_iff_mul_le (Nat.two_pow_pos 192), ← pow_add]
      exact hn
    rw [if_neg hn, if_neg (not_and_of_not_left _ hglasses)]
    simp only [Option.bind_eq_bind, Option.bind_none, Option.bind_fun_none]

/-- The emulation reads a part right if and only if the shifted hash has six bytes or more, and a
seed if and only if the hash has at most two leading zero bytes. -/
theorem seeder_agrees_iff (hB : B.Documented) :
    (∀ (h : Word) (shift count : Nat), 0 < count →
      (getPseudorandomPart B (hexOfWord h) count shift 48 =
          some (h.toNat >>> shift % 2 ^ 48 % count) ↔
        2 ^ 40 ≤ h.toNat >>> shift ∧ count < BigNumberPackage.MAX_SAFE)) ∧
    ∀ (keccak256 : Bytes → Word) (counts : PartCounts) (blockHash nounId : Word), counts.Arrays →
      (getNounSeedFromBlockHash B keccak256 counts nounId blockHash =
          (NounsSeeder.generateSeed keccak256 blockHash nounId counts).toOption ↔
        2 ^ 232 ≤ (keccak256 (blockHash.toBytes ++ nounId.toBytes)).toNat) := by
  refine ⟨?_, ?_⟩
  · intro h shift count hcount
    rw [getPseudorandomPart_eq hB (ofString_hexOfWord hB h) shift hcount]
    split <;> simp_all
  · intro keccak256 counts blockHash nounId hcounts
    rw [getNounSeedFromBlockHash_eq hB hcounts, generateSeed_eq hcounts]
    split
    · rename_i hn
      exact iff_of_true rfl hn
    · rename_i hn
      exact iff_of_false (fun h => nomatch h) hn

theorem seeder_agrees_iff_sample :
    getNounSeedFromBlockHash .sample (fun _ => .ofNat (2 ^ 232)) ⟨2, 30, 47, 65, 46⟩ 1 2 =
      (NounsSeeder.generateSeed (fun _ => .ofNat (2 ^ 232)) 2 1 ⟨2, 30, 47, 65, 46⟩).toOption :=
  ((seeder_agrees_iff BigNumberPackage.sample_documented).2 _ _ _ _
    ⟨by decide, by decide, by decide, by decide, by decide⟩).mpr (by decide)

/-- Three leading zero bytes, and there are no glasses. -/
theorem glasses_not_read :
    ¬ ∀ (h : Word) (shift count : Nat), 0 < count →
      getPseudorandomPart .sample (hexOfWord h) count shift 48 =
        some (h.toNat >>> shift % 2 ^ 48 % count) := by
  intro hall
  have hglasses := hall (.ofNat (2 ^ 231)) 192 46 (by decide)
  rw [getPseudorandomPart_eq BigNumberPackage.sample_documented
    (ofString_hexOfWord BigNumberPackage.sample_documented _) 192 (by decide),
    if_neg (by decide)] at hglasses
  contradiction

end

end Nouns
