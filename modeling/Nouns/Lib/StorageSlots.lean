import Mathlib.Algebra.GroupWithZero.Nat
import Mathlib.Logic.Function.Basic
import Mathlib.Data.List.Basic

/-!
# StorageSlots — contract storage as words at slots

The fields of a contract or a struct are packed into numbered slots in the order of their
declaration.  The entries of a mapping and the data of a dynamic array lie where `keccak256` says:
each such address begins a region of its own here, as if the hash had no collisions and its values
lay far apart.
-/

namespace StorageSlots

/-- Where slots are counted from. -/
inductive Region
  | fixed
  /-- `keccak256(key . slot)`, the entry of a mapping at `slot`. -/
  | entry (region : Region) (slot key : Nat)
  /-- `keccak256(slot)`, the data of an array at `slot`. -/
  | data (region : Region) (slot : Nat)
deriving DecidableEq

/-- The word at every slot; it is zero where nothing was written. -/
abbrev Slots : Type := Region → Nat → Nat

def write (σ : Slots) (r : Region) (slot word : Nat) : Slots :=
  Function.update σ r (Function.update (σ r) slot (word % 2 ^ 256))

/-! ## Packed fields -/

/-- The `width` bits of a word from bit `low` on. -/
def bits (word low width : Nat) : Nat := word / 2 ^ low % 2 ^ width

def setBits (word low width value : Nat) : Nat :=
  word - bits word low width * 2 ^ low + value % 2 ^ width * 2 ^ low

structure Position where
  slot : Nat
  low : Nat
  width : Nat
deriving DecidableEq

/-- Every field goes into the current slot if it fits, and else into the next one.  Mappings, arrays
and structs take whole slots: they have width 256. -/
def layoutFrom {F : Type} (slot used : Nat) : List (F × Nat) → List (F × Position)
  | [] => []
  | (f, width) :: fields =>
    if used + width ≤ 256 then (f, ⟨slot, used, width⟩) :: layoutFrom slot (used + width) fields
    else (f, ⟨slot + 1, 0, width⟩) :: layoutFrom (slot + 1) width fields

/-- The place of field `f` in a declaration with these fields. -/
def position {F : Type} [BEq F] (fields : List (F × Nat)) (f : F) : Position :=
  ((layoutFrom 0 0 fields).lookup f).getD ⟨0, 0, 0⟩

/-- The field of a struct that begins at slot `base`. -/
def Position.after (p : Position) (base : Nat) : Position := { p with slot := base + p.slot }

def get (σ : Slots) (r : Region) (p : Position) : Nat := bits (σ r p.slot) p.low p.width

def set (σ : Slots) (r : Region) (p : Position) (value : Nat) : Slots :=
  write σ r p.slot (setBits (σ r p.slot) p.low p.width value)

/-- A field that fits into its first bits reads the same when narrowed to them, and what is packed
behind it is zero. -/
theorem bits_of_lt {word width : Nat} (hwidth : width ≤ 256)
    (h : bits word 0 256 < 2 ^ width) :
    bits word 0 width = bits word 0 256 ∧
      ∀ low more, width ≤ low → low + more ≤ 256 → bits word low more = 0 := by
  simp only [bits, Nat.pow_zero, Nat.div_one] at h ⊢
  refine ⟨?_, ?_⟩
  · rw [← Nat.mod_mod_of_dvd word (Nat.pow_dvd_pow 2 hwidth), Nat.mod_eq_of_lt h]
  · intro low more hlow hmore
    have hle : word % 2 ^ (low + more) ≤ word % 2 ^ 256 := by
      rw [← Nat.mod_mod_of_dvd word (Nat.pow_dvd_pow 2 hmore)]
      exact Nat.mod_le _ _
    have hlt : word % 2 ^ (low + more) < 2 ^ low :=
      Nat.lt_of_le_of_lt hle (Nat.lt_of_lt_of_le h (Nat.pow_le_pow_right (by decide) hlow))
    rw [← Nat.mod_mul_right_div_self, ← Nat.pow_add]
    exact Nat.div_eq_of_lt hlt

theorem bits_mod {word low width : Nat} (h : low + width ≤ 256) :
    bits (word % 2 ^ 256) low width = bits word low width := by
  unfold bits
  rw [← Nat.mod_mul_right_div_self, ← Nat.mod_mul_right_div_self, ← Nat.pow_add,
    Nat.mod_mod_of_dvd _ (Nat.pow_dvd_pow 2 h)]

theorem bits_setBits (word low width value : Nat) :
    bits (setBits word low width value) low width = value % 2 ^ width := by
  -- The word is what lies above the field, the field and what lies below it.
  have hword : word = word / 2 ^ low / 2 ^ width * 2 ^ width * 2 ^ low +
      bits word low width * 2 ^ low + word % 2 ^ low := by
    rw [bits, ← Nat.add_mul, Nat.div_add_mod', Nat.div_add_mod']
  have hset : setBits word low width value =
      (word / 2 ^ low / 2 ^ width * 2 ^ width + value % 2 ^ width) * 2 ^ low + word % 2 ^ low := by
    unfold setBits
    rw [Nat.add_mul]
    omega
  have hlow : word % 2 ^ low < 2 ^ low := Nat.mod_lt _ (Nat.two_pow_pos low)
  rw [hset, bits, Nat.mul_comm _ (2 ^ low), Nat.mul_add_div (Nat.two_pow_pos low),
    Nat.div_eq_of_lt hlow, Nat.add_zero, Nat.mul_add_mod_self_right, Nat.mod_mod]

theorem get_set (σ : Slots) (r : Region) {p : Position} (hp : p.low + p.width ≤ 256)
    (value : Nat) : get (set σ r p value) r p = value % 2 ^ p.width := by
  unfold get set write
  rw [Function.update_self, Function.update_self, bits_mod hp, bits_setBits]

/-! ## Arrays and bytes -/

/-- An array of elements of one slot each. -/
def getArray {α : Type} (getElement : Slots → Region → Nat → α) (σ : Slots) (r : Region)
    (slot : Nat) : List α :=
  (List.range (σ r slot)).map (getElement σ (.data r slot))

/-- The assignment to an array that was empty. -/
def setArray {α : Type} (setElement : Slots → Region → Nat → α → Slots) (σ : Slots) (r : Region)
    (slot : Nat) (xs : List α) : Slots :=
  xs.zipIdx.foldl (fun σ x => setElement σ (.data r slot) x.2 x.1) (write σ r slot xs.length)

/-- Up to 32 bytes, the first one the most significant. -/
def wordOfBytes (bytes : List UInt8) : Nat :=
  (bytes.zipIdx.map (fun b => b.1.toNat * 256 ^ (31 - b.2))).sum

def byteOfWord (word i : Nat) : UInt8 := UInt8.ofNat (word / 256 ^ (31 - i))

/-- Up to 31 bytes lie in the slot itself, beside twice their number.  More of them lie in the data,
and the slot holds twice their number and one. -/
def getBytes (σ : Slots) (r : Region) (slot : Nat) : List UInt8 :=
  let word := σ r slot
  if word % 2 = 0 then (List.range (word % 256 / 2)).map (byteOfWord word)
  else (List.range (word / 2)).map (fun i => byteOfWord (σ (.data r slot) (i / 32)) (i % 32))

def setBytes (σ : Slots) (r : Region) (slot : Nat) (bytes : List UInt8) : Slots :=
  if bytes.length ≤ 31 then write σ r slot (wordOfBytes bytes + 2 * bytes.length)
  else (List.range ((bytes.length + 31) / 32)).foldl
    (fun σ j => write σ (.data r slot) j (wordOfBytes ((bytes.drop (32 * j)).take 32)))
    (write σ r slot (2 * bytes.length + 1))

/-! ## What a write leaves alone -/

/-- No slot but `slot` of region `r` was written, and data of arrays. -/
def Leaves (r : Region) (slot : Nat) (σ σ' : Slots) : Prop :=
  ∀ q i, (∀ p s, q ≠ .data p s) → (q ≠ r ∨ i ≠ slot) → σ' q i = σ q i

variable {σ σ' : Slots} {r : Region} {slot : Nat}

theorem write_leaves (σ : Slots) (r : Region) (slot word : Nat) :
    Leaves r slot σ (write σ r slot word) := by
  intro q i _ hne
  unfold write
  by_cases hq : q = r
  · subst hq
    rw [Function.update_self, Function.update_of_ne (hne.resolve_left (fun h => h rfl))]
  · rw [Function.update_of_ne hq]

theorem set_leaves (σ : Slots) (r : Region) (p : Position) (value : Nat) :
    Leaves r p.slot σ (set σ r p value) :=
  write_leaves σ r p.slot _

/-- Data is written after the slot itself. -/
theorem Leaves.of_loop {α : Type} {f : Slots → α → Slots} {xs : List α} (h : Leaves r slot σ σ')
    (hf : ∀ σ x, ∃ p s i, Leaves (.data p s) i σ (f σ x)) : Leaves r slot σ (xs.foldl f σ') := by
  induction xs generalizing σ' with
  | nil => exact h
  | cons x xs ih =>
    refine ih ?_
    intro q i hq hne
    obtain ⟨p, s, j, hleaves⟩ := hf σ' x
    rw [hleaves q i hq (.inl (hq p s))]
    exact h q i hq hne

theorem setBytes_leaves (σ : Slots) (r : Region) (slot : Nat) (bytes : List UInt8) :
    Leaves r slot σ (setBytes σ r slot bytes) := by
  unfold setBytes
  split
  · exact write_leaves σ r slot _
  · exact (write_leaves σ r slot _).of_loop (fun σ j => ⟨r, slot, j, write_leaves σ _ _ _⟩)

theorem setArray_leaves {α : Type} {setElement : Slots → Region → Nat → α → Slots}
    (helement : ∀ σ r i x, Leaves r i σ (setElement σ r i x)) (σ : Slots) (r : Region) (slot : Nat)
    (xs : List α) : Leaves r slot σ (setArray setElement σ r slot xs) :=
  (write_leaves σ r slot _).of_loop (fun σ x => ⟨r, slot, x.2, helement σ _ _ _⟩)

end StorageSlots
