import Mathlib.Data.List.Basic
import Mathlib.Tactic.Ring

/-!
# Words — 256-bit words in memory

A word is 32 bytes, most significant first.  Packed data is a sequence of blocks of a fixed length,
which can be told apart by their places.
-/

def Word : Type := Fin (2 ^ 256)

instance : DecidableEq Word := inferInstanceAs (DecidableEq (Fin (2 ^ 256)))

/-- The number cut to a word. -/
def Word.ofNat (n : Nat) : Word := Fin.ofNat (2 ^ 256) n

instance (n : Nat) : OfNat Word n := ⟨.ofNat n⟩
instance : Inhabited Word := ⟨0⟩

namespace Words

/-! ## Numbers as bytes -/

/-- The last `k` bytes of a number. -/
def bytesOf (k n : Nat) : List UInt8 :=
  match k with
  | 0 => []
  | k + 1 => bytesOf k (n / 256) ++ [UInt8.ofNat n]

def numberOf (bytes : List UInt8) : Nat := bytes.foldl (fun n b => 256 * n + b.toNat) 0

@[simp] theorem length_bytesOf (k n : Nat) : (bytesOf k n).length = k := by
  induction k generalizing n with
  | zero => rfl
  | succ k ih => rw [bytesOf, List.length_append, ih, List.length_singleton]

theorem numberOf_append_singleton (bytes : List UInt8) (b : UInt8) :
    numberOf (bytes ++ [b]) = 256 * numberOf bytes + b.toNat := by
  rw [numberOf, List.foldl_append]
  rfl

theorem numberOf_bytesOf (k n : Nat) : numberOf (bytesOf k n) = n % 256 ^ k := by
  induction k generalizing n with
  | zero => rw [pow_zero, Nat.mod_one]; rfl
  | succ k ih =>
    have hmod : n % 256 ^ (k + 1) = n % 256 + 256 * (n / 256 % 256 ^ k) := by
      rw [pow_succ', Nat.mod_mul]
    rw [bytesOf, numberOf_append_singleton, ih, UInt8.toNat_ofNat', hmod, Nat.add_comm]

theorem bytesOf_inj {k n m : Nat} (hn : n < 256 ^ k) (hm : m < 256 ^ k)
    (h : bytesOf k n = bytesOf k m) : n = m := by
  have hnumber := congrArg numberOf h
  rwa [numberOf_bytesOf, numberOf_bytesOf, Nat.mod_eq_of_lt hn, Nat.mod_eq_of_lt hm] at hnumber

end Words

namespace Word

def toNat (w : Word) : Nat := w.val

def toBytes (w : Word) : List UInt8 := Words.bytesOf 32 w.toNat

theorem toNat_ofNat {n : Nat} (h : n < 2 ^ 256) : (ofNat n).toNat = n := Nat.mod_eq_of_lt h

theorem toNat_lt (w : Word) : w.toNat < 2 ^ 256 := w.isLt

@[simp] theorem length_toBytes (w : Word) : w.toBytes.length = 32 := Words.length_bytesOf 32 _

theorem toBytes_injective : Function.Injective toBytes := by
  intro w w' h
  exact Fin.ext (Words.bytesOf_inj w.isLt w'.isLt h)

end Word

namespace Words

/-! ## Packed data -/

variable {α : Type} {f : α → List UInt8} {k : Nat}

/-- Blocks of one positive length are read back one by one. -/
theorem flatMap_injective (hlength : ∀ a, (f a).length = k) (hk : 0 < k)
    (hf : Function.Injective f) : Function.Injective (List.flatMap f) := by
  intro as
  induction as with
  | nil =>
    intro bs h
    cases bs with
    | nil => rfl
    | cons b bs =>
      have hzero := congrArg List.length h
      rw [List.flatMap_cons, List.length_append, hlength b] at hzero
      simp only [List.flatMap_nil, List.length_nil] at hzero
      omega
  | cons a as ih =>
    intro bs h
    cases bs with
    | nil =>
      have hzero := congrArg List.length h
      rw [List.flatMap_cons, List.length_append, hlength a] at hzero
      simp only [List.flatMap_nil, List.length_nil] at hzero
      omega
    | cons b bs =>
      rw [List.flatMap_cons, List.flatMap_cons] at h
      obtain ⟨hhead, htail⟩ := List.append_inj h ((hlength a).trans (hlength b).symm)
      rw [hf hhead, ih htail]

end Words
