import Mathlib.Data.List.Basic
import Nouns.Lib.Words

/-!
# Abi — decoding of `bytes[]`

Dynamic data stands at offsets from the start of what it is part of.  Offsets and lengths are words
below `2 ^ 64`, and nothing may reach past the end of the data.
-/

namespace Abi

/-- The word at a position. -/
def wordAt (data : List UInt8) (pos : Nat) : Nat := Words.numberOf ((data.drop pos).take 32)

/-- An offset or a length. -/
def smallWordAt (data : List UInt8) (pos : Nat) : Option Nat :=
  if pos + 32 ≤ data.length ∧ wordAt data pos < 2 ^ 64 then some (wordAt data pos) else none

def decodeBytes (data : List UInt8) (pos : Nat) : Option (List UInt8) := do
  let length ← smallWordAt data pos
  if pos + 32 + length ≤ data.length then some ((data.drop (pos + 32)).take length) else none

def decodeBytesArray (data : List UInt8) : Option (List (List UInt8)) := do
  let offset ← smallWordAt data 0
  let length ← smallWordAt data offset
  let start := offset + 32
  if start + 32 * length ≤ data.length then
    (List.range length).mapM fun i => do
      decodeBytes data (start + (← smallWordAt data (start + 32 * i)))
  else none

end Abi
