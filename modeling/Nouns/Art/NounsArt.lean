import Nouns.Art.Inflate
import Nouns.Lib.Abi
import Nouns.Lib.Paging

/-!
# NounsArt — image pages

`NounsArt.sol` for one of its four traits, and `SSTORE2.sol`.  A page is a contract whose code is the
compressed images.
-/

open Fallible

namespace Nouns

/-! ## SSTORE2 -/

namespace SSTORE2

/-- The first byte is a `STOP`. -/
def DATA_OFFSET : Nat := 1

/-- `created` is what `create` returns, the zero address if it fails. -/
def write (code : Address → Bytes) (created : Address) (data : Bytes) :
    Tx ((Address → Bytes) × Address) := do
  require (created ≠ 0) (.require "DEPLOYMENT_FAILED")
  return (Function.update code created (0 :: data), created)

def read (code : Address → Bytes) (pointer : Address) : Tx Bytes := do
  let size ← checkedSub (code pointer).length DATA_OFFSET
  return ((code pointer).drop DATA_OFFSET).take size

end SSTORE2

/-! ## Traits -/

structure NounArtStoragePage where
  imageCount : Nat
  decompressedLength : Nat
  pointer : Address
deriving DecidableEq

structure Trait where
  storagePages : List NounArtStoragePage
  storedImagesCount : Nat
deriving DecidableEq

namespace Trait

def empty : Trait := ⟨[], 0⟩

def addPage (trait : Trait) (pointer : Address) (decompressedLength imageCount : Nat) :
    Tx Trait := do
  revertIf (decompressedLength = 0) .BadDecompressedLength
  revertIf (imageCount = 0) .BadImageCount
  return {
    storagePages := trait.storagePages ++ [{ pointer, decompressedLength, imageCount }]
    storedImagesCount := ← checked 256 (trait.storedImagesCount + imageCount) }

end Trait

/-- The trait, and the code of all contracts. -/
structure Art where
  code : Address → Bytes
  trait : Trait

/-- A call of one of the two functions `addPage`. -/
inductive AddPage
  | encoded (created : Address) (encodedCompressed : Bytes) (decompressedLength imageCount : Nat)
  | fromPointer (pointer : Address) (decompressedLength imageCount : Nat)

namespace Art

variable (art : Art)

def addPageEncoded (created : Address) (encodedCompressed : Bytes)
    (decompressedLength imageCount : Nat) : Tx Art := do
  revertIf (encodedCompressed.length = 0) .EmptyBytes
  let (code, pointer) ← SSTORE2.write art.code created encodedCompressed
  return { code, trait := ← art.trait.addPage pointer decompressedLength imageCount }

def addPage : AddPage → Tx Art
  | .encoded created encodedCompressed decompressedLength imageCount =>
    art.addPageEncoded created encodedCompressed decompressedLength imageCount
  | .fromPointer pointer decompressedLength imageCount => do
    return { art with trait := ← art.trait.addPage pointer decompressedLength imageCount }

/-- A call that reverts changes nothing. -/
def addPages (art : Art) : List AddPage → Art
  | [] => art
  | call :: calls =>
    match art.addPage call with
    | .ok art' => addPages art' calls
    | .error _ => addPages art calls

end Art

/-! ## Images -/

/-- What images are read with: the code of all contracts, the inflator and `abi.decode`. -/
structure Reader where
  code : Address → Bytes
  puff : Bytes → Nat → Tx (Inflate.ErrorCode × Bytes)
  decode : Bytes → Option (List Bytes)

/-- The loop of `getPage` over the pages from image `pageFirstImageIndex` on. -/
def getPage (pageFirstImageIndex : Nat) (pages : List NounArtStoragePage) (index : Nat) :
    Tx (NounArtStoragePage × Nat) :=
  match pages with
  | [] => throw .ImageNotFound
  | page :: pages => do
    let next ← checked 256 (pageFirstImageIndex + page.imageCount)
    if index < next then return (page, ← checkedSub index pageFirstImageIndex)
    else getPage next pages index

namespace Reader

variable (r : Reader)

def decompressAndDecode (page : NounArtStoragePage) : Tx (List Bytes) := do
  let compressedData ← SSTORE2.read r.code page.pointer
  let (_, decompressedData) ← r.puff compressedData page.decompressedLength
  match r.decode decompressedData with
  | some images => return images
  | none => throw .callFailed

def imageByIndex (trait : Trait) (index : Nat) : Tx Bytes := do
  let (page, indexInPage) ← getPage 0 trait.storagePages index
  let decompressedImages ← r.decompressAndDecode page
  getAt decompressedImages indexInPage

end Reader

end Nouns
