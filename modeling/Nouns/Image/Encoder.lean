import Nouns.Image.SvgBuilder
import Nouns.Lib.OrderedMap

/-!
# Encoder — the SDK's run-length encoding

`image.ts` and `png-collection-encoder.ts` but for the folders and the file that `data` is written
to.
-/

namespace Nouns

def toPaddedHex (c : Nat) : String := String.ofList (List.leftpad 2 '0' (Nat.toDigits 16 c))

def rgbToHex (r g b : Nat) : String := toPaddedHex r ++ toPaddedHex g ++ toPaddedHex b

structure RGBAColor where
  r : Nat
  g : Nat
  b : Nat
  a : Nat
deriving DecidableEq, Repr

def RGBAColor.hexColor (c : RGBAColor) : String := rgbToHex c.r c.g c.b

structure PngImage where
  width : Nat
  height : Nat
  rgbaAt : Nat → Nat → RGBAColor

/-! ## Bounds -/

namespace PngImage

variable (png : PngImage)

def isTransparentColumn (column : Nat) : Bool :=
  (List.range png.height).all fun row => (png.rgbaAt column row).a = 0

def isTransparentRow (row : Nat) : Bool :=
  (List.range png.width).all fun column => (png.rgbaAt column row).a = 0

/-- `while (bottom > 0 && this._isTransparentRow(bottom)) bottom--`. -/
def trimBottom : Nat → Nat
  | 0 => 0
  | bottom + 1 => if png.isTransparentRow (bottom + 1) then trimBottom bottom else bottom + 1

/-- `while (right >= 0 && this._isTransparentColumn(right)) right--`, for one more than `right`. -/
def trimRight : Nat → Nat
  | 0 => 0
  | right + 1 => if png.isTransparentColumn right then trimRight right else right + 1

/-- `while (i < limit && isTransparent(i)) i++`, at most `fuel` times. -/
def skipTransparent (isTransparent : Nat → Bool) (limit : Nat) : (fuel i : Nat) → Nat
  | 0, i => i
  | fuel + 1, i =>
    if i < limit ∧ isTransparent i then skipTransparent isTransparent limit fuel (i + 1) else i

/-- Of an image with at least one row, as every image file has: `height - 1` is the last one. -/
def calcBounds : ImageBounds :=
  let bottom := png.trimBottom (png.height - 1)
  let top := skipTransparent png.isTransparentRow bottom bottom 0
  let right := png.trimRight png.width
  -- The last column is `right - 1`; there is none in a transparent image.
  let left := skipTransparent png.isTransparentColumn (right - 1) (right - 1) 0
  { top, right, bottom, left }

end PngImage

/-! ## Runs -/

/-- The pixels in the order of the two loops. -/
def ImageBounds.pixels (b : ImageBounds) : List (Nat × Nat) :=
  (List.range' b.top (b.bottom + 1 - b.top)).flatMap fun y =>
    (List.range' b.left (b.right - b.left)).map fun x => (x, y)

/-- The body of the two loops: the colour is inserted if it does not exist yet, and transparent
pixels have index 0. -/
def PngImage.pushIndex (png : PngImage) (state : OrderedMap String Nat × List Nat)
    (pixel : Nat × Nat) : OrderedMap String Nat × List Nat :=
  let c := png.rgbaAt pixel.1 pixel.2
  let colors := if c.hexColor ∈ state.1.keys then state.1 else state.1.set c.hexColor state.1.length
  (colors, state.2 ++ [if c.a = 0 then 0 else (colors.get? c.hexColor).getD 0])

/-- The loop of `encode` after the first entry. -/
def encodeFrom (previous count : Nat) : List Nat → List (Nat × Nat)
  | [] => [(count, previous)]
  | i :: data =>
    if i ≠ previous ∨ count = 255 then (count, previous) :: encodeFrom i 1 data
    else encodeFrom previous (count + 1) data

def encodeRuns : List Nat → List (Nat × Nat)
  | [] => []
  | previous :: data => encodeFrom previous 1 data

def encode (data : List Nat) : String :=
  String.join ((encodeRuns data).map fun run => toPaddedHex run.1 ++ toPaddedHex run.2)

/-- The encoded image, and the colours with those of the image inserted. -/
def PngImage.toRLE (png : PngImage) (colors : OrderedMap String Nat) :
    String × OrderedMap String Nat :=
  let bounds := png.calcBounds
  let (colors, indexes) := bounds.pixels.foldl png.pushIndex (colors, [])
  let metadata := [0, bounds.top, bounds.right, bounds.bottom, bounds.left].map toPaddedHex
  ("0x" ++ String.join metadata ++ encode indexes, colors)

/-! ## Collections -/

structure PNGCollectionEncoder where
  colors : OrderedMap String Nat
  images : OrderedMap String String

namespace PNGCollectionEncoder

/-- The constructor: the transparent entry, and the palette if one is given. -/
def new (palette : Option (List String)) : PNGCollectionEncoder where
  colors := (palette.getD []).zipIdx.foldl (fun colors c => colors.set c.1 c.2) [("", 0)]
  images := []

/-- `data.palette`. -/
def palette (e : PNGCollectionEncoder) : List String := e.colors.keys

/-- Also returns the encoded image. -/
def encodeImage (e : PNGCollectionEncoder) (name : String) (png : PngImage) :
    PNGCollectionEncoder × String :=
  let (rle, colors) := png.toRLE e.colors
  ({ colors, images := e.images.set name rle }, rle)

/-- A sequence of calls of `encodeImage`, with what they return. -/
def encodeImages (e : PNGCollectionEncoder) :
    List (String × PngImage) → PNGCollectionEncoder × List String
  | [] => (e, [])
  | (name, png) :: calls =>
    let (e, rle) := e.encodeImage name png
    let (e, rles) := e.encodeImages calls
    (e, rle :: rles)

end PNGCollectionEncoder

end Nouns
