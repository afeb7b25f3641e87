import Nouns.Evm
import Nouns.Image.SvgBuilder

/-!
# SVGRenderer — the renderers of the contracts

`SVGRenderer.sol` and, after it, `MultiPartRLEToSVG.sol`, which it replaced.  The buffer of rectangles
and the decoder are the same in both.  Memory is not limited here; what can fail is an array access or
a checked operation.
-/

open Fallible

namespace Nouns

/-! ## What both contracts have -/

/-- The loop of `_decodeRLEImage` from byte 5 on.  An odd byte at the end has no colour index. -/
def readDraws : Bytes → Tx (List (Nat × Nat))
  | [] => return []
  | [_] => throw .panic
  | length :: colorIndex :: image => do
    return (length.toNat, colorIndex.toNat) :: (← readDraws image)

/-- The first byte is `paletteIndex`, which only the older contract reads. -/
def decodeRLEImage (image : Bytes) : Tx DecodedImage := do
  let byte := fun i => UInt8.toNat <$> getAt image i
  let paletteIndex ← byte 0
  let bounds : ImageBounds :=
    { top := ← byte 1, right := ← byte 2, bottom := ← byte 3, left := ← byte 4 }
  return { paletteIndex, bounds, rects := ← readDraws (image.drop 5) }

/-- The rectangles of a part: those in the buffer, four strings each, and the text of those before. -/
structure RectBuffer where
  cursor : Nat
  buffer : List String
  part : String

namespace RectBuffer

def lookup : List String :=
  ["0", "10", "20", "30", "40", "50", "60", "70",
    "80", "90", "100", "110", "120", "130", "140", "150",
    "160", "170", "180", "190", "200", "210", "220", "230",
    "240", "250", "260", "270", "280", "290", "300", "310",
    "320"]

def empty : RectBuffer := ⟨0, List.replicate 16 "", ""⟩

def rectText (width x y fill : String) : String :=
  "<rect width=\"" ++ width ++ "\" height=\"10\" x=\"" ++ x ++ "\" y=\"" ++ y ++ "\" fill=\"#" ++
    fill ++ "\" />"

/-- The rectangle at `buffer[i]`. -/
def rectAt (buffer : List String) (i : Nat) : Tx String := do
  return rectText (← getAt buffer i) (← getAt buffer (i + 1)) (← getAt buffer (i + 2))
    (← getAt buffer (i + 3))

def getChunk (cursor : Nat) (buffer : List String) : Tx String :=
  -- `for (uint256 i = 0; i < cursor; i += 4)`
  (List.range ((cursor + 3) / 4)).foldlM
    (fun chunk j => do return chunk ++ (← rectAt buffer (4 * j))) ""

def push (b : RectBuffer) (length currentX currentY : Nat) (color : String) : Tx RectBuffer := do
  let buffer ← setAt b.buffer b.cursor (← getAt lookup length)
  let buffer ← setAt buffer (b.cursor + 1) (← getAt lookup currentX)
  let buffer ← setAt buffer (b.cursor + 2) (← getAt lookup currentY)
  let buffer ← setAt buffer (b.cursor + 3) color
  let cursor := b.cursor + 4
  if cursor ≥ 16 then return ⟨0, buffer, b.part ++ (← getChunk cursor buffer)⟩
  else return ⟨cursor, buffer, b.part⟩

/-- After the loop over the runs. -/
def finish (b : RectBuffer) : Tx String :=
  if b.cursor ≠ 0 then do return b.part ++ (← getChunk b.cursor b.buffer) else return b.part

end RectBuffer

/-- `for (uint8 p = 0; p < params.parts.length; p++)`. -/
def generateParts {α : Type} (generatePart : α → Tx String) (parts : List α) : Tx String :=
  parts.zipIdx.foldlM (fun rects p => do
    let rects := rects ++ (← generatePart p.1)
    let _ ← checked 8 (p.2 + 1)
    return rects) ""

/-- The next pixel after `length` pixels of a line. -/
def advance (bounds : ImageBounds) (currentX currentY length : Nat) : Nat × Nat :=
  if currentX + length = bounds.right then (bounds.left, currentY + 1)
  else (currentX + length, currentY)

/-! ## SVGRenderer -/

namespace SVGRenderer

def HEX_SYMBOLS : List Char := "0123456789abcdef".toList
def INDEX_TO_BYTES3_FACTOR : Nat := 3
def SVG_START_TAG : String :=
  "<svg width=\"320\" height=\"320\" viewBox=\"0 0 320 320\" " ++
    "xmlns=\"http://www.w3.org/2000/svg\" shape-rendering=\"crispEdges\">"
def SVG_END_TAG : String := "</svg>"

structure Part where
  image : Bytes
  palette : Bytes

structure SVGParams where
  parts : List Part
  background : String

def getRectLength (currentX drawLength rightBound : Nat) : Tx Nat := do
  let remainingPixelsInLine ← checkedSub rightBound (currentX % 2 ^ 8)
  return if drawLength ≤ remainingPixelsInLine then drawLength else remainingPixelsInLine

def toHexString (b₀ b₁ b₂ : UInt8) : String :=
  let value := b₀.toNat * 2 ^ 16 + b₁.toNat * 2 ^ 8 + b₂.toNat
  let symbol := fun n => HEX_SYMBOLS.getD (n &&& 0xf) '0'
  String.ofList [symbol (value >>> 20), symbol (value >>> 16), symbol (value >>> 12),
    symbol (value >>> 8), symbol (value >>> 4), symbol value]

/-- Also returns the cache. -/
def getColor (palette : Bytes) (index : Nat) (cache : List String) : Tx (String × List String) := do
  if (← getAt cache index) = "" then
    let i := index * INDEX_TO_BYTES3_FACTOR
    let color := toHexString (← getAt palette i) (← getAt palette (i + 1)) (← getAt palette (i + 2))
    return (color, ← setAt cache index color)
  else return (← getAt cache index, cache)

/-- The variables of the loops over an image. -/
structure Loop where
  currentX : Nat
  currentY : Nat
  rects : RectBuffer
  cache : List String

def pushRect (palette : Bytes) (colorIndex length : Nat) (s : Loop) : Tx Loop :=
  if colorIndex ≠ 0 then do
    let (color, cache) ← getColor palette colorIndex s.cache
    return { s with rects := ← s.rects.push length s.currentX s.currentY color, cache }
  else return s

/-- The `while` loop over a run.  `fuel` bounds its tests: each iteration shortens the run. -/
def drawRun (bounds : ImageBounds) (palette : Bytes) (colorIndex : Nat) :
    (fuel drawLength : Nat) → Loop → Tx Loop
  | 0, _, s => return s
  | fuel + 1, drawLength, s => do
    let length ← getRectLength s.currentX drawLength bounds.right
    if length > 0 then
      let s ← pushRect palette colorIndex length s
      let next := advance bounds s.currentX s.currentY length
      drawRun bounds palette colorIndex fuel (drawLength - length)
        { s with currentX := next.1, currentY := next.2 }
    else return s

def generatePart (part : Part) : Tx String := do
  let image ← decodeRLEImage part.image
  let s ← image.rects.foldlM
    (fun s draw => drawRun image.bounds part.palette draw.2 (draw.1 + 1) draw.1 s)
    { currentX := image.bounds.left, currentY := image.bounds.top, rects := .empty
      cache := List.replicate 256 "" }
  s.rects.finish

def generateSVGRects (params : SVGParams) : Tx String := generateParts generatePart params.parts

def generateSVG (params : SVGParams) : Tx String := do
  let rects ← generateSVGRects params
  if params.background.utf8ByteSize ≠ 0 then
    return SVG_START_TAG ++ "<rect width=\"100%\" height=\"100%\" fill=\"#" ++ params.background ++
      "\" />" ++ rects ++ SVG_END_TAG
  else return SVG_START_TAG ++ rects ++ SVG_END_TAG

def generateSVGPart (part : Part) : Tx String :=
  generateSVGRects { parts := [part], background := "" }

def generateSVGParts (parts : List Part) : Tx String :=
  generateSVGRects { parts, background := "" }

end SVGRenderer

/-! ## MultiPartRLEToSVG -/

namespace MultiPartRLEToSVG

structure SVGParams where
  parts : List Bytes
  background : String

/-- The variables of the loop over an image. -/
structure Loop where
  currentX : Nat
  currentY : Nat
  rects : RectBuffer

def pushRect (palette : List String) (colorIndex length : Nat) (s : Loop) : Tx Loop :=
  if colorIndex ≠ 0 then do
    let color ← getAt palette colorIndex
    return { s with rects := ← s.rects.push length s.currentX s.currentY color }
  else return s

def drawRun (bounds : ImageBounds) (palette : List String) (s : Loop) (rect : Nat × Nat) :
    Tx Loop := do
  let s ← pushRect palette rect.2 rect.1 s
  let next := advance bounds s.currentX s.currentY rect.1
  return { s with currentX := next.1, currentY := next.2 }

def generatePart (palettes : Nat → List String) (part : Bytes) : Tx String := do
  let image ← decodeRLEImage part
  let s ← image.rects.foldlM (drawRun image.bounds (palettes image.paletteIndex))
    { currentX := image.bounds.left, currentY := image.bounds.top, rects := .empty }
  s.rects.finish

def generateSVGRects (params : SVGParams) (palettes : Nat → List String) : Tx String :=
  generateParts (generatePart palettes) params.parts

def generateSVG (params : SVGParams) (palettes : Nat → List String) : Tx String := do
  let rects ← generateSVGRects params palettes
  return "<svg width=\"320\" height=\"320\" viewBox=\"0 0 320 320\" " ++
    "xmlns=\"http://www.w3.org/2000/svg\" shape-rendering=\"crispEdges\">" ++
    "<rect width=\"100%\" height=\"100%\" fill=\"#" ++ params.background ++ "\" />" ++ rects ++
    "</svg>"

end MultiPartRLEToSVG

end Nouns
