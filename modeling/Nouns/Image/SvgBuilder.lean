import Mathlib.Data.List.Basic

/-!
# SvgBuilder — the SDK's renderer

`svg-builder.ts`.  Image data is a string of hex digits.  `none` stands for a decoded number that is
`NaN`: the data is too short, or has other characters in it.
-/

namespace Nouns

structure ImageBounds where
  top : Nat
  right : Nat
  bottom : Nat
  left : Nat
deriving DecidableEq, Repr

structure DecodedImage where
  paletteIndex : Nat
  bounds : ImageBounds
  rects : List (Nat × Nat)
deriving DecidableEq, Repr

def hexValue (c : Char) : Option Nat :=
  if '0' ≤ c ∧ c ≤ '9' then some (c.toNat - '0'.toNat)
  else if 'a' ≤ c ∧ c ≤ 'f' then some (c.toNat - 'a'.toNat + 10)
  else if 'A' ≤ c ∧ c ≤ 'F' then some (c.toNat - 'A'.toNat + 10)
  else none

/-- `parseInt(s, 16)`, which reads up to the first character that is no digit.  The white space, the
sign and the `0x` that it would skip before do not occur in hex data. -/
def parseHex (s : List Char) : Option Nat :=
  match s.map hexValue |>.takeWhile Option.isSome |>.reduceOption with
  | [] => none
  | digits => some (digits.foldl (fun n d => 16 * n + d) 0)

/-- `match(/.{1,4}/g)`. -/
def chunksOfFour : List Char → List (List Char)
  | a :: b :: c :: d :: rest => [a, b, c, d] :: chunksOfFour rest
  | [] => []
  | rest => [rest]

/-- Length and colour index. -/
def decodeRect (rect : List Char) : Option (Nat × Nat) := do
  return (← parseHex (rect.take 2), ← parseHex ((rect.take 4).drop 2))

def decodeImage (image : String) : Option DecodedImage := do
  let data := if ['0', 'x'].isPrefixOf image.toList then image.toList.drop 2 else image.toList
  let substring := fun i j => (data.take j).drop i
  let paletteIndex ← parseHex (substring 0 2)
  let top ← parseHex (substring 2 4)
  let right ← parseHex (substring 4 6)
  let bottom ← parseHex (substring 6 8)
  let left ← parseHex (substring 8 10)
  let rects ← (chunksOfFour (data.drop 10)).mapM decodeRect
  return { paletteIndex, bounds := { top, right, bottom, left }, rects }

def getRectLength (currentX drawLength rightBound : Nat) : Int :=
  let remainingPixelsInLine : Int := rightBound - currentX
  if drawLength ≤ remainingPixelsInLine then drawLength else remainingPixelsInLine

/-- A rectangle that is pushed, in pixels. -/
structure SvgRect where
  length : Nat
  x : Nat
  y : Nat
  fill : String
deriving DecidableEq, Repr

def SvgRect.toSvg (r : SvgRect) : String :=
  "<rect width=\"" ++ toString (r.length * 10) ++ "\" height=\"10\" x=\"" ++ toString (r.x * 10) ++
    "\" y=\"" ++ toString (r.y * 10) ++ "\" fill=\"#" ++ r.fill ++ "\" />"

/-- The variables of the loops over an image. -/
structure Drawing where
  currentX : Nat
  currentY : Nat
  svgRects : List SvgRect

/-- The colour with this index, as the template string writes it. -/
def hexColorAt (paletteColors : List String) (colorIndex : Nat) : String :=
  paletteColors[colorIndex]?.getD "undefined"

/-- The `while` loop over a run.  `fuel` bounds its iterations: each of them shortens the run. -/
def drawRun (bounds : ImageBounds) (paletteColors : List String) (colorIndex : Nat) :
    (fuel drawLength : Nat) → Drawing → Drawing
  | 0, _, d => d
  | fuel + 1, drawLength, d =>
    let length := getRectLength d.currentX drawLength bounds.right
    if length > 0 then
      let length := length.toNat
      let rect : SvgRect := ⟨length, d.currentX, d.currentY, hexColorAt paletteColors colorIndex⟩
      let svgRects := if colorIndex ≠ 0 then d.svgRects ++ [rect] else d.svgRects
      let currentX := d.currentX + length
      let d := if currentX = bounds.right then ⟨bounds.left, d.currentY + 1, svgRects⟩
        else ⟨currentX, d.currentY, svgRects⟩
      drawRun bounds paletteColors colorIndex fuel (drawLength - length) d
    else d

/-- The rectangles of an image. -/
def drawImage (image : DecodedImage) (paletteColors : List String) : List SvgRect :=
  (image.rects.foldl (fun d draw => drawRun image.bounds paletteColors draw.2 draw.1 draw.1 d)
    ⟨image.bounds.left, image.bounds.top, []⟩).svgRects

def buildSVG (parts paletteColors : List String) (bgColor : Option String) : Option String := do
  let images ← parts.mapM decodeImage
  let background := match bgColor with
    | some color => if color = "" then "none" else "#" ++ color
    | none => "none"
  let svgWithoutEndTag := images.foldl
    (fun result image => result ++ String.join ((drawImage image paletteColors).map SvgRect.toSvg))
    ("<svg width=\"320\" height=\"320\" viewBox=\"0 0 320 320\" " ++
      "xmlns=\"http://www.w3.org/2000/svg\" shape-rendering=\"crispEdges\">" ++
      "<rect width=\"100%\" height=\"100%\" fill=\"" ++ background ++ "\" />")
  return svgWithoutEndTag ++ "</svg>"

end Nouns
