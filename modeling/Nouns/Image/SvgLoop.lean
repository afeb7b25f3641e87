import Nouns.Image.Decoding

/-!
# SvgLoop — `buildSVG` on any strings

Image data that is no hex decodes to numbers that are `NaN`, and a `NaN` takes every comparison the
other way.  Here strings are lists of UTF-16 code units and numbers are those of JavaScript, as far
as `buildSVG` uses them.
-/

namespace Nouns.SvgLoop

/-! ## Numbers and strings of JavaScript -/

abbrev JsString : Type := List UInt16

/-- `none` is `NaN`. -/
abbrev JsNumber : Type := Option Int

namespace JsNumber

def add (a b : JsNumber) : JsNumber := do return (← a) + (← b)

def sub (a b : JsNumber) : JsNumber := do return (← a) - (← b)

/-- `a <= b`, which is false if one of them is `NaN`. -/
def le (a b : JsNumber) : Bool :=
  match a, b with
  | some a, some b => a ≤ b
  | _, _ => false

/-- `a > 0`. -/
def isPositive : JsNumber → Bool
  | some a => 0 < a
  | none => false

/-- `a === b`. -/
def same (a b : JsNumber) : Bool := a = b ∧ a ≠ none

/-- `${a * 10}`. -/
def tenfold : JsNumber → String
  | some n => toString (n * 10)
  | none => "NaN"

end JsNumber

def isLineTerminator (c : UInt16) : Bool := c ∈ [0x0A, 0x0D, 0x2028, 0x2029]

/-- What `parseInt` skips at the start. -/
def isWhiteSpace (c : UInt16) : Bool :=
  isLineTerminator c || c ∈ [0x09, 0x0B, 0x0C, 0x20, 0xA0, 0x1680, 0x202F, 0x205F, 0x3000, 0xFEFF] ||
    (0x2000 ≤ c && c ≤ 0x200A)

def hexDigit (c : UInt16) : Option Nat :=
  if 0x30 ≤ c ∧ c ≤ 0x39 then some (c.toNat - 0x30)
  else if 0x61 ≤ c ∧ c ≤ 0x66 then some (c.toNat - 0x61 + 10)
  else if 0x41 ≤ c ∧ c ≤ 0x46 then some (c.toNat - 0x41 + 10)
  else none

/-- Drops a `+` or a `-`, and tells which it was. -/
def splitSign (s : JsString) : Bool × JsString :=
  if s.head? = some 0x2D then (true, s.tail)
  else if s.head? = some 0x2B then (false, s.tail)
  else (false, s)

/-- `0x` or `0X` at the start. -/
def hasPrefix (s : JsString) : Bool := s.take 2 = [0x30, 0x78] ∨ s.take 2 = [0x30, 0x58]

/-- `parseInt(s, 16)`. -/
def parseInt (s : JsString) : JsNumber :=
  let (negative, s) := splitSign (s.dropWhile isWhiteSpace)
  let s := if hasPrefix s then s.drop 2 else s
  match ((s.map hexDigit).takeWhile Option.isSome).reduceOption with
  | [] => none
  | digits =>
    let n : Nat := digits.foldl (fun n d => 16 * n + d) 0
    some (if negative then -n else n)

/-- `s.substring(i, j)` for `i ≤ j`. -/
def substring (s : JsString) (i j : Nat) : JsString := (s.take j).drop i

/-- `match(/.{1,4}/g)`, with the part of a match before the rest of the string. -/
def matchFour (before : JsString) : JsString → List JsString
  | [] => if before = [] then [] else [before]
  | c :: s =>
    -- The dot stands for any character but a line terminator.
    if isLineTerminator c then (if before = [] then [] else [before]) ++ matchFour [] s
    else if before.length = 3 then (before ++ [c]) :: matchFour [] s
    else matchFour (before ++ [c]) s

/-! ## Decoding -/

structure ImageBounds where
  top : JsNumber
  right : JsNumber
  bottom : JsNumber
  left : JsNumber

structure DecodedImage where
  paletteIndex : JsNumber
  bounds : ImageBounds
  rects : List (JsNumber × JsNumber)

def decodeRect (rect : JsString) : JsNumber × JsNumber :=
  (parseInt (substring rect 0 2), parseInt (substring rect 2 4))

def decodeImage (image : JsString) : DecodedImage :=
  let data := if image.take 2 = [0x30, 0x78] then image.drop 2 else image
  { paletteIndex := parseInt (substring data 0 2)
    bounds :=
      { top := parseInt (substring data 2 4)
        right := parseInt (substring data 4 6)
        bottom := parseInt (substring data 6 8)
        left := parseInt (substring data 8 10) }
    rects := (matchFour [] (data.drop 10)).map decodeRect }

/-! ## The loops -/

def getRectLength (currentX drawLength rightBound : JsNumber) : JsNumber :=
  let remainingPixelsInLine := rightBound.sub currentX
  if drawLength.le remainingPixelsInLine then drawLength else remainingPixelsInLine

/-- `paletteColors[colorIndex]` in a template string. -/
def hexColorAt (paletteColors : List String) : JsNumber → String
  | some (.ofNat i) => paletteColors[i]?.getD "undefined"
  | _ => "undefined"

/-- The variables of the loops over an image. -/
structure Drawing where
  currentX : JsNumber
  currentY : JsNumber
  svgRects : List String

def rectText (length currentX currentY : JsNumber) (hexColor : String) : String :=
  "<rect width=\"" ++ length.tenfold ++ "\" height=\"10\" x=\"" ++ currentX.tenfold ++ "\" y=\"" ++
    currentY.tenfold ++ "\" fill=\"#" ++ hexColor ++ "\" />"

variable (bounds : ImageBounds) (paletteColors : List String)

/-- The body of the `while` loop for a segment of this length. -/
def drawSegment (colorIndex length : JsNumber) (d : Drawing) : Drawing :=
  let rect := rectText length d.currentX d.currentY (hexColorAt paletteColors colorIndex)
  let svgRects := if colorIndex ≠ some 0 then d.svgRects ++ [rect] else d.svgRects
  let currentX := d.currentX.add length
  if currentX.same bounds.right then ⟨bounds.left, d.currentY.add (some 1), svgRects⟩
  else ⟨currentX, d.currentY, svgRects⟩

/-- The `while` loop, which is tested at most `fuel` times.  `none` if that is not enough. -/
def drawRun (colorIndex : JsNumber) : (fuel : Nat) → (drawLength : JsNumber) → Drawing →
    Option Drawing
  | 0, _, _ => none
  | fuel + 1, drawLength, d =>
    let length := getRectLength d.currentX drawLength bounds.right
    if length.isPositive then
      drawRun colorIndex fuel (drawLength.sub length)
        (drawSegment bounds paletteColors colorIndex length d)
    else some d

/-- The rectangles of an image. -/
def drawImage (fuel : Nat) (image : DecodedImage) : Option (List String) := do
  let d ← image.rects.foldlM
    (fun d draw => drawRun image.bounds paletteColors draw.2 fuel draw.1 d)
    ⟨image.bounds.left, image.bounds.top, []⟩
  return d.svgRects

/-- `buildSVG`, with so many tests of every `while` loop. -/
def buildSVG (fuel : Nat) (parts : List JsString) (bgColor : Option String) : Option String := do
  let background := match bgColor with
    | some color => if color = "" then "none" else "#" ++ color
    | none => "none"
  let svgWithoutEndTag ← parts.foldlM
    (fun result part => do
      return result ++ String.join (← drawImage paletteColors fuel (decodeImage part)))
    ("<svg width=\"320\" height=\"320\" viewBox=\"0 0 320 320\" " ++
      "xmlns=\"http://www.w3.org/2000/svg\" shape-rendering=\"crispEdges\">" ++
      "<rect width=\"100%\" height=\"100%\" fill=\"" ++ background ++ "\" />")
  return svgWithoutEndTag ++ "</svg>"

/-! ## Lines -/

variable {bounds paletteColors} {colorIndex : JsNumber} {d : Drawing} {left right : Int} {fuel : Nat}

/-- The bounds are numbers, and there is a column between them. -/
structure HasLines (bounds : ImageBounds) (left right : Int) : Prop where
  left_eq : bounds.left = some left
  right_eq : bounds.right = some right
  lt : left < right

/-- The current pixel is in its line. -/
def Drawing.Inside (d : Drawing) (left right : Int) : Prop :=
  ∃ x, d.currentX = some x ∧ left ≤ x ∧ x < right

/-- Nothing is left of the line. -/
def Drawing.Idle (d : Drawing) (bounds : ImageBounds) : Prop :=
  (bounds.right.sub d.currentX).isPositive = false

theorem getRectLength_idle (h : d.Idle bounds) (drawLength : JsNumber) :
    (getRectLength d.currentX drawLength bounds.right).isPositive = false := by
  unfold Drawing.Idle at h
  unfold getRectLength
  cases hrest : bounds.right.sub d.currentX with
  | none =>
    -- The comparison is false, and the length is `NaN`.
    cases drawLength with
    | none => rfl
    | some n => rfl
  | some rest =>
    rw [hrest] at h
    have hle : ¬ 0 < rest := of_decide_eq_false h
    cases drawLength with
    | none => exact h
    | some n =>
      show JsNumber.isPositive (if decide (n ≤ rest) then some n else some rest) = false
      split
      · rename_i hshort
        have hn : n ≤ rest := of_decide_eq_true hshort
        exact decide_eq_false (by omega)
      · exact h

theorem drawRun_idle (h : d.Idle bounds) (drawLength : JsNumber) :
    drawRun bounds paletteColors colorIndex (fuel + 1) drawLength d = some d := by
  rw [drawRun]
  exact if_neg (by rw [getRectLength_idle h]; decide)

/-- A segment of the line leads to the next pixel, or to the next line. -/
theorem drawSegment_inside (hlines : HasLines bounds left right) {x length : Int}
    (hx : d.currentX = some x) (hleft : left ≤ x) (hpos : 0 < length) (hle : length ≤ right - x) :
    (drawSegment bounds paletteColors colorIndex (some length) d).Inside left right := by
  have hnext : d.currentX.add (some length) = some (x + length) := by
    rw [hx]
    rfl
  unfold drawSegment
  simp only [hnext]
  by_cases hend : x + length = right
  · have hsame : JsNumber.same (some (x + length)) bounds.right = true := by
      rw [hlines.right_eq, hend]
      simp [JsNumber.same]
    rw [if_pos hsame]
    exact ⟨left, hlines.left_eq, Int.le_refl left, hlines.lt⟩
  · have hother : ¬ JsNumber.same (some (x + length)) bounds.right = true := by
      rw [hlines.right_eq]
      simp [JsNumber.same, hend]
    rw [if_neg hother]
    exact ⟨x + length, rfl, by omega, by omega⟩

/-- In a line there is a segment to draw, unless the run has come to its end. -/
theorem getRectLength_inside (hlines : HasLines bounds left right) {x : Int}
    (hx : d.currentX = some x) (n : Int) :
    getRectLength d.currentX (some n) bounds.right = some (min n (right - x)) := by
  rw [hx, hlines.right_eq]
  show (if decide (n ≤ right - x) then some n else some (right - x)) = _
  split
  · rename_i hshort
    rw [Int.min_eq_left (of_decide_eq_true hshort)]
  · rename_i hlong
    have hgt : ¬ n ≤ right - x := fun hle => hlong (decide_eq_true hle)
    rw [Int.min_eq_right (by omega)]

/-- A run that has a length ends. -/
theorem drawRun_ends (hlines : HasLines bounds left right) (h : d.Inside left right) {n : Int}
    (hfuel : n.toNat < fuel) :
    ∃ d', drawRun bounds paletteColors colorIndex fuel (some n) d = some d' := by
  induction fuel generalizing n d with
  | zero => omega
  | succ fuel ih =>
    obtain ⟨x, hx, hle, hlt⟩ := h
    rw [drawRun, getRectLength_inside hlines hx]
    by_cases hpos : 0 < n
    · have hmin : 0 < min n (right - x) := by omega
      have hnext : (drawSegment bounds paletteColors colorIndex (some (min n (right - x))) d).Inside
          left right := drawSegment_inside hlines hx hle hmin (by omega)
      have hrest : (n - min n (right - x)).toNat < fuel := by omega
      obtain ⟨d', hd'⟩ := ih hnext hrest
      refine ⟨d', ?_⟩
      rw [← hd']
      exact if_pos (decide_eq_true hmin)
    · refine ⟨d, ?_⟩
      apply if_neg
      intro hpositive
      have hmin : 0 < min n (right - x) := of_decide_eq_true hpositive
      omega

/-- Where a run ends there is a line. -/
theorem drawRun_inside (hlines : HasLines bounds left right) (h : d.Inside left right) {n : Int}
    {d' : Drawing} (hrun : drawRun bounds paletteColors colorIndex fuel (some n) d = some d') :
    d'.Inside left right := by
  induction fuel generalizing n d with
  | zero => cases hrun
  | succ fuel ih =>
    obtain ⟨x, hx, hle, hlt⟩ := h
    rw [drawRun, getRectLength_inside hlines hx] at hrun
    by_cases hpos : 0 < min n (right - x)
    · have hnext : (drawSegment bounds paletteColors colorIndex (some (min n (right - x))) d).Inside
          left right := drawSegment_inside hlines hx hle hpos (by omega)
      have hpositive : JsNumber.isPositive (some (min n (right - x))) = true := decide_eq_true hpos
      rw [if_pos hpositive] at hrun
      exact ih hnext hrun
    · have hnot : ¬ JsNumber.isPositive (some (min n (right - x))) = true := fun hpositive =>
        hpos (of_decide_eq_true hpositive)
      rw [if_neg hnot] at hrun
      cases hrun
      exact ⟨x, hx, hle, hlt⟩

/-- A run whose length is `NaN` goes on from line to line: there is always a rest of the line to
draw, and always the same left of the run. -/
theorem drawRun_never_ends (hlines : HasLines bounds left right) (h : d.Inside left right) :
    drawRun bounds paletteColors colorIndex fuel none d = none := by
  induction fuel generalizing d with
  | zero => rfl
  | succ fuel ih =>
    obtain ⟨x, hx, hle, hlt⟩ := h
    have hlength : getRectLength d.currentX none bounds.right = some (right - x) := by
      rw [hx, hlines.right_eq]
      rfl
    have hnext : (drawSegment bounds paletteColors colorIndex (some (right - x)) d).Inside
        left right := drawSegment_inside hlines hx hle (by omega) (Int.le_refl _)
    have hpositive : JsNumber.isPositive (some (right - x)) = true := decide_eq_true (by omega)
    rw [drawRun, hlength]
    simp only [if_pos hpositive]
    exact ih hnext

/-! ## Images -/

/-- The data has lines and a run whose length is no number. -/
def DecodedImage.Endless (image : DecodedImage) : Prop :=
  (∃ left right, HasLines image.bounds left right) ∧ ∃ draw ∈ image.rects, draw.1 = none

/-- More tests than any run of the image is long. -/
def Enough (fuel : Nat) (rects : List (JsNumber × JsNumber)) : Prop :=
  0 < fuel ∧ ∀ draw ∈ rects, ∀ n, draw.1 = some n → n.toNat < fuel

theorem Enough.mono {fuel' : Nat} {rects : List (JsNumber × JsNumber)} (h : Enough fuel rects)
    (hle : fuel ≤ fuel') : Enough fuel' rects :=
  ⟨by have := h.1; omega, fun draw hdraw n hn => Nat.lt_of_lt_of_le (h.2 draw hdraw n hn) hle⟩

theorem exists_enough (rects : List (JsNumber × JsNumber)) : ∃ fuel, Enough fuel rects := by
  induction rects with
  | nil => exact ⟨1, Nat.one_pos, fun draw hdraw => absurd hdraw List.not_mem_nil⟩
  | cons draw rects ih =>
    obtain ⟨fuel, hpos, hfuel⟩ := ih
    refine ⟨fuel + (draw.1.getD 0).toNat, by omega, ?_⟩
    rw [List.forall_mem_cons]
    constructor
    · intro n hn
      rw [hn, Option.getD_some]
      omega
    · intro draw' hdraw' n hn
      have hlt := hfuel draw' hdraw' n hn
      omega

theorem drawRuns_end (hlines : HasLines bounds left right) {rects : List (JsNumber × JsNumber)}
    (hnumbers : ∀ draw ∈ rects, draw.1 ≠ none) (hfuel : Enough fuel rects)
    (h : d.Inside left right) :
    ∃ d', rects.foldlM (fun d draw => drawRun bounds paletteColors draw.2 fuel draw.1 d) d =
      some d' := by
  induction rects generalizing d with
  | nil => exact ⟨d, rfl⟩
  | cons draw rects ih =>
    rw [List.forall_mem_cons] at hnumbers
    obtain ⟨n, hn⟩ := Option.ne_none_iff_exists'.mp hnumbers.1
    obtain ⟨hpos, hall⟩ := hfuel
    rw [List.forall_mem_cons] at hall
    obtain ⟨d₁, hd₁⟩ : ∃ d', drawRun bounds paletteColors draw.2 fuel (some n) d = some d' :=
      drawRun_ends hlines h (hall.1 n hn)
    obtain ⟨d', hd'⟩ := ih hnumbers.2 ⟨hpos, hall.2⟩ (drawRun_inside hlines h hd₁)
    refine ⟨d', ?_⟩
    rw [List.foldlM_cons, hn, hd₁]
    exact hd'

/-- Where no line can be drawn on, no run goes on. -/
theorem drawRuns_idle (h : d.Idle bounds) (rects : List (JsNumber × JsNumber)) :
    rects.foldlM (fun d draw => drawRun bounds paletteColors draw.2 (fuel + 1) draw.1 d) d =
      some d := by
  induction rects with
  | nil => rfl
  | cons draw rects ih =>
    rw [List.foldlM_cons, drawRun_idle h]
    exact ih

theorem drawRuns_never_end (hlines : HasLines bounds left right)
    {rects : List (JsNumber × JsNumber)} (hnan : ∃ draw ∈ rects, draw.1 = none)
    (h : d.Inside left right) :
    rects.foldlM (fun d draw => drawRun bounds paletteColors draw.2 fuel draw.1 d) d = none := by
  induction rects generalizing d with
  | nil =>
    obtain ⟨draw, hdraw, -⟩ := hnan
    cases hdraw
  | cons draw rects ih =>
    rw [List.foldlM_cons]
    cases hlength : draw.1 with
    | none =>
      rw [drawRun_never_ends hlines h]
      rfl
    | some n =>
      cases hrun : drawRun bounds paletteColors draw.2 fuel (some n) d with
      | none => rfl
      | some d₁ =>
        have hrest : ∃ draw ∈ rects, draw.1 = none := by
          obtain ⟨draw', hdraw', hnone⟩ := hnan
          rcases List.mem_cons.mp hdraw' with rfl | hmem
          · rw [hlength] at hnone
            cases hnone
          · exact ⟨draw', hmem, hnone⟩
        exact ih hrest (drawRun_inside hlines h hrun)

/-- The drawing that an image starts with. -/
def DecodedImage.start (image : DecodedImage) : Drawing :=
  ⟨image.bounds.left, image.bounds.top, []⟩

theorem HasLines.start {image : DecodedImage} (h : HasLines image.bounds left right) :
    image.start.Inside left right :=
  ⟨left, h.left_eq, Int.le_refl left, h.lt⟩

/-- Without lines there is nothing left of the first one. -/
theorem start_idle {image : DecodedImage}
    (h : ¬ ∃ left right, HasLines image.bounds left right) : image.start.Idle image.bounds := by
  show (image.bounds.right.sub image.bounds.left).isPositive = false
  cases hright : image.bounds.right with
  | none => rfl
  | some right =>
    cases hleft : image.bounds.left with
    | none => rfl
    | some left =>
      apply decide_eq_false
      intro hpos
      exact h ⟨left, right, hleft, hright, by omega⟩

theorem drawImage_ends {image : DecodedImage} (h : ¬ image.Endless)
    (hfuel : Enough fuel image.rects) : ∃ rects, drawImage paletteColors fuel image = some rects := by
  have hruns : ∃ d, image.rects.foldlM
      (fun d draw => drawRun image.bounds paletteColors draw.2 fuel draw.1 d) image.start =
        some d := by
    by_cases hlines : ∃ left right, HasLines image.bounds left right
    · obtain ⟨left, right, hlines⟩ := hlines
      apply drawRuns_end hlines _ hfuel hlines.start
      intro draw hdraw hnone
      exact h ⟨⟨left, right, hlines⟩, draw, hdraw, hnone⟩
    · obtain ⟨n, hn⟩ := Nat.exists_eq_succ_of_ne_zero (Nat.pos_iff_ne_zero.mp hfuel.1)
      rw [hn]
      exact ⟨_, drawRuns_idle (start_idle hlines) image.rects⟩
  obtain ⟨d, hd⟩ := hruns
  refine ⟨d.svgRects, ?_⟩
  show (image.rects.foldlM _ image.start >>= fun d => some d.svgRects) = _
  rw [hd]
  rfl

theorem drawImage_never_ends {image : DecodedImage} (h : image.Endless) :
    drawImage paletteColors fuel image = none := by
  obtain ⟨⟨left, right, hlines⟩, hnan⟩ := h
  show (image.rects.foldlM _ image.start >>= fun d => some d.svgRects) = _
  rw [drawRuns_never_end hlines hnan hlines.start]
  rfl

/-! ## Pictures -/

/-- `buildSVG` returns, after so many tests of the loops as it takes. -/
def Ends (parts : List JsString) (paletteColors : List String) (bgColor : Option String) : Prop :=
  ∃ fuel svg, buildSVG paletteColors fuel parts bgColor = some svg

/-- The loop over the parts. -/
def joinParts (paletteColors : List String) (fuel : Nat) (parts : List JsString) (start : String) :
    Option String :=
  parts.foldlM (fun result part => do
    return result ++ String.join (← drawImage paletteColors fuel (decodeImage part))) start

theorem joinParts_ends {parts : List JsString} (h : ∀ part ∈ parts, ¬ (decodeImage part).Endless)
    (hfuel : ∀ part ∈ parts, Enough fuel (decodeImage part).rects) (start : String) :
    ∃ svg, joinParts paletteColors fuel parts start = some svg := by
  induction parts generalizing start with
  | nil => exact ⟨start, rfl⟩
  | cons part parts ih =>
    rw [List.forall_mem_cons] at h hfuel
    obtain ⟨rects, hrects⟩ : ∃ rects, drawImage paletteColors fuel (decodeImage part) = some rects :=
      drawImage_ends h.1 hfuel.1
    obtain ⟨svg, hsvg⟩ := ih h.2 hfuel.2 (start ++ String.join rects)
    refine ⟨svg, ?_⟩
    rw [joinParts, List.foldlM_cons, hrects]
    exact hsvg

theorem joinParts_never_ends {parts : List JsString}
    (h : ∃ part ∈ parts, (decodeImage part).Endless) (start : String) :
    joinParts paletteColors fuel parts start = none := by
  induction parts generalizing start with
  | nil =>
    obtain ⟨part, hpart, -⟩ := h
    cases hpart
  | cons part parts ih =>
    rw [joinParts, List.foldlM_cons]
    cases hdraw : drawImage paletteColors fuel (decodeImage part) with
    | none => rfl
    | some rects =>
      have hrest : ∃ part ∈ parts, (decodeImage part).Endless := by
        obtain ⟨part', hpart', hendless⟩ := h
        rcases List.mem_cons.mp hpart' with rfl | hmem
        · rw [drawImage_never_ends hendless] at hdraw
          cases hdraw
        · exact ⟨part', hmem, hendless⟩
      exact ih hrest (start ++ String.join rects)

/-- What `buildSVG` starts with. -/
def startTag (bgColor : Option String) : String :=
  let background := match bgColor with
    | some color => if color = "" then "none" else "#" ++ color
    | none => "none"
  "<svg width=\"320\" height=\"320\" viewBox=\"0 0 320 320\" " ++
    "xmlns=\"http://www.w3.org/2000/svg\" shape-rendering=\"crispEdges\">" ++
    "<rect width=\"100%\" height=\"100%\" fill=\"" ++ background ++ "\" />"

theorem buildSVG_eq (parts : List JsString) (bgColor : Option String) :
    buildSVG paletteColors fuel parts bgColor =
      (joinParts paletteColors fuel parts (startTag bgColor)).map (· ++ "</svg>") := by
  show (joinParts paletteColors fuel parts (startTag bgColor) >>= fun svg => some (svg ++ "</svg>")) =
    _
  cases joinParts paletteColors fuel parts (startTag bgColor) with
  | none => rfl
  | some svg => rfl

theorem exists_enough_parts (parts : List JsString) :
    ∃ fuel, ∀ part ∈ parts, Enough fuel (decodeImage part).rects := by
  induction parts with
  | nil => exact ⟨0, fun part hpart => absurd hpart List.not_mem_nil⟩
  | cons part parts ih =>
    obtain ⟨fuel₁, hfuel₁⟩ := exists_enough (decodeImage part).rects
    obtain ⟨fuel₂, hfuel₂⟩ := ih
    refine ⟨fuel₁ + fuel₂, ?_⟩
    rw [List.forall_mem_cons]
    refine ⟨hfuel₁.mono (by omega), ?_⟩
    intro part hpart
    exact (hfuel₂ part hpart).mono (by omega)

/-- On any strings `buildSVG` ends unless some part has a left bound less than its right bound and a
run whose length is `NaN`, and then it does not. -/
theorem buildSVG_ends_iff (parts : List JsString) (paletteColors : List String)
    (bgColor : Option String) :
    Ends parts paletteColors bgColor ↔
      ¬ ∃ part ∈ parts, (∃ left right : Int, (decodeImage part).bounds.left = some left ∧
        (decodeImage part).bounds.right = some right ∧ left < right) ∧
        ∃ draw ∈ (decodeImage part).rects, draw.1 = none := by
  have hiff : ∀ part, (decodeImage part).Endless ↔ (∃ left right : Int,
      (decodeImage part).bounds.left = some left ∧ (decodeImage part).bounds.right = some right ∧
        left < right) ∧ ∃ draw ∈ (decodeImage part).rects, draw.1 = none := by
    intro part
    apply and_congr_left
    intro _
    constructor
    · rintro ⟨left, right, hleft, hright, hlt⟩
      exact ⟨left, right, hleft, hright, hlt⟩
    · rintro ⟨left, right, hleft, hright, hlt⟩
      exact ⟨left, right, hleft, hright, hlt⟩
  simp only [← hiff]
  constructor
  · rintro ⟨fuel, svg, hsvg⟩ hendless
    rw [buildSVG_eq, joinParts_never_ends hendless] at hsvg
    cases hsvg
  · intro hnone
    obtain ⟨fuel, hfuel⟩ := exists_enough_parts parts
    have hends : ∀ part ∈ parts, ¬ (decodeImage part).Endless := by
      intro part hpart hendless
      exact hnone ⟨part, hpart, hendless⟩
    obtain ⟨svg, hsvg⟩ := joinParts_ends hends hfuel (startTag bgColor)
    refine ⟨fuel, svg ++ "</svg>", ?_⟩
    rw [buildSVG_eq, hsvg]
    rfl

/-! ## Hex data -/

/-- The code units of a string. -/
def ofString (s : List Char) : JsString := s.map fun c => UInt16.ofNat c.toNat

/-- The data of an image is written in hex digits, with `0x` before it or without. -/
def IsHex (image : String) : Prop :=
  ∃ digits : List Char, (∀ c ∈ digits, (hexValue c).isSome) ∧
    (image.toList = '0' :: 'x' :: digits ∨ image.toList = digits)

/-- What the code units of hex digits are, and what they are not. -/
theorem hexDigit_ofNat :
    ∀ n < 128, hexDigit (UInt16.ofNat n) = hexValue (Char.ofNat n) ∧
      ((hexValue (Char.ofNat n)).isSome → isWhiteSpace (UInt16.ofNat n) = false ∧
        UInt16.ofNat n ≠ 0x2D ∧ UInt16.ofNat n ≠ 0x2B ∧ UInt16.ofNat n ≠ 0x78 ∧
        UInt16.ofNat n ≠ 0x58) := by
  decide +kernel

theorem toNat_lt_of_hex {c : Char} (h : (hexValue c).isSome) : c.toNat < 128 := by
  unfold hexValue at h
  split at h
  · rename_i hdigit
    have hle : c.toNat ≤ '9'.toNat := hdigit.2
    have hnine : '9'.toNat = 57 := rfl
    omega
  · split at h
    · rename_i hlower
      have hle : c.toNat ≤ 'f'.toNat := hlower.2
      have hf : 'f'.toNat = 102 := rfl
      omega
    · split at h
      · rename_i hupper
        have hle : c.toNat ≤ 'F'.toNat := hupper.2
        have hf : 'F'.toNat = 70 := rfl
        omega
      · cases h

theorem hexDigit_ofChar {c : Char} (h : (hexValue c).isSome) :
    hexDigit (UInt16.ofNat c.toNat) = hexValue c ∧
      isWhiteSpace (UInt16.ofNat c.toNat) = false ∧ UInt16.ofNat c.toNat ≠ 0x2D ∧
      UInt16.ofNat c.toNat ≠ 0x2B ∧ UInt16.ofNat c.toNat ≠ 0x78 ∧ UInt16.ofNat c.toNat ≠ 0x58 := by
  obtain ⟨hsame, hnot⟩ := hexDigit_ofNat c.toNat (toNat_lt_of_hex h)
  rw [Char.ofNat_toNat] at hsame hnot
  exact ⟨hsame, hnot h⟩

variable {s : List Char}

theorem isLineTerminator_ofChar {c : Char} (h : (hexValue c).isSome) :
    isLineTerminator (UInt16.ofNat c.toNat) = false := by
  have hspace := (hexDigit_ofChar h).2.1
  unfold isWhiteSpace at hspace
  simp only [Bool.or_eq_false_iff] at hspace
  exact hspace.1.1

/-- A number of the model of hex data. -/
def ofHex (n : Option Nat) : JsNumber := n.map Int.ofNat

theorem splitSign_hex (h : ∀ c ∈ s, (hexValue c).isSome) :
    splitSign ((ofString s).dropWhile isWhiteSpace) = (false, ofString s) := by
  cases s with
  | nil => rfl
  | cons c s =>
    obtain ⟨-, hspace, hminus, hplus, -, -⟩ := hexDigit_ofChar (h c (List.mem_cons_self ..))
    have hkeep : (ofString (c :: s)).dropWhile isWhiteSpace = ofString (c :: s) := by
      show List.dropWhile isWhiteSpace (UInt16.ofNat c.toNat :: ofString s) = _
      rw [List.dropWhile_cons, hspace]
      rfl
    have hhead : (ofString (c :: s)).head? = some (UInt16.ofNat c.toNat) := rfl
    rw [hkeep, splitSign, hhead, if_neg, if_neg]
    · exact fun heq => hplus (Option.some.inj heq)
    · exact fun heq => hminus (Option.some.inj heq)

theorem take_two_hex (h : ∀ c ∈ s, (hexValue c).isSome) (x : UInt16)
    (hx : x = 0x78 ∨ x = 0x58) : (ofString s).take 2 ≠ [0x30, x] := by
  intro htake
  cases s with
  | nil => cases htake
  | cons c s =>
    cases s with
    | nil => simp [ofString] at htake
    | cons c' s =>
      obtain ⟨-, -, -, -, hlower, hupper⟩ :=
        hexDigit_ofChar (h c' (List.mem_cons_of_mem _ (List.mem_cons_self ..)))
      have hsecond : UInt16.ofNat c'.toNat = x := by
        have hlist : [UInt16.ofNat c.toNat, UInt16.ofNat c'.toNat] = [0x30, x] := htake
        exact (List.cons.inj (List.cons.inj hlist).2).1
      rcases hx with rfl | rfl
      · exact hlower hsecond
      · exact hupper hsecond

theorem map_hexDigit (h : ∀ c ∈ s, (hexValue c).isSome) :
    (ofString s).map hexDigit = s.map hexValue := by
  rw [ofString, List.map_map]
  apply List.map_congr_left
  intro c hc
  exact (hexDigit_ofChar (h c hc)).1

/-- Both read hex digits alike. -/
theorem parseInt_hex (h : ∀ c ∈ s, (hexValue c).isSome) :
    parseInt (ofString s) = ofHex (parseHex s) := by
  have hnoprefix : hasPrefix (ofString s) = false := by
    unfold hasPrefix
    apply decide_eq_false
    rintro (htake | htake)
    · exact take_two_hex h _ (.inl rfl) htake
    · exact take_two_hex h _ (.inr rfl) htake
  unfold parseInt parseHex
  simp only [splitSign_hex h, hnoprefix, Bool.false_eq_true, if_false, map_hexDigit h]
  cases ((s.map hexValue).takeWhile Option.isSome).reduceOption with
  | nil => rfl
  | cons n digits => rfl

theorem substring_hex (i j : Nat) :
    substring (ofString s) i j = ofString ((s.take j).drop i) := by
  rw [substring, ofString, ofString, List.map_drop, List.map_take]

theorem hex_of_sublist {t : List Char} (h : ∀ c ∈ s, (hexValue c).isSome) (hsub : t.Sublist s) :
    ∀ c ∈ t, (hexValue c).isSome :=
  fun c hc => h c (hsub.subset hc)

/-- A match has less than four characters. -/
theorem matchFour_more {before : JsString} {c : Char} (hc : (hexValue c).isSome)
    (hlength : before.length ≠ 3) : matchFour before (ofString (c :: s)) =
      matchFour (before ++ [UInt16.ofNat c.toNat]) (ofString s) := by
  show matchFour before (UInt16.ofNat c.toNat :: ofString s) = _
  rw [matchFour, isLineTerminator_ofChar hc, if_neg hlength]
  rfl

theorem matchFour_full {before : JsString} {c : Char} (hc : (hexValue c).isSome)
    (hlength : before.length = 3) : matchFour before (ofString (c :: s)) =
      (before ++ [UInt16.ofNat c.toNat]) :: matchFour [] (ofString s) := by
  show matchFour before (UInt16.ofNat c.toNat :: ofString s) = _
  rw [matchFour, isLineTerminator_ofChar hc, if_pos hlength]
  rfl

theorem matchFour_hex (h : ∀ c ∈ s, (hexValue c).isSome) :
    matchFour [] (ofString s) = (chunksOfFour s).map ofString := by
  induction s using chunksOfFour.induct with
  | case1 a b c d rest ih =>
    simp only [List.forall_mem_cons] at h
    obtain ⟨ha, hb, hc, hd, hrest⟩ := h
    rw [matchFour_more ha (by decide), matchFour_more hb (by simp), matchFour_more hc (by simp),
      matchFour_full hd (by simp), ih hrest]
    rfl
  | case2 => rfl
  | case3 rest hne hnil =>
    rcases rest with _ | ⟨a, _ | ⟨b, _ | ⟨c, _ | ⟨d, rest⟩⟩⟩⟩
    · exact absurd rfl hnil
    · simp only [List.forall_mem_cons] at h
      rw [matchFour_more h.1 (by decide)]
      rfl
    · simp only [List.forall_mem_cons] at h
      rw [matchFour_more h.1 (by decide), matchFour_more h.2.1 (by simp)]
      rfl
    · simp only [List.forall_mem_cons] at h
      rw [matchFour_more h.1 (by decide), matchFour_more h.2.1 (by simp),
        matchFour_more h.2.2.1 (by simp)]
      rfl
    · exact absurd rfl (hne a b c d rest)

/-! ## Decoding hex data -/

/-- A drawing instruction of the model of hex data. -/
def ofRun (run : Nat × Nat) : JsNumber × JsNumber := (some run.1, some run.2)

def ofDecoded (image : Nouns.DecodedImage) : DecodedImage where
  paletteIndex := some image.paletteIndex
  bounds :=
    { top := some image.bounds.top
      right := some image.bounds.right
      bottom := some image.bounds.bottom
      left := some image.bounds.left }
  rects := image.rects.map ofRun

theorem decodeRect_hex (h : ∀ c ∈ s, (hexValue c).isSome) {run : Nat × Nat}
    (hrun : Nouns.decodeRect s = some run) : decodeRect (ofString s) = ofRun run := by
  simp only [Nouns.decodeRect, Option.bind_eq_bind, Option.bind_eq_some_iff, Option.pure_def,
    Option.some.injEq] at hrun
  obtain ⟨length, hlength, color, hcolor, rfl⟩ := hrun
  rw [decodeRect, substring_hex, substring_hex,
    parseInt_hex (hex_of_sublist h ((List.drop_sublist _ _).trans (List.take_sublist _ _))),
    parseInt_hex (hex_of_sublist h ((List.drop_sublist _ _).trans (List.take_sublist _ _))),
    List.drop_zero, hlength, hcolor]
  rfl

theorem decodeRects_hex {chunks : List (List Char)}
    (h : ∀ chunk ∈ chunks, ∀ c ∈ chunk, (hexValue c).isSome) {runs : List (Nat × Nat)}
    (hruns : chunks.mapM Nouns.decodeRect = some runs) :
    (chunks.map ofString).map decodeRect = runs.map ofRun := by
  induction chunks generalizing runs with
  | nil =>
    cases hruns
    rfl
  | cons chunk chunks ih =>
    rw [List.forall_mem_cons] at h
    simp only [List.mapM_cons, Option.bind_eq_bind, Option.bind_eq_some_iff, Option.pure_def,
      Option.some.injEq] at hruns
    obtain ⟨run, hrun, rest, hrest, rfl⟩ := hruns
    rw [List.map_cons, List.map_cons, decodeRect_hex h.1 hrun, ih h.2 hrest]
    rfl

theorem hex_of_chunks (h : ∀ c ∈ s, (hexValue c).isSome) :
    ∀ chunk ∈ chunksOfFour s, ∀ c ∈ chunk, (hexValue c).isSome := by
  induction s using chunksOfFour.induct with
  | case1 a b c d rest ih =>
    simp only [List.forall_mem_cons] at h
    obtain ⟨ha, hb, hc, hd, hrest⟩ := h
    rw [chunksOfFour, List.forall_mem_cons]
    refine ⟨?_, ih hrest⟩
    simp only [List.forall_mem_cons]
    exact ⟨ha, hb, hc, hd, fun x hx => absurd hx List.not_mem_nil⟩
  | case2 => exact fun chunk hchunk => absurd hchunk List.not_mem_nil
  | case3 rest hne hnil =>
    intro chunk hchunk
    have hself : chunksOfFour rest = [rest] := by
      rcases rest with _ | ⟨a, _ | ⟨b, _ | ⟨c, _ | ⟨d, rest⟩⟩⟩⟩
      · exact absurd rfl hnil
      · rfl
      · rfl
      · rfl
      · exact absurd rfl (hne a b c d rest)
    rw [hself] at hchunk
    rw [List.mem_singleton.mp hchunk]
    exact h

theorem decodeImage_hex {image : String} (h : IsHex image) {decoded : Nouns.DecodedImage}
    (hdecoded : Nouns.decodeImage image = some decoded) :
    decodeImage (ofString image.toList) = ofDecoded decoded := by
  obtain ⟨digits, hdigits, himage⟩ := h
  have hdata : (if ['0', 'x'].isPrefixOf image.toList then image.toList.drop 2 else image.toList) =
      digits ∧ (if (ofString image.toList).take 2 = [0x30, 0x78] then (ofString image.toList).drop 2
        else ofString image.toList) = ofString digits := by
    rcases himage with himage | himage
    · rw [himage]
      exact ⟨rfl, rfl⟩
    · rw [himage, if_neg (take_two_hex hdigits _ (.inl rfl))]
      refine ⟨?_, rfl⟩
      apply if_neg
      intro hprefix
      rcases digits with _ | ⟨c, _ | ⟨c', digits⟩⟩
      · cases hprefix
      · simp at hprefix
      · simp only [List.isPrefixOf_cons_cons, Bool.and_eq_true, beq_iff_eq] at hprefix
        have hx := hdigits c' (List.mem_cons_of_mem _ (List.mem_cons_self ..))
        rw [← hprefix.2.1] at hx
        revert hx
        decide
  unfold Nouns.decodeImage at hdecoded
  unfold decodeImage
  simp only [hdata.1, Option.bind_eq_bind, Option.bind_eq_some_iff, Option.pure_def,
    Option.some.injEq] at hdecoded
  obtain ⟨p, hp, t, ht, r, hr, b, hb, l, hl, rects, hrects, rfl⟩ := hdecoded
  have hpart : ∀ i j, parseInt (substring (ofString digits) i j) =
      ofHex (parseHex ((digits.take j).drop i)) := by
    intro i j
    rw [substring_hex]
    apply parseInt_hex
    exact hex_of_sublist hdigits ((List.drop_sublist _ _).trans (List.take_sublist _ _))
  have hrest : ∀ c ∈ digits.drop 10, (hexValue c).isSome :=
    hex_of_sublist hdigits (List.drop_sublist _ _)
  have hdrop : (ofString digits).drop 10 = ofString (digits.drop 10) := List.map_drop.symm
  simp only [hdata.2, hpart, hp, ht, hr, hb, hl, hdrop, matchFour_hex hrest,
    decodeRects_hex (hex_of_chunks hrest) hrects]
  rfl

/-! ## Drawing hex data -/

/-- A drawing of the model of hex data. -/
def ofDrawing (d : Nouns.Drawing) : Drawing :=
  ⟨some d.currentX, some d.currentY, d.svgRects.map SvgRect.toSvg⟩

theorem tenfold_natCast (n : Nat) : JsNumber.tenfold (some n) = toString (n * 10) := by
  show toString ((n : Int) * 10) = _
  have hcast : (n : Int) * 10 = ((n * 10 : Nat) : Int) := by omega
  rw [hcast]
  rfl

theorem getRectLength_hex (x n right : Nat) :
    getRectLength (some (x : Int)) (some (n : Int)) (some (right : Int)) =
      some (Nouns.getRectLength x n right) := by
  show (if decide ((n : Int) ≤ (right : Int) - x) then some (n : Int)
    else some ((right : Int) - x)) = _
  unfold Nouns.getRectLength
  by_cases hle : (n : Int) ≤ (right : Int) - x
  · rw [if_pos (decide_eq_true hle)]
    simp only [if_pos hle]
  · rw [if_neg (fun h => hle (of_decide_eq_true h))]
    simp only [if_neg hle]

theorem drawSegment_hex (bounds : Nouns.ImageBounds) (paletteColors : List String)
    (color length : Nat) (d : Nouns.Drawing) :
    drawSegment ⟨some bounds.top, some bounds.right, some bounds.bottom, some bounds.left⟩
      paletteColors (some color) (some length) (ofDrawing d) =
      ofDrawing
        { currentX := if d.currentX + length = bounds.right then bounds.left
            else d.currentX + length
          currentY := if d.currentX + length = bounds.right then d.currentY + 1 else d.currentY
          svgRects := d.svgRects ++ pushed paletteColors color length d.currentX d.currentY } := by
  have hrect : rectText (some length) (some d.currentX) (some d.currentY)
      (hexColorAt paletteColors (some color)) =
      (SvgRect.mk length d.currentX d.currentY (Nouns.hexColorAt paletteColors color)).toSvg := by
    have hcolor : hexColorAt paletteColors (some color) = Nouns.hexColorAt paletteColors color := rfl
    unfold rectText SvgRect.toSvg
    simp only [tenfold_natCast, hcolor]
  have hrects : (if (some (color : Int) : JsNumber) ≠ some 0 then (ofDrawing d).svgRects ++
        [rectText (some length) (some d.currentX) (some d.currentY)
          (hexColorAt paletteColors (some color))] else (ofDrawing d).svgRects) =
      (d.svgRects ++ pushed paletteColors color length d.currentX d.currentY).map
        SvgRect.toSvg := by
    rw [List.map_append, pushed]
    by_cases hzero : color = 0
    · subst hzero
      rw [if_neg (by simp), if_neg (by simp)]
      exact (List.append_nil _).symm
    · have hne : (some (color : Int) : JsNumber) ≠ some 0 := by
        intro heq
        have hcast : (color : Int) = 0 := Option.some.inj heq
        omega
      rw [if_pos hne, if_pos hzero, hrect]
      rfl
  have hsame : JsNumber.same (some ((d.currentX : Int) + length)) (some (bounds.right : Int)) =
      decide (d.currentX + length = bounds.right) := by
    unfold JsNumber.same
    apply decide_eq_decide.mpr
    constructor
    · rintro ⟨heq, -⟩
      have hcast : (d.currentX : Int) + length = bounds.right := Option.some.inj heq
      omega
    · intro heq
      refine ⟨congrArg some (by omega), Option.some_ne_none _⟩
  unfold drawSegment
  show (if JsNumber.same (some ((d.currentX : Int) + length)) (some (bounds.right : Int)) then
      (⟨some bounds.left, some ((d.currentY : Int) + 1), _⟩ : Drawing)
    else ⟨some ((d.currentX : Int) + length), some d.currentY, _⟩) = _
  rw [hsame]
  by_cases hend : d.currentX + length = bounds.right
  · rw [if_pos (decide_eq_true hend), if_pos hend, if_pos hend]
    simp only [ofDrawing]
    rw [← hrects]
    rfl
  · rw [if_neg (fun h => hend (of_decide_eq_true h)), if_neg hend, if_neg hend]
    simp only [ofDrawing]
    rw [← hrects]
    rfl

/-- The loop over a run draws what the model of hex data draws. -/
theorem drawRun_hex (bounds : Nouns.ImageBounds) (paletteColors : List String) (color : Nat)
    {tests drawLength : Nat} (hfuel : drawLength < fuel) (htests : drawLength ≤ tests)
    (d : Nouns.Drawing) :
    drawRun ⟨some bounds.top, some bounds.right, some bounds.bottom, some bounds.left⟩
      paletteColors (some color) fuel (some drawLength) (ofDrawing d) =
      some (ofDrawing (Nouns.drawRun bounds paletteColors color tests drawLength d)) := by
  induction fuel generalizing tests drawLength d with
  | zero => omega
  | succ fuel ih =>
    have hlength : getRectLength (ofDrawing d).currentX (some drawLength) (some bounds.right) =
        some (Nouns.getRectLength d.currentX drawLength bounds.right) := getRectLength_hex ..
    rw [drawRun]
    simp only [hlength]
    by_cases hpos : 0 < min drawLength (bounds.right - d.currentX)
    · obtain ⟨tests, rfl⟩ : ∃ n, tests = n + 1 := ⟨tests - 1, by omega⟩
      have hnat := toNat_getRectLength hpos
      have hlong := getRectLength_pos_iff.mpr hpos
      have hpositive : JsNumber.isPositive
          (some (Nouns.getRectLength d.currentX drawLength bounds.right)) = true :=
        decide_eq_true hlong
      have hcast : Nouns.getRectLength d.currentX drawLength bounds.right =
          ((min drawLength (bounds.right - d.currentX) : Nat) : Int) := by omega
      have hsub : JsNumber.sub (some drawLength)
          (some ((min drawLength (bounds.right - d.currentX) : Nat) : Int)) =
          some ((drawLength - min drawLength (bounds.right - d.currentX) : Nat) : Int) := by
        show some ((drawLength : Int) - (min drawLength (bounds.right - d.currentX) : Nat)) = _
        congr 1
        omega
      rw [if_pos hpositive, hcast, hsub, drawSegment_hex,
        drawRun_step rfl hpos]
      exact ih (by omega) (by omega) _
    · have hstop : min drawLength (bounds.right - d.currentX) = 0 := by omega
      have hnot : ¬ JsNumber.isPositive
          (some (Nouns.getRectLength d.currentX drawLength bounds.right)) = true := by
        intro hpositive
        exact hpos (getRectLength_pos_iff.mp (of_decide_eq_true hpositive))
      rw [if_neg hnot, drawRun_stop hstop]

theorem drawImage_hex (image : Nouns.DecodedImage) (paletteColors : List String)
    (hfuel : ∀ draw ∈ image.rects, draw.1 < fuel) :
    drawImage paletteColors fuel (ofDecoded image) =
      some ((Nouns.drawImage image paletteColors).map SvgRect.toSvg) := by
  have hruns : ∀ (runs : List (Nat × Nat)) (d : Nouns.Drawing), (∀ draw ∈ runs, draw.1 < fuel) →
      (runs.map ofRun).foldlM (fun d draw => drawRun (ofDecoded image).bounds paletteColors draw.2
        fuel draw.1 d) (ofDrawing d) =
      some (ofDrawing (runs.foldl (fun d draw =>
        Nouns.drawRun image.bounds paletteColors draw.2 draw.1 draw.1 d) d)) := by
    intro runs
    induction runs with
    | nil => exact fun _ _ => rfl
    | cons draw runs ih =>
      intro d hfuel
      rw [List.forall_mem_cons] at hfuel
      have hrun : drawRun (ofDecoded image).bounds paletteColors (ofRun draw).2 fuel (ofRun draw).1
          (ofDrawing d) = some (ofDrawing
            (Nouns.drawRun image.bounds paletteColors draw.2 draw.1 draw.1 d)) :=
        drawRun_hex image.bounds paletteColors draw.2 hfuel.1 (Nat.le_refl _) d
      rw [List.map_cons, List.foldlM_cons, hrun]
      exact ih _ hfuel.2
  have hall := hruns image.rects ⟨image.bounds.left, image.bounds.top, []⟩ hfuel
  show ((image.rects.map ofRun).foldlM _ (ofDrawing ⟨image.bounds.left, image.bounds.top, []⟩) >>=
    fun d => some d.svgRects) = _
  rw [hall]
  rfl

theorem exists_longer (images : List Nouns.DecodedImage) :
    ∃ fuel, ∀ image ∈ images, ∀ draw ∈ image.rects, draw.1 < fuel := by
  have hruns : ∀ runs : List (Nat × Nat), ∃ fuel, ∀ draw ∈ runs, draw.1 < fuel := by
    intro runs
    induction runs with
    | nil => exact ⟨0, fun draw hdraw => absurd hdraw List.not_mem_nil⟩
    | cons draw runs ih =>
      obtain ⟨fuel, hfuel⟩ := ih
      refine ⟨fuel + draw.1 + 1, ?_⟩
      rw [List.forall_mem_cons]
      refine ⟨by omega, fun draw' hdraw' => ?_⟩
      have hlt := hfuel draw' hdraw'
      omega
  obtain ⟨fuel, hfuel⟩ := hruns (images.flatMap fun image => image.rects)
  refine ⟨fuel, fun image himage draw hdraw => hfuel draw ?_⟩
  exact List.mem_flatMap.mpr ⟨image, himage, hdraw⟩

/-- On hex data the loops end with the string of the model of hex data: for every number of tests
from some number on, so that it does not matter which. -/
theorem buildSVG_hex {parts : List String} (hhex : ∀ part ∈ parts, IsHex part)
    {paletteColors : List String} {bgColor : Option String} {svg : String}
    (h : Nouns.buildSVG parts paletteColors bgColor = some svg) :
    ∃ fuel, ∀ fuel' ≥ fuel,
      buildSVG paletteColors fuel' (parts.map fun part => ofString part.toList) bgColor =
        some svg := by
  simp only [Nouns.buildSVG, Option.bind_eq_bind, Option.bind_eq_some_iff, Option.pure_def,
    Option.some.injEq] at h
  obtain ⟨images, himages, rfl⟩ := h
  obtain ⟨fuel, hfuel⟩ := exists_longer images
  refine ⟨fuel, fun fuel' hle => ?_⟩
  have hparts : ∀ (parts : List String) (images : List Nouns.DecodedImage) (start : String),
      (∀ part ∈ parts, IsHex part) → parts.mapM Nouns.decodeImage = some images →
      (∀ image ∈ images, ∀ draw ∈ image.rects, draw.1 < fuel') →
      joinParts paletteColors fuel' (parts.map fun part => ofString part.toList) start =
        some (images.foldl (fun result image => result ++
          String.join ((Nouns.drawImage image paletteColors).map SvgRect.toSvg)) start) := by
    intro parts
    induction parts with
    | nil =>
      intro images start _ himages _
      cases himages
      rfl
    | cons part parts ih =>
      intro images start hhex himages hfuel
      rw [List.forall_mem_cons] at hhex
      simp only [List.mapM_cons, Option.bind_eq_bind, Option.bind_eq_some_iff, Option.pure_def,
        Option.some.injEq] at himages
      obtain ⟨image, himage, rest, hrest, rfl⟩ := himages
      rw [List.forall_mem_cons] at hfuel
      rw [List.map_cons, joinParts, List.foldlM_cons, decodeImage_hex hhex.1 himage,
        drawImage_hex image paletteColors hfuel.1]
      exact ih rest _ hhex.2 hrest hfuel.2
  rw [buildSVG_eq, hparts parts images _ hhex himages]
  · rfl
  · intro image himage draw hdraw
    exact Nat.lt_of_lt_of_le (hfuel image himage draw hdraw) hle

/-- A white line of three pixels. -/
theorem buildSVG_hex_of_line :
    ∃ fuel, ∀ fuel' ≥ fuel, buildSVG ["", "ffffff"] fuel'
      [ofString "0x00000300000301".toList] none =
        Nouns.buildSVG ["0x00000300000301"] ["", "ffffff"] none := by
  have hhex : ∀ part ∈ ["0x00000300000301"], IsHex part := by
    intro part hpart
    rw [List.mem_singleton.mp hpart]
    refine ⟨"00000300000301".toList, ?_, .inl ?_⟩
    · have hall : "00000300000301".toList.all (fun c => (hexValue c).isSome) = true := by
        decide +kernel
      exact List.all_eq_true.mp hall
    · rfl
  have hsome : (Nouns.buildSVG ["0x00000300000301"] ["", "ffffff"] none).isSome := by
    decide +kernel
  obtain ⟨svg, hsvg⟩ := Option.isSome_iff_exists.mp hsome
  rw [hsvg]
  exact buildSVG_hex hhex hsvg

end Nouns.SvgLoop
