import Nouns.Image.Encoder
import Nouns.Lib.Raster

/-!
# Decoding — what `decodeImage` and `buildSVG` make of image data

Data of hex digits is decoded to the numbers it was written from, and the loops of `buildSVG` paint
the pixels of the bounds in order, one run after the other.
-/

open Raster

namespace Nouns

/-! ## Hex digits -/

/-- The characters of `toPaddedHex`. -/
def hexDigits (c : Nat) : List Char := List.leftpad 2 '0' (Nat.toDigits 16 c)

def hexData (data : List Nat) : List Char := data.flatMap hexDigits

theorem toList_toPaddedHex (c : Nat) : (toPaddedHex c).toList = hexDigits c := String.toList_ofList

theorem toList_join_toPaddedHex (data : List Nat) :
    (String.join (data.map toPaddedHex)).toList = hexData data := by
  rw [String.toList_join, List.flatMap_map, hexData]
  exact List.flatMap_congr (fun c _ => toList_toPaddedHex c)

theorem hexDigits_of_lt :
    ∀ c < 256, hexDigits c = [Nat.digitChar (c / 16), Nat.digitChar (c % 16)] := by
  decide +kernel

theorem parseHex_digits :
    ∀ a < 16, ∀ b < 16, parseHex [Nat.digitChar a, Nat.digitChar b] = some (16 * a + b) := by
  decide +kernel

theorem parseHex_hexDigits {c : Nat} (h : c < 256) :
    parseHex [Nat.digitChar (c / 16), Nat.digitChar (c % 16)] = some c := by
  rw [parseHex_digits _ (by omega) _ (by omega)]
  congr 1
  omega

/-! ## Images -/

theorem decodeRect_digits {length color : Nat} (hlength : length < 256) (hcolor : color < 256) :
    decodeRect [Nat.digitChar (length / 16), Nat.digitChar (length % 16),
      Nat.digitChar (color / 16), Nat.digitChar (color % 16)] = some (length, color) := by
  have hfirst := parseHex_hexDigits hlength
  have hsecond := parseHex_hexDigits hcolor
  simp [decodeRect, hfirst, hsecond]

theorem decodeRects_hexData {runs : List (Nat × Nat)} (h : ∀ r ∈ runs, r.1 < 256 ∧ r.2 < 256) :
    (chunksOfFour (hexData (runs.flatMap fun r => [r.1, r.2]))).mapM decodeRect = some runs := by
  induction runs with
  | nil => rfl
  | cons r runs ih =>
    rw [List.forall_mem_cons] at h
    obtain ⟨⟨hlength, hcolor⟩, h⟩ := h
    have hih := ih h
    unfold hexData at hih
    simp only [hexData, List.flatMap_cons, List.cons_append, List.nil_append,
      hexDigits_of_lt _ hlength, hexDigits_of_lt _ hcolor, chunksOfFour, List.mapM_cons,
      decodeRect_digits hlength hcolor, hih]
    rfl

theorem decodeImage_hexData {image : String} {paletteIndex top right bottom left : Nat}
    {runs : List (Nat × Nat)}
    (himage : image.toList = '0' :: 'x' ::
      hexData ([paletteIndex, top, right, bottom, left] ++ runs.flatMap fun r => [r.1, r.2]))
    (hheader : ∀ c ∈ [paletteIndex, top, right, bottom, left], c < 256)
    (hruns : ∀ r ∈ runs, r.1 < 256 ∧ r.2 < 256) :
    decodeImage image = some ⟨paletteIndex, ⟨top, right, bottom, left⟩, runs⟩ := by
  simp only [List.forall_mem_cons, List.not_mem_nil, false_implies, implies_true, and_true]
    at hheader
  obtain ⟨hp, ht, hr, hb, hl⟩ := hheader
  have hrects := decodeRects_hexData hruns
  unfold hexData at hrects
  simp only [decodeImage, himage, hexData, List.flatMap_append, List.flatMap_cons, List.flatMap_nil,
    List.append_nil, hexDigits_of_lt _ hp, hexDigits_of_lt _ ht, hexDigits_of_lt _ hr,
    hexDigits_of_lt _ hb, hexDigits_of_lt _ hl]
  simp [parseHex_hexDigits, hp, ht, hr, hb, hl, hrects]

/-! ## The loop over a run -/

variable {bounds : ImageBounds} {palette : List String} {color fuel : Nat} {d : Drawing}

theorem getRectLength_pos_iff {currentX drawLength rightBound : Nat} :
    getRectLength currentX drawLength rightBound > 0 ↔ 0 < min drawLength (rightBound - currentX) := by
  simp only [getRectLength]
  split <;> omega

theorem toNat_getRectLength {currentX drawLength rightBound : Nat}
    (h : 0 < min drawLength (rightBound - currentX)) :
    (getRectLength currentX drawLength rightBound).toNat =
      min drawLength (rightBound - currentX) := by
  simp only [getRectLength]
  split <;> omega

/-- The rectangle of a segment, which is not pushed if it is transparent. -/
def pushed (palette : List String) (color length x y : Nat) : List SvgRect :=
  if color ≠ 0 then [⟨length, x, y, hexColorAt palette color⟩] else []

theorem drawRun_stop {drawLength : Nat} (h : min drawLength (bounds.right - d.currentX) = 0) :
    drawRun bounds palette color fuel drawLength d = d := by
  cases fuel with
  | zero => rfl
  | succ fuel =>
    have hstop : ¬ getRectLength d.currentX drawLength bounds.right > 0 := by
      rw [getRectLength_pos_iff]
      omega
    rw [drawRun, if_neg hstop]

theorem drawRun_step {drawLength length : Nat}
    (hlength : min drawLength (bounds.right - d.currentX) = length) (hpos : 0 < length) :
    drawRun bounds palette color (fuel + 1) drawLength d =
      drawRun bounds palette color fuel (drawLength - length)
        { currentX := if d.currentX + length = bounds.right then bounds.left
            else d.currentX + length
          currentY := if d.currentX + length = bounds.right then d.currentY + 1 else d.currentY
          svgRects := d.svgRects ++ pushed palette color length d.currentX d.currentY } := by
  subst hlength
  have hrects : (if color ≠ 0 then
      d.svgRects ++ [⟨min drawLength (bounds.right - d.currentX), d.currentX, d.currentY,
        hexColorAt palette color⟩] else d.svgRects) =
      d.svgRects ++ pushed palette color (min drawLength (bounds.right - d.currentX)) d.currentX
        d.currentY := by
    unfold pushed
    split
    · rfl
    · rw [List.append_nil]
  rw [drawRun, if_pos (getRectLength_pos_iff.mpr hpos)]
  dsimp only
  rw [toNat_getRectLength hpos, hrects]
  split <;> rfl

/-! ## Painted pixels -/

/-- The colours that rectangles give a pixel, in their order. -/
def paintedAt (rects : List SvgRect) (x y : Nat) : List String :=
  (rects.filter fun r => r.y = y ∧ r.x ≤ x ∧ x < r.x + r.length).map SvgRect.fill

/-- The colours for a pixel with this colour index. -/
def fillOf (palette : List String) : Option Nat → List String
  | some color => if color ≠ 0 then [hexColorAt palette color] else []
  | none => []

/-- The pixels of the window from number `k` on are painted with these colour indices, and no
others. -/
def Paints (w : Window) (palette : List String) (k : Nat) (colors : List Nat)
    (rects : List SvgRect) : Prop :=
  ∀ x y, paintedAt rects x y = if w.Contains x y ∧ k ≤ w.number x y
    then fillOf palette colors[w.number x y - k]? else []

namespace Paints

variable {w : Window} {k : Nat} {colors colors' : List Nat} {rects rects' : List SvgRect}

theorem nil : Paints w palette k [] [] := by
  intro x y
  split <;> rfl

theorem append (h : Paints w palette k colors rects)
    (h' : Paints w palette (k + colors.length) colors' rects') :
    Paints w palette k (colors ++ colors') (rects ++ rects') := by
  intro x y
  have hsplit : paintedAt (rects ++ rects') x y = paintedAt rects x y ++ paintedAt rects' x y := by
    simp only [paintedAt, List.filter_append, List.map_append]
  rw [hsplit, h x y, h' x y]
  by_cases hin : w.Contains x y ∧ k ≤ w.number x y
  · rw [if_pos hin, if_pos hin]
    by_cases hfirst : w.number x y - k < colors.length
    · -- The pixel belongs to the first colours.
      rw [if_neg (by omega), List.append_nil, List.getElem?_append_left hfirst]
    · rw [if_pos ⟨hin.1, by omega⟩, List.getElem?_eq_none (by omega),
        List.getElem?_append_right (by omega), Nat.sub_sub]
      rfl
  · rw [if_neg hin, if_neg hin, if_neg (fun h => hin ⟨h.1, by omega⟩)]
    rfl

theorem segment {length : Nat} (h : k % w.width + length ≤ w.width) :
    Paints w palette k (List.replicate length color)
      (pushed palette color length (w.column k) (w.line k)) := by
  intro x y
  by_cases hcolor : color = 0
  · have hnone : fillOf palette (List.replicate length color)[w.number x y - k]? = [] := by
      rw [List.getElem?_replicate]
      split
      · exact if_neg (not_not.mpr hcolor)
      · rfl
    rw [pushed, if_neg (not_not.mpr hcolor), hnone, ite_self]
    rfl
  rw [pushed, if_pos hcolor]
  by_cases hseg : w.line k = y ∧ w.column k ≤ x ∧ x < w.column k + length
  · have hin := Window.contains_of_mem_segment h hseg
    obtain ⟨hfrom, hto⟩ := (Window.mem_segment_iff hin h).mp hseg
    rw [if_pos ⟨hin, hfrom⟩, List.getElem?_replicate, if_pos (by omega)]
    simp only [paintedAt, hseg, and_self, decide_true, List.filter_cons_of_pos, List.filter_nil,
      List.map_cons, List.map_nil, fillOf, ne_eq, hcolor, not_false_eq_true, if_true]
  · have hnone : paintedAt [⟨length, w.column k, w.line k, hexColorAt palette color⟩] x y = [] := by
      simp only [paintedAt, hseg, decide_false, List.filter_cons_of_neg, Bool.false_eq_true,
        not_false_eq_true, List.filter_nil, List.map_nil]
    rw [hnone]
    split
    · rename_i hin
      -- The pixel comes after the segment.
      have hnumber : ¬ w.number x y < k + length := fun hto =>
        hseg ((Window.mem_segment_iff hin.1 h).mpr ⟨hin.2, hto⟩)
      rw [List.getElem?_replicate, if_neg (by omega)]
      rfl
    · rfl

end Paints

/-! ## Whole images -/

/-- The bounds are those of the window. -/
structure Bounded (w : Window) (bounds : ImageBounds) : Prop where
  left : bounds.left = w.left
  right : bounds.right = w.right
  top : bounds.top = w.top

variable {w : Window} {k : Nat}

/-- The drawing after `rects` are pushed, at pixel `k`. -/
def Drawing.at (w : Window) (k : Nat) (rects : List SvgRect) : Drawing :=
  ⟨w.column k, w.line k, rects⟩

/-- A run is painted from the current pixel on.  The fuel is that of `drawImage`. -/
theorem drawRun_paints (hw : Bounded w bounds) (palette : List String) (color : Nat)
    {drawLength : Nat} (hfuel : drawLength ≤ fuel) (k : Nat) (rects : List SvgRect) :
    ∃ rects', drawRun bounds palette color fuel drawLength (.at w k rects) =
        .at w (k + drawLength) (rects ++ rects') ∧
      Paints w palette k (List.replicate drawLength color) rects' := by
  induction fuel generalizing drawLength k rects with
  | zero =>
    obtain rfl : drawLength = 0 := by omega
    exact ⟨[], by rw [List.append_nil]; rfl, .nil⟩
  | succ fuel ih =>
    rcases Nat.eq_zero_or_pos drawLength with rfl | hpos
    · refine ⟨[], ?_, .nil⟩
      rw [drawRun_stop (Nat.zero_min _), List.append_nil]
      rfl
    -- The first segment goes to the end of the line, if the run is long enough.
    have hmod := Nat.mod_lt k w.width_pos
    have hrest : bounds.right - (Drawing.at w k rects).currentX = w.width - k % w.width := by
      rw [hw.right]
      exact Window.right_sub_column
    obtain ⟨length, hlength⟩ : ∃ n, n = min drawLength (w.width - k % w.width) := ⟨_, rfl⟩
    have hin : min drawLength (bounds.right - (Drawing.at w k rects).currentX) = length := by
      rw [hrest, hlength]
    rw [drawRun_step hin (by omega)]
    have hnext : (⟨if w.column k + length = bounds.right then bounds.left else w.column k + length,
        if w.column k + length = bounds.right then w.line k + 1 else w.line k,
        rects ++ pushed palette color length (w.column k) (w.line k)⟩ : Drawing) =
        .at w (k + length) (rects ++ pushed palette color length (w.column k) (w.line k)) := by
      have hcolumn : w.right - w.column k = w.width - k % w.width := Window.right_sub_column
      have hlt : w.column k < w.right := Window.column_lt
      by_cases hend : k % w.width + length = w.width
      · obtain ⟨hc, hl⟩ := Window.next_line hend
        rw [Drawing.at, hc, hl, hw.right, if_pos (by omega), if_pos (by omega), hw.left]
      · obtain ⟨hc, hl⟩ := Window.same_line (w := w) (k := k) (n := length) (by omega)
        rw [Drawing.at, hc, hl, hw.right, if_neg (by omega), if_neg (by omega)]
    have hfuel' : drawLength - length ≤ fuel := by omega
    obtain ⟨rects', hdraw, hpaints⟩ := ih hfuel' (k + length)
      (rects ++ pushed palette color length (w.column k) (w.line k))
    refine ⟨pushed palette color length (w.column k) (w.line k) ++ rects', ?_, ?_⟩
    · rw [← List.append_assoc]
      have hsum : k + drawLength = k + length + (drawLength - length) := by omega
      rw [hsum, ← hdraw, ← hnext]
      rfl
    · have hsegment : Paints w palette k (List.replicate length color)
          (pushed palette color length (w.column k) (w.line k)) := .segment (by omega)
      have hsum : drawLength = length + (drawLength - length) := by omega
      rw [hsum, List.replicate_add]
      refine hsegment.append ?_
      rw [List.length_replicate]
      exact hpaints

theorem drawRuns_paints (hw : Bounded w bounds) (palette : List String) (runs : List (Nat × Nat))
    (k : Nat) (rects : List SvgRect) :
    ∃ rects', runs.foldl (fun d draw => drawRun bounds palette draw.2 draw.1 draw.1 d)
        (.at w k rects) = .at w (k + (expand runs).length) (rects ++ rects') ∧
      Paints w palette k (expand runs) rects' := by
  induction runs generalizing k rects with
  | nil => exact ⟨[], by rw [List.append_nil]; rfl, .nil⟩
  | cons run runs ih =>
    obtain ⟨first, hfirst, hpaints⟩ := drawRun_paints hw palette run.2 (Nat.le_refl run.1) k
      rects
    obtain ⟨rest, hrest, hpaints'⟩ := ih (k + run.1) (rects ++ first)
    refine ⟨first ++ rest, ?_, ?_⟩
    · rw [List.foldl_cons, hfirst, hrest, expand_cons, List.length_append, List.length_replicate,
        Nat.add_assoc, List.append_assoc]
    · rw [expand_cons]
      refine hpaints.append ?_
      rw [List.length_replicate]
      exact hpaints'

/-- An image is painted from the top left corner of its bounds on. -/
theorem drawImage_paints {image : DecodedImage} (hw : Bounded w image.bounds)
    (palette : List String) :
    Paints w palette 0 (expand image.rects) (drawImage image palette) := by
  obtain ⟨rects, hdraw, hpaints⟩ := drawRuns_paints hw palette image.rects 0 []
  have hstart : (⟨image.bounds.left, image.bounds.top, []⟩ : Drawing) = .at w 0 [] := by
    rw [Drawing.at, Window.column, Window.line, Nat.zero_mod, Nat.zero_div, hw.left, hw.top]
    rfl
  rw [drawImage, hstart, hdraw]
  exact hpaints

end Nouns
