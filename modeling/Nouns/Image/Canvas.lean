import Nouns.Image.RoundTrip
import Nouns.Image.SdkAgreement

/-!
# Canvas — encoded images on the chain

`SVGRenderer` has a table for 33 coordinates, a buffer for four rectangles and checked subtractions.
On what the encoder makes of small images none of them fails, and what is drawn is the picture.
-/

open Fallible Raster

namespace Nouns

/-! ## Bytes of encoded images -/

theorem parseHex_of_hexDigits {c : Nat} (h : c < 256) : parseHex (hexDigits c) = some c := by
  rw [hexDigits_of_lt c h]
  exact parseHex_hexDigits h

/-- Bytes can be read back from their digits. -/
theorem hexData_injective {l l' : List Nat} (hl : ∀ c ∈ l, c < 256) (hl' : ∀ c ∈ l', c < 256)
    (h : hexData l = hexData l') : l = l' := by
  induction l generalizing l' with
  | nil =>
    cases l' with
    | nil => rfl
    | cons c' l' =>
      rw [List.forall_mem_cons] at hl'
      simp [hexData, hexDigits_of_lt c' hl'.1] at h
  | cons c l ih =>
    rw [List.forall_mem_cons] at hl
    cases l' with
    | nil => simp [hexData, hexDigits_of_lt c hl.1] at h
    | cons c' l' =>
      rw [List.forall_mem_cons] at hl'
      have hsplit : hexDigits c ++ hexData l = hexDigits c' ++ hexData l' := h
      have hlength : (hexDigits c).length = (hexDigits c').length := by
        rw [hexDigits_of_lt c hl.1, hexDigits_of_lt c' hl'.1]
        rfl
      obtain ⟨hdigits, hrest⟩ := List.append_inj hsplit hlength
      have hparsed : some c = some c' := by
        rw [← parseHex_of_hexDigits hl.1, ← parseHex_of_hexDigits hl'.1, hdigits]
      rw [Option.some.inj hparsed, ih hl.2 hl'.2 hrest]

theorem readDraws_eq {image : Bytes} {runs : List (Nat × Nat)}
    (h : image.map UInt8.toNat = runs.flatMap fun run => [run.1, run.2]) :
    readDraws image = .ok runs := by
  induction runs generalizing image with
  | nil =>
    have hnil : image = [] := List.map_eq_nil_iff.mp h
    rw [hnil]
    rfl
  | cons run runs ih =>
    rw [List.flatMap_cons] at h
    obtain ⟨length, image, rfl, hlength, h⟩ := List.map_eq_cons_iff.mp h
    obtain ⟨color, image, rfl, hcolor, h⟩ := List.map_eq_cons_iff.mp h
    have hrest : readDraws image = .ok runs := ih h
    rw [readDraws, hrest, hlength, hcolor]
    rfl

theorem decodeRLEImage_eq {image : Bytes} {paletteIndex top right bottom left : Nat}
    {runs : List (Nat × Nat)}
    (h : image.map UInt8.toNat = [paletteIndex, top, right, bottom, left] ++
      runs.flatMap fun run => [run.1, run.2]) :
    decodeRLEImage image = .ok ⟨paletteIndex, ⟨top, right, bottom, left⟩, runs⟩ := by
  obtain ⟨p, image, rfl, hp, h⟩ := List.map_eq_cons_iff.mp h
  obtain ⟨t, image, rfl, ht, h⟩ := List.map_eq_cons_iff.mp h
  obtain ⟨r, image, rfl, hr, h⟩ := List.map_eq_cons_iff.mp h
  obtain ⟨b, image, rfl, hb, h⟩ := List.map_eq_cons_iff.mp h
  obtain ⟨l, image, rfl, hl, h⟩ := List.map_eq_cons_iff.mp h
  have hdraws : readDraws image = .ok runs := readDraws_eq h
  subst hp ht hr hb hl
  show (do
    return DecodedImage.mk p.toNat ⟨t.toNat, r.toNat, b.toNat, l.toNat⟩ (← readDraws image)) = _
  rw [hdraws]
  rfl

variable {png : PngImage} {m : OrderedMap String Nat} {image : Bytes}

theorem PngImage.header_lt (hwidth : png.width ≤ 255) (hheight : png.height ≤ 256) :
    ∀ c ∈ [0, png.calcBounds.top, png.calcBounds.right, png.calcBounds.bottom,
      png.calcBounds.left], c < 256 := by
  have hright : png.calcBounds.right ≤ png.width := calcBounds_right_le
  have hbottom : png.calcBounds.bottom ≤ png.height - 1 := calcBounds_bottom_le
  have htop : png.calcBounds.top ≤ png.calcBounds.bottom := calcBounds_top_le
  have hleft : png.calcBounds.left ≤ png.calcBounds.right - 1 := calcBounds_left_le
  simp only [List.forall_mem_cons, List.not_mem_nil, false_implies, implies_true, and_true]
  omega

/-- The contract decodes the bytes of an encoded image to what was encoded. -/
theorem decodeRLEImage_toRLE (hwidth : png.width ≤ 255) (hheight : png.height ≤ 256)
    (hcolors : ∀ i ∈ png.indexes m, i < 256) (himage : hexImage image = (png.toRLE m).1) :
    decodeRLEImage image = .ok (png.decoded m) := by
  have hruns := encodeRuns_lt hcolors
  have hbytes : hexData (image.map UInt8.toNat) = hexData ([0, png.calcBounds.top,
      png.calcBounds.right, png.calcBounds.bottom, png.calcBounds.left] ++
        (encodeRuns (png.indexes m)).flatMap fun run => [run.1, run.2]) := by
    have hlist := congrArg String.toList himage
    have hdigits : (hexImage image).toList = '0' :: 'x' :: hexData (image.map UInt8.toNat) := by
      rw [hexImage, String.toList_append, ← toList_join_toPaddedHex, List.map_map]
      rfl
    rw [hdigits, PngImage.toList_toRLE] at hlist
    simpa using hlist
  apply decodeRLEImage_eq
  apply hexData_injective _ _ hbytes
  · intro c hc
    obtain ⟨b, -, rfl⟩ := List.mem_map.mp hc
    exact b.toNat_lt
  · intro c hc
    rcases List.mem_append.mp hc with hc | hc
    · exact PngImage.header_lt hwidth hheight c hc
    · obtain ⟨run, hrun, hc⟩ := List.mem_flatMap.mp hc
      obtain ⟨hlength, hcolor⟩ := hruns run hrun
      simp only [List.mem_cons, List.not_mem_nil, or_false] at hc
      rcases hc with rfl | rfl
      · exact hlength
      · exact hcolor

theorem mem_encodeFrom {previous count : Nat} {data : List Nat} :
    ∀ run ∈ encodeFrom previous count data, run.2 = previous ∨ run.2 ∈ data := by
  induction data generalizing previous count with
  | nil =>
    intro run hrun
    rw [List.mem_singleton.mp hrun]
    exact .inl rfl
  | cons i data ih =>
    intro run hrun
    rw [encodeFrom] at hrun
    split at hrun
    · rcases List.mem_cons.mp hrun with rfl | hrun
      · exact .inl rfl
      · exact .inr (List.mem_cons.mpr (ih run hrun))
    · rcases ih run hrun with hsame | hmem
      · exact .inl hsame
      · exact .inr (List.mem_cons_of_mem i hmem)

/-- The colours of the runs are those of the pixels. -/
theorem mem_encodeRuns {data : List Nat} : ∀ run ∈ encodeRuns data, run.2 ∈ data := by
  intro run hrun
  cases data with
  | nil => cases hrun
  | cons previous data => exact List.mem_cons.mpr (mem_encodeFrom run hrun)

/-! ## Rectangles -/

/-- A rectangle of at least one pixel in the first `height` lines of the window. -/
structure SvgRect.Inside (r : SvgRect) (w : Window) (height : Nat) : Prop where
  length_pos : 0 < r.length
  left : w.left ≤ r.x
  right : r.x + r.length ≤ w.right
  bottom : r.y < w.top + height

variable {w : Window} {bounds : ImageBounds} {color fuel drawLength k height : Nat}

/-- The pixel number `k` is in the first lines. -/
theorem line_lt (h : k < height * w.width) : w.line k < w.top + height := by
  unfold Window.line
  apply Nat.add_lt_add_left
  rw [Nat.div_lt_iff_lt_mul w.width_pos]
  exact h

theorem pushed_inside {palette : List String} {length : Nat} (hpos : 0 < length)
    (hlength : length ≤ w.width - k % w.width) (hk : k < height * w.width) :
    ∀ r ∈ pushed palette color length (w.column k) (w.line k), r.Inside w height := by
  intro r hr
  unfold pushed at hr
  split at hr
  · rw [List.mem_singleton.mp hr]
    have hcolumn : w.right - w.column k = w.width - k % w.width := Window.right_sub_column
    have hlt : w.column k < w.right := Window.column_lt
    refine ⟨hpos, Nat.le_add_right _ _, ?_, line_lt hk⟩
    show w.column k + length ≤ w.right
    omega
  · cases hr

/-- The next pixel after a segment. -/
theorem advance_at (hw : Bounded w bounds) {length : Nat}
    (hlength : length ≤ w.width - k % w.width) :
    advance bounds (w.column k) (w.line k) length = (w.column (k + length), w.line (k + length)) := by
  have hcolumn : w.right - w.column k = w.width - k % w.width := Window.right_sub_column
  have hlt : w.column k < w.right := Window.column_lt
  have hmod := Nat.mod_lt k w.width_pos
  unfold advance
  by_cases hend : k % w.width + length = w.width
  · obtain ⟨hc, hl⟩ := Window.next_line hend
    rw [hc, hl, hw.right, hw.left, if_pos (by omega)]
  · obtain ⟨hc, hl⟩ := Window.same_line (w := w) (k := k) (n := length) (by omega)
    rw [hc, hl, hw.right, if_neg (by omega)]

theorem drawRun_at (hw : Bounded w bounds) (palette : List String) (rects : List SvgRect)
    {length : Nat} (hpos : 0 < length) (hlength : length = min drawLength (w.width - k % w.width)) :
    drawRun bounds palette color (fuel + 1) drawLength (.at w k rects) =
      drawRun bounds palette color fuel (drawLength - length) (.at w (k + length)
        (rects ++ pushed palette color length (w.column k) (w.line k))) := by
  have hrest : bounds.right - (Drawing.at w k rects).currentX = w.width - k % w.width := by
    rw [hw.right]
    exact Window.right_sub_column
  rw [drawRun_step (by rw [hrest, hlength]) hpos]
  have hnext := advance_at hw (show length ≤ w.width - k % w.width by omega)
  unfold advance at hnext
  congr 1
  unfold Drawing.at
  split at hnext
  · rename_i hend
    rw [if_pos hend, if_pos hend]
    rw [← (Prod.mk.inj hnext).1, ← (Prod.mk.inj hnext).2]
  · rename_i hend
    rw [if_neg hend, if_neg hend]
    rw [← (Prod.mk.inj hnext).1, ← (Prod.mk.inj hnext).2]

theorem drawRun_inside (hw : Bounded w bounds) (palette : List String) (hfuel : drawLength ≤ fuel)
    (hend : k + drawLength ≤ height * w.width) {rects : List SvgRect}
    (hrects : ∀ r ∈ rects, r.Inside w height) :
    ∃ rects', drawRun bounds palette color fuel drawLength (.at w k rects) =
      .at w (k + drawLength) rects' ∧ ∀ r ∈ rects', r.Inside w height := by
  induction fuel generalizing drawLength k rects with
  | zero =>
    obtain rfl : drawLength = 0 := by omega
    exact ⟨rects, rfl, hrects⟩
  | succ fuel ih =>
    rcases Nat.eq_zero_or_pos drawLength with rfl | hpos
    · refine ⟨rects, ?_, hrects⟩
      rw [drawRun_stop (Nat.zero_min _)]
      rfl
    · have hmod := Nat.mod_lt k w.width_pos
      obtain ⟨length, hlength⟩ : ∃ n, n = min drawLength (w.width - k % w.width) := ⟨_, rfl⟩
      rw [drawRun_at hw palette rects (by omega) hlength]
      have hsum : k + drawLength = k + length + (drawLength - length) := by omega
      rw [hsum]
      apply ih (by omega) (by omega)
      intro r hr
      rcases List.mem_append.mp hr with hr | hr
      · exact hrects r hr
      · exact pushed_inside (by omega) (by omega) (by omega) r hr

theorem drawRuns_inside (hw : Bounded w bounds) (palette : List String)
    {runs : List (Nat × Nat)} (hend : k + (expand runs).length ≤ height * w.width)
    {rects : List SvgRect} (hrects : ∀ r ∈ rects, r.Inside w height) :
    ∀ r ∈ (runs.foldl (fun d draw => drawRun bounds palette draw.2 draw.1 draw.1 d)
      (.at w k rects)).svgRects, r.Inside w height := by
  induction runs generalizing k rects with
  | nil => exact hrects
  | cons run runs ih =>
    rw [expand_cons, List.length_append, List.length_replicate] at hend
    have hrun : ∃ rects', drawRun bounds palette run.2 run.1 run.1 (.at w k rects) =
        .at w (k + run.1) rects' ∧ ∀ r ∈ rects', r.Inside w height :=
      drawRun_inside hw palette (Nat.le_refl _) (by omega) hrects
    obtain ⟨rects', hdraw, hrects'⟩ := hrun
    rw [List.foldl_cons, hdraw]
    exact ih (by omega) hrects'

/-! ## The loops of the contract -/

theorem RectBuffer.lookup_ok {n : Nat} (h : n < 33) : ∃ s, getAt lookup n = .ok s := by
  have hlength : lookup.length = 33 := rfl
  refine ⟨lookup[n], ?_⟩
  rw [getAt_eq_ok]
  exact List.getElem?_eq_getElem (by omega)

/-- There is room for a rectangle whose numbers are in the table. -/
theorem RectBuffer.push_returns {b : RectBuffer} (hb : b.WellFormed) {length x y : Nat}
    (hlength : length < 33) (hx : x < 33) (hy : y < 33) (color : String) :
    ∃ b', b.push length x y color = .ok b' := by
  obtain ⟨width, hwidth⟩ := lookup_ok hlength
  obtain ⟨left, hleft⟩ := lookup_ok hx
  obtain ⟨top, htop⟩ := lookup_ok hy
  obtain ⟨hcursor, hroom, hsize⟩ := hb
  have hset : ∀ (buffer : List String) i s, buffer.length = 16 → i < 16 →
      setAt buffer i s = .ok (buffer.set i s) := by
    intro buffer i s hbuffer hi
    exact setAt_eq_ok.mpr ⟨by omega, rfl⟩
  unfold push
  simp only [hwidth, hleft, htop]
  change ∃ b', (setAt b.buffer b.cursor width >>= fun buffer => _) = .ok b'
  rw [hset _ _ _ hsize hroom]
  change ∃ b', (setAt (b.buffer.set b.cursor width) (b.cursor + 1) left >>= fun buffer => _) = .ok b'
  rw [hset _ _ _ (by simpa using hsize) (by omega)]
  change ∃ b', (setAt ((b.buffer.set b.cursor width).set (b.cursor + 1) left) (b.cursor + 2) top >>=
    fun buffer => _) = .ok b'
  rw [hset _ _ _ (by simpa using hsize) (by omega)]
  change ∃ b', (setAt (((b.buffer.set b.cursor width).set (b.cursor + 1) left).set (b.cursor + 2)
    top) (b.cursor + 3) color >>= fun buffer => _) = .ok b'
  rw [hset _ _ _ (by simpa using hsize) (by omega)]
  change ∃ b', (if b.cursor + 4 ≥ 16 then _ else _) = Except.ok b'
  split
  · rename_i hfull
    have hnext : b.cursor + 4 = 4 * 4 := by omega
    rw [hnext, getChunk_eq (by simp [hsize])]
    exact ⟨_, rfl⟩
  · exact ⟨_, rfl⟩

namespace SVGRenderer

variable {palette : Bytes} {paletteColors : List String}

/-- What a part needs to be drawn: a canvas of 32 lines and columns, and a colour in the palette. -/
theorem pushRect_returns {s : Loop} {d : Drawing} (hs : Agrees palette s d) {length : Nat}
    (hlength : length < 33) (hx : d.currentX < 33) (hy : d.currentY < 33) (hlt : color < 256)
    (hcolor : color = 0 ∨ colorAt palette color ≠ none) :
    ∃ s', pushRect palette color length s = .ok s' := by
  unfold pushRect
  by_cases hzero : color = 0
  · rw [if_neg (not_not.mpr hzero)]
    exact ⟨s, rfl⟩
  · rw [if_pos hzero]
    rcases getColor_cases hs.cached hlt with ⟨text, cache, -, hget, -⟩ | ⟨hnone, -⟩
    · obtain ⟨rects, hpush⟩ := RectBuffer.push_returns hs.wellFormed hlength
        (show s.currentX < 33 by rw [hs.currentX]; exact hx)
        (show s.currentY < 33 by rw [hs.currentY]; exact hy) text
      rw [hget]
      change ∃ s', (s.rects.push length s.currentX s.currentY text >>= fun rects => _) = .ok s'
      rw [hpush]
      exact ⟨_, rfl⟩
    · exact absurd hnone (hcolor.resolve_left hzero)

theorem getRectLength_at (hw : Bounded w bounds) (hright : w.right ≤ 32) :
    getRectLength (w.column k) drawLength bounds.right =
      .ok (min drawLength (w.width - k % w.width)) := by
  have hcolumn : w.right - w.column k = w.width - k % w.width := Window.right_sub_column
  have hlt : w.column k < w.right := Window.column_lt
  have hmod : w.column k % 2 ^ 8 = w.column k := Nat.mod_eq_of_lt (by omega)
  have hsub : checkedSub w.right (w.column k) = .ok (w.width - k % w.width) :=
    checkedSub_eq_ok.mpr ⟨hlt.le, hcolumn⟩
  rw [getRectLength, hmod, hw.right, hsub]
  show Except.ok (if drawLength ≤ w.width - k % w.width then drawLength
    else w.width - k % w.width) = _
  rfl

/-- After a segment the contract is where the SDK is. -/
theorem Agrees.advance (hw : Bounded w bounds) (hright : w.right ≤ 32) {s : Loop}
    {rects : List SvgRect} (hs : Agrees palette s (.at w k rects)) {length : Nat}
    (hlength : length ≤ w.width - k % w.width) :
    Agrees palette { s with
      currentX := (Nouns.advance bounds s.currentX s.currentY length).1
      currentY := (Nouns.advance bounds s.currentX s.currentY length).2 }
      (.at w (k + length) rects) := by
  have hx : s.currentX = w.column k := hs.currentX
  have hy : s.currentY = w.line k := hs.currentY
  have hlt : w.column (k + length) < w.right := Window.column_lt
  rw [hx, hy, advance_at hw hlength]
  refine ⟨rfl, rfl, ?_, hs.wellFormed, hs.text, hs.cached⟩
  show w.column (k + length) < 2 ^ 8
  omega

/-- The loop over a run returns while the pixels of the run are in the first lines of a window on the
canvas. -/
theorem drawRun_returns (hpalette : PaletteAgrees palette paletteColors) (hw : Bounded w bounds)
    (hright : w.right ≤ 32) (hbottom : w.top + height ≤ 32) (hlt : color < 256)
    (hcolor : color = 0 ∨ colorAt palette color ≠ none) (hfuel : drawLength ≤ fuel)
    (hend : k + drawLength ≤ height * w.width) {s : Loop} {rects : List SvgRect}
    (hs : Agrees palette s (.at w k rects)) :
    ∃ s' rects', drawRun bounds palette color (fuel + 1) drawLength s = .ok s' ∧
      Agrees palette s' (.at w (k + drawLength) rects') := by
  induction fuel generalizing drawLength k s rects with
  | zero =>
    obtain rfl : drawLength = 0 := by omega
    refine ⟨s, rects, ?_, hs⟩
    rw [drawRun, hs.currentX]
    show (getRectLength (w.column k) 0 bounds.right >>= fun length => _) = _
    rw [getRectLength_at hw hright, Nat.zero_min]
    rfl
  | succ fuel ih =>
    have hmod := Nat.mod_lt k w.width_pos
    obtain ⟨length, hlength⟩ : ∃ n, n = min drawLength (w.width - k % w.width) := ⟨_, rfl⟩
    rw [drawRun, hs.currentX]
    change ∃ s' rects', (getRectLength (w.column k) drawLength bounds.right >>= fun length => _) =
      .ok s' ∧ _
    rw [getRectLength_at hw hright, ← hlength]
    change ∃ s' rects', (if length > 0 then _ else _) = Except.ok s' ∧ _
    rcases Nat.eq_zero_or_pos drawLength with rfl | hpos
    · rw [if_neg (by omega)]
      exact ⟨s, rects, rfl, hs⟩
    · -- One segment, and the rest of the run.
      have hcolumn : w.right - w.column k = w.width - k % w.width := Window.right_sub_column
      have hx : w.column k < w.right := Window.column_lt
      have hy : w.line k < w.top + height := line_lt (by omega)
      have hpushed : ∃ s', pushRect palette color length s = .ok s' :=
        pushRect_returns hs (by omega) (show w.column k < 33 by omega)
          (show w.line k < 33 by omega) hlt hcolor
      obtain ⟨s₁, hpush⟩ := hpushed
      have hs₁ := pushRect_agrees hpalette hs hlt hpush
      have hnext := Agrees.advance hw hright hs₁ (show length ≤ w.width - k % w.width by omega)
      obtain ⟨s', rects', hrun, hs'⟩ := ih (show drawLength - length ≤ fuel by omega)
        (show k + length + (drawLength - length) ≤ height * w.width by omega) hnext
      rw [if_pos (by omega), hpush]
      refine ⟨s', rects', hrun, ?_⟩
      have hsum : k + drawLength = k + length + (drawLength - length) := by omega
      rw [hsum]
      exact hs'

theorem drawRuns_returns (hpalette : PaletteAgrees palette paletteColors) (hw : Bounded w bounds)
    (hright : w.right ≤ 32) (hbottom : w.top + height ≤ 32) {runs : List (Nat × Nat)}
    (hruns : ∀ run ∈ runs, run.2 < 256 ∧ (run.2 = 0 ∨ colorAt palette run.2 ≠ none))
    (hend : k + (expand runs).length ≤ height * w.width) {s : Loop} {rects : List SvgRect}
    (hs : Agrees palette s (.at w k rects)) :
    ∃ s' d, runs.foldlM
      (fun s draw => drawRun bounds palette draw.2 (draw.1 + 1) draw.1 s) s = .ok s' ∧
      Agrees palette s' d := by
  induction runs generalizing k s rects with
  | nil => exact ⟨s, _, rfl, hs⟩
  | cons run runs ih =>
    rw [List.forall_mem_cons] at hruns
    rw [expand_cons, List.length_append, List.length_replicate] at hend
    obtain ⟨s₁, rects₁, hrun, hs₁⟩ := drawRun_returns hpalette hw hright hbottom hruns.1.1
      hruns.1.2 (Nat.le_refl run.1) (show k + run.1 ≤ height * w.width by omega) hs
    obtain ⟨s', d, hrest, hs'⟩ := ih hruns.2
      (show k + run.1 + (expand runs).length ≤ height * w.width by omega) hs₁
    refine ⟨s', d, ?_, hs'⟩
    rw [List.foldlM_cons, hrun]
    exact hrest

/-- The colours of a palette, for the SDK. -/
def colorsOf (palette : Bytes) : List String :=
  (List.range palette.length).map fun i => (colorAt palette i).getD ""

theorem colorsOf_agrees (palette : Bytes) : PaletteAgrees palette (colorsOf palette) := by
  intro i hi b₀ b₁ b₂ h₀ h₁ h₂
  have hlt : i < palette.length := by
    have hlast := (List.getElem?_eq_some_iff.mp h₂).1
    omega
  have hcolor : colorAt palette i = some (rgbToHex b₀.toNat b₁.toNat b₂.toNat) := by
    rw [colorAt, h₀, h₁, h₂, ← toHexString_eq]
    rfl
  rw [colorsOf, List.getElem?_map, List.getElem?_range hlt, Option.map_some, hcolor]
  rfl

theorem colorAt_ne_none {i : Nat} (h : 3 * i + 2 < palette.length) : colorAt palette i ≠ none := by
  have hbyte : ∀ j < palette.length, palette[j]? ≠ none := by
    intro j hj hnone
    rw [List.getElem?_eq_none_iff] at hnone
    omega
  obtain ⟨b₀, h₀⟩ := Option.ne_none_iff_exists'.mp (hbyte (i * 3) (by omega))
  obtain ⟨b₁, h₁⟩ := Option.ne_none_iff_exists'.mp (hbyte (i * 3 + 1) (by omega))
  obtain ⟨b₂, h₂⟩ := Option.ne_none_iff_exists'.mp (hbyte (i * 3 + 2) (by omega))
  rw [colorAt, h₀, h₁, h₂]
  exact Option.some_ne_none _

/-- The part holds the encoding of an image of at most 32 by 32 pixels, and its palette every colour
of it. -/
structure Holds (part : Part) (png : PngImage) (m : OrderedMap String Nat) : Prop where
  width : 1 ≤ png.width ∧ png.width ≤ 32
  height : 1 ≤ png.height ∧ png.height ≤ 32
  image : hexImage part.image = (png.toRLE m).1
  colors : ∀ i ∈ png.indexes m, i < 256 ∧ (i ≠ 0 → 3 * i + 2 < part.palette.length)

theorem Holds.decode {part : Part} {png : PngImage} {m : OrderedMap String Nat}
    (h : Holds part png m) : decodeRLEImage part.image = .ok (png.decoded m) := by
  have hwidth := h.width.2
  have hheight := h.height.2
  exact decodeRLEImage_toRLE (by omega) (by omega) (fun i hi => (h.colors i hi).1) h.image

/-- The pixels of the encoder's loops. -/
theorem length_indexes (png : PngImage) (m : OrderedMap String Nat) :
    (png.indexes m).length = (png.calcBounds.bottom + 1 - png.calcBounds.top) *
      (png.calcBounds.right - png.calcBounds.left) := by
  have hfold : ∀ (pixels : List (Nat × Nat)) (state : OrderedMap String Nat × List Nat),
      (pixels.foldl png.pushIndex state).2.length = state.2.length + pixels.length := by
    intro pixels
    induction pixels with
    | nil => exact fun _ => rfl
    | cons pixel pixels ih =>
      intro state
      rw [List.foldl_cons, ih, List.length_cons]
      simp only [PngImage.pushIndex, List.length_append, List.length_singleton]
      omega
  rw [PngImage.indexes, hfold, List.length_nil, Nat.zero_add, ImageBounds.pixels]
  simp [List.length_flatMap]

/-- The window of an image that is not transparent, and its number of lines. -/
theorem exists_window (png : PngImage) (m : OrderedMap String Nat) (hheight : 1 ≤ png.height) :
    png.indexes m = [] ∨ ∃ w height, Bounded w png.calcBounds ∧ w.right ≤ png.width ∧
      w.top + height ≤ png.height ∧ (png.indexes m).length = height * w.width := by
  have hright : png.calcBounds.right ≤ png.width := PngImage.calcBounds_right_le
  have hbottom : png.calcBounds.bottom ≤ png.height - 1 := PngImage.calcBounds_bottom_le
  have htop : png.calcBounds.top ≤ png.calcBounds.bottom := PngImage.calcBounds_top_le
  have hleft : png.calcBounds.left ≤ png.calcBounds.right - 1 := PngImage.calcBounds_left_le
  have hlength := length_indexes png m
  rcases Nat.eq_zero_or_pos png.calcBounds.right with hzero | hpos
  · left
    apply List.eq_nil_of_length_eq_zero
    rw [hlength, hzero, Nat.zero_sub, Nat.mul_zero]
  · right
    let w : Window := ⟨png.calcBounds.left, png.calcBounds.right, png.calcBounds.top, by omega⟩
    refine ⟨w, png.calcBounds.bottom + 1 - png.calcBounds.top, ⟨rfl, rfl, rfl⟩, hright, ?_, hlength⟩
    show png.calcBounds.top + _ ≤ _
    omega

variable {part : Part}

theorem generatePart_returns (h : Holds part png m) : ∃ text, generatePart part = .ok text := by
  have hdecode := h.decode
  obtain ⟨⟨-, hwidth⟩, ⟨hheight, hheight'⟩, himage, hcolors⟩ := h
  have hleft : png.calcBounds.left < 256 := by
    have hbounds : ∀ c ∈ [0, png.calcBounds.top, png.calcBounds.right, png.calcBounds.bottom,
      png.calcBounds.left], c < 256 := PngImage.header_lt (by omega) (by omega)
    exact hbounds _ (by simp)
  have hstart : Agrees part.palette
      ⟨png.calcBounds.left, png.calcBounds.top, .empty, List.replicate 256 ""⟩
      ⟨png.calcBounds.left, png.calcBounds.top, []⟩ :=
    ⟨rfl, rfl, hleft, RectBuffer.empty_wellFormed, RectBuffer.empty_text, cached_empty _⟩
  have hdraws : ∃ s d, (encodeRuns (png.indexes m)).foldlM
      (fun s draw => drawRun png.calcBounds part.palette draw.2 (draw.1 + 1) draw.1 s)
      ⟨png.calcBounds.left, png.calcBounds.top, .empty, List.replicate 256 ""⟩ = .ok s ∧
      Agrees part.palette s d := by
    rcases exists_window png m hheight with hnone | ⟨w, height, hw, hright, hbottom, hlength⟩
    · rw [hnone]
      exact ⟨_, _, rfl, hstart⟩
    · have hcorner : (⟨png.calcBounds.left, png.calcBounds.top, []⟩ : Drawing) = .at w 0 [] := by
        rw [Drawing.at, Window.column, Window.line, Nat.zero_mod, Nat.zero_div, hw.left, hw.top]
        rfl
      rw [hcorner] at hstart
      have hcanvas : w.top + height ≤ 32 := by omega
      apply drawRuns_returns (colorsOf_agrees part.palette) hw (by omega) hcanvas _ _ hstart
      · intro run hrun
        obtain ⟨hlt, hentry⟩ := hcolors run.2 (mem_encodeRuns run hrun)
        refine ⟨hlt, ?_⟩
        by_cases hzero : run.2 = 0
        · exact .inl hzero
        · exact .inr (colorAt_ne_none (hentry hzero))
      · rw [expand_encodeRuns, Nat.zero_add, hlength]
  obtain ⟨s, d, hloop, hs⟩ := hdraws
  refine ⟨s.rects.text, ?_⟩
  rw [generatePart, hdecode]
  change ((encodeRuns (png.indexes m)).foldlM _ _ >>= fun s : Loop => s.rects.finish) = _
  have hfinish : s.rects.finish = .ok s.rects.text := RectBuffer.finish_eq hs.wellFormed
  rw [← hfinish]
  exact congrArg (fun x => x >>= fun s : Loop => s.rects.finish) hloop

/-- A rectangle of the canvas. -/
def InCanvas (r : SvgRect) : Prop := 0 < r.length ∧ r.x + r.length ≤ 32 ∧ r.y < 32

theorem drawImage_inCanvas (h : Holds part png m) (paletteColors : List String) :
    ∀ r ∈ drawImage (png.decoded m) paletteColors, InCanvas r := by
  obtain ⟨⟨-, hwidth⟩, ⟨hheight, hheight'⟩, -, -⟩ := h
  rcases exists_window png m hheight with hnone | ⟨w, height, hw, hright, hbottom, hlength⟩
  · intro r hr
    rw [drawImage, PngImage.decoded, hnone] at hr
    cases hr
  · have hcorner : (⟨png.calcBounds.left, png.calcBounds.top, []⟩ : Drawing) = .at w 0 [] := by
      rw [Drawing.at, Window.column, Window.line, Nat.zero_mod, Nat.zero_div, hw.left, hw.top]
      rfl
    have hinside : ∀ r ∈ drawImage (png.decoded m) paletteColors, r.Inside w height := by
      rw [drawImage, PngImage.decoded, hcorner]
      apply drawRuns_inside hw paletteColors
      · rw [expand_encodeRuns, Nat.zero_add, hlength]
      · exact fun r hr => absurd hr List.not_mem_nil
    intro r hr
    obtain ⟨hpos, -, hend, hline⟩ := hinside r hr
    exact ⟨hpos, by omega, by omega⟩

theorem generatePart_drawn (h : Holds part png m) {paletteColors : List String}
    (hpalette : PaletteAgrees part.palette paletteColors) : generatePart part =
      .ok (String.join ((drawImage (png.decoded m) paletteColors).map SvgRect.toSvg)) := by
  obtain ⟨text, htext⟩ := generatePart_returns h
  obtain ⟨image, himage, rfl⟩ := generatePart_agrees hpalette htext
  rw [decodeImage_hexImage h.decode] at himage
  rw [htext, Option.some.inj himage]

end SVGRenderer

/-! ## Whole pictures -/

/-- As many parts as the counter of the loop can count are rendered. -/
theorem generateParts_returns {α : Type} {generatePart : α → Tx String} {parts : List α}
    {texts : List String}
    (h : List.Forall₂ (fun part text => generatePart part = .ok text) parts texts)
    (hcount : parts.length ≤ 255) : generateParts generatePart parts = .ok (String.join texts) := by
  have hloop : ∀ (parts : List α) (texts : List String) (p : Nat) (before : String),
      List.Forall₂ (fun part text => generatePart part = .ok text) parts texts →
      p + parts.length ≤ 255 →
      (parts.zipIdx p).foldlM (fun rects p => do
        let rects := rects ++ (← generatePart p.1)
        let _ ← checked 8 (p.2 + 1)
        return rects) before = .ok (before ++ String.join texts) := by
    intro parts
    induction parts with
    | nil =>
      intro texts p before h _
      cases h
      simp
    | cons part parts ih =>
      intro texts p before h hcount
      cases h with
      | cons htext hrest =>
        rename_i text texts
        rw [List.length_cons] at hcount
        have hchecked : checked 8 (p + 1) = .ok (p + 1) := checked_eq_ok.mpr ⟨by omega, rfl⟩
        rw [List.zipIdx_cons, List.foldlM_cons, htext]
        change (checked 8 (p + 1) >>= fun _ => pure (before ++ text)) >>= _ = _
        rw [hchecked]
        change (parts.zipIdx (p + 1)).foldlM _ (before ++ text) = _
        rw [ih texts (p + 1) (before ++ text) hrest (by omega), String.append_assoc]
        simp
  have hall := hloop parts texts 0 "" h (by omega)
  rw [String.empty_append] at hall
  exact hall

namespace SVGRenderer

/-- The rectangles of a part as the contract writes them. -/
def textOf (rects : List SvgRect) : String := String.join (rects.map SvgRect.toSvg)

/-- The picture with these rectangles, one list for each part. -/
def svgOf (background : String) (drawn : List (List SvgRect)) : String :=
  let rects := String.join (drawn.map textOf)
  if background.utf8ByteSize ≠ 0 then
    SVG_START_TAG ++ "<rect width=\"100%\" height=\"100%\" fill=\"#" ++ background ++
      "\" />" ++ rects ++ SVG_END_TAG
  else SVG_START_TAG ++ rects ++ SVG_END_TAG

/-- The parts are drawn with these rectangles. -/
abbrev DrawnWith (parts : List Part) (drawn : List (List SvgRect)) : Prop :=
  List.Forall₂ (fun part rects => generatePart part = .ok (textOf rects)) parts drawn

theorem generateSVGRects_eq {params : SVGParams} {drawn : List (List SvgRect)}
    (h : DrawnWith params.parts drawn) (hcount : params.parts.length ≤ 255) :
    generateSVGRects params = .ok (String.join (drawn.map textOf)) := by
  apply generateParts_returns _ hcount
  rw [List.forall₂_map_right_iff]
  exact h

theorem generateSVG_eq {params : SVGParams} {drawn : List (List SvgRect)}
    (h : DrawnWith params.parts drawn) (hcount : params.parts.length ≤ 255) :
    generateSVG params = .ok (svgOf params.background drawn) := by
  rw [generateSVG, generateSVGRects_eq h hcount, svgOf]
  show (if params.background.utf8ByteSize ≠ 0 then _ else _) = _
  by_cases hsize : params.background.utf8ByteSize ≠ 0
  · rw [if_pos hsize, if_pos hsize]
    rfl
  · rw [if_neg hsize, if_neg hsize]
    rfl

theorem exists_forall₂ {α β : Type} {P : α → β → Prop} {l : List α}
    (h : ∀ a ∈ l, ∃ b, P a b) : ∃ l', List.Forall₂ P l l' := by
  induction l with
  | nil => exact ⟨[], .nil⟩
  | cons a l ih =>
    rw [List.forall_mem_cons] at h
    obtain ⟨⟨b, hb⟩, hrest⟩ := h
    obtain ⟨l', hl'⟩ := ih hrest
    exact ⟨b :: l', .cons hb hl'⟩

theorem forall_mem_right {α β : Type} {P : α → β → Prop} {Q : β → Prop} {l : List α} {l' : List β}
    (h : List.Forall₂ P l l') (hP : ∀ a b, P a b → Q b) : ∀ b ∈ l', Q b := by
  induction h with
  | nil => exact fun b hb => absurd hb List.not_mem_nil
  | cons hab _ ih =>
    rw [List.forall_mem_cons]
    exact ⟨hP _ _ hab, ih⟩

/-- On images of the encoder of at most 32 by 32 pixels none of the three functions reverts, and
every rectangle has a positive width and lies on the canvas. -/
theorem generateSVG_total {params : SVGParams} (hcount : params.parts.length ≤ 255)
    (hparts : ∀ part ∈ params.parts, ∃ png m, Holds part png m) :
    ∃ drawn : List (List SvgRect), drawn.length = params.parts.length ∧
      (∀ rects ∈ drawn, ∀ r ∈ rects, InCanvas r) ∧
      generateSVG params = .ok (svgOf params.background drawn) ∧
      generateSVGParts params.parts = .ok (String.join (drawn.map textOf)) ∧
      List.Forall₂ (fun part rects => generateSVGPart part = .ok (textOf rects))
        params.parts drawn := by
  have hexists : ∀ part ∈ params.parts, ∃ rects,
      generatePart part = .ok (textOf rects) ∧ ∀ r ∈ rects, InCanvas r := by
    intro part hpart
    obtain ⟨png, m, hholds⟩ := hparts part hpart
    exact ⟨_, generatePart_drawn hholds (colorsOf_agrees part.palette),
      drawImage_inCanvas hholds _⟩
  obtain ⟨drawn, hboth⟩ := exists_forall₂ hexists
  have hdrawn : DrawnWith params.parts drawn := hboth.imp fun _ _ h => h.1
  have hinside : ∀ rects ∈ drawn, ∀ r ∈ rects, InCanvas r := forall_mem_right hboth fun _ _ h => h.2
  refine ⟨drawn, hdrawn.length_eq.symm, hinside, generateSVG_eq hdrawn hcount, ?_, ?_⟩
  · have hall : DrawnWith (SVGParams.mk params.parts "").parts drawn := hdrawn
    exact generateSVGRects_eq hall hcount
  · apply List.Forall₂.imp _ hdrawn
    intro part rects htext
    have hone : DrawnWith (SVGParams.mk [part] "").parts [rects] := .cons htext .nil
    have hpart := generateSVGRects_eq hone (Nat.le_of_ble_eq_true rfl)
    have hjoin : String.join ([rects].map textOf) = textOf rects := by simp
    rw [hjoin] at hpart
    exact hpart

/-- A red and a blue pixel, on no background. -/
theorem generateSVG_total_of_sample :
    ∃ drawn : List (List SvgRect),
      generateSVG ⟨[⟨[0, 1, 4, 1, 2, 1, 1, 1, 2], [0, 0, 0, 255, 0, 0, 0, 0, 255]⟩], ""⟩ =
        .ok (svgOf "" drawn) ∧ drawn.length = 1 := by
  have hparts : ∀ part ∈ (SVGParams.mk
      [⟨[0, 1, 4, 1, 2, 1, 1, 1, 2], [0, 0, 0, 255, 0, 0, 0, 0, 255]⟩] "").parts,
      ∃ png m, Holds part png m := by
    intro part hpart
    rw [List.mem_singleton.mp hpart]
    refine ⟨PNGCollectionEncoder.sampleImage, [("", 0)], ⟨by decide, by decide⟩,
      ⟨by decide, by decide⟩, ?_, ?_⟩
    · decide +kernel
    · decide +kernel
  obtain ⟨drawn, hlength, -, hsvg, -⟩ := generateSVG_total (by decide) hparts
  exact ⟨drawn, hsvg, hlength⟩

end SVGRenderer

/-! ## Collections -/

namespace PNGCollectionEncoder

variable {e : PNGCollectionEncoder}

end PNGCollectionEncoder

namespace SVGRenderer

open PNGCollectionEncoder

end SVGRenderer

end Nouns
