import Nouns.Image.Decoding

/-!
# RoundTrip — encoded images are painted as they were

What `encodeImage` stores, decoded and painted with the palette at the end, gives every pixel its
colour.
-/

open Raster

namespace Nouns

/-! ## Bounds -/

namespace PngImage

variable {png : PngImage}

theorem notTransparentRow {x y : Nat} (hx : x < png.width) (ha : (png.rgbaAt x y).a ≠ 0) :
    ¬ png.isTransparentRow y = true := by
  intro hall
  exact ha (of_decide_eq_true (List.all_eq_true.mp hall x (List.mem_range.mpr hx)))

theorem notTransparentColumn {x y : Nat} (hy : y < png.height) (ha : (png.rgbaAt x y).a ≠ 0) :
    ¬ png.isTransparentColumn x = true := by
  intro hall
  exact ha (of_decide_eq_true (List.all_eq_true.mp hall y (List.mem_range.mpr hy)))

theorem trimBottom_le (bottom : Nat) : png.trimBottom bottom ≤ bottom := by
  induction bottom with
  | zero => exact Nat.le_refl 0
  | succ bottom ih =>
    rw [trimBottom]
    split
    · omega
    · exact Nat.le_refl _

theorem le_trimBottom {y bottom : Nat} (hy : y ≤ bottom) (hrow : ¬ png.isTransparentRow y = true) :
    y ≤ png.trimBottom bottom := by
  induction bottom with
  | zero => exact hy
  | succ bottom ih =>
    rw [trimBottom]
    split
    · rename_i htransparent
      have hne : y ≠ bottom + 1 := fun heq => hrow (heq ▸ htransparent)
      exact ih (by omega)
    · exact hy

theorem trimRight_le (right : Nat) : png.trimRight right ≤ right := by
  induction right with
  | zero => exact Nat.le_refl 0
  | succ right ih =>
    rw [trimRight]
    split
    · omega
    · exact Nat.le_refl _

theorem lt_trimRight {x right : Nat} (hx : x < right) (hcolumn : ¬ png.isTransparentColumn x = true) :
    x < png.trimRight right := by
  induction right with
  | zero => exact hx
  | succ right ih =>
    rw [trimRight]
    split
    · rename_i htransparent
      have hne : x ≠ right := fun heq => hcolumn (heq ▸ htransparent)
      exact ih (by omega)
    · exact hx

theorem skipTransparent_le {isTransparent : Nat → Bool} {limit fuel i : Nat} (hi : i ≤ limit) :
    skipTransparent isTransparent limit fuel i ≤ limit := by
  induction fuel generalizing i with
  | zero => exact hi
  | succ fuel ih =>
    rw [skipTransparent]
    split
    · rename_i hskip
      exact ih hskip.1
    · exact hi

theorem skipTransparent_le_of_not {isTransparent : Nat → Bool} {limit fuel i j : Nat} (hij : i ≤ j)
    (hj : ¬ isTransparent j = true) : skipTransparent isTransparent limit fuel i ≤ j := by
  induction fuel generalizing i with
  | zero => exact hij
  | succ fuel ih =>
    rw [skipTransparent]
    split
    · rename_i hskip
      have hne : i ≠ j := fun heq => hj (heq ▸ hskip.2)
      exact ih (by omega)
    · exact hij

/-- Every pixel that is not transparent is in the bounds. -/
theorem mem_calcBounds {x y : Nat} (hx : x < png.width) (hy : y < png.height)
    (ha : (png.rgbaAt x y).a ≠ 0) :
    png.calcBounds.left ≤ x ∧ x < png.calcBounds.right ∧ png.calcBounds.top ≤ y ∧
      y ≤ png.calcBounds.bottom := by
  have hrow := notTransparentRow hx ha
  have hcolumn := notTransparentColumn hy ha
  exact ⟨skipTransparent_le_of_not (Nat.zero_le x) hcolumn, lt_trimRight hx hcolumn,
    skipTransparent_le_of_not (Nat.zero_le y) hrow, le_trimBottom (by omega) hrow⟩

theorem calcBounds_right_le : png.calcBounds.right ≤ png.width := trimRight_le _

theorem calcBounds_bottom_le : png.calcBounds.bottom ≤ png.height - 1 := trimBottom_le _

theorem calcBounds_top_le : png.calcBounds.top ≤ png.calcBounds.bottom :=
  skipTransparent_le (Nat.zero_le _)

theorem calcBounds_left_le : png.calcBounds.left ≤ png.calcBounds.right - 1 :=
  skipTransparent_le (Nat.zero_le _)

end PngImage

/-! ## Runs -/

theorem expand_encodeFrom (previous count : Nat) (data : List Nat) :
    expand (encodeFrom previous count data) = List.replicate count previous ++ data := by
  induction data generalizing previous count with
  | nil => simp [encodeFrom]
  | cons i data ih =>
    rw [encodeFrom]
    split
    · rw [expand_cons, ih]
      rfl
    · rename_i hsame
      obtain ⟨hsame, -⟩ := not_or.mp hsame
      rw [ih, not_not.mp hsame, List.replicate_succ', List.append_assoc]
      rfl

theorem expand_encodeRuns (data : List Nat) : expand (encodeRuns data) = data := by
  cases data with
  | nil => rfl
  | cons previous data => exact expand_encodeFrom previous 1 data

theorem encodeFrom_lt {previous count : Nat} {data : List Nat} (hcount : count ≤ 255)
    (hprevious : previous < 256) (hdata : ∀ i ∈ data, i < 256) :
    ∀ run ∈ encodeFrom previous count data, run.1 < 256 ∧ run.2 < 256 := by
  induction data generalizing previous count with
  | nil =>
    intro run hrun
    rw [List.mem_singleton.mp hrun]
    exact ⟨by omega, hprevious⟩
  | cons i data ih =>
    rw [List.forall_mem_cons] at hdata
    rw [encodeFrom]
    split
    · rw [List.forall_mem_cons]
      exact ⟨⟨by omega, hprevious⟩, ih (by decide) hdata.1 hdata.2⟩
    · rename_i hsame
      exact ih (by omega) hprevious hdata.2

theorem encodeRuns_lt {data : List Nat} (hdata : ∀ i ∈ data, i < 256) :
    ∀ run ∈ encodeRuns data, run.1 < 256 ∧ run.2 < 256 := by
  cases data with
  | nil => exact fun run hrun => nomatch hrun
  | cons previous data =>
    rw [List.forall_mem_cons] at hdata
    exact encodeFrom_lt (by decide) hdata.1 hdata.2

theorem toList_encode (data : List Nat) :
    (encode data).toList = hexData ((encodeRuns data).flatMap fun run => [run.1, run.2]) := by
  rw [encode, String.toList_join, List.flatMap_map, hexData, List.flatMap_assoc]
  refine List.flatMap_congr (fun run _ => ?_)
  rw [String.toList_append, toList_toPaddedHex, toList_toPaddedHex]
  simp

/-! ## Colours -/

theorem rgbToHex_ne_empty (r g b : Nat) : rgbToHex r g b ≠ "" := by
  intro h
  have hlength : (rgbToHex r g b).toList.length = 0 := by rw [h]; rfl
  rw [rgbToHex, String.toList_append, String.toList_append, toList_toPaddedHex, hexDigits,
    List.length_append, List.length_append, List.length_leftpad] at hlength
  omega

/-- Every colour has its place in the palette, and the first one is the transparent one. -/
structure Indexed (m : OrderedMap String Nat) : Prop where
  values : List.map Prod.snd m = List.range m.length
  nodup : m.keys.Nodup
  first : m.keys[0]? = some ""

namespace Indexed

variable {m : OrderedMap String Nat} {color : String}

theorem start : Indexed [("", 0)] := ⟨rfl, List.nodup_singleton _, rfl⟩

theorem insert (hm : Indexed m) (hnew : color ∉ m.keys) : Indexed (m.set color m.length) := by
  rw [OrderedMap.set_of_notMem hnew]
  have hkeys : OrderedMap.keys (m ++ [(color, m.length)]) = m.keys ++ [color] := List.map_append
  refine ⟨?_, ?_, ?_⟩
  · rw [List.map_append, hm.values, List.length_append, List.length_singleton, List.range_succ]
    rfl
  · rw [hkeys]
    exact List.nodup_append.mpr ⟨hm.nodup, List.nodup_singleton _, fun a ha b hb hab =>
      hnew (List.mem_singleton.mp hb ▸ hab ▸ ha)⟩
  · rw [hkeys, List.getElem?_append_left (List.getElem?_eq_some_iff.mp hm.first).1]
    exact hm.first

theorem exists_get? (hm : Indexed m) (hcolor : color ∈ m.keys) :
    ∃ i, m.get? color = some i ∧ m.keys[i]? = some color := by
  obtain ⟨i, hi⟩ := List.mem_iff_getElem?.mp hcolor
  refine ⟨i, ?_, hi⟩
  obtain ⟨e, he, rfl⟩ := Option.map_eq_some_iff.mp (List.getElem?_map.symm.trans hi)
  have hvalue : (List.map Prod.snd m)[i]? = some e.2 := by
    rw [List.getElem?_map, he]
    rfl
  rw [hm.values, List.getElem?_range (List.getElem?_eq_some_iff.mp he).1] at hvalue
  rw [Option.some.inj hvalue]
  exact OrderedMap.get?_of_mem hm.nodup (List.mem_of_getElem? he)

theorem insertAll (hm : Indexed m) {colors : List String} (hnodup : colors.Nodup)
    (hnew : ∀ color ∈ colors, color ∉ m.keys) :
    Indexed ((colors.zipIdx m.length).foldl (fun m c => m.set c.1 c.2) m) := by
  induction colors generalizing m with
  | nil => exact hm
  | cons color colors ih =>
    rw [List.forall_mem_cons] at hnew
    rw [List.nodup_cons] at hnodup
    have hm' := hm.insert hnew.1
    have hset := OrderedMap.set_of_notMem hnew.1 m.length
    have hlength : (m.set color m.length).length = m.length + 1 := by
      rw [hset, List.length_append, List.length_singleton]
    rw [List.zipIdx_cons, List.foldl_cons, ← hlength]
    refine ih hm' hnodup.2 (fun c hc hmem => ?_)
    rw [hset, OrderedMap.keys, List.map_append, List.mem_append] at hmem
    rcases hmem with hold | hlast
    · exact hnew.2 c hc hold
    · obtain rfl : c = color := List.mem_singleton.mp hlast
      exact hnodup.1 hc

/-- The palette of an earlier collection is taken over as it is. -/
theorem of_palette {palette : List String} (hfirst : palette[0]? = some "")
    (hnodup : palette.Nodup) :
    Indexed (palette.zipIdx.foldl (fun m c => m.set c.1 c.2) [("", 0)]) := by
  cases palette with
  | nil => cases hfirst
  | cons color colors =>
    obtain rfl : color = "" := Option.some.inj hfirst
    rw [List.nodup_cons] at hnodup
    refine start.insertAll hnodup.2 (fun c hc hmem => ?_)
    obtain rfl : c = "" := List.mem_singleton.mp hmem
    exact hnodup.1 hc

end Indexed

namespace PngImage

variable (png : PngImage)

def colorOf (pixel : Nat × Nat) : String := (png.rgbaAt pixel.1 pixel.2).hexColor

/-- The index of a pixel with these colours. -/
def indexIn (m : OrderedMap String Nat) (pixel : Nat × Nat) : Nat :=
  if (png.rgbaAt pixel.1 pixel.2).a = 0 then 0 else (m.get? (png.colorOf pixel)).getD 0

variable {m m' : OrderedMap String Nat}

variable {png} {pixel : Nat × Nat} in
/-- Colours that are inserted later do not change the index. -/
theorem indexIn_extend (hm : Indexed m) (hcolor : png.colorOf pixel ∈ m.keys) (h : m <+: m') :
    png.indexIn m' pixel = png.indexIn m pixel := by
  obtain ⟨i, hi, -⟩ := hm.exists_get? hcolor
  have hi' : m'.get? (png.colorOf pixel) = some i := h.lookup_eq_some hi
  rw [indexIn, indexIn, hi, hi']

theorem pushIndex_indexed (hm : Indexed m) (indexes : List Nat) (pixel : Nat × Nat) :
    Indexed (png.pushIndex (m, indexes) pixel).1 ∧ m <+: (png.pushIndex (m, indexes) pixel).1 ∧
      png.colorOf pixel ∈ (png.pushIndex (m, indexes) pixel).1.keys := by
  by_cases hcolor : png.colorOf pixel ∈ m.keys
  · have hcolors : (png.pushIndex (m, indexes) pixel).1 = m := if_pos hcolor
    rw [hcolors]
    exact ⟨hm, List.prefix_refl m, hcolor⟩
  · have hcolors : (png.pushIndex (m, indexes) pixel).1 = m.set (png.colorOf pixel) m.length :=
      if_neg hcolor
    rw [hcolors]
    refine ⟨hm.insert hcolor, ?_, ?_⟩
    · rw [OrderedMap.set_of_notMem hcolor]
      exact List.prefix_append _ _
    · rw [OrderedMap.set_of_notMem hcolor, OrderedMap.keys, List.map_append]
      exact List.mem_append_right _ (List.mem_singleton.mpr rfl)

/-- After the loops all colours are there, and the pixels have the indices of them. -/
theorem pushIndexes_indexed (hm : Indexed m) (indexes : List Nat) (pixels : List (Nat × Nat)) :
    let state := pixels.foldl png.pushIndex (m, indexes)
    Indexed state.1 ∧ m <+: state.1 ∧ (∀ p ∈ pixels, png.colorOf p ∈ state.1.keys) ∧
      state.2 = indexes ++ pixels.map (png.indexIn state.1) := by
  induction pixels generalizing m indexes with
  | nil =>
    refine ⟨hm, List.prefix_refl m, ?_, (List.append_nil _).symm⟩
    exact fun p hp => absurd hp List.not_mem_nil
  | cons pixel pixels ih =>
    obtain ⟨hm₁, hle₁, hcolor⟩ := png.pushIndex_indexed hm indexes pixel
    obtain ⟨hm₂, hle₂, hcolors, hindexes⟩ := ih hm₁ (png.pushIndex (m, indexes) pixel).2
    have hkept := indexIn_extend hm₁ hcolor hle₂
    refine ⟨hm₂, hle₁.trans hle₂, ?_, ?_⟩
    · rw [List.forall_mem_cons]
      exact ⟨(hle₂.map Prod.fst).subset hcolor, hcolors⟩
    · rw [List.foldl_cons, hindexes, List.map_cons, hkept]
      exact List.append_assoc _ _ _

/-! ## One image -/

/-- The colour indices of the image, as `toRLE` collects them. -/
def indexes (m : OrderedMap String Nat) : List Nat :=
  (png.calcBounds.pixels.foldl png.pushIndex (m, [])).2

/-- The image that `decodeImage` returns. -/
def decoded (m : OrderedMap String Nat) : DecodedImage where
  paletteIndex := 0
  bounds := png.calcBounds
  rects := encodeRuns (png.indexes m)

theorem toList_toRLE (m : OrderedMap String Nat) :
    (png.toRLE m).1.toList = '0' :: 'x' :: hexData ([0, png.calcBounds.top, png.calcBounds.right,
      png.calcBounds.bottom, png.calcBounds.left] ++
        (encodeRuns (png.indexes m)).flatMap fun run => [run.1, run.2]) := by
  have hrle : (png.toRLE m).1 = "0x" ++ String.join (List.map toPaddedHex [0, png.calcBounds.top,
      png.calcBounds.right, png.calcBounds.bottom, png.calcBounds.left]) ++
      encode (png.indexes m) := rfl
  rw [hrle, String.toList_append, String.toList_append, toList_join_toPaddedHex, toList_encode,
    hexData, hexData, hexData, List.flatMap_append]
  rfl

variable {png} {m final : OrderedMap String Nat}

theorem indexes_eq (hm : Indexed m) (hle : (png.toRLE m).2 <+: final) :
    png.indexes m = png.calcBounds.pixels.map (png.indexIn final) ∧
      ∀ p ∈ png.calcBounds.pixels, png.colorOf p ∈ final.keys := by
  obtain ⟨hm', -, hcolors, hindexes⟩ := png.pushIndexes_indexed hm [] png.calcBounds.pixels
  refine ⟨?_, fun p hp => (hle.map Prod.fst).subset (hcolors p hp)⟩
  rw [indexes, hindexes, List.nil_append]
  refine List.map_congr_left (fun p hp => ?_)
  exact (indexIn_extend hm' (hcolors p hp) hle).symm

theorem indexIn_lt (hfinal : Indexed final) (hsize : final.length ≤ 256) {p : Nat × Nat}
    (hcolor : png.colorOf p ∈ final.keys) : png.indexIn final p < 256 := by
  obtain ⟨i, hi, hkey⟩ := hfinal.exists_get? hcolor
  have hlt : i < final.keys.length := (List.getElem?_eq_some_iff.mp hkey).1
  rw [OrderedMap.keys, List.length_map] at hlt
  rw [indexIn, hi, Option.getD_some]
  split <;> omega

theorem decodeImage_toRLE (hm : Indexed m) (hwidth : png.width ≤ 255) (hheight : png.height ≤ 256)
    (hfinal : Indexed final) (hle : (png.toRLE m).2 <+: final) (hsize : final.length ≤ 256) :
    decodeImage (png.toRLE m).1 = some (png.decoded m) := by
  obtain ⟨hindexes, hcolors⟩ := indexes_eq hm hle
  have hright : png.calcBounds.right ≤ png.width := calcBounds_right_le
  have hbottom : png.calcBounds.bottom ≤ png.height - 1 := calcBounds_bottom_le
  have htop : png.calcBounds.top ≤ png.calcBounds.bottom := calcBounds_top_le
  have hleft : png.calcBounds.left ≤ png.calcBounds.right - 1 := calcBounds_left_le
  have hheader : ∀ c ∈ [0, png.calcBounds.top, png.calcBounds.right, png.calcBounds.bottom,
      png.calcBounds.left], c < 256 := by
    simp only [List.forall_mem_cons, List.not_mem_nil, false_implies, implies_true, and_true]
    omega
  have hlt : ∀ i ∈ png.indexes m, i < 256 := by
    rw [hindexes, List.forall_mem_map]
    exact fun p hp => indexIn_lt hfinal hsize (hcolors p hp)
  exact decodeImage_hexData (png.toList_toRLE m) hheader (encodeRuns_lt hlt)

/-- The colours of a pixel whose index is looked up in the palette. -/
theorem fillOf_indexIn (hfinal : Indexed final) {p : Nat × Nat}
    (hcolor : png.colorOf p ∈ final.keys) :
    fillOf final.keys (some (png.indexIn final p)) =
      if (png.rgbaAt p.1 p.2).a ≠ 0 then [png.colorOf p] else [] := by
  by_cases ha : (png.rgbaAt p.1 p.2).a = 0
  · rw [indexIn, if_pos ha, if_neg (not_not.mpr ha)]
    rfl
  · obtain ⟨i, hi, hkey⟩ := hfinal.exists_get? hcolor
    -- Index 0 belongs to the transparent entry.
    have hne : i ≠ 0 := by
      rintro rfl
      rw [hfinal.first] at hkey
      exact rgbToHex_ne_empty _ _ _ (Option.some.inj hkey).symm
    rw [indexIn, if_neg ha, hi, Option.getD_some, if_pos ha, fillOf, if_pos hne, hexColorAt, hkey,
      Option.getD_some]

/-- The colours a pixel is to be painted with. -/
def colorsAt (png : PngImage) (x y : Nat) : List String :=
  if x < png.width ∧ y < png.height ∧ (png.rgbaAt x y).a ≠ 0 then [png.colorOf (x, y)] else []

theorem colorsAt_of_notMem {x y : Nat}
    (h : ¬ (png.calcBounds.left ≤ x ∧ x < png.calcBounds.right ∧ png.calcBounds.top ≤ y ∧
      y ≤ png.calcBounds.bottom)) : png.colorsAt x y = [] :=
  if_neg (fun hin => h (mem_calcBounds hin.1 hin.2.1 hin.2.2))

theorem paintedAt_decoded (hm : Indexed m) (hheight : 1 ≤ png.height) (hfinal : Indexed final)
    (hle : (png.toRLE m).2 <+: final) (x y : Nat) :
    paintedAt (drawImage (png.decoded m) final.keys) x y = png.colorsAt x y := by
  obtain ⟨hindexes, hcolors⟩ := indexes_eq hm hle
  have hright : png.calcBounds.right ≤ png.width := calcBounds_right_le
  have hbottom : png.calcBounds.bottom ≤ png.height - 1 := calcBounds_bottom_le
  have htop : png.calcBounds.top ≤ png.calcBounds.bottom := calcBounds_top_le
  have hleft : png.calcBounds.left ≤ png.calcBounds.right - 1 := calcBounds_left_le
  rcases Nat.eq_zero_or_pos png.calcBounds.right with hzero | hpos
  · -- A transparent image has no columns in its bounds.
    have hnone : png.indexes m = [] := by
      rw [hindexes, ImageBounds.pixels, hzero]
      simp
    rw [colorsAt_of_notMem (by omega), drawImage, decoded, hnone]
    rfl
  · let w : Window := ⟨png.calcBounds.left, png.calcBounds.right, png.calcBounds.top, by omega⟩
    have hpaints : Paints w final.keys 0 (png.indexes m) (drawImage (png.decoded m) final.keys) := by
      have hdraw : Paints w final.keys 0 (expand (png.decoded m).rects)
          (drawImage (png.decoded m) final.keys) := drawImage_paints ⟨rfl, rfl, rfl⟩ final.keys
      rwa [decoded, expand_encodeRuns] at hdraw
    have hpixels : png.calcBounds.pixels = w.pixels (png.calcBounds.bottom + 1 - w.top) := rfl
    have hwtop : w.top = png.calcBounds.top := rfl
    rw [hpaints x y, hindexes, Nat.sub_zero, List.getElem?_map, hpixels]
    by_cases hin : w.Contains x y
    · rw [if_pos ⟨hin, Nat.zero_le _⟩]
      by_cases hy : y ≤ png.calcBounds.bottom
      · have hget : (w.pixels (png.calcBounds.bottom + 1 - w.top))[w.number x y]? = some (x, y) :=
          Window.getElem?_pixels hin (by omega)
        have hcolor := hcolors (x, y) (List.mem_of_getElem? hget)
        rw [hget, Option.map_some, fillOf_indexIn hfinal hcolor, colorsAt]
        have hinside : x < png.width ∧ y < png.height :=
          ⟨Nat.lt_of_lt_of_le hin.2.1 hright, by omega⟩
        simp only [hinside, true_and]
      · rw [Window.getElem?_pixels_of_le (by omega), colorsAt_of_notMem (fun h => hy h.2.2.2)]
        rfl
    · rw [if_neg (fun h => hin h.1), colorsAt_of_notMem (fun h => hin ⟨h.1, h.2.1, h.2.2.1⟩)]

end PngImage

/-! ## Collections -/

namespace PNGCollectionEncoder

variable {e : PNGCollectionEncoder}

theorem new_indexed {palette : Option (List String)}
    (h : ∀ p ∈ palette, p[0]? = some "" ∧ p.Nodup) : Indexed (new palette).colors := by
  cases palette with
  | none => exact .start
  | some p => exact .of_palette (h p rfl).1 (h p rfl).2

theorem encodeImages_indexed (he : Indexed e.colors) (calls : List (String × PngImage)) :
    Indexed (e.encodeImages calls).1.colors ∧ e.colors <+: (e.encodeImages calls).1.colors := by
  induction calls generalizing e with
  | nil => exact ⟨he, List.prefix_refl _⟩
  | cons call calls ih =>
    obtain ⟨hindexed, hle, -⟩ :=
      call.2.pushIndexes_indexed he [] call.2.calcBounds.pixels
    have hnext : Indexed (e.encodeImage call.1 call.2).1.colors := hindexed
    obtain ⟨hlast, hle'⟩ := ih hnext
    exact ⟨hlast, hle.trans hle'⟩

/-- An image stays stored until another one gets its name. -/
theorem get?_images {name : String} {calls : List (String × PngImage)}
    (h : ∀ c ∈ calls, c.1 ≠ name) :
    (e.encodeImages calls).1.images.get? name = e.images.get? name := by
  induction calls generalizing e with
  | nil => rfl
  | cons call calls ih =>
    rw [List.forall_mem_cons] at h
    have hnext : (e.encodeImage call.1 call.2).1.images.get? name = e.images.get? name := by
      have hset := OrderedMap.get?_set (m := e.images) call.1 name (call.2.toRLE e.colors).1
      rwa [if_neg (Ne.symm h.1)] at hset
    rw [← hnext]
    exact ih h.2

theorem encodeImages_painted (he : Indexed e.colors) {calls : List (String × PngImage)}
    (hsize : ∀ c ∈ calls, (1 ≤ c.2.width ∧ c.2.width ≤ 255) ∧ 1 ≤ c.2.height ∧ c.2.height ≤ 256)
    (hcolors : (e.encodeImages calls).1.palette.length ≤ 256) {k : Nat} {name : String}
    {png : PngImage} (hk : calls[k]? = some (name, png)) :
    ∃ rle image, (e.encodeImages calls).2[k]? = some rle ∧
      ((∀ c ∈ calls.drop (k + 1), c.1 ≠ name) →
        (e.encodeImages calls).1.images.get? name = some rle) ∧
      decodeImage rle = some image ∧
      ∀ x y, paintedAt (drawImage image (e.encodeImages calls).1.palette) x y =
        png.colorsAt x y := by
  induction calls generalizing e k with
  | nil => cases hk
  | cons call calls ih =>
    rw [List.forall_mem_cons] at hsize
    obtain ⟨⟨hwidth, hheight⟩, hrest⟩ := hsize
    have hindexed := (call.2.pushIndexes_indexed he [] call.2.calcBounds.pixels).1
    have hnext : Indexed (e.encodeImage call.1 call.2).1.colors := hindexed
    cases k with
    | zero =>
      obtain rfl : call = (name, png) := Option.some.inj hk
      obtain ⟨hfinal, hle⟩ := encodeImages_indexed hnext calls
      have hlength : (e.encodeImages ((name, png) :: calls)).1.colors.length ≤ 256 := by
        rwa [palette, OrderedMap.keys, List.length_map] at hcolors
      refine ⟨(png.toRLE e.colors).1, png.decoded e.colors, rfl, fun hnames => ?_, ?_, ?_⟩
      · have hstored := get?_images (e := (e.encodeImage name png).1) hnames
        refine hstored.trans ?_
        exact (OrderedMap.get?_set name name _).trans (if_pos rfl)
      · exact PngImage.decodeImage_toRLE he hwidth.2 hheight.2 hfinal hle hlength
      · exact PngImage.paintedAt_decoded he hheight.1 hfinal hle
    | succ k => exact ih hnext hrest hcolors hk

/-- Every image of a collection, decoded and painted with the palette of the whole collection, has
its opaque pixels painted once with their colours, and no others. -/
theorem images_painted (palette : Option (List String))
    (hpalette : ∀ p ∈ palette, p[0]? = some "" ∧ p.Nodup) (calls : List (String × PngImage))
    (hsize : ∀ c ∈ calls, (1 ≤ c.2.width ∧ c.2.width ≤ 255) ∧ 1 ≤ c.2.height ∧ c.2.height ≤ 256)
    (hcolors : ((new palette).encodeImages calls).1.palette.length ≤ 256) (k : Nat) (name : String)
    (png : PngImage) (hk : calls[k]? = some (name, png)) :
    ∃ rle image, ((new palette).encodeImages calls).2[k]? = some rle ∧
      ((∀ c ∈ calls.drop (k + 1), c.1 ≠ name) →
        ((new palette).encodeImages calls).1.images.get? name = some rle) ∧
      decodeImage rle = some image ∧
      ∀ x y, paintedAt (drawImage image ((new palette).encodeImages calls).1.palette) x y =
        if x < png.width ∧ y < png.height ∧ (png.rgbaAt x y).a ≠ 0
        then [(png.rgbaAt x y).hexColor] else [] :=
  encodeImages_painted (new_indexed hpalette) hsize hcolors hk

/-- A red and a blue pixel in the second line, at its end. -/
def sampleImage : PngImage where
  width := 4
  height := 3
  rgbaAt := fun x y =>
    if x = 2 ∧ y = 1 then ⟨255, 0, 0, 255⟩ else if x = 3 ∧ y = 1 then ⟨0, 0, 255, 9⟩
    else ⟨0, 0, 0, 0⟩

/-- The second image is transparent. -/
def sampleCalls : List (String × PngImage) :=
  [("a", sampleImage), ("b", ⟨1, 1, fun _ _ => ⟨0, 0, 0, 0⟩⟩)]

/-- The collection starts with a palette that has red in it, and the blue pixel is painted. -/
theorem blue_pixel_painted :
    let final := ((new (some ["", "ff0000"])).encodeImages sampleCalls).1
    ∃ rle image, final.images.get? "a" = some rle ∧ decodeImage rle = some image ∧
      paintedAt (drawImage image final.palette) 3 1 = ["0000ff"] := by
  have hpalette : ∀ p ∈ some ["", "ff0000"], p[0]? = some "" ∧ p.Nodup := by
    simp
  have hsize : ∀ c ∈ sampleCalls,
      (1 ≤ c.2.width ∧ c.2.width ≤ 255) ∧ 1 ≤ c.2.height ∧ c.2.height ≤ 256 := by
    simp [sampleCalls, sampleImage]
  obtain ⟨rle, image, -, hstored, hdecode, hpainted⟩ := images_painted (some ["", "ff0000"])
    hpalette sampleCalls hsize (by decide +kernel) 0 "a" sampleImage rfl
  refine ⟨rle, image, hstored (by simp [sampleCalls]), hdecode, ?_⟩
  rw [hpainted]
  decide +kernel

end PNGCollectionEncoder

end Nouns
