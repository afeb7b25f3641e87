import Nouns.Image.Rendering

/-!
# SdkAgreement — the SDK renders what the contract renders

The loops of `buildSVG` simulate those of `SVGRenderer`, which does the same with bytes or reverts.
-/

open Fallible

namespace Nouns

/-! ## Decoding -/

/-- Image data as the SDK takes it. -/
def hexImage (image : Bytes) : String :=
  "0x" ++ String.join (image.map fun b => toPaddedHex b.toNat)

theorem decodeImage_hexImage {image : Bytes} {decoded : DecodedImage}
    (h : decodeRLEImage image = .ok decoded) : decodeImage (hexImage image) = some decoded := by
  obtain ⟨hbytes, hheader, hruns⟩ := decodeRLEImage_ok h
  refine decodeImage_hexData ?_ hheader hruns
  rw [hexImage, String.toList_append, ← hbytes, ← toList_join_toPaddedHex, List.map_map]
  rfl

theorem buildSVG_eq {parts : List String} {images : List DecodedImage}
    (himages : parts.mapM decodeImage = some images) (paletteColors : List String)
    (background : String) :
    buildSVG parts paletteColors (some background) = some
      ("<svg width=\"320\" height=\"320\" viewBox=\"0 0 320 320\" " ++
        "xmlns=\"http://www.w3.org/2000/svg\" shape-rendering=\"crispEdges\">" ++
        "<rect width=\"100%\" height=\"100%\" fill=\"" ++
        (if background = "" then "none" else "#" ++ background) ++ "\" />" ++
        String.join (images.map fun image =>
          String.join ((drawImage image paletteColors).map SvgRect.toSvg)) ++ "</svg>") := by
  have hfold : ∀ (images : List DecodedImage) (start : String),
      images.foldl (fun result image =>
        result ++ String.join ((drawImage image paletteColors).map SvgRect.toSvg)) start =
      start ++ String.join (images.map fun image =>
        String.join ((drawImage image paletteColors).map SvgRect.toSvg)) := by
    intro images
    induction images with
    | nil =>
      intro start
      simp
    | cons image images ih =>
      intro start
      rw [List.foldl_cons, ih, String.append_assoc]
      simp
  rw [buildSVG, himages]
  exact congrArg (fun s => some (s ++ "</svg>")) (hfold images _)

/-! ## The loops -/

namespace SVGRenderer

variable {bounds : ImageBounds} {palette : Bytes} {paletteColors : List String}

/-- The colours of the SDK from index 1 on are those of the contract, in lower-case hex. -/
def PaletteAgrees (palette : Bytes) (paletteColors : List String) : Prop :=
  ∀ i ≥ 1, ∀ b₀ b₁ b₂, palette[i * 3]? = some b₀ → palette[i * 3 + 1]? = some b₁ →
    palette[i * 3 + 2]? = some b₂ →
    paletteColors[i]? = some (rgbToHex b₀.toNat b₁.toNat b₂.toNat)

theorem hexColorAt_eq (hpalette : PaletteAgrees palette paletteColors) {i : Nat} (hi : i ≠ 0)
    {color : String} (h : colorAt palette i = some color) : hexColorAt paletteColors i = color := by
  simp only [colorAt, Option.bind_eq_bind, Option.bind_eq_some_iff, Option.pure_def,
    Option.some.injEq] at h
  obtain ⟨b₀, h₀, b₁, h₁, b₂, h₂, rfl⟩ := h
  rw [hexColorAt, hpalette i (by omega) b₀ b₁ b₂ h₀ h₁ h₂, toHexString_eq]
  rfl

/-- The contract is where the SDK is, and has written the same rectangles. -/
structure Agrees (palette : Bytes) (s : Loop) (d : Drawing) : Prop where
  currentX : s.currentX = d.currentX
  currentY : s.currentY = d.currentY
  inRange : s.currentX < 2 ^ 8
  wellFormed : s.rects.WellFormed
  text : s.rects.text = String.join (d.svgRects.map SvgRect.toSvg)
  cached : Cached palette s.cache

theorem getRectLength_ok {currentX drawLength rightBound length : Nat} (hx : currentX < 2 ^ 8)
    (h : getRectLength currentX drawLength rightBound = .ok length) :
    length = min drawLength (rightBound - currentX) := by
  rw [getRectLength, Nat.mod_eq_of_lt hx] at h
  obtain ⟨remaining, hremaining, h⟩ := bind_eq_ok.mp h
  obtain ⟨-, rfl⟩ := checkedSub_eq_ok.mp hremaining
  rw [← pure_eq_ok.mp h]
  split <;> omega

theorem pushRect_agrees (hpalette : PaletteAgrees palette paletteColors) {s s' : Loop} {d : Drawing}
    (hs : Agrees palette s d) {colorIndex length : Nat} (hcolor : colorIndex < 256)
    (h : pushRect palette colorIndex length s = .ok s') :
    Agrees palette s' { d with
      svgRects := d.svgRects ++ pushed paletteColors colorIndex length d.currentX d.currentY } := by
  unfold pushRect at h
  unfold pushed
  split at h
  · rename_i hne
    rw [if_pos hne]
    obtain ⟨⟨color, cache⟩, hget, h⟩ := bind_eq_ok.mp h
    obtain ⟨rects, hpush, h⟩ := bind_eq_ok.mp h
    obtain rfl := pure_eq_ok.mp h
    obtain ⟨color', cache', hat, hget', hcached⟩ | ⟨-, hget'⟩ := getColor_cases hs.cached hcolor
    · obtain ⟨rfl, rfl⟩ := Prod.mk.inj (Except.ok.inj (hget.symm.trans hget'))
      obtain ⟨hwf, htext⟩ := RectBuffer.push_ok hs.wellFormed hpush
      refine ⟨hs.currentX, hs.currentY, hs.inRange, hwf, ?_, hcached⟩
      rw [htext, hs.text, hexColorAt_eq hpalette hne hat, hs.currentX, hs.currentY, List.map_append,
        String.join_append]
      simp
    · cases hget.symm.trans hget'
  · rename_i hzero
    rw [if_neg hzero, List.append_nil, ← pure_eq_ok.mp h]
    exact hs

theorem drawRun_agrees (hpalette : PaletteAgrees palette paletteColors) (hleft : bounds.left < 2 ^ 8)
    (hright : bounds.right < 2 ^ 8) {colorIndex : Nat} (hcolor : colorIndex < 256)
    {fuel drawLength : Nat} (hfuel : drawLength ≤ fuel) {s s' : Loop} {d : Drawing}
    (hs : Agrees palette s d)
    (h : drawRun bounds palette colorIndex (fuel + 1) drawLength s = .ok s') :
    Agrees palette s' (Nouns.drawRun bounds paletteColors colorIndex fuel drawLength d) := by
  induction fuel generalizing drawLength s d with
  | zero =>
    obtain rfl : drawLength = 0 := by omega
    obtain ⟨length, hlength, h⟩ := bind_eq_ok.mp h
    obtain rfl : length = 0 := by
      rw [getRectLength_ok hs.inRange hlength, Nat.zero_min]
    rw [← pure_eq_ok.mp h]
    exact hs
  | succ fuel ih =>
    obtain ⟨length, hlength, h⟩ := bind_eq_ok.mp h
    have hmin := getRectLength_ok hs.inRange hlength
    rw [hs.currentX] at hmin
    split at h
    · rename_i hpos
      obtain ⟨s₁, hpush, h⟩ := bind_eq_ok.mp h
      have hs₁ := pushRect_agrees hpalette hs hcolor hpush
      rw [drawRun_step hmin.symm hpos]
      refine ih (by omega) ?_ h
      have hx := hs₁.currentX
      have hy := hs₁.currentY
      dsimp only at hx hy
      refine ⟨?_, ?_, ?_, hs₁.wellFormed, hs₁.text, hs₁.cached⟩
      · dsimp only [advance]
        rw [hx]
        split <;> rfl
      · dsimp only [advance]
        rw [hx, hy]
        split <;> rfl
      · dsimp only [advance]
        rw [hx]
        split
        · exact hleft
        · dsimp only
          omega
    · rename_i hzero
      rw [drawRun_stop (by omega), ← pure_eq_ok.mp h]
      exact hs

theorem generatePart_agrees {part : Part} (hpalette : PaletteAgrees part.palette paletteColors)
    {rects : String} (h : generatePart part = .ok rects) :
    ∃ image, decodeImage (hexImage part.image) = some image ∧
      rects = String.join ((drawImage image paletteColors).map SvgRect.toSvg) := by
  obtain ⟨image, himage, h⟩ := bind_eq_ok.mp h
  obtain ⟨s, hdraws, h⟩ := bind_eq_ok.mp h
  obtain ⟨-, hheader, hruns⟩ := decodeRLEImage_ok himage
  refine ⟨image, decodeImage_hexImage himage, ?_⟩
  simp only [List.forall_mem_cons, List.not_mem_nil, false_implies, implies_true, and_true]
    at hheader
  obtain ⟨-, -, hright, -, hleft⟩ := hheader
  -- Both go through the runs of the same image.
  have hloop : ∀ runs : List (Nat × Nat), (∀ draw ∈ runs, draw.1 < 256 ∧ draw.2 < 256) →
      ∀ s₀ d₀, Agrees part.palette s₀ d₀ →
      runs.foldlM (fun s draw => drawRun image.bounds part.palette draw.2 (draw.1 + 1) draw.1 s) s₀ =
        .ok s →
      Agrees part.palette s (runs.foldl
        (fun d draw => Nouns.drawRun image.bounds paletteColors draw.2 draw.1 draw.1 d) d₀) := by
    intro runs
    induction runs with
    | nil =>
      intro _ s₀ d₀ hs₀ h
      rw [← pure_eq_ok.mp h]
      exact hs₀
    | cons draw runs ih =>
      intro hlt s₀ d₀ hs₀ h
      rw [List.forall_mem_cons] at hlt
      rw [List.foldlM_cons] at h
      obtain ⟨s₁, hrun, h⟩ := bind_eq_ok.mp h
      exact ih hlt.2 s₁ _
        (drawRun_agrees hpalette hleft hright hlt.1.2 (Nat.le_refl _) hs₀ hrun) h
  have hstart : Agrees part.palette
      ⟨image.bounds.left, image.bounds.top, .empty, List.replicate 256 ""⟩
      ⟨image.bounds.left, image.bounds.top, []⟩ :=
    ⟨rfl, rfl, hleft, RectBuffer.empty_wellFormed, RectBuffer.empty_text, cached_empty _⟩
  have hs := hloop image.rects hruns _ _ hstart hdraws
  rw [RectBuffer.finish_eq hs.wellFormed] at h
  rw [← Except.ok.inj h, hs.text]
  rfl

theorem exists_images {parts : List Part} {paletteColors : List String}
    (hagree : ∀ part ∈ parts, PaletteAgrees part.palette paletteColors) {texts : List String}
    (htexts : List.Forall₂ (fun part text => generatePart part = .ok text) parts texts) :
    ∃ images, (parts.map fun part => hexImage part.image).mapM decodeImage = some images ∧
      images.map (fun image => String.join ((drawImage image paletteColors).map SvgRect.toSvg)) =
        texts := by
  induction htexts with
  | nil => exact ⟨[], rfl, rfl⟩
  | cons hpart _ ih =>
    rw [List.forall_mem_cons] at hagree
    obtain ⟨image, himage, rfl⟩ := generatePart_agrees hagree.1 hpart
    obtain ⟨images, himages, rfl⟩ := ih hagree.2
    refine ⟨image :: images, ?_, rfl⟩
    rw [List.map_cons, List.mapM_cons, himage, himages]
    rfl

/-- Whenever the contract does not revert, the SDK returns the same string for the same parts. -/
theorem buildSVG_eq_generateSVG {params : SVGParams} (hbackground : params.background ≠ "")
    {palette : Bytes} (hshared : ∀ part ∈ params.parts, part.palette = palette)
    {paletteColors : List String} (hpalette : PaletteAgrees palette paletteColors) {svg : String}
    (h : generateSVG params = .ok svg) :
    buildSVG (params.parts.map fun part => hexImage part.image) paletteColors
      (some params.background) = some svg := by
  obtain ⟨rects, hrects, h⟩ := bind_eq_ok.mp h
  have hsize : params.background.utf8ByteSize ≠ 0 := fun hzero =>
    hbackground (String.utf8ByteSize_eq_zero_iff.mp hzero)
  rw [if_pos hsize] at h
  obtain ⟨texts, htexts, rfl⟩ := generateParts_ok hrects
  have hagree : ∀ part ∈ params.parts, PaletteAgrees part.palette paletteColors :=
    fun part hpart => (hshared part hpart).symm ▸ hpalette
  obtain ⟨images, himages, hjoin⟩ := exists_images hagree htexts
  have hfill : "<rect width=\"100%\" height=\"100%\" fill=\"" ++ "#" =
      "<rect width=\"100%\" height=\"100%\" fill=\"#" := by
    decide
  obtain rfl := pure_eq_ok.mp h
  have hassoc : ∀ tag fill color close rects last : String,
      tag ++ fill ++ ("#" ++ color) ++ close ++ rects ++ last =
        tag ++ (fill ++ "#") ++ color ++ close ++ rects ++ last := by
    intros
    simp only [String.append_assoc]
  have hsdk := buildSVG_eq himages paletteColors params.background
  rw [if_neg hbackground, hjoin, hassoc, hfill] at hsdk
  exact hsdk

/-- A run of three pixels over two lines, and a part with a run of colour 0. -/
def twoParts : SVGParams where
  parts := [⟨[0, 3, 2, 5, 0, 3, 1], [0, 0, 0, 10, 20, 30]⟩,
    ⟨[0, 7, 9, 8, 4, 1, 0, 2, 1], [0, 0, 0, 10, 20, 30]⟩]
  background := "d5d7e1"

theorem twoParts_agree :
    ∃ svg, generateSVG twoParts = .ok svg ∧
      buildSVG (twoParts.parts.map fun part => hexImage part.image) ["", "0a141e"]
        (some "d5d7e1") = some svg := by
  have hpalette : PaletteAgrees [0, 0, 0, 10, 20, 30] ["", "0a141e"] := by
    intro i hi b₀ b₁ b₂ h₀ h₁ h₂
    obtain ⟨hlt, -⟩ := List.getElem?_eq_some_iff.mp h₂
    obtain rfl : i = 1 := by
      simp only [List.length_cons, List.length_nil] at hlt
      omega
    obtain rfl := Option.some.inj h₀
    obtain rfl := Option.some.inj h₁
    obtain rfl := Option.some.inj h₂
    decide +kernel
  have hok : (generateSVG twoParts).isOk = true := by
    decide +kernel
  obtain ⟨svg, hsvg⟩ : ∃ svg, generateSVG twoParts = .ok svg := by
    revert hok
    cases generateSVG twoParts with
    | error r => exact fun hok => nomatch hok
    | ok svg => exact fun _ => ⟨svg, rfl⟩
  have hshared : ∀ part ∈ twoParts.parts, part.palette = [0, 0, 0, 10, 20, 30] := by
    simp [twoParts]
  exact ⟨svg, hsvg, buildSVG_eq_generateSVG (by decide) hshared hpalette hsvg⟩

end SVGRenderer

end Nouns
