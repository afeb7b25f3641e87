import Nouns.Image.Rendering

/-!
# RendererAgreement — the new renderer draws what the old one drew

For runs that stay in their lines.  A run is then a single rectangle in both contracts: in the new one
the loop over it has one iteration, and the second test finds nothing left.
-/

open Fallible

namespace Nouns

/-- Both fail alike, or both succeed with related values. -/
inductive BothTx {α β : Type} (R : α → β → Prop) : Tx α → Tx β → Prop
  | ok {a : α} {b : β} (h : R a b) : BothTx R (.ok a) (.ok b)
  | error (r : Revert) : BothTx R (.error r) (.error r)

namespace BothTx

variable {α β γ δ : Type} {R : α → β → Prop} {S : γ → δ → Prop} {x : Tx α} {y : Tx β}

theorem bind (h : BothTx R x y) {f : α → Tx γ} {g : β → Tx δ}
    (hnext : ∀ a b, R a b → BothTx S (f a) (g b)) : BothTx S (x >>= f) (y >>= g) := by
  cases h with
  | ok h => exact hnext _ _ h
  | error r => exact .error r

theorem refl (x : Tx α) : BothTx Eq x x := by
  cases x with
  | ok a => exact .ok rfl
  | error r => exact .error r

theorem eq {y : Tx α} (h : BothTx Eq x y) : x = y := by
  cases h with
  | ok h => rw [h]
  | error r => rfl

end BothTx

/-- From `x` on, each run ends at the right bound or before it. -/
def FitLines (bounds : ImageBounds) : Nat → List (Nat × Nat) → Prop
  | _, [] => True
  | x, draw :: draws =>
    1 ≤ draw.1 ∧ x + draw.1 ≤ bounds.right ∧ FitLines bounds (advance bounds x 0 draw.1).1 draws

/-- The runs of the image, if it can be decoded, stay in their lines. -/
def SingleLine (image : Bytes) : Prop :=
  ∀ decoded, decodeRLEImage image = .ok decoded →
    FitLines decoded.bounds decoded.bounds.left decoded.rects

/-- The colours of the old palette are the entries of the new one. -/
structure SameColors (palette : Bytes) (colors : List String) : Prop where
  length : palette.length = 3 * colors.length
  entry : ∀ i color, colors[i]? = some color → SVGRenderer.colorAt palette i = some color

theorem SameColors.getElem? {palette : Bytes} {colors : List String}
    (h : SameColors palette colors) (i : Nat) : colors[i]? = SVGRenderer.colorAt palette i := by
  cases hcolor : colors[i]? with
  | some color => exact (h.entry i color hcolor).symm
  | none =>
    rw [List.getElem?_eq_none_iff] at hcolor
    have hbyte : palette[i * 3]? = none := by
      rw [List.getElem?_eq_none_iff, h.length]
      omega
    rw [SVGRenderer.colorAt, hbyte]
    rfl

theorem generateParts_congr {α β : Type} {f : α → Tx String} {g : β → Tx String} (image : α → β)
    {parts : List α} (h : ∀ part ∈ parts, f part = g (image part)) :
    generateParts f parts = generateParts g (parts.map image) := by
  have hloop : ∀ (parts : List α) (p : Nat) (before : String),
      (∀ part ∈ parts, f part = g (image part)) →
      (parts.zipIdx p).foldlM (fun rects p => do
        let rects := rects ++ (← f p.1)
        let _ ← checked 8 (p.2 + 1)
        return rects) before =
      ((parts.map image).zipIdx p).foldlM (fun rects p => do
        let rects := rects ++ (← g p.1)
        let _ ← checked 8 (p.2 + 1)
        return rects) before := by
    intro parts
    induction parts with
    | nil => exact fun _ _ _ => rfl
    | cons part parts ih =>
      intro p before h
      rw [List.forall_mem_cons] at h
      rw [List.map_cons, List.zipIdx_cons, List.zipIdx_cons, List.foldlM_cons, List.foldlM_cons,
        h.1]
      congr 1
      funext rects
      exact ih (p + 1) rects h.2
  exact hloop parts 0 "" h

namespace SVGRenderer

variable {bounds : ImageBounds} {palette : Bytes} {colors : List String}

/-- Where both are, and what they have written, is the same. -/
structure SameLoop (palette : Bytes) (s : Loop) (t : MultiPartRLEToSVG.Loop) : Prop where
  currentX : t.currentX = s.currentX
  currentY : t.currentY = s.currentY
  rects : t.rects = s.rects
  cached : Cached palette s.cache

theorem pushRect_same (hcolors : SameColors palette colors) {colorIndex : Nat}
    (hcolor : colorIndex < 256) (length : Nat) {s : Loop} {t : MultiPartRLEToSVG.Loop}
    (h : SameLoop palette s t) :
    BothTx (fun s' t' => SameLoop palette s' t' ∧ s'.currentX = s.currentX)
      (pushRect palette colorIndex length s)
      (MultiPartRLEToSVG.pushRect colors colorIndex length t) := by
  unfold pushRect MultiPartRLEToSVG.pushRect
  by_cases hzero : colorIndex = 0
  · rw [if_neg (not_not.mpr hzero), if_neg (not_not.mpr hzero)]
    exact .ok ⟨h, rfl⟩
  rw [if_pos hzero, if_pos hzero, h.currentX, h.currentY, h.rects]
  obtain ⟨color, cache, hat, hget, hcached⟩ | ⟨hat, hget⟩ := getColor_cases h.cached hcolor
  · have hold : getAt colors colorIndex = .ok color := by
      rw [getAt_eq_ok, hcolors.getElem?, hat]
    rw [hget, hold]
    refine (BothTx.refl (s.rects.push length s.currentX s.currentY color)).bind ?_
    rintro rects _ rfl
    exact .ok ⟨⟨rfl, rfl, rfl, hcached⟩, rfl⟩
  · have hold : getAt colors colorIndex = .error .panic := by
      rw [getAt, hcolors.getElem?, hat]
    rw [hget, hold]
    exact .error .panic

/-- The second test of the loop, with nothing left to draw. -/
theorem drawRun_zero {s : Loop} (hx : s.currentX ≤ bounds.right) (colorIndex fuel : Nat) :
    drawRun bounds palette colorIndex fuel 0 s = .ok s := by
  cases fuel with
  | zero => rfl
  | succ fuel =>
    have hlength : getRectLength s.currentX 0 bounds.right = .ok 0 := by
      have hmod : s.currentX % 2 ^ 8 ≤ bounds.right := (Nat.mod_le _ _).trans hx
      have hsub : checkedSub bounds.right (s.currentX % 2 ^ 8) =
          .ok (bounds.right - s.currentX % 2 ^ 8) := checkedSub_eq_ok.mpr ⟨hmod, rfl⟩
      rw [getRectLength, hsub]
      rfl
    rw [drawRun, hlength]
    rfl

theorem getRectLength_fits {x drawLength right : Nat} (hright : right < 2 ^ 8)
    (hfits : x + drawLength ≤ right) : getRectLength x drawLength right = .ok drawLength := by
  have hmod : x % 2 ^ 8 = x := Nat.mod_eq_of_lt (by omega)
  have hsub : checkedSub right x = .ok (right - x) := checkedSub_eq_ok.mpr ⟨by omega, rfl⟩
  rw [getRectLength, hmod, hsub]
  exact congrArg Except.ok (if_pos (by omega))

theorem drawRun_same (hcolors : SameColors palette colors) (hright : bounds.right < 2 ^ 8)
    (hleft : bounds.left < bounds.right) {draw : Nat × Nat} (hcolor : draw.2 < 256)
    (hpos : 1 ≤ draw.1) {s : Loop} {t : MultiPartRLEToSVG.Loop} (h : SameLoop palette s t)
    (hfits : s.currentX + draw.1 ≤ bounds.right) :
    BothTx (fun s' t' => SameLoop palette s' t' ∧
        s'.currentX = (advance bounds s.currentX 0 draw.1).1)
      (drawRun bounds palette draw.2 (draw.1 + 1) draw.1 s)
      (MultiPartRLEToSVG.drawRun bounds colors t draw) := by
  rw [drawRun, getRectLength_fits hright hfits]
  change BothTx _ (if draw.1 > 0 then _ else _) _
  rw [if_pos (Nat.lt_of_succ_le hpos)]
  refine (pushRect_same hcolors hcolor draw.1 h).bind ?_
  rintro s₁ t₁ ⟨h₁, hx⟩
  have hnext : (advance bounds s₁.currentX s₁.currentY draw.1).1 =
      (advance bounds s.currentX 0 draw.1).1 := by
    unfold advance
    rw [hx]
    split <;> rfl
  have hinside : (advance bounds s₁.currentX s₁.currentY draw.1).1 ≤ bounds.right := by
    unfold advance
    rw [hx]
    split
    · exact hleft.le
    · exact hfits
  dsimp only
  rw [Nat.sub_self, drawRun_zero hinside, h₁.currentX, h₁.currentY]
  exact .ok ⟨⟨rfl, rfl, h₁.rects, h₁.cached⟩, hnext⟩

theorem draws_same (hcolors : SameColors palette colors) (hright : bounds.right < 2 ^ 8)
    {draws : List (Nat × Nat)} (hlt : ∀ draw ∈ draws, draw.2 < 256) {s : Loop}
    {t : MultiPartRLEToSVG.Loop} (h : SameLoop palette s t)
    (hleft : draws ≠ [] → bounds.left < bounds.right)
    (hfits : FitLines bounds s.currentX draws) :
    BothTx (SameLoop palette)
      (draws.foldlM (fun s draw => drawRun bounds palette draw.2 (draw.1 + 1) draw.1 s) s)
      (draws.foldlM (MultiPartRLEToSVG.drawRun bounds colors) t) := by
  induction draws generalizing s t with
  | nil => exact .ok h
  | cons draw draws ih =>
    rw [List.forall_mem_cons] at hlt
    obtain ⟨hpos, hend, hrest⟩ := hfits
    have hbounds := hleft (List.cons_ne_nil draw draws)
    rw [List.foldlM_cons, List.foldlM_cons]
    refine (drawRun_same hcolors hright hbounds hlt.1 hpos h hend).bind ?_
    rintro s₁ t₁ ⟨h₁, hx⟩
    exact ih hlt.2 h₁ (fun _ => hbounds) (hx ▸ hrest)

theorem generatePart_same {part : Part} {palettes : Nat → List String}
    (hsingle : SingleLine part.image)
    (hcolors : ∀ decoded, decodeRLEImage part.image = .ok decoded →
      SameColors part.palette (palettes decoded.paletteIndex)) :
    generatePart part = MultiPartRLEToSVG.generatePart palettes part.image := by
  unfold generatePart MultiPartRLEToSVG.generatePart
  cases himage : decodeRLEImage part.image with
  | error r => rfl
  | ok image =>
    have hfits := hsingle image himage
    obtain ⟨-, hheader, hruns⟩ := decodeRLEImage_ok himage
    simp only [List.forall_mem_cons] at hheader
    have hright : image.bounds.right < 2 ^ 8 := hheader.2.2.1
    have hleft : image.rects ≠ [] → image.bounds.left < image.bounds.right := by
      intro hne
      cases hrects : image.rects with
      | nil => exact absurd hrects hne
      | cons draw draws =>
        rw [hrects] at hfits
        have hpos := hfits.1
        have hend := hfits.2.1
        omega
    have hstart : SameLoop part.palette
        ⟨image.bounds.left, image.bounds.top, .empty, List.replicate 256 ""⟩
        ⟨image.bounds.left, image.bounds.top, .empty⟩ :=
      ⟨rfl, rfl, rfl, cached_empty _⟩
    have hdraws := draws_same (hcolors image himage) hright (fun draw hdraw => (hruns draw hdraw).2)
      hstart hleft hfits
    refine (hdraws.bind fun s t hst => ?_).eq
    rw [hst.rects]
    exact BothTx.refl _

/-- Both contracts return the same string, or both revert. -/
theorem generateSVG_eq_multiPart {params : SVGParams} (hbackground : params.background ≠ "")
    {palettes : Nat → List String} (hsingle : ∀ part ∈ params.parts, SingleLine part.image)
    (hcolors : ∀ part ∈ params.parts, ∀ decoded, decodeRLEImage part.image = .ok decoded →
      SameColors part.palette (palettes decoded.paletteIndex)) :
    generateSVG params = MultiPartRLEToSVG.generateSVG
      ⟨params.parts.map Part.image, params.background⟩ palettes := by
  have hrects : generateSVGRects params = MultiPartRLEToSVG.generateSVGRects
      ⟨params.parts.map Part.image, params.background⟩ palettes :=
    generateParts_congr Part.image fun part hpart =>
      generatePart_same (hsingle part hpart) (hcolors part hpart)
  have hsize : params.background.utf8ByteSize ≠ 0 := fun hzero =>
    hbackground (String.utf8ByteSize_eq_zero_iff.mp hzero)
  rw [generateSVG, MultiPartRLEToSVG.generateSVG, hrects]
  refine congrArg _ (funext fun rects => ?_)
  exact if_pos hsize

/-- One line of two pixels and a line with the first pixel left out. -/
theorem two_runs_agree :
    generateSVG ⟨[⟨[0, 3, 2, 5, 0, 2, 1, 1, 0, 1, 1], [0, 0, 0, 10, 20, 30]⟩], "d5d7e1"⟩ =
      MultiPartRLEToSVG.generateSVG ⟨[[0, 3, 2, 5, 0, 2, 1, 1, 0, 1, 1]], "d5d7e1"⟩
        fun _ => ["000000", "0a141e"] := by
  have hdecode : decodeRLEImage [0, 3, 2, 5, 0, 2, 1, 1, 0, 1, 1] =
      .ok ⟨0, ⟨3, 2, 5, 0⟩, [(2, 1), (1, 0), (1, 1)]⟩ := rfl
  have hsingle : SingleLine [0, 3, 2, 5, 0, 2, 1, 1, 0, 1, 1] := by
    intro decoded h
    obtain rfl := Except.ok.inj (hdecode.symm.trans h)
    simp [FitLines, advance]
  have hcolors : SameColors [0, 0, 0, 10, 20, 30] ["000000", "0a141e"] := by
    refine ⟨rfl, fun i color h => ?_⟩
    match i, h with
    | 0, h =>
      obtain rfl := Option.some.inj h
      decide +kernel
    | 1, h =>
      obtain rfl := Option.some.inj h
      decide +kernel
  have hagree := @generateSVG_eq_multiPart
    ⟨[⟨[0, 3, 2, 5, 0, 2, 1, 1, 0, 1, 1], [0, 0, 0, 10, 20, 30]⟩], "d5d7e1"⟩ (by decide)
    (fun _ => ["000000", "0a141e"]) (by simpa using hsingle) (by simpa using fun _ _ => hcolors)
  exact hagree

end SVGRenderer

end Nouns
