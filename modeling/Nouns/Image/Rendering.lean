import Nouns.Image.Decoding
import Nouns.Image.SVGRenderer

/-!
# Rendering — what the contracts write

The buffer holds at most four rectangles and is written out when it is full, so that at any time its
text and the text before are the rectangles pushed so far.  The cache of colours holds what the
palette has.
-/

open Fallible

namespace Nouns

/-! ## Arrays -/

variable {α : Type} {array array' : List α} {i : Nat} {a : α}

theorem getD_set_self (h : i < array.length) (a d : α) : (array.set i a).getD i d = a := by
  rw [List.getD_eq_getElem?_getD, List.getElem?_set_self h, Option.getD_some]

theorem getD_set_ne {j : Nat} (h : i ≠ j) (a d : α) : (array.set i a).getD j d = array.getD j d := by
  rw [List.getD_eq_getElem?_getD, List.getElem?_set_ne h, ← List.getD_eq_getElem?_getD]

/-- The table has the tenfold of every number it has. -/
theorem RectBuffer.lookup_eq {n : Nat} {s : String} (h : getAt lookup n = .ok s) : s = toString (n * 10) := by
  have hall : ∀ n < 33, lookup[n]? = some (toString (n * 10)) := by
    decide +kernel
  rw [getAt_eq_ok] at h
  have hlt : n < 33 := (List.getElem?_eq_some_iff.mp h).1
  exact Option.some.inj (h.symm.trans (hall n hlt))

/-! ## Decoding -/

theorem readDraws_ok {image : Bytes} {draws : List (Nat × Nat)} (h : readDraws image = .ok draws) :
    image.map UInt8.toNat = draws.flatMap (fun draw => [draw.1, draw.2]) ∧
      ∀ draw ∈ draws, draw.1 < 256 ∧ draw.2 < 256 := by
  induction image using readDraws.induct generalizing draws with
  | case1 =>
    obtain rfl := pure_eq_ok.mp h
    exact ⟨rfl, fun draw hdraw => nomatch hdraw⟩
  | case2 b => exact absurd h throw_ne_ok
  | case3 length colorIndex image ih =>
    obtain ⟨rest, hrest, h⟩ := bind_eq_ok.mp h
    obtain rfl := pure_eq_ok.mp h
    obtain ⟨hbytes, hlt⟩ := ih hrest
    refine ⟨?_, List.forall_mem_cons.mpr ⟨⟨length.toNat_lt, colorIndex.toNat_lt⟩, hlt⟩⟩
    rw [List.map_cons, List.map_cons, hbytes]
    rfl

theorem decodeRLEImage_ok {image : Bytes} {decoded : DecodedImage}
    (h : decodeRLEImage image = .ok decoded) :
    image.map UInt8.toNat = [decoded.paletteIndex, decoded.bounds.top, decoded.bounds.right,
        decoded.bounds.bottom, decoded.bounds.left] ++
          decoded.rects.flatMap (fun draw => [draw.1, draw.2]) ∧
      (∀ c ∈ [decoded.paletteIndex, decoded.bounds.top, decoded.bounds.right,
        decoded.bounds.bottom, decoded.bounds.left], c < 256) ∧
      ∀ draw ∈ decoded.rects, draw.1 < 256 ∧ draw.2 < 256 := by
  simp only [decodeRLEImage, bind_eq_ok, map_eq_ok, getAt_eq_ok, pure_eq_ok] at h
  obtain ⟨_, ⟨p, hp, rfl⟩, _, ⟨t, ht, rfl⟩, _, ⟨r, hr, rfl⟩, _, ⟨b, hb, rfl⟩, _, ⟨l, hl, rfl⟩, draws,
    hdraws, rfl⟩ := h
  obtain ⟨hbytes, hlt⟩ := readDraws_ok hdraws
  have himage : image = p :: t :: r :: b :: l :: image.drop 5 := by
    clear hdraws hbytes
    rcases image with _ | ⟨p', _ | ⟨t', _ | ⟨r', _ | ⟨b', _ | ⟨l', image⟩⟩⟩⟩⟩ <;> simp_all
  refine ⟨?_, ?_, hlt⟩
  · rw [himage]
    simp only [List.map_cons, hbytes]
    rfl
  · simp only [List.forall_mem_cons, List.not_mem_nil, false_implies, implies_true, and_true]
    exact ⟨p.toNat_lt, t.toNat_lt, r.toNat_lt, b.toNat_lt, l.toNat_lt⟩

/-! ## The buffer -/

namespace RectBuffer

/-- The text of the rectangle at `buffer[i]`. -/
def textAt (buffer : List String) (i : Nat) : String :=
  rectText (buffer.getD i "") (buffer.getD (i + 1) "") (buffer.getD (i + 2) "")
    (buffer.getD (i + 3) "")

/-- The text of the first `n` rectangles. -/
def chunkText (buffer : List String) (n : Nat) : String :=
  String.join ((List.range n).map fun j => textAt buffer (4 * j))

/-- The rectangles so far. -/
def text (b : RectBuffer) : String := b.part ++ chunkText b.buffer (b.cursor / 4)

/-- There is room for one more rectangle. -/
structure WellFormed (b : RectBuffer) : Prop where
  cursor : b.cursor % 4 = 0
  room : b.cursor < 16
  length : b.buffer.length = 16

theorem rectAt_eq {buffer : List String} {i : Nat} (h : i + 3 < buffer.length) :
    rectAt buffer i = .ok (textAt buffer i) := by
  have hget : ∀ j < buffer.length, getAt buffer j = .ok (buffer.getD j "") := by
    intro j hj
    rw [getAt_eq_ok, List.getD_eq_getElem?_getD, List.getElem?_eq_getElem hj, Option.getD_some]
  rw [rectAt, hget i (by omega), hget (i + 1) (by omega), hget (i + 2) (by omega), hget (i + 3) h]
  rfl

theorem chunkText_succ (buffer : List String) (n : Nat) :
    chunkText buffer (n + 1) = chunkText buffer n ++ textAt buffer (4 * n) := by
  rw [chunkText, chunkText, List.range_succ, List.map_append, String.join_append]
  simp

theorem getChunk_eq {buffer : List String} {n : Nat} (h : 4 * n ≤ buffer.length) :
    getChunk (4 * n) buffer = .ok (chunkText buffer n) := by
  have hcount : (4 * n + 3) / 4 = n := by omega
  rw [getChunk, hcount]
  clear hcount
  induction n with
  | zero => rfl
  | succ n ih =>
    have hrect : rectAt buffer (4 * n) = .ok (textAt buffer (4 * n)) := rectAt_eq (by omega)
    rw [List.range_succ, List.foldlM_append, ih (by omega), chunkText_succ]
    change (do return chunkText buffer n ++ (← rectAt buffer (4 * n))) >>= pure = _
    rw [hrect]
    rfl

theorem empty_wellFormed : empty.WellFormed := ⟨rfl, by decide, rfl⟩

theorem empty_text : empty.text = "" := by
  simp [text, empty, chunkText]

theorem finish_eq {b : RectBuffer} (hb : b.WellFormed) : b.finish = .ok b.text := by
  obtain ⟨hcursor, hroom, hlength⟩ := hb
  have hfour : b.cursor = 4 * (b.cursor / 4) := by omega
  unfold finish text
  split
  · have hchunk : getChunk (4 * (b.cursor / 4)) b.buffer = .ok (chunkText b.buffer (b.cursor / 4)) :=
      getChunk_eq (by omega)
    rw [← hfour] at hchunk
    rw [hchunk]
    rfl
  · rename_i hzero
    rw [not_not.mp hzero]
    simp [chunkText]

/-- Four strings written at `i`. -/
def writeAt (buffer : List String) (i : Nat) (width x y color : String) : List String :=
  (((buffer.set i width).set (i + 1) x).set (i + 2) y).set (i + 3) color

theorem textAt_writeAt {buffer : List String} {i : Nat} (hi : i + 3 < buffer.length)
    (width x y color : String) :
    textAt (writeAt buffer i width x y color) i = rectText width x y color := by
  have h₀ : (writeAt buffer i width x y color).getD i "" = width := by
    rw [writeAt, getD_set_ne (by omega), getD_set_ne (by omega), getD_set_ne (by omega),
      getD_set_self (by omega)]
  have h₁ : (writeAt buffer i width x y color).getD (i + 1) "" = x := by
    rw [writeAt, getD_set_ne (by omega), getD_set_ne (by omega),
      getD_set_self (by rw [List.length_set]; omega)]
  have h₂ : (writeAt buffer i width x y color).getD (i + 2) "" = y := by
    rw [writeAt, getD_set_ne (by omega),
      getD_set_self (by rw [List.length_set, List.length_set]; omega)]
  have h₃ : (writeAt buffer i width x y color).getD (i + 3) "" = color := by
    rw [writeAt, getD_set_self (by rw [List.length_set, List.length_set, List.length_set]; omega)]
  rw [textAt, h₀, h₁, h₂, h₃]

theorem chunkText_writeAt {buffer : List String} {n : Nat} (width x y color : String) :
    chunkText (writeAt buffer (4 * n) width x y color) n = chunkText buffer n := by
  unfold chunkText
  congr 1
  refine List.map_congr_left (fun j hj => ?_)
  rw [List.mem_range] at hj
  have hget : ∀ k < 4 * n,
      (writeAt buffer (4 * n) width x y color).getD k "" = buffer.getD k "" := by
    intro k hk
    rw [writeAt, getD_set_ne (by omega), getD_set_ne (by omega), getD_set_ne (by omega),
      getD_set_ne (by omega)]
  rw [textAt, textAt, hget _ (by omega), hget _ (by omega), hget _ (by omega), hget _ (by omega)]

/-- A rectangle is pushed as the SDK writes it. -/
theorem push_ok {b b' : RectBuffer} (hb : b.WellFormed) {length x y : Nat} {color : String}
    (h : b.push length x y color = .ok b') :
    b'.WellFormed ∧ b'.text = b.text ++ (SvgRect.mk length x y color).toSvg := by
  obtain ⟨hcursor, hroom, hlength⟩ := hb
  obtain ⟨n, hn⟩ : ∃ n, b.cursor = 4 * n := ⟨b.cursor / 4, by omega⟩
  simp only [push, bind_eq_ok, setAt_eq_ok] at h
  obtain ⟨_, hwidth, _, ⟨-, rfl⟩, _, hx, _, ⟨-, rfl⟩, _, hy, _, ⟨-, rfl⟩, _, ⟨-, rfl⟩, h⟩ := h
  obtain rfl := lookup_eq hwidth
  obtain rfl := lookup_eq hx
  obtain rfl := lookup_eq hy
  obtain ⟨buffer, hbuffer⟩ : ∃ l, l = writeAt b.buffer b.cursor (toString (length * 10))
      (toString (x * 10)) (toString (y * 10)) color := ⟨_, rfl⟩
  have hlength' : buffer.length = 16 := by
    rw [hbuffer, writeAt, List.length_set, List.length_set, List.length_set, List.length_set,
      hlength]
  have hwritten : chunkText buffer (n + 1) =
      chunkText b.buffer n ++ (SvgRect.mk length x y color).toSvg := by
    rw [hbuffer, chunkText_succ, hn, chunkText_writeAt, textAt_writeAt (by omega)]
    rfl
  have hsame : b.text = b.part ++ chunkText b.buffer n := by
    rw [text, hn, Nat.mul_div_cancel_left n (by decide)]
  have hnext : b.cursor + 4 = 4 * (n + 1) := by omega
  change (if b.cursor + 4 ≥ 16 then (do
      return RectBuffer.mk 0 (writeAt b.buffer b.cursor _ _ _ color)
        (b.part ++ (← getChunk (b.cursor + 4) (writeAt b.buffer b.cursor _ _ _ color))))
    else return RectBuffer.mk (b.cursor + 4) (writeAt b.buffer b.cursor _ _ _ color) b.part) =
      .ok b' at h
  rw [← hbuffer, hnext] at h
  rw [hsame, String.append_assoc, ← hwritten]
  split at h
  · -- The buffer is full: it is written out.
    rw [getChunk_eq (by omega)] at h
    rw [← pure_eq_ok.mp h]
    refine ⟨⟨rfl, Nat.zero_lt_succ 15, hlength'⟩, ?_⟩
    simp [text, chunkText]
  · rename_i hroom'
    rw [← pure_eq_ok.mp h]
    refine ⟨⟨Nat.mul_mod_right 4 (n + 1), Nat.lt_of_not_le hroom', hlength'⟩, ?_⟩
    rw [text, Nat.mul_div_cancel_left (n + 1) (by decide)]

end RectBuffer

/-! ## Parts -/

/-- The parts are rendered one after the other. -/
theorem generateParts_ok {β : Type} {generatePart : β → Tx String} {parts : List β} {rects : String}
    (h : generateParts generatePart parts = .ok rects) :
    ∃ texts, List.Forall₂ (fun part text => generatePart part = .ok text) parts texts ∧
      rects = String.join texts := by
  have hloop : ∀ (parts : List β) (p : Nat) (before : String),
      (parts.zipIdx p).foldlM (fun rects p => do
        let rects := rects ++ (← generatePart p.1)
        let _ ← checked 8 (p.2 + 1)
        return rects) before = .ok rects →
      ∃ texts, List.Forall₂ (fun part text => generatePart part = .ok text) parts texts ∧
        rects = before ++ String.join texts := by
    intro parts
    induction parts with
    | nil =>
      intro p before h
      refine ⟨[], .nil, ?_⟩
      rw [← pure_eq_ok.mp h]
      simp
    | cons part parts ih =>
      intro p before h
      rw [List.zipIdx_cons, List.foldlM_cons] at h
      obtain ⟨next, hnext, h⟩ := bind_eq_ok.mp h
      obtain ⟨text, htext, hnext⟩ := bind_eq_ok.mp hnext
      obtain ⟨_, -, hnext⟩ := bind_eq_ok.mp hnext
      obtain rfl := pure_eq_ok.mp hnext
      obtain ⟨texts, htexts, hrects⟩ := ih (p + 1) _ h
      refine ⟨text :: texts, .cons htext htexts, ?_⟩
      rw [hrects, String.append_assoc]
      simp
  obtain ⟨texts, htexts, hrects⟩ := hloop parts 0 "" h
  exact ⟨texts, htexts, by rw [hrects, String.empty_append]⟩

/-! ## Colours -/

namespace SVGRenderer

theorem toHexString_eq (b₀ b₁ b₂ : UInt8) :
    toHexString b₀ b₁ b₂ = rgbToHex b₀.toNat b₁.toNat b₂.toNat := by
  have hsymbol : ∀ n, HEX_SYMBOLS.getD (n &&& 0xf) '0' = Nat.digitChar (n % 16) := by
    have hall : ∀ m < 16, HEX_SYMBOLS.getD m '0' = Nat.digitChar m := by
      decide +kernel
    intro n
    have hand : n &&& 0xf = n % 16 := Nat.and_two_pow_sub_one_eq_mod n 4
    rw [hand]
    exact hall _ (Nat.mod_lt n (by decide))
  have h₀ := b₀.toNat_lt
  have h₁ := b₁.toNat_lt
  have h₂ := b₂.toNat_lt
  rw [← String.toList_inj, rgbToHex, String.toList_append, String.toList_append, toList_toPaddedHex,
    toList_toPaddedHex, toList_toPaddedHex, hexDigits_of_lt _ h₀, hexDigits_of_lt _ h₁,
    hexDigits_of_lt _ h₂, toHexString]
  simp only [String.toList_ofList, hsymbol, Nat.shiftRight_eq_div_pow, List.cons_append,
    List.nil_append, List.cons.injEq, and_true]
  refine ⟨?_, ?_, ?_, ?_, ?_, ?_⟩
  all_goals
    congr 1
    omega

/-- The colour in the palette. -/
def colorAt (palette : Bytes) (index : Nat) : Option String := do
  return toHexString (← palette[index * 3]?) (← palette[index * 3 + 1]?) (← palette[index * 3 + 2]?)

/-- The cache holds colours of the palette. -/
structure Cached (palette : Bytes) (cache : List String) : Prop where
  length : cache.length = 256
  colors : ∀ i color, cache[i]? = some color → color = "" ∨ colorAt palette i = some color

theorem cached_empty (palette : Bytes) : Cached palette (List.replicate 256 "") := by
  refine ⟨List.length_replicate, fun i color h => .inl ?_⟩
  exact (List.mem_replicate.mp (List.mem_of_getElem? h)).2

theorem getColor_cases {palette : Bytes} {cache : List String} (hcache : Cached palette cache)
    {index : Nat} (hindex : index < 256) :
    (∃ color cache', colorAt palette index = some color ∧
      getColor palette index cache = .ok (color, cache') ∧ Cached palette cache') ∨
    (colorAt palette index = none ∧ getColor palette index cache = .error .panic) := by
  obtain ⟨color, hcolor⟩ : ∃ color, cache[index]? = some color :=
    ⟨_, List.getElem?_eq_getElem (by rw [hcache.length]; exact hindex)⟩
  have hget : getAt cache index = .ok color := getAt_eq_ok.mpr hcolor
  by_cases hempty : color = ""
  · -- The colour is read from the palette, if it is there.
    have hread : getColor palette index cache = (do
        let color := toHexString (← getAt palette (index * 3)) (← getAt palette (index * 3 + 1))
          (← getAt palette (index * 3 + 2))
        return (color, ← setAt cache index color)) := by
      rw [getColor, hget]
      exact if_pos hempty
    rw [hread, colorAt]
    have hbyte : ∀ i, (palette[i]? = none ∧ getAt palette i = .error .panic) ∨
        ∃ b, palette[i]? = some b ∧ getAt palette i = .ok b := by
      intro i
      unfold getAt
      cases palette[i]? with
      | none => exact .inl ⟨rfl, rfl⟩
      | some b => exact .inr ⟨b, rfl, rfl⟩
    obtain ⟨h₀, hget₀⟩ | ⟨b₀, h₀, hget₀⟩ := hbyte (index * 3)
    · rw [h₀, hget₀]
      exact .inr ⟨rfl, rfl⟩
    obtain ⟨h₁, hget₁⟩ | ⟨b₁, h₁, hget₁⟩ := hbyte (index * 3 + 1)
    · rw [h₀, h₁, hget₀, hget₁]
      exact .inr ⟨rfl, rfl⟩
    obtain ⟨h₂, hget₂⟩ | ⟨b₂, h₂, hget₂⟩ := hbyte (index * 3 + 2)
    · rw [h₀, h₁, h₂, hget₀, hget₁, hget₂]
      exact .inr ⟨rfl, rfl⟩
    have hset : setAt cache index (toHexString b₀ b₁ b₂) =
        .ok (cache.set index (toHexString b₀ b₁ b₂)) :=
      setAt_eq_ok.mpr ⟨by rw [hcache.length]; exact hindex, rfl⟩
    refine .inl ⟨toHexString b₀ b₁ b₂, cache.set index (toHexString b₀ b₁ b₂), ?_, ?_, ?_⟩
    · rw [h₀, h₁, h₂]
      rfl
    · rw [hget₀, hget₁, hget₂]
      change (setAt cache index (toHexString b₀ b₁ b₂) >>= fun cache' => _) = _
      rw [hset]
      rfl
    · refine ⟨by rw [List.length_set, hcache.length], fun i c hc => ?_⟩
      by_cases hi : index = i
      · subst hi
        rw [List.getElem?_set_self (by rw [hcache.length]; exact hindex)] at hc
        obtain rfl := Option.some.inj hc
        right
        rw [colorAt, h₀, h₁, h₂]
        rfl
      · rw [List.getElem?_set_ne hi] at hc
        exact hcache.colors i c hc
  · refine .inl ⟨color, cache, (hcache.colors index color hcolor).resolve_left hempty, ?_, hcache⟩
    rw [getColor, hget]
    exact if_neg hempty

end SVGRenderer

end Nouns
