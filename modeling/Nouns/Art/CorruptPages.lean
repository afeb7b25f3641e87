import Nouns.Art.Filling
import Nouns.Art.Pages

/-!
# CorruptPages — pages that do not decompress

`decompressAndDecode` does not look at the error code of the inflator, and decodes the bytes that are
there when it stops, with zeros up to the length the page says.
-/

open Fallible Bits

namespace Nouns

/-! ## What is there when the inflator stops -/

namespace Inflate

/-- The stream ends with an error, or before `destlen` bytes, after it has yielded these. -/
def StopsEarly (source : Bytes) (destlen : Nat) (yielded : Bytes) : Prop :=
  ∃ result s, inflate source destlen = .ok (result, s) ∧ yielded = s.output.take s.outcnt ∧
    ((∃ err, result = .error err) ∨ yielded.length < destlen)

/-- The bytes that are yielded, and zeros. -/
def zeroFilled (destlen : Nat) (yielded : Bytes) : Bytes :=
  yielded ++ List.replicate (destlen - yielded.length) 0

theorem output_eq_zeroFilled {source : Bytes} {destlen : Nat} {result : Except ErrorCode Unit}
    {s : State} (h : inflate source destlen = .ok (result, s)) :
    s.output = zeroFilled destlen (s.output.take s.outcnt) ∧ s.outcnt ≤ destlen := by
  obtain ⟨⟨lencode, distcode⟩, -, hrun⟩ := bind_eq_ok.mp h
  let s₀ : State := ⟨List.replicate destlen 0, 0, source, 0, 0, 0, lencode, distcode⟩
  have hlength : s₀.output.length = destlen := List.length_replicate
  have hstart : s₀.Filled [] := ⟨rfl, Nat.zero_le _, by
    rw [List.nil_append, List.length_nil, Nat.sub_zero, hlength]⟩
  have hadvances : Advances s₀ s := (forward_blocks _ s₀ _ _ hrun).advances
  obtain ⟨written, houtcnt, hle, houtput⟩ := hadvances.filled [] hstart
  rw [hadvances.output, hlength] at hle houtput
  rw [List.nil_append] at houtcnt hle houtput
  have htake : s.output.take s.outcnt = written := by
    rw [houtput, houtcnt, List.take_left]
  rw [htake]
  exact ⟨houtput, by omega⟩

theorem puff_of_inflate {source : Bytes} {destlen : Nat} {result : Except ErrorCode Unit}
    {s : State} (h : inflate source destlen = .ok (result, s)) :
    ∃ err, puff source destlen = .ok (err, s.output) := by
  rw [puff, h]
  cases result with
  | ok _ => exact ⟨.ERR_NONE, rfl⟩
  | error err => exact ⟨err, rfl⟩

end Inflate

/-! ## Reading an image of such a page -/

namespace Reader

/-- The reader with the inflator of the repository. -/
def ofCode (code : Address → Bytes) : Reader where
  code := code
  puff := Inflate.puff
  decode := Abi.decodeBytesArray

/-- The page's bytes do not decompress to the length it says: they yield these before they stop. -/
def Corrupt (code : Address → Bytes) (page : NounArtStoragePage) (yielded : Bytes) : Prop :=
  ∃ compressed, SSTORE2.read code page.pointer = .ok compressed ∧
    Inflate.StopsEarly compressed page.decompressedLength yielded

theorem decompressAndDecode_of_corrupt {code : Address → Bytes} {page : NounArtStoragePage}
    {yielded : Bytes} (h : Corrupt code page yielded) :
    (ofCode code).decompressAndDecode page =
      match Abi.decodeBytesArray (Inflate.zeroFilled page.decompressedLength yielded) with
      | some images => .ok images
      | none => .error .callFailed := by
  obtain ⟨compressed, hread, result, s, hinflate, rfl, -⟩ := h
  obtain ⟨err, hpuff⟩ := Inflate.puff_of_inflate hinflate
  rw [← (Inflate.output_eq_zeroFilled hinflate).1]
  exact @decompressAndDecode_eq (ofCode code) page compressed s.output err hread hpuff

theorem imageByIndex_of_page {r : Reader} {trait : Trait} {index k : Nat}
    {page : NounArtStoragePage} (hpage : getPage 0 trait.storagePages index = .ok (page, k)) :
    r.imageByIndex trait index = (do getAt (← r.decompressAndDecode page) k) := by
  rw [imageByIndex, hpage]
  rfl

/-- A corrupt page is refused exactly if what it yields, with the zeros, does not decode to an array
that has the image. -/
theorem imageByIndex_refuses_iff (code : Address → Bytes) (trait : Trait) (index k : Nat)
    (page : NounArtStoragePage) (hpage : getPage 0 trait.storagePages index = .ok (page, k)) :
    ((∃ yielded, Corrupt code page yielded) →
        ∃ e, (ofCode code).imageByIndex trait index = .error e) ↔
      ∀ yielded, Corrupt code page yielded → ∀ images,
        Abi.decodeBytesArray (Inflate.zeroFilled page.decompressedLength yielded) = some images →
          images.length ≤ k := by
  rw [imageByIndex_of_page hpage]
  refine ⟨fun hrefuses yielded hcorrupt images hdecode => ?_, fun hshort hsome => ?_⟩
  · obtain ⟨e, he⟩ := hrefuses ⟨yielded, hcorrupt⟩
    rw [decompressAndDecode_of_corrupt hcorrupt, hdecode] at he
    by_contra hlt
    change getAt images k = _ at he
    rw [getAt, List.getElem?_eq_getElem (by omega)] at he
    cases he
  · obtain ⟨yielded, hcorrupt⟩ := hsome
    rw [decompressAndDecode_of_corrupt hcorrupt]
    cases hdecode : Abi.decodeBytesArray (Inflate.zeroFilled page.decompressedLength yielded) with
    | none => exact ⟨_, rfl⟩
    | some images =>
      refine ⟨.panic, ?_⟩
      change getAt images k = _
      rw [getAt, List.getElem?_eq_none (hshort yielded hcorrupt images hdecode)]

/-! ## An image of zeros -/

/-- The encoding of one image of two bytes, without the image, in a block that is not the last
one. -/
def truncatedImage : Bytes := 0 :: (Deflate.lengthBytes 128 ++ (encodedImage 7 8).take 128)

theorem truncatedImage_stopsEarly :
    Inflate.StopsEarly truncatedImage 160 ((encodedImage 7 8).take 128) := by
  obtain ⟨c, s, hc, hdestlen, hs, hinflate⟩ := Inflate.inflate_start truncatedImage 160
  have hlength : ((encodedImage 7 8).take 128).length = 128 := rfl
  have hbits : bytesBits truncatedImage = false :: ([false, false] ++ (List.replicate 5 false ++
      bytesBits (Deflate.lengthBytes ((encodedImage 7 8).take 128).length ++
        (encodedImage 7 8).take 128 ++ []))) := by
    rw [hlength, List.append_nil]
    rfl
  rw [hbits] at hs
  obtain ⟨s₁, hrun₁, hs₁⟩ := Inflate.Setting.parses_bit false s hs
  obtain ⟨s₂, hrun₂, hs₂⟩ :=
    Inflate.Setting.parses_bits (show [false, false].length = 2 from rfl) s₁ hs₁
  obtain ⟨s₃, hrun₃, hs₃⟩ := Inflate.Setting.parses_stored (by decide) (by rw [hlength]; decide)
    (by rw [hlength, hdestlen]; decide) s₂ hs₂
  -- The block is followed by nothing.
  have hstops : ∀ fuel, Inflate.Stops (Inflate.blocks (fuel + 2)) s .ERR_NOT_TERMINATED s₃ := fun _ =>
    hrun₁.stops (hrun₂.stops (hrun₃.stops
      ((Inflate.Setting.stops_bits Nat.one_pos hs₃).bind _)))
  rw [show truncatedImage.length = 133 from rfl] at hinflate
  have hyielded := hs₃.take_output.symm
  rw [List.nil_append] at hyielded
  exact ⟨_, s₃, hinflate.trans (hstops 1063), hyielded, Or.inl ⟨_, rfl⟩⟩

/-- The trait with this page. -/
def truncatedArt : Art := Art.addPages ⟨fun _ => [], .empty⟩ [.encoded 5 truncatedImage 160 1]

theorem truncatedArt_page : getPage 0 truncatedArt.trait.storagePages 0 = .ok (⟨1, 160, 5⟩, 0) := by
  decide +kernel

theorem truncatedArt_corrupt :
    Corrupt truncatedArt.code ⟨1, 160, 5⟩ ((encodedImage 7 8).take 128) :=
  ⟨truncatedImage, by decide +kernel, truncatedImage_stopsEarly⟩

theorem truncatedArt_imageByIndex :
    (ofCode truncatedArt.code).imageByIndex truncatedArt.trait 0 = .ok [0, 0] := by
  have hdecode : Abi.decodeBytesArray (Inflate.zeroFilled 160 ((encodedImage 7 8).take 128)) =
      some [[0, 0]] := by
    decide +kernel
  rw [imageByIndex_of_page truncatedArt_page, decompressAndDecode_of_corrupt truncatedArt_corrupt]
  dsimp only
  rw [hdecode]
  rfl

theorem imageByIndex_refuses_iff_sample :
    ((∃ yielded, Corrupt truncatedArt.code ⟨1, 160, 5⟩ yielded) →
        ∃ e, (ofCode truncatedArt.code).imageByIndex truncatedArt.trait 0 = .error e) ↔
      ∀ yielded, Corrupt truncatedArt.code ⟨1, 160, 5⟩ yielded → ∀ images,
        Abi.decodeBytesArray (Inflate.zeroFilled 160 yielded) = some images → images.length ≤ 0 :=
  imageByIndex_refuses_iff truncatedArt.code truncatedArt.trait 0 0 ⟨1, 160, 5⟩ truncatedArt_page

/-- The bytes end after a block that is not the last one, and the image is read as zeros. -/
theorem truncatedImage_not_refused :
    ¬ ∀ (code : Address → Bytes) (trait : Trait) (index k : Nat) (page : NounArtStoragePage),
      getPage 0 trait.storagePages index = .ok (page, k) → (∃ yielded, Corrupt code page yielded) →
        ∃ e, (ofCode code).imageByIndex trait index = .error e := by
  intro hall
  obtain ⟨e, he⟩ := hall truncatedArt.code truncatedArt.trait 0 0 ⟨1, 160, 5⟩ truncatedArt_page
    ⟨_, truncatedArt_corrupt⟩
  rw [truncatedArt_imageByIndex] at he
  nomatch he

end Reader

end Nouns
