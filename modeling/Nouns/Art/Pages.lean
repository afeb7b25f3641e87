import Nouns.Art.Blocks
import Nouns.Art.NounsArt

/-!
# Pages — an image and its index

The pages of a trait, one after the other, are the list of its images.
-/

open Fallible

namespace Nouns

/-! ## Adding pages -/

/-- The page a call adds. -/
def AddPage.page : AddPage → NounArtStoragePage
  | .encoded created _ decompressedLength imageCount => ⟨imageCount, decompressedLength, created⟩
  | .fromPointer pointer decompressedLength imageCount => ⟨imageCount, decompressedLength, pointer⟩

/-- The running sum of `getPage` ends at the number of images, and it does not overflow. -/
structure Trait.Counted (trait : Trait) : Prop where
  count : trait.storedImagesCount = (trait.storagePages.map NounArtStoragePage.imageCount).sum
  noOverflow : trait.storedImagesCount < 2 ^ 256

theorem Trait.empty_counted : Trait.empty.Counted := ⟨rfl, by decide⟩

theorem Trait.addPage_ok {trait trait' : Trait} {pointer : Address}
    {decompressedLength imageCount : Nat}
    (h : trait.addPage pointer decompressedLength imageCount = .ok trait') :
    trait'.storagePages = trait.storagePages ++ [⟨imageCount, decompressedLength, pointer⟩] ∧
      trait'.storedImagesCount = trait.storedImagesCount + imageCount ∧
      trait.storedImagesCount + imageCount < 2 ^ 256 := by
  simp only [addPage, bind_eq_ok, revertIf_eq_ok, checked_eq_ok, pure_eq_ok] at h
  obtain ⟨_, _, _, _, count, ⟨hlt, rfl⟩, rfl⟩ := h
  exact ⟨rfl, rfl, hlt⟩

namespace Art

variable {art art' : Art} {call : AddPage}

theorem addPage_ok (h : art.addPage call = .ok art') :
    art'.trait.storagePages = art.trait.storagePages ++ [call.page] ∧
      art'.trait.storedImagesCount = art.trait.storedImagesCount + call.page.imageCount ∧
      art.trait.storedImagesCount + call.page.imageCount < 2 ^ 256 := by
  cases call with
  | encoded created encodedCompressed decompressedLength imageCount =>
    simp only [addPage, addPageEncoded, SSTORE2.write, bind_eq_ok, require_eq_ok, revertIf_eq_ok,
      pure_eq_ok] at h
    obtain ⟨_, _, ⟨code, pointer⟩, ⟨_, _, hwrite⟩, trait, htrait, rfl⟩ := h
    obtain ⟨rfl, rfl⟩ := Prod.mk.inj hwrite
    exact Trait.addPage_ok htrait
  | fromPointer pointer decompressedLength imageCount =>
    simp only [addPage, bind_eq_ok, pure_eq_ok] at h
    obtain ⟨trait, htrait, rfl⟩ := h
    exact Trait.addPage_ok htrait

/-- The pages of the calls that do not revert. -/
def added (art : Art) : List AddPage → List NounArtStoragePage
  | [] => []
  | call :: calls =>
    match art.addPage call with
    | .ok art' => call.page :: added art' calls
    | .error _ => added art calls

theorem addPages_append (art : Art) (calls later : List AddPage) :
    art.addPages (calls ++ later) = (art.addPages calls).addPages later := by
  induction calls generalizing art with
  | nil => rfl
  | cons call calls ih =>
    rw [List.cons_append, addPages, addPages]
    cases art.addPage call with
    | error e => exact ih art
    | ok art' => exact ih art'

theorem addPages_storagePages (art : Art) (calls : List AddPage) :
    (art.addPages calls).trait.storagePages = art.trait.storagePages ++ art.added calls := by
  induction calls generalizing art with
  | nil => rw [addPages, added, List.append_nil]
  | cons call calls ih =>
    rw [addPages, added]
    cases hadd : art.addPage call with
    | error e => exact ih art
    | ok art' =>
      refine (ih art').trans ?_
      rw [(addPage_ok hadd).1, List.append_assoc, List.singleton_append]

theorem addPages_counted (h : art.trait.Counted) (calls : List AddPage) :
    (art.addPages calls).trait.Counted := by
  induction calls generalizing art with
  | nil => exact h
  | cons call calls ih =>
    rw [addPages]
    cases hadd : art.addPage call with
    | error e => exact ih h
    | ok art' =>
      obtain ⟨hpages, hcount, hlt⟩ := addPage_ok hadd
      refine ih ⟨?_, hcount.trans_lt hlt⟩
      rw [hcount, hpages, h.count, List.map_append, List.sum_append, List.map_singleton,
        List.sum_singleton]

end Art

/-! ## Finding a page -/

theorem getPage_eq {first index : Nat} {pages : List NounArtStoragePage} (hindex : first ≤ index)
    (hlt : first + (pages.map NounArtStoragePage.imageCount).sum < 2 ^ 256) :
    getPage first pages index =
      match Paging.locate NounArtStoragePage.imageCount pages (index - first) with
      | some found => .ok found
      | none => .error .ImageNotFound := by
  induction pages generalizing first with
  | nil => rfl
  | cons page pages ih =>
    rw [List.map_cons, List.sum_cons] at hlt
    have hnext : checked 256 (first + page.imageCount) = .ok (first + page.imageCount) :=
      checked_eq_ok.mpr ⟨by omega, rfl⟩
    have hsub : checkedSub index first = .ok (index - first) := checkedSub_eq_ok.mpr ⟨hindex, rfl⟩
    rw [getPage, hnext, Paging.locate]
    change (if index < first + page.imageCount then _ else _) = _
    by_cases hpage : index < first + page.imageCount
    · rw [if_pos hpage, if_pos (by omega), hsub]
      rfl
    · rw [if_neg hpage, if_neg (by omega), ih (by omega) (by omega), Nat.sub_add_eq]

namespace Reader

variable {r : Reader} {images : NounArtStoragePage → List Bytes} {trait : Trait}

/-- The pages are read as these images, as many as the pages say. -/
def Returns (r : Reader) (images : NounArtStoragePage → List Bytes)
    (pages : List NounArtStoragePage) : Prop :=
  ∀ page ∈ pages, r.decompressAndDecode page = .ok (images page) ∧
    (images page).length = page.imageCount

theorem decompressAndDecode_eq {page : NounArtStoragePage} {compressed output : Bytes}
    {err : Inflate.ErrorCode} (hread : SSTORE2.read r.code page.pointer = .ok compressed)
    (hpuff : r.puff compressed page.decompressedLength = .ok (err, output)) :
    r.decompressAndDecode page =
      match r.decode output with
      | some images => .ok images
      | none => .error .callFailed := by
  rw [decompressAndDecode, hread]
  change (r.puff compressed page.decompressedLength >>= _) = _
  rw [hpuff]
  rfl

theorem imageByIndex_eq (htrait : trait.Counted) (hr : r.Returns images trait.storagePages)
    (i : Nat) :
    r.imageByIndex trait i =
      match (trait.storagePages.flatMap images)[i]? with
      | some image => .ok image
      | none => .error .ImageNotFound := by
  have hlt : 0 + (trait.storagePages.map NounArtStoragePage.imageCount).sum < 2 ^ 256 := by
    rw [Nat.zero_add, ← htrait.count]
    exact htrait.noOverflow
  have hsize : ∀ page ∈ trait.storagePages, (images page).length = page.imageCount :=
    fun page hpage => (hr page hpage).2
  rw [imageByIndex, getPage_eq (Nat.zero_le i) hlt, Nat.sub_zero]
  cases hlocate : Paging.locate NounArtStoragePage.imageCount trait.storagePages i with
  | none =>
    have hend : (trait.storagePages.flatMap images).length ≤ i := by
      rw [List.length_flatMap, List.map_congr_left hsize]
      exact Paging.locate_eq_none.mp hlocate
    rw [List.getElem?_eq_none hend]
    rfl
  | some found =>
    obtain ⟨page, k⟩ := found
    obtain ⟨hpage, hk⟩ := Paging.mem_of_locate hlocate
    obtain ⟨hdecode, hlength⟩ := hr page hpage
    rw [Paging.getElem?_flatMap hsize hlocate]
    change (r.decompressAndDecode page >>= fun decompressedImages => getAt decompressedImages k) = _
    rw [hdecode]
    change getAt (images page) k = _
    rw [getAt, List.getElem?_eq_getElem (by omega)]

theorem length_images (htrait : trait.Counted) (hr : r.Returns images trait.storagePages) :
    (trait.storagePages.flatMap images).length = trait.storedImagesCount := by
  rw [List.length_flatMap, List.map_congr_left fun page hpage => (hr page hpage).2, htrait.count]

theorem imageByIndex_eq_ok (htrait : trait.Counted) (hr : r.Returns images trait.storagePages)
    {i : Nat} {image : Bytes} :
    r.imageByIndex trait i = .ok image ↔ (trait.storagePages.flatMap images)[i]? = some image := by
  rw [imageByIndex_eq htrait hr]
  cases (trait.storagePages.flatMap images)[i]? with
  | none => simp
  | some image' => simp

/-- The images of a trait are those of its pages in the order they were added, and an image stays
where it is when more pages are added. -/
theorem imageByIndex_of_added (code : Address → Bytes) (calls : List AddPage)
    (hr : r.Returns images (Art.added ⟨code, .empty⟩ calls)) :
    let trait := (Art.addPages ⟨code, .empty⟩ calls).trait
    (∀ i, (∃ image, r.imageByIndex trait i = .ok image) ↔ i < trait.storedImagesCount) ∧
      (∀ i image, r.imageByIndex trait i = .ok image ↔
        ((Art.added ⟨code, .empty⟩ calls).flatMap images)[i]? = some image) ∧
      ∀ (later : List AddPage) (r' : Reader),
        r'.Returns images (Art.added ⟨code, .empty⟩ (calls ++ later)) →
        ∀ i < trait.storedImagesCount,
          r'.imageByIndex (Art.addPages ⟨code, .empty⟩ (calls ++ later)).trait i =
            r.imageByIndex trait i := by
  intro trait
  have hpages : ∀ calls, (Art.addPages ⟨code, .empty⟩ calls).trait.storagePages =
      Art.added ⟨code, .empty⟩ calls := Art.addPages_storagePages ⟨code, .empty⟩
  have hcounted : ∀ calls, (Art.addPages ⟨code, .empty⟩ calls).trait.Counted :=
    Art.addPages_counted Trait.empty_counted
  have htrait : trait.Counted := hcounted calls
  have hr : r.Returns images trait.storagePages := (hpages calls).symm ▸ hr
  have hlength := length_images htrait hr
  refine ⟨?_, ?_, ?_⟩
  · intro i
    simp only [imageByIndex_eq_ok htrait hr, List.getElem?_eq_some_iff]
    rw [← hlength]
    exact ⟨fun ⟨_, hi, _⟩ => hi, fun hi => ⟨_, hi, rfl⟩⟩
  · intro i image
    rw [imageByIndex_eq_ok htrait hr, hpages calls]
  · intro later r' hr' i hi
    have hprefix : (Art.addPages ⟨code, .empty⟩ (calls ++ later)).trait.storagePages =
        trait.storagePages ++ (Art.addPages ⟨code, .empty⟩ calls).added later := by
      rw [Art.addPages_append, Art.addPages_storagePages]
    rw [← hpages] at hr'
    rw [imageByIndex_eq (hcounted _) hr', imageByIndex_eq htrait hr, hprefix,
      List.flatMap_append, List.getElem?_append_left (by rw [hlength]; exact hi)]

/-- The encoding of one image of two bytes. -/
def encodedImage (b₀ b₁ : UInt8) : Bytes :=
  Words.bytesOf 32 32 ++ Words.bytesOf 32 1 ++ Words.bytesOf 32 32 ++ Words.bytesOf 32 2 ++ [b₀, b₁] ++
    List.replicate 30 0

/-- As a single stored block. -/
def storedImage (b₀ b₁ : UInt8) : Bytes := 1 :: (Deflate.lengthBytes 160 ++ encodedImage b₀ b₁)

theorem storedImage_decompresses (b₀ b₁ : UInt8) :
    Deflate.Decompresses 30 (storedImage b₀ b₁) (encodedImage b₀ b₁) := by
  have hlength : (encodedImage b₀ b₁).length = 160 := rfl
  have hblock : Deflate.Block 30 (false :: false :: (List.replicate 5 false ++
      Bits.bytesBits (Deflate.lengthBytes (encodedImage b₀ b₁).length ++ encodedImage b₀ b₁ ++ [])))
      [] (Bits.bytesBits []) ([] ++ encodedImage b₀ b₁) :=
    .stored (by decide) (by rw [hlength]; decide)
  rw [hlength, List.append_nil] at hblock
  exact .last hblock

/-- Two pages of one image each, between them a call that reverts. -/
def sampleCalls : List AddPage :=
  [.encoded 5 (storedImage 7 8) 160 1, .encoded 6 [] 160 1, .encoded 6 (storedImage 9 10) 160 1]

def sample : Reader where
  code := (Art.addPages ⟨fun _ => [], .empty⟩ sampleCalls).code
  puff := Inflate.puff
  decode := Abi.decodeBytesArray

theorem sample_added : Art.added ⟨fun _ => [], .empty⟩ sampleCalls =
    [⟨1, 160, 5⟩, ⟨1, 160, 6⟩] := by
  decide +kernel

theorem sample_decompressAndDecode {page : NounArtStoragePage} {b₀ b₁ : UInt8}
    (hread : SSTORE2.read sample.code page.pointer = .ok (storedImage b₀ b₁))
    (hlength : page.decompressedLength = (encodedImage b₀ b₁).length)
    (hdecode : sample.decode (encodedImage b₀ b₁) = some [[b₀, b₁]]) :
    sample.decompressAndDecode page = .ok [[b₀, b₁]] := by
  obtain ⟨s', hinflate, houtput, -⟩ := Inflate.inflate_of_decompresses
    (storedImage_decompresses b₀ b₁)
  have hpuff : sample.puff (storedImage b₀ b₁) page.decompressedLength =
      .ok (.ERR_NONE, encodedImage b₀ b₁) := by
    rw [hlength, ← houtput]
    exact bind_eq_ok.mpr ⟨_, houtput ▸ hinflate, rfl⟩
  rw [decompressAndDecode_eq hread hpuff, hdecode]

theorem sample_returns : sample.Returns (fun page => if page.pointer = 5 then [[7, 8]] else [[9, 10]])
    (Art.added ⟨fun _ => [], .empty⟩ sampleCalls) := by
  rw [sample_added]
  intro page hpage
  simp only [List.mem_cons, List.not_mem_nil, or_false] at hpage
  rcases hpage with rfl | rfl
  · exact ⟨sample_decompressAndDecode (by decide +kernel) rfl (by decide +kernel), rfl⟩
  · exact ⟨sample_decompressAndDecode (by decide +kernel) rfl (by decide +kernel), rfl⟩

/-- Images 0 and 1 of the sample. -/
theorem imageByIndex_of_added_sample :
    let trait := (Art.addPages ⟨fun _ => [], .empty⟩ sampleCalls).trait
    trait.storedImagesCount = 2 ∧ sample.imageByIndex trait 0 = .ok [7, 8] ∧
      sample.imageByIndex trait 1 = .ok [9, 10] := by
  have h := imageByIndex_of_added (fun _ => []) sampleCalls sample_returns
  refine ⟨by decide +kernel, (h.2.1 0 [7, 8]).mpr ?_, (h.2.1 1 [9, 10]).mpr ?_⟩ <;>
  · rw [sample_added]
    rfl

end Reader

end Nouns
