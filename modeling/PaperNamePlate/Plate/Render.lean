import PaperNamePlate.Epd.FrameBuffer
import PaperNamePlate.Plate.Limits

/-!
# Drawing an image

The renderer indexes the rows of an image without a check, so it relies on the
decoders: whatever they accept fits the panel and carries exactly its rows. An index
out of the bits or out of a plane is a `none`; texts and rectangles are left out.
-/
namespace PaperNamePlate

open Embedded Epd

/-! ## What the decoders accept -/

namespace MonoImage

theorem sized_of_checked {width height : UInt16} {bits : List UInt8}
    (hin : ¬ (width = 0 ∨ height = 0 ∨ width > 480 ∨ height > 800))
    (hbits : bits.length = (width.toNat + 7) / 8 * height.toNat) : Sized ⟨width, height, bits⟩ := by
  simp only [not_or, gt_iff_lt, ← UInt16.toNat_inj, UInt16.lt_iff_toNat_lt] at hin
  obtain ⟨hw, hh, hw', hh'⟩ := hin
  exact ⟨Nat.pos_of_ne_zero hw, Nat.not_lt.mp hw', Nat.pos_of_ne_zero hh, Nat.not_lt.mp hh', hbits⟩

/-- The bounds of the checked sub-slice are the length test of the other decoder. -/
theorem decode_eq_decodeOwned (payload : List UInt8) : decode payload = decodeOwned payload := by
  unfold decode decodeOwned
  split
  · next w0 w1 h0 h1 rest =>
    dsimp only
    split
    · rfl
    · split
      · next hshort =>
        rw [slice?, if_neg (fun hfits => Nat.not_lt.mpr hfits.2 hshort)]
        rfl
      · next hlong =>
        rw [slice?, if_pos ⟨Nat.le_add_right 4 _, Nat.not_lt.mp hlong⟩, Nat.add_sub_cancel_left]
        rfl
  · rfl

theorem decodeOwned_sized {payload : List UInt8} {img : MonoImage}
    (h : decodeOwned payload = some img) : img.Sized := by
  unfold decodeOwned at h
  split at h
  · dsimp only at h
    split at h
    · cases h
    · next hin =>
      split at h
      · cases h
      · next hlen =>
        cases h
        refine sized_of_checked hin ?_
        rw [List.length_take, List.length_drop]
        omega
  · cases h

theorem decode_sized {payload : List UInt8} {img : MonoImage} (h : decode payload = some img) :
    img.Sized := by
  rw [decode_eq_decodeOwned] at h
  exact decodeOwned_sized h

theorem encode_prefix_of_decodeOwned {payload : List UInt8} {img : MonoImage}
    (h : decodeOwned payload = some img) : img.encode <+: payload := by
  unfold decodeOwned at h
  split at h
  · dsimp only at h
    split at h
    · cases h
    · split at h
      · cases h
      · cases h
        rw [encode, u16ToLe_ofLe, u16ToLe_ofLe]
        exact (List.prefix_append_right_inj _).mpr (List.take_prefix _ _)
  · cases h

/-- Both decoders accept the same payloads, which are the encodings of well-formed images with
anything after them. -/
theorem codec_agrees :
    (∀ payload, decode payload = decodeOwned payload) ∧
    (∀ (img : MonoImage) (t : List UInt8), img.Sized → decode (img.encode ++ t) = some img) ∧
    ∀ (payload : List UInt8) (img : MonoImage), decode payload = some img →
      img.encode <+: payload := by
  refine ⟨decode_eq_decodeOwned, ?_, ?_⟩
  · intro img t hsized
    rw [decode_eq_decodeOwned]
    exact decodeOwned_encode_append hsized t
  · intro payload img h
    rw [decode_eq_decodeOwned] at h
    exact encode_prefix_of_decodeOwned h

theorem codec_agrees_row :
    decode ([9, 0, 1, 0, 0xAA, 0x80] ++ [0x55]) = some ⟨9, 1, [0xAA, 0x80]⟩ ∧
      encode ⟨9, 1, [0xAA, 0x80]⟩ <+: [9, 0, 1, 0, 0xAA, 0x80, 0x55] := by
  have hsized : Sized ⟨9, 1, [0xAA, 0x80]⟩ :=
    ⟨by decide, by decide, by decide, by decide, by decide⟩
  have hdecode := codec_agrees.2.1 ⟨9, 1, [0xAA, 0x80]⟩ [0x55] hsized
  exact ⟨hdecode, codec_agrees.2.2 _ _ hdecode⟩

end MonoImage

namespace PlateContent

/-- An image on the plate is well formed. -/
def Pictured (c : PlateContent) : Prop := ∀ img ∈ c.image, img.Sized

theorem imageOf_sized {r : Ndef.Record} {img : MonoImage} (h : imageOf r = some img) :
    img.Sized := by
  unfold imageOf at h
  split at h
  · obtain ⟨raw, -, hraw⟩ := Option.bind_eq_some_iff.mp h
    exact MonoImage.decode_sized hraw
  · cases h

/-- A message, raw or in base64, brings well-formed images only. -/
theorem Pictured.applyNdef {c : PlateContent} (h : c.Pictured) (msg : List UInt8) :
    (c.applyNdef msg).Pictured := by
  intro img himg
  rw [Option.mem_def, applyNdef_image, Option.or_eq_some_iff] at himg
  rcases himg with hlast | ⟨-, himage⟩
  · obtain ⟨r, -, hr⟩ := List.mem_filterMap.mp (List.mem_of_getLast? hlast)
    exact imageOf_sized hr
  · exact h img himage

end PlateContent

/-! ## Drawing -/

/-- Draw a black square of `scale` pixels. -/
def drawDot (fb : FrameBuffer) (x y scale : Int32) : Option FrameBuffer :=
  (List.range scale.toNatClampNeg).foldlM (fun fb dy =>
    (List.range scale.toNatClampNeg).foldlM (fun fb dx =>
      fb.setPixel (x + Int32.ofNat dx) (y + Int32.ofNat dy) 0) fb) fb

/-- Draw `img` centered at (`cx`, `cy`), black pixels only. -/
def drawImage (fb : FrameBuffer) (img : MonoImage) (cx cy scale : Int32) : Option FrameBuffer :=
  let x0 := cx - Int32.ofNat img.width.toNat * scale / 2
  let y0 := cy - Int32.ofNat img.height.toNat * scale / 2
  let rb := img.rowBytes
  (List.range img.height.toNat).foldlM (fun fb y =>
    (List.range img.width.toNat).foldlM (fun fb x => do
      let byte ← img.bits[y * rb + x / 8]?
      if bitAt byte (x % 8) then
        drawDot fb (x0 + Int32.ofNat x * scale) (y0 + Int32.ofNat y * scale) scale
      else some fb) fb) fb

/-- A loop whose body does not fail does not fail. -/
theorem foldlM_isSome {α β : Type*} {f : β → α → Option β} {xs : List α} (b : β)
    (h : ∀ b, ∀ a ∈ xs, (f b a).isSome) : (xs.foldlM f b).isSome := by
  induction xs generalizing b with
  | nil => rfl
  | cons a xs ih =>
    obtain ⟨b', hb⟩ := Option.isSome_iff_exists.mp (h b a List.mem_cons_self)
    rw [List.foldlM_cons, hb]
    exact ih b' fun b a ha => h b a (List.mem_cons_of_mem _ ha)

theorem drawDot_isSome (fb : FrameBuffer) (x y scale : Int32) : (drawDot fb x y scale).isSome :=
  foldlM_isSome fb fun fb _ _ => foldlM_isSome fb fun fb _ _ => fb.setPixel_isSome _ _ _

/-- The byte of a pixel is one of the image's bits. -/
theorem MonoImage.Sized.index_lt {img : MonoImage} (h : img.Sized) {x y : Nat}
    (hx : x < img.width.toNat) (hy : y < img.height.toNat) :
    y * img.rowBytes + x / 8 < img.bits.length := by
  have hcol : x / 8 < img.rowBytes := by
    unfold rowBytes
    omega
  calc y * img.rowBytes + x / 8 < y * img.rowBytes + img.rowBytes := by omega
    _ = (y + 1) * img.rowBytes := (Nat.succ_mul y img.rowBytes).symm
    _ ≤ img.height.toNat * img.rowBytes := Nat.mul_le_mul_right _ hy
    _ = img.bits.length := by rw [h.bits, Nat.mul_comm]

theorem drawImage_isSome {img : MonoImage} (h : img.Sized) (fb : FrameBuffer)
    (cx cy scale : Int32) :
    (drawImage fb img cx cy scale).isSome := by
  refine foldlM_isSome fb fun fb y hy => foldlM_isSome fb fun fb x hx => ?_
  have hidx := h.index_lt (List.mem_range.mp hx) (List.mem_range.mp hy)
  rw [List.getElem?_eq_getElem hidx]
  change (if bitAt _ _ then _ else some fb : Option FrameBuffer).isSome
  split
  · exact drawDot_isSome _ _ _ _
  · rfl

end PaperNamePlate
