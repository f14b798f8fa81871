import PaperNamePlate.Plate.Render

/-!
# What `draw_image` paints

A dot paints the part of its square that is on the screen, and the image the dots of its set
bits. A pixel of the screen is in the dot of the image's pixel that is its preimage.
-/
namespace PaperNamePlate

open Embedded Epd

/-! ## Coordinates -/

theorem toInt_add_of_range {a b : Int32}
    (h : -2 ^ 31 ≤ a.toInt + b.toInt ∧ a.toInt + b.toInt < 2 ^ 31) :
    (a + b).toInt = a.toInt + b.toInt := by
  rw [Int32.toInt_add]
  exact Int.bmod_eq_of_le h.1 h.2

theorem toInt_sub_of_range {a b : Int32}
    (h : -2 ^ 31 ≤ a.toInt - b.toInt ∧ a.toInt - b.toInt < 2 ^ 31) :
    (a - b).toInt = a.toInt - b.toInt := by
  rw [Int32.toInt_sub]
  exact Int.bmod_eq_of_le h.1 h.2

theorem toInt_mul_of_range {n : Nat} {b : Int32} (hn : n < 2 ^ 31) (hb : 0 ≤ b.toInt)
    (h : n * b.toInt < 2 ^ 31) : (Int32.ofNat n * b).toInt = n * b.toInt := by
  have hpos : 0 ≤ (n : Int) * b.toInt := Int.mul_nonneg (Int.natCast_nonneg n) hb
  rw [Int32.toInt_mul, Int32.toInt_ofNat_of_lt hn]
  exact Int.bmod_eq_of_le (by omega) h

/-- The top or the left edge of an image centred at `c`. -/
theorem toInt_origin {n : Nat} {c scale : Int32} (hn : n < 2 ^ 31) (hscale : 0 ≤ scale.toInt)
    (h : n * scale.toInt < 2 ^ 31) (hc : 0 ≤ c.toInt) :
    (c - Int32.ofNat n * scale / 2).toInt = c.toInt - n * scale.toInt / 2 := by
  have hpos : 0 ≤ (n : Int) * scale.toInt := Int.mul_nonneg (Int.natCast_nonneg n) hscale
  have hlt := c.toInt_lt
  have hhalf : (Int32.ofNat n * scale / 2).toInt = n * scale.toInt / 2 := by
    rw [Int32.toInt_div_of_ne_right _ _ (by decide), toInt_mul_of_range hn hscale h]
    exact Int.tdiv_eq_ediv_of_nonneg hpos
  rw [toInt_sub_of_range (by omega), hhalf]

theorem mul_add_le {n i : Nat} {s : Int} (h : i < n) (hs : 0 ≤ s) : i * s + s ≤ n * s := by
  have hle : ((i + 1 : Nat) : Int) * s ≤ n * s := Int.mul_le_mul_of_nonneg_right (by omega) hs
  rwa [Int.natCast_succ, Int.add_mul, Int.one_mul] at hle

/-- The top or the left edge of one of the image's pixels, which ends inside of `i32`. -/
theorem toInt_corner {n i : Nat} {c scale : Int32} (hi : i < n) (hn : n < 2 ^ 31)
    (hscale : 0 ≤ scale.toInt) (h : n * scale.toInt < 2 ^ 31)
    (hc : 0 ≤ c.toInt ∧ c.toInt < 2 ^ 30) :
    (c - Int32.ofNat n * scale / 2 + Int32.ofNat i * scale).toInt =
        c.toInt - n * scale.toInt / 2 + i * scale.toInt ∧
      c.toInt - n * scale.toInt / 2 + i * scale.toInt + scale.toInt ≤ 2 ^ 31 := by
  have horigin := toInt_origin hn hscale h hc.1
  have hend := mul_add_le hi hscale
  have hpos : 0 ≤ (i : Int) * scale.toInt := Int.mul_nonneg (Int.natCast_nonneg i) hscale
  have hprod := toInt_mul_of_range (n := i) (b := scale) (by omega) hscale (by omega)
  constructor
  · rw [toInt_add_of_range (by omega), horigin, hprod]
  · omega

/-- The pixel of the image in which a coordinate lies. -/
theorem ediv_eq_iff {a i s : Int} (hs : 0 < s) : a / s = i ↔ i * s ≤ a ∧ a < i * s + s := by
  have hle : i ≤ a / s ↔ i * s ≤ a := Int.le_ediv_iff_mul_le hs
  have hlt : a / s < i + 1 ↔ a < (i + 1) * s := Int.ediv_lt_iff_lt_mul hs
  rw [Int.add_mul, Int.one_mul] at hlt
  omega

/-! ## Pixels -/

/-- The pixels of the screen. -/
abbrev Pixel : Type := Fin WIDTH × Fin HEIGHT

def pixels (fb : FrameBuffer) (p : Pixel) : Nat := fb.getPixel p.1 p.2

/-- The part of a square that is on the screen. -/
def square (x y size : Int) : Set Pixel :=
  {p | (x ≤ p.1 ∧ p.1 < x + size) ∧ y ≤ p.2 ∧ p.2 < y + size}

theorem setPixel_overwrites (fb : FrameBuffer) (x y : Int32) (level : UInt8) :
    ∃ fb', fb.setPixel x y level = some fb' ∧ fb'.orientation = fb.orientation ∧
      Overwrites (level.toNat % 4) {p : Pixel | x.toInt = p.1 ∧ y.toInt = p.2} (pixels fb)
        (pixels fb') := by
  obtain ⟨fb', hset, ho, hpix⟩ := fb.setPixel_eq x y level
  refine ⟨fb', hset, ho, ?_, ?_⟩
  · intro p hp
    exact (hpix p.1 p.2 p.1.isLt p.2.isLt).trans (if_pos hp)
  · intro p hp
    exact (hpix p.1 p.2 p.1.isLt p.2.isLt).trans (if_neg hp)

/-- A dot is a square. -/
theorem drawDot_overwrites {o : Orientation} {fb : FrameBuffer} (ho : fb.orientation = o)
    {x y scale : Int32} (hx : x.toInt + scale.toInt ≤ 2 ^ 31)
    (hy : y.toInt + scale.toInt ≤ 2 ^ 31) :
    ∃ fb', drawDot fb x y scale = some fb' ∧ fb'.orientation = o ∧
      Overwrites 0 (square x.toInt y.toInt scale.toInt) (pixels fb) (pixels fb') := by
  have hscale : scale.toNatClampNeg = scale.toInt.toNat := rfl
  have hstep : ∀ (a : Int32) (d : Nat), a.toInt + scale.toInt ≤ 2 ^ 31 → d < scale.toNatClampNeg →
      (a + Int32.ofNat d).toInt = a.toInt + d := by
    intro a d ha hd
    have hle := a.le_toInt
    have hlt := scale.toInt_lt
    have hof : (Int32.ofNat d).toInt = d := Int32.toInt_ofNat_of_lt (by omega)
    rw [toInt_add_of_range (by omega), hof]
  have hrow : ∀ dy ∈ List.range scale.toNatClampNeg, ∀ fb : FrameBuffer, fb.orientation = o →
      ∃ fb', (List.range scale.toNatClampNeg).foldlM (fun fb dx =>
          fb.setPixel (x + Int32.ofNat dx) (y + Int32.ofNat dy) 0) fb = some fb' ∧
        fb'.orientation = o ∧
        Overwrites 0 {p : Pixel | ∃ dx ∈ List.range scale.toNatClampNeg,
          (x + Int32.ofNat dx).toInt = p.1 ∧ (y + Int32.ofNat dy).toInt = p.2} (pixels fb)
          (pixels fb') := by
    intro dy _ fb hfb
    refine foldlM_overwrites (fun dx _ fb hfb => ?_) hfb
    obtain ⟨fb', hset, ho', hover⟩ :=
      setPixel_overwrites fb (x + Int32.ofNat dx) (y + Int32.ofNat dy) 0
    exact ⟨fb', hset, ho'.trans hfb, hover⟩
  obtain ⟨fb', hdraw, ho', hover⟩ := foldlM_overwrites hrow ho
  refine ⟨fb', hdraw, ho', ?_⟩
  convert hover using 1
  ext p
  constructor
  · rintro ⟨⟨hx1, hx2⟩, hy1, hy2⟩
    obtain ⟨dx, hdx⟩ := Int.eq_ofNat_of_zero_le (Int.sub_nonneg_of_le hx1)
    obtain ⟨dy, hdy⟩ := Int.eq_ofNat_of_zero_le (Int.sub_nonneg_of_le hy1)
    refine ⟨dy, List.mem_range.mpr (by omega), dx, List.mem_range.mpr (by omega), ?_, ?_⟩
    · rw [hstep x dx hx (by omega)]
      omega
    · rw [hstep y dy hy (by omega)]
      omega
  · rintro ⟨dy, hdy, dx, hdx, hpx, hpy⟩
    rw [List.mem_range] at hdx hdy
    rw [hstep x dx hx hdx] at hpx
    rw [hstep y dy hy hdy] at hpy
    exact ⟨by omega, by omega⟩

/-! ## Images -/

namespace MonoImage

/-- The bit of a pixel: rows padded to whole bytes, MSB first. -/
def bit (img : MonoImage) (x y : Nat) : Bool :=
  bitAt (img.bits.getD (y * img.rowBytes + x / 8) 0) (x % 8)

/-- The point is in the image and its bit is set. -/
def Black (img : MonoImage) (x y : Int) : Prop :=
  (0 ≤ x ∧ x < img.width.toNat) ∧ (0 ≤ y ∧ y < img.height.toNat) ∧ img.bit x.toNat y.toNat

instance (img : MonoImage) (x y : Int) : Decidable (img.Black x y) := by
  unfold Black
  infer_instance

end MonoImage

/-- The screen's pixels with a black preimage, for the image's left edge `x0` and top edge `y0`. -/
def painted (img : MonoImage) (x0 y0 scale : Int) : Set Pixel :=
  {p | img.Black ((p.1 - x0) / scale) ((p.2 - y0) / scale)}

/-- The pixels that one pixel of the image paints. -/
def dot (img : MonoImage) (x0 y0 scale : Int) (x y : Nat) : Set Pixel :=
  if img.bit x y then square (x0 + x * scale) (y0 + y * scale) scale else ∅

theorem mem_dot_iff {img : MonoImage} {x0 y0 scale : Int} (hscale : 0 < scale) {x y : Nat}
    {p : Pixel} :
    p ∈ dot img x0 y0 scale x y ↔
      img.bit x y ∧ (p.1 - x0) / scale = x ∧ (p.2 - y0) / scale = y := by
  have hsquare : p ∈ square (x0 + x * scale) (y0 + y * scale) scale ↔
      (p.1 - x0) / scale = x ∧ (p.2 - y0) / scale = y := by
    rw [ediv_eq_iff hscale, ediv_eq_iff hscale]
    change (_ ∧ _) ∧ _ ∧ _ ↔ _
    omega
  unfold dot
  split
  · next h => simpa [h] using hsquare
  · next h => simp [h]

theorem mem_painted_iff {img : MonoImage} {x0 y0 scale : Int} (hscale : 0 < scale) {p : Pixel} :
    p ∈ painted img x0 y0 scale ↔ ∃ y ∈ List.range img.height.toNat,
      ∃ x ∈ List.range img.width.toNat, p ∈ dot img x0 y0 scale x y := by
  constructor
  · rintro ⟨⟨hx, hx'⟩, ⟨hy, hy'⟩, hbit⟩
    obtain ⟨x, hxn⟩ := Int.eq_ofNat_of_zero_le hx
    obtain ⟨y, hyn⟩ := Int.eq_ofNat_of_zero_le hy
    rw [hxn, hyn] at hbit
    exact ⟨y, List.mem_range.mpr (by omega), x, List.mem_range.mpr (by omega),
      (mem_dot_iff hscale).mpr ⟨hbit, hxn, hyn⟩⟩
  · rintro ⟨y, hy, x, hx, hp⟩
    rw [List.mem_range] at hx hy
    obtain ⟨hbit, hxn, hyn⟩ := (mem_dot_iff hscale).mp hp
    refine ⟨⟨by omega, by omega⟩, ⟨by omega, by omega⟩, ?_⟩
    rwa [hxn, hyn]

theorem drawImage_overwrites (fb : FrameBuffer) {img : MonoImage} (himg : img.Sized)
    {cx cy scale : Int32} (hcx : 0 ≤ cx.toInt ∧ cx.toInt < 2 ^ 30)
    (hcy : 0 ≤ cy.toInt ∧ cy.toInt < 2 ^ 30) (hscale : 0 < scale.toInt)
    (hwidth : img.width.toNat * scale.toInt < 2 ^ 31)
    (hheight : img.height.toNat * scale.toInt < 2 ^ 31) :
    ∃ fb', drawImage fb img cx cy scale = some fb' ∧ fb'.orientation = fb.orientation ∧
      Overwrites 0 (painted img (cx.toInt - img.width.toNat * scale.toInt / 2)
        (cy.toInt - img.height.toNat * scale.toInt / 2) scale.toInt) (pixels fb) (pixels fb') := by
  have hw := img.width.toNat_lt
  have hh := img.height.toNat_lt
  obtain ⟨x0, hx0⟩ : ∃ x0, x0 = cx.toInt - img.width.toNat * scale.toInt / 2 := ⟨_, rfl⟩
  obtain ⟨y0, hy0⟩ : ∃ y0, y0 = cy.toInt - img.height.toNat * scale.toInt / 2 := ⟨_, rfl⟩
  rw [← hx0, ← hy0]
  have hrow : ∀ y ∈ List.range img.height.toNat, ∀ f : FrameBuffer, f.orientation = fb.orientation →
      ∃ f', (List.range img.width.toNat).foldlM (fun f x => do
          let byte ← img.bits[y * img.rowBytes + x / 8]?
          if bitAt byte (x % 8) then
            drawDot f (cx - Int32.ofNat img.width.toNat * scale / 2 + Int32.ofNat x * scale)
              (cy - Int32.ofNat img.height.toNat * scale / 2 + Int32.ofNat y * scale) scale
          else some f) f = some f' ∧ f'.orientation = fb.orientation ∧
        Overwrites 0 {p | ∃ x ∈ List.range img.width.toNat, p ∈ dot img x0 y0 scale.toInt x y}
          (pixels f) (pixels f') := by
    intro y hy f hf
    refine foldlM_overwrites (fun x hx f hf => ?_) hf
    rw [List.mem_range] at hx hy
    obtain ⟨hcornerX, hendX⟩ := toInt_corner hx (by omega) hscale.le hwidth hcx
    obtain ⟨hcornerY, hendY⟩ := toInt_corner hy (by omega) hscale.le hheight hcy
    have hidx := himg.index_lt hx hy
    have hbit : img.bit x y = bitAt img.bits[y * img.rowBytes + x / 8] (x % 8) := by
      rw [MonoImage.bit, List.getD_eq_getElem _ _ hidx]
    rw [List.getElem?_eq_getElem hidx]
    change ∃ f', (if bitAt _ _ then _ else some f : Option FrameBuffer) = some f' ∧ _
    rw [← hbit, dot]
    cases img.bit x y with
    | true =>
      obtain ⟨f', hdraw, ho, hover⟩ := drawDot_overwrites hf (hcornerX ▸ hendX) (hcornerY ▸ hendY)
      rw [hcornerX, hcornerY, ← hx0, ← hy0] at hover
      exact ⟨f', hdraw, ho, hover⟩
    | false => exact ⟨f, rfl, hf, Overwrites.refl 0 (pixels f)⟩
  obtain ⟨fb', hdraw, ho, hover⟩ := foldlM_overwrites hrow (s := fb) rfl
  refine ⟨fb', hdraw, ho, ?_⟩
  convert hover using 1
  ext p
  exact mem_painted_iff hscale

/-- `draw_image` paints the pixels with a black preimage, clipped to the screen, and no other
one. -/
theorem drawImage_exact (fb : FrameBuffer) {img : MonoImage} (himg : img.Sized)
    (cx cy scale : Int32) (hcx : 0 ≤ cx.toInt ∧ cx.toInt < WIDTH)
    (hcy : 0 ≤ cy.toInt ∧ cy.toInt < HEIGHT) (hscale : 1 ≤ scale.toInt)
    (hwidth : img.width.toNat * scale.toInt < 2 ^ 31)
    (hheight : img.height.toNat * scale.toInt < 2 ^ 31) :
    ∃ fb', drawImage fb img cx cy scale = some fb' ∧ fb'.orientation = fb.orientation ∧
      ∀ X Y, X < WIDTH → Y < HEIGHT → fb'.getPixel X Y =
        if img.Black ((X - (cx.toInt - img.width.toNat * scale.toInt / 2)) / scale.toInt)
            ((Y - (cy.toInt - img.height.toNat * scale.toInt / 2)) / scale.toInt) then 0
        else fb.getPixel X Y := by
  have hscreen : WIDTH = 480 ∧ HEIGHT = 800 := ⟨rfl, rfl⟩
  have hx : 0 ≤ cx.toInt ∧ cx.toInt < 2 ^ 30 := ⟨hcx.1, by omega⟩
  have hy : 0 ≤ cy.toInt ∧ cy.toInt < 2 ^ 30 := ⟨hcy.1, by omega⟩
  obtain ⟨fb', hdraw, ho, hover⟩ := drawImage_overwrites fb himg hx hy (by omega) hwidth hheight
  refine ⟨fb', hdraw, ho, fun X Y hX hY => ?_⟩
  obtain ⟨p, hp⟩ : ∃ p : Pixel, p = (⟨X, hX⟩, ⟨Y, hY⟩) := ⟨_, rfl⟩
  have hX' : X = p.1.val := by rw [hp]
  have hY' : Y = p.2.val := by rw [hp]
  rw [hX', hY']
  split
  · next hblack => exact hover.inside p hblack
  · next hblack => exact hover.outside p hblack

/-- A single black pixel. -/
def blackPixel : MonoImage := ⟨1, 1, [0x80]⟩

/-- In the corner of the screen, three times as large, a quarter of it is off the screen. -/
theorem drawImage_exact_corner : ∃ fb', drawImage FrameBuffer.new blackPixel 0 0 3 = some fb' ∧
    fb'.orientation = {} ∧ ∀ X Y, X < WIDTH → Y < HEIGHT → fb'.getPixel X Y =
      if X ≤ 1 ∧ Y ≤ 1 then 0 else FrameBuffer.new.getPixel X Y := by
  have hsized : blackPixel.Sized := ⟨by decide, by decide, by decide, by decide, by decide⟩
  obtain ⟨fb', hdraw, ho, hpix⟩ :=
    drawImage_exact FrameBuffer.new hsized 0 0 3 (by decide) (by decide)
    (by decide) (by decide) (by decide)
  refine ⟨fb', hdraw, ho, fun X Y hX hY => (hpix X Y hX hY).trans (if_congr ?_ rfl rfl)⟩
  have hbit : blackPixel.bit 0 0 = true := by decide
  change blackPixel.Black ((X - -1) / 3) ((Y - -1) / 3) ↔ _
  constructor
  · rintro ⟨⟨-, hx⟩, ⟨-, hy⟩, -⟩
    change (X - -1) / 3 < (1 : Int) at hx
    change (Y - -1) / 3 < (1 : Int) at hy
    omega
  · rintro ⟨hx, hy⟩
    obtain ⟨hx0, hy0⟩ : ((X : Int) - -1) / 3 = 0 ∧ ((Y : Int) - -1) / 3 = 0 := by omega
    rw [hx0, hy0]
    exact ⟨by decide, by decide, hbit⟩

end PaperNamePlate
