import PaperNamePlate.Ble.Delivery
import PaperNamePlate.Plate.Draw

/-!
# The page's preview

The page makes a picture black and white on a canvas and packs its rows for the plate in the same
loop. The arithmetic of the tones is a parameter, so whatever is made of a picture, the packed rows
are the picture that the canvas shows, and the panel shows it too.
-/
namespace PaperNamePlate

open Embedded Epd

namespace Web

/-- Tones: the luminance of a pixel, whether a tone is below the threshold, what is left of it when
it is made black or white, and `k` sixteenths of such a rest added to a tone. -/
structure Tones (G E : Type) where
  luma : UInt8 → UInt8 → UInt8 → G
  below : G → Bool
  rest : G → Bool → E
  add : Nat → E → G → G

/-- The check boxes. -/
structure Settings where
  dither : Bool
  invert : Bool

/-- What the loop works on: the tones, the canvas as RGBA and the packed rows. -/
structure Canvas (G : Type) where
  gray : List G
  px : List UInt8
  bytes : List UInt8

def rowBytes (w : Nat) : Nat := (w + 7) / 8

section

variable {G E : Type} (t : Tones G E) (s : Settings) (w h : Nat)

/-- Floyd–Steinberg: spread the rest over the neighbours that are still to come. -/
def spread (x y : Nat) (err : E) (gray : List G) : List G :=
  let i := y * w + x
  let gray := if x + 1 < w then gray.modify (i + 1) (t.add 7 err) else gray
  if y + 1 < h then
    let gray := if x > 0 then gray.modify (i + w - 1) (t.add 3 err) else gray
    let gray := gray.modify (i + w) (t.add 5 err)
    if x + 1 < w then gray.modify (i + w + 1) (t.add 1 err) else gray
  else gray

/-- Make one pixel black or white. -/
def Canvas.visit (y : Nat) (c : Canvas G) (x : Nat) : Canvas G :=
  let i := y * w + x
  let dark := c.gray[i]?.any t.below
  let gray :=
    match c.gray[i]? with
    | some old => if s.dither then spread t w h x y (t.rest old dark) c.gray else c.gray
    | none => c.gray
  let black := dark != s.invert
  let v : UInt8 := if black then 0 else 255
  { gray
    px := (((c.px.set (i * 4 + 2) v).set (i * 4 + 1) v).set (i * 4) v).set (i * 4 + 3) 255
    bytes :=
      if black then
        c.bytes.modify (y * rowBytes w + x / 8) fun b => b ||| 0x80 >>> UInt8.ofNat (x % 8)
      else c.bytes }

def Canvas.row (c : Canvas G) (y : Nat) : Canvas G :=
  (List.range w).foldl (Canvas.visit t s w h y) c

/-- Make the picture on the canvas, given as RGBA, black and white and pack it. -/
def render (px : List UInt8) : Canvas G :=
  let gray := (List.range (w * h)).map fun i =>
    t.luma (px.getD (i * 4) 0) (px.getD (i * 4 + 1) 0) (px.getD (i * 4 + 2) 0)
  let bytes := List.replicate (rowBytes w * h) 0
  (List.range h).foldl (Canvas.row t s w h) { gray, px, bytes }

end

/-! ## One pixel after the other -/

/-- The packed bit of a pixel. -/
def Canvas.bit {G : Type} (w : Nat) (c : Canvas G) (x y : Nat) : Bool :=
  bitAt (c.bytes.getD (y * rowBytes w + x / 8) 0) (x % 8)

/-- Black or white, as RGBA. -/
def rgba (black : Bool) : List UInt8 :=
  let v : UInt8 := if black then 0 else 255
  [v, v, v, 255]

/-- The first `k` pixels have been made black or white and are packed; no other bit is set. -/
structure Canvas.Drawn {G : Type} (w h k : Nat) (c : Canvas G) : Prop where
  px : c.px.length = w * h * 4
  bytes : c.bytes.length = rowBytes w * h
  done : ∀ x y, x < w → y * w + x < k → page 4 c.px (y * w + x) = rgba (c.bit w x y)
  blank : ∀ x y, x / 8 < rowBytes w → ¬ (x < w ∧ y * w + x < k) → c.bit w x y = false

theorem index_inj {n a b y y' : Nat} (ha : a < n) (hb : b < n) :
    y' * n + a = y * n + b ↔ y' = y ∧ a = b := by
  constructor
  · intro h
    rcases Nat.lt_trichotomy y' y with hlt | rfl | hlt
    · have hle := Nat.mul_le_mul_right n (Nat.succ_le_of_lt hlt)
      rw [Nat.succ_mul] at hle
      omega
    · exact ⟨rfl, by omega⟩
    · have hle := Nat.mul_le_mul_right n (Nat.succ_le_of_lt hlt)
      rw [Nat.succ_mul] at hle
      omega
  · rintro ⟨rfl, rfl⟩
    rfl

theorem index_lt {n h a y : Nat} (ha : a < n) (hy : y < h) : y * n + a < n * h := by
  calc y * n + a < y * n + n := by omega
    _ = (y + 1) * n := (Nat.succ_mul y n).symm
    _ ≤ h * n := Nat.mul_le_mul_right n hy
    _ = n * h := Nat.mul_comm h n

section

variable {G E : Type} {t : Tones G E} {s : Settings} {w h : Nat} {c : Canvas G} {x y : Nat}

/-- Whether a pixel is made black. -/
def Canvas.ink (t : Tones G E) (s : Settings) (w : Nat) (c : Canvas G) (x y : Nat) : Bool :=
  (c.gray[y * w + x]?.any t.below) != s.invert

theorem set_rgba (px : List UInt8) {i : Nat} (h : i + 4 ≤ px.length) (v : UInt8) :
    (((px.set (i + 2) v).set (i + 1) v).set i v).set (i + 3) 255 = splice px i [v, v, v, 255] := by
  refine List.ext_getElem? fun k => ?_
  by_cases hk : i ≤ k ∧ k < i + 4
  · obtain ⟨j, rfl⟩ := Nat.exists_eq_add_of_le hk.1
    have hlen : (px.take i).length = i := by simp; omega
    rw [splice, List.append_assoc, List.getElem?_append_right (by omega), hlen,
      Nat.add_sub_cancel_left]
    have hj : j = 0 ∨ j = 1 ∨ j = 2 ∨ j = 3 := by omega
    rcases hj with rfl | rfl | rfl | rfl <;> simp [List.getElem?_set] <;> omega
  · rw [getElem?_splice_of_outside h hk]
    simp only [List.getElem?_set]
    grind

theorem Canvas.visit_px (hpx : c.px.length = w * h * 4) (hx : x < w) (hy : y < h) :
    (c.visit t s w h y x).px = splice c.px ((y * w + x) * 4) (rgba (c.ink t s w x y)) := by
  have hidx := index_lt hx hy
  exact set_rgba c.px (by omega) _

/-- A visited pixel's bit is set if it is black; no other bit changes. -/
theorem Canvas.visit_bit (hbytes : c.bytes.length = rowBytes w * h) (hx : x < w) (hy : y < h)
    {x' y' : Nat} (hx' : x' / 8 < rowBytes w) :
    (c.visit t s w h y x).bit w x' y' =
      (c.bit w x' y' || (decide (x' = x ∧ y' = y) && c.ink t s w x y)) := by
  have hcol : x / 8 < rowBytes w := by
    unfold rowBytes
    omega
  have hidx := index_lt hcol hy
  have hsame : y' * rowBytes w + x' / 8 = y * rowBytes w + x / 8 ↔ y' = y ∧ x' / 8 = x / 8 :=
    index_inj hx' hcol
  have hbits : (c.visit t s w h y x).bytes =
      if c.ink t s w x y then
        c.bytes.modify (y * rowBytes w + x / 8) fun b => b ||| 0x80 >>> UInt8.ofNat (x % 8)
      else c.bytes := rfl
  unfold Canvas.bit
  rw [hbits]
  cases c.ink t s w x y with
  | false => simp
  | true =>
    rw [if_pos rfl, List.getD_eq_getElem?_getD, List.getElem?_modify, List.getD_eq_getElem?_getD]
    by_cases hbyte : y' * rowBytes w + x' / 8 = y * rowBytes w + x / 8
    · obtain ⟨rfl, hcell⟩ := hsame.mp hbyte
      have hiff : x' % 8 = x % 8 ↔ x' = x := by omega
      obtain ⟨b, hb⟩ : ∃ b, c.bytes[y' * rowBytes w + x / 8]? = some b :=
        ⟨_, List.getElem?_eq_getElem (by omega)⟩
      have hmask := @bitAt_mask (x % 8) (x' % 8) (by omega) (by omega)
      simp [hcell, hb, hiff, hmask, bitAt_or _ _ (Nat.mod_lt x' (by decide))]
    · have hne : ¬ (x' = x ∧ y' = y) := fun heq => hbyte (hsame.mpr ⟨heq.2, by rw [heq.1]⟩)
      simp [Ne.symm hbyte, hne]

/-- One more pixel is drawn. -/
theorem Canvas.Drawn.visit (hc : c.Drawn w h (y * w + x)) (hx : x < w) (hy : y < h) :
    (c.visit t s w h y x).Drawn w h (y * w + (x + 1)) := by
  have hidx := index_lt hx hy
  have hlen : (rgba (c.ink t s w x y)).length = 4 := rfl
  have hpx := Canvas.visit_px (t := t) (s := s) hc.px hx hy
  have hpage : ∀ q, page 4 (c.visit t s w h y x).px q =
      if q = y * w + x then rgba (c.ink t s w x y) else page 4 c.px q := by
    intro q
    rw [hpx]
    exact page_splice hlen (by rw [hc.px]; omega)
  refine ⟨?_, ?_, ?_, ?_⟩
  · rw [hpx, length_splice _ _ _ (by rw [hc.px, hlen]; omega), hc.px]
  · unfold Canvas.visit
    dsimp only
    split
    · rw [List.length_modify, hc.bytes]
    · exact hc.bytes
  · intro x' y' hx' hlt
    have hcol : x' / 8 < rowBytes w := by
      unfold rowBytes
      omega
    rw [hpage, Canvas.visit_bit hc.bytes hx hy hcol]
    by_cases hnow : y' * w + x' = y * w + x
    · obtain ⟨rfl, rfl⟩ := (index_inj hx' hx).mp hnow
      have hblank := hc.blank x' y' hcol (by omega)
      simp [hblank]
    · have hne : ¬ (x' = x ∧ y' = y) := fun heq => hnow (by rw [heq.1, heq.2])
      rw [if_neg hnow, hc.done x' y' hx' (by omega)]
      simp [hne]
  · intro x' y' hcol hnot
    have hne : ¬ (x' = x ∧ y' = y) := by
      rintro ⟨rfl, rfl⟩
      exact hnot ⟨hx, by omega⟩
    rw [Canvas.visit_bit hc.bytes hx hy hcol, hc.blank x' y' hcol fun h => hnot ⟨h.1, by omega⟩]
    simp [hne]

theorem Canvas.Drawn.row (hc : c.Drawn w h (y * w)) (hy : y < h) :
    (c.row t s w h y).Drawn w h ((y + 1) * w) := by
  have hpixels : ∀ n ≤ w, ((List.range n).foldl (Canvas.visit t s w h y) c).Drawn w h
      (y * w + n) := by
    intro n hn
    induction n with
    | zero => exact hc
    | succ n ih =>
      rw [List.range_succ, List.foldl_append, List.foldl_cons, List.foldl_nil]
      exact (ih (by omega)).visit hn hy
  have hrow := hpixels w le_rfl
  rwa [← Nat.succ_mul] at hrow

theorem render_drawn {px : List UInt8} (hpx : px.length = w * h * 4) :
    (render t s w h px).Drawn w h (w * h) := by
  have hrows : ∀ (c : Canvas G), c.Drawn w h 0 → ∀ n ≤ h,
      ((List.range n).foldl (Canvas.row t s w h) c).Drawn w h (n * w) := by
    intro c hc n hn
    induction n with
    | zero => simpa using hc
    | succ n ih =>
      rw [List.range_succ, List.foldl_append, List.foldl_cons, List.foldl_nil]
      exact (ih (by omega)).row hn
  rw [Nat.mul_comm w h]
  refine hrows _ ⟨hpx, by simp, fun x y _ hlt => absurd hlt (Nat.not_lt_zero _),
    fun x y _ _ => ?_⟩ h le_rfl
  have hzero : ∀ k < 8, bitAt 0 k = false := by decide
  unfold Canvas.bit
  rw [List.getD_eq_getElem?_getD, List.getElem?_replicate]
  split <;> exact hzero _ (by omega)

/-! ## From the canvas to the screen -/

/-- The canvas shows black at a point. -/
def Canvas.Black (w h : Nat) (c : Canvas G) (x y : Int) : Prop :=
  (0 ≤ x ∧ x < w) ∧ (0 ≤ y ∧ y < h) ∧ page 4 c.px (y.toNat * w + x.toNat) = [0, 0, 0, 255]

instance (c : Canvas G) (x y : Int) : Decidable (c.Black w h x y) := by
  unfold Canvas.Black
  infer_instance

theorem rgba_eq_black_iff (black : Bool) : rgba black = [0, 0, 0, 255] ↔ black = true := by
  cases black <;> decide

theorem Canvas.Drawn.black_iff {w h : UInt16} {c : Canvas G}
    (hc : c.Drawn w.toNat h.toNat (w.toNat * h.toNat)) (x y : Int) :
    c.Black w.toNat h.toNat x y ↔ MonoImage.Black ⟨w, h, c.bytes⟩ x y := by
  have hbit : ∀ x y, MonoImage.bit ⟨w, h, c.bytes⟩ x y = c.bit w.toNat x y := fun _ _ => rfl
  unfold Canvas.Black MonoImage.Black
  refine and_congr_right fun hx => and_congr_right fun hy => ?_
  have hidx : y.toNat * w.toNat + x.toNat < w.toNat * h.toNat := index_lt (by omega) (by omega)
  rw [hbit, hc.done x.toNat y.toNat (by omega) hidx, rgba_eq_black_iff]

/-- Whatever the tones and the settings, the canvas shows what is packed: the plate takes the rows,
where the commit of their transfer arrives they are handed over as an image, and drawn on a plate it
is on the screen as on the canvas: as it is and on white where it replaces the layout, and else
scaled and black over the layout without it, except for the letters of the footer. -/
theorem preview_painted (t : Tones G E) (s : Settings) {w h : UInt16}
    (hw : 1 ≤ w.toNat ∧ w.toNat ≤ 480) (hh : 1 ≤ h.toNat ∧ h.toNat ≤ 800) {px : List UInt8}
    (hpx : px.length = w.toNat * h.toNat * 4) :
    let canvas := render t s w.toNat h.toNat px
    let img : MonoImage := ⟨w, h, canvas.bytes⟩
    (∀ notifyOk on e found l,
      transfer notifyOk (startPacket canvas.bytes (.image w h)) canvas.bytes e
        (Link.connect on) = .ok (.done found l) → e.commit.arrives = true →
      HandsOver [.image img] l) ∧
    ∀ (ts : Typesetter) (fb : FrameBuffer) (c : PlateContent), c.image = some img →
      ∃ fb', draw ts fb c = some fb' ∧ fb'.orientation = fb.orientation ∧
        (400 ≤ w.toNat → ∀ p : Pixel, pixels fb' p =
          if canvas.Black w.toNat h.toNat (p.1 - (240 - w.toNat / 2)) (p.2 - (400 - h.toNat / 2))
          then 0 else 3) ∧
        (w.toNat < 400 → ∃ plain, draw ts fb { c with image := none } = some plain ∧
          ∀ p : Pixel, pixels fb' p =
            if canvas.Black w.toNat h.toNat
                ((p.1 - (240 - w.toNat * (imageScale img).toInt / 2)) / (imageScale img).toInt)
                ((p.2 - (660 - h.toNat * (imageScale img).toInt / 2)) / (imageScale img).toInt) ∧
              p ∉ footer ts
            then 0 else pixels plain p) := by
  intro canvas img
  have hdrawn : canvas.Drawn w.toNat h.toNat (w.toNat * h.toNat) := render_drawn hpx
  have hsized : img.Sized := ⟨hw.1, hw.2, hh.1, hh.2, hdrawn.bytes⟩
  have hvalid : (ImgRx.Start.image w h).Valid canvas.bytes := by
    have hle : w ≤ 480 ∧ h ≤ 800 :=
      ⟨UInt16.le_iff_toNat_le.mpr hw.2, UInt16.le_iff_toNat_le.mpr hh.2⟩
    refine ⟨?_, ?_, hle.1, hle.2, hdrawn.bytes⟩
    · rintro rfl
      exact absurd hw.1 (by decide)
    · rintro rfl
      exact absurd hh.1 (by decide)
  refine ⟨fun notifyOk on e found l hdone harrives => ?_, fun ts fb c himage => ?_⟩
  · have hbooks := (done_books hvalid hdone).1
    rwa [if_pos harrives] at hbooks
  · have hwide : img.width ≥ 400 ↔ 400 ≤ w.toNat := UInt16.le_iff_toNat_le
    by_cases hlarge : 400 ≤ w.toNat
    · have hfull : large c = some img := by
        rw [large, himage, Option.filter_some, if_pos (by simpa using hwide.mpr hlarge)]
      obtain ⟨fb', hdraw, ho, hpix⟩ := draw_large hfull hsized ts fb
      refine ⟨fb', hdraw, ho, fun _ p => ?_, fun hsmall => absurd hlarge (Nat.not_le.mpr hsmall)⟩
      rw [hpix p]
      refine if_congr ?_ rfl rfl
      rw [hdrawn.black_iff]
      change img.Black _ _ ↔ _
      rw [Int.ediv_one, Int.ediv_one]
    · have hpart : large c = none := by
        rw [large, himage, Option.filter_some, if_neg (by simpa using mt hwide.mp hlarge)]
      obtain ⟨fb', plain, hdraw, hplain, ho, hpix⟩ := draw_small himage hpart hsized ts fb
      refine ⟨fb', hdraw, ho, fun h => absurd h hlarge, fun _ => ⟨plain, hplain, fun p => ?_⟩⟩
      rw [hpix p]
      refine if_congr (and_congr_left' ?_) rfl rfl
      rw [hdrawn.black_iff]
      exact Iff.rfl

/-- Black on a dark corner, whatever the arithmetic. -/
def plainTones : Tones Nat Int where
  luma r _ _ := r.toNat
  below old := old < 128
  rest old dark := if dark then old else old - 255
  add k err old := (old + err * k / 16).toNat

theorem preview_painted_dot :
    ∃ fb' plain, draw (fun _ _ _ _ => []) FrameBuffer.new
        { image := some ⟨1, 1, (render plainTones ⟨true, false⟩ 1 1 [9, 9, 9, 0]).bytes⟩ } =
          some fb' ∧
      draw (fun _ _ _ _ => []) FrameBuffer.new {} = some plain ∧
      ∀ p : Pixel, pixels fb' p =
        if (Canvas.Black 1 1 (render plainTones ⟨true, false⟩ 1 1 [9, 9, 9, 0])
          ((p.1 - 239) / 2) ((p.2 - 659) / 2)) ∧ p ∉ footer fun _ _ _ _ => []
        then 0 else pixels plain p := by
  have hpx : ([9, 9, 9, 0] : List UInt8).length = UInt16.toNat 1 * UInt16.toNat 1 * 4 := rfl
  obtain ⟨-, hdraw⟩ := preview_painted plainTones ⟨true, false⟩ (by decide) (by decide) hpx
  obtain ⟨fb', hfb', -, -, hsmall⟩ := hdraw (fun _ _ _ _ => []) FrameBuffer.new
    { image := some ⟨1, 1, (render plainTones ⟨true, false⟩ 1 1 [9, 9, 9, 0]).bytes⟩ } rfl
  obtain ⟨plain, hplain, hpix⟩ := hsmall (by decide)
  exact ⟨fb', plain, hfb', hplain, hpix⟩

end

end Web

end PaperNamePlate
