import PaperNamePlate.Lib.Raster
import PaperNamePlate.Lib.Slice

/-!
# The frame buffer

Two bit planes in the order of the controller's RAM: rows of 100 bytes, one bit a
pixel. A logical coordinate is turned into row and bit by the orientation's flips; a
native region is given in `u16` as the driver's callers give it, and indexing out of
a plane is a `none`.
-/
namespace PaperNamePlate.Epd

open Embedded

def WIDTH : Nat := 480
def HEIGHT : Nat := 800
def ROW_BYTES : Nat := HEIGHT / 8
def PLANE_BYTES : Nat := ROW_BYTES * WIDTH

abbrev Plane : Type := Block PLANE_BYTES

namespace Plane

def filled (b : UInt8) : Plane := ⟨List.replicate PLANE_BYTES b, List.length_replicate ..⟩

def byte (p : Plane) (i : Nat) : UInt8 := p.bytes.getD i 0

/-- The pixel at a row and a bit of it. -/
def bit (p : Plane) (r c : Nat) : Bool := bitAt (p.byte (r * ROW_BYTES + c / 8)) (c % 8)

/-- `dst[a..=b].copy_from_slice(&src[a..=b])`. -/
def copyRange (dst src : Plane) (a b : Nat) : Option Plane :=
  if h : a ≤ b + 1 ∧ b < PLANE_BYTES then
    some (dst.write a (src.read a (b + 1 - a)) (by
      rw [Block.length_read] <;> omega))
  else none

/-- Set or clear the pixel at a row and a bit of it. -/
def setBit (p : Plane) (r c : Nat) (on : Bool) : Option Plane :=
  let mask : UInt8 := 0x80 >>> UInt8.ofNat (c % 8)
  if h : r * ROW_BYTES + c / 8 < PLANE_BYTES then
    let b := p.byte (r * ROW_BYTES + c / 8)
    some (p.write (r * ROW_BYTES + c / 8) [if on then b ||| mask else b &&& ~~~mask] h)
  else none

theorem byte_write (p : Plane) {i : Nat} (b : UInt8) (h : i + [b].length ≤ PLANE_BYTES) (j : Nat) :
    Plane.byte (p.write i [b] h) j = if j = i then b else p.byte j := by
  have hput := getD_splice p.bytes [b] i j 0 (by rw [p.size]; exact h)
  refine hput.trans ?_
  by_cases hj : j = i
  · rw [if_pos hj, if_pos (by simp; omega), hj, Nat.sub_self]
    rfl
  · rw [if_neg hj, if_neg (by simp; omega)]
    rfl

theorem bitAt_set (b : UInt8) {j k : Nat} (hj : j < 8) (hk : k < 8) (on : Bool) :
    bitAt (if on then b ||| 0x80 >>> UInt8.ofNat j else b &&& ~~~(0x80 >>> UInt8.ofNat j)) k =
      if k = j then on else bitAt b k := by
  have hmask := bitAt_mask hj hk
  cases on with
  | true =>
    rw [if_pos rfl, bitAt_or _ _ hk, hmask]
    by_cases h : k = j <;> simp [h]
  | false =>
    rw [if_neg Bool.false_ne_true, bitAt_and _ _ hk, bitAt_not _ hk, hmask]
    by_cases h : k = j <;> simp [h]

/-- Setting a pixel sets this pixel alone. -/
theorem setBit_eq (p : Plane) {r c : Nat} (hr : r < WIDTH) (hc : c < HEIGHT) (on : Bool) :
    ∃ p', p.setBit r c on = some p' ∧ ∀ r' c', c' < HEIGHT →
      p'.bit r' c' = if r' = r ∧ c' = c then on else p.bit r' c' := by
  have hwidth : WIDTH = 480 := rfl
  have hheight : HEIGHT = 800 := rfl
  have hbytes : ROW_BYTES = 100 := rfl
  have hplane : PLANE_BYTES = 48000 := rfl
  have hidx : r * ROW_BYTES + c / 8 < PLANE_BYTES := by
    rw [hbytes, hplane]
    omega
  refine ⟨_, dif_pos hidx, fun r' c' hc' => ?_⟩
  have hmod : c % 8 < 8 ∧ c' % 8 < 8 := by omega
  rw [bit, byte_write]
  by_cases hbyte : r' * ROW_BYTES + c' / 8 = r * ROW_BYTES + c / 8
  · have hsame : (r' = r ∧ c' = c) ↔ c' % 8 = c % 8 := by
      rw [hbytes] at hbyte
      omega
    rw [if_pos hbyte, bitAt_set _ hmod.1 hmod.2, ← hbyte]
    simp only [hsame]
    rfl
  · have hne : ¬ (r' = r ∧ c' = c) := fun h => hbyte (by rw [h.1, h.2])
    rw [if_neg hbyte, if_neg hne]
    rfl

theorem byte_eq_read (p : Plane) (a k i : Nat) (h : i < k) :
    (p.read a k).getD i 0 = p.byte (a + i) := by
  simp only [Block.read, byte, List.getD_eq_getElem?_getD, List.getElem?_take_of_lt h,
    List.getElem?_drop]

theorem copyRange_eq (dst src : Plane) {a b : Nat} (hab : a ≤ b + 1) (hb : b < PLANE_BYTES) :
    ∃ dst', dst.copyRange src a b = some dst' ∧
      ∀ i, dst'.byte i = if a ≤ i ∧ i ≤ b then src.byte i else dst.byte i := by
  refine ⟨_, dif_pos ⟨hab, hb⟩, fun i => ?_⟩
  have hlen := src.length_read a (b + 1 - a) (by omega)
  have hsize := dst.size
  have hput := getD_splice dst.bytes (src.read a (b + 1 - a)) a i 0 (by omega)
  refine hput.trans ?_
  rw [hlen]
  by_cases hi : a ≤ i ∧ i ≤ b
  · rw [if_pos hi, if_pos (by omega), byte_eq_read _ _ _ _ (by omega), Nat.add_sub_cancel' hi.1]
  · rw [if_neg hi, if_neg (by omega)]
    rfl

/-- The rows of a plane, one after the other, are the plane. -/
theorem flatMap_rows (p : Plane) :
    (List.range WIDTH).flatMap (fun y => p.read (y * ROW_BYTES) ROW_BYTES) = p.bytes := by
  have htake : ∀ n, (List.range n).flatMap (fun y => p.read (y * ROW_BYTES) ROW_BYTES) =
      p.bytes.take (n * ROW_BYTES) := by
    intro n
    induction n with
    | zero => simp
    | succ n ih =>
      rw [List.range_succ, List.flatMap_append, ih, List.flatMap_singleton, Block.read,
        Nat.succ_mul, List.take_add]
  rw [htake]
  exact List.take_of_length_le (by rw [p.size, Nat.mul_comm]; exact Nat.le_refl _)

end Plane

structure Orientation where
  flipX : Bool := false
  flipY : Bool := false
deriving DecidableEq, Repr

/-- Row and bit of a logical pixel. -/
def Orientation.native (o : Orientation) (x y : Nat) : Nat × Nat :=
  (if o.flipX then WIDTH - 1 - x else x, if o.flipY then HEIGHT - 1 - y else y)

theorem Orientation.native_lt (o : Orientation) {x y : Nat} (hx : x < WIDTH) (hy : y < HEIGHT) :
    (o.native x y).1 < WIDTH ∧ (o.native x y).2 < HEIGHT := by
  unfold native
  constructor <;> dsimp only <;> split <;> omega

/-- Flips are injective on the screen. -/
theorem Orientation.native_inj (o : Orientation) {x y x' y' : Nat} (hx : x < WIDTH)
    (hy : y < HEIGHT) (hx' : x' < WIDTH) (hy' : y' < HEIGHT) :
    o.native x y = o.native x' y' ↔ x = x' ∧ y = y' := by
  unfold native
  rw [Prod.mk.injEq]
  constructor <;> intro h <;> constructor <;> grind

structure FrameBuffer where
  lsb : Plane
  msb : Plane
  orientation : Orientation := {}

namespace FrameBuffer

def new : FrameBuffer := { lsb := .filled 0xFF, msb := .filled 0xFF }

/-- The gray level at a row and a bit: 0 is black and 3 white. -/
def level (fb : FrameBuffer) (r c : Nat) : Nat :=
  (fb.lsb.bit r c).toNat + 2 * (fb.msb.bit r c).toNat

def getPixel (fb : FrameBuffer) (x y : Nat) : Nat :=
  let (r, c) := fb.orientation.native x y
  fb.level r c

/-- Set a pixel to a gray level; out of range is ignored. -/
def setPixel (fb : FrameBuffer) (x y : Int32) (level : UInt8) : Option FrameBuffer :=
  if x < 0 ∨ y < 0 ∨ WIDTH ≤ x.toNatClampNeg ∨ HEIGHT ≤ y.toNatClampNeg then some fb
  else do
    let (r, c) := fb.orientation.native x.toNatClampNeg y.toNatClampNeg
    let lsb ← fb.lsb.setBit r c (level &&& 1 ≠ 0)
    let msb ← fb.msb.setBit r c (level &&& 2 ≠ 0)
    pure { fb with lsb, msb }

theorem level_bits (level : UInt8) :
    (decide (level &&& 1 ≠ 0)).toNat + 2 * (decide (level &&& 2 ≠ 0)).toNat = level.toNat % 4 := by
  have hall : ∀ n < 256, (decide (UInt8.ofNat n &&& 1 ≠ 0)).toNat +
      2 * (decide (UInt8.ofNat n &&& 2 ≠ 0)).toNat = n % 4 := by decide +kernel
  have h := hall level.toNat level.toNat_lt
  rwa [UInt8.ofNat_toNat] at h

/-- Setting a pixel sets this pixel alone, and none off the screen. -/
theorem setPixel_eq (fb : FrameBuffer) (x y : Int32) (level : UInt8) :
    ∃ fb', fb.setPixel x y level = some fb' ∧ fb'.orientation = fb.orientation ∧
      ∀ x' y', x' < WIDTH → y' < HEIGHT → fb'.getPixel x' y' =
        if x.toInt = x' ∧ y.toInt = y' then level.toNat % 4 else fb.getPixel x' y' := by
  have hx : x.toNatClampNeg = x.toInt.toNat := rfl
  have hy : y.toNatClampNeg = y.toInt.toNat := rfl
  unfold setPixel
  split
  · next h =>
    rw [Int32.lt_iff_toInt_lt, Int32.lt_iff_toInt_lt, Int32.toInt_zero] at h
    refine ⟨fb, rfl, rfl, fun x' y' hx' hy' => (if_neg ?_).symm⟩
    omega
  · next h =>
    rw [Int32.lt_iff_toInt_lt, Int32.lt_iff_toInt_lt, Int32.toInt_zero] at h
    obtain ⟨hr, hc⟩ := fb.orientation.native_lt (x := x.toNatClampNeg) (y := y.toNatClampNeg)
      (by omega) (by omega)
    obtain ⟨lsb, hl, hlsb⟩ := fb.lsb.setBit_eq hr hc (level &&& 1 ≠ 0)
    obtain ⟨msb, hm, hmsb⟩ := fb.msb.setBit_eq hr hc (level &&& 2 ≠ 0)
    refine ⟨{ fb with lsb, msb }, by simp only [hl, hm]; rfl, rfl, fun x' y' hx' hy' => ?_⟩
    have hc' := (fb.orientation.native_lt hx' hy').2
    have hsame :
        ((fb.orientation.native x' y').1 =
        (fb.orientation.native x.toNatClampNeg y.toNatClampNeg).1 ∧
        (fb.orientation.native x' y').2 =
          (fb.orientation.native x.toNatClampNeg y.toNatClampNeg).2) ↔
        (x.toInt = x' ∧ y.toInt = y') := by
      rw [← Prod.ext_iff, fb.orientation.native_inj hx' hy' (by omega) (by omega)]
      omega
    change (lsb.bit (fb.orientation.native x' y').1 (fb.orientation.native x' y').2).toNat +
      2 * (msb.bit (fb.orientation.native x' y').1 (fb.orientation.native x' y').2).toNat = _
    rw [hlsb _ _ hc', hmsb _ _ hc']
    by_cases hpix : x.toInt = x' ∧ y.toInt = y'
    · rw [if_pos (hsame.mpr hpix), if_pos (hsame.mpr hpix), if_pos hpix, level_bits]
    · rw [if_neg (mt hsame.mp hpix), if_neg (mt hsame.mp hpix), if_neg hpix]
      rfl

theorem setPixel_isSome (fb : FrameBuffer) (x y : Int32) (level : UInt8) :
    (fb.setPixel x y level).isSome := by
  obtain ⟨fb', h, -⟩ := fb.setPixel_eq x y level
  rw [h]
  rfl

/-- Fill with a gray level. -/
def clear (fb : FrameBuffer) (level : UInt8) : FrameBuffer :=
  { fb with
    lsb := .filled (if level &&& 1 ≠ 0 then 0xFF else 0x00)
    msb := .filled (if level &&& 2 ≠ 0 then 0xFF else 0x00) }

/-- Fill the part of a rectangle that is on the screen, column by column. -/
def fillSolid (fb : FrameBuffer) (x y : Int) (w h : Nat) (level : UInt8) : Option FrameBuffer :=
  let left := max x 0
  let top := max y 0
  let columns := (min (x + w) WIDTH - left).toNat
  let rows := (min (y + h) HEIGHT - top).toNat
  (List.range columns).foldlM (fun fb dx =>
    (List.range rows).foldlM (fun fb dy =>
      fb.setPixel (Int32.ofInt (left + dx)) (Int32.ofInt (top + dy)) level) fb) fb

/-- Copy the planes of `src`. -/
def copyFrom (fb src : FrameBuffer) : FrameBuffer := { fb with lsb := src.lsb, msb := src.msb }

/-- Fold a monochrome update into the buffer. -/
def applyMonoRegion (fb : FrameBuffer) (mono : Plane) (x0 w y0 h : UInt16) : Option FrameBuffer :=
  let first := (x0 &&& ~~~7).toNat / 8
  let last := (min ((x0 + w - 1) ||| 7) (UInt16.ofNat HEIGHT - 1)).toNat / 8
  let ys := y0.toNat
  let ye := (min (y0 + h - 1) (UInt16.ofNat WIDTH - 1)).toNat
  (List.range' ys (ye + 1 - ys)).foldlM (fun fb y => do
    let o := y * ROW_BYTES
    let lsb ← fb.lsb.copyRange mono (o + first) (o + last)
    let msb ← fb.msb.copyRange mono (o + first) (o + last)
    pure { fb with lsb, msb }) fb

/-- The native region of a logical rectangle, without flips: first bit, bits, first row, rows. -/
def nativeRegion (x y w h : UInt32) : UInt16 × UInt16 × UInt16 × UInt16 :=
  let x := min x (UInt32.ofNat (WIDTH - 1))
  let y := min y (UInt32.ofNat (HEIGHT - 1))
  let w := min w (UInt32.ofNat WIDTH - x)
  let h := min h (UInt32.ofNat HEIGHT - y)
  (y.toUInt16, h.toUInt16, x.toUInt16, w.toUInt16)

end FrameBuffer

/-! ## Regions -/

/-- A native region of at least one pixel inside the panel. -/
structure Region where
  x0 : UInt16
  w : UInt16
  y0 : UInt16
  h : UInt16
  columns : 1 ≤ w.toNat ∧ x0.toNat + w.toNat ≤ HEIGHT
  rows : 1 ≤ h.toNat ∧ y0.toNat + h.toNat ≤ WIDTH

namespace Region

def first (g : Region) : Nat := g.x0.toNat / 8

def last (g : Region) : Nat := (g.x0.toNat + g.w.toNat - 1) / 8

def bottom (g : Region) : Nat := g.y0.toNat + g.h.toNat - 1

/-- The pixels of the region, rounded outwards to bytes. -/
def Inside (g : Region) (r c : Nat) : Prop :=
  (g.y0.toNat ≤ r ∧ r ≤ g.bottom) ∧ g.first ≤ c / 8 ∧ c / 8 ≤ g.last

instance (g : Region) (r c : Nat) : Decidable (g.Inside r c) := by unfold Inside; infer_instance

theorem first_eq (g : Region) : (g.x0 &&& ~~~7).toNat / 8 = g.first := by
  have hx := g.x0.toNat_lt
  have hmask : (~~~7 : UInt16).toNat = 2 ^ 16 - 1 - 7 := rfl
  rw [UInt16.toNat_and, hmask, first, ← Nat.shiftRight_eq_div_pow _ 3, Nat.shiftRight_and_distrib,
    ← Nat.shiftRight_eq_div_pow _ 3]
  change g.x0.toNat >>> 3 &&& (2 ^ 13 - 1) = _
  rw [Nat.and_two_pow_sub_one_eq_mod, Nat.shiftRight_eq_div_pow]
  omega

theorem toNat_or_seven (v : UInt16) : (v ||| 7).toNat = v.toNat / 8 * 8 + 7 := by
  have hdiv : (v.toNat ||| 7) / 2 ^ 3 = v.toNat / 2 ^ 3 := by
    rw [← Nat.shiftRight_eq_div_pow, Nat.shiftRight_or_distrib, Nat.shiftRight_eq_div_pow]
    exact Nat.or_zero _
  have hmod : (v.toNat ||| 7) % 2 ^ 3 = 7 := by
    have hlow : v.toNat % 2 ^ 3 < 8 := Nat.mod_lt _ (by decide)
    rw [Nat.or_mod_two_pow]
    interval_cases v.toNat % 2 ^ 3 <;> rfl
  rw [UInt16.toNat_or]
  change v.toNat ||| 7 = _
  omega

theorem toNat_end {a b : UInt16} {n : Nat} (h : 1 ≤ b.toNat ∧ a.toNat + b.toNat ≤ n)
    (hn : n < 2 ^ 16) :
    (a + b - 1).toNat = a.toNat + b.toNat - 1 := by
  have hadd : (a + b).toNat = a.toNat + b.toNat := by
    rw [UInt16.toNat_add, Nat.mod_eq_of_lt (by omega)]
  rw [UInt16.toNat_sub_of_le]
  · rw [hadd]
    rfl
  · rw [UInt16.le_iff_toNat_le, hadd]
    change 1 ≤ _
    omega

theorem last_eq (g : Region) :
    (min ((g.x0 + g.w - 1) ||| 7) (UInt16.ofNat HEIGHT - 1)).toNat / 8 = g.last := by
  have hcolumns := g.columns
  have hend := toNat_end g.columns (by decide)
  have hor := toNat_or_seven (g.x0 + g.w - 1)
  have hheight : HEIGHT = 800 := rfl
  have hle : (g.x0 + g.w - 1) ||| 7 ≤ UInt16.ofNat HEIGHT - 1 := by
    rw [UInt16.le_iff_toNat_le, hor]
    change _ ≤ 799
    omega
  have hmin : min ((g.x0 + g.w - 1) ||| 7) (UInt16.ofNat HEIGHT - 1) = (g.x0 + g.w - 1) ||| 7 :=
    if_pos hle
  rw [hmin, hor, last, ← hend]
  omega

theorem bottom_eq (g : Region) :
    (min (g.y0 + g.h - 1) (UInt16.ofNat WIDTH - 1)).toNat = g.bottom := by
  have hrows := g.rows
  have hend := toNat_end g.rows (by decide)
  have hwidth : WIDTH = 480 := rfl
  have hle : g.y0 + g.h - 1 ≤ UInt16.ofNat WIDTH - 1 := by
    rw [UInt16.le_iff_toNat_le, hend]
    change _ ≤ 479
    omega
  have hmin : min (g.y0 + g.h - 1) (UInt16.ofNat WIDTH - 1) = g.y0 + g.h - 1 := if_pos hle
  rw [hmin, hend, bottom]

theorem bounds (g : Region) : g.first ≤ g.last ∧ g.last < ROW_BYTES ∧ g.bottom < WIDTH := by
  have hcolumns := g.columns
  have hrows := g.rows
  have hheight : HEIGHT = 800 := rfl
  have hbytes : ROW_BYTES = 100 := rfl
  unfold first last bottom
  omega

end Region

namespace FrameBuffer

/-- Rows `ys..` of a region folded into the buffer, byte by byte. -/
theorem foldlM_rows (mono : Plane) {first last : Nat} (hcols : first ≤ last)
    (hlast : last < ROW_BYTES) (n ys : Nat) (hrows : ys + n ≤ WIDTH) (fb : FrameBuffer) :
    ∃ fb', (List.range' ys n).foldlM (fun fb y => do
        let o := y * ROW_BYTES
        let lsb ← fb.lsb.copyRange mono (o + first) (o + last)
        let msb ← fb.msb.copyRange mono (o + first) (o + last)
        pure { fb with lsb, msb }) fb = some fb' ∧
      fb'.orientation = fb.orientation ∧
      ∀ r b, b < ROW_BYTES →
        fb'.lsb.byte (r * ROW_BYTES + b) =
            (if (ys ≤ r ∧ r < ys + n) ∧ first ≤ b ∧ b ≤ last then mono.byte (r * ROW_BYTES + b)
              else fb.lsb.byte (r * ROW_BYTES + b)) ∧
          fb'.msb.byte (r * ROW_BYTES + b) =
            (if (ys ≤ r ∧ r < ys + n) ∧ first ≤ b ∧ b ≤ last then mono.byte (r * ROW_BYTES + b)
              else fb.msb.byte (r * ROW_BYTES + b)) := by
  induction n generalizing ys fb with
  | zero =>
    refine ⟨fb, rfl, rfl, fun r b _ => ?_⟩
    rw [if_neg (by omega), if_neg (by omega)]
    exact ⟨rfl, rfl⟩
  | succ n ih =>
    have hbytes : ROW_BYTES = 100 := rfl
    have hplane : PLANE_BYTES = 48000 := rfl
    have hwidth : WIDTH = 480 := rfl
    have hend : ys * ROW_BYTES + last < PLANE_BYTES := by
      rw [hbytes, hplane]
      omega
    obtain ⟨lsb, hlsb, hl⟩ := fb.lsb.copyRange_eq mono (a := ys * ROW_BYTES + first)
      (b := ys * ROW_BYTES + last) (by omega) hend
    obtain ⟨msb, hmsb, hm⟩ := fb.msb.copyRange_eq mono (a := ys * ROW_BYTES + first)
      (b := ys * ROW_BYTES + last) (by omega) hend
    obtain ⟨fb', hrun, horient, hbyte⟩ := ih (ys + 1) (by omega) { fb with lsb, msb }
    refine ⟨fb', ?_, horient, fun r b hb => ?_⟩
    · rw [List.range'_succ, List.foldlM_cons]
      simp only [hlsb, hmsb, Option.bind_eq_bind, Option.bind_some, Option.pure_def]
      exact hrun
    · obtain ⟨hlb, hmb⟩ := hbyte r b hb
      have hsplit : ((ys ≤ r ∧ r < ys + (n + 1)) ∧ first ≤ b ∧ b ≤ last) ↔
          ((ys + 1 ≤ r ∧ r < ys + 1 + n) ∧ first ≤ b ∧ b ≤ last) ∨
            (ys * ROW_BYTES + first ≤ r * ROW_BYTES + b ∧
              r * ROW_BYTES + b ≤ ys * ROW_BYTES + last) := by
        rw [hbytes] at hb hlast ⊢
        omega
      simp only [hlb, hmb, hl, hm, hsplit, ite_or, and_self]

/-- A monochrome update sets the pixels of the region in both planes. -/
theorem applyMonoRegion_eq (fb : FrameBuffer) (mono : Plane) (g : Region) :
    ∃ fb', fb.applyMonoRegion mono g.x0 g.w g.y0 g.h = some fb' ∧
      fb'.orientation = fb.orientation ∧
      ∀ r c, r < WIDTH → c < HEIGHT →
        fb'.lsb.bit r c = (if g.Inside r c then mono.bit r c else fb.lsb.bit r c) ∧
          fb'.msb.bit r c = if g.Inside r c then mono.bit r c else fb.msb.bit r c := by
  obtain ⟨hcols, hlast, hbottom⟩ := g.bounds
  have hn : g.y0.toNat + (g.bottom + 1 - g.y0.toNat) = g.bottom + 1 := by
    unfold Region.bottom
    omega
  obtain ⟨fb', hrun, horient, hbyte⟩ := foldlM_rows mono hcols hlast
    (g.bottom + 1 - g.y0.toNat) g.y0.toNat (by omega) fb
  refine ⟨fb', ?_, horient, fun r c hr hc => ?_⟩
  · unfold applyMonoRegion
    simp only [g.first_eq, g.last_eq, g.bottom_eq]
    exact hrun
  · have hheight : HEIGHT = 800 := rfl
    have hbytes : ROW_BYTES = 100 := rfl
    obtain ⟨hl, hm⟩ := hbyte r (c / 8) (by omega)
    have hin : ((g.y0.toNat ≤ r ∧ r < g.y0.toNat + (g.bottom + 1 - g.y0.toNat)) ∧
        g.first ≤ c / 8 ∧ c / 8 ≤ g.last) ↔ g.Inside r c := by
      rw [hn, Nat.lt_succ_iff]
      rfl
    simp only [hin] at hl hm
    unfold Plane.bit
    rw [hl, hm]
    split <;> exact ⟨rfl, rfl⟩

end FrameBuffer

end PaperNamePlate.Epd
