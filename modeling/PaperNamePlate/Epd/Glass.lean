import PaperNamePlate.Epd.Face

/-!
# What is on the glass

The application keeps a second frame buffer for what the panel shows: a gray refresh
replaces it, a monochrome update is folded into it. The refresh computes its window
and its waveform groups bit by bit, the buffer its own; on the glass the two agree.
-/
namespace PaperNamePlate.Epd

open Embedded Embedded.Prog

/-! ## The RAM banks -/

namespace Controller

/-- Both banks overwritten and a waveform table sent. -/
def loaded (k : Controller) (bw red : List UInt8) (table : Block lut.LUT_LEN) : Controller :=
  ((k.loadPlane cmd.WRITE_RAM_BW bw).loadPlane cmd.WRITE_RAM_RED red).sendLut table

theorem screen_loaded (k : Controller) {bw red : List UInt8} (hbw : bw.length = PLANE_BYTES)
    (hred : red.length = PLANE_BYTES) (table : Block lut.LUT_LEN) :
    (k.loaded bw red table).screen =
      { k.screen with bw := full.paint bw k.screen.bw, red := full.paint red k.screen.red } := by
  rw [loaded, screen_sendLut, screen_loadPlane_red _ hred, screen_loadPlane_bw _ hbw]

/-- A byte of a painted bank. -/
theorem paint_full (bs : List UInt8) (m : Ram) {r c : Nat} (hr : r < WIDTH) (hc : c < HEIGHT)
    (h : bs.length = PLANE_BYTES) :
    full.paint bs m r (c / 8) = bs.getD (r * ROW_BYTES + c / 8) 0 := by
  have hwidth : WIDTH = 480 := rfl
  have hheight : HEIGHT = 800 := rfl
  have hbytes : ROW_BYTES = 100 := rfl
  have hplane : PLANE_BYTES = 48000 := rfl
  have hin : full.Inside r (c / 8) :=
    ⟨Nat.zero_le _, Nat.le_of_lt_succ hr, Nat.zero_le _, by change c / 8 ≤ 99; omega⟩
  have hindex : full.index r (c / 8) = r * ROW_BYTES + c / 8 := rfl
  have hlt : r * ROW_BYTES + c / 8 < bs.length := by
    rw [h, hbytes]
    omega
  rw [Raster.paint, if_pos hin, hindex, List.getD_eq_getElem?_getD, List.getD_eq_getElem?_getD,
    List.getElem?_eq_getElem hlt]
  rfl

end Controller

/-- An inverted plane in a bank. -/
theorem bit_paint_sentAs (p : Plane) (m : Ram) {r c : Nat} (hr : r < WIDTH) (hc : c < HEIGHT) :
    bitAt (Controller.full.paint (Ssd1677.sentAs p true) m r (c / 8)) (c % 8) = !p.bit r c := by
  have hwidth : WIDTH = 480 := rfl
  have hheight : HEIGHT = 800 := rfl
  have hbytes : ROW_BYTES = 100 := rfl
  have hplane : PLANE_BYTES = 48000 := rfl
  have hlt : r * ROW_BYTES + c / 8 < p.bytes.length := by
    rw [p.size, hbytes]
    omega
  have hget : (Ssd1677.sentAs p true).getD (r * ROW_BYTES + c / 8) 0 =
      ~~~ p.byte (r * ROW_BYTES + c / 8) := by
    simp only [Ssd1677.sentAs, if_true, Plane.byte, List.getD_eq_getElem?_getD, List.getElem?_map,
      List.getElem?_eq_getElem hlt, Option.map_some, Option.getD_some]
  rw [Controller.paint_full _ _ hr hc (Ssd1677.length_sentAs p true), hget,
    bitAt_not _ (Nat.mod_lt _ (by decide)), Plane.bit]

/-- The group of an inverted pixel is the distance of its level from white. -/
theorem group_not (hi lo : Bool) : 3 - Screen.group (!hi) (!lo) = lo.toNat + 2 * hi.toNat := by
  cases hi <;> cases lo <;> rfl

/-! ## A gray refresh -/

namespace Screen

theorem glass_mode1 {s : Screen} {c2 : UInt8} (hmode : ¬ c2 &&& ctrl2.MODE2 ≠ 0)
    (hshow : c2 &&& ctrl2.DISPLAY ≠ 0) (table : List UInt8) :
    (s.activate c2 (some table)).glass = s.mode1 table := by
  rw [activate, if_neg hmode, if_pos hshow]
  rfl

theorem glass_mode2 {s : Screen} {c2 : UInt8} (hmode : c2 &&& ctrl2.MODE2 ≠ 0)
    (hshow : c2 &&& ctrl2.DISPLAY ≠ 0) (table : List UInt8) :
    (s.activate c2 (some table)).glass = s.mode2 table := by
  rw [activate, if_pos hmode]
  simp only [if_pos hshow]
  rfl

end Screen

namespace Ssd1677

variable {B : Type} {f : Ssd1677 Unit} {k : Controller} {n : Nat}

/-- The driver knows the face, and the glass shows the levels. -/
def Shown (level : Nat → Nat → Nat) (d : Ssd1677 (Wired B)) : Prop :=
  (d.faceKnown = true ∧ d.Tracked) ∧
    ∀ r c, r < WIDTH → c < HEIGHT → d.bus.controller.screen.glass r c = some (level r c)

/-- What an update that reads no built-in waveform leaves. -/
theorem At.shown (hf : f.Tracks k.screen.swaps) (hknown : f.faceKnown = true) {c1 c2 : UInt8}
    (hshow : c2 &&& ctrl2.DISPLAY ≠ 0) (hload : c2 &&& ctrl2.LOAD_LUT = 0) {d : Ssd1677 (Wired B)}
    (hd : At (f.activated c2) (k.activated c1 c2).onIdle d) {level : Nat → Nat → Nat}
    (hlevel : ∀ r c, r < WIDTH → c < HEIGHT →
      (k.screen.activate c2 (some k.table)).glass r c = some (level r c)) :
    Shown level d := by
  have hscreen := k.screen_activated c1 c2
  rw [if_neg (not_not.mpr hload)] at hscreen
  have hnow : d.bus.controller.screen = k.screen.activate c2 (some k.table) := by
    rw [hd.2, ← hscreen]
    rfl
  have hstill : d.faceKnown = true := by
    have hflags : (f.activated c2).faceKnown = true := by
      unfold activated
      split
      · exact hknown
      · rfl
    rw [← hflags, ← hd.1]
    rfl
  refine ⟨⟨hstill, ?_⟩, fun r c hr hc => by rw [hnow, hlevel r c hr hc]⟩
  have htracks := tracks_activated hf hknown rfl hshow (some k.table)
  rw [← hnow, ← hd.1] at htracks
  exact htracks

variable [Wire B]

/-- Load both banks from planes, send a table and activate: what ends every gray refresh. -/
theorem triple_gray (bw red : Plane) (table : Block lut.LUT_LEN) (c2 : UInt8) (t : Nat) :
    Triple (At f k) (do
        writePlane cmd.WRITE_RAM_BW bw true
        writePlane cmd.WRITE_RAM_RED red true
        sendLut table
        activate 0x00 c2 t : Driver (Wired B) Unit)
      (fun _ => At (f.activated (f.powered c2))
        ((k.loaded (sentAs bw true) (sentAs red true) table).activated 0x00 (f.powered c2)).onIdle)
      (fun _ => True) := by
  have hbw := (steady_writePlane (B := B) (c := cmd.WRITE_RAM_BW) (by decide) bw true).triple f k
  have hred := (steady_writePlane (B := B) (c := cmd.WRITE_RAM_RED) (by decide) red true).triple f
    (k.loadPlane cmd.WRITE_RAM_BW (sentAs bw true))
  have hlut := (steady_sendLut (B := B) table).triple f
    ((k.loadPlane cmd.WRITE_RAM_BW (sentAs bw true)).loadPlane cmd.WRITE_RAM_RED (sentAs red true))
  refine (hbw.conseq (fun _ => id) (fun _ _ => id) fun _ _ => trivial).bind fun _ => ?_
  refine (hred.conseq (fun _ => id) (fun _ _ => id) fun _ _ => trivial).bind fun _ => ?_
  refine (hlut.conseq (fun _ => id) (fun _ _ => id) fun _ _ => trivial).bind fun _ => ?_
  exact (triple_activate 0x00 c2 t).conseq (fun _ => id) (fun _ _ => id) fun _ _ => trivial

theorem triple_gray_shown (hf : f.Tracks k.screen.swaps) (hknown : f.faceKnown = true)
    (bw red : Plane) (table : Block lut.LUT_LEN) {c2 : UInt8} (hshow : c2 &&& ctrl2.DISPLAY ≠ 0)
    (hload : c2 &&& ctrl2.LOAD_LUT = 0) (t : Nat) {level : Nat → Nat → Nat}
    (hlevel : ∀ r c, r < WIDTH → c < HEIGHT →
      ((k.loaded (sentAs bw true) (sentAs red true) table).screen.activate (f.powered c2)
        (some table.bytes)).glass r c = some (level r c)) :
    Triple (At f k) (do
        writePlane cmd.WRITE_RAM_BW bw true
        writePlane cmd.WRITE_RAM_RED red true
        sendLut table
        activate 0x00 c2 t : Driver (Wired B) Unit)
      (fun _ => Shown level) (fun _ => True) := by
  refine (triple_gray bw red table c2 t).conseq (fun _ => id) (fun _ d hd => ?_) fun _ => id
  have hswaps : (k.loaded (sentAs bw true) (sentAs red true) table).screen.swaps =
      k.screen.swaps := by
    rw [Controller.screen_loaded k (length_sentAs bw true) (length_sentAs red true)]
  refine At.shown (by rw [hswaps]; exact hf) hknown ?_ ?_ hd ?_
  · rwa [powered_and f c2 (by decide)]
  · rwa [powered_and f c2 (by decide)]
  · have htable : (k.loaded (sentAs bw true) (sentAs red true) table).table = table.bytes :=
      Controller.table_sendLut _ table
    rwa [htable]

/-- The bits of two planes sent inverted. -/
theorem bits_loaded (bw red : Plane) (table : Block lut.LUT_LEN) {r c : Nat} (hr : r < WIDTH)
    (hc : c < HEIGHT) :
    (k.loaded (sentAs bw true) (sentAs red true) table).screen.bwBit r c = (!bw.bit r c) ∧
      (k.loaded (sentAs bw true) (sentAs red true) table).screen.redBit r c = (!red.bit r c) := by
  rw [Controller.screen_loaded k (length_sentAs bw true) (length_sentAs red true)]
  exact ⟨bit_paint_sentAs bw _ hr hc, bit_paint_sentAs red _ hr hc⟩

theorem oddFace_loaded (bw red : List UInt8) (hbw : bw.length = PLANE_BYTES)
    (hred : red.length = PLANE_BYTES) (table : Block lut.LUT_LEN) :
    (k.loaded bw red table).screen.oddFace = k.screen.oddFace := by
  rw [Screen.oddFace, Controller.screen_loaded k hbw hred]
  rfl

theorem triple_ensureKnownFace :
    Triple Tracked (ensureKnownFace : Driver (Wired B) Unit)
      (fun _ d => d.faceKnown = true ∧ d.Tracked) (fun _ => True) := by
  intro d hd
  refine (rests_ensureKnownFace.conseq (fun _ => id) ?_ fun _ _ => trivial) d
    (⟨rfl, rfl, rfl⟩ : Rests d.flags _ _ d)
  rintro - d' (⟨hknown, hrests⟩ | ⟨-, hrests⟩)
  · have hflags := congrArg Ssd1677.faceKnown hrests.1
    exact ⟨hflags.trans hknown, hrests.tracked_iff_tracks.mpr hd⟩
  · exact ⟨congrArg Ssd1677.faceKnown hrests.1, hrests.tracked_iff_tracks.mpr tracks_ready⟩

/-- A refresh on a known face is one from where the driver and the controller are. -/
theorem triple_of_known {q : Driver (Wired B) Unit} {Q : Ssd1677 (Wired B) → Prop}
    (h : ∀ (f : Ssd1677 Unit) (k : Controller), f.Tracks k.screen.swaps → f.faceKnown = true →
      Triple (At f k) q (fun _ => Q) (fun _ => True)) :
    Triple (fun d => d.faceKnown = true ∧ d.Tracked) q (fun _ => Q) (fun _ => True) :=
  fun d hd => h d.flags d.bus.controller hd.2 hd.1 d ⟨rfl, rfl⟩

/-- The levels of two planes. -/
def levels (lsb msb : Plane) (r c : Nat) : Nat := (lsb.bit r c).toNat + 2 * (msb.bit r c).toNat

/-- A mode-1 refresh shows its planes, sent so as the driver's face demands. -/
theorem triple_mode1 (lsb msb : Plane) {table : Block lut.LUT_LEN}
    (htable : table = lut.LUT_QUALITY ∨ table = lut.LUT_TEXT) (t : Nat) :
    Triple (fun d => d.faceKnown = true ∧ d.Tracked) (do
        let d ← Prog.get
        let (bw, red) := if d.faceOdd then (msb, lsb) else (lsb, msb)
        writePlane cmd.WRITE_RAM_BW bw true
        writePlane cmd.WRITE_RAM_RED red true
        sendLut table
        activate 0x00 (ctrl2.DISPLAY ||| ctrl2.DISABLE_ANALOG ||| ctrl2.DISABLE_CLOCK) t :
          Driver (Wired B) Unit)
      (fun _ => Shown (levels lsb msb)) (fun _ => True) := by
  refine triple_of_known fun f k hf hknown => ?_
  have htable' : table.bytes = lut.LUT_QUALITY.bytes ∨ table.bytes = lut.LUT_TEXT.bytes :=
    htable.imp (congrArg Block.bytes) (congrArg Block.bytes)
  have hmode : ¬ f.powered (ctrl2.DISPLAY ||| ctrl2.DISABLE_ANALOG ||| ctrl2.DISABLE_CLOCK) &&&
      ctrl2.MODE2 ≠ 0 := by
    rw [powered_and f _ (by decide)]
    decide
  have hshow : f.powered (ctrl2.DISPLAY ||| ctrl2.DISABLE_ANALOG ||| ctrl2.DISABLE_CLOCK) &&&
      ctrl2.DISPLAY ≠ 0 := by
    rw [powered_and f _ (by decide)]
    decide
  refine (Triple.get (Q := fun d d' => d.faceOdd = f.faceOdd ∧ At f k d') fun d hd =>
    ⟨congrArg Ssd1677.faceOdd hd.1, hd⟩).bind fun d => Triple.imp fun hodd => ?_
  rw [hodd]
  have hface : k.screen.oddFace = f.faceOdd := (hf hknown).symm
  cases hfo : f.faceOdd with
  | true =>
    refine triple_gray_shown hf hknown msb lsb table (by decide) (by decide) t fun r c hr hc => ?_
    obtain ⟨hbw, hred⟩ := bits_loaded (k := k) msb lsb table hr hc
    have hodd := oddFace_loaded (k := k) (sentAs msb true) (sentAs lsb true)
        (length_sentAs msb true)
      (length_sentAs lsb true) table
    rw [Screen.glass_mode1 hmode hshow, Screen.mode1, if_pos htable', hodd, hface, hfo, if_pos rfl,
      hbw, hred, group_not]
    rfl
  | false =>
    refine triple_gray_shown hf hknown lsb msb table (by decide) (by decide) t fun r c hr hc => ?_
    obtain ⟨hbw, hred⟩ := bits_loaded (k := k) lsb msb table hr hc
    have hodd := oddFace_loaded (k := k) (sentAs lsb true) (sentAs msb true)
        (length_sentAs lsb true)
      (length_sentAs msb true) table
    rw [Screen.glass_mode1 hmode hshow, Screen.mode1, if_pos htable', hodd, hface, hfo,
      if_neg (by decide), hbw, hred, group_not]
    rfl

theorem triple_fast (lsb msb : Plane) (t : Nat) :
    Triple (fun d => d.faceKnown = true ∧ d.Tracked) (do
        writePlane cmd.WRITE_RAM_BW lsb true
        writePlane cmd.WRITE_RAM_RED msb true
        sendLut lut.LUT_FAST
        activate 0x00 (ctrl2.MODE2 ||| ctrl2.DISPLAY) t : Driver (Wired B) Unit)
      (fun _ => Shown (levels lsb msb)) (fun _ => True) := by
  refine triple_of_known fun f k hf hknown => ?_
  have hmode : f.powered (ctrl2.MODE2 ||| ctrl2.DISPLAY) &&& ctrl2.MODE2 ≠ 0 := by
    rw [powered_and f _ (by decide)]
    decide
  have hshow : f.powered (ctrl2.MODE2 ||| ctrl2.DISPLAY) &&& ctrl2.DISPLAY ≠ 0 := by
    rw [powered_and f _ (by decide)]
    decide
  refine triple_gray_shown hf hknown lsb msb lut.LUT_FAST (by decide) (by decide) t
    fun r c hr hc => ?_
  obtain ⟨hbw, hred⟩ := bits_loaded (k := k) lsb msb lut.LUT_FAST hr hc
  rw [Screen.glass_mode2 hmode hshow, Screen.mode2, if_pos rfl, hbw, hred, group_not]
  rfl

/-- A gray refresh that succeeds shows its planes, in every mode. -/
theorem triple_refreshGray4 (lsb msb : Plane) (mode : GrayMode) :
    Triple Tracked (refreshGray4 lsb msb mode : Driver (Wired B) Unit)
      (fun _ => Shown (levels lsb msb)) (fun _ => True) := by
  refine triple_ensureKnownFace.bind fun _ => ?_
  cases mode with
  | quality => exact triple_mode1 lsb msb (.inl rfl) 15000
  | text => exact triple_mode1 lsb msb (.inr rfl) 15000
  | fast => exact triple_fast lsb msb 5000

/-! ## A monochrome update -/

/-- What the BW bank gets for a row. -/
def newBytes (newMsb oldMsb : Plane) (g : Region) (y : Nat) : List UInt8 :=
  if g.y0.toNat ≤ y ∧ y ≤ g.bottom then
    splice (oldMsb.read (y * ROW_BYTES) ROW_BYTES) g.first
      (newMsb.read (y * ROW_BYTES + g.first) (g.last + 1 - g.first))
  else oldMsb.read (y * ROW_BYTES) ROW_BYTES

theorem newBytes_eq (newMsb oldMsb : Plane) (g : Region) {y : Nat} (hy : y < WIDTH) :
    (newBytes newMsb oldMsb g y).length = ROW_BYTES ∧
      ∀ b, b < ROW_BYTES → (newBytes newMsb oldMsb g y).getD b 0 =
        if (g.y0.toNat ≤ y ∧ y ≤ g.bottom) ∧ g.first ≤ b ∧ b ≤ g.last then
          newMsb.byte (y * ROW_BYTES + b)
        else oldMsb.byte (y * ROW_BYTES + b) := by
  obtain ⟨hcols, hlast, -⟩ := g.bounds
  have hwidth : WIDTH = 480 := rfl
  have hbytes : ROW_BYTES = 100 := rfl
  have hplane : PLANE_BYTES = 48000 := rfl
  have hfits : y * ROW_BYTES + ROW_BYTES ≤ PLANE_BYTES := by
    rw [hbytes, hplane]
    omega
  have hold := oldMsb.length_read (y * ROW_BYTES) ROW_BYTES hfits
  have hnew := newMsb.length_read (y * ROW_BYTES + g.first) (g.last + 1 - g.first) (by omega)
  unfold newBytes
  by_cases hrow : g.y0.toNat ≤ y ∧ y ≤ g.bottom
  · rw [if_pos hrow]
    refine ⟨by rw [length_splice _ _ _ (by omega), hold], fun b hb => ?_⟩
    rw [getD_splice _ _ _ _ _ (by omega), hnew]
    by_cases hcol : g.first ≤ b ∧ b ≤ g.last
    · rw [if_pos (by omega), if_pos ⟨hrow, hcol⟩, Plane.byte_eq_read _ _ _ _ (by omega)]
      congr 1
      omega
    · rw [if_neg (by omega), if_neg (fun h => hcol h.2), Plane.byte_eq_read _ _ _ _ hb]
  · rw [if_neg hrow]
    refine ⟨hold, fun b hb => ?_⟩
    rw [if_neg (fun h => hrow h.1), Plane.byte_eq_read _ _ _ _ hb]

theorem classRow_eq (newMsb oldLsb oldMsb : Plane) (g : Region) (y : Nat) :
    (classRow newMsb oldLsb oldMsb g.first g.last g.y0.toNat g.bottom y).length = ROW_BYTES ∧
      ∀ b, b < ROW_BYTES →
        (classRow newMsb oldLsb oldMsb g.first g.last g.y0.toNat g.bottom y).getD b 0 =
          let n := newMsb.byte (y * ROW_BYTES + b)
          let l := oldLsb.byte (y * ROW_BYTES + b)
          let m := oldMsb.byte (y * ROW_BYTES + b)
          if (g.y0.toNat ≤ y ∧ y ≤ g.bottom) ∧ g.first ≤ b ∧ b ≤ g.last then
            (n &&& (l &&& m)) ||| (~~~n &&& (l ||| m))
          else m := by
  refine ⟨by simp [classRow], fun b hb => ?_⟩
  rw [classRow, List.getD_eq_getElem?_getD, List.getElem?_map, List.getElem?_range hb]
  rfl

/-- What the two banks get for an update of a region. -/
def newPlane (newMsb oldMsb : Plane) (g : Region) : List UInt8 :=
  (List.range WIDTH).flatMap (newBytes newMsb oldMsb g)

def classPlane (newMsb oldLsb oldMsb : Plane) (g : Region) : List UInt8 :=
  (List.range WIDTH).flatMap fun y =>
    classRow newMsb oldLsb oldMsb g.first g.last g.y0.toNat g.bottom y

theorem length_newPlane (newMsb oldMsb : Plane) (g : Region) :
    (newPlane newMsb oldMsb g).length = PLANE_BYTES :=
  length_flatMap_range fun _ hy => (newBytes_eq newMsb oldMsb g hy).1

theorem length_classPlane (newMsb oldLsb oldMsb : Plane) (g : Region) :
    (classPlane newMsb oldLsb oldMsb g).length = PLANE_BYTES :=
  length_flatMap_range fun y _ => (classRow_eq newMsb oldLsb oldMsb g y).1

theorem bit_newPlane (newMsb oldMsb : Plane) (g : Region) (m : Ram) {r c : Nat} (hr : r < WIDTH)
    (hc : c < HEIGHT) :
    bitAt (Controller.full.paint (newPlane newMsb oldMsb g) m r (c / 8)) (c % 8) =
      if g.Inside r c then newMsb.bit r c else oldMsb.bit r c := by
  have hb : c / 8 < ROW_BYTES := Nat.div_lt_of_lt_mul hc
  have hrow := getD_flatMap_range (fun _ hy => (newBytes_eq newMsb oldMsb g hy).1) hr hb 0
  rw [Controller.paint_full _ _ hr hc (length_newPlane newMsb oldMsb g), newPlane, hrow,
    (newBytes_eq newMsb oldMsb g hr).2 _ hb]
  change bitAt (if g.Inside r c then _ else _) _ = _
  split <;> rfl

theorem bit_classPlane (newMsb oldLsb oldMsb : Plane) (g : Region) (m : Ram) {r c : Nat}
    (hr : r < WIDTH) (hc : c < HEIGHT) :
    bitAt (Controller.full.paint (classPlane newMsb oldLsb oldMsb g) m r (c / 8)) (c % 8) =
      if g.Inside r c then
        if newMsb.bit r c then oldLsb.bit r c && oldMsb.bit r c
          else oldLsb.bit r c || oldMsb.bit r c
      else oldMsb.bit r c := by
  have hb : c / 8 < ROW_BYTES := Nat.div_lt_of_lt_mul hc
  have hk : c % 8 < 8 := Nat.mod_lt _ (by decide)
  have hrow := getD_flatMap_range
    (fun y (_ : y < WIDTH) => (classRow_eq newMsb oldLsb oldMsb g y).1) hr hb 0
  rw [Controller.paint_full _ _ hr hc (length_classPlane newMsb oldLsb oldMsb g), classPlane, hrow,
    (classRow_eq newMsb oldLsb oldMsb g r).2 _ hb]
  change bitAt (if g.Inside r c then _ else _) _ = _
  split
  · unfold Plane.bit
    rw [bitAt_or _ _ hk, bitAt_and _ _ hk, bitAt_and _ _ hk, bitAt_and _ _ hk, bitAt_or _ _ hk,
      bitAt_not _ hk]
    cases bitAt (newMsb.byte (r * ROW_BYTES + c / 8)) (c % 8) <;> simp
  · rfl

/-- The levels after a monochrome update of a region. -/
def updated (newMsb oldLsb oldMsb : Plane) (g : Region) (r c : Nat) : Nat :=
  if g.Inside r c then if newMsb.bit r c then 3 else 0 else levels oldLsb oldMsb r c

/-- The waveform groups of an update drive every pixel where it has to go. -/
theorem mode2_fastest {s : Screen} (newMsb oldLsb oldMsb : Plane) (g : Region) {r c : Nat}
    (hbw : s.bwBit r c = if g.Inside r c then newMsb.bit r c else oldMsb.bit r c)
    (hred : s.redBit r c = if g.Inside r c then
        if newMsb.bit r c then oldLsb.bit r c && oldMsb.bit r c
          else oldLsb.bit r c || oldMsb.bit r c
      else oldMsb.bit r c)
    (hglass : s.glass r c = some (levels oldLsb oldMsb r c)) :
    s.mode2 lut.LUT_FASTEST.bytes r c = some (updated newMsb oldLsb oldMsb g r c) := by
  have hother : lut.LUT_FASTEST.bytes ≠ lut.LUT_FAST.bytes := by decide +kernel
  rw [Screen.mode2, if_neg hother, if_pos rfl, hbw, hred, hglass, updated, levels]
  by_cases hin : g.Inside r c
  · simp only [if_pos hin]
    cases newMsb.bit r c <;> cases oldLsb.bit r c <;> cases oldMsb.bit r c <;> rfl
  · simp only [if_neg hin]
    cases oldLsb.bit r c <;> cases oldMsb.bit r c <;> rfl

theorem triple_ensure_known (hknown : f.faceKnown = true) :
    Triple (At f k) (ensureKnownFace : Driver (Wired B) Unit) (fun _ => At f k)
      (fun _ => True) := by
  refine (Triple.get (Q := fun d d' => d.faceKnown = f.faceKnown ∧ At f k d') fun d hd =>
    ⟨congrArg Ssd1677.faceKnown hd.1, hd⟩).bind fun d => Triple.imp fun hd => ?_
  rw [hd, hknown]
  exact Triple.pure () fun _ => id

/-- An update of a region that succeeds drives its pixels to the new image and holds the others. -/
theorem triple_refreshFastest (newMsb oldLsb oldMsb : Plane) (g : Region) :
    Triple (Shown (levels oldLsb oldMsb))
      (refreshFastest newMsb oldLsb oldMsb g.x0 g.w g.y0 g.h : Driver (Wired B) Unit)
      (fun _ => Shown (updated newMsb oldLsb oldMsb g)) (fun _ => True) := by
  rintro d ⟨⟨hknown, hd⟩, hglass⟩
  obtain ⟨f, hf⟩ : ∃ f, f = d.flags := ⟨_, rfl⟩
  obtain ⟨k, hk⟩ : ∃ k, k = d.bus.controller := ⟨_, rfl⟩
  have hfknown : f.faceKnown = true := hf ▸ hknown
  have htracks : f.Tracks k.screen.swaps := hf ▸ hk ▸ hd
  rw [← hk] at hglass
  suffices h : Triple (At f k)
      (refreshFastest newMsb oldLsb oldMsb g.x0 g.w g.y0 g.h : Driver (Wired B) Unit)
      (fun _ => Shown (updated newMsb oldLsb oldMsb g)) (fun _ => True) from h d ⟨hf.symm, hk.symm⟩
  refine (triple_ensure_known hfknown).bind fun _ => ?_
  have hlast : (min ((g.x0 + g.w - 1) ||| 7) (RAM_X_PIXELS - 1)).toNat / 8 = g.last := g.last_eq
  have hbottom : (min (g.y0 + g.h - 1) (RAM_Y_LINES - 1)).toNat = g.bottom := g.bottom_eq
  simp only [g.first_eq, hlast, hbottom]
  have hweak : ∀ {q : Driver (Wired B) Unit} {F : Controller → Controller} (k : Controller),
      Steady q F → Triple (At f k) q (fun _ => At f (F k)) (fun _ => True) :=
    fun k hq => (hq.triple f k).conseq (fun _ => id) (fun _ _ => id) fun _ _ => trivial
  have hactivate : Triple
      (At f (k.loaded (newPlane newMsb oldMsb g)
        (classPlane newMsb oldLsb oldMsb g) lut.LUT_FASTEST))
      (activate 0x00 (ctrl2.MODE2 ||| ctrl2.DISPLAY) 5000 : Driver (Wired B) Unit)
      (fun _ => Shown (updated newMsb oldLsb oldMsb g)) (fun _ => True) := by
    have hscreen := k.screen_loaded (length_newPlane newMsb oldMsb g)
      (length_classPlane newMsb oldLsb oldMsb g) lut.LUT_FASTEST
    have htable : (k.loaded (newPlane newMsb oldMsb g) (classPlane newMsb oldLsb oldMsb g)
        lut.LUT_FASTEST).table = lut.LUT_FASTEST.bytes := Controller.table_sendLut _ _
    have hmode : f.powered (ctrl2.MODE2 ||| ctrl2.DISPLAY) &&& ctrl2.MODE2 ≠ 0 := by
      rw [powered_and f _ (by decide)]
      decide
    have hshow : f.powered (ctrl2.MODE2 ||| ctrl2.DISPLAY) &&& ctrl2.DISPLAY ≠ 0 := by
      rw [powered_and f _ (by decide)]
      decide
    have hload : f.powered (ctrl2.MODE2 ||| ctrl2.DISPLAY) &&& ctrl2.LOAD_LUT = 0 := by
      rw [powered_and f _ (by decide)]
      decide
    refine (triple_activate 0x00 _ 5000).conseq (fun _ => id) (fun _ d hd => ?_) fun _ _ => trivial
    refine At.shown (by rw [hscreen]; exact htracks) hfknown hshow hload hd fun r c hr hc => ?_
    rw [htable, Screen.glass_mode2 hmode hshow]
    refine mode2_fastest newMsb oldLsb oldMsb g ?_ ?_ ?_
    · rw [hscreen]
      exact bit_newPlane newMsb oldMsb g _ hr hc
    · rw [hscreen]
      exact bit_classPlane newMsb oldLsb oldMsb g _ hr hc
    · rw [hscreen]
      exact hglass r c hr hc
  refine (hweak k (steady_setWindow ..)).bind fun _ => ?_
  refine (hweak _ (steady_command (by decide))).bind fun _ => ?_
  refine (hweak _ (steady_stream _ fun y => gives_newRow ..)).bind fun _ => ?_
  refine (hweak _ (steady_setWindow ..)).bind fun _ => ?_
  refine (hweak _ (steady_command (by decide))).bind fun _ => ?_
  refine (hweak _ (steady_stream _ fun y => .inl rfl)).bind fun _ => ?_
  refine (hweak _ (steady_sendLut _)).bind fun _ => ?_
  exact hactivate

end Ssd1677

/-! ## A bus without failures -/

/-- A bus on which every access succeeds and BUSY is always low. -/
inductive IdealBus
  | wires

instance : Wire IdealBus where
  SpiError := Empty
  PinError := Empty
  write b _ := (.ok (), b)
  flush b := (.ok (), b)
  select b _ := (.ok (), b)
  setData b _ := (.ok (), b)
  isBusy b := (.ok false, b)
  arrived _ _ := 0
  moved _ := false

namespace Ssd1677

/-- The program returns from every state. -/
structure Sure (p : Driver (Wired IdealBus) Unit) : Prop where
  triple : Triple (fun _ => True) p (fun _ _ => True) (fun _ => False)

theorem Sure.pure : Sure (Pure.pure ()) := ⟨Triple.pure () fun _ => id⟩

theorem Sure.modify (f : Ssd1677 (Wired IdealBus) → Ssd1677 (Wired IdealBus)) :
    Sure (Prog.modify f) :=
  ⟨Triple.modify fun _ => id⟩

theorem Sure.bind {p q : Driver (Wired IdealBus) Unit} (hp : Sure p) (hq : Sure q) :
    Sure (p >>= fun _ => q) :=
  ⟨Triple.bind hp.triple fun _ => hq.triple⟩

theorem Sure.get {p : Ssd1677 (Wired IdealBus) → Driver (Wired IdealBus) Unit}
    (hp : ∀ d, Sure (p d)) :
    Sure (Prog.get >>= p) :=
  ⟨Triple.bind (Triple.get fun _ => id) fun d => (hp d).triple⟩

theorem Sure.ite {c : Prop} [Decidable c] {p q : Driver (Wired IdealBus) Unit} (hp : Sure p)
    (hq : Sure q) : Sure (if c then p else q) :=
  ⟨Triple.ite (fun _ => hp.triple) fun _ => hq.triple⟩

theorem sure_send (data : Bool) (bs : List UInt8) : Sure (send data bs) := by
  have hselect : Sure select := ⟨triple_access fun _ _ => trivial⟩
  have hdata : Sure (setData data) := ⟨triple_access fun _ _ => trivial⟩
  have hflush : Sure flush := ⟨triple_access fun _ _ => trivial⟩
  have hdeselect : Sure deselect := ⟨triple_access fun _ _ => trivial⟩
  refine hselect.bind (hdata.bind ⟨?_⟩)
  refine (Triple.attempt (Q := fun r _ => r = .ok ()) (triple_access fun _ _ => rfl)).bind
    fun r => ?_
  rcases r with e | ⟨⟩
  · exact fun _ hr => nomatch hr
  · exact (hflush.bind (hdeselect.bind Sure.pure)).triple.conseq (fun _ _ => trivial)
      (fun _ _ => id)
      fun _ => id

theorem sure_commandData (c : UInt8) (bs : List UInt8) : Sure (commandData c bs) := by
  refine (sure_send false [c]).bind ?_
  unfold data
  exact Sure.ite Sure.pure (sure_send true bs)

theorem sure_stream {β : Type} (xs : List β) {p : β → Driver (Wired IdealBus) (List UInt8)}
    (h : ∀ x ∈ xs, ∃ bs, p x = Pure.pure bs) : Sure (stream (xs.map p)) := by
  have hselect : Sure select := ⟨triple_access fun _ _ => trivial⟩
  have hdata : Sure (setData true) := ⟨triple_access fun _ _ => trivial⟩
  have hflush : Sure flush := ⟨triple_access fun _ _ => trivial⟩
  have hdeselect : Sure deselect := ⟨triple_access fun _ _ => trivial⟩
  refine hselect.bind (hdata.bind (Sure.bind ?_ (hflush.bind hdeselect)))
  induction xs with
  | nil => exact Sure.pure
  | cons x xs ih =>
    obtain ⟨bs, hx⟩ := h x List.mem_cons_self
    have hwrite : Sure (do let bs ← p x; write bs) := by
      have hbytes : Sure (write bs) := ⟨triple_access fun _ _ => trivial⟩
      rw [hx]
      exact hbytes
    exact hwrite.bind (ih fun x hx => h x (List.mem_cons_of_mem _ hx))

theorem sure_waitBusy (n : Nat) : Sure (waitBusy n) := by
  have hbusy : Triple (fun _ => True) (isBusy : Driver (Wired IdealBus) Bool)
      (fun busy _ => busy = false) (fun _ => False) := triple_access fun _ _ => rfl
  cases n <;>
  · refine ⟨hbusy.bind fun busy => ?_⟩
    cases busy with
    | true => exact fun _ h => nomatch h
    | false => exact Triple.pure () fun _ _ => trivial

theorem sure_setWindow (x y w h : UInt16) : Sure (setWindow x y w h) :=
  (sure_commandData _ _).bind <| (sure_commandData _ _).bind <| (sure_commandData _ _).bind <|
    (sure_commandData _ _).bind (sure_commandData _ _)

theorem sure_sendLut (table : Block lut.LUT_LEN) : Sure (sendLut table) :=
  (sure_commandData _ _).bind <| (sure_commandData _ _).bind <| (sure_commandData _ _).bind
    (sure_commandData _ _)

theorem sure_init : Sure init := by
  refine (sure_waitBusy 500).bind ?_
  refine (sure_send false _).bind ?_
  refine (sure_waitBusy 500).bind ?_
  refine (sure_commandData _ _).bind ?_
  refine (sure_commandData _ _).bind ?_
  refine (sure_commandData _ _).bind ?_
  refine (sure_commandData _ _).bind ?_
  refine (sure_commandData _ _).bind ?_
  refine (sure_setWindow _ _ _ _).bind ?_
  refine (sure_commandData _ _).bind ?_
  refine (sure_waitBusy 500).bind ?_
  refine (sure_commandData _ _).bind ?_
  refine (sure_waitBusy 500).bind ?_
  exact Sure.modify _

theorem sure_ensureKnownFace : Sure ensureKnownFace := by
  unfold ensureKnownFace
  exact Sure.get fun d => Sure.ite Sure.pure sure_init

theorem sure_activate (c1 c2 : UInt8) (t : Nat) : Sure (activate c1 c2 t) := by
  unfold activate
  refine (sure_commandData _ _).bind (Sure.get fun d => ?_)
  refine (sure_commandData _ _).bind ?_
  refine (sure_send false _).bind ?_
  refine (sure_waitBusy t).bind ?_
  exact (Sure.modify _).bind (Sure.ite (Sure.modify _) (Sure.modify _))

theorem sure_writePlane (c : UInt8) (plane : Plane) : Sure (writePlane c plane true) :=
  (sure_setWindow _ _ _ _).bind <| (sure_send _ _).bind <| sure_stream _ fun _ _ => ⟨_, rfl⟩

theorem sure_refreshGray4 (lsb msb : Plane) (mode : GrayMode) :
    Sure (refreshGray4 lsb msb mode) := by
  have hrest : ∀ (bw red : Plane) (table : Block lut.LUT_LEN) (c2 : UInt8) (t : Nat), Sure (do
      writePlane cmd.WRITE_RAM_BW bw true
      writePlane cmd.WRITE_RAM_RED red true
      sendLut table
      activate 0x00 c2 t) := by
    intro bw red table c2 t
    refine (sure_writePlane _ bw).bind ?_
    refine (sure_writePlane _ red).bind ?_
    exact (sure_sendLut table).bind (sure_activate 0x00 c2 t)
  refine sure_ensureKnownFace.bind ?_
  cases mode with
  | quality => exact Sure.get fun d => hrest _ _ lut.LUT_QUALITY _ 15000
  | text => exact Sure.get fun d => hrest _ _ lut.LUT_TEXT _ 15000
  | fast => exact hrest lsb msb lut.LUT_FAST _ 5000

theorem sure_refreshFastest (newMsb oldLsb oldMsb : Plane) (g : Region) :
    Sure (refreshFastest newMsb oldLsb oldMsb g.x0 g.w g.y0 g.h) := by
  obtain ⟨hcols, hlast, -⟩ := g.bounds
  have hlast' : (min ((g.x0 + g.w - 1) ||| 7) (RAM_X_PIXELS - 1)).toNat / 8 = g.last := g.last_eq
  refine sure_ensureKnownFace.bind ?_
  simp only [g.first_eq, hlast']
  refine (sure_setWindow _ _ _ _).bind ?_
  refine (sure_send false _).bind ?_
  refine Sure.bind (sure_stream _ fun y _ => ?_) ?_
  · unfold newRow
    split
    · exact ⟨_, if_neg (by omega)⟩
    · exact ⟨_, rfl⟩
  refine (sure_setWindow _ _ _ _).bind ?_
  refine (sure_send false _).bind ?_
  refine Sure.bind (sure_stream _ fun y _ => ⟨_, rfl⟩) ?_
  exact (sure_sendLut _).bind (sure_activate 0x00 _ 5000)

end Ssd1677

/-! ## Runs -/

/-- What the application does to the panel. -/
inductive Refresh
  | gray (fb : FrameBuffer) (mode : GrayMode)
  | fastest (fb : FrameBuffer) (g : Region)

/-- The panel's driver and the buffer for what the panel shows. -/
structure Display (B : Type) where
  epd : Ssd1677 (Wired B)
  displayed : FrameBuffer

namespace Display

variable {B : Type}

/-- What the glass shows at a logical pixel of the buffer. -/
def onGlass (s : Display B) (x y : Nat) : Option Nat :=
  let (r, c) := s.displayed.orientation.native x y
  s.epd.bus.controller.screen.glass r c

/-- Every pixel of the buffer is the level on the glass. -/
def Shows (s : Display B) : Prop :=
  ∀ x y, x < WIDTH → y < HEIGHT → s.onGlass x y = some (s.displayed.getPixel x y)

/-- The driver knows the face, and the buffer's planes are on the glass. -/
def Held (s : Display B) : Prop := s.epd.Shown (Ssd1677.levels s.displayed.lsb s.displayed.msb)

theorem Held.shows {s : Display B} (h : s.Held) : s.Shows := by
  intro x y hx hy
  obtain ⟨r, c, hrc, hr, hc⟩ : ∃ r c, s.displayed.orientation.native x y = (r, c) ∧
      r < WIDTH ∧ c < HEIGHT := by
    refine ⟨_, _, rfl, ?_, ?_⟩ <;> split <;> omega
  rw [onGlass, FrameBuffer.getPixel, hrc]
  exact h.2 r c hr hc

variable [Wire B]

def refresh (s : Display B) : Refresh → Ssd1677.Driver (Wired B) Unit
  | .gray fb mode => Ssd1677.displayGray4 fb mode
  | .fastest fb g =>
    Ssd1677.refreshFastest fb.msb s.displayed.lsb s.displayed.msb g.x0 g.w g.y0 g.h

/-- The buffer after a refresh that succeeded. An index out of a plane would stop the program; for a
region inside the panel there is none. -/
def noted (displayed : FrameBuffer) : Refresh → FrameBuffer
  | .gray fb _ => displayed.copyFrom fb
  | .fastest fb g => (displayed.applyMonoRegion fb.msb g.x0 g.w g.y0 g.h).getD displayed

/-- A refresh, noted if it succeeds. -/
def step (s : Display B) (r : Refresh) : Display B :=
  match s.refresh r s.epd with
  | (.ok (), epd) => { epd, displayed := noted s.displayed r }
  | (.error _, epd) => { s with epd }

/-- The refresh returns without an error. -/
def Returns (s : Display B) (r : Refresh) : Prop := (s.refresh r s.epd).1 = .ok ()

/-- What a refresh does to the glass. -/
def Drives (s : Display B) (r : Refresh) : Prop :=
  ∀ y x, y < WIDTH → x < HEIGHT →
    (s.step r).epd.bus.controller.screen.glass y x =
      match r with
      | .gray fb _ => some (fb.level y x)
      | .fastest fb g =>
        if g.Inside y x then some (if fb.msb.bit y x then 3 else 0)
        else s.epd.bus.controller.screen.glass y x

theorem Returns.step {s : Display B} {r : Refresh} (h : s.Returns r) :
    ∃ epd, s.refresh r s.epd = (.ok (), epd) ∧
      s.step r = { epd, displayed := noted s.displayed r } := by
  unfold Returns at h
  unfold Display.step
  revert h
  rcases s.refresh r s.epd with ⟨e | ⟨⟩, epd⟩
  · intro h
    cases h
  · exact fun _ => ⟨epd, rfl, rfl⟩

/-- A gray refresh that returns puts its planes on the glass. -/
theorem held_gray {s : Display B} (hs : s.epd.Tracked) {fb : FrameBuffer} {mode : GrayMode}
    (h : s.Returns (.gray fb mode)) : (s.step (.gray fb mode)).Held ∧ s.Drives (.gray fb mode) := by
  obtain ⟨epd, hrun, hstep⟩ := h.step
  have hshown : epd.Shown (Ssd1677.levels fb.lsb fb.msb) :=
    (Ssd1677.triple_refreshGray4 fb.lsb fb.msb mode).ok hs hrun
  rw [Drives, hstep]
  exact ⟨hshown, hshown.2⟩

/-- An update that returns is folded into the buffer as it is on the glass. -/
theorem held_fastest {s : Display B} (hs : s.Held) {fb : FrameBuffer} {g : Region}
    (h : s.Returns (.fastest fb g)) : (s.step (.fastest fb g)).Held ∧ s.Drives (.fastest fb g) := by
  obtain ⟨epd, hrun, hstep⟩ := h.step
  obtain ⟨fb', hfold, -, hbits⟩ := s.displayed.applyMonoRegion_eq fb.msb g
  obtain ⟨hknown, hglass⟩ :=
    (Ssd1677.triple_refreshFastest fb.msb s.displayed.lsb s.displayed.msb g).ok hs hrun
  have hnoted : noted s.displayed (.fastest fb g) = fb' := by rw [noted, hfold]; rfl
  rw [Drives, hstep, hnoted]
  constructor
  · refine ⟨hknown, fun r c hr hc => ?_⟩
    obtain ⟨hl, hm⟩ := hbits r c hr hc
    rw [hglass r c hr hc, Ssd1677.updated, Ssd1677.levels, Ssd1677.levels, hl, hm]
    split
    · cases fb.msb.bit r c <;> rfl
    · rfl
  · intro y x hy hx
    have hbefore := hs.2 y x hy hx
    change epd.bus.controller.screen.glass y x =
      if g.Inside y x then some (if fb.msb.bit y x then 3 else 0)
      else s.epd.bus.controller.screen.glass y x
    rw [hglass y x hy hx, hbefore, Ssd1677.updated]
    split <;> rfl

theorem held_step {s : Display B} (hs : s.Held) {r : Refresh} (h : s.Returns r) :
    (s.step r).Held ∧ s.Drives r := by
  cases r with
  | gray fb mode => exact held_gray hs.1.2 h
  | fastest fb g => exact held_fastest hs h

theorem shows_run {s : Display B} (hs : s.epd.Tracked) {fb : FrameBuffer} {mode : GrayMode}
    {rs : List Refresh} (hrs : EachStep step Returns s (.gray fb mode :: rs)) :
    Always step Shows (s.step (.gray fb mode)) rs ∧
      EachStep step Drives s (.gray fb mode :: rs) := by
  obtain ⟨hfirst, hrest⟩ := hrs
  obtain ⟨hheld, hdrives⟩ := held_gray hs hfirst
  have hall : Always step Held (s.step (.gray fb mode)) rs := by
    refine always_of_step (fun s r hs hr => ?_) hheld hrest
    exact (held_step hs hr).1
  have hboth := hall.eachStep.and hrest
  refine ⟨hall.mono fun s => Held.shows, hdrives, hboth.mono fun s r h => ?_⟩
  exact (held_step h.1 h.2).2

/-- On a bus without failures every refresh of an image or of a region inside the panel returns. -/
theorem ideal_returns (s : Display IdealBus) (r : Refresh) : s.Returns r := by
  have hsure : Ssd1677.Sure (s.refresh r) := by
    cases r with
    | gray fb mode => exact Ssd1677.sure_refreshGray4 fb.lsb fb.msb mode
    | fastest fb g => exact Ssd1677.sure_refreshFastest ..
  have h := hsure.triple s.epd trivial
  unfold Returns
  revert h
  rcases s.refresh r s.epd with ⟨e | ⟨⟩, epd⟩
  · exact False.elim
  · exact fun _ => rfl

/-- After a run of the driver and a gray refresh, the buffer is what the glass shows after every
refresh, as long as none fails. -/
theorem displayed_eq_glass (w : Wired B) (cs : List Ssd1677.Call)
    (hcs : EachStep Ssd1677.step Ssd1677.Returns (Ssd1677.new w) cs) (displayed fb : FrameBuffer)
    (mode : GrayMode) (rs : List Refresh)
    (hrs : EachStep step Returns ⟨run Ssd1677.step (Ssd1677.new w) cs, displayed⟩
      (.gray fb mode :: rs)) :
    Always step Shows (step ⟨run Ssd1677.step (Ssd1677.new w) cs, displayed⟩ (.gray fb mode)) rs ∧
      EachStep step Drives ⟨run Ssd1677.step (Ssd1677.new w) cs, displayed⟩
        (.gray fb mode :: rs) := by
  have hnew : (Ssd1677.new w).Tracked := by
    intro hknown
    cases hknown
  have hall : Always Ssd1677.step Ssd1677.Tracked (Ssd1677.new w) cs := by
    refine always_of_step (fun d c hd hc => ?_) hnew hcs
    exact Ssd1677.Returns.tracked hd hc
  exact shows_run hall.last hrs

theorem displayed_eq_glass_ideal :
    Always step Shows (step ⟨run Ssd1677.step (Ssd1677.new
        ({ bus := .wires, controller := .blank } : Wired IdealBus)) [], .new⟩ (.gray .new .text))
      [.fastest { FrameBuffer.new with msb := .filled 0 } ⟨13, 1, 7, 2, by decide, by decide⟩] ∧
    EachStep step Drives ⟨run Ssd1677.step (Ssd1677.new
        ({ bus := .wires, controller := .blank } : Wired IdealBus)) [], .new⟩
      [.gray .new .text,
        .fastest { FrameBuffer.new with msb := .filled 0 } ⟨13, 1, 7, 2, by decide, by decide⟩] :=
  displayed_eq_glass _ [] trivial .new .new .text _
    ⟨ideal_returns _ _, ideal_returns _ _, trivial⟩

end Display

end PaperNamePlate.Epd
