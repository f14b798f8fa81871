import PaperNamePlate.Epd.Controller
import PaperNamePlate.Epd.FrameBuffer
import PaperNamePlate.Lib.Effect

/-!
# The SSD1677 driver

Commands and data over SPI with the D/C, CS and BUSY pins, bring-up and power, the
RAM windows and the refresh paths. The bus is a parameter: nothing is assumed about
when an access fails or what BUSY reads. Delays and the row scratch buffer are left
out; an index out of range is an error.
-/
namespace PaperNamePlate.Epd

open Embedded

/-- The SPI bus and the pins of the controller. -/
class EpdBus (B : Type) where
  SpiError : Type
  PinError : Type
  write : B → List UInt8 → Except SpiError Unit × B
  flush : B → Except SpiError Unit × B
  /-- Chip select: low for `true`. -/
  select : B → Bool → Except PinError Unit × B
  /-- D/C: high, for data, if `true`. -/
  setData : B → Bool → Except PinError Unit × B
  isBusy : B → Except PinError Bool × B

inductive EpdError (ε π : Type)
  | spi (e : ε)
  | pin (e : π)
  | busyTimeout
  | outOfRange

inductive GrayMode
  | quality | text | fast
deriving DecidableEq, Repr

def RAM_X_PIXELS : UInt16 := 800
def RAM_Y_LINES : UInt16 := 480

structure Ssd1677 (B : Type) where
  bus : B
  screenOn : Bool := false
  /-- An odd number of mode-2 activations since the last reset. -/
  faceOdd : Bool := false
  faceKnown : Bool := false

namespace Ssd1677

variable {B : Type} [EpdBus B]

abbrev Driver (B : Type) [EpdBus B] (α : Type) : Type :=
  Prog (Ssd1677 B) (EpdError (EpdBus.SpiError B) (EpdBus.PinError B)) α

def new (bus : B) : Ssd1677 B := { bus }

/-! ## Low level -/

/-- An access to the bus, with its error as one of the driver's. -/
def access {ε α : Type} (op : B → Except ε α × B)
    (err : ε → EpdError (EpdBus.SpiError B) (EpdBus.PinError B)) : Driver B α :=
  Prog.mapError err (Prog.zoom (·.bus) (fun bus d => { d with bus }) op)

def write (bs : List UInt8) : Driver B Unit := access (EpdBus.write · bs) .spi

def flush : Driver B Unit := access EpdBus.flush .spi

def select : Driver B Unit := access (EpdBus.select · true) .pin

def deselect : Driver B Unit := access (EpdBus.select · false) .pin

def setData (data : Bool) : Driver B Unit := access (EpdBus.setData · data) .pin

def isBusy : Driver B Bool := access EpdBus.isBusy .pin

/-- Write with D/C as given; an error of the write is returned after the bus is released. -/
def send (data : Bool) (bs : List UInt8) : Driver B Unit := do
  select
  setData data
  let r ← Prog.attempt (write bs)
  flush
  deselect
  match r with
  | .ok () => pure ()
  | .error e => Prog.throw e

/-- Write chunks of data one after the other; the first error is returned at once. -/
def stream (chunks : List (Driver B (List UInt8))) : Driver B Unit := do
  select
  setData true
  Prog.forEach chunks fun chunk => do
    let bs ← chunk
    write bs
  flush
  deselect

def command (c : UInt8) : Driver B Unit := send false [c]

def data (bs : List UInt8) : Driver B Unit := if bs = [] then pure () else send true bs

def commandData (c : UInt8) (bs : List UInt8) : Driver B Unit := do
  command c
  data bs

/-- `waitBusy` with `n` polls left after this one. -/
def waitBusyLoop : Nat → Driver B Unit
  | 0 => do
    if ← isBusy then Prog.throw .busyTimeout else pure ()
  | n + 1 => do
    if ← isBusy then waitBusyLoop n else pure ()

/-- Wait for BUSY to drop, polling every millisecond. -/
def waitBusy (timeoutMs : Nat) : Driver B Unit := waitBusyLoop timeoutMs

/-! ## RAM addressing -/

def wordBytes (v : UInt16) : List UInt8 := [(v &&& 0xFF).toUInt8, (v >>> 8).toUInt8]

/-- Program a RAM window; `x` and `w` are in pixels. -/
def setWindow (x y w h : UInt16) : Driver B Unit := do
  let xe := x + w - 1
  let ye := y + h - 1
  commandData cmd.DATA_ENTRY [0x03]
  commandData cmd.SET_RAM_X (wordBytes x ++ wordBytes xe)
  commandData cmd.SET_RAM_Y (wordBytes y ++ wordBytes ye)
  commandData cmd.SET_RAM_X_CNT (wordBytes x)
  commandData cmd.SET_RAM_Y_CNT (wordBytes y)

def setFullWindow : Driver B Unit := setWindow 0 0 RAM_X_PIXELS RAM_Y_LINES

/-- Write a full plane to a RAM bank. -/
def writePlane (ramCmd : UInt8) (plane : Plane) (invert : Bool) : Driver B Unit := do
  setFullWindow
  command ramCmd
  if !invert then data plane.bytes
  else
    stream <| (List.range WIDTH).map fun y =>
      pure ((plane.read (y * ROW_BYTES) ROW_BYTES).map (~~~·))

/-- The chunk of a row that `write_plane_rect` sends. -/
def rectRow (plane : Plane) (first bytes y : Nat) (invert : Bool) : Driver B (List UInt8) :=
  let o := y * ROW_BYTES + first
  if PLANE_BYTES < o + bytes ∨ invert = true ∧ ROW_BYTES < bytes then Prog.throw .outOfRange
  else if invert then pure ((plane.read o bytes).map (~~~·))
  else pure (plane.read o bytes)

/-- Write a rectangle of a plane, rounded outwards to bytes. -/
def writePlaneRect (ramCmd : UInt8) (plane : Plane) (x0 y0 w h : UInt16) (invert : Bool) :
    Driver B Unit := do
  let xs := x0 &&& ~~~7
  let xe := min ((x0 + w - 1) ||| 7) (RAM_X_PIXELS - 1)
  let bytes := ((xe - xs + 1) / 8).toNat
  let first := (xs / 8).toNat
  setWindow xs y0 (xe - xs + 1) h
  command ramCmd
  stream <| (List.range' y0.toNat ((y0 + h).toNat - y0.toNat)).map fun y =>
    rectRow plane first bytes y invert

/-! ## Activation -/

def activate (ctrl1 c2 : UInt8) (timeoutMs : Nat) : Driver B Unit := do
  commandData cmd.UPDATE_CTRL1 [ctrl1]
  let d ← Prog.get
  let c2 := if !d.screenOn then c2 ||| (ctrl2.ENABLE_CLOCK ||| ctrl2.ENABLE_ANALOG) else c2
  commandData cmd.UPDATE_CTRL2 [c2]
  command cmd.MASTER_ACTIVATION
  waitBusy timeoutMs
  let powersDown := c2 &&& (ctrl2.DISABLE_ANALOG ||| ctrl2.DISABLE_CLOCK) ≠ 0
  Prog.modify fun d => { d with screenOn := !powersDown }
  if c2 &&& ctrl2.MODE2 ≠ 0 then
    Prog.modify fun d => { d with faceOdd := if d.faceKnown then !d.faceOdd else d.faceOdd }
  else Prog.modify fun d => { d with faceOdd := false, faceKnown := true }

def sendLut (table : Block lut.LUT_LEN) : Driver B Unit := do
  commandData cmd.WRITE_LUT (table.read 0 105)
  commandData cmd.GATE_VOLTAGE (table.read 105 1)
  commandData cmd.SOURCE_VOLTAGE (table.read 106 3)
  commandData cmd.WRITE_VCOM (table.read 109 1)

/-! ## Bring-up and power -/

/-- Software reset and panel configuration. -/
def init : Driver B Unit := do
  waitBusy 500
  command cmd.SW_RESET
  waitBusy 500
  commandData cmd.TEMP_SENSOR [0x80]
  commandData cmd.BOOSTER_SOFT_START [0xAE, 0xC7, 0xC3, 0xC0, 0x40]
  commandData cmd.DRIVER_OUTPUT (wordBytes (RAM_Y_LINES - 1) ++ [0x02])
  commandData cmd.BORDER_WAVEFORM [0x01]
  commandData cmd.UPDATE_CTRL1 [0x00]
  setFullWindow
  commandData cmd.AUTO_WRITE_RED [0xF7]
  waitBusy 500
  commandData cmd.AUTO_WRITE_BW [0xF7]
  waitBusy 500
  Prog.modify fun d => { d with screenOn := false, faceOdd := false, faceKnown := true }

/-- Switch the analog supply and the clock without updating the image. -/
def setPower (on : Bool) : Driver B Unit := do
  let d ← Prog.get
  if on = d.screenOn then pure ()
  else do
    commandData cmd.UPDATE_CTRL2 [if on then 0xC0 else 0x03]
    command cmd.MASTER_ACTIVATION
    waitBusy 2000
    Prog.modify fun d => { d with screenOn := on }

def deepSleep : Driver B Unit := do
  setPower false
  commandData cmd.DEEP_SLEEP [0x01]
  Prog.modify fun d => { d with faceKnown := false }

def ensureKnownFace : Driver B Unit := do
  let d ← Prog.get
  if d.faceKnown then pure () else init

/-! ## Refresh paths -/

def refreshMonoFull (mono : Plane) : Driver B Unit := do
  ensureKnownFace
  writePlane cmd.WRITE_RAM_RED mono false
  writePlane cmd.WRITE_RAM_BW mono false
  activate 0x00 (ctrl2.LOAD_TEMP ||| ctrl2.LOAD_LUT ||| ctrl2.DISPLAY) 10000

def refreshMonoPartial (mono : Plane) (x0 y0 w h : UInt16) : Driver B Unit := do
  ensureKnownFace
  commandData cmd.BORDER_WAVEFORM [0x80]
  writePlaneRect cmd.WRITE_RAM_BW mono x0 y0 w h false
  activate 0x00 0x3F 5000
  writePlaneRect cmd.WRITE_RAM_RED mono x0 y0 w h false
  commandData cmd.BORDER_WAVEFORM [0x01]

/-- Full-screen refresh in four grays with one of the absolute tables. -/
def refreshGray4 (lsb msb : Plane) (mode : GrayMode) : Driver B Unit := do
  ensureKnownFace
  match mode with
  | .fast =>
    writePlane cmd.WRITE_RAM_BW lsb true
    writePlane cmd.WRITE_RAM_RED msb true
    sendLut lut.LUT_FAST
    activate 0x00 (ctrl2.MODE2 ||| ctrl2.DISPLAY) 5000
  | mode =>
    let d ← Prog.get
    -- the odd face exchanges the two middle grays
    let (bw, red) := if d.faceOdd then (msb, lsb) else (lsb, msb)
    writePlane cmd.WRITE_RAM_BW bw true
    writePlane cmd.WRITE_RAM_RED red true
    sendLut (if mode = .quality then lut.LUT_QUALITY else lut.LUT_TEXT)
    activate 0x00 (ctrl2.DISPLAY ||| ctrl2.DISABLE_ANALOG ||| ctrl2.DISABLE_CLOCK) 15000

/-- A row of the old image with the new one in the region: what the BW bank gets. -/
def newRow (newMsb oldMsb : Plane) (first last ys ye y : Nat) : Driver B (List UInt8) :=
  let o := y * ROW_BYTES
  let row := oldMsb.read o ROW_BYTES
  if ys ≤ y ∧ y ≤ ye then
    if last + 1 < first ∨ ROW_BYTES ≤ last then Prog.throw .outOfRange
    else pure (splice row first (newMsb.read (o + first) (last + 1 - first)))
  else pure row

/-- The transition classes of a row: what the RED bank gets. -/
def classRow (newMsb oldLsb oldMsb : Plane) (first last ys ye y : Nat) : List UInt8 :=
  let o := y * ROW_BYTES
  (List.range ROW_BYTES).map fun b =>
    let m := oldMsb.byte (o + b)
    if (ys ≤ y ∧ y ≤ ye) ∧ first ≤ b ∧ b ≤ last then
      let n := newMsb.byte (o + b)
      let l := oldLsb.byte (o + b)
      (n &&& (l &&& m)) ||| (~~~n &&& (l ||| m))
    else m

/-- Differential monochrome update of a region. -/
def refreshFastest (newMsb oldLsb oldMsb : Plane) (x0 w y0 h : UInt16) : Driver B Unit := do
  ensureKnownFace
  let first := (x0 &&& ~~~7).toNat / 8
  let last := (min ((x0 + w - 1) ||| 7) (RAM_X_PIXELS - 1)).toNat / 8
  let ys := y0.toNat
  let ye := (min (y0 + h - 1) (RAM_Y_LINES - 1)).toNat
  setFullWindow
  command cmd.WRITE_RAM_BW
  stream <| (List.range RAM_Y_LINES.toNat).map (newRow newMsb oldMsb first last ys ye)
  setFullWindow
  command cmd.WRITE_RAM_RED
  stream <| (List.range RAM_Y_LINES.toNat).map fun y =>
    pure (classRow newMsb oldLsb oldMsb first last ys ye y)
  sendLut lut.LUT_FASTEST
  activate 0x00 (ctrl2.MODE2 ||| ctrl2.DISPLAY) 5000

def displayGray4 (fb : FrameBuffer) (mode : GrayMode) : Driver B Unit :=
  refreshGray4 fb.lsb fb.msb mode

def displayMono (fb : FrameBuffer) : Driver B Unit := refreshMonoFull fb.msb

end Ssd1677

end PaperNamePlate.Epd
