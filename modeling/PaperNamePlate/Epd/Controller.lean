import PaperNamePlate.Epd.Lut
import PaperNamePlate.Lib.Raster

/-!
# The display controller

What the SSD1677 does with the bytes it is sent, as far as the driver relies on it:
it keeps the parameters sent with each command, writes its two RAM banks through an
address window, and drives the glass when it is activated. `swaps` counts the mode-2
activations since the last software reset or mode-1 update: an odd count is the odd
face. What a waveform other than the driver's four tables does to the glass is not
known: such a pixel is `none`.
-/
namespace PaperNamePlate.Epd

open Embedded

namespace cmd

def DRIVER_OUTPUT : UInt8 := 0x01
def GATE_VOLTAGE : UInt8 := 0x03
def SOURCE_VOLTAGE : UInt8 := 0x04
def BOOSTER_SOFT_START : UInt8 := 0x0C
def DEEP_SLEEP : UInt8 := 0x10
def DATA_ENTRY : UInt8 := 0x11
def SW_RESET : UInt8 := 0x12
def TEMP_SENSOR : UInt8 := 0x18
def MASTER_ACTIVATION : UInt8 := 0x20
def UPDATE_CTRL1 : UInt8 := 0x21
def UPDATE_CTRL2 : UInt8 := 0x22
def WRITE_RAM_BW : UInt8 := 0x24
def WRITE_RAM_RED : UInt8 := 0x26
def WRITE_VCOM : UInt8 := 0x2C
def WRITE_LUT : UInt8 := 0x32
def BORDER_WAVEFORM : UInt8 := 0x3C
def SET_RAM_X : UInt8 := 0x44
def SET_RAM_Y : UInt8 := 0x45
def AUTO_WRITE_RED : UInt8 := 0x46
def AUTO_WRITE_BW : UInt8 := 0x47
def SET_RAM_X_CNT : UInt8 := 0x4E
def SET_RAM_Y_CNT : UInt8 := 0x4F

end cmd

/-! Bits of Display Update Control 2. -/

namespace ctrl2

def ENABLE_CLOCK : UInt8 := 0x80
def ENABLE_ANALOG : UInt8 := 0x40
def LOAD_TEMP : UInt8 := 0x20
def LOAD_LUT : UInt8 := 0x10
def MODE2 : UInt8 := 0x08
def DISPLAY : UInt8 := 0x04
def DISABLE_ANALOG : UInt8 := 0x02
def DISABLE_CLOCK : UInt8 := 0x01

end ctrl2

/-- A RAM bank: rows of bytes. -/
abbrev Ram : Type := Nat → Nat → UInt8

/-- The RAM banks, the face and the glass. -/
structure Screen where
  bw : Ram
  red : Ram
  swaps : Nat
  glass : Nat → Nat → Option Nat

namespace Screen

/-- The bits of a pixel in the two banks. -/
def bwBit (s : Screen) (r c : Nat) : Bool := bitAt (s.bw r (c / 8)) (c % 8)
def redBit (s : Screen) (r c : Nat) : Bool := bitAt (s.red r (c / 8)) (c % 8)

def oddFace (s : Screen) : Bool := s.swaps % 2 = 1

/-- The group of the waveform table that two bits select. -/
def group (hi lo : Bool) : Nat := 2 * hi.toNat + lo.toNat

/-- What a mode-1 update shows: the bits are exchanged on the odd face. -/
def mode1 (s : Screen) (table : List UInt8) (r c : Nat) : Option Nat :=
  if table = lut.LUT_QUALITY.bytes ∨ table = lut.LUT_TEXT.bytes then
    if s.oddFace then some (3 - group (s.bwBit r c) (s.redBit r c))
    else some (3 - group (s.redBit r c) (s.bwBit r c))
  else none

/-- What a mode-2 update shows. -/
def mode2 (s : Screen) (table : List UInt8) (r c : Nat) : Option Nat :=
  if table = lut.LUT_FAST.bytes then some (3 - group (s.redBit r c) (s.bwBit r c))
  else if table = lut.LUT_FASTEST.bytes then
    match s.redBit r c, s.bwBit r c with
    | false, false => s.glass r c
    | false, true => some 3
    | true, false => some 0
    | true, true => s.glass r c
  else none

/-- A master activation; `table` is `none` if the built-in waveform is loaded first. -/
def activate (s : Screen) (c2 : UInt8) (table : Option (List UInt8)) : Screen :=
  if c2 &&& ctrl2.MODE2 ≠ 0 then
    { s with
      swaps := s.swaps + 1
      glass := if c2 &&& ctrl2.DISPLAY ≠ 0 then fun r c => table.bind (s.mode2 · r c) else s.glass }
  else if c2 &&& ctrl2.DISPLAY ≠ 0 then
    { s with swaps := 0, glass := fun r c => table.bind (s.mode1 · r c) }
  else s

end Screen

/-- What the controller was told to do and has not been seen to finish: `resetting` until the BW
bank is filled after a software reset, `updating` until BUSY is seen low after an update. -/
inductive Phase
  | settled
  | resetting
  | filling
  | updating (mode2 : Bool)
deriving DecidableEq, Repr

structure Controller where
  screen : Screen
  command : UInt8
  /-- The parameters last sent with each command. -/
  params : UInt8 → List UInt8
  /-- The RAM address counters: row, and byte of the row. -/
  cursor : Nat × Nat
  phase : Phase

namespace Controller

/-- A controller with nothing in it. -/
def blank : Controller where
  screen := { bw := fun _ _ => 0, red := fun _ _ => 0, swaps := 0, glass := fun _ _ => none }
  command := 0
  params _ := []
  cursor := (0, 0)
  phase := .settled

/-- A parameter of two bytes, the low one first. -/
def word (bs : List UInt8) : Nat := (bs.getD 0 0).toNat + 2 ^ 8 * (bs.getD 1 0).toNat

/-- The address window. -/
def window (k : Controller) : Raster where
  left := word (k.params cmd.SET_RAM_X) / 8
  right := word ((k.params cmd.SET_RAM_X).drop 2) / 8
  top := word (k.params cmd.SET_RAM_Y)
  bottom := word ((k.params cmd.SET_RAM_Y).drop 2)

def updateCtrl2 (k : Controller) : UInt8 := (k.params cmd.UPDATE_CTRL2).headD 0

/-- The waveform table that was sent last. -/
def table (k : Controller) : List UInt8 :=
  k.params cmd.WRITE_LUT ++ k.params cmd.GATE_VOLTAGE ++ k.params cmd.SOURCE_VOLTAGE ++
    k.params cmd.WRITE_VCOM

/-- The phase after a command byte. -/
def phaseOn (k : Controller) (b : UInt8) : Phase :=
  if b = cmd.SW_RESET then .resetting
  else if b = cmd.AUTO_WRITE_BW then if k.phase = .resetting then .filling else k.phase
  else if b = cmd.MASTER_ACTIVATION then
    if k.updateCtrl2 &&& ctrl2.MODE2 ≠ 0 then .updating true
    else if k.updateCtrl2 &&& ctrl2.DISPLAY ≠ 0 then .updating false
    else k.phase
  else k.phase

/-- A byte with D/C low. -/
def onCommand (k : Controller) (b : UInt8) : Controller :=
  { k with
    command := b
    params := Function.update k.params b []
    phase := k.phaseOn b
    screen :=
      if b = cmd.SW_RESET then { k.screen with swaps := 0 }
      else if b = cmd.MASTER_ACTIVATION then
        k.screen.activate k.updateCtrl2
          (if k.updateCtrl2 &&& ctrl2.LOAD_LUT ≠ 0 then none else some k.table)
      else k.screen }

/-- A byte with D/C high. -/
def onData (k : Controller) (b : UInt8) : Controller :=
  if k.command = cmd.WRITE_RAM_BW then
    let (cursor, bw) := k.window.put (k.cursor, k.screen.bw) b
    { k with cursor, screen := { k.screen with bw } }
  else if k.command = cmd.WRITE_RAM_RED then
    let (cursor, red) := k.window.put (k.cursor, k.screen.red) b
    { k with cursor, screen := { k.screen with red } }
  else
    let sent := k.params k.command ++ [b]
    let fill : Ram := fun _ _ => if b &&& 0x80 ≠ 0 then 0xFF else 0x00
    { k with
      params := Function.update k.params k.command sent
      cursor :=
        if k.command = cmd.SET_RAM_X_CNT then (k.cursor.1, word sent / 8)
        else if k.command = cmd.SET_RAM_Y_CNT then (word sent, k.cursor.2)
        else k.cursor
      screen :=
        if k.command = cmd.AUTO_WRITE_BW then { k.screen with bw := fill }
        else if k.command = cmd.AUTO_WRITE_RED then { k.screen with red := fill }
        else k.screen }

/-- BUSY is seen low. -/
def onIdle (k : Controller) : Controller :=
  { k with phase := if k.phase = .resetting then .resetting else .settled }

/-- Bytes with D/C at one level. -/
def feed (k : Controller) (data : Bool) (bs : List UInt8) : Controller :=
  bs.foldl (if data then onData else onCommand) k

/-- A command with its parameters. -/
def send (k : Controller) (c : UInt8) (bs : List UInt8) : Controller := (k.onCommand c).feed true bs

/-! ## What a command leaves alone -/

@[simp] theorem feed_nil (k : Controller) (data : Bool) : k.feed data [] = k := rfl

theorem feed_data_cons (k : Controller) (b : UInt8) (bs : List UInt8) :
    k.feed true (b :: bs) = (k.onData b).feed true bs := rfl

theorem feed_append (k : Controller) (data : Bool) (bs cs : List UInt8) :
    k.feed data (bs ++ cs) = (k.feed data bs).feed data cs := List.foldl_append

@[simp] theorem swaps_onData (k : Controller) (b : UInt8) :
    (k.onData b).screen.swaps = k.screen.swaps := by
  unfold onData
  split_ifs <;> rfl

@[simp] theorem phase_onData (k : Controller) (b : UInt8) : (k.onData b).phase = k.phase := by
  unfold onData
  split_ifs <;> rfl

@[simp] theorem command_onData (k : Controller) (b : UInt8) : (k.onData b).command = k.command := by
  unfold onData
  split_ifs <;> rfl

@[simp] theorem swaps_feed (k : Controller) (bs : List UInt8) :
    (k.feed true bs).screen.swaps = k.screen.swaps := by
  induction bs generalizing k with
  | nil => rfl
  | cons b bs ih => rw [feed_data_cons, ih, swaps_onData]

@[simp] theorem phase_feed (k : Controller) (bs : List UInt8) :
    (k.feed true bs).phase = k.phase := by
  induction bs generalizing k with
  | nil => rfl
  | cons b bs ih => rw [feed_data_cons, ih, phase_onData]

/-- A command that neither resets, nor activates, nor ends the bring-up. -/
def Quiet (c : UInt8) : Prop :=
  c ≠ cmd.SW_RESET ∧ c ≠ cmd.MASTER_ACTIVATION ∧ c ≠ cmd.AUTO_WRITE_BW

instance (c : UInt8) : Decidable (Quiet c) := by unfold Quiet; infer_instance

theorem screen_onCommand {k : Controller} {c : UInt8} (h : Quiet c) :
    (k.onCommand c).screen = k.screen := by
  obtain ⟨hreset, hactivate, -⟩ := h
  simp only [onCommand, hreset, hactivate, if_false]

theorem phase_onCommand {k : Controller} {c : UInt8} (h : Quiet c) :
    (k.onCommand c).phase = k.phase := by
  obtain ⟨hreset, hactivate, hfill⟩ := h
  simp only [onCommand, phaseOn, hreset, hactivate, hfill, if_false]

/-! ## Parameters and RAM -/

/-- A command whose data bytes are parameters only. -/
def Plain (c : UInt8) : Prop :=
  Quiet c ∧ c ≠ cmd.WRITE_RAM_BW ∧ c ≠ cmd.WRITE_RAM_RED ∧ c ≠ cmd.AUTO_WRITE_RED

instance (c : UInt8) : Decidable (Plain c) := by unfold Plain; infer_instance

theorem feed_params {k : Controller} (h : Plain k.command) (bs : List UInt8) :
    (k.feed true bs).params = Function.update k.params k.command (k.params k.command ++ bs) ∧
      (k.feed true bs).screen = k.screen := by
  induction bs generalizing k with
  | nil => exact ⟨by simp, rfl⟩
  | cons b bs ih =>
    have hnext : Plain (k.onData b).command := by rwa [command_onData]
    obtain ⟨⟨-, -, hfill⟩, hbw, hred, hfill'⟩ := h
    have hparams : (k.onData b).params =
        Function.update k.params k.command (k.params k.command ++ [b]) := by
      simp only [onData, hbw, hred, if_false]
    have hscreen : (k.onData b).screen = k.screen := by
      simp only [onData, hbw, hred, hfill, hfill', if_false]
    obtain ⟨hp, hs⟩ := ih hnext
    rw [feed_data_cons, hp, hs, command_onData, hparams, hscreen]
    simp

theorem params_send {c : UInt8} (h : Plain c) (k : Controller) (bs : List UInt8) :
    (k.send c bs).params = Function.update k.params c bs := by
  rw [send, (feed_params (k := k.onCommand c) h bs).1]
  simp [onCommand]

theorem screen_send {c : UInt8} (h : Plain c) (k : Controller) (bs : List UInt8) :
    (k.send c bs).screen = k.screen := by
  rw [send, (feed_params (k := k.onCommand c) h bs).2, screen_onCommand h.1]

/-- Data bytes after WRITE_RAM_BW go through the window. -/
theorem feed_bw {k : Controller} (h : k.command = cmd.WRITE_RAM_BW) (bs : List UInt8) :
    (k.feed true bs).screen =
      { k.screen with bw := (bs.foldl k.window.put (k.cursor, k.screen.bw)).2 } := by
  induction bs generalizing k with
  | nil => rfl
  | cons b bs ih =>
    rw [feed_data_cons, ih (by rw [command_onData, h]), List.foldl_cons]
    simp only [onData, h, if_true, window]

theorem feed_red {k : Controller} (h : k.command = cmd.WRITE_RAM_RED) (bs : List UInt8) :
    (k.feed true bs).screen =
      { k.screen with red := (bs.foldl k.window.put (k.cursor, k.screen.red)).2 } := by
  induction bs generalizing k with
  | nil => rfl
  | cons b bs ih =>
    have hbw : cmd.WRITE_RAM_RED ≠ cmd.WRITE_RAM_BW := by decide
    rw [feed_data_cons, ih (by rw [command_onData, h]), List.foldl_cons]
    simp only [onData, h, hbw, if_true, if_false, window]

end Controller

end PaperNamePlate.Epd
