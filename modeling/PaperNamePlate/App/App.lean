import PaperNamePlate.Epd.Ssd1677
import PaperNamePlate.Nfc.T2tEmu
import PaperNamePlate.Plate.Content
import PaperNamePlate.Store.ConfigStore

/-!
# The application

The plate's content with its three copies (in memory, on the emulated tag, in
flash), the handlers that change it, the panel's refresh and sleep policy, and the
time slices of the tag emulation. The NFC bus, the flash and the panel are
parameters. Whether a period has elapsed, a pin is active or a button is held is an
input; the touch panel, the front light and the times are in a module of their own.
-/
namespace PaperNamePlate

open Embedded

/-- The e-paper panel with its frame buffers. -/
class Panel (D : Type) where
  draw : D → PlateContent → D
  /-- Refresh from the frame buffer; `false` for an error. -/
  displayGray4 : D → Epd.GrayMode → Bool × D
  powerOn : D → D
  hardReset : D → D
  init : D → D
  deepSleep : D → D
  /-- What the frame buffer holds is what the panel shows. -/
  copyDisplayed : D → D

/-- Larger images are not kept in memory but read from flash for each redraw. -/
def IMAGE_KEEP_MAX : Nat := 8192

/-- The UID of the tag. -/
def UID : Vector UInt8 7 := #v[0x04, 0x50, 0x41, 0x50, 0x45, 0x52, 0x01]

structure App (I F D : Type) where
  nfc : Option (St25r3916 I)
  flash : F
  panel : D
  fastRefreshes : UInt32 := 0
  epdSleeping : Bool := false
  autoAb : Bool := false
  emulate : Bool := true
  emu : T2tEmulator := .new UID
  emuRunning : Bool := false
  content : PlateContent := .demo
  dozeTest : Bool := false
  imageInFlash : Bool := false

namespace App

variable {I F D : Type} [I2c I] [Flash F] [Panel D]

/-! ## Images and the panel -/

/-- Draw the plate; an image that is not resident is loaded for the drawing only. -/
def drawPlate (a : App I F D) : App I F D :=
  if a.content.image.isNone && a.imageInFlash then
    let (stored, flash) := loadImage a.flash
    let content := { a.content with image := stored.bind MonoImage.decodeOwned }
    { a with flash, panel := Panel.draw a.panel content }
  else { a with panel := Panel.draw a.panel a.content }

/-- Drop a large image from memory once it is drawn and persisted. -/
def trimImage (a : App I F D) : App I F D :=
  if a.imageInFlash && a.content.image.any fun img => img.bits.length > IMAGE_KEEP_MAX then
    { a with content := { a.content with image := none } }
  else a

def epdRefreshLoop (mode : Epd.GrayMode) : Nat → App I F D → Bool × App I F D
  | 0, a => (false, a)
  | n + 1, a =>
    match Panel.displayGray4 a.panel mode with
    | (true, panel) => (true, { a with panel })
    | (false, panel) =>
      epdRefreshLoop mode n
        { a with panel := Panel.init (Panel.powerOn panel), epdSleeping := false }

/-- Full refresh; after a failure the panel is reset and tried once more. -/
def epdRefresh (mode : Epd.GrayMode) (a : App I F D) : Bool × App I F D := epdRefreshLoop mode 2 a

/-- Refresh, and note what is displayed if that succeeded. -/
def refreshDisplayed (mode : Epd.GrayMode) (a : App I F D) : App I F D :=
  let (ok, a) := a.epdRefresh mode
  { a with panel := if ok then Panel.copyDisplayed a.panel else a.panel, fastRefreshes := 1 }

def wakeEpd (a : App I F D) : App I F D :=
  if !a.epdSleeping then a
  else
    { a with
      panel := Panel.init (Panel.hardReset a.panel)
      epdSleeping := false
      fastRefreshes := 0 }

def manageEpdSleep (idle : Bool) (a : App I F D) : App I F D :=
  if !a.epdSleeping && idle then { a with panel := Panel.deepSleep a.panel, epdSleeping := true }
  else a

/-! ## Content changes -/

/-- Store an image in the image slot. -/
def storeImage (img : MonoImage) (a : App I F D) : App I F D :=
  match saveImage a.flash img.width img.height img.bits with
  | (.ok (), flash) => { a with flash, imageInFlash := true }
  | (.error _, flash) => { a with flash }

/-- A small image goes to the image slot. -/
def persistImage (a : App I F D) : App I F D :=
  match a.content.image with
  | none => a
  | some img => if img.bits.length ≤ IMAGE_KEEP_MAX then a.storeImage img else a

/-- Serve the content's message on the tag, and store it. -/
def serve (a : App I F D) : App I F D :=
  let canonical := a.content.toNdef
  { a with emu := (a.emu.setNdef canonical).2, flash := (save a.flash canonical).2 }

def commitContent (a : App I F D) : App I F D :=
  a.serve.persistImage.wakeEpd.drawPlate.refreshDisplayed .text

/-- Adopt what a reader wrote to the tag. -/
def onTagWritten (a : App I F D) : App I F D :=
  match a.emu.ndef with
  | some m => { a with content := a.content.applyNdef m }.commitContent
  | none => a.commitContent

def onBleContent (text : List UInt8) (a : App I F D) : App I F D :=
  match a.content.applyPlain (lossy text) with
  | .ok content => { a with content }.commitContent
  | .error _ => a

def onClearImage (a : App I F D) : App I F D :=
  { a with
    content := { a.content with image := none }
    imageInFlash := false
    flash := (clearImage a.flash).2 }.commitContent

def onBleImage (img : MonoImage) (a : App I F D) : App I F D :=
  let a := { a with content := { a.content with image := none } }.storeImage img
  let a := { a with content := { a.content with image := some img } }.serve.wakeEpd
  { a with panel := Panel.draw a.panel a.content }.trimImage.refreshDisplayed .quality

/-! ## Start-up -/

/-- Restore what flash holds. -/
def restore (a : App I F D) : App I F D :=
  let (stored, flash) := load a.flash
  let a := { a with flash }
  let a :=
    match stored with
    | some msg => { a with content := a.content.applyNdef msg }
    | none => a
  let (stored, flash) := loadImage a.flash
  let a := { a with flash }
  match stored.bind MonoImage.decodeOwned with
  | some img => { a with content := { a.content with image := some img }, imageInFlash := true }
  | none => a

/-- Start-up until the main loop. -/
def boot (nfc : Option (St25r3916 I)) (flash : F) (panel : D) (woke : Bool) : App I F D :=
  let a := restore { nfc, flash, panel }
  let a := { a with panel := Panel.draw a.panel a.content }.trimImage
  let a := if woke then a else (a.epdRefresh .quality).2
  { a with
    panel := Panel.copyDisplayed a.panel
    emu := (a.emu.setNdef a.content.toNdef).2 }

/-! ## Tag emulation -/

/-- The emulator and the chip as `t` leaves them. -/
def withTarget (a : App I F D) (t : Target I) : App I F D :=
  { a with emu := t.emu, nfc := some t.nfc }

def stopEmulation (a : App I F D) : App I F D :=
  match a.nfc with
  | none => a
  | some nfc =>
    if a.emuRunning then
      { a.withTarget (Target.stop ⟨a.emu, nfc⟩).2 with emuRunning := false }
    else a

/-- The start of a slice: whether it goes on to poll. `watchdog` says that no field was seen for
120 s. -/
def enterSlice (depth : Nat) (watchdog : Bool) (a : App I F D) : Bool × App I F D :=
  match a.nfc with
  | none => (false, a)
  | some nfc =>
    let a :=
      if a.emuRunning then a
      else
        match Target.start depth ⟨a.emu, (St25r3916.fieldOff nfc).2⟩ with
        | (.ok (), t) => { a.withTarget t with emuRunning := true }
        | (.error _, t) => a.withTarget t
    if !a.emuRunning then (false, a)
    else if watchdog then (false, { a with emuRunning := false })
    else (true, a)

/-- One poll of a slice: whether the slice goes on. -/
def pollSlice (depth : Nat) (a : App I F D) : Bool × App I F D :=
  match a.nfc with
  | none => (false, a)
  | some nfc =>
    match Target.update depth ⟨a.emu, nfc⟩ with
    | (.ok (.fieldOff true), t) => (false, (a.withTarget t).onTagWritten)
    | (.ok _, t) => (true, a.withTarget t)
    | (.error _, t) => (false, { a.withTarget t with emuRunning := false })

def pollsSlice (depth : Nat) : Nat → App I F D → App I F D
  | 0, a => a
  | n + 1, a =>
    match a.pollSlice depth with
    | (true, a) => pollsSlice depth n a
    | (false, a) => a

/-- Run the emulator for as long as `polls` polls take. -/
def runEmulationSlice (depth : Nat) (watchdog : Bool) (polls : Nat) (a : App I F D) : App I F D :=
  match a.enterSlice depth watchdog with
  | (true, a) => a.pollsSlice depth polls
  | (false, a) => a

/-! ## The main loop's work -/

/-- Switch between tag emulation and reader mode. -/
def switchMode (a : App I F D) : App I F D :=
  let a := { a with emulate := !a.emulate }
  if !a.emulate then
    let a := a.stopEmulation
    match a.nfc with
    | some nfc => { a with nfc := some nfc.configureNfca.2 }
    | none => a
  else a

/-- The chip and the panel as a poll for tags in reader mode leaves them. -/
structure Polled (I D : Type) where
  nfc : St25r3916 I
  panel : D
  fastRefreshes : UInt32
  epdSleeping : Bool

def pollNfc (p : Polled I D) (a : App I F D) : App I F D :=
  match a.nfc with
  | none => a
  | some _ =>
    { a with
      nfc := some p.nfc
      panel := p.panel
      fastRefreshes := p.fastRefreshes
      epdSleeping := p.epdSleeping }

/-- What the clock, the pins and the reader mode contribute to one `tick`. -/
structure TickEnv (I D : Type) where
  irqHigh : Bool := false
  safetyPoll : Bool := false
  watchdog : Bool := false
  polls : Nat := 1
  polled : Option (Polled I D) := none
  buttonHeld : Bool := false
  autoDue : Bool := false
  epdIdle : Bool := false
  heartbeat : Bool := false

def heartbeat (due : Bool) (a : App I F D) : App I F D :=
  match due, a.nfc with
  | true, some nfc => { a with nfc := some nfc.status.2 }
  | _, _ => a

/-- The chip is talked to only when it signalled something, while a reader is engaged, at start-up,
or for the slow safety poll. -/
def wantsSlice (e : TickEnv I D) (a : App I F D) : Bool :=
  let engaged := a.emuRunning && a.emu.state != .off
  !a.emuRunning || engaged || e.irqHigh || e.safetyPoll

/-- The NFC part of a `tick`. -/
def tickNfc (depth : Nat) (e : TickEnv I D) (a : App I F D) : App I F D :=
  if a.emulate then
    if a.wantsSlice e then a.runEmulationSlice depth e.watchdog e.polls else a
  else
    match e.polled with
    | some p => a.pollNfc p
    | none => a

def handleButtons (held : Bool) (a : App I F D) : App I F D := if held then a.switchMode else a

/-- One iteration of the application work. -/
def tick (depth : Nat) (e : TickEnv I D) (a : App I F D) : App I F D :=
  let a := (a.tickNfc depth e).handleButtons e.buttonHeld
  let a := if a.autoAb && e.autoDue then a.switchMode else a
  (a.manageEpdSleep e.epdIdle).heartbeat e.heartbeat

/-- Housekeeping while a BLE central is active. -/
def tickLight (e : TickEnv I D) (a : App I F D) : App I F D :=
  (a.handleButtons e.buttonHeld).manageEpdSleep e.epdIdle

/-- `quiet` covers the touch panel, the times and the USB host (see `Controls.quiet`). -/
def shouldDoze (quiet : Bool) (a : App I F D) : Bool :=
  a.dozeTest || (a.emulate && a.emu.state == .off && quiet)

end App

end PaperNamePlate
