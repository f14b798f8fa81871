import PaperNamePlate.App.App
import PaperNamePlate.Ble.ImgRx
import PaperNamePlate.Lib.Run

/-!
# A BLE session

The main loop of one session: up to 96 rounds of the HCI pump, then whatever was
committed is applied, then the application's own work. The loop is cut into steps;
the HCI traffic, the clock and the pins are the input of a step. Bringing up the
stack and the attribute table are left out.
-/
namespace PaperNamePlate

open Embedded

/-- The outcome of one round of HCI work with the GATT accesses that it served. -/
inductive Work
  | disconnected
  | didWork (accesses : List Gatt)
  | error (accesses : List Gatt)

def Work.accesses : Work → List Gatt
  | .disconnected => []
  | .didWork gs | .error gs => gs

structure SessionEnv (I D : Type) extends App.TickEnv I D where
  /-- The controller has something for us. -/
  hciReady : Bool := false
  work : Work := .didWork []
  /-- A GATT access within the last three seconds. -/
  bleActive : Bool := false
  /-- No HCI traffic for long enough to sleep. -/
  hciQuiet : Bool := false
  /-- The rest of `shouldDoze`: touch panel, times and USB host. -/
  quiet : Bool := false

/-- Where in the loop the session is; `pump i` is round `i` of the pump. -/
inductive Phase
  | pump (i : Nat)
  | apply
  | idle
  | ended (doze : Bool)
deriving DecidableEq, Repr

/-- What the receiver hands to the app. -/
inductive BleUpdate
  | image (img : MonoImage)
  | text (bs : List UInt8)
  | clear
deriving DecidableEq, Repr

structure Session (I F D : Type) where
  app : App I F D
  rx : ImgRx := {}
  /-- What the CONTENT characteristic serves. -/
  contentText : List UInt8
  errors : Nat := 0
  phase : Phase := .pump 0

namespace Session

variable {I F D : Type} [I2c I] [Flash F] [Panel D]

def start (app : App I F D) : Session I F D where
  app := app
  contentText := utf8 app.content.toPlain

/-- Leave the loop; a requested test of the deep sleep is honoured whatever ended it. -/
def finish (doze : Bool) (s : Session I F D) : Session I F D :=
  if s.rx.dozeTestReq then
    { s with app := { s.app with dozeTest := true }, phase := .ended true }
  else { s with phase := .ended doze }

/-- One round of the pump. -/
def pump (i : Nat) (e : SessionEnv I D) (s : Session I F D) : Session I F D :=
  let (ntf, rx) := s.rx.takeNotification
  let s := { s with rx }
  if ntf.isNone && !e.hciReady then { s with phase := .apply }
  else
    match e.work with
    | .disconnected => s.finish false
    | .didWork gs =>
      { s with rx := run ImgRx.gatt s.rx gs, phase := if i + 1 < 96 then .pump (i + 1) else .apply }
    | .error gs =>
      let s := { s with rx := run ImgRx.gatt s.rx gs, errors := s.errors + 1 }
      if s.errors ≥ 8 then s.finish false else { s with phase := .apply }

/-! ## Applying what was committed -/

def applyImage (s : Session I F D) : List BleUpdate × Session I F D :=
  match s.rx.takeImage with
  | (some img, rx) =>
    ([.image img],
      { s with app := s.app.onBleImage img, rx := { rx with state := .idle }, errors := 0 })
  | (none, rx) => ([], { s with rx })

def applyText (s : Session I F D) : List BleUpdate × Session I F D :=
  match s.rx.takeText with
  | (some text, rx) =>
    let app := s.app.onBleContent text
    ([.text text],
      { s with
        app, rx := { rx with state := .idle }, contentText := utf8 app.content.toPlain
        errors := 0 })
  | (none, rx) => ([], { s with rx })

def applyClear (s : Session I F D) : List BleUpdate × Session I F D :=
  match s.rx.takeClear with
  | (true, rx) => ([.clear], { s with rx, app := s.app.onClearImage })
  | (false, rx) => ([], { s with rx })

/-- Apply what is due; while a transfer is running, nothing but the pump follows. -/
def applyDue (s : Session I F D) : List BleUpdate × Session I F D :=
  let (images, s) := s.applyImage
  let (texts, s) := s.applyText
  let (clears, s) := s.applyClear
  (images ++ texts ++ clears, { s with phase := if s.rx.receiving then .pump 0 else .idle })

/-! ## The loop -/

/-- The work between transfers. -/
def idle (depth : Nat) (e : SessionEnv I D) (s : Session I F D) : Session I F D :=
  if e.bleActive then { s with app := s.app.tickLight e.toTickEnv, phase := .pump 0 }
  else if s.rx.dozeTestReq then s.finish true
  else if e.hciQuiet && s.app.shouldDoze e.quiet then s.finish true
  else { s with app := s.app.tick depth e.toTickEnv, phase := .pump 0 }

def step (depth : Nat) (s : Session I F D) (e : SessionEnv I D) : Session I F D :=
  match s.phase with
  | .pump i => s.pump i e
  | .apply => s.applyDue.2
  | .idle => s.idle depth e
  | .ended _ => s

/-- What a step hands to the app. -/
def handed (s : Session I F D) (_ : SessionEnv I D) : List BleUpdate :=
  match s.phase with
  | .apply => s.applyDue.1
  | _ => []

end Session

end PaperNamePlate
