import Mathlib.Logic.Function.Iterate
import PaperNamePlate.Plate.Content

/-!
# The BLE receiver

`ImgRx` is the receiver behind the CTRL, DATA and STATUS characteristics. A START
resets it and announces a length, a checksum and a window; DATA packets are taken
in order only; a commit checks the data and leaves an image or a text to be applied.
The time of the last interaction is left out: it is only compared with the clock.
-/
namespace PaperNamePlate

open Embedded

def MAX_IMAGE_BYTES : Nat := 48000
def DEFAULT_ACK_EVERY : UInt8 := 8
def MAX_CONTENT_BYTES : Nat := 1024

/-- One bit of the IEEE CRC-32. -/
def crc32Bit (crc : UInt32) : UInt32 :=
  if crc &&& 1 ≠ 0 then (crc >>> 1) ^^^ 0xEDB88320 else crc >>> 1

def crc32 (data : List UInt8) : UInt32 :=
  ~~~ data.foldl (fun crc b => crc32Bit^[8] (crc ^^^ b.toUInt32)) 0xFFFFFFFF

inductive RxState
  | idle | receiving | committed | crcError | incomplete | rejected
deriving DecidableEq, Repr

/-- The state byte of a STATUS. -/
def RxState.code : RxState → UInt8
  | idle => 0
  | receiving => 1
  | committed => 2
  | crcError => 3
  | incomplete => 4
  | rejected => 5

/-- What the current transfer carries. -/
inductive RxKind
  | none | image | content
deriving DecidableEq, Repr

structure ImgRx where
  state : RxState := .idle
  kind : RxKind := .none
  width : UInt16 := 0
  height : UInt16 := 0
  expected : Nat := 0
  crc : UInt32 := 0
  ackEvery : UInt8 := 0
  data : List UInt8 := []
  done : Option MonoImage := none
  doneContent : Option (List UInt8) := none
  notifyOn : Bool := false
  pendingNtf : Bool := false
  sinceAck : UInt8 := 0
  nakSent : Bool := false
  clearImageReq : Bool := false
  dozeTestReq : Bool := false
deriving DecidableEq, Repr

namespace ImgRx

def receiving (r : ImgRx) : Bool := r.state == .receiving

/-- Everything but the subscription goes back to its default. -/
def reset (r : ImgRx) : ImgRx := { notifyOn := r.notifyOn }

def ackEveryOf (a : UInt8) : UInt8 := if a = 0 then DEFAULT_ACK_EVERY else a

/-- CTRL `11`: start a plate-text transfer; `args` is what follows the opcode. -/
def startContent (r : ImgRx) (args : List UInt8) : ImgRx :=
  match args with
  | l0 :: l1 :: l2 :: l3 :: c0 :: c1 :: c2 :: c3 :: a :: _ =>
    let len := (u32OfLe l0 l1 l2 l3).toNat
    if len = 0 ∨ len > MAX_CONTENT_BYTES then { r.reset with pendingNtf := true }
    else
      { r.reset with
        state := .receiving
        kind := .content
        expected := len
        crc := u32OfLe c0 c1 c2 c3
        ackEvery := ackEveryOf a
        data := []
        pendingNtf := true }
  | _ => r

/-- CTRL `10`: start an image transfer. -/
def startImage (r : ImgRx) (args : List UInt8) : ImgRx :=
  match args with
  | w0 :: w1 :: h0 :: h1 :: l0 :: l1 :: l2 :: l3 :: c0 :: c1 :: c2 :: c3 :: a :: _ =>
    let w := u16OfLe w0 w1
    let h := u16OfLe h0 h1
    let len := (u32OfLe l0 l1 l2 l3).toNat
    let rowBytes := (w.toNat + 7) / 8
    if w = 0 ∨ h = 0 ∨ w > 480 ∨ h > 800 ∨ len ≠ rowBytes * h.toNat ∨ len > MAX_IMAGE_BYTES then
      { r.reset with pendingNtf := true }
    else
      { r.reset with
        state := .receiving
        kind := .image
        width := w
        height := h
        expected := len
        crc := u32OfLe c0 c1 c2 c3
        ackEvery := ackEveryOf a
        data := []
        pendingNtf := true }
  | _ => r

/-- CTRL `02`: verify length and checksum, and leave the result to be applied. -/
def commit (r : ImgRx) : ImgRx :=
  let r :=
    if !r.receiving then r
    else if r.data.length ≠ r.expected then { r with state := .incomplete, data := [] }
    else if crc32 r.data ≠ r.crc then { r with state := .crcError, data := [] }
    else if r.kind = .content then
      match PlateContent.validatePlain (lossy r.data) with
      | .ok _ => { r with state := .committed, doneContent := some r.data, data := [] }
      | .error _ => { r with state := .rejected, data := [] }
    else
      { r with state := .committed, done := some ⟨r.width, r.height, r.data⟩, data := [] }
  { r with pendingNtf := true }

def ctrl (r : ImgRx) (d : List UInt8) : ImgRx :=
  match d with
  | [] => r
  | op :: args =>
    if op = 0x11 ∧ d.length ≥ 10 then r.startContent args
    else if op = 0x10 ∧ d.length ≥ 14 then r.startImage args
    else if op = 0x02 then r.commit
    else if op = 0x03 then { r.reset with pendingNtf := true }
    else if op = 0x04 then { r with pendingNtf := true }
    else if op = 0x05 then { r with dozeTestReq := true }
    else if op = 0x06 then { r with clearImageReq := true, pendingNtf := true }
    else r

def push (r : ImgRx) (d : List UInt8) : ImgRx :=
  if !r.receiving || d.length < 3 then r
  else
    match d with
    | o0 :: o1 :: payload =>
      let off := (u16OfLe o0 o1).toNat
      if off = r.data.length ∧ r.data.length + payload.length ≤ r.expected then
        let r :=
          { r with data := r.data ++ payload, nakSent := false, sinceAck := r.sinceAck + 1 }
        if r.sinceAck ≥ r.ackEvery ∨ r.data.length = r.expected then
          { r with sinceAck := 0, pendingNtf := true }
        else r
      else if !r.nakSent then { r with nakSent := true, sinceAck := 0, pendingNtf := true }
      else r
    | _ => r

def statusBytes (r : ImgRx) : List UInt8 :=
  r.state.code :: (u32ToLe (UInt32.ofNat r.data.length) ++ u32ToLe (UInt32.ofNat r.expected))

/-- Take the pending STATUS notification, if the client subscribed. -/
def takeNotification (r : ImgRx) : Option (List UInt8) × ImgRx :=
  if !r.pendingNtf then (none, r)
  else
    let r := { r with pendingNtf := false }
    (if r.notifyOn then some r.statusBytes else none, r)

/-! ## What the session takes out -/

/-- The committed image, once its STATUS is out. -/
def takeImage (r : ImgRx) : Option MonoImage × ImgRx :=
  if r.pendingNtf then (none, r) else (r.done, { r with done := none })

def takeText (r : ImgRx) : Option (List UInt8) × ImgRx :=
  if r.pendingNtf then (none, r) else (r.doneContent, { r with doneContent := none })

def takeClear (r : ImgRx) : Bool × ImgRx :=
  let c := r.clearImageReq && !r.pendingNtf
  (c, if c then { r with clearImageReq := false } else r)

end ImgRx

/-- A GATT access of the client. Reading STATUS or CONTENT does not change the receiver. -/
inductive Gatt
  | ctrl (d : List UInt8)
  | data (d : List UInt8)
  | subscribe (on : Bool)
  | read
deriving DecidableEq, Repr

def ImgRx.gatt (r : ImgRx) : Gatt → ImgRx
  | .ctrl d => r.ctrl d
  | .data d => r.push d
  | .subscribe on => { r with notifyOn := on }
  | .read => r

/-- All that happens to the receiver within a session: GATT accesses and what the main loop takes
out; after an image or a text was applied, the state goes back to idle. -/
inductive RxOp
  | gatt (g : Gatt)
  | takeNotification
  | takeImage
  | takeText
  | takeClear
deriving DecidableEq, Repr

def ImgRx.step (r : ImgRx) : RxOp → ImgRx
  | .gatt g => r.gatt g
  | .takeNotification => r.takeNotification.2
  | .takeImage =>
    match r.takeImage with
    | (some _, r) => { r with state := .idle }
    | (none, r) => r
  | .takeText =>
    match r.takeText with
    | (some _, r) => { r with state := .idle }
    | (none, r) => r
  | .takeClear => r.takeClear.2

end PaperNamePlate
