import PaperNamePlate.Nfc.St25r3916

/-!
# Type 2 tag emulation

The emulated NTAG216: its memory with the NDEF TLV in the user area, the target
state machine driven by `update`, and the Type 2 commands. `gotoOff` and `gotoIdle`
call each other as long as the chip's answers demand it; `depth` bounds how many
nested calls the stack takes.
-/
namespace PaperNamePlate

open Embedded

def PAGES : Nat := 231
def MEM_BYTES : Nat := PAGES * 4
def USER_FIRST_PAGE : Nat := 4
def USER_LAST_PAGE : Nat := 225
def USER_BYTES : Nat := (USER_LAST_PAGE - USER_FIRST_PAGE + 1) * 4

def ATQA : List UInt8 := [0x44, 0x00]
def SAK_CASCADE : UInt8 := 0x04
def GET_VERSION_NTAG216 : List UInt8 := [0x00, 0x04, 0x04, 0x02, 0x01, 0x00, 0x13, 0x03]
def ACK : UInt8 := 0x0A
def NAK : UInt8 := 0x00

def D_AC_AP2P : UInt8 := 0x08
def D_212_424_1R : UInt8 := 0x04
def D_106_AC_A : UInt8 := 0x01
def AUX_NO_CRC_RX : UInt8 := 0x80
def MODE_TARGET_BITRATE_DETECT : UInt8 := (0x80 : UInt8) ||| ((0x09 : UInt8) <<< 3)
def MODE_TARGET_LISTEN_A : UInt8 := (0x80 : UInt8) ||| ((0x01 : UInt8) <<< 3)

inductive EmuState
  | off | idle | ready | active | halt
deriving DecidableEq, Repr

inductive EmuEvent
  | none
  | fieldOn
  | fieldOff (written : Bool)
  | selected
deriving DecidableEq, Repr

structure T2tEmulator where
  memory : Block MEM_BYTES
  state : EmuState
  bitrate106 : Bool
  wakeup : Bool
  /-- The memory was modified by a reader and not adopted yet. -/
  dirty : Bool
  commands : UInt32
  lastCmd : UInt8

namespace T2tEmulator

/-- Empty tag with the given UID. -/
def new (uid : Vector UInt8 7) : T2tEmulator where
  memory :=
    { bytes :=
        [uid[0], uid[1], uid[2], (0x88 : UInt8) ^^^ uid[0] ^^^ uid[1] ^^^ uid[2],
          uid[3], uid[4], uid[5], uid[6],
          uid[3] ^^^ uid[4] ^^^ uid[5] ^^^ uid[6], 0x48, 0, 0, 0xE1, 0x10, 0x6D, 0x00,
          0x03, 0x00, 0xFE, 0x00] ++ List.replicate 884 0 ++
        [0x00, 0x00, 0x00, 0xFF, 0x00, 0x05, 0x00, 0x00, 0xFF, 0xFF, 0xFF, 0xFF] ++
        List.replicate 8 0
      size := by
        simp only [List.length_append, List.length_cons, List.length_nil, List.length_replicate]
        decide }
  state := .off
  bitrate106 := false
  wakeup := false
  dirty := false
  commands := 0
  lastCmd := 0

def uid (e : T2tEmulator) : List UInt8 := e.memory.read 0 3 ++ e.memory.read 4 4

/-! ## The NDEF message in user memory -/

/-- The NDEF TLV of a message, with the terminator behind it. -/
def ndefTlv (msg : List UInt8) : List UInt8 :=
  (if msg.length < 0xFF then [0x03, UInt8.ofNat msg.length]
    else [0x03, 0xFF] ++ u16ToBe (UInt16.ofNat msg.length)) ++ msg ++ [0xFE]

theorem length_ndefTlv (msg : List UInt8) :
    (ndefTlv msg).length = (if msg.length < 0xFF then 2 else 4) + msg.length + 1 := by
  unfold ndefTlv
  split <;> simp <;> omega

/-- Store a message as the only TLV in user memory; `false` if it does not fit. -/
def setNdef (e : T2tEmulator) (msg : List UInt8) : Bool × T2tEmulator :=
  if h : (if msg.length < 0xFF then 2 else 4) + msg.length + 1 > USER_BYTES then (false, e)
  else
    have hfit : (ndefTlv msg).length ≤ USER_BYTES := by rw [length_ndefTlv]; omega
    have hmem : USER_FIRST_PAGE * 4 + USER_BYTES ≤ MEM_BYTES := by decide
    let m := e.memory.write (USER_FIRST_PAGE * 4) (ndefTlv msg) (by omega)
    let m := m.write (USER_FIRST_PAGE * 4 + (ndefTlv msg).length)
      (List.replicate (USER_BYTES - (ndefTlv msg).length) 0) (by rw [List.length_replicate]; omega)
    (true, { e with memory := m })

def ndefLoop (user : List UInt8) : Nat → Nat → Option (List UInt8)
  | 0, _ => none
  | n + 1, i => do
    let t ← user[i]?
    if t = 0x00 then ndefLoop user n (i + 1)
    else if t = 0xFE then none
    else do
      let l ← user[i + 1]?
      let (len, hdr) ←
        if l = 0xFF then do
          let a ← user[i + 2]?
          let b ← user[i + 3]?
          some ((u16OfBe a b).toNat, 4)
        else some (l.toNat, 2)
      let v ← slice? user (i + hdr) (i + hdr + len)
      if t = 0x03 then some v else ndefLoop user n (i + hdr + len)

/-- The message of the first NDEF TLV in user memory. -/
def ndef (e : T2tEmulator) : Option (List UInt8) :=
  let user := e.memory.read (USER_FIRST_PAGE * 4) USER_BYTES
  ndefLoop user (user.length + 1) 0

end T2tEmulator

/-! ## Chip control -/

/-- An error of the driver, or the end of the stack. -/
inductive Fault (ε : Type)
  | error (e : ε)
  | stack

def Fault.map {ε ε' : Type} (f : ε → ε') : Fault ε → Fault ε'
  | .error e => .error (f e)
  | .stack => .stack

/-- The emulator and the chip that it drives. -/
structure Target (I : Type) where
  emu : T2tEmulator
  nfc : St25r3916 I

inductive CmdResult
  | stay | halt | drop
deriving DecidableEq, Repr

namespace Target

open St25r3916

variable {I : Type} [I2c I]

abbrev Emu (I : Type) [I2c I] (α : Type) : Type := Prog (Target I) (Fault (I2c.Error I)) α

def onNfc {ε α : Type} (p : Prog (St25r3916 I) ε α) : Prog (Target I) ε α :=
  p.zoom (·.nfc) fun nfc t => { t with nfc }

def chip {α : Type} (p : Access I α) : Emu I α := (onNfc p).mapError .error

def setEmu (f : T2tEmulator → T2tEmulator) : Emu I Unit :=
  Prog.modify fun t => { t with emu := f t.emu }

def getEmu : Emu I T2tEmulator := do
  let t ← Prog.get
  pure t.emu

def fieldPresent : Emu I Bool := do
  let v ← chip (readReg reg.AUX_DISPLAY)
  pure (v &&& 0x40 ≠ 0)

/-- Wait for the oscillator: `n + 1` reads, one every 5 ms. -/
def waitOsc : Nat → Emu I Bool
  | 0 => do
    let v ← chip (readReg reg.AUX_DISPLAY)
    pure (v &&& 0x10 ≠ 0)
  | n + 1 => do
    let v ← chip (readReg reg.AUX_DISPLAY)
    if v &&& 0x10 = 0 then waitOsc n else pure true

mutual

def gotoOff : Nat → Emu I Unit
  | 0 => Prog.throw .stack
  | depth + 1 => do
    setEmu fun e => { e with bitrate106 := false, wakeup := false }
    chip (command cmd.STOP_ALL)
    chip (modifyReg reg.OP_CONTROL 0 op.RX_EN)
    chip (modifyReg reg.NFCIP1_PASSIVE_TARGET D_106_AC_A 0)
    chip (command cmd.GO_TO_SENSE)
    chip (modifyReg reg.ISO14443A_NFC 0x20 0)
    chip clearIrq
    chip (modifyReg reg.AUX 0 AUX_NO_CRC_RX)
    chip (writeReg reg.MODE MODE_TARGET_BITRATE_DETECT)
    if ← fieldPresent then gotoIdle depth
    else do
      chip (modifyReg reg.OP_CONTROL op.TX_EN 0)
      chip (modifyReg reg.OP_CONTROL 0 (op.EN ||| op.RX_EN))
      setEmu fun e => { e with state := .off }

def gotoIdle : Nat → Emu I Unit
  | 0 => Prog.throw .stack
  | depth + 1 => do
    let v ← chip (readReg reg.OP_CONTROL)
    let stable ← (if v &&& op.EN = 0 then do
        chip (modifyReg reg.OP_CONTROL 0 (op.EN ||| op.RX_EN))
        -- the 42nd read finds `waited > 200`
        waitOsc 41
      else pure true)
    if !stable then gotoOff depth
    else do
      chip (modifyReg reg.AUX 0 AUX_NO_CRC_RX)
      let e ← getEmu
      Prog.when (e.state = .active ∧ !e.wakeup) do
        chip (modifyReg reg.NFCIP1_PASSIVE_TARGET D_106_AC_A 0)
        chip (command cmd.GO_TO_SENSE)
      chip (command cmd.CLEAR_FIFO)
      chip (command cmd.UNMASK_RECEIVE_DATA)
      setEmu fun e => { e with wakeup := false, state := .idle }

end

def gotoReady (depth : Nat) : Emu I Unit := do
  let f ← chip (takeIrq irq.EOF)
  if f ≠ 0 then gotoOff depth
  else do
    chip (modifyReg reg.AUX AUX_NO_CRC_RX 0)
    chip (writeReg reg.BIT_RATE 0x00)
    chip (modifyReg reg.OP_CONTROL op.WU 0)
    chip (writeReg reg.MODE MODE_TARGET_LISTEN_A)
    setEmu fun e => { e with state := .ready }

def gotoActive : Emu I Unit := do
  chip (modifyReg reg.NFCIP1_PASSIVE_TARGET 0 D_106_AC_A)
  let _ ← chip (takeIrq irq.ERROR_MASK)
  setEmu fun e => { e with state := .active }

def gotoHalt (depth : Nat) : Emu I Unit := do
  chip (modifyReg reg.NFCIP1_PASSIVE_TARGET D_106_AC_A 0)
  chip (command cmd.GO_TO_SLEEP)
  chip (writeReg reg.MODE MODE_TARGET_BITRATE_DETECT)
  chip (modifyReg reg.ISO14443A_NFC 0x20 0)
  chip (command cmd.UNMASK_RECEIVE_DATA)
  if ← fieldPresent then setEmu fun e => { e with state := .halt } else gotoOff depth

def readBitrate : Emu I Unit := do
  let v ← chip (readReg reg.BITRATE_DETECT)
  setEmu fun e => { e with bitrate106 := (v >>> 4) &&& 0x03 = 0 }

def configure (depth : Nat) : Emu I Unit := do
  chip (command cmd.STOP_ALL)
  chip (modifyReg reg.OP_CONTROL op.WU 0)
  chip (modifyReg reg.OP_CONTROL 0x03 0x03)
  let e ← getEmu
  chip (modifyReg reg.AUX 0x30 0x10)
  chip (loadPtMemA (e.uid ++ [0, 0, 0] ++ ATQA ++ [SAK_CASCADE, 0x00, 0x00]))
  chip (writeReg reg.MODE MODE_TARGET_BITRATE_DETECT)
  chip (writeReg reg.NFCIP1_PASSIVE_TARGET (0x50 ||| D_AC_AP2P ||| D_212_424_1R))
  chip (writeReg reg.IRQ_MASK_TARGET 0x00)
  chip (writeReg reg.TIMER_EMV_CONTROL 0x08)
  chip (writeReg reg.MASK_RX_TIMER 4)
  chip (modifyReg reg.ISO14443A_NFC 0xE0 0)
  chip (writeReg reg.ANT_TUNE_A 0x00)
  chip (writeReg reg.ANT_TUNE_B 0xFF)
  Prog.forEach [reg.B_OVERSHOOT_CONF1, reg.B_OVERSHOOT_CONF2, reg.B_UNDERSHOOT_CONF1,
    reg.B_UNDERSHOOT_CONF2] fun r => chip (writeRegB r 0x00)
  chip (writeIrqMask 0)
  chip (command cmd.UNMASK_RECEIVE_DATA)
  setEmu fun e => { e with dirty := false }
  gotoOff depth

/-- Re-initialise the chip as a passive target and enter `off`. -/
def start (depth : Nat) : Prog (Target I) (Fault (NfcError (I2c.Error I))) Unit := do
  (onNfc St25r3916.init).mapError .error
  (configure depth).mapError (.map .i2c)

/-- Leave target mode. -/
def stop : Emu I Unit := do
  chip (modifyReg reg.OP_CONTROL 0 op.EN)
  chip (modifyReg reg.OP_CONTROL (op.TX_EN ||| op.RX_EN) 0)
  chip (modifyReg reg.NFCIP1_PASSIVE_TARGET 0 (D_AC_AP2P ||| D_212_424_1R ||| D_106_AC_A))
  chip (writeReg reg.MODE 0x00)
  setEmu fun e => { e with state := .off }

/-! ## Commands -/

def nak : Emu I CmdResult := do
  chip (targetTransmit [NAK] 4)
  pure .drop

/-- READ: four pages, wrapping at the end of memory. -/
def readPages (start : Nat) : Emu I CmdResult := do
  if start ≥ PAGES then nak
  else do
    let e ← getEmu
    let out := (List.range 16).map fun i =>
      e.memory.get ((start * 4 + i) % MEM_BYTES) (Nat.mod_lt _ (by decide))
    chip (targetTransmit out 0)
    pure .stay

def fastRead (fromPage toPage : Nat) : Emu I CmdResult := do
  if fromPage > toPage ∨ toPage ≥ PAGES ∨ (toPage - fromPage + 1) * 4 > 512 then nak
  else do
    let e ← getEmu
    chip (targetTransmit (e.memory.read (fromPage * 4) ((toPage + 1) * 4 - fromPage * 4)) 0)
    pure .stay

/-- What WRITE does to the emulator; page 2 is acknowledged and left alone. -/
def storePage (page : Nat) (b0 b1 b2 b3 : UInt8) (h : page < PAGES) (e : T2tEmulator) :
    T2tEmulator :=
  if page ≥ 3 then
    { e with
      memory := e.memory.write (page * 4) [b0, b1, b2, b3] (by
        simp only [List.length_cons, List.length_nil, MEM_BYTES]; omega)
      dirty := e.dirty || decide (USER_FIRST_PAGE ≤ page ∧ page ≤ USER_LAST_PAGE) }
  else e

def writePage (page : Nat) (b0 b1 b2 b3 : UInt8) : Emu I CmdResult := do
  if h : 2 ≤ page ∧ page < PAGES then do
    setEmu (storePage page b0 b1 b2 b3 h.2)
    chip (targetTransmit [ACK] 4)
    pure .stay
  else nak

def handleCommand (rx : List UInt8) : Emu I CmdResult :=
  match rx with
  | [] => nak
  | op :: args =>
    if op = 0x30 then
      match args with
      | [start] => readPages start.toNat
      | _ => nak
    else if op = 0x3A then
      match args with
      | [a, b] => fastRead a.toNat b.toNat
      | _ => nak
    else if op = 0xA2 then
      match args with
      | [page, b0, b1, b2, b3] => writePage page.toNat b0 b1 b2 b3
      | _ => nak
    else if op = 0x60 ∧ args.length = 0 then do
      chip (targetTransmit GET_VERSION_NTAG216 0)
      pure .stay
    else if op = 0x3C ∧ args.length = 1 then do
      chip (targetTransmit (List.replicate 32 0) 0)
      pure .stay
    else if op = 0x50 then pure .halt
    else nak

/-! ## Polling -/

def backToListening (depth : Nat) : Emu I Unit := do
  let e ← getEmu
  if e.wakeup then gotoHalt depth else gotoIdle depth

def updateOff (depth : Nat) : Emu I Unit := do
  let f ← chip (takeIrq irq.EON)
  let present ← (if f ≠ 0 then pure true else fieldPresent)
  Prog.when present do
    setEmu fun e => { e with commands := 0 }
    gotoIdle depth

/-- A poll in `idle` or `halt`. -/
def updateIdle (depth : Nat) : Emu I Unit := do
  let f ← chip (takeIrq (irq.NFCT ||| irq.RXE ||| irq.EOF ||| irq.RXE_PTA))
  Prog.when (f &&& irq.NFCT ≠ 0) readBitrate
  let e ← getEmu
  if f &&& irq.EOF ≠ 0 then gotoOff depth
  else if f &&& irq.RXE ≠ 0 then do
    -- frames not handled by the auto-responder are discarded
    let _ ← chip (takeIrq irq.ERROR_MASK)
    let (bytes, _) ← chip fifoStatus
    let _ ← chip (readFifo (min bytes.toNat 4))
    chip (command cmd.CLEAR_FIFO)
    chip (command cmd.UNMASK_RECEIVE_DATA)
    Prog.when (e.state = .idle) (chip (modifyReg reg.OP_CONTROL op.TX_EN 0))
  else if f &&& irq.RXE_PTA ≠ 0 ∧ e.bitrate106 then do
    let v ← chip (readReg reg.PT_DISPLAY)
    Prog.when (v &&& 0x0F > (if e.state = .halt then 0x09 else 0x01)) do
      setEmu fun e => { e with wakeup := e.state = .halt }
      gotoReady depth
  else pure ()

def updateReady (depth : Nat) : Emu I Unit := do
  let e ← getEmu
  let wake := if e.wakeup then irq.WU_AX else irq.WU_A
  let f ← chip (takeIrq (irq.EOF ||| wake))
  if f &&& irq.EOF ≠ 0 then gotoOff depth
  -- the debug line here reads PT_DISPLAY; it is off at the configured log level
  else if f &&& wake ≠ 0 then gotoActive
  else pure ()

def updateActive (depth : Nat) : Emu I Unit := do
  let f ← chip (takeIrq (irq.EOF ||| irq.RXE))
  if f &&& irq.EOF ≠ 0 then gotoOff depth
  else if f &&& irq.RXE ≠ 0 then do
    let errs ← chip (takeIrq irq.ERROR_MASK)
    let (bytes, _) ← chip fifoStatus
    if errs ≠ 0 ∨ bytes ≤ 2 ∨ bytes > 64 then do
      let _ ← chip (readFifo (min bytes.toNat 4))
      chip (command cmd.CLEAR_FIFO)
      chip (command cmd.UNMASK_RECEIVE_DATA)
      backToListening depth
    else do
      let rx ← chip (readFifo (bytes.toNat - 2))
      setEmu fun e => { e with commands := e.commands + 1, lastCmd := rx.toList.headD 0 }
      match ← handleCommand rx.toList with
      | .stay => pure ()
      | .halt => gotoHalt depth
      | .drop => backToListening depth
  else pure ()

/-- The part of `update` that talks to the chip. -/
def drive (depth : Nat) : Emu I Unit := do
  let e ← getEmu
  match e.state with
  | .off => updateOff depth
  | .idle | .halt => updateIdle depth
  | .ready => updateReady depth
  | .active => updateActive depth

/-- Drive the state machine, and report what changed. -/
def update (depth : Nat) : Emu I EmuEvent := do
  let before ← getEmu
  drive depth
  let after ← getEmu
  if before.state = .off ∧ after.state ≠ .off then pure .fieldOn
  else if after.state = .off ∧ before.state ≠ .off then do
    setEmu fun e => { e with dirty := false }
    pure (.fieldOff after.dirty)
  else if after.state = .active ∧ before.state ≠ .active then pure .selected
  else pure .none

end Target

end PaperNamePlate
