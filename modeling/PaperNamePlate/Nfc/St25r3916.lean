import PaperNamePlate.Lib.Effect
import PaperNamePlate.Lib.Slice

/-!
# The ST25R3916 driver

Register, FIFO and interrupt access over I2C, bring-up, and the field switching
that the tag emulator and the mode switch use. The bus is a parameter: nothing is
assumed about what the chip answers or when an access fails. Delays are left out.
-/
namespace PaperNamePlate

open Embedded

/-- An I2C bus with the devices on it; the first argument of an access is the address. -/
class I2c (I : Type) where
  Error : Type
  write : I → UInt8 → List UInt8 → Except Error Unit × I
  writeRead : I → UInt8 → List UInt8 → (n : Nat) → Except Error (Vector UInt8 n) × I
  transaction : I → UInt8 → List (List UInt8) → Except Error Unit × I

namespace reg

def IO_CONF1 : UInt8 := 0x00
def IO_CONF2 : UInt8 := 0x01
def OP_CONTROL : UInt8 := 0x02
def MODE : UInt8 := 0x03
def BIT_RATE : UInt8 := 0x04
def ISO14443A_NFC : UInt8 := 0x05
def NFCIP1_PASSIVE_TARGET : UInt8 := 0x08
def AUX : UInt8 := 0x0A
def RX_CONF1 : UInt8 := 0x0B
def RX_CONF2 : UInt8 := 0x0C
def RX_CONF3 : UInt8 := 0x0D
def RX_CONF4 : UInt8 := 0x0E
def MASK_RX_TIMER : UInt8 := 0x0F
def NO_RESPONSE_TIMER1 : UInt8 := 0x10
def TIMER_EMV_CONTROL : UInt8 := 0x12
def IRQ_MASK_MAIN : UInt8 := 0x16
def IRQ_MASK_TARGET : UInt8 := 0x19
def IRQ_MAIN : UInt8 := 0x1A
def IRQ_ERROR_WUP : UInt8 := 0x1C
def IRQ_TARGET : UInt8 := 0x1D
def FIFO_STATUS1 : UInt8 := 0x1E
def COLLISION_STATUS : UInt8 := 0x20
def PT_DISPLAY : UInt8 := 0x21
def NUM_TX_BYTES1 : UInt8 := 0x22
def BITRATE_DETECT : UInt8 := 0x24
def ANT_TUNE_A : UInt8 := 0x26
def ANT_TUNE_B : UInt8 := 0x27
def TX_DRIVER : UInt8 := 0x28
def PT_MOD : UInt8 := 0x29
def FIELD_THRESHOLD_ACT : UInt8 := 0x2A
def FIELD_THRESHOLD_DEACT : UInt8 := 0x2B
def AUX_DISPLAY : UInt8 := 0x31
def IC_IDENTITY : UInt8 := 0x3F
def B_EMD_SUP_CONF : UInt8 := 0x05
def B_CORR_CONF1 : UInt8 := 0x0C
def B_CORR_CONF2 : UInt8 := 0x0D
def B_RES_AM_MOD : UInt8 := 0x2A
def B_OVERSHOOT_CONF1 : UInt8 := 0x30
def B_OVERSHOOT_CONF2 : UInt8 := 0x31
def B_UNDERSHOOT_CONF1 : UInt8 := 0x32
def B_UNDERSHOOT_CONF2 : UInt8 := 0x33

end reg

namespace cmd

def SET_DEFAULT : UInt8 := 0xC1
def STOP_ALL : UInt8 := 0xC2
def TRANSMIT_WITH_CRC : UInt8 := 0xC4
def TRANSMIT_WITHOUT_CRC : UInt8 := 0xC5
def GO_TO_SENSE : UInt8 := 0xCD
def GO_TO_SLEEP : UInt8 := 0xCE
def UNMASK_RECEIVE_DATA : UInt8 := 0xD1
def RESET_RX_GAIN : UInt8 := 0xD5
def ADJUST_REGULATORS : UInt8 := 0xD6
def CLEAR_FIFO : UInt8 := 0xDB
def SPACE_B_ACCESS : UInt8 := 0xFB
def TEST_ACCESS : UInt8 := 0xFC

end cmd

/-! The 32-bit interrupt word is `main<<24 | timer_nfc<<16 | error<<8 | target`. -/

namespace irq

def OSC : UInt32 := 0x80000000
def RXE : UInt32 := 0x10000000
def COL : UInt32 := 0x04000000
def NRE : UInt32 := 0x00400000
def EON : UInt32 := 0x00100000
def EOF : UInt32 := 0x00080000
def NFCT : UInt32 := 0x00010000
def RXE_PTA : UInt32 := 0x10
def WU_AX : UInt32 := 0x02
def WU_A : UInt32 := 0x01
def ERROR_MASK : UInt32 := 0x0000F000

end irq

namespace op

def EN : UInt8 := 0x80
def RX_EN : UInt8 := 0x40
def TX_EN : UInt8 := 0x08
def WU : UInt8 := 0x04

end op

def ADDR : UInt8 := 0x50
def FIFO_DEPTH : Nat := 512
def IC_TYPE_ST25R3916 : UInt8 := 0x05

/-- The driver's errors. -/
inductive NfcError (ε : Type)
  | i2c (e : ε)
  | notFound (identity : UInt8)
  | oscillator
  /-- No response within the timeout. -/
  | timeout
  /-- The chip has flagged a receive error. -/
  | rxError (flags : UInt32)
  /-- An unexpected frame. -/
  | protocol
  /-- Anticollision did not converge. -/
  | collision

structure St25r3916 (I : Type) where
  i2c : I
  /-- Interrupt flags read from the chip but not yet consumed. -/
  pendingIrq : UInt32 := 0

namespace St25r3916

variable {I : Type} [I2c I]

/-- A driver function that fails with the bus error only. -/
abbrev Access (I : Type) [I2c I] (α : Type) : Type := Prog (St25r3916 I) (I2c.Error I) α

/-- A driver function with the driver's own errors. -/
abbrev Driver (I : Type) [I2c I] (α : Type) : Type := Prog (St25r3916 I) (NfcError (I2c.Error I)) α

def bus {α : Type} (f : I → Except (I2c.Error I) α × I) : Access I α :=
  Prog.zoom (·.i2c) (fun i chip => { chip with i2c := i }) f

/-- A bus error as an error of the driver. -/
def lift {α : Type} (p : Access I α) : Driver I α := p.mapError .i2c

/-! ## Raw access -/

def readRegs (r : UInt8) (n : Nat) : Access I (Vector UInt8 n) :=
  bus fun i => I2c.writeRead i ADDR [0x40 ||| (r &&& 0x3F)] n

def readReg (r : UInt8) : Access I UInt8 := do
  let b ← readRegs r 1
  pure b[0]

def writeReg (r v : UInt8) : Access I Unit := bus fun i => I2c.write i ADDR [r &&& 0x3F, v]

def writeRegs (r : UInt8) (data : List UInt8) : Access I Unit :=
  bus fun i => I2c.transaction i ADDR [[r &&& 0x3F], data]

def modifyReg (r clear set : UInt8) : Access I Unit := do
  let v ← readReg r
  let n := (v &&& ~~~clear) ||| set
  Prog.when (n ≠ v) (writeReg r n)

def readRegB (r : UInt8) : Access I UInt8 := do
  let b ← bus fun i => I2c.writeRead i ADDR [cmd.SPACE_B_ACCESS, 0x40 ||| (r &&& 0x3F)] 1
  pure b[0]

def writeRegB (r v : UInt8) : Access I Unit :=
  bus fun i => I2c.write i ADDR [cmd.SPACE_B_ACCESS, r &&& 0x3F, v]

def command (c : UInt8) : Access I Unit := bus fun i => I2c.write i ADDR [c]

def loadFifo (data : List UInt8) : Access I Unit :=
  bus fun i => I2c.transaction i ADDR [[0x80], data]

/-- The number of bytes in the FIFO and the extra bits of the last one. -/
def fifoStatus : Access I (UInt16 × UInt8) := do
  let s ← readRegs reg.FIFO_STATUS1 2
  pure (s[0].toUInt16 ||| ((s[1] &&& 0xC0).toUInt16 <<< 2), (s[1] >>> 1) &&& 0x07)

def readFifo (n : Nat) : Access I (Vector UInt8 n) :=
  if h : n = 0 then pure (h ▸ #v[]) else bus fun i => I2c.writeRead i ADDR [0x9F] n

/-- Read, and thereby clear, all four interrupt registers; the error register first. -/
def readIrq : Access I UInt32 := do
  let err ← readReg reg.IRQ_ERROR_WUP
  let mn ← readRegs reg.IRQ_MAIN 2
  let tgt ← readReg reg.IRQ_TARGET
  pure ((mn[0].toUInt32 <<< 24) ||| (mn[1].toUInt32 <<< 16) ||| (err.toUInt32 <<< 8) |||
    tgt.toUInt32)

def clearIrq : Access I Unit := do
  Prog.modify fun chip => { chip with pendingIrq := 0 }
  let _ ← readRegs reg.IRQ_MAIN 4
  pure ()

def writeIrqMask (mask : UInt32) : Access I Unit := writeRegs reg.IRQ_MASK_MAIN (u32ToBe mask)

/-- Fold fresh interrupt flags into the pending set. -/
def foldIrq : Access I UInt32 := do
  let fresh ← readIrq
  Prog.modify fun chip => { chip with pendingIrq := chip.pendingIrq ||| fresh }
  let chip ← Prog.get
  pure chip.pendingIrq

/-- Return and consume the pending flags that match `bits`. -/
def takeIrq (bits : UInt32) : Access I UInt32 := do
  let pending ← foldIrq
  let hit := pending &&& bits
  Prog.modify fun chip => { chip with pendingIrq := chip.pendingIrq &&& ~~~hit }
  pure hit

/-- `waitIrq` with `n` polls left after this one. -/
def waitIrqLoop (bits : UInt32) : Nat → Access I UInt32
  | 0 => do
    let pending ← foldIrq
    let hit := pending &&& bits
    if hit ≠ 0 then do
      Prog.modify fun chip => { chip with pendingIrq := chip.pendingIrq &&& ~~~hit }
      pure pending
    else pure (pending ||| irq.NRE)
  | n + 1 => do
    let pending ← foldIrq
    let hit := pending &&& bits
    if hit ≠ 0 then do
      Prog.modify fun chip => { chip with pendingIrq := chip.pendingIrq &&& ~~~hit }
      pure pending
    else waitIrqLoop bits n

/-- Poll four times a millisecond until one of `bits` is set. -/
def waitIrq (bits : UInt32) (timeoutMs : Nat) : Access I UInt32 := waitIrqLoop bits (timeoutMs * 4)

/-! ## Bring-up -/

def identity : Access I UInt8 := readReg reg.IC_IDENTITY

/-- The attempts of `init` to find the chip: whether it was found, and what it last answered. -/
def findChip : Nat → UInt8 → Driver I (Bool × UInt8)
  | 0, last => pure (false, last)
  | n + 1, last => do
    match ← Prog.attempt identity with
    | .ok v =>
      if (v >>> 3) &&& 0x1F = IC_TYPE_ST25R3916 ∧ v &&& 0x07 ≠ 0 then pure (true, v)
      else findChip n v
    | .error _ => findChip n last

def enableOsc : Driver I Unit := do
  let v ← lift (readReg reg.OP_CONTROL)
  Prog.when (v &&& op.EN = 0) do
    lift (modifyReg reg.IRQ_MASK_MAIN 0x80 0)
    lift clearIrq
    lift (modifyReg reg.OP_CONTROL 0 op.EN)
    let flags ← lift (waitIrq irq.OSC 50)
    lift (modifyReg reg.IRQ_MASK_MAIN 0 0x80)
    Prog.when (flags &&& irq.OSC = 0) do
      let aux ← lift (readReg reg.AUX_DISPLAY)
      Prog.when (aux &&& 0x10 = 0) (Prog.throw .oscillator)
  let aux ← lift (readReg reg.AUX_DISPLAY)
  Prog.when (aux &&& 0x10 = 0) (Prog.throw .oscillator)

/-- Full power-up sequence; leaves the chip in Ready mode with the field off. -/
def init : Driver I Unit := do
  let (found, last) ← findChip 5 0
  if !found then Prog.throw (.notFound last)
  else do
    lift (command cmd.STOP_ALL)
    lift (modifyReg reg.OP_CONTROL (op.TX_EN ||| op.RX_EN) 0)
    lift (command cmd.SET_DEFAULT)
    lift (bus fun i => I2c.write i ADDR [cmd.TEST_ACCESS, 0x04, 0x10])
    lift (writeRegs reg.IO_CONF1 [0x10, 0x04 ||| 0x80])
    lift (writeReg reg.TX_DRIVER ((13 : UInt8) <<< 4))
    lift (modifyReg reg.IO_CONF1 0x07 0x07)
    lift (writeRegB reg.B_RES_AM_MOD 0x80)
    lift (modifyReg reg.IO_CONF2 0 0x20)
    lift (writeRegB reg.B_RES_AM_MOD 0x00)
    lift (writeReg reg.FIELD_THRESHOLD_ACT 0x13)
    lift (writeReg reg.FIELD_THRESHOLD_DEACT 0x02)
    lift (modifyReg reg.NFCIP1_PASSIVE_TARGET 0xF0 0x50)
    lift (writeReg reg.PT_MOD 0x5F)
    lift (writeRegB reg.B_EMD_SUP_CONF 0x40)
    lift (writeReg reg.ANT_TUNE_A 0x82)
    lift (writeReg reg.ANT_TUNE_B 0x82)
    lift (modifyReg reg.OP_CONTROL 0x03 0)
    lift (command cmd.CLEAR_FIFO)
    lift (writeIrqMask 0xFFFF00FF)
    lift clearIrq
    enableOsc
    lift (writeIrqMask 0)
    lift (command cmd.ADJUST_REGULATORS)

/-- Field on in reader mode; `tx_en` is trusted to tell whether it already is. -/
def fieldOn : Driver I Unit := do
  let v ← lift (readReg reg.OP_CONTROL)
  if v &&& op.TX_EN ≠ 0 then pure ()
  else do
    lift (modifyReg reg.OP_CONTROL 0x03 0)
    lift (modifyReg reg.OP_CONTROL 0 (op.TX_EN ||| op.RX_EN))

def configureNfca : Driver I Unit := do
  lift (command cmd.STOP_ALL)
  lift (modifyReg reg.OP_CONTROL op.WU 0)
  lift (writeReg reg.MODE (((0x01 : UInt8) <<< 3) ||| 0x01))
  lift (writeReg reg.BIT_RATE 0x00)
  lift (writeReg reg.ISO14443A_NFC 0x00)
  lift (modifyReg reg.AUX 0x04 0)
  lift (writeRegB reg.B_OVERSHOOT_CONF1 0x40)
  lift (writeRegB reg.B_OVERSHOOT_CONF2 0x03)
  lift (writeRegB reg.B_UNDERSHOOT_CONF1 0x40)
  lift (writeRegB reg.B_UNDERSHOOT_CONF2 0x03)
  lift (writeRegB reg.B_CORR_CONF1 0x47)
  lift (writeRegB reg.B_CORR_CONF2 0x00)
  lift (writeReg reg.RX_CONF1 0x08)
  lift (writeReg reg.RX_CONF2 (0x20 ||| 0x08 ||| 0x04 ||| 0x01))
  lift (writeReg reg.RX_CONF3 0xD8)
  lift (writeReg reg.RX_CONF4 0x22)
  lift (command cmd.RESET_RX_GAIN)
  lift (writeIrqMask 0)
  fieldOn

/-- Operation control, auxiliary display and regulator display. -/
def status : Access I (UInt8 × UInt8 × UInt8) := do
  let o ← readReg reg.OP_CONTROL
  let a ← readReg reg.AUX_DISPLAY
  let r ← readRegB 0x2C
  pure (o, a, r)

def fieldOff : Access I Unit := modifyReg reg.OP_CONTROL (op.TX_EN ||| op.RX_EN) 0

/-! ## Target mode -/

/-- Load the passive-target "A" configuration. -/
def loadPtMemA (data : List UInt8) : Access I Unit :=
  bus fun i => I2c.transaction i ADDR [[0xA0], data]

def setNumTx (bytes : UInt16) (bits : UInt8) : Access I Unit :=
  writeRegs reg.NUM_TX_BYTES1 (u16ToBe (((bytes &&& 0x1FF) <<< 3) ||| (bits.toUInt16 &&& 0x07)))

/-- Transmit whole bytes with CRC for `bits = 0`, else `bits` bits of the first byte without. -/
def targetTransmit (data : List UInt8) (bits : UInt8) : Access I Unit := do
  command cmd.CLEAR_FIFO
  loadFifo data
  if bits = 0 then do
    setNumTx (UInt16.ofNat data.length) 0
    command cmd.TRANSMIT_WITH_CRC
  else do
    setNumTx 0 bits
    command cmd.TRANSMIT_WITHOUT_CRC

end St25r3916

end PaperNamePlate
