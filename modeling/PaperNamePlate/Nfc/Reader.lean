import PaperNamePlate.Nfc.St25r3916

/-!
# Reader mode

Frames with CRC and their answers, and the anticollision of ISO 14443 A tags.
-/
namespace PaperNamePlate

open Embedded

namespace St25r3916

variable {I : Type} [I2c I]

/-- Program the frame waiting time. -/
def setFwtMs (ms : Nat) : Access I Unit := do
  let ctrl ← readReg reg.TIMER_EMV_CONTROL
  let step := if ctrl &&& 0x01 ≠ 0 then 4096 else 64
  -- the ticks are rounded up
  let ticks := (ms * 13560000 + (step * 1000 - 1)) / (step * 1000)
  writeRegs reg.NO_RESPONSE_TIMER1 (u16ToBe (UInt16.ofNat (max 1 (min ticks 0xFFFF))))

def setRxCrcCheck (check : Bool) : Access I Unit :=
  modifyReg reg.AUX 0x80 (if check then 0 else 0x80)

/-- Transmit a frame with CRC, and read at most `cap` bytes of the answer with its CRC. -/
def transceive (tx : List UInt8) (cap timeoutMs : Nat) : Driver I (List UInt8) := do
  lift (setFwtMs timeoutMs)
  lift (writeReg reg.ISO14443A_NFC 0x00)
  lift (setRxCrcCheck true)
  lift clearIrq
  lift (command cmd.CLEAR_FIFO)
  lift (loadFifo tx)
  lift (setNumTx (UInt16.ofNat tx.length) 0)
  lift (command cmd.TRANSMIT_WITH_CRC)
  let flags ← lift (waitIrq irq.RXE (timeoutMs + 2))
  if flags &&& irq.RXE = 0 then
    Prog.throw (if flags &&& irq.ERROR_MASK ≠ 0 then .rxError flags else .timeout)
  else do
    let (bytes, _) ← lift fifoStatus
    let rx ← lift (readFifo (min bytes.toNat cap))
    if flags &&& irq.ERROR_MASK ≠ 0 then Prog.throw (.rxError flags) else pure rx.toList

/-- The variables of the anticollision loop. -/
structure Anticollision where
  frame : List UInt8
  rbuf : List UInt8 := List.replicate 5 0
  sbytes : Nat := 2
  sbits : UInt8 := 0
  rbufOffset : Nat := 0
  collByte : UInt8 := 1

namespace Anticollision

def start (sel : UInt8) : Anticollision := { frame := [sel, 0x20, 0, 0, 0, 0, 0] }

/-- The part of the frame that is sent. -/
def sending (a : Anticollision) : List UInt8 :=
  a.frame.take (a.sbytes + if a.sbits ≠ 0 then 1 else 0)

/-- The bytes of an answer go to the offset. -/
def read (a : Anticollision) (bs : List UInt8) : Anticollision :=
  { a with rbuf := splice a.rbuf a.rbufOffset bs }

/-- After a collision, send the bits before it and a one. `none` where an index is out of range. -/
def collided (a : Anticollision) (actual : Nat) (cd : UInt8) : Option Anticollision :=
  let cbytes := ((cd >>> 4) &&& 0x0F).toNat
  let cbits := (cd >>> 1) &&& 0x07
  let collByte := a.rbuf.getD (a.rbufOffset + actual - 1) 0 ||| ((1 : UInt8) <<< cbits)
  let sbytes := cbytes + if cbits = 7 then 1 else 0
  let sbits := (cbits + 1) &&& 0x07
  let frame := a.frame.set 1 ((UInt8.ofNat sbytes <<< 4) ||| sbits)
  let frame := splice frame (2 + a.rbufOffset) ((a.rbuf.drop a.rbufOffset).take actual)
  if sbytes < frame.length then
    some { a with
      frame := frame.set sbytes collByte, sbytes, sbits, rbufOffset := actual - 1, collByte }
  else none

/-- Put the bits that were sent into the first byte of the answer. -/
def joined (a : Anticollision) : List UInt8 :=
  if a.sbits ≠ 0 then
    a.rbuf.modify a.rbufOffset fun b => ((b >>> a.sbits) <<< a.sbits) ||| a.collByte
  else a.rbuf

end Anticollision

/-- The rounds of the anticollision. -/
def anticollisionRounds : Nat → Anticollision → Driver I (Option (List UInt8))
  | 0, _ => Prog.throw .collision
  | n + 1, a => do
    lift clearIrq
    lift (command cmd.CLEAR_FIFO)
    lift (loadFifo a.sending)
    lift (setNumTx (UInt16.ofNat a.sbytes) a.sbits)
    lift (command cmd.TRANSMIT_WITHOUT_CRC)
    let flags ← lift (waitIrq (irq.RXE ||| irq.COL) 10)
    if flags &&& irq.COL = 0 ∧ flags &&& irq.RXE = 0 then
      Prog.throw (if flags &&& irq.ERROR_MASK ≠ 0 then .rxError flags else .timeout)
    else do
      let (bytes, _) ← lift fifoStatus
      let actual := min bytes.toNat (5 - a.rbufOffset)
      if actual = 0 then Prog.throw .protocol
      else do
        let got ← lift (readFifo actual)
        let cd ← lift (readReg reg.COLLISION_STATUS)
        if flags &&& irq.COL ≠ 0 then
          match (a.read got.toList).collided actual cd with
          | none => pure none
          | some a => anticollisionRounds n { a with rbuf := a.joined }
        else pure (some (a.read got.toList).joined)

/-- One cascade level of anticollision: the UID or CT bytes and their BCC. `none` is a panic. -/
def nfcaAnticollisionLevel (sel : UInt8) : Driver I (Option (List UInt8)) := do
  lift (setFwtMs 8)
  lift (writeReg reg.ISO14443A_NFC 0x01)
  lift (setRxCrcCheck true)
  anticollisionRounds 32 (Anticollision.start sel)

/-! ## Accesses that succeed -/

/-- The word that `setNumTx` programs. -/
def numTxWord (bytes : UInt16) (bits : UInt8) : UInt16 :=
  ((bytes &&& 0x1FF) <<< 3) ||| (bits.toUInt16 &&& 0x07)

/-- The byte count in the registers is the length modulo 512. -/
theorem byteCount_numTxWord (n : Nat) : (numTxWord (UInt16.ofNat n) 0 >>> 3).toNat = n % 512 := by
  have hor : ∀ w : UInt16, w ||| ((0 : UInt8).toUInt16 &&& 0x07) = w := by simp
  have hmask : (UInt16.ofNat n &&& 0x1FF).toNat = n % 512 := by
    have hand := Nat.and_two_pow_sub_one_eq_mod (n % 2 ^ 16) 9
    rw [UInt16.toNat_and, UInt16.toNat_ofNat']
    exact hand.trans (Nat.mod_mod_of_dvd n ⟨2 ^ 7, rfl⟩)
  rw [numTxWord, hor, UInt16.toNat_shiftRight, UInt16.toNat_shiftLeft, hmask]
  have h3 : (3 : UInt16).toNat % 16 = 3 := rfl
  rw [h3, Nat.shiftLeft_eq, Nat.shiftRight_eq_div_pow]
  omega

theorem lift_bind_ok {α β : Type} {p : Access I α} {s s' : St25r3916 I} {x : α} {f : α → Driver I β}
    (h : p s = (.ok x, s')) : (lift p >>= f) s = f x s' :=
  Prog.bind_of_ok (by rw [lift, Prog.mapError, h]) f

/-- A register that the chip's model does not keep. -/
theorem modifyReg_still {r v : UInt8} {s : St25r3916 I} (hread : readReg r s = (.ok v, s))
    (hwrite : ∀ n, writeReg r n s = (.ok (), s)) (clear set : UInt8) :
    modifyReg r clear set s = (.ok (), s) := by
  rw [modifyReg, Prog.bind_of_ok hread, Prog.when]
  generalize v &&& ~~~clear ||| set = n
  by_cases h : n ≠ v
  · rw [if_pos h]
    exact hwrite n
  · rw [if_neg h]
    rfl

/-- A wait whose first poll finds what it waits for. -/
theorem waitIrq_first {i i' : I} {w bits : UInt32} (hread : readIrq ⟨i, 0⟩ = (.ok w, ⟨i', 0⟩))
    (h : w &&& bits ≠ 0) (ms : Nat) : ∃ p, waitIrq bits ms ⟨i, 0⟩ = (.ok w, ⟨i', p⟩) := by
  have hfold : foldIrq ⟨i, 0⟩ = (.ok w, ⟨i', w⟩) := by
    have hor : (0 : UInt32) ||| w = w := by simp
    rw [foldIrq, Prog.bind_of_ok hread]
    change (Except.ok (0 ||| w), (⟨_, 0 ||| w⟩ : St25r3916 I)) = _
    rw [hor]
  unfold waitIrq
  cases ms * 4 <;> (rw [waitIrqLoop, Prog.bind_of_ok hfold, if_pos h]; exact ⟨_, rfl⟩)

/-- A wait in which nothing happens. -/
theorem waitIrq_silent {i : I} (hread : readIrq ⟨i, 0⟩ = (.ok 0, ⟨i, 0⟩)) (bits : UInt32)
    (ms : Nat) :
    waitIrq bits ms ⟨i, 0⟩ = (.ok irq.NRE, ⟨i, 0⟩) := by
  have hfold : foldIrq ⟨i, 0⟩ = (.ok 0, ⟨i, 0⟩) := by
    have hor : (0 : UInt32) ||| 0 = 0 := by decide
    rw [foldIrq, Prog.bind_of_ok hread]
    change (Except.ok (0 ||| 0), (⟨i, 0 ||| 0⟩ : St25r3916 I)) = _
    rw [hor]
  have hnone : ¬ (0 &&& bits ≠ 0) := by simp
  unfold waitIrq
  induction ms * 4 with
  | zero =>
    rw [waitIrqLoop, Prog.bind_of_ok hfold, if_neg hnone]
    rfl
  | succ n ih =>
    rw [waitIrqLoop, Prog.bind_of_ok hfold, if_neg hnone]
    exact ih

/-- A read of everything that the FIFO holds. -/
theorem readFifo_all {s : St25r3916 I} {fifo : List UInt8} {i : I} (hne : fifo.length ≠ 0)
    (hread : I2c.writeRead s.i2c ADDR [0x9F] fifo.length =
      (.ok (.ofFn fun j => fifo.getD j 0), i)) :
    ∃ v : Vector UInt8 fifo.length, v.toList = fifo ∧
      readFifo fifo.length s = (.ok v, { s with i2c := i }) := by
  refine ⟨.ofFn fun j => fifo.getD j 0, ?_, ?_⟩
  · refine List.ext_getElem (by simp) fun j h h' => ?_
    simp
  · rw [readFifo, dif_neg hne]
    exact congrArg (fun r => (r.1, { s with i2c := r.2 })) hread

end St25r3916

end PaperNamePlate
