import PaperNamePlate.Lib.Bits
import PaperNamePlate.Nfc.Reader

/-!
# The chip and whoever hears it

In reader mode the chip sends a frame and puts the answer in its FIFO. What is in front of it is a
peer: it hears a frame and may answer, as long as the chip's transmitter is on.
-/
namespace PaperNamePlate

open Embedded

namespace cmd

def TRANSMIT_REQA : UInt8 := 0xC6
def TRANSMIT_WUPA : UInt8 := 0xC7

end cmd

namespace irq

def RXS : UInt32 := 0x20000000
def TXE : UInt32 := 0x08000000

end irq

/-- A frame of the reader. -/
inductive Frame
  /-- REQA or WUPA. -/
  | short (wakeup : Bool)
  /-- Bytes without CRC, and the bits that are sent of the last one. -/
  | plain (bytes : List UInt8) (bits : Nat)
  /-- Bytes with CRC. -/
  | withCrc (bytes : List UInt8)
deriving DecidableEq

class Peer (σ : Type) where
  hear : σ → Frame → Option (List UInt8) × σ
  /-- Coming into a field, or losing it. -/
  reset : σ → σ

/-- What is in front of the chip. -/
structure Spot (σ : Type) where
  peer : Option σ
  lit : Bool

namespace Spot

variable {σ : Type} [Peer σ]

def hear (s : Spot σ) (f : Frame) : Option (List UInt8) × Spot σ :=
  match s with
  | ⟨some p, true⟩ => ((Peer.hear p f).1, ⟨some (Peer.hear p f).2, true⟩)
  | s => (none, s)

/-- The field is switched. -/
def power (s : Spot σ) (on : Bool) : Spot σ :=
  if s.lit = on then s else ⟨s.peer.map Peer.reset, on⟩

theorem power_same {s : Spot σ} {on : Bool} (h : s.lit = on) : s.power on = s := if_pos h

end Spot

/-- The chip in reader mode. -/
structure Aerial (σ : Type) where
  spot : Spot σ
  fifo : List UInt8 := []
  numTx : UInt16 := 0
  /-- The main interrupt register. -/
  flags : UInt8 := 0
  opControl : UInt8 := 0
  /-- What the other registers read. -/
  regs : UInt8 → UInt8
  crc : List UInt8 → UInt8 × UInt8

namespace Aerial

variable {σ : Type} [Peer σ]

/-- Send a frame; the CRC of an answer stays in the FIFO. -/
def send (c : Aerial σ) (f : Frame) : Aerial σ :=
  match c.spot.hear f with
  | (some answer, spot) =>
    let crc := match f with
      | .withCrc _ => [(c.crc answer).1, (c.crc answer).2]
      | _ => []
    { c with spot, fifo := answer ++ crc, flags := c.flags ||| 0x38 }
  | (none, spot) => { c with spot, fifo := [], flags := c.flags ||| 0x08 }

/-- Send the FIFO without CRC. -/
def transmitPlain (c : Aerial σ) : Aerial σ :=
  let bytes := (c.numTx >>> 3).toNat
  let bits := (c.numTx &&& 0x07).toNat
  c.send (.plain (c.fifo.take (bytes + if bits = 0 then 0 else 1)) bits)

/-- Send the FIFO with a CRC. -/
def transmitWithCrc (c : Aerial σ) : Aerial σ :=
  c.send (.withCrc (c.fifo.take (c.numTx >>> 3).toNat))

/-- What reading a register gives. -/
def readRegister (c : Aerial σ) (r : UInt8) : List UInt8 :=
  if r = reg.IRQ_MAIN then [c.flags]
  else if r = reg.IRQ_ERROR_WUP ∨ r = reg.IRQ_TARGET then [0]
  else if r = reg.FIFO_STATUS1
    then [UInt8.ofNat c.fifo.length, UInt8.ofNat (c.fifo.length / 256) <<< 6]
  else if r = reg.OP_CONTROL then [c.opControl]
  else [c.regs r]

/-- Write a register. -/
def writeRegister (c : Aerial σ) (r v : UInt8) : Aerial σ :=
  if r = reg.OP_CONTROL then { c with opControl := v, spot := c.spot.power (v &&& op.TX_EN ≠ 0) }
  else c

instance : I2c (Aerial σ) where
  Error := Empty
  write c _ data :=
    (.ok (), match data with
      | [k] =>
        if k = cmd.CLEAR_FIFO then { c with fifo := [] }
        else if k = cmd.TRANSMIT_WITHOUT_CRC then c.transmitPlain
        else if k = cmd.TRANSMIT_WITH_CRC then c.transmitWithCrc
        else if k = cmd.TRANSMIT_REQA then c.send (.short false)
        else if k = cmd.TRANSMIT_WUPA then c.send (.short true)
        else c
      | [r, v] => c.writeRegister r v
      | _ => c)
  transaction c _ parts :=
    (.ok (), match parts with
      | [[r], data] =>
        if r = 0x80 then { c with fifo := c.fifo ++ data }
        else if r = reg.NUM_TX_BYTES1
          then { c with numTx := u16OfBe (data.getD 0 0) (data.getD 1 0) }
        else c
      | _ => c)
  writeRead c _ command n :=
    match command with
    | [k] =>
      if k = 0x9F then (.ok (.ofFn fun i => c.fifo.getD i 0), { c with fifo := c.fifo.drop n })
      else
        (.ok (.ofFn fun i => (c.readRegister (k &&& 0x3F)).getD i 0),
          if k &&& 0x3F = reg.IRQ_MAIN then { c with flags := 0 } else c)
    | _ => (.ok (.replicate n 0), c)

/-! ## Accesses of the driver -/

open St25r3916

theorem setFwtMs_eq (ms : Nat) (s : St25r3916 (Aerial σ)) : setFwtMs ms s = (.ok (), s) := rfl

theorem setRxCrcCheck_eq (check : Bool) (s : St25r3916 (Aerial σ)) :
    setRxCrcCheck check s = (.ok (), s) :=
  modifyReg_still (v := s.i2c.regs reg.AUX) rfl (fun _ => rfl) _ _

/-! ### The field -/

/-- The field is on where the register says so. -/
def Coherent (s : St25r3916 (Aerial σ)) : Prop := s.i2c.spot.lit = bit s.i2c.opControl 3

/-- `OP_CONTROL` has become `v`, and the field follows. -/
structure Switched (v : UInt8) (s s' : St25r3916 (Aerial σ)) : Prop where
  opControl : s'.i2c.opControl = v
  spot : s'.i2c.spot = s.i2c.spot.power (bit v 3)

theorem Switched.coherent {v : UInt8} {s s' : St25r3916 (Aerial σ)} (h : Switched v s s') :
    Coherent s' := by
  rw [Coherent, h.opControl, h.spot, Spot.power]
  split
  · next hsame => exact hsame
  · rfl

theorem modifyOpControl_eq {s : St25r3916 (Aerial σ)} (h : Coherent s) (clear set : UInt8) :
    ∃ s', modifyReg reg.OP_CONTROL clear set s = (.ok (), s') ∧
      Switched ((s.i2c.opControl &&& ~~~clear) ||| set) s s' := by
  have hread : readReg reg.OP_CONTROL s = (.ok s.i2c.opControl, s) := rfl
  rw [modifyReg, Prog.bind_of_ok hread]
  generalize (s.i2c.opControl &&& ~~~clear) ||| set = v
  by_cases hsame : v ≠ s.i2c.opControl
  · have hbit : decide (v &&& op.TX_EN ≠ 0) = bit v 3 := by
      rw [Bool.eq_iff_iff, decide_eq_true_iff]
      exact and_two_pow_ne_zero v (by decide : 3 < 8)
    have hwrite : writeReg reg.OP_CONTROL v s =
        (.ok (), { s with i2c := s.i2c.writeRegister reg.OP_CONTROL v }) := rfl
    rw [Prog.when, if_pos hsame, hwrite]
    refine ⟨_, rfl, rfl, ?_⟩
    rw [← hbit]
    rfl
  · rw [Prog.when, if_neg hsame]
    refine ⟨s, rfl, (not_ne_iff.mp hsame).symm, ?_⟩
    rw [not_ne_iff.mp hsame, Spot.power_same h]

theorem fieldOff_eq {s : St25r3916 (Aerial σ)} (h : Coherent s) :
    ∃ s', fieldOff s = (.ok (), s') ∧ Coherent s' ∧ s'.i2c.spot = s.i2c.spot.power false := by
  obtain ⟨s', hrun, hswitch⟩ := modifyOpControl_eq h (op.TX_EN ||| op.RX_EN) 0
  refine ⟨s', hrun, hswitch.coherent, ?_⟩
  have hclear : bit (op.TX_EN ||| op.RX_EN) 3 = true := by decide
  have hzero : bit 0 3 = false := by decide
  rw [hswitch.spot, bit_or, bit_and, bit_not _ (by decide), hclear, hzero]
  simp

theorem fieldOn_eq {s : St25r3916 (Aerial σ)} (h : Coherent s) :
    ∃ s', fieldOn s = (.ok (), s') ∧ Coherent s' ∧ s'.i2c.spot = s.i2c.spot.power true := by
  have hread : readReg reg.OP_CONTROL s = (.ok s.i2c.opControl, s) := rfl
  rw [fieldOn, lift_bind_ok hread]
  split
  · next hon =>
    refine ⟨s, rfl, h, ?_⟩
    have hlit : s.i2c.spot.lit = true :=
      h.trans ((and_two_pow_ne_zero _ (by decide : 3 < 8)).mp hon)
    rw [Spot.power_same hlit]
  · next hoff =>
    have hdark : bit s.i2c.opControl 3 = false :=
      Bool.eq_false_iff.mpr fun hbit => hoff ((and_two_pow_ne_zero _ (by decide : 3 < 8)).mpr hbit)
    obtain ⟨s₁, hrun₁, hswitch₁⟩ := modifyOpControl_eq h 0x03 0
    obtain ⟨s₂, hrun₂, hswitch₂⟩ := modifyOpControl_eq hswitch₁.coherent 0 (op.TX_EN ||| op.RX_EN)
    have hset : bit (op.TX_EN ||| op.RX_EN) 3 = true := by decide
    have hfirst : bit ((s.i2c.opControl &&& ~~~0x03) ||| 0) 3 = false := by
      rw [bit_or, bit_and, hdark]
      rfl
    refine ⟨s₂, ?_, hswitch₂.coherent, ?_⟩
    · rw [lift_bind_ok hrun₁, lift, Prog.mapError, hrun₂]
    · rw [hswitch₂.spot, bit_or, hset, Bool.or_true, hswitch₁.spot, hfirst,
        Spot.power_same (h.trans hdark)]

/-- The interrupt word of the main flags. -/
def word (flags : UInt8) : UInt32 := flags.toUInt32 <<< 24

theorem readIrq_eq (c : Aerial σ) (p : UInt32) :
    readIrq ⟨c, p⟩ = (.ok (word c.flags), ⟨{ c with flags := 0 }, p⟩) := by
  have hword : c.flags.toUInt32 <<< 24 ||| (0 : UInt8).toUInt32 <<< 16 |||
      (0 : UInt8).toUInt32 <<< 8 |||
      (0 : UInt8).toUInt32 = word c.flags := by simp [word]
  rw [← hword]
  rfl

theorem waitIrq_eq {c : Aerial σ} {bits : UInt32} (h : word c.flags &&& bits ≠ 0) (ms : Nat) :
    ∃ p, waitIrq bits ms ⟨c, 0⟩ = (.ok (word c.flags), ⟨{ c with flags := 0 }, p⟩) :=
  waitIrq_first (readIrq_eq c 0) h ms

/-- A wait for what does not come. -/
theorem waitIrq_vain {c : Aerial σ} {bits : UInt32} (h : word c.flags &&& bits = 0) (ms : Nat) :
    waitIrq bits ms ⟨c, 0⟩ =
      (.ok (word c.flags ||| irq.NRE), ⟨{ c with flags := 0 }, word c.flags⟩) := by
  have hfold : ∀ flags p, foldIrq ⟨{ c with flags }, p⟩ =
      (.ok (p ||| word flags), ⟨{ c with flags := 0 }, p ||| word flags⟩) := by
    intro flags p
    rw [foldIrq, Prog.bind_of_ok (readIrq_eq { c with flags } p)]
    rfl
  have hzero : ∀ w : UInt32, w ||| word 0 = w := by
    intro w
    have hword : word 0 = 0 := by decide
    rw [hword]
    simp
  have hloop : ∀ n flags p, p ||| word flags = word c.flags →
      waitIrqLoop bits n ⟨{ c with flags }, p⟩ =
        (.ok (word c.flags ||| irq.NRE), ⟨{ c with flags := 0 }, word c.flags⟩) := by
    intro n
    induction n with
    | zero =>
      intro flags p hp
      rw [waitIrqLoop, Prog.bind_of_ok (hfold flags p), hp, if_neg (not_not_intro h)]
      rfl
    | succ n ih =>
      intro flags p hp
      rw [waitIrqLoop, Prog.bind_of_ok (hfold flags p), hp, if_neg (not_not_intro h)]
      exact ih 0 (word c.flags) (hzero _)
  unfold waitIrq
  refine hloop _ c.flags 0 ?_
  simp

theorem fifoStatus_eq (s : St25r3916 (Aerial σ)) (h : s.i2c.fifo.length < 512) :
    ∃ st : UInt16 × UInt8, st.1.toNat = s.i2c.fifo.length ∧ fifoStatus s = (.ok st, s) := by
  generalize hn : s.i2c.fifo.length = n at h
  have hhigh : ∀ q < 2, (((UInt8.ofNat q <<< 6) &&& 0xC0).toUInt16 <<< 2).toNat = 2 ^ 8 * q := by
    decide
  have hlow : (UInt8.ofNat n).toUInt16.toNat = n % 2 ^ 8 := by
    rw [UInt8.toNat_toUInt16, UInt8.toNat_ofNat']
  refine ⟨((UInt8.ofNat n).toUInt16 ||| (((UInt8.ofNat (n / 256) <<< 6) &&& 0xC0).toUInt16 <<< 2),
    ((UInt8.ofNat (n / 256) <<< 6) >>> 1) &&& 0x07), ?_, by rw [← hn]; rfl⟩
  rw [UInt16.toNat_or, hlow, hhigh _ (by omega), Nat.or_comm,
    ← Nat.two_pow_add_eq_or_of_lt (Nat.mod_lt n (by decide))]
  omega

/-- A read of the first bytes of the FIFO. -/
theorem readFifo_eq (s : St25r3916 (Aerial σ)) {n : Nat} (hpos : n ≠ 0)
    (hn : n ≤ s.i2c.fifo.length) :
    ∃ v : Vector UInt8 n, v.toList = s.i2c.fifo.take n ∧
      readFifo n s = (.ok v, ⟨{ s.i2c with fifo := s.i2c.fifo.drop n }, s.pendingIrq⟩) := by
  refine ⟨.ofFn fun i => s.i2c.fifo.getD i 0, ?_, ?_⟩
  · refine List.ext_getElem (by simp [hn]) fun j h h' => ?_
    have hj : j < s.i2c.fifo.length := by simp at h; omega
    simp [List.getElem?_eq_getElem hj]
  · rw [readFifo, dif_neg hpos]
    rfl

theorem sends_plain (s : St25r3916 (Aerial σ)) (tx : List UInt8) {α : Type}
    (f : Driver (Aerial σ) α) :
    (do
      lift clearIrq
      lift (command cmd.CLEAR_FIFO)
      lift (loadFifo tx)
      lift (setNumTx (UInt16.ofNat tx.length) 0)
      lift (command cmd.TRANSMIT_WITHOUT_CRC)
      f : Driver (Aerial σ) α) s =
      f ⟨transmitPlain { s.i2c with
        flags := 0, fifo := tx, numTx := numTxWord (UInt16.ofNat tx.length) 0 }, 0⟩ := by
  have hword := u16OfLe_toLe (numTxWord (UInt16.ofNat tx.length) 0)
  exact congrArg (fun w => f ⟨transmitPlain { s.i2c with flags := 0, fifo := tx, numTx := w }, 0⟩)
    hword

theorem sends_withCrc (s : St25r3916 (Aerial σ)) (tx : List UInt8) {α : Type}
    (f : Driver (Aerial σ) α) :
    (do
      lift clearIrq
      lift (command cmd.CLEAR_FIFO)
      lift (loadFifo tx)
      lift (setNumTx (UInt16.ofNat tx.length) 0)
      lift (command cmd.TRANSMIT_WITH_CRC)
      f : Driver (Aerial σ) α) s =
      f ⟨transmitWithCrc { s.i2c with
        flags := 0, fifo := tx, numTx := numTxWord (UInt16.ofNat tx.length) 0 }, 0⟩ := by
  have hword := u16OfLe_toLe (numTxWord (UInt16.ofNat tx.length) 0)
  exact congrArg (fun w => f ⟨transmitWithCrc { s.i2c with flags := 0, fifo := tx, numTx := w }, 0⟩)
    hword

theorem transmitWithCrc_eq (c : Aerial σ) {tx : List UInt8} (htx : tx.length < 512) :
    transmitWithCrc { c with
      flags := 0, fifo := tx, numTx := numTxWord (UInt16.ofNat tx.length) 0 } =
      send { c with flags := 0, fifo := tx, numTx := numTxWord (UInt16.ofNat tx.length) 0 }
        (.withCrc tx) := by
  have hbytes : (numTxWord (UInt16.ofNat tx.length) 0 >>> 3).toNat = tx.length := by
    rw [byteCount_numTxWord, Nat.mod_eq_of_lt htx]
  unfold transmitWithCrc
  dsimp only
  rw [hbytes, List.take_length]

/-- Frames were sent: of the chip's settings only those of a frame have changed. -/
structure Heard (spot : Spot σ) (s s' : St25r3916 (Aerial σ)) : Prop where
  spot : s'.i2c.spot = spot
  opControl : s'.i2c.opControl = s.i2c.opControl

omit [Peer σ] in
theorem Heard.trans {spot spot' : Spot σ} {s s' s'' : St25r3916 (Aerial σ)} (h : Heard spot s s')
    (h' : Heard spot' s' s'') : Heard spot' s s'' :=
  ⟨h'.spot, h'.opControl.trans h.opControl⟩

theorem opControl_send (c : Aerial σ) (f : Frame) : (c.send f).opControl = c.opControl := by
  unfold send
  split <;> rfl

/-- A frame that is answered: the first bytes of the answer and its CRC are read. -/
theorem transceive_eq {s : St25r3916 (Aerial σ)} {tx answer : List UInt8} {spot : Spot σ}
    (hhear : s.i2c.spot.hear (.withCrc tx) = (some answer, spot)) (htx : tx.length < 512)
    (hanswer : answer.length ≤ 254) {cap : Nat} (hcap : cap ≠ 0) (ms : Nat) :
    ∃ nfc x y, St25r3916.transceive tx cap ms s = (.ok ((answer ++ [x, y]).take cap), nfc) ∧
      Heard spot s nfc := by
  generalize hc : transmitWithCrc { s.i2c with
    flags := 0, fifo := tx, numTx := numTxWord (UInt16.ofNat tx.length) 0 } = c
  obtain ⟨x, y, hfifo, hspot, hflags⟩ : ∃ x y, c.fifo = answer ++ [x, y] ∧ c.spot = spot ∧
      c.flags = 0x38 := by
    rw [← hc, transmitWithCrc_eq _ htx, send]
    dsimp only
    rw [hhear]
    exact ⟨_, _, rfl, rfl, by simp⟩
  have hmode : writeReg reg.ISO14443A_NFC 0x00 s = (.ok (), s) := rfl
  have hlen : c.fifo.length = answer.length + 2 := by rw [hfifo, List.length_append]; rfl
  have hrxe : word c.flags &&& irq.RXE ≠ 0 := by rw [hflags]; decide
  obtain ⟨p, hwait⟩ := waitIrq_eq hrxe (ms + 2)
  obtain ⟨st, hst, hstatus⟩ := fifoStatus_eq ⟨{ c with flags := 0 }, p⟩ (by dsimp only; omega)
  obtain ⟨v, hv, hread⟩ := readFifo_eq ⟨{ c with flags := 0 }, p⟩ (n := min c.fifo.length cap)
    (by omega) (Nat.min_le_left _ _)
  have hop : c.opControl = s.i2c.opControl := by
    rw [← hc, transmitWithCrc_eq _ htx, opControl_send]
  refine ⟨⟨{ c with flags := 0, fifo := c.fifo.drop (min c.fifo.length cap) }, p⟩, x, y,
    ?_, hspot, hop⟩
  rw [St25r3916.transceive, lift_bind_ok (setFwtMs_eq ms s), lift_bind_ok hmode,
    lift_bind_ok (setRxCrcCheck_eq true s), sends_withCrc, hc, lift_bind_ok hwait, if_neg hrxe,
    lift_bind_ok hstatus]
  obtain ⟨bytes, bits⟩ := st
  dsimp only at hst ⊢
  rw [hst, lift_bind_ok hread, if_neg (by rw [hflags]; decide), hv, ← hfifo]
  dsimp only
  rw [Nat.min_comm, ← List.take_take, List.take_length]
  rfl

/-- One level of the anticollision with a single peer. -/
theorem nfcaAnticollisionLevel_eq {s : St25r3916 (Aerial σ)} {sel : UInt8} {answer : List UInt8}
    {spot : Spot σ} (hhear : s.i2c.spot.hear (.plain [sel, 0x20] 0) = (some answer, spot))
    (hanswer : answer.length = 5) :
    ∃ nfc, nfcaAnticollisionLevel sel s = (.ok (some answer), nfc) ∧ Heard spot s nfc := by
  generalize hc : transmitPlain { s.i2c with
    flags := 0, fifo := [sel, 0x20], numTx := numTxWord (UInt16.ofNat [sel, 0x20].length) 0 } = c
  obtain ⟨hfifo, hspot, hflags⟩ : c.fifo = answer ∧ c.spot = spot ∧ c.flags = 0x38 := by
    have htwo : (numTxWord 2 0 >>> 3).toNat = 2 ∧ (numTxWord 2 0 &&& 0x07).toNat = 0 := by decide
    have hcount : numTxWord (UInt16.ofNat [sel, 0x20].length) 0 = numTxWord 2 0 := rfl
    rw [← hc, transmitPlain]
    dsimp only
    rw [hcount, htwo.1, htwo.2, if_pos rfl, send]
    dsimp only [List.take]
    rw [hhear]
    exact ⟨List.append_nil _, rfl, by simp⟩
  have hmode : writeReg reg.ISO14443A_NFC 0x01 s = (.ok (), s) := rfl
  have hlen : c.fifo.length = 5 := by rw [hfifo, hanswer]
  have hbits : word c.flags &&& (irq.RXE ||| irq.COL) ≠ 0 := by rw [hflags]; decide
  have hnot : ¬ (word c.flags &&& irq.COL = 0 ∧ word c.flags &&& irq.RXE = 0) := by
    rw [hflags]
    decide
  have hcol : ¬ word c.flags &&& irq.COL ≠ 0 := by
    rw [hflags]
    decide
  obtain ⟨p, hwait⟩ := waitIrq_eq hbits 10
  obtain ⟨st, hst, hstatus⟩ := fifoStatus_eq ⟨{ c with flags := 0 }, p⟩ (by dsimp only; omega)
  obtain ⟨v, hv, hread⟩ := readFifo_eq ⟨{ c with flags := 0 }, p⟩ (n := 5) (by decide)
    (Nat.le_of_eq hlen.symm)
  have hcd : ∃ cd, readReg reg.COLLISION_STATUS
      (⟨{ c with flags := 0, fifo := c.fifo.drop 5 }, p⟩ : St25r3916 (Aerial σ)) = (.ok cd, _) :=
    ⟨_, rfl⟩
  obtain ⟨cd, hcd⟩ := hcd
  have hop : c.opControl = s.i2c.opControl := by
    rw [← hc, transmitPlain, opControl_send]
  refine ⟨⟨{ c with flags := 0, fifo := c.fifo.drop 5 }, p⟩, ?_, hspot, hop⟩
  have hsending : (Anticollision.start sel).sending = [sel, 0x20] := rfl
  rw [nfcaAnticollisionLevel, lift_bind_ok (setFwtMs_eq 8 s), lift_bind_ok hmode,
    lift_bind_ok (setRxCrcCheck_eq true s), anticollisionRounds, hsending]
  have hsent := sends_plain s [sel, 0x20] (α := Option (List UInt8))
  rw [show UInt16.ofNat (Anticollision.start sel).sbytes = UInt16.ofNat [sel, (0x20 : UInt8)].length
    from rfl, show (Anticollision.start sel).sbits = 0 from rfl, hsent, hc, lift_bind_ok hwait,
    if_neg hnot, lift_bind_ok hstatus]
  obtain ⟨bytes, bits⟩ := st
  dsimp only at hst ⊢
  have hactual : min bytes.toNat (5 - (Anticollision.start sel).rbufOffset) = 5 := by
    rw [hst, hlen]
    rfl
  rw [hactual, if_neg (by decide), lift_bind_ok hread, lift_bind_ok hcd, if_neg hcol, hv]
  have hjoined : ((Anticollision.start sel).read (c.fifo.take 5)).joined = answer := by
    have htake : c.fifo.take 5 = answer := by rw [hfifo, ← hanswer, List.take_length]
    rw [htake]
    match answer, hanswer with
    | [a, b, c, d, e], _ => rfl
  rw [hjoined]
  rfl

end Aerial

end PaperNamePlate
