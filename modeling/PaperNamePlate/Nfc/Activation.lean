import PaperNamePlate.Nfc.Polling
import PaperNamePlate.Nfc.TagMemory
import Mathlib.Logic.Function.Iterate

/-!
# From the activation to the first command

The chip activates the tag by itself and raises RXE_PTA and WU_A on the way; RXE
tells the first command. The three flags may fall into the polls of the emulator in
any way. A clock that counts the accesses to the chip says when each of them is
raised, before, between or in the middle of the polls.
-/
namespace PaperNamePlate

open Embedded

/-- An activation at 106 kbit/s and the command after it. -/
structure Activation where
  /-- The access from which on RXE_PTA is raised. -/
  pta : Nat
  wake : Nat
  rxe : Nat
  pta_le : pta ≤ wake
  wake_le : wake ≤ rxe
  frame : List UInt8
  frame_pos : 1 ≤ frame.length
  frame_le : frame.length ≤ 62
  crc : UInt8 × UInt8
  /-- What the other registers read at each access. -/
  regs : Nat → UInt8 → UInt8
  above : ∀ n, pta ≤ n → regs n reg.PT_DISPLAY &&& 0x0F > 0x01

/-- The chip in the field of the reader. -/
structure FieldChip (A : Activation) where
  /-- The number of accesses so far. -/
  now : Nat
  /-- When the main and the target interrupt register were last read, and thereby cleared. -/
  mainRead : Nat
  targetRead : Nat
  /-- When the FIFO was last cleared, and the bytes read from it since then. -/
  emptied : Nat
  popped : Nat

namespace FieldChip

variable {A : Activation}

def tick (c : FieldChip A) : FieldChip A := { c with now := c.now + 1 }

def mainFlags (c : FieldChip A) : UInt8 := if c.mainRead < A.rxe ∧ A.rxe ≤ c.now then 0x10 else 0

def targetFlags (c : FieldChip A) : UInt8 :=
  (if c.targetRead < A.pta ∧ A.pta ≤ c.now then 0x10 else 0) |||
    (if c.targetRead < A.wake ∧ A.wake ≤ c.now then 0x01 else 0)

/-- The frame with its CRC, from its RXE on until the FIFO is cleared. -/
def fifo (c : FieldChip A) : List UInt8 :=
  if c.emptied < A.rxe ∧ A.rxe ≤ c.now then (A.frame ++ [A.crc.1, A.crc.2]).drop c.popped else []

def padded (bs : List UInt8) (n : Nat) : Vector UInt8 n := .ofFn fun i => bs.getD i 0

/-- What reading a register gives, and the chip after it. -/
def readRegister (c : FieldChip A) (r : UInt8) (n : Nat) : List UInt8 × FieldChip A :=
  if r = reg.IRQ_MAIN then
    ([c.mainFlags, 0, 0, c.targetFlags],
      { c with mainRead := c.now, targetRead := if n < 4 then c.targetRead else c.now })
  else if r = reg.IRQ_TARGET then ([c.targetFlags], { c with targetRead := c.now })
  else if r = reg.IRQ_ERROR_WUP then ([0], c)
  else if r = reg.FIFO_STATUS1 then ([UInt8.ofNat c.fifo.length, 0], c)
  else ([A.regs c.now r], c)

instance : I2c (FieldChip A) where
  Error := Empty
  write c _ data :=
    (.ok (), if data = [cmd.CLEAR_FIFO] then { c.tick with emptied := c.tick.now, popped := 0 }
      else c.tick)
  transaction c _ _ := (.ok (), c.tick)
  writeRead c _ command n :=
    match command with
    | [b] =>
      if b = 0x9F then (.ok (padded c.tick.fifo n),
        { c.tick with popped := c.popped + min n c.tick.fifo.length })
      else
        let (bs, c') := c.tick.readRegister (b &&& 0x3F) n
        (.ok (padded bs n), c')
    | _ => (.ok (padded [] n), c.tick)

/-! ## Accesses that leave the interrupt registers alone -/

/-- Time passes, and the FIFO stays. -/
structure Waits (c c' : FieldChip A) : Prop where
  now : c.now ≤ c'.now
  mainRead : c'.mainRead = c.mainRead
  targetRead : c'.targetRead = c.targetRead
  emptied : c'.emptied = c.emptied
  popped : c'.popped = c.popped

theorem Waits.trans {c c' c'' : FieldChip A} (h : Waits c c') (h' : Waits c' c'') : Waits c c'' :=
  ⟨Nat.le_trans h.now h'.now, h'.mainRead.trans h.mainRead, h'.targetRead.trans h.targetRead,
    h'.emptied.trans h.emptied, h'.popped.trans h.popped⟩

theorem waits_tick (c : FieldChip A) : Waits c c.tick := ⟨Nat.le_succ _, rfl, rfl, rfl, rfl⟩

/-- A register that shows no flag and no FIFO state. -/
def Plain (r : UInt8) : Prop :=
  r &&& 0x3F ≠ reg.IRQ_MAIN ∧ r &&& 0x3F ≠ reg.IRQ_TARGET ∧ r &&& 0x3F ≠ reg.IRQ_ERROR_WUP ∧
    r &&& 0x3F ≠ reg.FIFO_STATUS1

instance (r : UInt8) : Decidable (Plain r) := inferInstanceAs (Decidable (_ ∧ _))

open St25r3916

theorem readReg_plain {r : UInt8} (h : Plain (0x40 ||| (r &&& 0x3F)))
    (hf : (0x40 ||| (r &&& 0x3F) : UInt8) ≠ 0x9F) (c : FieldChip A) (pending : UInt32) :
    readReg r ⟨c, pending⟩ =
      (.ok (A.regs c.tick.now ((0x40 ||| (r &&& 0x3F)) &&& 0x3F)), ⟨c.tick, pending⟩) := by
  obtain ⟨h1, h2, h3, h4⟩ := h
  simp only [readReg, readRegs, bus, Prog.zoom, Prog.bind_eq, I2c.writeRead, if_neg hf,
    readRegister, if_neg h1, if_neg h2, if_neg h3, if_neg h4]
  rfl

theorem writeReg_eq (r v : UInt8) (c : FieldChip A) (pending : UInt32) :
    writeReg r v ⟨c, pending⟩ = (.ok (), ⟨c.tick, pending⟩) := by
  have hne : ([r &&& 0x3F, v] : List UInt8) ≠ [cmd.CLEAR_FIFO] := by simp
  simp only [writeReg, bus, Prog.zoom, I2c.write, if_neg hne]

theorem modifyReg_waits {r : UInt8} (h : Plain (0x40 ||| (r &&& 0x3F)))
    (hf : (0x40 ||| (r &&& 0x3F) : UInt8) ≠ 0x9F) (clear set : UInt8) (c : FieldChip A)
    (pending : UInt32) :
    ∃ c', Waits c c' ∧ modifyReg r clear set ⟨c, pending⟩ = (.ok (), ⟨c', pending⟩) := by
  rw [modifyReg, Prog.bind_eq, readReg_plain h hf]
  dsimp only [Prog.when]
  split
  · exact ⟨_, (waits_tick c).trans (waits_tick _), writeReg_eq _ _ _ _⟩
  · exact ⟨_, waits_tick c, rfl⟩

/-! ## Flags -/

/-- The interrupt word of RXE, RXE_PTA and WU_A. -/
def flags (rxe pta wake : Bool) : UInt32 :=
  (if rxe then irq.RXE else 0) ||| (if pta then irq.RXE_PTA else 0) |||
    (if wake then irq.WU_A else 0)

/-- The flags that the updates of an activation look at. -/
def WATCHED : UInt32 :=
  irq.NFCT ||| irq.RXE ||| irq.EOF ||| irq.RXE_PTA ||| irq.WU_A ||| irq.ERROR_MASK

/-- Of the watched flags, the pending ones are these. -/
def Holds (pending : UInt32) (rxe pta wake : Bool) : Prop :=
  pending &&& WATCHED = flags rxe pta wake

/-- The registers as a read of all flags leaves them. -/
def sampled (c : FieldChip A) : FieldChip A :=
  { c with now := c.now + 3, mainRead := c.now + 2, targetRead := c.now + 3 }

/-- The main register is read before the target register. -/
def seesRxe (c : FieldChip A) : Bool := c.mainRead < A.rxe ∧ A.rxe ≤ c.now + 2
def seesPta (c : FieldChip A) : Bool := c.targetRead < A.pta ∧ A.pta ≤ c.now + 3
def seesWake (c : FieldChip A) : Bool := c.targetRead < A.wake ∧ A.wake ≤ c.now + 3

theorem readError_eq (c : FieldChip A) (pending : UInt32) :
    readReg reg.IRQ_ERROR_WUP ⟨c, pending⟩ = (.ok 0, ⟨c.tick, pending⟩) := rfl

theorem readMain_eq (c : FieldChip A) (pending : UInt32) :
    readRegs reg.IRQ_MAIN 2 ⟨c, pending⟩ =
      (.ok #v[c.tick.mainFlags, 0], ⟨{ c.tick with mainRead := c.tick.now }, pending⟩) := rfl

theorem readTarget_eq (c : FieldChip A) (pending : UInt32) :
    readReg reg.IRQ_TARGET ⟨c, pending⟩ =
      (.ok c.tick.targetFlags, ⟨{ c.tick with targetRead := c.tick.now }, pending⟩) := rfl

theorem readIrq_eq (c : FieldChip A) (pending : UInt32) :
    readIrq ⟨c, pending⟩ =
      (.ok (flags c.seesRxe c.seesPta c.seesWake), ⟨c.sampled, pending⟩) := by
  have hword : ∀ a b w : Bool, (((if a then 0x10 else 0 : UInt8).toUInt32 <<< 24) |||
      ((0 : UInt8).toUInt32 <<< 16) ||| ((0 : UInt8).toUInt32 <<< 8) |||
        ((if b then 0x10 else 0) ||| (if w then 0x01 else 0) : UInt8).toUInt32) = flags a b w := by
    decide
  have h := hword c.seesRxe c.seesPta c.seesWake
  simp only [seesRxe, seesPta, seesWake, decide_eq_true_eq] at h
  rw [readIrq, Prog.bind_eq, readError_eq]
  dsimp only
  rw [Prog.bind_eq, readMain_eq]
  dsimp only
  rw [Prog.bind_eq, readTarget_eq]
  exact congrArg (fun word => (Except.ok word, (⟨c.sampled, pending⟩ : St25r3916 (FieldChip A)))) h

theorem flags_or (a b w a' b' w' : Bool) :
    flags a b w ||| flags a' b' w' = flags (a || a') (b || b') (w || w') := by
  revert a b w a' b' w'
  decide

theorem flags_and_not (a b w x y z : Bool) :
    flags a b w &&& ~~~flags (a && x) (b && y) (w && z) = flags (a && !x) (b && !y) (w && !z) := by
  revert a b w x y z
  decide

theorem flags_and_watched (a b w : Bool) : flags a b w &&& WATCHED = flags a b w := by
  revert a b w
  decide

/-- `takeIrq` takes those of the flags it asks for. -/
theorem takeIrq_eq {x y z : Bool} (bits : UInt32)
    (hbits : ∀ a b w, flags a b w &&& bits = flags (a && x) (b && y) (w && z))
    (hwatched : WATCHED &&& bits = bits) (c : FieldChip A) {pending : UInt32} {a b w : Bool}
    (h : Holds pending a b w) :
    ∃ pending', Holds pending' ((a || c.seesRxe) && !x) ((b || c.seesPta) && !y)
        ((w || c.seesWake) && !z) ∧
      takeIrq bits ⟨c, pending⟩ =
        (.ok (flags ((a || c.seesRxe) && x) ((b || c.seesPta) && y) ((w || c.seesWake) && z)),
          ⟨c.sampled, pending'⟩) := by
  have hfold : Holds (pending ||| flags c.seesRxe c.seesPta c.seesWake) (a || c.seesRxe)
      (b || c.seesPta) (w || c.seesWake) := by
    have hdistrib : ∀ p q m : UInt32, (p ||| q) &&& m = (p &&& m) ||| (q &&& m) := fun p q m => by
      simp [← UInt32.toBitVec_inj, BitVec.and_or_distrib_right]
    rw [Holds, hdistrib, h, flags_and_watched, flags_or]
  have hhit : (pending ||| flags c.seesRxe c.seesPta c.seesWake) &&& bits =
      flags ((a || c.seesRxe) && x) ((b || c.seesPta) && y) ((w || c.seesWake) && z) := by
    rw [← hbits, ← hfold, UInt32.and_assoc, hwatched]
  have hrun : takeIrq bits ⟨c, pending⟩ =
      (.ok ((pending ||| flags c.seesRxe c.seesPta c.seesWake) &&& bits),
        ⟨c.sampled, (pending ||| flags c.seesRxe c.seesPta c.seesWake) &&&
          ~~~((pending ||| flags c.seesRxe c.seesPta c.seesWake) &&& bits)⟩) := by
    simp only [takeIrq, foldIrq, Prog.bind_eq, readIrq_eq]
    rfl
  rw [hhit] at hrun
  refine ⟨_, ?_, hrun⟩
  rw [Holds, UInt32.and_assoc, UInt32.and_comm (~~~_), ← UInt32.and_assoc, hfold, flags_and_not]

theorem flags_other (a b w : Bool) :
    flags a b w &&& irq.NFCT = 0 ∧ flags a b w &&& irq.EOF = 0 := by
  revert a b w
  decide

theorem flags_rxe (a b w : Bool) : flags a b w &&& irq.RXE ≠ 0 ↔ a = true := by
  revert a b w
  decide

theorem flags_pta (a b w : Bool) : flags a b w &&& irq.RXE_PTA ≠ 0 ↔ b = true := by
  revert a b w
  decide

theorem flags_wake (a b w : Bool) : flags a b w &&& irq.WU_A ≠ 0 ↔ w = true := by
  revert a b w
  decide

/-! ## The frame in the FIFO -/

/-- The frame has been received and nothing has been read of it. -/
structure Received (c : FieldChip A) : Prop where
  rxe : A.rxe ≤ c.now
  emptied : c.emptied < A.rxe
  popped : c.popped = 0

theorem Received.waits {c c' : FieldChip A} (h : Received c) (hw : Waits c c') : Received c' :=
  ⟨Nat.le_trans h.rxe hw.now, hw.emptied ▸ h.emptied, hw.popped.trans h.popped⟩

theorem Received.fifo {c : FieldChip A} (h : Received c) :
    c.fifo = A.frame ++ [A.crc.1, A.crc.2] := by
  rw [FieldChip.fifo, if_pos ⟨h.emptied, h.rxe⟩, h.popped, List.drop_zero]

theorem fifoStatus_eq {c : FieldChip A} (h : Received c) (pending : UInt32) :
    ∃ bits, fifoStatus ⟨c, pending⟩ =
      (.ok (UInt16.ofNat (A.frame.length + 2), bits), ⟨c.tick, pending⟩) := by
  have hread : readRegs reg.FIFO_STATUS1 2 ⟨c, pending⟩ =
      (.ok #v[UInt8.ofNat c.tick.fifo.length, 0], ⟨c.tick, pending⟩) := rfl
  have hlen : c.tick.fifo.length = A.frame.length + 2 := by
    rw [(h.waits (waits_tick c)).fifo]
    simp
  have hle := A.frame_le
  have hbyte : (UInt8.ofNat (A.frame.length + 2)).toUInt16 = UInt16.ofNat (A.frame.length + 2) := by
    rw [← UInt16.toNat_inj]
    simp
    omega
  have hor : ∀ n : UInt16, n ||| (((0 : UInt8) &&& 0xC0).toUInt16 <<< 2) = n := by simp
  refine ⟨((0 : UInt8) >>> 1) &&& 0x07, ?_⟩
  unfold fifoStatus
  rw [Prog.bind_eq, hread, hlen, ← hbyte]
  exact congrArg (fun n => (Except.ok (n, _), _)) (hor _)

theorem toList_padded {bs : List UInt8} {n : Nat} (h : n ≤ bs.length) :
    (padded bs n).toList = bs.take n := by
  refine List.ext_getElem (by simp; omega) fun i hi _ => ?_
  have hlt : i < bs.length := by simp at hi; omega
  simp [padded, List.getD_eq_getElem?_getD, hlt]

theorem readFifo_eq {c : FieldChip A} (h : Received c) (pending : UInt32) :
    ∃ rx c', rx.toList = A.frame ∧
      readFifo A.frame.length ⟨c, pending⟩ = (.ok rx, ⟨c', pending⟩) := by
  have hpos := A.frame_pos
  have hne : A.frame.length ≠ 0 := by omega
  have hfifo := (h.waits (waits_tick c)).fifo
  refine ⟨padded c.tick.fifo A.frame.length,
    { c.tick with popped := c.popped + min A.frame.length c.tick.fifo.length }, ?_, ?_⟩
  · rw [hfifo, toList_padded (by simp), List.take_left]
  · unfold readFifo
    rw [dif_neg hne]
    rfl

/-- Reading and clearing the FIFO leaves the interrupt registers alone. -/
def KeepsReads {α : Type} (p : Access (FieldChip A) α) : Prop :=
  ∀ c pending, ∃ a c', p ⟨c, pending⟩ = (.ok a, ⟨c', pending⟩) ∧ c.now ≤ c'.now ∧
    c'.mainRead = c.mainRead ∧ c'.targetRead = c.targetRead

theorem keepsReads_fifoStatus : KeepsReads (fifoStatus : Access (FieldChip A) _) :=
  fun c _ => ⟨_, c.tick, rfl, Nat.le_succ _, rfl, rfl⟩

theorem keepsReads_readFifo (n : Nat) : KeepsReads (readFifo n : Access (FieldChip A) _) := by
  intro c pending
  unfold readFifo
  split
  · exact ⟨_, c, rfl, Nat.le_refl _, rfl, rfl⟩
  · exact ⟨_, _, rfl, Nat.le_succ _, rfl, rfl⟩

theorem keepsReads_command (k : UInt8) : KeepsReads (command k : Access (FieldChip A) Unit) := by
  intro c pending
  by_cases h : [k] = [cmd.CLEAR_FIFO]
  · refine ⟨(), { c.tick with emptied := c.tick.now, popped := 0 }, ?_, Nat.le_succ _, rfl, rfl⟩
    simp only [command, bus, Prog.zoom, I2c.write, if_pos h]
  · refine ⟨(), c.tick, ?_, Nat.le_succ _, rfl, rfl⟩
    simp only [command, bus, Prog.zoom, I2c.write, if_neg h]

end FieldChip

/-! ## The stages of an activation -/

namespace Target

open FieldChip St25r3916

variable {A : Activation} {t : Target (FieldChip A)}

/-- In `idle`, and nothing of the activation has been seen yet. -/
structure Listening (t : Target (FieldChip A)) : Prop where
  state : t.emu.state = .idle
  bitrate : t.emu.bitrate106 = true
  pending : Holds t.nfc.pendingIrq false false false
  mainRead : t.nfc.i2c.mainRead < A.pta
  targetRead : t.nfc.i2c.targetRead < A.pta
  emptied : t.nfc.i2c.emptied < A.rxe
  popped : t.nfc.i2c.popped = 0

/-- The frame is taken or to come; `a` says whether its RXE has been read from the chip. -/
structure Expects (c : FieldChip A) (a : Bool) : Prop where
  read : a = true → A.rxe ≤ c.now
  unread : a = false → c.mainRead < A.rxe
  emptied : c.emptied < A.rxe
  popped : c.popped = 0

structure Awaiting (t : Target (FieldChip A)) (a b w : Bool) : Prop where
  state : t.emu.state = .ready
  wakeup : t.emu.wakeup = false
  pending : Holds t.nfc.pendingIrq a b w
  expects : Expects t.nfc.i2c a
  wake : w = false → t.nfc.i2c.targetRead < A.wake

structure Selected (t : Target (FieldChip A)) (a b w : Bool) : Prop where
  state : t.emu.state = .active
  pending : Holds t.nfc.pendingIrq a b w
  expects : Expects t.nfc.i2c a

/-- In `idle`, and the frame is lost. -/
structure Missed (t : Target (FieldChip A)) (w : Bool) : Prop where
  state : t.emu.state = .idle
  bitrate : t.emu.bitrate106 = true
  pending : Holds t.nfc.pendingIrq false false w
  now : A.rxe ≤ t.nfc.i2c.now
  mainRead : A.rxe ≤ t.nfc.i2c.mainRead
  targetRead : A.pta ≤ t.nfc.i2c.targetRead

/-- What a poll in `idle` takes. -/
theorem look_idle {w : Bool} (hs : t.emu.state = .idle) (hb : t.emu.bitrate106 = true)
    (hp : Holds t.nfc.pendingIrq false false w) :
    ∃ pending', Holds pending' false false (w || t.nfc.i2c.seesWake) ∧
      look t =
        if t.nfc.i2c.seesRxe then (.ok .stray, { t with nfc := ⟨t.nfc.i2c.sampled, pending'⟩ })
        else if t.nfc.i2c.seesPta then
          (.ok (.pta (A.regs (t.nfc.i2c.now + 4) reg.PT_DISPLAY)),
            { t with nfc := ⟨t.nfc.i2c.sampled.tick, pending'⟩ })
        else (.ok .nothing, { t with nfc := ⟨t.nfc.i2c.sampled, pending'⟩ }) := by
  obtain ⟨pending', hholds, htake⟩ := takeIrq_eq (x := true) (y := true) (z := false)
    (irq.NFCT ||| irq.RXE ||| irq.EOF ||| irq.RXE_PTA) (by decide) (by decide) t.nfc.i2c hp
  simp only [Bool.false_or, Bool.and_true, Bool.not_true, Bool.and_false, Bool.not_false]
    at hholds htake
  obtain ⟨hnfct, heof⟩ := flags_other t.nfc.i2c.seesRxe t.nfc.i2c.seesPta false
  have hlook : look t = lookIdle t := by
    rw [look, getEmu_bind_eq, hs]
    rfl
  refine ⟨pending', hholds, ?_⟩
  rw [hlook, lookIdle, chip_bind_ok htake]
  have hrxe := flags_rxe t.nfc.i2c.seesRxe t.nfc.i2c.seesPta false
  have hpta := flags_pta t.nfc.i2c.seesRxe t.nfc.i2c.seesPta false
  simp only [hnfct, heof, Prog.when, ne_eq, not_true_eq_false, if_false]
  have hskip : ∀ (k : Unit → Emu (FieldChip A) Sight) t', (Prog.ok () >>= k) t' = k () t' :=
    fun _ _ => rfl
  rw [hskip, getEmu_bind_eq]
  by_cases hr : t.nfc.i2c.seesRxe = true
  · rw [if_pos (hrxe.mpr hr), if_pos hr]
    rfl
  · rw [if_neg (mt hrxe.mp hr), if_neg hr]
    by_cases hp' : t.nfc.i2c.seesPta = true
    · rw [if_pos ⟨hpta.mpr hp', hb⟩, if_pos hp',
        chip_bind_ok (readReg_plain (r := reg.PT_DISPLAY) (by decide) (by decide) _ _)]
      rfl
    · rw [if_neg fun h => hp' (hpta.mp h.1), if_neg hp']
      rfl

theorem look_ready {a b w : Bool} (h : Awaiting t a b w) :
    ∃ pending', Holds pending' (a || t.nfc.i2c.seesRxe) (b || t.nfc.i2c.seesPta) false ∧
      look t = (.ok (if w || t.nfc.i2c.seesWake then .wake else .nothing),
        { t with nfc := ⟨t.nfc.i2c.sampled, pending'⟩ }) := by
  obtain ⟨pending', hholds, htake⟩ := takeIrq_eq (x := false) (y := false) (z := true)
    (irq.EOF ||| irq.WU_A) (by decide) (by decide) t.nfc.i2c h.pending
  simp only [Bool.and_true, Bool.not_true, Bool.and_false, Bool.not_false] at hholds htake
  obtain ⟨-, heof⟩ := flags_other false false (w || t.nfc.i2c.seesWake)
  have hwake := flags_wake false false (w || t.nfc.i2c.seesWake)
  have hlook : look t = lookReady t := by
    rw [look, getEmu_bind_eq, h.state]
    rfl
  refine ⟨pending', hholds, ?_⟩
  rw [hlook, lookReady, getEmu_bind_eq, h.wakeup]
  simp only [Bool.false_eq_true, if_false]
  rw [chip_bind_ok htake]
  simp only [heof, ne_eq, not_true_eq_false, if_false]
  by_cases hw : (w || t.nfc.i2c.seesWake) = true
  · rw [if_pos (hwake.mpr hw), if_pos hw]
    rfl
  · rw [if_neg (mt hwake.mp hw), if_neg hw]
    rfl

/-- What `active` takes of the flags. -/
theorem take_active {a b w : Bool} (h : Selected t a b w) :
    ∃ pending', Holds pending' false (b || t.nfc.i2c.seesPta) (w || t.nfc.i2c.seesWake) ∧
      takeIrq (irq.EOF ||| irq.RXE) t.nfc =
        (.ok (flags (a || t.nfc.i2c.seesRxe) false false), ⟨t.nfc.i2c.sampled, pending'⟩) := by
  have htake := takeIrq_eq (x := true) (y := false) (z := false)
    (irq.EOF ||| irq.RXE) (by decide) (by decide) t.nfc.i2c h.pending
  simpa only [Bool.and_true, Bool.not_true, Bool.and_false, Bool.not_false] using htake

theorem look_eq_lookActive (h : t.emu.state = .active) : look t = lookActive t := by
  rw [look, getEmu_bind_eq, h]
  rfl

theorem look_active_nothing {a b w : Bool} (h : Selected t a b w)
    (hr : (a || t.nfc.i2c.seesRxe) = false) :
    ∃ pending', Holds pending' false (b || t.nfc.i2c.seesPta) (w || t.nfc.i2c.seesWake) ∧
      look t = (.ok .nothing, { t with nfc := ⟨t.nfc.i2c.sampled, pending'⟩ }) := by
  obtain ⟨pending', hholds, htake⟩ := take_active h
  refine ⟨pending', hholds, ?_⟩
  rw [look_eq_lookActive h.state, lookActive, chip_bind_ok htake, hr]
  rfl

theorem Expects.received {c : FieldChip A} {a : Bool} (h : Expects c a)
    (hr : (a || c.seesRxe) = true) : Received c.sampled := by
  have hrxe : A.rxe ≤ c.now + 2 := by
    rcases Bool.or_eq_true_iff.mp hr with ha | hs
    · exact Nat.le_add_right_of_le (h.read ha)
    · exact (of_decide_eq_true hs).2
  exact ⟨Nat.le_succ_of_le hrxe, h.emptied, h.popped⟩

theorem look_active_frame {a b w : Bool} (h : Selected t a b w)
    (hr : (a || t.nfc.i2c.seesRxe) = true) : ∃ t', look t = (.ok (.frame A.frame), t') := by
  obtain ⟨pending', hholds, htake⟩ := take_active h
  obtain ⟨pending'', -, herrs⟩ := takeIrq_eq (x := false) (y := false) (z := false)
    irq.ERROR_MASK (by decide) (by decide) t.nfc.i2c.sampled hholds
  simp only [Bool.and_false] at herrs
  have hrec : Received t.nfc.i2c.sampled.sampled := by
    have hrec := h.expects.received hr
    exact ⟨Nat.le_add_right_of_le hrec.rxe, hrec.emptied, hrec.popped⟩
  obtain ⟨bits, hstatus⟩ := fifoStatus_eq hrec pending''
  obtain ⟨rx, c', hrx, hread⟩ := readFifo_eq (hrec.waits (waits_tick _)) pending''
  have hpos := A.frame_pos
  have hle := A.frame_le
  have hlen : (UInt16.ofNat (A.frame.length + 2)).toNat = A.frame.length + 2 := by
    rw [UInt16.toNat_ofNat', Nat.mod_eq_of_lt (by omega)]
  have hgood : ¬ (flags false false false ≠ 0 ∨ UInt16.ofNat (A.frame.length + 2) ≤ 2 ∨
      UInt16.ofNat (A.frame.length + 2) > 64) := by
    have htwo : (2 : UInt16).toNat = 2 := rfl
    have hmax : (64 : UInt16).toNat = 64 := rfl
    rintro (herr | hshort | hlong)
    · exact herr rfl
    · rw [UInt16.le_iff_toNat_le, hlen, htwo] at hshort
      omega
    · rw [gt_iff_lt, UInt16.lt_iff_toNat_lt, hlen, hmax] at hlong
      omega
  have hone : flags true false false &&& irq.EOF = 0 ∧ flags true false false &&& irq.RXE ≠ 0 := by
    decide
  rw [look_eq_lookActive h.state, lookActive, chip_bind_ok htake, hr, if_neg (not_not.mpr hone.1),
    if_pos hone.2, chip_bind_ok herrs, chip_bind_ok hstatus]
  simp only [if_neg hgood]
  have hn : (UInt16.ofNat (A.frame.length + 2)).toNat - 2 = A.frame.length := by omega
  rw [hn, chip_bind_ok hread, hrx]
  exact ⟨_, rfl⟩

/-! ## The actions -/

theorem chip_eq {α : Type} {p : Access (FieldChip A) α} {a : α} {nfc : St25r3916 (FieldChip A)}
    (h : p t.nfc = (.ok a, nfc)) : chip p t = (.ok a, { t with nfc }) := by
  have hbind := chip_bind_ok h fun a => (pure a : Emu (FieldChip A) α)
  rwa [bind_pure] at hbind

theorem gotoReady_eq (depth : Nat) {a b w : Bool} (hp : Holds t.nfc.pendingIrq a b w) :
    ∃ c' pending', Waits t.nfc.i2c.sampled c' ∧
      Holds pending' (a || t.nfc.i2c.seesRxe) (b || t.nfc.i2c.seesPta) (w || t.nfc.i2c.seesWake) ∧
      gotoReady depth t =
        (.ok (), { emu := { t.emu with state := .ready }, nfc := ⟨c', pending'⟩ }) := by
  obtain ⟨pending', hholds, htake⟩ := takeIrq_eq (x := false) (y := false) (z := false)
    irq.EOF (by decide) (by decide) t.nfc.i2c hp
  simp only [Bool.and_false, Bool.not_false, Bool.and_true] at hholds htake
  obtain ⟨c₁, hw₁, h₁⟩ := modifyReg_waits (r := reg.AUX) (by decide) (by decide) AUX_NO_CRC_RX 0
    t.nfc.i2c.sampled pending'
  obtain ⟨c₂, hw₂, h₂⟩ := modifyReg_waits (r := reg.OP_CONTROL) (by decide) (by decide) op.WU 0
    c₁.tick pending'
  refine ⟨c₂.tick, pending', hw₁.trans ((waits_tick c₁).trans (hw₂.trans (waits_tick c₂))), hholds,
    ?_⟩
  have hnone : ¬ flags false false false ≠ 0 := by decide
  rw [gotoReady, chip_bind_ok htake, if_neg hnone, chip_bind_ok h₁,
    chip_bind_ok (writeReg_eq reg.BIT_RATE 0x00 c₁ pending'), chip_bind_ok h₂,
    chip_bind_ok (writeReg_eq reg.MODE MODE_TARGET_LISTEN_A c₂ pending')]
  rfl

theorem gotoActive_eq {a b w : Bool} (hp : Holds t.nfc.pendingIrq a b w) :
    ∃ c' pending', Waits t.nfc.i2c c' ∧
      Holds pending' (a || c'.seesRxe) (b || c'.seesPta) (w || c'.seesWake) ∧
      gotoActive t =
        (.ok (), { emu := { t.emu with state := .active }, nfc := ⟨c'.sampled, pending'⟩ }) := by
  obtain ⟨c₁, hw₁, h₁⟩ := modifyReg_waits (r := reg.NFCIP1_PASSIVE_TARGET) (by decide) (by decide) 0
    D_106_AC_A t.nfc.i2c t.nfc.pendingIrq
  obtain ⟨pending', hholds, htake⟩ := takeIrq_eq (x := false) (y := false) (z := false)
    irq.ERROR_MASK (by decide) (by decide) c₁ hp
  simp only [Bool.and_false, Bool.not_false, Bool.and_true] at hholds htake
  refine ⟨c₁, pending', hw₁, hholds, ?_⟩
  rw [gotoActive, chip_bind_ok h₁, chip_bind_ok htake]
  rfl

/-! ## The updates -/

def advance (depth : Nat) (t : Target (FieldChip A)) : Target (FieldChip A) := (update depth t).2

theorem advance_eq (depth : Nat) {s : Sight} {t' t'' : Target (FieldChip A)}
    (hlook : look t = (.ok s, t')) (hreact : react depth s t' = (.ok (), t''))
    (hne : t''.emu.state ≠ .off) : advance depth t = t'' := by
  have hdrive : drive depth t = (.ok (), t'') := by
    rw [drive_eq, Prog.bind_eq, hlook]
    exact hreact
  rw [advance, update_eq, hdrive]
  dsimp only
  split_ifs with h1 h2
  · rfl
  · exact absurd h2.1 hne
  · rfl
  · rfl

theorem Listening.sees_iff (h : Listening t) :
    (t.nfc.i2c.seesPta = true ↔ A.pta ≤ t.nfc.i2c.now + 3) ∧
      (t.nfc.i2c.seesRxe = true ↔ A.rxe ≤ t.nfc.i2c.now + 2) := by
  have hmain := h.mainRead
  have htarget := h.targetRead
  have hle := A.pta_le
  have hle' := A.wake_le
  simp only [seesPta, seesRxe, decide_eq_true_eq]
  omega

/-- Before RXE_PTA a poll finds nothing. -/
theorem Listening.wait (h : Listening t) (depth : Nat) (hp : t.nfc.i2c.now + 3 < A.pta) :
    Listening (advance depth t) ∧ (advance depth t).nfc.i2c.now = t.nfc.i2c.now + 3 := by
  have hle := A.pta_le
  have hle' := A.wake_le
  have hpta : t.nfc.i2c.seesPta = false := Bool.eq_false_iff.mpr fun hs => by
    have := h.sees_iff.1.mp hs
    omega
  have hrxe : t.nfc.i2c.seesRxe = false := Bool.eq_false_iff.mpr fun hs => by
    have := h.sees_iff.2.mp hs
    omega
  have hwake : t.nfc.i2c.seesWake = false := by
    simp only [seesWake, decide_eq_false_iff_not]
    omega
  obtain ⟨pending', hholds, hlook⟩ := look_idle h.state h.bitrate h.pending
  rw [hrxe, hpta] at hlook
  rw [hwake] at hholds
  have hadvance := advance_eq depth hlook rfl (by simp [h.state])
  rw [hadvance]
  exact ⟨⟨h.state, h.bitrate, hholds, by dsimp only [sampled]; omega, hp, h.emptied, h.popped⟩, rfl⟩

/-- A poll that finds RXE_PTA without RXE goes on to `ready`. -/
theorem Listening.approach (h : Listening t) (depth : Nat) (hp : A.pta ≤ t.nfc.i2c.now + 3)
    (hr : t.nfc.i2c.now + 2 < A.rxe) : ∃ a b w, Awaiting (advance depth t) a b w := by
  have hpta : t.nfc.i2c.seesPta = true := h.sees_iff.1.mpr hp
  have hrxe : t.nfc.i2c.seesRxe = false := Bool.eq_false_iff.mpr fun hs => by
    have := h.sees_iff.2.mp hs
    omega
  obtain ⟨pending', hholds, hlook⟩ := look_idle h.state h.bitrate h.pending
  rw [hrxe, hpta] at hlook
  let t' : Target (FieldChip A) := { t with nfc := ⟨t.nfc.i2c.sampled.tick, pending'⟩ }
  let t'' : Target (FieldChip A) := { t' with emu := { t.emu with wakeup := false } }
  obtain ⟨c, pending'', hwaits, hholds', hready⟩ := gotoReady_eq depth (t := t'') hholds
  have habove : A.regs (t.nfc.i2c.now + 4) reg.PT_DISPLAY &&& 0x0F > 0x01 := A.above _ (by omega)
  have hreact : react depth (.pta (A.regs (t.nfc.i2c.now + 4) reg.PT_DISPLAY)) t' =
      (.ok (), { emu := { t''.emu with state := .ready }, nfc := ⟨c, pending''⟩ }) := by
    have hne : t'.emu.state ≠ .halt := by simp [t', h.state]
    have hset : { t' with emu := { t'.emu with wakeup := decide (t'.emu.state = .halt) } } =
        t'' := by
      simp [t'', t', h.state]
    rw [react, Target.approach, getEmu_bind_eq, if_neg hne, Prog.when, if_pos habove]
    change gotoReady depth
      { t' with emu := { t'.emu with wakeup := decide (t'.emu.state = .halt) } } = _
    rw [hset, hready]
  have hadvance := advance_eq depth hlook hreact (by simp)
  rw [hadvance]
  have htarget := h.targetRead
  have hle := A.pta_le
  have hnow : t.nfc.i2c.now + 7 ≤ c.now := hwaits.now
  have hmain' : c.mainRead = t.nfc.i2c.now + 6 := hwaits.mainRead
  have htarget' : c.targetRead = t.nfc.i2c.now + 7 := hwaits.targetRead
  have hsrxe : t''.nfc.i2c.seesRxe =
      decide (t.nfc.i2c.now + 2 < A.rxe ∧ A.rxe ≤ t.nfc.i2c.now + 6) := rfl
  have hswake : t''.nfc.i2c.seesWake =
      decide (t.nfc.i2c.now + 3 < A.wake ∧ A.wake ≤ t.nfc.i2c.now + 7) := rfl
  refine ⟨_, _, _, ⟨rfl, rfl, hholds', ⟨fun ha => ?_, fun ha => ?_, ?_, ?_⟩, fun hw => ?_⟩⟩
  · rw [Bool.false_or, hsrxe, decide_eq_true_eq] at ha
    dsimp only
    omega
  · rw [Bool.false_or, hsrxe, decide_eq_false_iff_not] at ha
    dsimp only
    omega
  · exact hwaits.emptied ▸ h.emptied
  · exact hwaits.popped.trans h.popped
  · rw [Bool.false_or, hswake, Bool.or_eq_false_iff, seesWake, decide_eq_false_iff_not,
      decide_eq_false_iff_not] at hw
    dsimp only
    omega

/-- Throwing the frame away takes time and consumes no flag that is not a watched one. -/
theorem discard_eq {a b w : Bool} (hp : Holds t.nfc.pendingIrq a b w) :
    ∃ c' pending', Holds pending' (a || t.nfc.i2c.seesRxe) (b || t.nfc.i2c.seesPta)
        (w || t.nfc.i2c.seesWake) ∧ t.nfc.i2c.now + 3 ≤ c'.now ∧
      t.nfc.i2c.now + 2 ≤ c'.mainRead ∧ t.nfc.i2c.now + 3 ≤ c'.targetRead ∧
      discard t = (.ok (), { t with nfc := ⟨c', pending'⟩ }) := by
  obtain ⟨pending', hholds, htake⟩ := takeIrq_eq (x := false) (y := false) (z := false)
    irq.ERROR_MASK (by decide) (by decide) t.nfc.i2c hp
  simp only [Bool.and_false, Bool.not_false, Bool.and_true] at hholds htake
  obtain ⟨status, c₁, h₁, hn₁, hm₁, ht₁⟩ := keepsReads_fifoStatus t.nfc.i2c.sampled pending'
  obtain ⟨rx, c₂, h₂, hn₂, hm₂, ht₂⟩ := keepsReads_readFifo (min status.1.toNat 4) c₁ pending'
  obtain ⟨⟨⟩, c₃, h₃, hn₃, hm₃, ht₃⟩ := keepsReads_command cmd.CLEAR_FIFO c₂ pending'
  obtain ⟨⟨⟩, c₄, h₄, hn₄, hm₄, ht₄⟩ := keepsReads_command cmd.UNMASK_RECEIVE_DATA c₃ pending'
  obtain ⟨c₅, hw₅, h₅⟩ := modifyReg_waits (r := reg.OP_CONTROL) (by decide) (by decide) op.TX_EN 0
    c₄ pending'
  have hnow : t.nfc.i2c.now + 3 ≤ c₄.now :=
    Nat.le_trans hn₁ (Nat.le_trans hn₂ (Nat.le_trans hn₃ hn₄))
  have hmain : c₄.mainRead = t.nfc.i2c.now + 2 := by rw [hm₄, hm₃, hm₂, hm₁]; rfl
  have htarget : c₄.targetRead = t.nfc.i2c.now + 3 := by rw [ht₄, ht₃, ht₂, ht₁]; rfl
  have hguard : discard t = Prog.when (t.emu.state = .idle)
      (chip (modifyReg reg.OP_CONTROL op.TX_EN 0)) { t with nfc := ⟨c₄, pending'⟩ } := by
    rw [discard, getEmu_bind_eq, chip_bind_ok htake, chip_bind_ok h₁]
    dsimp only
    rw [chip_bind_ok h₂, chip_bind_ok h₃, chip_bind_ok h₄]
  by_cases hs : t.emu.state = .idle
  · refine ⟨c₅, pending', hholds, Nat.le_trans hnow hw₅.now,
      Nat.le_of_eq (hw₅.mainRead.trans hmain).symm,
      Nat.le_of_eq (hw₅.targetRead.trans htarget).symm, ?_⟩
    · rw [hguard, Prog.when, if_pos hs, chip_eq h₅]
  · refine ⟨c₄, pending', hholds, hnow, Nat.le_of_eq hmain.symm,
      Nat.le_of_eq htarget.symm, ?_⟩
    rw [hguard, Prog.when, if_neg hs]
    rfl

/-- A poll that finds both throws the frame away. -/
theorem Listening.miss {depth : Nat} (h : Listening t) (hr : A.rxe ≤ t.nfc.i2c.now + 2) :
    ∃ w, Missed (advance depth t) w := by
  have hle := A.pta_le
  have hle' := A.wake_le
  obtain ⟨pending', hholds, hlook⟩ := look_idle h.state h.bitrate h.pending
  rw [h.sees_iff.2.mpr hr, if_pos rfl] at hlook
  obtain ⟨c, pending'', hholds', hnow, hmain, htarget, hdiscard⟩ :=
    discard_eq (t := { t with nfc := ⟨t.nfc.i2c.sampled, pending'⟩ }) hholds
  have hsrxe : t.nfc.i2c.sampled.seesRxe = false :=
    decide_eq_false fun hs => absurd hs.1 (by dsimp only [sampled]; omega)
  have hspta : t.nfc.i2c.sampled.seesPta = false :=
    decide_eq_false fun hs => absurd hs.1 (by dsimp only [sampled]; omega)
  have hadvance := advance_eq depth hlook hdiscard (by simp [h.state])
  rw [hadvance]
  rw [hsrxe, hspta] at hholds'
  refine ⟨_, h.state, h.bitrate, hholds', Nat.le_trans ?_ hnow, Nat.le_trans ?_ hmain,
    Nat.le_trans ?_ htarget⟩ <;>
    dsimp only [sampled] <;> omega

theorem Missed.stays {depth : Nat} {w : Bool} (h : Missed t w) :
    ∃ w', Missed (advance depth t) w' := by
  have hle := A.pta_le
  have hle' := A.wake_le
  have hnow := h.now
  have hsrxe : t.nfc.i2c.seesRxe = false :=
    decide_eq_false fun hs => Nat.not_lt.mpr h.mainRead hs.1
  have hspta : t.nfc.i2c.seesPta = false :=
    decide_eq_false fun hs => Nat.not_lt.mpr h.targetRead hs.1
  obtain ⟨pending', hholds, hlook⟩ := look_idle h.state h.bitrate h.pending
  rw [hsrxe, hspta] at hlook
  have hadvance := advance_eq depth hlook rfl (by simp [h.state])
  rw [hadvance]
  refine ⟨_, h.state, h.bitrate, hholds, ?_, ?_, ?_⟩ <;> dsimp only [sampled] <;> omega

theorem Expects.sample {c c' : FieldChip A} {a : Bool} (h : Expects c a)
    (hm : c'.mainRead = c.now + 2) (hn : c.now + 3 ≤ c'.now) (he : c'.emptied = c.emptied)
    (hp : c'.popped = c.popped) : Expects c' (a || c.seesRxe) := by
  refine ⟨fun hr => Nat.le_trans (h.received hr).rxe hn, fun hr => ?_, he ▸ h.emptied,
    hp ▸ h.popped⟩
  obtain ⟨ha, hs⟩ := Bool.or_eq_false_iff.mp hr
  have hmain := h.unread ha
  rw [seesRxe, decide_eq_false_iff_not] at hs
  omega

/-- A poll in `ready` either goes on to `active` or waits for WU_A. -/
theorem Awaiting.poll {a b w : Bool} (h : Awaiting t a b w) (depth : Nat) :
    (∃ a b w, Selected (advance depth t) a b w) ∨
      t.nfc.i2c.now + 3 < A.wake ∧
        (advance depth t).nfc.i2c.now = t.nfc.i2c.now + 3 ∧
          ∃ a b w, Awaiting (advance depth t) a b w := by
  obtain ⟨pending', hholds, hlook⟩ := look_ready h
  have hsampled : Expects t.nfc.i2c.sampled (a || t.nfc.i2c.seesRxe) :=
    h.expects.sample rfl (Nat.le_refl _) rfl rfl
  by_cases hw : (w || t.nfc.i2c.seesWake) = true
  · left
    rw [if_pos hw] at hlook
    obtain ⟨c, pending'', hwaits, hholds', hactive⟩ :=
      gotoActive_eq (t := { t with nfc := ⟨t.nfc.i2c.sampled, pending'⟩ }) hholds
    have hexpects : Expects c (a || t.nfc.i2c.seesRxe) :=
      ⟨fun ha => Nat.le_trans (hsampled.read ha) hwaits.now,
        fun ha => hwaits.mainRead ▸ hsampled.unread ha, hwaits.emptied ▸ hsampled.emptied,
        hwaits.popped.trans hsampled.popped⟩
    rw [advance_eq depth hlook hactive (by simp)]
    exact ⟨_, _, _, rfl, hholds', hexpects.sample rfl (Nat.le_refl _) rfl rfl⟩
  · right
    rw [if_neg hw] at hlook
    obtain ⟨hwf, hs⟩ := Bool.or_eq_false_iff.mp (Bool.eq_false_iff.mpr hw)
    have hunread := h.wake hwf
    rw [seesWake, decide_eq_false_iff_not] at hs
    have hlate : t.nfc.i2c.now + 3 < A.wake := by omega
    rw [advance_eq depth hlook rfl (by simp [h.state])]
    exact ⟨hlate, rfl, _, _, _, h.state, h.wakeup, hholds, hsampled, fun _ => hlate⟩

/-- A poll in `active` either gets the frame or waits for it. -/
theorem Selected.poll {a b w : Bool} (h : Selected t a b w) (depth : Nat) :
    handed t = some A.frame ∨
      t.nfc.i2c.now + 2 < A.rxe ∧
        (advance depth t).nfc.i2c.now = t.nfc.i2c.now + 3 ∧
          ∃ a b w, Selected (advance depth t) a b w := by
  by_cases hr : (a || t.nfc.i2c.seesRxe) = true
  · left
    obtain ⟨t', hlook⟩ := look_active_frame h hr
    exact handed_eq hlook
  · right
    have hr := Bool.eq_false_iff.mpr hr
    obtain ⟨pending', hholds, hlook⟩ := look_active_nothing h hr
    have hsampled : Expects t.nfc.i2c.sampled (a || t.nfc.i2c.seesRxe) :=
      h.expects.sample rfl (Nat.le_refl _) rfl rfl
    rw [hr] at hsampled
    rw [advance_eq depth hlook rfl (by simp [h.state])]
    exact ⟨hsampled.unread rfl, rfl, _, _, _, h.state, hholds, hsampled⟩

/-! ## Runs -/

/-- When the poll that takes RXE_PTA begins, if the emulator polls from `now` on. -/
def taking (A : Activation) (now : Nat) : Nat := now + 3 * ((A.pta - now - 1) / 3)

/-- RXE is raised after the poll that takes RXE_PTA has read the main register. -/
def Separated (A : Activation) (now : Nat) : Prop := taking A now + 2 < A.rxe

instance (A : Activation) (now : Nat) : Decidable (Separated A now) :=
  inferInstanceAs (Decidable (_ < _))

theorem taking_of_le {now : Nat} (h : A.pta ≤ now + 3) : taking A now = now := by
  have hzero : (A.pta - now - 1) / 3 = 0 := Nat.div_eq_of_lt (by omega)
  rw [taking, hzero]
  rfl

theorem taking_add {now : Nat} (h : now + 3 < A.pta) : taking A (now + 3) = taking A now := by
  unfold taking
  omega

/-- At some poll the command handler gets the frame. -/
def Serves (depth : Nat) (t : Target (FieldChip A)) : Prop :=
  ∃ n, handed ((advance depth)^[n] t) = some A.frame

theorem Serves.of_advance {depth : Nat} (h : Serves depth (advance depth t)) : Serves depth t := by
  obtain ⟨n, hn⟩ := h
  exact ⟨n + 1, hn⟩

theorem Selected.served {depth : Nat} {a b w : Bool} (h : Selected t a b w) : Serves depth t := by
  -- every poll that finds nothing comes before RXE
  induction hgap : A.rxe - t.nfc.i2c.now using Nat.strongRecOn generalizing t a b w with
  | _ gap ih =>
    rcases h.poll depth with hframe | ⟨hlate, hnow, a', b', w', hnext⟩
    · exact ⟨0, hframe⟩
    · exact (ih _ (by omega) hnext rfl).of_advance

theorem Awaiting.served {depth : Nat} {a b w : Bool} (h : Awaiting t a b w) : Serves depth t := by
  induction hgap : A.wake - t.nfc.i2c.now using Nat.strongRecOn generalizing t a b w with
  | _ gap ih =>
    rcases h.poll depth with ⟨a', b', w', hnext⟩ | ⟨hlate, hnow, a', b', w', hnext⟩
    · exact hnext.served.of_advance
    · exact (ih _ (by omega) hnext rfl).of_advance

theorem Listening.served {depth : Nat} (h : Listening t) (hs : Separated A t.nfc.i2c.now) :
    Serves depth t := by
  induction hgap : A.pta - t.nfc.i2c.now using Nat.strongRecOn generalizing t with
  | _ gap ih =>
    by_cases hp : A.pta ≤ t.nfc.i2c.now + 3
    · have hr : t.nfc.i2c.now + 2 < A.rxe := by rwa [Separated, taking_of_le hp] at hs
      obtain ⟨a, b, w, hnext⟩ := h.approach depth hp hr
      exact hnext.served.of_advance
    · obtain ⟨hnext, hnow⟩ := h.wait depth (Nat.lt_of_not_le hp)
      have hs' : Separated A (advance depth t).nfc.i2c.now := by
        rwa [hnow, Separated, taking_add (Nat.lt_of_not_le hp)]
      exact (ih _ (by omega) hnext hs' rfl).of_advance

/-- The frame is lost, or a later poll will lose it. -/
def Loses (t : Target (FieldChip A)) : Prop :=
  Listening t ∧ ¬ Separated A t.nfc.i2c.now ∨ ∃ w, Missed t w

theorem Loses.idle (h : Loses t) : t.emu.state = .idle := by
  rcases h with ⟨hl, -⟩ | ⟨w, hm⟩
  · exact hl.state
  · exact hm.state

theorem Loses.advance {depth : Nat} (h : Loses t) : Loses (advance depth t) := by
  rcases h with ⟨hl, hs⟩ | ⟨w, hm⟩
  · by_cases hp : A.pta ≤ t.nfc.i2c.now + 3
    · rw [Separated, taking_of_le hp, Nat.not_lt] at hs
      exact .inr (hl.miss hs)
    · obtain ⟨hnext, hnow⟩ := hl.wait depth (Nat.lt_of_not_le hp)
      refine .inl ⟨hnext, ?_⟩
      rwa [hnow, Separated, taking_add (Nat.lt_of_not_le hp)]
  · exact .inr hm.stays

theorem Loses.run {depth : Nat} (h : Loses t) (n : Nat) : Loses ((Target.advance depth)^[n] t) := by
  induction n generalizing t with
  | zero => exact h
  | succ n ih => exact ih h.advance

theorem Loses.not_served {depth : Nat} (h : Loses t) : ¬ Serves depth t := by
  rintro ⟨n, hn⟩
  have hactive := active_of_handed hn
  rw [(h.run n).idle] at hactive
  cases hactive

/-- The first command is served if and only if the poll that takes RXE_PTA does not take RXE. -/
theorem served_iff_separated (depth : Nat) (h : Listening t) :
    (∃ n, handed ((advance depth)^[n] t) = some A.frame) ↔ Separated A t.nfc.i2c.now :=
  ⟨fun hserved => by_contra fun hs => Loses.not_served (.inl ⟨h, hs⟩) hserved,
    fun hs => h.served hs⟩

/-- A READ whose activation takes from `pta` to `rxe`. -/
def reading (pta wake rxe : Nat) (h : pta ≤ wake) (h' : wake ≤ rxe) : Activation where
  pta := pta
  wake := wake
  rxe := rxe
  pta_le := h
  wake_le := h'
  frame := [0x30, 0x04]
  frame_pos := by decide
  frame_le := by decide
  crc := (0x26, 0xEE)
  regs := fun _ _ => 0x02
  above := fun _ _ => by decide

/-- A tag in a field where nothing has happened yet. -/
def resting (A : Activation) : Target (FieldChip A) where
  emu := { T2tEmulator.new (.replicate 7 0) with state := .idle, bitrate106 := true }
  nfc := { i2c := ⟨0, 0, 0, 0, 0⟩ }

theorem listening_resting {A : Activation} (h : 0 < A.pta) : Listening (resting A) := by
  have hle := A.pta_le
  have hle' := A.wake_le
  have hrxe : 0 < A.rxe := by omega
  have hpending : Holds 0 false false false := by
    unfold Holds
    decide
  exact ⟨rfl, rfl, hpending, h, h, hrxe, rfl⟩

/-- One flag a poll. -/
theorem served_one_by_one :
    ∃ n, handed ((advance 4)^[n] (resting (reading 1 12 40 (by decide) (by decide)))) =
      some [0x30, 0x04] :=
  (served_iff_separated 4 (listening_resting (by decide))).mpr (by decide)

/-- All flags are latched before the first poll. -/
theorem lost_when_together :
    ¬ ∀ (A : Activation) (t : Target (FieldChip A)), Listening t →
      ∃ n, handed ((advance 4)^[n] t) = some A.frame := by
  intro hall
  let A := reading 1 1 1 (by decide) (by decide)
  have hlisten : Listening (resting A) := listening_resting (by decide)
  have hlost : ¬ Separated A 0 := by decide
  exact Loses.not_served (.inl ⟨hlisten, hlost⟩) (hall A (resting A) hlisten)

end Target

end PaperNamePlate
