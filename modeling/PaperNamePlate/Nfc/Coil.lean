import PaperNamePlate.Lib.Bits
import PaperNamePlate.Nfc.Reader

/-!
# Tags in the field

The tags whose answer starts with the bits sent after SEL and NVB answer with the rest. Where
their answers first differ the chip sees a collision.
-/
namespace PaperNamePlate

open Embedded

/-- What a tag answers at a cascade level: four bytes of the UID, or CT and three, and a BCC. -/
structure CascadeAnswer where
  cln : Vector UInt8 4
deriving DecidableEq

namespace CascadeAnswer

def bcc (a : CascadeAnswer) : UInt8 := a.cln[0] ^^^ a.cln[1] ^^^ a.cln[2] ^^^ a.cln[3]

def bytes (a : CascadeAnswer) : List UInt8 := [a.cln[0], a.cln[1], a.cln[2], a.cln[3], a.bcc]

/-- Bit `i` of the answer, the least significant one of each byte first. -/
def bit (a : CascadeAnswer) (i : Nat) : Bool := nthBit a.bytes i

/-- The bits from `p` to `q` at their places in the bytes from `p / 8` to `last`. -/
def received (a : CascadeAnswer) (p q last : Nat) : List UInt8 :=
  packed (fun i => decide (p ≤ i ∧ i < q) && a.bit i) (p / 8) (last + 1 - p / 8)

end CascadeAnswer

/-- The answers differ at bit `i`. -/
def Differ (tags : List CascadeAnswer) (i : Nat) : Prop := ∃ a ∈ tags, ∃ b ∈ tags, a.bit i ≠ b.bit i

instance (tags : List CascadeAnswer) (i : Nat) : Decidable (Differ tags i) :=
  inferInstanceAs (Decidable (∃ a ∈ tags, ∃ b ∈ tags, a.bit i ≠ b.bit i))

/-- The first bit where the answers differ. -/
def firstDifference (tags : List CascadeAnswer) : Option Nat :=
  (List.range 40).find? fun i => decide (Differ tags i)

/-- The chip with tags in its field that answer at one cascade level. -/
structure Coil where
  sel : UInt8
  tags : List CascadeAnswer
  fifo : List UInt8
  numTx : UInt16
  /-- The main interrupt register. -/
  flags : UInt8
  collision : UInt8
  /-- What the other registers read. -/
  regs : UInt8 → UInt8

namespace Coil

/-- The tags that answer when `bytes` bytes and `bits` bits of the FIFO are sent. -/
def answering (c : Coil) (bytes bits : Nat) : List CascadeAnswer :=
  if c.fifo.getD 0 0 = c.sel ∧ (c.fifo.getD 1 0).toNat = 16 * bytes + bits then
    c.tags.filter fun a => (List.range (8 * bytes + bits - 16)).all fun i =>
      a.bit i == nthBit (c.fifo.drop 2) i
  else []

/-- Receive the bits from `p` on of what the tags answer. -/
def receive (c : Coil) (p : Nat) (answers : List CascadeAnswer) : Coil :=
  match answers with
  | [] => { c with fifo := [] }
  | a :: _ =>
    match firstDifference answers with
    | none => { c with fifo := a.received p 40 4, flags := c.flags ||| 0x10 }
    | some q =>
      { c with
        fifo := a.received p q (q / 8)
        flags := c.flags ||| 0x04
        collision := UInt8.ofNat (16 * (2 + q / 8) + 2 * (q % 8)) }

/-- Send the FIFO without CRC. -/
def transmit (c : Coil) : Coil :=
  let bytes := (c.numTx >>> 3).toNat
  let bits := (c.numTx &&& 0x07).toNat
  c.receive (8 * bytes + bits - 16) (c.answering bytes bits)

/-- What reading a register gives. -/
def readRegister (c : Coil) (r : UInt8) : List UInt8 :=
  if r = reg.IRQ_MAIN then [c.flags]
  else if r = reg.IRQ_ERROR_WUP ∨ r = reg.IRQ_TARGET then [0]
  else if r = reg.FIFO_STATUS1 then [UInt8.ofNat c.fifo.length, 0]
  else if r = reg.COLLISION_STATUS then [c.collision]
  else [c.regs r]

instance : I2c Coil where
  Error := Empty
  write c _ data :=
    (.ok (), match data with
      | [k] =>
        if k = cmd.CLEAR_FIFO then { c with fifo := [] }
        else if k = cmd.TRANSMIT_WITHOUT_CRC then c.transmit
        else c
      | _ => c)
  transaction c _ parts :=
    (.ok (), match parts with
      | [[r], data] =>
        if r = 0x80 then { c with fifo := c.fifo ++ data }
        else if r = reg.NUM_TX_BYTES1
          then { c with numTx := u16OfBe (data.getD 0 0) (data.getD 1 0) }
        else c
      | _ => c)
  writeRead c _ command n :=
    match command with
    | [k] =>
      if k = 0x9F then (.ok (.ofFn fun i => c.fifo.getD i 0), { c with fifo := c.fifo.drop n })
      else
        (.ok (.ofFn fun i => (c.readRegister (k &&& 0x3F)).getD i 0),
          if k &&& 0x3F = reg.IRQ_MAIN then { c with flags := 0 } else c)
    | _ => (.ok (.replicate n 0), c)

/-! ## Accesses of the driver -/

open St25r3916

theorem readReg_regs {r : UInt8} (hr : r = reg.TIMER_EMV_CONTROL ∨ r = reg.AUX)
    (s : St25r3916 Coil) :
    readReg r s = (.ok (s.i2c.regs r), s) := by
  rcases hr with rfl | rfl <;> rfl

theorem setFwtMs_eq (ms : Nat) (s : St25r3916 Coil) : setFwtMs ms s = (.ok (), s) := rfl

theorem setRxCrcCheck_eq (check : Bool) (s : St25r3916 Coil) :
    setRxCrcCheck check s = (.ok (), s) :=
  modifyReg_still (readReg_regs (.inr rfl) s) (fun _ => rfl) _ _

/-- The interrupt word of the main flags. -/
def word (flags : UInt8) : UInt32 := flags.toUInt32 <<< 24 ||| 0

theorem readIrq_eq (c : Coil) :
    readIrq ⟨c, 0⟩ = (.ok (word c.flags), ⟨{ c with flags := 0 }, 0⟩) := by
  have hword : c.flags.toUInt32 <<< 24 ||| (0 : UInt8).toUInt32 <<< 16 |||
      (0 : UInt8).toUInt32 <<< 8 |||
      (0 : UInt8).toUInt32 = word c.flags := by simp [word]
  rw [← hword]
  rfl

theorem waitIrq_eq {c : Coil} {bits : UInt32} (h : word c.flags &&& bits ≠ 0) (ms : Nat) :
    ∃ p, waitIrq bits ms ⟨c, 0⟩ = (.ok (word c.flags), ⟨{ c with flags := 0 }, p⟩) :=
  waitIrq_first (readIrq_eq c) h ms

theorem fifoStatus_eq (s : St25r3916 Coil) (h : s.i2c.fifo.length < 256) :
    ∃ st : UInt16 × UInt8, st.1.toNat = s.i2c.fifo.length ∧ fifoStatus s = (.ok st, s) := by
  refine ⟨_, ?_, rfl⟩
  have hlen : (UInt8.ofNat s.i2c.fifo.length).toUInt16.toNat = s.i2c.fifo.length := by
    rw [UInt8.toNat_toUInt16, UInt8.toNat_ofNat', Nat.mod_eq_of_lt h]
  have hzero : ∀ w : UInt16, w ||| (((0 : UInt8) &&& 0xC0).toUInt16 <<< 2) = w :=
    fun w => UInt16.or_zero
  exact (congrArg UInt16.toNat (hzero _)).trans hlen

theorem readFifo_eq (s : St25r3916 Coil) (hpos : s.i2c.fifo ≠ []) :
    ∃ v : Vector UInt8 s.i2c.fifo.length, v.toList = s.i2c.fifo ∧
      readFifo s.i2c.fifo.length s = (.ok v, ⟨{ s.i2c with fifo := [] }, s.pendingIrq⟩) := by
  have hdrop : s.i2c.fifo.drop s.i2c.fifo.length = [] := List.drop_length
  refine readFifo_all (by simpa using hpos) ?_
  exact congrArg (fun l => (Except.ok _, { s.i2c with fifo := l })) hdrop

theorem readCollision (s : St25r3916 Coil) :
    readReg reg.COLLISION_STATUS s = (.ok s.i2c.collision, s) := rfl

/-- The chip with the frame of a round. -/
def loaded (c : Coil) (a : Anticollision) : Coil :=
  { c with
    flags := 0
    fifo := a.sending
    numTx := ((UInt16.ofNat a.sbytes &&& 0x1FF) <<< 3) ||| (a.sbits.toUInt16 &&& 0x07) }

/-- The chip after the frame of a round. -/
def sends (c : Coil) (a : Anticollision) : Coil := (c.loaded a).transmit

theorem sends_eq (s : St25r3916 Coil) (a : Anticollision) {α : Type} (f : Driver Coil α) :
    (do
      lift clearIrq
      lift (command cmd.CLEAR_FIFO)
      lift (loadFifo a.sending)
      lift (setNumTx (UInt16.ofNat a.sbytes) a.sbits)
      lift (command cmd.TRANSMIT_WITHOUT_CRC)
      f : Driver Coil α) s = f ⟨s.i2c.sends a, 0⟩ := by
  have hword :=
    u16OfLe_toLe (((UInt16.ofNat a.sbytes &&& 0x1FF) <<< 3) ||| (a.sbits.toUInt16 &&& 0x07))
  exact congrArg (fun w => f ⟨transmit { s.i2c with flags := 0, fifo := a.sending, numTx := w }, 0⟩)
    hword

/-- A round whose frame is answered. -/
theorem round_eq (n : Nat) (a : Anticollision) (s : St25r3916 Coil)
    (hflags : word (s.i2c.sends a).flags &&& (irq.RXE ||| irq.COL) ≠ 0)
    (hpos : (s.i2c.sends a).fifo ≠ [])
    (hlen : (s.i2c.sends a).fifo.length ≤ 5 - a.rbufOffset) :
    ∃ p, anticollisionRounds (n + 1) a s =
      (if word (s.i2c.sends a).flags &&& irq.COL ≠ 0 then
        match (a.read (s.i2c.sends a).fifo).collided (s.i2c.sends a).fifo.length
          (s.i2c.sends a).collision with
        | none => pure none
        | some a => anticollisionRounds n { a with rbuf := a.joined }
      else pure (some (a.read (s.i2c.sends a).fifo).joined) : Driver Coil (Option (List UInt8)))
        ⟨{ s.i2c.sends a with flags := 0, fifo := [] }, p⟩ := by
  rw [anticollisionRounds, sends_eq]
  generalize hc : s.i2c.sends a = c at hflags hpos hlen
  have hnot : ¬ (word c.flags &&& irq.COL = 0 ∧ word c.flags &&& irq.RXE = 0) := by
    rintro ⟨hcol, hrxe⟩
    have hsplit : word c.flags &&& (irq.RXE ||| irq.COL) =
        word c.flags &&& irq.RXE ||| word c.flags &&& irq.COL := by
      apply UInt32.toBitVec_inj.mp
      simp [BitVec.and_or_distrib_left]
    rw [hsplit, hcol, hrxe] at hflags
    exact hflags rfl
  have hone : c.fifo.length ≠ 0 := by simpa using hpos
  obtain ⟨p, hwait⟩ := waitIrq_eq hflags 10
  obtain ⟨st, hst, hstatus⟩ := fifoStatus_eq ⟨{ c with flags := 0 }, p⟩ (by dsimp only; omega)
  obtain ⟨v, hv, hread⟩ := readFifo_eq ⟨{ c with flags := 0 }, p⟩ hpos
  have hactual : min st.1.toNat (5 - a.rbufOffset) = c.fifo.length := by
    rw [hst]; dsimp only; omega
  refine ⟨p, ?_⟩
  rw [lift_bind_ok hwait, if_neg hnot, lift_bind_ok hstatus]
  obtain ⟨bytes, bits⟩ := st
  dsimp only at hactual ⊢
  rw [hactual, if_neg hone, lift_bind_ok hread, hv]
  exact lift_bind_ok (readCollision _)

end Coil

/-! ## Answers bit by bit -/

namespace CascadeAnswer

@[simp] theorem length_bytes (a : CascadeAnswer) : a.bytes.length = 5 := rfl

theorem bytes_eq_packed (a : CascadeAnswer) : a.bytes = packed a.bit 0 5 := by
  refine bytes_ext (by simp) fun j hj i hi => ?_
  rw [length_bytes] at hj
  rw [bit_packed _ 0 hj hi, bit, Nat.zero_add, nthBit_byte _ _ hi]

/-- The answer is its first four bytes. -/
theorem ext_bits {a b : CascadeAnswer} (h : ∀ i < 32, a.bit i = b.bit i) : a = b := by
  obtain ⟨a⟩ := a
  obtain ⟨b⟩ := b
  have hbyte : ∀ (j : Nat) (hj : j < 4), a[j] = b[j] := by
    intro j hj
    refine byte_ext fun i hi => ?_
    have hbit := h (8 * j + i) (by omega)
    rw [bit, bit, nthBit_byte _ _ hi, nthBit_byte _ _ hi] at hbit
    have hget : ∀ cln : Vector UInt8 4, (bytes ⟨cln⟩).getD j 0 = cln[j] := by
      intro cln
      obtain rfl | rfl | rfl | rfl : j = 0 ∨ j = 1 ∨ j = 2 ∨ j = 3 := by omega
      all_goals rfl
    rwa [hget, hget] at hbit
  rw [Vector.ext hbyte]

/-- The bytes of an answer with its check byte cancel. -/
theorem check_bytes (a : CascadeAnswer) : a.bytes.foldl (· ^^^ ·) 0 = 0 := by
  simp [bytes, bcc]

/-- Without one of the first four they leave it. -/
theorem check_eraseIdx (a : CascadeAnswer) {j : Nat} (hj : j < 4) :
    (a.bytes.eraseIdx j ++ [0]).foldl (· ^^^ ·) 0 = a.bytes.getD j 0 := by
  refine byte_ext fun i _ => ?_
  obtain rfl | rfl | rfl | rfl : j = 0 ∨ j = 1 ∨ j = 2 ∨ j = 3 := by omega
  all_goals
    simp only [bytes, bcc, List.eraseIdx, List.cons_append, List.nil_append, List.foldl_cons,
      List.foldl_nil, List.getD_cons_zero, List.getD_cons_succ, bit_xor]
    grind

/-- The bits before `q` and a one. -/
def upTo (a : CascadeAnswer) (q : Nat) : List UInt8 :=
  packed (fun i => decide (i < q) && a.bit i || decide (i = q)) 0 (q / 8 + 1)

variable (a : CascadeAnswer) (q : Nat)

/-- The last byte before bit `q`. -/
def lowByte : UInt8 := byteOf fun i => decide (8 * (q / 8) + i < q) && a.bit (8 * (q / 8) + i)

theorem received_eq : a.received 0 q (q / 8) = packed a.bit 0 (q / 8) ++ [a.lowByte q] := by
  have hbefore : packed (fun i => decide (0 ≤ i ∧ i < q) && a.bit i) 0 (q / 8) =
      packed a.bit 0 (q / 8) :=
    packed_congr fun i _ hi => by simp [show i < q by omega]
  rw [received, Nat.zero_div, Nat.sub_zero, packed_add, packed_one, hbefore, Nat.zero_add, lowByte]
  simp only [Nat.zero_le, true_and]

theorem bit_lowByte {i : Nat} (hi : i < 8) :
    Embedded.bit (a.lowByte q) i = (decide (8 * (q / 8) + i < q) && a.bit (8 * (q / 8) + i)) :=
  bit_byteOf _ hi

theorem upTo_eq : a.upTo q =
    packed a.bit 0 (q / 8) ++ [a.lowByte q ||| (1 : UInt8) <<< UInt8.ofNat (q % 8)] := by
  have hbefore : packed (fun i => decide (i < q) && a.bit i || decide (i = q)) 0 (q / 8) =
      packed a.bit 0 (q / 8) :=
    packed_congr fun i _ hi => by simp [show i < q by omega, show i ≠ q by omega]
  rw [upTo, packed_add, packed_one, hbefore]
  congr 2
  refine byte_ext fun i hi => ?_
  have hlast : 8 * (q / 8) + i = q ↔ q % 8 ≤ i ∧ i - q % 8 = 0 := by omega
  rw [bit_byteOf _ hi, bit_or, bit_lowByte a q hi, bit_shiftLeft _ (by omega) hi, bit_one]
  simp only [Nat.zero_add, hlast, Bool.decide_and]

end CascadeAnswer

/-! ## Where answers differ -/

section Difference

variable {tags : List CascadeAnswer}

theorem firstDifference_eq_none_iff :
    firstDifference tags = none ↔ ∀ a ∈ tags, ∀ b ∈ tags, a = b := by
  constructor
  · intro h a ha b hb
    refine CascadeAnswer.ext_bits fun i hi => ?_
    by_contra hne
    have hnot := List.find?_eq_none.mp h i (List.mem_range.mpr (by omega))
    exact hnot (decide_eq_true ⟨a, ha, b, hb, hne⟩)
  · intro h
    refine List.find?_eq_none.mpr fun i _ hdiffer => ?_
    obtain ⟨a, ha, b, hb, hne⟩ := of_decide_eq_true hdiffer
    exact hne (by rw [h a ha b hb])

theorem firstDifference_eq_some {q : Nat} (h : firstDifference tags = some q) :
    Differ tags q ∧ ∀ i < q, ∀ a ∈ tags, ∀ b ∈ tags, a.bit i = b.bit i := by
  obtain ⟨hq, -, hbefore⟩ := List.find?_range_eq_some.mp h
  refine ⟨of_decide_eq_true hq, fun i hi a ha b hb => ?_⟩
  by_contra hne
  have hdiffer : Differ tags i := ⟨a, ha, b, hb, hne⟩
  have hnot := hbefore i hi
  simp [hdiffer] at hnot

/-- Answers that differ do so in the first four bytes. -/
theorem firstDifference_lt {q : Nat} (h : firstDifference tags = some q) : q < 32 := by
  obtain ⟨⟨a, ha, b, hb, hne⟩, hbefore⟩ := firstDifference_eq_some h
  by_contra hq
  have hab : a = b := CascadeAnswer.ext_bits fun i hi => hbefore i (by omega) a ha b hb
  exact hne (by rw [hab])

end Difference

namespace Coil

open St25r3916

theorem numTx_counts : ∀ n ≤ 6, ∀ k < 8,
    let w : UInt16 := ((UInt16.ofNat n &&& 0x1FF) <<< 3) ||| ((UInt8.ofNat k).toUInt16 &&& 0x07)
    (w >>> 3).toNat = n ∧ (w &&& 0x07).toNat = k := by decide

/-- The tags that start with the bits of a frame answer it. -/
theorem sends_frame (c : Coil) {a : Anticollision} {k : Nat} {bs : List UInt8} (hn : a.sbytes ≤ 6)
    (hbits : a.sbits = UInt8.ofNat k) (hk : k < 8)
    (hframe : a.sending = c.sel :: UInt8.ofNat (16 * a.sbytes + k) :: bs) :
    c.sends a = (c.loaded a).receive (8 * a.sbytes + k - 16) (c.tags.filter fun t =>
      (List.range (8 * a.sbytes + k - 16)).all fun i => t.bit i == nthBit bs i) := by
  obtain ⟨hbytes, hrest⟩ := numTx_counts a.sbytes hn k hk
  have hnvb : (UInt8.ofNat (16 * a.sbytes + k)).toNat = 16 * a.sbytes + k := by
    rw [UInt8.toNat_ofNat']; omega
  have hcounts : (c.loaded a).numTx = ((UInt16.ofNat a.sbytes &&& 0x1FF) <<< 3) |||
      ((UInt8.ofNat k).toUInt16 &&& 0x07) := by rw [← hbits]; rfl
  have hfifo : (c.loaded a).fifo = c.sel :: UInt8.ofNat (16 * a.sbytes + k) :: bs := hframe
  rw [sends, transmit, hcounts, hbytes, hrest, answering, hfifo, if_pos ⟨rfl, hnvb⟩]
  rfl

end Coil

/-! ## Rounds -/

namespace Coil

open St25r3916 Anticollision

theorem receive_one {c : Coil} (hflags : c.flags = 0) (p : Nat) {answers : List CascadeAnswer}
    {t : CascadeAnswer} (ht : t ∈ answers) (hone : ∀ a ∈ answers, ∀ b ∈ answers, a = b) :
    c.receive p answers = { c with fifo := t.received p 40 4, flags := 0x10 } := by
  have hnone : firstDifference answers = none := firstDifference_eq_none_iff.mpr hone
  cases answers with
  | nil => exact absurd ht List.not_mem_nil
  | cons a rest =>
    obtain rfl : a = t := hone a List.mem_cons_self t ht
    simp only [receive, hnone, hflags]
    rfl

theorem receive_some {c : Coil} (hflags : c.flags = 0) (p : Nat) {answers : List CascadeAnswer}
    {q : Nat} (hq : firstDifference answers = some q) : ∃ t ∈ answers,
      c.receive p answers = { c with
        fifo := t.received p q (q / 8)
        flags := 0x04
        collision := UInt8.ofNat (16 * (2 + q / 8) + 2 * (q % 8)) } := by
  cases answers with
  | nil => cases hq
  | cons a rest =>
    refine ⟨a, List.mem_cons_self, ?_⟩
    simp only [receive, hq, hflags]
    rfl

/-- The last round. -/
theorem round_one (n : Nat) (a : Anticollision) (s : St25r3916 Coil) {t : CascadeAnswer} {p : Nat}
    (hfifo : (s.i2c.sends a).fifo = t.received p 40 4) (hflags : (s.i2c.sends a).flags = 0x10)
    (hp : a.rbufOffset ≤ p / 8) (hlt : p < 40) :
    (anticollisionRounds (n + 1) a s).1 = .ok (some (a.read (t.received p 40 4)).joined) := by
  have hlen : (t.received p 40 4).length = 5 - p / 8 := by
    rw [CascadeAnswer.received, length_packed]
  have hpos : t.received p 40 4 ≠ [] := List.ne_nil_of_length_pos (by omega)
  obtain ⟨x, hround⟩ := round_eq n a s (by rw [hflags]; decide) (by rw [hfifo]; exact hpos)
    (by rw [hfifo]; omega)
  rw [hround, hfifo, hflags, if_neg (by decide)]
  rfl

/-- A round with a collision. -/
theorem round_collision (n : Nat) (a : Anticollision) (s : St25r3916 Coil) {bs : List UInt8}
    {cd : UInt8} {a' : Anticollision} (hfifo : (s.i2c.sends a).fifo = bs)
    (hflags : (s.i2c.sends a).flags = 0x04) (hcd : (s.i2c.sends a).collision = cd) (hpos : bs ≠ [])
    (hlen : bs.length ≤ 5 - a.rbufOffset) (hnext : (a.read bs).collided bs.length cd = some a') :
    ∃ x, anticollisionRounds (n + 1) a s =
      anticollisionRounds n { a' with rbuf := a'.joined }
        ⟨{ s.i2c.sends a with flags := 0, fifo := [] }, x⟩ := by
  obtain ⟨x, hround⟩ := round_eq n a s (by rw [hflags]; decide) (by rw [hfifo]; exact hpos)
    (by rw [hfifo]; exact hlen)
  refine ⟨x, ?_⟩
  rw [hround, hfifo, hflags, hcd, hnext, if_pos (by decide)]

/-- A round whose frame nobody answers. -/
theorem round_silent (n : Nat) (a : Anticollision) (s : St25r3916 Coil)
    (hflags : (s.i2c.sends a).flags = 0) :
    (anticollisionRounds (n + 1) a s).1 = .error .timeout := by
  rw [anticollisionRounds, sends_eq]
  generalize s.i2c.sends a = c at hflags
  have hword : word c.flags = 0 := by rw [hflags]; rfl
  have hsame : { c with flags := 0 } = c := by rw [← hflags]
  have hread := readIrq_eq c
  rw [hword, hsame] at hread
  rw [lift_bind_ok (waitIrq_silent hread _ 10), if_pos (by decide)]
  rfl

/-- Nobody answers a frame with a bit that no tag has there. -/
theorem sends_nobody (c : Coil) {a : Anticollision} {k : Nat} {bs : List UInt8} (hn : a.sbytes ≤ 6)
    (hbits : a.sbits = UInt8.ofNat k) (hk : k < 8)
    (hframe : a.sending = c.sel :: UInt8.ofNat (16 * a.sbytes + k) :: bs)
    (hnone : ∀ v ∈ c.tags, ∃ i < 8 * a.sbytes + k - 16, v.bit i ≠ nthBit bs i) :
    (c.sends a).flags = 0 := by
  have hempty : c.tags.filter (fun v => (List.range (8 * a.sbytes + k - 16)).all fun i =>
      v.bit i == nthBit bs i) = [] := by
    refine List.filter_eq_nil_iff.mpr fun v hv hall => ?_
    obtain ⟨i, hi, hne⟩ := hnone v hv
    exact hne (eq_of_beq (List.all_eq_true.mp hall i (List.mem_range.mpr hi)))
  rw [sends_frame c hn hbits hk hframe, hempty]
  rfl

theorem sends_start (c : Coil) :
    c.sends (start c.sel) = (c.loaded (start c.sel)).receive 0 c.tags := by
  have hall : c.tags.filter (fun t => (List.range 0).all fun i => t.bit i == nthBit [] i) =
      c.tags :=
    List.filter_eq_self.mpr fun _ _ => rfl
  have hframe : (start c.sel).sending =
      c.sel :: UInt8.ofNat (16 * (start c.sel).sbytes + 0) :: [] := rfl
  rw [sends_frame c (by simp [start]) rfl (by decide) hframe]
  exact congrArg _ hall

end Coil

end PaperNamePlate
