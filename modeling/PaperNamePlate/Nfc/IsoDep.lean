import PaperNamePlate.Lib.Run
import PaperNamePlate.Nfc.Reader

/-!
# ISO-DEP

`exchange` sends an APDU as one I-block and collects the I-blocks of the answer. The card
beside it numbers its blocks, chains them and asks for more time as it likes; on a link that
loses nothing the two stay in step.
-/
namespace PaperNamePlate

open Embedded

/-- Answer To Select. -/
structure Ats where
  /-- The frame waiting time in milliseconds. -/
  fwtMs : Nat
  /-- The largest frame that the card accepts. -/
  fsc : Nat
  fsc_le : fsc ≤ 256

inductive IsoDepError (ε : Type)
  | nfc (e : NfcError ε)
  | protocol
  | retries

structure IsoDep where
  blockNum : Bool := false
  ats : Ats

/-- A session and the chip that it runs on. -/
structure Dep (I : Type) where
  isoDep : IsoDep
  nfc : St25r3916 I

namespace IsoDep

variable {I : Type} [I2c I]

abbrev Exchange (I : Type) [I2c I] (α : Type) : Type := Prog (Dep I) (IsoDepError (I2c.Error I)) α

def transceive (tx : List UInt8) (timeout : Nat) : Exchange I (List UInt8) :=
  (Prog.zoom (·.nfc) (fun nfc d => { d with nfc }) (St25r3916.transceive tx 260 timeout)).mapError
    .nfc

/-- The loop of `exchange` with `n` frames of the card left before it gives up. -/
def exchangeLoop : Nat → (tx : List UInt8) → (timeout : Nat) → (rsp : List UInt8) →
    Exchange I (List UInt8)
  | 0, _, _, _ => Prog.throw .retries
  | n + 1, tx, timeout, rsp => do
    let rx ← transceive tx timeout
    if rx.length < 3 then Prog.throw .protocol
    else do
      let pcb := rx.getD 0 0
      -- without the CRC
      let payload := (rx.drop 1).take (rx.length - 3)
      let d ← Prog.get
      if pcb &&& 0xF7 = 0xF2 then
        let wtxm := payload.headD 1 &&& 0x3F
        exchangeLoop n [0xF2, wtxm] (min (d.isoDep.ats.fwtMs * max wtxm.toNat 1) 5000) rsp
      else if pcb &&& 0xE2 = 0x02 then
        if pcb &&& 0x01 ≠ d.isoDep.blockNum.toUInt8 then Prog.throw .protocol
        else do
          Prog.modify fun d => { d with isoDep := { d.isoDep with blockNum := !d.isoDep.blockNum } }
          if pcb &&& 0x10 ≠ 0 then
            exchangeLoop n [0xA2 ||| (!d.isoDep.blockNum).toUInt8] d.isoDep.ats.fwtMs
              (rsp ++ payload)
          else pure (rsp ++ payload)
      else Prog.throw .protocol

/-- Send an APDU that fits one frame, and collect the whole response. -/
def exchange (apdu : List UInt8) : Exchange I (List UInt8) := do
  let d ← Prog.get
  if apdu.length + 3 > d.isoDep.ats.fsc then Prog.throw .protocol
  else exchangeLoop 32 ((0x02 ||| d.isoDep.blockNum.toUInt8) :: apdu) d.isoDep.ats.fwtMs []

end IsoDep

/-! ## Cards -/

/-- An I-block of a response, and the extensions that the card asks for before it. -/
structure Chunk where
  waits : List UInt8
  payload : List UInt8
  payload_le : payload.length ≤ 253

/-- A response in I-blocks. -/
structure Reply where
  chunks : List Chunk
  nonempty : chunks ≠ []

def payloads (cs : List Chunk) : List UInt8 := cs.flatMap Chunk.payload

/-- The frames that the card sends. -/
def frames (cs : List Chunk) : Nat := cs.foldr (fun c n => c.waits.length + 1 + n) 0

/-- A card, with what its application does with an APDU. -/
structure Picc (σ : Type) where
  respond : σ → List UInt8 → Reply × σ
  app : σ
  blockNum : Bool := true
  todo : List Chunk := []
  /-- The extension that was asked for last. -/
  asked : UInt8 := 0
  last : List UInt8 := []

namespace Picc

variable {σ : Type}

/-- What an I-block starts with. -/
def pcb (last num : Bool) : UInt8 := 0x02 ||| (if last then 0 else 0x10) ||| num.toUInt8

/-- Send the next frame: an S(WTX) request or an I-block. -/
def send (k : Picc σ) : Option (List UInt8) × Picc σ :=
  match k.todo with
  | [] => (none, k)
  | ⟨w :: waits, payload, payload_le⟩ :: rest =>
    (some [0xF2, w], { k with todo := ⟨waits, payload, payload_le⟩ :: rest, asked := w &&& 0x3F })
  | ⟨[], payload, _⟩ :: rest =>
    let block := pcb rest.isEmpty k.blockNum :: payload
    (some block, { k with todo := rest, last := block })

/-- The block number toggles with an I-block, and with an R(ACK) of another number. -/
def receive (k : Picc σ) (frame : List UInt8) : Option (List UInt8) × Picc σ :=
  match frame with
  | [] => (none, k)
  | pcb :: inf =>
    if pcb &&& 0xE2 = 0x02 then
      let (reply, app) := k.respond k.app inf
      { k with app, blockNum := !k.blockNum, todo := reply.chunks }.send
    else if pcb &&& 0xF6 = 0xA2 then
      if pcb &&& 0x01 ≠ k.blockNum.toUInt8 then { k with blockNum := !k.blockNum }.send
      else (some k.last, k)
    else if pcb = 0xF2 ∧ inf = [k.asked] then k.send
    else (none, k)

theorem pcb_bits (last num : Bool) : pcb last num &&& 0xF7 ≠ 0xF2 ∧ pcb last num &&& 0xE2 = 0x02 ∧
    pcb last num &&& 0x01 = num.toUInt8 ∧ (pcb last num &&& 0x10 ≠ 0 ↔ last = false) := by
  cases last <;> cases num <;> decide

theorem receive_apdu (k : Picc σ) (num : Bool) (apdu : List UInt8) :
    k.receive ((0x02 ||| num.toUInt8) :: apdu) =
      { k with
        app := (k.respond k.app apdu).2, blockNum := !k.blockNum
        todo := (k.respond k.app apdu).1.chunks }.send := by
  have hpcb : (0x02 ||| num.toUInt8) &&& 0xE2 = 0x02 := by cases num <;> decide
  rw [receive, if_pos hpcb]

theorem receive_ack {k : Picc σ} {num : Bool} (h : k.blockNum = num) :
    k.receive [0xA2 ||| (!num).toUInt8] = { k with blockNum := !k.blockNum }.send := by
  have hpcb : (0xA2 ||| (!num).toUInt8) &&& 0xE2 ≠ 0x02 ∧
      (0xA2 ||| (!num).toUInt8) &&& 0xF6 = 0xA2 ∧
      (0xA2 ||| (!num).toUInt8) &&& 0x01 ≠ num.toUInt8 := by cases num <;> decide
  rw [receive, if_neg hpcb.1, if_pos hpcb.2.1, if_pos (h ▸ hpcb.2.2)]

theorem receive_wtx (k : Picc σ) : k.receive [0xF2, k.asked] = k.send := by
  rw [receive, if_neg (by decide), if_neg (by decide), if_pos ⟨rfl, rfl⟩]

end Picc

/-- The chip with a card in its field. -/
structure Coupled (σ : Type) where
  card : Picc σ
  fifo : List UInt8 := []
  numTx : UInt16 := 0
  /-- The main interrupt register. -/
  flags : UInt8 := 0
  /-- What the other registers read. -/
  regs : UInt8 → UInt8
  crc : List UInt8 → UInt8 × UInt8

namespace Coupled

variable {σ : Type}

/-- Send the FIFO with a CRC; of an answer the CRC stays in the FIFO. -/
def transmit (c : Coupled σ) : Coupled σ :=
  match c.card.receive (c.fifo.take (c.numTx >>> 3).toNat) with
  | (some frame, card) =>
    { c with card, fifo := frame ++ [(c.crc frame).1, (c.crc frame).2], flags := c.flags ||| 0x10 }
  | (none, card) => { c with card, fifo := [] }

/-- What reading a register gives. -/
def readRegister (c : Coupled σ) (r : UInt8) : List UInt8 :=
  if r = reg.IRQ_MAIN then [c.flags]
  else if r = reg.IRQ_ERROR_WUP ∨ r = reg.IRQ_TARGET then [0]
  else if r = reg.FIFO_STATUS1
    then [UInt8.ofNat c.fifo.length, UInt8.ofNat (c.fifo.length / 256) <<< 6]
  else [c.regs r]

instance : I2c (Coupled σ) where
  Error := Empty
  write c _ data :=
    (.ok (), match data with
      | [k] =>
        if k = cmd.CLEAR_FIFO then { c with fifo := [] }
        else if k = cmd.TRANSMIT_WITH_CRC then c.transmit
        else c
      | _ => c)
  transaction c _ parts :=
    (.ok (), match parts with
      | [[r], data] =>
        if r = 0x80 then { c with fifo := c.fifo ++ data }
        else if r = reg.NUM_TX_BYTES1
          then { c with numTx := u16OfBe (data.getD 0 0) (data.getD 1 0) }
        else c
      | _ => c)
  writeRead c _ command n :=
    match command with
    | [k] =>
      if k = 0x9F then (.ok (.ofFn fun i => c.fifo.getD i 0), { c with fifo := c.fifo.drop n })
      else
        (.ok (.ofFn fun i => (c.readRegister (k &&& 0x3F)).getD i 0),
          if k &&& 0x3F = reg.IRQ_MAIN then { c with flags := 0 } else c)
    | _ => (.ok (.replicate n 0), c)

/-! ## A frame and its answer -/

open St25r3916

theorem setRxCrcCheck_eq (check : Bool) (s : St25r3916 (Coupled σ)) :
    setRxCrcCheck check s = (.ok (), s) :=
  modifyReg_still (v := s.i2c.regs reg.AUX) rfl (fun _ => rfl) _ _

/-- The interrupt word of the main flags. -/
def word (flags : UInt8) : UInt32 := flags.toUInt32 <<< 24

theorem readIrq_eq (c : Coupled σ) :
    readIrq ⟨c, 0⟩ = (.ok (word c.flags), ⟨{ c with flags := 0 }, 0⟩) := by
  have hword : c.flags.toUInt32 <<< 24 ||| (0 : UInt8).toUInt32 <<< 16 |||
      (0 : UInt8).toUInt32 <<< 8 |||
      (0 : UInt8).toUInt32 = word c.flags := by simp [word]
  rw [← hword]
  rfl

theorem fifoStatus_eq (s : St25r3916 (Coupled σ)) (h : s.i2c.fifo.length < 512) :
    ∃ st : UInt16 × UInt8, st.1.toNat = s.i2c.fifo.length ∧ fifoStatus s = (.ok st, s) := by
  generalize hn : s.i2c.fifo.length = n at h
  have hhigh : ∀ q < 2, (((UInt8.ofNat q <<< 6) &&& 0xC0).toUInt16 <<< 2).toNat = 2 ^ 8 * q := by
    decide
  have hlow : (UInt8.ofNat n).toUInt16.toNat = n % 2 ^ 8 := by
    rw [UInt8.toNat_toUInt16, UInt8.toNat_ofNat']
  refine ⟨((UInt8.ofNat n).toUInt16 ||| (((UInt8.ofNat (n / 256) <<< 6) &&& 0xC0).toUInt16 <<< 2),
    ((UInt8.ofNat (n / 256) <<< 6) >>> 1) &&& 0x07), ?_, by rw [← hn]; rfl⟩
  rw [UInt16.toNat_or, hlow, hhigh _ (by omega), Nat.or_comm,
    ← Nat.two_pow_add_eq_or_of_lt (Nat.mod_lt n (by decide))]
  omega

theorem readFifo_eq (s : St25r3916 (Coupled σ)) (hpos : s.i2c.fifo.length ≠ 0) :
    ∃ v : Vector UInt8 s.i2c.fifo.length, v.toList = s.i2c.fifo ∧
      readFifo s.i2c.fifo.length s = (.ok v, ⟨{ s.i2c with fifo := [] }, s.pendingIrq⟩) := by
  have hdrop : s.i2c.fifo.drop s.i2c.fifo.length = [] := List.drop_length
  refine readFifo_all hpos ?_
  exact congrArg (fun l => (Except.ok _, { s.i2c with fifo := l })) hdrop

theorem sends_eq (s : St25r3916 (Coupled σ)) (tx : List UInt8) {α : Type}
    (f : Driver (Coupled σ) α) :
    (do
      lift clearIrq
      lift (command cmd.CLEAR_FIFO)
      lift (loadFifo tx)
      lift (setNumTx (UInt16.ofNat tx.length) 0)
      lift (command cmd.TRANSMIT_WITH_CRC)
      f : Driver (Coupled σ) α) s =
      f ⟨transmit
        { s.i2c with
          flags := 0
          fifo := tx
          numTx := numTxWord (UInt16.ofNat tx.length) 0 }, 0⟩ := by
  have hword := u16OfLe_toLe (numTxWord (UInt16.ofNat tx.length) 0)
  exact congrArg (fun w => f ⟨transmit { s.i2c with flags := 0, fifo := tx, numTx := w }, 0⟩) hword

/-- A frame that the card answers. -/
theorem transceive_eq {s : St25r3916 (Coupled σ)} {tx frame : List UInt8} {card : Picc σ}
    (hanswer : s.i2c.card.receive tx = (some frame, card)) (htx : tx.length < 512)
    (hframe : frame.length ≤ 254) (ms : Nat) :
    ∃ nfc x y, St25r3916.transceive tx 260 ms s = (.ok (frame ++ [x, y]), nfc) ∧
      nfc.i2c.card = card := by
  have hbytes : (numTxWord (UInt16.ofNat tx.length) 0 >>> 3).toNat = tx.length := by
    rw [byteCount_numTxWord, Nat.mod_eq_of_lt htx]
  generalize hc : transmit { s.i2c with
    flags := 0, fifo := tx, numTx := numTxWord (UInt16.ofNat tx.length) 0 } = c
  obtain ⟨x, y, hfifo, hcard, hflags⟩ : ∃ x y, c.fifo = frame ++ [x, y] ∧ c.card = card ∧
      c.flags = 0x10 := by
    rw [← hc, transmit]
    dsimp only
    rw [hbytes, List.take_length, hanswer]
    exact ⟨_, _, rfl, rfl, by simp⟩
  have hset : setFwtMs ms s = (.ok (), s) := rfl
  have hmode : writeReg reg.ISO14443A_NFC 0x00 s = (.ok (), s) := rfl
  have hlen : c.fifo.length = frame.length + 2 := by rw [hfifo, List.length_append]; rfl
  have hrxe : word c.flags &&& irq.RXE ≠ 0 := by rw [hflags]; decide
  obtain ⟨p, hwait⟩ := waitIrq_first (readIrq_eq c) hrxe (ms + 2)
  obtain ⟨st, hst, hstatus⟩ := fifoStatus_eq ⟨{ c with flags := 0 }, p⟩ (by dsimp only; omega)
  obtain ⟨v, hv, hread⟩ := readFifo_eq ⟨{ c with flags := 0 }, p⟩ (by dsimp only; omega)
  have hmin : min st.1.toNat 260 = c.fifo.length := by rw [hst]; dsimp only; omega
  refine ⟨⟨{ c with flags := 0, fifo := [] }, p⟩, x, y, ?_, hcard⟩
  rw [St25r3916.transceive, lift_bind_ok hset, lift_bind_ok hmode,
    lift_bind_ok (setRxCrcCheck_eq true s), sends_eq, hc, lift_bind_ok hwait, if_neg hrxe,
    lift_bind_ok hstatus]
  obtain ⟨bytes, bits⟩ := st
  dsimp only at hmin ⊢
  rw [hmin, lift_bind_ok hread, if_neg (by rw [hflags]; decide), hv, ← hfifo]
  rfl

end Coupled

/-! ## The loop of an exchange -/

namespace Dep

variable {σ : Type}

def card (d : Dep (Coupled σ)) : Picc σ := d.nfc.i2c.card

/-- The card's number is the one that the reader's next block does not have. -/
def InStep (d : Dep (Coupled σ)) : Prop := d.card.blockNum = !d.isoDep.blockNum

/-- The session after the card has sent all of `k`'s response. -/
structure Done (k : Picc σ) (d d' : Dep (Coupled σ)) : Prop where
  inStep : d'.InStep
  app : d'.card.app = k.app
  respond : d'.card.respond = k.respond
  ats : d'.isoDep.ats = d.isoDep.ats

end Dep

namespace IsoDep

variable {σ : Type}

theorem transceive_eq {d : Dep (Coupled σ)} {tx frame : List UInt8} {card : Picc σ}
    (hanswer : d.card.receive tx = (some frame, card)) (htx : tx.length < 512)
    (hframe : frame.length ≤ 254) (ms : Nat) :
    ∃ nfc x y, transceive tx ms d = (.ok (frame ++ [x, y]), { d with nfc }) ∧
      nfc.i2c.card = card := by
  obtain ⟨nfc, x, y, hrun, hcard⟩ := Coupled.transceive_eq hanswer htx hframe ms
  refine ⟨nfc, x, y, ?_, hcard⟩
  unfold transceive Prog.mapError Prog.zoom
  dsimp only
  rw [hrun]

/-- A round of the loop whose frame the card answers. -/
theorem exchangeLoop_answer (n : Nat) {d : Dep (Coupled σ)} {tx inf : List UInt8} {pcb : UInt8}
    {card : Picc σ} (hanswer : d.card.receive tx = (some (pcb :: inf), card))
    (htx : tx.length < 512) (hinf : inf.length ≤ 253) (timeout : Nat) (rsp : List UInt8) :
    ∃ nfc, nfc.i2c.card = card ∧
      exchangeLoop (n + 1) tx timeout rsp d =
        (if pcb &&& 0xF7 = 0xF2 then
          exchangeLoop n [0xF2, inf.headD 1 &&& 0x3F]
            (min (d.isoDep.ats.fwtMs * max (inf.headD 1 &&& 0x3F).toNat 1) 5000) rsp
        else if pcb &&& 0xE2 = 0x02 then
          if pcb &&& 0x01 ≠ d.isoDep.blockNum.toUInt8 then Prog.throw .protocol
          else do
            Prog.modify fun d =>
              { d with isoDep := { d.isoDep with blockNum := !d.isoDep.blockNum } }
            if pcb &&& 0x10 ≠ 0 then
              exchangeLoop n [0xA2 ||| (!d.isoDep.blockNum).toUInt8] d.isoDep.ats.fwtMs (rsp ++ inf)
            else pure (rsp ++ inf)
        else Prog.throw .protocol : Exchange (Coupled σ) (List UInt8)) { d with nfc } := by
  obtain ⟨nfc, x, y, hrun, hcard⟩ :=
    transceive_eq hanswer htx (by rw [List.length_cons]; omega) timeout
  have hlen : ¬ (pcb :: inf ++ [x, y]).length < 3 := by simp
  have hpayload : ((pcb :: inf ++ [x, y]).drop 1).take ((pcb :: inf ++ [x, y]).length - 3) =
      inf := by
    simp
  refine ⟨nfc, hcard, ?_⟩
  rw [exchangeLoop, Prog.bind_of_ok hrun, if_neg hlen, hpayload]
  rfl

/-- A round in which the card asks for more time: the reader grants it. -/
theorem exchangeLoop_wtx (n : Nat) {d : Dep (Coupled σ)} {k : Picc σ} {tx : List UInt8} {w : UInt8}
    {waits : List UInt8} {payload : List UInt8} {payload_le : payload.length ≤ 253}
    {rest : List Chunk} (hsend : d.card.receive tx = k.send)
    (htodo : k.todo = ⟨w :: waits, payload, payload_le⟩ :: rest) (htx : tx.length < 512)
    (timeout : Nat) (rsp : List UInt8) :
    ∃ next : Dep (Coupled σ), next.isoDep = d.isoDep ∧
      next.card.receive [0xF2, w &&& 0x3F] = Picc.send
        { k with todo := ⟨waits, payload, payload_le⟩ :: rest, asked := w &&& 0x3F } ∧
      exchangeLoop (n + 1) tx timeout rsp d = exchangeLoop n [0xF2, w &&& 0x3F]
        (min (d.isoDep.ats.fwtMs * max (w &&& 0x3F).toNat 1) 5000) rsp next := by
  have hframe : k.send = (some [0xF2, w],
      { k with todo := ⟨waits, payload, payload_le⟩ :: rest, asked := w &&& 0x3F }) := by
    rw [Picc.send, htodo]
  obtain ⟨nfc, hcard, hround⟩ :=
    exchangeLoop_answer n (hsend.trans hframe) htx (by simp) timeout rsp
  refine ⟨{ d with nfc }, rfl, ?_, ?_⟩
  · rw [Dep.card, hcard]
    exact Picc.receive_wtx _
  · rw [hround, if_pos (by decide)]
    rfl

/-- A round in which the card sends a block with the number that is expected. -/
theorem exchangeLoop_block (n : Nat) {d : Dep (Coupled σ)} {k : Picc σ} {tx payload : List UInt8}
    {payload_le : payload.length ≤ 253} {rest : List Chunk} (hsend : d.card.receive tx = k.send)
    (htodo : k.todo = ⟨[], payload, payload_le⟩ :: rest) (hnum : k.blockNum = d.isoDep.blockNum)
    (htx : tx.length < 512) (timeout : Nat) (rsp : List UInt8) :
    ∃ next : Dep (Coupled σ), next.isoDep = { d.isoDep with blockNum := !d.isoDep.blockNum } ∧
      next.card = { k with todo := rest, last := Picc.pcb rest.isEmpty k.blockNum :: payload } ∧
      exchangeLoop (n + 1) tx timeout rsp d =
        (if rest.isEmpty = false then
          exchangeLoop n [0xA2 ||| (!d.isoDep.blockNum).toUInt8] d.isoDep.ats.fwtMs (rsp ++ payload)
        else pure (rsp ++ payload) : Exchange (Coupled σ) (List UInt8)) next := by
  have hframe : k.send = (some (Picc.pcb rest.isEmpty k.blockNum :: payload),
      { k with todo := rest, last := Picc.pcb rest.isEmpty k.blockNum :: payload }) := by
    rw [Picc.send, htodo]
  obtain ⟨nfc, hcard, hround⟩ :=
    exchangeLoop_answer n (hsend.trans hframe) htx payload_le timeout rsp
  obtain ⟨hnot, hblock, hsame, hmore⟩ := Picc.pcb_bits rest.isEmpty k.blockNum
  refine ⟨{ d with isoDep := { d.isoDep with blockNum := !d.isoDep.blockNum }, nfc },
    rfl, hcard, ?_⟩
  rw [hround, if_neg hnot, if_pos hblock, hsame, hnum, if_neg (not_not.mpr rfl)]
  rw [hnum] at hmore
  simp only [hmore]
  rfl

/-- The response, however it is cut into blocks and whatever extensions come before them. -/
theorem exchangeLoop_chunks (n : Nat) {cs : List Chunk} (hne : cs ≠ []) (hn : frames cs ≤ n)
    {d : Dep (Coupled σ)} {k : Picc σ} {tx : List UInt8} (hsend : d.card.receive tx = k.send)
    (htodo : k.todo = cs) (hnum : k.blockNum = d.isoDep.blockNum) (htx : tx.length < 512)
    (timeout : Nat) (rsp : List UInt8) :
    ∃ d', exchangeLoop n tx timeout rsp d = (.ok (rsp ++ payloads cs), d') ∧ Dep.Done k d d' := by
  induction n generalizing cs d k tx timeout rsp with
  | zero =>
    obtain ⟨c, rest, rfl⟩ := List.exists_cons_of_ne_nil hne
    rw [frames, List.foldr_cons] at hn
    omega
  | succ n ih =>
    match cs, hne with
    | ⟨w :: waits, payload, payload_le⟩ :: rest, _ =>
      obtain ⟨next, hsame, hgrant, hround⟩ := exchangeLoop_wtx n hsend htodo htx timeout rsp
      have hfewer : frames (⟨waits, payload, payload_le⟩ :: rest) ≤ n := by
        simp only [frames, List.foldr_cons, List.length_cons] at hn ⊢
        omega
      obtain ⟨d', hloop, hdone⟩ :=
        ih (List.cons_ne_nil _ _) hfewer hgrant rfl (by rw [hsame, ← hnum])
        (by simp) (min (d.isoDep.ats.fwtMs * max (w &&& 0x3F).toNat 1) 5000) rsp
      refine ⟨d', ?_, hdone.inStep, hdone.app, hdone.respond, hdone.ats.trans (by rw [hsame])⟩
      rw [hround]
      exact hloop
    | ⟨[], payload, payload_le⟩ :: rest, _ =>
      obtain ⟨next, hturned, hnow, hround⟩ := exchangeLoop_block n hsend htodo hnum htx timeout rsp
      rw [hround]
      cases rest with
      | nil =>
        rw [if_neg (by simp)]
        refine ⟨next, ?_, ?_, by rw [hnow], by rw [hnow], by rw [hturned]⟩
        · rw [payloads, List.flatMap_cons, List.flatMap_nil, List.append_nil]
          rfl
        · rw [Dep.InStep, hnow, hturned, Bool.not_not]
          exact hnum
      | cons c rest =>
        rw [if_pos (by simp)]
        have hfewer : frames (c :: rest) ≤ n := by
          simp only [frames, List.foldr_cons, List.length_nil] at hn ⊢
          omega
        have hsent : next.card.blockNum = d.isoDep.blockNum := by rw [hnow]; exact hnum
        have hack := Picc.receive_ack hsent
        obtain ⟨d', hloop, hdone⟩ := ih (List.cons_ne_nil _ _) hfewer hack (by rw [hnow])
          (by rw [hnow, hturned, ← hnum]) (by simp) d.isoDep.ats.fwtMs (rsp ++ payload)
        refine ⟨d', ?_, hdone.inStep, ?_, ?_, hdone.ats.trans (by rw [hturned])⟩
        · simp [hloop, payloads]
        · rw [hdone.app, hnow]
        · rw [hdone.respond, hnow]

/-- An exchange returns the whole response, and reader and card stay in step. -/
theorem exchange_ok {d : Dep (Coupled σ)} (h : d.InStep) {apdu : List UInt8}
    (hfit : apdu.length + 3 ≤ d.isoDep.ats.fsc)
    (hframes : frames (d.card.respond d.card.app apdu).1.chunks ≤ 32) :
    (exchange apdu d).1 = .ok (payloads (d.card.respond d.card.app apdu).1.chunks) ∧
      (exchange apdu d).2.InStep ∧
      (exchange apdu d).2.card.app = (d.card.respond d.card.app apdu).2 ∧
      (exchange apdu d).2.card.respond = d.card.respond ∧
      (exchange apdu d).2.isoDep.ats = d.isoDep.ats := by
  have hfsc := d.isoDep.ats.fsc_le
  have hget : (Prog.get : Exchange (Coupled σ) _) d = (.ok d, d) := rfl
  obtain ⟨d', hloop, hdone⟩ :=
    exchangeLoop_chunks 32 (d.card.respond d.card.app apdu).1.nonempty hframes
    (d.card.receive_apdu d.isoDep.blockNum apdu) rfl (by rw [h, Bool.not_not])
    (by rw [List.length_cons]; omega) d.isoDep.ats.fwtMs []
  have hrun : exchange apdu d = (.ok (payloads (d.card.respond d.card.app apdu).1.chunks), d') := by
    rw [exchange, Prog.bind_of_ok hget, if_neg (by omega), hloop, List.nil_append]
  rw [hrun]
  exact ⟨rfl, hdone.inStep, hdone.app, hdone.respond, hdone.ats⟩

/-! ## A session -/

def exchangeStep (d : Dep (Coupled σ)) (apdu : List UInt8) : Dep (Coupled σ) := (exchange apdu d).2

/-- What an exchange returns. -/
def outcome (d : Dep (Coupled σ)) (apdu : List UInt8) :
    List (Except (IsoDepError Empty) (List UInt8)) :=
  [(exchange apdu d).1]

/-- In every session with APDUs that fit a frame, and at most 32 frames of the card for each: the
exchanges return the card's whole responses in order, and after each of them reader and card are in
step. -/
theorem exchanges_reassemble {d : Dep (Coupled σ)} (h : d.InStep) (apdus : List (List UInt8))
    (hfit : ∀ apdu ∈ apdus, apdu.length + 3 ≤ d.isoDep.ats.fsc)
    (hframes : EachStep (fun s apdu => (d.card.respond s apdu).2)
      (fun s apdu => frames (d.card.respond s apdu).1.chunks ≤ 32) d.card.app apdus) :
    Always exchangeStep Dep.InStep d apdus ∧
      collect exchangeStep outcome d apdus =
        collect (fun s apdu => (d.card.respond s apdu).2)
          (fun s apdu => [.ok (payloads (d.card.respond s apdu).1.chunks)]) d.card.app apdus := by
  induction apdus generalizing d with
  | nil => exact ⟨h, rfl⟩
  | cons apdu apdus ih =>
    obtain ⟨hfirst, hrest⟩ := hframes
    obtain ⟨hok, hstep, happ, hrespond, hats⟩ := exchange_ok h (hfit apdu List.mem_cons_self) hfirst
    have hnext : (exchangeStep d apdu).InStep := hstep
    obtain ⟨hall, hout⟩ := ih hnext
      (fun apdu' hin => by
        have := hfit apdu' (List.mem_cons_of_mem _ hin)
        rwa [exchangeStep, hats])
      (by rwa [exchangeStep, happ, hrespond])
    refine ⟨⟨h, hall⟩, ?_⟩
    rw [collect, collect, hout, outcome, hok, exchangeStep, happ, hrespond]

/-- A card that asks for more time and answers in two blocks. -/
def waiting : Dep (Coupled Unit) where
  isoDep := { ats := ⟨40, 256, by decide⟩ }
  nfc := { i2c := {
    card := {
      respond := fun _ _ =>
        (⟨[⟨[0x01], [0xAA], by decide⟩, ⟨[], [0x90, 0x00], by decide⟩], List.cons_ne_nil _ _⟩, ())
      app := () }
    regs := fun _ => 0
    crc := fun _ => (0, 0) } }

theorem exchanges_reassemble_waiting :
    Always exchangeStep Dep.InStep waiting [[0x00, 0xB0], [0x00, 0xA4]] ∧
    collect exchangeStep outcome waiting [[0x00, 0xB0], [0x00, 0xA4]] =
      [.ok [0xAA, 0x90, 0x00], .ok [0xAA, 0x90, 0x00]] :=
  exchanges_reassemble (d := waiting) rfl _ (by decide) ⟨by decide, by decide, trivial⟩

end IsoDep

end PaperNamePlate
