import PaperNamePlate.Lib.Triple
import PaperNamePlate.Nfc.PageStore
import PaperNamePlate.Nfc.Polling
import PaperNamePlate.Nfc.Reader

/-!
# What the chip transmits

The driver loads a frame into the FIFO, programs the number of bytes, and has the chip
transmit. `Tap` is a bus that watches these accesses, so that the two can be compared.
-/
namespace PaperNamePlate

open Embedded

/-- Any bus, with what the chip holds for a transmission and what it has sent with CRC. -/
structure Tap (I : Type) where
  bus : I
  fifo : List UInt8
  /-- The NUM_TX registers. -/
  numTx : UInt16
  sent : List (UInt16 × List UInt8)

namespace Tap

variable {I : Type}

def afterWrite (b : Tap I) : List UInt8 → Tap I
  | [c] =>
    if c = cmd.CLEAR_FIFO then { b with fifo := [] }
    else if c = cmd.TRANSMIT_WITH_CRC then { b with sent := b.sent ++ [(b.numTx, b.fifo)] }
    else b
  | _ => b

def afterTransaction (b : Tap I) : List (List UInt8) → Tap I
  | [[r], data] =>
    if r = 0x80 then { b with fifo := b.fifo ++ data }
    else if r = reg.NUM_TX_BYTES1 then { b with numTx := u16OfBe (data.getD 0 0) (data.getD 1 0) }
    else b
  | _ => b

instance [I2c I] : I2c (Tap I) where
  Error := I2c.Error I
  write b addr data :=
    match I2c.write b.bus addr data with
    | (.ok (), bus) => (.ok (), { b with bus }.afterWrite data)
    | (.error e, bus) => (.error e, { b with bus })
  writeRead b addr data n :=
    let (r, bus) := I2c.writeRead b.bus addr data n
    (r, { b with bus })
  transaction b addr parts :=
    match I2c.transaction b.bus addr parts with
    | (.ok (), bus) => (.ok (), { b with bus }.afterTransaction parts)
    | (.error e, bus) => (.error e, { b with bus })

end Tap

namespace St25r3916

variable {I : Type} [I2c I]

/-! ## The accesses of a transmission -/

open Prog (Triple Keeps)

theorem bus_write (addr : UInt8) (data : List UInt8) (s : St25r3916 (Tap I)) :
    bus (fun i => I2c.write i addr data) s =
      match I2c.write s.i2c.bus addr data with
      | (.ok (), b) => (.ok (), { s with i2c := { s.i2c with bus := b }.afterWrite data })
      | (.error e, b) => (.error e, { s with i2c := { s.i2c with bus := b } }) := by
  simp only [bus, Prog.zoom, I2c.write]
  rcases I2c.write s.i2c.bus addr data with ⟨_ | ⟨⟩, b⟩ <;> rfl

theorem bus_transaction (addr : UInt8) (parts : List (List UInt8)) (s : St25r3916 (Tap I)) :
    bus (fun i => I2c.transaction i addr parts) s =
      match I2c.transaction s.i2c.bus addr parts with
      | (.ok (), b) => (.ok (), { s with i2c := { s.i2c with bus := b }.afterTransaction parts })
      | (.error e, b) => (.error e, { s with i2c := { s.i2c with bus := b } }) := by
  simp only [bus, Prog.zoom, I2c.transaction]
  rcases I2c.transaction s.i2c.bus addr parts with ⟨_ | ⟨⟩, b⟩ <;> rfl

theorem triple_clearFifo (l : List (UInt16 × List UInt8)) :
    Triple (fun s : St25r3916 (Tap I) => s.i2c.sent = l) (command cmd.CLEAR_FIFO)
      (fun _ s => s.i2c.sent = l ∧ s.i2c.fifo = []) fun s => s.i2c.sent = l := by
  intro s hs
  rw [command, bus_write]
  rcases I2c.write s.i2c.bus ADDR [cmd.CLEAR_FIFO] with ⟨_ | ⟨⟩, b⟩
  · exact hs
  · exact ⟨hs, rfl⟩

theorem triple_loadFifo (l : List (UInt16 × List UInt8)) (data : List UInt8) :
    Triple (fun s : St25r3916 (Tap I) => s.i2c.sent = l ∧ s.i2c.fifo = []) (loadFifo data)
      (fun _ s => s.i2c.sent = l ∧ s.i2c.fifo = data) fun s => s.i2c.sent = l := by
  intro s hs
  rw [loadFifo, bus_transaction]
  rcases I2c.transaction s.i2c.bus ADDR [[0x80], data] with ⟨_ | ⟨⟩, b⟩
  · exact hs.1
  · exact ⟨hs.1, congrArg (· ++ data) hs.2⟩

theorem triple_setNumTx (l : List (UInt16 × List UInt8)) (data : List UInt8) (bytes : UInt16)
    (bits : UInt8) :
    Triple (fun s : St25r3916 (Tap I) => s.i2c.sent = l ∧ s.i2c.fifo = data) (setNumTx bytes bits)
      (fun _ s => s.i2c.sent = l ∧ s.i2c.fifo = data ∧ s.i2c.numTx = numTxWord bytes bits)
      fun s => s.i2c.sent = l := by
  intro s hs
  rw [setNumTx, writeRegs, bus_transaction]
  rcases I2c.transaction s.i2c.bus ADDR _ with ⟨_ | ⟨⟩, b⟩
  · exact hs.1
  · exact ⟨hs.1, hs.2, u16OfLe_toLe _⟩

theorem triple_transmit (l : List (UInt16 × List UInt8)) (data : List UInt8) (w : UInt16) :
    Triple (fun s : St25r3916 (Tap I) => s.i2c.sent = l ∧ s.i2c.fifo = data ∧ s.i2c.numTx = w)
      (command cmd.TRANSMIT_WITH_CRC) (fun _ s => s.i2c.sent = l ++ [(w, data)])
      fun s => s.i2c.sent = l := by
  intro s hs
  rw [command, bus_write]
  rcases I2c.write s.i2c.bus ADDR [cmd.TRANSMIT_WITH_CRC] with ⟨_ | ⟨⟩, b⟩
  · exact hs.1
  · obtain ⟨rfl, rfl, rfl⟩ := hs
    rfl

/-- Nothing is sent. -/
def SameSent (s s' : St25r3916 (Tap I)) : Prop := s'.i2c.sent = s.i2c.sent

instance : IsPreorder (St25r3916 (Tap I)) SameSent where
  refl _ := rfl
  trans _ _ _ h h' := Eq.trans h' h

omit [I2c I] in
theorem sent_afterWrite (b : Tap I) {data : List UInt8} (h : data ≠ [cmd.TRANSMIT_WITH_CRC]) :
    (b.afterWrite data).sent = b.sent := by
  unfold Tap.afterWrite
  split
  · split_ifs with h1 h2
    · rfl
    · exact absurd (congrArg (fun c => [c]) h2) h
    · rfl
  · rfl

omit [I2c I] in
theorem sent_afterTransaction (b : Tap I) (parts : List (List UInt8)) :
    (b.afterTransaction parts).sent = b.sent := by
  unfold Tap.afterTransaction
  split
  · split_ifs <;> rfl
  · rfl

theorem keepsSent_write {addr : UInt8} {data : List UInt8} (h : data ≠ [cmd.TRANSMIT_WITH_CRC]) :
    Keeps SameSent (bus fun i => I2c.write i addr data : Access (Tap I) Unit) := by
  intro s
  rw [bus_write]
  rcases I2c.write s.i2c.bus addr data with ⟨_ | ⟨⟩, b⟩
  · rfl
  · exact sent_afterWrite _ h

theorem keepsSent_transaction (addr : UInt8) (parts : List (List UInt8)) :
    Keeps SameSent (bus fun i => I2c.transaction i addr parts : Access (Tap I) Unit) := by
  intro s
  rw [bus_transaction]
  rcases I2c.transaction s.i2c.bus addr parts with ⟨_ | ⟨⟩, b⟩
  · rfl
  · exact sent_afterTransaction _ parts

theorem keepsSent_writeRead (addr : UInt8) (data : List UInt8) (n : Nat) :
    Keeps SameSent (bus fun i => I2c.writeRead i addr data n : Access (Tap I) (Vector UInt8 n)) :=
  fun _ => rfl

theorem keepsSent_readReg (r : UInt8) : Keeps SameSent (readReg r : Access (Tap I) UInt8) :=
  (keepsSent_writeRead _ _ _).bind fun _ => Keeps.pure _

theorem keepsSent_writeReg (r v : UInt8) : Keeps SameSent (writeReg r v : Access (Tap I) Unit) :=
  keepsSent_write (by simp)

theorem keepsSent_modifyReg (r clear set : UInt8) :
    Keeps SameSent (modifyReg r clear set : Access (Tap I) Unit) :=
  (keepsSent_readReg r).bind fun _ => Keeps.when (keepsSent_writeReg _ _)

theorem keepsSent_readIrq : Keeps SameSent (readIrq : Access (Tap I) UInt32) :=
  (keepsSent_readReg _).bind fun _ => Keeps.bind (keepsSent_writeRead _ _ _) fun _ =>
    (keepsSent_readReg _).bind fun _ => Keeps.pure _

theorem keepsSent_foldIrq : Keeps SameSent (foldIrq : Access (Tap I) UInt32) :=
  keepsSent_readIrq.bind fun _ => Keeps.bind (Keeps.modify fun _ => rfl) fun _ =>
    Keeps.bind Keeps.get fun _ => Keeps.pure _

theorem keepsSent_waitIrqLoop (bits : UInt32) (n : Nat) :
    Keeps SameSent (waitIrqLoop bits n : Access (Tap I) UInt32) := by
  induction n with
  | zero =>
    refine keepsSent_foldIrq.bind fun _ => Keeps.ite ?_ (Keeps.pure _)
    exact Keeps.bind (Keeps.modify fun _ => rfl) fun _ => Keeps.pure _
  | succ n ih =>
    refine keepsSent_foldIrq.bind fun _ => Keeps.ite ?_ ih
    exact Keeps.bind (Keeps.modify fun _ => rfl) fun _ => Keeps.pure _

theorem keepsSent_readFifo (n : Nat) :
    Keeps SameSent (readFifo n : Access (Tap I) (Vector UInt8 n)) := by
  unfold readFifo
  split
  · exact Keeps.pure _
  · exact keepsSent_writeRead _ _ _

theorem keepsSent_setFwtMs (ms : Nat) : Keeps SameSent (setFwtMs ms : Access (Tap I) Unit) :=
  (keepsSent_readReg _).bind fun _ => keepsSent_transaction _ _

theorem keepsSent_clearIrq : Keeps SameSent (clearIrq : Access (Tap I) Unit) :=
  Keeps.bind (Keeps.modify fun _ => rfl) fun _ =>
    Keeps.bind (keepsSent_writeRead _ _ _) fun _ => Keeps.pure _

theorem keepsSent_fifoStatus : Keeps SameSent (fifoStatus : Access (Tap I) (UInt16 × UInt8)) :=
  Keeps.bind (keepsSent_writeRead _ _ _) fun _ => Keeps.pure _

/-! ## Transmissions -/

/-- At most this frame has been sent, under this byte count. -/
def Sends (l : List (UInt16 × List UInt8)) (data : List UInt8) (s : St25r3916 (Tap I)) : Prop :=
  s.i2c.sent = l ∨ s.i2c.sent = l ++ [(numTxWord (UInt16.ofNat data.length) 0, data)]

omit [I2c I] in
theorem triple_of_keeps {ε α : Type} {p : Prog (St25r3916 (Tap I)) ε α} (h : Keeps SameSent p)
    (P : St25r3916 (Tap I) → Prop) (hP : ∀ s s', SameSent s s' → P s → P s') :
    Triple P p (fun _ => P) P := by
  intro s hs
  have hkeep := h s
  rcases hp : p s with ⟨_ | a, s'⟩ <;> rw [hp] at hkeep <;> exact hP s s' hkeep hs

omit [I2c I] in
theorem sends_congr {l : List (UInt16 × List UInt8)} {data : List UInt8} {s s' : St25r3916 (Tap I)}
    (h : SameSent s s') (hs : Sends l data s) : Sends l data s' := by
  unfold Sends at hs ⊢
  rwa [show s'.i2c.sent = s.i2c.sent from h]

/-- The accesses that transmit a frame with CRC. -/
theorem triple_send (l : List (UInt16 × List UInt8)) (data : List UInt8) :
    Triple (fun s : St25r3916 (Tap I) => s.i2c.sent = l)
      (do
        command cmd.CLEAR_FIFO
        loadFifo data
        setNumTx (UInt16.ofNat data.length) 0
        command cmd.TRANSMIT_WITH_CRC)
      (fun _ => Sends l data) (Sends l data) := by
  refine Triple.conseq (E := fun s => s.i2c.sent = l) ?_ (fun _ hs => hs) (fun _ _ hs => .inr hs)
    fun _ hs => .inl hs
  exact (triple_clearFifo l).bind fun _ => (triple_loadFifo l data).bind fun _ =>
    (triple_setNumTx l data _ 0).bind fun _ => triple_transmit l data _

theorem triple_targetTransmit (l : List (UInt16 × List UInt8)) (data : List UInt8) :
    Triple (fun s : St25r3916 (Tap I) => s.i2c.sent = l) (targetTransmit data 0)
      (fun _ => Sends l data) (Sends l data) :=
  triple_send l data

theorem keepsSent_targetTransmit (data : List UInt8) {bits : UInt8} (h : bits ≠ 0) :
    Keeps SameSent (targetTransmit data bits : Access (Tap I) Unit) := by
  unfold targetTransmit
  rw [if_neg h]
  exact (keepsSent_write (by decide)).bind fun _ => Keeps.bind (keepsSent_transaction _ _) fun _ =>
    Keeps.bind (keepsSent_transaction _ _) fun _ => keepsSent_write (by decide)

/-- Waiting for the answer and reading it send nothing. -/
theorem keepsSent_answer (cap ms : Nat) : Keeps SameSent (do
    let flags ← lift (waitIrq irq.RXE (ms + 2))
    if flags &&& irq.RXE = 0 then
      Prog.throw (if flags &&& irq.ERROR_MASK ≠ 0 then .rxError flags else .timeout)
    else do
      let (bytes, _) ← lift fifoStatus
      let rx ← lift (readFifo (min bytes.toNat cap))
      if flags &&& irq.ERROR_MASK ≠ 0 then Prog.throw (.rxError flags) else pure rx.toList :
    Driver (Tap I) (List UInt8)) := by
  refine (Keeps.mapError (keepsSent_waitIrqLoop _ _)).bind fun flags =>
    Keeps.ite (Keeps.throw _) ?_
  refine (Keeps.mapError keepsSent_fifoStatus).bind fun status => ?_
  exact (Keeps.mapError (keepsSent_readFifo _)).bind fun rx =>
    Keeps.ite (Keeps.throw _) (Keeps.pure _)

theorem triple_transceive (l : List (UInt16 × List UInt8)) (tx : List UInt8) (cap ms : Nat) :
    Triple (fun s : St25r3916 (Tap I) => s.i2c.sent = l) (transceive tx cap ms)
      (fun _ => Sends l tx) (Sends l tx) := by
  have hlift : ∀ {p : Access (Tap I) Unit} {P : St25r3916 (Tap I) → Prop}
      {Q : Unit → St25r3916 (Tap I) → Prop}, Triple P p Q (fun s => s.i2c.sent = l) →
      Triple P (lift p) Q (Sends l tx) := fun hp =>
    Triple.mapError (hp.conseq (fun _ hs => hs) (fun _ _ hs => hs) fun _ hs => .inl hs)
  have hbefore : ∀ {p : Access (Tap I) Unit}, Keeps SameSent p →
      Triple (fun s : St25r3916 (Tap I) => s.i2c.sent = l) (lift p) (fun _ s => s.i2c.sent = l)
        (Sends l tx) := fun hp => hlift (triple_of_keeps hp _ fun _ _ h hs => h.trans hs)
  refine (hbefore (keepsSent_setFwtMs ms)).bind fun _ =>
    (hbefore (keepsSent_writeReg _ _)).bind fun _ =>
    (hbefore (keepsSent_modifyReg _ _ _)).bind fun _ => (hbefore keepsSent_clearIrq).bind fun _ =>
      ?_
  refine (hlift (triple_clearFifo l)).bind fun _ => (hlift (triple_loadFifo l tx)).bind fun _ =>
    (hlift (triple_setNumTx l tx _ 0)).bind fun _ => (hlift (triple_transmit l tx _)).bind fun _ =>
      ?_
  exact (triple_of_keeps (keepsSent_answer cap ms) (Sends l tx)
    fun _ _ h hs => sends_congr h hs).conseq
    (fun _ hs => .inr hs) (fun _ _ hs => hs) fun _ hs => hs

end St25r3916

/-- FAST_READ of as many pages as it accepts. -/
def LongRead (rx : List UInt8) : Prop :=
  ∃ a b : UInt8, rx = [0x3A, a, b] ∧ b.toNat = a.toNat + 127 ∧ b.toNat < PAGES

theorem length_answer {e : T2tEmulator} {r : Request} {data : List UInt8}
    (h : e.pages.answer r = .data data) :
    data.length ≤ FIFO_DEPTH ∧ (data.length = FIFO_DEPTH ↔ LongRead r.frame) := by
  have hdepth : FIFO_DEPTH = 512 := rfl
  have hshort : ∀ {bs : List UInt8}, bs.length ≤ 32 → ¬ LongRead r.frame →
      bs.length ≤ FIFO_DEPTH ∧ (bs.length = FIFO_DEPTH ↔ LongRead r.frame) :=
    fun hlen hnot => ⟨by omega, iff_of_false (by omega) hnot⟩
  cases r with
  | read p =>
    cases h
    refine hshort ?_ (by rintro ⟨a, b, hframe, -⟩; simp [Request.frame] at hframe)
    rw [e.read_pages]
    simp
  | fastRead a b le short =>
    cases h
    have hb : b.val < 231 := b.isLt
    have hlen : (e.pages.fastRead a b).length = (b.val + 1 - a.val) * 4 := by
      rw [e.fastRead_pages, Block.length_read _ _ _ (by simp only [MEM_BYTES, PAGES]; omega),
        Nat.mul_sub_right_distrib]
    have hna := Target.toNat_pageNumber a
    have hnb := Target.toNat_pageNumber b
    refine ⟨by omega, fun hfull => ⟨_, _, rfl, ?_, ?_⟩, ?_⟩
    · omega
    · rw [hnb]
      exact b.isLt
    · rintro ⟨a', b', hframe, hdiff, -⟩
      obtain ⟨rfl, rfl⟩ : UInt8.ofNat a = a' ∧ UInt8.ofNat b = b' := by
        simpa [Request.frame] using hframe
      omega
  | write p bs two_le => cases h
  | version =>
    cases h
    exact hshort (by decide) (by rintro ⟨a, b, hframe, -⟩; simp [Request.frame] at hframe)
  | signature arg =>
    cases h
    exact hshort (by simp) (by rintro ⟨a, b, hframe, -⟩; simp [Request.frame] at hframe)
  | halt args => cases h

namespace Target

variable {I : Type} [I2c I]

open St25r3916

theorem nfc_chip_pure {α : Type} (p : Access I Unit) (a : α) (t : Target I) :
    ((chip p >>= fun _ => pure a : Emu I α) t).2.nfc = (p t.nfc).2 := by
  rw [chip_bind_eq]
  rcases p t.nfc with ⟨_ | ⟨⟩, nfc⟩ <;> rfl

/-- Whole bytes are sent as the answer to a request only. -/
theorem sends_handleCommand (rx : List UInt8) (t : Target (Tap I)) :
    (handleCommand rx t).2.nfc.i2c.sent = t.nfc.i2c.sent ∨
      ∃ r data, rx = r.frame ∧ t.emu.pages.answer r = .data data ∧
        Sends t.nfc.i2c.sent data (handleCommand rx t).2.nfc := by
  have hbits : ∀ (data : List UInt8) (res : CmdResult) (t' : Target (Tap I)),
      t'.nfc = t.nfc →
      ((chip (targetTransmit data 4) >>= fun _ => pure res :
        Emu (Tap I) CmdResult) t').2.nfc.i2c.sent =
        t.nfc.i2c.sent := by
    intro data res t' hnfc
    rw [nfc_chip_pure, ← hnfc]
    exact keepsSent_targetTransmit data (by decide) t'.nfc
  by_cases hr : ∃ r : Request, rx = r.frame
  · obtain ⟨r, rfl⟩ := hr
    rw [handleCommand_request]
    cases ha : t.emu.pages.answer r with
    | data bytes =>
      refine .inr ⟨r, bytes, rfl, ha, ?_⟩
      rw [respond, nfc_chip_pure]
      have hsend := triple_targetTransmit t.nfc.i2c.sent bytes t.nfc rfl
      rcases hp : targetTransmit bytes 0 t.nfc with ⟨_ | ⟨⟩, nfc⟩ <;>
          rw [hp] at hsend <;> exact hsend
    | ack => exact .inl (hbits _ _ _ rfl)
    | silent => exact .inl rfl
  · left
    have hnak : handleCommand rx t = nak t := by
      cases rx with
      | nil => rfl
      | cons op args =>
        exact congrFun (handleCommand_refused fun r h => hr ⟨r, h⟩) t
    rw [hnak]
    exact hbits _ _ _ rfl

end Target

/-- What is sent in between. -/
def sendsBetween {I : Type} (s s' : St25r3916 (Tap I)) : List (UInt16 × List UInt8) :=
  s'.i2c.sent.drop s.i2c.sent.length

theorem mem_sendsBetween {I : Type} {s s' : St25r3916 (Tap I)} {data : List UInt8}
    {x : UInt16 × List UInt8} (h : St25r3916.Sends s.i2c.sent data s')
    (hx : x ∈ sendsBetween s s') :
    x = (St25r3916.numTxWord (UInt16.ofNat data.length) 0, data) := by
  unfold sendsBetween at hx
  rcases h with h | h <;> rw [h] at hx
  · simp at hx
  · simpa using hx

/-- Whatever is sent fits the FIFO and is announced with its length, but for the longest answer. -/
theorem announced_iff {I : Type} [I2c I] (t : Target (Tap I)) (rx : List UInt8)
    (s : St25r3916 (Tap I)) (tx : List UInt8) (cap ms : Nat) :
    (∀ x ∈ sendsBetween t.nfc (Target.handleCommand rx t).2.nfc,
      x.2.length ≤ FIFO_DEPTH ∧ ((x.1 >>> 3).toNat = x.2.length ↔ ¬ LongRead rx)) ∧
    ∀ x ∈ sendsBetween s (St25r3916.transceive tx cap ms s).2,
      x.2 = tx ∧ ((x.1 >>> 3).toNat = x.2.length ∧ x.2.length ≤ FIFO_DEPTH ↔
        tx.length < FIFO_DEPTH) := by
  have hdepth : FIFO_DEPTH = 512 := rfl
  constructor
  · intro x hx
    rcases Target.sends_handleCommand rx t with hnone | ⟨r, data, rfl, ha, hsend⟩
    · rw [sendsBetween, hnone] at hx
      simp at hx
    · obtain rfl := mem_sendsBetween hsend hx
      obtain ⟨hle, hfull⟩ := length_answer ha
      rw [St25r3916.byteCount_numTxWord, ← hfull]
      exact ⟨hle, by dsimp only; omega⟩
  · intro x hx
    have hsend : St25r3916.Sends s.i2c.sent tx (St25r3916.transceive tx cap ms s).2 := by
      have h := St25r3916.triple_transceive s.i2c.sent tx cap ms s rfl
      rcases hp : St25r3916.transceive tx cap ms s with ⟨_ | rx, s'⟩ <;> rw [hp] at h <;> exact h
    obtain rfl := mem_sendsBetween hsend hx
    rw [St25r3916.byteCount_numTxWord]
    exact ⟨rfl, by dsimp only; omega⟩

/-- FAST_READ of pages 0 to 127 loads 512 bytes and announces none. -/
theorem longRead_announced :
    ¬ ∀ (I : Type) [I2c I] (t : Target (Tap I)) (rx : List UInt8),
      ∀ x ∈ sendsBetween t.nfc (Target.handleCommand rx t).2.nfc, (x.1 >>> 3).toNat =
        x.2.length := by
  intro hall
  let t : Target (Tap QuietBus) :=
    ⟨T2tEmulator.new (.replicate 7 0), { i2c := ⟨.quiet, [], 0, []⟩ }⟩
  let r : Request := .fastRead ⟨0, by decide⟩ ⟨127, by decide⟩ (by decide) (by decide)
  have hlong : LongRead r.frame := ⟨0, 127, rfl, rfl, by decide⟩
  obtain ⟨bytes, ha⟩ : ∃ bytes, t.emu.pages.answer r = .data bytes := ⟨_, rfl⟩
  have hlen : bytes.length = 512 := (length_answer ha).2.mpr hlong
  have hsent : sendsBetween t.nfc (Target.handleCommand r.frame t).2.nfc =
      [(St25r3916.numTxWord (UInt16.ofNat bytes.length) 0, bytes)] := by
    have hword := u16OfLe_toLe (St25r3916.numTxWord (UInt16.ofNat bytes.length) 0)
    rw [Target.handleCommand_request, ha, Target.respond, Target.nfc_chip_pure]
    exact congrArg (fun w => [(w, bytes)]) hword
  have hcount := hall QuietBus t r.frame _ (hsent ▸ List.mem_singleton_self _)
  rw [St25r3916.byteCount_numTxWord, hlen] at hcount
  exact absurd hcount (by decide)

end PaperNamePlate
