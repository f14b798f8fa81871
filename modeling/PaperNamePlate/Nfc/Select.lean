import PaperNamePlate.Nfc.Aerial
import PaperNamePlate.Nfc.Coil
import PaperNamePlate.Lib.Run

/-!
# Finding a tag

WUPA, anticollision and SELECT level by level, and HALT. A card keeps to the states of the standard:
it answers WUPA at rest, its levels in turn when it has been woken, and whatever it is asked when it
is selected. Polled again and again, with anything said to it in between, a single card is found
each time with all of its UID.
-/
namespace PaperNamePlate

open Embedded

/-- Result of a successful NFC-A activation. -/
structure NfcaTag where
  atqa : UInt16
  uid : List UInt8 := List.replicate 10 0
  uidLen : UInt8 := 0
  sak : UInt8 := 0
deriving DecidableEq, Repr

/-- What a poll comes to; a panic is an index out of range. -/
inductive Sighting
  | panic
  | nothing
  | tag (t : NfcaTag)
deriving DecidableEq, Repr

namespace St25r3916

variable {I : Type} [I2c I]

/-- Whether the FIFO has two bytes within `n` looks. -/
def lateAnswer : Nat → Access I Bool
  | 0 => pure false
  | n + 1 => do
    let (bytes, _) ← fifoStatus
    if 2 ≤ bytes then pure true else lateAnswer n

/-- Send REQA or WUPA; the ATQA if a tag answers. -/
def nfcaRequest (wakeup : Bool) : Driver I (Option UInt16) := do
  lift (setFwtMs 4)
  lift (writeReg reg.ISO14443A_NFC 0x01)
  lift (setRxCrcCheck false)
  lift clearIrq
  lift (command cmd.CLEAR_FIFO)
  lift (command (if wakeup then cmd.TRANSMIT_WUPA else cmd.TRANSMIT_REQA))
  let flags ← lift (waitIrq (irq.RXE ||| irq.RXS ||| irq.COL) 6)
  let late ←
    if flags &&& irq.RXE = 0 ∧ flags &&& irq.RXS ≠ 0 then lift (lateAnswer 40) else pure false
  if flags &&& irq.RXE = 0 ∧ late = false then pure none
  else do
    let (bytes, _) ← lift fifoStatus
    if bytes < 2 then pure none
    else do
      let atqa ← lift (readFifo 2)
      pure (some (u16OfLe (atqa.get 0) (atqa.get 1)))

/-- The levels of a selection that are left, at most `n`. -/
def selectLevels : Nat → NfcaTag → Driver I Sighting
  | 0, _ => Prog.throw .protocol
  | n + 1, tag => do
    let lv := 3 - n
    let sel : UInt8 := 0x91 + UInt8.ofNat lv * 2
    match ← nfcaAnticollisionLevel sel with
    | none => pure .panic
    | some r => do
      let uidPart := if r.getD 0 0 = 0x88 then (r.drop 1).take 3 else r.take 4
      let tag := { tag with uid := splice tag.uid ((lv - 1) * 3) uidPart }
      let sak ← transceive (sel :: 0x70 :: r) 3 8
      match sak with
      | [] => Prog.throw .protocol
      | sak :: _ =>
        let tag := { tag with sak }
        if sak &&& 0x04 = 0 then
          pure (.tag { tag with uidLen := if lv = 1 then 4 else if lv = 2 then 7 else 10 })
        else selectLevels n tag

/-- Anticollision and SELECT for all cascade levels. -/
def nfcaSelect (atqa : UInt16) : Driver I Sighting := selectLevels 3 { atqa }

/-- Put the selected tag into HALT. -/
def nfcaHalt : Driver I Unit := do
  lift (setFwtMs 2)
  lift (writeReg reg.ISO14443A_NFC 0x00)
  lift (setRxCrcCheck true)
  lift clearIrq
  lift (command cmd.CLEAR_FIFO)
  lift (loadFifo [0x50, 0x00])
  lift (setNumTx 2 0)
  lift (command cmd.TRANSMIT_WITH_CRC)
  let _ ← lift (waitIrq irq.TXE 4)
  pure ()

/-- WUPA, anticollision and SELECT. -/
def nfcaPoll : Driver I Sighting := do
  match ← nfcaRequest true with
  | none => pure .nothing
  | some atqa => nfcaSelect atqa

end St25r3916

/-! ## Cards -/

/-- A UID of four, seven or ten bytes; the cascade tag starts no complete level. -/
structure Uid where
  parts : List (Vector UInt8 3)
  last : Vector UInt8 4
  parts_le : parts.length ≤ 2
  last_ne : last.get 0 ≠ 0x88

namespace Uid

def bytes (u : Uid) : List UInt8 := u.parts.flatMap Vector.toList ++ u.last.toList

theorem length_bytes (u : Uid) : u.bytes.length = 3 * u.parts.length + 4 := by
  have hparts : ∀ ps : List (Vector UInt8 3), (ps.flatMap Vector.toList).length =
      3 * ps.length := by
    intro ps
    induction ps with
    | nil => rfl
    | cons p ps ih =>
      rw [List.flatMap_cons, List.length_append, ih, List.length_cons]
      simp
      omega
  rw [bytes, List.length_append, hparts]
  simp

/-- What a card answers at a level that is not its last one. -/
def cascade (p : Vector UInt8 3) : CascadeAnswer := ⟨#v[0x88, p.get 0, p.get 1, p.get 2]⟩

/-- What a card answers level by level. -/
def answers (u : Uid) : List CascadeAnswer := u.parts.map cascade ++ [⟨u.last⟩]

end Uid

/-- The states of a card. A card that is woken from HALT falls back to it. -/
inductive CardState (σ : Type)
  | idle
  | ready (lv : Nat) (woken : Bool)
  | active (woken : Bool) (memory : σ)
  | halted

/-- What a selected card does with a frame. -/
inductive Reaction (σ : Type)
  | answer (bytes : List UInt8) (memory : σ)
  /-- Answer, and go to HALT. -/
  | leave (bytes : List UInt8)
  /-- The frame is not for it. -/
  | drop

/-- The frame that is answered. -/
def Reaction.bytes {σ : Type} : Reaction σ → List UInt8
  | .answer bytes _ | .leave bytes => bytes
  | .drop => []

/-- A card with what it does once it is selected. -/
structure Card (σ : Type) where
  uid : Uid
  atqa : UInt16
  sak : UInt8
  cascadeSak : UInt8
  sak_complete : sak &&& 0x04 = 0
  sak_cascade : cascadeSak &&& 0x04 ≠ 0
  start : σ
  respond : σ → List UInt8 → Reaction σ
  respond_le : ∀ m tx, (respond m tx).bytes.length ≤ 254
  state : CardState σ := .idle

namespace Card

variable {σ : Type}

/-- SEL of a level. -/
def sel (lv : Nat) : UInt8 := 0x93 + UInt8.ofNat lv * 2

def enter (k : Card σ) (state : CardState σ) : Card σ := { k with state }

/-- After a frame that is not for it. -/
def fallBack (k : Card σ) (woken : Bool) : Card σ := k.enter (if woken then .halted else .idle)

def hear (k : Card σ) (f : Frame) : Option (List UInt8) × Card σ :=
  match k.state, f with
  | .idle, .short _ => (some (u16ToLe k.atqa), k.enter (.ready 0 false))
  | .halted, .short true => (some (u16ToLe k.atqa), k.enter (.ready 0 true))
  | .ready lv woken, f =>
    match k.uid.answers[lv]? with
    | none => (none, k.fallBack woken)
    | some a =>
      if f = .plain [sel lv, 0x20] 0 then (some a.bytes, k)
      else if f = .withCrc (sel lv :: 0x70 :: a.bytes) then
        if lv + 1 < k.uid.answers.length then (some [k.cascadeSak], k.enter (.ready (lv + 1) woken))
        else (some [k.sak], k.enter (.active woken k.start))
      else (none, k.fallBack woken)
  | .active woken m, .withCrc tx =>
    if tx = [0x50, 0x00] then (none, k.enter .halted)
    else
      match k.respond m tx with
      | .answer answer m => (some answer, k.enter (.active woken m))
      | .leave answer => (some answer, k.enter .halted)
      | .drop => (none, k.fallBack woken)
  | .active woken _, _ => (none, k.fallBack woken)
  | _, _ => (none, k)

instance : Peer (Card σ) := ⟨hear, fun k => k.enter .idle⟩

/-- What the reader is to find. -/
def tag (k : Card σ) : NfcaTag where
  atqa := k.atqa
  uid := splice (List.replicate 10 0) 0 k.uid.bytes
  uidLen := UInt8.ofNat k.uid.bytes.length
  sak := k.sak

def Resting (k : Card σ) : Prop := k.state = .idle ∨ k.state = .halted

@[simp] theorem enter_state (k : Card σ) (state : CardState σ) : (k.enter state).state = state :=
  rfl
@[simp] theorem enter_enter (k : Card σ) (s s' : CardState σ) : (k.enter s).enter s' = k.enter s' :=
  rfl
@[simp] theorem enter_tag (k : Card σ) (state : CardState σ) : (k.enter state).tag = k.tag := rfl
@[simp] theorem enter_uid (k : Card σ) (state : CardState σ) : (k.enter state).uid = k.uid := rfl

/-- A frame changes nothing but the state. -/
theorem hear_enter (k : Card σ) (f : Frame) : ∃ state, (k.hear f).2 = k.enter state := by
  unfold hear
  split
  · exact ⟨_, rfl⟩
  · exact ⟨_, rfl⟩
  · split
    · exact ⟨_, rfl⟩
    · split
      · exact ⟨k.state, rfl⟩
      · split
        · split <;> exact ⟨_, rfl⟩
        · exact ⟨_, rfl⟩
  · split
    · exact ⟨_, rfl⟩
    · split <;> exact ⟨_, rfl⟩
  · exact ⟨_, rfl⟩
  · exact ⟨k.state, rfl⟩

/-- A card at rest hears nothing but a request. -/
theorem Resting.hear_withCrc {k : Card σ} (h : k.Resting) (tx : List UInt8) :
    k.hear (.withCrc tx) = (none, k) := by
  unfold hear
  rcases h with h | h <;> rw [h]

/-- A selected card hears a frame. -/
theorem hear_active {k : Card σ} {woken : Bool} {m : σ} (h : k.state = .active woken m)
    {tx : List UInt8} (htx : tx ≠ [0x50, 0x00]) :
    k.hear (.withCrc tx) =
      match k.respond m tx with
      | .answer answer m => (some answer, k.enter (.active woken m))
      | .leave answer => (some answer, k.enter .halted)
      | .drop => (none, k.fallBack woken) := by
  unfold hear
  rw [h]
  dsimp only
  rw [if_neg htx]

theorem hear_halt {k : Card σ} {woken : Bool} {m : σ} (h : k.state = .active woken m) :
    k.hear (.withCrc [0x50, 0x00]) = (none, k.enter .halted) := by
  unfold hear
  rw [h]
  rfl

theorem resting_fallBack (k : Card σ) (woken : Bool) : (k.fallBack woken).Resting := by
  cases woken
  · exact .inl rfl
  · exact .inr rfl

/-- A card that is selected stays so or comes to rest. -/
theorem hear_selected {k : Card σ} {woken : Bool} {m : σ} (h : k.state = .active woken m)
    (tx : List UInt8) :
    (∃ m', (k.hear (.withCrc tx)).2.state = .active woken m') ∨
      (k.hear (.withCrc tx)).2.Resting := by
  by_cases htx : tx = [0x50, 0x00]
  · rw [htx, hear_halt h]
    exact .inr (.inr rfl)
  · rw [hear_active h htx]
    cases k.respond m tx with
    | answer answer m' => exact .inl ⟨m', rfl⟩
    | leave answer => exact .inr (.inr rfl)
    | drop => exact .inr (k.resting_fallBack woken)

/-- What is answered fits the FIFO. -/
theorem hear_withCrc_le {k : Card σ} {tx answer : List UInt8} {k' : Card σ}
    (h : k.hear (.withCrc tx) = (some answer, k')) : answer.length ≤ 254 := by
  cases hstate : k.state with
  | idle => simp [Resting.hear_withCrc (.inl hstate)] at h
  | halted => simp [Resting.hear_withCrc (.inr hstate)] at h
  | ready lv woken =>
    unfold hear at h
    rw [hstate] at h
    dsimp only at h
    split at h
    · simp at h
    · split at h
      · next hf => simp at hf
      · split at h
        · have hone : ∀ b : UInt8, [b].length ≤ 254 := fun _ => by simp
          split at h <;> grind
        · simp at h
  | active woken m =>
    by_cases hhalt : tx = [0x50, 0x00]
    · simp [hhalt, hear_halt hstate] at h
    · have hle := k.respond_le m tx
      rw [hear_active hstate hhalt] at h
      cases hr : k.respond m tx with
      | answer r m' =>
        rw [hr] at h hle
        obtain ⟨rfl, -⟩ := (Prod.mk.inj h).imp_left Option.some.inj
        exact hle
      | leave r =>
        rw [hr] at h hle
        obtain ⟨rfl, -⟩ := (Prod.mk.inj h).imp_left Option.some.inj
        exact hle
      | drop => simp [hr] at h

end Card

/-! ## The driver with a card in the field -/

namespace St25r3916

open Aerial

variable {σ : Type}

abbrev Reader (σ : Type) : Type := St25r3916 (Aerial (Card σ))

/-- The card is in the field. -/
def Facing (k : Card σ) (s : Reader σ) : Prop := s.i2c.spot = ⟨some k, true⟩

/-- Nobody hears the chip. -/
def Alone (s : Reader σ) : Prop := ∀ f, s.i2c.spot.hear f = (none, s.i2c.spot)

theorem Facing.hear {k : Card σ} {s : Reader σ} (h : Facing k s) (f : Frame) :
    s.i2c.spot.hear f = ((k.hear f).1, ⟨some (k.hear f).2, true⟩) := by
  rw [h]
  rfl

theorem sends_wupa (s : Reader σ) {α : Type} (f : Driver (Aerial (Card σ)) α) :
    (do
      lift clearIrq
      lift (command cmd.CLEAR_FIFO)
      lift (command (if true then cmd.TRANSMIT_WUPA else cmd.TRANSMIT_REQA))
      f : Driver (Aerial (Card σ)) α) s =
      f ⟨({ s.i2c with flags := 0, fifo := [] } : Aerial (Card σ)).send (.short true), 0⟩ := rfl

theorem writeReg_eq (v : UInt8) (s : Reader σ) : writeReg reg.ISO14443A_NFC v s = (.ok (), s) := rfl

/-- Nobody answers. -/
theorem nfcaRequest_nothing {s : Reader σ} (h : Alone s) :
    ∃ nfc, nfcaRequest true s = (.ok none, nfc) ∧ Heard s.i2c.spot s nfc := by
  generalize hc : ({ s.i2c with flags := 0, fifo := [] } : Aerial (Card σ)).send (.short true) = c
  obtain ⟨hspot, hflags⟩ : c.spot = s.i2c.spot ∧ c.flags = 0x08 := by
    rw [← hc, send]
    dsimp only
    rw [h]
    exact ⟨rfl, by simp⟩
  have hop : c.opControl = s.i2c.opControl := by rw [← hc, opControl_send]
  have hbits : word c.flags &&& (irq.RXE ||| irq.RXS ||| irq.COL) = 0 := by rw [hflags]; decide
  have hrxe : (word c.flags ||| irq.NRE) &&& irq.RXE = 0 := by rw [hflags]; decide
  have hrxs : (word c.flags ||| irq.NRE) &&& irq.RXS = 0 := by rw [hflags]; decide
  refine ⟨⟨{ c with flags := 0 }, word c.flags⟩, ?_, hspot, hop⟩
  rw [nfcaRequest, lift_bind_ok (setFwtMs_eq 4 s), lift_bind_ok (writeReg_eq 0x01 s),
    lift_bind_ok (setRxCrcCheck_eq false s), sends_wupa, hc, lift_bind_ok (waitIrq_vain hbits 6),
    if_neg (fun hlate => hlate.2 hrxs)]
  change (if _ ∧ false = false then _ else _ : Driver (Aerial (Card σ)) (Option UInt16)) _ = _
  rw [if_pos ⟨hrxe, rfl⟩]
  rfl

/-- A card at rest answers and is ready. -/
theorem nfcaRequest_card {s : Reader σ} {k : Card σ} (h : Facing k s) (hrest : k.Resting) :
    ∃ nfc woken, nfcaRequest true s = (.ok (some k.atqa), nfc) ∧
      Heard ⟨some (k.enter (.ready 0 woken)), true⟩ s nfc := by
  generalize hc : ({ s.i2c with flags := 0, fifo := [] } : Aerial (Card σ)).send (.short true) = c
  obtain ⟨woken, hhear⟩ : ∃ woken, k.hear (.short true) =
      (some (u16ToLe k.atqa), k.enter (.ready 0 woken)) := by
    unfold Card.hear
    rcases hrest with hk | hk
    · rw [hk]
      exact ⟨false, rfl⟩
    · rw [hk]
      exact ⟨true, rfl⟩
  obtain ⟨hspot, hfifo, hflags⟩ : c.spot = ⟨some (k.enter (.ready 0 woken)), true⟩ ∧
      c.fifo = u16ToLe k.atqa ∧ c.flags = 0x38 := by
    rw [← hc, send]
    dsimp only
    rw [h.hear, hhear]
    exact ⟨rfl, List.append_nil _, by simp⟩
  have hop : c.opControl = s.i2c.opControl := by rw [← hc, opControl_send]
  have hlen : c.fifo.length = 2 := by rw [hfifo]; rfl
  have hbits : word c.flags &&& (irq.RXE ||| irq.RXS ||| irq.COL) ≠ 0 := by rw [hflags]; decide
  have hrxe : word c.flags &&& irq.RXE ≠ 0 := by rw [hflags]; decide
  obtain ⟨p, hwait⟩ := waitIrq_eq hbits 6
  obtain ⟨st, hst, hstatus⟩ := fifoStatus_eq ⟨{ c with flags := 0 }, p⟩ (by dsimp only; omega)
  obtain ⟨v, hv, hread⟩ := readFifo_eq ⟨{ c with flags := 0 }, p⟩ (n := 2) (by decide)
    (Nat.le_of_eq hlen.symm)
  refine ⟨⟨{ c with flags := 0, fifo := c.fifo.drop 2 }, p⟩, woken, ?_, hspot, hop⟩
  rw [nfcaRequest, lift_bind_ok (setFwtMs_eq 4 s), lift_bind_ok (writeReg_eq 0x01 s),
    lift_bind_ok (setRxCrcCheck_eq false s), sends_wupa, hc, lift_bind_ok hwait,
    if_neg (fun hlate => hrxe hlate.1)]
  change (if _ ∧ false = false then _ else _ : Driver (Aerial (Card σ)) (Option UInt16)) _ = _
  rw [if_neg (fun hnone => hrxe hnone.1), lift_bind_ok hstatus]
  obtain ⟨bytes, bits⟩ := st
  have htwo : ¬ bytes < 2 := by
    dsimp only at hst
    rw [UInt16.lt_iff_toNat_lt, hst, hlen]
    decide
  dsimp only
  rw [if_neg htwo, lift_bind_ok hread]
  have hword : u16OfLe (v.get 0) (v.get 1) = k.atqa := by
    have hlist : v.toList = u16ToLe k.atqa := by
      rw [hv, hfifo]
      rfl
    have h0 : v.get 0 = UInt8.ofNat k.atqa.toNat := by
      have hget : v.toList[0]? = some (UInt8.ofNat k.atqa.toNat) := by rw [hlist]; rfl
      simpa [Vector.get] using hget
    have h1 : v.get 1 = UInt8.ofNat (k.atqa.toNat / 2 ^ 8) := by
      have hget : v.toList[1]? = some (UInt8.ofNat (k.atqa.toNat / 2 ^ 8)) := by rw [hlist]; rfl
      simpa [Vector.get] using hget
    rw [h0, h1, u16OfLe_toLe]
  rw [hword]
  rfl

/-! ### Level by level -/

/-- A level: the card answers its part, and its SELECT with a SAK. -/
theorem level_eq {s : Reader σ} {k : Card σ} {lv : Nat} {woken : Bool} {a : CascadeAnswer}
    (h : Facing (k.enter (.ready lv woken)) s) (ha : k.uid.answers[lv]? = some a) :
    ∃ nfc nfc' x y, nfcaAnticollisionLevel (Card.sel lv) s = (.ok (some a.bytes), nfc) ∧
      St25r3916.transceive (Card.sel lv :: 0x70 :: a.bytes) 3 8 nfc =
        (.ok [if lv + 1 < k.uid.answers.length then k.cascadeSak else k.sak, x, y], nfc') ∧
      Heard ⟨some (k.enter (if lv + 1 < k.uid.answers.length then .ready (lv + 1) woken
        else .active woken k.start)), true⟩ s nfc' := by
  have hplain : s.i2c.spot.hear (.plain [Card.sel lv, 0x20] 0) =
      (some a.bytes, ⟨some (k.enter (.ready lv woken)), true⟩) := by
    rw [h.hear]
    unfold Card.hear
    simp [ha]
  obtain ⟨nfc, hlevel, hheard⟩ := nfcaAnticollisionLevel_eq hplain rfl
  have hfacing : Facing (k.enter (.ready lv woken)) nfc := hheard.spot
  have hselect : nfc.i2c.spot.hear (.withCrc (Card.sel lv :: 0x70 :: a.bytes)) =
      (some [if lv + 1 < k.uid.answers.length then k.cascadeSak else k.sak], ⟨some (k.enter
        (if lv + 1 < k.uid.answers.length then .ready (lv + 1) woken else .active woken k.start)),
          true⟩) := by
    rw [hfacing.hear]
    unfold Card.hear
    by_cases hmore : lv + 1 < k.uid.answers.length
    · simp [ha, hmore]
      rfl
    · simp [ha, hmore]
      constructor <;> rfl
  obtain ⟨nfc', x, y, htrans, hheard'⟩ := Aerial.transceive_eq hselect (by simp) (by simp)
    (by decide : 3 ≠ 0) 8
  exact ⟨nfc, nfc', x, y, hlevel, htrans, hheard.trans hheard'⟩

theorem selectLevels_step {I : Type} [I2c I] {s nfc nfc' : St25r3916 I} {lv : Nat} (hlv : lv ≤ 2)
    {r : List UInt8} {sak x y : UInt8}
    (hlevel : nfcaAnticollisionLevel (Card.sel lv) s = (.ok (some r), nfc))
    (htrans : St25r3916.transceive (Card.sel lv :: 0x70 :: r) 3 8 nfc = (.ok [sak, x, y], nfc'))
    (tag : NfcaTag) :
    selectLevels (3 - lv) tag s =
      (let uidPart := if r.getD 0 0 = 0x88 then (r.drop 1).take 3 else r.take 4
       let tag := { tag with uid := splice tag.uid (lv * 3) uidPart, sak }
       if sak &&& 0x04 = 0 then pure (.tag { tag with uidLen := UInt8.ofNat (3 * lv + 4) })
       else selectLevels (3 - (lv + 1)) tag : Driver I Sighting) nfc' := by
  obtain rfl | rfl | rfl : lv = 0 ∨ lv = 1 ∨ lv = 2 := by omega
  all_goals
    unfold selectLevels
    exact Prog.bind_of_ok hlevel _ |>.trans (Prog.bind_of_ok htrans _)

theorem toList_three {α : Type} (v : Vector α 3) : v.toList = [v.get 0, v.get 1, v.get 2] := by
  obtain ⟨⟨l⟩, h⟩ := v
  match l, h with
  | [a, b, c], _ => rfl

theorem toList_four {α : Type} (v : Vector α 4) :
    v.toList = [v.get 0, v.get 1, v.get 2, v.get 3] := by
  obtain ⟨⟨l⟩, h⟩ := v
  match l, h with
  | [a, b, c, d], _ => rfl

/-- The levels from `lv` on put the rest of the UID after what is there. -/
theorem selectLevels_eq {k : Card σ} {woken : Bool} (parts : List (Vector UInt8 3)) {lv : Nat}
    (tag : NfcaTag) {s : Reader σ} (h : Facing (k.enter (.ready lv woken)) s)
    (hrest : k.uid.answers.drop lv = parts.map Uid.cascade ++ [⟨k.uid.last⟩])
    (hlv : lv + parts.length ≤ 2) (huid : tag.uid.length = 10) :
    ∃ nfc, selectLevels (3 - lv) tag s =
        (.ok (.tag { tag with
          uid := splice tag.uid (lv * 3) (parts.flatMap Vector.toList ++ k.uid.last.toList)
          uidLen := UInt8.ofNat (3 * (lv + parts.length) + 4)
          sak := k.sak }), nfc) ∧
      Heard ⟨some (k.enter (.active woken k.start)), true⟩ s nfc := by
  have hlen : k.uid.answers.length = lv + (parts.length + 1) := by
    have hdrop := congrArg List.length hrest
    simp only [List.length_drop, List.length_append, List.length_map, List.length_cons,
      List.length_nil] at hdrop
    omega
  have hget : k.uid.answers[lv]? = (parts.map Uid.cascade ++ [⟨k.uid.last⟩])[0]? := by
    rw [← hrest, List.getElem?_drop, Nat.add_zero]
  induction parts generalizing lv tag s with
  | nil =>
    obtain ⟨nfc, nfc', x, y, hlevel, htrans, hheard⟩ := level_eq h hget
    rw [if_neg (by simp [hlen])] at htrans hheard
    refine ⟨nfc', ?_, hheard⟩
    have hfirst : ¬ (⟨k.uid.last⟩ : CascadeAnswer).bytes.getD 0 0 = 0x88 := k.uid.last_ne
    rw [selectLevels_step (by omega) hlevel htrans]
    dsimp only
    rw [if_pos k.sak_complete, if_neg hfirst, List.flatMap_nil, List.nil_append, toList_four]
    rfl
  | cons p parts ih =>
    obtain ⟨nfc, nfc', x, y, hlevel, htrans, hheard⟩ := level_eq h hget
    rw [List.length_cons] at hlv hlen
    rw [if_pos (by omega)] at htrans hheard
    have hnext : k.uid.answers.drop (lv + 1) = parts.map Uid.cascade ++ [⟨k.uid.last⟩] := by
      rw [← List.drop_drop, hrest]
      rfl
    have hfirst : (Uid.cascade p).bytes.getD 0 0 = 0x88 := rfl
    have hpart : ((Uid.cascade p).bytes.drop 1).take 3 = p.toList := (toList_three p).symm
    have hthree : p.toList.length = 3 := by simp
    obtain ⟨nfc'', hrun, hheard''⟩ := ih { tag with
        uid := splice tag.uid (lv * 3) p.toList, sak := k.cascadeSak } hheard.spot hnext (by omega)
      (by rw [length_splice _ _ _ (by omega), huid]) (by omega)
      (by rw [← hnext, List.getElem?_drop, Nat.add_zero])
    refine ⟨nfc'', ?_, hheard.trans hheard''⟩
    rw [selectLevels_step (by omega) hlevel htrans]
    dsimp only
    rw [if_neg k.sak_cascade, if_pos hfirst, hpart, hrun]
    have hsplice : splice (splice tag.uid (lv * 3) p.toList) ((lv + 1) * 3)
        (parts.flatMap Vector.toList ++ k.uid.last.toList) =
          splice tag.uid (lv * 3) ((p :: parts).flatMap Vector.toList ++ k.uid.last.toList) := by
      have htwice := splice_splice tag.uid p.toList
        (parts.flatMap Vector.toList ++ k.uid.last.toList) (lv * 3) (by omega)
      rw [hthree, ← Nat.succ_mul] at htwice
      rw [List.flatMap_cons, List.append_assoc]
      exact htwice
    rw [hsplice, List.length_cons, Nat.add_assoc lv 1, Nat.add_comm 1]

/-- A poll selects the card, with all of its UID. -/
theorem nfcaPoll_card {s : Reader σ} {k : Card σ} (h : Facing k s) (hrest : k.Resting) :
    ∃ nfc woken, nfcaPoll s = (.ok (.tag k.tag), nfc) ∧
      Heard ⟨some (k.enter (.active woken k.start)), true⟩ s nfc := by
  obtain ⟨nfc, woken, hrequest, hheard⟩ := nfcaRequest_card h hrest
  obtain ⟨nfc', hlevels, hheard'⟩ := selectLevels_eq k.uid.parts { atqa := k.atqa } hheard.spot rfl
    (by simpa using k.uid.parts_le) rfl
  have htag : ({ atqa := k.atqa
                 uid := splice (List.replicate 10 0) (0 * 3)
                   (k.uid.parts.flatMap Vector.toList ++ k.uid.last.toList)
                 uidLen := UInt8.ofNat (3 * (0 + k.uid.parts.length) + 4)
                 sak := k.sak } : NfcaTag) = k.tag := by
    rw [Nat.zero_add, ← Uid.length_bytes]
    rfl
  refine ⟨nfc', woken, ?_, hheard.trans hheard'⟩
  rw [nfcaPoll, Prog.bind_of_ok hrequest, ← htag]
  exact hlevels

theorem nfcaPoll_nothing {s : Reader σ} (h : Alone s) :
    ∃ nfc, nfcaPoll s = (.ok .nothing, nfc) ∧ Heard s.i2c.spot s nfc := by
  obtain ⟨nfc, hrequest, hheard⟩ := nfcaRequest_nothing h
  refine ⟨nfc, ?_, hheard⟩
  rw [nfcaPoll, Prog.bind_of_ok hrequest]
  rfl

/-! ### Everything said to a selected card -/

/-- A frame that is not answered. -/
theorem transceive_vain {s : Reader σ} {tx : List UInt8} {spot : Spot (Card σ)}
    (hhear : s.i2c.spot.hear (.withCrc tx) = (none, spot)) (htx : tx.length < 512)
    (cap ms : Nat) :
    ∃ nfc, St25r3916.transceive tx cap ms s = (.error .timeout, nfc) ∧ Heard spot s nfc := by
  generalize hc : transmitWithCrc { s.i2c with
    flags := 0, fifo := tx, numTx := numTxWord (UInt16.ofNat tx.length) 0 } = c
  obtain ⟨hspot, hflags⟩ : c.spot = spot ∧ c.flags = 0x08 := by
    rw [← hc, transmitWithCrc_eq _ htx, send]
    dsimp only
    rw [hhear]
    exact ⟨rfl, by simp⟩
  have hop : c.opControl = s.i2c.opControl := by
    rw [← hc, transmitWithCrc_eq _ htx, opControl_send]
  have hrxe : word c.flags &&& irq.RXE = 0 := by rw [hflags]; decide
  have hnone : (word c.flags ||| irq.NRE) &&& irq.RXE = 0 := by rw [hflags]; decide
  have herror : ¬ (word c.flags ||| irq.NRE) &&& irq.ERROR_MASK ≠ 0 := by rw [hflags]; decide
  refine ⟨⟨{ c with flags := 0 }, word c.flags⟩, ?_, hspot, hop⟩
  rw [St25r3916.transceive, lift_bind_ok (setFwtMs_eq ms s), lift_bind_ok (writeReg_eq 0x00 s),
    lift_bind_ok (setRxCrcCheck_eq true s), sends_withCrc, hc,
    lift_bind_ok (waitIrq_vain hrxe (ms + 2)), if_pos hnone, if_neg herror]
  rfl

/-- A frame of the reader, with the room for its answer. -/
structure Say where
  tx : List UInt8
  cap : Nat
  ms : Nat
  tx_lt : tx.length < 512
  cap_ne : cap ≠ 0

def say (s : Reader σ) (y : Say) : Reader σ := (St25r3916.transceive y.tx y.cap y.ms s).2

theorem heard_say {s : Reader σ} {k : Card σ} (h : Facing k s) (y : Say) :
    Heard ⟨some (k.hear (.withCrc y.tx)).2, true⟩ s (say s y) := by
  have hhear := h.hear (.withCrc y.tx)
  cases hcard : k.hear (.withCrc y.tx) with
  | mk answer k' =>
    rw [hcard] at hhear
    cases answer with
    | none =>
      obtain ⟨nfc, hrun, hheard⟩ := transceive_vain hhear y.tx_lt y.cap y.ms
      rw [say, hrun]
      exact hheard
    | some answer =>
      obtain ⟨nfc, _, _, hrun, hheard⟩ := Aerial.transceive_eq hhear y.tx_lt
        (Card.hear_withCrc_le hcard) y.cap_ne y.ms
      rw [say, hrun]
      exact hheard

/-- The card is in the field, selected or at rest. -/
structure Attends (k : Card σ) (s s' : Reader σ) : Prop where
  heard : ∃ state, Heard ⟨some (k.enter state), true⟩ s s' ∧
    ((∃ woken m, state = .active woken m) ∨ (k.enter state).Resting)

theorem Attends.say {k : Card σ} {s s' : Reader σ} (h : Attends k s s') (y : Say) :
    Attends k s (say s' y) := by
  obtain ⟨state, hheard, hstate⟩ := h
  have hsaid := heard_say (k := k.enter state) hheard.spot y
  obtain ⟨state', hnext⟩ := (k.enter state).hear_enter (.withCrc y.tx)
  rw [hnext] at hsaid
  refine ⟨state', hheard.trans hsaid, ?_⟩
  rcases hstate with ⟨woken, m, rfl⟩ | hrest
  · rcases Card.hear_selected (k := k.enter (.active woken m)) rfl y.tx with ⟨m', hm'⟩ | hrest
    · rw [hnext] at hm'
      exact .inl ⟨woken, m', hm'⟩
    · rw [hnext] at hrest
      exact .inr hrest
  · rw [hrest.hear_withCrc] at hnext
    have hsame : k.enter state = k.enter state' := hnext
    exact .inr (hsame ▸ hrest)

/-- HALT brings the card to rest, whatever became of it. -/
theorem Attends.halt {k : Card σ} {s s' : Reader σ} (h : Attends k s s') :
    ∃ state, Heard ⟨some (k.enter state), true⟩ s (nfcaHalt s').2 ∧ (k.enter state).Resting := by
  obtain ⟨state, hheard, hstate⟩ := h
  have hfacing : Facing (k.enter state) s' := hheard.spot
  have hafter : Heard ⟨some ((k.enter state).hear (.withCrc [0x50, 0x00])).2, true⟩ s'
      (nfcaHalt s').2 := by
    generalize hc : transmitWithCrc { s'.i2c with
      flags := 0, fifo := [0x50, 0x00]
      numTx := numTxWord (UInt16.ofNat [(0x50 : UInt8), 0x00].length) 0 } = c
    have hop : c.opControl = s'.i2c.opControl := by
      rw [← hc, transmitWithCrc_eq _ (by decide), opControl_send]
    obtain ⟨hspot, hflags⟩ :
        c.spot = ⟨some ((k.enter state).hear (.withCrc [0x50, 0x00])).2, true⟩ ∧
        word c.flags &&& irq.TXE ≠ 0 := by
      rw [← hc, transmitWithCrc_eq _ (by decide), send]
      dsimp only
      rw [hfacing.hear]
      cases ((k.enter state).hear (.withCrc [0x50, 0x00])).1 with
      | none =>
        have htxe : word (0 ||| 0x08) &&& irq.TXE ≠ 0 := by decide
        exact ⟨rfl, htxe⟩
      | some answer =>
        have htxe : word (0 ||| 0x38) &&& irq.TXE ≠ 0 := by decide
        exact ⟨rfl, htxe⟩
    obtain ⟨p, hwait⟩ := waitIrq_eq hflags 4
    have hsent := sends_withCrc s' [0x50, 0x00] (do
      let _ ← lift (waitIrq irq.TXE 4)
      pure ())
    rw [nfcaHalt, lift_bind_ok (setFwtMs_eq 2 s'), lift_bind_ok (writeReg_eq 0x00 s'),
      lift_bind_ok (setRxCrcCheck_eq true s')]
    rw [show (2 : UInt16) = UInt16.ofNat [(0x50 : UInt8), 0x00].length from rfl, hsent, hc,
      lift_bind_ok hwait]
    exact ⟨hspot, hop⟩
  obtain ⟨state', hnext⟩ := (k.enter state).hear_enter (.withCrc [0x50, 0x00])
  rw [hnext] at hafter
  refine ⟨state', hheard.trans hafter, ?_⟩
  rcases hstate with ⟨woken, m, rfl⟩ | hrest
  · rw [Card.hear_halt (k := k.enter (.active woken m)) rfl] at hnext
    have hstate : CardState.halted = state' := congrArg Card.state hnext
    exact .inr hstate.symm
  · rw [hrest.hear_withCrc] at hnext
    have hsame : k.enter state = k.enter state' := hnext
    exact hsame ▸ hrest

/-! ## Polls -/

/-- Poll; a tag that is found is talked to, and put into HALT. -/
def visit (talk : List Say) (s : Reader σ) : Except (NfcError Empty) Sighting × Reader σ :=
  match nfcaPoll s with
  | (.ok (.tag t), s) => (.ok (.tag t), (nfcaHalt (talk.foldl say s)).2)
  | r => r

end St25r3916

/-! ## Cards that come and go -/

inductive FieldOp (σ : Type)
  | place (k : Card σ)
  | remove
  /-- The driver switches its field. -/
  | switch (on : Bool)
  | poll (talk : List St25r3916.Say)

namespace Field

open St25r3916 Aerial

variable {σ : Type}

/-- Put a card in front of the reader, or take it away. -/
def setPeer (s : Reader σ) (peer : Option (Card σ)) : Reader σ :=
  { s with i2c := { s.i2c with spot := { s.i2c.spot with peer } } }

def step (s : Reader σ) : FieldOp σ → Reader σ
  | .place k => setPeer s (some (k.enter .idle))
  | .remove => setPeer s none
  | .switch on => if on then (fieldOn s).2 else (fieldOff s).2
  | .poll talk => (visit talk s).2

/-- What the polls say. -/
def polled (s : Reader σ) : FieldOp σ → List (Except (NfcError Empty) Sighting)
  | .poll talk => [(visit talk s).1]
  | _ => []

/-- The card, and whether there is a field. -/
def present (p : Option NfcaTag × Bool) : FieldOp σ → Option NfcaTag × Bool
  | .place k => (some k.tag, p.2)
  | .remove => (none, p.2)
  | .switch on => (p.1, on)
  | .poll _ => p

def seen (p : Option NfcaTag × Bool) : FieldOp σ → List (Except (NfcError Empty) Sighting)
  | .poll _ =>
    match p with
    | (some t, true) => [.ok (.tag t)]
    | _ => [.ok .nothing]
  | _ => []

/-- Between two polls the card is at rest, and the chip knows whether its field is on. -/
structure Rests (s : Reader σ) : Prop where
  resting : ∀ k ∈ s.i2c.spot.peer, k.Resting
  coherent : Coherent s

def around (s : Reader σ) : Option NfcaTag × Bool := (s.i2c.spot.peer.map Card.tag, s.i2c.spot.lit)

theorem Rests.power {s s' : Reader σ} (h : Rests s) (hcoherent : Coherent s') {on : Bool}
    (hspot : s'.i2c.spot = s.i2c.spot.power on) :
    Rests s' ∧ around s' = ((around s).1, on) := by
  unfold around
  rw [hspot]
  by_cases hsame : s.i2c.spot.lit = on
  · rw [Spot.power_same hsame]
    refine ⟨⟨fun k hk => h.resting k ?_, hcoherent⟩, by rw [hsame]⟩
    rwa [hspot, Spot.power_same hsame] at hk
  · rw [Spot.power, if_neg hsame]
    refine ⟨⟨fun k hk => ?_, hcoherent⟩, ?_⟩
    · rw [hspot, Spot.power, if_neg hsame] at hk
      obtain ⟨k', -, rfl⟩ := Option.map_eq_some_iff.mp hk
      exact .inl rfl
    · rw [Option.map_map]
      rfl

/-- Frames leave the card at rest. -/
theorem Rests.heard {s s' : Reader σ} (h : Rests s) {k : Card σ} {state : CardState σ}
    (hfacing : Facing k s) (hheard : Heard ⟨some (k.enter state), true⟩ s s')
    (hrest : (k.enter state).Resting) : Rests s' ∧ around s' = around s := by
  refine ⟨⟨fun k' hk' => ?_, ?_⟩, ?_⟩
  · rw [hheard.spot] at hk'
    obtain rfl := Option.some.inj hk'
    exact hrest
  · rw [Coherent, hheard.spot, hheard.opControl, ← h.coherent, hfacing]
  · rw [around, around, hheard.spot, hfacing]
    rfl

/-- The UID that a tag carries. -/
def uidBytes (t : NfcaTag) : List UInt8 := t.uid.take t.uidLen.toNat

theorem uidBytes_tag (k : Card σ) : uidBytes k.tag = k.uid.bytes := by
  have hparts := k.uid.parts_le
  have hlen := k.uid.length_bytes
  have hcount : k.tag.uidLen.toNat = k.uid.bytes.length := by
    change (UInt8.ofNat k.uid.bytes.length).toNat = _
    rw [UInt8.toNat_ofNat']
    omega
  have huid : k.tag.uid = k.uid.bytes ++ (List.replicate 10 0).drop (0 + k.uid.bytes.length) := rfl
  rw [uidBytes, hcount, huid, List.take_left]

/-- Nothing in front of a reader whose field is off. -/
def dark : Reader σ where
  i2c := { spot := ⟨none, false⟩, regs := fun _ => 0, crc := fun _ => (0, 0) }

end Field

end PaperNamePlate
