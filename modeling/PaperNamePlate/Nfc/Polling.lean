import PaperNamePlate.Lib.Triple
import PaperNamePlate.Nfc.T2tEmu

/-!
# What a poll sees, and what it does about it

`update` reads the interrupt flags and the registers that go with them, and then
acts on the one thing that it found. `look` is the first half and `react` the
second one, so that facts about polls can be stated in terms of what was seen.
-/
namespace PaperNamePlate

open Embedded

/-- What a poll finds. -/
inductive Sight
  | nothing
  /-- A field, in `off`. -/
  | field
  /-- The end of the field. -/
  | lost
  /-- A frame in `idle` or `halt`. -/
  | stray
  /-- The end of a frame that the chip answered itself, with its PT state. -/
  | pta (display : UInt8)
  /-- The activation of the tag, in `ready`. -/
  | wake
  /-- A frame in `active` with errors, or too short or too long. -/
  | bad (bytes : UInt16)
  | frame (rx : List UInt8)

/-- What can be seen in a state. -/
def Sight.fits : EmuState → Sight → Prop
  | _, .nothing => True
  | s, .field => s = .off
  | s, .lost => s ≠ .off
  | s, .stray | s, .pta _ => s = .idle ∨ s = .halt
  | s, .wake => s = .ready
  | s, .bad _ | s, .frame _ => s = .active

namespace Target

variable {I : Type} [I2c I]

open St25r3916

def lookOff : Emu I Sight := do
  let f ← chip (takeIrq irq.EON)
  let present ← (if f ≠ 0 then pure true else fieldPresent)
  if present then pure .field else pure .nothing

def lookIdle : Emu I Sight := do
  let f ← chip (takeIrq (irq.NFCT ||| irq.RXE ||| irq.EOF ||| irq.RXE_PTA))
  Prog.when (f &&& irq.NFCT ≠ 0) readBitrate
  let e ← getEmu
  if f &&& irq.EOF ≠ 0 then pure .lost
  else if f &&& irq.RXE ≠ 0 then pure .stray
  else if f &&& irq.RXE_PTA ≠ 0 ∧ e.bitrate106 then do
    let v ← chip (readReg reg.PT_DISPLAY)
    pure (.pta v)
  else pure .nothing

def lookReady : Emu I Sight := do
  let e ← getEmu
  let wake := if e.wakeup then irq.WU_AX else irq.WU_A
  let f ← chip (takeIrq (irq.EOF ||| wake))
  if f &&& irq.EOF ≠ 0 then pure .lost
  else if f &&& wake ≠ 0 then pure .wake
  else pure .nothing

def lookActive : Emu I Sight := do
  let f ← chip (takeIrq (irq.EOF ||| irq.RXE))
  if f &&& irq.EOF ≠ 0 then pure .lost
  else if f &&& irq.RXE ≠ 0 then do
    let errs ← chip (takeIrq irq.ERROR_MASK)
    let (bytes, _) ← chip fifoStatus
    if errs ≠ 0 ∨ bytes ≤ 2 ∨ bytes > 64 then pure (.bad bytes)
    else do
      let rx ← chip (readFifo (bytes.toNat - 2))
      pure (.frame rx.toList)
  else pure .nothing

def lookIn : EmuState → Emu I Sight
  | .off => lookOff
  | .idle | .halt => lookIdle
  | .ready => lookReady
  | .active => lookActive

def look : Emu I Sight := do
  let e ← getEmu
  lookIn e.state

/-- Throw a frame away in `idle` or `halt`. -/
def discard : Emu I Unit := do
  let e ← getEmu
  let _ ← chip (takeIrq irq.ERROR_MASK)
  let (bytes, _) ← chip fifoStatus
  let _ ← chip (readFifo (min bytes.toNat 4))
  chip (command cmd.CLEAR_FIFO)
  chip (command cmd.UNMASK_RECEIVE_DATA)
  Prog.when (e.state = .idle) (chip (modifyReg reg.OP_CONTROL op.TX_EN 0))

/-- Throw a frame away in `active`. -/
def drop (depth : Nat) (bytes : UInt16) : Emu I Unit := do
  let _ ← chip (readFifo (min bytes.toNat 4))
  chip (command cmd.CLEAR_FIFO)
  chip (command cmd.UNMASK_RECEIVE_DATA)
  backToListening depth

def serve (depth : Nat) (rx : List UInt8) : Emu I Unit := do
  setEmu fun e => { e with commands := e.commands + 1, lastCmd := rx.headD 0 }
  match ← handleCommand rx with
  | .stay => pure ()
  | .halt => gotoHalt depth
  | .drop => backToListening depth

def approach (depth : Nat) (display : UInt8) : Emu I Unit := do
  let e ← getEmu
  Prog.when (display &&& 0x0F > (if e.state = .halt then 0x09 else 0x01)) do
    setEmu fun e => { e with wakeup := e.state = .halt }
    gotoReady depth

def react (depth : Nat) : Sight → Emu I Unit
  | .nothing => pure ()
  | .field => do
    setEmu fun e => { e with commands := 0 }
    gotoIdle depth
  | .lost => gotoOff depth
  | .stray => discard
  | .pta display => approach depth display
  | .wake => gotoActive
  | .bad bytes => drop depth bytes
  | .frame rx => serve depth rx

/-- The chip's answer does not touch the emulator. -/
theorem chip_bind_eq {α β : Type} (p : Access I α) (f : α → Emu I β) (t : Target I) :
    (chip p >>= f) t =
      match p t.nfc with
      | (.ok a, nfc) => f a { t with nfc }
      | (.error e, nfc) => (.error (.error e), { t with nfc }) := by
  rw [Prog.bind_eq, chip, Prog.mapError, onNfc, Prog.zoom]
  rcases p t.nfc with ⟨_ | a, nfc⟩ <;> rfl

theorem chip_bind_ok {α β : Type} {p : Access I α} {t : Target I} {a : α} {nfc : St25r3916 I}
    (h : p t.nfc = (.ok a, nfc)) (f : α → Emu I β) : (chip p >>= f) t = f a { t with nfc } := by
  rw [chip_bind_eq, h]

theorem chip_bind_error {α β : Type} {p : Access I α} {t : Target I} {e : I2c.Error I}
    {nfc : St25r3916 I} (h : p t.nfc = (.error e, nfc)) (f : α → Emu I β) :
    (chip p >>= f) t = (.error (.error e), { t with nfc }) := by
  rw [chip_bind_eq, h]

theorem getEmu_bind_eq {β : Type} (f : T2tEmulator → Emu I β) (t : Target I) :
    (getEmu >>= f) t = f t.emu t := rfl

theorem updateOff_eq (depth : Nat) :
    (updateOff depth : Emu I Unit) = lookOff >>= react depth := by
  simp only [updateOff, lookOff, bind_assoc]
  congr 1
  funext f
  congr 1
  funext present
  cases present <;> rfl

theorem updateReady_eq (depth : Nat) :
    (updateReady depth : Emu I Unit) = lookReady >>= react depth := by
  simp only [updateReady, lookReady, bind_assoc]
  congr 1
  funext e
  generalize (if e.wakeup then irq.WU_AX else irq.WU_A) = wake
  congr 1
  funext f
  split
  · rfl
  · split <;> rfl

theorem updateActive_eq (depth : Nat) :
    (updateActive depth : Emu I Unit) = lookActive >>= react depth := by
  simp only [updateActive, lookActive, bind_assoc]
  congr 1
  funext f
  split
  · rfl
  · split
    · simp only [bind_assoc]
      congr 1
      funext errs
      congr 1
      funext status
      split
      · rfl
      · simp only [bind_assoc, pure_bind]
        rfl
    · rfl

theorem updateIdle_eq (depth : Nat) :
    (updateIdle depth : Emu I Unit) = lookIdle >>= react depth := by
  simp only [updateIdle, lookIdle, bind_assoc]
  congr 1
  funext f
  congr 1
  funext u
  -- `discard` and `approach` read the emulator again
  funext t
  rw [getEmu_bind_eq, getEmu_bind_eq]
  split
  · rfl
  · split
    · rfl
    · split
      · simp only [bind_assoc, pure_bind, chip_bind_eq]
        rcases readReg reg.PT_DISPLAY t.nfc with ⟨_ | v, nfc⟩ <;> rfl
      · rfl

/-- A poll looks, and then it acts. -/
theorem drive_eq (depth : Nat) : (drive depth : Emu I Unit) = look >>= react depth := by
  simp only [drive, look, bind_assoc]
  congr 1
  funext e
  cases e.state
  · exact updateOff_eq depth
  · exact updateIdle_eq depth
  · exact updateReady_eq depth
  · exact updateActive_eq depth
  · exact updateIdle_eq depth

/-! ## Looking -/

/-- State and wake-up flag are untouched. -/
def SameMode (t t' : Target I) : Prop :=
  t'.emu.state = t.emu.state ∧ t'.emu.wakeup = t.emu.wakeup

instance : IsPreorder (Target I) SameMode where
  refl _ := ⟨rfl, rfl⟩
  trans _ _ _ h h' := ⟨h'.1.trans h.1, h'.2.trans h.2⟩

open Prog (Keeps)

theorem keepsMode_chip {α : Type} (p : Access I α) : Keeps SameMode (chip p) :=
  Keeps.mapError (Keeps.zoom (R := fun _ _ => True) (fun _ => trivial) fun _ _ _ => ⟨rfl, rfl⟩)

theorem keepsMode_getEmu : Keeps SameMode (getEmu : Emu I T2tEmulator) :=
  Keeps.get.bind fun t => Keeps.pure t.emu

theorem keepsMode_fieldPresent : Keeps SameMode (fieldPresent : Emu I Bool) :=
  (keepsMode_chip _).bind fun _ => Keeps.pure _

theorem keepsMode_readBitrate : Keeps SameMode (readBitrate : Emu I Unit) :=
  (keepsMode_chip _).bind fun _ => Keeps.modify fun _ => ⟨rfl, rfl⟩

theorem keepsMode_look : Keeps SameMode (look : Emu I Sight) := by
  refine keepsMode_getEmu.bind fun e => ?_
  have hidle : Keeps SameMode (lookIdle : Emu I Sight) := by
    refine (keepsMode_chip _).bind fun _ => (Keeps.when keepsMode_readBitrate).bind fun _ =>
      (keepsMode_getEmu (I := I)).bind fun _ => ?_
    refine Keeps.ite (Keeps.pure _) (Keeps.ite (Keeps.pure _) (Keeps.ite ?_ (Keeps.pure _)))
    exact (keepsMode_chip _).bind fun _ => Keeps.pure _
  change Keeps SameMode (lookIn e.state : Emu I Sight)
  cases e.state with
  | off =>
    refine (keepsMode_chip _).bind fun _ => Keeps.bind ?_ fun _ => Keeps.ite (Keeps.pure _)
      (Keeps.pure _)
    exact Keeps.ite (Keeps.pure _) keepsMode_fieldPresent
  | idle => exact hidle
  | halt => exact hidle
  | ready =>
    exact (keepsMode_getEmu (I := I)).bind fun _ => (keepsMode_chip _).bind fun _ =>
      Keeps.ite (Keeps.pure _) (Keeps.ite (Keeps.pure _) (Keeps.pure _))
  | active =>
    refine (keepsMode_chip _).bind fun _ => Keeps.ite (Keeps.pure _) (Keeps.ite ?_ (Keeps.pure _))
    refine (keepsMode_chip _).bind fun _ => (keepsMode_chip _).bind fun _ =>
      Keeps.ite (Keeps.pure _) ?_
    exact (keepsMode_chip _).bind fun _ => Keeps.pure _

theorem keepsMode_discard : Keeps SameMode (discard : Emu I Unit) := by
  refine (keepsMode_getEmu (I := I)).bind fun e => ?_
  iterate 5 refine (keepsMode_chip _).bind fun _ => ?_
  exact Keeps.when (keepsMode_chip _)

open Prog (Triple)

theorem lookIdle_fits {st : EmuState} (h : st = .idle ∨ st = .halt) :
    Triple (fun _ => True) (lookIdle : Emu I Sight) (fun s _ => s.fits st) fun _ => True := by
  have hne : st ≠ .off := by
    rintro rfl
    simp at h
  refine Triple.after fun f => Triple.after fun _ => Triple.after fun e => ?_
  refine Triple.ite (fun _ => .pure _ fun _ _ => hne) fun _ => ?_
  refine Triple.ite (fun _ => .pure _ fun _ _ => h) fun _ => ?_
  refine Triple.ite (fun _ => ?_) fun _ => .pure _ fun _ _ => trivial
  exact Triple.after fun v => .pure _ fun _ _ => h

theorem lookIn_fits (st : EmuState) :
    Triple (fun _ => True) (lookIn st : Emu I Sight) (fun s _ => s.fits st) fun _ => True := by
  cases st with
  | off =>
    refine Triple.after fun f => Triple.after fun present => ?_
    exact Triple.ite (fun _ => .pure _ fun _ _ => rfl) fun _ => .pure _ fun _ _ => trivial
  | idle => exact lookIdle_fits (.inl rfl)
  | halt => exact lookIdle_fits (.inr rfl)
  | ready =>
    refine Triple.after fun e => Triple.after fun f => ?_
    refine Triple.ite (fun _ => .pure _ fun _ _ h => by cases h) fun _ => ?_
    exact Triple.ite (fun _ => .pure _ fun _ _ => rfl) fun _ => .pure _ fun _ _ => trivial
  | active =>
    refine Triple.after fun f => ?_
    refine Triple.ite (fun _ => .pure _ fun _ _ h => by cases h) fun _ => ?_
    refine Triple.ite (fun _ => ?_) fun _ => .pure _ fun _ _ => trivial
    refine Triple.after fun errs => Triple.after fun status => ?_
    refine Triple.ite (fun _ => .pure _ fun _ _ => rfl) fun _ => ?_
    exact Triple.after fun rx => .pure _ fun _ _ => rfl

theorem look_fits {t t' : Target I} {s : Sight} (h : look t = (.ok s, t')) :
    s.fits t.emu.state :=
  (lookIn_fits t.emu.state).ok trivial h

theorem look_mode {t t' : Target I} {r : Except (Fault (I2c.Error I)) Sight}
    (h : look t = (r, t')) : SameMode t t' := by
  have hkeep := keepsMode_look t
  rwa [h] at hkeep

/-- The frame that an update passes to the command handler. -/
def handed (t : Target I) : Option (List UInt8) :=
  match look t with
  | (.ok (.frame rx), _) => some rx
  | _ => none

theorem handed_eq {t t' : Target I} {rx : List UInt8} (h : look t = (.ok (.frame rx), t')) :
    handed t = some rx := by
  rw [handed, h]

theorem active_of_handed {t : Target I} {rx : List UInt8} (h : handed t = some rx) :
    t.emu.state = .active := by
  unfold handed at h
  split at h
  · next hlook => exact look_fits hlook
  · cases h

end Target

end PaperNamePlate
