import PaperNamePlate.App.Reader
import PaperNamePlate.Ble.Freshness

/-!
# The device from one session to the next

A session ends in a new one or in deep sleep, from which the processor starts over:
only flash and the panel last. What one tick can do is said once: the NFC work leaves
content, flash and panel alone, up to a tag that was written or a new one in reader
mode.
-/
namespace PaperNamePlate

open Embedded

namespace App

/-! ## What a tick can do -/

section

variable {I F D : Type}

/-- Only the chip and the emulation may differ. -/
structure NfcOnly (a a' : App I F D) : Prop where
  content : a'.content = a.content
  imageInFlash : a'.imageInFlash = a.imageInFlash
  flash : a'.flash = a.flash
  panel : a'.panel = a.panel
  fastRefreshes : a'.fastRefreshes = a.fastRefreshes
  epdSleeping : a'.epdSleeping = a.epdSleeping
  dozeTest : a'.dozeTest = a.dozeTest

theorem NfcOnly.refl (a : App I F D) : NfcOnly a a := ⟨rfl, rfl, rfl, rfl, rfl, rfl, rfl⟩

theorem NfcOnly.trans {a b c : App I F D} (h : NfcOnly a b) (h' : NfcOnly b c) : NfcOnly a c :=
  ⟨h'.content.trans h.content, h'.imageInFlash.trans h.imageInFlash, h'.flash.trans h.flash,
    h'.panel.trans h.panel, h'.fastRefreshes.trans h.fastRefreshes,
    h'.epdSleeping.trans h.epdSleeping, h'.dozeTest.trans h.dozeTest⟩

theorem nfcOnly_of_eq {a : App I F D} {nfc : Option (St25r3916 I)} {emulate : Bool}
    {emu : T2tEmulator} {emuRunning : Bool} :
    NfcOnly a { a with nfc, emulate, emu, emuRunning } := ⟨rfl, rfl, rfl, rfl, rfl, rfl, rfl⟩

variable [I2c I]

theorem nfcOnly_stopEmulation (a : App I F D) : NfcOnly a a.stopEmulation := by
  unfold stopEmulation
  split
  · exact .refl a
  · split
    · exact nfcOnly_of_eq
    · exact .refl a

theorem nfcOnly_switchMode (a : App I F D) : NfcOnly a a.switchMode := by
  unfold switchMode
  dsimp only
  split
  · have hstop := nfcOnly_of_eq.trans (nfcOnly_stopEmulation { a with emulate := !a.emulate })
    split
    · exact hstop.trans nfcOnly_of_eq
    · exact hstop
  · exact nfcOnly_of_eq

theorem nfcOnly_handleButtons (held : Bool) (a : App I F D) : NfcOnly a (a.handleButtons held) := by
  unfold handleButtons
  split
  · exact a.nfcOnly_switchMode
  · exact .refl a

theorem nfcOnly_heartbeat (due : Bool) (a : App I F D) : NfcOnly a (a.heartbeat due) := by
  unfold heartbeat
  split
  · exact nfcOnly_of_eq
  · exact .refl a

theorem nfcOnly_enterSlice (depth : Nat) (watchdog : Bool) (a : App I F D) :
    NfcOnly a (a.enterSlice depth watchdog).2 := by
  unfold enterSlice
  cases a.nfc with
  | none => exact .refl a
  | some nfc =>
    have hstart : ∀ b : App I F D, NfcOnly a b →
        NfcOnly a (if (!b.emuRunning) = true then (false, b)
          else if watchdog = true then (false, { b with emuRunning := false })
          else (true, b)).2 := by
      intro b hb
      split
      · exact hb
      · split
        · exact hb.trans nfcOnly_of_eq
        · exact hb
    dsimp only
    refine hstart _ ?_
    split
    · exact .refl a
    · split <;> exact nfcOnly_of_eq

variable [Flash F] [Panel D]

/-- The message that the next poll adopts from a tag that was written; the inner `none` for an
erased one. -/
def pollWritten (depth : Nat) (a : App I F D) : Option (Option (List UInt8)) :=
  match a.nfc with
  | none => none
  | some nfc =>
    match Target.update depth ⟨a.emu, nfc⟩ with
    | (.ok (.fieldOff true), t) => some t.emu.ndef
    | _ => none

def pollsWritten (depth : Nat) : Nat → App I F D → Option (Option (List UInt8))
  | 0, _ => none
  | n + 1, a =>
    match a.pollSlice depth with
    | (true, a') => pollsWritten depth n a'
    | (false, _) => a.pollWritten depth

/-- The message that a tick adopts from a tag that was written. -/
def tickWritten (depth : Nat) (e : TickEnv I D) (a : App I F D) : Option (Option (List UInt8)) :=
  if a.emulate && a.wantsSlice e then
    match a.enterSlice depth e.watchdog with
    | (true, a') => pollsWritten depth e.polls a'
    | (false, _) => none
  else none

/-- What a slice can do: NFC work, and the adoption of what was written at its end. -/
inductive Emulated (a : App I F D) : Option (Option (List UInt8)) → App I F D → Prop
  | quiet {b : App I F D} (h : NfcOnly a b) : Emulated a none b
  | written {b : App I F D} (h : NfcOnly a b) : Emulated a (some b.emu.ndef) b.onTagWritten

omit [I2c I] in
theorem NfcOnly.emulated {a b c : App I F D} {w : Option (Option (List UInt8))} (h : NfcOnly a b)
    (h' : Emulated b w c) : Emulated a w c := by
  cases h' with
  | quiet h' => exact .quiet (h.trans h')
  | written h' => exact .written (h.trans h')

theorem emulated_pollSlice (depth : Nat) (a : App I F D) :
    (a.pollSlice depth).1 = true ∧ NfcOnly a (a.pollSlice depth).2 ∨
      (a.pollSlice depth).1 = false ∧
        Emulated a (a.pollWritten depth) (a.pollSlice depth).2 := by
  unfold pollSlice pollWritten
  cases a.nfc with
  | none => exact .inr ⟨rfl, .quiet (.refl a)⟩
  | some nfc =>
    dsimp only
    generalize Target.update depth ⟨a.emu, nfc⟩ = r
    obtain ⟨_ | event, t⟩ := r
    · exact .inr ⟨rfl, .quiet nfcOnly_of_eq⟩
    · cases event with
      | fieldOff written =>
        cases written with
        | true => exact .inr ⟨rfl, .written (b := a.withTarget t) nfcOnly_of_eq⟩
        | false => exact .inl ⟨rfl, nfcOnly_of_eq⟩
      | none | fieldOn | selected => exact .inl ⟨rfl, nfcOnly_of_eq⟩

theorem emulated_pollsSlice (depth n : Nat) (a : App I F D) :
    Emulated a (pollsWritten depth n a) (pollsSlice depth n a) := by
  induction n generalizing a with
  | zero => exact .quiet (.refl a)
  | succ n ih =>
    unfold pollsSlice pollsWritten
    rcases a.emulated_pollSlice depth with ⟨hgo, h⟩ | ⟨hstop, h⟩
    · rw [show a.pollSlice depth = (true, (a.pollSlice depth).2) from Prod.ext hgo rfl]
      exact h.emulated (ih _)
    · rw [show a.pollSlice depth = (false, (a.pollSlice depth).2) from Prod.ext hstop rfl]
      exact h

/-- The NFC part of a tick: a slice of the emulation, or a poll in reader mode. -/
theorem tickNfc_cases (depth : Nat) (e : TickEnv I D) (a : App I F D) :
    Emulated a (a.tickWritten depth e) (a.tickNfc depth e) ∨
      ∃ p, e.polled = some p ∧ a.emulate = false ∧ a.tickNfc depth e = a.pollNfc p := by
  unfold tickNfc tickWritten
  cases hmode : a.emulate with
  | true =>
    refine .inl ?_
    simp only [if_true, Bool.true_and]
    split
    · have henter := a.nfcOnly_enterSlice depth e.watchdog
      unfold runEmulationSlice
      generalize a.enterSlice depth e.watchdog = r at henter ⊢
      obtain ⟨_ | _, b⟩ := r
      · exact .quiet henter
      · exact henter.emulated (b.emulated_pollsSlice depth e.polls)
    · exact .quiet (.refl a)
  | false =>
    simp only [Bool.false_eq_true, if_false, Bool.false_and]
    cases e.polled with
    | none => exact .inl (.quiet (.refl a))
    | some p => exact .inr ⟨p, rfl, trivial, rfl⟩

/-- After the NFC part of a tick the panel may be put to sleep. -/
theorem tick_after (depth : Nat) (e : TickEnv I D) (a : App I F D) :
    ∃ b, NfcOnly (a.tickNfc depth e) b ∧
      NfcOnly (b.manageEpdSleep e.epdIdle) (a.tick depth e) := by
  unfold tick
  dsimp only
  refine ⟨_, ?_, nfcOnly_heartbeat _ _⟩
  split
  · exact (nfcOnly_handleButtons _ _).trans (nfcOnly_switchMode _)
  · exact nfcOnly_handleButtons _ _

end

end App

/-! ## Runs of the device -/

/-- What happens to the device: a step of the session, with what a poll in reader mode finds, or,
once the session has ended, what follows it. -/
inductive DeviceOp (I D T : Type)
  | step (e : SessionEnv I D) (poll : Option (TagPoll I T))
  | next (nfc : Option (St25r3916 I))

namespace Session

variable {I F D T : Type} [I2c I] [Flash F] [ReaderPanel D T]

/-- The environment of a step in which reader mode finds `poll`. -/
def polling (s : Session I F D) (e : SessionEnv I D) (poll : Option (TagPoll I T)) :
    SessionEnv I D :=
  { e with polled := poll.map s.app.polledBy }

def advance (depth : Nat) (s : Session I F D) : DeviceOp I D T → Session I F D
  | .step e poll => s.step depth (s.polling e poll)
  | .next nfc =>
    match s.phase with
    | .ended true => start (s.app.wake nfc)
    | .ended false => start s.app
    | _ => s

/-- The device after a reset. -/
def powerOn (nfc : Option (St25r3916 I)) (flash : F) (panel : D) : Session I F D :=
  start (App.boot nfc flash panel false)

end Session

end PaperNamePlate
