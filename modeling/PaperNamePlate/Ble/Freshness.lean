import PaperNamePlate.App.Emulation
import PaperNamePlate.Ble.Handover

/-!
# What the CONTENT characteristic serves

The characteristic serves a text that is built at the start of the session and again
after a BLE text was applied. Images do not show in it; a reader's write that is
adopted during the session does, unless it leaves the text as it is.
-/
namespace PaperNamePlate

open Embedded

namespace App

variable {I F D : Type} [I2c I] [Flash F] [Panel D]

/-! ## Messages adopted by a tick -/

/-- The content after adopting a message, if there is one. -/
def adopting (c : PlateContent) (m : Option (List UInt8)) : PlateContent := m.elim c c.applyNdef

/-- The message that a poll makes the app adopt. -/
def pollAdopts (depth : Nat) (a : App I F D) : Option (List UInt8) :=
  match a.nfc with
  | none => none
  | some nfc =>
    match Target.update depth ⟨a.emu, nfc⟩ with
    | (.ok (.fieldOff true), t) => t.emu.ndef
    | _ => none

/-- Only the last poll of a slice adopts. -/
def pollsAdopt (depth : Nat) : Nat → App I F D → Option (List UInt8)
  | 0, _ => none
  | n + 1, a =>
    match a.pollSlice depth with
    | (true, a') => pollsAdopt depth n a'
    | (false, _) => a.pollAdopts depth

def sliceAdopts (depth : Nat) (watchdog : Bool) (polls : Nat) (a : App I F D) :
    Option (List UInt8) :=
  match a.enterSlice depth watchdog with
  | (true, a) => pollsAdopt depth polls a
  | (false, _) => none

/-- The message that a reader left on the tag and a tick adopts. -/
def tickAdopts (depth : Nat) (e : TickEnv I D) (a : App I F D) : Option (List UInt8) :=
  if a.emulate && a.wantsSlice e then a.sliceAdopts depth e.watchdog e.polls else none

omit [I2c I] in
theorem onTagWritten_content (a : App I F D) :
    a.onTagWritten.content = adopting a.content a.emu.ndef := by
  unfold onTagWritten
  cases a.emu.ndef with
  | none => exact (commitContent_eq _).1
  | some m => exact (commitContent_eq _).1

theorem pollSlice_content (depth : Nat) (a : App I F D) :
    (a.pollSlice depth).2.content = adopting a.content (a.pollAdopts depth) := by
  unfold pollSlice pollAdopts
  cases a.nfc with
  | none => rfl
  | some nfc =>
    dsimp only
    generalize Target.update depth ⟨a.emu, nfc⟩ = r
    obtain ⟨_ | event, t⟩ := r
    · rfl
    · cases event with
      | fieldOff written =>
        cases written with
        | true => exact onTagWritten_content (a.withTarget t)
        | false => rfl
      | none | fieldOn | selected => rfl

/-- A poll after which the slice goes on adopts nothing. -/
theorem pollAdopts_eq_none (depth : Nat) {a : App I F D} (h : (a.pollSlice depth).1 = true) :
    a.pollAdopts depth = none := by
  unfold pollSlice at h
  unfold pollAdopts
  cases hnfc : a.nfc with
  | none => rfl
  | some nfc =>
    simp only [hnfc] at h ⊢
    split
    · next heq => rw [heq] at h; cases h
    · rfl

theorem pollsSlice_content (depth n : Nat) (a : App I F D) :
    (a.pollsSlice depth n).content = adopting a.content (a.pollsAdopt depth n) := by
  induction n generalizing a with
  | zero => rfl
  | succ n ih =>
    have hpoll := a.pollSlice_content depth
    unfold pollsSlice pollsAdopt
    cases hgo : a.pollSlice depth with
    | mk go a' =>
      cases go with
      | true =>
        rw [pollAdopts_eq_none depth (by rw [hgo]), hgo] at hpoll
        have hsame : a'.content = a.content := hpoll
        dsimp only
        rw [ih, hsame]
      | false =>
        rw [hgo] at hpoll
        exact hpoll

omit [Flash F] [Panel D] in
theorem enterSlice_content (depth : Nat) (watchdog : Bool) (a : App I F D) :
    (a.enterSlice depth watchdog).2.content = a.content := by
  unfold enterSlice
  cases a.nfc with
  | none => rfl
  | some nfc =>
    have hstart : ∀ b : App I F D, b.content = a.content →
        (if (!b.emuRunning) = true then (false, b)
          else if watchdog = true then (false, { b with emuRunning := false })
          else (true, b)).2.content = a.content := by
      intro b hb
      split
      · exact hb
      · split <;> exact hb
    dsimp only
    refine hstart _ ?_
    split
    · rfl
    · split <;> rfl

theorem runEmulationSlice_content (depth : Nat) (watchdog : Bool) (n : Nat) (a : App I F D) :
    (a.runEmulationSlice depth watchdog n).content =
      adopting a.content (a.sliceAdopts depth watchdog n) := by
  have henter := a.enterSlice_content depth watchdog
  unfold runEmulationSlice sliceAdopts
  cases hgo : a.enterSlice depth watchdog with
  | mk go a' =>
    rw [hgo] at henter
    cases go with
    | true =>
      dsimp only at henter ⊢
      rw [pollsSlice_content, henter]
    | false => exact henter

omit [Flash F] [Panel D] in
theorem switchMode_content (a : App I F D) : a.switchMode.content = a.content := by
  have hstop : ∀ b : App I F D, b.stopEmulation.content = b.content := by
    intro b
    unfold stopEmulation
    split
    · rfl
    · split <;> rfl
  unfold switchMode
  dsimp only
  split
  · split <;> exact hstop _
  · rfl

omit [Flash F] [Panel D] in
theorem handleButtons_content (held : Bool) (a : App I F D) :
    (a.handleButtons held).content = a.content := by
  unfold handleButtons
  split
  · exact a.switchMode_content
  · rfl

omit [I2c I] [Flash F] in
theorem manageEpdSleep_content (idle : Bool) (a : App I F D) :
    (a.manageEpdSleep idle).content = a.content := by
  unfold manageEpdSleep
  split <;> rfl

omit [Flash F] [Panel D] in
theorem heartbeat_content (due : Bool) (a : App I F D) : (a.heartbeat due).content = a.content := by
  unfold heartbeat
  split <;> rfl

theorem tickNfc_content (depth : Nat) (e : TickEnv I D) (a : App I F D) :
    (a.tickNfc depth e).content = adopting a.content (a.tickAdopts depth e) := by
  unfold tickNfc tickAdopts
  cases a.emulate with
  | true =>
    simp only [if_true, Bool.true_and]
    split
    · exact a.runEmulationSlice_content depth e.watchdog e.polls
    · rfl
  | false =>
    simp only [Bool.false_eq_true, if_false, Bool.false_and]
    cases e.polled with
    | none => rfl
    | some p =>
      dsimp only [pollNfc]
      split <;> rfl

/-- A tick changes the content only by adopting a reader's message. -/
theorem tick_content (depth : Nat) (e : TickEnv I D) (a : App I F D) :
    (a.tick depth e).content = adopting a.content (a.tickAdopts depth e) := by
  unfold tick
  dsimp only
  rw [heartbeat_content, manageEpdSleep_content, ← a.tickNfc_content depth e]
  split
  · rw [switchMode_content, handleButtons_content]
  · rw [handleButtons_content]

omit [Flash F] in
theorem tickLight_content (e : TickEnv I D) (a : App I F D) :
    (a.tickLight e).content = a.content := by
  rw [tickLight, manageEpdSleep_content, handleButtons_content]

end App

namespace Session

variable {I F D : Type} [I2c I] [Flash F] [Panel D]

/-! ## The served text -/

/-- The CONTENT characteristic serves the text of the current content. -/
def Fresh (s : Session I F D) : Prop := s.contentText = utf8 s.app.content.toPlain

/-- GATT accesses are served. -/
def Serving (s : Session I F D) : Prop := ∃ i, s.phase = .pump i

/-- The message that a reader left on the tag and the step adopts. -/
def adopts (depth : Nat) (s : Session I F D) (e : SessionEnv I D) : Option (List UInt8) :=
  match s.phase with
  | .idle => if !e.bleActive && !s.ends e then s.app.tickAdopts depth e.toTickEnv else none
  | _ => none

/-- A message adopted by the step leaves the text of the content as it is. -/
def KeepsText (depth : Nat) (s : Session I F D) (e : SessionEnv I D) : Prop :=
  ∀ m ∈ s.adopts depth e, (s.app.content.applyNdef m).toPlain = s.app.content.toPlain

omit [I2c I] [Flash F] [Panel D] in
theorem finish_text (doze : Bool) (s : Session I F D) :
    (s.finish doze).contentText = s.contentText ∧
      (s.finish doze).app.content = s.app.content := by
  unfold finish
  split <;> exact ⟨rfl, rfl⟩

omit [I2c I] [Flash F] [Panel D] in
theorem pump_text (i : Nat) (e : SessionEnv I D) (s : Session I F D) :
    (s.pump i e).contentText = s.contentText ∧ (s.pump i e).app.content = s.app.content := by
  unfold pump
  dsimp only
  split
  · exact ⟨rfl, rfl⟩
  · split
    · exact finish_text _ _
    · exact ⟨rfl, rfl⟩
    · split
      · exact finish_text _ _
      · exact ⟨rfl, rfl⟩

omit [I2c I] in
theorem applyImage_fresh {s : Session I F D} (h : s.Fresh) : s.applyImage.2.Fresh := by
  unfold applyImage
  split
  · next img rx _ =>
    obtain ⟨image, himage⟩ := (App.onBleImage_eq img s.app).1
    rw [Fresh, himage]
    exact h
  · exact h

omit [I2c I] in
theorem applyText_fresh {s : Session I F D} (h : s.Fresh) : s.applyText.2.Fresh := by
  unfold applyText
  split
  · rfl
  · exact h

omit [I2c I] in
theorem applyClear_fresh {s : Session I F D} (h : s.Fresh) : s.applyClear.2.Fresh := by
  unfold applyClear
  split
  · rw [Fresh, App.onClearImage, (App.commitContent_eq _).1]
    exact h
  · exact h

omit [I2c I] in
/-- Applying an update keeps the served text fresh. -/
theorem applyDue_fresh {s : Session I F D} (h : s.Fresh) : s.applyDue.2.Fresh :=
  applyClear_fresh (applyText_fresh (applyImage_fresh h))

/-- The work between transfers adopts at most a reader's message, and then goes back to the pump. -/
theorem idle_text (depth : Nat) {s : Session I F D} (hphase : s.phase = .idle)
    (e : SessionEnv I D) :
    (s.idle depth e).contentText = s.contentText ∧
      (s.idle depth e).app.content = App.adopting s.app.content (s.adopts depth e) ∧
        (s.adopts depth e ≠ none → (s.idle depth e).Serving) := by
  unfold idle adopts ends
  rw [hphase]
  by_cases hactive : e.bleActive = true
  · simp [hactive, App.tickLight_content, App.adopting]
  · by_cases htest : s.rx.dozeTestReq = true
    · simp [hactive, htest, finish_text, App.adopting]
    · by_cases hdoze : (e.hciQuiet && s.app.shouldDoze e.quiet) = true
      · simp only [hactive, htest, hdoze]
        simp [finish_text, App.adopting]
      · simp only [hactive, htest, hdoze]
        simp [App.tick_content, Serving]

theorem adopting_toPlain_iff (c : PlateContent) (m : Option (List UInt8)) :
    (App.adopting c m).toPlain = c.toPlain ↔ ∀ m' ∈ m, (c.applyNdef m').toPlain = c.toPlain := by
  cases m <;> simp [App.adopting]

theorem step_fresh (depth : Nat) (s : Session I F D) (e : SessionEnv I D) (h : s.Fresh)
    (hkeeps : s.KeepsText depth e) : (s.step depth e).Fresh := by
  unfold step
  cases hphase : s.phase with
  | pump i =>
    obtain ⟨htext, hcontent⟩ := s.pump_text i e
    dsimp only
    rw [Fresh, htext, hcontent]
    exact h
  | apply => exact applyDue_fresh h
  | idle =>
    obtain ⟨htext, hcontent, -⟩ := idle_text depth hphase e
    dsimp only
    rw [Fresh, htext, hcontent, (adopting_toPlain_iff _ _).mpr hkeeps]
    exact h
  | ended doze => exact h

/-- Adopting another text is seen by the next read. -/
theorem step_stale (depth : Nat) (s : Session I F D) (e : SessionEnv I D) (h : s.Fresh)
    (hkeeps : ¬ s.KeepsText depth e) :
    (s.step depth e).Serving ∧ ¬ (s.step depth e).Fresh := by
  have hadopts : s.adopts depth e ≠ none := by
    intro hnone
    exact hkeeps (by simp [KeepsText, hnone])
  have hphase : s.phase = .idle := by
    unfold adopts at hadopts
    split at hadopts
    · assumption
    · exact absurd rfl hadopts
  obtain ⟨htext, hcontent, hserving⟩ := idle_text depth hphase e
  unfold step
  rw [hphase]
  dsimp only
  refine ⟨hserving hadopts, fun hfresh => hkeeps ?_⟩
  rw [Fresh, htext, hcontent, h] at hfresh
  exact (adopting_toPlain_iff _ _).mp (utf8_injective hfresh).symm

/-- Wherever GATT accesses are served, the CONTENT characteristic serves the current text, if and
only if every message adopted from a reader during the session leaves the text as it is. -/
theorem content_fresh_iff (depth : Nat) (app : App I F D) (es : List (SessionEnv I D)) :
    Always (step depth) (fun s => s.Serving → s.Fresh) (start app) es ↔
      EachStep (step depth) (KeepsText depth) (start app) es := by
  have hstart : (start app).Fresh := rfl
  refine always_iff_of_exposed (Q := fun s : Session I F D => s.Serving → s.Fresh) (fun _ h _ => h)
    (step_fresh depth) (fun s e h hk hq => ?_) hstart
  obtain ⟨hserving, hstale⟩ := step_stale depth s e h hk
  exact hstale (hq hserving)

/-- The plate boots in the field of a reader that writes an empty text record and leaves. -/
def rewritten : App Script Cells Unit :=
  let frames := [[0xA2, 0x04, 0x03, 0x05, 0xD1, 0x01], [0xA2, 0x05, 0x01, 0x54, 0x00, 0xFE]]
  App.boot (some { i2c := .session frames [some (0, 0x08, 0)] }) (fun _ => 0xFF) () false

/-- The reader's message is adopted, and the characteristic goes on serving the old text. -/
theorem content_stale_after_tag_write : ¬ ∀ es : List (SessionEnv Script Unit),
    Always (step 4) (fun s => s.Serving → s.Fresh) (start rewritten) es := by
  intro h
  obtain ⟨-, -, -, hlast⟩ := h [{}, {}, { polls := 5 }]
  have hfresh : _ = _ := hlast ⟨0, by decide +kernel⟩
  exact absurd hfresh (by decide +kernel)

end Session

end PaperNamePlate
