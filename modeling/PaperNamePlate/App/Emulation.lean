import PaperNamePlate.App.Serving

/-!
# Reader writes under the app

The main loop's work as a machine of small steps: entering and leaving a slice of the
tag emulation, its polls, the mode switch, and whatever else runs between slices. A
slice is entered anew after an error, after the watchdog and after reader mode, and
then the emulator is started again, which forgets a pending write.
-/
namespace PaperNamePlate

open Embedded

/-- The app, and whether a slice is polling the emulator. -/
structure Slicing (I F D : Type) where
  app : App I F D
  inSlice : Bool := false

/-- A step of the main loop. -/
inductive EmuOp (I D : Type)
  | enter (watchdog : Bool)
  | poll
  | leave
  | pollNfc (p : App.Polled I D)
  | switchMode
  | sleepPanel (idle : Bool)
  | heartbeat (due : Bool)
  | bleContent (text : List UInt8)
  | bleImage (img : MonoImage)
  | clearImage

namespace Slicing

variable {I F D : Type} [I2c I] [Flash F] [Panel D]

/-- Between slices everything may happen, in reader mode everything but a slice; within a slice only
its polls and its end. -/
def step (depth : Nat) (s : Slicing I F D) (op : EmuOp I D) : Slicing I F D :=
  if s.inSlice then
    match op with
    | .poll => let (go, a) := s.app.pollSlice depth; ⟨a, go⟩
    | .leave => ⟨s.app, false⟩
    | _ => s
  else
    match op with
    | .enter watchdog =>
      if s.app.emulate then let (go, a) := s.app.enterSlice depth watchdog; ⟨a, go⟩ else s
    | .poll | .leave => s
    | .pollNfc p => if s.app.emulate then s else ⟨s.app.pollNfc p, false⟩
    | .switchMode => ⟨s.app.switchMode, false⟩
    | .sleepPanel idle => ⟨s.app.manageEpdSleep idle, false⟩
    | .heartbeat due => ⟨s.app.heartbeat due, false⟩
    | .bleContent text => ⟨s.app.onBleContent text, false⟩
    | .bleImage img => ⟨s.app.onBleImage img, false⟩
    | .clearImage => ⟨s.app.onClearImage, false⟩

/-! ## The main loop takes these steps -/

theorem run_outside (depth n : Nat) (a : App I F D) :
    run (step depth) ⟨a, false⟩ (List.replicate n .poll ++ [.leave]) = ⟨a, false⟩ := by
  induction n with
  | zero => rfl
  | succ n ih => exact ih

theorem run_polls (depth n : Nat) (a : App I F D) :
    run (step depth) ⟨a, true⟩ (List.replicate n .poll ++ [.leave]) =
      ⟨a.pollsSlice depth n, false⟩ := by
  induction n generalizing a with
  | zero => rfl
  | succ n ih =>
    rw [List.replicate_succ, List.cons_append, run_cons]
    simp only [step, if_true, App.pollsSlice]
    rcases a.pollSlice depth with ⟨_ | _, a'⟩
    · exact run_outside depth n a'
    · exact ih a'

/-- A slice is its entry, its polls and its end. -/
theorem run_slice (depth : Nat) (watchdog : Bool) (n : Nat) (a : App I F D) (h : a.emulate = true) :
    run (step depth) ⟨a, false⟩ (.enter watchdog :: (List.replicate n .poll ++ [.leave])) =
      ⟨a.runEmulationSlice depth watchdog n, false⟩ := by
  rw [run_cons]
  simp only [step, Bool.false_eq_true, if_false, h, if_true, App.runEmulationSlice]
  rcases a.enterSlice depth watchdog with ⟨_ | _, a'⟩
  · exact run_outside depth n a'
  · exact run_polls depth n a'

theorem run_switch (depth : Nat) (held : Bool) (a : App I F D) :
    run (step depth) ⟨a, false⟩ (if held then [.switchMode] else []) =
      ⟨a.handleButtons held, false⟩ := by
  cases held <;> rfl

theorem run_tickNfc (depth : Nat) (e : App.TickEnv I D) (a : App I F D) :
    ∃ ops, run (step depth) ⟨a, false⟩ ops = ⟨a.tickNfc depth e, false⟩ := by
  unfold App.tickNfc
  split
  · next h =>
    split
    · exact ⟨_, run_slice depth e.watchdog e.polls a h⟩
    · exact ⟨[], rfl⟩
  · next h =>
    cases e.polled with
    | none => exact ⟨[], rfl⟩
    | some p => exact ⟨[.pollNfc p], by simp [step, h]⟩

/-- Every iteration of the main loop is a run of small steps. -/
theorem run_tick (depth : Nat) (e : App.TickEnv I D) (a : App I F D) :
    ∃ ops, run (step depth) ⟨a, false⟩ ops = ⟨a.tick depth e, false⟩ := by
  obtain ⟨ops, hops⟩ := run_tickNfc depth e a
  have hauto : ∀ b : App I F D, run (step depth) ⟨b, false⟩
      (if b.autoAb && e.autoDue then [.switchMode] else []) =
        ⟨if b.autoAb && e.autoDue then b.switchMode else b, false⟩ := by
    intro b
    split <;> rfl
  refine ⟨ops ++ ((if e.buttonHeld then [.switchMode] else []) ++
    ((if ((a.tickNfc depth e).handleButtons e.buttonHeld).autoAb && e.autoDue then
      [.switchMode] else []) ++ [.sleepPanel e.epdIdle, .heartbeat e.heartbeat])), ?_⟩
  rw [run_append, hops, run_append, run_switch, run_append, hauto]
  rfl

/-! ## Pending writes -/

/-- A reader has written to the user area, and the write is not adopted yet. -/
def Pending (s : Slicing I F D) : Prop := s.app.emu.dirty = true

instance (s : Slicing I F D) : Decidable s.Pending := inferInstanceAs (Decidable (_ = true))

/-- A slice is entered while the emulator is not running, which starts it again. -/
def Restarts (s : Slicing I F D) (op : EmuOp I D) : Prop :=
  s.inSlice = false ∧ (∃ watchdog, op = .enter watchdog) ∧ s.app.emulate = true ∧
    s.app.nfc.isSome = true ∧ s.app.emuRunning = false

/-- A poll reports the end of the field with a write, and the app adopts the tag's memory. -/
def Adopts (depth : Nat) (s : Slicing I F D) (op : EmuOp I D) : Prop :=
  s.inSlice = true ∧ op = .poll ∧ ∃ nfc t, s.app.nfc = some nfc ∧
    Target.update depth ⟨s.app.emu, nfc⟩ = (.ok (.fieldOff true), t) ∧
      (s.step depth op).app = (s.app.withTarget t).onTagWritten

end Slicing

namespace App

variable {I F D : Type} [I2c I] [Flash F] [Panel D]

omit [Flash F] [Panel D] in
theorem stopEmulation_dirty (a : App I F D) : a.stopEmulation.emu.dirty = a.emu.dirty := by
  unfold stopEmulation
  split
  · rfl
  · next nfc _ =>
    split
    · exact (Target.keeps_stop ⟨a.emu, nfc⟩).2
    · rfl

omit [Flash F] [Panel D] in
theorem switchMode_dirty (a : App I F D) : a.switchMode.emu.dirty = a.emu.dirty := by
  have hstop := stopEmulation_dirty { a with emulate := !a.emulate }
  unfold switchMode
  dsimp only
  split
  · split <;> exact hstop
  · rfl

omit [I2c I] in
theorem commitContent_dirty (a : App I F D) : a.commitContent.emu.dirty = a.emu.dirty := by
  rw [(commitContent_eq a).2, T2tEmulator.setNdef_dirty]

omit [I2c I] in
theorem onBleContent_dirty (text : List UInt8) (a : App I F D) :
    (a.onBleContent text).emu.dirty = a.emu.dirty := by
  unfold onBleContent
  split
  · exact commitContent_dirty _
  · rfl

omit [I2c I] in
theorem onBleImage_dirty (img : MonoImage) (a : App I F D) :
    (a.onBleImage img).emu.dirty = a.emu.dirty := by
  rw [(onBleImage_eq img a).2, T2tEmulator.setNdef_dirty]

omit [Flash F] [Panel D] in
/-- Entering a slice while the emulator is running does not touch it. -/
theorem enterSlice_emu (depth : Nat) (watchdog : Bool) (a : App I F D)
    (h : a.nfc.isSome = true → a.emuRunning = true) :
    (a.enterSlice depth watchdog).2.emu = a.emu := by
  unfold enterSlice
  split
  · rfl
  · next nfc hnfc =>
    have hrun : a.emuRunning = true := h (by rw [hnfc]; rfl)
    simp only [hrun, if_true]
    split
    · rfl
    · split <;> rfl

/-- A poll that clears a pending write reports it, and the app adopts it. -/
theorem pollSlice_dirty (depth : Nat) (a : App I F D) (hd : a.emu.dirty = true)
    (hd' : (a.pollSlice depth).2.emu.dirty ≠ true) :
    ∃ nfc t, a.nfc = some nfc ∧ Target.update depth ⟨a.emu, nfc⟩ = (.ok (.fieldOff true), t) ∧
      (a.pollSlice depth).2 = (a.withTarget t).onTagWritten := by
  unfold pollSlice at hd' ⊢
  cases hnfc : a.nfc with
  | none => simp only [hnfc] at hd'; exact absurd hd hd'
  | some nfc =>
    have hupdate := Target.update_dirty depth ⟨a.emu, nfc⟩ hd
    simp only [hnfc] at hd' ⊢
    generalize hr : Target.update depth ⟨a.emu, nfc⟩ = r at hd' hupdate ⊢
    refine ⟨nfc, r.2, rfl, ?_⟩
    split at hd'
    · next t => exact ⟨hr, rfl⟩
    · next event t hother =>
      have hreport := hupdate (by simpa [withTarget] using hd')
      have hevent : event = .fieldOff true := by simpa using hreport
      subst hevent
      exact (hother rfl).elim
    · next e t =>
      have hreport := hupdate (by simpa [withTarget] using hd')
      cases hreport

end App

namespace Slicing

variable {I F D : Type} [I2c I] [Flash F] [Panel D]

/-- The step lemma: short of a restart, only an adopting poll ends a pending write. -/
theorem step_pending (depth : Nat) (s : Slicing I F D) (op : EmuOp I D)
    (hrestart : ¬ (s.Restarts op ∧ s.Pending)) (hp : s.Pending)
    (hp' : ¬ (s.step depth op).Pending) :
    s.Adopts depth op := by
  have hno : ¬ s.Restarts op := fun hr => hrestart ⟨hr, hp⟩
  have hsame : (s.step depth op).app.emu.dirty = s.app.emu.dirty → s.Adopts depth op :=
    fun h => absurd (h.trans hp) hp'
  cases hin : s.inSlice with
  | true =>
    cases op with
    | poll =>
      simp only [Pending, step, hin, if_true] at hp'
      obtain ⟨nfc, t, hnfc, hup, happ⟩ := App.pollSlice_dirty depth s.app hp hp'
      exact ⟨hin, rfl, nfc, t, hnfc, hup, by simp only [step, hin, if_true]; exact happ⟩
    | _ => exact hsame (by simp only [step, hin, if_true])
  | false =>
    simp only [step, hin, Bool.false_eq_true, if_false] at hsame
    cases op with
    | enter watchdog =>
      refine hsame ?_
      dsimp only
      split
      · next hemu =>
        rw [App.enterSlice_emu]
        intro hnfc
        by_contra hrun
        exact hno ⟨hin, ⟨watchdog, rfl⟩, hemu, hnfc, by simpa using hrun⟩
      · rfl
    | poll | leave => exact hsame rfl
    | pollNfc p =>
      refine hsame ?_
      dsimp only [App.pollNfc]
      split
      · rfl
      · split <;> rfl
    | switchMode => exact hsame (App.switchMode_dirty s.app)
    | sleepPanel idle =>
      refine hsame ?_
      dsimp only [App.manageEpdSleep]
      split <;> rfl
    | heartbeat due =>
      refine hsame ?_
      dsimp only [App.heartbeat]
      split <;> rfl
    | bleContent text => exact hsame (App.onBleContent_dirty text s.app)
    | bleImage img => exact hsame (App.onBleImage_dirty img s.app)
    | clearImage => exact hsame (App.commitContent_dirty _)

/-- In a run that never restarts the emulator over a pending write, such a write ends only in a poll
that reports it and makes the app adopt it; until then it stays pending. -/
theorem write_adopted (depth : Nat) (s : Slicing I F D) (ops : List (EmuOp I D))
    (h : EachStep (step depth) (fun s op => ¬ (s.Restarts op ∧ s.Pending)) s ops) :
    EachStep (step depth)
        (fun s op => s.Pending → ¬ (s.step depth op).Pending → s.Adopts depth op) s ops ∧
      (s.Pending → Always (step depth) Pending s ops ∨
        ∃ js op, js ++ [op] <+: ops ∧ Always (step depth) Pending s js ∧
          (run (step depth) s js).Adopts depth op) := by
  have heach := h.mono fun s op hr => step_pending depth s op hr
  exact ⟨heach, fun hp => always_or_exit hp heach⟩

end Slicing

/-! ## A reader at the plate -/

/-- A chip in a reader's field: the main, timer and target flags that each reading of the interrupt
registers gives, `none` for a bus error, and the frames received. The field ends with the flags. -/
structure Script where
  irqs : List (Option (UInt8 × UInt8 × UInt8))
  frames : List (List UInt8)

namespace Script

/-- What reading a register gives. -/
def answer (s : Script) (r : UInt8) : List UInt8 :=
  let (mn, timer, target) := (s.irqs.head?.join).getD (0, 0, 0)
  if r = reg.IRQ_MAIN then [mn, timer]
  else if r = reg.IRQ_TARGET then [target]
  else if r = reg.OP_CONTROL then [op.EN]
  else if r = reg.AUX_DISPLAY then [if s.irqs.isEmpty then 0x10 else 0x50]
  else if r = reg.IC_IDENTITY then [0x2A]
  else if r = reg.PT_DISPLAY then [0x02]
  else if r = reg.FIFO_STATUS1 then [UInt8.ofNat ((s.frames.headD []).length + 2)]
  else []

def padded (bs : List UInt8) (n : Nat) : Vector UInt8 n :=
  ⟨((List.range n).map fun i => bs.getD i 0).toArray, by simp⟩

instance : I2c Script where
  Error := Unit
  write s _ _ := (.ok (), s)
  transaction s _ _ := (.ok (), s)
  writeRead s _ command n :=
    match command with
    | [0x9F] => (.ok (padded (s.frames.headD []) n), { s with frames := s.frames.tail })
    | [r] =>
      let r := r &&& 0x3F
      if r = reg.IRQ_ERROR_WUP ∧ s.irqs.head? = some none then
        (.error (), { s with irqs := s.irqs.tail })
      else
        (.ok (padded (s.answer r) n),
          if r = reg.IRQ_TARGET then { s with irqs := s.irqs.tail } else s)
    | _ => (.ok (padded [] n), s)

/-- The reader activates the tag and sends the frames, and then come the flags `rest`. -/
def session (frames : List (List UInt8)) (rest : List (Option (UInt8 × UInt8 × UInt8))) :
    Script where
  irqs :=
    [some (0, 0x01, 0x10), some (0, 0, 0), some (0, 0, 0x01), some (0, 0, 0)] ++
      frames.flatMap (fun _ => [some (0x10, 0, 0), some (0, 0, 0)]) ++ rest
  frames := frames

end Script

namespace Slicing

/-- A plate that boots in the field of a reader. -/
def inField (s : Script) : Slicing Script Cells Unit :=
  ⟨App.boot (some { i2c := s }) (fun _ => 0xFF) () false, false⟩

/-- A reader writes page 4. -/
def writePage4 : List UInt8 := [0xA2, 0x04, 0x03, 0x05, 0xD1, 0x01]

/-- The reader writes page 4 and removes the field: the write is adopted. -/
theorem write_adopted_page4 :
    EachStep (step 4) (fun s op => s.Pending → ¬ (s.step 4 op).Pending → s.Adopts 4 op)
        (inField (.session [writePage4] [some (0, 0x08, 0)]))
        [.enter false, .poll, .poll, .poll, .poll] ∧
      ((inField (.session [writePage4] [some (0, 0x08, 0)])).Pending →
        Always (step 4) Pending (inField (.session [writePage4] [some (0, 0x08, 0)]))
            [.enter false, .poll, .poll, .poll, .poll] ∨
          ∃ js op, js ++ [op] <+: [.enter false, .poll, .poll, .poll, .poll] ∧
            Always (step 4) Pending (inField (.session [writePage4] [some (0, 0x08, 0)])) js ∧
            (run (step 4) (inField (.session [writePage4] [some (0, 0x08, 0)])) js).Adopts 4
              op) := by
  have hpoll : ∀ s : Slicing Script Cells Unit, ¬ (s.Restarts .poll ∧ s.Pending) := by
    rintro s ⟨⟨-, ⟨w, hw⟩, -⟩, -⟩
    cases hw
  exact write_adopted 4 _ _ ⟨fun h => absurd h.2 (by decide +kernel), hpoll _, hpoll _, hpoll _,
    hpoll _, trivial⟩

/-- The reader writes page 4, a register access fails, and the next slice starts the emulator again
over the write. -/
theorem write_forgotten : ¬ EachStep (step 4)
    (fun s op => s.Pending → ¬ (s.step 4 op).Pending → s.Adopts 4 op)
    (inField (.session [writePage4] [none]))
    [.enter false, .poll, .poll, .poll, .poll, .enter false] := by
  rintro ⟨-, -, -, -, -, hlast, -⟩
  have hadopts := hlast (by decide +kernel) (by decide +kernel)
  exact absurd hadopts.1 (by decide +kernel)

end Slicing

end PaperNamePlate
