import PaperNamePlate.App.Reader
import PaperNamePlate.Nfc.PageStore

/-!
# Buttons and the touch panel

What the user does comes in as samples, one for each `tick`. A press of button A that is seen for
more than a second switches the mode, once; a touch toggles the front light. Both count as activity,
and the panel and the processor sleep only after a time without any.
-/
namespace PaperNamePlate

open Embedded

def EPD_IDLE_SLEEP_MS : Nat := 60000
def DOZE_AFTER_MS : Nat := 120000
def DOZE_MIN_UPTIME_MS : Nat := 60000

/-- What a `tick` sees of the pins. -/
structure Sample where
  /-- Milliseconds since the last one. -/
  after : Nat
  btnA : Bool
  btnB : Bool
  /-- The touch panel's interrupt line is low. -/
  tpInt : Bool
  /-- The fingers that a read of the touch panel finds; none if it fails. -/
  fingers : Option Nat
  /-- A tag, a reader or a transfer counts as activity. -/
  other : Bool

structure Controls where
  now : Nat := 0
  lastActivity : Nat := 0
  btnADown : Bool := false
  btnASince : Nat := 0
  btnAArmed : Bool := false
  touchDown : Bool := false
  frontlightOn : Bool := false

namespace Controls

def handleTouch (i : Sample) (c : Controls) : Controls :=
  -- Without a finger the bus is left alone, but a release is waited for.
  if !c.touchDown && !i.tpInt then c
  else
    match i.fingers with
    | some (_ + 1) =>
      if !c.touchDown then
        { c with touchDown := true, frontlightOn := !c.frontlightOn, lastActivity := c.now }
      else c
    | some 0 => { c with touchDown := false }
    | none => c

/-- Whether the mode is to be switched. -/
def handleButtons (i : Sample) (c : Controls) : Bool × Controls :=
  let down := i.btnA
  let c := if down || i.btnB then { c with lastActivity := c.now } else c
  let c := if down && !c.btnADown then { c with btnASince := c.now, btnAArmed := true } else c
  let held := down && c.btnADown && c.btnAArmed && decide (1000 < c.now - c.btnASince)
  let c := if held then { c with btnAArmed := false } else c
  (held, { c with btnADown := down })

/-- Time passes, and something may happen that counts as activity. -/
def advance (i : Sample) (c : Controls) : Controls :=
  let c := { c with now := c.now + i.after }
  if i.other then { c with lastActivity := c.now } else c

/-- The controls' part of a `tick`. -/
def sample (c : Controls) (i : Sample) : Bool × Controls :=
  ((c.advance i).handleTouch i).handleButtons i

def step (c : Controls) (i : Sample) : Controls := (c.sample i).2

/-- The panel may go to sleep. -/
def epdIdle (c : Controls) : Bool := EPD_IDLE_SLEEP_MS < c.now - c.lastActivity

/-- A USB host counts frames: the frame index changes within 4 ms. -/
def usbHostActive (frames : Nat × Nat) : Bool := frames.1 != frames.2

/-- What `shouldDoze` asks for besides the emulation being off; the processor was started at time
0. -/
def quiet (frames : Nat × Nat) (c : Controls) : Bool :=
  !c.touchDown && DOZE_MIN_UPTIME_MS < c.now && DOZE_AFTER_MS < c.now - c.lastActivity &&
    !usbHostActive frames

end Controls

/-! ## What the samples mean -/

/-- For how long button A has been held, if it is; the newest sample comes first. -/
def heldFor : List Sample → Option Nat
  | [] => none
  | i :: past => if i.btnA then some ((heldFor past).elim 0 (· + i.after)) else none

/-- With the newest sample the press has been held for more than a second. -/
def passesSecond : List Sample → Bool
  | [] => false
  | i :: past => (heldFor past).any fun d => d ≤ 1000 && i.btnA && 1000 < d + i.after

/-- Whether a finger is on the panel after a sample. -/
def fingerAfter (on : Bool) (i : Sample) : Bool :=
  if on || i.tpInt then
    match i.fingers with
    | some n => 0 < n
    | none => on
  else false

/-- A finger is on the panel: it was seen, and has not been seen to leave. -/
def fingerOn : List Sample → Bool
  | [] => false
  | i :: past => fingerAfter (fingerOn past) i

def touchBegins : List Sample → Bool
  | [] => false
  | i :: past => fingerOn (i :: past) && !fingerOn past

/-- The newest sample is activity. -/
def active : List Sample → Bool
  | [] => false
  | i :: past => i.other || touchBegins (i :: past) || i.btnA || i.btnB

/-- The time since the last activity. -/
def quietFor : List Sample → Nat
  | [] => 0
  | i :: past => if active (i :: past) then 0 else quietFor past + i.after

/-- The time since the start. -/
def uptime : List Sample → Nat
  | [] => 0
  | i :: past => uptime past + i.after

namespace Controls

theorem advance_eq (i : Sample) (c : Controls) :
    c.advance i =
      { c with
        now := c.now + i.after
        lastActivity := if i.other then c.now + i.after else c.lastActivity } := by
  unfold advance
  cases i.other <;> rfl

theorem handleTouch_eq (i : Sample) (c : Controls) :
    c.handleTouch i =
      { c with
        touchDown := fingerAfter c.touchDown i
        frontlightOn := c.frontlightOn ^^ (fingerAfter c.touchDown i && !c.touchDown)
        lastActivity := if fingerAfter c.touchDown i && !c.touchDown then c.now
          else c.lastActivity } := by
  obtain ⟨now, last, down, since, armed, touch, light⟩ := c
  unfold handleTouch fingerAfter
  rcases i.fingers with _ | _ | n <;> cases touch <;> cases i.tpInt <;> simp

theorem handleButtons_held (i : Sample) (c : Controls) :
    (c.handleButtons i).1 =
      (i.btnA && c.btnADown && c.btnAArmed && decide (1000 < c.now - c.btnASince)) := by
  obtain ⟨now, last, down, since, armed, touch, light⟩ := c
  unfold handleButtons
  cases i.btnA <;> cases i.btnB <;> cases down <;> rfl

theorem handleButtons_eq (i : Sample) (c : Controls) :
    (c.handleButtons i).2 =
      { c with
        lastActivity := if i.btnA || i.btnB then c.now else c.lastActivity
        btnADown := i.btnA
        btnASince := if i.btnA && !c.btnADown then c.now else c.btnASince
        btnAArmed := if i.btnA && !c.btnADown then true
          else c.btnAArmed && !(c.handleButtons i).1 } := by
  rw [handleButtons_held]
  obtain ⟨now, last, down, since, armed, touch, light⟩ := c
  unfold handleButtons
  cases i.btnA <;> cases i.btnB <;> cases down <;> cases armed <;>
    by_cases hlong : 1000 < now - since <;> simp [hlong]

/-- The state says of the samples what it is to say. -/
structure Knows (past : List Sample) (c : Controls) : Prop where
  now : c.now = uptime past
  last : c.lastActivity ≤ c.now
  quiet : c.now - c.lastActivity = quietFor past
  touch : c.touchDown = fingerOn past
  down : c.btnADown = (heldFor past).isSome
  press : ∀ d, heldFor past = some d → c.btnASince + d = c.now ∧ c.btnAArmed = decide (d ≤ 1000)

/-- For how long a press has been held when the button is down. -/
theorem heldFor_cons {i : Sample} (h : i.btnA = true) (past : List Sample) :
    heldFor (i :: past) = some ((heldFor past).elim 0 (· + i.after)) := if_pos h

theorem heldFor_up {i : Sample} (h : i.btnA = false) (past : List Sample) :
    heldFor (i :: past) = none :=
  if_neg (Bool.eq_false_iff.mp h)

/-- The state after a sample, and whether it switches the mode. -/
theorem Knows.sample_eq {past : List Sample} {c : Controls} (h : Knows past c) (i : Sample) :
    (c.sample i).1 = (i.btnA && c.btnADown && c.btnAArmed &&
        decide (1000 < c.now + i.after - c.btnASince)) ∧
      c.step i =
        { now := c.now + i.after
          lastActivity := if active (i :: past) then c.now + i.after else c.lastActivity
          btnADown := i.btnA
          btnASince := if i.btnA && !c.btnADown then c.now + i.after else c.btnASince
          btnAArmed := if i.btnA && !c.btnADown then true else c.btnAArmed && !(c.sample i).1
          touchDown := fingerOn (i :: past)
          frontlightOn := c.frontlightOn ^^ touchBegins (i :: past) } := by
  have hon : fingerAfter c.touchDown i = fingerOn (i :: past) := by rw [h.touch, fingerOn]
  have hbegins : touchBegins (i :: past) = (fingerOn (i :: past) && !c.touchDown) := by
    rw [h.touch]
    rfl
  have hactive : active (i :: past) = (i.other || touchBegins (i :: past) || i.btnA || i.btnB) :=
    rfl
  have hheld : (c.sample i).1 = (i.btnA && c.btnADown && c.btnAArmed &&
      decide (1000 < c.now + i.after - c.btnASince)) := by
    rw [sample, handleButtons_held, handleTouch_eq, advance_eq]
  refine ⟨hheld, ?_⟩
  rw [hheld, step, sample, handleButtons_eq, handleButtons_held, handleTouch_eq,
    advance_eq, hactive, hbegins]
  dsimp only
  rw [hon]
  cases i.btnA <;> cases i.btnB <;> cases i.other <;> cases fingerOn (i :: past) && !c.touchDown <;>
    rfl

theorem Knows.switches {past : List Sample} {c : Controls} (h : Knows past c) (i : Sample) :
    (c.sample i).1 = passesSecond (i :: past) := by
  rw [(h.sample_eq i).1, passesSecond, h.down]
  cases hpress : heldFor past with
  | none => simp
  | some d =>
    obtain ⟨hsince, harmed⟩ := h.press d hpress
    have hlong : c.now + i.after - c.btnASince = d + i.after := by omega
    rw [harmed, hlong]
    simp [Bool.and_comm]

/-- While the button is down, a press is timed from its first sample, and armed until a sample finds
that its second has passed. -/
theorem Knows.step_press {past : List Sample} {c : Controls} (h : Knows past c) {i : Sample}
    (hbtn : i.btnA = true) :
    (c.step i).btnASince + (heldFor past).elim 0 (· + i.after) = (c.step i).now ∧
      (c.step i).btnAArmed = decide ((heldFor past).elim 0 (· + i.after) ≤ 1000) := by
  rw [(h.sample_eq i).2, h.switches, passesSecond, h.down, hbtn]
  cases hpress : heldFor past with
  | none => exact ⟨rfl, rfl⟩
  | some d =>
    obtain ⟨hsince, harmed⟩ := h.press d hpress
    rw [harmed]
    constructor
    · simp only [Option.isSome_some, Bool.not_true, Bool.and_false, Bool.false_eq_true, if_false,
        Option.elim_some]
      omega
    · have hstill :
        (decide (d ≤ 1000) && !(decide (d ≤ 1000) && true && decide (1000 < d + i.after))) =
          decide (d + i.after ≤ 1000) := by
        rw [Bool.eq_iff_iff]
        simp only [Bool.and_true, Bool.and_eq_true, Bool.not_eq_true', decide_eq_true_eq,
          Bool.and_eq_false_iff, decide_eq_false_iff_not]
        omega
      exact hstill

theorem Knows.step {past : List Sample} {c : Controls} (h : Knows past c) (i : Sample) :
    Knows (i :: past) (c.step i) := by
  have hstep := (h.sample_eq i).2
  have hlast := h.last
  have hquiet := h.quiet
  constructor
  case now => rw [hstep, uptime, h.now]
  case last =>
    rw [hstep]
    dsimp only
    split <;> omega
  case quiet =>
    rw [hstep, quietFor]
    dsimp only
    split <;> omega
  case touch => rw [hstep]
  case down =>
    rw [hstep]
    cases hbtn : i.btnA with
    | true => rw [heldFor_cons hbtn]; rfl
    | false => rw [heldFor_up hbtn]; rfl
  case press =>
    intro d hd
    cases hbtn : i.btnA with
    | false =>
      rw [heldFor_up hbtn] at hd
      cases hd
    | true =>
      rw [heldFor_cons hbtn] at hd
      obtain rfl := Option.some.inj hd
      exact h.step_press hbtn

end Controls

/-- How often a sample was such that `p` holds of it and the samples before it. -/
def times (p : List Sample → Bool) : List Sample → Nat
  | [] => 0
  | i :: past => times p past + (p (i :: past)).toNat

theorem parity_times (b : Bool) (p : List Sample → Bool) (i : Sample) (past : List Sample) :
    (b ^^ decide (times p (i :: past) % 2 = 1)) =
      ((b ^^ decide (times p past % 2 = 1)) ^^ p (i :: past)) := by
  rw [times]
  cases p (i :: past) with
  | false => simp
  | true =>
    have hflip : decide ((times p past + true.toNat) % 2 = 1) = !decide (times p past % 2 = 1) := by
      rw [Bool.eq_iff_iff]
      simp only [Bool.toNat_true, decide_eq_true_eq, Bool.not_eq_true', decide_eq_false_iff_not]
      omega
    rw [hflip]
    simp

namespace App

variable {I F D : Type}

/-- Neither the mode nor the bench switch that alternates it has changed. -/
structure KeepsMode (a a' : App I F D) : Prop where
  emulate : a'.emulate = a.emulate
  autoAb : a'.autoAb = a.autoAb

theorem KeepsMode.refl (a : App I F D) : KeepsMode a a := ⟨rfl, rfl⟩

theorem KeepsMode.trans {a b c : App I F D} (h : KeepsMode a b) (h' : KeepsMode b c) :
    KeepsMode a c :=
  ⟨h'.emulate.trans h.emulate, h'.autoAb.trans h.autoAb⟩

section

variable [Flash F] [Panel D]

omit [Flash F] in
theorem keepsMode_epdRefreshLoop (mode : Epd.GrayMode) (n : Nat) (a : App I F D) :
    KeepsMode a (epdRefreshLoop mode n a).2 := by
  induction n generalizing a with
  | zero => exact .refl a
  | succ n ih =>
    unfold epdRefreshLoop
    split
    · exact ⟨rfl, rfl⟩
    · refine KeepsMode.trans ?_ (ih _)
      exact ⟨rfl, rfl⟩

theorem keepsMode_commitContent (a : App I F D) : KeepsMode a a.commitContent := by
  have hstored : KeepsMode a a.serve.persistImage := by
    obtain ⟨flash, b, hb⟩ := persistImage_eq a.serve
    rw [hb]
    exact ⟨rfl, rfl⟩
  have hwake : ∀ b : App I F D, KeepsMode b b.wakeEpd := by
    intro b
    unfold wakeEpd
    split <;> exact ⟨rfl, rfl⟩
  have hdraw : ∀ b : App I F D, KeepsMode b b.drawPlate := by
    intro b
    unfold drawPlate
    split <;> exact ⟨rfl, rfl⟩
  have hshow : ∀ b : App I F D, KeepsMode b (b.refreshDisplayed .text) := fun b =>
    (keepsMode_epdRefreshLoop .text 2 b).trans ⟨rfl, rfl⟩
  exact ((hstored.trans (hwake _)).trans (hdraw _)).trans (hshow _)

theorem keepsMode_onTagWritten (a : App I F D) : KeepsMode a a.onTagWritten := by
  unfold onTagWritten
  split
  · refine KeepsMode.trans ?_ (keepsMode_commitContent _)
    exact ⟨rfl, rfl⟩
  · exact keepsMode_commitContent a

variable [I2c I]

theorem keepsMode_pollSlice (depth : Nat) (a : App I F D) : KeepsMode a (a.pollSlice depth).2 := by
  unfold pollSlice
  split
  · exact .refl a
  · split
    · refine KeepsMode.trans ?_ (keepsMode_onTagWritten _)
      exact ⟨rfl, rfl⟩
    · exact ⟨rfl, rfl⟩
    · exact ⟨rfl, rfl⟩

theorem keepsMode_pollsSlice (depth n : Nat) (a : App I F D) :
    KeepsMode a (a.pollsSlice depth n) := by
  induction n generalizing a with
  | zero => exact .refl a
  | succ n ih =>
    have hpoll := a.keepsMode_pollSlice depth
    unfold pollsSlice
    split
    · next heq =>
      rw [heq] at hpoll
      exact hpoll.trans (ih _)
    · next heq =>
      rw [heq] at hpoll
      exact hpoll

omit [Flash F] [Panel D] in
theorem keepsMode_enterSlice (depth : Nat) (watchdog : Bool) (a : App I F D) :
    KeepsMode a (a.enterSlice depth watchdog).2 := by
  unfold enterSlice
  cases a.nfc with
  | none => exact .refl a
  | some nfc =>
    have hstart : ∀ b : App I F D, KeepsMode a b →
        KeepsMode a (if (!b.emuRunning) = true then (false, b)
          else if watchdog = true then (false, { b with emuRunning := false })
          else (true, b)).2 := by
      intro b hb
      split
      · exact hb
      · split <;> exact ⟨hb.emulate, hb.autoAb⟩
    dsimp only
    refine hstart _ ?_
    split
    · exact .refl a
    · split <;> exact ⟨rfl, rfl⟩

theorem keepsMode_tickNfc (depth : Nat) (e : TickEnv I D) (a : App I F D) :
    KeepsMode a (a.tickNfc depth e) := by
  unfold tickNfc
  split
  · split
    · have henter := a.keepsMode_enterSlice depth e.watchdog
      unfold runEmulationSlice
      split
      · next heq =>
        rw [heq] at henter
        exact henter.trans (keepsMode_pollsSlice depth e.polls _)
      · next heq =>
        rw [heq] at henter
        exact henter
    · exact .refl a
  · split
    · unfold pollNfc
      split <;> exact ⟨rfl, rfl⟩
    · exact .refl a

omit [Flash F] [Panel D] in
theorem switchMode_mode (a : App I F D) :
    a.switchMode.emulate = !a.emulate ∧ a.switchMode.autoAb = a.autoAb := by
  have hstop : ∀ b : App I F D, KeepsMode b b.stopEmulation := by
    intro b
    unfold stopEmulation
    split
    · exact .refl b
    · split <;> exact ⟨rfl, rfl⟩
  have hstopped := hstop { a with emulate := !a.emulate }
  unfold switchMode
  dsimp only
  split
  · split <;> exact ⟨hstopped.emulate, hstopped.autoAb⟩
  · exact ⟨rfl, rfl⟩

omit [Flash F] [Panel D] in
theorem handleButtons_mode (held : Bool) (a : App I F D) :
    (a.handleButtons held).emulate = (a.emulate ^^ held) ∧
      (a.handleButtons held).autoAb = a.autoAb := by
  unfold handleButtons
  cases held with
  | true => simpa using a.switchMode_mode
  | false => simp

omit [I2c I] [Flash F] in
theorem keepsMode_manageEpdSleep (idle : Bool) (a : App I F D) :
    KeepsMode a (a.manageEpdSleep idle) := by
  unfold manageEpdSleep
  split <;> exact ⟨rfl, rfl⟩

/-- A `tick` switches the mode exactly if the button says so. -/
theorem tick_mode (depth : Nat) (e : TickEnv I D) {a : App I F D} (h : a.autoAb = false) :
    (a.tick depth e).emulate = (a.emulate ^^ e.buttonHeld) ∧ (a.tick depth e).autoAb = false := by
  have hnfc := a.keepsMode_tickNfc depth e
  obtain ⟨hmode, hbench⟩ := (a.tickNfc depth e).handleButtons_mode e.buttonHeld
  rw [hnfc.emulate] at hmode
  rw [hnfc.autoAb, h] at hbench
  have hrest : ∀ b : App I F D,
      KeepsMode b ((b.manageEpdSleep e.epdIdle).heartbeat e.heartbeat) := by
    intro b
    refine (b.keepsMode_manageEpdSleep e.epdIdle).trans ?_
    unfold heartbeat
    split <;> exact ⟨rfl, rfl⟩
  unfold tick
  dsimp only
  rw [hbench, Bool.false_and, if_neg (by simp)]
  exact ⟨(hrest _).emulate.trans hmode, (hrest _).autoAb.trans hbench⟩

omit [Flash F] in
theorem tickLight_mode (e : TickEnv I D) {a : App I F D} (h : a.autoAb = false) :
    (a.tickLight e).emulate = (a.emulate ^^ e.buttonHeld) ∧ (a.tickLight e).autoAb = false := by
  obtain ⟨hmode, hbench⟩ := a.handleButtons_mode e.buttonHeld
  have hsleep := (a.handleButtons e.buttonHeld).keepsMode_manageEpdSleep e.epdIdle
  exact ⟨hsleep.emulate.trans hmode, hsleep.autoAb.trans (hbench.trans h)⟩

end

end App

/-! ## Runs -/

/-- The app with the controls that it reads. -/
structure Console (I F D : Type) where
  app : App I F D
  controls : Controls := {}

/-- A pass of the main loop: a `tick`, or a `tick_light` while a central is active. -/
structure Turn (I D : Type) where
  light : Bool := false
  env : App.TickEnv I D := {}
  seen : Sample

namespace Console

variable {I F D : Type}

/-- What the samples up to now have come to. -/
structure Obeys (a : App I F D) (past : List Sample) (s : Console I F D) : Prop where
  knows : Controls.Knows past s.controls
  autoAb : s.app.autoAb = false
  mode : s.app.emulate = (a.emulate ^^ decide (times passesSecond past % 2 = 1))
  light : s.controls.frontlightOn = decide (times touchBegins past % 2 = 1)

variable [Flash F] [Panel D] [I2c I]

def step (depth : Nat) (s : Console I F D) (x : Turn I D) : Console I F D :=
  let (held, controls) := s.controls.sample x.seen
  let e := { x.env with buttonHeld := held, epdIdle := controls.epdIdle }
  { app := if x.light then s.app.tickLight e else s.app.tick depth e, controls }

theorem Obeys.step {a : App I F D} {past : List Sample} {s : Console I F D} (h : Obeys a past s)
    (depth : Nat) (x : Turn I D) : Obeys a (x.seen :: past) (s.step depth x) := by
  have hheld := h.knows.switches x.seen
  have hlight : (s.controls.step x.seen).frontlightOn =
      (s.controls.frontlightOn ^^ touchBegins (x.seen :: past)) := by
    rw [(h.knows.sample_eq x.seen).2]
  have hmode : (s.step depth x).app.emulate = (s.app.emulate ^^ (s.controls.sample x.seen).1) ∧
      (s.step depth x).app.autoAb = false := by
    unfold Console.step
    dsimp only
    split
    · exact App.tickLight_mode _ h.autoAb
    · exact App.tick_mode depth _ h.autoAb
  refine ⟨h.knows.step x.seen, hmode.2, ?_, ?_⟩
  · rw [parity_times, ← h.mode, ← hheld]
    exact hmode.1
  · have hparity := parity_times false touchBegins x.seen past
    rw [Bool.false_xor, Bool.false_xor, ← h.light] at hparity
    exact hlight.trans hparity.symm

/-- A board without the NFC chip. -/
def bare : Console QuietBus Cells Unit where
  app := { nfc := none, flash := fun _ => 0xFF, panel := () }

end Console

end PaperNamePlate
