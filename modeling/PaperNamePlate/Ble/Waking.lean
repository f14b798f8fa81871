import PaperNamePlate.App.Paper
import PaperNamePlate.Ble.Pictures
import PaperNamePlate.Nfc.PageStore

/-!
# Deep sleep and what is on the glass

The device goes to deep sleep without looking at what was drawn last. The plate is on the glass
as the next boot restores it, as long as no tag was drawn over it since the last commit, and
the content committed is one that a message gives back.
-/
namespace PaperNamePlate

open Embedded

/-- Whether a text is accepted does not depend on the content. -/
theorem PlateContent.isOk_applyPlain (c : PlateContent) (text : Str) :
    (c.applyPlain text).isOk = (PlateContent.applyPlain {} text).isOk := by
  unfold applyPlain
  dsimp only
  split
  · rfl
  · split <;> rfl

/-- The app commits what it is handed: any image and any removal, and a text that it accepts. -/
def BleUpdate.commits : BleUpdate → Bool
  | .text bs => (PlateContent.applyPlain {} (lossy bs)).isOk
  | .image _ | .clear => true

namespace Session

variable {I F D T : Type} [I2c I] [Flash F] [Panel D]

/-- The step commits a content. -/
def commits (depth : Nat) (s : Session I F D) (e : SessionEnv I D) : Bool :=
  match s.phase with
  | .apply => s.applyDue.1.any BleUpdate.commits
  | .idle => !e.bleActive && !s.ends e && (s.app.tickWritten depth e.toTickEnv).isSome
  | _ => false

/-- The step draws the panel of a new tag. -/
def drawsTag (s : Session I F D) (e : SessionEnv I D) (poll : Option (TagPoll I T)) : Bool :=
  match s.phase with
  | .idle =>
    !e.bleActive && !s.ends e && !s.app.emulate && s.app.nfc.isSome && poll.any (·.newTag.isSome)
  | _ => false

end Session

/-- The device, the content of the last commit, and whether a tag was drawn after it. -/
structure Waking (I F Face : Type) where
  session : Session I F (Paper Face)
  committed : Option PlateContent := none
  tagOver : Bool := false

namespace Waking

variable {I F Face T : Type} [I2c I] [Flash F] [Drawing Face T]

/-- The device after a reset, with anything on the glass. -/
def powerOn (nfc : Option (St25r3916 I)) (flash : F) (panel : Paper Face) : Waking I F Face :=
  { session := Session.powerOn nfc flash panel }

def advance (depth : Nat) (w : Waking I F Face) (op : DeviceOp I (Paper Face) T) :
    Waking I F Face :=
  let s := w.session.advance depth op
  match op with
  | .step e poll =>
    if w.session.commits depth (w.session.polling e poll) then
      { session := s, committed := some s.app.content, tagOver := false }
    else { w with session := s, tagOver := w.tagOver || w.session.drawsTag e poll }
  | .next _ => { w with session := s }

/-- In deep sleep, and not for the bench test. -/
def Asleep (w : Waking I F Face) : Prop :=
  w.session.phase = .ended true ∧ w.session.app.dozeTest = false

/-- No tag is drawn over the plate, and the content of the last commit comes back from its
message. -/
structure Settled (w : Waking I F Face) : Prop where
  tagOver : w.tagOver = false
  committed : ∀ c ∈ w.committed, c.Restorable

end Waking

/-! ## Steps of the app -/

namespace App

variable {I F Face T : Type} [Flash F] [Drawing Face T]

theorem NfcOnly.shows {p : Prop} {a a' : App I F (Paper Face)} (h : NfcOnly a a') (ha : a.Shows p) :
    a'.Shows p :=
  ha.same h.content h.imageInFlash h.flash (congrArg _ h.panel)

variable [I2c I] (laws : FlashLaws F) (hwrite : WritesSucceed F)

include laws hwrite

/-- A tick that adopts what a reader wrote has it on the glass; another one leaves the plate there
unless it draws a tag. -/
theorem Shows.tick {p q : Prop} {a : App I F (Paper Face)} (h : a.Shows p) (depth : Nat)
    (e : TickEnv I (Paper Face)) (hqp : q → p)
    (hpolled : a.emulate = false → ∀ r ∈ e.polled, (a.pollNfc r).Shows q) :
    (a.tick depth e).Shows
      (if (a.tickWritten depth e).isSome then (a.tick depth e).content.Restorable else q) := by
  have hnfc : (a.tickNfc depth e).Shows
      (if (a.tickWritten depth e).isSome then (a.tickNfc depth e).content.Restorable else q) := by
    rcases a.tickNfc_cases depth e with hslice | ⟨r, hr, hmode, heq⟩
    · generalize a.tickWritten depth e = w at hslice ⊢
      generalize a.tickNfc depth e = b at hslice ⊢
      cases hslice with
      | quiet hb => exact (hb.shows h).mono hqp
      | written hb => exact (hb.shows h).kept.shows_onTagWritten laws hwrite
    · have hnone : a.tickWritten depth e = none := by simp [tickWritten, hmode]
      rw [hnone, heq]
      exact hpolled hmode r hr
  obtain ⟨b, hb, hrest⟩ := a.tick_after depth e
  have hcontent : (a.tick depth e).content = (a.tickNfc depth e).content := by
    rw [hrest.content, manageEpdSleep_content, hb.content]
  rw [hcontent]
  exact hrest.shows ((hb.shows hnfc).manageEpdSleep e.epdIdle)

end App

/-! ## Steps of a session -/

namespace Session

variable {I F Face T : Type} [Flash F] [Drawing Face T]

/-- What `p` has become once `us` were handed to the app. -/
def after (p : Prop) (us : List BleUpdate) (a : App I F (Paper Face)) : Prop :=
  if us.any BleUpdate.commits then a.content.Restorable else p

/-- The app after `us`: whatever is committed is on the glass, and what is not leaves the app as it
is. -/
structure Applied (p : Prop) (a : App I F (Paper Face)) (us : List BleUpdate)
    (a' : App I F (Paper Face)) : Prop where
  shows : a'.Shows (after p us a')
  same : us.any BleUpdate.commits = false → a' = a

omit [Flash F] [Drawing Face T] in
theorem after_append {p : Prop} {us vs : List BleUpdate} {a a' : App I F (Paper Face)}
    (hsame : vs.any BleUpdate.commits = false → a' = a) :
    after p (us ++ vs) a' ↔ after (after p us a) vs a' := by
  unfold after
  rw [List.any_append]
  cases hvs : vs.any BleUpdate.commits with
  | true => simp
  | false => simp [hsame hvs]

theorem Applied.append {p : Prop} {a b c : App I F (Paper Face)} {us vs : List BleUpdate}
    (h : Applied p a us b) (h' : Applied (after p us b) b vs c) : Applied p a (us ++ vs) c where
  shows := h'.shows.mono (after_append h'.same).mp
  same hnone := by
    rw [List.any_append, Bool.or_eq_false_iff] at hnone
    rw [h'.same hnone.2, h.same hnone.1]

theorem Applied.none {p : Prop} {a : App I F (Paper Face)} (h : a.Shows p) : Applied p a [] a :=
  ⟨h, fun _ => rfl⟩

variable (laws : FlashLaws F) (hwrite : WritesSucceed F)

include laws hwrite

theorem applied_image {p : Prop} {s : Session I F (Paper Face)} (hrx : s.rx.Sound)
    (h : s.app.Shows p) : Applied p s.app s.applyImage.1 s.applyImage.2.app := by
  unfold applyImage
  rcases s.rx.takeImage_cases with heq | ⟨img, hdone, -, heq⟩
  · rw [heq]
    exact .none h
  · rw [heq]
    exact ⟨App.shows_onBleImage laws hwrite (hrx.done img hdone) s.app, fun h => (nomatch h)⟩

theorem applied_text {p : Prop} {s : Session I F (Paper Face)} (h : s.app.Shows p) :
    Applied p s.app s.applyText.1 s.applyText.2.app := by
  unfold applyText
  split
  · next text rx _ =>
    have haccept := s.app.content.isOk_applyPlain (lossy text)
    cases hc : s.app.content.applyPlain (lossy text) with
    | ok c =>
      rw [hc] at haccept
      have hcommits : [BleUpdate.text text].any BleUpdate.commits = true := by
        rw [List.any_cons, List.any_nil, Bool.or_false]
        exact haccept.symm
      refine ⟨?_, fun hnone => absurd (hcommits.symm.trans hnone) nofun⟩
      rw [after, if_pos hcommits]
      exact h.kept.shows_onBleContent laws hwrite hc
    | error e =>
      rw [hc] at haccept
      have hsame : s.app.onBleContent text = s.app := by simp only [App.onBleContent, hc]
      have hrefused : [BleUpdate.text text].any BleUpdate.commits = false := by
        rw [List.any_cons, List.any_nil, Bool.or_false]
        exact haccept.symm
      dsimp only
      rw [hsame]
      refine ⟨?_, fun _ => rfl⟩
      rw [after, hrefused]
      exact h
  · exact .none h

theorem applied_clear {p : Prop} {s : Session I F (Paper Face)} (h : s.app.Shows p) :
    Applied p s.app s.applyClear.1 s.applyClear.2.app := by
  unfold applyClear
  split
  · exact ⟨App.shows_onClearImage laws hwrite s.app, fun h => (nomatch h)⟩
  · exact .none h

theorem applied_due {p : Prop} {s : Session I F (Paper Face)} (hrx : s.rx.Sound)
    (h : s.app.Shows p) : Applied p s.app s.applyDue.1 s.applyDue.2.app := by
  have himage := applied_image laws hwrite hrx h
  have htext := applied_text laws hwrite himage.shows
  have hboth := himage.append htext
  exact hboth.append (applied_clear laws hwrite hboth.shows)

omit [Flash F] [Drawing Face T] laws hwrite in
theorem finish_app (doze : Bool) (s : Session I F (Paper Face)) :
    ∃ dozeTest, (s.finish doze).app = { s.app with dozeTest } := by
  unfold finish
  split <;> exact ⟨_, rfl⟩

variable [I2c I]

omit laws hwrite in
/-- Between transfers: light work, the end of the session, or a tick. -/
theorem idle_cases (depth : Nat) {s : Session I F (Paper Face)} (hphase : s.phase = .idle)
    (e : SessionEnv I (Paper Face)) :
    e.bleActive = true ∧ (s.idle depth e).app = s.app.tickLight e.toTickEnv ∨
      e.bleActive = false ∧ s.ends e = true ∧
        (∃ dozeTest, (s.idle depth e).app = { s.app with dozeTest }) ∨
      e.bleActive = false ∧ s.ends e = false ∧
        (s.idle depth e).app = s.app.tick depth e.toTickEnv := by
  unfold idle ends
  rw [hphase]
  cases e.bleActive with
  | true => exact .inl ⟨rfl, rfl⟩
  | false =>
    cases s.rx.dozeTestReq with
    | true => exact .inr (.inl ⟨rfl, rfl, finish_app true s⟩)
    | false =>
      cases e.hciQuiet && s.app.shouldDoze e.quiet with
      | true => exact .inr (.inl ⟨rfl, rfl, finish_app true s⟩)
      | false => exact .inr (.inr ⟨rfl, rfl, rfl⟩)

/-- Every step of a session. -/
theorem shows_step {p : Prop} (depth : Nat) {s : Session I F (Paper Face)} (hrx : s.rx.Sound)
    (h : s.app.Shows p) (e : SessionEnv I (Paper Face)) (poll : Option (TagPoll I T)) :
    (s.step depth (s.polling e poll)).app.Shows
      (if s.commits depth (s.polling e poll) then
        (s.step depth (s.polling e poll)).app.content.Restorable
      else p ∧ s.drawsTag e poll = false) := by
  unfold step commits drawsTag
  cases hphase : s.phase with
  | pump i =>
    obtain ⟨doze, hdoze⟩ := s.pump_app i (s.polling e poll)
    dsimp only
    rw [hdoze, if_neg Bool.false_ne_true]
    exact App.Shows.mono (App.Shows.same h rfl rfl rfl rfl) And.left
  | apply =>
    obtain ⟨hshows, -⟩ := applied_due laws hwrite hrx h
    refine hshows.mono fun hp => ?_
    unfold after
    dsimp only at hp ⊢
    split
    · next hany => rwa [if_pos hany] at hp
    · next hany =>
      rw [if_neg hany] at hp
      exact hp.1
  | idle =>
    have hends : s.ends (s.polling e poll) = s.ends e := rfl
    have hactive : (s.polling e poll).bleActive = e.bleActive := rfl
    dsimp only
    rcases idle_cases depth hphase (s.polling e poll) with ⟨hble, heq⟩ | ⟨hble, hend, doze, heq⟩ |
      ⟨hble, hend, heq⟩
    · rw [heq, hble, ← hactive, hble]
      have hlight :=
        ((App.nfcOnly_handleButtons e.buttonHeld s.app).shows h).manageEpdSleep e.epdIdle
      exact hlight.mono And.left
    · rw [heq, hble, hend, ← hends, hend, ← hactive, hble]
      exact App.Shows.mono (App.Shows.same h rfl rfl rfl rfl) And.left
    · rw [heq, hble, hend, ← hends, hend, ← hactive, hble]
      refine h.tick laws hwrite depth _ And.left fun hmode r hr => ?_
      obtain ⟨found, hfound, rfl⟩ := Option.map_eq_some_iff.mp hr
      refine (h.polled found).mono fun hp => ⟨hp.1, fun hboth => ?_⟩
      have hdraws := hp.2
      rw [hmode, hboth.1, hfound, Option.any_some, hboth.2] at hdraws
      cases hdraws
  | ended doze => exact h.mono And.left

end Session

namespace Waking

variable {I F Face T : Type} [I2c I] [Flash F] [Drawing Face T]

/-- The receiver and the app, in every state of a run. -/
structure Shown (w : Waking I F Face) : Prop where
  rx : w.session.rx.Sound
  app : w.session.app.Shows w.Settled

variable (laws : FlashLaws F) (hwrite : WritesSucceed F)

include laws hwrite

theorem Shown.advance {w : Waking I F Face} (h : w.Shown) (depth : Nat)
    (op : DeviceOp I (Paper Face) T) : (w.advance depth op).Shown := by
  cases op with
  | step e poll =>
    have hstep := Session.shows_step laws hwrite depth h.rx h.app e poll
    have hrx := Session.step_sound depth h.rx (w.session.polling e poll)
    unfold Waking.advance
    dsimp only
    cases hcommits : w.session.commits depth (w.session.polling e poll) with
    | true =>
      rw [hcommits] at hstep
      exact ⟨hrx, hstep.mono fun hs => hs.committed _ rfl⟩
    | false =>
      rw [hcommits] at hstep
      refine ⟨hrx, hstep.mono fun hs => ?_⟩
      have hover := Bool.or_eq_false_iff.mp hs.tagOver
      exact ⟨⟨hover.1, hs.committed⟩, hover.2⟩
  | next nfc =>
    unfold Waking.advance Session.advance
    dsimp only
    split
    · exact ⟨ImgRx.sound_default, (h.app.wake laws nfc).mono fun hs => ⟨hs.tagOver, hs.committed⟩⟩
    · exact ⟨ImgRx.sound_default, h.app.mono fun hs => ⟨hs.tagOver, hs.committed⟩⟩
    · exact ⟨h.rx, h.app.mono fun hs => ⟨hs.tagOver, hs.committed⟩⟩

/-- In every run without a failure: whenever the device sleeps with no tag drawn since the last
commit, and the content of that commit comes back from its message, the glass shows the plate that
the next boot restores, and a boot out of deep sleep takes just this to be displayed. -/
theorem awaits_asleep (depth : Nat) (nfc : Option (St25r3916 I)) (flash : F) (panel : Paper Face)
    (ops : List (DeviceOp I (Paper Face) T)) :
    Always (Waking.advance depth) (fun w => w.Asleep → w.Settled → w.session.app.Awaits)
      (powerOn nfc flash panel) ops := by
  have hstart : (powerOn nfc flash panel : Waking I F Face).Shown := by
    obtain ⟨hkept, hsaved, hrendered, hpanel⟩ := App.boot_paper laws nfc flash panel false
    refine ⟨ImgRx.sound_default, hkept, fun _ => hsaved, fun _ => ?_⟩
    change (App.boot nfc flash panel false).panel.glass = _
    rw [hpanel]
    exact congrArg _ hrendered.symm
  have hrun : Always (Waking.advance depth) Shown _ ops :=
    always_of_invariant (P := Shown) (fun w op hw => hw.advance laws hwrite depth op) hstart ops
  exact hrun.mono fun w hw _ hs => hw.app.awaits laws hs

end Waking

/-! ## A board that draws sketches -/

/-- A picture by what was drawn. -/
inductive Sketch
  | blank
  | plate (c : PlateContent)
  | tag (uid : String) (under : Sketch)
  | update (fb displayed glass : Sketch)
  | note (fb displayed : Sketch)

instance : Drawing Sketch String where
  blank := .blank
  plate := .plate
  tag := .tag
  update := .update
  note := .note

def Sketch.isPlate : Sketch → Bool
  | .plate _ => true
  | _ => false

namespace Waking

/-- The board with erased flash. -/
def board : Waking QuietBus Cells Sketch :=
  powerOn (some { i2c := .quiet }) (fun _ => 0xFF) ⟨.blank, .blank, .blank⟩

/-- One pass through the loop with nothing over BLE. -/
def pass (e : SessionEnv QuietBus (Paper Sketch)) (poll : Option (TagPoll QuietBus String)) :
    List (DeviceOp QuietBus (Paper Sketch) String) :=
  [.step {} none, .step {} none, .step e poll]

/-- The image is cleared over BLE, and the device falls asleep. -/
def cleared : List (DeviceOp QuietBus (Paper Sketch) String) :=
  .step { hciReady := true, work := .didWork [.ctrl [0x06]] } none :: pass {} none ++
    pass { hciQuiet := true, quiet := true } none

theorem awaits_asleep_cleared : (run (advance 4) board cleared).session.app.Awaits := by
  have hcommitted : (run (advance 4) board cleared).committed = some .demo := by decide +kernel
  have hall : Always (advance 4) (fun w => w.Asleep → w.Settled →
      w.session.app.Awaits) board cleared :=
    awaits_asleep cellsLaws (fun _ _ _ _ => rfl) 4 _ _ _ cleared
  refine hall.last ⟨by decide +kernel, by decide +kernel⟩ ⟨by decide +kernel, fun c hc => ?_⟩
  obtain rfl : PlateContent.demo = c := Option.some.inj (hcommitted.symm.trans hc)
  exact ⟨by decide +kernel, by decide +kernel, by decide +kernel, by decide, by decide, by decide,
    by decide, by decide, ⟨by decide +kernel, by decide +kernel⟩⟩

/-- A tag is read in reader mode, and back in emulation the device falls asleep. -/
def tagRead : List (DeviceOp QuietBus (Paper Sketch) String) :=
  pass { buttonHeld := true } none ++ pass {} (some ⟨{ i2c := .quiet }, some "04:50"⟩) ++
    pass { buttonHeld := true } none ++ pass {} none ++
    pass { hciQuiet := true, quiet := true } none

/-- The tag panel stays on the glass, and the boot takes the plate to be displayed. -/
theorem sleeps_on_tag_panel : ¬ ∀ ops : List (DeviceOp QuietBus (Paper Sketch) String),
    Always (advance 4) (fun w => w.Asleep → w.session.app.Awaits) board ops := by
  intro h
  have hawaits := (h tagRead).last ⟨by decide +kernel, by decide +kernel⟩
  have hglass : (run (advance 4) board tagRead).session.app.panel.glass.isPlate = false := by
    decide +kernel
  rw [(hawaits none).1] at hglass
  cases hglass

end Waking

end PaperNamePlate
