import PaperNamePlate.App.Alike
import PaperNamePlate.Ble.Waking

/-!
# One device on two panels

A run of the device is the same on two panels that agree: what it holds in memory and in flash, what
it serves, and where in its loop it is.
-/
namespace PaperNamePlate

open Embedded App

/-- The environment of a step with what a poll finds. -/
def SessionEnv.finding {I D E : Type} (e : SessionEnv I D) (polled : Option (Polled I E)) :
    SessionEnv I E where
  toTickEnv := e.toTickEnv.finding polled
  hciReady := e.hciReady
  work := e.work
  bleActive := e.bleActive
  hciQuiet := e.hciQuiet
  quiet := e.quiet

/-- What happens to the device, on another panel. -/
def DeviceOp.onPanel {I D T : Type} (E : Type) : DeviceOp I D T → DeviceOp I E T
  | .step e poll => .step (e.finding none) poll
  | .next nfc => .next nfc

namespace Session

variable {I F D E T : Type}

/-- Two sessions that differ in their panels only. -/
structure Matches (R : Bool → UInt32 → D → E → Prop) (s : Session I F D) (t : Session I F E) :
    Prop where
  app : App.Matches R s.app t.app
  rx : t.rx = s.rx
  contentText : t.contentText = s.contentText
  errors : t.errors = s.errors
  phase : t.phase = s.phase

variable {R : Bool → UInt32 → D → E → Prop} {s : Session I F D} {t : Session I F E}

theorem Matches.exists_app (h : Matches R s t) :
    ∃ b, t = ⟨b, s.rx, s.contentText, s.errors, s.phase⟩ ∧ App.Matches R s.app b := by
  obtain ⟨happ, hrx, htext, herrors, hphase⟩ := h
  cases t
  subst hrx htext herrors hphase
  exact ⟨_, rfl, happ⟩

theorem matches_ite {c c' : Prop} [Decidable c] [Decidable c'] {s' : Session I F D}
    {t' : Session I F E} (hc : c ↔ c') (h : Matches R s t) (h' : Matches R s' t') :
    Matches R (if c then s else s') (if c' then t else t') := by
  by_cases hcase : c
  · rwa [if_pos hcase, if_pos (hc.mp hcase)]
  · rwa [if_neg hcase, if_neg (mt hc.mpr hcase)]

theorem Matches.finish (h : Matches R s t) (doze : Bool) :
    Matches R (s.finish doze) (t.finish doze) := by
  obtain ⟨b, rfl, hb⟩ := h.exists_app
  obtain ⟨q, rfl, hq⟩ := hb.exists_onPanel
  exact matches_ite Iff.rfl ⟨⟨rfl, hq⟩, rfl, rfl, rfl, rfl⟩ ⟨hb, rfl, rfl, rfl, rfl⟩

theorem Matches.pump (h : Matches R s t) (i : Nat) (e : SessionEnv I D)
    (polled : Option (Polled I E)) : Matches R (s.pump i e) (t.pump i (e.finding polled)) := by
  obtain ⟨b, rfl, hb⟩ := h.exists_app
  have hwork : (e.finding polled).work = e.work := rfl
  have hready : (e.finding polled).hciReady = e.hciReady := rfl
  unfold Session.pump
  dsimp only
  rw [hwork, hready]
  generalize s.rx.takeNotification = r
  obtain ⟨ntf, rx⟩ := r
  have hnext : ∀ rx errors phase,
      Matches R ⟨s.app, rx, s.contentText, errors, phase⟩ ⟨b, rx, s.contentText, errors, phase⟩ :=
    fun _ _ _ => ⟨hb, rfl, rfl, rfl, rfl⟩
  refine matches_ite Iff.rfl (hnext ..) ?_
  cases e.work with
  | disconnected => exact (hnext ..).finish false
  | didWork gs => exact hnext ..
  | error gs => exact matches_ite Iff.rfl ((hnext ..).finish false) (hnext ..)

section

variable [ReaderPanel D T] [ReaderPanel E T] [Flash F] {P : D → E → Prop} (agree : PanelsAgree P R)

include agree

theorem Matches.applyImage (h : Matches R s t) :
    t.applyImage.1 = s.applyImage.1 ∧ Matches R s.applyImage.2 t.applyImage.2 := by
  obtain ⟨b, rfl, hb⟩ := h.exists_app
  unfold Session.applyImage
  dsimp only
  generalize s.rx.takeImage = r
  obtain ⟨_ | img, rx⟩ := r
  · exact ⟨rfl, hb, rfl, rfl, rfl, rfl⟩
  · exact ⟨rfl, hb.onBleImage agree img, rfl, rfl, rfl, rfl⟩

theorem Matches.applyText (h : Matches R s t) :
    t.applyText.1 = s.applyText.1 ∧ Matches R s.applyText.2 t.applyText.2 := by
  obtain ⟨b, rfl, hb⟩ := h.exists_app
  unfold Session.applyText
  dsimp only
  generalize s.rx.takeText = r
  obtain ⟨_ | text, rx⟩ := r
  · exact ⟨rfl, hb, rfl, rfl, rfl, rfl⟩
  · have htext := hb.onBleContent agree text
    refine ⟨rfl, htext, rfl, ?_, rfl, rfl⟩
    dsimp only
    rw [htext.same]
    rfl

theorem Matches.applyClear (h : Matches R s t) :
    t.applyClear.1 = s.applyClear.1 ∧ Matches R s.applyClear.2 t.applyClear.2 := by
  obtain ⟨b, rfl, hb⟩ := h.exists_app
  unfold Session.applyClear
  dsimp only
  generalize s.rx.takeClear = r
  obtain ⟨_ | _, rx⟩ := r
  · exact ⟨rfl, hb, rfl, rfl, rfl, rfl⟩
  · exact ⟨rfl, hb.onClearImage agree, rfl, rfl, rfl, rfl⟩

theorem Matches.applyDue (h : Matches R s t) :
    t.applyDue.1 = s.applyDue.1 ∧ Matches R s.applyDue.2 t.applyDue.2 := by
  obtain ⟨himages, h₁⟩ := h.applyImage agree
  obtain ⟨htexts, h₂⟩ := h₁.applyText agree
  obtain ⟨hclears, h₃⟩ := h₂.applyClear agree
  refine ⟨?_, h₃.app, h₃.rx, h₃.contentText, h₃.errors, ?_⟩
  · change t.applyImage.1 ++ t.applyImage.2.applyText.1 ++ t.applyImage.2.applyText.2.applyClear.1 =
      _
    rw [himages, htexts, hclears]
    rfl
  · change (if t.applyImage.2.applyText.2.applyClear.2.rx.receiving then Phase.pump 0 else .idle) =
      _
    rw [h₃.rx]
    rfl

variable [I2c I]

theorem Matches.idle (h : Matches R s t) (depth : Nat) (e : SessionEnv I D)
    (poll : Option (TagPoll I T)) :
    Matches R (s.idle depth (e.finding (poll.map s.app.polledBy)))
      (t.idle depth (e.finding (poll.map t.app.polledBy))) := by
  obtain ⟨b, rfl, hb⟩ := h.exists_app
  have hdoze : b.shouldDoze e.quiet = s.app.shouldDoze e.quiet := by rw [hb.same]; rfl
  have hquiet : (e.hciQuiet && b.shouldDoze e.quiet) =
      (e.hciQuiet && s.app.shouldDoze e.quiet) := by
    rw [hdoze]
  refine matches_ite Iff.rfl ?_ (matches_ite Iff.rfl (h.finish true)
    (matches_ite (iff_of_eq (congrArg (· = true) hquiet.symm)) (h.finish true) ?_))
  · have hlight := hb.tickLight agree (e.toTickEnv.finding (poll.map s.app.polledBy))
      (poll.map b.polledBy)
    exact ⟨hlight, rfl, rfl, rfl, rfl⟩
  · exact ⟨hb.tick agree depth e.toTickEnv poll, rfl, rfl, rfl, rfl⟩

theorem Matches.step (h : Matches R s t) (depth : Nat) (e : SessionEnv I D)
    (poll : Option (TagPoll I T)) :
    Matches R (s.step depth (s.polling e poll))
      (t.step depth (t.polling (e.finding none) poll)) := by
  have hphase := h.phase
  unfold Session.step
  rw [hphase]
  cases s.phase with
  | pump i => exact h.pump i (s.polling e poll) (poll.map t.app.polledBy)
  | apply => exact (h.applyDue agree).2
  | idle => exact h.idle agree depth e poll
  | ended doze => exact h

theorem Matches.advance (h : Matches R s t) (depth : Nat) (op : DeviceOp I D T) :
    Matches R (s.advance depth op) (t.advance depth (op.onPanel E)) := by
  have hstart : ∀ {a : App I F D} {b : App I F E}, App.Matches R a b →
      Matches R (start a) (start b) := by
    intro a b hab
    refine ⟨hab, rfl, ?_, rfl, rfl⟩
    change utf8 b.content.toPlain = utf8 a.content.toPlain
    rw [hab.same]
    rfl
  cases op with
  | step e poll => exact h.step agree depth e poll
  | next nfc =>
    have hphase := h.phase
    unfold Session.advance DeviceOp.onPanel
    dsimp only
    rw [hphase]
    split
    · exact hstart (h.app.wake agree nfc)
    · exact hstart h.app
    · exact h

omit [ReaderPanel D T] [ReaderPanel E T] [Flash F] [I2c I] agree in
theorem Matches.ends (h : Matches R s t) (e : SessionEnv I D) (polled : Option (Polled I D))
    (polled' : Option (Polled I E)) : t.ends (e.finding polled') = s.ends (e.finding polled) := by
  obtain ⟨b, rfl, hb⟩ := h.exists_app
  obtain ⟨q, rfl, -⟩ := hb.exists_onPanel
  rfl

/-- The same steps commit. -/
theorem Matches.commits (h : Matches R s t) (depth : Nat) (e : SessionEnv I D)
    (poll : Option (TagPoll I T)) :
    t.commits depth (t.polling (e.finding none) poll) = s.commits depth (s.polling e poll) := by
  have hphase := h.phase
  have hends := h.ends e (poll.map s.app.polledBy) (poll.map t.app.polledBy)
  have hwritten := h.app.tickWritten agree depth e.toTickEnv (poll.map s.app.polledBy)
    (poll.map t.app.polledBy)
  unfold Session.commits
  rw [hphase]
  cases s.phase with
  | pump i => rfl
  | apply => exact congrArg (List.any · BleUpdate.commits) (h.applyDue agree).1
  | idle => exact congrArg₂ (fun a w => !e.bleActive && !a && Option.isSome w) hends hwritten
  | ended doze => rfl

omit [ReaderPanel D T] [ReaderPanel E T] [Flash F] [I2c I] agree in
theorem Matches.drawsTag (h : Matches R s t) (e : SessionEnv I D) (poll : Option (TagPoll I T)) :
    t.drawsTag (e.finding none) poll = s.drawsTag e poll := by
  obtain ⟨b, rfl, hb⟩ := h.exists_app
  obtain ⟨q, rfl, -⟩ := hb.exists_onPanel
  rfl

/-- The device is the same on both panels in every run from a reset. -/
theorem matches_run {p : D} {q : E} (h : P p q) (depth : Nat) (nfc : Option (St25r3916 I))
    (flash : F) (ops : List (DeviceOp I D T)) :
    Matches R (run (Session.advance depth) (powerOn nfc flash p) ops)
      (run (Session.advance depth) (powerOn nfc flash q) (ops.map (DeviceOp.onPanel E))) := by
  have hboot := matches_boot agree nfc flash h
  have hstart : Matches R (powerOn nfc flash p) (powerOn nfc flash q) := by
    refine ⟨hboot, rfl, ?_, rfl, rfl⟩
    change utf8 (boot nfc flash q false).content.toPlain =
      utf8 (boot nfc flash p false).content.toPlain
    rw [hboot.same]
    rfl
  exact run_related (fun s t op hst => hst.advance agree depth op) hstart ops

end

end Session

end PaperNamePlate
