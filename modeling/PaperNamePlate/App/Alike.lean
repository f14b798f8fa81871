import PaperNamePlate.Ble.Device

/-!
# One app on two panels

What the app does with its panel is the same on every panel. Two panels whose operations keep a
relation, and whose refreshes do not fail, are in this relation after whatever the app does, and
all else is the same on both.
-/
namespace PaperNamePlate

open Embedded

/-- A relation between two panels that the app's use of them keeps: `R sleeping fast` where the app
takes the panel to sleep or not and has counted its updates, and `P` before the first refresh. -/
structure PanelsAgree {D E T : Type} [ReaderPanel D T] [ReaderPanel E T] (P : D → E → Prop)
    (R : Bool → UInt32 → D → E → Prop) : Prop where
  start {p : D} {q : E} (c : PlateContent) (mode : Epd.GrayMode) : P p q →
    (Panel.displayGray4 (Panel.draw p c) mode).1 = true ∧
    (Panel.displayGray4 (Panel.draw q c) mode).1 = true ∧
    R false 0 (Panel.copyDisplayed (Panel.displayGray4 (Panel.draw p c) mode).2)
      (Panel.copyDisplayed (Panel.displayGray4 (Panel.draw q c) mode).2)
  draw {s : Bool} {n : UInt32} {p : D} {q : E} (c : PlateContent) : R s n p q →
    R s n (Panel.draw p c) (Panel.draw q c)
  drawTag {s : Bool} {n : UInt32} {p : D} {q : E} (t : T) : R s n p q →
    R s n (ReaderPanel.drawTag p t) (ReaderPanel.drawTag q t)
  /-- A full refresh starts a new count. -/
  refresh {n : UInt32} {p : D} {q : E} (mode : Epd.GrayMode) (m : UInt32) : R false n p q →
    (Panel.displayGray4 p mode).1 = true ∧ (Panel.displayGray4 q mode).1 = true ∧
    R false m (Panel.copyDisplayed (Panel.displayGray4 p mode).2)
      (Panel.copyDisplayed (Panel.displayGray4 q mode).2)
  /-- A differential update comes after a full refresh. -/
  update {n : UInt32} {p : D} {q : E} (m : UInt32) : n % FASTEST_PER_FULL ≠ 0 → R false n p q →
    (ReaderPanel.refreshFastest p).1 = true ∧ (ReaderPanel.refreshFastest q).1 = true ∧
    R false m (ReaderPanel.noteRegion (ReaderPanel.refreshFastest p).2)
      (ReaderPanel.noteRegion (ReaderPanel.refreshFastest q).2)
  wake {n : UInt32} {p : D} {q : E} : R true n p q →
    R false 0 (Panel.init (Panel.hardReset p)) (Panel.init (Panel.hardReset q))
  sleep {n : UInt32} {p : D} {q : E} : R false n p q →
    R true n (Panel.deepSleep p) (Panel.deepSleep q)
  /-- A reset out of deep sleep draws, and skips the refresh. -/
  restart {n : UInt32} {p : D} {q : E} (c : PlateContent) : R true n p q →
    R false 0 (Panel.copyDisplayed (Panel.draw (ReaderPanel.restart p) c))
      (Panel.copyDisplayed (Panel.draw (ReaderPanel.restart q) c))

/-- The environment of a tick with what a poll finds. -/
def App.TickEnv.finding {I D E : Type} (e : App.TickEnv I D) (polled : Option (App.Polled I E)) :
    App.TickEnv I E where
  irqHigh := e.irqHigh
  safetyPoll := e.safetyPoll
  watchdog := e.watchdog
  polls := e.polls
  polled := polled
  buttonHeld := e.buttonHeld
  autoDue := e.autoDue
  epdIdle := e.epdIdle
  heartbeat := e.heartbeat

namespace App

variable {I F D E : Type}

/-- The app with another panel. -/
def onPanel (a : App I F D) (panel : E) : App I F E where
  nfc := a.nfc
  flash := a.flash
  panel := panel
  fastRefreshes := a.fastRefreshes
  epdSleeping := a.epdSleeping
  autoAb := a.autoAb
  emulate := a.emulate
  emu := a.emu
  emuRunning := a.emuRunning
  content := a.content
  dozeTest := a.dozeTest
  imageInFlash := a.imageInFlash

/-- Two apps that differ in their panels only. -/
structure Matches (R : Bool → UInt32 → D → E → Prop) (a : App I F D) (b : App I F E) : Prop where
  same : b = a.onPanel b.panel
  panels : R a.epdSleeping a.fastRefreshes a.panel b.panel

/-! ## What does not touch the panel -/

/-- The function neither looks at the panel nor changes it. -/
structure Blind (f : ∀ {D : Type}, App I F D → App I F D) : Prop where
  onPanel : ∀ {D E : Type} (a : App I F D) (q : E), f (a.onPanel q) = (f a).onPanel q
  fast : ∀ {D : Type} (a : App I F D), (f a).fastRefreshes = a.fastRefreshes
  sleeping : ∀ {D : Type} (a : App I F D), (f a).epdSleeping = a.epdSleeping

variable {R : Bool → UInt32 → D → E → Prop} {a : App I F D} {b : App I F E}

theorem Blind.keeps {f : ∀ {D : Type}, App I F D → App I F D} (hf : Blind f) (h : Matches R a b) :
    Matches R (f a) (f b) := by
  obtain ⟨hsame, hpanels⟩ := h
  have hpanel : (f a).panel = a.panel := by
    have hself := congrArg App.panel (hf.onPanel a a.panel)
    exact hself
  have hout : f b = (f a).onPanel b.panel := by
    rw [hsame]
    exact hf.onPanel a _
  refine ⟨by rw [hout]; rfl, ?_⟩
  rw [hf.sleeping, hf.fast, hpanel, hout]
  exact hpanels

theorem blind_trimImage : Blind (I := I) (F := F) trimImage where
  onPanel a q := by
    by_cases h : (a.imageInFlash && a.content.image.any fun img =>
        img.bits.length > IMAGE_KEEP_MAX) = true
    · rw [trimImage, trimImage, if_pos h]
      exact if_pos h
    · rw [trimImage, trimImage, if_neg h]
      exact if_neg h
  fast a := by
    unfold trimImage
    split <;> rfl
  sleeping a := by
    unfold trimImage
    split <;> rfl

section

variable [Flash F]

theorem blind_storeImage (img : MonoImage) : Blind (I := I) (F := F) (storeImage img) where
  onPanel a q := by
    unfold storeImage
    dsimp only [onPanel]
    rcases saveImage a.flash img.width img.height img.bits with ⟨_ | ⟨⟩, flash⟩ <;> rfl
  fast a := by
    unfold storeImage
    split <;> rfl
  sleeping a := by
    unfold storeImage
    split <;> rfl

theorem blind_persistImage : Blind (I := I) (F := F) persistImage where
  onPanel a q := by
    have hstore := fun img => (blind_storeImage (I := I) (F := F) img).onPanel a q
    unfold persistImage
    dsimp only [onPanel]
    cases a.content.image with
    | none => rfl
    | some img =>
      dsimp only
      split
      · exact hstore img
      · rfl
  fast a := by
    unfold persistImage
    split
    · rfl
    · next img _ =>
      split
      · exact (blind_storeImage img).fast a
      · rfl
  sleeping a := by
    unfold persistImage
    split
    · rfl
    · next img _ =>
      split
      · exact (blind_storeImage img).sleeping a
      · rfl

theorem blind_serve : Blind (I := I) (F := F) serve := ⟨fun _ _ => rfl, fun _ => rfl, fun _ => rfl⟩

theorem blind_restore : Blind (I := I) (F := F) restore where
  onPanel a q := by
    unfold restore
    rcases h : load a.flash with ⟨_ | msg, flash⟩ <;>
        rcases h' : loadImage flash with ⟨_ | st, flash'⟩ <;>
      simp only [onPanel, h, h', Option.bind_none, Option.bind_some] <;>
      first | rfl | (split <;> rfl)
  fast a := by
    unfold restore
    dsimp only
    split <;> split <;> rfl
  sleeping a := by
    unfold restore
    dsimp only
    split <;> split <;> rfl

end

section

variable [I2c I]

theorem blind_switchMode : Blind (I := I) (F := F) switchMode where
  onPanel a q := by
    obtain ⟨nfc, _, _, _, _, _, emulate, _, emuRunning, _, _, _⟩ := a
    cases nfc <;> cases emulate <;> cases emuRunning <;> rfl
  fast a := (nfcOnly_switchMode a).fastRefreshes
  sleeping a := (nfcOnly_switchMode a).epdSleeping

theorem blind_handleButtons (held : Bool) : Blind (I := I) (F := F) (handleButtons held) where
  onPanel a q := by
    cases held with
    | true => exact blind_switchMode.onPanel a q
    | false => rfl
  fast a := (nfcOnly_handleButtons held a).fastRefreshes
  sleeping a := (nfcOnly_handleButtons held a).epdSleeping

theorem blind_autoSwitch (due : Bool) :
    Blind (I := I) (F := F) fun a => if a.autoAb && due then a.switchMode else a where
  onPanel a q := by
    have hswitch := (blind_switchMode (F := F)).onPanel a q
    obtain ⟨_, _, _, _, _, autoAb, _, _, _, _, _, _⟩ := a
    cases autoAb with
    | true =>
      cases due with
      | true => exact hswitch
      | false => rfl
    | false => rfl
  fast a := by
    split
    · exact blind_switchMode.fast a
    · rfl
  sleeping a := by
    split
    · exact blind_switchMode.sleeping a
    · rfl

theorem blind_heartbeat (due : Bool) : Blind (I := I) (F := F) (heartbeat due) where
  onPanel a q := by
    obtain ⟨nfc, _, _, _, _, _, _, _, _, _, _, _⟩ := a
    cases due <;> cases nfc <;> rfl
  fast a := (nfcOnly_heartbeat due a).fastRefreshes
  sleeping a := (nfcOnly_heartbeat due a).epdSleeping

theorem blind_enterSlice (depth : Nat) (watchdog : Bool) :
    Blind (I := I) (F := F) fun a => (a.enterSlice depth watchdog).2 where
  onPanel a q := by
    obtain ⟨nfc, _, _, _, _, _, _, emu, emuRunning, _, _, _⟩ := a
    cases nfc with
    | none => rfl
    | some nfc =>
      cases emuRunning with
      | true => cases watchdog <;> rfl
      | false =>
        rcases h : Target.start depth ⟨emu, (St25r3916.fieldOff nfc).2⟩ with ⟨_ | ⟨⟩, t⟩ <;>
          cases watchdog <;> simp [enterSlice, onPanel, h, withTarget]
  fast a := (nfcOnly_enterSlice depth watchdog a).fastRefreshes
  sleeping a := (nfcOnly_enterSlice depth watchdog a).epdSleeping

theorem enterSlice_onPanel (depth : Nat) (watchdog : Bool) (a : App I F D) (q : E) :
    ((a.onPanel q).enterSlice depth watchdog).1 = (a.enterSlice depth watchdog).1 := by
  obtain ⟨nfc, _, _, _, _, _, _, emu, emuRunning, _, _, _⟩ := a
  cases nfc with
  | none => rfl
  | some nfc =>
    cases emuRunning with
    | true => cases watchdog <;> rfl
    | false =>
      rcases h : Target.start depth ⟨emu, (St25r3916.fieldOff nfc).2⟩ with ⟨_ | ⟨⟩, t⟩ <;>
        cases watchdog <;> simp [enterSlice, onPanel, h, withTarget]

end

/-! ## The panel's use -/

theorem matches_onPanel {q : E} (h : R a.epdSleeping a.fastRefreshes a.panel q) :
    Matches R a (a.onPanel q) := ⟨rfl, h⟩

theorem Matches.exists_onPanel (h : Matches R a b) :
    ∃ q, b = a.onPanel q ∧ R a.epdSleeping a.fastRefreshes a.panel q := ⟨_, h.same, h.panels⟩

theorem Matches.withContent (h : Matches R a b) (c : PlateContent) :
    Matches R { a with content := c } { b with content := c } := by
  obtain ⟨q, rfl, hq⟩ := h.exists_onPanel
  exact ⟨rfl, hq⟩

theorem epdRefresh_ok [Panel D] {mode : Epd.GrayMode} (a : App I F D)
    (h : (Panel.displayGray4 a.panel mode).1 = true) :
    a.epdRefresh mode = (true, { a with panel := (Panel.displayGray4 a.panel mode).2 }) := by
  unfold epdRefresh epdRefreshLoop
  rw [show Panel.displayGray4 a.panel mode = (true, (Panel.displayGray4 a.panel mode).2) from
    Prod.ext h rfl]

section

variable {T : Type} [ReaderPanel D T] [ReaderPanel E T] {P : D → E → Prop} (agree : PanelsAgree P R)

/-- The panels match, and are awake. -/
structure Awake (R : Bool → UInt32 → D → E → Prop) (a : App I F D) (b : App I F E) : Prop
    extends Matches R a b where
  awake : a.epdSleeping = false

omit [ReaderPanel D T] [ReaderPanel E T] in
theorem Awake.exists_onPanel (h : Awake R a b) :
    ∃ q, b = a.onPanel q ∧ R false a.fastRefreshes a.panel q := by
  obtain ⟨q, hb, hq⟩ := h.toMatches.exists_onPanel
  rw [h.awake] at hq
  exact ⟨q, hb, hq⟩

include agree

theorem Matches.wakeEpd (h : Matches R a b) : Awake R a.wakeEpd b.wakeEpd := by
  obtain ⟨q, rfl, hq⟩ := h.exists_onPanel
  unfold App.wakeEpd
  cases hs : a.epdSleeping with
  | false =>
    have hb : (a.onPanel q).epdSleeping = false := hs
    rw [hb]
    exact ⟨matches_onPanel hq, hs⟩
  | true =>
    have hb : (a.onPanel q).epdSleeping = true := hs
    rw [hb]
    rw [hs] at hq
    exact ⟨⟨rfl, agree.wake hq⟩, rfl⟩

theorem Matches.manageEpdSleep (h : Matches R a b) (idle : Bool) :
    Matches R (a.manageEpdSleep idle) (b.manageEpdSleep idle) := by
  obtain ⟨q, rfl, hq⟩ := h.exists_onPanel
  have hb : (a.onPanel q).epdSleeping = a.epdSleeping := rfl
  unfold App.manageEpdSleep
  rw [hb]
  split
  · next hidle =>
    have hs : a.epdSleeping = false := by simpa using (Bool.and_eq_true_iff.mp hidle).1
    rw [hs] at hq
    exact ⟨rfl, agree.sleep hq⟩
  · exact matches_onPanel hq

theorem Awake.drawPlate [Flash F] (h : Awake R a b) : Awake R a.drawPlate b.drawPlate := by
  obtain ⟨q, rfl, hq⟩ := h.toMatches.exists_onPanel
  have hb : ((a.onPanel q).content.image.isNone && (a.onPanel q).imageInFlash) =
    (a.content.image.isNone && a.imageInFlash) := rfl
  unfold App.drawPlate
  rw [hb]
  split
  · exact ⟨⟨rfl, agree.draw _ hq⟩, h.awake⟩
  · exact ⟨⟨rfl, agree.draw _ hq⟩, h.awake⟩

theorem Awake.refreshDisplayed (h : Awake R a b) (mode : Epd.GrayMode) :
    Awake R (a.refreshDisplayed mode) (b.refreshDisplayed mode) := by
  obtain ⟨q, rfl, hq⟩ := h.exists_onPanel
  obtain ⟨ha, hb, hshown⟩ := agree.refresh mode 1 hq
  unfold App.refreshDisplayed
  rw [epdRefresh_ok a ha, epdRefresh_ok (a.onPanel q) hb]
  refine ⟨⟨rfl, ?_⟩, h.awake⟩
  rw [h.awake]
  exact hshown

theorem Awake.refreshPanelRegion (h : Awake R a b) :
    Awake R a.refreshPanelRegion b.refreshPanelRegion := by
  obtain ⟨q, rfl, hq⟩ := h.exists_onPanel
  have hfast : (a.onPanel q).fastRefreshes = a.fastRefreshes := rfl
  unfold App.refreshPanelRegion
  rw [hfast]
  by_cases hfull : a.fastRefreshes % FASTEST_PER_FULL = 0
  · obtain ⟨ha, hb, hshown⟩ := agree.refresh .text (a.fastRefreshes + 1) hq
    rw [if_pos hfull, if_pos hfull, epdRefresh_ok a ha, epdRefresh_ok (a.onPanel q) hb]
    refine ⟨⟨rfl, ?_⟩, h.awake⟩
    rw [h.awake]
    exact hshown
  · obtain ⟨ha, hb, hshown⟩ := agree.update (a.fastRefreshes + 1) hfull hq
    have hq' : (ReaderPanel.refreshFastest (a.onPanel q).panel).1 = true := hb
    rw [if_neg hfull, if_neg hfull]
    dsimp only
    rw [ha, hq']
    refine ⟨⟨rfl, ?_⟩, h.awake⟩
    rw [h.awake]
    exact hshown

theorem Matches.onNewTag (h : Matches R a b) (t : T) : Matches R (a.onNewTag t) (b.onNewTag t) := by
  have hwake := h.wakeEpd agree
  unfold App.onNewTag
  generalize a.wakeEpd = a' at hwake ⊢
  generalize b.wakeEpd = b' at hwake ⊢
  obtain ⟨q, rfl, hq⟩ := hwake.toMatches.exists_onPanel
  have hdrawn : Awake R { a' with panel := ReaderPanel.drawTag a'.panel t }
      { a'.onPanel q with panel := ReaderPanel.drawTag q t } :=
    ⟨⟨rfl, agree.drawTag t hq⟩, hwake.awake⟩
  exact (hdrawn.refreshPanelRegion agree).toMatches

/-- A poll in reader mode. -/
theorem Matches.polled (h : Matches R a b) (p : TagPoll I T) :
    Matches R (a.pollNfc (a.polledBy p)) (b.pollNfc (b.polledBy p)) := by
  have hnfc : b.nfc = a.nfc := by rw [h.same]; rfl
  unfold App.pollNfc App.polledBy
  rw [hnfc]
  cases a.nfc with
  | none => exact h
  | some nfc =>
    dsimp only
    cases p.newTag with
    | none =>
      obtain ⟨q, rfl, hq⟩ := h.exists_onPanel
      exact ⟨rfl, hq⟩
    | some t =>
      have htag := h.onNewTag agree t
      obtain ⟨q, rfl, hq⟩ := h.exists_onPanel
      refine ⟨?_, htag.panels⟩
      dsimp only
      rw [htag.same]
      rfl

section

variable [Flash F]

theorem Matches.commitContent (h : Matches R a b) : Matches R a.commitContent b.commitContent := by
  have hkept := blind_persistImage.keeps (blind_serve.keeps h)
  exact (((hkept.wakeEpd agree).drawPlate agree).refreshDisplayed agree .text).toMatches

theorem Matches.onTagWritten (h : Matches R a b) : Matches R a.onTagWritten b.onTagWritten := by
  obtain ⟨q, rfl, hq⟩ := h.exists_onPanel
  have hndef : (a.onPanel q).emu.ndef = a.emu.ndef := rfl
  unfold App.onTagWritten
  rw [hndef]
  cases a.emu.ndef with
  | some m => exact (h.withContent (a.content.applyNdef m)).commitContent agree
  | none => exact h.commitContent agree

theorem Matches.onBleContent (h : Matches R a b) (text : List UInt8) :
    Matches R (a.onBleContent text) (b.onBleContent text) := by
  obtain ⟨q, rfl, hq⟩ := h.exists_onPanel
  have hcontent : (a.onPanel q).content = a.content := rfl
  unfold App.onBleContent
  rw [hcontent]
  cases a.content.applyPlain (lossy text) with
  | ok c => exact (h.withContent c).commitContent agree
  | error e => exact h

theorem Matches.onClearImage (h : Matches R a b) : Matches R a.onClearImage b.onClearImage := by
  unfold App.onClearImage
  apply Matches.commitContent agree
  obtain ⟨q, rfl, hq⟩ := h.exists_onPanel
  exact ⟨rfl, hq⟩

omit [Flash F] in
/-- Draw, drop the image, and refresh. -/
theorem Awake.showImage (h : Awake R a b) :
    Awake R
      (({ a with panel := Panel.draw a.panel a.content } : App I F D).trimImage.refreshDisplayed
      .quality)
      (({ b with panel := Panel.draw b.panel b.content } : App I F E).trimImage.refreshDisplayed
        .quality) := by
  obtain ⟨q, rfl, hq⟩ := h.toMatches.exists_onPanel
  have hdrawn : Matches R { a with panel := Panel.draw a.panel a.content }
      { a.onPanel q with panel := Panel.draw q a.content } := ⟨rfl, agree.draw _ hq⟩
  have htrimmed : Awake R _ _ :=
    ⟨blind_trimImage.keeps hdrawn, (blind_trimImage.sleeping _).trans h.awake⟩
  exact htrimmed.refreshDisplayed agree .quality

theorem Matches.onBleImage (h : Matches R a b) (img : MonoImage) :
    Matches R (a.onBleImage img) (b.onBleImage img) := by
  obtain ⟨q, rfl, hq⟩ := h.exists_onPanel
  have hstored := (blind_storeImage img).keeps (h.withContent { a.content with image := none })
  have hadopted := hstored.withContent
    { (storeImage img { a with content := { a.content with image := none } }).content with
      image := some img }
  have hwake := (blind_serve.keeps hadopted).wakeEpd agree
  obtain ⟨q', hq', -⟩ := hstored.exists_onPanel
  unfold App.onBleImage
  have hcontent : (storeImage img { a.onPanel q with
      content := { (a.onPanel q).content with image := none } }).content =
    (storeImage img { a with content := { a.content with image := none } }).content := by
    change (storeImage img
      ({ a.onPanel q with content := { a.content with image := none } })).content = _
    rw [hq']
    rfl
  dsimp only [] at hcontent ⊢
  rw [hcontent]
  exact (hwake.showImage agree).toMatches

/-! ## The main loop's work -/

section

variable [I2c I]

/-- The same poll of a slice on both. -/
theorem Matches.pollSlice (h : Matches R a b) (depth : Nat) :
    (b.pollSlice depth).1 = (a.pollSlice depth).1 ∧
      Matches R (a.pollSlice depth).2 (b.pollSlice depth).2 := by
  obtain ⟨q, rfl, hq⟩ := h.exists_onPanel
  have hnfc : (a.onPanel q).nfc = a.nfc := rfl
  have hemu : (a.onPanel q).emu = a.emu := rfl
  unfold App.pollSlice
  rw [hnfc, hemu]
  cases a.nfc with
  | none => exact ⟨rfl, h⟩
  | some nfc =>
    dsimp only
    generalize Target.update depth ⟨a.emu, nfc⟩ = r
    have htarget : ∀ t : Target I, Matches R (a.withTarget t) ((a.onPanel q).withTarget t) :=
      fun t => ⟨rfl, hq⟩
    obtain ⟨_ | event, t⟩ := r
    · exact ⟨rfl, rfl, hq⟩
    · cases event with
      | fieldOff written =>
        cases written with
        | true => exact ⟨rfl, (htarget t).onTagWritten agree⟩
        | false => exact ⟨rfl, htarget t⟩
      | none | fieldOn | selected => exact ⟨rfl, htarget t⟩

theorem Matches.pollsSlice (h : Matches R a b) (depth n : Nat) :
    Matches R (a.pollsSlice depth n) (b.pollsSlice depth n) := by
  induction n generalizing a b with
  | zero => exact h
  | succ n ih =>
    obtain ⟨hgo, hnext⟩ := h.pollSlice agree depth
    unfold App.pollsSlice
    generalize a.pollSlice depth = r at hgo hnext ⊢
    generalize b.pollSlice depth = r' at hgo hnext ⊢
    obtain ⟨go, a'⟩ := r
    obtain ⟨go', b'⟩ := r'
    obtain rfl : go' = go := hgo
    cases go' with
    | true => exact ih hnext
    | false => exact hnext

theorem Matches.runEmulationSlice (h : Matches R a b) (depth : Nat) (watchdog : Bool)
    (polls : Nat) :
    Matches R (a.runEmulationSlice depth watchdog polls)
      (b.runEmulationSlice depth watchdog polls) := by
  have hnext := (blind_enterSlice depth watchdog).keeps h
  have hgo : (b.enterSlice depth watchdog).1 = (a.enterSlice depth watchdog).1 := by
    rw [h.same]
    exact enterSlice_onPanel depth watchdog a _
  unfold App.runEmulationSlice
  generalize a.enterSlice depth watchdog = r at hgo hnext ⊢
  generalize b.enterSlice depth watchdog = r' at hgo hnext ⊢
  obtain ⟨go, a'⟩ := r
  obtain ⟨go', b'⟩ := r'
  obtain rfl : go' = go := hgo
  cases go' with
  | true => exact hnext.pollsSlice agree depth polls
  | false => exact hnext

theorem Matches.tickNfc (h : Matches R a b) (depth : Nat) (e : TickEnv I D)
    (poll : Option (TagPoll I T)) :
    Matches R (a.tickNfc depth (e.finding (poll.map a.polledBy)))
      (b.tickNfc depth (e.finding (poll.map b.polledBy))) := by
  have hemulate : b.emulate = a.emulate := by rw [h.same]; rfl
  have hwants : b.wantsSlice (e.finding (poll.map b.polledBy)) =
      a.wantsSlice (e.finding (poll.map a.polledBy)) := by rw [h.same]; rfl
  unfold App.tickNfc
  rw [hemulate, hwants]
  cases a.emulate with
  | true =>
    simp only [if_true]
    split
    · exact h.runEmulationSlice agree depth e.watchdog e.polls
    · exact h
  | false =>
    cases poll with
    | none => exact h
    | some p => exact h.polled agree p

theorem Matches.tick (h : Matches R a b) (depth : Nat) (e : TickEnv I D)
    (poll : Option (TagPoll I T)) :
    Matches R (a.tick depth (e.finding (poll.map a.polledBy)))
      (b.tick depth (e.finding (poll.map b.polledBy))) := by
  have hbuttons := (blind_handleButtons e.buttonHeld).keeps (h.tickNfc agree depth e poll)
  have hauto := (blind_autoSwitch e.autoDue).keeps hbuttons
  exact (blind_heartbeat e.heartbeat).keeps (hauto.manageEpdSleep agree e.epdIdle)

omit [ReaderPanel D T] [ReaderPanel E T] [Flash F] agree in
theorem Matches.pollWritten (h : Matches R a b) (depth : Nat) :
    b.pollWritten depth = a.pollWritten depth := by
  obtain ⟨q, rfl, -⟩ := h.exists_onPanel
  rfl

/-- The same message is adopted on both. -/
theorem Matches.pollsWritten (h : Matches R a b) (depth n : Nat) :
    b.pollsWritten depth n = a.pollsWritten depth n := by
  induction n generalizing a b with
  | zero => rfl
  | succ n ih =>
    obtain ⟨hgo, hnext⟩ := h.pollSlice agree depth
    have hwritten := h.pollWritten depth
    unfold App.pollsWritten
    generalize a.pollSlice depth = r at hgo hnext ⊢
    generalize b.pollSlice depth = r' at hgo hnext ⊢
    obtain ⟨go, a'⟩ := r
    obtain ⟨go', b'⟩ := r'
    obtain rfl : go' = go := hgo
    cases go' with
    | true => exact ih hnext
    | false => exact hwritten

theorem Matches.tickWritten (h : Matches R a b) (depth : Nat) (e : TickEnv I D)
    (polled : Option (Polled I D)) (polled' : Option (Polled I E)) :
    b.tickWritten depth (e.finding polled') = a.tickWritten depth (e.finding polled) := by
  have hnext := (blind_enterSlice depth e.watchdog).keeps h
  have hgo : (b.enterSlice depth e.watchdog).1 = (a.enterSlice depth e.watchdog).1 := by
    rw [h.same]
    exact enterSlice_onPanel depth e.watchdog a _
  have henters : (b.emulate && b.wantsSlice (e.finding polled')) =
      (a.emulate && a.wantsSlice (e.finding polled)) := by rw [h.same]; rfl
  unfold App.tickWritten
  rw [henters]
  cases a.emulate && a.wantsSlice (e.finding polled) with
  | false => rfl
  | true =>
    have hwatchdog : (e.finding polled').watchdog = e.watchdog := rfl
    have hwatchdog' : (e.finding polled).watchdog = e.watchdog := rfl
    rw [if_pos rfl, if_pos rfl, hwatchdog, hwatchdog']
    generalize a.enterSlice depth e.watchdog = r at hgo hnext ⊢
    generalize b.enterSlice depth e.watchdog = r' at hgo hnext ⊢
    obtain ⟨go, a'⟩ := r
    obtain ⟨go', b'⟩ := r'
    obtain rfl : go' = go := hgo
    cases go' with
    | true => exact hnext.pollsWritten agree depth e.polls
    | false => rfl

omit [Flash F] in
theorem Matches.tickLight (h : Matches R a b) (e : TickEnv I D) (polled : Option (Polled I E)) :
    Matches R (a.tickLight e) (b.tickLight (e.finding polled)) :=
  ((blind_handleButtons e.buttonHeld).keeps h).manageEpdSleep agree e.epdIdle

end

end

/-! ## Start-up -/

variable [Flash F]

omit [ReaderPanel D T] [ReaderPanel E T] agree in
/-- Restoring looks at flash only. -/
theorem matches_restore {S : D → E → Prop} (nfc : Option (St25r3916 I)) (flash : F) {p : D} {q : E}
    (h : S p q) :
    Matches (fun _ _ => S) (restore { nfc, flash, panel := p })
      (restore { nfc, flash, panel := q }) :=
  blind_restore.keeps (b := { nfc, flash, panel := q }) ⟨rfl, h⟩

omit [ReaderPanel D T] [ReaderPanel E T] agree in
theorem fast_restore (nfc : Option (St25r3916 I)) (flash : F) (p : D) :
    (restore { nfc, flash, panel := p }).fastRefreshes = 0 ∧
      (restore { nfc, flash, panel := p }).epdSleeping = false :=
  ⟨blind_restore.fast _, blind_restore.sleeping _⟩

/-- The end of a start-up: what was drawn is taken to be displayed, and the tag serves the plate. -/
def booted {D : Type} [Panel D] (a : App I F D) : App I F D :=
  { a with
    panel := Panel.copyDisplayed a.panel
    emu := (a.emu.setNdef a.content.toNdef).2 }

omit [Flash F] agree in
theorem boot_eq {D : Type} [Panel D] [Flash F] (nfc : Option (St25r3916 I)) (flash : F) (p : D)
    (woke : Bool) :
    boot nfc flash p woke =
      let a := restore { nfc, flash, panel := p }
      let a := ({ a with panel := Panel.draw a.panel a.content } : App I F D).trimImage
      booted (if woke then a else (a.epdRefresh .quality).2) := by
  cases woke <;> rfl

omit [Flash F] in
/-- The first refresh. -/
theorem Matches.booted_refresh {A : App I F D} {B : App I F E}
    (h : Matches (fun _ _ p' q' => ∃ p q c, P p q ∧ p' = Panel.draw p c ∧ q' = Panel.draw q c) A B)
    (hfast : A.fastRefreshes = 0) (hawake : A.epdSleeping = false) :
    Matches R (booted (A.epdRefresh .quality).2) (booted (B.epdRefresh .quality).2) := by
  obtain ⟨q', rfl, p, q, c, hP, hp, hq⟩ := h.exists_onPanel
  obtain ⟨ha, hb, hshown⟩ := agree.start c .quality hP
  rw [← hp] at ha hshown
  rw [← hq] at hb hshown
  rw [epdRefresh_ok A ha, epdRefresh_ok (A.onPanel q') hb]
  refine ⟨rfl, ?_⟩
  change R A.epdSleeping A.fastRefreshes _ _
  rw [hawake, hfast]
  exact hshown

omit [Flash F] in
/-- No refresh out of deep sleep. -/
theorem Matches.booted_woken {A : App I F D} {B : App I F E}
    (h : Matches (fun _ _ p' q' => ∃ p q n c, R true n p q ∧
      p' = Panel.draw (ReaderPanel.restart p) c ∧ q' = Panel.draw (ReaderPanel.restart q) c) A B)
    (hfast : A.fastRefreshes = 0) (hawake : A.epdSleeping = false) :
    Matches R (booted A) (booted B) := by
  obtain ⟨q', rfl, p, q, n, c, hR, hp, hq⟩ := h.exists_onPanel
  have hshown := agree.restart c hR
  rw [← hp, ← hq] at hshown
  refine ⟨rfl, ?_⟩
  change R A.epdSleeping A.fastRefreshes _ _
  rw [hawake, hfast]
  exact hshown

/-- A boot after the power came on. -/
theorem matches_boot (nfc : Option (St25r3916 I)) (flash : F) {p : D} {q : E} (h : P p q) :
    Matches R (boot nfc flash p false) (boot nfc flash q false) := by
  have hrestored := matches_restore nfc flash h
  obtain ⟨hfast, hawake⟩ := fast_restore nfc flash p
  rw [boot_eq, boot_eq]
  dsimp only
  generalize restore (I := I) { nfc, flash, panel := p } = a' at hrestored hfast hawake ⊢
  generalize restore (I := I) { nfc, flash, panel := q } = b' at hrestored ⊢
  obtain ⟨q', rfl, hq⟩ := hrestored.exists_onPanel
  have hdrawn : Matches (fun _ _ p' q' => ∃ p q c, P p q ∧ p' = Panel.draw p c ∧
      q' = Panel.draw q c)
      ({ a' with panel := Panel.draw a'.panel a'.content } : App I F D)
      { a'.onPanel q' with panel := Panel.draw q' a'.content } := ⟨rfl, _, _, _, hq, rfl, rfl⟩
  exact (blind_trimImage.keeps hdrawn).booted_refresh agree
    ((blind_trimImage.fast _).trans hfast) ((blind_trimImage.sleeping _).trans hawake)

/-- A boot out of deep sleep. -/
theorem Matches.wake (h : Matches R a b) (nfc : Option (St25r3916 I)) :
    Matches R (a.wake nfc) (b.wake nfc) := by
  have hslept := h.manageEpdSleep agree true
  have hasleep : (a.manageEpdSleep true).epdSleeping = true := by
    unfold App.manageEpdSleep
    cases hs : a.epdSleeping with
    | true => exact hs
    | false => rfl
  unfold App.wake manageEpdSleepNow
  generalize a.manageEpdSleep true = a₁ at hslept hasleep ⊢
  generalize b.manageEpdSleep true = b₁ at hslept ⊢
  obtain ⟨q, rfl, hq⟩ := hslept.exists_onPanel
  rw [hasleep] at hq
  have hrestored := matches_restore (S := fun p' q' => p' = ReaderPanel.restart a₁.panel ∧
    q' = ReaderPanel.restart q) nfc a₁.flash ⟨rfl, rfl⟩
  obtain ⟨hfast, hawake⟩ := fast_restore nfc a₁.flash (ReaderPanel.restart a₁.panel)
  rw [boot_eq, boot_eq]
  change Matches R (booted (trimImage _)) (booted (trimImage
    { restore { nfc, flash := a₁.flash, panel := ReaderPanel.restart q } with
      panel := Panel.draw (restore { nfc, flash := a₁.flash, panel := ReaderPanel.restart q }).panel
        (restore { nfc, flash := a₁.flash, panel := ReaderPanel.restart q }).content }))
  generalize restore (I := I) { nfc, flash := a₁.flash, panel := ReaderPanel.restart a₁.panel } = a'
    at hrestored hfast hawake ⊢
  generalize restore (I := I) { nfc, flash := a₁.flash, panel := ReaderPanel.restart q } = b'
    at hrestored ⊢
  obtain ⟨q', rfl, hp', rfl⟩ := hrestored.exists_onPanel
  have hdrawn : Matches (fun _ _ p' q' => ∃ p q n c, R true n p q ∧
      p' = Panel.draw (ReaderPanel.restart p) c ∧ q' = Panel.draw (ReaderPanel.restart q) c)
      ({ a' with panel := Panel.draw a'.panel a'.content } : App I F D)
      { a'.onPanel (ReaderPanel.restart q) with
        panel := Panel.draw (ReaderPanel.restart q) a'.content } :=
    ⟨rfl, _, _, _, _, hq, by rw [hp'], rfl⟩
  exact (blind_trimImage.keeps hdrawn).booted_woken agree
    ((blind_trimImage.fast _).trans hfast) ((blind_trimImage.sleeping _).trans hawake)

end

end App

end PaperNamePlate
