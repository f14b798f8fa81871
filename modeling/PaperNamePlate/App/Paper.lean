import PaperNamePlate.App.Kept
import PaperNamePlate.App.Reader

/-!
# The panel as pictures

While no refresh fails, the panel is three pictures: the frame buffer, what the app takes to be
displayed, and the glass. Whatever is committed is on all three of them.
-/
namespace PaperNamePlate

open Embedded

/-- Pictures and how they are made; `T` is what is drawn of a tag. -/
class Drawing (Face : Type) (T : outParam Type) where
  /-- A new frame buffer. -/
  blank : Face
  /-- The plate is drawn on a cleared buffer. -/
  plate : PlateContent → Face
  tag : T → Face → Face
  /-- The glass after a differential update of the tag panel's region. -/
  update : (fb displayed glass : Face) → Face
  /-- What is displayed, with that region of the buffer folded in. -/
  note : (fb displayed : Face) → Face

structure Paper (Face : Type) where
  fb : Face
  displayed : Face
  glass : Face

namespace Paper

variable {Face T : Type} [Drawing Face T]

instance : ReaderPanel (Paper Face) T where
  draw p c := { p with fb := Drawing.plate c }
  displayGray4 p _ := (true, { p with glass := p.fb })
  powerOn p := p
  hardReset p := p
  init p := p
  deepSleep p := p
  copyDisplayed p := { p with displayed := p.fb }
  drawTag p t := { p with fb := Drawing.tag t p.fb }
  refreshFastest p := (true, { p with glass := Drawing.update p.fb p.displayed p.glass })
  noteRegion p := { p with displayed := Drawing.note p.fb p.displayed }
  restart p := { p with fb := Drawing.blank, displayed := Drawing.blank }

/-- The plate on all three. -/
def showing (c : PlateContent) : Paper Face := ⟨Drawing.plate c, Drawing.plate c, Drawing.plate c⟩

end Paper

namespace App

variable {I F Face T : Type} [Flash F] [Drawing Face T]

/-- The glass shows what the next boot draws, and a boot out of deep sleep, which skips the refresh,
takes just this to be displayed. -/
def Awaits (a : App I F (Paper Face)) : Prop :=
  ∀ nfc, a.panel.glass =
    Drawing.plate (restore { nfc, flash := a.flash, panel := a.panel }).content ∧
    (a.wake nfc).panel.displayed = (a.wake nfc).panel.glass

/-- While `p` holds, flash and glass have the plate that is drawn. -/
structure Shows (p : Prop) (a : App I F (Paper Face)) : Prop where
  kept : a.Kept
  saved : p → a.Saved
  glass : p → a.panel.glass = Drawing.plate a.rendered

omit [Flash F] in
theorem wakeEpd_paper (a : App I F (Paper Face)) :
    ∃ fastRefreshes, a.wakeEpd = { a with epdSleeping := false, fastRefreshes } := by
  obtain ⟨nfc, flash, panel, fastRefreshes, epdSleeping⟩ := a
  cases epdSleeping
  · exact ⟨fastRefreshes, rfl⟩
  · exact ⟨0, rfl⟩

omit [Flash F] in
/-- A refresh succeeds. -/
theorem refreshDisplayed_paper (mode : Epd.GrayMode) (a : App I F (Paper Face)) :
    a.refreshDisplayed mode =
      { a with panel := ⟨a.panel.fb, a.panel.fb, a.panel.fb⟩, fastRefreshes := 1 } := rfl

theorem drawPlate_paper (laws : FlashLaws F) (a : App I F (Paper Face)) :
    ∃ flash, laws.cells flash = laws.cells a.flash ∧
      a.drawPlate = { a with flash, panel := Panel.draw a.panel a.rendered } := by
  unfold drawPlate rendered
  split
  · exact ⟨_, loadImage_cells laws a.flash, rfl⟩
  · exact ⟨a.flash, rfl, rfl⟩

variable (laws : FlashLaws F)

/-- Committing puts the plate on the glass. -/
theorem commitContent_paper (a : App I F (Paper Face)) :
    ∃ flash, laws.cells flash = laws.cells a.serve.persistImage.flash ∧
      a.commitContent =
        { a.serve.persistImage with
          flash, panel := .showing a.serve.persistImage.rendered
          epdSleeping := false, fastRefreshes := 1 } := by
  unfold commitContent
  generalize a.serve.persistImage = s
  obtain ⟨n, hwake⟩ := s.wakeEpd_paper
  obtain ⟨flash, hcells, hdraw⟩ := s.wakeEpd.drawPlate_paper laws
  have hrendered : s.wakeEpd.rendered = s.rendered := by rw [hwake]; rfl
  refine ⟨flash, ?_, ?_⟩
  · rw [hcells, hwake]
  · rw [refreshDisplayed_paper, hdraw, hrendered, hwake]
    rfl

variable (hwrite : WritesSucceed F)

include laws hwrite

/-- After committing a restorable content, flash and glass have it. -/
theorem Flagged.shows_commitContent {a : App I F (Paper Face)} (h : a.Flagged) :
    a.commitContent.Shows a.content.Restorable := by
  obtain ⟨flash, hcells, hcommit⟩ := a.commitContent_paper laws
  have hslots : slotsOf a.commitContent.flash = slotsOf a.serve.persistImage.flash := by
    rw [hcommit]
    exact slotsOf_congr laws hcells
  have hrendered : a.commitContent.rendered = a.serve.persistImage.rendered :=
    rendered_same (by rw [hcommit]) (by rw [hcommit]) hslots
  refine ⟨?_, fun hc => ?_, fun _ => ?_⟩
  · obtain ⟨hkept, -⟩ := (h.serve laws hwrite).persistImage laws hwrite
    exact hkept.congr (by rw [hcommit]) (by rw [hcommit]) hslots
  · rw [Saved, hrendered, hslots]
    exact h.saved laws hwrite hc
  · rw [hrendered, hcommit]
    rfl

omit [Drawing Face T] laws hwrite in
/-- A message leaves a small image in memory. -/
theorem Kept.flagged_applyNdef {a : App I F (Paper Face)} (h : a.Kept) {msg : List UInt8}
    (hlen : msg.length ≤ MAX_DATA) : Flagged { a with content := a.content.applyNdef msg } where
  pictured := h.pictured.applyNdef msg
  small := by
    intro img himg
    have hmax : MAX_DATA = 2048 := rfl
    have hkeep : IMAGE_KEEP_MAX = 8192 := rfl
    rw [Option.mem_def, PlateContent.applyNdef_image, Option.or_eq_some_iff] at himg
    rcases himg with hlast | ⟨-, himage⟩
    · have hbits := PlateContent.length_lastPicture hlast
      omega
    · exact h.small img himage
  flag := h.flag

/-- Adopting what a reader wrote. -/
theorem Kept.shows_onTagWritten {a : App I F (Paper Face)} (h : a.Kept) :
    a.onTagWritten.Shows a.onTagWritten.content.Restorable := by
  unfold onTagWritten
  split
  · next m hm =>
    have hlen := T2tEmulator.length_ndef_le hm
    have hflagged := h.flagged_applyNdef (hlen.trans (by decide))
    rw [(commitContent_eq _).1]
    exact hflagged.shows_commitContent laws hwrite
  · rw [(commitContent_eq _).1]
    exact h.toFlagged.shows_commitContent laws hwrite

/-- A text that is accepted is committed. -/
theorem Kept.shows_onBleContent {a : App I F (Paper Face)} (h : a.Kept) {text : List UInt8}
    {c : PlateContent} (hc : a.content.applyPlain (lossy text) = .ok c) :
    (a.onBleContent text).Shows (a.onBleContent text).content.Restorable := by
  have himage : c.image = a.content.image := by
    rw [(PlateContent.applyPlain_eq hc).1]
    rfl
  have hflagged : Flagged { a with content := c } :=
    ⟨fun img himg => h.pictured img (himage ▸ himg), fun img himg => h.small img (himage ▸ himg),
      h.flag⟩
  simp only [onBleContent, hc]
  rw [(commitContent_eq _).1]
  exact hflagged.shows_commitContent laws hwrite

theorem shows_onClearImage (a : App I F (Paper Face)) :
    a.onClearImage.Shows a.onClearImage.content.Restorable := by
  have hflagged : Flagged { a with
      content := { a.content with image := none }, imageInFlash := false,
      flash := (PaperNamePlate.clearImage a.flash).2 } := by
    refine ⟨fun _ h => (nomatch h), fun _ h => (nomatch h), ?_⟩
    rw [storedImage_clearImage laws hwrite]
    rfl
  unfold onClearImage
  rw [(commitContent_eq _).1]
  exact hflagged.shows_commitContent laws hwrite

omit [Flash F] [Drawing Face T] laws hwrite in
theorem trimImage_frame (a : App I F (Paper Face)) (panel : Paper Face) (epdSleeping : Bool)
    (fastRefreshes : UInt32) :
    trimImage { a with panel, epdSleeping, fastRefreshes } =
      { a.trimImage with panel, epdSleeping, fastRefreshes } := by
  unfold trimImage
  dsimp only
  split <;> rfl

/-- The app as a BLE image leaves it. -/
theorem onBleImage_paper (img : MonoImage) (a : App I F (Paper Face)) :
    a.onBleImage img =
      { ({ a with
            content := { a.content with image := some img }
            flash := (saveImage a.flash img.width img.height img.bits).2
            imageInFlash := true } : App I F (Paper Face)).serve.trimImage with
        panel := .showing { a.content with image := some img }
        epdSleeping := false, fastRefreshes := 1 } := by
  have hok := (saveRec_cells laws hwrite a.flash IMAGE_OFFSET MAX_IMAGE
    (u16ToLe img.width ++ u16ToLe img.height) img.bits (by simp [MAX_IMAGE]) (by decide)).1
  have hstore := storeImage_saved (a := { a with content := { a.content with image := none } }) hok
  unfold onBleImage
  rw [hstore]
  dsimp only
  generalize hs : serve (F := F) _ = s
  have hcontent : s.content = { a.content with image := some img } := by rw [← hs]; rfl
  obtain ⟨n, hwake⟩ := s.wakeEpd_paper
  rw [hwake, refreshDisplayed_paper]
  dsimp only
  rw [trimImage_frame, ← hcontent]
  rfl

/-- An adopted image is in flash, and on the glass whether it is kept in memory or not. -/
theorem shows_onBleImage {img : MonoImage} (himg : img.Sized) (a : App I F (Paper Face)) :
    (a.onBleImage img).Shows (a.onBleImage img).content.Restorable := by
  rw [onBleImage_paper laws hwrite img a]
  generalize hb : serve (F := F) _ = b
  have hcontent : b.content = { a.content with image := some img } := by rw [← hb]; rfl
  have hin : b.imageInFlash = true := by rw [← hb]; rfl
  have hflash : b.flash = (save (saveImage a.flash img.width img.height img.bits).2
      { a.content with image := some img }.toNdef).2 := by
    rw [← hb]
    rfl
  have hstored : storedImage b.flash = some img := by
    rw [hflash, storedImage_save laws hwrite, storedImage_saveImage laws hwrite a.flash himg]
  obtain ⟨hkept, hrendered⟩ := kept_trimImage (a := b)
    (by rw [hcontent]; exact fun _ h => Option.some.inj h ▸ himg) (by rw [hin, hstored]; rfl)
    (by rw [hstored, hcontent]; rfl) (by rw [hstored]; exact fun h => (nomatch h))
  obtain ⟨⟨image, htrim⟩, -⟩ := b.trimImage_eq
  have hflash' : b.trimImage.flash = b.flash := by
    unfold trimImage
    split <;> rfl
  generalize b.trimImage = t at hkept hrendered htrim hflash'
  refine ⟨hkept.congr rfl rfl rfl, fun hc => ?_, fun _ => ?_⟩
  · have hrestorable : b.content.Restorable := by
      refine hc.congr ?_ ?_
      · rw [htrim]
        rfl
      · rw [htrim]
    change t.rendered = (slotsOf t.flash).plate
    have hload : (slotsOf b.flash).content = some b.content.toNdef := by
      rw [hcontent] at hrestorable ⊢
      rw [hflash]
      exact load_save_toNdef laws hwrite _ hrestorable
    have hplate := Slots.plate_of_saved hrestorable hload fun _ =>
        Option.isSome_iff_exists.mpr ⟨_, hstored⟩
    have hsame : (storedImage b.flash).or b.content.image = b.content.image := by
      rw [hstored, hcontent]
      rfl
    rw [hrendered, hflash', hplate]
    exact (congrArg (fun i => { b.content with image := i }) hsame).symm
  · change Drawing.plate _ = Drawing.plate t.rendered
    rw [hrendered, hcontent]

omit hwrite in
/-- A start-up has the plate that flash keeps; out of deep sleep it leaves the glass as it is. -/
theorem boot_paper (nfc : Option (St25r3916 I)) (f : F) (p : Paper Face) (woke : Bool) :
    (boot nfc f p woke).Kept ∧ (boot nfc f p woke).Saved ∧
      (boot nfc f p woke).rendered = (slotsOf f).plate ∧
      (boot nfc f p woke).panel =
        if woke then { Paper.showing (slotsOf f).plate with glass := p.glass }
        else .showing (slotsOf f).plate := by
  obtain ⟨flash, hcells, hrestore⟩ := restore_eq laws nfc f p
  have hslots := slotsOf_congr laws hcells
  have hstored : storedImage flash = storedImage f :=
    congrArg (fun s : Slots => s.image.bind _) hslots
  have hsame : (storedImage flash).or (slotsOf f).plate.image = (slotsOf f).plate.image := by
    change _ = (storedImage f).or _
    rw [hstored]
    change (storedImage f).or ((storedImage f).or _) = _
    cases storedImage f <;> rfl
  obtain ⟨hkept, hrendered⟩ := kept_trimImage (I := I) (a :=
      { nfc, flash, panel := p, content := (slotsOf f).plate, imageInFlash := (storedImage f).isSome
        })
    (pictured_plate f) (by rw [hstored]) hsame
    fun hnone _ himg => small_plate laws (hstored.symm.trans hnone) himg
  rw [← hrestore] at hkept hrendered
  have hflash : (restore { nfc, flash := f, panel := p } : App I F (Paper Face)).trimImage.flash =
      flash := by
    rw [hrestore, trimImage]
    split <;> rfl
  have hcontent : (restore { nfc, flash := f, panel := p } : App I F (Paper Face)).content =
      (slotsOf f).plate := by rw [hrestore]
  obtain ⟨emu, epdSleeping, fastRefreshes, hboot⟩ : ∃ emu epdSleeping fastRefreshes,
      boot nfc f p woke =
      { (restore { nfc, flash := f, panel := p }).trimImage with
        panel := if woke then { Paper.showing (slotsOf f).plate with glass := p.glass }
          else .showing (slotsOf f).plate
        emu, epdSleeping, fastRefreshes } := by
    have hpanel : (restore { nfc, flash := f, panel := p } : App I F (Paper Face)).panel = p := by
      rw [hrestore]
    unfold boot
    generalize restore (I := I) { nfc, flash := f, panel := p } = r at hcontent hpanel ⊢
    have hframe := trimImage_frame r (Panel.draw r.panel r.content) r.epdSleeping r.fastRefreshes
    dsimp only at hframe ⊢
    rw [hframe, ← hcontent, ← hpanel]
    cases woke <;> exact ⟨_, _, _, rfl⟩
  rw [hboot]
  have hplate := hrendered.trans hcontent
  refine ⟨hkept.congr rfl rfl rfl, ?_, hplate, rfl⟩
  change App.rendered (trimImage _) = (slotsOf (trimImage _).flash).plate
  rw [hplate, hflash, hslots]

/-! ## What leaves the plate alone -/

omit laws hwrite in
theorem Shows.same {p : Prop} {a a' : App I F (Paper Face)} (h : a.Shows p)
    (hcontent : a'.content = a.content) (hflag : a'.imageInFlash = a.imageInFlash)
    (hflash : a'.flash = a.flash) (hglass : a'.panel.glass = a.panel.glass) : a'.Shows p := by
  have hslots : slotsOf a'.flash = slotsOf a.flash := by rw [hflash]
  have hrendered := rendered_same hcontent hflag hslots
  refine ⟨h.kept.congr (by rw [hcontent]) hflag hslots, fun hp => ?_, fun hp => ?_⟩
  · rw [Saved, hrendered, hslots]
    exact h.saved hp
  · rw [hglass, hrendered]
    exact h.glass hp

omit laws hwrite in
theorem Shows.mono {p q : Prop} {a : App I F (Paper Face)} (h : a.Shows p) (hqp : q → p) :
    a.Shows q :=
  ⟨h.kept, fun hq => h.saved (hqp hq), fun hq => h.glass (hqp hq)⟩

omit laws hwrite [Flash F] in
theorem manageEpdSleep_paper (idle : Bool) (a : App I F (Paper Face)) :
    ∃ epdSleeping, a.manageEpdSleep idle = { a with epdSleeping } := by
  unfold manageEpdSleep
  split <;> exact ⟨_, rfl⟩

omit laws hwrite in
theorem Shows.manageEpdSleep {p : Prop} {a : App I F (Paper Face)} (h : a.Shows p) (idle : Bool) :
    (a.manageEpdSleep idle).Shows p := by
  obtain ⟨epdSleeping, heq⟩ := a.manageEpdSleep_paper idle
  rw [heq]
  exact h.same rfl rfl rfl rfl

omit laws hwrite in
/-- A poll in reader mode puts nothing on the glass unless it finds a new tag. -/
theorem Shows.polled {p : Prop} {a : App I F (Paper Face)} (h : a.Shows p) (poll : TagPoll I T) :
    (a.pollNfc (a.polledBy poll)).Shows (p ∧ ¬ (a.nfc.isSome ∧ poll.newTag.isSome)) := by
  unfold pollNfc
  cases hnfc : a.nfc with
  | none => exact h.mono And.left
  | some nfc =>
    cases htag : poll.newTag with
    | none =>
      have hglass : (a.polledBy poll).panel.glass = a.panel.glass := by simp only [polledBy, htag]
      exact Shows.mono (Shows.same h rfl rfl rfl hglass) And.left
    | some t =>
      have hno : ∀ {q : Prop}, p ∧ ¬ ((some nfc).isSome ∧ (some t).isSome) → q :=
        fun hp => absurd ⟨rfl, rfl⟩ hp.2
      exact ⟨h.kept.congr rfl rfl rfl, hno, hno⟩

omit hwrite in
/-- Deep sleep leaves the glass alone, and the boot out of it has the plate that flash keeps. -/
theorem Shows.wake {p : Prop} {a : App I F (Paper Face)} (h : a.Shows p)
    (nfc : Option (St25r3916 I)) : (a.wake nfc).Shows p := by
  obtain ⟨epdSleeping, heq⟩ := a.manageEpdSleep_paper true
  obtain ⟨hkept, hsaved, hrendered, hpanel⟩ :=
    boot_paper laws nfc a.flash (ReaderPanel.restart a.panel) true
  unfold App.wake manageEpdSleepNow
  rw [heq]
  refine ⟨hkept, fun _ => hsaved, fun hp => ?_⟩
  dsimp only
  rw [hpanel, hrendered, ← h.saved hp]
  exact h.glass hp

omit hwrite in
theorem Shows.awaits {p : Prop} {a : App I F (Paper Face)} (h : a.Shows p) (hp : p) :
    a.Awaits := by
  intro nfc
  obtain ⟨epdSleeping, heq⟩ := a.manageEpdSleep_paper true
  obtain ⟨flash, -, hrestore⟩ := restore_eq laws nfc a.flash a.panel
  obtain ⟨-, -, -, hpanel⟩ := boot_paper laws nfc a.flash (ReaderPanel.restart a.panel) true
  have hglass : a.panel.glass = Drawing.plate (slotsOf a.flash).plate := by
    rw [h.glass hp, h.saved hp]
  refine ⟨by rw [hrestore, hglass], ?_⟩
  unfold App.wake manageEpdSleepNow
  rw [heq]
  dsimp only
  rw [hpanel]
  exact hglass.symm

end App

end PaperNamePlate
