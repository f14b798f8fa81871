import PaperNamePlate.App.Serving
import PaperNamePlate.Plate.Limits
import PaperNamePlate.Store.Slots

/-!
# The image on the plate

A large image is not kept in memory: each redraw reads it back from flash, on the
word of `imageInFlash`. Flash writes may fail. The flag is only ever set by a save
and cleared with the image, so after a failed save it vouches for the image before.
-/
namespace PaperNamePlate

open Embedded

/-- A panel together with the contents that were drawn on it. -/
structure Recorder (D : Type) where
  panel : D
  drawn : List PlateContent := []

instance {D : Type} [Panel D] : Panel (Recorder D) where
  draw r c := { panel := Panel.draw r.panel c, drawn := r.drawn ++ [c] }
  displayGray4 r mode :=
    let (ok, panel) := Panel.displayGray4 r.panel mode
    (ok, { r with panel })
  powerOn r := { r with panel := Panel.powerOn r.panel }
  hardReset r := { r with panel := Panel.hardReset r.panel }
  init r := { r with panel := Panel.init r.panel }
  deepSleep r := { r with panel := Panel.deepSleep r.panel }
  copyDisplayed r := { r with panel := Panel.copyDisplayed r.panel }

namespace App

/-- The image that stays in memory after `trimImage`. -/
def residentImage (inFlash : Bool) (img : MonoImage) : Option MonoImage :=
  if inFlash && img.bits.length > IMAGE_KEEP_MAX then none else some img

section

variable {I F D : Type} [Flash F]

/-- What `drawPlate` draws. -/
def rendered (a : App I F D) : PlateContent :=
  if a.content.image.isNone && a.imageInFlash then
    { a.content with image := (loadImage a.flash).1.bind MonoImage.decodeOwned }
  else a.content

theorem rendered_resident {a : App I F D} {img : MonoImage} (h : a.content.image = some img) :
    a.rendered.image = some img := by
  simp [rendered, h]

theorem rendered_absent {a : App I F D} (h : a.imageInFlash = false) :
    a.rendered.image = a.content.image := by
  simp [rendered, h]

theorem rendered_stored {a : App I F D} (h : a.content.image = none)
    (hin : a.imageInFlash = true) :
    a.rendered.image = (loadImage a.flash).1.bind MonoImage.decodeOwned := by
  simp [rendered, h, hin]

/-- The image depends on the residency and on what the image slot holds. -/
theorem rendered_congr {a a' : App I F D} (himage : a'.content.image = a.content.image)
    (hin : a'.imageInFlash = a.imageInFlash)
    (hload : (loadImage a'.flash).1 = (loadImage a.flash).1) :
    a'.rendered.image = a.rendered.image := by
  unfold rendered
  rw [himage, hin, hload]
  split
  · rfl
  · exact himage

variable (laws : FlashLaws F) (hrange : WritesInRange laws)

include laws hrange

/-- Saving the content leaves the image slot alone, whether it succeeds or not. -/
theorem loadImage_save (f : F) (data : List UInt8) :
    (loadImage (save f data).2).1 = (loadImage f).1 := by
  have hdis : REGION_OFFSET + (HEADER + MAX_DATA) ≤ IMAGE_OFFSET := by decide
  rw [loadImage_eq laws, loadImage_eq laws]
  refine recordIn_congr (by decide) fun b n hb _ => List.map_congr_left fun i _ => ?_
  exact saveRec_outside laws hrange f data (Nat.zero_le _) (.inr (by omega))

theorem rendered_serve (a : App I F D) : a.serve.rendered.image = a.rendered.image :=
  rendered_congr rfl rfl (loadImage_save laws hrange a.flash a.content.toNdef)

omit laws hrange in
/-- A save of the image that is resident does not change what is drawn. -/
theorem rendered_persistImage (a : App I F D) :
    a.persistImage.rendered.image = a.rendered.image := by
  cases himage : a.content.image with
  | none =>
    have hsame : a.persistImage = a := by simp [persistImage, himage]
    rw [hsame]
  | some img =>
    obtain ⟨flash, b, hb⟩ := persistImage_eq a
    rw [rendered_resident himage]
    exact rendered_resident (by rw [hb]; exact himage)

end

/-! ## What is drawn -/

section

variable {I F D : Type} [Flash F] [Panel D]

omit [Flash F] in
/-- Waking and refreshing change the panel and its bookkeeping, and draw nothing. -/
theorem wakeEpd_eq (a : App I F (Recorder D)) : ∃ panel epdSleeping fastRefreshes,
    panel.drawn = a.panel.drawn ∧
      a.wakeEpd = { a with panel, epdSleeping, fastRefreshes } := by
  unfold wakeEpd
  split
  · exact ⟨a.panel, a.epdSleeping, a.fastRefreshes, rfl, rfl⟩
  · exact ⟨Panel.init (Panel.hardReset a.panel), false, 0, rfl, rfl⟩

omit [Flash F] in
theorem epdRefreshLoop_eq (mode : Epd.GrayMode) (n : Nat) (a : App I F (Recorder D)) :
    ∃ panel epdSleeping, panel.drawn = a.panel.drawn ∧
      (epdRefreshLoop mode n a).2 = { a with panel, epdSleeping } := by
  induction n generalizing a with
  | zero => exact ⟨_, _, rfl, rfl⟩
  | succ n ih =>
    simp only [epdRefreshLoop, Panel.displayGray4]
    rcases Panel.displayGray4 a.panel.panel mode with ⟨_ | _, panel⟩
    · obtain ⟨panel, epdSleeping, hdrawn, heq⟩ := ih
        { a with
          panel := Panel.init (Panel.powerOn { a.panel with panel })
          epdSleeping := false }
      exact ⟨panel, epdSleeping, hdrawn, heq⟩
    · exact ⟨{ a.panel with panel }, a.epdSleeping, rfl, rfl⟩

omit [Flash F] in
theorem refreshDisplayed_eq (mode : Epd.GrayMode) (a : App I F (Recorder D)) :
    ∃ panel epdSleeping, panel.drawn = a.panel.drawn ∧
      a.refreshDisplayed mode = { a with panel, epdSleeping, fastRefreshes := 1 } := by
  obtain ⟨panel, epdSleeping, hdrawn, heq⟩ := epdRefreshLoop_eq mode 2 a
  unfold refreshDisplayed epdRefresh
  generalize epdRefreshLoop mode 2 a = r at heq
  obtain ⟨_ | _, b⟩ := r
  · exact ⟨panel, epdSleeping, hdrawn, by dsimp only at heq ⊢; rw [heq]; rfl⟩
  · exact ⟨Panel.copyDisplayed panel, epdSleeping, hdrawn, by dsimp only at heq ⊢; rw [heq]; rfl⟩

theorem drawPlate_eq (a : App I F (Recorder D)) :
    a.drawPlate.panel.drawn = a.panel.drawn ++ [a.rendered] ∧
      a.drawPlate.content = a.content ∧ a.drawPlate.imageInFlash = a.imageInFlash := by
  unfold drawPlate rendered
  split <;> exact ⟨rfl, rfl, rfl⟩

variable (laws : FlashLaws F) (hrange : WritesInRange laws)

include laws hrange

/-- Committing draws the content with the image that is on the plate, and keeps it there. -/
theorem shown_commitContent (a : App I F (Recorder D)) :
    (∃ c : PlateContent, a.commitContent.panel.drawn = a.panel.drawn ++ [c] ∧
        c.image = a.rendered.image) ∧
      a.commitContent.rendered.image = a.rendered.image := by
  have hserved : a.serve.persistImage.rendered.image = a.rendered.image :=
    (rendered_persistImage _).trans (rendered_serve laws hrange a)
  obtain ⟨flash, b, hpersist⟩ := persistImage_eq a.serve
  unfold commitContent
  generalize hs : a.serve.persistImage = s at hserved hpersist ⊢
  have hpanel : s.panel = a.panel := by rw [hpersist]; rfl
  obtain ⟨panel, sleeping, n, hdrawn, hwake⟩ := wakeEpd_eq s
  have hdraw := drawPlate_eq s.wakeEpd
  have hcells := (redrawn_drawPlate s.wakeEpd).cells laws
  generalize s.wakeEpd.drawPlate = d at hdraw hcells ⊢
  obtain ⟨panel', sleeping', hdrawn', hrefresh⟩ := refreshDisplayed_eq .text d
  have hwoken : s.wakeEpd.rendered.image = s.rendered.image := by
    rw [hwake]
    rfl
  refine ⟨⟨s.wakeEpd.rendered, ?_, hwoken.trans hserved⟩, ?_⟩
  · rw [hrefresh, hdrawn', hdraw.1, hwake, ← hpanel]
    exact congrArg (· ++ _) hdrawn
  · rw [hrefresh, ← hserved, ← hwoken]
    refine rendered_congr (congrArg PlateContent.image hdraw.2.1) hdraw.2.2 ?_
    rw [loadImage_eq laws, loadImage_eq laws, hcells]

omit laws hrange [Flash F] [Panel D] in
theorem trimImage_some {a : App I F D} {img : MonoImage} (h : a.content.image = some img) :
    a.trimImage = { a with
      content := { a.content with image := residentImage a.imageInFlash img } } := by
  simp only [trimImage, residentImage, h, Option.any_some]
  split
  · rfl
  · rw [← h]

omit laws hrange in
/-- The app as a BLE image leaves it, up to the panel: stored, served and perhaps dropped again. -/
theorem onBleImage_shown (img : MonoImage) (a : App I F (Recorder D)) :
    ∃ panel epdSleeping,
      panel.drawn = a.panel.drawn ++ [{ a.content with image := some img }] ∧
      a.onBleImage img =
        { ({ a with
              content := { a.content with image := some img }
              flash := (a.storeImage img).flash
              imageInFlash := (a.storeImage img).imageInFlash } : App I F (Recorder D)).serve with
          content := { a.content with image := residentImage (a.storeImage img).imageInFlash img }
          panel, epdSleeping, fastRefreshes := 1 } := by
  have hstore : { a with content := { a.content with image := none } }.storeImage img =
      { a with
        content := { a.content with image := none }
        flash := (a.storeImage img).flash
        imageInFlash := (a.storeImage img).imageInFlash } := by
    unfold storeImage
    split <;> (next heq => dsimp only at heq ⊢; rw [heq])
  unfold onBleImage
  rw [hstore]
  dsimp only
  generalize hs : serve (F := F) _ = s
  have hcontent : s.content = { a.content with image := some img } := by rw [← hs]; rfl
  have hpanel : s.panel = a.panel := by rw [← hs]; rfl
  have hin : s.imageInFlash = (a.storeImage img).imageInFlash := by rw [← hs]; rfl
  obtain ⟨panel, sleeping, n, hdrawn, hwake⟩ := wakeEpd_eq s
  rw [hwake]
  dsimp only
  have htrim := trimImage_some (a := { s with
    panel := Panel.draw panel s.content, epdSleeping := sleeping, fastRefreshes := n })
    (congrArg PlateContent.image hcontent)
  rw [htrim]
  obtain ⟨panel', sleeping', hdrawn', hrefresh⟩ := refreshDisplayed_eq .quality
    { s with
      content := { s.content with image := residentImage s.imageInFlash img }
      panel := Panel.draw panel s.content
      epdSleeping := sleeping
      fastRefreshes := n }
  refine ⟨panel', sleeping', ?_, ?_⟩
  · rw [hdrawn', ← hcontent, ← hpanel]
    exact congrArg (· ++ _) hdrawn
  · rw [hrefresh, hcontent, hin]

omit laws hrange in
theorem onBleImage_residency (img : MonoImage) (a : App I F (Recorder D)) :
    (a.onBleImage img).content.image = residentImage (a.storeImage img).imageInFlash img ∧
      (a.onBleImage img).imageInFlash = (a.storeImage img).imageInFlash ∧
      ∃ data, (a.onBleImage img).flash = (save (a.storeImage img).flash data).2 := by
  obtain ⟨panel, sleeping, -, happ⟩ := onBleImage_shown img a
  rw [happ]
  exact ⟨rfl, rfl, _, rfl⟩

omit [Panel D] laws hrange in
theorem storeImage_failed {img : MonoImage} {a : App I F D} {e : Flash.Error F} {f : F}
    (h : saveImage a.flash img.width img.height img.bits = (.error e, f)) :
    a.storeImage img = { a with flash := f } := by
  simp only [storeImage, h]

omit [Panel D] laws hrange in
theorem storeImage_saved {img : MonoImage} {a : App I F D}
    (h : (saveImage a.flash img.width img.height img.bits).1 = .ok ()) :
    a.storeImage img = { a with
      flash := (saveImage a.flash img.width img.height img.bits).2, imageInFlash := true } := by
  unfold storeImage
  split
  · next heq => rw [heq]
  · next heq =>
    rw [heq] at h
    cases h

end

end App

/-! ## Runs -/

/-- A call that may change what the plate shows; `memory` is what a reader has left in the tag. -/
inductive PlateOp
  | bleContent (text : List UInt8)
  | bleImage (img : MonoImage) (sized : img.Sized)
  | clearImage
  | tagWritten (memory : Block MEM_BYTES)

/-- The app with the image that was last adopted since the last clear. -/
structure Showing (I F D : Type) where
  app : App I F (Recorder D)
  adopted : Option MonoImage

namespace Showing

variable {I F D : Type} [Flash F] [Panel D]

/-- What the plate shows at the start counts as adopted. -/
def start (a : App I F (Recorder D)) : Showing I F D := ⟨a, a.rendered.image⟩

def step (s : Showing I F D) : PlateOp → Showing I F D
  | .bleContent text => { s with app := s.app.onBleContent text }
  | .bleImage img _ => ⟨s.app.onBleImage img, some img⟩
  | .clearImage => ⟨s.app.onClearImage, none⟩
  | .tagWritten memory =>
    ⟨{ s.app with emu := { s.app.emu with memory } }.onTagWritten,
      ({ s.app.emu with memory }.ndef.bind PlateContent.lastPicture).or s.adopted⟩

/-- The plate shows the adopted image when it is drawn next. -/
def Shows (s : Showing I F D) : Prop := s.app.rendered.image = s.adopted

/-- The contents that a step draws. -/
def drawn (s : Showing I F D) (op : PlateOp) : List PlateContent :=
  (s.step op).app.panel.drawn.drop s.app.panel.drawn.length

/-- A large image cannot be saved while the flash is believed to hold an image. -/
def Unsaved (s : Showing I F D) (op : PlateOp) : Prop :=
  ∃ img sized, op = .bleImage img sized ∧ IMAGE_KEEP_MAX < img.bits.length ∧
    s.app.imageInFlash = true ∧ (saveImage s.app.flash img.width img.height img.bits).1 ≠ .ok ()

variable (laws : FlashLaws F) (hrange : WritesInRange laws)

include laws hrange

theorem shows_commit (s : Showing I F D) (op : PlateOp) {a : App I F (Recorder D)}
    (happ : (s.step op).app = a.commitContent) (hpanel : a.panel.drawn = s.app.panel.drawn)
    (hshows : a.rendered.image = (s.step op).adopted) :
    (s.step op).Shows ∧ ∀ c ∈ s.drawn op, c.image = (s.step op).adopted := by
  obtain ⟨⟨c, hdrawn, hc⟩, hrendered⟩ := App.shown_commitContent laws hrange a
  refine ⟨?_, ?_⟩
  · rw [Shows, happ, hrendered, hshows]
  · intro c' hc'
    rw [drawn, happ, hdrawn, ← hpanel, List.drop_left, List.mem_singleton] at hc'
    rw [hc', hc, hshows]

theorem rendered_onBleImage (a : App I F (Recorder D)) (img : MonoImage) :
    (a.onBleImage img).rendered.image =
      if (a.storeImage img).imageInFlash = true ∧ IMAGE_KEEP_MAX < img.bits.length then
        (loadImage (saveImage a.flash img.width img.height img.bits).2).1.bind
          MonoImage.decodeOwned
      else some img := by
  obtain ⟨hcontent, hin, data, hflash⟩ := App.onBleImage_residency img a
  obtain ⟨b, hb⟩ := App.storeImage_eq img a
  have hload : (loadImage (a.onBleImage img).flash).1 =
      (loadImage (saveImage a.flash img.width img.height img.bits).2).1 := by
    rw [hflash, App.loadImage_save laws hrange, hb]
  split
  · next h =>
    rw [App.rendered_stored (by rw [hcontent]; simp [App.residentImage, h.1, h.2])
      (hin.trans h.1), hload]
  · next h =>
    refine App.rendered_resident ?_
    rw [hcontent, App.residentImage, if_neg]
    simpa using h

/-- A text changes no image, and one that is refused changes nothing. -/
theorem shows_bleContent (s : Showing I F D) (text : List UInt8) (hs : s.Shows) :
    (s.step (.bleContent text)).Shows ∧
      ∀ c ∈ s.drawn (.bleContent text), c.image = (s.step (.bleContent text)).adopted := by
  cases hc : s.app.content.applyPlain (lossy text) with
  | ok c =>
    refine shows_commit laws hrange s _ (a := { s.app with content := c }) ?_ rfl ?_
    · simp only [step, App.onBleContent, hc]
    · have himage : c.image = s.app.content.image := by
        rw [(PlateContent.applyPlain_eq hc).1]
        rfl
      have hsame : ({ s.app with content := c } : App I F (Recorder D)).rendered.image =
          s.app.rendered.image := App.rendered_congr himage rfl rfl
      exact hsame.trans hs
  | error e =>
    have hsame : s.step (.bleContent text) = s := by simp only [step, App.onBleContent, hc]
    rw [drawn, hsame, List.drop_length]
    exact ⟨hs, by simp⟩

/-- An image that is stored is drawn, and loaded back if it is large. -/
theorem shows_bleImage (s : Showing I F D) {img : MonoImage} (sized : img.Sized)
    (hop : ¬ s.Unsaved (.bleImage img sized)) :
    (s.step (.bleImage img sized)).Shows ∧
      ∀ c ∈ s.drawn (.bleImage img sized), c.image = (s.step (.bleImage img sized)).adopted := by
  obtain ⟨panel, sleeping, hdrawn, happ⟩ := App.onBleImage_shown img s.app
  refine ⟨?_, ?_⟩
  · change (s.app.onBleImage img).rendered.image = some img
    rw [rendered_onBleImage laws hrange]
    split
    · next h =>
      have hok : (saveImage s.app.flash img.width img.height img.bits).1 = .ok () := by
        by_contra hfail
        refine hop ⟨img, sized, rfl, h.2, ?_, hfail⟩
        -- a failed save leaves the flag as it was
        cases hr : saveImage s.app.flash img.width img.height img.bits with
        | mk r f =>
          cases r with
          | ok u => exact absurd (by rw [hr]) hfail
          | error e =>
            have hin := h.1
            rwa [App.storeImage_failed hr] at hin
      rw [loadImage_saveImage laws _ sized hok]
      exact MonoImage.decodeOwned_encode sized
    · rfl
  · intro c hc
    have hpanel : (s.app.onBleImage img).panel = panel := by rw [happ]
    change c ∈ (s.app.onBleImage img).panel.drawn.drop _ at hc
    rw [hpanel, hdrawn, List.drop_left, List.mem_singleton] at hc
    rw [hc]
    rfl

/-- What a reader wrote is drawn, with the image that its last picture record gives if any. -/
theorem shows_tagWritten (s : Showing I F D) (memory : Block MEM_BYTES) (hs : s.Shows) :
    (s.step (.tagWritten memory)).Shows ∧
      ∀ c ∈ s.drawn (.tagWritten memory), c.image = (s.step (.tagWritten memory)).adopted := by
  cases hm : { s.app.emu with memory }.ndef with
  | none =>
    refine shows_commit laws hrange s _ (a := { s.app with emu := { s.app.emu with memory } })
      ?_ rfl ?_
    · simp only [step, App.onTagWritten, hm]
    · simp only [step, hm]
      exact hs
  | some m =>
    refine shows_commit laws hrange s _ (a := { s.app with
      emu := { s.app.emu with memory }, content := s.app.content.applyNdef m }) ?_ rfl ?_
    · simp only [step, App.onTagWritten, hm]
    · simp only [step, hm, Option.bind_some]
      have himage := s.app.content.applyNdef_image m
      cases hpic : PlateContent.lastPicture m with
      | some img =>
        rw [hpic] at himage
        exact App.rendered_resident himage
      | none =>
        rw [hpic] at himage
        have hsame : ({ s.app with
            emu := { s.app.emu with memory }
            content := s.app.content.applyNdef m } : App I F (Recorder D)).rendered.image =
            s.app.rendered.image := App.rendered_congr himage rfl rfl
        exact hsame.trans hs

/-- The step lemma: unless a large image cannot be saved, what is drawn is what was adopted. -/
theorem step_shows (s : Showing I F D) (op : PlateOp) (hs : s.Shows) (hop : ¬ s.Unsaved op) :
    (s.step op).Shows ∧ ∀ c ∈ s.drawn op, c.image = (s.step op).adopted := by
  cases op with
  | bleContent text => exact shows_bleContent laws hrange s text hs
  | bleImage img sized => exact shows_bleImage laws hrange s sized hop
  | clearImage =>
    refine shows_commit laws hrange s _ (a := { s.app with
      content := { s.app.content with image := none }, imageInFlash := false,
      flash := (clearImage s.app.flash).2 }) rfl rfl ?_
    exact App.rendered_absent rfl
  | tagWritten memory => exact shows_tagWritten laws hrange s memory hs

/-- In a run in which no large image fails to be saved while flash is believed to hold one, every
drawing shows the image adopted last, and so would the next one in every state. -/
theorem shows_adopted (a : App I F (Recorder D)) (ops : List PlateOp)
    (h : EachStep step (fun s op => ¬ s.Unsaved op) (start a) ops) :
    Always step Shows (start a) ops ∧
      EachStep step (fun s op => ∀ c ∈ s.drawn op, c.image = (s.step op).adopted)
        (start a) ops := by
  have hshows : Always step Shows (start a) ops :=
    always_of_step (fun s op hs hop => (step_shows laws hrange s op hs hop).1) rfl h
  refine ⟨hshows, (hshows.eachStep.and h).mono fun s op hs => ?_⟩
  exact (step_shows laws hrange s op hs.1 hs.2).2

end Showing

/-! ## A worn flash -/

/-- A flash whose image header can be written only so many times more. -/
structure Worn where
  cells : Cells
  left : Nat

instance : Flash Worn where
  Error := Unit
  read f off n := (.ok ⟨(f.cells.read off n).toArray, by simp⟩, f)
  write f off bs :=
    if off = IMAGE_OFFSET then
      match f.left with
      | 0 => (.error (), f)
      | left + 1 => (.ok (), ⟨f.cells.write off bs, left⟩)
    else (.ok (), { f with cells := f.cells.write off bs })

def wornLaws : FlashLaws Worn where
  cells f := f.cells
  read_ok _ _ _ _ := ⟨_, rfl, rfl⟩
  read_cells _ _ _ := rfl
  write_cells f off bs h := by
    simp only [Flash.write] at h ⊢
    split
    · next hoff =>
      rw [if_pos hoff] at h
      split at h
      · cases h
      · rfl
    · rfl

theorem writesInRange_worn : WritesInRange wornLaws := by
  intro f off bs a ha
  have hwrite := f.cells.write_outside off bs a ha
  simp only [wornLaws, Flash.write]
  split
  · split
    · rfl
    · exact hwrite
  · exact hwrite

theorem save_worn (f : Worn) (data : List UInt8) : (save f data).2.left = f.left := by
  have hoff : REGION_OFFSET ≠ IMAGE_OFFSET := by decide
  simp only [save, saveRec, Flash.write, if_neg hoff, List.append_nil, length_recordHeader]
  split <;> rfl

theorem saveImage_worn_out {f : Worn} (h : f.left = 0) (img : MonoImage) :
    saveImage f img.width img.height img.bits = (.error (), f) := by
  simp only [saveImage, saveRec, Flash.write, if_true, h]

theorem saveImage_worn {f : Worn} (h : f.left = 1) (img : MonoImage) :
    (saveImage f img.width img.height img.bits).1 = .ok () ∧
      (saveImage f img.width img.height img.bits).2.left = 0 := by
  have hoff : ∀ data : List UInt8, IMAGE_OFFSET +
      (recordHeader data ++ (u16ToLe img.width ++ u16ToLe img.height)).length ≠ IMAGE_OFFSET := by
    intro data
    simp [HEADER]
  simp only [saveImage, saveRec, Flash.write, if_true, h, if_neg (hoff _)]
  split <;> exact ⟨rfl, rfl⟩

namespace Showing

/-- The board at start-up, with erased flash that takes one more image. -/
def worn : App Empty Worn (Recorder Unit) := App.boot none ⟨Cells.erased, 1⟩ ⟨(), []⟩ false

/-- A dot, a text and the removal of the dot. -/
def dotOps : List PlateOp :=
  [.bleImage ⟨8, 1, [0x80]⟩ ⟨by decide, by decide, by decide, by decide, by decide⟩,
    .bleContent (utf8 "Kenta".toList), .clearImage]

theorem shows_adopted_dot : Always step Shows (start worn) dotOps ∧
    EachStep step (fun s op => ∀ c ∈ s.drawn op, c.image = (s.step op).adopted)
      (start worn) dotOps := by
  refine shows_adopted wornLaws writesInRange_worn worn dotOps ⟨?_, ?_, ?_, trivial⟩
  · rintro ⟨img, _, hop, hlarge, -⟩
    cases hop
    exact absurd hlarge (by decide)
  · rintro ⟨img, _, hop, -⟩
    cases hop
  · rintro ⟨img, _, hop, -⟩
    cases hop

/-- After a second large image cannot be saved, a text is drawn with the first one. -/
theorem worn_redraws_first {first second : MonoImage} (hfirst : first.Sized)
    (hsecond : second.Sized) (hlarge : IMAGE_KEEP_MAX < first.bits.length)
    (hlarge' : IMAGE_KEEP_MAX < second.bits.length) :
    ∃ c ∈ (run step (start worn) [.bleImage first hfirst, .bleImage second hsecond]).drawn
      (.bleContent []), c.image = some first := by
  have hflag : worn.imageInFlash = false := by decide +kernel
  have hsaved := saveImage_worn (f := worn.flash) rfl first
  have hstart : (start worn).Shows := rfl
  -- the first image is saved and not kept in memory
  have hshown : (worn.onBleImage first).rendered.image = some first :=
    (step_shows wornLaws writesInRange_worn (start worn) (.bleImage first hfirst) hstart
      (fun ⟨_, _, _, _, hin, _⟩ => Bool.false_ne_true (hflag.symm.trans hin))).1
  obtain ⟨hcontent, hin, data, hflash⟩ := App.onBleImage_residency first worn
  rw [App.storeImage_saved hsaved.1] at hcontent hin hflash
  have hleft : (worn.onBleImage first).flash.left = 0 := by
    rw [hflash, save_worn]
    exact hsaved.2
  change ∃ c ∈ drawn ⟨(worn.onBleImage first).onBleImage second, some second⟩ (.bleContent []), _
  generalize worn.onBleImage first = a at hcontent hin hleft hshown ⊢
  have hresident : a.content.image = none := by
    rw [hcontent, App.residentImage, if_pos]
    simpa using hlarge
  -- the save of the second one fails, and flash still holds the first
  have hfailed := saveImage_worn_out hleft second
  have hstale : (a.onBleImage second).rendered.image = some first := by
    rw [rendered_onBleImage wornLaws writesInRange_worn, App.storeImage_failed hfailed, hfailed,
      if_pos ⟨hin, hlarge'⟩, ← hshown, App.rendered_stored hresident hin]
  generalize a.onBleImage second = b at hstale
  obtain ⟨c, hc⟩ := App.applyPlain_accepts (show ∃ c, PlateContent.applyPlain {} (lossy []) =
      .ok c from ⟨_, rfl⟩)
    b.content
  obtain ⟨⟨d, hdrawn, hd⟩, -⟩ := App.shown_commitContent wornLaws writesInRange_worn
    { b with content := c }
  have hkept : ({ b with content := c } : App Empty Worn (Recorder Unit)).rendered.image =
      b.rendered.image := by
    refine App.rendered_congr ?_ rfl rfl
    rw [(PlateContent.applyPlain_eq hc).1]
    rfl
  refine ⟨d, ?_, hd.trans (hkept.trans hstale)⟩
  change d ∈ (b.onBleContent []).panel.drawn.drop b.panel.drawn.length
  simp only [App.onBleContent, hc, hdrawn, List.drop_left, List.mem_singleton]

/-- Two images whose saves differ in success, and a text: the text is drawn with the first. -/
theorem failed_save_swaps_image : ¬ ∀ ops : List PlateOp,
    EachStep step (fun s op => ∀ c ∈ s.drawn op, c.image = (s.step op).adopted)
      (start worn) ops := by
  intro h
  have hfirst : MonoImage.Sized ⟨480, 137, List.replicate 8220 0⟩ :=
    ⟨by decide, by decide, by decide, by decide, List.length_replicate⟩
  have hsecond : MonoImage.Sized ⟨480, 138, List.replicate 8280 0⟩ :=
    ⟨by decide, by decide, by decide, by decide, List.length_replicate⟩
  obtain ⟨c, hc, himage⟩ := worn_redraws_first hfirst hsecond
    (by rw [List.length_replicate]; decide) (by rw [List.length_replicate]; decide)
  obtain ⟨-, -, hlast, -⟩ := h [.bleImage _ hfirst, .bleImage _ hsecond, .bleContent []]
  have hadopted := (hlast c hc).symm.trans himage
  exact absurd (congrArg MonoImage.height (Option.some.inj hadopted)) (by decide)

end Showing

end PaperNamePlate
