import PaperNamePlate.App.App
import PaperNamePlate.Lib.Run
import PaperNamePlate.Nfc.TagMemory
import PaperNamePlate.Plate.Message

/-!
# The tag and the flash follow the content

Every change of the content is served on the tag and stored in flash, as long as the
message fits the user area; the result of `setNdef` is not looked at, so a longer
message leaves the old one on the tag.
-/
namespace PaperNamePlate

open Embedded

namespace App

variable {I F D : Type} [Flash F] [Panel D]

/-! ## What redrawing leaves alone -/

/-- Only the panel and its bookkeeping differ. -/
structure Redrawn (a a' : App I F D) : Prop where
  nfc : a'.nfc = a.nfc
  emu : a'.emu = a.emu
  emuRunning : a'.emuRunning = a.emuRunning
  emulate : a'.emulate = a.emulate
  content : a'.content = a.content
  cells : ∀ laws : FlashLaws F, laws.cells a'.flash = laws.cells a.flash

omit [Panel D] in
theorem Redrawn.refl (a : App I F D) : Redrawn a a := ⟨rfl, rfl, rfl, rfl, rfl, fun _ => rfl⟩

omit [Panel D] in
theorem Redrawn.trans {a b c : App I F D} (h : Redrawn a b) (h' : Redrawn b c) : Redrawn a c where
  nfc := h'.nfc.trans h.nfc
  emu := h'.emu.trans h.emu
  emuRunning := h'.emuRunning.trans h.emuRunning
  emulate := h'.emulate.trans h.emulate
  content := h'.content.trans h.content
  cells laws := (h'.cells laws).trans (h.cells laws)

theorem redrawn_wakeEpd (a : App I F D) : Redrawn a a.wakeEpd := by
  unfold wakeEpd
  split
  · exact .refl a
  · exact ⟨rfl, rfl, rfl, rfl, rfl, fun _ => rfl⟩

theorem redrawn_drawPlate (a : App I F D) : Redrawn a a.drawPlate := by
  unfold drawPlate
  split
  · exact ⟨rfl, rfl, rfl, rfl, rfl, fun laws => loadImage_cells laws a.flash⟩
  · exact ⟨rfl, rfl, rfl, rfl, rfl, fun _ => rfl⟩

theorem redrawn_epdRefreshLoop (mode : Epd.GrayMode) (n : Nat) (a : App I F D) :
    Redrawn a (epdRefreshLoop mode n a).2 := by
  induction n generalizing a with
  | zero => exact .refl a
  | succ n ih =>
    unfold epdRefreshLoop
    split
    · exact ⟨rfl, rfl, rfl, rfl, rfl, fun _ => rfl⟩
    · refine Redrawn.trans ?_ (ih _)
      exact ⟨rfl, rfl, rfl, rfl, rfl, fun _ => rfl⟩

theorem redrawn_refreshDisplayed (mode : Epd.GrayMode) (a : App I F D) :
    Redrawn a (a.refreshDisplayed mode) :=
  .trans (redrawn_epdRefreshLoop mode 2 a) ⟨rfl, rfl, rfl, rfl, rfl, fun _ => rfl⟩

/-- After the message is served and a small image is stored, committing only redraws. -/
theorem redrawn_commitContent (a : App I F D) : Redrawn a.serve.persistImage a.commitContent :=
  ((redrawn_wakeEpd _).trans (redrawn_drawPlate _)).trans (redrawn_refreshDisplayed .text _)

omit [Panel D] in
theorem storeImage_eq (img : MonoImage) (a : App I F D) :
    ∃ b, a.storeImage img =
      { a with
        flash := (saveImage a.flash img.width img.height img.bits).2, imageInFlash := b } := by
  unfold storeImage
  split <;> (next heq => rw [heq]; exact ⟨_, rfl⟩)

omit [Panel D] in
/-- Storing an image changes nothing but the flash and the note that it is there. -/
theorem persistImage_eq (a : App I F D) :
    ∃ flash b, a.persistImage = { a with flash, imageInFlash := b } := by
  unfold persistImage
  split
  · exact ⟨_, _, rfl⟩
  · next img _ =>
    split
    · exact ⟨_, storeImage_eq img a⟩
    · exact ⟨_, _, rfl⟩

theorem commitContent_eq (a : App I F D) : a.commitContent.content = a.content ∧
    a.commitContent.emu = (a.emu.setNdef a.content.toNdef).2 := by
  have hr := redrawn_commitContent a
  obtain ⟨flash, b, hb⟩ := persistImage_eq a.serve
  rw [hb] at hr
  exact ⟨hr.content, hr.emu⟩

omit [Flash F] [Panel D] in
theorem trimImage_eq (a : App I F D) : (∃ image, a.trimImage.content = { a.content with image }) ∧
    a.trimImage.emu = a.emu := by
  unfold trimImage
  split
  · exact ⟨⟨none, rfl⟩, rfl⟩
  · exact ⟨⟨a.content.image, rfl⟩, rfl⟩

/-- A BLE image changes the image, which may be dropped again, and the served message. -/
theorem onBleImage_eq (img : MonoImage) (a : App I F D) :
    (∃ image, (a.onBleImage img).content = { a.content with image }) ∧
      (a.onBleImage img).emu =
        (a.emu.setNdef { a.content with image := some img }.toNdef).2 := by
  obtain ⟨b, hb⟩ := storeImage_eq img { a with content := { a.content with image := none } }
  unfold onBleImage
  rw [hb]
  dsimp only
  generalize hserve : serve (F := F) _ = c
  have hwake := redrawn_wakeEpd c
  have hshown := redrawn_refreshDisplayed .quality
    { c.wakeEpd with panel := Panel.draw c.wakeEpd.panel c.wakeEpd.content }.trimImage
  obtain ⟨⟨image, himage⟩, hemu⟩ :=
    trimImage_eq { c.wakeEpd with panel := Panel.draw c.wakeEpd.panel c.wakeEpd.content }
  refine ⟨⟨image, ?_⟩, ?_⟩
  · rw [hshown.content, himage]
    dsimp only
    rw [hwake.content, ← hserve]
    rfl
  · rw [hshown.emu, hemu]
    exact hwake.emu.trans (by rw [← hserve]; rfl)

/-! ## The three copies -/

/-- The tag and the flash hold the message of `c`. -/
structure Copied (laws : FlashLaws F) (c : PlateContent) (a : App I F D) : Prop where
  tag : a.emu.ndef = some c.toNdef
  flash : Stored (laws.cells a.flash) REGION_OFFSET c.toNdef

/-- The tag serves the message of `c`, and flash gives it back. -/
def Serves (a : App I F D) (c : PlateContent) : Prop :=
  a.emu.ndef = some c.toNdef ∧ (load a.flash).1 = some c.toNdef

variable {laws : FlashLaws F}

omit [Panel D] in
theorem Copied.redrawn {c : PlateContent} {a a' : App I F D} (h : Copied laws c a)
    (hr : Redrawn a a') : Copied laws c a' where
  tag := by rw [hr.emu]; exact h.tag
  flash := by rw [hr.cells laws]; exact h.flash

theorem length_toNdef_le_max {c : PlateContent} (hfit : c.ndefSize ≤ 883) :
    c.toNdef.length ≤ MAX_DATA := by
  have hmax : MAX_DATA = 2048 := rfl
  rw [c.length_toNdef]
  omega

omit [Panel D] in
theorem Copied.serves {c : PlateContent} {a : App I F D} (h : Copied laws c a)
    (hfit : c.ndefSize ≤ 883) : a.Serves c := by
  refine ⟨h.tag, load_of_stored laws h.flash ?_ (length_toNdef_le_max hfit)⟩
  intro hnil
  have hlen := c.length_toNdef
  rw [hnil, PlateContent.ndefSize, List.length_nil] at hlen
  omega

omit [Panel D] in
theorem Copied.persistImage (hwrite : WritesSucceed F) {c : PlateContent} {a : App I F D}
    (h : Copied laws c a) (hfit : c.ndefSize ≤ 883) : Copied laws c a.persistImage := by
  unfold App.persistImage
  split
  · exact h
  · next img _ =>
    split
    · obtain ⟨b, hb⟩ := storeImage_eq img a
      rw [hb]
      exact ⟨h.tag, h.flash.saveImage laws hwrite (length_toNdef_le_max hfit) _ _ _⟩
    · exact h

variable (laws)

omit [Panel D] in
/-- A message that fits is served and stored. -/
theorem copied_serve (hwrite : WritesSucceed F) (a : App I F D) (hfit : a.content.ndefSize ≤ 883) :
    Copied laws a.content a.serve where
  tag := T2tEmulator.ndef_setNdef _ (by rw [a.content.length_toNdef]; exact hfit)
  flash := save_stored laws hwrite a.flash (length_toNdef_le_max hfit)

/-- Committing a content that fits serves and stores its message. -/
theorem copied_commitContent (hwrite : WritesSucceed F) (a : App I F D)
    (hfit : a.content.ndefSize ≤ 883) : Copied laws a.content a.commitContent :=
  ((copied_serve laws hwrite a hfit).persistImage hwrite hfit).redrawn (redrawn_commitContent a)

theorem copied_onBleImage (hwrite : WritesSucceed F) (img : MonoImage) (a : App I F D)
    (hfit : { a.content with image := some img }.ndefSize ≤ 883) :
    Copied laws { a.content with image := some img } (a.onBleImage img) := by
  obtain ⟨b, hb⟩ := storeImage_eq img { a with content := { a.content with image := none } }
  unfold onBleImage
  rw [hb]
  have hserve := (copied_serve laws hwrite { a with
    flash := (saveImage a.flash img.width img.height img.bits).2, imageInFlash := b,
    content := { a.content with image := some img } } hfit).redrawn (redrawn_wakeEpd _)
  refine Copied.redrawn ?_ (redrawn_refreshDisplayed .quality _)
  unfold trimImage
  split <;> exact ⟨hserve.tag, hserve.flash⟩

/-! ## Runs -/

/-- A content change: a text that `applyPlain` accepts, an image, the removal of the image, or what
a reader has left in the tag's memory. -/
inductive ServeOp
  | bleContent (text : List UInt8)
      (accepted : ∃ c, PlateContent.applyPlain {} (lossy text) = .ok c)
  | bleImage (img : MonoImage)
  | clearImage
  | tagWritten (memory : Block MEM_BYTES)

def serveStep (a : App I F D) : ServeOp → App I F D
  | .bleContent text _ => a.onBleContent text
  | .bleImage img => a.onBleImage img
  | .clearImage => a.onClearImage
  | .tagWritten memory => { a with emu := { a.emu with memory } }.onTagWritten

/-- The content that the operation's message is built from. -/
def built (a : App I F D) : ServeOp → PlateContent
  | .bleContent text _ =>
    match a.content.applyPlain (lossy text) with
    | .ok c => c
    | .error _ => a.content
  | .bleImage img => { a.content with image := some img }
  | .clearImage => { a.content with image := none }
  | .tagWritten memory =>
    match { a.emu with memory }.ndef with
    | some m => a.content.applyNdef m
    | none => a.content

/-- Whether a text is accepted does not depend on the content. -/
theorem applyPlain_accepts {text : Str} (h : ∃ c, PlateContent.applyPlain {} text = .ok c)
    (c : PlateContent) : ∃ c', c.applyPlain text = .ok c' := by
  obtain ⟨c', hc'⟩ := h
  unfold PlateContent.applyPlain at hc' ⊢
  dsimp only at hc' ⊢
  split at hc'
  · cases hc'
  · next h1 =>
    rw [if_neg h1]
    split at hc'
    · cases hc'
    · next h2 =>
      rw [if_neg h2]
      exact ⟨_, rfl⟩

/-- The step lemma: an operation whose message fits serves and stores it. -/
theorem copied_serveStep (hwrite : WritesSucceed F) (a : App I F D) (op : ServeOp)
    (hfit : (a.built op).ndefSize ≤ 883) : Copied laws (a.built op) (a.serveStep op) := by
  cases op with
  | bleContent text accepted =>
    obtain ⟨c, hc⟩ := applyPlain_accepts accepted a.content
    simp only [built, serveStep, onBleContent, hc] at hfit ⊢
    exact copied_commitContent laws hwrite { a with content := c } hfit
  | bleImage img => exact copied_onBleImage laws hwrite img a hfit
  | clearImage =>
    exact copied_commitContent laws hwrite { a with
      content := { a.content with image := none }, imageInFlash := false,
      flash := (PaperNamePlate.clearImage a.flash).2 } hfit
  | tagWritten memory =>
    simp only [built, serveStep, onTagWritten] at hfit ⊢
    cases hm : { a.emu with memory }.ndef with
    | some m =>
      simp only [hm] at hfit ⊢
      exact copied_commitContent laws hwrite { a with
        emu := { a.emu with memory }, content := a.content.applyNdef m } hfit
    | none =>
      simp only [hm] at hfit ⊢
      exact copied_commitContent laws hwrite { a with emu := { a.emu with memory } } hfit

/-- In a run whose messages all fit the user area, the tag serves and flash returns the message of
the current content after every operation. -/
theorem serves_current (laws : FlashLaws F) (hwrite : WritesSucceed F) (a : App I F D)
    (ops : List ServeOp)
    (hfit : EachStep serveStep (fun a op => (a.built op).ndefSize ≤ 883) a ops) :
    EachStep serveStep (fun a op => (a.serveStep op).Serves (a.built op)) a ops :=
  hfit.mono fun a op h => (copied_serveStep laws hwrite a op h).serves h

end App

/-! A board without the NFC chip, whose flash is its cells and whose panel shows nothing. -/

instance : Panel Unit where
  draw _ _ := ()
  displayGray4 _ _ := (true, ())
  powerOn _ := ()
  hardReset _ := ()
  init _ := ()
  deepSleep _ := ()
  copyDisplayed _ := ()

namespace App

/-- The board at start-up, with erased flash. -/
def bare : App Empty Cells Unit := boot none (fun _ => 0xFF) () false

theorem serves_current_card : EachStep serveStep (fun a op => (a.serveStep op).Serves (a.built op))
    bare [.bleContent (utf8 "Kenta\n\n@ciniml".toList) ⟨_, rfl⟩, .clearImage] :=
  serves_current cellsLaws (fun _ _ _ _ => rfl) bare _
    ⟨by decide +kernel, by decide +kernel, trivial⟩

/-- A full-length URL and nothing else. -/
def longUrl : Str := List.replicate 5 '\n' ++ List.replicate 200 'a'

/-- The largest image that is put into the message. -/
def strip : MonoImage := ⟨8, 696, List.replicate 696 0⟩

/-- The message of a full-length URL with an image of 700 bytes is larger than the user area. -/
theorem large_message_not_served : ¬ ∀ ops : List ServeOp,
    EachStep serveStep (fun a op => (a.serveStep op).Serves (a.built op)) bare ops := by
  intro h
  obtain ⟨-, hserves, -⟩ :=
    h [.bleContent (utf8 longUrl) ⟨{ url := List.replicate 200 'a' }, by
      rw [lossy_utf8]; decide +kernel⟩, .bleImage strip]
  have hlen := T2tEmulator.length_ndef_le hserves.1
  rw [PlateContent.length_toNdef] at hlen
  exact absurd hlen (by decide +kernel)

end App

end PaperNamePlate
