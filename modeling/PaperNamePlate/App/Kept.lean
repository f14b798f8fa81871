import PaperNamePlate.App.Shown
import PaperNamePlate.Plate.Restorable

/-!
# What flash keeps of the plate

A start-up puts the plate together from the two slots. While no write fails, the image slot
and the flag that vouches for it agree with the image in memory, and committing a restorable
content leaves in flash the plate that is drawn.
-/
namespace PaperNamePlate

open Embedded

/-- The image in flash. -/
def storedImage {F : Type} [Flash F] (f : F) : Option MonoImage :=
  (loadImage f).1.bind MonoImage.decodeOwned

/-- The plate that a start-up puts together. -/
def Slots.plate (s : Slots) : PlateContent :=
  let c := match s.content with
    | some msg => PlateContent.demo.applyNdef msg
    | none => .demo
  { c with image := (s.image.bind MonoImage.decodeOwned).or c.image }

/-- With the message of a restorable content in its slot, and its image in the other one, that
content is put together. -/
theorem Slots.plate_of_saved {s : Slots} {c : PlateContent} (hc : c.Restorable)
    (hmsg : s.content = some c.toNdef)
    (himage : c.image.isSome → (s.image.bind MonoImage.decodeOwned).isSome) :
    s.plate = { c with image := (s.image.bind MonoImage.decodeOwned).or c.image } := by
  obtain ⟨image, hrestored⟩ := hc.applyNdef .demo
  unfold Slots.plate
  rw [hmsg]
  dsimp only
  rw [hrestored]
  generalize s.image.bind MonoImage.decodeOwned = stored at himage ⊢
  cases stored with
  | some img => rfl
  | none =>
    have hnone : c.image = none := by
      cases hc : c.image with
      | none => rfl
      | some img => exact nomatch himage (by rw [hc]; rfl)
    have hdemo := PlateContent.applyNdef_toNdef_image hc.short hnone .demo
    rw [hrestored] at hdemo
    exact congrArg (fun i => { c with image := i }) (hdemo.trans hnone.symm)

section

variable {F : Type} [Flash F] (laws : FlashLaws F)

include laws

theorem slotsOf_congr {f f' : F} (h : laws.cells f' = laws.cells f) : slotsOf f' = slotsOf f := by
  unfold slotsOf
  rw [load_eq laws, load_eq laws, loadImage_eq laws, loadImage_eq laws, h]

/-- What a load returns is as long as its header says. -/
theorem length_load {f : F} {msg : List UInt8} (h : (load f).1 = some msg) :
    msg.length ≤ MAX_DATA := by
  rw [load_eq laws] at h
  unfold recordIn at h
  split at h
  · dsimp only at h
    split at h
    · cases h
    · next hin =>
      split at h
      · cases h
        rw [Cells.length_read]
        omega
      · cases h
  · cases h

omit laws in
theorem pictured_plate (f : F) : (slotsOf f).plate.Pictured := by
  intro img himg
  rcases Option.or_eq_some_iff.mp himg with hstored | ⟨-, himage⟩
  · obtain ⟨payload, -, hdecode⟩ := Option.bind_eq_some_iff.mp hstored
    exact MonoImage.decodeOwned_sized hdecode
  · have hdemo : PlateContent.demo.Pictured := fun _ h => (nomatch h)
    split at himage
    · exact hdemo.applyNdef _ img himage
    · exact hdemo img himage

/-- Only an image out of the image slot can be a large one. -/
theorem small_plate {f : F} (h : storedImage f = none) {img : MonoImage}
    (himg : img ∈ (slotsOf f).plate.image) : img.bits.length ≤ IMAGE_KEEP_MAX := by
  have hmax : MAX_DATA = 2048 := rfl
  have hkeep : IMAGE_KEEP_MAX = 8192 := rfl
  rcases Option.or_eq_some_iff.mp himg with hstored | ⟨-, himage⟩
  · exact absurd (h.symm.trans hstored) nofun
  · split at himage
    · next msg hmsg =>
      rw [PlateContent.applyNdef_image, Option.or_eq_some_iff] at himage
      rcases himage with hlast | ⟨-, hdemo⟩
      · have hlen := length_load laws hmsg
        have hbits := PlateContent.length_lastPicture hlast
        omega
      · cases hdemo
    · cases himage

variable (hwrite : WritesSucceed F)

include hwrite

theorem load_save_toNdef (f : F) {c : PlateContent} (hc : c.Restorable) :
    (load (save f c.toNdef).2).1 = some c.toNdef := by
  have hlen := c.length_toNdef_le hc.short
  have hmax : MAX_DATA = 2048 := rfl
  have hpos : 1 ≤ c.toNdef.length := by
    rw [c.length_toNdef, PlateContent.ndefSize]
    omega
  exact congrArg Slots.content (slots_save laws hwrite f hpos (by omega))

theorem storedImage_save (f : F) (data : List UInt8) :
    storedImage (save f data).2 = storedImage f := by
  rw [storedImage, storedImage, loadImage_save_of_writes laws hwrite]

theorem storedImage_saveImage (f : F) {img : MonoImage} (h : img.Sized) :
    storedImage (saveImage f img.width img.height img.bits).2 = some img := by
  have himage : (loadImage _).1 = _ := congrArg Slots.image (slots_saveImage laws hwrite f h)
  rw [storedImage, himage]
  exact MonoImage.decodeOwned_encode h

theorem storedImage_clearImage (f : F) : storedImage (clearImage f).2 = none := by
  have himage : (loadImage _).1 = _ := congrArg Slots.image (slots_clearImage laws hwrite f)
  rw [storedImage, himage]
  rfl

end

namespace App

variable {I F D : Type} [Flash F]

/-- The image in memory is a small one, and the flag says whether there is one in flash. -/
structure Flagged (a : App I F D) : Prop where
  pictured : a.content.Pictured
  small : ∀ img ∈ a.content.image, img.bits.length ≤ IMAGE_KEEP_MAX
  flag : a.imageInFlash = (storedImage a.flash).isSome

/-- An image that is in memory and in flash is the same one. -/
structure Kept (a : App I F D) : Prop extends Flagged a where
  agrees : ∀ img ∈ a.content.image, ∀ img' ∈ storedImage a.flash, img' = img

/-- What is drawn is what a start-up would draw. -/
def Saved (a : App I F D) : Prop := a.rendered = (slotsOf a.flash).plate

theorem Kept.congr {a a' : App I F D} (h : a.Kept) (himage : a'.content.image = a.content.image)
    (hflag : a'.imageInFlash = a.imageInFlash) (hslots : slotsOf a'.flash = slotsOf a.flash) :
    a'.Kept := by
  have hstored : storedImage a'.flash = storedImage a.flash :=
    congrArg (fun s : Slots => s.image.bind MonoImage.decodeOwned) hslots
  refine ⟨⟨fun img himg => h.pictured img (himage ▸ himg),
    fun img himg => h.small img (himage ▸ himg), ?_⟩, ?_⟩
  · rw [hflag, hstored, h.flag]
  · rw [himage, hstored]
    exact h.agrees

theorem Kept.rendered {a : App I F D} (h : a.Kept) :
    a.rendered = { a.content with image := (storedImage a.flash).or a.content.image } := by
  have hflag := h.flag
  have hagrees := h.agrees
  unfold App.rendered
  change (if _ then { a.content with image := storedImage a.flash } else _) = _
  generalize storedImage a.flash = stored at hflag hagrees ⊢
  cases himage : a.content.image with
  | none =>
    cases stored with
    | none => simp [hflag, ← himage]
    | some img => simp [hflag]
  | some img =>
    have hsame : stored.or (some img) = some img := by
      cases stored with
      | none => rfl
      | some img' => exact congrArg some (hagrees img himage img' rfl)
    rw [hsame, ← himage, if_neg (by simp [himage])]

/-- What is drawn depends on the memory, the flag and what flash gives back. -/
theorem rendered_same {a a' : App I F D} (hcontent : a'.content = a.content)
    (hflag : a'.imageInFlash = a.imageInFlash) (hslots : slotsOf a'.flash = slotsOf a.flash) :
    a'.rendered = a.rendered := by
  have hload : (loadImage a'.flash).1 = (loadImage a.flash).1 := congrArg Slots.image hslots
  rw [App.rendered, App.rendered, hcontent, hflag, hload]

/-! ## Committing -/

variable (laws : FlashLaws F) (hwrite : WritesSucceed F)

include laws hwrite

theorem Flagged.serve {a : App I F D} (h : a.Flagged) : a.serve.Flagged where
  pictured := h.pictured
  small := h.small
  flag := by
    change a.imageInFlash = (storedImage (save a.flash a.content.toNdef).2).isSome
    rw [storedImage_save laws hwrite, h.flag]

/-- A small image goes to flash, so that it agrees with the one in memory. -/
theorem Flagged.persistImage {a : App I F D} (h : a.Flagged) : a.persistImage.Kept ∧
    a.persistImage.content = a.content ∧ (load a.persistImage.flash).1 = (load a.flash).1 ∧
      storedImage a.persistImage.flash = a.content.image.or (storedImage a.flash) := by
  unfold App.persistImage
  split
  · next himage =>
    refine ⟨⟨h, fun img himg => ?_⟩, rfl, rfl, by rw [himage]; rfl⟩
    rw [himage] at himg
    cases himg
  · next img himage =>
    have hsized := h.pictured img himage
    have hstored := storedImage_saveImage laws hwrite a.flash hsized
    have hslots := slots_saveImage laws hwrite a.flash hsized
    have hok := (saveRec_cells laws hwrite a.flash IMAGE_OFFSET MAX_IMAGE
      (u16ToLe img.width ++ u16ToLe img.height) img.bits (by simp [MAX_IMAGE]) (by decide)).1
    rw [if_pos (h.small img himage), storeImage_saved hok]
    refine ⟨⟨⟨h.pictured, h.small, ?_⟩, ?_⟩, rfl, congrArg Slots.content hslots, ?_⟩
    · rw [hstored]
      rfl
    · intro img' himg' stored hin
      rw [hstored, Option.mem_some_iff] at hin
      rw [Option.mem_def, himage, Option.some.injEq] at himg'
      exact hin.symm.trans himg'
    · rw [hstored, himage]
      rfl

/-- What a restorable content leaves in flash is the plate that is drawn. -/
theorem Flagged.saved {a : App I F D} (h : a.Flagged) (hc : a.content.Restorable) :
    a.serve.persistImage.Saved := by
  obtain ⟨hkept, hsame, hload, hstored⟩ := (h.serve laws hwrite).persistImage laws hwrite
  have hcontent : a.serve.persistImage.content = a.content := hsame
  have hmsg : (load a.serve.persistImage.flash).1 = some a.content.toNdef :=
    hload.trans (load_save_toNdef laws hwrite a.flash hc)
  have hplate : (slotsOf a.serve.persistImage.flash).plate =
      { a.content with image := (storedImage a.serve.persistImage.flash).or a.content.image } := by
    refine Slots.plate_of_saved hc hmsg fun himage => ?_
    change (storedImage a.serve.persistImage.flash).isSome
    rw [hstored, Option.isSome_or]
    exact Bool.or_eq_true_iff.mpr (.inl himage)
  rw [Saved, hkept.rendered, hplate, hcontent]

omit laws hwrite in
/-- An app whose memory and flash hold the same image: what `trimImage` drops is drawn all the
same. -/
theorem kept_trimImage {a : App I F D} (hpictured : a.content.Pictured)
    (hflag : a.imageInFlash = (storedImage a.flash).isSome)
    (hsame : (storedImage a.flash).or a.content.image = a.content.image)
    (hsmall : storedImage a.flash = none → ∀ img ∈ a.content.image,
      img.bits.length ≤ IMAGE_KEEP_MAX) :
    a.trimImage.Kept ∧ a.trimImage.rendered = a.content := by
  unfold trimImage
  split
  · next hlarge =>
    have hin : a.imageInFlash = true := (Bool.and_eq_true_iff.mp hlarge).1
    obtain ⟨img, hstored⟩ := Option.isSome_iff_exists.mp (hflag.symm.trans hin)
    have hkept : Kept { a with content := { a.content with image := none } } :=
      ⟨⟨fun _ h => (nomatch h), fun _ h => (nomatch h), hflag⟩, fun _ h => (nomatch h)⟩
    refine ⟨hkept, hkept.rendered.trans ?_⟩
    rw [hstored] at hsame ⊢
    exact congrArg (fun i => { a.content with image := i }) hsame
  · next hsmaller =>
    have hkept : a.Kept := by
      refine ⟨⟨hpictured, fun img himage => ?_, hflag⟩, fun img himage img' hstored => ?_⟩
      · cases hstored : storedImage a.flash with
        | none => exact hsmall hstored img himage
        | some img' =>
          refine Nat.not_lt.mp fun hlarge => hsmaller ?_
          rw [hflag, hstored, Option.mem_def.mp himage]
          simpa using hlarge
      · rw [Option.mem_def.mp hstored, Option.mem_def.mp himage] at hsame
        exact Option.some.inj hsame
    rw [hkept.rendered, hsame]
    exact ⟨hkept, rfl⟩

omit hwrite in
/-- A start-up puts the plate together, and learns whether there is an image in flash. -/
theorem restore_eq (nfc : Option (St25r3916 I)) (f : F) (panel : D) :
    ∃ flash, laws.cells flash = laws.cells f ∧
      restore { nfc, flash := f, panel } =
        { nfc, flash, panel, content := (slotsOf f).plate,
          imageInFlash := (storedImage f).isSome } := by
  have hcells : laws.cells (load f).2 = laws.cells f :=
    loadRec_cells laws f REGION_OFFSET MAX_DATA REGION_SIZE
  have hcells' := loadImage_cells laws (load f).2
  have hload : (loadImage (load f).2).1 = (loadImage f).1 := by
    rw [loadImage_eq laws, loadImage_eq laws, hcells]
  unfold Slots.plate storedImage slotsOf restore
  generalize load f = stored at hcells hcells' hload ⊢
  obtain ⟨stored, f₁⟩ := stored
  dsimp only at hcells hcells' hload ⊢
  rw [← hload]
  refine ⟨(loadImage f₁).2, hcells'.trans hcells, ?_⟩
  cases stored with
  | none => cases (loadImage f₁).1.bind MonoImage.decodeOwned <;> simp
  | some msg => cases (loadImage f₁).1.bind MonoImage.decodeOwned <;> simp

end App

end PaperNamePlate
