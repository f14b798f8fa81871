import PaperNamePlate.Lib.Run
import PaperNamePlate.Plate.Content
import PaperNamePlate.Store.ConfigStore

/-!
# The store as two independent slots

What `loadRec` returns depends on the cells of its region only, so the content slot
and the image slot are separate: an operation on one leaves the other as it is,
whatever the flash held before. The store refines a pair of optional payloads.
-/
namespace PaperNamePlate

open Embedded

/-- The payload of the record at `offset`, if a valid one is there. -/
def recordIn (c : Cells) (offset max region : Nat) : Option (List UInt8) :=
  match c.read offset HEADER with
  | [m0, m1, m2, m3, l0, l1, l2, crc] =>
    let len := (u16OfLe l0 l1).toNat ||| ((l2.toNat &&& 0x0F) <<< 16)
    if [m0, m1, m2, m3] ≠ MAGIC ∨ len = 0 ∨ len > max ∨ HEADER + len > region then none
    else
      let data := c.read (offset + HEADER) len
      if (crc16 data &&& 0xFF).toUInt8 = crc then some data else none
  | _ => none

theorem recordIn_congr {c c' : Cells} {offset max region : Nat} (hregion : HEADER ≤ region)
    (h : ∀ a n, offset ≤ a → a + n ≤ offset + region → c.read a n = c'.read a n) :
    recordIn c offset max region = recordIn c' offset max region := by
  unfold recordIn
  rw [h offset HEADER (Nat.le_refl _) (by omega)]
  split
  · dsimp only
    split
    · rfl
    · next hin =>
      rw [h (offset + HEADER) _ (by omega) (by omega)]
  · rfl

/-- A write elsewhere does not change the record. -/
theorem recordIn_write (c : Cells) {offset max region : Nat} (hregion : HEADER ≤ region)
    (off : Nat) (bs : List UInt8)
    (hdis : offset + region ≤ off ∨ off + bs.length ≤ offset) :
    recordIn (c.write off bs) offset max region = recordIn c offset max region :=
  recordIn_congr hregion fun a n ha hn => c.read_write_disjoint off bs a n (by omega)

section

variable {F : Type} [Flash F] (laws : FlashLaws F)

include laws in
theorem loadRec_eq (f : F) {offset max region : Nat} (hregion : HEADER ≤ region)
    (hend : offset + region ≤ FLASH_END) :
    (loadRec f offset max region).1 = recordIn (laws.cells f) offset max region := by
  obtain ⟨hdr, f', hread, hhdr, hcells⟩ := read_eq laws f offset HEADER (by omega)
  obtain ⟨m0, m1, m2, m3, l0, l1, l2, crc, heq⟩ := toList_header hdr
  unfold loadRec recordIn
  rw [hread, ← hhdr]
  dsimp only
  rw [heq]
  dsimp only
  generalize (u16OfLe l0 l1).toNat ||| ((l2.toNat &&& 0x0F) <<< 16) = len
  by_cases hmagic : [m0, m1, m2, m3] ≠ MAGIC
  · rw [if_pos hmagic, if_pos (.inl hmagic)]
  · rw [if_neg hmagic]
    by_cases hin : len = 0 ∨ len > max ∨ HEADER + len > region
    · rw [if_pos hin, if_pos (.inr hin)]
    · obtain ⟨data, f'', hread', hdata, -⟩ := read_eq laws f' (offset + HEADER) len (by omega)
      rw [if_neg hin, if_neg (by tauto), hread']
      dsimp only
      rw [hdata, hcells]

include laws in
theorem load_eq (f : F) :
    (load f).1 = recordIn (laws.cells f) REGION_OFFSET MAX_DATA REGION_SIZE :=
  loadRec_eq laws f (by decide) (by decide)

include laws in
theorem loadImage_eq (f : F) :
    (loadImage f).1 = recordIn (laws.cells f) IMAGE_OFFSET MAX_IMAGE IMAGE_REGION :=
  loadRec_eq laws f (by decide) (by decide)

include laws in
/-- An image that was saved with success is given back. -/
theorem loadImage_saveImage (f : F) {img : MonoImage} (h : img.Sized)
    (hok : (saveImage f img.width img.height img.bits).1 = .ok ()) :
    (loadImage (saveImage f img.width img.height img.bits).2).1 = some img.encode := by
  have hlen := h.length_le
  have hbits := img.length_encode
  have hmax : MAX_IMAGE = 48004 := rfl
  have hbytes : savedBytes MAX_IMAGE (u16ToLe img.width ++ u16ToLe img.height) img.bits =
      recordHeader img.encode ++ img.encode := by
    rw [savedBytes, List.take_of_length_le (by simp; omega), MonoImage.encode]
  have hpayload : img.encode ≠ [] := List.ne_nil_of_length_pos (by omega)
  refine loadRec_of_stored laws ?_ hpayload (by omega) (by omega)
    (by rw [HEADER, IMAGE_REGION]; omega) (by decide)
  rw [saveImage, saveRec_ok laws f hok, hbytes]
  exact stored_write _ _ _

end

/-! ## Operations -/

/-- A call that changes the store. -/
inductive StoreOp
  | save (data : List UInt8) (size : 1 ≤ data.length ∧ data.length ≤ 2048)
  | saveImage (img : MonoImage) (sized : img.Sized)
  | clearImage

def storeStep {F : Type} [Flash F] (f : F) : StoreOp → F
  | .save data _ => (save f data).2
  | .saveImage img _ => (saveImage f img.width img.height img.bits).2
  | .clearImage => (clearImage f).2

/-- The store by its purpose: the content's message and the image's payload. -/
structure Slots where
  content : Option (List UInt8)
  image : Option (List UInt8)

/-- What an operation puts into the content slot. -/
def StoreOp.content : StoreOp → Option (List UInt8)
  | .save data _ => some data
  | .saveImage _ _ | .clearImage => none

/-- What an operation puts into the image slot. -/
def StoreOp.image : StoreOp → Option (Option MonoImage)
  | .save _ _ => none
  | .saveImage img _ => some (some img)
  | .clearImage => some none

def Slots.step (s : Slots) (op : StoreOp) : Slots where
  content := op.content.or s.content
  image := (op.image.map (Option.map MonoImage.encode)).getD s.image

/-- What the store gives back. -/
def slotsOf {F : Type} [Flash F] (f : F) : Slots := ⟨(load f).1, (loadImage f).1⟩

section

variable {F : Type} [Flash F] (laws : FlashLaws F) (hwrite : WritesSucceed F)

include laws hwrite

/-- Saving the content leaves the image slot alone. -/
theorem loadImage_save_of_writes (f : F) (data : List UInt8) :
    (loadImage (save f data).2).1 = (loadImage f).1 := by
  have hcells := (saveRec_cells laws hwrite f REGION_OFFSET MAX_DATA [] data
    (Nat.zero_le _) (by decide)).2
  have hbytes : (savedBytes MAX_DATA [] data).length ≤ HEADER + MAX_DATA :=
    length_savedBytes_le (Nat.zero_le _) data
  have hdis : REGION_OFFSET + (HEADER + MAX_DATA) ≤ IMAGE_OFFSET := by decide
  rw [loadImage_eq laws, loadImage_eq laws, save, hcells,
    recordIn_write _ (by decide) _ _ (by omega)]

theorem slots_save (f : F) {data : List UInt8} (hpos : 1 ≤ data.length)
    (hmax : data.length ≤ MAX_DATA) :
    slotsOf (save f data).2 = ⟨some data, (loadImage f).1⟩ := by
  have hne : data ≠ [] := List.ne_nil_of_length_pos hpos
  have hstored := save_stored laws hwrite f hmax
  unfold slotsOf
  rw [load_of_stored laws hstored hne hmax, loadImage_save_of_writes laws hwrite]

theorem slots_saveImage (f : F) {img : MonoImage} (h : img.Sized) :
    slotsOf (saveImage f img.width img.height img.bits).2 = ⟨(load f).1, some img.encode⟩ := by
  obtain ⟨hok, hcells⟩ := saveRec_cells laws hwrite f IMAGE_OFFSET MAX_IMAGE
    (u16ToLe img.width ++ u16ToLe img.height) img.bits (by simp [MAX_IMAGE]) (by decide)
  have hdis : REGION_OFFSET + REGION_SIZE ≤ IMAGE_OFFSET := by decide
  unfold slotsOf
  rw [loadImage_saveImage laws f h hok, load_eq laws, load_eq laws, saveImage, hcells,
    recordIn_write _ (by decide) _ _ (.inl hdis)]

theorem slots_clearImage (f : F) : slotsOf (clearImage f).2 = ⟨(load f).1, none⟩ := by
  have hok := hwrite f IMAGE_OFFSET (List.replicate HEADER 0xFF) (by decide)
  have hcells := laws.write_cells _ _ _ hok
  have hdis : REGION_OFFSET + REGION_SIZE ≤ IMAGE_OFFSET := by decide
  have hhead := (laws.cells f).read_write IMAGE_OFFSET (List.replicate HEADER 0xFF)
  rw [List.length_replicate] at hhead
  unfold slotsOf
  rw [load_eq laws, load_eq laws, loadImage_eq laws, clearImage, hcells,
    recordIn_write _ (by decide) _ _ (.inl hdis)]
  rw [show recordIn ((laws.cells f).write IMAGE_OFFSET (List.replicate HEADER 0xFF)) IMAGE_OFFSET
    MAX_IMAGE IMAGE_REGION = none by unfold recordIn; rw [hhead]; rfl]

/-- The step lemma: the store refines the pair of slots. -/
theorem slots_step (f : F) (op : StoreOp) : slotsOf (storeStep f op) = (slotsOf f).step op := by
  cases op with
  | save data size => exact slots_save laws hwrite f size.1 size.2
  | saveImage img sized => exact slots_saveImage laws hwrite f sized
  | clearImage => exact slots_clearImage laws hwrite f

end

/-- The content that the last `save` stored. -/
def lastSaved (ops : List StoreOp) : Option (List UInt8) := (ops.filterMap StoreOp.content).getLast?

/-- What the last image operation put into the image slot; the inner `none` for a removal. -/
def lastImage (ops : List StoreOp) : Option (Option MonoImage) :=
  (ops.filterMap StoreOp.image).getLast?

theorem Slots.run_content (s : Slots) (ops : List StoreOp) :
    (run Slots.step s ops).content = (lastSaved ops).or s.content :=
  run_last_some (f := Slots.content) (fun _ _ => rfl) s ops

theorem Slots.run_image (s : Slots) (ops : List StoreOp) : (run Slots.step s ops).image =
    ((lastImage ops).map (Option.map MonoImage.encode)).getD s.image := by
  have hstep : ∀ (s : Slots) (op : StoreOp), (s.step op).image =
      (op.image.map (Option.map MonoImage.encode)).getD s.image := fun _ _ => rfl
  rw [run_last_write hstep s ops, ← List.map_filterMap, List.getLast?_map, lastImage]

/-- The images that are saved fit the panel. -/
theorem sized_of_lastImage {ops : List StoreOp} {img : MonoImage}
    (h : lastImage ops = some (some img)) : img.Sized := by
  obtain ⟨op, -, hop⟩ := List.mem_filterMap.mp (List.mem_of_getLast? h)
  cases op with
  | save data size => cases hop
  | saveImage img' sized =>
    cases hop
    exact sized
  | clearImage => cases hop

/-- From any contents of the flash, each slot gives back what was last put into it. -/
theorem slots_independent {F : Type} [Flash F] (laws : FlashLaws F) (hwrite : WritesSucceed F)
    (f : F) (ops : List StoreOp) :
    (load (run storeStep f ops)).1 = (lastSaved ops).or (load f).1 ∧
      (∀ img, lastImage ops = some (some img) →
        (loadImage (run storeStep f ops)).1.bind MonoImage.decodeOwned = some img) ∧
      (lastImage ops = some none → (loadImage (run storeStep f ops)).1 = none) ∧
      (lastImage ops = none → (loadImage (run storeStep f ops)).1 = (loadImage f).1) := by
  have hrun : slotsOf (run storeStep f ops) = run Slots.step (slotsOf f) ops :=
    run_map (slots_step laws hwrite) f ops
  have hcontent := congrArg Slots.content hrun
  have himage := congrArg Slots.image hrun
  rw [Slots.run_content] at hcontent
  rw [Slots.run_image] at himage
  refine ⟨hcontent, fun img hlast => ?_, fun hlast => ?_, fun hlast => ?_⟩
  · have hload : (loadImage (run storeStep f ops)).1 = some img.encode := by
      rw [hlast] at himage
      exact himage
    rw [hload]
    exact MonoImage.decodeOwned_encode (sized_of_lastImage hlast)
  · rw [hlast] at himage
    exact himage
  · rw [hlast] at himage
    exact himage

/-- A text between two images. -/
def mixedOps : List StoreOp :=
  [.saveImage ⟨8, 2, [1, 2]⟩ ⟨by decide, by decide, by decide, by decide, by decide⟩,
    .save [3] (by decide),
    .saveImage ⟨8, 1, [4]⟩ ⟨by decide, by decide, by decide, by decide, by decide⟩]

theorem slots_independent_mixed : (load (run storeStep Cells.erased mixedOps)).1 = some [3] ∧
    (loadImage (run storeStep Cells.erased mixedOps)).1.bind MonoImage.decodeOwned =
      some ⟨8, 1, [4]⟩ := by
  have h := slots_independent cellsLaws (fun _ _ _ _ => rfl) Cells.erased mixedOps
  exact ⟨h.1, h.2.1 _ rfl⟩

end PaperNamePlate
