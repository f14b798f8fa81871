import Mathlib.Logic.Function.Iterate
import PaperNamePlate.Lib.Cells
import PaperNamePlate.Lib.Slice

/-!
# The configuration store

Two records in flash: the NDEF content in the `nvs` region and the display image
past the factory partition. A record is a header with magic, length and the low
byte of a CRC, followed by the data. The flash driver is a parameter; `FlashLaws`
says what is relied on where its accesses succeed.
-/
namespace PaperNamePlate

open Embedded

/-- A flash driver. -/
class Flash (F : Type) where
  Error : Type
  read : F → Nat → (n : Nat) → Except Error (Vector UInt8 n) × F
  write : F → Nat → List UInt8 → Except Error Unit × F

def REGION_OFFSET : Nat := 0x9000
def REGION_SIZE : Nat := 0x6000
def IMAGE_OFFSET : Nat := 0xFB0000
def IMAGE_REGION : Nat := 0x50000
def MAGIC : List UInt8 := [0x50, 0x4E, 0x50, 0x31]
def HEADER : Nat := 8
def MAX_DATA : Nat := 2048
def MAX_IMAGE : Nat := 48004

/-- The image region is the last one of the flash. -/
def FLASH_END : Nat := IMAGE_OFFSET + IMAGE_REGION

/-- Within the flash, reading gives the contents of the cells; a successful write overwrites
them. -/
structure FlashLaws (F : Type) [Flash F] where
  cells : F → Cells
  read_ok : ∀ f off n, off + n ≤ FLASH_END →
    ∃ v, (Flash.read f off n).1 = .ok v ∧ v.toList = (cells f).read off n
  read_cells : ∀ f off n, cells (Flash.read f off n).2 = cells f
  write_cells : ∀ f off bs, (Flash.write f off bs).1 = .ok () →
    cells (Flash.write f off bs).2 = (cells f).write off bs

/-- Every write within the flash succeeds. -/
def WritesSucceed (F : Type) [Flash F] : Prop :=
  ∀ (f : F) off bs, off + bs.length ≤ FLASH_END → (Flash.write f off bs).1 = .ok ()

/-- One bit of the CCITT-FALSE CRC-16. -/
def crc16Bit (crc : UInt16) : UInt16 :=
  if crc &&& 0x8000 ≠ 0 then (crc <<< 1) ^^^ 0x1021 else crc <<< 1

def crc16 (data : List UInt8) : UInt16 :=
  data.foldl (fun (crc : UInt16) (b : UInt8) => crc16Bit^[8] (crc ^^^ (b.toUInt16 <<< 8))) 0xFFFF

/-- The header of a record with this data. -/
def recordHeader (data : List UInt8) : List UInt8 :=
  MAGIC ++ u16ToLe (UInt16.ofNat data.length) ++
    [UInt8.ofNat (data.length >>> 16) &&& 0x0F, (crc16 data &&& 0xFF).toUInt8]

section

variable {F : Type} [Flash F]

def loadRec (f : F) (offset max region : Nat) : Option (List UInt8) × F :=
  match Flash.read f offset HEADER with
  | (.error _, f) => (none, f)
  | (.ok hdr, f) =>
    match hdr.toList with
    | [m0, m1, m2, m3, l0, l1, l2, crc] =>
      if [m0, m1, m2, m3] ≠ MAGIC then (none, f)
      else
        let len := (u16OfLe l0 l1).toNat ||| ((l2.toNat &&& 0x0F) <<< 16)
        if len = 0 ∨ len > max ∨ HEADER + len > region then (none, f)
        else
          match Flash.read f (offset + HEADER) len with
          | (.error _, f) => (none, f)
          | (.ok data, f) =>
            (if (crc16 data.toList &&& 0xFF).toUInt8 = crc then some data.toList else none, f)
    | _ => (none, f)

/-- Write one record with the payload `pre ++ data`: the header and `pre` first, then `data`. -/
def saveRec (f : F) (offset max : Nat) (pre data : List UInt8) : Except (Flash.Error F) Unit × F :=
  let len := min (pre.length + data.length) max
  let data := data.take (len - pre.length)
  let head := recordHeader (pre ++ data) ++ pre
  match Flash.write f offset head with
  | (.error e, f) => (.error e, f)
  | (.ok (), f) => if data.isEmpty then (.ok (), f) else Flash.write f (offset + head.length) data

def load (f : F) : Option (List UInt8) × F := loadRec f REGION_OFFSET MAX_DATA REGION_SIZE

def save (f : F) (data : List UInt8) : Except (Flash.Error F) Unit × F :=
  saveRec f REGION_OFFSET MAX_DATA [] data

def loadImage (f : F) : Option (List UInt8) × F := loadRec f IMAGE_OFFSET MAX_IMAGE IMAGE_REGION

/-- Invalidate the stored image: its header is overwritten. -/
def clearImage (f : F) : Except (Flash.Error F) Unit × F :=
  Flash.write f IMAGE_OFFSET (List.replicate HEADER 0xFF)

def saveImage (f : F) (width height : UInt16) (bits : List UInt8) :
    Except (Flash.Error F) Unit × F :=
  saveRec f IMAGE_OFFSET MAX_IMAGE (u16ToLe width ++ u16ToLe height) bits

/-! ## Records -/

@[simp] theorem length_recordHeader (data : List UInt8) : (recordHeader data).length = HEADER := rfl

/-- A header is eight bytes. -/
theorem toList_header (hdr : Vector UInt8 HEADER) :
    ∃ m0 m1 m2 m3 l0 l1 l2 crc, hdr.toList = [m0, m1, m2, m3, l0, l1, l2, crc] := by
  have hlen : hdr.toList.length = 8 := hdr.length_toList
  match hdr.toList, hlen with
  | [m0, m1, m2, m3, l0, l1, l2, crc], _ => exact ⟨m0, m1, m2, m3, l0, l1, l2, crc, rfl⟩

/-- The cells hold the record of `data` at `offset`. -/
def Stored (c : Cells) (offset : Nat) (data : List UInt8) : Prop :=
  c.read offset (HEADER + data.length) = recordHeader data ++ data

theorem stored_write (c : Cells) (offset : Nat) (data : List UInt8) :
    Stored (c.write offset (recordHeader data ++ data)) offset data := by
  have h := c.read_write offset (recordHeader data ++ data)
  rwa [List.length_append, length_recordHeader] at h

/-- Writes elsewhere do not touch a record. -/
theorem Stored.write {c : Cells} {offset : Nat} {data : List UInt8} (h : Stored c offset data)
    (off : Nat) (bs : List UInt8)
    (hdis : offset + (HEADER + data.length) ≤ off ∨ off + bs.length ≤ offset) :
    Stored (c.write off bs) offset data := by
  rw [Stored, Cells.read_write_disjoint _ _ _ _ _ hdis]
  exact h

/-- The length field of a header, as `loadRec` reads it. -/
theorem recordHeader_len {n : Nat} (h : n < 2 ^ 16) :
    (u16OfLe (UInt8.ofNat (UInt16.ofNat n).toNat)
        (UInt8.ofNat ((UInt16.ofNat n).toNat / 2 ^ 8))).toNat |||
      (((UInt8.ofNat (n >>> 16) &&& 0x0F).toNat &&& 0x0F) <<< 16) = n := by
  have hhigh : n >>> 16 = 0 := by rw [Nat.shiftRight_eq_div_pow]; omega
  have hzero : (UInt8.ofNat 0 &&& 0x0F).toNat = 0 := rfl
  rw [u16OfLe_toLe, hhigh, hzero, UInt16.toNat_ofNat', Nat.mod_eq_of_lt h]
  simp

variable (laws : FlashLaws F)

include laws in
theorem read_eq (f : F) (off n : Nat) (h : off + n ≤ FLASH_END) :
    ∃ v f', Flash.read f off n = (.ok v, f') ∧ v.toList = (laws.cells f).read off n ∧
      laws.cells f' = laws.cells f := by
  obtain ⟨v, hv, hvl⟩ := laws.read_ok f off n h
  exact ⟨v, _, Prod.ext hv rfl, hvl, laws.read_cells f off n⟩

include laws in
/-- A stored record is loaded. -/
theorem loadRec_of_stored {f : F} {offset max region : Nat} {data : List UInt8}
    (h : Stored (laws.cells f) offset data) (hne : data ≠ []) (hlen : data.length < 2 ^ 16)
    (hmax : data.length ≤ max) (hregion : HEADER + data.length ≤ region)
    (hend : offset + region ≤ FLASH_END) :
    (loadRec f offset max region).1 = some data := by
  rw [Stored, Cells.read_append] at h
  obtain ⟨hhead, hdata⟩ := List.append_inj h (by simp)
  obtain ⟨hdr, f', hread, hhdr, hcells⟩ := read_eq laws f offset HEADER (by omega)
  obtain ⟨bytes, f'', hread', hbytes, -⟩ :=
    read_eq laws f' (offset + HEADER) data.length (by omega)
  have hpos : 0 < data.length := List.length_pos_of_ne_nil hne
  have hin : ¬ (data.length = 0 ∨ data.length > max ∨ HEADER + data.length > region) := by omega
  unfold loadRec
  rw [hread]
  dsimp only
  rw [hhdr, hhead]
  simp only [recordHeader, MAGIC, u16ToLe, List.cons_append, List.nil_append, ne_eq,
    not_true_eq_false, if_false]
  rw [recordHeader_len hlen, if_neg hin, hread']
  dsimp only
  rw [hbytes, hcells, hdata, if_pos rfl]

theorem loadRec_cells (f : F) (offset max region : Nat) :
    laws.cells (loadRec f offset max region).2 = laws.cells f := by
  have hread := laws.read_cells f offset HEADER
  unfold loadRec
  generalize Flash.read f offset HEADER = r at hread ⊢
  rcases r with ⟨_ | hdr, f'⟩
  · exact hread
  · dsimp only at hread ⊢
    split
    · next l0 l1 l2 crc _ =>
      split_ifs
      · exact hread
      · exact hread
      · have hread' := laws.read_cells f' (offset + HEADER)
          ((u16OfLe l0 l1).toNat ||| ((l2.toNat &&& 0x0F) <<< 16))
        split <;> (next heq => rw [heq] at hread'; exact hread'.trans hread)
    · exact hread

/-- What `saveRec` writes, header included; longer data is cut. -/
def savedBytes (max : Nat) (pre data : List UInt8) : List UInt8 :=
  let payload := pre ++ data.take (max - pre.length)
  recordHeader payload ++ payload

theorem length_savedBytes_le {max : Nat} {pre : List UInt8} (hpre : pre.length ≤ max)
    (data : List UInt8) : (savedBytes max pre data).length ≤ HEADER + max := by
  simp only [savedBytes, List.length_append, length_recordHeader, List.length_take]
  omega

/-- The two writes of `saveRec`: a head, and the rest of the bytes if there are any. -/
theorem saveRec_eq (f : F) (offset max : Nat) (pre data : List UInt8) :
    ∃ head rest, savedBytes max pre data = head ++ rest ∧
      saveRec f offset max pre data =
        match Flash.write f offset head with
        | (.error e, f) => (.error e, f)
        | (.ok (), f) =>
          if rest.isEmpty then (.ok (), f) else Flash.write f (offset + head.length) rest := by
  have htake : data.take (min (pre.length + data.length) max - pre.length) =
      data.take (max - pre.length) := by
    rw [List.take_eq_take_iff]; omega
  refine ⟨recordHeader (pre ++ data.take (max - pre.length)) ++ pre,
    data.take (max - pre.length), ?_, ?_⟩
  · rw [savedBytes, List.append_assoc]
  · unfold saveRec
    dsimp only
    rw [htake]

/-- A save that succeeds has written all its bytes. -/
theorem saveRec_ok (f : F) {offset max : Nat} {pre data : List UInt8}
    (h : (saveRec f offset max pre data).1 = .ok ()) :
    laws.cells (saveRec f offset max pre data).2 =
      (laws.cells f).write offset (savedBytes max pre data) := by
  obtain ⟨head, rest, hbytes, hsave⟩ := saveRec_eq f offset max pre data
  rw [hsave] at h ⊢
  rw [hbytes]
  have hcells := laws.write_cells f offset head
  generalize Flash.write f offset head = r at h hcells ⊢
  rcases r with ⟨e | ⟨⟨⟩⟩, f'⟩
  · cases h
  · cases rest with
    | nil => simpa using hcells rfl
    | cons b rest =>
      dsimp only at h hcells ⊢
      rw [List.isEmpty_cons, if_neg Bool.false_ne_true] at h ⊢
      rw [laws.write_cells _ _ _ h, hcells rfl, Cells.write_write]

theorem saveRec_succeeds (hwrite : WritesSucceed F) (f : F) {offset max : Nat}
    {pre : List UInt8} (data : List UInt8) (hpre : pre.length ≤ max)
    (hend : offset + HEADER + max ≤ FLASH_END) : (saveRec f offset max pre data).1 = .ok () := by
  obtain ⟨head, rest, hbytes, hsave⟩ := saveRec_eq f offset max pre data
  have hlen := length_savedBytes_le hpre data
  rw [hbytes, List.length_append] at hlen
  have hok := hwrite f offset head (by omega)
  rw [hsave]
  generalize Flash.write f offset head = r at hok ⊢
  rcases r with ⟨_, f'⟩
  dsimp only at hok ⊢
  subst hok
  dsimp only
  split
  · rfl
  · exact hwrite _ _ _ (by omega)

include laws in
theorem saveRec_cells (hwrite : WritesSucceed F) (f : F) (offset max : Nat)
    (pre data : List UInt8) (hpre : pre.length ≤ max) (hend : offset + HEADER + max ≤ FLASH_END) :
    (saveRec f offset max pre data).1 = .ok () ∧
      laws.cells (saveRec f offset max pre data).2 =
        (laws.cells f).write offset (savedBytes max pre data) :=
  have hok := saveRec_succeeds hwrite f data hpre hend
  ⟨hok, saveRec_ok laws f hok⟩

/-- A write, even one that fails, changes no cell outside its range. -/
def WritesInRange : Prop :=
  ∀ (f : F) off (bs : List UInt8) a, a < off ∨ off + bs.length ≤ a →
    laws.cells (Flash.write f off bs).2 a = laws.cells f a

/-- A save, even one that fails, changes no cell outside its record. -/
theorem saveRec_outside (hrange : WritesInRange laws) (f : F) {offset max : Nat}
    {pre : List UInt8} (data : List UInt8) (hpre : pre.length ≤ max) {a : Nat}
    (ha : a < offset ∨ offset + (HEADER + max) ≤ a) :
    laws.cells (saveRec f offset max pre data).2 a = laws.cells f a := by
  obtain ⟨head, rest, hbytes, hsave⟩ := saveRec_eq f offset max pre data
  have hlen := length_savedBytes_le hpre data
  rw [hbytes, List.length_append] at hlen
  have hhead := hrange f offset head a (by omega)
  rw [hsave]
  generalize Flash.write f offset head = r at hhead ⊢
  rcases r with ⟨e | ⟨⟨⟩⟩, f'⟩
  · exact hhead
  · dsimp only at hhead ⊢
    split
    · exact hhead
    · rw [hrange f' _ rest a (by omega), hhead]

/-! ## The content record and the image record -/

include laws in
theorem save_stored (hwrite : WritesSucceed F) (f : F) {data : List UInt8}
    (h : data.length ≤ MAX_DATA) : Stored (laws.cells (save f data).2) REGION_OFFSET data := by
  have hcells := (saveRec_cells laws hwrite f REGION_OFFSET MAX_DATA [] data
    (Nat.zero_le _) (by decide)).2
  have hbytes : savedBytes MAX_DATA [] data = recordHeader data ++ data := by
    rw [savedBytes, List.length_nil, Nat.sub_zero, List.take_of_length_le h]
    rfl
  rw [save, hcells, hbytes]
  exact stored_write _ _ _

include laws in
theorem load_of_stored {f : F} {data : List UInt8}
    (h : Stored (laws.cells f) REGION_OFFSET data) (hne : data ≠ [])
    (hmax : data.length ≤ MAX_DATA) : (load f).1 = some data := by
  have hbytes : MAX_DATA = 2048 := rfl
  have hhead : HEADER = 8 := rfl
  have hsize : REGION_SIZE = 24576 := rfl
  exact loadRec_of_stored laws h hne (by omega) hmax (by omega) (by decide)

/-- A write to the image region does not touch the content record. -/
theorem Stored.write_image {c : Cells} {data : List UInt8} (h : Stored c REGION_OFFSET data)
    (hmax : data.length ≤ MAX_DATA) (bs : List UInt8) :
    Stored (c.write IMAGE_OFFSET bs) REGION_OFFSET data := by
  have hbytes : MAX_DATA = 2048 := rfl
  refine h.write _ _ (.inl ?_)
  unfold REGION_OFFSET HEADER IMAGE_OFFSET
  omega

theorem Stored.saveImage (hwrite : WritesSucceed F) {f : F} {data : List UInt8}
    (h : Stored (laws.cells f) REGION_OFFSET data) (hmax : data.length ≤ MAX_DATA)
    (width height : UInt16) (bits : List UInt8) :
    Stored (laws.cells (saveImage f width height bits).2) REGION_OFFSET data := by
  have hcells := (saveRec_cells laws hwrite f IMAGE_OFFSET MAX_IMAGE
    (u16ToLe width ++ u16ToLe height) bits (by simp [MAX_IMAGE]) (by decide)).2
  rw [PaperNamePlate.saveImage, hcells]
  exact h.write_image hmax _

theorem Stored.clearImage (hwrite : WritesSucceed F) {f : F} {data : List UInt8}
    (h : Stored (laws.cells f) REGION_OFFSET data) (hmax : data.length ≤ MAX_DATA) :
    Stored (laws.cells (clearImage f).2) REGION_OFFSET data := by
  have hok := hwrite f IMAGE_OFFSET (List.replicate HEADER 0xFF) (by decide)
  rw [PaperNamePlate.clearImage, laws.write_cells _ _ _ hok]
  exact h.write_image hmax _

theorem loadImage_cells (f : F) : laws.cells (loadImage f).2 = laws.cells f :=
  loadRec_cells laws f IMAGE_OFFSET MAX_IMAGE IMAGE_REGION

end

/-! A flash that is its cells. -/

instance : Flash Cells where
  Error := Empty
  read c off n := (.ok ⟨(c.read off n).toArray, by simp⟩, c)
  write c off bs := (.ok (), c.write off bs)

def cellsLaws : FlashLaws Cells where
  cells c := c
  read_ok _ _ _ _ := ⟨_, rfl, rfl⟩
  read_cells _ _ _ := rfl
  write_cells _ _ _ _ := rfl

end PaperNamePlate
