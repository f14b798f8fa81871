import PaperNamePlate.Lib.Crc
import PaperNamePlate.Lib.Raster
import PaperNamePlate.Store.Slots

/-!
# What the checksum of a record catches

Of the CRC-16 over the data a header has room for the low byte only. A corruption goes
unnoticed exactly if what it leaves in the register has an empty low byte; for a
burst that is decided by its bits and by how many bits follow it. The whole
CRC-16 would notice every burst.
-/
namespace PaperNamePlate

open Embedded

/-! ## The register -/

theorem crc16Bit_toBitVec (s : UInt16) : (crc16Bit s).toBitVec = crcShift 0x1021#16 s.toBitVec := by
  have htop : (0x8000 : UInt16).toBitVec = BitVec.twoPow 16 15 := by decide
  have hmsb : s &&& 0x8000 ≠ 0 ↔ s.toBitVec.msb = true := by
    rw [Ne, ← UInt16.toBitVec_inj, UInt16.toBitVec_and, htop, BitVec.and_twoPow,
      BitVec.msb_eq_getLsbD_last]
    cases s.toBitVec.getLsbD 15 <;> simp
  unfold crc16Bit crcShift
  by_cases h : s.toBitVec.msb = true
  · rw [if_pos (hmsb.mpr h), if_pos h]
    rfl
  · rw [if_neg fun h' => h (hmsb.mp h'), if_neg h]
    simp

theorem iterate_crc16Bit_toBitVec (n : Nat) (s : UInt16) :
    (crc16Bit^[n] s).toBitVec = (crcShift 0x1021#16)^[n] s.toBitVec := by
  induction n generalizing s with
  | zero => rfl
  | succ n ih => rw [Function.iterate_succ_apply, ih, crc16Bit_toBitVec]; rfl

def byteBits (b : UInt8) : List Bool := (List.range 8).map (bitAt b)

/-- The bits of the data in the order in which the CRC takes them in. -/
def dataBits (data : List UInt8) : List Bool := data.flatMap byteBits

@[simp] theorem dataBits_cons (b : UInt8) (data : List UInt8) :
    dataBits (b :: data) = byteBits b ++ dataBits data := List.flatMap_cons

@[simp] theorem length_byteBits (b : UInt8) : (byteBits b).length = 8 := by simp [byteBits]

theorem byteBits_xor (a b : UInt8) :
    byteBits (a ^^^ b) = (byteBits a).zipWith xor (byteBits b) := by
  simp only [byteBits, List.zipWith_map, List.zipWith_self]
  refine List.map_congr_left fun k hk => ?_
  have hk : k < 8 := List.mem_range.mp hk
  simp only [bitAt_eq_testBit _ hk, UInt8.toNat_xor, Nat.testBit_xor]

theorem iterate_crc16Bit_byte (b : UInt8) :
    (crc16Bit^[8] (b.toUInt16 <<< 8)).toBitVec =
      (byteBits b).foldl (crcFeed 0x1021#16) 0#16 := by
  have hall : ∀ n < 256, (crc16Bit^[8] ((UInt8.ofNat n).toUInt16 <<< 8)).toBitVec =
      (byteBits (UInt8.ofNat n)).foldl (crcFeed 0x1021#16) 0#16 := by
    decide +kernel
  have h := hall b.toNat b.toNat_lt
  rwa [UInt8.ofNat_toNat] at h

/-- A byte of the CRC is eight bits of it. -/
theorem crc16_byte (s : UInt16) (b : UInt8) :
    (crc16Bit^[8] (s ^^^ (b.toUInt16 <<< 8))).toBitVec =
      (byteBits b).foldl (crcFeed 0x1021#16) s.toBitVec := by
  have hzeros : (List.replicate 8 false).zipWith xor (byteBits b) = byteBits b := by
    simp [byteBits, List.range, List.range.loop, List.replicate]
  have hlen : (List.replicate 8 false).length = (byteBits b).length := by simp
  have hbits := foldl_crcFeed_xor 0x1021#16 hlen s.toBitVec 0#16
  rw [hzeros, BitVec.xor_zero, foldl_crcFeed_zeros, ← iterate_crc16Bit_byte] at hbits
  rw [hbits, iterate_crc16Bit_toBitVec, iterate_crc16Bit_toBitVec, UInt16.toBitVec_xor,
    iterate_crcShift_xor]

theorem crc16_toBitVec (data : List UInt8) :
    (crc16 data).toBitVec = (dataBits data).foldl (crcFeed 0x1021#16) 0xFFFF#16 := by
  have hfrom : ∀ s : UInt16, (data.foldl (fun (crc : UInt16) (b : UInt8) =>
      crc16Bit^[8] (crc ^^^ (b.toUInt16 <<< 8))) s).toBitVec =
        (dataBits data).foldl (crcFeed 0x1021#16) s.toBitVec := by
    induction data with
    | nil => exact fun _ => rfl
    | cons b data ih =>
      intro s
      rw [List.foldl_cons, ih, crc16_byte, dataBits_cons, List.foldl_append]
  exact hfrom 0xFFFF

/-! ## Corruption -/

/-- The data with the bits of `mask` flipped. -/
def corrupt (data mask : List UInt8) : List UInt8 := data.zipWith (· ^^^ ·) mask

theorem length_corrupt {data mask : List UInt8} (h : mask.length = data.length) :
    (corrupt data mask).length = data.length := by
  simp [corrupt, h]

theorem length_dataBits (data : List UInt8) : (dataBits data).length = 8 * data.length := by
  induction data with
  | nil => rfl
  | cons b data ih =>
    rw [dataBits_cons, List.length_append, ih, length_byteBits, List.length_cons]
    omega

theorem dataBits_corrupt {data mask : List UInt8} (h : mask.length = data.length) :
    dataBits (corrupt data mask) = (dataBits data).zipWith xor (dataBits mask) := by
  induction data generalizing mask with
  | nil => simp [corrupt, dataBits]
  | cons b data ih =>
    obtain ⟨m, mask, rfl⟩ := List.exists_cons_of_length_eq_add_one h
    have hrest := ih (Nat.succ.inj h)
    rw [dataBits_cons, dataBits_cons, List.zipWith_append (by simp), ← hrest, ← byteBits_xor]
    rfl

/-- What a corruption does to the checksum does not depend on the data. -/
theorem crc16_corrupt {data mask : List UInt8} (h : mask.length = data.length) :
    (crc16 (corrupt data mask)).toBitVec =
      (crc16 data).toBitVec ^^^ (dataBits mask).foldl (crcFeed 0x1021#16) 0#16 := by
  have hlen : (dataBits data).length = (dataBits mask).length := by
    rw [length_dataBits, length_dataBits, h]
  have hxor := foldl_crcFeed_xor 0x1021#16 hlen 0xFFFF#16 0#16
  rw [crc16_toBitVec, crc16_toBitVec, dataBits_corrupt h, ← hxor, BitVec.xor_zero]

theorem lowByte (v : UInt16) : (v &&& 0xFF).toUInt8 = v.toUInt8 := by
  rw [UInt16.toUInt8_and]
  exact UInt8.and_neg_one

theorem lowByte_eq_zero_iff (v : UInt16) : v.toUInt8 = 0 ↔ v &&& 0xFF = 0 := by
  rw [← UInt8.toNat_inj, ← UInt16.toNat_inj, UInt16.toNat_toUInt8, UInt16.toNat_and]
  exact (Nat.and_two_pow_sub_one_eq_mod v.toNat 8) ▸ Iff.rfl

/-- A corruption of `n` bytes that is confined to 16 consecutive bits. -/
structure Burst (n : Nat) where
  mask : List UInt8
  /-- The bits from the first to the last that is flipped, or more. -/
  word : List Bool
  before : Nat
  after : Nat
  size : mask.length = n
  short : word.length ≤ 16
  dirty : true ∈ word
  bits : dataBits mask = List.replicate before false ++ word ++ List.replicate after false

namespace Burst

variable {n : Nat}

/-- The burst, shifted through the register by the bits that follow it. -/
def syndrome (b : Burst n) : UInt16 := crc16Bit^[b.after + 16] (.ofBitVec (bitsWord 16 b.word))

/-- The low byte of the register stays as it is. -/
def Slips (b : Burst n) : Prop := b.syndrome &&& 0xFF = 0

instance (b : Burst n) : Decidable b.Slips := by unfold Slips; infer_instance

theorem crc16_eq (b : Burst n) {data : List UInt8} (h : data.length = n) :
    crc16 (corrupt data b.mask) = crc16 data ^^^ b.syndrome := by
  rw [← UInt16.toBitVec_inj, crc16_corrupt (b.size.trans h.symm), b.bits,
    foldl_crcFeed_burst _ b.short, UInt16.toBitVec_xor, syndrome, iterate_crc16Bit_toBitVec]

/-- The whole checksum notices every burst. -/
theorem crc16_ne (b : Burst n) {data : List UInt8} (h : data.length = n) :
    crc16 (corrupt data b.mask) ≠ crc16 data := by
  rw [b.crc16_eq h]
  intro heq
  have hzero : b.syndrome = 0 := by
    have hxor := congrArg (crc16 data ^^^ ·) heq
    simpa [← UInt16.xor_assoc] using hxor
  have hshift : (crcShift 0x1021#16)^[b.after + 16] (bitsWord 16 b.word) = 0#16 := by
    rw [← UInt16.toBitVec_inj, syndrome, iterate_crc16Bit_toBitVec] at hzero
    exact hzero
  exact bitsWord_ne_zero b.short b.dirty (iterate_crcShift_eq_zero (by decide) hshift)

theorem lowByte_eq_iff (b : Burst n) {data : List UInt8} (h : data.length = n) :
    (crc16 (corrupt data b.mask) &&& 0xFF).toUInt8 = (crc16 data &&& 0xFF).toUInt8 ↔ b.Slips := by
  rw [b.crc16_eq h, lowByte, lowByte, UInt16.toUInt8_xor, Slips, ← lowByte_eq_zero_iff]
  constructor
  · intro heq
    rw [← UInt8.xor_right_inj (crc16 data).toUInt8, heq, UInt8.xor_zero]
  · intro hzero
    rw [hzero, UInt8.xor_zero]

end Burst

/-! ## Records -/

/-- What a record is written from. -/
inductive RecordWrite
  | content (data : List UInt8)
  | image (width height : UInt16) (bits : List UInt8)

namespace RecordWrite

def offset : RecordWrite → Nat
  | content _ => REGION_OFFSET
  | image .. => IMAGE_OFFSET

/-- The data that ends up in the record. -/
def payload : RecordWrite → List UInt8
  | content data => data.take MAX_DATA
  | image width height bits => u16ToLe width ++ u16ToLe height ++ bits.take (MAX_IMAGE - 4)

section

variable {F : Type} [Flash F]

def save (f : F) : RecordWrite → Except (Flash.Error F) Unit × F
  | content data => PaperNamePlate.save f data
  | image width height bits => saveImage f width height bits

def load (f : F) : RecordWrite → Option (List UInt8)
  | content _ => (PaperNamePlate.load f).1
  | image .. => (loadImage f).1

end

end RecordWrite

/-- Under the header of a record, other data passes if its checksum has the same low byte. -/
theorem recordIn_of_header {c : Cells} {offset max region : Nat} {data data' : List UInt8}
    (hhead : c.read offset HEADER = recordHeader data)
    (hdata : c.read (offset + HEADER) data.length = data') (hne : data ≠ [])
    (hlen : data.length < 2 ^ 16) (hmax : data.length ≤ max)
    (hregion : HEADER + data.length ≤ region) :
    recordIn c offset max region =
      if (crc16 data' &&& 0xFF).toUInt8 = (crc16 data &&& 0xFF).toUInt8 then some data'
        else none := by
  have hpos := List.length_pos_of_ne_nil hne
  have hin : ¬ (data.length = 0 ∨ data.length > max ∨ HEADER + data.length > region) := by omega
  unfold recordIn
  rw [hhead]
  simp only [recordHeader, MAGIC, u16ToLe, List.cons_append, List.nil_append, ne_eq,
    not_true_eq_false, false_or]
  rw [recordHeader_len hlen, if_neg hin, hdata]

section

variable {F : Type} [Flash F] (laws : FlashLaws F)

include laws

/-- After a corruption of its data, the record is read from its old header. -/
theorem RecordWrite.load_corrupted (r : RecordWrite) (f f' : F) (hsaved : (r.save f).1 = .ok ())
    {mask : List UInt8} (hmask : mask.length = r.payload.length) (hne : r.payload ≠ [])
    (hf' : laws.cells f' =
      (laws.cells (r.save f).2).write (r.offset + HEADER) (corrupt r.payload mask)) :
    r.load f' =
      if (crc16 (corrupt r.payload mask) &&& 0xFF).toUInt8 = (crc16 r.payload &&& 0xFF).toUInt8 then
        some (corrupt r.payload mask)
      else none := by
  have hlen := length_corrupt hmask
  have hcells : laws.cells (r.save f).2 =
      (laws.cells f).write r.offset (recordHeader r.payload ++ r.payload) := by
    cases r with
    | content data => exact saveRec_ok laws f hsaved
    | image width height bits => exact saveRec_ok laws f hsaved
  have hall : laws.cells f' = (laws.cells f).write r.offset
      (recordHeader r.payload ++ corrupt r.payload mask) := by
    rw [hf', hcells]
    exact Cells.write_over _ r.offset (recordHeader r.payload) hlen
  have hread := (laws.cells f).read_write r.offset
    (recordHeader r.payload ++ corrupt r.payload mask)
  rw [← hall, List.length_append, hlen, Cells.read_append] at hread
  obtain ⟨hhead, hdata⟩ := List.append_inj hread (by simp)
  cases r with
  | content data =>
    have hmax : (content data).payload.length ≤ MAX_DATA := List.length_take_le _ _
    have hbytes : MAX_DATA = 2048 := rfl
    have hsize : HEADER = 8 ∧ REGION_SIZE = 24576 := ⟨rfl, rfl⟩
    rw [load, load_eq laws]
    exact recordIn_of_header hhead hdata hne (by omega) hmax (by omega)
  | image width height bits =>
    have hmax : (image width height bits).payload.length ≤ MAX_IMAGE := by
      simp [payload, MAX_IMAGE]
      omega
    have hbytes : MAX_IMAGE = 48004 := rfl
    have hsize : HEADER = 8 ∧ IMAGE_REGION = 327680 := ⟨rfl, rfl⟩
    rw [load, loadImage_eq laws]
    exact recordIn_of_header hhead hdata hne (by omega) hmax (by omega)

/-- A burst in the data of a record is noticed by the next load exactly if it does not slip through
the low byte of the checksum. -/
theorem burst_noticed_iff (r : RecordWrite) (f f' : F) (hsaved : (r.save f).1 = .ok ())
    (b : Burst r.payload.length)
    (hf' : laws.cells f' =
      (laws.cells (r.save f).2).write (r.offset + HEADER) (corrupt r.payload b.mask)) :
    r.load f' = none ↔ ¬ b.Slips := by
  have hne : r.payload ≠ [] := by
    intro hnil
    have hmask := List.length_eq_zero_iff.mp (b.size.trans (congrArg List.length hnil))
    have hmem := b.dirty
    have hbits := b.bits
    rw [hmask] at hbits
    have hword : b.word = [] := by
      simp only [dataBits, List.flatMap_nil, List.nil_eq, List.append_eq_nil_iff] at hbits
      exact hbits.1.2
    rw [hword] at hmem
    cases hmem
  rw [r.load_corrupted laws f f' hsaved b.size hne hf', ← b.lowByte_eq_iff rfl]
  split
  · next h => exact iff_of_false (Option.some_ne_none _) (not_not.mpr h)
  · next h => exact iff_of_true rfl h

end

/-- The last bit of a byte. -/
def lastBit : Burst 1 where
  mask := [0x01]
  word := [true]
  before := 7
  after := 0
  size := rfl
  short := by decide
  dirty := by decide
  bits := by decide

theorem burst_noticed_lastBit : (load (((save Cells.erased [0x4B]).2).write (REGION_OFFSET + HEADER)
    (corrupt [0x4B] [0x01]))).1 = none := by
  have hseen : ¬ lastBit.Slips := by decide +kernel
  exact (burst_noticed_iff cellsLaws (.content [0x4B]) Cells.erased _ rfl lastBit rfl).mpr hseen

/-- A bit with 569 bits behind it. -/
def farBit : Burst 72 where
  mask := 0x02 :: List.replicate 71 0
  word := [true]
  before := 6
  after := 569
  size := rfl
  short := by decide
  dirty := by decide
  bits := by decide +kernel

/-- The bit comes out of the register with an empty low byte. -/
theorem farBit_slips : farBit.Slips := by
  have h1 : crc16Bit^[195] 1 = 0x183B := by decide +kernel
  have h2 : crc16Bit^[195] 0x183B = 0x7EB0 := by decide +kernel
  have h3 : crc16Bit^[195] 0x7EB0 = 0x4500 := by decide +kernel
  have hall : farBit.syndrome = 0x4500 := by
    change crc16Bit^[195 + (195 + 195)] 1 = _
    rw [Function.iterate_add_apply, Function.iterate_add_apply, h1, h2, h3]
  rw [Burst.Slips, hall]
  decide

/-- One bit flipped in a record of 72 bytes is loaded. -/
theorem farBit_not_noticed : ¬ ∀ (r : RecordWrite) (f f' : Cells) (b : Burst r.payload.length),
    (r.save f).1 = .ok () →
      f' = Cells.write (r.save f).2 (r.offset + HEADER) (corrupt r.payload b.mask) →
        r.load f' = none := by
  intro h
  let r : RecordWrite := .content (List.replicate 72 0)
  have hnone := h r Cells.erased _ farBit rfl rfl
  have hload := r.load_corrupted cellsLaws Cells.erased _ rfl farBit.size (by decide) rfl
  rw [if_pos ((farBit.lowByte_eq_iff rfl).mpr farBit_slips)] at hload
  exact Option.some_ne_none _ (hload.symm.trans hnone)

end PaperNamePlate
