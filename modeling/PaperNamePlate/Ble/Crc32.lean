import PaperNamePlate.Ble.ImgRx
import PaperNamePlate.Lib.Bits
import PaperNamePlate.Lib.Crc

/-!
# The checksum of a transfer

The device shifts the CRC-32 bit by bit, the web client looks up eight shifts in a table.
Both are the reflected register of the IEEE CRC-32, which takes in the bits of a byte from the
least significant one on.
-/
namespace PaperNamePlate

open Embedded

/-! ## The web client -/

/-- One step of the loop that fills the table. -/
def crcTableStep (c : UInt32) : UInt32 :=
  if c &&& 1 ≠ 0 then (0xEDB88320 : UInt32) ^^^ (c >>> 1) else c >>> 1

def CRC_TABLE : Vector UInt32 256 := Vector.ofFn fun n => crcTableStep^[8] (UInt32.ofNat n)

theorem toNat_and_255_lt (c : UInt32) : (c &&& 0xFF).toNat < 256 := by
  rw [UInt32.toNat_and]
  exact Nat.lt_of_le_of_lt Nat.and_le_right (by decide)

/-- `crc32` of the web page. -/
def webCrc32 (bytes : List UInt8) : UInt32 :=
  bytes.foldl (fun (c : UInt32) b =>
    CRC_TABLE.get ⟨((c ^^^ b.toUInt32) &&& 0xFF).toNat, toNat_and_255_lt _⟩ ^^^ (c >>> 8))
      0xFFFFFFFF ^^^
      0xFFFFFFFF

/-! ## The standard -/

def bitsLow (b : UInt8) : List Bool := (List.range 8).map (bit b)

/-- The IEEE CRC-32: generator EDB88320 in reflected form, all ones at the start, and flipped at the
end. -/
def ieeeCrc32 (data : List UInt8) : BitVec 32 :=
  ~~~ (data.flatMap bitsLow).foldl (crcFeedRight 0xEDB88320#32) (BitVec.allOnes 32)

/-! ## The register -/

theorem crc32Bit_toBitVec (s : UInt32) :
    (crc32Bit s).toBitVec = crcShiftRight 0xEDB88320#32 s.toBitVec := by
  have hlow : s &&& 1 ≠ 0 ↔ s.toBitVec.getLsbD 0 = true := by
    have hone : (1 : UInt32).toBitVec = BitVec.twoPow 32 0 := by decide
    rw [Ne, ← UInt32.toBitVec_inj, UInt32.toBitVec_and, hone, BitVec.and_twoPow]
    cases s.toBitVec.getLsbD 0 with
    | false => exact iff_of_false (fun h => h rfl) Bool.false_ne_true
    | true => exact iff_of_true (by decide) rfl
  unfold crc32Bit crcShiftRight
  by_cases h : s.toBitVec.getLsbD 0 = true
  · rw [if_pos (hlow.mpr h), if_pos h]
    rfl
  · rw [if_neg fun h' => h (hlow.mp h'), if_neg h]
    simp

theorem iterate_crc32Bit_toBitVec (n : Nat) (s : UInt32) :
    (crc32Bit^[n] s).toBitVec = (crcShiftRight 0xEDB88320#32)^[n] s.toBitVec := by
  induction n generalizing s with
  | zero => rfl
  | succ n ih => rw [Function.iterate_succ_apply, ih, crc32Bit_toBitVec]; rfl

theorem crcTableStep_eq (c : UInt32) : crcTableStep c = crc32Bit c := by
  unfold crcTableStep crc32Bit
  rw [UInt32.xor_comm]

theorem get_CRC_TABLE (n : Fin 256) : CRC_TABLE.get n = crc32Bit^[8] (UInt32.ofNat n) := by
  have hstep : crcTableStep = crc32Bit := funext crcTableStep_eq
  rw [CRC_TABLE, hstep]
  exact Vector.getElem_ofFn n.isLt

/-- Eight shifts are a look-up and a move by a byte. -/
theorem crc32_lookup (c : UInt32) (b : UInt8) :
    crc32Bit^[8] (c ^^^ b.toUInt32) =
      CRC_TABLE.get ⟨((c ^^^ b.toUInt32) &&& 0xFF).toNat, toNat_and_255_lt _⟩ ^^^ (c >>> 8) := by
  have hlow : ∀ i, ((c ^^^ b.toUInt32) &&& 0xFF).toBitVec.getLsbD i =
      (decide (i < 8) && (c ^^^ b.toUInt32).toBitVec.getLsbD i) := by
    intro i
    have hmask : (0xFF : UInt32).toBitVec.getLsbD i = decide (i < 8) := by
      have hbit := Nat.testBit_two_pow_sub_one 8 i
      change (BitVec.ofNat 32 (2 ^ 8 - 1)).getLsbD i = _
      rw [BitVec.getLsbD_ofNat, hbit, Bool.eq_iff_iff]
      simp
      omega
    rw [UInt32.toBitVec_and, BitVec.getLsbD_and, hmask, Bool.and_comm]
  have hmove : (c ^^^ b.toUInt32).toBitVec >>> 8 = (c >>> 8).toBitVec := by
    have hb := b.toNat_lt
    have hbyte : b.toUInt32.toBitVec >>> 8 = 0#32 := by
      refine BitVec.eq_of_toNat_eq ?_
      rw [BitVec.toNat_ushiftRight, UInt32.toNat_toBitVec, UInt8.toNat_toUInt32,
        Nat.shiftRight_eq_div_pow]
      exact Nat.div_eq_of_lt hb
    rw [UInt32.toBitVec_xor, BitVec.ushiftRight_xor_distrib, hbyte, BitVec.xor_zero]
    rfl
  rw [get_CRC_TABLE, UInt32.ofNat_toNat, ← UInt32.toBitVec_inj, UInt32.toBitVec_xor,
    iterate_crc32Bit_toBitVec, iterate_crc32Bit_toBitVec, iterate_crcShiftRight_split hlow, hmove]

/-! ## The checksums -/

theorem webCrc32_eq (data : List UInt8) : webCrc32 data = crc32 data := by
  have hbyte : (fun (c : UInt32) b =>
      CRC_TABLE.get ⟨((c ^^^ b.toUInt32) &&& 0xFF).toNat, toNat_and_255_lt _⟩ ^^^ (c >>> 8)) =
      fun c (b : UInt8) => crc32Bit^[8] (c ^^^ b.toUInt32) := by
    funext c b
    exact (crc32_lookup c b).symm
  have hflip : ∀ c : UInt32, c ^^^ 0xFFFFFFFF = ~~~c := fun c => UInt32.xor_neg_one
  rw [webCrc32, hbyte, hflip]
  rfl

theorem foldl_bitsLow (b : UInt8) (s : BitVec 32) :
    (bitsLow b).foldl (crcFeedRight 0xEDB88320#32) s =
      (crcShiftRight 0xEDB88320#32)^[8] (s ^^^ b.toUInt32.toBitVec) := by
  have hword : lowWord 32 (bitsLow b) = b.toUInt32.toBitVec := by
    refine BitVec.eq_of_getLsbD_eq fun i hi => ?_
    rw [getLsbD_lowWord _ hi]
    change (bitsLow b).getD i false = b.toUInt32.toNat.testBit i
    rw [UInt8.toNat_toUInt32]
    by_cases hlow : i < 8
    · simp [bitsLow, bit, hlow]
    · have hlt : b.toNat < 2 ^ i :=
        lt_of_lt_of_le b.toNat_lt (Nat.pow_le_pow_right (by decide) (Nat.le_of_not_lt hlow))
      rw [Nat.testBit_lt_two_pow hlt]
      simp [bitsLow, hlow]
  have hlen : (bitsLow b).length = 8 := rfl
  rw [foldl_crcFeedRight _ (by rw [hlen]; decide), hword, hlen]

theorem crc32_toBitVec (data : List UInt8) : (crc32 data).toBitVec = ieeeCrc32 data := by
  have hfrom : ∀ s : UInt32,
      (data.foldl (fun crc b => crc32Bit^[8] (crc ^^^ b.toUInt32)) s).toBitVec =
      (data.flatMap bitsLow).foldl (crcFeedRight 0xEDB88320#32) s.toBitVec := by
    induction data with
    | nil => exact fun _ => rfl
    | cons b data ih =>
      intro s
      rw [List.foldl_cons, ih, iterate_crc32Bit_toBitVec, List.flatMap_cons, List.foldl_append,
        foldl_bitsLow, UInt32.toBitVec_xor]
  exact congrArg (~~~ ·) (hfrom 0xFFFFFFFF)

/-- The device and the web client compute the IEEE CRC-32. -/
theorem crc32_agree (data : List UInt8) : crc32 data = webCrc32 data ∧
    (crc32 data).toBitVec = ieeeCrc32 data ∧ (webCrc32 data).toBitVec = ieeeCrc32 data := by
  rw [webCrc32_eq]
  exact ⟨rfl, crc32_toBitVec data, crc32_toBitVec data⟩

end PaperNamePlate
