import Mathlib.Data.List.GetD
import Mathlib.Data.Nat.Bitwise
import Mathlib.Tactic.Common

/-!
# The bits of bytes

Bits are counted from the least significant one, over the bytes of a list one after the
other. A byte is its eight bits, and `packed` makes the bytes of given bits.
-/
namespace Embedded

def bit (b : UInt8) (i : Nat) : Bool := b.toNat.testBit i

theorem byte_ext {a b : UInt8} (h : ∀ i < 8, bit a i = bit b i) : a = b := by
  refine UInt8.toNat_inj.mp (Nat.eq_of_testBit_eq fun i => ?_)
  by_cases hi : i < 8
  · exact h i hi
  · have hhigh : ∀ x : UInt8, x.toNat.testBit i = false := fun x =>
      Nat.testBit_lt_two_pow
        (lt_of_lt_of_le x.toNat_lt (Nat.pow_le_pow_right (by decide) (by omega)))
    rw [hhigh a, hhigh b]

@[simp] theorem bit_or (a b : UInt8) (i : Nat) : bit (a ||| b) i = (bit a i || bit b i) := by
  rw [bit, UInt8.toNat_or, Nat.testBit_or]
  rfl

@[simp] theorem bit_and (a b : UInt8) (i : Nat) : bit (a &&& b) i = (bit a i && bit b i) := by
  rw [bit, UInt8.toNat_and, Nat.testBit_and]
  rfl

@[simp] theorem bit_not (a : UInt8) {i : Nat} (hi : i < 8) : bit (~~~a) i = !bit a i := by
  have hnot : (~~~a).toNat = 2 ^ 8 - (a.toNat + 1) := by
    rw [UInt8.toNat_not, Nat.sub_add_eq, Nat.sub_right_comm]
    rfl
  rw [bit, hnot, Nat.testBit_two_pow_sub_succ a.toNat_lt, decide_eq_true hi]
  rfl

/-- A mask of one bit. -/
theorem and_two_pow_ne_zero (a : UInt8) {i : Nat} (hi : i < 8) :
    a &&& UInt8.ofNat (2 ^ i) ≠ 0 ↔ bit a i = true := by
  have hmask : (UInt8.ofNat (2 ^ i)).toNat = 2 ^ i :=
    UInt8.toNat_ofNat_of_lt' (Nat.pow_lt_pow_right (by decide) hi)
  rw [ne_eq, ← UInt8.toNat_inj, UInt8.toNat_and, hmask, Nat.and_two_pow, bit]
  cases a.toNat.testBit i <;> simp

@[simp] theorem bit_xor (a b : UInt8) (i : Nat) : bit (a ^^^ b) i = (bit a i ^^ bit b i) := by
  rw [bit, UInt8.toNat_xor, Nat.testBit_xor]
  rfl

theorem bit_shiftLeft (a : UInt8) {k i : Nat} (hk : k < 8) (hi : i < 8) :
    bit (a <<< UInt8.ofNat k) i = (decide (k ≤ i) && bit a (i - k)) := by
  have hmod : (UInt8.ofNat k).toNat % 8 = k := by rw [UInt8.toNat_ofNat']; omega
  rw [bit, UInt8.toNat_shiftLeft, hmod, Nat.testBit_mod_two_pow, Nat.testBit_shiftLeft]
  simp [hi, bit]

theorem bit_shiftRight (a : UInt8) {k : Nat} (hk : k < 8) (i : Nat) :
    bit (a >>> UInt8.ofNat k) i = bit a (k + i) := by
  have hmod : (UInt8.ofNat k).toNat % 8 = k := by rw [UInt8.toNat_ofNat']; omega
  rw [bit, UInt8.toNat_shiftRight, hmod, Nat.testBit_shiftRight]
  rfl

theorem bit_one (i : Nat) : bit 1 i = decide (i = 0) := by
  rw [bit, Bool.eq_iff_iff, decide_eq_true_iff]
  exact Nat.testBit_one_eq_true_iff_self_eq_zero

/-- Bit `i` of the bytes. -/
def nthBit (bs : List UInt8) (i : Nat) : Bool := bit (bs.getD (i / 8) 0) (i % 8)

theorem nthBit_byte (bs : List UInt8) (j : Nat) {i : Nat} (hi : i < 8) :
    nthBit bs (8 * j + i) = bit (bs.getD j 0) i := by
  have hdiv : (8 * j + i) / 8 = j := by omega
  have hmod : (8 * j + i) % 8 = i := by omega
  rw [nthBit, hdiv, hmod]

/-- Byte strings of one length with the same bits are equal. -/
theorem bytes_ext {xs ys : List UInt8} (hlen : xs.length = ys.length)
    (h : ∀ j < xs.length, ∀ i < 8, bit (xs.getD j 0) i = bit (ys.getD j 0) i) : xs = ys := by
  refine List.ext_getElem hlen fun j hj hj' => ?_
  have hbyte := byte_ext (h j hj)
  rwa [List.getD_eq_getElem _ _ hj, List.getD_eq_getElem _ _ hj'] at hbyte

/-- The byte with these bits. -/
def byteOf (f : Nat → Bool) : UInt8 := UInt8.ofNat (Nat.ofBits fun i : Fin 8 => f i)

theorem bit_byteOf (f : Nat → Bool) {i : Nat} (hi : i < 8) : bit (byteOf f) i = f i := by
  have hlt := Nat.ofBits_lt_two_pow fun i : Fin 8 => f i
  rw [bit, byteOf, UInt8.toNat_ofNat', Nat.mod_eq_of_lt hlt, Nat.testBit_ofBits_lt _ i hi]

/-- The `n` bytes from byte `first` on of these bits. -/
def packed (f : Nat → Bool) (first n : Nat) : List UInt8 :=
  (List.range n).map fun j => byteOf fun i => f (8 * (first + j) + i)

@[simp] theorem length_packed (f : Nat → Bool) (first n : Nat) : (packed f first n).length = n := by
  simp [packed]

theorem bit_packed (f : Nat → Bool) (first : Nat) {n j i : Nat} (hj : j < n) (hi : i < 8) :
    bit ((packed f first n).getD j 0) i = f (8 * (first + j) + i) := by
  have hget : (packed f first n).getD j 0 = byteOf fun i => f (8 * (first + j) + i) := by
    simp [packed, List.getD_eq_getElem?_getD, hj]
  rw [hget, bit_byteOf _ hi]

theorem packed_congr {f g : Nat → Bool} {first n : Nat}
    (h : ∀ i, 8 * first ≤ i → i < 8 * (first + n) → f i = g i) :
    packed f first n = packed g first n := by
  refine bytes_ext (by simp) fun j hj i hi => ?_
  rw [length_packed] at hj
  rw [bit_packed f first hj hi, bit_packed g first hj hi]
  exact h _ (by omega) (by omega)

theorem packed_add (f : Nat → Bool) (first n k : Nat) :
    packed f first (n + k) = packed f first n ++ packed f (first + n) k := by
  simp [packed, List.range_add, Nat.add_assoc]

theorem packed_one (f : Nat → Bool) (first : Nat) :
    packed f first 1 = [byteOf fun i => f (8 * first + i)] := rfl

theorem nthBit_packed (f : Nat → Bool) {n i : Nat} (h : i < 8 * n) :
    nthBit (packed f 0 n) i = f i := by
  have hi : 8 * (0 + i / 8) + i % 8 = i := by omega
  rw [nthBit, bit_packed f 0 (by omega) (by omega), hi]

end Embedded
