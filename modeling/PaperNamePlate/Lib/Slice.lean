import Mathlib.Algebra.Group.Nat.Defs
import Mathlib.Data.List.Basic
import Mathlib.Tactic.Common

/-!
# Slices, fixed-size arrays and little-endian words

Checked subslices of lists (`xs.get(a..b)`), byte arrays of a fixed size with
checked overwriting, the byte order of 16- and 32-bit words, and addition on a
32-bit `usize`. An out-of-range access cannot be written: reading returns an
`Option`, and overwriting asks for the proof that the new bytes fit.
-/
namespace Embedded

variable {α : Type*}

/-- `xs.get(a..b)`. -/
def slice? (xs : List α) (a b : Nat) : Option (List α) :=
  if a ≤ b ∧ b ≤ xs.length then some ((xs.drop a).take (b - a)) else none

/-- `xs.get(a..)`. -/
def sliceFrom? (xs : List α) (a : Nat) : Option (List α) :=
  if a ≤ xs.length then some (xs.drop a) else none

theorem slice?_eq_some {xs ys : List α} {a b : Nat} (h : slice? xs a b = some ys) :
    a ≤ b ∧ b ≤ xs.length ∧ ys = (xs.drop a).take (b - a) := by
  unfold slice? at h
  split at h
  · next hab => exact ⟨hab.1, hab.2, (Option.some.inj h).symm⟩
  · cases h

/-- The middle of a concatenation is the slice between the two lengths. -/
theorem slice?_append (pre mid post : List α) (a b : Nat) (ha : a = pre.length)
    (hb : b = pre.length + mid.length) : slice? (pre ++ mid ++ post) a b = some mid := by
  subst ha hb
  simp [slice?]

theorem drop_add_of_drop {xs as bs : List α} {i : Nat} (h : xs.drop i = as ++ bs) :
    xs.drop (i + as.length) = bs := by
  rw [← List.drop_drop, h, List.drop_left]

theorem getElem?_of_drop {xs bs : List α} {i : Nat} {a : α} (h : xs.drop i = a :: bs) :
    xs[i]? = some a := by
  have hget : (xs.drop i)[0]? = some a := by rw [h]; rfl
  rwa [List.getElem?_drop] at hget

theorem le_of_drop {xs as bs : List α} {i : Nat} (h : xs.drop i = as ++ bs) (hi : i ≤ xs.length) :
    i + as.length ≤ xs.length := by
  have hlen := congrArg List.length h
  rw [List.length_drop, List.length_append] at hlen
  omega

theorem slice?_of_drop {xs as bs : List α} {i : Nat} (h : xs.drop i = as ++ bs)
    (hi : i ≤ xs.length) :
    slice? xs i (i + as.length) = some as := by
  rw [slice?, if_pos ⟨Nat.le_add_right _ _, le_of_drop h hi⟩, h, Nat.add_sub_cancel_left,
    List.take_left]

@[simp] theorem sliceFrom?_append (pre post : List α) :
    sliceFrom? (pre ++ post) pre.length = some post := by
  simp [sliceFrom?]

/-- A byte slice on the target, where `isize::MAX` bounds its length. -/
structure TargetSlice where
  bytes : List UInt8
  size : bytes.length < 2 ^ 31

/-! ## Overwriting -/

theorem modify_append_cons {α : Type*} (pre rest : List α) (a : α) (f : α → α) :
    (pre ++ a :: rest).modify pre.length f = pre ++ f a :: rest := by
  induction pre with
  | nil => rfl
  | cons p pre ih => simpa using ih

theorem take_modify_of_le {α : Type*} (xs : List α) {k n : Nat} (f : α → α) (h : n ≤ k) :
    (xs.modify k f).take n = xs.take n := by
  refine List.ext_getElem? fun j => ?_
  rw [List.getElem?_take, List.getElem?_take]
  split
  · next hj =>
    have hne : k ≠ j := by omega
    rw [List.getElem?_modify]
    simp [hne]
  · rfl

/-- `xs` with the elements from `i` on replaced by `ys`. -/
def splice (xs : List α) (i : Nat) (ys : List α) : List α :=
  xs.take i ++ ys ++ xs.drop (i + ys.length)

theorem length_splice (xs ys : List α) (i : Nat) (h : i + ys.length ≤ xs.length) :
    (splice xs i ys).length = xs.length := by
  simp [splice]; omega

theorem drop_splice_self (xs ys : List α) (i : Nat) (h : i + ys.length ≤ xs.length) :
    (splice xs i ys).drop i = ys ++ xs.drop (i + ys.length) := by
  have hlen : (xs.take i).length = i := by simp; omega
  rw [splice, List.append_assoc, List.drop_append, hlen, List.drop_eq_nil_of_le (by omega)]
  simp

theorem splice_cons (x : α) (xs ys : List α) (i : Nat) :
    splice (x :: xs) (i + 1) ys = x :: splice xs i ys := by
  simp [splice, Nat.add_right_comm]

/-- Overwriting twice in a row is overwriting once. -/
theorem splice_splice (xs ys zs : List α) (i : Nat) (h : i ≤ xs.length) :
    splice (splice xs i ys) (i + ys.length) zs = splice xs i (ys ++ zs) := by
  have hlen : (xs.take i ++ ys).length = i + ys.length := by simp; omega
  have htake : (xs.take i ++ ys ++ xs.drop (i + ys.length)).take (i + ys.length) =
      xs.take i ++ ys := by
    rw [← hlen, List.take_left]
  have hdrop : (xs.take i ++ ys ++ xs.drop (i + ys.length)).drop (i + ys.length + zs.length) =
      xs.drop (i + (ys.length + zs.length)) := by
    rw [List.drop_append, hlen, List.drop_eq_nil_of_le (by omega), List.nil_append, List.drop_drop]
    congr 1; omega
  simp only [splice, List.length_append] at htake hdrop ⊢
  rw [htake, hdrop]
  simp only [List.append_assoc]

theorem getElem?_splice_of_outside {xs ys : List α} {i k : Nat} (h : i + ys.length ≤ xs.length)
    (hk : ¬ (i ≤ k ∧ k < i + ys.length)) : (splice xs i ys)[k]? = xs[k]? := by
  have hlen : (xs.take i).length = i := by simp; omega
  rw [splice, List.append_assoc]
  by_cases hlow : k < i
  · rw [List.getElem?_append_left (by omega), List.getElem?_take_of_lt hlow]
  · rw [List.getElem?_append_right (by omega), hlen, List.getElem?_append_right (by omega),
      List.getElem?_drop]
    congr 1
    omega

theorem getD_splice (xs ys : List α) (i k : Nat) (d : α) (h : i + ys.length ≤ xs.length) :
    (splice xs i ys).getD k d = if i ≤ k ∧ k < i + ys.length then ys.getD (k - i) d
      else xs.getD k d := by
  simp only [List.getD_eq_getElem?_getD]
  split
  · next hk =>
    have hlen : (xs.take i).length = i := by simp; omega
    rw [splice, List.append_assoc, List.getElem?_append_right (by omega), hlen,
      List.getElem?_append_left (by omega)]
  · next hk => rw [getElem?_splice_of_outside h hk]

/-! ## Rows of one length, one after the other -/

theorem length_flatMap_range {n m : Nat} {row : Nat → List α}
    (hrow : ∀ r, r < n → (row r).length = m) :
    ((List.range n).flatMap row).length = n * m := by
  induction n with
  | zero => simp
  | succ n ih =>
    rw [List.range_succ, List.flatMap_append, List.length_append, List.flatMap_singleton,
      ih fun r hr => hrow r (by omega), hrow n (by omega), Nat.succ_mul]

theorem getD_flatMap_range {n m : Nat} {row : Nat → List α} (hrow : ∀ r, r < n → (row r).length = m)
    {r b : Nat} (hr : r < n) (hb : b < m) (d : α) :
    ((List.range n).flatMap row).getD (r * m + b) d = (row r).getD b d := by
  induction n with
  | zero => omega
  | succ n ih =>
    have hinit : ∀ r, r < n → (row r).length = m := fun r hr => hrow r (by omega)
    have hlen := length_flatMap_range hinit
    rw [List.range_succ, List.flatMap_append, List.getD_eq_getElem?_getD, List.flatMap_singleton]
    by_cases hlast : r = n
    · subst hlast
      rw [List.getElem?_append_right (by omega), hlen, List.getD_eq_getElem?_getD,
        Nat.add_sub_cancel_left]
    · have hlt : r < n := by omega
      have hfits : r * m + b < n * m := by
        calc r * m + b < r * m + m := by omega
          _ = (r + 1) * m := by rw [Nat.succ_mul]
          _ ≤ n * m := Nat.mul_le_mul_right m hlt
      rw [List.getElem?_append_left (by omega), ← List.getD_eq_getElem?_getD]
      exact ih hinit hlt

/-! ## Pages of one width -/

/-- Page `p` of a memory with pages of width `w`. -/
def page (w : Nat) (xs : List α) (p : Nat) : List α := (xs.drop (p * w)).take w

theorem length_page {w p : Nat} {xs : List α} (h : (p + 1) * w ≤ xs.length) :
    (page w xs p).length = w := by
  rw [Nat.succ_mul] at h
  simp [page]; omega

theorem getElem?_page {w p b : Nat} {xs : List α} (hb : b < w) :
    (page w xs p)[b]? = xs[p * w + b]? := by
  rw [page, List.getElem?_take_of_lt hb, List.getElem?_drop]

theorem page_eq_map {w p : Nat} {xs : List α} (h : (p + 1) * w ≤ xs.length) (d : α) :
    page w xs p = (List.range w).map fun b => xs.getD (p * w + b) d := by
  rw [Nat.succ_mul] at h
  refine List.ext_getElem (by simp [page]; omega) fun b hb _ => ?_
  have hlt : p * w + b < xs.length := by simp [page] at hb; omega
  simp [page, List.getD_eq_getElem?_getD, hlt]

/-- Neighbouring pages one after the other are a range of the memory. -/
theorem flatMap_page (w : Nat) (xs : List α) (p n : Nat) :
    ((List.range n).flatMap fun i => page w xs (p + i)) = (xs.drop (p * w)).take (n * w) := by
  induction n with
  | zero => simp
  | succ n ih =>
    rw [List.range_succ, List.flatMap_append, ih, Nat.succ_mul, List.take_add, List.drop_drop,
      ← Nat.add_mul, List.flatMap_singleton, page]

theorem page_splice_of_disjoint {w q i : Nat} {xs ys : List α} (h : i + ys.length ≤ xs.length)
    (hq : (q + 1) * w ≤ i ∨ i + ys.length ≤ q * w) : page w (splice xs i ys) q = page w xs q := by
  rw [Nat.succ_mul] at hq
  refine List.ext_getElem? fun b => ?_
  by_cases hb : b < w
  · rw [getElem?_page hb, getElem?_page hb, getElem?_splice_of_outside h (by omega)]
  · rw [List.getElem?_eq_none (by simp [page]; omega),
      List.getElem?_eq_none (by simp [page]; omega)]

/-- Overwriting one page leaves the other ones alone. -/
theorem page_splice {w p q : Nat} {xs ys : List α} (hw : ys.length = w)
    (hp : (p + 1) * w ≤ xs.length) :
    page w (splice xs (p * w) ys) q = if q = p then ys else page w xs q := by
  rw [Nat.succ_mul] at hp
  split
  · next h => rw [h, page, drop_splice_self _ _ _ (by omega), ← hw, List.take_left]
  · next h =>
    refine page_splice_of_disjoint (by omega) ?_
    rw [hw, ← Nat.succ_mul]
    rcases Nat.lt_or_gt_of_ne h with hlt | hgt
    · exact .inl (Nat.mul_le_mul_right w hlt)
    · exact .inr (Nat.mul_le_mul_right w hgt)

/-- A byte array of a fixed size, `[u8; n]`. -/
structure Block (n : Nat) where
  bytes : List UInt8
  size : bytes.length = n

namespace Block

variable {n : Nat}

/-- `b[i..i + xs.len()].copy_from_slice(xs)`. -/
def write (b : Block n) (i : Nat) (xs : List UInt8) (h : i + xs.length ≤ n) : Block n :=
  ⟨splice b.bytes i xs, by rw [length_splice _ _ _ (by rw [b.size]; exact h), b.size]⟩

/-- `b[i..i + k]`. -/
def read (b : Block n) (i k : Nat) : List UInt8 := (b.bytes.drop i).take k

/-- `b[i]`. -/
def get (b : Block n) (i : Nat) (h : i < n) : UInt8 := b.bytes.get ⟨i, by rw [b.size]; exact h⟩

theorem get_eq_getD (b : Block n) (i : Nat) (h : i < n) (d : UInt8) :
    b.get i h = b.bytes.getD i d := by
  have hsize := b.size
  simp [get, List.getD_eq_getElem?_getD, show i < b.bytes.length by omega]

theorem length_read (b : Block n) (i k : Nat) (h : i + k ≤ n) : (b.read i k).length = k := by
  have := b.size
  simp [read]; omega

theorem read_write (b : Block n) (i k : Nat) (xs : List UInt8) (h : i + xs.length ≤ n)
    (hk : k = xs.length) : (b.write i xs h).read i k = xs := by
  have hsize := b.size
  rw [read, write, drop_splice_self _ _ _ (by omega), hk, List.take_left]

theorem read_write_end (b : Block n) (i : Nat) (xs : List UInt8) (h : i + xs.length ≤ n) :
    (b.write i xs h).read 0 (i + xs.length) = b.read 0 i ++ xs := by
  have hsize := b.size
  have hlen : (b.bytes.take i ++ xs).length = i + xs.length := by simp; omega
  simp only [read, write, splice, List.drop_zero]
  rw [← hlen, List.take_left]

theorem read_write_within (b : Block n) (i k : Nat) (xs : List UInt8) (h : i + xs.length ≤ n)
    (hk : i + xs.length ≤ k) : (b.write i xs h).read 0 k = splice (b.read 0 k) i xs := by
  have hsize := b.size
  have hlen : (b.bytes.take i ++ xs).length = i + xs.length := by simp; omega
  have hmin : min i k = i := by omega
  simp only [read, write, splice, List.drop_zero, List.take_take, hmin]
  rw [List.take_append, hlen, List.take_of_length_le (by omega), List.drop_take]

theorem write_write (b : Block n) (i : Nat) (xs ys : List UInt8) (h : i + xs.length ≤ n)
    (h' : i + xs.length + ys.length ≤ n) :
    (b.write i xs h).write (i + xs.length) ys h' =
      b.write i (xs ++ ys) (by rw [List.length_append]; omega) := by
  have hsize := b.size
  simp only [write, splice_splice b.bytes xs ys i (by omega)]

end Block

/-! ## Words -/

/-- `a + b` on the target's 32-bit `usize`, in a build without overflow checks. -/
def usizeAdd (a b : Nat) : Nat := (a + b) % 2 ^ 32

theorem usizeAdd_of_lt {a b : Nat} (h : a + b < 2 ^ 32) : usizeAdd a b = a + b :=
  Nat.mod_eq_of_lt h

/-- `u16::from_le_bytes([a, b])`. -/
def u16OfLe (a b : UInt8) : UInt16 := UInt16.ofNat (a.toNat + 2 ^ 8 * b.toNat)

/-- `w.to_le_bytes()`. -/
def u16ToLe (w : UInt16) : List UInt8 := [UInt8.ofNat w.toNat, UInt8.ofNat (w.toNat / 2 ^ 8)]

/-- `u16::from_be_bytes([a, b])`. -/
def u16OfBe (a b : UInt8) : UInt16 := u16OfLe b a

/-- `w.to_be_bytes()`. -/
def u16ToBe (w : UInt16) : List UInt8 := (u16ToLe w).reverse

/-- `u32::from_le_bytes([a, b, c, d])`. -/
def u32OfLe (a b c d : UInt8) : UInt32 :=
  UInt32.ofNat (a.toNat + 2 ^ 8 * b.toNat + 2 ^ 16 * c.toNat + 2 ^ 24 * d.toNat)

/-- `w.to_le_bytes()`. -/
def u32ToLe (w : UInt32) : List UInt8 :=
  [UInt8.ofNat w.toNat, UInt8.ofNat (w.toNat / 2 ^ 8), UInt8.ofNat (w.toNat / 2 ^ 16),
    UInt8.ofNat (w.toNat / 2 ^ 24)]

/-- `u32::from_be_bytes([a, b, c, d])`. -/
def u32OfBe (a b c d : UInt8) : UInt32 := u32OfLe d c b a

/-- `w.to_be_bytes()`. -/
def u32ToBe (w : UInt32) : List UInt8 := (u32ToLe w).reverse

@[simp] theorem length_u16ToLe (w : UInt16) : (u16ToLe w).length = 2 := rfl
@[simp] theorem length_u16ToBe (w : UInt16) : (u16ToBe w).length = 2 := rfl
@[simp] theorem length_u32ToLe (w : UInt32) : (u32ToLe w).length = 4 := rfl
@[simp] theorem length_u32ToBe (w : UInt32) : (u32ToBe w).length = 4 := rfl

theorem u16OfLe_toLe (w : UInt16) :
    u16OfLe (UInt8.ofNat w.toNat) (UInt8.ofNat (w.toNat / 2 ^ 8)) = w := by
  have hw := w.toNat_lt
  apply UInt16.toNat_inj.mp
  simp [u16OfLe, UInt16.toNat_ofNat', UInt8.toNat_ofNat']
  omega

theorem u16ToLe_ofLe (a b : UInt8) : u16ToLe (u16OfLe a b) = [a, b] := by
  have ha := a.toNat_lt
  have hb := b.toNat_lt
  simp only [u16ToLe, u16OfLe, List.cons.injEq, and_true, ← UInt8.toNat_inj, UInt8.toNat_ofNat',
    UInt16.toNat_ofNat']
  omega

theorem u16ToBe_ofBe (a b : UInt8) : u16ToBe (u16OfBe a b) = [a, b] := by
  rw [u16ToBe, u16OfBe, u16ToLe_ofLe]
  rfl

theorem u32ToBe_ofBe (a b c d : UInt8) : u32ToBe (u32OfBe a b c d) = [a, b, c, d] := by
  have ha := a.toNat_lt
  have hb := b.toNat_lt
  have hc := c.toNat_lt
  have hd := d.toNat_lt
  simp only [u32ToBe, u32ToLe, u32OfBe, u32OfLe, List.reverse_cons, List.reverse_nil,
    List.nil_append, List.cons_append, List.cons.injEq, and_true, ← UInt8.toNat_inj,
    UInt8.toNat_ofNat', UInt32.toNat_ofNat']
  omega

theorem u32OfLe_toLe (w : UInt32) :
    u32OfLe (UInt8.ofNat w.toNat) (UInt8.ofNat (w.toNat / 2 ^ 8)) (UInt8.ofNat (w.toNat / 2 ^ 16))
      (UInt8.ofNat (w.toNat / 2 ^ 24)) = w := by
  have hw := w.toNat_lt
  apply UInt32.toNat_inj.mp
  simp [u32OfLe, UInt32.toNat_ofNat', UInt8.toNat_ofNat']
  omega

end Embedded
