import Mathlib.Data.List.Basic
import Mathlib.Tactic.Common

/-!
# Address spaces of bytes

The contents of a memory as a function of the address: reading a range, writing a
range, and how the two compose for the same and for disjoint ranges.
-/
namespace Embedded

def Cells : Type := Nat → UInt8

namespace Cells

def read (c : Cells) (off n : Nat) : List UInt8 := (List.range n).map fun i => c (off + i)

def write (c : Cells) (off : Nat) (bs : List UInt8) : Cells := fun a =>
  if off ≤ a then bs.getD (a - off) (c a) else c a

/-- Flash as it is after an erase. -/
def erased : Cells := fun _ => 0xFF

@[simp] theorem length_read (c : Cells) (off n : Nat) : (c.read off n).length = n := by
  simp [read]

theorem read_append (c : Cells) (off n m : Nat) :
    c.read off (n + m) = c.read off n ++ c.read (off + n) m := by
  simp [read, List.range_add, Nat.add_assoc, Function.comp_def]

theorem read_write (c : Cells) (off : Nat) (bs : List UInt8) :
    (c.write off bs).read off bs.length = bs := by
  apply List.ext_getElem (by simp)
  intro i hi hi'
  simp [read, write, List.getD_eq_getElem?_getD, hi']

theorem write_outside (c : Cells) (off : Nat) (bs : List UInt8) (a : Nat)
    (h : a < off ∨ off + bs.length ≤ a) : c.write off bs a = c a := by
  unfold write
  split
  · rw [List.getD_eq_getElem?_getD, List.getElem?_eq_none (by omega)]
    rfl
  · rfl

theorem read_write_disjoint (c : Cells) (off : Nat) (bs : List UInt8) (a n : Nat)
    (h : a + n ≤ off ∨ off + bs.length ≤ a) : (c.write off bs).read a n = c.read a n := by
  refine List.map_congr_left fun i hi => ?_
  have hi : i < n := List.mem_range.mp hi
  exact c.write_outside off bs (a + i) (by omega)

/-- Two writes in a row are one. -/
theorem write_write (c : Cells) (off : Nat) (xs ys : List UInt8) :
    (c.write off xs).write (off + xs.length) ys = c.write off (xs ++ ys) := by
  funext a
  simp only [write, List.getD_eq_getElem?_getD, List.getElem?_append]
  by_cases h : off ≤ a
  · by_cases h' : off + xs.length ≤ a
    · have hx : ¬ a - off < xs.length := by omega
      have hnone : xs[a - off]? = none := List.getElem?_eq_none (by omega)
      simp only [h, h', hx, if_true, if_false, hnone, Option.getD_none]
      congr 2
      omega
    · have hx : a - off < xs.length := by omega
      simp [h, h', hx]
  · have h' : ¬ off + xs.length ≤ a := by omega
    simp [h, h']

/-- A write over the end of an earlier one. -/
theorem write_over (c : Cells) (off : Nat) (xs : List UInt8) {ys zs : List UInt8}
    (h : zs.length = ys.length) :
    (c.write off (xs ++ ys)).write (off + xs.length) zs = c.write off (xs ++ zs) := by
  rw [← write_write, ← write_write]
  generalize c.write off xs = d
  funext a
  simp only [write, List.getD_eq_getElem?_getD]
  by_cases hin : off + xs.length ≤ a
  · by_cases hlt : a - (off + xs.length) < zs.length
    · simp only [hin, if_true, List.getElem?_eq_getElem hlt, Option.getD_some]
    · simp only [hin, if_true, List.getElem?_eq_none (Nat.le_of_not_lt hlt),
        List.getElem?_eq_none (h ▸ Nat.le_of_not_lt hlt), Option.getD_none]
  · simp only [hin, if_false]

end Cells

end Embedded
