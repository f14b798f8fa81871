import Mathlib.Algebra.Group.Nat.Defs
import Mathlib.Data.List.Induction
import Mathlib.Data.Nat.Bitwise
import Mathlib.Data.Set.Basic
import Mathlib.Tactic.IntervalCases
import Mathlib.Tactic.Common

/-!
# Rasters

A memory of cells addressed by row and column, and a window of it that is written
in reading order: the cursor moves along a row of the window, at its end to the next
row, and from the last cell back to the first. `foldl_put` says what a run of writes
from the first cell leaves in the memory. At the end, the bits of a byte counted
from the left, as a bitmap uses them.
-/
namespace Embedded

variable {α : Type*}

/-- A window of a raster, its edges included. -/
structure Raster where
  left : Nat
  right : Nat
  top : Nat
  bottom : Nat

namespace Raster

variable (w : Raster)

def width : Nat := w.right + 1 - w.left

def height : Nat := w.bottom + 1 - w.top

def Inside (r c : Nat) : Prop := w.top ≤ r ∧ r ≤ w.bottom ∧ w.left ≤ c ∧ c ≤ w.right

instance (r c : Nat) : Decidable (w.Inside r c) := by unfold Inside; infer_instance

/-- Where the cursor goes after a write. -/
def next (p : Nat × Nat) : Nat × Nat :=
  if p.2 = w.right then (if p.1 = w.bottom then w.top else p.1 + 1, w.left) else (p.1, p.2 + 1)

/-- The cell of the `i`-th write. -/
def pos (i : Nat) : Nat × Nat := (w.top + i / w.width, w.left + i % w.width)

/-- The write that reaches a cell. -/
def index (r c : Nat) : Nat := (r - w.top) * w.width + (c - w.left)

/-- Write one cell and move on. -/
def put (s : (Nat × Nat) × (Nat → Nat → α)) (a : α) : (Nat × Nat) × (Nat → Nat → α) :=
  (w.next s.1, fun r c => if (r, c) = s.1 then a else s.2 r c)

/-- The memory with the window's first cells overwritten by `xs`. -/
def paint (xs : List α) (m : Nat → Nat → α) (r c : Nat) : α :=
  if w.Inside r c then xs.getD (w.index r c) (m r c) else m r c

variable {w}

theorem pos_zero : w.pos 0 = (w.top, w.left) := by simp [pos]

theorem width_pos {n : Nat} (h : n < w.width * w.height) : 0 < w.width :=
  Nat.pos_of_mul_pos_right (Nat.zero_lt_of_lt h)

theorem next_pos {i : Nat} (h : i + 1 < w.width * w.height) : w.next (w.pos i) = w.pos (i + 1) := by
  have hpos := width_pos h
  have hwidth : w.width = w.right + 1 - w.left := rfl
  have hheight : w.height = w.bottom + 1 - w.top := rfl
  obtain ⟨q, hq⟩ : ∃ q, i / w.width = q := ⟨_, rfl⟩
  obtain ⟨m, hm⟩ : ∃ m, i % w.width = m := ⟨_, rfl⟩
  have hi : m + w.width * q = i := by rw [← hq, ← hm, Nat.mod_add_div]
  have hmod : m < w.width := hm ▸ Nat.mod_lt i hpos
  by_cases hlast : m + 1 = w.width
  · -- the last cell of a row
    have hi' : i + 1 = w.width * (q + 1) := by rw [Nat.mul_add]; omega
    have hrow : q + 1 < w.height := Nat.lt_of_mul_lt_mul_left (hi' ▸ h)
    have hq' : (i + 1) / w.width = q + 1 := by rw [hi', Nat.mul_div_cancel_left _ hpos]
    have hm' : (i + 1) % w.width = 0 := by rw [hi', Nat.mul_mod_right]
    have hcol : w.left + m = w.right := by omega
    have hnot : w.top + q ≠ w.bottom := by omega
    simp only [next, pos, hq, hm, hq', hm', hcol, hnot, if_true, if_false]
    rfl
  · have hi' : i + 1 = m + 1 + w.width * q := by omega
    have hq' : (i + 1) / w.width = q := by
      rw [hi', Nat.add_mul_div_left _ _ hpos, Nat.div_eq_of_lt (by omega), Nat.zero_add]
    have hm' : (i + 1) % w.width = m + 1 := by
      rw [hi', Nat.add_mul_mod_self_left, Nat.mod_eq_of_lt (by omega)]
    have hcol : w.left + m ≠ w.right := by omega
    simp only [next, pos, hq, hm, hq', hm', hcol, if_false]
    rfl

/-- The cells of a window are those of its writes, each of one. -/
theorem eq_pos_iff {i r c : Nat} (h : i < w.width * w.height) :
    (r, c) = w.pos i ↔ w.Inside r c ∧ w.index r c = i := by
  have hpos := width_pos h
  have hwidth : w.width = w.right + 1 - w.left := rfl
  have hheight : w.height = w.bottom + 1 - w.top := rfl
  constructor
  · intro heq
    have hrow : i / w.width < w.height := Nat.div_lt_of_lt_mul h
    have hmod := Nat.mod_lt i hpos
    have hdiv : w.width * (i / w.width) + i % w.width = i := Nat.div_add_mod i w.width
    obtain ⟨hr, hc⟩ := Prod.mk.inj heq
    revert hrow hmod hdiv hr hc
    generalize i / w.width = q
    generalize i % w.width = m
    rintro hrow hmod hdiv rfl rfl
    refine ⟨⟨by omega, by omega, by omega, by omega⟩, ?_⟩
    rw [index, Nat.add_sub_cancel_left, Nat.add_sub_cancel_left, Nat.mul_comm, hdiv]
  · rintro ⟨⟨h1, h2, h3, h4⟩, rfl⟩
    have hc : c - w.left < w.width := by omega
    have hq : w.index r c / w.width = r - w.top := by
      rw [index, Nat.mul_comm, Nat.mul_add_div hpos, Nat.div_eq_of_lt hc, Nat.add_zero]
    have hr : w.index r c % w.width = c - w.left := by
      rw [index, Nat.mul_comm, Nat.mul_add_mod, Nat.mod_eq_of_lt hc]
    rw [pos, hq, hr, Nat.add_sub_cancel' h1, Nat.add_sub_cancel' h3]

theorem paint_append_singleton (xs : List α) (a : α) (m : Nat → Nat → α) {r c : Nat}
    (h : xs.length < w.width * w.height) :
    w.paint (xs ++ [a]) m r c = if (r, c) = w.pos xs.length then a else w.paint xs m r c := by
  unfold paint
  by_cases heq : (r, c) = w.pos xs.length
  · obtain ⟨hin, hidx⟩ := (eq_pos_iff h).mp heq
    rw [if_pos heq, if_pos hin, hidx, List.getD_eq_getElem?_getD]
    simp
  · rw [if_neg heq]
    by_cases hin : w.Inside r c
    · have hidx : w.index r c ≠ xs.length := fun hidx => heq ((eq_pos_iff h).mpr ⟨hin, hidx⟩)
      rw [if_pos hin, if_pos hin, List.getD_eq_getElem?_getD, List.getD_eq_getElem?_getD]
      rcases Nat.lt_or_gt_of_ne hidx with hlt | hgt
      · rw [List.getElem?_append_left hlt]
      · rw [List.getElem?_eq_none (by rw [List.length_append]; exact hgt),
          List.getElem?_eq_none (by omega)]
    · rw [if_neg hin, if_neg hin]

/-- A run of writes from the window's first cell paints its first cells. -/
theorem foldl_put (xs : List α) (m : Nat → Nat → α) (h : xs.length ≤ w.width * w.height) :
    (xs.foldl w.put ((w.top, w.left), m)).2 = w.paint xs m ∧
      (xs.length < w.width * w.height →
        (xs.foldl w.put ((w.top, w.left), m)).1 = w.pos xs.length) := by
  induction xs using List.reverseRecOn with
  | nil =>
    refine ⟨?_, fun _ => pos_zero.symm⟩
    funext r c
    simp [paint]
  | append_singleton xs a ih =>
    have hlt : xs.length < w.width * w.height := by
      rw [List.length_append] at h
      exact h
    obtain ⟨hmem, hcur⟩ := ih hlt.le
    rw [List.foldl_append, List.foldl_cons, List.foldl_nil, put]
    constructor
    · funext r c
      rw [paint_append_singleton xs a m hlt, hcur hlt, hmem]
    · intro hlt'
      rw [hcur hlt, List.length_append]
      exact next_pos (by simpa using hlt')

end Raster

/-! ## Overwritten cells -/

section

variable {ι σ β : Type*} {a : α} {S T : Set ι} {m m' m'' : ι → α}

/-- The cells in `S` become `a`, the other ones stay. -/
structure Overwrites (a : α) (S : Set ι) (m m' : ι → α) : Prop where
  inside : ∀ i ∈ S, m' i = a
  outside : ∀ i, i ∉ S → m' i = m i

theorem Overwrites.refl (a : α) (m : ι → α) : Overwrites a ∅ m m :=
  ⟨fun _ h => absurd h (Set.notMem_empty _), fun _ _ => rfl⟩

theorem Overwrites.trans (h : Overwrites a S m m') (h' : Overwrites a T m' m'') :
    Overwrites a (S ∪ T) m m'' := by
  constructor
  · intro i hi
    by_cases ht : i ∈ T
    · exact h'.inside i ht
    · rw [h'.outside i ht]
      exact h.inside i (hi.resolve_right ht)
  · intro i hi
    rw [Set.mem_union, not_or] at hi
    rw [h'.outside i hi.2, h.outside i hi.1]

/-- A loop overwrites what its steps overwrite. -/
theorem foldlM_overwrites {get : σ → ι → α} {P : σ → Prop} {f : σ → β → Option σ}
    {cells : β → Set ι} {xs : List β} (h : ∀ b ∈ xs, ∀ s, P s → ∃ s', f s b = some s' ∧ P s' ∧
      Overwrites a (cells b) (get s) (get s')) {s : σ} (hs : P s) :
    ∃ s', xs.foldlM f s = some s' ∧ P s' ∧
      Overwrites a {i | ∃ b ∈ xs, i ∈ cells b} (get s) (get s') := by
  induction xs generalizing s with
  | nil =>
    refine ⟨s, rfl, hs, ?_⟩
    simpa using Overwrites.refl a (get s)
  | cons b xs ih =>
    obtain ⟨t, ht, hP, hfirst⟩ := h b List.mem_cons_self s hs
    obtain ⟨s', hs', hP', hrest⟩ := ih (fun b hb => h b (List.mem_cons_of_mem _ hb)) hP
    refine ⟨s', ?_, hP', ?_⟩
    · rw [List.foldlM_cons, ht]
      exact hs'
    · convert hfirst.trans hrest using 1
      ext i
      simp

end

/-! ## Bits of a byte -/

/-- The `k`-th bit of a byte from the left. -/
def bitAt (b : UInt8) (k : Nat) : Bool := b &&& (0x80 >>> UInt8.ofNat k) ≠ 0

theorem bitAt_eq_testBit (b : UInt8) {k : Nat} (h : k < 8) :
    bitAt b k = b.toNat.testBit (7 - k) := by
  have hmask : ((0x80 : UInt8) >>> UInt8.ofNat k).toNat = 2 ^ (7 - k) := by
    interval_cases k <;> rfl
  have hand : (b &&& (0x80 >>> UInt8.ofNat k)).toNat = (b.toNat.testBit (7 - k)).toNat * 2 ^
      (7 - k) := by
    rw [UInt8.toNat_and, hmask, Nat.and_two_pow]
  have hzero : b &&& (0x80 >>> UInt8.ofNat k) = 0 ↔ b.toNat.testBit (7 - k) = false := by
    rw [← UInt8.toNat_inj, hand]
    cases b.toNat.testBit (7 - k) <;> simp
  unfold bitAt
  rw [Bool.eq_iff_iff, decide_eq_true_iff, Ne, hzero, Bool.not_eq_false]

theorem bitAt_mask {j k : Nat} (hj : j < 8) (hk : k < 8) :
    bitAt (0x80 >>> UInt8.ofNat j) k = decide (k = j) := by
  have hall : ∀ j < 8, ∀ k < 8, bitAt (0x80 >>> UInt8.ofNat j) k = decide (k = j) := by decide
  exact hall j hj k hk

theorem bitAt_and (a b : UInt8) {k : Nat} (h : k < 8) :
    bitAt (a &&& b) k = (bitAt a k && bitAt b k) := by
  simp only [bitAt_eq_testBit _ h, UInt8.toNat_and, Nat.testBit_and]

theorem bitAt_or (a b : UInt8) {k : Nat} (h : k < 8) :
    bitAt (a ||| b) k = (bitAt a k || bitAt b k) := by
  simp only [bitAt_eq_testBit _ h, UInt8.toNat_or, Nat.testBit_or]

theorem bitAt_not (a : UInt8) {k : Nat} (h : k < 8) : bitAt (~~~a) k = !bitAt a k := by
  have ha := a.toNat_lt
  have hnot : (~~~a).toNat = 2 ^ 8 - (a.toNat + 1) := by
    have hsize : UInt8.size = 2 ^ 8 := rfl
    rw [UInt8.toNat_not]
    omega
  rw [bitAt_eq_testBit _ h, bitAt_eq_testBit _ h, hnot, Nat.testBit_two_pow_sub_succ ha]
  simp only [show 7 - k < 8 by omega, decide_true, Bool.true_and]

end Embedded
