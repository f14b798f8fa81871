import Mathlib.Data.List.Induction
import Mathlib.Logic.Function.Iterate
import Mathlib.Tactic.Common

/-!
# Cyclic redundancy checks

The register of a CRC of width `w` with generator `x ^ w + g`, fed most significant bit
first. A shift is linear in exclusive or, so what an error does to the register does
not depend on the data; an error burst no longer than the register is the burst
itself, shifted on. A generator with constant term 1 loses nothing on the way.
-/
namespace Embedded

variable {w : Nat}

/-- Multiply by `x`. -/
def crcShift (g s : BitVec w) : BitVec w := s <<< 1 ^^^ if s.msb then g else 0#w

/-- Take in one bit. -/
def crcFeed (g s : BitVec w) (c : Bool) : BitVec w :=
  crcShift g (s ^^^ if c then BitVec.twoPow w (w - 1) else 0#w)

/-- Bits, the first one the most significant. -/
def bitsWord (w : Nat) (bs : List Bool) : BitVec w :=
  bs.foldl (fun s c => s <<< 1 ^^^ if c then 1#w else 0#w) 0#w

variable {g : BitVec w}

/-! ## Linearity -/

theorem xor_ite_xor (a b : Bool) (m : BitVec w) :
    (if (a ^^ b) then m else 0#w) = (if a then m else 0#w) ^^^ if b then m else 0#w := by
  cases a <;> cases b <;> simp

theorem crcShift_xor (g s t : BitVec w) : crcShift g (s ^^^ t) = crcShift g s ^^^ crcShift g t := by
  simp only [crcShift, BitVec.shiftLeft_xor_distrib, BitVec.msb_xor, xor_ite_xor]
  ac_rfl

@[simp] theorem crcShift_zero (g : BitVec w) : crcShift g 0#w = 0#w := by simp [crcShift]

theorem iterate_crcShift_xor (g s t : BitVec w) (n : Nat) :
    (crcShift g)^[n] (s ^^^ t) = (crcShift g)^[n] s ^^^ (crcShift g)^[n] t := by
  induction n generalizing s t with
  | zero => rfl
  | succ n ih => rw [Function.iterate_succ_apply, crcShift_xor, ih]; rfl

@[simp] theorem iterate_crcShift_zero (g : BitVec w) (n : Nat) : (crcShift g)^[n] 0#w = 0#w := by
  induction n with
  | zero => rfl
  | succ n ih => rw [Function.iterate_succ_apply, crcShift_zero, ih]

theorem crcFeed_xor (g s t : BitVec w) (c d : Bool) :
    crcFeed g (s ^^^ t) (c ^^ d) = crcFeed g s c ^^^ crcFeed g t d := by
  rw [crcFeed, crcFeed, crcFeed, ← crcShift_xor, xor_ite_xor]
  congr 1
  ac_rfl

/-- The register of two inputs added up is the sum of their registers. -/
theorem foldl_crcFeed_xor (g : BitVec w) {cs ds : List Bool} (h : cs.length = ds.length)
    (s t : BitVec w) : (cs.zipWith xor ds).foldl (crcFeed g) (s ^^^ t) =
      cs.foldl (crcFeed g) s ^^^ ds.foldl (crcFeed g) t := by
  induction cs generalizing ds s t with
  | nil =>
    obtain rfl := List.length_eq_zero_iff.mp h.symm
    rfl
  | cons c cs ih =>
    cases ds with
    | nil => cases h
    | cons d ds =>
      rw [List.zipWith_cons_cons, List.foldl_cons, crcFeed_xor, ih (Nat.succ.inj h)]
      rfl

theorem foldl_crcFeed_zeros (g s : BitVec w) (n : Nat) :
    (List.replicate n false).foldl (crcFeed g) s = (crcShift g)^[n] s := by
  induction n generalizing s with
  | zero => rfl
  | succ n ih =>
    rw [List.replicate_succ, List.foldl_cons, ih, Function.iterate_succ_apply, crcFeed]
    simp

/-! ## Bursts -/

theorem bitsWord_append (w : Nat) (bs : List Bool) (c : Bool) :
    bitsWord w (bs ++ [c]) = bitsWord w bs <<< 1 ^^^ if c then 1#w else 0#w := by
  simp [bitsWord]

/-- Bits fill a word from below. -/
theorem getLsbD_bitsWord {bs : List Bool} {i : Nat} (h : bs.length ≤ i) :
    (bitsWord w bs).getLsbD i = false := by
  induction bs using List.reverseRecOn generalizing i with
  | nil => simp [bitsWord]
  | append_singleton bs c ih =>
    rw [List.length_append, List.length_singleton] at h
    have hrest := ih (i := i - 1) (by omega)
    have hone : (1#w).getLsbD i = false := by simp; omega
    rw [bitsWord_append, BitVec.getLsbD_xor, BitVec.getLsbD_shiftLeft, hrest]
    cases c <;> simp [hone]

theorem bitsWord_ne_zero {bs : List Bool} (h : bs.length ≤ w) (hmem : true ∈ bs) :
    bitsWord w bs ≠ 0#w := by
  induction bs using List.reverseRecOn with
  | nil => cases hmem
  | append_singleton bs c ih =>
    rw [List.length_append, List.length_singleton] at h
    intro hzero
    have hbit : ∀ i, (bitsWord w (bs ++ [c])).getLsbD i = false := by simp [hzero]
    rw [bitsWord_append] at hbit
    cases c with
    | true =>
      have h0 := hbit 0
      have hw : 0 < w := by omega
      simp [hw] at h0
    | false =>
      have hin : true ∈ bs := by simpa using hmem
      refine ih (by omega) hin (BitVec.eq_of_getLsbD_eq fun i hi => ?_)
      by_cases hlast : i + 1 < w
      · have hnext := hbit (i + 1)
        rw [BitVec.getLsbD_xor, BitVec.getLsbD_shiftLeft] at hnext
        simpa [hlast, hi] using hnext
      · rw [getLsbD_bitsWord (by omega)]
        simp

theorem crcShift_of_not_msb {s : BitVec w} (h : s.msb = false) : crcShift g s = s <<< 1 := by
  simp [crcShift, h]

theorem iterate_crcShift_one {n : Nat} (h : n < w) : (crcShift g)^[n] 1#w = BitVec.twoPow w n := by
  induction n with
  | zero => exact BitVec.twoPow_zero.symm
  | succ n ih =>
    have hmsb : (BitVec.twoPow w n).msb = false := by
      rw [BitVec.msb_eq_getLsbD_last, BitVec.getLsbD_twoPow]
      simp; omega
    rw [Function.iterate_succ_apply', ih (by omega), crcShift_of_not_msb hmsb]
    simp [BitVec.twoPow, BitVec.shiftLeft_add]

/-- Bits that fit the register, fed into an empty one. -/
theorem foldl_crcFeed_word (g : BitVec w) {bs : List Bool} (h : bs.length ≤ w) :
    bs.foldl (crcFeed g) 0#w = (crcShift g)^[w] (bitsWord w bs) := by
  induction bs using List.reverseRecOn with
  | nil => simp [bitsWord]
  | append_singleton bs c ih =>
    rw [List.length_append, List.length_singleton] at h
    have hmsb : (bitsWord w bs).msb = false := by
      rw [BitVec.msb_eq_getLsbD_last]
      exact getLsbD_bitsWord (by omega)
    have hbit : crcShift g (if c then BitVec.twoPow w (w - 1) else 0#w) =
        (crcShift g)^[w] (if c then 1#w else 0#w) := by
      cases c with
      | false => exact (crcShift_zero g).trans (iterate_crcShift_zero g w).symm
      | true =>
        have hlast := iterate_crcShift_one (g := g) (n := w - 1) (by omega)
        have hstep := Function.iterate_succ_apply' (crcShift g) (w - 1) 1#w
        rw [hlast, Nat.succ_eq_add_one, Nat.sub_add_cancel (by omega)] at hstep
        exact hstep.symm
    calc (bs ++ [c]).foldl (crcFeed g) 0#w
        = crcFeed g (bs.foldl (crcFeed g) 0#w) c := by rw [List.foldl_append]; rfl
      _ = crcShift g ((crcShift g)^[w] (bitsWord w bs)) ^^^
            (crcShift g)^[w] (if c then 1#w else 0#w) := by
          rw [ih (by omega), crcFeed, crcShift_xor, hbit]
      _ = (crcShift g)^[w] (crcShift g (bitsWord w bs)) ^^^
            (crcShift g)^[w] (if c then 1#w else 0#w) := by
          rw [← Function.iterate_succ_apply' (crcShift g), Function.iterate_succ_apply]
      _ = (crcShift g)^[w] (bitsWord w (bs ++ [c])) := by
          rw [crcShift_of_not_msb hmsb, ← iterate_crcShift_xor, bitsWord_append]

/-- What a burst leaves in the register, `n` bits after its end. -/
theorem foldl_crcFeed_burst (g : BitVec w) {bs : List Bool} (h : bs.length ≤ w) (m n : Nat) :
    (List.replicate m false ++ bs ++ List.replicate n false).foldl (crcFeed g) 0#w =
      (crcShift g)^[n + w] (bitsWord w bs) := by
  rw [List.foldl_append, List.foldl_append, foldl_crcFeed_zeros g 0#w, iterate_crcShift_zero,
    foldl_crcFeed_word g h, foldl_crcFeed_zeros, ← Function.iterate_add_apply]

/-! ## Detection -/

/-- With constant term 1, only the empty register is shifted into the empty one. -/
theorem crcShift_eq_zero (hg : g.getLsbD 0 = true) {s : BitVec w} (h : crcShift g s = 0#w) :
    s = 0#w := by
  have hbit : ∀ i, (crcShift g s).getLsbD i = false := by simp [h]
  have hmsb : s.msb = false := by
    cases hset : s.msb with
    | false => rfl
    | true =>
      have h0 := hbit 0
      simp only [crcShift, hset, if_true, BitVec.getLsbD_xor, hg] at h0
      simp at h0
  apply BitVec.eq_of_getLsbD_eq
  intro i hi
  rw [crcShift_of_not_msb hmsb] at hbit
  by_cases hlast : i + 1 < w
  · have hnext := hbit (i + 1)
    rw [BitVec.getLsbD_shiftLeft] at hnext
    simpa [hlast] using hnext
  · have hi' : w - 1 = i := by omega
    rw [BitVec.msb_eq_getLsbD_last, hi'] at hmsb
    simpa using hmsb

theorem iterate_crcShift_eq_zero (hg : g.getLsbD 0 = true) {n : Nat} {s : BitVec w}
    (h : (crcShift g)^[n] s = 0#w) : s = 0#w := by
  induction n with
  | zero => exact h
  | succ n ih =>
    rw [Function.iterate_succ_apply'] at h
    exact ih (crcShift_eq_zero hg h)

/-! ## Reflected registers -/

/-- Multiply by `x` where the coefficients stand the other way round. -/
def crcShiftRight (g s : BitVec w) : BitVec w := s >>> 1 ^^^ if s.getLsbD 0 then g else 0#w

/-- Take in one bit. -/
def crcFeedRight (g s : BitVec w) (c : Bool) : BitVec w :=
  crcShiftRight g (s ^^^ if c then 1#w else 0#w)

theorem crcShiftRight_xor (g s t : BitVec w) :
    crcShiftRight g (s ^^^ t) = crcShiftRight g s ^^^ crcShiftRight g t := by
  simp only [crcShiftRight, BitVec.ushiftRight_xor_distrib, BitVec.getLsbD_xor, xor_ite_xor]
  ac_rfl

theorem iterate_crcShiftRight_xor (g s t : BitVec w) (n : Nat) :
    (crcShiftRight g)^[n] (s ^^^ t) = (crcShiftRight g)^[n] s ^^^ (crcShiftRight g)^[n] t := by
  induction n generalizing s t with
  | zero => rfl
  | succ n ih => rw [Function.iterate_succ_apply, crcShiftRight_xor, ih]; rfl

/-- A register with empty low bits only moves. -/
theorem iterate_crcShiftRight_high {s : BitVec w} {n : Nat} (h : ∀ i < n, s.getLsbD i = false) :
    (crcShiftRight g)^[n] s = s >>> n := by
  induction n with
  | zero => rfl
  | succ n ih =>
    have hlow : (s >>> n).getLsbD 0 = false := by
      rw [BitVec.getLsbD_ushiftRight]
      exact h n (Nat.lt_succ_self n)
    rw [Function.iterate_succ_apply', ih fun i hi => h i (by omega), crcShiftRight, hlow,
      if_neg Bool.false_ne_true, BitVec.xor_zero, BitVec.shiftRight_add]

/-- `n` shifts at once: those of the low `n` bits, and the other ones moved down. -/
theorem iterate_crcShiftRight_split {s low : BitVec w} {n : Nat}
    (h : ∀ i, low.getLsbD i = (decide (i < n) && s.getLsbD i)) :
    (crcShiftRight g)^[n] s = (crcShiftRight g)^[n] low ^^^ s >>> n := by
  have hsplit : s = low ^^^ (s ^^^ low) := by
    rw [BitVec.xor_comm s, ← BitVec.xor_assoc, BitVec.xor_self, BitVec.zero_xor]
  have hhigh : ∀ i < n, (s ^^^ low).getLsbD i = false := by
    intro i hi
    simp [h, hi]
  have hgone : low >>> n = 0#w := by
    refine BitVec.eq_of_getLsbD_eq fun i _ => ?_
    have hout : ¬ n + i < n := by omega
    rw [BitVec.getLsbD_ushiftRight, h]
    simp [hout]
  calc (crcShiftRight g)^[n] s
      = (crcShiftRight g)^[n] low ^^^ (crcShiftRight g)^[n] (s ^^^ low) := by
        rw [← iterate_crcShiftRight_xor, ← hsplit]
    _ = (crcShiftRight g)^[n] low ^^^ s >>> n := by
        rw [iterate_crcShiftRight_high hhigh, BitVec.ushiftRight_xor_distrib, hgone,
          BitVec.xor_zero]

/-- Bits, the first one the least significant. -/
def lowWord (w : Nat) (cs : List Bool) : BitVec w :=
  cs.foldr (fun c s => (if c then 1#w else 0#w) ^^^ s <<< 1) 0#w

theorem getLsbD_lowWord (cs : List Bool) {i : Nat} (hi : i < w) :
    (lowWord w cs).getLsbD i = cs.getD i false := by
  induction cs generalizing i with
  | nil => simp [lowWord]
  | cons c cs ih =>
    change ((if c then 1#w else 0#w) ^^^ lowWord w cs <<< 1).getLsbD i = _
    rw [BitVec.getLsbD_xor, BitVec.getLsbD_shiftLeft]
    cases i with
    | zero => cases c <;> simp [hi]
    | succ i =>
      have hrest := ih (i := i) (by omega)
      cases c <;> simp [hi, hrest]

/-- Bits that fit the register are fed in at once. -/
theorem foldl_crcFeedRight (g : BitVec w) {cs : List Bool} (h : cs.length ≤ w) (s : BitVec w) :
    cs.foldl (crcFeedRight g) s = (crcShiftRight g)^[cs.length] (s ^^^ lowWord w cs) := by
  induction cs generalizing s with
  | nil => exact (BitVec.xor_zero).symm
  | cons c cs ih =>
    rw [List.length_cons] at h
    have hback : crcShiftRight g (lowWord w cs <<< 1) = lowWord w cs := by
      refine BitVec.eq_of_getLsbD_eq fun i hi => ?_
      have hlow : (lowWord w cs <<< 1).getLsbD 0 = false := by simp
      rw [crcShiftRight, hlow, if_neg Bool.false_ne_true, BitVec.xor_zero,
        BitVec.getLsbD_ushiftRight, BitVec.getLsbD_shiftLeft]
      by_cases hlast : 1 + i < w
      · simp [hlast]
      · have hout : cs.length ≤ i := by omega
        rw [getLsbD_lowWord cs hi]
        simp [hlast, hout]
    have hfeed : crcFeedRight g s c ^^^ lowWord w cs =
        crcShiftRight g (s ^^^ lowWord w (c :: cs)) := by
      conv_lhs => rw [← hback]
      rw [crcFeedRight, ← crcShiftRight_xor, BitVec.xor_assoc]
      rfl
    rw [List.foldl_cons, ih (by omega), hfeed]
    rfl

end Embedded
