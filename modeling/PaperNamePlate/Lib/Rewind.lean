import Mathlib.Tactic.Common
import Mathlib.Algebra.Order.Group.Nat

/-!
# Transfers with rewinds

A receiver has taken the first `taken` of `n` items, and a sender, who believes that
`off` of them were taken, sends up to `b` more in each round. A round without losses
takes the sender one full window further, or puts a sender who was behind right; so
the number of rounds left is the number of windows left, and one more for a sender
who is behind.
-/
namespace Embedded

structure Progress where
  off : Nat
  taken : Nat

namespace Progress

def roundsLeft (n b : Nat) (p : Progress) : Nat :=
  (n - p.off + (b - 1)) / b + if p.off = p.taken then 0 else 1

/-- What a round without losses does. -/
def Forward (n b : Nat) (p p' : Progress) : Prop :=
  (p'.off = min (p.off + b) n ∧ (p.off = p.taken → p'.off = p'.taken)) ∨
    (p.off < p.taken ∧ p.off ≤ p'.off ∧ p'.off = p'.taken)

theorem windows_lt {n b off : Nat} (hb : 0 < b) (h : off < n) :
    (n - min (off + b) n + (b - 1)) / b < (n - off + (b - 1)) / b := by
  rcases Nat.le_total (off + b) n with hle | hle
  · have hsplit : n - off + (b - 1) = n - (off + b) + (b - 1) + b := by omega
    rw [min_eq_left hle, hsplit, Nat.add_div_right _ hb]
    exact Nat.lt_succ_self _
  · rw [min_eq_right hle, Nat.sub_self, Nat.zero_add, Nat.div_eq_of_lt (by omega)]
    exact Nat.div_pos (by omega) hb

theorem windows_le {n b off off' : Nat} (h : off ≤ off') :
    (n - off' + (b - 1)) / b ≤ (n - off + (b - 1)) / b :=
  Nat.div_le_div_right (by omega)

theorem roundsLeft_lt {n b : Nat} {p p' : Progress} (hb : 0 < b) (hopen : p.off < n)
    (h : Forward n b p p') : roundsLeft n b p' < roundsLeft n b p := by
  unfold roundsLeft
  rcases h with ⟨hoff, heq⟩ | ⟨hbehind, hle, heq⟩
  · have hlt := windows_lt hb hopen
    rw [hoff] at heq ⊢
    split <;> split <;> grind
  · have hle' := windows_le (n := n) (b := b) hle
    rw [if_pos heq, if_neg (by omega)]
    omega

theorem off_eq_of_roundsLeft {n b : Nat} {p : Progress} (hb : 0 < b) (hoff : p.off ≤ n)
    (h : roundsLeft n b p = 0) : p.off = n := by
  unfold roundsLeft at h
  by_contra hne
  have : 0 < (n - p.off + (b - 1)) / b := Nat.div_pos (by omega) hb
  omega

/-- With windows of at least `c` items, so many rounds always do. -/
theorem roundsLeft_le {n b c : Nat} {p : Progress} (hc : 0 < c) (hcb : c ≤ b) :
    roundsLeft n b p ≤ (n + (c - 1)) / c + 1 := by
  have hwindows : (n - p.off + (b - 1)) / b ≤ (n + (c - 1)) / c := by
    have hcover : n ≤ (n + (c - 1)) / c * c := by
      have := Nat.div_add_mod (n + (c - 1)) c
      have := Nat.mod_lt (n + (c - 1)) hc
      rw [Nat.mul_comm]
      omega
    have hmul : (n + (c - 1)) / c * c ≤ (n + (c - 1)) / c * b := Nat.mul_le_mul_left _ hcb
    apply Nat.le_of_lt_succ
    rw [Nat.div_lt_iff_lt_mul (hc.trans_le hcb), Nat.succ_mul]
    omega
  unfold roundsLeft
  split <;> omega

end Progress

end Embedded
