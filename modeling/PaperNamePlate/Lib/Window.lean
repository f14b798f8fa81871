import PaperNamePlate.Lib.Run

/-!
# In-order transfers with windowed acknowledgements

A sender cuts a byte string into segments and a receiver appends those that start
where its data ends, so that what it holds is always a prefix. The receiver counts
the segments it accepts and owes an acknowledgement for every `n`-th of them: a
window of `n` segments ends with one exactly if the count was zero before it.
-/
namespace Embedded

variable {α : Type*}

/-! ## Segments -/

/-- The part of `bs` of length `n` from `off` on, as far as `bs` reaches. -/
def segment (bs : List α) (off n : Nat) : List α := (bs.drop off).take n

theorem append_segment_isPrefix {bs data : List α} (h : data <+: bs) (n : Nat) :
    data ++ segment bs data.length n <+: bs := by
  obtain ⟨rest, rfl⟩ := h
  rw [segment, List.drop_left]
  exact (List.prefix_append_right_inj data).mpr (List.take_prefix n rest)

/-! ## Counting packets -/

/-- The count after one more packet, with an acknowledgement after every `n`. -/
def ackCount (n c : Nat) : Nat := if n ≤ c + 1 then 0 else c + 1

theorem ackCount_eq_mod {n c : Nat} (h : c < n) : ackCount n c = (c + 1) % n := by
  unfold ackCount
  split
  · rw [show c + 1 = n by omega, Nat.mod_self]
  · exact (Nat.mod_eq_of_lt (by omega)).symm

/-- An acknowledgement is due exactly when the count has come round. -/
theorem ack_due_iff {n c : Nat} (h : c < n) : n ≤ c + 1 ↔ (c + 1) % n = 0 := by
  constructor
  · intro hle
    rw [show c + 1 = n by omega, Nat.mod_self]
  · intro hmod
    by_contra hlt
    rw [Nat.mod_eq_of_lt (by omega)] at hmod
    omega

/-- The last packet of a full window is acknowledged exactly if no earlier one was counted. -/
theorem full_window_iff {n c : Nat} (h : c < n) : (c + n) % n = 0 ↔ c = 0 := by
  rw [Nat.add_mod_right, Nat.mod_eq_of_lt h]

end Embedded
