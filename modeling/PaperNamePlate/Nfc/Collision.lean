import PaperNamePlate.Nfc.Coil

/-!
# The variables of the anticollision after a collision

The byte with the collision goes out again with a one in it, and the rest of the answer is put
behind the bits that were sent. At the end of a byte, and after a second collision, it is not.
-/
namespace PaperNamePlate

open Embedded

namespace St25r3916.Anticollision

theorem collision_counts : ∀ q < 32,
    let cd := UInt8.ofNat (16 * (2 + q / 8) + 2 * (q % 8))
    ((cd >>> 4) &&& 0x0F).toNat = 2 + q / 8 ∧ (cd >>> 1) &&& 0x07 = UInt8.ofNat (q % 8) := by decide

theorem next_counts : ∀ n ≤ 6, ∀ k < 7,
    (UInt8.ofNat (k + 1) : UInt8) ≠ 0 ∧
    (UInt8.ofNat n <<< 4) ||| UInt8.ofNat (k + 1) = UInt8.ofNat (16 * n + (k + 1)) := by decide

theorem next_bits : ∀ k < 8, ((UInt8.ofNat k : UInt8) = 7 ↔ k = 7) ∧
    (UInt8.ofNat k + 1) &&& 0x07 = UInt8.ofNat ((k + 1) % 8) := by decide

/-- The five bytes with the first answer. -/
def firstBytes (pre : List UInt8) (low : UInt8) : List UInt8 :=
  pre ++ [low] ++ List.replicate (4 - pre.length) 0

theorem splice_firstBytes {pre : List UInt8} (hpre : pre.length ≤ 3) (low : UInt8) :
    splice (List.replicate 5 0) 0 (pre ++ [low]) = firstBytes pre low := by
  have hzeros : 5 - (0 + (pre ++ [low]).length) = 4 - pre.length := by
    rw [List.length_append, List.length_singleton]
    omega
  rw [splice, List.take_zero, List.nil_append, List.drop_replicate, hzeros, firstBytes]

/-- A collision in bit `k` of an answer, after its bytes `pre`: `n` bytes and `b` bits go out next,
and the byte with the one is stored behind the `n` bytes. -/
theorem collided_eq {a : Anticollision} {sel x : UInt8} {data : List UInt8}
    (hframe : a.frame = sel :: x :: data) (hdata : data.length = 5) (hrbuf : a.rbuf.length = 5)
    (pre : List UInt8) (low : UInt8) (hpre : a.rbufOffset + pre.length ≤ 3) {k n : Nat} {b : UInt8}
    (hk : k < 8) (hn : n = 2 + (a.rbufOffset + pre.length) + if k = 7 then 1 else 0)
    (hb : b = UInt8.ofNat ((k + 1) % 8)) :
    (a.read (pre ++ [low])).collided (pre.length + 1)
        (UInt8.ofNat (16 * (2 + (a.rbufOffset + pre.length)) + 2 * k)) =
      some {
        frame :=
          (sel :: ((UInt8.ofNat n <<< 4) ||| b) :: splice data a.rbufOffset (pre ++ [low])).set n
          (low ||| (1 : UInt8) <<< UInt8.ofNat k)
        rbuf := splice a.rbuf a.rbufOffset (pre ++ [low])
        sbytes := n
        sbits := b
        rbufOffset := pre.length
        collByte := low ||| (1 : UInt8) <<< UInt8.ofNat k } := by
  generalize hm : a.rbufOffset + pre.length = m at hpre hn
  have hq : (8 * m + k) / 8 = m := by omega
  have hq' : (8 * m + k) % 8 = k := by omega
  have hcounts := collision_counts (8 * m + k) (by omega)
  rw [hq, hq'] at hcounts
  obtain ⟨hcbytes, hcbits⟩ := hcounts
  obtain ⟨hlast, hsbits⟩ := next_bits k hk
  have hlen : (pre ++ [low]).length = pre.length + 1 := by simp
  have hlow : (splice a.rbuf a.rbufOffset (pre ++ [low])).getD (a.rbufOffset + (pre.length + 1) - 1)
      0 = low := by
    have hgap : a.rbufOffset + (pre.length + 1) - 1 - a.rbufOffset = pre.length := by omega
    rw [getD_splice _ _ _ _ _ (by omega), if_pos (by omega), hgap]
    simp [List.getD_eq_getElem?_getD]
  have htaken : ((splice a.rbuf a.rbufOffset (pre ++ [low])).drop a.rbufOffset).take
      (pre.length + 1) =
      pre ++ [low] := by
    rw [drop_splice_self _ _ _ (by omega)]
    exact List.take_left' hlen
  have hsplice : ∀ v : UInt8, splice (a.frame.set 1 v) (2 + a.rbufOffset) (pre ++ [low]) =
      sel :: v :: splice data a.rbufOffset (pre ++ [low]) := by
    intro v
    have hset : a.frame.set 1 v = sel :: v :: data := by rw [hframe]; rfl
    rw [hset, Nat.add_comm 2, splice_cons, splice_cons]
  have hin :
      n < (sel :: ((UInt8.ofNat n <<< 4) ||| b) :: splice data a.rbufOffset
      (pre ++ [low])).length := by
    rw [hn, List.length_cons, List.length_cons, length_splice _ _ _ (by omega)]
    split <;> omega
  unfold collided
  dsimp only [read]
  rw [hcbytes, hcbits, hsbits, ← hb, htaken, hsplice, hlow]
  simp only [hlast, ← hn]
  rw [if_pos hin]
  rfl

/-- What is sent next: the byte with the collision is the last one. -/
theorem sending_next {a : Anticollision} {sel y : UInt8} {d : List UInt8} {m k : Nat} (hm : m ≤ 3)
    (hk : k < 8) (hsbytes : a.sbytes = 2 + m + if k = 7 then 1 else 0)
    (hsbits : a.sbits = UInt8.ofNat ((k + 1) % 8))
    (hframe : a.frame = (sel :: ((UInt8.ofNat a.sbytes <<< 4) ||| a.sbits) :: d).set a.sbytes y) :
    a.sending = sel :: UInt8.ofNat (16 * a.sbytes + (k + 1) % 8) ::
      (d.set (a.sbytes - 2) y).take (m + 1) := by
  have hnvb : ∀ n ≤ 6, ∀ j < 8,
      (UInt8.ofNat n <<< 4) ||| UInt8.ofNat j = UInt8.ofNat (16 * n + j) := by decide
  have hbits : ∀ j < 8, ((UInt8.ofNat ((j + 1) % 8) : UInt8) ≠ 0 ↔ j ≠ 7) := by decide
  have hcount : (a.sbytes + if a.sbits ≠ 0 then 1 else 0) = m + 1 + 2 := by
    rw [hsbits, hsbytes]
    simp only [hbits k hk]
    split_ifs <;> omega
  have hle : a.sbytes ≤ 6 := by rw [hsbytes]; split_ifs <;> omega
  obtain ⟨n, hn⟩ : ∃ n, a.sbytes = n + 2 := ⟨a.sbytes - 2, by omega⟩
  have hhead : (UInt8.ofNat a.sbytes <<< 4) ||| a.sbits =
      UInt8.ofNat (16 * a.sbytes + (k + 1) % 8) := by
    rw [hsbits, hnvb _ hle _ (Nat.mod_lt _ (by decide))]
  rw [sending, hcount, hframe, hhead, hn, List.set_cons_succ, List.set_cons_succ,
    List.take_succ_cons, List.take_succ_cons, Nat.add_sub_cancel]

/-- The frame after a collision has what the FIFO gave for the first byte: the bits sent before are
missing from it. -/
theorem nthBit_next {data pre : List UInt8} {low : UInt8} {m k j : Nat} (hdata : data.length = 5)
    (hm : m + pre.length ≤ 3) (hk : k < 8) (hj : j < 8)
    (hclear : bit ((pre ++ [low]).getD 0 0) j = false) (hlt : pre = [] → j < k) :
    nthBit (((splice data m (pre ++ [low])).set (m + pre.length + if k = 7 then 1 else 0)
      (low ||| (1 : UInt8) <<< UInt8.ofNat k)).take (m + pre.length + 1)) (8 * m + j) = false := by
  have hlen : (pre ++ [low]).length = pre.length + 1 := by simp
  have hfirst := getD_splice data (pre ++ [low]) m m 0 (by omega)
  rw [if_pos (by omega), Nat.sub_self] at hfirst
  have hfits : m < (splice data m (pre ++ [low])).length := by
    rw [length_splice _ _ _ (by omega)]
    omega
  generalize (if k = 7 then 1 else 0) = g
  rw [nthBit_byte _ _ hj, List.getD_eq_getElem?_getD, List.getElem?_take_of_lt (by omega),
    List.getElem?_set]
  by_cases hlast : m + pre.length + g = m
  · -- the byte with the collision is the first one
    obtain rfl : pre = [] := List.eq_nil_of_length_eq_zero (by omega)
    have hone : ¬ (k ≤ j ∧ j - k = 0) := by have := hlt rfl; omega
    rw [if_pos hlast, hlast, if_pos hfits, Option.getD_some, bit_or, bit_shiftLeft _ hk hj, bit_one]
    simp only [List.nil_append, List.getD_cons_zero] at hclear
    rw [hclear, ← Bool.decide_and, decide_eq_false hone]
    rfl
  · rw [if_neg hlast, ← List.getD_eq_getElem?_getD, hfirst, hclear]

/-- A collision in the first answer. -/
theorem collided_start (sel low : UInt8) {pre : List UInt8} {k n : Nat} {b : UInt8}
    (hpre : pre.length ≤ 3) (hk : k < 8) (hn : n = 2 + pre.length + if k = 7 then 1 else 0)
    (hb : b = UInt8.ofNat ((k + 1) % 8)) :
    ((start sel).read (pre ++ [low])).collided (pre.length + 1)
        (UInt8.ofNat (16 * (2 + pre.length) + 2 * k)) =
      some {
        frame := (sel :: ((UInt8.ofNat n <<< 4) ||| b) :: firstBytes pre low).set n
          (low ||| (1 : UInt8) <<< UInt8.ofNat k)
        rbuf := firstBytes pre low
        sbytes := n
        sbits := b
        rbufOffset := pre.length
        collByte := low ||| (1 : UInt8) <<< UInt8.ofNat k } := by
  have hstart : 0 + pre.length = pre.length := Nat.zero_add _
  have hframe : (start sel).frame = sel :: 0x20 :: List.replicate 5 0 := rfl
  have hbytes : n = 2 + ((start sel).rbufOffset + pre.length) + if k = 7 then 1 else 0 := by
    change n = 2 + (0 + pre.length) + _
    rw [hstart]
    exact hn
  have hcollided := collided_eq hframe rfl rfl pre low (show 0 + pre.length ≤ 3 by omega)
      hk hbytes hb
  change ((start sel).read (pre ++ [low])).collided (pre.length + 1)
    (UInt8.ofNat (16 * (2 + (0 + pre.length)) + 2 * k)) = _ at hcollided
  change _ =
    some (Anticollision.mk ((sel :: _ :: splice (List.replicate 5 0) 0 (pre ++ [low])).set n _)
    (splice (List.replicate 5 0) 0 (pre ++ [low])) n b pre.length _) at hcollided
  rwa [hstart, splice_firstBytes hpre] at hcollided

/-- The variables after a collision in the first answer, in its bit `k` after the bytes `pre`. -/
def afterFirst (sel : UInt8) (pre : List UInt8) (low : UInt8) (k : Nat) : Anticollision where
  frame := sel :: UInt8.ofNat (16 * (2 + pre.length) + (k + 1)) ::
    (pre ++ [low ||| (1 : UInt8) <<< UInt8.ofNat k] ++ List.replicate (4 - pre.length) 0)
  rbuf := pre ++ [low] ++ List.replicate (4 - pre.length) 0
  sbytes := 2 + pre.length
  sbits := UInt8.ofNat (k + 1)
  rbufOffset := pre.length
  collByte := low ||| (1 : UInt8) <<< UInt8.ofNat k

theorem collided_first (sel low : UInt8) {pre : List UInt8} {k : Nat} (hpre : pre.length ≤ 3)
    (hk : k < 7) :
    ((start sel).read (pre ++ [low])).collided (pre.length + 1)
      (UInt8.ofNat (16 * (2 + pre.length) + 2 * k)) =
      some (afterFirst sel pre low k) := by
  obtain ⟨-, hnvb⟩ := next_counts (2 + pre.length) (by omega) k hk
  have hbits : UInt8.ofNat (k + 1) = UInt8.ofNat ((k + 1) % 8) := by
    rw [Nat.mod_eq_of_lt (by omega)]
  have hset : (firstBytes pre low).set pre.length (low ||| (1 : UInt8) <<< UInt8.ofNat k) =
      pre ++ [low ||| (1 : UInt8) <<< UInt8.ofNat k] ++ List.replicate (4 - pre.length) 0 := by
    simp [firstBytes]
  have hbytes : 2 + pre.length = 2 + pre.length + if k = 7 then 1 else 0 := by
    rw [if_neg (by omega), Nat.add_zero]
  rw [collided_start sel low hpre (by omega) hbytes hbits, hnvb, Nat.add_comm 2, List.set_cons_succ,
    List.set_cons_succ, hset, Nat.add_comm pre.length]
  rfl

/-- After a collision in the last bit of a byte: the byte goes out with a zero there, the one is put
behind the bytes that go out, and the offset stays on the byte. -/
def afterEnd (sel : UInt8) (pre : List UInt8) (low : UInt8) : Anticollision where
  frame := (sel :: UInt8.ofNat (16 * (3 + pre.length)) :: firstBytes pre low).set (3 + pre.length)
    (low ||| 0x80)
  rbuf := firstBytes pre low
  sbytes := 3 + pre.length
  sbits := 0
  rbufOffset := pre.length
  collByte := low ||| 0x80

theorem collided_end (sel low : UInt8) {pre : List UInt8} (hpre : pre.length ≤ 3) :
    ((start sel).read (pre ++ [low])).collided (pre.length + 1)
      (UInt8.ofNat (16 * (2 + pre.length) + 2 * 7)) =
      some (afterEnd sel pre low) := by
  have hnvb : ∀ n ≤ 6, (UInt8.ofNat n <<< 4 ||| 0 : UInt8) = UInt8.ofNat (16 * n) := by decide
  have hbytes : 3 + pre.length = 2 + pre.length + if 7 = 7 then 1 else 0 := by
    rw [if_pos rfl]
    omega
  rw [collided_start sel low hpre (by decide) hbytes (show (0 : UInt8) =
    UInt8.ofNat ((7 + 1) % 8) from rfl), hnvb _ (by omega)]
  rfl

theorem sending_afterEnd (sel low : UInt8) {pre : List UInt8} :
    (afterEnd sel pre low).sending = sel :: UInt8.ofNat (16 * (3 + pre.length)) ::
      (pre ++ [low]) := by
  have hbits : ¬ (afterEnd sel pre low).sbits ≠ 0 := not_not.mpr rfl
  have htaken : (firstBytes pre low).take (pre.length + 1) = pre ++ [low] :=
    List.take_left' (by simp)
  have hcount : 3 + pre.length = pre.length + 1 + 2 := by omega
  rw [sending, if_neg hbits, Nat.add_zero]
  change (List.set _ (3 + pre.length) _).take (3 + pre.length) = _
  rw [List.take_set_of_le (Nat.le_refl _), hcount, List.take_succ_cons, List.take_succ_cons, htaken]

/-- The rest of the answer is stored from the byte with the collision on. -/
theorem joined_afterEnd (sel low : UInt8) {pre bs : List UInt8} (hbs : bs.length = 4 - pre.length)
    (hpre : pre.length ≤ 3) : ((afterEnd sel pre low).read bs).joined = pre ++ bs ++ [0] := by
  have hbits : ¬ ((afterEnd sel pre low).read bs).sbits ≠ 0 := not_not.mpr rfl
  have hdrop : (firstBytes pre low).drop (pre.length + bs.length) = [0] := by
    rw [firstBytes, List.append_assoc, List.drop_append, List.drop_eq_nil_of_le (by omega),
      List.nil_append, hbs]
    have hgap : pre.length + (4 - pre.length) - pre.length = 4 - pre.length - 1 + 1 := by omega
    rw [hgap, List.singleton_append, List.drop_succ_cons, List.drop_replicate]
    have hone : 4 - pre.length - (4 - pre.length - 1) = 1 := by omega
    rw [hone]
    rfl
  rw [joined, if_neg hbits]
  change splice (firstBytes pre low) pre.length bs = _
  rw [splice, hdrop, firstBytes, List.append_assoc pre, List.take_left]

section AfterFirst

variable (sel low : UInt8) {pre : List UInt8} {k : Nat}

theorem sending_afterFirst (hpre : pre.length ≤ 3) (hk : k < 7) :
    (afterFirst sel pre low k).sending = sel :: UInt8.ofNat (16 * (2 + pre.length) + (k + 1)) ::
      (pre ++ [low ||| (1 : UInt8) <<< UInt8.ofNat k]) := by
  obtain ⟨hne, -⟩ := next_counts (2 + pre.length) (by omega) k hk
  have hsbits : (afterFirst sel pre low k).sbits ≠ 0 := hne
  have hlen : (sel :: UInt8.ofNat (16 * (2 + pre.length) + (k + 1)) ::
      (pre ++ [low ||| (1 : UInt8) <<< UInt8.ofNat k])).length = 2 + pre.length + 1 := by
    simp
    omega
  rw [sending, if_pos hsbits]
  exact List.take_left' hlen

theorem joined_append (a : Anticollision) (hbits : a.sbits ≠ 0)
    (hoffset : a.rbufOffset = pre.length) {b : UInt8} {rest : List UInt8}
    (hrbuf : a.rbuf = pre ++ b :: rest) :
    a.joined = pre ++ ((b >>> a.sbits) <<< a.sbits ||| a.collByte) :: rest := by
  rw [joined, if_pos hbits, hoffset, hrbuf, modify_append_cons]

/-- Whatever the chip leaves below the bits that it received is replaced by the bits sent. -/
theorem joined_afterFirst (hpre : pre.length ≤ 3) (hk : k < 7) {high : UInt8} {rest : List UInt8}
    (hrest : rest.length = 4 - pre.length) :
    (read { afterFirst sel pre low k with rbuf := (afterFirst sel pre low k).joined }
        (high :: rest)).joined =
      pre ++ ((high >>> UInt8.ofNat (k + 1)) <<< UInt8.ofNat (k + 1) |||
        (low ||| (1 : UInt8) <<< UInt8.ofNat k)) :: rest := by
  obtain ⟨hne, -⟩ := next_counts (2 + pre.length) (by omega) k hk
  have hrbuf : (afterFirst sel pre low k).rbuf = pre ++ low :: List.replicate
      (4 - pre.length) 0 := by
    simp [afterFirst]
  have hread : splice (afterFirst sel pre low k).joined pre.length (high :: rest) =
      pre ++ high :: rest := by
    rw [joined_append _ hne rfl hrbuf, splice, List.take_left,
      List.drop_eq_nil_of_le (by simp; omega), List.append_nil]
  exact joined_append
    (read { afterFirst sel pre low k with rbuf := (afterFirst sel pre low k).joined }
    (high :: rest)) hne rfl hread

end AfterFirst

end St25r3916.Anticollision

namespace CascadeAnswer

variable {t u : CascadeAnswer} {q : Nat}

/-- The rest of the answer after a collision: the byte with the collision and the bytes after it. -/
theorem received_rest (h7 : q % 8 ≠ 7) (hq : q < 32) : u.received (q + 1) 40 4 =
    (byteOf fun i => decide (q % 8 + 1 ≤ i) && u.bit (8 * (q / 8) + i)) ::
      packed u.bit (q / 8 + 1) (4 - q / 8) := by
  have hfirst : (q + 1) / 8 = q / 8 := by omega
  have hcount : 4 + 1 - q / 8 = 1 + (4 - q / 8) := by omega
  have hrest : packed (fun i => decide (q + 1 ≤ i ∧ i < 40) && u.bit i) (q / 8 + 1) (4 - q / 8) =
      packed u.bit (q / 8 + 1) (4 - q / 8) :=
    packed_congr fun i hi hi' => by simp [show q + 1 ≤ i by omega, show i < 40 by omega]
  rw [received, hfirst, hcount, packed_add, packed_one, hrest, List.singleton_append]
  congr 1
  refine byte_ext fun i hi => ?_
  have hlast : q + 1 ≤ 8 * (q / 8) + i ∧ 8 * (q / 8) + i < 40 ↔ q % 8 + 1 ≤ i := by omega
  rw [bit_byteOf _ hi, bit_byteOf _ hi]
  simp only [hlast]

/-- The byte with the collision: the bits sent, with a one last, and the bits received. -/
theorem byte_joined (h7 : q % 8 ≠ 7) (hsame : ∀ i < q, t.bit i = u.bit i) (hone : u.bit q = true) :
    ((byteOf fun i => decide (q % 8 + 1 ≤ i) && u.bit (8 * (q / 8) + i)) >>>
      UInt8.ofNat (q % 8 + 1)) <<<
        UInt8.ofNat (q % 8 + 1) ||| (t.lowByte q ||| (1 : UInt8) <<< UInt8.ofNat (q % 8)) =
      byteOf fun i => u.bit (8 * (q / 8) + i) := by
  refine byte_ext fun i hi => ?_
  rw [bit_or, bit_or, bit_shiftLeft _ (by omega) hi, bit_shiftRight _ (by omega),
    bit_lowByte t q hi, bit_shiftLeft _ (by omega) hi, bit_one, bit_byteOf _ hi]
  rcases Nat.lt_trichotomy i (q % 8) with hlt | heq | hgt
  · have hbefore := hsame (8 * (q / 8) + i) (by omega)
    simp [show ¬ q % 8 + 1 ≤ i by omega, show 8 * (q / 8) + i < q by omega,
      show ¬ q % 8 ≤ i by omega, hbefore]
  · have hat : 8 * (q / 8) + i = q := by omega
    simp [hat, hone, show ¬ q % 8 + 1 ≤ i by omega, show q % 8 ≤ i by omega,
      show i - q % 8 = 0 by omega]
  · have hback : q % 8 + 1 + (i - (q % 8 + 1)) = i := by omega
    rw [hback, bit_byteOf _ hi]
    simp [show q % 8 + 1 ≤ i by omega, show ¬ 8 * (q / 8) + i < q by omega,
      show ¬ i - q % 8 = 0 by omega]

theorem joined_eq_bytes (sel : UInt8) (hq : q < 32) (h7 : q % 8 ≠ 7)
    (hsame : ∀ i < q, t.bit i = u.bit i) (hone : u.bit q = true) :
    let a := St25r3916.Anticollision.afterFirst sel (packed t.bit 0 (q / 8)) (t.lowByte q) (q % 8)
    (St25r3916.Anticollision.read { a with rbuf := a.joined } (u.received (q + 1) 40 4)).joined =
      u.bytes := by
  have hlen : (packed t.bit 0 (q / 8)).length = q / 8 := length_packed ..
  have hbefore : packed t.bit 0 (q / 8) = packed u.bit 0 (q / 8) :=
    packed_congr fun i _ hi => hsame i (by omega)
  have hcount : 5 = q / 8 + 1 + (4 - q / 8) := by omega
  intro a
  rw [received_rest h7 hq, St25r3916.Anticollision.joined_afterFirst sel _ (by omega) (by omega)
    (by rw [length_packed, hlen]), byte_joined h7 hsame hone, hbefore, bytes_eq_packed,
      hcount, packed_add,
    packed_add, packed_one]
  simp

/-- The answer between two collisions: the bits up to the first one are missing in its first
byte. -/
theorem received_cut {q' : Nat} (w : CascadeAnswer) (h7 : q % 8 ≠ 7) (hlater : q < q') :
    ∃ pre low, w.received (q + 1) q' (q' / 8) = pre ++ [low] ∧ pre.length = q' / 8 - q / 8 ∧
      ∀ j, 8 * (q / 8) + j ≤ q → Embedded.bit ((pre ++ [low]).getD 0 0) j = false := by
  have hbyte : (q + 1) / 8 = q / 8 := by omega
  have hcount : q' / 8 + 1 - q / 8 = q' / 8 - q / 8 + 1 := by omega
  generalize hbits : (fun i => decide (q + 1 ≤ i ∧ i < q') && w.bit i) = g
  have hcut : w.received (q + 1) q' (q' / 8) = packed g (q / 8) (q' / 8 - q / 8) ++
      [byteOf fun i => g (8 * (q / 8 + (q' / 8 - q / 8)) + i)] := by
    rw [received, hbits, hbyte, hcount, packed_add, packed_one]
  refine ⟨_, _, hcut, length_packed .., fun j hj => ?_⟩
  rw [← hcut, received, hbits, hbyte, bit_packed g (q / 8) (by omega) (by omega), ← hbits]
  simp [show ¬ q + 1 ≤ 8 * (q / 8) + j by omega]

/-- The bytes up to a collision in the last bit of a byte have a zero there. -/
theorem starts_received (h7 : q % 8 = 7) (hsame : ∀ i < q, t.bit i = u.bit i) :
    ((List.range (q + 1)).all fun i => u.bit i == nthBit (t.received 0 q (q / 8)) i) =
      !u.bit q := by
  have hbit : ∀ i ≤ q, nthBit (t.received 0 q (q / 8)) i = (decide (i < q) && t.bit i) := by
    intro i hi
    have hpacked := nthBit_packed (fun i => decide (0 ≤ i ∧ i < q) && t.bit i) (n := q / 8 + 1)
        (i := i) (by omega)
    simpa [received] using hpacked
  have hrest : (List.range q).all (fun i => u.bit i == nthBit (t.received 0 q (q / 8)) i) =
      true := by
    refine List.all_eq_true.mpr fun i hi => ?_
    have hi := List.mem_range.mp hi
    rw [hbit i (by omega), hsame i hi]
    simp [hi]
  rw [List.range_succ, List.all_append, hrest, Bool.true_and, List.all_cons, List.all_nil,
    Bool.and_true, hbit q (by omega)]
  simp

/-- The answer from the byte after the collision on. -/
theorem received_after (h7 : q % 8 = 7) (hq : q < 32) :
    u.received (q + 1) 40 4 = packed u.bit (q / 8 + 1) (4 - q / 8) := by
  have hfirst : (q + 1) / 8 = q / 8 + 1 := by omega
  have hcount : 4 + 1 - (q / 8 + 1) = 4 - q / 8 := by omega
  rw [received, hfirst, hcount]
  exact packed_congr fun i hi hi' => by simp [show q + 1 ≤ i by omega, show i < 40 by omega]

theorem starts_upTo (hsame : ∀ i < q, t.bit i = u.bit i) :
    ((List.range (q + 1)).all fun i => u.bit i == nthBit (t.upTo q) i) = u.bit q := by
  have hbit : ∀ i ≤ q, nthBit (t.upTo q) i = (decide (i < q) && t.bit i || decide (i = q)) :=
    fun i hi => nthBit_packed _ (by omega)
  have hrest : (List.range q).all (fun i => u.bit i == nthBit (t.upTo q) i) = true := by
    refine List.all_eq_true.mpr fun i hi => ?_
    have hi := List.mem_range.mp hi
    rw [hbit i (by omega), hsame i hi]
    simp [hi, show i ≠ q by omega]
  rw [List.range_succ, List.all_append, hrest, Bool.true_and, List.all_cons, List.all_nil,
    Bool.and_true, hbit q (by omega)]
  simp

end CascadeAnswer

end PaperNamePlate
