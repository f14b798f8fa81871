import PaperNamePlate.Lib.Base64
import PaperNamePlate.Plate.Content

/-!
# Base64 in a `B64:` record

`b64_decode` reads its input once, with an accumulator for the group it is in. It inverts the
encoding, whatever white space stands in it, and it fails exactly on a foreign byte and on a group
of one character.
-/
namespace PaperNamePlate

open Embedded Embedded.Base64

/-! ## One character -/

/-- The bytes that `b64Loop` passes over. -/
def skipped (c : UInt8) : Bool := isAsciiWhitespace c || c == 0x3D

theorem not_skipped_of_val {c v : UInt8} (h : b64Val c = some v) : skipped c = false := by
  have hall : ∀ k < 256, (b64Val (UInt8.ofNat k)).isSome = true →
      skipped (UInt8.ofNat k) = false := by
    decide +kernel
  have hc := hall c.toNat c.toNat_lt
  rw [UInt8.ofNat_toNat] at hc
  exact hc (by simp [h])

theorem b64Val_digit {v : Nat} (h : v < 2 ^ 6) : b64Val (digit v) = some (UInt8.ofNat v) := by
  revert v
  decide +kernel

theorem digit_of_val {c v : UInt8} (h : b64Val c = some v) :
    v.toNat < 2 ^ 6 ∧ digit v.toNat = c := by
  have hall : ∀ k < 256, ∀ v ∈ b64Val (UInt8.ofNat k), v.toNat < 2 ^ 6 ∧
      digit v.toNat = UInt8.ofNat k := by
    decide +kernel
  have hc := hall c.toNat c.toNat_lt
  rw [UInt8.ofNat_toNat] at hc
  exact hc v h

theorem mem_alphabet_iff (c : UInt8) : c ∈ alphabet ↔ (b64Val c).isSome = true := by
  have hall : ∀ c ∈ alphabet, (b64Val c).isSome = true := by decide +kernel
  refine ⟨hall c, fun h => ?_⟩
  obtain ⟨v, hv⟩ := Option.isSome_iff_exists.mp h
  obtain ⟨hlt, rfl⟩ := digit_of_val hv
  exact digit_mem hlt

theorem b64Loop_skip {c : UInt8} (h : skipped c = true) (s out : List UInt8)
    (acc : UInt32) (n : Nat) :
    b64Loop (c :: s) out acc n = b64Loop s out acc n := by
  have hc : (isAsciiWhitespace c || c == 0x3D) = true := h
  simp [b64Loop, hc]

theorem b64Loop_stop {c : UInt8} (hs : skipped c = false) (hv : b64Val c = none)
    (s out : List UInt8) (acc : UInt32) (n : Nat) : b64Loop (c :: s) out acc n = none := by
  have hc : (isAsciiWhitespace c || c == 0x3D) = false := hs
  simp [b64Loop, hc, hv]

theorem b64Loop_val {c v : UInt8} (h : b64Val c = some v) (s out : List UInt8)
    (acc : UInt32) (n : Nat) :
    b64Loop (c :: s) out acc n =
      if n + 1 = 4 then
        b64Loop s (out ++ [(((acc <<< 6) ||| v.toUInt32) >>> 16).toUInt8,
          (((acc <<< 6) ||| v.toUInt32) >>> 8).toUInt8, ((acc <<< 6) ||| v.toUInt32).toUInt8]) 0 0
      else b64Loop s out ((acc <<< 6) ||| v.toUInt32) (n + 1) := by
  have hc : (isAsciiWhitespace c || c == 0x3D) = false := not_skipped_of_val h
  simp [b64Loop, hc, h]

/-- Only what is left of the input once the skipped bytes are out counts. -/
theorem b64Loop_filter (s out : List UInt8) (acc : UInt32) (n : Nat) :
    b64Loop (s.filter fun c => !skipped c) out acc n = b64Loop s out acc n := by
  induction s generalizing out acc n with
  | nil => rfl
  | cons c s ih =>
    cases hs : skipped c with
    | true =>
      rw [b64Loop_skip hs, ← ih]
      simp [hs]
    | false =>
      rw [List.filter_cons_of_pos (by simp [hs])]
      cases hv : b64Val c with
      | none => rw [b64Loop_stop hs hv, b64Loop_stop hs hv]
      | some v => simp only [b64Loop_val hv, ih]

/-! ## The groups -/

/-- A digit moves into the accumulator. -/
theorem shiftIn_ofNat {acc v : Nat} (hacc : acc < 2 ^ 18) (hv : v < 2 ^ 6) :
    (UInt32.ofNat acc <<< 6) ||| (UInt8.ofNat v).toUInt32 = UInt32.ofNat (acc * 2 ^ 6 + v) := by
  apply UInt32.toNat.inj
  have hx : acc * 2 ^ 6 + v < 2 ^ 32 := by omega
  have hshift : (UInt32.ofNat acc <<< 6).toNat = acc * 2 ^ 6 := by
    rw [UInt32.toNat_shiftLeft, UInt32.toNat_ofNat_of_lt' (by grind), Nat.shiftLeft_eq]
    exact Nat.mod_eq_of_lt (by grind)
  have hdigit : (UInt8.ofNat v).toUInt32.toNat = v := by
    rw [UInt8.toNat_toUInt32, UInt8.toNat_ofNat_of_lt' (by grind)]
  calc ((UInt32.ofNat acc <<< 6) ||| (UInt8.ofNat v).toUInt32).toNat
      = acc * 2 ^ 6 ||| v := by rw [UInt32.toNat_or, hshift, hdigit]
    _ = acc * 2 ^ 6 + v := by rw [Nat.mul_comm, ← Nat.two_pow_add_eq_or_of_lt hv]
    _ = (UInt32.ofNat (acc * 2 ^ 6 + v)).toNat := (UInt32.toNat_ofNat_of_lt' hx).symm

/-- A byte comes out of it. -/
theorem shiftOut_ofNat {x k : Nat} (hx : x < 2 ^ 24) (hk : k < 32) :
    (UInt32.ofNat x >>> UInt32.ofNat k).toUInt8 = UInt8.ofNat (x / 2 ^ k) := by
  apply UInt8.toNat.inj
  rw [UInt32.toNat_toUInt8, UInt32.toNat_shiftRight, UInt32.toNat_ofNat_of_lt' (by grind),
    UInt32.toNat_ofNat_of_lt' (by grind), UInt8.toNat_ofNat', Nat.mod_eq_of_lt hk,
    Nat.shiftRight_eq_div_pow]

/-- One character of a group that has been read to the number `acc`. -/
theorem b64Loop_digit {acc v n : Nat} (hacc : acc < 2 ^ 18) (hv : v < 2 ^ 6) (s out : List UInt8) :
    b64Loop (digit v :: s) out (UInt32.ofNat acc) n =
      if n + 1 = 4 then
        b64Loop s (out ++ [UInt8.ofNat ((acc * 2 ^ 6 + v) / 2 ^ 16),
          UInt8.ofNat ((acc * 2 ^ 6 + v) / 2 ^ 8),
          UInt8.ofNat (acc * 2 ^ 6 + v)]) 0 0
      else b64Loop s out (UInt32.ofNat (acc * 2 ^ 6 + v)) (n + 1) := by
  have hx : acc * 2 ^ 6 + v < 2 ^ 24 := by omega
  have h16 := shiftOut_ofNat hx (by decide : 16 < 32)
  have h8 := shiftOut_ofNat hx (by decide : 8 < 32)
  have h0 : (UInt32.ofNat (acc * 2 ^ 6 + v)).toUInt8 = UInt8.ofNat (acc * 2 ^ 6 + v) := by simp
  rw [b64Loop_val (b64Val_digit hv), shiftIn_ofNat hacc hv, ← h16, ← h8, ← h0]
  rfl

/-- Two characters of a group, with the number `x` in them. -/
theorem b64Loop_two {x : Nat} (hx : x < 2 ^ 12) (s out : List UInt8) :
    b64Loop (digit (x / 2 ^ 6) :: digit (x % 2 ^ 6) :: s) out 0 0 =
      b64Loop s out (UInt32.ofNat x) 2 := by
  have hfirst : x / 2 ^ 6 < 2 ^ 6 := by omega
  have hsecond : x % 2 ^ 6 < 2 ^ 6 := Nat.mod_lt _ (by decide)
  have hx' : x / 2 ^ 6 * 2 ^ 6 + x % 2 ^ 6 = x := Nat.div_add_mod' x (2 ^ 6)
  calc b64Loop (digit (x / 2 ^ 6) :: digit (x % 2 ^ 6) :: s) out (UInt32.ofNat 0) 0
      = b64Loop (digit (x % 2 ^ 6) :: s) out (UInt32.ofNat (x / 2 ^ 6)) 1 := by
        rw [b64Loop_digit (by decide) hfirst, if_neg (by decide), Nat.zero_mul, Nat.zero_add]
    _ = b64Loop s out (UInt32.ofNat x) 2 := by
        rw [b64Loop_digit (by omega) hsecond, if_neg (by decide), hx']

theorem b64Loop_three {x : Nat} (hx : x < 2 ^ 18) (s out : List UInt8) :
    b64Loop (digit (x / 2 ^ 12) :: digit (x / 2 ^ 6 % 2 ^ 6) :: digit (x % 2 ^ 6) :: s) out 0 0 =
      b64Loop s out (UInt32.ofNat x) 3 := by
  have hthird : x % 2 ^ 6 < 2 ^ 6 := Nat.mod_lt _ (by decide)
  have hx' : x / 2 ^ 6 * 2 ^ 6 + x % 2 ^ 6 = x := Nat.div_add_mod' x (2 ^ 6)
  have htwo := b64Loop_two (x := x / 2 ^ 6) (by omega) (digit (x % 2 ^ 6) :: s) out
  simp only [Nat.div_div_eq_div_mul, ← Nat.pow_add, Nat.reduceAdd] at htwo
  rw [htwo, b64Loop_digit (by omega) hthird, if_neg (by decide), hx']

/-- The fourth one writes the three bytes and starts a new group. -/
theorem b64Loop_four {x : Nat} (hx : x < 2 ^ 24) (s out : List UInt8) :
    b64Loop (digit (x / 2 ^ 18) :: digit (x / 2 ^ 12 % 2 ^ 6) :: digit (x / 2 ^ 6 % 2 ^ 6) ::
        digit (x % 2 ^ 6) :: s) out 0 0 =
      b64Loop s
        (out ++ [UInt8.ofNat (x / 2 ^ 16), UInt8.ofNat (x / 2 ^ 8), UInt8.ofNat x]) 0 0 := by
  have hfourth : x % 2 ^ 6 < 2 ^ 6 := Nat.mod_lt _ (by decide)
  have hx' : x / 2 ^ 6 * 2 ^ 6 + x % 2 ^ 6 = x := Nat.div_add_mod' x (2 ^ 6)
  have hthree := b64Loop_three (x := x / 2 ^ 6) (by omega) (digit (x % 2 ^ 6) :: s) out
  simp only [Nat.div_div_eq_div_mul, ← Nat.pow_add, Nat.reduceAdd] at hthree
  rw [hthree, b64Loop_digit (by omega) hfourth, if_pos rfl, hx']

/-! ## The whole input -/

theorem ofNat_eq_of_mod {x : Nat} {a : UInt8} (h : x % 2 ^ 8 = a.toNat) : UInt8.ofNat x = a := by
  apply UInt8.toNat.inj
  rw [UInt8.toNat_ofNat', h]

/-- One case for each length of the last group, which is written from the accumulator at the end. -/
theorem b64Loop_encode (xs out : List UInt8) :
    b64Loop (encode false xs) out 0 0 = some (out ++ xs) := by
  induction xs using encode.induct generalizing out with
  | case1 => simp [encode, b64Loop]
  | case2 a =>
    have ha := a.toNat_lt
    have hx : a.toNat * 2 ^ 4 < 2 ^ 12 := by omega
    have hfirst : UInt8.ofNat (a.toNat * 2 ^ 4 / 2 ^ 4) = a := ofNat_eq_of_mod (by omega)
    have hout := shiftOut_ofNat (x := a.toNat * 2 ^ 4) (k := 4) (by omega) (by decide)
    simp only [encode, Bool.false_eq_true, if_false, List.append_nil, b64Loop_two hx, b64Loop]
    exact congrArg (fun y => some (out ++ [y])) (hout.trans hfirst)
  | case3 a b =>
    have ha := a.toNat_lt
    have hb := b.toNat_lt
    have hx : (a.toNat * 2 ^ 8 + b.toNat) * 2 ^ 2 < 2 ^ 18 := by omega
    have hfirst : UInt8.ofNat ((a.toNat * 2 ^ 8 + b.toNat) * 2 ^ 2 / 2 ^ 10) = a :=
      ofNat_eq_of_mod (by omega)
    have hsecond : UInt8.ofNat ((a.toNat * 2 ^ 8 + b.toNat) * 2 ^ 2 / 2 ^ 2) = b :=
      ofNat_eq_of_mod (by omega)
    have hout := shiftOut_ofNat (x := (a.toNat * 2 ^ 8 + b.toNat) * 2 ^ 2) (k := 10)
        (by omega) (by decide)
    have hout' := shiftOut_ofNat (x := (a.toNat * 2 ^ 8 + b.toNat) * 2 ^ 2) (k := 2)
        (by omega) (by decide)
    simp only [encode, Bool.false_eq_true, if_false, List.append_nil, b64Loop_three hx, b64Loop]
    exact congrArg₂ (fun y z => some (out ++ [y, z])) (hout.trans hfirst) (hout'.trans hsecond)
  | case4 a b c rest ih =>
    have ha := a.toNat_lt
    have hb := b.toNat_lt
    have hc := c.toNat_lt
    have hx : a.toNat * 2 ^ 16 + b.toNat * 2 ^ 8 + c.toNat < 2 ^ 24 := by omega
    have hfirst : UInt8.ofNat ((a.toNat * 2 ^ 16 + b.toNat * 2 ^ 8 + c.toNat) / 2 ^ 16) = a :=
      ofNat_eq_of_mod (by omega)
    have hsecond : UInt8.ofNat ((a.toNat * 2 ^ 16 + b.toNat * 2 ^ 8 + c.toNat) / 2 ^ 8) = b :=
      ofNat_eq_of_mod (by omega)
    have hthird : UInt8.ofNat (a.toNat * 2 ^ 16 + b.toNat * 2 ^ 8 + c.toNat) = c :=
      ofNat_eq_of_mod (by omega)
    simp only [encode, List.cons_append, List.nil_append]
    rw [b64Loop_four hx, hfirst, hsecond, hthird, ih]
    simp

/-- What the decoder accepts, from the middle of a group on. -/
theorem b64Loop_isSome_iff (s out : List UInt8) (acc : UInt32) {n : Nat} (hn : n < 4) :
    (b64Loop s out acc n).isSome = true ↔
      (∀ c ∈ s, (b64Val c).isSome = true ∨ skipped c = true) ∧
        (n + s.countP fun c => (b64Val c).isSome) % 4 ≠ 1 := by
  induction s generalizing out acc n with
  | nil =>
    have hcases : n = 0 ∨ n = 1 ∨ n = 2 ∨ n = 3 := by omega
    rcases hcases with rfl | rfl | rfl | rfl <;> simp [b64Loop]
  | cons c s ih =>
    cases hv : b64Val c with
    | some v =>
      rw [b64Loop_val hv, List.countP_cons_of_pos (by simp [hv])]
      split
      case isTrue hfour =>
        rw [ih _ _ (by decide)]
        grind
      case isFalse hfour =>
        rw [ih _ _ (by omega)]
        grind
    | none =>
      rw [List.countP_cons_of_neg (by simp [hv])]
      cases hs : skipped c with
      | true =>
        rw [b64Loop_skip hs, ih _ _ hn]
        grind
      | false =>
        rw [b64Loop_stop hs hv]
        grind

/-- `b64_decode` inverts the encoding of every byte string, whatever white space is put into it, and
otherwise fails on every foreign byte and on a last group of one character, and only there. -/
theorem b64Decode_inverts :
    (∀ (x t : List UInt8) (pad : Bool),
      t.filter (fun c => !isAsciiWhitespace c) = encode pad x → b64Decode t = some x) ∧
    ∀ s : List UInt8, b64Decode s = none ↔
      (∃ c ∈ s, c ∉ alphabet ∧ c ≠ 0x3D ∧ isAsciiWhitespace c = false) ∨
        s.countP (fun c => decide (c ∈ alphabet)) % 4 = 1 := by
  constructor
  · intro x t pad ht
    have hskip : t.filter (fun c => !skipped c) = encode false x := by
      rw [← filter_encode pad x, ← ht, List.filter_filter]
      exact List.filter_congr fun c _ => by simp [skipped, bne, Bool.and_comm]
    rw [b64Decode, ← b64Loop_filter, hskip, b64Loop_encode, List.nil_append]
  · intro s
    have hcount : s.countP (fun c => decide (c ∈ alphabet)) = s.countP fun c => (b64Val c).isSome :=
      List.countP_congr fun c _ => by rw [decide_eq_true_iff, mem_alphabet_iff]
    have hsome := b64Loop_isSome_iff s [] 0 (by decide : 0 < 4)
    rw [hcount, ← Option.not_isSome_iff_eq_none, b64Decode, hsome]
    have hforeign : (∃ c ∈ s, c ∉ alphabet ∧ c ≠ 0x3D ∧ isAsciiWhitespace c = false) ↔
        ¬∀ c ∈ s, (b64Val c).isSome = true ∨ skipped c = true := by
      simp [mem_alphabet_iff, skipped, and_comm]
    rw [hforeign, Nat.zero_add]
    tauto

theorem b64Decode_inverts_fo :
    b64Decode [0x5A, 0x0A, 0x6D, 0x38, 0x3D, 0x20] = some [0x66, 0x6F] ∧
      b64Decode [0x5A, 0x2D] = none :=
  ⟨b64Decode_inverts.1 [0x66, 0x6F] _ true (by decide),
    (b64Decode_inverts.2 _).2 (.inl ⟨0x2D, by decide, by decide, by decide, by decide⟩)⟩

end PaperNamePlate
