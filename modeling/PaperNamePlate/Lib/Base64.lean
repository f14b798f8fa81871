import Mathlib.Algebra.Group.Nat.Defs
import Mathlib.Data.List.GetD
import Mathlib.Tactic.Common

/-!
# Base64

The standard alphabet and the encoding of bytes in groups of three, with or without padding.
-/
namespace Embedded.Base64

def alphabet : List UInt8 :=
  "ABCDEFGHIJKLMNOPQRSTUVWXYZabcdefghijklmnopqrstuvwxyz0123456789+/".toList.map fun c =>
    UInt8.ofNat c.toNat

/-- The character of a 6-bit value. -/
def digit (v : Nat) : UInt8 := alphabet.getD v 0

/-- Four characters a group: a last group of one or two bytes has two or three, and is filled up
with `=` if `pad` is set. -/
def encode (pad : Bool) : List UInt8 → List UInt8
  | [] => []
  | [a] =>
    let n := a.toNat * 2 ^ 4
    [digit (n / 2 ^ 6), digit (n % 2 ^ 6)] ++ if pad then [0x3D, 0x3D] else []
  | [a, b] =>
    let n := (a.toNat * 2 ^ 8 + b.toNat) * 2 ^ 2
    [digit (n / 2 ^ 12), digit (n / 2 ^ 6 % 2 ^ 6), digit (n % 2 ^ 6)] ++ if pad then [0x3D] else []
  | a :: b :: c :: rest =>
    let n := a.toNat * 2 ^ 16 + b.toNat * 2 ^ 8 + c.toNat
    [digit (n / 2 ^ 18), digit (n / 2 ^ 12 % 2 ^ 6), digit (n / 2 ^ 6 % 2 ^ 6),
      digit (n % 2 ^ 6)] ++
      encode pad rest

theorem digit_mem {v : Nat} (h : v < 2 ^ 6) : digit v ∈ alphabet := by
  have hlt : v < alphabet.length := h
  rw [digit, List.getD_eq_getElem _ _ hlt]
  exact List.getElem_mem hlt

theorem digit_ne_pad {v : Nat} (h : v < 2 ^ 6) : digit v ≠ 0x3D := by
  have hnot : (0x3D : UInt8) ∉ alphabet := by decide
  exact fun heq => hnot (heq ▸ digit_mem h)

theorem filter_digits (vs : List Nat) (h : ∀ v ∈ vs, v < 2 ^ 6) :
    (vs.map digit).filter (· != 0x3D) = vs.map digit := by
  apply List.filter_eq_self.mpr
  intro c hc
  obtain ⟨v, hv, rfl⟩ := List.mem_map.mp hc
  exact bne_iff_ne.mpr (digit_ne_pad (h v hv))

/-- The padding is the only difference. -/
theorem filter_encode (pad : Bool) (xs : List UInt8) :
    (encode pad xs).filter (· != 0x3D) = encode false xs := by
  fun_induction encode pad xs with
  | case1 => rfl
  | case2 a n =>
    have ha := a.toNat_lt
    have hdigits := filter_digits [n / 2 ^ 6, n % 2 ^ 6] (by grind)
    rw [List.filter_append]
    cases pad <;> exact congrArg (· ++ []) hdigits
  | case3 a b n =>
    have ha := a.toNat_lt
    have hb := b.toNat_lt
    have hdigits := filter_digits [n / 2 ^ 12, n / 2 ^ 6 % 2 ^ 6, n % 2 ^ 6] (by grind)
    rw [List.filter_append]
    cases pad <;> exact congrArg (· ++ []) hdigits
  | case4 a b c rest n ih =>
    have ha := a.toNat_lt
    have hb := b.toNat_lt
    have hc := c.toNat_lt
    have hdigits := filter_digits [n / 2 ^ 18, n / 2 ^ 12 % 2 ^ 6, n / 2 ^ 6 % 2 ^ 6,
        n % 2 ^ 6] (by grind)
    rw [List.filter_append, ih]
    exact congrArg (· ++ encode false rest) hdigits

example : encode true [0x66, 0x6F] = [0x5A, 0x6D, 0x38, 0x3D] := by decide

end Embedded.Base64
