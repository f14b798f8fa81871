import PaperNamePlate.Lib.Slice

/-!
# Blocks of type, length and value

The data area of a tag is a row of blocks: a NULL block is the byte 00, a terminator FE ends
the row, and every other block has a type, a length in one byte or behind FF in two, and a
value. `Walk want` is the search for the first block of one type. Every area has exactly one
outcome of it: a block, the terminator, the end of the area, or a block that the end cuts off.
-/
namespace Embedded

structure Tlv where
  type : UInt8
  value : List UInt8
  /-- The length is in the two bytes after FF. -/
  long : Bool
  fits : value.length < if long then 2 ^ 16 else 0xFF

namespace Tlv

def NULL : UInt8 := 0x00
def TERMINATOR : UInt8 := 0xFE

def lengthField (b : Tlv) : List UInt8 :=
  if b.long then 0xFF :: u16ToBe (.ofNat b.value.length) else [.ofNat b.value.length]

def bytes (b : Tlv) : List UInt8 := b.type :: b.lengthField ++ b.value

/-- Neither a NULL block nor a terminator. -/
def IsBlock (t : UInt8) : Prop := t ≠ NULL ∧ t ≠ TERMINATOR

/-- What the search for a block of type `want` passes. -/
inductive Passed (want : UInt8)
  | null
  | other (b : Tlv) (block : IsBlock b.type) (ne : b.type ≠ want)

def Passed.bytes {want : UInt8} : Passed want → List UInt8
  | .null => [NULL]
  | .other b _ _ => b.bytes

def layout {want : UInt8} (ps : List (Passed want)) : List UInt8 := ps.flatMap Passed.bytes

/-- The start of a block whose rest is missing. -/
def Cut (bs : List UInt8) : Prop :=
  ∃ b : Tlv, IsBlock b.type ∧ bs ≠ [] ∧ bs.length < b.bytes.length ∧ bs <+: b.bytes

/-- The search for the first block of type `want`, with its value. -/
inductive Walk (want : UInt8) : List UInt8 → Option (List UInt8) → Prop
  | finish : Walk want [] none
  | terminator (bs : List UInt8) : Walk want (TERMINATOR :: bs) none
  | cut {bs : List UInt8} : Cut bs → Walk want bs none
  | found (b : Tlv) (bs : List UInt8) : b.type = want → Walk want (b.bytes ++ bs) (some b.value)
  | pass (p : Passed want) {bs : List UInt8} {r : Option (List UInt8)} :
    Walk want bs r → Walk want (p.bytes ++ bs) r

theorem Walk.layout {want : UInt8} {bs : List UInt8} {r : Option (List UInt8)}
    (ps : List (Passed want)) (h : Walk want bs r) : Walk want (layout ps ++ bs) r := by
  induction ps with
  | nil => exact h
  | cons p ps ih =>
    rw [Tlv.layout, List.flatMap_cons, List.append_assoc]
    exact .pass p ih

/-! ## Headers -/

/-- The length field as it is read back. -/
inductive Header : List UInt8 → Nat → Prop
  | short (l : UInt8) : l ≠ 0xFF → Header [l] l.toNat
  | long (a b : UInt8) : Header [0xFF, a, b] (u16OfBe a b).toNat

theorem header_lengthField (b : Tlv) : Header b.lengthField b.value.length := by
  have hfits := b.fits
  unfold lengthField
  split
  · next hlong =>
    rw [if_pos hlong] at hfits
    have hlen : (u16OfBe (UInt8.ofNat ((UInt16.ofNat b.value.length).toNat / 2 ^ 8))
        (UInt8.ofNat (UInt16.ofNat b.value.length).toNat)).toNat = b.value.length := by
      rw [u16OfBe, u16OfLe_toLe, UInt16.toNat_ofNat', Nat.mod_eq_of_lt hfits]
    have hheader := Header.long (UInt8.ofNat ((UInt16.ofNat b.value.length).toNat / 2 ^ 8))
      (UInt8.ofNat (UInt16.ofNat b.value.length).toNat)
    rwa [hlen] at hheader
  · next hlong =>
    rw [if_neg hlong] at hfits
    have hlen : (UInt8.ofNat b.value.length).toNat = b.value.length := by
      rw [UInt8.toNat_ofNat', Nat.mod_eq_of_lt (by omega)]
    have hne : UInt8.ofNat b.value.length ≠ 0xFF := by
      intro heq
      rw [heq] at hlen
      exact absurd hlen.symm (Nat.ne_of_lt hfits)
    have hheader := Header.short _ hne
    rwa [hlen] at hheader

/-- Every length field and every value of its length make a block. -/
theorem exists_of_header {hs : List UInt8} {n : Nat} (h : Header hs n) (t : UInt8)
    {v : List UInt8} (hv : v.length = n) :
    ∃ b : Tlv, b.bytes = t :: hs ++ v ∧ b.type = t ∧ b.value = v := by
  cases h with
  | short l hl =>
    have hlt : l.toNat < 0xFF := by
      have := l.toNat_lt
      have hne : l.toNat ≠ 0xFF := fun heq => hl (UInt8.toNat_inj.mp heq)
      omega
    refine ⟨⟨t, v, false, by simpa [hv] using hlt⟩, ?_, rfl, rfl⟩
    simp [bytes, lengthField, hv]
  | long a b =>
    refine ⟨⟨t, v, true, by simpa [hv] using (u16OfBe a b).toNat_lt⟩, ?_, rfl, rfl⟩
    simp [bytes, lengthField, hv, u16ToBe_ofBe]

/-- An area starts with a length field, or it ends within one. -/
theorem header_cases (bs : List UInt8) :
    (∃ hs rest n, Header hs n ∧ bs = hs ++ rest) ∨
      ∃ hs n, Header hs n ∧ bs <+: hs ∧ bs.length < hs.length := by
  match bs with
  | [] => exact .inr ⟨[0x00], _, .short 0x00 (by decide), List.nil_prefix, by simp⟩
  | l :: rest =>
    by_cases hl : l = 0xFF
    · subst hl
      match rest with
      | [] => exact .inr ⟨[0xFF, 0x00, 0x00], _, .long 0x00 0x00, by simp, by simp⟩
      | [a] => exact .inr ⟨[0xFF, a, 0x00], _, .long a 0x00, by simp, by simp⟩
      | a :: b :: rest => exact .inl ⟨[0xFF, a, b], rest, _, .long a b, rfl⟩
    · exact .inl ⟨[l], rest, _, .short l hl, rfl⟩

/-- Every area has an outcome. -/
theorem exists_walk (want : UInt8) (bs : List UInt8) : ∃ r, Walk want bs r := by
  induction hn : bs.length using Nat.strongRecOn generalizing bs with
  | _ n ih =>
    match bs with
    | [] => exact ⟨none, .finish⟩
    | t :: bs =>
      rw [List.length_cons] at hn
      by_cases hnull : t = NULL
      · obtain ⟨r, hr⟩ := ih bs.length (by omega) bs rfl
        exact ⟨r, hnull ▸ .pass .null hr⟩
      by_cases hterm : t = TERMINATOR
      · exact ⟨none, hterm ▸ .terminator bs⟩
      rcases header_cases bs with ⟨hs, rest, n, hheader, rfl⟩ | ⟨hs, n, hheader, hstem, hshort⟩
      · by_cases hlen : rest.length < n
        · -- the value is cut off
          obtain ⟨b, hbytes, rfl, -⟩ := exists_of_header hheader t
            (v := rest ++ List.replicate (n - rest.length) 0) (by simp; omega)
          refine ⟨none, .cut ⟨b, ⟨hnull, hterm⟩, List.cons_ne_nil _ _, ?_, ?_⟩⟩
          · rw [hbytes]
            simp
            omega
          · exact ⟨List.replicate (n - rest.length) 0, by rw [hbytes]; simp⟩
        · obtain ⟨b, hbytes, rfl, hvalue⟩ := exists_of_header hheader t (v := rest.take n)
            (by simp; omega)
          have hsplit : b.type :: (hs ++ rest) = b.bytes ++ rest.drop n := by
            rw [hbytes, List.append_assoc, List.take_append_drop, List.cons_append]
          rw [hsplit]
          by_cases hwant : b.type = want
          · exact ⟨_, .found b _ hwant⟩
          · obtain ⟨r, hr⟩ := ih (rest.drop n).length (by simp at hn ⊢; omega) _ rfl
            exact ⟨r, .pass (.other b ⟨hnull, hterm⟩ hwant) hr⟩
      · -- the header is cut off
        obtain ⟨b, hbytes, rfl, -⟩ := exists_of_header hheader t (v := List.replicate n 0) (by simp)
        obtain ⟨more, hmore⟩ := hstem
        refine ⟨none, .cut ⟨b, ⟨hnull, hterm⟩, List.cons_ne_nil _ _, ?_, ?_⟩⟩
        · rw [hbytes]
          simp
          omega
        · exact ⟨more ++ List.replicate n 0, by rw [hbytes, ← hmore]; simp⟩

end Tlv

end Embedded
