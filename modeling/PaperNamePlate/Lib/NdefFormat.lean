import PaperNamePlate.Lib.Slice

/-!
# The NDEF message format

A record is a type name format, a type and a payload. `Record.encode` is its wire
form: a header byte, the type length, the payload length in one byte (short record)
or four (long record), the type, the payload; no record has an ID. The first
record of a message carries the flag MB and the last one ME.
-/
namespace Embedded.Ndef

structure Record where
  tnf : UInt8
  rtype : List UInt8
  payload : List UInt8
deriving DecidableEq, Repr

/-- What the length fields and the three bits of the type name format can hold. -/
structure Record.Fits (r : Record) : Prop where
  tnf : r.tnf < 8
  rtype : r.rtype.length < 2 ^ 8
  payload : r.payload.length < 2 ^ 32

def Record.isShort (r : Record) : Bool := r.payload.length < 2 ^ 8

def header (mb me sr : Bool) (tnf : UInt8) : UInt8 :=
  (if mb then 0x80 else 0) ||| (if me then 0x40 else 0) ||| (if sr then 0x10 else 0) ||| tnf

def Record.header (r : Record) (mb me : Bool) : UInt8 := Ndef.header mb me r.isShort r.tnf

def Record.lengthField (r : Record) : List UInt8 :=
  if r.isShort then [UInt8.ofNat r.payload.length] else u32ToBe (UInt32.ofNat r.payload.length)

def Record.encode (r : Record) (mb me : Bool) : List UInt8 :=
  [r.header mb me, UInt8.ofNat r.rtype.length] ++ r.lengthField ++ r.rtype ++ r.payload

/-- The records after the first one: ME on the last. -/
def encodeRest (mb : Bool) : List Record → List UInt8
  | [] => []
  | [r] => r.encode mb true
  | r :: rs => r.encode mb false ++ encodeRest false rs

def encodeMessage (rs : List Record) : List UInt8 := encodeRest true rs

/-- The header bytes of a message, in order. -/
def headers (mb : Bool) : List Record → List UInt8
  | [] => []
  | [r] => [r.header mb true]
  | r :: rs => r.header mb false :: headers false rs

theorem length_headers (mb : Bool) (rs : List Record) : (headers mb rs).length = rs.length := by
  induction rs generalizing mb with
  | nil => rfl
  | cons r rs ih =>
    cases rs with
    | nil => rfl
    | cons => simpa [headers] using ih false

theorem header_flags (mb me sr : Bool) (tnf : UInt8) (h : tnf < 8) :
    header mb me sr tnf &&& 0x07 = tnf ∧ (header mb me sr tnf &&& 0x80 ≠ 0 ↔ mb) ∧
      (header mb me sr tnf &&& 0x40 ≠ 0 ↔ me) ∧ (header mb me sr tnf &&& 0x10 ≠ 0 ↔ sr) ∧
      header mb me sr tnf &&& 0x08 = 0 := by
  have key : ∀ t : Fin 8, ∀ mb me sr : Bool,
      header mb me sr (UInt8.ofNat t) &&& 0x07 = UInt8.ofNat t ∧
      (header mb me sr (UInt8.ofNat t) &&& 0x80 ≠ 0 ↔ mb) ∧
      (header mb me sr (UInt8.ofNat t) &&& 0x40 ≠ 0 ↔ me) ∧
      (header mb me sr (UInt8.ofNat t) &&& 0x10 ≠ 0 ↔ sr) ∧
      header mb me sr (UInt8.ofNat t) &&& 0x08 = 0 := by decide
  have ht : tnf.toNat < 8 := UInt8.lt_iff_toNat_lt.mp h
  have := key ⟨tnf.toNat, ht⟩ mb me sr
  simpa using this

theorem Record.header_flags (r : Record) (h : r.tnf < 8) (mb me : Bool) :
    r.header mb me &&& 0x07 = r.tnf ∧ (r.header mb me &&& 0x80 ≠ 0 ↔ mb) ∧
      (r.header mb me &&& 0x40 ≠ 0 ↔ me) ∧ (r.header mb me &&& 0x10 ≠ 0 ↔ r.isShort) ∧
      r.header mb me &&& 0x08 = 0 :=
  Ndef.header_flags mb me r.isShort r.tnf h

/-- MB is on the first header only and ME on the last only. -/
theorem headers_flags (mb : Bool) (rs : List Record) (hfit : ∀ r ∈ rs, r.tnf < 8) (k : Nat)
    (h : UInt8) (hk : (headers mb rs)[k]? = some h) :
    (h &&& 0x80 ≠ 0 ↔ mb ∧ k = 0) ∧ (h &&& 0x40 ≠ 0 ↔ k + 1 = rs.length) := by
  induction rs generalizing mb k with
  | nil => simp [headers] at hk
  | cons r rs ih =>
    have hr : r.tnf < 8 := hfit r (by simp)
    cases rs with
    | nil =>
      have hk0 : k = 0 := by
        have := (List.getElem?_eq_some_iff.mp hk).1
        simp [headers] at this; omega
      subst hk0
      simp only [headers, List.getElem?_cons_zero, Option.some.injEq] at hk
      subst hk
      obtain ⟨-, h80, h40, -⟩ := r.header_flags hr mb true
      exact ⟨by simpa using h80, by simpa using h40⟩
    | cons r' rs =>
      cases k with
      | zero =>
        simp only [headers, List.getElem?_cons_zero, Option.some.injEq] at hk
        subst hk
        obtain ⟨-, h80, h40, -⟩ := r.header_flags hr mb false
        exact ⟨by simpa using h80, by simpa using h40⟩
      | succ k =>
        simp only [headers, List.getElem?_cons_succ] at hk
        obtain ⟨h80, h40⟩ := ih false (fun q hq => hfit q (by simp_all)) k hk
        exact ⟨by simpa using h80, by simpa using h40⟩

/-! ## Headers with an ID -/

/-- The header of a record: a short record has a payload length of one byte, and only a record
with the flag IL has an ID length. -/
structure Head where
  flags : UInt8
  typeLen : UInt8
  payloadLen : UInt32
  idLen : UInt8
  short_lt : flags &&& 0x10 ≠ 0 → payloadLen.toNat < 2 ^ 8
  idLen_eq : flags &&& 0x08 = 0 → idLen = 0

def Head.lengthField (h : Head) : List UInt8 :=
  if h.flags &&& 0x10 ≠ 0 then [h.payloadLen.toUInt8] else u32ToBe h.payloadLen

def Head.idField (h : Head) : List UInt8 := if h.flags &&& 0x08 ≠ 0 then [h.idLen] else []

def Head.encode (h : Head) : List UInt8 := [h.flags, h.typeLen] ++ h.lengthField ++ h.idField

/-! ## Messages under construction -/

/-- A message without an ME flag. -/
def encodeOpen (mb : Bool) : List Record → List UInt8
  | [] => []
  | r :: rs => r.encode mb false ++ encodeOpen false rs

theorem encodeRest_append {mb : Bool} (rs : List Record) (r : Record) (hne : rs ≠ []) :
    encodeRest mb (rs ++ [r]) = encodeOpen mb rs ++ r.encode false true := by
  induction rs generalizing mb with
  | nil => exact absurd rfl hne
  | cons q rs ih =>
    cases rs with
    | nil => simp [encodeRest, encodeOpen]
    | cons q' rs =>
      have : encodeRest false (q' :: rs ++ [r]) = _ := ih (by simp)
      simp only [List.cons_append] at this
      simp [encodeRest, encodeOpen, this]

theorem header_or_me (mb sr : Bool) (tnf : UInt8) :
    Ndef.header mb false sr tnf ||| 0x40 = Ndef.header mb true sr tnf := by
  simp only [Ndef.header, Bool.false_eq_true, if_false, if_true]
  rw [UInt8.or_zero]
  ac_rfl

theorem modify_encodeOpen (pre : List UInt8) (rs : List Record) (mb : Bool) (hne : rs ≠ []) :
    (pre ++ encodeOpen mb rs).modify (pre.length + (encodeOpen mb rs.dropLast).length)
      (· ||| 0x40) =
      pre ++ encodeRest mb rs := by
  induction rs generalizing pre mb with
  | nil => exact absurd rfl hne
  | cons r rs ih =>
    cases rs with
    | nil =>
      simp only [encodeOpen, encodeRest, List.dropLast, List.length_nil, Nat.add_zero,
        List.append_nil, Record.encode, List.cons_append, Record.header]
      rw [modify_append_cons, header_or_me]
    | cons r' rs =>
      have := ih (pre ++ r.encode mb false) false (by simp)
      simpa [encodeOpen, encodeRest, Nat.add_assoc] using this

end Embedded.Ndef
