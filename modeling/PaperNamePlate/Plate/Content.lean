import PaperNamePlate.Lib.NdefFormat
import PaperNamePlate.Lib.Text

/-!
# The name plate: content model and NDEF mapping

`MonoImage` and `PlateContent` with their codecs. A content is built into the NDEF
message that the emulated tag serves (`toNdef`), updated from a message a phone
wrote (`applyNdef`), and exchanged over BLE in a plain-text form (`toPlain`,
`applyPlain`). Text fields are scalar-value sequences; rendering is left out.
-/
namespace PaperNamePlate

open Embedded

/-! ## URI identifier codes -/

def https : Str := "https://".toList
def http : Str := "http://".toList

/-- NDEF URI identifier-code prefix table (subset). -/
def uriPrefix (code : UInt8) : Str :=
  if code = 0x01 then "http://www.".toList
  else if code = 0x02 then "https://www.".toList
  else if code = 0x03 then http
  else if code = 0x04 then https
  else if code = 0x05 then "tel:".toList
  else if code = 0x06 then "mailto:".toList
  else []

/-! ## Images -/

/-- A 1-bpp image: rows padded to whole bytes, MSB first, 1 = black. -/
structure MonoImage where
  width : UInt16
  height : UInt16
  bits : List UInt8
deriving DecidableEq, Repr

namespace MonoImage

def rowBytes (img : MonoImage) : Nat := (img.width.toNat + 7) / 8

/-- Parse `[w u16 LE][h u16 LE][rows]`; size-checked. -/
def decode (payload : List UInt8) : Option MonoImage :=
  match payload with
  | w0 :: w1 :: h0 :: h1 :: _ =>
    let width := u16OfLe w0 w1
    let height := u16OfLe h0 h1
    if width = 0 ∨ height = 0 ∨ width > 480 ∨ height > 800 then none
    else
      let need := (width.toNat + 7) / 8 * height.toNat
      (slice? payload 4 (4 + need)).map fun bits => ⟨width, height, bits⟩
  | _ => none

/-- Like `decode` but reuses the payload's allocation. -/
def decodeOwned (payload : List UInt8) : Option MonoImage :=
  match payload with
  | w0 :: w1 :: h0 :: h1 :: _ =>
    let width := u16OfLe w0 w1
    let height := u16OfLe h0 h1
    if width = 0 ∨ height = 0 ∨ width > 480 ∨ height > 800 then none
    else
      let need := (width.toNat + 7) / 8 * height.toNat
      if payload.length < 4 + need then none
      else some ⟨width, height, (payload.drop 4).take need⟩
  | _ => none

def encode (img : MonoImage) : List UInt8 := u16ToLe img.width ++ u16ToLe img.height ++ img.bits

@[simp] theorem length_encode (img : MonoImage) : img.encode.length = 4 + img.bits.length := by
  simp [encode]; omega

/-- The image fits the panel, and its bits are its rows. -/
structure Sized (img : MonoImage) : Prop where
  width_pos : 1 ≤ img.width.toNat
  width_le : img.width.toNat ≤ 480
  height_pos : 1 ≤ img.height.toNat
  height_le : img.height.toNat ≤ 800
  bits : img.bits.length = img.rowBytes * img.height.toNat

theorem Sized.length_le {img : MonoImage} (h : img.Sized) : img.bits.length ≤ 48000 := by
  have hw := h.width_le
  have hrow : img.rowBytes ≤ 60 := by unfold rowBytes; omega
  rw [h.bits]
  exact Nat.mul_le_mul hrow h.height_le

/-- What follows the rows is cut off. -/
theorem decodeOwned_encode_append {img : MonoImage} (h : img.Sized) (t : List UInt8) :
    decodeOwned (img.encode ++ t) = some img := by
  obtain ⟨hw, hw', hh, hh', hbits⟩ := h
  have hin : ¬ (img.width = 0 ∨ img.height = 0 ∨ img.width > 480 ∨ img.height > 800) := by
    rw [← UInt16.toNat_inj, ← UInt16.toNat_inj, gt_iff_lt, gt_iff_lt, UInt16.lt_iff_toNat_lt,
      UInt16.lt_iff_toNat_lt]
    simp only [UInt16.toNat_zero, UInt16.reduceToNat]
    omega
  have hlen : ¬ (img.encode ++ t).length < 4 + (img.width.toNat + 7) / 8 * img.height.toNat := by
    rw [List.length_append, length_encode, hbits, rowBytes]
    omega
  simp only [encode, u16ToLe, List.cons_append, List.nil_append] at hlen ⊢
  simp only [decodeOwned, u16OfLe_toLe, if_neg hin, if_neg hlen, List.drop_succ_cons,
    List.drop_zero]
  rw [List.take_append_of_le_length (by rw [hbits, rowBytes]),
    List.take_of_length_le (by rw [hbits, rowBytes])]

theorem decodeOwned_encode {img : MonoImage} (h : img.Sized) :
    decodeOwned img.encode = some img := by
  simpa using decodeOwned_encode_append h []

end MonoImage

/-! ## Base64 -/

/-- `u8::is_ascii_whitespace`. -/
def isAsciiWhitespace (c : UInt8) : Bool :=
  c == 0x20 || c == 0x09 || c == 0x0A || c == 0x0C || c == 0x0D

/-- The value of a character of the standard alphabet. -/
def b64Val (c : UInt8) : Option UInt8 :=
  if 0x41 ≤ c ∧ c ≤ 0x5A then some (c - 0x41)
  else if 0x61 ≤ c ∧ c ≤ 0x7A then some (c - 0x61 + 26)
  else if 0x30 ≤ c ∧ c ≤ 0x39 then some (c - 0x30 + 52)
  else if c = 0x2B then some 62
  else if c = 0x2F then some 63
  else none

/-- The loop of `b64Decode` over the rest of the input: output so far, accumulator, and the number
of characters in the current group. -/
def b64Loop : List UInt8 → List UInt8 → UInt32 → Nat → Option (List UInt8)
  | [], out, acc, n =>
    match n with
    | 0 => some out
    | 2 => some (out ++ [(acc >>> 4).toUInt8])
    | 3 => some (out ++ [(acc >>> 10).toUInt8, (acc >>> 2).toUInt8])
    | _ => none
  | c :: s, out, acc, n =>
    if isAsciiWhitespace c || c == 0x3D then b64Loop s out acc n
    else
      match b64Val c with
      | none => none
      | some v =>
        let acc := (acc <<< 6) ||| v.toUInt32
        if n + 1 = 4 then
          b64Loop s (out ++ [(acc >>> 16).toUInt8, (acc >>> 8).toUInt8, acc.toUInt8]) 0 0
        else b64Loop s out acc (n + 1)

/-- Minimal base64 (standard alphabet, '=' padding, whitespace ignored). -/
def b64Decode (s : List UInt8) : Option (List UInt8) := b64Loop s [] 0 0

/-! ## Records -/

/-- The payload length of a short or a long record at `p`, and the offset after it. -/
def payloadLenAt (msg : List UInt8) (p : Nat) (sr : Bool) : Option (Nat × Nat) :=
  if sr then (msg[p]?).map fun l => (l.toNat, usizeAdd p 1)
  else
    match slice? msg p (usizeAdd p 4) with
    | some [a, b, c, d] => some ((u32OfBe a b c d).toNat, usizeAdd p 4)
    | _ => none

/-- Parse the record at byte offset `i`; returns the record and the offset after it. -/
def recordAt (msg : List UInt8) (i : Nat) : Option (Ndef.Record × Nat) := do
  let hdr ← msg[i]?
  let tnf := hdr &&& 0x07
  let sr := hdr &&& 0x10 ≠ 0
  let il := hdr &&& 0x08 ≠ 0
  let p := usizeAdd i 1
  let typeLen ← msg[p]?
  let p := usizeAdd p 1
  let (payloadLen, p) ← payloadLenAt msg p sr
  let p ←
    if il then do
      let idl ← msg[p]?
      some (usizeAdd p (1 + idl.toNat))
    else some p
  let rtype ← slice? msg p (usizeAdd p typeLen.toNat)
  let p := usizeAdd p typeLen.toNat
  let payload ← slice? msg p (usizeAdd p payloadLen)
  some (⟨tnf, rtype, payload⟩, usizeAdd p payloadLen)

/-- The loop of `fixMeFlag`: the offset of the last header that it reaches from `i`. -/
def lastHeader (msg : List UInt8) : Nat → Nat → Option Nat → Option Nat
  | 0, _, last => last
  | n + 1, i, last =>
    if i < msg.length then
      match recordAt msg i with
      | none => some i
      | some (_, next) =>
        if next ≤ i ∨ msg.length ≤ next then some i else lastHeader msg n next (some i)
    else last

/-- Set the ME (message end) flag on the last record header of `msg`. -/
def fixMeFlag (msg : List UInt8) : List UInt8 :=
  match lastHeader msg msg.length 0 none with
  | some h => msg.modify h (· ||| 0x40)
  | none => msg

/-! ## Content -/

def MAX_TEXT_PAYLOAD : Nat := 240
def MAX_URL_LEN : Nat := 200

/-- MIME type of the plate's image record. -/
def IMAGE_MIME : List UInt8 := utf8 "image/x-plate".toList

structure PlateContent where
  name : Str := []
  email : Str := []
  github : Str := []
  x : Str := []
  note : Str := []
  url : Str := []
  image : Option MonoImage := none
deriving DecidableEq, Repr

namespace PlateContent

def demo : PlateContent where
  name := "Kenta IDA".toList
  email := "kenta@example.com".toList
  github := "ciniml".toList
  x := "ciniml".toList
  note := "Tap your phone to get the link".toList
  url := "github.com/esp-rs/esp-hal".toList

/-- The five fields of the Text record. -/
def textFields (c : PlateContent) : List Str := [c.name, c.email, c.github, c.x, c.note]

def textPayload (c : PlateContent) : List UInt8 := utf8 (join '\n' c.textFields)

/-- The NDEF message served by the emulated tag: the URI record first (phones act on the first
record), then the text, then an image that fits. -/
def toNdef (c : PlateContent) : List UInt8 :=
  let text := c.textPayload
  let nRecords := 1 + (!c.url.isEmpty).toNat
  let first := c.url.isEmpty
  let uri :=
    if c.url.isEmpty then []
    else
      [0x11 ||| 0x80 ||| (if nRecords = 1 then 0x40 else 0), 0x01,
        UInt8.ofNat ((utf8 c.url).length + 1), 0x55, 0x04] ++ utf8 c.url
  let last := c.image.isNone
  let msg := uri ++
    [0x11 ||| (if last then 0x40 else 0) ||| (if first then 0x80 else 0), 0x01,
      UInt8.ofNat (text.length + 3), 0x54, 0x02, 0x65, 0x6E] ++ text
  match c.image with
  | none => msg
  | some img =>
    -- Too big for the user area: display-only, and the text record is the last one after all.
    if 4 + img.bits.length > 700 then fixMeFlag msg
    else
      let payload := img.encode
      let msg := msg ++ [0x12 ||| 0x40, UInt8.ofNat IMAGE_MIME.length]
      let msg :=
        if payload.length < 256 then msg ++ [UInt8.ofNat payload.length]
        else
          msg.modify (msg.length - 2) (· &&& ~~~0x10) ++ u32ToBe (UInt32.ofNat payload.length)
      msg ++ IMAGE_MIME ++ payload

/-- Plain-text form: `name\nemail\ngithub\nx\nnote\nurl`. -/
def toPlain (c : PlateContent) : Str :=
  join '\n' [c.name, c.email, c.github, c.x, c.note, c.url]

/-- Update the text fields from the plain-text form; an error leaves the content as it is. -/
def applyPlain (c : PlateContent) (text : Str) : Except String PlateContent :=
  let ls := (split '\n' text).map fun l => trim (trimEndChar '\r' l)
  let name := nth ls 0
  let email := nth ls 1
  let github := trimStartChar '@' (nth ls 2)
  let x := trimStartChar '@' (nth ls 3)
  let note := nth ls 4
  let url := trimStartStr http (trimStartStr https (nth ls 5))
  if (utf8 name).length + (utf8 email).length + (utf8 github).length + (utf8 x).length +
      (utf8 note).length + 4 > MAX_TEXT_PAYLOAD then .error "text too long"
  else if (utf8 url).length > MAX_URL_LEN then .error "url too long"
  else .ok { c with name, email, github, x, note, url }

/-- Check a plain-text form without applying it. -/
def validatePlain (text : Str) : Except String Unit :=
  (applyPlain {} text).map fun _ => ()

/-- What `applyNdef` does with one record. -/
def applyRecord (c : PlateContent) (r : Ndef.Record) : PlateContent :=
  if r.tnf = 1 ∧ r.rtype = [0x54] then
    let langLen := (r.payload.headD 0 &&& 0x3F).toNat
    match sliceFrom? r.payload (1 + langLen) with
    | some text =>
      -- ';' is accepted as an alternative separator.
      let ls := lines (replaceChar ';' '\n' (lossy text))
      { c with
        name := nth ls 0
        email := nth ls 1
        github := trimStartChar '@' (nth ls 2)
        x := trimStartChar '@' (nth ls 3)
        note := nth ls 4 }
    | none => c
  else if r.tnf = 2 ∧ r.rtype = IMAGE_MIME then
    let raw :=
      if [0x42, 0x36, 0x34, 0x3A].isPrefixOf r.payload then b64Decode (r.payload.drop 4)
      else some r.payload
    match raw.bind MonoImage.decode with
    | some img => { c with image := some img }
    | none => c
  else if r.tnf = 1 ∧ r.rtype = [0x55] then
    match r.payload with
    | code :: rest =>
      { c with url := trimStartStr http (trimStartStr https (uriPrefix code ++ lossy rest)) }
    | [] => c
  else c

def applyNdefLoop (msg : List UInt8) : Nat → Nat → PlateContent → PlateContent
  | 0, _, c => c
  | n + 1, i, c =>
    match recordAt msg i with
    | none => c
    | some (r, next) =>
      if next ≤ i ∨ msg.length ≤ next then c.applyRecord r
      else applyNdefLoop msg n next (c.applyRecord r)

/-- Update the content from an NDEF message (all records scanned). -/
def applyNdef (c : PlateContent) (msg : List UInt8) : PlateContent :=
  applyNdefLoop msg msg.length 0 c

end PlateContent

end PaperNamePlate
