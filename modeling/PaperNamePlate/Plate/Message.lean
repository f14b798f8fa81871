import PaperNamePlate.Plate.Parsers

/-!
# The served message is well formed

`recordAt` reads back every record of the NDEF format, wherever it stands in a
message. `toNdef`, with its in-place header patch and the ME flag that
`fixMeFlag` restores, builds exactly the message of the content's records, so a
walk over it visits these records and ends at the last byte.
-/
namespace PaperNamePlate

open Embedded Embedded.Ndef

/-! ## Parsing one record -/

/-- What stands in front of a record's payload. -/
def openingOf {r : Record} (hr : r.Fits) (mb me : Bool) : Opening where
  head :=
    { flags := r.header mb me
      typeLen := UInt8.ofNat r.rtype.length
      payloadLen := UInt32.ofNat r.payload.length
      idLen := 0
      short_lt := by
        intro hshort
        have hlt := of_decide_eq_true ((r.header_flags hr.tnf mb me).2.2.2.1.mp hshort)
        rwa [UInt32.toNat_ofNat_of_lt' hr.payload]
      idLen_eq := fun _ => rfl }
  id := []
  rtype := r.rtype
  id_length := rfl
  rtype_length := (UInt8.toNat_ofNat_of_lt' hr.rtype).symm

theorem bytes_openingOf {r : Record} (hr : r.Fits) (mb me : Bool) :
    (openingOf hr mb me).bytes ++ r.payload = r.encode mb me := by
  obtain ⟨-, -, -, hsr, hil⟩ := r.header_flags hr.tnf mb me
  have hid : (openingOf hr mb me).head.idField = [] := if_neg (not_not.mpr hil)
  have hlength : (openingOf hr mb me).head.lengthField = r.lengthField := by
    change (if r.header mb me &&& 0x10 ≠ 0 then _ else _) = _
    unfold Record.lengthField
    by_cases hshort : r.isShort = true
    · rw [if_pos (hsr.mpr hshort), if_pos hshort]
      exact congrArg (fun l => [l]) (UInt32.toUInt8_ofNat' _)
    · rw [if_neg fun h => hshort (hsr.mp h), if_neg hshort]
      rfl
  rw [Opening.bytes, Head.encode, hid, hlength]
  simp [Record.encode, openingOf]

/-- The parser gives back every record of the format, wherever it stands. -/
theorem recordAt_encode (pre post : List UInt8) (r : Record) (hr : r.Fits) (mb me : Bool)
    (hlen : (pre ++ r.encode mb me ++ post).length < 2 ^ 32) :
    recordAt (pre ++ r.encode mb me ++ post) pre.length =
      some (r, pre.length + (r.encode mb me).length) := by
  have hdrop : (pre ++ r.encode mb me ++ post).drop pre.length =
      (openingOf hr mb me).bytes ++ (r.payload ++ post) := by
    rw [← List.append_assoc, bytes_openingOf, List.append_assoc, List.drop_left]
  have hpayload : (openingOf hr mb me).head.payloadLen.toNat = r.payload.length :=
    UInt32.toNat_ofNat_of_lt' hr.payload
  have htnf : (openingOf hr mb me).head.flags &&& 0x07 = r.tnf := (r.header_flags hr.tnf mb me).1
  rw [recordAt_opening (openingOf hr mb me) hpayload hlen hdrop, bytes_openingOf, htnf]
  rfl

/-! ## Walking a message -/

/-- Reading the records of `msg` one after the other from offset `i` gives exactly these headers
and records and ends at the end of the message. -/
inductive Walk (msg : List UInt8) : Nat → List (UInt8 × Record) → Prop where
  | done : Walk msg msg.length []
  | step {i next : Nat} {h : UInt8} {r : Record} {rest : List (UInt8 × Record)} :
      msg[i]? = some h → recordAt msg i = some (r, next) → i < next → Walk msg next rest →
      Walk msg i ((h, r) :: rest)

/-- A walk is determined by the message. -/
theorem Walk.unique {msg : List UInt8} {i : Nat} {ws vs : List (UInt8 × Record)}
    (hw : Walk msg i ws) (hv : Walk msg i vs) : ws = vs := by
  induction hw generalizing vs with
  | done =>
    cases hv with
    | done => rfl
    | step hget => simp at hget
  | step hget hrec _ _ ih =>
    cases hv with
    | done => simp at hget
    | step hget' hrec' _ hrest' =>
      rw [hget] at hget'
      rw [hrec] at hrec'
      cases hget'
      cases hrec'
      rw [ih hrest']

theorem walk_encodeRest (pre : List UInt8) (rs : List Record) (mb : Bool)
    (hfit : ∀ r ∈ rs, r.Fits) (hlen : (pre ++ encodeRest mb rs).length < 2 ^ 32) :
    Walk (pre ++ encodeRest mb rs) pre.length ((headers mb rs).zip rs) := by
  induction rs generalizing pre mb with
  | nil =>
    have hdone : Walk pre pre.length [] := .done
    simpa [encodeRest, headers] using hdone
  | cons r rs ih =>
    have hr : r.Fits := hfit r (by simp)
    have henc : ∀ me, 0 < (r.encode mb me).length := by simp [Record.encode]
    cases rs with
    | nil =>
      have hget : (pre ++ r.encode mb true)[pre.length]? = some (r.header mb true) := by
        simp [Record.encode]
      have hrec := recordAt_encode pre [] r hr mb true (by simpa [encodeRest] using hlen)
      rw [List.append_nil] at hrec
      have hdone : Walk (pre ++ r.encode mb true) _ [] := .done
      rw [List.length_append] at hdone
      exact .step hget hrec (by have := henc true; omega) hdone
    | cons r' rs =>
      have happ : pre ++ encodeRest mb (r :: r' :: rs) =
          (pre ++ r.encode mb false) ++ encodeRest false (r' :: rs) := by simp [encodeRest]
      rw [happ] at hlen ⊢
      have hget : (pre ++ r.encode mb false ++ encodeRest false (r' :: rs))[pre.length]? =
          some (r.header mb false) := by simp [Record.encode]
      have hrec := recordAt_encode pre (encodeRest false (r' :: rs)) r hr mb false hlen
      have hrest := ih (pre ++ r.encode mb false) false (fun q hq => hfit q (by simp_all)) hlen
      rw [List.length_append] at hrest
      exact .step hget hrec (by have := henc false; omega) hrest

/-- The flags of a message stand on its first and its last header. -/
theorem walk_encodeMessage (rs : List Record) (hfit : ∀ r ∈ rs, r.Fits)
    (hlen : (encodeMessage rs).length < 2 ^ 32) :
    Walk (encodeMessage rs) 0 ((headers true rs).zip rs) :=
  walk_encodeRest [] rs true hfit hlen

/-! ## The records of a content -/

namespace PlateContent

/-- The URL and the text fields fit the one-byte lengths of their records. -/
structure FitsShort (c : PlateContent) : Prop where
  url : (utf8 c.url).length + 1 ≤ 255
  text : c.textPayload.length + 3 ≤ 255

def uriRecord (c : PlateContent) : Record := ⟨1, [0x55], 0x04 :: utf8 c.url⟩
def textRecord (c : PlateContent) : Record := ⟨1, [0x54], [0x02, 0x65, 0x6E] ++ c.textPayload⟩
def imageRecord (img : MonoImage) : Record := ⟨2, IMAGE_MIME, img.encode⟩

/-- The image, if it is small enough for the message. -/
def carriedImage (c : PlateContent) : Option MonoImage :=
  c.image.filter fun img => 4 + img.bits.length ≤ 700

def records (c : PlateContent) : List Record :=
  (if c.url.isEmpty then [] else [c.uriRecord]) ++ [c.textRecord] ++
    c.carriedImage.toList.map imageRecord

theorem records_fits (c : PlateContent) (h : c.FitsShort) : ∀ r ∈ c.records, r.Fits := by
  obtain ⟨hurl, htext⟩ := h
  have hmime : IMAGE_MIME.length = 13 := by decide
  intro r hr
  simp only [records, List.mem_append, List.mem_cons, List.not_mem_nil, or_false,
    List.mem_map, Option.mem_toList] at hr
  rcases hr with (hr | rfl) | ⟨img, himg, rfl⟩
  · split at hr
    · cases hr
    · rw [List.mem_singleton] at hr
      subst hr
      exact ⟨(by decide : (1 : UInt8) < 8), by simp [uriRecord], by simp [uriRecord]; omega⟩
  · exact ⟨(by decide : (1 : UInt8) < 8), by simp [textRecord], by simp [textRecord]; omega⟩
  · have : 4 + img.bits.length ≤ 700 := by
      simp only [carriedImage, Option.filter_eq_some_iff] at himg
      simpa using himg.2
    exact ⟨(by decide : (2 : UInt8) < 8), by simp [imageRecord, hmime],
      by simp [imageRecord]; omega⟩

end PlateContent

/-! ## Restoring the ME flag -/

theorem lastHeader_encodeOpen (pre : List UInt8) (rs : List Record) (mb : Bool) (n : Nat)
    (last : Option Nat) (hne : rs ≠ []) (hn : rs.length ≤ n) (hfit : ∀ r ∈ rs, r.Fits)
    (hlen : (pre ++ encodeOpen mb rs).length < 2 ^ 32) :
    lastHeader (pre ++ encodeOpen mb rs) n pre.length last =
      some (pre.length + (encodeOpen mb rs.dropLast).length) := by
  induction rs generalizing pre mb n last with
  | nil => exact absurd rfl hne
  | cons r rs ih =>
    obtain ⟨n, rfl⟩ : ∃ k, n = k + 1 := ⟨n - 1, by simp at hn; omega⟩
    have hr : r.Fits := hfit r (by simp)
    have henc : 0 < (r.encode mb false).length := by simp [Record.encode]
    have happ : pre ++ encodeOpen mb (r :: rs) =
        pre ++ r.encode mb false ++ encodeOpen false rs := by
      simp [encodeOpen]
    rw [happ] at hlen ⊢
    have hrec := recordAt_encode pre (encodeOpen false rs) r hr mb false hlen
    have hlt : pre.length < (pre ++ r.encode mb false ++ encodeOpen false rs).length := by
      simp; omega
    simp only [lastHeader, hlt, if_true, hrec]
    cases rs with
    | nil => simp [encodeOpen]
    | cons r' rs =>
      have henc' : 0 < (r'.encode false false).length := by simp [Record.encode]
      have hgo : ¬ (pre.length + (r.encode mb false).length ≤ pre.length ∨
          (pre ++ r.encode mb false ++ encodeOpen false (r' :: rs)).length ≤
            pre.length + (r.encode mb false).length) := by
        simp only [encodeOpen, List.length_append]; omega
      rw [if_neg hgo]
      have := ih (pre ++ r.encode mb false) false n (some pre.length) (by simp)
        (by simpa using hn) (fun q hq => hfit q (by simp_all)) hlen
      rw [List.length_append] at this
      rw [this]
      simp [encodeOpen, Nat.add_assoc]

/-- Setting the missing ME flag turns an open message into the message of its records. -/
theorem fixMeFlag_encodeOpen (rs : List Record) (hne : rs ≠ []) (hfit : ∀ r ∈ rs, r.Fits)
    (hlen : (encodeOpen true rs).length < 2 ^ 32) :
    fixMeFlag (encodeOpen true rs) = encodeMessage rs := by
  have hfuel : ∀ (mb : Bool) (rs : List Record), rs.length ≤ (encodeOpen mb rs).length := by
    intro mb rs
    induction rs generalizing mb with
    | nil => simp
    | cons r rs ih =>
      have := ih false
      simp [encodeOpen, Record.encode]; omega
  have hlast := lastHeader_encodeOpen [] rs true _ none hne (hfuel true rs) hfit hlen
  have hmod := modify_encodeOpen [] rs true hne
  rw [List.nil_append, List.length_nil, Nat.zero_add] at hlast hmod
  rw [fixMeFlag, hlast]
  simpa [encodeMessage] using hmod

/-! ## `toNdef` -/

namespace PlateContent

theorem carriedImage_eq_none_of_large {c : PlateContent} {img : MonoImage}
    (h : c.image = some img) (hl : 4 + img.bits.length > 700) : c.carriedImage = none := by
  simp [carriedImage, h, Option.filter]; omega

theorem carriedImage_eq_some_of_small {c : PlateContent} {img : MonoImage}
    (h : c.image = some img) (hl : ¬ 4 + img.bits.length > 700) : c.carriedImage = some img := by
  simp [carriedImage, h, Option.filter]; omega

/-- The records in front of the image. -/
def textRecords (c : PlateContent) : List Record :=
  (if c.url.isEmpty then [] else [c.uriRecord]) ++ [c.textRecord]

theorem textRecords_ne_nil (c : PlateContent) : c.textRecords ≠ [] := by simp [textRecords]

/-- The bytes that `toNdef` builds before it looks at the image. -/
def textBytes (c : PlateContent) (last : Bool) : List UInt8 :=
  (if c.url.isEmpty then []
    else
      [0x11 ||| 0x80 ||| (if 1 + (!c.url.isEmpty).toNat = 1 then 0x40 else 0), 0x01,
        UInt8.ofNat ((utf8 c.url).length + 1), 0x55, 0x04] ++ utf8 c.url) ++
  [0x11 ||| (if last then 0x40 else 0) ||| (if c.url.isEmpty then 0x80 else 0), 0x01,
    UInt8.ofNat (c.textPayload.length + 3), 0x54, 0x02, 0x65, 0x6E] ++ c.textPayload

theorem uriRecord_encode (c : PlateContent) (h : c.FitsShort) :
    c.uriRecord.encode true false =
      [0x91, 0x01, UInt8.ofNat ((utf8 c.url).length + 1), 0x55, 0x04] ++ utf8 c.url := by
  have hlen : c.uriRecord.payload.length = (utf8 c.url).length + 1 := rfl
  have hs : c.uriRecord.isShort = true := decide_eq_true (by have := h.url; omega)
  have hh : Ndef.header true false true 1 = 0x91 := by decide
  simp only [Record.encode, Record.lengthField, Record.header, hs, hlen, if_true]
  simp [uriRecord, hh]

theorem textRecord_encode (c : PlateContent) (h : c.FitsShort) (mb me : Bool) :
    c.textRecord.encode mb me =
      [0x11 ||| (if me then 0x40 else 0) ||| (if mb then 0x80 else 0), 0x01,
        UInt8.ofNat (c.textPayload.length + 3), 0x54, 0x02, 0x65, 0x6E] ++ c.textPayload := by
  have hlen : c.textRecord.payload.length = c.textPayload.length + 3 := by
    simp [textRecord]
  have hs : c.textRecord.isShort = true := decide_eq_true (by have := h.text; omega)
  have hh : Ndef.header mb me true 1 =
      0x11 ||| (if me then 0x40 else 0) ||| (if mb then 0x80 else 0) := by
    revert mb me; decide
  simp only [Record.encode, Record.lengthField, Record.header, hs, hlen, if_true]
  simp [textRecord, hh]

theorem textBytes_open (c : PlateContent) (h : c.FitsShort) :
    c.textBytes false = encodeOpen true c.textRecords := by
  have hh : (0x11 : UInt8) ||| 0x80 = 0x91 := by decide
  by_cases hu : c.url.isEmpty = true
  · simp [textBytes, textRecords, encodeOpen, textRecord_encode c h, hu]
  · simp [textBytes, textRecords, encodeOpen, textRecord_encode c h, uriRecord_encode c h, hu, hh]

theorem textBytes_closed (c : PlateContent) (h : c.FitsShort) :
    c.textBytes true = encodeMessage c.textRecords := by
  have hh : (0x11 : UInt8) ||| 0x80 = 0x91 := by decide
  by_cases hu : c.url.isEmpty = true
  · simp [textBytes, textRecords, encodeMessage, encodeRest, textRecord_encode c h, hu]
  · simp [textBytes, textRecords, encodeMessage, encodeRest, textRecord_encode c h,
      uriRecord_encode c h, hu, hh]

/-- The bytes that `toNdef` appends for an image that fits; a long record has SR cleared in
place. -/
def withImage (msg : List UInt8) (img : MonoImage) : List UInt8 :=
  (if img.encode.length < 256 then
      msg ++ [0x12 ||| 0x40, UInt8.ofNat IMAGE_MIME.length] ++ [UInt8.ofNat img.encode.length]
    else
      (msg ++ [0x12 ||| 0x40, UInt8.ofNat IMAGE_MIME.length]).modify
        ((msg ++ [0x12 ||| 0x40, UInt8.ofNat IMAGE_MIME.length]).length - 2) (· &&& ~~~0x10) ++
        u32ToBe (UInt32.ofNat img.encode.length)) ++ IMAGE_MIME ++ img.encode

theorem toNdef_eq (c : PlateContent) : c.toNdef =
    match c.image with
    | none => c.textBytes true
    | some img =>
      if 4 + img.bits.length > 700 then fixMeFlag (c.textBytes false)
      else withImage (c.textBytes false) img := by
  unfold toNdef
  cases c.image <;> rfl

theorem withImage_eq (img : MonoImage) (msg : List UInt8) :
    withImage msg img = msg ++ (imageRecord img).encode false true := by
  by_cases hs : img.encode.length < 256
  · have hsh : (imageRecord img).isShort = true := by simpa [Record.isShort, imageRecord] using hs
    have hh : Ndef.header false true true 2 = 0x12 ||| 0x40 := by decide
    rw [withImage, if_pos hs]
    simp only [Record.encode, Record.lengthField, Record.header, hsh, if_true]
    simp [imageRecord, hh]
  · have hsh : (imageRecord img).isShort = false := by simpa [Record.isShort, imageRecord] using hs
    have hh : Ndef.header false true false 2 = (0x12 ||| 0x40) &&& ~~~0x10 := by decide
    have hidx : (msg ++ [0x12 ||| 0x40, UInt8.ofNat IMAGE_MIME.length]).length - 2 =
        msg.length := by
      simp
    rw [withImage, if_neg hs, hidx, modify_append_cons]
    simp only [Record.encode, Record.lengthField, Record.header, hsh, Bool.false_eq_true, if_false]
    simp [imageRecord, hh]

theorem textRecords_fits (c : PlateContent) (h : c.FitsShort) : ∀ r ∈ c.textRecords, r.Fits :=
  fun r hr => c.records_fits h r (by
    simp only [records, textRecords, List.mem_append] at hr ⊢; exact .inl hr)

theorem length_textBytes (c : PlateContent) (last : Bool) : (c.textBytes last).length =
    (if c.url.isEmpty then 0 else 5 + (utf8 c.url).length) + (7 + c.textPayload.length) := by
  unfold textBytes
  split <;> simp <;> omega

/-- The length of the served message. -/
def ndefSize (c : PlateContent) : Nat :=
  (if c.url.isEmpty then 0 else 5 + (utf8 c.url).length) + (7 + c.textPayload.length) +
    match c.carriedImage with
    | none => 0
    | some img => (if 4 + img.bits.length < 256 then 3 else 6) + 13 + (4 + img.bits.length)

theorem length_fixMeFlag (msg : List UInt8) : (fixMeFlag msg).length = msg.length := by
  unfold fixMeFlag
  split <;> simp

theorem length_toNdef (c : PlateContent) : c.toNdef.length = c.ndefSize := by
  have hmime : IMAGE_MIME.length = 13 := by decide
  rw [toNdef_eq, ndefSize]
  cases himg : c.image with
  | none => simp [length_textBytes, carriedImage, himg]
  | some img =>
    by_cases hl : 4 + img.bits.length > 700
    · simp [hl, length_fixMeFlag, length_textBytes, carriedImage_eq_none_of_large himg hl]
    · simp only [hl, if_false, carriedImage_eq_some_of_small himg hl, withImage,
        MonoImage.length_encode]
      split <;> simp only [List.length_append, List.length_modify, length_textBytes, hmime,
        length_u32ToBe, MonoImage.length_encode, List.length_cons, List.length_nil] <;> omega

theorem length_toNdef_le (c : PlateContent) (h : c.FitsShort) : c.toNdef.length ≤ 1237 := by
  have hurl := h.url
  have htext := h.text
  rw [length_toNdef, ndefSize]
  cases hc : c.carriedImage with
  | none => simp only; split <;> omega
  | some img =>
    have : 4 + img.bits.length ≤ 700 := by
      simp only [carriedImage, Option.filter_eq_some_iff] at hc
      simpa using hc.2
    simp only
    split <;> split <;> omega

/-- `toNdef` builds the NDEF message of the content's records. -/
theorem toNdef_eq_encodeMessage (c : PlateContent) (h : c.FitsShort) :
    c.toNdef = encodeMessage c.records := by
  have hrec : c.records = c.textRecords ++ c.carriedImage.toList.map imageRecord := rfl
  rw [toNdef_eq, hrec]
  cases himg : c.image with
  | none => simp [textBytes_closed c h, carriedImage, himg]
  | some img =>
    by_cases hl : 4 + img.bits.length > 700
    · have hlen : (encodeOpen true c.textRecords).length < 2 ^ 32 := by
        rw [← textBytes_open c h, length_textBytes]
        have := h.url; have := h.text
        split <;> omega
      simp only [hl, if_true, carriedImage_eq_none_of_large himg hl]
      rw [textBytes_open c h, fixMeFlag_encodeOpen _ c.textRecords_ne_nil
        (c.textRecords_fits h) hlen]
      simp
    · simp only [hl, if_false, carriedImage_eq_some_of_small himg hl]
      rw [withImage_eq, textBytes_open c h, Option.toList_some, List.map_cons, List.map_nil,
        encodeMessage, encodeRest_append _ _ c.textRecords_ne_nil]

/-- The records of a served message are those of the content, in order. -/
theorem walk_toNdef (c : PlateContent) (h : c.FitsShort) :
    Walk c.toNdef 0 ((headers true c.records).zip c.records) := by
  have hlen := c.length_toNdef_le h
  rw [toNdef_eq_encodeMessage c h] at hlen ⊢
  exact walk_encodeMessage _ (c.records_fits h) (by omega)

/-- Walking `toNdef` visits the URI record (for a non-empty URL), the Text record and the image
record (for an image that fits), in this order and nothing else; MB stands on the first header
only and ME on the last only; an image that does not fit leaves no trace. -/
theorem toNdef_wellFormed (c : PlateContent) (hurl : (utf8 c.url).length ≤ 254)
    (htext : c.textPayload.length ≤ 252) :
    (∃ hs : List UInt8, hs.length = c.records.length ∧ Walk c.toNdef 0 (hs.zip c.records) ∧
      (∀ ws, Walk c.toNdef 0 ws → ws = hs.zip c.records) ∧
      ∀ k h, hs[k]? = some h →
        (h &&& 0x80 ≠ 0 ↔ k = 0) ∧ (h &&& 0x40 ≠ 0 ↔ k + 1 = hs.length)) ∧
    ∀ img, c.image = some img → 4 + img.bits.length > 700 →
      c.toNdef = { c with image := none }.toNdef := by
  have hfit : c.FitsShort := ⟨by omega, by omega⟩
  have hwalk := c.walk_toNdef hfit
  refine ⟨⟨headers true c.records, length_headers _ _, hwalk, fun ws h => h.unique hwalk, ?_⟩, ?_⟩
  · intro k h hk
    rw [length_headers]
    simpa using headers_flags true c.records (fun r hr => (c.records_fits hfit r hr).tnf) k h hk
  · intro img himg hl
    have hfit' : { c with image := none }.FitsShort := ⟨hfit.url, hfit.text⟩
    rw [toNdef_eq_encodeMessage c hfit, toNdef_eq_encodeMessage _ hfit', records, records,
      carriedImage_eq_none_of_large himg hl]
    rfl

theorem toNdef_wellFormed_card : ∃ hs : List UInt8, hs.length = 3 ∧
    Walk { demo with image := some ⟨8, 1, [0xFF]⟩ }.toNdef 0
      (hs.zip { demo with image := some ⟨8, 1, [0xFF]⟩ }.records) := by
  obtain ⟨⟨hs, hlen, hwalk, -⟩, -⟩ :=
    toNdef_wellFormed { demo with image := some ⟨8, 1, [0xFF]⟩ } (by decide) (by decide)
  exact ⟨hs, hlen, hwalk⟩

end PlateContent

end PaperNamePlate
