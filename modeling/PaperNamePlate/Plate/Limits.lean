import PaperNamePlate.Lib.Lossy
import PaperNamePlate.Lib.Run
import PaperNamePlate.Plate.Restore

/-!
# The limits of the short records

`applyPlain` rejects a text that would not fit the one-byte lengths written by
`toNdef`; `applyNdef` takes over whatever the message says. The URL and the text
fields after a message are those of its last URI record and its last Text record.
Prefix codes and ill-formed sequences make a record's text longer than its payload,
stripped schemes and '@'s make it shorter: a run keeps to the limits exactly if the
bytes of these records do.
-/
namespace PaperNamePlate

open Embedded Embedded.Ndef

namespace PlateContent

/-- A change of content: a text set over BLE, or a message that the emulated tag can hold. -/
inductive Update
  | plain (text : Str)
  | ndef (msg : List UInt8) (fits : msg.length ≤ 883)

/-- A rejected text changes nothing. -/
def update (c : PlateContent) : Update → PlateContent
  | .plain text =>
    match c.applyPlain text with
    | .ok c' => c'
    | .error _ => c
  | .ndef msg _ => c.applyNdef msg

/-! ## The last record wins -/

/-- The URL that a record sets. -/
def uriOf (r : Record) : Option Str :=
  if r.tnf = 1 ∧ r.rtype = [0x55] then
    match r.payload with
    | code :: rest => some (trimStartStr http (trimStartStr https (uriPrefix code ++ lossy rest)))
    | [] => none
  else none

/-- The text fields that a record sets. -/
def fieldsOf (r : Record) : Option (List Str) :=
  if r.tnf = 1 ∧ r.rtype = [0x54] then
    (sliceFrom? r.payload (1 + (r.payload.headD 0 &&& 0x3F).toNat)).map fun text =>
      (withLines {} (lines (replaceChar ';' '\n' (lossy text)))).textFields
  else none

theorem applyRecord_url (c : PlateContent) (r : Record) :
    (c.applyRecord r).url = (uriOf r).getD c.url := by
  unfold applyRecord uriOf
  by_cases ht : r.tnf = 1 ∧ r.rtype = [0x54]
  · have hu : ¬ (r.tnf = 1 ∧ r.rtype = [0x55]) := by simp [ht.2]
    rw [if_pos ht, if_neg hu]
    dsimp only
    split <;> rfl
  · rw [if_neg ht]
    by_cases hm : r.tnf = 2 ∧ r.rtype = IMAGE_MIME
    · have hu : ¬ (r.tnf = 1 ∧ r.rtype = [0x55]) := by simp [hm.1]
      rw [if_pos hm, if_neg hu]
      dsimp only
      split <;> rfl
    · rw [if_neg hm]
      by_cases hu : r.tnf = 1 ∧ r.rtype = [0x55]
      · rw [if_pos hu, if_pos hu]
        cases r.payload <;> rfl
      · rw [if_neg hu, if_neg hu]
        rfl

theorem applyRecord_textFields (c : PlateContent) (r : Record) :
    (c.applyRecord r).textFields = (fieldsOf r).getD c.textFields := by
  unfold applyRecord fieldsOf
  by_cases ht : r.tnf = 1 ∧ r.rtype = [0x54]
  · rw [if_pos ht, if_pos ht]
    dsimp only
    cases sliceFrom? r.payload (1 + (r.payload.headD 0 &&& 0x3F).toNat) <;> rfl
  · rw [if_neg ht, if_neg ht]
    by_cases hm : r.tnf = 2 ∧ r.rtype = IMAGE_MIME
    · rw [if_pos hm]
      dsimp only
      split <;> rfl
    · rw [if_neg hm]
      by_cases hu : r.tnf = 1 ∧ r.rtype = [0x55]
      · rw [if_pos hu]
        cases r.payload <;> rfl
      · rw [if_neg hu]
        rfl

/-- The image that a record sets. -/
def imageOf (r : Record) : Option MonoImage :=
  if r.tnf = 2 ∧ r.rtype = IMAGE_MIME then
    (if [0x42, 0x36, 0x34, 0x3A].isPrefixOf r.payload then b64Decode (r.payload.drop 4)
      else some r.payload).bind MonoImage.decode
  else none

theorem applyRecord_image (c : PlateContent) (r : Record) :
    (c.applyRecord r).image = (imageOf r).or c.image := by
  unfold applyRecord imageOf
  by_cases ht : r.tnf = 1 ∧ r.rtype = [0x54]
  · have hm : ¬ (r.tnf = 2 ∧ r.rtype = IMAGE_MIME) := by simp [ht.1]
    rw [if_pos ht, if_neg hm]
    dsimp only
    split <;> rfl
  · rw [if_neg ht]
    by_cases hm : r.tnf = 2 ∧ r.rtype = IMAGE_MIME
    · rw [if_pos hm, if_pos hm]
      dsimp only
      split <;> (next heq => rw [heq]; rfl)
    · rw [if_neg hm, if_neg hm]
      split
      · cases r.payload <;> rfl
      · rfl

def lastUri (msg : List UInt8) : Option Str := ((visited msg).filterMap uriOf).getLast?

def lastFields (msg : List UInt8) : Option (List Str) := ((visited msg).filterMap fieldsOf).getLast?

theorem applyNdef_url (c : PlateContent) (msg : List UInt8) :
    (c.applyNdef msg).url = (lastUri msg).getD c.url := by
  rw [applyNdef_eq]
  exact run_last_write applyRecord_url c (visited msg)

theorem applyNdef_textFields (c : PlateContent) (msg : List UInt8) :
    (c.applyNdef msg).textFields = (lastFields msg).getD c.textFields := by
  rw [applyNdef_eq]
  exact run_last_write applyRecord_textFields c (visited msg)

/-- The image of the last image record that can be decoded. -/
def lastPicture (msg : List UInt8) : Option MonoImage := ((visited msg).filterMap imageOf).getLast?

theorem applyNdef_image (c : PlateContent) (msg : List UInt8) :
    (c.applyNdef msg).image = (lastPicture msg).or c.image := by
  rw [applyNdef_eq]
  exact run_last_some applyRecord_image c (visited msg)

/-! ## The bytes of a record -/

/-- What a URI record says: its prefix code and the bytes behind it. -/
def uriParts (r : Record) : Option (UInt8 × List UInt8) :=
  if r.tnf = 1 ∧ r.rtype = [0x55] then
    match r.payload with
    | code :: rest => some (code, rest)
    | [] => none
  else none

/-- The bytes behind the language code of a Text record. -/
def textPart (r : Record) : Option (List UInt8) :=
  if r.tnf = 1 ∧ r.rtype = [0x54] then
    sliceFrom? r.payload (1 + (r.payload.headD 0 &&& 0x3F).toNat)
  else none

def lastUriParts (msg : List UInt8) : Option (UInt8 × List UInt8) :=
  ((visited msg).filterMap uriParts).getLast?

def lastTextPart (msg : List UInt8) : Option (List UInt8) :=
  ((visited msg).filterMap textPart).getLast?

/-- The bytes of the schemes in front, each `https://` and then each `http://`. -/
def schemesLen (uri : List UInt8) : Nat :=
  let secure := 8 * copies (utf8 https) uri
  secure + 7 * copies (utf8 http) (uri.drop secure)

def isSeparator (b : UInt8) : Bool := b == 0x3B || b == 0x0A

/-- The lines of a Text record. -/
def lineBytes (text : List UInt8) : List (List UInt8) :=
  let parts := text.splitOnP isSeparator
  parts.dropLast.map stripCrByte ++ parts.getLast?.toList

/-- The '@'s in front of a line. -/
def atsLen (line : List UInt8) : Nat := (line.takeWhile (· == 0x40)).length

theorem ascii_of_schemes : ∀ p ∈ [https, http], ∀ c ∈ p, ∃ a, Ascii c a := by
  have hlow : ([https, http].all fun p => p.all fun c => decide (c.val.toNat < 0x80)) = true := by
    decide
  intro p hp c hc
  have hchar := List.all_eq_true.mp (List.all_eq_true.mp hlow p hp) c hc
  exact ⟨_, ascii_of_lt (of_decide_eq_true hchar)⟩

/-- Stripping the schemes of a URI takes their bytes away. -/
theorem length_url (uri : List UInt8) :
    (utf8 (trimStartStr http (trimStartStr https (lossy uri)))).length + schemesLen uri =
      uri.length + growth uri := by
  have hascii : ∀ c ∈ https, ∃ a, Ascii c a := ascii_of_schemes https (by simp)
  have hascii' : ∀ c ∈ http, ∃ a, Ascii c a := ascii_of_schemes http (by simp)
  have hlen : (utf8 https).length = 8 := by decide
  have hlen' : (utf8 http).length = 7 := by decide
  have hsecure := length_trimStartStr_lossy (by decide) hascii uri
  have hrest := trimStartStr_lossy (by decide) hascii uri
  rw [hlen] at hsecure hrest
  have hplain := length_trimStartStr_lossy (by decide) hascii'
    (uri.drop (8 * copies (utf8 https) uri))
  rw [hlen', ← hrest] at hplain
  rw [length_utf8_lossy] at hsecure
  rw [schemesLen]
  omega

/-- A line of a Text record is the decoded line of its bytes. -/
theorem nth_lines_lossy (text : List UInt8) (i : Nat) :
    nth (lines (replaceChar ';' '\n' (lossy text))) i = lossy ((lineBytes text).getD i []) := by
  have hsemicolon : Ascii ';' 0x3B := ⟨by decide, by decide⟩
  have hlf : Ascii '\n' 0x0A := ⟨by decide, by decide⟩
  have hparts : split '\n' (replaceChar ';' '\n' (lossy text)) =
      (text.splitOnP isSeparator).map lossy := by
    rw [split_replaceChar]
    refine splitOnP_lossy (fun b hb => ?_) (fun c hc => ?_) text
    · rcases Bool.or_eq_true_iff.mp hb with hb | hb
      · exact ⟨';', beq_iff_eq.mp hb ▸ hsemicolon, rfl⟩
      · exact ⟨'\n', beq_iff_eq.mp hb ▸ hlf, rfl⟩
    · rcases Bool.or_eq_true_iff.mp hc with hc | hc
      · exact ⟨0x3B, beq_iff_eq.mp hc ▸ hsemicolon, rfl⟩
      · exact ⟨0x0A, beq_iff_eq.mp hc ▸ hlf, rfl⟩
  obtain ⟨init, last, hsplit⟩ : ∃ init last, text.splitOnP isSeparator = init ++ [last] := by
    have hne := List.splitOnP_ne_nil isSeparator text
    exact ⟨_, _, (List.dropLast_append_getLast hne).symm⟩
  have hinit : (init.map lossy).map stripCr = (init.map stripCrByte).map lossy := by
    rw [List.map_map, List.map_map]
    exact List.map_congr_left fun l _ => stripCr_lossy l
  have hlines : lines (replaceChar ';' '\n' (lossy text)) = (init.map stripCrByte).map lossy ++
      if some (lossy last) = some [] then [] else [lossy last] := by
    rw [lines, hparts, hsplit, List.map_append, List.map_singleton, List.dropLast_concat,
      List.getLast?_concat, hinit]
    rfl
  -- the empty line behind a last separator counts as no line, and a missing line as empty
  have hall : nth (lines (replaceChar ';' '\n' (lossy text))) i =
      nth ((init.map stripCrByte ++ [last]).map lossy) i := by
    rw [hlines, List.map_append, List.map_singleton]
    split
    · next hl => rw [Option.some.inj hl, List.append_nil, nth_concat_nil]
    · rfl
  rw [hall, lineBytes, hsplit, List.dropLast_concat, List.getLast?_concat, Option.toList_some, nth,
    List.getD_eq_getElem?_getD, List.getD_eq_getElem?_getD, List.getElem?_map]
  cases (init.map stripCrByte ++ [last])[i]? <;> rfl

/-! ## Keeping to the limits -/

/-- The URI fits behind its one-byte length: its prefix and the bytes behind the code, with three
bytes in place of each ill-formed sequence and without the schemes. -/
def UriFits (code : UInt8) (rest : List UInt8) : Prop :=
  (utf8 (uriPrefix code)).length + rest.length + growth rest ≤
    254 + schemesLen (utf8 (uriPrefix code) ++ rest)

/-- The first five lines fit with the separators between them, likewise, and without the '@'s of the
third and the fourth. -/
def TextFits (text : List UInt8) : Prop :=
  let line := fun i => (lineBytes text).getD i []
  ((List.range 5).map fun i => (line i).length + growth (line i)).sum ≤
    248 + atsLen (line 2) + atsLen (line 3)

instance (code : UInt8) (rest : List UInt8) : Decidable (UriFits code rest) :=
  inferInstanceAs (Decidable (_ ≤ _))

instance (text : List UInt8) : Decidable (TextFits text) := inferInstanceAs (Decidable (_ ≤ _))

/-- The checks that `applyPlain` makes and `applyNdef` does not, on the bytes of the records whose
fields stay. -/
def WithinLimits (msg : List UInt8) : Prop :=
  (∀ p ∈ lastUriParts msg, UriFits p.1 p.2) ∧ ∀ text ∈ lastTextPart msg, TextFits text

def Update.Fits : Update → Prop
  | .plain _ => True
  | .ndef msg _ => WithinLimits msg

theorem lastUri_eq_map (msg : List UInt8) : lastUri msg = (lastUriParts msg).map fun p =>
    trimStartStr http (trimStartStr https (uriPrefix p.1 ++ lossy p.2)) := by
  have hrecord : ∀ r, uriOf r = (uriParts r).map fun p =>
      trimStartStr http (trimStartStr https (uriPrefix p.1 ++ lossy p.2)) := by
    intro r
    unfold uriOf uriParts
    split
    · cases r.payload <;> rfl
    · rfl
  rw [lastUri, lastUriParts, ← List.getLast?_map, List.map_filterMap]
  simp only [hrecord]

theorem lastFields_eq_map (msg : List UInt8) : lastFields msg = (lastTextPart msg).map fun text =>
    (withLines {} (lines (replaceChar ';' '\n' (lossy text)))).textFields := by
  have hrecord : ∀ r, fieldsOf r = (textPart r).map fun text =>
      (withLines {} (lines (replaceChar ';' '\n' (lossy text)))).textFields := by
    intro r
    unfold fieldsOf textPart
    split <;> rfl
  rw [lastFields, lastTextPart, ← List.getLast?_map, List.map_filterMap]
  simp only [hrecord]

theorem url_fits_iff (code : UInt8) (rest : List UInt8) :
    (utf8 (trimStartStr http (trimStartStr https (uriPrefix code ++ lossy rest)))).length ≤ 254 ↔
      UriFits code rest := by
  have hlen := length_url (utf8 (uriPrefix code) ++ rest)
  rw [lossy_utf8_append, List.length_append, growth_utf8_append] at hlen
  unfold UriFits
  omega

theorem text_fits_iff (text : List UInt8) :
    (utf8 (join '\n'
      (withLines {} (lines (replaceChar ';' '\n' (lossy text)))).textFields)).length ≤ 252 ↔
      TextFits text := by
  have hat : Ascii '@' 0x40 := ⟨by decide, by decide⟩
  have hlen := length_textPayload (withLines {} (lines (replaceChar ';' '\n' (lossy text))))
  have hgithub := hat.length_trimStartChar_lossy ((lineBytes text).getD 2 [])
  have hx := hat.length_trimStartChar_lossy ((lineBytes text).getD 3 [])
  have hsum : ∀ f : Nat → Nat, ((List.range 5).map f).sum = f 0 + f 1 + f 2 + f 3 + f 4 := by
    intro f
    simp [List.range_succ, Nat.add_assoc]
  change (withLines {} (lines (replaceChar ';' '\n' (lossy text)))).textPayload.length ≤ 252 ↔ _
  rw [hlen]
  simp only [withLines, nth_lines_lossy, length_utf8_lossy]
  unfold TextFits atsLen
  dsimp only
  rw [hsum]
  omega

theorem fitsShort_applyNdef_iff {c : PlateContent} (hc : c.FitsShort) (msg : List UInt8) :
    (c.applyNdef msg).FitsShort ↔ WithinLimits msg := by
  have hurl : (utf8 (c.applyNdef msg).url).length + 1 ≤ 255 ↔
      ∀ p ∈ lastUriParts msg, UriFits p.1 p.2 := by
    rw [applyNdef_url, lastUri_eq_map]
    cases lastUriParts msg with
    | none => simpa using hc.url
    | some p =>
      have hfits := url_fits_iff p.1 p.2
      simp only [Option.map_some, Option.getD_some, Option.mem_def, Option.some.injEq, forall_eq',
        ← hfits]
      omega
  have htext : (c.applyNdef msg).textPayload.length + 3 ≤ 255 ↔
      ∀ text ∈ lastTextPart msg, TextFits text := by
    rw [textPayload, applyNdef_textFields, lastFields_eq_map]
    cases lastTextPart msg with
    | none => simpa [textPayload] using hc.text
    | some text =>
      have hfits := text_fits_iff text
      simp only [Option.map_some, Option.getD_some, Option.mem_def, Option.some.injEq, forall_eq',
        ← hfits]
      omega
  exact ⟨fun h => ⟨hurl.mp h.url, htext.mp h.text⟩, fun h => ⟨hurl.mpr h.1, htext.mpr h.2⟩⟩

theorem fitsShort_applyPlain {c c' : PlateContent} {text : Str} (h : c.applyPlain text = .ok c') :
    c'.FitsShort :=
  (applyPlain_accepted h).fitsShort

theorem fitsShort_update_iff {c : PlateContent} (u : Update) (hc : c.FitsShort) :
    (c.update u).FitsShort ↔ u.Fits := by
  cases u with
  | plain text =>
    refine iff_of_true ?_ trivial
    simp only [update]
    cases h : c.applyPlain text with
    | ok c' => exact fitsShort_applyPlain h
    | error e => exact hc
  | ndef msg fits => exact fitsShort_applyNdef_iff hc msg

theorem fitsShort_default : ({} : PlateContent).FitsShort := ⟨by decide, by decide⟩

theorem fitsShort_demo : demo.FitsShort := ⟨by decide, by decide⟩

/-- Every content of a run from the demo or the default content fits the short records exactly if
every message of the run keeps to the limits. -/
theorem always_fitsShort_iff {c : PlateContent} (hc : c = demo ∨ c = {}) (us : List Update) :
    Always update FitsShort c us ↔ ∀ u ∈ us, u.Fits := by
  have hfit : c.FitsShort := by
    rcases hc with rfl | rfl
    · exact fitsShort_demo
    · exact fitsShort_default
  rw [always_iff_of_step (fun c u hc => fitsShort_update_iff u hc) hfit, eachStep_iff_forall]

theorem always_fitsShort_iff_rename :
    Always update FitsShort demo [.plain "Taro".toList, .ndef demo.toNdef (by decide)] := by
  refine (always_fitsShort_iff (.inl rfl) _).mpr ?_
  simp only [List.forall_mem_cons, List.not_mem_nil, false_implies, implies_true, and_true]
  exact ⟨trivial, by decide, by decide⟩

/-! ## A URL that gets longer -/

/-- A telephone number as a URI record. -/
def telRecord (digits : Str) : Record := ⟨1, [0x55], 0x05 :: utf8 digits⟩

theorem length_encode_telRecord (digits : Str) (h : (utf8 digits).length < 255) :
    (encodeMessage [telRecord digits]).length = (utf8 digits).length + 5 := by
  have hlen : (telRecord digits).payload.length = (utf8 digits).length + 1 := rfl
  have hs : (telRecord digits).isShort = true := decide_eq_true (by omega)
  simp only [encodeMessage, encodeRest, Record.encode, Record.lengthField, hs, if_true,
    List.length_append, hlen]
  simp [telRecord]
  omega

theorem lastUriParts_telRecord (digits : Str) (h : (utf8 digits).length < 255) :
    lastUriParts (encodeMessage [telRecord digits]) = some (0x05, utf8 digits) := by
  have hfit : (telRecord digits).Fits :=
    ⟨(by decide : (1 : UInt8) < 8), by simp [telRecord], by simp [telRecord]; omega⟩
  have hvisited : visited (encodeMessage [telRecord digits]) = [telRecord digits] :=
    visited_encodeMessage _ (by simpa using hfit) (by rw [length_encode_telRecord _ h]; omega)
  rw [lastUriParts, hvisited]
  rfl

/-- There is no scheme in front of a telephone number. -/
theorem schemesLen_tel (rest : List UInt8) : schemesLen (utf8 (uriPrefix 0x05) ++ rest) = 0 := by
  have htel : utf8 (uriPrefix 0x05) = 0x74 :: utf8 "el:".toList := by decide
  have hnot : ∀ p : List UInt8, p.head? = some 0x68 →
      ¬ p <+: 0x74 :: (utf8 "el:".toList ++ rest) := by
    rintro p hp ⟨t, ht⟩
    have hhead := congrArg List.head? ht
    rw [List.head?_append, hp] at hhead
    cases hhead
  rw [schemesLen, htel, List.cons_append, copies_eq_zero (hnot _ (by decide)), Nat.mul_zero,
    List.drop_zero, copies_eq_zero (hnot _ (by decide))]

theorem length_utf8_replicate (n : Nat) : (utf8 (List.replicate n '0')).length = n := by
  have hzero : (String.utf8EncodeChar '0').length = 1 := by decide
  induction n with
  | zero => rfl
  | succ n ih => rw [List.replicate_succ, utf8_cons, List.length_append, ih, hzero, Nat.add_comm]

/-- The 254 digits fit a short record, but not behind `tel:`. -/
theorem long_url_adopted :
    ¬ ∀ c, (c = demo ∨ c = {}) → ∀ us : List Update, Always update FitsShort c us := by
  intro h
  obtain ⟨digits, hlen⟩ : ∃ digits, (utf8 digits).length = 254 :=
    ⟨List.replicate 254 '0', length_utf8_replicate 254⟩
  have hrun := h {} (.inr rfl) [.ndef (encodeMessage [telRecord digits])
    (by rw [length_encode_telRecord _ (by omega)]; omega)]
  have hlim := (fitsShort_applyNdef_iff fitsShort_default _).mp hrun.last
  have hfits := hlim.1 _ (lastUriParts_telRecord digits (by omega))
  have htel : (utf8 (uriPrefix 0x05)).length = 4 := by decide
  rw [UriFits, schemesLen_tel, htel] at hfits
  dsimp only at hfits
  omega

end PlateContent

end PaperNamePlate
