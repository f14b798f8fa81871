import PaperNamePlate.Plate.Message

/-!
# Saving and restoring a content

`applyNdef` applies the records that it visits one after the other, and on a
message built by `toNdef` these are the records of the content. What is restored
from a saved message, and when it is what was saved, follows from the text record
and the URI record alone.
-/
namespace PaperNamePlate

open Embedded Embedded.Ndef

/-! ## The records of a message -/

/-- The records that `applyNdef` looks at from offset `i` on. -/
def visitedFrom (msg : List UInt8) : Nat → Nat → List Record
  | 0, _ => []
  | n + 1, i =>
    match recordAt msg i with
    | none => []
    | some (r, next) => if next ≤ i ∨ msg.length ≤ next then [r] else r :: visitedFrom msg n next

def visited (msg : List UInt8) : List Record := visitedFrom msg msg.length 0

theorem recordAt_eq_none {msg : List UInt8} {i : Nat} (h : msg.length ≤ i) :
    recordAt msg i = none := by
  simp [recordAt, List.getElem?_eq_none h]

/-- A message is left before the iterations run out. -/
theorem visitedFrom_eq {msg : List UInt8} {n m i : Nat} (hn : msg.length ≤ i + n)
    (hm : msg.length ≤ i + m) : visitedFrom msg n i = visitedFrom msg m i := by
  induction n generalizing m i with
  | zero =>
    cases m with
    | zero => rfl
    | succ m => simp [visitedFrom, recordAt_eq_none (show msg.length ≤ i by omega)]
  | succ n ih =>
    cases m with
    | zero => simp [visitedFrom, recordAt_eq_none (show msg.length ≤ i by omega)]
    | succ m =>
      unfold visitedFrom
      cases recordAt msg i with
      | none => rfl
      | some q =>
        obtain ⟨r, next⟩ := q
        simp only
        split
        · rfl
        · next h => rw [ih (by omega) (by omega : msg.length ≤ next + m)]

theorem PlateContent.applyNdefLoop_eq (msg : List UInt8) (n i : Nat) (c : PlateContent) :
    applyNdefLoop msg n i c = (visitedFrom msg n i).foldl applyRecord c := by
  induction n generalizing i c with
  | zero => rfl
  | succ n ih =>
    unfold applyNdefLoop visitedFrom
    cases recordAt msg i with
    | none => rfl
    | some q =>
      simp only
      split
      · rfl
      · rw [ih, List.foldl_cons]

theorem PlateContent.applyNdef_eq (msg : List UInt8) (c : PlateContent) :
    c.applyNdef msg = (visited msg).foldl applyRecord c :=
  applyNdefLoop_eq msg msg.length 0 c

theorem Walk.le_length {msg : List UInt8} {i : Nat} {ws : List (UInt8 × Record)}
    (hw : Walk msg i ws) : i + ws.length ≤ msg.length := by
  induction hw with
  | done => simp
  | step _ _ hlt _ ih => simp only [List.length_cons]; omega

theorem Walk.visitedFrom_eq {msg : List UInt8} {i : Nat} {ws : List (UInt8 × Record)}
    (hw : Walk msg i ws) (n : Nat) (hn : ws.length ≤ n) :
    visitedFrom msg n i = ws.map Prod.snd := by
  induction hw generalizing n with
  | done =>
    cases n with
    | zero => rfl
    | succ n => simp [visitedFrom, recordAt_eq_none]
  | @step i next h r rest _ hrec hlt hrest ih =>
    obtain ⟨n, rfl⟩ : ∃ k, n = k + 1 := ⟨n - 1, by simp at hn; omega⟩
    simp only [visitedFrom, hrec]
    cases hrest with
    | done => simp
    | step hget' =>
      have hin := (List.getElem?_eq_some_iff.mp hget').1
      rw [if_neg (by omega), ih n (by simpa using hn)]
      rfl

/-- The records of a well-formed message are visited in order. -/
theorem Walk.visited_eq {msg : List UInt8} {ws : List (UInt8 × Record)} (hw : Walk msg 0 ws) :
    visited msg = ws.map Prod.snd :=
  hw.visitedFrom_eq _ (by have := hw.le_length; omega)

theorem visited_encodeMessage (rs : List Record) (hfit : ∀ r ∈ rs, r.Fits)
    (hlen : (encodeMessage rs).length < 2 ^ 32) : visited (encodeMessage rs) = rs := by
  rw [(walk_encodeMessage rs hfit hlen).visited_eq, List.map_snd_zip]
  rw [length_headers]

namespace PlateContent

theorem applyNdef_toNdef (a c : PlateContent) (h : c.FitsShort) :
    a.applyNdef c.toNdef = c.records.foldl applyRecord a := by
  have hlen := c.length_toNdef_le h
  rw [toNdef_eq_encodeMessage c h] at hlen ⊢
  rw [applyNdef_eq, visited_encodeMessage _ (c.records_fits h) (by omega)]

/-! ## Records on a content -/

/-- `a` with the text fields read from the five lines `ls`. -/
def withLines (a : PlateContent) (ls : List Str) : PlateContent :=
  { a with
    name := nth ls 0
    email := nth ls 1
    github := trimStartChar '@' (nth ls 2)
    x := trimStartChar '@' (nth ls 3)
    note := nth ls 4 }

/-- The lines that a decoder finds in the text of `c`. -/
def storedLines (c : PlateContent) : List Str :=
  lines (replaceChar ';' '\n' (join '\n' c.textFields))

theorem applyRecord_textRecord (a c : PlateContent) :
    a.applyRecord c.textRecord = a.withLines c.storedLines := by
  have hlang : ((([0x02, 0x65, 0x6E] : List UInt8) ++ c.textPayload).headD 0 &&& 0x3F).toNat =
      2 := by
    simp
  have htext : sliceFrom? (([0x02, 0x65, 0x6E] : List UInt8) ++ c.textPayload) (1 + 2) =
      some c.textPayload := sliceFrom?_append [0x02, 0x65, 0x6E] c.textPayload
  simp only [applyRecord, textRecord, hlang, htext, and_self, if_true]
  rw [textPayload, lossy_utf8]
  rfl

theorem applyRecord_uriRecord (a c : PlateContent) :
    a.applyRecord c.uriRecord = { a with url := trimStartStr http (trimStartStr https c.url) } := by
  have hscheme : uriPrefix 0x04 = https := by decide
  have hne : https ≠ [] := by decide
  simp [applyRecord, uriRecord, IMAGE_MIME, hscheme, trimStartStr_append hne]

/-- An image record leaves the text fields alone. -/
theorem applyRecord_imageRecord (a : PlateContent) (img : MonoImage) :
    ∃ image, a.applyRecord (imageRecord img) = { a with image } := by
  have htype : IMAGE_MIME ≠ [0x54] := by decide
  simp only [applyRecord, imageRecord, htype, and_false, if_false, and_self, if_true]
  split
  · exact ⟨_, rfl⟩
  · exact ⟨a.image, rfl⟩

/-- What `applyNdef` restores from a saved message, up to the image. -/
theorem applyNdef_toNdef_text (a c : PlateContent) (h : c.FitsShort) :
    ∃ image, a.applyNdef c.toNdef =
      { a.withLines c.storedLines with
        url := if c.url.isEmpty then a.url else trimStartStr http (trimStartStr https c.url)
        image } := by
  have hpre : ∀ b : PlateContent, c.textRecords.foldl applyRecord b =
      { b.withLines c.storedLines with
        url := if c.url.isEmpty then b.url else trimStartStr http (trimStartStr https c.url) } := by
    intro b
    by_cases hu : c.url.isEmpty = true
    · simp [textRecords, hu, applyRecord_textRecord, withLines]
    · simp [textRecords, hu, applyRecord_textRecord, applyRecord_uriRecord, withLines]
  have hrec : c.records = c.textRecords ++ c.carriedImage.toList.map imageRecord := rfl
  rw [applyNdef_toNdef a c h, hrec, List.foldl_append, hpre]
  cases c.carriedImage with
  | none => exact ⟨a.image, rfl⟩
  | some img =>
    obtain ⟨image, himage⟩ := applyRecord_imageRecord
      { a.withLines c.storedLines with
        url := if c.url.isEmpty then a.url else trimStartStr http (trimStartStr https c.url) } img
    exact ⟨image, by simpa using himage⟩

/-! ## Accepted texts -/

/-- What `applyPlain` makes sure of. -/
structure Accepted (c : PlateContent) : Prop where
  lf : ∀ f ∈ c.textFields, '\n' ∉ f
  cr : ∀ f ∈ c.textFields, f.getLast? ≠ some '\r'
  github : trimStartChar '@' c.github = c.github
  x : trimStartChar '@' c.x = c.x
  url : ¬ http <+: c.url
  text_le : c.textPayload.length ≤ MAX_TEXT_PAYLOAD
  url_le : (utf8 c.url).length ≤ MAX_URL_LEN

theorem length_textPayload (c : PlateContent) : c.textPayload.length =
    (utf8 c.name).length + (utf8 c.email).length + (utf8 c.github).length + (utf8 c.x).length +
      (utf8 c.note).length + 4 := by
  have hnl : (String.utf8EncodeChar '\n').length = 1 := by decide
  simp [textPayload, textFields, join, List.intercalate_cons_cons, hnl]
  omega

/-- The trimmed lines of a plain-text form. -/
def plainLines (text : Str) : List Str := (split '\n' text).map fun l => trim (trimEndChar '\r' l)

theorem nth_plainLines (text : Str) (i : Nat) :
    nth (plainLines text) i = trim (trimEndChar '\r' (nth (split '\n' text) i)) := by
  unfold nth plainLines
  rw [List.getD_eq_getElem?_getD, List.getD_eq_getElem?_getD, List.getElem?_map]
  cases (split '\n' text)[i]? <;> rfl

theorem not_mem_plainLines (text : Str) (i : Nat) : '\n' ∉ nth (plainLines text) i := by
  rw [nth_plainLines]
  intro hmem
  have hmem := (trimEndChar_isPrefix _ _).subset ((trim_sublist _).subset hmem)
  rcases nth_eq_nil_or_mem (split '\n' text) i with hnil | hin
  · simp [hnil] at hmem
  · exact not_mem_of_mem_split hin hmem

theorem getLast?_plainLines (text : Str) (i : Nat) :
    (nth (plainLines text) i).getLast? ≠ some '\r' := by
  rw [nth_plainLines]
  exact getLast?_trim_ne (by decide) _

/-- The fields of an accepted text are its trimmed lines. -/
theorem applyPlain_eq {a c : PlateContent} {text : Str} (h : a.applyPlain text = .ok c) :
    c = { a.withLines (plainLines text) with
      url := trimStartStr http (trimStartStr https (nth (plainLines text) 5)) } ∧
    c.textPayload.length ≤ MAX_TEXT_PAYLOAD ∧ (utf8 c.url).length ≤ MAX_URL_LEN := by
  unfold applyPlain at h
  simp only at h
  split at h
  · cases h
  · split at h
    · cases h
    · next htext hurl =>
      cases h
      exact ⟨rfl, by rw [length_textPayload]; exact Nat.le_of_not_lt htext, Nat.le_of_not_lt hurl⟩

theorem applyPlain_accepted {a c : PlateContent} {text : Str} (h : a.applyPlain text = .ok c) :
    c.Accepted := by
  obtain ⟨hc, htext, hurl⟩ := applyPlain_eq h
  have hfields : ∀ f ∈ c.textFields, ∃ i, f <:+ nth (plainLines text) i := by
    intro f hf
    rw [hc] at hf
    simp only [textFields, withLines, List.mem_cons, List.not_mem_nil, or_false] at hf
    rcases hf with rfl | rfl | rfl | rfl | rfl
    · exact ⟨0, List.suffix_rfl⟩
    · exact ⟨1, List.suffix_rfl⟩
    · exact ⟨2, trimStartChar_suffix _ _⟩
    · exact ⟨3, trimStartChar_suffix _ _⟩
    · exact ⟨4, List.suffix_rfl⟩
  refine ⟨?_, ?_, ?_, ?_, ?_, htext, hurl⟩
  · intro f hf hmem
    obtain ⟨i, hi⟩ := hfields f hf
    exact not_mem_plainLines text i (hi.subset hmem)
  · intro f hf
    obtain ⟨i, hi⟩ := hfields f hf
    exact getLast?_ne_of_suffix hi (getLast?_plainLines text i)
  · rw [hc]; exact trimStartChar_idem _ _
  · rw [hc]; exact trimStartChar_idem _ _
  · rw [hc]; exact not_prefix_trimStartStr (by decide) _

theorem Accepted.fitsShort {c : PlateContent} (h : c.Accepted) : c.FitsShort := by
  have htext : c.textPayload.length ≤ 240 := h.text_le
  have hurl : (utf8 c.url).length ≤ 200 := h.url_le
  exact ⟨by omega, by omega⟩

/-! ## What comes back -/

/-- All six text fields. -/
def sixFields (c : PlateContent) : List Str := c.textFields ++ [c.url]

/-- No decoded line has a semicolon. -/
theorem not_mem_storedLines (c : PlateContent) (i : Nat) : ';' ∉ nth c.storedLines i := by
  rcases nth_eq_nil_or_mem c.storedLines i with hnil | hin
  · simp [hnil]
  · exact fun h => not_mem_replaceChar (by decide) _ (mem_of_mem_lines hin h)

theorem nth_storedLines {c : PlateContent} (hlf : ∀ f ∈ c.textFields, '\n' ∉ f)
    (hcr : ∀ f ∈ c.textFields.dropLast, f.getLast? ≠ some '\r')
    (hsemi : ∀ f ∈ c.textFields, ';' ∉ f) (i : Nat) : nth c.storedLines i = nth c.textFields i := by
  have hjoin : ';' ∉ join '\n' c.textFields := by
    rw [mem_join_iff (by decide)]
    rintro ⟨f, hf, hmem⟩
    exact hsemi f hf hmem
  rw [storedLines, replaceChar_of_not_mem hjoin]
  exact nth_lines_join _ (by simp [textFields]) hlf hcr i

theorem withLines_storedLines {c : PlateContent} (hc : c.Accepted)
    (hsemi : ∀ f ∈ c.textFields, ';' ∉ f) (a : PlateContent) :
    (a.withLines c.storedLines).textFields = c.textFields := by
  have h := nth_storedLines hc.lf (fun f hf => hc.cr f ((List.dropLast_sublist _).subset hf)) hsemi
  simp only [withLines, h]
  simp only [textFields, nth, List.getD_cons_zero, List.getD_cons_succ, hc.github, hc.x]

/-- A URL without a scheme comes back as it is. -/
theorem stripped_eq_self_iff {u : Str} :
    trimStartStr http (trimStartStr https u) = u ↔ ¬ https <+: u ∧ ¬ http <+: u := by
  rw [comp_eq_self_iff (fun s => (trimStartStr_suffix _ s).sublist)
      (fun s => (trimStartStr_suffix _ s).sublist),
    trimStartStr_eq_self_iff (by decide), trimStartStr_eq_self_iff (by decide)]

/-- Restoring an accepted content over another one with an empty URL gives its text back exactly
if no field has a semicolon and the URL does not start with `https://`. -/
theorem applyNdef_toNdef_sixFields {a c : PlateContent} (ha : a.url = []) (hc : c.Accepted) :
    (a.applyNdef c.toNdef).sixFields = c.sixFields ↔
      (∀ f ∈ c.textFields, ';' ∉ f) ∧ ¬ https <+: c.url := by
  obtain ⟨image, himage⟩ := applyNdef_toNdef_text a c hc.fitsShort
  have hurl : (if c.url.isEmpty then a.url else trimStartStr http (trimStartStr https c.url)) =
      trimStartStr http (trimStartStr https c.url) := by
    split
    · next h => rw [ha, List.isEmpty_iff.mp h]; rfl
    · rfl
  have hsplit : (a.applyNdef c.toNdef).sixFields = c.sixFields ↔
      (a.withLines c.storedLines).textFields = c.textFields ∧
        trimStartStr http (trimStartStr https c.url) = c.url := by
    rw [himage, hurl]
    simp [sixFields, textFields, and_assoc]
  rw [hsplit, stripped_eq_self_iff, and_iff_left hc.url]
  refine and_congr_left fun _ => ⟨fun h f hf => ?_, fun h => withLines_storedLines hc h a⟩
  rw [← h] at hf
  simp only [textFields, withLines, List.mem_cons, List.not_mem_nil, or_false] at hf
  rcases hf with rfl | rfl | rfl | rfl | rfl
  · exact not_mem_storedLines c 0
  · exact not_mem_storedLines c 1
  · exact fun h => not_mem_storedLines c 2 ((trimStartChar_suffix _ _).subset h)
  · exact fun h => not_mem_storedLines c 3 ((trimStartChar_suffix _ _).subset h)
  · exact not_mem_storedLines c 4

theorem semicolon_mem_fields {a c : PlateContent} {text : Str} (h : a.applyPlain text = .ok c) :
    (∀ f ∈ c.textFields, ';' ∉ f) ↔ ∀ i < 5, ';' ∉ nth (split '\n' text) i := by
  have hwhite : isWhite ';' = false := by decide
  have hline : ∀ i, ';' ∈ nth (plainLines text) i ↔ ';' ∈ nth (split '\n' text) i := by
    intro i
    rw [nth_plainLines, mem_trim_iff hwhite, trimEndChar, mem_rdropWhile_iff (by decide)]
  have hat : ∀ s, ';' ∈ trimStartChar '@' s ↔ ';' ∈ s := fun s => by
    rw [trimStartChar, mem_dropWhile_iff (by decide)]
  rw [(applyPlain_eq h).1]
  simp only [textFields, withLines, List.forall_mem_cons, List.not_mem_nil, false_implies,
    implies_true, and_true, hat, hline]
  constructor
  · rintro ⟨h0, h1, h2, h3, h4⟩ i hi
    match i, hi with
    | 0, _ => exact h0
    | 1, _ => exact h1
    | 2, _ => exact h2
    | 3, _ => exact h3
    | 4, _ => exact h4
  · intro hall
    exact ⟨hall 0 (by decide), hall 1 (by decide), hall 2 (by decide), hall 3 (by decide),
      hall 4 (by decide)⟩

/-- A text accepted over BLE survives being saved as an NDEF message exactly if none of its first
five lines has a semicolon and its URL line does not have `https://` behind `http://`. -/
theorem restored_iff (text : Str) (c : PlateContent) (h : applyPlain {} text = .ok c) :
    (applyNdef {} c.toNdef).sixFields = c.sixFields ↔
      (∀ i < 5, ';' ∉ nth (split '\n' text) i) ∧
        ¬ https <+: trimStartStr http (trimStartStr https (nth (plainLines text) 5)) := by
  rw [applyNdef_toNdef_sixFields rfl (applyPlain_accepted h), semicolon_mem_fields h,
    show c.url = _ from congrArg url (applyPlain_eq h).1]

theorem restored_iff_card :
    (applyNdef {} (toNdef { name := "Kenta".toList, github := "ciniml".toList })).sixFields =
      sixFields { name := "Kenta".toList, github := "ciniml".toList } := by
  refine (restored_iff "Kenta\n\n@ciniml".toList _ ?_).mpr ⟨?_, ?_⟩ <;> decide

theorem semicolon_not_restored :
    ¬ ∀ text c, applyPlain {} text = .ok c → (applyNdef {} c.toNdef).sixFields = c.sixFields := by
  intro h
  exact absurd (h "K;I".toList { name := "K;I".toList } (by decide)) (by decide)

/-- Two starting contents end with the same text after a restore exactly if the saved content has
a URL, which then replaces theirs, or they had the same one. -/
theorem restore_agrees_iff {c₀ c : PlateContent} {text : Str} (h : c₀.applyPlain text = .ok c)
    (a b : PlateContent) :
    (a.applyNdef c.toNdef).sixFields = (b.applyNdef c.toNdef).sixFields ↔
      c.url ≠ [] ∨ a.url = b.url := by
  have hfit := (applyPlain_accepted h).fitsShort
  obtain ⟨imageA, hA⟩ := applyNdef_toNdef_text a c hfit
  obtain ⟨imageB, hB⟩ := applyNdef_toNdef_text b c hfit
  rw [hA, hB]
  by_cases hu : c.url = []
  · simp [sixFields, textFields, withLines, hu]
  · simp [sixFields, textFields, withLines, hu]

theorem restore_agrees_iff_linked :
    (applyNdef demo (toNdef { url := "github.com".toList })).sixFields =
      (applyNdef {} (toNdef { url := "github.com".toList })).sixFields := by
  have h : applyPlain {} "\n\n\n\n\nhttps://github.com".toList =
      .ok { url := "github.com".toList } := by decide
  exact (restore_agrees_iff h demo {}).mpr (.inl (by decide))

theorem demo_url_shows_through :
    ¬ ∀ (c₀ c a b : PlateContent) (text : Str), c₀.applyPlain text = .ok c →
      (a.applyNdef c.toNdef).sixFields = (b.applyNdef c.toNdef).sixFields := by
  intro h
  exact absurd (h {} {} demo {} [] (by decide)) (by decide)

end PlateContent

end PaperNamePlate
