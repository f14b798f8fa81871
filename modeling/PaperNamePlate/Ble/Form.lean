import PaperNamePlate.Plate.Plain
import PaperNamePlate.Ble.Delivery

/-!
# The text form of the client

The page trims and strips what was typed, checks the limits and sends the six fields as
plain text; loading the plate's text fills the form again. The receiver never rejects
what the page sends. Sending a loaded text back unedited goes through the page's passes
and then the device's, and leaves the content alone exactly if each of them does.
-/
namespace PaperNamePlate

open Embedded PlateContent

namespace Web

/-! ## The browser -/

/-- White space and line ends of JavaScript: `String.prototype.trim` trims U+FEFF, and not
U+0085. -/
def jsWhite (c : Char) : Bool := (isWhite c && c != '\u0085') || c == '\uFEFF'

def jsTrim (s : Str) : Str := (s.dropWhile jsWhite).rdropWhile jsWhite

/-- `new TextDecoder().decode(v)`, which drops a byte order mark. -/
def stripBom (s : Str) : Str := if s.head? = some '\uFEFF' then s.tail else s

def decode (v : List UInt8) : Str := stripBom (lossy v)

/-- What an input element holds: a text without line breaks. -/
structure Value where
  text : Str
  lf : '\n' ∉ text
  cr : '\r' ∉ text

def sanitize (s : Str) : Str := s.filter fun c => c != '\n' && c != '\r'

theorem not_mem_sanitize (s : Str) : '\n' ∉ sanitize s ∧ '\r' ∉ sanitize s := by
  constructor <;> intro h <;> simp [sanitize] at h

/-- Setting a text input. -/
def Value.set (s : Str) : Value := ⟨sanitize s, (not_mem_sanitize s).1, (not_mem_sanitize s).2⟩

def asciiWhite (c : Char) : Bool := c ∈ ['\t', '\n', '\x0C', '\r', ' ']

def sanitizeUrl (s : Str) : Str := ((sanitize s).dropWhile asciiWhite).rdropWhile asciiWhite

theorem sanitizeUrl_sublist (s : Str) : (sanitizeUrl s).Sublist (sanitize s) :=
  (List.rdropWhile_prefix _ _).sublist.trans (List.dropWhile_sublist _)

/-- Setting a URL input, which also trims ASCII white space. -/
def Value.setUrl (s : Str) : Value :=
  ⟨sanitizeUrl s, fun h => (not_mem_sanitize s).1 ((sanitizeUrl_sublist s).subset h),
    fun h => (not_mem_sanitize s).2 ((sanitizeUrl_sublist s).subset h)⟩

/-! ## The form -/

structure Form where
  name : Value
  email : Value
  github : Value
  x : Value
  note : Value
  url : Value

/-- Limit on name, e-mail, GitHub, X and note with their separators. -/
def MAX_TEXT : Nat := 240
def MAX_URL : Nat := 200

/-- `t.replace(/^@/, "")`. -/
def stripAt (s : Str) : Str := if s.head? = some '@' then s.tail else s

/-- `t.replace(/^https?:\/\//, "")`. -/
def stripScheme (s : Str) : Str :=
  if https.isPrefixOf s then s.drop https.length
  else if http.isPrefixOf s then s.drop http.length
  else s

/-- A field as it is sent. -/
def Value.entered (v : Value) : Str := stripAt (jsTrim v.text)

/-- The URL as it is sent. -/
def Value.link (v : Value) : Str := stripScheme (jsTrim v.text)

/-- The bytes that the page transfers, or what it logs instead. -/
def Form.submit (f : Form) : Except String (List UInt8) :=
  let url := f.url.link
  let four := [f.name, f.email, f.github, f.x, f.note].map Value.entered
  let textLen := (four.map fun t => (utf8 t).length).sum + 4
  if textLen > MAX_TEXT then
    .error ("名前〜メモが長すぎます（" ++ toString textLen ++ " / " ++ toString MAX_TEXT ++ " バイト）。")
  else if (utf8 url).length > MAX_URL then
    .error ("URL が長すぎます（最大 " ++ toString MAX_URL ++ " バイト）。")
  else .ok (utf8 (join '\n' (four ++ [url])))

/-- Fill the form from a plain text. -/
def fillFields (text : Str) : Form :=
  let ls := split '\n' text
  { name := .set (nth ls 0)
    email := .set (nth ls 1)
    github := .set (nth ls 2)
    x := .set (nth ls 3)
    note := .set (nth ls 4)
    url := .setUrl (if nth ls 5 = [] then [] else https ++ nth ls 5) }

/-! ## What is sent -/

theorem jsTrim_sublist (s : Str) : (jsTrim s).Sublist s :=
  (List.rdropWhile_prefix _ _).sublist.trans (List.dropWhile_sublist _)

theorem stripAt_sublist (s : Str) : (stripAt s).Sublist s := by
  unfold stripAt
  split
  · exact List.tail_sublist s
  · exact List.Sublist.refl s

theorem stripScheme_sublist (s : Str) : (stripScheme s).Sublist s := by
  unfold stripScheme
  split
  · exact List.drop_sublist _ s
  · split
    · exact List.drop_sublist _ s
    · exact List.Sublist.refl s

theorem entered_sublist (v : Value) : v.entered.Sublist v.text :=
  (stripAt_sublist _).trans (jsTrim_sublist _)

theorem link_sublist (v : Value) : v.link.Sublist v.text :=
  (stripScheme_sublist _).trans (jsTrim_sublist _)

/-- The six lines as they are sent. -/
def Form.lines (f : Form) : List Str :=
  [f.name.entered, f.email.entered, f.github.entered, f.x.entered, f.note.entered, f.url.link]

theorem lines_single (f : Form) : ∀ l ∈ f.lines, '\n' ∉ l ∧ '\r' ∉ l := by
  have hvalue : ∀ (v : Value) (l : Str), l.Sublist v.text → '\n' ∉ l ∧ '\r' ∉ l :=
    fun v l hl => ⟨fun h => v.lf (hl.subset h), fun h => v.cr (hl.subset h)⟩
  intro l hl
  simp only [Form.lines, List.mem_cons, List.not_mem_nil, or_false] at hl
  rcases hl with rfl | rfl | rfl | rfl | rfl | rfl
  · exact hvalue _ _ (entered_sublist _)
  · exact hvalue _ _ (entered_sublist _)
  · exact hvalue _ _ (entered_sublist _)
  · exact hvalue _ _ (entered_sublist _)
  · exact hvalue _ _ (entered_sublist _)
  · exact hvalue _ _ (link_sublist _)

/-- What a text within the limits is sent as. -/
theorem submit_eq {f : Form} {bytes : List UInt8} (h : f.submit = .ok bytes) :
    bytes = utf8 (join '\n' f.lines) ∧
      (utf8 f.name.entered).length + (utf8 f.email.entered).length +
        (utf8 f.github.entered).length + (utf8 f.x.entered).length +
        (utf8 f.note.entered).length + 4 ≤ MAX_TEXT ∧
      (utf8 f.url.link).length ≤ MAX_URL := by
  unfold Form.submit at h
  dsimp only at h
  split at h
  · cases h
  · split at h
    · cases h
    · next htext hurl =>
      cases h
      simp only [List.map_cons, List.map_nil, List.sum_cons, List.sum_nil] at htext
      exact ⟨rfl, by omega, by omega⟩

/-- The lines arrive as they were sent, each of them trimmed. -/
theorem nth_plainLines_lines (f : Form) (i : Nat) :
    nth (plainLines (join '\n' f.lines)) i = trim (nth f.lines i) := by
  rw [nth_plainLines, split_join '\n' f.lines (by simp [Form.lines])
    fun l hl => (lines_single f l hl).1]
  have hcr : '\r' ∉ nth f.lines i := by
    rcases nth_eq_nil_or_mem f.lines i with h | h
    · simp [h]
    · exact (lines_single f _ h).2
  congr 1
  rw [trimEndChar, List.rdropWhile_eq_self_iff]
  intro hne hlast
  exact hcr (beq_iff_eq.mp hlast ▸ List.getLast_mem hne)

/-- The fields that the device makes of what the page sends. -/
def Form.fields (f : Form) : List Str :=
  [trim f.name.entered, trim f.email.entered, trimStartChar '@' (trim f.github.entered),
    trimStartChar '@' (trim f.x.entered), trim f.note.entered, schemeless (trim f.url.link)]

theorem applyPlain_submitted {f : Form} {bytes : List UInt8} (h : f.submit = .ok bytes)
    (c : PlateContent) :
    ∃ c', c.applyPlain (lossy bytes) = .ok c' ∧ c'.sixFields = f.fields ∧ c'.image = c.image := by
  obtain ⟨rfl, htext, hurl⟩ := submit_eq h
  rw [lossy_utf8]
  have hle := fun (s : Str) => length_utf8_le (trim_sublist s)
  have hat := fun (s : Str) =>
      (length_utf8_le (trimStartChar_suffix '@' (trim s)).sublist).trans (hle s)
  have hscheme := (length_utf8_le (schemeless_suffix (trim f.url.link)).sublist).trans
      (hle f.url.link)
  refine ⟨_, applyPlain_of_limits rfl ?_ ?_, ?_, rfl⟩
  · rw [length_textPayload]
    simp only [withLines, nth_plainLines_lines]
    have h0 := hle f.name.entered
    have h1 := hle f.email.entered
    have h2 := hat f.github.entered
    have h3 := hat f.x.entered
    have h4 := hle f.note.entered
    have hlim : MAX_TEXT = MAX_TEXT_PAYLOAD := rfl
    simp only [Form.lines, nth, List.getD_cons_zero, List.getD_cons_succ]
    omega
  · simp only [nth_plainLines_lines]
    exact hscheme.trans hurl
  · simp only [sixFields, textFields, withLines, nth_plainLines_lines]
    rfl

theorem length_lines (f : Form) : (utf8 (join '\n' f.lines)).length =
    (utf8 f.name.entered).length + (utf8 f.email.entered).length +
      (utf8 f.github.entered).length + (utf8 f.x.entered).length + (utf8 f.note.entered).length +
      (utf8 f.url.link).length + 5 := by
  have hnl : (String.utf8EncodeChar '\n').length = 1 := by decide
  simp only [Form.lines, join, List.intercalate_cons_cons, List.intercalate_singleton, utf8_append,
    List.length_append, utf8_cons, utf8_nil, List.append_nil, hnl]
  omega

theorem valid_submitted {f : Form} {bytes : List UInt8} (h : f.submit = .ok bytes) :
    ImgRx.Start.content.Valid bytes := by
  obtain ⟨rfl, htext, hurl⟩ := submit_eq h
  have htext : _ ≤ 240 := htext
  have hurl : _ ≤ 200 := hurl
  have hlen := length_lines f
  have hmax : MAX_CONTENT_BYTES = 1024 := rfl
  constructor
  · omega
  · omega

/-- Whatever was typed, a text that the page sends is never rejected: however the transfer goes,
where its commit arrives the session hands the text over, and a STATUS that the client ends with
says that it was committed, or that the receiver is idle after it was handed over; on any plate it
sets the six fields, trimmed and stripped, and leaves the image. -/
theorem submitted_adopted {f : Form} {bytes : List UInt8} (h : f.submit = .ok bytes)
    (notifyOk on : Bool) (e : Script) {found : Option Status} {l : Link}
    (hdone : transfer notifyOk (startPacket bytes .content) bytes e (Link.connect on) =
      .ok (.done found l)) (harrives : e.commit.arrives = true)
    {I F D : Type} [I2c I] [Flash F] [Panel D] (a : App I F D) :
    HandsOver [.text bytes] l ∧
      (∀ s ∈ found, s.state = RxState.committed.code ∨
        s.state = RxState.idle.code ∧ l.handed = [.text bytes]) ∧
      (a.onBleContent bytes).content.sixFields = f.fields ∧
      (a.onBleContent bytes).content.image = a.content.image := by
  obtain ⟨c', happly, hfields, himage⟩ := applyPlain_submitted h a.content
  have hok : validatePlain (lossy bytes) = .ok () := by
    obtain ⟨c, hc, -⟩ := applyPlain_submitted h {}
    rw [validatePlain, hc]
    rfl
  obtain ⟨hbooks, htold⟩ := done_books (valid_submitted h) hdone
  simp only [harrives, if_true] at hbooks htold
  have hupdates : updates bytes .content = [.text bytes] := by
    rw [updates, hok]
  have hverdict : verdict bytes .content = .committed := by
    rw [verdict, hok]
  have hcontent : (a.onBleContent bytes).content = c' := by
    rw [App.onBleContent, happly]
    exact (App.commitContent_eq _).1
  rw [hupdates] at hbooks htold
  rw [hverdict] at htold
  refine ⟨hbooks, htold, ?_, ?_⟩
  · rw [hcontent, hfields]
  · rw [hcontent, himage]

theorem submitted_adopted_handle :
    ∃ found l, transfer true (startPacket (utf8 "\n\nciniml\n\n\n".toList) .content)
        (utf8 "\n\nciniml\n\n\n".toList) { rounds := [silent, {}] } (Link.connect true) =
          .ok (.done found l) ∧
      HandsOver [.text (utf8 "\n\nciniml\n\n\n".toList)] l := by
  have hsubmit : Form.submit ⟨.set [], .set [], .set " @ciniml".toList, .set [], .set [],
      .setUrl []⟩ = .ok (utf8 "\n\nciniml\n\n\n".toList) := by
    decide
  have hdone : isDone (transfer true (startPacket (utf8 "\n\nciniml\n\n\n".toList) .content)
      (utf8 "\n\nciniml\n\n\n".toList) { rounds := [silent, {}] } (Link.connect true)) = true := by
    decide +kernel
  obtain ⟨found, l, h⟩ := exists_of_isDone hdone
  exact ⟨found, l, h, (submitted_adopted hsubmit true true _ h rfl App.bare).1⟩

/-! ## Back unedited -/

/-- The passes over a text field that is loaded and sent back. -/
def textPass (s : Str) : Str := stripAt (jsTrim (sanitize s))

/-- The passes over the URL. -/
def urlPass (s : Str) : Str := ((sanitize s).rdropWhile asciiWhite).rdropWhile jsWhite

theorem sanitize_append (s t : Str) : sanitize (s ++ t) = sanitize s ++ sanitize t :=
  List.filter_append _ _

theorem link_setUrl (u : Str) :
    (Value.setUrl (if u = [] then [] else https ++ u)).link = urlPass u := by
  by_cases hu : u = []
  · rw [if_pos hu, hu]
    decide
  · rw [if_neg hu]
    have hscheme : sanitize https = https := by decide
    have hcons : https = 'h' :: "ttps://".toList := by decide
    have hfront : ∀ (p : Char → Bool) (t : Str), p 'h' = false →
        (https ++ t).dropWhile p = https ++ t := by
      intro p t hp
      rw [hcons, List.cons_append, List.dropWhile_cons_of_neg (by simp [hp])]
    have hlast : ∀ p : Char → Bool, p '/' = false → ∀ c ∈ https.getLast?, p c = false := by
      intro p hp c hc
      have hslash : https.getLast? = some '/' := by decide
      rw [hslash] at hc
      exact Option.mem_some_iff.mp hc ▸ hp
    have hset : (Value.setUrl (https ++ u)).text =
        https ++ (sanitize u).rdropWhile asciiWhite := by
      show sanitizeUrl (https ++ u) = _
      rw [sanitizeUrl, sanitize_append, hscheme, hfront _ _ (by decide),
        rdropWhile_append_of_last (hlast _ (by decide))]
    rw [Value.link, hset, jsTrim, hfront _ _ (by decide),
      rdropWhile_append_of_last (hlast _ (by decide)), stripScheme,
      if_pos (List.isPrefixOf_iff_prefix.mpr (List.prefix_append _ _)), List.drop_left]
    rfl

theorem sanitize_eq_self_iff {s : Str} (hlf : '\n' ∉ s) : sanitize s = s ↔ '\r' ∉ s := by
  unfold sanitize
  rw [List.filter_eq_self]
  constructor
  · intro h hcr
    simpa using h _ hcr
  · intro hcr c hc
    simp only [Bool.and_eq_true, bne_iff_ne]
    exact ⟨fun h => hlf (h ▸ hc), fun h => hcr (h ▸ hc)⟩

/-- Where there is no white space for the device, there is at most a byte order mark for the
page. -/
theorem not_jsWhite_iff {o : Option Char} (ho : ∀ c ∈ o, isWhite c = false) :
    (∀ c ∈ o, jsWhite c = false) ↔ o ≠ some '\uFEFF' := by
  cases o with
  | none => simp
  | some c => simp [jsWhite, ho c rfl]

/-- On a trimmed text, JavaScript's `trim` finds at most byte order marks. -/
theorem jsTrim_eq_self_iff {s : Str} (h : trim s = s) :
    jsTrim s = s ↔ s.head? ≠ some '\uFEFF' ∧ s.getLast? ≠ some '\uFEFF' := by
  obtain ⟨hhead, hlast⟩ := trimBoth_eq_self_iff.mp h
  unfold jsTrim
  rw [trimBoth_eq_self_iff, not_jsWhite_iff hhead, not_jsWhite_iff hlast]

theorem stripAt_eq_self_iff {s : Str} : stripAt s = s ↔ s.head? ≠ some '@' := by
  cases s with
  | nil => simp [stripAt]
  | cons c s => by_cases hc : c = '@' <;> simp [stripAt, hc]

theorem stripBom_eq_self_iff {s : Str} : stripBom s = s ↔ s.head? ≠ some '\uFEFF' := by
  cases s with
  | nil => simp [stripBom]
  | cons c s => by_cases hc : c = '\uFEFF' <;> simp [stripBom, hc]

theorem sanitize_sublist (s : Str) : (sanitize s).Sublist s := List.filter_sublist

theorem stripBom_sublist (s : Str) : (stripBom s).Sublist s := by
  unfold stripBom
  split
  · exact List.tail_sublist s
  · exact List.Sublist.refl s

theorem textPass_sublist (s : Str) : (textPass s).Sublist s :=
  ((stripAt_sublist _).trans (jsTrim_sublist _)).trans (sanitize_sublist s)

theorem urlPass_sublist (s : Str) : (urlPass s).Sublist s :=
  ((List.rdropWhile_prefix _ _).sublist.trans (List.rdropWhile_prefix _ _).sublist).trans
    (sanitize_sublist s)

theorem textPass_eq_self_iff {s : Str} (hlf : '\n' ∉ s) (h : trim s = s) :
    textPass s = s ↔ '\r' ∉ s ∧ s.head? ≠ some '\uFEFF' ∧ s.getLast? ≠ some '\uFEFF' ∧
      s.head? ≠ some '@' := by
  unfold textPass
  rw [comp_eq_self_iff (f := fun s => stripAt (jsTrim s))
      (fun s => (stripAt_sublist _).trans (jsTrim_sublist s)) sanitize_sublist,
    comp_eq_self_iff stripAt_sublist jsTrim_sublist, sanitize_eq_self_iff hlf,
    jsTrim_eq_self_iff h, stripAt_eq_self_iff, and_assoc]

theorem urlPass_eq_self_iff {s : Str} (hlf : '\n' ∉ s) (h : trim s = s) :
    urlPass s = s ↔ '\r' ∉ s ∧ s.getLast? ≠ some '\uFEFF' := by
  obtain ⟨-, hlast⟩ := trimBoth_eq_self_iff.mp h
  have hascii : s.rdropWhile asciiWhite = s := by
    rw [rdropWhile_eq_self_iff']
    intro c hc
    have := hlast c hc
    by_contra hw
    simp only [asciiWhite, List.mem_cons, List.not_mem_nil, or_false, decide_eq_false_iff_not,
      not_not] at hw
    rcases hw with rfl | rfl | rfl | rfl | rfl <;> revert this <;> decide
  unfold urlPass
  rw [comp_eq_self_iff (f := fun s => (s.rdropWhile asciiWhite).rdropWhile jsWhite)
      (fun s => (List.rdropWhile_prefix _ _).sublist.trans (List.rdropWhile_prefix _ _).sublist)
      sanitize_sublist,
    sanitize_eq_self_iff hlf, hascii, rdropWhile_eq_self_iff', not_jsWhite_iff hlast]

/-- A text field from which neither the page nor the device takes anything. -/
structure Untouched (f : Str) : Prop where
  lf : '\n' ∉ f
  cr : '\r' ∉ f
  trimmed : trim f = f
  front : f.head? ≠ some '\uFEFF'
  last : f.getLast? ≠ some '\uFEFF'
  handle : f.head? ≠ some '@'

/-- A URL from which they take nothing. The page puts a scheme in front of it, so that a byte order
mark there stays. -/
structure UntouchedUrl (u : Str) : Prop where
  lf : '\n' ∉ u
  cr : '\r' ∉ u
  trimmed : trim u = u
  last : u.getLast? ≠ some '\uFEFF'
  https : ¬ https <+: u
  http : ¬ http <+: u

theorem untouched_iff {f : Str} (hlf : '\n' ∉ f) : textPass f = f ∧ trim f = f ↔ Untouched f := by
  constructor
  · rintro ⟨hpage, htrim⟩
    obtain ⟨hcr, hfront, hlast, hhandle⟩ := (textPass_eq_self_iff hlf htrim).mp hpage
    exact ⟨hlf, hcr, htrim, hfront, hlast, hhandle⟩
  · intro h
    exact ⟨(textPass_eq_self_iff hlf h.trimmed).mpr ⟨h.cr, h.front, h.last, h.handle⟩, h.trimmed⟩

/-- A field that the device strips of nothing but an '@' comes back exactly if it is untouched. -/
theorem text_kept_iff {strip : Str → Str} (hstrip : ∀ s, (strip s).Sublist s)
    (hself : ∀ s, s.head? ≠ some '@' → strip s = s) {f : Str} (hlf : '\n' ∉ f) :
    strip (trim (textPass f)) = f ↔ Untouched f := by
  rw [comp_eq_self_iff (f := fun s => strip (trim s))
      (fun s => (hstrip _).trans (trim_sublist s)) textPass_sublist,
    comp_eq_self_iff hstrip trim_sublist, ← and_assoc, untouched_iff hlf]
  exact and_iff_left_of_imp fun h => hself f h.handle

theorem trimmed_kept_iff {f : Str} (hlf : '\n' ∉ f) : trim (textPass f) = f ↔ Untouched f :=
  @text_kept_iff (fun s => s) List.Sublist.refl (fun _ _ => rfl) f hlf

theorem handle_kept_iff {f : Str} (hlf : '\n' ∉ f) :
    trimStartChar '@' (trim (textPass f)) = f ↔ Untouched f := by
  refine text_kept_iff (fun s => (trimStartChar_suffix _ s).sublist) (fun s hs => ?_) hlf
  rw [trimStartChar, dropWhile_eq_self_iff']
  intro c hc
  by_contra hat
  have hat : c = '@' := by simpa using hat
  exact hs (hat ▸ hc)

/-- The first field, in front of which the decoder drops a byte order mark. -/
theorem name_kept_iff {f : Str} (hlf : '\n' ∉ f) :
    trim (textPass (stripBom f)) = f ↔ Untouched f := by
  rw [comp_eq_self_iff (f := fun s => trim (textPass s))
      (fun s => (trim_sublist _).trans (textPass_sublist s)) stripBom_sublist,
    trimmed_kept_iff hlf, stripBom_eq_self_iff]
  exact and_iff_right_of_imp fun h => h.front

theorem url_kept_iff {u : Str} (hlf : '\n' ∉ u) :
    schemeless (trim (urlPass u)) = u ↔ UntouchedUrl u := by
  have hstrip : ∀ s, (schemeless s).Sublist s := fun s => (schemeless_suffix s).sublist
  rw [comp_eq_self_iff (f := fun s => schemeless (trim s))
      (fun s => (hstrip _).trans (trim_sublist s)) urlPass_sublist,
    comp_eq_self_iff hstrip trim_sublist, schemeless_eq_self_iff]
  constructor
  · rintro ⟨hpage, htrim, hhttps, hhttp⟩
    obtain ⟨hcr, hlast⟩ := (urlPass_eq_self_iff hlf htrim).mp hpage
    exact ⟨hlf, hcr, htrim, hlast, hhttps, hhttp⟩
  · intro h
    exact ⟨(urlPass_eq_self_iff hlf h.trimmed).mpr ⟨h.cr, h.last⟩, h.trimmed, h.https, h.http⟩

/-- A content that comes back from the page as it is: nothing is taken from a field, and the fields
are within the limits. -/
structure Undisturbed (c : PlateContent) : Prop where
  text : ∀ f ∈ c.textFields, Untouched f
  url : UntouchedUrl c.url
  textLimit : (c.textFields.map fun f => (utf8 f).length).sum + 4 ≤ MAX_TEXT
  urlLimit : (utf8 c.url).length ≤ MAX_URL

theorem Undisturbed.lf {c : PlateContent} (h : Undisturbed c) : ∀ f ∈ c.sixFields, '\n' ∉ f := by
  intro f hf
  rcases List.mem_append.mp hf with hf | hf
  · exact (h.text f hf).lf
  · rw [List.mem_singleton.mp hf]
    exact h.url.lf

/-- The form that a plate's text fills. -/
def loaded (c : PlateContent) : Form := fillFields (decode (utf8 c.toPlain))

theorem stripBom_join (l : Str) {ls : List Str} (hne : ls ≠ []) :
    stripBom (join '\n' (l :: ls)) = join '\n' (stripBom l :: ls) := by
  obtain ⟨l', ls, rfl⟩ := List.exists_cons_of_ne_nil hne
  cases l with
  | nil => simp [join, List.intercalate_cons_cons, stripBom]
  | cons c l =>
    by_cases hc : c = '\uFEFF' <;> simp [join, List.intercalate_cons_cons, stripBom, hc]

/-- What a loaded form sends. -/
theorem lines_loaded {c : PlateContent} (hlf : ∀ f ∈ c.sixFields, '\n' ∉ f) :
    (loaded c).lines = [textPass (stripBom c.name), textPass c.email, textPass c.github,
      textPass c.x, textPass c.note, urlPass c.url] := by
  have hplain : decode (utf8 c.toPlain) =
      join '\n' [stripBom c.name, c.email, c.github, c.x, c.note, c.url] := by
    rw [decode, lossy_utf8, toPlain, stripBom_join _ (by simp)]
  have hsplit : split '\n' (decode (utf8 c.toPlain)) =
      [stripBom c.name, c.email, c.github, c.x, c.note, c.url] := by
    rw [hplain, split_join _ _ (by simp)]
    intro l hl
    rcases List.mem_cons.mp hl with rfl | hl
    · exact fun h => hlf c.name (by simp [sixFields, textFields]) ((stripBom_sublist _).subset h)
    · refine hlf l ?_
      simp only [sixFields, textFields, List.cons_append, List.nil_append]
      exact List.mem_cons_of_mem _ hl
  unfold loaded fillFields
  simp only [hsplit, Form.lines, nth, List.getD_cons_zero, List.getD_cons_succ, link_setUrl]
  rfl

/-- The fields that come back are those that were loaded exactly if no pass changes any of them. -/
theorem fields_loaded_iff {c : PlateContent} (hlf : ∀ f ∈ c.sixFields, '\n' ∉ f) :
    (loaded c).fields = c.sixFields ↔ (∀ f ∈ c.textFields, Untouched f) ∧ UntouchedUrl c.url := by
  have hlines := lines_loaded hlf
  simp only [Form.lines, List.cons.injEq, and_true] at hlines
  obtain ⟨h0, h1, h2, h3, h4, h5⟩ := hlines
  have hmem : ∀ f ∈ [c.name, c.email, c.github, c.x, c.note, c.url], '\n' ∉ f := hlf
  simp only [List.mem_cons, List.not_mem_nil, or_false, forall_eq_or_imp, forall_eq] at hmem
  obtain ⟨l0, l1, l2, l3, l4, l5⟩ := hmem
  simp only [Form.fields, h0, h1, h2, h3, h4, h5, sixFields, textFields, List.cons_append,
    List.nil_append, List.cons.injEq, and_true, List.mem_cons, List.not_mem_nil, or_false,
    forall_eq_or_imp, forall_eq]
  rw [name_kept_iff l0, trimmed_kept_iff l1, handle_kept_iff l2, handle_kept_iff l3,
    trimmed_kept_iff l4, url_kept_iff l5]
  simp only [and_assoc]

/-- Of an undisturbed content, the page sends the fields as they are. -/
theorem Undisturbed.lines {c : PlateContent} (h : Undisturbed c) :
    (loaded c).lines = c.sixFields := by
  have htext := h.text
  simp only [textFields, List.mem_cons, List.not_mem_nil, or_false, forall_eq_or_imp,
    forall_eq] at htext
  obtain ⟨u0, u1, u2, u3, u4⟩ := htext
  have hpass : ∀ {f : Str}, Untouched f → textPass f = f :=
    fun hf => ((untouched_iff hf.lf).mpr hf).1
  have hurl := (urlPass_eq_self_iff h.url.lf h.url.trimmed).mpr ⟨h.url.cr, h.url.last⟩
  rw [lines_loaded h.lf, stripBom_eq_self_iff.mpr u0.front, hpass u0, hpass u1, hpass u2, hpass u3,
    hpass u4, hurl]
  rfl

theorem length_textPayload_sum (c : PlateContent) : c.textPayload.length =
    (c.textFields.map fun f => (utf8 f).length).sum + 4 := by
  rw [length_textPayload]
  simp only [textFields, List.map_cons, List.map_nil, List.sum_cons, List.sum_nil]
  omega

theorem submit_of_limits {f : Form}
    (htext : (utf8 f.name.entered).length + (utf8 f.email.entered).length +
      (utf8 f.github.entered).length + (utf8 f.x.entered).length +
      (utf8 f.note.entered).length + 4 ≤ MAX_TEXT)
    (hurl : (utf8 f.url.link).length ≤ MAX_URL) : f.submit = .ok (utf8 (join '\n' f.lines)) := by
  unfold Form.submit
  dsimp only
  rw [if_neg, if_neg (by omega)]
  · rfl
  · simp only [List.map_cons, List.map_nil, List.sum_cons, List.sum_nil]
    omega

theorem eq_of_sixFields {c c' : PlateContent} (h : c'.sixFields = c.sixFields)
    (himage : c'.image = c.image) : c' = c := by
  cases c
  cases c'
  simp only [sixFields, textFields, List.cons_append, List.nil_append, List.cons.injEq,
    and_true] at h
  obtain ⟨rfl, rfl, rfl, rfl, rfl, rfl⟩ := h
  obtain rfl := himage
  rfl

/-- The page sends a loaded text that is not edited, and the device takes it and has the content it
had, exactly if no field contains a line break, starts or ends with white space or ends in a byte
order mark, no text field starts with one or with an '@', the URL does not start with a scheme, and
both are within their limits. -/
theorem unedited_kept_iff (c : PlateContent) :
    (∃ bytes, (loaded c).submit = .ok bytes ∧ c.applyPlain (lossy bytes) = .ok c) ↔
      Undisturbed c := by
  constructor
  · rintro ⟨bytes, hsubmit, happly⟩
    obtain ⟨c', hc', hfields, -⟩ := applyPlain_submitted hsubmit c
    obtain rfl : c = c' := Except.ok.inj (happly.symm.trans hc')
    obtain ⟨htext, hurl⟩ := (fields_loaded_iff (not_mem_sixFields happly)).mp hfields.symm
    obtain ⟨-, hlimit, hurlLimit⟩ := applyPlain_eq happly
    rw [length_textPayload_sum] at hlimit
    exact ⟨htext, hurl, hlimit, hurlLimit⟩
  · intro h
    have hfields := (fields_loaded_iff h.lf).mpr ⟨h.text, h.url⟩
    have hlines := h.lines
    simp only [Form.lines, sixFields, textFields, List.cons_append, List.nil_append,
      List.cons.injEq, and_true] at hlines
    obtain ⟨h0, h1, h2, h3, h4, h5⟩ := hlines
    have htext := h.textLimit
    rw [← length_textPayload_sum, length_textPayload] at htext
    have hsubmit := submit_of_limits (f := loaded c) (by rw [h0, h1, h2, h3, h4]; exact htext)
      (by rw [h5]; exact h.urlLimit)
    obtain ⟨c', hc', hfields', himage⟩ := applyPlain_submitted hsubmit c
    refine ⟨_, hsubmit, ?_⟩
    rw [hc', eq_of_sixFields (hfields'.trans hfields) himage]

end Web

end PaperNamePlate
