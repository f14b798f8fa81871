import PaperNamePlate.Plate.Restore

/-!
# The plain-text form as a normal form

What a client reads as plain text and writes back goes through `applyPlain` once more.
Its lines are trimmed before a prefix is stripped, so what stood behind an '@' or a
scheme has been trimmed on one side only, and a second scheme may have come to the
front.
-/
namespace PaperNamePlate

open Embedded

namespace PlateContent

/-- The URL of a trimmed line. -/
def schemeless (l : Str) : Str := trimStartStr http (trimStartStr https l)

theorem schemeless_suffix (l : Str) : schemeless l <:+ l :=
  (trimStartStr_suffix _ _).trans (trimStartStr_suffix _ _)

theorem schemeless_eq_self_iff {u : Str} : schemeless u = u ↔ ¬ https <+: u ∧ ¬ http <+: u :=
  stripped_eq_self_iff

/-- The six lines of a plain-text form. -/
theorem split_toPlain {c : PlateContent} (h : ∀ f ∈ c.sixFields, '\n' ∉ f) :
    split '\n' c.toPlain = c.sixFields :=
  split_join '\n' c.sixFields (List.cons_ne_nil _ _) h

theorem not_mem_sixFields {a c : PlateContent} {text : Str} (h : a.applyPlain text = .ok c) :
    ∀ f ∈ c.sixFields, '\n' ∉ f := by
  intro f hf
  rcases List.mem_append.mp hf with hf | hf
  · exact (applyPlain_accepted h).lf f hf
  · rw [List.mem_singleton.mp hf, (applyPlain_eq h).1]
    exact fun hmem => not_mem_plainLines text 5 ((schemeless_suffix _).subset hmem)

theorem applyPlain_of_limits {a c : PlateContent} {text : Str}
    (hc : { a.withLines (plainLines text) with url := schemeless (nth (plainLines text) 5) } = c)
    (htext : c.textPayload.length ≤ MAX_TEXT_PAYLOAD) (hurl : (utf8 c.url).length ≤ MAX_URL_LEN) :
    a.applyPlain text = .ok c := by
  subst hc
  rw [length_textPayload] at htext
  unfold applyPlain
  dsimp only
  exact (if_neg (Nat.not_lt.mpr htext)).trans (if_neg (Nat.not_lt.mpr hurl))

/-! ## A second pass -/

/-- The fields as their lines are read again. -/
structure Settled (c : PlateContent) : Prop where
  name : trim (trimEndChar '\r' c.name) = c.name
  email : trim (trimEndChar '\r' c.email) = c.email
  github : trimStartChar '@' (trim (trimEndChar '\r' c.github)) = c.github
  x : trimStartChar '@' (trim (trimEndChar '\r' c.x)) = c.x
  note : trim (trimEndChar '\r' c.note) = c.note
  url : schemeless (trim (trimEndChar '\r' c.url)) = c.url

theorem applyPlain_toPlain_iff {a c : PlateContent} {text : Str} (h : a.applyPlain text = .ok c) :
    c.applyPlain c.toPlain = .ok c ↔ c.Settled := by
  have hlines : plainLines c.toPlain = c.sixFields.map fun l => trim (trimEndChar '\r' l) := by
    rw [plainLines, split_toPlain (not_mem_sixFields h)]
  obtain ⟨-, htext, hlimit⟩ := applyPlain_eq h
  constructor
  · intro hsame
    have hc := (applyPlain_eq hsame).1
    rw [hlines] at hc
    exact ⟨(congrArg name hc).symm, (congrArg email hc).symm, (congrArg github hc).symm,
      (congrArg x hc).symm, (congrArg note hc).symm, (congrArg url hc).symm⟩
  · rintro ⟨hname, hemail, hgithub, hx, hnote, hurl⟩
    refine applyPlain_of_limits ?_ htext hlimit
    rw [hlines]
    simp only [withLines, sixFields, textFields, nth, List.cons_append, List.nil_append,
      List.map_cons, List.map_nil, List.getD_cons_zero, List.getD_cons_succ, hname, hemail, hgithub,
      hx, hnote, hurl]

/-- A second pass changes only what stripping has brought to the front. -/
theorem settled_iff {a c : PlateContent} {text : Str} (h : a.applyPlain text = .ok c) :
    c.Settled ↔ startsWhite c.github = false ∧ startsWhite c.x = false ∧
      startsWhite c.url = false ∧ ¬ https <+: c.url := by
  have hc := (applyPlain_eq h).1
  have haccepted := applyPlain_accepted h
  have hline : ∀ i, nth (plainLines text) i <:+
      trim (trimEndChar '\r' (nth (split '\n' text) i)) :=
    fun i => nth_plainLines text i ▸ List.suffix_rfl
  have hplain : ∀ i, trim (trimEndChar '\r' (nth (plainLines text) i)) = nth (plainLines text) i :=
    fun i => (strip_trim_eq_self_iff (fun _ => List.suffix_rfl) (hline i)).mpr
      ⟨by rw [nth_plainLines]; exact startsWhite_trim _, rfl⟩
  have hgithub := strip_trim_eq_self_iff (trimStartChar_suffix '@') (f := c.github)
    (by rw [hc]; exact (trimStartChar_suffix _ _).trans (hline 2))
  have hx := strip_trim_eq_self_iff (trimStartChar_suffix '@') (f := c.x)
    (by rw [hc]; exact (trimStartChar_suffix _ _).trans (hline 3))
  have hurl := strip_trim_eq_self_iff schemeless_suffix (f := c.url)
    (by rw [hc]; exact (schemeless_suffix _).trans (hline 5))
  rw [and_iff_left haccepted.github] at hgithub
  rw [and_iff_left haccepted.x] at hx
  rw [schemeless_eq_self_iff, and_iff_left haccepted.url] at hurl
  constructor
  · intro hs
    exact ⟨hgithub.mp hs.github, hx.mp hs.x, hurl.mp hs.url⟩
  · rintro ⟨hg, hx', hu⟩
    refine ⟨?_, ?_, hgithub.mpr hg, hx.mpr hx', ?_, hurl.mpr hu⟩
    · rw [hc]; exact hplain 0
    · rw [hc]; exact hplain 1
    · rw [hc]; exact hplain 4

/-- A content read as plain text and written back unedited stays as it is exactly if no white space
follows the '@'s of its third and fourth line, and no white space or `https://` what was stripped
from its URL. -/
theorem plain_kept_iff {a c : PlateContent} {text : Str} (h : a.applyPlain text = .ok c) :
    c.applyPlain c.toPlain = .ok c ↔
      startsWhite (trimStartChar '@' (nth (plainLines text) 2)) = false ∧
        startsWhite (trimStartChar '@' (nth (plainLines text) 3)) = false ∧
          startsWhite (schemeless (nth (plainLines text) 5)) = false ∧
            ¬ https <+: schemeless (nth (plainLines text) 5) := by
  rw [applyPlain_toPlain_iff h, settled_iff h, (applyPlain_eq h).1]
  rfl

theorem plain_kept_card :
    applyPlain { name := "Kenta".toList, github := "ciniml".toList, url := "m5stack.com".toList }
      (toPlain { name := "Kenta".toList, github := "ciniml".toList, url := "m5stack.com".toList }) =
        .ok { name := "Kenta".toList, github := "ciniml".toList, url := "m5stack.com".toList } := by
  have h : applyPlain {} " Kenta\r\n\n@ciniml\n\n\nhttps://m5stack.com".toList =
      .ok { name := "Kenta".toList, github := "ciniml".toList, url := "m5stack.com".toList } := by
    decide
  exact (plain_kept_iff h).mpr (by decide)

/-- White space behind an '@' is kept by the first pass and trimmed by the second. -/
theorem spaced_handle_changed : ¬ ∀ (a c : PlateContent) (text : Str), a.applyPlain text = .ok c →
    ∃ c', c.applyPlain c.toPlain = .ok c' ∧ c'.sixFields = c.sixFields := by
  intro h
  obtain ⟨c', hc', hsame⟩ := h {} { github := " ciniml".toList } "\n\n@ ciniml".toList (by decide)
  have hsecond : applyPlain { github := " ciniml".toList }
      (toPlain { github := " ciniml".toList }) =
      .ok { github := "ciniml".toList } := by
    decide
  rw [hsecond] at hc'
  cases hc'
  exact absurd hsame (by decide)

end PlateContent

end PaperNamePlate
