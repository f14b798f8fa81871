import PaperNamePlate.Plate.Render

/-!
# Contents that survive a start-up

A start-up applies the saved message to the demo content. A content comes back as it was if
its fields keep clear of the separators and its URL is there and has no scheme. The images
of messages are small, for a message has to fit the tag or its region of the flash.
-/
namespace PaperNamePlate

open Embedded Embedded.Ndef

namespace PlateContent

/-- Saving the text as a message and restoring it over the demo content gives it back. -/
structure Restorable (c : PlateContent) : Prop where
  semicolon : ∀ f ∈ c.textFields, ';' ∉ f
  lf : ∀ f ∈ c.textFields, '\n' ∉ f
  /-- Only the last line may end in CR. -/
  cr : ∀ f ∈ c.textFields.dropLast, f.getLast? ≠ some '\r'
  github : trimStartChar '@' c.github = c.github
  x : trimStartChar '@' c.x = c.x
  url_ne : c.url ≠ []
  not_http : ¬ http <+: c.url
  not_https : ¬ https <+: c.url
  short : c.FitsShort

theorem Restorable.congr {c c' : PlateContent} (h : c.Restorable)
    (htext : c'.textFields = c.textFields) (hurl : c'.url = c.url) : c'.Restorable := by
  have hfields := htext
  simp only [textFields, List.cons.injEq, and_true] at hfields
  obtain ⟨-, -, hgithub, hx, -⟩ := hfields
  refine ⟨htext ▸ h.semicolon, htext ▸ h.lf, htext ▸ h.cr, hgithub ▸ h.github, hx ▸ h.x,
    hurl ▸ h.url_ne, hurl ▸ h.not_http, hurl ▸ h.not_https, hurl ▸ h.short.url, ?_⟩
  rw [textPayload, htext]
  exact h.short.text

/-- What comes back of a restorable content, up to the image. -/
theorem Restorable.applyNdef {c : PlateContent} (h : c.Restorable) (a : PlateContent) :
    ∃ image, a.applyNdef c.toNdef = { c with image } := by
  obtain ⟨image, himage⟩ := applyNdef_toNdef_text a c h.short
  have hlines := nth_storedLines h.lf h.cr h.semicolon
  have hurl : trimStartStr http (trimStartStr https c.url) = c.url :=
    stripped_eq_self_iff.mpr ⟨h.not_https, h.not_http⟩
  have hne : c.url.isEmpty = false := by simpa using h.url_ne
  refine ⟨image, ?_⟩
  rw [himage, hurl, hne]
  simp only [withLines, hlines]
  simp only [textFields, nth, List.getD_cons_zero, List.getD_cons_succ, h.github, h.x]
  rfl

/-- A message without an image leaves the image as it is. -/
theorem applyNdef_toNdef_image {c : PlateContent} (hshort : c.FitsShort) (himage : c.image = none)
    (a : PlateContent) : (a.applyNdef c.toNdef).image = a.image := by
  have hcarried : c.carriedImage = none := by rw [carriedImage, himage]; rfl
  have htext : ∀ r ∈ c.records, ∀ b : PlateContent, (b.applyRecord r).image = b.image := by
    intro r hr b
    have himageOf : imageOf r = none := by
      rw [records, hcarried] at hr
      simp only [Option.toList_none, List.map_nil, List.append_nil] at hr
      rcases List.mem_append.mp hr with hr | hr
      · split at hr
        · exact absurd hr List.not_mem_nil
        · rw [List.mem_singleton.mp hr]
          rfl
      · rw [List.mem_singleton.mp hr]
        rfl
    rw [applyRecord_image, himageOf, Option.none_or]
  rw [applyNdef_toNdef a c hshort]
  generalize c.records = rs at htext
  induction rs generalizing a with
  | nil => rfl
  | cons r rs ih =>
    rw [List.foldl_cons, ih (a.applyRecord r) fun r' hr' => htext r' (List.mem_cons_of_mem _ hr')]
    exact htext r List.mem_cons_self a

end PlateContent

/-! ## Images of messages -/

theorem length_b64Loop {s out : List UInt8} {acc : UInt32} {n : Nat} {bs : List UInt8}
    (h : b64Loop s out acc n = some bs) : bs.length ≤ out.length + s.length + n := by
  induction s generalizing out acc n with
  | nil =>
    unfold b64Loop at h
    split at h
    all_goals first
      | (cases h; simp)
      | cases h
  | cons c s ih =>
    unfold b64Loop at h
    split at h
    · have hrest := ih h
      rw [List.length_cons]
      omega
    · cases hv : b64Val c with
      | none =>
        rw [hv] at h
        cases h
      | some v =>
        rw [hv] at h
        dsimp only at h
        split at h <;>
        · have hrest := ih h
          simp only [List.length_cons, List.length_append, List.length_nil] at hrest ⊢
          omega

theorem length_payload_recordAt {msg : List UInt8} {i next : Nat} {r : Record}
    (h : recordAt msg i = some (r, next)) : r.payload.length ≤ msg.length := by
  have htail : ∀ {p typeLen payloadLen : Nat} {tnf : UInt8},
      (do
        let rtype ← slice? msg p (usizeAdd p typeLen)
        let payload ← slice? msg (usizeAdd p typeLen) (usizeAdd (usizeAdd p typeLen) payloadLen)
        some (({ tnf, rtype, payload } : Record), usizeAdd (usizeAdd p typeLen) payloadLen)) =
          some (r, next) → r.payload.length ≤ msg.length := by
    intro p typeLen payloadLen tnf h
    obtain ⟨_, -, h⟩ := Option.bind_eq_some_iff.mp h
    obtain ⟨payload, hpayload, heq⟩ := Option.bind_eq_some_iff.mp h
    obtain ⟨-, -, rfl⟩ := slice?_eq_some hpayload
    cases heq
    simp only [List.length_take, List.length_drop]
    omega
  unfold recordAt at h
  obtain ⟨_, -, h⟩ := Option.bind_eq_some_iff.mp h
  obtain ⟨_, -, h⟩ := Option.bind_eq_some_iff.mp h
  obtain ⟨⟨payloadLen, p⟩, -, h⟩ := Option.bind_eq_some_iff.mp h
  dsimp only at h
  -- an ID only moves the offset
  split at h
  · obtain ⟨_, -, h⟩ := Option.bind_eq_some_iff.mp h
    exact htail h
  · exact htail h

theorem length_payload_visitedFrom {msg : List UInt8} {n i : Nat} {r : Record}
    (h : r ∈ visitedFrom msg n i) : r.payload.length ≤ msg.length := by
  induction n generalizing i with
  | zero => exact absurd h List.not_mem_nil
  | succ n ih =>
    unfold visitedFrom at h
    cases hrec : recordAt msg i with
    | none =>
      rw [hrec] at h
      exact absurd h List.not_mem_nil
    | some q =>
      obtain ⟨r', next⟩ := q
      have hfirst := length_payload_recordAt hrec
      simp only [hrec] at h
      split at h
      · rwa [List.mem_singleton.mp h]
      · rcases List.mem_cons.mp h with rfl | h
        · exact hfirst
        · exact ih h

namespace PlateContent

theorem length_bits_decode {payload : List UInt8} {img : MonoImage}
    (h : MonoImage.decode payload = some img) : img.bits.length ≤ payload.length := by
  unfold MonoImage.decode at h
  split at h
  · dsimp only at h
    split at h
    · cases h
    · obtain ⟨bits, hslice, rfl⟩ := Option.map_eq_some_iff.mp h
      obtain ⟨-, -, rfl⟩ := slice?_eq_some hslice
      rw [List.length_take, List.length_drop]
      omega
  · cases h

/-- An image that comes in a message is no longer than it. -/
theorem length_lastPicture {msg : List UInt8} {img : MonoImage} (h : lastPicture msg = some img) :
    img.bits.length ≤ msg.length := by
  obtain ⟨r, hr, himage⟩ := List.mem_filterMap.mp (List.mem_of_getLast? h)
  have hpayload := length_payload_visitedFrom hr
  unfold imageOf at himage
  split at himage
  · obtain ⟨payload, hraw, hdecode⟩ := Option.bind_eq_some_iff.mp himage
    have hbits := length_bits_decode hdecode
    split at hraw
    · have hlen := length_b64Loop hraw
      rw [List.length_drop, List.length_nil] at hlen
      omega
    · cases hraw
      omega
  · cases himage

end PlateContent

end PaperNamePlate
