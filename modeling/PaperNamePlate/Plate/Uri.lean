import PaperNamePlate.Plate.Limits

/-!
# The link from one phone to the next

A phone writes a URI record, `applyNdef` stores the URI without its scheme, and
`toNdef` serves it behind the fixed code of `https://` with a one-byte length. The
reader acts on the first record. What that record says is worked out here for every
content, also where a length does not fit its byte.
-/
namespace PaperNamePlate

open Embedded Embedded.Ndef

/-! ## The first record -/

/-- A short record without an ID at the start of a message, read with the length its byte gives. -/
theorem recordAt_short {hdr l t : UInt8} {body : List UInt8} (hsr : hdr &&& 0x10 ≠ 0)
    (hil : hdr &&& 0x08 = 0) (hl : l.toNat ≤ body.length) :
    recordAt (hdr :: 0x01 :: l :: t :: body) 0 =
      some (⟨hdr &&& 0x07, [t], body.take l.toNat⟩, 4 + l.toNat) := by
  have hlt := l.toNat_lt
  have hone : (1 : UInt8).toNat = 1 := rfl
  have u3 : usizeAdd 3 1 = 4 := usizeAdd_of_lt (by omega)
  have u4 : usizeAdd 4 l.toNat = 4 + l.toNat := usizeAdd_of_lt (by omega)
  have htype : slice? (hdr :: 0x01 :: l :: t :: body) 3 4 = some [t] :=
    slice?_append [hdr, 0x01, l] [t] body 3 4 rfl rfl
  have hpay : slice? (hdr :: 0x01 :: l :: t :: body) 4 (4 + l.toNat) =
      some (body.take l.toNat) := by
    simp [slice?]; omega
  have h0 : usizeAdd 0 1 = 1 := usizeAdd_of_lt (by omega)
  have h1 : usizeAdd 1 1 = 2 := usizeAdd_of_lt (by omega)
  have h2 : usizeAdd 2 1 = 3 := usizeAdd_of_lt (by omega)
  simp [recordAt, payloadLenAt, hsr, hil, hone, h0, h1, h2, u3, u4, htype, hpay]

theorem lastHeader_cases {msg : List UInt8} {n i h : Nat} {last : Option Nat}
    (hh : lastHeader msg n i last = some h) : last = some h ∨ i ≤ h := by
  induction n generalizing i last with
  | zero => exact .inl hh
  | succ n ih =>
    unfold lastHeader at hh
    split at hh
    · split at hh
      · exact .inr (Option.some.inj hh).le
      · next next _ =>
        split at hh
        · exact .inr (Option.some.inj hh).le
        · next hgo =>
          rcases ih hh with hlast | hle
          · exact .inr (Option.some.inj hlast).le
          · exact .inr (by omega)
    · exact .inl hh

/-- The loop of `fixMeFlag` ends on the first record or behind it. -/
theorem lastHeader_first {msg : List UInt8} {r : Record} {next h : Nat}
    (hr : recordAt msg 0 = some (r, next)) (hh : lastHeader msg msg.length 0 none = some h) :
    h = 0 ∨ next ≤ h := by
  cases hlen : msg.length with
  | zero => rw [hlen] at hh; cases hh
  | succ n =>
    rw [hlen] at hh
    simp only [lastHeader, hlen, Nat.zero_lt_succ, if_true, hr] at hh
    split at hh
    · exact .inl (Option.some.inj hh).symm
    · rcases lastHeader_cases hh with hlast | hle
      · exact .inl (Option.some.inj hlast).symm
      · exact .inr hle

/-- Restoring the ME flag does not change what the first record says. -/
theorem recordAt_fixMeFlag {l t : UInt8} {body : List UInt8} (hl : l.toNat ≤ body.length) :
    recordAt (fixMeFlag (0x91 :: 0x01 :: l :: t :: body)) 0 =
      some (⟨1, [t], body.take l.toNat⟩, 4 + l.toNat) := by
  have hflags : (0x91 : UInt8) &&& 0x10 ≠ 0 ∧ (0x91 : UInt8) &&& 0x08 = 0 := by decide
  have hrec : recordAt (0x91 :: 0x01 :: l :: t :: body) 0 =
      some (⟨1, [t], body.take l.toNat⟩, 4 + l.toNat) :=
    recordAt_short hflags.1 hflags.2 hl
  unfold fixMeFlag
  split
  · next h hh =>
    rcases lastHeader_first hrec hh with rfl | hle
    · rw [List.modify_zero_cons]
      have hflags : (0x91 ||| 0x40 : UInt8) &&& 0x10 ≠ 0 ∧
          (0x91 ||| 0x40 : UInt8) &&& 0x08 = 0 := by
        decide
      exact recordAt_short hflags.1 hflags.2 hl
    · -- the flag is set behind the bytes that the first record takes up
      obtain ⟨k, rfl⟩ : ∃ k, h = k + 4 := ⟨h - 4, by omega⟩
      simp only [List.modify_succ_cons]
      rw [recordAt_short hflags.1 hflags.2 (by rwa [List.length_modify]),
        take_modify_of_le _ _ (by omega)]
      rfl
  · exact hrec

namespace PlateContent

/-- The record that `toNdef` puts first. -/
def leading (c : PlateContent) : Record := if c.url.isEmpty then c.textRecord else c.uriRecord

theorem leading_eq (c : PlateContent) : ∃ t, c.leading = ⟨1, [t], c.leading.payload⟩ := by
  by_cases hu : c.url.isEmpty = true
  · exact ⟨0x54, by simp [leading, hu, textRecord]⟩
  · exact ⟨0x55, by simp [leading, hu, uriRecord]⟩

/-- The bytes in front of an image start with the leading record and its length in one byte. -/
theorem textBytes_eq_leading (c : PlateContent) (last : Bool) {t : UInt8}
    (ht : c.leading.rtype = [t]) : ∃ tail,
      c.textBytes last = (if c.url.isEmpty ∧ last then 0x91 ||| 0x40 else 0x91) :: 0x01 ::
        UInt8.ofNat c.leading.payload.length :: t :: (c.leading.payload ++ tail) := by
  have hor : (0x11 : UInt8) ||| 0x80 = 0x91 ∧ (0x11 : UInt8) ||| 0x40 ||| 0x80 = 0x91 ||| 0x40 := by
    decide
  by_cases hu : c.url.isEmpty = true
  · obtain rfl : 0x54 = t := by simpa [leading, hu, textRecord] using ht
    have hlen : c.leading.payload.length = c.textPayload.length + 3 := by
      simp [leading, hu, textRecord]
    refine ⟨[], ?_⟩
    rw [hlen]
    cases last <;> simp [textBytes, leading, hu, textRecord, hor]
  · obtain rfl : 0x55 = t := by simpa [leading, hu, uriRecord] using ht
    have hlen : c.leading.payload.length = (utf8 c.url).length + 1 := by
      simp [leading, hu, uriRecord]
    refine ⟨[0x11 ||| (if last then 0x40 else 0), 0x01, UInt8.ofNat (c.textPayload.length + 3),
      0x54, 0x02, 0x65, 0x6E] ++ c.textPayload, ?_⟩
    rw [hlen]
    simp [textBytes, leading, hu, uriRecord, hor]

/-- What the reader finds first is the leading record, cut to what its length byte gives. -/
theorem recordAt_toNdef (c : PlateContent) :
    ∃ next, recordAt c.toNdef 0 =
      some ({ c.leading with
        payload := c.leading.payload.take (c.leading.payload.length % 2 ^ 8) }, next) := by
  obtain ⟨t, ht⟩ := c.leading_eq
  have htype : c.leading.rtype = [t] := by rw [ht]
  have hlen : (UInt8.ofNat c.leading.payload.length).toNat = c.leading.payload.length % 2 ^ 8 := by
    simp
  have hle : ∀ tail, (UInt8.ofNat c.leading.payload.length).toNat ≤
      (c.leading.payload ++ tail).length := by
    intro tail
    rw [hlen, List.length_append]
    exact (Nat.mod_le _ _).trans (Nat.le_add_right _ _)
  have htake : ∀ tail,
      (c.leading.payload ++ tail).take (UInt8.ofNat c.leading.payload.length).toNat =
      c.leading.payload.take (c.leading.payload.length % 2 ^ 8) := by
    intro tail
    rw [hlen, List.take_append_of_le_length (Nat.mod_le _ _)]
  have hcut : ({ c.leading with
      payload := c.leading.payload.take (c.leading.payload.length % 2 ^ 8) } : Record) =
        ⟨1, [t], c.leading.payload.take (c.leading.payload.length % 2 ^ 8)⟩ := by
    rw [ht]
  -- both headers have SR and TNF 1, and no IL
  have hopen : (0x91 : UInt8) &&& 0x10 ≠ 0 ∧ (0x91 : UInt8) &&& 0x08 = 0 ∧
      (0x91 : UInt8) &&& 0x07 = 1 := by decide
  have hclosed : (0x91 ||| 0x40 : UInt8) &&& 0x10 ≠ 0 ∧ (0x91 ||| 0x40 : UInt8) &&& 0x08 = 0 ∧
      (0x91 ||| 0x40 : UInt8) &&& 0x07 = 1 := by decide
  rw [hcut, toNdef_eq]
  refine ⟨4 + (UInt8.ofNat c.leading.payload.length).toNat, ?_⟩
  cases c.image with
  | none =>
    obtain ⟨tail, htail⟩ := c.textBytes_eq_leading true htype
    simp only [htail]
    split
    · rw [recordAt_short hclosed.1 hclosed.2.1 (hle tail), hclosed.2.2, htake]
    · rw [recordAt_short hopen.1 hopen.2.1 (hle tail), hopen.2.2, htake]
  | some img =>
    obtain ⟨tail, htail⟩ := c.textBytes_eq_leading false htype
    simp only [Bool.false_eq_true, and_false, if_false] at htail
    simp only [htail]
    split
    · rw [recordAt_fixMeFlag (hle tail), htake]
    · rw [withImage_eq]
      simp only [List.cons_append, List.append_assoc]
      rw [recordAt_short hopen.1 hopen.2.1 (hle _), hopen.2.2, htake]

/-! ## The URI that is served -/

def isUri (r : Record) : Bool := r.tnf = 1 ∧ r.rtype = [0x55]

/-- The bytes of the URI that a record stands for. -/
def expandUri (r : Record) : Option (List UInt8) :=
  if isUri r then
    match r.payload with
    | code :: rest => some (utf8 (uriPrefix code) ++ rest)
    | [] => none
  else none

/-- The URI that a phone gets: it acts on the first record. -/
def servedUri (msg : List UInt8) : Option (List UInt8) :=
  (recordAt msg 0).bind fun (r, _) => expandUri r

theorem uriPrefix_https : uriPrefix 0x04 = https := by decide

theorem length_utf8_https : (utf8 https).length = 8 := by decide

/-- Without a URL the first record is the text. -/
theorem servedUri_toNdef_nil {c : PlateContent} (h : c.url = []) : servedUri c.toNdef = none := by
  obtain ⟨next, hrec⟩ := c.recordAt_toNdef
  simp [servedUri, hrec, leading, h, textRecord, expandUri, isUri]

/-- A URL is served as far as its length byte goes. -/
theorem servedUri_toNdef_cut {c : PlateContent} (h : c.url ≠ []) : servedUri c.toNdef =
    expandUri ⟨1, [0x55], (0x04 :: utf8 c.url).take (((utf8 c.url).length + 1) % 2 ^ 8)⟩ := by
  obtain ⟨next, hrec⟩ := c.recordAt_toNdef
  have hlead : c.leading = c.uriRecord := by simp [leading, h]
  rw [servedUri, hrec, hlead]
  rfl

theorem expandUri_https (rest : List UInt8) :
    expandUri ⟨1, [0x55], 0x04 :: rest⟩ = some (utf8 https ++ rest) := by
  rw [← uriPrefix_https]
  rfl

theorem servedUri_toNdef_short {c : PlateContent} (hne : c.url ≠ [])
    (hfit : (utf8 c.url).length ≤ 254) : servedUri c.toNdef = some (utf8 (https ++ c.url)) := by
  have htake : (0x04 :: utf8 c.url).take ((utf8 c.url).length + 1) = 0x04 :: utf8 c.url :=
    List.take_of_length_le (by simp)
  rw [servedUri_toNdef_cut hne, Nat.mod_eq_of_lt (by omega), htake, expandUri_https, utf8_append]

/-- Of a URL that does not fit, the length byte cuts off more than the scheme adds. -/
theorem servedUri_toNdef_long {c : PlateContent} (hlong : 254 < (utf8 c.url).length)
    {uri : List UInt8} (h : servedUri c.toNdef = some uri) : uri.length < (utf8 c.url).length := by
  have hne : c.url ≠ [] := fun he => by simp [he] at hlong
  rw [servedUri_toNdef_cut hne] at h
  cases hcut : ((utf8 c.url).length + 1) % 2 ^ 8 with
  | zero =>
    rw [hcut] at h
    cases h
  | succ k =>
    rw [hcut, List.take_succ_cons, expandUri_https, Option.some.injEq] at h
    rw [← h, List.length_append, length_utf8_https, List.length_take]
    omega

/-! ## Schemes -/

/-- The URL that is stored for a URI. -/
def stripScheme (uri : Str) : Str := trimStartStr http (trimStartStr https uri)

theorem stripScheme_suffix (uri : Str) : stripScheme uri <:+ uri :=
  (trimStartStr_suffix http _).trans (trimStartStr_suffix https uri)

theorem length_utf8_stripScheme_le (uri : Str) :
    (utf8 (stripScheme uri)).length ≤ (utf8 uri).length := by
  obtain ⟨pre, hpre⟩ := stripScheme_suffix uri
  calc (utf8 (stripScheme uri)).length
      ≤ (utf8 pre).length + (utf8 (stripScheme uri)).length := Nat.le_add_left _ _
    _ = (utf8 uri).length := by rw [← List.length_append, ← utf8_append, hpre]

theorem stripScheme_https_append {url : Str} (hs : ¬ https <+: url) (h : ¬ http <+: url) :
    stripScheme (https ++ url) = url := by
  rw [stripScheme, trimStartStr_append (by decide), trimStartStr_eq_self hs, trimStartStr_eq_self h]

/-- If one `https://` gives the URI back, nothing else was stripped. -/
theorem not_prefix_of_https_stripScheme {uri : Str} (h : https ++ stripScheme uri = uri) :
    ¬ https <+: stripScheme uri ∧ ¬ http <+: stripScheme uri := by
  have heq : stripScheme uri = trimStartStr http (trimStartStr https (stripScheme uri)) := by
    rw [← trimStartStr_append (by decide : https ≠ []), h]
    rfl
  exact stripped_eq_self_iff.mp heq.symm

/-! ## From one phone to the next -/

/-- The URI is a link that the served record can say: `https://`, a rest that has no scheme of its
own, and no more than a length byte holds. -/
def Servable (uri : Str) : Prop :=
  ∃ url, uri = https ++ url ∧ url ≠ [] ∧ ¬ https <+: url ∧ ¬ http <+: url ∧ (utf8 url).length ≤ 254

theorem servedUri_toNdef_iff {c : PlateContent} {uri : Str} (h : c.url = stripScheme uri) :
    servedUri c.toNdef = some (utf8 uri) ↔ Servable uri := by
  constructor
  · intro hserved
    have hne : c.url ≠ [] := fun he => by simp [servedUri_toNdef_nil he] at hserved
    have hfit : (utf8 c.url).length ≤ 254 := by
      by_contra hlong
      have hlt := servedUri_toNdef_long (by omega) hserved
      have hle := length_utf8_stripScheme_le uri
      rw [h] at hlt
      omega
    rw [servedUri_toNdef_short hne hfit, Option.some.injEq] at hserved
    have huri : https ++ stripScheme uri = uri := h ▸ utf8_injective hserved
    obtain ⟨hs, hh⟩ := not_prefix_of_https_stripScheme huri
    exact ⟨stripScheme uri, huri.symm, h ▸ hne, hs, hh, h ▸ hfit⟩
  · rintro ⟨url, rfl, hne, hs, hh, hfit⟩
    rw [stripScheme_https_append hs hh] at h
    subst h
    exact servedUri_toNdef_short hne hfit

/-- The records that set no URL do not matter. -/
theorem lastUri_eq {msg : List UInt8} {code : UInt8} {rest : Str}
    (h : (visited msg).filter isUri = [⟨1, [0x55], code :: utf8 rest⟩]) :
    lastUri msg = some (stripScheme (uriPrefix code ++ rest)) := by
  have hfilter : (visited msg).filterMap uriOf = ((visited msg).filter isUri).filterMap uriOf := by
    rw [List.filterMap_filter]
    refine List.filterMap_congr fun r _ => ?_
    by_cases hr : isUri r = true
    · rw [if_pos hr]
    · have hno : ¬ (r.tnf = 1 ∧ r.rtype = [0x55]) := by simpa [isUri] using hr
      rw [if_neg hr, uriOf, if_neg hno]
  rw [lastUri, hfilter, h]
  simp [uriOf, stripScheme]

/-- The URI that a phone writes is the one that the next phone gets, exactly for the servable
ones. -/
theorem uri_served_iff (c : PlateContent) {msg : List UInt8} {code : UInt8} {rest : Str}
    (h : (visited msg).filter isUri = [⟨1, [0x55], code :: utf8 rest⟩]) :
    servedUri (c.applyNdef msg).toNdef = some (utf8 (uriPrefix code ++ rest)) ↔
      Servable (uriPrefix code ++ rest) := by
  refine servedUri_toNdef_iff ?_
  rw [applyNdef_url, lastUri_eq h]
  rfl

theorem uri_served_iff_demo :
    servedUri (applyNdef {} demo.toNdef).toNdef = some (utf8 (https ++ demo.url)) := by
  have h : (visited demo.toNdef).filter isUri = [⟨1, [0x55], 0x04 :: utf8 demo.url⟩] := by decide
  exact (uri_served_iff {} h).mpr
    ⟨demo.url, rfl, by decide, by decide, by decide, by decide⟩

/-- A link without TLS comes back with it. -/
theorem http_link_changed :
    ¬ ∀ (c : PlateContent) (msg : List UInt8) (code : UInt8) (rest : Str), msg.length ≤ 883 →
      code ≤ 0x06 → rest ≠ [] →
      (visited msg).filter isUri = [⟨1, [0x55], code :: utf8 rest⟩] →
      servedUri (c.applyNdef msg).toNdef = some (utf8 (uriPrefix code ++ rest)) := by
  intro h
  exact absurd (h {} (encodeMessage [⟨1, [0x55], [0x03, 0x61]⟩]) 0x03 "a".toList
    (by decide) (by decide) (by decide) (by decide)) (by decide)

end PlateContent

end PaperNamePlate
