import Mathlib.Data.List.DropRight
import Mathlib.Tactic.Common

/-!
# Text as sequences of Unicode scalar values

A Rust `str` is a valid UTF-8 byte string, hence the encoding of exactly one
sequence of scalar values; it is modelled by that sequence. `utf8` gives its
bytes back, `lossy` is `String::from_utf8_lossy`, and the splitting and trimming
functions are those of `str`.
-/
namespace Embedded

abbrev Str := List Char

/-- `s.as_bytes()`. -/
def utf8 (s : Str) : List UInt8 := s.flatMap String.utf8EncodeChar

@[simp] theorem utf8_nil : utf8 [] = [] := rfl
@[simp] theorem utf8_cons (c : Char) (s : Str) :
    utf8 (c :: s) = String.utf8EncodeChar c ++ utf8 s := rfl
@[simp] theorem utf8_append (s t : Str) : utf8 (s ++ t) = utf8 s ++ utf8 t := by
  simp [utf8]

theorem utf8_eq_nil {s : Str} : utf8 s = [] ↔ s = [] := by
  cases s with
  | nil => simp
  | cons c s =>
    have : 0 < (String.utf8EncodeChar c).length := by
      rw [String.length_utf8EncodeChar]; exact c.utf8Size_pos
    simp only [utf8_cons, List.append_eq_nil_iff, reduceCtorEq, iff_false, not_and]
    intro h; simp [h] at this

/-! ## Lossy decoding -/

/-- U+FFFD. -/
def replacement : Char := '\uFFFD'

/-- A continuation byte. -/
def isCont (b : UInt8) : Bool := 0x80 ≤ b && b ≤ 0xBF

/-- The second bytes that may follow the lead byte `b` of a sequence of three or four bytes. -/
def secondOk (b c : UInt8) : Bool :=
  if b = 0xE0 then 0xA0 ≤ c && c ≤ 0xBF
  else if b = 0xED then 0x80 ≤ c && c ≤ 0x9F
  else if b = 0xF0 then 0x90 ≤ c && c ≤ 0xBF
  else if b = 0xF4 then 0x80 ≤ c && c ≤ 0x8F
  else isCont c

/-- The length of the ill-formed sequence in front of `bs`, which no character starts:
its lead byte and the continuation bytes that could still have completed it. -/
def brokenLen : List UInt8 → Nat
  | b :: c :: rest =>
    if 0xE0 ≤ b ∧ b ≤ 0xEF then if secondOk b c then 2 else 1
    else if 0xF0 ≤ b ∧ b ≤ 0xF4 then
      if secondOk b c then
        match rest with
        | d :: _ => if isCont d then 3 else 2
        | [] => 2
      else 1
    else 1
  | _ => 1

/-- The next character that `from_utf8_lossy` puts out, and the number of bytes it stands for. -/
def lossyStep (bs : List UInt8) : Char × Nat :=
  match bs.toByteArray.utf8DecodeChar? 0 with
  | some c => (c, c.utf8Size)
  | none => (replacement, brokenLen bs)

theorem lossyStep_pos (bs : List UInt8) : 0 < (lossyStep bs).2 := by
  unfold lossyStep
  split
  · next c _ => exact c.utf8Size_pos
  · unfold brokenLen
    repeat' split
    all_goals decide

def lossyLoop : Nat → List UInt8 → Str
  | 0, _ => []
  | _ + 1, [] => []
  | n + 1, b :: bs =>
    (lossyStep (b :: bs)).1 :: lossyLoop n ((b :: bs).drop (lossyStep (b :: bs)).2)

/-- `String::from_utf8_lossy(bs)`. -/
def lossy (bs : List UInt8) : Str := lossyLoop bs.length bs

theorem lossyLoop_eq {n : Nat} {bs : List UInt8} (h : bs.length ≤ n) :
    lossyLoop n bs = lossy bs := by
  induction n using Nat.strong_induction_on generalizing bs with
  | _ n ih =>
    match n, bs with
    | 0, [] => rfl
    | n + 1, [] => rfl
    | n + 1, b :: bs =>
      have hpos := lossyStep_pos (b :: bs)
      have hdrop : ((b :: bs).drop (lossyStep (b :: bs)).2).length ≤ bs.length := by
        simp; omega
      simp only [List.length_cons] at h
      simp only [lossy, List.length_cons, lossyLoop]
      rw [ih n (by omega) (hdrop.trans (by omega))]
      by_cases hn : bs.length = n
      · rw [hn, ih n (by omega) (hdrop.trans (by omega))]
      · rw [ih bs.length (by omega) hdrop]

@[simp] theorem lossy_nil : lossy [] = [] := rfl

theorem lossy_of_ne_nil {bs : List UInt8} (h : bs ≠ []) :
    lossy bs = (lossyStep bs).1 :: lossy (bs.drop (lossyStep bs).2) := by
  match bs with
  | b :: bs =>
    have hpos := lossyStep_pos (b :: bs)
    rw [lossy, List.length_cons, lossyLoop, lossyLoop_eq (by simp; omega)]

theorem lossyStep_utf8EncodeChar (c : Char) (bs : List UInt8) :
    lossyStep (String.utf8EncodeChar c ++ bs) = (c, c.utf8Size) := by
  have h : (String.utf8EncodeChar c ++ bs).toByteArray.utf8DecodeChar? 0 = some c := by
    rw [List.toByteArray_append]
    exact ByteArray.utf8DecodeChar?_utf8EncodeChar_append
  rw [lossyStep, h]

/-- Decoding gives a text back, whatever bytes follow it. -/
theorem lossy_utf8_append (s : Str) (bs : List UInt8) : lossy (utf8 s ++ bs) = s ++ lossy bs := by
  induction s with
  | nil => rfl
  | cons c s ih =>
    have hlen : (String.utf8EncodeChar c).length = c.utf8Size := String.length_utf8EncodeChar c
    have hne : utf8 (c :: s) ++ bs ≠ [] := by simp [utf8_eq_nil, -utf8_cons]
    have hdrop : (String.utf8EncodeChar c ++ (utf8 s ++ bs)).drop c.utf8Size = utf8 s ++ bs := by
      rw [← hlen, List.drop_left]
    rw [lossy_of_ne_nil hne, utf8_cons, List.append_assoc, lossyStep_utf8EncodeChar]
    rw [hdrop, ih, List.cons_append]

@[simp] theorem lossy_utf8 (s : Str) : lossy (utf8 s) = s := by
  simpa using lossy_utf8_append s []

theorem utf8_injective : Function.Injective utf8 :=
  Function.LeftInverse.injective lossy_utf8

/-! ## Trimming -/

/-- The Unicode property `White_Space`, `char::is_whitespace`. -/
def isWhite (c : Char) : Bool :=
  let n := c.toNat
  (9 ≤ n && n ≤ 13) || n == 0x20 || n == 0x85 || n == 0xA0 || n == 0x1680 ||
    (0x2000 ≤ n && n ≤ 0x200A) || n == 0x2028 || n == 0x2029 || n == 0x202F || n == 0x205F ||
    n == 0x3000

/-- `s.trim()`. -/
def trim (s : Str) : Str := (s.dropWhile isWhite).rdropWhile isWhite

/-- `s.trim_start_matches(c)`. -/
def trimStartChar (c : Char) (s : Str) : Str := s.dropWhile (· == c)

/-- `s.trim_end_matches(c)`. -/
def trimEndChar (c : Char) (s : Str) : Str := s.rdropWhile (· == c)

def trimStartLoop (pat : Str) : Nat → Str → Str
  | 0, s => s
  | n + 1, s => if pat.isPrefixOf s then trimStartLoop pat n (s.drop pat.length) else s

/-- `s.trim_start_matches(pat)` for a string `pat`. -/
def trimStartStr (pat s : Str) : Str := trimStartLoop pat s.length s

theorem trimStartLoop_nil {pat : Str} (hp : pat ≠ []) (n : Nat) : trimStartLoop pat n [] = [] := by
  cases n with
  | zero => rfl
  | succ n =>
    cases pat with
    | nil => exact absurd rfl hp
    | cons p pat => rfl

theorem trimStartLoop_eq {pat : Str} (hp : pat ≠ []) {n : Nat} {s : Str} (h : s.length ≤ n) :
    trimStartLoop pat n s = trimStartStr pat s := by
  have hpos : 0 < pat.length := List.length_pos_iff.mpr hp
  induction n using Nat.strong_induction_on generalizing s with
  | _ n ih =>
    match n, s with
    | n, [] => rw [trimStartLoop_nil hp, trimStartStr, trimStartLoop_nil hp]
    | n + 1, c :: s =>
      have hdrop : ((c :: s).drop pat.length).length ≤ s.length := by simp; omega
      simp only [List.length_cons] at h
      simp only [trimStartStr, List.length_cons, trimStartLoop]
      split
      · rw [ih n (by omega) (hdrop.trans (by omega))]
        by_cases hn : s.length = n
        · rw [hn, ih n (by omega) (hdrop.trans (by omega))]
        · rw [ih s.length (by omega) hdrop]
      · rfl

theorem trimStartStr_append {pat : Str} (hp : pat ≠ []) (s : Str) :
    trimStartStr pat (pat ++ s) = trimStartStr pat s := by
  have hpos : 0 < pat.length := List.length_pos_iff.mpr hp
  obtain ⟨n, hn⟩ : ∃ n, (pat ++ s).length = n + 1 := ⟨(pat ++ s).length - 1, by simp; omega⟩
  have hpre : pat.isPrefixOf (pat ++ s) = true := by simp
  rw [trimStartStr, hn, trimStartLoop, if_pos hpre, List.drop_left]
  exact trimStartLoop_eq hp (by simp at hn; omega)

theorem trimStartStr_eq_self {pat s : Str} (h : ¬ pat <+: s) : trimStartStr pat s = s := by
  unfold trimStartStr
  cases s with
  | nil => rfl
  | cons c s =>
    have : pat.isPrefixOf (c :: s) = false := by
      rw [Bool.eq_false_iff]; exact fun hp => h (List.isPrefixOf_iff_prefix.mp hp)
    simp [trimStartLoop, this]

/-- Nothing is left to strip. -/
theorem not_prefix_trimStartStr {pat : Str} (hp : pat ≠ []) (s : Str) :
    ¬ pat <+: trimStartStr pat s := by
  induction hn : s.length using Nat.strong_induction_on generalizing s with
  | _ n ih =>
    by_cases h : pat <+: s
    · obtain ⟨t, rfl⟩ := h
      have hpos : 0 < pat.length := List.length_pos_iff.mpr hp
      rw [trimStartStr_append hp]
      exact ih t.length (by simp at hn; omega) t rfl
    · rwa [trimStartStr_eq_self h]

theorem trimStartStr_suffix (pat s : Str) : trimStartStr pat s <:+ s := by
  unfold trimStartStr
  generalize s.length = n
  induction n generalizing s with
  | zero => exact List.suffix_rfl
  | succ n ih =>
    unfold trimStartLoop
    split
    · exact (ih _).trans (List.drop_suffix _ _)
    · exact List.suffix_rfl

/-- Stripping a prefix makes a text that starts with it shorter. -/
theorem trimStartStr_ne_of_prefix {pat s : Str} (hp : pat ≠ []) (h : pat <+: s) :
    (trimStartStr pat s).length < s.length := by
  obtain ⟨t, rfl⟩ := h
  have hpos : 0 < pat.length := List.length_pos_iff.mpr hp
  have := (trimStartStr_suffix pat t).length_le
  rw [trimStartStr_append hp, List.length_append]
  omega

theorem trimStartStr_eq_self_iff {pat s : Str} (hp : pat ≠ []) :
    trimStartStr pat s = s ↔ ¬ pat <+: s := by
  refine ⟨fun h hpre => ?_, trimStartStr_eq_self⟩
  have hlt := trimStartStr_ne_of_prefix hp hpre
  rw [h] at hlt
  exact Nat.lt_irrefl _ hlt

theorem trim_sublist (s : Str) : (trim s).Sublist s :=
  (List.rdropWhile_prefix _ _).sublist.trans (List.dropWhile_sublist _)

theorem getLast?_trim_ne {c : Char} (hc : isWhite c) (s : Str) : (trim s).getLast? ≠ some c := by
  intro h
  have hne : trim s ≠ [] := fun hnil => by simp [hnil] at h
  have hlast : (trim s).getLast hne = c := by simpa [List.getLast?_eq_getLast_of_ne_nil hne] using h
  have := List.rdropWhile_last_not isWhite (s.dropWhile isWhite) hne
  exact this (hlast ▸ hc)

theorem trimStartChar_suffix (c : Char) (s : Str) : trimStartChar c s <:+ s :=
  List.dropWhile_suffix _

theorem trimEndChar_isPrefix (c : Char) (s : Str) : trimEndChar c s <+: s :=
  List.rdropWhile_prefix _ _

/-- What is left has no `c` in front, so it is stripped no further. -/
theorem trimStartChar_idem (c : Char) (s : Str) :
    trimStartChar c (trimStartChar c s) = trimStartChar c s :=
  List.dropWhile_idempotent _ _

/-- Trimming removes no other characters. -/
theorem mem_dropWhile_iff {p : Char → Bool} {x : Char} (hx : p x = false) (s : Str) :
    x ∈ s.dropWhile p ↔ x ∈ s := by
  induction s with
  | nil => rfl
  | cons y s ih =>
    by_cases hy : p y = true
    · have hne : x ≠ y := by rintro rfl; simp [hx] at hy
      rw [List.dropWhile_cons_of_pos hy, ih, List.mem_cons, or_iff_right hne]
    · rw [List.dropWhile_cons_of_neg hy]

theorem mem_rdropWhile_iff {p : Char → Bool} {x : Char} (hx : p x = false) (s : Str) :
    x ∈ s.rdropWhile p ↔ x ∈ s := by
  rw [List.rdropWhile, List.mem_reverse, mem_dropWhile_iff hx, List.mem_reverse]

theorem mem_trim_iff {x : Char} (hx : isWhite x = false) (s : Str) : x ∈ trim s ↔ x ∈ s := by
  rw [trim, mem_rdropWhile_iff hx, mem_dropWhile_iff hx]

/-- A suffix has the last character of the text or is empty. -/
theorem getLast?_ne_of_suffix {s t : Str} {c : Char} (h : s <:+ t) (ht : t.getLast? ≠ some c) :
    s.getLast? ≠ some c := by
  obtain ⟨u, rfl⟩ := h
  intro hs
  exact ht (by rw [List.getLast?_append, hs]; rfl)

/-- White space comes first. -/
def startsWhite (s : Str) : Bool := s.head?.any isWhite

theorem dropWhile_of_not_startsWhite {s : Str} (h : startsWhite s = false) :
    s.dropWhile isWhite = s := by
  cases s with
  | nil => rfl
  | cons c s => exact List.dropWhile_cons_of_neg (by simpa [startsWhite] using h)

theorem length_dropWhile_of_startsWhite {s : Str} (h : startsWhite s = true) :
    (s.dropWhile isWhite).length < s.length := by
  cases s with
  | nil => cases h
  | cons c s =>
    rw [List.dropWhile_cons_of_pos (by simpa [startsWhite] using h)]
    exact Nat.lt_succ_of_le (List.dropWhile_suffix _).length_le

theorem startsWhite_trim (s : Str) : startsWhite (trim s) = false := by
  cases htrim : trim s with
  | nil => rfl
  | cons c t =>
    obtain ⟨u, hu⟩ := List.rdropWhile_prefix isWhite (s.dropWhile isWhite)
    have hhead : (s.dropWhile isWhite).head? = some c := by
      rw [← hu, show (s.dropWhile isWhite).rdropWhile isWhite = c :: t from htrim]
      rfl
    have hnot := List.head?_dropWhile_not isWhite s
    rw [hhead] at hnot
    simpa [startsWhite] using hnot

/-- At the end of a trimmed text there is nothing to trim. -/
theorem rdropWhile_of_suffix_trim {f s : Str} (h : f <:+ trim s) {p : Char → Bool}
    (hp : ∀ c, p c = true → isWhite c = true) : f.rdropWhile p = f := by
  rw [List.rdropWhile_eq_self_iff]
  intro hne hlast
  refine getLast?_ne_of_suffix h (getLast?_trim_ne (hp _ hlast) s) ?_
  exact List.getLast?_eq_some_getLast hne

/-- Where `strip` only cuts from the front, another pass over the end of a trimmed text changes
nothing exactly if there is nothing to trim in front and nothing to strip. -/
theorem strip_trim_eq_self_iff {strip : Str → Str} (hstrip : ∀ s, strip s <:+ s) {f s : Str}
    (h : f <:+ trim s) :
    strip (trim (trimEndChar '\r' f)) = f ↔ startsWhite f = false ∧ strip f = f := by
  have hcr : trimEndChar '\r' f = f := by
    refine rdropWhile_of_suffix_trim h fun c hc => ?_
    rw [beq_iff_eq.mp hc]
    rfl
  have htrim : trim f = f.dropWhile isWhite :=
    rdropWhile_of_suffix_trim ((List.dropWhile_suffix _).trans h) fun _ => id
  rw [hcr, htrim]
  cases hw : startsWhite f with
  | false => simp [dropWhile_of_not_startsWhite hw]
  | true =>
    refine iff_of_false (fun heq => ?_) (by simp)
    have hshort := length_dropWhile_of_startsWhite hw
    have hle := (hstrip (f.dropWhile isWhite)).length_le
    rw [heq] at hle
    omega

/-! ## Passes that only take characters away -/

/-- Where two passes only take characters away, together they leave a text alone exactly if both
do. -/
theorem comp_eq_self_iff {f g : Str → Str} (hf : ∀ s, (f s).Sublist s) (hg : ∀ s, (g s).Sublist s)
    (s : Str) : f (g s) = s ↔ g s = s ∧ f s = s := by
  constructor
  · intro h
    have hgs : g s = s := by
      apply (hg s).eq_of_length_le
      calc s.length = (f (g s)).length := by rw [h]
        _ ≤ (g s).length := (hf (g s)).length_le
    exact ⟨hgs, by rwa [hgs] at h⟩
  · rintro ⟨hgs, hfs⟩
    rw [hgs, hfs]

theorem length_utf8_le {s t : Str} (h : s.Sublist t) : (utf8 s).length ≤ (utf8 t).length := by
  induction h with
  | slnil => exact le_rfl
  | cons c _ ih =>
    rw [utf8_cons, List.length_append]
    omega
  | cons_cons c _ ih =>
    rw [utf8_cons, utf8_cons, List.length_append, List.length_append]
    omega

theorem dropWhile_eq_self_iff' {p : Char → Bool} {s : Str} :
    s.dropWhile p = s ↔ ∀ c ∈ s.head?, p c = false := by
  cases s with
  | nil => simp
  | cons c s =>
    by_cases hc : p c = true
    · refine iff_of_false (fun h => ?_) (by simp [hc])
      rw [List.dropWhile_cons_of_pos hc] at h
      have hle := (List.dropWhile_suffix (l := s) p).length_le
      rw [h, List.length_cons] at hle
      omega
    · rw [List.dropWhile_cons_of_neg hc]
      simpa using hc

theorem rdropWhile_eq_self_iff' {p : Char → Bool} {s : Str} :
    s.rdropWhile p = s ↔ ∀ c ∈ s.getLast?, p c = false := by
  rw [List.rdropWhile_eq_self_iff]
  constructor
  · intro h c hc
    obtain ⟨hne, rfl⟩ := List.mem_getLast?_eq_getLast hc
    simpa using h hne
  · intro h hne
    simpa using h _ (List.getLast?_eq_some_getLast hne)

/-- Trimming both ends leaves a text alone exactly if neither end is to be trimmed. -/
theorem trimBoth_eq_self_iff {p : Char → Bool} {s : Str} :
    (s.dropWhile p).rdropWhile p = s ↔
      (∀ c ∈ s.head?, p c = false) ∧ ∀ c ∈ s.getLast?, p c = false := by
  rw [comp_eq_self_iff (f := List.rdropWhile p) (g := List.dropWhile p)
    (fun s => (List.rdropWhile_prefix _ _).sublist) (fun s => List.dropWhile_sublist _),
    dropWhile_eq_self_iff', rdropWhile_eq_self_iff']

/-- Trimming the end stops at a text that does not end in such a character. -/
theorem rdropWhile_append_of_last {p : Char → Bool} {s : Str} (hs : ∀ c ∈ s.getLast?, p c = false)
    (t : Str) : (s ++ t).rdropWhile p = s ++ t.rdropWhile p := by
  induction t using List.reverseRecOn with
  | nil =>
    rw [List.append_nil, List.rdropWhile_nil, List.append_nil, List.rdropWhile_eq_self_iff]
    intro hne hlast
    have := hs _ (List.getLast?_eq_some_getLast hne)
    simp [hlast] at this
  | append_singleton t c ih =>
    rw [← List.append_assoc]
    by_cases hc : p c = true
    · rw [List.rdropWhile_concat_pos _ _ _ hc, List.rdropWhile_concat_pos _ _ _ hc, ih]
    · rw [List.rdropWhile_concat_neg _ _ _ hc, List.rdropWhile_concat_neg _ _ _ hc,
        List.append_assoc]

/-! ## Lines -/

/-- `s.split(c)`. -/
def split (c : Char) (s : Str) : List Str := s.splitOn c

/-- The text of a line without the `\r` of a `\r\n` ending. -/
def stripCr (l : Str) : Str := if l.getLast? = some '\r' then l.dropLast else l

/-- `s.lines()`: only a line that a line feed ends loses its `\r`, and the text after the last
line feed is a line when it is not empty. -/
def lines (s : Str) : List Str :=
  let parts := split '\n' s
  (parts.dropLast.map stripCr) ++ (if parts.getLast? = some [] then [] else parts.getLast?.toList)

/-- The `i`-th `next().unwrap_or("")` of an iterator over `ls`. -/
def nth (ls : List Str) (i : Nat) : Str := ls.getD i []

/-- `s.replace(c, d)` for single characters. -/
def replaceChar (c d : Char) (s : Str) : Str := s.map fun x => if x = c then d else x

theorem not_mem_replaceChar {c d : Char} (hcd : c ≠ d) (s : Str) : c ∉ replaceChar c d s := by
  intro h
  obtain ⟨x, -, hx⟩ := List.mem_map.mp h
  split at hx
  · exact hcd hx.symm
  · next hne => exact hne hx

theorem replaceChar_of_not_mem {c d : Char} {s : Str} (h : c ∉ s) : replaceChar c d s = s := by
  conv_rhs => rw [← List.map_id s]
  exact List.map_congr_left fun x hx => if_neg (by rintro rfl; exact h hx)

/-- Texts joined with a separator between them. -/
def join (c : Char) (ls : List Str) : Str := [c].intercalate ls

theorem not_mem_of_mem_split {c : Char} {s l : Str} (h : l ∈ split c s) : c ∉ l := by
  induction s generalizing l with
  | nil => simp_all [split, List.splitOn]
  | cons x s ih =>
    have ih' : ∀ l ∈ s.splitOnP (· == c), c ∉ l := fun l hl => ih hl
    rw [split, List.splitOn, List.splitOnP_cons_eq_if_modifyHead] at h
    split at h
    · rcases List.mem_cons.mp h with rfl | h
      · simp
      · exact ih' l h
    · next hx =>
      obtain ⟨hd, tl, htl⟩ := List.exists_cons_of_ne_nil (List.splitOnP_ne_nil (· == c) s)
      rw [htl] at h ih'
      rcases List.mem_cons.mp h with rfl | h
      · have : x ≠ c := by simpa using hx
        simpa [this.symm] using ih' hd (by simp)
      · exact ih' l (by simp [h])

theorem nth_eq_nil_or_mem (ls : List Str) (i : Nat) : nth ls i = [] ∨ nth ls i ∈ ls := by
  unfold nth
  by_cases h : i < ls.length
  · exact .inr (by simp [List.getD_eq_getElem?_getD, h])
  · exact .inl (by simp [List.getD_eq_getElem?_getD, List.getElem?_eq_none (Nat.le_of_not_lt h)])

theorem mem_join_iff {c x : Char} (hx : x ≠ c) (ls : List Str) :
    x ∈ join c ls ↔ ∃ l ∈ ls, x ∈ l := by
  induction ls with
  | nil => simp [join]
  | cons l ls ih =>
    cases ls with
    | nil => simp [join]
    | cons l' ls =>
      have hcons : join c (l :: l' :: ls) = l ++ [c] ++ join c (l' :: ls) := by
        simp [join, List.intercalate_cons_cons]
      rw [hcons, List.mem_append, List.mem_append, ih, List.mem_singleton, or_iff_left hx]
      simp

theorem mem_of_mem_split {c x : Char} {s l : Str} (hl : l ∈ split c s) (hx : x ∈ l) : x ∈ s := by
  have hxc : x ≠ c := by rintro rfl; exact not_mem_of_mem_split hl hx
  have := (mem_join_iff hxc (split c s)).mpr ⟨l, hl, hx⟩
  rwa [join, split, List.intercalate_splitOn] at this

theorem mem_of_mem_lines {s l : Str} {x : Char} (hl : l ∈ lines s) (hx : x ∈ l) : x ∈ s := by
  have hlast : ∀ o ∈ (split '\n' s).getLast?, o ∈ split '\n' s := fun o ho =>
    List.mem_of_getLast? ho
  rcases List.mem_append.mp hl with hl | hl
  · obtain ⟨l', hl', rfl⟩ := List.mem_map.mp hl
    have hx' : x ∈ l' := by
      unfold stripCr at hx
      split at hx
      · exact (List.dropLast_sublist _).subset hx
      · exact hx
    exact mem_of_mem_split ((List.dropLast_sublist _).subset hl') hx'
  · split at hl
    · cases hl
    · exact mem_of_mem_split (hlast l (Option.mem_toList.mp hl)) hx

theorem split_join (c : Char) (ls : List Str) (hne : ls ≠ []) (h : ∀ l ∈ ls, c ∉ l) :
    split c (join c ls) = ls :=
  List.splitOn_intercalate c h hne

/-- A missing text counts as empty. -/
theorem nth_concat_nil (ls : List Str) (i : Nat) : nth (ls ++ [[]]) i = nth ls i := by
  unfold nth
  rw [List.getD_eq_getElem?_getD, List.getD_eq_getElem?_getD]
  by_cases h : i < ls.length
  · rw [List.getElem?_append_left h]
  · rw [List.getElem?_append_right (by omega), List.getElem?_eq_none (Nat.le_of_not_lt h)]
    cases i - ls.length <;> rfl

/-- The lines of joined texts are these texts, up to a last one that is empty. -/
theorem nth_lines_join (ls : List Str) (hne : ls ≠ []) (hnl : ∀ l ∈ ls, '\n' ∉ l)
    (hcr : ∀ l ∈ ls.dropLast, l.getLast? ≠ some '\r') (i : Nat) :
    nth (lines (join '\n' ls)) i = nth ls i := by
  obtain ⟨init, last, rfl⟩ : ∃ init last, ls = init ++ [last] :=
    ⟨ls.dropLast, ls.getLast hne, (List.dropLast_append_getLast hne).symm⟩
  have hinit : init.map stripCr = init := by
    conv_rhs => rw [← List.map_id init]
    exact List.map_congr_left fun l hl => if_neg (hcr l (by simpa using hl))
  simp only [lines, split_join _ _ hne hnl, List.dropLast_concat, List.getLast?_concat, hinit,
    Option.some.injEq, Option.toList_some]
  split
  · next hl => rw [hl, List.append_nil, nth_concat_nil]
  · rfl

end Embedded
