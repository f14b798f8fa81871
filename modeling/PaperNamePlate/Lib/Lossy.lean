import Mathlib.Algebra.GroupWithZero.Nat
import PaperNamePlate.Lib.Text

/-!
# Lossy decoding in terms of the bytes

`from_utf8_lossy` puts three bytes in place of every ill-formed sequence, which has one to three. An
ASCII byte is no part of a longer character, so decoding commutes with splitting and stripping at
such bytes.
-/
namespace Embedded

/-! ## Ill-formed sequences -/

def illFormedLoop : Nat → List UInt8 → List (List UInt8)
  | 0, _ => []
  | _ + 1, [] => []
  | n + 1, b :: bs =>
    let rest := illFormedLoop n ((b :: bs).drop (lossyStep (b :: bs)).2)
    if ((b :: bs).toByteArray.utf8DecodeChar? 0).isNone then
      (b :: bs).take (brokenLen (b :: bs)) :: rest
    else rest

/-- The ill-formed sequences of `bs`, each of which becomes a U+FFFD. -/
def illFormed (bs : List UInt8) : List (List UInt8) := illFormedLoop bs.length bs

/-- What the ill-formed sequences gain when three bytes take their places. -/
def growth (bs : List UInt8) : Nat := ((illFormed bs).map fun s => 3 - s.length).sum

theorem illFormedLoop_eq {n : Nat} {bs : List UInt8} (h : bs.length ≤ n) :
    illFormedLoop n bs = illFormed bs := by
  induction n using Nat.strong_induction_on generalizing bs with
  | _ n ih =>
    match n, bs with
    | 0, [] => rfl
    | n + 1, [] => rfl
    | n + 1, b :: bs =>
      have hpos := lossyStep_pos (b :: bs)
      have hdrop : ((b :: bs).drop (lossyStep (b :: bs)).2).length ≤ bs.length := by
        simp; omega
      simp only [List.length_cons] at h
      have hrest : illFormedLoop n ((b :: bs).drop (lossyStep (b :: bs)).2) =
          illFormedLoop bs.length ((b :: bs).drop (lossyStep (b :: bs)).2) := by
        rw [ih n (by omega) (hdrop.trans (by omega))]
        by_cases hn : bs.length = n
        · rw [hn, ih n (by omega) (hdrop.trans (by omega))]
        · rw [ih bs.length (by omega) hdrop]
      simp only [illFormed, List.length_cons, illFormedLoop, hrest]

/-- The bytes start with a character, or with an ill-formed sequence. -/
theorem lossyStep_cases (bs : List UInt8) :
    (∃ c rest, bs = String.utf8EncodeChar c ++ rest ∧ lossyStep bs = (c, c.utf8Size)) ∨
      (bs.toByteArray.utf8DecodeChar? 0 = none ∧ lossyStep bs = (replacement, brokenLen bs)) := by
  cases hdecode : bs.toByteArray.utf8DecodeChar? 0 with
  | none => exact .inr ⟨rfl, by rw [lossyStep, hdecode]⟩
  | some c =>
    obtain ⟨rest, hrest⟩ := ByteArray.exists_of_utf8DecodeChar?_eq_some hdecode
    refine .inl ⟨c, rest.data.toList, ?_, by rw [lossyStep, hdecode]⟩
    have hlist := congrArg (fun b : ByteArray => b.data.toList) hrest
    simpa using hlist

theorem brokenLen_le {bs : List UInt8} (h : bs ≠ []) :
    brokenLen bs ≤ bs.length ∧ brokenLen bs ≤ 3 := by
  have hpos : 0 < bs.length := List.length_pos_iff.mpr h
  unfold brokenLen
  repeat' split
  all_goals
    try simp only [List.length_cons] at hpos ⊢
    omega

theorem decodes_encoded (c : Char) (rest : List UInt8) :
    (String.utf8EncodeChar c ++ rest).toByteArray.utf8DecodeChar? 0 = some c := by
  rw [List.toByteArray_append]
  exact ByteArray.utf8DecodeChar?_utf8EncodeChar_append

theorem illFormed_encoded (c : Char) (rest : List UInt8) :
    illFormed (String.utf8EncodeChar c ++ rest) = illFormed rest := by
  have hlen : (String.utf8EncodeChar c).length = c.utf8Size := String.length_utf8EncodeChar c
  have hpos := c.utf8Size_pos
  obtain ⟨b, bs, hbs⟩ : ∃ b bs, String.utf8EncodeChar c ++ rest = b :: bs :=
    List.exists_cons_of_ne_nil (List.length_pos_iff.mp (by rw [List.length_append]; omega))
  have hstep := lossyStep_utf8EncodeChar c rest
  have hdecode := decodes_encoded c rest
  have hdrop : (b :: bs).drop c.utf8Size = rest := by rw [← hbs, ← hlen, List.drop_left]
  have hshort : rest.length ≤ bs.length := by
    have := congrArg List.length hbs
    rw [List.length_append, List.length_cons] at this
    omega
  rw [hbs] at hstep hdecode ⊢
  rw [illFormed, List.length_cons, illFormedLoop, hstep, hdecode]
  exact (congrArg (illFormedLoop bs.length) hdrop).trans (illFormedLoop_eq hshort)

theorem illFormed_broken {bs : List UInt8} (hne : bs ≠ [])
    (h : bs.toByteArray.utf8DecodeChar? 0 = none) :
    illFormed bs = bs.take (brokenLen bs) :: illFormed (bs.drop (brokenLen bs)) := by
  obtain ⟨b, tail, rfl⟩ := List.exists_cons_of_ne_nil hne
  have hstep : lossyStep (b :: tail) = (replacement, brokenLen (b :: tail)) := by
    rw [lossyStep, h]
  have hpos := lossyStep_pos (b :: tail)
  rw [hstep] at hpos
  rw [illFormed, List.length_cons, illFormedLoop, hstep, h]
  dsimp only
  rw [Option.isNone_none, if_pos rfl, illFormedLoop_eq]
  rw [List.length_drop, List.length_cons]
  omega

/-- A text starts with its first character, or an ill-formed sequence is put right. -/
theorem bytes_induction {P : List UInt8 → Prop} (nil : P [])
    (encoded : ∀ c rest, P rest → P (String.utf8EncodeChar c ++ rest))
    (broken : ∀ bs, bs ≠ [] → bs.toByteArray.utf8DecodeChar? 0 = none →
      P (bs.drop (brokenLen bs)) → P bs) (bs : List UInt8) : P bs := by
  induction hn : bs.length using Nat.strong_induction_on generalizing bs with
  | _ n ih =>
    by_cases hne : bs = []
    · rw [hne]
      exact nil
    · have hpos := lossyStep_pos bs
      rcases lossyStep_cases bs with ⟨c, rest, rfl, -⟩ | ⟨hnone, hstep⟩
      · have hlen : (String.utf8EncodeChar c).length = c.utf8Size := String.length_utf8EncodeChar c
        have hsize := c.utf8Size_pos
        rw [List.length_append] at hn
        exact encoded c rest (ih rest.length (by omega) rest rfl)
      · rw [hstep] at hpos
        have hlt := List.length_pos_iff.mpr hne
        exact broken bs hne hnone (ih _ (by rw [List.length_drop]; omega) _ rfl)

theorem lossy_encoded (c : Char) (rest : List UInt8) :
    lossy (String.utf8EncodeChar c ++ rest) = c :: lossy rest := by
  have h := lossy_utf8_append [c] rest
  rwa [utf8_cons, utf8_nil, List.append_nil] at h

theorem lossy_broken {bs : List UInt8} (hne : bs ≠ [])
    (h : bs.toByteArray.utf8DecodeChar? 0 = none) :
    lossy bs = replacement :: lossy (bs.drop (brokenLen bs)) := by
  have hstep : lossyStep bs = (replacement, brokenLen bs) := by
    rw [lossyStep, h]
  rw [lossy_of_ne_nil hne, hstep]

theorem lossy_eq_nil {bs : List UInt8} (h : lossy bs = []) : bs = [] := by
  by_contra hne
  rw [lossy_of_ne_nil hne] at h
  cases h

/-- The length of a decoded text. -/
theorem length_utf8_lossy (bs : List UInt8) : (utf8 (lossy bs)).length = bs.length + growth bs := by
  have hthree : (String.utf8EncodeChar replacement).length = 3 := by decide
  induction bs using bytes_induction with
  | nil => rfl
  | encoded c rest ih =>
    rw [lossy_encoded, utf8_cons, List.length_append, List.length_append, ih, growth, growth,
      illFormed_encoded, Nat.add_assoc]
  | broken bs hne hnone ih =>
    obtain ⟨hle, hle3⟩ := brokenLen_le hne
    have hgrowth : growth bs = 3 - brokenLen bs + growth (bs.drop (brokenLen bs)) := by
      rw [growth, illFormed_broken hne hnone, List.map_cons, List.sum_cons, List.length_take,
        Nat.min_eq_left hle]
      rfl
    rw [lossy_broken hne hnone, utf8_cons, List.length_append, hthree, ih, hgrowth,
      List.length_drop]
    omega

/-- Well-formed text in front adds nothing. -/
theorem growth_utf8_append (s : Str) (bs : List UInt8) : growth (utf8 s ++ bs) = growth bs := by
  have h := length_utf8_lossy (utf8 s ++ bs)
  rw [lossy_utf8_append, utf8_append, List.length_append, List.length_append,
    length_utf8_lossy bs] at h
  omega

/-! ## ASCII bytes -/

/-- `a` is the byte of the ASCII character `c`. -/
structure Ascii (c : Char) (a : UInt8) : Prop where
  encode : String.utf8EncodeChar c = [a]
  lt : a < 0x80

theorem ascii_of_lt {c : Char} (h : c.val.toNat < 0x80) : Ascii c (UInt8.ofNat c.val.toNat) := by
  constructor
  · rw [String.utf8EncodeChar]
    exact if_pos (Nat.le_of_lt_succ h)
  · rw [UInt8.lt_iff_toNat_lt, UInt8.toNat_ofNat']
    exact Nat.lt_of_le_of_lt (Nat.mod_le _ _) h

theorem high_of_or {m : UInt8} (hm : 0x80 ≤ m.toNat) (x : UInt8) : ¬ x ||| m < 0x80 := by
  have hle : m.toNat ≤ (x ||| m).toNat := by
    rw [UInt8.toNat_or]
    exact Nat.right_le_or
  rw [UInt8.lt_iff_toNat_lt]
  have h80 : (0x80 : UInt8).toNat = 0x80 := rfl
  omega

/-- A character that has an ASCII byte has no other one. -/
theorem encode_of_mem {c : Char} {a : UInt8} (ha : a < 0x80) (h : a ∈ String.utf8EncodeChar c) :
    String.utf8EncodeChar c = [a] := by
  have hbyte : ∀ {x m : UInt8}, 0x80 ≤ m.toNat → a = x ||| m → False := by
    rintro x m hm rfl
    exact high_of_or hm x ha
  have h80 : 0x80 ≤ (0x80 : UInt8).toNat := by decide
  have hc0 : 0x80 ≤ (0xc0 : UInt8).toNat := by decide
  have he0 : 0x80 ≤ (0xe0 : UInt8).toNat := by decide
  have hf0 : 0x80 ≤ (0xf0 : UInt8).toNat := by decide
  rcases c.utf8Size_eq with hsize | hsize | hsize | hsize
  · rw [String.utf8EncodeChar_eq_singleton hsize] at h ⊢
    rw [List.mem_singleton.mp h]
  · rw [String.utf8EncodeChar_eq_cons_cons hsize] at h
    simp only [List.mem_cons, List.not_mem_nil, or_false] at h
    rcases h with h | h
    · exact (hbyte hc0 h).elim
    · exact (hbyte h80 h).elim
  · rw [String.utf8EncodeChar_eq_cons_cons_cons hsize] at h
    simp only [List.mem_cons, List.not_mem_nil, or_false] at h
    rcases h with h | h | h
    · exact (hbyte he0 h).elim
    · exact (hbyte h80 h).elim
    · exact (hbyte h80 h).elim
  · rw [String.utf8EncodeChar_eq_cons_cons_cons_cons hsize] at h
    simp only [List.mem_cons, List.not_mem_nil, or_false] at h
    rcases h with h | h | h | h
    · exact (hbyte hf0 h).elim
    · exact (hbyte h80 h).elim
    · exact (hbyte h80 h).elim
    · exact (hbyte h80 h).elim

namespace Ascii

variable {c : Char} {a : UInt8}

theorem ne_replacement (h : Ascii c a) : c ≠ replacement := by
  rintro rfl
  have hlen : (String.utf8EncodeChar replacement).length = 3 := by decide
  rw [h.encode] at hlen
  cases hlen

theorem lossy_cons (h : Ascii c a) (rest : List UInt8) : lossy (a :: rest) = c :: lossy rest := by
  have hcons := lossy_encoded c rest
  rwa [h.encode] at hcons

/-- No ill-formed sequence goes on past an ASCII byte. -/
theorem brokenLen_append (h : Ascii c a) {bs : List UInt8} (hne : bs ≠ []) (rest : List UInt8) :
    brokenLen (bs ++ a :: rest) = brokenLen bs := by
  have hlt := h.lt
  have hcont : isCont a = false := by
    rw [isCont, Bool.and_eq_false_iff]
    exact .inl (decide_eq_false (UInt8.not_le.mpr hlt))
  have hsecond : ∀ b, secondOk b a = false := by
    intro b
    have hfrom : ∀ {l r : UInt8}, 0x80 ≤ l → (decide (l ≤ a) && decide (a ≤ r)) = false := by
      intro l r hl
      rw [Bool.and_eq_false_iff]
      exact .inl (decide_eq_false (UInt8.not_le.mpr (UInt8.lt_of_lt_of_le hlt hl)))
    unfold secondOk
    split
    · exact hfrom (by decide)
    · split
      · exact hfrom (by decide)
      · split
        · exact hfrom (by decide)
        · split
          · exact hfrom (by decide)
          · exact hcont
  match bs with
  | [] => exact absurd rfl hne
  | [b] => simp [brokenLen, hsecond b]
  | [b, d] => simp [brokenLen, hcont]
  | b :: d :: e :: more => rfl

/-- Nor does a character. -/
theorem decode_append (h : Ascii c a) {bs : List UInt8} (hne : bs ≠ [])
    (hnone : bs.toByteArray.utf8DecodeChar? 0 = none) (rest : List UInt8) :
    (bs ++ a :: rest).toByteArray.utf8DecodeChar? 0 = none := by
  rcases lossyStep_cases (bs ++ a :: rest) with ⟨d, r, heq, -⟩ | ⟨hdecode, -⟩
  · have hnot : ∀ more, bs ≠ String.utf8EncodeChar d ++ more := by
      rintro more rfl
      rw [decodes_encoded] at hnone
      cases hnone
    rcases List.append_eq_append_iff.mp heq with ⟨behind, hd, hbehind⟩ | ⟨more, hbs, -⟩
    · cases behind with
      | nil => exact absurd (by rw [hd, List.append_nil, List.append_nil]) (hnot [])
      | cons a' behind =>
        obtain ⟨rfl, -⟩ := List.cons.inj hbehind
        have hsingle := encode_of_mem h.lt (hd ▸ List.mem_append_right bs List.mem_cons_self)
        have hlen := congrArg List.length (hd.symm.trans hsingle)
        have hpos := List.length_pos_iff.mpr hne
        simp only [List.length_append, List.length_cons, List.length_nil] at hlen
        omega
    · exact absurd hbs (hnot more)
  · exact hdecode

/-- Decoding starts afresh at an ASCII byte. -/
theorem lossy_append (h : Ascii c a) (bs rest : List UInt8) :
    lossy (bs ++ a :: rest) = lossy bs ++ c :: lossy rest := by
  induction bs using bytes_induction with
  | nil => exact h.lossy_cons rest
  | encoded d r ih => rw [List.append_assoc, lossy_encoded, lossy_encoded, ih, List.cons_append]
  | broken bs hne hnone ih =>
    have hdecode := h.decode_append hne hnone rest
    rw [lossy_broken (by simp) hdecode, h.brokenLen_append hne,
      List.drop_append_of_le_length (brokenLen_le hne).1, ih, lossy_broken hne hnone,
      List.cons_append]

theorem mem_of_mem_lossy (h : Ascii c a) {bs : List UInt8} (hc : c ∈ lossy bs) : a ∈ bs := by
  induction bs using bytes_induction with
  | nil => exact absurd hc List.not_mem_nil
  | encoded d r ih =>
    rw [lossy_encoded] at hc
    rcases List.mem_cons.mp hc with rfl | hc
    · exact List.mem_append_left r (h.encode ▸ List.mem_singleton_self a)
    · exact List.mem_append_right _ (ih hc)
  | broken bs hne hnone ih =>
    rw [lossy_broken hne hnone] at hc
    rcases List.mem_cons.mp hc with heq | hc
    · exact absurd heq h.ne_replacement
    · exact List.mem_of_mem_drop (ih hc)

theorem head_of_lossy (h : Ascii c a) {bs : List UInt8} {s : Str} (hc : lossy bs = c :: s) :
    ∃ rest, bs = a :: rest ∧ lossy rest = s := by
  induction bs using bytes_induction with
  | nil => cases hc
  | encoded d r _ =>
    rw [lossy_encoded] at hc
    obtain ⟨rfl, hs⟩ := List.cons.inj hc
    exact ⟨r, by rw [h.encode]; rfl, hs⟩
  | broken bs hne hnone _ =>
    rw [lossy_broken hne hnone] at hc
    exact absurd (List.cons.inj hc).1.symm h.ne_replacement

theorem last_of_lossy (h : Ascii c a) {bs : List UInt8} (hc : (lossy bs).getLast? = some c) :
    ∃ front, bs = front ++ [a] := by
  induction bs using bytes_induction with
  | nil => cases hc
  | encoded d r ih =>
    rw [lossy_encoded] at hc
    by_cases hr : r = []
    · subst hr
      obtain rfl : d = c := Option.some.inj hc
      exact ⟨[], by rw [h.encode]; rfl⟩
    · rw [List.getLast?_cons_of_ne_nil (mt lossy_eq_nil hr)] at hc
      obtain ⟨front, rfl⟩ := ih hc
      exact ⟨String.utf8EncodeChar d ++ front, by rw [List.append_assoc]⟩
  | broken bs hne hnone ih =>
    rw [lossy_broken hne hnone] at hc
    by_cases hr : bs.drop (brokenLen bs) = []
    · rw [hr] at hc
      exact absurd (Option.some.inj hc).symm h.ne_replacement
    · rw [List.getLast?_cons_of_ne_nil (mt lossy_eq_nil hr)] at hc
      obtain ⟨front, hfront⟩ := ih hc
      refine ⟨bs.take (brokenLen bs) ++ front, ?_⟩
      rw [List.append_assoc, ← hfront, List.take_append_drop]

/-- Stripping an ASCII character takes its bytes away. -/
theorem length_trimStartChar_lossy (h : Ascii c a) (bs : List UInt8) :
    (utf8 (trimStartChar c (lossy bs))).length + (bs.takeWhile (· == a)).length =
      bs.length + growth bs := by
  rw [← length_utf8_lossy]
  induction bs with
  | nil => rfl
  | cons b bs ih =>
    by_cases hb : b = a
    · subst hb
      rw [h.lossy_cons, trimStartChar, List.dropWhile_cons_of_pos (by simp),
        List.takeWhile_cons_of_pos (by simp), utf8_cons, h.encode, List.length_cons,
        List.length_append, List.length_singleton, ← ih, trimStartChar]
      omega
    · rw [List.takeWhile_cons_of_neg (by simpa using hb), List.length_nil, Nat.add_zero]
      cases hl : lossy (b :: bs) with
      | nil => rfl
      | cons d s =>
        have hd : d ≠ c := by
          rintro rfl
          obtain ⟨rest, hrest, -⟩ := h.head_of_lossy hl
          exact hb (List.cons.inj hrest).1
        rw [trimStartChar, List.dropWhile_cons_of_neg (by simpa using hd)]

end Ascii

/-! ## Lines -/

/-- Decoding commutes with splitting at ASCII bytes. -/
theorem splitOnP_lossy {p : UInt8 → Bool} {q : Char → Bool}
    (hp : ∀ b, p b = true → ∃ c, Ascii c b ∧ q c = true)
    (hq : ∀ c, q c = true → ∃ b, Ascii c b ∧ p b = true) (bs : List UInt8) :
    (lossy bs).splitOnP q = (bs.splitOnP p).map lossy := by
  have hnone : ∀ l : List UInt8, (∀ b ∈ l, p b = false) → ∀ c ∈ lossy l, q c = false := by
    intro l hl c hc
    by_contra hqc
    obtain ⟨b, hb, hpb⟩ := hq c (by simpa using hqc)
    rw [hl b (hb.mem_of_mem_lossy hc)] at hpb
    cases hpb
  induction hn : bs.length using Nat.strong_induction_on generalizing bs with
  | _ n ih =>
    have hsplit := List.takeWhile_append_dropWhile (p := fun b => !p b) (l := bs)
    have hfront : ∀ b ∈ bs.takeWhile (fun b => !p b), p b = false := by
      intro b hb
      simpa using List.mem_takeWhile_imp hb
    cases hdrop : bs.dropWhile (fun b => !p b) with
    | nil =>
      rw [hdrop, List.append_nil] at hsplit
      rw [hsplit] at hfront
      rw [List.splitOnP_eq_singleton hfront, List.splitOnP_eq_singleton (hnone bs hfront)]
      rfl
    | cons b rest =>
      have hb : p b = true := by
        have := List.head?_dropWhile_not (fun b => !p b) bs
        rw [hdrop] at this
        simpa using this
      obtain ⟨c, hc, hqc⟩ := hp b hb
      rw [hdrop] at hsplit
      have hlt : rest.length < n := by
        rw [← hn, ← hsplit, List.length_append, List.length_cons]
        omega
      rw [← hsplit, hc.lossy_append, List.splitOnP_append_cons_of_forall_mem hfront b hb,
        List.splitOnP_append_cons_of_forall_mem (hnone _ hfront) c hqc, ih rest.length hlt rest rfl,
        List.map_cons]

theorem split_replaceChar (c d : Char) (s : Str) :
    split d (replaceChar c d s) = s.splitOnP fun x => x == c || x == d := by
  unfold split
  rw [List.splitOn_eq_splitOnP]
  induction s with
  | nil => rfl
  | cons x s ih =>
    have hcons : replaceChar c d (x :: s) = (if x = c then d else x) :: replaceChar c d s := rfl
    rw [hcons, List.splitOnP_cons_eq_if_modifyHead, List.splitOnP_cons_eq_if_modifyHead, ih]
    by_cases hc : x = c
    · simp [hc]
    · simp [hc]

/-- The bytes of a line without the CR of a CR LF ending. -/
def stripCrByte (l : List UInt8) : List UInt8 := if l.getLast? = some 0x0D then l.dropLast else l

theorem ascii_cr : Ascii '\r' 0x0D := ⟨by decide, by decide⟩

theorem stripCr_lossy (l : List UInt8) : stripCr (lossy l) = lossy (stripCrByte l) := by
  unfold stripCr stripCrByte
  by_cases h : l.getLast? = some 0x0D
  · obtain ⟨front, rfl⟩ : ∃ front, l = front ++ [0x0D] := by
      exact List.getLast?_eq_some_iff.mp h
    have happend := ascii_cr.lossy_append front []
    rw [if_pos h, happend, lossy_nil, List.getLast?_concat, if_pos rfl, List.dropLast_concat,
      List.dropLast_concat]
  · rw [if_neg h, if_neg]
    intro hlast
    obtain ⟨front, rfl⟩ := ascii_cr.last_of_lossy hlast
    exact h List.getLast?_concat

/-! ## Copies in front -/

section

variable {α : Type*} [BEq α]

def copiesLoop (pat : List α) : Nat → List α → Nat
  | 0, _ => 0
  | n + 1, l => if pat.isPrefixOf l then copiesLoop pat n (l.drop pat.length) + 1 else 0

/-- How often `pat` comes in front, one copy after the other. -/
def copies (pat l : List α) : Nat := copiesLoop pat l.length l

/-- Any count of rounds that is enough gives the same. -/
theorem copiesLoop_eq {pat : List α} (hp : pat ≠ []) {n m : Nat} {l : List α} (hn : l.length ≤ n)
    (hm : l.length ≤ m) : copiesLoop pat n l = copiesLoop pat m l := by
  have hpos : 0 < pat.length := List.length_pos_iff.mpr hp
  have hnil : ∀ n, copiesLoop pat n [] = 0 := by
    intro n
    cases n with
    | zero => rfl
    | succ n =>
      obtain ⟨a, pat, rfl⟩ := List.exists_cons_of_ne_nil hp
      rfl
  induction n generalizing l m with
  | zero => rw [List.length_eq_zero_iff.mp (Nat.le_zero.mp hn), hnil, hnil]
  | succ n ih =>
    cases l with
    | nil => rw [hnil, hnil]
    | cons b l =>
      obtain ⟨m, rfl⟩ : ∃ k, m = k + 1 := ⟨m - 1, by rw [List.length_cons] at hm; omega⟩
      have hdrop : ((b :: l).drop pat.length).length ≤ l.length := by
        rw [List.length_drop, List.length_cons]
        omega
      rw [List.length_cons] at hn hm
      rw [copiesLoop, copiesLoop, ih (hdrop.trans (by omega)) (hdrop.trans (by omega) : _ ≤ m)]

variable [LawfulBEq α]

theorem copies_append {pat : List α} (hp : pat ≠ []) (l : List α) :
    copies pat (pat ++ l) = copies pat l + 1 := by
  have hpos : 0 < pat.length := List.length_pos_iff.mpr hp
  obtain ⟨n, hn⟩ : ∃ n, (pat ++ l).length = n + 1 := ⟨(pat ++ l).length - 1, by simp; omega⟩
  have hpre : pat.isPrefixOf (pat ++ l) = true := by simp
  rw [copies, hn, copiesLoop, if_pos hpre, List.drop_left]
  exact congrArg (· + 1) (copiesLoop_eq hp (by simp at hn; omega) le_rfl)

theorem copies_eq_zero {pat l : List α} (h : ¬ pat <+: l) : copies pat l = 0 := by
  have hno : ¬ pat.isPrefixOf l = true := fun hpre => h (List.isPrefixOf_iff_prefix.mp hpre)
  rw [copies]
  cases l with
  | nil => rfl
  | cons b l => rw [List.length_cons, copiesLoop, if_neg hno]

end

/-- An ASCII text in front of the decoded one is there in the bytes. -/
theorem prefix_of_lossy {pat : Str} (hpat : ∀ c ∈ pat, ∃ a, Ascii c a) {bs : List UInt8}
    (h : pat <+: lossy bs) : utf8 pat <+: bs := by
  induction pat generalizing bs with
  | nil => exact List.nil_prefix
  | cons c pat ih =>
    obtain ⟨a, ha⟩ := hpat c List.mem_cons_self
    obtain ⟨s, hs⟩ := h
    obtain ⟨rest, rfl, hrest⟩ := ha.head_of_lossy hs.symm
    rw [utf8_cons, ha.encode]
    refine List.prefix_append_right_inj [a] |>.mpr ?_
    exact ih (fun c hc => hpat c (List.mem_cons_of_mem _ hc)) ⟨s, hrest.symm⟩

theorem trimStartStr_lossy {pat : Str} (hne : pat ≠ []) (hpat : ∀ c ∈ pat, ∃ a, Ascii c a)
    (bs : List UInt8) :
    trimStartStr pat (lossy bs) =
      lossy (bs.drop ((utf8 pat).length * copies (utf8 pat) bs)) := by
  have hutf8 : utf8 pat ≠ [] := mt utf8_eq_nil.mp hne
  induction hn : bs.length using Nat.strong_induction_on generalizing bs with
  | _ n ih =>
    by_cases hpre : utf8 pat <+: bs
    · obtain ⟨rest, rfl⟩ := hpre
      have hpos := List.length_pos_iff.mpr hutf8
      rw [List.length_append] at hn
      rw [lossy_utf8_append, trimStartStr_append hne, ih rest.length (by omega) rest rfl,
        copies_append hutf8, Nat.mul_succ, Nat.add_comm, ← List.drop_drop, List.drop_left]
    · rw [trimStartStr_eq_self (mt (prefix_of_lossy hpat) hpre), copies_eq_zero hpre, Nat.mul_zero,
        List.drop_zero]

/-- Stripping an ASCII text takes the bytes of its copies away. -/
theorem length_trimStartStr_lossy {pat : Str} (hne : pat ≠ []) (hpat : ∀ c ∈ pat, ∃ a, Ascii c a)
    (bs : List UInt8) :
    (utf8 (trimStartStr pat (lossy bs))).length + (utf8 pat).length * copies (utf8 pat) bs =
      (utf8 (lossy bs)).length := by
  have hutf8 : utf8 pat ≠ [] := mt utf8_eq_nil.mp hne
  induction hn : bs.length using Nat.strong_induction_on generalizing bs with
  | _ n ih =>
    by_cases hpre : utf8 pat <+: bs
    · obtain ⟨rest, rfl⟩ := hpre
      have hpos := List.length_pos_iff.mpr hutf8
      rw [List.length_append] at hn
      have hrest := ih rest.length (by omega) rest rfl
      rw [lossy_utf8_append, trimStartStr_append hne, copies_append hutf8, Nat.mul_succ,
        utf8_append, List.length_append]
      omega
    · rw [trimStartStr_eq_self (mt (prefix_of_lossy hpat) hpre), copies_eq_zero hpre, Nat.mul_zero,
        Nat.add_zero]

end Embedded
