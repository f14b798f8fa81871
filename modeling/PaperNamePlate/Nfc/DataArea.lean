import PaperNamePlate.Lib.Tlv
import PaperNamePlate.Nfc.PageStore

/-!
# The data area of the tag

`ndef` walks over the blocks of the user area, whatever a writer has left there, and what
`setNdef` stores there it finds again. A reader goes by the size in the capability container
instead of the size of the user area.
-/
namespace PaperNamePlate

open Embedded Tlv

namespace T2tEmulator

/-! ## The walk over the blocks -/

theorem slice?_drop {user bs : List UInt8} {i a b : Nat} (h : user.drop i = bs) (hne : bs ≠ []) :
    slice? user (i + a) (i + b) = slice? bs a b := by
  have hlt : i < user.length := by
    refine Nat.lt_of_not_le fun hle => hne ?_
    rw [← h, List.drop_eq_nil_of_le hle]
  subst h
  have hsub : i + b - (i + a) = b - a := by omega
  have hiff : (i + a ≤ i + b ∧ i + b ≤ user.length) ↔ a ≤ b ∧ b ≤ (user.drop i).length := by
    rw [List.length_drop]
    omega
  simp only [slice?, hiff, hsub, List.drop_drop]

theorem ndefLoop_nil {user : List UInt8} {n i : Nat} (h : user.drop i = []) :
    ndefLoop user (n + 1) i = none := by
  have hget : user[i]? = none := by
    rw [← Nat.add_zero i, ← List.getElem?_drop, h]
    rfl
  rw [ndefLoop, hget]
  rfl

/-- What the loop does at a block with a length field. -/
theorem ndefLoop_block {user hs rest : List UInt8} {t : UInt8} {len n i : Nat}
    (h : user.drop i = t :: (hs ++ rest)) (hb : IsBlock t) (hh : Header hs len) :
    ndefLoop user (n + 1) i =
      if len ≤ rest.length then
        if t = 0x03 then some (rest.take len) else ndefLoop user n (i + (hs.length + 1) + len)
      else none := by
  have hnull : ¬ t = 0x00 := hb.1
  have hterm : ¬ t = 0xFE := hb.2
  have hget : ∀ k, user[i + k]? = (t :: (hs ++ rest))[k]? := fun k => by
    rw [← h, List.getElem?_drop]
  have hvalue : slice? user (i + (hs.length + 1)) (i + (hs.length + 1) + len) =
      if len ≤ rest.length then some (rest.take len) else none := by
    have hiff : (hs.length + 1 ≤ hs.length + 1 + len ∧
        hs.length + 1 + len ≤ (t :: (hs ++ rest)).length) ↔ len ≤ rest.length := by
      simp
      omega
    have hdrop : (t :: (hs ++ rest)).drop (hs.length + 1) = rest := by simp
    rw [Nat.add_assoc, slice?_drop h (List.cons_ne_nil _ _), slice?]
    simp only [hiff, hdrop, Nat.add_sub_cancel_left]
  rw [ndefLoop, getElem?_of_drop h]
  cases hh with
  | short l hl =>
    simp only [List.length_singleton, Nat.reduceAdd] at hvalue
    simp only [List.getElem?_cons_zero, Option.bind_eq_bind, Option.bind_some, if_neg hnull,
      if_neg hterm, hget, List.getElem?_cons_succ, List.cons_append, if_neg hl, hvalue,
      List.length_singleton, Nat.reduceAdd]
    split <;> rfl
  | long a b =>
    simp only [List.length_cons, List.length_nil, Nat.reduceAdd] at hvalue
    simp only [List.getElem?_cons_zero, Option.bind_eq_bind, Option.bind_some, if_neg hnull,
      if_neg hterm, hget, List.getElem?_cons_succ, List.cons_append, if_true, hvalue,
      List.length_cons, List.length_nil, Nat.reduceAdd]
    split <;> rfl

theorem ndefLoop_cut_header {user bs hs : List UInt8} {t : UInt8} {len n i : Nat}
    (h : user.drop i = t :: bs) (hb : IsBlock t) (hh : Header hs len) (hp : bs <+: hs)
    (hlt : bs.length < hs.length) : ndefLoop user (n + 1) i = none := by
  have hnull : ¬ t = 0x00 := hb.1
  have hterm : ¬ t = 0xFE := hb.2
  have hget : ∀ k, user[i + k]? = (t :: bs)[k]? := fun k => by rw [← h, List.getElem?_drop]
  rw [ndefLoop, getElem?_of_drop h]
  simp only [Option.bind_eq_bind, Option.bind_some, if_neg hnull,
    if_neg hterm, hget, List.getElem?_cons_succ]
  cases hh with
  | short l hl =>
    obtain rfl : bs = [] := by simpa using hlt
    rfl
  | long a b =>
    rcases bs with _ | ⟨l, _ | ⟨a', bs⟩⟩
    · rfl
    · obtain ⟨rfl, -⟩ := List.cons_prefix_cons.mp hp
      rfl
    · obtain ⟨rfl, hp⟩ := List.cons_prefix_cons.mp hp
      obtain rfl : bs = [] := List.eq_nil_of_length_eq_zero (by simp at hlt; omega)
      rfl

/-- The loop finds what the walk finds, and it ends. -/
theorem ndefLoop_walk {bs : List UInt8} {r : Option (List UInt8)} (h : Walk 0x03 bs r)
    {user : List UInt8} {n i : Nat} (hi : user.drop i = bs) (hn : bs.length < n) :
    ndefLoop user n i = r := by
  induction h generalizing n i with
  | finish =>
    obtain ⟨n, rfl⟩ := Nat.exists_eq_add_of_lt hn
    exact ndefLoop_nil hi
  | terminator bs =>
    obtain ⟨n, rfl⟩ := Nat.exists_eq_add_of_lt hn
    have hget : user[i]? = some TERMINATOR := getElem?_of_drop hi
    rw [ndefLoop, hget]
    rfl
  | @cut bs h =>
    obtain ⟨n, rfl⟩ := Nat.exists_eq_add_of_lt hn
    obtain ⟨b, hb, hne, hlt, hp⟩ := h
    obtain ⟨t, bs, rfl⟩ := List.exists_cons_of_ne_nil hne
    rw [Tlv.bytes, List.cons_append] at hp
    rw [Tlv.bytes, List.cons_append, List.length_cons, List.length_cons] at hlt
    obtain ⟨rfl, hrest⟩ := List.cons_prefix_cons.mp hp
    have hheader := header_lengthField b
    have hfield := List.prefix_append b.lengthField b.value
    by_cases hshort : bs.length < b.lengthField.length
    · exact ndefLoop_cut_header hi hb hheader
        (List.prefix_of_prefix_length_le hrest hfield (Nat.le_of_lt hshort)) hshort
    · obtain ⟨v, rfl⟩ := List.prefix_of_prefix_length_le hfield hrest (Nat.not_lt.mp hshort)
      rw [ndefLoop_block hi hb hheader, if_neg]
      simp at hlt
      omega
  | found b bs hb =>
    obtain ⟨n, rfl⟩ := Nat.exists_eq_add_of_lt hn
    rw [Tlv.bytes, List.cons_append, List.cons_append, List.append_assoc] at hi
    have hblock : IsBlock b.type := hb ▸ ⟨by decide, by decide⟩
    rw [ndefLoop_block hi hblock (header_lengthField b), if_pos (by simp), if_pos hb,
      List.take_left]
  | @pass p bs r _ ih =>
    obtain ⟨n, rfl⟩ := Nat.exists_eq_add_of_lt hn
    have hnext := drop_add_of_drop hi
    cases p with
    | null =>
      have hget : user[i]? = some NULL := getElem?_of_drop hi
      rw [ndefLoop, hget]
      exact ih hnext (by simp [Passed.bytes]; omega)
    | other b hb hne =>
      have hlen : Passed.bytes (.other b hb hne) = b.type :: (b.lengthField ++ b.value) := rfl
      rw [hlen, List.cons_append, List.append_assoc] at hi
      rw [hlen] at hnext
      rw [ndefLoop_block hi hb (header_lengthField b), if_pos (by simp), if_neg hne]
      refine ih ?_ (by rw [List.length_append, hlen]; simp; omega)
      rw [← hnext]
      simp [Nat.add_comm, Nat.add_left_comm]

theorem ndefLoop_user (e : T2tEmulator) {r : Option (List UInt8)} (h : Walk 0x03 e.user r) {n : Nat}
    (hn : e.user.length < n) : ndefLoop e.user n 0 = r :=
  ndefLoop_walk h rfl hn

theorem ndef_walk (e : T2tEmulator) {r : Option (List UInt8)} (h : Walk 0x03 e.user r) :
    e.ndef = r :=
  e.ndefLoop_user h (Nat.lt_succ_self _)

/-- A walk has one outcome. -/
theorem walk_unique {bs : List UInt8} {r r' : Option (List UInt8)} (h : Walk 0x03 bs r)
    (h' : Walk 0x03 bs r') : r = r' :=
  (ndefLoop_walk h (List.drop_zero (l := bs)) (Nat.lt_succ_self _)).symm.trans
    (ndefLoop_walk h' List.drop_zero (Nat.lt_succ_self _))

/-- The message is the value of the first NDEF block behind any others, and there is none if the
terminator or the end of the user area comes first. -/
theorem ndef_first (e : T2tEmulator) :
    (∀ (ps : List (Passed 0x03)) (b : Tlv) (rest : List UInt8), b.type = 0x03 →
      e.user = layout ps ++ (b.bytes ++ rest) → e.ndef = some b.value) ∧
    (∀ (ps : List (Passed 0x03)) (rest : List UInt8),
      e.user = layout ps ++ TERMINATOR :: rest → e.ndef = none) ∧
    (∀ (ps : List (Passed 0x03)) (tail : List UInt8), Cut tail →
      e.user = layout ps ++ tail → e.ndef = none) ∧
    (∀ ps : List (Passed 0x03), e.user = layout ps → e.ndef = none) ∧
    Walk 0x03 e.user e.ndef ∧ ∀ n, e.user.length < n → ndefLoop e.user n 0 = e.ndef := by
  obtain ⟨r, hr⟩ := exists_walk 0x03 e.user
  have hndef := e.ndef_walk hr
  refine ⟨fun ps b rest hb hu => ?_, fun ps rest hu => ?_, fun ps tail hcut hu => ?_,
    fun ps hu => ?_, hndef ▸ hr, fun n hn => hndef ▸ e.ndefLoop_user hr hn⟩
  · exact e.ndef_walk (hu ▸ Walk.layout ps (.found b rest hb))
  · exact e.ndef_walk (hu ▸ Walk.layout ps (.terminator rest))
  · exact e.ndef_walk (hu ▸ Walk.layout ps (.cut hcut))
  · have hfinish := Walk.layout ps (.finish : Walk 0x03 [] none)
    rw [List.append_nil] at hfinish
    exact e.ndef_walk (hu ▸ hfinish)

/-! ## Storing a message -/

/-- The NDEF block of a message. -/
def msgBlock (msg : List UInt8) (h : msg.length < 2 ^ 16) : Tlv where
  type := 0x03
  value := msg
  long := !decide (msg.length < 0xFF)
  fits := by
    split
    · exact h
    · next hs => simpa using hs

theorem bytes_msgBlock {msg : List UInt8} (h : msg.length < 2 ^ 16) :
    ndefTlv msg = (msgBlock msg h).bytes ++ [TERMINATOR] := by
  unfold ndefTlv
  by_cases hs : msg.length < 0xFF
  · simp [msgBlock, Tlv.bytes, lengthField, hs, TERMINATOR]
  · simp [msgBlock, Tlv.bytes, lengthField, hs, TERMINATOR]

theorem length_msgBlock {msg : List UInt8} (h : msg.length < 2 ^ 16) :
    (msgBlock msg h).bytes.length = (if msg.length < 0xFF then 2 else 4) + msg.length := by
  have htlv := congrArg List.length (bytes_msgBlock h)
  rw [length_ndefTlv, List.length_append, List.length_singleton] at htlv
  omega

theorem fits_iff (msg : List UInt8) :
    (if msg.length < 0xFF then 2 else 4) + msg.length + 1 ≤ USER_BYTES ↔ msg.length ≤ 883 := by
  have hbytes : USER_BYTES = 888 := rfl
  split <;> omega

/-- The bytes outside the user area stay. -/
theorem setNdef_outside (e : T2tEmulator) (msg : List UInt8) {k : Nat}
    (hk : k < USER_FIRST_PAGE * 4 ∨ (USER_LAST_PAGE + 1) * 4 ≤ k) :
    (e.setNdef msg).2.memory.bytes[k]? = e.memory.bytes[k]? := by
  have hfirst : USER_FIRST_PAGE * 4 = 16 := rfl
  have hlast : (USER_LAST_PAGE + 1) * 4 = 904 := rfl
  have hbytes : USER_BYTES = 888 := rfl
  have hsize : e.memory.bytes.length = 924 := e.memory.size
  rcases Nat.lt_or_ge 883 msg.length with hlarge | hsmall
  · rw [setNdef_large e hlarge]
  · have hfit := (fits_iff msg).mpr hsmall
    have hlen := length_ndefTlv msg
    unfold setNdef
    rw [dif_neg (Nat.not_lt.mpr hfit)]
    simp only [Block.write_write]
    refine getElem?_splice_of_outside ?_ ?_ <;>
      rw [List.length_append, List.length_replicate] <;> omega

/-- A message that fits is stored as the only block and found again; any other message changes
nothing. -/
theorem setNdef_ndef (e : T2tEmulator) (msg : List UInt8) :
    ((if msg.length < 255 then 2 else 4) + msg.length + 1 ≤ 888 →
      (e.setNdef msg).1 = true ∧ (e.setNdef msg).2.ndef = some msg ∧
        (e.setNdef msg).2.user =
          ndefTlv msg ++ List.replicate (888 - (ndefTlv msg).length) 0 ∧
        ∀ k, k < 4 * 4 ∨ 226 * 4 ≤ k →
          (e.setNdef msg).2.memory.bytes[k]? = e.memory.bytes[k]?) ∧
    (¬ (if msg.length < 255 then 2 else 4) + msg.length + 1 ≤ 888 →
      e.setNdef msg = (false, e)) := by
  refine ⟨fun hfit => ?_, fun hfit => ?_⟩
  · have hsmall := (fits_iff msg).mp hfit
    obtain ⟨htrue, huser⟩ := e.setNdef_fits hsmall
    exact ⟨htrue, e.ndef_setNdef hsmall, huser, fun k hk => e.setNdef_outside msg hk⟩
  · exact e.setNdef_large (Nat.lt_of_not_le (mt (fits_iff msg).mpr hfit))

/-! ## A reader that trusts the capability container -/

/-- The pages from one on up to `limit`, by READ or FAST_READ; the last answer may go beyond. -/
inductive Gathers (s : PageStore) (limit : Nat) : Nat → List UInt8 → Prop
  | done {p : Nat} : limit ≤ p → Gathers s limit p []
  | read {p : Fin PAGES} {bytes : List UInt8} : p.val < limit → Gathers s limit (p + 4) bytes →
    Gathers s limit p (s.read p ++ bytes)
  | fastRead {a b : Fin PAGES} {bytes : List UInt8} (le : a ≤ b) (short : b.val < a.val + 128) :
    a.val < limit → Gathers s limit (b + 1) bytes → Gathers s limit a (s.fastRead a b ++ bytes)

theorem exists_gathers (s : PageStore) (limit : Nat) (hl : limit ≤ PAGES) (p : Nat) :
    ∃ bytes, Gathers s limit p bytes := by
  induction hn : limit - p using Nat.strongRecOn generalizing p with
  | _ n ih =>
    by_cases hp : limit ≤ p
    · exact ⟨[], .done hp⟩
    · obtain ⟨bytes, hbytes⟩ := ih _ (by omega) (p + 4) rfl
      exact ⟨_, .read (p := ⟨p, by omega⟩) (Nat.lt_of_not_le hp) hbytes⟩

/-- READ does not wrap where four pages are left. -/
theorem read_eq_range (e : T2tEmulator) {p : Fin PAGES} (h : p.val + 4 ≤ PAGES) :
    e.pages.read p = (e.memory.bytes.drop (p * 4)).take 16 := by
  have hpages := flatMap_page 4 e.memory.bytes p 4
  rw [← hpages]
  refine List.flatMap_congr fun k hk => ?_
  have hk : k < 4 := List.mem_range.mp hk
  have hwrap : (wrapPage (p + k)).val = p.val + k := Nat.mod_eq_of_lt (by omega)
  rw [toList_pages, hwrap]

theorem take_of_ranges {mem bytes : List UInt8} {i k n : Nat} (hfit : i + k ≤ mem.length)
    (h : bytes.take (n - k) = (mem.drop (i + k)).take (n - k)) :
    ((mem.drop i).take k ++ bytes).take n = (mem.drop i).take n := by
  have hlen : ((mem.drop i).take k).length = k := by simp; omega
  rw [List.take_append, hlen, h, ← List.drop_drop, List.take_take]
  rcases Nat.le_total n k with hn | hn
  · rw [Nat.min_eq_left hn, Nat.sub_eq_zero_of_le hn, List.take_zero, List.append_nil]
  · rw [Nat.min_eq_right hn, ← List.take_add, Nat.add_sub_cancel' hn]

/-- The reader sees the memory. -/
theorem gathers_eq (e : T2tEmulator) {limit p : Nat} {bytes : List UInt8} (hl : limit + 3 ≤ PAGES)
    (h : Gathers e.pages limit p bytes) :
    bytes.take ((limit - p) * 4) = (e.memory.bytes.drop (p * 4)).take ((limit - p) * 4) := by
  have hsize : e.memory.bytes.length = PAGES * 4 := e.memory.size
  induction h with
  | done hp => rw [Nat.sub_eq_zero_of_le hp, Nat.zero_mul, List.take_zero, List.take_zero]
  | @read p bytes hp _ ih =>
    rw [e.read_eq_range (by omega)]
    refine take_of_ranges (by omega) ?_
    have hi : (p.val + 4) * 4 = p.val * 4 + 16 := by omega
    have hn : (limit - (p.val + 4)) * 4 = (limit - p.val) * 4 - 16 := by omega
    rwa [hi, hn] at ih
  | @fastRead a b bytes le short ha _ ih =>
    rw [fastRead_pages, Block.read]
    refine take_of_ranges (by omega) ?_
    have hi : (b.val + 1) * 4 = a.val * 4 + ((b.val + 1) * 4 - a.val * 4) := by omega
    have hn : (limit - (b.val + 1)) * 4 =
        (limit - a.val) * 4 - ((b.val + 1) * 4 - a.val * 4) := by omega
    rwa [hi, hn] at ih

/-- The size of the data area in units of eight bytes, as the capability container has it. -/
def ccSize (e : T2tEmulator) : Nat := (e.memory.get 14 (by decide)).toNat

theorem ccSize_setNdef (uid : Vector UInt8 7) (msg : List UInt8) :
    ((new uid).setNdef msg).2.ccSize = 0x6D := by
  have hnew : (new uid).memory.bytes[14]? = some 0x6D := rfl
  have hsame := (new uid).setNdef_outside msg (k := 14) (.inl (by decide))
  rw [ccSize, Block.get_eq_getD _ _ _ 0, List.getD_eq_getElem?_getD, hsame, hnew]
  rfl

/-- In an area of any size, the message is found if its block lies inside. -/
theorem walk_area_iff {msg : List UInt8} (h : msg.length < 2 ^ 16) (rest : List UInt8) (n : Nat) :
    Walk 0x03 ((ndefTlv msg ++ rest).take n) (some msg) ↔
      (if msg.length < 0xFF then 2 else 4) + msg.length ≤ n := by
  have hlen := length_msgBlock h
  rw [bytes_msgBlock h, List.append_assoc]
  constructor
  · intro hwalk
    by_contra hn
    have hlt : n < (msgBlock msg h).bytes.length := by omega
    rw [List.take_append_of_le_length (Nat.le_of_lt hlt)] at hwalk
    have hnone : Walk 0x03 ((msgBlock msg h).bytes.take n) none := by
      by_cases hzero : n = 0
      · rw [hzero]
        exact .finish
      · have hblock : IsBlock (0x03 : UInt8) := ⟨by decide, by decide⟩
        refine .cut ⟨msgBlock msg h, hblock, ?_, ?_, List.take_prefix _ _⟩
        · exact List.ne_nil_of_length_pos (by rw [List.length_take]; omega)
        · rw [List.length_take]
          omega
    cases walk_unique hwalk hnone
  · intro hn
    rw [List.take_append, List.take_of_length_le (by omega)]
    exact .found (msgBlock msg h) _ rfl

theorem gathered_iff (uid : Vector UInt8 7) {msg bytes : List UInt8} (hsmall : msg.length ≤ 883)
    (hbytes : Gathers ((new uid).setNdef msg).2.pages (4 + 2 * ((new uid).setNdef msg).2.ccSize) 4
      bytes) :
    Walk 0x03 (bytes.take (8 * ((new uid).setNdef msg).2.ccSize)) (some msg) ↔
      (if msg.length < 0xFF then 2 else 4) + msg.length ≤ 872 := by
  have huser := ((new uid).setNdef_fits hsmall).2
  have hgather := gathers_eq _ (by rw [ccSize_setNdef]; decide) hbytes
  rw [ccSize_setNdef] at hgather ⊢
  have harea : bytes.take 872 = ((new uid).setNdef msg).2.user.take 872 := by
    rw [user, Block.read, List.take_take]
    exact hgather
  have hwalk := walk_area_iff (show msg.length < 2 ^ 16 by omega)
    (List.replicate (USER_BYTES - (ndefTlv msg).length) 0) 872
  rwa [← huser, ← harea] at hwalk

theorem setNdef_true_iff (e : T2tEmulator) (msg : List UInt8) :
    (e.setNdef msg).1 = true ↔ msg.length ≤ 883 := by
  refine ⟨fun h => ?_, fun h => (e.setNdef_fits h).1⟩
  by_contra hlarge
  rw [setNdef_large e (Nat.lt_of_not_le hlarge)] at h
  cases h

/-- READ and FAST_READ answer with the pages, and a reader that takes the size of the data area
from the capability container finds the message there if and only if its block takes at most
872 bytes. -/
theorem setNdef_readable_iff (uid : Vector UInt8 7) (msg : List UInt8)
    (h : ((new uid).setNdef msg).1 = true) (bytes : List UInt8)
    (hbytes : Gathers ((new uid).setNdef msg).2.pages (4 + 2 * ((new uid).setNdef msg).2.ccSize) 4
      bytes) :
    (∀ (I : Type) [I2c I] (nfc : St25r3916 I) (r : Request),
      Target.handleCommand r.frame ⟨((new uid).setNdef msg).2, nfc⟩ =
        Target.respond (((new uid).setNdef msg).2.pages.answer r)
          ⟨Target.afterRequest ((new uid).setNdef msg).2 r, nfc⟩) ∧
    (Walk 0x03 (bytes.take (8 * ((new uid).setNdef msg).2.ccSize)) (some msg) ↔
      (if msg.length < 255 then 2 else 4) + msg.length ≤ 872) :=
  ⟨fun _ _ nfc r => Target.handleCommand_request r ⟨((new uid).setNdef msg).2, nfc⟩,
    gathered_iff uid ((setNdef_true_iff _ msg).mp h) hbytes⟩

theorem setNdef_readable_short : ∃ bytes : List UInt8,
    Walk 0x03 (bytes.take (8 * ((new (.replicate 7 0)).setNdef [1]).2.ccSize)) (some [1]) := by
  obtain ⟨bytes, hbytes⟩ := exists_gathers ((new (.replicate 7 0)).setNdef [1]).2.pages
    (4 + 2 * ((new (.replicate 7 0)).setNdef [1]).2.ccSize) (by rw [ccSize_setNdef]; decide) 4
  exact ⟨bytes, (setNdef_readable_iff (.replicate 7 0) [1] rfl bytes hbytes).2.mpr (by decide)⟩

/-- A message of 870 bytes is accepted, and its block does not end in the data area. -/
theorem setNdef_unreadable :
    ¬ ∀ (uid : Vector UInt8 7) (msg : List UInt8), ((new uid).setNdef msg).1 = true →
      ∀ bytes, Gathers ((new uid).setNdef msg).2.pages (4 + 2 * ((new uid).setNdef msg).2.ccSize) 4
          bytes →
        Walk 0x03 (bytes.take (8 * ((new uid).setNdef msg).2.ccSize)) (some msg) := by
  intro hall
  have hlen : (List.replicate 870 (0 : UInt8)).length = 870 := List.length_replicate
  have hsmall : (List.replicate 870 (0 : UInt8)).length ≤ 883 := by rw [hlen]; decide
  obtain ⟨bytes, hbytes⟩ := exists_gathers
    ((new (.replicate 7 0)).setNdef (.replicate 870 0)).2.pages
    (4 + 2 * ((new (.replicate 7 0)).setNdef (.replicate 870 0)).2.ccSize)
    (by rw [ccSize_setNdef]; decide) 4
  have hwalk := hall _ _ ((setNdef_true_iff _ _).mpr hsmall) bytes hbytes
  have hle := (gathered_iff _ hsmall hbytes).mp hwalk
  rw [hlen] at hle
  exact absurd hle (by decide)

end T2tEmulator

end PaperNamePlate
