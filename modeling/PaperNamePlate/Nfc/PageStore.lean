import PaperNamePlate.Lib.Run
import PaperNamePlate.Nfc.TagMemory

/-!
# The command set is a page store

To a reader the tag is a store of 231 pages that it addresses by number. `Request`
lists the frames that the store takes, with the ranges they may name, and
`PageStore` says what each of them reads and changes. `handleCommand` is this
store: it answers every request as the store does and refuses all other frames.
-/
namespace PaperNamePlate

open Embedded

/-! ## The store -/

abbrev Page := Vector UInt8 4

theorem toList_page (data : Page) :
    data.toList = [data.get ⟨0, by decide⟩, data.get ⟨1, by decide⟩, data.get ⟨2, by decide⟩,
      data.get ⟨3, by decide⟩] := by
  obtain ⟨⟨bytes⟩, hsize⟩ := data
  obtain ⟨a, b, c, d, rfl⟩ := List.length_eq_four.mp hsize
  rfl

structure PageStore where
  page : Fin PAGES → Page
  dirty : Bool

/-- Page numbers go on from the last page to the first. -/
def wrapPage (n : Nat) : Fin PAGES := ⟨n % PAGES, Nat.mod_lt _ (by decide)⟩

/-- A frame that the store takes. -/
inductive Request
  | read (p : Fin PAGES)
  | fastRead (a b : Fin PAGES) (le : a ≤ b) (short : b.val < a.val + 128)
  | write (p : Fin PAGES) (data : Page) (two_le : 2 ≤ p.val)
  | version
  | signature (arg : UInt8)
  | halt (args : List UInt8)

def Request.frame : Request → List UInt8
  | .read p => [0x30, UInt8.ofNat p]
  | .fastRead a b _ _ => [0x3A, UInt8.ofNat a, UInt8.ofNat b]
  | .write p data _ => 0xA2 :: UInt8.ofNat p :: data.toList
  | .version => [0x60]
  | .signature arg => [0x3C, arg]
  | .halt args => 0x50 :: args

inductive Answer
  | data (bytes : List UInt8)
  | ack
  | silent

namespace PageStore

/-- Four pages from `p` on. -/
def read (s : PageStore) (p : Fin PAGES) : List UInt8 :=
  (List.range 4).flatMap fun k => (s.page (wrapPage (p + k))).toList

/-- The first pages of READ `a` to READ `b`, one after the other. -/
def fastRead (s : PageStore) (a b : Fin PAGES) : List UInt8 :=
  (List.range (b + 1 - a)).flatMap fun i => (s.read (wrapPage (a + i))).take 4

def answer (s : PageStore) : Request → Answer
  | .read p => .data (s.read p)
  | .fastRead a b _ _ => .data (s.fastRead a b)
  | .write _ _ _ => .ack
  | .version => .data GET_VERSION_NTAG216
  | .signature _ => .data (List.replicate 32 0)
  | .halt _ => .silent

/-- Only a WRITE to page 3 or above changes a page, and only one to user memory is noted. -/
def store (s : PageStore) : Request → PageStore
  | .write p data _ =>
    if 3 ≤ p.val then
      { page := Function.update s.page p data
        dirty := s.dirty || decide (USER_FIRST_PAGE ≤ p.val ∧ p.val ≤ USER_LAST_PAGE) }
    else s
  | _ => s

end PageStore

/-! ## The pages of the memory -/

namespace T2tEmulator

theorem page_fits (e : T2tEmulator) (p : Fin PAGES) : (p.val + 1) * 4 ≤ e.memory.bytes.length := by
  have hp : p.val < 231 := p.isLt
  have hsize : e.memory.bytes.length = 924 := e.memory.size
  omega

/-- The memory as its reader sees it. -/
def pages (e : T2tEmulator) : PageStore where
  page p := ⟨(page 4 e.memory.bytes p).toArray, by
    rw [List.size_toArray, length_page (e.page_fits p)]⟩
  dirty := e.dirty

theorem toList_pages (e : T2tEmulator) (p : Fin PAGES) :
    (e.pages.page p).toList = page 4 e.memory.bytes p := rfl

theorem pages_congr {e e' : T2tEmulator} (hm : e'.memory = e.memory) (hd : e'.dirty = e.dirty) :
    e'.pages = e.pages := by
  simp only [pages, hm, hd]

/-- READ gathers the bytes of four pages. -/
theorem read_pages (e : T2tEmulator) (p : Fin PAGES) :
    e.pages.read p = (List.range 16).map fun i =>
      e.memory.get ((p * 4 + i) % MEM_BYTES) (Nat.mod_lt _ (by decide)) := by
  have hsplit : ∀ f : Nat → UInt8, (List.range 16).map f =
      (List.range 4).flatMap fun k => (List.range 4).map fun b => f (k * 4 + b) := fun _ => rfl
  rw [hsplit]
  refine List.flatMap_congr fun k hk => ?_
  have hk : k < 4 := List.mem_range.mp hk
  rw [toList_pages, page_eq_map (e.page_fits _) 0]
  refine List.map_congr_left fun b hb => ?_
  have hb : b < 4 := List.mem_range.mp hb
  have hindex : (p + k) % PAGES * 4 + b = (p * 4 + (k * 4 + b)) % MEM_BYTES := by
    simp only [MEM_BYTES, PAGES]
    omega
  rw [Block.get_eq_getD _ _ _ 0, ← hindex]
  rfl

/-- The first four bytes of READ are the page itself. -/
theorem take_read_pages (e : T2tEmulator) (p : Fin PAGES) :
    (e.pages.read p).take 4 = page 4 e.memory.bytes p := by
  have hfirst : e.pages.read p = page 4 e.memory.bytes (wrapPage p).val ++
      (List.range 3).flatMap fun k => page 4 e.memory.bytes (wrapPage (p + (k + 1))).val := rfl
  have hwrap : (wrapPage p).val = p.val := Nat.mod_eq_of_lt p.isLt
  rw [hfirst, hwrap, List.take_left' (length_page (e.page_fits p))]

/-- FAST_READ reads a range of the memory. -/
theorem fastRead_pages (e : T2tEmulator) (a b : Fin PAGES) :
    e.pages.fastRead a b = e.memory.read (a * 4) ((b + 1) * 4 - a * 4) := by
  have hpages : e.pages.fastRead a b =
      (List.range (b + 1 - a)).flatMap fun i => page 4 e.memory.bytes (a + i) := by
    refine List.flatMap_congr fun i hi => ?_
    have hi : i < b + 1 - a := List.mem_range.mp hi
    have hwrap : (wrapPage (a + i)).val = a.val + i := by
      have := b.isLt
      exact Nat.mod_eq_of_lt (by omega)
    rw [take_read_pages, hwrap]
  rw [hpages, flatMap_page, Block.read, Nat.mul_sub_right_distrib]

/-- WRITE replaces the bytes of one page. -/
theorem storePage_pages (e : T2tEmulator) (p : Fin PAGES) (data : Page) (two_le : 2 ≤ p.val)
    {b0 b1 b2 b3 : UInt8} (hdata : data.toList = [b0, b1, b2, b3]) :
    (Target.storePage p b0 b1 b2 b3 p.isLt e).pages = e.pages.store (.write p data two_le) := by
  unfold Target.storePage PageStore.store
  by_cases h : 3 ≤ p.val
  · rw [if_pos h]
    simp only [if_pos h, pages, Block.write, PageStore.mk.injEq, and_true]
    funext q
    have hsplice := page_splice (q := q.val) (show [b0, b1, b2, b3].length = 4 from rfl)
        (e.page_fits p)
    refine Vector.toList_inj.mp (hsplice.trans ?_)
    by_cases hq : q = p
    · rw [if_pos (congrArg Fin.val hq), hq, Function.update_self, hdata]
    · rw [if_neg (fun hv => hq (Fin.ext hv)), Function.update_of_ne hq]
      rfl
  · rw [if_neg h]
    simp only [if_neg h]

/-- A message is stored in user memory. -/
theorem setNdef_page (e : T2tEmulator) (msg : List UInt8) {p : Fin PAGES}
    (hp : p.val < USER_FIRST_PAGE ∨ USER_LAST_PAGE < p.val) :
    (e.setNdef msg).2.pages.page p = e.pages.page p := by
  have hbytes : USER_BYTES = 888 := rfl
  have hfirst : USER_FIRST_PAGE = 4 := rfl
  have hlast : USER_LAST_PAGE = 225 := rfl
  have hsize : e.memory.bytes.length = 924 := e.memory.size
  rcases Nat.lt_or_ge 883 msg.length with hlarge | hsmall
  · rw [setNdef_large e hlarge]
  · have hlen := length_ndefTlv msg
    have hnot : ¬ (if msg.length < 0xFF then 2 else 4) + msg.length + 1 > USER_BYTES := by
      split <;> omega
    unfold setNdef
    rw [dif_neg hnot]
    simp only [Block.write_write]
    refine Vector.toList_inj.mp (page_splice_of_disjoint ?_ ?_) <;>
      rw [List.length_append, List.length_replicate] <;> omega

/-! ## The UID -/

/-- The two check bytes of the UID are right. -/
def BccFits (e : T2tEmulator) : Prop :=
  e.memory.read 3 1 = [(e.uid.take 3).foldl (· ^^^ ·) 0x88] ∧
    e.memory.read 8 1 = [(e.uid.drop 3).foldl (· ^^^ ·) 0x00]

theorem new_bccFits (uid : Vector UInt8 7) : (new uid).BccFits := by
  have hbyte : (new uid).memory.read 8 1 = [uid[3] ^^^ uid[4] ^^^ uid[5] ^^^ uid[6]] := rfl
  have huid : (new uid).uid.drop 3 = [uid[3], uid[4], uid[5], uid[6]] := rfl
  refine ⟨rfl, ?_⟩
  rw [hbyte, huid]
  simp only [List.foldl_cons, List.foldl_nil, UInt8.zero_xor]

/-- The first three pages are not touched. -/
def SameHead (e e' : T2tEmulator) : Prop :=
  ∀ p : Fin PAGES, p.val < 3 → e'.pages.page p = e.pages.page p

theorem SameHead.read {e e' : T2tEmulator} (h : SameHead e e') {i k : Nat} (hik : i + k ≤ 12) :
    e'.memory.read i k = e.memory.read i k := by
  have hhead : e'.memory.bytes.take 12 = e.memory.bytes.take 12 := by
    have hpages := flatMap_page 4 e.memory.bytes 0 3
    have hpages' := flatMap_page 4 e'.memory.bytes 0 3
    simp only [Nat.zero_add, Nat.zero_mul, List.drop_zero] at hpages hpages'
    rw [← hpages', ← hpages]
    refine List.flatMap_congr fun p hp => ?_
    have hp : p < 3 := List.mem_range.mp hp
    have hlt : p < PAGES := Nat.lt_trans hp (by decide)
    exact congrArg Vector.toList (h ⟨p, hlt⟩ hp)
  have htake : ∀ m : Block MEM_BYTES, m.read i k = ((m.bytes.take 12).drop i).take k := by
    intro m
    rw [Block.read, List.drop_take, List.take_take, Nat.min_eq_left (by omega)]
  rw [htake, htake, hhead]

theorem SameHead.uid {e e' : T2tEmulator} (h : SameHead e e') : e'.uid = e.uid := by
  rw [T2tEmulator.uid, h.read (by omega), h.read (by omega)]
  rfl

theorem SameHead.bccFits {e e' : T2tEmulator} (h : SameHead e e') : e'.BccFits ↔ e.BccFits := by
  rw [BccFits, BccFits, h.uid, h.read (by omega), h.read (by omega)]

end T2tEmulator

/-! ## The commands -/

namespace Target

variable {I : Type} [I2c I]

/-- Transmit an answer; a byte is acknowledged with four bits. -/
def respond : Answer → Emu I CmdResult
  | .data bytes => do
    chip (St25r3916.targetTransmit bytes 0)
    pure .stay
  | .ack => do
    chip (St25r3916.targetTransmit [ACK] 4)
    pure .stay
  | .silent => pure .halt

/-- What a request does to the emulator, before the answer is sent. -/
def afterRequest (e : T2tEmulator) : Request → T2tEmulator
  | .write p data _ => storePage p data[0] data[1] data[2] data[3] p.isLt e
  | _ => e

theorem pages_afterRequest (e : T2tEmulator) (r : Request) :
    (afterRequest e r).pages = e.pages.store r := by
  cases r with
  | write p data two_le => exact e.storePage_pages p data two_le (toList_page data)
  | _ => rfl

omit [I2c I] in
theorem toNat_pageNumber (p : Fin PAGES) : (UInt8.ofNat p.val).toNat = p.val := by
  have hp : p.val < 231 := p.isLt
  rw [UInt8.toNat_ofNat', Nat.mod_eq_of_lt (by omega)]

theorem readPages_of_lt (p : Fin PAGES) (t : Target I) :
    readPages p t = respond (.data (t.emu.pages.read p)) t := by
  have hin : ¬ p.val ≥ PAGES := Nat.not_le.mpr p.isLt
  rw [readPages, if_neg hin, t.emu.read_pages]
  rfl

theorem fastRead_of_short (a b : Fin PAGES) (le : a ≤ b) (short : b.val < a.val + 128)
    (t : Target I) : fastRead a b t = respond (.data (t.emu.pages.fastRead a b)) t := by
  have hin : ¬ (a.val > b.val ∨ b.val ≥ PAGES ∨ (b.val - a.val + 1) * 4 > 512) := by
    have := b.isLt
    omega
  rw [fastRead, if_neg hin, t.emu.fastRead_pages]
  rfl

theorem writePage_of_two_le (p : Fin PAGES) (data : Page) (two_le : 2 ≤ p.val) (t : Target I) :
    writePage p data[0] data[1] data[2] data[3] t =
      respond .ack { t with emu := afterRequest t.emu (.write p data two_le) } := by
  rw [writePage, dif_pos ⟨two_le, p.isLt⟩]
  rfl

/-- Every request is answered as the store does. -/
theorem handleCommand_request (r : Request) (t : Target I) :
    handleCommand r.frame t =
      respond (t.emu.pages.answer r) { t with emu := afterRequest t.emu r } := by
  cases r with
  | read p =>
    have h := readPages_of_lt p t
    rw [← toNat_pageNumber p] at h
    exact h
  | fastRead a b le short =>
    have h := fastRead_of_short a b le short t
    rw [← toNat_pageNumber a, ← toNat_pageNumber b] at h
    exact h
  | write p data two_le =>
    have h := writePage_of_two_le p data two_le t
    rw [Request.frame, toList_page]
    rw [← toNat_pageNumber p] at h
    exact h
  | version => rfl
  | signature arg => rfl
  | halt args => rfl

/-- Every other frame is refused. -/
theorem handleCommand_refused {op : UInt8} {args : List UInt8}
    (h : ∀ r : Request, op :: args ≠ r.frame) :
    (handleCommand (op :: args) : Emu I CmdResult) = nak := by
  unfold handleCommand
  by_cases h30 : op = 0x30
  · subst h30
    match args with
    | [start] =>
      have hout : start.toNat ≥ PAGES := Nat.not_lt.mp fun hlt =>
        h (.read ⟨start.toNat, hlt⟩) (by simp [Request.frame])
      simp [readPages, hout]
    | [] => rfl
    | _ :: _ :: _ => rfl
  by_cases h3A : op = 0x3A
  · subst h3A
    match args with
    | [a, b] =>
      have hout : a.toNat > b.toNat ∨ b.toNat ≥ PAGES ∨ (b.toNat - a.toNat + 1) * 4 > 512 := by
        by_contra hin
        have hb : b.toNat < PAGES := by omega
        have ha : a.toNat < PAGES := by omega
        refine h (.fastRead ⟨a.toNat, ha⟩ ⟨b.toNat, hb⟩ ?_ ?_) (by simp [Request.frame])
        · exact Fin.mk_le_mk.mpr (by omega)
        · dsimp only
          omega
      simp [fastRead, hout]
    | [] => rfl
    | [_] => rfl
    | _ :: _ :: _ :: _ => rfl
  by_cases hA2 : op = 0xA2
  · subst hA2
    match args with
    | [page, b0, b1, b2, b3] =>
      have hout : ¬ (2 ≤ page.toNat ∧ page.toNat < PAGES) := fun hin =>
        h (.write ⟨page.toNat, hin.2⟩ #v[b0, b1, b2, b3] hin.1) (by simp [Request.frame])
      simp [writePage, hout]
    | [] => rfl
    | [_] => rfl
    | [_, _] => rfl
    | [_, _, _] => rfl
    | [_, _, _, _] => rfl
    | _ :: _ :: _ :: _ :: _ :: _ :: _ => rfl
  have h60 : ¬ (op = 0x60 ∧ args.length = 0) := by
    rintro ⟨rfl, hargs⟩
    exact h .version (by rw [List.length_eq_zero_iff.mp hargs]; rfl)
  have h3C : ¬ (op = 0x3C ∧ args.length = 1) := by
    rintro ⟨rfl, hargs⟩
    obtain ⟨arg, rfl⟩ := List.length_eq_one_iff.mp hargs
    exact h (.signature arg) rfl
  have h50 : op ≠ 0x50 := by
    rintro rfl
    exact h (.halt args) rfl
  simp only [if_neg h30, if_neg h3A, if_neg hA2, if_neg h60, if_neg h3C, if_neg h50]

/-! ## Runs -/

theorem keeps_respond (a : Answer) : Prog.Keeps SameTag (respond a : Emu I CmdResult) := by
  cases a with
  | data bytes => exact (keeps_chip _).bind fun _ => Prog.Keeps.pure _
  | ack => exact (keeps_chip _).bind fun _ => Prog.Keeps.pure _
  | silent => exact Prog.Keeps.pure _

omit [I2c I] in
theorem pages_of_sameTag {t t' : Target I} (h : SameTag t t') : t'.emu.pages = t.emu.pages :=
  T2tEmulator.pages_congr h.1 h.2

/-- A frame that is passed to the command handler, or a message that is stored. -/
inductive Op
  | frame (op : UInt8) (args : List UInt8)
  | setNdef (msg : List UInt8)

def act (t : Target I) : Op → Target I
  | .frame op args => (handleCommand (op :: args) t).2
  | .setNdef msg => { t with emu := (t.emu.setNdef msg).2 }

/-- What a step does to the pages, and what the reader is answered. -/
def Served (t : Target I) : Op → Prop
  | .frame op args =>
    (∀ r : Request, op :: args = r.frame →
      (act t (.frame op args)).emu.pages = t.emu.pages.store r ∧
        handleCommand (op :: args) t =
          respond (t.emu.pages.answer r) { t with emu := afterRequest t.emu r }) ∧
    ((∀ r : Request, op :: args ≠ r.frame) →
      (act t (.frame op args)).emu.pages = t.emu.pages ∧ handleCommand (op :: args) t = nak t)
  | .setNdef msg =>
    (act t (.setNdef msg)).emu.dirty = t.emu.dirty ∧
      ∀ p : Fin PAGES, p.val < USER_FIRST_PAGE ∨ USER_LAST_PAGE < p.val →
        (act t (.setNdef msg)).emu.pages.page p = t.emu.pages.page p

theorem act_served (t : Target I) (op : Op) : Served t op := by
  cases op with
  | frame op args =>
    refine ⟨fun r hr => ?_, fun h => ?_⟩
    · have hreq := handleCommand_request r t
      have hkeep := keeps_respond (t.emu.pages.answer r) { t with emu := afterRequest t.emu r }
      rw [← hr] at hreq
      refine ⟨?_, hreq⟩
      rw [act, hreq, pages_of_sameTag hkeep, pages_afterRequest]
    · have hnak := congrFun (handleCommand_refused (I := I) h) t
      refine ⟨?_, hnak⟩
      rw [act, hnak, pages_of_sameTag (keeps_nak t)]
  | setNdef msg => exact ⟨t.emu.setNdef_dirty msg, fun p hp => t.emu.setNdef_page msg hp⟩

theorem store_head (s : PageStore) (r : Request) {p : Fin PAGES} (hp : p.val < 3) :
    (s.store r).page p = s.page p := by
  unfold PageStore.store
  split
  · next q data two_le =>
    split
    · next h =>
      have hne : p ≠ q := fun hpq => by omega
      exact Function.update_of_ne hne _ _
    · rfl
  · rfl

theorem Served.sameHead {t : Target I} {op : Op} (h : Served t op) :
    T2tEmulator.SameHead t.emu (act t op).emu := by
  intro p hp
  cases op with
  | frame op args =>
    by_cases hr : ∃ r : Request, op :: args = r.frame
    · obtain ⟨r, hr⟩ := hr
      rw [(h.1 r hr).1, store_head _ _ hp]
    · rw [(h.2 fun r heq => hr ⟨r, heq⟩).1]
  | setNdef msg => exact h.2 p (.inl (Nat.lt_trans hp (by decide)))

/-- In every run each frame is served as by the page store, and the UID keeps its pages. -/
theorem serves_pages (t : Target I) (ops : List Op) :
    EachStep act Served t ops ∧
      Always act (fun t' => T2tEmulator.SameHead t.emu t'.emu ∧ t'.emu.uid = t.emu.uid ∧
        (t'.emu.BccFits ↔ t.emu.BccFits)) t ops ∧
      ∀ uid, (T2tEmulator.new uid).BccFits := by
  have hserved : EachStep act Served t ops :=
    (eachStep_iff_forall (C := fun _ => True) |>.mpr fun _ _ => trivial).mono
      fun s op _ => act_served s op
  refine ⟨hserved, ?_, T2tEmulator.new_bccFits⟩
  have hhead : Always act (fun t' => T2tEmulator.SameHead t.emu t'.emu) t ops :=
    always_of_step (C := Served)
      (fun s op hs hop p hp => (hop.sameHead p hp).trans (hs p hp)) (fun _ _ => rfl) hserved
  exact hhead.mono fun t' h => ⟨h, h.uid, h.bccFits⟩

end Target

/-! ## Long ranges -/

/-- A bus on which every access succeeds and reads zeros. -/
inductive QuietBus
  | quiet

instance : I2c QuietBus where
  Error := Empty
  write b _ _ := (.ok (), b)
  writeRead b _ _ n := (.ok (.replicate n 0), b)
  transaction b _ _ := (.ok (), b)

namespace Target

/-- FAST_READ of 129 pages is refused. -/
theorem long_fastRead_refused :
    ¬ ∀ (I : Type) [I2c I] (t : Target I) (a b : Fin PAGES), a ≤ b →
      handleCommand [0x3A, UInt8.ofNat a, UInt8.ofNat b] t =
        respond (.data (t.emu.pages.fastRead a b)) t := by
  intro h
  let t : Target QuietBus := ⟨T2tEmulator.new (.replicate 7 0), { i2c := .quiet }⟩
  have heq := congrArg Prod.fst (h QuietBus t ⟨0, by decide⟩ ⟨128, by decide⟩ (by decide))
  have hnak : (handleCommand [0x3A, 0, 128] t).1 = .ok .drop := rfl
  have hdata : ∀ bytes, (respond (.data bytes) t).1 = .ok .stay := fun _ => rfl
  exact absurd ((hnak.symm.trans heq).trans (hdata _)) (by simp)

end Target

end PaperNamePlate
