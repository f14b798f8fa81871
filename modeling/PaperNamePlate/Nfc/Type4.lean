import PaperNamePlate.Lib.Slice
import PaperNamePlate.Lib.Triple

/-!
# Reading a Type 4 tag

`readType4` selects the NDEF application of a card, takes the NDEF file from its capability
container and reads the file in chunks. The exchange of command and response APDUs is a
parameter.
-/
namespace PaperNamePlate

open Embedded

def NDEF_AID : List UInt8 := [0xD2, 0x76, 0x00, 0x00, 0x85, 0x01, 0x01]

inductive NdefError (ε : Type)
  | dep (e : ε)
  /-- An APDU answered with a status other than 9000. -/
  | status (step : String) (sw : UInt16)
  | malformed

namespace Type4

variable {S ε : Type}

/-- What the card answers to an APDU. -/
abbrev Exchange (S ε : Type) : Type := List UInt8 → Prog S ε (List UInt8)

abbrev Ndef (S ε : Type) (α : Type) : Type := Prog S (NdefError ε) α

def check (step : String) (rsp : List UInt8) : Ndef S ε Unit :=
  if rsp.length < 2 then Prog.throw .malformed
  else
    let sw := u16OfBe (rsp.getD (rsp.length - 2) 0) (rsp.getD (rsp.length - 1) 0)
    if sw ≠ 0x9000 then Prog.throw (.status step sw) else Prog.ok ()

/-- Send an APDU and check the status of the response. -/
def request (exchange : Exchange S ε) (step : String) (apdu : List UInt8) :
    Ndef S ε (List UInt8) := do
  let rsp ← (exchange apdu).mapError .dep
  check step rsp
  pure rsp

def readBinary (p1 p2 le : UInt8) : List UInt8 := [0x00, 0xB0, p1, p2, le]

def selectFile (hi lo : UInt8) : List UInt8 := [0x00, 0xA4, 0x00, 0x0C, 0x02, hi, lo]

/-- READ BINARY at an offset of which two bytes are sent. -/
def readAt (offset len : Nat) : List UInt8 :=
  readBinary (UInt8.ofNat ((UInt16.ofNat offset).toNat / 2 ^ 8))
    (UInt8.ofNat (UInt16.ofNat offset).toNat) (UInt8.ofNat len)

/-- The loop over the chunks of the message. -/
def readChunks (exchange : Exchange S ε) (nlen mle : Nat) (hm : 0 < mle) (msg : List UInt8)
    (offset : Nat) : Ndef S ε (List UInt8) :=
  if _hlt : msg.length < nlen then do
    let chunk := min (min (nlen - msg.length) mle) 255
    let rsp ← request exchange "read-ndef" (readAt offset chunk)
    if _hlen : rsp.length < 2 + chunk then Prog.throw .malformed
    else readChunks exchange nlen mle hm (msg ++ rsp.take chunk) (offset + chunk)
  else pure msg
termination_by nlen - msg.length
decreasing_by
  rw [List.length_append, List.length_take]
  omega

/-- `w.clamp(15, 246)`. -/
def clampMle (w : UInt16) : Nat := max 15 (min w.toNat 246)

def readType4 (exchange : Exchange S ε) : Ndef S ε (List UInt8) := do
  let _ ← request exchange "select-app"
    ([0x00, 0xA4, 0x04, 0x00, UInt8.ofNat NDEF_AID.length] ++ NDEF_AID ++ [0x00])
  let _ ← request exchange "select-cc" (selectFile 0xE1 0x03)
  let rsp ← request exchange "read-cc" (readBinary 0x00 0x00 0x0F)
  if rsp.length < 2 + 15 then Prog.throw .malformed
  else do
    let cc := rsp.take 15
    let mle := clampMle (u16OfBe (cc.getD 3 0) (cc.getD 4 0))
    if cc.getD 7 0 ≠ 0x04 then Prog.throw .malformed
    else do
      let _ ← request exchange "select-ndef" (selectFile (cc.getD 9 0) (cc.getD 10 0))
      let rsp ← request exchange "read-nlen" (readBinary 0x00 0x00 0x02)
      if rsp.length < 4 then Prog.throw .malformed
      else do
        let nlen := (u16OfBe (rsp.getD 0 0) (rsp.getD 1 0)).toNat
        readChunks exchange nlen mle (by unfold mle clampMle; omega) [] 2

/-! ## Cards -/

/-- A card with a capability container and an NDEF file. -/
structure Card where
  cc : List UInt8
  cc_length : cc.length = 15
  control_tag : cc.getD 7 0 = 0x04
  /-- The NDEF file is not the capability container. -/
  id_ne : (cc.getD 9 0, cc.getD 10 0) ≠ (0xE1, 0x03)
  content : List UInt8
  content_le : content.length ≤ 65535

/-- What SELECT has selected. -/
inductive Selected
  | application | cc | ndef
deriving DecidableEq

namespace Card

variable (c : Card)

/-- The NDEF file: NLEN and the message. -/
def file : List UInt8 := u16ToBe (UInt16.ofNat c.content.length) ++ c.content

def mle : Nat := clampMle (u16OfBe (c.cc.getD 3 0) (c.cc.getD 4 0))

def selected : Selected → List UInt8
  | .application => []
  | .cc => c.cc
  | .ndef => c.file

/-- SELECT succeeds, and READ BINARY answers with the bytes from the 16-bit offset on. -/
def exchange : Exchange Selected ε := fun apdu sel =>
  if apdu.getD 1 0 = 0xA4 then
    (.ok [0x90, 0x00],
      if apdu.getD 2 0 = 0x04 then .application
      else if (apdu.getD 5 0, apdu.getD 6 0) = (0xE1, 0x03) then .cc
      else if (apdu.getD 5 0, apdu.getD 6 0) = (c.cc.getD 9 0, c.cc.getD 10 0) then .ndef
      else sel)
  else if apdu.getD 1 0 = 0xB0 then
    let offset := (u16OfBe (apdu.getD 2 0) (apdu.getD 3 0)).toNat
    (.ok (((c.selected sel).drop offset).take (apdu.getD 4 0).toNat ++ [0x90, 0x00]), sel)
  else (.ok [0x6D, 0x00], sel)

end Card

/-! ## Requests to a card -/

theorem check_ok (step : String) (bs : List UInt8) (s : S) :
    (check step (bs ++ [0x90, 0x00]) : Ndef S ε Unit) s = (.ok (), s) := by
  have hlen : ¬ (bs ++ [0x90, 0x00]).length < 2 := by simp
  have hsw : u16OfBe ((bs ++ [0x90, 0x00]).getD ((bs ++ [0x90, 0x00]).length - 2) 0)
      ((bs ++ [0x90, 0x00]).getD ((bs ++ [0x90, 0x00]).length - 1) 0) = 0x9000 := by
    simp only [List.length_append, List.length_cons, List.length_nil, List.getD_eq_getElem?_getD]
    rw [List.getElem?_append_right (by omega), List.getElem?_append_right (by omega)]
    simp
    rfl
  rw [check, if_neg hlen]
  simp only [hsw, ne_eq, not_true_eq_false, if_false]
  rfl

theorem request_ok {exchange : Exchange S ε} {apdu : List UInt8} {s s' : S} (step : String)
    (bs : List UInt8)
    (h : exchange apdu s = (.ok (bs ++ [0x90, 0x00]), s')) :
    request exchange step apdu s = (.ok (bs ++ [0x90, 0x00]), s') := by
  rw [request, Prog.bind_eq, Prog.mapError, h]
  dsimp only
  rw [Prog.bind_eq, check_ok]
  rfl

namespace Card

variable (c : Card)

theorem length_file : c.file.length = c.content.length + 2 := by
  rw [file, List.length_append, length_u16ToBe, Nat.add_comm]

theorem drop_file : c.file.drop 2 = c.content := rfl

theorem request_select (step : String) (hi lo : UInt8) (sel : Selected) :
    request (c.exchange : Exchange Selected ε) step (selectFile hi lo) sel =
      (.ok [0x90, 0x00],
        if (hi, lo) = (0xE1, 0x03) then .cc
        else if (hi, lo) = (c.cc.getD 9 0, c.cc.getD 10 0) then .ndef else sel) :=
  request_ok step [] rfl

theorem request_readAt (step : String) (sel : Selected) (offset len : Nat) (h : len ≤ 255) :
    request (c.exchange : Exchange Selected ε) step (readAt offset len) sel =
      (.ok (((c.selected sel).drop (offset % 2 ^ 16)).take len ++ [0x90, 0x00]), sel) := by
  have hoffset : (u16OfBe (UInt8.ofNat ((UInt16.ofNat offset).toNat / 2 ^ 8))
      (UInt8.ofNat (UInt16.ofNat offset).toNat)).toNat = offset % 2 ^ 16 := by
    rw [u16OfBe, u16OfLe_toLe, UInt16.toNat_ofNat']
  have hlen : (UInt8.ofNat len).toNat = len := by
    rw [UInt8.toNat_ofNat', Nat.mod_eq_of_lt (by omega)]
  have hanswer : (c.exchange : Exchange Selected ε) (readAt offset len) sel =
      (.ok (((c.selected sel).drop (u16OfBe (UInt8.ofNat ((UInt16.ofNat offset).toNat / 2 ^ 8))
        (UInt8.ofNat (UInt16.ofNat offset).toNat)).toNat).take (UInt8.ofNat len).toNat ++
          [0x90, 0x00]), sel) := rfl
  rw [hoffset, hlen] at hanswer
  exact request_ok step _ hanswer

/-! ## The loop -/

/-- The chunks are aligned so that the last byte is a chunk of its own, at offset 65536. -/
def Wraps : Prop := c.content.length = 65535 ∧ c.mle ∣ 65534

instance : Decidable c.Wraps := inferInstanceAs (Decidable (_ ∧ _))

/-- What `readType4` returns: where the offset wraps, the last byte is the first one of the file. -/
def delivered : List UInt8 :=
  if c.Wraps then c.content.take 65534 ++ c.file.take 1 else c.content

theorem mle_pos : 0 < c.mle := by unfold mle clampMle; omega

theorem mle_le : c.mle ≤ 246 := by unfold mle clampMle; omega

/-- One round of the loop. -/
theorem readChunks_step {k chunk : Nat} {msg data : List UInt8} (hk : k < c.content.length)
    (hmsg : msg.length = k) (hchunk : min (c.content.length - k) c.mle = chunk)
    (hdata : (c.file.drop ((k + 2) % 2 ^ 16)).take chunk = data) (hlen : data.length = chunk) :
    (readChunks c.exchange c.content.length c.mle c.mle_pos msg (k + 2) : Ndef Selected ε _) .ndef =
      readChunks c.exchange c.content.length c.mle c.mle_pos (msg ++ data)
        (k + chunk + 2) .ndef := by
  have hmle := c.mle_le
  have hmin : min (min (c.content.length - msg.length) c.mle) 255 = chunk := by omega
  have hfull : ¬ (data ++ [0x90, 0x00]).length < 2 + chunk := by simp [hlen]; omega
  have htake : (data ++ [0x90, 0x00]).take chunk = data := by rw [← hlen, List.take_left]
  have hnext : k + 2 + chunk = k + chunk + 2 := by omega
  have hread := c.request_readAt (ε := ε) "read-ndef" .ndef (k + 2) chunk (by omega)
  rw [show c.selected .ndef = c.file from rfl, hdata] at hread
  rw [readChunks, dif_pos (hmsg ▸ hk)]
  simp only [hmin]
  rw [Prog.bind_eq, hread]
  dsimp only
  rw [dif_neg hfull, htake, hnext]

theorem readChunks_done {msg : List UInt8} (h : c.content.length ≤ msg.length) (offset : Nat) :
    (readChunks c.exchange c.content.length c.mle c.mle_pos msg offset : Ndef Selected ε _) .ndef =
      (.ok msg, .ndef) := by
  rw [readChunks, dif_neg (Nat.not_lt.mpr h)]
  rfl

theorem readChunks_eq {k : Nat} (hk : c.mle ∣ k ∨ k = c.content.length) (hle : k ≤ c.content.length)
    (hw : c.Wraps → k ≤ 65534) :
    (readChunks c.exchange c.content.length c.mle c.mle_pos (c.content.take k) (k + 2) :
      Ndef Selected ε _) .ndef = (.ok c.delivered, .ndef) := by
  have hcontent := c.content_le
  have hpos := c.mle_pos
  have hfile := c.length_file
  induction hgap : c.content.length - k using Nat.strongRecOn generalizing k with
  | _ gap ih =>
    have hmsg : (c.content.take k).length = k := by rw [List.length_take]; omega
    by_cases hdone : k = c.content.length
    · -- everything is read, and nothing has wrapped
      have hnot : ¬ c.Wraps := fun h => by
        have := hw h
        have := h.1
        omega
      rw [c.readChunks_done (by omega), hdone, List.take_length, delivered, if_neg hnot]
    have hlt : k < c.content.length := Nat.lt_of_le_of_ne hle hdone
    have hdvd : c.mle ∣ k := hk.resolve_right hdone
    by_cases hlast : k = 65534
    · -- the offset of the last byte is 65536
      have hwraps : c.Wraps := ⟨by omega, hlast ▸ hdvd⟩
      have hone : (c.file.take 1).length = 1 := by rw [List.length_take]; omega
      have hzero : (k + 2) % 2 ^ 16 = 0 := by omega
      have hchunk : min (c.content.length - k) c.mle = 1 := by omega
      rw [c.readChunks_step hlt hmsg hchunk (by rw [hzero, List.drop_zero]) hone,
        c.readChunks_done (by rw [List.length_append, hmsg, hone]; omega), delivered, if_pos hwraps,
        hlast]
    · -- the chunk is where it belongs
      obtain ⟨chunk, hchunk⟩ : ∃ chunk, chunk = min (c.content.length - k) c.mle := ⟨_, rfl⟩
      have hoffset : (k + 2) % 2 ^ 16 = 2 + k := by omega
      have hdata : (c.file.drop ((k + 2) % 2 ^ 16)).take chunk = (c.content.drop k).take chunk := by
        rw [hoffset, ← List.drop_drop, c.drop_file]
      have hlen : ((c.content.drop k).take chunk).length = chunk := by
        rw [List.length_take, List.length_drop]
        omega
      rw [c.readChunks_step hlt hmsg hchunk.symm hdata hlen, ← List.take_add]
      refine ih (c.content.length - (k + chunk)) (by omega) ?_ (by omega) (fun h => ?_) rfl
      · rcases Nat.le_total (c.content.length - k) c.mle with hend | hmore
        · exact .inr (by omega)
        · have hmle : chunk = c.mle := by omega
          exact .inl (hmle.symm ▸ Nat.dvd_add hdvd (Nat.dvd_refl c.mle))
      · have hroom := Nat.le_of_dvd (by have := hw h; omega) (Nat.dvd_sub h.2 hdvd)
        omega

/-- The whole read, up to the last byte of a file whose chunks are aligned so. -/
theorem readType4_eq :
    (readType4 (c.exchange : Exchange Selected ε)) .application = (.ok c.delivered, .ndef) := by
  have happ : request (c.exchange : Exchange Selected ε) "select-app"
      ([0x00, 0xA4, 0x04, 0x00, UInt8.ofNat NDEF_AID.length] ++ NDEF_AID ++ [0x00]) .application =
        (.ok [0x90, 0x00], .application) := request_ok _ [] rfl
  have hcc := c.request_select (ε := ε) "select-cc" 0xE1 0x03 .application
  rw [if_pos rfl] at hcc
  have hreadcc := c.request_readAt (ε := ε) "read-cc" .cc 0 15 (by decide)
  have hcclen := c.cc_length
  rw [show c.selected .cc = c.cc from rfl, Nat.zero_mod, List.drop_zero,
    List.take_of_length_le (Nat.le_of_eq hcclen), show readAt 0 15 =
    readBinary 0x00 0x00 0x0F from rfl]
    at hreadcc
  have hndef := c.request_select (ε := ε) "select-ndef" (c.cc.getD 9 0) (c.cc.getD 10 0) .cc
  rw [if_neg c.id_ne, if_pos rfl] at hndef
  have hnlen := c.request_readAt (ε := ε) "read-nlen" .ndef 0 2 (by decide)
  have hfirst : c.file.take 2 = u16ToBe (UInt16.ofNat c.content.length) := rfl
  rw [show c.selected .ndef = c.file from rfl, Nat.zero_mod, List.drop_zero, hfirst,
    show readAt 0 2 = readBinary 0x00 0x00 0x02 from rfl] at hnlen
  have hcount : (u16OfBe ((u16ToBe (UInt16.ofNat c.content.length) ++ [0x90, 0x00]).getD 0 0)
      ((u16ToBe (UInt16.ofNat c.content.length) ++ [0x90, 0x00]).getD 1 0)).toNat =
        c.content.length := by
    have hle := c.content_le
    have hbe := u16OfLe_toLe (UInt16.ofNat c.content.length)
    have hword : (UInt16.ofNat c.content.length).toNat = c.content.length := by
      rw [UInt16.toNat_ofNat', Nat.mod_eq_of_lt (by omega)]
    exact (congrArg UInt16.toNat hbe).trans hword
  have hlong : ¬ (c.cc ++ [0x90, 0x00]).length < 2 + 15 := by simp [hcclen]
  have htake : (c.cc ++ [0x90, 0x00]).take 15 = c.cc := by rw [← hcclen, List.take_left]
  have htag : ¬ c.cc.getD 7 0 ≠ 0x04 := not_not.mpr c.control_tag
  have hfour : ¬ (u16ToBe (UInt16.ofNat c.content.length) ++ [0x90, 0x00]).length < 4 := by simp
  have hloop : ∀ {mle : Nat} (hm : 0 < mle), mle = c.mle →
      (readChunks c.exchange c.content.length mle hm [] 2 : Ndef Selected ε _) .ndef =
        (.ok c.delivered, .ndef) := by
    rintro mle hm rfl
    exact c.readChunks_eq (k := 0) (.inl (Nat.dvd_zero _)) (Nat.zero_le _) fun _ => Nat.zero_le _
  unfold readType4
  rw [Prog.bind_of_ok happ, Prog.bind_of_ok hcc, Prog.bind_of_ok hreadcc, if_neg hlong]
  simp only [htake, if_neg htag]
  rw [Prog.bind_of_ok hndef, Prog.bind_of_ok hnlen, if_neg hfour]
  simp only [hcount]
  exact hloop _ (by rw [htake]; rfl)

theorem delivered_eq_iff :
    c.delivered = c.content ↔ (c.Wraps → c.content.getLast? = some 0xFF) := by
  unfold delivered
  split
  · next hw =>
    obtain ⟨init, last, hsplit⟩ : ∃ init last, c.content = init ++ [last] :=
      ⟨_, _, (List.dropLast_append_getLast (List.ne_nil_of_length_pos (by rw [hw.1]; decide))).symm⟩
    have hinit : init.length = 65534 := by
      have := hw.1
      rw [hsplit, List.length_append, List.length_singleton] at this
      omega
    have hhead : c.file.take 1 = [0xFF] := by rw [file, hw.1]; rfl
    rw [hhead, hsplit, ← hinit, List.take_left, List.getLast?_concat]
    constructor
    · intro heq _
      rw [List.append_cancel_left heq |> List.singleton_inj.mp]
    · intro hlast
      rw [Option.some.inj (hlast hw)]
  · next hw => exact ⟨fun _ h => absurd h hw, fun _ => rfl⟩

end Card

/-! ## Responses that are not what was asked for -/

/-- Ends with 9000, and has the bytes that READ BINARY asked for. -/
def Complete (apdu rsp : List UInt8) : Prop :=
  2 ≤ rsp.length ∧ u16OfBe (rsp.getD (rsp.length - 2) 0) (rsp.getD (rsp.length - 1) 0) = 0x9000 ∧
    (apdu.getD 1 0 = 0xB0 → (apdu.getD 4 0).toNat + 2 ≤ rsp.length)

/-- An exchange that keeps a record of the responses. -/
def logged (exchange : Exchange S ε) :
    Exchange (S × List (List UInt8 × List UInt8)) ε := fun apdu s =>
  match exchange apdu s.1 with
  | (.ok rsp, s') => (.ok rsp, (s', s.2 ++ [(apdu, rsp)]))
  | (.error e, s') => (.error e, (s', s.2))

section Logged

variable {exchange : Exchange S ε}

open Prog (Triple)

/-- All responses in the record are complete. -/
def AllComplete (s : S × List (List UInt8 × List UInt8)) : Prop := ∀ x ∈ s.2, Complete x.1 x.2

/-- A response that passes the check ends with 9000. -/
theorem check_complete {step : String} {rsp : List UInt8} {s s' : S}
    (h : (check step rsp : Ndef S ε Unit) s = (.ok (), s')) :
    s' = s ∧ 2 ≤ rsp.length ∧
      u16OfBe (rsp.getD (rsp.length - 2) 0) (rsp.getD (rsp.length - 1) 0) = 0x9000 := by
  unfold check at h
  split at h
  · cases h
  · next hlen =>
    dsimp only at h
    split at h
    · cases h
    · next hsw =>
      cases h
      exact ⟨rfl, Nat.not_lt.mp hlen, not_not.mp hsw⟩

/-- The last response ends with 9000; whether it is long enough has still to be checked. -/
def Answered (apdu rsp : List UInt8) (s : S × List (List UInt8 × List UInt8)) : Prop :=
  ∃ log, s.2 = log ++ [(apdu, rsp)] ∧ (∀ x ∈ log, Complete x.1 x.2) ∧ 2 ≤ rsp.length ∧
    u16OfBe (rsp.getD (rsp.length - 2) 0) (rsp.getD (rsp.length - 1) 0) = 0x9000

theorem Answered.complete {apdu rsp : List UInt8} {s : S × List (List UInt8 × List UInt8)}
    (h : Answered apdu rsp s)
    (hlen : apdu.getD 1 0 = 0xB0 → (apdu.getD 4 0).toNat + 2 ≤ rsp.length) :
    AllComplete s := by
  obtain ⟨log, hlog, hall, htwo, hsw⟩ := h
  intro x hx
  rw [hlog, List.mem_append, List.mem_singleton] at hx
  rcases hx with hx | rfl
  · exact hall x hx
  · exact ⟨htwo, hsw, hlen⟩

theorem triple_request (step : String) (apdu : List UInt8) :
    Triple AllComplete (request (logged exchange) step apdu) (Answered apdu) fun _ => True := by
  rintro ⟨s, log⟩ hlog
  rw [request, Prog.bind_eq, Prog.mapError, logged]
  rcases exchange apdu s with ⟨_ | rsp, s'⟩
  · trivial
  · dsimp only
    rw [Prog.bind_eq]
    rcases hc : (check step rsp : Ndef _ ε Unit) (s', log ++ [(apdu, rsp)]) with ⟨_ | ⟨⟩, s''⟩
    · trivial
    · obtain ⟨rfl, htwo, hsw⟩ := check_complete hc
      exact ⟨log, rfl, hlog, htwo, hsw⟩

/-- A request whose response has no length to check. -/
theorem triple_select (step : String) {apdu : List UInt8} (h : apdu.getD 1 0 ≠ 0xB0) :
    Triple AllComplete (request (logged exchange) step apdu) (fun _ => AllComplete) fun _ => True :=
  (triple_request step apdu).conseq (fun _ hs => hs)
    (fun _ _ ha => ha.complete fun hb => absurd hb h) fun _ _ => trivial

theorem triple_readChunks (nlen mle : Nat) (hm : 0 < mle) (msg : List UInt8) (offset : Nat) :
    Triple AllComplete (readChunks (logged exchange) nlen mle hm msg offset) (fun _ => AllComplete)
      fun _ => True := by
  induction hgap : nlen - msg.length using Nat.strongRecOn generalizing msg offset with
  | _ gap ih =>
    rw [readChunks]
    split
    · next hlt =>
      refine (triple_request _ _).bind fun rsp => ?_
      split
      · exact Triple.throw _ fun _ _ => trivial
      · next hlen =>
        refine (ih _ ?_ _ _ rfl).conseq (fun s ha => ha.complete fun _ => ?_) (fun _ _ hs => hs)
          fun _ hs => hs
        · rw [List.length_append, List.length_take]
          omega
        · have hbyte := Nat.mod_le (min (min (nlen - msg.length) mle) 255) (2 ^ 8)
          change (UInt8.ofNat (min (min (nlen - msg.length) mle) 255)).toNat + 2 ≤ rsp.length
          rw [UInt8.toNat_ofNat']
          omega
    · exact Triple.pure _ fun _ hs => hs

theorem triple_readType4 :
    Triple AllComplete (readType4 (logged exchange)) (fun _ => AllComplete) fun _ => True := by
  refine (triple_select _ (by decide)).bind fun _ =>
    (triple_select _ (by simp [selectFile])).bind fun _ =>
    (triple_request _ _).bind fun rsp => Triple.ite (fun _ => Triple.throw _ fun _ _ => trivial)
      fun hlen => ?_
  refine Triple.conseq (P := AllComplete) ?_ (fun s ha => ha.complete fun _ => ?_)
    (fun _ _ hs => hs)
    fun _ hs => hs
  · refine Triple.ite (fun _ => Triple.throw _ fun _ _ => trivial) fun _ => ?_
    refine (triple_select _ (by simp [selectFile])).bind fun _ =>
      (triple_request _ _).bind fun rsp' =>
      Triple.ite (fun _ => Triple.throw _ fun _ _ => trivial) fun hlen' => ?_
    refine (triple_readChunks _ _ _ _ _).conseq (fun s ha => ha.complete fun _ => ?_)
      (fun _ _ hs => hs) fun _ hs => hs
    exact Nat.not_lt.mp hlen'
  · exact Nat.not_lt.mp hlen

end Logged

/-- The message is read as it is in the file unless its 65535th byte is a chunk of its own (it is
then FF, as the first byte of the file); and whatever the card does, a message is returned only if
every response was complete. -/
theorem readType4_ok_iff (c : Card) :
    ((readType4 (c.exchange : Exchange Selected Empty) .application).1 = .ok c.content ↔
      (c.content.length = 65535 → c.mle ∣ 65534 → c.content.getLast? = some 0xFF)) ∧
    ∀ (S ε : Type) (exchange : Exchange S ε) (s : S) (msg : List UInt8)
      (s' : S × List (List UInt8 × List UInt8)),
      readType4 (logged exchange) (s, []) = (.ok msg, s') → ∀ x ∈ s'.2, Complete x.1 x.2 := by
  refine ⟨?_, fun S ε exchange s msg s' h => triple_readType4.ok (fun x hx => by cases hx) h⟩
  have hiff := c.delivered_eq_iff
  have hand : (c.Wraps → c.content.getLast? = some 0xFF) ↔
      (c.content.length = 65535 → c.mle ∣ 65534 → c.content.getLast? = some 0xFF) := and_imp
  rw [c.readType4_eq, ← hand, ← hiff]
  exact ⟨fun h => Except.ok.inj h, fun h => congrArg Except.ok h⟩

/-- A card with the longest message and chunks of 62 bytes. -/
def longCard : Card where
  cc := [0x00, 0x0F, 0x20, 0x00, 0x3E, 0x00, 0x3B, 0x04, 0x06, 0xE1, 0x04, 0xFF, 0xFF, 0x00, 0x00]
  cc_length := rfl
  control_tag := rfl
  id_ne := by decide
  content := List.replicate 65535 0
  content_le := Nat.le_of_eq List.length_replicate

theorem longCard_misread :
    (readType4 (longCard.exchange : Exchange Selected Empty) .application).1 ≠
      .ok longCard.content := by
  have hlast : longCard.content.getLast? = some 0 := List.getLast?_replicate
  have hwraps : longCard.Wraps := ⟨List.length_replicate, by decide⟩
  intro h
  rw [longCard.readType4_eq] at h
  have hff := longCard.delivered_eq_iff.mp (Except.ok.inj h) hwraps
  rw [hlast] at hff
  cases hff

end Type4

end PaperNamePlate
