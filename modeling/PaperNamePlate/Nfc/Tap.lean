import PaperNamePlate.App.Reader
import PaperNamePlate.Nfc.IsoDep
import PaperNamePlate.Nfc.Type4
import PaperNamePlate.Plate.Parsers
import PaperNamePlate.Plate.TagPanel

/-!
# Reading a tag

`pollNfc` looks for a tag and tells whether it is a new one. Of a new tag it reads what the panel
shows: the first blocks of a Type 2 tag, the message of a Type 4 tag. A card that parts when it is
told to is at rest afterwards, whatever it said.
-/
namespace PaperNamePlate

open Embedded

/-! ## ISO-DEP sessions -/

def FSCI_TABLE : List Nat := [16, 24, 32, 40, 48, 64, 96, 128, 256]

theorem getD_FSCI_TABLE_le {i : Nat} (h : i ≤ 8) : FSCI_TABLE.getD i 0 ≤ 256 := by
  have hall : ∀ i < 9, FSCI_TABLE.getD i 0 ≤ 256 := by decide
  exact hall i (by omega)

/-- The ATS that an answer without its CRC starts with. -/
def Ats.parse (data : List UInt8) : Option Ats :=
  let tl := (data.getD 0 0).toNat
  if tl < 1 ∨ data.length < tl then none
  else if tl < 2 then some ⟨40, 32, by decide⟩
  else
    let t0 := data.getD 1 0
    -- TA(1) is skipped
    let idx := if t0 &&& 0x10 ≠ 0 then 3 else 2
    some {
      fwtMs :=
        if t0 &&& 0x20 ≠ 0 ∧ idx < tl then
          max 5 (min (302 * 2 ^ min (data.getD idx 0 >>> 4).toNat 14 / 1000) 3000)
        else 40
      fsc := FSCI_TABLE.getD (min (t0 &&& 0x0F).toNat 8) 0
      fsc_le := getD_FSCI_TABLE_le (Nat.min_le_right _ _) }

namespace IsoDep

variable {I : Type} [I2c I]

/-- RATS to a tag that was just selected. -/
def activate : Prog (St25r3916 I) (IsoDepError (I2c.Error I)) IsoDep := do
  let buf ← (St25r3916.transceive [0xE0, 0x80] 32 70).mapError .nfc
  if buf.length < 3 then Prog.throw .protocol
  else
    match Ats.parse (buf.take (buf.length - 2)) with
    | none => Prog.throw .protocol
    | some ats => pure { ats }

/-- S(DESELECT). -/
def deselect (isoDep : IsoDep) : Prog (St25r3916 I) (IsoDepError (I2c.Error I)) Unit := do
  let rx ← (St25r3916.transceive [0xC2] 8 isoDep.ats.fwtMs).mapError .nfc
  if 3 ≤ rx.length ∧ rx.getD 0 0 = 0xC2 then pure () else Prog.throw .protocol

end IsoDep

/-! ## A message in words -/

def ascii (bs : List UInt8) : Str :=
  bs.map fun b => if 0x20 ≤ b ∧ b < 0x7F then Char.ofNat b.toNat else '.'

def summarizeRecord (r : Ndef.Record) : Str :=
  if r.tnf = 1 ∧ r.rtype = [0x55] then
    "URI: ".toList ++ uriPrefix (r.payload.headD 0) ++ ascii (r.payload.drop 1)
  else if r.tnf = 1 ∧ r.rtype = [0x54] then
    let langLen := (r.payload.headD 0 &&& 0x3F).toNat
    "Text: ".toList ++ ascii (r.payload.drop (1 + langLen))
  else
    "TNF=".toList ++ (toString r.tnf.toNat).toList ++ " type=".toList ++ ascii r.rtype ++
      " (".toList ++
      (toString r.payload.length).toList ++ "B)".toList

/-- A human-readable summary of the first record of a message. -/
def summarize (msg : List UInt8) : Str :=
  match firstRecordIn .release msg with
  | .ok r => summarizeRecord r
  | .error _ => "(empty/invalid NDEF)".toList

/-- What the panel says of a Type 4 tag. -/
def ndefDetail {ε : Type} : Except (NdefError ε) (List UInt8) → Str
  | .ok msg => summarize msg
  | .error (.status step sw) =>
    "no NDEF (".toList ++ step.toList ++ ": SW=".toList ++ hexDigits 4 sw.toNat ++ ")".toList
  | .error _ => "no NDEF (protocol error)".toList

/-! ## Reader mode -/

/-- A four-byte UID that starts with 08 changes with every activation. -/
def NfcaTag.hasRandomUid (t : NfcaTag) : Bool := t.uidLen = 4 ∧ t.uid.getD 0 0 = 0x08

/-- Whether two sightings are taken for one tag. -/
def NfcaTag.same (t u : NfcaTag) : Bool :=
  Field.uidBytes t = Field.uidBytes u ∨ t.hasRandomUid ∧ u.hasRandomUid

def TAG_FORGET_MS : Nat := 1500

namespace St25r3916

variable {I : Type} [I2c I]

/-- READ of a Type 2 tag. -/
def t2Read (block : UInt8) : Driver I (List UInt8) := do
  let buf ← transceive [0x30, block] 18 10
  if buf.length < 16 then Prog.throw .protocol else pure (buf.take 16)

/-- The first blocks of a tag and its detail. -/
def readTag (t : NfcaTag) (nfc : St25r3916 I) :
    (Option (List UInt8) × Option Str) × St25r3916 I :=
  if t.isIso14443_4 then
    match IsoDep.activate nfc with
    | (.ok isoDep, nfc) =>
      let (msg, d) := Type4.readType4 IsoDep.exchange ⟨isoDep, nfc⟩
      ((none, some (ndefDetail msg)), (d.isoDep.deselect d.nfc).2)
    | (.error _, nfc) => ((none, none), (nfcaHalt nfc).2)
  else if t.sak = 0x00 then
    match t2Read 0 nfc with
    | (.ok d, nfc) => ((some d, none), (nfcaHalt nfc).2)
    | (.error _, nfc) => ((none, none), (nfcaHalt nfc).2)
  else ((none, none), (nfcaHalt nfc).2)

end St25r3916

/-- What reader mode knows of the tags that it saw. -/
structure Watch where
  lastTag : Option NfcaTag := none
  tagCount : UInt32 := 0
  /-- In milliseconds. -/
  lastActivity : Nat := 0
  fieldAlwaysOn : Bool := false

namespace Watch

open St25r3916

variable {I : Type} [I2c I]

/-- While no tag is around the field is only on during a poll. -/
def dutyCycling (w : Watch) : Bool := w.lastTag.isNone && !w.fieldAlwaysOn

/-- A poll that found a tag, at a time. -/
def found (now : Nat) (w : Watch) (t : NfcaTag) (nfc : St25r3916 I) : TagPoll I TagView × Watch :=
  let w := { w with lastActivity := now }
  if w.lastTag.any fun u => u.same t then (⟨(nfcaHalt nfc).2, none⟩, w)
  else
    let count := w.tagCount + 1
    let ((t2, detail), nfc) := readTag t nfc
    (⟨nfc, some { tag := t, count, t2, detail }⟩, { w with tagCount := count, lastTag := some t })

/-- A poll that found none. -/
def missed (now : Nat) (w : Watch) : Watch :=
  if w.lastTag.isSome ∧ TAG_FORGET_MS < now - w.lastActivity then { w with lastTag := none } else w

/-- Poll for a tag; `none` where the anticollision panics. -/
def pollNfc (now : Nat) (w : Watch) (nfc : St25r3916 I) : Option (TagPoll I TagView × Watch) :=
  match if w.dutyCycling then fieldOn nfc else (.ok (), nfc) with
  | (.error _, nfc) => some (⟨nfc, none⟩, w)
  | (.ok _, nfc) =>
    match nfcaPoll nfc with
    | (.ok .panic, _) => none
    | (.ok (.tag t), nfc) => some (w.found now t nfc)
    | (.ok .nothing, nfc) =>
      some (⟨if w.dutyCycling then (fieldOff nfc).2 else nfc, none⟩, w.missed now)
    | (.error (.i2c _), nfc) => some (⟨(configureNfca (fieldOff nfc).2).2, none⟩, w)
    | (.error _, nfc) => some (⟨nfc, none⟩, w)

end Watch

end PaperNamePlate
