import PaperNamePlate.Nfc.Select
import PaperNamePlate.Plate.Draw

/-!
# Drawing the tag panel

What reader mode shows of a tag, drawn over what is in the buffer. The outline of a rectangle and
the two monospaced fonts are parameters, as the fonts of the plate are.
-/
namespace PaperNamePlate

open Embedded Epd

inductive MonoFont
  | FONT_10X20
  | FONT_9X15
deriving DecidableEq, Repr

/-- What the graphics libraries paint. -/
structure Renderer where
  typesetter : Typesetter
  /-- The points of a text that starts at a column on a baseline. -/
  mono : MonoFont → Str → Int32 → Int32 → List (Int32 × Int32)
  /-- The points of the outline of a rectangle in a stroke. -/
  outline : Int → Int → Nat → Nat → Nat → List (Int32 × Int32)

def PANEL_X : Nat := 12
def PANEL_Y : Nat := 200
def PANEL_W : Nat := WIDTH - 24
def PANEL_H : Nat := 380

/-- A number in upper-case hexadecimal digits, at least so many. -/
def hexDigits (width n : Nat) : Str :=
  let ds := (Nat.toDigits 16 n).map Char.toUpper
  List.replicate (width - ds.length) '0' ++ ds

def hex (bytes : List UInt8) : Str := join ':' (bytes.map fun b => hexDigits 2 b.toNat)

def chunks {α : Type} (n : Nat) (xs : List α) : List (List α) :=
  (List.range ((xs.length + n - 1) / n)).map fun i => (xs.drop (i * n)).take n

/-- `core::str::from_utf8`. -/
def fromUtf8 (bs : List UInt8) : Option Str :=
  if utf8 (lossy bs) = bs then some (lossy bs) else none

namespace NfcaTag

def isIso14443_4 (t : NfcaTag) : Bool := t.sak &&& 0x20 ≠ 0

def kind (t : NfcaTag) : Str :=
  if t.isIso14443_4 then "ISO14443-4 (DESFire/phone)".toList
  else if t.sak = 0x00 then "Type 2 (NTAG/Ultralight)".toList
  else if t.sak &&& 0x18 ≠ 0 then "MIFARE Classic".toList
  else "NFC-A".toList

end NfcaTag

/-- What is shown of a tag. -/
structure TagView where
  tag : NfcaTag
  count : UInt32
  /-- The first blocks of a Type 2 tag. -/
  t2 : Option (List UInt8) := none
  /-- The message of a Type 4 tag, or why there is none. -/
  detail : Option Str := none

section

variable (r : Renderer)

def drawPoints (fb : FrameBuffer) (ps : List (Int32 × Int32)) (level : UInt8) :
    Option FrameBuffer :=
  ps.foldlM (fun fb p => fb.setPixel p.1 p.2 level) fb

def drawBlock (fb : FrameBuffer) (line : Nat × List UInt8) : Option FrameBuffer :=
  drawPoints fb (r.mono .FONT_9X15 ((toString line.1).toList ++ ": ".toList ++ hex line.2) 40
    (388 + Int32.ofNat line.1 * 22)) 0

def drawTagPanel (fb : FrameBuffer) (tag : NfcaTag) (count : UInt32) (t2 : Option (List UInt8)) :
    Option FrameBuffer := do
  let small := r.mono .FONT_9X15
  let fb ← fb.fillSolid PANEL_X PANEL_Y PANEL_W PANEL_H 3
  let fb ← drawPoints fb (r.outline PANEL_X PANEL_Y PANEL_W PANEL_H 2) 1
  let fb ← drawPoints fb
    (r.mono .FONT_10X20 ("Tag #".toList ++ (toString count.toNat).toList) 24 236) 0
  let fb ← drawPoints fb (small ("UID: ".toList ++ hex (Field.uidBytes tag)) 24 276) 0
  let fb ← drawPoints fb
    (small ("ATQA: ".toList ++ hexDigits 4 tag.atqa.toNat ++ "  SAK: ".toList ++
    hexDigits 2 tag.sak.toNat) 24 300) 0
  let fb ← drawPoints fb (small ("Type: ".toList ++ tag.kind) 24 324) 0
  match t2 with
  | none => pure fb
  | some d => do
    let fb ← drawPoints fb (small "Blocks 0-3:".toList 24 364) 0
    ((chunks 4 d).zipIdx.map Prod.swap).foldlM (drawBlock r) fb

/-- A line of the detail; bytes that a character is cut in are skipped. -/
def drawDetailLine (fb : FrameBuffer) (line : Nat × List UInt8) : Option FrameBuffer :=
  match fromUtf8 line.2 with
  | some text => drawPoints fb (r.mono .FONT_9X15 text 24 (364 + Int32.ofNat line.1 * 22)) 0
  | none => some fb

def drawTagDetail (fb : FrameBuffer) (text : Str) : Option FrameBuffer :=
  (((chunks 48 (utf8 text)).take 5).zipIdx.map Prod.swap).foldlM (drawDetailLine r) fb

/-- The panel of a tag, with its detail. -/
def drawTagView (fb : FrameBuffer) (t : TagView) : Option FrameBuffer := do
  let fb ← drawTagPanel r fb t.tag t.count t.t2
  match t.detail with
  | some text => drawTagDetail r fb text
  | none => pure fb

end

namespace Paints

variable (r : Renderer)

theorem of_drawPoints (fb : FrameBuffer) (ps : List (Int32 × Int32)) (level : UInt8) :
    ∃ fb', drawPoints fb ps level = some fb' ∧ Paints Set.univ fb fb' := by
  unfold drawPoints
  apply foldlM
  intro fb p
  exact setPixel (Set.mem_univ _) fb p.1 p.2

theorem of_drawTagPanel (fb : FrameBuffer) (tag : NfcaTag) (count : UInt32)
    (t2 : Option (List UInt8)) :
    ∃ fb', drawTagPanel r fb tag count t2 = some fb' ∧ Paints Set.univ fb fb' := by
  have hany : (3 : UInt8).toNat % 4 ∈ Set.univ := Set.mem_univ _
  unfold drawTagPanel
  dsimp only
  refine bind (of_fillSolid hany fb _ _ _ _) fun fb => ?_
  refine bind (of_drawPoints fb _ _) fun fb => ?_
  refine bind (of_drawPoints fb _ _) fun fb => ?_
  refine bind (of_drawPoints fb _ _) fun fb => ?_
  refine bind (of_drawPoints fb _ _) fun fb => ?_
  refine bind (of_drawPoints fb _ _) fun fb => ?_
  cases t2 with
  | none => exact ⟨fb, rfl, refl fb⟩
  | some d =>
    refine bind (of_drawPoints fb _ _) fun fb => ?_
    apply foldlM
    intro fb line
    exact of_drawPoints fb _ _

theorem of_drawTagView (fb : FrameBuffer) (t : TagView) :
    ∃ fb', drawTagView r fb t = some fb' ∧ Paints Set.univ fb fb' := by
  unfold drawTagView
  refine bind (of_drawTagPanel r fb _ _ _) fun fb => ?_
  cases t.detail with
  | none => exact ⟨fb, rfl, refl fb⟩
  | some text =>
    apply foldlM
    intro fb line
    unfold drawDetailLine
    split
    · exact of_drawPoints fb _ _
    · exact ⟨fb, rfl, refl fb⟩

end Paints

end PaperNamePlate
