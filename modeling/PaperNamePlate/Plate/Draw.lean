import PaperNamePlate.Plate.Painting

/-!
# Drawing the plate

The layout of the plate over a renderer of its fonts, which is a parameter: the points it
paints for a text centred on a baseline. Everything but the image of the plate is painted point
by point, so an image is on the screen whatever the fonts look like: one that fills the screen as it
is, a smaller one with at most the footer over it.
-/
namespace PaperNamePlate

open Embedded Epd

inductive Font
  | big
  | mid
  | small
  | jp
deriving DecidableEq, Repr

/-- The points that are painted for a text centred at a column on a baseline. -/
abbrev Typesetter : Type := Font → Str → Int32 → Int32 → List (Int32 × Int32)

def isPlainAscii (s : Str) : Bool := (utf8 s).all fun b => 0x20 ≤ b && b < 0x7F

section

variable (ts : Typesetter)

def drawText (fb : FrameBuffer) (font : Font) (text : Str) (x y : Int32) (level : UInt8) :
    Option FrameBuffer :=
  (ts font text x y).foldlM (fun fb p => fb.setPixel p.1 p.2 level) fb

/-- A pixel of `Scale2x`. -/
def setPixel2x (fb : FrameBuffer) (p : Int32 × Int32) (level : UInt8) : Option FrameBuffer := do
  let (x, y) := (p.1 * 2, p.2 * 2)
  let fb ← fb.setPixel x y level
  let fb ← fb.setPixel (x + 1) y level
  let fb ← fb.setPixel x (y + 1) level
  fb.setPixel (x + 1) (y + 1) level

/-- Text in coordinates that are half as large. -/
def drawText2x (fb : FrameBuffer) (text : Str) (x y : Int32) (level : UInt8) : Option FrameBuffer :=
  (ts .jp text x y).foldlM (fun fb p => setPixel2x fb p level) fb

/-- A contact line, if there is one, and where the next one goes. -/
def drawContact (s : FrameBuffer × Int32) (text : Str) : Option (FrameBuffer × Int32) :=
  if text.isEmpty then some s
  else do
    let fb ← drawText ts s.1 (if isPlainAscii text then .mid else .jp) text 240 s.2 1
    pure (fb, s.2 + 42)

def drawContacts (fb : FrameBuffer) (c : PlateContent) : Option FrameBuffer := do
  let github := if c.github.isEmpty then [] else "github.com/".toList ++ c.github
  let x := if c.x.isEmpty then [] else '@' :: c.x ++ " (X)".toList
  let (fb, _) ← [c.email, github, x].foldlM (drawContact ts) (fb, 318)
  pure fb

def drawName (fb : FrameBuffer) (c : PlateContent) : Option FrameBuffer :=
  if isPlainAscii c.name then drawText ts fb .big c.name 240 260 0
  else drawText2x ts fb c.name 120 130 0

def drawUrl (fb : FrameBuffer) (c : PlateContent) : Option FrameBuffer :=
  if c.url.isEmpty then some fb else drawText ts fb .small c.url 240 490 0

def drawNote (fb : FrameBuffer) (c : PlateContent) : Option FrameBuffer :=
  if c.note.isEmpty then some fb
  else drawText ts fb (if isPlainAscii c.note then .small else .jp) c.note 240 540 1

/-- Everything above the image. -/
def drawTexts (fb : FrameBuffer) (c : PlateContent) : Option FrameBuffer := do
  let fb ← fb.fillSolid 0 0 WIDTH 60 0
  let fb ← drawText ts fb .small "PAPER NAME PLATE".toList 240 38 3
  let fb ← drawName ts fb c
  let fb ← drawContacts ts fb c
  let fb ← fb.fillSolid 60 430 (WIDTH - 120) 3 2
  let fb ← drawUrl ts fb c
  drawNote ts fb c

def imageScale (img : MonoImage) : Int32 := if img.width ≤ 120 ∧ img.height ≤ 100 then 2 else 1

/-- The image, in the area below the note. -/
def drawPicture (fb : FrameBuffer) (c : PlateContent) : Option FrameBuffer :=
  match c.image with
  | some img => drawImage fb img 240 660 (imageScale img)
  | none => some fb

def drawFooter (fb : FrameBuffer) : Option FrameBuffer :=
  drawText ts fb .small "NFC: tap to receive / write to update".toList 240 770 1

def drawLayout (fb : FrameBuffer) (c : PlateContent) : Option FrameBuffer := do
  let fb ← drawTexts ts fb c
  let fb ← drawPicture fb c
  drawFooter ts fb

/-- A large image replaces the whole layout. -/
def large (c : PlateContent) : Option MonoImage := c.image.filter fun img => img.width ≥ 400

/-- Render the full name-plate screen. -/
def draw (fb : FrameBuffer) (c : PlateContent) : Option FrameBuffer :=
  let fb := fb.clear 3
  match large c with
  | some img => drawImage fb img 240 400 1
  | none => drawLayout ts fb c

end

/-! ## What is painted -/

theorem bit_filled (b : UInt8) {r c : Nat} (hr : r < WIDTH) (hc : c < HEIGHT) :
    (Plane.filled b).bit r c = bitAt b (c % 8) := by
  have hidx : r * ROW_BYTES + c / 8 < PLANE_BYTES := by
    have hwidth : WIDTH = 480 := rfl
    have hheight : HEIGHT = 800 := rfl
    have hbytes : ROW_BYTES = 100 := rfl
    have hplane : PLANE_BYTES = 48000 := rfl
    rw [hbytes, hplane]
    omega
  rw [Plane.bit, Plane.byte, Plane.filled, List.getD_eq_getElem _ _ (by simpa using hidx),
    List.getElem_replicate]

/-- A cleared buffer is white. -/
theorem clear_white (fb : FrameBuffer) {x y : Nat} (hx : x < WIDTH) (hy : y < HEIGHT) :
    (fb.clear 3).getPixel x y = 3 := by
  obtain ⟨hr, hc⟩ := (fb.clear 3).orientation.native_lt hx hy
  have hones : ∀ k < 8, bitAt 0xFF k = true := by decide
  have hbit := hones _ (Nat.mod_lt ((fb.clear 3).orientation.native x y).2 (by decide))
  have hlsb : (fb.clear 3).lsb = Plane.filled 0xFF := rfl
  have hmsb : (fb.clear 3).msb = Plane.filled 0xFF := rfl
  unfold FrameBuffer.getPixel FrameBuffer.level
  dsimp only
  rw [hlsb, hmsb, bit_filled _ hr hc, hbit]
  rfl

/-- The drawing of `fb'` over `fb` sets pixels to gray levels of `L` and leaves the others alone. -/
structure Paints (L : Set Nat) (fb fb' : FrameBuffer) : Prop where
  orientation : fb'.orientation = fb.orientation
  pixel : ∀ p, pixels fb' p ∈ L ∨ pixels fb' p = pixels fb p

namespace Paints

variable {L : Set Nat} {fb fb' fb'' : FrameBuffer}

theorem refl (fb : FrameBuffer) : Paints L fb fb := ⟨rfl, fun _ => .inr rfl⟩

theorem trans (h : Paints L fb fb') (h' : Paints L fb' fb'') : Paints L fb fb'' := by
  refine ⟨h'.orientation.trans h.orientation, fun p => ?_⟩
  rcases h'.pixel p with hp | hp
  · exact .inl hp
  · rw [hp]
    exact h.pixel p

theorem setPixel {level : UInt8} (hlevel : level.toNat % 4 ∈ L) (fb : FrameBuffer) (x y : Int32) :
    ∃ fb', fb.setPixel x y level = some fb' ∧ Paints L fb fb' := by
  obtain ⟨fb', hset, ho, hpix⟩ := fb.setPixel_eq x y level
  refine ⟨fb', hset, ho, fun p => ?_⟩
  have hp : pixels fb' p = _ := hpix p.1 p.2 p.1.isLt p.2.isLt
  by_cases hin : x.toInt = p.1 ∧ y.toInt = p.2
  · rw [hp, if_pos hin]
    exact .inl hlevel
  · rw [hp, if_neg hin]
    exact .inr rfl

/-- A loop paints what its steps paint. -/
theorem foldlM {α : Type*} {f : FrameBuffer → α → Option FrameBuffer}
    (h : ∀ fb a, ∃ fb', f fb a = some fb' ∧ Paints L fb fb') (xs : List α) (fb : FrameBuffer) :
    ∃ fb', xs.foldlM f fb = some fb' ∧ Paints L fb fb' := by
  induction xs generalizing fb with
  | nil => exact ⟨fb, rfl, refl fb⟩
  | cons a xs ih =>
    obtain ⟨fb₁, hf, h₁⟩ := h fb a
    obtain ⟨fb', hfold, h'⟩ := ih fb₁
    refine ⟨fb', ?_, h₁.trans h'⟩
    rw [List.foldlM_cons, hf]
    exact hfold

/-- One drawing after another. -/
theorem bind {o : Option FrameBuffer} {k : FrameBuffer → Option FrameBuffer}
    (h : ∃ fb', o = some fb' ∧ Paints L fb fb')
    (hk : ∀ fb, ∃ fb', k fb = some fb' ∧ Paints L fb fb') :
    ∃ fb', (o >>= k) = some fb' ∧ Paints L fb fb' := by
  obtain ⟨fb₁, rfl, h₁⟩ := h
  obtain ⟨fb', hfb', h'⟩ := hk fb₁
  exact ⟨fb', hfb', h₁.trans h'⟩

variable {level : UInt8} (hlevel : level.toNat % 4 ∈ L) (ts : Typesetter)
include hlevel

theorem of_drawText (fb : FrameBuffer) (font : Font) (text : Str) (x y : Int32) :
    ∃ fb', drawText ts fb font text x y level = some fb' ∧ Paints L fb fb' := by
  unfold drawText
  apply foldlM
  intro fb p
  exact setPixel hlevel fb p.1 p.2

theorem of_drawText2x (fb : FrameBuffer) (text : Str) (x y : Int32) :
    ∃ fb', drawText2x ts fb text x y level = some fb' ∧ Paints L fb fb' := by
  have hdot : ∀ fb p, ∃ fb', setPixel2x fb p level = some fb' ∧ Paints L fb fb' := by
    intro fb p
    unfold setPixel2x
    refine bind (setPixel hlevel fb _ _) fun fb => ?_
    refine bind (setPixel hlevel fb _ _) fun fb => ?_
    exact bind (setPixel hlevel fb _ _) fun fb => setPixel hlevel fb _ _
  unfold drawText2x
  apply foldlM
  exact hdot

theorem of_fillSolid (fb : FrameBuffer) (x y : Int) (w h : Nat) :
    ∃ fb', fb.fillSolid x y w h level = some fb' ∧ Paints L fb fb' := by
  unfold FrameBuffer.fillSolid
  apply foldlM
  intro fb dx
  apply foldlM
  intro fb dy
  exact setPixel hlevel fb _ _

omit hlevel

/-- The contact lines are painted, wherever each of them leads the next one. -/
theorem of_drawContacts (hgray : 1 ∈ L) (fb : FrameBuffer) (c : PlateContent) :
    ∃ fb', drawContacts ts fb c = some fb' ∧ Paints L fb fb' := by
  have hline : ∀ s text, ∃ s', drawContact ts s text = some s' ∧ Paints L s.1 s'.1 := by
    intro s text
    unfold drawContact
    split
    · exact ⟨s, rfl, refl s.1⟩
    · have hlevel : (1 : UInt8).toNat % 4 ∈ L := hgray
      obtain ⟨fb', hdraw, h⟩ := of_drawText hlevel ts s.1
        (if isPlainAscii text then .mid else .jp) text 240 s.2
      refine ⟨(fb', s.2 + 42), ?_, h⟩
      rw [hdraw]
      rfl
  have hlines : ∀ (xs : List Str) (s : FrameBuffer × Int32),
      ∃ s', xs.foldlM (drawContact ts) s = some s' ∧ Paints L s.1 s'.1 := by
    intro xs
    induction xs with
    | nil => exact fun s => ⟨s, rfl, refl s.1⟩
    | cons text xs ih =>
      intro s
      obtain ⟨s₁, hfirst, h₁⟩ := hline s text
      obtain ⟨s', hrest, h'⟩ := ih s₁
      refine ⟨s', ?_, h₁.trans h'⟩
      rw [List.foldlM_cons, hfirst]
      exact hrest
  unfold drawContacts
  dsimp only
  obtain ⟨s', hfold, h⟩ := hlines [c.email, _, _] (fb, 318)
  refine ⟨s'.1, ?_, h⟩
  rw [hfold]
  rfl

theorem of_drawTexts (fb : FrameBuffer) (c : PlateContent) :
    ∃ fb', drawTexts ts fb c = some fb' ∧ Paints Set.univ fb fb' := by
  have hany : ∀ level : UInt8, level.toNat % 4 ∈ Set.univ := fun _ => Set.mem_univ _
  have hname : ∀ fb, ∃ fb', drawName ts fb c = some fb' ∧ Paints Set.univ fb fb' := by
    intro fb
    unfold drawName
    split
    · exact of_drawText (hany 0) ts fb _ _ _ _
    · exact of_drawText2x (hany 0) ts fb _ _ _
  have hurl : ∀ fb, ∃ fb', drawUrl ts fb c = some fb' ∧ Paints Set.univ fb fb' := by
    intro fb
    unfold drawUrl
    split
    · exact ⟨fb, rfl, refl fb⟩
    · exact of_drawText (hany 0) ts fb _ _ _ _
  have hnote : ∀ fb, ∃ fb', drawNote ts fb c = some fb' ∧ Paints Set.univ fb fb' := by
    intro fb
    unfold drawNote
    split
    · exact ⟨fb, rfl, refl fb⟩
    · exact of_drawText (hany 1) ts fb _ _ _ _
  unfold drawTexts
  refine bind (of_fillSolid (hany 0) fb _ _ _ _) fun fb => ?_
  refine bind (of_drawText (hany 3) ts fb _ _ _ _) fun fb => ?_
  refine bind (hname fb) fun fb => ?_
  refine bind (of_drawContacts ts (Set.mem_univ 1) fb c) fun fb => ?_
  refine bind (of_fillSolid (hany 2) fb _ _ _ _) fun fb => ?_
  exact bind (hurl fb) hnote

end Paints

/-! ## The image on the screen -/

/-- The pixels that a text paints. -/
def letters (ts : Typesetter) (font : Font) (text : Str) (x y : Int32) : Set Pixel :=
  {p | ∃ q ∈ ts font text x y, q.1.toInt = p.1 ∧ q.2.toInt = p.2}

instance (ts : Typesetter) (font : Font) (text : Str) (x y : Int32) :
    DecidablePred (· ∈ letters ts font text x y) :=
  fun p => inferInstanceAs
    (Decidable (∃ q ∈ ts font text x y, q.1.toInt = p.1 ∧ q.2.toInt = p.2))

theorem drawText_overwrites (ts : Typesetter) (fb : FrameBuffer) (font : Font) (text : Str)
    (x y : Int32) (level : UInt8) :
    ∃ fb', drawText ts fb font text x y level = some fb' ∧ fb'.orientation = fb.orientation ∧
      Overwrites (level.toNat % 4) (letters ts font text x y) (pixels fb) (pixels fb') := by
  have hpoint : ∀ q ∈ ts font text x y, ∀ f : FrameBuffer, f.orientation = fb.orientation →
      ∃ f', f.setPixel q.1 q.2 level = some f' ∧ f'.orientation = fb.orientation ∧
        Overwrites (level.toNat % 4) {p : Pixel | q.1.toInt = p.1 ∧ q.2.toInt = p.2} (pixels f)
          (pixels f') := by
    intro q _ f hf
    obtain ⟨f', hset, ho, hover⟩ := setPixel_overwrites f q.1 q.2 level
    exact ⟨f', hset, ho.trans hf, hover⟩
  exact foldlM_overwrites hpoint rfl

/-- The pixels of the footer. -/
abbrev footer (ts : Typesetter) : Set Pixel :=
  letters ts .small "NFC: tap to receive / write to update".toList 240 770

instance (img : MonoImage) (x0 y0 scale : Int) : DecidablePred (· ∈ painted img x0 y0 scale) :=
  fun p => inferInstanceAs (Decidable (img.Black ((p.1 - x0) / scale) ((p.2 - y0) / scale)))

theorem draw_large {c : PlateContent} {img : MonoImage} (himg : large c = some img)
    (hsized : img.Sized) (ts : Typesetter) (fb : FrameBuffer) :
    ∃ fb', draw ts fb c = some fb' ∧ fb'.orientation = fb.orientation ∧
      ∀ p, pixels fb' p =
        if p ∈ painted img (240 - img.width.toNat / 2) (400 - img.height.toNat / 2) 1 then 0
          else 3 := by
  have hw := hsized.width_le
  have hh := hsized.height_le
  have hone : (1 : Int32).toInt = 1 := rfl
  have hcenter : (240 : Int32).toInt = 240 ∧ (400 : Int32).toInt = 400 := ⟨rfl, rfl⟩
  have hx : 0 ≤ (240 : Int32).toInt ∧ (240 : Int32).toInt < 2 ^ 30 := by decide
  have hy : 0 ≤ (400 : Int32).toInt ∧ (400 : Int32).toInt < 2 ^ 30 := by decide
  have hscale : 0 < (1 : Int32).toInt := by decide
  obtain ⟨fb', hdraw, ho, hover⟩ := drawImage_overwrites (fb.clear 3) hsized hx hy hscale
    (by rw [hone]; omega) (by rw [hone]; omega)
  refine ⟨fb', ?_, ho, fun p => ?_⟩
  · unfold draw
    rw [himg]
    exact hdraw
  · rw [hone, hcenter.1, hcenter.2, Int.mul_one, Int.mul_one] at hover
    split
    · next hp => exact hover.inside p hp
    · next hp => exact (hover.outside p hp).trans (clear_white fb p.1.isLt p.2.isLt)

/-- A smaller image is painted over the layout, and only the footer over it. -/
theorem draw_small {c : PlateContent} {img : MonoImage} (himage : c.image = some img)
    (hsmall : large c = none) (hsized : img.Sized) (ts : Typesetter) (fb : FrameBuffer) :
    ∃ fb' plain, draw ts fb c = some fb' ∧ draw ts fb { c with image := none } = some plain ∧
      fb'.orientation = fb.orientation ∧
      ∀ p, pixels fb' p =
        if p ∈ painted img (240 - img.width.toNat * (imageScale img).toInt / 2)
          (660 - img.height.toNat * (imageScale img).toInt / 2) (imageScale img).toInt ∧
            p ∉ footer ts
        then 0 else pixels plain p := by
  have hw := hsized.width_le
  have hh := hsized.height_le
  have hscale : (imageScale img).toInt = 1 ∨ (imageScale img).toInt = 2 := by
    unfold imageScale
    split
    · exact .inr rfl
    · exact .inl rfl
  obtain ⟨fb₁, htexts, hpaints⟩ := Paints.of_drawTexts ts (fb.clear 3) c
  have hx : 0 ≤ (240 : Int32).toInt ∧ (240 : Int32).toInt < 2 ^ 30 := by decide
  have hy : 0 ≤ (660 : Int32).toInt ∧ (660 : Int32).toInt < 2 ^ 30 := by decide
  have hpos : 0 < (imageScale img).toInt := by omega
  obtain ⟨fb₂, hdraw, ho, hover⟩ := drawImage_overwrites fb₁ hsized hx hy hpos
    (by rcases hscale with h | h <;> rw [h] <;> omega)
    (by rcases hscale with h | h <;> rw [h] <;> omega)
  obtain ⟨fb₃, hfooter, hfoot, hletters⟩ := drawText_overwrites ts fb₂ .small
    "NFC: tap to receive / write to update".toList 240 770 1
  obtain ⟨plain, hplain, -, hletters'⟩ := drawText_overwrites ts fb₁ .small
    "NFC: tap to receive / write to update".toList 240 770 1
  refine ⟨fb₃, plain, ?_, ?_, ?_, fun p => ?_⟩
  · unfold draw
    rw [hsmall]
    dsimp only
    unfold drawLayout drawPicture drawFooter
    rw [htexts, himage]
    dsimp only [Option.bind_eq_bind, Option.bind_some]
    rw [hdraw]
    exact hfooter
  · change drawLayout ts (fb.clear 3) { c with image := none } = some plain
    have htexts' : drawTexts ts (fb.clear 3) { c with image := none } = some fb₁ := htexts
    unfold drawLayout drawFooter
    rw [htexts']
    exact hplain
  · rw [hfoot, ho, hpaints.orientation]
    rfl
  · by_cases hfootp : p ∈ footer ts
    · rw [if_neg (fun h => h.2 hfootp), hletters.inside p hfootp, hletters'.inside p hfootp]
    · rw [hletters.outside p hfootp, hletters'.outside p hfootp]
      split
      · next hp => exact hover.inside p hp.1
      · next hp => exact hover.outside p fun hin => hp ⟨hin, hfootp⟩

end PaperNamePlate
