import PaperNamePlate.App.Alike
import PaperNamePlate.App.Paper
import PaperNamePlate.Epd.Glass
import PaperNamePlate.Plate.TagPanel

/-!
# The e-paper panel

The driver with its two frame buffers, wired to the controller. In deep sleep the controller hears
nothing until it is reset. On a bus without failures the panel shows the pictures that the app
draws: what is displayed is the baseline of every differential update.
-/
namespace PaperNamePlate

open Embedded Epd

namespace Epd

/-! ## What leaves the glass alone -/

namespace Controller

theorem glass_onData (k : Controller) (b : UInt8) : (k.onData b).screen.glass = k.screen.glass := by
  unfold onData
  split_ifs <;> rfl

theorem glass_feed (k : Controller) (bs : List UInt8) :
    (k.feed true bs).screen.glass = k.screen.glass := by
  induction bs generalizing k with
  | nil => rfl
  | cons b bs ih => rw [feed_data_cons, ih, glass_onData]

theorem glass_onCommand (k : Controller) {c : UInt8} (h : c ≠ cmd.MASTER_ACTIVATION) :
    (k.onCommand c).screen.glass = k.screen.glass := by
  unfold onCommand
  dsimp only
  rw [if_neg h]
  split <;> rfl

theorem glass_send (k : Controller) {c : UInt8} (h : c ≠ cmd.MASTER_ACTIVATION) (bs : List UInt8) :
    (k.send c bs).screen.glass = k.screen.glass := by
  rw [send, glass_feed, glass_onCommand k h]

/-- A hardware reset: the registers start over, the RAM and the glass are as they were. -/
def hardReset (k : Controller) : Controller where
  screen := { k.screen with swaps := 0 }
  command := 0
  params _ := []
  cursor := (0, 0)
  phase := .settled

end Controller

namespace Ssd1677

open Embedded.Prog

variable {B : Type} [Wire B]

/-- The glass shows `g`. -/
def Unlit (g : Nat → Nat → Option Nat) (d : Ssd1677 (Wired B)) : Prop :=
  d.bus.controller.screen.glass = g

variable {g : Nat → Nat → Option Nat}

theorem unlit_of_at {p : Driver (Wired B) Unit} {F : Controller → Controller}
    (h : ∀ f k, Triple (At f k) p (fun _ => At f (F k)) (fun _ => True))
    (hglass : ∀ k, (F k).screen.glass = k.screen.glass) :
    Triple (Unlit g) p (fun _ => Unlit g) (fun _ => True) := by
  intro d hd
  refine (h d.flags d.bus.controller).conseq (fun _ => id) (fun _ d' hd' => ?_)
    (fun _ => id) d ⟨rfl, rfl⟩
  rw [Unlit, hd'.2, hglass]
  exact hd

theorem unlit_commandData {c : UInt8} (h : c ≠ cmd.MASTER_ACTIVATION) (bs : List UInt8) :
    Triple (Unlit g) (commandData c bs : Driver (Wired B) Unit) (fun _ => Unlit g)
      (fun _ => True) := by
  refine unlit_of_at (F := (·.send c bs)) (fun f k => ?_) fun k => k.glass_send h bs
  refine (triple_command.conseq (fun _ => id) (fun _ _ => id) fun _ _ => trivial).bind fun _ => ?_
  exact ((steady_data bs).triple f _).conseq (fun _ => id) (fun _ _ => id) fun _ _ => trivial

theorem unlit_waitBusy (n : Nat) :
    Triple (Unlit g) (waitBusy n : Driver (Wired B) Unit) (fun _ => Unlit g) (fun _ => True) := by
  refine unlit_of_at (F := Controller.onIdle) (fun f k => ?_) fun k => rfl
  exact (triple_waitBusy n).conseq (fun _ => id) (fun _ _ => id) fun _ _ => trivial

theorem unlit_init :
    Triple (Unlit g) (init : Driver (Wired B) Unit) (fun _ => Unlit g) (fun _ => True) := by
  have hreset : Triple (Unlit g) (command cmd.SW_RESET : Driver (Wired B) Unit) (fun _ => Unlit g)
      (fun _ => True) := by
    refine unlit_of_at (F := (·.onCommand cmd.SW_RESET)) (fun f k => ?_) fun k =>
      k.glass_onCommand (by decide)
    exact triple_command.conseq (fun _ => id) (fun _ _ => id) fun _ _ => trivial
  have hwindow : Triple (Unlit g) (setFullWindow : Driver (Wired B) Unit) (fun _ => Unlit g)
      (fun _ => True) := by
    refine (unlit_commandData (by decide) _).bind fun _ => ?_
    refine (unlit_commandData (by decide) _).bind fun _ => ?_
    refine (unlit_commandData (by decide) _).bind fun _ => ?_
    refine (unlit_commandData (by decide) _).bind fun _ => ?_
    exact unlit_commandData (by decide) _
  refine (unlit_waitBusy 500).bind fun _ => ?_
  refine hreset.bind fun _ => ?_
  refine (unlit_waitBusy 500).bind fun _ => ?_
  refine (unlit_commandData (by decide) _).bind fun _ => ?_
  refine (unlit_commandData (by decide) _).bind fun _ => ?_
  refine (unlit_commandData (by decide) _).bind fun _ => ?_
  refine (unlit_commandData (by decide) _).bind fun _ => ?_
  refine (unlit_commandData (by decide) _).bind fun _ => ?_
  refine hwindow.bind fun _ => ?_
  refine (unlit_commandData (by decide) _).bind fun _ => ?_
  refine (unlit_waitBusy 500).bind fun _ => ?_
  refine (unlit_commandData (by decide) _).bind fun _ => ?_
  refine (unlit_waitBusy 500).bind fun _ => ?_
  exact Triple.modify fun d hd => hd

theorem unlit_setPower (on : Bool) :
    Triple (Unlit g) (setPower on : Driver (Wired B) Unit) (fun _ => Unlit g) (fun _ => True) := by
  refine (Triple.get (Q := fun _ => Unlit g) fun _ => id).bind fun d =>
    Triple.ite (fun _ => Triple.pure () fun _ => id) fun _ => ?_
  obtain ⟨c, hc⟩ : ∃ c : UInt8, c = if on then 0xC0 else 0x03 := ⟨_, rfl⟩
  have hmode : c &&& ctrl2.MODE2 = 0 := by rw [hc]; cases on <;> decide
  have hshow : c &&& ctrl2.DISPLAY = 0 := by rw [hc]; cases on <;> decide
  rw [← hc]
  intro d hd
  obtain ⟨k, hk⟩ : ∃ k, k = d.bus.controller := ⟨_, rfl⟩
  have hstrobe : (k.strobe c).screen.glass = g := by
    rw [Controller.screen_strobe, Screen.activate, if_neg (not_not.mpr hmode),
      if_neg (not_not.mpr hshow), hk]
    exact hd
  have hctrl2 :=
    (steady_commandData (B := B) (c := cmd.UPDATE_CTRL2) (by decide) [c]).triple d.flags k
  refine ((hctrl2.conseq (fun _ => id) (fun _ _ => id) fun _ _ => trivial).bind fun _ => ?_) d
    ⟨rfl, hk.symm⟩
  refine (triple_command.conseq (fun _ => id) (fun _ _ => id) fun _ _ => trivial).bind fun _ => ?_
  refine ((triple_waitBusy 2000).conseq (fun _ => id) (fun _ _ => id) fun _ _ => trivial).bind
    fun _ => ?_
  refine Triple.modify fun d hd => ?_
  change d.bus.controller.screen.glass = g
  rw [hd.2]
  exact hstrobe

theorem unlit_deepSleep :
    Triple (Unlit g) (deepSleep : Driver (Wired B) Unit)
      (fun _ d => Unlit g d ∧ d.faceKnown = false) (fun _ => True) := by
  refine (unlit_setPower false).bind fun _ => ?_
  refine (unlit_commandData (by decide) _).bind fun _ => ?_
  exact Triple.modify fun d hd => ⟨hd, rfl⟩

theorem tracked_init {d d' : Ssd1677 (Wired B)}
    (h : (init : Driver (Wired B) Unit) d = (.ok (), d')) :
    d'.Tracked := by
  have hrests : Rests d.flags d.bus.controller.screen.swaps d.bus.controller.phase d :=
    ⟨rfl, rfl, rfl⟩
  exact (rests_init.ok hrests h).tracked_iff_tracks.mpr tracks_ready

theorem sure_setPower (on : Bool) : Sure (setPower on) := by
  unfold setPower
  refine Sure.get fun d => Sure.ite Sure.pure ?_
  refine (sure_commandData _ _).bind ?_
  refine (sure_send false _).bind ?_
  exact (sure_waitBusy 2000).bind (Sure.modify _)

theorem sure_deepSleep : Sure deepSleep :=
  (sure_setPower false).bind ((sure_commandData _ _).bind (Sure.modify _))

/-- On a bus without failures the program returns. -/
theorem Sure.returns {p : Driver (Wired IdealBus) Unit} (h : Sure p)
    (d : Ssd1677 (Wired IdealBus)) :
    ∃ d', p d = (.ok (), d') := by
  have hd := h.triple d trivial
  revert hd
  rcases p d with ⟨e | ⟨⟩, d'⟩
  · exact False.elim
  · exact fun _ => ⟨d', rfl⟩

end Ssd1677

end Epd

/-! ## The panel -/

/-- The plate as it is drawn on a new buffer. -/
def platePicture (r : Renderer) (c : PlateContent) : FrameBuffer :=
  (draw r.typesetter .new c).getD (FrameBuffer.new.clear 3)

/-- The panel with the driver and its frame buffers. -/
structure Epaper (r : Renderer) where
  epd : Ssd1677 (Wired IdealBus)
  /-- The controller is in deep sleep. -/
  asleep : Bool
  fb : FrameBuffer
  displayed : FrameBuffer

/-- A picture in a frame buffer. -/
structure Picture (r : Renderer) where
  fb : FrameBuffer

/-- The region of the tag panel. -/
def panelRegion : Region := ⟨200, 380, 12, 456, by decide, by decide⟩

theorem nativeRegion_panel :
    FrameBuffer.nativeRegion (UInt32.ofNat PANEL_X) (UInt32.ofNat PANEL_Y) (UInt32.ofNat PANEL_W)
      (UInt32.ofNat PANEL_H) = (panelRegion.x0, panelRegion.w, panelRegion.y0, panelRegion.h) := by
  decide

/-- A monochrome update of the tag panel's region, in a buffer. -/
def foldRegion (fb into : FrameBuffer) : FrameBuffer :=
  let (x0, w, y0, h) := FrameBuffer.nativeRegion (UInt32.ofNat PANEL_X) (UInt32.ofNat PANEL_Y)
    (UInt32.ofNat PANEL_W) (UInt32.ofNat PANEL_H)
  (into.applyMonoRegion fb.msb x0 w y0 h).getD into

theorem foldRegion_eq (fb into : FrameBuffer) :
    (foldRegion fb into).orientation = into.orientation ∧
      ∀ r c, r < WIDTH → c < HEIGHT → (foldRegion fb into).level r c =
        if panelRegion.Inside r c then if fb.msb.bit r c then 3 else 0 else into.level r c := by
  obtain ⟨fb', hfold, ho, hbits⟩ := into.applyMonoRegion_eq fb.msb panelRegion
  have heq : foldRegion fb into = fb' := by
    unfold foldRegion
    rw [nativeRegion_panel]
    dsimp only
    rw [hfold]
    rfl
  rw [heq]
  refine ⟨ho, fun r c hr hc => ?_⟩
  obtain ⟨hl, hm⟩ := hbits r c hr hc
  rw [FrameBuffer.level, hl, hm]
  split
  · cases fb.msb.bit r c <;> rfl
  · rfl

namespace Epaper

variable {r : Renderer}

/-- A call of the driver; in deep sleep the controller does not hear it. -/
def call (p : Epaper r) (op : Ssd1677.Driver (Wired IdealBus) Unit) : Bool × Epaper r :=
  let (out, epd) := op p.epd
  (out.isOk,
    { p with
      epd :=
        if p.asleep then { epd with bus := { epd.bus with controller := p.epd.bus.controller } }
        else epd })

/-- The reset line is pulsed. -/
def hardReset (p : Epaper r) : Epaper r :=
  { p with
    asleep := false
    epd := { p.epd with
      bus := { p.epd.bus with controller := p.epd.bus.controller.hardReset } } }

/-- The board starts the panel: reset and bring-up, with new buffers. -/
def restart (p : Epaper r) : Epaper r :=
  (hardReset { p with epd := .new p.epd.bus, fb := .new, displayed := .new } |>.call Ssd1677.init).2

instance : ReaderPanel (Epaper r) TagView where
  draw p c := { p with fb := (draw r.typesetter p.fb c).getD (p.fb.clear 3) }
  displayGray4 p mode := p.call (Ssd1677.displayGray4 p.fb mode)
  powerOn := hardReset
  hardReset := hardReset
  init p := (p.call Ssd1677.init).2
  deepSleep p :=
    let (ok, p) := p.call Ssd1677.deepSleep
    { p with asleep := p.asleep || ok }
  copyDisplayed p := { p with displayed := p.displayed.copyFrom p.fb }
  drawTag p t := { p with fb := (drawTagView r p.fb t).getD p.fb }
  refreshFastest p :=
    let (x0, w, y0, h) := FrameBuffer.nativeRegion (UInt32.ofNat PANEL_X) (UInt32.ofNat PANEL_Y)
      (UInt32.ofNat PANEL_W) (UInt32.ofNat PANEL_H)
    p.call (Ssd1677.refreshFastest p.fb.msb p.displayed.lsb p.displayed.msb x0 w y0 h)
  noteRegion p := { p with displayed := foldRegion p.fb p.displayed }
  restart := restart

/-- What the glass shows at a row and a bit. -/
def glass (p : Epaper r) : Nat → Nat → Option Nat := p.epd.bus.controller.screen.glass

end Epaper

instance (r : Renderer) : Drawing (Picture r) TagView where
  blank := ⟨.new⟩
  plate c := ⟨platePicture r c⟩
  tag t picture := ⟨(drawTagView r picture.fb t).getD picture.fb⟩
  update picture _ glass := ⟨foldRegion picture.fb glass.fb⟩
  note picture displayed := ⟨foldRegion picture.fb displayed.fb⟩

/-! ## The panel shows the pictures -/

/-- The panel and its pictures: the buffers are as drawn, the glass shows the picture that it
should, and where the app relies on it, what it takes to be displayed is on the glass. -/
structure Realises (r : Renderer) (sleeping : Bool) (fast : UInt32) (p : Epaper r)
    (q : Paper (Picture r)) : Prop where
  fb : q.fb.fb = p.fb
  displayed : q.displayed.fb = p.displayed
  upright : p.fb.orientation = {} ∧ p.displayed.orientation = {}
  glass : ∀ y x, y < WIDTH → x < HEIGHT → p.glass y x = some (q.glass.fb.level y x)
  asleep : p.asleep = sleeping
  tracked : p.epd.Tracked
  based : fast % FASTEST_PER_FULL ≠ 0 → sleeping = false →
    p.epd.Shown (Ssd1677.levels p.displayed.lsb p.displayed.msb)

/-- The panel after power-on: awake, with anything on the glass. -/
structure Started (r : Renderer) (p : Epaper r) (q : Paper (Picture r)) : Prop where
  fb : q.fb.fb = p.fb
  displayed : q.displayed.fb = p.displayed
  upright : p.fb.orientation = {} ∧ p.displayed.orientation = {}
  asleep : p.asleep = false
  tracked : p.epd.Tracked

/-- A loop keeps what its steps keep. -/
theorem foldlM_keeps {α β : Type} {P : β → Prop} {f : β → α → Option β}
    (h : ∀ b a b', f b a = some b' → P b → P b') (xs : List α) {b b' : β}
    (hfold : xs.foldlM f b = some b') (hb : P b) : P b' := by
  induction xs generalizing b with
  | nil =>
    obtain rfl := Option.some.inj hfold
    exact hb
  | cons a xs ih =>
    rw [List.foldlM_cons] at hfold
    obtain ⟨b₁, hfirst, hrest⟩ := Option.bind_eq_some_iff.mp hfold
    exact ih hrest (h b a b₁ hfirst hb)

theorem upright_drawImage {o : Orientation} {fb fb' : FrameBuffer} {img : MonoImage}
    {cx cy scale : Int32} (h : drawImage fb img cx cy scale = some fb') (ho : fb.orientation = o) :
    fb'.orientation = o := by
  have hset : ∀ (fb : FrameBuffer) (x y : Int32) (fb' : FrameBuffer), fb.setPixel x y 0 = some fb' →
      fb.orientation = o → fb'.orientation = o := by
    intro fb x y fb' hset ho
    obtain ⟨fb₁, heq, hsame, -⟩ := fb.setPixel_eq x y 0
    obtain rfl := Option.some.inj (heq.symm.trans hset)
    rw [hsame, ho]
  have hdot : ∀ (fb : FrameBuffer) (x y : Int32) (fb' : FrameBuffer),
      drawDot fb x y scale = some fb' →
      fb.orientation = o → fb'.orientation = o := by
    intro fb x y fb' hdot ho
    unfold drawDot at hdot
    refine foldlM_keeps (P := (·.orientation = o)) (fun b dy b' hrow hb => ?_) _ hdot ho
    exact foldlM_keeps (fun b dx b' hcell hb => hset b _ _ b' hcell hb) _ hrow hb
  unfold drawImage at h
  refine foldlM_keeps (P := (·.orientation = o)) (fun b y b' hrow hb => ?_) _ h ho
  refine foldlM_keeps (P := (·.orientation = o)) (fun b x b' hcell hb => ?_) _ hrow hb
  obtain ⟨byte, -, hcell⟩ := Option.bind_eq_some_iff.mp hcell
  split at hcell
  · exact hdot b _ _ b' hcell hb
  · exact Option.some.inj hcell ▸ hb

theorem upright_drawLayout {ts : Typesetter} {fb fb' : FrameBuffer} {c : PlateContent}
    (h : drawLayout ts fb c = some fb') : fb'.orientation = fb.orientation := by
  obtain ⟨fb₁, htexts, hpaints⟩ := Paints.of_drawTexts ts fb c
  unfold drawLayout at h
  rw [htexts] at h
  change (drawPicture fb₁ c).bind (drawFooter ts) = some fb' at h
  obtain ⟨fb₂, hpicture, hfooter⟩ := Option.bind_eq_some_iff.mp h
  have hupright : fb₂.orientation = fb.orientation := by
    unfold drawPicture at hpicture
    split at hpicture
    · exact upright_drawImage hpicture hpaints.orientation
    · exact (Option.some.inj hpicture) ▸ hpaints.orientation
  have hany : (1 : UInt8).toNat % 4 ∈ Set.univ := Set.mem_univ _
  obtain ⟨fb₃, hdraw, hfoot⟩ := Paints.of_drawText hany ts fb₂ .small
    "NFC: tap to receive / write to update".toList 240 770
  obtain rfl := Option.some.inj (hdraw.symm.trans hfooter)
  rw [hfoot.orientation, hupright]

variable {r : Renderer}

theorem upright_platePicture (c : PlateContent) : (platePicture r c).orientation = {} := by
  unfold platePicture
  cases hdraw : draw r.typesetter .new c with
  | none => rfl
  | some fb =>
    unfold draw at hdraw
    split at hdraw
    · exact upright_drawImage hdraw rfl
    · exact upright_drawLayout hdraw

/-- What is drawn does not depend on what was in the buffer. -/
theorem draw_upright {fb : FrameBuffer} (h : fb.orientation = {}) (c : PlateContent) :
    (draw r.typesetter fb c).getD (fb.clear 3) = platePicture r c := by
  have hclear : fb.clear 3 = FrameBuffer.new.clear 3 := by
    obtain ⟨lsb, msb, o⟩ := fb
    obtain rfl : o = {} := h
    rfl
  unfold platePicture draw
  rw [hclear]

namespace Epaper

theorem call_awake {p : Epaper r} (h : p.asleep = false) {op : Ssd1677.Driver (Wired IdealBus) Unit}
    {epd : Ssd1677 (Wired IdealBus)} (hop : op p.epd = (.ok (), epd)) :
    p.call op = (true, { p with epd }) := by
  unfold call
  rw [hop, h]
  rfl

end Epaper

namespace Realises

variable {sleeping : Bool} {fast : UInt32} {p : Epaper r} {q : Paper (Picture r)}

theorem draw (h : Realises r sleeping fast p q) (c : PlateContent) :
    Realises r sleeping fast (Panel.draw p c) (Panel.draw q c) where
  fb := (draw_upright h.upright.1 c).symm
  displayed := h.displayed
  upright := ⟨by
    change ((PaperNamePlate.draw r.typesetter p.fb c).getD (p.fb.clear 3)).orientation = {}
    rw [draw_upright h.upright.1, upright_platePicture], h.upright.2⟩
  glass := h.glass
  asleep := h.asleep
  tracked := h.tracked
  based := h.based

theorem drawTag (h : Realises r sleeping fast p q) (t : TagView) :
    Realises r sleeping fast (ReaderPanel.drawTag p t) (ReaderPanel.drawTag q t) where
  fb := by
    change (drawTagView r q.fb.fb t).getD q.fb.fb = (drawTagView r p.fb t).getD p.fb
    rw [h.fb]
  displayed := h.displayed
  upright := by
    obtain ⟨fb', hdraw, hpaints⟩ := Paints.of_drawTagView r p.fb t
    refine ⟨?_, h.upright.2⟩
    change ((drawTagView r p.fb t).getD p.fb).orientation = {}
    rw [hdraw]
    exact hpaints.orientation.trans h.upright.1
  glass := h.glass
  asleep := h.asleep
  tracked := h.tracked
  based := h.based

theorem copyFrom_upright {fb displayed : FrameBuffer}
    (h : fb.orientation = {} ∧ displayed.orientation = {}) : displayed.copyFrom fb = fb := by
  obtain ⟨lsb, msb, o⟩ := fb
  obtain ⟨lsb', msb', o'⟩ := displayed
  obtain ⟨rfl, rfl⟩ := h
  rfl

/-- What a gray refresh shows is displayed. -/
theorem shown {s : Epaper r} (hawake : s.asleep = false) (hfb : q.fb.fb = s.fb)
    (hupright : s.fb.orientation = {} ∧ s.displayed.orientation = {})
    (hshown : s.epd.Shown (Ssd1677.levels s.fb.lsb s.fb.msb)) (fast : UInt32) :
    Realises r false fast (Panel.copyDisplayed s)
      (Panel.copyDisplayed ({ q with glass := q.fb } : Paper (Picture r))) where
  fb := hfb
  displayed := hfb.trans (copyFrom_upright hupright).symm
  upright := ⟨hupright.1, hupright.2⟩
  glass y x hy hx := by
    rw [← hfb] at hshown
    exact hshown.2 y x hy hx
  asleep := hawake
  tracked := hshown.1.2
  based _ _ := hshown

/-- A gray refresh of an awake panel. -/
theorem gray_shown (p : Epaper r) (hawake : p.asleep = false) (htracked : p.epd.Tracked)
    (mode : GrayMode) :
    ∃ epd : Ssd1677 (Wired IdealBus), Panel.displayGray4 p mode = (true, { p with epd }) ∧
      epd.Shown (Ssd1677.levels p.fb.lsb p.fb.msb) := by
  obtain ⟨epd, hrun⟩ := (Ssd1677.sure_refreshGray4 p.fb.lsb p.fb.msb mode).returns p.epd
  exact ⟨epd, Epaper.call_awake hawake hrun,
    (Ssd1677.triple_refreshGray4 p.fb.lsb p.fb.msb mode).ok htracked hrun⟩

end Realises

/-- Bring-up after a reset. -/
theorem Epaper.init_ready (p : Epaper r) :
    ∃ epd : Ssd1677 (Wired IdealBus), Panel.init (Panel.hardReset p) =
      { p with epd, asleep := false } ∧
      epd.Tracked ∧ epd.bus.controller.screen.glass = p.glass := by
  obtain ⟨epd, hrun⟩ := Ssd1677.sure_init.returns (Panel.hardReset p).epd
  have hunlit : Ssd1677.Unlit p.glass (Panel.hardReset p).epd := rfl
  refine ⟨epd, ?_, Ssd1677.tracked_init hrun, Ssd1677.unlit_init.ok hunlit hrun⟩
  exact congrArg Prod.snd (Epaper.call_awake (p := Panel.hardReset p) rfl hrun)

/-- The panel and its pictures agree in every use that the app makes of them. -/
theorem epaper_agrees (r : Renderer) : PanelsAgree (Started r) (Realises r) where
  start := by
    rintro p q c mode ⟨hfb, hdisplayed, hupright, hasleep, htracked⟩
    obtain ⟨epd, hrun, hshown⟩ := Realises.gray_shown (Panel.draw p c) hasleep htracked mode
    refine ⟨congrArg Prod.fst hrun, rfl, ?_⟩
    rw [hrun]
    have hdrawn : (Panel.draw p c).fb = platePicture r c := draw_upright hupright.1 c
    refine Realises.shown (s := { Panel.draw p c with epd })
      (q := Panel.draw q c) hasleep hdrawn.symm
      ⟨?_, hupright.2⟩ hshown 0
    exact hdrawn ▸ upright_platePicture c
  draw c h := h.draw c
  drawTag t h := h.drawTag t
  refresh := by
    intro n p q mode m h
    obtain ⟨epd, hrun, hshown⟩ := Realises.gray_shown p h.asleep h.tracked mode
    refine ⟨congrArg Prod.fst hrun, rfl, ?_⟩
    rw [hrun]
    exact Realises.shown (s := { p with epd }) h.asleep h.fb h.upright hshown m
  update := by
    intro n p q m hfast h
    have hbased := h.based hfast rfl
    obtain ⟨epd, hrun⟩ := (Ssd1677.sure_refreshFastest p.fb.msb p.displayed.lsb p.displayed.msb
      panelRegion).returns p.epd
    have hshown := (Ssd1677.triple_refreshFastest p.fb.msb p.displayed.lsb p.displayed.msb
      panelRegion).ok hbased hrun
    have hcall : ReaderPanel.refreshFastest p = (true, { p with epd }) := by
      change (match FrameBuffer.nativeRegion _ _ _ _ with | (x0, w, y0, h) => p.call _) = _
      rw [nativeRegion_panel]
      exact Epaper.call_awake h.asleep hrun
    refine ⟨congrArg Prod.fst hcall, rfl, ?_⟩
    rw [hcall]
    have hnote : ReaderPanel.noteRegion ({ p with epd } : Epaper r) =
      { p with epd, displayed := foldRegion p.fb p.displayed } := rfl
    have hpaper : ReaderPanel.noteRegion (ReaderPanel.refreshFastest q).2 =
      { q with glass := ⟨foldRegion q.fb.fb q.glass.fb⟩
               displayed := ⟨foldRegion q.fb.fb q.displayed.fb⟩ } := rfl
    obtain ⟨ho, hlevels⟩ := foldRegion_eq p.fb p.displayed
    have hglass : ∀ y x, y < WIDTH → x < HEIGHT → epd.bus.controller.screen.glass y x =
        some ((foldRegion p.fb q.glass.fb).level y x) := by
      intro y x hy hx
      rw [hshown.2 y x hy hx, (foldRegion_eq p.fb q.glass.fb).2 y x hy hx, Ssd1677.updated]
      split
      · rfl
      · exact (hbased.2 y x hy hx).symm.trans (h.glass y x hy hx)
    have hnow : ∀ y x, y < WIDTH → x < HEIGHT → epd.bus.controller.screen.glass y x =
        some ((foldRegion p.fb p.displayed).level y x) := by
      intro y x hy hx
      rw [hshown.2 y x hy hx, hlevels y x hy hx]
      rfl
    rw [hnote, hpaper]
    exact
      { fb := h.fb
        displayed := by dsimp only; rw [h.fb, h.displayed]
        upright := ⟨h.upright.1, ho.trans h.upright.2⟩
        glass := by dsimp only; rw [h.fb]; exact hglass
        asleep := h.asleep
        tracked := hshown.1.2
        based := fun _ _ => ⟨hshown.1, hnow⟩ }
  wake := by
    intro n p q h
    obtain ⟨epd, hinit, htracked, hglass⟩ := Epaper.init_ready p
    rw [hinit]
    exact
      { fb := h.fb
        displayed := h.displayed
        upright := h.upright
        glass := fun y x hy hx => by
          change epd.bus.controller.screen.glass y x = _
          rw [hglass]
          exact h.glass y x hy hx
        asleep := rfl
        tracked := htracked
        based := fun hfast => absurd rfl hfast }
  sleep := by
    intro n p q h
    obtain ⟨epd, hrun⟩ := Ssd1677.sure_deepSleep.returns p.epd
    have hunlit : Ssd1677.Unlit p.glass p.epd := rfl
    obtain ⟨hglass, hunknown⟩ := Ssd1677.unlit_deepSleep.ok hunlit hrun
    have hsleep : Panel.deepSleep p = { p with epd, asleep := true } := by
      change (match p.call Ssd1677.deepSleep with
        | (ok, p') => ({ p' with asleep := p'.asleep || ok } : Epaper r)) = _
      rw [Epaper.call_awake h.asleep hrun]
      dsimp only
      rw [Bool.or_true]
    rw [hsleep]
    exact
      { fb := h.fb
        displayed := h.displayed
        upright := h.upright
        glass := fun y x hy hx => by
          change epd.bus.controller.screen.glass y x = _
          rw [hglass]
          exact h.glass y x hy hx
        asleep := rfl
        tracked := fun hknown => by
          change epd.faceKnown = true at hknown
          rw [hunknown] at hknown
          cases hknown
        based := fun _ hawake => by cases hawake }
  restart := by
    intro n p q c h
    obtain ⟨epd, hinit, htracked, hglass⟩ :=
      Epaper.init_ready { p with epd := .new p.epd.bus, fb := .new, displayed := .new }
    have hrestart : ReaderPanel.restart p = ⟨epd, false, .new, .new⟩ := hinit
    rw [hrestart]
    have hdrawn : (Panel.draw (⟨epd, false, .new, .new⟩ : Epaper r) c).fb = platePicture r c :=
      draw_upright rfl c
    have hcopy : FrameBuffer.new.copyFrom (platePicture r c) = platePicture r c :=
      Realises.copyFrom_upright ⟨upright_platePicture c, rfl⟩
    have hwoken : Panel.copyDisplayed (Panel.draw (⟨epd, false, .new, .new⟩ : Epaper r) c) =
        ⟨epd, false, platePicture r c, platePicture r c⟩ := by
      change (⟨epd, false, _, FrameBuffer.new.copyFrom (Panel.draw _ c : Epaper r).fb⟩ : Epaper r) =
        _
      rw [hdrawn, hcopy]
    rw [hwoken]
    exact
      { fb := rfl
        displayed := rfl
        upright := ⟨upright_platePicture c, upright_platePicture c⟩
        glass := fun y x hy hx => by
          change epd.bus.controller.screen.glass y x = _
          rw [hglass]
          exact h.glass y x hy hx
        asleep := rfl
        tracked := htracked
        based := fun hfast => absurd rfl hfast }

end PaperNamePlate
