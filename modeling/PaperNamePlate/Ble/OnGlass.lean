import PaperNamePlate.App.Epaper
import PaperNamePlate.Ble.Alike

/-!
# The plate on the glass

On a bus without failures the device with its e-paper driver runs as it does on pictures. So each
pixel of the glass is that of the plate committed last, until a tag is drawn over it.
-/
namespace PaperNamePlate

open Embedded

variable {I F : Type} [I2c I] [Flash F] {r : Renderer}

/-- A panel that was just started is awake, with new buffers. -/
theorem Epaper.started_restart (p : Epaper r) (glass : Picture r) :
    Started r (ReaderPanel.restart p) ⟨⟨.new⟩, ⟨.new⟩, glass⟩ := by
  obtain ⟨epd, hinit, htracked, -⟩ :=
    Epaper.init_ready { p with epd := .new p.epd.bus, fb := .new, displayed := .new }
  have hrestart : ReaderPanel.restart p = ⟨epd, false, .new, .new⟩ := hinit
  rw [hrestart]
  exact ⟨rfl, rfl, ⟨rfl, rfl⟩, rfl, htracked⟩

/-- In every run from a reset, with anything on the glass, the driver shows the pictures that the
device draws. -/
theorem Session.runs_on_pictures (depth : Nat) (nfc : Option (St25r3916 I)) (flash : F)
    (p : Epaper r) (glass : Picture r) (ops : List (DeviceOp I (Epaper r) TagView)) :
    Session.Matches (Realises r)
      (run (Session.advance depth) (powerOn nfc flash (ReaderPanel.restart p)) ops)
      (run (Session.advance depth) (powerOn nfc flash ⟨⟨.new⟩, ⟨.new⟩, glass⟩)
        (ops.map (DeviceOp.onPanel (Paper (Picture r))))) :=
  matches_run (epaper_agrees r) (p.started_restart glass) depth nfc flash ops

/-- The plate is on the glass, pixel by pixel. -/
def App.OnGlass (a : App I F (Epaper r)) : Prop :=
  ∀ y x, y < Epd.WIDTH → x < Epd.HEIGHT →
    a.panel.glass y x = some ((platePicture r a.rendered).level y x)

/-- The device with its driver, the content of the last commit, and whether a tag was drawn after
it. -/
structure Watched (I F : Type) (r : Renderer) where
  session : Session I F (Epaper r)
  committed : Option PlateContent := none
  tagOver : Bool := false

namespace Watched

/-- The device after a reset, with anything on the glass. -/
def powerOn (nfc : Option (St25r3916 I)) (flash : F) (p : Epaper r) : Watched I F r :=
  { session := Session.powerOn nfc flash (ReaderPanel.restart p) }

def advance (depth : Nat) (w : Watched I F r) (op : DeviceOp I (Epaper r) TagView) :
    Watched I F r :=
  let s := w.session.advance depth op
  match op with
  | .step e poll =>
    if w.session.commits depth (w.session.polling e poll) then
      { session := s, committed := some s.app.content, tagOver := false }
    else { w with session := s, tagOver := w.tagOver || w.session.drawsTag e poll }
  | .next _ => { w with session := s }

/-- No tag is drawn over the plate, and the content of the last commit comes back from its
message. -/
structure Settled (w : Watched I F r) : Prop where
  tagOver : w.tagOver = false
  committed : ∀ c ∈ w.committed, c.Restorable

/-- The same device on pictures. -/
structure Follows (w : Watched I F r) (v : Waking I F (Picture r)) : Prop where
  session : Session.Matches (Realises r) w.session v.session
  committed : v.committed = w.committed
  tagOver : v.tagOver = w.tagOver

variable {w : Watched I F r} {v : Waking I F (Picture r)}

omit [I2c I] [Flash F] in
theorem Follows.exists_session (h : Follows w v) :
    ∃ t, v = ⟨t, w.committed, w.tagOver⟩ ∧ Session.Matches (Realises r) w.session t := by
  obtain ⟨hsession, hcommitted, htag⟩ := h
  cases v
  subst hcommitted htag
  exact ⟨_, rfl, hsession⟩

theorem Follows.advance (h : Follows w v) (depth : Nat) (op : DeviceOp I (Epaper r) TagView) :
    Follows (w.advance depth op) (v.advance depth (op.onPanel (Paper (Picture r)))) := by
  obtain ⟨t, rfl, ht⟩ := h.exists_session
  have hnext := ht.advance (epaper_agrees r) depth op
  cases op with
  | step e poll =>
    have hcommits := ht.commits (epaper_agrees r) depth e poll
    have hdraws := ht.drawsTag e poll
    have hcontent : (t.step depth (t.polling (e.finding none) poll)).app.content =
        (w.session.step depth (w.session.polling e poll)).app.content := by
      have happ := hnext.app.same
      exact congrArg App.content happ
    unfold Watched.advance Waking.advance DeviceOp.onPanel
    dsimp only
    rw [hcommits, hdraws]
    split
    · exact ⟨hnext, congrArg some hcontent, rfl⟩
    · exact ⟨hnext, rfl, rfl⟩
  | next nfc => exact ⟨hnext, rfl, rfl⟩

theorem follows_run (h : Follows w v) (depth : Nat) (ops : List (DeviceOp I (Epaper r) TagView)) :
    Follows (run (advance depth) w ops)
      (run (Waking.advance depth) v (ops.map (DeviceOp.onPanel (Paper (Picture r))))) :=
  run_related (fun _ _ op h => h.advance depth op) h ops

omit [I2c I] [Flash F] in
theorem Follows.settled (h : Follows w v) (hw : w.Settled) : v.Settled := by
  obtain ⟨t, rfl, -⟩ := h.exists_session
  exact ⟨hw.tagOver, hw.committed⟩

omit [I2c I] in
/-- Where the picture on the glass is the plate, the glass is. -/
theorem Follows.onGlass (h : Follows w v) (hshown : v.Shown) (hw : w.Settled) :
    w.session.app.OnGlass := by
  intro y x hy hx
  have hglass := hshown.app.glass (h.settled hw)
  have hrendered : v.session.app.rendered = w.session.app.rendered := by
    rw [h.session.app.same]
    rfl
  rw [h.session.app.panels.glass y x hy hx, hglass, hrendered]
  rfl

omit [I2c I] in
theorem shown_powerOn (laws : FlashLaws F) (nfc : Option (St25r3916 I)) (flash : F)
    (panel : Paper (Picture r)) : (Waking.powerOn nfc flash panel).Shown := by
  obtain ⟨hkept, hsaved, hrendered, hpanel⟩ := App.boot_paper laws nfc flash panel false
  refine ⟨ImgRx.sound_default, hkept, fun _ => hsaved, fun _ => ?_⟩
  change (App.boot nfc flash panel false).panel.glass =
    Drawing.plate (App.boot nfc flash panel false).rendered
  rw [hpanel, hrendered]
  rfl

theorem follows_powerOn (nfc : Option (St25r3916 I)) (flash : F) (p : Epaper r)
    (glass : Picture r) :
    Follows (powerOn nfc flash p) (Waking.powerOn nfc flash ⟨⟨.new⟩, ⟨.new⟩, glass⟩) :=
  ⟨Session.matches_run (epaper_agrees r) (p.started_restart glass) 0 nfc flash [], rfl, rfl⟩

/-- In every run without a failure: while no tag was drawn since the last commit, and the content of
that commit comes back from its message, the glass shows the plate, also in deep sleep and after
it. -/
theorem plate_on_glass (laws : FlashLaws F) (hwrite : WritesSucceed F) (depth : Nat)
    (nfc : Option (St25r3916 I)) (flash : F) (p : Epaper r)
    (ops : List (DeviceOp I (Epaper r) TagView)) :
    Always (advance depth) (fun w => w.Settled → w.session.app.OnGlass)
      (powerOn nfc flash p) ops := by
  have hstart : ∃ v : Waking I F (Picture r), Follows (powerOn nfc flash p) v ∧ v.Shown :=
    ⟨_, follows_powerOn nfc flash p ⟨.new⟩, shown_powerOn laws nfc flash _⟩
  refine Always.mono ?_ (always_of_invariant (P := fun w => ∃ v : Waking I F (Picture r),
    Follows w v ∧ v.Shown) ?_ hstart ops)
  · rintro w ⟨v, hv, hshown⟩ hw
    exact hv.onGlass hshown hw
  · rintro w op ⟨v, hv, hshown⟩
    exact ⟨_, hv.advance depth op, hshown.advance laws hwrite depth _⟩

/-- A panel with empty fonts, whose glass was never written. -/
def darkPanel : Epaper ⟨fun _ _ _ _ => [], fun _ _ _ _ => [], fun _ _ _ _ _ => []⟩ where
  epd := .new
    { bus := .wires
      controller :=
        { screen := ⟨fun _ _ => 0, fun _ _ => 0, 0, fun _ _ => none⟩
          command := 0
          params := fun _ => []
          cursor := (0, 0)
          phase := .settled } }
  asleep := false
  fb := .new
  displayed := .new

/-- The image is cleared over BLE, and the device falls asleep and wakes up. -/
def cleared (D T : Type) : List (DeviceOp QuietBus D T) :=
  [.step { hciReady := true, work := .didWork [.ctrl [0x06]] } none, .step {} none, .step {} none,
    .step {} none, .step {} none, .step {} none, .step { hciQuiet := true, quiet := true } none,
    .next (some { i2c := .quiet })]

theorem plate_on_glass_cleared :
    (run (advance 4) (powerOn (some { i2c := .quiet }) Cells.erased darkPanel)
      (cleared _ TagView)).session.app.OnGlass := by
  have hall := plate_on_glass cellsLaws (fun _ _ _ _ => rfl) 4 (some { i2c := .quiet }) Cells.erased
    darkPanel (cleared _ TagView)
  have hfollows := follows_run
    (follows_powerOn (some { i2c := .quiet }) Cells.erased darkPanel ⟨.new⟩) 4 (cleared _ TagView)
  refine hall.last ⟨?_, fun c hc => ?_⟩
  · rw [← hfollows.tagOver]
    decide +kernel
  · rw [← hfollows.committed] at hc
    obtain rfl : PlateContent.demo = c := Option.some.inj (Eq.trans (by decide +kernel) hc)
    exact ⟨by decide +kernel, by decide +kernel, by decide +kernel, by decide, by decide, by decide,
      by decide, by decide, ⟨by decide +kernel, by decide +kernel⟩⟩

end Watched

end PaperNamePlate
