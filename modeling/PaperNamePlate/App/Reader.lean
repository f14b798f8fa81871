import PaperNamePlate.App.Serving

/-!
# Reader mode

In reader mode a new tag is drawn as a panel over what the frame buffer holds, mostly
with a differential refresh of the panel's region. What the chip is told and what it
answers are inputs; so is whether a tag counts as new.
-/
namespace PaperNamePlate

/-- A panel that tags are drawn on; `T` is what is drawn of a tag. -/
class ReaderPanel (D : Type) (T : outParam Type) extends Panel D where
  drawTag : D → T → D
  /-- Refresh the tag panel's region from the frame buffer; `false` for an error. -/
  refreshFastest : D → Bool × D
  /-- Fold that region into what the panel shows. -/
  noteRegion : D → D
  /-- A reset of the processor: new frame buffers and a new driver for the same panel. -/
  restart : D → D

/-- Every so many updates of the tag panel one is a full refresh. -/
def FASTEST_PER_FULL : UInt32 := 10

/-- What a poll in reader mode finds: the chip after it, and a tag that is new. -/
structure TagPoll (I T : Type) where
  nfc : St25r3916 I
  newTag : Option T := none

namespace App

variable {I F D T : Type} [ReaderPanel D T]

def refreshPanelRegion (a : App I F D) : App I F D :=
  let a :=
    if a.fastRefreshes % FASTEST_PER_FULL = 0 then
      let (ok, a) := a.epdRefresh .text
      { a with panel := if ok then Panel.copyDisplayed a.panel else a.panel }
    else
      let (ok, panel) := ReaderPanel.refreshFastest a.panel
      { a with panel := if ok then ReaderPanel.noteRegion panel else panel }
  { a with fastRefreshes := a.fastRefreshes + 1 }

def onNewTag (t : T) (a : App I F D) : App I F D :=
  let a := a.wakeEpd
  { a with panel := ReaderPanel.drawTag a.panel t }.refreshPanelRegion

/-- The chip and the panel after a poll. -/
def polledBy (a : App I F D) (p : TagPoll I T) : Polled I D :=
  let b := match p.newTag with
    | some t => a.onNewTag t
    | none => a
  ⟨p.nfc, b.panel, b.fastRefreshes, b.epdSleeping⟩

/-- Put the panel to sleep if it is not. -/
def manageEpdSleepNow (a : App I F D) : App I F D := a.manageEpdSleep true

/-- What deep sleep leaves of the app: flash, the panel and the chip, which a reset starts over
with. -/
def wake (nfc : Option (St25r3916 I)) [Flash F] (a : App I F D) : App I F D :=
  let a := a.manageEpdSleepNow
  boot nfc a.flash (ReaderPanel.restart a.panel) true

end App

end PaperNamePlate
