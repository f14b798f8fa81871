import PaperNamePlate.App.Shown
import PaperNamePlate.Ble.Device
import PaperNamePlate.Plate.Render

/-!
# Every image is well formed

Images come over BLE, in a message on the tag and out of flash, each through a check of
its own. `Sound` carries the check of a START through a transfer; the app keeps
well-formed images only, so whatever it draws can be drawn.
-/
namespace PaperNamePlate

open Embedded

/-! ## The receiver -/

namespace ImgRx

/-- A finished image is well formed, and so is any data of the length that was announced. -/
structure Sound (r : ImgRx) : Prop where
  done : ∀ img ∈ r.done, img.Sized
  announced : r.state = .receiving → r.kind ≠ .content →
    ∀ bits : List UInt8, bits.length = r.expected → MonoImage.Sized ⟨r.width, r.height, bits⟩

theorem sound_of_not_receiving {r : ImgRx} (hdone : ∀ img ∈ r.done, img.Sized)
    (hstate : r.state ≠ .receiving) : r.Sound :=
  ⟨hdone, fun h => absurd h hstate⟩

theorem sound_reset (r : ImgRx) (ntf : Bool) : Sound { r.reset with pendingNtf := ntf } :=
  sound_of_not_receiving (fun _ h => nomatch h) (by simp [reset])

/-- The invariant looks at these fields only. -/
theorem Sound.congr {r r' : ImgRx} (hr : r.Sound) (hstate : r'.state = r.state)
    (hkind : r'.kind = r.kind) (hwidth : r'.width = r.width) (hheight : r'.height = r.height)
    (hexpected : r'.expected = r.expected) (hdone : r'.done = r.done) : r'.Sound := by
  refine ⟨by rw [hdone]; exact hr.done, fun h hk bits hb => ?_⟩
  rw [hwidth, hheight]
  exact hr.announced (hstate ▸ h) (hkind ▸ hk) bits (hexpected ▸ hb)

theorem startContent_sound {r : ImgRx} (hr : r.Sound) (args : List UInt8) :
    (r.startContent args).Sound := by
  unfold startContent
  split
  · dsimp only
    split
    · exact r.sound_reset true
    · exact ⟨fun _ h => (nomatch h), fun _ h => absurd rfl h⟩
  · exact hr

theorem startImage_sound {r : ImgRx} (hr : r.Sound) (args : List UInt8) :
    (r.startImage args).Sound := by
  unfold startImage
  split
  · dsimp only
    split
    · exact r.sound_reset true
    · next h =>
      -- the length was checked against the size, and the size against the panel
      refine ⟨fun _ hd => (nomatch hd), fun _ _ bits hb => ?_⟩
      simp only [not_or, ne_eq, not_not] at h
      obtain ⟨hw, hh, hw', hh', hlen, -⟩ := h
      exact MonoImage.sized_of_checked (by simp [hw, hh, hw', hh']) (hb.trans hlen)
  · exact hr

theorem commit_sound {r : ImgRx} (hr : r.Sound) : r.commit.Sound := by
  unfold commit
  dsimp only
  split
  · exact hr.congr rfl rfl rfl rfl rfl rfl
  · next hrecv =>
    have hstate : r.state = .receiving := by simpa [receiving] using hrecv
    split
    · exact sound_of_not_receiving hr.done (by simp)
    · next hlen =>
      split
      · exact sound_of_not_receiving hr.done (by simp)
      · split
        · split <;> exact sound_of_not_receiving hr.done (by simp)
        · next hkind =>
          refine sound_of_not_receiving (fun img himg => ?_) (by simp)
          cases himg
          exact hr.announced hstate hkind r.data (not_not.mp hlen)

theorem push_sound {r : ImgRx} (hr : r.Sound) (d : List UInt8) : (r.push d).Sound := by
  rcases r.push_cases d with heq | ⟨o0, o1, payload, -, -, -, heq⟩ | heq <;> rw [heq]
  · exact hr
  · unfold accept
    dsimp only
    split <;> exact hr.congr rfl rfl rfl rfl rfl rfl
  · exact hr.congr rfl rfl rfl rfl rfl rfl

theorem ctrl_sound {r : ImgRx} (hr : r.Sound) (d : List UInt8) : (r.ctrl d).Sound := by
  cases d with
  | nil => exact hr
  | cons op args =>
    rcases r.ctrl_cases op args with ⟨-, -, h⟩ | ⟨-, -, h⟩ | ⟨-, h⟩ | ⟨-, h⟩ | ⟨-, h⟩ |
      ⟨-, -, -, ntf, doze, h⟩ <;> rw [h]
    · exact startContent_sound hr args
    · exact startImage_sound hr args
    · exact commit_sound hr
    · exact r.sound_reset true
    · exact hr.congr rfl rfl rfl rfl rfl rfl
    · exact hr.congr rfl rfl rfl rfl rfl rfl

theorem step_sound {r : ImgRx} (hr : r.Sound) (op : RxOp) : (r.step op).Sound := by
  cases op with
  | gatt g =>
    cases g with
    | ctrl d => exact ctrl_sound hr d
    | data d => exact push_sound hr d
    | subscribe on => exact hr.congr rfl rfl rfl rfl rfl rfl
    | read => exact hr
  | takeNotification =>
    simp only [step, takeNotification]
    split
    · exact hr
    · exact hr.congr rfl rfl rfl rfl rfl rfl
  | takeImage =>
    rcases r.takeImage_cases with heq | ⟨img, -, -, heq⟩
    · simpa only [step, heq] using hr
    · simp only [step, heq]
      exact sound_of_not_receiving (fun _ h => absurd h (Option.not_mem_none _)) (by simp)
  | takeText =>
    rcases r.takeText_cases with heq | ⟨text, -, -, heq⟩
    · simpa only [step, heq] using hr
    · simp only [step, heq]
      exact sound_of_not_receiving hr.done (by simp)
  | takeClear =>
    simp only [step, takeClear]
    split
    · exact hr.congr rfl rfl rfl rfl rfl rfl
    · exact hr

/-- In a run of the receiver every finished image is well formed. -/
theorem run_sound {r : ImgRx} (hr : r.Sound) (ops : List RxOp) : (run step r ops).Sound :=
  (always_of_invariant (P := Sound) (fun _ op h => step_sound h op) hr ops).last

theorem sound_default : Sound {} :=
  sound_of_not_receiving (fun _ h => nomatch h) (by decide)

end ImgRx

/-! ## The app -/

instance {D T : Type} [ReaderPanel D T] : ReaderPanel (Recorder D) T where
  drawTag r t := { r with panel := ReaderPanel.drawTag r.panel t }
  refreshFastest r :=
    let (ok, panel) := ReaderPanel.refreshFastest r.panel
    (ok, { r with panel })
  noteRegion r := { r with panel := ReaderPanel.noteRegion r.panel }
  restart r := { r with panel := ReaderPanel.restart r.panel }

namespace App

/-- The image kept and the images drawn so far are well formed. -/
structure Pictured {I F D : Type} (a : App I F (Recorder D)) : Prop where
  content : a.content.Pictured
  drawn : ∀ c ∈ a.panel.drawn, c.Pictured

section

variable {I F D : Type}

theorem Pictured.congr {a a' : App I F (Recorder D)} (h : a.Pictured)
    (hcontent : a'.content.image = a.content.image) (hdrawn : a'.panel.drawn = a.panel.drawn) :
    a'.Pictured :=
  ⟨fun img himg => h.content img (hcontent ▸ himg), hdrawn ▸ h.drawn⟩

theorem NfcOnly.pictured {a a' : App I F (Recorder D)} (h : NfcOnly a a') (ha : a.Pictured) :
    a'.Pictured :=
  ha.congr (congrArg _ h.content) (congrArg _ h.panel)

/-- The image is replaced by a well-formed one, or removed. -/
theorem Pictured.withImage {a : App I F (Recorder D)} (h : a.Pictured) (image : Option MonoImage)
    (himage : ∀ img ∈ image, img.Sized) :
    Pictured { a with content := { a.content with image } } :=
  ⟨himage, h.drawn⟩

theorem Pictured.trimImage {a : App I F (Recorder D)} (h : a.Pictured) : a.trimImage.Pictured := by
  unfold App.trimImage
  split
  · exact h.withImage none fun _ himg => nomatch himg
  · exact h

theorem Pictured.storeImage [Flash F] {a : App I F (Recorder D)} (h : a.Pictured)
    (img : MonoImage) : (a.storeImage img).Pictured := by
  obtain ⟨b, hb⟩ := storeImage_eq img a
  rw [hb]
  exact h.congr rfl rfl

theorem Pictured.persistImage [Flash F] {a : App I F (Recorder D)} (h : a.Pictured) :
    a.persistImage.Pictured := by
  obtain ⟨flash, b, hb⟩ := persistImage_eq a
  rw [hb]
  exact h.congr rfl rfl

/-- What `drawPlate` draws is well formed, also where it comes out of flash. -/
theorem Pictured.rendered [Flash F] {a : App I F (Recorder D)} (h : a.Pictured) :
    a.rendered.Pictured := by
  unfold App.rendered
  split
  · intro img himg
    obtain ⟨payload, -, hdecode⟩ := Option.bind_eq_some_iff.mp himg
    exact MonoImage.decodeOwned_sized hdecode
  · exact h.content

end

section

variable {I F D T : Type} [Flash F] [ReaderPanel D T]

omit [Flash F] in
theorem Pictured.wakeEpd {a : App I F (Recorder D)} (h : a.Pictured) : a.wakeEpd.Pictured := by
  obtain ⟨panel, sleeping, n, hdrawn, heq⟩ := wakeEpd_eq a
  rw [heq]
  exact h.congr rfl hdrawn

omit [Flash F] in
theorem Pictured.epdRefresh {a : App I F (Recorder D)} (h : a.Pictured) (mode : Epd.GrayMode) :
    (a.epdRefresh mode).2.Pictured := by
  obtain ⟨panel, sleeping, hdrawn, heq⟩ := epdRefreshLoop_eq mode 2 a
  rw [App.epdRefresh, heq]
  exact h.congr rfl hdrawn

omit [Flash F] in
theorem Pictured.refreshDisplayed {a : App I F (Recorder D)} (h : a.Pictured)
    (mode : Epd.GrayMode) : (a.refreshDisplayed mode).Pictured := by
  obtain ⟨panel, sleeping, hdrawn, heq⟩ := refreshDisplayed_eq mode a
  rw [heq]
  exact h.congr rfl hdrawn

omit [Flash F] in
/-- Drawing the content as it is. -/
theorem Pictured.draw {a : App I F (Recorder D)} (h : a.Pictured) :
    Pictured { a with panel := Panel.draw a.panel a.content } := by
  refine ⟨h.content, fun c hc => ?_⟩
  rcases List.mem_append.mp hc with hc | hc
  · exact h.drawn c hc
  · rw [List.mem_singleton.mp hc]
    exact h.content

theorem Pictured.drawPlate {a : App I F (Recorder D)} (h : a.Pictured) :
    a.drawPlate.Pictured := by
  obtain ⟨hdrawn, hcontent, -⟩ := drawPlate_eq a
  refine ⟨hcontent ▸ h.content, fun c hc => ?_⟩
  rw [hdrawn] at hc
  rcases List.mem_append.mp hc with hc | hc
  · exact h.drawn c hc
  · rw [List.mem_singleton.mp hc]
    exact h.rendered

theorem Pictured.commitContent {a : App I F (Recorder D)} (h : a.Pictured) :
    a.commitContent.Pictured :=
  have hserve : a.serve.Pictured := h.congr rfl rfl
  hserve.persistImage.wakeEpd.drawPlate.refreshDisplayed .text

theorem Pictured.onTagWritten {a : App I F (Recorder D)} (h : a.Pictured) :
    a.onTagWritten.Pictured := by
  unfold App.onTagWritten
  split
  · next m _ => exact Pictured.commitContent ⟨h.content.applyNdef m, h.drawn⟩
  · exact h.commitContent

theorem Pictured.onBleContent {a : App I F (Recorder D)} (h : a.Pictured) (text : List UInt8) :
    (a.onBleContent text).Pictured := by
  unfold App.onBleContent
  split
  · next c hc =>
    refine Pictured.commitContent (h.congr ?_ rfl)
    rw [(PlateContent.applyPlain_eq hc).1]
    rfl
  · exact h

theorem Pictured.onClearImage {a : App I F (Recorder D)} (h : a.Pictured) :
    a.onClearImage.Pictured :=
  have hcleared := h.withImage none fun _ himg => nomatch himg
  Pictured.commitContent (hcleared.congr rfl rfl)

theorem Pictured.onBleImage {a : App I F (Recorder D)} (h : a.Pictured) {img : MonoImage}
    (himg : img.Sized) : (a.onBleImage img).Pictured := by
  have hcleared := h.withImage none fun _ himg => nomatch himg
  have hstored := hcleared.storeImage img
  unfold App.onBleImage
  generalize App.storeImage (F := F) img _ = s at hstored ⊢
  have hadopted := hstored.withImage (some img) fun _ himg' => Option.some.inj himg' ▸ himg
  have hserve : Pictured { s with content := { s.content with image := some img } }.serve :=
    hadopted.congr rfl rfl
  exact (hserve.wakeEpd.draw).trimImage.refreshDisplayed .quality

omit [Flash F] in
theorem Pictured.manageEpdSleep {a : App I F (Recorder D)} (h : a.Pictured) (idle : Bool) :
    (a.manageEpdSleep idle).Pictured := by
  unfold App.manageEpdSleep
  split
  · exact h.congr rfl rfl
  · exact h

omit [Flash F] in
/-- A tag is drawn over the plate, not as one. -/
theorem Pictured.polled {a : App I F (Recorder D)} (h : a.Pictured) (p : TagPoll I T) :
    (a.pollNfc (a.polledBy p)).Pictured := by
  have hdrawn : (a.polledBy p).panel.drawn = a.panel.drawn := by
    unfold polledBy
    cases p.newTag with
    | none => rfl
    | some t =>
      obtain ⟨panel, sleeping, n, hwake, heq⟩ := wakeEpd_eq a
      dsimp only [onNewTag]
      rw [heq]
      unfold refreshPanelRegion
      dsimp only
      split
      · obtain ⟨panel', sleeping', hrefresh, heq'⟩ := epdRefreshLoop_eq .text 2
          { a with
            panel := ReaderPanel.drawTag panel t, epdSleeping := sleeping, fastRefreshes := n }
        unfold App.epdRefresh
        rw [heq']
        dsimp only
        split <;> exact hrefresh.trans hwake
      · split <;> exact hwake
  unfold pollNfc
  split
  · exact h
  · exact h.congr rfl hdrawn

omit [Flash F] in
/-- The stored message is adopted if there is one. -/
theorem Pictured.adopt {a : App I F (Recorder D)} (h : a.Pictured)
    (m : Option (List UInt8)) (f : F) :
    Pictured (match m with
      | some msg => ({ a with flash := f, content := a.content.applyNdef msg } : App I F _)
      | none => { a with flash := f }) := by
  cases m with
  | none => exact h.congr rfl rfl
  | some msg => exact ⟨h.content.applyNdef msg, h.drawn⟩

theorem Pictured.restore {a : App I F (Recorder D)} (h : a.Pictured) : a.restore.Pictured := by
  unfold App.restore
  dsimp only
  split
  · next img hload =>
    obtain ⟨payload, -, hdecode⟩ := Option.bind_eq_some_iff.mp hload
    have himg := MonoImage.decodeOwned_sized hdecode
    exact ((h.adopt _ _).withImage (some img) fun _ himg' =>
      Option.some.inj himg' ▸ himg).congr rfl rfl
  · exact (h.adopt _ _).congr rfl rfl

theorem Pictured.boot (nfc : Option (St25r3916 I)) (flash : F) {panel : Recorder D}
    (hpanel : ∀ c ∈ panel.drawn, c.Pictured) (woke : Bool) :
    (boot nfc flash panel woke).Pictured := by
  have hstart : Pictured ({ nfc, flash, panel } : App I F (Recorder D)) :=
    ⟨fun _ himg => (nomatch himg), hpanel⟩
  have htrim := hstart.restore.draw.trimImage
  unfold App.boot
  dsimp only
  split
  · exact htrim.congr rfl rfl
  · exact (htrim.epdRefresh .quality).congr rfl rfl

/-- The record of what was drawn outlasts deep sleep. -/
theorem Pictured.wake {a : App I F (Recorder D)} (h : a.Pictured) (nfc : Option (St25r3916 I)) :
    (a.wake nfc).Pictured := by
  have hslept : ∀ c ∈ (ReaderPanel.restart (a.manageEpdSleep true).panel).drawn, c.Pictured :=
    (h.manageEpdSleep true).drawn
  unfold App.wake manageEpdSleepNow
  dsimp only
  exact .boot nfc _ hslept true

end

variable {I F D T : Type} [I2c I] [Flash F] [ReaderPanel D T]

theorem Pictured.tickNfc {a : App I F (Recorder D)} (h : a.Pictured) (depth : Nat)
    (e : TickEnv I (Recorder D)) (hpolled : ∀ p ∈ e.polled, (a.pollNfc p).Pictured) :
    (a.tickNfc depth e).Pictured := by
  rcases a.tickNfc_cases depth e with hslice | ⟨p, hp, -, heq⟩
  · generalize a.tickWritten depth e = w at hslice
    generalize a.tickNfc depth e = b at hslice ⊢
    cases hslice with
    | quiet hb => exact hb.pictured h
    | written hb => exact (hb.pictured h).onTagWritten
  · rw [heq]
    exact hpolled p hp

theorem Pictured.tick {a : App I F (Recorder D)} (h : a.Pictured) (depth : Nat)
    (e : TickEnv I (Recorder D)) (hpolled : ∀ p ∈ e.polled, (a.pollNfc p).Pictured) :
    (a.tick depth e).Pictured := by
  obtain ⟨b, hb, hrest⟩ := a.tick_after depth e
  exact hrest.pictured ((hb.pictured (h.tickNfc depth e hpolled)).manageEpdSleep e.epdIdle)

end App

/-! ## Runs -/

namespace Session

variable {I F D T : Type} [I2c I] [Flash F] [ReaderPanel D T]

/-- Every image in the receiver, in the app and on its way to the panel is well formed. -/
structure Pictured (s : Session I F (Recorder D)) : Prop where
  rx : s.rx.Sound
  app : s.app.Pictured

omit [I2c I] [Flash F] in
theorem pictured_start {a : App I F (Recorder D)} (h : a.Pictured) : (start a).Pictured :=
  ⟨ImgRx.sound_default, h⟩

omit [I2c I] [Flash F] in
theorem Pictured.finish {s : Session I F (Recorder D)} (h : s.Pictured) (doze : Bool) :
    (s.finish doze).Pictured := by
  unfold Session.finish
  split
  · exact ⟨h.rx, h.app.congr rfl rfl⟩
  · exact ⟨h.rx, h.app⟩

theorem step_sound (depth : Nat) {s : Session I F D} (h : s.rx.Sound) (e : SessionEnv I D) :
    (s.step depth e).rx.Sound := by
  obtain ⟨ops, hops⟩ := s.step_rx depth e
  rw [hops]
  exact ImgRx.run_sound h ops

omit [I2c I] [Flash F] in
theorem pump_app (i : Nat) (e : SessionEnv I D) (s : Session I F D) :
    ∃ doze, (s.pump i e).app = { s.app with dozeTest := doze } := by
  have hfinish : ∀ (t : Session I F D) (b : Bool),
      ∃ doze, (t.finish b).app = { t.app with dozeTest := doze } := by
    intro t b
    unfold Session.finish
    split <;> exact ⟨_, rfl⟩
  unfold pump
  dsimp only
  split
  · exact ⟨_, rfl⟩
  · split
    · exact hfinish _ _
    · exact ⟨_, rfl⟩
    · split
      · exact hfinish _ _
      · exact ⟨_, rfl⟩

omit [I2c I] in
theorem Pictured.applyImage {s : Session I F (Recorder D)} (h : s.Pictured) :
    s.applyImage.2.Pictured := by
  refine ⟨by rw [applyImage_rx]; exact ImgRx.step_sound h.rx _, ?_⟩
  unfold Session.applyImage
  rcases s.rx.takeImage_cases with heq | ⟨img, hdone, -, heq⟩
  · rw [heq]
    exact h.app
  · rw [heq]
    exact h.app.onBleImage (h.rx.done img hdone)

omit [I2c I] in
theorem Pictured.applyText {s : Session I F (Recorder D)} (h : s.Pictured) :
    s.applyText.2.Pictured := by
  refine ⟨by rw [applyText_rx]; exact ImgRx.step_sound h.rx _, ?_⟩
  unfold Session.applyText
  split
  · exact h.app.onBleContent _
  · exact h.app

omit [I2c I] in
theorem Pictured.applyClear {s : Session I F (Recorder D)} (h : s.Pictured) :
    s.applyClear.2.Pictured := by
  refine ⟨by rw [applyClear_rx]; exact ImgRx.step_sound h.rx _, ?_⟩
  unfold Session.applyClear
  split
  · exact h.app.onClearImage
  · exact h.app

omit [I2c I] in
theorem Pictured.applyDue {s : Session I F (Recorder D)} (h : s.Pictured) :
    s.applyDue.2.Pictured :=
  have hall := h.applyImage.applyText.applyClear
  ⟨hall.rx, hall.app⟩

theorem Pictured.step {s : Session I F (Recorder D)} (h : s.Pictured) (depth : Nat)
    (e : SessionEnv I (Recorder D)) (hpolled : ∀ p ∈ e.polled, (s.app.pollNfc p).Pictured) :
    (s.step depth e).Pictured := by
  refine ⟨step_sound depth h.rx e, ?_⟩
  unfold Session.step
  split
  · next i _ =>
    obtain ⟨doze, hdoze⟩ := s.pump_app i e
    rw [hdoze]
    exact h.app.congr rfl rfl
  · exact h.applyDue.app
  · unfold idle
    split
    · exact ((App.nfcOnly_handleButtons e.buttonHeld s.app).pictured h.app).manageEpdSleep e.epdIdle
    · split
      · exact (h.finish true).app
      · split
        · exact (h.finish true).app
        · exact h.app.tick depth e.toTickEnv hpolled
  · exact h.app

/-- Every step of the device, whatever comes over BLE, NFC and out of flash. -/
theorem Pictured.advance {s : Session I F (Recorder D)} (h : s.Pictured) (depth : Nat)
    (op : DeviceOp I (Recorder D) T) : (s.advance depth op).Pictured := by
  cases op with
  | step e poll =>
    refine h.step depth _ fun p hp => ?_
    obtain ⟨q, -, rfl⟩ := Option.map_eq_some_iff.mp hp
    exact h.app.polled q
  | next nfc =>
    unfold Session.advance
    dsimp only
    split
    · exact pictured_start (h.app.wake nfc)
    · exact pictured_start h.app
    · exact h

/-- Whatever is in flash and whatever comes over BLE and NFC, every image that is received, kept or
drawn is well formed, and a drawn one is drawn without an index out of range, wherever it is put. -/
theorem images_wellFormed (depth : Nat) (nfc : Option (St25r3916 I)) (flash : F) (panel : D)
    (ops : List (DeviceOp I (Recorder D) T)) :
    Always (advance depth) (fun s =>
        (∀ img ∈ s.rx.done, img.Sized) ∧ (∀ img ∈ s.app.content.image, img.Sized) ∧
          ∀ c ∈ s.app.panel.drawn, ∀ img ∈ c.image,
            img.Sized ∧ ∀ fb cx cy scale, (drawImage fb img cx cy scale).isSome)
      (powerOn nfc flash ⟨panel, []⟩) ops := by
  have hstart : (powerOn nfc flash ⟨panel, []⟩ : Session I F (Recorder D)).Pictured :=
    pictured_start (App.Pictured.boot nfc flash (fun _ hc => absurd hc List.not_mem_nil) false)
  have hrun : Always (advance depth) Pictured _ ops :=
    always_of_invariant (P := Pictured) (fun s op hs => Pictured.advance hs depth op) hstart ops
  refine hrun.mono fun s hs => ⟨hs.rx.done, hs.app.content, fun c hc img himg => ?_⟩
  have hsized := hs.app.drawn c hc img himg
  exact ⟨hsized, drawImage_isSome hsized⟩

end Session

end PaperNamePlate
