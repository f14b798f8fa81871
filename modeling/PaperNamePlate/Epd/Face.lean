import PaperNamePlate.Epd.Wired
import PaperNamePlate.Lib.Run

/-!
# The tracked face

Every mode-2 activation exchanges the RAM banks, and the driver keeps the parity. The
controller acts on an activation or a reset at once, the driver notes it only when
BUSY has dropped: a call that stops in between leaves the two apart, unless the face
was even or unknown anyway. Otherwise the driver knows the face after every call,
whatever failed in it.
-/
namespace PaperNamePlate.Epd

open Embedded Embedded.Prog

namespace Phase

/-- The phase after BUSY is seen low. -/
def idle (p : Phase) : Phase := if p = .resetting then .resetting else .settled

end Phase

namespace Ssd1677

variable {B : Type}

/-- A driver that counts on a face has the parity of `n` mode-2 activations. -/
def Tracks (f : Ssd1677 Unit) (n : Nat) : Prop :=
  f.faceKnown = true → f.faceOdd = decide (n % 2 = 1)

/-- The driver does not take the controller's face for the other one. -/
def Tracked (d : Ssd1677 (Wired B)) : Prop :=
  d.faceKnown = true → d.faceOdd = d.bus.controller.screen.oddFace

/-- A call on `f` that left the controller in a phase stopped where the driver's face is lost: a
reset or a mode-1 update that undid an odd face, or a mode-2 update, not noted. -/
def Lost (f : Ssd1677 Unit) : Phase → Prop
  | .settled => False
  | .resetting => f.faceKnown = true ∧ f.faceOdd = true
  | .filling => f.faceKnown = true ∧ f.faceOdd = true
  | .updating false => f.faceKnown = true ∧ f.faceOdd = true
  | .updating true => True

/-- After a call on `f` the driver knows the face exactly if it was not lost. -/
def Accounted (f : Ssd1677 Unit) (d : Ssd1677 (Wired B)) : Prop :=
  d.Tracked ↔ ¬ f.Lost d.bus.controller.phase

/-- The driver's state, the count of mode-2 activations and the phase are as given. -/
def Rests (f : Ssd1677 Unit) (n : Nat) (p : Phase) (d : Ssd1677 (Wired B)) : Prop :=
  d.flags = f ∧ d.bus.controller.screen.swaps = n ∧ d.bus.controller.phase = p

/-- The driver knows the face, and nothing is left to wait for. -/
def Known (d : Ssd1677 (Wired B)) : Prop := d.Tracked ∧ d.bus.controller.phase = .settled

/-- The driver's state after bring-up. -/
def ready : Ssd1677 Unit := { bus := (), faceKnown := true }

theorem tracks_ready : ready.Tracks 0 := fun _ => rfl

theorem Rests.tracked_iff_tracks {f : Ssd1677 Unit} {n : Nat} {p : Phase} {d : Ssd1677 (Wired B)}
    (h : Rests f n p d) : d.Tracked ↔ f.Tracks n := by
  obtain ⟨rfl, rfl, -⟩ := h
  rfl

theorem Rests.known {f : Ssd1677 Unit} {n : Nat} {d : Ssd1677 (Wired B)} (h : Rests f n .settled d)
    (hf : f.Tracks n) : Known d :=
  ⟨h.tracked_iff_tracks.mpr hf, h.2.2⟩

theorem Known.accounted {f : Ssd1677 Unit} {d : Ssd1677 (Wired B)} (h : Known d) :
    Accounted f d := by
  rw [Accounted, h.2]
  exact iff_of_true h.1 id

theorem Rests.accounted {f g : Ssd1677 Unit} {n : Nat} {d : Ssd1677 (Wired B)}
    (h : Rests g n .settled d) (hg : g.Tracks n) : Accounted f d :=
  (h.known hg).accounted

/-- The face is even after a reset or a mode-1 update. -/
theorem Rests.accounted_even {f : Ssd1677 Unit} {p : Phase} {d : Ssd1677 (Wired B)}
    (h : Rests f 0 p d) (hp : p = .resetting ∨ p = .filling ∨ p = .updating false) :
    Accounted f d := by
  have heven : d.Tracked ↔ ¬ (f.faceKnown = true ∧ f.faceOdd = true) := by
    rw [h.tracked_iff_tracks, Tracks]
    simp
  rw [Accounted, h.2.2, heven]
  rcases hp with rfl | rfl | rfl <;> rfl

/-- The face is not the tracked one after a mode-2 update that was not noted. -/
theorem Rests.accounted_odd {f : Ssd1677 Unit} {n : Nat} {d : Ssd1677 (Wired B)}
    (h : Rests f (n + 1) (.updating true) d) (hf : f.Tracks n) (hknown : f.faceKnown = true) :
    Accounted f d := by
  rw [Accounted, h.2.2]
  refine iff_of_false (fun hd => ?_) fun hlost => hlost trivial
  have hnow := h.tracked_iff_tracks.mp hd hknown
  have hthen := hf hknown
  rw [hthen, decide_eq_decide] at hnow
  omega

theorem At.rests {f : Ssd1677 Unit} {k : Controller} {d : Ssd1677 (Wired B)} (h : At f k d) :
    Rests f k.screen.swaps k.phase d := h.still

/-- An activation without an update keeps the face. -/
theorem Rests.of_strobe {f : Ssd1677 Unit} {c : UInt8} (hmode : c &&& ctrl2.MODE2 = 0)
    (hshow : c &&& ctrl2.DISPLAY = 0) {k : Controller} {d : Ssd1677 (Wired B)}
    (hd : At f (k.strobe c) d) :
    Rests f k.screen.swaps k.phase d := by
  refine ⟨hd.1, ?_, ?_⟩
  · rw [hd.2, Controller.screen_strobe, Screen.activate, if_neg (not_not.mpr hmode),
      if_neg (not_not.mpr hshow)]
  · rw [hd.2, Controller.phase_strobe, if_neg (not_not.mpr hmode), if_neg (not_not.mpr hshow)]

/-- Where `init` stops: before the reset, or with the RAM not yet filled. -/
def Unready (f : Ssd1677 Unit) (n : Nat) (p : Phase) (d : Ssd1677 (Wired B)) : Prop :=
  (∃ p', (p = .settled → p' = .settled) ∧ Rests f n p' d) ∨
    Rests f 0 .resetting d ∨ Rests f 0 .filling d

theorem Unready.accounted {f : Ssd1677 Unit} {n : Nat} {d : Ssd1677 (Wired B)}
    (hd : Unready f n .settled d) (hf : f.Tracks n) :
    Accounted f d := by
  obtain ⟨p', hp', hd⟩ | hd | hd := hd
  · rw [hp' rfl] at hd
    exact hd.accounted hf
  · exact hd.accounted_even (.inl rfl)
  · exact hd.accounted_even (.inr (.inl rfl))

variable [Wire B] {α : Type} {f : Ssd1677 Unit} {n : Nat} {p : Phase}

/-! ## Single accesses -/

theorem triple_of_at {q : Driver (Wired B) α} {Q : α → Ssd1677 (Wired B) → Prop}
    {E : Ssd1677 (Wired B) → Prop}
    (h : ∀ k : Controller, k.screen.swaps = n → k.phase = p → Triple (At f k) q Q E) :
    Triple (Rests f n p) q Q E := by
  rintro d ⟨hf, hn, hp⟩
  exact h d.bus.controller hn hp d ⟨hf, rfl⟩

theorem Steady.rests {q : Driver (Wired B) Unit} {F : Controller → Controller} (hq : Steady q F) :
    Triple (Rests f n p) q (fun _ => Rests f n p) (Rests f n p) := by
  refine triple_of_at fun k hn hp => ?_
  subst hn hp
  exact (hq.triple f k).conseq (fun _ => id) (fun _ d hd => hq.still hd.still) fun _ => id

theorem rests_waitBusy (t : Nat) :
    Triple (Rests f n p) (waitBusy t : Driver (Wired B) Unit) (fun _ => Rests f n p.idle)
      (Rests f n p) := by
  refine triple_of_at fun k hn hp => ?_
  subst hn hp
  exact (triple_waitBusy t).conseq (fun _ => id) (fun _ _ => At.rests) fun _ => At.rests

theorem rests_reset :
    Triple (Rests f n p) (command cmd.SW_RESET : Driver (Wired B) Unit)
      (fun _ => Rests f 0 .resetting) (fun d => Rests f n p d ∨ Rests f 0 .resetting d) := by
  refine triple_of_at fun k hn hp => ?_
  subst hn hp
  exact triple_command.conseq (fun _ => id) (fun _ _ => At.rests) fun _ => Or.imp At.rests At.rests

theorem rests_fill :
    Triple (Rests f 0 .resetting) (commandData cmd.AUTO_WRITE_BW [0xF7] : Driver (Wired B) Unit)
      (fun _ => Rests f 0 .filling) (fun d => Rests f 0 .resetting d ∨ Rests f 0 .filling d) := by
  refine Triple.bind (Q := fun _ => Rests f 0 .filling) (triple_of_at fun k hn hp => ?_) fun _ =>
    (steady_data _).rests.conseq (fun _ => id) (fun _ _ => id) fun _ => .inr
  have hrests : ∀ d : Ssd1677 (Wired B), At f (k.onCommand cmd.AUTO_WRITE_BW) d →
      Rests f 0 .filling d := by
    rintro d ⟨hf, hk⟩
    refine ⟨hf, ?_, ?_⟩
    · rw [hk]
      exact hn
    · rw [hk]
      exact if_pos hp
  refine triple_command.conseq (fun _ => id) (fun _ => hrests) fun d =>
    Or.imp (fun hd => ?_) (hrests d)
  exact ⟨hd.1, by rw [hd.2, hn], by rw [hd.2, hp]⟩

/-! ## Bring-up and power -/

theorem rests_init :
    Triple (Rests f n p) (init : Driver (Wired B) Unit) (fun _ => Rests ready 0 .settled)
      (Unready f n p) := by
  have hresetting : ∀ d : Ssd1677 (Wired B), Rests f 0 .resetting d → Unready f n p d :=
    fun d hd => .inr (.inl hd)
  have hfilling : ∀ d : Ssd1677 (Wired B), Rests f 0 .filling d → Unready f n p d :=
    fun d hd => .inr (.inr hd)
  have hidle : ∀ d : Ssd1677 (Wired B), Rests f n p.idle d → Unready f n p d := by
    refine fun d hd => .inl ⟨p.idle, fun hp => ?_, hd⟩
    rw [hp]
    rfl
  have hsteady : ∀ {q : Driver (Wired B) Unit} {F : Controller → Controller}, Steady q F →
      Triple (Rests f 0 .resetting) q (fun _ => Rests f 0 .resetting) (Unready f n p) :=
    fun hq => hq.rests.conseq (fun _ => id) (fun _ _ => id) hresetting
  refine ((rests_waitBusy 500).conseq (fun _ => id) (fun _ _ => id)
    fun d hd => .inl ⟨p, id, hd⟩).bind fun _ => ?_
  refine (rests_reset.conseq (fun _ => id) (fun _ _ => id)
    fun d => Or.rec (hidle d) (hresetting d)).bind fun _ => ?_
  refine ((rests_waitBusy 500).conseq (fun _ => id) (fun _ _ => id) hresetting).bind fun _ => ?_
  refine (hsteady (steady_commandData (by decide) _)).bind fun _ => ?_
  refine (hsteady (steady_commandData (by decide) _)).bind fun _ => ?_
  refine (hsteady (steady_commandData (by decide) _)).bind fun _ => ?_
  refine (hsteady (steady_commandData (by decide) _)).bind fun _ => ?_
  refine (hsteady (steady_commandData (by decide) _)).bind fun _ => ?_
  refine (hsteady (steady_setWindow ..)).bind fun _ => ?_
  refine (hsteady (steady_commandData (by decide) _)).bind fun _ => ?_
  refine ((rests_waitBusy 500).conseq (fun _ => id) (fun _ _ => id) hresetting).bind fun _ => ?_
  refine (rests_fill.conseq (fun _ => id) (fun _ _ => id)
    fun d => Or.rec (hresetting d) (hfilling d)).bind fun _ => ?_
  refine ((rests_waitBusy 500).conseq (fun _ => id) (fun _ _ => id) hfilling).bind fun _ => ?_
  exact Triple.modify fun d hd => ⟨rfl, hd.2⟩

theorem rests_setPower (on : Bool) :
    Triple (Rests f n .settled) (setPower on : Driver (Wired B) Unit)
      (fun _ d => ∃ on', Rests { f with screenOn := on' } n .settled d) (Rests f n .settled) := by
  refine (Triple.get (Q := fun _ => Rests f n .settled) fun _ => id).bind fun d =>
    Triple.ite (fun _ => Triple.pure () fun d hd => ⟨f.screenOn, hd⟩) fun _ => ?_
  have hmode : (if on then 0xC0 else 0x03) &&& ctrl2.MODE2 = 0 := by cases on <;> decide
  have hshow : (if on then 0xC0 else 0x03) &&& ctrl2.DISPLAY = 0 := by cases on <;> decide
  obtain ⟨c, hc⟩ : ∃ c : UInt8, c = if on then 0xC0 else 0x03 := ⟨_, rfl⟩
  rw [← hc] at hmode hshow ⊢
  refine triple_of_at fun k hn hp => ?_
  have hctrl2 := steady_commandData (B := B) (c := cmd.UPDATE_CTRL2) (by decide) [c]
  have hstrobe : ∀ d : Ssd1677 (Wired B), At f (k.strobe c) d → Rests f n .settled d := by
    intro d hd
    rw [← hn, ← hp]
    exact Rests.of_strobe hmode hshow hd
  have hsent : ∀ d : Ssd1677 (Wired B), Still f k d → Rests f n .settled d :=
    fun d hd => ⟨hd.1, by rw [hd.2.1, hn], by rw [hd.2.2, hp]⟩
  refine ((hctrl2.triple f k).conseq (fun _ => id) (fun _ _ => id) hsent).bind fun _ => ?_
  refine (triple_command.conseq (fun _ => id) (fun _ => hstrobe) fun d =>
    Or.rec (fun hd => hsent d (hctrl2.still hd.still)) (hstrobe d)).bind fun _ => ?_
  refine ((rests_waitBusy 2000).conseq (fun _ => id) (fun _ _ => id) fun _ => id).bind fun _ => ?_
  refine Triple.modify fun d hd => ⟨on, ?_, hd.2⟩
  exact congrArg (fun f : Ssd1677 Unit => { f with screenOn := on }) hd.1

theorem rests_ensureKnownFace :
    Triple (Rests f n p) (ensureKnownFace : Driver (Wired B) Unit)
      (fun _ d => f.faceKnown = true ∧ Rests f n p d ∨
        f.faceKnown = false ∧ Rests ready 0 .settled d)
      (fun d => f.faceKnown = false ∧ Unready f n p d) := by
  refine (Triple.get (Q := fun d d' => d.faceKnown = f.faceKnown ∧ Rests f n p d') fun d hd =>
    ⟨congrArg Ssd1677.faceKnown hd.1, hd⟩).bind fun d => Triple.imp fun hknown => ?_
  rw [hknown]
  cases hf : f.faceKnown with
  | true => exact Triple.pure () fun d hd => .inl ⟨rfl, hd⟩
  | false =>
    exact rests_init.conseq (fun _ => id) (fun _ d hd => .inr ⟨rfl, hd⟩) fun d hd => ⟨rfl, hd⟩

/-! ## Calls -/

theorem tracks_activated (hf : f.Tracks n) (hknown : f.faceKnown = true) {c : UInt8} {s : Screen}
    (hs : s.swaps = n) (hshow : c &&& ctrl2.DISPLAY ≠ 0) (table : Option (List UInt8)) :
    (f.activated c).Tracks (s.activate c table).swaps := by
  subst hs
  by_cases hmode : c &&& ctrl2.MODE2 ≠ 0
  · have hflags : (f.activated c).faceOdd = !f.faceOdd := by
      rw [activated, if_pos hmode, hknown]
      rfl
    have hswaps : (s.activate c table).swaps = s.swaps + 1 := by rw [Screen.activate, if_pos hmode]
    intro _
    rw [hflags, hswaps, hf hknown, ← decide_not]
    exact decide_eq_decide.mpr (by omega)
  · have hflags : (f.activated c).faceOdd = false := by rw [activated, if_neg hmode]
    have hswaps : (s.activate c table).swaps = 0 := by
      rw [Screen.activate, if_neg hmode, if_pos hshow]
    intro _
    rw [hflags, hswaps]
    rfl

/-- An activation on a known face is accounted for. -/
theorem accounted_activate (hf : f.Tracks n) (hknown : f.faceKnown = true) (c1 : UInt8) {c2 : UInt8}
    (hshow : c2 &&& ctrl2.DISPLAY ≠ 0) (t : Nat) :
    Triple (Rests f n .settled) (activate c1 c2 t : Driver (Wired B) Unit)
      (fun _ => Known) (Accounted f) := by
  refine triple_of_at fun k hn hp => ?_
  have hshow' : f.powered c2 &&& ctrl2.DISPLAY ≠ 0 := by rwa [powered_and f c2 (by decide)]
  obtain ⟨c, hc⟩ : ∃ c, c = f.powered c2 := ⟨_, rfl⟩
  have hscreen := k.screen_activated c1 c
  have hphase := k.phase_activated c1 c
  rw [← hc] at hshow'
  rw [if_pos hshow'] at hphase
  refine (triple_activate c1 c2 t).conseq (fun _ => id) ?_ ?_
  · rintro - d ⟨hd, hk⟩
    rw [← hc] at hd hk
    have hidle : (k.activated c1 c).onIdle.phase = .settled := by
      change Phase.idle _ = _
      rw [hphase]
      split <;> rfl
    have hrests : Rests (f.activated c) (k.activated c1 c).screen.swaps .settled d :=
      ⟨hd, by rw [hk]; rfl, by rw [hk, hidle]⟩
    refine hrests.known ?_
    rw [hscreen]
    exact tracks_activated hf hknown hn hshow' _
  · rintro d (⟨hd, hs, hq⟩ | ⟨hd, hk⟩)
    · exact Rests.accounted ⟨hd, hs.trans hn, hq.trans hp⟩ hf
    · rw [← hc] at hk
      by_cases hmode : c &&& ctrl2.MODE2 ≠ 0
      · refine Rests.accounted_odd ⟨hd, ?_, ?_⟩ hf hknown
        · rw [hk, hscreen, Screen.activate, if_pos hmode, hn]
        · rw [hk, hphase, if_pos hmode]
      · refine Rests.accounted_even (p := .updating false) ⟨hd, ?_, ?_⟩ (.inr (.inr rfl))
        · rw [hk, hscreen, Screen.activate, if_neg hmode, if_pos hshow']
        · rw [hk, hphase, if_neg hmode]

theorem accounted_steady (hf : f.Tracks n) {q : Driver (Wired B) Unit} {F : Controller → Controller}
    (hq : Steady q F) :
    Triple (Rests f n .settled) q (fun _ => Rests f n .settled) (Accounted f) :=
  hq.rests.conseq (fun _ => id) (fun _ _ => id) fun _ hd => hd.accounted hf

/-- A call that makes sure of the face first is accounted for if its rest is. -/
theorem accounted_ensure (hf : f.Tracks n) {body : Driver (Wired B) Unit}
    (hbody : ∀ g m, g.Tracks m → g.faceKnown = true →
      Triple (Rests g m .settled) body (fun _ => Known) (Accounted g)) :
    Triple (Rests f n .settled) (ensureKnownFace >>= fun _ => body) (fun _ => Known)
      (Accounted f) := by
  refine (rests_ensureKnownFace.conseq (fun _ => id) (fun _ _ => id)
    fun d hd => hd.2.accounted hf).bind fun _ => Triple.or ?_ ?_
  · exact Triple.imp fun hknown => hbody f n hf hknown
  · refine Triple.imp fun hunknown => ?_
    have hready : ∀ d : Ssd1677 (Wired B), Accounted ready d → Accounted f d := by
      intro d hd
      have hlost : ∀ q, ready.Lost q ↔ f.Lost q := by
        intro q
        rcases q with _ | _ | _ | (_ | _) <;> simp [Lost, ready, hunknown]
      rwa [Accounted, ← hlost]
    exact (hbody ready 0 tracks_ready rfl).conseq (fun _ => id) (fun _ _ => id) hready

theorem accounted_refreshMonoFull (hf : f.Tracks n) (mono : Plane) :
    Triple (Rests f n .settled) (refreshMonoFull mono : Driver (Wired B) Unit)
      (fun _ => Known) (Accounted f) := by
  refine accounted_ensure hf fun g m hg hknown => ?_
  refine (accounted_steady hg (steady_writePlane (by decide) mono false)).bind fun _ => ?_
  refine (accounted_steady hg (steady_writePlane (by decide) mono false)).bind fun _ => ?_
  exact accounted_activate hg hknown _ (by decide) _

theorem accounted_refreshMonoPartial (hf : f.Tracks n) (mono : Plane) (x0 y0 w h : UInt16) :
    Triple (Rests f n .settled) (refreshMonoPartial mono x0 y0 w h : Driver (Wired B) Unit)
      (fun _ => Known) (Accounted f) := by
  refine accounted_ensure hf fun g m hg hknown => ?_
  obtain ⟨F, hbw⟩ := steady_writePlaneRect (B := B) (c := cmd.WRITE_RAM_BW)
      (by decide) mono x0 y0 w h false
  obtain ⟨G, hred⟩ := steady_writePlaneRect (B := B) (c := cmd.WRITE_RAM_RED)
      (by decide) mono x0 y0 w h false
  refine (accounted_steady hg (steady_commandData (by decide) _)).bind fun _ => ?_
  refine (accounted_steady hg hbw).bind fun _ => ?_
  refine (accounted_activate hg hknown _ (by decide) _).bind fun _ => ?_
  -- the rest leaves whatever face the activation left
  rintro d ⟨hd, hp⟩
  have hface : d.flags.Tracks d.bus.controller.screen.swaps := hd
  have hrest := hred.bind (steady_commandData (c := cmd.BORDER_WAVEFORM) (by decide) [0x01])
  exact hrest.rests.conseq (fun _ => id) (fun _ _ hd => hd.known hface)
    (fun _ hd => hd.accounted hface) d ⟨rfl, rfl, hp⟩

/-- Both planes, the table and the refresh. -/
theorem accounted_grayPlanes (hf : f.Tracks n) (hknown : f.faceKnown = true) (bw red : Plane)
    (table : Block lut.LUT_LEN) {c2 : UInt8} (hshow : c2 &&& ctrl2.DISPLAY ≠ 0) (t : Nat) :
    Triple (Rests f n .settled) (do
      writePlane cmd.WRITE_RAM_BW bw true
      writePlane cmd.WRITE_RAM_RED red true
      sendLut table
      activate 0x00 c2 t : Driver (Wired B) Unit) (fun _ => Known) (Accounted f) := by
  refine (accounted_steady hf (steady_writePlane (by decide) bw true)).bind fun _ => ?_
  refine (accounted_steady hf (steady_writePlane (by decide) red true)).bind fun _ => ?_
  refine (accounted_steady hf (steady_sendLut table)).bind fun _ => ?_
  exact accounted_activate hf hknown _ hshow t

theorem accounted_refreshGray4 (hf : f.Tracks n) (lsb msb : Plane) (mode : GrayMode) :
    Triple (Rests f n .settled) (refreshGray4 lsb msb mode : Driver (Wired B) Unit)
      (fun _ => Known) (Accounted f) := by
  refine accounted_ensure hf fun g m hg hknown => ?_
  cases mode with
  | quality =>
    refine (Triple.get fun _ => id).bind fun d => ?_
    exact accounted_grayPlanes hg hknown _ _ lut.LUT_QUALITY (by decide) 15000
  | text =>
    refine (Triple.get fun _ => id).bind fun d => ?_
    exact accounted_grayPlanes hg hknown _ _ lut.LUT_TEXT (by decide) 15000
  | fast => exact accounted_grayPlanes hg hknown lsb msb lut.LUT_FAST (by decide) 5000

/-- A row of the new image, in the region or out of it. -/
theorem gives_newRow (newMsb oldMsb : Plane) (first last ys ye y : Nat) :
    Gives (newRow newMsb oldMsb first last ys ye y : Driver (Wired B) (List UInt8))
      (if ys ≤ y ∧ y ≤ ye then
        splice (oldMsb.read (y * ROW_BYTES) ROW_BYTES) first
          (newMsb.read (y * ROW_BYTES + first) (last + 1 - first))
      else oldMsb.read (y * ROW_BYTES) ROW_BYTES) := by
  unfold newRow
  by_cases hrow : ys ≤ y ∧ y ≤ ye
  · rw [if_pos hrow, if_pos hrow]
    by_cases hrange : last + 1 < first ∨ ROW_BYTES ≤ last
    · exact .inr ⟨_, if_pos hrange⟩
    · exact .inl (if_neg hrange)
  · rw [if_neg hrow, if_neg hrow]
    exact .inl rfl

theorem accounted_refreshFastest (hf : f.Tracks n) (newMsb oldLsb oldMsb : Plane)
    (x0 w y0 h : UInt16) :
    Triple (Rests f n .settled)
      (refreshFastest newMsb oldLsb oldMsb x0 w y0 h : Driver (Wired B) Unit)
      (fun _ => Known) (Accounted f) := by
  refine accounted_ensure hf fun g m hg hknown => ?_
  refine (accounted_steady hg (steady_setWindow ..)).bind fun _ => ?_
  refine (accounted_steady hg (steady_command (by decide))).bind fun _ => ?_
  refine (accounted_steady hg (steady_stream _ fun y => gives_newRow ..)).bind fun _ => ?_
  refine (accounted_steady hg (steady_setWindow ..)).bind fun _ => ?_
  refine (accounted_steady hg (steady_command (by decide))).bind fun _ => ?_
  refine (accounted_steady hg (steady_stream _ fun y => .inl rfl)).bind fun _ => ?_
  refine (accounted_steady hg (steady_sendLut _)).bind fun _ => ?_
  exact accounted_activate hg hknown _ (by decide) _

/-! ## Runs -/

/-- The driver's operations. -/
inductive Call
  | init
  | setPower (on : Bool)
  | deepSleep
  | refreshMonoFull (mono : Plane)
  | refreshMonoPartial (mono : Plane) (x0 y0 w h : UInt16)
  | refreshGray4 (lsb msb : Plane) (mode : GrayMode)
  | refreshFastest (newMsb oldLsb oldMsb : Plane) (x0 w y0 h : UInt16)

def Call.run : Call → Driver (Wired B) Unit
  | .init => Ssd1677.init
  | .setPower on => Ssd1677.setPower on
  | .deepSleep => Ssd1677.deepSleep
  | .refreshMonoFull mono => Ssd1677.refreshMonoFull mono
  | .refreshMonoPartial mono x0 y0 w h => Ssd1677.refreshMonoPartial mono x0 y0 w h
  | .refreshGray4 lsb msb mode => Ssd1677.refreshGray4 lsb msb mode
  | .refreshFastest newMsb oldLsb oldMsb x0 w y0 h =>
    Ssd1677.refreshFastest newMsb oldLsb oldMsb x0 w y0 h

/-- The phase is counted from the beginning of a call. -/
def begin (d : Ssd1677 (Wired B)) : Ssd1677 (Wired B) :=
  { d with bus := { d.bus with controller := { d.bus.controller with phase := .settled } } }

/-- One call, whatever it returns. -/
def step (d : Ssd1677 (Wired B)) (c : Call) : Ssd1677 (Wired B) := (c.run d.begin).2

/-- The call stops where the face is lost. -/
def Cut (d : Ssd1677 (Wired B)) (c : Call) : Prop :=
  d.flags.Lost (d.step c).bus.controller.phase

theorem accounted_run (hf : f.Tracks n) (c : Call) :
    Triple (Rests f n .settled) (c.run : Driver (Wired B) Unit) (fun _ => Known) (Accounted f) := by
  have hsame : ∀ d : Ssd1677 (Wired B), Rests f n .settled d → Accounted f d :=
    fun d hd => hd.accounted hf
  cases c with
  | init =>
    exact rests_init.conseq (fun _ => id) (fun _ d hd => hd.known tracks_ready)
      fun d hd => hd.accounted hf
  | setPower on =>
    refine (rests_setPower on).conseq (fun _ => id) ?_ hsame
    rintro - d ⟨on', hd⟩
    exact hd.known fun hknown => hf hknown
  | deepSleep =>
    refine ((rests_setPower false).conseq (fun _ => id) (fun _ _ => id) hsame).bind fun _ => ?_
    rintro d ⟨on', hd⟩
    have hsleep := steady_commandData (B := B) (c := cmd.DEEP_SLEEP) (by decide) [0x01]
    refine (hsleep.rests.conseq (fun _ => id) (fun _ _ => id) fun d hd => ?_).bind
      (fun _ => ?_) d hd
    · exact hd.accounted (fun hknown => hf hknown)
    · refine Triple.modify fun d hd => ?_
      have hd' : Rests { f with screenOn := on', faceKnown := false } n .settled
          { d with faceKnown := false } :=
        ⟨congrArg (fun f : Ssd1677 Unit => { f with faceKnown := false }) hd.1, hd.2⟩
      exact hd'.known fun hknown => nomatch hknown
  | refreshMonoFull mono => exact accounted_refreshMonoFull hf mono
  | refreshMonoPartial mono x0 y0 w h => exact accounted_refreshMonoPartial hf mono x0 y0 w h
  | refreshGray4 lsb msb mode => exact accounted_refreshGray4 hf lsb msb mode
  | refreshFastest newMsb oldLsb oldMsb x0 w y0 h =>
    exact accounted_refreshFastest hf newMsb oldLsb oldMsb x0 w y0 h

/-- A call keeps the tracked face exactly if it is not cut off where it is lost. -/
theorem tracked_step_iff {d : Ssd1677 (Wired B)} (hd : d.Tracked) (c : Call) :
    (d.step c).Tracked ↔ ¬ d.Cut c := by
  have hrests : Rests d.flags d.bus.controller.screen.swaps .settled d.begin := ⟨rfl, rfl, rfl⟩
  have hrun := accounted_run (B := B) (f := d.flags) hd c d.begin hrests
  unfold Cut step
  revert hrun
  rcases c.run d.begin with ⟨e | ⟨⟩, d'⟩
  · exact id
  · exact Known.accounted

/-- In a run from a new driver the tracked face is right throughout exactly if no call is cut off
where it is lost. -/
theorem tracked_iff (w : Wired B) (cs : List Call) :
    Always step Tracked (new w) cs ↔ EachStep step (fun d c => ¬ d.Cut c) (new w) cs := by
  refine always_iff_of_step (fun d c hd => ?_) fun hknown => ?_
  · exact tracked_step_iff hd c
  · cases hknown

/-- The call returns without an error. -/
def Returns (d : Ssd1677 (Wired B)) (c : Call) : Prop := (c.run d.begin).1 = .ok ()

/-- A call that returns without an error is not cut off. -/
theorem Returns.tracked {d : Ssd1677 (Wired B)} (hd : d.Tracked) {c : Call} (hc : d.Returns c) :
    (d.step c).Tracked := by
  have hrests : Rests d.flags d.bus.controller.screen.swaps .settled d.begin := ⟨rfl, rfl, rfl⟩
  have hrun : c.run d.begin = (.ok (), d.step c) := Prod.ext hc rfl
  exact ((accounted_run (f := d.flags) hd c).ok hrests hrun).1

/-- A bus on which everything succeeds but the readings of BUSY after the first few. -/
structure BusyFails where
  readings : Nat

instance : Wire BusyFails where
  SpiError := Unit
  PinError := Unit
  write b _ := (.ok (), b)
  flush b := (.ok (), b)
  select b _ := (.ok (), b)
  setData b _ := (.ok (), b)
  isBusy b := (if b.readings = 0 then .error () else .ok false, ⟨b.readings - 1⟩)
  arrived _ _ := 0
  moved _ := false

/-- Where reading BUSY fails after the activation of a partial update, the face is taken for
even. -/
theorem failed_reading_loses_face :
    ¬ Always step Tracked (new ({ bus := ⟨4⟩, controller := .blank } : Wired BusyFails))
      [.refreshMonoPartial (.filled 0xFF) 0 0 8 1] := by
  have hknown : ((new ({ bus := ⟨4⟩, controller := .blank } : Wired BusyFails)).step
      (.refreshMonoPartial (.filled 0xFF) 0 0 8 1)).faceKnown = true := by decide +kernel
  have hodd : ((new ({ bus := ⟨4⟩, controller := .blank } : Wired BusyFails)).step
      (.refreshMonoPartial (.filled 0xFF) 0 0 8 1)).faceOdd ≠
        ((new ({ bus := ⟨4⟩, controller := .blank } : Wired BusyFails)).step
          (.refreshMonoPartial (.filled 0xFF) 0 0 8 1)).bus.controller.screen.oddFace := by
    decide +kernel
  exact fun h => hodd (h.2 hknown)

end Ssd1677

end PaperNamePlate.Epd
