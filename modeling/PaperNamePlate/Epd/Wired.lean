import PaperNamePlate.Epd.Ssd1677
import PaperNamePlate.Lib.Triple

/-!
# The driver wired to the controller

A bus with the controller on it. An access may fail at any time; a failing write may
have sent a part of its bytes, and a failing pin access may have moved the pin. For
each driver function that neither resets nor activates, `Steady` says what the
controller holds where it succeeds, and that the face and what the controller is busy
with are as before wherever it stops.
-/
namespace PaperNamePlate.Epd

open Embedded Embedded.Prog

/-- A bus, with what its failing accesses still do on the wires. -/
class Wire (B : Type) extends EpdBus B where
  /-- How many bytes of a failing write arrive. -/
  arrived : B → List UInt8 → Nat
  /-- Whether a failing access to a pin moves it. -/
  moved : B → Bool

/-- A bus, the levels of CS and D/C, and the controller. -/
structure Wired (B : Type) where
  bus : B
  selected : Bool := false
  data : Bool := false
  controller : Controller

namespace Wired

variable {B : Type} [Wire B]

/-- Bytes on the wires reach the controller only while it is selected. -/
def receive (w : Wired B) (bs : List UInt8) : Wired B :=
  if w.selected then { w with controller := w.controller.feed w.data bs } else w

instance : EpdBus (Wired B) where
  SpiError := EpdBus.SpiError B
  PinError := EpdBus.PinError B
  write w bs :=
    match EpdBus.write w.bus bs with
    | (.ok (), bus) => (.ok (), { w with bus }.receive bs)
    | (.error e, bus) => (.error e, { w with bus }.receive (bs.take (Wire.arrived w.bus bs)))
  flush w :=
    let (r, bus) := EpdBus.flush w.bus
    (r, { w with bus })
  select w on :=
    match EpdBus.select w.bus on with
    | (.ok (), bus) => (.ok (), { w with bus, selected := on })
    | (.error e, bus) =>
      (.error e, { w with bus, selected := if Wire.moved w.bus then on else w.selected })
  setData w data :=
    match EpdBus.setData w.bus data with
    | (.ok (), bus) => (.ok (), { w with bus, data })
    | (.error e, bus) =>
      (.error e, { w with bus, data := if Wire.moved w.bus then data else w.data })
  isBusy w :=
    match EpdBus.isBusy w.bus with
    | (.ok true, bus) => (.ok true, { w with bus })
    | (.ok false, bus) => (.ok false, { w with bus, controller := w.controller.onIdle })
    | (.error e, bus) => (.error e, { w with bus })

theorem write_cases (w : Wired B) (bs : List UInt8) :
    (∃ bus, EpdBus.write w bs = (.ok (), { w with bus }.receive bs)) ∨
      ∃ e bus sent, sent <+: bs ∧ EpdBus.write w bs = (.error e, { w with bus }.receive sent) := by
  rcases h : EpdBus.write w.bus bs with ⟨e | ⟨⟩, bus⟩
  · refine .inr ⟨e, bus, bs.take (Wire.arrived w.bus bs), List.take_prefix _ _, ?_⟩
    simp only [EpdBus.write, h]
  · exact .inl ⟨bus, by simp only [EpdBus.write, h]⟩

theorem flush_cases (w : Wired B) : ∃ r bus, EpdBus.flush w = (r, { w with bus }) := ⟨_, _, rfl⟩

theorem select_cases (w : Wired B) (on : Bool) :
    (∃ bus, EpdBus.select w on = (.ok (), { w with bus, selected := on })) ∨
      ∃ e bus selected, EpdBus.select w on = (.error e, { w with bus, selected }) := by
  rcases h : EpdBus.select w.bus on with ⟨e | ⟨⟩, bus⟩
  · exact .inr ⟨e, bus, _, by simp only [EpdBus.select, h]; rfl⟩
  · exact .inl ⟨bus, by simp only [EpdBus.select, h]⟩

theorem setData_cases (w : Wired B) (data : Bool) :
    (∃ bus, EpdBus.setData w data = (.ok (), { w with bus, data })) ∨
      ∃ e bus data', EpdBus.setData w data = (.error e, { w with bus, data := data' }) := by
  rcases h : EpdBus.setData w.bus data with ⟨e | ⟨⟩, bus⟩
  · exact .inr ⟨e, bus, _, by simp only [EpdBus.setData, h]; rfl⟩
  · exact .inl ⟨bus, by simp only [EpdBus.setData, h]⟩

theorem isBusy_cases (w : Wired B) :
    (∃ bus, EpdBus.isBusy w = (.ok true, { w with bus })) ∨
      (∃ bus, EpdBus.isBusy w = (.ok false, { w with bus, controller := w.controller.onIdle })) ∨
      ∃ e bus, EpdBus.isBusy w = (.error e, { w with bus }) := by
  rcases h : EpdBus.isBusy w.bus with ⟨e | (_ | _), bus⟩
  · exact .inr (.inr ⟨e, bus, by simp only [EpdBus.isBusy, h]⟩)
  · exact .inr (.inl ⟨bus, by simp only [EpdBus.isBusy, h]⟩)
  · exact .inl ⟨bus, by simp only [EpdBus.isBusy, h]⟩

end Wired

namespace Ssd1677

variable {B : Type}

/-- The driver's own state. -/
def flags (d : Ssd1677 (Wired B)) : Ssd1677 Unit :=
  { bus := (), screenOn := d.screenOn, faceOdd := d.faceOdd, faceKnown := d.faceKnown }

/-- The driver and the controller are as given. -/
def At (f : Ssd1677 Unit) (k : Controller) (d : Ssd1677 (Wired B)) : Prop :=
  d.flags = f ∧ d.bus.controller = k

/-- The driver, the face and what the controller is busy with are as given. -/
def Still (f : Ssd1677 Unit) (k : Controller) (d : Ssd1677 (Wired B)) : Prop :=
  d.flags = f ∧ d.bus.controller.screen.swaps = k.screen.swaps ∧ d.bus.controller.phase = k.phase

theorem At.still {f : Ssd1677 Unit} {k : Controller} {d : Ssd1677 (Wired B)} (h : At f k d) :
    Still f k d :=
  ⟨h.1, by rw [h.2], by rw [h.2]⟩

variable [Wire B] {α : Type}

/-! ## Accesses -/

theorem triple_access {ε : Type} {P : Ssd1677 (Wired B) → Prop} {Q : α → Ssd1677 (Wired B) → Prop}
    {E : Ssd1677 (Wired B) → Prop} {op : Wired B → Except ε α × Wired B}
    {err : ε → EpdError (EpdBus.SpiError (Wired B)) (EpdBus.PinError (Wired B))}
    (h : ∀ d, P d → match op d.bus with
      | (.ok a, bus) => Q a { d with bus }
      | (.error _, bus) => E { d with bus }) :
    Triple P (access op err) Q E := by
  refine Triple.mapError fun d hd => ?_
  have h' := h d hd
  unfold zoom
  revert h'
  rcases op d.bus with ⟨e | a, w⟩ <;> exact id

/-- At `f` and `k`, with CS low and D/C as given. -/
def Open (f : Ssd1677 Unit) (k : Controller) (data : Bool) (d : Ssd1677 (Wired B)) : Prop :=
  At f k d ∧ d.bus.selected = true ∧ d.bus.data = data

variable {f : Ssd1677 Unit} {k : Controller}

theorem triple_select :
    Triple (At f k) (select : Driver (Wired B) Unit)
      (fun _ d => At f k d ∧ d.bus.selected = true) (At f k) := by
  refine triple_access fun d hd => ?_
  obtain ⟨bus, h⟩ | ⟨e, bus, selected, h⟩ := d.bus.select_cases true
  · rw [h]
    exact ⟨hd, rfl⟩
  · rw [h]
    exact hd

theorem triple_setData (data : Bool) :
    Triple (fun d => At f k d ∧ d.bus.selected = true) (setData data : Driver (Wired B) Unit)
      (fun _ => Open f k data) (At f k) := by
  refine triple_access fun d hd => ?_
  obtain ⟨bus, h⟩ | ⟨e, bus, data', h⟩ := d.bus.setData_cases data
  · rw [h]
    exact ⟨hd.1, hd.2, rfl⟩
  · rw [h]
    exact hd.1

theorem triple_write (data : Bool) (bs : List UInt8) :
    Triple (Open f k data) (write bs : Driver (Wired B) Unit)
      (fun _ => Open f (k.feed data bs) data)
      (fun d => ∃ sent, sent <+: bs ∧ Open f (k.feed data sent) data d) := by
  refine triple_access fun d hd => ?_
  obtain ⟨⟨hf, hk⟩, hsel, hdata⟩ := hd
  have hreceive : ∀ (bus : B) (sent : List UInt8), Open f (k.feed data sent) data
      { d with bus := { d.bus with bus }.receive sent } := by
    intro bus sent
    rw [Wired.receive, if_pos hsel]
    exact ⟨⟨hf, by rw [← hk, ← hdata]⟩, hsel, hdata⟩
  obtain ⟨bus, h⟩ | ⟨e, bus, sent, hsent, h⟩ := d.bus.write_cases bs
  · rw [h]
    exact hreceive bus bs
  · rw [h]
    exact ⟨sent, hsent, hreceive bus sent⟩

theorem triple_flush :
    Triple (At f k) (flush : Driver (Wired B) Unit) (fun _ => At f k) (At f k) := by
  refine triple_access fun d hd => ?_
  obtain ⟨e | ⟨⟩, bus, h⟩ := d.bus.flush_cases
  · rw [h]
    exact hd
  · rw [h]
    exact hd

theorem triple_deselect :
    Triple (At f k) (deselect : Driver (Wired B) Unit) (fun _ => At f k) (At f k) := by
  refine triple_access fun d hd => ?_
  obtain ⟨bus, h⟩ | ⟨e, bus, selected, h⟩ := d.bus.select_cases false
  · rw [h]
    exact hd
  · rw [h]
    exact hd

/-- What was sent before a failure is a prefix of what was to be sent. -/
theorem triple_send (data : Bool) (bs : List UInt8) :
    Triple (At f k) (send data bs : Driver (Wired B) Unit) (fun _ => At f (k.feed data bs))
      (fun d => ∃ sent, sent <+: bs ∧ At f (k.feed data sent) d) := by
  have hnone : ∀ d : Ssd1677 (Wired B), At f k d →
      ∃ sent, sent <+: bs ∧ At f (k.feed data sent) d :=
    fun d hd => ⟨[], List.nil_prefix, hd⟩
  refine (triple_select.conseq (fun _ => id) (fun _ _ => id) hnone).bind fun _ => ?_
  refine ((triple_setData data).conseq (fun _ => id) (fun _ _ => id) hnone).bind fun _ => ?_
  refine (Triple.attempt (Q := fun r d => match r with
    | .ok () => At f (k.feed data bs) d
    | .error _ => ∃ sent, sent <+: bs ∧ At f (k.feed data sent) d)
    ((triple_write data bs).conseq (fun _ => id) (fun _ _ h => h.1) ?_)).bind fun r => ?_
  · rintro d ⟨sent, hsent, hd, -⟩ e
    exact ⟨sent, hsent, hd⟩
  rcases r with e | ⟨⟩
  · refine Triple.exists fun sent hsent => ?_
    refine (triple_flush.conseq (fun _ => id) (fun _ _ => id) fun d hd => ?_).bind fun _ =>
      (triple_deselect.conseq (fun _ => id) (fun _ _ => id) fun d hd => ?_).bind fun _ =>
        Triple.throw e fun d hd => ?_
    all_goals exact ⟨sent, hsent, hd⟩
  · refine (triple_flush.conseq (fun _ => id) (fun _ _ => id) fun d hd => ?_).bind fun _ =>
      (triple_deselect.conseq (fun _ => id) (fun _ _ => id) fun d hd => ?_).bind fun _ =>
        Triple.pure () fun _ => id
    · exact ⟨bs, List.prefix_refl _, hd⟩
    · exact ⟨bs, List.prefix_refl _, hd⟩

theorem triple_command {c : UInt8} :
    Triple (At f k) (command c : Driver (Wired B) Unit) (fun _ => At f (k.onCommand c))
      (fun d => At f k d ∨ At f (k.onCommand c) d) := by
  refine (triple_send false [c]).conseq (fun _ => id) (fun _ _ => id) ?_
  rintro d ⟨sent, hsent, hd⟩
  cases sent with
  | nil => exact .inl hd
  | cons b sent =>
    obtain ⟨rfl, hnil⟩ := List.cons_prefix_cons.mp hsent
    rw [List.prefix_nil.mp hnil] at hd
    exact .inr hd

theorem triple_isBusy :
    Triple (At f k) (isBusy : Driver (Wired B) Bool)
      (fun busy => At f (if busy then k else k.onIdle)) (At f k) := by
  refine triple_access fun d hd => ?_
  obtain ⟨bus, h⟩ | ⟨bus, h⟩ | ⟨e, bus, h⟩ := d.bus.isBusy_cases
  · rw [h]
    exact hd
  · rw [h]
    exact ⟨hd.1, congrArg Controller.onIdle hd.2⟩
  · rw [h]
    exact hd

/-- A wait that succeeds ends with BUSY low; one that fails has not seen it low. -/
theorem triple_waitBusy (n : Nat) :
    Triple (At f k) (waitBusy n : Driver (Wired B) Unit) (fun _ => At f k.onIdle) (At f k) := by
  unfold waitBusy
  induction n with
  | zero =>
    refine triple_isBusy.bind fun busy => ?_
    cases busy with
    | true => exact Triple.throw _ fun _ => id
    | false => exact Triple.pure () fun _ => id
  | succ n ih =>
    refine triple_isBusy.bind fun busy => ?_
    cases busy with
    | true => exact ih
    | false => exact Triple.pure () fun _ => id

/-! ## Functions that keep the face -/

/-- Where `p` succeeds it takes the controller to its image under `F`; the driver's state, the face
and the phase are as before wherever it stops. -/
structure Steady (p : Driver (Wired B) Unit) (F : Controller → Controller) : Prop where
  swaps : ∀ k, (F k).screen.swaps = k.screen.swaps
  phase : ∀ k, (F k).phase = k.phase
  triple : ∀ f k, Triple (At f k) p (fun _ => At f (F k)) (Still f k)

theorem Steady.still {p : Driver (Wired B) Unit} {F : Controller → Controller} (hp : Steady p F)
    {d : Ssd1677 (Wired B)} (h : Still f (F k) d) : Still f k d :=
  ⟨h.1, h.2.1.trans (hp.swaps k), h.2.2.trans (hp.phase k)⟩

theorem Steady.pure : Steady (Pure.pure () : Driver (Wired B) Unit) id :=
  ⟨fun _ => rfl, fun _ => rfl, fun _ _ => Triple.pure () fun _ => id⟩

theorem Steady.bind {p q : Driver (Wired B) Unit} {F G : Controller → Controller} (hp : Steady p F)
    (hq : Steady q G) : Steady (p >>= fun _ => q) (G ∘ F) := by
  refine ⟨fun k => (hq.swaps _).trans (hp.swaps k), fun k => (hq.phase _).trans (hp.phase k), ?_⟩
  intro f k
  refine (hp.triple f k).bind fun _ => ?_
  exact (hq.triple f (F k)).conseq (fun _ => id) (fun _ _ => id) fun d hd => hp.still hd

theorem steady_command {c : UInt8} (h : Controller.Quiet c) :
    Steady (command c : Driver (Wired B) Unit) (·.onCommand c) := by
  refine ⟨fun k => by rw [Controller.screen_onCommand h], fun k => Controller.phase_onCommand h, ?_⟩
  intro f k
  refine triple_command.conseq (fun _ => id) (fun _ _ => id) ?_
  rintro d (hd | hd)
  · exact hd.still
  · have hstill := hd.still
    exact ⟨hstill.1, by rw [hstill.2.1, Controller.screen_onCommand h],
      by rw [hstill.2.2, Controller.phase_onCommand h]⟩

theorem steady_send_data (bs : List UInt8) :
    Steady (send true bs : Driver (Wired B) Unit) (·.feed true bs) := by
  refine ⟨fun k => Controller.swaps_feed k bs, fun k => Controller.phase_feed k bs, fun f k => ?_⟩
  refine (triple_send true bs).conseq (fun _ => id) (fun _ _ => id) ?_
  rintro d ⟨sent, -, hd⟩
  exact ⟨hd.1, by rw [hd.2, Controller.swaps_feed], by rw [hd.2, Controller.phase_feed]⟩

theorem steady_data (bs : List UInt8) :
    Steady (data bs : Driver (Wired B) Unit) (·.feed true bs) := by
  unfold data
  split
  · next h =>
    subst h
    exact Steady.pure
  · exact steady_send_data bs

theorem steady_commandData {c : UInt8} (h : Controller.Quiet c) (bs : List UInt8) :
    Steady (commandData c bs : Driver (Wired B) Unit) (·.send c bs) :=
  (steady_command h).bind (steady_data bs)

/-- A chunk is the bytes given, or an error. -/
def Gives (p : Driver (Wired B) (List UInt8)) (bs : List UInt8) : Prop :=
  p = Pure.pure bs ∨ ∃ e, p = Prog.throw e

theorem triple_chunks {β : Type} (xs : List β) {p : β → Driver (Wired B) (List UInt8)}
    {bytes : β → List UInt8} (h : ∀ x, Gives (p x) (bytes x)) :
    Triple (Open f k true) (forEach (xs.map p) fun chunk => do let bs ← chunk; write bs)
      (fun _ => Open f (k.feed true (xs.flatMap bytes)) true) (Still f k) := by
  induction xs generalizing k with
  | nil => exact Triple.pure () fun _ => id
  | cons x xs ih =>
    rw [List.map_cons, List.flatMap_cons, Controller.feed_append]
    refine Triple.bind (Q := fun _ => Open f (k.feed true (bytes x)) true) ?_ fun _ => ?_
    · obtain hx | ⟨e, hx⟩ := h x
      · rw [hx]
        refine (triple_write true (bytes x)).conseq (fun _ => id) (fun _ _ => id) ?_
        rintro d ⟨sent, -, hd, -⟩
        exact ⟨hd.1, by rw [hd.2, Controller.swaps_feed], by rw [hd.2, Controller.phase_feed]⟩
      · rw [hx]
        exact Triple.throw e fun d hd => hd.1.still
    · refine ih.conseq (fun _ => id) (fun _ _ => id) fun d hd => ?_
      exact ⟨hd.1, by rw [hd.2.1, Controller.swaps_feed], by rw [hd.2.2, Controller.phase_feed]⟩

theorem steady_stream {β : Type} (xs : List β) {p : β → Driver (Wired B) (List UInt8)}
    {bytes : β → List UInt8} (h : ∀ x, Gives (p x) (bytes x)) :
    Steady (stream (xs.map p)) (·.feed true (xs.flatMap bytes)) := by
  refine ⟨fun k => Controller.swaps_feed k _, fun k => Controller.phase_feed k _, fun f k => ?_⟩
  have hstill : ∀ d : Ssd1677 (Wired B), At f k d → Still f k d := fun d => At.still
  have hend : ∀ d : Ssd1677 (Wired B), At f (k.feed true (xs.flatMap bytes)) d → Still f k d :=
    fun d hd => ⟨hd.1, by rw [hd.2, Controller.swaps_feed], by rw [hd.2, Controller.phase_feed]⟩
  refine (triple_select.conseq (fun _ => id) (fun _ _ => id) hstill).bind fun _ => ?_
  refine ((triple_setData true).conseq (fun _ => id) (fun _ _ => id) hstill).bind fun _ => ?_
  refine ((triple_chunks xs h).conseq (fun _ => id) (fun _ _ h => h.1) fun _ => id).bind fun _ => ?_
  refine (triple_flush.conseq (fun _ => id) (fun _ _ => id) hend).bind fun _ => ?_
  exact triple_deselect.conseq (fun _ => id) (fun _ _ => id) hend

end Ssd1677

/-! ## The RAM -/

namespace Controller

theorem word_wordBytes (v : UInt16) (bs : List UInt8) :
    word (Ssd1677.wordBytes v ++ bs) = v.toNat := by
  have hv := v.toNat_lt
  have hlow : (v &&& 0xFF).toUInt8.toNat = v.toNat % 2 ^ 8 := by
    rw [UInt16.toNat_toUInt8, UInt16.toNat_and]
    change (v.toNat &&& (2 ^ 8 - 1)) % 2 ^ 8 = _
    rw [Nat.and_two_pow_sub_one_eq_mod, Nat.mod_mod]
  have hhigh : (v >>> 8).toUInt8.toNat = v.toNat / 2 ^ 8 := by
    rw [UInt16.toNat_toUInt8, UInt16.toNat_shiftRight]
    change (v.toNat >>> 8) % 2 ^ 8 = _
    rw [Nat.shiftRight_eq_div_pow]
    omega
  change (v &&& 0xFF).toUInt8.toNat + 2 ^ 8 * (v >>> 8).toUInt8.toNat = v.toNat
  rw [hlow, hhigh]
  omega

/-- A window and the counters at its first cell. -/
def setWindow (x y w h : UInt16) (k : Controller) : Controller :=
  ((((k.send cmd.DATA_ENTRY [0x03]).send cmd.SET_RAM_X
    (Ssd1677.wordBytes x ++ Ssd1677.wordBytes (x + w - 1))).send cmd.SET_RAM_Y
    (Ssd1677.wordBytes y ++ Ssd1677.wordBytes (y + h - 1))).send cmd.SET_RAM_X_CNT
    (Ssd1677.wordBytes x)).send cmd.SET_RAM_Y_CNT (Ssd1677.wordBytes y)

theorem screen_setWindow (x y w h : UInt16) (k : Controller) :
    (k.setWindow x y w h).screen = k.screen := by
  simp only [setWindow]
  rw [screen_send (by decide), screen_send (by decide), screen_send (by decide),
    screen_send (by decide), screen_send (by decide)]

theorem window_setWindow (x y w h : UInt16) (k : Controller) :
    (k.setWindow x y w h).window =
      ⟨x.toNat / 8, (x + w - 1).toNat / 8, y.toNat, (y + h - 1).toNat⟩ := by
  have hx : (k.setWindow x y w h).params cmd.SET_RAM_X =
      Ssd1677.wordBytes x ++ Ssd1677.wordBytes (x + w - 1) := by
    simp only [setWindow]
    rw [params_send (by decide), params_send (by decide), params_send (by decide),
      params_send (by decide)]
    rfl
  have hy : (k.setWindow x y w h).params cmd.SET_RAM_Y =
      Ssd1677.wordBytes y ++ Ssd1677.wordBytes (y + h - 1) := by
    simp only [setWindow]
    rw [params_send (by decide), params_send (by decide), params_send (by decide)]
    rfl
  have hdrop : ∀ v v' : UInt16, (Ssd1677.wordBytes v ++ Ssd1677.wordBytes v').drop 2 =
      Ssd1677.wordBytes v' ++ [] := fun _ _ => by simp [Ssd1677.wordBytes]
  rw [window, hx, hy, hdrop, hdrop]
  simp only [word_wordBytes]

theorem cursor_send_count (k : Controller) (x y : UInt16) :
    ((k.send cmd.SET_RAM_X_CNT (Ssd1677.wordBytes x)).send cmd.SET_RAM_Y_CNT
      (Ssd1677.wordBytes y)).cursor = (y.toNat, x.toNat / 8) := by
  have hx := word_wordBytes x []
  have hy := word_wordBytes y []
  rw [← hx, ← hy]
  rfl

theorem cursor_setWindow (x y w h : UInt16) (k : Controller) :
    (k.setWindow x y w h).cursor = (y.toNat, x.toNat / 8) := cursor_send_count _ x y

/-- A bank overwritten through a window. -/
def load (k : Controller) (x y w h : UInt16) (c : UInt8) (bs : List UInt8) : Controller :=
  ((k.setWindow x y w h).onCommand c).feed true bs

/-- The window of the whole RAM. -/
def full : Raster := ⟨0, 99, 0, 479⟩

/-- A bank overwritten with a plane. -/
def loadPlane (k : Controller) (c : UInt8) (bs : List UInt8) : Controller :=
  k.load 0 0 RAM_X_PIXELS RAM_Y_LINES c bs

theorem screen_loadPlane_bw (k : Controller) {bs : List UInt8} (h : bs.length = PLANE_BYTES) :
    (k.loadPlane cmd.WRITE_RAM_BW bs).screen =
      { k.screen with bw := full.paint bs k.screen.bw } := by
  obtain ⟨k', hk'⟩ : ∃ k', k' = k.setWindow 0 0 RAM_X_PIXELS RAM_Y_LINES := ⟨_, rfl⟩
  have hwindow : k'.window = full := hk' ▸ k.window_setWindow 0 0 RAM_X_PIXELS RAM_Y_LINES
  have hcursor : k'.cursor = (full.top, full.left) :=
    hk' ▸ k.cursor_setWindow 0 0 RAM_X_PIXELS RAM_Y_LINES
  have hscreen : k'.screen = k.screen := hk' ▸ k.screen_setWindow 0 0 RAM_X_PIXELS RAM_Y_LINES
  have hfits : bs.length ≤ full.width * full.height := by
    rw [h]
    decide
  rw [loadPlane, load, ← hk', feed_bw rfl, screen_onCommand (by decide), hscreen]
  have hputs : (bs.foldl full.put ((full.top, full.left), k.screen.bw)).2 =
      full.paint bs k.screen.bw := (Raster.foldl_put bs k.screen.bw hfits).1
  rw [← hputs, ← hcursor, ← hwindow]
  rfl

theorem screen_loadPlane_red (k : Controller) {bs : List UInt8} (h : bs.length = PLANE_BYTES) :
    (k.loadPlane cmd.WRITE_RAM_RED bs).screen =
      { k.screen with red := full.paint bs k.screen.red } := by
  obtain ⟨k', hk'⟩ : ∃ k', k' = k.setWindow 0 0 RAM_X_PIXELS RAM_Y_LINES := ⟨_, rfl⟩
  have hwindow : k'.window = full := hk' ▸ k.window_setWindow 0 0 RAM_X_PIXELS RAM_Y_LINES
  have hcursor : k'.cursor = (full.top, full.left) :=
    hk' ▸ k.cursor_setWindow 0 0 RAM_X_PIXELS RAM_Y_LINES
  have hscreen : k'.screen = k.screen := hk' ▸ k.screen_setWindow 0 0 RAM_X_PIXELS RAM_Y_LINES
  have hfits : bs.length ≤ full.width * full.height := by
    rw [h]
    decide
  rw [loadPlane, load, ← hk', feed_red rfl, screen_onCommand (by decide), hscreen]
  have hputs : (bs.foldl full.put ((full.top, full.left), k.screen.red)).2 =
      full.paint bs k.screen.red := (Raster.foldl_put bs k.screen.red hfits).1
  rw [← hputs, ← hcursor, ← hwindow]
  rfl

/-- A waveform table sent with its voltages. -/
def sendLut (k : Controller) (table : Block lut.LUT_LEN) : Controller :=
  (((k.send cmd.WRITE_LUT (table.read 0 105)).send cmd.GATE_VOLTAGE (table.read 105 1)).send
    cmd.SOURCE_VOLTAGE (table.read 106 3)).send cmd.WRITE_VCOM (table.read 109 1)

theorem screen_sendLut (k : Controller) (table : Block lut.LUT_LEN) :
    (k.sendLut table).screen = k.screen := by
  simp only [sendLut]
  rw [screen_send (by decide), screen_send (by decide), screen_send (by decide),
    screen_send (by decide)]

theorem table_sendLut (k : Controller) (table : Block lut.LUT_LEN) :
    (k.sendLut table).table = table.bytes := by
  have hparams : (k.sendLut table).table =
      table.read 0 105 ++ table.read 105 1 ++ table.read 106 3 ++ table.read 109 1 := by
    simp only [Controller.table, sendLut]
    rw [params_send (by decide), params_send (by decide), params_send (by decide),
      params_send (by decide)]
    rfl
  have hsize := table.size
  rw [hparams]
  simp only [Block.read, List.drop_zero]
  rw [← List.take_add, ← List.take_add, ← List.take_add]
  exact List.take_of_length_le (by rw [hsize]; exact Nat.le_refl _)

end Controller

namespace Ssd1677

variable {B : Type} [Wire B]

theorem steady_setWindow (x y w h : UInt16) :
    Steady (setWindow x y w h : Driver (Wired B) Unit) (·.setWindow x y w h) :=
  (steady_commandData (by decide) _).bind <| (steady_commandData (by decide) _).bind <|
    (steady_commandData (by decide) _).bind <| (steady_commandData (by decide) _).bind <|
      steady_commandData (by decide) _

theorem steady_sendLut (table : Block lut.LUT_LEN) :
    Steady (sendLut table : Driver (Wired B) Unit) (·.sendLut table) :=
  (steady_commandData (by decide) _).bind <| (steady_commandData (by decide) _).bind <|
    (steady_commandData (by decide) _).bind <| steady_commandData (by decide) _

/-- What a plane is sent as. -/
def sentAs (plane : Plane) (invert : Bool) : List UInt8 :=
  if invert then plane.bytes.map (~~~·) else plane.bytes

theorem length_sentAs (plane : Plane) (invert : Bool) :
    (sentAs plane invert).length = PLANE_BYTES := by
  cases invert
  · exact plane.size
  · exact (List.length_map ..).trans plane.size

theorem steady_writePlane {c : UInt8} (h : Controller.Quiet c) (plane : Plane) (invert : Bool) :
    Steady (writePlane c plane invert : Driver (Wired B) Unit)
      (·.loadPlane c (sentAs plane invert)) := by
  have hwindow := steady_setWindow (B := B) 0 0 RAM_X_PIXELS RAM_Y_LINES
  cases invert with
  | false => exact hwindow.bind ((steady_command h).bind (steady_data plane.bytes))
  | true =>
    have hrows : (List.range WIDTH).flatMap
        (fun y => (plane.read (y * ROW_BYTES) ROW_BYTES).map (~~~·)) = sentAs plane true := by
      rw [← List.map_flatMap, Plane.flatMap_rows]
      rfl
    have hgives : ∀ y, Gives (Pure.pure ((plane.read (y * ROW_BYTES) ROW_BYTES).map (~~~·)) :
        Driver (Wired B) (List UInt8)) ((plane.read (y * ROW_BYTES) ROW_BYTES).map (~~~·)) :=
      fun y => .inl rfl
    rw [← hrows]
    exact hwindow.bind ((steady_command h).bind (steady_stream (List.range WIDTH) hgives))

theorem gives_rectRow (plane : Plane) (first bytes y : Nat) (invert : Bool) :
    Gives (rectRow plane first bytes y invert : Driver (Wired B) (List UInt8))
      (if invert then (plane.read (y * ROW_BYTES + first) bytes).map (~~~·)
        else plane.read (y * ROW_BYTES + first) bytes) := by
  by_cases h : PLANE_BYTES < y * ROW_BYTES + first + bytes ∨ invert = true ∧ ROW_BYTES < bytes
  · exact .inr ⟨_, if_pos h⟩
  · refine .inl ((if_neg h).trans ?_)
    cases invert <;> rfl

theorem steady_writePlaneRect {c : UInt8} (hc : Controller.Quiet c) (plane : Plane)
    (x0 y0 w h : UInt16) (invert : Bool) :
    ∃ F, Steady (writePlaneRect c plane x0 y0 w h invert : Driver (Wired B) Unit) F :=
  ⟨_, (steady_setWindow ..).bind <| (steady_command hc).bind <|
    steady_stream _ fun y => gives_rectRow plane _ _ y invert⟩

/-! ## Activation -/

/-- The control byte with the supplies switched on if they are off. -/
def powered (f : Ssd1677 Unit) (c2 : UInt8) : UInt8 :=
  if !f.screenOn then c2 ||| (ctrl2.ENABLE_CLOCK ||| ctrl2.ENABLE_ANALOG) else c2

/-- The supplies leave the other bits alone. -/
theorem powered_and (f : Ssd1677 Unit) (c2 : UInt8) {m : UInt8}
    (h : (ctrl2.ENABLE_CLOCK ||| ctrl2.ENABLE_ANALOG) &&& m = 0) :
    f.powered c2 &&& m = c2 &&& m := by
  unfold powered
  split
  · have hdistrib : (c2 ||| (ctrl2.ENABLE_CLOCK ||| ctrl2.ENABLE_ANALOG)) &&& m =
        (c2 &&& m) ||| ((ctrl2.ENABLE_CLOCK ||| ctrl2.ENABLE_ANALOG) &&& m) :=
      UInt8.toNat_inj.mp (by simp only [UInt8.toNat_and, UInt8.toNat_or, Nat.and_or_distrib_right])
    rw [hdistrib, h, UInt8.or_zero]
  · rfl

/-- The driver's bookkeeping after an activation. -/
def activated (f : Ssd1677 Unit) (c2 : UInt8) : Ssd1677 Unit :=
  let f :=
    { f with screenOn := !decide (c2 &&& (ctrl2.DISABLE_ANALOG ||| ctrl2.DISABLE_CLOCK) ≠ 0) }
  if c2 &&& ctrl2.MODE2 ≠ 0 then
    { f with faceOdd := if f.faceKnown then !f.faceOdd else f.faceOdd }
  else { f with faceOdd := false, faceKnown := true }

end Ssd1677

namespace Controller

/-- The controller activated with a control byte. -/
def strobe (k : Controller) (c2 : UInt8) : Controller :=
  (k.send cmd.UPDATE_CTRL2 [c2]).onCommand cmd.MASTER_ACTIVATION

theorem params_send_ctrl2 (k : Controller) (c2 : UInt8) :
    (k.send cmd.UPDATE_CTRL2 [c2]).updateCtrl2 = c2 ∧
      (k.send cmd.UPDATE_CTRL2 [c2]).table = k.table := by
  have hparams := params_send (c := cmd.UPDATE_CTRL2) (by decide) k [c2]
  rw [updateCtrl2, table, hparams]
  exact ⟨rfl, rfl⟩

theorem screen_strobe (k : Controller) (c2 : UInt8) :
    (k.strobe c2).screen =
      k.screen.activate c2 (if c2 &&& ctrl2.LOAD_LUT ≠ 0 then none else some k.table) := by
  obtain ⟨hc2, htable⟩ := k.params_send_ctrl2 c2
  have hscreen := screen_send (c := cmd.UPDATE_CTRL2) (by decide) k [c2]
  obtain ⟨k', hk'⟩ : ∃ k', k' = k.send cmd.UPDATE_CTRL2 [c2] := ⟨_, rfl⟩
  rw [← hk'] at hc2 htable hscreen
  rw [strobe, ← hk', ← hc2, ← htable, ← hscreen]
  rfl

theorem phase_strobe (k : Controller) (c2 : UInt8) :
    (k.strobe c2).phase =
      if c2 &&& ctrl2.MODE2 ≠ 0 then .updating true
      else if c2 &&& ctrl2.DISPLAY ≠ 0 then .updating false
      else k.phase := by
  obtain ⟨hc2, -⟩ := k.params_send_ctrl2 c2
  have hphase : (k.send cmd.UPDATE_CTRL2 [c2]).phase = k.phase := by
    rw [send, phase_feed, phase_onCommand (by decide)]
  obtain ⟨k', hk'⟩ : ∃ k', k' = k.send cmd.UPDATE_CTRL2 [c2] := ⟨_, rfl⟩
  rw [← hk'] at hc2 hphase
  rw [strobe, ← hk', ← hc2, ← hphase]
  rfl

/-- The controller activated with its two control bytes. -/
def activated (k : Controller) (c1 c2 : UInt8) : Controller :=
  (k.send cmd.UPDATE_CTRL1 [c1]).strobe c2

theorem screen_activated (k : Controller) (c1 c2 : UInt8) :
    (k.activated c1 c2).screen =
      k.screen.activate c2 (if c2 &&& ctrl2.LOAD_LUT ≠ 0 then none else some k.table) := by
  have hparams := params_send (c := cmd.UPDATE_CTRL1) (by decide) k [c1]
  have htable : (k.send cmd.UPDATE_CTRL1 [c1]).table = k.table := by
    rw [table, hparams]
    rfl
  rw [activated, screen_strobe, screen_send (by decide), htable]

theorem phase_activated (k : Controller) (c1 c2 : UInt8) :
    (k.activated c1 c2).phase =
      if c2 &&& ctrl2.MODE2 ≠ 0 then .updating true
      else if c2 &&& ctrl2.DISPLAY ≠ 0 then .updating false
      else k.phase := by
  rw [activated, phase_strobe, send, phase_feed, phase_onCommand (by decide)]

end Controller

namespace Ssd1677

variable {B : Type} [Wire B] {f : Ssd1677 Unit} {k : Controller}

/-- An activation that fails may have reached the controller. -/
theorem triple_activate (c1 c2 : UInt8) (t : Nat) :
    Triple (At f k) (activate c1 c2 t : Driver (Wired B) Unit)
      (fun _ => At (f.activated (f.powered c2)) (k.activated c1 (f.powered c2)).onIdle)
      (fun d => Still f k d ∨ At f (k.activated c1 (f.powered c2)) d) := by
  have hctrl1 := steady_commandData (B := B) (c := cmd.UPDATE_CTRL1) (by decide) [c1]
  have hctrl2 := steady_commandData (B := B) (c := cmd.UPDATE_CTRL2) (by decide) [f.powered c2]
  refine ((hctrl1.triple f k).conseq (fun _ => id) (fun _ _ => id) fun _ => .inl).bind fun _ => ?_
  refine (Triple.get (Q := fun d d' => d.screenOn = f.screenOn ∧
    At f (k.send cmd.UPDATE_CTRL1 [c1]) d') fun d hd => ⟨?_, hd⟩).bind fun d =>
      Triple.imp fun hd => ?_
  · exact congrArg Ssd1677.screenOn hd.1
  rw [hd]
  refine ((hctrl2.triple f _).conseq (fun _ => id) (fun _ _ => id)
    fun d hd => .inl (hctrl1.still hd)).bind fun _ => ?_
  have hsteady := hctrl1.bind hctrl2
  refine (triple_command.conseq (fun _ => id) (fun _ _ => id) ?_).bind fun _ => ?_
  · rintro d (hd | hd)
    · exact .inl (hsteady.still hd.still)
    · exact .inr hd
  refine ((triple_waitBusy t).conseq (fun _ => id) (fun _ _ => id) fun d hd => .inr hd).bind
    fun _ => ?_
  -- the bookkeeping
  let on := !decide (f.powered c2 &&& (ctrl2.DISABLE_ANALOG ||| ctrl2.DISABLE_CLOCK) ≠ 0)
  refine (Triple.modify (Q := fun _ => At { f with screenOn := on }
    (k.activated c1 (f.powered c2)).onIdle) fun d hd => ⟨?_, hd.2⟩).bind fun _ =>
      Triple.ite (fun hmode => ?_) fun hmode => ?_
  · exact congrArg (fun f : Ssd1677 Unit => { f with screenOn := on }) hd.1
  · refine Triple.modify fun d hd => ⟨?_, hd.2⟩
    have hflags : f.activated (f.powered c2) =
        { f with screenOn := on, faceOdd := if f.faceKnown then !f.faceOdd else f.faceOdd } :=
      if_pos hmode
    have hd' : d.flags = { f with screenOn := on } := hd.1
    rw [hflags]
    simp only [flags, Ssd1677.mk.injEq] at hd' ⊢
    simp only [hd'.2.1, hd'.2.2.1, hd'.2.2.2, and_true]
  · refine Triple.modify fun d hd => ⟨?_, hd.2⟩
    have hflags : f.activated (f.powered c2) =
        { f with screenOn := on, faceOdd := false, faceKnown := true } := if_neg hmode
    have hd' : d.flags = { f with screenOn := on } := hd.1
    rw [hflags]
    simp only [flags, Ssd1677.mk.injEq] at hd' ⊢
    exact ⟨trivial, hd'.2.1, trivial, trivial⟩

end Ssd1677

end PaperNamePlate.Epd
