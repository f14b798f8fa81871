import Mathlib.Data.List.Induction
import PaperNamePlate.Lib.Run
import PaperNamePlate.Lib.Triple
import PaperNamePlate.Nfc.PageStore
import PaperNamePlate.Nfc.Polling

/-!
# A halted tag stays silent

After HLTA the emulator hands no frame to the command handler until it has been
woken: an update in `halt` saw the end of the anticollision, and a later one in
`ready` the wake-up of a halted tag. Only `gotoOff` ends this, with the field. A tag
that was woken like this goes back to `halt` on errors.
-/
namespace PaperNamePlate

open Embedded

namespace Target

variable {I : Type} [I2c I]

open St25r3916

/-! ## Handing over to `gotoOff` -/

/-- From `t` on the program is `gotoOff`, or it ends with an emulator in `R`. -/
def StaysOr (R : T2tEmulator → Prop) (p : Nat → Emu I Unit) (t : Target I) : Prop :=
  (∃ t', ∀ depth, p depth t = gotoOff depth t') ∨ ∀ depth, R (p depth t).2.emu

variable {R : T2tEmulator → Prop} {t : Target I}

theorem StaysOr.mono {R' : T2tEmulator → Prop} {p : Nat → Emu I Unit} (h : StaysOr R p t)
    (hR : ∀ e, R e → R' e) : StaysOr R' p t :=
  h.imp_right fun h depth => hR _ (h depth)

theorem stays_gotoOff : StaysOr R (fun depth => gotoOff depth) t := .inl ⟨t, fun _ => rfl⟩

theorem stays_pure (h : R t.emu) : StaysOr R (fun _ => pure ()) t := .inr fun _ => h

theorem stays_setEmu {g : T2tEmulator → T2tEmulator} (h : R (g t.emu)) :
    StaysOr R (fun _ => setEmu g) t := .inr fun _ => h

theorem stays_getEmu_bind {f : T2tEmulator → Nat → Emu I Unit} (hf : StaysOr R (f t.emu) t) :
    StaysOr R (fun depth => getEmu >>= fun e => f e depth) t := hf

theorem stays_setEmu_bind {g : T2tEmulator → T2tEmulator} {f : Nat → Emu I Unit}
    (hf : StaysOr R f { t with emu := g t.emu }) :
    StaysOr R (fun depth => setEmu g >>= fun _ => f depth) t := hf

theorem stays_chip {α : Type} {p : Access I α} {f : α → Nat → Emu I Unit} (h : R t.emu)
    (hf : ∀ a nfc, StaysOr R (f a) { t with nfc }) :
    StaysOr R (fun depth => chip p >>= fun a => f a depth) t := by
  rcases hp : p t.nfc with ⟨e | a, nfc⟩
  · refine .inr fun depth => ?_
    dsimp only
    rwa [chip_bind_error hp]
  · rcases hf a nfc with ⟨t', ht⟩ | hr
    · exact .inl ⟨t', fun depth => (chip_bind_ok hp _).trans (ht depth)⟩
    · refine .inr fun depth => ?_
      dsimp only
      rw [chip_bind_ok hp]
      exact hr depth

theorem stays_bind {α : Type} {p : Emu I α} {f : α → Nat → Emu I Unit} (h : R (p t).2.emu)
    (hf : ∀ a t', p t = (.ok a, t') → StaysOr R (f a) t') :
    StaysOr R (fun depth => p >>= fun a => f a depth) t := by
  rcases hp : p t with ⟨e | a, t'⟩
  · rw [hp] at h
    refine .inr fun depth => ?_
    dsimp only
    rwa [Prog.bind_eq, hp]
  · have hrun : ∀ depth, (p >>= fun a => f a depth) t = f a depth t' := by
      intro depth
      rw [Prog.bind_eq, hp]
    rcases hf a t' hp with ⟨t'', ht⟩ | hr
    · exact .inl ⟨t'', fun depth => (hrun depth).trans (ht depth)⟩
    · refine .inr fun depth => ?_
      dsimp only
      rw [hrun]
      exact hr depth

theorem stays_ite {c : Prop} [Decidable c] {p q : Nat → Emu I Unit} (hp : c → StaysOr R p t)
    (hq : ¬ c → StaysOr R q t) : StaysOr R (fun depth => if c then p depth else q depth) t := by
  by_cases hc : c
  · simpa only [if_pos hc] using hp hc
  · simpa only [if_neg hc] using hq hc

theorem stays_gotoHalt (h : R t.emu) (hhalt : R { t.emu with state := .halt }) :
    StaysOr R (fun depth => gotoHalt depth) t := by
  unfold gotoHalt fieldPresent
  simp only [bind_assoc, pure_bind]
  refine stays_chip h fun _ _ => ?_
  refine stays_chip h fun _ _ => ?_
  refine stays_chip h fun _ _ => ?_
  refine stays_chip h fun _ _ => ?_
  refine stays_chip h fun _ _ => ?_
  refine stays_chip h fun _ _ => ?_
  exact stays_ite (fun _ => stays_setEmu hhalt) fun _ => stays_gotoOff

theorem stays_gotoReady (h : R t.emu) (hready : R { t.emu with state := .ready }) :
    StaysOr R (fun depth => gotoReady depth) t := by
  unfold gotoReady
  refine stays_chip h fun _ _ => stays_ite (fun _ => stays_gotoOff) fun _ => ?_
  refine stays_chip h fun _ _ => ?_
  refine stays_chip h fun _ _ => ?_
  refine stays_chip h fun _ _ => ?_
  refine stays_chip h fun _ _ => ?_
  exact stays_setEmu hready

theorem keepsMode_handleCommand (rx : List UInt8) :
    Prog.Keeps SameMode (handleCommand rx : Emu I CmdResult) := by
  have hnak : Prog.Keeps SameMode (nak : Emu I CmdResult) :=
    (keepsMode_chip _).bind fun _ => Prog.Keeps.pure _
  have hrespond : ∀ a, Prog.Keeps SameMode (respond a : Emu I CmdResult) := by
    intro a
    cases a with
    | data bytes => exact (keepsMode_chip _).bind fun _ => Prog.Keeps.pure _
    | ack => exact (keepsMode_chip _).bind fun _ => Prog.Keeps.pure _
    | silent => exact Prog.Keeps.pure _
  cases rx with
  | nil => exact hnak
  | cons op args =>
  intro t
  by_cases h : ∃ r : Request, op :: args = r.frame
  · obtain ⟨r, hr⟩ := h
    rw [hr, handleCommand_request]
    have hafter : SameMode t { t with emu := afterRequest t.emu r } := by
      cases r with
      | write p data two_le =>
        simp only [afterRequest, storePage]
        split <;> exact ⟨rfl, rfl⟩
      | _ => exact ⟨rfl, rfl⟩
    exact IsTrans.trans t _ _ hafter (hrespond _ _)
  · rw [handleCommand_refused fun r hr => h ⟨r, hr⟩]
    exact hnak t

/-! ## One poll -/

theorem stays_react_halt {s : Sight} (hs : s.fits .halt) (h : t.emu.state = .halt) :
    StaysOr (fun e => e.state = .halt ∨
        e.state = .ready ∧ e.wakeup = true ∧ ∃ v, s = .pta v ∧ v &&& 0x0F > 0x09)
      (fun depth => react depth s) t := by
  cases s with
  | nothing => exact stays_pure (.inl h)
  | field => cases hs
  | lost => exact stays_gotoOff
  | stray => exact .inr fun _ => .inl ((keepsMode_discard t).1.trans h)
  | pta v =>
    change StaysOr _ (fun depth => approach depth v) t
    unfold approach Prog.when
    refine stays_getEmu_bind ?_
    rw [if_pos h]
    refine stays_ite (fun hv => stays_setEmu_bind ?_) fun _ => stays_pure (.inl h)
    exact stays_gotoReady (.inl h) (.inr ⟨rfl, by simp [h], v, rfl, hv⟩)
  | wake => cases hs
  | bad bytes => cases hs
  | frame rx => cases hs

theorem stays_react_ready {s : Sight} (hs : s.fits .ready) (h : t.emu.state = .ready)
    (hw : t.emu.wakeup = true) :
    StaysOr (fun e => e.wakeup = true ∧ (e.state = .ready ∨ e.state = .active ∧ s = .wake))
      (fun depth => react depth s) t := by
  cases s with
  | nothing => exact stays_pure ⟨hw, .inl h⟩
  | field => cases hs
  | lost => exact stays_gotoOff
  | stray => simp [Sight.fits] at hs
  | pta v => simp [Sight.fits] at hs
  | wake =>
    refine stays_chip ⟨hw, .inl h⟩ fun _ _ => stays_chip ⟨hw, .inl h⟩ fun _ _ => ?_
    exact stays_setEmu ⟨hw, .inr ⟨rfl, rfl⟩⟩
  | bad bytes => cases hs
  | frame rx => cases hs

/-- A tag that was woken goes back to `halt`. -/
theorem stays_backToListening (h : R t.emu) (hw : t.emu.wakeup = true)
    (hhalt : R { t.emu with state := .halt }) :
    StaysOr R (fun depth => backToListening depth) t := by
  refine stays_getEmu_bind (f := fun e depth => if e.wakeup then gotoHalt depth
    else gotoIdle depth) ?_
  exact stays_ite (fun _ => stays_gotoHalt h hhalt) fun hnot => absurd hw hnot

theorem stays_react_active {s : Sight} (hs : s.fits .active) (h : t.emu.state = .active)
    (hw : t.emu.wakeup = true) :
    StaysOr (fun e => e.state = .halt ∨ e.state = .active ∧ e.wakeup = true)
      (fun depth => react depth s) t := by
  cases s with
  | nothing => exact stays_pure (.inr ⟨h, hw⟩)
  | field => cases hs
  | lost => exact stays_gotoOff
  | stray => simp [Sight.fits] at hs
  | pta v => simp [Sight.fits] at hs
  | wake => cases hs
  | bad bytes =>
    refine stays_chip (.inr ⟨h, hw⟩) fun _ _ => stays_chip (.inr ⟨h, hw⟩) fun _ _ =>
      stays_chip (.inr ⟨h, hw⟩) fun _ _ => ?_
    exact stays_backToListening (.inr ⟨h, hw⟩) hw (.inl rfl)
  | frame rx =>
    refine stays_setEmu_bind (stays_bind ?_ fun result t' ht => ?_)
    · have hmode := keepsMode_handleCommand (I := I) rx
        { t with emu := { t.emu with commands := t.emu.commands + 1, lastCmd := rx.headD 0 } }
      exact .inr ⟨hmode.1.trans h, hmode.2.trans hw⟩
    · have hmode := keepsMode_handleCommand (I := I) rx
        { t with emu := { t.emu with commands := t.emu.commands + 1, lastCmd := rx.headD 0 } }
      rw [ht] at hmode
      have h' : t'.emu.state = .active := hmode.1.trans h
      have hw' : t'.emu.wakeup = true := hmode.2.trans hw
      cases result with
      | stay => exact stays_pure (.inr ⟨h', hw'⟩)
      | halt => exact stays_gotoHalt (.inr ⟨h', hw'⟩) (.inl rfl)
      | drop => exact stays_backToListening (.inr ⟨h', hw'⟩) hw' (.inl rfl)

/-- The update is a `gotoOff` from some point on. -/
def EntersOff (t : Target I) : Prop := ∃ t', ∀ depth, drive depth t = gotoOff depth t'

/-- What holds whatever a poll does about what it sees. -/
theorem drive_stays (herror : ∀ t', SameMode t t' → R t'.emu)
    (hok : ∀ s t', look t = (.ok s, t') → StaysOr R (fun depth => react depth s) t') :
    EntersOff t ∨ ∀ depth, R (drive depth t).2.emu := by
  have hstays : StaysOr R (fun depth => look >>= react depth) t :=
    stays_bind (herror _ (keepsMode_look t)) hok
  simpa only [StaysOr, EntersOff, drive_eq] using hstays

/-! ## Runs -/

/-- The chip as the next update finds it, with anything in its registers. -/
def on (t : Target I) (i : I) : Target I := { t with nfc := { t.nfc with i2c := i } }

def poll (depth : Nat) (t : Target I) (i : I) : Target I := (update depth (t.on i)).2

theorem poll_mode (depth : Nat) (t : Target I) (i : I) :
    SameMode (drive depth (t.on i)).2 (poll depth t i) := by
  rw [poll, update_eq]
  rcases drive depth (t.on i) with ⟨_ | ⟨⟩, t'⟩
  · exact ⟨rfl, rfl⟩
  · dsimp only
    split_ifs <;> exact ⟨rfl, rfl⟩

/-- The state in which the update after the updates `js` starts. -/
def before (depth : Nat) (t : Target I) (js : List I) (i : I) : Target I :=
  (run (poll depth) t js).on i

/-- An update in `halt` that sees RXE_PTA at 106 kbit/s and a PT state above 9. -/
def SeesPta (t : Target I) : Prop :=
  t.emu.state = .halt ∧ ∃ v t', look t = (.ok (.pta v), t') ∧ v &&& 0x0F > 0x09

/-- An update in `ready` that sees WU_AX. -/
def SeesWake (t : Target I) : Prop :=
  t.emu.state = .ready ∧ t.emu.wakeup = true ∧ ∃ t', look t = (.ok .wake, t')

/-- An update of the run saw RXE_PTA in `halt`. -/
def Approached (depth : Nat) (t : Target I) (js : List I) : Prop :=
  ∃ ks k, ks ++ [k] <+: js ∧ SeesPta (before depth t ks k)

/-- And a later one saw WU_AX in `ready`. -/
def Woken (depth : Nat) (t : Target I) (js : List I) : Prop :=
  ∃ ks k, ks ++ [k] <+: js ∧ SeesWake (before depth t ks k) ∧ Approached depth t ks

/-- How far the tag has come after the updates `js`. -/
inductive Stage (depth : Nat) (t : Target I) (js : List I) (e : T2tEmulator) : Prop
  | halt (state : e.state = .halt)
  | ready (state : e.state = .ready) (wakeup : e.wakeup = true) (h : Approached depth t js)
  | active (state : e.state = .active) (wakeup : e.wakeup = true) (h : Woken depth t js)

theorem Approached.mono {depth : Nat} {t : Target I} {js ks : List I} (h : Approached depth t js)
    (hpre : js <+: ks) : Approached depth t ks := by
  obtain ⟨ls, l, hls, hsees⟩ := h
  exact ⟨ls, l, hls.trans hpre, hsees⟩

theorem Woken.mono {depth : Nat} {t : Target I} {js ks : List I} (h : Woken depth t js)
    (hpre : js <+: ks) : Woken depth t ks := by
  obtain ⟨ls, l, hls, hsees, happ⟩ := h
  exact ⟨ls, l, hls.trans hpre, hsees, happ⟩

/-- A step of the run, as long as it does not enter `gotoOff`. -/
theorem Stage.step {depth : Nat} {t : Target I} {js : List I}
    (h : Stage depth t js (run (poll depth) t js).emu) (i : I)
    (hoff : ¬ EntersOff (before depth t js i)) :
    Stage depth t (js ++ [i]) (run (poll depth) t (js ++ [i])).emu := by
  have hpre : js <+: js ++ [i] := List.prefix_append js [i]
  have hmode := poll_mode depth (run (poll depth) t js) i
  have hrun : run (poll depth) t (js ++ [i]) = poll depth (run (poll depth) t js) i := by
    rw [run_append]
    rfl
  rw [hrun]
  change SameMode (drive depth (before depth t js i)).2 _ at hmode
  cases h with
  | halt state =>
    have hdrive := drive_stays (t := before depth t js i)
      (R := fun e => e.state = .halt ∨
        e.state = .ready ∧ e.wakeup = true ∧ SeesPta (before depth t js i))
      (fun t' h => .inl (h.1.trans state)) fun s t' hlook => by
        have hfits := look_fits hlook
        have hstate : t'.emu.state = .halt := (look_mode hlook).1.trans state
        rw [show (before depth t js i).emu.state = .halt from state] at hfits
        refine (stays_react_halt hfits hstate).mono fun e he => he.imp_right ?_
        rintro ⟨hs, hw, v, rfl, hv⟩
        exact ⟨hs, hw, state, v, t', hlook, hv⟩
    rcases hdrive.resolve_left hoff depth with hs | ⟨hs, hw, hsees⟩
    · exact .halt (hmode.1.trans hs)
    · exact .ready (hmode.1.trans hs) (hmode.2.trans hw) ⟨js, i, List.prefix_rfl, hsees⟩
  | ready state wakeup happ =>
    have hdrive := drive_stays (t := before depth t js i)
      (R := fun e => e.wakeup = true ∧ (e.state = .ready ∨
        e.state = .active ∧ SeesWake (before depth t js i)))
      (fun t' h => ⟨h.2.trans wakeup, .inl (h.1.trans state)⟩) fun s t' hlook => by
        have hfits := look_fits hlook
        have hstate : t'.emu.state = .ready := (look_mode hlook).1.trans state
        rw [show (before depth t js i).emu.state = .ready from state] at hfits
        refine (stays_react_ready hfits hstate ((look_mode hlook).2.trans wakeup)).mono fun e he =>
          he.imp_right fun he => he.imp_right ?_
        rintro ⟨hs, rfl⟩
        exact ⟨hs, state, wakeup, t', hlook⟩
    obtain ⟨hw, hs | ⟨hs, hsees⟩⟩ := hdrive.resolve_left hoff depth
    · exact .ready (hmode.1.trans hs) (hmode.2.trans hw) (happ.mono hpre)
    · exact .active (hmode.1.trans hs) (hmode.2.trans hw) ⟨js, i, List.prefix_rfl, hsees, happ⟩
  | active state wakeup hwoken =>
    have hdrive := drive_stays (t := before depth t js i)
      (R := fun e => e.state = .halt ∨ e.state = .active ∧ e.wakeup = true)
      (fun t' h => .inr ⟨h.1.trans state, h.2.trans wakeup⟩) fun s t' hlook => by
        have hfits := look_fits hlook
        rw [show (before depth t js i).emu.state = .active from state] at hfits
        exact stays_react_active hfits ((look_mode hlook).1.trans state)
          ((look_mode hlook).2.trans wakeup)
    rcases hdrive.resolve_left hoff depth with hs | ⟨hs, hw⟩
    · exact .halt (hmode.1.trans hs)
    · exact .active (hmode.1.trans hs) (hmode.2.trans hw) (hwoken.mono hpre)

theorem stage_of_halt {depth : Nat} {t : Target I} (h : t.emu.state = .halt) (js : List I)
    (hoff : ∀ ks k, ks ++ [k] <+: js → ¬ EntersOff (before depth t ks k)) :
    Stage depth t js (run (poll depth) t js).emu := by
  induction js using List.reverseRecOn with
  | nil => exact .halt h
  | append_singleton js i ih =>
    have hstage := ih fun ks k hks => hoff ks k (hks.trans (List.prefix_append js [i]))
    exact hstage.step i (hoff js i List.prefix_rfl)

/-! ## Errors after the wake-up -/

/-- An update in `active` that sees an error frame or a command that is refused. -/
def SeesError (t : Target I) : Prop :=
  ∃ s t', look t = (.ok s, t') ∧
    ((∃ bytes, s = .bad bytes) ∨ ∃ rx, s = .frame rx ∧ ∀ r : Request, rx ≠ r.frame)

/-- The update finds the field gone, and the rest of it is `gotoOff`. -/
def LosesField (t : Target I) : Prop :=
  ∃ t₁ t₂, fieldPresent t₁ = (.ok false, t₂) ∧ ∀ depth, drive depth t = gotoOff depth t₂

/-- The program ends in `halt`, if it ends well, or in `gotoOff` because the field is gone. -/
def HaltsOr (p : Nat → Emu I Unit) (t : Target I) : Prop :=
  (∃ t₁ t₂, fieldPresent t₁ = (.ok false, t₂) ∧ ∀ depth, p depth t = gotoOff depth t₂) ∨
    ∀ depth t', p depth t = (.ok (), t') → t'.emu.state = .halt

theorem halts_chip {α : Type} {p : Access I α} {f : α → Nat → Emu I Unit}
    (hf : ∀ a nfc, HaltsOr (f a) { t with nfc }) :
    HaltsOr (fun depth => chip p >>= fun a => f a depth) t := by
  rcases hp : p t.nfc with ⟨e | a, nfc⟩
  · refine .inr fun depth t' ht => ?_
    dsimp only at ht
    rw [chip_bind_error hp] at ht
    cases ht
  · have hrun : ∀ depth, (chip p >>= fun a => f a depth) t = f a depth { t with nfc } :=
      fun depth => chip_bind_ok hp _
    simpa only [HaltsOr, hrun] using hf a nfc

theorem halts_gotoHalt : HaltsOr (fun depth => gotoHalt depth) t := by
  unfold gotoHalt
  iterate 5 refine halts_chip fun _ _ => ?_
  rename_i nfc
  rcases hp : fieldPresent { t with nfc } with ⟨e | present, t₂⟩
  · refine .inr fun depth t' ht => ?_
    dsimp only at ht
    rw [Prog.bind_eq, hp] at ht
    cases ht
  · cases present with
    | true =>
      refine .inr fun depth t' ht => ?_
      dsimp only at ht
      rw [Prog.bind_eq, hp] at ht
      cases ht
      rfl
    | false =>
      refine .inl ⟨_, t₂, hp, fun depth => ?_⟩
      dsimp only
      rw [Prog.bind_eq, hp]
      rfl

theorem halts_backToListening (hw : t.emu.wakeup = true) :
    HaltsOr (fun depth => backToListening depth) t := by
  have hrun : ∀ depth, backToListening depth t = gotoHalt depth t := by
    intro depth
    rw [backToListening, getEmu_bind_eq, if_pos hw]
  simpa only [HaltsOr, hrun] using halts_gotoHalt (t := t)

theorem halts_react {s : Sight} (hw : t.emu.wakeup = true)
    (hs : (∃ bytes, s = .bad bytes) ∨ ∃ rx, s = .frame rx ∧ ∀ r : Request, rx ≠ r.frame) :
    HaltsOr (fun depth => react depth s) t := by
  rcases hs with ⟨bytes, rfl⟩ | ⟨rx, rfl, hrx⟩
  · refine halts_chip fun _ _ => halts_chip fun _ _ => halts_chip fun _ _ => ?_
    exact halts_backToListening hw
  · have hnak : (handleCommand rx : Emu I CmdResult) = nak := by
      cases rx with
      | nil => rfl
      | cons op args => exact handleCommand_refused hrx
    change HaltsOr (fun depth => serve depth rx) t
    unfold serve
    rw [hnak]
    simp only [nak, bind_assoc, pure_bind]
    change HaltsOr (fun depth => chip (targetTransmit [NAK] 4) >>= fun _ => backToListening depth)
      { t with emu := { t.emu with commands := t.emu.commands + 1, lastCmd := rx.headD 0 } }
    exact halts_chip fun _ _ => halts_backToListening hw

/-- `gotoOff` ends in `off` or, if there is a field again, in `idle`. -/
theorem triple_goto (depth : Nat) :
    Prog.Triple (fun _ => True) (gotoOff depth : Emu I Unit)
        (fun _ t => t.emu.state = .off ∨ t.emu.state = .idle) (fun _ => True) ∧
      Prog.Triple (fun _ => True) (gotoIdle depth : Emu I Unit)
        (fun _ t => t.emu.state = .off ∨ t.emu.state = .idle) (fun _ => True) := by
  induction depth with
  | zero => exact ⟨.throw _ fun _ _ => trivial, .throw _ fun _ _ => trivial⟩
  | succ depth ih =>
    constructor
    · unfold gotoOff
      iterate 10 refine .after fun _ => ?_
      refine .ite (fun _ => ih.2) fun _ => ?_
      iterate 2 refine .after fun _ => ?_
      exact .modify fun _ _ => .inl rfl
    · unfold gotoIdle
      iterate 2 refine .after fun _ => ?_
      refine .ite (fun _ => ih.1) fun _ => ?_
      iterate 5 refine .after fun _ => ?_
      exact .modify fun _ _ => .inr rfl

theorem Stage.of_active {depth : Nat} {js : List I} {e : T2tEmulator} (h : Stage depth t js e)
    (he : e.state = .active) : e.wakeup = true ∧ Woken depth t js := by
  cases h with
  | halt state => simp [he] at state
  | ready state => simp [he] at state
  | active state wakeup hwoken => exact ⟨wakeup, hwoken⟩

/-- An update that succeeds drives the chip without an error. -/
theorem update_ok {depth : Nat} {t' : Target I} {ev : EmuEvent}
    (h : update depth t = (.ok ev, t')) :
    ∃ t'', drive depth t = (.ok (), t'') ∧ t'.emu.state = t''.emu.state := by
  rw [update_eq] at h
  rcases hd : drive depth t with ⟨_ | ⟨⟩, t''⟩
  · rw [hd] at h
    cases h
  · rw [hd] at h
    refine ⟨t'', rfl, ?_⟩
    dsimp only at h
    split_ifs at h <;> cases h <;> rfl

/-- Until `gotoOff` runs, no frame is handed over before the tag was woken, and a woken tag goes
back to `halt` on an error. -/
theorem silent_until_woken (depth : Nat) {t : Target I} (h : t.emu.state = .halt) (js : List I)
    (i : I) (hoff : ∀ ks k, ks ++ [k] <+: js → ¬ EntersOff (before depth t ks k)) :
    (∀ rx, handed (before depth t js i) = some rx → Woken depth t js) ∧
      (SeesError (before depth t js i) → ∀ ev t',
        update depth (before depth t js i) = (.ok ev, t') →
        t'.emu.state = .halt ∨
          LosesField (before depth t js i) ∧ (t'.emu.state = .off ∨ t'.emu.state = .idle)) := by
  have hstage : Stage depth t js (before depth t js i).emu := stage_of_halt h js hoff
  constructor
  · exact fun rx hrx => (hstage.of_active (active_of_handed hrx)).2
  · rintro ⟨s, t₀, hlook, hs⟩ ev t' hupdate
    have hactive : (before depth t js i).emu.state = .active := by
      have hfits := look_fits hlook
      rcases hs with ⟨bytes, rfl⟩ | ⟨rx, rfl, -⟩ <;> exact hfits
    have hw : t₀.emu.wakeup = true := (look_mode hlook).2.trans (hstage.of_active hactive).1
    have hdrive : ∀ d, drive d (before depth t js i) = react d s t₀ := by
      intro d
      rw [drive_eq, Prog.bind_eq, hlook]
    obtain ⟨t'', hdone, hstate⟩ := update_ok hupdate
    rw [hstate]
    rcases halts_react hw hs with ⟨t₁, t₂, hfield, hend⟩ | hhalt
    · refine .inr ⟨⟨t₁, t₂, hfield, fun d => (hdrive d).trans (hend d)⟩, ?_⟩
      have hgoto : gotoOff depth t₂ = (.ok (), t'') :=
        (hend depth).symm.trans ((hdrive depth).symm.trans hdone)
      exact (triple_goto depth).1.ok trivial hgoto
    · exact .inl (hhalt depth t'' ((hdrive depth).symm.trans hdone))

/-! ## A halted tag that is woken -/

/-- What the chip answers during a poll in the reader's field; reading the flags clears them. -/
structure PollAnswers where
  flags : UInt32
  ptDisplay : UInt8 := 0
  fifo : List UInt8 := []

def PollAnswers.answer (b : PollAnswers) (op : UInt8) : List UInt8 :=
  if op = 0x9F then b.fifo
  else if op = 0x40 ||| reg.IRQ_MAIN then [(b.flags >>> 24).toUInt8, (b.flags >>> 16).toUInt8]
  else if op = 0x40 ||| reg.IRQ_ERROR_WUP then [(b.flags >>> 8).toUInt8]
  else if op = 0x40 ||| reg.IRQ_TARGET then [b.flags.toUInt8]
  else if op = 0x40 ||| reg.FIFO_STATUS1 then [UInt8.ofNat b.fifo.length, 0]
  else if op = 0x40 ||| reg.PT_DISPLAY then [b.ptDisplay]
  else if op = 0x40 ||| reg.AUX_DISPLAY then [0x40]
  else [0]

instance : I2c PollAnswers where
  Error := Empty
  write b _ _ := (.ok (), b)
  writeRead b _ bytes _ :=
    (.ok (.ofFn fun k => (b.answer (bytes.headD 0)).getD k 0),
      if bytes.headD 0 = 0x40 ||| reg.IRQ_TARGET then { b with flags := 0 } else b)
  transaction b _ _ := (.ok (), b)

/-- A halted tag. -/
def sleeping : Target PollAnswers where
  emu := { T2tEmulator.new (.replicate 7 0) with state := .halt }
  nfc := { i2c := ⟨0, 0, []⟩ }

/-- The chip answers the anticollision at 106 kbit/s. -/
def anticollision : PollAnswers := { flags := irq.NFCT ||| irq.RXE_PTA, ptDisplay := 0x0D }

def wakeUp : PollAnswers := { flags := irq.WU_AX }

/-- READ of page 4, with its CRC. -/
def readFrame : PollAnswers := { flags := irq.RXE, fifo := [0x30, 0x04, 0x26, 0xEE] }

/-- The same frame with an error flagged. -/
def badFrame : PollAnswers := { flags := irq.RXE ||| 0x8000, fifo := [0x30, 0x04, 0x26, 0xEE] }

theorem not_entersOff {t : Target I} (h : (drive 0 t).1 = .ok ()) : ¬ EntersOff t := by
  rintro ⟨t', hoff⟩
  rw [hoff 0] at h
  cases h

omit [I2c I] in
/-- A statement about every step of a run, one step further. -/
theorem forall_prefix_concat {P : List I → I → Prop} {js : List I} {i : I}
    (h : ∀ ks k, ks ++ [k] <+: js → P ks k) (hi : P js i) :
    ∀ ks k, ks ++ [k] <+: js ++ [i] → P ks k := by
  intro ks k hks
  rcases List.prefix_concat_iff.mp hks with heq | hpre
  · obtain ⟨rfl, hk⟩ := List.append_inj' heq rfl
    cases hk
    exact hi
  · exact h ks k hpre

/-- Woken from `halt`, it hands over a frame, and goes back after a garbled one. -/
theorem silent_until_woken_sleeping :
    handed (before 4 sleeping [anticollision, wakeUp] readFrame) = some [0x30, 0x04] ∧
      Woken 4 sleeping [anticollision, wakeUp] ∧
      SeesError (before 4 sleeping [anticollision, wakeUp, readFrame] badFrame) ∧
      ∃ t', update 4 (before 4 sleeping [anticollision, wakeUp, readFrame] badFrame) =
        (.ok .none, t') ∧
        (t'.emu.state = .halt ∨
          LosesField (before 4 sleeping [anticollision, wakeUp, readFrame] badFrame) ∧
            (t'.emu.state = .off ∨ t'.emu.state = .idle)) := by
  have hnil : ∀ ks k, ks ++ [k] <+: [] → ¬ EntersOff (before 4 sleeping ks k) := by
    intro ks k hks
    simp at hks
  have hone := forall_prefix_concat hnil (i := anticollision) (not_entersOff rfl)
  have htwo := forall_prefix_concat hone (i := wakeUp) (not_entersOff rfl)
  have hthree := forall_prefix_concat htwo (i := readFrame) (not_entersOff rfl)
  have hhanded : handed (before 4 sleeping [anticollision, wakeUp] readFrame) = some [0x30, 0x04] :=
    rfl
  have herror : SeesError (before 4 sleeping [anticollision, wakeUp, readFrame] badFrame) :=
    ⟨.bad 4, _, rfl, .inl ⟨4, rfl⟩⟩
  refine ⟨hhanded, (silent_until_woken 4 rfl _ readFrame htwo).1 _ hhanded, herror, _, rfl, ?_⟩
  exact (silent_until_woken 4 rfl _ badFrame hthree).2 herror .none _ rfl

end Target

end PaperNamePlate
