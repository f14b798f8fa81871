import PaperNamePlate.App.Serving
import PaperNamePlate.Ble.Session
import PaperNamePlate.Ble.Transfer

/-!
# What becomes of committed updates

Between its commit and its application an update waits in the receiver. The books of
a session balance what was accepted against what was handed to the app and what still
waits; they are off exactly by what a reset of the receiver or the end of the session
throws away.
-/
namespace PaperNamePlate

open Embedded

namespace ImgRx

/-- The updates waiting to be applied. -/
def pending (r : ImgRx) : List BleUpdate :=
  r.done.toList.map .image ++ r.doneContent.toList.map .text ++
    if r.clearImageReq then [.clear] else []

/-- The updates that a GATT access accepts: a transfer that it puts into the committed state, or a
clear request unless one is waiting already. -/
def accepts (r : ImgRx) (g : Gatt) : List BleUpdate :=
  let r' := r.gatt g
  (if r.state ≠ .committed ∧ r'.state = .committed then
      r'.done.toList.map .image ++ r'.doneContent.toList.map .text
    else []) ++
    if !r.clearImageReq && r'.clearImageReq then [.clear] else []

/-- A START or an abort. -/
def resets : Gatt → Bool
  | .ctrl (op :: args) =>
    op = 0x11 ∧ args.length ≥ 9 ∨ op = 0x10 ∧ args.length ≥ 13 ∨ op = 0x03
  | _ => false

/-- What a START or an abort throws away. -/
def drops (r : ImgRx) (g : Gatt) : List BleUpdate := if resets g then r.pending else []

/-! ## GATT accesses -/

/-- A START leaves a receiver in which nothing waits. -/
theorem startContent_fresh (r : ImgRx) {args : List UInt8} (h : args.length ≥ 9) :
    (r.startContent args).pending = [] ∧ (r.startContent args).state ≠ .committed ∧
      (r.startContent args).clearImageReq = false := by
  match args, h with
  | l0 :: l1 :: l2 :: l3 :: c0 :: c1 :: c2 :: c3 :: a :: rest, _ =>
    unfold startContent
    dsimp only
    split <;> exact ⟨rfl, by simp [reset], rfl⟩

theorem startImage_fresh (r : ImgRx) {args : List UInt8} (h : args.length ≥ 13) :
    (r.startImage args).pending = [] ∧ (r.startImage args).state ≠ .committed ∧
      (r.startImage args).clearImageReq = false := by
  match args, h with
  | w0 :: w1 :: h0 :: h1 :: l0 :: l1 :: l2 :: l3 :: c0 :: c1 :: c2 :: c3 :: a :: rest, _ =>
    unfold startImage
    dsimp only
    split <;> exact ⟨rfl, by simp [reset], rfl⟩

/-- An access that neither commits nor requests anything accepts nothing. -/
theorem accepts_eq_nil {r : ImgRx} {g : Gatt}
    (hstate : (r.gatt g).state = .committed → r.state = .committed)
    (hclear : (r.gatt g).clearImageReq = true → r.clearImageReq = true) : r.accepts g = [] := by
  unfold accepts
  dsimp only
  rw [if_neg fun h => h.1 (hstate h.2), if_neg, List.append_nil]
  intro h
  simp only [Bool.and_eq_true, Bool.not_eq_true'] at h
  simp [hclear h.2] at h

/-- Where the waiting updates stay as they are, nothing was accepted or dropped. -/
theorem gatt_pending_same {r : ImgRx} {g : Gatt} (hg : resets g = false)
    (h1 : (r.gatt g).done = r.done) (h2 : (r.gatt g).doneContent = r.doneContent)
    (h3 : (r.gatt g).clearImageReq = r.clearImageReq)
    (h4 : (r.gatt g).state = .committed → r.state = .committed) :
    (r.pending ++ r.accepts g).Perm (r.drops g ++ (r.gatt g).pending) := by
  rw [accepts_eq_nil h4 (by rw [h3]; exact id), drops, hg]
  simp [pending, h1, h2, h3]

/-- A reset throws away what waits. -/
theorem gatt_pending_reset {r : ImgRx} {g : Gatt} (hg : resets g = true)
    (h1 : (r.gatt g).pending = []) (h2 : (r.gatt g).state ≠ .committed)
    (h3 : (r.gatt g).clearImageReq = false) :
    (r.pending ++ r.accepts g).Perm (r.drops g ++ (r.gatt g).pending) := by
  rw [accepts_eq_nil (fun h => absurd h h2) (fun h => by simp [h3] at h), drops, hg, h1]
  simp

theorem push_frame (r : ImgRx) (d : List UInt8) : (r.push d).done = r.done ∧
    (r.push d).doneContent = r.doneContent ∧ (r.push d).clearImageReq = r.clearImageReq ∧
      (r.push d).state = r.state := by
  rcases r.push_cases d with h | ⟨o0, o1, payload, -, -, -, h⟩ | h
  · rw [h]; exact ⟨rfl, rfl, rfl, rfl⟩
  · rw [h]
    unfold accept
    dsimp only
    split <;> exact ⟨rfl, rfl, rfl, rfl⟩
  · rw [h]; exact ⟨rfl, rfl, rfl, rfl⟩

/-- A commit either leaves an image or a text, or changes nothing that waits. -/
theorem commit_cases (r : ImgRx) : r.commit.clearImageReq = r.clearImageReq ∧
    ((r.commit.done = r.done ∧ r.commit.doneContent = r.doneContent ∧
        (r.commit.state = .committed → r.state = .committed)) ∨
      (r.state = .receiving ∧ r.commit.state = .committed)) := by
  unfold commit
  dsimp only
  split
  · exact ⟨rfl, .inl ⟨rfl, rfl, id⟩⟩
  · next hrecv =>
    have hstate : r.state = .receiving := by simpa [receiving] using hrecv
    split
    · exact ⟨rfl, .inl ⟨rfl, rfl, fun h => by cases h⟩⟩
    · split
      · exact ⟨rfl, .inl ⟨rfl, rfl, fun h => by cases h⟩⟩
      · split
        · split
          · exact ⟨rfl, .inr ⟨hstate, rfl⟩⟩
          · exact ⟨rfl, .inl ⟨rfl, rfl, fun h => by cases h⟩⟩
        · exact ⟨rfl, .inr ⟨hstate, rfl⟩⟩

theorem commit_pending {r : ImgRx} (hr : r.Valid) {g : Gatt} (hg : resets g = false)
    (heq : r.gatt g = r.commit) :
    (r.pending ++ r.accepts g).Perm (r.drops g ++ (r.gatt g).pending) := by
  obtain ⟨hclear, ⟨h1, h2, h3⟩ | ⟨hrecv, hcommitted⟩⟩ := r.commit_cases
  · exact gatt_pending_same hg (by rw [heq, h1]) (by rw [heq, h2]) (by rw [heq, hclear])
      (by rw [heq]; exact h3)
  · -- while a transfer is running, only a clear request can wait
    have hwait : r.pending = if r.clearImageReq then [.clear] else [] := by
      simp [pending, (hr hrecv).done, (hr hrecv).doneContent]
    have haccept : r.accepts g =
        r.commit.done.toList.map .image ++ r.commit.doneContent.toList.map .text := by
      simp [accepts, heq, hcommitted, hrecv, hclear]
    have hafter : r.commit.pending =
        r.commit.done.toList.map .image ++ r.commit.doneContent.toList.map .text ++
          if r.clearImageReq then [.clear] else [] := by
      rw [pending, hclear]
    rw [haccept, hwait, drops, hg, heq, hafter]
    exact List.perm_append_comm

theorem ctrl_pending {r : ImgRx} (hr : r.Valid) (op : UInt8) (args : List UInt8) :
    (r.pending ++ r.accepts (.ctrl (op :: args))).Perm
      (r.drops (.ctrl (op :: args)) ++ (r.gatt (.ctrl (op :: args))).pending) := by
  have hgatt : r.gatt (.ctrl (op :: args)) = r.ctrl (op :: args) := rfl
  rcases r.ctrl_cases op args with ⟨rfl, hlen, h⟩ | ⟨rfl, hlen, h⟩ | ⟨rfl, h⟩ | ⟨rfl, h⟩ |
    ⟨rfl, h⟩ | ⟨h11, h10, h03, ntf, doze, h⟩
  · obtain ⟨h1, h2, h3⟩ := r.startContent_fresh hlen
    exact gatt_pending_reset (by simpa [resets] using hlen) (by rw [hgatt, h, h1])
      (by rwa [hgatt, h]) (by rw [hgatt, h, h3])
  · obtain ⟨h1, h2, h3⟩ := r.startImage_fresh hlen
    exact gatt_pending_reset (by simpa [resets] using hlen) (by rw [hgatt, h, h1])
      (by rwa [hgatt, h]) (by rw [hgatt, h, h3])
  · exact commit_pending hr (by simp [resets]) (hgatt.trans h)
  · exact gatt_pending_reset (by simp [resets]) (by rw [hgatt, h]; rfl)
      (by rw [hgatt, h]; simp [reset]) (by rw [hgatt, h]; rfl)
  · cases hwait : r.clearImageReq with
    | true =>
      exact gatt_pending_same (by simp [resets]) (by rw [hgatt, h]) (by rw [hgatt, h])
        (by rw [hgatt, h, hwait]) (by rw [hgatt, h]; exact id)
    | false => simp [accepts, drops, resets, hgatt, h, pending, hwait]
  · exact gatt_pending_same (by simp [resets, h11, h10, h03]) (by rw [hgatt, h])
      (by rw [hgatt, h]) (by rw [hgatt, h]) (by rw [hgatt, h]; exact id)

/-- The books of one GATT access. -/
theorem gatt_pending {r : ImgRx} (hr : r.Valid) (g : Gatt) :
    (r.pending ++ r.accepts g).Perm (r.drops g ++ (r.gatt g).pending) := by
  cases g with
  | ctrl d =>
    cases d with
    | nil => exact gatt_pending_same rfl rfl rfl rfl id
    | cons op args => exact ctrl_pending hr op args
  | data d =>
    obtain ⟨h1, h2, h3, h4⟩ := r.push_frame d
    exact gatt_pending_same rfl h1 h2 h3 fun h => h4.symm.trans h
  | subscribe on => exact gatt_pending_same rfl rfl rfl rfl id
  | read => exact gatt_pending_same rfl rfl rfl rfl id

/-- The books of the accesses that one round of HCI work serves. -/
theorem accesses_pending {r : ImgRx} (hr : r.Valid) (gs : List Gatt) :
    (r.pending ++ collect gatt accepts r gs).Perm
      (collect gatt drops r gs ++ (run gatt r gs).pending) := by
  have hvalid : Always gatt Valid r gs :=
    always_of_invariant (P := Valid) (fun r g h => step_valid h (.gatt g)) hr gs
  exact ledger (fun r g h => gatt_pending h g) hvalid.eachStep

theorem takeNotification_pending (r : ImgRx) : r.takeNotification.2.pending = r.pending := by
  rw [takeNotification_eq]
  rfl

end ImgRx

namespace Session

variable {I F D : Type} [I2c I] [Flash F] [Panel D]

/-! ## What a step accepts, loses and holds -/

/-- A round of the pump that finds nothing to do. -/
def drained (e : SessionEnv I D) (s : Session I F D) : Bool :=
  s.rx.takeNotification.1.isNone && !e.hciReady

/-- The GATT accesses that the step serves. -/
def served (e : SessionEnv I D) (s : Session I F D) : List Gatt :=
  match s.phase with
  | .pump _ => if s.drained e then [] else e.work.accesses
  | _ => []

/-- The step leaves the loop. -/
def ends (e : SessionEnv I D) (s : Session I F D) : Bool :=
  match s.phase with
  | .pump _ =>
    !s.drained e &&
      match e.work with
      | .disconnected => true
      | .didWork _ => false
      | .error _ => s.errors + 1 ≥ 8
  | .idle => !e.bleActive && (s.rx.dozeTestReq || e.hciQuiet && s.app.shouldDoze e.quiet)
  | _ => false

/-- The receiver after the accesses of the step. -/
def received (e : SessionEnv I D) (s : Session I F D) : ImgRx :=
  run ImgRx.gatt s.rx.takeNotification.2 (s.served e)

def accepted (s : Session I F D) (e : SessionEnv I D) : List BleUpdate :=
  collect ImgRx.gatt ImgRx.accepts s.rx.takeNotification.2 (s.served e)

/-- What a reset or the end of the session throws away. -/
def lost (s : Session I F D) (e : SessionEnv I D) : List BleUpdate :=
  collect ImgRx.gatt ImgRx.drops s.rx.takeNotification.2 (s.served e) ++
    if s.ends e then (s.received e).pending else []

/-- What waits in a session that is still running. -/
def held (s : Session I F D) : List BleUpdate :=
  match s.phase with
  | .ended _ => []
  | _ => s.rx.pending

/-- The step neither resets the receiver nor ends the session while an update waits. -/
def Spares (s : Session I F D) (e : SessionEnv I D) : Prop :=
  EachStep ImgRx.gatt (fun r g => ImgRx.resets g = true → r.pending = [])
      s.rx.takeNotification.2 (s.served e) ∧
    (s.ends e = true → (s.received e).pending = [])

omit [I2c I] [Flash F] [Panel D] in
theorem lost_eq_nil_iff (s : Session I F D) (e : SessionEnv I D) : s.lost e = [] ↔ s.Spares e := by
  have hdrop : ∀ r g, ImgRx.drops r g = [] ↔ (ImgRx.resets g = true → r.pending = []) := by
    intro r g
    unfold ImgRx.drops
    split <;> simp_all
  have hend : (if s.ends e then (s.received e).pending else []) = [] ↔
      (s.ends e = true → (s.received e).pending = []) := by
    split <;> simp_all
  rw [lost, List.append_eq_nil_iff, collect_eq_nil_iff, hend]
  exact and_congr_left' ⟨fun h => h.mono fun r g => (hdrop r g).mp,
    fun h => h.mono fun r g => (hdrop r g).mpr⟩

/-! ## The receiver in a session -/

omit [I2c I] [Flash F] [Panel D] in
theorem finish_frame (doze : Bool) (s : Session I F D) :
    (s.finish doze).rx = s.rx ∧ (s.finish doze).held = [] := by
  unfold finish
  split <;> exact ⟨rfl, rfl⟩

omit [I2c I] in
theorem applyImage_rx (s : Session I F D) : s.applyImage.2.rx = s.rx.step .takeImage := by
  rcases h : s.rx.takeImage with ⟨_ | img, rx⟩ <;> simp [applyImage, ImgRx.step, h]

omit [I2c I] in
theorem applyText_rx (s : Session I F D) : s.applyText.2.rx = s.rx.step .takeText := by
  rcases h : s.rx.takeText with ⟨_ | text, rx⟩ <;> simp [applyText, ImgRx.step, h]

omit [I2c I] in
theorem applyClear_rx (s : Session I F D) : s.applyClear.2.rx = s.rx.step .takeClear := by
  rcases h : s.rx.takeClear with ⟨_ | _, rx⟩ <;> simp [applyClear, ImgRx.step, h]

theorem run_accesses (r : ImgRx) (gs : List Gatt) :
    run ImgRx.gatt r.takeNotification.2 gs =
      run ImgRx.step r (.takeNotification :: gs.map .gatt) := by
  rw [run_cons, run, run, List.foldl_map]
  rfl

/-- What a step does to the receiver is a run of its operations. -/
theorem step_rx (depth : Nat) (s : Session I F D) (e : SessionEnv I D) :
    ∃ ops, (s.step depth e).rx = run ImgRx.step s.rx ops := by
  unfold step
  split
  · next i _ =>
    unfold pump
    dsimp only
    split
    · exact ⟨[.takeNotification], rfl⟩
    · split
      · exact ⟨[.takeNotification], (finish_frame _ _).1⟩
      · exact ⟨_, run_accesses _ _⟩
      · split
        · exact ⟨_, (finish_frame _ _).1.trans (run_accesses _ _)⟩
        · exact ⟨_, run_accesses _ _⟩
  · refine ⟨[.takeImage, .takeText, .takeClear], ?_⟩
    simp only [applyDue, run_cons, run_nil, applyClear_rx, applyText_rx, applyImage_rx]
  · unfold idle
    refine ⟨[], ?_⟩
    split
    · rfl
    · split
      · exact (finish_frame _ _).1
      · split
        · exact (finish_frame _ _).1
        · rfl
  · exact ⟨[], rfl⟩

theorem step_valid (depth : Nat) {s : Session I F D} (hr : s.rx.Valid) (e : SessionEnv I D) :
    (s.step depth e).rx.Valid := by
  obtain ⟨ops, hops⟩ := s.step_rx depth e
  rw [hops]
  exact ImgRx.run_valid hr ops

/-! ## The books of a session -/

omit [I2c I] in
theorem applyImage_pending (s : Session I F D) :
    s.rx.pending.Perm (s.applyImage.1 ++ s.applyImage.2.rx.pending) := by
  unfold applyImage
  rcases s.rx.takeImage_cases with heq | ⟨img, hdone, -, heq⟩
  · simp [heq]
  · simp [heq, ImgRx.pending, hdone]

omit [I2c I] in
theorem applyText_pending (s : Session I F D) :
    s.rx.pending.Perm (s.applyText.1 ++ s.applyText.2.rx.pending) := by
  unfold applyText
  rcases s.rx.takeText_cases with heq | ⟨text, hdone, -, heq⟩
  · simp [heq]
  · simp [heq, ImgRx.pending, hdone]

omit [I2c I] in
theorem applyClear_pending (s : Session I F D) :
    s.rx.pending.Perm (s.applyClear.1 ++ s.applyClear.2.rx.pending) := by
  unfold applyClear ImgRx.takeClear
  cases hdue : s.rx.clearImageReq && !s.rx.pendingNtf with
  | true =>
    have hreq : s.rx.clearImageReq = true := by simp_all
    simp only [ImgRx.pending, hreq, if_true, Bool.false_eq_true, if_false, List.append_nil,
      List.singleton_append]
    exact List.perm_append_singleton _ _
  | false => simp

omit [I2c I] in
/-- Whatever waited is handed over or waits on. -/
theorem applyDue_pending (s : Session I F D) :
    s.rx.pending.Perm (s.applyDue.1 ++ s.applyDue.2.rx.pending) := by
  have h1 := s.applyImage_pending
  have h2 := s.applyImage.2.applyText_pending
  have h3 := s.applyImage.2.applyText.2.applyClear_pending
  have hall := h1.trans ((h2.trans (h3.append_left _)).append_left _)
  simpa only [applyDue, List.append_assoc] using hall

omit [I2c I] in
theorem applyDue_held (s : Session I F D) : s.applyDue.2.held = s.applyDue.2.rx.pending := by
  simp only [held, applyDue]
  split
  · next heq => split at heq <;> cases heq
  · rfl

omit [I2c I] [Flash F] [Panel D] in
/-- The books of one round of the pump. -/
theorem pump_books {s : Session I F D} {i : Nat} (hphase : s.phase = .pump i) (hr : s.rx.Valid)
    (e : SessionEnv I D) :
    (s.rx.pending ++ s.accepted e).Perm (s.lost e ++ (s.pump i e).held) := by
  have hbooks := ImgRx.accesses_pending (ImgRx.step_valid hr .takeNotification) (s.served e)
  rw [ImgRx.step, ImgRx.takeNotification_pending] at hbooks
  refine hbooks.trans ?_
  unfold lost
  rw [List.append_assoc]
  refine List.Perm.append_left _ (List.Perm.of_eq ?_)
  unfold pump ends received
  cases hdrained : s.drained e with
  | true =>
    have hcond : (s.rx.takeNotification.1.isNone && !e.hciReady) = true := hdrained
    simp [hphase, hcond, served, held, hdrained]
  | false =>
    have hcond : (s.rx.takeNotification.1.isNone && !e.hciReady) = false := hdrained
    simp only [hphase, hcond, served, hdrained, Bool.false_eq_true, if_false]
    cases e.work with
    | disconnected => simp [Work.accesses, finish_frame]
    | didWork gs =>
      simp only [Work.accesses, Bool.and_false, if_false, List.nil_append, Bool.false_eq_true]
      split <;> rfl
    | error gs =>
      by_cases herr : s.errors + 1 ≥ 8
      · simp [Work.accesses, herr, finish_frame]
      · simp [Work.accesses, herr, held]

/-- Ending the session loses what waits, and the rest of the work between transfers does not touch
it. -/
theorem idle_books (depth : Nat) {s : Session I F D} (hphase : s.phase = .idle)
    (e : SessionEnv I D) :
    s.rx.pending.Perm ((if s.ends e then s.rx.pending else []) ++ (s.idle depth e).held) := by
  unfold idle ends
  rw [hphase]
  by_cases hactive : e.bleActive = true
  · simp [hactive, held]
  · by_cases htest : s.rx.dozeTestReq = true
    · simp [hactive, htest, finish_frame]
    · by_cases hdoze : (e.hciQuiet && s.app.shouldDoze e.quiet) = true
      · simp only [hactive, htest, hdoze]
        simp [finish_frame]
      · simp only [hactive, htest, hdoze]
        simp [held]

/-- The books of one step. -/
theorem step_books (depth : Nat) (s : Session I F D) (e : SessionEnv I D) (hr : s.rx.Valid) :
    (s.held ++ s.accepted e).Perm (s.handed e ++ s.lost e ++ (s.step depth e).held) := by
  cases hphase : s.phase with
  | pump i => simpa [held, handed, step, hphase] using pump_books hphase hr e
  | apply =>
    have hheld : s.held = s.rx.pending := by simp [held, hphase]
    simpa [hheld, accepted, handed, lost, served, ends, step, hphase, collect, applyDue_held]
      using s.applyDue_pending
  | idle =>
    simpa [held, accepted, handed, lost, served, received, step, hphase, collect,
      ImgRx.takeNotification_pending] using idle_books depth hphase e
  | ended doze => simp [held, accepted, handed, lost, served, ends, step, hphase, collect]

/-- At any time, what a session has accepted has been handed to the app exactly once or still waits,
if and only if no step so far reset the receiver or ended the session over a waiting update. -/
theorem handed_over_iff (depth : Nat) (app : App I F D) (es : List (SessionEnv I D)) :
    (collect (step depth) accepted (start app) es).Perm
        (collect (step depth) handed (start app) es ++ (run (step depth) (start app) es).held) ↔
      EachStep (step depth) Spares (start app) es := by
  have hvalid : Always (step depth) (fun s => s.rx.Valid) (start app) es :=
    always_of_invariant (P := fun s : Session I F D => s.rx.Valid)
      (fun s e h => step_valid depth h e)
      ImgRx.valid_default es
  have hledger := ledger_iff (fun s e h => step_books depth s e h) hvalid.eachStep
  refine hledger.trans ⟨fun h => h.mono fun s e => (s.lost_eq_nil_iff e).mp,
    fun h => h.mono fun s e => (s.lost_eq_nil_iff e).mpr⟩

end Session

/-- A board without the NFC chip has no bus to it. -/
instance : I2c Empty where
  Error := Empty
  write i := i.elim
  writeRead i := i.elim
  transaction i := i.elim

namespace Session

/-- The client sends an image of 8 by 1 pixels. -/
def sendsImage : SessionEnv Empty Unit where
  hciReady := true
  work := .didWork
    [.ctrl [0x10, 8, 0, 1, 0, 1, 0, 0, 0, 0x00, 0x00, 0x00, 0xFF, 0], .data [0, 0, 0xFF],
      .ctrl [0x02]]

/-- The client commits an image and disconnects; the image is not applied. -/
theorem commit_lost_on_disconnect : ¬ ∀ es : List (SessionEnv Empty Unit),
    (collect (step 4) accepted (start App.bare) es).Perm
      (collect (step 4) handed (start App.bare) es ++
        (run (step 4) (start App.bare) es).held) := by
  intro h
  have hlen := (h [sendsImage, { hciReady := true, work := .disconnected }]).length_eq
  exact absurd hlen (by decide +kernel)

end Session

end PaperNamePlate
