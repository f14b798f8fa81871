import PaperNamePlate.Lib.Bits
import PaperNamePlate.Lib.Nesting
import PaperNamePlate.Nfc.Halted

/-!
# How deep `gotoOff` and `gotoIdle` call each other

`gotoOff` hands over to `gotoIdle` when there is a field, and `gotoIdle` back to `gotoOff` when the
oscillator does not start. It only waits for the oscillator if OP_CONTROL reads back without `EN`,
it sets `EN` before, and `gotoOff` leaves it set, so it waits once. What the chip answers about the
field and the oscillator does not matter.
-/
namespace PaperNamePlate

open Embedded

/-- OP_CONTROL reads back what was last written to it. -/
structure ReadsBack (I : Type) [I2c I] where
  opControl : I → UInt8
  read : ∀ {i i' : I} {v : Vector UInt8 1},
    I2c.writeRead i ADDR [0x40 ||| reg.OP_CONTROL] 1 = (.ok v, i') → v.toList = [opControl i]
  write : ∀ {i i' : I} {v : UInt8},
    I2c.write i ADDR [reg.OP_CONTROL, v] = (.ok (), i') → opControl i' = v
  /-- Reading registers does not write to it. -/
  readRegs_keeps : ∀ {i i' : I} {r : UInt8} {n : Nat} {v : Vector UInt8 n},
    I2c.writeRead i ADDR [0x40 ||| (r &&& 0x3F)] n = (.ok v, i') → opControl i' = opControl i
  writeReg_keeps : ∀ {i i' : I} {r v : UInt8}, r &&& 0x3F ≠ reg.OP_CONTROL →
    I2c.write i ADDR [r &&& 0x3F, v] = (.ok (), i') → opControl i' = opControl i
  command_keeps : ∀ {i i' : I} {c : UInt8}, c ≠ cmd.SET_DEFAULT →
    I2c.write i ADDR [c] = (.ok (), i') → opControl i' = opControl i

open St25r3916 Prog

variable {I : Type} [I2c I]

theorem triple_bus {α : Type} {f : I → Except (I2c.Error I) α × I} {P : St25r3916 I → Prop}
    {Q : α → St25r3916 I → Prop}
    (h : ∀ nfc a i, P nfc → f nfc.i2c = (.ok a, i) → Q a { nfc with i2c := i }) :
    Triple P (bus f) Q fun _ => True := by
  intro nfc hnfc
  have hok := h nfc
  unfold bus Prog.zoom
  revert hok
  rcases f nfc.i2c with ⟨e | a, i⟩
  · exact fun _ => trivial
  · exact fun hok => hok a i hnfc rfl

variable (laws : ReadsBack I)

namespace ReadsBack

/-! ## `EN` -/

/-- `EN` is set, if `c`. -/
def EnSet (c : Prop) (nfc : St25r3916 I) : Prop := c → laws.opControl nfc.i2c &&& op.EN ≠ 0

variable {laws} {c : Prop}

theorem EnSet.congr {nfc nfc' : St25r3916 I} (h : laws.EnSet c nfc)
    (heq : laws.opControl nfc'.i2c = laws.opControl nfc.i2c) : laws.EnSet c nfc' := by
  intro hc
  rw [heq]
  exact h hc

theorem triple_command {cm : UInt8} (h : cm ≠ cmd.SET_DEFAULT) :
    Triple (laws.EnSet c) (command cm) (fun _ => laws.EnSet c) fun _ => True :=
  triple_bus fun _ _ _ hen heq => hen.congr (laws.command_keeps h heq)

theorem triple_readRegs (r : UInt8) (n : Nat) :
    Triple (laws.EnSet c) (readRegs r n) (fun _ => laws.EnSet c) fun _ => True :=
  triple_bus fun _ _ _ hen heq => hen.congr (laws.readRegs_keeps heq)

theorem triple_readReg (r : UInt8) :
    Triple (laws.EnSet c) (readReg r) (fun _ => laws.EnSet c) fun _ => True :=
  (triple_readRegs r 1).bind fun _ => .pure _ fun _ hen => hen

theorem triple_clearIrq : Triple (laws.EnSet c) clearIrq (fun _ => laws.EnSet c) fun _ => True := by
  refine Triple.bind (Q := fun _ => laws.EnSet c) (.modify fun _ hen => hen) fun _ => ?_
  exact (triple_readRegs _ 4).bind fun _ => .pure _ fun _ hen => hen

theorem triple_writeReg {r : UInt8} (h : r &&& 0x3F ≠ reg.OP_CONTROL) (v : UInt8) :
    Triple (laws.EnSet c) (writeReg r v) (fun _ => laws.EnSet c) fun _ => True :=
  triple_bus fun _ _ _ hen heq => hen.congr (laws.writeReg_keeps h heq)

theorem triple_modifyReg {r : UInt8} (h : r &&& 0x3F ≠ reg.OP_CONTROL) (clear set : UInt8) :
    Triple (laws.EnSet c) (modifyReg r clear set) (fun _ => laws.EnSet c) fun _ => True := by
  refine (triple_readReg r).bind fun v => ?_
  exact .ite (fun _ => triple_writeReg h _) fun _ => .pure _ fun _ hen => hen

/-- What OP_CONTROL reads as. -/
theorem triple_readOpControl :
    Triple (laws.EnSet c) (readReg reg.OP_CONTROL)
      (fun v nfc => laws.opControl nfc.i2c = v ∧ laws.EnSet c nfc) fun _ => True := by
  refine Triple.bind (Q := fun b nfc => laws.opControl nfc.i2c = b[0] ∧
    laws.EnSet c nfc) ?_ fun b =>
    .pure _ fun _ h => h
  refine triple_bus fun nfc b i hen heq => ?_
  have hkeep := laws.readRegs_keeps heq
  have hread : b[0] = laws.opControl nfc.i2c := by
    have hget : b.toList[0]? = some (laws.opControl nfc.i2c) := by rw [laws.read heq]; rfl
    simpa using hget
  exact ⟨hkeep.trans hread.symm, hen.congr hkeep⟩

/-- `EN` is set afterwards if it is set here, or if it was set and is not cleared. -/
theorem triple_modifyOpControl {c' : Prop} {clear set : UInt8}
    (h : c' → bit set 7 = true ∨ c ∧ bit clear 7 = false) :
    Triple (laws.EnSet c) (modifyReg reg.OP_CONTROL clear set) (fun _ => laws.EnSet c') fun _ =>
      True := by
  refine triple_readOpControl.bind fun v => ?_
  have hnew : ∀ nfc, laws.opControl nfc.i2c = v ∧ laws.EnSet c nfc → c' →
      ((v &&& ~~~clear) ||| set) &&& op.EN ≠ 0 := by
    rintro nfc ⟨heq, hen⟩ hc'
    change _ &&& UInt8.ofNat (2 ^ 7) ≠ 0
    rw [and_two_pow_ne_zero _ (by decide), bit_or, bit_and, bit_not _ (by decide)]
    rcases h hc' with hset | ⟨hc, hclear⟩
    · simp [hset]
    · have hv := (and_two_pow_ne_zero _ (by decide : 7 < 8)).mp (hen hc)
      rw [heq] at hv
      simp [hv, hclear]
  refine .ite (fun _ => ?_) fun hsame => .pure _ fun nfc h hc' => ?_
  · exact triple_bus fun nfc _ i h heq hc' => by rw [laws.write heq]; exact hnew nfc h hc'
  · rw [h.1]
    exact not_ne_iff.mp hsame ▸ hnew nfc h hc'

end ReadsBack

namespace Target

/-! ## Handing over -/

/-- The program did not run out of stack. -/
def Fits {α : Type} (r : Except (Fault (I2c.Error I)) α × Target I) : Prop := r.1 ≠ .error .stack

/-- From a chip with `P`, the program fits, or it goes on as `q` from a chip with `C`. -/
abbrev Hands (P : St25r3916 I → Prop) (p q : Nat → Emu I Unit) (C : St25r3916 I → Prop) : Prop :=
  HandsOver Fits (fun t => P t.nfc) p q fun t => C t.nfc

variable {P : St25r3916 I → Prop} {C : St25r3916 I → Prop} {q : Nat → Emu I Unit}

theorem hands_chip {α : Type} {p : Access I α} {f : α → Nat → Emu I Unit}
    {Q : α → St25r3916 I → Prop} (hp : Triple P p Q fun _ => True)
    (hf : ∀ a, Hands (Q a) (f a) q C) :
    Hands P (fun depth => chip p >>= fun a => f a depth) q C := by
  refine HandsOver.bind (Q := fun a t => Q a t.nfc) (Triple.mapError ?_) ?_ hf
  · intro t ht
    have hrun := hp t.nfc ht
    unfold onNfc Prog.zoom
    revert hrun
    rcases p t.nfc with ⟨e | a, nfc⟩
    · exact fun _ => trivial
    · exact id
  · intro t t' e herr
    unfold chip Prog.mapError at herr
    split at herr
    · cases herr
    · cases herr
      simp [Fits]

theorem hands_setEmu_bind {g : T2tEmulator → T2tEmulator} {f : Nat → Emu I Unit}
    (hf : Hands P f q C) :
    Hands P (fun depth => setEmu g >>= fun _ => f depth) q C :=
  HandsOver.bind (Q := fun _ t => P t.nfc) (.modify fun _ h => h) (fun _ _ _ herr => by cases herr)
    fun _ => hf

theorem hands_getEmu_bind {f : T2tEmulator → Nat → Emu I Unit} (hf : ∀ e, Hands P (f e) q C) :
    Hands P (fun depth => getEmu >>= fun e => f e depth) q C :=
  HandsOver.bind (Q := fun _ t => P t.nfc) (fun _ h => h) (fun _ _ _ herr => by cases herr) hf

theorem hands_setEmu {g : T2tEmulator → T2tEmulator} : Hands P (fun _ => setEmu g) q C :=
  .of_ends fun _ _ h => by cases h

variable {laws} {c : Prop}

theorem hands_waitOsc (n : Nat) {f : Bool → Nat → Emu I Unit}
    (hf : ∀ b, Hands (laws.EnSet c) (f b) q C) :
    Hands (laws.EnSet c) (fun depth => waitOsc n >>= fun b => f b depth) q C := by
  induction n with
  | zero =>
    simp only [waitOsc, bind_assoc, pure_bind]
    exact hands_chip (ReadsBack.triple_readReg _) fun v => hf _
  | succ n ih =>
    simp only [waitOsc, bind_assoc]
    refine hands_chip (ReadsBack.triple_readReg _) fun v => ?_
    exact .ite_bind (fun _ => ih) fun _ => hf true

/-- If the oscillator does not start, then `EN` was not set, and is set now. -/
theorem hands_oscillator {v : UInt8} {f : Bool → Nat → Emu I Unit}
    (hrun : Hands (fun _ => True) (f true) q C)
    (hstall : ¬c → Hands (laws.EnSet True) (f false) q C) :
    Hands (fun nfc => laws.opControl nfc.i2c = v ∧ laws.EnSet c nfc)
      (fun depth => (if v &&& op.EN = 0 then do
          chip (modifyReg reg.OP_CONTROL 0 (op.EN ||| op.RX_EN))
          waitOsc 41
        else pure true) >>= fun stable => f stable depth) q C := by
  refine .ite_bind (fun hv => ?_) fun _ => hrun.weaken fun _ _ => trivial
  refine .assume (c := ¬c) (fun t h hc => h.2 hc (h.1.symm ▸ hv)) fun hc => ?_
  have hset : Triple (fun nfc => laws.opControl nfc.i2c = v ∧ laws.EnSet c nfc)
      (modifyReg reg.OP_CONTROL 0 (op.EN ||| op.RX_EN)) (fun _ => laws.EnSet True) fun _ => True :=
    (ReadsBack.triple_modifyOpControl fun _ => .inl (by decide)).conseq (fun _ h => h.2)
      (fun _ _ h => h)
      fun _ h => h
  simp only [bind_assoc]
  refine hands_chip hset fun _ => hands_waitOsc 41 fun stable => ?_
  cases stable with
  | false => exact hstall hc
  | true => exact hrun.weaken fun _ _ => trivial

/-- `gotoOff` does not clear `EN` before it hands over. -/
theorem hands_gotoOff :
    Hands (laws.EnSet c) (fun depth => gotoOff (depth + 1)) gotoIdle (laws.EnSet c) := by
  simp only [gotoOff, fieldPresent, bind_assoc, pure_bind]
  refine hands_setEmu_bind ?_
  refine hands_chip (ReadsBack.triple_command (by decide)) fun _ => ?_
  refine hands_chip (ReadsBack.triple_modifyOpControl fun hc => .inr ⟨hc, by decide⟩) fun _ => ?_
  refine hands_chip (ReadsBack.triple_modifyReg (by decide) _ _) fun _ => ?_
  refine hands_chip (ReadsBack.triple_command (by decide)) fun _ => ?_
  refine hands_chip (ReadsBack.triple_modifyReg (by decide) _ _) fun _ => ?_
  refine hands_chip ReadsBack.triple_clearIrq fun _ => ?_
  refine hands_chip (ReadsBack.triple_modifyReg (by decide) _ _) fun _ => ?_
  refine hands_chip (ReadsBack.triple_writeReg (by decide) _) fun _ => ?_
  refine hands_chip (ReadsBack.triple_readReg _) fun v => ?_
  refine .ite (fun _ => .self fun _ h => h) fun _ => ?_
  refine hands_chip (ReadsBack.triple_modifyOpControl fun hc => .inr ⟨hc, by decide⟩) fun _ => ?_
  refine hands_chip (ReadsBack.triple_modifyOpControl fun hc => .inr ⟨hc, by decide⟩) fun _ => ?_
  exact hands_setEmu

/-- `gotoIdle` hands over with `EN` set, and only if it was not set before. -/
theorem hands_gotoIdle (hstall : ¬c → ∀ nfc, laws.EnSet True nfc → C nfc) :
    Hands (laws.EnSet c) (fun depth => gotoIdle (depth + 1)) gotoOff C := by
  simp only [gotoIdle]
  refine hands_chip ReadsBack.triple_readOpControl fun v => ?_
  refine hands_oscillator ?_ fun hc => .self fun _ hen => hstall hc _ hen
  refine hands_chip (P := fun _ => True) (.any _) fun _ => ?_
  refine hands_getEmu_bind (P := fun _ => True) fun e => ?_
  refine .when (fun _ => ?_) fun _ => ?_
  · simp only [bind_assoc]
    iterate 4 refine hands_chip (P := fun _ => True) (.any _) fun _ => ?_
    exact hands_setEmu
  · iterate 2 refine hands_chip (P := fun _ => True) (.any _) fun _ => ?_
    exact hands_setEmu

/-! ## How deep -/

variable (laws)

theorem returns_gotoIdle_enSet : Prog.Returns Fits (fun t => laws.EnSet True t.nfc) gotoIdle 1 :=
  .call (hands_gotoIdle (C := fun _ => False) fun hnot => absurd trivial hnot) (.of_false 0)

theorem returns_gotoOff_enSet : Prog.Returns Fits (fun t => laws.EnSet True t.nfc) gotoOff 2 :=
  .call hands_gotoOff (returns_gotoIdle_enSet laws)

theorem returns_gotoIdle : Prog.Returns Fits (fun t => laws.EnSet False t.nfc) gotoIdle 3 :=
  .call (hands_gotoIdle (C := laws.EnSet True) fun _ _ hen => hen) (returns_gotoOff_enSet laws)

theorem returns_gotoOff : Prog.Returns Fits (fun t => laws.EnSet False t.nfc) gotoOff 4 :=
  .call hands_gotoOff (returns_gotoIdle laws)

variable {laws}

/-- The outcome of a call that returned: the stack sufficed, and success is `off` or `idle`. -/
structure Settled (r : Except (Fault (I2c.Error I)) Unit × Target I) : Prop where
  fits : r.1 ≠ .error .stack
  state : r.1 = .ok () → r.2.emu.state = .off ∨ r.2.emu.state = .idle

theorem settled_of_returns {n : Nat} {p : Nat → Emu I Unit} {t : Target I}
    (h : Prog.Returns Fits (fun t => laws.EnSet False t.nfc) p n)
    (hstate : Prog.Triple (fun _ => True) (p n) (fun _ t => t.emu.state = .off ∨
      t.emu.state = .idle)
      fun _ => True) :
    ∃ r, Settled r ∧ ∀ depth, n ≤ depth → p depth t = r := by
  obtain ⟨r, hfits, heq⟩ := h t False.elim
  refine ⟨r, ⟨hfits, fun hok => ?_⟩, heq⟩
  exact hstate.ok (s := t) (a := ()) trivial (by rw [heq n (Nat.le_refl n), ← hok])

/-- Four nested calls are enough for `gotoOff` and three for `gotoIdle`, whatever the state of the
emulator and the chip, and whatever is read about the field and the oscillator. -/
theorem goto_bounded (laws : ReadsBack I) (t : Target I) :
    (∃ r, Settled r ∧ ∀ depth, 4 ≤ depth → gotoOff depth t = r) ∧
      ∃ r, Settled r ∧ ∀ depth, 3 ≤ depth → gotoIdle depth t = r :=
  ⟨settled_of_returns (returns_gotoOff laws) (triple_goto 4).1,
    settled_of_returns (returns_gotoIdle laws) (triple_goto 3).2⟩

end Target

/-! ## A chip whose oscillator does not start -/

/-- It is in a field. -/
structure Stalled where
  opControl : UInt8

namespace Stalled

instance : I2c Stalled where
  Error := Empty
  write s _ bytes :=
    match bytes with
    | [r, v] => (.ok (), if r = reg.OP_CONTROL then ⟨v⟩ else s)
    | _ => (.ok (), s)
  writeRead s _ bytes n :=
    (.ok (.replicate n (if bytes = [0x40 ||| reg.OP_CONTROL] then s.opControl else 0x40)), s)
  transaction s _ _ := (.ok (), s)

def readsBack : ReadsBack Stalled where
  opControl := Stalled.opControl
  read h := by
    cases h
    rfl
  write h := by
    cases h
    rfl
  readRegs_keeps h := by
    cases h
    rfl
  writeReg_keeps hr h := by
    cases h
    simp [hr]
  command_keeps _ h := by
    cases h
    rfl

def target : Target Stalled := ⟨T2tEmulator.new (.replicate 7 0), { i2c := ⟨0⟩ }⟩

/-- All four calls happen. -/
theorem goto_bounded_stalled :
    (Target.gotoOff 3 target).1.isOk = false ∧
      ∀ depth, 4 ≤ depth → (Target.gotoOff depth target).2.emu.state = .idle := by
  refine ⟨by decide +kernel, fun depth hdepth => ?_⟩
  obtain ⟨r, -, heq⟩ := (Target.goto_bounded readsBack target).1
  rw [heq depth hdepth, ← heq 4 (Nat.le_refl 4)]
  decide +kernel

end Stalled

end PaperNamePlate
