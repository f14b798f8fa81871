import PaperNamePlate.Nfc.T2tEmu

/-!
# The tag's memory and its dirty flag

The chip control leaves the memory and the flag alone; only WRITE changes them
during a poll, so a pending write stays pending until `update` reports it with the
end of the field. What `setNdef` stores is what `ndef` finds.
-/
namespace PaperNamePlate

open Embedded

namespace Target

variable {I : Type} [I2c I]

/-! ## Frames -/

/-- Memory and flag are untouched. -/
def SameTag (t t' : Target I) : Prop := t'.emu.memory = t.emu.memory ∧ t'.emu.dirty = t.emu.dirty

/-- A pending write stays pending. -/
def KeepsDirty (t t' : Target I) : Prop := t.emu.dirty = true → t'.emu.dirty = true

instance : IsPreorder (Target I) SameTag where
  refl _ := ⟨rfl, rfl⟩
  trans _ _ _ h h' := ⟨h'.1.trans h.1, h'.2.trans h.2⟩

instance : IsPreorder (Target I) KeepsDirty where
  refl _ h := h
  trans _ _ _ h h' hd := h' (h hd)

omit [I2c I] in
theorem SameTag.keepsDirty {t t' : Target I} (h : SameTag t t') : KeepsDirty t t' :=
  fun hd => h.2.trans hd

open Prog (Keeps)

theorem keeps_chip {α : Type} (p : St25r3916.Access I α) : Keeps SameTag (chip p) :=
  Keeps.mapError (Keeps.zoom (R := fun _ _ => True) (fun _ => trivial) fun _ _ _ => ⟨rfl, rfl⟩)

theorem keeps_setEmu {f : T2tEmulator → T2tEmulator}
    (h : ∀ e, (f e).memory = e.memory ∧ (f e).dirty = e.dirty) :
    Keeps SameTag (setEmu f : Emu I Unit) :=
  Keeps.modify fun t => h t.emu

theorem keeps_getEmu : Keeps SameTag (getEmu : Emu I T2tEmulator) :=
  Keeps.get.bind fun t => Keeps.pure t.emu

theorem keeps_fieldPresent : Keeps SameTag (fieldPresent : Emu I Bool) :=
  (keeps_chip _).bind fun _ => Keeps.pure _

theorem keeps_waitOsc (n : Nat) : Keeps SameTag (waitOsc n : Emu I Bool) := by
  induction n with
  | zero => exact (keeps_chip _).bind fun _ => Keeps.pure _
  | succ n ih => exact (keeps_chip _).bind fun _ => Keeps.ite ih (Keeps.pure _)

theorem keeps_goto (depth : Nat) :
    Keeps SameTag (gotoOff depth : Emu I Unit) ∧ Keeps SameTag (gotoIdle depth : Emu I Unit) := by
  induction depth with
  | zero => exact ⟨Keeps.throw _, Keeps.throw _⟩
  | succ depth ih =>
    constructor
    · unfold gotoOff
      refine Keeps.bind (keeps_setEmu ?_) fun _ => ?_
      · exact fun _ => ⟨rfl, rfl⟩
      iterate 8 refine (keeps_chip _).bind fun _ => ?_
      refine (keeps_fieldPresent (I := I)).bind fun _ => Keeps.ite ih.2 ?_
      iterate 2 refine (keeps_chip _).bind fun _ => ?_
      exact keeps_setEmu fun _ => ⟨rfl, rfl⟩
    · unfold gotoIdle
      refine (keeps_chip _).bind fun _ => Keeps.bind ?_ fun _ => Keeps.ite ih.1 ?_
      · exact Keeps.ite ((keeps_chip _).bind fun _ => keeps_waitOsc 41) (Keeps.pure _)
      · refine (keeps_chip _).bind fun _ => (keeps_getEmu (I := I)).bind fun _ =>
          Keeps.bind (Keeps.when ?_) fun _ => ?_
        · exact (keeps_chip _).bind fun _ => keeps_chip _
        · iterate 2 refine (keeps_chip _).bind fun _ => ?_
          exact keeps_setEmu fun _ => ⟨rfl, rfl⟩

theorem keeps_gotoOff (depth : Nat) : Keeps SameTag (gotoOff depth : Emu I Unit) :=
  (keeps_goto depth).1

theorem keeps_gotoIdle (depth : Nat) : Keeps SameTag (gotoIdle depth : Emu I Unit) :=
  (keeps_goto depth).2

theorem keeps_gotoReady (depth : Nat) : Keeps SameTag (gotoReady depth : Emu I Unit) := by
  refine (keeps_chip _).bind fun _ => Keeps.ite (keeps_gotoOff depth) ?_
  iterate 4 refine (keeps_chip _).bind fun _ => ?_
  exact keeps_setEmu fun _ => ⟨rfl, rfl⟩

theorem keeps_gotoActive : Keeps SameTag (gotoActive : Emu I Unit) := by
  iterate 2 refine (keeps_chip _).bind fun _ => ?_
  exact keeps_setEmu fun _ => ⟨rfl, rfl⟩

theorem keeps_gotoHalt (depth : Nat) : Keeps SameTag (gotoHalt depth : Emu I Unit) := by
  iterate 5 refine (keeps_chip _).bind fun _ => ?_
  exact keeps_fieldPresent.bind fun _ =>
    Keeps.ite (keeps_setEmu fun _ => ⟨rfl, rfl⟩) (keeps_gotoOff depth)

theorem keeps_readBitrate : Keeps SameTag (readBitrate : Emu I Unit) :=
  (keeps_chip _).bind fun _ => keeps_setEmu fun _ => ⟨rfl, rfl⟩

theorem keeps_backToListening (depth : Nat) : Keeps SameTag (backToListening depth : Emu I Unit) :=
  keeps_getEmu.bind fun _ => Keeps.ite (keeps_gotoHalt depth) (keeps_gotoIdle depth)

theorem keeps_stop : Keeps SameTag (stop : Emu I Unit) := by
  iterate 4 refine (keeps_chip _).bind fun _ => ?_
  exact keeps_setEmu fun _ => ⟨rfl, rfl⟩

theorem keeps_updateOff (depth : Nat) : Keeps SameTag (updateOff depth : Emu I Unit) := by
  refine (keeps_chip _).bind fun _ => Keeps.bind ?_ fun _ => Keeps.when ?_
  · exact Keeps.ite (Keeps.pure _) keeps_fieldPresent
  · refine Keeps.bind (keeps_setEmu ?_) fun _ => keeps_gotoIdle depth
    exact fun _ => ⟨rfl, rfl⟩

theorem keeps_updateIdle (depth : Nat) : Keeps SameTag (updateIdle depth : Emu I Unit) := by
  refine (keeps_chip _).bind fun _ => (Keeps.when keeps_readBitrate).bind fun _ =>
    (keeps_getEmu (I := I)).bind fun _ =>
      Keeps.ite (keeps_gotoOff depth) (Keeps.ite ?_ (Keeps.ite ?_ (Keeps.pure _)))
  · iterate 5 refine (keeps_chip _).bind fun _ => ?_
    exact Keeps.when (keeps_chip _)
  · refine (keeps_chip _).bind fun _ => Keeps.when ?_
    refine Keeps.bind (keeps_setEmu ?_) fun _ => keeps_gotoReady depth
    exact fun _ => ⟨rfl, rfl⟩

theorem keeps_updateReady (depth : Nat) : Keeps SameTag (updateReady depth : Emu I Unit) :=
  keeps_getEmu.bind fun _ => (keeps_chip _).bind fun _ =>
    Keeps.ite (keeps_gotoOff depth) (Keeps.ite keeps_gotoActive (Keeps.pure _))

/-! ## Commands and polls -/

omit [I2c I] in
theorem Keeps.sameTag {α ε : Type} {p : Prog (Target I) ε α} (h : Keeps SameTag p) :
    Keeps KeepsDirty p := fun t => (h t).keepsDirty

theorem keeps_nak : Keeps SameTag (nak : Emu I CmdResult) :=
  (keeps_chip _).bind fun _ => Keeps.pure _

theorem keeps_readPages (start : Nat) : Keeps SameTag (readPages start : Emu I CmdResult) :=
  Keeps.ite keeps_nak ((keeps_getEmu (I := I)).bind fun _ => (keeps_chip _).bind fun _ =>
    Keeps.pure _)

theorem keeps_fastRead (a b : Nat) : Keeps SameTag (fastRead a b : Emu I CmdResult) :=
  Keeps.ite keeps_nak ((keeps_getEmu (I := I)).bind fun _ => (keeps_chip _).bind fun _ =>
    Keeps.pure _)

theorem keeps_writePage (page : Nat) (b0 b1 b2 b3 : UInt8) :
    Keeps KeepsDirty (writePage page b0 b1 b2 b3 : Emu I CmdResult) := by
  unfold writePage
  split
  · refine Keeps.bind (Keeps.modify fun t hd => ?_) fun _ =>
      Keeps.bind (Keeps.sameTag (keeps_chip _)) fun _ => Keeps.pure _
    unfold storePage
    split <;> simp [hd]
  · exact Keeps.sameTag keeps_nak

theorem keeps_handleCommand (rx : List UInt8) :
    Keeps KeepsDirty (handleCommand rx : Emu I CmdResult) := by
  have hnak : Keeps KeepsDirty (nak : Emu I CmdResult) := Keeps.sameTag keeps_nak
  have hsend : ∀ data : List UInt8, Keeps KeepsDirty (do
      chip (St25r3916.targetTransmit data 0)
      pure .stay : Emu I CmdResult) :=
    fun _ => Keeps.sameTag ((keeps_chip _).bind fun _ => Keeps.pure _)
  unfold handleCommand
  cases rx with
  | nil => exact hnak
  | cons op args =>
    refine Keeps.ite ?_ (Keeps.ite ?_ (Keeps.ite ?_ (Keeps.ite (hsend _) (Keeps.ite (hsend _)
      (Keeps.ite (Keeps.pure _) hnak)))))
    · split
      · exact Keeps.sameTag (keeps_readPages _)
      · exact hnak
    · split
      · exact Keeps.sameTag (keeps_fastRead _ _)
      · exact hnak
    · split
      · exact keeps_writePage _ _ _ _ _
      · exact hnak

theorem keeps_updateActive (depth : Nat) : Keeps KeepsDirty (updateActive depth : Emu I Unit) := by
  have hchip : ∀ {α : Type} (p : St25r3916.Access I α), Keeps KeepsDirty (chip p) := fun p =>
    Keeps.sameTag (keeps_chip p)
  refine (hchip _).bind fun _ => Keeps.ite (Keeps.sameTag (keeps_gotoOff depth))
    (Keeps.ite ?_ (Keeps.pure _))
  refine (hchip _).bind fun _ => (hchip _).bind fun _ => Keeps.ite ?_ ?_
  · iterate 3 refine (hchip _).bind fun _ => ?_
    exact Keeps.sameTag (keeps_backToListening depth)
  · refine (hchip _).bind fun _ => Keeps.bind (Keeps.sameTag (keeps_setEmu ?_)) fun _ =>
      (keeps_handleCommand _).bind fun r => ?_
    · exact fun _ => ⟨rfl, rfl⟩
    · cases r with
      | stay => exact Keeps.pure _
      | halt => exact Keeps.sameTag (keeps_gotoHalt depth)
      | drop => exact Keeps.sameTag (keeps_backToListening depth)

theorem keeps_drive (depth : Nat) : Keeps KeepsDirty (drive depth : Emu I Unit) := by
  refine (Keeps.sameTag keeps_getEmu).bind fun e => ?_
  split
  · exact Keeps.sameTag (keeps_updateOff depth)
  · exact Keeps.sameTag (keeps_updateIdle depth)
  · exact Keeps.sameTag (keeps_updateIdle depth)
  · exact Keeps.sameTag (keeps_updateReady depth)
  · exact keeps_updateActive depth

/-- `update` drives the chip and then looks at the state. -/
theorem update_eq (depth : Nat) (t : Target I) : update depth t =
    match drive depth t with
    | (.error e, t') => (.error e, t')
    | (.ok (), t') =>
      if t.emu.state = .off ∧ t'.emu.state ≠ .off then (.ok .fieldOn, t')
      else if t'.emu.state = .off ∧ t.emu.state ≠ .off then
        (.ok (.fieldOff t'.emu.dirty), { t' with emu := { t'.emu with dirty := false } })
      else if t'.emu.state = .active ∧ t.emu.state ≠ .active then (.ok .selected, t')
      else (.ok .none, t') := by
  have hget : (getEmu : Emu I T2tEmulator) t = (.ok t.emu, t) := rfl
  simp only [update, bind, Prog.andThen, hget]
  rcases drive depth t with ⟨_ | ⟨⟩, t'⟩
  · rfl
  · have hget' : (getEmu : Emu I T2tEmulator) t' = (.ok t'.emu, t') := rfl
    simp only [hget']
    split_ifs <;> rfl

/-- A poll clears a pending write only together with the report of it. -/
theorem update_dirty (depth : Nat) (t : Target I) (hd : t.emu.dirty = true)
    (hd' : (update depth t).2.emu.dirty = false) : (update depth t).1 = .ok (.fieldOff true) := by
  have hkeep := keeps_drive depth t hd
  rw [update_eq] at hd' ⊢
  generalize drive depth t = r at hkeep hd' ⊢
  rcases r with ⟨_ | ⟨⟩, t'⟩
  · simp_all
  · dsimp only at hkeep hd' ⊢
    split at hd'
    · simp_all
    · next h1 =>
      split at hd'
      · next h2 => rw [if_neg h1, if_pos h2, hkeep]
      · split at hd' <;> simp_all

end Target

/-! ## The message in user memory -/

namespace T2tEmulator

/-- User memory, pages 4 to 225. -/
def user (e : T2tEmulator) : List UInt8 := e.memory.read (USER_FIRST_PAGE * 4) USER_BYTES

theorem setNdef_fits (e : T2tEmulator) {msg : List UInt8} (h : msg.length ≤ 883) :
    (e.setNdef msg).1 = true ∧
      (e.setNdef msg).2.user =
        ndefTlv msg ++ List.replicate (USER_BYTES - (ndefTlv msg).length) 0 := by
  have hnot : ¬ (if msg.length < 0xFF then 2 else 4) + msg.length + 1 > USER_BYTES := by
    have : USER_BYTES = 888 := rfl
    split <;> omega
  have hlen : (ndefTlv msg ++ List.replicate (USER_BYTES - (ndefTlv msg).length) 0).length =
      USER_BYTES := by
    rw [List.length_append, List.length_replicate, length_ndefTlv]
    omega
  unfold setNdef
  rw [dif_neg hnot]
  refine ⟨rfl, ?_⟩
  simp only [user, Block.write_write]
  exact Block.read_write _ _ _ _ _ hlen.symm

theorem setNdef_large (e : T2tEmulator) {msg : List UInt8} (h : 883 < msg.length) :
    e.setNdef msg = (false, e) := by
  have hbytes : USER_BYTES = 888 := rfl
  unfold setNdef
  rw [dif_pos]
  split <;> omega

theorem setNdef_dirty (e : T2tEmulator) (msg : List UInt8) : (e.setNdef msg).2.dirty = e.dirty := by
  unfold setNdef
  split_ifs <;> rfl

theorem ndef_eq (e : T2tEmulator) : e.ndef = ndefLoop e.user (e.user.length + 1) 0 := rfl

/-- A message that is found lies within the user area. -/
theorem length_ndefLoop_le {user msg : List UInt8} {n i : Nat} (h : ndefLoop user n i = some msg) :
    msg.length ≤ user.length := by
  induction n generalizing i with
  | zero => cases h
  | succ n ih =>
    have hvalue : ∀ (t : UInt8) (len hdr : Nat),
        ((slice? user (i + hdr) (i + hdr + len)).bind fun v =>
          if t = 3 then some v else ndefLoop user n (i + hdr + len)) = some msg →
        msg.length ≤ user.length := by
      intro t len hdr h
      obtain ⟨v, hv, h⟩ := Option.bind_eq_some_iff.mp h
      split at h
      · obtain ⟨-, -, rfl⟩ := slice?_eq_some hv
        rw [← Option.some.inj h, List.length_take, List.length_drop]
        omega
      · exact ih h
    simp only [ndefLoop, Option.bind_eq_bind, Option.bind_eq_some_iff] at h
    obtain ⟨t, -, h⟩ := h
    by_cases h0 : t = 0x00
    · rw [if_pos h0] at h
      exact ih h
    by_cases hfe : t = 0xFE
    · rw [if_neg h0, if_pos hfe] at h
      cases h
    rw [if_neg h0, if_neg hfe] at h
    obtain ⟨l, -, h⟩ := Option.bind_eq_some_iff.mp h
    split at h
    · obtain ⟨a, -, h⟩ := Option.bind_eq_some_iff.mp h
      obtain ⟨b, -, h⟩ := Option.bind_eq_some_iff.mp h
      exact hvalue t _ _ h
    · exact hvalue t _ _ h

theorem length_ndef_le {e : T2tEmulator} {msg : List UInt8} (h : e.ndef = some msg) :
    msg.length ≤ USER_BYTES := by
  have hlen := length_ndefLoop_le h
  rwa [Block.length_read _ _ _ (by decide)] at hlen

theorem ndefLoop_short {msg rest : List UInt8} (h : msg.length < 0xFF) (n : Nat) :
    ndefLoop ([0x03, UInt8.ofNat msg.length] ++ msg ++ rest) (n + 1) 0 = some msg := by
  have hl : (UInt8.ofNat msg.length).toNat = msg.length := by
    rw [UInt8.toNat_ofNat']; omega
  have hne : UInt8.ofNat msg.length ≠ 0xFF := by
    intro heq
    have : (0xFF : UInt8).toNat = 255 := rfl
    rw [heq] at hl
    omega
  have hget := slice?_append [0x03, UInt8.ofNat msg.length] msg rest 2 (2 + msg.length) rfl rfl
  simp only [List.cons_append, List.nil_append] at hget ⊢
  simp [ndefLoop, hne, hl, hget, -UInt8.toNat_ofNat']

theorem ndefLoop_long {msg rest : List UInt8} (h : msg.length < 2 ^ 16) (n : Nat) :
    ndefLoop ([0x03, 0xFF] ++ u16ToBe (UInt16.ofNat msg.length) ++ msg ++ rest) (n + 1) 0 =
      some msg := by
  have hl : (u16OfBe (UInt8.ofNat ((UInt16.ofNat msg.length).toNat / 2 ^ 8))
      (UInt8.ofNat (UInt16.ofNat msg.length).toNat)).toNat = msg.length := by
    rw [u16OfBe, u16OfLe_toLe, UInt16.toNat_ofNat']
    omega
  have hget := slice?_append ([0x03, 0xFF] ++ u16ToBe (UInt16.ofNat msg.length)) msg rest 4
    (4 + msg.length) rfl rfl
  simp only [u16ToBe, u16ToLe, List.reverse_cons, List.reverse_nil, List.cons_append,
    List.nil_append] at hl hget ⊢
  simp only [ndefLoop, List.getElem?_cons_zero, List.getElem?_cons_succ, Option.bind_eq_bind,
    Option.bind_some, hl, hget, Nat.zero_add]
  simp

/-- What is stored is found again. -/
theorem ndef_setNdef (e : T2tEmulator) {msg : List UInt8} (h : msg.length ≤ 883) :
    (e.setNdef msg).2.ndef = some msg := by
  rw [ndef_eq, (e.setNdef_fits h).2, ndefTlv]
  by_cases hs : msg.length < 0xFF
  · rw [if_pos hs, List.append_assoc]
    exact ndefLoop_short hs _
  · rw [if_neg hs, List.append_assoc]
    exact ndefLoop_long (by omega) _

end T2tEmulator

end PaperNamePlate
