import PaperNamePlate.Nfc.Collision

/-!
# Anticollision with a set of tags

Where the answers first differ the reader goes on with a one there. One collision inside a byte
is resolved; one at the end of a byte, and a second one, are not.
-/
namespace PaperNamePlate

open Embedded

/-- The answers are one, or their first difference is not the last bit of a byte and one answer
alone has a one there. -/
def OneCollision (tags : List CascadeAnswer) : Prop :=
  match firstDifference tags with
  | none => True
  | some q => q % 8 ≠ 7 ∧ ∀ a ∈ tags, ∀ b ∈ tags, a.bit q = true → b.bit q = true → a = b

instance (tags : List CascadeAnswer) : Decidable (OneCollision tags) := by
  unfold OneCollision
  cases firstDifference tags <;> infer_instance

namespace Coil

open St25r3916 Anticollision

theorem level_eq (s : St25r3916 Coil) (sel : UInt8) :
    nfcaAnticollisionLevel sel s = anticollisionRounds 32 (start sel) s := by
  unfold nfcaAnticollisionLevel
  have hwrite : writeReg reg.ISO14443A_NFC 0x01 s = (.ok (), s) := rfl
  rw [lift_bind_ok (setFwtMs_eq 8 s), lift_bind_ok hwrite, lift_bind_ok (setRxCrcCheck_eq true s)]

theorem returns_one (s : St25r3916 Coil) {t : CascadeAnswer} (ht : t ∈ s.i2c.tags)
    (hone : ∀ a ∈ s.i2c.tags, ∀ b ∈ s.i2c.tags, a = b) :
    (anticollisionRounds 32 (start s.i2c.sel) s).1 = .ok (some t.bytes) := by
  have hsends := (sends_start s.i2c).trans (receive_one rfl 0 ht hone)
  have hbytes : t.received 0 40 4 = t.bytes := by
    rw [CascadeAnswer.bytes_eq_packed]
    exact packed_congr fun i _ hi => by simp [show i < 40 by omega]
  have hround := round_one 31 (start s.i2c.sel) s (t := t) (p := 0) (by rw [hsends])
      (by rw [hsends])
    (Nat.le_refl 0) (by decide)
  rw [hround, hbytes]
  rfl

/-- The variables of the second round. -/
def second (sel : UInt8) (t : CascadeAnswer) (q : Nat) : Anticollision :=
  let a := afterFirst sel (packed t.bit 0 (q / 8)) (t.lowByte q) (q % 8)
  { a with rbuf := a.joined }

/-- The bits before the first difference and a one are sent, and the tags with a one answer. -/
theorem sends_second (c : Coil) {t : CascadeAnswer} {q : Nat} (hlt : q < 32) (h7 : q % 8 ≠ 7)
    (hsame : ∀ i < q, ∀ v ∈ c.tags, t.bit i = v.bit i) :
    c.sends (second c.sel t q) =
      (c.loaded (second c.sel t q)).receive (q + 1) (c.tags.filter fun v => v.bit q) := by
  have hpre : (packed t.bit 0 (q / 8)).length = q / 8 := length_packed ..
  have hframe : (second c.sel t q).sending =
      c.sel :: UInt8.ofNat (16 * (second c.sel t q).sbytes + (q % 8 + 1)) :: t.upTo q := by
    rw [CascadeAnswer.upTo_eq]
    exact sending_afterFirst c.sel (t.lowByte q) (by omega) (by omega)
  have hbytes : (second c.sel t q).sbytes = 2 + q / 8 := congrArg (2 + ·) hpre
  have hp : 8 * (second c.sel t q).sbytes + (q % 8 + 1) - 16 = q + 1 := by omega
  have hstarts :
      c.tags.filter (fun v => (List.range (q + 1)).all fun i => v.bit i == nthBit (t.upTo q) i) =
      c.tags.filter fun v => v.bit q :=
    List.filter_congr fun v hv => CascadeAnswer.starts_upTo fun i hi => hsame i hi v hv
  rw [sends_frame c (by omega) rfl (by omega) hframe, hp, hstarts]

/-- One tag has a one. -/
theorem second_round (n : Nat) (s : St25r3916 Coil) {t u : CascadeAnswer} {q : Nat} (hlt : q < 32)
    (h7 : q % 8 ≠ 7) (hu : u ∈ s.i2c.tags) (hbit : u.bit q = true)
    (hsame : ∀ i < q, ∀ v ∈ s.i2c.tags, t.bit i = v.bit i)
    (hone : ∀ v ∈ s.i2c.tags, v.bit q = true → v = u) :
    (anticollisionRounds (n + 1) (second s.i2c.sel t q) s).1 = .ok (some u.bytes) := by
  have hpre : (packed t.bit 0 (q / 8)).length = q / 8 := length_packed ..
  have honly : ∀ v ∈ s.i2c.tags.filter (fun v => v.bit q), v = u := by
    intro v hv
    obtain ⟨hv, hbit⟩ := List.mem_filter.mp hv
    exact hone v hv hbit
  have hanswer := (sends_second s.i2c hlt h7 hsame).trans
    (receive_one rfl (q + 1) (List.mem_filter.mpr ⟨hu, hbit⟩)
      fun a ha b hb => (honly a ha).trans (honly b hb).symm)
  rw [round_one n (second s.i2c.sel t q) s (p := q + 1) (by rw [hanswer]) (by rw [hanswer])
    (by change (packed t.bit 0 (q / 8)).length ≤ (q + 1) / 8; omega) (by omega)]
  have hjoined := CascadeAnswer.joined_eq_bytes s.i2c.sel hlt h7 (fun i hi => hsame i hi u hu) hbit
  exact congrArg (fun bs => Except.ok (some bs)) hjoined

/-- The first round, with a collision. -/
theorem first_collision (n : Nat) (s : St25r3916 Coil) {q : Nat}
    (hq : firstDifference s.i2c.tags = some q) (f : CascadeAnswer → Anticollision)
    (hnext : ∀ t, ((start s.i2c.sel).read (packed t.bit 0 (q / 8) ++ [t.lowByte q])).collided
      (q / 8 + 1) (UInt8.ofNat (16 * (2 + q / 8) + 2 * (q % 8))) = some (f t)) :
    ∃ t ∈ s.i2c.tags, ∃ s' : St25r3916 Coil, s'.i2c.sel = s.i2c.sel ∧ s'.i2c.tags = s.i2c.tags ∧
      anticollisionRounds (n + 1) (start s.i2c.sel) s =
        anticollisionRounds n { f t with rbuf := (f t).joined } s' := by
  have hlt := firstDifference_lt hq
  obtain ⟨t, ht, hreceive⟩ := receive_some (c := s.i2c.loaded (start s.i2c.sel)) rfl 0 hq
  have hsends := (sends_start s.i2c).trans hreceive
  have hlen : (t.received 0 q (q / 8)).length = q / 8 + 1 := by
    rw [t.received_eq q, List.length_append, length_packed, List.length_singleton]
  have hcollided := hnext t
  rw [← t.received_eq q, ← hlen] at hcollided
  have hroom : (t.received 0 q (q / 8)).length ≤ 5 := by omega
  obtain ⟨x, hround⟩ := round_collision n (start s.i2c.sel) s (by rw [hsends]) (by rw [hsends])
    (by rw [hsends]) (List.ne_nil_of_length_pos (by omega)) hroom hcollided
  refine ⟨t, ht, _, ?_, ?_, hround⟩
  · rw [hsends]
    rfl
  · rw [hsends]
    rfl

theorem first_round (n : Nat) (s : St25r3916 Coil) {q : Nat}
    (hq : firstDifference s.i2c.tags = some q) (h7 : q % 8 ≠ 7) :
    ∃ t ∈ s.i2c.tags, ∃ s' : St25r3916 Coil,
      s'.i2c.sel = s.i2c.sel ∧ s'.i2c.tags = s.i2c.tags ∧
      anticollisionRounds (n + 1) (start s.i2c.sel) s =
        anticollisionRounds n (second s.i2c.sel t q) s' := by
  have hlt := firstDifference_lt hq
  refine first_collision n s hq _ fun t => ?_
  have hpre : (packed t.bit 0 (q / 8)).length = q / 8 := length_packed ..
  have hnext := collided_first s.i2c.sel (t.lowByte q) (k := q % 8)
    (show (packed t.bit 0 (q / 8)).length ≤ 3 by omega) (by omega)
  rwa [hpre] at hnext

/-- After a collision in the last bit of a byte the reader has asked for the zero there, and stores
the rest of the answer over the byte. -/
theorem second_round_end (n : Nat) (s : St25r3916 Coil) {t v : CascadeAnswer} {q : Nat}
    (hlt : q < 32) (h7 : q % 8 = 7) (hv : v ∈ s.i2c.tags) (hbit : v.bit q = false)
    (hsame : ∀ i < q, ∀ u ∈ s.i2c.tags, t.bit i = u.bit i)
    (hone : ∀ u ∈ s.i2c.tags, u.bit q = false → u = v) :
    (anticollisionRounds (n + 1) (afterEnd s.i2c.sel (packed t.bit 0 (q / 8)) (t.lowByte q)) s).1 =
      .ok (some (packed v.bit 0 (q / 8) ++ packed v.bit (q / 8 + 1) (4 - q / 8) ++ [0])) := by
  generalize ha : afterEnd s.i2c.sel (packed t.bit 0 (q / 8)) (t.lowByte q) = a
  have hpre : (packed t.bit 0 (q / 8)).length = q / 8 := length_packed ..
  have hbytes : a.sbytes = 3 + q / 8 := by rw [← ha]; exact congrArg (3 + ·) hpre
  have hframe : a.sending = s.i2c.sel :: UInt8.ofNat (16 * a.sbytes + 0) :: t.received 0 q
      (q / 8) := by
    rw [hbytes, ← ha, sending_afterEnd, t.received_eq, hpre, Nat.add_zero]
  have hbits : a.sbits = UInt8.ofNat 0 := by rw [← ha]; rfl
  have hp : 8 * a.sbytes + 0 - 16 = q + 1 := by omega
  have hanswer := sends_frame s.i2c (by omega) hbits (by decide) hframe
  rw [hp] at hanswer
  have hstarts : ∀ u ∈ s.i2c.tags,
      ((List.range (q + 1)).all fun i => u.bit i == nthBit (t.received 0 q (q / 8)) i) = !u.bit q :=
    fun u hu => CascadeAnswer.starts_received h7 fun i hi => hsame i hi u hu
  have honly : ∀ u ∈ s.i2c.tags.filter (fun u =>
      (List.range (q + 1)).all fun i => u.bit i == nthBit (t.received 0 q (q / 8)) i), u = v := by
    intro u hu
    obtain ⟨hu, hall⟩ := List.mem_filter.mp hu
    exact hone u hu (by rw [hstarts u hu] at hall; simpa using hall)
  rw [receive_one rfl (q + 1) (List.mem_filter.mpr ⟨hv, by rw [hstarts v hv, hbit]; rfl⟩)
    fun x hx y hy => (honly x hx).trans (honly y hy).symm] at hanswer
  have hoffset : a.rbufOffset = q / 8 := by rw [← ha]; exact hpre
  rw [round_one n a s (t := v) (p := q + 1) (by rw [hanswer]) (by rw [hanswer])
    (by omega) (by omega)]
  have hrest : v.received (q + 1) 40 4 = packed v.bit (q / 8 + 1) (4 - q / 8) :=
    CascadeAnswer.received_after h7 hlt
  have hbefore : packed t.bit 0 (q / 8) = packed v.bit 0 (q / 8) :=
    packed_congr fun i _ hi => hsame i (by omega) v hv
  rw [hrest, ← ha, joined_afterEnd _ _ (by rw [length_packed, hpre]) (by omega), hbefore]

end Coil

open St25r3916 Anticollision Coil

/-- With at most one collision, which is not at the end of a byte, a tag is returned. -/
theorem anticollision_returns (s : St25r3916 Coil) (hne : s.i2c.tags ≠ [])
    (h : OneCollision s.i2c.tags) :
    ∃ t ∈ s.i2c.tags, (nfcaAnticollisionLevel s.i2c.sel s).1 = .ok (some t.bytes) := by
  rw [level_eq]
  unfold OneCollision at h
  cases hd : firstDifference s.i2c.tags with
  | none =>
    obtain ⟨t, ht⟩ := List.exists_mem_of_ne_nil _ hne
    exact ⟨t, ht, returns_one s ht (firstDifference_eq_none_iff.mp hd)⟩
  | some q =>
    rw [hd] at h
    obtain ⟨h7, hone⟩ := h
    obtain ⟨⟨a, ha, b, hb, hdiffer⟩, hsame⟩ := firstDifference_eq_some hd
    obtain ⟨u, hu, hbit⟩ : ∃ u ∈ s.i2c.tags, u.bit q = true := by
      cases hbit : a.bit q with
      | true => exact ⟨a, ha, hbit⟩
      | false => exact ⟨b, hb, by simpa [hbit] using hdiffer⟩
    obtain ⟨t, ht, s', hsel, htags, hround⟩ := first_round 31 s hd h7
    refine ⟨u, hu, ?_⟩
    rw [hround, ← hsel]
    exact second_round 30 s' (firstDifference_lt hd) h7 (htags ▸ hu) hbit
      (fun i hi v hv => hsame i hi t ht v (htags ▸ hv)) fun v hv hv' =>
        hone v (htags ▸ hv) u hu hv' hbit

/-- The driver of a chip in reset with these tags in its field. -/
def Coil.reset (sel : UInt8) (tags : List CascadeAnswer) : St25r3916 Coil :=
  ⟨⟨sel, tags, [], 0, 0, 0, fun _ => 0⟩, 0⟩

/-- Two tags that first differ in bit 4. -/
theorem anticollision_returns_two :
    ∃ t ∈ [CascadeAnswer.mk #v[0x01, 0x02, 0x03, 0x04],
        CascadeAnswer.mk #v[0x11, 0x02, 0x03, 0x04]],
      (nfcaAnticollisionLevel 0x93 (Coil.reset 0x93
        [CascadeAnswer.mk #v[0x01, 0x02, 0x03, 0x04],
          CascadeAnswer.mk #v[0x11, 0x02, 0x03, 0x04]])).1 =
        .ok (some t.bytes) :=
  anticollision_returns (Coil.reset 0x93
    [CascadeAnswer.mk #v[0x01, 0x02, 0x03, 0x04], CascadeAnswer.mk #v[0x11, 0x02, 0x03, 0x04]])
    (by decide) (by decide)

/-- Two tags that first differ in the last bit of a byte: the answer has lost that byte. -/
theorem anticollision_shifted :
    ¬ ∃ t ∈ [CascadeAnswer.mk #v[0x01, 0x02, 0x03, 0x04],
        CascadeAnswer.mk #v[0x81, 0x02, 0x03, 0x04]],
      (nfcaAnticollisionLevel 0x93 (Coil.reset 0x93
        [CascadeAnswer.mk #v[0x01, 0x02, 0x03, 0x04],
          CascadeAnswer.mk #v[0x81, 0x02, 0x03, 0x04]])).1 =
        .ok (some t.bytes) := by
  rintro ⟨t, ht, hret⟩
  have hrun : (nfcaAnticollisionLevel 0x93 (Coil.reset 0x93
      [CascadeAnswer.mk #v[0x01, 0x02, 0x03, 0x04],
        CascadeAnswer.mk #v[0x81, 0x02, 0x03, 0x04]])).1.toOption =
      some (some [0x02, 0x03, 0x04, 0x04, 0x00]) := by
    decide +kernel
  rw [hret] at hrun
  have hbytes : t.bytes = [0x02, 0x03, 0x04, 0x04, 0x00] := Option.some.inj (Option.some.inj hrun)
  rcases List.mem_pair.mp ht with rfl | rfl
  · exact absurd hbytes (by decide)
  · exact absurd hbytes (by decide)

/-! ## Collisions that are not resolved -/

section ByteEnd

variable {s : St25r3916 Coil} {q : Nat} {v : CascadeAnswer}

/-- Where the answers first differ in the last bit of a byte and one alone has a zero there, this
one is returned without the byte. -/
theorem level_byteEnd (hq : firstDifference s.i2c.tags = some q) (h7 : q % 8 = 7)
    (hv : v ∈ s.i2c.tags) (hbit : v.bit q = false)
    (hone : ∀ u ∈ s.i2c.tags, u.bit q = false → u = v) :
    (nfcaAnticollisionLevel s.i2c.sel s).1 = .ok (some (v.bytes.eraseIdx (q / 8) ++ [0])) := by
  have hlt := firstDifference_lt hq
  obtain ⟨-, hsame⟩ := firstDifference_eq_some hq
  obtain ⟨t, ht, s', hsel, htags, hround⟩ := first_collision 31 s hq
    (fun t => afterEnd s.i2c.sel (packed t.bit 0 (q / 8)) (t.lowByte q)) fun t => by
      have hpre : (packed t.bit 0 (q / 8)).length = q / 8 := length_packed ..
      have hend := collided_end s.i2c.sel (t.lowByte q)
        (show (packed t.bit 0 (q / 8)).length ≤ 3 by omega)
      rwa [hpre, ← h7] at hend
  have hkept : { afterEnd s.i2c.sel (packed t.bit 0 (q / 8)) (t.lowByte q) with
      rbuf := (afterEnd s.i2c.sel (packed t.bit 0 (q / 8)) (t.lowByte q)).joined } =
      afterEnd s.i2c.sel (packed t.bit 0 (q / 8)) (t.lowByte q) := rfl
  have hcount : 5 = q / 8 + (1 + (4 - q / 8)) := by omega
  have herased : v.bytes.eraseIdx (q / 8) = packed v.bit 0 (q / 8) ++ packed v.bit (q / 8 + 1)
      (4 - q / 8) := by
    rw [v.bytes_eq_packed, hcount, packed_add, packed_add, packed_one, Nat.zero_add,
      List.eraseIdx_append_of_length_le (by rw [length_packed]), length_packed, Nat.sub_self]
    rfl
  rw [level_eq, hround, hkept, ← hsel, second_round_end 30 s' hlt h7 (htags ▸ hv) hbit
    (fun i hi u hu => hsame i hi t ht u (htags ▸ hu)) fun u hu => hone u (htags ▸ hu), herased]

/-- This is the answer of no tag, unless the byte is zero: the check byte does not fit. -/
theorem level_byteEnd_ne (hq : firstDifference s.i2c.tags = some q) (h7 : q % 8 = 7)
    (hv : v ∈ s.i2c.tags) (hbit : v.bit q = false)
    (hone : ∀ u ∈ s.i2c.tags, u.bit q = false → u = v) (hbyte : v.bytes.getD (q / 8) 0 ≠ 0)
    (t : CascadeAnswer) :
    (nfcaAnticollisionLevel s.i2c.sel s).1 ≠ .ok (some t.bytes) := by
  rw [level_byteEnd hq h7 hv hbit hone]
  intro hret
  have hbytes : v.bytes.eraseIdx (q / 8) ++ [0] = t.bytes := Option.some.inj (Except.ok.inj hret)
  have hcheck := v.check_eraseIdx (show q / 8 < 4 by have := firstDifference_lt hq; omega)
  rw [hbytes, t.check_bytes] at hcheck
  exact hbyte hcheck.symm

end ByteEnd

theorem second_shape (sel : UInt8) (t : CascadeAnswer) {q : Nat} (hlt : q < 32) :
    (∃ x data, (second sel t q).frame = sel :: x :: data ∧ data.length = 5) ∧
      (second sel t q).rbuf.length = 5 ∧ (second sel t q).rbufOffset = q / 8 := by
  have hpre : (packed t.bit 0 (q / 8)).length = q / 8 := length_packed ..
  refine ⟨⟨_, _, rfl, by simp; omega⟩, ?_, hpre⟩
  change (joined _).length = 5
  unfold joined
  split <;> simp [afterFirst] <;> omega

/-- A second collision: nobody answers the frame after it if every tag has a one where the frame has
lost what was sent before. -/
theorem third_silent (n : Nat) (s : St25r3916 Coil) {t w : CascadeAnswer} {q q' : Nat}
    (h7 : q % 8 ≠ 7) (hlater : q < q') (hlt : q' < 32)
    (hsends : s.i2c.sends (second s.i2c.sel t q) = { s.i2c.loaded (second s.i2c.sel t q) with
      fifo := w.received (q + 1) q' (q' / 8)
      flags := 0x04
      collision := UInt8.ofNat (16 * (2 + q' / 8) + 2 * (q' % 8)) })
    (hlow : ∀ v ∈ s.i2c.tags, ∃ i, 8 * (q / 8) ≤ i ∧ i ≤ q ∧ v.bit i = true) :
    (anticollisionRounds (n + 2) (second s.i2c.sel t q) s).1 = .error .timeout := by
  obtain ⟨pre, low, hfifo, hlen, hclear⟩ := w.received_cut h7 hlater
  obtain ⟨⟨x, data, hframe, hdata⟩, hrbuf, hoffset⟩ :=
    second_shape s.i2c.sel t (show q < 32 by omega)
  have hplace : (second s.i2c.sel t q).rbufOffset + pre.length = q' / 8 := by omega
  have hcollided := collided_eq hframe hdata hrbuf pre low (by omega)
    (show q' % 8 < 8 by omega) rfl rfl
  have hreceived : (w.received (q + 1) q' (q' / 8)).length = pre.length + 1 := by rw [hfifo]; simp
  rw [hplace, ← hfifo, ← hreceived] at hcollided
  obtain ⟨a', hnext, hsbytes, hsbits, hframe'⟩ : ∃ a',
      ((second s.i2c.sel t q).read (w.received (q + 1) q' (q' / 8))).collided
        (w.received (q + 1) q' (q' / 8)).length (UInt8.ofNat (16 * (2 + q' / 8) + 2 * (q' % 8))) =
          some a' ∧
      a'.sbytes = 2 + q' / 8 + (if q' % 8 = 7 then 1 else 0) ∧
      a'.sbits = UInt8.ofNat ((q' % 8 + 1) % 8) ∧
      a'.frame = (s.i2c.sel :: ((UInt8.ofNat a'.sbytes <<< 4) ||| a'.sbits) ::
        splice data (q / 8) (w.received (q + 1) q' (q' / 8))).set a'.sbytes
          (low ||| (1 : UInt8) <<< UInt8.ofNat (q' % 8)) :=
    ⟨_, hcollided, rfl, rfl, by rw [← hoffset]⟩
  obtain ⟨y, hround⟩ :=
    round_collision (n + 1) (second s.i2c.sel t q) s (by rw [hsends]) (by rw [hsends])
    (by rw [hsends]) (List.ne_nil_of_length_pos (by omega)) (by omega) hnext
  have hsending := sending_next (a := { a' with rbuf := a'.joined }) (m := q' / 8) (k := q' % 8)
    (by omega) (by omega) hsbytes hsbits hframe'
  rw [hround, hsends]
  refine round_silent n _ _ (sends_nobody _ ?_ hsbits (Nat.mod_lt _ (by decide)) hsending ?_)
  · change a'.sbytes ≤ 6
    rw [hsbytes]
    split <;> omega
  · intro v hv
    obtain ⟨i, hfirst, hle, hbit⟩ := hlow v hv
    have hcleared := nthBit_next (m := q / 8) (k := q' % 8) hdata (by omega) (by omega) (by omega)
      (hclear (i - 8 * (q / 8)) (by omega)) fun hnil => by
        have hnone : pre.length = 0 := by rw [hnil]; rfl
        omega
    have hbit' : 8 * (q / 8) + (i - 8 * (q / 8)) = i := by omega
    have hindex : q' / 8 + (if q' % 8 = 7 then 1 else 0) = a'.sbytes - 2 := by
      rw [hsbytes, Nat.add_assoc, Nat.add_sub_cancel_left]
    rw [hbit', ← hfifo, ← hoffset, hplace, hoffset, hindex] at hcleared
    refine ⟨i, ?_, fun heq => ?_⟩
    · change i < 8 * a'.sbytes + (q' % 8 + 1) % 8 - 16
      rw [hsbytes]
      split <;> omega
    · rw [hbit] at heq
      exact absurd (heq.trans hcleared) (by decide)

/-- Where a second collision follows, and every tag has a one in the byte of the first collision,
there or before: the frame that goes out next has zeros there, so nobody answers it. -/
theorem level_twice {s : St25r3916 Coil} {q : Nat} {u v : CascadeAnswer}
    (hq : firstDifference s.i2c.tags = some q) (h7 : q % 8 ≠ 7) (hu : u ∈ s.i2c.tags)
    (hv : v ∈ s.i2c.tags) (hubit : u.bit q = true) (hvbit : v.bit q = true) (hne : u ≠ v)
    (hlow : ∀ w ∈ s.i2c.tags, ∃ i, 8 * (q / 8) ≤ i ∧ i ≤ q ∧ w.bit i = true) :
    (nfcaAnticollisionLevel s.i2c.sel s).1 = .error .timeout := by
  have hlt := firstDifference_lt hq
  obtain ⟨-, hsame⟩ := firstDifference_eq_some hq
  obtain ⟨t, ht, s', hsel, htags, hround⟩ := first_round 31 s hq h7
  rw [level_eq, hround, ← hsel]
  rw [← htags] at ht hu hv hlow hsame
  -- the tags with a one differ further on
  generalize hones : s'.i2c.tags.filter (fun v => v.bit q) = ones
  have hmem : ∀ w, w ∈ ones ↔ w ∈ s'.i2c.tags ∧ w.bit q = true := by
    intro w
    rw [← hones, List.mem_filter]
  obtain ⟨q', hq'⟩ : ∃ q', firstDifference ones = some q' := by
    cases hd : firstDifference ones with
    | some q' => exact ⟨q', rfl⟩
    | none =>
      exact absurd (firstDifference_eq_none_iff.mp hd u ((hmem u).mpr ⟨hu, hubit⟩) v
        ((hmem v).mpr ⟨hv, hvbit⟩)) hne
  have hlt' := firstDifference_lt hq'
  have hlater : q < q' := by
    obtain ⟨⟨a, ha, b, hb, hdiffer⟩, -⟩ := firstDifference_eq_some hq'
    obtain ⟨ha, habit⟩ := (hmem a).mp ha
    obtain ⟨hb, hbbit⟩ := (hmem b).mp hb
    by_contra hnot
    rcases Nat.lt_or_eq_of_le (Nat.le_of_not_lt hnot) with hbefore | rfl
    · exact hdiffer (hsame q' hbefore a ha b hb)
    · exact hdiffer (habit.trans hbbit.symm)
  obtain ⟨w, -, hreceive⟩ :=
    receive_some (c := s'.i2c.loaded (second s'.i2c.sel t q)) rfl (q + 1) hq'
  have hsends := sends_second s'.i2c hlt h7 fun i hi x hx => hsame i hi t ht x hx
  rw [hones, hreceive] at hsends
  exact third_silent 29 s' h7 hlater hlt' hsends hlow

end PaperNamePlate
