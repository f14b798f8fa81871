import PaperNamePlate.Plate.Content

/-!
# The record parsers on a 32-bit `usize`

`record_at` and `first_record` are two copies of one parser. A build with overflow checks
stops at an addition that overflows, a release build wraps. The only addition that can
overflow is that of a long record's payload length to the offset of its payload.
-/
namespace PaperNamePlate

open Embedded Embedded.Ndef

/-! ## The two builds -/

/-- How a parser stops: with `None`, or at an addition that overflows. -/
inductive Stop
  | none | overflow
deriving DecidableEq, Repr

/-- The build profiles: only `dev` checks additions. -/
inductive Build
  | dev | release
deriving DecidableEq, Repr

/-- `a + b` on `usize`. -/
def Build.add : Build → Nat → Nat → Except Stop Nat
  | dev, a, b => if a + b < 2 ^ 32 then .ok (a + b) else .error .overflow
  | release, a, b => .ok (usizeAdd a b)

/-- `x?`. -/
def orStop {α : Type} : Option α → Except Stop α
  | some a => .ok a
  | none => .error .none

/-- The payload length of a short or a long record at `p`, and the offset after it. -/
def payloadLenIn (build : Build) (msg : List UInt8) (p : Nat) (sr : Bool) :
    Except Stop (Nat × Nat) :=
  if sr then do
    let l ← orStop msg[p]?
    let p ← build.add p 1
    pure (l.toNat, p)
  else do
    let stop ← build.add p 4
    let b ← orStop (slice? msg p stop)
    let p ← build.add p 4
    pure ((u32OfBe (b.getD 0 0) (b.getD 1 0) (b.getD 2 0) (b.getD 3 0)).toNat, p)

/-- The offset after an ID with its length at `p`. -/
def afterIdIn (build : Build) (msg : List UInt8) (p : Nat) (il : Bool) : Except Stop Nat :=
  if il then do
    let idl ← orStop msg[p]?
    let n ← build.add 1 idl.toNat
    build.add p n
  else pure p

/-- The last steps of `record_at`: the payload at `p`, and the offset after it. -/
def payloadIn (build : Build) (msg : List UInt8) (tnf : UInt8) (rtype : List UInt8) (p n : Nat) :
    Except Stop (Record × Nat) := do
  let stop ← build.add p n
  let payload ← orStop (slice? msg p stop)
  let next ← build.add p n
  pure (⟨tnf, rtype, payload⟩, next)

/-- Parse the record at byte offset `i`. -/
def recordAtIn (build : Build) (msg : List UInt8) (i : Nat) : Except Stop (Record × Nat) := do
  let hdr ← orStop msg[i]?
  let tnf := hdr &&& 0x07
  let sr := hdr &&& 0x10 ≠ 0
  let il := hdr &&& 0x08 ≠ 0
  let p ← build.add i 1
  let typeLen ← orStop msg[p]?
  let p ← build.add p 1
  let (payloadLen, p) ← payloadLenIn build msg p sr
  let p ← afterIdIn build msg p il
  let stop ← build.add p typeLen.toNat
  let rtype ← orStop (slice? msg p stop)
  let p ← build.add p typeLen.toNat
  payloadIn build msg tnf rtype p payloadLen

/-- Parse the first record. -/
def firstRecordIn (build : Build) (msg : List UInt8) : Except Stop Record :=
  match msg with
  | [] => .error .none
  | hdr :: _ => do
    let tnf := hdr &&& 0x07
    let sr := hdr &&& 0x10 ≠ 0
    let il := hdr &&& 0x08 ≠ 0
    let i := 1
    let typeLen ← orStop msg[i]?
    let i ← build.add i 1
    let (payloadLen, i) ← (if sr then do
        let l ← orStop msg[i]?
        let i ← build.add i 1
        pure (l.toNat, i)
      else do
        let stop ← build.add i 4
        let b ← orStop (slice? msg i stop)
        let i ← build.add i 4
        pure ((u32OfBe (b.getD 0 0) (b.getD 1 0) (b.getD 2 0) (b.getD 3 0)).toNat, i))
    let i ← (if il then do
        let idl ← orStop msg[i]?
        let n ← build.add 1 idl.toNat
        build.add i n
      else pure i)
    let stop ← build.add i typeLen.toNat
    let rtype ← orStop (slice? msg i stop)
    let i ← build.add i typeLen.toNat
    let stop ← build.add i payloadLen
    let payload ← orStop (slice? msg i stop)
    pure ⟨tnf, rtype, payload⟩

theorem payloadIn_fst (build : Build) (msg : List UInt8) (tnf : UInt8) (rtype : List UInt8)
    (p n : Nat) :
    Prod.fst <$> payloadIn build msg tnf rtype p n = (do
      let stop ← build.add p n
      let payload ← orStop (slice? msg p stop)
      pure ⟨tnf, rtype, payload⟩) := by
  unfold payloadIn
  rcases build.add p n with e | stop
  · rfl
  · change Prod.fst <$> (do
      let payload ← orStop (slice? msg p stop)
      pure (({ tnf, rtype, payload } : Record), stop)) = _
    change _ = (do
      let payload ← orStop (slice? msg p stop)
      pure ({ tnf, rtype, payload } : Record))
    rcases slice? msg p stop with _ | payload <;> rfl

/-- Both parsers are one: `record_at` at offset 0 without the next offset. -/
theorem firstRecordIn_eq (build : Build) (msg : List UInt8) :
    firstRecordIn build msg = Prod.fst <$> recordAtIn build msg 0 := by
  cases msg with
  | nil => rfl
  | cons hdr rest =>
    have hone : build.add 0 1 = .ok 1 := by cases build <;> rfl
    change _ = Prod.fst <$> (build.add 0 1 >>= _)
    simp only [map_bind, payloadIn_fst, hone, payloadLenIn, afterIdIn, decide_eq_true_eq]
    rfl

theorem Build.add_of_lt (build : Build) {a b : Nat} (h : a + b < 2 ^ 32) :
    build.add a b = .ok (a + b) := by
  cases build with
  | dev => exact if_pos h
  | release => exact congrArg Except.ok (usizeAdd_of_lt h)

theorem Build.add_bind {β : Type} (build : Build) {a b : Nat} (h : a + b < 2 ^ 32)
    (f : Nat → Except Stop β) :
    (build.add a b >>= f) = f (a + b) := by
  rw [build.add_of_lt h]
  rfl

theorem orStop_some_bind {α β : Type} {x : Option α} {a : α} (h : x = some a)
    (f : α → Except Stop β) :
    (orStop x >>= f) = f a := by
  rw [h]
  rfl

theorem orStop_bind {α β : Type} (x : Option α) (f : α → Option β) :
    orStop (x >>= f) = orStop x >>= fun a => orStop (f a) := by
  cases x <;> rfl

theorem length_slice?_four {msg b : List UInt8} {p : Nat}
    (h : slice? msg p (usizeAdd p 4) = some b) :
    b.length = 4 := by
  obtain ⟨hle, hin, rfl⟩ := slice?_eq_some h
  have hadd : usizeAdd p 4 = (p + 4) % 2 ^ 32 := rfl
  rw [List.length_take, List.length_drop]
  omega

theorem add_release (a b : Nat) : Build.release.add a b = pure (usizeAdd a b) := rfl

theorem payloadLenIn_release (msg : List UInt8) (p : Nat) (sr : Bool) :
    payloadLenIn .release msg p sr = orStop (payloadLenAt msg p sr) := by
  unfold payloadLenAt
  cases sr with
  | true =>
    change (orStop msg[p]? >>= _) = _
    rcases msg[p]? with _ | l <;> rfl
  | false =>
    change (orStop (slice? msg p (usizeAdd p 4)) >>= _) = _
    rcases hslice : slice? msg p (usizeAdd p 4) with _ | b
    · rfl
    · obtain ⟨b0, b1, b2, b3, rfl⟩ := List.length_eq_four.mp (length_slice?_four hslice)
      rfl

/-- What a release build computes is the parser of the model. -/
theorem recordAtIn_release (msg : List UInt8) (i : Nat) :
    recordAtIn .release msg i = orStop (recordAt msg i) := by
  unfold recordAtIn recordAt payloadIn afterIdIn
  simp only [orStop_bind, payloadLenIn_release, add_release, pure_bind, decide_eq_true_eq]
  refine bind_congr fun hdr => bind_congr fun typeLen => bind_congr fun q => ?_
  by_cases hid : hdr &&& 0x08 ≠ 0
  · rw [if_pos hid, if_pos hid]
    simp only [orStop_bind, bind_assoc, pure_bind]
    refine bind_congr fun idl => ?_
    have hidl := idl.toNat_lt
    rw [usizeAdd_of_lt (a := 1) (by omega)]
    rfl
  · rw [if_neg hid, if_neg hid]
    simp only [orStop_bind]
    rfl

/-! ## What a header describes -/

/-- The bytes of a record in front of its payload. The parsers expect the ID before the type. -/
structure Opening where
  head : Head
  id : List UInt8
  rtype : List UInt8
  id_length : id.length = head.idLen.toNat
  rtype_length : rtype.length = head.typeLen.toNat

def Opening.bytes (o : Opening) : List UInt8 := o.head.encode ++ o.id ++ o.rtype

theorem payloadLenIn_field (build : Build) (h : Head) {msg rest : List UInt8} {p : Nat}
    (hp : p ≤ msg.length) (hfits : p + h.lengthField.length < 2 ^ 32)
    (hdrop : msg.drop p = h.lengthField ++ rest) :
    payloadLenIn build msg p (h.flags &&& 0x10 ≠ 0) =
      .ok (h.payloadLen.toNat, p + h.lengthField.length) := by
  unfold Head.lengthField at hdrop hfits ⊢
  by_cases hs : h.flags &&& 0x10 ≠ 0
  · have hlt := h.short_lt hs
    have hlen : h.payloadLen.toUInt8.toNat = h.payloadLen.toNat := by
      rw [UInt32.toNat_toUInt8, Nat.mod_eq_of_lt hlt]
    rw [if_pos hs] at hdrop hfits ⊢
    rw [List.length_singleton] at hfits
    rw [payloadLenIn, if_pos (decide_eq_true hs), orStop_some_bind (getElem?_of_drop hdrop),
      build.add_bind hfits]
    exact congrArg (fun n => Except.ok (n, p + 1)) hlen
  · rw [if_neg hs] at hdrop hfits ⊢
    rw [length_u32ToBe] at hfits
    have hslice : slice? msg p (p + 4) = some (u32ToBe h.payloadLen) := slice?_of_drop hdrop hp
    rw [payloadLenIn, if_neg fun hd => hs (of_decide_eq_true hd), build.add_bind hfits,
      orStop_some_bind hslice, build.add_bind hfits]
    exact congrArg (fun n => Except.ok (UInt32.toNat n, p + 4)) (u32OfLe_toLe h.payloadLen)

theorem afterIdIn_field (build : Build) (h : Head) {msg rest : List UInt8} {p : Nat}
    (hfits : p + h.idField.length + h.idLen.toNat < 2 ^ 32)
    (hdrop : msg.drop p = h.idField ++ rest) :
    afterIdIn build msg p (h.flags &&& 0x08 ≠ 0) = .ok (p + h.idField.length + h.idLen.toNat) := by
  unfold Head.idField at hdrop hfits ⊢
  by_cases hid : h.flags &&& 0x08 ≠ 0
  · rw [if_pos hid] at hdrop hfits ⊢
    rw [List.length_singleton] at hfits
    rw [afterIdIn, if_pos (decide_eq_true hid), orStop_some_bind (getElem?_of_drop hdrop),
      build.add_bind (by omega), build.add_of_lt (by omega), Nat.add_assoc]
    rfl
  · rw [if_neg hid, h.idLen_eq (not_not.mp hid), afterIdIn,
      if_neg fun hd => hid (of_decide_eq_true hd)]
    rfl

theorem Opening.length_bytes (o : Opening) : o.bytes.length = 2 + o.head.lengthField.length +
    o.head.idField.length + o.head.idLen.toNat + o.head.typeLen.toNat := by
  simp only [Opening.bytes, Head.encode, List.length_append, List.length_cons, List.length_nil,
    o.id_length, o.rtype_length]

theorem Opening.end_le {o : Opening} {msg rest : List UInt8} {i : Nat}
    (h : msg.drop i = o.bytes ++ rest) :
    i + o.bytes.length ≤ msg.length := by
  refine le_of_drop h (Nat.le_of_not_lt fun hlt => ?_)
  rw [List.drop_eq_nil_of_le hlt.le] at h
  cases h

/-- On a complete opening the parser is left with the payload. -/
theorem recordAtIn_opening (build : Build) {msg rest : List UInt8} {i : Nat} (o : Opening)
    (hmsg : msg.length < 2 ^ 32) (h : msg.drop i = o.bytes ++ rest) :
    recordAtIn build msg i = payloadIn build msg (o.head.flags &&& 0x07) o.rtype
      (i + o.bytes.length)
      o.head.payloadLen.toNat := by
  have hend := o.end_le h
  have hbytes := o.length_bytes
  have h0 : msg.drop i =
      [o.head.flags] ++ (o.head.typeLen :: (o.head.lengthField ++ (o.head.idField ++
      (o.id ++ (o.rtype ++ rest))))) := by
    rw [h]
    simp [Opening.bytes, Head.encode]
  have h1 := drop_add_of_drop h0
  have h2 := drop_add_of_drop (h1.trans (List.singleton_append (x := o.head.typeLen)).symm)
  have h3 := drop_add_of_drop h2
  have h4 := drop_add_of_drop h3
  have h5 := drop_add_of_drop h4
  simp only [List.length_cons, List.length_nil, o.id_length] at h1 h2 h3 h4 h5
  have htype : i + 1 + 1 + o.head.lengthField.length + o.head.idField.length + o.head.idLen.toNat +
      o.head.typeLen.toNat = i + o.bytes.length := by omega
  have hslice := slice?_of_drop h5 (by omega)
  rw [o.rtype_length] at hslice
  unfold recordAtIn
  rw [orStop_some_bind (getElem?_of_drop h0)]
  dsimp only
  rw [build.add_bind (by omega), orStop_some_bind (getElem?_of_drop h1), build.add_bind (by omega),
    payloadLenIn_field build o.head (by omega) (by omega) h2]
  change (afterIdIn build msg (i + 1 + 1 + o.head.lengthField.length) _ >>= _) = _
  rw [afterIdIn_field build o.head (by omega) h3]
  change (build.add _ o.head.typeLen.toNat >>= _) = _
  rw [build.add_bind (by omega), orStop_some_bind hslice, build.add_bind (by omega), htype]

/-- A complete record is read back. -/
theorem recordAt_opening {msg payload rest : List UInt8} {i : Nat} (o : Opening)
    (hlen : o.head.payloadLen.toNat = payload.length) (hmsg : msg.length < 2 ^ 32)
    (h : msg.drop i = o.bytes ++ (payload ++ rest)) :
    recordAt msg i = some (⟨o.head.flags &&& 0x07, o.rtype, payload⟩,
      i + (o.bytes ++ payload).length) := by
  have hpayload := drop_add_of_drop h
  have hend := le_of_drop hpayload (o.end_le h)
  have hrun := recordAtIn_opening .release o hmsg h
  rw [payloadIn, hlen, Build.add_bind _ (by omega),
    orStop_some_bind (slice?_of_drop hpayload (o.end_le h)), Build.add_bind _ (by omega),
    recordAtIn_release] at hrun
  rw [List.length_append, ← Nat.add_assoc]
  rcases hrec : recordAt msg i with _ | r
  · rw [hrec] at hrun
    cases hrun
  · rw [hrec] at hrun
    exact congrArg some (Except.ok.inj hrun)

theorem of_orStop {α β : Type} {x : Option α} {f : α → Except Stop β}
    (h : (orStop x >>= f) ≠ .error .none) : ∃ a, x = some a ∧ f a ≠ .error .none := by
  cases x with
  | none => exact absurd rfl h
  | some a => exact ⟨a, rfl, h⟩

theorem drop_of_getElem? {msg : List UInt8} {p : Nat} {a : UInt8} (h : msg[p]? = some a) :
    msg.drop p = a :: msg.drop (p + 1) ∧ p + 1 ≤ msg.length := by
  obtain ⟨hp, rfl⟩ := List.getElem?_eq_some_iff.mp h
  exact ⟨List.drop_eq_getElem_cons hp, hp⟩

theorem drop_of_slice? {msg b : List UInt8} {p n : Nat} (h : slice? msg p (p + n) = some b) :
    msg.drop p = b ++ msg.drop (p + n) ∧ b.length = n ∧ p + n ≤ msg.length := by
  obtain ⟨-, hle, rfl⟩ := slice?_eq_some h
  rw [Nat.add_sub_cancel_left, ← List.drop_drop, List.take_append_drop, List.length_take,
    List.length_drop]
  exact ⟨rfl, by omega, hle⟩

theorem exists_lengthField {β : Type} {build : Build} {msg : List UInt8} {p : Nat} {flags : UInt8}
    {f : Nat × Nat → Except Stop β} (hmsg : msg.length < 2 ^ 31) (hp : p ≤ msg.length)
    (h : (payloadLenIn build msg p (flags &&& 0x10 ≠ 0) >>= f) ≠ .error .none) :
    ∃ n : UInt32, (flags &&& 0x10 ≠ 0 → n.toNat < 2 ^ 8) ∧
      ∃ rest, msg.drop p = (if flags &&& 0x10 ≠ 0 then [n.toUInt8] else u32ToBe n) ++ rest := by
  unfold payloadLenIn at h
  by_cases hs : flags &&& 0x10 ≠ 0
  · rw [if_pos (decide_eq_true hs), bind_assoc] at h
    obtain ⟨l, hl, -⟩ := of_orStop h
    have hlt := l.toNat_lt
    refine ⟨l.toUInt32, fun _ => by rwa [UInt8.toNat_toUInt32], msg.drop (p + 1), ?_⟩
    rw [if_pos hs, UInt8.toUInt8_toUInt32]
    exact (drop_of_getElem? hl).1
  · rw [if_neg fun hd => hs (of_decide_eq_true hd), build.add_bind (by omega), bind_assoc] at h
    obtain ⟨b, hb, -⟩ := of_orStop h
    obtain ⟨hdrop, hfour, -⟩ := drop_of_slice? hb
    obtain ⟨b0, b1, b2, b3, rfl⟩ := List.length_eq_four.mp hfour
    refine ⟨u32OfBe b0 b1 b2 b3, fun h => absurd h hs, msg.drop (p + 4), ?_⟩
    rw [if_neg hs, u32ToBe_ofBe]
    exact hdrop

theorem exists_idField {β : Type} {build : Build} {msg : List UInt8} {p : Nat} {flags : UInt8}
    {f : Nat → Except Stop β}
    (h : (afterIdIn build msg p (flags &&& 0x08 ≠ 0) >>= f) ≠ .error .none) :
    ∃ idLen : UInt8, (flags &&& 0x08 = 0 → idLen = 0) ∧
      ∃ rest, msg.drop p = (if flags &&& 0x08 ≠ 0 then [idLen] else []) ++ rest := by
  unfold afterIdIn at h
  by_cases hid : flags &&& 0x08 ≠ 0
  · rw [if_pos (decide_eq_true hid), bind_assoc] at h
    obtain ⟨idl, hidl, -⟩ := of_orStop h
    refine ⟨idl, fun h => absurd h hid, msg.drop (p + 1), ?_⟩
    rw [if_pos hid]
    exact (drop_of_getElem? hidl).1
  · refine ⟨0, fun _ => rfl, msg.drop p, ?_⟩
    rw [if_neg hid]
    rfl

/-- Where the parser does not stop with `None`, there is an opening. -/
theorem exists_opening {build : Build} {msg : List UInt8} {i : Nat} (hmsg : msg.length < 2 ^ 31)
    (h : recordAtIn build msg i ≠ .error .none) :
    ∃ (o : Opening) (rest : List UInt8), msg.drop i = o.bytes ++ rest := by
  unfold recordAtIn at h
  obtain ⟨flags, hflags, h⟩ := of_orStop h
  obtain ⟨h0, hi⟩ := drop_of_getElem? hflags
  rw [build.add_of_lt (by omega)] at h
  obtain ⟨typeLen, htypeLen, h⟩ := of_orStop h
  obtain ⟨h1, hi1⟩ := drop_of_getElem? htypeLen
  rw [build.add_of_lt (by omega)] at h
  change (payloadLenIn build msg (i + 1 + 1) _ >>= _) ≠ _ at h
  obtain ⟨payloadLen, hshort, rest, h2⟩ := exists_lengthField hmsg hi1 h
  let unnamed : Head := ⟨flags, typeLen, payloadLen, 0, hshort, fun _ => rfl⟩
  have hi2 : i + 1 + 1 + unnamed.lengthField.length ≤ msg.length := le_of_drop h2 hi1
  rw [payloadLenIn_field build unnamed hi1 (by omega) h2] at h
  change (afterIdIn build msg (i + 1 + 1 + unnamed.lengthField.length) _ >>= _) ≠ _ at h
  have h3 := drop_add_of_drop h2
  obtain ⟨idLen, hid, rest', h4⟩ := exists_idField h
  let head : Head := ⟨flags, typeLen, payloadLen, idLen, hshort, hid⟩
  have hi4 : i + 1 + 1 + unnamed.lengthField.length + head.idField.length ≤ msg.length :=
    le_of_drop h4 hi2
  have h5 := drop_add_of_drop h4
  have hidLen : head.idLen.toNat < 2 ^ 8 := idLen.toNat_lt
  rw [afterIdIn_field build head (by omega) h4] at h
  have htypeLen := typeLen.toNat_lt
  change (build.add (i + 1 + 1 + unnamed.lengthField.length + head.idField.length + idLen.toNat)
    typeLen.toNat >>= _) ≠ _ at h
  change idLen.toNat < 2 ^ 8 at hidLen
  change msg.drop (i + 1 + 1 + unnamed.lengthField.length + head.idField.length) = rest' at h5
  generalize i + 1 + 1 + unnamed.lengthField.length + head.idField.length = q at h hi4 h5
  rw [build.add_of_lt (by omega)] at h
  obtain ⟨rtype, hrtype, -⟩ := of_orStop h
  obtain ⟨h6, hrtypeLen, hi6⟩ : msg.drop (q + idLen.toNat) = rtype ++ msg.drop (q + idLen.toNat +
      typeLen.toNat) ∧ rtype.length = typeLen.toNat ∧
        q + idLen.toNat + typeLen.toNat ≤ msg.length :=
    drop_of_slice? hrtype
  obtain ⟨id, hidLength, hidRest⟩ : ∃ id : List UInt8, id.length = idLen.toNat ∧
      rest' = id ++ msg.drop (q + idLen.toNat) := by
    refine ⟨rest'.take idLen.toNat, ?_, ?_⟩
    · rw [List.length_take, ← h5, List.length_drop]
      omega
    · rw [← List.drop_drop, h5, List.take_append_drop]
  have hfields : rest = head.idField ++ rest' := h3.symm.trans h4
  refine ⟨⟨head, id, rtype, hidLength, hrtypeLen⟩, msg.drop (q + idLen.toNat + typeLen.toNat), ?_⟩
  rw [h0, h1, h2, hfields, hidRest, h6]
  simp [Opening.bytes, Head.encode, head, Head.lengthField, Head.idField]

/-- A record's payload length takes the offset after it past the end of `usize`. -/
def Overlong (msg : List UInt8) (i : Nat) : Prop :=
  ∃ o : Opening, o.bytes <+: msg.drop i ∧ 2 ^ 32 ≤ i + o.bytes.length + o.head.payloadLen.toNat

/-- Type and payload are the slices in front of `next` that the header at `i` describes. -/
def Described (msg : List UInt8) (i : Nat) (r : Record) (next : Nat) : Prop :=
  ∃ o : Opening, o.bytes ++ r.payload <+: msg.drop i ∧ next = i + (o.bytes ++ r.payload).length ∧
    r.tnf = o.head.flags &&& 0x07 ∧ r.rtype = o.rtype ∧ r.payload.length = o.head.payloadLen.toNat

theorem payloadIn_overflow_iff {msg rtype : List UInt8} {tnf : UInt8} {p n : Nat} :
    payloadIn .dev msg tnf rtype p n = .error .overflow ↔ 2 ^ 32 ≤ p + n := by
  unfold payloadIn
  by_cases h : p + n < 2 ^ 32
  · refine iff_of_false ?_ (Nat.not_le.mpr h)
    rw [Build.add_of_lt _ h]
    change (orStop (slice? msg p (p + n)) >>= _) ≠ _
    rcases slice? msg p (p + n) with _ | payload
    · intro h
      cases h
    · intro h
      cases h
  · refine iff_of_true ?_ (Nat.not_lt.mp h)
    rw [Build.add, if_neg h]
    rfl

theorem payloadIn_ok {build : Build} {msg rtype : List UInt8} {tnf : UInt8} {p n next : Nat}
    {r : Record} (hmsg : msg.length < 2 ^ 31) (hn : n < 2 ^ 32) (hp : p ≤ msg.length)
    (h : payloadIn build msg tnf rtype p n = .ok (r, next)) :
    r.tnf = tnf ∧ r.rtype = rtype ∧ slice? msg p (p + n) = some r.payload ∧ next = p + n := by
  have hadd : ∀ stop, build.add p n = .ok stop → stop = p + n ∨ stop < p := by
    intro stop hstop
    cases build with
    | dev =>
      by_cases hlt : p + n < 2 ^ 32
      · rw [Build.add_of_lt _ hlt] at hstop
        exact .inl (Except.ok.inj hstop).symm
      · rw [Build.add, if_neg hlt] at hstop
        cases hstop
    | release =>
      have hwrap : (p + n) % 2 ^ 32 = stop := Except.ok.inj hstop
      omega
  unfold payloadIn at h
  rcases hstop : build.add p n with e | stop
  · rw [hstop] at h
    cases h
  · rw [hstop] at h
    change (orStop (slice? msg p stop) >>= _) = _ at h
    rcases hslice : slice? msg p stop with _ | payload
    · rw [hslice] at h
      cases h
    · rw [hslice] at h
      obtain ⟨rfl, rfl⟩ := Prod.mk.inj (Except.ok.inj h)
      have hle := (slice?_eq_some hslice).1
      have hexact := (hadd _ hstop).resolve_right (Nat.not_lt.mpr hle)
      exact ⟨rfl, rfl, hexact ▸ hslice, hexact⟩

theorem overflow_iff {msg : List UInt8} (hmsg : msg.length < 2 ^ 31) (i : Nat) :
    recordAtIn .dev msg i = .error .overflow ↔ Overlong msg i := by
  constructor
  · intro h
    have hne : recordAtIn .dev msg i ≠ .error .none := by
      rw [h]
      decide
    obtain ⟨o, rest, hdrop⟩ := exists_opening hmsg hne
    rw [recordAtIn_opening .dev o (by omega) hdrop, payloadIn_overflow_iff] at h
    exact ⟨o, ⟨rest, hdrop.symm⟩, h⟩
  · rintro ⟨o, ⟨rest, hdrop⟩, hlong⟩
    rw [recordAtIn_opening .dev o (by omega) hdrop.symm, payloadIn_overflow_iff]
    exact hlong

theorem described_of_ok {build : Build} {msg : List UInt8} (hmsg : msg.length < 2 ^ 31)
    {i next : Nat} {r : Record} (h : recordAtIn build msg i = .ok (r, next)) :
    i < next ∧ next ≤ msg.length ∧ Described msg i r next := by
  have hne : recordAtIn build msg i ≠ .error .none := by
    rw [h]
    intro heq
    cases heq
  obtain ⟨o, rest, hdrop⟩ := exists_opening hmsg hne
  have hend := o.end_le hdrop
  rw [recordAtIn_opening build o (by omega) hdrop] at h
  obtain ⟨htnf, htype, hslice, rfl⟩ := payloadIn_ok hmsg o.head.payloadLen.toNat_lt hend h
  obtain ⟨hpayload, hlen, hle⟩ := drop_of_slice? hslice
  rw [drop_add_of_drop hdrop] at hpayload
  have hpos : 0 < o.bytes.length := Nat.succ_pos _
  have hpre : o.bytes ++ r.payload <+: msg.drop i := by
    rw [hdrop, hpayload, ← List.append_assoc]
    exact List.prefix_append _ _
  refine ⟨by omega, hle, o, hpre, ?_, htnf, htype, hlen⟩
  rw [List.length_append, hlen, Nat.add_assoc]

/-- A release build wraps there, to a slice that ends before it starts. -/
theorem recordAt_of_overlong {msg : List UInt8} (hmsg : msg.length < 2 ^ 31) {i : Nat}
    (h : Overlong msg i) : recordAt msg i = none := by
  obtain ⟨o, ⟨rest, hdrop⟩, hlong⟩ := h
  have hrun := recordAtIn_opening .release o (by omega) hdrop.symm
  rw [recordAtIn_release] at hrun
  rcases hrec : recordAt msg i with _ | ⟨r, next⟩
  · rfl
  · rw [hrec] at hrun
    have hin := (payloadIn_ok hmsg o.head.payloadLen.toNat_lt (o.end_le hdrop.symm) hrun.symm).2.2.1
    have hle := (slice?_eq_some hin).2.1
    omega

/-- No addition overflows, a record is what its header describes, and the two parsers agree. -/
structure ParsesSafely (msg : List UInt8) (i : Nat) : Prop where
  recordAt : recordAtIn .dev msg i ≠ .error .overflow
  firstRecord : firstRecordIn .dev msg ≠ .error .overflow
  described : ∀ build r next, recordAtIn build msg i = .ok (r, next) →
    i < next ∧ next ≤ msg.length ∧ Described msg i r next
  agree : ∀ build, firstRecordIn build msg = Prod.fst <$> recordAtIn build msg 0

theorem parses_safely_iff (msg : TargetSlice) (i : UInt32) :
    ParsesSafely msg.bytes i.toNat ↔ ¬ Overlong msg.bytes i.toNat ∧ ¬ Overlong msg.bytes 0 := by
  have hfirst : firstRecordIn .dev msg.bytes = .error .overflow ↔ Overlong msg.bytes 0 := by
    rw [firstRecordIn_eq, ← overflow_iff msg.size]
    rcases recordAtIn .dev msg.bytes 0 with e | q
    · exact ⟨fun h => congrArg Except.error (Except.error.inj h),
        fun h => congrArg Except.error (Except.error.inj h)⟩
    · exact iff_of_false (fun h => by cases h) (fun h => by cases h)
  rw [← overflow_iff msg.size, ← hfirst]
  constructor
  · intro h
    exact ⟨h.recordAt, h.firstRecord⟩
  · rintro ⟨hrecord, hfirst⟩
    exact ⟨hrecord, hfirst, fun _ _ _ => described_of_ok msg.size,
      fun build => firstRecordIn_eq build _⟩

/-- A long record without a type whose payload length is all ones. -/
theorem allOnes_overflows :
    ¬ ∀ (msg : TargetSlice) (i : UInt32), ParsesSafely msg.bytes i.toNat := by
  intro h
  exact (h ⟨[0x01, 0x00, 0xFF, 0xFF, 0xFF, 0xFF], by decide⟩ 0).recordAt (by decide)

end PaperNamePlate
