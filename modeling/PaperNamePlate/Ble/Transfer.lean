import PaperNamePlate.Lib.Window
import PaperNamePlate.Ble.ImgRx

/-!
# Transfers over the BLE receiver

A transfer in progress holds a prefix of what the client announced, whatever
packets are lost, repeated or sent out of order, so a commit finds either all of
the data or a shorter prefix. The packet counter behind the acknowledgements stays
below the window in every reachable state; a full window is acknowledged exactly
if it starts with the counter at zero or ends the transfer.
-/
namespace PaperNamePlate

open Embedded

namespace ImgRx

/-! ## What an operation can do -/

/-- An in-order packet that fits. -/
def accept (r : ImgRx) (payload : List UInt8) : ImgRx :=
  let r := { r with data := r.data ++ payload, nakSent := false, sinceAck := r.sinceAck + 1 }
  if r.sinceAck ≥ r.ackEvery ∨ r.data.length = r.expected then
    { r with sinceAck := 0, pendingNtf := true }
  else r

theorem push_cases (r : ImgRx) (d : List UInt8) :
    r.push d = r ∨
    (∃ o0 o1 payload, d = o0 :: o1 :: payload ∧ (u16OfLe o0 o1).toNat = r.data.length ∧
      r.data.length + payload.length ≤ r.expected ∧ r.push d = r.accept payload) ∨
    r.push d = { r with nakSent := true, sinceAck := 0, pendingNtf := true } := by
  unfold push
  split
  · exact .inl rfl
  · split
    · next o0 o1 payload _ =>
      dsimp only
      split
      · next h => exact .inr (.inl ⟨o0, o1, payload, rfl, h.1, h.2, rfl⟩)
      · split
        · exact .inr (.inr rfl)
        · exact .inl rfl
    · exact .inl rfl

/-- What a CTRL write can do; the last case covers STATUS and sleep-test requests and whatever is
ignored. -/
theorem ctrl_cases (r : ImgRx) (op : UInt8) (args : List UInt8) :
    (op = 0x11 ∧ args.length ≥ 9 ∧ r.ctrl (op :: args) = r.startContent args) ∨
    (op = 0x10 ∧ args.length ≥ 13 ∧ r.ctrl (op :: args) = r.startImage args) ∨
    (op = 0x02 ∧ r.ctrl (op :: args) = r.commit) ∨
    (op = 0x03 ∧ r.ctrl (op :: args) = { r.reset with pendingNtf := true }) ∨
    (op = 0x06 ∧ r.ctrl (op :: args) = { r with clearImageReq := true, pendingNtf := true }) ∨
    (¬ (op = 0x11 ∧ args.length ≥ 9) ∧ ¬ (op = 0x10 ∧ args.length ≥ 13) ∧ op ≠ 0x03 ∧
      ∃ ntf doze, r.ctrl (op :: args) = { r with pendingNtf := ntf, dozeTestReq := doze }) := by
  by_cases h11 : op = 0x11 ∧ args.length ≥ 9
  · exact .inl ⟨h11.1, h11.2, by simp [ctrl, h11]⟩
  by_cases h10 : op = 0x10 ∧ args.length ≥ 13
  · exact .inr (.inl ⟨h10.1, h10.2, by simp [ctrl, h10]⟩)
  by_cases h02 : op = 0x02
  · exact .inr (.inr (.inl ⟨h02, by simp [ctrl, h02]⟩))
  by_cases h03 : op = 0x03
  · exact .inr (.inr (.inr (.inl ⟨h03, by simp [ctrl, h03]⟩)))
  by_cases h06 : op = 0x06
  · exact .inr (.inr (.inr (.inr (.inl ⟨h06, by simp [ctrl, h06]⟩))))
  refine .inr (.inr (.inr (.inr (.inr ⟨h11, h10, h03, ?_⟩))))
  by_cases h04 : op = 0x04
  · exact ⟨true, r.dozeTestReq, by simp [ctrl, h04]⟩
  by_cases h05 : op = 0x05
  · exact ⟨r.pendingNtf, true, by simp [ctrl, h05]⟩
  · exact ⟨r.pendingNtf, r.dozeTestReq, by simp [ctrl, h11, h10, h02, h03, h04, h05, h06]⟩

theorem push_accept {r : ImgRx} {o0 o1 : UInt8} {payload : List UInt8} (hr : r.state = .receiving)
    (hne : payload ≠ []) (hoff : (u16OfLe o0 o1).toNat = r.data.length)
    (hfit : r.data.length + payload.length ≤ r.expected) :
    r.push (o0 :: o1 :: payload) = r.accept payload := by
  have hpos := List.length_pos_iff.mpr hne
  have hlen : ¬ payload.length + 1 + 1 < 3 := by omega
  simp [push, receiving, hr, hlen, hoff, hfit, accept]

/-! ## The announced transfer -/

/-- A transfer of `bs` with all that it was started with; nothing waits to be applied. -/
structure Transferring (r : ImgRx) (bs : List UInt8) (kind : RxKind) (w h : UInt16) : Prop where
  state : r.state = .receiving
  kind : r.kind = kind
  width : r.width = w
  height : r.height = h
  expected : r.expected = bs.length
  crc : r.crc = crc32 bs
  data : r.data <+: bs
  done : r.done = none
  doneContent : r.doneContent = none

/-- The two START messages: what is announced about `bs`. -/
inductive Start
  | image (w h : UInt16)
  | content

def Start.message (bs : List UInt8) (ack : UInt8) : Start → List UInt8
  | .image w h =>
    0x10 :: (u16ToLe w ++ u16ToLe h ++ u32ToLe (UInt32.ofNat bs.length) ++
      u32ToLe (crc32 bs) ++ [ack])
  | .content => 0x11 :: (u32ToLe (UInt32.ofNat bs.length) ++ u32ToLe (crc32 bs) ++ [ack])

/-- The announcements that the receiver takes. -/
def Start.Valid (bs : List UInt8) : Start → Prop
  | .image w h => w ≠ 0 ∧ h ≠ 0 ∧ w ≤ 480 ∧ h ≤ 800 ∧ bs.length = (w.toNat + 7) / 8 * h.toNat
  | .content => bs.length ≠ 0 ∧ bs.length ≤ MAX_CONTENT_BYTES

def Start.kind : Start → RxKind
  | .image _ _ => .image
  | .content => .content

def Start.width : Start → UInt16
  | .image w _ => w
  | .content => 0

def Start.height : Start → UInt16
  | .image _ h => h
  | .content => 0

theorem imageBytes_le {w h : UInt16} (hw : w ≤ 480) (hh : h ≤ 800) :
    (w.toNat + 7) / 8 * h.toNat ≤ MAX_IMAGE_BYTES := by
  have hw' : w.toNat ≤ 480 := UInt16.le_iff_toNat_le.mp hw
  have hh' : h.toNat ≤ 800 := UInt16.le_iff_toNat_le.mp hh
  have hrow : (w.toNat + 7) / 8 ≤ 60 := by omega
  calc (w.toNat + 7) / 8 * h.toNat ≤ 60 * 800 := Nat.mul_le_mul hrow hh'
    _ = MAX_IMAGE_BYTES := rfl

theorem ctrl_start (r : ImgRx) (bs : List UInt8) (st : Start) (hv : st.Valid bs) (ack : UInt8)
    (rest : List UInt8) :
    (r.ctrl (st.message bs ack ++ rest)).Transferring bs st.kind st.width st.height := by
  have hlen : bs.length ≤ MAX_IMAGE_BYTES → (UInt32.ofNat bs.length).toNat = bs.length := by
    intro hle
    have : bs.length ≤ 48000 := hle
    rw [UInt32.toNat_ofNat']
    omega
  cases st with
  | image w h =>
    obtain ⟨hw, hh, hw', hh', hbytes⟩ := hv
    have hle : bs.length ≤ MAX_IMAGE_BYTES := hbytes ▸ imageBytes_le hw' hh'
    have hctrl : r.ctrl ((Start.image w h).message bs ack ++ rest) =
        r.startImage ((u16ToLe w ++ u16ToLe h ++ u32ToLe (UInt32.ofNat bs.length) ++
          u32ToLe (crc32 bs) ++ [ack]) ++ rest) := by
      simp only [ctrl, Start.message, List.cons_append]
      rw [if_neg (by simp), if_pos (by simp; omega)]
    rw [hctrl]
    simp only [startImage, u16ToLe, u32ToLe, List.cons_append, List.nil_append, u16OfLe_toLe,
      u32OfLe_toLe]
    rw [hlen hle]
    have hok : ¬ (w = 0 ∨ h = 0 ∨ w > 480 ∨ h > 800 ∨ bs.length ≠ (w.toNat + 7) / 8 * h.toNat ∨
        bs.length > MAX_IMAGE_BYTES) := by
      rintro (hc | hc | hc | hc | hc | hc)
      · exact hw hc
      · exact hh hc
      · exact absurd hw' (UInt16.not_le.mpr hc)
      · exact absurd hh' (UInt16.not_le.mpr hc)
      · exact hc hbytes
      · omega
    rw [if_neg hok]
    exact ⟨rfl, rfl, rfl, rfl, rfl, rfl, List.nil_prefix, rfl, rfl⟩
  | content =>
    obtain ⟨hne, hle⟩ := hv
    have hctrl : r.ctrl (Start.content.message bs ack ++ rest) =
        r.startContent ((u32ToLe (UInt32.ofNat bs.length) ++ u32ToLe (crc32 bs) ++ [ack]) ++
          rest) := by
      simp only [ctrl, Start.message, List.cons_append]
      rw [if_pos (by simp; omega)]
    rw [hctrl]
    simp only [startContent, u32ToLe, List.cons_append, List.nil_append, u32OfLe_toLe]
    rw [hlen (hle.trans (by decide)), if_neg (by omega)]
    exact ⟨rfl, rfl, rfl, rfl, rfl, rfl, List.nil_prefix, rfl, rfl⟩

/-- What the client sends during a transfer of `bs`, in any order and any number, and what the
session does meanwhile. -/
inductive SentOp
  | packet (off : UInt16) (n : Nat)
  | request (op : UInt8) (known : op = 0x04 ∨ op = 0x05 ∨ op = 0x06) (rest : List UInt8)
  | subscribe (on : Bool)
  | read
  | takeNotification
  | takeImage
  | takeText
  | takeClear

def SentOp.toRxOp (bs : List UInt8) : SentOp → RxOp
  | .packet off n => .gatt (.data (u16ToLe off ++ segment bs off.toNat n))
  | .request op _ rest => .gatt (.ctrl (op :: rest))
  | .subscribe on => .gatt (.subscribe on)
  | .read => .gatt .read
  | .takeNotification => .takeNotification
  | .takeImage => .takeImage
  | .takeText => .takeText
  | .takeClear => .takeClear

variable {bs : List UInt8} {kind : RxKind} {w h : UInt16}

theorem Transferring.accept {r : ImgRx} (ht : r.Transferring bs kind w h) {payload : List UInt8}
    (hpre : r.data ++ payload <+: bs) : (r.accept payload).Transferring bs kind w h := by
  obtain ⟨h1, h2, h3, h4, h5, h6, -, h8, h9⟩ := ht
  unfold ImgRx.accept
  dsimp only
  split
  · exact ⟨h1, h2, h3, h4, h5, h6, hpre, h8, h9⟩
  · exact ⟨h1, h2, h3, h4, h5, h6, hpre, h8, h9⟩

theorem Transferring.push {r : ImgRx} (ht : r.Transferring bs kind w h) (off : UInt16) (n : Nat) :
    (r.push (u16ToLe off ++ segment bs off.toNat n)).Transferring bs kind w h := by
  rcases r.push_cases (u16ToLe off ++ segment bs off.toNat n) with
    heq | ⟨o0, o1, payload, hd, hoff, -, heq⟩ | heq
  · rwa [heq]
  · rw [heq]
    simp only [u16ToLe, List.cons_append, List.nil_append, List.cons.injEq] at hd
    obtain ⟨rfl, rfl, rfl⟩ := hd
    rw [u16OfLe_toLe] at hoff
    rw [hoff]
    exact ht.accept (append_segment_isPrefix ht.data n)
  · rw [heq]
    obtain ⟨h1, h2, h3, h4, h5, h6, h7, h8, h9⟩ := ht
    exact ⟨h1, h2, h3, h4, h5, h6, h7, h8, h9⟩

theorem takeImage_of_none {r : ImgRx} (h : r.done = none) : r.takeImage = (none, r) := by
  have hr : { r with done := none } = r := by rw [← h]
  simp [takeImage, h, hr]

theorem takeText_of_none {r : ImgRx} (h : r.doneContent = none) : r.takeText = (none, r) := by
  have hr : { r with doneContent := none } = r := by rw [← h]
  simp [takeText, h, hr]

theorem takeImage_cases (r : ImgRx) :
    r.takeImage = (none, r) ∨ ∃ img, r.done = some img ∧ r.pendingNtf = false ∧
      r.takeImage = (some img, { r with done := none }) := by
  cases hdone : r.done with
  | none => exact .inl (takeImage_of_none hdone)
  | some img =>
    by_cases hp : r.pendingNtf = true
    · exact .inl (by simp [takeImage, hp])
    · exact .inr ⟨img, rfl, by simpa using hp, by simp [takeImage, hp, hdone]⟩

theorem takeText_cases (r : ImgRx) :
    r.takeText = (none, r) ∨ ∃ text, r.doneContent = some text ∧ r.pendingNtf = false ∧
      r.takeText = (some text, { r with doneContent := none }) := by
  cases hdone : r.doneContent with
  | none => exact .inl (takeText_of_none hdone)
  | some text =>
    by_cases hp : r.pendingNtf = true
    · exact .inl (by simp [takeText, hp])
    · exact .inr ⟨text, rfl, by simpa using hp, by simp [takeText, hp, hdone]⟩

/-- Nothing that happens during a transfer takes what it was started with or breaks the prefix. -/
theorem Transferring.step {r : ImgRx} (ht : r.Transferring bs kind w h) (op : SentOp) :
    (r.step (op.toRxOp bs)).Transferring bs kind w h := by
  obtain ⟨h1, h2, h3, h4, h5, h6, h7, h8, h9⟩ := id ht
  cases op with
  | packet off n => exact ht.push off n
  | request op known rest =>
    rcases known with rfl | rfl | rfl <;> exact ⟨h1, h2, h3, h4, h5, h6, h7, h8, h9⟩
  | subscribe on => exact ⟨h1, h2, h3, h4, h5, h6, h7, h8, h9⟩
  | read => exact ht
  | takeNotification =>
    simp only [SentOp.toRxOp, ImgRx.step, ImgRx.takeNotification]
    split
    · exact ht
    · exact ⟨h1, h2, h3, h4, h5, h6, h7, h8, h9⟩
  | takeImage => simpa only [SentOp.toRxOp, ImgRx.step, takeImage_of_none h8] using ht
  | takeText => simpa only [SentOp.toRxOp, ImgRx.step, takeText_of_none h9] using ht
  | takeClear =>
    simp only [SentOp.toRxOp, ImgRx.step, ImgRx.takeClear]
    split
    · exact ⟨h1, h2, h3, h4, h5, h6, h7, h8, h9⟩
    · exact ht

/-! ## The commit -/

/-- The outcome of a commit with all of `bs` received. -/
def Start.Committed (bs : List UInt8) (e : ImgRx) : Start → Prop
  | .image w h => e.state = .committed ∧ e.done = some ⟨w, h, bs⟩
  | .content =>
    match PlateContent.validatePlain (lossy bs) with
    | .ok _ => e.state = .committed ∧ e.doneContent = some bs
    | .error _ => e.state = .rejected ∧ e.doneContent = none

theorem Transferring.commit {r : ImgRx} {st : Start}
    (ht : r.Transferring bs st.kind st.width st.height) :
    r.commit.pendingNtf = true ∧ (r.data ≠ bs → r.commit.state = .incomplete) ∧
      (r.data = bs → st.Committed bs r.commit) := by
  obtain ⟨h1, h2, h3, h4, h5, h6, h7, h8, h9⟩ := ht
  refine ⟨rfl, ?_, ?_⟩
  · intro hne
    have hlen : r.data.length ≠ r.expected := fun hl => hne (h7.eq_of_length (hl.trans h5))
    simp [ImgRx.commit, receiving, h1, hlen]
  · intro heq
    cases st with
    | image w h =>
      have hkind : r.kind ≠ .content := by rw [h2]; simp [Start.kind]
      simp only [Start.width, Start.height] at h3 h4
      simp [ImgRx.commit, receiving, h1, h5, h6, hkind, Start.Committed, h3, h4, heq]
    | content =>
      have hkind : r.kind = .content := h2
      simp only [ImgRx.commit, receiving, h1, h5, h6, hkind, Start.Committed, heq]
      cases PlateContent.validatePlain (lossy bs) <;> simp [h9]

/-- A committed transfer is exactly what was sent: whatever packets of `bs` arrive after its START,
in whatever order and with whatever requests in between, the data is always a prefix of `bs`, and
the commit reports missing data or hands over `bs` itself. -/
theorem transfer_faithful (bs : List UInt8) (st : Start) (hv : st.Valid bs) (ack : UInt8)
    (rest rest' : List UInt8) (r : ImgRx) (ops : List SentOp) :
    let started := r.ctrl (st.message bs ack ++ rest)
    let received := run ImgRx.step started (ops.map (SentOp.toRxOp bs))
    let e := received.ctrl (0x02 :: rest')
    Always ImgRx.step (fun r => r.data <+: bs) started (ops.map (SentOp.toRxOp bs)) ∧
      e.pendingNtf = true ∧ e.state ≠ .crcError ∧
      ((received.data ≠ bs ∧ e.state = .incomplete) ∨
        (received.data = bs ∧ st.Committed bs e)) := by
  intro started received e
  have hrun : Always ImgRx.step (fun r => r.Transferring bs st.kind st.width st.height) started
      (ops.map (SentOp.toRxOp bs)) := by
    refine always_of_step (C := fun _ i => ∃ op : SentOp, op.toRxOp bs = i) ?_
      (ctrl_start r bs st hv ack rest) ?_
    · rintro r _ hr ⟨op, rfl⟩
      exact hr.step op
    · rw [eachStep_iff_forall]
      intro i hi
      obtain ⟨op, -, hop⟩ := List.mem_map.mp hi
      exact ⟨op, hop⟩
  have hlast : received.Transferring bs st.kind st.width st.height := hrun.last
  have he : e = received.commit := rfl
  obtain ⟨hntf, hinc, hcom⟩ := hlast.commit
  refine ⟨hrun.mono fun r hr => hr.data, hntf, ?_, ?_⟩
  · rw [he]
    by_cases heq : received.data = bs
    · have hc := hcom heq
      cases st with
      | image w h => rw [hc.1]; decide
      | content =>
        simp only [Start.Committed] at hc
        split at hc <;> (rw [hc.1]; decide)
    · rw [hinc heq]; decide
  · by_cases heq : received.data = bs
    · exact .inr ⟨heq, hcom heq⟩
    · exact .inl ⟨heq, hinc heq⟩

theorem transfer_faithful_square :
    let ops :=
  [.packet 1 1, .packet 0 1, .takeNotification, .request 0x04 (.inl rfl) [], .packet 1 1]
    let started := ctrl {} (Start.message [0x80, 0x01] 0 (.image 8 2) ++ [])
    Start.Committed [0x80, 0x01]
      ((run step started (ops.map (SentOp.toRxOp [0x80, 0x01]))).ctrl [0x02]) (.image 8 2) := by
  intro ops started
  have hv : Start.Valid [0x80, 0x01] (.image 8 2) := by
    refine ⟨?_, ?_, ?_, ?_, ?_⟩ <;> decide
  obtain ⟨-, -, -, ⟨hne, -⟩ | ⟨-, hcom⟩⟩ :=
    transfer_faithful [0x80, 0x01] (.image 8 2) hv 0 [] [] {} ops
  · exact absurd (by decide +kernel) hne
  · exact hcom

/-! ## The packet counter -/

/-- What holds of a transfer in progress. -/
structure Counting (r : ImgRx) : Prop where
  sinceAck_lt : r.sinceAck.toNat < r.ackEvery.toNat
  data_le : r.data.length ≤ r.expected
  expected_le : r.expected ≤ MAX_IMAGE_BYTES
  done : r.done = none
  doneContent : r.doneContent = none

def Valid (r : ImgRx) : Prop := r.state = .receiving → r.Counting

theorem valid_of_not_receiving {r : ImgRx} (h : r.state ≠ .receiving) : r.Valid :=
  fun hr => absurd hr h

/-- The invariant looks at these fields only. -/
theorem Valid.congr {r r' : ImgRx} (hr : r.Valid) (h1 : r'.state = r.state)
    (h2 : r'.sinceAck = r.sinceAck) (h3 : r'.ackEvery = r.ackEvery) (h4 : r'.data = r.data)
    (h5 : r'.expected = r.expected) (h6 : r'.done = r.done)
    (h7 : r'.doneContent = r.doneContent) : r'.Valid := by
  intro hrecv
  obtain ⟨hlt, hdata, hexp, hdone, hcontent⟩ := hr (h1 ▸ hrecv)
  exact ⟨by rwa [h2, h3], by rwa [h4, h5], by rwa [h5], by rwa [h6], by rwa [h7]⟩

theorem ackEveryOf_pos (a : UInt8) : 0 < (ackEveryOf a).toNat := by
  unfold ackEveryOf
  split
  · decide
  · next h =>
    have : a.toNat ≠ 0 := fun h0 => h (UInt8.toNat_inj.mp h0)
    omega

theorem startContent_valid {r : ImgRx} (hr : r.Valid) (args : List UInt8) :
    (r.startContent args).Valid := by
  unfold startContent
  split
  · dsimp only
    split
    · exact valid_of_not_receiving (by simp [reset])
    · next h =>
      intro _
      have hle : MAX_CONTENT_BYTES ≤ MAX_IMAGE_BYTES := by decide
      exact ⟨ackEveryOf_pos _, Nat.zero_le _, by dsimp only; omega, rfl, rfl⟩
  · exact hr

theorem startImage_valid {r : ImgRx} (hr : r.Valid) (args : List UInt8) :
    (r.startImage args).Valid := by
  unfold startImage
  split
  · dsimp only
    split
    · exact valid_of_not_receiving (by simp [reset])
    · next h =>
      intro _
      exact ⟨ackEveryOf_pos _, Nat.zero_le _, by dsimp only; omega, rfl, rfl⟩
  · exact hr

theorem commit_not_receiving (r : ImgRx) : r.commit.state ≠ .receiving := by
  unfold commit receiving
  dsimp only
  split
  · next h => simpa using h
  · repeat' split
    all_goals simp

theorem Counting.accept {r : ImgRx} (hc : r.Counting) (payload : List UInt8)
    (hfit : r.data.length + payload.length ≤ r.expected) : (r.accept payload).Counting := by
  obtain ⟨hlt, -, hexp, hdone, hcontent⟩ := hc
  unfold ImgRx.accept
  dsimp only
  split
  · exact ⟨by dsimp only; simp; omega, by simpa using hfit, hexp, hdone, hcontent⟩
  · next h =>
    have hge : ¬ r.ackEvery.toNat ≤ (r.sinceAck + 1).toNat := fun hle =>
      h (.inl (UInt8.le_iff_toNat_le.mpr hle))
    exact ⟨by dsimp only; omega, by simpa using hfit, hexp, hdone, hcontent⟩

theorem push_valid {r : ImgRx} (hr : r.Valid) (d : List UInt8) : (r.push d).Valid := by
  rcases r.push_cases d with heq | ⟨o0, o1, payload, -, -, hfit, heq⟩ | heq
  · rwa [heq]
  · rw [heq]
    intro hrecv
    have hrecv' : r.state = .receiving := by
      rw [← hrecv]
      unfold ImgRx.accept
      dsimp only
      split <;> rfl
    exact (hr hrecv').accept payload hfit
  · rw [heq]
    intro hrecv
    obtain ⟨hlt, hdata, hexp, hdone, hcontent⟩ := hr hrecv
    exact ⟨by dsimp only; simp; omega, hdata, hexp, hdone, hcontent⟩

theorem ctrl_valid {r : ImgRx} (hr : r.Valid) (d : List UInt8) : (r.ctrl d).Valid := by
  cases d with
  | nil => exact hr
  | cons op args =>
    rcases r.ctrl_cases op args with ⟨-, -, h⟩ | ⟨-, -, h⟩ | ⟨-, h⟩ | ⟨-, h⟩ | ⟨-, h⟩ |
      ⟨-, -, -, ntf, doze, h⟩ <;> rw [h]
    · exact startContent_valid hr args
    · exact startImage_valid hr args
    · exact valid_of_not_receiving r.commit_not_receiving
    · exact valid_of_not_receiving (by simp [reset])
    · exact hr.congr rfl rfl rfl rfl rfl rfl rfl
    · exact hr.congr rfl rfl rfl rfl rfl rfl rfl

theorem step_valid {r : ImgRx} (hr : r.Valid) (op : RxOp) : (r.step op).Valid := by
  cases op with
  | gatt g =>
    cases g with
    | ctrl d => exact ctrl_valid hr d
    | data d => exact push_valid hr d
    | subscribe on => exact hr.congr rfl rfl rfl rfl rfl rfl rfl
    | read => exact hr
  | takeNotification =>
    simp only [step, takeNotification]
    split
    · exact hr
    · exact hr.congr rfl rfl rfl rfl rfl rfl rfl
  | takeImage =>
    rcases r.takeImage_cases with heq | ⟨img, -, -, heq⟩
    · simpa only [step, heq] using hr
    · simp only [step, heq]
      exact valid_of_not_receiving (by simp)
  | takeText =>
    rcases r.takeText_cases with heq | ⟨text, -, -, heq⟩
    · simpa only [step, heq] using hr
    · simp only [step, heq]
      exact valid_of_not_receiving (by simp)
  | takeClear =>
    simp only [step, takeClear]
    split
    · exact hr.congr rfl rfl rfl rfl rfl rfl rfl
    · exact hr

theorem run_valid {r : ImgRx} (hr : r.Valid) (ops : List RxOp) : (run step r ops).Valid :=
  (always_of_invariant (P := Valid) (fun _ op h => step_valid h op) hr ops).last

theorem valid_default : Valid {} := valid_of_not_receiving (by decide)

theorem reachable_valid (ops : List RxOp) : (run step {} ops).Valid := run_valid valid_default ops

/-! ## Windows -/

/-- The client sends its next in-order packet; before it, the session may have sent the STATUS that
was pending. -/
def windowStep (r : ImgRx) (i : Bool × List UInt8) : ImgRx :=
  let r := if i.1 then r.takeNotification.2 else r
  r.push (u16ToLe (UInt16.ofNat r.data.length) ++ i.2)

theorem takeNotification_eq (r : ImgRx) :
    r.takeNotification.2 = { r with pendingNtf := false } := by
  unfold takeNotification
  split
  · next h =>
    have h : r.pendingNtf = false := by simpa using h
    exact h ▸ rfl
  · rfl

theorem accept_eq {r : ImgRx} (hc : r.Counting) (payload : List UInt8) :
    (r.accept payload).state = r.state ∧ (r.accept payload).ackEvery = r.ackEvery ∧
      (r.accept payload).expected = r.expected ∧ (r.accept payload).data = r.data ++ payload ∧
      ((r.data ++ payload).length ≠ r.expected →
        (r.accept payload).sinceAck.toNat = ackCount r.ackEvery.toNat r.sinceAck.toNat) ∧
      ((r.accept payload).pendingNtf = true ↔ r.pendingNtf = true ∨
        r.ackEvery.toNat ≤ r.sinceAck.toNat + 1 ∨ (r.data ++ payload).length = r.expected) := by
  have hack := r.ackEvery.toNat_lt
  have hlt := hc.sinceAck_lt
  have hsucc : (r.sinceAck + 1).toNat = r.sinceAck.toNat + 1 := by
    rw [UInt8.toNat_add]
    simp
    omega
  have hge : r.sinceAck + 1 ≥ r.ackEvery ↔ r.ackEvery.toNat ≤ r.sinceAck.toNat + 1 := by
    rw [ge_iff_le, UInt8.le_iff_toNat_le, hsucc]
  unfold accept
  dsimp only
  split
  · next h =>
    rw [hge] at h
    refine ⟨rfl, rfl, rfl, rfl, fun hne => ?_, ?_⟩
    · rw [ackCount, if_pos (h.resolve_right hne)]
      rfl
    · exact iff_of_true rfl (.inr h)
  · next h =>
    rw [hge] at h
    refine ⟨rfl, rfl, rfl, rfl, fun _ => ?_, ?_⟩
    · rw [ackCount, if_neg (fun hle => h (.inl hle))]
      exact hsucc
    · exact (or_iff_left h).symm

/-- The state in which the next packet of a window arrives. -/
def polled (r : ImgRx) (p : Bool) : ImgRx := if p then { r with pendingNtf := false } else r

@[simp] theorem polled_state (r : ImgRx) (p : Bool) : (r.polled p).state = r.state := by
  cases p <;> rfl
@[simp] theorem polled_ackEvery (r : ImgRx) (p : Bool) : (r.polled p).ackEvery = r.ackEvery := by
  cases p <;> rfl
@[simp] theorem polled_expected (r : ImgRx) (p : Bool) : (r.polled p).expected = r.expected := by
  cases p <;> rfl
@[simp] theorem polled_data (r : ImgRx) (p : Bool) : (r.polled p).data = r.data := by
  cases p <;> rfl
@[simp] theorem polled_sinceAck (r : ImgRx) (p : Bool) : (r.polled p).sinceAck = r.sinceAck := by
  cases p <;> rfl

theorem Counting.polled {r : ImgRx} (hc : r.Counting) (p : Bool) : (r.polled p).Counting := by
  obtain ⟨h1, h2, h3, h4, h5⟩ := hc
  cases p <;> exact ⟨h1, h2, h3, h4, h5⟩

/-- What an accepted packet of a window does. -/
structure Accepted (r : ImgRx) (p : Bool) (payload : List UInt8) (r' : ImgRx) : Prop where
  state : r'.state = .receiving
  counting : r'.Counting
  ackEvery : r'.ackEvery = r.ackEvery
  expected : r'.expected = r.expected
  data : r'.data = r.data ++ payload
  sinceAck : (r.data ++ payload).length ≠ r.expected →
    r'.sinceAck.toNat = ackCount r.ackEvery.toNat r.sinceAck.toNat
  pendingNtf : r'.pendingNtf = true ↔ (r.polled p).pendingNtf = true ∨
    r.ackEvery.toNat ≤ r.sinceAck.toNat + 1 ∨ (r.data ++ payload).length = r.expected

theorem windowStep_accepted {r : ImgRx} (hr : r.state = .receiving) (hc : r.Counting) (p : Bool)
    {payload : List UInt8} (hne : payload ≠ [])
    (hfit : r.data.length + payload.length ≤ r.expected) :
    Accepted r p payload (windowStep r (p, payload)) := by
  have hoff : (UInt16.ofNat r.data.length).toNat = r.data.length := by
    have hle : r.expected ≤ 48000 := hc.expected_le
    rw [UInt16.toNat_ofNat']
    omega
  have hp : (if p then r.takeNotification.2 else r) = r.polled p := by
    cases p
    · rfl
    · exact r.takeNotification_eq
  have hstep : windowStep r (p, payload) = (r.polled p).accept payload := by
    rw [windowStep]
    simp only [hp]
    exact push_accept (by simpa using hr) hne (by rw [u16OfLe_toLe, polled_data, hoff])
      (by simpa using hfit)
  obtain ⟨h1, h2, h3, h4, h5, h6⟩ := accept_eq (hc.polled p) payload
  have hcounting := (hc.polled p).accept payload (by simpa using hfit)
  simp only [polled_state, polled_ackEvery, polled_expected, polled_data, polled_sinceAck]
    at h1 h2 h3 h4 h5 h6
  rw [hstep]
  exact ⟨h1.trans hr, hcounting, h2, h3, h4, h5, h6⟩

/-- A window of accepted packets: the data grows by all of them, and the counter goes round. -/
theorem run_window {r : ImgRx} (hr : r.state = .receiving) (hc : r.Counting)
    (w : List (Bool × List UInt8)) (hne : ∀ i ∈ w, i.2 ≠ [])
    (hfit : r.data.length + (w.map Prod.snd).flatten.length ≤ r.expected) :
    let e := run windowStep r w
    e.state = .receiving ∧ e.Counting ∧ e.ackEvery = r.ackEvery ∧ e.expected = r.expected ∧
      e.data = r.data ++ (w.map Prod.snd).flatten ∧
      (e.data.length ≠ r.expected →
        e.sinceAck.toNat = (r.sinceAck.toNat + w.length) % r.ackEvery.toNat) := by
  induction w generalizing r with
  | nil =>
    refine ⟨hr, hc, rfl, rfl, by simp, fun _ => ?_⟩
    exact (Nat.mod_eq_of_lt hc.sinceAck_lt).symm
  | cons i w ih =>
    obtain ⟨p, payload⟩ := i
    have hpay : payload ≠ [] := hne (p, payload) (by simp)
    simp only [List.map_cons, List.flatten_cons, List.length_append] at hfit
    have ha := windowStep_accepted hr hc p hpay (by omega)
    have hlen : (windowStep r (p, payload)).data.length = r.data.length + payload.length := by
      rw [ha.data, List.length_append]
    obtain ⟨e1, e2, e3, e4, e5, e6⟩ := ih ha.state ha.counting (fun i hi => hne i (by simp [hi]))
      (by rw [hlen, ha.expected]; omega)
    refine ⟨e1, e2, e3.trans ha.ackEvery, e4.trans ha.expected,
      by rw [run_cons, e5, ha.data]; simp, fun hend => ?_⟩
    have hopen : (r.data ++ payload).length ≠ r.expected := by
      intro hfull
      rw [run_cons, e5, List.length_append, hlen] at hend
      rw [List.length_append] at hfull
      omega
    rw [run_cons, e6 (by rwa [ha.expected]), ha.sinceAck hopen, ha.ackEvery,
      ackCount_eq_mod hc.sinceAck_lt, Nat.mod_add_mod, List.length_cons]
    congr 1
    omega

/-- What the last packet of a window leaves behind. -/
theorem window_end {r : ImgRx} (hr : r.state = .receiving) (hc : r.Counting)
    (w : List (Bool × List UInt8)) (p : Bool) (last : List UInt8) (hne : ∀ i ∈ w, i.2 ≠ [])
    (hlast : last ≠ [])
    (hfit : r.data.length + ((w.map Prod.snd).flatten.length + last.length) ≤ r.expected) :
    let e := run windowStep r (w ++ [(p, last)])
    e.state = .receiving ∧ e.expected = r.expected ∧
      e.data.length = r.data.length + ((w.map Prod.snd).flatten.length + last.length) ∧
      (e.pendingNtf = true ↔ ((run windowStep r w).polled p).pendingNtf = true ∨
        (r.sinceAck.toNat + w.length + 1) % r.ackEvery.toNat = 0 ∨
        r.data.length + ((w.map Prod.snd).flatten.length + last.length) = r.expected) := by
  have hpos := List.length_pos_iff.mpr hlast
  obtain ⟨e1, e2, e3, e4, e5, e6⟩ := run_window hr hc w hne (by omega)
  have hlen : (run windowStep r w).data.length =
      r.data.length + (w.map Prod.snd).flatten.length := by rw [e5, List.length_append]
  have hcount := e6 (by omega)
  have ha := windowStep_accepted e1 e2 p hlast (by omega)
  have hend : (windowStep (run windowStep r w) (p, last)).data.length =
      r.data.length + ((w.map Prod.snd).flatten.length + last.length) := by
    rw [ha.data, List.length_append, hlen, Nat.add_assoc]
  rw [run_append, run_cons, run_nil]
  refine ⟨ha.state, ha.expected.trans e4, hend, ?_⟩
  rw [ha.pendingNtf, ← ha.data, hend, e3, e4, hcount,
    ack_due_iff (Nat.mod_lt _ (by have := hc.sinceAck_lt; omega)), Nat.mod_add_mod]

/-- A window is acknowledged at its last packet, wherever the session sends the STATUS messages
that fall due before, exactly if no packet was counted before it or it ends the transfer. -/
theorem window_acknowledged_iff (ops : List RxOp) (r : ImgRx) (hr : r = run step {} ops)
    (hrecv : r.state = .receiving) (chunks : List (List UInt8)) (hne : chunks ≠ [])
    (hpos : ∀ c ∈ chunks, c ≠ []) (hfit : r.data.length + chunks.flatten.length ≤ r.expected)
    (hwin : chunks.length = r.ackEvery.toNat ∨
      chunks.length ≤ r.ackEvery.toNat ∧ r.data.length + chunks.flatten.length = r.expected) :
    (∀ w : List (Bool × List UInt8), w.map Prod.snd = chunks →
      (run windowStep r w).pendingNtf = true ∧
        (run windowStep r w).statusBytes = RxState.receiving.code ::
          (u32ToLe (UInt32.ofNat (r.data.length + chunks.flatten.length)) ++
            u32ToLe (UInt32.ofNat r.expected))) ↔
      r.sinceAck = 0 ∨ r.data.length + chunks.flatten.length = r.expected := by
  have hc : r.Counting := hr ▸ reachable_valid ops (hr ▸ hrecv)
  have hlt := hc.sinceAck_lt
  have hzero : r.sinceAck = 0 ↔ r.sinceAck.toNat = 0 := by rw [← UInt8.toNat_inj]; rfl
  obtain ⟨init, last, rfl⟩ : ∃ init last, chunks = init ++ [last] :=
    ⟨chunks.dropLast, chunks.getLast hne, (List.dropLast_append_getLast hne).symm⟩
  have hlast : last ≠ [] := hpos last (by simp)
  simp only [List.flatten_append, List.length_append, List.flatten_cons, List.flatten_nil,
    List.append_nil, List.length_cons, List.length_nil, Nat.zero_add] at hfit hwin ⊢
  have hinit : ∀ w : List (Bool × List UInt8), w.map Prod.snd = init → ∀ i ∈ w, i.2 ≠ [] := by
    rintro w rfl i hi
    exact hpos i.2 (by simp only [List.mem_append, List.mem_map]; exact .inl ⟨i, hi, rfl⟩)
  constructor
  · intro hall
    -- the client is told after every packet that a STATUS is due for
    let w : List (Bool × List UInt8) := init.map fun c => (true, c)
    have hw : w.map Prod.snd = init := by simp [w, Function.comp_def]
    have hlen : w.length = init.length := by simp [w]
    obtain ⟨-, -, -, h4⟩ := window_end hrecv hc w true last (hinit w hw) hlast (by rwa [hw])
    have hntf := (hall (w ++ [(true, last)]) (by simp [hw])).1
    rw [h4, hw, hlen] at hntf
    rcases hntf with hfalse | hmod | hfull
    · exact absurd hfalse (by simp [polled])
    · rcases hwin with hn | ⟨-, hfull⟩
      · rw [Nat.add_assoc, hn] at hmod
        exact .inl (hzero.mpr ((full_window_iff hlt).mp hmod))
      · exact .inr hfull
    · exact .inr hfull
  · intro hcond w hw
    obtain ⟨w, ⟨p, l⟩, rfl⟩ : ∃ w' i, w = w' ++ [i] := by
      have hwne : w ≠ [] := by rintro rfl; simp at hw
      exact ⟨w.dropLast, w.getLast hwne, (List.dropLast_append_getLast hwne).symm⟩
    rw [List.map_append] at hw
    obtain ⟨hw', hl⟩ := List.append_inj' hw rfl
    obtain rfl : l = last := by simpa using hl
    have hlen : w.length = init.length := by rw [← hw', List.length_map]
    obtain ⟨h1, h2, h3, h4⟩ := window_end hrecv hc w p l (hinit w hw') hlast (by rwa [hw'])
    rw [hw'] at h3 h4
    refine ⟨h4.mpr (.inr ?_), by rw [statusBytes, h1, h2, h3]⟩
    rcases hcond with h0 | hfull
    · rcases hwin with hn | ⟨-, hfull⟩
      · refine .inl ?_
        rw [hlen, Nat.add_assoc, hn]
        exact (full_window_iff hlt).mpr (hzero.mp h0)
      · exact .inr hfull
    · exact .inr hfull

/-- A transfer of four bytes with a window of two. -/
def startFour : RxOp :=
  .gatt (.ctrl (0x10 :: (u16ToLe 8 ++ u16ToLe 4 ++ u32ToLe 4 ++ u32ToLe 0 ++ [2])))

theorem window_acknowledged_first :
    (run windowStep (run step {} [startFour, .takeNotification])
      [(false, [0x11]), (true, [0x22])]).pendingNtf = true :=
  ((window_acknowledged_iff [startFour, .takeNotification] _ rfl (by decide) [[0x11], [0x22]]
    (by decide) (by decide) (by decide) (by decide)).mpr (.inl (by decide)) _ rfl).1

/-- The second packet of the first window is lost and the client asks for the STATUS: the packet
before it is still counted. -/
theorem window_not_acknowledged_after_sync :
    ¬ ∀ (ops : List RxOp) (r : ImgRx), r = run step {} ops → r.state = .receiving →
      ∀ chunks : List (List UInt8), chunks ≠ [] → (∀ c ∈ chunks, c ≠ []) →
        r.data.length + chunks.flatten.length ≤ r.expected →
        (chunks.length = r.ackEvery.toNat ∨ chunks.length ≤ r.ackEvery.toNat ∧
          r.data.length + chunks.flatten.length = r.expected) →
        ∀ w : List (Bool × List UInt8), w.map Prod.snd = chunks →
          (run windowStep r w).pendingNtf = true := by
  intro h
  have := h [startFour, .takeNotification, .gatt (.data [0, 0, 0x11]), .gatt (.ctrl [0x04]),
    .takeNotification] _ rfl (by decide) [[0x22], [0x33]] (by decide) (by decide) (by decide)
    (by decide) [(true, [0x22]), (true, [0x33])] rfl
  revert this
  decide

end ImgRx

end PaperNamePlate
