import PaperNamePlate.Lib.Rewind
import PaperNamePlate.Ble.Sender

/-!
# What the client may rely on

Whatever the air does to a transfer, no STATUS claims more than the receiver holds, so
the client never runs ahead of it: a transfer that reaches its commit has been received
in full, and the session hands over exactly its update. A STATUS that the client ends with
is the verdict, or finds the receiver idle after the update was handed over. Rounds
without losses bring any transfer to its end, however it got where it is.
-/
namespace PaperNamePlate

open Embedded

namespace Web

variable {bs : List UInt8} {st : ImgRx.Start} {on : Bool}

theorem startPacket_eq (bs : List UInt8) (st : ImgRx.Start) :
    startPacket bs st = st.message bs (UInt8.ofNat ACK_EVERY) ++ [] := by
  cases st <;> simp [startPacket, ImgRx.Start.message, webCrc32_eq]

theorem parseStatus_statusBytes (r : ImgRx) :
    parseStatus r.statusBytes =
      some ⟨r.state.code, UInt32.ofNat r.data.length, UInt32.ofNat r.expected⟩ := by
  simp only [ImgRx.statusBytes, u32ToLe, List.cons_append, List.nil_append, parseStatus,
    u32OfLe_toLe]

/-! ## During the transfer -/

/-- A STATUS sent while the receiver held between `lo` and `hi` bytes of the transfer. -/
structure Reports (lo hi : Nat) (s : Status) : Prop where
  state : s.state = 1
  lower : lo ≤ s.received.toNat
  upper : s.received.toNat ≤ hi

/-- The receiver is within the transfer of `bs`, and every STATUS not yet looked at was sent when it
held at least `lo` bytes. -/
structure Sound (bs : List UInt8) (st : ImgRx.Start) (on : Bool) (lo : Nat) (l : Link) : Prop where
  rx : l.rx.Transferring bs st.kind st.width st.height
  small : bs.length ≤ MAX_IMAGE_BYTES
  clear : l.rx.clearImageReq = false
  notifyOn : l.rx.notifyOn = on
  lower : lo ≤ l.rx.data.length
  air : ∀ b ∈ l.air, ∀ s ∈ parseStatus b, Reports lo l.rx.data.length s
  queue : ∀ s ∈ l.queue, Reports lo l.rx.data.length s
  handed : l.handed = []

theorem Reports.mono {lo hi hi' : Nat} {s : Status} (h : Reports lo hi s) (hle : hi ≤ hi') :
    Reports lo hi' s :=
  ⟨h.state, h.lower, h.upper.trans hle⟩

theorem Sound.data_le {lo : Nat} {l : Link} (h : Sound bs st on lo l) :
    l.rx.data.length ≤ bs.length :=
  h.rx.data.length_le

/-- What the receiver would say now. -/
theorem Sound.reports {lo : Nat} {l : Link} (h : Sound bs st on lo l) {s : Status}
    (hs : s ∈ parseStatus l.rx.statusBytes) :
    Reports lo l.rx.data.length s ∧ s.received.toNat = l.rx.data.length := by
  have hsmall : bs.length ≤ 48000 := h.small
  have hle := h.data_le
  rw [parseStatus_statusBytes] at hs
  obtain rfl := Option.mem_some_iff.mp hs
  have heq : (UInt32.ofNat l.rx.data.length).toNat = l.rx.data.length := by
    rw [UInt32.toNat_ofNat']
    omega
  refine ⟨⟨?_, ?_, heq.le⟩, heq⟩
  · rw [h.rx.state]
    rfl
  · exact h.lower.trans heq.ge

/-- Another state of the receiver that has at least as much, with the same reports under way. -/
theorem Sound.grow {lo : Nat} {l : Link} (h : Sound bs st on lo l) {rx : ImgRx}
    (hrx : rx.Transferring bs st.kind st.width st.height) (hclear : rx.clearImageReq = false)
    (hon : rx.notifyOn = l.rx.notifyOn) (hle : l.rx.data.length ≤ rx.data.length) :
    Sound bs st on lo { l with rx } :=
  ⟨hrx, h.small, hclear, hon.trans h.notifyOn, h.lower.trans hle,
    fun b hb s hs => (h.air b hb s hs).mono hle, fun s hs => (h.queue s hs).mono hle, h.handed⟩

theorem Sound.takeNotification {lo : Nat} {l : Link} (h : Sound bs st on lo l) :
    l.rx.takeNotification.2.Transferring bs st.kind st.width st.height ∧
      l.rx.takeNotification.2.clearImageReq = false ∧
      l.rx.takeNotification.2.notifyOn = on ∧ l.rx.takeNotification.2.data = l.rx.data ∧
      ∀ b ∈ l.rx.takeNotification.1, b = l.rx.statusBytes := by
  obtain ⟨h1, h2, h3, h4, h5, h6, h7, h8, h9⟩ := h.rx
  refine ⟨?_, ?_, ?_, ?_, ?_⟩
  · rw [ImgRx.takeNotification_eq]
    exact ⟨h1, h2, h3, h4, h5, h6, h7, h8, h9⟩
  · rw [ImgRx.takeNotification_eq]
    exact h.clear
  · rw [ImgRx.takeNotification_eq]
    exact h.notifyOn
  · rw [ImgRx.takeNotification_eq]
  · intro b hb
    unfold ImgRx.takeNotification at hb
    grind [ImgRx.statusBytes]

/-- Nothing that happens by itself disturbs a transfer. -/
theorem Sound.turn {lo : Nat} {l : Link} (h : Sound bs st on lo l) (t : Turn) :
    Sound bs st on lo (l.turn t) ∧ (l.turn t).rx.data = l.rx.data := by
  cases t with
  | notification =>
    obtain ⟨hrx, hclear, hon, hdata, hsent⟩ := h.takeNotification
    refine ⟨⟨hrx, h.small, hclear, hon, ?_, ?_, ?_, h.handed⟩, hdata⟩
    · exact hdata ▸ h.lower
    · intro b hb s hs
      dsimp only [Link.turn] at hb ⊢
      rw [hdata]
      rcases List.mem_append.mp hb with hb | hb
      · exact h.air b hb s hs
      · rw [hsent b (Option.mem_toList.mp hb)] at hs
        exact (h.reports hs).1
    · dsimp only [Link.turn]
      rw [hdata]
      exact h.queue
  | arrive =>
    cases hair : l.air with
    | nil => simpa only [Link.turn, hair, and_true] using h
    | cons b air =>
      simp only [Link.turn, hair, and_true]
      refine ⟨h.rx, h.small, h.clear, h.notifyOn, h.lower, ?_, ?_, h.handed⟩
      · intro b' hb'
        exact h.air b' (hair ▸ List.mem_cons_of_mem b hb')
      · intro s hs
        rcases List.mem_append.mp hs with hs | hs
        · exact h.queue s hs
        · exact h.air b (hair ▸ List.mem_cons_self) s (Option.mem_toList.mp hs)
  | lose =>
    refine ⟨⟨h.rx, h.small, h.clear, h.notifyOn, h.lower, ?_, h.queue, h.handed⟩, rfl⟩
    intro b hb
    exact h.air b (List.mem_of_mem_tail hb)
  | image =>
    simpa only [Link.turn, ImgRx.takeImage_of_none h.rx.done, and_true] using h
  | text =>
    simpa only [Link.turn, ImgRx.takeText_of_none h.rx.doneContent, and_true] using h
  | clear =>
    simpa only [Link.turn, ImgRx.takeClear, h.clear, Bool.false_and, Bool.false_eq_true, if_false,
      and_true] using h

theorem Sound.turns {lo : Nat} {l : Link} (h : Sound bs st on lo l) (ts : List Turn) :
    Sound bs st on lo (run Link.turn l ts) ∧ (run Link.turn l ts).rx.data = l.rx.data := by
  induction ts generalizing l with
  | nil => exact ⟨h, rfl⟩
  | cons t ts ih =>
    obtain ⟨ht, hdata⟩ := h.turn t
    obtain ⟨hts, hdata'⟩ := ih ht
    exact ⟨hts, hdata'.trans hdata⟩

theorem Sound.arriveAll {lo : Nat} {l : Link} (h : Sound bs st on lo l) :
    Sound bs st on lo l.arriveAll := by
  refine ⟨h.rx, h.small, h.clear, h.notifyOn, h.lower, ?_, ?_, h.handed⟩
  · intro b hb
    exact absurd hb List.not_mem_nil
  · intro s hs
    rcases List.mem_append.mp hs with hs | hs
    · exact h.queue s hs
    · obtain ⟨b, hb, hs⟩ := List.mem_filterMap.mp hs
      exact h.air b hb s hs

theorem Sound.wait {lo : Nat} {l : Link} (h : Sound bs st on lo l) (w : Wait) :
    Sound bs st on lo (l.wait w) ∧ (l.wait w).rx.data = l.rx.data := by
  obtain ⟨hts, hdata⟩ := h.turns w.turns
  unfold Link.wait
  dsimp only
  split
  · obtain ⟨hn, hdata'⟩ := hts.turn .notification
    exact ⟨hn.arriveAll, hdata'.trans hdata⟩
  · exact ⟨hts, hdata⟩

/-- What is taken from the queue was in it, and nothing is left where nothing was found. -/
theorem firstWith_spec (p : Status → Bool) (queue : List Status) :
    (∀ s ∈ (firstWith p queue).1, s ∈ queue ∧ p s = true) ∧
      (firstWith p queue).2 ⊆ queue ∧
      ((firstWith p queue).1 = none → (firstWith p queue).2 = []) := by
  induction queue with
  | nil => exact ⟨fun s hs => by simp [firstWith] at hs, List.Subset.refl _, fun _ => rfl⟩
  | cons s queue ih =>
    obtain ⟨h1, h2, h3⟩ := ih
    unfold firstWith
    split
    · next hp =>
      refine ⟨?_, List.subset_cons_self s queue, fun h => absurd h (by simp)⟩
      intro t ht
      obtain rfl := Option.mem_some_iff.mp ht
      exact ⟨List.mem_cons_self, hp⟩
    · refine ⟨fun t ht => ⟨List.mem_cons_of_mem s (h1 t ht).1, (h1 t ht).2⟩, ?_, h3⟩
      exact fun t ht => List.mem_cons_of_mem s (h2 ht)

theorem Sound.waitFor {lo : Nat} {l : Link} (h : Sound bs st on lo l) (notifyOk : Bool) (w : Wait)
    (p : Status → Bool) :
    Sound bs st on lo (l.waitFor notifyOk w p).2 ∧
      (l.waitFor notifyOk w p).2.rx.data = l.rx.data ∧
      ∀ s ∈ (l.waitFor notifyOk w p).1, Reports lo l.rx.data.length s ∧ p s = true := by
  unfold Link.waitFor
  split
  · exact ⟨h, rfl, fun s hs => absurd hs (by simp)⟩
  · obtain ⟨hw, hdata⟩ := h.wait w
    obtain ⟨h1, h2, -⟩ := firstWith_spec p (l.wait w).queue
    dsimp only
    refine ⟨⟨hw.rx, hw.small, hw.clear, hw.notifyOn, hw.lower, hw.air,
      fun s hs => hw.queue s (h2 hs), hw.handed⟩, hdata, fun s hs => ?_⟩
    obtain ⟨hmem, hp⟩ := h1 s hs
    exact ⟨hdata ▸ hw.queue s hmem, hp⟩

theorem Sound.readStatus {lo : Nat} {l : Link} (h : Sound bs st on lo l) (a : Access) :
    Sound bs st on lo (l.readStatus a).2 ∧ (l.readStatus a).2.rx.data = l.rx.data ∧
      ∀ s ∈ (l.readStatus a).1,
        Reports lo l.rx.data.length s ∧ s.received.toNat = l.rx.data.length := by
  obtain ⟨hts, hdata⟩ := h.turns a.turns
  refine ⟨hts, hdata, ?_⟩
  intro s hs
  unfold Link.readStatus at hs
  dsimp only at hs
  split at hs
  · exact hdata ▸ hts.reports hs
  · exact absurd hs (by simp)

theorem Sound.request {lo : Nat} {l : Link} (h : Sound bs st on lo l) (a : Access) :
    Sound bs st on lo (l.write a (.ctrl [0x04])) ∧
      (l.write a (.ctrl [0x04])).rx.data = l.rx.data := by
  obtain ⟨hts, hdata⟩ := h.turns a.turns
  unfold Link.write
  dsimp only
  split
  · obtain ⟨h1, h2, h3, h4, h5, h6, h7, h8, h9⟩ := hts.rx
    exact ⟨hts.grow ⟨h1, h2, h3, h4, h5, h6, h7, h8, h9⟩ hts.clear rfl le_rfl, hdata⟩
  · exact ⟨hts, hdata⟩

theorem Sound.askStatus {lo : Nat} {l : Link} (h : Sound bs st on lo l) (notifyOk : Bool)
    (e : Round) :
    Sound bs st on lo (l.askStatus notifyOk e).2 ∧ (l.askStatus notifyOk e).2.rx.data = l.rx.data ∧
      ∀ s ∈ (l.askStatus notifyOk e).1, Reports lo l.rx.data.length s := by
  unfold Link.askStatus
  split
  · obtain ⟨hreq, hdata⟩ := h.request e.sync
    dsimp only
    split
    · exact ⟨hreq, hdata, fun s hs => absurd hs (by simp)⟩
    · obtain ⟨h1, h2, h3⟩ := hreq.waitFor notifyOk e.answer fun _ => true
      exact ⟨h1, h2.trans hdata, fun s hs => hdata ▸ (h3 s hs).1⟩
  · exact ⟨h, rfl, fun s hs => absurd hs (by simp)⟩

theorem Sound.syncStatus {lo : Nat} {l : Link} (h : Sound bs st on lo l) (notifyOk : Bool)
    (e : Round) :
    Sound bs st on lo (l.syncStatus notifyOk e).2 ∧
      (l.syncStatus notifyOk e).2.rx.data = l.rx.data ∧
      ∀ s ∈ (l.syncStatus notifyOk e).1, Reports lo l.rx.data.length s := by
  obtain ⟨h1, h2, h3⟩ := h.askStatus notifyOk e
  unfold Link.syncStatus
  split
  · next s l' heq =>
    rw [heq] at h1 h2 h3
    exact ⟨h1, h2, h3⟩
  · next l' heq =>
    rw [heq] at h1 h2
    obtain ⟨h4, h5, h6⟩ := h1.readStatus e.read
    exact ⟨h4, h5.trans h2, fun s hs => h2 ▸ (h6 s hs).1⟩

/-! ## Packets and bursts -/

theorem push_data_le (r : ImgRx) (d : List UInt8) : r.data.length ≤ (r.push d).data.length := by
  rcases r.push_cases d with h | ⟨o0, o1, payload, -, -, -, h⟩ | h
  · rw [h]
  · rw [h]
    unfold ImgRx.accept
    dsimp only
    split <;> simp
  · rw [h]

theorem push_notifyOn (r : ImgRx) (d : List UInt8) : (r.push d).notifyOn = r.notifyOn := by
  rcases r.push_cases d with h | ⟨o0, o1, payload, -, -, -, h⟩ | h
  · rw [h]
  · rw [h]
    unfold ImgRx.accept
    dsimp only
    split <;> rfl
  · rw [h]

/-- The next packet in order is taken. -/
theorem push_packet {r : ImgRx} {kind : RxKind} {w h : UInt16} (ht : r.Transferring bs kind w h)
    {off chunk : Nat} (hsmall : bs.length ≤ MAX_IMAGE_BYTES) (hoff : off = r.data.length)
    (hopen : off < bs.length) (hchunk : 0 < chunk) :
    (r.push (packet bs off chunk)).data.length = off + (Embedded.segment bs off chunk).length := by
  have hsmall : bs.length ≤ 48000 := hsmall
  have hlow : (UInt16.ofNat off).toNat = off := by
    rw [UInt16.toNat_ofNat']
    omega
  have hseg : Embedded.segment bs off chunk ≠ [] := by
    rw [← List.length_pos_iff, Embedded.segment, List.length_take, List.length_drop]
    omega
  have hfit : r.data.length + (Embedded.segment bs off chunk).length ≤ r.expected := by
    rw [ht.expected, Embedded.segment, List.length_take, List.length_drop]
    omega
  have hpush : r.push (packet bs off chunk) = r.accept (Embedded.segment bs off chunk) :=
    ImgRx.push_accept ht.state hseg (by rw [u16OfLe_toLe, hlow, hoff]) hfit
  rw [hpush]
  unfold ImgRx.accept
  dsimp only
  split <;> simp [hoff]

theorem Sound.packet {lo : Nat} {l : Link} (h : Sound bs st on lo l) (a : Access) {off : Nat}
    (hoff : off ≤ bs.length) (chunk : Nat) :
    Sound bs st on lo (l.write a (.data (packet bs off chunk))) ∧
      l.rx.data.length ≤ (l.write a (.data (packet bs off chunk))).rx.data.length ∧
      (a.arrives = true → off = l.rx.data.length → off < bs.length → 0 < chunk →
        (l.write a (.data (packet bs off chunk))).rx.data.length =
          off + (Embedded.segment bs off chunk).length) := by
  obtain ⟨hts, hdata⟩ := h.turns a.turns
  have hsmall : bs.length ≤ 48000 := h.small
  have hlow : (UInt16.ofNat off).toNat = off := by
    rw [UInt16.toNat_ofNat']
    omega
  have hrx := hts.rx.push (UInt16.ofNat off) chunk
  rw [hlow] at hrx
  have hle := push_data_le (run Link.turn l a.turns).rx (Web.packet bs off chunk)
  obtain ⟨-, -, hclear, -⟩ := (run Link.turn l a.turns).rx.push_frame (Web.packet bs off chunk)
  unfold Link.write
  dsimp only
  split
  · refine ⟨hts.grow hrx (hclear.trans hts.clear) (push_notifyOn _ _) hle, hdata ▸ hle,
      fun _ heq hopen hchunk => ?_⟩
    exact push_packet hts.rx h.small (by rw [heq, hdata]) hopen hchunk
  · next ha =>
    exact ⟨hts, hdata ▸ le_rfl, fun h => absurd h ha⟩

theorem length_segment (bs : List UInt8) (off chunk : Nat) :
    (Embedded.segment bs off chunk).length = min chunk (bs.length - off) := by
  rw [Embedded.segment, List.length_take, List.length_drop]

/-- The client between two rounds: it believes no more than is true. -/
structure At (bs : List UInt8) (st : ImgRx.Start) (on : Bool) (s : Sender) : Prop where
  sound : Sound bs st on 0 s.link
  off : s.off ≤ s.link.rx.data.length
  chunk : CHUNK_SMALL ≤ s.chunk

theorem burst_sound {packets : Nat → Access} {lo i n : Nat} {s s' : Sender}
    (h : burst bs packets i n s = .ok s') (hs : Sound bs st on lo s.link) (hoff : s.off ≤ bs.length)
    (hchunk : CHUNK_SMALL ≤ s.chunk) :
    Sound bs st on lo s'.link ∧ s.link.rx.data.length ≤ s'.link.rx.data.length ∧
      s.off ≤ s'.off ∧ s'.off ≤ bs.length ∧ CHUNK_SMALL ≤ s'.chunk := by
  induction n generalizing i s with
  | zero =>
    obtain rfl : s = s' := by simpa [burst] using h
    exact ⟨hs, le_rfl, le_rfl, hoff, hchunk⟩
  | succ n ih =>
    obtain ⟨hlink, hle, -⟩ := hs.packet (packets i) hoff s.chunk
    unfold burst at h
    split at h
    · next hopen =>
      dsimp only at h
      split at h
      · split at h
        · obtain rfl := Except.ok.inj h
          exact ⟨hlink, hle, le_rfl, hoff, le_rfl⟩
        · exact absurd h (by simp)
      · have hseg := length_segment bs s.off s.chunk
        obtain ⟨h1, h2, h3, h4, h5⟩ := ih h hlink (by dsimp only; omega) hchunk
        exact ⟨h1, hle.trans h2, (Nat.le_add_right _ _).trans h3, h4, h5⟩
    · obtain rfl := Except.ok.inj h
      exact ⟨hs, le_rfl, le_rfl, hoff, hchunk⟩

/-- A burst of which every packet arrives. -/
theorem burst_good {packets : Nat → Access} (hgood : ∀ i, (packets i).arrives = true ∧
      (packets i).fails = false) {lo i n : Nat} {s : Sender} (hs : Sound bs st on lo s.link)
    (hoff : s.off ≤ bs.length) (hchunk : 0 < s.chunk) :
    ∃ link, burst bs packets i n s =
        .ok { s with off := min (s.off + n * s.chunk) bs.length, link } ∧
      Sound bs st on lo link ∧ s.link.rx.data.length ≤ link.rx.data.length ∧
      (s.off = s.link.rx.data.length →
        min (s.off + n * s.chunk) bs.length = link.rx.data.length) := by
  induction n generalizing i s with
  | zero =>
    refine ⟨s.link, ?_, hs, le_rfl, ?_⟩
    · rw [Nat.zero_mul, Nat.add_zero, min_eq_left hoff]
      rfl
    · rw [Nat.zero_mul, Nat.add_zero, min_eq_left hoff]
      exact id
  | succ n ih =>
    obtain ⟨harrives, hfails⟩ := hgood i
    obtain ⟨hlink, hle, hnext⟩ := hs.packet (packets i) hoff s.chunk
    have hseg := length_segment bs s.off s.chunk
    unfold burst
    by_cases hopen : s.off < bs.length
    · have hsum : min (s.off + (Embedded.segment bs s.off s.chunk).length + n * s.chunk) bs.length =
          min (s.off + (n + 1) * s.chunk) bs.length := by
        have hmul : (n + 1) * s.chunk = n * s.chunk + s.chunk := Nat.succ_mul n s.chunk
        omega
      obtain ⟨link, h1, h2, h3, h4⟩ := ih (i := i + 1)
        (s := { s with
          off := s.off + (Embedded.segment bs s.off s.chunk).length
          link := s.link.write (packets i) (.data (packet bs s.off s.chunk)) })
        hlink (by dsimp only; omega) hchunk
      dsimp only at h1 h3 h4
      rw [hsum] at h1 h4
      refine ⟨link, ?_, h2, hle.trans h3, fun heq => h4 (hnext harrives heq hopen hchunk).symm⟩
      simpa [hopen, hfails] using h1
    · have hend : s.off = bs.length := by omega
      have hmin : min (s.off + (n + 1) * s.chunk) bs.length = s.off := by omega
      refine ⟨s.link, ?_, hs, le_rfl, fun heq => hmin.trans heq⟩
      rw [if_neg hopen, hmin]

/-! ## Rounds -/

/-- A round keeps the client behind the receiver, and never ends with an aborted transfer. -/
theorem At.round {s : Sender} (hs : At bs st on s) (notifyOk : Bool) (e : Round) :
    (∀ s', round notifyOk bs e s = .ok s' → At bs st on s') ∧
      ∀ state, round notifyOk bs e s ≠ .error (.aborted state) := by
  have hoff : s.off ≤ bs.length := hs.off.trans hs.sound.data_le
  unfold Web.round
  cases hb : burst bs e.packets 0 ACK_EVERY s with
  | error f =>
    refine ⟨fun s' h => absurd h (by simp [bind, Except.bind]), fun state h => ?_⟩
    -- a burst fails only with a failed write
    have hburst : ∀ (n i : Nat) (s : Sender) (f : Failure),
        burst bs e.packets i n s = .error f → f = .write := by
      intro n
      induction n with
      | zero => intro i s f h; simp [burst] at h
      | succ n ih => intro i s f h; unfold burst at h; grind
    obtain rfl := hburst _ _ _ _ hb
    simp [bind, Except.bind] at h
  | ok t =>
    obtain ⟨hlink, -, -, hend, hchunk⟩ := burst_sound hb hs.sound hoff hs.chunk
    obtain ⟨h1, h2, h3⟩ := hlink.waitFor notifyOk e.acked fun st => t.off ≤ st.received.toNat
    dsimp only [bind, Except.bind]
    cases hw : t.link.waitFor notifyOk e.acked fun st => t.off ≤ st.received.toNat with
    | mk found link =>
      rw [hw] at h1 h2 h3
      cases found with
      | some a =>
        obtain ⟨hrep, hcov⟩ := h3 a rfl
        have hcov : t.off ≤ a.received.toNat := by simpa using hcov
        refine ⟨fun s' h => ?_, fun state h => by simp at h⟩
        obtain rfl := Except.ok.inj h
        exact ⟨h1, (hcov.trans hrep.upper).trans (by rw [h2]), hchunk⟩
      | none =>
        obtain ⟨h4, h5, h6⟩ := h1.syncStatus notifyOk e
        dsimp only
        cases hsync : link.syncStatus notifyOk e with
        | mk answer link' =>
          rw [hsync] at h4 h5 h6
          cases answer with
          | none => exact ⟨fun s' h => by simp at h, fun state h => by simp at h⟩
          | some a =>
            have hrep := h6 a rfl
            have hstate : ¬ a.state ≠ 1 := not_not_intro hrep.state
            have hdata : a.received.toNat ≤ link'.rx.data.length := by
              rw [h5]
              exact hrep.upper
            simp only [if_neg hstate]
            split
            · refine ⟨fun s' h => ?_, fun state h => by simp at h⟩
              obtain rfl := Except.ok.inj h
              refine ⟨h4, hdata, ?_⟩
              dsimp only
              split
              · exact le_rfl
              · exact hchunk
            · refine ⟨fun s' h => ?_, fun state h => by simp at h⟩
              obtain rfl := Except.ok.inj h
              exact ⟨h4, by dsimp only; omega, hchunk⟩

theorem At.rounds {s : Sender} (hs : At bs st on s) (notifyOk : Bool) (es : List Round) :
    (∀ s', rounds notifyOk bs es s = .ok s' → At bs st on s') ∧
      ∀ state, rounds notifyOk bs es s ≠ .error (.aborted state) := by
  induction es generalizing s with
  | nil =>
    refine ⟨fun s' h => ?_, fun state h => by simp [Web.rounds] at h⟩
    obtain rfl := Except.ok.inj h
    exact hs
  | cons e es ih =>
    unfold Web.rounds
    split
    · obtain ⟨h1, h2⟩ := hs.round notifyOk e
      cases hr : Web.round notifyOk bs e s with
      | error f =>
        refine ⟨fun s' h => by simp [bind, Except.bind] at h, fun state h => ?_⟩
        obtain rfl : f = .aborted state := by simpa [bind, Except.bind] using h
        exact h2 state hr
      | ok t => exact ih (h1 t hr)
    · refine ⟨fun s' h => ?_, fun state h => by simp at h⟩
      obtain rfl := Except.ok.inj h
      exact hs

theorem rounds_append (notifyOk : Bool) (es es' : List Round) (s : Sender) :
    rounds notifyOk bs (es ++ es') s = rounds notifyOk bs es s >>= rounds notifyOk bs es' := by
  induction es generalizing s with
  | nil => rfl
  | cons e es ih =>
    simp only [List.cons_append, rounds]
    split
    · cases round notifyOk bs e s with
      | error f => rfl
      | ok t => exact ih t
    · next hend =>
      cases es' with
      | nil => rfl
      | cons e' es' =>
        dsimp only [bind, Except.bind]
        rw [rounds, if_neg hend]

/-! ## Rounds without losses -/

/-- A round in which every write arrives, and in which the client waits long enough. -/
structure Round.Good (e : Round) : Prop where
  packets : ∀ i, (e.packets i).arrives = true ∧ (e.packets i).fails = false
  acked : e.acked.settles = true
  sync : e.sync.arrives = true ∧ e.sync.fails = false
  read : e.read.arrives = true ∧ e.read.fails = false

/-- After waiting long enough in vain, nothing is under way any more. -/
theorem waitFor_none {notifyOk : Bool} {w : Wait} {p : Status → Bool} {l : Link}
    (hn : notifyOk = true) (hw : w.settles = true) (h : (l.waitFor notifyOk w p).1 = none) :
    (l.waitFor notifyOk w p).2.air = [] ∧ (l.waitFor notifyOk w p).2.queue = [] := by
  unfold Link.waitFor at h ⊢
  simp only [hn, Bool.not_true, Bool.false_eq_true, if_false] at h ⊢
  refine ⟨?_, (firstWith_spec p (l.wait w).queue).2.2 h⟩
  unfold Link.wait
  simp only [hw, if_true]
  rfl

/-- With nothing under way, every STATUS to come is up to date. -/
theorem Sound.current {lo : Nat} {l : Link} (h : Sound bs st on lo l) (hair : l.air = [])
    (hqueue : l.queue = []) : Sound bs st on l.rx.data.length l :=
  ⟨h.rx, h.small, h.clear, h.notifyOn, le_rfl, by simp [hair], by simp [hqueue], h.handed⟩

/-- The answer to a request for the STATUS is what the receiver has, once nothing older is under
way. -/
theorem Sound.syncStatus_good {lo : Nat} {l : Link} (h : Sound bs st on lo l) {notifyOk : Bool}
    {e : Round} (he : e.Good) (hclear : notifyOk = true → l.air = [] ∧ l.queue = []) :
    ∃ a link, l.syncStatus notifyOk e = (some a, link) ∧ Sound bs st on lo link ∧
      link.rx.data = l.rx.data ∧ a.state = 1 ∧ a.received.toNat = l.rx.data.length := by
  obtain ⟨h1, h2, h3⟩ := h.askStatus notifyOk e
  cases hask : l.askStatus notifyOk e with
  | mk found link =>
    rw [hask] at h1 h2 h3
    cases found with
    | some a =>
      -- an answer by notification needs notifications, so nothing older is under way
      have hn : notifyOk = true := by
        by_contra hn
        simp [Link.askStatus, hn] at hask
      obtain ⟨hair, hqueue⟩ := hclear hn
      obtain ⟨-, -, h6⟩ := (h.current hair hqueue).askStatus notifyOk e
      rw [hask] at h6
      have hrep := h6 a rfl
      refine ⟨a, link, ?_, h1, h2, hrep.state, le_antisymm hrep.upper hrep.lower⟩
      rw [Link.syncStatus, hask]
    | none =>
      obtain ⟨h4, h5, h6⟩ := h1.readStatus e.read
      have hread : (link.readStatus e.read).1 =
          parseStatus (run Link.turn link e.read.turns).rx.statusBytes := by
        simp [Link.readStatus, he.read]
      rw [parseStatus_statusBytes] at hread
      refine ⟨_, (link.readStatus e.read).2, ?_, h4, h5.trans h2, (h6 _ hread).1.state, ?_⟩
      · rw [Link.syncStatus, hask]
        exact Prod.ext hread rfl
      · rw [(h6 _ hread).2, h2]

/-- The progress of a client. -/
def Sender.progress (s : Sender) : Progress := ⟨s.off, s.link.rx.data.length⟩

theorem At.round_good {s : Sender} (hs : At bs st on s) (hopen : s.off < bs.length)
    (notifyOk : Bool) {e : Round} (he : e.Good) :
    ∃ s', Web.round notifyOk bs e s = .ok s' ∧ At bs st on s' ∧ s'.chunk = s.chunk ∧
      Progress.Forward bs.length (ACK_EVERY * s.chunk) s.progress s'.progress := by
  have hsmall : 0 < CHUNK_SMALL := by decide
  have hoff : s.off ≤ bs.length := hopen.le
  obtain ⟨link, hb, hlink, hle, hexact⟩ := burst_good (n := ACK_EVERY) (i := 0) he.packets hs.sound
    hoff (hsmall.trans_le hs.chunk)
  have hdata := hlink.data_le
  unfold Web.round
  rw [hb]
  dsimp only [bind, Except.bind]
  generalize hburstEnd : min (s.off + ACK_EVERY * s.chunk) bs.length = burstEnd at *
  obtain ⟨h1, h2, h3⟩ := hlink.waitFor notifyOk e.acked fun st => burstEnd ≤ st.received.toNat
  have hvain := @waitFor_none notifyOk e.acked (fun st => burstEnd ≤ st.received.toNat) link
  cases hw : link.waitFor notifyOk e.acked fun st => burstEnd ≤ st.received.toNat with
  | mk found link₁ =>
    rw [hw] at h1 h2 h3 hvain
    cases found with
    | some a =>
      obtain ⟨hrep, hcov⟩ := h3 a rfl
      have hcov : burstEnd ≤ a.received.toNat := by simpa using hcov
      refine ⟨_, rfl, ⟨h1, ?_, hs.chunk⟩, rfl, .inl ⟨hburstEnd.symm, ?_⟩⟩
      · exact (hcov.trans hrep.upper).trans (by rw [h2])
      · dsimp only [Sender.progress]
        rw [h2]
        exact hexact
    | none =>
      obtain ⟨a, link₂, hsync, h4, h5, hstate, hrec⟩ :=
        h1.syncStatus_good he fun hn => hvain hn he.acked rfl
      dsimp only
      rw [hsync]
      dsimp only
      rw [if_neg (not_not_intro hstate)]
      have hrec' : a.received.toNat = link₂.rx.data.length := by rw [hrec, h5]
      have hlen : link₂.rx.data.length = link.rx.data.length := by rw [h5, h2]
      split
      · next hshort =>
        -- the receiver has less than was sent, so the client was behind it
        have hbehind : s.off < s.link.rx.data.length := by
          by_contra hge
          have := hexact (by have := hs.off; omega)
          omega
        refine ⟨_, rfl, ⟨h4, hrec'.le, ?_⟩, ?_, .inr ⟨hbehind, ?_, hrec'⟩⟩
        · dsimp only
          rw [if_neg (by omega)]
          exact hs.chunk
        · exact if_neg (by omega)
        · dsimp only [Sender.progress]
          omega
      · refine ⟨_, rfl, ⟨h4, by dsimp only; omega, hs.chunk⟩, rfl, .inl ⟨hburstEnd.symm, ?_⟩⟩
        dsimp only [Sender.progress]
        rw [hlen]
        exact hexact

/-- Enough rounds without losses bring the client to the end. -/
theorem At.rounds_good {s : Sender} (hs : At bs st on s) (notifyOk : Bool) {es : List Round}
    (hes : ∀ e ∈ es, e.Good)
    (henough : Progress.roundsLeft bs.length (ACK_EVERY * s.chunk) s.progress ≤ es.length) :
    ∃ s', Web.rounds notifyOk bs es s = .ok s' ∧ At bs st on s' ∧ s'.off = bs.length := by
  have hsmall : 0 < CHUNK_SMALL := by decide
  have hpos : 0 < ACK_EVERY * s.chunk :=
    Nat.mul_pos (by decide) (hsmall.trans_le hs.chunk)
  have hle : s.off ≤ bs.length := hs.off.trans hs.sound.data_le
  induction es generalizing s with
  | nil =>
    refine ⟨s, rfl, hs, ?_⟩
    exact Progress.off_eq_of_roundsLeft hpos hle (Nat.le_zero.mp henough)
  | cons e es ih =>
    unfold Web.rounds
    by_cases hopen : s.off < bs.length
    · obtain ⟨t, hr, ht, hchunk, hforward⟩ := hs.round_good hopen notifyOk (hes e (by simp))
      have hlt := Progress.roundsLeft_lt hpos hopen hforward
      rw [List.length_cons] at henough
      rw [if_pos hopen, hr]
      refine ih ht (fun e he => hes e (by simp [he])) ?_ (hchunk ▸ hpos)
        (ht.off.trans ht.sound.data_le)
      rw [hchunk]
      omega
    · rw [if_neg hopen]
      exact ⟨s, rfl, hs, by omega⟩

/-! ## START -/

theorem turn_connect (on : Bool) (t : Turn) : (Link.connect on).turn t = Link.connect on := by
  cases on <;> cases t <;> rfl

theorem turns_connect (on : Bool) (ts : List Turn) :
    run Link.turn (Link.connect on) ts = Link.connect on := by
  induction ts with
  | nil => rfl
  | cons t ts ih => rw [run_cons, turn_connect, ih]

theorem wait_connect (on : Bool) (w : Wait) : (Link.connect on).wait w = Link.connect on := by
  unfold Link.wait
  simp only [turns_connect, turn_connect]
  split <;> rfl

/-- No CTRL write changes the subscription. -/
theorem ctrl_notifyOn (r : ImgRx) (d : List UInt8) : (r.ctrl d).notifyOn = r.notifyOn := by
  cases d with
  | nil => rfl
  | cons op args =>
    rcases r.ctrl_cases op args with ⟨-, -, h⟩ | ⟨-, -, h⟩ | ⟨-, h⟩ | ⟨-, h⟩ | ⟨-, h⟩ |
      ⟨-, -, -, ntf, doze, h⟩ <;> rw [h]
    · unfold ImgRx.startContent
      grind [ImgRx.reset]
    · unfold ImgRx.startImage
      grind [ImgRx.reset]
    · unfold ImgRx.commit
      grind
    · rfl

/-- START begins the transfer on a new connection. -/
theorem sound_start (hv : st.Valid bs) (on : Bool) :
    Sound bs st on 0
      { Link.connect on with rx := (Link.connect on).rx.gatt (.ctrl (startPacket bs st)) } := by
  have hrx := ImgRx.ctrl_start (Link.connect on).rx bs st hv (UInt8.ofNat ACK_EVERY) []
  rw [← startPacket_eq] at hrx
  refine ⟨hrx, ?_, ?_, ?_, Nat.zero_le _, by simp [Link.connect], by simp [Link.connect], rfl⟩
  · cases st with
    | image w h =>
      obtain ⟨-, -, hw, hh, hlen⟩ := hv
      exact hlen.le.trans (ImgRx.imageBytes_le hw hh)
    | content => exact hv.2.trans (by decide)
  · cases st with
    | image w h =>
      have hargs : (startPacket bs (.image w h)).tail.length ≥ 13 := by simp [startPacket]
      exact (ImgRx.startImage_fresh (Link.connect on).rx hargs).2.2
    | content =>
      have hargs : (startPacket bs .content).tail.length ≥ 9 := by simp [startPacket]
      exact (ImgRx.startContent_fresh (Link.connect on).rx hargs).2.2
  · exact ctrl_notifyOn (Link.connect on).rx (startPacket bs st)

theorem begin_sound (hv : st.Valid bs) (notifyOk on : Bool) (e : Script) :
    (∀ l, begin notifyOk (startPacket bs st) e (Link.connect on) = .ok l → Sound bs st on 0 l) ∧
      ∀ state, begin notifyOk (startPacket bs st) e (Link.connect on) ≠
        .error (.aborted state) := by
  have hnever : ∀ state, begin notifyOk (startPacket bs st) e (Link.connect on) ≠
      .error (.aborted state) := by
    intro state h
    unfold begin at h
    grind
  refine ⟨fun l h => ?_, hnever⟩
  unfold begin Link.write at h
  simp only [turns_connect] at h
  by_cases harrives : e.start.arrives = true
  · have hs := sound_start hv on
    rw [if_pos harrives] at h
    obtain ⟨h1, -, -⟩ := hs.waitFor notifyOk e.started fun st => st.state = 1
    grind [Sound.readStatus]
  · rw [if_neg harrives] at h
    -- without START nothing ever says that a transfer is in progress
    have hwait : (Link.connect on).waitFor notifyOk e.started (fun st => st.state = 1) =
        (none, Link.connect on) := by
      unfold Link.waitFor
      simp only [wait_connect]
      cases notifyOk <;> rfl
    have hidle : (parseStatus (Link.connect on).rx.statusBytes).map Status.state = some 0 := by
      rw [parseStatus_statusBytes]
      rfl
    simp only [hwait, Link.readStatus, turns_connect] at h
    grind

/-! ## The commit -/

/-- What the receiver makes of `bs`. -/
def verdict (bs : List UInt8) : ImgRx.Start → RxState
  | .image _ _ => .committed
  | .content =>
    match PlateContent.validatePlain (lossy bs) with
    | .ok _ => .committed
    | .error _ => .rejected

/-- What the app is to be handed. -/
def updates (bs : List UInt8) : ImgRx.Start → List BleUpdate
  | .image w h => [.image ⟨w, h, bs⟩]
  | .content =>
    match PlateContent.validatePlain (lossy bs) with
    | .ok _ => [.text bs]
    | .error _ => []

/-- The STATUS values under way, the oldest first. -/
def Link.sequence (l : Link) : List Status := l.queue ++ l.air.filterMap parseStatus

/-- The transfer of `bs` is over, and its update waits or has been handed over. -/
structure Closed (bs : List UInt8) (st : ImgRx.Start) (l : Link) : Prop where
  books : l.handed ++ l.rx.pending = updates bs st
  clear : l.rx.clearImageReq = false
  state : l.rx.state = verdict bs st ∨ l.rx.state = .idle ∧ l.rx.pending = []
  /-- That the receiver is idle again is said only when nothing waits any more. -/
  reports : ∀ s ∈ l.sequence, s.state = 1 ∨ s.state = (verdict bs st).code ∨
    s.state = 0 ∧ l.rx.pending = []

theorem Closed.report {l : Link} (h : Closed bs st l) {s : Status}
    (hs : s ∈ parseStatus l.rx.statusBytes) :
    s.state = (verdict bs st).code ∨ s.state = 0 ∧ l.rx.pending = [] := by
  rw [parseStatus_statusBytes] at hs
  obtain rfl := Option.mem_some_iff.mp hs
  rcases h.state with heq | ⟨heq, hnone⟩
  · exact .inl (congrArg RxState.code heq)
  · exact .inr ⟨congrArg RxState.code heq, hnone⟩

theorem length_updates_le (bs : List UInt8) (st : ImgRx.Start) : (updates bs st).length ≤ 1 := by
  unfold updates
  grind

/-- A turn adds at most the STATUS that the receiver sends. -/
theorem mem_sequence_turn {l : Link} {t : Turn} {s : Status} (hs : s ∈ (l.turn t).sequence) :
    s ∈ l.sequence ∨ s ∈ parseStatus l.rx.statusBytes := by
  cases t with
  | notification =>
    have hsent : ∀ b ∈ l.rx.takeNotification.1, b = l.rx.statusBytes := by
      intro b hb
      unfold ImgRx.takeNotification at hb
      grind [ImgRx.statusBytes]
    simp only [Link.turn, Link.sequence, List.filterMap_append, List.mem_append] at hs
    rcases hs with hs | hs | hs
    · exact .inl (List.mem_append_left _ hs)
    · exact .inl (List.mem_append_right _ hs)
    · obtain ⟨b, hb, hs⟩ := List.mem_filterMap.mp hs
      exact .inr (hsent b (Option.mem_toList.mp hb) ▸ hs)
  | arrive =>
    left
    cases hair : l.air with
    | nil => simpa only [Link.turn, hair] using hs
    | cons b air =>
      simp only [Link.turn, hair, Link.sequence, List.mem_append] at hs ⊢
      grind
  | lose =>
    left
    simp only [Link.turn, Link.sequence, List.mem_append, List.mem_filterMap] at hs ⊢
    rcases hs with hs | ⟨b, hb, hs⟩
    · exact .inl hs
    · exact .inr ⟨b, List.mem_of_mem_tail hb, hs⟩
  | image =>
    left
    unfold Link.turn at hs
    grind [Link.sequence]
  | text =>
    left
    unfold Link.turn at hs
    grind [Link.sequence]
  | clear =>
    left
    unfold Link.turn at hs
    grind [Link.sequence]

/-- What a turn does to the receiver. -/
theorem turn_cases (l : Link) (t : Turn) :
    (∃ ntf, (l.turn t).rx = { l.rx with pendingNtf := ntf } ∧ (l.turn t).handed = l.handed) ∨
    (∃ img, l.rx.done = some img ∧ l.rx.pendingNtf = false ∧
      (l.turn t).rx = { l.rx with done := none, state := .idle } ∧
      (l.turn t).handed = l.handed ++ [.image img]) ∨
    (∃ text, l.rx.doneContent = some text ∧ l.rx.pendingNtf = false ∧
      (l.turn t).rx = { l.rx with doneContent := none, state := .idle } ∧
      (l.turn t).handed = l.handed ++ [.text text]) ∨
    (l.rx.clearImageReq = true ∧ l.rx.pendingNtf = false ∧
      (l.turn t).rx = { l.rx with clearImageReq := false } ∧
      (l.turn t).handed = l.handed ++ [.clear]) := by
  cases t with
  | notification => exact .inl ⟨false, l.rx.takeNotification_eq, rfl⟩
  | arrive =>
    refine .inl ⟨l.rx.pendingNtf, ?_⟩
    cases hair : l.air <;> simp only [Link.turn, hair, and_self]
  | lose => exact .inl ⟨l.rx.pendingNtf, rfl, rfl⟩
  | image =>
    rcases l.rx.takeImage_cases with heq | ⟨img, hdone, hntf, heq⟩
    · refine .inl ⟨l.rx.pendingNtf, ?_⟩
      simp only [Link.turn, heq, and_self]
    · refine .inr (.inl ⟨img, hdone, hntf, ?_⟩)
      simp only [Link.turn, heq, and_self]
  | text =>
    rcases l.rx.takeText_cases with heq | ⟨text, hdone, hntf, heq⟩
    · refine .inl ⟨l.rx.pendingNtf, ?_⟩
      simp only [Link.turn, heq, and_self]
    · refine .inr (.inr (.inl ⟨text, hdone, hntf, ?_⟩))
      simp only [Link.turn, heq, and_self]
  | clear =>
    unfold Link.turn ImgRx.takeClear
    by_cases hc : l.rx.clearImageReq = true ∧ l.rx.pendingNtf = false
    · exact .inr (.inr (.inr ⟨hc.1, hc.2, by simp [hc], by simp [hc]⟩))
    · have hc' : (l.rx.clearImageReq && !l.rx.pendingNtf) = false := by simpa using hc
      exact .inl ⟨l.rx.pendingNtf, by simp [hc'], by simp [hc']⟩

theorem turn_pending {l : Link} (h : l.rx.pending = []) (t : Turn) :
    (l.turn t).rx.pending = [] := by
  rcases turn_cases l t with ⟨ntf, hrx, -⟩ | ⟨img, hdone, -⟩ | ⟨text, hdone, -⟩ | ⟨hreq, -⟩
  · rw [hrx]
    exact h
  · simp [ImgRx.pending, hdone] at h
  · simp [ImgRx.pending, hdone] at h
  · simp [ImgRx.pending, hreq] at h

theorem Closed.turn {l : Link} (h : Closed bs st l) (t : Turn) : Closed bs st (l.turn t) := by
  have hreports : ∀ s ∈ (l.turn t).sequence,
      s.state = 1 ∨ s.state = (verdict bs st).code ∨ s.state = 0 ∧ (l.turn t).rx.pending = [] := by
    intro s hs
    have hkept : s.state = 0 ∧ l.rx.pending = [] → s.state = 0 ∧ (l.turn t).rx.pending = [] :=
      fun hidle => ⟨hidle.1, turn_pending hidle.2 t⟩
    rcases mem_sequence_turn hs with hs | hs
    · exact (h.reports s hs).imp_right (Or.imp_right hkept)
    · exact .inr ((h.report hs).imp_right hkept)
  have hbooks := h.books
  have hone := length_updates_le bs st
  rcases turn_cases l t with ⟨ntf, hrx, hhanded⟩ | ⟨img, hdone, -, hrx, hhanded⟩ |
    ⟨text, hdone, -, hrx, hhanded⟩ | ⟨hreq, -⟩
  · exact ⟨by rw [hrx, hhanded]; exact hbooks, by rw [hrx]; exact h.clear,
      by rw [hrx]; exact h.state, hreports⟩
  · -- only one update can be waiting, so no text does
    have hnone : l.rx.doneContent = none := by
      have hlen := congrArg List.length hbooks
      cases htext : l.rx.doneContent with
      | none => rfl
      | some text =>
        simp only [List.length_append, ImgRx.pending, hdone, htext, Option.toList_some,
          List.map_cons, List.length_cons] at hlen
        omega
    refine ⟨?_, by rw [hrx]; exact h.clear, ?_, hreports⟩
    · rw [hrx, hhanded, ← hbooks]
      simp [ImgRx.pending, hdone]
    · rw [hrx]
      exact .inr ⟨rfl, by simp [ImgRx.pending, hnone, h.clear]⟩
  · -- nor does an image
    have hnone : l.rx.done = none := by
      have hlen := congrArg List.length hbooks
      cases himg : l.rx.done with
      | none => rfl
      | some img =>
        simp only [List.length_append, ImgRx.pending, hdone, himg, Option.toList_some,
          List.map_cons, List.length_cons] at hlen
        omega
    refine ⟨?_, by rw [hrx]; exact h.clear, ?_, hreports⟩
    · rw [hrx, hhanded, ← hbooks]
      simp [ImgRx.pending, hdone, hnone]
    · rw [hrx]
      exact .inr ⟨rfl, by simp [ImgRx.pending, hnone, h.clear]⟩
  · exact absurd hreq (by simp [h.clear])

theorem Closed.turns {l : Link} (h : Closed bs st l) (ts : List Turn) :
    Closed bs st (run Link.turn l ts) :=
  (always_of_invariant (P := Closed bs st) (fun _ t h => h.turn t) h ts).last

/-- The commit of a transfer that was received in full. -/
theorem Sound.closed {lo : Nat} {l : Link} (h : Sound bs st on lo l) (hdata : l.rx.data = bs) :
    Closed bs st { l with rx := l.rx.gatt (.ctrl [0x02]) } ∧
      (l.rx.gatt (.ctrl [0x02])).pendingNtf = true ∧
      (l.rx.gatt (.ctrl [0x02])).state = verdict bs st ∧
      (l.rx.gatt (.ctrl [0x02])).notifyOn = l.rx.notifyOn := by
  have hcommit : l.rx.gatt (.ctrl [0x02]) = l.rx.commit := rfl
  obtain ⟨h1, h2, h3, h4, h5, h6, h7, h8, h9⟩ := h.rx
  have hreports : ∀ s ∈ Link.sequence { l with rx := l.rx.commit },
      s.state = 1 ∨ s.state = (verdict bs st).code ∨ s.state = 0 ∧ l.rx.commit.pending = [] := by
    intro s hs
    rcases List.mem_append.mp hs with hs | hs
    · exact .inl (h.queue s hs).state
    · obtain ⟨b, hb, hs⟩ := List.mem_filterMap.mp hs
      exact .inl (h.air b hb s hs).state
  rw [hcommit]
  cases st with
  | image width height =>
    have hkind : l.rx.kind ≠ .content := by rw [h2]; simp [ImgRx.Start.kind]
    have heq : l.rx.commit = { l.rx with
        state := .committed, done := some ⟨width, height, bs⟩, data := [],
          pendingNtf := true } := by
      simp only [ImgRx.Start.width, ImgRx.Start.height] at h3 h4
      simp [ImgRx.commit, ImgRx.receiving, h1, h5, h6, hkind, h3, h4, hdata]
    rw [heq] at hreports ⊢
    refine ⟨⟨?_, h.clear, .inl rfl, hreports⟩, rfl, rfl, rfl⟩
    simp [ImgRx.pending, h.handed, h.clear, h9, updates]
  | content =>
    have hkind : l.rx.kind = .content := h2
    cases hvalid : PlateContent.validatePlain (lossy bs) with
    | ok u =>
      have heq : l.rx.commit = { l.rx with
          state := .committed, doneContent := some bs, data := [], pendingNtf := true } := by
        simp [ImgRx.commit, ImgRx.receiving, h1, h5, h6, hkind, hdata, hvalid]
      rw [heq] at hreports ⊢
      refine ⟨⟨?_, h.clear, .inl ?_, hreports⟩, rfl, ?_, rfl⟩
      · simp [ImgRx.pending, h.handed, h.clear, h8, updates, hvalid]
      · simp [verdict, hvalid]
      · simp [verdict, hvalid]
    | error msg =>
      have heq : l.rx.commit = { l.rx with
          state := .rejected, data := [], pendingNtf := true } := by
        simp [ImgRx.commit, ImgRx.receiving, h1, h5, h6, hkind, hdata, hvalid]
      rw [heq] at hreports ⊢
      refine ⟨⟨?_, h.clear, .inl ?_, hreports⟩, rfl, ?_, rfl⟩
      · simp [ImgRx.pending, h.handed, h.clear, h8, h9, updates, hvalid]
      · simp [verdict, hvalid]
      · simp [verdict, hvalid]

theorem sequence_arriveAll (l : Link) : l.arriveAll.sequence = l.sequence := by
  simp [Link.arriveAll, Link.sequence]

theorem Closed.wait {l : Link} (h : Closed bs st l) (w : Wait) : Closed bs st (l.wait w) := by
  have hts := h.turns w.turns
  unfold Link.wait
  dsimp only
  split
  · obtain ⟨h1, h2, h3, h4⟩ := hts.turn .notification
    exact ⟨h1, h2, h3, by rw [sequence_arriveAll]; exact h4⟩
  · exact hts

theorem Closed.waitFor {l : Link} (h : Closed bs st l) (notifyOk : Bool) (w : Wait)
    (p : Status → Bool) : Closed bs st (l.waitFor notifyOk w p).2 ∧
      ∀ s ∈ (l.waitFor notifyOk w p).1, p s = true ∧ (s.state = 1 ∨
        s.state = (verdict bs st).code ∨
          s.state = 0 ∧ (l.waitFor notifyOk w p).2.rx.pending = []) := by
  unfold Link.waitFor
  split
  · exact ⟨h, fun s hs => absurd hs (by simp)⟩
  · obtain ⟨h1, h2, h3, h4⟩ := h.wait w
    obtain ⟨h5, h6, -⟩ := firstWith_spec p (l.wait w).queue
    refine ⟨⟨h1, h2, h3, fun s hs => h4 s ?_⟩, fun s hs => ?_⟩
    · rcases List.mem_append.mp hs with hs | hs
      · exact List.mem_append_left _ (h6 hs)
      · exact List.mem_append_right _ hs
    · exact ⟨(h5 s hs).2, h4 s (List.mem_append_left _ (h5 s hs).1)⟩

/-- After a pass of the session nothing waits. -/
theorem pass_pending (l : Link) : l.pass.rx.pending = [] := by
  have hsent : (l.turn .notification).rx.pendingNtf = false := by
    simp only [Link.turn, ImgRx.takeNotification_eq]
  have himage : ∀ m : Link, m.rx.pendingNtf = false →
      (m.turn .image).rx.pendingNtf = false ∧ (m.turn .image).rx.done = none := by
    intro m hm
    cases hdone : m.rx.done <;> simp [Link.turn, ImgRx.takeImage, hm, hdone]
  have htext : ∀ m : Link, m.rx.pendingNtf = false → (m.turn .text).rx.pendingNtf = false ∧
      (m.turn .text).rx.done = m.rx.done ∧ (m.turn .text).rx.doneContent = none := by
    intro m hm
    cases hdone : m.rx.doneContent <;> simp [Link.turn, ImgRx.takeText, hm, hdone]
  have hclear : ∀ m : Link, m.rx.pendingNtf = false → (m.turn .clear).rx.done = m.rx.done ∧
      (m.turn .clear).rx.doneContent = m.rx.doneContent ∧
        (m.turn .clear).rx.clearImageReq = false := by
    intro m hm
    cases hreq : m.rx.clearImageReq <;> simp [Link.turn, ImgRx.takeClear, hm, hreq]
  obtain ⟨hntf, hdone⟩ := himage _ hsent
  obtain ⟨hntf', hdone', hcontent⟩ := htext _ hntf
  obtain ⟨hdone'', hcontent', hreq⟩ := hclear _ hntf'
  change (Link.turn (Link.turn (Link.turn (l.turn .notification) .image) .text) .clear).rx.pending =
    []
  simp [ImgRx.pending, hdone'', hdone', hdone, hcontent', hcontent, hreq]

/-- However the session goes on by itself, it has never handed over anything but `us`, and with its
next pass all of it, once. -/
def HandsOver (us : List BleUpdate) (l : Link) : Prop :=
  ∀ ts, (run Link.turn l ts).handed <+: us ∧ (run Link.turn l ts).pass.handed = us

theorem Closed.handsOver {l : Link} (h : Closed bs st l) : HandsOver (updates bs st) l := by
  intro ts
  have hts := h.turns ts
  have hbooks := (hts.turns [.notification, .image, .text, .clear]).books
  have hnone :
      (run Link.turn (run Link.turn l ts) [.notification, .image, .text, .clear]).rx.pending =
      [] := pass_pending _
  rw [hnone, List.append_nil] at hbooks
  exact ⟨⟨_, hts.books⟩, hbooks⟩

theorem Sound.handsOver {lo : Nat} {l : Link} (h : Sound bs st on lo l) : HandsOver [] l := by
  intro ts
  have hts := (h.turns ts).1
  exact ⟨hts.handed ▸ List.prefix_rfl, (hts.turns [.notification, .image, .text, .clear]).1.handed⟩

theorem write_arrives {a : Access} (ha : a.arrives = true) (g : Gatt) (l : Link) :
    l.write a g =
      { run Link.turn l a.turns with rx := (run Link.turn l a.turns).rx.gatt g } := by
  simp [Link.write, ha]

/-- Where the commit arrives, the update is waiting or handed over, and a STATUS that the client
ends with is the verdict, or says that the receiver is idle again after the update was handed
over. -/
theorem finish_closed {l : Link} (h : Sound bs st on 0 l) (hdata : l.rx.data = bs) (notifyOk : Bool)
    {e : Script} (ha : e.commit.arrives = true) {found : Option Status} {l' : Link}
    (hf : finish notifyOk e l = .ok (found, l')) :
    Closed bs st l' ∧
      ∀ s ∈ found, s.state = (verdict bs st).code ∨ s.state = 0 ∧ l'.rx.pending = [] := by
  obtain ⟨hts, hsame⟩ := h.turns e.commit.turns
  have hclosed := (hts.closed (hsame.trans hdata)).1
  rw [← write_arrives ha] at hclosed
  obtain ⟨h1, h2⟩ := hclosed.waitFor notifyOk e.verdict fun st => st.state ≠ 1
  unfold finish at hf
  dsimp only at hf
  split at hf
  · exact absurd hf (by simp)
  · split at hf
    · next s l₁ heq =>
      rw [heq] at h1 h2
      obtain ⟨rfl, rfl⟩ := Prod.mk.inj (Except.ok.inj hf)
      refine ⟨h1, fun t ht => ?_⟩
      obtain ⟨hne, hstate⟩ := h2 t ht
      exact hstate.resolve_left (by simpa using hne)
    · next l₁ heq =>
      rw [heq] at h1
      have hread := h1.turns e.late.turns
      unfold Link.readStatus at hf
      obtain ⟨rfl, rfl⟩ := Prod.mk.inj (Except.ok.inj hf)
      refine ⟨hread, fun t ht => ?_⟩
      split at ht
      · exact hread.report ht
      · exact absurd ht (by simp)

/-- Where the commit is lost, nothing is handed over, and a STATUS that the client ends with says
that the transfer still goes on. -/
theorem finish_lost {l : Link} (h : Sound bs st on 0 l) (notifyOk : Bool) {e : Script}
    (ha : e.commit.arrives = false) {found : Option Status} {l' : Link}
    (hf : finish notifyOk e l = .ok (found, l')) :
    HandsOver [] l' ∧ ∀ s ∈ found, s.state = 1 := by
  have hwrite : l.write e.commit (.ctrl [0x02]) = run Link.turn l e.commit.turns := by
    simp [Link.write, ha]
  obtain ⟨h1, -, h3⟩ := (h.turns e.commit.turns).1.waitFor notifyOk e.verdict fun st => st.state ≠ 1
  unfold finish at hf
  rw [hwrite] at hf
  dsimp only at hf
  split at hf
  · exact absurd hf (by simp)
  · split at hf
    · next s l₁ heq =>
      rw [heq] at h3
      obtain ⟨hrep, hne⟩ := h3 s rfl
      exact absurd hrep.state (by simpa using hne)
    · next l₁ heq =>
      rw [heq] at h1
      obtain ⟨h4, -, h6⟩ := h1.readStatus e.late
      have hpair := Except.ok.inj hf
      rw [hpair] at h4 h6
      exact ⟨h4.handsOver, fun s hs => (h6 s hs).1.state⟩

/-- How a transfer can end: with an error of one of its three parts, in the middle, or after the
commit. -/
theorem transfer_cases (notifyOk : Bool) (start : List UInt8) (e : Script) (l : Link) :
    (∃ f, transfer notifyOk start bs e l = .error f ∧
      (begin notifyOk start e l = .error f ∨
        ∃ l₀, begin notifyOk start e l = .ok l₀ ∧
          (rounds notifyOk bs e.rounds ⟨CHUNK_BIG, 0, l₀⟩ = .error f ∨
            ∃ s, rounds notifyOk bs e.rounds ⟨CHUNK_BIG, 0, l₀⟩ = .ok s ∧
              finish notifyOk e s.link = .error f))) ∨
    ∃ l₀ s, begin notifyOk start e l = .ok l₀ ∧
      rounds notifyOk bs e.rounds ⟨CHUNK_BIG, 0, l₀⟩ = .ok s ∧
      ((s.off < bs.length ∧ transfer notifyOk start bs e l = .ok (.running s)) ∨
        (¬ s.off < bs.length ∧ ∃ found l', finish notifyOk e s.link = .ok (found, l') ∧
          transfer notifyOk start bs e l = .ok (.done found l'))) := by
  unfold transfer
  cases hb : begin notifyOk start e l with
  | error f => exact .inl ⟨f, rfl, .inl rfl⟩
  | ok l₀ =>
    dsimp only [bind, Except.bind]
    cases hr : rounds notifyOk bs e.rounds ⟨CHUNK_BIG, 0, l₀⟩ with
    | error f => exact .inl ⟨f, rfl, .inr ⟨l₀, rfl, .inl hr⟩⟩
    | ok s =>
      dsimp only
      by_cases hopen : s.off < bs.length
      · exact .inr ⟨l₀, s, rfl, hr, .inl ⟨hopen, if_pos hopen⟩⟩
      · rw [if_neg hopen]
        cases hf : finish notifyOk e s.link with
        | error f => exact .inl ⟨f, rfl, .inr ⟨l₀, rfl, .inr ⟨s, hr, hf⟩⟩⟩
        | ok p => exact .inr ⟨l₀, s, rfl, hr, .inr ⟨hopen, p.1, p.2, hf, rfl⟩⟩

theorem at_start {l : Link} (h : Sound bs st on 0 l) : At bs st on ⟨CHUNK_BIG, 0, l⟩ :=
  ⟨h, Nat.zero_le _, (by decide : CHUNK_SMALL ≤ CHUNK_BIG)⟩

/-- At the end of its loop the client knows that everything was received. -/
theorem At.received {s : Sender} (hs : At bs st on s) (hend : ¬ s.off < bs.length) :
    s.link.rx.data = bs := by
  refine hs.sound.rx.data.eq_of_length ?_
  have := hs.off
  have := hs.sound.data_le
  omega

theorem transfer_not_aborted (hv : st.Valid bs) (notifyOk on : Bool) (e : Script) (state : UInt8) :
    transfer notifyOk (startPacket bs st) bs e (Link.connect on) ≠ .error (.aborted state) := by
  intro h
  obtain ⟨hsound, hbegin⟩ := begin_sound hv notifyOk on e
  rcases @transfer_cases bs notifyOk (startPacket bs st) e (Link.connect on) with
    ⟨f, heq, hf⟩ | ⟨l₀, s, -, -, ⟨-, heq⟩ | ⟨-, found, l', -, heq⟩⟩
  · obtain rfl : f = .aborted state := by simpa [heq] using h
    rcases hf with hf | ⟨l₀, hb, hf | ⟨s, -, hf⟩⟩
    · exact hbegin state hf
    · exact ((at_start (hsound l₀ hb)).rounds notifyOk e.rounds).2 state hf
    · unfold finish at hf
      grind
  · simp [heq] at h
  · simp [heq] at h

/-- When the client is done, the session hands over exactly what was sent, or nothing if the commit
was lost. A STATUS that the client ends with is the verdict, or says that the receiver is idle when
the update has been handed over already; if the commit was lost, it says that the transfer goes
on. -/
theorem done_books (hv : st.Valid bs) {notifyOk on : Bool} {e : Script} {found : Option Status}
    {l : Link}
    (h : transfer notifyOk (startPacket bs st) bs e (Link.connect on) = .ok (.done found l)) :
    HandsOver (if e.commit.arrives then updates bs st else []) l ∧
      ∀ s ∈ found,
        if e.commit.arrives then
          s.state = (verdict bs st).code ∨ s.state = RxState.idle.code ∧ l.handed = updates bs st
        else s.state = RxState.receiving.code := by
  obtain ⟨hsound, -⟩ := begin_sound hv notifyOk on e
  rcases @transfer_cases bs notifyOk (startPacket bs st) e (Link.connect on) with
    ⟨f, heq, -⟩ | ⟨l₀, s, hb, hr, ⟨-, heq⟩ | ⟨hend, found', l', hf, heq⟩⟩
  · simp [heq] at h
  · simp [heq] at h
  · have hat := ((at_start (hsound l₀ hb)).rounds notifyOk e.rounds).1 s hr
    obtain ⟨rfl, rfl⟩ : found' = found ∧ l' = l := by simpa [heq] using h
    by_cases ha : e.commit.arrives = true
    · obtain ⟨hclosed, htold⟩ := finish_closed hat.sound (hat.received hend) notifyOk ha hf
      simp only [ha, if_true]
      refine ⟨hclosed.handsOver, fun t ht => (htold t ht).imp_right fun hidle => ⟨hidle.1, ?_⟩⟩
      have hbooks := hclosed.books
      rwa [hidle.2, List.append_nil] at hbooks
    · have ha : e.commit.arrives = false := by simpa using ha
      obtain ⟨hnone, htold⟩ := finish_lost hat.sound notifyOk ha hf
      simp only [ha, Bool.false_eq_true, if_false]
      exact ⟨hnone, htold⟩

/-- However the air treats a transfer, the device never aborts it; while it runs, the receiver has a
prefix that covers all the client counts on, and nothing is handed over. When the client is done,
the session hands over exactly what was sent, or nothing if the commit was lost; a STATUS that the
client ends with is the verdict, or says that the receiver is idle when the update has been handed
over already, and after a lost commit that the transfer goes on. -/
theorem transfer_truthful (bs : List UInt8) (st : ImgRx.Start) (hv : st.Valid bs)
    (notifyOk on : Bool) (e : Script) :
    let result := transfer notifyOk (startPacket bs st) bs e (Link.connect on)
    (∀ state, result ≠ .error (.aborted state)) ∧
      (∀ s, result = .ok (.running s) →
        s.link.rx.data <+: bs ∧ s.off ≤ s.link.rx.data.length ∧ HandsOver [] s.link) ∧
      ∀ found l, result = .ok (.done found l) →
        HandsOver (if e.commit.arrives then updates bs st else []) l ∧
          ∀ s ∈ found,
            if e.commit.arrives then
              s.state = (verdict bs st).code ∨
                s.state = RxState.idle.code ∧ l.handed = updates bs st
            else s.state = RxState.receiving.code := by
  refine ⟨transfer_not_aborted hv notifyOk on e, fun s h => ?_, fun found l h => done_books hv h⟩
  obtain ⟨hsound, -⟩ := begin_sound hv notifyOk on e
  rcases @transfer_cases bs notifyOk (startPacket bs st) e (Link.connect on) with
    ⟨f, heq, -⟩ | ⟨l₀, s', hb, hr, ⟨-, heq⟩ | ⟨-, found, l, -, heq⟩⟩
  · simp [heq] at h
  · have hat := ((at_start (hsound l₀ hb)).rounds notifyOk e.rounds).1 s' hr
    obtain rfl : s' = s := by simpa [heq] using h
    exact ⟨hat.sound.rx.data, hat.off, hat.sound.handsOver⟩
  · simp [heq] at h

/-! ## The end of a transfer without losses -/

/-- The client will be told the verdict: it is pending, or it is the first STATUS under way that
says anything but that the transfer goes on. -/
def Announced (bs : List UInt8) (st : ImgRx.Start) (l : Link) : Prop :=
  (l.rx.pendingNtf = true ∧ l.rx.notifyOn = true ∧ l.rx.state = verdict bs st ∧
    ∀ s ∈ l.sequence, s.state = 1) ∨
  ∃ s, (firstWith (fun st => st.state ≠ 1) l.sequence).1 = some s ∧
    s.state = (verdict bs st).code

theorem firstWith_append {p : Status → Bool} {queue : List Status} {s : Status}
    (h : (firstWith p queue).1 = some s) (more : List Status) :
    (firstWith p (queue ++ more)).1 = some s := by
  induction queue with
  | nil => simp [firstWith] at h
  | cons t queue ih =>
    rw [List.cons_append]
    unfold firstWith at h ⊢
    grind

theorem firstWith_append_of_none {p : Status → Bool} {queue : List Status}
    (h : ∀ s ∈ queue, p s = false) (more : List Status) :
    firstWith p (queue ++ more) = firstWith p more := by
  induction queue with
  | nil => rfl
  | cons t queue ih =>
    rw [List.cons_append, firstWith, h t (by simp), if_neg (by simp)]
    exact ih fun s hs => h s (by simp [hs])

theorem verdict_code_ne (bs : List UInt8) (st : ImgRx.Start) : (verdict bs st).code ≠ 1 := by
  unfold verdict
  grind [RxState.code]

theorem takeNotification_pending {r : ImgRx} (hp : r.pendingNtf = true) (hn : r.notifyOn = true) :
    r.takeNotification.1 = some r.statusBytes := by
  unfold ImgRx.takeNotification
  grind [ImgRx.statusBytes]

/-- Sending the pending STATUS puts the verdict behind what is under way. -/
theorem Announced.notification {l : Link} (h : Announced bs st l) :
    ∃ s, (firstWith (fun st => st.state ≠ 1) (l.turn .notification).sequence).1 = some s ∧
      s.state = (verdict bs st).code := by
  have hseq : (l.turn .notification).sequence =
      l.sequence ++ l.rx.takeNotification.1.toList.filterMap parseStatus := by
    simp [Link.turn, Link.sequence]
  rw [hseq]
  rcases h with ⟨hp, hn, hstate, hold⟩ | ⟨s, hfirst, hs⟩
  · rw [firstWith_append_of_none fun s hs => by simp [hold s hs], takeNotification_pending hp hn,
      Option.toList_some, List.filterMap_cons_some (parseStatus_statusBytes l.rx)]
    have hne : l.rx.state.code ≠ 1 := by
      rw [hstate]
      exact verdict_code_ne bs st
    exact ⟨_, by rw [firstWith, if_pos (by simpa using hne)], congrArg RxState.code hstate⟩
  · exact ⟨s, firstWith_append hfirst _, hs⟩

theorem sequence_turn (l : Link) {t : Turn} (hn : t ≠ .notification) (hl : t ≠ .lose) :
    (l.turn t).sequence = l.sequence := by
  cases t with
  | notification => exact absurd rfl hn
  | arrive =>
    cases hair : l.air with
    | nil => simp [Link.turn, hair]
    | cons b air => cases hb : parseStatus b <;> simp [Link.turn, Link.sequence, hair, hb]
  | lose => exact absurd rfl hl
  | image => rcases l.rx.takeImage_cases with h | ⟨_, _, _, h⟩ <;>
      simp [Link.turn, Link.sequence, h]
  | text => rcases l.rx.takeText_cases with h | ⟨_, _, _, h⟩ <;> simp [Link.turn, Link.sequence, h]
  | clear => cases h : l.rx.takeClear with | mk c rx => cases c <;>
      simp [Link.turn, Link.sequence, h]

/-- Nothing is applied before a pending STATUS is sent. -/
theorem turn_rx_of_pending {l : Link} (hp : l.rx.pendingNtf = true) {t : Turn}
    (hn : t ≠ .notification) : (l.turn t).rx = l.rx := by
  cases t with
  | notification => exact absurd rfl hn
  | arrive => cases hair : l.air <;> simp [Link.turn, hair]
  | lose => rfl
  | image => simp [Link.turn, ImgRx.takeImage, hp]
  | text => simp [Link.turn, ImgRx.takeText, hp]
  | clear => simp [Link.turn, ImgRx.takeClear, hp]

theorem Announced.turn {l : Link} (h : Announced bs st l) {t : Turn} (ht : t ≠ .lose) :
    Announced bs st (l.turn t) := by
  by_cases hn : t = .notification
  · exact .inr (hn ▸ h.notification)
  · unfold Announced
    rw [sequence_turn l hn ht]
    refine h.imp (fun hpending => ?_) id
    rwa [turn_rx_of_pending hpending.1 hn]

/-- The commit of a transfer whose verdict is neither lost nor waited for in vain. -/
structure Script.Committing (e : Script) : Prop where
  commit : e.commit.arrives = true ∧ e.commit.fails = false
  verdict : e.verdict.settles = true ∧ Turn.lose ∉ e.verdict.turns

theorem finish_good {l : Link} (h : Sound bs st true 0 l) (hdata : l.rx.data = bs)
    {e : Script} (he : e.Committing) :
    ∃ s l', finish true e l = .ok (some s, l') ∧ s.state = (verdict bs st).code := by
  obtain ⟨hts, hsame⟩ := h.turns e.commit.turns
  obtain ⟨-, hp, hstate, hn⟩ := hts.closed (hsame.trans hdata)
  have hannounced : Announced bs st (l.write e.commit (.ctrl [0x02])) := by
    rw [write_arrives he.commit.1]
    refine .inl ⟨hp, hn.trans hts.notifyOn, hstate, fun s hs => ?_⟩
    rcases List.mem_append.mp hs with hs | hs
    · exact (hts.queue s hs).state
    · obtain ⟨b, hb, hs⟩ := List.mem_filterMap.mp hs
      exact (hts.air b hb s hs).state
  have hturns : ∀ (ts : List Turn) (l : Link), Turn.lose ∉ ts → Announced bs st l →
      Announced bs st (run Link.turn l ts) := by
    intro ts
    induction ts with
    | nil => exact fun l _ h => h
    | cons t ts ih =>
      intro l hlose h
      rw [List.mem_cons, not_or] at hlose
      exact ih _ hlose.2 (h.turn (Ne.symm hlose.1))
  obtain ⟨s, hfirst, hs⟩ := (hturns e.verdict.turns _ he.verdict.2 hannounced).notification
  have hfound : ((l.write e.commit (.ctrl [0x02])).waitFor true e.verdict
      fun st => st.state ≠ 1).1 = some s := by
    simpa [Link.waitFor, Link.wait, he.verdict.1, Link.arriveAll, Link.sequence] using hfirst
  refine ⟨s, ((l.write e.commit (.ctrl [0x02])).waitFor true e.verdict
      fun st => st.state ≠ 1).2, ?_, hs⟩
  unfold finish
  rw [if_neg (by simp [he.commit.2])]
  cases hw : (l.write e.commit (.ctrl [0x02])).waitFor true e.verdict fun st => st.state ≠ 1 with
  | mk found l' =>
    rw [hw] at hfound
    obtain rfl : found = some s := hfound
    rfl

theorem valid_square : ImgRx.Start.Valid [0x80, 0x01] (.image 8 2) := by
  refine ⟨?_, ?_, ?_, ?_, ?_⟩ <;> decide

/-- A round that loses every packet. -/
def silent : Round := { packets := fun _ => { arrives := false } }

def isDone : Except Failure Outcome → Bool
  | .ok (.done _ _) => true
  | _ => false

theorem exists_of_isDone {result : Except Failure Outcome} (h : isDone result = true) :
    ∃ found l, result = .ok (.done found l) := by
  unfold isDone at h
  grind

theorem transfer_truthful_square :
    ∃ found l, transfer true (startPacket [0x80, 0x01] (.image 8 2)) [0x80, 0x01]
        { rounds := [silent, {}] } (Link.connect true) = .ok (.done found l) ∧
      HandsOver [.image ⟨8, 2, [0x80, 0x01]⟩] l := by
  have hdone : isDone (transfer true (startPacket [0x80, 0x01] (.image 8 2)) [0x80, 0x01]
      { rounds := [silent, {}] } (Link.connect true)) = true := by
    decide +kernel
  obtain ⟨found, l, h⟩ := exists_of_isDone hdone
  have htrue := transfer_truthful [0x80, 0x01] (.image 8 2) valid_square true true
    { rounds := [silent, {}] }
  exact ⟨found, l, h, (htrue.2.2 found l h).1⟩

/-- Whatever has happened to the rounds of a transfer so far, as long as the client has not given
up: with notifications on, `(n + 287) / 288 + 1` more rounds without losses bring it to its commit,
and if that arrives and its verdict is neither lost nor waited for in vain, the client ends with the
verdict, and the session hands over what was sent. -/
theorem transfer_completes (bs : List UInt8) (st : ImgRx.Start) (hv : st.Valid bs) (e : Script)
    (more : List Round) {outcome : Outcome}
    (hsofar : transfer true (startPacket bs st) bs e (Link.connect true) = .ok outcome)
    (hmore : ∀ m ∈ more, m.Good) (henough : (bs.length + 287) / 288 + 1 ≤ more.length)
    (hcommit : e.Committing) :
    ∃ s l, transfer true (startPacket bs st) bs { e with rounds := e.rounds ++ more }
        (Link.connect true) = .ok (.done (some s) l) ∧
      s.state = (verdict bs st).code ∧ HandsOver (updates bs st) l := by
  obtain ⟨hsound, -⟩ := begin_sound hv true true e
  obtain ⟨l₀, s, hb, hr⟩ : ∃ l₀ s, begin true (startPacket bs st) e (Link.connect true) = .ok l₀ ∧
      rounds true bs e.rounds ⟨CHUNK_BIG, 0, l₀⟩ = .ok s := by
    rcases @transfer_cases bs true (startPacket bs st) e (Link.connect true) with
      ⟨f, heq, -⟩ | ⟨l₀, s, hb, hr, -⟩
    · simp [heq] at hsofar
    · exact ⟨l₀, s, hb, hr⟩
  have hat := ((at_start (hsound l₀ hb)).rounds true e.rounds).1 s hr
  have hwindow : 288 ≤ ACK_EVERY * s.chunk := by
    have hchunk : 18 ≤ s.chunk := hat.chunk
    have hack : ACK_EVERY * s.chunk = 16 * s.chunk := rfl
    omega
  have hleft := Progress.roundsLeft_le (n := bs.length) (p := s.progress) (by omega) hwindow
  obtain ⟨t, hr', ht, hend⟩ := hat.rounds_good true hmore (hleft.trans henough)
  have hopen : ¬ t.off < bs.length := by omega
  obtain ⟨found, l, hf, hstate⟩ := finish_good ht.sound (ht.received hopen) hcommit
  have hclosed := (finish_closed ht.sound (ht.received hopen) true hcommit.commit.1 hf).1
  refine ⟨found, l, ?_, hstate, hclosed.handsOver⟩
  have hall : rounds true bs (e.rounds ++ more) ⟨CHUNK_BIG, 0, l₀⟩ = .ok t := by
    rw [rounds_append, hr]
    exact hr'
  have hb' : begin true (startPacket bs st) { e with rounds := e.rounds ++ more }
      (Link.connect true) = .ok l₀ := hb
  have hf' : finish true { e with rounds := e.rounds ++ more } t.link = .ok (some found, l) := hf
  unfold transfer
  rw [hb']
  dsimp only [bind, Except.bind]
  rw [hall]
  dsimp only
  rw [if_neg hopen, hf']
  rfl

theorem transfer_completes_square :
    ∃ s l, transfer true (startPacket [0x80, 0x01] (.image 8 2)) [0x80, 0x01]
        { rounds := [silent] ++ [{}, {}] } (Link.connect true) = .ok (.done (some s) l) ∧
      s.state = (verdict [0x80, 0x01] (.image 8 2)).code ∧
      HandsOver (updates [0x80, 0x01] (.image 8 2)) l := by
  obtain ⟨outcome, hsofar⟩ : ∃ outcome, transfer true (startPacket [0x80, 0x01] (.image 8 2))
      [0x80, 0x01] { rounds := [silent] } (Link.connect true) = .ok outcome := ⟨_, rfl⟩
  refine transfer_completes [0x80, 0x01] (.image 8 2) valid_square { rounds := [silent] } [{}, {}]
    hsofar ?_ (by decide) ⟨⟨rfl, rfl⟩, rfl, by decide⟩
  · intro m hm
    obtain rfl : m = {} := by simpa using hm
    exact ⟨fun _ => ⟨rfl, rfl⟩, rfl, ⟨rfl, rfl⟩, rfl, rfl⟩

end Web

end PaperNamePlate
