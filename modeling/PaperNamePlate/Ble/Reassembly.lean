import PaperNamePlate.Ble.Hci

/-!
# What the BLE stack reads

The controller delivers packets, and some of them are the first fragment of an L2CAP PDU
whose other fragments follow among other packets. The stack reads each PDU as one ACL
packet, and everything else as it came, however many bytes it asks for at a time.
-/
namespace PaperNamePlate

open Embedded BufferedHci

namespace Packet

/-- What a packet adds to the PDU that is being gathered. -/
def payload (p : Packet) : List UInt8 := (continuation? p.bytes).getD []

/-- What a packet adds behind it. -/
def other (p : Packet) : List UInt8 := if (continuation? p.bytes).isSome then [] else p.bytes

/-- Starts an L2CAP PDU and carries its header, but not all of it. -/
def Opens (p : Packet) : Prop :=
  match p.bytes with
  | t :: _ :: f :: a :: a' :: l :: l' :: _ :: _ :: _ =>
    t = HCI_ACL ∧ aclPbFlag f ≠ 0b01 ∧ (u16OfLe a a').toNat < (u16OfLe l l').toNat + 4
  | _ => False

end Packet

/-- An L2CAP PDU in fragments, with the packets among them. -/
structure Fragmented where
  handle : UInt8
  /-- The high byte of the handle, with the flags. -/
  flags : UInt8
  flags_ne : aclPbFlag flags ≠ 0b01
  channel : UInt8 × UInt8
  data : List UInt8
  data_le : data.length + 4 ≤ 507
  /-- The length of the first fragment. -/
  cut : Nat
  four_le_cut : 4 ≤ cut
  cut_lt : cut < data.length + 4
  /-- What comes after the first fragment, up to the last one. -/
  rest : List Packet
  payload_rest : rest.flatMap Packet.payload =
    (u16ToLe (.ofNat data.length) ++ [channel.1, channel.2] ++ data).drop cut
  last_ne : ∀ p ∈ rest.getLast?, p.payload ≠ []
  others_le : (rest.flatMap Packet.other).length ≤ 512

namespace Fragmented

variable (m : Fragmented)

def pdu : List UInt8 := u16ToLe (.ofNat m.data.length) ++ [m.channel.1, m.channel.2] ++ m.data

def acl (payload : List UInt8) : List UInt8 :=
  [HCI_ACL, m.handle, m.flags] ++ u16ToLe (.ofNat payload.length) ++ payload

theorem length_pdu : m.pdu.length = m.data.length + 4 := by
  simp [pdu]
  omega

theorem length_acl (payload : List UInt8) : (m.acl payload).length = payload.length + 5 := by
  simp [acl]
  omega

theorem length_take_cut : (m.pdu.take m.cut).length = m.cut := by
  have hlt := m.cut_lt
  rw [List.length_take, length_pdu]
  omega

/-- The first fragment. -/
def first : Packet where
  bytes := m.acl (m.pdu.take m.cut)
  pos := by rw [length_acl]; omega
  le := by
    have hle := m.data_le
    have hlt := m.cut_lt
    rw [length_acl, length_take_cut]
    omega

end Fragmented

/-- What the controller delivers. -/
inductive Traffic
  | whole (p : Packet) (h : ¬ p.Opens)
  | fragmented (m : Fragmented)

/-- What the stack has to read. -/
def Traffic.served : Traffic → List UInt8
  | .whole p _ => p.bytes
  | .fragmented m => m.acl m.pdu ++ m.rest.flatMap Packet.other

variable {E : Type}

/-- The packets arrive, and no poll between them finds the deadline passed. -/
inductive InTime (deadline : Nat) : List Packet → List (Poll E) → Prop
  | nil : InTime deadline [] []
  | quiet {time : Nat} {p : Packet} {pkts : List Packet} {polls : List (Poll E)} :
    time ≤ deadline → InTime deadline (p :: pkts) polls →
      InTime deadline (p :: pkts) (⟨.ok none, time⟩ :: polls)
  | packet {time : Nat} {p : Packet} {pkts : List Packet} {polls : List (Poll E)} :
    InTime deadline pkts polls → InTime deadline (p :: pkts) (⟨.ok (some p), time⟩ :: polls)

/-- The polls deliver the traffic. -/
inductive Delivers : List Traffic → List (Poll E) → Prop
  | nil : Delivers [] []
  | quiet {time : Nat} {ts : List Traffic} {polls : List (Poll E)} :
    Delivers ts polls → Delivers ts (⟨.ok none, time⟩ :: polls)
  | whole {time : Nat} {p : Packet} {h : ¬ p.Opens} {ts : List Traffic} {polls : List (Poll E)} :
    Delivers ts polls → Delivers (.whole p h :: ts) (⟨.ok (some p), time⟩ :: polls)
  | fragmented {time : Nat} {m : Fragmented} {ts : List Traffic} {ps polls : List (Poll E)} :
    InTime (time + 200) m.rest ps → Delivers ts polls →
      Delivers (.fragmented m :: ts) (⟨.ok (some m.first), time⟩ :: (ps ++ polls))

namespace BufferedHci

/-- What has not been read yet. -/
def pending (h : BufferedHci) : List UInt8 := h.buf.read h.start (h.stop - h.start)

theorem pending_load (h : BufferedHci) (bytes : List UInt8) (hle : bytes.length ≤ 1024) :
    (h.load bytes hle).pending = bytes :=
  h.buf.read_write 0 _ bytes (by omega) rfl

/-! ## Gathering -/

namespace Assembly

def merged (a : Assembly) : List UInt8 := a.buf.read 0 a.stop

def strays (a : Assembly) : List UInt8 := a.stray.read 0 a.strayLen

theorem length_merged (a : Assembly) : a.merged.length = a.stop :=
  a.buf.length_read 0 a.stop (by have := a.stop_le; omega)

theorem length_strays (a : Assembly) : a.strays.length = a.strayLen :=
  a.stray.length_read 0 a.strayLen (by have := a.strayLen_le; omega)

theorem merged_append {a : Assembly} {payload : List UInt8} (h : a.stop + payload.length ≤ 1024) :
    (a.append payload).merged = a.merged ++ payload := by
  have hmin : min payload.length (1024 - a.stop) = payload.length := by omega
  simp only [append, merged, hmin, List.take_length]
  exact a.buf.read_write_end _ _ _

theorem strays_keep {a : Assembly} {bytes : List UInt8} (h : a.strayLen + bytes.length ≤ 512) :
    (a.keep bytes).strays = a.strays ++ bytes := by
  simp only [keep, dif_pos h, strays]
  exact a.stray.read_write_end _ _ _

theorem merged_keep (a : Assembly) (bytes : List UInt8) : (a.keep bytes).merged = a.merged := by
  unfold keep
  split <;> rfl

/-- A packet goes behind what was gathered, or behind the other packets. -/
theorem add_eq {a : Assembly} {p : Packet} (hp : a.stop + p.payload.length ≤ 1024)
    (ho : a.strayLen + p.other.length ≤ 512) :
    (a.add p).merged = a.merged ++ p.payload ∧ (a.add p).strays = a.strays ++ p.other := by
  unfold add
  unfold Packet.payload at hp ⊢
  unfold Packet.other at ho ⊢
  cases hc : continuation? p.bytes with
  | some payload =>
    rw [hc] at hp
    exact ⟨merged_append hp, (List.append_nil _).symm⟩
  | none =>
    rw [hc] at ho
    exact ⟨(merged_keep a _).trans (List.append_nil _).symm, strays_keep ho⟩

end Assembly

theorem payload_pos {pkts : List Packet} (hne : pkts ≠ [])
    (hlast : ∀ p ∈ pkts.getLast?, p.payload ≠ []) : 0 < (pkts.flatMap Packet.payload).length := by
  have hmem := List.getLast?_eq_some_getLast hne
  have hpos := List.length_pos_of_ne_nil (hlast _ hmem)
  rw [← List.dropLast_append_getLast hne, List.flatMap_append, List.length_append,
    List.flatMap_singleton]
  omega

theorem gather_done {want deadline : Nat} {a : Assembly} (h : want ≤ a.stop - ACL_HDR)
    (polls : List (Poll E)) : gather want deadline a polls = (.ok (), a, polls) := by
  cases polls with
  | nil => rfl
  | cons p ps => rw [gather, if_pos h]

theorem gather_inTime {want deadline : Nat} {pkts : List Packet} {ps : List (Poll E)}
    (h : InTime deadline pkts ps) (polls : List (Poll E)) {a : Assembly}
    (hlast : ∀ p ∈ pkts.getLast?, p.payload ≠ [])
    (hwant : a.stop + (pkts.flatMap Packet.payload).length = want + ACL_HDR)
    (hbuf : want + ACL_HDR ≤ 1024)
    (hstray : a.strayLen + (pkts.flatMap Packet.other).length ≤ 512) :
    ∃ a', gather want deadline a (ps ++ polls) = (.ok (), a', polls) ∧
      a'.merged = a.merged ++ pkts.flatMap Packet.payload ∧
      a'.strays = a.strays ++ pkts.flatMap Packet.other := by
  induction h generalizing a with
  | nil =>
    have hstop : want ≤ a.stop - ACL_HDR := by simp at hwant; omega
    exact ⟨a, gather_done hstop polls, by simp, by simp⟩
  | @quiet time p pkts ps ht _ ih =>
    have hpos := payload_pos (List.cons_ne_nil p pkts) hlast
    have hmore : ¬ want ≤ a.stop - ACL_HDR := by have := a.le_stop; omega
    obtain ⟨a', hgather, hmerged, hstrays⟩ := ih hlast hwant hstray
    refine ⟨a', ?_, hmerged, hstrays⟩
    rw [List.cons_append, gather, if_neg hmore]
    simp only [if_neg (Nat.not_lt.mpr ht), hgather]
  | @packet time p pkts ps hin ih =>
    have hpos := payload_pos (List.cons_ne_nil p pkts) hlast
    have hmore : ¬ want ≤ a.stop - ACL_HDR := by have := a.le_stop; omega
    rw [List.flatMap_cons, List.length_append] at hwant hstray
    obtain ⟨hm, hs⟩ := Assembly.add_eq (a := a) (p := p) (by omega) (by omega)
    have hstop : (a.add p).stop = a.stop + p.payload.length := by
      rw [← Assembly.length_merged, hm, List.length_append, Assembly.length_merged]
    have hlen : (a.add p).strayLen = a.strayLen + p.other.length := by
      rw [← Assembly.length_strays, hs, List.length_append, Assembly.length_strays]
    have hlast' : ∀ q ∈ pkts.getLast?, q.payload ≠ [] := by
      intro q hq
      cases pkts with
      | nil => cases hq
      | cons q' pkts => exact hlast q (by rwa [List.getLast?_cons_cons])
    obtain ⟨a', hgather, hmerged, hstrays⟩ := ih (a := a.add p) hlast' (by omega) (by omega)
    refine ⟨a', ?_, ?_, ?_⟩
    · rw [List.cons_append, gather, if_neg hmore]
      exact hgather
    · rw [hmerged, hm, List.flatMap_cons, List.append_assoc]
    · rw [hstrays, hs, List.flatMap_cons, List.append_assoc]

/-- The header is brought up to date, and the other packets come last. -/
theorem pending_finish {a : Assembly} (h : a.stop + a.strayLen ≤ 1024) :
    a.finish.pending =
      splice a.merged 3 (u16ToLe (.ofNat (a.stop - ACL_HDR))) ++ a.strays := by
  have hmin : min a.strayLen (1024 - a.stop) = a.strayLen := by omega
  have hlen := a.length_strays
  have hstop := a.le_stop
  have hheader : 3 + (u16ToLe (.ofNat (a.stop - ACL_HDR))).length ≤ a.stop := by
    simp [ACL_HDR] at hstop ⊢
    omega
  simp only [Assembly.strays] at hlen
  simp only [Assembly.finish, pending, hmin, Nat.sub_zero, Assembly.merged, Assembly.strays]
  rw [← Block.read_write_within _ _ _ _ _ hheader]
  conv_lhs => arg 3; rw [← hlen]
  exact Block.read_write_end _ _ _ _

/-! ## One packet -/

theorem get_load (h : BufferedHci) {bytes : List UInt8} (hle : bytes.length ≤ 1024) {i : Nat}
    (hi : i < bytes.length) : (h.load bytes hle).buf.get i (by omega) = bytes.getD i 0 := by
  have hsize := h.buf.size
  rw [Block.get_eq_getD _ _ _ 0]
  exact (getD_splice _ _ _ _ _ (by omega)).trans (if_pos ⟨Nat.zero_le _, by omega⟩)

theorem opens_iff (p : Packet) : p.Opens ↔
    ACL_HDR + 4 ≤ p.bytes.length ∧ p.bytes.getD 0 0 = HCI_ACL ∧
      aclPbFlag (p.bytes.getD 2 0) ≠ 0b01 ∧
        (u16OfLe (p.bytes.getD 3 0) (p.bytes.getD 4 0)).toNat <
          (u16OfLe (p.bytes.getD 5 0) (p.bytes.getD 6 0)).toNat + 4 := by
  unfold Packet.Opens
  split
  · next heq => simp [heq, ACL_HDR]
  · next hshort =>
    refine iff_of_false id fun ⟨hlen, _⟩ => ?_
    rcases heq : p.bytes with _ | ⟨b0,
        _ | ⟨b1, _ | ⟨b2, _ | ⟨b3, _ | ⟨b4, _ | ⟨b5, _ | ⟨b6, _ | ⟨b7,
      _ | ⟨b8, bs⟩⟩⟩⟩⟩⟩⟩⟩⟩
    case cons.cons.cons.cons.cons.cons.cons.cons.cons => exact hshort _ _ _ _ _ _ _ _ _ _ heq
    all_goals simp [heq, ACL_HDR] at hlen

/-- A packet that opens nothing is taken as it is. -/
theorem fill_whole {p : Packet} (hp : ¬ p.Opens) (hci : BufferedHci) (time : Nat)
    (polls : List (Poll E)) :
    ∃ hci', hci'.pending = p.bytes ∧
      fill ⟨hci, ⟨.ok (some p), time⟩ :: polls⟩ = (.ok (), ⟨hci', polls⟩) := by
  have hle : p.bytes.length ≤ 1024 := Nat.le_trans p.le (by decide)
  refine ⟨hci.load p.bytes hle, pending_load _ _ _, ?_⟩
  simp only [fill]
  split
  · rfl
  · next hn =>
    have hlen : ACL_HDR + 4 ≤ p.bytes.length := Nat.not_lt.mp fun h => hn (.inl h)
    have hnine : 9 ≤ p.bytes.length := hlen
    have hget : ∀ i (hi : i < 9), (hci.load p.bytes hle).buf.get i (by omega) = p.bytes.getD i 0 :=
      fun i hi => get_load hci hle (by omega)
    rw [hget 0 (by decide), hget 2 (by decide)] at hn
    rw [hget 3 (by decide), hget 4 (by decide), hget 5 (by decide), hget 6 (by decide)]
    obtain ⟨-, hn⟩ := not_or.mp hn
    obtain ⟨ht, hf⟩ := not_or.mp hn
    rw [if_pos]
    exact Nat.not_lt.mp fun hlt => hp ((opens_iff p).mpr ⟨hlen, not_not.mp ht, hf, hlt⟩)

/-- A packet that opens a PDU is completed by what is gathered. -/
theorem fill_opens {p : Packet} (hp : p.Opens) (hci : BufferedHci) (time : Nat)
    (polls : List (Poll E)) :
    ∃ a : Assembly, a.merged = p.bytes ∧ a.strays = [] ∧
      ∀ a' polls', gather ((u16OfLe (p.bytes.getD 5 0) (p.bytes.getD 6 0)).toNat + 4) (time + 200) a
          polls = (.ok (), a', polls') →
        fill ⟨hci, ⟨.ok (some p), time⟩ :: polls⟩ = (.ok (), ⟨a'.finish, polls'⟩) := by
  have hle : p.bytes.length ≤ 1024 := Nat.le_trans p.le (by decide)
  obtain ⟨hlen, ht, hf, hlt⟩ := (opens_iff p).mp hp
  have hnine : 9 ≤ p.bytes.length := hlen
  have hget : ∀ i (hi : i < 9), (hci.load p.bytes hle).buf.get i (by omega) = p.bytes.getD i 0 :=
    fun i hi => get_load hci hle (by omega)
  refine ⟨⟨(hci.load p.bytes hle).buf, p.bytes.length,
    ⟨List.replicate 512 0, List.length_replicate⟩, 0, Nat.le_trans (by decide) hnine, hle,
    Nat.zero_le _⟩, pending_load hci p.bytes hle, rfl, ?_⟩
  intro a' polls' hgather
  have hn : ¬ ((hci.load p.bytes hle).stop < ACL_HDR + 4 ∨
      (hci.load p.bytes hle).buf.get 0 (by decide) ≠ HCI_ACL ∨
        aclPbFlag ((hci.load p.bytes hle).buf.get 2 (by decide)) = 0b01) := by
    rw [hget 0 (by decide), hget 2 (by decide)]
    rintro (hshort | ht' | hf')
    · exact Nat.not_lt.mpr hlen hshort
    · exact ht' ht
    · exact hf hf'
  simp only [fill, dif_neg hn]
  rw [hget 3 (by decide), hget 4 (by decide), hget 5 (by decide), hget 6 (by decide),
    if_neg (Nat.not_le.mpr hlt)]
  simp only [load] at hgather ⊢
  rw [hgather]

theorem first_bytes (m : Fragmented) : ∃ bs, m.first.bytes =
    [HCI_ACL, m.handle, m.flags] ++ u16ToLe (.ofNat m.cut) ++ u16ToLe (.ofNat m.data.length) ++
      [m.channel.1, m.channel.2] ++ bs := by
  obtain ⟨k, hk⟩ := Nat.exists_eq_add_of_le m.four_le_cut
  refine ⟨m.data.take k, ?_⟩
  have hlen := m.length_take_cut
  simp only [Fragmented.first, Fragmented.acl, hlen]
  rw [hk, Nat.add_comm 4 k]
  simp [Fragmented.pdu, u16ToLe]

theorem toNat_u16OfLe_toLe {n : Nat} (h : n < 2 ^ 16) :
    (u16OfLe (UInt8.ofNat (UInt16.ofNat n).toNat)
      (UInt8.ofNat ((UInt16.ofNat n).toNat / 2 ^ 8))).toNat = n := by
  rw [u16OfLe_toLe, UInt16.toNat_ofNat', Nat.mod_eq_of_lt h]

theorem want_first (m : Fragmented) :
    (u16OfLe (m.first.bytes.getD 5 0) (m.first.bytes.getD 6 0)).toNat = m.data.length := by
  have hle := m.data_le
  obtain ⟨bs, hbs⟩ := first_bytes m
  rw [hbs]
  exact toNat_u16OfLe_toLe (by omega)

theorem first_opens (m : Fragmented) : m.first.Opens := by
  have hle := m.data_le
  have hlt := m.cut_lt
  have hwant := want_first m
  obtain ⟨bs, hbs⟩ := first_bytes m
  refine (opens_iff _).mpr ⟨?_, ?_, ?_, ?_⟩
  · rw [hbs]
    simp [ACL_HDR, u16ToLe]
  · rw [hbs]
    rfl
  · rw [hbs]
    exact m.flags_ne
  · rw [hwant, hbs]
    exact Nat.lt_of_le_of_lt (Nat.le_of_eq (toNat_u16OfLe_toLe (by omega))) hlt

/-- A fragmented PDU is read as one packet, with the packets among its fragments behind it. -/
theorem fill_fragmented {m : Fragmented} {time : Nat} {ps : List (Poll E)}
    (h : InTime (time + 200) m.rest ps) (hci : BufferedHci) (polls : List (Poll E)) :
    ∃ hci', hci'.pending = m.acl m.pdu ++ m.rest.flatMap Packet.other ∧
      fill ⟨hci, ⟨.ok (some m.first), time⟩ :: (ps ++ polls)⟩ = (.ok (), ⟨hci', polls⟩) := by
  have hle := m.data_le
  have hlt := m.cut_lt
  have hothers := m.others_le
  have hfirst : m.first.bytes.length = m.cut + ACL_HDR := by
    rw [Fragmented.first, m.length_acl, m.length_take_cut]
    rfl
  have hrest : (m.rest.flatMap Packet.payload).length = m.data.length + 4 - m.cut := by
    rw [m.payload_rest, List.length_drop]
    exact congrArg (· - m.cut) m.length_pdu
  obtain ⟨a, hmerged, hstrays, hfill⟩ := fill_opens (first_opens m) hci time (ps ++ polls)
  rw [want_first] at hfill
  have hstop : a.stop = m.cut + ACL_HDR := by rw [← a.length_merged, hmerged, hfirst]
  have hstray : a.strayLen = 0 := by rw [← a.length_strays, hstrays]; rfl
  have hwant : a.stop + (m.rest.flatMap Packet.payload).length =
      m.data.length + 4 + ACL_HDR := by omega
  obtain ⟨a', hgather, hmerged', hstrays'⟩ := gather_inTime h polls m.last_ne hwant
    (by simp only [ACL_HDR]; omega) (by omega)
  rw [hstrays, List.nil_append] at hstrays'
  have hwhole : a'.merged = m.acl (m.pdu.take m.cut) ++ m.pdu.drop m.cut := by
    rw [hmerged', hmerged, m.payload_rest]
    rfl
  have hstop' : a'.stop = m.pdu.length + ACL_HDR := by
    rw [← a'.length_merged, hwhole, List.length_append, m.length_acl, List.length_drop,
      m.length_take_cut, m.length_pdu]
    simp only [ACL_HDR]
    omega
  have hlen' : a'.strayLen = (m.rest.flatMap Packet.other).length := by
    rw [← a'.length_strays, hstrays']
  have hroom : a'.stop + a'.strayLen ≤ 1024 := by
    rw [hstop', hlen', m.length_pdu]
    simp only [ACL_HDR]
    omega
  refine ⟨a'.finish, ?_, hfill a' polls hgather⟩
  rw [pending_finish hroom, hstrays', hstop', Nat.add_sub_cancel, hwhole]
  congr 1
  simp [Fragmented.acl, splice, u16ToLe]

/-! ## Reading -/

/-- What is still to be read: what is in the buffer, and what is still to be delivered. -/
def Remains (l : HciLink E) (bytes : List UInt8) : Prop :=
  ∃ ts, Delivers ts l.polls ∧ bytes = l.hci.pending ++ ts.flatMap Traffic.served

theorem pending_eq_nil_iff (h : BufferedHci) : h.pending = [] ↔ h.start = h.stop := by
  have hle := h.start_le
  have hle' := h.stop_le
  rw [← List.length_eq_zero_iff, pending, Block.length_read _ _ _ (by omega)]
  omega

theorem fill_delivers (hci : BufferedHci) {ts : List Traffic} {polls : List (Poll E)}
    (h : Delivers ts polls) :
    ∃ l' ts', fill ⟨hci, polls⟩ = (.ok (), l') ∧ Delivers ts' l'.polls ∧
      ts.flatMap Traffic.served = l'.hci.pending ++ ts'.flatMap Traffic.served := by
  cases h with
  | nil => exact ⟨_, [], rfl, .nil, by rw [pending_load]; rfl⟩
  | quiet h => exact ⟨_, _, rfl, h, by rw [pending_load]; rfl⟩
  | @whole time p hp ts polls h =>
    obtain ⟨hci', hpending, hfill⟩ := fill_whole hp hci time polls
    exact ⟨_, ts, hfill, h, by rw [hpending]; rfl⟩
  | @fragmented time m ts ps polls hin h =>
    obtain ⟨hci', hpending, hfill⟩ := fill_fragmented hin hci polls
    exact ⟨_, ts, hfill, h, by rw [hpending]; rfl⟩

theorem read_eq (len : Nat) (l : HciLink E) : read len l =
    if l.hci.start = l.hci.stop then
      match fill l with
      | (.ok (), l') => take len l'
      | (.error e, l') => (.error e, l')
    else take len l := by
  rw [read, Prog.bind_eq]
  simp only [Prog.get, Prog.when]
  rw [Prog.bind_eq]
  by_cases hempty : l.hci.start = l.hci.stop
  · rw [if_pos hempty, if_pos hempty]
    rcases fill l with ⟨_ | ⟨⟩, l'⟩ <;> rfl
  · rw [if_neg hempty, if_neg hempty]
    rfl

theorem take_eq (len : Nat) (l : HciLink E) :
    ∃ out l', take len l = (.ok out, l') ∧ l.hci.pending = out ++ l'.hci.pending ∧
      l'.polls = l.polls ∧ out.length = min len l.hci.pending.length := by
  have hle := l.hci.start_le
  have hle' := l.hci.stop_le
  refine ⟨_, _, rfl, ?_, rfl, ?_⟩
  · simp only [pending, Block.read]
    rw [← List.drop_drop]
    conv_lhs => rw [← List.take_append_drop (min len (l.hci.stop - l.hci.start))
      ((l.hci.buf.bytes.drop l.hci.start).take (l.hci.stop - l.hci.start))]
    rw [List.take_take, List.drop_take, Nat.min_eq_left (Nat.min_le_right _ _), Nat.sub_add_eq]
  · rw [pending, Block.length_read _ _ _ (by omega), Block.length_read _ _ _ (by omega)]

theorem serves_read : Serves Remains (read : Nat → Prog (HciLink E) E (List UInt8)) := by
  rintro len l xs ⟨ts, hts, rfl⟩
  rw [read_eq]
  split
  · next hempty =>
    obtain ⟨l', ts', hfill, hts', hserved⟩ := fill_delivers l.hci hts
    obtain ⟨out, l'', htake, hpending, hpolls, -⟩ := take_eq len l'
    rw [hfill, (pending_eq_nil_iff _).mpr hempty, hserved, hpending, List.nil_append,
      List.append_assoc]
    exact ⟨out, _, l'', htake, rfl, ts', hpolls ▸ hts', rfl⟩
  · obtain ⟨out, l', htake, hpending, hpolls, -⟩ := take_eq len l
    rw [hpending, List.append_assoc]
    exact ⟨out, _, l', htake, rfl, ts, hpolls ▸ hts, rfl⟩

/-- Every poll fills the buffer with at most 1024 bytes. -/
def work (l : HciLink E) : Nat := l.hci.pending.length + 1025 * l.polls.length

theorem length_pending_le (h : BufferedHci) : h.pending.length ≤ 1024 := by
  have hle := h.start_le
  have hle' := h.stop_le
  rw [pending, Block.length_read _ _ _ (by omega)]
  omega

theorem gather_polls {want deadline : Nat} {a a' : Assembly} {polls polls' : List (Poll E)}
    {r : Except E Unit} (h : gather want deadline a polls = (r, a', polls')) :
    polls'.length ≤ polls.length := by
  induction polls generalizing a with
  | nil =>
    cases h
    exact Nat.le_refl _
  | cons p ps ih =>
    rw [gather] at h
    split at h
    · cases h
      exact Nat.le_refl _
    · split at h
      · cases h
        exact Nat.le_succ _
      · split at h
        · cases h
          exact Nat.le_succ _
        · exact Nat.le_succ_of_le (ih h)
      · exact Nat.le_succ_of_le (ih h)

theorem fill_polls {l l' : HciLink E} (h : fill l = (.ok (), l')) :
    l.polls = [] ∧ l'.polls = [] ∧ l'.hci.pending = [] ∨ l'.polls.length < l.polls.length := by
  unfold fill at h
  split at h
  · next hnil =>
    cases h
    exact .inl ⟨hnil, rfl, pending_load _ _ _⟩
  · next p polls hcons =>
    right
    rw [hcons, List.length_cons]
    split at h
    · cases h
    · cases h
      exact Nat.lt_succ_self _
    · simp only at h
      split at h
      · cases h
        exact Nat.lt_succ_self _
      · split at h
        · cases h
          exact Nat.lt_succ_self _
        · split at h
          · cases h
          · next hgather =>
            cases h
            exact Nat.lt_succ_of_le (gather_polls hgather)

theorem work_read {n : Nat} {l l' : HciLink E} {out : List UInt8} (h : read n l = (.ok out, l')) :
    work l' ≤ work l ∧ (0 < n → l.polls = [] ∧ l.hci.pending = [] ∨ work l' < work l) := by
  rw [read_eq] at h
  split at h
  · next hempty =>
    have hnil := (pending_eq_nil_iff _).mpr hempty
    rcases hf : fill l with ⟨_ | ⟨⟩, l₁⟩
    · rw [hf] at h
      cases h
    · rw [hf] at h
      obtain ⟨out', l₂, htake, hpending, hpolls, -⟩ := take_eq n l₁
      cases htake.symm.trans h
      have hle := length_pending_le l'.hci
      have hlen := congrArg List.length hpending
      rw [List.length_append] at hlen
      rw [work, work, hnil, hpolls]
      rcases fill_polls hf with ⟨hl, hl₁, hnone⟩ | hlt
      · rw [hnone, List.length_nil] at hlen
        rw [hl, hl₁]
        exact ⟨by simp only [List.length_nil]; omega, fun _ => .inl ⟨rfl, rfl⟩⟩
      · rw [List.length_nil]
        exact ⟨by omega, fun _ => .inr (by omega)⟩
  · next hfull =>
    have hne := mt (pending_eq_nil_iff _).mp hfull
    have hpos := List.length_pos_of_ne_nil hne
    obtain ⟨out', l₁, htake, hpending, hpolls, hlen⟩ := take_eq n l
    cases htake.symm.trans h
    have hsum := congrArg List.length hpending
    rw [List.length_append] at hsum
    rw [work, work, hpolls]
    exact ⟨by omega, fun hn => .inr (by omega)⟩

theorem drains_read :
    Drains work Remains (read : Nat → Prog (HciLink E) E (List UInt8)) where
  le h := (work_read h).1
  lt := by
    rintro n l xs l' out ⟨ts, hts, rfl⟩ hne hn h
    rcases (work_read h).2 hn with ⟨hpolls, hpending⟩ | hlt
    · rw [hpolls] at hts
      cases hts
      exact absurd (by rw [hpending]; rfl) hne
    · exact hlt

end BufferedHci

/-- The reads return the traffic in order, and nothing else: what they have returned and what
remains to be read make up the traffic, and enough reads return it all. -/
theorem reads_transparent {ts : List Traffic} {polls : List (Poll E)} (h : Delivers ts polls)
    (lens : List Nat) :
    ∃ outs l, lens.mapM BufferedHci.read (⟨.new, polls⟩ : HciLink E) = (.ok outs, l) ∧
      (∃ ts', Delivers ts' l.polls ∧
        ts.flatMap Traffic.served =
          outs.flatten ++ (l.hci.pending ++ ts'.flatMap Traffic.served)) ∧
      (1025 * polls.length < (lens.filter (0 < ·)).length →
        outs.flatten = ts.flatMap Traffic.served) := by
  have hrem : Remains (⟨.new, polls⟩ : HciLink E) (ts.flatMap Traffic.served) := ⟨ts, h, rfl⟩
  obtain ⟨outs, xs, l, hreads, hserved, ts', hts', rfl⟩ := serves_read.mapM lens hrem
  refine ⟨outs, l, hreads, ⟨ts', hts', hserved⟩, fun henough => ?_⟩
  have hwork : work (⟨.new, polls⟩ : HciLink E) = 1025 * polls.length := Nat.zero_add _
  obtain ⟨outs', l', hreads', hall⟩ := drains_read.mapM serves_read hrem (hwork ▸ henough)
  cases hreads.symm.trans hreads'
  exact hall

/-- A PDU of 8 bytes in two fragments, with an event between them. -/
def interrupted : Fragmented where
  handle := 0x40
  flags := 0x20
  flags_ne := by decide
  channel := (0x04, 0x00)
  data := [0x52, 0x10, 0x00, 0x01]
  data_le := by decide
  cut := 5
  four_le_cut := by decide
  cut_lt := by decide
  rest := [⟨[0x04, 0x13, 0x00], by decide, by decide⟩,
    ⟨[0x02, 0x40, 0x10, 0x03, 0x00, 0x10, 0x00, 0x01], by decide, by decide⟩]
  payload_rest := by decide
  last_ne := by decide
  others_le := by decide

/-- Every packet after the first one comes after a poll that finds nothing. -/
def laterPolls : List (Poll Empty) :=
  interrupted.rest.flatMap fun p => [⟨.ok none, 300⟩, ⟨.ok (some p), 301⟩]

theorem reads_transparent_interrupted :
    ∃ outs l, [1, 4, 100].mapM BufferedHci.read (⟨.new, ⟨.ok (some interrupted.first), 100⟩ ::
      (laterPolls ++ [⟨.ok none, 302⟩])⟩ : HciLink Empty) = (.ok outs, l) := by
  have hin : InTime (100 + 200) interrupted.rest laterPolls :=
    .quiet (by decide) (.packet (.quiet (by decide) (.packet .nil)))
  obtain ⟨outs, l, hreads, -⟩ :=
    reads_transparent (.fragmented (m := interrupted) hin (.quiet .nil)) [1, 4, 100]
  exact ⟨outs, l, hreads⟩

end PaperNamePlate
