import PaperNamePlate.Lib.Slice
import PaperNamePlate.Lib.Stream

/-!
# The HCI transport

The BLE stack reads HCI byte by byte. `BufferedHci` pulls whole packets from the
controller, puts the fragments of an ACL packet together, and serves the result. Packets
that arrive between the fragments go behind the merged one. A polled controller is
the list of what its polls will give.
-/
namespace PaperNamePlate

open Embedded

def HCI_ACL : UInt8 := 0x02

/-- Type, handle and flags, length. -/
def ACL_HDR : Nat := 5

/-- A packet of the controller; it fits the buffer for continuations. -/
structure Packet where
  bytes : List UInt8
  pos : 0 < bytes.length
  le : bytes.length ≤ 512

/-- One call of the controller's `next`, `none` where nothing is queued. -/
structure Poll (E : Type) where
  answer : Except E (Option Packet)
  /-- What `millis` gives after it. -/
  time : Nat

structure BufferedHci where
  buf : Block 1024
  start : Nat
  stop : Nat
  start_le : start ≤ stop
  stop_le : stop ≤ 1024

/-- The adapter and the polls to come. After the last of them the controller is quiet. -/
structure HciLink (E : Type) where
  hci : BufferedHci
  polls : List (Poll E)

namespace BufferedHci

def new : BufferedHci where
  buf := ⟨List.replicate 1024 0, List.length_replicate⟩
  start := 0
  stop := 0
  start_le := Nat.le_refl 0
  stop_le := Nat.zero_le _

/-- The packet boundary flag, in the high byte of handle and flags. -/
def aclPbFlag (b : UInt8) : UInt8 := (b >>> 4) &&& 0x3

/-- A new packet at the start of the buffer. -/
def load (h : BufferedHci) (bytes : List UInt8) (hle : bytes.length ≤ 1024) : BufferedHci where
  buf := h.buf.write 0 bytes (by omega)
  start := 0
  stop := bytes.length
  start_le := Nat.zero_le _
  stop_le := hle

theorem nil_le : ([] : List UInt8).length ≤ 1024 := Nat.zero_le _

/-- The payload of a continuation fragment. -/
def continuation? : List UInt8 → Option (List UInt8)
  | t :: _ :: f :: _ :: _ :: payload =>
    if t = HCI_ACL ∧ aclPbFlag f = 0b01 then some payload else none
  | _ => none

/-- The first fragment with what has been gathered behind it, and the other packets. -/
structure Assembly where
  buf : Block 1024
  stop : Nat
  stray : Block 512
  strayLen : Nat
  le_stop : ACL_HDR ≤ stop
  stop_le : stop ≤ 1024
  strayLen_le : strayLen ≤ 512

namespace Assembly

/-- As much of a payload as the buffer takes. -/
def append (a : Assembly) (payload : List UInt8) : Assembly :=
  let k := min payload.length (1024 - a.stop)
  have hk : a.stop + (payload.take k).length ≤ 1024 := by
    have hle := a.stop_le
    rw [List.length_take]
    omega
  { a with
    buf := a.buf.write a.stop (payload.take k) hk
    stop := a.stop + k
    le_stop := Nat.le_add_right_of_le a.le_stop
    stop_le := by have hle := a.stop_le; omega }

/-- A packet that is not part of the fragmented one is kept if there is room, else dropped. -/
def keep (a : Assembly) (bytes : List UInt8) : Assembly :=
  if h : a.strayLen + bytes.length ≤ 512 then
    { a with
      stray := a.stray.write a.strayLen bytes h
      strayLen := a.strayLen + bytes.length
      strayLen_le := h }
  else a

def add (a : Assembly) (p : Packet) : Assembly :=
  match continuation? p.bytes with
  | some payload => a.append payload
  | none => a.keep p.bytes

/-- The new length goes into the header, and the other packets behind the merged one. -/
def finish (a : Assembly) : BufferedHci :=
  let newLen := UInt16.ofNat (a.stop - ACL_HDR)
  have hheader : 3 + (u16ToLe newLen).length ≤ 1024 := by simp
  let buf := a.buf.write 3 (u16ToLe newLen) hheader
  let k := min a.strayLen (1024 - a.stop)
  have hle := a.stop_le
  have hlen : (a.stray.read 0 k).length = k := by
    have hstray := a.strayLen_le
    exact a.stray.length_read 0 k (by omega)
  { buf := buf.write a.stop (a.stray.read 0 k) (by omega)
    start := 0
    stop := a.stop + k
    start_le := Nat.zero_le _
    stop_le := by omega }

def toHci (a : Assembly) : BufferedHci where
  buf := a.buf
  start := 0
  stop := a.stop
  start_le := Nat.zero_le _
  stop_le := a.stop_le

end Assembly

variable {E : Type}

/-- The loop that gathers the rest of a fragmented packet. -/
def gather (want deadline : Nat) :
    Assembly → List (Poll E) → Except E Unit × Assembly × List (Poll E)
  | a, [] => (.ok (), a, [])
  | a, p :: ps =>
    if want ≤ a.stop - ACL_HDR then (.ok (), a, p :: ps)
    else
      match p.answer with
      | .error e => (.error e, a, ps)
      | .ok none => if p.time > deadline then (.ok (), a, ps) else gather want deadline a ps
      | .ok (some pkt) => gather want deadline (a.add pkt) ps

/-- The next packet from the controller, merged if it is fragmented. -/
def fill : Prog (HciLink E) E Unit := fun l =>
  match l.polls with
  | [] => (.ok (), { hci := l.hci.load [] nil_le, polls := [] })
  | p :: polls =>
    match p.answer with
    | .error e => (.error e, { hci := { l.hci with start := 0, start_le := Nat.zero_le _ }, polls })
    | .ok none => (.ok (), { hci := l.hci.load [] nil_le, polls })
    | .ok (some pkt) =>
      let h := l.hci.load pkt.bytes (Nat.le_trans pkt.le (by decide))
      let byte i (hi : i < 1024) := h.buf.get i hi
      let n := h.stop
      if hn : n < ACL_HDR + 4 ∨ byte 0 (by decide) ≠ HCI_ACL ∨
        aclPbFlag (byte 2 (by decide)) = 0b01 then
        (.ok (), { hci := h, polls })
      else
        let aclLen := (u16OfLe (byte 3 (by decide)) (byte 4 (by decide))).toNat
        let want := (u16OfLe (byte 5 (by decide)) (byte 6 (by decide))).toNat + 4
        if aclLen ≥ want then (.ok (), { hci := h, polls })
        else
          let first : Assembly :=
            { buf := h.buf
              stop := n
              stray := ⟨List.replicate 512 0, List.length_replicate⟩
              strayLen := 0
              le_stop := Nat.le_of_add_right_le (Nat.not_lt.mp (not_or.mp hn).1)
              stop_le := h.stop_le
              strayLen_le := Nat.zero_le _ }
          match gather want (p.time + 200) first polls with
          | (.error e, a, polls) => (.error e, { hci := a.toHci, polls })
          | (.ok (), a, polls) => (.ok (), { hci := a.finish, polls })

/-- Up to `len` bytes from the buffer. -/
def take (len : Nat) : Prog (HciLink E) E (List UInt8) := fun l =>
  let h := l.hci
  let n := min len (h.stop - h.start)
  (.ok (h.buf.read h.start n),
    { l with hci := { h with start := h.start + n, start_le := by have := h.start_le; omega } })

/-- Up to `len` bytes. -/
def read (len : Nat) : Prog (HciLink E) E (List UInt8) := do
  let l ← Prog.get
  Prog.when (l.hci.start = l.hci.stop) fill
  take len

end BufferedHci

end PaperNamePlate
