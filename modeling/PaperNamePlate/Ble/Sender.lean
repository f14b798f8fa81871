import PaperNamePlate.Ble.Crc32
import PaperNamePlate.Ble.Handover

/-!
# The client's side of a transfer

`transfer` is the loop with which the web page sends an image or a text: START, bursts
of DATA packets that each wait for a STATUS covering them, a request for the STATUS and
a rewind where none comes, and the commit. The air is part of the model: writes and
notifications may be lost or late, and the session on the plate goes on meanwhile. The
progress bar, the log and its texts and the times are left out; what the times decide is
an input.
-/
namespace PaperNamePlate

open Embedded

namespace Web

/-- Packets in a burst. -/
def ACK_EVERY : Nat := 16
/-- Data bytes of a packet at the larger MTU. -/
def CHUNK_BIG : Nat := 123
/-- Data bytes of a packet at the smallest MTU. -/
def CHUNK_SMALL : Nat := 18

/-- What a STATUS says. -/
structure Status where
  state : UInt8
  received : UInt32
  expected : UInt32
deriving DecidableEq, Repr

/-- Reading behind the end of the value throws. -/
def parseStatus (v : List UInt8) : Option Status :=
  match v with
  | s :: r0 :: r1 :: r2 :: r3 :: e0 :: e1 :: e2 :: e3 :: _ =>
    some ⟨s, u32OfLe r0 r1 r2 r3, u32OfLe e0 e1 e2 e3⟩
  | _ => none

/-- Why a transfer failed for the client. -/
inductive Failure
  | write
  | notStarted
  | noAnswer
  | aborted (state : UInt8)
deriving DecidableEq, Repr

/-! ## The air -/

/-- The receiver, the notifications on their way, those that arrived and were not looked at yet, and
what the session has handed to the app. -/
structure Link where
  rx : ImgRx
  air : List (List UInt8) := []
  queue : List Status := []
  handed : List BleUpdate := []
deriving DecidableEq, Repr

/-- What happens by itself: the session sends a pending STATUS or applies what is due, and a
notification arrives or is lost. -/
inductive Turn
  | notification
  | arrive
  | lose
  | image
  | text
  | clear
deriving DecidableEq, Repr

namespace Link

/-- A connection to a new session. -/
def connect (notifyOn : Bool) : Link where
  rx := { notifyOn }

def turn (l : Link) : Turn → Link
  | .notification =>
    { l with rx := l.rx.takeNotification.2, air := l.air ++ l.rx.takeNotification.1.toList }
  | .arrive =>
    match l.air with
    | [] => l
    | b :: air => { l with air, queue := l.queue ++ (parseStatus b).toList }
  | .lose => { l with air := l.air.tail }
  | .image =>
    match l.rx.takeImage with
    | (some img, rx) =>
      { l with rx := { rx with state := .idle }, handed := l.handed ++ [.image img] }
    | (none, rx) => { l with rx }
  | .text =>
    match l.rx.takeText with
    | (some text, rx) =>
      { l with rx := { rx with state := .idle }, handed := l.handed ++ [.text text] }
    | (none, rx) => { l with rx }
  | .clear =>
    match l.rx.takeClear with
    | (true, rx) => { l with rx, handed := l.handed ++ [.clear] }
    | (false, rx) => { l with rx }

/-- The session's next pass, if nothing comes in: a pending STATUS is sent, and what is due is
applied. -/
def pass (l : Link) : Link := run turn l [.notification, .image, .text, .clear]

/-- Everything that is on its way arrives. -/
def arriveAll (l : Link) : Link :=
  { l with air := [], queue := l.queue ++ l.air.filterMap parseStatus }

end Link

/-- The circumstances of one access of the client: what happens before it, whether it reaches the
receiver, and whether it fails for the client. -/
structure Access where
  turns : List Turn := []
  arrives : Bool := true
  fails : Bool := false
deriving DecidableEq, Repr

/-- What happens while the client waits for a notification; `settles` says that it waits long enough
for a pending STATUS to be sent and for all that is on its way to arrive. -/
structure Wait where
  turns : List Turn := []
  settles : Bool := true
deriving DecidableEq, Repr

/-- Take from the queue up to the first STATUS that satisfies `p`. -/
def firstWith (p : Status → Bool) : List Status → Option Status × List Status
  | [] => (none, [])
  | st :: queue => if p st then (some st, queue) else firstWith p queue

namespace Link

def write (a : Access) (g : Gatt) (l : Link) : Link :=
  let l := run turn l a.turns
  if a.arrives then { l with rx := l.rx.gatt g } else l

def wait (w : Wait) (l : Link) : Link :=
  let l := run turn l w.turns
  if w.settles then (l.turn .notification).arriveAll else l

def waitFor (notifyOk : Bool) (w : Wait) (p : Status → Bool) (l : Link) : Option Status × Link :=
  if !notifyOk then (none, l)
  else
    let l := l.wait w
    let (st, queue) := firstWith p l.queue
    (st, { l with queue })

def readStatus (a : Access) (l : Link) : Option Status × Link :=
  let l := run turn l a.turns
  (if a.arrives && !a.fails then parseStatus l.rx.statusBytes else none, l)

end Link

/-! ## The transfer -/

/-- The START of an image or a text. -/
def startPacket (bytes : List UInt8) : ImgRx.Start → List UInt8
  | .image w h =>
    0x10 :: (u16ToLe w ++ u16ToLe h ++ u32ToLe (UInt32.ofNat bytes.length) ++
      u32ToLe (webCrc32 bytes) ++ [UInt8.ofNat ACK_EVERY])
  | .content =>
    0x11 :: (u32ToLe (UInt32.ofNat bytes.length) ++ u32ToLe (webCrc32 bytes) ++
      [UInt8.ofNat ACK_EVERY])

/-- The circumstances of one round: of each packet of the burst, of the wait for its
acknowledgement, and of the request for the STATUS. -/
structure Round where
  packets : Nat → Access := fun _ => {}
  acked : Wait := {}
  sync : Access := {}
  answer : Wait := {}
  read : Access := {}

/-- The client between two rounds. -/
structure Sender where
  chunk : Nat
  off : Nat
  link : Link
deriving DecidableEq, Repr

/-- Ask for a STATUS notification. -/
def Link.askStatus (notifyOk : Bool) (e : Round) (l : Link) : Option Status × Link :=
  if notifyOk then
    let l := l.write e.sync (.ctrl [0x04])
    if e.sync.fails then (none, l) else l.waitFor notifyOk e.answer fun _ => true
  else (none, l)

/-- The STATUS, by notification or else by reading it. -/
def Link.syncStatus (notifyOk : Bool) (e : Round) (l : Link) : Option Status × Link :=
  match l.askStatus notifyOk e with
  | (some st, l) => (some st, l)
  | (none, l) => l.readStatus e.read

/-- A DATA packet: the low half of the offset, and the next bytes. -/
def packet (bytes : List UInt8) (off chunk : Nat) : List UInt8 :=
  u16ToLe (UInt16.ofNat off) ++ Embedded.segment bytes off chunk

/-- Send up to `n` packets, the first of them being number `i` of the burst. After a failed write
the client goes on with small packets, if it has not done so already. -/
def burst (bytes : List UInt8) (packets : Nat → Access) : Nat → Nat → Sender → Except Failure Sender
  | _, 0, s => .ok s
  | i, n + 1, s =>
    if s.off < bytes.length then
      let link := s.link.write (packets i) (.data (packet bytes s.off s.chunk))
      if (packets i).fails then
        if s.chunk > CHUNK_SMALL then .ok { s with chunk := CHUNK_SMALL, link }
        else .error .write
      else
        burst bytes packets (i + 1) n
          { s with off := s.off + (Embedded.segment bytes s.off s.chunk).length, link }
    else .ok s

/-- One round of the loop. -/
def round (notifyOk : Bool) (bytes : List UInt8) (e : Round) (s : Sender) :
    Except Failure Sender := do
  let burstStart := s.off
  let s ← burst bytes e.packets 0 ACK_EVERY s
  let burstEnd := s.off
  match s.link.waitFor notifyOk e.acked fun st => burstEnd ≤ st.received.toNat with
  | (some _, link) => .ok { s with link }
  | (none, link) =>
    match link.syncStatus notifyOk e with
    | (none, _) => .error .noAnswer
    | (some st, link) =>
      if st.state ≠ 1 then .error (.aborted st.state)
      else if st.received.toNat < burstEnd then
        .ok
          { chunk := if st.received.toNat = burstStart ∧ s.chunk > CHUNK_SMALL then CHUNK_SMALL
              else s.chunk
            off := st.received.toNat
            link }
      else .ok { s with link }

/-- The loop, for as long as the rounds go. -/
def rounds (notifyOk : Bool) (bytes : List UInt8) : List Round → Sender → Except Failure Sender
  | [], s => .ok s
  | e :: es, s =>
    if s.off < bytes.length then round notifyOk bytes e s >>= rounds notifyOk bytes es
    else .ok s

/-- The circumstances of a transfer. -/
structure Script where
  start : Access := {}
  started : Wait := {}
  read : Access := {}
  rounds : List Round
  commit : Access := {}
  verdict : Wait := {}
  late : Access := {}

/-- Where a transfer is when the circumstances given are used up. -/
inductive Outcome
  | running (s : Sender)
  | done (st : Option Status) (l : Link)

/-- START, and the STATUS that answers it. -/
def begin (notifyOk : Bool) (start : List UInt8) (e : Script) (l : Link) : Except Failure Link :=
  let l := l.write e.start (.ctrl start)
  if e.start.fails then .error .write
  else
    match
      match l.waitFor notifyOk e.started fun st => st.state = 1 with
      | (some st, l) => (some st, l)
      | (none, l) => l.readStatus e.read
    with
    | (some st, l) => if st.state ≠ 1 then .error .notStarted else .ok l
    | (none, _) => .error .notStarted

/-- The commit, and the STATUS that answers it. -/
def finish (notifyOk : Bool) (e : Script) (l : Link) : Except Failure (Option Status × Link) :=
  let l := l.write e.commit (.ctrl [0x02])
  if e.commit.fails then .error .write
  else
    match l.waitFor notifyOk e.verdict fun st => st.state ≠ 1 with
    | (some st, l) => .ok (some st, l)
    | (none, l) => .ok (l.readStatus e.late)

def transfer (notifyOk : Bool) (start bytes : List UInt8) (e : Script) (l : Link) :
    Except Failure Outcome := do
  let l ← begin notifyOk start e l
  let s ← rounds notifyOk bytes e.rounds { chunk := CHUNK_BIG, off := 0, link := l }
  if s.off < bytes.length then pure (.running s)
  else
    let (st, l) ← finish notifyOk e s.link
    pure (.done st l)

end Web

end PaperNamePlate
