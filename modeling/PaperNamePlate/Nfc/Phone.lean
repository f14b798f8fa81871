import PaperNamePlate.Lib.Simulates
import PaperNamePlate.Nfc.Vigil

/-!
# A phone in front of the reader

A card for ISO-DEP is activated by RATS and then speaks in blocks. In the field of the chip the
driver does with it what it does on a link without loss, and there an exchange brings back the whole
response: what a poll tells of such a card is the message in its file.
-/
namespace PaperNamePlate

open Embedded St25r3916

variable {σ : Type}

/-! ## Cards for ISO-DEP -/

namespace Picc

theorem send_le {k : Picc σ} (h : k.last.length ≤ 254) :
    (∀ frame ∈ k.send.1, frame.length ≤ 254) ∧ k.send.2.last.length ≤ 254 := by
  unfold send
  split
  · exact ⟨fun _ hnone => (nomatch hnone), h⟩
  · refine ⟨fun frame hframe => ?_, h⟩
    obtain rfl := Option.some.inj hframe
    simp
  · next payload hle _ _ =>
    have hblock : ∀ b : UInt8, (b :: payload).length ≤ 254 := by
      intro b
      rw [List.length_cons]
      omega
    refine ⟨fun frame hframe => ?_, hblock _⟩
    obtain rfl := Option.some.inj hframe
    exact hblock _

/-- The frames of a card fit the FIFO. -/
theorem receive_le {k : Picc σ} (h : k.last.length ≤ 254) (tx : List UInt8) :
    (∀ frame ∈ (k.receive tx).1, frame.length ≤ 254) ∧ (k.receive tx).2.last.length ≤ 254 := by
  unfold receive
  split
  · exact ⟨fun _ hnone => (nomatch hnone), h⟩
  · split
    · exact send_le h
    · split
      · split
        · exact send_le h
        · refine ⟨fun frame hframe => ?_, h⟩
          obtain rfl := Option.some.inj hframe
          exact h
      · split
        · exact send_le h
        · exact ⟨fun _ hnone => (nomatch hnone), h⟩

end Picc

/-- A card that has been activated; the block that it sent last fits a frame. -/
abbrev Linked (σ : Type) : Type := { p : Picc σ // p.last.length ≤ 254 }

def Linked.receive (p : Linked σ) (tx : List UInt8) : Option (List UInt8) × Linked σ :=
  ((p.val.receive tx).1, ⟨(p.val.receive tx).2, (Picc.receive_le p.property tx).2⟩)

/-- What a card for ISO-DEP does with a frame: RATS activates it, S(DESELECT) ends the session. -/
def isoDepRespond (ats : List UInt8) (fresh : Linked σ) :
    Option (Linked σ) → List UInt8 → Reaction (Option (Linked σ))
  | none, tx => if tx.head? = some 0xE0 then .answer ats (some fresh) else .drop
  | some p, tx =>
    if tx = [0xC2] then .leave [0xC2]
    else
      match p.receive tx with
      | (some frame, p) => .answer frame (some p)
      | (none, _) => .drop

theorem Coupled.transceive_vain {s : St25r3916 (Coupled σ)} {tx : List UInt8} {card : Picc σ}
    (hvain : s.i2c.card.receive tx = (none, card)) (htx : tx.length < 512) (ms : Nat) :
    ∃ nfc, St25r3916.transceive tx 260 ms s = (.error .timeout, nfc) := by
  have hbytes : (numTxWord (UInt16.ofNat tx.length) 0 >>> 3).toNat = tx.length := by
    rw [byteCount_numTxWord, Nat.mod_eq_of_lt htx]
  generalize hc : Coupled.transmit { s.i2c with
    flags := 0, fifo := tx, numTx := numTxWord (UInt16.ofNat tx.length) 0 } = c
  have hflags : c.flags = 0 := by
    rw [← hc, Coupled.transmit]
    dsimp only
    rw [hbytes, List.take_length, hvain]
  have hread : readIrq ⟨c, 0⟩ = (.ok 0, ⟨c, 0⟩) := by
    have hirq := Coupled.readIrq_eq c
    have hzero : Coupled.word 0 = 0 := by decide
    have hsame : { c with flags := 0 } = c := by rw [← hflags]
    rwa [hflags, hzero, hsame] at hirq
  have hset : setFwtMs ms s = (.ok (), s) := rfl
  have hmode : writeReg reg.ISO14443A_NFC 0x00 s = (.ok (), s) := rfl
  refine ⟨⟨c, 0⟩, ?_⟩
  rw [St25r3916.transceive, lift_bind_ok hset, lift_bind_ok hmode,
    lift_bind_ok (Coupled.setRxCrcCheck_eq true s), Coupled.sends_eq, hc,
    lift_bind_ok (waitIrq_silent hread _ (ms + 2)), if_pos (by decide), if_neg (by decide)]
  rfl

/-! ## One card on both -/

section

variable {k : Card (Option (Linked σ))} {ats : List UInt8} {fresh : Linked σ}

open Prog

end

/-! ## Dialogues -/

namespace Type4

open Prog

variable {S T ε ε' : Type} {R : S → T → Prop} {exchange : Exchange S ε} {exchange' : Exchange T ε'}

end Type4

/-! ## An application behind the link -/

/-- The card answers as an application does, in at most as many frames as an exchange takes. -/
structure Runs (c : Type4.Card) (sel : σ → Type4.Selected) (respond : σ → List UInt8 → Reply × σ) :
    Prop where
  answers : ∀ a apdu, (c.exchange apdu (sel a) : Except Empty _ × _) =
    (.ok (payloads (respond a apdu).1.chunks), sel (respond a apdu).2)
  frames_le : ∀ a apdu, frames (respond a apdu).1.chunks ≤ 32

/-- A card for ISO-DEP with an NDEF application. -/
structure Card.Speaks (k : Card (Option (Linked σ))) (c : Type4.Card) : Prop where
  isoDep : k.sak &&& 0x20 ≠ 0
  start : k.start = none
  behaves : ∃ (ats : List UInt8) (fresh : Linked σ) (sel : σ → Type4.Selected),
    k.respond = isoDepRespond ats fresh ∧
    1 ≤ (ats.getD 0 0).toNat ∧ (ats.getD 0 0).toNat ≤ ats.length ∧ ats.length ≤ 30 ∧
    fresh.val.blockNum = true ∧ sel fresh.val.app = .application ∧ Runs c sel fresh.val.respond

theorem Card.Speaks.parts {k : Card (Option (Linked σ))} {c : Type4.Card} (h : k.Speaks c) :
    k.Parts := by
  obtain ⟨ats, fresh, sel, hk, -⟩ := h.behaves
  intro _ m answer m'
  rw [hk]
  cases m with
  | none => exact fun h => nomatch h
  | some p =>
    rw [isoDepRespond, if_pos rfl]
    exact fun h => nomatch h

end PaperNamePlate
