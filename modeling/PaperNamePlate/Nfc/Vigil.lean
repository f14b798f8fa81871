import PaperNamePlate.Nfc.Tap

/-!
# Tags that come and go

In reader mode a tag is announced when it is new. Polls with a clock, cards that are placed and
taken away, and other activity in between: what is announced, and when the field is on.
-/
namespace PaperNamePlate

open Embedded St25r3916 Aerial

/-! ## Dialogues -/

namespace Type4

open Prog

variable {S ε : Type} {R : S → S → Prop} [IsPreorder S R] {exchange : Exchange S ε}

theorem keeps_request (h : ∀ apdu, Keeps R (exchange apdu)) (step : String) (apdu : List UInt8) :
    Keeps R (request exchange step apdu) := by
  refine Keeps.bind (h apdu).mapError fun rsp => Keeps.bind ?_ fun _ => Keeps.pure rsp
  unfold check
  refine Keeps.ite (Keeps.throw _) ?_
  exact Keeps.ite (Keeps.throw _) (Keeps.pure ())

theorem keeps_readChunks (h : ∀ apdu, Keeps R (exchange apdu)) (nlen mle : Nat) (hm : 0 < mle)
    (msg : List UInt8) (offset : Nat) : Keeps R (readChunks exchange nlen mle hm msg offset) := by
  induction hgap : nlen - msg.length using Nat.strongRecOn generalizing msg offset with
  | _ gap ih =>
    rw [readChunks]
    split
    · next hlt =>
      refine Keeps.bind (keeps_request h _ _) fun rsp => ?_
      split
      · exact Keeps.throw _
      · next hlen =>
        refine ih _ ?_ _ _ rfl
        rw [List.length_append, List.length_take]
        omega
    · exact Keeps.pure msg

theorem keeps_readType4 (h : ∀ apdu, Keeps R (exchange apdu)) : Keeps R (readType4 exchange) := by
  refine Keeps.bind (keeps_request h _ _) fun _ => ?_
  refine Keeps.bind (keeps_request h _ _) fun _ => ?_
  refine Keeps.bind (keeps_request h _ _) fun rsp => ?_
  refine Keeps.ite (Keeps.throw _) ?_
  refine Keeps.ite (Keeps.throw _) ?_
  refine Keeps.bind (keeps_request h _ _) fun _ => ?_
  refine Keeps.bind (keeps_request h _ _) fun rsp => ?_
  exact Keeps.ite (Keeps.throw _) (keeps_readChunks h _ _ _ _ _)

end Type4

variable {σ : Type}

/-- Whatever card was attended still is. -/
def Tends (s s' : Reader σ) : Prop := ∀ k s₀, Attends k s₀ s → Attends k s₀ s'

instance : IsPreorder (Reader σ) Tends where
  refl _ _ _ := id
  trans _ _ _ h h' k s₀ hk := h' k s₀ (h k s₀ hk)

/-- The same of the chip of a session. -/
def DepTends (d d' : Dep (Aerial (Card σ))) : Prop := Tends d.nfc d'.nfc

instance : IsPreorder (Dep (Aerial (Card σ))) DepTends where
  refl d := Std.Refl.refl d.nfc
  trans d d' d'' h h' := IsTrans.trans d.nfc d'.nfc d''.nfc h h'

namespace St25r3916

open Prog

theorem tends_transceive {tx : List UInt8} (htx : tx.length < 512) {cap : Nat} (hcap : cap ≠ 0)
    (ms : Nat) :
    Keeps Tends (transceive tx cap ms : Driver (Aerial (Card σ)) _) :=
  fun _ _ _ h => h.say ⟨tx, cap, ms, htx, hcap⟩

theorem tends_activate : Keeps Tends (IsoDep.activate : Prog (Reader σ) _ IsoDep) := by
  refine Keeps.bind (tends_transceive (by decide) (by decide) _).mapError fun buf => ?_
  refine Keeps.ite (Keeps.throw _) ?_
  split
  · exact Keeps.throw _
  · exact Keeps.pure _

theorem tends_t2Read (block : UInt8) : Keeps Tends (t2Read block : Driver (Aerial (Card σ)) _) := by
  refine Keeps.bind (tends_transceive (by simp) (by decide) _) fun buf => ?_
  exact Keeps.ite (Keeps.throw _) (Keeps.pure _)

end St25r3916

namespace IsoDep

open Prog

theorem tends_transceive {tx : List UInt8} (htx : tx.length < 512) (timeout : Nat) :
    Keeps DepTends (transceive tx timeout : Exchange (Aerial (Card σ)) _) := by
  have hlow : Keeps Tends (St25r3916.transceive tx 260 timeout : Driver (Aerial (Card σ)) _) :=
    St25r3916.tends_transceive htx (by decide) timeout
  have hzoom : Keeps DepTends (Prog.zoom (·.nfc) (fun nfc d => { d with nfc })
      (St25r3916.transceive tx 260 timeout) : Prog (Dep (Aerial (Card σ))) _ _) :=
    Keeps.zoom hlow fun _ _ h => h
  exact hzoom.mapError

theorem tends_exchangeLoop (n : Nat) {tx : List UInt8} (htx : tx.length < 512) (timeout : Nat)
    (rsp : List UInt8) :
    Keeps DepTends (exchangeLoop n tx timeout rsp : Exchange (Aerial (Card σ)) _) := by
  induction n generalizing tx timeout rsp with
  | zero => exact Keeps.throw _
  | succ n ih =>
    refine Keeps.bind (tends_transceive htx timeout) fun rx => ?_
    refine Keeps.ite (Keeps.throw _) (Keeps.bind Keeps.get fun d => ?_)
    refine Keeps.ite (ih (by simp) _ _) ?_
    refine Keeps.ite (Keeps.ite (Keeps.throw _) ?_) (Keeps.throw _)
    refine Keeps.bind (Keeps.modify fun d => Std.Refl.refl d.nfc) fun _ => ?_
    exact Keeps.ite (ih (by simp) _ _) (Keeps.pure _)

theorem tends_exchange (apdu : List UInt8) :
    Keeps DepTends (exchange apdu : Exchange (Aerial (Card σ)) _) := by
  refine Keeps.bind Keeps.get fun d => ?_
  have hfsc := d.isoDep.ats.fsc_le
  split
  · exact Keeps.throw _
  · next hfit => exact tends_exchangeLoop 32 (by rw [List.length_cons]; omega) _ _

end IsoDep

/-! ## Parting -/

/-- A card for ISO-DEP that goes to rest on S(DESELECT). -/
def Card.Parts (k : Card σ) : Prop :=
  k.sak &&& 0x20 ≠ 0 → ∀ m answer m', k.respond m [0xC2] ≠ .answer answer m'

theorem Card.Parts.hear {k : Card σ} (hk : k.Parts) (hsak : k.sak &&& 0x20 ≠ 0)
    {state : CardState σ} (hstate : (∃ woken m, state = .active woken m) ∨
      (k.enter state).Resting) :
    ((k.enter state).hear (.withCrc [0xC2])).2.Resting := by
  rcases hstate with ⟨woken, m, rfl⟩ | hrest
  · rw [Card.hear_active (k := k.enter (.active woken m)) rfl (by decide)]
    cases hresp : (k.enter (.active woken m)).respond m [0xC2] with
    | answer answer m' => exact absurd hresp (hk hsak m answer m')
    | leave answer => exact .inr rfl
    | drop => exact Card.resting_fallBack _ woken
  · rw [hrest.hear_withCrc]
    exact hrest

theorem St25r3916.Attends.deselect {k : Card σ} {s s' : Reader σ} (h : Attends k s s')
    (hk : k.Parts) (hsak : k.sak &&& 0x20 ≠ 0) (isoDep : IsoDep) :
    ∃ state, Heard ⟨some (k.enter state), true⟩ s (isoDep.deselect s').2 ∧
      (k.enter state).Resting := by
  obtain ⟨state, hheard, hstate⟩ := h
  have hsame : (isoDep.deselect s').2 =
      St25r3916.say s' ⟨[0xC2], 8, isoDep.ats.fwtMs, by decide, by decide⟩ := by
    unfold IsoDep.deselect St25r3916.say
    rw [Prog.bind_eq, Prog.mapError]
    rcases St25r3916.transceive [0xC2] 8 isoDep.ats.fwtMs s' with ⟨e | rx, nfc⟩
    · rfl
    · dsimp only
      split <;> rfl
  have hsaid := heard_say (k := k.enter state) hheard.spot
    ⟨[0xC2], 8, isoDep.ats.fwtMs, by decide, by decide⟩
  have hrest := hk.hear hsak hstate
  obtain ⟨state', hnext⟩ := (k.enter state).hear_enter (.withCrc [0xC2])
  rw [hnext] at hsaid hrest
  exact ⟨state', hsame ▸ hheard.trans hsaid, hrest⟩

/-- A tag that was read is at rest. -/
theorem St25r3916.Attends.readTag {k : Card σ} {s s' : Reader σ} (h : Attends k s s')
    (hk : k.Parts) :
    ∃ state, Heard ⟨some (k.enter state), true⟩ s (readTag k.tag s').2 ∧
      (k.enter state).Resting := by
  unfold St25r3916.readTag
  split
  · next hiso =>
    have hsak : k.sak &&& 0x20 ≠ 0 := of_decide_eq_true hiso
    have hactive : Attends k s (IsoDep.activate s').2 := tends_activate s' k s h
    rcases hrun : IsoDep.activate s' with ⟨e | isoDep, nfc⟩
    · rw [hrun] at hactive
      exact hactive.halt
    · rw [hrun] at hactive
      have hread : Attends k s (Type4.readType4 IsoDep.exchange ⟨isoDep, nfc⟩).2.nfc :=
        Type4.keeps_readType4 IsoDep.tends_exchange ⟨isoDep, nfc⟩ k s hactive
      exact hread.deselect hk hsak _
  · split
    · have hread : Attends k s (t2Read 0 s').2 := tends_t2Read 0 s' k s h
      rcases hrun : t2Read 0 s' with ⟨e | d, nfc⟩
      · rw [hrun] at hread
        exact hread.halt
      · rw [hrun] at hread
        exact hread.halt
    · exact h.halt

/-! ## What tags are told apart by -/

inductive Badge
  | uid (bytes : List UInt8)
  /-- UIDs that change with every activation are not told apart. -/
  | random
deriving DecidableEq, Repr

def NfcaTag.badge (t : NfcaTag) : Badge :=
  if t.hasRandomUid then .random else .uid (Field.uidBytes t)

/-- The same of the bytes of a UID. -/
def randomUid (bytes : List UInt8) : Bool := bytes.length = 4 ∧ bytes.getD 0 0 = 0x08

theorem Card.hasRandomUid_tag (k : Card σ) : k.tag.hasRandomUid = randomUid k.uid.bytes := by
  have hlen := k.uid.length_bytes
  have hparts := k.uid.parts_le
  have hcount : k.tag.uidLen = UInt8.ofNat k.uid.bytes.length := rfl
  have hfour : k.tag.uidLen = 4 ↔ k.uid.bytes.length = 4 := by
    rw [hcount, ← UInt8.toNat_inj, UInt8.toNat_ofNat', Nat.mod_eq_of_lt (by omega)]
    rfl
  have hhead : k.tag.uid.getD 0 0 = k.uid.bytes.getD 0 0 := by
    have huid : k.tag.uid = k.uid.bytes ++ (List.replicate 10 0).drop (0 + k.uid.bytes.length) :=
      rfl
    rw [huid, List.getD_append _ _ _ _ (by omega)]
  rw [NfcaTag.hasRandomUid, hhead, randomUid]
  simp only [hfour]

/-- Two sightings are taken for one tag exactly if their badges are one. -/
theorem Card.same_iff (k k' : Card σ) : k.tag.same k'.tag = true ↔ k.tag.badge = k'.tag.badge := by
  rw [NfcaTag.same, decide_eq_true_iff, NfcaTag.badge, NfcaTag.badge, k.hasRandomUid_tag,
    k'.hasRandomUid_tag, Field.uidBytes_tag, Field.uidBytes_tag]
  generalize k.uid.bytes = u, k'.uid.bytes = v
  cases hu : randomUid u <;> cases hv : randomUid v
  · simp
  · have hne : u ≠ v := by grind
    simp [hne]
  · have hne : u ≠ v := by grind
    simp [hne]
  · simp

/-! ## Polls -/

namespace Watch

open St25r3916

/-- What a poll reports: a new tag with its number. -/
def report (p : TagPoll (Aerial (Card σ)) TagView) : Option (NfcaTag × UInt32) :=
  p.newTag.map fun v => (v.tag, v.count)

theorem found_known {w : Watch} {t : NfcaTag} (h : (w.lastTag.any fun u => u.same t) = true)
    (now : Nat) (nfc : Reader σ) :
    w.found now t nfc = (⟨(nfcaHalt nfc).2, none⟩, { w with lastActivity := now }) := if_pos h

theorem found_new {w : Watch} {t : NfcaTag} (h : ¬ (w.lastTag.any fun u => u.same t) = true)
    (now : Nat) (nfc : Reader σ) :
    w.found now t nfc =
      (⟨(readTag t nfc).2, some ⟨t, w.tagCount + 1, (readTag t nfc).1.1, (readTag t nfc).1.2⟩⟩,
        { w with lastActivity := now, tagCount := w.tagCount + 1, lastTag := some t }) := if_neg h

/-- A card that was found is at rest again. -/
theorem found_card {k : Card σ} {s nfc : Reader σ} (h : Attends k s nfc) (hk : k.Parts) (now : Nat)
    (w : Watch) :
    ∃ p w' state, w.found now k.tag nfc = (p, w') ∧ Heard ⟨some (k.enter state), true⟩ s p.nfc ∧
      (k.enter state).Resting ∧
      (if w.lastTag.any fun u => u.same k.tag then
        report p = none ∧ w' = { w with lastActivity := now }
      else
        report p = some (k.tag, w.tagCount + 1) ∧ w' =
            { w with
              lastActivity := now
              tagCount := w.tagCount + 1
              lastTag := some k.tag }) := by
  by_cases hsame : (w.lastTag.any fun u => u.same k.tag) = true
  · obtain ⟨state, hheard, hrest⟩ := h.halt
    refine ⟨_, _, state, found_known hsame now nfc, hheard, hrest, ?_⟩
    rw [if_pos hsame]
    exact ⟨rfl, rfl⟩
  · obtain ⟨state, hheard, hrest⟩ := h.readTag hk
    refine ⟨_, _, state, found_new hsame now nfc, hheard, hrest, ?_⟩
    rw [if_neg hsame]
    exact ⟨rfl, rfl⟩

/-- The field is on where a poll starts to look. -/
theorem powered {w : Watch} {s : Reader σ} (h : Field.Rests s)
    (hlit : w.dutyCycling = false → s.i2c.spot.lit = true) :
    ∃ s', (if w.dutyCycling then fieldOn s else (.ok (), s)) = (.ok (), s') ∧ Field.Rests s' ∧
      s'.i2c.spot = s.i2c.spot.power true := by
  cases hduty : w.dutyCycling with
  | true =>
    obtain ⟨s', hrun, hcoherent, hspot⟩ := fieldOn_eq h.coherent
    exact ⟨s', hrun, (h.power hcoherent hspot).1, hspot⟩
  | false => exact ⟨s, rfl, h, (Spot.power_same (hlit hduty)).symm⟩

/-- A poll finds the card in front. -/
theorem pollNfc_finds {w : Watch} {s : Reader σ} (h : Field.Rests s)
    (hlit : w.dutyCycling = false → s.i2c.spot.lit = true) {k : Card σ}
    (hpeer : s.i2c.spot.peer = some k) (now : Nat) :
    ∃ s₁ nfc state woken, Field.Rests s₁ ∧ Facing (k.enter state) s₁ ∧
      Heard ⟨some (k.enter (.active woken k.start)), true⟩ s₁ nfc ∧
      w.pollNfc now s = some (w.found now k.tag nfc) := by
  obtain ⟨s₁, hpower, hrests, hspot⟩ := powered h hlit
  obtain ⟨state, hfacing⟩ : ∃ state, Facing (k.enter state) s₁ := by
    unfold Facing
    rw [hspot, Spot.power]
    split
    · next hsame =>
      refine ⟨k.state, ?_⟩
      rcases hs : s.i2c.spot with ⟨peer, lit⟩
      rw [hs] at hpeer hsame
      obtain rfl : peer = some k := hpeer
      obtain rfl : lit = true := hsame
      rfl
    · rw [hpeer]
      exact ⟨.idle, rfl⟩
  have hrest := hrests.resting (k.enter state) (by rw [hfacing]; rfl)
  obtain ⟨nfc, woken, hpoll, hheard⟩ := nfcaPoll_card hfacing hrest
  refine ⟨s₁, nfc, state, woken, hrests, hfacing, hheard, ?_⟩
  rw [pollNfc, hpower]
  dsimp only
  rw [hpoll]
  rfl

/-- A poll with a card in front. -/
theorem pollNfc_card {w : Watch} {s : Reader σ} (h : Field.Rests s)
    (hlit : w.dutyCycling = false → s.i2c.spot.lit = true) {k : Card σ}
    (hpeer : s.i2c.spot.peer = some k) (hk : k.Parts) (now : Nat) :
    ∃ p w' state, w.pollNfc now s = some (p, w') ∧ Field.Rests p.nfc ∧
      p.nfc.i2c.spot = ⟨some (k.enter state), true⟩ ∧
      (if w.lastTag.any fun u => u.same k.tag then
        report p = none ∧ w' = { w with lastActivity := now }
      else
        report p = some (k.tag, w.tagCount + 1) ∧ w' =
            { w with
              lastActivity := now
              tagCount := w.tagCount + 1
              lastTag := some k.tag }) := by
  obtain ⟨s₁, nfc, state₁, woken, hrests, hfacing, hheard, hpoll⟩ := pollNfc_finds h hlit hpeer now
  have hattends : Attends (k.enter state₁) s₁ nfc := ⟨_, hheard, .inl ⟨woken, k.start, rfl⟩⟩
  obtain ⟨p, w', state, hfound, hheard', hrest', hreport⟩ :=
    found_card hattends (k := k.enter state₁) hk now w
  exact ⟨p, w', state, hpoll.trans (congrArg some hfound), (hrests.heard hfacing hheard' hrest').1,
    hheard'.spot, hreport⟩

/-- A poll with nothing in front. -/
theorem pollNfc_nothing {w : Watch} {s : Reader σ} (h : Field.Rests s)
    (hlit : w.dutyCycling = false → s.i2c.spot.lit = true) (hpeer : s.i2c.spot.peer = none)
    (now : Nat) :
    ∃ p, w.pollNfc now s = some (p, w.missed now) ∧ report p = none ∧ Field.Rests p.nfc ∧
      p.nfc.i2c.spot = ⟨none, !w.dutyCycling⟩ := by
  obtain ⟨s₁, hpower, hrests, hspot⟩ := powered h hlit
  have hspot₁ : s₁.i2c.spot = ⟨none, true⟩ := by
    rw [hspot, Spot.power]
    rcases hs : s.i2c.spot with ⟨peer, lit⟩
    rw [hs] at hpeer
    obtain rfl : peer = none := hpeer
    cases lit <;> rfl
  obtain ⟨nfc, hpoll, hheard⟩ :=
    nfcaPoll_nothing (s := s₁) (by rw [Alone, hspot₁]; exact fun _ => rfl)
  rw [hspot₁] at hheard
  have hrests₂ : Field.Rests nfc := by
    refine ⟨fun k hk => ?_, ?_⟩
    · rw [hheard.spot] at hk
      cases hk
    · rw [Coherent, hheard.spot, hheard.opControl, ← hrests.coherent, hspot₁]
  have hrun : w.pollNfc now s =
      some (⟨if w.dutyCycling then (fieldOff nfc).2 else nfc, none⟩, w.missed now) := by
    rw [pollNfc, hpower]
    dsimp only
    rw [hpoll]
  refine ⟨_, hrun, rfl, ?_⟩
  cases w.dutyCycling with
  | true =>
    obtain ⟨s₂, hoff, hcoherent, hspot₂⟩ := fieldOff_eq hrests₂.coherent
    have hsecond : (fieldOff nfc).2 = s₂ := congrArg Prod.snd hoff
    dsimp only
    rw [if_pos rfl, hsecond]
    refine ⟨(hrests₂.power hcoherent hspot₂).1, ?_⟩
    rw [hspot₂, hheard.spot]
    rfl
  | false => exact ⟨hrests₂, hheard.spot⟩

/-- A poll that found none only forgets. -/
theorem missed_eq (now : Nat) (w : Watch) :
    (∀ t, (w.missed now).lastTag = some t → w.lastTag = some t) ∧
      (w.missed now).lastTag.map NfcaTag.badge =
        (if TAG_FORGET_MS < now - w.lastActivity then none else w.lastTag.map NfcaTag.badge) ∧
      (w.missed now).fieldAlwaysOn = w.fieldAlwaysOn ∧ (w.missed now).tagCount = w.tagCount ∧
      (w.missed now).lastActivity = w.lastActivity := by
  unfold missed
  by_cases hforgets : w.lastTag.isSome ∧ TAG_FORGET_MS < now - w.lastActivity
  · rw [if_pos hforgets, if_pos hforgets.2]
    exact ⟨fun t ht => (nomatch ht), rfl, rfl, rfl, rfl⟩
  · rw [if_neg hforgets]
    refine ⟨fun t => id, ?_, rfl, rfl, rfl⟩
    split
    · next hlate =>
      have hnone : w.lastTag = none := by
        rw [← Option.not_isSome_iff_eq_none]
        exact fun hsome => hforgets ⟨hsome, hlate⟩
      rw [hnone]
      rfl
    · rfl

end Watch

/-! ## Runs -/

inductive WatchOp (σ : Type)
  | place (k : Card σ) (parts : k.Parts)
  | remove
  /-- So many milliseconds pass. -/
  | wait (ms : Nat)
  /-- Something that counts as activity besides tags. -/
  | activity
  | poll

/-- What a poll comes to: a new tag with its number, and whether the field stays on. -/
structure Notice where
  newTag : Option (NfcaTag × UInt32)
  lit : Bool
deriving DecidableEq, Repr

/-- Reader mode with its clock. -/
structure Lookout (σ : Type) where
  watch : Watch := {}
  nfc : St25r3916.Reader σ
  now : Nat := 0

/-- What reader mode is to keep in mind. -/
structure Attention where
  /-- The card in front. -/
  present : Option NfcaTag
  /-- The tag that was found last, unless it is forgotten. -/
  known : Option Badge
  reports : UInt32
  /-- Milliseconds since the last activity. -/
  quiet : Nat

namespace Attention

def step (a : Attention) : WatchOp σ → Attention
  | .place k _ => { a with present := some k.tag }
  | .remove => { a with present := none }
  | .wait ms => { a with quiet := a.quiet + ms }
  | .activity => { a with quiet := 0 }
  | .poll =>
    match a.present with
    | some t =>
      { a with
        known := some t.badge
        reports := if a.known = some t.badge then a.reports else a.reports + 1
        quiet := 0 }
    | none => if TAG_FORGET_MS < a.quiet then { a with known := none } else a

/-- A tag is news if it is not the one that is known, and the field stays on for a tag that was
found or known. -/
def due (a : Attention) : WatchOp σ → List Notice
  | .poll =>
    [⟨a.present.bind fun t => if a.known = some t.badge then none else some (t, a.reports + 1),
      a.present.isSome || a.known.isSome⟩]
  | _ => []

end Attention

namespace Lookout

open St25r3916

def step (l : Lookout σ) : WatchOp σ → Lookout σ
  | .place k _ => { l with nfc := Field.setPeer l.nfc (some (k.enter .idle)) }
  | .remove => { l with nfc := Field.setPeer l.nfc none }
  | .wait ms => { l with now := l.now + ms }
  | .activity => { l with watch := { l.watch with lastActivity := l.now } }
  | .poll =>
    match l.watch.pollNfc l.now l.nfc with
    | some (p, watch) => { l with watch, nfc := p.nfc }
    | none => l

/-- What the polls come to. -/
def noticed (l : Lookout σ) : WatchOp σ → List Notice
  | .poll =>
    match l.watch.pollNfc l.now l.nfc with
    | some (p, _) => [⟨Watch.report p, p.nfc.i2c.spot.lit⟩]
    | none => []
  | _ => []

/-- Between two polls: the card is at rest, and the field is on while a tag is known. -/
structure Steady (l : Lookout σ) : Prop where
  rests : Field.Rests l.nfc
  parts : ∀ k ∈ l.nfc.i2c.spot.peer, k.Parts
  lit : l.watch.lastTag.isSome → l.nfc.i2c.spot.lit = true
  cycling : l.watch.fieldAlwaysOn = false
  carried : ∀ t ∈ l.watch.lastTag, ∃ k : Card σ, t = k.tag
  past : l.watch.lastActivity ≤ l.now

def attention (l : Lookout σ) : Attention where
  present := (Field.around l.nfc).1
  known := l.watch.lastTag.map NfcaTag.badge
  reports := l.watch.tagCount
  quiet := l.now - l.watch.lastActivity

theorem Steady.dutyCycling {l : Lookout σ} (h : Steady l) :
    l.watch.dutyCycling = l.watch.lastTag.isNone := by
  rw [Watch.dutyCycling, h.cycling, Bool.not_false, Bool.and_true]

theorem Steady.shines {l : Lookout σ} (h : Steady l) (hduty : l.watch.dutyCycling = false) :
    l.nfc.i2c.spot.lit = true := by
  apply h.lit
  rw [h.dutyCycling] at hduty
  rw [← Option.not_isNone, hduty]
  rfl

theorem Steady.same_iff {l : Lookout σ} (h : Steady l) (k : Card σ) :
    (l.watch.lastTag.any fun u => u.same k.tag) = true ↔ l.attention.known = some k.tag.badge := by
  unfold attention
  cases hlast : l.watch.lastTag with
  | none => simp
  | some t =>
    obtain ⟨k', rfl⟩ := h.carried t hlast
    simp only [Option.any_some, Option.map_some, Option.some.injEq]
    exact Card.same_iff k' k

/-! A poll, as the reader sees it and as it is to be. -/

theorem step_poll_nothing {l : Lookout σ} (h : Steady l) (hpeer : l.nfc.i2c.spot.peer = none) :
    Steady (l.step .poll) ∧ (l.step .poll).attention = l.attention.step (.poll : WatchOp σ) ∧
      l.noticed .poll = l.attention.due (.poll : WatchOp σ) := by
  obtain ⟨p, hpoll, hreport, hrests, hspot⟩ := Watch.pollNfc_nothing h.rests h.shines hpeer l.now
  have hpresent : l.attention.present = none := by rw [attention, Field.around, hpeer]; rfl
  have hstep : l.step .poll = { l with watch := l.watch.missed l.now, nfc := p.nfc } := by
    rw [step, hpoll]
  have hnotice : l.noticed .poll = [⟨none, l.watch.lastTag.isSome⟩] := by
    rw [noticed, hpoll]
    dsimp only
    rw [hspot, hreport, h.dutyCycling, Option.not_isNone]
  obtain ⟨hlast, hknown, hkept⟩ := l.watch.missed_eq l.now
  refine ⟨?_, ?_, ?_⟩
  · rw [hstep]
    refine ⟨hrests, fun k hk => ?_, fun hsome => ?_, hkept.1.trans h.cycling,
      fun t ht => ?_, ?_⟩
    · rw [hspot] at hk
      cases hk
    · obtain ⟨t, ht⟩ := Option.isSome_iff_exists.mp hsome
      rw [hspot, h.dutyCycling, hlast t ht]
      rfl
    · exact h.carried t (hlast t ht)
    · exact hkept.2.2.trans_le h.past
  · rw [hstep, Attention.step, hpresent]
    unfold attention Field.around
    dsimp only
    rw [hkept.2.1, hkept.2.2, hknown, hspot, hpeer]
    split <;> rfl
  · rw [hnotice, Attention.due, hpresent]
    simp [attention]

theorem step_poll_card {l : Lookout σ} (h : Steady l) {k : Card σ}
    (hpeer : l.nfc.i2c.spot.peer = some k) :
    Steady (l.step .poll) ∧ (l.step .poll).attention = l.attention.step (.poll : WatchOp σ) ∧
      l.noticed .poll = l.attention.due (.poll : WatchOp σ) := by
  obtain ⟨p, w', state, hpoll, hrests, hspot, hreport⟩ :=
    Watch.pollNfc_card h.rests h.shines hpeer (h.parts k hpeer) l.now
  have hpresent : l.attention.present = some k.tag := by rw [attention, Field.around, hpeer]; rfl
  have hstep : l.step .poll = { l with watch := w', nfc := p.nfc } := by rw [step, hpoll]
  have hnotice : l.noticed .poll = [⟨Watch.report p, true⟩] := by
    rw [noticed, hpoll]
    dsimp only
    rw [hspot]
  have haround : Field.around p.nfc = (some k.tag, true) := by rw [Field.around, hspot]; rfl
  have hparts : ∀ k' ∈ p.nfc.i2c.spot.peer, k'.Parts := by
    intro k' hk'
    rw [hspot] at hk'
    obtain rfl := Option.some.inj hk'
    exact h.parts k hpeer
  rw [hstep, hnotice, Attention.step, Attention.due, hpresent]
  by_cases hsame : (l.watch.lastTag.any fun u => u.same k.tag) = true
  · have hknown := (h.same_iff k).mp hsame
    rw [if_pos hsame] at hreport
    obtain ⟨hnone, rfl⟩ := hreport
    refine ⟨⟨hrests, hparts, fun _ => by rw [hspot], h.cycling, h.carried, le_rfl⟩, ?_, ?_⟩
    · dsimp only
      rw [if_pos hknown, ← hknown]
      simp [attention, haround]
    · simp [hnone, hknown]
  · have hknown := mt (h.same_iff k).mpr hsame
    rw [if_neg hsame] at hreport
    obtain ⟨hsome, rfl⟩ := hreport
    refine ⟨⟨hrests, hparts, fun _ => by rw [hspot], h.cycling, fun t ht => ?_, le_rfl⟩, ?_, ?_⟩
    · obtain rfl := Option.some.inj ht
      exact ⟨k, rfl⟩
    · dsimp only
      rw [if_neg hknown]
      simp [attention, haround]
    · rw [hsome, Option.bind_some, if_neg hknown]
      rfl

theorem step_poll {l : Lookout σ} (h : Steady l) :
    Steady (l.step .poll) ∧ (l.step .poll).attention = l.attention.step (.poll : WatchOp σ) ∧
      l.noticed .poll = l.attention.due (.poll : WatchOp σ) := by
  cases hpeer : l.nfc.i2c.spot.peer with
  | none => exact step_poll_nothing h hpeer
  | some k => exact step_poll_card h hpeer

theorem step_attention {l : Lookout σ} (h : Steady l) (op : WatchOp σ) :
    Steady (l.step op) ∧ (l.step op).attention = l.attention.step op ∧
      l.noticed op = l.attention.due op := by
  cases op with
  | place k parts =>
    refine ⟨⟨⟨fun k' hk' => ?_, h.rests.coherent⟩, fun k' hk' => ?_, h.lit, h.cycling,
      h.carried, h.past⟩, rfl, rfl⟩
    · obtain rfl := Option.some.inj hk'
      exact .inl rfl
    · obtain rfl := Option.some.inj hk'
      exact parts
  | remove =>
    exact ⟨⟨⟨fun _ hk => (nomatch hk), h.rests.coherent⟩, fun _ hk => (nomatch hk),
      h.lit, h.cycling, h.carried, h.past⟩, rfl, rfl⟩
  | wait ms =>
    have hpast := h.past
    refine ⟨⟨h.rests, h.parts, h.lit, h.cycling, h.carried, hpast.trans (Nat.le_add_right _ _)⟩, ?_,
      rfl⟩
    have hquiet : l.now + ms - l.watch.lastActivity = l.now - l.watch.lastActivity + ms := by omega
    rw [Attention.step, attention]
    exact congrArg (Attention.mk _ _ _) hquiet
  | activity =>
    refine ⟨⟨h.rests, h.parts, h.lit, h.cycling, h.carried, le_rfl⟩, ?_, rfl⟩
    rw [Attention.step, attention]
    exact congrArg (Attention.mk _ _ _) (Nat.sub_self l.now)
  | poll => exact step_poll h

theorem Steady.run {l : Lookout σ} (h : Steady l) (ops : List (WatchOp σ)) :
    Steady (run step l ops) := by
  have hall : Always step Steady l ops := by
    apply always_of_invariant
    · intro l op hl
      exact (step_attention hl op).1
    · exact h
  exact hall.last

end Lookout

end PaperNamePlate
