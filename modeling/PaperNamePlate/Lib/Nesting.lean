import PaperNamePlate.Lib.Triple

/-!
# Programs that call each other

A program that may call itself again through others takes the number of calls that may still be
nested. `HandsOver` says what one call does: it ends, or it is the next call from there on, whatever
that number is. `Returns n` says that `n` nested calls are enough.
-/
namespace Embedded.Prog

variable {σ ε α β : Type} {D : Except ε α × σ → Prop} {P C : σ → Prop} {p q : Nat → Prog σ ε α}

/-- From a state with `P`, the program ends with an outcome in `D`, or it goes on as `q` from a
state with `C`. -/
def HandsOver (D : Except ε α × σ → Prop) (P : σ → Prop) (p q : Nat → Prog σ ε α) (C : σ → Prop) :
    Prop :=
  ∀ s, P s → (∃ r, D r ∧ ∀ depth, p depth s = r) ∨ ∃ s', C s' ∧ ∀ depth, p depth s = q depth s'

theorem HandsOver.self (h : ∀ s, P s → C s) : HandsOver D P q q C :=
  fun s hs => .inr ⟨s, h s hs, fun _ => rfl⟩

theorem HandsOver.of_ends {p : Prog σ ε α} (h : ∀ s, P s → D (p s)) :
    HandsOver D P (fun _ => p) q C :=
  fun s hs => .inl ⟨p s, h s hs, fun _ => rfl⟩

/-- What comes before the calls ends the program at an error. -/
theorem HandsOver.bind {pre : Prog σ ε β} {f : β → Nat → Prog σ ε α} {Q : β → σ → Prop}
    (hpre : Triple P pre Q fun _ => True)
    (hstop : ∀ s s' e, pre s = (.error e, s') → D (.error e, s'))
    (hf : ∀ b, HandsOver D (Q b) (f b) q C) :
    HandsOver D P (fun depth => pre >>= fun b => f b depth) q C := by
  intro s hs
  rcases hrun : pre s with ⟨e | b, s'⟩
  · refine .inl ⟨(.error e, s'), hstop s s' e hrun, fun depth => ?_⟩
    dsimp only
    rw [bind_eq, hrun]
  · have hgo : ∀ depth, (pre >>= fun b => f b depth) s = f b depth s' := by
      intro depth
      exact bind_of_ok hrun _
    rcases hf b s' (hpre.ok hs hrun) with ⟨r, hr, heq⟩ | ⟨s'', hc, heq⟩
    · exact .inl ⟨r, hr, fun depth => (hgo depth).trans (heq depth)⟩
    · exact .inr ⟨s'', hc, fun depth => (hgo depth).trans (heq depth)⟩

theorem HandsOver.ite {c : Prop} [Decidable c] {p p' : Nat → Prog σ ε α}
    (h : c → HandsOver D P p q C) (h' : ¬c → HandsOver D P p' q C) :
    HandsOver D P (fun depth => if c then p depth else p' depth) q C := by
  by_cases hc : c
  · simpa only [if_pos hc] using h hc
  · simpa only [if_neg hc] using h' hc

theorem HandsOver.ite_bind {c : Prop} [Decidable c] {pre pre' : Prog σ ε β}
    {f : β → Nat → Prog σ ε α} (h : c → HandsOver D P (fun depth => pre >>= fun b => f b depth) q C)
    (h' : ¬c → HandsOver D P (fun depth => pre' >>= fun b => f b depth) q C) :
    HandsOver D P (fun depth => (if c then pre else pre') >>= fun b => f b depth) q C := by
  by_cases hc : c
  · simpa only [if_pos hc] using h hc
  · simpa only [if_neg hc] using h' hc

theorem HandsOver.when {c : Prop} [Decidable c] {pre : Prog σ ε Unit}
    (h : c → HandsOver D P (fun depth => pre >>= fun _ => p depth) q C)
    (h' : ¬c → HandsOver D P p q C) :
    HandsOver D P (fun depth => Prog.when c pre >>= fun _ => p depth) q C :=
  .ite_bind (f := fun _ => p) h h'

theorem HandsOver.weaken {P' : σ → Prop} (h : HandsOver D P p q C) (hP : ∀ s, P' s → P s) :
    HandsOver D P' p q C :=
  fun s hs => h s (hP s hs)

/-- What the states have in common may be assumed. -/
theorem HandsOver.assume {c : Prop} (hc : ∀ s, P s → c) (h : c → HandsOver D P p q C) :
    HandsOver D P p q C :=
  fun s hs => h (hc s hs) s hs

/-- From a state with `P`, `n` nested calls bring an outcome in `D`, and more make no difference. -/
def Returns (D : Except ε α × σ → Prop) (P : σ → Prop) (p : Nat → Prog σ ε α) (n : Nat) : Prop :=
  ∀ s, P s → ∃ r, D r ∧ ∀ depth, n ≤ depth → p depth s = r

theorem Returns.of_false (n : Nat) : Returns D (fun _ => False) p n := fun _ h => h.elim

/-- One call more than the next one takes. -/
theorem Returns.call {n : Nat} (h : HandsOver D P (fun depth => p (depth + 1)) q C)
    (hn : Returns D C q n) : Returns D P p (n + 1) := by
  intro s hs
  rcases h s hs with ⟨r, hr, heq⟩ | ⟨s', hc, heq⟩
  · refine ⟨r, hr, fun depth hdepth => ?_⟩
    obtain ⟨d, rfl⟩ := Nat.exists_eq_add_of_le' (Nat.le_of_add_left_le hdepth)
    exact heq d
  · obtain ⟨r, hr, hq⟩ := hn s' hc
    refine ⟨r, hr, fun depth hdepth => ?_⟩
    obtain ⟨d, rfl⟩ := Nat.exists_eq_add_of_le' (Nat.le_of_add_left_le hdepth)
    exact (heq d).trans (hq d (Nat.le_of_succ_le_succ hdepth))

end Embedded.Prog
