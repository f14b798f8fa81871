import PaperNamePlate.Lib.Effect

/-!
# Pre- and postconditions of programs with errors

`Triple P p Q E`: from a state with `P` the program returns with `Q` or stops with
`E`. The rules follow the structure of the program, as those of `Keeps` do.
-/
namespace Embedded.Prog

variable {σ ε ε' α β : Type}

/-- From a state with `P`, the program returns with `Q` or stops with an error and `E`. -/
def Triple (P : σ → Prop) (p : Prog σ ε α) (Q : α → σ → Prop) (E : σ → Prop) : Prop :=
  ∀ s, P s → match p s with
    | (.ok a, s') => Q a s'
    | (.error _, s') => E s'

variable {P P' : σ → Prop} {Q Q' : α → σ → Prop} {R : β → σ → Prop} {E E' : σ → Prop}

theorem Triple.ok {p : Prog σ ε α} (h : Triple P p Q E) {s s' : σ} {a : α} (hs : P s)
    (hp : p s = (.ok a, s')) : Q a s' := by
  have h' := h s hs
  rwa [hp] at h'

theorem Triple.conseq {p : Prog σ ε α} (h : Triple P p Q E) (hP : ∀ s, P' s → P s)
    (hQ : ∀ a s, Q a s → Q' a s) (hE : ∀ s, E s → E' s) : Triple P' p Q' E' := by
  intro s hs
  have h' := h s (hP s hs)
  revert h'
  rcases p s with ⟨e | a, s'⟩
  · exact hE s'
  · exact hQ a s'

theorem Triple.exists {ι : Type} {C : ι → Prop} {P : ι → σ → Prop} {p : Prog σ ε α}
    (h : ∀ i, C i → Triple (P i) p Q E) : Triple (fun s => ∃ i, C i ∧ P i s) p Q E := by
  rintro s ⟨i, hc, hs⟩
  exact h i hc s hs

theorem Triple.or {p : Prog σ ε α} (h : Triple P p Q E) (h' : Triple P' p Q E) :
    Triple (fun s => P s ∨ P' s) p Q E :=
  fun s hs => hs.elim (h s) (h' s)

theorem Triple.imp {c : Prop} {p : Prog σ ε α} (h : c → Triple P p Q E) :
    Triple (fun s => c ∧ P s) p Q E :=
  fun s hs => h hs.1 s hs.2

theorem Triple.pure (a : α) (h : ∀ s, P s → Q a s) :
    Triple P (Pure.pure a : Prog σ ε α) Q E := h

theorem Triple.throw (e : ε) (h : ∀ s, P s → E s) : Triple P (throw e : Prog σ ε α) Q E := h

theorem Triple.get {Q : σ → σ → Prop} (h : ∀ s, P s → Q s s) :
    Triple P (get : Prog σ ε σ) Q E := h

theorem Triple.modify {f : σ → σ} {Q : Unit → σ → Prop} (h : ∀ s, P s → Q () (f s)) :
    Triple P (modify f : Prog σ ε Unit) Q E := h

theorem Triple.bind {p : Prog σ ε α} {f : α → Prog σ ε β} (hp : Triple P p Q E)
    (hf : ∀ a, Triple (Q a) (f a) R E) : Triple P (p >>= f) R E := by
  intro s hs
  have h := hp s hs
  change match andThen p f s with | (.ok a, s') => R a s' | (.error _, s') => E s'
  unfold andThen
  revert h
  rcases p s with ⟨e | a, s'⟩
  · exact id
  · exact hf a s'

theorem Triple.any (p : Prog σ ε α) : Triple P p (fun _ _ => True) fun _ => True := by
  intro s _
  rcases p s with ⟨_ | a, s'⟩ <;> trivial

/-- Where nothing is claimed of the first program. -/
theorem Triple.after {p : Prog σ ε α} {f : α → Prog σ ε β}
    (hf : ∀ a, Triple (fun _ => True) (f a) R fun _ => True) :
    Triple P (p >>= f) R fun _ => True :=
  (Triple.any p).bind hf

theorem Triple.ite {c : Prop} [Decidable c] {p q : Prog σ ε α} (hp : c → Triple P p Q E)
    (hq : ¬ c → Triple P q Q E) : Triple P (if c then p else q) Q E := by
  split
  · next h => exact hp h
  · next h => exact hq h

theorem Triple.attempt {p : Prog σ ε α} {Q : Except ε α → σ → Prop}
    (h : Triple P p (fun a => Q (.ok a)) (fun s => ∀ e, Q (.error e) s)) :
    Triple P (attempt p : Prog σ ε' (Except ε α)) Q E := by
  intro s hs
  have h' := h s hs
  change Q (p s).1 (p s).2
  revert h'
  rcases p s with ⟨e | a, s'⟩
  · exact fun h => h e
  · exact id

theorem Triple.mapError {p : Prog σ ε α} {f : ε → ε'} (h : Triple P p Q E) :
    Triple P (mapError f p) Q E := by
  intro s hs
  have h' := h s hs
  unfold Prog.mapError
  revert h'
  rcases p s with ⟨e | a, s'⟩
  · exact id
  · exact id

end Embedded.Prog
