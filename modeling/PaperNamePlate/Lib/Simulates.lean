import PaperNamePlate.Lib.Effect

/-!
# A program that does what another one does

`Simulates R Q p q`: from states that `R` relates, `p` returns where `q` does, with results that `Q`
relates, and leaves states that `R` relates. Nothing is said where `q` stops with an error. The
rules follow the structure of the programs.
-/
namespace Embedded.Prog

variable {σ τ ε ε' φ φ' α β γ δ : Type}

/-- Where `q` returns, so does `p`. -/
def Simulates (R : σ → τ → Prop) (Q : α → β → Prop) (p : Prog σ ε α) (q : Prog τ ε' β) : Prop :=
  ∀ s t, R s t → ∀ b t', q t = (.ok b, t') → ∃ a s', p s = (.ok a, s') ∧ Q a b ∧ R s' t'

variable {R : σ → τ → Prop} {Q : α → β → Prop} {S : γ → δ → Prop}

theorem bind_eq_ok {p : Prog σ ε α} {f : α → Prog σ ε γ} {s s' : σ} {c : γ}
    (h : (p >>= f) s = (.ok c, s')) : ∃ a s₁, p s = (.ok a, s₁) ∧ f a s₁ = (.ok c, s') := by
  rw [bind_eq] at h
  rcases hp : p s with ⟨e | a, s₁⟩
  · rw [hp] at h
    cases h
  · rw [hp] at h
    exact ⟨a, s₁, rfl, h⟩

theorem Simulates.pure {a : α} {b : β} (h : Q a b) :
    Simulates R Q (Pure.pure a : Prog σ ε α) (Pure.pure b : Prog τ ε' β) := by
  intro s t hst b' t' hrun
  obtain ⟨rfl, rfl⟩ : b = b' ∧ t = t' := by
    cases hrun
    exact ⟨rfl, rfl⟩
  exact ⟨a, s, rfl, h, hst⟩

theorem Simulates.throw (p : Prog σ ε α) (e : ε') : Simulates R Q p (throw e : Prog τ ε' β) := by
  intro s t hst b t' hrun
  cases hrun

theorem Simulates.bind {p : Prog σ ε α} {q : Prog τ ε' β} {f : α → Prog σ ε γ} {g : β → Prog τ ε' δ}
    (h : Simulates R Q p q) (hf : ∀ a b, Q a b → Simulates R S (f a) (g b)) :
    Simulates R S (p >>= f) (q >>= g) := by
  intro s t hst d t'' hrun
  obtain ⟨b, t', hq, hg⟩ := bind_eq_ok hrun
  obtain ⟨a, s', hp, hab, hst'⟩ := h s t hst b t' hq
  rw [bind_of_ok hp]
  exact hf a b hab s' t' hst' d t'' hg

theorem Simulates.ite {c d : Prop} [Decidable c] [Decidable d] (hcd : c ↔ d) {p p' : Prog σ ε α}
    {q q' : Prog τ ε' β} (h : Simulates R Q p q) (h' : Simulates R Q p' q') :
    Simulates R Q (if c then p else p') (if d then q else q') := by
  by_cases hc : c
  · rwa [if_pos hc, if_pos (hcd.mp hc)]
  · rwa [if_neg hc, if_neg (mt hcd.mpr hc)]

theorem Simulates.mapError {p : Prog σ ε α} {q : Prog τ ε' β} (h : Simulates R Q p q) (f : ε → φ)
    (g : ε' → φ') : Simulates R Q (Prog.mapError f p) (Prog.mapError g q) := by
  intro s t hst b t' hrun
  unfold Prog.mapError at hrun ⊢
  rcases hq : q t with ⟨e | b', t₁⟩
  · rw [hq] at hrun
    cases hrun
  · rw [hq] at hrun
    obtain ⟨a, s', hp, hab, hst'⟩ := h s t hst b' t₁ hq
    cases hrun
    exact ⟨a, s', by rw [hp], hab, hst'⟩

theorem Simulates.modify {f : σ → σ} {g : τ → τ} (h : ∀ s t, R s t → R (f s) (g t)) :
    Simulates R Eq (modify f : Prog σ ε Unit) (modify g : Prog τ ε' Unit) := by
  intro s t hst b t' hrun
  cases hrun
  exact ⟨(), f s, rfl, rfl, h s t hst⟩

theorem Simulates.trans {υ ζ : Type} {T : τ → υ → Prop} {p : Prog σ ε α} {q : Prog τ ε' α}
    {r : Prog υ ζ α} (h : Simulates R Eq p q) (h' : Simulates T Eq q r) :
    Simulates (fun s u => ∃ t, R s t ∧ T t u) Eq p r := by
  rintro s u ⟨t, hst, htu⟩ c u' hrun
  obtain ⟨b, t', hq, rfl, htu'⟩ := h' t u htu c u' hrun
  obtain ⟨a, s', hp, rfl, hst'⟩ := h s t hst b t' hq
  exact ⟨a, s', hp, rfl, t', hst', htu'⟩

end Embedded.Prog
