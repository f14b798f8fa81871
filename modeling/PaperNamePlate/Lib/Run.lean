import Mathlib.Data.List.Basic
import Mathlib.Tactic.Common

/-!
# Runs of a machine over a list of inputs

A machine is a function `step` from a state and an input to the next state, and a
run folds it over its inputs. `Always P` says that every state of a run satisfies
`P`, `EachStep C` that every step of it satisfies `C`; the rules below turn facts
about one step into facts about runs. `collect` gathers what the steps put out,
for conservation laws: what has been accepted is what has been handed over and
what is still pending.
-/
namespace Embedded

variable {σ ι τ : Type*} (step : σ → ι → σ)

def run (s : σ) (is : List ι) : σ := is.foldl step s

/-- `P` holds in every state of the run. -/
def Always (P : σ → Prop) : σ → List ι → Prop
  | s, [] => P s
  | s, i :: is => P s ∧ Always P (step s i) is

/-- `C` holds of every step of the run, with the state before it. -/
def EachStep (C : σ → ι → Prop) : σ → List ι → Prop
  | _, [] => True
  | s, i :: is => C s i ∧ EachStep C (step s i) is

/-- What the steps of a run put out, in order. -/
def collect (out : σ → ι → List τ) : σ → List ι → List τ
  | _, [] => []
  | s, i :: is => out s i ++ collect out (step s i) is

variable {step}

@[simp] theorem run_nil (s : σ) : run step s [] = s := rfl
@[simp] theorem run_cons (s : σ) (i : ι) (is : List ι) :
    run step s (i :: is) = run step (step s i) is := rfl

theorem run_append (s : σ) (is js : List ι) :
    run step s (is ++ js) = run step (run step s is) js := List.foldl_append

/-- A simulation: where `f` turns steps into steps, it turns runs into runs. -/
theorem run_map {σ' : Type*} {step' : σ' → ι → σ'} {f : σ → σ'}
    (hstep : ∀ s i, f (step s i) = step' (f s) i) (s : σ) (is : List ι) :
    f (run step s is) = run step' (f s) is := by
  induction is generalizing s with
  | nil => rfl
  | cons i is ih => rw [run_cons, run_cons, ih, hstep]

/-- What every step keeps between two machines, their runs keep. -/
theorem run_related {σ' ι' : Type*} {step' : σ' → ι' → σ'} {R : σ → σ' → Prop} {k : ι → ι'}
    (hstep : ∀ s t i, R s t → R (step s i) (step' t (k i))) {s : σ} {t : σ'} (h : R s t)
    (is : List ι) :
    R (run step s is) (run step' t (is.map k)) := by
  induction is generalizing s t with
  | nil => exact h
  | cons i is ih => exact ih (hstep s t i h)

/-! ## Invariants -/

theorem Always.last {P : σ → Prop} {s : σ} {is : List ι} (h : Always step P s is) :
    P (run step s is) := by
  induction is generalizing s with
  | nil => exact h
  | cons i is ih => exact ih h.2

/-- Every state of a run is the last state of a shorter run. -/
theorem always_iff_prefix {P : σ → Prop} {s : σ} {is : List ι} :
    Always step P s is ↔ ∀ js, js <+: is → P (run step s js) := by
  induction is generalizing s with
  | nil => simp [Always]
  | cons i is ih =>
    constructor
    · rintro ⟨hs, hrest⟩ js hjs
      cases js with
      | nil => exact hs
      | cons j js =>
        obtain ⟨rfl, hjs'⟩ := List.cons_prefix_cons.mp hjs
        exact ih.mp hrest js hjs'
    · intro h
      exact ⟨h [] (List.nil_prefix), ih.mpr fun js hjs =>
        h (i :: js) (List.cons_prefix_cons.mpr ⟨rfl, hjs⟩)⟩

theorem Always.mono {P Q : σ → Prop} (hpq : ∀ s, P s → Q s) {s : σ} {is : List ι}
    (h : Always step P s is) : Always step Q s is := by
  induction is generalizing s with
  | nil => exact hpq _ h
  | cons i is ih => exact ⟨hpq _ h.1, ih h.2⟩

theorem EachStep.mono {C D : σ → ι → Prop} (hcd : ∀ s i, C s i → D s i) {s : σ} {is : List ι}
    (h : EachStep step C s is) : EachStep step D s is := by
  induction is generalizing s with
  | nil => trivial
  | cons i is ih => exact ⟨hcd _ _ h.1, ih h.2⟩

theorem EachStep.and {C D : σ → ι → Prop} {s : σ} {is : List ι} (hc : EachStep step C s is)
    (hd : EachStep step D s is) : EachStep step (fun s i => C s i ∧ D s i) s is := by
  induction is generalizing s with
  | nil => trivial
  | cons i is ih => exact ⟨⟨hc.1, hd.1⟩, ih hc.2 hd.2⟩

/-- The invariant rule: what holds at the start and is kept by every step that meets `C` holds in
every state of a run whose steps all meet `C`. -/
theorem always_of_step {P : σ → Prop} {C : σ → ι → Prop}
    (hstep : ∀ s i, P s → C s i → P (step s i)) {s : σ} {is : List ι} (hs : P s)
    (hc : EachStep step C s is) : Always step P s is := by
  induction is generalizing s with
  | nil => exact hs
  | cons i is ih => exact ⟨hs, ih (hstep _ _ hs hc.1) hc.2⟩

theorem always_of_invariant {P : σ → Prop} (hstep : ∀ s i, P s → P (step s i)) {s : σ} (hs : P s)
    (is : List ι) : Always step P s is := by
  induction is generalizing s with
  | nil => exact hs
  | cons i is ih => exact ⟨hs, ih (hstep s i hs)⟩

/-- Where the steps that meet `C` keep `P`, and a step that does not shows in `Q` at once, `Q` holds
throughout a run exactly if all its steps meet `C`. -/
theorem always_iff_of_exposed {P Q : σ → Prop} {C : σ → ι → Prop} (hpq : ∀ s, P s → Q s)
    (hkeep : ∀ s i, P s → C s i → P (step s i))
    (hbreak : ∀ s i, P s → ¬ C s i → ¬ Q (step s i)) {s : σ} {is : List ι} (hs : P s) :
    Always step Q s is ↔ EachStep step C s is := by
  induction is generalizing s with
  | nil => exact iff_of_true (hpq s hs) trivial
  | cons i is ih =>
    constructor
    · rintro ⟨-, hrest⟩
      have hi : Q (step s i) := always_iff_prefix.mp hrest [] List.nil_prefix
      have hc : C s i := by_contra fun h => hbreak s i hs h hi
      exact ⟨hc, (ih (hkeep s i hs hc)).mp hrest⟩
    · rintro ⟨hc, hrest⟩
      exact ⟨hpq s hs, (ih (hkeep s i hs hc)).mpr hrest⟩

/-- Where a step keeps `P` exactly if it meets `C`, so does a run. -/
theorem always_iff_of_step {P : σ → Prop} {C : σ → ι → Prop}
    (hstep : ∀ s i, P s → (P (step s i) ↔ C s i)) {s : σ} {is : List ι} (hs : P s) :
    Always step P s is ↔ EachStep step C s is :=
  always_iff_of_exposed (fun _ h => h) (fun s i h hc => (hstep s i h).mpr hc)
    (fun s i h hc h' => hc ((hstep s i h).mp h')) hs

/-- Where `P` can end only in a step that meets `E`, a run keeps `P` until such a step. -/
theorem always_or_exit {P : σ → Prop} {E : σ → ι → Prop} {s : σ} {is : List ι} (hs : P s)
    (h : EachStep step (fun s i => P s → ¬ P (step s i) → E s i) s is) :
    Always step P s is ∨
      ∃ js i, js ++ [i] <+: is ∧ Always step P s js ∧ E (run step s js) i := by
  induction is generalizing s with
  | nil => exact .inl hs
  | cons i is ih =>
    by_cases hi : P (step s i)
    · rcases ih hi h.2 with hall | ⟨js, j, hpre, hkept, hexit⟩
      · exact .inl ⟨hs, hall⟩
      · exact .inr ⟨i :: js, j, List.cons_prefix_cons.mpr ⟨rfl, hpre⟩, ⟨hs, hkept⟩, hexit⟩
    · exact .inr ⟨[], i, by simp, hs, h.1 hs hi⟩

/-- An invariant may be used at every step. -/
theorem Always.eachStep {P : σ → Prop} {s : σ} {is : List ι} (h : Always step P s is) :
    EachStep step (fun s _ => P s) s is := by
  induction is generalizing s with
  | nil => trivial
  | cons i is ih => exact ⟨h.1, ih h.2⟩

theorem eachStep_iff_forall {C : ι → Prop} {s : σ} {is : List ι} :
    EachStep step (fun _ i => C i) s is ↔ ∀ i ∈ is, C i := by
  induction is generalizing s with
  | nil => simp [EachStep]
  | cons i is ih => simp [EachStep, ih]

/-- Where a step either sets a component or leaves it alone, the last input that sets it wins. -/
theorem run_last_write {β : Type*} {f : σ → β} {g : ι → Option β}
    (hstep : ∀ s i, f (step s i) = (g i).getD (f s)) (s : σ) (is : List ι) :
    f (run step s is) = ((is.filterMap g).getLast?).getD (f s) := by
  induction is generalizing s with
  | nil => rfl
  | cons i is ih =>
    rw [run_cons, ih, hstep]
    cases hg : g i with
    | none => simp [hg]
    | some b =>
      rw [List.filterMap_cons_some hg, List.getLast?_cons]
      cases (is.filterMap g).getLast? <;> rfl

theorem run_last_some {β : Type*} {f : σ → Option β} {g : ι → Option β}
    (hstep : ∀ s i, f (step s i) = (g i).or (f s)) (s : σ) (is : List ι) :
    f (run step s is) = ((is.filterMap g).getLast?).or (f s) := by
  have hwrite : ∀ s i, f (step s i) = ((g i).map some).getD (f s) := by
    intro s i
    rw [hstep]
    cases g i <;> rfl
  rw [run_last_write hwrite, ← List.map_filterMap, List.getLast?_map]
  cases (is.filterMap g).getLast? <;> rfl

/-! ## Conservation -/

/-- The ledger rule: if every step hands over or keeps pending what was pending or is accepted, so
does every run. -/
theorem ledger {pending : σ → List τ} {accepted handed : σ → ι → List τ} {C : σ → ι → Prop}
    (hstep : ∀ s i, C s i →
      (pending s ++ accepted s i).Perm (handed s i ++ pending (step s i)))
    {s : σ} {is : List ι} (hc : EachStep step C s is) :
    (pending s ++ collect step accepted s is).Perm
      (collect step handed s is ++ pending (run step s is)) := by
  induction is generalizing s with
  | nil => simp [collect]
  | cons i is ih =>
    have h1 := hstep s i hc.1
    have h2 := ih hc.2
    have hall : (pending s ++ accepted s i ++ collect step accepted (step s i) is).Perm
        (handed s i ++ (pending (step s i) ++ collect step accepted (step s i) is)) := by
      simpa only [List.append_assoc] using h1.append_right _
    simpa only [collect, run_cons, List.append_assoc] using hall.trans (h2.append_left _)

theorem collect_eq_nil_iff {out : σ → ι → List τ} {s : σ} {is : List ι} :
    collect step out s is = [] ↔ EachStep step (fun s i => out s i = []) s is := by
  induction is generalizing s with
  | nil => simp [collect, EachStep]
  | cons i is ih => simp [collect, EachStep, ih]

theorem length_collect_append (f g : σ → ι → List τ) (s : σ) (is : List ι) :
    (collect step (fun s i => f s i ++ g s i) s is).length =
      (collect step f s is).length + (collect step g s is).length := by
  induction is generalizing s with
  | nil => rfl
  | cons i is ih =>
    simp only [collect, List.length_append, ih]
    omega

/-- The books balance exactly if no step loses anything. -/
theorem ledger_iff {pending : σ → List τ} {accepted handed lost : σ → ι → List τ}
    {C : σ → ι → Prop}
    (hstep : ∀ s i, C s i →
      (pending s ++ accepted s i).Perm (handed s i ++ lost s i ++ pending (step s i)))
    {s : σ} {is : List ι} (hc : EachStep step C s is) :
    (pending s ++ collect step accepted s is).Perm
        (collect step handed s is ++ pending (run step s is)) ↔
      EachStep step (fun s i => lost s i = []) s is := by
  constructor
  · intro hperm
    have hall := (ledger hstep hc).length_eq
    have hlen := hperm.length_eq
    rw [List.length_append, List.length_append, length_collect_append] at hall
    rw [List.length_append, List.length_append] at hlen
    rw [← collect_eq_nil_iff, ← List.length_eq_zero_iff]
    omega
  · intro hnone
    refine ledger (C := fun s i => C s i ∧ lost s i = []) (fun s i h => ?_) (hc.and hnone)
    have h' := hstep s i h.1
    rwa [h.2, List.append_nil] at h'

end Embedded
