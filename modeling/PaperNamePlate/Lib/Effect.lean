import Mathlib.Logic.Relation
import Mathlib.Tactic.Common

/-!
# Programs with state and errors

`Prog σ ε α` is a program on a state `σ` that returns a value or stops with an
error; the state keeps what was done before an error. `Keeps R p` says that `p`
relates the state before and after by `R`, whatever it returns. For a preorder `R`
the rules follow the structure of the program, so a frame fact about a long
program is the frame fact about its steps.
-/
namespace Embedded

def Prog (σ ε α : Type) : Type := σ → Except ε α × σ

namespace Prog

variable {σ τ ε ε' α β : Type}

def ok (a : α) : Prog σ ε α := fun s => (.ok a, s)

def throw (e : ε) : Prog σ ε α := fun s => (.error e, s)

def andThen (p : Prog σ ε α) (f : α → Prog σ ε β) : Prog σ ε β := fun s =>
  match p s with
  | (.ok a, s') => f a s'
  | (.error e, s') => (.error e, s')

instance : Monad (Prog σ ε) where
  pure := ok
  bind := andThen

theorem bind_eq (p : Prog σ ε α) (f : α → Prog σ ε β) (s : σ) : (p >>= f) s =
    match p s with
    | (.ok a, s') => f a s'
    | (.error e, s') => (.error e, s') := rfl

theorem bind_of_ok {p : Prog σ ε α} {s s' : σ} {a : α} (h : p s = (.ok a, s'))
    (f : α → Prog σ ε β) : (p >>= f) s = f a s' := by
  rw [bind_eq, h]

instance : LawfulMonad (Prog σ ε) := by
  refine LawfulMonad.mk' _ (fun p => ?_) (fun _ _ => rfl) (fun p f g => ?_)
  · funext s
    change (p >>= fun a => ok a) s = p s
    rw [bind_eq]
    rcases p s with ⟨_ | a, s'⟩ <;> rfl
  · funext s
    rw [bind_eq, bind_eq, bind_eq]
    rcases p s with ⟨_ | a, s'⟩ <;> rfl

def get : Prog σ ε σ := fun s => (.ok s, s)

def modify (f : σ → σ) : Prog σ ε Unit := fun s => (.ok (), f s)

/-- An `if` statement without an `else`. -/
def when (c : Prop) [Decidable c] (p : Prog σ ε Unit) : Prog σ ε Unit := if c then p else ok ()

/-- Run `p` on a part of the state. -/
def zoom (part : τ → σ) (put : σ → τ → τ) (p : Prog σ ε α) : Prog τ ε α := fun t =>
  let r := p (part t)
  (r.1, put r.2 t)

def mapError (f : ε → ε') (p : Prog σ ε α) : Prog σ ε' α := fun s =>
  match p s with
  | (.ok a, s') => (.ok a, s')
  | (.error e, s') => (.error (f e), s')

/-- The outcome as a value: an error does not stop the caller. -/
def attempt (p : Prog σ ε α) : Prog σ ε' (Except ε α) := fun s =>
  let r := p s
  (.ok r.1, r.2)

/-- Run a program for every element of a list. -/
def forEach (xs : List β) (f : β → Prog σ ε Unit) : Prog σ ε Unit :=
  xs.foldr (fun x rest => andThen (f x) fun _ => rest) (ok ())

/-! ## Frames -/

/-- `p` relates the state before and after by `R`. -/
def Keeps (R : σ → σ → Prop) (p : Prog σ ε α) : Prop := ∀ s, R s (p s).2

variable {R : σ → σ → Prop}

theorem Keeps.modify {f : σ → σ} (h : ∀ s, R s (f s)) : Keeps R (modify f : Prog σ ε Unit) := h

theorem Keeps.zoom {part : τ → σ} {put : σ → τ → τ} {S : τ → τ → Prop} {p : Prog σ ε α}
    (hp : Keeps R p) (h : ∀ t s, R (part t) s → S t (put s t)) : Keeps S (zoom part put p) :=
  fun t => h t _ (hp (part t))

theorem Keeps.mapError {p : Prog σ ε α} {f : ε → ε'} (hp : Keeps R p) :
    Keeps R (mapError f p) := by
  intro s
  have h := hp s
  unfold Prog.mapError
  split <;> (next heq => rw [heq] at h; exact h)

theorem Keeps.ite {c : Prop} [Decidable c] {p q : Prog σ ε α} (hp : Keeps R p) (hq : Keeps R q) :
    Keeps R (if c then p else q) := by
  split
  · exact hp
  · exact hq

variable [IsPreorder σ R]

theorem Keeps.pure (a : α) : Keeps R (Pure.pure a : Prog σ ε α) := fun s => Std.Refl.refl s

theorem Keeps.throw (e : ε) : Keeps R (throw e : Prog σ ε α) := fun s => Std.Refl.refl s

theorem Keeps.get : Keeps R (get : Prog σ ε σ) := fun s => Std.Refl.refl s

theorem Keeps.bind {p : Prog σ ε α} {f : α → Prog σ ε β} (hp : Keeps R p)
    (hf : ∀ a, Keeps R (f a)) : Keeps R (p >>= f) := by
  intro s
  have h := hp s
  change R s (andThen p f s).2
  unfold andThen
  split
  · next a s' heq =>
    rw [heq] at h
    exact IsTrans.trans s s' _ h (hf a s')
  · next e s' heq =>
    rw [heq] at h
    exact h

theorem Keeps.when {c : Prop} [Decidable c] {p : Prog σ ε Unit} (hp : Keeps R p) :
    Keeps R (when c p) :=
  Keeps.ite hp (Keeps.pure ())

end Prog

end Embedded
