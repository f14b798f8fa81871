import PaperNamePlate.Lib.Effect

/-!
# Readers of a stream

A reader hands out the next part of a stream, of a length that the caller asks for at
most. `Serves rest read` says that each read takes what it returns from the front of what
remains. However the reads are cut, nothing is then lost, repeated or reordered;
`Drains` says in addition that reading goes on until nothing remains.
-/
namespace Embedded

variable {σ ε α : Type} {rest : σ → List α → Prop} {read : Nat → Prog σ ε (List α)} {μ : σ → Nat}

/-- Every read succeeds and takes its result from the front of what remains. -/
def Serves (rest : σ → List α → Prop) (read : Nat → Prog σ ε (List α)) : Prop :=
  ∀ n s xs, rest s xs → ∃ out xs' s', read n s = (.ok out, s') ∧ xs = out ++ xs' ∧ rest s' xs'

theorem mapM_cons_ok {n : Nat} {ns : List Nat} {s s' s'' : σ} {out : List α} {outs : List (List α)}
    (h : read n s = (.ok out, s')) (hs : ns.mapM read s' = (.ok outs, s'')) :
    (n :: ns).mapM read s = (.ok (out :: outs), s'') := by
  rw [List.mapM_cons, Prog.bind_eq, h]
  dsimp only
  rw [Prog.bind_eq, hs]
  rfl

theorem Serves.mapM (h : Serves rest read) (ns : List Nat) {s : σ} {xs : List α} (hs : rest s xs) :
    ∃ outs xs' s', ns.mapM read s = (.ok outs, s') ∧ xs = outs.flatten ++ xs' ∧ rest s' xs' := by
  induction ns generalizing s xs with
  | nil => exact ⟨[], xs, s, rfl, rfl, hs⟩
  | cons n ns ih =>
    obtain ⟨out, xs₁, s₁, hread, rfl, h₁⟩ := h n s xs hs
    obtain ⟨outs, xs₂, s₂, hreads, rfl, h₂⟩ := ih h₁
    exact ⟨out :: outs, xs₂, s₂, mapM_cons_ok hread hreads, by simp, h₂⟩

/-- As long as something remains, every read that asks for something lowers the measure. -/
structure Drains (μ : σ → Nat) (rest : σ → List α → Prop) (read : Nat → Prog σ ε (List α)) :
    Prop where
  le : ∀ {n s s' out}, read n s = (.ok out, s') → μ s' ≤ μ s
  lt : ∀ {n s xs s' out}, rest s xs → xs ≠ [] → 0 < n → read n s = (.ok out, s') → μ s' < μ s

/-- Enough reads serve the whole stream. -/
theorem Drains.mapM (hd : Drains μ rest read) (h : Serves rest read) {ns : List Nat} {s : σ}
    {xs : List α} (hs : rest s xs) (hn : μ s < (ns.filter (0 < ·)).length) :
    ∃ outs s', ns.mapM read s = (.ok outs, s') ∧ outs.flatten = xs := by
  induction ns generalizing s xs with
  | nil => simp at hn
  | cons n ns ih =>
    obtain ⟨out, xs₁, s₁, hread, rfl, h₁⟩ := h n s xs hs
    by_cases hempty : out ++ xs₁ = []
    · -- nothing remained, and the other reads return nothing
      obtain ⟨rfl, rfl⟩ := List.append_eq_nil_iff.mp hempty
      obtain ⟨outs, xs₂, s₂, hreads, hnil, -⟩ := h.mapM ns h₁
      refine ⟨[] :: outs, s₂, mapM_cons_ok hread hreads, ?_⟩
      simpa using (List.append_eq_nil_iff.mp hnil.symm).1
    · have hlow : μ s₁ < (ns.filter (0 < ·)).length := by
        have hle := hd.le hread
        by_cases hpos : 0 < n
        · have hlt := hd.lt hs hempty hpos hread
          simp [hpos] at hn
          omega
        · simp only [List.filter_cons, hpos, decide_false] at hn
          exact Nat.lt_of_le_of_lt hle hn
      obtain ⟨outs, s₂, hreads, rfl⟩ := ih h₁ hlow
      exact ⟨out :: outs, s₂, mapM_cons_ok hread hreads, rfl⟩

end Embedded
