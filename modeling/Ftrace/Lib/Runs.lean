/-
# Runs of a transition system

A system is a relation `step s l t`: in the state `s` it can go to `t`, which is seen as `l`.
Several parties that take turns in any order are one such system, whose steps are those of all
of them; a run is then one of their interleavings.

Three rules are what the proofs about a run need: what holds of the labels so far and of the
state is proved by looking at one step (`Run.invariant`); a measure that every step brings down
bounds a run (`Run.length_le`); and where some step is always possible short of a goal, the goal
can be reached (`exists_run`).
-/
import Mathlib.Data.List.Basic
import Mathlib.Data.Nat.Init

namespace Runs

variable {σ ℓ : Type} {step : σ → ℓ → σ → Prop}

/-- A run that starts in `s`: its labels in order, and the state it comes to. -/
inductive Run (step : σ → ℓ → σ → Prop) (s : σ) : List ℓ → σ → Prop
  | nil : Run step s [] s
  | snoc {ls : List ℓ} {t u : σ} {l : ℓ} : Run step s ls t → step t l u → Run step s (ls ++ [l]) u

namespace Run

/-- **An invariant of the labels and the state**: it holds at first, and one step keeps it. -/
theorem invariant {I : List ℓ → σ → Prop} {s t : σ} {ls : List ℓ} (hrun : Run step s ls t)
    (hinit : I [] s) (hstep : ∀ ls t l u, I ls t → step t l u → I (ls ++ [l]) u) : I ls t := by
  induction hrun with
  | nil => exact hinit
  | snoc _ hl ih => exact hstep _ _ _ _ ih hl

theorem cons {s t u : σ} {l : ℓ} {ls : List ℓ} (hl : step s l t) (hrun : Run step t ls u) :
    Run step s (l :: ls) u := by
  induction hrun with
  | nil => exact snoc nil hl
  | snoc _ hl' ih => exact snoc ih hl'

/-- A run, and a run from where it ends. -/
theorem append {s t u : σ} {ls ms : List ℓ} (hrun : Run step s ls t) (hrun' : Run step t ms u) :
    Run step s (ls ++ ms) u := by
  induction hrun' with
  | nil => rwa [List.append_nil]
  | snoc _ hl ih =>
    rw [← List.append_assoc]
    exact snoc ih hl

/-- What each step keeps is kept by a run. -/
theorem keeps {I : σ → Prop} (hstep : ∀ s l t, I s → step s l t → I t) {s t : σ} {ls : List ℓ}
    (hrun : Run step s ls t) (hs : I s) : I t :=
  hrun.invariant hs fun _ t l u ht hl => hstep t l u ht hl

/-- **A run is no longer than the measure it starts with**, if each step brings it down. -/
theorem length_le {I : σ → Prop} {μ : σ → ℕ} (hstep : ∀ s l t, I s → step s l t → I t)
    (hdown : ∀ s l t, I s → step s l t → μ t < μ s) {s t : σ} {ls : List ℓ}
    (hrun : Run step s ls t) (hs : I s) : ls.length + μ t ≤ μ s := by
  induction hrun with
  | nil => exact Nat.le_of_eq (Nat.zero_add _)
  | snoc hrun hl ih =>
    have hlt := hdown _ _ _ (hrun.keeps hstep hs) hl
    rw [List.length_append, List.length_singleton]
    omega

end Run

/-- **A goal that can be reached**: short of it some step is possible, and brings the measure
down. -/
theorem exists_run {I goal : σ → Prop} {μ : σ → ℕ}
    (hmove : ∀ s, I s → ¬ goal s → ∃ l t, step s l t ∧ I t ∧ μ t < μ s) {s : σ} (hs : I s) :
    ∃ ls t, Run step s ls t ∧ goal t := by
  induction hn : μ s using Nat.strongRecOn generalizing s with
  | _ n ih =>
    by_cases hgoal : goal s
    · exact ⟨[], s, .nil, hgoal⟩
    · obtain ⟨l, t, hl, ht, hlt⟩ := hmove s hs hgoal
      obtain ⟨ls, u, hrun, hu⟩ := ih (μ t) (hn ▸ hlt) ht rfl
      exact ⟨l :: ls, u, .cons hl hrun, hu⟩

end Runs
