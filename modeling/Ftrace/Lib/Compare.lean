/-
# Comparison functions

A comparison function returns a negative number, zero or a positive one, as `strcmp` does.  Only
the sign counts, and all that a sort needs of it is that it is a total preorder
(`Comparator`).  Two ways to get one: compare images under a function (`Comparator.comap`), and
compare lists by their first difference (`comparator_lex`).
-/
import Mathlib.Data.Int.Order.Basic
import Mathlib.Tactic.Common

namespace Compare

/-- `cmp` orders `α`, up to the elements it does not tell apart. -/
structure Comparator {α : Type} (cmp : α → α → ℤ) : Prop where
  total : ∀ x y, cmp x y ≤ 0 ∨ cmp y x ≤ 0
  trans : ∀ x y z, cmp x y ≤ 0 → cmp y z ≤ 0 → cmp x z ≤ 0

section

variable {α β : Type}

theorem Comparator.refl {cmp : α → α → ℤ} (h : Comparator cmp) (x : α) : cmp x x ≤ 0 :=
  (h.total x x).elim id id

/-- What is not greater the one way is not less the other. -/
theorem Comparator.le_of_pos {cmp : α → α → ℤ} (h : Comparator cmp) {x y : α} (hpos : 0 < cmp x y) :
    cmp y x ≤ 0 :=
  (h.total x y).resolve_left (not_le.mpr hpos)

/-- Comparing images. -/
theorem Comparator.comap {cmp : β → β → ℤ} (h : Comparator cmp) (f : α → β) :
    Comparator fun x y => cmp (f x) (f y) :=
  ⟨fun x y => h.total (f x) (f y), fun x y z => h.trans (f x) (f y) (f z)⟩

/-- The first difference of two lists of numbers decides; a proper beginning is less. -/
def lex : List ℕ → List ℕ → ℤ
  | [], [] => 0
  | [], _ :: _ => -1
  | _ :: _, [] => 1
  | a :: x, b :: y => if a = b then lex x y else (a : ℤ) - b

theorem lex_cons_le_iff (a b : ℕ) (x y : List ℕ) :
    lex (a :: x) (b :: y) ≤ 0 ↔ a < b ∨ a = b ∧ lex x y ≤ 0 := by
  rw [lex]
  split <;> omega

theorem comparator_lex : Comparator lex where
  total x y := by
    induction x generalizing y with
    | nil => cases y <;> simp [lex]
    | cons a x ih =>
      cases y with
      | nil => simp [lex]
      | cons b y =>
        rw [lex_cons_le_iff, lex_cons_le_iff]
        rcases Nat.lt_trichotomy a b with h | rfl | h
        · exact .inl (.inl h)
        · exact (ih y).imp (fun h => .inr ⟨rfl, h⟩) fun h => .inr ⟨rfl, h⟩
        · exact .inr (.inl h)
  trans x y z := by
    induction x generalizing y z with
    | nil =>
      intro _ _
      cases z <;> simp [lex]
    | cons a x ih =>
      intro hxy hyz
      cases y with
      | nil => simp [lex] at hxy
      | cons b y =>
        cases z with
        | nil => simp [lex] at hyz
        | cons c z =>
          rw [lex_cons_le_iff] at hxy hyz ⊢
          rcases hxy with hab | ⟨rfl, hxy⟩
          · rcases hyz with hbc | ⟨rfl, -⟩
            · exact .inl (Nat.lt_trans hab hbc)
            · exact .inl hab
          · rcases hyz with hbc | ⟨rfl, hyz⟩
            · exact .inl hbc
            · exact .inr ⟨rfl, ih y z hxy hyz⟩

end

end Compare
