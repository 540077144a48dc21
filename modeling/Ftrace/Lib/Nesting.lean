/-
# What is open in a nested sequence

In a sequence of marks some open something, and some close what was opened last.  A machine with
a stack finds out what is open at the end (`run`); without one, a mark is open if what comes after
it is balanced.  The two agree for every sequence (`run_eq_iff`), also where more is closed than
was ever opened, and at the top of the stack is what is open innermost (`run_head?_eq_some`).
-/
import Mathlib.Data.List.Induction

namespace Nesting

variable {α : Type}

/-! ## 1. The stack -/

/-- What a place in the sequence does. -/
inductive Mark (α : Type) where
  | opens (a : α)
  | closes
  | leaf
  deriving DecidableEq

/-- The stack after one mark.  Nothing is closed where nothing is open. -/
def step (stack : List α) : Mark α → List α
  | .opens a => a :: stack
  | .closes => stack.tail
  | .leaf => stack

def run (stack : List α) (ms : List (Mark α)) : List α := ms.foldl step stack

theorem run_append (stack : List α) (ms ns : List (Mark α)) :
    run stack (ms ++ ns) = run (run stack ms) ns := List.foldl_append

@[simp] theorem run_cons (stack : List α) (m : Mark α) (ms : List (Mark α)) :
    run stack (m :: ms) = run (step stack m) ms := rfl

@[simp] theorem run_nil (stack : List α) : run stack [] = stack := rfl

/-! ## 2. Balanced sequences -/

/-- Everything that is opened is closed, and nothing else is. -/
inductive Balanced : List (Mark α) → Prop
  | nil : Balanced []
  | leaf {ms : List (Mark α)} : Balanced ms → Balanced (ms ++ [.leaf])
  | nest {ms inner : List (Mark α)} (a : α) :
      Balanced ms → Balanced inner → Balanced (ms ++ (.opens a :: inner ++ [.closes]))

theorem Balanced.append {ms ns : List (Mark α)} (hm : Balanced ms) (hn : Balanced ns) :
    Balanced (ms ++ ns) := by
  induction hn with
  | nil => rwa [List.append_nil]
  | leaf _ ih =>
    rw [← List.append_assoc]
    exact ih.leaf
  | nest a _ hin ih _ =>
    rw [← List.append_assoc]
    exact ih.nest a hin

/-- One block. -/
theorem Balanced.block {inner : List (Mark α)} (a : α) (h : Balanced inner) :
    Balanced (.opens a :: inner ++ [.closes]) := Balanced.nil.nest a h

/-- **A balanced sequence leaves the stack as it was.** -/
theorem Balanced.run_eq {ms : List (Mark α)} (h : Balanced ms) (stack : List α) :
    run stack ms = stack := by
  induction h generalizing stack with
  | nil => rfl
  | leaf _ ih =>
    rw [run_append, ih]
    rfl
  | nest a _ _ ih ihin =>
    rw [run_append, ih, List.cons_append, run_cons, run_append, ihin]
    rfl

/-! ## 3. What is open -/

/-- Nothing is open: the sequence is balanced, but for marks that close nothing. -/
inductive NothingOpen : List (Mark α) → Prop
  | nil : NothingOpen []
  | spare {ms : List (Mark α)} : NothingOpen ms → NothingOpen (ms ++ [.closes])
  | block {ms inner : List (Mark α)} : NothingOpen ms → Balanced inner → NothingOpen (ms ++ inner)

/-- `Open ms as`: the things `as` are open after `ms`, the innermost first. -/
inductive Open : List (Mark α) → List α → Prop
  | nothing {ms : List (Mark α)} : NothingOpen ms → Open ms []
  | inside {ms inner : List (Mark α)} {as : List α} (a : α) :
      Open ms as → Balanced inner → Open (ms ++ .opens a :: inner) (a :: as)

/-- What is opened innermost: all that follows it is balanced. -/
def Innermost (a : α) (ms : List (Mark α)) : Prop :=
  ∃ before inner, ms = before ++ .opens a :: inner ∧ Balanced inner

theorem NothingOpen.run_eq {ms : List (Mark α)} (h : NothingOpen ms) : run [] ms = [] := by
  induction h with
  | nil => rfl
  | spare _ ih =>
    rw [run_append, ih]
    rfl
  | block _ hin ih => rw [run_append, ih, hin.run_eq]

theorem Open.run_eq {ms : List (Mark α)} {as : List α} (h : Open ms as) : run [] ms = as := by
  induction h with
  | nothing h => exact h.run_eq
  | inside a _ hin ih => rw [run_append, ih, run_cons, hin.run_eq, step]

theorem Open.balanced {ms inner : List (Mark α)} {as : List α} (h : Open ms as)
    (hin : Balanced inner) : Open (ms ++ inner) as := by
  cases h with
  | nothing h => exact .nothing (h.block hin)
  | inside a h hin' =>
    rw [List.append_assoc, List.cons_append]
    exact h.inside a (hin'.append hin)

/-- Closing what is open innermost makes a block of it. -/
theorem Open.closes {ms : List (Mark α)} {as : List α} (h : Open ms as) :
    Open (ms ++ [.closes]) as.tail := by
  cases h with
  | nothing h => exact .nothing h.spare
  | inside a h hin =>
    rw [List.append_assoc]
    exact h.balanced (hin.block a)

theorem open_run (ms : List (Mark α)) : Open ms (run [] ms) := by
  induction ms using List.reverseRecOn with
  | nil => exact .nothing .nil
  | append_singleton ms m ih =>
    rw [run_append]
    cases m with
    | opens a => exact ih.inside a .nil
    | closes => exact ih.closes
    | leaf => exact ih.balanced (Balanced.nil.leaf)

/-- **The stack is what is open**, the innermost on top. -/
theorem run_eq_iff {ms : List (Mark α)} {as : List α} : run [] ms = as ↔ Open ms as :=
  ⟨fun h => h ▸ open_run ms, Open.run_eq⟩

/-- **On top is what is open innermost.** -/
theorem run_head?_eq_some {ms : List (Mark α)} {a : α} :
    (run [] ms).head? = some a ↔ Innermost a ms := by
  constructor
  · intro h
    obtain ⟨as, has⟩ := List.head?_eq_some_iff.mp h
    cases run_eq_iff.mp has with
    | inside a _ hin => exact ⟨_, _, rfl, hin⟩
  · rintro ⟨before, inner, rfl, hin⟩
    rw [run_append, run_cons, hin.run_eq]
    rfl

/-- **The stack is empty where nothing is open.** -/
theorem run_eq_nil_iff {ms : List (Mark α)} : run [] ms = [] ↔ NothingOpen ms := by
  refine ⟨fun h => ?_, NothingOpen.run_eq⟩
  cases run_eq_iff.mp h with
  | nothing h => exact h

end Nesting
