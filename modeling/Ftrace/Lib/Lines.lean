/-
# The lines of a text

The text between newlines, empty lines included, and a last piece without a newline if there
is one.  A reader that takes a text in pieces is compared with `linesOf` of the whole: what it
needs is that a line and its newline can be taken off the front (`linesOf_line`), and that the
newline a reader may add at the end of the text adds no line (`linesOf_concat_newline`).
-/
import Mathlib.Data.List.TakeWhile

namespace Lines

/-- The lines of a text. -/
def linesOf : List Char → List (List Char)
  | [] => []
  | c :: t =>
    if c = '\n' then [] :: linesOf t
    else match linesOf t with
      | [] => [[c]]
      | l :: ls => (c :: l) :: ls

theorem linesOf_cons (c : Char) (t : List Char) :
    linesOf (c :: t) = if c = '\n' then [] :: linesOf t
      else match linesOf t with
        | [] => [[c]]
        | l :: ls => (c :: l) :: ls := rfl

theorem linesOf_newline (t : List Char) : linesOf ('\n' :: t) = [] :: linesOf t := if_pos rfl

/-- **A line and its newline, taken off the front.** -/
theorem linesOf_line {l : List Char} (hl : '\n' ∉ l) (t : List Char) :
    linesOf (l ++ '\n' :: t) = l :: linesOf t := by
  induction l with
  | nil => exact linesOf_newline t
  | cons c l ih =>
    have hc : c ≠ '\n' := fun h => hl (h ▸ List.mem_cons_self)
    rw [List.cons_append, linesOf, if_neg hc, ih fun h => hl (List.mem_cons_of_mem _ h)]

/-- A text that is not empty has a line. -/
theorem linesOf_ne_nil {t : List Char} (h : t ≠ []) : linesOf t ≠ [] := by
  cases t with
  | nil => exact absurd rfl h
  | cons c t =>
    rw [linesOf]
    split
    · exact List.cons_ne_nil _ _
    · split <;> exact List.cons_ne_nil _ _

/-- A newline after a text that does not end in one adds no line. -/
theorem linesOf_concat_newline {t : List Char} (h : t ≠ []) (hlast : t.getLast? ≠ some '\n') :
    linesOf (t ++ ['\n']) = linesOf t := by
  induction t with
  | nil => exact absurd rfl h
  | cons c t ih =>
    cases t with
    | nil =>
      have hc : c ≠ '\n' := by
        intro hc
        exact hlast (congrArg some hc)
      simp [linesOf, hc]
    | cons d t =>
      have hrest : linesOf (d :: t ++ ['\n']) = linesOf (d :: t) :=
        ih (List.cons_ne_nil _ _) (by simpa using hlast)
      rw [List.cons_append, linesOf_cons, hrest, linesOf_cons c]

/-- Each line takes at least one character. -/
theorem length_linesOf_le (t : List Char) : (linesOf t).length ≤ t.length := by
  induction t with
  | nil => exact Nat.le_refl _
  | cons c t ih =>
    rw [linesOf]
    split
    · simp only [List.length_cons]
      omega
    · split
      · simp
      · rename_i l ls hl
        rw [hl] at ih
        simp only [List.length_cons] at ih ⊢
        omega

/-- A text in front of another has as many lines as it has newlines: its last piece belongs to
the first line of what follows. -/
theorem length_linesOf_append (s : List Char) {t : List Char} (h : t ≠ []) :
    (linesOf (s ++ t)).length = s.count '\n' + (linesOf t).length := by
  induction s with
  | nil => simp
  | cons c s ih =>
    rw [List.cons_append, linesOf_cons, List.count_cons]
    split
    · rename_i hc
      simp only [hc, List.length_cons, ih, beq_self_eq_true, if_true]
      omega
    · rename_i hc
      have hb : (c == '\n') = false := beq_eq_false_iff_ne.mpr hc
      simp only [hb, Bool.false_eq_true, if_false, Nat.add_zero]
      cases hl : linesOf (s ++ t) with
      | nil => exact absurd hl (linesOf_ne_nil fun hnil => h (List.append_eq_nil_iff.mp hnil).2)
      | cons l ls =>
        rw [hl] at ih
        exact ih

/-- A text with a newline, cut at the first one. -/
theorem split_at_newline {t : List Char} (h : '\n' ∈ t) :
    t = t.takeWhile (fun c => c != '\n') ++ '\n' :: (t.dropWhile fun c => c != '\n').tail ∧
      '\n' ∉ t.takeWhile fun c => c != '\n' := by
  have hnot : '\n' ∉ t.takeWhile fun c => c != '\n' := by
    intro hm
    simpa using List.mem_takeWhile_imp hm
  refine ⟨?_, hnot⟩
  have hsplit := List.takeWhile_append_dropWhile (p := fun c => c != '\n') (l := t)
  cases hd : t.dropWhile (fun c => c != '\n') with
  | nil =>
    rw [hd, List.append_nil] at hsplit
    rw [hsplit] at hnot
    exact absurd h hnot
  | cons c u =>
    have hc := List.head_dropWhile_not (fun c => c != '\n') (l := t) (by simp [hd])
    simp only [hd, List.head_cons, bne_eq_false_iff_eq] at hc
    rw [hd, hc] at hsplit
    exact hsplit.symm

end Lines
