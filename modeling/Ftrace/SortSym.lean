/-
# Sorting the symbols

`sort_sym` of `get_symbols.c`, in place: every entry before the end marker is exchanged with
each later one whose name it compares greater than.  Which comparison it is, `strcmp` or
`yolo_cmp`, is the parameter `gt` ("the result is positive").  A scan that leaves the array and
a comparison of a null name have no result (`none`).

What is used of the sort is that it moves the entries before the end marker and nothing else
(`sortSym_spec`), and that it has no result unless it meets the marker behind named entries
(`sortSym_meets`).
-/
import Ftrace.ResolveSymbols

namespace Ftrace

open CText

/-! ## 1. `sort_sym` -/

/-- `swap (&cells[i], &cells[j])`. -/
def swap (cells : List TSymbol) (i j : ℕ) : List TSymbol :=
  match cells[i]?, cells[j]? with
  | some a, some b => (cells.set i b).set j a
  | _, _ => cells

/-- The inner loop of `sort_sym` from `j` on, for at most `n` rounds. -/
def sortInner (gt : Text → Text → Bool) (i : ℕ) : ℕ → ℕ → List TSymbol → Option (List TSymbol)
  | 0, _, _ => none
  | n + 1, j, cells =>
    match cells[i]?, cells[j]? with
    | some a, some b =>
      if b.isEnd then some cells
      else match a.name, b.name with
        | some x, some y => sortInner gt i n (j + 1) (if gt x y then swap cells i j else cells)
        | _, _ => none
    | _, _ => none

/-- The outer loop from `i` on, for at most `n` rounds. -/
def sortOuter (gt : Text → Text → Bool) : ℕ → ℕ → List TSymbol → Option (List TSymbol)
  | 0, _, _ => none
  | n + 1, i, cells =>
    match cells[i]? with
    | none => none
    | some a =>
      if a.isEnd then some cells
      else match sortInner gt i (cells.length + 1) i cells with
        | none => none
        | some cells' => sortOuter gt n (i + 1) cells'

/-- `sort_sym (sym_list, sort)`.  A scan that has not met the end marker within the array has
left it, so the bound on the rounds is never what ends the loops. -/
def sortSym (gt : Text → Text → Bool) (cells : List TSymbol) : Option (List TSymbol) :=
  sortOuter gt (cells.length + 1) 0 cells

/-! ## 2. Exchanging two entries -/

theorem swap_perm (cells : List TSymbol) (i j : ℕ) : (swap cells i j).Perm cells := by
  rw [swap]
  split
  · rename_i a b ha hb
    obtain ⟨hi, rfl⟩ := List.getElem?_eq_some_iff.mp ha
    obtain ⟨hj, rfl⟩ := List.getElem?_eq_some_iff.mp hb
    exact List.set_set_perm hi hj
  · exact List.Perm.refl _

/-- Two entries of the first part are exchanged there. -/
theorem swap_append {as : List TSymbol} (rest : List TSymbol) {i j : ℕ} (hi : i < as.length)
    (hj : j < as.length) : swap (as ++ rest) i j = swap as i j ++ rest := by
  rw [swap, swap, List.getElem?_append_left hi, List.getElem?_append_left hj,
    List.getElem?_eq_getElem hi, List.getElem?_eq_getElem hj]
  simp only
  rw [List.set_append_left _ _ hi, List.set_append_left _ _ (by rwa [List.length_set])]

/-- An entry that neither index names stays where it is. -/
theorem getElem?_swap_of_ne {cells : List TSymbol} {i j l : ℕ} (hi : l ≠ i) (hj : l ≠ j) :
    (swap cells i j)[l]? = cells[l]? := by
  rw [swap]
  split
  · rw [List.getElem?_set_ne hj.symm, List.getElem?_set_ne hi.symm]
  · rfl

/-! ## 3. The loops -/

/-- The entries of a table: none is the end marker, and each has a name. -/
def Named (as : List TSymbol) : Prop := ∀ a ∈ as, a.isEnd = false ∧ a.name.isSome = true

theorem Named.of_perm {as bs : List TSymbol} (h : Named as) (hp : bs.Perm as) : Named bs :=
  fun a ha => h a (hp.subset ha)

theorem getElem?_marker (as : List TSymbol) (z : TSymbol) (rest : List TSymbol) :
    (as ++ z :: rest)[as.length]? = some z := by
  rw [List.getElem?_append_right (Nat.le_refl _), Nat.sub_self]
  rfl

/-- **The inner loop** reorders the entries and stops at the end marker. -/
theorem sortInner_spec (gt : Text → Text → Bool) {z : TSymbol} (hz : z.isEnd = true)
    (rest : List TSymbol) {i : ℕ} (n : ℕ) {j : ℕ} {as : List TSymbol} (has : Named as)
    (hi : i < as.length) (hj : j ≤ as.length) (hn : as.length < j + n) :
    ∃ bs, sortInner gt i n j (as ++ z :: rest) = some (bs ++ z :: rest) ∧ bs.Perm as := by
  induction n generalizing j as with
  | zero => omega
  | succ n ih =>
    have hcell : (as ++ z :: rest)[i]? = some as[i] := by
      rw [List.getElem?_append_left hi, List.getElem?_eq_getElem hi]
    rcases Nat.lt_or_eq_of_le hj with hlt | rfl
    · -- an entry: it is compared, and the rest of the round is the same loop one further
      have hcell' : (as ++ z :: rest)[j]? = some as[j] := by
        rw [List.getElem?_append_left hlt, List.getElem?_eq_getElem hlt]
      obtain ⟨-, hname⟩ := has _ (List.getElem_mem hi)
      obtain ⟨hend, hname'⟩ := has _ (List.getElem_mem hlt)
      obtain ⟨x, hx⟩ := Option.isSome_iff_exists.mp hname
      obtain ⟨y, hy⟩ := Option.isSome_iff_exists.mp hname'
      simp only [sortInner, hcell, hcell', hend, hx, hy, Bool.false_eq_true, if_false]
      by_cases hgt : gt x y = true
      · have hp := swap_perm as i j
        rw [if_pos hgt, swap_append (z :: rest) hi hlt]
        obtain ⟨bs, hbs, hperm⟩ := ih (j := j + 1) (has.of_perm hp) (by rwa [hp.length_eq])
          (by rwa [hp.length_eq]) (by rw [hp.length_eq]; omega)
        exact ⟨bs, hbs, hperm.trans hp⟩
      · rw [if_neg hgt]
        exact ih has hi hlt (by omega)
    · refine ⟨as, ?_, List.Perm.refl _⟩
      have hend := getElem?_marker as z rest
      simp only [sortInner, hcell, hend, hz, if_true]

/-- **The outer loop** does so from every entry on. -/
theorem sortOuter_spec (gt : Text → Text → Bool) {z : TSymbol} (hz : z.isEnd = true)
    (rest : List TSymbol) (n : ℕ) {i : ℕ} {as : List TSymbol} (has : Named as)
    (hi : i ≤ as.length) (hn : as.length < i + n) :
    ∃ bs, sortOuter gt n i (as ++ z :: rest) = some (bs ++ z :: rest) ∧ bs.Perm as := by
  induction n generalizing i as with
  | zero => omega
  | succ n ih =>
    rcases Nat.lt_or_eq_of_le hi with hlt | rfl
    · have hcell : (as ++ z :: rest)[i]? = some as[i] := by
        rw [List.getElem?_append_left hlt, List.getElem?_eq_getElem hlt]
      obtain ⟨hend, -⟩ := has _ (List.getElem_mem hlt)
      obtain ⟨bs, hbs, hp⟩ := sortInner_spec gt hz rest ((as ++ z :: rest).length + 1) has hlt hi
        (by rw [List.length_append]; omega)
      obtain ⟨cs, hcs, hp'⟩ := ih (i := i + 1) (has.of_perm hp) (by rwa [hp.length_eq])
        (by rw [hp.length_eq]; omega)
      refine ⟨cs, ?_, hp'.trans hp⟩
      simp only [sortOuter, hcell, hend, hbs, Bool.false_eq_true, if_false, hcs]
    · refine ⟨as, ?_, List.Perm.refl _⟩
      have hcell := getElem?_marker as z rest
      simp only [sortOuter, hcell, hz, if_true]

/-- **`sort_sym` reorders the entries before the end marker** and leaves what comes after. -/
theorem sortSym_spec (gt : Text → Text → Bool) {z : TSymbol} (hz : z.isEnd = true)
    (rest : List TSymbol) {as : List TSymbol} (has : Named as) :
    ∃ bs, sortSym gt (as ++ z :: rest) = some (bs ++ z :: rest) ∧ bs.Perm as :=
  sortOuter_spec gt hz rest _ has (Nat.zero_le _) (by rw [List.length_append]; omega)

/-- A scan from `j` on meets an end marker within the array, behind named entries. -/
def MeetsEnd (cells : List TSymbol) (j : ℕ) : Prop :=
  ∃ m z, j ≤ m ∧ cells[m]? = some z ∧ TSymbol.isEnd z = true ∧
    ∀ l, j ≤ l → l < m → ∃ e : TSymbol, cells[l]? = some e ∧ e.name.isSome = true

/-- Only the cells from `j` on matter. -/
theorem MeetsEnd.congr {cells cells' : List TSymbol} {j : ℕ} (h : MeetsEnd cells j)
    (hsame : ∀ l, j ≤ l → cells[l]? = cells'[l]?) : MeetsEnd cells' j := by
  obtain ⟨m, z, hm, hz, hend, hall⟩ := h
  refine ⟨m, z, hm, (hsame m hm).symm.trans hz, hend, fun l hl hlt => ?_⟩
  rw [← hsame l hl]
  exact hall l hl hlt

/-- A named entry in front. -/
theorem MeetsEnd.cons {cells : List TSymbol} {j : ℕ} {b : TSymbol} (h : MeetsEnd cells (j + 1))
    (hb : cells[j]? = some b) (hname : b.name.isSome = true) : MeetsEnd cells j := by
  obtain ⟨m, z, hm, hz, hend, hall⟩ := h
  refine ⟨m, z, Nat.le_of_succ_le hm, hz, hend, fun l hl hlt => ?_⟩
  rcases Nat.eq_or_lt_of_le hl with rfl | hl'
  · exact ⟨b, hb, hname⟩
  · exact hall l hl' hlt

theorem meetsEnd_of_isEnd {cells : List TSymbol} {j : ℕ} {z : TSymbol} (hz : cells[j]? = some z)
    (hend : z.isEnd = true) : MeetsEnd cells j :=
  ⟨j, z, Nat.le_refl j, hz, hend, fun _ hl hlt => absurd hlt (Nat.not_lt.mpr hl)⟩

/-- The inner loop has a result only if it meets the end marker. -/
theorem sortInner_meets {gt : Text → Text → Bool} {i n j : ℕ} {cells cells' : List TSymbol}
    (hij : i ≤ j) (h : sortInner gt i n j cells = some cells') : MeetsEnd cells j := by
  induction n generalizing j cells with
  | zero => cases h
  | succ n ih =>
    rw [sortInner] at h
    split at h
    · rename_i a b ha hb
      split at h
      · rename_i hend
        exact meetsEnd_of_isEnd hb hend
      · split at h
        · rename_i x y hx hy
          have hnext := ih (Nat.le_succ_of_le hij) h
          -- behind `j` the exchange has changed nothing
          refine (hnext.congr fun l hl => ?_).cons hb (by rw [hy]; rfl)
          split
          · exact getElem?_swap_of_ne (by omega) (by omega)
          · rfl
        · cases h
    · cases h

/-- **The sort has a result only if** the first scan meets the end marker. -/
theorem sortSym_meets {gt : Text → Text → Bool} {cells cells' : List TSymbol}
    (h : sortSym gt cells = some cells') : MeetsEnd cells 0 := by
  rw [sortSym, sortOuter] at h
  split at h
  · cases h
  · rename_i a ha
    split at h
    · rename_i hend
      exact meetsEnd_of_isEnd ha hend
    · split at h
      · cases h
      · rename_i hinner
        exact sortInner_meets (Nat.le_refl 0) hinner

end Ftrace
