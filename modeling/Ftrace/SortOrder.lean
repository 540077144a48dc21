/-
# The order of the sorted symbols

`sort_sym` compares with `strcmp` when its second argument is 24 and with `yolo_cmp` otherwise.
Its two loops, which end at the all-zero entry, are the exchange sort of the entries before it
(`sortSym_eq_exchangeSort`); the stray `++j` behind the inner loop does nothing, since the next
round sets `j` again.  So the entries come out as a permutation of what they were, in the order
of their names (`sortSym_sorted`), for any two comparison functions that are total preorders.

The two orders are defined as well: `strcmp`, and the order that `yolo_cmp` stands for.
-/
import Ftrace.GetSymbols
import Ftrace.Lib.ExchangeSort
import Ftrace.SortSym

namespace Ftrace

open CText Compare ExchangeSort

/-! ## 1. The comparison functions -/

/-- `strcmp`. -/
def strcmp (x y : Text) : ℤ := lex ((cstr x).map Char.toNat) ((cstr y).map Char.toNat)

/-- What `yolo_cmp` compares of a name: its letters in lower case, without the `_` and `@` that
it starts with. -/
def yoloKey (t : Text) : List ℕ :=
  ((cstr t).dropWhile fun c => c == '_' || c == '@').map fun c => c.toLower.toNat

/-- The order of `yolo_cmp` on names. -/
def yoloOrder (x y : Text) : ℤ := lex (yoloKey x) (yoloKey y)

theorem comparator_strcmp : Comparator strcmp :=
  comparator_lex.comap fun t => (cstr t).map Char.toNat

theorem comparator_yoloOrder : Comparator yoloOrder := comparator_lex.comap yoloKey

/-- The comparison that `sort` selects. -/
def sortCmp (sort : ℤ) (strcmp yoloCmp : Text → Text → ℤ) : Text → Text → ℤ :=
  if sort = 24 then strcmp else yoloCmp

theorem comparator_sortCmp (sort : ℤ) {strcmp yoloCmp : Text → Text → ℤ}
    (hs : Comparator strcmp) (hy : Comparator yoloCmp) :
    Comparator (sortCmp sort strcmp yoloCmp) := by
  unfold sortCmp
  split
  · exact hs
  · exact hy

/-- Comparing the names of two entries. -/
def nameCmp (cmp : Text → Text → ℤ) (a b : TSymbol) : ℤ := cmp (a.name.getD []) (b.name.getD [])

/-! ## 2. The loops are the exchange sort -/

/-- An entry behind another, and what is between them. -/
theorem getElem?_behind (pre : List TSymbol) (a : TSymbol) (mid : List TSymbol) (b : TSymbol)
    (l : List TSymbol) :
    (pre ++ a :: (mid ++ b :: l))[pre.length + 1 + mid.length]? = some b := by
  have hlen : (pre ++ a :: mid).length = pre.length + 1 + mid.length := by
    rw [List.length_append, List.length_cons]
    omega
  have hsplit : pre ++ a :: (mid ++ b :: l) = (pre ++ a :: mid) ++ b :: l := by
    rw [List.append_assoc, List.cons_append]
  rw [hsplit, ← hlen]
  exact getElem?_marker _ b l

theorem swap_behind (pre : List TSymbol) (a : TSymbol) (mid : List TSymbol) (b : TSymbol)
    (l : List TSymbol) :
    swap (pre ++ a :: (mid ++ b :: l)) pre.length (pre.length + 1 + mid.length)
      = pre ++ b :: (mid ++ a :: l) := by
  have hset (x y : TSymbol) (k : List TSymbol) :
      (pre ++ x :: k).set pre.length y = pre ++ y :: k := by
    rw [List.set_append_right _ _ (Nat.le_refl _), Nat.sub_self, List.set_cons_zero]
  have hset' : (pre ++ b :: (mid ++ b :: l)).set (pre.length + 1 + mid.length) a
      = pre ++ b :: (mid ++ a :: l) := by
    have hsub : pre.length + 1 + mid.length - pre.length = mid.length + 1 := by omega
    rw [List.set_append_right _ _ (by omega), hsub, List.set_cons_succ,
      List.set_append_right _ _ (Nat.le_refl _), Nat.sub_self, List.set_cons_zero]
  rw [swap, getElem?_marker, getElem?_behind]
  simp only
  rw [hset, hset']

section

variable (cmp : Text → Text → ℤ) {z : TSymbol} (hz : z.isEnd = true) (rest : List TSymbol)
include hz

/-- **The inner loop** is a pass over the entries that are left. -/
theorem sortInner_eq_pass (pre done : List TSymbol) {todo : List TSymbol} {a : TSymbol}
    (hnamed : Named (a :: todo)) {n : ℕ} (hn : todo.length < n) :
    sortInner (fun x y => 0 < cmp x y) pre.length n (pre.length + 1 + done.length)
        (pre ++ a :: (done ++ (todo ++ z :: rest)))
      = some (pre ++ (pass (fun x y => 0 < nameCmp cmp x y) a todo).1 ::
          (done ++ ((pass (fun x y => 0 < nameCmp cmp x y) a todo).2 ++ z :: rest))) := by
  induction todo generalizing a done n with
  | nil =>
    obtain ⟨n, rfl⟩ : ∃ m, n = m + 1 := Nat.exists_eq_succ_of_ne_zero (by simpa using hn.ne')
    simp only [sortInner, List.nil_append, getElem?_marker, getElem?_behind, hz, if_true,
      ExchangeSort.pass]
  | cons b todo ih =>
    obtain ⟨n, rfl⟩ : ∃ m, n = m + 1 := ⟨n - 1, by omega⟩
    have ha := hnamed a List.mem_cons_self
    have hb := hnamed b (List.mem_cons_of_mem a List.mem_cons_self)
    obtain ⟨x, hx⟩ := Option.isSome_iff_exists.mp ha.2
    obtain ⟨y, hy⟩ := Option.isSome_iff_exists.mp hb.2
    have hcmp : nameCmp cmp a b = cmp x y := by rw [nameCmp, hx, hy]; rfl
    have hlen : todo.length < n := by
      rw [List.length_cons] at hn
      omega
    have hnext (c : TSymbol) : pre.length + 1 + done.length + 1
        = pre.length + 1 + (done ++ [c]).length := by
      rw [List.length_append]
      rfl
    have hmove (c : TSymbol) (l : List TSymbol) : done ++ c :: l = (done ++ [c]) ++ l :=
      List.append_cons done c l
    simp only [sortInner, List.cons_append, getElem?_marker, getElem?_behind, hb.1, hx, hy,
      ExchangeSort.pass, hcmp, Bool.false_eq_true, if_false]
    by_cases hgt : 0 < cmp x y
    · simp only [hgt, decide_true, if_true]
      have htail : Named (b :: todo) := fun e he => hnamed e (List.mem_cons_of_mem a he)
      have h := ih (done ++ [a]) htail hlen
      rw [← hnext a, ← hmove a, ← hmove a] at h
      rw [swap_behind]
      exact h
    · simp only [hgt, decide_false, Bool.false_eq_true, if_false]
      have htail : Named (a :: todo) := by
        intro e he
        rcases List.mem_cons.mp he with rfl | he
        · exact ha
        · exact hnamed e (List.mem_cons_of_mem a (List.mem_cons_of_mem b he))
      have h := ih (done ++ [b]) htail hlen
      rw [← hnext b, ← hmove b, ← hmove b] at h
      exact h

/-- The inner loop starts at the entry itself, and comparing it with itself does nothing. -/
theorem sortInner_start (hcmp : Comparator cmp) (pre : List TSymbol) {todo : List TSymbol}
    {a : TSymbol} (hnamed : Named (a :: todo)) {n : ℕ} (hn : todo.length + 1 < n) :
    sortInner (fun x y => 0 < cmp x y) pre.length n pre.length (pre ++ a :: (todo ++ z :: rest))
      = some (pre ++ (pass (fun x y => 0 < nameCmp cmp x y) a todo).1 ::
          ((pass (fun x y => 0 < nameCmp cmp x y) a todo).2 ++ z :: rest)) := by
  obtain ⟨n, rfl⟩ : ∃ m, n = m + 1 := ⟨n - 1, by omega⟩
  obtain ⟨hend, hname⟩ := hnamed a List.mem_cons_self
  obtain ⟨x, hx⟩ := Option.isSome_iff_exists.mp hname
  have hself : ¬ 0 < cmp x x := not_lt.mpr (hcmp.refl x)
  have h := sortInner_eq_pass cmp hz rest pre [] hnamed (n := n) (by omega)
  simp only [sortInner, getElem?_marker, hend, hx, Bool.false_eq_true, if_false, hself,
    decide_false]
  exact h

/-- **The outer loop** is the sort of the entries that are left. -/
theorem sortOuter_eq_exchangeSort (hcmp : Comparator cmp) {as : List TSymbol} (hnamed : Named as)
    (pre : List TSymbol) {n : ℕ} (hn : as.length < n) :
    sortOuter (fun x y => 0 < cmp x y) n pre.length (pre ++ (as ++ z :: rest))
      = some (pre ++ (exchangeSort (fun x y => 0 < nameCmp cmp x y) as ++ z :: rest)) := by
  induction as using exchangeSort.induct (fun x y => decide (0 < nameCmp cmp x y))
    generalizing pre n with
  | case1 =>
    obtain ⟨n, rfl⟩ : ∃ m, n = m + 1 := ⟨n - 1, by simp at hn; omega⟩
    rw [exchangeSort, List.nil_append]
    simp only [sortOuter, getElem?_marker, hz, if_true]
  | case2 a as ih =>
    obtain ⟨n, rfl⟩ : ∃ m, n = m + 1 := ⟨n - 1, by omega⟩
    have hend := (hnamed a List.mem_cons_self).1
    have hperm := pass_perm (fun x y => decide (0 < nameCmp cmp x y)) a as
    have hrest : Named (pass (fun x y => decide (0 < nameCmp cmp x y)) a as).2 :=
      fun e he => hnamed e (hperm.subset (List.mem_cons_of_mem _ he))
    have hlen := length_pass (fun x y => decide (0 < nameCmp cmp x y)) a as
    rw [List.length_cons] at hn
    have hnext := ih hrest (pre ++ [(pass (fun x y => decide (0 < nameCmp cmp x y)) a as).1])
      (n := n) (by omega)
    rw [List.append_assoc, List.append_assoc, List.length_append] at hnext
    have hround := sortInner_start cmp hz rest hcmp pre hnamed
      (n := (pre ++ (a :: as ++ z :: rest)).length + 1) (by
        simp only [List.length_append, List.length_cons]
        omega)
    rw [exchangeSort]
    simp only [sortOuter, List.cons_append, getElem?_marker, hend, Bool.false_eq_true,
      if_false] at hround ⊢
    rw [hround]
    exact hnext

end

/-! ## 3. The result -/

/-- **`sort_sym` is the exchange sort** of the entries before the end marker. -/
theorem sortSym_eq_exchangeSort {cmp : Text → Text → ℤ} (hcmp : Comparator cmp) {z : TSymbol}
    (hz : z.isEnd = true) (rest : List TSymbol) {as : List TSymbol} (hnamed : Named as) :
    sortSym (fun x y => 0 < cmp x y) (as ++ z :: rest)
      = some (exchangeSort (fun x y => 0 < nameCmp cmp x y) as ++ z :: rest) :=
  sortOuter_eq_exchangeSort cmp hz rest hcmp hnamed [] (by rw [List.length_append]; omega)

/-- What `sort_sym` scans of an array, and what it leaves alone. -/
theorem SymTab.exists_marker (t : SymTab) :
    ∃ z rest, TSymbol.isEnd z = true ∧ t.cells = t.entries ++ z :: rest := by
  have hsplit := List.takeWhile_append_dropWhile (p := fun s => !TSymbol.isEnd s) (l := t.cells)
  cases hd : t.cells.dropWhile fun s => !TSymbol.isEnd s with
  | nil =>
    obtain ⟨z, hz, hend⟩ := List.any_eq_true.mp t.ended
    have hall := List.dropWhile_eq_nil_iff.mp hd z hz
    rw [hend] at hall
    cases hall
  | cons z rest =>
    rw [hd] at hsplit
    have hnot := List.head_dropWhile_not (fun s => !TSymbol.isEnd s) (l := t.cells) (by simp [hd])
    simp only [hd, List.head_cons, Bool.not_eq_false'] at hnot
    exact ⟨z, rest, hnot, hsplit.symm⟩

/-- **`sort_sym` sorts**: of an array that an all-zero entry ends, the entries before it are
permuted into the order of their names, and it and what is behind it stay as they are. -/
theorem sortSym_sorted (sort : ℤ) {strcmp yoloCmp : Text → Text → ℤ} (hs : Comparator strcmp)
    (hy : Comparator yoloCmp) (t : SymTab) (hname : ∀ e ∈ t.entries, e.name.isSome = true) :
    ∃ bs, sortSym (fun x y => 0 < sortCmp sort strcmp yoloCmp x y) t.cells
        = some (bs ++ t.cells.drop t.entries.length) ∧
      bs.Perm t.entries ∧
      bs.Pairwise fun a b => nameCmp (sortCmp sort strcmp yoloCmp) a b ≤ 0 := by
  have hcmp := comparator_sortCmp sort hs hy
  obtain ⟨z, rest, hz, hcells⟩ := t.exists_marker
  have hnamed : Named t.entries := by
    intro e he
    refine ⟨?_, hname e he⟩
    simpa using List.mem_takeWhile_imp he
  have hdrop : t.cells.drop t.entries.length = z :: rest := by
    rw [hcells, List.drop_left]
  refine ⟨exchangeSort (fun x y => 0 < nameCmp (sortCmp sort strcmp yoloCmp) x y) t.entries, ?_,
    exchangeSort_perm _ _, ?_⟩
  · rw [hdrop]
    exact (congrArg _ hcells).trans (sortSym_eq_exchangeSort hcmp hz rest hnamed)
  · exact exchangeSort_sorted (hcmp.comap fun e : TSymbol => e.name.getD []) t.entries

/-- `start`, `_Init` and the end marker. -/
def twoSymbols : SymTab where
  cells := [⟨0x1000, charByte 'T', some "start".toList⟩, ⟨0x2000, charByte 'T', some "_Init".toList⟩,
    ⟨0, 0, none⟩]
  ended := by decide

theorem sortSym_sorted_two : ∃ bs,
    sortSym (fun x y => 0 < sortCmp 0 strcmp yoloOrder x y) twoSymbols.cells
        = some (bs ++ twoSymbols.cells.drop twoSymbols.entries.length) ∧
      bs.Perm twoSymbols.entries ∧
      bs.Pairwise fun a b => nameCmp (sortCmp 0 strcmp yoloOrder) a b ≤ 0 :=
  sortSym_sorted 0 comparator_strcmp comparator_yoloOrder twoSymbols (by decide)

example : sortSym (fun x y => 0 < sortCmp 0 strcmp yoloOrder x y) twoSymbols.cells
    = some [⟨0x2000, charByte 'T', some "_Init".toList⟩, ⟨0x1000, charByte 'T', some "start".toList⟩,
        ⟨0, 0, none⟩] := by
  decide +kernel

end Ftrace
