/-
# The exchange sort

Each element in turn is exchanged with every later one that it is greater than, so that the
least of the rest ends up in its place.  `pass` is the round for one place: what comes to stand
there, and what is left behind it.

The result is a permutation (`exchangeSort_perm`), and in order if "greater" is the sign of a
comparator (`exchangeSort_sorted`); both come from the same facts about one pass.
-/
import Ftrace.Lib.Compare

namespace ExchangeSort

open Compare

variable {α : Type}

/-- The round for the place of `a`, over the elements behind it. -/
def pass (gt : α → α → Bool) : α → List α → α × List α
  | a, [] => (a, [])
  | a, b :: bs =>
    if gt a b then ((pass gt b bs).1, a :: (pass gt b bs).2)
    else ((pass gt a bs).1, b :: (pass gt a bs).2)

theorem length_pass (gt : α → α → Bool) (a : α) (bs : List α) :
    (pass gt a bs).2.length = bs.length := by
  induction bs generalizing a with
  | nil => rfl
  | cons b bs ih =>
    rw [pass]
    split
    · exact congrArg (· + 1) (ih b)
    · exact congrArg (· + 1) (ih a)

/-- The sort. -/
def exchangeSort (gt : α → α → Bool) : List α → List α
  | [] => []
  | a :: as => (pass gt a as).1 :: exchangeSort gt (pass gt a as).2
termination_by as => as.length
decreasing_by
  rw [length_pass]
  exact Nat.lt_succ_self _

/-- A pass loses nothing. -/
theorem pass_perm (gt : α → α → Bool) (a : α) (bs : List α) :
    ((pass gt a bs).1 :: (pass gt a bs).2).Perm (a :: bs) := by
  induction bs generalizing a with
  | nil => exact List.Perm.refl _
  | cons b bs ih =>
    rw [pass]
    split
    · exact (List.Perm.swap _ _ _).trans ((ih b).cons a)
    · exact (List.Perm.swap _ _ _).trans (((ih a).cons b).trans (List.Perm.swap _ _ _))

theorem exchangeSort_perm (gt : α → α → Bool) (as : List α) : (exchangeSort gt as).Perm as := by
  induction as using exchangeSort.induct gt with
  | case1 => rw [exchangeSort]
  | case2 a as ih =>
    rw [exchangeSort]
    exact (ih.cons _).trans (pass_perm gt a as)

/-- **A pass finds the least**: what comes to stand in the place is no greater than any other. -/
theorem pass_le {cmp : α → α → ℤ} (hcmp : Comparator cmp) (a : α) (bs : List α) :
    ∀ b ∈ a :: bs, cmp (pass (fun x y => 0 < cmp x y) a bs).1 b ≤ 0 := by
  induction bs generalizing a with
  | nil =>
    intro b hb
    rw [List.mem_singleton.mp hb]
    exact hcmp.refl a
  | cons c bs ih =>
    rw [pass]
    intro b hb
    split
    · -- `c` takes the place, and was not greater than `a`
      rename_i hgt
      have hca : cmp c a ≤ 0 := hcmp.le_of_pos (of_decide_eq_true hgt)
      rcases List.mem_cons.mp hb with rfl | hb
      · exact hcmp.trans _ _ _ (ih c c List.mem_cons_self) hca
      · exact ih c b hb
    · rename_i hgt
      have hac : cmp a c ≤ 0 := not_lt.mp fun h => hgt (decide_eq_true h)
      rcases List.mem_cons.mp hb with rfl | hb
      · exact ih b b List.mem_cons_self
      · rcases List.mem_cons.mp hb with rfl | hb
        · exact hcmp.trans _ _ _ (ih a a List.mem_cons_self) hac
        · exact ih a b (List.mem_cons_of_mem a hb)

/-- **The sort puts the list in order.** -/
theorem exchangeSort_sorted {cmp : α → α → ℤ} (hcmp : Comparator cmp) (as : List α) :
    (exchangeSort (fun x y => 0 < cmp x y) as).Pairwise fun x y => cmp x y ≤ 0 := by
  induction as using exchangeSort.induct (fun x y => decide (0 < cmp x y)) with
  | case1 =>
    rw [exchangeSort]
    exact List.Pairwise.nil
  | case2 a as ih =>
    rw [exchangeSort]
    refine List.Pairwise.cons ?_ ih
    intro b hb
    have hmem := (exchangeSort_perm _ _).subset hb
    exact pass_le hcmp a as b ((pass_perm _ a as).subset (List.mem_cons_of_mem _ hmem))

end ExchangeSort
