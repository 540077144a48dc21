/-
# Circular lists in memory

Nodes that hold a pointer to another node, as a map `next` that gives nothing for a pointer to
no node.  A ring is a list of different nodes, each of which points to the one behind it in the
list, and the last one to the first.

The loops that programs walk a ring with stop at the node they have started from, and have no
other bound.  Here they are cut off after a number of rounds, `none` then, and end with their
result if the number is above that of the nodes (`search_eq`, `tail_eq`).  A ring may be read
from any of its nodes on (`IsRing.rotate`), and grows by a node that is put between the last
and the first (`IsRing.insert`).
-/
import Mathlib.Data.List.Rotate

namespace Ring

variable {α : Type} {next next' : α → Option α}

/-! ## 1. Links -/

/-- Each node points to the one behind it, and the last one to `stop`. -/
def Linked (next : α → Option α) : List α → α → Prop
  | [], _ => True
  | x :: l, stop => next x = some (l.headD stop) ∧ Linked next l stop

theorem linked_append (l m : List α) (stop : α) :
    Linked next (l ++ m) stop ↔ Linked next l (m.headD stop) ∧ Linked next m stop := by
  induction l with
  | nil => simp [Linked]
  | cons x l ih =>
    have hhead : (l ++ m).headD stop = l.headD (m.headD stop) := by cases l <;> rfl
    rw [List.cons_append, Linked, Linked, ih, hhead, and_assoc]

/-- Only the pointers of the nodes themselves matter. -/
theorem Linked.congr {l : List α} {stop : α} (h : Linked next l stop)
    (heq : ∀ x ∈ l, next' x = next x) : Linked next' l stop := by
  induction l with
  | nil => trivial
  | cons x l ih =>
    refine ⟨?_, ih h.2 fun y hy => heq y (List.mem_cons_of_mem x hy)⟩
    rw [heq x List.mem_cons_self]
    exact h.1

/-- The nodes are different and make a circle. -/
structure IsRing (next : α → Option α) (l : List α) : Prop where
  nodup : l.Nodup
  linked : ∀ x ∈ l.head?, Linked next l x

theorem isRing_nil : IsRing next [] := ⟨List.nodup_nil, fun _ _ => trivial⟩

/-- A node that points to itself. -/
theorem isRing_singleton {x : α} (h : next x = some x) : IsRing next [x] := by
  refine ⟨List.nodup_singleton x, ?_⟩
  intro y hy
  obtain rfl := Option.some.inj hy
  exact ⟨h, trivial⟩

theorem IsRing.congr {l : List α} (h : IsRing next l) (heq : ∀ x ∈ l, next' x = next x) :
    IsRing next' l := ⟨h.nodup, fun x hx => (h.linked x hx).congr heq⟩

/-- A ring, cut and put together the other way round. -/
theorem IsRing.append_comm {front back : List α} (h : IsRing next (front ++ back)) :
    IsRing next (back ++ front) := by
  refine ⟨List.nodup_append_comm.mp h.nodup, ?_⟩
  cases front with
  | nil => simpa using h.linked
  | cons x front =>
    cases back with
    | nil => simpa using h.linked
    | cons y back =>
      have hx := h.linked x rfl
      rw [linked_append] at hx
      intro z hz
      obtain rfl := Option.some.inj hz
      exact (linked_append _ _ _).mpr ⟨hx.2, hx.1⟩

/-- **A ring from another of its nodes on.** -/
theorem IsRing.rotate {l : List α} (h : IsRing next l) {i : ℕ} (hi : i ≤ l.length) :
    IsRing next (l.rotate i) := by
  rw [List.rotate_eq_drop_append_take hi]
  refine IsRing.append_comm ?_
  rwa [List.take_append_drop]

/-- **A node put between the last and the first**, and taken as the first. -/
theorem IsRing.insert {x new : α} {l : List α} (h : IsRing next (x :: l)) (hnew : new ∉ x :: l)
    (hfirst : next' new = some x)
    (hlast : next' ((x :: l).getLast (List.cons_ne_nil x l)) = some new)
    (hframe : ∀ y ∈ (x :: l).dropLast, next' y = next y) : IsRing next' (new :: x :: l) := by
  refine ⟨List.nodup_cons.mpr ⟨hnew, h.nodup⟩, ?_⟩
  intro y hy
  obtain rfl := Option.some.inj hy
  have hold := h.linked x rfl
  rw [← List.dropLast_append_getLast (List.cons_ne_nil x l), linked_append] at hold
  refine ⟨hfirst, ?_⟩
  rw [← List.dropLast_append_getLast (List.cons_ne_nil x l), linked_append]
  exact ⟨hold.1.congr hframe, hlast, trivial⟩

/-! ## 2. Walks -/

/-- `while ((tmp = tmp->next) != stop) if (test (tmp)) return (tmp);`, for at most `n` rounds. -/
def search [DecidableEq α] (next : α → Option α) (stop : α) (test : α → Bool) :
    ℕ → α → Option (Option α)
  | 0, _ => none
  | n + 1, tmp =>
    match next tmp with
    | none => none
    | some tmp =>
      if tmp = stop then some none
      else if test tmp then some (some tmp)
      else search next stop test n tmp

/-- `while (tmp->next != stop) tmp = tmp->next;`, for at most `n` rounds. -/
def tail [DecidableEq α] (next : α → Option α) (stop : α) : ℕ → α → Option α
  | 0, _ => none
  | n + 1, tmp =>
    match next tmp with
    | none => none
    | some tmp' => if tmp' = stop then some tmp else tail next stop n tmp'

variable [DecidableEq α]

/-- **The search ends**, with the first node behind `x` that passes the test. -/
theorem search_eq {x stop : α} {l : List α} (h : Linked next (x :: l) stop) (hstop : stop ∉ l)
    (test : α → Bool) {n : ℕ} (hn : l.length < n) :
    search next stop test n x = some (l.find? test) := by
  induction l generalizing x n with
  | nil =>
    obtain ⟨n, rfl⟩ := Nat.exists_eq_succ_of_ne_zero (Nat.ne_zero_of_lt hn)
    have hnext : next x = some stop := h.1
    rw [search, hnext]
    exact if_pos rfl
  | cons y l ih =>
    obtain ⟨n, rfl⟩ := Nat.exists_eq_succ_of_ne_zero (Nat.ne_zero_of_lt hn)
    have hnext : next x = some y := h.1
    have hy : y ≠ stop := fun hc => hstop (hc ▸ List.mem_cons_self)
    rw [search, hnext]
    simp only [if_neg hy]
    cases ht : test y with
    | true => rw [if_pos rfl, List.find?_cons_of_pos ht]
    | false =>
      rw [if_neg Bool.false_ne_true, List.find?_cons_of_neg (by simp [ht])]
      exact ih h.2 (fun hc => hstop (List.mem_cons_of_mem y hc)) (by simpa using hn)

/-- **The walk to the end ends**, at the last node. -/
theorem tail_eq {x stop : α} {l : List α} (h : Linked next (x :: l) stop) (hstop : stop ∉ l)
    {n : ℕ} (hn : l.length < n) :
    tail next stop n x = some ((x :: l).getLast (List.cons_ne_nil x l)) := by
  induction l generalizing x n with
  | nil =>
    obtain ⟨n, rfl⟩ := Nat.exists_eq_succ_of_ne_zero (Nat.ne_zero_of_lt hn)
    have hnext : next x = some stop := h.1
    rw [tail, hnext]
    exact if_pos rfl
  | cons y l ih =>
    obtain ⟨n, rfl⟩ := Nat.exists_eq_succ_of_ne_zero (Nat.ne_zero_of_lt hn)
    have hnext : next x = some y := h.1
    have hy : y ≠ stop := fun hc => hstop (hc ▸ List.mem_cons_self)
    rw [tail, hnext]
    simp only [if_neg hy]
    rw [ih h.2 (fun hc => hstop (List.mem_cons_of_mem y hc)) (by simpa using hn)]
    rfl

/-- A search that includes the first node, as programs make it with a test of their own for
that one. -/
theorem IsRing.search_first {x : α} {l : List α} (h : IsRing next (x :: l)) (test : α → Bool)
    {n : ℕ} (hn : l.length < n) :
    (if test x then some (some x) else search next x test n x)
      = some ((x :: l).find? test) := by
  cases ht : test x with
  | true => rw [if_pos rfl, List.find?_cons_of_pos ht]
  | false =>
    rw [if_neg Bool.false_ne_true, List.find?_cons_of_neg (by simp [ht])]
    exact search_eq (h.linked x rfl) (List.nodup_cons.mp h.nodup).1 test hn

end Ring
