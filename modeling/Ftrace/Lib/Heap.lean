/-
# Blocks of memory

Memory that is handed out in blocks: a map from addresses that gives nothing for an address that
is not handed out, or has been given back.  Giving back twice, or what was never handed out, is a
fault (`free`).

What a program has been handed out is a list of different addresses (`Owned`).  It grows by a
fresh one and shrinks by one that is given back; a program that always knows this list never
faults, and has leaked what it can no longer name.
-/
import Mathlib.Data.List.Nodup
import Mathlib.Data.List.Perm.Subperm
import Mathlib.Data.List.Range
import Mathlib.Logic.Function.Basic

namespace Heaps

/-- What each block holds. -/
abbrev Heap (β : Type) : Type := ℕ → Option β

variable {β : Type} {h : Heap β} {p : ℕ} {l m : List ℕ}

namespace Heap

/-! ## 1. What is handed out -/

/-- Nothing is handed out. -/
def empty : Heap β := fun _ => none

/-- A block at `p` that holds `b`, newly handed out or written to. -/
def put (h : Heap β) (p : ℕ) (b : β) : Heap β := Function.update h p (some b)

/-- The block at `p` is given back, `none` for a fault. -/
def free (h : Heap β) (p : ℕ) : Option (Heap β) :=
  if (h p).isSome then some (Function.update h p none) else none

@[simp] theorem put_self (h : Heap β) (p : ℕ) (b : β) : h.put p b p = some b :=
  Function.update_self ..

theorem put_of_ne (h : Heap β) {p q : ℕ} (b : β) (hne : q ≠ p) : h.put p b q = h q :=
  Function.update_of_ne hne ..

theorem put_put (h : Heap β) (p : ℕ) (b c : β) : (h.put p b).put p c = h.put p c :=
  Function.update_idem ..

/-- A block that is given back at once leaves no trace. -/
theorem free_put (hp : h p = none) (b : β) : (h.put p b).free p = some h := by
  have hback : Function.update (h.put p b) p none = h := by
    rw [put, Function.update_idem, ← hp]
    exact Function.update_eq_self p h
  rw [free, if_pos (by rw [put_self]; rfl), hback]

/-- The blocks that are handed out are those at `l`. -/
structure Owned (h : Heap β) (l : List ℕ) : Prop where
  nodup : l.Nodup
  live : ∀ p, (h p).isSome = true ↔ p ∈ l

theorem owned_empty : (empty : Heap β).Owned [] :=
  ⟨List.nodup_nil, fun p => by simp [empty]⟩

theorem Owned.exists_of_mem (ho : h.Owned l) (hp : p ∈ l) : ∃ b, h p = some b :=
  Option.isSome_iff_exists.mp ((ho.live p).mpr hp)

theorem Owned.not_mem (ho : h.Owned l) (hp : h p = none) : p ∉ l := by
  intro hmem
  obtain ⟨b, hb⟩ := ho.exists_of_mem hmem
  rw [hp] at hb
  cases hb

/-- The order does not matter. -/
theorem Owned.perm (ho : h.Owned l) (hm : l.Perm m) : h.Owned m :=
  ⟨hm.nodup_iff.mp ho.nodup, fun p => (ho.live p).trans hm.mem_iff⟩

/-- A fresh block. -/
theorem Owned.alloc (ho : h.Owned l) (hp : h p = none) (b : β) : (h.put p b).Owned (p :: l) := by
  refine ⟨List.nodup_cons.mpr ⟨ho.not_mem hp, ho.nodup⟩, fun q => ?_⟩
  rw [List.mem_cons]
  by_cases hq : q = p
  · simp [hq]
  · rw [put_of_ne h b hq, ho.live q]
    simp [hq]

/-- A block that is written to. -/
theorem Owned.write (ho : h.Owned l) (hp : p ∈ l) (b : β) : (h.put p b).Owned l := by
  refine ⟨ho.nodup, fun q => ?_⟩
  by_cases hq : q = p
  · simp [hq, hp]
  · rw [put_of_ne h b hq, ho.live q]

/-- **A block that is owned can be given back**, once. -/
theorem Owned.free (ho : h.Owned (p :: l)) :
    ∃ h', h.free p = some h' ∧ h'.Owned l ∧ ∀ q, q ≠ p → h' q = h q := by
  have hlive : (h p).isSome = true := (ho.live p).mpr List.mem_cons_self
  refine ⟨Function.update h p none, if_pos hlive, ⟨(List.nodup_cons.mp ho.nodup).2, fun q => ?_⟩,
    fun q hq => Function.update_of_ne hq ..⟩
  by_cases hq : q = p
  · rw [hq, Function.update_self]
    simpa using (List.nodup_cons.mp ho.nodup).1
  · rw [Function.update_of_ne hq, ho.live q]
    simp [hq]

/-! ## 2. An allocator -/

/-- The first free address from 1 to `k + 1`, 0 if there is none. -/
def firstFree (h : Heap β) (k : ℕ) : ℕ :=
  ((List.range' 1 (k + 1)).find? fun p => (h p).isNone).getD 0

theorem firstFree_fresh (h : Heap β) (k : ℕ) (hne : h.firstFree k ≠ 0) :
    h (h.firstFree k) = none := by
  unfold firstFree at hne ⊢
  cases hf : (List.range' 1 (k + 1)).find? fun p => (h p).isNone with
  | none =>
    rw [hf] at hne
    exact absurd rfl hne
  | some p => simpa using List.find?_some hf

/-- There is one, if no more than `k` blocks are handed out. -/
theorem Owned.firstFree_ne_zero (ho : h.Owned l) {k : ℕ} (hk : l.length ≤ k) :
    h.firstFree k ≠ 0 := by
  unfold firstFree
  cases hf : (List.range' 1 (k + 1)).find? fun p => (h p).isNone with
  | none =>
    have hsub : List.range' 1 (k + 1) ⊆ l := by
      intro p hp
      refine (ho.live p).mp ?_
      simpa [Option.isSome_iff_ne_none] using List.find?_eq_none.mp hf p hp
    have hlen := (List.subperm_of_subset List.nodup_range' hsub).length_le
    rw [List.length_range'] at hlen
    omega
  | some p =>
    have hp := List.mem_range'_1.mp (List.mem_of_find?_eq_some hf)
    rw [Option.getD_some]
    omega

end Heap

end Heaps
