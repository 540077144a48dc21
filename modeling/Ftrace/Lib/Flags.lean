/-
# Sets of flags, written as names

A field of flags is a number, and each name of a table stands for some bits of it, or for none.
The text of a field is the names of what is set, with a `|` between any two of them.

`readField` takes such a text apart again: each piece has to be a name, so a separator too many
is an error.  A writer that prints a first name for some bits, and behind it every name that has
a bit in common with the value, is read back as the value exactly if the first name is right
and no other one is set in part only (`readField_eq_iff`).
-/
import Mathlib.Data.BitVec
import Mathlib.Data.List.Flatten

namespace Flags

variable {w : ℕ}

/-- Names, and the bits that they stand for. -/
abbrev Names (w : ℕ) := List (List Char × BitVec w)

/-! ## 1. Unions -/

/-- All bits of a list of values. -/
def unionAll (l : List (BitVec w)) : BitVec w := l.foldr (· ||| ·) 0#w

@[simp] theorem unionAll_nil : unionAll ([] : List (BitVec w)) = 0#w := rfl

@[simp] theorem unionAll_cons (x : BitVec w) (l : List (BitVec w)) :
    unionAll (x :: l) = x ||| unionAll l := rfl

theorem getLsbD_unionAll (l : List (BitVec w)) (i : ℕ) :
    (unionAll l).getLsbD i = true ↔ ∃ x ∈ l, x.getLsbD i = true := by
  induction l with
  | nil => simp
  | cons x l ih => simp [ih]

/-- Some bit of the name is in the value. -/
def isSet (v : BitVec w) (p : List Char × BitVec w) : Bool := v &&& p.2 ≠ 0#w

theorem and_eq_right_iff (v m : BitVec w) :
    v &&& m = m ↔ ∀ i, m.getLsbD i = true → v.getLsbD i = true := by
  constructor
  · intro h i hi
    rw [← h, BitVec.getLsbD_and, Bool.and_eq_true] at hi
    exact hi.1
  · intro h
    refine BitVec.eq_of_getLsbD_eq fun i _ => ?_
    rw [BitVec.getLsbD_and]
    cases hm : m.getLsbD i with
    | false => rw [Bool.and_false]
    | true => rw [h i hm, Bool.and_true]

/-- **The names that are set make the bits of the value** that have a name, exactly if none of
them is set in part only. -/
theorem unionAll_filter_iff (v : BitVec w) (names : Names w) :
    unionAll ((names.filter (isSet v)).map Prod.snd) = v &&& unionAll (names.map Prod.snd) ↔
      ∀ p ∈ names, isSet v p = true → v &&& p.2 = p.2 := by
  have hbit (i : ℕ) : (unionAll ((names.filter (isSet v)).map Prod.snd)).getLsbD i = true ↔
      ∃ p ∈ names, isSet v p = true ∧ p.2.getLsbD i = true := by
    simp only [getLsbD_unionAll, List.mem_map, List.mem_filter]
    constructor
    · rintro ⟨x, ⟨p, ⟨hp, hs⟩, rfl⟩, hi⟩
      exact ⟨p, hp, hs, hi⟩
    · rintro ⟨p, hp, hs, hi⟩
      exact ⟨p.2, ⟨p, ⟨hp, hs⟩, rfl⟩, hi⟩
  constructor
  · intro h p hp hs
    rw [and_eq_right_iff]
    intro i hi
    have hv := (hbit i).mpr ⟨p, hp, hs, hi⟩
    rw [h, BitVec.getLsbD_and, Bool.and_eq_true] at hv
    exact hv.1
  · intro h
    refine BitVec.eq_of_getLsbD_eq fun i _ => Bool.eq_iff_iff.mpr ?_
    rw [hbit, BitVec.getLsbD_and, Bool.and_eq_true, getLsbD_unionAll]
    constructor
    · rintro ⟨p, hp, hs, hi⟩
      exact ⟨(and_eq_right_iff v p.2).mp (h p hp hs) i hi, p.2, List.mem_map_of_mem hp, hi⟩
    · rintro ⟨hv, x, hx, hi⟩
      obtain ⟨p, hp, rfl⟩ := List.mem_map.mp hx
      refine ⟨p, hp, decide_eq_true ?_, hi⟩
      intro hzero
      have hand : (v &&& p.2).getLsbD i = true := by
        rw [BitVec.getLsbD_and, hv, hi, Bool.and_true]
      rw [hzero, BitVec.getLsbD_zero] at hand
      cases hand

/-- One bit is not set in part. -/
theorem and_bit {v m : BitVec w} (hm : ∃ i < w, m = BitVec.twoPow w i) (h : v &&& m ≠ 0#w) :
    v &&& m = m := by
  obtain ⟨i, -, rfl⟩ := hm
  rw [BitVec.and_twoPow] at h ⊢
  cases hv : v.getLsbD i with
  | false =>
    rw [hv] at h
    exact absurd rfl h
  | true => rfl

/-- A value of some bits and another of other bits, put together. -/
theorem or_eq_and_iff {x y f u v : BitVec w} (hx : x &&& f = x) (hy : y &&& u = y)
    (hfu : f &&& u = 0#w) : x ||| y = v &&& (f ||| u) ↔ x = v &&& f ∧ y = v &&& u := by
  constructor
  · intro h
    have hyf : y &&& f = 0#w := by
      rw [← hy, BitVec.and_assoc, BitVec.and_comm u f, hfu, BitVec.and_zero]
    have hxu : x &&& u = 0#w := by rw [← hx, BitVec.and_assoc, hfu, BitVec.and_zero]
    have hf := congrArg (· &&& f) h
    have hu := congrArg (· &&& u) h
    simp only [BitVec.and_or_distrib_right, BitVec.and_assoc, BitVec.and_self, hx, hy, hyf, hxu,
      BitVec.and_comm u f, hfu, BitVec.or_zero, BitVec.zero_or] at hf hu
    exact ⟨hf, hu⟩
  · rintro ⟨rfl, rfl⟩
    exact BitVec.and_or_distrib_left.symm

/-! ## 2. Reading a field -/

/-- The bits of a name. -/
def lookup (names : Names w) (name : List Char) : Option (BitVec w) :=
  (names.find? fun p => p.1 = name).map Prod.snd

/-- The bits that a text names: every piece between the separators has to be a name, and the
empty text names none. -/
def readField (names : Names w) (t : List Char) : Option (BitVec w) :=
  if t = [] then some 0#w else ((t.splitOn '|').mapM (lookup names)).map unionAll

/-- The names are different and not empty, and have no separator in them. -/
structure WellNamed (names : Names w) : Prop where
  nodup : (names.map Prod.fst).Nodup
  ne_nil : ∀ p ∈ names, p.1 ≠ []
  bar : ∀ p ∈ names, '|' ∉ p.1

variable {names : Names w}

theorem WellNamed.lookup (hn : WellNamed names) {p : List Char × BitVec w} (hp : p ∈ names) :
    lookup names p.1 = some p.2 := by
  unfold Flags.lookup
  cases hfind : names.find? fun q => q.1 = p.1 with
  | none =>
    rw [List.find?_eq_none] at hfind
    exact absurd (decide_eq_true rfl) (hfind p hp)
  | some q =>
    have hq := List.mem_of_find?_eq_some hfind
    have hname := List.find?_some hfind
    rw [List.inj_on_of_nodup_map hn.nodup hq hp (of_decide_eq_true hname)]
    rfl

/-- A piece that is empty is no name. -/
theorem WellNamed.lookup_nil (hn : WellNamed names) : Flags.lookup names [] = none := by
  rw [Flags.lookup, Option.map_eq_none_iff, List.find?_eq_none]
  intro p hp
  simpa using hn.ne_nil p hp

/-- A first name, and others behind it, each with the separator in front. -/
def joined (first : List Char) (names : Names w) : List Char :=
  first ++ names.flatMap fun p => '|' :: p.1

/-- Fewer names, at most as long a field. -/
theorem length_joined_le {first : List Char} {ps names : Names w} (h : ps.Sublist names) {n : ℕ}
    (hfirst : first.length ≤ n) : (joined first ps).length ≤ n + (joined [] names).length := by
  have hnames := (h.flatMap fun p => '|' :: p.1).length_le
  rw [joined, joined, List.length_append, List.nil_append]
  omega

theorem splitOn_joined {first : List Char} (hfirst : '|' ∉ first) {ps : Names w}
    (hps : ∀ p ∈ ps, '|' ∉ p.1) : (joined first ps).splitOn '|' = first :: ps.map Prod.fst := by
  induction ps generalizing first with
  | nil =>
    rw [joined, List.flatMap_nil, List.append_nil, List.splitOn_eq_singleton hfirst]
    rfl
  | cons p ps ih =>
    have hsplit : joined first (p :: ps) = first ++ '|' :: joined p.1 ps := rfl
    rw [hsplit, List.splitOn_append_cons_of_beq _ _ (beq_self_eq_true '|'),
      List.splitOn_eq_singleton hfirst, ih (hps p List.mem_cons_self)
        fun q hq => hps q (List.mem_cons_of_mem p hq)]
    rfl

/-- **A list of names is read back** as the bits they stand for. -/
theorem readField_names (hn : WellNamed names) {first : List Char × BitVec w}
    (hfirst : first ∈ names) {ps : Names w} (hps : ∀ p ∈ ps, p ∈ names) :
    readField names (joined first.1 ps) = some (first.2 ||| unionAll (ps.map Prod.snd)) := by
  have hne : joined first.1 ps ≠ [] :=
    fun hnil => hn.ne_nil first hfirst (List.append_eq_nil_iff.mp hnil).1
  have hmap : (ps.map Prod.fst).mapM (Flags.lookup names) = some (ps.map Prod.snd) := by
    induction ps with
    | nil => rfl
    | cons p ps ih =>
      have hne' : joined first.1 ps ≠ [] :=
        fun hnil => hn.ne_nil first hfirst (List.append_eq_nil_iff.mp hnil).1
      rw [List.map_cons, List.mapM_cons, hn.lookup (hps p List.mem_cons_self),
        ih (fun q hq => hps q (List.mem_cons_of_mem p hq)) hne']
      rfl
  rw [readField, if_neg hne, splitOn_joined (hn.bar first hfirst) fun p hp => hn.bar p (hps p hp),
    List.mapM_cons, hn.lookup hfirst, hmap]
  rfl

/-- **A field with a first name and the names that are set** is read back as the bits of the
value exactly if the first name is its part of them, and no other one is set in part only. -/
theorem readField_eq_iff (hn : WellNamed names) {first : List Char × BitVec w}
    (hfirst : first ∈ names) {ps : Names w} (hps : ∀ p ∈ ps, p ∈ names) {f : BitVec w}
    (hf : first.2 &&& f = first.2) (hfu : f &&& unionAll (ps.map Prod.snd) = 0#w) (v : BitVec w) :
    readField names (joined first.1 (ps.filter (isSet v)))
        = some (v &&& (f ||| unionAll (ps.map Prod.snd))) ↔
      first.2 = v &&& f ∧ ∀ p ∈ ps, isSet v p = true → v &&& p.2 = p.2 := by
  have hsub : unionAll ((ps.filter (isSet v)).map Prod.snd) &&& unionAll (ps.map Prod.snd)
      = unionAll ((ps.filter (isSet v)).map Prod.snd) := by
    rw [BitVec.and_comm, and_eq_right_iff]
    intro i hi
    rw [getLsbD_unionAll] at hi ⊢
    obtain ⟨x, hx, hxi⟩ := hi
    exact ⟨x, List.map_subset _ (List.filter_subset_self ps) hx, hxi⟩
  rw [readField_names hn hfirst fun p hp => hps p (List.mem_of_mem_filter hp), Option.some.injEq,
    or_eq_and_iff hf hsub hfu, unionAll_filter_iff]

/-- **A text that starts with a separator is no field.** -/
theorem readField_bar (hn : WellNamed names) (t : List Char) : readField names ('|' :: t) = none := by
  have hsplit : ('|' :: t).splitOn '|' = [] :: t.splitOn '|' := by
    rw [List.splitOn_cons_eq_if_modifyHead, if_pos (beq_self_eq_true '|')]
  rw [readField, if_neg (List.cons_ne_nil _ _), hsplit, List.mapM_cons, hn.lookup_nil]
  rfl

/-- **Names without a first one** are no field, unless there are none of them. -/
theorem readField_flatMap (hn : WellNamed names) (ps : Names w) :
    readField names (ps.flatMap fun p => '|' :: p.1) = if ps = [] then some 0#w else none := by
  cases ps with
  | nil => rfl
  | cons p ps =>
    rw [List.flatMap_cons, List.cons_append, readField_bar hn, if_neg (List.cons_ne_nil p ps)]

end Flags
