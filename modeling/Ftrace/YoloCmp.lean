/-
# The comparison of two names

`yolo_cmp` of `get_symbols.c` passes over the `_` and `@` that a name starts with and compares
the rest with `strcasecmp`.

The two loops stop at the first character that `strchr ("_@", c)` does not find, and `strchr`
finds the NUL at the end of its string as well: a loop over a name of `_` and `@` only goes on
behind the name.  `yoloOk_iff` says that the function is right for all other pairs of names.

A pointer is the text from it to the end of what can be read, as in `textAt`, and a read behind
that is `none`.  The number of bytes that are read of each name is counted.
-/
import Ftrace.SortOrder

namespace Ftrace

open CText Compare

/-! ## 1. `yolo_cmp` -/

/-- `strchr (s, c)` is not null: the end of the string is found too. -/
def strchrFinds (s : Text) (c : Char) : Bool := (cstr s ++ [nul]).contains c

/-- `while (strchr ("_@", *a)) ++a;`: the characters passed over, and where it stops. -/
def skipLoop : Text → Option (ℕ × Text)
  | [] => none
  | c :: a =>
    if strchrFinds "_@".toList c then (skipLoop a).map fun r => (r.1 + 1, r.2)
    else some (0, c :: a)

/-- `strcasecmp`: its result, and the characters it reads of each string. -/
def strcasecmp : Text → Text → Option (ℤ × ℕ)
  | a :: x, b :: y =>
    let d := (a.toLower.toNat : ℤ) - b.toLower.toNat
    if d ≠ 0 ∨ a = nul then some (d, 1) else (strcasecmp x y).map fun r => (r.1, r.2 + 1)
  | _, _ => none

/-- A run of `yolo_cmp`: its result, and the characters it has read of each name. -/
structure YoloRun where
  result : ℤ
  readA : ℕ
  readB : ℕ
  deriving DecidableEq

/-- `yolo_cmp (a, b)`. -/
def yoloCmp (a b : Text) : Option YoloRun := do
  let (i, a) ← skipLoop a
  let (j, b) ← skipLoop b
  let (result, n) ← strcasecmp a b
  some ⟨result, i + n, j + n⟩

/-- The comparison ends, reads nothing behind the end of either name, and comes out as the order
of the names. -/
def YoloOk (a b : Text) : Prop :=
  ∃ r ∈ yoloCmp a b, r.readA ≤ (cstr a).length + 1 ∧ r.readB ≤ (cstr b).length + 1 ∧
    r.result.sign = (yoloOrder a b).sign

instance (a b : Text) : Decidable (YoloOk a b) := inferInstanceAs (Decidable (∃ r ∈ _, _))

/-- A character that `yolo_cmp` is meant to pass over. -/
def isLead (c : Char) : Bool := c == '_' || c == '@'

/-- The name has a character that is compared. -/
def HasLetter (t : Text) : Prop := ∃ c ∈ cstr t, isLead c = false

/-! ## 2. The skipping loops -/

theorem strchrFinds_lead (c : Char) : strchrFinds "_@".toList c = (isLead c || c == nul) := by
  have hset : cstr "_@".toList ++ [nul] = ['_', '@', nul] := by decide
  rw [strchrFinds, hset, isLead]
  simp only [List.contains_cons, List.contains_nil, Bool.or_false, Bool.or_assoc]

theorem skipLoop_cons (c : Char) (a : Text) :
    skipLoop (c :: a) = if isLead c || c == nul then (skipLoop a).map fun r => (r.1 + 1, r.2)
      else some (0, c :: a) := by
  rw [skipLoop, strchrFinds_lead]

theorem not_hasLetter_nul (t : Text) : ¬ HasLetter (nul :: t) := by
  rintro ⟨c, hc, -⟩
  cases hc

theorem hasLetter_cons {c : Char} (h : c ≠ nul) (t : Text) :
    HasLetter (c :: t) ↔ isLead c = false ∨ HasLetter t := by
  rw [HasLetter, HasLetter, cstr_cons_of_ne h]
  simp only [List.mem_cons, exists_eq_or_imp]

/-- **A name with a letter**: the loop stops at the first one. -/
theorem skipLoop_of_hasLetter {t : Text} (hnul : nul ∈ t) (h : HasLetter t) :
    ∃ k u, skipLoop t = some (k, u) ∧ nul ∈ u ∧ cstr u = (cstr t).dropWhile isLead ∧
      k + (cstr u).length = (cstr t).length := by
  induction t with
  | nil => cases hnul
  | cons c t ih =>
    by_cases hc : c = nul
    · exact absurd h (hc ▸ not_hasLetter_nul t)
    · have hnul' : nul ∈ t := (List.mem_cons.mp hnul).resolve_left (Ne.symm hc)
      have hne : (c == nul) = false := beq_eq_false_iff_ne.mpr hc
      rw [skipLoop_cons, hne, Bool.or_false, cstr_cons_of_ne hc]
      cases hlead : isLead c with
      | true =>
        have ht : HasLetter t := by
          rcases (hasLetter_cons hc t).mp h with hfalse | ht
          · rw [hlead] at hfalse
            cases hfalse
          · exact ht
        obtain ⟨k, u, hskip, hu, hcstr, hlen⟩ := ih hnul' ht
        refine ⟨k + 1, u, ?_, hu, ?_, ?_⟩
        · rw [if_pos rfl, hskip]
          rfl
        · rw [List.dropWhile_cons_of_pos hlead, hcstr]
        · rw [List.length_cons]
          omega
      | false =>
        refine ⟨0, c :: t, if_neg Bool.false_ne_true, hnul, ?_, ?_⟩
        · rw [cstr_cons_of_ne hc, List.dropWhile_cons_of_neg (by rw [hlead]; decide)]
        · rw [cstr_cons_of_ne hc, Nat.zero_add]

/-- **A name without one**: the loop passes over its end. -/
theorem skipLoop_of_not_hasLetter {t : Text} (hnul : nul ∈ t) (h : ¬ HasLetter t) {k : ℕ}
    {u : Text} (hskip : skipLoop t = some (k, u)) : (cstr t).length < k := by
  induction t generalizing k with
  | nil => cases hnul
  | cons c t ih =>
    have hpass : (isLead c || c == nul) = true := by
      by_cases hc : c = nul
      · rw [hc]
        rfl
      · cases hlead : isLead c with
        | true => rfl
        | false => exact absurd ((hasLetter_cons hc t).mpr (.inl hlead)) h
    rw [skipLoop_cons, if_pos hpass] at hskip
    obtain ⟨⟨k', u'⟩, hrest, heq⟩ := Option.map_eq_some_iff.mp hskip
    obtain ⟨rfl, rfl⟩ := Prod.mk.inj heq
    by_cases hc : c = nul
    · rw [hc, cstr_cons_nul]
      exact Nat.succ_pos k'
    · have hnul' : nul ∈ t := (List.mem_cons.mp hnul).resolve_left (Ne.symm hc)
      have ht : ¬ HasLetter t := fun ht => h ((hasLetter_cons hc t).mpr (.inr ht))
      rw [cstr_cons_of_ne hc, List.length_cons]
      exact Nat.succ_lt_succ (ih hnul' ht hrest)

/-! ## 3. `strcasecmp` -/

theorem toLower_pos {c : Char} (h : c ≠ nul) : 0 < c.toLower.toNat := by
  have hpos : 0 < c.toNat := by
    refine Nat.pos_of_ne_zero ?_
    intro hzero
    exact h (Char.toNat_inj.mp hzero)
  by_cases hupper : c.val ≥ 'A'.val ∧ c.val ≤ 'Z'.val
  · have hle : c.val.toNat ≤ 90 := hupper.2
    have hadd : (c.val + ('a'.val - 'A'.val)).toNat = c.val.toNat + 32 := by
      have hdist : ('a'.val - 'A'.val).toNat = 32 := rfl
      rw [UInt32.toNat_add, hdist, Nat.mod_eq_of_lt (by omega)]
    have hval : c.toLower.val = c.val + ('a'.val - 'A'.val) := congrArg Char.val (dif_pos hupper)
    have htoNat : c.toLower.toNat = c.val.toNat + 32 := (congrArg UInt32.toNat hval).trans hadd
    omega
  · have hsame : c.toLower = c := dif_neg hupper
    rwa [hsame]

/-- A string as `strcasecmp` sees it. -/
def lowerText (t : Text) : List ℕ := (cstr t).map fun c => c.toLower.toNat

theorem lowerText_nul (t : Text) : lowerText (nul :: t) = [] := rfl

theorem lowerText_cons {c : Char} (h : c ≠ nul) (t : Text) :
    lowerText (c :: t) = c.toLower.toNat :: lowerText t := by
  rw [lowerText, cstr_cons_of_ne h, List.map_cons, lowerText]

/-- What `strcasecmp` makes of the first characters: a difference, or the end of both. -/
theorem strcasecmp_stop {a b : Char} (x y : Text)
    (h : (a.toLower.toNat : ℤ) - b.toLower.toNat ≠ 0 ∨ a = nul) :
    strcasecmp (a :: x) (b :: y) = some ((a.toLower.toNat : ℤ) - b.toLower.toNat, 1) := by
  rw [strcasecmp]
  exact if_pos h

theorem strcasecmp_go {a b : Char} (x y : Text) (ha : a ≠ nul)
    (h : a.toLower.toNat = b.toLower.toNat) :
    strcasecmp (a :: x) (b :: y) = (strcasecmp x y).map fun r => (r.1, r.2 + 1) := by
  rw [strcasecmp]
  refine if_neg ?_
  rintro (hd | hd)
  · exact hd (by omega)
  · exact ha hd

/-- It reads something. -/
theorem strcasecmp_pos {x y : Text} {r : ℤ} {n : ℕ} (h : strcasecmp x y = some (r, n)) : 0 < n := by
  cases x with
  | nil => cases h
  | cons a x =>
    cases y with
    | nil => cases h
    | cons b y =>
      rw [strcasecmp] at h
      split at h
      · obtain ⟨-, rfl⟩ := Prod.mk.inj (Option.some.inj h)
        exact Nat.one_pos
      · obtain ⟨⟨r', n'⟩, -, heq⟩ := Option.map_eq_some_iff.mp h
        obtain ⟨-, rfl⟩ := Prod.mk.inj heq
        exact Nat.succ_pos n'

/-- **`strcasecmp` stays within both strings**, and has the sign of their first difference. -/
theorem strcasecmp_spec {x y : Text} (hx : nul ∈ x) (hy : nul ∈ y) :
    ∃ r n, strcasecmp x y = some (r, n) ∧ n ≤ (cstr x).length + 1 ∧ n ≤ (cstr y).length + 1 ∧
      r.sign = (lex (lowerText x) (lowerText y)).sign := by
  have hlower0 : nul.toLower.toNat = 0 := by decide
  induction x generalizing y with
  | nil => cases hx
  | cons a x ih =>
    cases y with
    | nil => cases hy
    | cons b y =>
      by_cases ha : a = nul
      · subst ha
        refine ⟨_, 1, strcasecmp_stop x y (.inr rfl), by omega, by omega, ?_⟩
        rw [lowerText_nul, hlower0]
        by_cases hb : b = nul
        · rw [hb]
          rfl
        · have hneg : ((0 : ℕ) : ℤ) - b.toLower.toNat < 0 := by
            have hpos := toLower_pos hb
            omega
          rw [lowerText_cons hb, Int.sign_eq_neg_one_of_neg hneg]
          rfl
      · have hposa := toLower_pos ha
        rw [lowerText_cons ha]
        by_cases hb : b = nul
        · subst hb
          have hpos : 0 < (a.toLower.toNat : ℤ) - nul.toLower.toNat := by omega
          refine ⟨_, 1, strcasecmp_stop x y (.inl hpos.ne'), by omega, by omega, ?_⟩
          rw [lowerText_nul, Int.sign_eq_one_of_pos hpos]
          rfl
        · rw [lowerText_cons hb, lex]
          by_cases heq : a.toLower.toNat = b.toLower.toNat
          · have hx' : nul ∈ x := (List.mem_cons.mp hx).resolve_left (Ne.symm ha)
            have hy' : nul ∈ y := (List.mem_cons.mp hy).resolve_left (Ne.symm hb)
            obtain ⟨r, n, hrest, hnx, hny, hsign⟩ := ih hx' hy'
            rw [strcasecmp_go x y ha heq, hrest, if_pos heq, cstr_cons_of_ne ha,
              cstr_cons_of_ne hb]
            exact ⟨r, n + 1, rfl, Nat.succ_le_succ hnx, Nat.succ_le_succ hny, hsign⟩
          · have hd : (a.toLower.toNat : ℤ) - b.toLower.toNat ≠ 0 := by omega
            refine ⟨_, 1, strcasecmp_stop x y (.inl hd), by omega, by omega, ?_⟩
            rw [if_neg heq]

/-! ## 4. The comparison -/

/-- A comparison that ends has passed both loops and the comparison of the rest. -/
theorem yoloCmp_eq_some {a b : Text} {r : YoloRun} (h : yoloCmp a b = some r) :
    ∃ i a' j b' n, skipLoop a = some (i, a') ∧ skipLoop b = some (j, b') ∧
      strcasecmp a' b' = some (r.result, n) ∧ r.readA = i + n ∧ r.readB = j + n := by
  obtain ⟨⟨i, a'⟩, ha, h⟩ := Option.bind_eq_some_iff.mp h
  obtain ⟨⟨j, b'⟩, hb, h⟩ := Option.bind_eq_some_iff.mp h
  obtain ⟨⟨res, n⟩, hc, h⟩ := Option.bind_eq_some_iff.mp h
  obtain rfl := Option.some.inj h
  exact ⟨i, a', j, b', n, ha, hb, hc, rfl, rfl⟩

/-- **`yolo_cmp` is right** for two names that have something to compare: it ends within them,
and with the sign of the order of the names, which is a total preorder.  If one of them is
empty, or made of `_` and `@` only, it reads behind its end. -/
theorem yoloOk_iff {a b : Text} (ha : nul ∈ a) (hb : nul ∈ b) :
    (YoloOk a b ↔ HasLetter a ∧ HasLetter b) ∧ Comparator yoloOrder := by
  refine ⟨?_, comparator_yoloOrder⟩
  constructor
  · rintro ⟨r, hr, hreadA, hreadB, -⟩
    obtain ⟨i, a', j, b', n, hskipA, hskipB, hcmp, hi, hj⟩ := yoloCmp_eq_some hr
    have hn := strcasecmp_pos hcmp
    constructor
    · by_contra hno
      have hlt := skipLoop_of_not_hasLetter ha hno hskipA
      omega
    · by_contra hno
      have hlt := skipLoop_of_not_hasLetter hb hno hskipB
      omega
  · rintro ⟨hla, hlb⟩
    obtain ⟨i, a', hskipA, hnulA, hcstrA, hlenA⟩ := skipLoop_of_hasLetter ha hla
    obtain ⟨j, b', hskipB, hnulB, hcstrB, hlenB⟩ := skipLoop_of_hasLetter hb hlb
    obtain ⟨res, n, hcmp, hna, hnb, hsign⟩ := strcasecmp_spec hnulA hnulB
    have hrun : yoloCmp a b = some ⟨res, i + n, j + n⟩ := by
      simp only [yoloCmp, hskipA, hskipB, hcmp, Option.bind_eq_bind, Option.bind_some]
    have hkeyA : lowerText a' = yoloKey a := by rw [lowerText, hcstrA]; rfl
    have hkeyB : lowerText b' = yoloKey b := by rw [lowerText, hcstrB]; rfl
    refine ⟨_, hrun, ?_, ?_, ?_⟩
    · show i + n ≤ (cstr a).length + 1
      omega
    · show j + n ≤ (cstr b).length + 1
      omega
    · rw [yoloOrder, ← hkeyA, ← hkeyB]
      exact hsign

/-- Two names that follow each other in a string table. -/
theorem yoloOk_iff_init : YoloOk "_init\x00main\x00".toList "main\x00".toList :=
  (yoloOk_iff (by decide) (by decide)).1.mpr
    ⟨⟨'i', by decide, by decide⟩, 'm', by decide, by decide⟩

/-- **The name `_`** is compared as `zero`, the name behind it, and comes out greater than
`main`, though nothing of it is left to compare.  At the end of the table the loop leaves it. -/
theorem yoloOk_fails :
    (yoloCmp "_\x00zero\x00".toList "main\x00".toList).map YoloRun.result = some 13 ∧
      yoloOrder "_\x00zero\x00".toList "main\x00".toList = -1 ∧
      ¬ YoloOk "_\x00zero\x00".toList "main\x00".toList ∧
    yoloCmp "_\x00".toList "main\x00".toList = none ∧
      ¬ YoloOk "_\x00".toList "main\x00".toList := by
  decide +kernel

end Ftrace
