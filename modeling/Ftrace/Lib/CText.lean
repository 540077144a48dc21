/-
# C strings and the conversions of `printf`

A C string is a list of bytes that stops at its first NUL.  A byte is written here as the
character with that code, so a text is a `List Char` whose characters lie below 256; nothing
below depends on that bound.

Two things are proved, and they are what a caller that pads columns or reads an address back
needs: how LONG a numeral can be (`length_hexUp_le`), and that the zero-padded 64-bit form
`%016lX` has exactly sixteen digits and loses nothing (`length_hex16`, `hex16_inj`).
-/
import Mathlib.Data.BitVec
import Mathlib.Data.List.TakeWhile

namespace CText

/-- Bytes in order, each as the character with its code. -/
abbrev Text := List Char

/-- The byte that ends a C string. -/
abbrev nul : Char := '\x00'

/-- What `strlen` and `%s` see of the bytes at a `char *`: everything before the first NUL. -/
def cstr (t : Text) : Text := t.takeWhile (fun c => c != nul)

/-- A byte as a character. -/
def byteChar (b : BitVec 8) : Char := Char.ofNat b.toNat

/-- `strchr (t, c)`: the string from the first `c` on, `none` for a null result.  `c` is
never the terminator here. -/
def strchr (t : Text) (c : Char) : Option Text :=
  match (cstr t).dropWhile (fun d => d != c) with
  | [] => none
  | u => some u

/-! ## 1. C strings -/

theorem nul_not_mem_cstr (t : Text) : nul ∉ cstr t := by
  intro h
  simpa using List.mem_takeWhile_imp h

/-- A text without a NUL is its own C string. -/
theorem cstr_eq_self {t : Text} (h : nul ∉ t) : cstr t = t := by
  refine List.takeWhile_eq_self_iff.mpr ?_
  intro c hc
  simp only [bne_iff_ne]
  rintro rfl
  exact h hc

@[simp] theorem cstr_cstr (t : Text) : cstr (cstr t) = cstr t :=
  cstr_eq_self (nul_not_mem_cstr t)

@[simp] theorem cstr_nil : cstr [] = [] := rfl

theorem cstr_cons_of_ne {c : Char} (h : c ≠ nul) (t : Text) : cstr (c :: t) = c :: cstr t :=
  List.takeWhile_cons_of_pos (by simpa using h)

theorem cstr_cons_nul (t : Text) : cstr (nul :: t) = [] := rfl

/-- A string ends at its first NUL. -/
theorem cstr_append_nul {t : Text} (h : nul ∉ t) (u : Text) : cstr (t ++ nul :: u) = t := by
  induction t with
  | nil => exact cstr_cons_nul u
  | cons c t ih =>
    have hc : c ≠ nul := fun hc => h (hc ▸ List.mem_cons_self)
    rw [List.cons_append, cstr_cons_of_ne hc, ih fun ht => h (List.mem_cons_of_mem _ ht)]

/-- What `strchr` finds starts with the character, and is a C string itself. -/
theorem strchr_eq_some {t u : Text} {c : Char} (h : strchr t c = some u) :
    u.head? = some c ∧ nul ∉ u := by
  simp only [strchr] at h
  split at h
  · cases h
  · rename_i v hne
    obtain rfl := Option.some.inj h
    refine ⟨?_, fun hu => nul_not_mem_cstr t ((List.dropWhile_suffix _).subset hu)⟩
    cases hd : (cstr t).dropWhile (fun d => d != c) with
    | nil => exact absurd hd hne
    | cons d v =>
      have hnot := List.head_dropWhile_not (fun d => d != c) (l := cstr t) (by simp [hd])
      simp only [hd, List.head_cons, bne_eq_false_iff_eq] at hnot
      rw [hnot, List.head?_cons]

/-- What comes before the character and does not have it is passed over. -/
theorem strchr_append {t : Text} {c : Char} (ht : nul ∉ t) (hc : c ∉ t) (u : Text) :
    strchr (t ++ u) c = strchr u c := by
  have hcstr : cstr (t ++ u) = t ++ cstr u := by
    refine List.takeWhile_append_of_pos fun d hd => ?_
    simp only [bne_iff_ne]
    rintro rfl
    exact ht hd
  have hdrop : (t ++ cstr u).dropWhile (fun d => d != c) = (cstr u).dropWhile (fun d => d != c) := by
    refine List.dropWhile_append_of_pos fun d hd => ?_
    simp only [bne_iff_ne]
    rintro rfl
    exact hc hd
  rw [strchr, strchr, hcstr, hdrop]

theorem strchr_cons_self {c : Char} (hc : c ≠ nul) (u : Text) :
    strchr (c :: u) c = some (c :: cstr u) := by
  rw [strchr, cstr_cons_of_ne hc, List.dropWhile_cons_of_neg (by simp)]

/-! ## 2. Numerals -/

/-- `%x`, `%lx`. -/
def hexLow (n : ℕ) : Text := Nat.toDigits 16 n

/-- `%X`, `%lX`. -/
def hexUp (n : ℕ) : Text := (Nat.toDigits 16 n).map Char.toUpper

/-- `%o`. -/
def octal (n : ℕ) : Text := Nat.toDigits 8 n

/-- `%u`, `%lu`. -/
def decNat (n : ℕ) : Text := Nat.toDigits 10 n

/-- `%d`, `%ld`. -/
def decInt (i : ℤ) : Text :=
  if i < 0 then '-' :: Nat.toDigits 10 i.natAbs else Nat.toDigits 10 i.natAbs

/-- One upper-case hexadecimal digit. -/
def hexDigit (d : ℕ) : Char := (Nat.digitChar d).toUpper

/-- The hexadecimal digit of `w` that has `i` digits to its right. -/
def nibble (w : BitVec 64) (i : ℕ) : ℕ := (w.toNat >>> (4 * i)) % 16

/-- `%016lX`. -/
def hex16 (w : BitVec 64) : Text :=
  (List.range 16).map fun i => hexDigit (nibble w (15 - i))

/-- A number below `16 ^ k` is printed with at most `k` digits. -/
theorem length_hexUp_le {n k : ℕ} (hk : 0 < k) (h : n < 16 ^ k) : (hexUp n).length ≤ k := by
  rw [hexUp, List.length_map]
  exact (Nat.length_toDigits_le_iff (by decide) hk).mpr h

/-- The digits of a numeral are digits of its base. -/
theorem mem_toDigits {b n : ℕ} (hb : 1 < b) {c : Char} (h : c ∈ Nat.toDigits b n) :
    ∃ d < b, c = Nat.digitChar d := by
  induction n using Nat.strong_induction_on with
  | _ n ih =>
    rw [Nat.toDigits_eq_if hb] at h
    split at h
    · rename_i hlt
      exact ⟨n, hlt, List.mem_singleton.mp h⟩
    · rename_i hge
      have hn : n / b < n := Nat.div_lt_self (by omega) hb
      rcases List.mem_append.mp h with h | h
      · exact ih _ hn h
      · exact ⟨n % b, Nat.mod_lt _ (by omega), List.mem_singleton.mp h⟩

theorem nul_not_mem_toDigits {b n : ℕ} (hb : 1 < b) (hb16 : b ≤ 16) : nul ∉ Nat.toDigits b n := by
  intro h
  obtain ⟨d, hd, hc⟩ := mem_toDigits hb h
  have hne : ∀ d < 16, nul ≠ Nat.digitChar d := by decide
  exact hne d (by omega) hc

@[simp] theorem nul_not_mem_hexLow (n : ℕ) : nul ∉ hexLow n :=
  nul_not_mem_toDigits (by decide) (by decide)

@[simp] theorem nul_not_mem_octal (n : ℕ) : nul ∉ octal n :=
  nul_not_mem_toDigits (by decide) (by decide)

@[simp] theorem nul_not_mem_decNat (n : ℕ) : nul ∉ decNat n :=
  nul_not_mem_toDigits (by decide) (by decide)

@[simp] theorem nul_not_mem_decInt (i : ℤ) : nul ∉ decInt i := by
  have h : nul ∉ Nat.toDigits 10 i.natAbs := nul_not_mem_toDigits (by decide) (by decide)
  unfold decInt
  split
  · rw [List.mem_cons, not_or]
    exact ⟨by decide, h⟩
  · exact h

theorem mem_hexUp {n : ℕ} {c : Char} (h : c ∈ hexUp n) : ∃ d < 16, c = hexDigit d := by
  obtain ⟨c', hc', rfl⟩ := List.mem_map.mp h
  obtain ⟨d, hd, rfl⟩ := mem_toDigits (by decide) hc'
  exact ⟨d, hd, rfl⟩

@[simp] theorem nul_not_mem_hexUp (n : ℕ) : nul ∉ hexUp n := by
  intro h
  obtain ⟨d, hd, hdig⟩ := mem_hexUp h
  have hne : ∀ d < 16, nul ≠ hexDigit d := by decide
  exact hne d hd hdig

@[simp] theorem length_hex16 (w : BitVec 64) : (hex16 w).length = 16 := by
  simp [hex16]

/-- Two digits that print alike are alike. -/
theorem hexDigit_inj : ∀ a < 16, ∀ b < 16, hexDigit a = hexDigit b → a = b := by
  decide

theorem nibble_lt (w : BitVec 64) (i : ℕ) : nibble w i < 16 := Nat.mod_lt _ (by decide)

/-- Bit `j` of a word sits in digit `j / 4`. -/
theorem testBit_nibble (w : BitVec 64) (j : ℕ) :
    (nibble w (j / 4)).testBit (j % 4) = w.toNat.testBit j := by
  have hj : 4 * (j / 4) + j % 4 = j := Nat.div_add_mod j 4
  have hlt : j % 4 < 4 := Nat.mod_lt _ (by decide)
  have h16 : (16 : ℕ) = 2 ^ 4 := rfl
  rw [nibble, h16, Nat.testBit_mod_two_pow, Nat.testBit_shiftRight, hj]
  simp [hlt]

/-- A word is determined by its sixteen digits. -/
theorem eq_of_nibbles {w v : BitVec 64} (h : ∀ i < 16, nibble w i = nibble v i) : w = v := by
  refine BitVec.eq_of_getLsbD_eq ?_
  intro j hj
  have hd : nibble w (j / 4) = nibble v (j / 4) := h _ (by omega)
  simp only [BitVec.getLsbD]
  rw [← testBit_nibble w j, ← testBit_nibble v j, hd]

/-- **`%016lX` loses nothing**: words that print alike are equal. -/
theorem hex16_inj {w v : BitVec 64} (h : hex16 w = hex16 v) : w = v := by
  refine eq_of_nibbles ?_
  intro i hi
  have hmap := List.map_inj_left.mp h (15 - i) (List.mem_range.mpr (by omega))
  have hdig := hexDigit_inj _ (nibble_lt w _) _ (nibble_lt v _) hmap
  have hii : 15 - (15 - i) = i := by omega
  rwa [hii] at hdig

/-- No digit of `%016lX` is the double quote or a NUL. -/
theorem hexDigit_ne : ∀ d < 16, hexDigit d ≠ '"' ∧ hexDigit d ≠ nul := by
  decide

theorem mem_hex16_ne {w : BitVec 64} {c : Char} (h : c ∈ hex16 w) : c ≠ '"' ∧ c ≠ nul := by
  obtain ⟨i, -, rfl⟩ := List.mem_map.mp h
  exact hexDigit_ne _ (nibble_lt w _)

@[simp] theorem nul_not_mem_hex16 (w : BitVec 64) : nul ∉ hex16 w :=
  fun h => (mem_hex16_ne h).2 rfl

/-! ## 3. `strtol` in base 16 -/

/-- The value of one hexadecimal digit, `none` for any other character. -/
def hexVal (c : Char) : Option ℕ :=
  if '0' ≤ c ∧ c ≤ '9' then some (c.toNat - '0'.toNat)
  else if 'a' ≤ c ∧ c ≤ 'f' then some (c.toNat - 'a'.toNat + 10)
  else if 'A' ≤ c ∧ c ≤ 'F' then some (c.toNat - 'A'.toNat + 10)
  else none

/-- The number written by the hexadecimal digits at the start of a text. -/
def hexRun : ℕ → Text → ℕ
  | acc, [] => acc
  | acc, c :: t =>
    match hexVal c with
    | some d => hexRun (16 * acc + d) t
    | none => acc

/-- `isspace` in the C locale. -/
def isSpace (c : Char) : Bool := c == ' ' || ('\t' ≤ c && c ≤ '\r')

/-- Drop the optional `0x` that base 16 allows; a lone `0` before a non-digit stays. -/
def dropHexMark : Text → Text
  | '0' :: x :: d :: t =>
    if (x == 'x' || x == 'X') && (hexVal d).isSome then d :: t else '0' :: x :: d :: t
  | t => t

/-- `strtol (t, 0, 16)` on a 64-bit `long`: blanks, a sign, digits; a value out of range is
the nearest bound. -/
def strtol16 (t : Text) : ℤ :=
  match (cstr t).dropWhile isSpace with
  | '-' :: u => max (-(hexRun 0 (dropHexMark u) : ℤ)) (-(2 ^ 63))
  | '+' :: u => min (hexRun 0 (dropHexMark u) : ℤ) (2 ^ 63 - 1)
  | u => min (hexRun 0 (dropHexMark u) : ℤ) (2 ^ 63 - 1)

end CText
