/-
# Numerals that are read back

A program prints a number with `printf` and another reads it with `strtol`.  The digits of
`%x`, with or without leading zeros, are read as the number they were printed for, up to the
first character that is no digit (`strtol16_hexPad`); only what does not fit a `long` is lost.  A reader
that goes by the mark in front of a numeral reads `%d`, `%u` and `0x%x` alike (`readNumeral`).  So does
`strtol` in base 10 with what `%u` prints (`strtol10_decNat`).
-/
import Ftrace.Lib.CText
import Mathlib.Tactic.Ring

namespace CText

/-! ## 1. The digits of `%x` -/

theorem hexVal_digitChar : ∀ d < 16, hexVal (Nat.digitChar d) = some d := by decide

theorem digitChar_ne : ∀ d < 16, Nat.digitChar d ≠ '-' ∧ Nat.digitChar d ≠ '+' ∧
    Nat.digitChar d ≠ 'x' ∧ Nat.digitChar d ≠ 'X' ∧ Nat.digitChar d ≠ nul ∧
    isSpace (Nat.digitChar d) = false := by decide

/-- A text of digits as `%x` prints them. -/
def LowDigits (t : Text) : Prop := ∀ c ∈ t, ∃ d < 16, c = Nat.digitChar d

/-- A character that is no such digit is not among them. -/
theorem LowDigits.not_mem {t : Text} (ht : LowDigits t) {c : Char}
    (hc : ∀ d < 16, c ≠ Nat.digitChar d) : c ∉ t := by
  intro h
  obtain ⟨d, hd, rfl⟩ := ht c h
  exact hc d hd rfl

theorem lowDigits_hexLow (n : ℕ) : LowDigits (hexLow n) := fun _ h => mem_toDigits (by decide) h

theorem hexLow_ne_nil (n : ℕ) : hexLow n ≠ [] := by
  rw [hexLow, Nat.toDigits_eq_if (by decide)]
  split
  · exact List.cons_ne_nil _ _
  · exact List.concat_ne_nil _ _

theorem hexRun_digitChar {d : ℕ} (hd : d < 16) (acc : ℕ) (t : Text) :
    hexRun acc (Nat.digitChar d :: t) = hexRun (16 * acc + d) t := by
  rw [hexRun, hexVal_digitChar d hd]

/-- **The digits of `%x` add their number** to what has been read. -/
theorem hexRun_hexLow (acc n : ℕ) (rest : Text) :
    hexRun acc (hexLow n ++ rest) = hexRun (acc * 16 ^ (hexLow n).length + n) rest := by
  induction n using Nat.strong_induction_on generalizing rest with
  | _ n ih =>
    rw [hexLow, Nat.toDigits_eq_if (by decide)]
    split
    · rename_i hlt
      rw [List.singleton_append, hexRun_digitChar hlt, List.length_singleton, Nat.pow_one,
        Nat.mul_comm]
    · rename_i hge
      have hdiv : n / 16 < n := Nat.div_lt_self (by omega) (by decide)
      have hmod : n % 16 < 16 := Nat.mod_lt _ (by decide)
      have hih := ih (n / 16) hdiv (Nat.digitChar (n % 16) :: rest)
      rw [hexLow] at hih
      rw [List.append_assoc, List.singleton_append, hih, hexRun_digitChar hmod,
        List.length_append, List.length_singleton, Nat.pow_succ]
      congr 1
      have hn := Nat.div_add_mod n 16
      calc 16 * (acc * 16 ^ (Nat.toDigits 16 (n / 16)).length + n / 16) + n % 16
          = acc * (16 ^ (Nat.toDigits 16 (n / 16)).length * 16) + (16 * (n / 16) + n % 16) := by ring
        _ = _ := by rw [hn]

/-- `%0kx`. -/
def hexPad (k n : ℕ) : Text := List.replicate (k - (hexLow n).length) '0' ++ hexLow n

theorem lowDigits_hexPad (k n : ℕ) : LowDigits (hexPad k n) := by
  intro c hc
  rcases List.mem_append.mp hc with hc | hc
  · exact ⟨0, by decide, List.eq_of_mem_replicate hc⟩
  · exact lowDigits_hexLow n c hc

theorem hexPad_ne_nil (k n : ℕ) : hexPad k n ≠ [] :=
  List.append_ne_nil_of_right_ne_nil _ (hexLow_ne_nil n)

theorem hexRun_zeros (k : ℕ) (t : Text) : hexRun 0 (List.replicate k '0' ++ t) = hexRun 0 t := by
  induction k with
  | zero => rfl
  | succ k ih =>
    rw [List.replicate_succ, List.cons_append]
    exact ih

theorem hexRun_hexPad (k n : ℕ) (rest : Text) :
    hexRun 0 (hexPad k n ++ rest) = hexRun n rest := by
  rw [hexPad, List.append_assoc, hexRun_zeros, hexRun_hexLow, Nat.zero_mul, Nat.zero_add]

/-! ## 2. What follows them -/

/-- A numeral ends in front of this text. -/
def EndsNumeral (rest : Text) : Prop := ∀ c ∈ rest.head?, hexVal c = none ∧ c ≠ 'x' ∧ c ≠ 'X'

theorem endsNumeral_cons {c : Char} (hc : hexVal c = none ∧ c ≠ 'x' ∧ c ≠ 'X') (t : Text) :
    EndsNumeral (c :: t) := by
  intro c' hc'
  obtain rfl : c = c' := Option.some.inj hc'
  exact hc

theorem hexRun_of_endsNumeral {rest : Text} (h : EndsNumeral rest) (acc : ℕ) :
    hexRun acc rest = acc := by
  cases rest with
  | nil => rfl
  | cons c t => rw [hexRun, (h c rfl).1]

theorem EndsNumeral.cstr {rest : Text} (h : EndsNumeral rest) : EndsNumeral (cstr rest) := by
  cases rest with
  | nil => exact h
  | cons c t =>
    by_cases hc : c = nul
    · rw [hc, cstr_cons_nul]
      exact fun c hc => absurd hc (Option.not_mem_none c)
    · rw [cstr_cons_of_ne hc]
      exact h

/-- A text whose second character is no `x` has no mark. -/
theorem dropHexMark_eq_self {t : Text} (h : ∀ c ∈ t.tail.head?, c ≠ 'x' ∧ c ≠ 'X') :
    dropHexMark t = t := by
  unfold dropHexMark
  split
  · rename_i x d t
    obtain ⟨hlow, hup⟩ := h x rfl
    simp [hlow, hup]
  · rfl

theorem cstr_append_of_lowDigits {t : Text} (h : LowDigits t) (rest : Text) :
    cstr (t ++ rest) = t ++ cstr rest := by
  induction t with
  | nil => rfl
  | cons c t ih =>
    obtain ⟨d, hd, rfl⟩ := h c List.mem_cons_self
    obtain ⟨-, -, -, -, hnul, -⟩ := digitChar_ne d hd
    rw [List.cons_append, cstr_cons_of_ne hnul, ih fun c hc => h c (List.mem_cons_of_mem _ hc)]
    rfl

/-- `strtol` on digits: no blank, no sign and no mark is in the way. -/
theorem strtol16_lowDigits {t rest : Text} (ht : LowDigits t) (hne : t ≠ [])
    (hrest : EndsNumeral rest) :
    strtol16 (t ++ rest) = min (hexRun 0 (t ++ cstr rest) : ℤ) (2 ^ 63 - 1) := by
  obtain ⟨c, t, rfl⟩ := List.exists_cons_of_ne_nil hne
  obtain ⟨d, hd, hc⟩ := ht c List.mem_cons_self
  obtain ⟨hminus, hplus, -, -, -, hspace⟩ := digitChar_ne d hd
  rw [← hc] at hminus hplus hspace
  have hmark : dropHexMark (c :: t ++ cstr rest) = c :: t ++ cstr rest := by
    refine dropHexMark_eq_self fun x hx => ?_
    cases t with
    | nil => exact (hrest.cstr x hx).2
    | cons x' t =>
      obtain rfl : x' = x := Option.some.inj hx
      obtain ⟨d', hd', rfl⟩ := ht x' (List.mem_cons_of_mem _ List.mem_cons_self)
      exact ⟨(digitChar_ne d' hd').2.2.1, (digitChar_ne d' hd').2.2.2.1⟩
  rw [strtol16, cstr_append_of_lowDigits ht, List.cons_append,
    List.dropWhile_cons_of_neg (by simp [hspace])]
  rw [List.cons_append] at hmark
  split
  · rename_i heq
    exact absurd (List.cons.inj heq).1 hminus
  · rename_i heq
    exact absurd (List.cons.inj heq).1 hplus
  · rw [hmark]

/-- **What `%0kx` prints is read back**, unless it does not fit a `long`. -/
theorem strtol16_hexPad (k n : ℕ) {rest : Text} (h : EndsNumeral rest) :
    strtol16 (hexPad k n ++ rest) = min (n : ℤ) (2 ^ 63 - 1) := by
  rw [strtol16_lowDigits (lowDigits_hexPad k n) (hexPad_ne_nil k n) h, hexRun_hexPad,
    hexRun_of_endsNumeral h.cstr]

/-! ## 3. Numerals with a mark -/

/-- The number that a numeral stands for: hexadecimal behind `0x`, decimal otherwise. -/
def readNumeral : Text → ℤ
  | '0' :: 'x' :: t => hexRun 0 t
  | '-' :: t => -(Nat.ofDigitChars 10 t 0)
  | t => Nat.ofDigitChars 10 t 0

theorem readNumeral_hexLow (n : ℕ) : readNumeral ("0x".toList ++ hexLow n) = n := by
  have h := hexRun_hexLow 0 n []
  rw [List.append_nil, Nat.zero_mul, Nat.zero_add] at h
  exact congrArg Nat.cast h

/-- No decimal digit is taken for a mark. -/
theorem readNumeral_decNat (n : ℕ) : readNumeral (decNat n) = n := by
  have hmark : ∀ d < 10, Nat.digitChar d ≠ '-' ∧ Nat.digitChar d ≠ 'x' := by decide
  have hdigit : ∀ c ∈ decNat n, c ≠ '-' ∧ c ≠ 'x' := by
    intro c hc
    obtain ⟨d, hd, rfl⟩ := mem_toDigits (by decide) hc
    exact hmark d hd
  have hvalue : Nat.ofDigitChars 10 (decNat n) 0 = n := Nat.ofDigitChars_ten_toDigits
  unfold readNumeral
  split
  · rename_i t heq
    exact absurd rfl (hdigit 'x' (heq ▸ List.mem_cons_of_mem _ List.mem_cons_self)).2
  · rename_i t heq
    exact absurd rfl (hdigit '-' (heq ▸ List.mem_cons_self)).1
  · rw [hvalue]

theorem readNumeral_decInt (i : ℤ) : readNumeral (decInt i) = i := by
  unfold decInt
  split
  · have hvalue : Nat.ofDigitChars 10 (Nat.toDigits 10 i.natAbs) 0 = i.natAbs :=
      Nat.ofDigitChars_ten_toDigits
    rw [readNumeral, hvalue]
    omega
  · have hvalue := readNumeral_decNat i.natAbs
    rw [decNat] at hvalue
    rw [hvalue]
    omega

/-! ## 4. How long they are -/

theorem length_hexLow_le {n k : ℕ} (hk : 0 < k) (h : n < 16 ^ k) : (hexLow n).length ≤ k :=
  (Nat.length_toDigits_le_iff (by decide) hk).mpr h

theorem length_octal_le {n k : ℕ} (hk : 0 < k) (h : n < 8 ^ k) : (octal n).length ≤ k :=
  (Nat.length_toDigits_le_iff (by decide) hk).mpr h

theorem length_decNat_le {n k : ℕ} (hk : 0 < k) (h : n < 10 ^ k) : (decNat n).length ≤ k :=
  (Nat.length_toDigits_le_iff (by decide) hk).mpr h

/-- A sign, and the digits. -/
theorem length_decInt_le {i : ℤ} {k : ℕ} (hk : 0 < k) (h : i.natAbs < 10 ^ k) :
    (decInt i).length ≤ k + 1 := by
  have hdigits : (Nat.toDigits 10 i.natAbs).length ≤ k := length_decNat_le hk h
  unfold decInt
  split
  · rw [List.length_cons]
    omega
  · omega

/-! ## 5. `strtol` in base 10 -/

/-- The number that the decimal digits at the start of a text write. -/
def decRun (t : Text) : ℕ := Nat.ofDigitChars 10 (t.takeWhile Char.isDigit) 0

/-- `strtol (t, 0, 10)` on a 64-bit `long`. -/
def strtol10 (t : Text) : ℤ :=
  match (cstr t).dropWhile isSpace with
  | '-' :: u => max (-(decRun u : ℤ)) (-(2 ^ 63))
  | '+' :: u => min (decRun u : ℤ) (2 ^ 63 - 1)
  | u => min (decRun u : ℤ) (2 ^ 63 - 1)

/-- The digits of `%u` are a number up to the first character that is no digit. -/
theorem decRun_decNat (n : ℕ) {rest : Text} (h : ∀ c ∈ rest.head?, c.isDigit = false) :
    decRun (decNat n ++ rest) = n := by
  have hdigit : ∀ d < 10, (Nat.digitChar d).isDigit = true := by decide
  have hall : ∀ c ∈ decNat n, c.isDigit = true := by
    intro c hc
    obtain ⟨d, hd, rfl⟩ := mem_toDigits (by decide) hc
    exact hdigit d hd
  have hrest : rest.takeWhile Char.isDigit = [] := by
    cases rest with
    | nil => rfl
    | cons c rest => exact List.takeWhile_cons_of_neg (by rw [h c rfl]; exact Bool.false_ne_true)
  rw [decRun, List.takeWhile_append_of_pos hall, hrest, List.append_nil]
  exact Nat.ofDigitChars_ten_toDigits

/-- **What `%u` prints is read back**, unless it does not fit a `long`. -/
theorem strtol10_decNat (n : ℕ) {rest : Text} (h : ∀ c ∈ rest.head?, c.isDigit = false) :
    strtol10 (decNat n ++ rest) = min (n : ℤ) (2 ^ 63 - 1) := by
  have hlow : LowDigits (decNat n) := by
    intro c hc
    obtain ⟨d, hd, rfl⟩ := mem_toDigits (by decide) hc
    exact ⟨d, by omega, rfl⟩
  have hcstr : ∀ c ∈ (cstr rest).head?, c.isDigit = false := by
    cases rest with
    | nil => simp
    | cons c rest =>
      by_cases hc : c = nul
      · rw [hc, cstr_cons_nul]
        simp
      · rw [cstr_cons_of_ne hc]
        simpa using h c rfl
  obtain ⟨c, t, ht⟩ : ∃ c t, decNat n = c :: t := by
    rw [decNat, Nat.toDigits_eq_if (by decide)]
    split
    · exact ⟨_, _, rfl⟩
    · exact List.exists_cons_of_ne_nil (List.concat_ne_nil _ _)
  obtain ⟨d, hd, hc⟩ := hlow c (ht ▸ List.mem_cons_self)
  obtain ⟨hminus, hplus, -, -, -, hspace⟩ := digitChar_ne d hd
  rw [← hc] at hminus hplus hspace
  have hvalue := decRun_decNat n hcstr
  rw [ht, List.cons_append] at hvalue
  rw [strtol10, cstr_append_of_lowDigits hlow, ht, List.cons_append,
    List.dropWhile_cons_of_neg (by simp [hspace])]
  split
  · rename_i heq
    exact absurd (List.cons.inj heq).1 hminus
  · rename_i heq
    exact absurd (List.cons.inj heq).1 hplus
  · rw [hvalue]

end CText
