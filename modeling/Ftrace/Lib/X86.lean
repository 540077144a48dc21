/-
# Operands of x86-64 instructions

What a ModRM byte, a SIB byte and a displacement mean in 64-bit addressing: the number of a
register, or an effective address.  An operand is given as the word that starts at its ModRM
byte, so its SIB byte is byte 1 and its displacement follows; six bytes at most, so that a word
holds it all.

Registers are numbers below 16, and a register file is a function of them.  The extension bits
of a REX prefix are added to the numbers by the caller: `rexB` is 8 where the bit is set.
-/
import Ftrace.Lib.Bytes

namespace X86

open Bytes

/-! ## 1. The fields -/

/-- The fields `mod` and `scale`, the two upper bits. -/
def upper (b : BitVec 8) : ℕ := b.toNat / 64

/-- The fields `reg` and `index`, the three bits in the middle. -/
def middle (b : BitVec 8) : ℕ := b.toNat / 8 % 8

/-- The fields `rm` and `base`, the three lower bits. -/
def lower (b : BitVec 8) : ℕ := b.toNat % 8

theorem upper_lt (b : BitVec 8) : upper b < 4 := by
  unfold upper
  omega

theorem middle_lt (b : BitVec 8) : middle b < 8 := Nat.mod_lt _ (by decide)

theorem lower_lt (b : BitVec 8) : lower b < 8 := Nat.mod_lt _ (by decide)

/-- The byte with these fields. -/
theorem toNat_eq_fields (b : BitVec 8) : b.toNat = upper b * 64 + middle b * 8 + lower b := by
  unfold upper middle lower
  omega

/-- The operand is a register. -/
def IsDirect (w : BitVec 64) : Prop := upper (byteOf w 0) = 3

/-- The operand has a SIB byte. -/
def HasSib (w : BitVec 64) : Prop := upper (byteOf w 0) ≠ 3 ∧ lower (byteOf w 0) = 4

/-- The operand is relative to the next instruction. -/
def IsRipRelative (w : BitVec 64) : Prop := upper (byteOf w 0) = 0 ∧ lower (byteOf w 0) = 5

instance (w : BitVec 64) : Decidable (IsDirect w) := inferInstanceAs (Decidable (_ = _))
instance (w : BitVec 64) : Decidable (HasSib w) := inferInstanceAs (Decidable (_ ∧ _))
instance (w : BitVec 64) : Decidable (IsRipRelative w) := inferInstanceAs (Decidable (_ ∧ _))

/-! ## 2. Displacements -/

/-- The sign-extended byte at offset `o`. -/
def disp8 (w : BitVec 64) (o : ℕ) : BitVec 64 := (byteOf w o).signExtend 64

/-- The sign-extended 32-bit number at offset `o`. -/
def disp32 (w : BitVec 64) (o : ℕ) : BitVec 64 := ((w >>> (8 * o)).setWidth 32).signExtend 64

/-- The displacement that `mod` asks for, at offset `o`. -/
def disp (w : BitVec 64) (o : ℕ) : BitVec 64 :=
  if upper (byteOf w 0) = 1 then disp8 w o
  else if upper (byteOf w 0) = 2 then disp32 w o
  else 0

/-! ## 3. Effective addresses -/

section

variable (reg : ℕ → BitVec 64)

/-- The base of a SIB operand; base 5 without a displacement of its own is no base but a 32-bit
displacement. -/
def sibBase (rexB : ℕ) (w : BitVec 64) : BitVec 64 :=
  if lower (byteOf w 1) = 5 ∧ upper (byteOf w 0) = 0 then disp32 w 2
  else reg (lower (byteOf w 1) + rexB)

/-- The scaled index of a SIB byte; index 4 is none. -/
def sibIndex (sib : BitVec 8) : BitVec 64 :=
  (if middle sib = 4 then 0 else reg (middle sib)) * BitVec.ofNat 64 (2 ^ upper sib)

/-- The effective address of an operand in memory, where the next instruction is at `next`. -/
def effAddr (next : BitVec 64) (rexB : ℕ) (w : BitVec 64) : BitVec 64 :=
  if HasSib w then sibIndex reg (byteOf w 1) + sibBase reg rexB w + disp w 2
  else if IsRipRelative w then next + disp32 w 1
  else reg (lower (byteOf w 0) + rexB) + disp w 1

/-- The value of an operand: a register, or the word at its effective address. -/
def operand (next : BitVec 64) (rexB : ℕ) (word : BitVec 64 → Option (BitVec 64))
    (w : BitVec 64) : Option (BitVec 64) :=
  if IsDirect w then some (reg (lower (byteOf w 0) + rexB))
  else word (effAddr reg next rexB w)

end

end X86
