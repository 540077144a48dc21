/-
# Telling instructions apart

`type_instruction.c` and the tests `print_instruction` makes on the word at `rip`.  The word
holds the eight bytes at `rip` little-endian, so byte `k` of the instruction is `byteOf w k`.
Each test of the source is followed by the lemma that says which bytes it accepts.
-/
import Ftrace.Tracee

namespace Ftrace

open Bytes

/-- `FAILURE` and `SUCCESS` of `ftrace.h`. -/
def FAILURE : ℤ := -1
def SUCCESS : ℤ := 0

/-- `(unsigned short)ret == 0x050F`, the test for a syscall instruction. -/
def isSyscallWord (ret : Word) : Bool := ret.setWidth 16 = 0x050F#16

/-- `instruction_is_ret`. -/
def instructionIsRet (instruction : Word) : ℤ :=
  let type : BitVec 8 := (instruction &&& 0x00000000000000ff#64).setWidth 8
  if type = 0xCA#8 ∨ type = 0xCB#8 ∨ type = 0xC2#8 ∨ type = 0xC3#8 ∨ type = 0xCF#8 then type.toNat
  else if instruction &&& 0xFFFF#64 = 0xC3F3#64 then type.toNat
  else FAILURE

/-- `instruction_is_call`. -/
def instructionIsCall (instruction : Word) : ℤ :=
  let type : BitVec 8 := (instruction &&& 0x00000000000000ff#64).setWidth 8
  if type = 0xE8#8 ∨ type = 0xFF#8 ∨ type = 0x9A#8 ∨ type = 0x41#8 then type.toNat
  else FAILURE

/-! ## 1. The bytes each test accepts -/

theorem isSyscallWord_iff (w : Word) :
    isSyscallWord w = true ↔ byteOf w 0 = 0x0F#8 ∧ byteOf w 1 = 0x05#8 := by
  simp only [isSyscallWord, decide_eq_true_eq]
  rw [← BitVec.toNat_inj, ← BitVec.toNat_inj, ← BitVec.toNat_inj, toNat_byteOf, toNat_byteOf,
    BitVec.toNat_setWidth]
  simp only [BitVec.toNat_ofNat]
  omega

/-- A byte is not the number the C code signals failure with. -/
theorem toNat_ne_failure (b : BitVec 8) : (b.toNat : ℤ) ≠ FAILURE := by
  simp only [FAILURE]
  omega

/-- The first bytes of `ret`, `retf`, `iret` and `rep ret`. -/
theorem instructionIsRet_iff (w : Word) :
    instructionIsRet w ≠ FAILURE ↔
      byteOf w 0 ∈ [0xCA#8, 0xCB#8, 0xC2#8, 0xC3#8, 0xCF#8] ∨
        (byteOf w 0 = 0xF3#8 ∧ byteOf w 1 = 0xC3#8) := by
  have hrep : w &&& 0xFFFF#64 = 0xC3F3#64 ↔ byteOf w 0 = 0xF3#8 ∧ byteOf w 1 = 0xC3#8 :=
    and_65535_eq_iff w 0xF3#8 0xC3#8
  simp only [instructionIsRet, setWidth_and_255, hrep, List.mem_cons, List.not_mem_nil, or_false]
  split
  · rename_i h
    exact iff_of_true (toNat_ne_failure _) (.inl h)
  · rename_i h
    split
    · rename_i h'
      exact iff_of_true (toNat_ne_failure _) (.inr h')
    · rename_i h'
      exact iff_of_false (fun hc => hc rfl) (fun hc => hc.elim h h')

/-- The first bytes that may start a call. -/
theorem instructionIsCall_iff (w : Word) :
    instructionIsCall w ≠ FAILURE ↔ byteOf w 0 ∈ [0xE8#8, 0xFF#8, 0x9A#8, 0x41#8] := by
  simp only [instructionIsCall, setWidth_and_255, List.mem_cons, List.not_mem_nil, or_false]
  split
  · rename_i h
    exact iff_of_true (toNat_ne_failure _) h
  · rename_i h
    exact iff_of_false (fun hc => hc rfl) h

/-- The guard of `print_instruction`: everything else is not traced at all. -/
def guard (ret : Word) : Bool :=
  isSyscallWord ret || instructionIsRet ret ≠ FAILURE || instructionIsCall ret ≠ FAILURE

/-- The three tests exclude one another: what starts a call is neither a syscall nor a
return. -/
theorem not_syscall_not_ret_of_call {w : Word} (h : instructionIsCall w ≠ FAILURE) :
    isSyscallWord w = false ∧ instructionIsRet w = FAILURE := by
  have hb := (instructionIsCall_iff w).mp h
  simp only [List.mem_cons, List.not_mem_nil, or_false] at hb
  refine ⟨?_, ?_⟩
  · rw [← Bool.not_eq_true, isSyscallWord_iff]
    rintro ⟨h0, -⟩
    rw [h0] at hb
    revert hb
    decide
  · by_contra hr
    have hret := (instructionIsRet_iff w).mp hr
    simp only [List.mem_cons, List.not_mem_nil, or_false] at hret
    revert hb hret
    generalize byteOf w 0 = b
    rintro (rfl | rfl | rfl | rfl) <;> simp

end Ftrace
