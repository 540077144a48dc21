/-
# Where calls go

`print_call` decodes a call and returns its target.  Here that target is compared with the one
the architecture defines, for each of the three kinds of calls that it knows:

* `relativeTarget_eq`: `E8`, a relative call; the two byte swaps and four shifts are the
  displacement, for every word;
* `sibTarget_iff`: `FF /2` with a SIB byte, without a prefix or behind 0x41;
* `plainTarget_iff`: `FF /2` without one.

The last two hold under a condition only.  A wrong row of a table shows in exactly one encoding,
and the condition names it.
-/
import Ftrace.Operands

namespace Ftrace

open Bytes

/-! ## 1. Relative calls -/

/-- `my_bswap` reverses the bytes. -/
theorem byteOf_myBswap (n : Word) {k : ℕ} (hk : k < 8) :
    byteOf (myBswap n) k = byteOf n (7 - k) := by
  unfold myBswap
  rw [byteOf_leNat _ hk]
  simp [List.getD, hk]

/-- **The chain of swaps and shifts** takes bytes 1 to 4 out of the word. -/
theorem relativeAddr_eq (w : Word) (regs : UserRegs) :
    relativeAddr w regs = regs.rip + 5 + X86.disp32 w 1 := by
  have hlow : (myBswap (((myBswap w <<< 8) >>> 8) >>> 24) >>> 32).setWidth 32
      = (w >>> (8 * 1)).setWidth 32 := by
    refine setWidth_32_congr ?_
    intro k hk
    have h32 (x : Word) : byteOf (x >>> 32) k = byteOf x (4 + k) := byteOf_shiftRight x 4 k
    have h24 (x : Word) (j : ℕ) : byteOf (x >>> 24) j = byteOf x (3 + j) := byteOf_shiftRight x 3 j
    have hidx : 7 - (3 + (7 - (4 + k))) = 1 + k := by omega
    rw [h32, byteOf_myBswap _ (by omega), h24, byteOf_shiftLeft_shiftRight _ (by omega),
      byteOf_myBswap _ (by omega), byteOf_shiftRight, hidx]
  simp only [relativeAddr, hlow, X86.disp32]

theorem printCall_of_e8 {w : Word} (h : byteOf w 0 = 0xE8#8) (mem : Mem) (regs : UserRegs) :
    printCall mem w regs = printRelative w regs := by
  have h8 : w.setWidth 8 = 0xE8#8 := by simpa [byteOf] using h
  rw [printCall, if_pos h8]

/-- **Relative calls** go to `rip + 5` plus the signed number in bytes 1 to 4, whatever the
other bytes of the word are. -/
theorem relativeTarget_eq {w : Word} (h : byteOf w 0 = 0xE8#8) (regs : UserRegs) :
    (∀ mem, (printCall mem w regs).addr = regs.rip + 5 + X86.disp32 w 1) ∧
      ∀ w', (∀ k < 5, byteOf w' k = byteOf w k) →
        ∀ mem mem', (printCall mem' w' regs).addr = (printCall mem w regs).addr := by
  have haddr {w : Word} (h : byteOf w 0 = 0xE8#8) (mem : Mem) :
      (printCall mem w regs).addr = regs.rip + 5 + X86.disp32 w 1 := by
    rw [printCall_of_e8 h]
    exact relativeAddr_eq w regs
  refine ⟨haddr h, ?_⟩
  intro w' hw' mem mem'
  have hlow : (w' >>> (8 * 1)).setWidth 32 = (w >>> (8 * 1)).setWidth 32 := by
    refine setWidth_32_congr ?_
    intro k hk
    rw [byteOf_shiftRight, byteOf_shiftRight, hw' (1 + k) (by omega)]
  rw [haddr h mem, haddr ((hw' 0 (by decide)).trans h) mem', X86.disp32, X86.disp32, hlow]

/-- A call to the instruction itself, with three other bytes behind it. -/
theorem relativeTarget_eq_back :
    (printCall Mem.empty 0x909090FFFFFFFBE8 { rip := 0x1000 }).addr = 0x1000 ∧
      (printCall Mem.empty 0x000000FFFFFFFBE8 { rip := 0x1000 }).addr
        = (printCall Mem.empty 0x909090FFFFFFFBE8 { rip := 0x1000 }).addr := by
  have h : byteOf 0x909090FFFFFFFBE8 0 = 0xE8#8 := by decide
  obtain ⟨haddr, hrest⟩ := relativeTarget_eq h { rip := 0x1000 }
  exact ⟨(haddr Mem.empty).trans (by decide), hrest _ (by decide) Mem.empty Mem.empty⟩

/-! ## 2. Indirect calls -/

/-- `FF /2`, or the same behind the prefix 0x41. -/
def IsIndirectCall (w : Word) : Prop :=
  (byteOf w 0 = 0xFF#8 ∧ X86.middle (byteOf w 1) = 2) ∨
    (byteOf w 0 = 0x41#8 ∧ byteOf w 1 = 0xFF#8 ∧ X86.middle (byteOf w 2) = 2)

instance (w : Word) : Decidable (IsIndirectCall w) := inferInstanceAs (Decidable (_ ∨ _))

/-- The prefix extends the number of the base register. -/
def extOf (w : Word) : Bool := byteOf w 0 = 0x41#8

/-- The word that starts at the ModRM byte. -/
def operandOf (w : Word) : Word := if extOf w then w >>> 16 else w >>> 8

theorem isACall_of_middle {b : BitVec 8} (h : X86.middle b = 2) : isACall b = true := by
  have hall : ∀ b : BitVec 8, X86.middle b = 2 → isACall b = true := by decide +kernel
  exact hall b h

/-- The calls are the relative and the indirect ones. -/
theorem isCallWord_iff (w : Word) : IsCallWord w ↔ byteOf w 0 = 0xE8#8 ∨ IsIndirectCall w := by
  have hmid (b : BitVec 8) : X86.middle b = 2 ↔ modrmReg b = 2#8 :=
    ⟨fun h => (isACall_iff b).mp (isACall_of_middle h),
      fun h => middle_of_isACall ((isACall_iff b).mpr h)⟩
  simp only [IsCallWord, IsIndirectCall, hmid]

theorem IsIndirectCall.isACall {w : Word} (h : IsIndirectCall w) :
    isACall (byteOf (operandOf w) 0) = true := by
  unfold operandOf extOf
  rcases h with ⟨h0, hmid⟩ | ⟨h0, -, hmid⟩
  · have hne : ¬ decide (byteOf w 0 = 0x41#8) = true := by
      rw [h0]
      decide
    rw [if_neg hne]
    exact isACall_of_middle (by rwa [show w >>> 8 = w >>> (8 * 1) from rfl, byteOf_shiftRight])
  · rw [if_pos (decide_eq_true h0)]
    exact isACall_of_middle (by rwa [show w >>> 16 = w >>> (8 * 2) from rfl, byteOf_shiftRight])

theorem IsIndirectCall.printCall_eq {w : Word} (h : IsIndirectCall w) (mem : Mem)
    (regs : UserRegs) :
    printCall mem w regs
      = printIndirect mem (prefixOf (extOf w)) (operandOf w) (rexOf (extOf w)) regs := by
  unfold operandOf extOf
  rcases printCall_cases mem w regs with ⟨h0, -⟩ | ⟨h0, hp⟩ | ⟨⟨h0, -⟩, hp⟩ | ⟨⟨-, hff, h41⟩, -⟩
  · rcases h with ⟨h, -⟩ | ⟨h, -⟩
    · exact absurd (h0.symm.trans h) (by decide)
    · exact absurd (h0.symm.trans h) (by decide)
  · rw [hp, h0]
    rfl
  · rw [hp, h0]
    rfl
  · rcases h with ⟨h, -⟩ | ⟨h, h', -⟩
    · exact absurd h hff
    · exact absurd ⟨h, h'⟩ h41

/-- The address of the next instruction, for an operand relative to it. -/
def nextInstr (w : Word) (regs : UserRegs) : Word := regs.rip + if extOf w then 7 else 6

/-- The effective address of an operand in memory. -/
def archAddr (w : Word) (regs : UserRegs) : Word :=
  X86.effAddr (gprFile regs) (nextInstr w regs) (extB (extOf w)) (operandOf w)

/-- The target of an indirect call, where the memory it reads is mapped. -/
def archTarget (mem : Mem) (w : Word) (regs : UserRegs) : Option Word :=
  X86.operand (gprFile regs) (nextInstr w regs) (extB (extOf w)) mem.word (operandOf w)

/-- Some memory gives the call a target. -/
def Reaches (w : Word) (regs : UserRegs) : Prop := ∃ mem, (archTarget mem w regs).isSome

/-- `print_call` returns the target, for every memory that gives the call one. -/
def TargetOk (w : Word) (regs : UserRegs) : Prop :=
  ∀ mem target, archTarget mem w regs = some target → (printCall mem w regs).addr = target

theorem archTarget_of_memory {w : Word} (hd : ¬ X86.IsDirect (operandOf w)) (mem : Mem)
    (regs : UserRegs) : archTarget mem w regs = mem.word (archAddr w regs) := if_neg hd

/-- **A call through memory** is resolved for every memory if the code reads at the right
address. -/
theorem targetOk_iff_addr {w : Word} {regs : UserRegs} (hcall : IsIndirectCall w)
    (hd : ¬ X86.IsDirect (operandOf w)) (hr : Reaches w regs) :
    TargetOk w regs ↔ codeAddr (extOf w) (operandOf w) regs = archAddr w regs := by
  have haddr (mem : Mem) :
      (printCall mem w regs).addr = mem.peek (codeAddr (extOf w) (operandOf w) regs) := by
    rw [hcall.printCall_eq, printIndirect_addr hcall.isACall, if_neg hd]
  constructor
  · intro h
    by_contra hne
    obtain ⟨mem₀, hmem₀⟩ := hr
    rw [archTarget_of_memory hd] at hmem₀
    -- a memory that tells the two addresses apart
    obtain ⟨mem, target, hword, hpeek⟩ := exists_mem_ne ⟨mem₀, hmem₀⟩ hne
    have hgot := h mem target ((archTarget_of_memory hd mem regs).trans hword)
    rw [haddr mem] at hgot
    exact hpeek hgot
  · intro heq mem target htarget
    rw [archTarget_of_memory hd] at htarget
    rw [haddr mem, heq, Mem.peek_of_word htarget]

/-! ## 3. Operands with a SIB byte -/

/-- The base is one whose row is right, or the wrong row makes no difference. -/
def SibRight (w : Word) (regs : UserRegs) : Prop :=
  (X86.lower (byteOf (operandOf w) 1) = 3 ∧ extOf w = false → regs.rcx = regs.rbx) ∧
    (X86.lower (byteOf (operandOf w) 1) = 5 →
      if X86.upper (byteOf (operandOf w) 0) = 0 then X86.disp32 (operandOf w) 2 = 0
      else gprFile regs (5 + extB (extOf w)) = 0)

theorem codeBase_eq_sibBase_iff (w : Word) (regs : UserRegs) :
    codeBase (extOf w) (byteOf (operandOf w) 1) regs
        = X86.sibBase (gprFile regs) (extB (extOf w)) (operandOf w) ↔ SibRight w regs := by
  unfold codeBase X86.sibBase SibRight
  by_cases h5 : X86.lower (byteOf (operandOf w) 1) = 5
  · have h3 : X86.lower (byteOf (operandOf w) 1) = 3 ∧ extOf w = false → regs.rcx = regs.rbx :=
      fun h => absurd (h5.symm.trans h.1) (by decide)
    rw [if_pos h5, and_iff_right h3]
    simp only [h5, true_and, forall_const]
    split <;> exact eq_comm
  · have hn5 : ¬ (X86.lower (byteOf (operandOf w) 1) = 5 ∧
        X86.upper (byteOf (operandOf w) 0) = 0) := fun h => h5 h.1
    rw [if_neg h5, if_neg hn5]
    simp only [h5, false_implies, and_true]
    by_cases h3 : X86.lower (byteOf (operandOf w) 1) = 3 ∧ extOf w = false
    · have hrbx : gprFile regs (X86.lower (byteOf (operandOf w) 1) + extB (extOf w)) = regs.rbx := by
        rw [h3.1, h3.2]
        rfl
      rw [if_pos h3, hrbx]
      exact ⟨fun h _ => h, fun h => h h3⟩
    · rw [if_neg h3]
      exact iff_of_true rfl fun h => absurd h h3

/-- **Calls through a SIB operand** go where the architecture says, but for two bases: `rbx` is
read as `rcx`, and base 5 as nothing, where it is a 32-bit displacement or `rbp` (`r13`). -/
theorem sibTarget_iff {w : Word} {regs : UserRegs} (hcall : IsIndirectCall w)
    (hsib : X86.HasSib (operandOf w)) (hr : Reaches w regs) :
    TargetOk w regs ↔ SibRight w regs := by
  rw [targetOk_iff_addr hcall hsib.1 hr, ← codeBase_eq_sibBase_iff]
  unfold codeAddr archAddr X86.effAddr
  rw [if_pos hsib, if_pos hsib]
  constructor
  · intro h
    exact add_left_cancel (add_right_cancel h)
  · intro h
    rw [h]

/-- `call [rdi + rax*8]`. -/
theorem sibTarget_iff_rdi :
    TargetOk 0xC714FF { rdi := 0x1000, rax := 2 } :=
  (sibTarget_iff (by decide) (by decide) ⟨Mem.mark 0x1010, by decide⟩).mpr
    ⟨by decide, by decide⟩

/-- `call [rax*8 + 0x1000]`, the form of a table of functions, and `call [rbx]` with an index. -/
theorem sibTarget_fails :
    (archTarget (Mem.mark 0x1000) 0x1000C514FF {} = some 1 ∧
        (printCall (Mem.mark 0x1000) 0x1000C514FF {}).addr = 0) ∧
      (archTarget (Mem.mark 0x1000) 0xC314FF { rbx := 0x1000 } = some 1 ∧
        (printCall (Mem.mark 0x1000) 0xC314FF { rbx := 0x1000 }).addr = 0) := by
  decide

/-! ## 4. Operands without a SIB byte -/

/-- A register is called: its row is right. -/
theorem targetOk_direct {w : Word} {regs : UserRegs} (hcall : IsIndirectCall w)
    (hd : X86.IsDirect (operandOf w)) (hne : ¬ (extOf w = true ∧ byteOf (operandOf w) 0 = 0x17#8)) :
    TargetOk w regs := by
  intro mem target htarget
  have hup : X86.upper (byteOf (operandOf w) 0) = 3 := hd
  have hcode : codeReg (extOf w) (byteOf (operandOf w) 0)
      = gpr (X86.lower (byteOf (operandOf w) 0) + extB (extOf w)) := by
    unfold codeReg
    rw [if_neg (fun h => absurd (hup.symm.trans h.1) (by decide)), if_neg hne]
  rw [archTarget, X86.operand, if_pos hd] at htarget
  rw [hcall.printCall_eq, printIndirect_addr hcall.isACall, if_pos hd, hcode]
  exact Option.some.inj htarget

/-- An operand relative to `rip`: the length that is added is that of the instruction. -/
theorem codeAddr_ripRelative {w : Word} (regs : UserRegs) (hsib : ¬ X86.HasSib (operandOf w))
    (hrip : X86.IsRipRelative (operandOf w)) :
    codeAddr (extOf w) (operandOf w) regs = archAddr w regs := by
  have hlen : (6 : Word) + (rexOf (extOf w)).signExtend 64 = if extOf w then 7 else 6 := by
    cases extOf w <;> rfl
  unfold codeAddr archAddr X86.effAddr
  rw [if_neg hsib, if_neg hsib, if_pos hrip, if_pos hrip, hlen, nextInstr]
  exact add_right_comm _ _ _

/-- A register and a displacement: one row reads another register. -/
theorem codeAddr_eq_iff {w : Word} (regs : UserRegs) (hsib : ¬ X86.HasSib (operandOf w))
    (hrip : ¬ X86.IsRipRelative (operandOf w)) :
    codeAddr (extOf w) (operandOf w) regs = archAddr w regs ↔
      ¬ (extOf w = true ∧ byteOf (operandOf w) 0 = 0x17#8) ∨ regs.r14 = regs.r15 := by
  have hnrip : ¬ (X86.upper (byteOf (operandOf w) 0) = 0 ∧
      X86.lower (byteOf (operandOf w) 0) = 5) := hrip
  unfold codeAddr archAddr X86.effAddr
  rw [if_neg hsib, if_neg hsib, if_neg hrip, if_neg hrip, add_left_inj]
  unfold codeReg
  rw [if_neg hnrip]
  by_cases h17 : extOf w = true ∧ byteOf (operandOf w) 0 = 0x17#8
  · have hr15 : gprFile regs (X86.lower (byteOf (operandOf w) 0) + extB (extOf w)) = regs.r15 := by
      rw [h17.1, h17.2]
      rfl
    rw [if_pos h17, hr15, or_iff_right (not_not_intro h17)]
    rfl
  · rw [if_neg h17]
    exact iff_of_true rfl (.inl h17)

/-- **Every other indirect call** goes where the architecture says, but for `call [r15]`: its
row reads `r14`. -/
theorem plainTarget_iff {w : Word} {regs : UserRegs} (hcall : IsIndirectCall w)
    (hsib : ¬ X86.HasSib (operandOf w)) (hr : Reaches w regs) :
    TargetOk w regs ↔
      ¬ (extOf w = true ∧ byteOf (operandOf w) 0 = 0x17#8) ∨ regs.r14 = regs.r15 := by
  by_cases hd : X86.IsDirect (operandOf w)
  · have hne : ¬ (extOf w = true ∧ byteOf (operandOf w) 0 = 0x17#8) := by
      rintro ⟨-, h17⟩
      unfold X86.IsDirect at hd
      rw [h17] at hd
      exact absurd hd (by decide)
    exact iff_of_true (targetOk_direct hcall hd hne) (.inl hne)
  · rw [targetOk_iff_addr hcall hd hr]
    by_cases hrip : X86.IsRipRelative (operandOf w)
    · have hne : ¬ (extOf w = true ∧ byteOf (operandOf w) 0 = 0x17#8) := by
        rintro ⟨-, h17⟩
        unfold X86.IsRipRelative at hrip
        rw [h17] at hrip
        exact absurd hrip (by decide)
      exact iff_of_true (codeAddr_ripRelative regs hsib hrip) (.inl hne)
    · exact codeAddr_eq_iff regs hsib hrip

/-- `call [rip - 6]`, whose target is the word of the instruction itself. -/
theorem plainTarget_iff_rip : TargetOk 0xFFFFFFFA15FF { rip := 0x1000 } :=
  (plainTarget_iff (by decide) (by decide) ⟨Mem.mark 0x1000, by decide⟩).mpr (.inl (by decide))

/-- `call [r15]`. -/
theorem plainTarget_fails :
    archTarget (Mem.mark 0x1000) 0x17FF41 { r15 := 0x1000 } = some 1 ∧
      (printCall (Mem.mark 0x1000) 0x17FF41 { r15 := 0x1000 }).addr = 0 := by
  decide

end Ftrace
