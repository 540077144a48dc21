/-
# The registers an operand names

A line of the trace shows the operand of a call and, behind it, the target.  The text comes from
one column of a table and the value from another, so the two can disagree.

`targetNamed_iff` says for which words they do: the target depends on a register that the text
does not name for `call [r15]`, which reads `r14`, and for a base `rbx` without a prefix, which
reads `rcx`, unless the index is `rcx` and names it.
-/
import Mathlib.Data.List.Infix
import Ftrace.CallTargets

namespace Ftrace

open CText Bytes

/-! ## 1. Names in a text -/

/-- The name of a register. -/
def Reg.name : Reg → Text
  | .rax => "rax".toList
  | .rcx => "rcx".toList
  | .rdx => "rdx".toList
  | .rbx => "rbx".toList
  | .rsp => "rsp".toList
  | .rbp => "rbp".toList
  | .rsi => "rsi".toList
  | .rdi => "rdi".toList
  | .r8 => "r8".toList
  | .r9 => "r9".toList
  | .r10 => "r10".toList
  | .r11 => "r11".toList
  | .r12 => "r12".toList
  | .r13 => "r13".toList
  | .r14 => "r14".toList
  | .r15 => "r15".toList
  | .rip => "rip".toList

/-- The operand of a printed call: what stands before the colon. -/
def operandText (out : Text) : Text := out.takeWhile fun c => c != ':'

/-- The text of a relative call. -/
def relativeText : Text := "call (relative)".toList

/-- The text names the register; that of a relative call stands for `rip`. -/
def Names (text : Text) (r : Reg) : Prop := r.name <:+: text ∨ r = .rip ∧ text = relativeText

instance (text : Text) (r : Reg) : Decidable (Names text r) := inferInstanceAs (Decidable (_ ∨ _))

/-- Two register files agree on the registers that a text names. -/
def AgreeOn (text : Text) (regs regs' : UserRegs) : Prop :=
  ∀ r, Names text r → r.read regs = r.read regs'

/-- The target of a word does not depend on a register that the printed operand does not name. -/
def TargetNamed (w : Word) : Prop :=
  ∀ mem regs regs', (printCall mem w regs).aCall = 1 →
    AgreeOn (operandText (printCall mem w regs).out) regs regs' →
      (printCall mem w regs).addr = (printCall mem w regs').addr

theorem operandText_append {a : Text} (ha : ':' ∉ a) (t : Text) :
    operandText (a ++ t) = a ++ operandText t := by
  refine List.takeWhile_append_of_pos ?_
  intro c hc
  simp only [bne_iff_ne]
  rintro rfl
  exact ha hc

theorem operandText_colon (t : Text) : operandText (':' :: t) = [] := rfl

/-- What stands before the colon is named. -/
theorem named_before_colon {a : Text} {r : Reg} (ha : ':' ∉ a) (hr : r.name <:+: a) (t : Text) :
    Names (operandText (a ++ t)) r := by
  rw [operandText_append ha]
  exact .inl (hr.trans (List.prefix_append a _).isInfix)

/-! ## 2. What the tables print -/

/-- A format is printed as it is up to its conversion. -/
theorem fmtHex_eq (v : BitVec 32) (t : Text) :
    ∃ rest, fmtHex v t = t.takeWhile (fun c => c != '%') ++ rest := by
  fun_induction fmtHex v t with
  | case1 t => exact ⟨_, rfl⟩
  | case2 t => exact ⟨_, rfl⟩
  | case3 c t _ _ ih =>
    obtain ⟨rest, hrest⟩ := ih
    rw [hrest, List.takeWhile_cons]
    split
    · exact ⟨rest, rfl⟩
    · exact ⟨c :: (t.takeWhile (fun c => c != '%') ++ rest), rfl⟩
  | case4 => exact ⟨[], rfl⟩

/-- **The names of `g_regs_call`** are right but for one row. -/
theorem gRegsCall_named : ∀ e ∈ gRegsCall, ∀ n ∈ e.name, ':' ∉ n ∧
    ∀ r ∈ e.getReg.map regOf, r.name <:+: beforePercent n ∨ e.rex = 1 ∧ e.rmByte = 0x17#8 := by
  decide +kernel

/-- That row. -/
theorem gRegsCall_r15 : ∀ e ∈ gRegsCall, e.rmByte = 0x17#8 ∧ e.rex = 1 →
    e.name = some "[r15]".toList ∧ e.indirectValue = 1 ∧ e.getReg.map regOf = some .r14 := by
  decide +kernel

/-- **The names of `g_sib`** are right, and ask for the name of the base. -/
theorem gSib_named : ∀ e ∈ gSib, e.name = beforePercent e.name ++ "%s".toList ∧
    ':' ∉ beforePercent e.name ∧ ∀ r ∈ e.getReg.map regOf, r.name <:+: beforePercent e.name := by
  decide +kernel

/-- **The names of `g_sib_base`** are right but for base 3. -/
theorem gSibBase_named : ∀ e ∈ gSibBase, ':' ∉ e.name ∧
    ∀ r ∈ e.getReg.map regOf, r.name <:+: e.name ∨ e.number = 3 := by
  decide +kernel

/-! ## 3. What is printed before the colon -/

theorem sibDisp_snd (v addr : Word) : (sibDisp v addr).2 = (sibDisp v 0).2 := by
  unfold sibDisp manageByte manageDword
  split
  · rfl
  · split <;> rfl

/-- Of the letters that matter, a printed displacement has none. -/
theorem sibDisp_letters (v : Word) :
    ':' ∉ (sibDisp v 0).2 ++ "]".toList ∧ 'c' ∉ (sibDisp v 0).2 ++ "]".toList ∧
      ((sibDisp v 0).2 ++ "]".toList).head? ≠ some 'x' := by
  have hhex (n : ℕ) : ':' ∉ hexUp n ∧ 'c' ∉ hexUp n := by
    have hdig : ∀ d < 16, ':' ≠ hexDigit d ∧ 'c' ≠ hexDigit d := by decide
    refine ⟨?_, ?_⟩
    · intro h
      obtain ⟨d, hd, hc⟩ := mem_hexUp h
      exact (hdig d hd).1 hc
    · intro h
      obtain ⟨d, hd, hc⟩ := mem_hexUp h
      exact (hdig d hd).2 hc
  unfold sibDisp manageByte manageDword
  split
  · obtain ⟨h1, h2⟩ := hhex (((getSibByte v).setWidth 8).signExtend 32).toNat
    simp [h1, h2]
  · split
    · obtain ⟨h1, h2⟩ := hhex (getSibDword v).toNat
      simp [h1, h2]
    · decide

/-- **The text of a SIB operand.** -/
theorem out_sib {v : Word} (hcall : isACall (byteOf v 0) = true) (hsib : X86.HasSib v) (mem : Mem)
    (ext : Bool) (regs : UserRegs) : ∃ e ∈ gSib, ∃ b ∈ gSibBase,
      ((e.getReg.map regOf = if X86.middle (byteOf v 1) = 4 then none
          else some (gpr (X86.middle (byteOf v 1)))) ∧
        (b.getReg.map regOf = if X86.lower (byteOf v 1) = 5 then none
          else if X86.lower (byteOf v 1) = 3 ∧ ext = false then some .rcx
          else some (gpr (X86.lower (byteOf v 1) + extB ext))) ∧
        b.number = X86.lower (byteOf v 1) + extB ext) ∧
      ∃ t, (printIndirect mem (prefixOf ext) v (rexOf ext) regs).out
        = "call [".toList ++ (beforePercent e.name ++ b.name) ++ ((sibDisp v 0).2 ++ "]".toList) ++
          ':' :: t := by
  obtain ⟨row, hrow, hfind, -, hreg, -⟩ := exists_operand_row hcall ext
  obtain ⟨e, he, hei, hereg, -⟩ := exists_index_row (byteOf v 1)
  obtain ⟨b, hb, hbi, hbreg⟩ := exists_base_row ext (byteOf v 1)
  refine ⟨e, he, b, hb, ⟨hereg, hbreg⟩, ?_⟩
  have hget : row.getReg = none := Option.map_eq_none_iff.mp (hreg.trans (if_pos hsib))
  have hname : row.name = none := by
    have h := (gRegsCall_names row hrow).1
    rw [hget] at h
    exact Option.isNone_iff_eq_none.mp h.symm
  have hbyte : ((v >>> 8) &&& 0xFF#64).setWidth 8 = byteOf v 1 := by
    rw [setWidth_and_255]
    exact byteOf_shiftRight v 1 0
  have hsibtext : printSib (prefixOf ext) (getIndexSib (byteOf v 1))
      (getIndexBase (prefixOf ext) (getBase (byteOf v 1)) (rexOf ext)) (rexOf ext)
        = beforePercent e.name ++ b.name := by
    simp only [printSib, hei, hbi, if_pos (rexOf_or_prefixOf ext)]
    exact fmtString_name (gSib_named e he).1 b.name
  have hnone (x : BitVec 32) : printOpcodes none x = [] := rfl
  have hspace : printSpace 0 = [] := rfl
  have hcolon : "]: ".toList = "]".toList ++ ':' :: " ".toList := rfl
  simp only [printIndirect, setWidth_and_255, hcall, if_true, printRmByteCall, hfind, getAddrFunc,
    hget, hname, hnone, List.length_nil, hspace, resolveSib, hbyte, hsibtext, sibDisp_snd v, hcolon,
    List.nil_append, List.append_assoc, List.cons_append]
  exact ⟨_, rfl⟩

/-- **The text of any other operand.** -/
theorem out_plain {v : Word} (hcall : isACall (byteOf v 0) = true) (hsib : ¬ X86.HasSib v)
    (mem : Mem) (ext : Bool) (regs : UserRegs) : ∃ e ∈ gRegsCall, ∃ n, e.name = some n ∧
      (e.rmByte = byteOf v 0 ∧ e.rex = rexOf ext) ∧
      e.getReg.map regOf = some (codeReg ext (byteOf v 0)) ∧
      ∃ x t, (printIndirect mem (prefixOf ext) v (rexOf ext) regs).out
        = "call ".toList ++ fmtHex x n ++ ':' :: t := by
  obtain ⟨row, hrow, hfind, hkey, hreg, -⟩ := exists_operand_row hcall ext
  rw [if_neg hsib] at hreg
  obtain ⟨f, hf, -⟩ := Option.map_eq_some_iff.mp hreg
  obtain ⟨n, hn⟩ := exists_name hrow (by rw [hf]; rfl)
  refine ⟨row, hrow, n, hn, hkey, hreg, ?_⟩
  simp only [printIndirect, setWidth_and_255, hcall, if_true, printRmByteCall, hfind, hn,
    printOpcodes_some, List.append_assoc]
  exact ⟨_, _, rfl⟩

/-! ## 4. What is named is enough -/

/-- The words whose operand is printed with a name that is not read. -/
def Misnamed (w : Word) : Prop :=
  IsIndirectCall w ∧
    (extOf w = true ∧ byteOf (operandOf w) 0 = 0x17#8 ∨
      X86.HasSib (operandOf w) ∧ (extOf w = false ∧ X86.lower (byteOf (operandOf w) 1) = 3 ∧
        X86.middle (byteOf (operandOf w) 1) ≠ 1))

instance (w : Word) : Decidable (Misnamed w) := inferInstanceAs (Decidable (_ ∧ _))

/-- The index of an operand is read from one register, if it has one. -/
theorem sibIndex_congr {sib : BitVec 8} {regs regs' : UserRegs}
    (h : X86.middle sib ≠ 4 →
      gprFile regs (X86.middle sib) = gprFile regs' (X86.middle sib)) :
    X86.sibIndex (gprFile regs) sib = X86.sibIndex (gprFile regs') sib := by
  unfold X86.sibIndex
  by_cases h4 : X86.middle sib = 4
  · rw [if_pos h4, if_pos h4]
  · rw [if_neg h4, if_neg h4, h h4]

/-- The base is read from the register of its row, if it has one. -/
theorem codeBase_congr {ext : Bool} {sib : BitVec 8} {regs regs' : UserRegs}
    (h : X86.lower sib ≠ 5 → ∀ r, r = (if X86.lower sib = 3 ∧ ext = false then Reg.rcx
      else gpr (X86.lower sib + extB ext)) → r.read regs = r.read regs') :
    codeBase ext sib regs = codeBase ext sib regs' := by
  unfold codeBase
  by_cases h5 : X86.lower sib = 5
  · rw [if_pos h5, if_pos h5]
  · rw [if_neg h5, if_neg h5]
    by_cases h3 : X86.lower sib = 3 ∧ ext = false
    · rw [if_pos h3, if_pos h3]
      exact h h5 .rcx (if_pos h3).symm
    · rw [if_neg h3, if_neg h3]
      exact h h5 _ (if_neg h3).symm

/-- Base 3 behind the prefix is `r11`. -/
theorem no_ext_of_number {sib : BitVec 8} {ext : Bool} (h : X86.lower sib + extB ext = 3) :
    X86.lower sib = 3 ∧ ext = false := by
  cases ext with
  | false => exact ⟨h, rfl⟩
  | true =>
    have hlow : X86.lower sib + 8 = 3 := h
    omega

theorem target_named_sib {w : Word} (hcall : IsIndirectCall w) (hsib : X86.HasSib (operandOf w))
    (hok : ¬ Misnamed w) {mem : Mem} {regs regs' : UserRegs}
    (hagree : AgreeOn (operandText (printCall mem w regs).out) regs regs') :
    (printCall mem w regs).addr = (printCall mem w regs').addr := by
  rw [hcall.printCall_eq] at hagree
  obtain ⟨e, he, b, hb, ⟨hereg, hbreg, hbnum⟩, t, ht⟩ :=
    out_sib hcall.isACall hsib mem (extOf w) regs
  rw [ht, List.append_assoc] at hagree
  obtain ⟨-, hecolon, henamed⟩ := gSib_named e he
  obtain ⟨hbcolon, hbnamed⟩ := gSibBase_named b hb
  have hcolon : ':' ∉ "call [".toList ++ (beforePercent e.name ++ b.name) := by
    rw [List.mem_append, List.mem_append, not_or, not_or]
    exact ⟨by decide, hecolon, hbcolon⟩
  have hread {r : Reg} (h : r.name <:+: beforePercent e.name ++ b.name) :
      r.read regs = r.read regs' :=
    hagree r (named_before_colon hcolon (h.trans (List.suffix_append _ _).isInfix) _)
  have hindex : X86.sibIndex (gprFile regs) (byteOf (operandOf w) 1)
      = X86.sibIndex (gprFile regs') (byteOf (operandOf w) 1) := by
    refine sibIndex_congr ?_
    intro h4
    rw [if_neg h4] at hereg
    have hname := henamed _ hereg
    exact hread (hname.trans (List.prefix_append _ _).isInfix)
  have hbase : codeBase (extOf w) (byteOf (operandOf w) 1) regs
      = codeBase (extOf w) (byteOf (operandOf w) 1) regs' := by
    refine codeBase_congr ?_
    intro h5 r hr
    rw [if_neg h5, ← apply_ite some, ← hr] at hbreg
    rcases hbnamed r hbreg with hname | hnum
    · exact hread (hname.trans (List.suffix_append _ _).isInfix)
    · -- the wrong row: its register is named by the index
      have h3 := no_ext_of_number (hbnum.symm.trans hnum)
      have h1 : X86.middle (byteOf (operandOf w) 1) = 1 := by
        by_contra h1
        exact hok ⟨hcall, .inr ⟨hsib, h3.2, h3.1, h1⟩⟩
      rw [if_neg (by omega), h1] at hereg
      have hname := henamed .rcx hereg
      rw [hr, if_pos h3]
      exact hread (hname.trans (List.prefix_append _ _).isInfix)
  have hdir : ¬ X86.IsDirect (operandOf w) := hsib.1
  rw [hcall.printCall_eq, hcall.printCall_eq, printIndirect_addr hcall.isACall,
    printIndirect_addr hcall.isACall, if_neg hdir, if_neg hdir]
  unfold codeAddr
  rw [if_pos hsib, if_pos hsib, hindex, hbase]

theorem target_named_plain {w : Word} (hcall : IsIndirectCall w)
    (hsib : ¬ X86.HasSib (operandOf w)) (hok : ¬ Misnamed w) {mem : Mem} {regs regs' : UserRegs}
    (hagree : AgreeOn (operandText (printCall mem w regs).out) regs regs') :
    (printCall mem w regs).addr = (printCall mem w regs').addr := by
  rw [hcall.printCall_eq] at hagree
  obtain ⟨e, he, n, hn, ⟨hrm, hrex⟩, hreg, x, t, ht⟩ :=
    out_plain hcall.isACall hsib mem (extOf w) regs
  obtain ⟨rest, hrest⟩ := fmtHex_eq x n
  rw [ht, hrest, ← List.append_assoc, List.append_assoc] at hagree
  obtain ⟨hcolon, hnamed⟩ := gRegsCall_named e he n hn
  have hread : (codeReg (extOf w) (byteOf (operandOf w) 0)).read regs
      = (codeReg (extOf w) (byteOf (operandOf w) 0)).read regs' := by
    rcases hnamed _ hreg with hname | ⟨h1, h17⟩
    · have hc : ':' ∉ "call ".toList ++ beforePercent n := by
        rw [List.mem_append, not_or]
        exact ⟨by decide, fun h => hcolon ((List.takeWhile_prefix _).subset h)⟩
      exact hagree _ (named_before_colon hc (hname.trans (List.suffix_append _ _).isInfix) _)
    · refine absurd ⟨hcall, .inl ⟨?_, hrm.symm.trans h17⟩⟩ hok
      rw [h1] at hrex
      revert hrex
      cases extOf w
      · intro h
        exact absurd h (by decide)
      · intro _
        exact rfl
  rw [hcall.printCall_eq, hcall.printCall_eq, printIndirect_addr hcall.isACall,
    printIndirect_addr hcall.isACall, hread]
  by_cases hdir : X86.IsDirect (operandOf w)
  · rw [if_pos hdir, if_pos hdir]
  · rw [if_neg hdir, if_neg hdir]
    unfold codeAddr
    rw [if_neg hsib, if_neg hsib]
    by_cases hrip : X86.IsRipRelative (operandOf w)
    · have hcode : codeReg (extOf w) (byteOf (operandOf w) 0) = .rip := if_pos hrip
      rw [hcode] at hread
      have hread' : getRip regs = getRip regs' := hread
      rw [if_pos hrip, if_pos hrip, hread']
    · rw [if_neg hrip, if_neg hrip, hread]

theorem target_named_relative {w : Word} (h : byteOf w 0 = 0xE8#8) {mem : Mem}
    {regs regs' : UserRegs}
    (hagree : AgreeOn (operandText (printCall mem w regs).out) regs regs') :
    (printCall mem w regs).addr = (printCall mem w regs').addr := by
  rw [printCall_of_e8 h] at hagree
  have htext : operandText (printRelative w regs).out = relativeText := by
    have hout : (printRelative w regs).out = relativeText ++ ':' :: (printSpace 16 ++
        "0x".toList ++ hex16 (relativeAddr w regs)) := rfl
    rw [hout, operandText_append (by decide), operandText_colon, List.append_nil]
  have hrip : getRip regs = getRip regs' := hagree .rip (.inr ⟨rfl, htext⟩)
  have hrip' : regs.rip = regs'.rip := hrip
  rw [printCall_of_e8 h, printCall_of_e8 h]
  exact congrArg (· + 5 + _) hrip'

/-! ## 5. What is not named -/

/-- A memory and two register files that agree on what the text names, with different
targets. -/
theorem not_targetNamed {w : Word} (hcall : IsIndirectCall w) (hdir : ¬ X86.IsDirect (operandOf w))
    (regs regs' : UserRegs)
    (hagree : AgreeOn (operandText (printCall (Mem.mark 0x1000) w regs).out) regs regs')
    (hmark : codeAddr (extOf w) (operandOf w) regs = 0x1000)
    (hother : codeAddr (extOf w) (operandOf w) regs' ≠ 0x1000) : ¬ TargetNamed w := by
  intro h
  have hcount : (printCall (Mem.mark 0x1000) w regs).aCall = 1 := by
    rw [printCall_aCall, if_pos ((isCallWord_iff w).mpr (.inr hcall))]
  have heq := h (Mem.mark 0x1000) regs regs' hcount hagree
  rw [hcall.printCall_eq, hcall.printCall_eq, printIndirect_addr hcall.isACall,
    printIndirect_addr hcall.isACall, if_neg hdir, if_neg hdir, hmark] at heq
  have hone : (Mem.mark 0x1000).peek 0x1000 = 1 := by decide
  exact Mem.peek_mark_ne hother (heq.symm.trans hone)

/-- `call [r15]` depends on `r14`. -/
theorem not_targetNamed_r15 {w : Word} (hcall : IsIndirectCall w) (hext : extOf w = true)
    (h17 : byteOf (operandOf w) 0 = 0x17#8) : ¬ TargetNamed w := by
  have hsib : ¬ X86.HasSib (operandOf w) := by
    unfold X86.HasSib
    rw [h17]
    decide
  have hdir : ¬ X86.IsDirect (operandOf w) := by
    unfold X86.IsDirect
    rw [h17]
    decide
  have haddr (regs : UserRegs) : codeAddr (extOf w) (operandOf w) regs = regs.r14 := by
    have hrip : ¬ X86.IsRipRelative (operandOf w) := by
      unfold X86.IsRipRelative
      rw [h17]
      decide
    have hdisp : X86.disp (operandOf w) 1 = 0 := by
      unfold X86.disp
      rw [h17]
      rfl
    unfold codeAddr
    rw [if_neg hsib, if_neg hrip, hext, h17, hdisp, add_zero]
    rfl
  refine not_targetNamed hcall hdir { r14 := 0x1000 } {} ?_ (haddr _) ?_
  · rw [hcall.printCall_eq]
    obtain ⟨e, he, n, hn, ⟨hrm, hrex⟩, -, x, t, ht⟩ :=
      out_plain hcall.isACall hsib (Mem.mark 0x1000) (extOf w) { r14 := 0x1000 }
    have hrow := gRegsCall_r15 e he ⟨hrm.trans h17, by rw [hrex, hext]; rfl⟩
    obtain rfl := Option.some.inj (hn.symm.trans hrow.1)
    have htext : "call ".toList ++ fmtHex x "[r15]".toList = "call [r15]".toList := rfl
    rw [ht, htext, operandText_append (by decide), operandText_colon, List.append_nil]
    intro r hr
    cases r with
    | r14 => exact absurd hr (by decide)
    | _ => rfl
  · rw [haddr]
    decide

/-- A text that goes on without a `c` names `rcx` only if it did before. -/
theorem rcx_not_infix {a d : Text} (ha : ¬ "rcx".toList <:+: a) (hc : 'c' ∉ d)
    (hx : d.head? ≠ some 'x') : ¬ "rcx".toList <:+: a ++ d := by
  have hrcx : "rcx".toList = ['r', 'c', 'x'] := rfl
  rw [hrcx] at ha ⊢
  induction a with
  | nil =>
    intro h
    exact hc (h.subset (List.mem_cons_of_mem _ List.mem_cons_self))
  | cons y a ih =>
    rw [List.infix_cons_iff, not_or] at ha
    obtain ⟨hpre, hinf⟩ := ha
    rw [List.cons_append, List.infix_cons_iff]
    rintro (h | h)
    · -- the name would begin here, and `d` starts too late or with the wrong letter
      obtain ⟨rfl, hcx⟩ := List.cons_prefix_cons.mp h
      cases a with
      | nil => exact hc (hcx.subset List.mem_cons_self)
      | cons z a =>
        rw [List.cons_append] at hcx
        obtain ⟨rfl, hx'⟩ := List.cons_prefix_cons.mp hcx
        cases a with
        | nil =>
          cases d with
          | nil => exact absurd hx' (by decide)
          | cons c d =>
            rw [List.nil_append] at hx'
            obtain ⟨rfl, -⟩ := List.cons_prefix_cons.mp hx'
            exact hx rfl
        | cons u a =>
          rw [List.cons_append] at hx'
          obtain ⟨rfl, -⟩ := List.cons_prefix_cons.mp hx'
          exact hpre ⟨a, rfl⟩
    · exact ih hinf h

/-- The names of the index rows, with `rbx` behind them. -/
theorem gSib_rcx : ∀ e ∈ gSib, e.getReg.map regOf = some .rcx ∨
    ¬ "rcx".toList <:+: "call [".toList ++ (beforePercent e.name ++ "rbx".toList) := by
  decide +kernel

theorem gSibBase_rbx : ∀ b ∈ gSibBase, b.number = 3 → b.name = "rbx".toList := by
  decide +kernel

theorem gpr_eq_rcx : ∀ n < 8, gpr n = .rcx → n = 1 := by
  decide

theorem read_rcx_only (c : Word) {r : Reg} (h : r ≠ .rcx) : r.read { rcx := c } = 0 := by
  cases r with
  | rcx => exact absurd rfl h
  | _ => rfl

/-- The address of an operand with base `rbx`, without a prefix: `rcx` and the displacement. -/
theorem codeAddr_rbx {v : Word} (hsib : X86.HasSib v) (h3 : X86.lower (byteOf v 1) = 3)
    (h1 : X86.middle (byteOf v 1) ≠ 1) (a : Word) :
    codeAddr false v { rcx := a - X86.disp v 2 } = a := by
  have hindex : X86.sibIndex (gprFile { rcx := a - X86.disp v 2 }) (byteOf v 1) = 0 := by
    have hzero := read_rcx_only (a - X86.disp v 2)
      fun h => h1 (gpr_eq_rcx _ (X86.middle_lt _) h)
    unfold X86.sibIndex gprFile
    rw [hzero, ite_self, zero_mul]
  have hbase (regs : UserRegs) : codeBase false (byteOf v 1) regs = regs.rcx := by
    unfold codeBase
    rw [if_neg (by omega), if_pos ⟨h3, rfl⟩]
    rfl
  unfold codeAddr
  rw [if_pos hsib, hindex, hbase, zero_add, sub_add_cancel]

/-- Its text names `rcx` only by the index. -/
theorem not_names_rcx {mem : Mem} {regs : UserRegs} {v : Word} (hcall : isACall (byteOf v 0) = true)
    (hsib : X86.HasSib v) (h3 : X86.lower (byteOf v 1) = 3) (h1 : X86.middle (byteOf v 1) ≠ 1) :
    ¬ Names (operandText (printIndirect mem (prefixOf false) v (rexOf false) regs).out) .rcx := by
  obtain ⟨e, he, b, hb, ⟨hereg, -, hbnum⟩, t, ht⟩ := out_sib hcall hsib mem false regs
  have hnum : b.number = 3 := by rw [hbnum, h3]; rfl
  obtain ⟨hcolon, hc, hx⟩ := sibDisp_letters v
  have hcolon' : ':' ∉ "call [".toList ++ (beforePercent e.name ++ "rbx".toList) := by
    rw [List.mem_append, List.mem_append, not_or, not_or]
    exact ⟨by decide, (gSib_named e he).2.1, by decide⟩
  have hnot : ¬ "rcx".toList <:+: "call [".toList ++ (beforePercent e.name ++ "rbx".toList) ++
      ((sibDisp v 0).2 ++ "]".toList) := by
    refine rcx_not_infix ?_ hc hx
    rcases gSib_rcx e he with hrcx | hno
    · rw [hereg] at hrcx
      split at hrcx
      · cases hrcx
      · exact absurd (gpr_eq_rcx _ (X86.middle_lt _) (Option.some.inj hrcx)) h1
    · exact hno
  rw [List.append_assoc] at hnot
  rw [ht, gSibBase_rbx b hb hnum, List.append_assoc, operandText_append hcolon',
    operandText_append hcolon, operandText_colon, List.append_nil]
  rintro (hr | ⟨hr, -⟩)
  · exact hnot hr
  · cases hr

/-- A base `rbx` without a prefix is `rcx`, which only an index `rcx` names. -/
theorem not_targetNamed_rbx {w : Word} (hcall : IsIndirectCall w)
    (hsib : X86.HasSib (operandOf w)) (hext : extOf w = false)
    (h3 : X86.lower (byteOf (operandOf w) 1) = 3) (h1 : X86.middle (byteOf (operandOf w) 1) ≠ 1) :
    ¬ TargetNamed w := by
  have haddr (a : Word) : codeAddr (extOf w) (operandOf w) { rcx := a - X86.disp (operandOf w) 2 }
      = a := by
    rw [hext]
    exact codeAddr_rbx hsib h3 h1 a
  refine not_targetNamed hcall hsib.1 { rcx := 0x1000 - X86.disp (operandOf w) 2 }
    { rcx := 0x1008 - X86.disp (operandOf w) 2 } ?_ (haddr 0x1000) ?_
  · rw [hcall.printCall_eq, hext]
    intro r hr
    have hne : r ≠ .rcx := by
      rintro rfl
      exact not_names_rcx hcall.isACall hsib h3 h1 hr
    rw [read_rcx_only _ hne, read_rcx_only _ hne]
  · rw [haddr]
    decide

/-- **The target depends on named registers only**, for every word but those whose operand is
printed with a name that is not read. -/
theorem targetNamed_iff (w : Word) : TargetNamed w ↔ ¬ Misnamed w := by
  constructor
  · rintro h ⟨hcall, ⟨hext, h17⟩ | ⟨hsib, hext, h3, h1⟩⟩
    · exact not_targetNamed_r15 hcall hext h17 h
    · exact not_targetNamed_rbx hcall hsib hext h3 h1 h
  · intro hok mem regs regs' hcount hagree
    have hword : IsCallWord w := by
      by_contra hw
      rw [printCall_aCall, if_neg hw] at hcount
      cases hcount
    rcases (isCallWord_iff w).mp hword with h | hcall
    · exact target_named_relative h hagree
    · by_cases hsib : X86.HasSib (operandOf w)
      · exact target_named_sib hcall hsib hok hagree
      · exact target_named_plain hcall hsib hok hagree

/-- `call [r15]` again, and `call [rax*8 + rbx]`: the two runs print the same operand. -/
theorem targetNamed_fails :
    (AgreeOn (operandText (printCall (Mem.mark 0x1000) 0x17FF41 { r14 := 0x1000 }).out)
        { r14 := 0x1000 } {} ∧
      (printCall (Mem.mark 0x1000) 0x17FF41 { r14 := 0x1000 }).addr ≠
        (printCall (Mem.mark 0x1000) 0x17FF41 {}).addr) ∧
    (AgreeOn (operandText (printCall (Mem.mark 0x1000) 0xC314FF { rcx := 0x1000 }).out)
        { rcx := 0x1000 } {} ∧
      (printCall (Mem.mark 0x1000) 0xC314FF { rcx := 0x1000 }).addr ≠
        (printCall (Mem.mark 0x1000) 0xC314FF {}).addr) := by
  refine ⟨⟨?_, by decide⟩, ?_, by decide⟩
  · intro r
    cases r <;> decide
  · intro r
    cases r <;> decide

end Ftrace
