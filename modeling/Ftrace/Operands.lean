/-
# The operands behind the tables

Three tables of the source pair a text with a function that reads a register: `g_regs_call`,
`g_sib` and `g_sib_base`.  Here the functions are given the names of the registers they read
(`regOf`), so that what the rows say can be compared with the numbers that the architecture
gives to registers.

Two rows are wrong: that of `[r15]` reads `r14`, and the base `rbx` reads `rcx`.  The base 5 has
no register at all, whatever the ModRM byte.  `printIndirect_addr` says what the code comes to,
for every operand.
-/
import Ftrace.Lib.X86
import Ftrace.PrintCalls

namespace Ftrace

open CText Bytes

/-! ## 1. Registers -/

/-- The registers that an operand can name. -/
inductive Reg where
  | rax | rcx | rdx | rbx | rsp | rbp | rsi | rdi
  | r8 | r9 | r10 | r11 | r12 | r13 | r14 | r15
  | rip
  deriving DecidableEq, Repr

/-- Its value. -/
def Reg.read : Reg → UserRegs → Word
  | .rax => getRax
  | .rcx => getRcx
  | .rdx => getRdx
  | .rbx => getRbx
  | .rsp => getRsp
  | .rbp => getRbp
  | .rsi => getRsi
  | .rdi => getRdi
  | .r8 => getR8
  | .r9 => getR9
  | .r10 => getR10
  | .r11 => getR11
  | .r12 => getR12
  | .r13 => getR13
  | .r14 => getR14
  | .r15 => getR15
  | .rip => getRip

/-- The general-purpose registers in the order of their numbers; `rip` has none. -/
def gprs : List Reg :=
  [.rax, .rcx, .rdx, .rbx, .rsp, .rbp, .rsi, .rdi,
    .r8, .r9, .r10, .r11, .r12, .r13, .r14, .r15]

/-- The register with a number. -/
def gpr (n : ℕ) : Reg := gprs.getD n .rip

/-- The register file that the architecture reads by number. -/
def gprFile (regs : UserRegs) (n : ℕ) : Word := (gpr n).read regs

/-- Every register holds its own number, and `rip` the next one. -/
def probe : UserRegs where
  rax := 0
  rcx := 1
  rdx := 2
  rbx := 3
  rsp := 4
  rbp := 5
  rsi := 6
  rdi := 7
  r8 := 8
  r9 := 9
  r10 := 10
  r11 := 11
  r12 := 12
  r13 := 13
  r14 := 14
  r15 := 15
  rip := 16

/-- The register that a function of a table reads. -/
def regOf (f : UserRegs → Word) : Reg := gpr (f probe).toNat

/-- Every function of `g_regs_call` reads one register. -/
theorem read_regOf_call : ∀ e ∈ gRegsCall, ∀ f ∈ e.getReg, f = (regOf f).read := by
  have h : gRegsCall.map TRegsCall.getReg
      = gRegsCall.map fun e => e.getReg.map fun f => (regOf f).read := rfl
  intro e he f hf
  have hrow := List.map_inj_left.mp h e he
  rw [hf] at hrow
  exact Option.some.inj hrow

/-- So does every function of `g_sib`. -/
theorem read_regOf_sib : ∀ e ∈ gSib, ∀ f ∈ e.getReg, f = (regOf f).read := by
  have h : gSib.map TSib.getReg = gSib.map fun e => e.getReg.map fun f => (regOf f).read := rfl
  intro e he f hf
  have hrow := List.map_inj_left.mp h e he
  rw [hf] at hrow
  exact Option.some.inj hrow

/-- And of `g_sib_base`. -/
theorem read_regOf_base : ∀ e ∈ gSibBase, ∀ f ∈ e.getReg, f = (regOf f).read := by
  have h : gSibBase.map TSibBase.getReg
      = gSibBase.map fun e => e.getReg.map fun f => (regOf f).read := rfl
  intro e he f hf
  have hrow := List.map_inj_left.mp h e he
  rw [hf] at hrow
  exact Option.some.inj hrow

/-! ## 2. Displacements -/

/-- The displacements are cut out of the word as the architecture says. -/
theorem manageByte_addr (v addr : Word) : (manageByte v addr).1 = addr + X86.disp8 v 2 := by
  have hbyte : (getSibByte v).setWidth 8 = byteOf v 2 := by
    have h := setWidth_and_255 (v >>> 16)
    rw [getSibByte, BitVec.setWidth_setWidth_of_le _ (by decide), h]
    exact byteOf_shiftRight v 2 0
  rw [manageByte, hbyte, X86.disp8]

theorem setWidth_and_dword (v : Word) : (v &&& 0xFFFFFFFF#64).setWidth 32 = v.setWidth 32 := by
  have hm : (v &&& 0xFFFFFFFF#64).toNat = v.toNat % 2 ^ 32 := toNat_and_mask v (n := 32) (by decide)
  rw [← BitVec.toNat_inj, BitVec.toNat_setWidth, BitVec.toNat_setWidth, hm]
  omega

theorem manageDword_addr (v addr : Word) : (manageDword v addr).1 = addr + X86.disp32 v 2 := by
  rw [manageDword, getSibDword, setWidth_and_dword]
  rfl

theorem getSib_byte (v : Word) : ((getSib v 1).setWidth 8).signExtend 64 = X86.disp8 v 1 := by
  have h := setWidth_and_255 (v >>> 8)
  have hsib : getSib v 1 = ((v >>> 8) &&& 0xFF#64).setWidth 32 := rfl
  rw [hsib, BitVec.setWidth_setWidth_of_le _ (by decide), h, X86.disp8]
  exact congrArg _ (byteOf_shiftRight v 1 0)

theorem getSib_dword (v : Word) : (getSib v 4).signExtend 64 = X86.disp32 v 1 := by
  have hsib : getSib v 4 = ((v >>> 8) &&& 0xFFFFFFFF#64).setWidth 32 := rfl
  rw [hsib, setWidth_and_dword]
  rfl

/-! ## 3. SIB operands

The prefix is absent or 0x41, which sets the extension bit of the base. -/

/-- `g_prefix`. -/
def prefixOf (ext : Bool) : BitVec 8 := if ext then 0x41 else 0

/-- `rex`. -/
def rexOf (ext : Bool) : BitVec 8 := if ext then 1 else 0

/-- What the extension adds to the number of a register. -/
def extB (ext : Bool) : ℕ := if ext then 8 else 0

/-- The fields of the ModRM byte of a call. -/
theorem middle_of_isACall {b : BitVec 8} (h : isACall b = true) : X86.middle b = 2 := by
  refine forall_isACall (P := fun b => X86.middle b = 2) ?_ b h
  decide +kernel

/-- The row that is found for a SIB byte. -/
theorem getIndexSib_eq (sib : BitVec 8) : getIndexSib sib = sib.toNat / 8 := by
  have h : ∀ sib : BitVec 8, getIndexSib sib = sib.toNat / 8 := by decide +kernel
  exact h sib

/-- The row for a base. -/
theorem getIndexBase_eq (ext : Bool) (sib : BitVec 8) :
    getIndexBase (prefixOf ext) (getBase sib) (rexOf ext) = X86.lower sib + extB ext := by
  have h : ∀ ext : Bool, ∀ sib : BitVec 8,
      getIndexBase (prefixOf ext) (getBase sib) (rexOf ext) = X86.lower sib + extB ext := by
    decide +kernel
  exact h ext sib

/-- **The index rows** are those of the architecture. -/
theorem gSib_rows : ∀ n < 32, (gSib[n]?).map (fun e => (e.getReg.map regOf, e.scale.signExtend 64))
    = some (if n % 8 = 4 then none else some (gpr (n % 8)), BitVec.ofNat 64 (2 ^ (n / 8))) := by
  decide +kernel

/-- The number of the base that a row is for. -/
def TSibBase.number (e : TSibBase) : ℕ := e.base.toNat + 8 * e.rex.toNat

/-- **The base rows** are not: base 3 reads `rcx`, and base 5 nothing. -/
theorem gSibBase_rows : ∀ n < 16, (gSibBase[n]?).map (fun e => (e.getReg.map regOf, e.number))
    = some (if n % 8 = 5 then none else if n = 3 then some .rcx else some (gpr n), n) := by
  decide +kernel

/-- The row that is found for the index. -/
theorem exists_index_row (sib : BitVec 8) : ∃ e ∈ gSib, gSib[getIndexSib sib]? = some e ∧
    (e.getReg.map regOf = if X86.middle sib = 4 then none else some (gpr (X86.middle sib))) ∧
    e.scale.signExtend 64 = BitVec.ofNat 64 (2 ^ X86.upper sib) := by
  have hsib : sib.toNat < 256 := sib.isLt
  have hn : getIndexSib sib < 32 := by
    rw [getIndexSib_eq]
    omega
  have hmid : getIndexSib sib % 8 = X86.middle sib := by rw [getIndexSib_eq]; rfl
  have hup : getIndexSib sib / 8 = X86.upper sib := by
    rw [getIndexSib_eq, X86.upper]
    omega
  have hrow := gSib_rows (getIndexSib sib) hn
  rw [hmid, hup] at hrow
  obtain ⟨e, he, hpair⟩ := Option.map_eq_some_iff.mp hrow
  obtain ⟨hreg, hscale⟩ := Prod.mk.inj hpair
  exact ⟨e, List.mem_of_getElem? he, he, hreg, hscale⟩

/-- The row that is found for the base. -/
theorem exists_base_row (ext : Bool) (sib : BitVec 8) : ∃ e ∈ gSibBase,
    gSibBase[getIndexBase (prefixOf ext) (getBase sib) (rexOf ext)]? = some e ∧
      (e.getReg.map regOf = if X86.lower sib = 5 then none
        else if X86.lower sib = 3 ∧ ext = false then some .rcx
        else some (gpr (X86.lower sib + extB ext))) ∧
      e.number = X86.lower sib + extB ext := by
  have hlow := X86.lower_lt sib
  have hext : extB ext = 0 ∧ ext = false ∨ extB ext = 8 ∧ ext = true := by
    cases ext
    · exact .inl ⟨rfl, rfl⟩
    · exact .inr ⟨rfl, rfl⟩
  have h5 : (X86.lower sib + extB ext) % 8 = 5 ↔ X86.lower sib = 5 := by omega
  have h3 : X86.lower sib + extB ext = 3 ↔ X86.lower sib = 3 ∧ ext = false := by
    rcases hext with ⟨hx, hf⟩ | ⟨hx, hf⟩
    · rw [hx, hf]
      simp
    · rw [hx, hf]
      simp
  have hrow := gSibBase_rows (X86.lower sib + extB ext) (by omega)
  simp only [h5, h3] at hrow
  obtain ⟨e, he, hpair⟩ := Option.map_eq_some_iff.mp hrow
  obtain ⟨hreg, hnum⟩ := Prod.mk.inj hpair
  rw [getIndexBase_eq]
  exact ⟨e, List.mem_of_getElem? he, he, hreg, hnum⟩

theorem readReg_of_regOf {f : Option (UserRegs → Word)} (h : ∀ g ∈ f, g = (regOf g).read)
    (regs : UserRegs) : readReg f regs = ((f.map regOf).map fun r => r.read regs).getD 0 := by
  cases f with
  | none => rfl
  | some g =>
    rw [readReg, Option.map_some, Option.map_some, Option.getD_some]
    exact congrFun (h g rfl) regs

/-- The prefix is 0x41 wherever there is one, so the first accessor of a row is the one read. -/
theorem rexOf_or_prefixOf (ext : Bool) : rexOf ext = 0 ∨ prefixOf ext = 0x41#8 := by
  cases ext
  · exact .inl rfl
  · exact .inr rfl

/-- The scaled index, as the architecture has it. -/
theorem getValueIndexScale_eq (ext : Bool) (sib : BitVec 8) (regs : UserRegs) :
    getValueIndexScale (prefixOf ext) (getIndexSib sib) (rexOf ext) regs
      = X86.sibIndex (gprFile regs) sib := by
  obtain ⟨e, hmem, he, hreg, hscale⟩ := exists_index_row sib
  have hread := readReg_of_regOf (read_regOf_sib e hmem) regs
  simp only [getValueIndexScale, he, if_pos (rexOf_or_prefixOf ext), hread, hreg, hscale,
    X86.sibIndex]
  split <;> rfl

/-- The base as the code has it. -/
def codeBase (ext : Bool) (sib : BitVec 8) (regs : UserRegs) : Word :=
  if X86.lower sib = 5 then 0
  else if X86.lower sib = 3 ∧ ext = false then getRcx regs
  else gprFile regs (X86.lower sib + extB ext)

theorem getValueBase_eq (ext : Bool) (sib : BitVec 8) (regs : UserRegs) :
    getValueBase (getIndexBase (prefixOf ext) (getBase sib) (rexOf ext)) regs
      = codeBase ext sib regs := by
  obtain ⟨e, hmem, he, hreg, -⟩ := exists_base_row ext sib
  have hread := readReg_of_regOf (read_regOf_base e hmem) regs
  simp only [getValueBase, he, hread, hreg, codeBase]
  split
  · rfl
  · split <;> rfl

/-- The ModRM byte of a call with a SIB byte. -/
theorem sib_byte_cases {v : Word} (hcall : isACall (byteOf v 0) = true) (hsib : X86.HasSib v) :
    byteOf v 0 = 0x14#8 ∨ byteOf v 0 = 0x54#8 ∨ byteOf v 0 = 0x94#8 := by
  have hfields := X86.toNat_eq_fields (byteOf v 0)
  rw [middle_of_isACall hcall, hsib.2] at hfields
  have hup := X86.upper_lt (byteOf v 0)
  have hne := hsib.1
  simp only [← BitVec.toNat_inj, BitVec.toNat_ofNat]
  omega

theorem sibDisp_addr {v : Word} (hcall : isACall (byteOf v 0) = true) (hsib : X86.HasSib v)
    (addr : Word) : (sibDisp v addr).1 = addr + X86.disp v 2 := by
  have h54 : v &&& 0xFF#64 = 0x54#64 ↔ byteOf v 0 = 0x54#8 := and_255_eq_iff v 0x54#8
  have h94 : v &&& 0xFF#64 = 0x94#64 ↔ byteOf v 0 = 0x94#8 := and_255_eq_iff v 0x94#8
  simp only [sibDisp, h54, h94, X86.disp]
  rcases sib_byte_cases hcall hsib with hb | hb | hb
  · rw [hb]
    exact (add_zero addr).symm
  · rw [if_pos hb, if_pos (by rw [hb]; rfl), manageByte_addr]
  · have hne : ¬ byteOf v 0 = 0x54#8 := by rw [hb]; decide
    have hup : ¬ X86.upper (byteOf v 0) = 1 := by rw [hb]; decide
    rw [if_neg hne, if_pos hb, if_neg hup, if_pos (by rw [hb]; rfl), manageDword_addr]

/-- **The address of a SIB operand**, as the code computes it. -/
theorem resolveSib_addr {v : Word} (hcall : isACall (byteOf v 0) = true) (hsib : X86.HasSib v)
    (mem : Mem) (ext : Bool) (regs : UserRegs) :
    (resolveSib mem (prefixOf ext) v (rexOf ext) regs).1
      = mem.peek (X86.sibIndex (gprFile regs) (byteOf v 1) + codeBase ext (byteOf v 1) regs +
          X86.disp v 2) := by
  have hbyte : ((v >>> 8) &&& 0xFF#64).setWidth 8 = byteOf v 1 := by
    rw [setWidth_and_255]
    exact byteOf_shiftRight v 1 0
  simp only [resolveSib, hbyte, getValueIndexScale_eq, getValueBase_eq, sibDisp_addr hcall hsib]

/-! ## 4. Every operand -/

/-- The register that is read for an operand without a SIB byte. -/
def codeReg (ext : Bool) (b : BitVec 8) : Reg :=
  if X86.upper b = 0 ∧ X86.lower b = 5 then .rip
  else if ext = true ∧ b = 0x17#8 then .r14
  else gpr (X86.lower b + extB ext)

/-- **The rows of `g_regs_call`**: no register for a SIB operand, no memory for a direct one. -/
theorem gRegsCall_rows : ∀ ext : Bool, ∀ b : BitVec 8, isACall b = true →
    (gRegsCall.find? fun e => b = e.rmByte && rexOf ext = e.rex).map
        (fun e => (e.getReg.map regOf, e.indirectValue))
      = some (if X86.upper b ≠ 3 ∧ X86.lower b = 4 then none else some (codeReg ext b),
          if X86.upper b = 3 then 0 else 1) := by
  intro ext
  refine forall_isACall ?_
  cases ext <;> decide +kernel

/-- The size of the displacement of an operand without a SIB byte. -/
theorem getSizeSib_eq : ∀ b : BitVec 8, isACall b = true → ¬ (X86.upper b ≠ 3 ∧ X86.lower b = 4) →
    getSizeSib b = if X86.upper b = 1 then 1
      else if X86.upper b = 2 ∨ X86.upper b = 0 ∧ X86.lower b = 5 then 4 else 0 := by
  refine forall_isACall ?_
  decide +kernel

/-- The ModRM byte of a rip-relative call. -/
theorem ripRelative_byte_iff : ∀ b : BitVec 8, isACall b = true →
    (b = 0x15#8 ↔ X86.upper b = 0 ∧ X86.lower b = 5) := by
  refine forall_isACall ?_
  decide +kernel

/-- The address at which the code looks for the target of a call through memory. -/
def codeAddr (ext : Bool) (v : Word) (regs : UserRegs) : Word :=
  if X86.HasSib v then
    X86.sibIndex (gprFile regs) (byteOf v 1) + codeBase ext (byteOf v 1) regs + X86.disp v 2
  else if X86.IsRipRelative v then
    getRip regs + X86.disp32 v 1 + (6 + (rexOf ext).signExtend 64)
  else (codeReg ext (byteOf v 0)).read regs + X86.disp v 1

/-- What `get_addr_func` adds to the register. -/
theorem getSib_addr {v : Word} (hcall : isACall (byteOf v 0) = true) (hsib : ¬ X86.HasSib v)
    (addr : Word) :
    addr + (if getSizeSib (byteOf v 0) = 4 then (getSib v (getSizeSib (byteOf v 0))).signExtend 64
      else if getSizeSib (byteOf v 0) = 1 then
        ((getSib v (getSizeSib (byteOf v 0))).setWidth 8).signExtend 64
      else 0)
      = if X86.IsRipRelative v then addr + X86.disp32 v 1 else addr + X86.disp v 1 := by
  have hsize := getSizeSib_eq (byteOf v 0) hcall hsib
  have hup := X86.upper_lt (byteOf v 0)
  by_cases h1 : X86.upper (byteOf v 0) = 1
  · have hrip : ¬ X86.IsRipRelative v := by
      intro h
      have h0 := h.1
      omega
    rw [if_pos h1] at hsize
    rw [hsize, if_neg (by decide), if_pos rfl, if_neg hrip, getSib_byte, X86.disp, if_pos h1]
  · rw [if_neg h1] at hsize
    by_cases hrip : X86.IsRipRelative v
    · have hor : X86.upper (byteOf v 0) = 2 ∨
          X86.upper (byteOf v 0) = 0 ∧ X86.lower (byteOf v 0) = 5 := .inr hrip
      rw [if_pos hor] at hsize
      rw [hsize, if_pos rfl, if_pos hrip, getSib_dword]
    · by_cases h2 : X86.upper (byteOf v 0) = 2
      · have hor : X86.upper (byteOf v 0) = 2 ∨
            X86.upper (byteOf v 0) = 0 ∧ X86.lower (byteOf v 0) = 5 := .inl h2
        rw [if_pos hor] at hsize
        rw [hsize, if_pos rfl, if_neg hrip, getSib_dword, X86.disp, if_neg h1, if_pos h2]
      · have hor : ¬ (X86.upper (byteOf v 0) = 2 ∨
            X86.upper (byteOf v 0) = 0 ∧ X86.lower (byteOf v 0) = 5) := by
          rintro (h | h)
          · exact h2 h
          · exact hrip h
        rw [if_neg hor] at hsize
        rw [hsize, if_neg (by decide), if_neg (by decide), if_neg hrip, X86.disp, if_neg h1,
          if_neg h2]

/-- The row that is found for the operand of a call. -/
theorem exists_operand_row {v : Word} (hcall : isACall (byteOf v 0) = true) (ext : Bool) :
    ∃ e ∈ gRegsCall, gRegsCall.find?
        (fun e => v &&& 0xFF#64 = e.rmByte.setWidth 64 && rexOf ext = e.rex) = some e ∧
      (e.rmByte = byteOf v 0 ∧ e.rex = rexOf ext) ∧
      (e.getReg.map regOf = if X86.HasSib v then none else some (codeReg ext (byteOf v 0))) ∧
      e.indirectValue = if X86.IsDirect v then 0 else 1 := by
  have hrow := gRegsCall_rows ext (byteOf v 0) hcall
  obtain ⟨e, he, hpair⟩ := Option.map_eq_some_iff.mp hrow
  obtain ⟨hreg, hval⟩ := Prod.mk.inj hpair
  have hkey := List.find?_some he
  simp only [Bool.and_eq_true, decide_eq_true_eq] at hkey
  exact ⟨e, List.mem_of_find?_eq_some he, (find_row v (rexOf ext)).trans he,
    ⟨hkey.1.symm, hkey.2.symm⟩, hreg, hval⟩

/-- **What `print_call` returns for an operand**: a register, or the word at `codeAddr`. -/
theorem printIndirect_addr {v : Word} (hcall : isACall (byteOf v 0) = true) (mem : Mem)
    (ext : Bool) (regs : UserRegs) :
    (printIndirect mem (prefixOf ext) v (rexOf ext) regs).addr
      = if X86.IsDirect v then (codeReg ext (byteOf v 0)).read regs
        else mem.peek (codeAddr ext v regs) := by
  obtain ⟨e, hmem, hfind, -, hreg, hval⟩ := exists_operand_row hcall ext
  simp only [printIndirect, setWidth_and_255, hcall, if_true, printRmByteCall, hfind, getAddrFunc]
  by_cases hsib : X86.HasSib v
  · have hdir : ¬ X86.IsDirect v := hsib.1
    have hnone : e.getReg = none := Option.map_eq_none_iff.mp (hreg.trans (if_pos hsib))
    rw [hnone, if_neg hdir, codeAddr, if_pos hsib]
    exact resolveSib_addr hcall hsib mem ext regs
  · obtain ⟨f, hf, hfreg⟩ := Option.map_eq_some_iff.mp (hreg.trans (if_neg hsib))
    have hread : f = (codeReg ext (byteOf v 0)).read := by
      rw [← hfreg]
      exact read_regOf_call e hmem f hf
    rw [hf]
    simp only
    by_cases hdir : X86.IsDirect v
    · rw [if_pos hdir, if_pos (hval.trans (if_pos hdir)), hread]
    · have hone : e.indirectValue = 1 := hval.trans (if_neg hdir)
      have h15 : v &&& 0xFF#64 = 0x15#64 ↔ X86.IsRipRelative v :=
        (and_255_eq_iff v 0x15#8).trans (ripRelative_byte_iff (byteOf v 0) hcall)
      rw [if_neg hdir, if_neg (by rw [hone]; decide), getSib_addr hcall hsib, hread, codeAddr,
        if_neg hsib]
      simp only [h15]
      by_cases hrip : X86.IsRipRelative v
      · have hcode : codeReg ext (byteOf v 0) = .rip := if_pos hrip
        rw [if_pos hrip, if_pos hrip, if_pos hrip, hcode]
        rfl
      · rw [if_neg hrip, if_neg hrip, if_neg hrip]

end Ftrace
