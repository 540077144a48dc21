/-
# Operands with a SIB byte

`get_sib.c`, `getter_sib.c`, `utils_sib.c`, `resolve_sib.c` and `print_spaces.c`: how an
indirect call through `[index * scale + base + displacement]` is printed and resolved.

A function of the source that prints and returns a value is modelled as the pair of the value
and the text it printed.  `g_prefix` is a global of the source; the functions that read it
take it as an argument.
-/
import Ftrace.Lib.CText
import Ftrace.Tracee

namespace Ftrace

open CText Bytes

/-! ## 1. Padding -/

/-- `SPACES`. -/
def SPACES : ℕ := 40

/-- `print_space (cara)`, where `cara` characters of the line are already out. -/
def printSpace (cara : ℕ) : Text :=
  if cara = 0 then [] else List.replicate (SPACES - cara) '.' ++ [' ']

/-- A line that starts in the first forty columns goes on in column 41. -/
theorem length_append_printSpace {t : Text} (h0 : 0 < t.length) (h : t.length ≤ SPACES) :
    (t ++ printSpace t.length).length = 41 := by
  have hne : t.length ≠ 0 := by omega
  simp only [printSpace, hne, if_false, List.length_append, List.length_replicate,
    List.length_singleton]
  simp only [SPACES] at h ⊢
  omega

/-! ## 2. Displacements -/

/-- `get_size_sib`. -/
def getSizeSib (rmByte : BitVec 8) : ℕ :=
  if 0x50#8 ≤ rmByte ∧ rmByte ≤ 0x57#8 then 1
  else if (0x90#8 ≤ rmByte ∧ rmByte ≤ 0x97#8) ∨ rmByte = 0x15#8 then 4
  else 0

/-- `get_sib`. -/
def getSib (instr : Word) (sizeSib : ℕ) : BitVec 32 :=
  let instr := instr >>> 8
  if sizeSib = 1 then (instr &&& 0xFF#64).setWidth 32 else (instr &&& 0xFFFFFFFF#64).setWidth 32

/-- `get_sib_byte`. -/
def getSibByte (instr : Word) : BitVec 32 := ((instr >>> 16) &&& 0xFF#64).setWidth 32

/-- `get_sib_dword`. -/
def getSibDword (instr : Word) : BitVec 32 := ((instr >>> 16) &&& 0xFFFFFFFF#64).setWidth 32

/-- `manage_byte`: the address after the displacement, and the text. -/
def manageByte (instr : Word) (addr : Word) : Word × Text :=
  let dec : BitVec 8 := (getSibByte instr).setWidth 8
  (addr + dec.signExtend 64,
    " + byte(0x".toList ++ hexUp (dec.signExtend 32).toNat ++ ")".toList)

/-- `manage_dword`. -/
def manageDword (instr : Word) (addr : Word) : Word × Text :=
  let dec : BitVec 32 := getSibDword instr
  (addr + dec.signExtend 64, " + dword(0x".toList ++ hexUp dec.toNat ++ ")".toList)

/-! ## 3. The tables -/

/-- `t_sib`. -/
structure TSib where
  name : Text
  nameExt : Text
  scale : BitVec 8
  sibMin : BitVec 8
  sibMax : BitVec 8
  getReg : Option (UserRegs → Word)
  getRegExt : Option (UserRegs → Word)

/-- `t_sib_base`. -/
structure TSibBase where
  name : Text
  rex : BitVec 8
  base : BitVec 8
  getReg : Option (UserRegs → Word)

/-- `g_sib`. -/
def gSib : List TSib :=
  [
    ⟨"rax*1 + %s".toList, "r8*1  + %s".toList, 1, 0x00, 0x07, some getRax, some getR8⟩,
    ⟨"rcx*1 + %s".toList, "r9*1  + %s".toList, 1, 0x08, 0x0F, some getRcx, some getR9⟩,
    ⟨"rdx*1 + %s".toList, "r10*1 + %s".toList, 1, 0x10, 0x17, some getRdx, some getR10⟩,
    ⟨"rbx*1 + %s".toList, "r11*1 + %s".toList, 1, 0x18, 0x1F, some getRbx, some getR11⟩,
    ⟨"000*1 + %s".toList, "r12*1 + %s".toList, 1, 0x20, 0x27, none, some getR12⟩,
    ⟨"rbp*1 + %s".toList, "r13*1 + %s".toList, 1, 0x28, 0x2F, some getRbp, some getR13⟩,
    ⟨"rsi*1 + %s".toList, "r14*1 + %s".toList, 1, 0x30, 0x37, some getRsi, some getR14⟩,
    ⟨"rdi*1 + %s".toList, "r15*1 + %s".toList, 1, 0x38, 0x3F, some getRdi, some getR15⟩,
    ⟨"rax*2 + %s".toList, "r8*2  + %s".toList, 2, 0x40, 0x47, some getRax, some getR8⟩,
    ⟨"rcx*2 + %s".toList, "r9*2  + %s".toList, 2, 0x48, 0x4F, some getRcx, some getR9⟩,
    ⟨"rdx*2 + %s".toList, "r10*2 + %s".toList, 2, 0x50, 0x57, some getRdx, some getR10⟩,
    ⟨"rbx*2 + %s".toList, "r11*2 + %s".toList, 2, 0x58, 0x5F, some getRbx, some getR11⟩,
    ⟨"000*2 + %s".toList, "r12*2 + %s".toList, 2, 0x60, 0x67, none, some getR12⟩,
    ⟨"rbp*2 + %s".toList, "r13*2 + %s".toList, 2, 0x68, 0x6F, some getRbp, some getR13⟩,
    ⟨"rsi*2 + %s".toList, "r14*2 + %s".toList, 2, 0x70, 0x77, some getRsi, some getR14⟩,
    ⟨"rdi*2 + %s".toList, "r15*2 + %s".toList, 2, 0x78, 0x7F, some getRdi, some getR15⟩,
    ⟨"rax*4 + %s".toList, "r8*4  + %s".toList, 4, 0x80, 0x87, some getRax, some getR8⟩,
    ⟨"rcx*4 + %s".toList, "r9*4  + %s".toList, 4, 0x88, 0x8F, some getRcx, some getR9⟩,
    ⟨"rdx*4 + %s".toList, "r10*4 + %s".toList, 4, 0x90, 0x97, some getRdx, some getR10⟩,
    ⟨"rbx*4 + %s".toList, "r11*4 + %s".toList, 4, 0x98, 0x9F, some getRbx, some getR11⟩,
    ⟨"000*4 + %s".toList, "r12*4 + %s".toList, 4, 0xA0, 0xA7, none, some getR12⟩,
    ⟨"rbp*4 + %s".toList, "r13*4 + %s".toList, 4, 0xA8, 0xAF, some getRbp, some getR13⟩,
    ⟨"rsi*4 + %s".toList, "r14*4 + %s".toList, 4, 0xB0, 0xB7, some getRsi, some getR14⟩,
    ⟨"rdi*4 + %s".toList, "r15*4 + %s".toList, 4, 0xB8, 0xBF, some getRdi, some getR15⟩,
    ⟨"rax*8 + %s".toList, "r8*8  + %s".toList, 8, 0xC0, 0xC7, some getRax, some getR8⟩,
    ⟨"rcx*8 + %s".toList, "r9*8  + %s".toList, 8, 0xC8, 0xCF, some getRcx, some getR9⟩,
    ⟨"rdx*8 + %s".toList, "r10*8 + %s".toList, 8, 0xD0, 0xD7, some getRdx, some getR10⟩,
    ⟨"rbx*8 + %s".toList, "r11*8 + %s".toList, 8, 0xD8, 0xDF, some getRbx, some getR11⟩,
    ⟨"000*8 + %s".toList, "r12*8 + %s".toList, 8, 0xE0, 0xE7, none, some getR12⟩,
    ⟨"rbp*8 + %s".toList, "r13*8 + %s".toList, 8, 0xE8, 0xEF, some getRbp, some getR13⟩,
    ⟨"rsi*8 + %s".toList, "r14*8 + %s".toList, 8, 0xF0, 0xF7, some getRsi, some getR14⟩,
    ⟨"rdi*8 + %s".toList, "r15*8 + %s".toList, 8, 0xF8, 0xFF, some getRdi, some getR15⟩
  ]

/-- `g_sib_base`. -/
def gSibBase : List TSibBase :=
  [
    ⟨"rax".toList, 0, 0b000, some getRax⟩,
    ⟨"rcx".toList, 0, 0b001, some getRcx⟩,
    ⟨"rdx".toList, 0, 0b010, some getRdx⟩,
    ⟨"rbx".toList, 0, 0b011, some getRcx⟩,
    ⟨"rsp".toList, 0, 0b100, some getRsp⟩,
    ⟨"%lX".toList, 0, 0b101, none⟩,
    ⟨"rsi".toList, 0, 0b110, some getRsi⟩,
    ⟨"rdi".toList, 0, 0b111, some getRdi⟩,
    ⟨" r8".toList, 1, 0b000, some getR8⟩,
    ⟨" r9".toList, 1, 0b001, some getR9⟩,
    ⟨"r10".toList, 1, 0b010, some getR10⟩,
    ⟨"r11".toList, 1, 0b011, some getR11⟩,
    ⟨"r12".toList, 1, 0b100, some getR12⟩,
    ⟨"%lX".toList, 1, 0b101, none⟩,
    ⟨"r14".toList, 1, 0b110, some getR14⟩,
    ⟨"r15".toList, 1, 0b111, some getR15⟩
  ]

/-! ## 4. Looking the byte up -/

/-- `get_base`. -/
def getBase (sib : BitVec 8) : BitVec 8 := sib &&& 0b111#8

/-- `get_index_sib`. -/
def getIndexSib (sib : BitVec 8) : ℕ :=
  (gSib.findIdx? fun e => e.sibMin ≤ sib && sib ≤ e.sibMax).getD 0

/-- `get_index_base`. -/
def getIndexBase (gPrefix base rex : BitVec 8) : ℕ :=
  (gSibBase.findIdx? fun e => base = e.base && (rex = e.rex || gPrefix = 0x42#8)).getD 0

/-- The register a table entry reads, 0 where the entry has none. -/
def readReg (f : Option (UserRegs → Word)) (regs : UserRegs) : Word :=
  match f with
  | some f => f regs
  | none => 0

/-- `get_value_index_scale`. -/
def getValueIndexScale (gPrefix : BitVec 8) (indexSib : ℕ) (rex : BitVec 8) (regs : UserRegs) :
    Word :=
  match gSib[indexSib]? with
  | none => 0
  | some e =>
    let value := if rex = 0 ∨ gPrefix = 0x41#8 then readReg e.getReg regs
      else readReg e.getRegExt regs
    value * e.scale.signExtend 64

/-- `get_value_base`. -/
def getValueBase (indexBase : ℕ) (regs : UserRegs) : Word :=
  match gSibBase[indexBase]? with
  | none => 0
  | some e => readReg e.getReg regs

/-- The one `%s` of a format. -/
def fmtString (arg : Text) : Text → Text
  | '%' :: 's' :: t => arg ++ t
  | c :: t => c :: fmtString arg t
  | [] => []

/-- The part of a name before the conversion. -/
def beforePercent (t : Text) : Text := t.takeWhile fun c => c != '%'

theorem fmtString_eq {p : Text} (hp : '%' ∉ p) (arg : Text) :
    fmtString arg (p ++ "%s".toList) = p ++ arg := by
  induction p with
  | nil => exact List.append_nil arg
  | cons c p ih =>
    rw [List.mem_cons, not_or] at hp
    obtain ⟨hc, hp⟩ := hp
    have hstep : fmtString arg (c :: (p ++ "%s".toList)) = c :: fmtString arg (p ++ "%s".toList) := by
      rw [fmtString]
      intro _ heq _
      exact hc heq.symm
    rw [List.cons_append, hstep, ih hp, List.cons_append]

/-- A format that ends in its conversion. -/
theorem fmtString_name {t : Text} (h : t = beforePercent t ++ "%s".toList) (arg : Text) :
    fmtString arg t = beforePercent t ++ arg := by
  have hp : '%' ∉ beforePercent t := by
    intro hmem
    simpa using List.mem_takeWhile_imp hmem
  have hfmt := fmtString_eq hp arg
  rwa [← h] at hfmt

/-- `print_sib`. -/
def printSib (gPrefix : BitVec 8) (indexSib indexBase : ℕ) (rex : BitVec 8) : Text :=
  match gSib[indexSib]?, gSibBase[indexBase]? with
  | some e, some b =>
    fmtString b.name (if rex = 0 ∨ gPrefix = 0x41#8 then e.name else e.nameExt)
  | _, _ => []

/-- The displacement a SIB operand has, by its ModRM byte: the address, and the text. -/
def sibDisp (instr addr : Word) : Word × Text :=
  if instr &&& 0xFF#64 = 0x54#64 then manageByte instr addr
  else if instr &&& 0xFF#64 = 0x94#64 then manageDword instr addr
  else (addr, [])

/-- `resolve_sib`: the word the operand points to, and the text. -/
def resolveSib (mem : Mem) (gPrefix : BitVec 8) (instr : Word) (rex : BitVec 8)
    (regs : UserRegs) : Word × Text :=
  let sib : BitVec 8 := ((instr >>> 8) &&& 0xFF#64).setWidth 8
  let indexSib := getIndexSib sib
  let indexBase := getIndexBase gPrefix (getBase sib) rex
  let addr := getValueIndexScale gPrefix indexSib rex regs + getValueBase indexBase regs
  let disp := sibDisp instr addr
  let line := "call [".toList ++ printSib gPrefix indexSib indexBase rex ++ disp.2 ++
    "]: ".toList
  (mem.peek disp.1, line ++ printSpace line.length)

end Ftrace
