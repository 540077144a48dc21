/-
# Decoding and printing calls

`print_calls.c`: the call that may start at `rip`, its operand, and the address it goes to.

`print_call` handles `E8` (relative) and `FF` with ModRM.reg = 2 (indirect), the latter also
behind the prefix 0x41.  Everything else it is given prints nothing and reports no call.  The
operand is looked up in `g_regs_call` by its ModRM byte; an entry without a register is a SIB
operand, which `resolve_sib` prints and resolves.
-/
import Ftrace.Sib
import Ftrace.TypeInstruction

namespace Ftrace

open CText Bytes

/-! ## 1. The table of operands -/

/-- `t_regs_call`. -/
structure TRegsCall where
  rex : BitVec 8
  indirectValue : BitVec 8
  name : Option Text
  rmByte : BitVec 8
  getReg : Option (UserRegs → Word)

/-- `g_regs_call`. -/
def gRegsCall : List TRegsCall :=
  [
    ⟨0, 1, some "[rax]".toList, 0x10, some getRax⟩,
    ⟨0, 1, some "[rcx]".toList, 0x11, some getRcx⟩,
    ⟨0, 1, some "[rdx]".toList, 0x12, some getRdx⟩,
    ⟨0, 1, some "[rbx]".toList, 0x13, some getRbx⟩,
    ⟨0, 1, none, 0x14, none⟩,
    ⟨0, 1, some "[rip + 0x%lX]".toList, 0x15, some getRip⟩,
    ⟨0, 1, some "[rsi]".toList, 0x16, some getRsi⟩,
    ⟨0, 1, some "[rdi]".toList, 0x17, some getRdi⟩,
    ⟨0, 1, some "[rax + byte(0x%X)]".toList, 0x50, some getRax⟩,
    ⟨0, 1, some "[rcx + byte(0x%X)]".toList, 0x51, some getRcx⟩,
    ⟨0, 1, some "[rdx + byte(0x%X)]".toList, 0x52, some getRdx⟩,
    ⟨0, 1, some "[rbx + byte(0x%X)]".toList, 0x53, some getRbx⟩,
    ⟨0, 1, none, 0x54, none⟩,
    ⟨0, 1, some "[rbp + byte(0x%X)]".toList, 0x55, some getRbp⟩,
    ⟨0, 1, some "[rsi + byte(0x%X)]".toList, 0x56, some getRsi⟩,
    ⟨0, 1, some "[rdi + byte(0x%X)]".toList, 0x57, some getRdi⟩,
    ⟨0, 1, some "[rax + dword(0x%X)]".toList, 0x90, some getRax⟩,
    ⟨0, 1, some "[rcx + dword(0x%X)]".toList, 0x91, some getRcx⟩,
    ⟨0, 1, some "[rdx + dword(0x%X)]".toList, 0x92, some getRdx⟩,
    ⟨0, 1, some "[rbx + dword(0x%X)]".toList, 0x93, some getRbx⟩,
    ⟨0, 1, none, 0x94, none⟩,
    ⟨0, 1, some "[rbp + dword(0x%X)]".toList, 0x95, some getRbp⟩,
    ⟨0, 1, some "[rsi + dword(0x%X)]".toList, 0x96, some getRsi⟩,
    ⟨0, 1, some "[rdi + dword(0x%X)]".toList, 0x97, some getRdi⟩,
    ⟨0, 0, some "rax".toList, 0xD0, some getRax⟩,
    ⟨0, 0, some "rcx".toList, 0xD1, some getRcx⟩,
    ⟨0, 0, some "rdx".toList, 0xD2, some getRdx⟩,
    ⟨0, 0, some "rbx".toList, 0xD3, some getRbx⟩,
    ⟨0, 0, some "rsp".toList, 0xD4, some getRsp⟩,
    ⟨0, 0, some "rbp".toList, 0xD5, some getRbp⟩,
    ⟨0, 0, some "rsi".toList, 0xD6, some getRsi⟩,
    ⟨0, 0, some "rdi".toList, 0xD7, some getRdi⟩,
    ⟨1, 1, some "[r8]".toList, 0x10, some getR8⟩,
    ⟨1, 1, some "[r9]".toList, 0x11, some getR9⟩,
    ⟨1, 1, some "[r10]".toList, 0x12, some getR10⟩,
    ⟨1, 1, some "[r11]".toList, 0x13, some getR11⟩,
    ⟨1, 1, none, 0x14, none⟩,
    ⟨1, 1, some "[rip + 0x%lX]".toList, 0x15, some getRip⟩,
    ⟨1, 1, some "[r14]".toList, 0x16, some getR14⟩,
    ⟨1, 1, some "[r15]".toList, 0x17, some getR14⟩,
    ⟨1, 1, some "[r8 + byte(0x%X)]".toList, 0x50, some getR8⟩,
    ⟨1, 1, some "[r9 + byte(0x%X)]".toList, 0x51, some getR9⟩,
    ⟨1, 1, some "[r10 + byte(0x%X)]".toList, 0x52, some getR10⟩,
    ⟨1, 1, some "[r11 + byte(0x%X)]".toList, 0x53, some getR11⟩,
    ⟨1, 1, none, 0x54, none⟩,
    ⟨1, 1, some "[r13 + byte(0x%X)]".toList, 0x55, some getR13⟩,
    ⟨1, 1, some "[r14 + byte(0x%X)]".toList, 0x56, some getR14⟩,
    ⟨1, 1, some "[r15 + byte(0x%X)]".toList, 0x57, some getR15⟩,
    ⟨1, 1, some "[r8 + dword(0x%X)]".toList, 0x90, some getR8⟩,
    ⟨1, 1, some "[r9 + dword(0x%X)]".toList, 0x91, some getR9⟩,
    ⟨1, 1, some "[r10 + dword(0x%X)]".toList, 0x92, some getR10⟩,
    ⟨1, 1, some "[r11 + dword(0x%X)]".toList, 0x93, some getR11⟩,
    ⟨1, 1, none, 0x94, none⟩,
    ⟨1, 1, some "[r13 + dword(0x%X)]".toList, 0x95, some getR13⟩,
    ⟨1, 1, some "[r14 + dword(0x%X)]".toList, 0x96, some getR14⟩,
    ⟨1, 1, some "[r15 + dword(0x%X)]".toList, 0x97, some getR15⟩,
    ⟨1, 0, some "r8".toList, 0xD0, some getR8⟩,
    ⟨1, 0, some "r9".toList, 0xD1, some getR9⟩,
    ⟨1, 0, some "r10".toList, 0xD2, some getR10⟩,
    ⟨1, 0, some "r11".toList, 0xD3, some getR11⟩,
    ⟨1, 0, some "r12".toList, 0xD4, some getR12⟩,
    ⟨1, 0, some "r13".toList, 0xD5, some getR13⟩,
    ⟨1, 0, some "r14".toList, 0xD6, some getR14⟩,
    ⟨1, 0, some "r15".toList, 0xD7, some getR15⟩
  ]

/-- `is_a_call`. -/
def isACall (rmByte : BitVec 8) : Bool := gRegsCall.any fun e => rmByte = e.rmByte

/-! ## 2. Printing -/

/-- The one `%X` or `%lX` of a format.  The value is an `unsigned int`; read as a `long` it is
the same number, the upper half of the register it is passed in being zero. -/
def fmtHex (v : BitVec 32) : Text → Text
  | '%' :: 'l' :: 'X' :: t => hexUp v.toNat ++ t
  | '%' :: 'X' :: t => hexUp v.toNat ++ t
  | c :: t => c :: fmtHex v t
  | [] => []

/-- `print_opcodes`: nothing without a format.  The 256 bytes of its buffer hold every operand
of the table. -/
def printOpcodes (fmt : Option Text) (sib : BitVec 32) : Text :=
  match fmt with
  | some fmt => "call ".toList ++ fmtHex sib fmt ++ ": ".toList
  | none => []

theorem printOpcodes_some (fmt : Text) (sib : BitVec 32) :
    printOpcodes (some fmt) sib = "call ".toList ++ fmtHex sib fmt ++ ": ".toList := rfl

/-! ## 3. The address -/

/-- `get_addr_func`: the address an operand leads to, and the text printed on the way. -/
def getAddrFunc (mem : Mem) (gPrefix : BitVec 8) (instr : Word) (e : TRegsCall) (rex : BitVec 8)
    (regs : UserRegs) : Word × Text :=
  let sizeSib := getSizeSib ((instr &&& 0xFF#64).setWidth 8)
  match e.getReg with
  | none => resolveSib mem gPrefix instr rex regs
  | some getReg =>
    if e.indirectValue = 0 then (getReg regs, [])
    else
      let sib := getSib instr sizeSib
      let addr := getReg regs +
        (if sizeSib = 4 then sib.signExtend 64
         else if sizeSib = 1 then (sib.setWidth 8).signExtend 64
         else 0)
      let addr := if instr &&& 0xFF#64 = 0x15#64 then addr + (6 + rex.signExtend 64) else addr
      (mem.peek addr, [])

/-- `print_rm_byte_call`: the first entry for this byte and this prefix. -/
def printRmByteCall (mem : Mem) (gPrefix : BitVec 8) (instr : Word) (sizeSib : ℕ)
    (rex : BitVec 8) (regs : UserRegs) : Word × Text :=
  match gRegsCall.find? fun e => instr &&& 0xFF#64 = e.rmByte.setWidth 64 && rex = e.rex with
  | none => (0, [])
  | some e =>
    let line := printOpcodes e.name (if sizeSib = 0 then 0 else getSib instr sizeSib)
    let addrFunc := getAddrFunc mem gPrefix instr e rex regs
    (addrFunc.1, line ++ printSpace line.length ++ addrFunc.2 ++ "0x".toList ++ hex16 addrFunc.1)

/-- `my_bswap`: the eight bytes of a word, reversed. -/
def myBswap (n : Word) : Word :=
  BitVec.ofNat 64 (leNat ((List.range 8).map fun i => byteOf n (7 - i)))

/-- What `print_call` leaves: the address it returns, the increments of `*a_call`, the text,
and `g_prefix`. -/
structure CallOut where
  addr : Word
  aCall : ℕ
  out : Text
  gPrefix : BitVec 8
  deriving DecidableEq, Repr

/-- The relative call: `rip + 5` and the displacement, which two byte swaps and four shifts
take out of the word. -/
def relativeAddr (instr : Word) (regs : UserRegs) : Word :=
  let instr := myBswap (((myBswap instr <<< 8) >>> 8) >>> 24) >>> 32
  (regs.rip + 5) + (instr.setWidth 32).signExtend 64

/-- The relative call as it is printed. -/
def printRelative (instr : Word) (regs : UserRegs) : CallOut :=
  let line := "call (relative):".toList
  let addr := relativeAddr instr regs
  ⟨addr, 1, line ++ printSpace line.length ++ "0x".toList ++ hex16 addr, 0⟩

/-- The end of `print_call` for `FF`: `instr` starts at the ModRM byte. -/
def printIndirect (mem : Mem) (gPrefix : BitVec 8) (instr : Word) (rex : BitVec 8)
    (regs : UserRegs) : CallOut :=
  let rmByte : BitVec 8 := (instr &&& 0xFF#64).setWidth 8
  if isACall rmByte then
    let r := printRmByteCall mem gPrefix instr (getSizeSib rmByte) rex regs
    ⟨r.1, 1, r.2, gPrefix⟩
  else ⟨0, 0, [], gPrefix⟩

/-- `print_call`.  The prefix 0x43 is named in the source but cannot arrive there. -/
def printCall (mem : Mem) (instr : Word) (regs : UserRegs) : CallOut :=
  if instr.setWidth 8 = 0xE8#8 then printRelative instr regs
  else if instr &&& 0xFF#64 = 0xFF#64 ∨ instr &&& 0xFFFF#64 = 0xFF41#64 then
    if instr &&& 0xFF#64 = 0x41#64 ∨ instr &&& 0xFF#64 = 0x43#64 then
      printIndirect mem ((instr &&& 0xFF#64).setWidth 8) (instr >>> 8 >>> 8) 1 regs
    else printIndirect mem 0 (instr >>> 8) 0 regs
  else ⟨0, 0, [], 0⟩

/-! ## 4. The words that are calls -/

/-- The field `reg` of a ModRM byte. -/
def modrmReg (b : BitVec 8) : BitVec 8 := (b >>> 3) &&& 7#8

/-- The table has a row for every ModRM byte with `reg` = 2, and for no other. -/
theorem isACall_iff (b : BitVec 8) : isACall b = true ↔ modrmReg b = 2#8 := by
  have h : ∀ b : BitVec 8, isACall b = decide (modrmReg b = 2#8) := by decide +kernel
  rw [h b, decide_eq_true_eq]

/-- What holds of the ModRM bytes with `reg` = 2 holds of those that have a row. -/
theorem forall_isACall {P : BitVec 8 → Prop} (h : ∀ b, modrmReg b = 2#8 → P b) :
    ∀ b, isACall b = true → P b := by
  intro b hb
  exact h b ((isACall_iff b).mp hb)

/-- The calls `print_call` knows: `E8`, `FF /2`, and `FF /2` behind the prefix 0x41. -/
def IsCallWord (w : Word) : Prop :=
  byteOf w 0 = 0xE8#8 ∨
    (byteOf w 0 = 0xFF#8 ∧ modrmReg (byteOf w 1) = 2#8) ∨
    (byteOf w 0 = 0x41#8 ∧ byteOf w 1 = 0xFF#8 ∧ modrmReg (byteOf w 2) = 2#8)

instance (w : Word) : Decidable (IsCallWord w) := inferInstanceAs (Decidable (_ ∨ _))

theorem isCall_of_isCallWord {w : Word} (h : IsCallWord w) : instructionIsCall w ≠ FAILURE := by
  rw [instructionIsCall_iff]
  rcases h with h | ⟨h, -⟩ | ⟨h, -, -⟩ <;> simp [h]

/-- **Everything `print_call` can do**, by the bytes of the word. -/
theorem printCall_cases (mem : Mem) (w : Word) (regs : UserRegs) :
    (byteOf w 0 = 0xE8#8 ∧ printCall mem w regs = printRelative w regs) ∨
    (byteOf w 0 = 0xFF#8 ∧ printCall mem w regs = printIndirect mem 0 (w >>> 8) 0 regs) ∨
    ((byteOf w 0 = 0x41#8 ∧ byteOf w 1 = 0xFF#8) ∧
      printCall mem w regs = printIndirect mem 0x41#8 (w >>> 16) 1 regs) ∨
    ((byteOf w 0 ≠ 0xE8#8 ∧ byteOf w 0 ≠ 0xFF#8 ∧
        ¬ (byteOf w 0 = 0x41#8 ∧ byteOf w 1 = 0xFF#8)) ∧
      printCall mem w regs = ⟨0, 0, [], 0⟩) := by
  have hE8 : w.setWidth 8 = 0xE8#8 ↔ byteOf w 0 = 0xE8#8 := by simp [byteOf]
  have hFF : w &&& 0xFF#64 = 0xFF#64 ↔ byteOf w 0 = 0xFF#8 := and_255_eq_iff w 0xFF#8
  have h41 : w &&& 0xFF#64 = 0x41#64 ↔ byteOf w 0 = 0x41#8 := and_255_eq_iff w 0x41#8
  have h43 : w &&& 0xFF#64 = 0x43#64 ↔ byteOf w 0 = 0x43#8 := and_255_eq_iff w 0x43#8
  have hFF41 : w &&& 0xFFFF#64 = 0xFF41#64 ↔ byteOf w 0 = 0x41#8 ∧ byteOf w 1 = 0xFF#8 :=
    and_65535_eq_iff w 0x41#8 0xFF#8
  simp only [printCall, hE8, hFF, h41, h43, hFF41, setWidth_and_255]
  by_cases h0 : byteOf w 0 = 0xE8#8
  · exact .inl ⟨h0, if_pos h0⟩
  · rw [if_neg h0]
    by_cases h1 : byteOf w 0 = 0xFF#8
    · refine .inr (.inl ⟨h1, ?_⟩)
      rw [if_pos (.inl h1), if_neg (by rw [h1]; decide)]
    · by_cases h2 : byteOf w 0 = 0x41#8 ∧ byteOf w 1 = 0xFF#8
      · refine .inr (.inr (.inl ⟨h2, ?_⟩))
        rw [if_pos (.inr h2), if_pos (.inl h2.1), h2.1, ← BitVec.shiftRight_add]
      · refine .inr (.inr (.inr ⟨⟨h0, h1, h2⟩, ?_⟩))
        rw [if_neg (not_or.mpr ⟨h1, h2⟩)]

theorem printIndirect_aCall (mem : Mem) (gPrefix : BitVec 8) (w : Word) (rex : BitVec 8)
    (regs : UserRegs) :
    (printIndirect mem gPrefix w rex regs).aCall = if modrmReg (byteOf w 0) = 2#8 then 1 else 0 := by
  simp only [printIndirect, setWidth_and_255]
  split
  · rename_i h
    rw [if_pos ((isACall_iff _).mp h)]
  · rename_i h
    rw [if_neg (mt (isACall_iff _).mpr h)]

/-- **What `print_call` reports**: one call at each of these words, nothing at any other. -/
theorem printCall_aCall (mem : Mem) (w : Word) (regs : UserRegs) :
    (printCall mem w regs).aCall = if IsCallWord w then 1 else 0 := by
  have h1 : byteOf (w >>> 8) 0 = byteOf w 1 := byteOf_shiftRight w 1 0
  have h2 : byteOf (w >>> 16) 0 = byteOf w 2 := byteOf_shiftRight w 2 0
  rcases printCall_cases mem w regs with ⟨h, hp⟩ | ⟨h, hp⟩ | ⟨⟨h, h'⟩, hp⟩ | ⟨⟨hE8, hFF, h41⟩, hp⟩
  · rw [hp, if_pos (.inl h)]
    rfl
  · rw [hp, printIndirect_aCall, h1]
    simp [IsCallWord, h]
  · rw [hp, printIndirect_aCall, h2]
    simp [IsCallWord, h, h']
  · have hnot : ¬ IsCallWord w := by
      rintro (h | ⟨h, -⟩ | ⟨h, h', -⟩)
      · exact hE8 h
      · exact hFF h
      · exact h41 ⟨h, h'⟩
    rw [hp, if_neg hnot]

theorem printIndirect_out_of_no_call {mem : Mem} {gPrefix : BitVec 8} {w : Word}
    {rex : BitVec 8} {regs : UserRegs} (h : (printIndirect mem gPrefix w rex regs).aCall = 0) :
    (printIndirect mem gPrefix w rex regs).out = [] := by
  simp only [printIndirect] at h ⊢
  split at h
  · cases h
  · rename_i hn
    rw [if_neg hn]

/-- Without a call nothing is printed. -/
theorem printCall_out_of_no_call {mem : Mem} {w : Word} {regs : UserRegs}
    (h : (printCall mem w regs).aCall = 0) : (printCall mem w regs).out = [] := by
  rcases printCall_cases mem w regs with ⟨-, hp⟩ | ⟨-, hp⟩ | ⟨-, hp⟩ | ⟨-, hp⟩
  · rw [hp] at h
    cases h
  · rw [hp] at h ⊢
    exact printIndirect_out_of_no_call h
  · rw [hp] at h ⊢
    exact printIndirect_out_of_no_call h
  · rw [hp]

/-! ## 5. The shape of a printed call -/

/-- The text of a call: 41 columns that name the operand, then the address. -/
structure CallText (out : Text) (addr : Word) : Prop where
  eq : ∃ header, out = header ++ ("0x".toList ++ hex16 addr) ∧ header.length = 41 ∧
    header.head? = some 'c' ∧ nul ∉ header

/-- A line of up to forty columns, padded, is such a header. -/
theorem CallText.of_line {line : Text} (h0 : line.head? = some 'c') (hlen : line.length ≤ SPACES)
    (hnul : nul ∉ line) (addr : Word) :
    CallText (line ++ printSpace line.length ++ "0x".toList ++ hex16 addr) addr := by
  have hpos : 0 < line.length := by
    cases line with
    | nil => cases h0
    | cons c t => exact Nat.succ_pos _
  refine ⟨line ++ printSpace line.length, by simp, length_append_printSpace hpos hlen, ?_, ?_⟩
  · rw [List.head?_append, h0]
    rfl
  · rw [List.mem_append, not_or]
    refine ⟨hnul, ?_⟩
    simp only [printSpace]
    split
    · simp
    · simp [nul]

theorem length_fmtHex_le (v : BitVec 32) (t : Text) : (fmtHex v t).length ≤ t.length + 8 := by
  have hv : (hexUp v.toNat).length ≤ 8 := length_hexUp_le (by decide) v.isLt
  fun_induction fmtHex v t with
  | case1 t => simp only [List.length_append, List.length_cons]; omega
  | case2 t => simp only [List.length_append, List.length_cons]; omega
  | case3 c t _ _ ih => simp only [List.length_cons]; omega
  | case4 => simp

theorem nul_not_mem_fmtHex {v : BitVec 32} {t : Text} (h : nul ∉ t) : nul ∉ fmtHex v t := by
  fun_induction fmtHex v t with
  | case1 t => simp_all [List.mem_cons]
  | case2 t => simp_all [List.mem_cons]
  | case3 c t _ _ ih => simp_all [List.mem_cons]
  | case4 => simp

/-- What the table guarantees of its names: an operand has one unless it is a SIB operand,
and it is short. -/
theorem gRegsCall_names : ∀ e ∈ gRegsCall, e.getReg.isNone = e.name.isNone ∧
    ∀ n ∈ e.name, n.length ≤ 20 ∧ nul ∉ n := by
  decide +kernel

/-- Every ModRM byte of a call has a row with either prefix. -/
theorem exists_row {b rex : BitVec 8} (hb : isACall b = true) (hrex : rex = 0 ∨ rex = 1) :
    ∃ e, gRegsCall.find? (fun e => b = e.rmByte && rex = e.rex) = some e := by
  have h : ∀ b : BitVec 8, isACall b = true → ∀ rex ∈ [0#8, 1#8],
      (gRegsCall.find? (fun e => b = e.rmByte && rex = e.rex)).isSome := by
    refine forall_isACall ?_
    decide +kernel
  have hmem : rex ∈ [0#8, 1#8] := by
    rcases hrex with rfl | rfl <;> simp
  exact Option.isSome_iff_exists.mp (h b hb rex hmem)

/-- The row is looked for by the ModRM byte. -/
theorem find_row (w : Word) (rex : BitVec 8) :
    gRegsCall.find? (fun e => w &&& 0xFF#64 = e.rmByte.setWidth 64 && rex = e.rex)
      = gRegsCall.find? fun e => byteOf w 0 = e.rmByte && rex = e.rex := by
  refine congrFun (congrArg _ (funext fun e => ?_)) _
  rw [decide_eq_decide.mpr (and_255_eq_iff w e.rmByte)]

/-- An operand in a register has a name. -/
theorem exists_name {e : TRegsCall} (he : e ∈ gRegsCall) (hreg : e.getReg.isSome = true) :
    ∃ n, e.name = some n := by
  have h := (gRegsCall_names e he).1
  rw [Option.isNone_eq_false_iff.mpr hreg] at h
  exact Option.isSome_iff_exists.mp (Option.isNone_eq_false_iff.mp h.symm)

/-- A name of an index asks for the name of the base at its end. -/
theorem gSib_names : ∀ e ∈ gSib, ∀ n ∈ [e.name, e.nameExt], n = beforePercent n ++ "%s".toList ∧
    (beforePercent n).length = 8 ∧ nul ∉ beforePercent n := by
  decide +kernel

theorem gSibBase_names : ∀ b ∈ gSibBase, b.name.length = 3 ∧ nul ∉ b.name := by
  decide +kernel

/-- A printed SIB operand is short, whatever rows are chosen. -/
theorem printSib_short (gPrefix : BitVec 8) (i b : ℕ) (rex : BitVec 8) :
    (printSib gPrefix i b rex).length ≤ 11 ∧ nul ∉ printSib gPrefix i b rex := by
  simp only [printSib]
  split
  · rename_i e b' he hb'
    have hn : (if rex = 0 ∨ gPrefix = 0x41#8 then e.name else e.nameExt) ∈ [e.name, e.nameExt] := by
      split <;> simp
    obtain ⟨hname, hlen, hnul⟩ := gSib_names e (List.mem_of_getElem? he) _ hn
    obtain ⟨hblen, hbnul⟩ := gSibBase_names b' (List.mem_of_getElem? hb')
    rw [fmtString_name hname, List.length_append, List.mem_append, hlen, hblen]
    exact ⟨Nat.le_refl _, fun h => h.elim hnul hbnul⟩
  · simp

/-- So is its displacement. -/
theorem sibDisp_short (instr addr : Word) :
    (sibDisp instr addr).2.length ≤ 20 ∧ nul ∉ (sibDisp instr addr).2 := by
  have hlen (v : BitVec 32) : (hexUp v.toNat).length ≤ 8 := length_hexUp_le (by decide) v.isLt
  simp only [sibDisp]
  split
  · have h8 := hlen (((getSibByte instr).setWidth 8).signExtend 32)
    refine ⟨?_, ?_⟩
    · simp only [manageByte, List.length_append]
      have h1 : " + byte(0x".toList.length = 10 := by decide
      have h2 : ")".toList.length = 1 := by decide
      omega
    · simp [manageByte, nul]
  · split
    · have h8 := hlen (getSibDword instr)
      refine ⟨?_, ?_⟩
      · simp only [manageDword, List.length_append]
        have h1 : " + dword(0x".toList.length = 11 := by decide
        have h2 : ")".toList.length = 1 := by decide
        omega
      · simp [manageDword, nul]
    · simp

/-- A SIB operand, padded, is a header of 41 columns. -/
theorem callText_resolveSib (mem : Mem) (gPrefix : BitVec 8) (w : Word) (rex : BitVec 8)
    (regs : UserRegs) :
    CallText ((resolveSib mem gPrefix w rex regs).2 ++ "0x".toList ++
      hex16 (resolveSib mem gPrefix w rex regs).1) (resolveSib mem gPrefix w rex regs).1 := by
  simp only [resolveSib]
  refine CallText.of_line ?_ ?_ ?_ _
  · simp
  · have hs := (printSib_short gPrefix (getIndexSib (((w >>> 8) &&& 0xFF#64).setWidth 8))
      (getIndexBase gPrefix (getBase (((w >>> 8) &&& 0xFF#64).setWidth 8)) rex) rex).1
    have h1 : "call [".toList.length = 6 := by decide
    have h2 : "]: ".toList.length = 3 := by decide
    simp only [List.length_append, SPACES]
    have hd := (sibDisp_short w (getValueIndexScale gPrefix
      (getIndexSib (((w >>> 8) &&& 0xFF#64).setWidth 8)) rex regs + getValueBase
      (getIndexBase gPrefix (getBase (((w >>> 8) &&& 0xFF#64).setWidth 8)) rex) regs)).1
    omega
  · have h1 : nul ∉ "call [".toList := by decide
    have h2 : nul ∉ "]: ".toList := by decide
    simp only [List.mem_append, not_or]
    exact ⟨⟨⟨h1, (printSib_short _ _ _ _).2⟩, (sibDisp_short _ _).2⟩, h2⟩

/-- An operand in a register, padded, is a header of 41 columns too. -/
theorem callText_printOpcodes {n : Text} (hlen : n.length ≤ 20) (hnul : nul ∉ n) (sib : BitVec 32)
    (addr : Word) :
    CallText (printOpcodes (some n) sib ++ printSpace (printOpcodes (some n) sib).length ++
      "0x".toList ++ hex16 addr) addr := by
  refine CallText.of_line rfl ?_ ?_ _
  · have h1 : "call ".toList.length = 5 := by decide
    have h2 : ": ".toList.length = 2 := by decide
    have h3 := length_fmtHex_le sib n
    rw [printOpcodes_some, List.length_append, List.length_append, SPACES]
    omega
  · have h1 : nul ∉ "call ".toList := by decide
    have h2 : nul ∉ ": ".toList := by decide
    rw [printOpcodes_some, List.mem_append, List.mem_append, not_or, not_or]
    exact ⟨⟨h1, nul_not_mem_fmtHex hnul⟩, h2⟩

/-- **Every call that is reported is printed in one shape.** -/
theorem callText_printIndirect {mem : Mem} {gPrefix : BitVec 8} {w : Word} {rex : BitVec 8}
    {regs : UserRegs} (hrex : rex = 0 ∨ rex = 1)
    (h : (printIndirect mem gPrefix w rex regs).aCall = 1) :
    CallText (printIndirect mem gPrefix w rex regs).out
      (printIndirect mem gPrefix w rex regs).addr := by
  simp only [printIndirect, setWidth_and_255] at h ⊢
  split at h
  · rename_i hb
    rw [if_pos hb]
    obtain ⟨e, he⟩ := exists_row hb hrex
    rw [← find_row] at he
    obtain ⟨hnone, hname⟩ := gRegsCall_names e (List.mem_of_find?_eq_some he)
    simp only [printRmByteCall, he]
    cases hget : e.getReg with
    | none =>
      have hn : e.name = none := by simpa [hget] using hnone
      have hline : ∀ v, printOpcodes e.name v = [] := fun v => by rw [hn]; rfl
      simp only [hline, getAddrFunc, hget]
      exact callText_resolveSib mem gPrefix w rex regs
    | some f =>
      obtain ⟨n, hn⟩ := exists_name (List.mem_of_find?_eq_some he) (by rw [hget]; rfl)
      obtain ⟨hlen, hnul⟩ := hname n hn
      have htext : (getAddrFunc mem gPrefix w e rex regs).2 = [] := by
        simp only [getAddrFunc, hget]
        split <;> rfl
      rw [htext, List.append_nil, hn]
      exact callText_printOpcodes hlen hnul _ _
  · cases h

theorem callText_printCall {mem : Mem} {w : Word} {regs : UserRegs}
    (h : (printCall mem w regs).aCall = 1) :
    CallText (printCall mem w regs).out (printCall mem w regs).addr := by
  rcases printCall_cases mem w regs with ⟨-, hp⟩ | ⟨-, hp⟩ | ⟨-, hp⟩ | ⟨-, hp⟩
  · rw [hp]
    exact CallText.of_line (by decide) (by decide) (by decide) _
  · rw [hp] at h ⊢
    exact callText_printIndirect (.inl rfl) h
  · rw [hp] at h ⊢
    exact callText_printIndirect (.inr rfl) h
  · rw [hp] at h
    cases h

end Ftrace
