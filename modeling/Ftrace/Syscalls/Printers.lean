/-
# Printing a syscall

The printers of `srcs/print/` and `srcs/functions/`, `get_params.c` and `disp_syscalls.c`.  In
the source each of them prints and returns the number of characters printed; here it returns
the text, whose length is that number.

Numbers go through the C types of the source: an `int` is the low half of the register, a
`char` of a peeked word is signed.  `print_type` finds the type of a parameter by indexing the
table with the syscall number itself, so it can leave the table; that is `none`.
-/
import Ftrace.Syscalls.Table
import Ftrace.Tracee

namespace Ftrace

open CText Bytes

/-! ## 1. Parameters and values -/

/-- `get_param`, the 64-bit column. -/
def getParam (regs : UserRegs) (nparam : ℕ) : Word :=
  ([regs.rdi, regs.rsi, regs.rdx, regs.rcx, regs.r8, regs.r9][nparam]?).getD (-1)

/-- A register as an `int`. -/
def toInt32 (v : Word) : BitVec 32 := v.setWidth 32

/-- `print_int`. -/
def printInt (v : Word) : Text := decInt (toInt32 v).toInt

/-- `print_size_t`. -/
def printSizeT (v : Word) : Text := decNat v.toNat

/-- `print_ssize_t`. -/
def printSsizeT (v : Word) : Text := decInt v.toInt

/-- `print_off_t`. -/
def printOffT (v : Word) : Text := if v ≠ 0 then "0x".toList ++ hexLow v.toNat else "0".toList

/-- `print_void_ptr`. -/
def printVoidPtr (v : Word) : Text := if v ≠ 0 then "0x".toList ++ hexLow v.toNat else "0".toList

/-- `print_word` of `print_char_ptr.c`: the first byte, and the second unless it is a NUL. -/
def printWordPtr (text : Word) : Text :=
  cstr (byteChar (byteOf text 0) ::
    if byteOf text 1 ≠ 0 then [byteChar (byteOf text 1)] else [])

/-- The loop of `print_char_ptr` with `n` rounds left: the text, and whether all were used. -/
def charPtrLoop (mem : Mem) : ℕ → Word → Text × Bool
  | 0, _ => ([], true)
  | n + 1, s =>
    let text := mem.peek s
    if byteOf text 0 = 0 then ([], n = 0)
    else
      let rest := charPtrLoop mem n (s + 2)
      (printWordPtr text ++ rest.1, rest.2)

/-- `print_char_ptr`. -/
def printCharPtr (mem : Mem) (value : Word) : Text :=
  if value = 0 then []
  else
    let loop := charPtrLoop mem 20 value
    "\"".toList ++ loop.1 ++ (if loop.2 then "\"...".toList else "\"".toList)

/-- `print_sspace (nb)`. -/
def printSspace (nb : ℕ) : Text := List.replicate (40 - nb) ' '

/-! ## 2. Flags -/

/-- One `if (flags & mask) printf (name)`. -/
def printFlag (flags mask : BitVec 32) (name : Text) : Text :=
  if flags &&& mask ≠ 0 then name else []

def O_RDONLY : BitVec 32 := 0
def O_WRONLY : BitVec 32 := 1
def O_RDWR : BitVec 32 := 2
def O_CREAT : BitVec 32 := 0x40
def O_EXCL : BitVec 32 := 0x80
def O_NOCTTY : BitVec 32 := 0x100
def O_TRUNC : BitVec 32 := 0x200
def O_APPEND : BitVec 32 := 0x400
def O_NONBLOCK : BitVec 32 := 0x800
def O_DSYNC : BitVec 32 := 0x1000
def O_ASYNC : BitVec 32 := 0x2000
def O_DIRECTORY : BitVec 32 := 0x10000
def O_NOFOLLOW : BitVec 32 := 0x20000
def O_CLOEXEC : BitVec 32 := 0x80000
def O_SYNC : BitVec 32 := 0x101000

/-- `print_flags2` of `open.c`. -/
def printOpenFlags2 (flags : BitVec 32) : Text :=
  printFlag flags O_DSYNC "|O_DSYNC".toList ++
  printFlag flags O_EXCL "|O_EXCL".toList ++
  printFlag flags O_NOCTTY "|O_NOCTTY".toList ++
  printFlag flags O_NOFOLLOW "|O_NOFOLLOW".toList ++
  printFlag flags O_NONBLOCK "|O_NONBLOCK".toList ++
  printFlag flags O_SYNC "|O_SYNC".toList ++
  printFlag flags O_TRUNC "|O_TRUNC".toList

/-- `print_flags` of `open.c`. -/
def printOpenFlags (flags : BitVec 32) : Text :=
  (if flags &&& O_RDONLY = 0 then "O_RDONLY".toList
   else if flags &&& O_WRONLY = 1 then "O_WRONLY".toList
   else if flags &&& O_RDWR = 2 then "O_RDWR".toList
   else []) ++
  printFlag flags O_APPEND "|O_APPEND".toList ++
  printFlag flags O_ASYNC "|O_ASYNC".toList ++
  printFlag flags O_CLOEXEC "|O_CLOEXEC".toList ++
  printFlag flags O_CREAT "|O_CREAT".toList ++
  printFlag flags O_DIRECTORY "|O_DIRECTORY".toList ++
  printOpenFlags2 flags

def S_IRWXU : BitVec 32 := 0o700
def S_IRUSR : BitVec 32 := 0o400
def S_IWUSR : BitVec 32 := 0o200
def S_IXUSR : BitVec 32 := 0o100
def S_IRWXG : BitVec 32 := 0o070
def S_IRGRP : BitVec 32 := 0o040
def S_IWGRP : BitVec 32 := 0o020
def S_IXGRP : BitVec 32 := 0o010
def S_IRWXO : BitVec 32 := 0o007
def S_IROTH : BitVec 32 := 0o004
def S_IWOTH : BitVec 32 := 0o002
def S_IXOTH : BitVec 32 := 0o001

/-- `print_mode` of `open.c`. -/
def printOpenMode (mode : BitVec 32) : Text :=
  let n : ℤ := 0
  let n := if mode &&& S_IRWXU ≠ 0 then 700 else n
  let n := if mode &&& S_IRUSR ≠ 0 then n + 400 else n
  let n := if mode &&& S_IWUSR ≠ 0 then n + 200 else n
  let n := if mode &&& S_IXUSR ≠ 0 then n + 100 else n
  let n := if mode &&& S_IRWXG ≠ 0 then 70 else n
  let n := if mode &&& S_IRGRP ≠ 0 then n + 40 else n
  let n := if mode &&& S_IWGRP ≠ 0 then n + 20 else n
  let n := if mode &&& S_IXGRP ≠ 0 then n + 10 else n
  let n := if mode &&& S_IRWXO ≠ 0 then 7 else n
  let n := if mode &&& S_IROTH ≠ 0 then n + 4 else n
  let n := if mode &&& S_IWOTH ≠ 0 then n + 2 else n
  let n := if mode &&& S_IXOTH ≠ 0 then n + 1 else n
  decInt n

def PROT_READ : BitVec 32 := 1
def PROT_WRITE : BitVec 32 := 2
def PROT_EXEC : BitVec 32 := 4

/-- The names of a protection.  The separator is chosen by a counter that the test before it has
already raised. -/
def protText (prot : BitVec 32) : Text :=
  if prot = 0 then "PROT_NONE".toList
  else
    printFlag prot PROT_READ "PROT_READ".toList ++
    printFlag prot PROT_WRITE "|PROT_WRITE".toList ++
    printFlag prot PROT_EXEC "|PROT_EXEC".toList

/-- `print_proto` of `mmap.c`. -/
def printProto (proto : BitVec 32) : Text := protText proto

/-- `print_prot` of `mprotect.c`, where the count of the characters is that of the text. -/
def printProt (prot : BitVec 32) : Text := protText prot

def MAP_PRIVATE : BitVec 32 := 0x02
def MAP_FIXED : BitVec 32 := 0x10
def MAP_ANONYMOUS : BitVec 32 := 0x20
def MAP_32BIT : BitVec 32 := 0x40
def MAP_GROWSDOWN : BitVec 32 := 0x100
def MAP_DENYWRITE : BitVec 32 := 0x800
def MAP_LOCKED : BitVec 32 := 0x2000
def MAP_NORESERVE : BitVec 32 := 0x4000
def MAP_POPULATE : BitVec 32 := 0x8000
def MAP_NONBLOCK : BitVec 32 := 0x10000
def MAP_STACK : BitVec 32 := 0x20000
def MAP_HUGETLB : BitVec 32 := 0x40000

/-- `print_flags` of `mmap.c`. -/
def printMapFlags (flags : BitVec 32) : Text :=
  (if flags &&& MAP_PRIVATE ≠ 0 then "MAP_PRIVATE".toList else "MAP_SHARED".toList) ++
  printFlag flags MAP_FIXED "|MAP_FIXED".toList ++
  printFlag flags MAP_32BIT "|MAP_32BIT".toList ++
  printFlag flags MAP_ANONYMOUS "|MAP_ANONYMOUS".toList ++
  printFlag flags MAP_DENYWRITE "|MAP_DENYWRITE".toList ++
  printFlag flags MAP_GROWSDOWN "|MAP_GROWSDOWN".toList ++
  printFlag flags MAP_HUGETLB "|MAP_HUGETLB".toList ++
  printFlag flags MAP_LOCKED "|MAP_LOCKED".toList ++
  printFlag flags MAP_NONBLOCK "|MAP_NONBLOCK".toList ++
  printFlag flags MAP_NORESERVE "|MAP_NORESERVE".toList ++
  printFlag flags MAP_POPULATE "|MAP_POPULATE".toList ++
  printFlag flags MAP_STACK "|MAP_STACK".toList

def F_OK : BitVec 32 := 0
def X_OK : BitVec 32 := 1
def W_OK : BitVec 32 := 2
def R_OK : BitVec 32 := 4

/-- `print_mode` of `access.c`. -/
def printAccessMode (mode : BitVec 32) : Text :=
  if mode = F_OK then "F_OK".toList
  else
    printFlag mode R_OK "R_OK".toList ++
    printFlag mode W_OK "W_OK".toList ++
    printFlag mode X_OK "X_OK".toList

/-! ## 3. The dedicated printers -/

/-- `print_access`. -/
def printAccess (mem : Mem) (regs : UserRegs) (ret : Word) : Text :=
  let line := "access(".toList ++ printCharPtr mem (getParam regs 0) ++ ", ".toList ++
    printAccessMode (toInt32 (getParam regs 1)) ++ ")".toList
  line ++ printSspace line.length ++ "= ".toList ++ printInt ret ++ "\n".toList

/-- `print_mmap`. -/
def printMmap (_mem : Mem) (regs : UserRegs) (ret : Word) : Text :=
  "mmap(".toList ++ printVoidPtr (getParam regs 0) ++ ", ".toList ++
  printSizeT (getParam regs 1) ++ ", ".toList ++
  printProto (toInt32 (getParam regs 2)) ++ ", ".toList ++
  printMapFlags (toInt32 (getParam regs 3)) ++ ", ".toList ++
  printInt (getParam regs 4) ++ ", ".toList ++
  printOffT (getParam regs 5) ++ ") = ".toList ++ printVoidPtr ret ++ "\n".toList

/-- `print_mmap2`. -/
def printMmap2 (_mem : Mem) (regs : UserRegs) (ret : Word) : Text :=
  "mmap2(".toList ++
  (if getParam regs 0 = 0 then "NULL".toList else printVoidPtr (getParam regs 0)) ++
  ", ".toList ++ printSizeT (getParam regs 1) ++ ", ".toList ++
  printProto (toInt32 (getParam regs 2)) ++ ", ".toList ++
  printMapFlags (toInt32 (getParam regs 3)) ++ ", ".toList ++
  printInt (getParam regs 4) ++ ", ".toList ++
  printOffT (getParam regs 5 <<< 12) ++ ") = ".toList ++ printVoidPtr ret ++ "\n".toList

/-- `print_mprotect`. -/
def printMprotect (_mem : Mem) (regs : UserRegs) (ret : Word) : Text :=
  let line := "mprotect(".toList ++ printVoidPtr (getParam regs 0) ++ ", ".toList ++
    printSizeT (getParam regs 1) ++ ", ".toList ++ printProt (toInt32 (getParam regs 2)) ++
    ")".toList
  line ++ printSspace line.length ++ "= ".toList ++ printInt ret ++ "\n".toList

/-- `print_open`: with `O_CREAT` the mode is taken from parameter slot 3. -/
def printOpen (mem : Mem) (regs : UserRegs) (ret : Word) : Text :=
  let line := "open(".toList ++ printCharPtr mem (getParam regs 0) ++ ", ".toList ++
    printOpenFlags (toInt32 (getParam regs 1)) ++
    (if getParam regs 1 &&& O_CREAT.setWidth 64 ≠ 0 then
      ", ".toList ++ printOpenMode (toInt32 (getParam regs 3)) else []) ++ ")".toList
  line ++ printSspace line.length ++ "= ".toList ++ printInt ret ++ "\n".toList

/-- One byte as `print_word` of `read.c` shows it. -/
def printByte (b : BitVec 8) : Text :=
  if 0x20 ≤ b.toInt ∧ b.toInt ≤ 0x7E then [byteChar b]
  else '\\' :: octal (b.signExtend 32).toNat

/-- `print_word` of `read.c`. -/
def printWordBuf (word : Word) : Text := printByte (byteOf word 0) ++ printByte (byteOf word 1)

/-- The loop of `print_buf`, `n` rounds of it. -/
def bufLoop (mem : Mem) : ℕ → Word → Text
  | 0, _ => []
  | n + 1, ptr =>
    let text := mem.peek ptr
    (if 0 ≤ text.toInt then printWordBuf text else []) ++ bufLoop mem n (ptr + 2)

/-- `print_buf`. -/
def printBuf (mem : Mem) (ptr len : Word) : Text :=
  let i := min 16 len.toNat
  "\"".toList ++ bufLoop mem i ptr ++ "\"".toList ++ (if i = 16 then "...".toList else [])

/-- `print_read`. -/
def printRead (mem : Mem) (regs : UserRegs) (ret : Word) : Text :=
  let line := "read(".toList ++ printInt (getParam regs 0) ++ ", ".toList ++
    printBuf mem (getParam regs 1) (getParam regs 2) ++ ", ".toList ++
    printSizeT (getParam regs 2) ++ ")".toList
  line ++ printSspace line.length ++ "= ".toList ++ printSsizeT ret ++ "\n".toList

/-! ## 4. The generic printer -/

open ParamTypes in
/-- `g_functions_print`, by type. -/
def gFunctionsPrint (mem : Mem) : List (ℤ × (Word → Text)) :=
  [
    (INT, printInt),
    (SIZE_T, printSizeT),
    (OFF_T, printOffT),
    (VOID_P, printVoidPtr),
    (CONST_VOID_P, printVoidPtr),
    (PVOID, printVoidPtr),
    (PCHAR, printCharPtr mem),
    (CHAR_P, printCharPtr mem),
    (CONST_CHAR_P, printCharPtr mem),
    (CHAR_P_CONST, printCharPtr mem),
    (UNSIGNED_CHAR_P, printCharPtr mem)
  ]

/-- `print_type`: the entry is the one at position `num`. -/
def printType (tab : List TSyscalls) (mem : Mem) (num nparam : ℕ) (value : Word) :
    Option Text := do
  let e ← tab[num]?
  let type ← e.params[nparam]?
  let text := match (gFunctionsPrint mem).find? fun p => p.1 = type with
    | some p => p.2 value
    | none => "0x".toList ++ hexLow value.toNat
  some ((if 0 < nparam then ", ".toList else []) ++ text)

/-- The parameters `k`, …, `k + n - 1` of `print_generic`. -/
def printParams (tab : List TSyscalls) (mem : Mem) (regs : UserRegs) (num : ℕ) :
    ℕ → ℕ → Option Text
  | _, 0 => some []
  | k, n + 1 => do
    let t ← printType tab mem num k (getParam regs k)
    let ts ← printParams tab mem regs num (k + 1) n
    some (t ++ ts)

/-- `print_generic`, for the entry `e` that `is_syscall_defined` found.  Up to six parameters
are printed. -/
def printGeneric (tab : List TSyscalls) (mem : Mem) (regs : UserRegs) (ret : Word) (num : ℕ)
    (e : TSyscalls) : Option Text := do
  let params ← printParams tab mem regs num 0 (min 6 e.nparams)
  let line := e.name ++ "(".toList ++ params ++ ")".toList
  some (line ++ printSspace line.length ++ "= ".toList ++
    (if ret ≠ 0 then "0x".toList else []) ++ hexLow ret.toNat ++ "\n".toList)

/-! ## 5. `disp_syscall` -/

/-- `g_print_func`. -/
def gPrintFunc : List (Text × (Mem → UserRegs → Word → Text)) :=
  [
    ("mmap".toList, printMmap),
    ("mmap2".toList, printMmap2),
    ("access".toList, printAccess),
    ("open".toList, printOpen),
    ("read".toList, printRead),
    ("mprotect".toList, printMprotect)
  ]

/-- `is_functions_associated`. -/
def isFunctionsAssociated (name : Text) : Option (Mem → UserRegs → Word → Text) :=
  (gPrintFunc.find? fun p => p.1 = name).map Prod.snd

/-- `disp_syscall`: nothing is printed for a number the table does not have. -/
def dispSyscall (tab : List TSyscalls) (mem : Mem) (regs : UserRegs) (num : ℕ) (ret : Word) :
    Option Text :=
  match isSyscallDefined tab num with
  | none => some []
  | some sys => do
    let e ← tab[sys]?
    match isFunctionsAssociated e.name with
    | some fct => some (fct mem regs ret)
    | none => printGeneric tab mem regs ret num e

end Ftrace
