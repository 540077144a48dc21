/-
# Which registers a syscall is shown with

The kernel takes the arguments of a syscall from rdi, rsi, rdx, r10, r8 and r9.  `get_param`
has the table of a function call instead, with rcx as the fourth parameter, and `print_open`
takes the mode from its slot 3, though it is the third argument.

`shownArgs` says for each line which slots it shows, and `dispSyscall_args` that the line is
made of them.  `showsKernelArgs_iff` compares them with the registers of the kernel.
-/
import Ftrace.Syscalls.Lines

namespace Ftrace

open CText Bytes

/-! ## 1. The arguments of a line -/

/-- The registers from which the kernel takes the arguments, in their order. -/
def kernelArgs (regs : UserRegs) : List Word :=
  [regs.rdi, regs.rsi, regs.rdx, regs.r10, regs.r8, regs.r9]

/-- An argument as a line shows it: a slot of `get_param`, and how its value is printed. -/
structure Arg where
  slot : ℕ
  format : Word → Text

def Arg.text (regs : UserRegs) (a : Arg) : Text := a.format (getParam regs a.slot)

/-- The arguments between the brackets. -/
def argsText (regs : UserRegs) : List Arg → Text
  | [] => []
  | a :: args => a.text regs ++ args.flatMap fun b => ", ".toList ++ b.text regs

def accessArgs (mem : Mem) : List Arg :=
  [⟨0, printCharPtr mem⟩, ⟨1, fun v => printAccessMode (toInt32 v)⟩]

def mmapArgs : List Arg :=
  [⟨0, printVoidPtr⟩, ⟨1, printSizeT⟩, ⟨2, fun v => printProto (toInt32 v)⟩,
    ⟨3, fun v => printMapFlags (toInt32 v)⟩, ⟨4, printInt⟩, ⟨5, printOffT⟩]

def mmap2Args : List Arg :=
  [⟨0, fun v => if v = 0 then "NULL".toList else printVoidPtr v⟩, ⟨1, printSizeT⟩,
    ⟨2, fun v => printProto (toInt32 v)⟩, ⟨3, fun v => printMapFlags (toInt32 v)⟩, ⟨4, printInt⟩,
    ⟨5, fun v => printOffT (v <<< 12)⟩]

def mprotectArgs : List Arg :=
  [⟨0, printVoidPtr⟩, ⟨1, printSizeT⟩, ⟨2, fun v => printProt (toInt32 v)⟩]

/-- The mode is shown only with `O_CREAT`. -/
def openArgs (mem : Mem) (regs : UserRegs) : List Arg :=
  ⟨0, printCharPtr mem⟩ :: ⟨1, fun v => printOpenFlags (toInt32 v)⟩ ::
    if getParam regs 1 &&& O_CREAT.setWidth 64 ≠ 0 then
      [⟨3, fun v => printOpenMode (toInt32 v)⟩] else []

/-- The buffer is shown up to the length that the call has. -/
def readArgs (mem : Mem) (regs : UserRegs) : List Arg :=
  [⟨0, printInt⟩, ⟨1, fun v => printBuf mem v (getParam regs 2)⟩, ⟨2, printSizeT⟩]

/-- A dedicated printer, and the arguments it shows. -/
structure Printer where
  name : Text
  fct : Mem → UserRegs → Word → Text
  args : Mem → UserRegs → List Arg

/-- The printers of `g_print_func`. -/
def printers : List Printer :=
  [
    ⟨"mmap".toList, printMmap, fun _ _ => mmapArgs⟩,
    ⟨"mmap2".toList, printMmap2, fun _ _ => mmap2Args⟩,
    ⟨"access".toList, printAccess, fun mem _ => accessArgs mem⟩,
    ⟨"open".toList, printOpen, openArgs⟩,
    ⟨"read".toList, printRead, readArgs⟩,
    ⟨"mprotect".toList, printMprotect, fun _ _ => mprotectArgs⟩
  ]

/-- An argument of `print_generic`: each slot stands in its own place, and is printed by its
type. -/
def genericArg (mem : Mem) (e : TSyscalls) (k : ℕ) : Arg :=
  ⟨k, fun v =>
    match (gFunctionsPrint mem).find? fun p => p.1 = e.params.getD k 0 with
    | some p => p.2 v
    | none => "0x".toList ++ hexLow v.toNat⟩

def genericArgs (mem : Mem) (e : TSyscalls) : List Arg :=
  (List.range (min 6 e.nparams)).map (genericArg mem e)

/-- The arguments that `disp_syscall` shows for an entry of the table. -/
def shownArgs (mem : Mem) (regs : UserRegs) (e : TSyscalls) : List Arg :=
  match printers.find? fun p => p.name = e.name with
  | some p => p.args mem regs
  | none => genericArgs mem e

/-- Every argument that is shown as the `k`-th one is the value that the kernel takes as its
`k`-th one. -/
def ShowsKernelArgs (mem : Mem) (regs : UserRegs) (e : TSyscalls) : Prop :=
  ∀ (k : ℕ) (a : Arg), (shownArgs mem regs e)[k]? = some a →
    (kernelArgs regs)[k]? = some (getParam regs a.slot)

/-! ## 2. The lines are made of them -/

/-- Most printers fill the line up with blanks. -/
theorem padded_line {line front ret : Text} (h : line = front) : ∃ tail,
    line ++ printSspace line.length ++ "= ".toList ++ ret ++ "\n".toList = front ++ tail := by
  refine ⟨printSspace line.length ++ "= ".toList ++ ret ++ "\n".toList, ?_⟩
  rw [← h]
  simp only [List.append_assoc]

/-- A dedicated printer prints its name, its arguments, and what came back. -/
theorem printers_line {p : Printer} (hp : p ∈ printers) (mem : Mem) (regs : UserRegs)
    (ret : Word) : ∃ tail, p.fct mem regs ret =
      p.name ++ "(".toList ++ argsText regs (p.args mem regs) ++ ")".toList ++ tail := by
  have hclose : ") = ".toList = ")".toList ++ " = ".toList := rfl
  simp only [printers, List.mem_cons, List.not_mem_nil, or_false] at hp
  rcases hp with rfl | rfl | rfl | rfl | rfl | rfl
  · have hname : "mmap(".toList = "mmap".toList ++ "(".toList := rfl
    refine ⟨" = ".toList ++ printVoidPtr ret ++ "\n".toList, ?_⟩
    unfold printMmap
    simp only [mmapArgs, hname, hclose, argsText, Arg.text, List.flatMap_cons,
      List.flatMap_nil, List.append_nil, List.append_assoc]
  · have hname : "mmap2(".toList = "mmap2".toList ++ "(".toList := rfl
    refine ⟨" = ".toList ++ printVoidPtr ret ++ "\n".toList, ?_⟩
    unfold printMmap2
    simp only [mmap2Args, hname, hclose, argsText, Arg.text, List.flatMap_cons,
      List.flatMap_nil, List.append_nil, List.append_assoc]
  · have hname : "access(".toList = "access".toList ++ "(".toList := rfl
    refine padded_line ?_
    simp only [accessArgs, hname, argsText, Arg.text, List.flatMap_cons,
      List.flatMap_nil, List.append_nil, List.append_assoc]
  · have hname : "open(".toList = "open".toList ++ "(".toList := rfl
    refine padded_line ?_
    by_cases hcreat : getParam regs 1 &&& O_CREAT.setWidth 64 ≠ 0
    · simp only [openArgs, hname, if_pos hcreat, argsText, Arg.text, List.flatMap_cons,
        List.flatMap_nil, List.append_nil, List.append_assoc]
    · simp only [openArgs, hname, if_neg hcreat, argsText, Arg.text, List.flatMap_cons,
        List.flatMap_nil, List.append_nil, List.append_assoc]
  · have hname : "read(".toList = "read".toList ++ "(".toList := rfl
    refine padded_line ?_
    simp only [readArgs, hname, argsText, Arg.text, List.flatMap_cons,
      List.flatMap_nil, List.append_nil, List.append_assoc]
  · have hname : "mprotect(".toList = "mprotect".toList ++ "(".toList := rfl
    refine padded_line ?_
    simp only [mprotectArgs, hname, argsText, Arg.text, List.flatMap_cons,
      List.flatMap_nil, List.append_nil, List.append_assoc]

/-- The printer of a name is the one `disp_syscall` finds. -/
theorem isFunctionsAssociated_eq (name : Text) :
    isFunctionsAssociated name = (printers.find? fun p => p.name = name).map Printer.fct := by
  have htable : gPrintFunc = printers.map fun p => (p.name, p.fct) := rfl
  rw [isFunctionsAssociated, htable, List.find?_map, Option.map_map]
  rfl

/-- One parameter of `print_generic`, with the separator in front. -/
theorem printType_genericArg {e : TSyscalls} {num : ℕ} (he : gSyscalls[num]? = some e)
    (h6 : e.params.length = 6) (mem : Mem) {k : ℕ} (hk : k < 6) (v : Word) :
    printType gSyscalls mem num k v =
      some ((if 0 < k then ", ".toList else []) ++ (genericArg mem e k).format v) := by
  have htype : e.params[k]? = some (e.params.getD k 0) := by
    rw [List.getD_eq_getElem?_getD, List.getElem?_eq_getElem (by omega)]
    rfl
  simp only [printType, he, htype, Option.bind_eq_bind, Option.bind_some]
  rfl

/-- Behind the first one, every parameter has a separator. -/
theorem printParams_genericArg {e : TSyscalls} {num : ℕ} (he : gSyscalls[num]? = some e)
    (h6 : e.params.length = 6) (mem : Mem) (regs : UserRegs) {k n : ℕ} (hk : 0 < k)
    (hkn : k + n ≤ 6) : printParams gSyscalls mem regs num k n =
      some ((List.range' k n).flatMap fun i =>
        ", ".toList ++ (genericArg mem e i).text regs) := by
  induction n generalizing k with
  | zero => rfl
  | succ n ih =>
    simp only [printParams, printType_genericArg he h6 mem (k := k) (by omega), if_pos hk,
      ih (Nat.succ_pos k) (by omega), Option.bind_eq_bind, Option.bind_some, List.range'_succ,
      List.flatMap_cons]
    rfl

/-- An entry stands at its own number, and is found there. -/
theorem gSyscalls_at {e : TSyscalls} (he : e ∈ gSyscalls) :
    gSyscalls[e.num]? = some e ∧ SyscallDefined e.num := by
  refine ⟨?_, ?_⟩
  · obtain ⟨i, hi, rfl⟩ := List.mem_iff_getElem.mp he
    rw [gSyscalls_getElem hi, List.getElem?_eq_getElem hi]
  · rw [SyscallDefined, isSyscallDefined, List.findIdx?_isSome, List.any_eq_true]
    exact ⟨e, he, decide_eq_true rfl⟩

theorem printParams_generic {e : TSyscalls} (he : e ∈ gSyscalls) (mem : Mem) (regs : UserRegs) :
    printParams gSyscalls mem regs e.num 0 (min 6 e.nparams) =
      some (argsText regs (genericArgs mem e)) := by
  obtain ⟨hat, -⟩ := gSyscalls_at he
  obtain ⟨h6, -, -, -⟩ := gSyscalls_params e he
  rw [genericArgs]
  cases hn : min 6 e.nparams with
  | zero => rfl
  | succ n =>
    have hrange : List.range (n + 1) = 0 :: List.range' 1 n := by
      rw [List.range_eq_range', List.range'_succ]
    simp only [printParams, printType_genericArg hat h6 mem (k := 0) (by omega), hrange,
      printParams_genericArg hat h6 mem regs Nat.one_pos (n := n) (by omega), Option.bind_eq_bind,
      Option.bind_some, List.map_cons, argsText, List.flatMap_map]
    rfl

/-- **A line is made of the arguments that are shown.** -/
theorem dispSyscall_args {e : TSyscalls} (he : e ∈ gSyscalls) (mem : Mem) (regs : UserRegs)
    (ret : Word) : ∃ tail, dispSyscall gSyscalls mem regs e.num ret =
      some (e.name ++ "(".toList ++ argsText regs (shownArgs mem regs e) ++ ")".toList ++ tail) := by
  obtain ⟨hat, hdef⟩ := gSyscalls_at he
  obtain ⟨hpos, -⟩ := gSyscalls_of_defined hdef
  simp only [dispSyscall, hpos, hat, Option.bind_eq_bind, Option.bind_some,
    isFunctionsAssociated_eq, shownArgs]
  cases hfind : printers.find? fun p => p.name = e.name with
  | some p =>
    obtain ⟨tail, htail⟩ := printers_line (List.mem_of_find?_eq_some hfind) mem regs ret
    have hname := List.find?_some hfind
    rw [← of_decide_eq_true hname]
    exact ⟨tail, congrArg some htail⟩
  | none =>
    simp only [Option.map_none, printGeneric, printParams_generic he, Option.bind_eq_bind,
      Option.bind_some]
    have hassoc (line pad t u v w : Text) :
        line ++ pad ++ t ++ u ++ v ++ w = line ++ (pad ++ t ++ u ++ v ++ w) := by
      simp only [List.append_assoc]
    exact ⟨_, congrArg some (hassoc _ _ _ _ _ _)⟩

/-! ## 3. The registers of the kernel -/

/-- `get_param` has the kernel's register for every slot but one. -/
theorem kernelArgs_getParam (regs : UserRegs) {k : ℕ} (hk : k < 6) :
    (kernelArgs regs)[k]? = some (getParam regs k) ↔ (k = 3 → regs.rcx = regs.r10) := by
  have hcases : k = 0 ∨ k = 1 ∨ k = 2 ∨ k = 3 ∨ k = 4 ∨ k = 5 := by omega
  rcases hcases with rfl | rfl | rfl | rfl | rfl | rfl
  case inr.inr.inr.inl =>
    exact ⟨fun h _ => (Option.some.inj h).symm, fun h => congrArg some (h rfl).symm⟩
  all_goals exact iff_of_true rfl fun h => absurd h (by decide)

/-- The table gives the calls with a printer of their own as many parameters as they have. -/
theorem nparams_of_printers : ∀ e ∈ gSyscalls, ∀ p ∈ [("mmap".toList, 6), ("mmap2".toList, 6),
    ("access".toList, 2), ("open".toList, 2), ("read".toList, 3), ("mprotect".toList, 3)],
    p.1 = e.name → e.nparams = p.2 := by
  decide +kernel

/-- All lines but that of `open` show the slots in their order. -/
theorem slots_of_name {e : TSyscalls} (he : e ∈ gSyscalls) (hopen : e.name ≠ "open".toList)
    (mem : Mem) (regs : UserRegs) :
    (shownArgs mem regs e).map Arg.slot = List.range e.nparams := by
  have hcount := nparams_of_printers e he
  rw [shownArgs]
  cases hfind : printers.find? fun p => p.name = e.name with
  | some p =>
    have hp := List.mem_of_find?_eq_some hfind
    have hdec := List.find?_some hfind
    have hname : p.name = e.name := of_decide_eq_true hdec
    simp only [printers, List.mem_cons, List.not_mem_nil, or_false] at hp
    rcases hp with rfl | rfl | rfl | rfl | rfl | rfl
    · rw [hcount ("mmap".toList, 6) (by simp) hname]
      rfl
    · rw [hcount ("mmap2".toList, 6) (by simp) hname]
      rfl
    · rw [hcount ("access".toList, 2) (by simp) hname]
      rfl
    · exact absurd hname.symm hopen
    · rw [hcount ("read".toList, 3) (by simp) hname]
      rfl
    · rw [hcount ("mprotect".toList, 3) (by simp) hname]
      rfl
  | none =>
    have hle := (gSyscalls_params e he).2.1
    have hslot : Arg.slot ∘ genericArg mem e = id := rfl
    simp only [genericArgs, List.map_map, hslot, List.map_id]
    rw [Nat.min_eq_right hle]

/-- `open` has two arguments, or a third one out of slot 3. -/
theorem slots_open {e : TSyscalls} (hopen : e.name = "open".toList) (mem : Mem)
    (regs : UserRegs) :
    (shownArgs mem regs e).map Arg.slot =
      if regs.rsi &&& O_CREAT.setWidth 64 ≠ 0 then [0, 1, 3] else [0, 1] := by
  have hfind : (printers.find? fun p => p.name = e.name) =
      some ⟨"open".toList, printOpen, openArgs⟩ := by
    rw [hopen]
    rfl
  have hslot : getParam regs 1 = regs.rsi := rfl
  simp only [shownArgs, hfind, openArgs, hslot]
  split <;> rfl

/-- It is only the slots that count. -/
theorem showsKernelArgs_iff_slots (mem : Mem) (regs : UserRegs) (e : TSyscalls) :
    ShowsKernelArgs mem regs e ↔ ∀ (k s : ℕ), ((shownArgs mem regs e).map Arg.slot)[k]? =
      some s → (kernelArgs regs)[k]? = some (getParam regs s) := by
  simp only [ShowsKernelArgs, List.getElem?_map, Option.map_eq_some_iff]
  constructor
  · rintro h k s ⟨a, ha, rfl⟩
    exact h k a ha
  · intro h k a ha
    exact h k a.slot ⟨a, ha, rfl⟩

/-- The mode is the only argument of `open` that may be wrong. -/
theorem showsKernelArgs_open {e : TSyscalls} (hopen : e.name = "open".toList) (mem : Mem)
    (regs : UserRegs) :
    ShowsKernelArgs mem regs e ↔
      (regs.rsi &&& O_CREAT.setWidth 64 ≠ 0 → regs.rcx = regs.rdx) := by
  rw [showsKernelArgs_iff_slots, slots_open hopen]
  by_cases hcreat : regs.rsi &&& O_CREAT.setWidth 64 ≠ 0
  · rw [if_pos hcreat]
    constructor
    · intro h _
      exact (Option.some.inj (h 2 3 rfl)).symm
    · intro h k s hs
      match k, hs with
      | 0, rfl => rfl
      | 1, rfl => rfl
      | 2, rfl => exact congrArg some (h hcreat).symm
  · rw [if_neg hcreat]
    refine iff_of_true ?_ fun hset => absurd hset hcreat
    intro k s hs
    match k, hs with
    | 0, rfl => rfl
    | 1, rfl => rfl

/-- The other calls show the fourth argument out of the wrong register, if they have one. -/
theorem showsKernelArgs_of_name {e : TSyscalls} (he : e ∈ gSyscalls)
    (hopen : e.name ≠ "open".toList) (mem : Mem) (regs : UserRegs) :
    ShowsKernelArgs mem regs e ↔ (4 ≤ e.nparams → regs.rcx = regs.r10) := by
  have hle := (gSyscalls_params e he).2.1
  rw [showsKernelArgs_iff_slots, slots_of_name he hopen]
  constructor
  · intro h h4
    exact (kernelArgs_getParam regs (k := 3) (by omega)).mp (h 3 3 (List.getElem?_range h4)) rfl
  · intro h k s hs
    obtain ⟨hk, hks⟩ := List.getElem?_eq_some_iff.mp hs
    rw [List.getElem_range] at hks
    rw [List.length_range] at hk
    subst hks
    exact (kernelArgs_getParam regs (by omega)).mpr fun h3 => h (by omega)

/-- **The arguments shown are those of the kernel** exactly if rcx is r10 where the call has a
fourth argument, and rdx where `open` shows its mode. -/
theorem showsKernelArgs_iff {e : TSyscalls} (he : e ∈ gSyscalls) (mem : Mem) (regs : UserRegs) :
    ShowsKernelArgs mem regs e ↔
      (4 ≤ e.nparams → regs.rcx = regs.r10) ∧
      (e.name = "open".toList → regs.rsi &&& O_CREAT.setWidth 64 ≠ 0 → regs.rcx = regs.rdx) := by
  by_cases hopen : e.name = "open".toList
  · have htwo : e.nparams = 2 :=
      nparams_of_printers e he ("open".toList, 2) (by simp) hopen.symm
    rw [showsKernelArgs_open hopen, htwo]
    constructor
    · intro h
      exact ⟨fun h4 => absurd h4 (by decide), fun _ => h⟩
    · rintro ⟨-, h⟩
      exact h hopen
  · rw [showsKernelArgs_of_name he hopen]
    constructor
    · intro h
      exact ⟨h, fun hname => absurd hname hopen⟩
    · rintro ⟨h, -⟩
      exact h

open ParamTypes in
/-- A `mmap` with the same value in rcx and r10. -/
theorem showsKernelArgs_iff_mmap :
    ShowsKernelArgs (Mem.ofBytes 0 []) { rcx := 0x22, r10 := 0x22 }
      ⟨9, "mmap".toList, 6, [VOID_P, SIZE_T, INT, INT, INT, OFF_T]⟩ :=
  (showsKernelArgs_iff (by decide +kernel) _ _).mpr
    ⟨fun _ => rfl, fun hname => absurd hname (by decide)⟩

/-- A `mmap` that has its flags in r10, and an `open` that has its mode in rdx. -/
theorem showsKernelArgs_fails :
    (∃ e ∈ gSyscalls, e.num = 9 ∧
      ¬ ShowsKernelArgs (Mem.ofBytes 0 []) { rcx := 0x7f0000401234, r10 := 0x22 } e) ∧
    ∃ e ∈ gSyscalls, e.num = 2 ∧
      ¬ ShowsKernelArgs (Mem.ofBytes 0 []) { rsi := 0x41, rdx := 0o644, rcx := 0 } e := by
  refine ⟨⟨gSyscalls.getD 9 ⟨0, [], 0, []⟩, by decide +kernel, by decide +kernel, ?_⟩,
    gSyscalls.getD 2 ⟨0, [], 0, []⟩, by decide +kernel, by decide +kernel, ?_⟩
  · intro h
    have hflags := h 3 ⟨3, fun v => printMapFlags (toInt32 v)⟩ rfl
    exact absurd hflags (by decide)
  · intro h
    have hmode := h 2 ⟨3, fun v => printOpenMode (toInt32 v)⟩ rfl
    exact absurd hmode (by decide)

end Ftrace
