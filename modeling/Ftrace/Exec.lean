/-
# One traced step, and a whole run

`getinstruction`, `print_instruction` and the loop of `trace_son`, from `exec.c`.

A traced step prints at most one line into the buffer of standard output, an array of 2048
bytes on the stack of `print_instruction`, and the line is then read back out of that array as
a C string.  The array keeps a NUL behind the line only while the line is shorter than it;
`printInstruction` is `none` for a longer one, which has no end in the array.

`trace_son` is modelled from the symbol table on, for the steps it is given, up to the brace
it writes; opening `graph.dot` is taken to succeed.
-/
import Ftrace.Edges
import Ftrace.PrintCalls
import Ftrace.ResolveSymbols
import Ftrace.Syscalls.Lines

namespace Ftrace

open CText Bytes

/-! ## 1. `getinstruction` -/

/-- What `trace_son` knows of one step: the registers and the word at `rip` before it, `rax`
after it, and the world the printing looks at, which is the tracee's memory, its maps file and
the libraries that can be loaded. -/
structure Step where
  reg : UserRegs
  ret : Word
  retSyscall : Word
  mem : Mem
  maps : Option MapsFile
  load : Loader

/-- A step of a tracee with no memory mapped, no maps file and no library. -/
def Step.bare (ret : Word) (reg : UserRegs) : Step where
  reg := reg
  ret := ret
  retSyscall := 0
  mem := Mem.empty
  maps := none
  load := fun _ => .failed

/-- What `getinstruction` leaves: the statics of the library lookup, the text printed, the
calls that were reported, and the value returned. -/
structure Line where
  lib : LibState
  out : Text
  calls : ℕ
  status : ℤ

/-- The number `disp_syscall` is given: `rax` as an `unsigned`. -/
def Step.num (st : Step) : ℕ := (st.reg.rax.setWidth 32).toNat

/-- What `print_call` makes of the step. -/
def Step.call (st : Step) : CallOut := printCall st.mem st.ret st.reg

/-- The last branch of `getinstruction`: `print_call`, then `resolve_symbol`. -/
def callLine (symbols : Option SymTab) (lib : LibState) (st : Step) : Line :=
  let r := resolveSymbol st.load st.mem st.maps st.call.addr symbols st.call.aCall lib
  ⟨r.state, st.call.out ++ r.out, st.call.aCall, SUCCESS⟩

/-- `getinstruction (reg, ret, symbols, ret_syscall)`. -/
def getinstruction (symbols : Option SymTab) (lib : LibState) (st : Step) : Option Line :=
  if isSyscallWord st.ret then do
    let t ← dispSyscall gSyscalls st.mem st.reg st.num st.retSyscall
    some ⟨lib, "@".toList ++ t, 0, SUCCESS⟩
  else if instructionIsRet st.ret ≠ FAILURE then
    some ⟨lib, ">>> return (0x".toList ++ hexUp (getRax st.reg).toNat ++ ")\n".toList, 0, SUCCESS⟩
  else if instructionIsCall st.ret ≠ FAILURE then some (callLine symbols lib st)
  else some ⟨lib, [], 0, FAILURE⟩

/-! ## 2. `print_instruction` -/

/-- The size of `buffer`. -/
def BUFFER_SIZE : ℕ := 2048

/-- The statics of `print_instruction` and of what it calls, and what was written to
`graph.dot`. -/
structure Tracer where
  first : Bool := false
  dot : DotStatics := {}
  lib : LibState := {}
  writes : List Write := []

/-- `print_instruction`, `none` where the line leaves no NUL in the buffer. -/
def printInstruction (symbols : Option SymTab) (s : Tracer) (st : Step) : Option Tracer :=
  if guard st.ret then do
    let opened := if s.first then [] else openDotfile
    let line ← getinstruction symbols s.lib st
    if line.out.length < BUFFER_SIZE then
      let buffer := cstr line.out
      if buffer = [] then some ⟨true, s.dot, line.lib, s.writes ++ opened⟩
      else
        let d := formatDotfile s.dot buffer s.first
        some ⟨true, d.1, line.lib, s.writes ++ opened ++ d.2⟩
    else none
  else some s

/-- The loop of `trace_son`. -/
def traceLoop (symbols : Option SymTab) (s : Tracer) : List Step → Option Tracer
  | [] => some s
  | st :: sts => do
    let s' ← printInstruction symbols s st
    traceLoop symbols s' sts

/-- What `trace_son` has written to `graph.dot` when its loop ends. -/
def traceSon (symbols : Option SymTab) (steps : List Step) : Option (List Write) :=
  (traceLoop symbols {} steps).map fun s => s.writes ++ [.brace]

/-! ## 3. The line of a step -/

/-- The kinds of steps that pass the guard. -/
inductive Kind where
  | syscall
  | ret
  | call
  /-- a word that might start a call and turns out to print nothing -/
  | quiet
  deriving DecidableEq, Repr

/-- The kind of a word, by its bytes. -/
def kind (ret : Word) : Kind :=
  if isSyscallWord ret then .syscall
  else if instructionIsRet ret ≠ FAILURE then .ret
  else if IsCallWord ret then .call
  else .quiet

theorem guard_of_isCallWord {w : Word} (h : IsCallWord w) : guard w = true := by
  simp [guard, isCall_of_isCallWord h]

theorem kind_of_isCallWord {w : Word} (h : IsCallWord w) : kind w = .call := by
  obtain ⟨hs, hr⟩ := not_syscall_not_ret_of_call (isCall_of_isCallWord h)
  simp [kind, hs, hr, h]

theorem kind_of_call {w : Word} (h : kind w = .call) : IsCallWord w := by
  simp only [kind] at h
  split at h
  · cases h
  · split at h
    · cases h
    · split at h
      · assumption
      · cases h

/-- The line of a step that passes the guard. -/
def lineOf (symbols : Option SymTab) (lib : LibState) (st : Step) : Text :=
  match kind st.ret with
  | .syscall =>
    "@".toList ++ (dispSyscall gSyscalls st.mem st.reg st.num st.retSyscall).getD []
  | .ret => ">>> return (0x".toList ++ hexUp (getRax st.reg).toNat ++ ")\n".toList
  | .call => (callLine symbols lib st).out
  | .quiet => []

/-- The statics of the library lookup after a step. -/
def libAfter (symbols : Option SymTab) (lib : LibState) (st : Step) : LibState :=
  match kind st.ret with
  | .call => (callLine symbols lib st).lib
  | _ => lib

/-- Nothing is looked up where no call is reported. -/
theorem resolveSymbol_no_call (load : Loader) (mem : Mem) (maps : Option MapsFile) (addr : Word)
    (symbols : Option SymTab) (s : LibState) :
    resolveSymbol load mem maps addr symbols 0 s = ⟨s, [], false⟩ := by
  cases symbols <;> simp [resolveSymbol]

/-- **What `getinstruction` prints and leaves behind**, by the kind of the step. -/
theorem getinstruction_eq {st : Step} (hg : guard st.ret = true) (symbols : Option SymTab)
    (lib : LibState) :
    getinstruction symbols lib st = some ⟨libAfter symbols lib st, lineOf symbols lib st,
      if kind st.ret = .call then 1 else 0, SUCCESS⟩ := by
  by_cases hs : isSyscallWord st.ret = true
  · have hk : kind st.ret = .syscall := if_pos hs
    obtain ⟨t, ht⟩ : ∃ t, dispSyscall gSyscalls st.mem st.reg st.num st.retSyscall = some t := by
      by_cases hdef : SyscallDefined st.num
      · obtain ⟨t, ht, -⟩ := dispSyscall_line hdef st.mem st.reg st.retSyscall
        exact ⟨t, ht⟩
      · exact ⟨[], dispSyscall_undefined hdef st.mem st.reg st.retSyscall⟩
    simp [getinstruction, lineOf, libAfter, hk, hs, ht]
  · by_cases hr : instructionIsRet st.ret ≠ FAILURE
    · have hk : kind st.ret = .ret := by simp [kind, hs, hr]
      simp [getinstruction, lineOf, libAfter, hk, hs, hr]
    · have hc : instructionIsCall st.ret ≠ FAILURE := by
        simpa [guard, hs, hr] using hg
      have hcalls : st.call.aCall = if IsCallWord st.ret then 1 else 0 :=
        printCall_aCall st.mem st.ret st.reg
      by_cases hcall : IsCallWord st.ret
      · have hk : kind st.ret = .call := kind_of_isCallWord hcall
        rw [if_pos hcall] at hcalls
        simp [getinstruction, lineOf, libAfter, hk, hs, hr, hc, callLine, hcalls]
      · have hk : kind st.ret = .quiet := by simp [kind, hs, hr, hcall]
        rw [if_neg hcall] at hcalls
        have hout : st.call.out = [] := printCall_out_of_no_call hcalls
        simp [getinstruction, lineOf, libAfter, hk, hs, hr, hc, callLine, hcalls, hout,
          resolveSymbol_no_call]

/-! ## 4. Everything a step can do -/

/-- What `format_dotfile` is told by a line, if it is called at all. -/
def eventOf (line : Text) : Option Event :=
  if cstr line = [] then none else some (Event.ofLine (cstr line).dropLast)

/-- The statics of `format_dotfile` after the event of a line, and what it wrote. -/
def writeEvent (d : DotStatics) (first : Bool) : Option Event → DotStatics × List Write
  | none => (d, [])
  | some e => formatEvent d first e

/-- The tracer after a step that passes the guard. -/
def Tracer.after (s : Tracer) (symbols : Option SymTab) (st : Step) : Tracer :=
  let d := writeEvent s.dot s.first (eventOf (lineOf symbols s.lib st))
  { first := true, dot := d.1, lib := libAfter symbols s.lib st,
    writes := s.writes ++ (if s.first then [] else openDotfile) ++ d.2 }

/-- The line of the step leaves a NUL in the buffer. -/
def Fits (symbols : Option SymTab) (lib : LibState) (st : Step) : Prop :=
  (lineOf symbols lib st).length < BUFFER_SIZE

instance (symbols : Option SymTab) (lib : LibState) (st : Step) : Decidable (Fits symbols lib st) :=
  inferInstanceAs (Decidable (_ < _))

/-- A step that does not pass the guard changes nothing. -/
theorem printInstruction_of_not_guard {st : Step} (h : guard st.ret = false)
    (symbols : Option SymTab) (s : Tracer) : printInstruction symbols s st = some s := by
  simp [printInstruction, h]

/-- **A step that passes the guard**: its event goes to the writer, if its line fits. -/
theorem printInstruction_of_guard {st : Step} (h : guard st.ret = true)
    (symbols : Option SymTab) (s : Tracer) :
    printInstruction symbols s st
      = if Fits symbols s.lib st then some (s.after symbols st) else none := by
  simp only [printInstruction, h, getinstruction_eq h, if_true, Option.bind_eq_bind,
    Option.bind_some, Fits]
  refine if_congr Iff.rfl ?_ rfl
  by_cases hb : cstr (lineOf symbols s.lib st) = []
  · simp [Tracer.after, eventOf, writeEvent, hb]
  · rw [if_neg hb, formatDotfile_eq]
    simp [Tracer.after, eventOf, writeEvent, hb]

/-- **Everything a step can do.** -/
theorem printInstruction_cases {symbols : Option SymTab} {s s' : Tracer} {st : Step}
    (h : printInstruction symbols s st = some s') :
    (guard st.ret = false ∧ s' = s) ∨
      (guard st.ret = true ∧ Fits symbols s.lib st ∧ s' = s.after symbols st) := by
  cases hg : guard st.ret with
  | false =>
    rw [printInstruction_of_not_guard hg] at h
    exact .inl ⟨rfl, (Option.some.inj h).symm⟩
  | true =>
    rw [printInstruction_of_guard hg] at h
    split at h
    · rename_i hf
      exact .inr ⟨rfl, hf, (Option.some.inj h).symm⟩
    · cases h

/-- What every step preserves holds at the end of a run. -/
theorem traceLoop_inv {symbols : Option SymTab} {P : Tracer → Prop} {steps : List Step}
    (hstep : ∀ s s' st, st ∈ steps → P s → printInstruction symbols s st = some s' → P s')
    {s s' : Tracer} (h : traceLoop symbols s steps = some s') (hs : P s) : P s' := by
  induction steps generalizing s with
  | nil => exact Option.some.inj h ▸ hs
  | cons st sts ih =>
    obtain ⟨s₁, h₁, h₂⟩ := Option.bind_eq_some_iff.mp h
    exact ih (fun s s' st' hmem => hstep s s' st' (List.mem_cons_of_mem _ hmem)) h₂
      (hstep s s₁ st List.mem_cons_self hs h₁)

end Ftrace
