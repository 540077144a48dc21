/-
# What a step shows, and when it was true

`trace_son` reads the registers before it resumes the tracee and prints after the tracee has
stopped again.  A step is therefore shown with the registers and the word from before it, and with
the memory and the returned value from after it (`shown_after`).

For a call this is late: the return address has been pushed by then.  A target that was read from
memory is printed as it stands after the push, so it is right exactly if the push has left its bytes
as they were (`target_after_push`).
-/
import Ftrace.CallTargets
import Ftrace.Protocol
import Mathlib.Data.List.Forall2

namespace Ftrace

open Bytes Runs

/-! ## 1. Memory after a push -/

/-- The byte at `a` is one of the eight below the stack pointer. -/
def InSlot (rsp a : Word) : Prop := (a - (rsp - 8)).toNat < 8

instance (rsp a : Word) : Decidable (InSlot rsp a) := inferInstanceAs (Decidable (_ < _))

/-- The memory after a word has been pushed. -/
def Mem.pushed (m : Mem) (rsp v : Word) : Mem where
  byte a := if a = 0x8000000000000000 then none
    else if InSlot rsp a then some (byteOf v (a - (rsp - 8)).toNat) else m.byte a
  gap := if_pos rfl

/-- The push leaves the word at `a` as it was: where it overlaps it, it writes the same bytes. -/
def PushKeeps (rsp v a t : Word) : Prop :=
  ∀ i < 8, InSlot rsp (a + BitVec.ofNat 64 i) →
    byteOf v (a + BitVec.ofNat 64 i - (rsp - 8)).toNat = byteOf t i

instance (rsp v a t : Word) : Decidable (PushKeeps rsp v a t) :=
  inferInstanceAs (Decidable (∀ i < 8, _))

section Push

variable {m : Mem} {a t : Word} (h : m.word a = some t) (rsp v : Word)

include h

/-- A byte of a word that can be read, after the push. -/
theorem Mem.byte_pushed {i : ℕ} (hi : i < 8) :
    (m.pushed rsp v).byte (a + BitVec.ofNat 64 i)
      = some (if InSlot rsp (a + BitVec.ofNat 64 i)
          then byteOf v (a + BitVec.ofNat 64 i - (rsp - 8)).toNat else byteOf t i) := by
  have hbyte := Mem.byte_of_word h hi
  have hgap : a + BitVec.ofNat 64 i ≠ 0x8000000000000000 := by
    intro heq
    rw [heq, m.gap] at hbyte
    cases hbyte
  refine (if_neg hgap).trans ?_
  rw [hbyte]
  split <;> rfl

/-- **What is read after the push** is what was there exactly if the push has kept it. -/
theorem Mem.peek_pushed_iff : (m.pushed rsp v).peek a = t ↔ PushKeeps rsp v a t := by
  have hword := Mem.word_eq fun i hi => Mem.byte_pushed h rsp v hi
  rw [Mem.peek_of_word hword]
  constructor
  · intro heq i hi hslot
    have hbyte := Mem.byte_of_word hword hi
    rw [heq, Mem.byte_pushed h rsp v hi, if_pos hslot] at hbyte
    exact Option.some.inj hbyte
  · intro hkeeps
    have hsame : ∀ i < 8, (m.pushed rsp v).byte (a + BitVec.ofNat 64 i) = some (byteOf t i) := by
      intro i hi
      rw [Mem.byte_pushed h rsp v hi]
      split
      · rename_i hslot
        rw [hkeeps i hi hslot]
      · rfl
    have hold := Mem.word_eq fun i hi => Mem.byte_of_word h hi
    rw [h] at hold
    exact Option.some.inj (hword.symm.trans ((Mem.word_eq hsame).trans hold.symm))

end Push

/-! ## 2. What an instruction leaves -/

/-- An instruction: the processor it is executed on, and what it leaves unless it is the last. -/
abbrev Effect : Type := Cpu × Option Cpu

/-- The instruction that an action executes, with what it leaves. -/
def Act.effect : Act → List Effect
  | .tracee (.running cpu true) (.executes after) => [(cpu, some after)]
  | .tracee (.running cpu true) (.exits _) => [(cpu, none)]
  | _ => []

/-- The step that an action prints. -/
def Act.step : Act → List Step
  | .son (.printed st) => [st]
  | _ => []

/-- The instructions executed in a run, in order. -/
def effectsOf (acts : List Act) : List Effect := acts.flatMap Act.effect

/-- The steps printed in a run, in order. -/
def stepsOf (acts : List Act) : List Step := acts.flatMap Act.step

@[simp] theorem effectsOf_snoc (acts : List Act) (a : Act) :
    effectsOf (acts ++ [a]) = effectsOf acts ++ a.effect := by simp [effectsOf]

@[simp] theorem stepsOf_snoc (acts : List Act) (a : Act) :
    stepsOf (acts ++ [a]) = stepsOf acts ++ a.step := by simp [stepsOf]

/-- The step shows the instruction: registers and word from before it, memory and returned value
from after it. -/
structure Shows (e : Effect) (st : Step) : Prop where
  executed : (st.reg, st.ret) = e.1.executed
  after : ∀ after ∈ e.2, st.mem = after.mem ∧ st.retSyscall = after.regs.rax

/-! ## 3. The instruction that is due -/

/-- The tracee is as the instruction has left it, and has been read if it is to be printed. -/
def Son.Leaves (s : Son) (e : Effect) : Prop :=
  match s.tracee with
  | .running cpu false | .stopped cpu _ _ =>
    e.2 = some cpu ∧ (s.pc = .print → s.snap.regsReturn = cpu.regs)
  | .zombie _ _ | .gone => e.2 = none
  | _ => False

/-- **The ledger of a run** in which nothing comes in between: what has been executed has been shown
as it was, up to the instruction that is due. -/
structure Ledger (acts : List Act) (s : Son) (shown rest : List Effect) : Prop where
  effects : effectsOf acts = shown ++ rest
  shows : List.Forall₂ Shows shown (stepsOf acts)
  due : rest.map (fun e => e.1.executed) = s.due
  leaves : ∀ e ∈ rest, s.Leaves e

section Step

variable {s s' : Son} {acts : List Act} {shown rest : List Effect}

/-- What is due stays so, if the place where the tracer is changes nothing about it. -/
theorem Ledger.same (h : Ledger acts s shown rest) {a : Act} (heffect : a.effect = [])
    (hstep : a.step = []) (hdue : s'.due = s.due) (hleaves : ∀ e ∈ rest, s.Leaves e → s'.Leaves e) :
    Ledger (acts ++ [a]) s' shown rest where
  effects := by rw [effectsOf_snoc, heffect, List.append_nil, h.effects]
  shows := by rw [stepsOf_snoc, hstep, List.append_nil]; exact h.shows
  due := by rw [hdue, h.due]
  leaves e he := hleaves e he (h.leaves e he)

/-- An instruction becomes due. -/
theorem Ledger.execute (h : Ledger acts s shown []) {a : Act} {e : Effect} (heffect : a.effect = [e])
    (hstep : a.step = []) (hdue : s'.due = [e.1.executed]) (hleaves : s'.Leaves e) :
    Ledger (acts ++ [a]) s' shown [e] where
  effects := by rw [effectsOf_snoc, heffect, h.effects, List.append_nil]
  shows := by rw [stepsOf_snoc, hstep, List.append_nil]; exact h.shows
  due := by rw [hdue]; rfl
  leaves e' he := List.mem_singleton.mp he ▸ hleaves

/-- Nothing is due if nothing is owed. -/
theorem Ledger.rest_nil (h : Ledger acts s shown rest) (hdue : s.due = []) : rest = [] := by
  have hmap := h.due
  rw [hdue] at hmap
  exact List.map_eq_nil_iff.mp hmap

/-- A step with nothing due before it and after it. -/
theorem Ledger.nothing (h : Ledger acts s shown rest) {a : Act} (heffect : a.effect = [])
    (hstep : a.step = []) (hdue : s.due = []) (hdue' : s'.due = []) :
    ∃ shown' rest', Ledger (acts ++ [a]) s' shown' rest' := by
  obtain rfl := h.rest_nil hdue
  refine ⟨shown, [], h.same heffect hstep (hdue'.trans hdue.symm) fun e he => ?_⟩
  exact absurd he List.not_mem_nil

/-- **An event of the tracee**, which is not stopped before its instruction or killed. -/
theorem Ledger.tracee (hacc : Accounted acts s) (h : Ledger acts s shown rest) {t : Tracee}
    {e : TraceeEvent} (hnext : s.tracee.next e = some t)
    (hidle : (Act.tracee s.tracee e).idle = 0) :
    ∃ shown' rest', Ledger (acts ++ [.tracee s.tracee e]) { s with tracee := t } shown' rest' := by
  have hwaits := hacc.inTurn.waits
  have hreads := hacc.reads
  obtain ⟨pc, status, snap, ret, tracee⟩ := s
  dsimp only at hnext hidle hwaits
  cases Tracee.move_of_next hnext with
  | starts cpu sig =>
    refine ⟨shown, rest, h.same rfl rfl ?_ fun e he hl => hl.elim⟩
    obtain rfl | rfl := hwaits rfl <;> rfl
  | executes cpu after =>
    obtain rfl | rfl := hwaits rfl
    · exact hreads.elim
    · obtain rfl := h.rest_nil rfl
      exact ⟨shown, [(cpu, some after)], h.execute rfl rfl (congrArg (fun e => [e]) hreads.symm)
        ⟨rfl, fun hpc => by cases hpc⟩⟩
  | stops cpu left sig =>
    cases left with
    | true => cases hidle
    | false =>
      refine ⟨shown, rest, h.same rfl rfl ?_ fun e he hl => hl⟩
      obtain rfl | rfl := hwaits rfl <;> rfl
  | exits code ht =>
    obtain rfl | ⟨cpu, rfl⟩ := ht
    · refine ⟨shown, rest, h.same rfl rfl ?_ fun e he hl => hl.elim⟩
      obtain rfl | rfl := hwaits rfl <;> rfl
    · obtain rfl | rfl := hwaits rfl
      · exact hreads.elim
      · obtain rfl := h.rest_nil rfl
        exact ⟨shown, [(cpu, none)], h.execute rfl rfl (congrArg (fun e => [e]) hreads.symm) rfl⟩
  | dies sig hover =>
    cases tracee with
    | running cpu left => cases left <;> cases hidle
    | _ => cases hidle

/-- A tracee that is to be resumed is not over: it would have been killed. -/
theorem Accounted.not_zombie (hacc : Accounted acts s) (hidle : idleOf acts = 0)
    (hpc : s.pc = .singleStep) : s.dead = 0 := by
  have hdue : s.due = [] := by
    unfold Son.due
    rw [hpc]
  have howed : s.owed = s.dead := by
    unfold Son.owed
    rw [hpc]
  have hlen := hacc.sub.length_le
  have hcount := hacc.count
  rw [hdue, List.append_nil] at hlen
  omega

/-- **A step of the tracer.** -/
theorem Ledger.son (hacc : Accounted acts s) (hidle : idleOf acts = 0)
    (h : Ledger acts s shown rest) {w : World} {a : SonAct} (hact : s.act w = some (a, s')) :
    ∃ shown' rest', Ledger (acts ++ [.son a]) s' shown' rest' := by
  have hmove := Son.move_of_act hact
  have hgone := hacc.inTurn.not_gone
  have hturn := hacc.inTurn
  have hdead := hacc.not_zombie hidle
  unfold Son.InTurn at hturn
  obtain ⟨pc, status, snap, ret, tracee⟩ := s
  cases hmove with
  | waitFirst hpc hwait =>
    obtain rfl : pc = .waitFirst := hpc
    exact h.nothing rfl rfl rfl rfl
  | wait hpc hwait =>
    obtain rfl : pc = .wait := hpc
    rcases Tracee.wait_cases hwait with ⟨cpu, sig, rfl, -, rfl⟩ | ⟨last, hover, rfl, -, rfl⟩ |
      ⟨-, hst, -⟩
    · exact ⟨shown, rest, h.same rfl rfl rfl fun e he hl => ⟨hl.1, fun hpc => by cases hpc⟩⟩
    · exact ⟨shown, rest, h.same rfl rfl rfl fun e he hl => hl⟩
    · cases hst
  | waitFails hpc hwait => exact absurd (Tracee.gone_of_wait hwait) (hgone hpc)
  | goesOn hpc hgo =>
    obtain rfl : pc = .loop := hpc
    exact h.nothing rfl rfl rfl rfl
  | ends hpc hgo =>
    obtain rfl : pc = .loop := hpc
    exact h.nothing rfl rfl rfl rfl
  | getRegs hpc =>
    obtain rfl : pc = .getRegs := hpc
    exact h.nothing rfl rfl rfl rfl
  | peekText hpc =>
    obtain rfl : pc = .peekText := hpc
    exact h.nothing rfl rfl rfl rfl
  | singleStep hpc =>
    obtain rfl : pc = .singleStep := hpc
    cases tracee with
    | stopped cpu sig seen => exact h.nothing rfl rfl rfl rfl
    | zombie status ended => cases hdead rfl
    | starting => cases hturn
    | running cpu left => cases hturn
    | gone => cases hturn
  | getRegsReturn hpc =>
    obtain rfl : pc = .getRegsReturn := hpc
    refine ⟨shown, rest, h.same rfl rfl rfl fun e he hl => ?_⟩
    cases tracee with
    | stopped cpu sig seen => exact ⟨hl.1, fun _ => rfl⟩
    | zombie status ended => exact hl
    | gone => exact hl
    | starting => cases hturn.1
    | running cpu left => cases hturn.1
  | print hpc =>
    obtain rfl : pc = .print := hpc
    obtain ⟨e, rfl, hexecuted⟩ := List.map_eq_singleton_iff.mp h.due
    have hleaves := h.leaves e (List.mem_singleton_self e)
    refine ⟨shown ++ [e], [], ?_⟩
    refine ⟨?_, ?_, rfl, fun e he => absurd he List.not_mem_nil⟩
    · rw [effectsOf_snoc, h.effects, List.append_nil]
      exact List.append_nil _
    · rw [stepsOf_snoc]
      refine List.rel_append h.shows (.cons ⟨hexecuted.symm, fun after hafter => ?_⟩ .nil)
      cases tracee with
      | stopped cpu sig seen =>
        obtain rfl := Option.some.inj (hleaves.1.symm.trans hafter)
        exact ⟨rfl, congrArg UserRegs.rax (hleaves.2 rfl)⟩
      | zombie status ended => cases hleaves.symm.trans hafter
      | gone => cases hleaves.symm.trans hafter
      | starting => cases hturn.1
      | running cpu left => cases hturn.1

end Step

/-! ## 4. A whole trace -/

theorem SonRuns.ledger {status : Status} {junk : Snapshots} {ret : Word} {acts : List Act}
    {s : Son} (h : SonRuns status junk ret acts s) :
    idleOf acts = 0 → ∃ shown rest, Ledger acts s shown rest := by
  refine (h.invariant (I := fun acts s => Accounted acts s ∧
    (idleOf acts = 0 → ∃ shown rest, Ledger acts s shown rest))
    ⟨accounted_start status junk ret, fun _ => ⟨[], [], rfl, .nil, rfl,
      fun e he => absurd he List.not_mem_nil⟩⟩ ?_).2
  rintro acts s a s' ⟨hacc, hledger⟩ hstep
  refine ⟨hacc.next hstep, fun hidle => ?_⟩
  rw [idleOf_snoc] at hidle
  obtain ⟨shown, rest, hl⟩ := hledger (by omega)
  cases hstep with
  | tracee e hnext => exact hl.tracee hacc hnext (by omega)
  | son w hact => exact hl.son hacc (by omega) hact

/-- A program of two instructions, a call of the one behind it and a syscall that exits. -/
def callsOnceMem : Mem where
  byte a := if 0x1000 ≤ a ∧ a < 0x1020 then
    some (if a = 0x1000 then 0xE8 else if a = 0x1005 then 0x0F else if a = 0x1006 then 5 else 0)
    else none
  gap := by decide

def callsOnce : List Act × Son :=
  (Son.start (.exited 0) ⟨{}, {}⟩ 0).follow ⟨none, fun _ => .failed⟩
    [some (.starts ⟨{ rip := 0x1000, rsp := 0x1020, rax := 231 }, callsOnceMem⟩ SIGTRAP),
      none, none, none, none, none,
      some (.executes ⟨{ rip := 0x1005, rsp := 0x1018, rax := 231 },
        callsOnceMem.pushed 0x1020 0x1005⟩),
      some (.stops SIGTRAP), none, none, none, none, none, none, none,
      some (.exits 0), none, none, none, none]

/-- **A target that is read from memory is printed as it stands after the call**: it is the
architectural one, that of the memory before the call, exactly if the return address was not pushed
over it, or has the same bytes there. -/
theorem target_after_push {cpu after : Cpu} {st : Step} {next target : Word}
    (hshows : Shows (cpu, some after) st) (hpush : after.mem = cpu.mem.pushed cpu.regs.rsp next)
    (hcall : IsIndirectCall st.ret) (hd : ¬ X86.IsDirect (operandOf st.ret))
    (hok : TargetOk st.ret cpu.regs) (htarget : archTarget cpu.mem st.ret cpu.regs = some target) :
    st.call.addr = target ↔ PushKeeps cpu.regs.rsp next (archAddr st.ret cpu.regs) target := by
  have hreg : st.reg = cpu.regs := congrArg Prod.fst hshows.executed
  have hmem : st.mem = cpu.mem.pushed cpu.regs.rsp next := by
    rw [(hshows.after after rfl).1, hpush]
  have haddr : codeAddr (extOf st.ret) (operandOf st.ret) cpu.regs = archAddr st.ret cpu.regs :=
    (targetOk_iff_addr hcall hd ⟨cpu.mem, by rw [htarget]; rfl⟩).mp hok
  have hword : cpu.mem.word (archAddr st.ret cpu.regs) = some target := by
    rw [← archTarget_of_memory hd, htarget]
  rw [Step.call, hcall.printCall_eq, printIndirect_addr hcall.isACall, if_neg hd, hmem, hreg, haddr]
  exact Mem.peek_pushed_iff hword cpu.regs.rsp next

/-- `call [rax]`, the word at `rax` standing right below the stack. -/
def callBelowStack : Cpu where
  regs := { rip := 0x1000, rax := 0x2FF8, rsp := 0x3000 }
  mem := {
    byte := fun a => if a = 0x8000000000000000 then none
      else if a = 0x1000 then some 0xFF else if a = 0x1001 then some 0x10
      else if 0x1000 ≤ a ∧ a < 0x3000 then some 0 else none
    gap := if_pos rfl }

/-- The processor at the function that is called. -/
def calledBelowStack : Cpu where
  regs := { rip := 0, rax := 0x2FF8, rsp := 0x2FF8 }
  mem := callBelowStack.mem.pushed 0x3000 0x1002

/-- The step that shows the call. -/
def stepBelowStack : Step where
  reg := callBelowStack.regs
  ret := 0x10FF
  retSyscall := 0x2FF8
  mem := calledBelowStack.mem
  maps := none
  load := fun _ => .failed

/-- It goes to the address 0, and is not shown to. -/
theorem target_after_push_below :
    archTarget callBelowStack.mem 0x10FF callBelowStack.regs = some 0 ∧
      ¬ stepBelowStack.call.addr = 0 := by
  have htarget : archTarget callBelowStack.mem 0x10FF callBelowStack.regs = some 0 := by
    decide +kernel
  have hok : TargetOk 0x10FF callBelowStack.regs :=
    (targetOk_iff_addr (by decide) (by decide) ⟨callBelowStack.mem, by rw [htarget]; rfl⟩).mpr
      (by decide +kernel)
  have hshows : Shows (callBelowStack, some calledBelowStack) stepBelowStack := by
    refine ⟨by decide +kernel, fun after hafter => ?_⟩
    obtain rfl := Option.some.inj hafter
    exact ⟨rfl, rfl⟩
  have hiff := target_after_push hshows rfl (by decide) (by decide) hok htarget
  exact ⟨htarget, fun heq => absurd (hiff.mp heq) (by decide +kernel)⟩

end Ftrace
