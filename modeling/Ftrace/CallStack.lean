/-
# The call stack of a run

The stack that `format_dotfile` keeps is compared with the one a machine keeps that is told
what each instruction is, instead of reading it off the first character of a line.

The two part company at a syscall whose number the table does not have
(`stack_syscall_undefined`): its line is a lone `@`, which is cut off as if it were the
newline, and what is left is pushed as the label of a call.  `stacksAgree_iff` says that they
part nowhere else, in any run whose lines fit the buffer.
-/
import Ftrace.Labels

namespace Ftrace

open CText Bytes

/-! ## 1. The reference machine -/

/-- One step: a call that `print_call` reports pushes its label, a return pops, everything else
leaves the stack alone. -/
def refStep (symbols : Option SymTab) (lib : LibState) (stack : List Text) (st : Step) :
    List Text :=
  if isSyscallWord st.ret then stack
  else if instructionIsRet st.ret ≠ FAILURE then stack.tail
  else if st.call.aCall ≠ 0 then labelOf symbols lib st :: stack
  else stack

/-- A whole run.  The statics of the library lookup go along, since the label of a call may
hold a name found there. -/
def refStack (symbols : Option SymTab) : LibState → List Text → List Step → List Text
  | _, stack, [] => stack
  | lib, stack, st :: sts =>
    refStack symbols (libAfter symbols lib st) (refStep symbols lib stack st) sts

theorem refStep_eq (symbols : Option SymTab) (lib : LibState) (stack : List Text) (st : Step) :
    refStep symbols lib stack st = match kind st.ret with
      | .call => labelOf symbols lib st :: stack
      | .ret => stack.tail
      | .syscall | .quiet => stack := by
  have hcalls : st.call.aCall ≠ 0 ↔ IsCallWord st.ret := by
    rw [Step.call, printCall_aCall]
    split
    · rename_i h
      exact iff_of_true one_ne_zero h
    · rename_i h
      exact iff_of_false (fun hc => hc rfl) h
  simp only [refStep, kind, hcalls]
  by_cases hs : isSyscallWord st.ret = true
  · rw [if_pos hs, if_pos hs]
  · rw [if_neg hs, if_neg hs]
    by_cases hr : instructionIsRet st.ret ≠ FAILURE
    · rw [if_pos hr, if_pos hr]
    · rw [if_neg hr, if_neg hr]
      by_cases hc : IsCallWord st.ret
      · rw [if_pos hc, if_pos hc]
      · rw [if_neg hc, if_neg hc]

/-! ## 2. One step of the tracer -/

/-- The step is no syscall, or one that the table knows. -/
def KnownSyscall (st : Step) : Prop := isSyscallWord st.ret = true → SyscallDefined st.num

instance (st : Step) : Decidable (KnownSyscall st) := inferInstanceAs (Decidable (_ → _))

theorem kind_of_syscall {w : Word} : kind w = .syscall ↔ isSyscallWord w = true := by
  unfold kind
  split
  · rename_i h
    exact iff_of_true rfl h
  · rename_i h
    refine iff_of_false (fun hk => ?_) h
    split at hk
    · cases hk
    · split at hk <;> cases hk

theorem kind_of_not_guard {w : Word} (h : guard w = false) : kind w = .quiet := by
  have hcall : ¬ IsCallWord w := fun hc => by simp [guard_of_isCallWord hc] at h
  simp only [guard, Bool.or_eq_false_iff, decide_eq_false_iff_not] at h
  simp [kind, h.1.1, h.1.2, hcall]

/-- **The stack after a step**: that of the reference machine, unless the syscall is one the
table does not know. -/
theorem stack_after {symbols : Option SymTab} {s : Tracer} {st : Step}
    (h : KnownSyscall st) :
    (s.after symbols st).dot.listFunc = refStep symbols s.lib s.dot.listFunc st := by
  rw [refStep_eq]
  simp only [Tracer.after]
  cases hk : kind st.ret with
  | syscall =>
    rw [eventOf_syscall hk (h (kind_of_syscall.mp hk))]
    rfl
  | ret =>
    rw [eventOf_ret hk]
    rfl
  | call =>
    rw [eventOf_call hk]
    rfl
  | quiet =>
    rw [eventOf_quiet hk]
    rfl

/-- A syscall that the table does not know pushes the empty label. -/
theorem stack_after_undefined (symbols : Option SymTab) (s : Tracer) {st : Step}
    (h : ¬ KnownSyscall st) :
    (s.after symbols st).dot.listFunc = [] :: s.dot.listFunc ∧
      refStep symbols s.lib s.dot.listFunc st = s.dot.listFunc := by
  obtain ⟨hs, hdef⟩ := Classical.not_imp.mp h
  refine ⟨?_, if_pos hs⟩
  simp only [Tracer.after, eventOf_syscall_undefined (kind_of_syscall.mpr hs) hdef]
  rfl

theorem guard_of_syscall {st : Step} (h : ¬ KnownSyscall st) : guard st.ret = true := by
  obtain ⟨hs, -⟩ := Classical.not_imp.mp h
  simp [guard, hs]

/-- A step that the guard rejects is nothing to the reference machine either. -/
theorem refStep_of_not_guard {st : Step} (h : guard st.ret = false) (symbols : Option SymTab)
    (lib : LibState) (stack : List Text) :
    refStep symbols lib stack st = stack ∧ libAfter symbols lib st = lib ∧
      Fits symbols lib st := by
  have hk := kind_of_not_guard h
  refine ⟨by simp only [refStep_eq, hk], by simp only [libAfter, hk], ?_⟩
  simp only [Fits, lineOf, hk]
  decide

/-- **One step keeps the two stacks together exactly if** its line fits the buffer and it is
not an unknown syscall. -/
theorem step_agrees (symbols : Option SymTab) (s : Tracer) (st : Step) :
    (∃ s', printInstruction symbols s st = some s' ∧
        s'.dot.listFunc = refStep symbols s.lib s.dot.listFunc st) ↔
      Fits symbols s.lib st ∧ KnownSyscall st := by
  constructor
  · rintro ⟨s', h, hstack⟩
    rcases printInstruction_cases h with ⟨hg, rfl⟩ | ⟨-, hfits, rfl⟩
    · refine ⟨(refStep_of_not_guard hg symbols s'.lib s'.dot.listFunc).2.2, ?_⟩
      by_contra hdef
      rw [guard_of_syscall hdef] at hg
      cases hg
    · refine ⟨hfits, ?_⟩
      by_contra hdef
      obtain ⟨hpush, hsame⟩ := stack_after_undefined symbols s hdef
      rw [hpush, hsame] at hstack
      exact List.cons_ne_self _ _ hstack
  · rintro ⟨hfits, hdef⟩
    cases hg : guard st.ret with
    | false =>
      exact ⟨s, printInstruction_of_not_guard hg symbols s,
        (refStep_of_not_guard hg symbols s.lib s.dot.listFunc).1.symm⟩
    | true =>
      refine ⟨s.after symbols st, ?_, stack_after hdef⟩
      rw [printInstruction_of_guard hg, if_pos hfits]

theorem lib_after_step {symbols : Option SymTab} {s s' : Tracer} {st : Step}
    (h : printInstruction symbols s st = some s') : s'.lib = libAfter symbols s.lib st := by
  rcases printInstruction_cases h with ⟨hg, rfl⟩ | ⟨-, -, rfl⟩
  · exact (refStep_of_not_guard hg symbols s'.lib s'.dot.listFunc).2.1.symm
  · rfl

/-! ## 3. Whole runs -/

/-- Every step of the run has a line that fits the buffer, and no syscall in it is unknown to
the table. -/
def KnownSteps (symbols : Option SymTab) : LibState → List Step → Prop
  | _, [] => True
  | lib, st :: sts =>
    (Fits symbols lib st ∧ KnownSyscall st) ∧ KnownSteps symbols (libAfter symbols lib st) sts

/-- From these statics on, the stack is that of the reference machine after every number of
steps. -/
def StacksAgreeFrom (symbols : Option SymTab) (s : Tracer) (steps : List Step) : Prop :=
  ∀ pre, pre <+: steps → ∃ s', traceLoop symbols s pre = some s' ∧
    s'.dot.listFunc = refStack symbols s.lib s.dot.listFunc pre

theorem stacksAgreeFrom_iff (symbols : Option SymTab) (s : Tracer) (steps : List Step) :
    StacksAgreeFrom symbols s steps ↔ KnownSteps symbols s.lib steps := by
  induction steps generalizing s with
  | nil =>
    refine iff_of_true (fun pre hpre => ?_) trivial
    obtain rfl := List.prefix_nil.mp hpre
    exact ⟨s, rfl, rfl⟩
  | cons st sts ih =>
    constructor
    · intro h
      obtain ⟨s₁, h₁, hstack₁⟩ := h [st] (by simp)
      have hstep : printInstruction symbols s st = some s₁ := by
        simpa [traceLoop] using h₁
      refine ⟨(step_agrees symbols s st).mp ⟨s₁, hstep, hstack₁⟩, ?_⟩
      rw [← lib_after_step hstep]
      refine (ih s₁).mp ?_
      intro pre hpre
      obtain ⟨s', hs', hstack⟩ := h (st :: pre) (List.cons_prefix_cons.mpr ⟨rfl, hpre⟩)
      refine ⟨s', ?_, ?_⟩
      · simpa [traceLoop, hstep] using hs'
      · rw [hstack, refStack, lib_after_step hstep]
        exact congrArg (fun stack => refStack symbols _ stack pre) hstack₁.symm
    · rintro ⟨hok, hoks⟩ pre hpre
      cases pre with
      | nil => exact ⟨s, rfl, rfl⟩
      | cons st' pre =>
        obtain ⟨rfl, htail⟩ := List.cons_prefix_cons.mp hpre
        obtain ⟨s₁, hstep, hstack₁⟩ := (step_agrees symbols s st').mpr hok
        rw [← lib_after_step hstep] at hoks
        obtain ⟨s', hs', hstack⟩ := (ih s₁).mpr hoks pre htail
        refine ⟨s', ?_, ?_⟩
        · simpa [traceLoop, hstep] using hs'
        · rw [hstack, refStack, lib_after_step hstep, hstack₁]

/-- After every number of steps of the run, the stack is that of the reference machine. -/
def StacksAgree (symbols : Option SymTab) (steps : List Step) : Prop :=
  ∀ pre, pre <+: steps → ∃ s, traceLoop symbols {} pre = some s ∧
    s.dot.listFunc = refStack symbols {} [] pre

/-- **The stack of a run is that of the reference machine, at every step, exactly if** every
line fits the buffer and every syscall is one the table knows. -/
theorem stacksAgree_iff (symbols : Option SymTab) (steps : List Step) :
    StacksAgree symbols steps ↔ KnownSteps symbols {} steps :=
  stacksAgreeFrom_iff symbols {} steps

/-- **The syscall 1000 pushes a label.** -/
theorem stack_syscall_undefined :
    (traceLoop none {} [.bare 0x050F { rax := 1000 }]).map (fun s => s.dot.listFunc) = some [[]] ∧
      refStack none {} [] [.bare 0x050F { rax := 1000 }] = [] := by
  decide +kernel

end Ftrace
