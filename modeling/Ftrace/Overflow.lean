/-
# Which lines overflow the buffer

The buffer of `print_instruction` is an array of 2048 bytes, and a line that leaves no NUL in it has
no end.  The lines of syscalls and returns are always shorter (`length_lineOf_le`), and so is the
front of the line of a call; only the names that `resolve_symbol` prints behind it are as long as
the files make them.  So a run is cut short by these names, and by nothing else
(`traceLoop_eq_none_iff`).
-/
import Ftrace.CallStack
import Ftrace.Syscalls.Lengths

namespace Ftrace

open CText

/-! ## 1. One line -/

theorem length_hexUp_word_le (v : Word) : (hexUp v.toNat).length ≤ 16 :=
  length_hexUp_le (by decide) v.isLt

/-- **The line of a step that is no call is short.** -/
theorem length_lineOf_le {st : Step} (hk : kind st.ret ≠ .call) (symbols : Option SymTab)
    (lib : LibState) : (lineOf symbols lib st).length ≤ 504 := by
  cases hk' : kind st.ret with
  | syscall =>
    simp only [lineOf, hk']
    refine length_append_le (s := "@".toList) (a := 1) (b := 503) (by decide) ?_
    cases ht : dispSyscall gSyscalls st.mem st.reg st.num st.retSyscall with
    | none => exact Nat.zero_le _
    | some t => exact length_dispSyscall_le ht
  | ret =>
    simp only [lineOf, hk']
    exact (length_field_le (a := 15) (by decide) (length_hexUp_word_le _) _).trans (by decide)
  | call => exact absurd hk' hk
  | quiet =>
    simp only [lineOf, hk']
    exact Nat.zero_le _

/-- What `resolve_symbol` prints behind the address of a call. -/
def namesOf (symbols : Option SymTab) (lib : LibState) (st : Step) : Text :=
  (resolveSymbol st.load st.mem st.maps st.call.addr symbols 1 lib).out

/-- The line of a call: 59 characters up to the address, and the names. -/
theorem length_lineOf_call {st : Step} (hk : kind st.ret = .call) (symbols : Option SymTab)
    (lib : LibState) :
    (lineOf symbols lib st).length = 59 + (namesOf symbols lib st).length := by
  obtain ⟨header, hout, hlen, -, -⟩ := (callText_step hk).eq
  have hline : lineOf symbols lib st = st.call.out ++ namesOf symbols lib st := by
    simp only [lineOf, hk, callLine, call_aCall hk, namesOf]
  have haddr : ("0x".toList ++ hex16 st.call.addr).length = 18 := by
    rw [List.length_append, length_hex16]
    rfl
  rw [hline, hout, List.length_append, List.length_append, hlen, haddr]

/-- The names that a call is printed with are too long for the buffer. -/
def LongNames (symbols : Option SymTab) (lib : LibState) (st : Step) : Prop :=
  kind st.ret = .call ∧ 1989 ≤ (namesOf symbols lib st).length

instance (symbols : Option SymTab) (lib : LibState) (st : Step) :
    Decidable (LongNames symbols lib st) := inferInstanceAs (Decidable (_ ∧ _))

/-- **A line overflows the buffer by its names.** -/
theorem fits_iff (symbols : Option SymTab) (lib : LibState) (st : Step) :
    Fits symbols lib st ↔ ¬ LongNames symbols lib st := by
  unfold Fits LongNames BUFFER_SIZE
  by_cases hk : kind st.ret = .call
  · rw [length_lineOf_call hk, and_iff_right hk]
    omega
  · have hshort := length_lineOf_le hk symbols lib
    exact iff_of_true (by omega) fun h => hk h.1

/-! ## 2. A run -/

/-- The statics of the library lookup after some steps. -/
def libRun (symbols : Option SymTab) (lib : LibState) (steps : List Step) : LibState :=
  steps.foldl (libAfter symbols) lib

theorem printInstruction_eq_none_iff (symbols : Option SymTab) (s : Tracer) (st : Step) :
    printInstruction symbols s st = none ↔ LongNames symbols s.lib st := by
  cases hg : guard st.ret with
  | false =>
    have hfits := (refStep_of_not_guard hg symbols s.lib []).2.2
    rw [printInstruction_of_not_guard hg]
    exact iff_of_false (Option.some_ne_none s) ((fits_iff ..).mp hfits)
  | true =>
    rw [printInstruction_of_guard hg]
    by_cases hfits : Fits symbols s.lib st
    · rw [if_pos hfits]
      exact iff_of_false (Option.some_ne_none _) ((fits_iff ..).mp hfits)
    · rw [if_neg hfits]
      exact iff_of_true rfl (not_not.mp (mt (fits_iff ..).mpr hfits))

/-- **A run is cut short at a call with names that are too long for the buffer, and nowhere else**,
whatever the instructions are, and whatever is in the registers and the memory of the tracee. -/
theorem traceLoop_eq_none_iff (symbols : Option SymTab) (s : Tracer) (steps : List Step) :
    traceLoop symbols s steps = none ↔
      ∃ pre st post, steps = pre ++ st :: post ∧ LongNames symbols (libRun symbols s.lib pre) st := by
  induction steps generalizing s with
  | nil =>
    refine iff_of_false (Option.some_ne_none s) ?_
    rintro ⟨pre, st, post, h, -⟩
    exact List.append_ne_nil_of_right_ne_nil pre (List.cons_ne_nil st post) h.symm
  | cons st sts ih =>
    have hfirst := printInstruction_eq_none_iff symbols s st
    cases h₁ : printInstruction symbols s st with
    | none =>
      rw [h₁] at hfirst
      have hnone : traceLoop symbols s (st :: sts) = none := by rw [traceLoop, h₁]; rfl
      exact iff_of_true hnone ⟨[], st, sts, rfl, hfirst.mp rfl⟩
    | some s₁ =>
      rw [h₁] at hfirst
      have hshort : ¬ LongNames symbols s.lib st := fun h => by cases hfirst.mpr h
      have hrest : traceLoop symbols s (st :: sts) = traceLoop symbols s₁ sts := by
        rw [traceLoop, h₁]
        rfl
      rw [hrest, ih s₁, lib_after_step h₁]
      constructor
      · rintro ⟨pre, st', post, rfl, hlong⟩
        exact ⟨st :: pre, st', post, rfl, hlong⟩
      · rintro ⟨pre, st', post, hsplit, hlong⟩
        cases pre with
        | nil =>
          obtain ⟨rfl, rfl⟩ := List.cons.inj hsplit
          exact absurd hlong hshort
        | cons st'' pre =>
          obtain ⟨rfl, rfl⟩ := List.cons.inj hsplit
          exact ⟨pre, st', post, rfl, hlong⟩

end Ftrace
