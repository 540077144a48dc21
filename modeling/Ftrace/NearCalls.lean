/-
# Which words are recorded as calls

A near call is `E8`, or `FF` with ModRM.reg = 2, the latter possibly behind a REX prefix, one
of 0x40 … 0x4F.  The guard of `print_instruction`, the test at the head of `print_call` and
the table of operands agree on the prefix 0x41 only, though `print_call` names 0x43 and the
getters branch on 0x42: behind any other prefix a near call is not seen at all
(`call_rax_missed`).  `recordsCalls_iff` says that these are the only words that go wrong.
-/
import Ftrace.Labels

namespace Ftrace

open CText Bytes

/-- A REX prefix. -/
def IsRex (b : BitVec 8) : Prop := 0x40#8 ≤ b ∧ b ≤ 0x4F#8

instance (b : BitVec 8) : Decidable (IsRex b) := inferInstanceAs (Decidable (_ ∧ _))

/-- The near calls of the instruction set. -/
def IsNearCall (w : Word) : Prop :=
  byteOf w 0 = 0xE8#8 ∨
    (byteOf w 0 = 0xFF#8 ∧ modrmReg (byteOf w 1) = 2#8) ∨
    (IsRex (byteOf w 0) ∧ byteOf w 1 = 0xFF#8 ∧ modrmReg (byteOf w 2) = 2#8)

instance (w : Word) : Decidable (IsNearCall w) := inferInstanceAs (Decidable (_ ∨ _))

/-- An indirect near call behind a REX prefix other than 0x41. -/
def IsMissedCall (w : Word) : Prop :=
  (IsRex (byteOf w 0) ∧ byteOf w 0 ≠ 0x41#8) ∧ byteOf w 1 = 0xFF#8 ∧
    modrmReg (byteOf w 2) = 2#8

instance (w : Word) : Decidable (IsMissedCall w) := inferInstanceAs (Decidable (_ ∧ _))

/-- The near calls are those that `print_call` knows and those it misses. -/
theorem isNearCall_iff (w : Word) : IsNearCall w ↔ IsCallWord w ∨ IsMissedCall w := by
  have h41 : IsRex 0x41#8 := by decide
  constructor
  · rintro (h | h | ⟨hrex, h1, h2⟩)
    · exact .inl (.inl h)
    · exact .inl (.inr (.inl h))
    · by_cases h0 : byteOf w 0 = 0x41#8
      · exact .inl (.inr (.inr ⟨h0, h1, h2⟩))
      · exact .inr ⟨⟨hrex, h0⟩, h1, h2⟩
  · rintro ((h | h | ⟨h0, h1, h2⟩) | ⟨⟨hrex, -⟩, h1, h2⟩)
    · exact .inl h
    · exact .inr (.inl h)
    · exact .inr (.inr ⟨h0 ▸ h41, h1, h2⟩)
    · exact .inr (.inr ⟨hrex, h1, h2⟩)

/-- What is missed is none of the words `print_call` knows. -/
theorem not_isCallWord_of_missed {w : Word} (h : IsMissedCall w) : ¬ IsCallWord w := by
  obtain ⟨⟨hrex, h41⟩, -⟩ := h
  rintro (h | ⟨h, -⟩ | ⟨h, -⟩)
  · rw [h] at hrex
    exact absurd hrex (by decide)
  · rw [h] at hrex
    exact absurd hrex (by decide)
  · exact h41 h

/-- A REX prefix that is not 0x41 does not pass the guard. -/
theorem not_guard_of_rex {w : Word} (hrex : IsRex (byteOf w 0)) (h41 : byteOf w 0 ≠ 0x41#8) :
    guard w = false := by
  have hs : isSyscallWord w = false := by
    rw [← Bool.not_eq_true, isSyscallWord_iff]
    rintro ⟨h, -⟩
    rw [h] at hrex
    exact absurd hrex (by decide)
  have hc : instructionIsCall w = FAILURE := by
    by_contra hne
    have hb := (instructionIsCall_iff w).mp hne
    revert hb hrex h41
    generalize byteOf w 0 = b
    revert b
    decide +kernel
  have hr : instructionIsRet w = FAILURE := by
    by_contra hne
    have hb := (instructionIsRet_iff w).mp hne
    revert hb hrex
    generalize byteOf w 0 = b
    rintro hrex (hb | ⟨hb, -⟩)
    · revert hb hrex b
      decide +kernel
    · rw [hb] at hrex
      exact absurd hrex (by decide)
  simp [guard, hs, hr, hc]

/-- The calls that `print_call` reports in this step, under the guard of
`print_instruction`. -/
def recorded (symbols : Option SymTab) (lib : LibState) (st : Step) : ℕ :=
  if guard st.ret then ((getinstruction symbols lib st).map Line.calls).getD 0 else 0

theorem recorded_eq (symbols : Option SymTab) (lib : LibState) (st : Step) :
    recorded symbols lib st = if IsCallWord st.ret then 1 else 0 := by
  unfold recorded
  cases hg : guard st.ret with
  | true =>
    rw [if_pos rfl, getinstruction_eq hg]
    simp only [Option.map_some, Option.getD_some]
    exact if_congr ⟨kind_of_call, kind_of_isCallWord⟩ rfl rfl
  | false =>
    have hcall : ¬ IsCallWord st.ret := fun hc => by simp [guard_of_isCallWord hc] at hg
    simp [hcall]

/-- Nothing but the header of the file is written, and the stack stays. -/
def NoEvent (s s' : Tracer) : Prop :=
  s'.dot = s.dot ∧ s'.writes.filterMap Write.label? = s.writes.filterMap Write.label?

/-- **The word is recorded as it should be**, wherever it is met: a near call as exactly one
call, whose label is pushed and written; any other word as none, and if it starts with `FF` or
a REX prefix, nothing else comes of it. -/
def RecordsCalls (w : Word) : Prop :=
  ∀ symbols s s' st, st.ret = w → printInstruction symbols s st = some s' →
    recorded symbols s.lib st = (if IsNearCall w then 1 else 0) ∧
    (IsNearCall w → ∃ label, s'.dot.listFunc = label :: s.dot.listFunc ∧
      s'.writes.getLast? = some (.node label)) ∧
    (¬ IsNearCall w → byteOf w 0 = 0xFF#8 ∨ IsRex (byteOf w 0) → NoEvent s s')

/-- A word of the `FF` group or with a REX prefix that is no call prints nothing. -/
theorem noEvent_of_quiet {symbols : Option SymTab} {s s' : Tracer} {st : Step}
    (hb : byteOf st.ret 0 = 0xFF#8 ∨ IsRex (byteOf st.ret 0)) (hcall : ¬ IsCallWord st.ret)
    (h : printInstruction symbols s st = some s') : NoEvent s s' := by
  rcases printInstruction_cases h with ⟨-, rfl⟩ | ⟨hg, -, rfl⟩
  · exact ⟨rfl, rfl⟩
  · have hcand : instructionIsCall st.ret ≠ FAILURE := by
      rw [instructionIsCall_iff]
      rcases hb with hb | hrex
      · simp [hb]
      · by_cases h41 : byteOf st.ret 0 = 0x41#8
        · simp [h41]
        · rw [not_guard_of_rex hrex h41] at hg
          cases hg
    obtain ⟨hs, hr⟩ := not_syscall_not_ret_of_call hcand
    have hk : kind st.ret = .quiet := by simp [kind, hs, hr, hcall]
    refine ⟨?_, ?_⟩
    · simp only [Tracer.after, eventOf_quiet hk, writeEvent]
    · simp only [Tracer.after, eventOf_quiet hk, writeEvent, List.append_nil,
        List.filterMap_append]
      split <;> simp [openDotfile, Write.label?]

/-- **A word is recorded as it should be exactly if it is not an indirect near call behind a
REX prefix other than 0x41.** -/
theorem recordsCalls_iff (w : Word) : RecordsCalls w ↔ ¬ IsMissedCall w := by
  constructor
  · intro h hmissed
    have hguard : guard w = false := not_guard_of_rex hmissed.1.1 hmissed.1.2
    obtain ⟨hrec, -⟩ := h none {} {} (.bare w {}) rfl
      (printInstruction_of_not_guard hguard none {})
    have hcount : (if IsCallWord w then 1 else 0) = if IsNearCall w then 1 else 0 :=
      (recorded_eq none _ (.bare w {})).symm.trans hrec
    rw [if_neg (not_isCallWord_of_missed hmissed),
      if_pos ((isNearCall_iff w).mpr (.inr hmissed))] at hcount
    exact zero_ne_one hcount
  · rintro hmissed symbols s s' st rfl h
    have hiff : IsNearCall st.ret ↔ IsCallWord st.ret := by
      rw [isNearCall_iff, or_iff_left hmissed]
    refine ⟨?_, ?_, ?_⟩
    · rw [recorded_eq]
      exact if_congr hiff.symm rfl rfl
    · intro hnear
      have hk := kind_of_isCallWord (hiff.mp hnear)
      obtain ⟨-, -, rfl⟩ := (printInstruction_cases h).resolve_left
        (by simp [guard_of_isCallWord (hiff.mp hnear)])
      exact ⟨_, after_call hk symbols s⟩
    · intro hnear hb
      exact noEvent_of_quiet hb (fun hc => hnear (hiff.mpr hc)) h

/-- **`40 FF D0`, a call through `rax` with an empty prefix, is not recorded.** -/
theorem call_rax_missed :
    IsNearCall 0xD0FF40 ∧ recorded none {} (.bare 0xD0FF40 {}) = 0 := by
  decide +kernel

end Ftrace
