/-
# The line of a syscall

Every syscall the table knows is printed as one line: no NUL in it, a newline at its end, and
the last digit of the returned value before that (`dispSyscall_line`).  A number the table does
not know is printed as nothing at all (`dispSyscall_undefined`), so that the line of such a
syscall is the `@` that stands in front of it.
-/
import Ftrace.Syscalls.Printers

namespace Ftrace

open CText Bytes

/-! ## 1. Numerals -/

/-- What a conversion of a number prints. -/
structure Numeral (t : Text) : Prop where
  ne_nil : t ≠ []
  nul_free : nul ∉ t
  no_backslash : '\\' ∉ t

theorem Numeral.toDigits {b n : ℕ} (hb : 1 < b) (hb16 : b ≤ 16) :
    Numeral (Nat.toDigits b n) := by
  refine ⟨?_, nul_not_mem_toDigits hb hb16, ?_⟩
  · intro h
    have hpos := Nat.length_toDigits_pos (b := b) (n := n)
    simp [h] at hpos
  · intro h
    obtain ⟨d, hd, hc⟩ := mem_toDigits hb h
    have hne : ∀ d < 16, '\\' ≠ Nat.digitChar d := by decide
    exact hne d (by omega) hc

theorem Numeral.append {s t : Text} (hs : nul ∉ s) (hs' : '\\' ∉ s) (ht : Numeral t) :
    Numeral (s ++ t) := by
  refine ⟨?_, ?_, ?_⟩
  · intro h
    exact ht.ne_nil (List.append_eq_nil_iff.mp h).2
  · intro h
    exact (List.mem_append.mp h).elim hs ht.nul_free
  · intro h
    exact (List.mem_append.mp h).elim hs' ht.no_backslash

theorem Numeral.decInt (i : ℤ) : Numeral (decInt i) := by
  have h : Numeral (Nat.toDigits 10 i.natAbs) := Numeral.toDigits (by decide) (by decide)
  rw [CText.decInt]
  split
  · exact Numeral.append (s := ['-']) (by decide) (by decide) h
  · exact h

theorem Numeral.hexLow (n : ℕ) : Numeral (hexLow n) := Numeral.toDigits (by decide) (by decide)

theorem Numeral.printVoidPtr (v : Word) : Numeral (printVoidPtr v) := by
  rw [Ftrace.printVoidPtr]
  split
  · exact Numeral.append (by decide) (by decide) (Numeral.hexLow _)
  · exact ⟨by decide, by decide, by decide⟩

/-! ## 2. Lines -/

/-- A line as `printf` leaves it: without a NUL, and with its newline after a character that
is not a backslash. -/
structure LineText (t : Text) : Prop where
  nul_free : nul ∉ t
  ends : ∃ body c, t = body ++ [c] ++ ['\n'] ∧ c ≠ '\\'

theorem LineText.of_numeral {front n : Text} (hf : nul ∉ front) (hn : Numeral n) :
    LineText (front ++ n ++ ['\n']) := by
  have hlast : n = n.dropLast ++ [n.getLast hn.ne_nil] :=
    (List.dropLast_concat_getLast hn.ne_nil).symm
  refine ⟨?_, front ++ n.dropLast, n.getLast hn.ne_nil, ?_, ?_⟩
  · simp only [List.mem_append, not_or]
    exact ⟨⟨hf, hn.nul_free⟩, by decide⟩
  · rw [List.append_assoc front n.dropLast, ← hlast]
  · intro h
    exact hn.no_backslash (h ▸ List.getLast_mem hn.ne_nil)

theorem LineText.append {front t : Text} (hf : nul ∉ front) (ht : LineText t) :
    LineText (front ++ t) := by
  obtain ⟨body, c, rfl, hc⟩ := ht.ends
  refine ⟨?_, front ++ body, c, by simp, hc⟩
  intro h
  exact (List.mem_append.mp h).elim hf ht.nul_free

/-! ## 3. No printer prints a NUL -/

@[simp] theorem nul_not_mem_printInt (v : Word) : nul ∉ printInt v := nul_not_mem_decInt _

@[simp] theorem nul_not_mem_printSizeT (v : Word) : nul ∉ printSizeT v := nul_not_mem_decNat _

@[simp] theorem nul_not_mem_printVoidPtr (v : Word) : nul ∉ printVoidPtr v :=
  (Numeral.printVoidPtr v).nul_free

@[simp] theorem nul_not_mem_printOffT (v : Word) : nul ∉ printOffT v :=
  nul_not_mem_printVoidPtr v

@[simp] theorem nul_not_mem_charPtrLoop (mem : Mem) (n : ℕ) (s : Word) :
    nul ∉ (charPtrLoop mem n s).1 := by
  induction n generalizing s with
  | zero => simp [charPtrLoop]
  | succ n ih =>
    simp only [charPtrLoop]
    split
    · simp
    · rw [List.mem_append, not_or]
      exact ⟨nul_not_mem_cstr _, ih _⟩

@[simp] theorem nul_not_mem_printCharPtr (mem : Mem) (v : Word) : nul ∉ printCharPtr mem v := by
  simp only [printCharPtr]
  split
  · simp
  · simp only [List.mem_append, not_or]
    refine ⟨⟨by decide, nul_not_mem_charPtrLoop mem 20 v⟩, ?_⟩
    split <;> decide

@[simp] theorem nul_not_mem_printSspace (n : ℕ) : nul ∉ printSspace n := by
  simp [printSspace, nul]

/-- A flag is printed by its name or not at all. -/
theorem nul_not_mem_printFlag {flags mask : BitVec 32} {name : Text} (h : nul ∉ name) :
    nul ∉ printFlag flags mask name := by
  unfold printFlag
  split
  · exact h
  · simp

theorem nul_not_mem_printOpenFlags (flags : BitVec 32) : nul ∉ printOpenFlags flags := by
  simp only [printOpenFlags, printOpenFlags2, List.mem_append, not_or]
  refine ⟨⟨⟨⟨⟨⟨?_, ?_⟩, ?_⟩, ?_⟩, ?_⟩, ?_⟩, ⟨⟨⟨⟨⟨⟨?_, ?_⟩, ?_⟩, ?_⟩, ?_⟩, ?_⟩, ?_⟩⟩
  case refine_1 =>
    split
    · decide
    · split
      · decide
      · split <;> decide
  all_goals exact nul_not_mem_printFlag (by decide)

theorem nul_not_mem_protText (prot : BitVec 32) : nul ∉ protText prot := by
  simp only [protText]
  split
  · decide
  · simp only [List.mem_append, not_or]
    refine ⟨⟨?_, ?_⟩, ?_⟩ <;> exact nul_not_mem_printFlag (by decide)

theorem nul_not_mem_printMapFlags (flags : BitVec 32) : nul ∉ printMapFlags flags := by
  simp only [printMapFlags, List.mem_append, not_or]
  refine ⟨⟨⟨⟨⟨⟨⟨⟨⟨⟨⟨?_, ?_⟩, ?_⟩, ?_⟩, ?_⟩, ?_⟩, ?_⟩, ?_⟩, ?_⟩, ?_⟩, ?_⟩, ?_⟩
  case refine_1 => split <;> decide
  all_goals exact nul_not_mem_printFlag (by decide)

theorem nul_not_mem_printAccessMode (mode : BitVec 32) : nul ∉ printAccessMode mode := by
  simp only [printAccessMode]
  split
  · decide
  · simp only [List.mem_append, not_or]
    refine ⟨⟨?_, ?_⟩, ?_⟩ <;> exact nul_not_mem_printFlag (by decide)

theorem nul_not_mem_printByte (b : BitVec 8) : nul ∉ printByte b := by
  unfold printByte
  split
  · rename_i h
    have hb : ∀ b : BitVec 8, 0x20 ≤ b.toInt → nul ≠ byteChar b := by decide +kernel
    rw [List.mem_singleton]
    exact hb b h.1
  · rw [List.mem_cons, not_or]
    exact ⟨by decide, nul_not_mem_octal _⟩

theorem nul_not_mem_bufLoop (mem : Mem) (n : ℕ) (ptr : Word) : nul ∉ bufLoop mem n ptr := by
  induction n generalizing ptr with
  | zero => simp [bufLoop]
  | succ n ih =>
    simp only [bufLoop, List.mem_append, not_or]
    refine ⟨?_, ih _⟩
    split
    · simp only [printWordBuf, List.mem_append, not_or]
      exact ⟨nul_not_mem_printByte _, nul_not_mem_printByte _⟩
    · simp

theorem nul_not_mem_printBuf (mem : Mem) (ptr len : Word) : nul ∉ printBuf mem ptr len := by
  simp only [printBuf, List.mem_append, not_or]
  refine ⟨⟨⟨by decide, nul_not_mem_bufLoop mem _ ptr⟩, by decide⟩, ?_⟩
  split <;> decide

/-! ## 4. The printers -/

theorem lineText_printAccess (mem : Mem) (regs : UserRegs) (ret : Word) :
    LineText (printAccess mem regs ret) := by
  refine LineText.of_numeral ?_ (Numeral.decInt _)
  simp only [List.mem_append, not_or]
  exact ⟨⟨⟨⟨⟨⟨by decide, nul_not_mem_printCharPtr mem _⟩, by decide⟩,
    nul_not_mem_printAccessMode _⟩, by decide⟩, nul_not_mem_printSspace _⟩, by decide⟩

theorem lineText_printMmap (mem : Mem) (regs : UserRegs) (ret : Word) :
    LineText (printMmap mem regs ret) := by
  refine LineText.of_numeral ?_ (Numeral.printVoidPtr _)
  simp only [List.mem_append, not_or]
  exact ⟨⟨⟨⟨⟨⟨⟨⟨⟨⟨⟨⟨by decide, nul_not_mem_printVoidPtr _⟩, by decide⟩,
    nul_not_mem_printSizeT _⟩, by decide⟩, nul_not_mem_protText _⟩, by decide⟩,
    nul_not_mem_printMapFlags _⟩, by decide⟩, nul_not_mem_printInt _⟩, by decide⟩,
    nul_not_mem_printOffT _⟩, by decide⟩

theorem lineText_printMmap2 (mem : Mem) (regs : UserRegs) (ret : Word) :
    LineText (printMmap2 mem regs ret) := by
  refine LineText.of_numeral ?_ (Numeral.printVoidPtr _)
  have hptr : nul ∉ (if getParam regs 0 = 0 then "NULL".toList
      else printVoidPtr (getParam regs 0)) := by
    split
    · decide
    · exact nul_not_mem_printVoidPtr _
  simp only [List.mem_append, not_or]
  exact ⟨⟨⟨⟨⟨⟨⟨⟨⟨⟨⟨⟨by decide, hptr⟩, by decide⟩, nul_not_mem_printSizeT _⟩, by decide⟩,
    nul_not_mem_protText _⟩, by decide⟩, nul_not_mem_printMapFlags _⟩, by decide⟩,
    nul_not_mem_printInt _⟩, by decide⟩, nul_not_mem_printOffT _⟩, by decide⟩

theorem lineText_printMprotect (mem : Mem) (regs : UserRegs) (ret : Word) :
    LineText (printMprotect mem regs ret) := by
  refine LineText.of_numeral ?_ (Numeral.decInt _)
  simp only [List.mem_append, not_or]
  exact ⟨⟨⟨⟨⟨⟨⟨⟨by decide, nul_not_mem_printVoidPtr _⟩, by decide⟩, nul_not_mem_printSizeT _⟩,
    by decide⟩, nul_not_mem_protText _⟩, by decide⟩, nul_not_mem_printSspace _⟩, by decide⟩

theorem lineText_printOpen (mem : Mem) (regs : UserRegs) (ret : Word) :
    LineText (printOpen mem regs ret) := by
  refine LineText.of_numeral ?_ (Numeral.decInt _)
  have hmode : nul ∉ (if getParam regs 1 &&& O_CREAT.setWidth 64 ≠ 0 then
      ", ".toList ++ printOpenMode (toInt32 (getParam regs 3)) else []) := by
    split
    · simp only [List.mem_append, not_or]
      exact ⟨by decide, nul_not_mem_decInt _⟩
    · simp
  simp only [List.mem_append, not_or]
  exact ⟨⟨⟨⟨⟨⟨⟨by decide, nul_not_mem_printCharPtr mem _⟩, by decide⟩,
    nul_not_mem_printOpenFlags _⟩, hmode⟩, by decide⟩, nul_not_mem_printSspace _⟩, by decide⟩

theorem lineText_printRead (mem : Mem) (regs : UserRegs) (ret : Word) :
    LineText (printRead mem regs ret) := by
  refine LineText.of_numeral ?_ (Numeral.decInt _)
  simp only [List.mem_append, not_or]
  exact ⟨⟨⟨⟨⟨⟨⟨⟨by decide, nul_not_mem_printInt _⟩, by decide⟩, nul_not_mem_printBuf mem _ _⟩,
    by decide⟩, nul_not_mem_printSizeT _⟩, by decide⟩, nul_not_mem_printSspace _⟩, by decide⟩

/-- Whatever dedicated printer a name has, it prints one line. -/
theorem lineText_of_functions {name : Text} {fct : Mem → UserRegs → Word → Text}
    (h : isFunctionsAssociated name = some fct) (mem : Mem) (regs : UserRegs) (ret : Word) :
    LineText (fct mem regs ret) := by
  obtain ⟨p, hp, rfl⟩ := Option.map_eq_some_iff.mp h
  have hmem := List.mem_of_find?_eq_some hp
  simp only [gPrintFunc, List.mem_cons, List.not_mem_nil, or_false] at hmem
  rcases hmem with rfl | rfl | rfl | rfl | rfl | rfl
  · exact lineText_printMmap mem regs ret
  · exact lineText_printMmap2 mem regs ret
  · exact lineText_printAccess mem regs ret
  · exact lineText_printOpen mem regs ret
  · exact lineText_printRead mem regs ret
  · exact lineText_printMprotect mem regs ret

/-! ## 5. The generic printer -/

/-- A parameter is printed by the function of its type, or as a number. -/
theorem nul_not_mem_of_functionsPrint {mem : Mem} {p : ℤ × (Word → Text)}
    (h : p ∈ gFunctionsPrint mem) (v : Word) : nul ∉ p.2 v := by
  simp only [gFunctionsPrint, List.mem_cons, List.not_mem_nil, or_false] at h
  rcases h with rfl | rfl | rfl | rfl | rfl | rfl | rfl | rfl | rfl | rfl | rfl
  · exact nul_not_mem_printInt v
  · exact nul_not_mem_printSizeT v
  · exact nul_not_mem_printOffT v
  · exact nul_not_mem_printVoidPtr v
  · exact nul_not_mem_printVoidPtr v
  · exact nul_not_mem_printVoidPtr v
  all_goals exact nul_not_mem_printCharPtr mem v

/-- An entry with six parameter slots has a type for each of them. -/
theorem printType_eq_some {tab : List TSyscalls} {num : ℕ} {e : TSyscalls} (he : tab[num]? = some e)
    (h6 : e.params.length = 6) {k : ℕ} (hk : k < 6) (mem : Mem) (v : Word) :
    ∃ t, printType tab mem num k v = some t ∧ nul ∉ t := by
  have htype : e.params[k]? = some (e.params[k]) := List.getElem?_eq_getElem (by omega)
  simp only [printType, he, htype, Option.bind_eq_bind, Option.bind_some]
  refine ⟨_, rfl, ?_⟩
  simp only [List.mem_append, not_or]
  refine ⟨by split <;> decide, ?_⟩
  split
  · rename_i p hp
    exact nul_not_mem_of_functionsPrint (List.mem_of_find?_eq_some hp) v
  · simp only [List.mem_append, not_or]
    exact ⟨by decide, nul_not_mem_hexLow _⟩

theorem printParams_eq_some {tab : List TSyscalls} {num : ℕ} {e : TSyscalls}
    (he : tab[num]? = some e) (h6 : e.params.length = 6) (mem : Mem) (regs : UserRegs) (k n : ℕ)
    (hkn : k + n ≤ 6) :
    ∃ t, printParams tab mem regs num k n = some t ∧ nul ∉ t := by
  induction n generalizing k with
  | zero => exact ⟨[], rfl, by simp⟩
  | succ n ih =>
    obtain ⟨t, ht, hnul⟩ := printType_eq_some he h6 (k := k) (by omega) mem (getParam regs k)
    obtain ⟨ts, hts, hnuls⟩ := ih (k + 1) (by omega)
    refine ⟨t ++ ts, ?_, ?_⟩
    · simp only [printParams, ht, hts, Option.bind_eq_bind, Option.bind_some]
    · rw [List.mem_append, not_or]
      exact ⟨hnul, hnuls⟩

theorem lineText_printGeneric {tab : List TSyscalls} {num : ℕ} {e : TSyscalls}
    (he : tab[num]? = some e) (h6 : e.params.length = 6) (hname : nul ∉ e.name) (mem : Mem)
    (regs : UserRegs) (ret : Word) :
    ∃ t, printGeneric tab mem regs ret num e = some t ∧ LineText t := by
  obtain ⟨params, hp, hnul⟩ := printParams_eq_some he h6 mem regs 0 (min 6 e.nparams) (by omega)
  simp only [printGeneric, hp, Option.bind_eq_bind, Option.bind_some]
  refine ⟨_, rfl, LineText.of_numeral ?_ (Numeral.hexLow _)⟩
  simp only [List.mem_append, not_or]
  refine ⟨⟨⟨⟨⟨⟨hname, by decide⟩, hnul⟩, by decide⟩, nul_not_mem_printSspace _⟩, by decide⟩, ?_⟩
  split <;> decide

/-! ## 6. `disp_syscall` -/

/-- The number is in the table. -/
def SyscallDefined (num : ℕ) : Prop := (isSyscallDefined gSyscalls num).isSome

instance (num : ℕ) : Decidable (SyscallDefined num) := inferInstanceAs (Decidable (_ = true))

/-- The number of an entry is its position. -/
theorem gSyscalls_getElem {i : ℕ} (hi : i < gSyscalls.length) : gSyscalls[i].num = i := by
  have hat : (gSyscalls.map TSyscalls.num)[i]? = some i := by
    rw [gSyscalls_num, List.getElem?_range hi]
  rw [List.getElem?_map, List.getElem?_eq_getElem hi] at hat
  exact Option.some.inj hat

/-- The entry that is found for a number stands at that number. -/
theorem gSyscalls_of_defined {num : ℕ} (h : SyscallDefined num) :
    isSyscallDefined gSyscalls num = some num ∧ ∃ e ∈ gSyscalls, gSyscalls[num]? = some e := by
  obtain ⟨i, hi⟩ := Option.isSome_iff_exists.mp h
  obtain ⟨hlt, hnum, -⟩ := List.findIdx?_eq_some_iff_getElem.mp hi
  have hin : i = num := by
    rw [← gSyscalls_getElem hlt]
    simpa using hnum
  subst hin
  exact ⟨hi, gSyscalls[i], List.getElem_mem hlt, List.getElem?_eq_getElem hlt⟩

/-- **A syscall the table knows is printed as one line.** -/
theorem dispSyscall_line {num : ℕ} (h : SyscallDefined num) (mem : Mem) (regs : UserRegs)
    (ret : Word) : ∃ t, dispSyscall gSyscalls mem regs num ret = some t ∧ LineText t := by
  obtain ⟨hpos, e, hmem, he⟩ := gSyscalls_of_defined h
  obtain ⟨h6, -, -, hname⟩ := gSyscalls_params e hmem
  simp only [dispSyscall, hpos, he, Option.bind_eq_bind, Option.bind_some]
  cases hf : isFunctionsAssociated e.name with
  | some fct => exact ⟨_, rfl, lineText_of_functions hf mem regs ret⟩
  | none => exact lineText_printGeneric he h6 hname mem regs ret

/-- **Any other number is printed as nothing.** -/
theorem dispSyscall_undefined {num : ℕ} (h : ¬ SyscallDefined num) (mem : Mem) (regs : UserRegs)
    (ret : Word) : dispSyscall gSyscalls mem regs num ret = some [] := by
  have hnone : isSyscallDefined gSyscalls num = none := by
    simpa [SyscallDefined] using h
  simp only [dispSyscall, hnone]

end Ftrace
