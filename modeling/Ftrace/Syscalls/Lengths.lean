/-
# How long the line of a syscall is

A line is printed into an array, and read back out of it.  None of the printers of a syscall can
fill the array: numbers have at most twenty digits, a string is shown up to forty bytes, a buffer up
to thirty-two, a field of flags names each flag once, and the table has its names and at most six
parameters (`length_dispSyscall_le`).
-/
import Ftrace.Lib.Numerals
import Ftrace.Syscalls.Flags
import Ftrace.Syscalls.Lines

namespace Ftrace

open CText Bytes Flags

/-! ## 1. Values -/

/-- Two texts, one after the other. -/
theorem length_append_le {s t : Text} {a b : ℕ} (hs : s.length ≤ a) (ht : t.length ≤ b) :
    (s ++ t).length ≤ a + b := by
  rw [List.length_append]
  omega

/-- A field, and what stands behind it. -/
theorem length_field_le {s t : Text} {a b : ℕ} (hs : s.length ≤ a) (ht : t.length ≤ b) (sep : Text) :
    (s ++ t ++ sep).length ≤ a + b + sep.length :=
  length_append_le (length_append_le hs ht) (Nat.le_refl _)

theorem length_printInt_le (v : Word) : (printInt v).length ≤ 11 := by
  have hlow := (toInt32 v).le_toInt
  have hhigh := (toInt32 v).toInt_lt
  exact length_decInt_le (by decide) (by omega)

theorem length_printSizeT_le (v : Word) : (printSizeT v).length ≤ 20 :=
  length_decNat_le (by decide) (by have := v.isLt; omega)

theorem length_printSsizeT_le (v : Word) : (printSsizeT v).length ≤ 20 := by
  have hlow := v.le_toInt
  have hhigh := v.toInt_lt
  exact length_decInt_le (by decide) (by omega)

theorem length_hexLow_word_le (v : Word) : (hexLow v.toNat).length ≤ 16 :=
  length_hexLow_le (by decide) v.isLt

theorem length_printVoidPtr_le (v : Word) : (printVoidPtr v).length ≤ 18 := by
  have hdigits := length_hexLow_word_le v
  unfold printVoidPtr
  split
  · exact length_append_le (Nat.le_refl _) hdigits
  · decide

theorem length_printOffT_le (v : Word) : (printOffT v).length ≤ 18 := length_printVoidPtr_le v

theorem length_printSspace_le (nb : ℕ) : (printSspace nb).length ≤ 40 := by
  rw [printSspace, List.length_replicate]
  omega

/-! ## 2. Strings and buffers -/

theorem length_printWordPtr_le (text : Word) : (printWordPtr text).length ≤ 2 := by
  refine (List.takeWhile_sublist _).length_le.trans ?_
  split <;> simp

/-- Two bytes in each round. -/
theorem length_charPtrLoop_le (mem : Mem) (n : ℕ) (s : Word) :
    (charPtrLoop mem n s).1.length ≤ 2 * n := by
  induction n generalizing s with
  | zero => exact Nat.le_refl _
  | succ n ih =>
    simp only [charPtrLoop]
    split
    · exact Nat.zero_le _
    · have hword := length_printWordPtr_le (mem.peek s)
      have hrest := ih (s + 2)
      rw [List.length_append]
      omega

theorem length_printCharPtr_le (mem : Mem) (v : Word) : (printCharPtr mem v).length ≤ 45 := by
  have hloop := length_charPtrLoop_le mem 20 v
  simp only [printCharPtr]
  split
  · exact Nat.zero_le _
  · refine length_append_le (length_append_le (Nat.le_refl _) hloop) (b := 4) ?_
    split <;> decide

theorem length_printByte_le (b : BitVec 8) : (printByte b).length ≤ 12 := by
  have hdigits : (octal (b.signExtend 32).toNat).length ≤ 11 :=
    length_octal_le (by decide) (by have := (b.signExtend 32).isLt; omega)
  unfold printByte
  split
  · simp
  · rw [List.length_cons]
    omega

theorem length_bufLoop_le (mem : Mem) (n : ℕ) (ptr : Word) :
    (bufLoop mem n ptr).length ≤ 24 * n := by
  induction n generalizing ptr with
  | zero => exact Nat.le_refl _
  | succ n ih =>
    have h0 := length_printByte_le (byteOf (mem.peek ptr) 0)
    have h1 := length_printByte_le (byteOf (mem.peek ptr) 1)
    have hrest := ih (ptr + 2)
    simp only [bufLoop, printWordBuf, List.length_append]
    split
    · rw [List.length_append]
      omega
    · rw [List.length_nil]
      omega

theorem length_printBuf_le (mem : Mem) (ptr len : Word) : (printBuf mem ptr len).length ≤ 389 := by
  have hloop := length_bufLoop_le mem (min 16 len.toNat) ptr
  have hrounds : min 16 len.toNat ≤ 16 := Nat.min_le_left ..
  have hbytes : (bufLoop mem (min 16 len.toNat) ptr).length ≤ 384 := by omega
  have hquoted : ("\"".toList ++ bufLoop mem (min 16 len.toNat) ptr ++ "\"".toList).length ≤ 386 :=
    length_append_le (length_append_le (Nat.le_refl _) hbytes) (Nat.le_refl _)
  refine length_append_le hquoted (b := 3) ?_
  split <;> decide

/-! ## 3. Flags -/

/-- A flag is its name at most. -/
theorem length_printFlag_le (flags mask : BitVec 32) (name : Text) :
    (printFlag flags mask name).length ≤ name.length := by
  unfold printFlag
  split
  · exact Nat.le_refl _
  · exact Nat.zero_le _

theorem length_protText_le (prot : BitVec 32) : (protText prot).length ≤ 30 := by
  unfold protText
  split
  · decide
  · exact length_append_le (length_append_le (length_printFlag_le ..) (length_printFlag_le ..))
      (length_printFlag_le ..)

theorem length_printAccessMode_le (mode : BitVec 32) : (printAccessMode mode).length ≤ 12 := by
  unfold printAccessMode
  split
  · decide
  · exact length_append_le (length_append_le (length_printFlag_le ..) (length_printFlag_le ..))
      (length_printFlag_le ..)

theorem length_printOpenFlags_le (flags : BitVec 32) : (printOpenFlags flags).length ≤ 116 := by
  have hnames : (joined [] openFlagNames).length = 108 := by decide +kernel
  rw [printOpenFlags_eq]
  refine (length_joined_le List.filter_sublist (n := 8) (by decide)).trans ?_
  rw [hnames]

theorem length_printMapFlags_le (flags : BitVec 32) : (printMapFlags flags).length ≤ 146 := by
  have hsharing : (if flags &&& MAP_PRIVATE ≠ 0 then "MAP_PRIVATE".toList
      else "MAP_SHARED".toList).length ≤ 11 := by
    split <;> decide
  have hnames : (joined [] mapFlagNames).length = 135 := by decide +kernel
  rw [printMapFlags_eq]
  refine (length_joined_le List.filter_sublist hsharing).trans ?_
  rw [hnames]

/-- A mode is a number of three digits or less: it depends on nine bits. -/
theorem length_printOpenMode_le (mode : BitVec 32) : (printOpenMode mode).length ≤ 4 := by
  have hall : ∀ i < 512, (printOpenMode (BitVec.ofNat 32 i)).length ≤ 4 := by decide +kernel
  have hlt : (mode &&& 0o777).toNat < 512 := by
    rw [BitVec.toNat_and]
    exact Nat.lt_succ_of_le Nat.and_le_right
  have hmode := hall _ hlt
  rwa [BitVec.ofNat_toNat, BitVec.setWidth_eq, printOpenMode_and] at hmode

/-! ## 4. The printers -/

/-- A call, padded, with its returned value: room for all of it in half a kilobyte. -/
theorem length_padded_le {line ret : Text} (hline : line.length ≤ 440) (hret : ret.length ≤ 20) :
    (line ++ printSspace line.length ++ "= ".toList ++ ret ++ "\n".toList).length ≤ 503 :=
  length_append_le (length_append_le (length_append_le (length_append_le hline
    (length_printSspace_le _)) (Nat.le_refl _)) hret) (Nat.le_refl _)

theorem length_printAccess_le (mem : Mem) (regs : UserRegs) (ret : Word) :
    (printAccess mem regs ret).length ≤ 503 := by
  have hname := length_printCharPtr_le mem (getParam regs 0)
  have hmode := length_printAccessMode_le (toInt32 (getParam regs 1))
  refine length_padded_le ?_ ((length_printInt_le ret).trans (by decide))
  simp only [String.reduceToList, List.length_append, List.length_cons, List.length_nil]
  omega

theorem length_printMprotect_le (mem : Mem) (regs : UserRegs) (ret : Word) :
    (printMprotect mem regs ret).length ≤ 503 := by
  have haddr := length_printVoidPtr_le (getParam regs 0)
  have hsize := length_printSizeT_le (getParam regs 1)
  have hprot : (printProt (toInt32 (getParam regs 2))).length ≤ 30 := length_protText_le _
  refine length_padded_le ?_ ((length_printInt_le ret).trans (by decide))
  simp only [String.reduceToList, List.length_append, List.length_cons, List.length_nil]
  omega

theorem length_printOpen_le (mem : Mem) (regs : UserRegs) (ret : Word) :
    (printOpen mem regs ret).length ≤ 503 := by
  have hname := length_printCharPtr_le mem (getParam regs 0)
  have hflags := length_printOpenFlags_le (toInt32 (getParam regs 1))
  have hmode : (if getParam regs 1 &&& O_CREAT.setWidth 64 ≠ 0 then
      ", ".toList ++ printOpenMode (toInt32 (getParam regs 3)) else []).length ≤ 6 := by
    split
    · exact length_append_le (Nat.le_refl _) (length_printOpenMode_le _)
    · decide
  refine length_padded_le ?_ ((length_printInt_le ret).trans (by decide))
  simp only [String.reduceToList, List.length_append, List.length_cons, List.length_nil] at hmode ⊢
  omega

theorem length_printRead_le (mem : Mem) (regs : UserRegs) (ret : Word) :
    (printRead mem regs ret).length ≤ 503 := by
  have hfd := length_printInt_le (getParam regs 0)
  have hbuf := length_printBuf_le mem (getParam regs 1) (getParam regs 2)
  have hlen := length_printSizeT_le (getParam regs 2)
  refine length_padded_le ?_ (length_printSsizeT_le ret)
  simp only [String.reduceToList, List.length_append, List.length_cons, List.length_nil]
  omega

section Mmap

variable (mem : Mem) (regs : UserRegs) (ret : Word)

/-- The fields of `mmap`, behind what stands in front of them. -/
theorem length_mmapFields_le {front addr : Text} (hfront : front.length ≤ 6)
    (haddr : addr.length ≤ 18) (off : Word) :
    (front ++ addr ++ ", ".toList ++ printSizeT (getParam regs 1) ++ ", ".toList ++
      printProto (toInt32 (getParam regs 2)) ++ ", ".toList ++
      printMapFlags (toInt32 (getParam regs 3)) ++ ", ".toList ++ printInt (getParam regs 4) ++
      ", ".toList ++ printOffT off ++ ") = ".toList ++ printVoidPtr ret ++ "\n".toList).length
      ≤ 503 := by
  have hmapped := length_field_le (length_field_le hfront haddr ", ".toList)
    (length_printSizeT_le (getParam regs 1)) ", ".toList
  have hflags := length_field_le (length_field_le hmapped
    (length_protText_le (toInt32 (getParam regs 2))) ", ".toList)
    (length_printMapFlags_le (toInt32 (getParam regs 3))) ", ".toList
  have hfile := length_field_le (length_field_le hflags (length_printInt_le (getParam regs 4))
    ", ".toList) (length_printOffT_le off) ") = ".toList
  exact (length_field_le hfile (length_printVoidPtr_le ret) "\n".toList).trans (by decide)

theorem length_printMmap_le : (printMmap mem regs ret).length ≤ 503 :=
  length_mmapFields_le regs ret (by decide) (length_printVoidPtr_le _) _

theorem length_printMmap2_le : (printMmap2 mem regs ret).length ≤ 503 := by
  refine length_mmapFields_le regs ret (by decide) ?_ _
  split
  · decide
  · exact length_printVoidPtr_le _

end Mmap

/-- Whatever dedicated printer a name has, its line is short. -/
theorem length_of_functions {name : Text} {fct : Mem → UserRegs → Word → Text}
    (h : isFunctionsAssociated name = some fct) (mem : Mem) (regs : UserRegs) (ret : Word) :
    (fct mem regs ret).length ≤ 503 := by
  obtain ⟨p, hp, rfl⟩ := Option.map_eq_some_iff.mp h
  have hmem := List.mem_of_find?_eq_some hp
  simp only [gPrintFunc, List.mem_cons, List.not_mem_nil, or_false] at hmem
  rcases hmem with rfl | rfl | rfl | rfl | rfl | rfl
  · exact length_printMmap_le mem regs ret
  · exact length_printMmap2_le mem regs ret
  · exact length_printAccess_le mem regs ret
  · exact length_printOpen_le mem regs ret
  · exact length_printRead_le mem regs ret
  · exact length_printMprotect_le mem regs ret

/-! ## 5. The generic printer -/

theorem length_of_functionsPrint {mem : Mem} {p : ℤ × (Word → Text)} (h : p ∈ gFunctionsPrint mem)
    (v : Word) : (p.2 v).length ≤ 45 := by
  simp only [gFunctionsPrint, List.mem_cons, List.not_mem_nil, or_false] at h
  rcases h with rfl | rfl | rfl | rfl | rfl | rfl | rfl | rfl | rfl | rfl | rfl
  · exact (length_printInt_le v).trans (by decide)
  · exact (length_printSizeT_le v).trans (by decide)
  · exact (length_printOffT_le v).trans (by decide)
  · exact (length_printVoidPtr_le v).trans (by decide)
  · exact (length_printVoidPtr_le v).trans (by decide)
  · exact (length_printVoidPtr_le v).trans (by decide)
  all_goals exact length_printCharPtr_le mem v

theorem length_printType_le {tab : List TSyscalls} {mem : Mem} {num k : ℕ} {v : Word} {t : Text}
    (h : printType tab mem num k v = some t) : t.length ≤ 47 := by
  obtain ⟨e, -, h⟩ := Option.bind_eq_some_iff.mp h
  obtain ⟨type, -, h⟩ := Option.bind_eq_some_iff.mp h
  obtain rfl := Option.some.inj h
  have hsep : (if 0 < k then ", ".toList else []).length ≤ 2 := by split <;> decide
  refine length_append_le hsep (b := 45) ?_
  split
  · rename_i p hp
    exact length_of_functionsPrint (List.mem_of_find?_eq_some hp) v
  · exact (length_append_le (Nat.le_refl _) (length_hexLow_word_le v)).trans (by decide)

theorem length_printParams_le {tab : List TSyscalls} {mem : Mem} {regs : UserRegs} {num k n : ℕ}
    {t : Text} (h : printParams tab mem regs num k n = some t) : t.length ≤ 47 * n := by
  induction n generalizing k t with
  | zero =>
    obtain rfl := Option.some.inj h
    exact Nat.le_refl _
  | succ n ih =>
    obtain ⟨p, hp, h⟩ := Option.bind_eq_some_iff.mp h
    obtain ⟨ps, hps, h⟩ := Option.bind_eq_some_iff.mp h
    obtain rfl := Option.some.inj h
    have hfirst := length_printType_le hp
    have hrest := ih hps
    rw [List.length_append]
    omega

/-- The names of the table are short. -/
theorem gSyscalls_length_name : ∀ e ∈ gSyscalls, e.name.length ≤ 32 := by decide +kernel

theorem length_printGeneric_le {tab : List TSyscalls} {mem : Mem} {regs : UserRegs} {ret : Word}
    {num : ℕ} {e : TSyscalls} (hname : e.name.length ≤ 32) {t : Text}
    (h : printGeneric tab mem regs ret num e = some t) : t.length ≤ 503 := by
  obtain ⟨params, hp, h⟩ := Option.bind_eq_some_iff.mp h
  obtain rfl := Option.some.inj h
  have hparams := length_printParams_le hp
  have hcount : min 6 e.nparams ≤ 6 := Nat.min_le_left ..
  have hspace := length_printSspace_le (e.name ++ "(".toList ++ params ++ ")".toList).length
  have hmark : (if ret ≠ 0 then "0x".toList else []).length ≤ 2 := by split <;> decide
  have hret := length_hexLow_word_le ret
  simp only [String.reduceToList, List.length_append, List.length_cons, List.length_nil]
    at hspace hmark ⊢
  omega

/-! ## 6. `disp_syscall` -/

/-- **The line of a syscall is short**, whatever its number, its registers, the memory of the tracee
and the value it returned. -/
theorem length_dispSyscall_le {mem : Mem} {regs : UserRegs} {num : ℕ} {ret : Word} {t : Text}
    (h : dispSyscall gSyscalls mem regs num ret = some t) : t.length ≤ 503 := by
  unfold dispSyscall at h
  split at h
  · obtain rfl := Option.some.inj h
    exact Nat.zero_le _
  · obtain ⟨e, he, h⟩ := Option.bind_eq_some_iff.mp h
    split at h
    · rename_i fct hfct
      obtain rfl := Option.some.inj h
      exact length_of_functions hfct mem regs ret
    · exact length_printGeneric_le (gSyscalls_length_name e (List.mem_of_getElem? he)) h

end Ftrace
