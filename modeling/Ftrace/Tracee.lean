/-
# The tracee: registers and memory

`user_regs_struct` with the getters of `get_regs0.c` … `get_regs3.c`, and the memory that
`PTRACE_PEEKTEXT` and `PTRACE_PEEKDATA` read.

A peek returns eight bytes, or fails when one of them is not mapped; the C wrapper turns a
failure into the value `-1`, which eight bytes FF also are.  An x86-64 address space has a gap
of addresses that no mapping can cover, and `Mem` carries one address of it: it is what makes
a search that walks down through memory come to an end.
-/
import Ftrace.Lib.Bytes

namespace Ftrace

open Bytes

/-- A 64-bit machine word, as `unsigned long`, `size_t` or `long`. -/
abbrev Word := BitVec 64

/-- `struct user_regs_struct`, the registers that are read. -/
structure UserRegs where
  rax : Word := 0
  rbx : Word := 0
  rcx : Word := 0
  rdx : Word := 0
  rsp : Word := 0
  rbp : Word := 0
  rsi : Word := 0
  rdi : Word := 0
  r8 : Word := 0
  r9 : Word := 0
  r10 : Word := 0
  r11 : Word := 0
  r12 : Word := 0
  r13 : Word := 0
  r14 : Word := 0
  r15 : Word := 0
  rip : Word := 0
  deriving DecidableEq, Repr

def getRax (regs : UserRegs) : Word := regs.rax
def getRbx (regs : UserRegs) : Word := regs.rbx
def getRcx (regs : UserRegs) : Word := regs.rcx
def getRdx (regs : UserRegs) : Word := regs.rdx
def getRsp (regs : UserRegs) : Word := regs.rsp
def getRbp (regs : UserRegs) : Word := regs.rbp
def getRsi (regs : UserRegs) : Word := regs.rsi
def getRdi (regs : UserRegs) : Word := regs.rdi
def getR8 (regs : UserRegs) : Word := regs.r8
def getR9 (regs : UserRegs) : Word := regs.r9
def getR10 (regs : UserRegs) : Word := regs.r10
def getR11 (regs : UserRegs) : Word := regs.r11
def getR12 (regs : UserRegs) : Word := regs.r12
def getR13 (regs : UserRegs) : Word := regs.r13
def getR14 (regs : UserRegs) : Word := regs.r14
def getR15 (regs : UserRegs) : Word := regs.r15
def getRip (regs : UserRegs) : Word := regs.rip

/-- The tracee's memory, `none` where nothing is mapped. -/
structure Mem where
  byte : Word → Option (BitVec 8)
  /-- The non-canonical gap. -/
  gap : byte 0x8000000000000000 = none

/-- Memory with nothing mapped. -/
def Mem.empty : Mem := ⟨fun _ => none, rfl⟩

/-- The `n` bytes from `a` on. -/
def Mem.bytesAt (m : Mem) (a : Word) (n : ℕ) : Option (List (BitVec 8)) :=
  (List.range n).mapM fun i => m.byte (a + BitVec.ofNat 64 i)

/-- The word at `a`, `none` when the kernel cannot read all of it. -/
def Mem.word (m : Mem) (a : Word) : Option Word :=
  (m.bytesAt a 8).map fun bs => BitVec.ofNat 64 (leNat bs)

/-- `ptrace (PTRACE_PEEKTEXT, g_pid, a, 0)`. -/
def Mem.peek (m : Mem) (a : Word) : Word := (m.word a).getD (-1)

/-- A word with an unmapped first byte cannot be read. -/
theorem Mem.word_eq_none {m : Mem} {a : Word} (h : m.byte a = none) : m.word a = none := by
  have hr : List.range 8 = 0 :: (List.range 7).map (· + 1) := rfl
  have ha : a + BitVec.ofNat 64 0 = a := BitVec.add_zero a
  simp [Mem.word, Mem.bytesAt, hr, List.mapM_cons, ha, h]

theorem Mem.peek_of_byte_none {m : Mem} {a : Word} (h : m.byte a = none) : m.peek a = -1 := by
  rw [Mem.peek, Mem.word_eq_none h]
  rfl

theorem Mem.peek_of_word {m : Mem} {a v : Word} (h : m.word a = some v) : m.peek a = v := by
  rw [Mem.peek, h]
  rfl

/-- A word that can be read has all of its bytes. -/
theorem Mem.byte_isSome {m : Mem} {a : Word} (h : (m.word a).isSome) {i : ℕ} (hi : i < 8) :
    (m.byte (a + BitVec.ofNat 64 i)).isSome := by
  have hall : ∀ (l : List ℕ) (bs : List (BitVec 8)),
      (l.mapM fun i => m.byte (a + BitVec.ofNat 64 i)) = some bs →
        ∀ i ∈ l, (m.byte (a + BitVec.ofNat 64 i)).isSome := by
    intro l
    induction l with
    | nil =>
      intro bs _ i hi
      exact absurd hi List.not_mem_nil
    | cons j l ih =>
      intro bs hbs i hi
      rw [List.mapM_cons] at hbs
      obtain ⟨b, hb, hrest⟩ := Option.bind_eq_some_iff.mp hbs
      obtain ⟨bs', hbs', -⟩ := Option.bind_eq_some_iff.mp hrest
      rcases List.mem_cons.mp hi with rfl | hi
      · exact Option.isSome_iff_exists.mpr ⟨b, hb⟩
      · exact ih bs' hbs' i hi
  rw [Mem.word, Option.isSome_map] at h
  obtain ⟨bs, hbs⟩ := Option.isSome_iff_exists.mp h
  exact hall (List.range 8) bs hbs i (List.mem_range.mpr hi)

/-- The word whose bytes are known. -/
theorem Mem.word_eq {m : Mem} {a : Word} {f : ℕ → BitVec 8}
    (h : ∀ i < 8, m.byte (a + BitVec.ofNat 64 i) = some (f i)) :
    m.word a = some (BitVec.ofNat 64 (leNat ((List.range 8).map f))) := by
  have hcongr : ∀ l : List ℕ, (∀ i ∈ l, i < 8) →
      (l.mapM fun i => m.byte (a + BitVec.ofNat 64 i)) = some (l.map f) := by
    intro l
    induction l with
    | nil => intro _; rfl
    | cons j l ih =>
      intro hl
      rw [List.mapM_cons, h j (hl j List.mem_cons_self),
        ih fun i hi => hl i (List.mem_cons_of_mem j hi)]
      rfl
  rw [Mem.word, Mem.bytesAt, hcongr _ fun i hi => List.mem_range.mp hi]
  rfl

/-- The bytes of a word that was read are those in memory. -/
theorem Mem.byte_of_word {m : Mem} {a w : Word} (h : m.word a = some w) {i : ℕ} (hi : i < 8) :
    m.byte (a + BitVec.ofNat 64 i) = some (byteOf w i) := by
  have hbytes : ∀ j < 8, m.byte (a + BitVec.ofNat 64 j)
      = some ((m.byte (a + BitVec.ofNat 64 j)).getD 0) := by
    intro j hj
    obtain ⟨c, hc⟩ := Option.isSome_iff_exists.mp (Mem.byte_isSome (by rw [h]; rfl) hj)
    rw [hc]
    rfl
  have hword := Mem.word_eq hbytes
  rw [h] at hword
  rw [Option.some.inj hword, byteOf_leNat _ hi, hbytes i hi]
  simp [hi]

/-- A memory of some bytes at an address, and nothing else. -/
def Mem.ofBytes (a : Word) (bs : List (BitVec 8)) : Mem where
  byte x := if x = 0x8000000000000000 then none else bs[(x - a).toNat]?
  gap := if_pos rfl

/-! ## Telling two addresses apart -/

/-- Some memory has a word at the address: its eight bytes avoid the gap. -/
def CanHold (a : Word) : Prop := ∃ mem : Mem, (mem.word a).isSome

/-- A memory of zero bytes, with a one at `a`. -/
def Mem.mark (a : Word) : Mem where
  byte x := if x = 0x8000000000000000 then none else some (if x = a then 1 else 0)
  gap := if_pos rfl

theorem CanHold.ne_gap {a : Word} (h : CanHold a) {i : ℕ} (hi : i < 8) :
    a + BitVec.ofNat 64 i ≠ 0x8000000000000000 := by
  obtain ⟨mem, hmem⟩ := h
  intro heq
  have hbyte := Mem.byte_isSome hmem hi
  rw [heq, mem.gap] at hbyte
  cases hbyte

theorem Mem.word_mark {a : Word} (h : CanHold a) : (Mem.mark a).word a = some 1 := by
  have hbytes : ∀ i < 8, (Mem.mark a).byte (a + BitVec.ofNat 64 i)
      = some (if i = 0 then 1 else 0) := by
    intro i hi
    have hgap := h.ne_gap hi
    have hself : a + BitVec.ofNat 64 i = a ↔ i = 0 := by
      constructor
      · intro heq
        have := congrArg BitVec.toNat heq
        rw [BitVec.toNat_add, BitVec.toNat_ofNat] at this
        omega
      · rintro rfl
        exact BitVec.add_zero a
    simp only [Mem.mark, if_neg hgap, hself]
  rw [Mem.word_eq hbytes]
  rfl

theorem Mem.peek_mark_ne {a b : Word} (h : b ≠ a) : (Mem.mark a).peek b ≠ 1 := by
  rw [Mem.peek]
  cases hw : (Mem.mark a).word b with
  | none => decide
  | some v =>
    -- the first byte of the word is zero
    have hbytes : ∀ i < 8, (Mem.mark a).byte (b + BitVec.ofNat 64 i)
        = some (((Mem.mark a).byte (b + BitVec.ofNat 64 i)).getD 0) := by
      intro i hi
      obtain ⟨c, hc⟩ := Option.isSome_iff_exists.mp (Mem.byte_isSome (by rw [hw]; rfl) hi)
      rw [hc]
      rfl
    have hzero : ((Mem.mark a).byte (b + BitVec.ofNat 64 0)).getD 0 = 0 := by
      have hb : b + BitVec.ofNat 64 0 = b := BitVec.add_zero b
      simp only [hb, Mem.mark, if_neg h]
      split <;> rfl
    have hrange : List.range 8 = 0 :: (List.range 7).map (· + 1) := rfl
    have hword := Mem.word_eq hbytes
    rw [hw, hrange, List.map_cons, hzero] at hword
    obtain rfl := Option.some.inj hword
    have h0 : (0 : BitVec 8).toNat = 0 := rfl
    have h1 : (1 : Word).toNat = 1 := rfl
    intro heq
    have := congrArg BitVec.toNat heq
    simp only [Option.getD_some, leNat, BitVec.toNat_ofNat, h0, h1] at this
    omega

/-- **Some memory tells two addresses apart**, if one of them can hold a word. -/
theorem exists_mem_ne {a b : Word} (ha : CanHold a) (hab : b ≠ a) :
    ∃ mem v, Mem.word mem a = some v ∧ Mem.peek mem b ≠ v :=
  ⟨Mem.mark a, 1, Mem.word_mark ha, Mem.peek_mark_ne hab⟩

end Ftrace
