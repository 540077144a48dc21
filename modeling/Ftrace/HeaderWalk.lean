/-
# The walk down to a header

`find_header` looks for the ELF header of a library below a function of it: it reads a word,
compares its first bytes with the magic number, and goes on one byte below, until a read
fails.  The loop has no bound of its own; it ends because the word at the null address cannot
be read (`findHeaderRun_ends`).

A failed read is told by the value `-1`, which a word of eight bytes FF has too, so the walk
also ends at such a word (`findsHeader_iff`).
-/
import Ftrace.ResolveSymbols

namespace Ftrace

open Bytes

/-! ## 1. What is looked for -/

/-- The bytes `7F 45 4C 46` are at the address. -/
def MagicAt (mem : Mem) (a : Word) : Prop :=
  mem.byte a = some 0x7F ∧ mem.byte (a + 1) = some 0x45 ∧ mem.byte (a + 2) = some 0x4C ∧
    mem.byte (a + 3) = some 0x46

instance (mem : Mem) (a : Word) : Decidable (MagicAt mem a) :=
  inferInstanceAs (Decidable (_ ∧ _ ∧ _ ∧ _))

/-- A header that can be walked down to: it is not above the start, and every word from the
start down to it can be read. -/
def HeaderBelow (mem : Mem) (start a : Word) : Prop :=
  a ≤ start ∧ MagicAt mem a ∧ ∀ x, a ≤ x → x ≤ start → (mem.word x).isSome

/-- The result of a search from `start`: the greatest header below, or 0 if there is none. -/
def HeaderFor (mem : Mem) (start r : Word) : Prop :=
  IsGreatest {a | HeaderBelow mem start a} r ∨ (¬ ∃ a, HeaderBelow mem start a) ∧ r = 0

/-- The loop of `find_header` for at most `n` rounds: `none` when it has not returned by then. -/
def findHeaderRun (mem : Mem) : ℕ → Word → Option Word
  | 0, _ => none
  | n + 1, addr =>
    let read := mem.peek addr
    if read = -1 then some 0
    else if isMagic read then some addr
    else findHeaderRun mem n (addr - 1)

/-- `find_header` returns, and what it returns is the header for the start. -/
def FindsHeader (mem : Mem) (start : Word) : Prop :=
  ∃ n r, findHeaderRun mem n start = some r ∧ findHeader mem start = r ∧ HeaderFor mem start r

/-- A loop that returns is not cut off. -/
theorem findHeaderLoop_of_run {mem : Mem} {n m : ℕ} {addr r : Word} (hnm : n ≤ m)
    (h : findHeaderRun mem n addr = some r) : findHeaderLoop mem m addr = r := by
  induction n generalizing m addr with
  | zero => cases h
  | succ n ih =>
    obtain ⟨m, rfl⟩ := Nat.exists_eq_add_of_le' hnm
    unfold findHeaderRun at h
    rw [Nat.add_comm m (n + 1), Nat.add_right_comm]
    unfold findHeaderLoop
    simp only at h ⊢
    split
    · rename_i hread
      rw [if_pos hread] at h
      exact Option.some.inj h
    · rename_i hread
      rw [if_neg hread] at h
      split
      · rename_i hmagic
        rw [if_pos hmagic] at h
        exact Option.some.inj h
      · rename_i hmagic
        rw [if_neg hmagic] at h
        exact ih (Nat.le_add_right n m) h

/-- The comparison of a word that was read is one of the bytes in memory. -/
theorem isMagic_iff {mem : Mem} {a w : Word} (h : mem.word a = some w) :
    isMagic w = true ↔ MagicAt mem a := by
  have h0 := Mem.byte_of_word h (i := 0) (by decide)
  have h1 := Mem.byte_of_word h (i := 1) (by decide)
  have h2 := Mem.byte_of_word h (i := 2) (by decide)
  have h3 := Mem.byte_of_word h (i := 3) (by decide)
  rw [show a + BitVec.ofNat 64 0 = a from BitVec.add_zero a] at h0
  unfold MagicAt isMagic
  rw [h0, show a + 1 = a + BitVec.ofNat 64 1 from rfl, h1,
    show a + 2 = a + BitVec.ofNat 64 2 from rfl, h2,
    show a + 3 = a + BitVec.ofNat 64 3 from rfl, h3]
  simp only [Bool.and_eq_true, decide_eq_true_eq, Option.some.injEq, and_assoc]
  rfl

/-! ## 2. One round -/

/-- No word of eight bytes FF lies on the way down to some header, if there is one. -/
def ClearWay (mem : Mem) (start : Word) : Prop :=
  (∃ a, HeaderBelow mem start a) →
    ∃ a, HeaderBelow mem start a ∧ ∀ x, a < x → x ≤ start → mem.word x ≠ some (-1)

/-- Nothing is found below an address that cannot be read. -/
theorem not_headerBelow_of_word_eq_none {mem : Mem} {addr : Word} (h : mem.word addr = none) :
    ¬ ∃ a, HeaderBelow mem addr a := by
  rintro ⟨a, hle, -, hread⟩
  have := hread addr hle (BitVec.le_refl addr)
  rw [h] at this
  cases this

/-- Zero is no header, since it cannot be read. -/
theorem HeaderBelow.ne_zero {mem : Mem} {start a : Word} (h : HeaderBelow mem start a)
    (h0 : mem.word 0 = none) : a ≠ 0 := by
  rintro rfl
  have := h.2.2 0 (BitVec.le_refl 0) h.1
  rw [h0] at this
  cases this

/-- A header where the walk stands is the greatest. -/
theorem isGreatest_self {mem : Mem} {addr w : Word} (hw : mem.word addr = some w)
    (hmagic : MagicAt mem addr) : IsGreatest {a | HeaderBelow mem addr a} addr := by
  refine ⟨⟨BitVec.le_refl addr, hmagic, ?_⟩, fun a ha => ha.1⟩
  intro x hle hge
  rw [BitVec.le_antisymm hge hle, hw]
  rfl

theorem lt_iff_le_sub_one {a addr : Word} (h : addr ≠ 0) : a < addr ↔ a ≤ addr - 1 := by
  bv_omega

/-- Where no header stands the headers below are those of the address before. -/
theorem headerBelow_iff_sub_one {mem : Mem} {addr w : Word} (hne : addr ≠ 0)
    (hw : mem.word addr = some w) (hmagic : ¬ MagicAt mem addr) (a : Word) :
    HeaderBelow mem addr a ↔ HeaderBelow mem (addr - 1) a := by
  constructor
  · rintro ⟨hle, hm, hread⟩
    have hlt : a < addr := by
      refine BitVec.lt_of_le_ne hle ?_
      rintro rfl
      exact hmagic hm
    refine ⟨(lt_iff_le_sub_one hne).mp hlt, hm, ?_⟩
    intro x hax hx
    exact hread x hax (BitVec.le_of_lt ((lt_iff_le_sub_one hne).mpr hx))
  · rintro ⟨hle, hm, hread⟩
    refine ⟨BitVec.le_of_lt ((lt_iff_le_sub_one hne).mpr hle), hm, ?_⟩
    intro x hax hx
    by_cases heq : x = addr
    · rw [heq, hw]
      rfl
    · exact hread x hax ((lt_iff_le_sub_one hne).mp (BitVec.lt_of_le_ne hx heq))

/-- And a way that is clear from there is clear from here. -/
theorem clearWay_iff_sub_one {mem : Mem} {addr w : Word} (hne : addr ≠ 0)
    (hw : mem.word addr = some w) (hff : w ≠ -1) (hmagic : ¬ MagicAt mem addr) :
    ClearWay mem addr ↔ ClearWay mem (addr - 1) := by
  unfold ClearWay
  simp only [headerBelow_iff_sub_one hne hw hmagic]
  have hclear (a : Word) : (∀ x, a < x → x ≤ addr → mem.word x ≠ some (-1)) ↔
      ∀ x, a < x → x ≤ addr - 1 → mem.word x ≠ some (-1) := by
    constructor
    · intro h x hax hx
      exact h x hax (BitVec.le_of_lt ((lt_iff_le_sub_one hne).mpr hx))
    · intro h x hax hx
      by_cases heq : x = addr
      · rw [heq, hw]
        exact fun hc => hff (Option.some.inj hc)
      · exact h x hax ((lt_iff_le_sub_one hne).mp (BitVec.lt_of_le_ne hx heq))
  simp only [hclear]

/-! ## 3. The whole walk -/

/-- A walk that starts at a header is there. -/
theorem headerFor_self {mem : Mem} {addr w : Word} (hw : mem.word addr = some w)
    (hm : MagicAt mem addr) : HeaderFor mem addr addr ↔ ClearWay mem addr := by
  refine iff_of_true (.inl (isGreatest_self hw hm)) ?_
  intro _
  refine ⟨addr, (isGreatest_self hw hm).1, ?_⟩
  intro x hlt hle
  exact absurd hle (BitVec.not_le.mpr hlt)

/-- A walk that starts at a word of eight bytes FF gives up: right only if there is no
header. -/
theorem headerFor_zero_of_ff {mem : Mem} (h0 : mem.word 0 = none) {addr : Word}
    (hw : mem.word addr = some (-1)) : HeaderFor mem addr 0 ↔ ClearWay mem addr := by
  have hmagic : ¬ MagicAt mem addr := by
    rw [← isMagic_iff hw]
    decide
  constructor
  · rintro (hgreat | ⟨hnone, -⟩)
    · exact absurd rfl (hgreat.1.ne_zero h0)
    · exact fun h => absurd h hnone
  · intro hclear
    refine .inr ⟨?_, rfl⟩
    intro hsome
    obtain ⟨a, ha, hway⟩ := hclear hsome
    have hlt : a < addr := by
      refine BitVec.lt_of_le_ne ha.1 ?_
      rintro rfl
      exact hmagic ha.2.1
    exact hway addr hlt (BitVec.le_refl addr) hw

/-- **The walk ends** within as many rounds as the start is high, and its result is right
exactly if the way is clear. -/
theorem findHeaderRun_ends {mem : Mem} (h0 : mem.word 0 = none) {n : ℕ} {addr : Word}
    (hn : addr.toNat < n) :
    ∃ r, findHeaderRun mem n addr = some r ∧ (HeaderFor mem addr r ↔ ClearWay mem addr) := by
  induction n generalizing addr with
  | zero => exact absurd hn (Nat.not_lt_zero _)
  | succ n ih =>
    unfold findHeaderRun
    cases hw : mem.word addr with
    | none =>
      have hnone := not_headerBelow_of_word_eq_none hw
      have hpeek : mem.peek addr = -1 := by rw [Mem.peek, hw]; rfl
      refine ⟨0, if_pos hpeek, iff_of_true (.inr ⟨hnone, rfl⟩) fun h => absurd h hnone⟩
    | some w =>
      have hpeek := Mem.peek_of_word hw
      by_cases hff : w = -1
      · exact ⟨0, if_pos (hpeek.trans hff), headerFor_zero_of_ff h0 (hff ▸ hw)⟩
      · by_cases hmagic : isMagic w = true
        · refine ⟨addr, ?_, headerFor_self hw ((isMagic_iff hw).mp hmagic)⟩
          simp only [hpeek, if_neg hff, if_pos hmagic]
        · have hm : ¬ MagicAt mem addr := fun h => hmagic ((isMagic_iff hw).mpr h)
          have hne : addr ≠ 0 := by
            rintro rfl
            rw [h0] at hw
            cases hw
          have hlt : (addr - 1).toNat < n := by
            have h1 := (lt_iff_le_sub_one hne).mpr (BitVec.le_refl (addr - 1))
            rw [BitVec.lt_def] at h1
            omega
          obtain ⟨r, hrun, hiff⟩ := ih hlt
          refine ⟨r, ?_, ?_⟩
          · simp only [hpeek, if_neg hff, if_neg hmagic, hrun]
          · rw [clearWay_iff_sub_one hne hw hff hm, ← hiff]
            unfold HeaderFor
            simp only [headerBelow_iff_sub_one hne hw hm]

/-- **`find_header` finds the header** exactly if no word of eight bytes FF lies on the way
down to it. -/
theorem findsHeader_iff {mem : Mem} (h0 : mem.word 0 = none) (start : Word) :
    FindsHeader mem start ↔ ClearWay mem start := by
  obtain ⟨r, hrun, hiff⟩ := findHeaderRun_ends h0 (Nat.lt_succ_self start.toNat)
  have hle : start.toNat + 1 ≤ 2 ^ 64 := start.isLt
  have hloop : findHeader mem start = r := findHeaderLoop_of_run hle hrun
  constructor
  · rintro ⟨n, r', -, hfind, hfor⟩
    rw [hloop] at hfind
    exact hiff.mp (hfind ▸ hfor)
  · intro hclear
    exact ⟨_, r, hrun, hloop, hiff.mpr hclear⟩

/-- A header of four bytes, and a word of eight bytes FF above it. -/
def headerBelowOnes : Mem where
  byte a :=
    if a = 0x1000 then some 0x7F
    else if a = 0x1001 then some 0x45
    else if a = 0x1002 then some 0x4C
    else if a = 0x1003 then some 0x46
    else if 0x1004 ≤ a ∧ a < 0x100C then some 0xFF
    else none
  gap := by decide

theorem findsHeader_iff_header : FindsHeader headerBelowOnes 0x1000 := by
  refine (findsHeader_iff (by decide) 0x1000).mpr fun _ => ⟨0x1000, ?_, ?_⟩
  · exact (isGreatest_self (w := 0xFFFFFFFF464C457F) (by decide) (by decide)).1
  · intro x hlt hle
    exact absurd hle (BitVec.not_le.mpr hlt)

/-- **Eight bytes FF end the walk early**, with a header four bytes below. -/
theorem findsHeader_fails : headerBelowOnes.word 0 = none ∧ ¬ FindsHeader headerBelowOnes 0x1004 := by
  refine ⟨by decide, ?_⟩
  rintro ⟨n, r, hrun, -, hfor⟩
  have hbelow : HeaderBelow headerBelowOnes 0x1004 0x1000 := by
    refine ⟨by decide, by decide, ?_⟩
    intro x hge hle
    have hx : x = 0x1000 ∨ x = 0x1001 ∨ x = 0x1002 ∨ x = 0x1003 ∨ x = 0x1004 := by
      bv_omega
    rcases hx with rfl | rfl | rfl | rfl | rfl <;> decide
  have hzero : r = 0 := by
    cases n with
    | zero => cases hrun
    | succ n =>
      have hpeek : headerBelowOnes.peek 0x1004 = -1 := by decide
      unfold findHeaderRun at hrun
      simp only [hpeek, if_true] at hrun
      exact (Option.some.inj hrun).symm
  rcases hfor with hgreat | ⟨hnone, -⟩
  · exact hgreat.1.ne_zero (by decide) hzero
  · exact hnone ⟨_, hbelow⟩

end Ftrace
