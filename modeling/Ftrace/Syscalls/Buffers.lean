/-
# Strings and buffers of the tracee

`print_char_ptr` and `print_buf` show memory of the tracee two bytes at a time, each pair out
of an eight-byte peek.

A string is looked at for its end only at the first byte of a pair, and the dots behind it are
decided by the number of pairs that were looked at (`printsString_iff`).  A buffer is shown
pair by pair for as many rounds as it has BYTES, up to sixteen; a pair is left out if the
whole word it starts is negative as a number, so if its last byte is, and a byte is formatted
as a signed `char` (`showsBuffer_iff`).
-/
import Ftrace.Syscalls.Printers

namespace Ftrace

open CText Bytes

/-! ## 1. A string in memory -/

/-- The bytes of a string, its end behind them, and every word that starts in it can be
read. -/
structure StringAt (mem : Mem) (s : Word) (bs : List (BitVec 8)) : Prop where
  byte : ∀ i ≤ bs.length, mem.byte (s + BitVec.ofNat 64 i) = (bs ++ [0])[i]?
  nonzero : 0 ∉ bs
  read : ∀ i ≤ bs.length, (mem.word (s + BitVec.ofNat 64 i)).isSome

/-- What `print_char_ptr` has to print: the string up to 40 bytes, and dots behind a longer
one. -/
def PrintsString (mem : Mem) (s : Word) (bs : List (BitVec 8)) : Prop :=
  printCharPtr mem s = "\"".toList ++ (bs.take 40).map byteChar ++ "\"".toList ++
    (if 40 < bs.length then "...".toList else [])

instance (mem : Mem) (s : Word) (bs : List (BitVec 8)) : Decidable (PrintsString mem s bs) :=
  inferInstanceAs (Decidable (_ = _))

theorem byteChar_ne_nul {b : BitVec 8} (h : b ≠ 0) : byteChar b ≠ nul := by
  have hall : ∀ b : BitVec 8, b ≠ 0 → byteChar b ≠ nul := by decide +kernel
  exact hall b h

/-- The text of a word that starts with a byte of a string. -/
theorem printWordPtr_eq {text : Word} (h : byteOf text 0 ≠ 0) :
    printWordPtr text = byteChar (byteOf text 0) ::
      if byteOf text 1 ≠ 0 then [byteChar (byteOf text 1)] else [] := by
  unfold printWordPtr
  refine cstr_eq_self ?_
  rw [List.mem_cons, not_or]
  refine ⟨(byteChar_ne_nul h).symm, ?_⟩
  split
  · rename_i h1
    rw [List.mem_singleton]
    exact (byteChar_ne_nul h1).symm
  · exact List.not_mem_nil

variable {mem : Mem} {s : Word} {bs : List (BitVec 8)}

/-- What a peek at a string sees of it. -/
theorem StringAt.byteOf_peek (h : StringAt mem s bs) {i : ℕ} (hi : i ≤ bs.length) (hi8 : i < 8) :
    some (byteOf (mem.peek s) i) = (bs ++ [0])[i]? := by
  have hread := h.read 0 (Nat.zero_le _)
  rw [show s + BitVec.ofNat 64 0 = s from BitVec.add_zero s] at hread
  obtain ⟨w, hw⟩ := Option.isSome_iff_exists.mp hread
  rw [Mem.peek_of_word hw, ← h.byte i hi, Mem.byte_of_word hw hi8]

theorem StringAt.tail (h : StringAt mem s bs) {n : ℕ} (hn : n ≤ bs.length) :
    StringAt mem (s + BitVec.ofNat 64 n) (bs.drop n) := by
  have haddr (i : ℕ) : s + BitVec.ofNat 64 n + BitVec.ofNat 64 i = s + BitVec.ofNat 64 (n + i) := by
    rw [BitVec.add_assoc, ← BitVec.ofNat_add]
  have hlen := List.length_drop (i := n) (l := bs)
  refine ⟨?_, fun hm => h.nonzero (List.mem_of_mem_drop hm), ?_⟩
  · intro i hi
    rw [haddr, h.byte (n + i) (by omega), ← List.drop_append_of_le_length hn, List.getElem?_drop]
  · intro i hi
    rw [haddr]
    exact h.read (n + i) (by omega)

/-- **One round, in the string**: two bytes of it are printed. -/
theorem charPtrLoop_pair {a b : BitVec 8} (h : StringAt mem s (a :: b :: bs)) (n : ℕ) :
    charPtrLoop mem (n + 1) s = (byteChar a :: byteChar b :: (charPtrLoop mem n (s + 2)).1,
      (charPtrLoop mem n (s + 2)).2) := by
  have h0 : byteOf (mem.peek s) 0 = a := Option.some.inj (h.byteOf_peek (Nat.zero_le _) (by decide))
  have h1 : byteOf (mem.peek s) 1 = b :=
    Option.some.inj (h.byteOf_peek (by simp only [List.length_cons]; omega) (by decide))
  have ha : a ≠ 0 := fun hc => h.nonzero (hc ▸ List.mem_cons_self)
  have hb : b ≠ 0 := fun hc => h.nonzero (hc ▸ List.mem_cons_of_mem a List.mem_cons_self)
  have hword : printWordPtr (mem.peek s) = [byteChar a, byteChar b] := by
    rw [printWordPtr_eq (h0 ▸ ha), h0, h1, if_pos hb]
  simp only [charPtrLoop, h0, if_neg ha, hword, List.cons_append, List.nil_append]

/-- **One round, at the end of the string**: nothing is printed, and it is the last one. -/
theorem charPtrLoop_end (h : StringAt mem s []) (n : ℕ) :
    charPtrLoop mem (n + 1) s = ([], decide (n = 0)) := by
  have h0 : byteOf (mem.peek s) 0 = 0 :=
    Option.some.inj (h.byteOf_peek (Nat.le_refl _) (by decide))
  simp only [charPtrLoop, h0, if_true]

/-- **One round, at the last byte of the string**: it is printed, and the next round looks
behind the end. -/
theorem charPtrLoop_last {a : BitVec 8} (h : StringAt mem s [a]) (n : ℕ) :
    charPtrLoop mem (n + 1) s = (byteChar a :: (charPtrLoop mem n (s + 2)).1,
      (charPtrLoop mem n (s + 2)).2) := by
  have h0 : byteOf (mem.peek s) 0 = a := Option.some.inj (h.byteOf_peek (Nat.zero_le _) (by decide))
  have h1 : byteOf (mem.peek s) 1 = 0 := Option.some.inj (h.byteOf_peek (Nat.le_refl _) (by decide))
  have ha : a ≠ 0 := fun hc => h.nonzero (hc ▸ List.mem_cons_self)
  have hword : printWordPtr (mem.peek s) = [byteChar a] := by
    rw [printWordPtr_eq (h0 ▸ ha), h0, h1, if_neg (not_not.mpr rfl)]
  simp only [charPtrLoop, h0, if_neg ha, hword, List.cons_append, List.nil_append]

/-- A string that is longer than the rounds reach. -/
theorem charPtrLoop_take (h : StringAt mem s bs) {n : ℕ} (hn : 2 * n ≤ bs.length) :
    charPtrLoop mem n s = ((bs.take (2 * n)).map byteChar, true) := by
  induction n generalizing s bs with
  | zero => rfl
  | succ n ih =>
    cases bs with
    | nil => simp at hn
    | cons a bs =>
      cases bs with
      | nil => simp only [List.length_cons, List.length_nil] at hn; omega
      | cons b bs =>
        have hrest : StringAt mem (s + 2) bs := h.tail (n := 2) (by simp)
        have hlen : 2 * n ≤ bs.length := by simp only [List.length_cons] at hn; omega
        rw [charPtrLoop_pair h, ih hrest hlen, Nat.mul_succ]
        rfl

/-- A string of even length that ends within the rounds. -/
theorem charPtrLoop_even (h : StringAt mem s bs) {n k : ℕ} (hk : bs.length = 2 * k) (hn : k < n) :
    charPtrLoop mem n s = (bs.map byteChar, decide (n = k + 1)) := by
  induction k generalizing s bs n with
  | zero =>
    obtain rfl := List.eq_nil_of_length_eq_zero hk
    obtain ⟨n, rfl⟩ := Nat.exists_eq_succ_of_ne_zero (Nat.ne_zero_of_lt hn)
    rw [charPtrLoop_end h]
    simp
  | succ k ih =>
    obtain ⟨n, rfl⟩ := Nat.exists_eq_succ_of_ne_zero (Nat.ne_zero_of_lt hn)
    obtain ⟨a, b, bs, rfl⟩ : ∃ a b bs', bs = a :: b :: bs' := by
      match bs, hk with
      | a :: b :: bs', _ => exact ⟨a, b, bs', rfl⟩
    have hrest : StringAt mem (s + 2) bs := h.tail (n := 2) (by simp)
    have hlen : bs.length = 2 * k := by simp only [List.length_cons] at hk; omega
    rw [charPtrLoop_pair h, ih hrest hlen (by omega)]
    simp

/-- A string of odd length that ends within the rounds: the rounds that are left go on behind
its end. -/
theorem charPtrLoop_odd (h : StringAt mem s bs) {n k : ℕ} (hk : bs.length = 2 * k + 1)
    (hn : k < n) :
    charPtrLoop mem n s = (bs.map byteChar ++
        (charPtrLoop mem (n - (k + 1)) (s + BitVec.ofNat 64 (bs.length + 1))).1,
      (charPtrLoop mem (n - (k + 1)) (s + BitVec.ofNat 64 (bs.length + 1))).2) := by
  induction k generalizing s bs n with
  | zero =>
    obtain ⟨a, rfl⟩ := List.length_eq_one_iff.mp hk
    obtain ⟨n, rfl⟩ := Nat.exists_eq_succ_of_ne_zero (Nat.ne_zero_of_lt hn)
    rw [charPtrLoop_last h]
    rfl
  | succ k ih =>
    obtain ⟨n, rfl⟩ := Nat.exists_eq_succ_of_ne_zero (Nat.ne_zero_of_lt hn)
    obtain ⟨a, b, bs, rfl⟩ : ∃ a b bs', bs = a :: b :: bs' := by
      match bs, hk with
      | a :: b :: bs', _ => exact ⟨a, b, bs', rfl⟩
    have hrest : StringAt mem (s + 2) bs := h.tail (n := 2) (by simp)
    have hlen : bs.length = 2 * k + 1 := by simp only [List.length_cons] at hk; omega
    have haddr : s + 2 + BitVec.ofNat 64 (bs.length + 1)
        = s + BitVec.ofNat 64 ((a :: b :: bs).length + 1) := by
      rw [show s + 2 = s + BitVec.ofNat 64 2 from rfl, BitVec.add_assoc, ← BitVec.ofNat_add]
      congr 2
      simp only [List.length_cons]
      omega
    rw [charPtrLoop_pair h, ih hrest hlen (by omega), haddr, Nat.succ_eq_add_one,
      Nat.add_sub_add_right]
    rfl

/-- What is printed once the loop is known. -/
theorem printsString_iff_loop {t : Text} {all : Bool} (hs : s ≠ 0)
    (hloop : charPtrLoop mem 20 s = (t, all)) :
    PrintsString mem s bs ↔ t ++ (if all then "\"...".toList else "\"".toList)
      = (bs.take 40).map byteChar ++ "\"".toList ++ (if 40 < bs.length then "...".toList else []) := by
  rw [PrintsString, printCharPtr, if_neg hs]
  simp only [hloop, List.append_assoc]
  exact List.append_right_inj _

/-- A string that uses all rounds gets dots behind it. -/
theorem printsString_of_long (hs : s ≠ 0) (h : StringAt mem s bs) (hlong : 40 ≤ bs.length) :
    PrintsString mem s bs ↔ 40 < bs.length := by
  rw [printsString_iff_loop hs (charPtrLoop_take h (n := 20) hlong)]
  by_cases h40 : 40 < bs.length
  · rw [if_pos h40]
    refine iff_of_true ?_ h40
    rw [List.append_assoc]
    rfl
  · rw [if_neg h40]
    refine iff_of_false ?_ h40
    intro heq
    have hlen := congrArg List.length heq
    simp at hlen

/-- A shorter one of even length is printed, and gets dots if its end was seen in the last
round. -/
theorem printsString_of_even (hs : s ≠ 0) (h : StringAt mem s bs) (hlong : bs.length < 40) {k : ℕ}
    (hk : bs.length = 2 * k) : PrintsString mem s bs ↔ bs.length ≤ 36 := by
  have htake : bs.take 40 = bs := List.take_of_length_le (by omega)
  have hnot : ¬ 40 < bs.length := by omega
  rw [printsString_iff_loop hs (charPtrLoop_even h (n := 20) hk (by omega)), htake,
    if_neg hnot, List.append_nil, List.append_right_inj]
  by_cases hend : 20 = k + 1
  · rw [if_pos (decide_eq_true hend)]
    exact iff_of_false (by decide) (by omega)
  · rw [if_neg (by simpa using hend)]
    exact iff_of_true rfl (by omega)

/-- Of a string of odd length the end is not seen, and the next pair is looked at. -/
theorem printsString_of_odd (hs : s ≠ 0) (h : StringAt mem s bs) (hlong : bs.length < 40) {k : ℕ}
    (hk : bs.length = 2 * k + 1) : PrintsString mem s bs ↔ bs.length ≤ 36 ∧
      byteOf (mem.peek (s + BitVec.ofNat 64 (bs.length + 1))) 0 = 0 := by
  have htake : bs.take 40 = bs := List.take_of_length_le (by omega)
  have hnot : ¬ 40 < bs.length := by omega
  rw [printsString_iff_loop hs (charPtrLoop_odd h (n := 20) hk (by omega)), htake,
    if_neg hnot, List.append_nil, List.append_assoc, List.append_right_inj]
  cases hm : 20 - (k + 1) with
  | zero =>
    -- no round is left to see the end
    refine iff_of_false ?_ (by omega)
    simp only [charPtrLoop]
    decide
  | succ m =>
    by_cases h0 : byteOf (mem.peek (s + BitVec.ofNat 64 (bs.length + 1))) 0 = 0
    · simp only [charPtrLoop, h0, if_true, and_true, List.nil_append]
      by_cases hm0 : m = 0
      · rw [if_pos (decide_eq_true hm0)]
        exact iff_of_false (by decide) (by omega)
      · rw [if_neg (by simpa using hm0)]
        exact iff_of_true rfl (by omega)
    · -- a byte from behind the end is printed
      refine iff_of_false ?_ fun hc => h0 hc.2
      intro heq
      have hlen := congrArg List.length heq
      have hquote (all : Bool) : 0 < (if all then "\"...".toList else "\"".toList).length := by
        cases all <;> decide
      have hone : "\"".toList.length = 1 := by decide
      simp only [charPtrLoop, if_neg h0, printWordPtr_eq h0, List.length_append,
        List.length_cons, hone] at hlen
      have hpos := hquote
        (charPtrLoop mem m (s + BitVec.ofNat 64 (bs.length + 1) + 2)).2
      omega

/-- **`print_char_ptr` prints the string** exactly if it is longer than 40 bytes, or has at most
36, and if their number is odd, the byte behind its end is read as another end. -/
theorem printsString_iff (hs : s ≠ 0) (h : StringAt mem s bs) :
    PrintsString mem s bs ↔ 40 < bs.length ∨ bs.length ≤ 36 ∧ (Even bs.length ∨
      byteOf (mem.peek (s + BitVec.ofNat 64 (bs.length + 1))) 0 = 0) := by
  by_cases hlong : 40 ≤ bs.length
  · rw [printsString_of_long hs h hlong]
    omega
  · have hshort : bs.length < 40 := by omega
    rw [or_iff_right (by omega : ¬ 40 < bs.length)]
    rcases Nat.even_or_odd' bs.length with ⟨k, hk | hk⟩
    · have heven : Even bs.length := ⟨k, by omega⟩
      rw [printsString_of_even hs h hshort hk]
      exact ⟨fun h36 => ⟨h36, .inl heven⟩, And.left⟩
    · have hodd : ¬ Even bs.length := Nat.not_even_iff_odd.mpr ⟨k, hk⟩
      rw [printsString_of_odd hs h hshort hk, or_iff_right hodd]

theorem printsString_iff_two :
    PrintsString (.ofBytes 0x1000 (0x61 :: 0x62 :: List.replicate 9 0)) 0x1000 [0x61, 0x62] :=
  (printsString_iff (by decide) ⟨by decide, by decide, by decide⟩).mpr
    (.inr ⟨by decide, .inl (by decide)⟩)

/-- The string `a`, with a `b` behind its end. -/
def stringBefore : Mem := .ofBytes 0x1000 (0x61 :: 0 :: 0x62 :: List.replicate 9 0)

/-- **A byte from behind the end of the string is printed.** -/
theorem printsString_fails :
    StringAt stringBefore 0x1000 [0x61] ∧ printCharPtr stringBefore 0x1000 = "\"ab\"".toList ∧
      ¬ PrintsString stringBefore 0x1000 [0x61] :=
  ⟨⟨by decide, by decide, by decide⟩, by decide +kernel, by decide +kernel⟩

/-! ## 2. A buffer, piece by piece -/

/-- The byte at a position of the buffer. -/
def byteAt (mem : Mem) (ptr : Word) (k : ℕ) : BitVec 8 :=
  (mem.byte (ptr + BitVec.ofNat 64 k)).getD 0

/-- A byte as it has to be shown: itself, or a backslash and the octal digits of its value. -/
def renderByte (b : BitVec 8) : Text :=
  if 0x20 ≤ b.toNat ∧ b.toNat ≤ 0x7E then [byteChar b] else '\\' :: octal b.toNat

/-- What the loop of `print_buf` prints in `n` rounds from position `k` on, each byte with its
position. -/
def bufPieces (mem : Mem) : ℕ → ℕ → Word → List (ℕ × Text)
  | 0, _, _ => []
  | n + 1, k, ptr =>
    let text := mem.peek ptr
    (if 0 ≤ text.toInt then
      [(k, printByte (byteOf text 0)), (k + 1, printByte (byteOf text 1))] else []) ++
      bufPieces mem n (k + 2) (ptr + 2)

theorem bufPieces_succ (mem : Mem) (n k : ℕ) (ptr : Word) :
    bufPieces mem (n + 1) k ptr = (if 0 ≤ (mem.peek ptr).toInt then
      [(k, printByte (byteOf (mem.peek ptr) 0)), (k + 1, printByte (byteOf (mem.peek ptr) 1))]
      else []) ++ bufPieces mem n (k + 2) (ptr + 2) := rfl

/-- The pieces make the text. -/
theorem bufLoop_eq (mem : Mem) (n k : ℕ) (ptr : Word) :
    bufLoop mem n ptr = (bufPieces mem n k ptr).flatMap Prod.snd := by
  induction n generalizing k ptr with
  | zero => rfl
  | succ n ih =>
    have hloop : bufLoop mem (n + 1) ptr
        = (if 0 ≤ (mem.peek ptr).toInt then printWordBuf (mem.peek ptr) else []) ++
          bufLoop mem n (ptr + 2) := rfl
    rw [hloop, bufPieces_succ, List.flatMap_append, ← ih (k + 2) (ptr + 2)]
    refine congrArg (· ++ _) ?_
    split
    · simp [printWordBuf]
    · rfl

theorem printBuf_eq (mem : Mem) (ptr len : Word) :
    printBuf mem ptr len = "\"".toList ++
      (bufPieces mem (min 16 len.toNat) 0 ptr).flatMap Prod.snd ++ "\"".toList ++
      (if min 16 len.toNat = 16 then "...".toList else []) := by
  unfold printBuf
  simp only [bufLoop_eq mem _ 0]

/-- The pieces that are printed are the bytes of the buffer up to 32, each rendered with its
value, and there are dots exactly if there is more. -/
def ShowsBuffer (mem : Mem) (ptr len : Word) : Prop :=
  bufPieces mem (min 16 len.toNat) 0 ptr
      = (List.range (min len.toNat 32)).map (fun k => (k, renderByte (byteAt mem ptr k))) ∧
    (min 16 len.toNat = 16 ↔ 32 < len.toNat)

instance (mem : Mem) (ptr len : Word) : Decidable (ShowsBuffer mem ptr len) :=
  inferInstanceAs (Decidable (_ ∧ _))

/-- Then that is the text. -/
theorem ShowsBuffer.printBuf {mem : Mem} {ptr len : Word} (h : ShowsBuffer mem ptr len) :
    printBuf mem ptr len = "\"".toList ++
      (List.range (min len.toNat 32)).flatMap (fun k => renderByte (byteAt mem ptr k)) ++
      "\"".toList ++ (if 32 < len.toNat then "...".toList else []) := by
  rw [printBuf_eq, h.1, List.flatMap_map]
  simp only [h.2]

/-- The word at an even position of the buffer can be read, and its last byte is below
0x80. -/
def ReadsNonneg (mem : Mem) (ptr : Word) (j : ℕ) : Prop :=
  ∃ w ∈ mem.word (ptr + BitVec.ofNat 64 (2 * j)), 0 ≤ w.toInt

instance (mem : Mem) (ptr : Word) (j : ℕ) : Decidable (ReadsNonneg mem ptr j) :=
  inferInstanceAs (Decidable (∃ w ∈ _, _))

theorem peek_nonneg_iff (mem : Mem) (a : Word) :
    0 ≤ (mem.peek a).toInt ↔ ∃ w ∈ mem.word a, 0 ≤ w.toInt := by
  cases hw : mem.word a with
  | none =>
    have hpeek : mem.peek a = -1 := by rw [Mem.peek, hw]; rfl
    rw [hpeek]
    exact iff_of_false (by decide) (by rintro ⟨w, hmem, -⟩; cases hmem)
  | some v =>
    rw [Mem.peek_of_word hw]
    simp

/-- The pieces, as a list of the rounds that print. -/
theorem bufPieces_eq (mem : Mem) (ptr : Word) (n j : ℕ) :
    bufPieces mem n (2 * j) (ptr + BitVec.ofNat 64 (2 * j))
      = ((List.range' j n).filter fun i => ReadsNonneg mem ptr i).flatMap fun i =>
          [(2 * i, printByte (byteAt mem ptr (2 * i))),
            (2 * i + 1, printByte (byteAt mem ptr (2 * i + 1)))] := by
  induction n generalizing j with
  | zero => rfl
  | succ n ih =>
    have hnext : ptr + BitVec.ofNat 64 (2 * j) + 2 = ptr + BitVec.ofNat 64 (2 * (j + 1)) := by
      rw [show (2 : Word) = BitVec.ofNat 64 2 from rfl, BitVec.add_assoc, ← BitVec.ofNat_add]
      rfl
    rw [bufPieces_succ, List.range'_succ, hnext, show 2 * j + 2 = 2 * (j + 1) from rfl, ih (j + 1)]
    by_cases hj : ReadsNonneg mem ptr j
    · obtain ⟨w, hw, -⟩ := id hj
      have hb (i : ℕ) (hi : i < 8) : byteOf (mem.peek (ptr + BitVec.ofNat 64 (2 * j))) i
          = byteAt mem ptr (2 * j + i) := by
        have haddr : ptr + BitVec.ofNat 64 (2 * j) + BitVec.ofNat 64 i
            = ptr + BitVec.ofNat 64 (2 * j + i) := by
          rw [BitVec.add_assoc, ← BitVec.ofNat_add]
        have hbyte := Mem.byte_of_word hw hi
        rw [haddr] at hbyte
        rw [Mem.peek_of_word hw, byteAt, hbyte, Option.getD_some]
      rw [List.filter_cons_of_pos (by simpa using hj), List.flatMap_cons,
        if_pos ((peek_nonneg_iff mem _).mpr hj), hb 0 (by decide), hb 1 (by decide)]
      rfl
    · rw [List.filter_cons_of_neg (by simpa using hj),
        if_neg fun hc => hj ((peek_nonneg_iff mem _).mp hc)]
      rfl

/-! ## 3. Which pieces there are -/

/-- The positions in the first rounds. -/
theorem flatMap_pairs (m : ℕ) :
    ((List.range m).flatMap fun i => [2 * i, 2 * i + 1]) = List.range (2 * m) := by
  induction m with
  | zero => rfl
  | succ m ih =>
    rw [List.range_succ, List.flatMap_append, ih, Nat.mul_succ, List.range_add]
    rfl

/-- The numbers below `k` among those below `n`. -/
theorem filter_lt_range {k n : ℕ} (h : k ≤ n) :
    ((List.range n).filter fun j => j < k) = List.range k := by
  obtain ⟨m, rfl⟩ := Nat.exists_eq_add_of_le h
  have hall : ((List.range k).filter fun j => j < k) = List.range k :=
    List.filter_eq_self.mpr fun j hj => decide_eq_true (List.mem_range.mp hj)
  have hnone : (((List.range m).map (k + ·)).filter fun j => j < k) = [] := by
    refine List.filter_eq_nil_iff.mpr ?_
    intro j hj
    obtain ⟨i, -, rfl⟩ := List.mem_map.mp hj
    rw [decide_eq_true_eq]
    omega
  rw [List.range_add, List.filter_append, hall, hnone, List.append_nil]

/-- The rounds that print give the positions up to `m` exactly if `m` is even, and they are the
rounds below its half. -/
theorem pairs_eq_range_iff {n m : ℕ} (hm : m ≤ 2 * n) (good : ℕ → Prop) [DecidablePred good] :
    (((List.range n).filter fun j => good j).flatMap fun i => [2 * i, 2 * i + 1]) = List.range m ↔
      Even m ∧ ∀ j < n, (good j ↔ 2 * j < m) := by
  constructor
  · intro h
    have hmem (k : ℕ) : k < m ↔ ∃ j < n, good j ∧ (k = 2 * j ∨ k = 2 * j + 1) := by
      rw [← List.mem_range, ← h]
      simp only [List.mem_flatMap, List.mem_filter, List.mem_range, decide_eq_true_eq,
        List.mem_cons, List.not_mem_nil, or_false, and_assoc]
    have hgood (j : ℕ) (hj : j < n) : good j ↔ 2 * j < m := by
      rw [hmem]
      constructor
      · intro hg
        exact ⟨j, hj, hg, .inl rfl⟩
      · rintro ⟨i, -, hg, hi⟩
        have hij : i = j := by omega
        exact hij ▸ hg
    refine ⟨?_, hgood⟩
    -- the first byte of a pair is not shown without the second
    rcases Nat.even_or_odd' m with ⟨j, hj | hj⟩
    · exact ⟨j, by omega⟩
    · have hg := (hgood j (by omega)).mpr (by omega)
      have hlt := (hmem (2 * j + 1)).mpr ⟨j, by omega, hg, .inr rfl⟩
      omega
  · rintro ⟨⟨k, hk⟩, hgood⟩
    have hfilter : ((List.range n).filter fun j => good j)
        = (List.range n).filter fun j => j < k := by
      refine List.filter_congr ?_
      intro j hj
      rw [decide_eq_decide, hgood j (List.mem_range.mp hj)]
      omega
    rw [hfilter, filter_lt_range (by omega), flatMap_pairs, hk, Nat.two_mul]

/-- A byte is shown with its value exactly if it is below 0x80. -/
theorem printByte_eq_iff (b : BitVec 8) : printByte b = renderByte b ↔ b.toNat < 0x80 := by
  have hall : ∀ b : BitVec 8, printByte b = renderByte b ↔ b.toNat < 0x80 := by decide +kernel
  exact hall b

/-- A list of numbers with something made of each is another one exactly if the numbers are the
same and so is what is made of them. -/
theorem map_pair_eq_iff {α : Type} {l m : List ℕ} (f g : ℕ → α) :
    l.map (fun k => (k, f k)) = m.map (fun k => (k, g k)) ↔ l = m ∧ ∀ k ∈ m, f k = g k := by
  constructor
  · intro h
    have hfst := congrArg (List.map Prod.fst) h
    rw [List.map_map, List.map_map] at hfst
    have hlm : l = m := by simpa [Function.comp_def] using hfst
    subst hlm
    refine ⟨rfl, fun k hk => ?_⟩
    exact congrArg Prod.snd (List.map_inj_left.mp h k hk)
  · rintro ⟨rfl, h⟩
    exact List.map_congr_left fun k hk => congrArg (k, ·) (h k hk)

/-- **`print_buf` shows the buffer** exactly if its length is below 16 or above 32, the number of
bytes to be shown is even, the rounds whose word can be read and ends in a byte below 0x80 are
those of these bytes, and the bytes are below 0x80 too. -/
theorem showsBuffer_iff (mem : Mem) (ptr len : Word) :
    ShowsBuffer mem ptr len ↔ (len.toNat < 16 ∨ 32 < len.toNat) ∧ Even (min len.toNat 32) ∧
      (∀ j < min 16 len.toNat, (ReadsNonneg mem ptr j ↔ 2 * j < min len.toNat 32)) ∧
      ∀ k < min len.toNat 32, (byteAt mem ptr k).toNat < 0x80 := by
  have hpieces := bufPieces_eq mem ptr (min 16 len.toNat) 0
  rw [show 2 * 0 = 0 from rfl, show ptr + BitVec.ofNat 64 0 = ptr from BitVec.add_zero ptr,
    ← List.range_eq_range'] at hpieces
  -- the pieces as positions, each with its text
  have hmap : bufPieces mem (min 16 len.toNat) 0 ptr
      = (((List.range (min 16 len.toNat)).filter fun j => ReadsNonneg mem ptr j).flatMap
          fun i => [2 * i, 2 * i + 1]).map fun k => (k, printByte (byteAt mem ptr k)) := by
    rw [hpieces, List.map_flatMap]
    rfl
  rw [ShowsBuffer, hmap, map_pair_eq_iff, pairs_eq_range_iff (by omega)]
  simp only [printByte_eq_iff, List.mem_range]
  have hdots : (min 16 len.toNat = 16 ↔ 32 < len.toNat) ↔ len.toNat < 16 ∨ 32 < len.toNat := by
    omega
  rw [hdots]
  tauto

/-- A buffer of one byte, an `a`, with a `b` behind it. -/
def oneByte : Mem := .ofBytes 0x1000 (0x61 :: 0x62 :: List.replicate 9 0)

/-- **A byte from behind the buffer is shown.** -/
theorem showsBuffer_fails :
    printBuf oneByte 0x1000 1 = "\"ab\"".toList ∧ ¬ ShowsBuffer oneByte 0x1000 1 :=
  ⟨by decide +kernel, by decide +kernel⟩

end Ftrace
