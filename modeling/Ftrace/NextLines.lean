/-
# The lines that `get_next_line` returns

A `read` that returns less than a buffer is taken for the last piece of the file: unless it
ends in a newline, it gets one.  So what comes out of a descriptor are the lines of the text
with these newlines in it (`nextLines_delivered`), and they are the lines of the file exactly
if no read but the last one stops short in the middle of a line (`returnsLines_iff`).
-/
import Ftrace.Lib.Lines
import Ftrace.NextLine
import Mathlib.Data.List.Rotate

namespace Ftrace

open CText Lines

/-! ## 1. One read -/

/-- One read: some bytes, at most a buffer of them, no NUL. -/
structure Chunk (t : Text) : Prop where
  ne_nil : t ≠ []
  length_le : t.length ≤ BUF_SIZE
  nul_free : nul ∉ t

/-- The read stops short, and not at the end of a line. -/
def StopsShort (t : Text) : Prop := t.length < BUF_SIZE ∧ t.getLast? ≠ some '\n'

instance (t : Text) : Decidable (StopsShort t) := inferInstanceAs (Decidable (_ ∧ _))

theorem Chunk.not_stopsShort_iff {t : Text} (h : Chunk t) :
    ¬ StopsShort t ↔ t.length = BUF_SIZE ∨ t.getLast? = some '\n' := by
  have hle := h.length_le
  rw [StopsShort, not_and_or, not_not]
  refine or_congr_left ?_
  omega

/-- What `str_tmp` holds after such a read: the bytes, except that a short piece without a
newline gets one. -/
theorem strTmp_eq {t : Text} (h : Chunk t) :
    strTmp t = if StopsShort t then t ++ ['\n'] else t := by
  unfold strTmp
  refine cstr_eq_self ?_
  split
  · rw [List.mem_append, not_or]
    exact ⟨h.nul_free, by decide⟩
  · exact h.nul_free

/-- The text that is made of the reads. -/
def delivered (chunks : List Text) : Text := (chunks.map strTmp).flatten

theorem delivered_cons (t : Text) (chunks : List Text) :
    delivered (t :: chunks) = strTmp t ++ delivered chunks := rfl

theorem strTmp_ne_nil {t : Text} (h : Chunk t) : strTmp t ≠ [] := by
  rw [strTmp_eq h]
  split
  · exact List.concat_ne_nil _ _
  · exact h.ne_nil

/-! ## 2. One line -/

theorem isBackslashN_iff (str : Option Text) : isBackslashN str = true ↔ '\n' ∈ str.getD [] := by
  rw [isBackslashN, List.contains_iff_mem]

/-- At the end of the file the text gets the newline that its last line lacks, unless there is
no text. -/
theorem fillLine_nil {str : Option Text} (h : '\n' ∉ str.getD []) :
    (∃ str', fillLine str [] = (true, some str', []) ∧ '\n' ∈ str' ∧
        linesOf str' = linesOf (str.getD [])) ∨
      ((fillLine str []).1 = false ∧ str.getD [] = []) := by
  have hno : isBackslashN str ≠ true := mt (isBackslashN_iff str).mp h
  have htmp : strTmp [] = ['\n'] := by decide
  have hadd : addStrTo str (strTmp []) = str.getD [] ++ ['\n'] := by rw [htmp]; rfl
  rw [fillLine, if_neg hno]
  simp only [hadd]
  cases hs : str.getD [] with
  | nil => exact .inr ⟨rfl, rfl⟩
  | cons c s =>
    rw [hs] at h
    have hc : c ≠ '\n' := fun hc => h (hc ▸ List.mem_cons_self)
    have hlast : (c :: s).getLast? ≠ some '\n' := fun hl => h (List.mem_of_getLast? hl)
    refine .inl ⟨c :: s ++ ['\n'], ?_, by simp, linesOf_concat_newline (List.cons_ne_nil c s) hlast⟩
    simp [hc]

/-- **The loop of `get_next_line`**: it ends with a newline in the text, and the lines of the
text and of what the reads still make are the same as before; or there was nothing left. -/
theorem fillLine_delivered {chunks : List Text} (hchunks : ∀ t ∈ chunks, Chunk t)
    (str : Option Text) :
    (∃ str' rest, fillLine str (chunks.map some) = (true, some str', rest.map some) ∧
        '\n' ∈ str' ∧ (∀ t ∈ rest, Chunk t) ∧
        linesOf (str' ++ delivered rest) = linesOf (str.getD [] ++ delivered chunks)) ∨
      ((fillLine str (chunks.map some)).1 = false ∧ str.getD [] ++ delivered chunks = []) := by
  induction chunks generalizing str with
  | nil =>
    have hnil (t : Text) : t ++ delivered [] = t := List.append_nil t
    by_cases h : '\n' ∈ str.getD []
    · cases str with
      | none => cases h
      | some s => exact .inl ⟨s, [], if_pos ((isBackslashN_iff (some s)).mpr h), h, hchunks, rfl⟩
    · rcases fillLine_nil h with ⟨str', hf, hnl, hl⟩ | ⟨hf, hempty⟩
      · refine .inl ⟨str', [], hf, hnl, hchunks, ?_⟩
        rw [hnil, hnil]
        exact hl
      · exact .inr ⟨hf, (hnil _).trans hempty⟩
  | cons t chunks ih =>
    have hchunk := hchunks t List.mem_cons_self
    have hrest : ∀ u ∈ chunks, Chunk u := fun u hu => hchunks u (List.mem_cons_of_mem t hu)
    rw [List.map_cons]
    unfold fillLine
    split
    · rename_i h
      rw [isBackslashN_iff] at h
      cases str with
      | none => cases h
      | some s => exact .inl ⟨s, t :: chunks, rfl, h, hchunks, rfl⟩
    · have hne : ¬ (t = [] ∧ (addStrTo str (strTmp t)).head? = some '\n') :=
        fun hc => hchunk.ne_nil hc.1
      have hadd : (some (addStrTo str (strTmp t))).getD [] ++ delivered chunks
          = str.getD [] ++ delivered (t :: chunks) := by
        rw [delivered_cons, ← List.append_assoc]
        rfl
      simp only [if_neg hne]
      rw [← hadd]
      exact ih hrest (some (addStrTo str (strTmp t)))

/-- The node that `find_fd_or_create_it` returns is that of the descriptor, with the text that
waits for it. -/
theorem findFdOrCreateIt_head (pile : List TFd) (fd : ℤ) :
    ∃ node ring, findFdOrCreateIt pile fd = node :: ring ∧ node.fd = fd ∧
      node.str.getD [] = leftover pile fd := by
  rw [findFdOrCreateIt, leftover]
  cases hidx : pile.findIdx? fun n => n.fd = fd with
  | none =>
    have hnone : pile.find? (fun n => n.fd = fd) = none := by
      rw [List.findIdx?_eq_none_iff] at hidx
      rw [List.find?_eq_none]
      intro n hn
      simpa using hidx n hn
    rw [hnone]
    exact ⟨_, _, rfl, rfl, rfl⟩
  | some i =>
    obtain ⟨hi, hfd, hbefore⟩ := List.findIdx?_eq_some_iff_getElem.mp hidx
    have hfind : pile.find? (fun n => n.fd = fd) = some pile[i] := by
      rw [List.find?_eq_some_iff_getElem]
      refine ⟨hfd, i, hi, rfl, fun j hj => ?_⟩
      simpa using hbefore j hj
    refine ⟨pile[i], pile.drop (i + 1) ++ pile.take i, ?_, by simpa using hfd, by rw [hfind]⟩
    simp only [List.rotate_eq_drop_append_take (Nat.le_of_lt hi), List.drop_eq_getElem_cons hi,
      List.cons_append]

/-- The text waiting for the descriptor whose node is at the head. -/
theorem leftover_head (node : TFd) (ring : List TFd) :
    leftover (node :: ring) node.fd = node.str.getD [] := by
  simp [leftover]

/-- **One call of `get_next_line`**: the first of the lines that are left, and the others stay;
or none is left, and the result is null. -/
theorem getNextLine_delivered {chunks : List Text} (hchunks : ∀ t ∈ chunks, Chunk t)
    (pile : List TFd) (fd : ℤ) :
    (∃ l ls pile' rest, linesOf (leftover pile fd ++ delivered chunks) = l :: ls ∧
        getNextLine pile fd (chunks.map some) = (some l, pile', rest.map some) ∧
        (∀ t ∈ rest, Chunk t) ∧ linesOf (leftover pile' fd ++ delivered rest) = ls) ∨
      (linesOf (leftover pile fd ++ delivered chunks) = [] ∧
        (getNextLine pile fd (chunks.map some)).1 = none) := by
  obtain ⟨node, ring, hfind, rfl, hstr⟩ := findFdOrCreateIt_head pile fd
  rw [getNextLine, hfind, ← hstr]
  rcases fillLine_delivered hchunks node.str with ⟨str', rest, hf, hnl, hrest, hl⟩ | ⟨hf, hnil⟩
  · obtain ⟨hsplit, hline⟩ := split_at_newline hnl
    refine .inl ⟨str'.takeWhile fun c => c != '\n',
      linesOf ((str'.dropWhile fun c => c != '\n').tail ++ delivered rest),
      { node with str := some (str'.dropWhile fun c => c != '\n').tail } :: ring, rest, ?_, ?_,
      hrest, ?_⟩
    · rw [← hl]
      conv_lhs => rw [hsplit]
      rw [List.append_assoc, List.cons_append, linesOf_line hline]
    · simp only [hf, returnIt, Option.getD_some]
    · rw [leftover_head { node with str := some (str'.dropWhile fun c => c != '\n').tail } ring]
      rfl
  · right
    rw [hnil]
    refine ⟨rfl, ?_⟩
    rcases hfl : fillLine node.str (chunks.map some) with ⟨ok, str', rest⟩
    rw [hfl] at hf
    simp only at hf
    subst hf
    simp only [hfl]

/-! ## 3. Call after call -/

/-- The results of `get_next_line`, call after call until it returns null, for at most `n`
calls. -/
def nextLines : ℕ → List TFd → ℤ → Reads → List Text
  | 0, _, _, _ => []
  | n + 1, pile, fd, reads =>
    match getNextLine pile fd reads with
    | (none, _, _) => []
    | (some l, pile', rest) => l :: nextLines n pile' fd rest

/-- **The lines that are delivered** are those of the waiting text and what the reads make. -/
theorem nextLines_delivered (n : ℕ) (pile : List TFd) (fd : ℤ) {chunks : List Text}
    (hchunks : ∀ t ∈ chunks, Chunk t) :
    nextLines n pile fd (chunks.map some)
      = (linesOf (leftover pile fd ++ delivered chunks)).take n := by
  induction n generalizing pile chunks with
  | zero => rfl
  | succ n ih =>
    unfold nextLines
    rcases getNextLine_delivered hchunks pile fd with ⟨l, ls, pile', rest, hl, hg, hrest, hls⟩ |
      ⟨hl, hg⟩
    · rw [hl, hg, List.take_succ_cons, ← hls]
      simp only [ih pile' hrest]
    · rcases hgn : getNextLine pile fd (chunks.map some) with ⟨line, pile', rest⟩
      rw [hgn] at hg
      simp only at hg
      subst hg
      rw [hl]
      rfl

/-- The results of `n` calls. -/
def results : ℕ → List TFd → ℤ → Reads → List (Option Text)
  | 0, _, _, _ => []
  | n + 1, pile, fd, reads =>
    match getNextLine pile fd reads with
    | (line, pile', rest) => line :: results n pile' fd rest

/-- Some texts and then null. -/
theorem results_eq_iff (lines : List Text) (pile : List TFd) (fd : ℤ) (reads : Reads) :
    results (lines.length + 1) pile fd reads = lines.map some ++ [none] ↔
      nextLines (lines.length + 1) pile fd reads = lines := by
  induction lines generalizing pile reads with
  | nil =>
    unfold results nextLines
    rcases getNextLine pile fd reads with ⟨line, pile', rest⟩
    cases line <;> simp [results]
  | cons l lines ih =>
    rw [List.length_cons]
    unfold results nextLines
    rcases getNextLine pile fd reads with ⟨line, pile', rest⟩
    cases line with
    | none => simp
    | some l' =>
      simp only [List.map_cons, List.cons_append, List.cons.injEq, Option.some.injEq]
      exact and_congr_right fun _ => ih pile' rest

/-! ## 4. The lines of the file -/

/-- Where no read but the last stops short, the newlines that are added change no line. -/
theorem linesOf_delivered {chunks : List Text} (hchunks : ∀ t ∈ chunks, Chunk t)
    (h : ∀ t ∈ chunks.dropLast, ¬ StopsShort t) (s : Text) :
    linesOf (s ++ delivered chunks) = linesOf (s ++ chunks.flatten) := by
  induction chunks generalizing s with
  | nil => rfl
  | cons t chunks ih =>
    have hchunk := hchunks t List.mem_cons_self
    cases chunks with
    | nil =>
      have hd : delivered [t] = strTmp t := List.append_nil _
      have hf : [t].flatten = t := List.append_nil t
      rw [hd, hf, strTmp_eq hchunk]
      split
      · rename_i hshort
        have hlast : (s ++ t).getLast? ≠ some '\n' := by
          have hl := hshort.2
          rw [List.getLast?_eq_some_getLast hchunk.ne_nil] at hl
          rw [List.getLast?_append, List.getLast?_eq_some_getLast hchunk.ne_nil]
          exact hl
        have hne : s ++ t ≠ [] := fun hnil => hchunk.ne_nil (List.append_eq_nil_iff.mp hnil).2
        rw [← List.append_assoc, linesOf_concat_newline hne hlast]
      · rfl
    | cons u chunks =>
      rw [List.dropLast_cons_cons] at h
      have ht := h t List.mem_cons_self
      have hrest := ih (fun v hv => hchunks v (List.mem_cons_of_mem t hv))
        (fun v hv => h v (List.mem_cons_of_mem t hv)) (s ++ t)
      rw [delivered_cons, strTmp_eq hchunk, if_neg ht, List.flatten_cons, ← List.append_assoc,
        ← List.append_assoc, hrest]

/-- Each read but the last that stops short makes one line too many. -/
theorem length_linesOf_delivered {chunks : List Text} (hchunks : ∀ t ∈ chunks, Chunk t) :
    (linesOf (delivered chunks)).length
      = (linesOf chunks.flatten).length + chunks.dropLast.countP fun t => StopsShort t := by
  induction chunks with
  | nil => rfl
  | cons t chunks ih =>
    have hchunk := hchunks t List.mem_cons_self
    cases chunks with
    | nil =>
      have h := linesOf_delivered hchunks (fun v hv => absurd hv List.not_mem_nil) []
      rw [List.nil_append, List.nil_append] at h
      rw [h]
      rfl
    | cons u chunks =>
      have hu := hchunks u (List.mem_cons_of_mem t List.mem_cons_self)
      have hrest := ih fun v hv => hchunks v (List.mem_cons_of_mem t hv)
      have hd : delivered (u :: chunks) ≠ [] :=
        fun hnil => strTmp_ne_nil hu (List.append_eq_nil_iff.mp hnil).1
      have hf : (u :: chunks).flatten ≠ [] :=
        fun hnil => hu.ne_nil (List.append_eq_nil_iff.mp hnil).1
      have hcount : (strTmp t).count '\n' = t.count '\n' + if StopsShort t then 1 else 0 := by
        rw [strTmp_eq hchunk]
        split
        · rw [List.count_append]
          rfl
        · rfl
      rw [List.dropLast_cons_cons, List.countP_cons, delivered_cons, List.flatten_cons,
        length_linesOf_append _ hd, length_linesOf_append _ hf, hrest, hcount]
      simp only [decide_eq_true_eq]
      omega

/-- Calls on a new descriptor return the lines of the file in order, and then null. -/
def ReturnsLines (pile : List TFd) (fd : ℤ) (chunks : List Text) : Prop :=
  results ((linesOf chunks.flatten).length + 1) pile fd (chunks.map some)
    = (linesOf chunks.flatten).map some ++ [none]

instance (pile : List TFd) (fd : ℤ) (chunks : List Text) :
    Decidable (ReturnsLines pile fd chunks) := inferInstanceAs (Decidable (_ = _))

/-- No text waits for a descriptor that has not been seen. -/
theorem leftover_eq_nil {pile : List TFd} {fd : ℤ} (h : ∀ n ∈ pile, n.fd ≠ fd) :
    leftover pile fd = [] := by
  have hnone : pile.find? (fun n => n.fd = fd) = none := by
    rw [List.find?_eq_none]
    intro n hn
    simpa using h n hn
  rw [leftover, hnone]

/-- **`get_next_line` returns the lines of the file** exactly if each read but the last fills
the buffer or ends in a newline. -/
theorem returnsLines_iff {pile : List TFd} {fd : ℤ} {chunks : List Text}
    (hfresh : ∀ n ∈ pile, n.fd ≠ fd) (hchunks : ∀ t ∈ chunks, Chunk t) :
    ReturnsLines pile fd chunks ↔
      ∀ t ∈ chunks.dropLast, t.length = BUF_SIZE ∨ t.getLast? = some '\n' := by
  have hlines := nextLines_delivered ((linesOf chunks.flatten).length + 1) pile fd hchunks
  rw [leftover_eq_nil hfresh, List.nil_append] at hlines
  have hshort : (∀ t ∈ chunks.dropLast, t.length = BUF_SIZE ∨ t.getLast? = some '\n') ↔
      ∀ t ∈ chunks.dropLast, ¬ StopsShort t :=
    forall₂_congr fun t ht => (hchunks t (List.mem_of_mem_dropLast ht)).not_stopsShort_iff.symm
  rw [ReturnsLines, results_eq_iff, hlines, hshort]
  have hlen := length_linesOf_delivered hchunks
  constructor
  · intro h
    -- as many lines, so none too many
    have hle := congrArg List.length h
    rw [List.length_take] at hle
    have hzero : chunks.dropLast.countP (fun t => StopsShort t) = 0 := by omega
    intro t ht hs
    exact List.countP_eq_zero.mp hzero t ht (decide_eq_true hs)
  · intro h
    have heq := linesOf_delivered hchunks h []
    rw [List.nil_append, List.nil_append] at heq
    rw [heq]
    exact List.take_of_length_le (Nat.le_succ _)

theorem returnsLines_iff_line : ReturnsLines [] 3 ["ab\n".toList] :=
  (returnsLines_iff (fun n hn => absurd hn List.not_mem_nil) (fun t ht => by
    rw [List.mem_singleton.mp ht]
    exact ⟨by decide, by decide, by decide⟩)).mpr fun t ht => absurd ht List.not_mem_nil

/-- **A short read cuts a line in two.** -/
theorem returnsLines_fails :
    results 3 [] 3 (["ab".toList, "c\n".toList].map some)
        = [some "ab".toList, some "c".toList, none] ∧
      ¬ ReturnsLines [] 3 ["ab".toList, "c\n".toList] :=
  ⟨by decide, by decide⟩

end Ftrace
