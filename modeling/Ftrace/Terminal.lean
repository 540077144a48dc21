/-
# Standard output

The array that `print_instruction` reads the line of a step back from is the buffer of standard
output itself.  `format_dotfile` works on it before `fflush` sends it off, so what appears is not
the line that was printed: its last character has become a NUL, and its double quotes are single
ones.  A newline is written after it, unless the line had that one character only.

Nothing else is lost on the way.  What was sent can be cut at the NULs again, and `format_dotfile`
run on the pieces writes `graph.dot` once more (`output_tells_graph`): its edges are those of the
call stack that a reader of standard output keeps (`output_tells_edges`).
-/
import Ftrace.CallStack
import Ftrace.Graph

namespace Ftrace

open CText Bytes Dot

/-! ## 1. The buffer -/

/-- `buffer`, with a line at its beginning. -/
def buffered (line : Text) : Text := line ++ List.replicate (BUFFER_SIZE - line.length) nul

/-- The loop of `delete_quote`, on an array. -/
def deleteQuoteLoop : Text → Text
  | [] => []
  | c :: s => if c = nul then c :: s else (if c = '"' then '\'' else c) :: deleteQuoteLoop s

/-- What `format_dotfile` leaves in the array. -/
def formattedBuffer (buffer : Text) : Text :=
  deleteQuoteLoop (buffer.set ((cstr buffer).length - 1) nul)

/-- The statics of `print_instruction` and of what it calls, and what was sent to the two files. -/
structure OutTracer extends Tracer where
  out : Text := []

/-- `print_instruction` once more, with its standard output: `fflush` sends as many bytes as
`printf` put into the buffer. -/
def printInstructionOut (symbols : Option SymTab) (s : OutTracer) (st : Step) :
    Option OutTracer :=
  if guard st.ret then do
    let opened := if s.first then [] else openDotfile
    let line ← getinstruction symbols s.lib st
    if line.out.length < BUFFER_SIZE then
      let buffer := buffered line.out
      if cstr buffer = [] then
        some { first := true, dot := s.dot, lib := line.lib, writes := s.writes ++ opened,
               out := s.out ++ buffer.take line.out.length }
      else
        let d := formatDotfile s.dot (cstr buffer) s.first
        let buffer := formattedBuffer buffer
        let newline := if cstr buffer = [] then [] else ['\n']
        some { first := true, dot := d.1, lib := line.lib, writes := s.writes ++ opened ++ d.2,
               out := s.out ++ buffer.take line.out.length ++ newline }
    else none
  else some s

/-- The loop of `trace_son`. -/
def outLoop (symbols : Option SymTab) (s : OutTracer) : List Step → Option OutTracer
  | [] => some s
  | st :: sts => do
    let s' ← printInstructionOut symbols s st
    outLoop symbols s' sts

/-! ## 2. What is sent for a line -/

/-- What appears for a label: the line it was cut from, with a NUL for its last character. -/
def record (label : Text) : Text := label ++ nul :: (if label = [] then [] else ['\n'])

theorem nul_not_mem_deleteQuote {s : Text} (h : nul ∉ s) : nul ∉ deleteQuote s := by
  intro hmem
  obtain ⟨c, hc, heq⟩ := List.mem_map.mp hmem
  split at heq
  · exact absurd heq (by decide)
  · exact h (heq ▸ hc)

theorem deleteQuote_deleteQuote (s : Text) : deleteQuote (deleteQuote s) = deleteQuote s :=
  deleteQuote_eq_self (quote_not_mem_deleteQuote s)

/-- The loop stops at the NUL. -/
theorem deleteQuoteLoop_append {s : Text} (h : nul ∉ s) (rest : Text) :
    deleteQuoteLoop (s ++ nul :: rest) = deleteQuote s ++ nul :: rest := by
  induction s with
  | nil => rfl
  | cons c s ih =>
    have hc : c ≠ nul := fun hc => h (hc ▸ List.mem_cons_self)
    rw [List.cons_append, deleteQuoteLoop, if_neg hc, ih fun hs => h (List.mem_cons_of_mem _ hs)]
    rfl

theorem cstr_buffered {line : Text} (h : nul ∉ line) (hfits : line.length < BUFFER_SIZE) :
    cstr (buffered line) = line := by
  obtain ⟨n, hn⟩ : ∃ n, BUFFER_SIZE - line.length = n + 1 := ⟨BUFFER_SIZE - line.length - 1, by omega⟩
  rw [buffered, hn, List.replicate_succ]
  exact cstr_append_nul h _

/-- The array after `format_dotfile`: the label, and NULs from there on. -/
theorem formattedBuffer_buffered {body : Text} {c : Char} (h : nul ∉ body ++ [c])
    (hfits : (body ++ [c]).length < BUFFER_SIZE) :
    ∃ rest, formattedBuffer (buffered (body ++ [c])) = deleteQuote body ++ nul :: rest := by
  have hbody : nul ∉ body := fun hmem => h (List.mem_append_left _ hmem)
  refine ⟨List.replicate (BUFFER_SIZE - (body ++ [c]).length) nul, ?_⟩
  rw [formattedBuffer, cstr_buffered h hfits, buffered, List.length_append, List.length_singleton,
    Nat.add_sub_cancel, List.append_assoc, List.set_append_right _ _ (Nat.le_refl _), Nat.sub_self]
  exact deleteQuoteLoop_append hbody _

/-- **What is sent for a line** that fits the buffer: its label, a NUL, and a newline if there is a
label. -/
theorem sent_eq {line : Text} (h : nul ∉ line) (hne : line ≠ []) (hfits : line.length < BUFFER_SIZE) :
    (formattedBuffer (buffered line)).take line.length ++
      (if cstr (formattedBuffer (buffered line)) = [] then [] else ['\n'])
        = record (deleteQuote line.dropLast) := by
  obtain ⟨body, c, rfl⟩ : ∃ body c, line = body ++ [c] :=
    ⟨_, _, (List.dropLast_concat_getLast hne).symm⟩
  obtain ⟨rest, hrest⟩ := formattedBuffer_buffered h hfits
  have hbody : nul ∉ deleteQuote body :=
    nul_not_mem_deleteQuote fun hmem => h (List.mem_append_left _ hmem)
  have htake : (deleteQuote body ++ nul :: rest).take (body ++ [c]).length
      = deleteQuote body ++ [nul] := by
    have hsplit : deleteQuote body ++ nul :: rest = (deleteQuote body ++ [nul]) ++ rest := by simp
    rw [hsplit]
    exact List.take_left' (by simp)
  rw [hrest, cstr_append_nul hbody, htake, List.dropLast_concat, record, List.append_assoc]
  rfl

/-! ## 3. Cutting it again -/

/-- A piece without the newline of the line before it. -/
def stripNewline (piece : Text) : Text := if piece.head? = some '\n' then piece.tail else piece

/-- What a reader makes of standard output: what stands before each NUL. -/
def readOutput (out : Text) : List Text := (out.splitOn nul).dropLast.map stripNewline

/-- A label that a reader finds again. -/
structure Readable (label : Text) : Prop where
  nul_free : nul ∉ label
  head : label.head? ≠ some '\n'

theorem Readable.strip {label : Text} (h : Readable label) {before : Text}
    (hbefore : before = [] ∨ before = ['\n']) : stripNewline (before ++ label) = label := by
  rcases hbefore with rfl | rfl
  · exact if_neg h.head
  · exact if_pos rfl

theorem readOutput_records {labels : List Text} (h : ∀ l ∈ labels, Readable l) {before : Text}
    (hbefore : before = [] ∨ before = ['\n']) :
    readOutput (before ++ labels.flatMap record) = labels := by
  induction labels generalizing before with
  | nil =>
    have hnul : nul ∉ before ++ [] := by rcases hbefore with rfl | rfl <;> decide
    rw [List.flatMap_nil, readOutput, List.splitOn_eq_singleton hnul]
    rfl
  | cons l labels ih =>
    have hl := h l List.mem_cons_self
    have hnul : nul ∉ before ++ l := by
      rw [List.mem_append, not_or]
      exact ⟨by rcases hbefore with rfl | rfl <;> decide, hl.nul_free⟩
    have hrest : readOutput ((if l = [] then [] else ['\n']) ++ labels.flatMap record) = labels :=
      ih (fun l' hl' => h l' (List.mem_cons_of_mem _ hl')) (by split <;> simp)
    have hout : before ++ (l :: labels).flatMap record
        = (before ++ l) ++ nul :: ((if l = [] then [] else ['\n']) ++ labels.flatMap record) := by
      rw [List.flatMap_cons, record]
      simp only [List.append_assoc, List.cons_append]
    rw [hout, readOutput, List.splitOn_append_cons_self_of_not_mem hnul,
      List.dropLast_cons_of_ne_nil (List.splitOn_ne_nil _ _), List.map_cons, hl.strip hbefore]
    exact congrArg (l :: ·) hrest

/-! ## 4. The labels of a run -/

/-- The labels of the steps that print something. -/
def shownLabels (symbols : Option SymTab) : LibState → List Step → List Text
  | _, [] => []
  | lib, st :: sts =>
    (if kind st.ret = .quiet then [] else [labelOf symbols lib st]) ++
      shownLabels symbols (libAfter symbols lib st) sts

/-- A line has two characters in front that are no newline, or one in all. -/
theorem lineOf_head {st : Step} (hk : kind st.ret ≠ .quiet) (symbols : Option SymTab)
    (lib : LibState) : ∃ c t, lineOf symbols lib st = c :: t ∧ c ≠ '\n' ∧ c ≠ '"' := by
  cases hk' : kind st.ret with
  | syscall => exact ⟨'@', _, by simp only [lineOf, hk']; rfl, by decide, by decide⟩
  | ret => exact ⟨'>', _, by simp only [lineOf, hk']; rfl, by decide, by decide⟩
  | call =>
    obtain ⟨d, u, h⟩ := lineOf_call hk' symbols lib
    exact ⟨'c', d :: u, h, by decide, by decide⟩
  | quiet => exact absurd hk' hk

theorem lineOf_ne_nil {st : Step} (hk : kind st.ret ≠ .quiet) (symbols : Option SymTab)
    (lib : LibState) : lineOf symbols lib st ≠ [] := by
  obtain ⟨c, t, hline, -⟩ := lineOf_head hk symbols lib
  rw [hline]
  exact List.cons_ne_nil c t

theorem readable_labelOf {st : Step} (hk : kind st.ret ≠ .quiet) (symbols : Option SymTab)
    (lib : LibState) : Readable (labelOf symbols lib st) := by
  obtain ⟨c, t, h, hc, hq⟩ := lineOf_head hk symbols lib
  refine ⟨nul_not_mem_deleteQuote fun hmem => nul_not_mem_lineOf symbols lib st
    (List.dropLast_subset _ hmem), ?_⟩
  rw [labelOf, h]
  cases t with
  | nil => exact Option.some_ne_none _ ∘ Eq.symm
  | cons d t => simp [deleteQuote, hc, hq]

theorem readable_shownLabels (symbols : Option SymTab) (lib : LibState) (steps : List Step) :
    ∀ l ∈ shownLabels symbols lib steps, Readable l := by
  induction steps generalizing lib with
  | nil => simp [shownLabels]
  | cons st sts ih =>
    intro l hl
    rw [shownLabels, List.mem_append] at hl
    rcases hl with hl | hl
    · split at hl
      · cases hl
      · rename_i hk
        rw [List.mem_singleton.mp hl]
        exact readable_labelOf hk symbols lib
    · exact ih _ l hl

/-- **Everything a step can do**, with its output. -/
theorem printInstructionOut_cases {symbols : Option SymTab} {s s' : OutTracer} {st : Step}
    (h : printInstructionOut symbols s st = some s') :
    (guard st.ret = false ∧ s' = s) ∨
      (guard st.ret = true ∧ s'.toTracer = s.toTracer.after symbols st ∧
        s'.out = s.out ++ if kind st.ret = .quiet then []
          else record (labelOf symbols s.lib st)) := by
  unfold printInstructionOut at h
  cases hg : guard st.ret with
  | false =>
    rw [hg, if_neg Bool.false_ne_true] at h
    exact .inl ⟨rfl, (Option.some.inj h).symm⟩
  | true =>
    refine .inr ⟨rfl, ?_⟩
    simp only [hg, getinstruction_eq hg, if_true, Option.bind_eq_bind, Option.bind_some] at h
    split at h
    · rename_i hfits
      have hnul := nul_not_mem_lineOf symbols s.lib st
      by_cases hk : kind st.ret = .quiet
      · have hline : lineOf symbols s.lib st = [] := by simp only [lineOf, hk]
        have hbuffer : cstr (buffered []) = [] := rfl
        rw [hline, if_pos hbuffer] at h
        obtain rfl := Option.some.inj h
        simp [Tracer.after, eventOf_quiet hk, writeEvent, hk]
      · have hne := lineOf_ne_nil hk symbols s.lib
        have hsent := sent_eq hnul hne hfits
        rw [cstr_buffered hnul hfits, if_neg hne, formatDotfile_eq] at h
        obtain rfl := Option.some.inj h
        refine ⟨?_, ?_⟩
        · simp [Tracer.after, eventOf, cstr_eq_self hnul, hne, writeEvent]
        · rw [if_neg hk, labelOf, ← hsent]
          exact List.append_assoc ..
    · cases h

/-- The output does not change what is done. -/
theorem printInstructionOut_toTracer (symbols : Option SymTab) (s : OutTracer) (st : Step) :
    (printInstructionOut symbols s st).map OutTracer.toTracer
      = printInstruction symbols s.toTracer st := by
  unfold printInstructionOut printInstruction
  cases hg : guard st.ret with
  | false => rfl
  | true =>
    simp only [getinstruction_eq hg, if_true, Option.bind_eq_bind, Option.bind_some]
    have hnul := nul_not_mem_lineOf symbols s.lib st
    by_cases hfits : (lineOf symbols s.lib st).length < BUFFER_SIZE
    · rw [if_pos hfits, if_pos hfits, cstr_buffered hnul hfits, cstr_eq_self hnul]
      by_cases hne : lineOf symbols s.lib st = []
      · rw [if_pos hne, if_pos hne]
        rfl
      · rw [if_neg hne, if_neg hne]
        rfl
    · rw [if_neg hfits, if_neg hfits]
      rfl

/-- So for a run. -/
theorem outLoop_toTracer (symbols : Option SymTab) (s : OutTracer) (steps : List Step) :
    (outLoop symbols s steps).map OutTracer.toTracer = traceLoop symbols s.toTracer steps := by
  induction steps generalizing s with
  | nil => rfl
  | cons st sts ih =>
    rw [outLoop, traceLoop, ← printInstructionOut_toTracer]
    cases printInstructionOut symbols s st with
    | none => rfl
    | some s' => exact ih s'

theorem outLoop_traceLoop {symbols : Option SymTab} {s s' : OutTracer} {steps : List Step}
    (h : outLoop symbols s steps = some s') :
    traceLoop symbols s.toTracer steps = some s'.toTracer := by
  rw [← outLoop_toTracer, h]
  rfl

/-- **What a run sends**: the records of its labels. -/
theorem outLoop_out {symbols : Option SymTab} {s s' : OutTracer} {steps : List Step}
    (h : outLoop symbols s steps = some s') :
    s'.out = s.out ++ (shownLabels symbols s.lib steps).flatMap record := by
  induction steps generalizing s with
  | nil =>
    obtain rfl := Option.some.inj h
    simp [shownLabels]
  | cons st sts ih =>
    obtain ⟨s₁, h₁, h₂⟩ := Option.bind_eq_some_iff.mp h
    rw [ih h₂, shownLabels]
    rcases printInstructionOut_cases h₁ with ⟨hg, rfl⟩ | ⟨-, hto, hout⟩
    · have hk := kind_of_not_guard hg
      rw [(refStep_of_not_guard hg symbols s₁.lib []).2.1, if_pos hk, List.nil_append]
    · have hlib : s₁.lib = libAfter symbols s.lib st := congrArg Tracer.lib hto
      rw [hlib, hout, List.append_assoc, List.flatMap_append]
      split <;> simp

/-- **Reading standard output gives the labels of the run.** -/
theorem readOutput_out {symbols : Option SymTab} {s : OutTracer} {steps : List Step}
    (h : outLoop symbols {} steps = some s) : readOutput s.out = shownLabels symbols {} steps := by
  have hout : s.out = [] ++ (shownLabels symbols {} steps).flatMap record := outLoop_out h
  rw [hout]
  exact readOutput_records (readable_shownLabels symbols {} steps) (.inl rfl)

/-! ## 5. `graph.dot` again -/

/-- The lines that a reader of standard output would give to `format_dotfile`. -/
def replayed (labels : List Text) : List Text := labels.map (· ++ ['\n'])

theorem replayed_cons (l : Text) (labels : List Text) :
    replayed (l :: labels) = (l ++ ['\n']) :: replayed labels := rfl

/-- A quiet step is the first to pass the guard: it sets `first`, and prints nothing. -/
def QuietFirst (steps : List Step) : Prop :=
  ∃ st ∈ (accepted steps).head?, kind st.ret = .quiet

instance (steps : List Step) : Decidable (QuietFirst steps) :=
  inferInstanceAs (Decidable (∃ st ∈ (accepted steps).head?, _))

/-- The head of the file: nothing, if it was never opened. -/
def headOf (steps : List Step) : List Write := if accepted steps = [] then [] else openDotfile

/-- The label of a step stands for what its line stands for. -/
theorem eventOf_labelOf {st : Step} (hk : kind st.ret ≠ .quiet) (symbols : Option SymTab)
    (lib : LibState) :
    eventOf (lineOf symbols lib st) = some (Event.ofLine (labelOf symbols lib st)) := by
  have hlabel : deleteQuote (labelOf symbols lib st) = labelOf symbols lib st :=
    deleteQuote_deleteQuote _
  rw [eventOf_of_ne_nil (lineOf_ne_nil hk _ _) (nul_not_mem_lineOf _ _ _), Event.ofLine, hlabel]
  rfl

/-- `format_dotfile` is told the same by both. -/
theorem formatDotfile_replayed {st : Step} (hk : kind st.ret ≠ .quiet) (symbols : Option SymTab)
    (lib : LibState) (d : DotStatics) (first : Bool) :
    formatDotfile d (labelOf symbols lib st ++ ['\n']) first
      = writeEvent d first (eventOf (lineOf symbols lib st)) := by
  rw [formatDotfile_eq, List.dropLast_concat, eventOf_labelOf hk]
  rfl

/-- From the first step on that passes the guard, the run writes what its labels write. -/
theorem traceLoop_replayed {symbols : Option SymTab} {s s' : Tracer} {steps : List Step}
    (h : traceLoop symbols s steps = some s') (hfirst : s.first = true) :
    s'.dot = (formatLines s.dot true (replayed (shownLabels symbols s.lib steps))).1 ∧
      s'.writes
        = s.writes ++ (formatLines s.dot true (replayed (shownLabels symbols s.lib steps))).2 := by
  induction steps generalizing s with
  | nil =>
    obtain rfl := Option.some.inj h
    exact ⟨rfl, (List.append_nil _).symm⟩
  | cons st sts ih =>
    obtain ⟨s₁, h₁, h₂⟩ := Option.bind_eq_some_iff.mp h
    rcases printInstruction_cases h₁ with ⟨hg, rfl⟩ | ⟨-, -, rfl⟩
    · have hk := kind_of_not_guard hg
      rw [shownLabels, if_pos hk, (refStep_of_not_guard hg symbols s₁.lib []).2.1]
      exact ih h₂ hfirst
    · obtain ⟨hdot, hwrites⟩ := ih h₂ rfl
      rw [hdot, hwrites, shownLabels]
      by_cases hk : kind st.ret = .quiet
      · rw [if_pos hk]
        simp [Tracer.after, eventOf_quiet hk, writeEvent, hfirst]
      · rw [if_neg hk, List.singleton_append, replayed_cons, formatLines,
          formatDotfile_replayed hk]
        simp [Tracer.after, hfirst]

/-- From the start. -/
theorem traceLoop_start_replayed {symbols : Option SymTab} {lib : LibState} {s' : Tracer}
    {steps : List Step} (h : traceLoop symbols { lib := lib } steps = some s') :
    (s'.dot, s'.writes) =
      let d := formatLines {} (QuietFirst steps) (replayed (shownLabels symbols lib steps))
      (d.1, headOf steps ++ d.2) := by
  induction steps with
  | nil =>
    obtain rfl := Option.some.inj h
    rfl
  | cons st sts ih =>
    obtain ⟨s₁, h₁, h₂⟩ := Option.bind_eq_some_iff.mp h
    rcases printInstruction_cases h₁ with ⟨hg, rfl⟩ | ⟨hg, -, rfl⟩
    · have hk := kind_of_not_guard hg
      have hacc : accepted (st :: sts) = accepted sts := by simp [accepted, hg]
      have hquiet : QuietFirst (st :: sts) ↔ QuietFirst sts := by rw [QuietFirst, hacc, QuietFirst]
      rw [shownLabels, if_pos hk, (refStep_of_not_guard hg symbols lib []).2.1, headOf, hacc,
        decide_eq_decide.mpr hquiet]
      exact ih h₂
    · have hacc : accepted (st :: sts) = st :: accepted sts := by simp [accepted, hg]
      have hquiet : QuietFirst (st :: sts) ↔ kind st.ret = .quiet := by simp [QuietFirst, hacc]
      have hhead : headOf (st :: sts) = openDotfile := by simp [headOf, hacc]
      obtain ⟨hdot, hwrites⟩ := traceLoop_replayed h₂ rfl
      rw [hdot, hwrites, hhead, decide_eq_decide.mpr hquiet, shownLabels]
      by_cases hk : kind st.ret = .quiet
      · rw [if_pos hk]
        simp [Tracer.after, eventOf_quiet hk, writeEvent, hk]
      · rw [if_neg hk, decide_eq_false hk, List.singleton_append, replayed_cons, formatLines,
          formatDotfile_replayed hk]
        simp [Tracer.after]

/-- **Standard output tells `graph.dot`**: what a reader finds there, given to `format_dotfile` once
more, leaves the call stack of the run and writes everything that the run has written, up to the
arrow in front of the first node after a step that printed nothing. -/
theorem output_tells_graph {symbols : Option SymTab} {steps : List Step} {s : OutTracer}
    (h : outLoop symbols {} steps = some s) :
    (s.dot, s.writes) =
      let d := formatLines {} (QuietFirst steps) (replayed (readOutput s.out))
      (d.1, headOf steps ++ d.2) := by
  rw [readOutput_out h]
  exact traceLoop_start_replayed (outLoop_traceLoop h)

/-- A call, a syscall under it and the return. -/
theorem output_tells_graph_call :
    ∃ s, outLoop none {} [.bare 0xE8 { rip := 0x1000 }, .bare 0x050F { rax := 39 }, .bare 0xC3 {}]
        = some s ∧
      (readOutput s.out).length = 3 ∧
      (s.dot, s.writes) =
        let d := formatLines {} false (replayed (readOutput s.out))
        (d.1, openDotfile ++ d.2) := by
  refine ⟨_, (Option.some_get (by decide +kernel)).symm, by decide +kernel, ?_⟩
  exact output_tells_graph (Option.some_get (by decide +kernel)).symm

/-! ## 6. Its edges -/

/-- What a reader of the file finds in it. -/
def itemsOf (ws : List Write) : List Item := (parse .start (lex .blank (written ws)).2).2

/-- If the first label is asked for only after quiet steps, it is the one of a return. -/
theorem shownLabels_of_quietThenRet {symbols : Option SymTab} {lib : LibState} {steps : List Step}
    (h : QuietThenRet (accepted steps)) :
    shownLabels symbols lib steps = [] ∨
      ∃ l ls, shownLabels symbols lib steps = l :: ls ∧ Event.ofLine l = .ret := by
  induction steps generalizing lib with
  | nil => exact .inl rfl
  | cons st sts ih =>
    by_cases hk : kind st.ret = .quiet
    · rw [shownLabels, if_pos hk, List.nil_append]
      refine ih ?_
      cases hg : guard st.ret with
      | true => simpa [QuietThenRet, accepted, hg, hk] using h
      | false => simpa [QuietThenRet, accepted, hg] using h
    · have hg : guard st.ret = true := by
        by_contra hg
        exact hk (kind_of_not_guard (Bool.not_eq_true _ ▸ hg))
      have hret : kind st.ret = .ret := by simpa [QuietThenRet, accepted, hg, hk] using h
      refine .inr ⟨labelOf symbols lib st, _, by rw [shownLabels, if_neg hk]; rfl, ?_⟩
      exact Option.some.inj ((eventOf_labelOf hk symbols lib).symm.trans (eventOf_ret hret _ _))

theorem shownLabels_of_accepted_nil {symbols : Option SymTab} {lib : LibState} {steps : List Step}
    (h : accepted steps = []) : shownLabels symbols lib steps = [] := by
  induction steps generalizing lib with
  | nil => rfl
  | cons st sts ih =>
    cases hg : guard st.ret with
    | true => simp [accepted, hg] at h
    | false =>
      rw [shownLabels, if_pos (kind_of_not_guard hg)]
      exact ih (by simpa [accepted, hg] using h)

/-- What the labels write, behind the head of the file. -/
theorem parse_replayed (labels : List Text) {first : Bool}
    (h : first = true → labels = [] ∨ ∃ l ls, labels = l :: ls ∧ Event.ofLine l = .ret) :
    ∃ p is, parse .stmt (tokensOf (formatLines {} first (replayed labels)).2) = (p, is) ∧
      p.Settled ∧ (Ref.run {} false (labels.map Event.ofLine)).edges = edgesOf is ∧
      (Ref.run {} false (labels.map Event.ofLine)).grey
        = nodesWith "color".toList "grey".toList is := by
  cases first with
  | false => simpa [replayed] using formatLines_step DotInv.init (r := {}) rfl labels
  | true =>
    rcases h rfl with rfl | ⟨l, ls, rfl, hret⟩
    · exact ⟨.stmt, [], rfl, .inl rfl, rfl, rfl⟩
    · -- the return writes nothing, and breaks the chain before it has begun
      have hformat : formatDotfile {} (l ++ ['\n']) true
          = ({ listFunc := popFunction [], ret := true }, []) := by
        rw [formatDotfile_eq, List.dropLast_concat, hret]
        rfl
      have hinv : DotInv { listFunc := popFunction [], ret := true } true .stmt :=
        ⟨.inl rfl, fun hr => by cases hr⟩
      obtain ⟨p, is, hp, hset, he, hg⟩ := formatLines_step hinv (r := {}) rfl ls
      refine ⟨p, is, ?_, hset, ?_, ?_⟩
      · rw [replayed_cons, formatLines, hformat]
        exact hp
      · simpa [Ref.run, Ref.step, hret] using he
      · simpa [Ref.run, Ref.step, hret] using hg

/-- **The items of the file**: where it is a graph, its edges are those of the call-stack machine that
is given the labels of the run, in order, and so are the labels declared grey. -/
theorem traceLoop_items {symbols : Option SymTab} {steps : List Step} {s : Tracer}
    (h : traceLoop symbols {} steps = some s) (hstarts : StartsWell steps)
    (hcloses : ∀ st ∈ steps, StepCloses symbols st) :
    edgesOf (itemsOf (s.writes ++ [.brace]))
        = (Ref.run {} false ((shownLabels symbols {} steps).map Event.ofLine)).edges ∧
      nodesWith "color".toList "grey".toList (itemsOf (s.writes ++ [.brace]))
        = (Ref.run {} false ((shownLabels symbols {} steps).map Event.ofLine)).grey := by
  have hclosed : ∀ w ∈ s.writes ++ [.brace], w.Closed := by
    intro w hw
    rcases List.mem_append.mp hw with hw | hw
    · exact run_closed h hcloses w hw
    · rw [List.mem_singleton.mp hw]
      exact fun l hl => by cases hl
  have hitems : itemsOf (s.writes ++ [.brace])
      = (parse .start (tokensOf (s.writes ++ [.brace]))).2 := by
    have hlex : lex .blank (written (s.writes ++ [.brace]))
        = (.blank, tokensOf (s.writes ++ [.brace])) := lexes_written hclosed
    rw [itemsOf, hlex]
  have hwrites : s.writes = headOf steps
      ++ (formatLines {} (QuietFirst steps) (replayed (shownLabels symbols {} steps))).2 :=
    congrArg Prod.snd (traceLoop_start_replayed h)
  rw [hitems, hwrites]
  by_cases hacc : accepted steps = []
  · rw [headOf, if_pos hacc, shownLabels_of_accepted_nil hacc]
    exact ⟨rfl, rfl⟩
  · have hquiet : decide (QuietFirst steps) = true → shownLabels symbols {} steps = [] ∨
        ∃ l ls, shownLabels symbols {} steps = l :: ls ∧ Event.ofLine l = .ret := by
      intro hq
      refine shownLabels_of_quietThenRet (hstarts.resolve_left ?_)
      rintro ⟨st, hst, hk⟩
      obtain ⟨st', hst', hk'⟩ := of_decide_eq_true hq
      exact hk (Option.some.inj (hst.symm.trans hst') ▸ hk')
    obtain ⟨p, is, hp, hset, he, hg⟩ := parse_replayed _ hquiet
    have hbrace : parse p (tokensOf [.brace]) = (.done, []) :=
      parse_cons (parseStep_rbrace hset) []
    rw [headOf, if_neg hacc, tokensOf_append, tokensOf_append, parse_append, parse_append,
      phase_openDotfile, hp, hbrace, he, hg]
    simp

/-- **The edges of `graph.dot` are read off standard output**: where the file is a graph, they are
those of the call-stack machine that is given what a reader finds there, in order, and so are the
labels declared grey. -/
theorem output_tells_edges {symbols : Option SymTab} {steps : List Step} {s : OutTracer}
    (h : outLoop symbols {} steps = some s) (hstarts : StartsWell steps)
    (hcloses : ∀ st ∈ steps, StepCloses symbols st) :
    edgesOf (itemsOf (s.writes ++ [.brace]))
        = (Ref.run {} false ((readOutput s.out).map Event.ofLine)).edges ∧
      nodesWith "color".toList "grey".toList (itemsOf (s.writes ++ [.brace]))
        = (Ref.run {} false ((readOutput s.out).map Event.ofLine)).grey := by
  rw [readOutput_out h]
  exact traceLoop_items (outLoop_traceLoop h) hstarts hcloses

theorem output_tells_edges_call :
    ∃ s, outLoop none {} [.bare 0xE8 { rip := 0x1000 }, .bare 0x050F { rax := 39 }, .bare 0xC3 {}]
        = some s ∧
      edgesOf (itemsOf (s.writes ++ [.brace]))
        = (Ref.run {} false ((readOutput s.out).map Event.ofLine)).edges ∧
      nodesWith "color".toList "grey".toList (itemsOf (s.writes ++ [.brace]))
        = (Ref.run {} false ((readOutput s.out).map Event.ofLine)).grey := by
  refine ⟨_, (Option.some_get (by decide +kernel)).symm, ?_⟩
  exact output_tells_edges (Option.some_get (by decide +kernel)).symm (by decide +kernel)
    (by decide +kernel)

end Ftrace
