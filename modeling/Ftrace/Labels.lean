/-
# The label of a step

What `format_dotfile` makes of the line of each kind of step.  A call has a line in three
parts: the header of `print_call`, the sixteen digits of the target, and what `resolve_symbol`
adds.  `format_dotfile` cuts the last character off, taking it for the newline; but it is
`resolve_symbol` that prints the newline, and it prints nothing for a null table or a null
address.  There the last DIGIT goes, and two functions become one node
(`callLabel_collision`).  `wholeLabel_iff` says that nothing else goes wrong.
-/
import Ftrace.Exec

namespace Ftrace

open CText Bytes Dot

/-! ## 1. What `resolve_symbol` adds -/

/-- Text without a NUL that does not end in a backslash. -/
structure Tail (t : Text) : Prop where
  nul_free : nul ∉ t
  ends : ∀ c, t.getLast? = some c → c ≠ '\\'

theorem Tail.nil : Tail [] := ⟨by simp, by simp⟩

theorem Tail.append {s t : Text} (hs : Tail s) (ht : Tail t) : Tail (s ++ t) := by
  refine ⟨fun h => (List.mem_append.mp h).elim hs.nul_free ht.nul_free, fun c hc => ?_⟩
  rw [List.getLast?_append] at hc
  cases hlast : t.getLast? with
  | some d =>
    rw [hlast] at hc
    exact ht.ends c (hlast.trans hc)
  | none =>
    rw [hlast] at hc
    exact hs.ends c hc

/-- A text that ends in a given character. -/
theorem Tail.concat {s : Text} {c : Char} (hs : nul ∉ s) (hc : c ≠ nul) (hc' : c ≠ '\\') :
    Tail (s ++ [c]) := by
  refine ⟨?_, fun d hd => ?_⟩
  · simp only [List.mem_append, List.mem_singleton, not_or]
    exact ⟨hs, hc.symm⟩
  · rw [List.getLast?_concat] at hd
    exact Option.some.inj hd ▸ hc'

theorem TSymbol.nul_not_mem_text (s : TSymbol) : nul ∉ s.text := by
  rw [TSymbol.text]
  split
  · exact nul_not_mem_cstr _
  · decide

theorem tail_printed (l : Loaded) : Tail l.printed := by
  cases l with
  | noSymbols =>
    have h : Loaded.noSymbols.printed = "No symbols".toList ++ ['\n'] := rfl
    rw [h]
    exact Tail.concat (by decide) (by decide) (by decide)
  | table t => exact Tail.nil
  | failed => exact Tail.nil

theorem tail_libTable (load : Loader) (listLib : List (Text × SymTab)) (lib : Text) :
    Tail (libTable load listLib lib).2.2 := by
  simp only [libTable]
  split
  · exact Tail.nil
  · split <;> exact tail_printed _

theorem tail_getLibLine (load : Loader) (addr baseElf : Word) (listLib : List (Text × SymTab))
    (str : Text) : Tail (getLibLine load addr baseElf listLib str).out := by
  simp only [getLibLine]
  split
  · rename_i lib _ hlib
    have htab := tail_libTable load listLib lib
    split
    · rename_i s _
      have hlib' : nul ∉ lib := (strchr_eq_some hlib).2
      refine Tail.concat (c := ')') ?_ (by decide) (by decide)
      simp only [List.mem_append, not_or]
      exact ⟨⟨⟨⟨htab.nul_free, by decide⟩, s.nul_not_mem_text⟩, by decide⟩, hlib'⟩
    · exact htab
  · exact Tail.nil

theorem tail_getLibLoop (load : Loader) (addr baseElf : Word) (n : ℕ) (fd : ℤ) (s : LibState)
    (reads : Reads) : Tail (getLibLoop load addr baseElf n fd s reads).out := by
  induction n generalizing s reads with
  | zero => exact Tail.nil
  | succ n ih =>
    simp only [getLibLoop]
    split
    · exact Tail.nil
    · split
      · exact tail_getLibLine ..
      · exact (tail_getLibLine ..).append (ih ..)

theorem tail_getLibFile (load : Loader) (addr baseElf : Word) (maps : Option MapsFile)
    (s : LibState) : Tail (getLibFile load addr baseElf maps s).out := by
  cases maps with
  | none => exact Tail.nil
  | some f => exact tail_getLibLoop ..

/-- What follows the address of a call: nothing, the names found in the executable, or the
outcome of the search through the libraries. -/
theorem resolveSymbol_out (load : Loader) (mem : Mem) (maps : Option MapsFile) (addr : Word)
    (symbols : Option SymTab) (s : LibState) :
    ((symbols = none ∨ addr = 0) ∧ (resolveSymbol load mem maps addr symbols 1 s).out = []) ∨
    (addr ≠ 0 ∧ ∃ t, symbols = some t ∧ t.at addr ≠ [] ∧
      (resolveSymbol load mem maps addr symbols 1 s).out = (t.at addr).flatMap symbolLine) ∨
    (addr ≠ 0 ∧ ∃ t, symbols = some t ∧ t.at addr = [] ∧
      ∃ out, Tail out ∧
        (resolveSymbol load mem maps addr symbols 1 s).out = " .....".toList ++ out ++ ['\n']) := by
  cases symbols with
  | none => exact .inl ⟨.inl rfl, rfl⟩
  | some t =>
    by_cases h0 : addr = 0
    · exact .inl ⟨.inr h0, by simp [resolveSymbol, h0]⟩
    · have hgo : ¬ (addr = 0 ∨ 1 = 0) := by
        rintro (h | h)
        · exact h0 h
        · cases h
      by_cases hat : t.at addr = []
      · refine .inr (.inr ⟨h0, t, rfl, hat, _,
          tail_getLibFile load addr (findHeader mem addr) maps s, ?_⟩)
        rw [resolveSymbol, if_neg hgo, if_neg (not_not.mpr hat)]
        rfl
      · refine .inr (.inl ⟨h0, t, rfl, hat, ?_⟩)
        rw [resolveSymbol, if_neg hgo, if_pos hat]

/-- The lines of the names at an address, without the last newline. -/
def namesText (syms : List TSymbol) : Text :=
  syms.dropLast.flatMap symbolLine ++ " ..... ".toList ++ (syms.getLast?.map TSymbol.text).getD []

theorem flatMap_symbolLine {syms : List TSymbol} (h : syms ≠ []) :
    syms.flatMap symbolLine = namesText syms ++ ['\n'] := by
  obtain ⟨init, s, rfl⟩ := (List.eq_nil_or_concat syms).resolve_left h
  have hs : [s].flatMap symbolLine = " ..... ".toList ++ s.text ++ ['\n'] :=
    List.flatMap_singleton ..
  rw [List.concat_eq_append, List.flatMap_append, hs, namesText, List.dropLast_concat,
    List.getLast?_concat, Option.map_some, Option.getD_some]
  simp only [List.append_assoc]

theorem nul_not_mem_symbolLine (s : TSymbol) : nul ∉ symbolLine s := by
  unfold symbolLine
  simp only [List.mem_append, not_or]
  exact ⟨⟨by decide, s.nul_not_mem_text⟩, by decide⟩

theorem nul_not_mem_namesText (syms : List TSymbol) : nul ∉ namesText syms := by
  simp only [namesText, List.mem_append, not_or]
  refine ⟨⟨?_, by decide⟩, ?_⟩
  · intro h
    obtain ⟨s, -, hs⟩ := List.mem_flatMap.mp h
    exact nul_not_mem_symbolLine s hs
  · cases syms.getLast? with
    | none => simp
    | some s => exact s.nul_not_mem_text

/-! ## 2. The line of a call -/

/-- A line without its final newline, if it has one. -/
def chomp (line : Text) : Text := if line.getLast? = some '\n' then line.dropLast else line

/-- The text of a reported call, up to what `resolve_symbol` adds. -/
theorem callText_step {st : Step} (hk : kind st.ret = .call) :
    CallText st.call.out st.call.addr := by
  refine callText_printCall ?_
  rw [printCall_aCall, if_pos (kind_of_call hk)]

theorem call_aCall {st : Step} (hk : kind st.ret = .call) : st.call.aCall = 1 := by
  rw [Step.call, printCall_aCall, if_pos (kind_of_call hk)]

/-- The forms of the line of a call: whole with its newline, or without one. -/
theorem callLine_forms {st : Step} (hk : kind st.ret = .call) (symbols : Option SymTab)
    (lib : LibState) :
    ∃ header rest, header.length = 41 ∧ header.head? = some 'c' ∧ nul ∉ header ∧ nul ∉ rest ∧
      (((symbols = none ∨ st.call.addr = 0) ∧ rest = [] ∧
          lineOf symbols lib st = header ++ ("0x".toList ++ hex16 st.call.addr)) ∨
        (symbols.isSome ∧ st.call.addr ≠ 0 ∧
          lineOf symbols lib st
            = header ++ ("0x".toList ++ hex16 st.call.addr) ++ rest ++ ['\n'] ∧
          ((∃ t ∈ symbols, t.at st.call.addr ≠ [] ∧ rest = namesText (t.at st.call.addr)) ∨
            (∃ t ∈ symbols, t.at st.call.addr = []) ∧ Tail rest))) := by
  obtain ⟨header, hout, hlen, hhead, hnul⟩ := (callText_step hk).eq
  have hline : lineOf symbols lib st = st.call.out ++
      (resolveSymbol st.load st.mem st.maps st.call.addr symbols 1 lib).out := by
    simp only [lineOf, hk, callLine, call_aCall hk]
  rw [hline, hout]
  rcases resolveSymbol_out st.load st.mem st.maps st.call.addr symbols lib with
    ⟨hnone, hr⟩ | ⟨h0, t, rfl, hat, hr⟩ | ⟨h0, t, rfl, hat, out, htail, hr⟩
  · exact ⟨header, [], hlen, hhead, hnul, by simp, .inl ⟨hnone, rfl, by rw [hr, List.append_nil]⟩⟩
  · refine ⟨header, namesText (t.at st.call.addr), hlen, hhead, hnul, nul_not_mem_namesText _,
      .inr ⟨rfl, h0, ?_, .inl ⟨t, rfl, hat, rfl⟩⟩⟩
    rw [hr, flatMap_symbolLine hat, List.append_assoc (header ++ _)]
  · have hdots : Tail (" ....".toList ++ ['.']) :=
      Tail.concat (by decide) (by decide) (by decide)
    refine ⟨header, " .....".toList ++ out, hlen, hhead, hnul, (hdots.append htail).nul_free,
      .inr ⟨rfl, h0, ?_, .inr ⟨⟨t, rfl, hat⟩, hdots.append htail⟩⟩⟩
    rw [hr, List.append_assoc (header ++ _), List.append_assoc " .....".toList]

/-- No line holds a NUL. -/
theorem nul_not_mem_lineOf (symbols : Option SymTab) (lib : LibState) (st : Step) :
    nul ∉ lineOf symbols lib st := by
  cases hk : kind st.ret with
  | syscall =>
    simp only [lineOf, hk, List.mem_append, not_or]
    refine ⟨by decide, ?_⟩
    by_cases hdef : SyscallDefined st.num
    · obtain ⟨t, ht, hline⟩ := dispSyscall_line hdef st.mem st.reg st.retSyscall
      rw [ht]
      exact hline.nul_free
    · rw [dispSyscall_undefined hdef]
      simp
  | ret =>
    simp only [lineOf, hk, List.mem_append, not_or]
    exact ⟨⟨by decide, nul_not_mem_hexUp _⟩, by decide⟩
  | call =>
    have h0x : nul ∉ "0x".toList := by decide
    have hnl : nul ∉ ['\n'] := by decide
    obtain ⟨header, rest, -, -, hh, hr, ⟨-, -, hl⟩ | ⟨-, -, hl, -⟩⟩ :=
      callLine_forms hk symbols lib
    · rw [hl]
      simp only [List.mem_append, not_or]
      exact ⟨hh, h0x, nul_not_mem_hex16 _⟩
    · rw [hl]
      simp only [List.mem_append, not_or]
      exact ⟨⟨⟨hh, h0x, nul_not_mem_hex16 _⟩, hr⟩, hnl⟩
  | quiet => simp [lineOf, hk]

/-! ## 3. The event of each kind of step -/

/-- The label `format_dotfile` makes of the line of a step. -/
def labelOf (symbols : Option SymTab) (lib : LibState) (st : Step) : Text :=
  deleteQuote (lineOf symbols lib st).dropLast

theorem eventOf_of_ne_nil {line : Text} (h : line ≠ []) (hnul : nul ∉ line) :
    eventOf line = some (Event.ofLabel (deleteQuote line.dropLast)) := by
  rw [eventOf, cstr_eq_self hnul, if_neg h]
  rfl

/-- A line by its first character: what the event of the line is. -/
theorem eventOf_lineOf {symbols : Option SymTab} {lib : LibState} {st : Step} {c d : Char}
    {u : Text} (h : lineOf symbols lib st = c :: d :: u) (hc : c ≠ '"') :
    eventOf (lineOf symbols lib st) = some (if c = '>' then .ret
      else if c = '@' then .syscall (labelOf symbols lib st)
      else .call (labelOf symbols lib st)) := by
  have hhead : (labelOf symbols lib st).head? = some c := by
    simp [labelOf, h, deleteQuote, hc]
  rw [eventOf_of_ne_nil (by rw [h]; exact List.cons_ne_nil _ _) (nul_not_mem_lineOf _ _ _),
    ← labelOf, Event.ofLabel, hhead]
  simp only [Option.some.injEq]

theorem eventOf_quiet {st : Step} (hk : kind st.ret = .quiet) (symbols : Option SymTab)
    (lib : LibState) : eventOf (lineOf symbols lib st) = none := by
  simp [eventOf, lineOf, hk]

theorem eventOf_ret {st : Step} (hk : kind st.ret = .ret) (symbols : Option SymTab)
    (lib : LibState) : eventOf (lineOf symbols lib st) = some .ret := by
  have h : lineOf symbols lib st = '>' :: '>' :: ("> return (0x".toList ++
      hexUp (getRax st.reg).toNat ++ ")\n".toList) := by
    simp only [lineOf, hk]
    rfl
  exact eventOf_lineOf h (by decide)

/-- The line of a call starts with `call`. -/
theorem lineOf_call {st : Step} (hk : kind st.ret = .call) (symbols : Option SymTab)
    (lib : LibState) : ∃ d u, lineOf symbols lib st = 'c' :: d :: u := by
  obtain ⟨header, rest, hlen, hhead, -, -, hl⟩ := callLine_forms hk symbols lib
  match header, hlen, hhead with
  | c :: d :: header, _, hhead =>
    obtain rfl : c = 'c' := by simpa using hhead
    rcases hl with ⟨-, -, hl⟩ | ⟨-, -, hl, -⟩
    · exact ⟨d, _, hl⟩
    · exact ⟨d, header ++ ("0x".toList ++ hex16 st.call.addr) ++ rest ++ ['\n'], hl⟩

theorem eventOf_call {st : Step} (hk : kind st.ret = .call) (symbols : Option SymTab)
    (lib : LibState) :
    eventOf (lineOf symbols lib st) = some (.call (labelOf symbols lib st)) := by
  obtain ⟨d, u, h⟩ := lineOf_call hk symbols lib
  exact eventOf_lineOf h (by decide)

theorem eventOf_syscall {st : Step} (hk : kind st.ret = .syscall) (hdef : SyscallDefined st.num)
    (symbols : Option SymTab) (lib : LibState) :
    eventOf (lineOf symbols lib st) = some (.syscall (labelOf symbols lib st)) := by
  obtain ⟨t, ht, hline⟩ := dispSyscall_line hdef st.mem st.reg st.retSyscall
  obtain ⟨body, c, rfl, -⟩ := hline.ends
  have h : lineOf symbols lib st = '@' :: (body ++ [c] ++ ['\n']) := by
    simp only [lineOf, hk, ht]
    rfl
  cases body with
  | nil => exact eventOf_lineOf (u := ['\n']) h (by decide)
  | cons d body => exact eventOf_lineOf (u := body ++ [c] ++ ['\n']) h (by decide)

/-- **An unknown syscall is taken for a call**: its line is the single character `@`, and that
is the one that is cut off. -/
theorem eventOf_syscall_undefined {st : Step} (hk : kind st.ret = .syscall)
    (hdef : ¬ SyscallDefined st.num) (symbols : Option SymTab) (lib : LibState) :
    eventOf (lineOf symbols lib st) = some (.call []) := by
  have h : lineOf symbols lib st = ['@'] := by
    simp only [lineOf, hk, dispSyscall_undefined hdef]
    rfl
  rw [h]
  decide

/-! ## 4. Which labels stay in their quotes -/

theorem pending_deleteQuote (b : Bool) (s : Text) : pending b (deleteQuote s) = pending b s := by
  induction s generalizing b with
  | nil => rfl
  | cons c s ih =>
    have hc : ((if c = '"' then '\'' else c) == '\\') = (c == '\\') := by
      split
      · rename_i h
        subst h
        rfl
      · rfl
    cases b with
    | true => exact ih false
    | false =>
      simp only [deleteQuote, List.map_cons, pending, hc]
      exact ih _

theorem Tail.pending {t : Text} (h : Tail t) (ht : t ≠ []) (b : Bool) : pending b t = false := by
  have hsplit := (List.dropLast_concat_getLast ht).symm
  rw [hsplit]
  exact pending_concat (h.ends _ (List.getLast?_eq_some_getLast ht)) b _

/-- The name that the label of this call ends in, if any, does not end in an unpaired
backslash. -/
def CalledNameCloses (symbols : Option SymTab) (st : Step) : Prop :=
  ∀ t ∈ symbols, st.call.addr ≠ 0 → ∀ s ∈ (t.at st.call.addr).getLast?, pending false s.text = false

instance (symbols : Option SymTab) (st : Step) : Decidable (CalledNameCloses symbols st) :=
  inferInstanceAs (Decidable (∀ t ∈ symbols, _))

theorem pending_namesText {syms : List TSymbol} (h : syms ≠ []) (b : Bool) :
    ∃ s ∈ syms.getLast?, pending b (namesText syms) = pending false s.text := by
  refine ⟨syms.getLast h, List.getLast?_eq_some_getLast h, ?_⟩
  have hdots : " ..... ".toList = " .....".toList ++ [' '] := rfl
  rw [namesText, List.getLast?_eq_some_getLast h, pending_append, hdots, ← List.append_assoc,
    pending_concat (by decide)]
  rfl

/-- **The label of a call stays in its quotes exactly if the name at its end does.** -/
theorem pending_label_call {st : Step} (hk : kind st.ret = .call) (symbols : Option SymTab)
    (lib : LibState) :
    pending false (labelOf symbols lib st) = false ↔ CalledNameCloses symbols st := by
  have hdigit : ∀ d < 16, hexDigit d ≠ '\\' := by decide
  rw [labelOf, pending_deleteQuote]
  obtain ⟨header, rest, -, -, -, -, ⟨hnone, -, hl⟩ | ⟨hsome, h0, hl, ⟨t, ht, hat, rfl⟩ |
    ⟨⟨t, ht, hat⟩, htail⟩⟩⟩ := callLine_forms hk symbols lib
  · -- the last digit of the address is cut off, and the one before it stays
    have hcloses : CalledNameCloses symbols st := by
      intro t ht h0
      rcases hnone with rfl | h
      · cases ht
      · exact absurd h h0
    refine iff_of_true ?_ hcloses
    have h16 : hex16 st.call.addr = (List.range 14).map (fun i => hexDigit (nibble st.call.addr
        (15 - i))) ++ [hexDigit (nibble st.call.addr 1)] ++ [hexDigit (nibble st.call.addr 0)] :=
      rfl
    rw [hl, h16, ← List.append_assoc, ← List.append_assoc, List.dropLast_concat,
      ← List.append_assoc]
    exact pending_concat (hdigit _ (nibble_lt _ _)) _ _
  · obtain ⟨s, hs, hp⟩ := pending_namesText hat
      (pending false (header ++ ("0x".toList ++ hex16 st.call.addr)))
    rw [hl, List.dropLast_concat, pending_append, hp]
    refine ⟨fun h t' ht' _ s' hs' => ?_, fun h => h t ht h0 s hs⟩
    obtain rfl := Option.some.inj (ht.symm.trans ht')
    obtain rfl := Option.some.inj (hs.symm.trans hs')
    exact h
  · have hcloses : CalledNameCloses symbols st := by
      intro t' ht' _ s hs
      obtain rfl := Option.some.inj (ht.symm.trans ht')
      rw [hat] at hs
      cases hs
    refine iff_of_true ?_ hcloses
    have hhex : Tail (hex16 st.call.addr) := by
      refine ⟨nul_not_mem_hex16 _, fun c hc => ?_⟩
      obtain ⟨i, -, rfl⟩ := List.mem_map.mp (List.mem_of_getLast? hc)
      exact hdigit _ (nibble_lt _ _)
    have hne : hex16 st.call.addr ++ rest ≠ [] := by
      intro h
      have hlen := congrArg List.length h
      simp at hlen
    rw [hl, List.dropLast_concat, List.append_assoc, List.append_assoc, pending_append,
      pending_append]
    exact (hhex.append htail).pending hne _

theorem pending_label_syscall {st : Step} (hk : kind st.ret = .syscall)
    (hdef : SyscallDefined st.num) (symbols : Option SymTab) (lib : LibState) :
    pending false (labelOf symbols lib st) = false := by
  obtain ⟨t, ht, hline⟩ := dispSyscall_line hdef st.mem st.reg st.retSyscall
  obtain ⟨body, c, rfl, hc⟩ := hline.ends
  have h : lineOf symbols lib st = ("@".toList ++ body) ++ [c] ++ ['\n'] := by
    simp only [lineOf, hk, ht, Option.getD_some, List.append_assoc]
  rw [labelOf, pending_deleteQuote, h, List.dropLast_concat]
  exact pending_concat hc _ _

/-! ## 5. Whole labels -/

/-- The tracer after a call. -/
theorem after_call {st : Step} (hk : kind st.ret = .call) (symbols : Option SymTab) (s : Tracer) :
    (s.after symbols st).dot.listFunc = labelOf symbols s.lib st :: s.dot.listFunc ∧
      (s.after symbols st).writes.getLast? = some (.node (labelOf symbols s.lib st)) := by
  simp only [Tracer.after, eventOf_call hk, writeEvent, formatEvent, pushFunction]
  refine ⟨trivial, ?_⟩
  rw [← List.append_assoc, List.getLast?_concat]

/-- The step pushes this label and writes it as a node, and the label is the whole printed
line but for its final newline: it still has the sixteen digits of the target. -/
structure WholeLabel (symbols : Option SymTab) (s : Tracer) (st : Step) (label : Text) : Prop where
  written : ∃ s', printInstruction symbols s st = some s' ∧
    s'.dot.listFunc = label :: s.dot.listFunc ∧ s'.writes.getLast? = some (.node label)
  whole : ∃ line, getinstruction symbols s.lib st = some line ∧
    label = deleteQuote (chomp line.out)
  digits : (label.drop 43).take 16 = hex16 st.call.addr

theorem deleteQuote_hex16 (w : Word) : deleteQuote (hex16 w) = hex16 w :=
  deleteQuote_eq_self fun h => (mem_hex16_ne h).1 rfl

/-- The digits of the target in a label that has the header and the address. -/
theorem digits_of_header {header : Text} (hlen : header.length = 41) (addr : Word) (rest : Text) :
    ((deleteQuote (header ++ ("0x".toList ++ hex16 addr) ++ rest)).drop 43).take 16
      = hex16 addr := by
  have hsplit : deleteQuote (header ++ ("0x".toList ++ hex16 addr) ++ rest)
      = deleteQuote (header ++ "0x".toList) ++ (hex16 addr ++ deleteQuote rest) := by
    simp only [deleteQuote_append, deleteQuote_hex16, List.append_assoc]
  have h43 : (deleteQuote (header ++ "0x".toList)).length = 43 := by
    rw [length_deleteQuote, List.length_append, hlen]
    rfl
  rw [hsplit, List.drop_left' h43, List.take_left' (length_hex16 addr)]

/-- A target printed without a newline loses its last digit. -/
theorem label_short {header : Text} (addr : Word) :
    deleteQuote (header ++ ("0x".toList ++ hex16 addr)).dropLast
      ≠ deleteQuote (chomp (header ++ ("0x".toList ++ hex16 addr))) := by
  have hlast : (header ++ ("0x".toList ++ hex16 addr)).getLast? ≠ some '\n' := by
    intro h
    have hmem : '\n' ∈ hex16 addr := by
      have hne : hex16 addr ≠ [] := by
        intro hnil
        simpa [hnil] using length_hex16 addr
      rw [← List.append_assoc, List.getLast?_append, List.getLast?_eq_some_getLast hne] at h
      exact Option.some.inj h ▸ List.getLast_mem hne
    obtain ⟨i, -, hi⟩ := List.mem_map.mp hmem
    have hdigit : ∀ d < 16, hexDigit d ≠ '\n' := by decide
    exact hdigit _ (nibble_lt _ _) hi
  intro h
  have hlen := congrArg List.length h
  rw [chomp, if_neg hlast, length_deleteQuote, length_deleteQuote, List.length_dropLast] at hlen
  simp only [List.length_append, length_hex16] at hlen
  omega

/-- **The label of a call is its whole line exactly if there is a symbol table and the target
is not the null address** (and the line fits the buffer); labels that are whole differ where
the targets do. -/
theorem wholeLabel_iff (symbols : Option SymTab) (s : Tracer) (st : Step)
    (h : IsCallWord st.ret) :
    ((∃ label, WholeLabel symbols s st label) ↔
      Fits symbols s.lib st ∧ symbols ≠ none ∧ st.call.addr ≠ 0) ∧
    ∀ label, WholeLabel symbols s st label →
      ∀ symbols' s' st' label', WholeLabel symbols' s' st' label' →
        st.call.addr ≠ st'.call.addr → label ≠ label' := by
  have hk := kind_of_isCallWord h
  have hg := guard_of_isCallWord h
  refine ⟨⟨?_, ?_⟩, ?_⟩
  · rintro ⟨label, ⟨s', hs', hstack, -⟩, ⟨line, hline, hwhole⟩, -⟩
    obtain ⟨-, hfits, rfl⟩ := (printInstruction_cases hs').resolve_left (by simp [hg])
    rw [getinstruction_eq hg] at hline
    obtain rfl := Option.some.inj hline
    obtain rfl : labelOf symbols s.lib st = label :=
      (List.cons.inj ((after_call hk symbols s).1.symm.trans hstack)).1
    refine ⟨hfits, ?_⟩
    obtain ⟨header, rest, -, -, -, -, ⟨-, -, hl⟩ | ⟨hsome, h0, -, -⟩⟩ :=
      callLine_forms hk symbols s.lib
    · rw [labelOf, hl] at hwhole
      exact absurd hwhole (label_short _)
    · exact ⟨Option.isSome_iff_ne_none.mp hsome, h0⟩
  · rintro ⟨hfits, hsome, h0⟩
    obtain ⟨hstack, hlast⟩ := after_call hk symbols s
    obtain ⟨header, rest, hlen, -, -, -, ⟨hnone, -, -⟩ | ⟨-, -, hl, -⟩⟩ :=
      callLine_forms hk symbols s.lib
    · exact (hnone.elim hsome h0).elim
    · refine ⟨labelOf symbols s.lib st, ⟨_, ?_, hstack, hlast⟩, ⟨_, getinstruction_eq hg .., ?_⟩, ?_⟩
      · rw [printInstruction_of_guard hg, if_pos hfits]
      · have hnl : (lineOf symbols s.lib st).getLast? = some '\n' := by
          rw [hl, List.getLast?_concat]
        simp only [labelOf, chomp, hnl, if_true]
      · rw [labelOf, hl, List.dropLast_concat]
        exact digits_of_header hlen _ _
  · rintro label hl symbols' s' st' label' hl' hne rfl
    have hhex : hex16 st.call.addr = hex16 st'.call.addr := hl.digits.symm.trans hl'.digits
    exact hne (hex16_inj hhex)

/-- A relative call to 0x1005, with an empty symbol table. -/
theorem wholeLabel_iff_relative :
    let symbols : Option SymTab := some ⟨[⟨0x1005, 84, some "main".toList⟩, ⟨0, 0, none⟩], rfl⟩
    ∃ label, WholeLabel symbols {} (.bare 0xE8 { rip := 0x1000 }) label :=
  ((wholeLabel_iff _ {} (.bare 0xE8 { rip := 0x1000 }) (by decide)).1).mpr
    ⟨by decide +kernel, by simp, by decide +kernel⟩

/-- **Two functions, one node**: without a symbol table, calls to 0x1005 and to 0x1006 push the
same label. -/
theorem callLabel_collision :
    (printInstruction none {} (.bare 0xE8 { rip := 0x1000 })).map (fun s => s.dot.listFunc)
        = some ["call (relative):........................ 0x000000000000100".toList] ∧
      (printInstruction none {} (.bare 0xE8 { rip := 0x1001 })).map (fun s => s.dot.listFunc)
        = some ["call (relative):........................ 0x000000000000100".toList] ∧
      (Step.bare 0xE8 { rip := 0x1000 }).call.addr
        ≠ (Step.bare 0xE8 { rip := 0x1001 }).call.addr := by
  decide +kernel

end Ftrace
