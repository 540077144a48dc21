/-
# Well-formedness of `graph.dot`

The file is written in pieces by three functions: the head by `open_dotfile` at the first step
that passes the guard, nodes and arrows by `format_dotfile`, the closing brace by `trace_son`.
`graphOk_iff` says for which runs a reader finds a graph in it.  There are two ways to spoil
it, and no others.

* The flag `first` is set by the first step that passes the guard, also if that step prints
  nothing (`Kind.quiet`).  The first node is then written with an arrow in front of it and no
  node in front of the arrow, unless a return comes before it and breaks the chain
  (`arrow_without_source`).
* A label may end in a backslash, from the name of a symbol, and takes its closing quote with
  it (`label_escapes`).
-/
import Ftrace.Labels

namespace Ftrace

open CText Bytes Dot

/-! ## 1. Labels that are closed -/

/-- The bytes of a call with a label: the label in quotes, with at most a newline before. -/
theorem Write.bytes_of_label {w : Write} {l : Text} (h : w.label? = some l) :
    ∃ pre post, w.bytes = pre ++ ('"' :: l ++ '"' :: post) ∧ Lexes pre [] := by
  have hnl : Lexes ['\n'] [] := by decide
  cases w with
  | node m =>
    obtain rfl := Option.some.inj h
    exact ⟨[], [], rfl, Lexes.nil⟩
  | parent m =>
    obtain rfl := Option.some.inj h
    exact ⟨['\n'], [' '], congrArg (fun t => '\n' :: '"' :: t) (List.append_assoc m ['"'] [' ']), hnl⟩
  | grey m =>
    obtain rfl := Option.some.inj h
    exact ⟨['\n'], " [color=grey]".toList,
      congrArg (fun t => '\n' :: '"' :: t) (List.append_assoc m ['"'] " [color=grey]".toList), hnl⟩
  | _ => cases h

/-- A file in which no label holds a quote, and which is read to its end without reading a
quote inside a label, has closed labels only. -/
theorem closed_of_read {ws : List Write}
    (hq : ∀ w ∈ ws, ∀ l, w.label? = some l → '"' ∉ l)
    (hend : (lex .blank (written ws)).1 = .blank)
    (hread : ∀ q ∈ quotedOf (lex .blank (written ws)).2, '"' ∉ q) :
    ∀ w ∈ ws, w.Closed := by
  induction ws with
  | nil => intro w hw; cases hw
  | cons w ws ih =>
    have hqw := hq w List.mem_cons_self
    have hw : w.Closed := by
      intro l hl
      refine ⟨hqw l hl, ?_⟩
      by_contra hp
      rw [Bool.not_eq_false] at hp
      obtain ⟨pre, post, hbytes, hpre⟩ := Write.bytes_of_label hl
      have hlex : lex .blank (written (w :: ws))
          = lex .blank ('"' :: l ++ '"' :: (post ++ written ws)) := by
        have hsplit : written (w :: ws) = pre ++ ('"' :: l ++ '"' :: (post ++ written ws)) := by
          rw [written, List.flatMap_cons, hbytes, List.append_assoc, List.append_assoc]
          rfl
        rw [hsplit, lex_append, hpre]
        simp only [List.nil_append]
      rw [hlex] at hend hread
      obtain ⟨q, hq, hquote⟩ := mem_quotedOf_of_pending (hqw l hl) hp hend
      exact hread q hq hquote
    have hrest : lex .blank (written (w :: ws))
        = ((lex .blank (written ws)).1, w.tokens ++ (lex .blank (written ws)).2) := by
      have hcons : written (w :: ws) = w.bytes ++ written ws := List.flatMap_cons ..
      rw [hcons, lex_append, Write.lexes hw]
    rw [hrest] at hend hread
    intro v hv
    rcases List.mem_cons.mp hv with rfl | hv
    · exact hw
    · refine ih (fun v hv => hq v (List.mem_cons_of_mem _ hv)) hend (fun q hq' => ?_) v hv
      rw [quotedOf_append] at hread
      exact hread q (List.mem_append_right _ hq')

/-- The labels among the tokens are those of the calls. -/
theorem quotedOf_tokensOf (ws : List Write) : quotedOf (tokensOf ws) = ws.filterMap Write.label? := by
  induction ws with
  | nil => rfl
  | cons w ws ih =>
    have hcons : tokensOf (w :: ws) = w.tokens ++ tokensOf ws := List.flatMap_cons ..
    rw [hcons, quotedOf_append, ih]
    cases w <;> rfl

/-! ## 2. The labels of a run -/

/-- The labels a step writes and pushes are its own, those on the stack, and `U n K`. -/
theorem after_labels {Q : Text → Prop} (hunk : Q "U n K".toList) {symbols : Option SymTab}
    {s : Tracer} {st : Step} (hw : ∀ w ∈ s.writes, ∀ l, w.label? = some l → Q l)
    (hs : ∀ l ∈ s.dot.listFunc, Q l)
    (he : ∀ e l, eventOf (lineOf symbols s.lib st) = some e → e.label? = some l → Q l) :
    (∀ w ∈ (s.after symbols st).writes, ∀ l, w.label? = some l → Q l) ∧
      ∀ l ∈ (s.after symbols st).dot.listFunc, Q l := by
  have hopen : ∀ w ∈ (if s.first then [] else openDotfile), ∀ l, w.label? = some l → Q l := by
    intro w hw l hl
    split at hw
    · cases hw
    · simp only [openDotfile, List.mem_cons, List.not_mem_nil, or_false] at hw
      rcases hw with rfl | rfl <;> cases hl
  have hold : ∀ w ∈ s.writes ++ (if s.first then [] else openDotfile),
      ∀ l, w.label? = some l → Q l := by
    intro w hmem
    exact (List.mem_append.mp hmem).elim (hw w) (hopen w)
  simp only [Tracer.after]
  cases hev : eventOf (lineOf symbols s.lib st) with
  | none =>
    simp only [writeEvent, List.append_nil]
    exact ⟨hold, hs⟩
  | some e =>
    obtain ⟨hnew, hstack⟩ := formatEvent_labels hunk hs s.first (fun l hl => he e l hev hl)
    refine ⟨fun w hmem => ?_, hstack⟩
    exact (List.mem_append.mp hmem).elim (hold w) (hnew w)

/-- No label of a run holds a quote. -/
theorem run_no_quote {symbols : Option SymTab} {s : Tracer} {steps : List Step}
    (h : traceLoop symbols {} steps = some s) :
    ∀ w ∈ s.writes, ∀ l, w.label? = some l → '"' ∉ l := by
  refine (traceLoop_inv (P := fun s => (∀ w ∈ s.writes, ∀ l, w.label? = some l → '"' ∉ l) ∧
    ∀ l ∈ s.dot.listFunc, '"' ∉ l) (fun s s' st _ hs hst => ?_) h ⟨?_, ?_⟩).1
  · rcases printInstruction_cases hst with ⟨-, rfl⟩ | ⟨-, -, rfl⟩
    · exact hs
    · refine after_labels (by decide) hs.1 hs.2 ?_
      intro e l he hl
      unfold eventOf at he
      split at he
      · cases he
      · obtain rfl := Option.some.inj he
        rw [Event.label?_ofLabel hl]
        exact quote_not_mem_deleteQuote _
  · simp
  · simp

/-- The label of a step that is a call ends in a closed name. -/
def StepCloses (symbols : Option SymTab) (st : Step) : Prop :=
  IsCallWord st.ret → CalledNameCloses symbols st

instance (symbols : Option SymTab) (st : Step) : Decidable (StepCloses symbols st) :=
  inferInstanceAs (Decidable (_ → _))

/-- The label of the event of a step is closed if the name it ends in is. -/
theorem closed_of_event {symbols : Option SymTab} {lib : LibState} {st : Step}
    (hst : StepCloses symbols st) {e : Event} {l : Text}
    (he : eventOf (lineOf symbols lib st) = some e) (hl : e.label? = some l) : Dot.Closed l := by
  cases hk : kind st.ret with
  | syscall =>
    by_cases hdef : SyscallDefined st.num
    · rw [eventOf_syscall hk hdef] at he
      obtain rfl := Option.some.inj he
      obtain rfl := Option.some.inj hl
      exact ⟨quote_not_mem_deleteQuote _, pending_label_syscall hk hdef symbols lib⟩
    · rw [eventOf_syscall_undefined hk hdef] at he
      obtain rfl := Option.some.inj he
      obtain rfl := Option.some.inj hl
      decide
  | ret =>
    rw [eventOf_ret hk] at he
    obtain rfl := Option.some.inj he
    cases hl
  | call =>
    rw [eventOf_call hk] at he
    obtain rfl := Option.some.inj he
    obtain rfl := Option.some.inj hl
    exact ⟨quote_not_mem_deleteQuote _,
      (pending_label_call hk symbols lib).mpr (hst (kind_of_call hk))⟩
  | quiet =>
    rw [eventOf_quiet hk] at he
    cases he

theorem run_closed {symbols : Option SymTab} {s : Tracer} {steps : List Step}
    (h : traceLoop symbols {} steps = some s) (hst : ∀ st ∈ steps, StepCloses symbols st) :
    ∀ w ∈ s.writes, w.Closed := by
  refine (traceLoop_inv (P := fun s => (∀ w ∈ s.writes, w.Closed) ∧
    ∀ l ∈ s.dot.listFunc, Dot.Closed l) (fun s s' st hmem hs hstep => ?_) h ⟨?_, ?_⟩).1
  · rcases printInstruction_cases hstep with ⟨-, rfl⟩ | ⟨-, -, rfl⟩
    · exact hs
    · exact after_labels closed_unk hs.1 hs.2 fun e l he hl => closed_of_event (hst st hmem) he hl
  · simp
  · simp

/-- What has been written stays. -/
theorem writes_grow {symbols : Option SymTab} {s s' : Tracer} {steps : List Step}
    (h : traceLoop symbols s steps = some s') : s.writes <+: s'.writes := by
  refine traceLoop_inv (P := fun t => s.writes <+: t.writes) (fun t t' st _ ht hst => ?_) h
    (List.prefix_refl _)
  rcases printInstruction_cases hst with ⟨-, rfl⟩ | ⟨-, -, rfl⟩
  · exact ht
  · exact ht.trans ⟨_, (List.append_assoc ..).symm⟩

/-- Every call of a run is written as a node, so its label is closed only if the name it ends
in is. -/
theorem closes_of_closed {symbols : Option SymTab} {s s' : Tracer} {steps : List Step}
    (h : traceLoop symbols s steps = some s') (hw : ∀ w ∈ s'.writes, w.Closed) :
    ∀ st ∈ steps, StepCloses symbols st := by
  induction steps generalizing s with
  | nil => intro st hst; cases hst
  | cons st sts ih =>
    obtain ⟨s₁, h₁, h₂⟩ := Option.bind_eq_some_iff.mp h
    intro st' hmem
    rcases List.mem_cons.mp hmem with rfl | hmem
    · intro hcall
      have hk := kind_of_isCallWord hcall
      obtain ⟨-, -, rfl⟩ := (printInstruction_cases h₁).resolve_left
        (by simp [guard_of_isCallWord hcall])
      have hnode := List.mem_of_getLast? (after_call hk symbols s).2
      exact (pending_label_call hk symbols s.lib).mp
        (hw _ ((writes_grow h₂).subset hnode) _ rfl).2
    · exact ih h₂ st' hmem

/-! ## 3. Where the parser stands -/

/-- The parser after what a tracer has written. -/
def Tracer.phase (s : Tracer) : Phase := (parse .start (tokensOf s.writes)).1

/-- Only the head of the file is written, and `first` is set: nothing but quiet steps. -/
structure Primed (s : Tracer) : Prop where
  first : s.first = true
  dot : s.dot = {}
  writes : s.writes = openDotfile

/-- A node has been written, or the chain is broken so that the next node brings its parent
along. -/
structure Running (s : Tracer) : Prop where
  first : s.first = true
  inv : DotInv s.dot true s.phase

theorem phase_openDotfile : parse .start (tokensOf openDotfile) = (.stmt, []) := by
  decide +kernel

theorem phase_append (ws vs : List Write) :
    (parse .start (tokensOf (ws ++ vs))).1
      = (parse (parse .start (tokensOf ws)).1 (tokensOf vs)).1 := by
  rw [tokensOf_append, parse_append]

theorem eventOf_eq_none_iff {symbols : Option SymTab} {lib : LibState} {st : Step} :
    eventOf (lineOf symbols lib st) = none ↔ kind st.ret = .quiet := by
  refine ⟨fun h => ?_, fun h => eventOf_quiet h symbols lib⟩
  cases hk : kind st.ret with
  | syscall =>
    by_cases hdef : SyscallDefined st.num
    · rw [eventOf_syscall hk hdef] at h
      cases h
    · rw [eventOf_syscall_undefined hk hdef] at h
      cases h
  | ret =>
    rw [eventOf_ret hk] at h
    cases h
  | call =>
    rw [eventOf_call hk] at h
    cases h
  | quiet => rfl

theorem eventOf_eq_ret_iff {symbols : Option SymTab} {lib : LibState} {st : Step} :
    eventOf (lineOf symbols lib st) = some .ret ↔ kind st.ret = .ret := by
  refine ⟨fun h => ?_, fun h => eventOf_ret h symbols lib⟩
  cases hk : kind st.ret with
  | syscall =>
    by_cases hdef : SyscallDefined st.num
    · rw [eventOf_syscall hk hdef] at h
      cases h
    · rw [eventOf_syscall_undefined hk hdef] at h
      cases h
  | ret => rfl
  | call =>
    rw [eventOf_call hk] at h
    cases h
  | quiet =>
    rw [eventOf_quiet hk] at h
    cases h

/-- **A running graph stays one**, whatever comes. -/
theorem Running.after {s : Tracer} (h : Running s) (symbols : Option SymTab) (st : Step) :
    Running (s.after symbols st) := by
  refine ⟨rfl, ?_⟩
  simp only [Tracer.phase, Tracer.after, h.first, if_true, List.append_nil]
  cases hev : eventOf (lineOf symbols s.lib st) with
  | none =>
    simp only [writeEvent, List.append_nil]
    exact h.inv
  | some e =>
    obtain ⟨p, is, hp, hinv, -, -⟩ := formatEvent_step h.inv e
    rw [phase_append]
    simp only [writeEvent]
    unfold Tracer.phase at hp
    rw [hp]
    exact hinv

/-- The first step that passes the guard, if it prints: the graph runs. -/
theorem running_of_fresh {symbols : Option SymTab} {lib : LibState} {st : Step}
    (hk : kind st.ret ≠ .quiet) : Running (Tracer.after { lib := lib } symbols st) := by
  refine ⟨rfl, ?_⟩
  obtain ⟨e, hev⟩ : ∃ e, eventOf (lineOf symbols lib st) = some e :=
    Option.ne_none_iff_exists'.mp (mt eventOf_eq_none_iff.mp hk)
  obtain ⟨p, is, hp, hinv, -, -⟩ := formatEvent_step DotInv.init e
  simp only [Tracer.phase, Tracer.after, hev, writeEvent, List.nil_append, Bool.false_eq_true,
    if_false]
  rw [phase_append, phase_openDotfile, hp]
  exact hinv

theorem primed_of_fresh {symbols : Option SymTab} {lib : LibState} {st : Step}
    (hk : kind st.ret = .quiet) : Primed (Tracer.after { lib := lib } symbols st) := by
  have hev := eventOf_quiet hk symbols lib
  exact ⟨rfl, by simp only [Tracer.after, hev, writeEvent],
    by simp [Tracer.after, hev, writeEvent]⟩

theorem Primed.after_quiet {s : Tracer} (h : Primed s) {symbols : Option SymTab} {st : Step}
    (hk : kind st.ret = .quiet) : Primed (s.after symbols st) := by
  have hev := eventOf_quiet hk symbols s.lib
  refine ⟨rfl, ?_, ?_⟩
  · simp only [Tracer.after, hev, writeEvent]
    exact h.dot
  · simp only [Tracer.after, hev, writeEvent, h.first, if_true, List.append_nil]
    exact h.writes

/-- A return breaks the chain before it has begun. -/
theorem Primed.after_ret {s : Tracer} (h : Primed s) {symbols : Option SymTab} {st : Step}
    (hk : kind st.ret = .ret) : Running (s.after symbols st) := by
  have hev := eventOf_ret hk symbols s.lib
  refine ⟨rfl, ?_⟩
  simp only [Tracer.phase, Tracer.after, hev, writeEvent, formatEvent, h.first, if_true,
    List.append_nil]
  rw [h.writes, phase_openDotfile]
  exact ⟨.inl rfl, fun hr => by cases hr⟩

/-- **An arrow without a source**: the first node after quiet steps only. -/
theorem Primed.after_node {s : Tracer} (h : Primed s) {symbols : Option SymTab} {st : Step}
    (hk : kind st.ret ≠ .quiet) (hk' : kind st.ret ≠ .ret) : (s.after symbols st).phase = .bad := by
  obtain ⟨e, hev⟩ : ∃ e, eventOf (lineOf symbols s.lib st) = some e :=
    Option.ne_none_iff_exists'.mp (mt eventOf_eq_none_iff.mp hk)
  have hret : e ≠ .ret := by
    rintro rfl
    exact hk' (eventOf_eq_ret_iff.mp hev)
  have harrow : parseStep .stmt .arrow = (.bad, []) := rfl
  simp only [Tracer.phase, Tracer.after, hev, writeEvent, h.first, if_true, List.append_nil,
    h.writes, h.dot]
  rw [phase_append, phase_openDotfile]
  cases e with
  | call l => exact congrArg Prod.fst (parse_cons harrow [.quoted l])
  | syscall l =>
    refine (congrArg Prod.fst (parse_cons harrow (.quoted l :: Write.tokens (.grey l)))).trans ?_
    exact parse_bad _
  | ret => exact absurd rfl hret

/-! ## 4. How a run starts -/

/-- The steps that pass the guard. -/
def accepted (steps : List Step) : List Step := steps.filter fun st => guard st.ret

/-- A run of quiet steps at the start is followed by a return, or by nothing. -/
def QuietThenRet (sts : List Step) : Prop :=
  ∀ st ∈ sts.find? fun st => kind st.ret ≠ .quiet, kind st.ret = .ret

instance (sts : List Step) : Decidable (QuietThenRet sts) :=
  inferInstanceAs (Decidable (∀ st ∈ sts.find? _, _))

/-- The first step that passes the guard prints a line, or the first line that is printed is
that of a return. -/
def StartsWell (steps : List Step) : Prop :=
  (∃ st ∈ (accepted steps).head?, kind st.ret ≠ .quiet) ∨ QuietThenRet (accepted steps)

instance (steps : List Step) : Decidable (StartsWell steps) :=
  inferInstanceAs (Decidable ((∃ st ∈ (accepted steps).head?, _) ∨ _))

theorem traceLoop_running {symbols : Option SymTab} {s s' : Tracer} {steps : List Step}
    (h : traceLoop symbols s steps = some s') (hs : Running s) : Running s' := by
  refine traceLoop_inv (P := Running) (fun t t' st _ ht hst => ?_) h hs
  rcases printInstruction_cases hst with ⟨-, rfl⟩ | ⟨-, -, rfl⟩
  · exact ht
  · exact ht.after symbols st

theorem traceLoop_bad {symbols : Option SymTab} {s s' : Tracer} {steps : List Step}
    (h : traceLoop symbols s steps = some s') (hs : s.phase = .bad) : s'.phase = .bad := by
  obtain ⟨ws, hws⟩ := writes_grow h
  rw [Tracer.phase, ← hws, phase_append]
  unfold Tracer.phase at hs
  rw [hs, parse_bad]

/-- **From a primed state**: the graph comes to run exactly if a return comes first. -/
theorem traceLoop_primed {symbols : Option SymTab} {s s' : Tracer} {steps : List Step}
    (h : traceLoop symbols s steps = some s') (hs : Primed s) :
    if QuietThenRet (accepted steps) then Primed s' ∨ Running s' else s'.phase = .bad := by
  induction steps generalizing s with
  | nil =>
    obtain rfl := Option.some.inj h
    exact .inl hs
  | cons st sts ih =>
    obtain ⟨s₁, h₁, h₂⟩ := Option.bind_eq_some_iff.mp h
    rcases printInstruction_cases h₁ with ⟨hg, rfl⟩ | ⟨hg, -, rfl⟩
    · have hacc : accepted (st :: sts) = accepted sts := by simp [accepted, hg]
      rw [hacc]
      exact ih h₂ hs
    · have hacc : accepted (st :: sts) = st :: accepted sts := by simp [accepted, hg]
      by_cases hk : kind st.ret = .quiet
      · have hskip : QuietThenRet (accepted (st :: sts)) ↔ QuietThenRet (accepted sts) := by
          simp [QuietThenRet, hacc, hk]
        rw [if_congr hskip rfl rfl]
        exact ih h₂ (hs.after_quiet hk)
      · have hfirst : QuietThenRet (accepted (st :: sts)) ↔ kind st.ret = .ret := by
          simp [QuietThenRet, hacc, hk]
        rw [if_congr hfirst rfl rfl]
        split
        · rename_i hk'
          exact .inr (traceLoop_running h₂ (hs.after_ret hk'))
        · rename_i hk'
          exact traceLoop_bad h₂ (hs.after_node hk hk')

/-- **From the start**: as soon as some step passes the guard, the file is a graph that only
lacks its closing brace exactly if the run starts well. -/
theorem traceLoop_start {symbols : Option SymTab} {s' : Tracer} {steps : List Step}
    (h : traceLoop symbols {} steps = some s') (hacc : ∃ st ∈ steps, guard st.ret = true) :
    if StartsWell steps then Primed s' ∨ Running s' else s'.phase = .bad := by
  induction steps with
  | nil => obtain ⟨st, hst, -⟩ := hacc; cases hst
  | cons st sts ih =>
    obtain ⟨s₁, h₁, h₂⟩ := Option.bind_eq_some_iff.mp h
    rcases printInstruction_cases h₁ with ⟨hg, rfl⟩ | ⟨hg, -, rfl⟩
    · have haccepted : accepted (st :: sts) = accepted sts := by simp [accepted, hg]
      have hstarts : StartsWell (st :: sts) ↔ StartsWell sts := by
        rw [StartsWell, haccepted, StartsWell]
      rw [if_congr hstarts rfl rfl]
      refine ih h₂ ?_
      obtain ⟨st', hmem, hg'⟩ := hacc
      rcases List.mem_cons.mp hmem with rfl | hmem
      · rw [hg] at hg'
        cases hg'
      · exact ⟨st', hmem, hg'⟩
    · have haccepted : accepted (st :: sts) = st :: accepted sts := by simp [accepted, hg]
      by_cases hk : kind st.ret = .quiet
      · have hstarts : StartsWell (st :: sts) ↔ QuietThenRet (accepted sts) := by
          simp [StartsWell, QuietThenRet, haccepted, hk]
        rw [if_congr hstarts rfl rfl]
        exact traceLoop_primed h₂ (primed_of_fresh hk)
      · have hstarts : StartsWell (st :: sts) := by
          refine .inl ⟨st, ?_, hk⟩
          rw [haccepted]
          rfl
        rw [if_pos hstarts]
        exact .inr (traceLoop_running h₂ (running_of_fresh hk))

/-! ## 5. Well-formed files -/

/-- The text of the file is a well-formed graph, every arrow in it stands between two quoted
identifiers, and the quoted identifiers are the labels that were written, each closed by its
own quote. -/
structure GraphOk (ws : List Write) : Prop where
  wellFormed : WellFormed (written ws)
  arrows : ArrowsQuoted (lex .blank (written ws)).2
  labels : quotedOf (lex .blank (written ws)).2 = ws.filterMap Write.label?

/-- With closed labels, the file is a graph exactly if the parser reaches its end. -/
theorem graphOk_of_closed {ws : List Write} (h : ∀ w ∈ ws, w.Closed) :
    GraphOk ws ↔ (parse .start (tokensOf ws)).1 = .done := by
  have hlex : lex .blank (written ws) = (.blank, tokensOf ws) := lexes_written h
  constructor
  · intro hok
    have hdone := hok.wellFormed.2
    rwa [hlex] at hdone
  · intro hdone
    refine ⟨?_, ?_, ?_⟩
    · rw [WellFormed, hlex]
      exact ⟨rfl, hdone⟩
    · rw [hlex]
      exact arrows_quoted hdone
    · rw [hlex]
      exact quotedOf_tokensOf ws

/-- The closing brace after a settled statement. -/
theorem done_of_settled {ws : List Write} (h : (parse .start (tokensOf ws)).1.Settled) :
    (parse .start (tokensOf (ws ++ [.brace]))).1 = .done := by
  rw [phase_append]
  exact congrArg Prod.fst (parse_cons (parseStep_rbrace h) [])

/-- A graph has closed labels only. -/
theorem closed_of_graphOk {ws : List Write} (h : GraphOk ws)
    (hq : ∀ w ∈ ws, ∀ l, w.label? = some l → '"' ∉ l) : ∀ w ∈ ws, w.Closed := by
  refine closed_of_read hq h.wellFormed.1 ?_
  intro q hmem
  rw [h.labels] at hmem
  obtain ⟨w, hw, hl⟩ := List.mem_filterMap.mp hmem
  exact hq w hw q hl

/-- **The file of a run is a well-formed graph exactly if the run starts well and no label ends
in a name with an unpaired backslash.** -/
theorem graphOk_iff (symbols : Option SymTab) (steps : List Step) (ws : List Write)
    (h : traceSon symbols steps = some ws) (hacc : ∃ st ∈ steps, guard st.ret = true) :
    GraphOk ws ↔ StartsWell steps ∧ ∀ st ∈ steps, StepCloses symbols st := by
  obtain ⟨s, hloop, rfl⟩ := Option.map_eq_some_iff.mp h
  have hbrace : Write.Closed .brace := fun l hl => by cases hl
  have hstart := traceLoop_start hloop hacc
  constructor
  · intro hok
    have hclosed := closed_of_graphOk hok (by
      intro w hw l hl
      rcases List.mem_append.mp hw with hw | hw
      · exact run_no_quote hloop w hw l hl
      · rw [List.mem_singleton.mp hw] at hl
        cases hl)
    refine ⟨?_, closes_of_closed hloop fun w hw => hclosed w (List.mem_append_left _ hw)⟩
    by_contra hbad
    rw [if_neg hbad, Tracer.phase] at hstart
    have hdone := (graphOk_of_closed hclosed).mp hok
    rw [phase_append, hstart, parse_bad] at hdone
    cases hdone
  · rintro ⟨hstarts, hcloses⟩
    rw [if_pos hstarts] at hstart
    have hclosed : ∀ w ∈ s.writes ++ [.brace], w.Closed := by
      intro w hw
      rcases List.mem_append.mp hw with hw | hw
      · exact run_closed hloop hcloses w hw
      · exact List.mem_singleton.mp hw ▸ hbrace
    refine (graphOk_of_closed hclosed).mpr (done_of_settled ?_)
    rcases hstart with hprimed | hrunning
    · rw [hprimed.writes, phase_openDotfile]
      exact .inl rfl
    · exact hrunning.inv.settled

/-- A run of a single call. -/
theorem graphOk_iff_call :
    GraphOk ((traceSon none [.bare 0xE8 { rip := 0x1000 }]).getD []) :=
  (graphOk_iff none [.bare 0xE8 { rip := 0x1000 }] _ (by decide +kernel)
    ⟨_, List.mem_singleton_self _, by decide⟩).mpr ⟨by decide +kernel, by decide +kernel⟩

/-- **`push r8` and then a call**: the arrow of the call has nothing on its left. -/
theorem arrow_without_source :
    ∃ ws, traceSon none [.bare 0x5041 {}, .bare 0xE8 { rip := 0x1000 }] = some ws ∧
      ¬ GraphOk ws := by
  refine ⟨_, Option.some_get (by decide +kernel) |>.symm, fun h => ?_⟩
  exact absurd h.wellFormed (by decide +kernel)

/-- **A call of a function whose name ends in a backslash**: its label does not end. -/
theorem label_escapes :
    ∃ ws, traceSon (some ⟨[⟨0x1005, 84, some "f\\".toList⟩, ⟨0, 0, none⟩], rfl⟩)
        [.bare 0xE8 { rip := 0x1000 }] = some ws ∧ ¬ GraphOk ws := by
  refine ⟨_, Option.some_get (by decide +kernel) |>.symm, fun h => ?_⟩
  exact absurd h.wellFormed (by decide +kernel)

end Ftrace
