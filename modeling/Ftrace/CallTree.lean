/-
# The calls of the program

The edges of `graph.dot` come from a stack that `format_dotfile` keeps.  What they say of the
program can be said without it: an edge leads to a call or a syscall from the call that it is made
in, the one after which everything is balanced, and from `U n K` if it is made in none
(`edges_are_callers`).
-/
import Ftrace.Lib.Nesting
import Ftrace.Trace

namespace Ftrace

open CText Dot Nesting

/-! ## 1. Callers -/

/-- What an instruction is to the nesting of calls. -/
def markOf (x : Labelled) : Mark Labelled :=
  match kind x.1.2 with
  | .call => .opens x
  | .ret => .closes
  | .syscall | .quiet => .leaf

/-- The calls that are open after some instructions, the innermost first. -/
def openCalls (before : List Labelled) : List Labelled := run [] (before.map markOf)

/-- **The label an edge comes from**: that of the call that is open innermost, or `U n K`. -/
def CallerLabel (before : List Labelled) (l : Text) : Prop :=
  (∃ c, Innermost c (before.map markOf) ∧ l = c.2) ∨
    NothingOpen (before.map markOf) ∧ l = "U n K".toList

/-- What is printed of the instruction is not nothing. -/
def isShown (x : Labelled) : Bool := kind x.1.2 ≠ .quiet

/-- The instructions that an edge leads to, each with those before it: the calls and the syscalls,
but for the first instruction of which something is printed. -/
def drawn (before : List Labelled) : List Labelled → List (List Labelled × Labelled)
  | [] => []
  | x :: xs =>
    (if isNode x.1.2 && before.any isShown then [(before, x)] else []) ++ drawn (before ++ [x]) xs

/-- The edge to an instruction. -/
structure EdgeTo (p : List Labelled × Labelled) (e : Text × Text) : Prop where
  source : CallerLabel p.1 e.1
  target : e.2 = p.2.2

/-- The top of the stack is the label of the caller. -/
theorem callerLabel_openCalls (before : List Labelled) :
    CallerLabel before (parentLabel ((openCalls before).map Prod.snd)) := by
  cases hopen : openCalls before with
  | nil => exact .inr ⟨run_eq_nil_iff.mp hopen, rfl⟩
  | cons c cs =>
    have htop : (openCalls before).head? = some c := by
      rw [hopen]
      rfl
    exact .inl ⟨c, run_head?_eq_some.mp htop, rfl⟩

theorem openCalls_snoc (before : List Labelled) (x : Labelled) :
    openCalls (before ++ [x]) = step (openCalls before) (markOf x) := by
  rw [openCalls, List.map_append, run_append]
  rfl

/-! ## 2. The edges of a run -/

/-- The event of a step that prints something. -/
def eventAt (x : Labelled) : Event :=
  match kind x.1.2 with
  | .call | .quiet => .call x.2
  | .syscall => .syscall x.2
  | .ret => .ret

theorem ofLine_labelOf {st : Step} (hk : kind st.ret ≠ .quiet) (hknown : KnownSyscall st)
    (symbols : Option SymTab) (lib : LibState) :
    Event.ofLine (labelOf symbols lib st) = eventAt (st.executed, labelOf symbols lib st) := by
  refine Option.some.inj ((eventOf_labelOf hk symbols lib).symm.trans ?_)
  cases hk' : kind st.ret with
  | call => simp [eventOf_call hk', eventAt, Step.executed, hk']
  | syscall =>
    simp [eventOf_syscall hk' (hknown (kind_of_syscall.mp hk')), eventAt, Step.executed, hk']
  | ret => simp [eventOf_ret hk', eventAt, Step.executed, hk']
  | quiet => exact absurd hk' hk

/-- **One event**: the machine goes on as the nesting does, and the edge it draws, if it draws one,
comes from the caller. -/
theorem ref_step {r : Ref} {before : List Labelled} (hstack : r.stack = (openCalls before).map Prod.snd)
    {x : Labelled} (hx : isShown x = true) :
    (r.step (before.any isShown) (eventAt x)).stack = (openCalls (before ++ [x])).map Prod.snd ∧
      ∃ es, (r.step (before.any isShown) (eventAt x)).edges = r.edges ++ es ∧
        List.Forall₂ EdgeTo (if isNode x.1.2 && before.any isShown then [(before, x)] else []) es := by
  have hcaller := callerLabel_openCalls before
  rw [← hstack] at hcaller
  have hedges := (r.step_eq (before.any isShown) (eventAt x)).1
  rw [openCalls_snoc]
  refine ⟨?_, _, hedges, ?_⟩
  · cases hk : kind x.1.2 with
    | call => simp [Ref.step, eventAt, markOf, hk, Nesting.step, hstack]
    | syscall => simp [Ref.step, eventAt, markOf, hk, Nesting.step, hstack]
    | ret => simp [Ref.step, eventAt, markOf, hk, Nesting.step, hstack]
    | quiet => simp [isShown, hk] at hx
  · have hedge : List.Forall₂ EdgeTo [(before, x)] [(parentLabel r.stack, x.2)] :=
      .cons ⟨hcaller, rfl⟩ .nil
    cases hk : kind x.1.2 with
    | call => cases before.any isShown <;> simp [eventAt, hk, isNode, Event.edges, hedge]
    | syscall => cases before.any isShown <;> simp [eventAt, hk, isNode, Event.edges, hedge]
    | ret => simp [eventAt, hk, isNode, Event.edges]
    | quiet => simp [isShown, hk] at hx

/-- **The edges of the machine** that is told the labels of a run. -/
theorem ref_run (symbols : Option SymTab) {steps : List Step}
    (hknown : ∀ st ∈ steps, KnownSyscall st) (lib : LibState) {r : Ref} {before : List Labelled}
    (hstack : r.stack = (openCalls before).map Prod.snd) :
    ∃ es, (r.run (before.any isShown) ((shownLabels symbols lib steps).map Event.ofLine)).edges
        = r.edges ++ es ∧
      List.Forall₂ EdgeTo (drawn before (labelled symbols lib steps)) es := by
  induction steps generalizing lib r before with
  | nil => exact ⟨[], (List.append_nil _).symm, .nil⟩
  | cons st sts ih =>
    have hrest : ∀ st' ∈ sts, KnownSyscall st' :=
      fun st' hst' => hknown st' (List.mem_cons_of_mem _ hst')
    rw [shownLabels, labelled, drawn]
    by_cases hk : kind st.ret = .quiet
    · have hmark : markOf (st.executed, labelOf symbols lib st) = .leaf := by
        simp [markOf, Step.executed, hk]
      have hany : (before ++ [(st.executed, labelOf symbols lib st)]).any isShown
          = before.any isShown := by simp [isShown, Step.executed, hk]
      have hnode : isNode (st.executed).2 = false := by simp [isNode, Step.executed, hk]
      rw [if_pos hk, List.nil_append, hnode, Bool.false_and, if_neg Bool.false_ne_true,
        List.nil_append, ← hany]
      refine ih hrest (libAfter symbols lib st) ?_
      rw [openCalls_snoc, hmark]
      exact hstack
    · have hshown : isShown (st.executed, labelOf symbols lib st) = true := by
        simp [isShown, Step.executed, hk]
      obtain ⟨hstack', es, hes, hedge⟩ := ref_step hstack hshown
      obtain ⟨es', hes', hedges⟩ := ih hrest (libAfter symbols lib st) hstack'
      have hany : (before ++ [(st.executed, labelOf symbols lib st)]).any isShown = true := by
        simp [hshown]
      rw [hany] at hes'
      refine ⟨es ++ es', ?_, List.rel_append hedge hedges⟩
      rw [if_neg hk, List.singleton_append, List.map_cons, Ref.run,
        ofLine_labelOf hk (hknown st List.mem_cons_self), hes', hes, List.append_assoc]

/-! ## 3. The graph of the program -/

/-- **The edges of the graph lead from each call to the calls and syscalls made in it.** The
instructions that a finished run has printed, in whatever order the tracer and the tracee came to
move, have labels such that the nodes of the file are those of the calls and syscalls, in order, and
its edges lead to each of them, but for the first instruction that is shown, from the call after
which everything that came before it is balanced, and from `U n K` if there is none.  These are the
instructions that the tracee has executed, if it was never stopped before one nor killed at one.

The file has to be a graph, and no syscall a number that the table does not have. -/
theorem edges_are_callers {status : Status} {junk : Snapshots} {ret : Word} {acts : List Act}
    {s : Son} (h : SonRuns status junk ret acts s) (hdone : s.pc = .done)
    {symbols : Option SymTab} {r : ℤ} (hr : 0 ≤ r) {t : FdTracer}
    (ht : (seenOf acts).foldlM (sonEvent symbols r) {} = some t)
    (hstarts : StartsWell (stepsOf acts)) (hcloses : ∀ st ∈ stepsOf acts, StepCloses symbols st)
    (hknown : ∀ st ∈ stepsOf acts, KnownSyscall st) :
    ∃ xs : List Labelled, xs.map Prod.fst = printedOf acts ∧
      (idleOf acts = 0 → xs.map Prod.fst = executedOf acts) ∧
      (∀ x ∈ xs, LabelOf symbols x.1 x.2) ∧
      nodesOf t.forget.writes = (xs.filter fun x => isNode x.1.2).map Prod.snd ∧
      List.Forall₂ EdgeTo (drawn [] xs) (edgesOf (itemsOf t.forget.writes)) := by
  obtain ⟨hfst, hnodes⟩ := h.nodes hdone hr ht
  refine ⟨labelled symbols {} (stepsOf acts), hfst,
    fun hidle => hfst.trans (h.printed_of_idle hdone hidle), fun x hx => labelOf_labelled hx,
    hnodes, ?_⟩
  obtain ⟨u, hu, hwrites⟩ := Option.map_eq_some_iff.mp (h.traceSon_eq hdone hr ht)
  have hempty : ({} : Ref).stack = (openCalls []).map Prod.snd := rfl
  obtain ⟨es, hes, hedges⟩ := ref_run symbols hknown {} hempty
  rw [← hwrites, (traceLoop_items hu hstarts hcloses).1]
  exact (congrArg (List.Forall₂ EdgeTo _) hes).mpr hedges

theorem edges_are_callers_callsOnce :
    ∃ t, (seenOf callsOnce.1).foldlM (sonEvent none 3) {} = some t ∧
      (edgesOf (itemsOf t.forget.writes)).length = 1 ∧
      ∃ xs : List Labelled, xs.map Prod.fst = printedOf callsOnce.1 ∧
        (idleOf callsOnce.1 = 0 → xs.map Prod.fst = executedOf callsOnce.1) ∧
        (∀ x ∈ xs, LabelOf none x.1 x.2) ∧
        nodesOf t.forget.writes = (xs.filter fun x => isNode x.1.2).map Prod.snd ∧
        List.Forall₂ EdgeTo (drawn [] xs) (edgesOf (itemsOf t.forget.writes)) := by
  have hrun : SonRuns (.exited 0) ⟨{}, {}⟩ 0 callsOnce.1 callsOnce.2 := Son.follow_runs _ _ _
  refine ⟨_, (Option.some_get (by decide +kernel)).symm, by decide +kernel, ?_⟩
  exact edges_are_callers hrun rfl (by decide) (Option.some_get (by decide +kernel)).symm
    (by decide +kernel) (by decide +kernel) (by decide +kernel)

end Ftrace
