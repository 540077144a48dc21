/-
# From the program to the graph

The pieces put together: the tracee executes instructions, the tracer prints them, and what it
prints becomes the nodes of `graph.dot`.  `nodes_are_executed` says what the graph shows of the
program: a node for each call and each syscall that it has executed, in this order.
-/
import Ftrace.Aftermath
import Ftrace.GraphFile
import Ftrace.Terminal
import Mathlib.Data.List.Forall2

namespace Ftrace

open CText Runs

/-! ## 1. The nodes of a run -/

/-- The label of a node that is written. -/
def Write.node? : Write → Option Text
  | .node l => some l
  | _ => none

/-- The labels of the nodes among some calls, in order. -/
def nodesOf (ws : List Write) : List Text := ws.filterMap Write.node?

@[simp] theorem nodesOf_append (ws vs : List Write) :
    nodesOf (ws ++ vs) = nodesOf ws ++ nodesOf vs := List.filterMap_append

/-- The word of an instruction that gets a node. -/
def isNode (ret : Word) : Bool := kind ret = .call || kind ret = .syscall

/-- The nodes of one event: its label, if it writes one. -/
theorem nodesOf_formatEvent (d : DotStatics) (first : Bool) (e : Event) :
    nodesOf (formatEvent d first e).2 = e.label?.toList := by
  have hrestart : nodesOf (if d.ret then [Write.parent (parentLabel d.listFunc)] else []) = [] := by
    cases d.ret <;> rfl
  have hlink : nodesOf (if first then [Write.arrow] else []) = [] := by
    cases first <;> rfl
  cases e with
  | call l =>
    simp only [formatEvent, nodesOf_append, hrestart, hlink]
    rfl
  | syscall l =>
    simp only [formatEvent, nodesOf_append, hrestart, hlink]
    rfl
  | ret => rfl

/-- The label that a step writes. -/
theorem label_of_event {symbols : Option SymTab} {lib : LibState} {st : Step} :
    (eventOf (lineOf symbols lib st)).bind Event.label?
      = if isNode st.ret then some (labelOf symbols lib st) else none := by
  cases hk : kind st.ret with
  | syscall =>
    by_cases hdef : SyscallDefined st.num
    · simp [eventOf_syscall hk hdef, isNode, hk, Event.label?]
    · have hline : labelOf symbols lib st = [] := by
        simp only [labelOf, lineOf, hk, dispSyscall_undefined hdef]
        rfl
      simp [eventOf_syscall_undefined hk hdef, isNode, hk, Event.label?, hline]
  | ret => simp [eventOf_ret hk, isNode, hk, Event.label?]
  | call => simp [eventOf_call hk, isNode, hk, Event.label?]
  | quiet => simp [eventOf_quiet hk, isNode, hk]

/-- **The nodes after a step.** -/
theorem nodesOf_after (s : Tracer) (symbols : Option SymTab) (st : Step) :
    nodesOf (s.after symbols st).writes
      = nodesOf s.writes ++ if isNode st.ret then [labelOf symbols s.lib st] else [] := by
  have hopened : nodesOf (if s.first then [] else openDotfile) = [] := by
    cases s.first <;> rfl
  have hevent : nodesOf (writeEvent s.dot s.first (eventOf (lineOf symbols s.lib st))).2
      = ((eventOf (lineOf symbols s.lib st)).bind Event.label?).toList := by
    cases eventOf (lineOf symbols s.lib st) with
    | none => rfl
    | some e => exact nodesOf_formatEvent s.dot s.first e
  rw [label_of_event] at hevent
  simp only [Tracer.after, nodesOf_append, hopened, List.append_nil, hevent]
  split <;> rfl

/-- The instruction that a step shows. -/
def Step.executed (st : Step) : Executed := (st.reg, st.ret)

/-- An instruction, and the label it is shown with. -/
abbrev Labelled : Type := Executed × Text

/-- The steps of a run with their labels. -/
def labelled (symbols : Option SymTab) : LibState → List Step → List Labelled
  | _, [] => []
  | lib, st :: sts =>
    (st.executed, labelOf symbols lib st) :: labelled symbols (libAfter symbols lib st) sts

theorem map_fst_labelled (symbols : Option SymTab) (lib : LibState) (steps : List Step) :
    (labelled symbols lib steps).map Prod.fst = steps.map Step.executed := by
  induction steps generalizing lib with
  | nil => rfl
  | cons st sts ih => rw [labelled, List.map_cons, List.map_cons, ih]

/-- **The nodes of a run**: one for each step that gets one. -/
theorem nodes_of_run {symbols : Option SymTab} {s s' : Tracer} {steps : List Step}
    (h : traceLoop symbols s steps = some s') :
    nodesOf s'.writes = nodesOf s.writes ++
      ((labelled symbols s.lib steps).filter fun x => isNode x.1.2).map Prod.snd := by
  induction steps generalizing s with
  | nil =>
    obtain rfl := Option.some.inj h
    exact (List.append_nil _).symm
  | cons st sts ih =>
    obtain ⟨s₁, h₁, h₂⟩ := Option.bind_eq_some_iff.mp h
    rw [ih h₂, labelled, lib_after_step h₁, List.filter_cons]
    rcases printInstruction_cases h₁ with ⟨hg, rfl⟩ | ⟨-, -, rfl⟩
    · have hk := kind_of_not_guard hg
      have hnode : isNode st.executed.2 = false := by simp [isNode, Step.executed, hk]
      rw [hnode, if_neg Bool.false_ne_true]
    · have hnode : isNode st.executed.2 = isNode st.ret := rfl
      rw [nodesOf_after, List.append_assoc, hnode]
      split <;> rfl

/-! ## 2. What the tracer is seen to do -/

/-- The step of an event. -/
def SonEvent.step? : SonEvent → Option Step
  | .step st => some st
  | _ => none

theorem stepsOf_eq (acts : List Act) : stepsOf acts = (seenOf acts).filterMap SonEvent.step? := by
  rw [stepsOf, seenOf, List.filterMap_flatMap]
  refine List.flatMap_congr fun a _ => ?_
  cases a with
  | tracee t e => rfl
  | son a =>
    cases a with
    | waited status => cases status <;> rfl
    | _ => rfl

/-- A tracer that has returned has written the brace. -/
theorem SonRuns.brace_mem {status : Status} {junk : Snapshots} {ret : Word} {acts : List Act}
    {s : Son} (h : SonRuns status junk ret acts s) (hdone : s.pc = .done) :
    SonEvent.brace ∈ seenOf acts := by
  refine (h.invariant (I := fun acts s => s.InTurn ∧ (s.pc = .done → SonEvent.brace ∈ seenOf acts))
    ⟨.inl rfl, fun h => by cases h⟩ fun acts s a s' ⟨hturn, ih⟩ hstep =>
      ⟨SonStep.inTurn hturn hstep, fun hpc => ?_⟩).2 hdone
  rw [seenOf_snoc, List.mem_append]
  cases hstep with
  | tracee e h => exact .inl (ih hpc)
  | son w h =>
    cases Son.move_of_act h with
    | ends hpc hgo => exact .inr List.mem_cons_self
    | waitFails hpc' hwait => exact absurd (Tracee.gone_of_wait hwait) (hturn.not_gone hpc')
    | _ => cases hpc

/-- The steps of a run of the loop. -/
theorem step?_sonRun (status : Status) (rounds : List Round) :
    (sonRun status rounds).filterMap SonEvent.step? = (roundsDone status rounds).map Round.step := by
  have hend : (sonEnd status rounds).filterMap SonEvent.step? = [] := by
    unfold sonEnd
    split <;> rfl
  have hfront : (sonFront status rounds).filterMap SonEvent.step?
      = (roundsDone status rounds).map Round.step := by
    have hround : ∀ r : Round, r.events.filterMap SonEvent.step? = [r.step] := fun r => rfl
    rw [sonFront, List.filterMap_cons_none rfl, List.filterMap_flatMap]
    simp only [hround]
    exact List.flatMap_pure_eq_map ..
  rw [sonRun_eq, List.filterMap_append, hend, hfront, List.append_nil]

/-- **What a finished run writes is what `trace_son` writes for its steps.** -/
theorem SonRuns.traceSon_eq {status : Status} {junk : Snapshots} {ret : Word} {acts : List Act}
    {s : Son} (h : SonRuns status junk ret acts s) (hdone : s.pc = .done) {symbols : Option SymTab}
    {r : ℤ} (hr : 0 ≤ r) {t : FdTracer}
    (ht : (seenOf acts).foldlM (sonEvent symbols r) {} = some t) :
    traceSon symbols (stepsOf acts) = some t.forget.writes := by
  have hbrace := h.brace_mem hdone
  obtain ⟨first, reads, -, -, -, hall⟩ := h.follows.exists_sonRun
  have hseen := hall hdone
  have hended : (endStatus first (roundsOf junk reads)).isSome = true := by
    by_contra hnone
    rw [hseen, sonRun_eq, sonEnd, if_neg hnone, List.append_nil] at hbrace
    exact brace_not_mem_sonFront _ _ hbrace
  have hwrites := sonOps_writes symbols hr first (roundsOf junk reads) hended
  rw [hseen] at ht
  rw [stepsOf_eq, hseen, step?_sonRun, ← hwrites, sonOps, sonTracer, ht]
  rfl

/-- The steps that are printed are the instructions that are printed. -/
theorem printedOf_eq (acts : List Act) : printedOf acts = (stepsOf acts).map Step.executed := by
  rw [printedOf, stepsOf, List.map_flatMap]
  refine List.flatMap_congr fun a _ => ?_
  cases a with
  | tracee t e => rfl
  | son a => cases a <;> rfl

/-! ## 3. What the graph shows of the program -/

/-- The label is that of this step, whatever the library lookup kept from earlier ones. -/
def LabelOfStep (symbols : Option SymTab) (st : Step) (l : Text) : Prop :=
  ∃ lib, l = labelOf symbols lib st

/-- The label of an instruction: that of a step at these registers and this word. -/
def LabelOf (symbols : Option SymTab) (e : Executed) (l : Text) : Prop :=
  ∃ st, st.executed = e ∧ LabelOfStep symbols st l

theorem labelOf_labelled {symbols : Option SymTab} {lib : LibState} {steps : List Step}
    {x : Labelled} (hx : x ∈ labelled symbols lib steps) : LabelOf symbols x.1 x.2 := by
  induction steps generalizing lib with
  | nil => cases hx
  | cons st sts ih =>
    rcases List.mem_cons.mp hx with rfl | hx
    · exact ⟨st, rfl, lib, rfl⟩
    · exact ih hx

/-- The calls and syscalls among some instructions. -/
def shown (es : List Executed) : List Executed := es.filter fun e => isNode e.2

/-- The nodes that `trace_son` writes for some steps. -/
theorem nodes_of_traceSon {symbols : Option SymTab} {steps : List Step} {ws : List Write}
    (h : traceSon symbols steps = some ws) :
    nodesOf ws = ((labelled symbols {} steps).filter fun x => isNode x.1.2).map Prod.snd := by
  obtain ⟨u, hu, rfl⟩ := Option.map_eq_some_iff.mp h
  rw [nodesOf_append, nodes_of_run hu]
  exact List.append_nil _

/-- So each of them is labelled as one of the calls and syscalls. -/
theorem labelOf_of_traceSon {symbols : Option SymTab} {steps : List Step} {ws : List Write}
    (h : traceSon symbols steps = some ws) :
    List.Forall₂ (LabelOf symbols) (shown (steps.map Step.executed)) (nodesOf ws) := by
  rw [shown, ← map_fst_labelled symbols {}, nodes_of_traceSon h, List.filter_map,
    List.forall₂_map_left_iff, List.forall₂_map_right_iff]
  exact List.forall₂_same.mpr fun x hx => labelOf_labelled (List.mem_of_mem_filter hx)

/-- The instructions of a finished run with their labels, and the nodes it writes. -/
theorem SonRuns.nodes {status : Status} {junk : Snapshots} {ret : Word} {acts : List Act} {s : Son}
    (h : SonRuns status junk ret acts s) (hdone : s.pc = .done) {symbols : Option SymTab} {r : ℤ}
    (hr : 0 ≤ r) {t : FdTracer} (ht : (seenOf acts).foldlM (sonEvent symbols r) {} = some t) :
    (labelled symbols {} (stepsOf acts)).map Prod.fst = printedOf acts ∧
      nodesOf t.forget.writes
        = ((labelled symbols {} (stepsOf acts)).filter fun x => isNode x.1.2).map Prod.snd := by
  exact ⟨by rw [map_fst_labelled, printedOf_eq], nodes_of_traceSon (h.traceSon_eq hdone hr ht)⟩

theorem SonRuns.labelOf_nodes {status : Status} {junk : Snapshots} {ret : Word} {acts : List Act}
    {s : Son} (h : SonRuns status junk ret acts s) (hdone : s.pc = .done)
    {symbols : Option SymTab} {r : ℤ} (hr : 0 ≤ r) {t : FdTracer}
    (ht : (seenOf acts).foldlM (sonEvent symbols r) {} = some t) :
    List.Forall₂ (LabelOf symbols) (shown (printedOf acts)) (nodesOf t.forget.writes) := by
  rw [printedOf_eq]
  exact labelOf_of_traceSon (h.traceSon_eq hdone hr ht)

end Ftrace
