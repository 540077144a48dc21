/-
# The descriptor of `graph.dot`

`graph.dot` is opened by the first step that passes the guard of `print_instruction`.  Its
descriptor is then kept in three statics, that of `stock_fd`, which the signal handlers ask,
that of `print_instruction` and that of `trace_son`, and each of them starts as 0.

Here `open`, `stock_fd`, the writes and `close` are kept one by one, with their descriptors, and
a signal may come after any of them.  `graphFileOk_iff` says for which runs and signals the file
ends with its one closing brace and no other descriptor is touched.
-/
import Ftrace.WaitLoop

namespace Ftrace

open CText

/-! ## 1. Operations -/

/-- What is done with descriptors. -/
inductive FdOp where
  /-- `open ("graph.dot", …)`, and what it returns -/
  | openDot (r : ℤ)
  /-- `stock_fd (fd)` -/
  | stock (fd : ℤ)
  | write (fd : ℤ) (w : Write)
  /-- `dprintf (fd, " } ")` -/
  | handler (fd : ℤ)
  | close (fd : ℤ)
  deriving DecidableEq

namespace FdOp

/-- The descriptor that is written to or closed. -/
def fd? : FdOp → Option ℤ
  | write fd _ | handler fd | close fd => some fd
  | openDot _ | stock _ => none

def isBrace : FdOp → Bool
  | write _ .brace | handler _ => true
  | _ => false

/-- The call of `dprintf` or `write`, without its descriptor. -/
def write? : FdOp → Option Write
  | write _ w => some w
  | _ => none

end FdOp

/-- `stock_fd (fd)` with the static `save`: what it returns, and keeps. -/
def stockFd (save fd : ℤ) : ℤ := if save = 0 then fd else save

/-- What `open_dotfile` returns when `open` returns `r`. -/
def openDotfileFd (r : ℤ) : ℤ := if r < 0 then -1 else r

/-- What `open_dotfile` does when `open` returns `r`. -/
def openDotfileOps (r : ℤ) : List FdOp :=
  if r < 0 then [.openDot r] else [.openDot r, .stock r] ++ openDotfile.map (.write r)

/-! ## 2. A run -/

/-- The statics, and what was done.  `fd` is the static of `print_instruction`, `sonFd` that of
`trace_son`. -/
structure FdTracer where
  first : Bool := false
  fd : ℤ := 0
  sonFd : ℤ := 0
  dot : DotStatics := {}
  lib : LibState := {}
  ops : List FdOp := []

/-- `print_instruction` once more, with its descriptor. -/
def printInstructionFd (symbols : Option SymTab) (r : ℤ) (s : FdTracer) (st : Step) :
    Option FdTracer :=
  if guard st.ret then do
    let fd := if s.first then s.fd else openDotfileFd r
    let opened := if s.first then [] else openDotfileOps r
    let line ← getinstruction symbols s.lib st
    if line.out.length < BUFFER_SIZE then
      let buffer := cstr line.out
      if buffer = [] then some ⟨true, fd, s.sonFd, s.dot, line.lib, s.ops ++ opened⟩
      else
        let d := formatDotfile s.dot buffer s.first
        some ⟨true, fd, s.sonFd, d.1, line.lib, s.ops ++ opened ++ d.2.map (.write fd)⟩
    else none
  else some s

/-- One event of `trace_son`. -/
def sonEvent (symbols : Option SymTab) (r : ℤ) (s : FdTracer) : SonEvent → Option FdTracer
  | .reported _ => some s
  | .step st => (printInstructionFd symbols r s st).map fun s' => { s' with sonFd := s'.fd }
  | .brace => some { s with ops := s.ops ++ [.write s.sonFd .brace] }
  | .close => some { s with ops := s.ops ++ [.close s.sonFd] }

/-- `trace_son`, the statics as they are when the program starts. -/
def sonTracer (symbols : Option SymTab) (r : ℤ) (status : Status) (rounds : List Round) :
    Option FdTracer :=
  (sonRun status rounds).foldlM (sonEvent symbols r) {}

/-- What `trace_son` does with descriptors. -/
def sonOps (symbols : Option SymTab) (r : ℤ) (status : Status) (rounds : List Round) :
    Option (List FdOp) :=
  (sonTracer symbols r status rounds).map FdTracer.ops

/-! ## 3. The same run without descriptors -/

/-- The tracer of `printInstruction`. -/
def FdTracer.forget (s : FdTracer) : Tracer where
  first := s.first
  dot := s.dot
  lib := s.lib
  writes := s.ops.filterMap FdOp.write?

theorem filterMap_write (fd : ℤ) (ws : List Write) :
    (ws.map (FdOp.write fd)).filterMap FdOp.write? = ws := by
  rw [List.filterMap_map]
  exact List.filterMap_some

theorem filterMap_openDotfileOps {r : ℤ} (hr : 0 ≤ r) :
    (openDotfileOps r).filterMap FdOp.write? = openDotfile := by
  unfold openDotfileOps
  rw [if_neg (by omega), List.filterMap_append, filterMap_write]
  rfl

/-- `open` succeeds: `print_instruction` writes what it wrote before. -/
theorem printInstructionFd_forget (symbols : Option SymTab) {r : ℤ} (hr : 0 ≤ r) (s : FdTracer)
    (st : Step) :
    (printInstructionFd symbols r s st).map FdTracer.forget
      = printInstruction symbols s.forget st := by
  have hopened : (if s.first then [] else openDotfileOps r).filterMap FdOp.write?
      = if s.first then [] else openDotfile := by
    cases s.first with
    | true => rfl
    | false => exact filterMap_openDotfileOps hr
  have hlib : s.forget.lib = s.lib := rfl
  have hfirst : s.forget.first = s.first := rfl
  have hdot : s.forget.dot = s.dot := rfl
  unfold printInstructionFd printInstruction
  rw [hlib, hfirst, hdot]
  cases guard st.ret with
  | false => rfl
  | true =>
    cases getinstruction symbols s.lib st with
    | none => rfl
    | some line =>
      simp only [if_true, Option.bind_eq_bind, Option.bind_some]
      by_cases hlen : line.out.length < BUFFER_SIZE
      · rw [if_pos hlen, if_pos hlen]
        by_cases hb : cstr line.out = []
        · rw [if_pos hb, if_pos hb]
          simp [FdTracer.forget, hopened]
        · rw [if_neg hb, if_neg hb]
          simp only [Option.map_some, FdTracer.forget, List.filterMap_append, hopened,
            filterMap_write]
      · rw [if_neg hlen, if_neg hlen]
        rfl

/-- So does a step of `trace_son`. -/
theorem sonEvent_forget (symbols : Option SymTab) {r : ℤ} (hr : 0 ≤ r) (s : FdTracer) (st : Step) :
    (sonEvent symbols r s (.step st)).map FdTracer.forget
      = printInstruction symbols s.forget st := by
  rw [← printInstructionFd_forget symbols hr]
  unfold sonEvent
  rw [Option.map_map]
  rfl

theorem FdTracer.start_forget : ({} : FdTracer).forget = {} := rfl

theorem rounds_forget (symbols : Option SymTab) {r : ℤ} (hr : 0 ≤ r) (rounds : List Round)
    (s : FdTracer) :
    ((rounds.flatMap Round.events).foldlM (sonEvent symbols r) s).map FdTracer.forget
      = traceLoop symbols s.forget (rounds.map Round.step) := by
  induction rounds generalizing s with
  | nil => rfl
  | cons x rounds ih =>
    have hround : ((x :: rounds).flatMap Round.events).foldlM (sonEvent symbols r) s
        = (sonEvent symbols r s (.step x.step)).bind
            ((rounds.flatMap Round.events).foldlM (sonEvent symbols r)) := rfl
    rw [hround, List.map_cons, traceLoop, ← sonEvent_forget symbols hr s x.step]
    cases sonEvent symbols r s (.step x.step) with
    | none => rfl
    | some s' => exact ih s'

/-- **The writes of a run** that ends by itself are those of `traceSon`. -/
theorem sonOps_writes (symbols : Option SymTab) {r : ℤ} (hr : 0 ≤ r) (status : Status)
    (rounds : List Round) (hended : (endStatus status rounds).isSome = true) :
    (sonOps symbols r status rounds).map (List.filterMap FdOp.write?)
      = traceSon symbols ((roundsDone status rounds).map Round.step) := by
  have hrun : sonTracer symbols r status rounds
      = ((roundsDone status rounds).flatMap Round.events ++ [SonEvent.brace, .close]).foldlM
          (sonEvent symbols r) {} := by
    unfold sonTracer sonRun
    rw [sonLoop_eq, sonEnd, if_pos hended]
    rfl
  unfold sonOps traceSon
  rw [hrun, List.foldlM_append, ← FdTracer.start_forget, ← rounds_forget symbols hr]
  cases ((roundsDone status rounds).flatMap Round.events).foldlM (sonEvent symbols r) {} with
  | none => rfl
  | some s => simp [sonEvent, FdTracer.forget, FdOp.write?]

/-! ## 4. A signal -/

/-- The static of `stock_fd` after some operations. -/
def savedFd : ℤ → List FdOp → ℤ
  | save, [] => save
  | save, .stock fd :: ops => savedFd (stockFd save fd) ops
  | save, _ :: ops => savedFd save ops

/-- The descriptors of `signal_on_exec`. -/
def signalOnExec (save : ℤ) : List FdOp :=
  let fd := stockFd save 0
  if fd ≠ 0 then [.handler fd, .close fd] else []

/-- The descriptors of `signal_on_p`. -/
def signalOnP (save : ℤ) : List FdOp :=
  let fd := stockFd save 0
  if fd ≠ 0 then [.handler fd, .close fd] else []

/-- How the trace is started, by `exec` or by `trace_pid`. -/
inductive Mode where
  | exec
  | tracePid
  deriving DecidableEq

/-- `catch_signal`: the handler of `SIGINT`, `SIGTERM` and `SIGQUIT`. -/
def catchSignal : Mode → ℤ → List FdOp
  | .exec => signalOnExec
  | .tracePid => signalOnP

/-- What is done until the program ends, by itself or by a signal after the first `k`
operations. -/
def executed (mode : Mode) (ops : List FdOp) : Option ℕ → List FdOp
  | none => ops
  | some k => ops.take k ++ catchSignal mode (savedFd 0 (ops.take k))

/-- The program does end: its loop does, or there is a signal, at a point of the run. -/
def Ends (status : Status) (rounds : List Round) (ops : List FdOp) : Option ℕ → Prop
  | none => (endStatus status rounds).isSome = true
  | some k => k ≤ ops.length

/-! ## 5. The operations of a run -/

/-- The tracer after a step that passes the guard. -/
def FdTracer.after (s : FdTracer) (symbols : Option SymTab) (r : ℤ) (st : Step) : FdTracer :=
  let fd := if s.first then s.fd else openDotfileFd r
  let d := writeEvent s.dot s.first (eventOf (lineOf symbols s.lib st))
  { first := true, fd := fd, sonFd := s.sonFd, dot := d.1, lib := libAfter symbols s.lib st,
    ops := s.ops ++ (if s.first then [] else openDotfileOps r) ++ d.2.map (.write fd) }

/-- **Everything a step can do.** -/
theorem printInstructionFd_cases {symbols : Option SymTab} {r : ℤ} {s s' : FdTracer} {st : Step}
    (h : printInstructionFd symbols r s st = some s') :
    (guard st.ret = false ∧ s' = s) ∨ (guard st.ret = true ∧ s' = s.after symbols r st) := by
  unfold printInstructionFd at h
  cases hg : guard st.ret with
  | false =>
    rw [hg, if_neg Bool.false_ne_true] at h
    exact .inl ⟨rfl, (Option.some.inj h).symm⟩
  | true =>
    refine .inr ⟨rfl, ?_⟩
    simp only [hg, getinstruction_eq hg, if_true, Option.bind_eq_bind, Option.bind_some] at h
    split at h
    · by_cases hb : cstr (lineOf symbols s.lib st) = []
      · rw [if_pos hb] at h
        obtain rfl := Option.some.inj h
        simp [FdTracer.after, eventOf, writeEvent, hb]
      · rw [if_neg hb, formatDotfile_eq] at h
        obtain rfl := Option.some.inj h
        simp [FdTracer.after, eventOf, writeEvent, hb]
    · cases h

/-- `format_dotfile` leaves the brace to `trace_son`. -/
theorem brace_not_mem_writeEvent (d : DotStatics) (first : Bool) (e : Option Event) :
    .brace ∉ (writeEvent d first e).2 := by
  cases e with
  | none => simp [writeEvent]
  | some e =>
    cases e with
    | call l => cases hret : d.ret <;> cases first <;> simp [writeEvent, formatEvent, hret]
    | syscall l => cases hret : d.ret <;> cases first <;> simp [writeEvent, formatEvent, hret]
    | ret => simp [writeEvent, formatEvent]

/-- Between two rounds: the statics agree, and everything since the file was opened was written
to its descriptor. -/
structure FdInv (r : ℤ) (s : FdTracer) : Prop where
  same : s.sonFd = s.fd
  unopened : s.first = false → s.fd = 0 ∧ s.ops = []
  opened : s.first = true → s.fd = openDotfileFd r ∧
    ∃ ws : List Write, .brace ∉ ws ∧ s.ops = openDotfileOps r ++ ws.map (.write (openDotfileFd r))

theorem FdInv.start (r : ℤ) : FdInv r {} := by
  refine ⟨rfl, fun _ => ⟨rfl, rfl⟩, fun h => ?_⟩
  cases h

/-- A step keeps the invariant, and opens the file if it passes the guard. -/
theorem FdInv.step {symbols : Option SymTab} {r : ℤ} {s s' : FdTracer} {st : Step}
    (hs : FdInv r s) (h : sonEvent symbols r s (.step st) = some s') :
    FdInv r s' ∧ s'.first = (s.first || guard st.ret) := by
  obtain ⟨s₁, h₁, rfl⟩ := Option.map_eq_some_iff.mp h
  rcases printInstructionFd_cases h₁ with ⟨hg, rfl⟩ | ⟨hg, rfl⟩
  · exact ⟨⟨rfl, hs.unopened, hs.opened⟩, by simp [hg]⟩
  · refine ⟨⟨rfl, fun hfirst => (by cases hfirst), fun _ => ?_⟩, by simp [FdTracer.after, hg]⟩
    have hbrace := brace_not_mem_writeEvent s.dot s.first (eventOf (lineOf symbols s.lib st))
    cases hfirst : s.first with
    | false =>
      obtain ⟨-, hops⟩ := hs.unopened hfirst
      refine ⟨by simp [FdTracer.after, hfirst], _, hbrace, ?_⟩
      simp [FdTracer.after, hfirst, hops]
    | true =>
      obtain ⟨hfd, ws, hws, hops⟩ := hs.opened hfirst
      refine ⟨by simp [FdTracer.after, hfirst, hfd],
        ws ++ (writeEvent s.dot s.first (eventOf (lineOf symbols s.lib st))).2, ?_, ?_⟩
      · intro hmem
        exact (List.mem_append.mp hmem).elim hws hbrace
      · simp [FdTracer.after, hfirst, hfd, hops]

/-- So do the rounds of a run. -/
theorem FdInv.rounds {symbols : Option SymTab} {r : ℤ} (rounds : List Round) {s s' : FdTracer}
    (hs : FdInv r s)
    (h : (rounds.flatMap Round.events).foldlM (sonEvent symbols r) s = some s') :
    FdInv r s' ∧ s'.first = (s.first || rounds.any fun x => guard x.step.ret) := by
  induction rounds generalizing s with
  | nil =>
    obtain rfl : s = s' := Option.some.inj h
    exact ⟨hs, by simp⟩
  | cons x rounds ih =>
    rw [List.flatMap_cons, Round.events, List.cons_append, List.cons_append, List.nil_append,
      List.foldlM_cons] at h
    obtain ⟨s₁, h₁, h₂⟩ := Option.bind_eq_some_iff.mp h
    obtain rfl : s = s₁ := Option.some.inj h₁
    rw [List.foldlM_cons] at h₂
    obtain ⟨s₂, h₂, h₃⟩ := Option.bind_eq_some_iff.mp h₂
    obtain ⟨hs₂, hfirst₂⟩ := hs.step h₂
    obtain ⟨hs', hfirst'⟩ := ih hs₂ h₃
    exact ⟨hs', by rw [hfirst', hfirst₂, List.any_cons, Bool.or_assoc]⟩

/-- Some step of the run passes the guard. -/
def opens (status : Status) (rounds : List Round) : Bool :=
  (roundsDone status rounds).any fun x => guard x.step.ret

/-- What is done with a descriptor that is open: the writes, and the end if the loop ends. -/
def restOps (fd : ℤ) (ws : List Write) (ended : Bool) : List FdOp :=
  ws.map (.write fd) ++ if ended then [.write fd .brace, .close fd] else []

/-- **The operations of a run**, which opens the file or does not. -/
theorem sonOps_cases {symbols : Option SymTab} {r : ℤ} {status : Status} {rounds : List Round}
    {ops : List FdOp} (h : sonOps symbols r status rounds = some ops) :
    (opens status rounds = false ∧ ops = restOps 0 [] (endStatus status rounds).isSome) ∨
      (opens status rounds = true ∧ ∃ ws : List Write, .brace ∉ ws ∧
        ops = openDotfileOps r
          ++ restOps (openDotfileFd r) ws (endStatus status rounds).isSome) := by
  obtain ⟨s, hs, rfl⟩ := Option.map_eq_some_iff.mp h
  unfold sonTracer sonRun at hs
  rw [sonLoop_eq, List.foldlM_cons] at hs
  obtain ⟨s₀, h₀, hs⟩ := Option.bind_eq_some_iff.mp hs
  obtain rfl : ({} : FdTracer) = s₀ := Option.some.inj h₀
  rw [List.foldlM_append] at hs
  obtain ⟨s₁, h₁, h₂⟩ := Option.bind_eq_some_iff.mp hs
  obtain ⟨hinv, hfirst⟩ := (FdInv.start r).rounds _ h₁
  have hops : s.ops = s₁.ops ++ restOps s₁.sonFd [] (endStatus status rounds).isSome := by
    unfold sonEnd at h₂
    split at h₂ <;> rename_i hend
    · obtain rfl := Option.some.inj h₂
      simp [restOps, hend]
    · obtain rfl := Option.some.inj h₂
      simp [restOps, hend]
  rw [hops, hinv.same]
  replace hfirst : s₁.first = opens status rounds := by rw [hfirst, Bool.false_or]; rfl
  cases hopen : opens status rounds with
  | false =>
    obtain ⟨hfd, hnil⟩ := hinv.unopened (hfirst.trans hopen)
    exact .inl ⟨rfl, by rw [hfd, hnil, List.nil_append]⟩
  | true =>
    obtain ⟨hfd, ws, hws, hops⟩ := hinv.opened (hfirst.trans hopen)
    exact .inr ⟨rfl, ws, hws, by rw [hfd, hops, List.append_assoc]; rfl⟩

/-! ## 6. What is asked of the file -/

/-- Only the descriptor is written to and closed that `open_dotfile` has returned. -/
def OwnFd (ops : List FdOp) : Prop :=
  ∀ pre op post fd, ops = pre ++ op :: post → op.fd? = some fd →
    ∃ r, .openDot r ∈ pre ∧ fd = openDotfileFd r

/-- What reaches the file open as `r`: the writes to `r` until it is closed. -/
def toGraph (r : ℤ) (ops : List FdOp) : List FdOp :=
  (ops.takeWhile fun op => op ≠ .close r).filter fun op => op.fd? = some r

/-- There is one closing brace, and it comes last: from the first brace on there is nothing but
that brace. -/
def OneBraceLast (ops : List FdOp) : Prop := (ops.dropWhile fun op => !op.isBrace).length = 1

instance (ops : List FdOp) : Decidable (OneBraceLast ops) := inferInstanceAs (Decidable (_ = _))

/-- **What is asked**: no descriptor but the file's, and one closing brace at the end of the file
if it was opened. -/
structure GraphFileOk (ops : List FdOp) : Prop where
  own : OwnFd ops
  brace : ∀ r, 0 ≤ r → .openDot r ∈ ops → OneBraceLast (toGraph r ops)

/-! ## 7. Which runs are right -/

/-- Operations on one descriptor, after `open_dotfile` has returned it. -/
theorem ownFd_openDot {r : ℤ} {ops : List FdOp}
    (h : ∀ op ∈ ops, ∀ fd, op.fd? = some fd → fd = openDotfileFd r) :
    OwnFd (.openDot r :: ops) := by
  intro pre op post fd hops hfd
  cases pre with
  | nil =>
    obtain ⟨rfl, -⟩ := List.cons.inj hops
    cases hfd
  | cons o pre =>
    obtain ⟨rfl, hrest⟩ := List.cons.inj hops
    exact ⟨r, List.mem_cons_self, h op (hrest ▸ List.mem_append_right pre List.mem_cons_self) fd hfd⟩

/-- A write comes first, before any file is open. -/
theorem not_ownFd_write (fd : ℤ) (w : Write) (ops : List FdOp) : ¬ OwnFd (.write fd w :: ops) := by
  intro h
  obtain ⟨r, hmem, -⟩ := h [] (.write fd w) ops fd rfl rfl
  cases hmem

/-- Nothing is done at all. -/
theorem graphFileOk_nil : GraphFileOk [] := by
  refine ⟨?_, fun r _ hmem => by cases hmem⟩
  intro pre op post fd h
  exact absurd h (by simp)

/-- `open` fails, and everything after goes to the descriptor -1. -/
theorem graphFileOk_of_neg {r : ℤ} (hr : r < 0) {ops : List FdOp}
    (h : ∀ op ∈ ops, op.fd? = some (-1)) : GraphFileOk (.openDot r :: ops) := by
  have hfd : openDotfileFd r = -1 := if_pos hr
  constructor
  · refine ownFd_openDot ?_
    intro op hmem fd hop
    rw [h op hmem] at hop
    rw [hfd, Option.some.inj hop]
  · intro r' hr' hmem
    rcases List.mem_cons.mp hmem with heq | hmem
    · obtain rfl := FdOp.openDot.inj heq
      omega
    · cases h _ hmem

/-- `open` succeeds, the descriptor is kept by `stock_fd`, and everything after is on it. -/
theorem graphFileOk_opened {r : ℤ} (hr : 0 ≤ r) {ops : List FdOp}
    (h : ∀ op ∈ ops, op.fd? = some r) :
    GraphFileOk (.openDot r :: .stock r :: ops) ↔ OneBraceLast (toGraph r ops) := by
  have hfd : openDotfileFd r = r := if_neg (by omega)
  have hgraph : toGraph r (.openDot r :: .stock r :: ops) = toGraph r ops := rfl
  constructor
  · intro hok
    exact hgraph ▸ hok.brace r hr List.mem_cons_self
  · intro hbrace
    constructor
    · refine ownFd_openDot ?_
      intro op hmem fd hop
      rcases List.mem_cons.mp hmem with rfl | hmem
      · cases hop
      · rw [h op hmem] at hop
        rw [hfd, Option.some.inj hop]
    · intro r' _ hmem
      obtain rfl : r' = r := by
        rcases List.mem_cons.mp hmem with heq | hmem
        · exact FdOp.openDot.inj heq
        · rcases List.mem_cons.mp hmem with heq | hmem
          · cases heq
          · cases h _ hmem
      exact hgraph ▸ hbrace

/-- A signal before `stock_fd`: the file is open and empty. -/
theorem not_graphFileOk_openDot {r : ℤ} (hr : 0 ≤ r) : ¬ GraphFileOk [.openDot r] := by
  intro h
  have hbrace : OneBraceLast (toGraph r [.openDot r]) := h.brace r hr List.mem_cons_self
  cases hbrace

/-- Nodes, edges and the header do not matter. -/
theorem oneBraceLast_writes (r : ℤ) {ws : List Write} (h : .brace ∉ ws) (ops : List FdOp) :
    OneBraceLast (toGraph r (ws.map (.write r) ++ ops)) ↔ OneBraceLast (toGraph r ops) := by
  have htake : ∀ op ∈ ws.map (FdOp.write r), (decide (op ≠ .close r)) = true := by
    intro op hmem
    obtain ⟨w, -, rfl⟩ := List.mem_map.mp hmem
    simp
  have hfilter : (ws.map (FdOp.write r)).filter (fun op => op.fd? = some r) = ws.map (.write r) := by
    refine List.filter_eq_self.mpr ?_
    intro op hmem
    obtain ⟨w, -, rfl⟩ := List.mem_map.mp hmem
    simp [FdOp.fd?]
  have hdrop : ∀ op ∈ ws.map (FdOp.write r), (!op.isBrace) = true := by
    intro op hmem
    obtain ⟨w, hw, rfl⟩ := List.mem_map.mp hmem
    cases w with
    | brace => exact absurd hw h
    | _ => rfl
  unfold OneBraceLast toGraph
  rw [List.takeWhile_append_of_pos htake, List.filter_append, hfilter,
    List.dropWhile_append_of_pos hdrop]

theorem catchSignal_eq (mode : Mode) (save : ℤ) :
    catchSignal mode save = if save ≠ 0 then [.handler save, .close save] else [] := by
  have hsave : stockFd save 0 = save := by
    unfold stockFd
    split
    · rename_i h
      exact h.symm
    · rfl
  cases mode with
  | exec => simp only [catchSignal, signalOnExec, hsave]
  | tracePid => simp only [catchSignal, signalOnP, hsave]

theorem executed_some (mode : Mode) (ops : List FdOp) (k : ℕ) :
    executed mode ops (some k) = ops.take k ++ catchSignal mode (savedFd 0 (ops.take k)) := rfl

/-- A signal before everything else. -/
theorem executed_zero (mode : Mode) (ops : List FdOp) : executed mode ops (some 0) = [] := by
  rw [executed_some, List.take_zero, List.nil_append, savedFd, catchSignal_eq, if_neg (by simp)]

theorem savedFd_openDot (save r : ℤ) (ops : List FdOp) :
    savedFd save (.openDot r :: ops) = savedFd save ops := rfl

theorem savedFd_stock (r : ℤ) (ops : List FdOp) : savedFd 0 (.stock r :: ops) = savedFd r ops := rfl

/-- Only `stock_fd` sets the static. -/
theorem savedFd_of_fd {save fd : ℤ} {ops : List FdOp} (h : ∀ op ∈ ops, op.fd? = some fd) :
    savedFd save ops = save := by
  induction ops with
  | nil => rfl
  | cons op ops ih =>
    have hop := h op List.mem_cons_self
    have hops := ih fun op hmem => h op (List.mem_cons_of_mem _ hmem)
    cases op with
    | openDot r => cases hop
    | stock fd => cases hop
    | write fd w => exact hops
    | handler fd => exact hops
    | close fd => exact hops

theorem fd_of_mem_catchSignal {mode : Mode} {r : ℤ} {op : FdOp} (h : op ∈ catchSignal mode r) :
    op.fd? = some r := by
  rw [catchSignal_eq] at h
  split at h
  · rcases List.mem_cons.mp h with rfl | h
    · rfl
    · exact List.mem_singleton.mp h ▸ rfl
  · cases h

theorem fd_of_mem_restOps {fd : ℤ} {ws : List Write} {ended : Bool} {op : FdOp}
    (h : op ∈ restOps fd ws ended) : op.fd? = some fd := by
  rcases List.mem_append.mp h with h | h
  · obtain ⟨w, -, rfl⟩ := List.mem_map.mp h
    rfl
  · cases ended with
    | false => cases h
    | true =>
      rcases List.mem_cons.mp h with rfl | h
      · rfl
      · exact List.mem_singleton.mp h ▸ rfl

/-- `open` fails. -/
theorem openDotfileOps_of_neg {r : ℤ} (hr : r < 0) (ws : List Write) (ended : Bool) :
    openDotfileOps r ++ restOps (openDotfileFd r) ws ended
      = .openDot r :: restOps (-1) ws ended := by
  have hfd : openDotfileFd r = -1 := if_pos hr
  have hops : openDotfileOps r = [.openDot r] := if_pos hr
  rw [hfd, hops]
  rfl

/-- `open` succeeds: the header goes to the descriptor too. -/
theorem openDotfileOps_of_nonneg {r : ℤ} (hr : 0 ≤ r) (ws : List Write) (ended : Bool) :
    openDotfileOps r ++ restOps (openDotfileFd r) ws ended
      = .openDot r :: .stock r :: restOps r (openDotfile ++ ws) ended := by
  have hneg : ¬ r < 0 := by omega
  have hfd : openDotfileFd r = r := if_neg hneg
  have hops : openDotfileOps r = [.openDot r, .stock r] ++ openDotfile.map (.write r) :=
    if_neg hneg
  rw [hfd, hops, restOps, restOps, List.map_append, List.append_assoc, List.append_assoc]
  rfl

section Signal

variable (mode : Mode) {r : ℤ} {ws : List Write} (hws : .brace ∉ ws)
include hws

/-- A signal while the graph is written: its handler writes the brace, if it knows a descriptor. -/
theorem oneBraceLast_signal :
    OneBraceLast (toGraph r (ws.map (.write r) ++ catchSignal mode r)) ↔ r ≠ 0 := by
  rw [oneBraceLast_writes r hws, catchSignal_eq]
  by_cases h : r = 0 <;> simp [h, OneBraceLast, toGraph, FdOp.fd?, FdOp.isBrace]

/-- A signal after the brace: its handler writes one more. -/
theorem oneBraceLast_signal_brace :
    OneBraceLast (toGraph r (ws.map (.write r) ++ .write r .brace :: catchSignal mode r))
      ↔ r = 0 := by
  rw [oneBraceLast_writes r hws, catchSignal_eq]
  by_cases h : r = 0 <;> simp [h, OneBraceLast, toGraph, FdOp.fd?, FdOp.isBrace]

/-- Whatever comes after `close` does not reach the file. -/
theorem oneBraceLast_closed (ops : List FdOp) :
    OneBraceLast (toGraph r (ws.map (.write r) ++ .write r .brace :: .close r :: ops)) := by
  rw [oneBraceLast_writes r hws]
  simp [OneBraceLast, toGraph, FdOp.fd?, FdOp.isBrace]

end Signal

/-- A signal after `j` of these operations. -/
theorem oneBraceLast_take (mode : Mode) {r : ℤ} {ws : List Write} (hws : .brace ∉ ws)
    (ended : Bool) {j : ℕ} (hj : j ≤ (restOps r ws ended).length) :
    OneBraceLast (toGraph r ((restOps r ws ended).take j ++ catchSignal mode r)) ↔
      if ended = true ∧ (restOps r ws ended).length ≤ j + 1
      then (restOps r ws ended).length = j ∨ r = 0 else r ≠ 0 := by
  have hlen : (restOps r ws ended).length = ws.length + if ended then 2 else 0 := by
    cases ended <;> simp [restOps]
  rw [hlen] at hj ⊢
  by_cases hin : j ≤ ws.length
  · -- in the loop
    have htake : (restOps r ws ended).take j = (ws.take j).map (.write r) := by
      rw [restOps, List.take_append_of_le_length (by simpa using hin), List.map_take]
    have hif : ¬ (ended = true ∧ ws.length + (if ended then 2 else 0) ≤ j + 1) := by
      rintro ⟨rfl, h⟩
      simp only [if_true] at h
      omega
    rw [htake, if_neg hif]
    exact oneBraceLast_signal mode fun h => hws (List.mem_of_mem_take h)
  · cases ended with
    | false => exact absurd hj (by simpa using hin)
    | true =>
      simp only [if_true] at hj ⊢
      rw [if_pos ⟨trivial, by omega⟩]
      rcases (by omega : j = ws.length + 1 ∨ j = ws.length + 2) with rfl | rfl
      · have htake : (restOps r ws true).take (ws.length + 1)
            = ws.map (.write r) ++ [.write r .brace] := by
          simp [restOps, List.take_append]
        rw [htake, List.append_assoc]
        exact (oneBraceLast_signal_brace mode hws).trans (by simp)
      · have htake : (restOps r ws true).take (ws.length + 2)
            = ws.map (.write r) ++ [.write r .brace, .close r] := by
          simp [restOps, List.take_append]
        rw [htake, List.append_assoc]
        exact iff_of_true (oneBraceLast_closed hws _) (.inl rfl)

/-- A signal after `k` of `n` operations of a run that opens the file does no harm: `open` has
failed; or the trace has ended, and the file is closed or the handler does not know of it; or
the trace has not ended, and the handler does know. -/
def SafeSignal (r : ℤ) (ended : Bool) (n k : ℕ) : Prop :=
  r < 0 ∨ if ended = true ∧ n ≤ k + 1 then n = k ∨ r = 0 else 2 ≤ k ∧ r ≠ 0

/-- The run opens the file, and if there is a signal, it does no harm; or the signal comes before
everything else. -/
def SafeEnd (r : ℤ) (opened ended : Bool) (n : ℕ) : Option ℕ → Prop
  | none => opened = true
  | some k => k = 0 ∨ (opened = true ∧ SafeSignal r ended n k)

/-- A run that does not open the file writes its brace to descriptor 0. -/
theorem graphFileOk_unopened {mode : Mode} {status : Status} {rounds : List Round} {sig : Option ℕ}
    (hends : Ends status rounds (restOps 0 [] (endStatus status rounds).isSome) sig) :
    GraphFileOk (executed mode (restOps 0 [] (endStatus status rounds).isSome) sig) ↔
      sig = some 0 := by
  cases sig with
  | none =>
    have hended : (endStatus status rounds).isSome = true := hends
    rw [hended]
    exact iff_of_false (fun h => not_ownFd_write 0 .brace _ h.own) (by simp)
  | some k =>
    cases k with
    | zero =>
      rw [executed_zero]
      exact iff_of_true graphFileOk_nil rfl
    | succ k =>
      refine iff_of_false (fun h => ?_) (by simp)
      have hk : k + 1 ≤ (restOps 0 [] (endStatus status rounds).isSome).length := hends
      cases hended : (endStatus status rounds).isSome with
      | true =>
        rw [hended] at h
        exact not_ownFd_write 0 .brace _ h.own
      | false =>
        rw [hended] at hk
        cases hk

/-- `open` fails: everything after goes to -1, and the handlers know of no descriptor. -/
theorem graphFileOk_executed_of_neg {mode : Mode} {r : ℤ} (hr : r < 0) {ops : List FdOp}
    (h : ∀ op ∈ ops, op.fd? = some (-1)) (sig : Option ℕ) :
    GraphFileOk (executed mode (.openDot r :: ops) sig) := by
  cases sig with
  | none => exact graphFileOk_of_neg hr h
  | some k =>
    cases k with
    | zero =>
      rw [executed_zero]
      exact graphFileOk_nil
    | succ k =>
      have htake : ∀ op ∈ ops.take k, op.fd? = some (-1) := fun op hmem =>
        h op (List.mem_of_mem_take hmem)
      rw [executed_some, List.take_succ_cons, savedFd_openDot, savedFd_of_fd htake, catchSignal_eq,
        if_neg (by simp), List.append_nil]
      exact graphFileOk_of_neg hr htake

/-- `open` succeeds: everything depends on when the signal comes. -/
theorem graphFileOk_executed_opened {mode : Mode} {r : ℤ} (hr : 0 ≤ r) {ws : List Write}
    (hws : .brace ∉ ws) (ended : Bool) {k : ℕ} (hk : k ≤ (restOps r ws ended).length + 2) :
    GraphFileOk (executed mode (.openDot r :: .stock r :: restOps r ws ended) (some k)) ↔
      k = 0 ∨ SafeSignal r ended ((restOps r ws ended).length + 2) k := by
  have hneg : ¬ r < 0 := by omega
  match k with
  | 0 =>
    rw [executed_zero]
    exact iff_of_true graphFileOk_nil (.inl rfl)
  | 1 =>
    rw [executed_some, List.take_succ_cons, List.take_zero, savedFd_openDot, savedFd,
      catchSignal_eq, if_neg (by simp), List.append_nil]
    refine iff_of_false (not_graphFileOk_openDot hr) ?_
    rintro (h | h | h)
    · cases h
    · exact hneg h
    · cases ended with
      | false => simp at h
      | true => simp [restOps] at h
  | j + 2 =>
    have htake : ∀ op ∈ (restOps r ws ended).take j, op.fd? = some r := fun op hmem =>
      fd_of_mem_restOps (List.mem_of_mem_take hmem)
    have hfd : ∀ op ∈ (restOps r ws ended).take j ++ catchSignal mode r, op.fd? = some r :=
      fun op hmem => (List.mem_append.mp hmem).elim (htake op) fd_of_mem_catchSignal
    rw [executed_some, List.take_succ_cons, List.take_succ_cons, savedFd_openDot, savedFd_stock,
      savedFd_of_fd htake, List.cons_append, List.cons_append, graphFileOk_opened hr hfd,
      oneBraceLast_take mode hws ended (by omega)]
    simp [SafeSignal, hneg]

/-- **Which runs leave a closed graph, and touch no other descriptor**: those that open the file
and are not interrupted, and those that are interrupted when the handler does no harm. -/
theorem graphFileOk_iff {symbols : Option SymTab} {r : ℤ} (mode : Mode) {status : Status}
    {rounds : List Round} {ops : List FdOp} {sig : Option ℕ}
    (hops : sonOps symbols r status rounds = some ops) (hends : Ends status rounds ops sig) :
    GraphFileOk (executed mode ops sig) ↔
      SafeEnd r (opens status rounds) (endStatus status rounds).isSome ops.length sig := by
  rcases sonOps_cases hops with ⟨hopen, rfl⟩ | ⟨hopen, ws, hws, rfl⟩
  · rw [graphFileOk_unopened hends, hopen]
    cases sig <;> simp [SafeEnd]
  · rw [hopen]
    by_cases hr : r < 0
    · rw [openDotfileOps_of_neg hr]
      refine iff_of_true (graphFileOk_executed_of_neg hr (fun _ => fd_of_mem_restOps) sig) ?_
      cases sig with
      | none => rfl
      | some k => exact .inr ⟨rfl, .inl hr⟩
    · have hr : 0 ≤ r := by omega
      have hbrace : .brace ∉ openDotfile ++ ws := by simp [openDotfile, hws]
      rw [openDotfileOps_of_nonneg hr] at hends ⊢
      cases sig with
      | none =>
        have hended : (endStatus status rounds).isSome = true := hends
        rw [hended]
        exact iff_of_true ((graphFileOk_opened hr fun _ => fd_of_mem_restOps).mpr
          (oneBraceLast_closed hbrace [])) rfl
      | some k =>
        rw [graphFileOk_executed_opened hr hbrace _ hends]
        simp [SafeEnd]

/-- A tracee that runs one instruction and exits. -/
def oneStep (ret : Word) : List Round := [⟨Step.bare ret {}, .exited 0⟩]

/-- A return, and what is done for it when `graph.dot` gets the descriptor 3. -/
def returnOps : List FdOp :=
  [.openDot 3, .stock 3, .write 3 .digraph, .write 3 .style, .write 3 .brace, .close 3]

/-- An interrupt between the two halves of the header. -/
theorem graphFileOk_iff_return :
    sonOps none 3 (.stopped SIGTRAP) (oneStep 0xC3) = some returnOps ∧
      GraphFileOk (executed .exec returnOps (some 3)) := by
  have hops : sonOps none 3 (.stopped SIGTRAP) (oneStep 0xC3) = some returnOps := by
    decide +kernel
  have hends : Ends (.stopped SIGTRAP) (oneStep 0xC3) returnOps (some 3) := by
    simp [Ends, returnOps]
  exact ⟨hops, (graphFileOk_iff .exec hops hends).mpr
    (.inr ⟨by decide +kernel, .inr (by decide +kernel)⟩)⟩

/-- A tracee without a call: the brace goes to descriptor 0.  And a return, with an interrupt
between the brace and `close`: there are two braces. -/
theorem graphFileOk_fails :
    (∃ ops, sonOps none 3 (.stopped SIGTRAP) (oneStep 0x90) = some ops ∧
      Ends (.stopped SIGTRAP) (oneStep 0x90) ops none ∧ ¬ GraphFileOk (executed .exec ops none)) ∧
    sonOps none 3 (.stopped SIGTRAP) (oneStep 0xC3) = some returnOps ∧
      Ends (.stopped SIGTRAP) (oneStep 0xC3) returnOps (some 5) ∧
      ¬ GraphFileOk (executed .exec returnOps (some 5)) := by
  refine ⟨⟨[.write 0 .brace, .close 0], by decide +kernel, rfl, fun h => ?_⟩,
    by decide +kernel, by simp [Ends, returnOps], fun h => ?_⟩
  · exact not_ownFd_write 0 .brace [.close 0] h.own
  · have hbrace := h.brace 3 (by decide) (by decide)
    exact absurd hbrace (by decide)

end Ftrace
