/-
# The tracer and the tracee

The loop of `trace_son` and the program it traces take turns: the tracee runs when
`PTRACE_SINGLESTEP` resumes it, and the tracer when `waitpid` has something to report.  In
between the tracee may get a signal, or be killed at any time, whatever the tracer is doing.

Here both are one system.  The tracer is the code, one system call after the other
(`Son.act`); the tracee is what the kernel says of a traced program (`Tracee.next`); a run is
any order in which they take their steps.

* The two never run at the same time, and no wait is for nothing (`runs_alternate`).
* What the tracer does is a run of `sonRun`, with the reads that the tracee had to give
  (`son_refines`).
* Every instruction that the tracee executes is given to `print_instruction`, in order, and no
  other unless the tracee was stopped before it had executed one (`no_step_lost`).
* When the tracee is over, so is the trace, within a few steps (`trace_ends`).
-/
import Ftrace.Lib.Runs
import Ftrace.Snapshots

namespace Ftrace

open Runs

/-! ## 1. The tracee -/

/-- What the tracer can read of a stopped tracee. -/
structure Cpu where
  regs : UserRegs
  mem : Mem

/-- A tracee, as the kernel knows it. -/
inductive Tracee where
  /-- started or attached to, and not stopped for the first time -/
  | starting
  /-- resumed for one instruction: `left` until it has executed it -/
  | running (cpu : Cpu) (left : Bool)
  /-- stopped, and `seen` when `waitpid` has said so -/
  | stopped (cpu : Cpu) (sig : ℕ) (seen : Bool)
  /-- over, and not waited for -/
  | zombie (status : Status) (ended : status.isOver = true)
  | gone

/-- What can happen to a tracee. -/
inductive TraceeEvent where
  /-- the first stop -/
  | starts (cpu : Cpu) (sig : ℕ)
  /-- the instruction is executed, and this is what it leaves -/
  | executes (after : Cpu)
  /-- the instruction is executed, and it is the last one -/
  | exits (code : ℕ)
  | stops (sig : ℕ)
  | dies (sig : ℕ)

namespace Tracee

/-- The tracee after an event, `none` if it cannot happen. -/
def next : Tracee → TraceeEvent → Option Tracee
  | starting, .starts cpu sig => some (stopped cpu sig false)
  | starting, .exits code => some (zombie (.exited code) rfl)
  | running _ true, .executes after => some (running after false)
  | running _ true, .exits code => some (zombie (.exited code) rfl)
  | running cpu _, .stops sig => some (stopped cpu sig false)
  | starting, .dies sig => some (zombie (.signaled sig) rfl)
  | running _ _, .dies sig => some (zombie (.signaled sig) rfl)
  | stopped _ _ _, .dies sig => some (zombie (.signaled sig) rfl)
  | _, _ => none

/-- `waitpid`: the status, `none` for an error, and the tracee after it; it blocks while there
is nothing to report. -/
def wait : Tracee → Option (Option Status × Tracee)
  | stopped cpu sig false => some (some (.stopped sig), stopped cpu sig true)
  | zombie status _ => some (some status, gone)
  | gone => some (none, gone)
  | _ => none

/-- `PTRACE_GETREGS`, which fails unless the tracee is stopped. -/
def getRegs : Tracee → Option UserRegs
  | stopped cpu _ _ => some cpu.regs
  | _ => none

/-- What `PTRACE_PEEKTEXT` and `PTRACE_PEEKDATA` see. -/
def mem : Tracee → Mem
  | stopped cpu _ _ => cpu.mem
  | _ => Mem.empty

/-- `PTRACE_SINGLESTEP`, which delivers no signal. -/
def singleStep : Tracee → Tracee
  | stopped cpu _ _ => running cpu true
  | t => t

/-- The tracee runs. -/
def isRunning : Tracee → Bool
  | starting => true
  | running _ _ => true
  | _ => false

/-- The tracee is over. -/
def isOver : Tracee → Bool
  | zombie _ _ => true
  | gone => true
  | _ => false

/-- `waitpid` has something to report of it. -/
def reports : Tracee → Bool
  | stopped _ _ false => true
  | zombie _ _ => true
  | _ => false

/-- It is where the tracer knows it to be, or has been killed since. -/
def atRest : Tracee → Bool
  | stopped _ _ true => true
  | zombie _ _ => true
  | _ => false

end Tracee

/-! ## 2. The tracer -/

/-- Where `trace_son` is: before which system call, or before printing. -/
inductive Pc where
  | waitFirst
  | loop
  | getRegs
  | peekText
  | singleStep
  | wait
  | getRegsReturn
  | print
  | done
  deriving DecidableEq

/-- The tracer and its tracee: the place in `trace_son`, its variables, and what is traced. -/
structure Son where
  pc : Pc
  status : Status
  snap : Snapshots
  ret : Word
  tracee : Tracee

/-- What printing looks at beside the tracee's memory. -/
structure World where
  maps : Option MapsFile
  load : Loader

/-- What the tracer does. -/
inductive SonAct where
  /-- `waitpid`; `none` where it fails -/
  | waited (status : Option Status)
  /-- the condition of the loop -/
  | tested
  /-- `PTRACE_GETREGS`, `PTRACE_PEEKTEXT` or `PTRACE_SINGLESTEP` -/
  | asked
  /-- `print_instruction` -/
  | printed (st : Step)
  /-- `write (fd, "}\n", 2)` and `close (fd)` -/
  | ended

namespace Son

/-- The step given to `print_instruction`. -/
def step (s : Son) (w : World) : Step where
  reg := s.snap.reg
  ret := s.ret
  retSyscall := s.snap.regsReturn.rax
  mem := s.tracee.mem
  maps := w.maps
  load := w.load

/-- A `waitpid`, and on to `pc`. -/
def waitTo (s : Son) (pc : Pc) : Option (SonAct × Son) :=
  match s.tracee.wait with
  | some (some status, tracee) =>
    some (.waited (some status), { s with pc := pc, status := status, tracee := tracee })
  | some (none, tracee) => some (.waited none, { s with pc := pc, tracee := tracee })
  | none => none

/-- What the tracer does next, `none` if it is blocked or has returned. -/
def act (w : World) (s : Son) : Option (SonAct × Son) :=
  match s.pc with
  | .waitFirst => s.waitTo .loop
  | .loop =>
    if s.status.goesOn then some (.tested, { s with pc := .getRegs })
    else some (.ended, { s with pc := .done })
  | .getRegs =>
    let reg := s.tracee.getRegs.getD s.snap.reg
    some (.asked, { s with pc := .peekText, snap := { s.snap with reg := reg } })
  | .peekText =>
    some (.asked, { s with pc := .singleStep, ret := s.tracee.mem.peek s.snap.reg.rip })
  | .singleStep => some (.asked, { s with pc := .wait, tracee := s.tracee.singleStep })
  | .wait => s.waitTo .getRegsReturn
  | .getRegsReturn =>
    let regs := s.tracee.getRegs.getD s.snap.regsReturn
    some (.asked, { s with pc := .print, snap := { s.snap with regsReturn := regs } })
  | .print => some (.printed (s.step w), { s with pc := .loop })
  | .done => none

/-- `trace_son` at its first `waitpid`; the variables hold anything. -/
def start (status : Status) (junk : Snapshots) (ret : Word) : Son :=
  ⟨.waitFirst, status, junk, ret, .starting⟩

end Son

/-- Who takes a step. -/
inductive Act where
  | tracee (before : Tracee) (e : TraceeEvent)
  | son (a : SonAct)

/-- One step of the tracee or of the tracer. -/
inductive SonStep : Son → Act → Son → Prop
  | tracee {s : Son} {t : Tracee} (e : TraceeEvent) (h : s.tracee.next e = some t) :
    SonStep s (.tracee s.tracee e) { s with tracee := t }
  | son {s s' : Son} {a : SonAct} (w : World) (h : s.act w = some (a, s')) :
    SonStep s (.son a) s'

/-- A run by a schedule: `some e` for an event of the tracee, `none` for a step of the tracer.
What cannot be done is left out. -/
def Son.follow (w : World) : Son → List (Option TraceeEvent) → List Act × Son
  | s, [] => ([], s)
  | s, some e :: rest =>
    match s.tracee.next e with
    | some t =>
      let r := Son.follow w { s with tracee := t } rest
      (.tracee s.tracee e :: r.1, r.2)
    | none => s.follow w rest
  | s, none :: rest =>
    match s.act w with
    | some (a, s') =>
      let r := s'.follow w rest
      (.son a :: r.1, r.2)
    | none => s.follow w rest

/-- A schedule gives a run. -/
theorem Son.follow_runs (w : World) (s : Son) (schedule : List (Option TraceeEvent)) :
    Run SonStep s (s.follow w schedule).1 (s.follow w schedule).2 := by
  induction schedule generalizing s with
  | nil => exact .nil
  | cons c rest ih =>
    cases c with
    | some e =>
      rw [Son.follow]
      split
      · rename_i t h
        exact .cons (.tracee e h) (ih _)
      · exact ih s
    | none =>
      rw [Son.follow]
      split
      · rename_i a s' h
        exact .cons (.son w h) (ih s')
      · exact ih s

/-- A program of one instruction, which exits. -/
def exitsAtOnce : List Act × Son :=
  (Son.start (.exited 0) ⟨{}, {}⟩ 0).follow ⟨none, fun _ => .failed⟩
    [some (.starts ⟨{}, Mem.empty⟩ SIGTRAP), none, none, none, none, none,
      some (.exits 0), none, none, none, none]

/-! ## 3. Taking turns -/

/-- What the tracer does at each place, with what it needs for it. -/
inductive Son.Move (w : World) : Son → SonAct → Son → Prop
  | waitFirst {s : Son} {status : Status} {t : Tracee} (hpc : s.pc = .waitFirst)
    (h : s.tracee.wait = some (some status, t)) :
    Move w s (.waited (some status)) { s with pc := .loop, status := status, tracee := t }
  | wait {s : Son} {status : Status} {t : Tracee} (hpc : s.pc = .wait)
    (h : s.tracee.wait = some (some status, t)) :
    Move w s (.waited (some status)) { s with pc := .getRegsReturn, status := status, tracee := t }
  | waitFails {s : Son} {pc : Pc} {t : Tracee} (hpc : s.pc = .waitFirst ∨ s.pc = .wait)
    (h : s.tracee.wait = some (none, t)) :
    Move w s (.waited none) { s with pc := pc, tracee := t }
  | goesOn {s : Son} (hpc : s.pc = .loop) (h : s.status.goesOn = true) :
    Move w s .tested { s with pc := .getRegs }
  | ends {s : Son} (hpc : s.pc = .loop) (h : s.status.goesOn = false) :
    Move w s .ended { s with pc := .done }
  | getRegs {s : Son} (hpc : s.pc = .getRegs) :
    Move w s .asked { s with pc := .peekText,
                             snap := { s.snap with reg := s.tracee.getRegs.getD s.snap.reg } }
  | peekText {s : Son} (hpc : s.pc = .peekText) :
    Move w s .asked { s with pc := .singleStep, ret := s.tracee.mem.peek s.snap.reg.rip }
  | singleStep {s : Son} (hpc : s.pc = .singleStep) :
    Move w s .asked { s with pc := .wait, tracee := s.tracee.singleStep }
  | getRegsReturn {s : Son} (hpc : s.pc = .getRegsReturn) :
    Move w s .asked { s with pc := .print,
                             snap := { s.snap with
                               regsReturn := s.tracee.getRegs.getD s.snap.regsReturn } }
  | print {s : Son} (hpc : s.pc = .print) :
    Move w s (.printed (s.step w)) { s with pc := .loop }

theorem Son.waitTo_eq_some {s s' : Son} {pc : Pc} {a : SonAct} (h : s.waitTo pc = some (a, s')) :
    (∃ status t, s.tracee.wait = some (some status, t) ∧ a = .waited (some status) ∧
        s' = { s with pc := pc, status := status, tracee := t }) ∨
      ∃ t, s.tracee.wait = some (none, t) ∧ a = .waited none ∧
        s' = { s with pc := pc, tracee := t } := by
  unfold Son.waitTo at h
  split at h
  · rename_i status t hwait
    obtain ⟨rfl, rfl⟩ := Prod.mk.inj (Option.some.inj h)
    exact .inl ⟨status, t, hwait, rfl, rfl⟩
  · rename_i t hwait
    obtain ⟨rfl, rfl⟩ := Prod.mk.inj (Option.some.inj h)
    exact .inr ⟨t, hwait, rfl, rfl⟩
  · cases h

/-- **What the tracer can do.** -/
theorem Son.move_of_act {s s' : Son} {w : World} {a : SonAct} (h : s.act w = some (a, s')) :
    s.Move w a s' := by
  cases hpc : s.pc with
  | waitFirst =>
    rw [Son.act, hpc] at h
    rcases Son.waitTo_eq_some h with ⟨status, t, hwait, rfl, rfl⟩ | ⟨t, hwait, rfl, rfl⟩
    · exact .waitFirst hpc hwait
    · exact .waitFails (.inl hpc) hwait
  | loop =>
    rw [Son.act, hpc] at h
    dsimp only at h
    split at h
    · rename_i hgo
      obtain ⟨rfl, rfl⟩ := Prod.mk.inj (Option.some.inj h)
      exact .goesOn hpc hgo
    · rename_i hgo
      obtain ⟨rfl, rfl⟩ := Prod.mk.inj (Option.some.inj h)
      exact .ends hpc (Bool.not_eq_true _ ▸ hgo)
  | getRegs =>
    rw [Son.act, hpc] at h
    obtain ⟨rfl, rfl⟩ := Prod.mk.inj (Option.some.inj h)
    exact .getRegs hpc
  | peekText =>
    rw [Son.act, hpc] at h
    obtain ⟨rfl, rfl⟩ := Prod.mk.inj (Option.some.inj h)
    exact .peekText hpc
  | singleStep =>
    rw [Son.act, hpc] at h
    obtain ⟨rfl, rfl⟩ := Prod.mk.inj (Option.some.inj h)
    exact .singleStep hpc
  | wait =>
    rw [Son.act, hpc] at h
    rcases Son.waitTo_eq_some h with ⟨status, t, hwait, rfl, rfl⟩ | ⟨t, hwait, rfl, rfl⟩
    · exact .wait hpc hwait
    · exact .waitFails (.inr hpc) hwait
  | getRegsReturn =>
    rw [Son.act, hpc] at h
    obtain ⟨rfl, rfl⟩ := Prod.mk.inj (Option.some.inj h)
    exact .getRegsReturn hpc
  | print =>
    rw [Son.act, hpc] at h
    obtain ⟨rfl, rfl⟩ := Prod.mk.inj (Option.some.inj h)
    exact .print hpc
  | done =>
    rw [Son.act, hpc] at h
    cases h

/-- **What can happen to a tracee**: it stops for the first time, executes the instruction it was
resumed for, stops after it or for a signal, or is over. -/
inductive Tracee.Move : Tracee → TraceeEvent → Tracee → Prop
  | starts (cpu : Cpu) (sig : ℕ) : Move starting (.starts cpu sig) (stopped cpu sig false)
  | executes (cpu after : Cpu) : Move (running cpu true) (.executes after) (running after false)
  | stops (cpu : Cpu) (left : Bool) (sig : ℕ) :
    Move (running cpu left) (.stops sig) (stopped cpu sig false)
  | exits (code : ℕ) {t : Tracee} (h : t = starting ∨ ∃ cpu, t = running cpu true) :
    Move t (.exits code) (zombie (.exited code) rfl)
  | dies (sig : ℕ) {t : Tracee} (h : t.isOver = false) :
    Move t (.dies sig) (zombie (.signaled sig) rfl)

theorem Tracee.move_of_next {t t' : Tracee} {e : TraceeEvent} (h : t.next e = some t') :
    t.Move e t' := by
  unfold Tracee.next at h
  split at h
  · obtain rfl := Option.some.inj h
    exact .starts _ _
  · obtain rfl := Option.some.inj h
    exact .exits _ (.inl rfl)
  · obtain rfl := Option.some.inj h
    exact .executes _ _
  · obtain rfl := Option.some.inj h
    exact .exits _ (.inr ⟨_, rfl⟩)
  · obtain rfl := Option.some.inj h
    exact .stops _ _ _
  · obtain rfl := Option.some.inj h
    exact .dies _ rfl
  · obtain rfl := Option.some.inj h
    exact .dies _ rfl
  · obtain rfl := Option.some.inj h
    exact .dies _ rfl
  · cases h

namespace Tracee

variable {t t' : Tracee} {e : TraceeEvent}

/-- A tracee that runs, or has something to be reported, still does after an event. -/
theorem pending_next (h : t.next e = some t') : t'.isRunning = true ∨ t'.reports = true := by
  cases move_of_next h with
  | starts cpu sig => exact .inr rfl
  | executes cpu after => exact .inl rfl
  | stops cpu left sig => exact .inr rfl
  | exits code _ => exact .inr rfl
  | dies sig _ => exact .inr rfl

/-- A tracee that does not run is one that is killed, if anything happens to it. -/
theorem next_of_not_running (h : t.next e = some t') (hrun : t.isRunning = false) :
    ∃ sig, e = .dies sig ∧ t' = zombie (.signaled sig) rfl := by
  cases move_of_next h with
  | starts cpu sig => cases hrun
  | executes cpu after => cases hrun
  | stops cpu left sig => cases hrun
  | exits code ht =>
    obtain rfl | ⟨cpu, rfl⟩ := ht
    · cases hrun
    · cases hrun
  | dies sig _ => exact ⟨sig, rfl, rfl⟩

/-- What a wait returns with. -/
theorem wait_cases {status : Option Status} (h : t.wait = some (status, t')) :
    (∃ cpu sig, t = stopped cpu sig false ∧ status = some (.stopped sig) ∧
        t' = stopped cpu sig true) ∨
      (∃ last hover, t = zombie last hover ∧ status = some last ∧ t' = gone) ∨
      t = gone ∧ status = none ∧ t' = gone := by
  unfold wait at h
  split at h
  · obtain ⟨rfl, rfl⟩ := Prod.mk.inj (Option.some.inj h)
    exact .inl ⟨_, _, rfl, rfl, rfl⟩
  · obtain ⟨rfl, rfl⟩ := Prod.mk.inj (Option.some.inj h)
    exact .inr (.inl ⟨_, _, rfl, rfl, rfl⟩)
  · obtain ⟨rfl, rfl⟩ := Prod.mk.inj (Option.some.inj h)
    exact .inr (.inr ⟨rfl, rfl, rfl⟩)
  · cases h

/-- A wait blocks only on a tracee that runs, or has been seen to stop. -/
theorem wait_eq_none_iff : t.wait = none ↔
    t.isRunning = true ∨ ∃ cpu sig, t = stopped cpu sig true := by
  cases t with
  | starting => simp [wait, isRunning]
  | running cpu left => simp [wait, isRunning]
  | stopped cpu sig seen => cases seen <;> simp [wait, isRunning]
  | zombie status ended => simp [wait, isRunning]
  | gone => simp [wait, isRunning]

/-- A tracee that is at rest does not run. -/
theorem not_running_of_atRest (h : t.atRest = true) : t.isRunning = false := by
  cases t with
  | starting => cases h
  | running cpu left => cases h
  | stopped cpu sig seen => rfl
  | zombie status ended => rfl
  | gone => rfl

end Tracee

/-- Whose turn it is: what the tracer may rely on at each place. -/
def Son.InTurn (s : Son) : Prop :=
  match s.pc with
  | .waitFirst | .wait => s.tracee.isRunning = true ∨ s.tracee.reports = true
  | .getRegs | .peekText | .singleStep => s.tracee.atRest = true
  | .loop | .getRegsReturn | .print =>
    s.tracee.isRunning = false ∧ (s.status.goesOn = true → s.tracee.atRest = true)
  | .done => s.tracee.isRunning = false

/-- A status on which the loop goes on is that of a tracee that is at rest. -/
theorem Tracee.atRest_of_wait {t t' : Tracee} {status : Status}
    (h : t.wait = some (some status, t')) :
    t'.isRunning = false ∧ (status.goesOn = true → t'.atRest = true) := by
  rcases Tracee.wait_cases h with ⟨cpu, sig, -, -, rfl⟩ | ⟨last, hover, -, hst, rfl⟩ | ⟨-, hst, -⟩
  · exact ⟨rfl, fun _ => rfl⟩
  · obtain rfl := Option.some.inj hst
    refine ⟨rfl, fun hgo => ?_⟩
    rw [Status.isOver_of_goesOn hgo] at hover
    cases hover
  · cases hst

/-- A wait fails only on a tracee that is gone. -/
theorem Tracee.gone_of_wait {t t' : Tracee} (h : t.wait = some (none, t')) : t = gone := by
  rcases Tracee.wait_cases h with ⟨_, _, -, hst, -⟩ | ⟨_, _, -, hst, -⟩ | ⟨ht, -, -⟩
  · cases hst
  · cases hst
  · exact ht

/-- An event of the tracee leaves it the tracer's turn if it was. -/
theorem Son.InTurn.tracee {s : Son} {t : Tracee} {e : TraceeEvent} (hs : s.InTurn)
    (h : s.tracee.next e = some t) : Son.InTurn { s with tracee := t } := by
  have hpending := Tracee.pending_next h
  unfold Son.InTurn at hs ⊢
  dsimp only
  split at hs
  · exact hpending
  · exact hpending
  all_goals
    -- the tracee was not running, so it has been killed
    have hrun : s.tracee.isRunning = false := by
      first
        | exact Tracee.not_running_of_atRest hs
        | exact hs.1
        | exact hs
    obtain ⟨sig, -, rfl⟩ := Tracee.next_of_not_running h hrun
    simp [Tracee.isRunning, Tracee.atRest]

/-- Nothing is waited for after it has gone. -/
theorem Son.InTurn.not_gone {s : Son} (hs : s.InTurn) (hpc : s.pc = .waitFirst ∨ s.pc = .wait) :
    s.tracee ≠ .gone := by
  intro hgone
  have hpending : s.tracee.isRunning = true ∨ s.tracee.reports = true := by
    unfold Son.InTurn at hs
    rcases hpc with hpc | hpc <;> (rw [hpc] at hs; exact hs)
  rw [hgone] at hpending
  exact absurd hpending (by decide)

/-- **The turn is kept by every step.** -/
theorem SonStep.inTurn {s s' : Son} {a : Act} (hs : s.InTurn) (h : SonStep s a s') :
    s'.InTurn := by
  cases h with
  | tracee e h => exact hs.tracee h
  | son w h =>
    have hmove := Son.move_of_act h
    have hgone := hs.not_gone
    unfold Son.InTurn at hs
    cases hmove with
    | waitFirst hpc hwait => exact Tracee.atRest_of_wait hwait
    | wait hpc hwait => exact Tracee.atRest_of_wait hwait
    | waitFails hpc hwait => exact absurd (Tracee.gone_of_wait hwait) (hgone hpc)
    | goesOn hpc hgo =>
      rw [hpc] at hs
      exact hs.2 hgo
    | ends hpc hgo =>
      rw [hpc] at hs
      exact hs.1
    | getRegs hpc =>
      rw [hpc] at hs
      exact hs
    | peekText hpc =>
      rw [hpc] at hs
      exact hs
    | singleStep hpc =>
      rw [hpc] at hs
      show s.tracee.singleStep.isRunning = true ∨ s.tracee.singleStep.reports = true
      cases ht : s.tracee with
      | stopped cpu sig seen => exact .inl rfl
      | zombie status ended => exact .inr rfl
      | starting => simp [ht, Tracee.atRest] at hs
      | running cpu left => simp [ht, Tracee.atRest] at hs
      | gone => simp [ht, Tracee.atRest] at hs
    | getRegsReturn hpc =>
      rw [hpc] at hs
      exact hs
    | print hpc =>
      rw [hpc] at hs
      exact hs

/-- A run of the two, from the first `waitpid` on. -/
abbrev SonRuns (status : Status) (junk : Snapshots) (ret : Word) : List Act → Son → Prop :=
  Run SonStep (Son.start status junk ret)

theorem SonRuns.inTurn {status : Status} {junk : Snapshots} {ret : Word} {acts : List Act}
    {s : Son} (h : SonRuns status junk ret acts s) : s.InTurn :=
  h.keeps (fun _ _ _ hs hstep => SonStep.inTurn hs hstep) (.inl rfl)

/-- The tracer can always go on, unless it waits for something that runs. -/
theorem Son.InTurn.act_eq_none {s : Son} (hs : s.InTurn) {w : World} (h : s.act w = none) :
    s.pc = .done ∨ (s.pc = .waitFirst ∨ s.pc = .wait) ∧ s.tracee.isRunning = true := by
  have hblocked (pc : Pc) (hpc : s.pc = .waitFirst ∨ s.pc = .wait) (hwait : s.waitTo pc = none) :
      s.tracee.isRunning = true := by
    have hnone : s.tracee.wait = none := by
      unfold Son.waitTo at hwait
      split at hwait
      · cases hwait
      · cases hwait
      · assumption
    rcases Tracee.wait_eq_none_iff.mp hnone with hrun | ⟨cpu, sig, hstopped⟩
    · exact hrun
    · unfold Son.InTurn at hs
      rcases hpc with hpc | hpc <;> (rw [hpc, hstopped] at hs; cases hs <;> contradiction)
  unfold Son.act at h
  split at h
  case h_1 hpc => exact .inr ⟨.inl hpc, hblocked _ (.inl hpc) h⟩
  case h_2 hpc => split at h <;> cases h
  case h_6 hpc => exact .inr ⟨.inr hpc, hblocked _ (.inr hpc) h⟩
  case h_9 hpc => exact .inl hpc
  all_goals cases h

/-- The tracee runs only while the tracer waits for it. -/
theorem Son.InTurn.waits {s : Son} (hs : s.InTurn) (hrun : s.tracee.isRunning = true) :
    s.pc = .waitFirst ∨ s.pc = .wait := by
  unfold Son.InTurn at hs
  split at hs
  · exact .inl ‹_›
  · exact .inr ‹_›
  all_goals
    first
      | rw [Tracee.not_running_of_atRest hs] at hrun
      | rw [hs.1] at hrun
      | rw [hs] at hrun
    cases hrun

/-- **The tracer and the tracee take turns**, in whatever order things happen: the tracee runs only
while the tracer waits for it, the tracer is held up only by a tracee that runs, and it never waits
for a tracee that is gone. -/
theorem runs_alternate {status : Status} {junk : Snapshots} {ret : Word} {acts : List Act} {s : Son}
    (h : SonRuns status junk ret acts s) :
    (s.tracee.isRunning = true → s.pc = .waitFirst ∨ s.pc = .wait) ∧
    (∀ w, s.act w = none → s.pc = .done ∨ s.tracee.isRunning = true) ∧
    .son (.waited none) ∉ acts := by
  refine ⟨h.inTurn.waits, fun w hw => ?_, ?_⟩
  · exact (h.inTurn.act_eq_none hw).imp_right And.right
  · -- an action that is not there is not the last one either
    refine (h.invariant (I := fun acts s => s.InTurn ∧ Act.son (.waited none) ∉ acts)
      ⟨.inl rfl, List.not_mem_nil⟩ fun acts t a u ⟨ht, hmem⟩ hstep =>
        ⟨SonStep.inTurn ht hstep, fun hin => ?_⟩).2
    rcases List.mem_append.mp hin with hin | hin
    · exact hmem hin
    · obtain rfl := List.mem_singleton.mp hin
      cases hstep with
      | son w hact =>
        cases Son.move_of_act hact with
        | waitFails hpc hwait => exact ht.not_gone hpc (Tracee.gone_of_wait hwait)

theorem runs_alternate_exitsAtOnce :
    exitsAtOnce.1.length = 11 ∧ .son (.waited none) ∉ exitsAtOnce.1 :=
  ⟨rfl, (runs_alternate (Son.follow_runs _ _ _)).2.2⟩

/-! ## 4. Which instructions are printed -/

/-- An instruction: the registers before it, and the word at `rip`. -/
abbrev Executed : Type := UserRegs × Word

/-- The instruction a tracee is at. -/
def Cpu.executed (cpu : Cpu) : Executed := (cpu.regs, cpu.mem.peek cpu.regs.rip)

/-- The instruction that an action executes. -/
def Act.executed : Act → List Executed
  | .tracee (.running cpu true) (.executes _) => [cpu.executed]
  | .tracee (.running cpu true) (.exits _) => [cpu.executed]
  | _ => []

/-- The instruction that an action prints. -/
def Act.printed : Act → List Executed
  | .son (.printed st) => [(st.reg, st.ret)]
  | _ => []

/-- The tracee is stopped before it has executed its instruction, or is killed. -/
def Act.idle : Act → ℕ
  | .tracee (.running _ true) (.stops _) => 1
  | .tracee _ (.dies _) => 1
  | _ => 0

/-- The instructions executed in a run, in order. -/
def executedOf (acts : List Act) : List Executed := acts.flatMap Act.executed

/-- The instructions given to `print_instruction` in a run, in order. -/
def printedOf (acts : List Act) : List Executed := acts.flatMap Act.printed

/-- How often the tracee is stopped before it has executed its instruction, or is killed. -/
def idleOf (acts : List Act) : ℕ := (acts.map Act.idle).sum

@[simp] theorem executedOf_snoc (acts : List Act) (a : Act) :
    executedOf (acts ++ [a]) = executedOf acts ++ a.executed := by simp [executedOf]

@[simp] theorem printedOf_snoc (acts : List Act) (a : Act) :
    printedOf (acts ++ [a]) = printedOf acts ++ a.printed := by simp [printedOf]

@[simp] theorem idleOf_snoc (acts : List Act) (a : Act) :
    idleOf (acts ++ [a]) = idleOf acts + a.idle := by simp [idleOf]

namespace Son

/-- What the tracer has read is the instruction the tracee is at: as far as it has read, and as
long as the tracee has not executed it. -/
def Reads (s : Son) : Prop :=
  match s.pc, s.tracee with
  | .waitFirst, .running _ _ => False
  | .peekText, .stopped cpu _ _ => cpu.regs = s.snap.reg
  | .singleStep, .stopped cpu _ _ => cpu.executed = (s.snap.reg, s.ret)
  | .wait, .running cpu true => cpu.executed = (s.snap.reg, s.ret)
  | _, _ => True

/-- The instruction that has been executed, or never will be, and is not printed yet. -/
def due (s : Son) : List Executed :=
  match s.pc, s.tracee with
  | .wait, .running _ true => []
  | .wait, _ | .getRegsReturn, _ | .print, _ => [(s.snap.reg, s.ret)]
  | _, _ => []

/-- A tracee that is over, and not waited for. -/
def dead (s : Son) : ℕ :=
  match s.tracee with
  | .zombie _ _ => 1
  | _ => 0

/-- How many instructions will be printed that have been executed already, or never will be. -/
def owed (s : Son) : ℕ :=
  match s.pc, s.tracee with
  | .waitFirst, _ => 0
  | .wait, .running _ true => 0
  | .wait, _ => 1
  | .getRegsReturn, _ | .print, _ => 1 + s.dead
  | _, _ => s.dead

end Son

/-- **The account of a run.** -/
structure Accounted (acts : List Act) (s : Son) : Prop where
  inTurn : s.InTurn
  reads : s.Reads
  /-- what has been executed has been printed, or is about to be -/
  sub : List.Sublist (executedOf acts) (printedOf acts ++ s.due)
  count : (printedOf acts).length + s.owed ≤ (executedOf acts).length + idleOf acts

/-- What an event of the tracee adds to the account. -/
structure Son.Adds (s s' : Son) (a : Act) : Prop where
  reads : s.Reads → s'.Reads
  sub : s.Reads → List.Sublist (s.due ++ a.executed) (a.printed ++ s'.due)
  count : a.printed.length + s'.owed ≤ s.owed + a.executed.length + a.idle

theorem Accounted.step {s s' : Son} {a : Act} {acts : List Act} (h : Accounted acts s)
    (hstep : SonStep s a s') (hadds : s.Adds s' a) : Accounted (acts ++ [a]) s' where
  inTurn := SonStep.inTurn h.inTurn hstep
  reads := hadds.reads h.reads
  sub := by
    rw [executedOf_snoc, printedOf_snoc, List.append_assoc]
    have hsub := h.sub.append_right a.executed
    rw [List.append_assoc] at hsub
    exact hsub.trans ((hadds.sub h.reads).append_left (printedOf acts))
  count := by
    have hcount := h.count
    have hadd := hadds.count
    rw [executedOf_snoc, printedOf_snoc, idleOf_snoc, List.length_append, List.length_append]
    omega

/-- A step that neither executes nor prints: what was due stays so, and no more is owed. -/
theorem Son.Adds.silent {s s' : Son} {a : Act} (hexecuted : a.executed = [])
    (hprinted : a.printed = []) (hreads : s.Reads → s'.Reads) (hdue : List.Sublist s.due s'.due)
    (howed : s'.owed ≤ s.owed) : s.Adds s' a where
  reads := hreads
  sub _ := by
    rw [hexecuted, hprinted, List.append_nil, List.nil_append]
    exact hdue
  count := by
    rw [hexecuted, hprinted, List.length_nil]
    omega

/-- An event of the tracee. -/
theorem Son.adds_tracee {s : Son} {t : Tracee} {e : TraceeEvent} (hs : s.InTurn)
    (h : s.tracee.next e = some t) :
    s.Adds { s with tracee := t } (.tracee s.tracee e) := by
  have hwaits := hs.waits
  obtain ⟨pc, status, snap, ret, tracee⟩ := s
  dsimp only at h hwaits
  cases Tracee.move_of_next h with
  | starts cpu sig =>
    obtain rfl | rfl := hwaits rfl
    · exact .silent rfl rfl (fun _ => trivial) .slnil (Nat.le_refl 0)
    · exact .silent rfl rfl (fun _ => trivial) (.refl _) (Nat.le_refl 1)
  | executes cpu after =>
    obtain rfl | rfl := hwaits rfl <;> constructor <;>
      simp [Reads, due, owed, Act.executed, Act.printed, Act.idle]
  | stops cpu left sig =>
    cases left <;> obtain rfl | rfl := hwaits rfl <;> constructor <;>
      simp [Reads, due, owed, Act.executed, Act.printed, Act.idle]
  | exits code ht =>
    obtain rfl | ⟨cpu, rfl⟩ := ht <;> obtain rfl | rfl := hwaits rfl <;> constructor <;>
      simp [Reads, due, owed, Act.executed, Act.printed, Act.idle]
  | dies sig hover =>
    cases tracee with
    | starting =>
      obtain rfl | rfl := hwaits rfl <;> constructor <;>
        simp [Reads, due, owed, Act.executed, Act.printed, Act.idle]
    | running cpu left =>
      cases left <;> obtain rfl | rfl := hwaits rfl <;> constructor <;>
        simp [Reads, due, owed, Act.executed, Act.printed, Act.idle]
    | stopped cpu sig seen =>
      cases pc <;> constructor <;>
        simp [Reads, due, owed, dead, Act.executed, Act.printed, Act.idle]
    | zombie status ended => cases hover
    | gone => cases hover

/-- A step of the tracer. -/
theorem Son.adds_son {s s' : Son} {w : World} {a : SonAct} (hs : s.InTurn)
    (h : s.act w = some (a, s')) : s.Adds s' (.son a) := by
  have hmove := Son.move_of_act h
  have hgone := hs.not_gone
  unfold Son.InTurn at hs
  obtain ⟨pc, status, snap, ret, tracee⟩ := s
  cases hmove with
  | waitFirst hpc hwait =>
    obtain rfl : pc = .waitFirst := hpc
    rcases Tracee.wait_cases hwait with ⟨cpu, sig, rfl, -, rfl⟩ | ⟨last, hover, rfl, -, rfl⟩ | ⟨-, hst, -⟩
    · exact .silent rfl rfl (fun _ => trivial) .slnil (Nat.le_refl 0)
    · exact .silent rfl rfl (fun _ => trivial) .slnil (Nat.le_refl 0)
    · cases hst
  | wait hpc hwait =>
    obtain rfl : pc = .wait := hpc
    rcases Tracee.wait_cases hwait with ⟨cpu, sig, rfl, -, rfl⟩ | ⟨last, hover, rfl, -, rfl⟩ | ⟨-, hst, -⟩
    · exact .silent rfl rfl (fun _ => trivial) (.refl _) (Nat.le_refl 1)
    · exact .silent rfl rfl (fun _ => trivial) (.refl _) (Nat.le_refl 1)
    · cases hst
  | waitFails hpc hwait => exact absurd (Tracee.gone_of_wait hwait) (hgone hpc)
  | goesOn hpc hgo =>
    obtain rfl : pc = .loop := hpc
    exact .silent rfl rfl (fun _ => trivial) .slnil (Nat.le_refl _)
  | ends hpc hgo =>
    obtain rfl : pc = .loop := hpc
    exact .silent rfl rfl (fun _ => trivial) .slnil (Nat.le_refl _)
  | getRegs hpc =>
    obtain rfl : pc = .getRegs := hpc
    refine .silent rfl rfl (fun _ => ?_) .slnil (Nat.le_refl _)
    cases tracee with
    | stopped cpu sig seen => exact (rfl : cpu.regs = cpu.regs)
    | _ => trivial
  | peekText hpc =>
    obtain rfl : pc = .peekText := hpc
    refine .silent rfl rfl (fun hreads => ?_) .slnil (Nat.le_refl _)
    cases tracee with
    | stopped cpu sig seen =>
      have hregs : cpu.regs = snap.reg := hreads
      show (cpu.regs, cpu.mem.peek cpu.regs.rip) = (snap.reg, cpu.mem.peek snap.reg.rip)
      rw [hregs]
    | _ => trivial
  | singleStep hpc =>
    obtain rfl : pc = .singleStep := hpc
    cases tracee with
    | stopped cpu sig seen => exact .silent rfl rfl id .slnil (Nat.le_refl 0)
    | zombie status ended =>
      -- it has been killed, and the instruction will be printed all the same
      exact .silent rfl rfl (fun _ => trivial) (List.nil_sublist _) (Nat.le_refl 1)
    | starting => cases hs
    | running cpu left => cases hs
    | gone => cases hs
  | getRegsReturn hpc =>
    obtain rfl : pc = .getRegsReturn := hpc
    exact .silent rfl rfl (fun _ => trivial) (.refl _) (Nat.le_refl _)
  | print hpc =>
    obtain rfl : pc = .print := hpc
    -- what was due is printed
    exact { reads := fun _ => trivial
            sub := fun _ => .refl _
            count := Nat.le_refl _ }

/-- **The account is kept by every step.** -/
theorem Accounted.next {s s' : Son} {a : Act} {acts : List Act} (h : Accounted acts s)
    (hstep : SonStep s a s') : Accounted (acts ++ [a]) s' := by
  refine h.step hstep ?_
  cases hstep with
  | tracee e ht => exact Son.adds_tracee h.inTurn ht
  | son w ht => exact Son.adds_son h.inTurn ht

theorem accounted_start (status : Status) (junk : Snapshots) (ret : Word) :
    Accounted [] (Son.start status junk ret) where
  inTurn := .inl rfl
  reads := trivial
  sub := .slnil
  count := Nat.le_refl 0

theorem SonRuns.accounted {status : Status} {junk : Snapshots} {ret : Word} {acts : List Act}
    {s : Son} (h : SonRuns status junk ret acts s) : Accounted acts s :=
  h.invariant (accounted_start status junk ret) fun _ _ _ _ ht hstep => ht.next hstep

/-- At the end of a trace everything that has been executed has been printed. -/
theorem SonRuns.sublist_of_done {status : Status} {junk : Snapshots} {ret : Word} {acts : List Act}
    {s : Son} (h : SonRuns status junk ret acts s) (hdone : s.pc = .done) :
    List.Sublist (executedOf acts) (printedOf acts) := by
  have hdue : s.due = [] := by
    unfold Son.due
    rw [hdone]
  have hsub := h.accounted.sub
  rwa [hdue, List.append_nil] at hsub

/-- And it is all that has been printed, if nothing came in between. -/
theorem SonRuns.printed_of_idle {status : Status} {junk : Snapshots} {ret : Word} {acts : List Act}
    {s : Son} (h : SonRuns status junk ret acts s) (hdone : s.pc = .done)
    (hidle : idleOf acts = 0) : printedOf acts = executedOf acts := by
  have hcount := h.accounted.count
  exact ((h.sublist_of_done hdone).eq_of_length_le (by omega)).symm

/-- What is seen of the tracer. -/
def Act.seen : Act → List SonEvent
  | .son (.waited (some status)) => [.reported status]
  | .son (.printed st) => [.step st]
  | .son .ended => [.brace, .close]
  | _ => []

/-- What is seen of the tracer in a run. -/
def seenOf (acts : List Act) : List SonEvent := acts.flatMap Act.seen

@[simp] theorem seenOf_snoc (acts : List Act) (a : Act) :
    seenOf (acts ++ [a]) = seenOf acts ++ a.seen := by simp [seenOf]

/-- The status before the next round. -/
def lastStatus (status : Status) (reads : List RoundReads) : Status :=
  (reads.map RoundReads.status).getLast?.getD status

theorem lastStatus_cons (status : Status) (r : RoundReads) (reads : List RoundReads) :
    lastStatus status (r :: reads) = lastStatus r.status reads := by
  simp [lastStatus, List.getLast?_cons]

section AllDone

variable {status : Status} {reads : List RoundReads}

/-- If a round is made, so are those before it. -/
theorem readsDone_cons_eq {r : RoundReads}
    (h : readsDone status (r :: reads) = r :: reads) :
    status.goesOn = true ∧ readsDone r.status reads = reads := by
  rw [readsDone] at h
  split at h
  · rename_i hgo
    exact ⟨hgo, (List.cons.inj h).2⟩
  · cases h

/-- One more round is made, if the loop goes on. -/
theorem readsDone_snoc (r : RoundReads) (h : readsDone status reads = reads)
    (hgo : (lastStatus status reads).goesOn = true) :
    readsDone status (reads ++ [r]) = reads ++ [r] := by
  induction reads generalizing status with
  | nil =>
    have hgo' : status.goesOn = true := hgo
    rw [List.nil_append, readsDone, if_pos hgo']
    rfl
  | cons r' rs ih =>
    obtain ⟨hgo', hrs⟩ := readsDone_cons_eq h
    rw [lastStatus_cons] at hgo
    rw [List.cons_append, readsDone, if_pos hgo', ih hrs hgo]

/-- The rounds of the reads that are made are all made. -/
theorem roundsDone_of_readsDone (s : Snapshots) (h : readsDone status reads = reads) :
    roundsDone status (roundsOf s reads) = roundsOf s reads := by
  induction reads generalizing s status with
  | nil => rfl
  | cons r rs ih =>
    obtain ⟨hgo, hrs⟩ := readsDone_cons_eq h
    rw [roundsOf, roundsDone, if_pos hgo, ih (s.read r) hrs]

theorem roundsOf_snoc (s : Snapshots) (r : RoundReads) :
    roundsOf s (reads ++ [r]) =
      roundsOf s reads ++ [⟨((s.after reads).read r).step r, r.status⟩] := by
  induction reads generalizing s with
  | nil => rfl
  | cons r' rs ih =>
    rw [List.cons_append, roundsOf, roundsOf, List.cons_append]
    exact congrArg _ (ih (s.read r'))

/-- The loop ends with the last status, if it does not go on. -/
theorem endStatus_of_readsDone (s : Snapshots) (h : readsDone status reads = reads)
    (hgo : (lastStatus status reads).goesOn = false) :
    endStatus status (roundsOf s reads) = some (lastStatus status reads) := by
  induction reads generalizing s status with
  | nil => exact endStatus_of_not_goesOn _ hgo
  | cons r rs ih =>
    obtain ⟨hgo', hrs⟩ := readsDone_cons_eq h
    rw [lastStatus_cons] at hgo ⊢
    rw [roundsOf, endStatus_of_goesOn _ hgo']
    exact ih (s.read r) hrs hgo

end AllDone

/-- The tracer at the head of the loop, and how it came there: by the rounds of some reads, all of
them made, the first status before them. -/
structure AtLoop (junk : Snapshots) (first : Status) (reads : List RoundReads)
    (seen : List SonEvent) (snap : Snapshots) (status : Status) : Prop where
  done : readsDone first reads = reads
  seen : seen = sonFront first (roundsOf junk reads)
  snap : snap = junk.after reads
  status : status = lastStatus first reads
  /-- Nothing can be read of a tracee that is over. -/
  noReturn : ∀ r ∈ reads, r.status.isOver = true → r.regsReturn = none

/-- One more round. -/
theorem AtLoop.snoc {junk snap : Snapshots} {first status : Status} {reads : List RoundReads}
    {seen : List SonEvent} (h : AtLoop junk first reads seen snap status)
    (hgo : status.goesOn = true) (r : RoundReads)
    (hover : r.status.isOver = true → r.regsReturn = none) :
    AtLoop junk first (reads ++ [r])
      (seen ++ [.reported r.status, .step ((snap.read r).step r)]) (snap.read r) r.status where
  done := readsDone_snoc r h.done (h.status ▸ hgo)
  seen := by
    have hdone := readsDone_snoc r h.done (h.status ▸ hgo)
    rw [h.seen, h.snap, sonFront, sonFront, roundsDone_of_readsDone junk hdone,
      roundsDone_of_readsDone junk h.done, roundsOf_snoc, List.flatMap_append]
    simp [Round.events]
  snap := by
    rw [h.snap]
    simp [Snapshots.after]
  status := by simp [lastStatus]
  noReturn := by
    intro r' hr'
    rcases List.mem_append.mp hr' with hr' | hr'
    · exact h.noReturn r' hr'
    · obtain rfl := List.mem_singleton.mp hr'
      exact hover

/-- What is seen at the head of the loop is the front of a run. -/
theorem AtLoop.isPrefix {junk snap : Snapshots} {first status : Status} {reads : List RoundReads}
    {seen : List SonEvent} (h : AtLoop junk first reads seen snap status) :
    seen <+: sonRun first (roundsOf junk reads) := by
  rw [sonRun_eq, h.seen]
  exact List.prefix_append _ _

/-- Where a tracer is in a round that it has begun, `snap` being its variables before it. -/
structure Begun (snap : Snapshots) (reg : Option UserRegs) (text : Word → Word) (s : Son) :
    Prop where
  hreg : s.snap.reg = reg.getD snap.reg
  hret : s.ret = text s.snap.reg.rip
  hgone : reg = none → ∀ addr, text addr = -1

/-- What is seen of a tracer, wherever it is: some rounds, and what it has done of the next. -/
inductive Follows (junk : Snapshots) : List SonEvent → Son → Prop
  | waitFirst {s : Son} (hpc : s.pc = .waitFirst) (hsnap : s.snap = junk) : Follows junk [] s
  | loop {s : Son} {first : Status} {reads : List RoundReads} {seen : List SonEvent}
    (hpc : s.pc = .loop) (h : AtLoop junk first reads seen s.snap s.status) : Follows junk seen s
  | getRegs {s : Son} {first : Status} {reads : List RoundReads} {seen : List SonEvent}
    (hpc : s.pc = .getRegs) (h : AtLoop junk first reads seen s.snap s.status)
    (hgo : s.status.goesOn = true) : Follows junk seen s
  | peekText {s : Son} {first : Status} {reads : List RoundReads} {seen : List SonEvent}
    {snap : Snapshots} {reg : Option UserRegs} (hpc : s.pc = .peekText)
    (h : AtLoop junk first reads seen snap s.status) (hgo : s.status.goesOn = true)
    (hsnap : s.snap = { snap with reg := reg.getD snap.reg })
    (hgone : reg = none → s.tracee.getRegs = none) : Follows junk seen s
  | resumed {s : Son} {first : Status} {reads : List RoundReads} {seen : List SonEvent}
    {snap : Snapshots} {reg : Option UserRegs} {text : Word → Word}
    (hpc : s.pc = .singleStep ∨ s.pc = .wait)
    (h : AtLoop junk first reads seen snap s.status) (hgo : s.status.goesOn = true)
    (hreturn : s.snap.regsReturn = snap.regsReturn) (hbegun : Begun snap reg text s) :
    Follows junk seen s
  | getRegsReturn {s : Son} {first status : Status} {reads : List RoundReads}
    {seen : List SonEvent} {snap : Snapshots} {reg : Option UserRegs} {text : Word → Word}
    (hpc : s.pc = .getRegsReturn) (h : AtLoop junk first reads seen snap status)
    (hgo : status.goesOn = true) (hreturn : s.snap.regsReturn = snap.regsReturn)
    (hbegun : Begun snap reg text s) (hover : s.status.isOver = true → s.tracee.getRegs = none) :
    Follows junk (seen ++ [.reported s.status]) s
  | print {s : Son} {first status : Status} {reads : List RoundReads} {seen : List SonEvent}
    {snap : Snapshots} {reg regs : Option UserRegs} {text : Word → Word}
    (hpc : s.pc = .print) (h : AtLoop junk first reads seen snap status)
    (hgo : status.goesOn = true) (hreturn : s.snap.regsReturn = regs.getD snap.regsReturn)
    (hbegun : Begun snap reg text s) (hover : s.status.isOver = true → regs = none) :
    Follows junk (seen ++ [.reported s.status]) s
  | done {s : Son} {first : Status} {reads : List RoundReads} {seen : List SonEvent}
    (hpc : s.pc = .done) (hdone : readsDone first reads = reads)
    (hover : ∀ r ∈ reads, r.status.isOver = true → r.regsReturn = none)
    (hseen : seen = sonRun first (roundsOf junk reads)) : Follows junk seen s

/-- A tracee that does not run cannot be read after an event: it is over. -/
theorem Tracee.getRegs_next {t t' : Tracee} {e : TraceeEvent} (h : t.next e = some t')
    (hrun : t.isRunning = false) : t'.getRegs = none := by
  obtain ⟨sig, -, rfl⟩ := Tracee.next_of_not_running h hrun
  rfl

/-- Where the registers cannot be read, neither can the text. -/
theorem Tracee.peek_of_getRegs {t : Tracee} (h : t.getRegs = none) (addr : Word) :
    t.mem.peek addr = -1 := by
  cases t with
  | stopped cpu sig seen => cases h
  | starting => exact Mem.peek_of_byte_none rfl
  | running cpu left => exact Mem.peek_of_byte_none rfl
  | zombie status ended => exact Mem.peek_of_byte_none rfl
  | gone => exact Mem.peek_of_byte_none rfl

/-- An event of the tracee is not seen. -/
theorem Follows.tracee {junk : Snapshots} {seen : List SonEvent} {s : Son} {t : Tracee}
    {e : TraceeEvent} (hf : Follows junk seen s) (hs : s.InTurn) (h : s.tracee.next e = some t) :
    Follows junk seen { s with tracee := t } := by
  unfold Son.InTurn at hs
  cases hf with
  | waitFirst hpc hsnap => exact .waitFirst hpc hsnap
  | loop hpc hloop => exact .loop hpc hloop
  | getRegs hpc hloop hgo => exact .getRegs hpc hloop hgo
  | peekText hpc hloop hgo hsnap hgone =>
    rw [hpc] at hs
    exact .peekText hpc hloop hgo hsnap
      fun _ => Tracee.getRegs_next h (Tracee.not_running_of_atRest hs)
  | resumed hpc hloop hgo hreturn hbegun =>
    exact .resumed hpc hloop hgo hreturn ⟨hbegun.hreg, hbegun.hret, hbegun.hgone⟩
  | getRegsReturn hpc hloop hgo hreturn hbegun hover =>
    rw [hpc] at hs
    exact .getRegsReturn (s := { s with tracee := t }) hpc hloop hgo hreturn
      ⟨hbegun.hreg, hbegun.hret, hbegun.hgone⟩ fun _ => Tracee.getRegs_next h hs.1
  | print hpc hloop hgo hreturn hbegun hover =>
    exact .print (s := { s with tracee := t }) hpc hloop hgo hreturn
      ⟨hbegun.hreg, hbegun.hret, hbegun.hgone⟩ hover
  | done hpc hdone hover hseen => exact .done hpc hdone hover hseen

/-- A step of the tracer is seen. -/
theorem Follows.son {junk : Snapshots} {seen : List SonEvent} {s s' : Son} {w : World} {a : SonAct}
    (hf : Follows junk seen s) (hs : s.InTurn) (h : s.act w = some (a, s')) :
    Follows junk (seen ++ (Act.son a).seen) s' := by
  have hmove := Son.move_of_act h
  have hgone := hs.not_gone
  have hasked : seen ++ (Act.son .asked).seen = seen := List.append_nil seen
  cases hmove with
  | waitFails hpc hwait => exact absurd (Tracee.gone_of_wait hwait) (hgone hpc)
  | waitFirst hpc hwait =>
    cases hf with
    | waitFirst _ hsnap =>
      rename_i status _ _
      have hloop : AtLoop junk status [] [.reported status] s.snap status :=
        { done := rfl
          seen := rfl
          snap := hsnap
          status := rfl
          noReturn := fun r hr => absurd hr List.not_mem_nil }
      exact .loop rfl hloop
    | _ => simp_all
  | wait hpc hwait =>
    cases hf with
    | resumed _ hloop hgo hreturn hbegun =>
      rw [show (Act.son (.waited (some _))).seen = [.reported _] from rfl]
      refine .getRegsReturn (s := { s with pc := _, status := _, tracee := _ }) rfl hloop hgo
        hreturn ⟨hbegun.hreg, hbegun.hret, hbegun.hgone⟩ fun hover => ?_
      -- a tracee whose end has been reported is gone
      rcases Tracee.wait_cases hwait with ⟨cpu, sig, -, hst, -⟩ | ⟨_, _, -, -, rfl⟩ | ⟨-, hst, -⟩
      · rw [Option.some.inj hst] at hover
        cases hover
      · rfl
      · cases hst
    | _ => simp_all
  | goesOn hpc hgo =>
    cases hf with
    | loop _ hloop =>
      rw [show (Act.son .tested).seen = [] from rfl, List.append_nil]
      exact .getRegs rfl hloop hgo
    | _ => simp_all
  | ends hpc hgo =>
    cases hf with
    | loop _ hloop =>
      refine .done rfl hloop.done hloop.noReturn ?_
      rw [sonRun_eq, hloop.seen, sonEnd,
        endStatus_of_readsDone junk hloop.done (hloop.status ▸ hgo)]
      rfl
    | _ => simp_all
  | getRegs hpc =>
    cases hf with
    | getRegs _ hloop hgo =>
      rw [hasked]
      exact .peekText rfl hloop hgo rfl id
    | _ => simp_all
  | peekText hpc =>
    cases hf with
    | peekText _ hloop hgo hsnap hgone =>
      rw [hasked]
      have hreg := congrArg Snapshots.reg hsnap
      have hreturn := congrArg Snapshots.regsReturn hsnap
      exact .resumed (.inl rfl) hloop hgo hreturn
        ⟨hreg, rfl, fun hnone => Tracee.peek_of_getRegs (hgone hnone)⟩
    | _ => simp_all
  | singleStep hpc =>
    cases hf with
    | resumed _ hloop hgo hreturn hbegun =>
      rw [hasked]
      exact .resumed (.inr rfl) hloop hgo hreturn ⟨hbegun.hreg, hbegun.hret, hbegun.hgone⟩
    | _ => simp_all
  | getRegsReturn hpc =>
    cases hf with
    | getRegsReturn _ hloop hgo hreturn hbegun hover =>
      rw [hasked]
      refine .print (s := { s with pc := _, snap := _ }) rfl hloop hgo ?_
        ⟨hbegun.hreg, hbegun.hret, hbegun.hgone⟩ hover
      exact congrArg (Option.getD s.tracee.getRegs) hreturn
    | _ => simp_all
  | print hpc =>
    cases hf with
    | print _ hloop hgo hreturn hbegun hover =>
      rename_i snap reg regs text _
      let r : RoundReads :=
        { reg := reg
          text := text
          status := s.status
          regsReturn := regs
          mem := s.tracee.mem
          maps := w.maps
          load := w.load
          gone := hbegun.hgone }
      have hsnap : s.snap = snap.read r := by
        show s.snap = ⟨reg.getD snap.reg, regs.getD snap.regsReturn⟩
        rw [← hbegun.hreg, ← hreturn]
      have hstep : s.step w = (snap.read r).step r := by
        rw [← hsnap]
        unfold Son.step Snapshots.step
        rw [hbegun.hret]
      have hround := hloop.snoc hgo r hover
      rw [← hsnap] at hround
      rw [show (Act.son (.printed (s.step w))).seen = [.step (s.step w)] from rfl, hstep,
        ← hsnap, List.append_assoc]
      exact .loop rfl hround
    | _ => simp_all

/-- The report of a round, which comes before its step, is that of a run. -/
theorem AtLoop.reported {junk snap : Snapshots} {first status : Status} {reads : List RoundReads}
    {seen : List SonEvent} {reg : Option UserRegs} {text : Word → Word} {s : Son}
    (h : AtLoop junk first reads seen snap status) (hgo : status.goesOn = true)
    (hbegun : Begun snap reg text s) :
    ∃ reads, readsDone first reads = reads ∧
      (∀ r ∈ reads, r.status.isOver = true → r.regsReturn = none) ∧
      seen ++ [.reported s.status] <+: sonRun first (roundsOf junk reads) := by
  let r : RoundReads :=
    { reg := reg
      text := text
      status := s.status
      regsReturn := none
      mem := Mem.empty
      maps := none
      load := fun _ => .failed
      gone := hbegun.hgone }
  have hround := h.snoc hgo r fun _ => rfl
  refine ⟨reads ++ [r], hround.done, hround.noReturn, List.IsPrefix.trans ?_ hround.isPrefix⟩
  exact (List.prefix_append_right_inj _).mpr ⟨[_], rfl⟩

/-- What a tracer follows is a run of the loop, all of it when it has returned. -/
theorem Follows.exists_sonRun {junk : Snapshots} {seen : List SonEvent} {s : Son}
    (h : Follows junk seen s) :
    ∃ first reads, readsDone first reads = reads ∧
      (∀ r ∈ reads, r.status.isOver = true → r.regsReturn = none) ∧
      seen <+: sonRun first (roundsOf junk reads) ∧
      (s.pc = .done → seen = sonRun first (roundsOf junk reads)) := by
  have hgoing {pc : Pc} (hpc : s.pc = pc) (hne : pc ≠ .done) {p : Prop} (hdone : s.pc = .done) : p :=
    absurd (hpc.symm.trans hdone) hne
  cases h with
  | waitFirst hpc hsnap =>
    exact ⟨s.status, [], rfl, fun r hr => absurd hr List.not_mem_nil, List.nil_prefix,
      hgoing hpc (by decide)⟩
  | loop hpc hloop =>
    exact ⟨_, _, hloop.done, hloop.noReturn, hloop.isPrefix, hgoing hpc (by decide)⟩
  | getRegs hpc hloop hgo =>
    exact ⟨_, _, hloop.done, hloop.noReturn, hloop.isPrefix, hgoing hpc (by decide)⟩
  | peekText hpc hloop hgo hsnap hgone =>
    exact ⟨_, _, hloop.done, hloop.noReturn, hloop.isPrefix, hgoing hpc (by decide)⟩
  | resumed hpc hloop hgo hreturn hbegun =>
    refine ⟨_, _, hloop.done, hloop.noReturn, hloop.isPrefix, ?_⟩
    rcases hpc with hpc | hpc
    · exact hgoing hpc (by decide)
    · exact hgoing hpc (by decide)
  | getRegsReturn hpc hloop hgo hreturn hbegun hover =>
    obtain ⟨reads, hdone, hover, hseen⟩ := hloop.reported hgo hbegun
    exact ⟨_, reads, hdone, hover, hseen, hgoing hpc (by decide)⟩
  | print hpc hloop hgo hreturn hbegun hover =>
    obtain ⟨reads, hdone, hover, hseen⟩ := hloop.reported hgo hbegun
    exact ⟨_, reads, hdone, hover, hseen, hgoing hpc (by decide)⟩
  | done hpc hdone hover hseen =>
    exact ⟨_, _, hdone, hover, hseen ▸ List.prefix_rfl, fun _ => hseen⟩

theorem SonRuns.follows {status : Status} {junk : Snapshots} {ret : Word} {acts : List Act}
    {s : Son} (h : SonRuns status junk ret acts s) : Follows junk (seenOf acts) s := by
  refine (h.invariant (I := fun acts s => s.InTurn ∧ Follows junk (seenOf acts) s)
    ⟨.inl rfl, .waitFirst rfl rfl⟩ fun acts t a u ⟨ht, hf⟩ hstep =>
      ⟨SonStep.inTurn ht hstep, ?_⟩).2
  rw [seenOf_snoc]
  cases hstep with
  | tracee e h =>
    rw [show (Act.tracee t.tracee e).seen = [] from rfl, List.append_nil]
    exact hf.tracee ht h
  | son w h => exact hf.son ht h

/-- **The loop is what the tracer does**, in whatever order things happen to the tracee: at any
time what has been seen of it is the beginning of a run of `sonRun`, and when it has returned it is
all of one, whose rounds are those of the reads that were made.  A tracee whose end is reported
gives nothing to read after it. -/
theorem son_refines {status : Status} {junk : Snapshots} {ret : Word} {acts : List Act} {s : Son}
    (h : SonRuns status junk ret acts s) :
    ∃ first reads, readsDone first reads = reads ∧
      (∀ r ∈ reads, r.status.isOver = true → r.regsReturn = none) ∧
      seenOf acts <+: sonRun first (roundsOf junk reads) ∧
      (s.pc = .done → seenOf acts = sonRun first (roundsOf junk reads)) :=
  h.follows.exists_sonRun

theorem son_refines_exitsAtOnce :
    exitsAtOnce.2.pc = .done ∧ ∃ first reads, readsDone first reads = reads ∧
      (∀ r ∈ reads, r.status.isOver = true → r.regsReturn = none) ∧
      seenOf exitsAtOnce.1 <+: sonRun first (roundsOf ⟨{}, {}⟩ reads) ∧
      (exitsAtOnce.2.pc = .done → seenOf exitsAtOnce.1 = sonRun first (roundsOf ⟨{}, {}⟩ reads)) :=
  have hrun : SonRuns (.exited 0) ⟨{}, {}⟩ 0 exitsAtOnce.1 exitsAtOnce.2 := Son.follow_runs _ _ _
  ⟨rfl, son_refines hrun⟩

/-! ## 6. The end -/

/-- How many steps there are to the end of the trace of a tracee that is over. -/
def Son.stepsLeft (s : Son) : ℕ :=
  match s.pc with
  | .waitFirst => 2
  | .loop => if s.status.goesOn then 8 else 1
  | .getRegs => 7
  | .peekText => 6
  | .singleStep => 5
  | .wait => 4
  | .getRegsReturn => if s.status.goesOn then 10 else 3
  | .print => if s.status.goesOn then 9 else 2
  | .done => 0

theorem Son.stepsLeft_le (s : Son) : s.stepsLeft ≤ 10 := by
  unfold Son.stepsLeft
  split <;> (try split) <;> omega

/-- Nothing happens to a tracee that is over. -/
theorem Tracee.next_of_isOver {t : Tracee} (h : t.isOver = true) (e : TraceeEvent) :
    t.next e = none := by
  cases t with
  | zombie status ended => rfl
  | gone => rfl
  | starting => cases h
  | running cpu left => cases h
  | stopped cpu sig seen => cases h

/-- The wait for a tracee that is over reports its end. -/
theorem Tracee.wait_of_isOver {t t' : Tracee} {status : Status} (h : t.isOver = true)
    (hwait : t.wait = some (some status, t')) : status.goesOn = false ∧ t'.isOver = true := by
  rcases Tracee.wait_cases hwait with ⟨cpu, sig, rfl, -, -⟩ | ⟨last, hover, -, hst, rfl⟩ |
    ⟨-, hst, -⟩
  · cases h
  · obtain rfl := Option.some.inj hst
    refine ⟨Bool.eq_false_iff.mpr fun hgo => ?_, rfl⟩
    rw [Status.isOver_of_goesOn hgo] at hover
    cases hover
  · cases hst

/-- **A tracee that is over stays so, and each step brings the end nearer.** -/
theorem SonStep.stepsLeft {s s' : Son} {a : Act} (hs : s.InTurn) (hover : s.tracee.isOver = true)
    (h : SonStep s a s') : s'.tracee.isOver = true ∧ s'.stepsLeft < s.stepsLeft := by
  cases h with
  | tracee e h =>
    rw [Tracee.next_of_isOver hover] at h
    cases h
  | son w h =>
    cases Son.move_of_act h with
    | waitFirst hpc hwait =>
      obtain ⟨hgo, hover'⟩ := Tracee.wait_of_isOver hover hwait
      exact ⟨hover', by simp [Son.stepsLeft, hpc, hgo]⟩
    | wait hpc hwait =>
      obtain ⟨hgo, hover'⟩ := Tracee.wait_of_isOver hover hwait
      exact ⟨hover', by simp [Son.stepsLeft, hpc, hgo]⟩
    | waitFails hpc hwait => exact absurd (Tracee.gone_of_wait hwait) (hs.not_gone hpc)
    | goesOn hpc hgo => exact ⟨hover, by simp [Son.stepsLeft, hpc, hgo]⟩
    | ends hpc hgo => exact ⟨hover, by simp [Son.stepsLeft, hpc, hgo]⟩
    | getRegs hpc => exact ⟨hover, by simp [Son.stepsLeft, hpc]⟩
    | peekText hpc => exact ⟨hover, by simp [Son.stepsLeft, hpc]⟩
    | singleStep hpc =>
      refine ⟨?_, by simp [Son.stepsLeft, hpc]⟩
      show s.tracee.singleStep.isOver = true
      cases ht : s.tracee with
      | stopped cpu sig seen => simp [ht, Tracee.isOver] at hover
      | starting => simp [ht, Tracee.isOver] at hover
      | running cpu left => simp [ht, Tracee.isOver] at hover
      | zombie status ended => rfl
      | gone => rfl
    | getRegsReturn hpc =>
      refine ⟨hover, ?_⟩
      cases hgo : s.status.goesOn <;> simp [Son.stepsLeft, hpc, hgo]
    | print hpc =>
      refine ⟨hover, ?_⟩
      cases hgo : s.status.goesOn <;> simp [Son.stepsLeft, hpc, hgo]

/-- **The trace ends with the tracee**: once the tracee is over, at most ten more steps are taken
in any order of things, and short of the end of `trace_son` there is always one to take. -/
theorem trace_ends {status : Status} {junk : Snapshots} {ret : Word} {acts : List Act} {s : Son}
    (h : SonRuns status junk ret acts s) (hover : s.tracee.isOver = true) :
    (∀ acts' t, Run SonStep s acts' t →
      acts'.length ≤ 10 ∧ (t.pc = .done ∨ ∃ a u, SonStep t a u)) ∧
    ∃ acts' t, Run SonStep s acts' t ∧ t.pc = .done := by
  have hkeep (t : Son) (a : Act) (u : Son) (ht : t.InTurn ∧ t.tracee.isOver = true)
      (hstep : SonStep t a u) : u.InTurn ∧ u.tracee.isOver = true :=
    ⟨SonStep.inTurn ht.1 hstep, (SonStep.stepsLeft ht.1 ht.2 hstep).1⟩
  have hmove (t : Son) (ht : t.InTurn ∧ t.tracee.isOver = true) (hdone : t.pc ≠ .done) :
      ∃ a u, SonStep t a u := by
    let w : World := ⟨none, fun _ => .failed⟩
    cases hact : t.act w with
    | some p => exact ⟨_, p.2, .son w hact⟩
    | none =>
      rcases ht.1.act_eq_none hact with hpc | ⟨-, hrun⟩
      · exact absurd hpc hdone
      · cases htr : t.tracee <;> simp_all [Tracee.isRunning, Tracee.isOver]
  refine ⟨fun acts' t hrun => ⟨?_, ?_⟩, ?_⟩
  · have hlen := hrun.length_le hkeep
      (fun t a u ht hstep => (SonStep.stepsLeft ht.1 ht.2 hstep).2) ⟨h.inTurn, hover⟩
    have hle := s.stepsLeft_le
    omega
  · by_cases hdone : t.pc = .done
    · exact .inl hdone
    · exact .inr (hmove t (hrun.keeps hkeep ⟨h.inTurn, hover⟩) hdone)
  · refine exists_run (I := fun t => t.InTurn ∧ t.tracee.isOver = true) (μ := Son.stepsLeft)
      (fun t ht hdone => ?_) ⟨h.inTurn, hover⟩
    obtain ⟨a, u, hstep⟩ := hmove t ht hdone
    exact ⟨a, u, hstep, hkeep t a u ht hstep, (SonStep.stepsLeft ht.1 ht.2 hstep).2⟩

theorem trace_ends_exitsAtOnce : ∃ acts t, Run SonStep exitsAtOnce.2 acts t ∧ t.pc = .done :=
  have hrun : SonRuns (.exited 0) ⟨{}, {}⟩ 0 exitsAtOnce.1 exitsAtOnce.2 := Son.follow_runs _ _ _
  (trace_ends hrun rfl).2

end Ftrace
