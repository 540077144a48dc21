/-
# The loop of `trace_son`

`trace_son` waits for the tracee, and as long as it is told that the tracee has stopped by
`SIGTRAP` or `SIGSTOP` it steps it on, prints the instruction and waits again.  Then it writes
the closing brace.

A tracee stops for every signal it is sent, so a stop by any other signal ends the trace of a
tracee that is still alive; `my_wait` of `wait.c` looks at `WIFEXITED` instead.
`braceOnlyWhenOver_iff` says which runs end in time: those in which no such stop is reported
before the tracee has exited or been killed.
-/
import Ftrace.Exec

namespace Ftrace

/-! ## 1. Wait statuses -/

def SIGCHLD : ℕ := 17
def SIGSTOP : ℕ := 19
def SIGTRAP : ℕ := 5

/-- What `waitpid` reports of the tracee. -/
inductive Status where
  /-- a stop: a trap, a group stop, or a signal on its way to the tracee -/
  | stopped (sig : ℕ)
  | exited (code : ℕ)
  | signaled (sig : ℕ)
  deriving DecidableEq, Repr

namespace Status

/-- `WIFSTOPPED`. -/
def wifstopped : Status → Bool
  | stopped _ => true
  | _ => false

/-- `WSTOPSIG`. -/
def wstopsig : Status → ℕ
  | stopped sig => sig
  | _ => 0

/-- The condition of the loop. -/
def goesOn (status : Status) : Bool :=
  status.wifstopped && (status.wstopsig = SIGTRAP || status.wstopsig = SIGSTOP)

/-- The tracee has exited or been killed: `WIFEXITED` or `WIFSIGNALED`. -/
def isOver : Status → Bool
  | stopped _ => false
  | _ => true

/-- The loop does not go on without a tracee. -/
theorem isOver_of_goesOn {status : Status} (h : status.goesOn = true) : status.isOver = false := by
  cases status with
  | stopped sig => rfl
  | exited code => cases h
  | signaled sig => cases h

end Status

/-! ## 2. A run -/

/-- One round: the step, and the status reported for it. -/
structure Round where
  step : Step
  status : Status

/-- What happens in a run. -/
inductive SonEvent where
  | reported (status : Status)
  /-- `fd = print_instruction (…)` -/
  | step (st : Step)
  /-- `write (fd, "}\n", 2)` -/
  | brace
  /-- `close (fd)` -/
  | close

/-- The loop, as far as the rounds go.  A step is printed after the status that follows it has
been reported, and only then is that status looked at. -/
def sonLoop : Status → List Round → List SonEvent
  | status, [] => if status.goesOn then [] else [.brace, .close]
  | status, r :: rounds =>
    if status.goesOn then .reported r.status :: .step r.step :: sonLoop r.status rounds
    else [.brace, .close]

/-- `trace_son` from its first `waitpid` on, which reports `status`. -/
def sonRun (status : Status) (rounds : List Round) : List SonEvent :=
  .reported status :: sonLoop status rounds

/-- The rounds the loop makes. -/
def roundsDone : Status → List Round → List Round
  | _, [] => []
  | status, r :: rounds => if status.goesOn then r :: roundsDone r.status rounds else []

/-- The status that ends the loop: the first one on which it does not go on. -/
def endStatus (status : Status) (rounds : List Round) : Option Status :=
  (status :: rounds.map Round.status).find? fun s => !s.goesOn

/-- The events of one round. -/
def Round.events (r : Round) : List SonEvent := [.reported r.status, .step r.step]

/-- The events after the loop, if it ends. -/
def sonEnd (status : Status) (rounds : List Round) : List SonEvent :=
  if (endStatus status rounds).isSome then [.brace, .close] else []

section Rounds

variable {status : Status} (rounds : List Round)

theorem endStatus_of_goesOn (h : status.goesOn = true) (r : Round) :
    endStatus status (r :: rounds) = endStatus r.status rounds := by
  unfold endStatus
  rw [List.find?_cons_of_neg (by simp [h])]
  rfl

theorem endStatus_of_not_goesOn (h : status.goesOn = false) :
    endStatus status rounds = some status :=
  List.find?_cons_of_pos (by simp [h])

theorem roundsDone_of_not_goesOn (h : status.goesOn = false) : roundsDone status rounds = [] := by
  cases rounds with
  | nil => rfl
  | cons r rounds => rw [roundsDone, h, if_neg Bool.false_ne_true]

theorem sonLoop_of_not_goesOn (h : status.goesOn = false) :
    sonLoop status rounds = [.brace, .close] := by
  cases rounds with
  | nil => rw [sonLoop, h, if_neg Bool.false_ne_true]
  | cons r rounds => rw [sonLoop, h, if_neg Bool.false_ne_true]

end Rounds

/-- **A run is its rounds and its end.** -/
theorem sonLoop_eq (status : Status) (rounds : List Round) :
    sonLoop status rounds
      = (roundsDone status rounds).flatMap Round.events ++ sonEnd status rounds := by
  induction rounds generalizing status with
  | nil =>
    cases hgo : status.goesOn <;>
      simp [sonLoop, sonEnd, roundsDone, endStatus, hgo]
  | cons r rounds ih =>
    cases hgo : status.goesOn with
    | true =>
      rw [sonLoop, roundsDone, hgo, if_pos rfl, if_pos rfl, ih r.status]
      unfold sonEnd
      rw [endStatus_of_goesOn rounds hgo]
      rfl
    | false =>
      rw [sonLoop_of_not_goesOn _ hgo, roundsDone_of_not_goesOn _ hgo]
      unfold sonEnd
      rw [endStatus_of_not_goesOn _ hgo]
      rfl

/-- The status that ends the loop has been reported. -/
theorem endStatus_reported {status last : Status} {rounds : List Round}
    (h : endStatus status rounds = some last) :
    last = status ∨ ∃ r ∈ roundsDone status rounds, last = r.status := by
  induction rounds generalizing status with
  | nil =>
    have hmem : last ∈ [status] := List.mem_of_find?_eq_some h
    exact .inl (List.mem_singleton.mp hmem)
  | cons r rounds ih =>
    cases hgo : status.goesOn with
    | true =>
      rw [endStatus_of_goesOn rounds hgo] at h
      rw [roundsDone, hgo, if_pos rfl]
      rcases ih h with hlast | ⟨r', hmem, hlast⟩
      · exact .inr ⟨r, List.mem_cons_self, hlast⟩
      · exact .inr ⟨r', List.mem_cons_of_mem _ hmem, hlast⟩
    | false =>
      rw [endStatus_of_not_goesOn _ hgo] at h
      exact .inl (Option.some.inj h).symm

/-- A status that has been reported is one on which the loop goes on, or the one that ends it. -/
theorem reported_cases {status s : Status} {rounds : List Round}
    (h : s = status ∨ ∃ r ∈ roundsDone status rounds, s = r.status) :
    s.goesOn = true ∨ endStatus status rounds = some s := by
  induction rounds generalizing status with
  | nil =>
    obtain rfl : s = status := by simpa [roundsDone] using h
    cases hgo : s.goesOn with
    | true => exact .inl rfl
    | false => exact .inr (endStatus_of_not_goesOn [] hgo)
  | cons r rounds ih =>
    cases hgo : status.goesOn with
    | true =>
      rw [roundsDone, hgo, if_pos rfl] at h
      rw [endStatus_of_goesOn rounds hgo]
      rcases h with rfl | ⟨r', hmem, rfl⟩
      · exact .inl hgo
      · rcases List.mem_cons.mp hmem with rfl | hmem
        · exact ih (.inl rfl)
        · exact ih (.inr ⟨r', hmem, rfl⟩)
    | false =>
      rw [roundsDone_of_not_goesOn _ hgo] at h
      obtain rfl : s = status := by simpa using h
      exact .inr (endStatus_of_not_goesOn _ hgo)

/-! ## 3. When the trace ends -/

/-- The brace is written, and the trace ends, only after a report that the tracee has exited or
been killed. -/
def BraceOnlyWhenOver (es : List SonEvent) : Prop :=
  ∀ pre post, es = pre ++ .brace :: post → ∃ status, .reported status ∈ pre ∧ status.isOver = true

/-- The events before the end of a run. -/
def sonFront (status : Status) (rounds : List Round) : List SonEvent :=
  .reported status :: (roundsDone status rounds).flatMap Round.events

theorem sonRun_eq (status : Status) (rounds : List Round) :
    sonRun status rounds = sonFront status rounds ++ sonEnd status rounds := by
  unfold sonRun
  rw [sonLoop_eq]
  rfl

theorem brace_not_mem_sonFront (status : Status) (rounds : List Round) :
    .brace ∉ sonFront status rounds := by
  simp [sonFront, Round.events]

theorem reported_mem_sonFront {status s : Status} {rounds : List Round} :
    .reported s ∈ sonFront status rounds ↔
      s = status ∨ ∃ r ∈ roundsDone status rounds, s = r.status := by
  simp [sonFront, Round.events]

/-- **The trace ends in time exactly if** the status that ends it says that the tracee has exited
or been killed: no stop by another signal than `SIGTRAP` and `SIGSTOP` comes before. -/
theorem braceOnlyWhenOver_iff (status : Status) (rounds : List Round) :
    BraceOnlyWhenOver (sonRun status rounds) ↔
      ∀ last, endStatus status rounds = some last → last.isOver = true := by
  rw [sonRun_eq]
  constructor
  · intro h last hlast
    have hend : sonEnd status rounds = [.brace, .close] := by simp [sonEnd, hlast]
    obtain ⟨s, hmem, hover⟩ := h (sonFront status rounds) [.close] (by rw [hend])
    -- a status on which the loop goes on is a stop, so `s` is the one that ends it
    rcases reported_cases (reported_mem_sonFront.mp hmem) with hgo | hs
    · rw [Status.isOver_of_goesOn hgo] at hover
      cases hover
    · obtain rfl : s = last := Option.some.inj (hs.symm.trans hlast)
      exact hover
  · intro hover pre post hes
    cases hlast : endStatus status rounds with
    | none =>
      have hend : sonEnd status rounds = [] := by simp [sonEnd, hlast]
      rw [hend, List.append_nil] at hes
      exact absurd (hes ▸ List.mem_append_right pre List.mem_cons_self)
        (brace_not_mem_sonFront status rounds)
    | some last =>
      refine ⟨last, ?_, hover last hlast⟩
      have hfront : .reported last ∈ sonFront status rounds :=
        reported_mem_sonFront.mpr (endStatus_reported hlast)
      rcases List.append_eq_append_iff.mp hes with ⟨post', hpre, -⟩ | ⟨post', hpre, hpost⟩
      · exact hpre ▸ List.mem_append_left _ hfront
      · cases post' with
        | nil => rwa [hpre, List.append_nil] at hfront
        | cons e post' =>
          obtain rfl : SonEvent.brace = e := (List.cons.inj hpost).1
          exact absurd (hpre ▸ List.mem_append_right pre List.mem_cons_self)
            (brace_not_mem_sonFront status rounds)

/-- A child of the tracee ends: the tracee stops by `SIGCHLD`, and the trace is over. -/
theorem braceOnlyWhenOver_fails :
    ¬ BraceOnlyWhenOver (sonRun (.stopped SIGTRAP) [⟨Step.bare 0x90 {}, .stopped SIGCHLD⟩]) := by
  intro h
  obtain ⟨status, hmem, hover⟩ := h
    [.reported (.stopped SIGTRAP), .reported (.stopped SIGCHLD), .step (Step.bare 0x90 {})]
    [.close] rfl
  simp only [List.mem_cons, List.not_mem_nil, or_false, SonEvent.reported.injEq, reduceCtorEq]
    at hmem
  rcases hmem with rfl | rfl <;> cases hover

end Ftrace
