/-
# The command line

`main.c`: the program to trace is named by an absolute path, is looked for below the current
directory if its name starts with a dot, and in the directories of `PATH` otherwise.

`path` takes the value of `PATH` apart with `strtok`, in place: the string that `getenv` returns
is part of the environment that is handed on.  The search goes through the right directories
(`path_eq`), but the program that is found gets a `PATH` which ends with the first of them,
whichever it was found in (`main_env_iff`).

The outcomes of the system calls are given (`LaunchSys`); `-p` is followed up to the call of
`trace_pid`.
-/
import Ftrace.LoadInfos
import Ftrace.Lib.Strtok

namespace Ftrace

open CText Strtok

/-! ## 1. Strings, messages and outcomes -/

/-- A C string, without the NUL at its end. -/
structure CString where
  text : Text
  noNul : nul ∉ text
  deriving DecidableEq

namespace CString

/-- The C string at the start of some bytes. -/
def of (t : Text) : CString := ⟨cstr t, nul_not_mem_cstr t⟩

theorem of_eq_of {s t : Text} (h : cstr s = cstr t) : of s = of t := CString.mk.injEq .. ▸ h

theorem of_eq_iff {t : Text} (h : nul ∉ t) (s : CString) : of t = s ↔ t = s.text := by
  cases s with
  | mk u hu =>
    rw [of, CString.mk.injEq, cstr_eq_self h]

end CString

def NEED_ARG : Text := "./ftrace [-p PID] or [command argument(s)].\n".toList
def INV_ARG : Text := "Bad argument : Can't exec the binary file : ".toList
def GETENVPWD_ERR : Text :=
  "Error can not have the path of the current directory.\n".toList
def GETENVPATH_ERR : Text :=
  "Error can not have the variable PATH in environement.\n".toList
def MEMORY_ERR : Text := "Error during allocation of memory.\n".toList
def FORK_ERR : Text := "Error with fork : Can not create the process to trace.\n".toList
def EXECVE_ERR : Text := "Error with execve : can't not execute the binary argument.\n".toList
def ACCESS_EXEC_ERR : Text := "Error : No right to exec file : ".toList
def ERR_PTRACE_TRACEME : Text :=
  "Error : ptrace_traceme failed on process to traced.\n".toList

/-- `sizeof` of a message. -/
def sizeofMsg (msg : Text) : ℕ := msg.length + 1

/-- The outcomes of the system calls. -/
structure LaunchSys where
  /-- messages can be written -/
  stderr : Bool
  /-- the n-th `asprintf` gets its memory -/
  asprintf : ℕ → Bool
  /-- the n-th `access (…, X_OK)` is 0 -/
  access : ℕ → CString → Bool
  fork : Bool
  traceme : Bool
  execve : Bool
  /-- what `perror` prints -/
  strerror : Text

/-- The arguments of a call of `execve`. -/
structure Execve where
  file : CString
  argv : List CString
  env : List CString
  deriving DecidableEq

/-- What a call comes to: the text on standard error, of the child too; the value returned; and
the call of `execve` that the child makes. -/
structure Launch where
  err : Text
  value : ℤ
  execve : Option Execve
  deriving DecidableEq

/-- `return (dprintf (2, …) - size + FAILURE)`, where `text` is what is printed. -/
def failWith (stderr : Bool) (text : Text) (size : ℕ) : Launch where
  err := if stderr then text else []
  value := (BitVec.ofInt 32 (dprintfErr stderr text - size + FAILURE)).toInt
  execve := none

/-! ## 2. `main` and what it calls -/

/-- `exec (exec, ag, env)`. -/
def exec (sys : LaunchSys) (file : CString) (ag env : List CString) : Launch :=
  if sys.fork = false then failWith sys.stderr FORK_ERR (sizeofMsg FORK_ERR)
  else if sys.traceme = false then
    ⟨if sys.stderr then sys.strerror ++ ERR_PTRACE_TRACEME else [], SUCCESS, none⟩
  else ⟨if sys.stderr ∧ sys.execve = false then EXECVE_ERR else [], SUCCESS, some ⟨file, ag, env⟩⟩

/-- `getenv (name)`: the first entry of that name, and the string behind its `=`. -/
def getenv (name : Text) : List CString → Option (ℕ × Text)
  | [] => none
  | e :: env =>
    if (name ++ "=".toList).isPrefixOf e.text then some (0, e.text.drop (name.length + 1))
    else (getenv name env).map fun p => (p.1 + 1, p.2)

/-- `"%s/%s"`. -/
def below (dir : Text) (name : CString) : CString := .of (dir ++ "/".toList ++ name.text)

/-- `dprintf (2, "%s%s\n", INV_ARG, ag[0])` and the value returned. -/
def invArg (sys : LaunchSys) (name : CString) : Launch :=
  failWith sys.stderr (INV_ARG ++ name.text ++ "\n".toList) (sizeofMsg INV_ARG + name.text.length)

/-- `current (ag, env)`, where `ag` is `name :: args`. -/
def current (sys : LaunchSys) (name : CString) (args env : List CString) : Launch :=
  match getenv "PWD".toList env with
  | none => failWith sys.stderr GETENVPWD_ERR (sizeofMsg GETENVPWD_ERR)
  | some (_, pwd) =>
    if sys.asprintf 0 = false then failWith sys.stderr MEMORY_ERR (sizeofMsg MEMORY_ERR)
    else
      let tmp := below pwd name
      if sys.access 0 tmp then exec sys tmp (name :: args) env
      else failWith sys.stderr (ACCESS_EXEC_ERR ++ tmp.text ++ "\n".toList)
        (sizeofMsg ACCESS_EXEC_ERR + tmp.text.length + 1)

/-- The delimiters of `strtok (env, ":")`. -/
def isColon (c : Char) : Bool := c == ':'

/-- The environment while the value of `PATH`, in the entry `i`, is taken apart. -/
def envAt (env : List CString) (i : ℕ) (c : Cursor Char) : List CString :=
  env.set i (.of ("PATH=".toList ++ c.buf))

/-- The loop of `path`, from round `n` on, with fuel. -/
def pathLoop (sys : LaunchSys) (name : CString) (args env : List CString) (i : ℕ) :
    ℕ → ℕ → Cursor Char → Option Launch
  | 0, _, _ => none
  | fuel + 1, n, c =>
    match strtok isColon nul c with
    | none => some (invArg sys name)
    | some (tmp, c') =>
      if sys.asprintf n = false then
        some (failWith sys.stderr MEMORY_ERR (sizeofMsg MEMORY_ERR))
      else if sys.access n (below tmp name) then
        some (exec sys (below tmp name) (name :: args) (envAt env i c'))
      else pathLoop sys name args env i fuel (n + 1) c'

/-- `path (ag, env)`.  The message is measured by another one. -/
def path (sys : LaunchSys) (name : CString) (args env : List CString) : Option Launch :=
  match getenv "PATH".toList env with
  | none => some (failWith sys.stderr GETENVPATH_ERR (sizeofMsg GETENVPWD_ERR))
  | some (i, value) => pathLoop sys name args env i (value.length + 1) 0 (.start value)

/-- `trace_exec (ag, env)`. -/
def traceExec (sys : LaunchSys) (name : CString) (args env : List CString) : Option Launch :=
  if name.text.head? = some '.' then some (current sys name args env)
  else if name.text.head? ≠ some '/' then path sys name args env
  else if sys.access 0 name then some (exec sys name (name :: args) env)
  else some (invArg sys name)

/-- What `main` comes to. -/
inductive MainRun where
  /-- `trace_pid (ag[2])` -/
  | tracePid (pidStr : Option CString)
  | returned (l : Launch)
  deriving DecidableEq

/-- `main (ac, ag, env)`, `none` where `ag[1]` lies behind the array. -/
def main (sys : LaunchSys) (ag env : List CString) : Option MainRun :=
  match ag with
  | [] => none
  | [_] => some (.returned (failWith sys.stderr NEED_ARG (sizeofMsg NEED_ARG)))
  | _ :: name :: args =>
    if name.text = "-p".toList then some (.tracePid args.head?)
    else (traceExec sys name args env).map .returned

/-! ## 3. The search -/

/-- What the search is for: the first directory in which the program may be executed.  The
program gets the environment `env`. -/
def searchDirs (sys : LaunchSys) (name : CString) (args env : List CString) :
    ℕ → List Text → Launch
  | _, [] => invArg sys name
  | n, dir :: dirs =>
    if sys.asprintf n = false then failWith sys.stderr MEMORY_ERR (sizeofMsg MEMORY_ERR)
    else if sys.access n (below dir name) then exec sys (below dir name) (name :: args) env
    else searchDirs sys name args env (n + 1) dirs

/-- The environment with the value in the entry `i` ending after its first directory. -/
def cutEnv (env : List CString) (i : ℕ) (value : Text) : List CString :=
  env.set i (.of ("PATH=".toList ++ firstPiece isColon value))

/-- What `getenv` finds. -/
theorem getenv_eq_some {name : Text} {env : List CString} {i : ℕ} {value : Text}
    (h : getenv name env = some (i, value)) :
    ∃ e, env[i]? = some e ∧ e.text = name ++ "=".toList ++ value := by
  induction env generalizing i with
  | nil => cases h
  | cons e env ih =>
    rw [getenv] at h
    split at h
    · rename_i hpre
      obtain ⟨rfl, rfl⟩ := Prod.mk.inj (Option.some.inj h)
      obtain ⟨u, hu⟩ := List.isPrefixOf_iff_prefix.mp hpre
      refine ⟨e, rfl, ?_⟩
      rw [← hu]
      simp
    · obtain ⟨p, hp, heq⟩ := Option.map_eq_some_iff.mp h
      obtain ⟨rfl, rfl⟩ := Prod.mk.inj heq
      exact ih hp

/-- The entry as the program sees it. -/
theorem of_buf_of_readsAs {p pre : Text} {c : Cursor Char} (h : ReadsAs nul p c)
    (hboth : nul ∉ pre ++ p) : CString.of (pre ++ c.buf) = CString.of (pre ++ p) := by
  refine CString.of_eq_of ?_
  rcases h with ⟨u, hu⟩ | rfl
  · have hbuf : pre ++ c.buf = (pre ++ p) ++ nul :: (u ++ c.rest) := by
      simp [Cursor.buf, ← hu]
    rw [hbuf, cstr_append_nul hboth, cstr_eq_self hboth]
  · rw [Cursor.buf, List.append_nil]

/-- **The loop is the search**, and each program that it can find gets the same environment. -/
theorem pathLoop_eq (sys : LaunchSys) (name : CString) (args env : List CString) (i : ℕ)
    {p : Text} (hp : nul ∉ "PATH=".toList ++ p) {fuel : ℕ} (n : ℕ) {c : Cursor Char}
    (hfuel : c.rest.length < fuel)
    (hnext : ∀ t c', strtok isColon nul c = some (t, c') → ReadsAs nul p c') :
    pathLoop sys name args env i fuel n c = some (searchDirs sys name args
      (env.set i (.of ("PATH=".toList ++ p))) n (pieces isColon c.rest)) := by
  induction fuel generalizing n c with
  | zero => omega
  | succ fuel ih =>
    rw [pathLoop]
    cases hs : strtok isColon nul c with
    | none =>
      rw [pieces_of_strtok_none hs]
      rfl
    | some r =>
      obtain ⟨tmp, c'⟩ := r
      have hreads := hnext tmp c' hs
      have henv : envAt env i c' = env.set i (.of ("PATH=".toList ++ p)) := by
        rw [envAt, of_buf_of_readsAs hreads hp]
      have hlt := length_rest_lt hs
      have hrest := ih (n + 1) (c := c') (by omega) fun t c'' h => hreads.next h
      rw [pieces_of_strtok hs, searchDirs]
      simp only [hrest, henv]
      split
      · rfl
      · split <;> rfl

/-- The characters of an entry are those of its name and its value. -/
theorem noNul_firstPiece {env : List CString} {i : ℕ} {value : Text}
    (h : getenv "PATH".toList env = some (i, value)) :
    nul ∉ "PATH=".toList ++ firstPiece isColon value := by
  obtain ⟨e, -, he⟩ := getenv_eq_some h
  have hpre : "PATH=".toList ++ firstPiece isColon value <+: e.text := by
    rw [he]
    exact (List.prefix_append_right_inj _).mpr (firstPiece_begins value)
  exact fun hmem => e.noNul (hpre.subset hmem)

/-- **`path` goes through the directories of `PATH`** in their order, and stops at the first one
that has the program. -/
theorem path_eq (sys : LaunchSys) (name : CString) (args env : List CString) :
    path sys name args env = some (match getenv "PATH".toList env with
      | none => failWith sys.stderr GETENVPATH_ERR (sizeofMsg GETENVPWD_ERR)
      | some (i, value) =>
        searchDirs sys name args (cutEnv env i value) 0 (pieces isColon value)) := by
  rw [path]
  cases h : getenv "PATH".toList env with
  | none => rfl
  | some r =>
    obtain ⟨i, value⟩ := r
    exact pathLoop_eq sys name args env i (noNul_firstPiece h) 0 (Nat.lt_succ_self _)
      fun t c h => ReadsAs.first h

/-! ## 4. What the program is given -/

theorem exec_execve {sys : LaunchSys} {file : CString} {ag env : List CString} {x : Execve}
    (h : (exec sys file ag env).execve = some x) : x = ⟨file, ag, env⟩ := by
  unfold exec at h
  split at h
  · cases h
  · split at h
    · cases h
    · exact (Option.some.inj h).symm

/-- A search runs the program in one of the directories. -/
theorem searchDirs_execve {sys : LaunchSys} {name : CString} {args env : List CString} {n : ℕ}
    {dirs : List Text} {x : Execve}
    (h : (searchDirs sys name args env n dirs).execve = some x) :
    ∃ dir ∈ dirs, x = ⟨below dir name, name :: args, env⟩ := by
  induction dirs generalizing n with
  | nil => cases h
  | cons dir dirs ih =>
    rw [searchDirs] at h
    split at h
    · cases h
    · split at h
      · exact ⟨dir, List.mem_cons_self, exec_execve h⟩
      · obtain ⟨dir', hmem, hx⟩ := ih h
        exact ⟨dir', List.mem_cons_of_mem _ hmem, hx⟩

/-- An entry is changed exactly if it becomes another one. -/
theorem set_eq_self_iff {env : List CString} {i : ℕ} {e : CString} (h : env[i]? = some e)
    (a : CString) : env.set i a = env ↔ a = e := by
  obtain ⟨hi, rfl⟩ := List.getElem?_eq_some_iff.mp h
  constructor
  · intro heq
    have hat := congrArg (fun l => l[i]?) heq
    simp only [List.getElem?_set_self hi, h] at hat
    exact Option.some.inj hat
  · rintro rfl
    exact List.set_getElem_self hi

/-- The environment is whole exactly if no colon follows the first directory. -/
theorem cutEnv_eq_self_iff {env : List CString} {i : ℕ} {value : Text}
    (h : getenv "PATH".toList env = some (i, value)) :
    cutEnv env i value = env ↔ ':' ∉ value.dropWhile isColon := by
  obtain ⟨e, hi, he⟩ := getenv_eq_some h
  calc
    cutEnv env i value = env
        ↔ CString.of ("PATH=".toList ++ firstPiece isColon value) = e := set_eq_self_iff hi _
    _ ↔ "PATH=".toList ++ firstPiece isColon value = e.text :=
      CString.of_eq_iff (noNul_firstPiece h) e
    _ ↔ firstPiece isColon value = value := by
      rw [he]
      exact List.append_right_inj _
    _ ↔ ':' ∉ value.dropWhile isColon := by
      rw [firstPiece_eq_self_iff]
      simp only [isColon, beq_eq_false_iff_ne]
      exact ⟨fun hall hmem => hall _ hmem rfl, fun hmem a ha hcolon => hmem (hcolon ▸ ha)⟩

theorem traceExec_of_main {sys : LaunchSys} {prog name : CString} {args env : List CString}
    {l : Launch} (h : main sys (prog :: name :: args) env = some (.returned l)) :
    traceExec sys name args env = some l := by
  simp only [main] at h
  split at h
  · cases h
  · obtain ⟨l', hl', heq⟩ := Option.map_eq_some_iff.mp h
    obtain rfl := MainRun.returned.inj heq
    exact hl'

theorem current_execve {sys : LaunchSys} {name : CString} {args env : List CString} {x : Execve}
    (h : (current sys name args env).execve = some x) :
    ∃ pwd, x = ⟨below pwd name, name :: args, env⟩ := by
  simp only [current] at h
  split at h
  · cases h
  · rename_i pwd _
    split at h
    · cases h
    · split at h
      · exact ⟨pwd, exec_execve h⟩
      · cases h

/-- A program named by its path gets the environment as it is. -/
theorem main_env_of_path (sys : LaunchSys) (prog name : CString) (args env : List CString)
    (hname : name.text.head? = some '.' ∨ name.text.head? = some '/') {l : Launch}
    (hl : main sys (prog :: name :: args) env = some (.returned l)) {x : Execve}
    (hx : l.execve = some x) : x.argv = name :: args ∧ x.env = env := by
  have htrace := traceExec_of_main hl
  simp only [traceExec] at htrace
  rcases hname with hdot | hslash
  · rw [if_pos hdot] at htrace
    obtain rfl := Option.some.inj htrace
    obtain ⟨pwd, rfl⟩ := current_execve hx
    exact ⟨rfl, rfl⟩
  · have hdot : name.text.head? ≠ some '.' := by
      rw [hslash]
      decide
    rw [if_neg hdot, if_neg (not_not_intro hslash)] at htrace
    split at htrace
    · obtain rfl := Option.some.inj htrace
      obtain rfl := exec_execve hx
      exact ⟨rfl, rfl⟩
    · obtain rfl := Option.some.inj htrace
      cases hx

/-- A program that `path` finds lies in a directory of `PATH`, and gets the environment with the
value of `PATH` ending after the first one. -/
theorem path_execve {sys : LaunchSys} {name : CString} {args env : List CString} {l : Launch}
    (hl : path sys name args env = some l) {x : Execve} (hx : l.execve = some x) :
    ∃ i value, getenv "PATH".toList env = some (i, value) ∧
      ∃ dir ∈ pieces isColon value, x = ⟨below dir name, name :: args, cutEnv env i value⟩ := by
  rw [path_eq] at hl
  obtain rfl := Option.some.inj hl
  cases h : getenv "PATH".toList env with
  | none =>
    rw [h] at hx
    cases hx
  | some r =>
    obtain ⟨i, value⟩ := r
    rw [h] at hx
    exact ⟨i, value, rfl, searchDirs_execve hx⟩

/-- **A program found in `PATH` gets the environment that `main` was given** exactly if no colon
follows the first directory of `PATH`. -/
theorem main_env_iff (sys : LaunchSys) (prog name : CString) (args env : List CString)
    (hdot : name.text.head? ≠ some '.') (hslash : name.text.head? ≠ some '/') {l : Launch}
    (hl : main sys (prog :: name :: args) env = some (.returned l)) {x : Execve}
    (hx : l.execve = some x) :
    x.env = env ↔ ∀ p ∈ getenv "PATH".toList env, ':' ∉ p.2.dropWhile isColon := by
  have htrace := traceExec_of_main hl
  rw [traceExec, if_neg hdot, if_pos hslash] at htrace
  obtain ⟨i, value, hpath, dir, -, rfl⟩ := path_execve htrace hx
  rw [hpath]
  refine (cutEnv_eq_self_iff hpath).trans ?_
  simp

/-- A system on which every call succeeds. -/
def LaunchSys.granted : LaunchSys where
  stderr := true
  asprintf := fun _ => true
  access := fun _ _ => true
  fork := true
  traceme := true
  execve := true
  strerror := []

/-- `./ftrace ls`. -/
def lsArgv : List CString := [.of "./ftrace".toList, .of "ls".toList]

/-- One directory: the environment is handed on. -/
theorem main_env_iff_one :
    [CString.of "PATH=/bin".toList] = [CString.of "PATH=/bin".toList] ↔
      ∀ p ∈ getenv "PATH".toList [CString.of "PATH=/bin".toList],
        ':' ∉ p.2.dropWhile isColon :=
  main_env_iff .granted (.of "./ftrace".toList) (.of "ls".toList) []
    [.of "PATH=/bin".toList] (by decide) (by decide)
    (l := ⟨[], SUCCESS, some ⟨.of "/bin/ls".toList, [.of "ls".toList], [.of "PATH=/bin".toList]⟩⟩)
    (by decide +kernel) rfl

/-- Two directories: the program found in the first one does not see the second one. -/
theorem main_env_fails :
    main .granted lsArgv [.of "PATH=/usr/bin:/bin".toList] = some (.returned ⟨[], SUCCESS,
        some ⟨.of "/usr/bin/ls".toList, [.of "ls".toList], [.of "PATH=/usr/bin".toList]⟩⟩) ∧
      [CString.of "PATH=/usr/bin".toList] ≠ [CString.of "PATH=/usr/bin:/bin".toList] := by
  decide +kernel

end Ftrace
