/-
# `get_next_line`

`get_next_line.c`: lines out of a descriptor, 42 bytes at a time.  The text read past the end
of a line waits in a static circular list, one node per descriptor NUMBER; nothing ever takes
a node out, and `close` does not know of the list.

The ring is the list of its nodes, from the node `pile` points to.  The kernel's answers to
`read` are given as a list: `some t` for the bytes `t`, `none` for an error, and 0, the end of
the file, once the list is used up.  Allocation is taken to succeed.
-/
import Ftrace.Lib.CText

namespace Ftrace

open CText

/-- `BUF_SIZE`. -/
def BUF_SIZE : ℕ := 42

/-- `t_fd`, without its link. -/
structure TFd where
  fd : ℤ
  str : Option Text
  deriving DecidableEq, Repr

/-- The answers of the kernel to `read`. -/
abbrev Reads := List (Option Text)

/-- `find_fd_or_create_it`: the ring from the node of `fd` on.  A new node goes in front of
the head, which is the end of the ring, and becomes the head itself. -/
def findFdOrCreateIt (pile : List TFd) (fd : ℤ) : List TFd :=
  match pile.findIdx? fun n => n.fd = fd with
  | some i => pile.rotate i
  | none => ⟨fd, none⟩ :: pile

/-- `is_backslash_n`. -/
def isBackslashN (str : Option Text) : Bool := (str.getD []).contains '\n'

/-- The C string in `str_tmp` after `read` has returned `t`: a short read that does not end
in a newline gets one. -/
def strTmp (t : Text) : Text :=
  cstr (if t.length < BUF_SIZE ∧ t.getLast? ≠ some '\n' then t ++ ['\n'] else t)

/-- `add_str_to`. -/
def addStrTo (dest : Option Text) (src : Text) : Text := dest.getD [] ++ src

/-- The loop of `get_next_line`: whether it ends with a line (and not with a null result), the
text of the node then, and the answers left. -/
def fillLine (str : Option Text) (reads : Reads) : Bool × Option Text × Reads :=
  if isBackslashN str then (true, str, reads)
  else match reads with
    | [] =>
      let str := addStrTo str (strTmp [])
      (str.head? ≠ some '\n', some str, [])
    | none :: rest => (false, str, rest)
    | some t :: rest =>
      let str := addStrTo str (strTmp t)
      if t = [] ∧ str.head? = some '\n' then (false, some str, rest)
      else fillLine (some str) rest

/-- `return_it`: the line, and what stays. -/
def returnIt (str : Text) : Text × Text :=
  (str.takeWhile fun c => c != '\n', (str.dropWhile fun c => c != '\n').tail)

/-- `get_next_line (fd)`: the result, the ring, and the answers left. -/
def getNextLine (pile : List TFd) (fd : ℤ) (reads : Reads) : Option Text × List TFd × Reads :=
  match findFdOrCreateIt pile fd with
  | [] => (none, [], reads)
  | node :: ring =>
    match fillLine node.str reads with
    | (true, str, rest) =>
      let line := returnIt (str.getD [])
      (some line.1, { node with str := some line.2 } :: ring, rest)
    | (false, str, rest) => (none, { node with str := str } :: ring, rest)

/-- The text waiting for a descriptor number. -/
def leftover (pile : List TFd) (fd : ℤ) : Text :=
  match pile.find? fun n => n.fd = fd with
  | some n => n.str.getD []
  | none => []

/-- More than the number of lines that are left: each one takes a character of the waiting
text or an answer of the kernel. -/
def lineFuel (pile : List TFd) (fd : ℤ) (reads : Reads) : ℕ :=
  (leftover pile fd).length + (reads.map fun r => (r.getD []).length + 2).sum + 1

end Ftrace
