/-
# The writer of `graph.dot`

`list_functions.c` and the writing half of `exec.c`: the static call stack `list_func`, and
`format_dotfile`, which turns one captured line into text on the descriptor of `graph.dot`.

`format_dotfile` keeps two statics between calls, the stack and the flag `ret`.  Edges are
written as chains `"A" -> "B" -> "C"`: a line of a call extends the chain, and `ret` says that
the chain is broken, so that the next line has to name its parent again.  The third flag,
`first`, belongs to `print_instruction` and arrives as an argument.

What is written is kept as the list of `dprintf` and `write` calls (`Write`), one constructor
for each of them; `Write.bytes` is the text the call puts into the file.  Allocation is taken
to succeed, so `push_function` always pushes.
-/
import Ftrace.Lib.CText

namespace Ftrace

open CText

/-! ## 1. The call stack -/

/-- `push_function`. -/
def pushFunction (list : List Text) (label : Text) : List Text := label :: list

/-- `pop_function`: nothing happens on an empty stack. -/
def popFunction (list : List Text) : List Text := list.tail

/-- `get_function`. -/
def getFunction (list : List Text) : Option Text := list.head?

/-! ## 2. What is written -/

/-- One call of `dprintf` or `write` on the descriptor of `graph.dot`. -/
inductive Write where
  /-- `dprintf (fd, "digraph ftrace {\n")` -/
  | digraph
  /-- the second `dprintf` of `open_dotfile` -/
  | style
  /-- `dprintf (fd, "\n\"%s\" ", …)` -/
  | parent (func : Text)
  /-- `write (fd, " -> ", 4)` -/
  | arrow
  /-- `dprintf (fd, "\"%s\"", buffer)` -/
  | node (buffer : Text)
  /-- `dprintf (fd, "\n\"%s\" [color=grey]", buffer)` -/
  | grey (buffer : Text)
  /-- `write (fd, "}\n", 2)` -/
  | brace
  deriving DecidableEq, Repr

/-- `"%s"` -/
def inQuotes (t : Text) : Text := '"' :: t ++ ['"']

/-- The text a call puts into the file. -/
def Write.bytes : Write → Text
  | .digraph => "digraph ftrace \x7b\n".toList
  | .style => ("bgcolor=azure;\n node [shape=box, color=lightblue2, style=filled];\n" ++
      " edge [arrowsize=1, color=red];\n").toList
  | .parent func => '\n' :: inQuotes func ++ [' ']
  | .arrow => " -> ".toList
  | .node buffer => inQuotes buffer
  | .grey buffer => '\n' :: inQuotes buffer ++ " [color=grey]".toList
  | .brace => "\x7d\n".toList

/-- The label between the quotes of a call that has one. -/
def Write.label? : Write → Option Text
  | .parent l | .node l | .grey l => some l
  | _ => none

/-- The text of the file after a sequence of calls. -/
def written (ws : List Write) : Text := ws.flatMap Write.bytes

@[simp] theorem written_append (ws vs : List Write) :
    written (ws ++ vs) = written ws ++ written vs := List.flatMap_append

/-- The calls `open_dotfile` makes once the file is open. -/
def openDotfile : List Write := [.digraph, .style]

/-! ## 3. `format_dotfile` -/

/-- `delete_quote`. -/
def deleteQuote (s : Text) : Text := s.map fun c => if c = '"' then '\'' else c

/-- The statics of `format_dotfile`. -/
structure DotStatics where
  listFunc : List Text := []
  ret : Bool := false
  deriving DecidableEq, Repr

/-- The parent a broken chain restarts from. -/
def parentLabel (list : List Text) : Text := (getFunction list).getD "U n K".toList

/-- `format_dotfile (fd, buffer, first, strlen (buffer))`: the statics after the call, and
what it wrote.  The last character of the line goes first, whatever it is. -/
def formatDotfile (s : DotStatics) (buffer : Text) (first : Bool) : DotStatics × List Write :=
  let buffer := deleteQuote buffer.dropLast
  if buffer.head? = some '>' then
    ({ listFunc := popFunction s.listFunc, ret := true }, [])
  else
    let restart := if s.ret then [Write.parent (parentLabel s.listFunc)] else []
    let link := if first then [Write.arrow] else []
    if buffer.head? = some '@' then
      ({ listFunc := s.listFunc, ret := true }, restart ++ link ++ [.node buffer, .grey buffer])
    else
      ({ listFunc := pushFunction s.listFunc buffer, ret := false },
        restart ++ link ++ [.node buffer])

/-- `format_dotfile` on one line after another, `first` set from the second line on. -/
def formatLines (s : DotStatics) (first : Bool) : List Text → DotStatics × List Write
  | [] => (s, [])
  | b :: bs =>
    ((formatLines (formatDotfile s b first).1 true bs).1,
      (formatDotfile s b first).2 ++ (formatLines (formatDotfile s b first).1 true bs).2)

theorem quote_not_mem_deleteQuote (s : Text) : '"' ∉ deleteQuote s := by
  intro h
  obtain ⟨c, -, hc⟩ := List.mem_map.mp h
  split at hc
  · exact absurd hc (by decide)
  · rename_i hne
    exact hne hc

@[simp] theorem deleteQuote_append (s t : Text) :
    deleteQuote (s ++ t) = deleteQuote s ++ deleteQuote t := List.map_append

@[simp] theorem length_deleteQuote (s : Text) : (deleteQuote s).length = s.length :=
  List.length_map _

/-- A text without a quote keeps all its characters. -/
theorem deleteQuote_eq_self {s : Text} (h : '"' ∉ s) : deleteQuote s = s := by
  have hid : ∀ c ∈ s, (if c = '"' then '\'' else c) = c := by
    intro c hc
    rw [if_neg]
    rintro rfl
    exact h hc
  rw [deleteQuote, List.map_congr_left hid, List.map_id']

end Ftrace
