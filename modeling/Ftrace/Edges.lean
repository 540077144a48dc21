/-
# The edges of `graph.dot` are those of a call-stack machine

The reference is a machine that knows nothing of chains or flags: a call draws an edge from
the top of its stack and pushes its label, a syscall draws an edge and pushes nothing, a
return pops (`Ref.step`).  `format_dotfile` draws the same edges by extending the chain it
wrote last, so the proof carries what that chain ends in: unless `ret` says the chain is
broken, the last token of the file is the label on top of the stack (`DotInv`).

Labels go into the file as they are, apart from the double quotes.  A label that ends in a
backslash without a partner therefore takes its closing quote with it, and the edges after it
are lost (`edges_lost`).  Every other label is read back as it was written, and
`edges_eq_reference` is about these.
-/
import Ftrace.Dotfile
import Ftrace.Lib.Dot

namespace Ftrace

open CText Dot

/-! ## 1. What the calls of the writer are read as -/

/-- The tokens of one call. -/
def Write.tokens : Write → List Token
  | .digraph => [.ident "digraph".toList, .ident "ftrace".toList, .lbrace]
  | .style =>
    [.ident "bgcolor".toList, .equals, .ident "azure".toList, .semi,
      .ident "node".toList, .lbracket, .ident "shape".toList, .equals, .ident "box".toList,
      .comma, .ident "color".toList, .equals, .ident "lightblue2".toList, .comma,
      .ident "style".toList, .equals, .ident "filled".toList, .rbracket, .semi,
      .ident "edge".toList, .lbracket, .ident "arrowsize".toList, .equals, .ident "1".toList,
      .comma, .ident "color".toList, .equals, .ident "red".toList, .rbracket, .semi]
  | .parent func => [.quoted func]
  | .arrow => [.arrow]
  | .node buffer => [.quoted buffer]
  | .grey buffer =>
    [.quoted buffer, .lbracket, .ident "color".toList, .equals, .ident "grey".toList, .rbracket]
  | .brace => [.rbrace]

/-- The tokens of a sequence of calls. -/
def tokensOf (ws : List Write) : List Token := ws.flatMap Write.tokens

@[simp] theorem tokensOf_append (ws vs : List Write) :
    tokensOf (ws ++ vs) = tokensOf ws ++ tokensOf vs := List.flatMap_append

/-- The label of the call, if it has one, stays inside its quotes. -/
def Write.Closed (w : Write) : Prop := ∀ l, w.label? = some l → Dot.Closed l

theorem Write.lexes {w : Write} (h : w.Closed) : Lexes w.bytes w.tokens := by
  cases w with
  | digraph => decide
  | style => decide +kernel
  | arrow => decide
  | brace => decide
  | node l => exact Lexes.quoted (h l rfl)
  | parent l =>
    have hnl : Lexes ['\n'] [] := by decide
    have hsp : Lexes [' '] [] := by decide
    exact (hnl.append (Lexes.quoted (h l rfl))).append hsp
  | grey l =>
    have hnl : Lexes ['\n'] [] := by decide
    have hattr : Lexes " [color=grey]".toList
        [.lbracket, .ident "color".toList, .equals, .ident "grey".toList, .rbracket] := by
      decide
    exact (hnl.append (Lexes.quoted (h l rfl))).append hattr

/-- **A file whose labels are closed is read call by call.** -/
theorem lexes_written {ws : List Write} (h : ∀ w ∈ ws, w.Closed) :
    Lexes (written ws) (tokensOf ws) := by
  induction ws with
  | nil => exact Lexes.nil
  | cons w ws ih =>
    exact (Write.lexes (h w List.mem_cons_self)).append
      (ih fun v hv => h v (List.mem_cons_of_mem _ hv))

/-! ## 2. The reference machine -/

/-- What a line stands for. -/
inductive Event where
  | call (label : Text)
  | syscall (label : Text)
  | ret
  deriving DecidableEq, Repr

/-- A line is told by the first character of its label. -/
def Event.ofLabel (label : Text) : Event :=
  if label.head? = some '>' then .ret
  else if label.head? = some '@' then .syscall label
  else .call label

/-- The event of a line without its newline. -/
def Event.ofLine (body : Text) : Event := .ofLabel (deleteQuote body)

/-- The label that the event writes. -/
def Event.label? : Event → Option Text
  | .call l | .syscall l => some l
  | .ret => none

/-- A call-stack machine: its stack, the edges drawn, the labels declared grey. -/
structure Ref where
  stack : List Text := []
  edges : List (Text × Text) := []
  grey : List Text := []

/-- The label the next edge starts from. -/
def Ref.parent (r : Ref) : Text := r.stack.head?.getD "U n K".toList

/-- The edge to a label: there is none to the first. -/
def Ref.link (r : Ref) (first : Bool) (l : Text) : List (Text × Text) :=
  if first then [(r.parent, l)] else []

def Ref.step (r : Ref) (first : Bool) : Event → Ref
  | .call l => { r with stack := l :: r.stack, edges := r.edges ++ r.link first l }
  | .syscall l => { r with edges := r.edges ++ r.link first l, grey := r.grey ++ [l] }
  | .ret => { r with stack := r.stack.tail }

/-- One event after another, `first` set from the second on. -/
def Ref.run (r : Ref) (first : Bool) : List Event → Ref
  | [] => r
  | e :: es => (r.step first e).run true es

/-! ## 3. One line -/

/-- `format_dotfile` by the event of its line. -/
def formatEvent (s : DotStatics) (first : Bool) : Event → DotStatics × List Write
  | .call l =>
    ({ listFunc := pushFunction s.listFunc l, ret := false },
      (if s.ret then [Write.parent (parentLabel s.listFunc)] else []) ++
        (if first then [Write.arrow] else []) ++ [.node l])
  | .syscall l =>
    ({ listFunc := s.listFunc, ret := true },
      (if s.ret then [Write.parent (parentLabel s.listFunc)] else []) ++
        (if first then [Write.arrow] else []) ++ [.node l, .grey l])
  | .ret => ({ listFunc := popFunction s.listFunc, ret := true }, [])

theorem formatDotfile_eq (s : DotStatics) (buffer : Text) (first : Bool) :
    formatDotfile s buffer first = formatEvent s first (.ofLine buffer.dropLast) := by
  simp only [formatDotfile, Event.ofLine, Event.ofLabel]
  split
  · rfl
  · split <;> rfl

/-- Where the parser stands in the text written so far: a statement may begin, and unless the
chain is broken, it ends in the label on top of the stack. -/
structure DotInv (s : DotStatics) (first : Bool) (p : Phase) : Prop where
  settled : p.Settled
  chained : s.ret = false → first = true →
    ∃ q, p.last? = some q ∧ getFunction s.listFunc = some q

/-- The empty graph. -/
theorem DotInv.init : DotInv {} false .stmt :=
  ⟨.inl rfl, fun _ h => by cases h⟩

/-- The node of a line, with its parent and its arrow: one edge, except at the first line. -/
theorem parse_node {s : DotStatics} {first : Bool} {p : Phase} (h : DotInv s first p)
    (l : Text) :
    ∃ p' is, parse p (tokensOf ((if s.ret then [Write.parent (parentLabel s.listFunc)] else []) ++
        (if first then [Write.arrow] else []) ++ [.node l])) = (p', is) ∧
      p'.last? = some l ∧ nodesWith "color".toList "grey".toList is = [] ∧
      edgesOf is = if first then [(parentLabel s.listFunc, l)] else [] := by
  cases hret : s.ret with
  | true =>
    have hquoted := parseStep_quoted h.settled (parentLabel s.listFunc)
    cases first with
    | true =>
      exact ⟨.edge l, [.edge (parentLabel s.listFunc) l], parse_cons hquoted [.arrow, .quoted l],
        rfl, rfl, rfl⟩
    | false => exact ⟨.node l, [], parse_cons hquoted [.quoted l], rfl, rfl, rfl⟩
  | false =>
    cases first with
    | true =>
      obtain ⟨q, hq, htop⟩ := h.chained hret rfl
      have hparent : parentLabel s.listFunc = q := by simp [parentLabel, htop]
      refine ⟨.edge l, [.edge q l], parse_cons (parseStep_last_arrow hq) [.quoted l], rfl, rfl, ?_⟩
      rw [hparent]
      rfl
    | false =>
      exact ⟨.node l, [], parse_cons (parseStep_quoted h.settled l) [], rfl, rfl, rfl⟩

/-- The declaration that makes a syscall grey. -/
theorem parse_grey {p : Phase} {l : Text} (h : p.last? = some l) :
    parse p (Write.tokens (.grey l)) = (.stmt, [.attr l "color".toList "grey".toList]) := by
  have hsettled : p.Settled := .inr ⟨l, h⟩
  exact parse_cons (parseStep_quoted hsettled l) _

/-- The labels declared grey by one event. -/
def Event.grey : Event → List Text
  | .syscall l => [l]
  | _ => []

/-- The edges of one event, from the parent on the given stack. -/
def Event.edges (stack : List Text) (first : Bool) : Event → List (Text × Text)
  | .call l | .syscall l => if first then [(parentLabel stack, l)] else []
  | .ret => []

/-- **One line**: the parser goes on from a state in the invariant to a state in the
invariant, and reads the edge and the grey label of the line. -/
theorem formatEvent_step {s : DotStatics} {first : Bool} {p : Phase} (h : DotInv s first p)
    (e : Event) :
    ∃ p' is, parse p (tokensOf (formatEvent s first e).2) = (p', is) ∧
      DotInv (formatEvent s first e).1 true p' ∧
      edgesOf is = e.edges s.listFunc first ∧
      nodesWith "color".toList "grey".toList is = e.grey := by
  cases e with
  | call l =>
    obtain ⟨p', is, hp, hl, hg, he⟩ := parse_node h l
    exact ⟨p', is, hp, ⟨.inr ⟨l, hl⟩, fun _ _ => ⟨l, hl, rfl⟩⟩, he, hg⟩
  | syscall l =>
    obtain ⟨p', is, hp, hl, hg, he⟩ := parse_node h l
    refine ⟨.stmt, is ++ [.attr l "color".toList "grey".toList], ?_,
      ⟨.inl rfl, fun hr => by cases hr⟩, ?_, ?_⟩
    · have hws : (formatEvent s first (.syscall l)).2
          = ((if s.ret then [Write.parent (parentLabel s.listFunc)] else []) ++
            (if first then [Write.arrow] else []) ++ [.node l]) ++ [.grey l] := by
        simp [formatEvent]
      have hgrey : tokensOf [Write.grey l] = Write.tokens (.grey l) := List.flatMap_singleton ..
      rw [hws, tokensOf_append, parse_append, hp, hgrey, parse_grey hl]
    · rw [edgesOf_append, he]
      exact List.append_nil _
    · simp only [nodesWith_append, hg]
      rfl
  | ret => exact ⟨p, [], rfl, ⟨h.settled, fun hr => by cases hr⟩, rfl, rfl⟩

/-! ## 4. Whole runs -/

/-- A reference machine in step with the statics of `format_dotfile`. -/
theorem Ref.step_eq (r : Ref) (first : Bool) (e : Event) :
    (r.step first e).edges = r.edges ++ e.edges r.stack first ∧
      (r.step first e).grey = r.grey ++ e.grey := by
  cases e <;> simp [Ref.step, Event.edges, Event.grey, Ref.link, Ref.parent, parentLabel,
    getFunction]

theorem Ref.step_stack {r : Ref} {s : DotStatics} (h : r.stack = s.listFunc) (first : Bool)
    (e : Event) : (r.step first e).stack = (formatEvent s first e).1.listFunc := by
  cases e <;> simp [Ref.step, formatEvent, pushFunction, popFunction, h]

/-- The lines of a run, each given to `format_dotfile` with its newline. -/
theorem formatLines_step {s : DotStatics} {first : Bool} {p : Phase} (h : DotInv s first p)
    {r : Ref} (hr : r.stack = s.listFunc) (bodies : List Text) :
    ∃ p' is, parse p (tokensOf (formatLines s first (bodies.map (· ++ ['\n']))).2) = (p', is) ∧
      p'.Settled ∧
      (r.run first (bodies.map Event.ofLine)).edges = r.edges ++ edgesOf is ∧
      (r.run first (bodies.map Event.ofLine)).grey
        = r.grey ++ nodesWith "color".toList "grey".toList is := by
  induction bodies generalizing s first p r with
  | nil => exact ⟨p, [], rfl, h.settled, by simp [Ref.run, edgesOf],
      by simp [Ref.run, nodesWith]⟩
  | cons b bodies ih =>
    have hb : formatDotfile s (b ++ ['\n']) first = formatEvent s first (.ofLine b) := by
      rw [formatDotfile_eq, List.dropLast_concat]
    obtain ⟨p₁, is₁, hp₁, hinv, he₁, hg₁⟩ := formatEvent_step h (.ofLine b)
    obtain ⟨p₂, is₂, hp₂, hset, he₂, hg₂⟩ := ih hinv (Ref.step_stack hr first (.ofLine b))
    obtain ⟨he, hg⟩ := r.step_eq first (.ofLine b)
    refine ⟨p₂, is₁ ++ is₂, ?_, hset, ?_, ?_⟩
    · simp only [List.map_cons, formatLines, hb, tokensOf_append, parse_append, hp₁, hp₂]
    · simp only [List.map_cons, Ref.run, he₂, he, hr, edgesOf_append, he₁, List.append_assoc]
    · simp only [List.map_cons, Ref.run, hg₂, hg, nodesWith_append, hg₁, List.append_assoc]

/-! ## 5. Labels that stay in their quotes -/

/-- The last character of the label of this line, if the line writes one, is not a backslash
that would take the closing quote with it. -/
def LabelCloses (body : Text) : Prop :=
  ∀ l ∈ (Event.ofLine body).label?, pending false l = false

instance (body : Text) : Decidable (LabelCloses body) :=
  inferInstanceAs (Decidable (∀ l ∈ (Event.ofLine body).label?, _))

theorem Event.label?_ofLabel {label l : Text} (h : (Event.ofLabel label).label? = some l) :
    l = label := by
  unfold Event.ofLabel at h
  split at h
  · cases h
  · split at h <;> exact (Option.some.inj h).symm

/-- Double quotes never survive into a label. -/
theorem LabelCloses.closed {body l : Text} (h : LabelCloses body)
    (hl : (Event.ofLine body).label? = some l) : Dot.Closed l := by
  refine ⟨?_, h l hl⟩
  rw [Event.label?_ofLabel hl]
  exact quote_not_mem_deleteQuote body

/-- **The labels one event writes** are its own and those that the stack holds: what is true
of these, and of the label `U n K`, is true of everything written and stays true of the
stack. -/
theorem formatEvent_labels {Q : Text → Prop} (hunk : Q "U n K".toList) {s : DotStatics}
    (hs : ∀ l ∈ s.listFunc, Q l) (first : Bool) {e : Event} (he : ∀ l, e.label? = some l → Q l) :
    (∀ w ∈ (formatEvent s first e).2, ∀ l, w.label? = some l → Q l) ∧
      ∀ l ∈ (formatEvent s first e).1.listFunc, Q l := by
  have hparent : Q (parentLabel s.listFunc) := by
    rw [parentLabel, getFunction]
    cases hl : s.listFunc with
    | nil => exact hunk
    | cons l stack => exact hs l (hl ▸ List.mem_cons_self)
  have hrestart : ∀ w ∈ (if s.ret then [Write.parent (parentLabel s.listFunc)] else []),
      ∀ l, w.label? = some l → Q l := by
    intro w hw l hl
    split at hw
    · rw [List.mem_singleton.mp hw] at hl
      exact Option.some.inj hl ▸ hparent
    · simp at hw
  have hlink : ∀ w ∈ (if first then [Write.arrow] else []), ∀ l, w.label? = some l → Q l := by
    intro w hw l hl
    split at hw
    · rw [List.mem_singleton.mp hw] at hl
      cases hl
    · simp at hw
  cases e with
  | call m =>
    refine ⟨fun w hw => ?_, fun l hl => ?_⟩
    · simp only [formatEvent, List.mem_append, List.mem_singleton] at hw
      rcases hw with (hw | hw) | rfl
      · exact hrestart w hw
      · exact hlink w hw
      · exact he
    · rcases List.mem_cons.mp hl with rfl | hl
      · exact he l rfl
      · exact hs l hl
  | syscall m =>
    refine ⟨fun w hw => ?_, hs⟩
    simp only [formatEvent, List.mem_append, List.mem_cons, List.not_mem_nil, or_false] at hw
    rcases hw with (hw | hw) | rfl | rfl
    · exact hrestart w hw
    · exact hlink w hw
    · exact he
    · exact he
  | ret => exact ⟨fun w hw => (by cases hw), fun l hl => hs l (List.mem_of_mem_tail hl)⟩

theorem closed_unk : Dot.Closed "U n K".toList := by decide

theorem closed_formatLines {s : DotStatics} (hs : ∀ l ∈ s.listFunc, Dot.Closed l) (first : Bool)
    {bodies : List Text} (h : ∀ b ∈ bodies, LabelCloses b) :
    ∀ w ∈ (formatLines s first (bodies.map (· ++ ['\n']))).2, w.Closed := by
  induction bodies generalizing s first with
  | nil => intro w hw; cases hw
  | cons b bodies ih =>
    have hb : formatDotfile s (b ++ ['\n']) first = formatEvent s first (.ofLine b) := by
      rw [formatDotfile_eq, List.dropLast_concat]
    obtain ⟨hw, hs'⟩ := formatEvent_labels closed_unk hs first
      fun l hl => (h b List.mem_cons_self).closed hl
    intro w hmem
    simp only [List.map_cons, formatLines, hb, List.mem_append] at hmem
    rcases hmem with hmem | hmem
    · exact hw w hmem
    · exact ih hs' true (fun b' hb' => h b' (List.mem_cons_of_mem _ hb')) w hmem

/-! ## 6. The edges of the file -/

/-- What a reader of the text finds after these lines, the body of the graph only. -/
def readItems (bodies : List Text) : List Item :=
  (parse .stmt (lex .blank
    (written (formatLines {} false (bodies.map (· ++ ['\n']))).2)).2).2

/-- The edges in the text, and the labels declared grey, are those of the reference machine,
in order. -/
def EdgesAgree (bodies : List Text) : Prop :=
  edgesOf (readItems bodies) = (Ref.run {} false (bodies.map Event.ofLine)).edges ∧
    nodesWith "color".toList "grey".toList (readItems bodies)
      = (Ref.run {} false (bodies.map Event.ofLine)).grey

instance (bodies : List Text) : Decidable (EdgesAgree bodies) :=
  inferInstanceAs (Decidable (_ ∧ _))

/-- **The edges in `graph.dot` are those of the call-stack machine**, whatever the order of
calls, syscalls and returns, as long as no label that is written ends in an unpaired
backslash. -/
theorem edges_eq_reference (bodies : List Text) (h : ∀ b ∈ bodies, LabelCloses b) :
    EdgesAgree bodies := by
  have hclosed := closed_formatLines (s := {}) (by simp) false h
  have hlex : lex .blank (written (formatLines {} false (bodies.map (· ++ ['\n']))).2)
      = (.blank, tokensOf (formatLines {} false (bodies.map (· ++ ['\n']))).2) :=
    lexes_written hclosed
  obtain ⟨p, is, hp, -, he, hg⟩ := formatLines_step DotInv.init (r := {}) rfl bodies
  have hitems : readItems bodies = is := by
    simp only [readItems, hlex, hp]
  exact ⟨by rw [hitems, he]; rfl, by rw [hitems, hg]; rfl⟩

/-- A call, a syscall under it, the return, and a call from an empty stack. -/
theorem edges_eq_reference_run :
    EdgesAgree ["call rax: 0x10".toList, "@brk(0) = 0x20".toList,
      ">>> return (0x0)".toList, "call rcx: 0x30".toList] :=
  edges_eq_reference _ (by decide)

/-- **A label that ends in a backslash takes its closing quote with it**: the edge from the
first call to the second is not in the text. -/
theorem edges_lost : ¬ EdgesAgree ["call rax: 0x10 ..... f\\".toList,
    "call rcx: 0x30 ..... g".toList] := by
  decide

end Ftrace
