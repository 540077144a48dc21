/-
# Reading a DOT graph

A reader for the part of the DOT language that a tracer needs: `digraph name { … }` with
attribute assignments, node statements, chains of edges and attribute lists.  It is in two
stages, a lexer and a parser, and each is a machine that consumes one symbol at a time, so
that what it makes of a text built in pieces is computed piece by piece (`lex_append`,
`parse_append`).

Inside a double-quoted identifier a backslash takes the next character with it: `\"` does not
close the identifier and `\\` is a pair.  So a label can leave its quotes in two ways, by a
quote of its own and by a backslash at its end that has no partner; `Closed` excludes both,
and `Lexes.quoted` says that a closed label is read back as it was written.

An arrow is accepted only between two double-quoted identifiers (`arrows_quoted`).
-/
import Mathlib.Data.List.Basic

namespace Dot

/-! ## 1. The lexer -/

/-- The tokens of the language.  A quoted identifier carries its text as written. -/
inductive Token where
  | ident (s : List Char)
  | quoted (s : List Char)
  | arrow
  | lbrace
  | rbrace
  | lbracket
  | rbracket
  | equals
  | comma
  | semi
  deriving DecidableEq, Repr

/-- Where the lexer stands: between tokens, in a bare word, after the `-` of an arrow, in a
quoted identifier, after a backslash in one; `stuck` is a lexical error. -/
inductive Lex where
  | blank
  | word (acc : List Char)
  | minus
  | quote (acc : List Char)
  | escape (acc : List Char)
  | stuck
  deriving DecidableEq, Repr

def isBlank (c : Char) : Bool := c == ' ' || c == '\n' || c == '\t' || c == '\r'

def isIdChar (c : Char) : Bool := c.isAlphanum || c == '_'

/-- The tokens of one character. -/
def punct (c : Char) : Option Token :=
  if c = '{' then some .lbrace
  else if c = '}' then some .rbrace
  else if c = '[' then some .lbracket
  else if c = ']' then some .rbracket
  else if c = '=' then some .equals
  else if c = ',' then some .comma
  else if c = ';' then some .semi
  else none

/-- One character read between tokens. -/
def lexBlank (c : Char) : Lex × List Token :=
  if isBlank c then (.blank, [])
  else match punct c with
    | some t => (.blank, [t])
    | none =>
      if c = '"' then (.quote [], [])
      else if c = '-' then (.minus, [])
      else if isIdChar c then (.word [c], [])
      else (.stuck, [])

/-- One character: the next state, and the tokens that are complete with it. -/
def lexChar : Lex → Char → Lex × List Token
  | .blank, c => lexBlank c
  | .word acc, c =>
    if isIdChar c then (.word (acc ++ [c]), [])
    else ((lexBlank c).1, .ident acc :: (lexBlank c).2)
  | .minus, c => if c = '>' then (.blank, [.arrow]) else (.stuck, [])
  | .quote acc, c =>
    if c = '"' then (.blank, [.quoted acc])
    else if c = '\\' then (.escape (acc ++ [c]), [])
    else (.quote (acc ++ [c]), [])
  | .escape acc, c => (.quote (acc ++ [c]), [])
  | .stuck, _ => (.stuck, [])

/-- The lexer on a text: the state it ends in, and the tokens. -/
def lex : Lex → List Char → Lex × List Token
  | l, [] => (l, [])
  | l, c :: t =>
    ((lex (lexChar l c).1 t).1, (lexChar l c).2 ++ (lex (lexChar l c).1 t).2)

/-- Reading two texts one after the other. -/
theorem lex_append (l : Lex) (a b : List Char) :
    lex l (a ++ b) = ((lex (lex l a).1 b).1, (lex l a).2 ++ (lex (lex l a).1 b).2) := by
  induction a generalizing l with
  | nil => rfl
  | cons c a ih => simp only [List.cons_append, lex, ih, List.append_assoc]

/-- `Lexes t k`: the text is read as exactly the tokens `k`, from between tokens to between
tokens. -/
def Lexes (t : List Char) (k : List Token) : Prop := lex .blank t = (.blank, k)

instance (t : List Char) (k : List Token) : Decidable (Lexes t k) :=
  inferInstanceAs (Decidable (_ = _))

theorem Lexes.nil : Lexes [] [] := rfl

theorem Lexes.append {a b : List Char} {j k : List Token} (ha : Lexes a j) (hb : Lexes b k) :
    Lexes (a ++ b) (j ++ k) := by
  simp only [Lexes] at ha hb ⊢
  rw [lex_append, ha, hb]

/-! ## 2. Quoted identifiers -/

/-- Whether a text, read with a backslash pending or not, leaves a backslash pending. -/
def pending : Bool → List Char → Bool
  | b, [] => b
  | true, _ :: t => pending false t
  | false, c :: t => pending (c == '\\') t

theorem pending_append (b : Bool) (s t : List Char) :
    pending b (s ++ t) = pending (pending b s) t := by
  induction s generalizing b with
  | nil => rfl
  | cons c s ih => cases b <;> exact ih _

/-- A character other than the backslash leaves nothing pending. -/
theorem pending_concat {c : Char} (hc : c ≠ '\\') (b : Bool) (s : List Char) :
    pending b (s ++ [c]) = false := by
  rw [pending_append]
  cases pending b s <;> simp [pending, hc]

/-- A label that cannot end its own quotes or escape the closing one. -/
def Closed (s : List Char) : Prop := '"' ∉ s ∧ pending false s = false

instance (s : List Char) : Decidable (Closed s) := inferInstanceAs (Decidable (_ ∧ _))

/-- The lexer inside a quoted identifier. -/
def inQuote (b : Bool) (acc : List Char) : Lex := if b then .escape acc else .quote acc

/-- Inside a quoted identifier, text without a quote is collected and nothing else happens. -/
theorem lex_inQuote {s : List Char} (hs : '"' ∉ s) (b : Bool) (acc : List Char) :
    lex (inQuote b acc) s = (inQuote (pending b s) (acc ++ s), []) := by
  induction s generalizing b acc with
  | nil => simp [lex, pending]
  | cons c s ih =>
    have hc : c ≠ '"' := fun h => hs (h ▸ List.mem_cons_self)
    have hs' : '"' ∉ s := fun h => hs (List.mem_cons_of_mem _ h)
    have hstep : lexChar (inQuote b acc) c
        = (inQuote (if b then false else c == '\\') (acc ++ [c]), []) := by
      cases b with
      | true => rfl
      | false =>
        by_cases hb : c = '\\'
        · subst hb; rfl
        · have hb' : (c == '\\') = false := by simp [hb]
          simp [inQuote, lexChar, hc, hb, hb']
    rw [lex, hstep, ih hs']
    cases b <;> simp [pending]

/-- **A closed label is read back as written.** -/
theorem Lexes.quoted {s : List Char} (hs : Closed s) :
    Lexes ('"' :: s ++ ['"']) [.quoted s] := by
  have hbody : lex (.quote []) (s ++ ['"']) = (.blank, [.quoted s]) := by
    have h : lex (.quote []) s = (.quote s, []) := by
      simpa [inQuote, hs.2] using lex_inQuote hs.1 false []
    rw [lex_append, h]
    simp [lex, lexChar]
  have hopen : lexChar .blank '"' = (.quote [], []) := by decide
  simp only [Lexes, List.cons_append, lex, hopen, hbody, List.nil_append]

/-- The quoted identifiers among the tokens, in order. -/
def quotedOf (k : List Token) : List (List Char) :=
  k.filterMap fun
    | .quoted s => some s
    | _ => none

@[simp] theorem quotedOf_append (j k : List Token) :
    quotedOf (j ++ k) = quotedOf j ++ quotedOf k := List.filterMap_append

/-- A quote inside a quoted identifier: it has been taken in by a backslash, and either the
text ends before the identifier does, or the identifier is read with it. -/
theorem mem_quotedOf_of_quote {t acc : List Char} {l : Lex} (hl : l = .quote acc ∨ l = .escape acc)
    (hacc : '"' ∈ acc) (hend : (lex l t).1 = .blank) : ∃ q ∈ quotedOf (lex l t).2, '"' ∈ q := by
  induction t generalizing l acc with
  | nil => rcases hl with rfl | rfl <;> cases hend
  | cons c t ih =>
    have hmore : '"' ∈ acc ++ [c] := List.mem_append_left _ hacc
    rcases hl with rfl | rfl
    · simp only [lex, lexChar] at hend ⊢
      split at hend
      · rename_i hc
        rw [if_pos hc]
        exact ⟨acc, List.mem_cons_self, hacc⟩
      · rename_i hc
        rw [if_neg hc]
        split at hend
        · rename_i hb
          rw [if_pos hb]
          exact ih (.inr rfl) hmore hend
        · rename_i hb
          rw [if_neg hb]
          exact ih (.inl rfl) hmore hend
    · exact ih (.inl rfl) hmore hend

/-- **A label that ends in an unpaired backslash is not read back**: what is read in its place
holds a quote. -/
theorem mem_quotedOf_of_pending {s : List Char} (hs : '"' ∉ s) (hp : pending false s = true)
    {t : List Char} (hend : (lex .blank ('"' :: s ++ '"' :: t)).1 = .blank) :
    ∃ q ∈ quotedOf (lex .blank ('"' :: s ++ '"' :: t)).2, '"' ∈ q := by
  have hopen : lexChar .blank '"' = (.quote [], []) := by decide
  have hbody : lex (.quote []) s = (.escape s, []) := by
    simpa [inQuote, hp] using lex_inQuote hs false []
  have hread : lex .blank ('"' :: s ++ '"' :: t) = lex (.quote (s ++ ['"'])) t := by
    rw [List.cons_append, lex, hopen, lex_append, hbody]
    simp only [List.nil_append]
    rw [lex]
    simp only [lexChar, List.nil_append]
  rw [hread] at hend ⊢
  exact mem_quotedOf_of_quote (.inl rfl) (by simp) hend

/-! ## 3. The parser -/

/-- Where the parser stands.  In the phases of an attribute list, the owner is the quoted
node the list belongs to, if there is one. -/
inductive Phase where
  | start
  | name
  | opening
  | stmt
  | ident
  | assign
  | node (q : List Char)
  | edge (q : List Char)
  | arrow (q : List Char)
  | attrs (owner : Option (List Char))
  | attrKey (owner : Option (List Char)) (key : List Char)
  | attrEq (owner : Option (List Char)) (key : List Char)
  | attrEnd (owner : Option (List Char))
  | done
  | bad
  deriving DecidableEq, Repr

/-- What a graph says: an edge, or an attribute of a node. -/
inductive Item where
  | edge (a b : List Char)
  | attr (owner key val : List Char)
  deriving DecidableEq, Repr

/-- One token where a statement may begin. -/
def stmtStep : Token → Phase
  | .ident _ => .ident
  | .quoted q => .node q
  | .semi => .stmt
  | .rbrace => .done
  | _ => .bad

/-- The value of an attribute: it is recorded when the list belongs to a quoted node. -/
def attrVal (owner : Option (List Char)) (k v : List Char) : List Item :=
  match owner with
  | some q => [.attr q k v]
  | none => []

/-- One token. -/
def parseStep (p : Phase) (t : Token) : Phase × List Item :=
  match p with
  | .start => match t with
    | .ident s => (if s = "digraph".toList then .name else .bad, [])
    | _ => (.bad, [])
  | .name => match t with
    | .ident _ | .quoted _ => (.opening, [])
    | _ => (.bad, [])
  | .opening => match t with
    | .lbrace => (.stmt, [])
    | _ => (.bad, [])
  | .stmt => (stmtStep t, [])
  | .ident => match t with
    | .equals => (.assign, [])
    | .lbracket => (.attrs none, [])
    | t => (stmtStep t, [])
  | .assign => match t with
    | .ident _ | .quoted _ => (.stmt, [])
    | _ => (.bad, [])
  | .node q => match t with
    | .arrow => (.arrow q, [])
    | .lbracket => (.attrs (some q), [])
    | t => (stmtStep t, [])
  | .edge q => match t with
    | .arrow => (.arrow q, [])
    | .lbracket => (.attrs none, [])
    | t => (stmtStep t, [])
  | .arrow q => match t with
    | .quoted r => (.edge r, [.edge q r])
    | _ => (.bad, [])
  | .attrs o => match t with
    | .ident k => (.attrKey o k, [])
    | .rbracket => (.stmt, [])
    | _ => (.bad, [])
  | .attrKey o k => match t with
    | .equals => (.attrEq o k, [])
    | _ => (.bad, [])
  | .attrEq o k => match t with
    | .ident v => (.attrEnd o, attrVal o k v)
    | _ => (.bad, [])
  | .attrEnd o => match t with
    | .comma | .semi => (.attrs o, [])
    | .ident k => (.attrKey o k, [])
    | .rbracket => (.stmt, [])
    | _ => (.bad, [])
  | .done | .bad => (.bad, [])

/-- The parser on a list of tokens: the phase it ends in, and what it has read. -/
def parse : Phase → List Token → Phase × List Item
  | p, [] => (p, [])
  | p, t :: k =>
    ((parse (parseStep p t).1 k).1, (parseStep p t).2 ++ (parse (parseStep p t).1 k).2)

/-- Parsing two lists of tokens one after the other. -/
theorem parse_append (p : Phase) (j k : List Token) :
    parse p (j ++ k) = ((parse (parse p j).1 k).1, (parse p j).2 ++ (parse (parse p j).1 k).2) := by
  induction j generalizing p with
  | nil => rfl
  | cons t j ih => simp only [List.cons_append, parse, ih, List.append_assoc]

/-- One step of the parser, where it is known. -/
theorem parse_cons {p p' : Phase} {t : Token} {is : List Item} (h : parseStep p t = (p', is))
    (k : List Token) : parse p (t :: k) = ((parse p' k).1, is ++ (parse p' k).2) := by
  rw [parse, h]

/-- The edges among what was read, in order. -/
def edgesOf (is : List Item) : List (List Char × List Char) :=
  is.filterMap fun
    | .edge a b => some (a, b)
    | .attr _ _ _ => none

/-- The nodes that were given the attribute `key=val`, in order. -/
def nodesWith (key val : List Char) (is : List Item) : List (List Char) :=
  is.filterMap fun
    | .edge _ _ => none
    | .attr q k v => if k = key ∧ v = val then some q else none

@[simp] theorem edgesOf_append (is js : List Item) :
    edgesOf (is ++ js) = edgesOf is ++ edgesOf js := List.filterMap_append

@[simp] theorem nodesWith_append (key val : List Char) (is js : List Item) :
    nodesWith key val (is ++ js) = nodesWith key val is ++ nodesWith key val js :=
  List.filterMap_append

/-! ## 4. Between statements -/

/-- The quoted identifier the parser has just read, where an arrow may follow it. -/
def Phase.last? : Phase → Option (List Char)
  | .node q | .edge q => some q
  | _ => none

/-- A new statement may begin here. -/
def Phase.Settled (p : Phase) : Prop := p = .stmt ∨ ∃ q, p.last? = some q

theorem eq_of_last? {p : Phase} {q : List Char} (h : p.last? = some q) :
    p = .node q ∨ p = .edge q := by
  cases p <;> simp only [Phase.last?, Option.some.injEq, reduceCtorEq] at h
  · exact .inl (h ▸ rfl)
  · exact .inr (h ▸ rfl)

theorem parseStep_quoted {p : Phase} (h : p.Settled) (q : List Char) :
    parseStep p (.quoted q) = (.node q, []) := by
  rcases h with rfl | ⟨r, hr⟩
  · rfl
  · rcases eq_of_last? hr with rfl | rfl <;> rfl

theorem parseStep_last_arrow {p : Phase} {q : List Char} (h : p.last? = some q) :
    parseStep p .arrow = (.arrow q, []) := by
  rcases eq_of_last? h with rfl | rfl <;> rfl

/-- The closing brace of the graph. -/
theorem parseStep_rbrace {p : Phase} (h : p.Settled) : parseStep p .rbrace = (.done, []) := by
  rcases h with rfl | ⟨r, hr⟩
  · rfl
  · rcases eq_of_last? hr with rfl | rfl <;> rfl

/-! ## 5. Well-formed graphs -/

/-- The text is a `digraph` and nothing follows its closing brace. -/
def WellFormed (t : List Char) : Prop :=
  (lex .blank t).1 = .blank ∧ (parse .start (lex .blank t).2).1 = .done

instance (t : List Char) : Decidable (WellFormed t) := inferInstanceAs (Decidable (_ ∧ _))

/-- Every arrow stands between two quoted identifiers. -/
def ArrowsQuoted (k : List Token) : Prop :=
  ∀ pre post, k = pre ++ .arrow :: post →
    ∃ pre' a b post', pre = pre' ++ [.quoted a] ∧ post = .quoted b :: post'

theorem parse_bad (k : List Token) : (parse .bad k).1 = .bad := by
  induction k with
  | nil => rfl
  | cons t k ih => exact ih

/-- After a token the parser is past a quoted identifier only if that token was one. -/
theorem eq_quoted_of_last? {p : Phase} {t : Token} {q : List Char}
    (h : (parseStep p t).1.last? = some q) : t = .quoted q := by
  cases p <;> cases t
  case start.ident s =>
    simp only [parseStep] at h
    split at h <;> cases h
  all_goals first | (cases h; rfl) | cases h

/-- An arrow is accepted after a quoted identifier and nowhere else. -/
theorem parseStep_arrow (p : Phase) :
    (∃ q, p.last? = some q ∧ (parseStep p .arrow).1 = .arrow q) ∨
      (parseStep p .arrow).1 = .bad := by
  cases p with
  | node q => exact .inl ⟨q, rfl, rfl⟩
  | edge q => exact .inl ⟨q, rfl, rfl⟩
  | _ => exact .inr rfl

/-- After an arrow only a quoted identifier keeps the parser going. -/
theorem parseStep_after_arrow (q : List Char) (t : Token) :
    (∃ r, t = .quoted r) ∨ (parseStep (.arrow q) t).1 = .bad := by
  cases t with
  | quoted r => exact .inl ⟨r, rfl⟩
  | _ => exact .inr rfl

/-- If the parser stands past the quoted identifier `q`, that was the last token. -/
theorem last_quoted_of_parse {k : List Token} {q : List Char}
    (h : (parse .start k).1.last? = some q) : ∃ k', k = k' ++ [.quoted q] := by
  rcases List.eq_nil_or_concat k with rfl | ⟨k', t, rfl⟩
  · cases h
  · rw [List.concat_eq_append, parse_append] at h
    have ht : t = .quoted q := eq_quoted_of_last? h
    exact ⟨k', by rw [List.concat_eq_append, ht]⟩

/-- **A list of tokens that parses as a graph has every arrow between two quoted
identifiers.** -/
theorem arrows_quoted {k : List Token} (h : (parse .start k).1 = .done) : ArrowsQuoted k := by
  rintro pre post rfl
  rw [parse_append] at h
  simp only [parse] at h
  rcases parseStep_arrow (parse .start pre).1 with ⟨q, hq, harrow⟩ | hbad
  · obtain ⟨pre', rfl⟩ := last_quoted_of_parse hq
    rw [harrow] at h
    cases post with
    | nil => simp [parse] at h
    | cons t post =>
      rcases parseStep_after_arrow q t with ⟨r, rfl⟩ | hbad
      · exact ⟨pre', q, r, post, rfl, rfl⟩
      · simp only [parse, hbad, parse_bad] at h
        cases h
  · rw [hbad, parse_bad] at h
    cases h

end Dot
