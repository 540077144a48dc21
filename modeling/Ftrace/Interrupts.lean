/-
# A trace that is interrupted

A signal may end the tracer after any of its operations.  Its handler puts a closing brace where the
trace stands, whatever was written last, and closes the file.

Where the whole file would be a graph, what is left of it is one too, unless the head was not
written yet, or an arrow was written last, which has nothing on its right then, or the closing
brace, which stands there twice then (`interrupted_graph_iff`).  In any case a reader finds in it
the front of what the whole file has.

Most of the time the tracer waits.  A signal that comes between two system calls of `trace_son`
always leaves a graph, that of what was executed until then (`interrupt_leaves_graph`).
-/
import Ftrace.Trace

namespace Ftrace

open CText Dot Runs

/-! ## 1. The text of the file -/

/-- The text that an operation puts into its file. -/
def FdOp.bytes : FdOp → Text
  | .write _ w => w.bytes
  | .handler _ => " \x7d ".toList
  | _ => []

/-- The text of the file that is open as `r`. -/
def fileText (r : ℤ) (ops : List FdOp) : Text := (toGraph r ops).flatMap FdOp.bytes

/-- What a reader finds in a text. -/
def itemsIn (t : Text) : List Item := (parse .start (lex .blank t).2).2

/-- Where the parser stands after some writes. -/
def phaseOf (ws : List Write) : Phase := (parse .start (tokensOf ws)).1

theorem fd_of_mem_map {r : ℤ} {ws : List Write} {op : FdOp} (h : op ∈ ws.map (.write r)) :
    op.fd? = some r := by
  obtain ⟨w, -, rfl⟩ := List.mem_map.mp h
  rfl

/-- What the handlers ask for, once the file is open. -/
theorem savedFd_opened {r : ℤ} {ops : List FdOp} (h : ∀ op ∈ ops, op.fd? = some r) :
    savedFd 0 (.openDot r :: .stock r :: ops) = r := by
  rw [savedFd_openDot, savedFd_stock]
  exact savedFd_of_fd h

theorem toGraph_writes (r : ℤ) (ws : List Write) (ops : List FdOp) :
    toGraph r (ws.map (.write r) ++ ops) = ws.map (.write r) ++ toGraph r ops := by
  have hopen : ∀ op ∈ ws.map (FdOp.write r), decide (op ≠ .close r) = true := by
    intro op hmem
    obtain ⟨w, -, rfl⟩ := List.mem_map.mp hmem
    exact decide_eq_true FdOp.noConfusion
  have hown : (ws.map (FdOp.write r)).filter (fun op => op.fd? = some r) = ws.map (.write r) := by
    refine List.filter_eq_self.mpr ?_
    intro op hmem
    exact decide_eq_true (fd_of_mem_map hmem)
  rw [toGraph, List.takeWhile_append_of_pos hopen, List.filter_append, hown]
  rfl

theorem fileText_writes (r : ℤ) (ws : List Write) (ops : List FdOp) :
    fileText r (ws.map (.write r) ++ ops) = written ws ++ fileText r ops := by
  rw [fileText, toGraph_writes, List.flatMap_append, List.flatMap_map]
  rfl

theorem fileText_brace (r : ℤ) (ops : List FdOp) :
    fileText r (.write r .brace :: ops) = "\x7d\n".toList ++ fileText r ops :=
  fileText_writes r [.brace] ops

theorem fileText_handler (r : ℤ) : fileText r [.handler r, .close r] = " \x7d ".toList := by
  have hgraph : toGraph r [.handler r, .close r] = [.handler r] := by
    simp [toGraph, FdOp.fd?]
  rw [fileText, hgraph]
  rfl

theorem fileText_closed (r : ℤ) (ops : List FdOp) : fileText r (.close r :: ops) = [] := by
  simp [fileText, toGraph]

/-! ## 2. Braces -/

/-- A brace says nothing. -/
theorem parse_braces (p : Phase) (n : ℕ) : (parse p (List.replicate n .rbrace)).2 = [] := by
  induction n generalizing p with
  | zero => rfl
  | succ n ih =>
    have hone : (parseStep p .rbrace).2 = [] := by cases p <;> rfl
    rw [List.replicate_succ, parse, hone, ih]
    rfl

section Front

variable {ws : List Write} (hclosed : ∀ w ∈ ws, w.Closed) {suffix : Text} {n : ℕ}
  (hsuffix : Lexes suffix (List.replicate n .rbrace))

include hclosed hsuffix

/-- Some writes, and braces behind them. -/
theorem lexes_front : Lexes (written ws ++ suffix) (tokensOf ws ++ List.replicate n .rbrace) :=
  (lexes_written hclosed).append hsuffix

theorem itemsIn_front : itemsIn (written ws ++ suffix) = (parse .start (tokensOf ws)).2 := by
  have hlex : lex .blank (written ws ++ suffix) = (.blank, _) := lexes_front hclosed hsuffix
  rw [itemsIn, hlex, parse_append, parse_braces, List.append_nil]

theorem wellFormed_front : WellFormed (written ws ++ suffix) ↔
    (parse (phaseOf ws) (List.replicate n .rbrace)).1 = .done := by
  have hlex : lex .blank (written ws ++ suffix) = (.blank, _) := lexes_front hclosed hsuffix
  rw [WellFormed, hlex, parse_append, and_iff_right rfl]
  rfl

end Front

/-- What is found in the front of some writes is the front of what is found in them. -/
theorem items_take (ws : List Write) (n : ℕ) :
    (parse .start (tokensOf (ws.take n))).2 <+: (parse .start (tokensOf ws)).2 := by
  conv_rhs => rw [← List.take_append_drop n ws, tokensOf_append, parse_append]
  exact List.prefix_append _ _

/-! ## 3. Between two writes -/

/-- The parser between two writes: a statement may begin, or an arrow came last. -/
def Between (p : Phase) : Prop := p.Settled ∨ ∃ q, p = .arrow q

/-- Where a statement may begin, every token but two begins one. -/
theorem parse_settled {p : Phase} (h : p.Settled) {t : Token} (harrow : t ≠ .arrow)
    (hlist : t ≠ .lbracket) (k : List Token) : (parse p (t :: k)).1 = (parse (stmtStep t) k).1 := by
  have hstep : parseStep p t = (stmtStep t, []) := by
    rcases h with rfl | ⟨q, hq⟩
    · rfl
    · rcases eq_of_last? hq with rfl | rfl <;> cases t <;> first | rfl | contradiction
  rw [parse, hstep]

/-- **One write** that keeps the parser going leaves it between two writes: after an arrow if it is
one, else where a statement may begin. -/
theorem between_write {p : Phase} (hp : Between p) {w : Write} (hw : w ≠ .brace)
    (hne : (parse p w.tokens).1 ≠ .bad) :
    if w = .arrow then ∃ q, (parse p w.tokens).1 = .arrow q else (parse p w.tokens).1.Settled := by
  rcases hp with hset | ⟨q, rfl⟩
  · cases w with
    | brace => exact absurd rfl hw
    | arrow =>
      rcases hset with rfl | ⟨q, hq⟩
      · exact absurd rfl hne
      · exact ⟨q, congrArg Prod.fst (parse_cons (parseStep_last_arrow hq) [])⟩
    | digraph =>
      refine absurd ?_ hne
      exact parse_settled hset Token.noConfusion Token.noConfusion _
    | style =>
      rw [Write.tokens, parse_settled hset Token.noConfusion Token.noConfusion]
      exact .inl rfl
    | parent l =>
      rw [Write.tokens, parse_settled hset Token.noConfusion Token.noConfusion]
      exact .inr ⟨l, rfl⟩
    | node l =>
      rw [Write.tokens, parse_settled hset Token.noConfusion Token.noConfusion]
      exact .inr ⟨l, rfl⟩
    | grey l =>
      rw [Write.tokens, parse_settled hset Token.noConfusion Token.noConfusion]
      exact .inl rfl
  · cases w with
    | brace => exact absurd rfl hw
    | arrow => exact absurd rfl hne
    | digraph => exact absurd rfl hne
    | style => exact absurd rfl hne
    | parent l => exact .inr ⟨l, rfl⟩
    | node l => exact .inr ⟨l, rfl⟩
    | grey l => exact .inl rfl

theorem phaseOf_append (ws vs : List Write) :
    phaseOf (ws ++ vs) = (parse (phaseOf ws) (tokensOf vs)).1 := phase_append ws vs

/-- What the parser cannot read it does not recover from. -/
theorem phaseOf_take_ne_bad {ws : List Write} (h : phaseOf ws ≠ .bad) (n : ℕ) :
    phaseOf (ws.take n) ≠ .bad := by
  intro hbad
  refine h ?_
  rw [← List.take_append_drop n ws, phaseOf_append, hbad, parse_bad]

/-- **The front of a file**: after the head the parser stands between two writes, and the last one
says where. -/
theorem phaseOf_front {vs : List Write} (hbrace : .brace ∉ vs)
    (hne : phaseOf (.digraph :: vs) ≠ .bad) :
    if vs.getLast? = some .arrow then ∃ q, phaseOf (.digraph :: vs) = .arrow q
    else (phaseOf (.digraph :: vs)).Settled := by
  induction vs using List.reverseRecOn with
  | nil => exact .inl (by decide)
  | append_singleton vs w ih =>
    have hphase : phaseOf (.digraph :: (vs ++ [w]))
        = (parse (phaseOf (.digraph :: vs)) w.tokens).1 := by
      rw [← List.cons_append, phaseOf_append, tokensOf, List.flatMap_singleton]
    have hfront : phaseOf (.digraph :: vs) ≠ .bad := by
      intro hbad
      rw [hphase, hbad, parse_bad] at hne
      exact hne rfl
    rw [List.mem_append, not_or] at hbrace
    have hbetween : Between (phaseOf (.digraph :: vs)) := by
      have hvs := ih hbrace.1 hfront
      split at hvs
      · exact .inr hvs
      · exact .inl hvs
    have hw : w ≠ .brace := fun h => hbrace.2 (h ▸ List.mem_singleton_self _)
    rw [List.getLast?_concat, hphase, if_congr Option.some_inj rfl rfl]
    exact between_write hbetween hw (hphase ▸ hne)

/-- So one brace ends the graph, unless it comes after an arrow. -/
theorem brace_ends_iff {vs : List Write} (hbrace : .brace ∉ vs)
    (hne : phaseOf (.digraph :: vs) ≠ .bad) :
    (parse (phaseOf (.digraph :: vs)) [.rbrace]).1 = .done ↔ vs.getLast? ≠ some .arrow := by
  have hfront := phaseOf_front hbrace hne
  split at hfront
  · rename_i harrow
    obtain ⟨q, hq⟩ := hfront
    rw [hq]
    exact iff_of_false Phase.noConfusion (not_not_intro harrow)
  · rename_i harrow
    exact iff_of_true (congrArg Prod.fst (parse_cons (parseStep_rbrace hfront) [])) harrow

/-! ## 4. The writes of a run -/

/-- The steps of the rounds that are made. -/
def stepsDone (status : Status) (rounds : List Round) : List Step :=
  (roundsDone status rounds).map Round.step

/-- What is written in a run, but for the brace at its end, is what its steps write. -/
theorem sonOps_traceLoop {symbols : Option SymTab} {r : ℤ} (hr : 0 ≤ r) {status : Status}
    {rounds : List Round} {ops : List FdOp} (h : sonOps symbols r status rounds = some ops) :
    ∃ t, traceLoop symbols {} (stepsDone status rounds) = some t ∧
      ops.filterMap FdOp.write?
        = t.writes ++ if (endStatus status rounds).isSome then [.brace] else [] := by
  obtain ⟨s, hs, rfl⟩ := Option.map_eq_some_iff.mp h
  unfold sonTracer sonRun at hs
  rw [sonLoop_eq, List.foldlM_cons] at hs
  obtain ⟨s₀, h₀, hs⟩ := Option.bind_eq_some_iff.mp hs
  obtain rfl : ({} : FdTracer) = s₀ := Option.some.inj h₀
  rw [List.foldlM_append] at hs
  obtain ⟨s₁, h₁, h₂⟩ := Option.bind_eq_some_iff.mp hs
  have hloop := rounds_forget symbols hr (roundsDone status rounds) {}
  rw [h₁, FdTracer.start_forget] at hloop
  refine ⟨s₁.forget, hloop.symm, ?_⟩
  unfold sonEnd at h₂
  split at h₂ <;> rename_i hend
  · obtain rfl := Option.some.inj h₂
    simp [hend, FdTracer.forget, FdOp.write?]
  · obtain rfl := Option.some.inj h₂
    simp [hend, FdTracer.forget]

/-- A run that starts well leaves the parser where a statement may begin. -/
theorem settled_of_traceLoop {symbols : Option SymTab} {t : Tracer} {steps : List Step}
    (h : traceLoop symbols {} steps = some t) (hopens : ∃ st ∈ steps, guard st.ret = true)
    (hstarts : StartsWell steps) : (phaseOf t.writes).Settled := by
  have hstart := traceLoop_start h hopens
  rw [if_pos hstarts] at hstart
  rcases hstart with hprimed | hrunning
  · rw [phaseOf, hprimed.writes, phase_openDotfile]
    exact .inl rfl
  · exact hrunning.inv.settled

/-- **A run whose file would be a graph**: what it does once the file is open, and what it writes. -/
structure Writes (r : ℤ) (ended : Bool) (vs : List Write) (ops : List FdOp) : Prop where
  ops_eq : ops = .openDot r :: .stock r :: restOps r (.digraph :: vs) ended
  brace : .brace ∉ vs
  closed : ∀ w ∈ Write.digraph :: vs, w.Closed
  settled : (phaseOf (.digraph :: vs)).Settled

theorem exists_writes {symbols : Option SymTab} {r : ℤ} (hr : 0 ≤ r) {status : Status}
    {rounds : List Round} {ops : List FdOp} (h : sonOps symbols r status rounds = some ops)
    (hopens : opens status rounds = true) (hstarts : StartsWell (stepsDone status rounds))
    (hcloses : ∀ st ∈ stepsDone status rounds, StepCloses symbols st) :
    ∃ vs, Writes r (endStatus status rounds).isSome vs ops := by
  obtain ⟨t, hloop, hwrites⟩ := sonOps_traceLoop hr h
  rcases sonOps_cases h with ⟨hopen, -⟩ | ⟨-, ws, hws, rfl⟩
  · rw [hopens] at hopen
    cases hopen
  · rw [openDotfileOps_of_nonneg hr] at hwrites ⊢
    have ht : t.writes = openDotfile ++ ws := by
      have hsplit : (FdOp.openDot r :: .stock r
          :: restOps r (openDotfile ++ ws) (endStatus status rounds).isSome).filterMap FdOp.write?
            = openDotfile ++ ws ++ if (endStatus status rounds).isSome then [.brace] else [] := by
        rw [restOps, List.filterMap_cons_none rfl, List.filterMap_cons_none rfl,
          List.filterMap_append, filterMap_write]
        split <;> rfl
      exact (List.append_cancel_right (hsplit.symm.trans hwrites)).symm
    refine ⟨.style :: ws, rfl, ?_, ?_, ?_⟩
    · rw [List.mem_cons, not_or]
      exact ⟨Write.noConfusion, hws⟩
    · intro w hw
      refine run_closed hloop hcloses w ?_
      rw [ht]
      exact hw
    · obtain ⟨x, hx, hguard⟩ := List.any_eq_true.mp hopens
      have hphase : phaseOf (.digraph :: .style :: ws) = phaseOf t.writes := by
        rw [ht]
        rfl
      rw [hphase]
      exact settled_of_traceLoop hloop ⟨x.step, List.mem_map_of_mem hx, hguard⟩ hstarts

/-! ## 5. A signal -/

section Signal

variable {r : ℤ} {ended : Bool} {vs : List Write} {ops : List FdOp} (h : Writes r ended vs ops)
  (mode : Mode)

include h

/-- The whole file. -/
theorem Writes.itemsIn_ops :
    itemsIn (fileText r ops) = (parse .start (tokensOf (.digraph :: vs))).2 := by
  have hopen : fileText r ops = fileText r (restOps r (.digraph :: vs) ended) := by
    rw [h.ops_eq]
    rfl
  rw [hopen, restOps, fileText_writes]
  cases ended with
  | false => exact itemsIn_front h.closed (n := 0) Lexes.nil
  | true =>
    rw [if_pos rfl, fileText_brace, fileText_closed, List.append_nil]
    exact itemsIn_front h.closed (n := 1) (by decide)

/-- A signal after a write that is not the brace. -/
theorem Writes.take_writes (hr : r ≠ 0) {j : ℕ} (hj : j ≤ vs.length) :
    (ops.take (j + 3)).getLast? = some (.write r (((vs.take j).getLast?).getD .digraph)) ∧
      fileText r (executed mode ops (some (j + 3)))
        = written (.digraph :: vs.take j) ++ " \x7d ".toList := by
  have htake : ops.take (j + 3)
      = .openDot r :: .stock r :: (Write.digraph :: vs.take j).map (.write r) := by
    rw [h.ops_eq, List.take_succ_cons, List.take_succ_cons, restOps,
      List.take_append_of_le_length (by simpa using hj), ← List.map_take, List.take_succ_cons]
  refine ⟨?_, ?_⟩
  · rw [htake, List.getLast?_cons, List.getLast?_cons, List.getLast?_map, List.getLast?_cons]
    rfl
  · have hsaved : savedFd 0 (ops.take (j + 3)) = r := by
      rw [htake, savedFd_opened fun op => fd_of_mem_map]
    rw [executed_some, hsaved, htake, catchSignal_eq, if_pos hr]
    refine (fileText_writes r (.digraph :: vs.take j) [.handler r, .close r]).trans ?_
    rw [fileText_handler]

/-- A signal after the brace, before the file is closed. -/
theorem Writes.take_brace (hr : r ≠ 0) (hended : ended = true) :
    (ops.take (vs.length + 4)).getLast? = some (.write r .brace) ∧
      fileText r (executed mode ops (some (vs.length + 4)))
        = written (.digraph :: vs) ++ ("\x7d\n".toList ++ " \x7d ".toList) := by
  obtain rfl := hended
  have htake : ops.take (vs.length + 4)
      = .openDot r :: .stock r :: ((Write.digraph :: vs).map (.write r) ++ [.write r .brace]) := by
    rw [h.ops_eq, List.take_succ_cons, List.take_succ_cons, restOps]
    simp [List.take_append]
  refine ⟨?_, ?_⟩
  · rw [htake, List.getLast?_cons, List.getLast?_cons, List.getLast?_concat]
    rfl
  · have hsaved : savedFd 0 (ops.take (vs.length + 4)) = r := by
      have hwrites : (Write.digraph :: vs).map (FdOp.write r) ++ [FdOp.write r .brace]
          = (Write.digraph :: vs ++ [Write.brace]).map (FdOp.write r) := by
        rw [List.map_append, List.map_singleton]
      rw [htake, hwrites, savedFd_opened fun op => fd_of_mem_map]
    rw [executed_some, hsaved, htake, catchSignal_eq, if_pos hr, List.cons_append, List.cons_append,
      List.append_assoc]
    refine (fileText_writes r (.digraph :: vs) _).trans ?_
    rw [List.singleton_append, fileText_brace, fileText_handler]

/-- A signal at the end. -/
theorem Writes.take_all (hended : ended = true) :
    (ops.take (vs.length + 5)).getLast? = some (.close r) ∧
      fileText r (executed mode ops (some (vs.length + 5)))
        = written (.digraph :: vs) ++ "\x7d\n".toList := by
  obtain rfl := hended
  have htake : ops.take (vs.length + 5) = .openDot r :: .stock r ::
      ((Write.digraph :: vs).map (.write r) ++ [.write r .brace, .close r]) := by
    rw [h.ops_eq, List.take_succ_cons, List.take_succ_cons, restOps]
    simp [List.take_append]
  refine ⟨?_, ?_⟩
  · rw [htake, List.getLast?_cons, List.getLast?_cons, List.getLast?_append]
    rfl
  · rw [executed_some, htake, List.cons_append, List.cons_append, List.append_assoc]
    refine (fileText_writes r (.digraph :: vs) _).trans ?_
    rw [List.cons_append, List.cons_append, fileText_brace, fileText_closed, List.append_nil]

/-- A signal before the head is written. -/
theorem Writes.take_head (hr : r ≠ 0) {k : ℕ} (hk : k < 3) :
    fileText r (executed mode ops (some k)) = [] ∨
      fileText r (executed mode ops (some k)) = " \x7d ".toList := by
  match k, hk with
  | 0, _ =>
    rw [executed_zero]
    exact .inl rfl
  | 1, _ =>
    rw [executed_some, h.ops_eq, List.take_succ_cons, List.take_zero, savedFd_openDot, savedFd,
      catchSignal_eq, if_neg (not_not_intro rfl)]
    exact .inl rfl
  | 2, _ =>
    rw [executed_some, h.ops_eq, List.take_succ_cons, List.take_succ_cons, List.take_zero,
      savedFd_openDot, savedFd_stock, savedFd, catchSignal_eq, if_pos hr]
    exact .inr (fileText_handler r)

theorem Writes.length_ops : ops.length = vs.length + 3 + if ended then 2 else 0 := by
  rw [h.ops_eq]
  cases ended <;> simp [restOps]

end Signal

/-- Where a signal does no harm: the head has been written, and the last operation was neither to
write an arrow nor to write the closing brace. -/
def Interruptible (r : ℤ) (ops : List FdOp) (k : ℕ) : Prop :=
  3 ≤ k ∧ (ops.take k).getLast? ≠ some (.write r .arrow) ∧
    (ops.take k).getLast? ≠ some (.write r .brace)

instance (r : ℤ) (ops : List FdOp) (k : ℕ) : Decidable (Interruptible r ops k) :=
  inferInstanceAs (Decidable (_ ∧ _))

theorem interruptible_take {r : ℤ} {vs : List Write} (hbrace : .brace ∉ vs) {ops : List FdOp}
    {j : ℕ} (hlast : (ops.take (j + 3)).getLast?
      = some (.write r (((vs.take j).getLast?).getD .digraph))) :
    Interruptible r ops (j + 3) ↔ (vs.take j).getLast? ≠ some .arrow := by
  rw [Interruptible, hlast, and_iff_right (Nat.le_add_left 3 j)]
  cases hw : (vs.take j).getLast? with
  | none => simp
  | some w =>
    have hne : w ≠ .brace := by
      rintro rfl
      exact hbrace (List.mem_of_mem_take (List.mem_of_getLast? hw))
    simp [hne]

/-- **Which interrupted traces leave a graph.**  In a run whose file would be a graph and has another
descriptor than 0, a signal after any of the operations of the tracer leaves one exactly if the
head has been written and this last operation did not write an arrow or the closing brace; and what
a reader finds in it, graph or not, is the front of what the run has written when it goes on. -/
theorem interrupted_graph_iff {symbols : Option SymTab} {r : ℤ} (hr : 0 < r) (mode : Mode)
    {status : Status} {rounds : List Round} {ops : List FdOp}
    (hops : sonOps symbols r status rounds = some ops) (hopens : opens status rounds = true)
    (hstarts : StartsWell (stepsDone status rounds))
    (hcloses : ∀ st ∈ stepsDone status rounds, StepCloses symbols st) {k : ℕ}
    (hk : k ≤ ops.length) :
    (WellFormed (fileText r (executed mode ops (some k))) ↔ Interruptible r ops k) ∧
      itemsIn (fileText r (executed mode ops (some k))) <+: itemsIn (fileText r ops) := by
  obtain ⟨vs, h⟩ := exists_writes (Int.le_of_lt hr) hops hopens hstarts hcloses
  have hr0 : r ≠ 0 := by omega
  have hbad : phaseOf (.digraph :: vs) ≠ .bad := by
    intro hbad
    rcases h.settled with hstmt | ⟨q, hq⟩
    · rw [hbad] at hstmt
      cases hstmt
    · rw [hbad] at hq
      cases hq
  rw [h.itemsIn_ops]
  by_cases hhead : k < 3
  · have hnot : ¬ Interruptible r ops k := fun hin => absurd hin.1 (by omega)
    rcases h.take_head mode hr0 hhead with htext | htext
    · rw [htext]
      exact ⟨iff_of_false (by decide) hnot, List.nil_prefix⟩
    · rw [htext]
      exact ⟨iff_of_false (by decide) hnot, List.nil_prefix⟩
  · obtain ⟨j, rfl⟩ := Nat.exists_eq_add_of_le' (not_lt.mp hhead)
    by_cases hj : j ≤ vs.length
    · -- among the writes
      obtain ⟨hlast, htext⟩ := h.take_writes mode hr0 hj
      have hclosed : ∀ w ∈ Write.digraph :: vs.take j, w.Closed := fun w hw =>
        h.closed w (List.mem_of_mem_take (i := j + 1) hw)
      have hbrace : .brace ∉ vs.take j := fun hmem => h.brace (List.mem_of_mem_take hmem)
      have hsuffix : Lexes " \x7d ".toList (List.replicate 1 .rbrace) := by decide
      rw [htext, wellFormed_front hclosed hsuffix, itemsIn_front hclosed hsuffix,
        interruptible_take h.brace hlast]
      exact ⟨brace_ends_iff hbrace (phaseOf_take_ne_bad hbad (j + 1)),
        items_take (.digraph :: vs) (j + 1)⟩
    · have hlen := h.length_ops
      have hended : (endStatus status rounds).isSome = true := by
        by_contra hnot
        rw [if_neg hnot] at hlen
        omega
      rw [if_pos hended] at hlen
      have hdone : parseStep (phaseOf (.digraph :: vs)) .rbrace = (.done, []) :=
        parseStep_rbrace h.settled
      rcases (by omega : j = vs.length + 1 ∨ j = vs.length + 2) with rfl | rfl
      · -- after the brace: the handler writes another one
        obtain ⟨hlast, htext⟩ := h.take_brace mode hr0 hended
        have hsuffix : Lexes ("\x7d\n".toList ++ " \x7d ".toList) (List.replicate 2 .rbrace) := by
          decide
        rw [htext, wellFormed_front h.closed hsuffix, itemsIn_front h.closed hsuffix]
        refine ⟨iff_of_false ?_ fun hin => hin.2.2 hlast, List.prefix_rfl⟩
        rw [List.replicate_succ, parse_cons hdone]
        exact Phase.noConfusion
      · obtain ⟨hlast, htext⟩ := h.take_all mode hended
        have hsuffix : Lexes "\x7d\n".toList (List.replicate 1 .rbrace) := by decide
        rw [htext, wellFormed_front h.closed hsuffix, itemsIn_front h.closed hsuffix]
        refine ⟨iff_of_true ?_ ⟨by omega, ?_, ?_⟩, List.prefix_rfl⟩
        · exact congrArg Prod.fst (parse_cons hdone [])
        · rw [hlast]
          simp
        · rw [hlast]
          simp

/-- A call, and a syscall under it that is the last instruction. -/
def callThenSyscall : List Round :=
  [⟨Step.bare 0xE8 { rip := 0x1000 }, .stopped SIGTRAP⟩,
    ⟨Step.bare 0x050F { rax := 39 }, .exited 0⟩]

/-- A signal after the arrow between them, and one after the node behind it. -/
theorem interrupted_graph_iff_arrow :
    ∃ ops, sonOps none 3 (.stopped SIGTRAP) callThenSyscall = some ops ∧
      ¬ WellFormed (fileText 3 (executed .exec ops (some 6))) ∧
      WellFormed (fileText 3 (executed .exec ops (some 7))) := by
  have hops := (Option.some_get (x := sonOps none 3 (.stopped SIGTRAP) callThenSyscall)
    (by decide +kernel)).symm
  have hsignal (k : ℕ) (hk : k ≤ 10) := interrupted_graph_iff (by decide) .exec hops
    (by decide +kernel) (by decide +kernel) (by decide +kernel) (k := k)
    (hk.trans (by decide +kernel))
  refine ⟨_, hops, fun hgraph => ?_, (hsignal 7 (by decide)).1.mpr (by decide +kernel)⟩
  exact absurd ((hsignal 6 (by decide)).1.mp hgraph) (by decide +kernel)

/-! ## 6. An interrupt while the tracer waits -/

/-- The event is one of the loop. -/
def SonEvent.inLoop : SonEvent → Bool
  | .reported _ | .step _ => true
  | .brace | .close => false

/-- A tracer that has not returned has not left the loop. -/
theorem SonRuns.inLoop {status : Status} {junk : Snapshots} {ret : Word} {acts : List Act} {s : Son}
    (h : SonRuns status junk ret acts s) (hgoing : s.pc ≠ .done) :
    ∀ e ∈ seenOf acts, e.inLoop = true := by
  refine h.invariant (I := fun acts s => s.pc ≠ .done → ∀ e ∈ seenOf acts, e.inLoop = true)
    (fun _ e he => absurd he List.not_mem_nil) ?_ hgoing
  intro acts s a s' ih hstep hgoing' e he
  rw [seenOf_snoc, List.mem_append] at he
  cases hstep with
  | tracee ev hnext => exact he.elim (ih hgoing' e) fun he => absurd he List.not_mem_nil
  | son w hact =>
    have hbefore : s.pc ≠ .done := by
      intro hdone
      rw [Son.act, hdone] at hact
      cases hact
    rcases he with he | he
    · exact ih hbefore e he
    · cases Son.move_of_act hact with
      | ends hpc hgo => exact absurd rfl hgoing'
      | waitFirst hpc hwait => exact List.mem_singleton.mp he ▸ rfl
      | wait hpc hwait => exact List.mem_singleton.mp he ▸ rfl
      | print hpc => exact List.mem_singleton.mp he ▸ rfl
      | _ => exact absurd he List.not_mem_nil

/-- What the events of the loop do with descriptors is what their steps write. -/
theorem events_forget (symbols : Option SymTab) {r : ℤ} (hr : 0 ≤ r) {es : List SonEvent}
    (h : ∀ e ∈ es, e.inLoop = true) (s : FdTracer) :
    (es.foldlM (sonEvent symbols r) s).map FdTracer.forget
      = traceLoop symbols s.forget (es.filterMap SonEvent.step?) := by
  induction es generalizing s with
  | nil => rfl
  | cons e es ih =>
    have hrest := ih fun e' he' => h e' (List.mem_cons_of_mem e he')
    cases e with
    | reported status => exact hrest s
    | step st =>
      have hsteps : (SonEvent.step st :: es).filterMap SonEvent.step?
          = st :: es.filterMap SonEvent.step? := rfl
      rw [List.foldlM_cons, hsteps, traceLoop, ← sonEvent_forget symbols hr]
      cases sonEvent symbols r s (.step st) with
      | none => rfl
      | some s' => exact hrest s'
    | brace => cases h .brace List.mem_cons_self
    | close => cases h .close List.mem_cons_self

/-- They keep the invariant of the descriptors. -/
theorem FdInv.events {symbols : Option SymTab} {r : ℤ} {es : List SonEvent}
    (h : ∀ e ∈ es, e.inLoop = true) {s s' : FdTracer} (hs : FdInv r s)
    (hrun : es.foldlM (sonEvent symbols r) s = some s') :
    FdInv r s' ∧
      s'.first = (s.first || (es.filterMap SonEvent.step?).any fun st => guard st.ret) := by
  induction es generalizing s with
  | nil =>
    obtain rfl := Option.some.inj hrun
    exact ⟨hs, by simp⟩
  | cons e es ih =>
    rw [List.foldlM_cons] at hrun
    obtain ⟨s₁, h₁, h₂⟩ := Option.bind_eq_some_iff.mp hrun
    have hrest := fun e' he' => h e' (List.mem_cons_of_mem e he')
    cases e with
    | reported status =>
      obtain rfl := Option.some.inj h₁
      exact ih hrest hs h₂
    | step st =>
      obtain ⟨hs₁, hfirst₁⟩ := hs.step h₁
      obtain ⟨hs', hfirst'⟩ := ih hrest hs₁ h₂
      have hsteps : (SonEvent.step st :: es).filterMap SonEvent.step?
          = st :: es.filterMap SonEvent.step? := rfl
      exact ⟨hs', by rw [hfirst', hfirst₁, hsteps, List.any_cons, Bool.or_assoc]⟩
    | brace => cases h .brace List.mem_cons_self
    | close => cases h .close List.mem_cons_self

/-- The descriptor of a trace that has opened its file, and what was done with it. -/
theorem FdInv.ops_of_opened {r : ℤ} (hr : 0 < r) {t : FdTracer} (h : FdInv r t)
    (hfirst : t.first = true) :
    t.ops = .openDot r :: .stock r :: t.forget.writes.map (.write r) ∧ savedFd 0 t.ops = r := by
  obtain ⟨-, ws, -, hops⟩ := h.opened hfirst
  have hwrites : t.forget.writes = openDotfile ++ ws := by
    rw [FdTracer.forget, hops, List.filterMap_append, filterMap_openDotfileOps (Int.le_of_lt hr),
      filterMap_write]
  have hall : t.ops = .openDot r :: .stock r :: t.forget.writes.map (.write r) := by
    rw [hwrites, hops, openDotfileOps, openDotfileFd, if_neg (by omega), if_neg (by omega),
      List.map_append]
    rfl
  refine ⟨hall, ?_⟩
  rw [hall, savedFd_opened fun op => fd_of_mem_map]

/-- **An interrupted trace shows what was executed**: at any time before the tracer returns, and in
whatever order the tracer and the tracee came to move, an interrupt between two system calls of
`trace_son` leaves a graph, which a reader cannot tell from that of a trace that ends there.  Its
nodes are the calls and syscalls that were printed until then, in order.  The file is open, with
another descriptor than 0, the run starts well, and no label ends in a lone backslash. -/
theorem interrupt_leaves_graph {status : Status} {junk : Snapshots} {ret : Word} {acts : List Act}
    {s : Son} (h : SonRuns status junk ret acts s) (hgoing : s.pc ≠ .done)
    {symbols : Option SymTab} {r : ℤ} (hr : 0 < r) (mode : Mode) {t : FdTracer}
    (ht : (seenOf acts).foldlM (sonEvent symbols r) {} = some t)
    (hopens : ∃ st ∈ stepsOf acts, guard st.ret = true) (hstarts : StartsWell (stepsOf acts))
    (hcloses : ∀ st ∈ stepsOf acts, StepCloses symbols st) :
    let text := fileText r (t.ops ++ catchSignal mode (savedFd 0 t.ops))
    ∃ ws, traceSon symbols (stepsOf acts) = some ws ∧
      WellFormed text ∧ itemsIn text = itemsOf ws ∧
      List.Forall₂ (LabelOf symbols) (shown (printedOf acts)) (nodesOf ws) := by
  have hloop := h.inLoop hgoing
  have hrun := events_forget symbols (Int.le_of_lt hr) hloop {}
  rw [ht, ← stepsOf_eq, FdTracer.start_forget] at hrun
  have hwrites : traceSon symbols (stepsOf acts) = some (t.forget.writes ++ [.brace]) := by
    rw [traceSon, ← hrun]
    rfl
  have hfirst : t.first = true := by
    obtain ⟨st, hst, hguard⟩ := hopens
    rw [((FdInv.start r).events hloop ht).2, Bool.false_or, ← stepsOf_eq]
    exact List.any_eq_true.mpr ⟨st, hst, hguard⟩
  obtain ⟨hops, hsaved⟩ := ((FdInv.start r).events hloop ht).1.ops_of_opened hr hfirst
  have htext : fileText r (t.ops ++ catchSignal mode (savedFd 0 t.ops))
      = written t.forget.writes ++ " \x7d ".toList := by
    rw [hsaved, hops, catchSignal_eq, if_pos (by omega)]
    refine (fileText_writes r t.forget.writes [.handler r, .close r]).trans ?_
    rw [fileText_handler]
  have hclosed := run_closed hrun.symm hcloses
  have hsuffix : Lexes " \x7d ".toList (List.replicate 1 .rbrace) := by decide
  refine ⟨_, hwrites, ?_, ?_, ?_⟩
  · rw [htext, wellFormed_front hclosed hsuffix]
    have hsettled := settled_of_traceLoop hrun.symm hopens hstarts
    exact congrArg Prod.fst (parse_cons (parseStep_rbrace hsettled) [])
  · have hwhole : itemsIn (written t.forget.writes ++ "\x7d\n".toList)
        = (parse .start (tokensOf t.forget.writes)).2 := itemsIn_front hclosed (n := 1) (by decide)
    rw [htext, itemsIn_front hclosed hsuffix, ← hwhole, itemsOf, written_append]
    rfl
  · rw [printedOf_eq]
    exact labelOf_of_traceSon hwrites

/-- The program that calls once, while the tracer waits for its last instruction. -/
def callsOnceWaiting : List Act × Son :=
  (Son.start (.exited 0) ⟨{}, {}⟩ 0).follow ⟨none, fun _ => .failed⟩
    [some (.starts ⟨{ rip := 0x1000, rsp := 0x1020, rax := 231 }, callsOnceMem⟩ SIGTRAP),
      none, none, none, none, none,
      some (.executes ⟨{ rip := 0x1005, rsp := 0x1018, rax := 231 },
        callsOnceMem.pushed 0x1020 0x1005⟩),
      some (.stops SIGTRAP), none, none, none, none, none, none, none]

theorem interrupt_leaves_graph_waiting :
    callsOnceWaiting.2.pc = .wait ∧
      ∃ t, (seenOf callsOnceWaiting.1).foldlM (sonEvent none 3) {} = some t ∧
        ∃ ws, traceSon none (stepsOf callsOnceWaiting.1) = some ws ∧
          WellFormed (fileText 3 (t.ops ++ catchSignal .exec (savedFd 0 t.ops))) := by
  have hrun : SonRuns (.exited 0) ⟨{}, {}⟩ 0 callsOnceWaiting.1 callsOnceWaiting.2 :=
    Son.follow_runs _ _ _
  have ht := (Option.some_get (x := (seenOf callsOnceWaiting.1).foldlM (sonEvent none 3) {})
    (by decide +kernel)).symm
  obtain ⟨ws, hws, hgraph, -⟩ := interrupt_leaves_graph hrun (by decide) (by decide) .exec ht
    (by decide +kernel) (by decide +kernel) (by decide +kernel)
  exact ⟨rfl, _, ht, ws, hws, hgraph⟩

end Ftrace
