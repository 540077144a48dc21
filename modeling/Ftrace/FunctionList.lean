/-
# The call stack in memory

`list_functions.c` keeps the call stack of `format_dotfile` as a list of nodes, each with a copy
of its label.  `push_function` asks for two blocks and may get neither; `pop_function` gives the
node back.

Here the blocks have addresses, and an allocator hands out any that are free, or none.  No run
reads or gives back a block that it does not own, and it is the run of the model with lists in
which exactly the labels that got no memory are left out (`list_functions_sound`).  The copy of a
label is never given back: at the end of a run there are as many as there were calls
(`labels_never_freed`).
-/
import Ftrace.Edges
import Ftrace.Lib.Heap
import Ftrace.Lib.Ring

namespace Ftrace

open CText Heaps Ring

/-! ## 1. `list_functions.c` -/

/-- `t_list_functions`: the addresses of the label and of the node behind. -/
structure FnNode where
  label : ℕ
  next : ℕ

/-- The memory of the call stack; the address 0 is the null pointer. -/
structure FnHeap where
  nodes : Heap FnNode := Heap.empty
  strs : Heap Text := Heap.empty

/-- What `malloc` and `strdup` return at the `k`-th push, 0 if they fail; an address that is
handed out already is never returned. -/
structure Allocator where
  node : ℕ → FnHeap → ℕ
  str : ℕ → FnHeap → ℕ
  node_fresh : ∀ k h, node k h ≠ 0 → h.nodes (node k h) = none
  str_fresh : ∀ k h, str k h ≠ 0 → h.strs (str k h) = none

/-- Memory never runs out: there is a block of each kind for the `k`-th push, if there were no more
than `k` before. -/
def Allocator.NeverFails (a : Allocator) : Prop :=
  ∀ (k : ℕ) (h : FnHeap) (l m : List ℕ), h.nodes.Owned l → h.strs.Owned m →
    l.length ≤ k → m.length ≤ k → a.node k h ≠ 0 ∧ a.str k h ≠ 0

/-- An allocator of this kind. -/
def Allocator.firstFit : Allocator where
  node k h := h.nodes.firstFree k
  str k h := h.strs.firstFree k
  node_fresh k h := h.nodes.firstFree_fresh k
  str_fresh k h := h.strs.firstFree_fresh k

theorem Allocator.firstFit_neverFails : firstFit.NeverFails := fun _ _ _ _ hl hm hl' hm' =>
  ⟨hl.firstFree_ne_zero hl', hm.firstFree_ne_zero hm'⟩

/-- `create_function (label)`, when `malloc` returns `new` and `strdup` returns `str`. -/
def createFunction (h : FnHeap) (label : Text) (new str : ℕ) : Option (FnHeap × ℕ) :=
  if new = 0 then some (h, 0)
  else
    let nodes := h.nodes.put new ⟨str, 0⟩
    if str = 0 then (nodes.free new).map fun nodes => (⟨nodes, h.strs⟩, 0)
    else some (⟨nodes, h.strs.put str label⟩, new)

/-- `push_function (&list, label)`: the memory, the list and the value returned. -/
def pushFunctionPtr (h : FnHeap) (list : ℕ) (label : Text) (new str : ℕ) :
    Option (FnHeap × ℕ × ℤ) := do
  let (h, new) ← createFunction h label new str
  if new = 0 then some (h, list, -1)
  else if list ≠ 0 then
    let n ← h.nodes new
    some (⟨h.nodes.put new ⟨n.label, list⟩, h.strs⟩, new, 0)
  else some (h, new, 0)

/-- `pop_function (&list)`. -/
def popFunctionPtr (h : FnHeap) (list : ℕ) : Option (FnHeap × ℕ) :=
  if list = 0 then some (h, list)
  else do
    let n ← h.nodes list
    let nodes ← h.nodes.free list
    some (⟨nodes, h.strs⟩, n.next)

/-- `get_function (list)`, a null pointer for an empty list. -/
def getFunctionPtr (h : FnHeap) (list : ℕ) : Option (Option Text) :=
  if list = 0 then some none
  else do
    let n ← h.nodes list
    let t ← h.strs n.label
    some (some t)

/-! ## 2. `format_dotfile` on memory -/

/-- The statics of `format_dotfile`, the list by its address. -/
structure FnStatics where
  heap : FnHeap := {}
  listFunc : ℕ := 0
  ret : Bool := false

/-- The node that a broken chain restarts from. -/
def restartPtr (s : FnStatics) : Option (List Write) :=
  if s.ret then
    (getFunctionPtr s.heap s.listFunc).map fun func => [.parent (func.getD "U n K".toList)]
  else some []

/-- `format_dotfile` once more; nothing looks at what `push_function` returns. -/
def formatDotfilePtr (s : FnStatics) (buffer : Text) (first : Bool) (new str : ℕ) :
    Option (FnStatics × List Write) := do
  let buffer := deleteQuote buffer.dropLast
  if buffer.head? = some '>' then
    let (heap, list) ← popFunctionPtr s.heap s.listFunc
    some (⟨heap, list, true⟩, [])
  else
    let restart ← restartPtr s
    let link := if first then [Write.arrow] else []
    if buffer.head? = some '@' then
      some (⟨s.heap, s.listFunc, true⟩, restart ++ link ++ [.node buffer, .grey buffer])
    else
      let (heap, list, _) ← pushFunctionPtr s.heap s.listFunc buffer new str
      some (⟨heap, list, false⟩, restart ++ link ++ [.node buffer])

/-- `malloc` and `strdup` have both handed out a block. -/
def gotMemory (new str : ℕ) : Bool := new ≠ 0 && str ≠ 0

/-- One line after another, `k` of them before. -/
def formatLinesPtr (a : Allocator) (k : ℕ) (s : FnStatics) (first : Bool) :
    List Text → Option (FnStatics × List Write)
  | [] => some (s, [])
  | b :: bs => do
    let (s', ws) ← formatDotfilePtr s b first (a.node k s.heap) (a.str k s.heap)
    let (s'', ws') ← formatLinesPtr a (k + 1) s' true bs
    some (s'', ws ++ ws')

/-- Whether there is memory for each line in turn, as those before have left it. -/
def memoryFor (a : Allocator) (k : ℕ) (s : FnStatics) (first : Bool) : List Text → List Bool
  | [] => []
  | b :: bs =>
    gotMemory (a.node k s.heap) (a.str k s.heap) ::
      match formatDotfilePtr s b first (a.node k s.heap) (a.str k s.heap) with
      | some (s', _) => memoryFor a (k + 1) s' true bs
      | none => []

/-! ## 3. The same with lists -/

/-- The event of a line, as `format_dotfile` gets it. -/
def lineEvent (buffer : Text) : Event := .ofLine buffer.dropLast

/-- The line is one that pushes its label. -/
def pushes (buffer : Text) : Bool :=
  match lineEvent buffer with
  | .call _ => true
  | _ => false

/-- `format_dotfile` where `ok` says whether there is memory for the label. -/
def formatDotfileOr (d : DotStatics) (buffer : Text) (first ok : Bool) : DotStatics × List Write :=
  let r := formatDotfile d buffer first
  if pushes buffer && !ok then ({ r.1 with listFunc := d.listFunc }, r.2) else r

/-- One line after another, each with whether there is memory for it. -/
def formatLinesOr (d : DotStatics) (first : Bool) : List (Text × Bool) → DotStatics × List Write
  | [] => (d, [])
  | (b, ok) :: bs =>
    let r := formatDotfileOr d b first ok
    let rest := formatLinesOr r.1 true bs
    (rest.1, r.2 ++ rest.2)

/-- How many labels are copied. -/
def pushCount (lines : List (Text × Bool)) : ℕ := lines.countP fun p => pushes p.1 && p.2

/-- With memory for every label these are the lines as they were. -/
theorem formatLinesOr_replicate (d : DotStatics) (first : Bool) (lines : List Text) :
    formatLinesOr d first (lines.zip (List.replicate lines.length true))
      = formatLines d first lines := by
  induction lines generalizing d first with
  | nil => rfl
  | cons b bs ih =>
    have hone : formatDotfileOr d b first true = formatDotfile d b first := by
      simp [formatDotfileOr]
    rw [List.length_cons, List.replicate_succ, List.zip_cons_cons, formatLinesOr, formatLines, hone,
      ih]

theorem pushCount_replicate (lines : List Text) :
    pushCount (lines.zip (List.replicate lines.length true)) = lines.countP pushes := by
  induction lines with
  | nil => rfl
  | cons b bs ih =>
    rw [List.length_cons, List.replicate_succ, List.zip_cons_cons, pushCount, List.countP_cons,
      List.countP_cons, ← pushCount, ih, Bool.and_true]

/-! ## 4. What is owned -/

/-- The address of the node behind one. -/
def FnHeap.next (h : FnHeap) (p : ℕ) : Option ℕ := (h.nodes p).map FnNode.next

/-- The address of the label of a node. -/
def FnHeap.label (h : FnHeap) (p : ℕ) : Option ℕ := (h.nodes p).map FnNode.label

/-- A node of the call stack: its address, that of its label, and the label. -/
structure FnCell where
  addr : ℕ
  label : ℕ
  text : Text

/-- The address of the first node, the null pointer if there is none. -/
def firstAddr (cells : List FnCell) : ℕ := (cells.map FnCell.addr).headD 0

/-- **The ledger.**  The nodes that are handed out are those of the call stack, which the list goes
through down to the null pointer; the strings are their labels, and the labels that were lost. -/
structure FnOwns (h : FnHeap) (list : ℕ) (cells : List FnCell) (lost : List ℕ) : Prop where
  nodes : h.nodes.Owned (cells.map FnCell.addr)
  nonnull : ∀ c ∈ cells, c.addr ≠ 0
  head : list = firstAddr cells
  linked : Linked h.next (cells.map FnCell.addr) 0
  strs : h.strs.Owned (cells.map FnCell.label ++ lost)
  label : ∀ c ∈ cells, h.label c.addr = some c.label
  text : ∀ c ∈ cells, h.strs c.label = some c.text

theorem fnOwns_empty : FnOwns {} 0 [] [] :=
  ⟨Heap.owned_empty, by simp, rfl, trivial, Heap.owned_empty, by simp, by simp⟩

section Owns

variable {h : FnHeap} {list : ℕ} {c : FnCell} {cells : List FnCell} {lost : List ℕ}

theorem FnOwns.eq_zero_iff (ho : FnOwns h list cells lost) : list = 0 ↔ cells = [] := by
  cases cells with
  | nil => exact iff_of_true ho.head rfl
  | cons c cells =>
    have hhead : list = c.addr := ho.head
    rw [hhead]
    exact iff_of_false (ho.nonnull c List.mem_cons_self) (List.cons_ne_nil c cells)

/-- The node on top. -/
theorem FnOwns.top (ho : FnOwns h list (c :: cells) lost) :
    list = c.addr ∧ h.nodes c.addr = some ⟨c.label, firstAddr cells⟩ := by
  refine ⟨ho.head, ?_⟩
  obtain ⟨n, hn⟩ := ho.nodes.exists_of_mem (p := c.addr) List.mem_cons_self
  have hlabel : some n.label = some c.label := by
    rw [← ho.label c List.mem_cons_self, FnHeap.label, hn]
    rfl
  have hnext : some n.next = some (firstAddr cells) := by
    rw [firstAddr, ← ho.linked.1, FnHeap.next, hn]
    rfl
  rw [hn, ← Option.some.inj hlabel, ← Option.some.inj hnext]

/-- `get_function` reads the label on top. -/
theorem FnOwns.get (ho : FnOwns h list cells lost) :
    getFunctionPtr h list = some (getFunction (cells.map FnCell.text)) := by
  cases cells with
  | nil => exact if_pos (ho.eq_zero_iff.mpr rfl)
  | cons c cells =>
    obtain ⟨hlist, hnode⟩ := ho.top
    have hne : ¬ list = 0 := fun h0 => List.cons_ne_nil c cells (ho.eq_zero_iff.mp h0)
    rw [getFunctionPtr, if_neg hne, hlist, hnode]
    simp only [Option.bind_eq_bind, Option.bind_some, ho.text c List.mem_cons_self]
    rfl

/-- `pop_function` on an empty list. -/
theorem FnOwns.pop_nil (ho : FnOwns h list [] lost) : popFunctionPtr h list = some (h, list) :=
  if_pos (ho.eq_zero_iff.mpr rfl)

/-- **`pop_function` gives the node back**, and loses its label. -/
theorem FnOwns.pop (ho : FnOwns h list (c :: cells) lost) :
    ∃ h', popFunctionPtr h list = some (h', firstAddr cells) ∧
      FnOwns h' (firstAddr cells) cells (c.label :: lost) := by
  obtain ⟨hlist, hnode⟩ := ho.top
  have hne : ¬ list = 0 := fun h0 => List.cons_ne_nil c cells (ho.eq_zero_iff.mp h0)
  obtain ⟨nodes, hfree, howned, hframe⟩ := ho.nodes.free
  have hkeep : ∀ p ∈ cells.map FnCell.addr, nodes p = h.nodes p := by
    intro p hp
    refine hframe p ?_
    rintro rfl
    exact (List.nodup_cons.mp ho.nodes.nodup).1 hp
  refine ⟨⟨nodes, h.strs⟩, ?_, ?_⟩
  · rw [popFunctionPtr, if_neg hne, hlist, hnode]
    simp only [Option.bind_eq_bind, Option.bind_some, hfree]
  · refine ⟨howned, fun c' hc => ho.nonnull c' (List.mem_cons_of_mem c hc), rfl, ?_, ?_, ?_,
      fun c' hc => ho.text c' (List.mem_cons_of_mem c hc)⟩
    · exact ho.linked.2.congr fun p hp => congrArg (Option.map FnNode.next) (hkeep p hp)
    · exact ho.strs.perm List.perm_middle.symm
    · intro c' hc
      rw [← ho.label c' (List.mem_cons_of_mem c hc)]
      exact congrArg (Option.map FnNode.label) (hkeep _ (List.mem_map_of_mem hc))

/-- A push that gets no memory changes nothing. -/
theorem pushFunctionPtr_fails {new str : ℕ} (hnew : new ≠ 0 → h.nodes new = none)
    (hfails : new = 0 ∨ str = 0) (list : ℕ) (label : Text) :
    pushFunctionPtr h list label new str = some (h, list, -1) := by
  have hcreate : createFunction h label new str = some (h, 0) := by
    by_cases h0 : new = 0
    · exact if_pos h0
    · rw [createFunction, if_neg h0, if_pos (hfails.resolve_left h0), Heap.free_put (hnew h0)]
      rfl
  rw [pushFunctionPtr, hcreate]
  rfl

/-- **A push** that gets its two blocks. -/
theorem FnOwns.push (ho : FnOwns h list cells lost) {new str : ℕ} (hnew : new ≠ 0) (hstr : str ≠ 0)
    (hnode : h.nodes new = none) (hfresh : h.strs str = none) (label : Text) :
    ∃ h', pushFunctionPtr h list label new str = some (h', new, 0) ∧
      FnOwns h' new (⟨new, str, label⟩ :: cells) lost := by
  have hcreate : createFunction h label new str
      = some (⟨h.nodes.put new ⟨str, 0⟩, h.strs.put str label⟩, new) := by
    rw [createFunction, if_neg hnew, if_neg hstr]
  refine ⟨⟨h.nodes.put new ⟨str, firstAddr cells⟩, h.strs.put str label⟩, ?_, ?_⟩
  · rw [pushFunctionPtr, hcreate]
    simp only [Option.bind_eq_bind, Option.bind_some, if_neg hnew]
    by_cases h0 : list = 0
    · obtain rfl := ho.eq_zero_iff.mp h0
      rw [if_neg (not_not_intro h0)]
      rfl
    · rw [if_pos h0, Heap.put_self, ho.head]
      simp only [Option.bind_some, Heap.put_put]
  · have hother : ∀ p ∈ cells.map FnCell.addr,
        h.nodes.put new ⟨str, firstAddr cells⟩ p = h.nodes p := by
      intro p hp
      refine Heap.put_of_ne _ _ ?_
      rintro rfl
      exact ho.nodes.not_mem hnode hp
    refine ⟨ho.nodes.alloc hnode _, List.forall_mem_cons.mpr ⟨hnew, ho.nonnull⟩, rfl, ⟨?_, ?_⟩,
      ho.strs.alloc hfresh label, List.forall_mem_cons.mpr ⟨?_, ?_⟩,
      List.forall_mem_cons.mpr ⟨Heap.put_self .., ?_⟩⟩
    · exact congrArg (Option.map FnNode.next) (Heap.put_self ..)
    · exact ho.linked.congr fun p hp => congrArg (Option.map FnNode.next) (hother p hp)
    · exact congrArg (Option.map FnNode.label) (Heap.put_self ..)
    · intro c' hc
      rw [← ho.label c' hc]
      exact congrArg (Option.map FnNode.label) (hother _ (List.mem_map_of_mem hc))
    · intro c' hc
      have hne : c'.label ≠ str := by
        intro heq
        refine ho.strs.not_mem hfresh (List.mem_append_left _ ?_)
        rw [← heq]
        exact List.mem_map_of_mem hc
      rw [← ho.text c' hc]
      exact Heap.put_of_ne _ _ hne

end Owns

/-! ## 5. One line -/

/-- The statics in memory, and those of the model with lists, after `n` labels have been copied. -/
structure Mirrors (s : FnStatics) (d : DotStatics) (n : ℕ) (cells : List FnCell) (lost : List ℕ) :
    Prop where
  owns : FnOwns s.heap s.listFunc cells lost
  stack : d.listFunc = cells.map FnCell.text
  ret : d.ret = s.ret
  copies : cells.length + lost.length = n

theorem mirrors_empty : Mirrors {} {} 0 [] [] := ⟨fnOwns_empty, rfl, rfl, rfl⟩

/-- What `format_dotfile` does in memory, by the event of its line. -/
def formatEventPtr (s : FnStatics) (first : Bool) (new str : ℕ) :
    Event → Option (FnStatics × List Write)
  | .ret => do
    let (heap, list) ← popFunctionPtr s.heap s.listFunc
    some (⟨heap, list, true⟩, [])
  | .syscall l => do
    let restart ← restartPtr s
    some (⟨s.heap, s.listFunc, true⟩,
      restart ++ (if first then [Write.arrow] else []) ++ [.node l, .grey l])
  | .call l => do
    let restart ← restartPtr s
    let (heap, list, _) ← pushFunctionPtr s.heap s.listFunc l new str
    some (⟨heap, list, false⟩, restart ++ (if first then [Write.arrow] else []) ++ [.node l])

theorem formatDotfilePtr_eq (s : FnStatics) (buffer : Text) (first : Bool) (new str : ℕ) :
    formatDotfilePtr s buffer first new str = formatEventPtr s first new str (lineEvent buffer) := by
  unfold formatDotfilePtr lineEvent Event.ofLine Event.ofLabel
  dsimp only
  by_cases hret : (deleteQuote buffer.dropLast).head? = some '>'
  · rw [if_pos hret, if_pos hret]
    rfl
  · rw [if_neg hret, if_neg hret]
    by_cases hsys : (deleteQuote buffer.dropLast).head? = some '@'
    · rw [if_pos hsys]
      simp only [if_pos hsys]
      rfl
    · rw [if_neg hsys]
      simp only [if_neg hsys]
      rfl

section Line

variable {s : FnStatics} {d : DotStatics} {n : ℕ} {cells : List FnCell} {lost : List ℕ}

/-- The parent that a broken chain restarts from is read from memory. -/
theorem Mirrors.restart (hm : Mirrors s d n cells lost) :
    restartPtr s = some (if d.ret then [Write.parent (parentLabel d.listFunc)] else []) := by
  rw [restartPtr, hm.ret, hm.owns.get, ← hm.stack]
  cases s.ret <;> rfl

/-- **One line**: nothing is read or given back that is not owned, and what is written is what the
model with lists writes, whether there is memory for the label or not. -/
theorem Mirrors.line (hm : Mirrors s d n cells lost) (buffer : Text) (first : Bool) {new str : ℕ}
    (hnew : new ≠ 0 → s.heap.nodes new = none) (hstr : str ≠ 0 → s.heap.strs str = none) :
    ∃ s' cells' lost',
      formatDotfilePtr s buffer first new str
        = some (s', (formatDotfileOr d buffer first (gotMemory new str)).2) ∧
      Mirrors s' (formatDotfileOr d buffer first (gotMemory new str)).1
        (n + if pushes buffer && gotMemory new str then 1 else 0) cells' lost' := by
  have hevent : Event.ofLine buffer.dropLast = lineEvent buffer := rfl
  unfold formatDotfileOr pushes
  simp only [formatDotfilePtr_eq, formatDotfile_eq, hevent]
  cases lineEvent buffer with
  | call l =>
    by_cases hfails : new = 0 ∨ str = 0
    · have hgot : gotMemory new str = false := by
        rcases hfails with h | h <;> simp [gotMemory, h]
      refine ⟨⟨s.heap, s.listFunc, false⟩, cells, lost, ?_, ?_⟩
      · simp only [formatEventPtr, hm.restart, Option.bind_eq_bind, Option.bind_some,
          pushFunctionPtr_fails hnew hfails, hgot]
        rfl
      · rw [hgot]
        exact ⟨hm.owns, hm.stack, rfl, hm.copies⟩
    · obtain ⟨hnew0, hstr0⟩ := not_or.mp hfails
      have hgot : gotMemory new str = true := by simp [gotMemory, hnew0, hstr0]
      obtain ⟨heap, hpush, howns⟩ := hm.owns.push hnew0 hstr0 (hnew hnew0) (hstr hstr0) l
      refine ⟨⟨heap, new, false⟩, ⟨new, str, l⟩ :: cells, lost, ?_, ?_⟩
      · simp only [formatEventPtr, hm.restart, Option.bind_eq_bind, Option.bind_some, hpush, hgot]
        rfl
      · have hcopies := hm.copies
        rw [hgot]
        refine ⟨howns, congrArg (l :: ·) hm.stack, rfl, ?_⟩
        simp only [List.length_cons, Bool.and_self, if_true]
        omega
  | syscall l =>
    refine ⟨⟨s.heap, s.listFunc, true⟩, cells, lost, ?_, hm.owns, hm.stack, rfl, hm.copies⟩
    simp only [formatEventPtr, hm.restart, Option.bind_eq_bind, Option.bind_some]
    rfl
  | ret =>
    cases hcells : cells with
    | nil =>
      subst hcells
      refine ⟨⟨s.heap, s.listFunc, true⟩, [], lost, ?_, hm.owns, ?_, rfl, hm.copies⟩
      · simp only [formatEventPtr, hm.owns.pop_nil, Option.bind_eq_bind, Option.bind_some]
        rfl
      · exact congrArg List.tail hm.stack
    | cons c rest =>
      subst hcells
      obtain ⟨heap, hpop, howns⟩ := hm.owns.pop
      refine ⟨⟨heap, firstAddr rest, true⟩, rest, c.label :: lost, ?_, howns, ?_, rfl, ?_⟩
      · simp only [formatEventPtr, hpop, Option.bind_eq_bind, Option.bind_some]
        rfl
      · exact congrArg List.tail hm.stack
      · have hcopies := hm.copies
        simp only [List.length_cons, Bool.false_and, Bool.false_eq_true, if_false] at hcopies ⊢
        omega

end Line

/-! ## 6. Whole runs -/

/-- Every line is done without a fault. -/
theorem formatLinesPtr_mirrors (a : Allocator) (lines : List Text) {s : FnStatics} {d : DotStatics}
    {n : ℕ} {cells : List FnCell} {lost : List ℕ} (hm : Mirrors s d n cells lost) {k : ℕ}
    (hk : n ≤ k) (first : Bool) :
    let oks := memoryFor a k s first lines
    ∃ s' cells' lost', oks.length = lines.length ∧
      formatLinesPtr a k s first lines = some (s', (formatLinesOr d first (lines.zip oks)).2) ∧
      Mirrors s' (formatLinesOr d first (lines.zip oks)).1 (n + pushCount (lines.zip oks))
        cells' lost' ∧
      (a.NeverFails → oks = List.replicate lines.length true) := by
  induction lines generalizing s d n cells lost k first with
  | nil => exact ⟨s, cells, lost, rfl, rfl, hm, fun _ => rfl⟩
  | cons b bs ih =>
    obtain ⟨s₁, cells₁, lost₁, hline, hm₁⟩ := hm.line b first
      (a.node_fresh k s.heap) (a.str_fresh k s.heap)
    have hk₁ : n + (if pushes b && gotMemory (a.node k s.heap) (a.str k s.heap) then 1 else 0)
        ≤ k + 1 := by
      split <;> omega
    obtain ⟨s', cells', lost', hlen, hlines, hm', hoks⟩ := ih hm₁ hk₁ true
    have hcons : memoryFor a k s first (b :: bs)
        = gotMemory (a.node k s.heap) (a.str k s.heap) :: memoryFor a (k + 1) s₁ true bs := by
      rw [memoryFor, hline]
    dsimp only
    rw [hcons]
    refine ⟨s', cells', lost', by rw [List.length_cons, hlen, List.length_cons], ?_, ?_,
      fun ha => ?_⟩
    · rw [formatLinesPtr, hline]
      simp only [Option.bind_eq_bind, Option.bind_some, hlines]
      rfl
    · rw [List.zip_cons_cons, pushCount, List.countP_cons, ← pushCount, Nat.add_comm (pushCount _),
        ← Nat.add_assoc]
      exact hm'
    · have hcopies := hm.copies
      obtain ⟨hnew, hstr⟩ := ha k s.heap _ _ hm.owns.nodes hm.owns.strs
        (by rw [List.length_map]; omega)
        (by rw [List.length_append, List.length_map]; omega)
      have hgot : gotMemory (a.node k s.heap) (a.str k s.heap) = true := by
        simp [gotMemory, hnew, hstr]
      rw [hgot, hoks ha, List.length_cons, List.replicate_succ]

/-- **The call stack is safe in memory**, whatever the lines are and whenever memory runs out: no
block is read or given back that is not owned, and what is written is what the model with lists
writes, from whose stack exactly the labels are left out for which one of the two blocks was not
handed out.  At the end the nodes in memory are those of the stack; the strings are the labels on
it, and those that were lost with a node. -/
theorem list_functions_sound (a : Allocator) (lines : List Text) :
    let oks := memoryFor a 0 {} false lines
    ∃ s cells lost, oks.length = lines.length ∧
      formatLinesPtr a 0 {} false lines
        = some (s, (formatLinesOr {} false (lines.zip oks)).2) ∧
      FnOwns s.heap s.listFunc cells lost ∧
      (formatLinesOr {} false (lines.zip oks)).1.listFunc = cells.map FnCell.text ∧
      cells.length + lost.length = pushCount (lines.zip oks) := by
  obtain ⟨s, cells, lost, hlen, hlines, hm, -⟩ :=
    formatLinesPtr_mirrors a lines mirrors_empty (Nat.le_refl 0) false
  exact ⟨s, cells, lost, hlen, hlines, hm.owns, hm.stack, by rw [hm.copies, Nat.zero_add]⟩

/-- **A label is never given back**: with memory for all of them, the file is that of the model with
lists, and the strings in memory at its end are as many as there were calls, however few of them
have not returned. -/
theorem labels_never_freed {a : Allocator} (ha : a.NeverFails) (lines : List Text) :
    ∃ s strs, formatLinesPtr a 0 {} false lines = some (s, (formatLines {} false lines).2) ∧
      s.heap.strs.Owned strs ∧ strs.length = lines.countP pushes ∧
      ∃ nodes, s.heap.nodes.Owned nodes ∧
        nodes.length = (formatLines {} false lines).1.listFunc.length := by
  obtain ⟨s, cells, lost, -, hlines, hm, hoks⟩ :=
    formatLinesPtr_mirrors a lines mirrors_empty (Nat.le_refl 0) false
  rw [hoks ha, formatLinesOr_replicate] at hlines hm
  refine ⟨s, _, hlines, hm.owns.strs, ?_, _, hm.owns.nodes, ?_⟩
  · rw [List.length_append, List.length_map, hm.copies, pushCount_replicate, Nat.zero_add]
  · rw [List.length_map, hm.stack, List.length_map]

/-- A call that returns, twice: nothing is on the stack, and two labels are in memory. -/
theorem labels_never_freed_twice :
    let lines := ["call rax: 0x10\n".toList, ">>> return (0x0)\n".toList,
      "call rax: 0x10\n".toList, ">>> return (0x0)\n".toList]
    lines.countP pushes = 2 ∧ (formatLines {} false lines).1.listFunc = [] ∧
    ∃ s strs, formatLinesPtr .firstFit 0 {} false lines = some (s, (formatLines {} false lines).2) ∧
      s.heap.strs.Owned strs ∧ strs.length = lines.countP pushes ∧
      ∃ nodes, s.heap.nodes.Owned nodes ∧
        nodes.length = (formatLines {} false lines).1.listFunc.length :=
  ⟨by decide, by decide, labels_never_freed Allocator.firstFit_neverFails _⟩

end Ftrace
