/-
# The ring of descriptors

`find_fd_or_create_it` keeps one node per descriptor number in a circular list, and
`get_next_line` makes `pile` point to the node it is called for.  The search goes round from
there, and a new node is hung in behind the last one, which a second loop goes round for.

Here the nodes have addresses and links, and the loops run on them.  They always end
(`Represents.find`), the ring is the list of nodes that the model of `get_next_line` works on
(`Represents.getNextLine`), and each descriptor's results are those of its own calls
(`descriptors_independent`).
-/
import Ftrace.Lib.Ring
import Ftrace.NextLine
import Mathlib.Logic.Function.Basic

namespace Ftrace

open CText Ring

/-! ## 1. The nodes in memory -/

/-- `t_fd`; `next` is the address of another node. -/
structure FdNode where
  fd : ℤ
  str : Option Text
  next : ℕ
  deriving DecidableEq, Repr

/-- The node without its link. -/
def FdNode.tfd (n : FdNode) : TFd := ⟨n.fd, n.str⟩

/-- `tmp->next`. -/
def nextOf (nodes : List FdNode) (p : ℕ) : Option ℕ := (nodes[p]?).map FdNode.next

/-- What stands at an address. -/
def tfdAt (nodes : List FdNode) (p : ℕ) : Option TFd := (nodes[p]?).map FdNode.tfd

/-- `tmp->fd == fd`. -/
def fdIs (nodes : List FdNode) (fd : ℤ) (p : ℕ) : Bool := (tfdAt nodes p).any fun n => n.fd = fd

/-- `tmp->next = q`. -/
def setNext (nodes : List FdNode) (p q : ℕ) : List FdNode :=
  nodes.modify p fun n => { n with next := q }

/-- `pile->str = str`. -/
def setStr (nodes : List FdNode) (p : ℕ) (str : Option Text) : List FdNode :=
  nodes.modify p fun n => { n with str := str }

@[simp] theorem length_setNext (nodes : List FdNode) (p q : ℕ) :
    (setNext nodes p q).length = nodes.length := List.length_modify ..

@[simp] theorem length_setStr (nodes : List FdNode) (p : ℕ) (str : Option Text) :
    (setStr nodes p str).length = nodes.length := List.length_modify ..

theorem nextOf_setNext_self {nodes : List FdNode} {p : ℕ} (hp : p < nodes.length) (q : ℕ) :
    nextOf (setNext nodes p q) p = some q := by
  simp [nextOf, setNext, hp]

theorem nextOf_setNext_ne (nodes : List FdNode) {p r : ℕ} (h : p ≠ r) (q : ℕ) :
    nextOf (setNext nodes p q) r = nextOf nodes r := by
  simp [nextOf, setNext, h]

theorem tfdAt_setNext (nodes : List FdNode) (p q r : ℕ) :
    tfdAt (setNext nodes p q) r = tfdAt nodes r := by
  by_cases h : p = r
  · subst h
    cases hn : nodes[p]? <;> simp [tfdAt, setNext, hn, FdNode.tfd]
  · simp [tfdAt, setNext, h]

theorem nextOf_setStr (nodes : List FdNode) (p : ℕ) (str : Option Text) (r : ℕ) :
    nextOf (setStr nodes p str) r = nextOf nodes r := by
  by_cases h : p = r
  · subst h
    cases hn : nodes[p]? <;> simp [nextOf, setStr, hn]
  · simp [nextOf, setStr, h]

theorem tfdAt_setStr_self {nodes : List FdNode} {p : ℕ} {n : TFd} (h : tfdAt nodes p = some n)
    (str : Option Text) : tfdAt (setStr nodes p str) p = some { n with str := str } := by
  obtain ⟨node, hnode, rfl⟩ := Option.map_eq_some_iff.mp h
  simp [tfdAt, setStr, hnode, FdNode.tfd]

theorem tfdAt_setStr_ne (nodes : List FdNode) {p r : ℕ} (h : p ≠ r) (str : Option Text) :
    tfdAt (setStr nodes p str) r = tfdAt nodes r := by
  simp [tfdAt, setStr, h]

theorem nextOf_append {nodes : List FdNode} {p : ℕ} (hp : p < nodes.length) (n : FdNode) :
    nextOf (nodes ++ [n]) p = nextOf nodes p := by
  rw [nextOf, nextOf, List.getElem?_append_left hp]

theorem tfdAt_append {nodes : List FdNode} {p : ℕ} (hp : p < nodes.length) (n : FdNode) :
    tfdAt (nodes ++ [n]) p = tfdAt nodes p := by
  rw [tfdAt, tfdAt, List.getElem?_append_left hp]

@[simp] theorem nextOf_new (nodes : List FdNode) (n : FdNode) :
    nextOf (nodes ++ [n]) nodes.length = some n.next := by
  simp [nextOf]

@[simp] theorem tfdAt_new (nodes : List FdNode) (n : FdNode) :
    tfdAt (nodes ++ [n]) nodes.length = some n.tfd := by
  simp [tfdAt]

/-! ## 2. The two functions -/

/-- The nodes that `malloc` has given, each at the next address, and `pile`. -/
structure FdHeap where
  nodes : List FdNode := []
  pile : Option ℕ := none

/-- `find_fd_or_create_it (&pile, fd)`: the node, and the memory after it.  The loops are cut
off after as many rounds as there are nodes; `none` when one of them has not ended then. -/
def findFdOrCreateItPtr (h : FdHeap) (fd : ℤ) : Option (ℕ × List FdNode) :=
  let new := h.nodes.length
  match h.pile with
  | none => some (new, h.nodes ++ [⟨fd, none, new⟩])
  | some pile =>
    match (if fdIs h.nodes fd pile then some (some pile)
      else search (nextOf h.nodes) pile (fdIs h.nodes fd) h.nodes.length pile) with
    | none => none
    | some (some tmp) => some (tmp, h.nodes)
    | some none =>
      let nodes := h.nodes ++ [⟨fd, none, pile⟩]
      match tail (nextOf nodes) pile nodes.length pile with
      | none => none
      | some tmp => some (new, setNext nodes tmp new)

/-- `get_next_line (fd)`: the result, the memory, and the answers left. -/
def getNextLinePtr (h : FdHeap) (fd : ℤ) (reads : Reads) :
    Option (Option Text × FdHeap × Reads) :=
  match findFdOrCreateItPtr h fd with
  | none => none
  | some (pile, nodes) =>
    match tfdAt nodes pile with
    | none => none
    | some node =>
      match fillLine node.str reads with
      | (true, str, rest) =>
        let line := returnIt (str.getD [])
        some (some line.1, ⟨setStr nodes pile (some line.2), some pile⟩, rest)
      | (false, str, rest) => some (none, ⟨setStr nodes pile str, some pile⟩, rest)

/-- Calls on some descriptors, in order, each with the answers that its descriptor still has:
the results, and the memory after them. -/
def runCalls : FdHeap → (ℤ → Reads) → List ℤ → Option (List (ℤ × Option Text) × FdHeap)
  | h, _, [] => some ([], h)
  | h, answers, fd :: fds =>
    match getNextLinePtr h fd (answers fd) with
    | none => none
    | some (line, h, rest) =>
      (runCalls h (Function.update answers fd rest) fds).map fun r => ((fd, line) :: r.1, r.2)

/-! ## 3. The ring is the list of nodes -/

/-- The addresses `l` make a ring from `pile` on, with all nodes in it, and these are the nodes
of the list `pile`. -/
structure Represents (h : FdHeap) (l : List ℕ) (pile : List TFd) : Prop where
  head : h.pile = l.head?
  ring : IsRing (nextOf h.nodes) l
  all : ∀ p, p ∈ l ↔ p < h.nodes.length
  nodes : l.map (tfdAt h.nodes) = pile.map some

theorem represents_nil : Represents {} [] [] := ⟨rfl, isRing_nil, by simp, rfl⟩

variable {h : FdHeap} {l : List ℕ} {pile : List TFd}

theorem Represents.length_eq (hr : Represents h l pile) : l.length = h.nodes.length := by
  have hperm : l.Perm (List.range h.nodes.length) := by
    rw [List.perm_ext_iff_of_nodup hr.ring.nodup List.nodup_range]
    intro p
    rw [hr.all, List.mem_range]
  rw [hperm.length_eq, List.length_range]

/-- The first node of a descriptor is at the same place in both. -/
theorem Represents.findIdx?_eq (hr : Represents h l pile) (fd : ℤ) :
    l.findIdx? (fdIs h.nodes fd) = pile.findIdx? fun n => n.fd = fd := by
  have hmap := congrArg (List.findIdx? fun o : Option TFd => o.any fun n => n.fd = fd) hr.nodes
  rw [List.findIdx?_map, List.findIdx?_map] at hmap
  exact hmap

/-- A node that is there is found, and the ring is read from it on. -/
theorem Represents.find_some (hr : Represents h l pile) {fd : ℤ} {i : ℕ}
    (hi : pile.findIdx? (fun n => n.fd = fd) = some i) :
    ∃ p, findFdOrCreateItPtr h fd = some (p, h.nodes) ∧
      Represents ⟨h.nodes, some p⟩ (l.rotate i) (pile.rotate i) := by
  have hidx := (hr.findIdx?_eq fd).trans hi
  obtain ⟨hlt, -, -⟩ := List.findIdx?_eq_some_iff_getElem.mp hidx
  have hfind : l.find? (fdIs h.nodes fd) = some l[i] := by
    rw [List.find?_eq_bind_findIdx?_getElem?, hidx, Option.bind_some,
      List.getElem?_eq_getElem hlt]
  refine ⟨l[i], ?_, ?_, hr.ring.rotate hlt.le, ?_, ?_⟩
  · have hlen := hr.length_eq
    cases l with
    | nil => cases hlt
    | cons x l =>
      have hsearch := hr.ring.search_first (fdIs h.nodes fd) (n := h.nodes.length)
        (by rw [← hlen, List.length_cons]; omega)
      simp only [findFdOrCreateItPtr, hr.head, List.head?_cons, hsearch, hfind]
  · rw [List.head?_rotate hlt, List.getElem?_eq_getElem hlt]
  · intro p
    rw [List.mem_rotate]
    exact hr.all p
  · rw [List.map_rotate, List.map_rotate, hr.nodes]

/-- The first node of all. -/
theorem Represents.find_empty (hr : Represents h [] pile) (fd : ℤ) :
    ∃ p nodes, findFdOrCreateItPtr h fd = some (p, nodes) ∧
      Represents ⟨nodes, some p⟩ [p] (⟨fd, none⟩ :: pile) := by
  have hnodes : h.nodes = [] := List.eq_nil_of_length_eq_zero hr.length_eq.symm
  have hpile : pile = [] := List.map_eq_nil_iff.mp hr.nodes.symm
  refine ⟨0, [⟨fd, none, 0⟩], ?_, rfl, isRing_singleton rfl, by simp, by rw [hpile]; rfl⟩
  simp only [findFdOrCreateItPtr, hr.head, List.head?_nil, hnodes]
  rfl

/-- The ring is the same when another node is there. -/
theorem Represents.ring_append {l : List ℕ} (hr : Represents h l pile) (n : FdNode) :
    IsRing (nextOf (h.nodes ++ [n])) l :=
  hr.ring.congr fun p hp => nextOf_append ((hr.all p).mp hp) _

/-- A node put in behind the last one, in front of the first. -/
theorem Represents.insert {x : ℕ} {l : List ℕ} (hr : Represents h (x :: l) pile) (fd : ℤ) :
    Represents ⟨setNext (h.nodes ++ [⟨fd, none, x⟩])
        ((x :: l).getLast (List.cons_ne_nil x l)) h.nodes.length, some h.nodes.length⟩
      (h.nodes.length :: x :: l) (⟨fd, none⟩ :: pile) := by
  have hbelow : ∀ p ∈ x :: l, p < h.nodes.length := fun p hp => (hr.all p).mp hp
  have hring := hr.ring_append ⟨fd, none, x⟩
  have hlast := List.getLast_mem (List.cons_ne_nil x l)
  have hnew : h.nodes.length ∉ x :: l := fun hm => absurd (hbelow _ hm) (lt_irrefl _)
  refine ⟨rfl, ?_, ?_, ?_⟩
  · refine hring.insert hnew ?_ ?_ ?_
    · rw [nextOf_setNext_ne _ fun hc : _ = h.nodes.length => hnew (hc ▸ hlast), nextOf_new]
    · refine nextOf_setNext_self ?_ _
      rw [List.length_append]
      exact Nat.lt_add_right _ (hbelow _ hlast)
    · intro p hp
      refine nextOf_setNext_ne _ ?_ _
      rintro rfl
      have hnodup := hring.nodup
      rw [← List.dropLast_append_getLast (List.cons_ne_nil x l)] at hnodup
      exact (List.nodup_append.mp hnodup).2.2 _ hp _ (List.mem_singleton.mpr rfl) rfl
  · intro p
    rw [List.mem_cons, hr.all, length_setNext, List.length_append, List.length_singleton]
    omega
  · refine congrArg₂ List.cons ?_ (Eq.trans (List.map_congr_left ?_) hr.nodes)
    · rw [tfdAt_setNext, tfdAt_new]
      rfl
    · intro p hp
      rw [tfdAt_setNext, tfdAt_append (hbelow p hp)]

/-- A node that is not there is made, and stands in front. -/
theorem Represents.find_none (hr : Represents h l pile) {fd : ℤ}
    (hi : pile.findIdx? (fun n => n.fd = fd) = none) :
    ∃ p nodes, findFdOrCreateItPtr h fd = some (p, nodes) ∧
      Represents ⟨nodes, some p⟩ (p :: l) (⟨fd, none⟩ :: pile) := by
  have hlen := hr.length_eq
  cases l with
  | nil => exact hr.find_empty fd
  | cons x l =>
    have hfind : (x :: l).find? (fdIs h.nodes fd) = none := by
      rw [List.find?_eq_bind_findIdx?_getElem?, hr.findIdx?_eq fd, hi]
      rfl
    have hsearch := hr.ring.search_first (fdIs h.nodes fd) (n := h.nodes.length)
      (by rw [← hlen, List.length_cons]; omega)
    have htail := tail_eq ((hr.ring_append ⟨fd, none, x⟩).linked x rfl)
      (List.nodup_cons.mp hr.ring.nodup).1
      (n := (h.nodes ++ [(⟨fd, none, x⟩ : FdNode)]).length)
      (by rw [List.length_append, ← hlen, List.length_cons]; omega)
    refine ⟨h.nodes.length, setNext (h.nodes ++ [⟨fd, none, x⟩])
      ((x :: l).getLast (List.cons_ne_nil x l)) h.nodes.length, ?_, hr.insert fd⟩
    simp only [findFdOrCreateItPtr, hr.head, List.head?_cons, hsearch, hfind, htail]

/-- **The search ends**, and leaves a ring that is read from the descriptor's node on. -/
theorem Represents.find (hr : Represents h l pile) (fd : ℤ) :
    ∃ p nodes l', findFdOrCreateItPtr h fd = some (p, nodes) ∧
      Represents ⟨nodes, some p⟩ l' (findFdOrCreateIt pile fd) := by
  unfold findFdOrCreateIt
  cases hi : pile.findIdx? fun n => n.fd = fd with
  | some i =>
    obtain ⟨p, hfind, hr'⟩ := hr.find_some hi
    exact ⟨p, _, _, hfind, hr'⟩
  | none =>
    obtain ⟨p, nodes, hfind, hr'⟩ := hr.find_none hi
    exact ⟨p, nodes, _, hfind, hr'⟩

/-! ## 4. One call -/

/-- What a call makes of the text and the answers of its descriptor: the result, the text and
the answers after it. -/
def lineStep (str : Option Text) (reads : Reads) : Option Text × Option Text × Reads :=
  match fillLine str reads with
  | (true, str, rest) =>
    let line := returnIt (str.getD [])
    (some line.1, some line.2, rest)
  | (false, str, rest) => (none, str, rest)

/-- In the list of nodes. -/
theorem getNextLine_eq {pile : List TFd} {fd : ℤ} {node : TFd} {ring : List TFd}
    (h : findFdOrCreateIt pile fd = node :: ring) (reads : Reads) :
    getNextLine pile fd reads = ((lineStep node.str reads).1,
      { node with str := (lineStep node.str reads).2.1 } :: ring,
      (lineStep node.str reads).2.2) := by
  unfold getNextLine lineStep
  simp only [h]
  rcases fillLine node.str reads with ⟨ok, str, rest⟩
  cases ok <;> rfl

/-- In memory. -/
theorem getNextLinePtr_eq {h : FdHeap} {fd : ℤ} {p : ℕ} {nodes : List FdNode} {node : TFd}
    (hfind : findFdOrCreateItPtr h fd = some (p, nodes)) (hp : tfdAt nodes p = some node)
    (reads : Reads) :
    getNextLinePtr h fd reads = some ((lineStep node.str reads).1,
      ⟨setStr nodes p (lineStep node.str reads).2.1, some p⟩, (lineStep node.str reads).2.2) := by
  unfold getNextLinePtr lineStep
  rw [hfind]
  simp only [hp]
  rcases fillLine node.str reads with ⟨ok, str, rest⟩
  cases ok <;> rfl

/-- The text of the first node may be changed. -/
theorem Represents.setStr {h : FdHeap} {p : ℕ} {l : List ℕ} {node : TFd} {ring : List TFd}
    (hr : Represents h (p :: l) (node :: ring)) (str : Option Text) :
    Represents ⟨setStr h.nodes p str, some p⟩ (p :: l) ({ node with str := str } :: ring) := by
  have hnodes := hr.nodes
  rw [List.map_cons, List.map_cons, List.cons.injEq] at hnodes
  refine ⟨rfl, hr.ring.congr fun q _ => nextOf_setStr _ _ _ _, ?_, ?_⟩
  · intro q
    rw [hr.all, length_setStr]
  · refine congrArg₂ List.cons (tfdAt_setStr_self hnodes.1 str)
      (Eq.trans (List.map_congr_left ?_) hnodes.2)
    intro q hq
    refine tfdAt_setStr_ne _ ?_ str
    rintro rfl
    exact (List.nodup_cons.mp hr.ring.nodup).1 hq

/-- **`get_next_line` in memory** always returns, and does what it does on the list. -/
theorem Represents.getNextLine {h : FdHeap} {l : List ℕ} {pile : List TFd}
    (hr : Represents h l pile) (fd : ℤ) (reads : Reads) :
    ∃ h' l', getNextLinePtr h fd reads = some ((getNextLine pile fd reads).1, h',
        (getNextLine pile fd reads).2.2) ∧
      Represents h' l' (getNextLine pile fd reads).2.1 := by
  obtain ⟨p, nodes, l', hfind, hr'⟩ := hr.find fd
  cases hlist : findFdOrCreateIt pile fd with
  | nil =>
    -- the list is never empty: it holds the descriptor's node
    rw [hlist] at hr'
    have hl : l' = [] := List.map_eq_nil_iff.mp hr'.nodes
    have hhead := hr'.head
    rw [hl] at hhead
    cases hhead
  | cons node ring =>
    rw [hlist] at hr'
    cases l' with
    | nil => cases hr'.nodes
    | cons q l' =>
      obtain rfl := Option.some.inj hr'.head
      have hp : tfdAt nodes p = some node := (List.cons.inj hr'.nodes).1
      rw [getNextLine_eq hlist, getNextLinePtr_eq hfind hp]
      exact ⟨_, _, rfl, hr'.setStr _⟩

/-! ## 5. Each descriptor by itself -/

/-- The text of each descriptor is in one node, and a descriptor without a node has none. -/
structure Holds (text : ℤ → Option Text) (pile : List TFd) : Prop where
  nodup : (pile.map TFd.fd).Nodup
  str : ∀ n ∈ pile, n.str = text n.fd
  fresh : ∀ fd, fd ∉ pile.map TFd.fd → text fd = none

theorem holds_nil : Holds (fun _ => none) [] :=
  ⟨List.nodup_nil, fun _ h => absurd h List.not_mem_nil, fun _ _ => rfl⟩

theorem Holds.perm {text : ℤ → Option Text} {pile pile' : List TFd} (hh : Holds text pile)
    (h : pile'.Perm pile) : Holds text pile' := by
  refine ⟨(h.map TFd.fd).nodup_iff.mpr hh.nodup, fun n hn => hh.str n (h.mem_iff.mp hn), ?_⟩
  intro fd hfd
  exact hh.fresh fd fun hc => hfd ((h.map TFd.fd).mem_iff.mpr hc)

/-- The node that is found or made is that of the descriptor, and the others stay. -/
theorem Holds.find {text : ℤ → Option Text} {pile : List TFd} (hh : Holds text pile) (fd : ℤ) :
    ∃ ring, findFdOrCreateIt pile fd = ⟨fd, text fd⟩ :: ring ∧
      Holds text (⟨fd, text fd⟩ :: ring) ∧
      ∀ fd', fd' ∈ fd :: ring.map TFd.fd ↔ fd' = fd ∨ fd' ∈ pile.map TFd.fd := by
  unfold findFdOrCreateIt
  cases hi : pile.findIdx? fun n => n.fd = fd with
  | some i =>
    obtain ⟨hlt, hfd, -⟩ := List.findIdx?_eq_some_iff_getElem.mp hi
    have hfd' : pile[i].fd = fd := of_decide_eq_true hfd
    have hnode : pile[i] = ⟨fd, text fd⟩ := by
      rw [← hfd', ← hh.str _ (List.getElem_mem hlt)]
    have hrot : pile.rotate i = ⟨fd, text fd⟩ :: (pile.drop (i + 1) ++ pile.take i) := by
      rw [List.rotate_eq_drop_append_take hlt.le, List.drop_eq_getElem_cons hlt, hnode,
        List.cons_append]
    have hperm : (⟨fd, text fd⟩ :: (pile.drop (i + 1) ++ pile.take i)).Perm pile :=
      hrot ▸ List.rotate_perm pile i
    refine ⟨_, hrot, hh.perm hperm, ?_⟩
    intro fd'
    have hmem := (hperm.map TFd.fd).mem_iff (a := fd')
    rw [List.map_cons] at hmem
    rw [hmem]
    refine ⟨.inr, ?_⟩
    rintro (rfl | hc)
    · exact List.mem_map.mpr ⟨_, List.getElem_mem hlt, hfd'⟩
    · exact hc
  | none =>
    have hnot : fd ∉ pile.map TFd.fd := by
      rw [List.findIdx?_eq_none_iff] at hi
      intro hc
      obtain ⟨n, hn, hfd⟩ := List.mem_map.mp hc
      exact absurd (hi n hn) (by simp [hfd])
    have hnone := hh.fresh fd hnot
    rw [hnone]
    refine ⟨pile, rfl, ⟨List.nodup_cons.mpr ⟨hnot, hh.nodup⟩, ?_, ?_⟩, fun fd' => List.mem_cons⟩
    · intro n hn
      rcases List.mem_cons.mp hn with rfl | hn
      · exact hnone.symm
      · exact hh.str n hn
    · intro fd' hfd'
      exact hh.fresh fd' fun hc => hfd' (List.mem_cons_of_mem fd hc)

/-- **One call** is a step of its descriptor, and leaves the text of every other one. -/
theorem Holds.getNextLine {text : ℤ → Option Text} {pile : List TFd} (hh : Holds text pile)
    (fd : ℤ) (reads : Reads) :
    let step := lineStep (text fd) reads
    (getNextLine pile fd reads).1 = step.1 ∧ (getNextLine pile fd reads).2.2 = step.2.2 ∧
      Holds (Function.update text fd step.2.1) (getNextLine pile fd reads).2.1 ∧
      ∀ fd', fd' ∈ (getNextLine pile fd reads).2.1.map TFd.fd ↔
        fd' = fd ∨ fd' ∈ pile.map TFd.fd := by
  obtain ⟨ring, hfind, hh', hmem⟩ := hh.find fd
  have hnodup : fd ∉ ring.map TFd.fd ∧ (ring.map TFd.fd).Nodup := List.nodup_cons.mp hh'.nodup
  rw [getNextLine_eq hfind]
  refine ⟨rfl, rfl, ⟨hh'.nodup, ?_, ?_⟩, hmem⟩
  · intro n hn
    rcases List.mem_cons.mp hn with rfl | hn
    · rw [Function.update_self]
    · have hne : n.fd ≠ fd := fun hc => hnodup.1 (hc ▸ List.mem_map_of_mem hn)
      rw [Function.update_of_ne hne]
      exact hh'.str n (List.mem_cons_of_mem _ hn)
  · intro fd' hfd'
    have hne : fd' ≠ fd := fun hc => hfd' (hc ▸ List.mem_cons_self)
    rw [Function.update_of_ne hne]
    exact hh'.fresh fd' hfd'

/-- Calls on descriptors that know nothing of each other: each has its text and its answers. -/
def lineRun : (ℤ → Option Text × Reads) → List ℤ → List (ℤ × Option Text)
  | _, [] => []
  | s, fd :: fds =>
    let step := lineStep (s fd).1 (s fd).2
    (fd, step.1) :: lineRun (Function.update s fd step.2) fds

theorem lineRun_cons (s : ℤ → Option Text × Reads) (fd : ℤ) (fds : List ℤ) :
    lineRun s (fd :: fds) = (fd, (lineStep (s fd).1 (s fd).2).1) ::
      lineRun (Function.update s fd (lineStep (s fd).1 (s fd).2).2) fds := rfl

/-- There the results of one descriptor are those of its own calls. -/
theorem lineRun_filter {s t : ℤ → Option Text × Reads} {fd : ℤ} (h : s fd = t fd)
    (fds : List ℤ) :
    (lineRun s fds).filter (fun r => r.1 = fd) = lineRun t (fds.filter fun x => x = fd) := by
  induction fds generalizing s t with
  | nil => rfl
  | cons x fds ih =>
    rw [lineRun_cons]
    by_cases hx : x = fd
    · subst hx
      have hs : Function.update s x (lineStep (s x).1 (s x).2).2 x
          = Function.update t x (lineStep (t x).1 (t x).2).2 x := by
        rw [Function.update_self, Function.update_self, h]
      rw [List.filter_cons_of_pos (by simp), List.filter_cons_of_pos (by simp), lineRun_cons,
        ih hs, h]
    · have hs : Function.update s x (lineStep (s x).1 (s x).2).2 fd = t fd := by
        rw [Function.update_of_ne (Ne.symm hx), h]
      rw [List.filter_cons_of_neg (by simpa using hx), List.filter_cons_of_neg (by simpa using hx),
        ih hs]

/-! ## 6. Any number of calls -/

/-- The ring that `pile` points into has all nodes that were ever made, one for each of these
descriptors. -/
def OneNodeEach (h : FdHeap) (fds : List ℤ) : Prop :=
  ∃ (l : List ℕ) (used : List ℤ),
    h.pile = l.head? ∧ IsRing (nextOf h.nodes) l ∧ (∀ p, p ∈ l ↔ p < h.nodes.length) ∧
    l.map (fun p => (tfdAt h.nodes p).map TFd.fd) = used.map some ∧ used.Nodup ∧
    ∀ fd, fd ∈ used ↔ fd ∈ fds

/-- **The run of the ring** always comes to its end, with the results of the descriptors by
themselves. -/
theorem runCalls_eq {text : ℤ → Option Text} {pile : List TFd} (hh : Holds text pile) {h : FdHeap}
    {l : List ℕ} (hr : Represents h l pile) (answers : ℤ → Reads) (fds : List ℤ) :
    ∃ h' l' pile' text', runCalls h answers fds
        = some (lineRun (fun fd => (text fd, answers fd)) fds, h') ∧
      Represents h' l' pile' ∧ Holds text' pile' ∧
      ∀ fd, fd ∈ pile'.map TFd.fd ↔ fd ∈ pile.map TFd.fd ∨ fd ∈ fds := by
  induction fds generalizing h l pile text answers with
  | nil => exact ⟨h, l, pile, text, rfl, hr, hh, by simp⟩
  | cons fd fds ih =>
    obtain ⟨h₁, l₁, hcall, hr₁⟩ := hr.getNextLine fd (answers fd)
    obtain ⟨hline, hrest, hh₁, hmem₁⟩ := hh.getNextLine fd (answers fd)
    obtain ⟨h', l', pile', text', hrun, hr', hh', hmem⟩ :=
      ih hh₁ hr₁ (Function.update answers fd (lineStep (text fd) (answers fd)).2.2)
    refine ⟨h', l', pile', text', ?_, hr', hh', ?_⟩
    · have hstate : (fun x => (Function.update text fd (lineStep (text fd) (answers fd)).2.1 x,
            Function.update answers fd (lineStep (text fd) (answers fd)).2.2 x))
          = Function.update (fun x => (text x, answers x)) fd
              (lineStep (text fd) (answers fd)).2 := by
        funext x
        by_cases hx : x = fd
        · subst hx
          simp only [Function.update_self]
        · simp only [Function.update_of_ne hx]
      rw [lineRun_cons]
      unfold runCalls
      simp only [hcall, hline, hrest, hrun, hstate, Option.map_some]
    · intro x
      rw [hmem, hmem₁, List.mem_cons]
      tauto

/-- **The descriptors do not disturb each other.**  Calls of `get_next_line` on any descriptors
in any order return, leave a ring with one node for each descriptor that was used, and return
for each descriptor what they return when only its own calls are made. -/
theorem descriptors_independent (answers : ℤ → Reads) (fds : List ℤ) :
    ∃ results h, runCalls {} answers fds = some (results, h) ∧ OneNodeEach h fds ∧
      ∀ fd, ∃ h', runCalls {} answers (fds.filter fun x => x = fd)
        = some (results.filter fun r => r.1 = fd, h') := by
  obtain ⟨h, l, pile, text, hrun, hr, hh, hmem⟩ :=
    runCalls_eq holds_nil represents_nil answers fds
  refine ⟨_, h, hrun, ?_, ?_⟩
  · refine ⟨l, pile.map TFd.fd, hr.head, hr.ring, hr.all, ?_, hh.nodup, ?_⟩
    · have hnodes := congrArg (List.map (Option.map TFd.fd)) hr.nodes
      rw [List.map_map, List.map_map] at hnodes
      rw [List.map_map]
      exact hnodes
    · intro fd
      rw [hmem]
      simp
  · intro fd
    obtain ⟨h', -, -, -, hrun', -⟩ :=
      runCalls_eq holds_nil represents_nil answers (fds.filter fun x => x = fd)
    refine ⟨h', ?_⟩
    rw [hrun', lineRun_filter rfl]

end Ftrace
