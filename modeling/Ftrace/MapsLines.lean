/-
# The lines of the maps file

`get_lib` is given lines by `get_next_line`, which keeps what it has read past the end of a
line under the NUMBER of the descriptor.  `close` does not know of that text, so the next file
that the kernel gives the same number starts with it: with the rest of the last chunk if the
search stopped at a line, and with a newline if it ran to the end of the file, where an empty
read is answered by adding one (`stale_newline`).

`delivers_of_cleanLookups` says that this is all that goes wrong over a history of lookups: where
no text waits under the number of a newly opened file, the lines that its lookup is given are
those of the file, as far as it goes (`scanLines`).
-/
import Ftrace.NextLines
import Ftrace.ResolveSymbols

namespace Ftrace

open CText Bytes Lines

/-! ## 1. Reads that cut no line -/

/-- The text that a list of reads returns. -/
def content (reads : Reads) : Text := (reads.map fun r => r.getD []).flatten

/-- The reads succeed, and each but the last fills the buffer or ends in a newline. -/
def WholeReads : Reads → Prop
  | [] => True
  | none :: _ => False
  | some t :: rest =>
    Chunk t ∧ (rest = [] ∨ t.length = BUF_SIZE ∨ t.getLast? = some '\n') ∧ WholeReads rest

/-- They are pieces of a text, of which none but the last stops short. -/
theorem WholeReads.chunks {reads : Reads} (h : WholeReads reads) :
    ∃ chunks : List Text, reads = chunks.map some ∧ content reads = chunks.flatten ∧
      (∀ t ∈ chunks, Chunk t) ∧ ∀ t ∈ chunks.dropLast, ¬ StopsShort t := by
  induction reads with
  | nil =>
    exact ⟨[], rfl, rfl, fun t ht => absurd ht List.not_mem_nil,
      fun t ht => absurd ht List.not_mem_nil⟩
  | cons r rest ih =>
    cases r with
    | none => exact h.elim
    | some t =>
      obtain ⟨hchunk, hcut, hrest⟩ := h
      obtain ⟨chunks, rfl, hcontent, hchunks, hshort⟩ := ih hrest
      refine ⟨t :: chunks, rfl, ?_, ?_, ?_⟩
      · rw [List.flatten_cons, ← hcontent]
        rfl
      · exact List.forall_mem_cons.mpr ⟨hchunk, hchunks⟩
      · cases chunks with
        | nil => exact fun u hu => absurd hu List.not_mem_nil
        | cons u chunks =>
          rw [List.dropLast_cons_cons]
          refine List.forall_mem_cons.mpr ⟨?_, hshort⟩
          rw [hchunk.not_stopsShort_iff]
          exact hcut.resolve_left (List.cons_ne_nil _ _)

/-- **The lines that are delivered** are those of the waiting text and the file together. -/
theorem nextLines_eq_linesOf {n : ℕ} {pile : List TFd} {fd : ℤ} {reads : Reads}
    (hreads : WholeReads reads) (hn : (linesOf (leftover pile fd ++ content reads)).length < n) :
    nextLines n pile fd reads = linesOf (leftover pile fd ++ content reads) := by
  obtain ⟨chunks, rfl, hcontent, hchunks, hshort⟩ := hreads.chunks
  rw [hcontent] at hn ⊢
  rw [nextLines_delivered n pile fd hchunks, linesOf_delivered hchunks hshort]
  exact List.take_of_length_le (Nat.le_of_lt hn)

/-! ## 2. One lookup -/

/-- What `get_lib` does with a list of lines: the cache, the text, the lines it looks at, and
the line that names the address, with the symbol. -/
structure Scan where
  listLib : List (Text × SymTab)
  out : Text
  lines : List Text
  found : Option (Text × TSymbol)

def scanLines (load : Loader) (addr baseElf : Word) : List (Text × SymTab) → List Text → Scan
  | listLib, [] => ⟨listLib, [], [], none⟩
  | listLib, str :: strs =>
    let l := getLibLine load addr baseElf listLib str
    match l.found with
    | some sym => ⟨l.listLib, l.out, [str], some (str, sym)⟩
    | none =>
      let r := scanLines load addr baseElf l.listLib strs
      ⟨r.listLib, l.out ++ r.out, str :: r.lines, r.found⟩

/-- **The loop of `get_lib` is a scan of the lines that are delivered.** -/
theorem getLibLoop_eq_scanLines (load : Loader) (addr baseElf : Word) (n : ℕ) (fd : ℤ)
    (s : LibState) (reads : Reads) :
    let r := getLibLoop load addr baseElf n fd s reads
    scanLines load addr baseElf s.listLib (nextLines n s.pile fd reads)
      = ⟨r.state.listLib, r.out, r.lines, r.found⟩ := by
  induction n generalizing s reads with
  | zero => rfl
  | succ n ih =>
    rcases hg : getNextLine s.pile fd reads with ⟨line, pile', rest⟩
    cases line with
    | none => simp only [nextLines, getLibLoop, hg, scanLines]
    | some l =>
      simp only [nextLines, getLibLoop, hg, scanLines]
      cases hf : (getLibLine load addr baseElf s.listLib l).found with
      | some sym => rfl
      | none =>
        have hih := ih ⟨pile', (getLibLine load addr baseElf s.listLib l).listLib⟩ rest
        simp only at hih ⊢
        rw [hih]

/-- The bound that `getLib` takes is above the number of lines. -/
theorem length_lines_lt_lineFuel (pile : List TFd) (fd : ℤ) (reads : Reads) :
    (linesOf (leftover pile fd ++ content reads)).length < lineFuel pile fd reads := by
  have hlen := length_linesOf_le (leftover pile fd ++ content reads)
  have hcontent : (content reads).length ≤ (reads.map fun r => (r.getD []).length + 2).sum := by
    induction reads with
    | nil => exact Nat.le_refl _
    | cons r reads ih =>
      have hcons : content (r :: reads) = r.getD [] ++ content reads := rfl
      have hih := ih (length_linesOf_le _)
      rw [hcons, List.length_append, List.map_cons, List.sum_cons]
      omega
  rw [List.length_append] at hlen
  unfold lineFuel
  omega

/-- A call of `get_lib_file`. -/
structure Lookup where
  load : Loader
  addr : Word
  baseElf : Word
  maps : Option MapsFile

/-- What the call leaves. -/
def Lookup.run (c : Lookup) (s : LibState) : LibOut := getLibFile c.load c.addr c.baseElf c.maps s

/-- The lines of the file that the call opens. -/
def Lookup.fileLines (c : Lookup) : List Text :=
  match c.maps with
  | none => []
  | some f => linesOf (content f.reads)

/-- The lines that the call is given are those of the file it opens, up to the first that names
the address. -/
def Delivers (s : LibState) (c : Lookup) : Prop :=
  (c.run s).lines = (scanLines c.load c.addr c.baseElf s.listLib c.fileLines).lines

/-- No text waits under the number of the descriptor, and the reads cut no line. -/
def CleanLookup (s : LibState) (c : Lookup) : Prop :=
  ∀ f ∈ c.maps, leftover s.pile f.fd = [] ∧ WholeReads f.reads

/-- **A lookup that starts with no text waiting is given the lines of its file.** -/
theorem delivers_of_clean {s : LibState} {c : Lookup} (h : CleanLookup s c) : Delivers s c := by
  rw [Delivers, Lookup.run, Lookup.fileLines]
  cases hm : c.maps with
  | none => rfl
  | some f =>
    obtain ⟨hleft, hreads⟩ := h f hm
    have hscan := getLibLoop_eq_scanLines c.load c.addr c.baseElf
      (lineFuel s.pile f.fd f.reads) f.fd s f.reads
    rw [nextLines_eq_linesOf hreads (length_lines_lt_lineFuel s.pile f.fd f.reads), hleft,
      List.nil_append] at hscan
    exact (congrArg Scan.lines hscan).symm

/-- **Only then is it given the lines of every file it may open**: an empty file shows what
waits. -/
theorem delivers_always_iff (s : LibState) (fd : ℤ) :
    (∀ load addr baseElf reads, WholeReads reads →
      Delivers s ⟨load, addr, baseElf, some ⟨fd, reads⟩⟩) ↔ leftover s.pile fd = [] := by
  constructor
  · intro h
    have hempty := h (fun _ => .failed) 0 0 [] trivial
    by_contra hleft
    have hwhole : WholeReads [] := trivial
    have hscan := getLibLoop_eq_scanLines (fun _ => .failed) 0 0 (lineFuel s.pile fd []) fd s []
    rw [nextLines_eq_linesOf hwhole (length_lines_lt_lineFuel s.pile fd [])] at hscan
    obtain ⟨l, ls, hls⟩ := List.exists_cons_of_ne_nil
      (linesOf_ne_nil (t := leftover s.pile fd ++ content []) (by simpa [content] using hleft))
    have hlines : (scanLines (fun _ => .failed) 0 0 s.listLib (l :: ls)).lines ≠ [] := by
      simp only [scanLines]
      split <;> exact List.cons_ne_nil _ _
    rw [hls] at hscan
    rw [hscan] at hlines
    exact hlines hempty
  · intro hleft load addr baseElf reads hreads
    refine delivers_of_clean ?_
    intro f hf
    obtain rfl := Option.some.inj hf
    exact ⟨hleft, hreads⟩

/-! ## 3. A history of lookups -/

/-- A property of every call of a history, each with the statics that the calls before it have
left. -/
def Throughout (P : LibState → Lookup → Prop) : LibState → List Lookup → Prop
  | _, [] => True
  | s, c :: cs => P s c ∧ Throughout P (c.run s).state cs

theorem Throughout.imp {P Q : LibState → Lookup → Prop} (h : ∀ s c, P s c → Q s c) {s : LibState}
    {cs : List Lookup} (hP : Throughout P s cs) : Throughout Q s cs := by
  induction cs generalizing s with
  | nil => trivial
  | cons c cs ih => exact ⟨h s c hP.1, ih hP.2⟩

/-- **Every lookup of a history is given the lines of the file it opens**, as long as no text
waits under the number of its descriptor when it opens it, and its reads cut no line. -/
theorem delivers_of_cleanLookups (cs : List Lookup) (h : Throughout CleanLookup {} cs) :
    Throughout Delivers {} cs :=
  h.imp fun _ _ => delivers_of_clean

/-- A lookup through a file of one read, with no library to load. -/
def oneRead (fd : ℤ) (t : Text) : Lookup where
  load := fun _ => .failed
  addr := 0x1000
  baseElf := 0
  maps := some ⟨fd, [some t]⟩

/-- Two files under two numbers. -/
theorem delivers_of_cleanLookups_fresh :
    Throughout Delivers {} [oneRead 3 "a\n".toList, oneRead 4 "b\n".toList] := by
  refine delivers_of_cleanLookups _ ⟨?_, ?_, trivial⟩
  · intro f hf
    obtain rfl := Option.some.inj hf
    exact ⟨by decide, ⟨by decide, by decide, by decide⟩, .inl rfl, trivial⟩
  · intro f hf
    obtain rfl := Option.some.inj hf
    exact ⟨by decide, ⟨by decide, by decide, by decide⟩, .inl rfl, trivial⟩

/-- **The second file under the same number starts with an empty line.** -/
theorem stale_newline :
    ((oneRead 3 "b\n".toList).run ((oneRead 3 "a\n".toList).run {}).state).lines = [[], ['b']] ∧
      (oneRead 3 "b\n".toList).fileLines = [['b']] ∧
      ¬ Throughout Delivers {} [oneRead 3 "a\n".toList, oneRead 3 "b\n".toList] := by
  refine ⟨by decide, by decide, ?_⟩
  rintro ⟨-, h, -⟩
  revert h
  unfold Delivers
  decide

end Ftrace
