/-
# The names printed for a library

`get_lib` looks an address up in the table of a library that is mapped around it, at the offset
of the address from the START OF THE LINE.  The values of the table are offsets from the ELF
header, so that is right only for a line that maps the file from its first byte; a line for a
later segment of the same library names whatever symbol has that offset (`segment_misnamed`).
The table holds 32 bits of each value, as that of the executable does.

`libSound_iff` says when the name printed is that of a symbol at the address, for every set of
libraries, every memory, every maps file and every history of lookups before: the line that
names the address maps the library's header, the symbol's value fits the table, and a failed
walk for a header has not been taken for a header at 0.

The cache of tables plays no part in it: over any history it holds what would be loaded again
(`cacheOk_stateAfter`).
-/
import Ftrace.LibCache
import Ftrace.MapsLines
import Ftrace.SymbolNames
import Mathlib.Tactic.LinearCombination

namespace Ftrace

open CText Bytes Lines

/-! ## 1. The libraries -/

/-- A table as `get_symbols_lib` returns it, with the entries it was filled from, in the order
that the sort has left them in. -/
structure LibTable where
  table : SymTab
  entries : List Entry
  holds : table.Holds entries

/-- Every table that `print_sym` returns is one of these. -/
theorem exists_libTable {gt : Text → Text → Bool} {sym : TSym} {es : List Entry} {t : SymTab}
    (htype : ∀ e ∈ es, e.type ≠ 0) (h : printSym gt sym es = some t) :
    ∃ l : LibTable, l.table = t ∧ l.entries.Perm es := by
  obtain ⟨t', es', ht', hp, hholds⟩ := printSym_spec gt htype (wellEnded_of_printSym htype h)
  obtain rfl := Option.some.inj (h.symm.trans ht')
  exact ⟨⟨t, es', hholds⟩, rfl, hp⟩

/-- What loading a library comes to. -/
inductive LibFile where
  | symbols (l : LibTable)
  | noSymbols
  | failed

def LibFile.loaded : LibFile → Loaded
  | .symbols l => .table l.table
  | .noSymbols => .noSymbols
  | .failed => .failed

/-- The libraries, by path. -/
abbrev Libs := Text → LibFile

def Libs.loader (libs : Libs) : Loader := fun lib => (libs lib).loaded

/-- The entry that `resolve_symbol_lib` stops at. -/
def LibFile.entryAt (f : LibFile) (off : Word) : Option Entry :=
  match f with
  | .symbols l =>
    if off = 0 then none
    else (l.entries.takeWhile fun e => e.name.isSome).find? fun e => e.symbol.hasAddr off
  | _ => none

/-- **The lookup in a table** prints the first entry that is taken to be at the offset. -/
theorem resolveSymbolLib_loaded (f : LibFile) (off : Word) :
    resolveSymbolLib off f.loaded.table? = (f.entryAt off).map Entry.symbol := by
  cases f with
  | symbols l =>
    simp only [LibFile.loaded, Loaded.table?, resolveSymbolLib, LibFile.entryAt]
    split
    · rfl
    · rw [l.holds.named, List.find?_map]
      rfl
  | noSymbols => rfl
  | failed => rfl

/-- The lower half of its value is the offset. -/
theorem entryAt_low {f : LibFile} {off : Word} {e : Entry} (h : f.entryAt off = some e) :
    off.toNat = e.stValue.toNat % 2 ^ 32 := by
  cases f with
  | symbols l =>
    simp only [LibFile.entryAt] at h
    split at h
    · cases h
    · have hhas := List.find?_some h
      exact ((hasAddr_iff e off).mp hhas).symm
  | noSymbols => cases h
  | failed => cases h

/-! ## 2. The cache -/

/-- Each cached table is what loading its path comes to. -/
def CacheOk (libs : Libs) (cache : List (Text × SymTab)) : Prop :=
  ∀ p ∈ cache, (libs p.1).loaded.table? = some p.2

theorem cacheOk_nil (libs : Libs) : CacheOk libs [] := fun _ h => absurd h List.not_mem_nil

/-- **The table for a path** is what loading it comes to, cached or not. -/
theorem libTable_spec {libs : Libs} {cache : List (Text × SymTab)} (hc : CacheOk libs cache)
    (lib : Text) :
    (libTable libs.loader cache lib).1 = (libs lib).loaded.table? ∧
      CacheOk libs (libTable libs.loader cache lib).2.1 := by
  have hcached : Cached libs.loader cache := hc
  exact ⟨(libTable_eq_load hcached lib).1, hcached.libTable lib⟩

/-! ## 3. What a line contributes -/

/-- A line that names the address: its library, and the entry whose name is printed. -/
structure Contribution where
  line : Text
  lib : Text
  entry : Entry

/-- The contribution of a line: it is selected, and the table of its library has an entry that
is taken to be at the offset of the address from the start of the line. -/
def contribution (libs : Libs) (addr baseElf : Word) (line : Text) : Option Contribution :=
  match mapsSelected addr baseElf line, mapsLib line with
  | true, some lib => ((libs lib).entryAt (addr - mapsBegin line)).map fun e => ⟨line, lib, e⟩
  | _, _ => none

/-- What is printed of it. -/
def Contribution.printed (c : Contribution) : Text × TSymbol := (c.line, c.entry.symbol)

theorem contribution_eq_some {libs : Libs} {addr baseElf : Word} {line : Text} {c : Contribution}
    (h : contribution libs addr baseElf line = some c) :
    c.line = line ∧ mapsSelected addr baseElf line = true ∧ mapsLib line = some c.lib ∧
      (libs c.lib).entryAt (addr - mapsBegin line) = some c.entry := by
  rw [contribution] at h
  split at h
  · rename_i lib hsel hlib
    obtain ⟨e, he, rfl⟩ := Option.map_eq_some_iff.mp h
    exact ⟨rfl, hsel, hlib, he⟩
  · cases h

/-- **One line of `get_lib`** prints its contribution, and keeps the cache true. -/
theorem getLibLine_spec {libs : Libs} {cache : List (Text × SymTab)} (hc : CacheOk libs cache)
    (addr baseElf : Word) (line : Text) :
    (getLibLine libs.loader addr baseElf cache line).found
        = (contribution libs addr baseElf line).map (fun c => c.entry.symbol) ∧
      CacheOk libs (getLibLine libs.loader addr baseElf cache line).listLib := by
  rw [getLibLine, contribution]
  cases hsel : mapsSelected addr baseElf line with
  | false => exact ⟨rfl, hc⟩
  | true =>
    cases hlib : mapsLib line with
    | none => exact ⟨rfl, hc⟩
    | some lib =>
      obtain ⟨htab, hc'⟩ := libTable_spec hc lib
      rcases ht : libTable libs.loader cache lib with ⟨sym, cache', out⟩
      rw [ht] at htab hc'
      simp only at htab hc'
      simp only [htab, resolveSymbolLib_loaded, ht]
      cases (libs lib).entryAt (addr - mapsBegin line) with
      | none => exact ⟨rfl, hc'⟩
      | some e => exact ⟨rfl, hc'⟩

/-- **The scan prints the first contribution** of the lines it is given. -/
theorem scanLines_spec {libs : Libs} (addr baseElf : Word) {cache : List (Text × SymTab)}
    (hc : CacheOk libs cache) (lines : List Text) :
    (scanLines libs.loader addr baseElf cache lines).found
        = (lines.findSome? (contribution libs addr baseElf)).map Contribution.printed ∧
      CacheOk libs (scanLines libs.loader addr baseElf cache lines).listLib := by
  induction lines generalizing cache with
  | nil => exact ⟨rfl, hc⟩
  | cons line lines ih =>
    obtain ⟨hfound, hc'⟩ := getLibLine_spec hc addr baseElf line
    rw [scanLines, List.findSome?_cons]
    cases hcon : contribution libs addr baseElf line with
    | none =>
      rw [hcon] at hfound
      simp only [hfound, Option.map_none]
      exact ih hc'
    | some c =>
      rw [hcon] at hfound
      obtain ⟨hline, -⟩ := contribution_eq_some hcon
      simp only [hfound, Option.map_some, Contribution.printed, hline, true_and]
      exact hc'

/-! ## 4. A history of lookups -/

/-- A lookup: the address, the memory that is searched for a header, the maps file. -/
structure Query where
  addr : Word
  mem : Mem
  maps : Option MapsFile

/-- The call of `get_lib_file` in `resolve_symbol`. -/
def Query.run (q : Query) (libs : Libs) (s : LibState) : LibOut :=
  getLibFile libs.loader q.addr (findHeader q.mem q.addr) q.maps s

/-- The lines that `get_next_line` has for the call. -/
def Query.lines (q : Query) (s : LibState) : List Text :=
  match q.maps with
  | none => []
  | some f => nextLines (lineFuel s.pile f.fd f.reads) s.pile f.fd f.reads

/-- The statics after a history of lookups. -/
def stateAfter (libs : Libs) : LibState → List Query → LibState
  | s, [] => s
  | s, q :: qs => stateAfter libs (q.run libs s).state qs

/-- **One lookup**, over the lines it is given. -/
theorem run_spec (q : Query) {libs : Libs} {s : LibState} (hc : CacheOk libs s.listLib) :
    (q.run libs s).found = ((q.lines s).findSome?
        (contribution libs q.addr (findHeader q.mem q.addr))).map Contribution.printed ∧
      CacheOk libs (q.run libs s).state.listLib := by
  rw [Query.run, Query.lines]
  cases q.maps with
  | none => exact ⟨rfl, hc⟩
  | some f =>
    have hscan := getLibLoop_eq_scanLines libs.loader q.addr (findHeader q.mem q.addr)
      (lineFuel s.pile f.fd f.reads) f.fd s f.reads
    have hspec := scanLines_spec q.addr (findHeader q.mem q.addr) hc
      (nextLines (lineFuel s.pile f.fd f.reads) s.pile f.fd f.reads)
    rw [hscan] at hspec
    exact hspec

/-- **The cache stays true** over every history. -/
theorem cacheOk_stateAfter (libs : Libs) (qs : List Query) {s : LibState}
    (hc : CacheOk libs s.listLib) : CacheOk libs (stateAfter libs s qs).listLib := by
  induction qs generalizing s with
  | nil => exact hc
  | cons q qs ih => exact ih (run_spec q hc).2

/-! ## 5. Where the name belongs -/

/-- What stands behind the next run of blanks. -/
def nextField (str : Text) : Text := (str.dropWhile fun c => c != ' ').dropWhile fun c => c == ' '

/-- The third field of a line, which `get_lib` does not read: where in its file the mapping
starts. -/
def mapsOffset (str : Text) : Word := BitVec.ofInt 64 (strtol16 (nextField (nextField str)))

/-- The library's ELF header, which is the first thing in its file, is mapped at `h`. -/
def HeaderAt (lines : List Text) (lib : Text) (h : Word) : Prop :=
  ∃ line ∈ lines, mapsLib line = some lib ∧ mapsOffset line = 0 ∧ mapsBegin line = h

/-- The line's range holds the address, or it starts at a header that the walk down from the
address has found. -/
def AtOrAround (q : Query) (line : Text) : Prop :=
  (mapsBegin line ≤ q.addr ∧ q.addr < mapsEnd line) ∨
    (mapsBegin line = findHeader q.mem q.addr ∧ findHeader q.mem q.addr ≠ 0)

/-- The printed name is that of an entry at the address: a line at or around the address names
its library, starts at the library's header, and the whole value of the entry leads from a
header of the library to the address. -/
def LibSound (libs : Libs) (q : Query) (lines : List Text) (found : Option (Text × TSymbol)) : Prop :=
  ∀ line sym, found = some (line, sym) → ∃ lib e, line ∈ lines ∧ mapsLib line = some lib ∧
    (libs lib).entryAt (q.addr - mapsBegin line) = some e ∧ e.symbol = sym ∧ AtOrAround q line ∧
      mapsOffset line = 0 ∧ ∃ h, HeaderAt lines lib h ∧ e.stValue + h = q.addr

/-- What the table has lost of the value. -/
def Entry.high (e : Entry) : Word := BitVec.ofNat 64 (e.stValue.toNat / 2 ^ 32 * 2 ^ 32)

/-- The first line that names the address starts at its library's header, with an entry whose
value the table holds whole (or else another header of the library lies below this one by
exactly what is lost), and it is not a failed walk that selected it. -/
def FirstLineFits (libs : Libs) (q : Query) (lines : List Text) : Prop :=
  ∀ c, lines.findSome? (contribution libs q.addr (findHeader q.mem q.addr)) = some c →
    mapsOffset c.line = 0 ∧
      (c.entry.Big → ∃ h, HeaderAt lines c.lib h ∧ h + c.entry.high = mapsBegin c.line) ∧
        (findHeader q.mem q.addr = 0 → q.addr < mapsEnd c.line)

/-- The whole value leads from a header to the address if and only if what is lost leads from
it to the start of the line. -/
theorem value_add_iff {e : Entry} {addr start : Word} (h : Word)
    (hlow : (addr - start).toNat = e.stValue.toNat % 2 ^ 32) :
    e.stValue + h = addr ↔ h + e.high = start := by
  have hvalue : e.stValue = e.high + (addr - start) := by
    rw [← BitVec.toNat_inj, BitVec.toNat_add, hlow, Entry.high, BitVec.toNat_ofNat]
    omega
  constructor
  · intro heq
    rw [hvalue] at heq
    linear_combination heq
  · intro heq
    rw [hvalue]
    linear_combination heq

theorem high_eq_zero {e : Entry} (h : ¬ e.Big) : e.high = 0 := by
  have hdiv : e.stValue.toNat / 2 ^ 32 = 0 := Nat.div_eq_of_lt (Nat.lt_of_not_le h)
  rw [Entry.high, hdiv, Nat.zero_mul]
  rfl

/-- A selected line is at or around the address unless a failed walk has selected it. -/
theorem atOrAround_iff {q : Query} {line : Text}
    (hsel : mapsSelected q.addr (findHeader q.mem q.addr) line = true) :
    AtOrAround q line ↔ (findHeader q.mem q.addr = 0 → q.addr < mapsEnd line) := by
  simp only [mapsSelected, Bool.or_eq_true, Bool.and_eq_true, decide_eq_true_eq] at hsel
  constructor
  · rintro (⟨-, hlt⟩ | ⟨-, hne⟩) hzero
    · exact hlt
    · exact absurd hzero hne
  · intro h
    rcases hsel with ⟨hlt, hend⟩ | hstart
    · exact .inl ⟨BitVec.le_of_lt hlt, hend⟩
    · by_cases hzero : findHeader q.mem q.addr = 0
      · refine .inl ⟨?_, h hzero⟩
        rw [hstart, hzero]
        exact Nat.zero_le _
      · exact .inr ⟨hstart, hzero⟩

/-- **The name printed for a library is right if and only if** the first line that names the
address fits. -/
theorem libSound_iff (libs : Libs) (before : List Query) (q : Query) :
    LibSound libs q (q.lines (stateAfter libs {} before))
        (q.run libs (stateAfter libs {} before)).found ↔
      FirstLineFits libs q (q.lines (stateAfter libs {} before)) := by
  obtain ⟨hfound, -⟩ := run_spec q (cacheOk_stateAfter libs before (s := {}) (cacheOk_nil libs))
  rw [LibSound, hfound]
  generalize q.lines (stateAfter libs {} before) = lines
  constructor
  · intro hsound c hc
    obtain ⟨line, hmem, hcon⟩ := List.exists_of_findSome?_eq_some hc
    obtain ⟨rfl, hsel, hlib, hat⟩ := contribution_eq_some hcon
    obtain ⟨lib, e, -, hlib', hat', -, haround, hoff, h, hheader, hvalue⟩ :=
      hsound c.line c.entry.symbol (by rw [hc]; rfl)
    obtain rfl := Option.some.inj (hlib.symm.trans hlib')
    obtain rfl := Option.some.inj (hat.symm.trans hat')
    refine ⟨hoff, fun _ => ⟨h, hheader, ?_⟩, (atOrAround_iff hsel).mp haround⟩
    exact (value_add_iff h (entryAt_low hat)).mp hvalue
  · intro hfits line sym hprinted
    obtain ⟨c, hc, heq⟩ := Option.map_eq_some_iff.mp hprinted
    obtain ⟨rfl, rfl⟩ := Prod.mk.inj heq
    obtain ⟨line, hmem, hcon⟩ := List.exists_of_findSome?_eq_some hc
    obtain ⟨rfl, hsel, hlib, hat⟩ := contribution_eq_some hcon
    obtain ⟨hoff, hbig, hwalk⟩ := hfits c hc
    refine ⟨c.lib, c.entry, hmem, hlib, hat, rfl, (atOrAround_iff hsel).mpr hwalk, hoff, ?_⟩
    by_cases hb : c.entry.Big
    · obtain ⟨h, hheader, hstart⟩ := hbig hb
      exact ⟨h, hheader, (value_add_iff h (entryAt_low hat)).mpr hstart⟩
    · refine ⟨mapsBegin c.line, ⟨c.line, hmem, hlib, hoff, rfl⟩, ?_⟩
      rw [value_add_iff _ (entryAt_low hat), high_eq_zero hb, add_zero]

theorem findHeader_empty (addr : Word) : findHeader Mem.empty addr = 0 := by
  have hpeek : Mem.empty.peek addr = -1 := Mem.peek_of_byte_none rfl
  have hfuel : 2 ^ 64 = 2 ^ 64 - 1 + 1 := rfl
  rw [findHeader, hfuel, findHeaderLoop, hpeek]
  exact if_pos rfl

/-- One library, with a function `f` at 0x10 from its header. -/
def segmentLibs : Libs := fun lib =>
  if lib = "/lib/a".toList then
    .symbols ⟨⟨[⟨0x10, charByte 'T', some ['f']⟩, ⟨0, 0, none⟩], rfl⟩,
      [⟨0x10, charByte 'T', some ['f']⟩], ⟨⟨0, 0, none⟩, [], rfl, rfl⟩⟩
  else .failed

/-- It is mapped in two segments, and a call goes 0x10 into the second. -/
def segmentQuery : Query where
  addr := 0x2010
  mem := Mem.empty
  maps := some ⟨3,
    [some "1000-2000 r--p 00000000 00:00 1 /lib/a\n".toList,
      some "2000-3000 r-xp 00001000 00:00 1 /lib/a\n".toList]⟩

/-- **The call is named `f`**, which is at 0x1010. -/
theorem segment_misnamed :
    (segmentQuery.run segmentLibs {}).out = " f (/lib/a)".toList ∧
      ¬ LibSound segmentLibs segmentQuery (segmentQuery.lines {})
        (segmentQuery.run segmentLibs {}).found := by
  have hrun : segmentQuery.run segmentLibs {}
      = getLibFile segmentLibs.loader 0x2010 0 segmentQuery.maps {} := by
    unfold Query.run
    exact congrArg (fun b => getLibFile segmentLibs.loader 0x2010 b segmentQuery.maps {})
      (findHeader_empty 0x2010)
  rw [hrun]
  refine ⟨by decide +kernel, fun hsound => ?_⟩
  have hfound : (getLibFile segmentLibs.loader 0x2010 0 segmentQuery.maps {}).found
      = some ("2000-3000 r-xp 00001000 00:00 1 /lib/a".toList, ⟨0x10, charByte 'T', some ['f']⟩) := by
    decide +kernel
  obtain ⟨_, _, _, _, _, _, _, hoff, _⟩ := hsound _ _ hfound
  exact absurd hoff (by decide +kernel)

end Ftrace
