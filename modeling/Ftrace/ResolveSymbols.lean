/-
# Naming an address

`resolve_symbols.c` and `list_lib_symbols.c`.  `resolve_symbol` prints the name of a call
target from the symbol table of the executable, or else looks for a library: `find_header`
walks down through the tracee's memory to an ELF header, and `get_lib` reads the lines of
`/proc/<pid>/maps`, loads the table of a library whose line fits and looks the offset up.

A symbol table is an array that some all-zero entry ends (`SymTab`); a name is the text that
can be read at its pointer, and `%s` prints it up to its NUL.  Loading the table of a library
is a parameter: each path has its answer (`Loaded`).
-/
import Ftrace.NextLine
import Ftrace.Tracee

namespace Ftrace

open CText Bytes

/-! ## 1. Symbol tables -/

/-- `t_symbol`. -/
structure TSymbol where
  value : BitVec 32
  type : BitVec 8
  name : Option Text
  deriving DecidableEq, Repr

/-- The entry that ends a table. -/
def TSymbol.isEnd (s : TSymbol) : Bool := s.value = 0 && s.type = 0 && s.name.isNone

/-- What `%s` prints for a name; a null pointer prints as `(null)`. -/
def TSymbol.text (s : TSymbol) : Text :=
  match s.name with
  | some t => cstr t
  | none => "(null)".toList

/-- An array of symbols that is ended by an all-zero entry. -/
structure SymTab where
  cells : List TSymbol
  ended : cells.any TSymbol.isEnd = true
  deriving DecidableEq, Repr

/-- The entries before the end marker, which `resolve_symbol` scans. -/
def SymTab.entries (t : SymTab) : List TSymbol := t.cells.takeWhile fun s => !s.isEnd

/-- The entries before the first null name, which `resolve_symbol_lib` scans. -/
def SymTab.named (t : SymTab) : List TSymbol := t.cells.takeWhile fun s => s.name.isSome

/-- `symbols[i].value == addr`: an `unsigned int` against a `size_t`. -/
def TSymbol.hasAddr (s : TSymbol) (addr : Word) : Bool := s.value.setWidth 64 = addr

/-! ## 2. The header of a mapped library -/

/-- `strncmp (MAGIC_NUMBER, ptr, 4)` on the bytes of a peeked word. -/
def isMagic (read : Word) : Bool :=
  byteOf read 0 = 0x7F#8 && byteOf read 1 = 0x45#8 && byteOf read 2 = 0x4C#8 &&
    byteOf read 3 = 0x46#8

/-- The loop of `find_header`, cut off after `n` rounds. -/
def findHeaderLoop (mem : Mem) : ℕ → Word → Word
  | 0, _ => 0
  | n + 1, addr =>
    let read := mem.peek addr
    if read = -1 then 0
    else if isMagic read then addr
    else findHeaderLoop mem n (addr - 1)

/-- `find_header`.  A walk down from `addr` reaches the gap in the address space within 2^64
rounds, so the bound is never what ends it. -/
def findHeader (mem : Mem) (addr : Word) : Word := findHeaderLoop mem (2 ^ 64) addr

/-! ## 3. One line of the maps file -/

/-- What `get_symbols_lib` can do: return a table, or fail, and `run_elf` has one failure that
it reports on standard output. -/
inductive Loaded where
  | table (t : SymTab)
  | noSymbols
  | failed

def Loaded.table? : Loaded → Option SymTab
  | .table t => some t
  | _ => none

/-- The text on standard output. -/
def Loaded.printed : Loaded → Text
  | .noSymbols => "No symbols\n".toList
  | _ => []

/-- `get_symbols_lib`, by path. -/
abbrev Loader := Text → Loaded

/-- `begin`: the number a line starts with. -/
def mapsBegin (str : Text) : Word := BitVec.ofInt 64 (strtol16 str)

/-- `end`: the number after the first `-`. -/
def mapsEnd (str : Text) : Word :=
  match strchr str '-' with
  | some (_ :: u) => BitVec.ofInt 64 (strtol16 u)
  | _ => 0

/-- `lib`: the path, from the first slash on. -/
def mapsLib (str : Text) : Option Text := strchr str '/'

/-- The lines `get_lib` looks into: their range holds the address, or they start at the header
that was found. -/
def mapsSelected (addr baseElf : Word) (str : Text) : Bool :=
  (mapsBegin str < addr && addr < mapsEnd str) || mapsBegin str = baseElf

/-- `resolve_symbol_lib`: the symbol it prints. -/
def resolveSymbolLib (addr : Word) (symbols : Option SymTab) : Option TSymbol :=
  match symbols with
  | none => none
  | some t => if addr = 0 then none else t.named.find? fun s => s.hasAddr addr

/-- `get_symbols_by_lib`. -/
def getSymbolsByLib (list : List (Text × SymTab)) (libname : Text) : Option SymTab :=
  (list.find? fun e => e.1 = libname).map Prod.snd

/-- The table `get_lib` uses for a path, with the cache after it and what loading printed. -/
def libTable (load : Loader) (listLib : List (Text × SymTab)) (lib : Text) :
    Option SymTab × List (Text × SymTab) × Text :=
  match getSymbolsByLib listLib lib with
  | some t => (some t, listLib, [])
  | none =>
    match (load lib).table? with
    | some t => (some t, (lib, t) :: listLib, (load lib).printed)
    | none => (none, listLib, (load lib).printed)

/-- What one line does in `get_lib`: the cache, the text, and the symbol that was printed. -/
structure LineOut where
  listLib : List (Text × SymTab)
  out : Text
  found : Option TSymbol

/-- The body of the loop of `get_lib`. -/
def getLibLine (load : Loader) (addr baseElf : Word) (listLib : List (Text × SymTab))
    (str : Text) : LineOut :=
  match mapsSelected addr baseElf str, mapsLib str with
  | true, some lib =>
    match libTable load listLib lib with
    | (sym, cache, out) =>
      match resolveSymbolLib (addr - mapsBegin str) sym with
      | some s => ⟨cache, out ++ " ".toList ++ s.text ++ " (".toList ++ lib ++ ")".toList, some s⟩
      | none => ⟨cache, out, none⟩
  | _, _ => ⟨listLib, [], none⟩

/-! ## 4. The maps file -/

/-- The statics of `get_next_line` and `get_lib`. -/
structure LibState where
  pile : List TFd := []
  listLib : List (Text × SymTab) := []

/-- An open maps file: its descriptor, and what reading it will return. -/
structure MapsFile where
  fd : ℤ
  reads : Reads

/-- What `get_lib` leaves: the statics, the text printed, the lines it was given by
`get_next_line`, and the line that named the address, with the symbol printed for it. -/
structure LibOut where
  state : LibState
  out : Text
  lines : List Text
  found : Option (Text × TSymbol)

/-- The loop of `get_lib`, for at most `n` lines. -/
def getLibLoop (load : Loader) (addr baseElf : Word) : ℕ → ℤ → LibState → Reads → LibOut
  | 0, _, s, _ => ⟨s, [], [], none⟩
  | n + 1, fd, s, reads =>
    match getNextLine s.pile fd reads with
    | (none, pile, _) => ⟨{ s with pile := pile }, [], [], none⟩
    | (some str, pile, rest) =>
      let l := getLibLine load addr baseElf s.listLib str
      match l.found with
      | some sym => ⟨⟨pile, l.listLib⟩, l.out, [str], some (str, sym)⟩
      | none =>
        let r := getLibLoop load addr baseElf n fd ⟨pile, l.listLib⟩ rest
        ⟨r.state, l.out ++ r.out, str :: r.lines, r.found⟩

/-- `get_lib`. -/
def getLib (load : Loader) (addr baseElf : Word) (f : MapsFile) (s : LibState) : LibOut :=
  getLibLoop load addr baseElf (lineFuel s.pile f.fd f.reads) f.fd s f.reads

/-- `get_lib_file`: `maps` is the answer to opening `/proc/<pid>/maps`.  Closing the file
leaves the statics as they are. -/
def getLibFile (load : Loader) (addr baseElf : Word) (maps : Option MapsFile) (s : LibState) :
    LibOut :=
  match maps with
  | none => ⟨s, [], [], none⟩
  | some f => getLib load addr baseElf f s

/-! ## 5. `resolve_symbol` -/

/-- What `resolve_symbol` leaves: the statics, the text, and whether it went to the maps. -/
structure ResolveOut where
  state : LibState
  out : Text
  consulted : Bool

/-- `" ..... %s\n"`. -/
def symbolLine (s : TSymbol) : Text := " ..... ".toList ++ s.text ++ "\n".toList

/-- The entries of the executable's table at an address. -/
def SymTab.at (t : SymTab) (addr : Word) : List TSymbol := t.entries.filter fun s => s.hasAddr addr

/-- `resolve_symbol (addr, symbols, is_a_call)`. -/
def resolveSymbol (load : Loader) (mem : Mem) (maps : Option MapsFile) (addr : Word)
    (symbols : Option SymTab) (isACall : ℕ) (s : LibState) : ResolveOut :=
  match symbols with
  | none => ⟨s, [], false⟩
  | some t =>
    if addr = 0 ∨ isACall = 0 then ⟨s, [], false⟩
    else if t.at addr ≠ [] then ⟨s, (t.at addr).flatMap symbolLine, false⟩
    else
      let r := getLibFile load addr (findHeader mem addr) maps s
      ⟨r.state, " .....".toList ++ r.out ++ "\n".toList, true⟩

end Ftrace
