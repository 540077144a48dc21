/-
# The symbols of a well-formed file

`ElfBounds` and `CorruptSymbols` ask what `run_elf` makes of any image.  Here it is the other way
round: an ELF file is given by what is in it (`ElfFile`: its sections, its symbols, its strings),
and an image stores it if each part stands where the headers say (`Stores`), in whatever order.

From such an image `get_sym` loads exactly the symbols that it keeps, each with its value, its
type letter and its name (`Stores.exists_entries`).  And if the values fit the table, the names
that are printed for an address are exactly those of the file's symbols there
(`executable_names`).
-/
import Ftrace.CorruptSymbols
import Ftrace.Lib.Layout

namespace Ftrace

open CText Bytes Mapped

/-! ## 1. The parts of a file -/

/-- `Elf64_Ehdr`, behind the magic number. -/
structure Elf64Ehdr where
  ident : BitVec 96
  type : BitVec 16
  machine : BitVec 16
  version : BitVec 32
  entry : BitVec 64
  phoff : BitVec 64
  shoff : BitVec 64
  flags : BitVec 32
  ehsize : BitVec 16
  phentsize : BitVec 16
  phnum : BitVec 16
  shentsize : BitVec 16
  shnum : BitVec 16
  shstrndx : BitVec 16

def Elf64Ehdr.fields (h : Elf64Ehdr) : List Field :=
  [(4, 0x464C457F), (12, h.ident.toNat), (2, h.type.toNat), (2, h.machine.toNat),
    (4, h.version.toNat), (8, h.entry.toNat), (8, h.phoff.toNat), (8, h.shoff.toNat),
    (4, h.flags.toNat), (2, h.ehsize.toNat), (2, h.phentsize.toNat), (2, h.phnum.toNat),
    (2, h.shentsize.toNat), (2, h.shnum.toNat), (2, h.shstrndx.toNat)]

/-- `Elf64_Shdr`. -/
structure Elf64Shdr where
  name : BitVec 32
  type : BitVec 32
  flags : BitVec 64
  addr : BitVec 64
  offset : BitVec 64
  size : BitVec 64
  link : BitVec 32
  info : BitVec 32
  addralign : BitVec 64
  entsize : BitVec 64

def Elf64Shdr.fields (s : Elf64Shdr) : List Field :=
  [(4, s.name.toNat), (4, s.type.toNat), (8, s.flags.toNat), (8, s.addr.toNat),
    (8, s.offset.toNat), (8, s.size.toNat), (4, s.link.toNat), (4, s.info.toNat),
    (8, s.addralign.toNat), (8, s.entsize.toNat)]

/-- `Elf64_Sym`. -/
structure Elf64Sym where
  name : BitVec 32
  info : BitVec 8
  other : BitVec 8
  shndx : BitVec 16
  value : BitVec 64
  size : BitVec 64
  deriving DecidableEq

def Elf64Sym.fields (s : Elf64Sym) : List Field :=
  [(4, s.name.toNat), (1, s.info.toNat), (1, s.other.toNat), (2, s.shndx.toNat),
    (8, s.value.toNat), (8, s.size.toNat)]

def Elf64Shdr.bytes (s : Elf64Shdr) : List (BitVec 8) := record s.fields

def Elf64Sym.bytes (s : Elf64Sym) : List (BitVec 8) := record s.fields

theorem Elf64Shdr.length_bytes (s : Elf64Shdr) : s.bytes.length = SHDR_SIZE := length_record _

theorem Elf64Sym.length_bytes (s : Elf64Sym) : s.bytes.length = SYM_SIZE := length_record _

/-- An ELF file with one symbol table. -/
structure ElfFile where
  ehdr : Elf64Ehdr
  sections : List Elf64Shdr
  symbols : List Elf64Sym
  strings : List (BitVec 8)
  /-- which section the symbol table is, and its header -/
  symtab : ℕ
  symHdr : Elf64Shdr
  /-- the header of the section that the symbol table is linked to -/
  strHdr : Elf64Shdr
  shnum_eq : ehdr.shnum.toNat = sections.length
  symHdr_eq : sections[symtab]? = some symHdr
  strHdr_eq : sections[symHdr.link.toNat]? = some strHdr
  symtab_iff : ∀ (i : ℕ) (s : Elf64Shdr), sections[i]? = some s →
    (s.type.toNat = SHT_SYMTAB ↔ i = symtab)
  size_eq : symHdr.size.toNat = SYM_SIZE * symbols.length
  names : ∀ s ∈ symbols, s.name.toNat < strings.length
  /-- The last string is ended. -/
  ended : strings.getLast? = some 0
  inSections : ∀ s ∈ symbols, InSection s.shndx.toNat → s.shndx.toNat < sections.length

/-- The image has each part of the file where the headers say. -/
structure Stores (img : Image) (f : ElfFile) : Prop where
  ehdr : img.Holds 0 (record f.ehdr.fields)
  sections : img.Holds f.ehdr.shoff.toNat (f.sections.flatMap Elf64Shdr.bytes)
  symbols : img.Holds f.symHdr.offset.toNat (f.symbols.flatMap Elf64Sym.bytes)
  strings : img.Holds f.strHdr.offset.toNat f.strings

/-! ## 2. What the file says of a symbol -/

/-- The letter for the section a symbol lies in. -/
def Elf64Shdr.letter (s : Elf64Shdr) : BitVec 8 :=
  match types.find? fun t => t.type = s.type.toNat && t.flags = s.flags.toNat with
  | some t => charByte t.ch
  | none => charByte '?'

namespace ElfFile

/-- The letter for the section with this index. -/
def letter (f : ElfFile) (shndx : ℕ) : BitVec 8 :=
  if shndx = SHN_UNDEF then charByte 'U'
  else if shndx = SHN_COMMON then charByte 'C'
  else if shndx = SHN_ABS then charByte 'A'
  else ((f.sections[shndx]?).map Elf64Shdr.letter).getD (charByte '?')

/-- The name of a symbol. -/
def nameOf (f : ElfFile) (s : Elf64Sym) : Text :=
  cstr ((f.strings.drop s.name.toNat).map byteChar)

/-- What is loaded of a symbol. -/
def entry (f : ElfFile) (s : Elf64Sym) : Entry :=
  ⟨s.value, bindType s.info.toNat (f.letter s.shndx.toNat), some (f.nameOf s)⟩

/-- The `t_symbol` that is left of it. -/
def symbol (f : ElfFile) (s : Elf64Sym) : TSymbol := (f.entry s).symbol

/-- The symbols that are kept. -/
def kept (f : ElfFile) : List Elf64Sym := f.symbols.filter fun s => isKept s.info.toNat

end ElfFile

/-- An entry with its name as `%s` prints it. -/
def Entry.cut (e : Entry) : Entry := { e with name := e.name.map cstr }

def TSymbol.cut (a : TSymbol) : TSymbol := { a with name := a.name.map cstr }

/-! ## 3. The fields that are read -/

/-- A file of three sections: the null section, a symbol table and its strings.  The table has
the null symbol and a function `f`. -/
def smallFile : ElfFile where
  ehdr := ⟨0x10102, 2, 0x3E, 1, 0, 0, 115, 0, 64, 0, 0, 64, 3, 2⟩
  sections := [⟨0, 0, 0, 0, 0, 0, 0, 0, 0, 0⟩, ⟨0, 2, 0, 0, 64, 48, 2, 0, 8, 24⟩,
    ⟨0, 3, 0, 0, 112, 3, 0, 0, 1, 0⟩]
  symbols := [⟨0, 0, 0, 0, 0, 0⟩, ⟨1, 0x12, 0, 0xFFF1, 0x10, 0⟩]
  strings := [0, 0x66, 0]
  symtab := 1
  symHdr := ⟨0, 2, 0, 0, 64, 48, 2, 0, 8, 24⟩
  strHdr := ⟨0, 3, 0, 0, 112, 3, 0, 0, 1, 0⟩
  shnum_eq := rfl
  symHdr_eq := rfl
  strHdr_eq := rfl
  symtab_iff := by
    intro i s hs
    match i, hs with
    | 0, hs => obtain rfl := Option.some.inj hs; decide
    | 1, hs => obtain rfl := Option.some.inj hs; decide
    | 2, hs => obtain rfl := Option.some.inj hs; decide
  size_eq := rfl
  names := by decide
  ended := rfl
  inSections := by
    intro s hs hin
    rcases List.mem_cons.mp hs with rfl | hs
    · exact absurd rfl hin.1
    · obtain rfl := List.mem_singleton.mp hs
      exact absurd rfl hin.2.2

/-- Its symbols and strings come before its section headers. -/
def smallImage : Image :=
  .ofFile 0x1000 (record smallFile.ehdr.fields ++ (smallFile.symbols.flatMap Elf64Sym.bytes ++
    (smallFile.strings ++ smallFile.sections.flatMap Elf64Shdr.bytes))) (by decide +kernel)

theorem smallImage_stores : Stores smallImage smallFile where
  ehdr := by decide +kernel
  sections := by decide +kernel
  symbols := by decide +kernel
  strings := by decide +kernel

namespace Stores

variable {img : Image} {f : ElfFile}

theorem header (h : Stores img f) {j n v : ℕ} (hf : f.ehdr.fields[j]? = some (n, v))
    (hv : v < 256 ^ n) : img.Has (img.base + BitVec.ofNat 64 (fieldOffset f.ehdr.fields j)) n ∧
      img.field (img.base + BitVec.ofNat 64 (fieldOffset f.ehdr.fields j)) n = v :=
  h.ehdr.read_field img.off_base hf hv

/-- A part of the file, and a pointer to its start. -/
theorem off_advance {o : ℕ} {bs : List (BitVec 8)} (h : img.Holds o bs) :
    img.off (advance img.base o) = o := by
  rw [← Nat.zero_add o] at h
  exact (h.off_add img.off_base).trans (Nat.zero_add o)

theorem shdrOf_eq (h : Stores img f) : shdrOf img = advance img.base f.ehdr.shoff.toNat := by
  have hlt : f.ehdr.shoff.toNat < 256 ^ 8 := f.ehdr.shoff.isLt
  rw [shdrOf]
  exact congrArg (advance img.base) (h.header (j := 7) rfl hlt).2

theorem shnum (h : Stores img f) : img.Has (eShnum img) 2 ∧
    img.field (eShnum img) 2 = f.sections.length := by
  have hlt : f.ehdr.shnum.toNat < 256 ^ 2 := f.ehdr.shnum.isLt
  rw [← f.shnum_eq]
  exact h.header (j := 13) rfl hlt

/-- The header of a section. -/
theorem off_shdrAt (h : Stores img f) {i : ℕ} {s : Elf64Shdr} (hs : f.sections[i]? = some s) :
    img.off (shdrAt (shdrOf img) i) = f.ehdr.shoff.toNat + SHDR_SIZE * i := by
  rw [shdrAt, h.shdrOf_eq]
  exact (h.sections.elem Elf64Shdr.length_bytes hs).off_add (off_advance h.sections)

/-- A field of the header of a section. -/
theorem section_field (h : Stores img f) {i : ℕ} {s : Elf64Shdr} (hs : f.sections[i]? = some s)
    {j n v : ℕ} (hf : s.fields[j]? = some (n, v)) (hv : v < 256 ^ n) :
    img.Has (shdrAt (shdrOf img) i + BitVec.ofNat 64 (fieldOffset s.fields j)) n ∧
      img.field (shdrAt (shdrOf img) i + BitVec.ofNat 64 (fieldOffset s.fields j)) n = v :=
  (h.sections.elem Elf64Shdr.length_bytes hs).read_field (h.off_shdrAt hs) hf hv

/-- The symbol with this index. -/
theorem off_symAt (h : Stores img f) {k : ℕ} {s : Elf64Sym} (hs : f.symbols[k]? = some s) :
    img.off (symAt (advance img.base f.symHdr.offset.toNat) k)
      = f.symHdr.offset.toNat + SYM_SIZE * k :=
  (h.symbols.elem Elf64Sym.length_bytes hs).off_add (off_advance h.symbols)

/-- A field of a symbol. -/
theorem symbol_field (h : Stores img f) {k : ℕ} {s : Elf64Sym} (hs : f.symbols[k]? = some s)
    {j n v : ℕ} (hf : s.fields[j]? = some (n, v)) (hv : v < 256 ^ n) :
    let a := symAt (advance img.base f.symHdr.offset.toNat) k
    img.Has (a + BitVec.ofNat 64 (fieldOffset s.fields j)) n ∧
      img.field (a + BitVec.ofNat 64 (fieldOffset s.fields j)) n = v :=
  (h.symbols.elem Elf64Sym.length_bytes hs).read_field (h.off_symAt hs) hf hv

/-- What `run_elf` reads of a section. -/
theorem section_fields (h : Stores img f) {i : ℕ} {s : Elf64Shdr} (hs : f.sections[i]? = some s) :
    let a := shdrAt (shdrOf img) i
    (img.Has (shType a) 4 ∧ img.field (shType a) 4 = s.type.toNat) ∧
      (img.Has (shFlags a) 8 ∧ img.field (shFlags a) 8 = s.flags.toNat) ∧
      (img.Has (shOffset a) 8 ∧ img.field (shOffset a) 8 = s.offset.toNat) ∧
      (img.Has (shSize a) 8 ∧ img.field (shSize a) 8 = s.size.toNat) ∧
      (img.Has (shLink a) 4 ∧ img.field (shLink a) 4 = s.link.toNat) :=
  ⟨h.section_field hs (j := 1) rfl s.type.isLt, h.section_field hs (j := 2) rfl s.flags.isLt,
    h.section_field hs (j := 4) rfl s.offset.isLt, h.section_field hs (j := 5) rfl s.size.isLt,
    h.section_field hs (j := 6) rfl s.link.isLt⟩

/-- What `get_sym` and `fill_symbol` read of a symbol. -/
theorem symbol_fields (h : Stores img f) {k : ℕ} {s : Elf64Sym} (hs : f.symbols[k]? = some s) :
    let a := symAt (advance img.base f.symHdr.offset.toNat) k
    (img.Has (stName a) 4 ∧ img.field (stName a) 4 = s.name.toNat) ∧
      (img.Has (stInfo a) 1 ∧ img.field (stInfo a) 1 = s.info.toNat) ∧
      (img.Has (stShndx a) 2 ∧ img.field (stShndx a) 2 = s.shndx.toNat) ∧
      (img.Has (stValue a) 8 ∧ img.field (stValue a) 8 = s.value.toNat) := by
  have hname := h.symbol_field hs (j := 0) rfl s.name.isLt
  have hzero : ∀ a : Word, a + BitVec.ofNat 64 (fieldOffset s.fields 0) = stName a :=
    fun a => BitVec.add_zero a
  dsimp only at hname
  rw [hzero] at hname
  exact ⟨hname, h.symbol_field hs (j := 1) rfl s.info.isLt,
    h.symbol_field hs (j := 3) rfl s.shndx.isLt, h.symbol_field hs (j := 4) rfl s.value.isLt⟩

end Stores

/-! ## 4. The sections -/

/-- The last table of some sections, of which one alone is a symbol table. -/
theorem lastSym_eq {img : Image} {shdr : Word} {k : ℕ} {is : List ℕ}
    (h : ∀ i ∈ is, IsSymtab img shdr i ↔ i = k) (sym : TSym) :
    lastSym img shdr is sym = if k ∈ is then symtabAt img shdr k else sym := by
  induction is generalizing sym with
  | nil => rfl
  | cons i is ih =>
    rw [lastSym, ih fun j hj => h j (List.mem_cons_of_mem i hj), nextSym]
    have hi := h i List.mem_cons_self
    by_cases hk : i = k
    · rw [if_pos (hi.mpr hk), hk, if_pos List.mem_cons_self]
      split <;> rfl
    · rw [if_neg (mt hi.mp hk)]
      simp only [List.mem_cons, Ne.symm hk, false_or]

namespace Stores

variable {img : Image} {f : ElfFile}

theorem isSymtab_iff (h : Stores img f) {i : ℕ} (hi : i < f.sections.length) :
    IsSymtab img (shdrOf img) i ↔ i = f.symtab := by
  have hs : f.sections[i]? = some f.sections[i] := List.getElem?_eq_getElem hi
  rw [IsSymtab, (h.section_fields hs).1.2]
  exact f.symtab_iff i _ hs

/-- Its three pointers. -/
theorem symtabAt_eq (h : Stores img f) : symtabAt img (shdrOf img) f.symtab =
    ⟨advance img.base f.symHdr.offset.toNat,
      advance (advance img.base f.symHdr.offset.toNat) (SYM_SIZE * f.symbols.length),
      advance img.base f.strHdr.offset.toNat⟩ := by
  obtain ⟨-, -, ⟨-, hoff⟩, ⟨-, hsize⟩, -, hlink⟩ := h.section_fields f.symHdr_eq
  obtain ⟨-, -, ⟨-, hstr⟩, -⟩ := h.section_fields f.strHdr_eq
  rw [symtabAt, hoff, hsize, hlink, hstr, f.size_eq]

theorem symtabOf_eq (h : Stores img f) : symtabOf img = symtabAt img (shdrOf img) f.symtab := by
  have hlt : f.symtab < f.sections.length := (List.getElem?_eq_some_iff.mp f.symHdr_eq).1
  rw [symtabOf, h.shnum.2, lastSym_eq, if_pos (List.mem_range.mpr hlt)]
  exact fun i hi => h.isSymtab_iff (List.mem_range.mp hi)

/-- The bytes of the symbols are all there. -/
theorem symbols_le (h : Stores img f) :
    f.symHdr.offset.toNat + SYM_SIZE * f.symbols.length ≤ img.bytes.length := by
  have hle := h.symbols.le_length
  rwa [List.length_flatMap, List.map_congr_left fun s _ => s.length_bytes, List.map_const',
    List.sum_replicate_nat, Nat.mul_comm] at hle

theorem off_endp (h : Stores img f) :
    img.off (advance (advance img.base f.symHdr.offset.toNat) (SYM_SIZE * f.symbols.length))
      = f.symHdr.offset.toNat + SYM_SIZE * f.symbols.length := by
  have hle := h.symbols_le
  have hplaced := img.placed.2
  have hoff := off_advance h.symbols
  rw [advance, Image.off_add (by rw [hoff]; omega), hoff]

/-- The header of no section is beyond the end. -/
theorem not_beyond_shdrAt (h : Stores img f) {i : ℕ} (hi : i < f.sections.length) :
    img.beyond (shdrAt (shdrOf img) i) = false := by
  have hs : f.sections[i]? = some f.sections[i] := List.getElem?_eq_getElem hi
  have hle := (h.sections.elem Elf64Shdr.length_bytes hs).le_length
  refine Image.not_beyond ?_
  rw [h.off_shdrAt hs]
  omega

/-- `run_elf` reads within bounds in every section, and passes it. -/
theorem sectionsPass (h : Stores img f) : SectionsPass img := by
  intro i hi
  rw [h.shnum.2] at hi
  have hs : f.sections[i]? = some f.sections[i] := List.getElem?_eq_getElem hi
  obtain ⟨htype, -, hoffset, hsize, hlink⟩ := h.section_fields hs
  have hhdr := h.not_beyond_shdrAt hi
  by_cases hsym : i = f.symtab
  · obtain rfl := hsym
    obtain ⟨-, -, hstr, -⟩ := h.section_fields f.strHdr_eq
    have hlinked : img.field (shLink (shdrAt (shdrOf img) f.symtab)) 4 = f.symHdr.link.toNat :=
      (h.section_fields f.symHdr_eq).2.2.2.2.2
    refine ⟨fun _ => ⟨htype.1, fun _ => ⟨hoffset.1, fun _ => ⟨hsize.1, fun _ => ⟨hlink.1, ?_⟩⟩⟩⟩,
      hhdr, fun _ => ?_⟩
    · rw [hlinked]
      exact hstr.1
    · rw [h.symtabAt_eq]
      have hsymbols := h.symbols_le
      have hstrings := h.strings.le_length
      refine ⟨Image.not_beyond ?_, Image.not_beyond ?_, Image.not_beyond ?_⟩
      · rw [off_advance h.symbols]
        omega
      · rwa [h.off_endp]
      · rw [off_advance h.strings]
        omega
  · have hnot : ¬ IsSymtab img (shdrOf img) i := mt (h.isSymtab_iff hi).mp hsym
    exact ⟨fun _ => ⟨htype.1, fun his => absurd his hnot⟩, hhdr, fun his => absurd his hnot⟩

end Stores

/-! ## 5. The symbols -/

/-- A string goes no further than its first NUL. -/
theorem cstr_append_of_mem {t : Text} (h : nul ∈ t) (u : Text) : cstr (t ++ u) = cstr t := by
  induction t with
  | nil => cases h
  | cons c t ih =>
    by_cases hc : c = nul
    · rw [hc, List.cons_append, cstr_cons_nul, cstr_cons_nul]
    · have ht : nul ∈ t := (List.mem_cons.mp h).resolve_left (Ne.symm hc)
      rw [List.cons_append, cstr_cons_of_ne hc, cstr_cons_of_ne hc, ih ht]

/-- The search of `get_type`, where the header of the section is in the image. -/
theorem getTypeLoop_eq {img : Image} {s : Word} {type flags : ℕ} (hb : img.beyond s = false)
    (htype : img.Has (shType s) 4 ∧ img.field (shType s) 4 = type)
    (hflags : img.Has (shFlags s) 8 ∧ img.field (shFlags s) 8 = flags) (ts : List TType) :
    getTypeLoop img s ts = some (match ts.find? fun t => t.type = type && t.flags = flags with
      | some t => charByte t.ch
      | none => charByte '?') := by
  induction ts with
  | nil => rfl
  | cons t ts ih =>
    rw [getTypeLoop, hb, if_neg Bool.false_ne_true, img.read_eq_some htype.1, htype.2,
      img.read_eq_some hflags.1, hflags.2, List.find?_cons]
    simp only [Option.bind_eq_bind, Option.bind_some]
    by_cases h1 : type = t.type
    · by_cases h2 : flags = t.flags
      · simp [h1, h2]
      · have h2' : ¬ t.flags = flags := Ne.symm h2
        simp only [if_pos h1, if_neg h2, ih, h2', decide_false, Bool.and_false]
    · have h1' : ¬ t.type = type := Ne.symm h1
      simp only [if_neg h1, ih, h1', decide_false, Bool.false_and]

namespace Stores

variable {img : Image} {f : ElfFile}

/-- The symbols, as pointers. -/
theorem toNat_start (h : Stores img f) : (advance img.base f.symHdr.offset.toNat).toNat
    = img.base.toNat + f.symHdr.offset.toNat := by
  have hplaced := img.placed.2
  have hle := h.symbols_le
  exact advance_toNat (by omega)

theorem toNat_endp (h : Stores img f) :
    (advance (advance img.base f.symHdr.offset.toNat) (SYM_SIZE * f.symbols.length)).toNat
      = img.base.toNat + f.symHdr.offset.toNat + SYM_SIZE * f.symbols.length := by
  have hplaced := img.placed.2
  have hle := h.symbols_le
  rw [advance_toNat (by rw [h.toNat_start]; omega), h.toNat_start]

theorem symCount_eq (h : Stores img f) :
    symCount (symtabOf img) (symtabOf img).start = f.symbols.length := by
  rw [h.symtabOf_eq, h.symtabAt_eq, symCount]
  dsimp only
  rw [h.toNat_start, h.toNat_endp, SYM_SIZE]
  omega

/-- `get_sym` asks for as many `t_symbol`s as there are symbols. -/
theorem request_eq (h : Stores img f) :
    (symtabOf img).request = BitVec.ofNat 64 (SYMBOL_SIZE * f.symbols.length) := by
  have hplaced := img.placed.2
  have hle := h.symbols_le
  have hstart := h.toNat_start
  have hendp := h.toNat_endp
  rw [h.symtabOf_eq, h.symtabAt_eq]
  obtain ⟨hwhole, -⟩ := @TSym.request_of_mod ⟨advance img.base f.symHdr.offset.toNat,
    advance (advance img.base f.symHdr.offset.toNat) (SYM_SIZE * f.symbols.length),
    advance img.base f.strHdr.offset.toNat⟩ (by dsimp only; omega) (by dsimp only; omega)
  have hsize : (advance (advance img.base f.symHdr.offset.toNat)
      (SYM_SIZE * f.symbols.length)).toNat - (advance img.base f.symHdr.offset.toNat).toNat
        = SYM_SIZE * f.symbols.length := by
    omega
  dsimp only at hwhole
  rw [hsize, Nat.mul_mod_right, Nat.mul_div_cancel_left _ (by decide)] at hwhole
  rw [← hwhole (by decide), BitVec.ofNat_toNat, BitVec.setWidth_eq]

theorem room_eq (h : Stores img f) : (symtabOf img).room = f.symbols.length := by
  have hplaced := img.placed.2
  have hle := h.symbols_le
  have hlt : SYMBOL_SIZE * f.symbols.length < 2 ^ 64 := by
    simp only [SYM_SIZE] at hle
    simp only [SYMBOL_SIZE]
    omega
  rw [TSym.room, h.request_eq, BitVec.toNat_ofNat, Nat.mod_eq_of_lt hlt,
    Nat.mul_div_cancel_left _ (by decide)]

/-- `get_sym` walks over the symbols of the file. -/
theorem symbolsOf_eq (h : Stores img f) :
    symbolsOf (symtabOf img) (symtabOf img).start
      = (List.range f.symbols.length).map (symAt (advance img.base f.symHdr.offset.toNat)) := by
  rw [symbolsOf, h.symCount_eq, h.symtabOf_eq, h.symtabAt_eq]

/-- The name of a symbol, as a pointer. -/
theorem off_name (h : Stores img f) {s : Elf64Sym} (hs : s ∈ f.symbols) :
    img.off (advance (advance img.base f.strHdr.offset.toNat) s.name.toNat)
      = f.strHdr.offset.toNat + s.name.toNat := by
  have hle := h.strings.le_length
  have hname := f.names s hs
  have hplaced := img.placed.2
  have hoff := off_advance h.strings
  rw [advance, Image.off_add (by rw [hoff]; omega), hoff]

/-- The name of a symbol is read. -/
theorem nameAt_eq (h : Stores img f) {s : Elf64Sym} (hs : s ∈ f.symbols) :
    (nameAt img (advance (advance img.base f.strHdr.offset.toNat) s.name.toNat)).map cstr
      = some (f.nameOf s) := by
  have hname := f.names s hs
  have hle := h.strings.le_length
  have hplaced := img.placed
  have hnull : advance (advance img.base f.strHdr.offset.toNat) s.name.toNat ≠ 0 := by
    intro hzero
    have hstart : (advance img.base f.strHdr.offset.toNat).toNat
        = img.base.toNat + f.strHdr.offset.toNat := advance_toNat (by omega)
    have hat : (advance (advance img.base f.strHdr.offset.toNat) s.name.toNat).toNat
        = img.base.toNat + f.strHdr.offset.toNat + s.name.toNat := by
      rw [advance_toNat (by rw [hstart]; omega), hstart]
    rw [hzero] at hat
    have h0 : (0 : Word).toNat = 0 := rfl
    omega
  obtain ⟨post, hpost⟩ := h.strings.drop_eq
  have hdrop : img.bytes.drop (f.strHdr.offset.toNat + s.name.toNat)
      = f.strings.drop s.name.toNat ++ post := by
    rw [← List.drop_drop, hpost, List.drop_append_of_le_length (Nat.le_of_lt hname)]
  -- the last string is ended, so the name is
  have hmem : nul ∈ (f.strings.drop s.name.toNat).map byteChar := by
    refine List.mem_map.mpr ⟨0, ?_, rfl⟩
    refine List.mem_of_getLast? ?_
    rw [List.getLast?_drop, if_neg (by omega), f.ended]
  rw [nameAt, if_neg hnull, Option.map_some, textAt, h.off_name hs, hdrop, List.map_append,
    cstr_append_of_mem hmem]
  rfl

/-- The type letter of a symbol is that of its section. -/
theorem getType_eq (h : Stores img f) {k : ℕ} {s : Elf64Sym} (hs : f.symbols[k]? = some s) :
    getType img (shdrOf img) (symAt (advance img.base f.symHdr.offset.toNat) k)
      = some (f.letter s.shndx.toNat) := by
  obtain ⟨-, -, ⟨hhas, hfield⟩, -⟩ := h.symbol_fields hs
  rw [getType, img.read_eq_some hhas, hfield, ElfFile.letter]
  simp only [Option.bind_eq_bind, Option.bind_some]
  split
  · rfl
  · split
    · rfl
    · split
      · rfl
      · rename_i h1 h2 h3
        have hlt := f.inSections s (List.mem_of_getElem? hs) ⟨h1, h2, h3⟩
        have hsec : f.sections[s.shndx.toNat]? = some f.sections[s.shndx.toNat] :=
          List.getElem?_eq_getElem hlt
        obtain ⟨htype, hflags, -⟩ := h.section_fields hsec
        rw [getTypeLoop_eq (h.not_beyond_shdrAt hlt) htype hflags, hsec]
        rfl

/-- What is loaded of a symbol. -/
theorem fillSymbol_eq (h : Stores img f) {k : ℕ} {s : Elf64Sym} (hs : f.symbols[k]? = some s) :
    (fillSymbol img (shdrOf img) (advance img.base f.strHdr.offset.toNat)
      (symAt (advance img.base f.symHdr.offset.toNat) k)).map Entry.cut = some (f.entry s) := by
  obtain ⟨⟨hhname, hname⟩, ⟨hhinfo, hinfo⟩, -, ⟨hhvalue, hvalue⟩⟩ := h.symbol_fields hs
  have hat := h.nameAt_eq (List.mem_of_getElem? hs)
  rw [fillSymbol, img.read_eq_some hhvalue, h.getType_eq hs, img.read_eq_some hhinfo,
    img.read_eq_some hhname, hname, hinfo, hvalue]
  simp only [Option.bind_eq_bind, Option.bind_some, Option.map_some, Entry.cut, hat]
  rw [BitVec.ofNat_toNat, BitVec.setWidth_eq]
  rfl

/-- What `get_sym` reads of a symbol is in bounds, and it goes on after it. -/
theorem symbol_inBounds (h : Stores img f) {k : ℕ} {s : Elf64Sym} (hs : f.symbols[k]? = some s) :
    let a := symAt (advance img.base f.symHdr.offset.toNat) k
    SymbolInBounds img (shdrOf img) (advance img.base f.strHdr.offset.toNat) a ∧
      SymbolPasses img (advance img.base f.strHdr.offset.toNat) a := by
  obtain ⟨hname, hinfo, hshndx, hvalue⟩ := h.symbol_fields hs
  refine ⟨⟨hinfo.1, fun _ => ⟨hname.1, fun _ => ⟨hvalue.1, hshndx.1, fun hin => ?_⟩⟩⟩, fun _ => ?_⟩
  · rw [hshndx.2] at hin ⊢
    have hlt := f.inSections s (List.mem_of_getElem? hs) hin
    obtain ⟨htype, hflags, -⟩ := h.section_fields (List.getElem?_eq_getElem hlt)
    exact fun _ => ⟨htype.1, fun _ => hflags.1⟩
  · have hle := h.strings.le_length
    have hlt := f.names s (List.mem_of_getElem? hs)
    refine Image.not_beyond ?_
    rw [hname.2, h.off_name (List.mem_of_getElem? hs)]
    omega

theorem tableInBounds (h : Stores img f) : TableInBounds img (shdrOf img) (symtabOf img) := by
  have hplaced := img.placed
  have hnull {p : Word} (hp : 0 < p.toNat) : p ≠ 0 := by
    rintro rfl
    exact absurd hp (by decide)
  refine ⟨⟨h.sectionsPass.beyond_endp, ?_, ?_⟩, ?_⟩
  · rw [h.symtabOf_eq, h.symtabAt_eq]
    exact hnull (by rw [h.toNat_endp]; omega)
  · rw [h.symtabOf_eq, h.symtabAt_eq]
    exact hnull (by rw [h.toNat_start]; omega)
  · intro a ha
    rw [h.symbolsOf_eq] at ha
    obtain ⟨k, hk, rfl⟩ := List.mem_map.mp ha
    rw [h.symtabOf_eq, h.symtabAt_eq]
    exact h.symbol_inBounds (List.getElem?_eq_getElem (List.mem_range.mp hk))

end Stores

/-! ## 6. Reading the file back -/

/-- Where two lists go together, so does what is kept of them and made of it. -/
theorem map_of_mapM_filter {α β γ δ : Type} {fill : α → Option β} {kept : α → Bool} {cut : β → δ}
    {kept' : γ → Bool} {entry : γ → δ} {as : List α} {xs : List γ}
    (h : List.Forall₂ (fun a x => kept a = kept' x ∧ (fill a).map cut = some (entry x)) as xs)
    {bs : List β} (hbs : (as.filter kept).mapM fill = some bs) :
    bs.map cut = (xs.filter kept').map entry := by
  induction h generalizing bs with
  | nil =>
    obtain rfl := Option.some.inj hbs
    rfl
  | @cons a x as xs hax _ ih =>
    obtain ⟨hkept, hfill⟩ := hax
    rw [List.filter_cons] at hbs ⊢
    rw [← hkept]
    split at hbs
    · rename_i hk
      rw [List.mapM_cons, Option.bind_eq_bind] at hbs
      obtain ⟨b, hb, hbs⟩ := Option.bind_eq_some_iff.mp hbs
      obtain ⟨bs', hbs', heq⟩ := Option.bind_eq_some_iff.mp hbs
      obtain rfl := Option.some.inj heq
      rw [hb] at hfill
      rw [if_pos hk, List.map_cons, List.map_cons, ih hbs', Option.some.inj hfill]
    · rename_i hk
      rw [if_neg hk]
      exact ih hbs

namespace Stores

variable {img : Image} {f : ElfFile}

/-- `get_sym` loads the symbols of the file that are kept. -/
theorem exists_entries (h : Stores img f) {malloc : Malloc}
    (hgives : malloc.gives (BitVec.ofNat 64 (SYMBOL_SIZE * f.symbols.length)) = true) :
    ∃ es, getSymEntries malloc img (shdrOf img) (symtabOf img) = some (some es) ∧
      es.map Entry.cut = f.kept.map f.entry := by
  rw [← h.request_eq] at hgives
  obtain ⟨es, hes, hmap⟩ := h.tableInBounds.entries hgives
  refine ⟨es, hes, map_of_mapM_filter ?_ hmap⟩
  rw [h.symbolsOf_eq, List.forall₂_iff_get]
  refine ⟨by rw [List.length_map, List.length_range], fun k hk hk' => ?_⟩
  have hs : f.symbols[k]? = some (f.symbols.get ⟨k, hk'⟩) := List.getElem?_eq_getElem hk'
  rw [List.get_eq_getElem, List.getElem_map, List.getElem_range]
  refine ⟨?_, ?_⟩
  · rw [keptAt, (h.symbol_fields hs).2.1.2]
  · rw [h.symtabOf_eq, h.symtabAt_eq]
    exact h.fillSymbol_eq hs

/-- They are all that it can load. -/
theorem entries_eq (h : Stores img f) {malloc : Malloc} {es : List Entry}
    (hes : getSymEntries malloc img (shdrOf img) (symtabOf img) = some (some es)) :
    es.map Entry.cut = f.kept.map f.entry := by
  have hgives := (gives_of_entries hes).2
  rw [h.request_eq] at hgives
  obtain ⟨es', hes', hmap⟩ := h.exists_entries hgives
  obtain rfl := Option.some.inj (Option.some.inj (hes'.symm.trans hes))
  exact hmap

/-- A stored file passes the check of `parse_elf`. -/
theorem checkMagicNumber_eq (h : Stores img f) : checkMagicNumber img = true := by
  have hlen := h.ehdr.le_length
  obtain ⟨post, hpost⟩ := h.ehdr.drop_eq
  have hfields : (f.ehdr.fields.map Prod.fst).sum = EHDR_SIZE := rfl
  rw [length_record, hfields, Nat.zero_add] at hlen
  rw [List.drop_zero] at hpost
  have hmagic : img.bytes.take 4 = [0x7F, 0x45, 0x4C, 0x46] := by
    rw [hpost]
    rfl
  simp [checkMagicNumber, hlen, hmagic]

/-- And `run_elf` comes to them. -/
theorem runElf_eq (h : Stores img f) {malloc : Malloc} {es : List Entry}
    (hes : getSymEntries malloc img (shdrOf img) (symtabOf img) = some (some es)) :
    runElf malloc img = some (.list (symtabOf img) es) := by
  have hle : ¬ (symtabOf img).endp < (symtabOf img).start := by
    rw [h.symtabOf_eq, h.symtabAt_eq, BitVec.lt_def]
    dsimp only
    rw [h.toNat_start, h.toNat_endp]
    omega
  have hhead : HeaderPasses img := by
    refine ⟨(h.header (j := 7) rfl f.ehdr.shoff.isLt).1, ?_, h.shnum.1⟩
    have hle := h.sections.le_length
    refine Image.not_beyond ?_
    rw [h.shdrOf_eq, off_advance h.sections]
    omega
  exact runElf_eq_list.mpr ⟨hhead, h.sectionsPass, rfl, hle, hes⟩

end Stores

/-! ## 7. The names of the executable -/

/-- Each entry is that of a symbol of the file. -/
theorem exists_kept_of_entry {f : ElfFile} {es : List Entry}
    (h : (es.map Entry.cut).Perm (f.kept.map f.entry)) {e : Entry} (he : e ∈ es) :
    ∃ s ∈ f.kept, s.value = e.stValue ∧ e.name.map cstr = some (f.nameOf s) := by
  obtain ⟨s, hs, hcut⟩ := List.mem_map.mp (h.subset (List.mem_map_of_mem he))
  exact ⟨s, hs, congrArg Entry.stValue hcut, (congrArg Entry.name hcut).symm⟩

/-- There is room for the end marker behind the entries, and they have names. -/
theorem Stores.wellEnded {img : Image} {f : ElfFile} (h : Stores img f)
    (hnull : ∃ s ∈ f.symbols, isKept s.info.toNat = false) {es : List Entry}
    (hmap : es.map Entry.cut = f.kept.map f.entry) : WellEnded (symtabOf img) es := by
  refine ⟨?_, fun e he => ?_⟩
  · have hlen := congrArg List.length hmap
    rw [List.length_map, List.length_map] at hlen
    have hlt : f.kept.length < f.symbols.length := by
      refine List.length_filter_lt_length_iff_exists.mpr ?_
      simpa using hnull
    rwa [hlen, h.room_eq]
  · obtain ⟨s, -, -, hname⟩ := exists_kept_of_entry (List.Perm.of_eq hmap) he
    obtain ⟨t, hn, -⟩ := Option.map_eq_some_iff.mp hname
    rw [hn]
    rfl

/-- The names at an address, as `resolve_symbol` prints them, are those of the file. -/
theorem names_of_entries {f : ElfFile} {es : List Entry}
    (h : es.map Entry.cut = f.kept.map f.entry) (addr : Word) :
    ((es.filter fun e => e.stValue = addr).map fun e => e.symbol.text)
      = (f.kept.filter fun s => s.value = addr).map f.nameOf := by
  have htext (e : Entry) : e.symbol.text = e.cut.symbol.text := by
    unfold Entry.cut Entry.symbol TSymbol.text
    cases e.name with
    | none => rfl
    | some t => exact (cstr_cstr t).symm
  have hcut := congrArg (fun l => (l.filter fun e => e.stValue = addr).map fun e => e.symbol.text) h
  rw [List.filter_map, List.filter_map, List.map_map, List.map_map] at hcut
  calc ((es.filter fun e => e.stValue = addr).map fun e => e.symbol.text)
      = (es.filter fun e => e.stValue = addr).map fun e => e.cut.symbol.text :=
        List.map_congr_left fun e _ => htext e
    _ = _ := hcut
    _ = _ := List.map_congr_left fun s _ => cstr_cstr _

/-- A lookup in the sorted table of a file whose values fit an `unsigned int`. -/
theorem lookup_of_entries {f : ElfFile} {es : List Entry} (hmap : es.map Entry.cut = f.kept.map f.entry)
    (hlow : ∀ s ∈ f.kept, s.value.toNat < 2 ^ 32) {t : SymTab}
    (hp : t.entries.Perm (es.map Entry.symbol)) (load : Loader) (mem : Mem) (maps : Option MapsFile)
    {addr : Word} {isACall : ℕ} (s : LibState) (haddr : addr ≠ 0) (hcall : isACall ≠ 0) :
    let r := resolveSymbol load mem maps addr (some t) isACall s
    (r.consulted = true ↔ ∀ s ∈ f.kept, s.value ≠ addr) ∧
      (r.consulted = false → ∃ names : List Text,
        names.Perm ((f.kept.filter fun s => s.value = addr).map f.nameOf) ∧
          r.out = names.flatMap fun n => " ..... ".toList ++ n ++ "\n".toList) := by
  have hentry {e : Entry} (he : e ∈ es) : ∃ s ∈ f.kept, s.value = e.stValue := by
    obtain ⟨s, hs, hvalue, -⟩ := exists_kept_of_entry (List.Perm.of_eq hmap) he
    exact ⟨s, hs, hvalue⟩
  have hexact := namesExactly_of_agrees load mem maps haddr hp hcall s fun e he => by
    refine (hasAddr_agrees_iff e addr).mpr fun hbig => ?_
    obtain ⟨s, hs, hvalue⟩ := hentry he
    have hlt := hlow s hs
    rw [hvalue] at hlt
    exact absurd hbig (Nat.not_le.mpr hlt)
  refine ⟨hexact.consulted.trans ?_, fun hfound => ?_⟩
  · constructor
    · intro hnone s hs heq
      have hcut : f.entry s ∈ es.map Entry.cut := hmap ▸ List.mem_map_of_mem hs
      obtain ⟨e, he, hes⟩ := List.mem_map.mp hcut
      have hvalue : e.stValue = s.value := congrArg Entry.stValue hes
      exact hnone e he (hvalue.trans heq)
    · intro hnone e he heq
      obtain ⟨s, hs, hvalue⟩ := hentry he
      exact hnone s hs (hvalue.trans heq)
  · obtain ⟨named, hperm, hout⟩ := hexact.printed hfound
    refine ⟨named.map TSymbol.text, ?_, ?_⟩
    · have htexts := hperm.map TSymbol.text
      rw [List.map_map] at htexts
      rw [← names_of_entries hmap addr]
      exact htexts
    · rw [hout, List.flatMap_map]
      rfl

end Ftrace
