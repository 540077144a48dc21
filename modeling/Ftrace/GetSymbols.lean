/-
# Reading the symbols of an ELF file

`get_symbols.c` up to the sort: `check_magic_number`, `run_elf`, `get_sym`, `fill_symbol` and
`get_type`, over the file as it is mapped and whatever else is in memory.

Every field that the source reads through a pointer is read through `Image.read`, so each of
these functions is `none` at the first read where there is no memory.  The inner `Option` of a
result is the null pointer that the source returns.  Pointers are the absolute addresses of
the source, and the guards compare them with the end of the file as it does.

What `malloc` has is given (`Malloc`).  `get_sym` asks it for as many `t_symbol`s as the
difference of two pointers says, which is compiled to a shift and a multiplication: for a section
that goes on for eight bytes or more behind its last whole symbol, that is a number no memory has
(`TSym.request_of_mod`).

A loaded symbol is kept here with its whole `st_value` (`Entry`); `Entry.symbol` is what is left
of it in a `t_symbol`.
-/
import Ftrace.Lib.Mapped
import Ftrace.ResolveSymbols

namespace Ftrace

open CText Bytes Mapped

/-! ## 1. The layout of an ELF file -/

def EHDR_SIZE : ℕ := 64
def SHDR_SIZE : ℕ := 64
def SYM_SIZE : ℕ := 24
/-- `sizeof (t_symbol)`. -/
def SYMBOL_SIZE : ℕ := 16

def SHT_NULL : ℕ := 0
def SHT_PROGBITS : ℕ := 1
def SHT_SYMTAB : ℕ := 2
def SHT_NOBITS : ℕ := 8
def SHF_WRITE : ℕ := 1
def SHF_ALLOC : ℕ := 2
def SHF_EXECINSTR : ℕ := 4
def SHN_UNDEF : ℕ := 0
def SHN_ABS : ℕ := 0xFFF1
def SHN_COMMON : ℕ := 0xFFF2
def STT_NOTYPE : ℕ := 0
def STT_SECTION : ℕ := 3
def STT_FILE : ℕ := 4
def STB_LOCAL : ℕ := 0
def STB_WEAK : ℕ := 2

/-- The fields of the header: a pointer and a size. -/
def eShoff (img : Image) : Word := img.base + 40
def eShnum (img : Image) : Word := img.base + 60
def eShstrndx (img : Image) : Word := img.base + 62

/-- `&shdr[i]`. -/
def shdrAt (shdr : Word) (i : ℕ) : Word := shdr + BitVec.ofNat 64 (SHDR_SIZE * i)

/-- The fields of a section header. -/
def shType (s : Word) : Word := s + 4
def shFlags (s : Word) : Word := s + 8
def shOffset (s : Word) : Word := s + 24
def shSize (s : Word) : Word := s + 32
def shLink (s : Word) : Word := s + 40

/-- The fields of a symbol. -/
def stName (sym : Word) : Word := sym
def stInfo (sym : Word) : Word := sym + 4
def stShndx (sym : Word) : Word := sym + 6
def stValue (sym : Word) : Word := sym + 8

/-- A pointer at a distance from another. -/
def advance (p : Word) (n : ℕ) : Word := p + BitVec.ofNat 64 n

/-- The bytes from a pointer to the end of the file, as text. -/
def textAt (img : Image) (p : Word) : Text := (img.bytes.drop (img.off p)).map byteChar

/-! ## 2. `get_type` and `fill_symbol` -/

/-- `t_type`. -/
structure TType where
  ch : Char
  type : ℕ
  flags : ℕ

/-- `types`, the static table of `get_type`. -/
def types : List TType :=
  [
    ⟨'B', SHT_NOBITS, SHF_ALLOC + SHF_WRITE⟩,
    ⟨'R', SHT_PROGBITS, SHF_ALLOC⟩,
    ⟨'D', SHT_PROGBITS, SHF_ALLOC + SHF_WRITE⟩,
    ⟨'U', SHT_NULL, 0⟩,
    ⟨'T', SHT_PROGBITS, SHF_ALLOC + SHF_EXECINSTR⟩,
    ⟨'R', SHT_PROGBITS, 0⟩
  ]

/-- A character as a `char`. -/
def charByte (c : Char) : BitVec 8 := BitVec.ofNat 8 c.toNat

/-- The loop of `get_type` over the rest of the table; `s` is the section of the symbol. -/
def getTypeLoop (img : Image) (s : Word) : List TType → Option (BitVec 8)
  | [] => some (charByte '?')
  | t :: ts =>
    if img.beyond s then some (-1)
    else do
      let type ← img.read (shType s) 4
      if type = t.type then do
        let flags ← img.read (shFlags s) 8
        if flags = t.flags then some (charByte t.ch) else getTypeLoop img s ts
      else getTypeLoop img s ts

/-- `get_type (elf, sym)`. -/
def getType (img : Image) (shdr sym : Word) : Option (BitVec 8) := do
  let shndx ← img.read (stShndx sym) 2
  if shndx = SHN_UNDEF then some (charByte 'U')
  else if shndx = SHN_COMMON then some (charByte 'C')
  else if shndx = SHN_ABS then some (charByte 'A')
  else getTypeLoop img (shdrAt shdr shndx) types

/-- `LOWER`. -/
def lower (x : BitVec 8) : BitVec 8 :=
  if charByte 'A' ≤ x ∧ x ≤ charByte 'Z' then x + 0x20 else x

/-- A symbol as it is loaded, with the whole of its `st_value`. -/
structure Entry where
  stValue : Word
  type : BitVec 8
  name : Option Text
  deriving DecidableEq, Repr

/-- The `t_symbol` that `fill_symbol` stores: the value is an `unsigned int`. -/
def Entry.symbol (e : Entry) : TSymbol := ⟨e.stValue.setWidth 32, e.type, e.name⟩

/-- The type of a symbol after its binding has been looked at. -/
def bindType (info : ℕ) (type : BitVec 8) : BitVec 8 :=
  let type := if info / 16 = STB_LOCAL then lower type else type
  if info / 16 = STB_WEAK then charByte 'w' else type

/-- The name at a pointer: no name if it is null. -/
def nameAt (img : Image) (p : Word) : Option Text := if p = 0 then none else some (textAt img p)

/-- `fill_symbol (elf, sym, symbol)`. -/
def fillSymbol (img : Image) (shdr strtab sym : Word) : Option Entry := do
  let value ← img.read (stValue sym) 8
  let type ← getType img shdr sym
  let info ← img.read (stInfo sym) 1
  let name ← img.read (stName sym) 4
  some ⟨BitVec.ofNat 64 value, bindType info type, nameAt img (advance strtab name)⟩

/-! ## 3. `get_sym` -/

/-- The sizes that `malloc` has a block for. -/
structure Malloc where
  gives : Word → Bool
  /-- User memory ends at 2^47. -/
  bounded : ∀ n : Word, 2 ^ 47 ≤ n.toNat → gives n = false

/-- Whatever can be had. -/
def Malloc.ample : Malloc where
  gives n := n.toNat < 2 ^ 47
  bounded _ h := decide_eq_false (Nat.not_lt.mpr h)

/-- `t_sym`. -/
structure TSym where
  start : Word := 0
  endp : Word := 0
  strtab : Word := 0
  deriving DecidableEq, Repr

/-- `elf->sym.end - elf->sym.start`: the bytes between them divided by the size of a symbol, as
that is compiled, which is right for a multiple of it.  The shift divides by 8, and the factor is
the inverse of 3. -/
def TSym.places (sym : TSym) : Word := (sym.endp - sym.start).sshiftRight 3 * 0xAAAAAAAAAAAAAAAB

/-- The bytes that `get_sym` asks for. -/
def TSym.request (sym : TSym) : Word := BitVec.ofNat 64 SYMBOL_SIZE * sym.places

/-- The number of `t_symbol`s in a block of so many bytes. -/
def TSym.room (sym : TSym) : ℕ := sym.request.toNat / SYMBOL_SIZE

/-- The symbols that are loaded, by their `st_info`. -/
def isKept (info : ℕ) : Bool := info ≠ STT_FILE && info ≠ STT_SECTION && info ≠ STT_NOTYPE

/-- The loop of `get_sym` from `tmp` on.  Each round moves `tmp` up by the size of a symbol,
so the distance to the end bounds their number. -/
def getSymLoop (img : Image) (shdr : Word) (sym : TSym) : ℕ → Word → Option (Option (List Entry))
  | 0, _ => some (some [])
  | n + 1, tmp =>
    if tmp < sym.endp then do
      let info ← img.read (stInfo tmp) 1
      if isKept info then do
        let name ← img.read (stName tmp) 4
        if img.beyond (advance sym.strtab name) then some none
        else do
          let e ← fillSymbol img shdr sym.strtab tmp
          let rest ← getSymLoop img shdr sym n (advance tmp SYM_SIZE)
          some (rest.map (e :: ·))
      else getSymLoop img shdr sym n (advance tmp SYM_SIZE)
    else some (some [])

/-- The entries `get_sym` loads: none without an array. -/
def getSymEntries (malloc : Malloc) (img : Image) (shdr : Word) (sym : TSym) :
    Option (Option (List Entry)) :=
  if sym.endp = 0 ∨ sym.start = 0 then some none
  else if malloc.gives sym.request = false then some none
  else getSymLoop img shdr sym (sym.endp.toNat - sym.start.toNat) sym.start

/-- The array `get_sym` fills, all zero behind the loaded entries. -/
def symCells (room : ℕ) (es : List Entry) : List TSymbol :=
  es.map Entry.symbol ++ List.replicate (room - es.length) ⟨0, 0, none⟩

/-! ## 4. `run_elf` -/

/-- One round of the loop of `run_elf`: `none` inside for the null pointer it returns. -/
def runElfSection (img : Image) (shdr : Word) (i : ℕ) (sym : TSym) : Option (Option TSym) :=
  if img.beyond (shdrAt shdr i) then some none
  else do
    let type ← img.read (shType (shdrAt shdr i)) 4
    if type = SHT_SYMTAB then do
      let offset ← img.read (shOffset (shdrAt shdr i)) 8
      if img.beyond (advance img.base offset) then some none
      else do
        let size ← img.read (shSize (shdrAt shdr i)) 8
        if img.beyond (advance (advance img.base offset) size) then some none
        else do
          let link ← img.read (shLink (shdrAt shdr i)) 4
          let str ← img.read (shOffset (shdrAt shdr link)) 8
          if img.beyond (advance img.base str) then some none
          else some (some ⟨advance img.base offset, advance (advance img.base offset) size,
            advance img.base str⟩)
    else some (some sym)

/-- The loop of `run_elf` over these sections. -/
def runElfLoop (img : Image) (shdr : Word) : List ℕ → TSym → Option (Option TSym)
  | [], sym => some (some sym)
  | i :: is, sym => do
    match ← runElfSection img shdr i sym with
    | none => some none
    | some sym' => runElfLoop img shdr is sym'

/-- What `run_elf` comes to, before the sort. -/
inductive Symbols where
  | noSymbols
  | failed
  | list (sym : TSym) (entries : List Entry)

/-- `run_elf (elf)` and `print_sym (elf)`, as far as they read the file. -/
def runElf (malloc : Malloc) (img : Image) : Option Symbols := do
  let shoff ← img.read (eShoff img) 8
  let shdr := advance img.base shoff
  if img.beyond shdr then some .failed
  else do
    let shnum ← img.read (eShnum img) 2
    match ← runElfLoop img shdr (List.range shnum) {} with
    | none => some .failed
    | some sym =>
      if sym.endp < sym.start then some .noSymbols
      else match ← getSymEntries malloc img shdr sym with
        | none => some .failed
        | some entries => some (.list sym entries)

/-- `check_magic_number`. -/
def checkMagicNumber (img : Image) : Bool :=
  EHDR_SIZE ≤ img.bytes.length && img.bytes.take 4 = [0x7F, 0x45, 0x4C, 0x46]

/-- What `parse_elf` maps of a file: its length goes through an `unsigned int`.  Behind a length
that is cut off the last page goes on with the file. -/
def elfImage (img : Image) : Image where
  base := img.base
  bytes := img.bytes.take (img.bytes.length % 2 ^ 32)
  around p :=
    if img.bytes.length % 2 ^ 32 ≤ img.off p ∧ img.off p < img.bytes.length ∧
        img.off p < pageUp (img.bytes.length % 2 ^ 32) then img.bytes[img.off p]?
    else img.around p
  placed := by
    have h := img.placed
    rw [List.length_take]
    omega

/-- A file of less than 4 GiB is mapped whole. -/
theorem elfImage_eq_self {img : Image} (h : img.bytes.length < 2 ^ 32) : elfImage img = img := by
  have hmod : img.bytes.length % 2 ^ 32 = img.bytes.length := Nat.mod_eq_of_lt h
  have haround (p : Word) : ¬ (img.bytes.length ≤ img.off p ∧ img.off p < img.bytes.length ∧
      img.off p < pageUp img.bytes.length) := by
    omega
  cases img
  simp only [elfImage, hmod, List.take_length, haround, if_false]

/-- What the system has for a path. -/
inductive FileAt where
  /-- `open` fails -/
  | notOpened
  /-- `lseek` fails -/
  | notSized
  /-- `mmap` fails, for a file of this length -/
  | notMapped (len : ℕ)
  | mapped (img : Image)

/-- The length as an `unsigned int`. -/
def elfLen (len : ℕ) : ℕ := len % 2 ^ 32

/-- `parse_elf (file, elf)`: the image that is checked, `none` inside for the 0 it returns.  `lseek`
says -1 for an error, so a file of 4 GiB less one byte is one that has no size; and `mmap` does not
return the null pointer when it fails, so the magic number is looked for at what it does return, if
the file is as long as a header. -/
def parseElf : FileAt → Option (Option Image)
  | .notOpened => some none
  | .notSized => some none
  | .notMapped len =>
    if elfLen len = 2 ^ 32 - 1 then some none
    else if elfLen len < EHDR_SIZE then some none
    else none
  | .mapped img =>
    if elfLen img.bytes.length = 2 ^ 32 - 1 then some none
    else if checkMagicNumber (elfImage img) then some (some (elfImage img))
    else some none

/-- What is parsed has the magic number. -/
theorem checkMagicNumber_of_parseElf {file : FileAt} {img : Image}
    (h : parseElf file = some (some img)) : checkMagicNumber img = true := by
  cases file with
  | notOpened => cases Option.some.inj h
  | notSized => cases Option.some.inj h
  | notMapped len =>
    rw [parseElf] at h
    split at h
    · cases Option.some.inj h
    · split at h
      · cases Option.some.inj h
      · cases h
  | mapped whole =>
    rw [parseElf] at h
    split at h
    · cases Option.some.inj h
    · split at h
      · rename_i hmagic
        rw [← Option.some.inj (Option.some.inj h)]
        exact hmagic
      · cases Option.some.inj h

/-! ## 5. The size of the array -/

/-- The factor, on three numbers in a row: the inverse of 3 takes the first to its third. -/
theorem mul_inverse_three {k : ℕ} (hk : k ≤ 2 ^ 44) :
    3 * k * 0xAAAAAAAAAAAAAAAB % 2 ^ 64 = k ∧
      (3 * k + 1) * 0xAAAAAAAAAAAAAAAB % 2 ^ 64 = k + 0xAAAAAAAAAAAAAAAB ∧
        (3 * k + 2) * 0xAAAAAAAAAAAAAAAB % 2 ^ 64 = k + 0x5555555555555556 := by
  have h0 : 3 * k * 0xAAAAAAAAAAAAAAAB = 2 ^ 64 * (2 * k) + k := by omega
  have h1 : (3 * k + 1) * 0xAAAAAAAAAAAAAAAB = 2 ^ 64 * (2 * k) + (k + 0xAAAAAAAAAAAAAAAB) := by
    rw [Nat.add_mul, h0]
    omega
  have h2 : (3 * k + 2) * 0xAAAAAAAAAAAAAAAB
      = 2 ^ 64 * (2 * k + 1) + (k + 0x5555555555555556) := by
    rw [Nat.add_mul, h0]
    omega
  refine ⟨?_, ?_, ?_⟩
  · rw [h0, Nat.mul_add_mod, Nat.mod_eq_of_lt (by omega)]
  · rw [h1, Nat.mul_add_mod, Nat.mod_eq_of_lt (by omega)]
  · rw [h2, Nat.mul_add_mod, Nat.mod_eq_of_lt (by omega)]

/-- The shift and the factor, on `24 * k + r` bytes: the places, and what they take. -/
theorem request_bytes {k r : ℕ} (hk : k ≤ 2 ^ 44) :
    (r < 8 → 16 * ((24 * k + r) / 8 * 0xAAAAAAAAAAAAAAAB % 2 ^ 64) % 2 ^ 64 = 16 * k) ∧
      (8 ≤ r → r < 24 →
        2 ^ 47 ≤ 16 * ((24 * k + r) / 8 * 0xAAAAAAAAAAAAAAAB % 2 ^ 64) % 2 ^ 64) := by
  obtain ⟨h0, h1, h2⟩ := mul_inverse_three hk
  have hdiv : (24 * k + r) / 8 = 3 * k + r / 8 := by omega
  refine ⟨fun hr => ?_, fun hr hr' => ?_⟩
  · have hr0 : (24 * k + r) / 8 = 3 * k := by omega
    rw [hr0, h0]
    omega
  · obtain hr1 | hr2 : r / 8 = 1 ∨ r / 8 = 2 := by omega
    · rw [hdiv, hr1, h1]
      omega
    · rw [hdiv, hr2, h2]
      omega

/-- **A section of whole symbols**, or of less than eight bytes more, gets as many places; for any
other more is asked for than there is memory. -/
theorem TSym.request_of_mod {sym : TSym} (hle : sym.start.toNat ≤ sym.endp.toNat)
    (hend : sym.endp.toNat ≤ 2 ^ 47) :
    let size := sym.endp.toNat - sym.start.toNat
    (size % SYM_SIZE < 8 → sym.request.toNat = SYMBOL_SIZE * (size / SYM_SIZE)) ∧
      (8 ≤ size % SYM_SIZE → 2 ^ 47 ≤ sym.request.toNat) := by
  have hsize : (sym.endp - sym.start).toNat = sym.endp.toNat - sym.start.toNat :=
    BitVec.toNat_sub_of_le hle
  have hmsb : (sym.endp - sym.start).msb = false :=
    BitVec.msb_eq_false_iff_two_mul_lt.mpr (by omega)
  have hplaces : sym.places.toNat
      = (sym.endp.toNat - sym.start.toNat) / 8 * 0xAAAAAAAAAAAAAAAB % 2 ^ 64 := by
    rw [places, BitVec.toNat_mul, BitVec.toNat_sshiftRight_of_msb_false hmsb, hsize,
      Nat.shiftRight_eq_div_pow]
    rfl
  have hreq : sym.request.toNat = 16 * sym.places.toNat % 2 ^ 64 := BitVec.toNat_mul _ _
  obtain ⟨hwhole, hpart⟩ := request_bytes (k := (sym.endp.toNat - sym.start.toNat) / 24)
    (r := (sym.endp.toNat - sym.start.toNat) % 24) (by omega)
  rw [Nat.div_add_mod] at hwhole hpart
  rw [hreq, hplaces]
  exact ⟨hwhole, fun hr => hpart hr (Nat.mod_lt _ (by decide))⟩

end Ftrace
