/-
# The mappings of the maps file

`get_lib` takes a line of `/proc/<pid>/maps` apart with `strtol` and `strchr`.  Here is what the
kernel puts into such a line (`Mapping.render`), and what `get_lib` gets back out of it.

Every line is read as the mapping it was printed for (`render_read_back`); only an address in the
upper half of the address space, which the kernel has one mapping at, does not fit a `long`.  So
a lookup through a file that shows these mappings is a search of the mappings themselves, whatever
pieces the file is read in and whatever the cache holds (`mappings_searched`).
-/
import Ftrace.Lib.Numerals
import Ftrace.LibNames

namespace Ftrace

open CText Bytes Lines

/-! ## 1. What the kernel prints -/

/-- The permissions of a mapping. -/
structure Prot where
  read : Bool
  write : Bool
  exec : Bool
  shared : Bool

def Prot.text (p : Prot) : Text :=
  [if p.read then 'r' else '-', if p.write then 'w' else '-', if p.exec then 'x' else '-',
    if p.shared then 's' else 'p']

/-- A mapping of the tracee, with what is printed of it. -/
structure Mapping where
  start : Word
  stop : Word
  prot : Prot
  offset : Word
  major : ℕ
  minor : ℕ
  inode : ℕ
  /-- how many blanks there are before the path, to align it -/
  blanks : ℕ
  /-- the path, a name in brackets, or nothing -/
  path : Text
  /-- A newline of a path is escaped. -/
  one_line : '\n' ∉ path ∧ nul ∉ path
  /-- What is mapped from a file lies in the lower half of the address space. -/
  user : '/' ∈ path → start.toNat < stop.toNat ∧ stop.toNat < 2 ^ 63

/-- The device, the inode and the blanks before the path. -/
def Mapping.device (m : Mapping) : Text :=
  hexPad 2 m.major ++ ':' :: (hexPad 2 m.minor ++ ' ' :: (decNat m.inode ++ ' ' ::
    List.replicate m.blanks ' '))

/-- `%08lx-%08lx %c%c%c%c %08lx %02x:%02x %lu `, the blanks and the path. -/
def Mapping.render (m : Mapping) : Text :=
  hexPad 8 m.start.toNat ++ '-' :: (hexPad 8 m.stop.toNat ++ ' ' :: (m.prot.text ++ ' ' ::
    (hexPad 8 m.offset.toNat ++ ' ' :: (m.device ++ m.path))))

/-- The maps file. -/
def mapsText (ms : List Mapping) : Text := ms.flatMap fun m => m.render ++ ['\n']

/-- Where the file of a mapping is. -/
def Mapping.lib (m : Mapping) : Option Text := strchr m.path '/'

/-! ## 2. What a line has in it -/

/-- A character that does not come before the path. -/
def NoField (c : Char) : Prop :=
  c ≠ '-' ∧ c ≠ ' ' ∧ c ≠ ':' ∧ c ∉ "rwxsp".toList ∧ ∀ d < 16, c ≠ Nat.digitChar d

theorem lowDigits_decNat (n : ℕ) : LowDigits (decNat n) := by
  intro c hc
  obtain ⟨d, hd, rfl⟩ := mem_toDigits (by decide) hc
  exact ⟨d, by omega, rfl⟩

theorem NoField.not_mem_lowDigits {c : Char} (hc : NoField c) {t : Text} (ht : LowDigits t) :
    c ∉ t :=
  ht.not_mem hc.2.2.2.2

theorem NoField.not_mem_prot {c : Char} (hc : NoField c) (p : Prot) : c ∉ p.text := by
  intro h
  have hmem : c = '-' ∨ c ∈ "rwxsp".toList := by
    unfold Prot.text at h
    revert h
    cases p.read <;> cases p.write <;> cases p.exec <;> cases p.shared <;> simp <;> tauto
  rcases hmem with h | h
  · exact hc.1 h
  · exact hc.2.2.2.1 h

theorem NoField.not_mem_device {c : Char} (hc : NoField c) (m : Mapping) : c ∉ m.device := by
  have hblanks : c ∉ List.replicate m.blanks ' ' := fun h => hc.2.1 (List.eq_of_mem_replicate h)
  simp only [Mapping.device, List.mem_append, List.mem_cons, not_or]
  exact ⟨hc.not_mem_lowDigits (lowDigits_hexPad _ _), hc.2.2.1,
    hc.not_mem_lowDigits (lowDigits_hexPad _ _), hc.2.1,
    hc.not_mem_lowDigits (lowDigits_decNat _), hc.2.1, hblanks⟩

/-- What comes before the path. -/
def Mapping.front (m : Mapping) : Text :=
  hexPad 8 m.start.toNat ++ '-' :: (hexPad 8 m.stop.toNat ++ ' ' :: (m.prot.text ++ ' ' ::
    (hexPad 8 m.offset.toNat ++ ' ' :: m.device)))

theorem Mapping.render_eq (m : Mapping) : m.render = m.front ++ m.path := by
  simp [Mapping.render, Mapping.front]

theorem NoField.not_mem_front {c : Char} (hc : NoField c) (m : Mapping) : c ∉ m.front := by
  simp only [Mapping.front, List.mem_append, List.mem_cons, not_or]
  exact ⟨hc.not_mem_lowDigits (lowDigits_hexPad _ _), hc.1,
    hc.not_mem_lowDigits (lowDigits_hexPad _ _), hc.2.1, hc.not_mem_prot _, hc.2.1,
    hc.not_mem_lowDigits (lowDigits_hexPad _ _), hc.2.1, hc.not_mem_device m⟩

/-- Such a character is in a line only if it is in its path. -/
theorem NoField.not_mem_render {c : Char} (hc : NoField c) {m : Mapping} (hpath : c ∉ m.path) :
    c ∉ m.render := by
  rw [Mapping.render_eq, List.mem_append, not_or]
  exact ⟨hc.not_mem_front m, hpath⟩

theorem noField_newline : NoField '\n' := by unfold NoField; decide

theorem noField_nul : NoField nul := by unfold NoField; decide

theorem noField_slash : NoField '/' := by unfold NoField; decide

theorem Mapping.newline_not_mem (m : Mapping) : '\n' ∉ m.render :=
  noField_newline.not_mem_render m.one_line.1

/-! ## 3. Reading it back -/

/-- A number as `strtol` has it. -/
def asLong (w : Word) : Word := BitVec.ofNat 64 (min w.toNat (2 ^ 63 - 1))

theorem asLong_eq_self {w : Word} (h : w.toNat < 2 ^ 63) : asLong w = w := by
  rw [asLong, Nat.min_eq_left (by omega)]
  simp

theorem ofInt_strtol16 (k : ℕ) (w : Word) {rest : Text} (h : EndsNumeral rest) :
    BitVec.ofInt 64 (strtol16 (hexPad k w.toNat ++ rest)) = asLong w := by
  have hcast : min (w.toNat : ℤ) (2 ^ 63 - 1) = ((min w.toNat (2 ^ 63 - 1) : ℕ) : ℤ) := by
    omega
  rw [strtol16_hexPad k _ h, hcast, BitVec.ofInt_natCast, asLong]

/-- A field and the blank behind it, passed over. -/
theorem nextField_append {t u : Text} (ht : ' ' ∉ t) (hu : u.head? ≠ some ' ') :
    nextField (t ++ ' ' :: u) = u := by
  have hfield : (t ++ ' ' :: u).dropWhile (fun c => c != ' ') = ' ' :: u := by
    rw [List.dropWhile_append_of_pos, List.dropWhile_cons_of_neg (by simp)]
    intro c hc
    simp only [bne_iff_ne]
    rintro rfl
    exact ht hc
  rw [nextField, hfield, List.dropWhile_cons_of_pos (by simp)]
  cases u with
  | nil => rfl
  | cons c u =>
    refine List.dropWhile_cons_of_neg ?_
    simp only [beq_iff_eq]
    rintro rfl
    exact hu rfl

theorem mapsBegin_render (m : Mapping) : mapsBegin m.render = asLong m.start :=
  ofInt_strtol16 8 m.start (endsNumeral_cons (by decide) _)

theorem mapsEnd_render (m : Mapping) : mapsEnd m.render = asLong m.stop := by
  have hdigits := lowDigits_hexPad 8 m.start.toNat
  have hnul : nul ∉ hexPad 8 m.start.toNat := noField_nul.not_mem_lowDigits hdigits
  have hdash : '-' ∉ hexPad 8 m.start.toNat := hdigits.not_mem (by decide)
  have hchr : strchr m.render '-' = some ('-' :: cstr (hexPad 8 m.stop.toNat ++ ' ' ::
      (m.prot.text ++ ' ' :: (hexPad 8 m.offset.toNat ++ ' ' :: (m.device ++ m.path))))) := by
    rw [Mapping.render, strchr_append hnul hdash, strchr_cons_self (by decide)]
  rw [mapsEnd, hchr]
  dsimp only
  rw [cstr_append_of_lowDigits (lowDigits_hexPad _ _), cstr_cons_of_ne (by decide)]
  exact ofInt_strtol16 8 m.stop (endsNumeral_cons (by decide) _)

theorem mapsLib_render (m : Mapping) : mapsLib m.render = m.lib := by
  rw [mapsLib, Mapping.render_eq, strchr_append (noField_nul.not_mem_front m)
    (noField_slash.not_mem_front m), Mapping.lib]

theorem mapsOffset_render (m : Mapping) : mapsOffset m.render = asLong m.offset := by
  have hdigits (k n : ℕ) : ' ' ∉ hexPad k n := (lowDigits_hexPad k n).not_mem (by decide)
  have hhead (k n : ℕ) (u : Text) : (hexPad k n ++ u).head? ≠ some ' ' := by
    obtain ⟨c, t, ht⟩ := List.exists_cons_of_ne_nil (hexPad_ne_nil k n)
    intro h
    refine hdigits k n ?_
    rw [ht] at h ⊢
    obtain rfl : c = ' ' := Option.some.inj h
    exact List.mem_cons_self
  have hprot : ' ' ∉ m.prot.text ∧ ∀ u, (m.prot.text ++ u).head? ≠ some ' ' := by
    obtain ⟨r, w, x, sh⟩ := m.prot
    cases r <;> cases w <;> cases x <;> cases sh <;> exact ⟨by decide, fun _ => by simp [Prot.text]⟩
  have hfirst : nextField m.render = m.prot.text ++ ' ' ::
      (hexPad 8 m.offset.toNat ++ ' ' :: (m.device ++ m.path)) := by
    have hrange : ' ' ∉ hexPad 8 m.start.toNat ++ '-' :: hexPad 8 m.stop.toNat := by
      simp only [List.mem_append, List.mem_cons, not_or]
      exact ⟨hdigits _ _, by decide, hdigits _ _⟩
    rw [Mapping.render, ← List.cons_append, ← List.append_assoc]
    exact nextField_append hrange (hprot.2 _)
  rw [mapsOffset, hfirst, nextField_append hprot.1 (hhead _ _ _)]
  exact ofInt_strtol16 8 m.offset (endsNumeral_cons (by decide) _)

/-- **Every line is read as its mapping**: what `get_lib` takes for the range, the file and the
offset are those of the mapping, as far as they fit a `long`. -/
theorem render_read_back (m : Mapping) :
    mapsBegin m.render = asLong m.start ∧ mapsEnd m.render = asLong m.stop ∧
      mapsLib m.render = m.lib ∧ mapsOffset m.render = asLong m.offset :=
  ⟨mapsBegin_render m, mapsEnd_render m, mapsLib_render m, mapsOffset_render m⟩

/-! ## 4. Searching the mappings -/

/-- The lines of the file are the mappings. -/
theorem linesOf_mapsText (ms : List Mapping) : linesOf (mapsText ms) = ms.map Mapping.render := by
  induction ms with
  | nil => rfl
  | cons m ms ih =>
    have hcons : mapsText (m :: ms) = m.render ++ '\n' :: mapsText ms := by
      simp [mapsText]
    rw [hcons, linesOf_line m.newline_not_mem, ih, List.map_cons]

/-- The mapping holds the address, its first byte apart, or starts at the header. -/
def Mapping.Selected (m : Mapping) (addr baseElf : Word) : Prop :=
  (m.start < addr ∧ addr < m.stop) ∨ m.start = baseElf

instance (m : Mapping) (addr baseElf : Word) : Decidable (m.Selected addr baseElf) :=
  inferInstanceAs (Decidable (_ ∨ _))

/-- The library of a mapping, and the entry of its table at the address. -/
def Mapping.names (libs : Libs) (addr baseElf : Word) (m : Mapping) : Option (Text × Entry) :=
  if m.Selected addr baseElf then
    m.lib.bind fun lib => ((libs lib).entryAt (addr - m.start)).map fun e => (lib, e)
  else none

/-- A mapping with a file has its addresses in the lower half. -/
theorem Mapping.asLong_of_lib {m : Mapping} {lib : Text} (h : m.lib = some lib) :
    asLong m.start = m.start ∧ asLong m.stop = m.stop := by
  have hslash : '/' ∈ m.path := by
    by_contra hno
    rw [Mapping.lib, ← List.append_nil m.path, strchr_append m.one_line.2 hno] at h
    cases h
  obtain ⟨hlt, hstop⟩ := m.user hslash
  exact ⟨asLong_eq_self (by omega), asLong_eq_self hstop⟩

/-- **A line contributes what its mapping names.** -/
theorem contribution_render (libs : Libs) (addr baseElf : Word) (m : Mapping) :
    contribution libs addr baseElf m.render
      = (m.names libs addr baseElf).map fun p => ⟨m.render, p.1, p.2⟩ := by
  rw [contribution, Mapping.names, mapsSelected, mapsBegin_render, mapsEnd_render, mapsLib_render]
  cases hlib : m.lib with
  | none =>
    split
    · rename_i h
      cases h
    · simp
  | some lib =>
    obtain ⟨hstart, hstop⟩ := Mapping.asLong_of_lib hlib
    rw [hstart, hstop]
    by_cases hsel : m.Selected addr baseElf
    · have hdec : (decide (m.start < addr) && decide (addr < m.stop) ||
          decide (m.start = baseElf)) = true := by
        simpa [Mapping.Selected] using hsel
      rw [hdec, if_pos hsel]
      simp [Option.map_map, Function.comp_def]
    · have hdec : (decide (m.start < addr) && decide (addr < m.stop) ||
          decide (m.start = baseElf)) = false := by
        simpa [Mapping.Selected] using hsel
      rw [hdec, if_neg hsel]
      rfl

/-- The first mapping that names the address. -/
def searchMappings (libs : Libs) (addr baseElf : Word) (ms : List Mapping) :
    Option (Mapping × Text × Entry) :=
  ms.findSome? fun m => (m.names libs addr baseElf).map fun p => (m, p)

/-- What is printed for an address: the name, and the library it is from. -/
def namedText (p : Text × Entry) : Text :=
  " ".toList ++ p.2.symbol.text ++ " (".toList ++ p.1 ++ ")".toList

/-- The complaint of `run_elf` about each of `k` libraries. -/
def complaints (k : ℕ) : Text := (List.replicate k "No symbols\n".toList).flatten

theorem complaints_append (j k : ℕ) (t : Text) :
    complaints j ++ (complaints k ++ t) = complaints (j + k) ++ t := by
  rw [complaints, complaints, complaints, List.replicate_add, List.flatten_append,
    List.append_assoc]

/-- Loading a library complains at most once. -/
theorem exists_complaints (l : Loaded) : ∃ k, l.printed = complaints k := by
  cases l with
  | table t => exact ⟨0, rfl⟩
  | noSymbols => exact ⟨1, rfl⟩
  | failed => exact ⟨0, rfl⟩

/-- **The text of one line**: complaints, and then the name if the line has one. -/
theorem getLibLine_out {libs : Libs} {cache : List (Text × SymTab)} (hc : CacheOk libs cache)
    (addr baseElf : Word) (line : Text) :
    ∃ k, (getLibLine libs.loader addr baseElf cache line).out = complaints k ++
      ((contribution libs addr baseElf line).map fun c => namedText (c.lib, c.entry)).getD [] := by
  rw [getLibLine, contribution]
  cases hsel : mapsSelected addr baseElf line with
  | false => exact ⟨0, rfl⟩
  | true =>
    cases hlib : mapsLib line with
    | none => exact ⟨0, rfl⟩
    | some lib =>
      obtain ⟨htab, -⟩ := libTable_spec hc lib
      have hout : ∃ k, (libTable libs.loader cache lib).2.2 = complaints k := by
        unfold libTable
        split
        · exact ⟨0, rfl⟩
        · split <;> exact exists_complaints _
      obtain ⟨k, hk⟩ := hout
      rcases ht : libTable libs.loader cache lib with ⟨sym, cache', out⟩
      rw [ht] at htab hk
      simp only at htab hk
      simp only [htab, hk, resolveSymbolLib_loaded, ht]
      refine ⟨k, ?_⟩
      cases (libs lib).entryAt (addr - mapsBegin line) with
      | none => exact (List.append_nil _).symm
      | some e => simp [namedText]

/-- **The text of a scan**: complaints, and then the name that it comes to. -/
theorem scanLines_out {libs : Libs} (addr baseElf : Word) {cache : List (Text × SymTab)}
    (hc : CacheOk libs cache) (lines : List Text) :
    ∃ k, (scanLines libs.loader addr baseElf cache lines).out = complaints k ++
      ((lines.findSome? (contribution libs addr baseElf)).map fun c =>
        namedText (c.lib, c.entry)).getD [] := by
  induction lines generalizing cache with
  | nil => exact ⟨0, rfl⟩
  | cons line lines ih =>
    obtain ⟨hfound, hc'⟩ := getLibLine_spec hc addr baseElf line
    obtain ⟨j, hj⟩ := getLibLine_out hc addr baseElf line
    rw [scanLines, List.findSome?_cons]
    cases hcon : contribution libs addr baseElf line with
    | none =>
      rw [hcon] at hfound hj
      obtain ⟨k, hk⟩ := ih hc'
      simp only [hfound, Option.map_none, Option.getD_none, List.append_nil] at hj ⊢
      refine ⟨j + k, ?_⟩
      rw [hj, hk, complaints_append]
    | some c =>
      rw [hcon] at hfound hj
      simp only [hfound, Option.map_some]
      exact ⟨j, hj⟩

/-- The search over the lines is that over the mappings. -/
theorem findSome?_render (libs : Libs) (addr baseElf : Word) (ms : List Mapping) :
    (ms.map Mapping.render).findSome? (contribution libs addr baseElf)
      = (searchMappings libs addr baseElf ms).map fun p => ⟨p.1.render, p.2.1, p.2.2⟩ := by
  induction ms with
  | nil => rfl
  | cons m ms ih =>
    rw [List.map_cons, List.findSome?_cons, contribution_render, searchMappings,
      List.findSome?_cons]
    cases m.names libs addr baseElf with
    | none => exact ih
    | some p => rfl

/-- **One lookup**, over the mappings that its file shows. -/
theorem run_mappings {libs : Libs} {s : LibState} (hcache : CacheOk libs s.listLib) {q : Query}
    {f : MapsFile} {ms : List Mapping} (hf : q.maps = some f) (hfresh : leftover s.pile f.fd = [])
    (hreads : WholeReads f.reads) (hms : content f.reads = mapsText ms) :
    let found := searchMappings libs q.addr (findHeader q.mem q.addr) ms
    (q.run libs s).found = found.map (fun p => (p.1.render, p.2.2.symbol)) ∧
      ∃ k, (q.run libs s).out = complaints k ++ (found.map fun p => namedText p.2).getD [] := by
  have hlines : nextLines (lineFuel s.pile f.fd f.reads) s.pile f.fd f.reads
      = ms.map Mapping.render := by
    rw [nextLines_eq_linesOf hreads (length_lines_lt_lineFuel s.pile f.fd f.reads), hfresh,
      List.nil_append, hms, linesOf_mapsText]
  have hrun : q.run libs s = getLib libs.loader q.addr (findHeader q.mem q.addr) f s := by
    rw [Query.run, hf]
    rfl
  have hscan := getLibLoop_eq_scanLines libs.loader q.addr (findHeader q.mem q.addr)
    (lineFuel s.pile f.fd f.reads) f.fd s f.reads
  dsimp only at hscan ⊢
  rw [hlines] at hscan
  obtain ⟨hfound, -⟩ := scanLines_spec q.addr (findHeader q.mem q.addr) hcache
    (ms.map Mapping.render)
  obtain ⟨k, hout⟩ := scanLines_out q.addr (findHeader q.mem q.addr) hcache
    (ms.map Mapping.render)
  rw [hscan, findSome?_render, Option.map_map] at hfound hout
  rw [hrun, getLib]
  exact ⟨hfound, k, hout⟩

/-- **A lookup is a search of the mappings.**  Where no text waits under the number of the
descriptor and the reads cut no line, the name printed is the one that the first mapping to have
one has for the address, after any lookups before and with whatever they have cached. -/
theorem mappings_searched (libs : Libs) (before : List Query) (q : Query) {f : MapsFile}
    {ms : List Mapping} (hf : q.maps = some f)
    (hfresh : leftover (stateAfter libs {} before).pile f.fd = []) (hreads : WholeReads f.reads)
    (hms : content f.reads = mapsText ms) :
    let found := searchMappings libs q.addr (findHeader q.mem q.addr) ms
    let r := q.run libs (stateAfter libs {} before)
    r.found = found.map (fun p => (p.1.render, p.2.2.symbol)) ∧
      ∃ k, r.out = complaints k ++ (found.map fun p => namedText p.2).getD [] :=
  run_mappings (cacheOk_stateAfter libs before (cacheOk_nil libs)) hf hfresh hreads hms

/-- The first segment of a library, mapped at 0x1000. -/
def libraryAt : Mapping where
  start := 0x1000
  stop := 0x2000
  prot := ⟨true, false, true, false⟩
  offset := 0
  major := 0
  minor := 0
  inode := 1
  blanks := 0
  path := "/lib/a".toList
  one_line := by decide
  user := by decide

/-- Its file, in two reads, and a call 0x10 into it. -/
def libraryFile : MapsFile where
  fd := 3
  reads := [some ((mapsText [libraryAt]).take 42), some ((mapsText [libraryAt]).drop 42)]

theorem mappings_searched_library :
    let r := (⟨0x1010, Mem.empty, some libraryFile⟩ : Query).run segmentLibs {}
    r.found = some (libraryAt.render, ⟨0x10, charByte 'T', some ['f']⟩) ∧
      ∃ k, r.out = complaints k ++ " f (/lib/a)".toList := by
  have hreads : WholeReads libraryFile.reads :=
    ⟨⟨by decide +kernel, by decide +kernel, by decide +kernel⟩, .inr (.inl (by decide +kernel)),
      ⟨by decide +kernel, by decide +kernel, by decide +kernel⟩, .inl rfl, trivial⟩
  have hms : content libraryFile.reads = mapsText [libraryAt] := by decide +kernel
  have h := mappings_searched segmentLibs [] ⟨0x1010, Mem.empty, some libraryFile⟩ rfl (by decide)
    hreads hms
  rw [findHeader_empty] at h
  exact h

end Ftrace
