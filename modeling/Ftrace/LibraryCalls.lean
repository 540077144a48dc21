/-
# A call into a library, from the files to the line

`ElfFormat` says what is loaded from a file, and `MapsFormat` what is searched for an address.
Together: a call to a function of a library, by any path through `resolve_symbol` that reaches the
libraries, is printed with the name that the library's own file gives the function
(`library_call_named`).
-/
import Ftrace.ElfFormat
import Ftrace.MapsFormat

namespace Ftrace

open CText Bytes Mapped

/-- The table of a library is what `get_symbols_lib` makes of the image of its file. -/
def LoadedFrom (malloc : Malloc) (gt : Text → Text → Bool) (img : Image) (l : LibTable) : Prop :=
  ∃ es, runElf malloc img = some (.list (symtabOf img) es) ∧
    printSym gt (symtabOf img) es = some l.table ∧ l.entries.Perm es

/-- A library whose image stores a file has a table. -/
theorem Stores.exists_loaded {malloc : Malloc} (gt : Text → Text → Bool) {img : Image}
    {f : ElfFile} (h : Stores img f) (hnull : ∃ s ∈ f.symbols, isKept s.info.toNat = false)
    (hgives : malloc.gives (BitVec.ofNat 64 (SYMBOL_SIZE * f.symbols.length)) = true) :
    ∃ l, LoadedFrom malloc gt img l := by
  obtain ⟨es, hes, hmap⟩ := h.exists_entries hgives
  obtain ⟨t, es', ht, hp, hholds⟩ :=
    printSym_spec gt (getSymEntries_type hes) (h.wellEnded hnull hmap)
  exact ⟨⟨t, es', hholds⟩, es, h.runElf_eq hes, ht, hp⟩

/-- The entries of a library whose image stores a file. -/
theorem LoadedFrom.entries {malloc : Malloc} {gt : Text → Text → Bool} {img : Image} {l : LibTable}
    (hl : LoadedFrom malloc gt img l) {f : ElfFile} (h : Stores img f) :
    (l.entries.map Entry.cut).Perm (f.kept.map f.entry) := by
  obtain ⟨es, hrun, -, hp⟩ := hl
  obtain ⟨-, -, -, -, hes⟩ := runElf_eq_list.mp hrun
  rw [← h.entries_eq hes]
  exact hp.map Entry.cut

/-- **The entry at the value of a symbol** has its name, if all symbols there have. -/
theorem entryAt_of_kept {malloc : Malloc} {gt : Text → Text → Bool} {img : Image} {l : LibTable}
    {f : ElfFile} (hl : LoadedFrom malloc gt img l) (h : Stores img f)
    {s : Elf64Sym} (hs : s ∈ f.kept) (hlow : s.value.toNat < 2 ^ 32) (hne : s.value ≠ 0)
    (hsame : ∀ s' ∈ f.kept, s'.value.toNat % 2 ^ 32 = s.value.toNat → f.nameOf s' = f.nameOf s) :
    ∃ e, (LibFile.symbols l).entryAt s.value = some e ∧ e.symbol.text = f.nameOf s := by
  have hp := hl.entries h
  have hnamed : (l.entries.takeWhile fun e => e.name.isSome) = l.entries := by
    rw [List.takeWhile_eq_self_iff]
    intro e he
    obtain ⟨s', -, -, hname⟩ := exists_kept_of_entry hp he
    obtain ⟨t, hn, -⟩ := Option.map_eq_some_iff.mp hname
    rw [hn]
    rfl
  -- there is an entry at the value, so the search comes to one
  obtain ⟨e₀, he₀, hcut₀⟩ := List.mem_map.mp (hp.symm.subset (List.mem_map_of_mem hs))
  have hvalue₀ : e₀.stValue = s.value := congrArg Entry.stValue hcut₀
  have hhas₀ : e₀.symbol.hasAddr s.value = true := by
    rw [hasAddr_iff, hvalue₀, Nat.mod_eq_of_lt hlow]
  have hfound : (l.entries.find? fun e => e.symbol.hasAddr s.value).isSome = true :=
    List.find?_isSome.mpr ⟨e₀, he₀, hhas₀⟩
  obtain ⟨e, he⟩ := Option.isSome_iff_exists.mp hfound
  refine ⟨e, ?_, ?_⟩
  · rw [LibFile.entryAt, if_neg hne, hnamed, he]
  · obtain ⟨s', hs', hvalue, hname⟩ := exists_kept_of_entry hp (List.mem_of_find?_eq_some he)
    have hhas := (hasAddr_iff e s.value).mp
      (List.find?_some (p := fun e : Entry => e.symbol.hasAddr s.value) he)
    rw [← hvalue] at hhas
    rw [← hsame s' hs' hhas]
    obtain ⟨t, hn, ht⟩ := Option.map_eq_some_iff.mp hname
    rw [← ht, TSymbol.text, Entry.symbol, hn]

/-- The first mapping that is selected is the one that is searched, if it names the address. -/
theorem searchMappings_of_first {libs : Libs} {addr baseElf : Word} {pre post : List Mapping}
    {m : Mapping} {p : Text × Entry} (hpre : ∀ m' ∈ pre, ¬ m'.Selected addr baseElf)
    (hm : m.names libs addr baseElf = some p) :
    searchMappings libs addr baseElf (pre ++ m :: post) = some (m, p) := by
  have hnone : pre.findSome? (fun m => (m.names libs addr baseElf).map fun p => (m, p)) = none := by
    refine List.findSome?_eq_none_iff.mpr fun m' hm' => ?_
    rw [Mapping.names, if_neg (hpre m' hm')]
    rfl
  rw [searchMappings, List.findSome?_append, hnone, Option.none_or, List.findSome?_cons, hm]
  rfl

/-- **A call to a function of a library is printed with its name**, as the library's file has it,
if the first mapping around the call's target, or at the header found below it, is that of the
library's first byte. -/
theorem library_call_named (malloc : Malloc) (gt : Text → Text → Bool) {libs : Libs}
    {before : List Query} {q : Query}
    {file : MapsFile} {pre post : List Mapping} {m : Mapping} {lib : Text} {l : LibTable}
    {img : Image} {f : ElfFile} {fn : Elf64Sym} {t : SymTab} {isACall : ℕ}
    (hmaps : q.maps = some file)
    (hfresh : leftover (stateAfter libs {} before).pile file.fd = [])
    (hreads : WholeReads file.reads) (hms : content file.reads = mapsText (pre ++ m :: post))
    (hpre : ∀ m' ∈ pre, ¬ m'.Selected q.addr (findHeader q.mem q.addr))
    (hlib : m.lib = some lib) (hlibs : libs lib = .symbols l) (hloaded : LoadedFrom malloc gt img l)
    (hstores : Stores img f) (hfn : fn ∈ f.kept) (hlow : fn.value.toNat < 2 ^ 32)
    (hne : fn.value ≠ 0)
    (hsame : ∀ s ∈ f.kept, s.value.toNat % 2 ^ 32 = fn.value.toNat → f.nameOf s = f.nameOf fn)
    (haddr : q.addr = m.start + fn.value) (hin : m.start.toNat + fn.value.toNat < m.stop.toNat)
    (hself : t.at q.addr = []) (hcall : isACall ≠ 0) :
    ∃ k, (resolveSymbol libs.loader q.mem q.maps q.addr (some t) isACall
        (stateAfter libs {} before)).out
      = " .....".toList ++ (complaints k ++ (" ".toList ++ f.nameOf fn ++ " (".toList ++ lib ++
          ")".toList)) ++ "\n".toList := by
  obtain ⟨e, hat, htext⟩ := entryAt_of_kept hloaded hstores hfn hlow hne hsame
  have hstop : m.stop.toNat < 2 ^ 64 := m.stop.isLt
  have hvalue : 0 < fn.value.toNat := by
    refine Nat.pos_of_ne_zero fun h0 => hne ?_
    exact BitVec.eq_of_toNat_eq h0
  have htarget : q.addr.toNat = m.start.toNat + fn.value.toNat := by
    rw [haddr, BitVec.toNat_add]
    omega
  have hnonzero : q.addr ≠ 0 := by
    intro h0
    rw [h0] at htarget
    have hz : (0 : Word).toNat = 0 := rfl
    omega
  have hsel : m.Selected q.addr (findHeader q.mem q.addr) := by
    refine .inl ⟨BitVec.lt_def.mpr ?_, BitVec.lt_def.mpr ?_⟩ <;> omega
  have hoff : q.addr - m.start = fn.value := by
    rw [haddr, add_sub_cancel_left]
  have hnames : m.names libs q.addr (findHeader q.mem q.addr) = some (lib, e) := by
    rw [Mapping.names, if_pos hsel, hlib, Option.bind_some, hlibs, hoff, hat]
    rfl
  have hsearch : searchMappings libs q.addr (findHeader q.mem q.addr) (pre ++ m :: post)
      = some (m, (lib, e)) := searchMappings_of_first hpre hnames
  obtain ⟨-, k, hout⟩ := run_mappings (cacheOk_stateAfter libs before (cacheOk_nil libs)) hmaps
    hfresh hreads hms
  rw [hsearch, Option.map_some, Option.getD_some, namedText, htext] at hout
  refine ⟨k, ?_⟩
  rw [resolveSymbol, if_neg (not_or.mpr ⟨hnonzero, hcall⟩), if_neg (not_ne_iff.mpr hself), ← hout]
  rfl

/-- A call 0x10 into the library that is mapped at 0x1000, whose file has `f` there. -/
theorem library_call_named_f : ∃ libs : Libs, ∃ k,
    (resolveSymbol libs.loader Mem.empty (some libraryFile) 0x1010
        (some ⟨[⟨0, 0, none⟩], rfl⟩) 1 {}).out
      = " .....".toList ++ (complaints k ++ " f (/lib/a)".toList) ++ "\n".toList := by
  obtain ⟨l, hl⟩ := @Stores.exists_loaded .ample (fun _ _ => false) _ _ smallImage_stores
    ⟨⟨0, 0, 0, 0, 0, 0⟩, List.mem_cons_self, rfl⟩ (by decide)
  have hreads : WholeReads libraryFile.reads :=
    ⟨⟨by decide +kernel, by decide +kernel, by decide +kernel⟩, .inr (.inl (by decide +kernel)),
      ⟨by decide +kernel, by decide +kernel, by decide +kernel⟩, .inl rfl, trivial⟩
  have hms : content libraryFile.reads = mapsText ([] ++ libraryAt :: []) := by decide +kernel
  let q : Query := ⟨0x1010, Mem.empty, some libraryFile⟩
  let fn : Elf64Sym := ⟨1, 0x12, 0, 0xFFF1, 0x10, 0⟩
  have hkept : smallFile.kept = [fn] := rfl
  have hfn : fn ∈ smallFile.kept := by rw [hkept]; exact List.mem_cons_self
  have hsame : ∀ s ∈ smallFile.kept, s.value.toNat % 2 ^ 32 = fn.value.toNat →
      smallFile.nameOf s = smallFile.nameOf fn := by
    intro s hs _
    rw [hkept] at hs
    rw [List.mem_singleton.mp hs]
  let libs : Libs := fun _ => .symbols l
  have hfresh : leftover (stateAfter libs {} []).pile libraryFile.fd = [] := rfl
  have hmaps : q.maps = some libraryFile := rfl
  have hlib : libraryAt.lib = some "/lib/a".toList := by decide
  have hnone : ∀ m ∈ [], ¬ Mapping.Selected m q.addr (findHeader q.mem q.addr) :=
    fun _ h => absurd h List.not_mem_nil
  exact ⟨libs, library_call_named _ _ hmaps hfresh hreads hms hnone hlib rfl hl smallImage_stores hfn
    (by decide) (by decide) hsame rfl (by decide) (by decide) (by decide)⟩

end Ftrace
