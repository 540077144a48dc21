/-
# The symbols of a file, from its path on

`get_symbols` and `get_symbols_lib`: the file is opened and mapped by `parse_elf`, and its symbols
are read and sorted by `run_elf`.  `get_symbols` does it for the program behind `/proc/<pid>/exe`.
At the end it unmaps the address of its own variable, which fails; so the names that the table
points to stay where they are.

From a file that is stored as `ElfFormat` says, `run_elf` makes the table of the symbols that it
keeps, sorted by name (`elf_read_back`).
-/
import Ftrace.ElfFormat
import Ftrace.SortOrder

namespace Ftrace

open CText Bytes Mapped Compare ExchangeSort

/-! ## 1. From the path to the table -/

/-- `run_elf (elf)` to the end, with the sort. -/
def runElfSorted (malloc : Malloc) (gt : Text → Text → Bool) (img : Image) : Option Loaded := do
  match ← runElf malloc img with
  | .noSymbols => some .noSymbols
  | .failed => some .failed
  | .list sym es => (printSym gt sym es).map .table

/-- `get_symbols_lib (lib)`. -/
def getSymbolsLib (malloc : Malloc) (gt : Text → Text → Bool) (file : FileAt) : Option Loaded := do
  match ← parseElf file with
  | none => some .failed
  | some img => runElfSorted malloc gt img

/-- `get_symbols ()`. -/
def getSymbols (malloc : Malloc) (gt : Text → Text → Bool) (exe : FileAt) :
    Option (Option SymTab) :=
  (getSymbolsLib malloc gt exe).map Loaded.table?

/-! ## 2. The table of a stored file -/

theorem Stores.parseElf_eq {img : Image} {f : ElfFile} (h : Stores img f)
    (hlen : img.bytes.length < 2 ^ 32 - 1) : parseElf (.mapped img) = some (some img) := by
  have hsized : elfLen img.bytes.length ≠ 2 ^ 32 - 1 := by
    unfold elfLen
    omega
  rw [parseElf, elfImage_eq_self (by omega), if_neg hsized, if_pos h.checkMagicNumber_eq]

theorem Stores.runElfSorted_eq {img : Image} {f : ElfFile} (h : Stores img f) {malloc : Malloc}
    {es : List Entry} (hes : getSymEntries malloc img (shdrOf img) (symtabOf img) = some (some es))
    (gt : Text → Text → Bool) :
    runElfSorted malloc gt img = (printSym gt (symtabOf img) es).map .table := by
  rw [runElfSorted, h.runElf_eq hes]
  rfl

/-- `run_elf` returns the sorted array of a list that it has read. -/
theorem runElfSorted_eq_table {malloc : Malloc} {gt : Text → Text → Bool} {img : Image}
    {t : SymTab} (h : runElfSorted malloc gt img = some (.table t)) :
    ∃ sym es, runElf malloc img = some (.list sym es) ∧ printSym gt sym es = some t := by
  obtain ⟨r, hr, h⟩ := Option.bind_eq_some_iff.mp h
  cases r with
  | noSymbols => cases Option.some.inj h
  | failed => cases Option.some.inj h
  | list sym es =>
    obtain ⟨t', ht', heq⟩ := Option.map_eq_some_iff.mp h
    obtain rfl := Loaded.table.inj heq
    exact ⟨sym, es, hr, ht'⟩

/-- **The table of a stored file**, if there is one: that of the symbols that are kept. -/
theorem Stores.getSymbols_iff {img : Image} {f : ElfFile} (h : Stores img f)
    (hlen : img.bytes.length < 2 ^ 32 - 1) (malloc : Malloc) (gt : Text → Text → Bool)
    {t : SymTab} : getSymbols malloc gt (.mapped img) = some (some t) ↔
      ∃ es, getSymEntries malloc img (shdrOf img) (symtabOf img) = some (some es) ∧
        es.map Entry.cut = f.kept.map f.entry ∧ printSym gt (symtabOf img) es = some t := by
  have hlib : getSymbolsLib malloc gt (.mapped img) = runElfSorted malloc gt img := by
    rw [getSymbolsLib, h.parseElf_eq hlen]
    rfl
  rw [getSymbols, hlib, Option.map_eq_some_iff]
  constructor
  · rintro ⟨r, hr, ht⟩
    cases r with
    | noSymbols => cases ht
    | failed => cases ht
    | table t' =>
      obtain rfl := Option.some.inj ht
      obtain ⟨sym, es, hrun, hsorted⟩ := runElfSorted_eq_table hr
      obtain ⟨-, -, rfl, -, hes⟩ := runElf_eq_list.mp hrun
      exact ⟨es, hes, h.entries_eq hes, hsorted⟩
  · rintro ⟨es, hes, -, ht⟩
    exact ⟨.table t, by rw [h.runElfSorted_eq hes, ht]; rfl, rfl⟩

/-- The entries of a sorted table are sorted. -/
theorem printSym_sorted {cmp : Text → Text → ℤ} (hcmp : Comparator cmp) {sym : TSym}
    {es : List Entry} (htype : ∀ e ∈ es, e.type ≠ 0) (hended : WellEnded sym es) {t : SymTab}
    (h : printSym (fun x y => 0 < cmp x y) sym es = some t) :
    t.entries.Pairwise fun a b => nameCmp cmp a b ≤ 0 := by
  obtain ⟨z, rest, hz, hcells⟩ := symCells_eq hended.1
  have hnamed := named_symbols htype hended.2
  have hperm := exchangeSort_perm (fun x y => decide (0 < nameCmp cmp x y)) (es.map Entry.symbol)
  rw [printSym, hcells, sortSym_eq_exchangeSort hcmp hz rest hnamed] at h
  dsimp only at h
  split at h
  · obtain rfl := Option.some.inj h
    have hentries : SymTab.entries ⟨_, by assumption⟩
        = exchangeSort (fun x y => 0 < nameCmp cmp x y) (es.map Entry.symbol) := by
      rw [SymTab.entries, List.takeWhile_append_of_pos]
      · rw [List.takeWhile_cons_of_neg (by rw [hz]; decide), List.append_nil]
      · intro a ha
        rw [(hnamed a (hperm.subset ha)).1]
        rfl
    rw [hentries]
    exact exchangeSort_sorted (hcmp.comap fun e : TSymbol => e.name.getD []) _
  · cases h

end Ftrace
