/-
# The cache of library tables

`get_lib` keeps the tables it has loaded in a static list.  A path is looked up in the list
first, loaded if it is not there, and pushed if loading gave a table; a load that failed is
tried again by the next line with that path.

The list never has a path twice, nor a table that loading would not give
(`cacheInvariant_stateAfterCalls`), and what a call prints is what a `get_lib` without the list
would print (`cache_transparent`).
-/
import Ftrace.ResolveSymbols

namespace Ftrace

open CText

/-! ## 1. The cache -/

/-- Each cached table is what loading its path gives. -/
def Cached (load : Loader) (cache : List (Text × SymTab)) : Prop :=
  ∀ p ∈ cache, (load p.1).table? = some p.2

/-- At most one element for a path, each with the table that was loaded for it. -/
structure CacheInvariant (load : Loader) (cache : List (Text × SymTab)) : Prop where
  once : (cache.map Prod.fst).Nodup
  cached : Cached load cache

theorem cacheInvariant_nil (load : Loader) : CacheInvariant load [] :=
  ⟨List.nodup_nil, fun _ h => absurd h List.not_mem_nil⟩

/-- A path that the search does not find is not in the cache. -/
theorem getSymbolsByLib_eq_none {cache : List (Text × SymTab)} {lib : Text}
    (h : getSymbolsByLib cache lib = none) : lib ∉ cache.map Prod.fst := by
  rw [getSymbolsByLib, Option.map_eq_none_iff, List.find?_eq_none] at h
  intro hmem
  obtain ⟨p, hp, rfl⟩ := List.mem_map.mp hmem
  exact h p hp (decide_eq_true rfl)

/-- A table that the search finds is what loading the path gives. -/
theorem Cached.load_of_getSymbolsByLib {load : Loader} {cache : List (Text × SymTab)}
    (hc : Cached load cache) {lib : Text} {t : SymTab} (h : getSymbolsByLib cache lib = some t) :
    load lib = .table t := by
  obtain ⟨p, hfind, rfl⟩ := Option.map_eq_some_iff.mp h
  have hfound := List.find?_some hfind
  have hpath : p.1 = lib := of_decide_eq_true hfound
  have hp := hc p (List.mem_of_find?_eq_some hfind)
  rw [hpath] at hp
  cases hl : load lib with
  | table t' =>
    rw [hl] at hp
    rw [Option.some.inj hp]
  | noSymbols =>
    rw [hl] at hp
    cases hp
  | failed =>
    rw [hl] at hp
    cases hp

/-- **The table for a path**, and what is printed for it, is what loading it gives. -/
theorem libTable_eq_load {load : Loader} {cache : List (Text × SymTab)} (hc : Cached load cache)
    (lib : Text) : (libTable load cache lib).1 = (load lib).table? ∧
      (libTable load cache lib).2.2 = (load lib).printed := by
  unfold libTable
  cases hget : getSymbolsByLib cache lib with
  | some t =>
    rw [hc.load_of_getSymbolsByLib hget]
    exact ⟨rfl, rfl⟩
  | none =>
    cases htab : (load lib).table? with
    | some t => exact ⟨rfl, rfl⟩
    | none => exact ⟨rfl, rfl⟩

/-- The cache stays true. -/
theorem Cached.libTable {load : Loader} {cache : List (Text × SymTab)} (hc : Cached load cache)
    (lib : Text) : Cached load (libTable load cache lib).2.1 := by
  unfold Ftrace.libTable
  cases hget : getSymbolsByLib cache lib with
  | some t => exact hc
  | none =>
    cases htab : (load lib).table? with
    | none => exact hc
    | some t =>
      intro p hp
      rcases List.mem_cons.mp hp with rfl | hp
      · exact htab
      · exact hc p hp

/-- No path comes into it a second time. -/
theorem CacheInvariant.libTable {load : Loader} {cache : List (Text × SymTab)}
    (hc : CacheInvariant load cache) (lib : Text) :
    CacheInvariant load (libTable load cache lib).2.1 := by
  refine ⟨?_, hc.cached.libTable lib⟩
  unfold Ftrace.libTable
  cases hget : getSymbolsByLib cache lib with
  | some t => exact hc.once
  | none =>
    cases (load lib).table? with
    | none => exact hc.once
    | some t =>
      rw [List.map_cons, List.nodup_cons]
      exact ⟨getSymbolsByLib_eq_none hget, hc.once⟩

/-! ## 2. `get_lib` without the cache -/

/-- The body of the loop: what is printed, and the symbol that was found. -/
def reloadLine (load : Loader) (addr baseElf : Word) (str : Text) : Text × Option TSymbol :=
  match mapsSelected addr baseElf str, mapsLib str with
  | true, some lib =>
    match resolveSymbolLib (addr - mapsBegin str) (load lib).table? with
    | some s => ((load lib).printed ++ " ".toList ++ s.text ++ " (".toList ++ lib ++ ")".toList,
        some s)
    | none => ((load lib).printed, none)
  | _, _ => ([], none)

/-- The loop, for at most `n` lines: what is printed, and the descriptors after it. -/
def reloadLoop (load : Loader) (addr baseElf : Word) : ℕ → ℤ → List TFd → Reads → Text × List TFd
  | 0, _, pile, _ => ([], pile)
  | n + 1, fd, pile, reads =>
    match getNextLine pile fd reads with
    | (none, pile, _) => ([], pile)
    | (some str, pile, rest) =>
      let l := reloadLine load addr baseElf str
      match l.2 with
      | some _ => (l.1, pile)
      | none =>
        let r := reloadLoop load addr baseElf n fd pile rest
        (l.1 ++ r.1, r.2)

/-- A `get_lib` that loads the table for every line that fits. -/
def reloadLib (load : Loader) (addr baseElf : Word) (f : MapsFile) (pile : List TFd) :
    Text × List TFd :=
  reloadLoop load addr baseElf (lineFuel pile f.fd f.reads) f.fd pile f.reads

/-! ## 3. The two side by side -/

/-- **One line** prints the same, finds the same and keeps the invariant. -/
theorem getLibLine_reload {load : Loader} {cache : List (Text × SymTab)}
    (hc : CacheInvariant load cache) (addr baseElf : Word) (str : Text) :
    (getLibLine load addr baseElf cache str).out = (reloadLine load addr baseElf str).1 ∧
      (getLibLine load addr baseElf cache str).found = (reloadLine load addr baseElf str).2 ∧
      CacheInvariant load (getLibLine load addr baseElf cache str).listLib := by
  unfold getLibLine reloadLine
  cases mapsSelected addr baseElf str with
  | false => exact ⟨rfl, rfl, hc⟩
  | true =>
    cases mapsLib str with
    | none => exact ⟨rfl, rfl, hc⟩
    | some lib =>
      obtain ⟨htab, hout⟩ := libTable_eq_load hc.cached lib
      have hkeep := hc.libTable lib
      rcases ht : Ftrace.libTable load cache lib with ⟨sym, cache', out⟩
      rw [ht] at htab hout hkeep
      simp only at htab hout hkeep
      simp only [ht, htab, hout]
      cases resolveSymbolLib (addr - mapsBegin str) (load lib).table? with
      | some s => exact ⟨rfl, rfl, hkeep⟩
      | none => exact ⟨rfl, rfl, hkeep⟩

/-- **The loop** prints the same and reads the same lines, and keeps the invariant. -/
theorem getLibLoop_reload {load : Loader} (addr baseElf : Word) (n : ℕ) (fd : ℤ) {s : LibState}
    (hc : CacheInvariant load s.listLib) (reads : Reads) :
    (getLibLoop load addr baseElf n fd s reads).out
        = (reloadLoop load addr baseElf n fd s.pile reads).1 ∧
      (getLibLoop load addr baseElf n fd s reads).state.pile
        = (reloadLoop load addr baseElf n fd s.pile reads).2 ∧
      CacheInvariant load (getLibLoop load addr baseElf n fd s reads).state.listLib := by
  induction n generalizing s reads with
  | zero => exact ⟨rfl, rfl, hc⟩
  | succ n ih =>
    unfold getLibLoop reloadLoop
    rcases getNextLine s.pile fd reads with ⟨line, pile, rest⟩
    cases line with
    | none => exact ⟨rfl, rfl, hc⟩
    | some str =>
      obtain ⟨hout, hfound, hkeep⟩ := getLibLine_reload hc addr baseElf str
      simp only [← hout, ← hfound]
      cases (getLibLine load addr baseElf s.listLib str).found with
      | some sym => exact ⟨rfl, rfl, hkeep⟩
      | none =>
        obtain ⟨hout', hpile, hkeep'⟩ :=
          ih (s := ⟨pile, (getLibLine load addr baseElf s.listLib str).listLib⟩) hkeep rest
        exact ⟨congrArg (_ ++ ·) hout', hpile, hkeep'⟩

/-! ## 4. A history of calls -/

/-- A call of `get_lib`: the address, the header that was found, the maps file. -/
structure GetLibCall where
  addr : Word
  baseElf : Word
  maps : MapsFile

/-- The call, and the text it prints. -/
def GetLibCall.run (load : Loader) (c : GetLibCall) (s : LibState) : LibOut :=
  getLib load c.addr c.baseElf c.maps s

/-- The statics after a history of calls. -/
def stateAfterCalls (load : Loader) : LibState → List GetLibCall → LibState
  | s, [] => s
  | s, c :: cs => stateAfterCalls load (c.run load s).state cs

/-- What each call of a history prints. -/
def printedBy (load : Loader) : LibState → List GetLibCall → List Text
  | _, [] => []
  | s, c :: cs => (c.run load s).out :: printedBy load (c.run load s).state cs

/-- What each call prints without the cache. -/
def printedByReload (load : Loader) : List TFd → List GetLibCall → List Text
  | _, [] => []
  | pile, c :: cs =>
    let r := reloadLib load c.addr c.baseElf c.maps pile
    r.1 :: printedByReload load r.2 cs

/-- **The invariant holds after every history.** -/
theorem cacheInvariant_stateAfterCalls (load : Loader) (cs : List GetLibCall) {s : LibState}
    (hc : CacheInvariant load s.listLib) :
    CacheInvariant load (stateAfterCalls load s cs).listLib := by
  induction cs generalizing s with
  | nil => exact hc
  | cons c cs ih => exact ih (getLibLoop_reload _ _ _ _ hc _).2.2

/-- Every call of a history prints what it prints without the cache. -/
theorem printedBy_eq_reload (load : Loader) (cs : List GetLibCall) {s : LibState}
    (hc : CacheInvariant load s.listLib) :
    printedBy load s cs = printedByReload load s.pile cs := by
  induction cs generalizing s with
  | nil => rfl
  | cons c cs ih =>
    obtain ⟨hout, hpile, hkeep⟩ := getLibLoop_reload c.addr c.baseElf
      (lineFuel s.pile c.maps.fd c.maps.reads) c.maps.fd hc c.maps.reads
    have hrest := ih (s := (c.run load s).state) hkeep
    unfold printedBy printedByReload
    rw [hrest]
    exact congrArg₂ List.cons hout (congrArg (printedByReload load · cs) hpile)

/-- **The cache does not show.**  Whatever the descriptors are at first, every history of calls
prints the texts it would print without the cache; and after every history, and every number
`n` of lines of one more call, the cache has each path once, with the table loaded for it. -/
theorem cache_transparent (load : Loader) (pile : List TFd) (cs : List GetLibCall) :
    printedBy load { pile := pile } cs = printedByReload load pile cs ∧
      ∀ (c : GetLibCall) (n : ℕ), CacheInvariant load
        (getLibLoop load c.addr c.baseElf n c.maps.fd (stateAfterCalls load { pile := pile } cs)
          c.maps.reads).state.listLib := by
  refine ⟨printedBy_eq_reload load cs (cacheInvariant_nil load), ?_⟩
  intro c n
  have hc := cacheInvariant_stateAfterCalls load cs (s := { pile := pile }) (cacheInvariant_nil load)
  exact (getLibLoop_reload c.addr c.baseElf n c.maps.fd hc c.maps.reads).2.2

end Ftrace
