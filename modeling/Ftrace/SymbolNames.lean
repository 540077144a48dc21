/-
# The names printed for an address of the executable

`get_sym`, `sort_sym` and `resolve_symbol` together.  `fill_symbol` stores the value of a symbol
in an `unsigned int` and `resolve_symbol` compares it with the whole address, so a symbol from
4 GiB on is found at the address that its low half names, and not at its own.  Apart from that
the names printed are those of the loaded entries at the address (`resolves_iff`): the sort
loses none of them, and the scan reaches all of them, because no loaded entry looks like the
end marker (`getSymEntries_type`).
-/
import Ftrace.GetSymbols
import Ftrace.SortSym
import Mathlib.Algebra.Order.BigOperators.Group.List
import Mathlib.Algebra.Order.Group.Nat

namespace Ftrace

open CText Bytes Mapped

/-! ## 1. The types of loaded entries -/

theorem lower_ne_zero {x : BitVec 8} (h : x ≠ 0) : lower x ≠ 0 := by
  unfold lower
  split
  · rename_i hx
    have hA : charByte 'A' = 65#8 := rfl
    have hZ : charByte 'Z' = 90#8 := rfl
    rw [hA, hZ] at hx
    bv_omega
  · exact h

theorem bindType_ne_zero (info : ℕ) {type : BitVec 8} (h : type ≠ 0) : bindType info type ≠ 0 := by
  unfold bindType
  dsimp only
  split
  · decide
  · split
    · exact lower_ne_zero h
    · exact h

theorem getTypeLoop_ne_zero {img : Image} {s : Word} {ts : List TType} {type : BitVec 8}
    (hts : ∀ t ∈ ts, charByte t.ch ≠ 0) (h : getTypeLoop img s ts = some type) : type ≠ 0 := by
  induction ts with
  | nil =>
    obtain rfl := Option.some.inj h
    decide
  | cons t ts ih =>
    have ih := ih fun u hu => hts u (List.mem_cons_of_mem t hu)
    simp only [getTypeLoop, Option.bind_eq_bind] at h
    split at h
    · obtain rfl := Option.some.inj h
      decide
    · obtain ⟨ty, -, h⟩ := Option.bind_eq_some_iff.mp h
      split at h
      · obtain ⟨flags, -, h⟩ := Option.bind_eq_some_iff.mp h
        split at h
        · obtain rfl := Option.some.inj h
          exact hts t List.mem_cons_self
        · exact ih h
      · exact ih h

theorem getType_ne_zero {img : Image} {shdr sym : Word} {type : BitVec 8}
    (h : getType img shdr sym = some type) : type ≠ 0 := by
  simp only [getType, Option.bind_eq_bind] at h
  obtain ⟨shndx, -, h⟩ := Option.bind_eq_some_iff.mp h
  split at h
  · obtain rfl := Option.some.inj h
    decide
  · split at h
    · obtain rfl := Option.some.inj h
      decide
    · split at h
      · obtain rfl := Option.some.inj h
        decide
      · refine getTypeLoop_ne_zero ?_ h
        decide

theorem fillSymbol_type {img : Image} {shdr strtab sym : Word} {e : Entry}
    (h : fillSymbol img shdr strtab sym = some e) : e.type ≠ 0 := by
  simp only [fillSymbol, Option.bind_eq_bind] at h
  obtain ⟨value, -, h⟩ := Option.bind_eq_some_iff.mp h
  obtain ⟨type, htype, h⟩ := Option.bind_eq_some_iff.mp h
  obtain ⟨info, -, h⟩ := Option.bind_eq_some_iff.mp h
  obtain ⟨name, -, h⟩ := Option.bind_eq_some_iff.mp h
  obtain rfl := Option.some.inj h
  exact bindType_ne_zero info (getType_ne_zero htype)

theorem getSymLoop_type {img : Image} {shdr : Word} {sym : TSym} {n : ℕ} {tmp : Word}
    {es : List Entry} (h : getSymLoop img shdr sym n tmp = some (some es)) :
    ∀ e ∈ es, e.type ≠ 0 := by
  induction n generalizing tmp es with
  | zero =>
    obtain rfl := Option.some.inj (Option.some.inj h)
    intro e he
    exact absurd he List.not_mem_nil
  | succ n ih =>
    simp only [getSymLoop, Option.bind_eq_bind] at h
    split at h
    · obtain ⟨info, -, h⟩ := Option.bind_eq_some_iff.mp h
      split at h
      · obtain ⟨name, -, h⟩ := Option.bind_eq_some_iff.mp h
        split at h
        · cases Option.some.inj h
        · obtain ⟨e, he, h⟩ := Option.bind_eq_some_iff.mp h
          obtain ⟨rest, hrest, h⟩ := Option.bind_eq_some_iff.mp h
          obtain ⟨es', rfl, rfl⟩ := Option.map_eq_some_iff.mp (Option.some.inj h)
          intro e' he'
          rcases List.mem_cons.mp he' with rfl | he'
          · exact fillSymbol_type he
          · exact ih hrest e' he'
      · exact ih h
    · obtain rfl := Option.some.inj (Option.some.inj h)
      intro e he
      exact absurd he List.not_mem_nil

/-- **No loaded entry has type 0**, so none of them ends a table. -/
theorem getSymEntries_type {malloc : Malloc} {img : Image} {shdr : Word} {sym : TSym}
    {es : List Entry} (h : getSymEntries malloc img shdr sym = some (some es)) :
    ∀ e ∈ es, e.type ≠ 0 := by
  unfold getSymEntries at h
  split at h
  · cases Option.some.inj h
  · split at h
    · cases Option.some.inj h
    · exact getSymLoop_type h

/-! ## 2. The sorted table -/

/-- `print_sym (elf)`: the array that `get_sym` has filled, sorted.  There is none if a scan
leaves the array, or if it meets a null name. -/
def printSym (gt : Text → Text → Bool) (sym : TSym) (es : List Entry) : Option SymTab :=
  match sortSym gt (symCells sym.room es) with
  | none => none
  | some cells => if h : cells.any TSymbol.isEnd = true then some ⟨cells, h⟩ else none

/-- The array has room for an end marker, and every entry a name. -/
def WellEnded (sym : TSym) (es : List Entry) : Prop :=
  es.length < sym.room ∧ ∀ e ∈ es, e.name.isSome = true

theorem isEnd_symbol {e : Entry} (h : e.type ≠ 0) : e.symbol.isEnd = false := by
  rw [← Bool.not_eq_true, TSymbol.isEnd]
  simp only [Bool.and_eq_true, Entry.symbol]
  intro hend
  exact h (of_decide_eq_true hend.1.2)

/-- The array holds these entries, and behind them an end marker. -/
def SymTab.Holds (t : SymTab) (es : List Entry) : Prop :=
  ∃ z rest, z.isEnd = true ∧ t.cells = es.map Entry.symbol ++ z :: rest

/-- `resolve_symbol` scans all of them. -/
theorem SymTab.Holds.entries {t : SymTab} {es : List Entry} (h : t.Holds es)
    (htype : ∀ e ∈ es, e.type ≠ 0) : t.entries = es.map Entry.symbol := by
  obtain ⟨z, rest, hz, hcells⟩ := h
  rw [SymTab.entries, hcells, List.takeWhile_append_of_pos]
  · rw [List.takeWhile_cons_of_neg (by rw [hz]; decide), List.append_nil]
  · intro a ha
    obtain ⟨e, he, rfl⟩ := List.mem_map.mp ha
    rw [isEnd_symbol (htype e he)]
    rfl

/-- `resolve_symbol_lib` scans them up to the first null name. -/
theorem SymTab.Holds.named {t : SymTab} {es : List Entry} (h : t.Holds es) :
    t.named = (es.takeWhile fun e => e.name.isSome).map Entry.symbol := by
  obtain ⟨z, rest, hz, hcells⟩ := h
  have hnone : z.name.isSome = false := by
    rw [TSymbol.isEnd, Bool.and_eq_true] at hz
    exact Option.isSome_eq_false_iff.mpr hz.2
  rw [SymTab.named, hcells]
  clear hcells
  induction es with
  | nil => rw [List.map_nil, List.nil_append, List.takeWhile_cons, hnone]; rfl
  | cons e es ih =>
    have hname : e.symbol.name = e.name := rfl
    rw [List.map_cons, List.cons_append, List.takeWhile_cons, List.takeWhile_cons, ih, hname]
    split <;> rfl

/-- With room for the marker, it stands right behind the entries. -/
theorem symCells_eq {room : ℕ} {es : List Entry} (h : es.length < room) :
    ∃ z rest, z.isEnd = true ∧ symCells room es = es.map Entry.symbol ++ z :: rest := by
  obtain ⟨k, hk⟩ := Nat.exists_eq_add_of_lt h
  have hroom : room - es.length = k + 1 := by omega
  exact ⟨⟨0, 0, none⟩, List.replicate k ⟨0, 0, none⟩, rfl, by rw [symCells, hroom]; rfl⟩

theorem named_symbols {es : List Entry} (htype : ∀ e ∈ es, e.type ≠ 0)
    (hname : ∀ e ∈ es, e.name.isSome = true) : Named (es.map Entry.symbol) := by
  intro a ha
  obtain ⟨e, he, rfl⟩ := List.mem_map.mp ha
  exact ⟨isEnd_symbol (htype e he), hname e he⟩

/-- **The sorted table holds the loaded entries**, in some order. -/
theorem printSym_spec (gt : Text → Text → Bool) {sym : TSym} {es : List Entry}
    (htype : ∀ e ∈ es, e.type ≠ 0) (h : WellEnded sym es) :
    ∃ t es', printSym gt sym es = some t ∧ es'.Perm es ∧ t.Holds es' := by
  obtain ⟨z, rest, hz, hcells⟩ := symCells_eq h.1
  obtain ⟨bs, hbs, hp⟩ := sortSym_spec gt hz rest (named_symbols htype h.2)
  -- a reordering of the cells is one of the entries
  obtain ⟨es', rfl, hp'⟩ := (congrFun₂ (List.eq_map_comp_perm Entry.symbol) bs es).mpr hp
  have hany : (es'.map Entry.symbol ++ z :: rest).any TSymbol.isEnd = true :=
    List.any_eq_true.mpr ⟨z, List.mem_append_right _ List.mem_cons_self, hz⟩
  refine ⟨⟨_, hany⟩, es', ?_, hp', z, rest, hz, rfl⟩
  simp only [printSym, hcells, hbs, dif_pos hany]

/-- So a scan of it comes to the loaded entries. -/
theorem printSym_entries (gt : Text → Text → Bool) {sym : TSym} {es : List Entry}
    (htype : ∀ e ∈ es, e.type ≠ 0) (h : WellEnded sym es) :
    ∃ t, printSym gt sym es = some t ∧ t.entries.Perm (es.map Entry.symbol) := by
  obtain ⟨t, es', ht, hp, hholds⟩ := printSym_spec gt htype h
  refine ⟨t, ht, ?_⟩
  rw [hholds.entries fun e he => htype e (hp.subset he)]
  exact hp.map Entry.symbol

/-- Without room for the marker, or with a null name, there is no table. -/
theorem wellEnded_of_printSym {gt : Text → Text → Bool} {sym : TSym} {es : List Entry} {t : SymTab}
    (htype : ∀ e ∈ es, e.type ≠ 0) (h : printSym gt sym es = some t) : WellEnded sym es := by
  rw [printSym] at h
  split at h
  · cases h
  · rename_i cells hsort
    obtain ⟨m, z, -, hz, hend, hall⟩ := sortSym_meets hsort
    -- the marker stands behind all entries
    have hm : es.length ≤ m := by
      by_contra hlt
      have hlt : m < es.length := Nat.lt_of_not_le hlt
      rw [symCells, List.getElem?_append_left (by rwa [List.length_map]), List.getElem?_map,
        List.getElem?_eq_getElem hlt] at hz
      obtain rfl := Option.some.inj hz
      rw [isEnd_symbol (htype _ (List.getElem_mem hlt))] at hend
      cases hend
    constructor
    · have hlen := (List.getElem?_eq_some_iff.mp hz).1
      rw [symCells, List.length_append, List.length_map, List.length_replicate] at hlen
      omega
    · intro e he
      obtain ⟨l, hl, rfl⟩ := List.getElem_of_mem he
      obtain ⟨a, ha, hname⟩ := hall l (Nat.zero_le l) (Nat.lt_of_lt_of_le hl hm)
      rw [symCells, List.getElem?_append_left (by rwa [List.length_map]), List.getElem?_map,
        List.getElem?_eq_getElem hl] at ha
      obtain rfl := Option.some.inj ha
      exact hname

/-! ## 3. The names at an address -/

/-- The value does not fit the `unsigned int` it is stored in. -/
def Entry.Big (e : Entry) : Prop := 2 ^ 32 ≤ e.stValue.toNat

theorem hasAddr_iff (e : Entry) (addr : Word) :
    e.symbol.hasAddr addr = true ↔ e.stValue.toNat % 2 ^ 32 = addr.toNat := by
  rw [TSymbol.hasAddr, decide_eq_true_iff, ← BitVec.toNat_inj, Entry.symbol, BitVec.toNat_setWidth,
    BitVec.toNat_setWidth]
  omega

/-- **The entry is found exactly at its value** unless it is big, and then at neither of the two
addresses it is taken for. -/
theorem hasAddr_agrees_iff (e : Entry) (addr : Word) :
    (e.symbol.hasAddr addr = true ↔ e.stValue = addr) ↔
      (e.Big → e.stValue ≠ addr ∧ e.symbol.hasAddr addr = false) := by
  rw [← Bool.not_eq_true, Ne, ← BitVec.toNat_inj, hasAddr_iff, Entry.Big]
  constructor
  · intro h hbig
    constructor
    · intro heq
      have := h.mpr heq
      omega
    · intro hlow
      have := h.mp hlow
      omega
  · intro h
    by_cases hbig : 2 ^ 32 ≤ e.stValue.toNat
    · exact iff_of_false (h hbig).2 (h hbig).1
    · rw [Nat.mod_eq_of_lt (Nat.lt_of_not_le hbig)]

/-- The entries of a sorted table at an address. -/
theorem at_perm {t : SymTab} {es : List Entry} (h : t.entries.Perm (es.map Entry.symbol))
    (addr : Word) :
    (t.at addr).Perm ((es.filter fun e => e.symbol.hasAddr addr).map Entry.symbol) := by
  have hf := h.filter fun s => s.hasAddr addr
  rwa [List.filter_map] at hf

/-- The run looks into the library maps exactly if no entry is at the address, and otherwise
prints these entries, each once. -/
structure NamesExactly (es : List Entry) (addr : Word) (r : ResolveOut) : Prop where
  consulted : r.consulted = true ↔ ∀ e ∈ es, e.stValue ≠ addr
  printed : r.consulted = false → ∃ named : List TSymbol,
    named.Perm ((es.filter fun e => e.stValue = addr).map Entry.symbol) ∧
      r.out = named.flatMap symbolLine

theorem resolveSymbol_consulted (load : Loader) (mem : Mem) (maps : Option MapsFile) {addr : Word}
    (haddr : addr ≠ 0) (t : SymTab) {isACall : ℕ} (hcall : isACall ≠ 0) (s : LibState) :
    (resolveSymbol load mem maps addr (some t) isACall s).consulted = true ↔ t.at addr = [] := by
  simp only [resolveSymbol, haddr, hcall, or_self, if_false]
  split
  · rename_i h
    exact iff_of_false Bool.false_ne_true h
  · rename_i h
    exact iff_of_true rfl (not_ne_iff.mp h)

theorem resolveSymbol_printed (load : Loader) (mem : Mem) (maps : Option MapsFile) {addr : Word}
    (haddr : addr ≠ 0) {t : SymTab} (hat : t.at addr ≠ []) {isACall : ℕ} (hcall : isACall ≠ 0)
    (s : LibState) :
    (resolveSymbol load mem maps addr (some t) isACall s).out = (t.at addr).flatMap symbolLine := by
  simp only [resolveSymbol, haddr, hcall, or_self, if_false, if_pos hat]

/-- Every printed line takes up room. -/
theorem symbolLine_pos (s : TSymbol) : 0 < (symbolLine s).length := by
  unfold symbolLine
  rw [List.length_append]
  exact Nat.lt_of_lt_of_le Nat.one_pos (Nat.le_add_left 1 _)

/-- If one of two conditions implies the other, and what satisfies them has the same total
weight, they select the same. -/
theorem filter_agree_of_sum {α : Type} {l : List α} {p q : α → Bool} {w : α → ℕ}
    (hw : ∀ a, 0 < w a) (himp : ∀ a, q a = true → p a = true)
    (hsum : ((l.filter p).map w).sum = ((l.filter q).map w).sum) :
    ∀ a ∈ l, p a = true → q a = true := by
  intro a ha hp
  by_contra hq
  -- the first list is the second and the rest, and `a` is in the rest
  have hsplit := ((List.filter_append_perm q (l.filter p)).map w).sum_eq
  have hboth : (l.filter p).filter q = l.filter q := by
    rw [List.filter_filter]
    refine List.filter_congr ?_
    intro b _
    cases hb : q b with
    | true => rw [himp b hb]; rfl
    | false => rfl
  have hmem : a ∈ (l.filter p).filter fun b => !q b := by
    simp [ha, hp, Bool.eq_false_of_not_eq_true hq]
  have hle := List.single_le_sum (fun n _ => Nat.zero_le n) _ (List.mem_map_of_mem (f := w) hmem)
  have hpos := hw a
  rw [hboth, List.map_append, List.sum_append] at hsplit
  omega

/-- The lines of entries, together. -/
theorem length_lines_of_entries {as : List TSymbol} {es : List Entry}
    (h : as.Perm (es.map Entry.symbol)) :
    (as.flatMap symbolLine).length = (es.map fun e => (symbolLine e.symbol).length).sum := by
  rw [List.length_flatMap, (h.map fun s => (symbolLine s).length).sum_eq, List.map_map]
  rfl

/-- A run that prints the names exactly has found each entry at its own value and nowhere else. -/
theorem agrees_of_namesExactly {load : Loader} {mem : Mem} {maps : Option MapsFile} {addr : Word}
    (haddr : addr ≠ 0) {t : SymTab} {es : List Entry} (hp : t.entries.Perm (es.map Entry.symbol))
    {isACall : ℕ} (hcall : isACall ≠ 0) {s : LibState}
    (h : NamesExactly es addr (resolveSymbol load mem maps addr (some t) isACall s)) :
    ∀ e ∈ es, e.symbol.hasAddr addr = true ↔ e.stValue = addr := by
  have hat := at_perm hp addr
  have hconsulted := resolveSymbol_consulted load mem maps haddr t hcall s
  by_cases hnil : t.at addr = []
  · -- no entry was found, so none should have been
    have hnone := h.consulted.mp (hconsulted.mpr hnil)
    rw [hnil, List.nil_perm, List.map_eq_nil_iff, List.filter_eq_nil_iff] at hat
    intro e he
    exact iff_of_false (hat e he) (hnone e he)
  · -- some entry was found, so the address is below 4 GiB, and the entries there are found
    have hfalse : (resolveSymbol load mem maps addr (some t) isACall s).consulted = false := by
      rw [← Bool.not_eq_true, hconsulted]
      exact hnil
    obtain ⟨named, hnamed, hout⟩ := h.printed hfalse
    obtain ⟨a, ha⟩ := List.exists_mem_of_ne_nil _ hnil
    obtain ⟨e₀, he₀, -⟩ := List.mem_map.mp (hat.subset ha)
    have hlow := (hasAddr_iff e₀ addr).mp (List.mem_filter.mp he₀).2
    have hexact : ∀ e : Entry, decide (e.stValue = addr) = true → e.symbol.hasAddr addr = true := by
      intro e he
      rw [hasAddr_iff, of_decide_eq_true he]
      omega
    have hlen := congrArg List.length hout
    rw [resolveSymbol_printed load mem maps haddr hnil hcall s, length_lines_of_entries hat,
      length_lines_of_entries hnamed] at hlen
    have hagree := filter_agree_of_sum (fun e : Entry => symbolLine_pos e.symbol) hexact hlen
    intro e he
    exact ⟨fun hhas => of_decide_eq_true (hagree e he hhas), fun heq => hexact e (decide_eq_true heq)⟩

/-- And such a table prints them exactly. -/
theorem namesExactly_of_agrees (load : Loader) (mem : Mem) (maps : Option MapsFile) {addr : Word}
    (haddr : addr ≠ 0) {t : SymTab} {es : List Entry} (hp : t.entries.Perm (es.map Entry.symbol))
    {isACall : ℕ} (hcall : isACall ≠ 0) (s : LibState)
    (hagree : ∀ e ∈ es, e.symbol.hasAddr addr = true ↔ e.stValue = addr) :
    NamesExactly es addr (resolveSymbol load mem maps addr (some t) isACall s) := by
  have hat := at_perm hp addr
  have hconsulted := resolveSymbol_consulted load mem maps haddr t hcall s
  have hfilter : (es.filter fun e => e.symbol.hasAddr addr)
      = es.filter fun e => e.stValue = addr := by
    refine List.filter_congr ?_
    intro e he
    rw [Bool.eq_iff_iff, hagree e he, decide_eq_true_iff]
  rw [hfilter] at hat
  have hempty : t.at addr = [] ↔ ∀ e ∈ es, e.stValue ≠ addr := by
    constructor
    · intro hnil
      rw [hnil, List.nil_perm, List.map_eq_nil_iff, List.filter_eq_nil_iff] at hat
      simpa using hat
    · intro hnone
      have hnil : (es.filter fun e => e.stValue = addr) = [] := by
        rw [List.filter_eq_nil_iff]
        simpa using hnone
      rw [hnil] at hat
      exact hat.eq_nil
  constructor
  · rw [hconsulted, hempty]
  · intro hfalse
    have hnil : t.at addr ≠ [] := by
      rw [Ne, ← hconsulted, hfalse]
      exact Bool.false_ne_true
    exact ⟨t.at addr, hat, resolveSymbol_printed load mem maps haddr hnil hcall s⟩

/-- `print_sym` returns a table, and a lookup in it prints the names exactly. -/
def Resolves (gt : Text → Text → Bool) (sym : TSym) (es : List Entry) (addr : Word)
    (lookup : SymTab → ResolveOut) : Prop :=
  ∃ t, printSym gt sym es = some t ∧ NamesExactly es addr (lookup t)

/-- **The names printed for an address are exact if and only if** the table has its end marker
and no entry from 4 GiB on is at the address, with its whole value or with its low half. -/
theorem resolves_iff (gt : Text → Text → Bool) {malloc : Malloc} {img : Image} {shdr : Word}
    {sym : TSym} {es : List Entry} (h : getSymEntries malloc img shdr sym = some (some es))
    (load : Loader) (mem : Mem) (maps : Option MapsFile) {addr : Word} (haddr : addr ≠ 0)
    {isACall : ℕ} (hcall : isACall ≠ 0) (s : LibState) :
    Resolves gt sym es addr (fun t => resolveSymbol load mem maps addr (some t) isACall s) ↔
      WellEnded sym es ∧ ∀ e ∈ es, e.Big → e.stValue ≠ addr ∧ e.symbol.hasAddr addr = false := by
  have htype := getSymEntries_type h
  constructor
  · rintro ⟨t, ht, hexact⟩
    have hended := wellEnded_of_printSym htype ht
    obtain ⟨t', ht', hp⟩ := printSym_entries gt htype hended
    obtain rfl := Option.some.inj (ht.symm.trans ht')
    have hagree := agrees_of_namesExactly haddr hp hcall hexact
    exact ⟨hended, fun e he => (hasAddr_agrees_iff e addr).mp (hagree e he)⟩
  · rintro ⟨hended, hbig⟩
    obtain ⟨t, ht, hp⟩ := printSym_entries gt htype hended
    refine ⟨t, ht, namesExactly_of_agrees load mem maps haddr hp hcall s fun e he => ?_⟩
    exact (hasAddr_agrees_iff e addr).mpr (hbig e he)

/-- A table of two symbols, the null symbol and a global function `f` of section `ABS` with the
given value, and its string table. -/
def oneSymbol (value : List (BitVec 8)) (hlen : value.length = 8) : Image :=
  .ofFile 0x1000 (List.replicate 24 0 ++ [0, 0, 0, 0, 0x12, 0, 0xF1, 0xFF] ++ value ++
    List.replicate 8 0 ++ [0x66, 0]) (by simp [hlen])

/-- The same, as `run_elf` finds it. -/
def oneSymbolAt : TSym := ⟨0x1000, 0x1030, 0x1030⟩

/-- A function below 4 GiB is named at its address. -/
theorem resolves_iff_low :
    Resolves (fun _ _ => false) oneSymbolAt [⟨0x1000, charByte 'A', some ['f', nul]⟩] 0x1000
      (fun t => resolveSymbol (fun _ => .failed) Mem.empty none 0x1000 (some t) 1 {}) := by
  have h : getSymEntries .ample (oneSymbol [0, 0x10, 0, 0, 0, 0, 0, 0] rfl) 0 oneSymbolAt
      = some (some [⟨0x1000, charByte 'A', some ['f', nul]⟩]) := by decide +kernel
  refine (resolves_iff _ h _ _ _ (by decide) (by decide) _).mpr
    ⟨⟨by decide, by decide⟩, fun e he hbig => ?_⟩
  obtain rfl := List.mem_singleton.mp he
  exact absurd hbig (by unfold Entry.Big; decide)

/-- **A function at 4 GiB plus 0x1000 is named at 0x1000**, where there is none. -/
theorem high_symbol_misnamed :
    getSymEntries .ample (oneSymbol [0, 0x10, 0, 0, 1, 0, 0, 0] rfl) 0 oneSymbolAt
        = some (some [⟨0x100001000, charByte 'A', some ['f', nul]⟩]) ∧
      ¬ Resolves (fun _ _ => false) oneSymbolAt [⟨0x100001000, charByte 'A', some ['f', nul]⟩] 0x1000
        (fun t => resolveSymbol (fun _ => .failed) Mem.empty none 0x1000 (some t) 1 {}) := by
  refine ⟨by decide +kernel, ?_⟩
  rintro ⟨t, ht, hexact⟩
  obtain rfl : t = ⟨[⟨0x1000, charByte 'A', some ['f', nul]⟩, ⟨0, 0, none⟩], rfl⟩ := by
    have h : printSym (fun _ _ => false) oneSymbolAt
        [⟨0x100001000, charByte 'A', some ['f', nul]⟩]
          = some ⟨[⟨0x1000, charByte 'A', some ['f', nul]⟩, ⟨0, 0, none⟩], rfl⟩ := by decide
    exact Option.some.inj (ht.symm.trans h)
  have hcons := hexact.consulted.mpr fun e he => by
    obtain rfl := List.mem_singleton.mp he
    decide
  exact absurd hcons (by decide)

end Ftrace
