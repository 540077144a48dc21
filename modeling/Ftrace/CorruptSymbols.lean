/-
# Corrupt symbols

A symbol is corrupt if its name, or the header of the section it lies in, is outside the file.
`get_sym` gives up at a name beyond the end.  `get_type` answers a header beyond the end with
-1, but `fill_symbol` stores that as the type and returns 1 whatever it was; and what is below
the start of the file, behind a table that wraps around, is not beyond its end.

`allOrNothing_iff` says that nothing else goes wrong: `run_elf` is all or nothing exactly for the
images where no symbol that is kept is of these kinds, and for those where another one makes
`get_sym` give up.  Every type that it does store otherwise is one of the letters.
-/
import Ftrace.LoadedSymbols

namespace Ftrace

open CText Bytes Mapped

/-! ## 1. What `run_elf` comes to -/

/-- `run_elf` comes to the sections. -/
def HeaderPasses (img : Image) : Prop :=
  img.Has (eShoff img) 8 ∧ img.beyond (shdrOf img) = false ∧ img.Has (eShnum img) 2

/-- Every section can be read and passes. -/
def SectionsPass (img : Image) : Prop :=
  ∀ i < img.field (eShnum img) 2, SectionInBounds img (shdrOf img) i ∧
    SectionPasses img (shdrOf img) i

/-- `run_elf` comes to `get_sym`. -/
def Called (img : Image) : Prop :=
  HeaderPasses img ∧ SectionsPass img ∧ ¬ (symtabOf img).endp < (symtabOf img).start

theorem SectionsPass.beyond_endp {img : Image} (h : SectionsPass img) :
    img.beyond (symtabOf img).endp = false :=
  beyond_symtabOf fun i hi => (h i hi).2

/-- What `run_elf` makes of the result of `get_sym`. -/
def Symbols.ofEntries (sym : TSym) : Option (List Entry) → Symbols
  | none => .failed
  | some entries => .list sym entries

/-- **Everything `run_elf` can do**: return what `get_sym` does, or no list. -/
theorem runElf_cases (malloc : Malloc) (img : Image) :
    (Called img ∧ runElf malloc img = (getSymEntries malloc img (shdrOf img) (symtabOf img)).map
        (Symbols.ofEntries (symtabOf img))) ∨
      (¬ Called img ∧ ∀ sym es, runElf malloc img ≠ some (.list sym es)) := by
  have hloop := runElfLoop_cases img (shdrOf img) (img.field (eShnum img) 2) 0 {}
  simp only [Nat.zero_add, ← List.range_eq_range'] at hloop
  rw [runElf, Option.bind_eq_bind]
  by_cases hoff : img.Has (eShoff img) 8
  · rw [img.read_eq_some hoff, Option.bind_some, ← shdrOf]
    dsimp only
    cases hb : img.beyond (shdrOf img) with
    | true =>
      refine .inr ⟨?_, by simp⟩
      rintro ⟨⟨-, hnot, -⟩, -⟩
      rw [hb] at hnot
      cases hnot
    | false =>
      by_cases hnum : img.Has (eShnum img) 2
      · rw [img.read_eq_some hnum, if_neg Bool.false_ne_true, Option.bind_eq_bind,
          Option.bind_some]
        rcases hloop with ⟨hr, hsafe⟩ | ⟨hr, -, hnot⟩ | ⟨hr, hsafe, hall⟩
        · rw [hr]
          refine .inr ⟨?_, by simp⟩
          rintro ⟨-, hpass, -⟩
          exact hsafe fun i hi _ => (hpass i hi).1
        · rw [hr]
          refine .inr ⟨?_, by simp⟩
          rintro ⟨-, hpass, -⟩
          exact hnot fun i hi => (hpass i hi).2
        · have hpass : SectionsPass img :=
            fun i hi => ⟨hsafe i hi fun j hj => hall j (Nat.lt_trans hj hi), hall i hi⟩
          rw [hr, ← symtabOf]
          simp only [Option.bind_some]
          by_cases hlt : (symtabOf img).endp < (symtabOf img).start
          · rw [if_pos hlt]
            refine .inr ⟨?_, by simp⟩
            rintro ⟨-, -, hle⟩
            exact hle hlt
          · rw [if_neg hlt]
            refine .inl ⟨⟨⟨hoff, hb, hnum⟩, hpass, hlt⟩, ?_⟩
            cases getSymEntries malloc img (shdrOf img) (symtabOf img) with
            | none => rfl
            | some o => cases o <;> rfl
      · rw [img.read_eq_none hnum]
        refine .inr ⟨?_, by simp⟩
        rintro ⟨⟨-, -, h⟩, -⟩
        exact hnum h
  · rw [img.read_eq_none hoff]
    refine .inr ⟨?_, by simp⟩
    rintro ⟨⟨h, -⟩, -⟩
    exact hoff h

/-- Where `get_sym` is called its result is that of `run_elf`. -/
theorem runElf_of_called (malloc : Malloc) {img : Image} (h : Called img) :
    runElf malloc img = (getSymEntries malloc img (shdrOf img) (symtabOf img)).map
      (Symbols.ofEntries (symtabOf img)) := by
  rcases runElf_cases malloc img with ⟨-, hrun⟩ | ⟨hnot, -⟩
  · exact hrun
  · exact absurd h hnot

theorem ofEntries_eq_list {sym sym' : TSym} {o : Option (List Entry)} {es : List Entry} :
    Symbols.ofEntries sym o = .list sym' es ↔ o = some es ∧ sym' = sym := by
  cases o with
  | none => simp [Symbols.ofEntries]
  | some es' => simp [Symbols.ofEntries, and_comm, eq_comm]

/-- **What `run_elf` returns when it returns a list.** -/
theorem runElf_eq_list {malloc : Malloc} {img : Image} {sym : TSym} {es : List Entry} :
    runElf malloc img = some (.list sym es) ↔
      HeaderPasses img ∧ SectionsPass img ∧ sym = symtabOf img ∧ ¬ sym.endp < sym.start ∧
        getSymEntries malloc img (shdrOf img) sym = some (some es) := by
  constructor
  · intro h
    rcases runElf_cases malloc img with ⟨⟨hhead, hpass, hle⟩, hrun⟩ | ⟨-, hnot⟩
    · rw [hrun] at h
      obtain ⟨o, ho, hlist⟩ := Option.map_eq_some_iff.mp h
      obtain ⟨rfl, rfl⟩ := ofEntries_eq_list.mp hlist
      exact ⟨hhead, hpass, rfl, hle, ho⟩
    · exact absurd h (hnot sym es)
  · rintro ⟨hhead, hpass, rfl, hle, hes⟩
    rw [runElf_of_called malloc ⟨hhead, hpass, hle⟩, hes]
    rfl

/-! ## 2. What the code sees of a corrupt symbol -/

/-- The pointer to the name. -/
def nameOf (img : Image) (strtab a : Word) : Word := advance strtab (img.field (stName a) 4)

/-- The header of the section. -/
def sectionOf (img : Image) (shdr a : Word) : Word := shdrAt shdr (img.field (stShndx a) 2)

/-- The name, or the header of the section, is outside the file. -/
def Corrupt (img : Image) (shdr strtab a : Word) : Prop :=
  (img.Has (stName a) 4 ∧ img.Outside (nameOf img strtab a)) ∨
    img.Has (stShndx a) 2 ∧ InSection (img.field (stShndx a) 2) ∧
      img.Outside (sectionOf img shdr a)

/-- The symbol is corrupt in a way that `get_sym` does not give up at: the name is below the
start of the file, or the header of the section is outside it. -/
def Undetected (img : Image) (shdr strtab a : Word) : Prop :=
  (img.Has (stName a) 4 ∧ nameOf img strtab a < img.base) ∨
    img.Has (stShndx a) 2 ∧ InSection (img.field (stShndx a) 2) ∧
      img.Outside (sectionOf img shdr a)

/-- What is left when the name is not beyond the end. -/
theorem corrupt_iff (img : Image) (shdr strtab a : Word) :
    Corrupt img shdr strtab a ↔ NameBeyond img strtab a ∨ Undetected img shdr strtab a := by
  rw [Corrupt, Undetected, NameBeyond, img.outside_iff (nameOf img strtab a), nameOf, and_or_left,
    ← or_assoc, or_comm (a := _ ∧ _ = true)]

/-- A symbol that `get_sym` keeps: it is called and has an array, and the walk comes to the
symbol. -/
structure Keeps (malloc : Malloc) (img : Image) (a : Word) : Prop where
  called : Called img
  allocated : Allocated malloc (symtabOf img)
  reached : a ∈ reachedOf img (shdrOf img) (symtabOf img).strtab
    (symbolsOf (symtabOf img) (symtabOf img).start)
  info : img.Has (stInfo a) 1
  kept : keptAt img a = true

/-- `run_elf` returns the null pointer. -/
def ReturnsNull (malloc : Malloc) (img : Image) : Prop :=
  runElf malloc img = some .noSymbols ∨ runElf malloc img = some .failed

/-- **Where `get_sym` keeps symbols, the null pointer is returned exactly if** one of them has a
name beyond the end. -/
theorem returnsNull_iff {malloc : Malloc} {img : Image} (hcalled : Called img)
    (hall : Allocated malloc (symtabOf img)) :
    ReturnsNull malloc img ↔
      ∃ a, Keeps malloc img a ∧ NameBeyond img (symtabOf img).strtab a := by
  have hend := toNat_le_of_not_beyond hcalled.2.1.beyond_endp
  have hup := getSymFill_givesUp_iff img (shdrOf img) hend
    (Nat.le_refl ((symtabOf img).endp.toNat - (symtabOf img).start.toNat))
  have hkeeps : (∃ a ∈ reachedOf img (shdrOf img) (symtabOf img).strtab
        (symbolsOf (symtabOf img) (symtabOf img).start), GivesUpAt img (symtabOf img).strtab a) ↔
      ∃ a, Keeps malloc img a ∧ NameBeyond img (symtabOf img).strtab a := by
    constructor
    · rintro ⟨a, ha, ⟨hinfo, hk⟩, hname⟩
      exact ⟨a, ⟨hcalled, hall, ha, hinfo, hk⟩, hname⟩
    · rintro ⟨a, ⟨-, -, ha, hinfo, hk⟩, hname⟩
      exact ⟨a, ha, ⟨hinfo, hk⟩, hname⟩
  rw [← hkeeps, ← hup, ReturnsNull, runElf_of_called malloc hcalled, getSymEntries_eq_filled,
    getSymFilled, if_pos hall, Option.map_some, Option.getD_some, Filled.result]
  cases (getSymFill img (shdrOf img) (symtabOf img) _ (symtabOf img).start).ending <;>
    simp [Symbols.ofEntries]

/-! ## 3. Types -/

/-- The letters of the table of `get_type`, and of its three special sections. -/
def tableLetters : List (BitVec 8) :=
  [charByte 'U', charByte 'C', charByte 'A', charByte '?'] ++ types.map fun t => charByte t.ch

/-- The letters of a loaded symbol: lower case for a local one, and `w` for a weak one. -/
def typeLetters : List (BitVec 8) := tableLetters ++ tableLetters.map lower ++ [charByte 'w']

theorem getTypeLoop_letter {img : Image} {s : Word} (hb : img.beyond s = false)
    {ts : List TType} {type : BitVec 8} (h : getTypeLoop img s ts = some type) :
    type = charByte '?' ∨ type ∈ ts.map fun t => charByte t.ch := by
  induction ts with
  | nil => exact .inl (Option.some.inj h).symm
  | cons t ts ih =>
    have htail (h : getTypeLoop img s ts = some type) :
        type = charByte '?' ∨ type ∈ (t :: ts).map fun t => charByte t.ch :=
      (ih h).imp id (List.mem_cons_of_mem _)
    rw [getTypeLoop, hb, if_neg Bool.false_ne_true, Option.bind_eq_bind] at h
    obtain ⟨ty, -, h⟩ := Option.bind_eq_some_iff.mp h
    split at h
    · obtain ⟨flags, -, h⟩ := Option.bind_eq_some_iff.mp h
      split at h
      · obtain rfl := Option.some.inj h
        exact .inr List.mem_cons_self
      · exact htail h
    · exact htail h

/-- `get_type` answers with a letter unless the header is beyond the end. -/
theorem getType_letter {img : Image} {shdr a : Word}
    (hb : InSection (img.field (stShndx a) 2) → img.beyond (sectionOf img shdr a) = false)
    {type : BitVec 8} (h : getType img shdr a = some type) : type ∈ tableLetters := by
  rw [getType, Option.bind_eq_bind] at h
  obtain ⟨shndx, hread, h⟩ := Option.bind_eq_some_iff.mp h
  obtain rfl := img.field_of_read hread
  split at h
  · obtain rfl := Option.some.inj h
    decide
  · split at h
    · obtain rfl := Option.some.inj h
      decide
    · split at h
      · obtain rfl := Option.some.inj h
        decide
      · rename_i hundef hcommon habs
        rcases getTypeLoop_letter (hb ⟨hundef, hcommon, habs⟩) h with rfl | hmem
        · decide
        · exact List.mem_append_right _ hmem

theorem bindType_letter {info : ℕ} {type : BitVec 8} (h : type ∈ tableLetters) :
    bindType info type ∈ typeLetters := by
  unfold bindType typeLetters
  dsimp only
  split
  · exact List.mem_append_right _ List.mem_cons_self
  · split
    · exact List.mem_append_left _ (List.mem_append_right _ (List.mem_map_of_mem h))
    · exact List.mem_append_left _ (List.mem_append_left _ h)

theorem fillSymbol_letter {img : Image} {shdr strtab a : Word}
    (hb : InSection (img.field (stShndx a) 2) → img.beyond (sectionOf img shdr a) = false)
    {e : Entry} (h : fillSymbol img shdr strtab a = some e) : e.type ∈ typeLetters := by
  rw [fillSymbol, Option.bind_eq_bind] at h
  obtain ⟨value, -, h⟩ := Option.bind_eq_some_iff.mp h
  obtain ⟨type, htype, h⟩ := Option.bind_eq_some_iff.mp h
  obtain ⟨info, -, h⟩ := Option.bind_eq_some_iff.mp h
  obtain ⟨name, -, h⟩ := Option.bind_eq_some_iff.mp h
  obtain rfl := Option.some.inj h
  exact bindType_letter (getType_letter hb htype)

/-! ## 4. All or nothing -/

/-- `run_elf` returns the null pointer if a symbol that `get_sym` keeps is corrupt, and no entry
of a list that it returns has another type than a letter. -/
def AllOrNothing (malloc : Malloc) (img : Image) : Prop :=
  (∀ a, Keeps malloc img a → Corrupt img (shdrOf img) (symtabOf img).strtab a →
    ReturnsNull malloc img) ∧
  ∀ sym es, runElf malloc img = some (.list sym es) → ∀ e ∈ es, e.type ∈ typeLetters

/-- The symbols of a list that is returned are kept. -/
theorem keeps_of_list {malloc : Malloc} {img : Image} {sym : TSym} {es : List Entry}
    (hrun : runElf malloc img = some (.list sym es)) {e : Entry} (he : e ∈ es) :
    ∃ a, Keeps malloc img a ∧ Walked img (shdrOf img) (symtabOf img).strtab a ∧
      fillSymbol img (shdrOf img) (symtabOf img).strtab a = some e := by
  obtain ⟨hhead, hpass, rfl, hle, hes⟩ := runElf_eq_list.mp hrun
  have hall := gives_of_entries hes
  have hfilled := getSymEntries_eq_some_iff.mp hes
  have hwalked := (getSymFilled_spec hpass.beyond_endp hfilled).2.mp rfl
  obtain ⟨es', hes', hmap⟩ := TableInBounds.entries ⟨⟨hpass.beyond_endp, hall.1⟩, hwalked⟩ hall.2
  obtain rfl := Option.some.inj (Option.some.inj (hes.symm.trans hes'))
  obtain ⟨a, ha, hfill⟩ := exists_of_mem_mapM hmap he
  obtain ⟨hsym, hk⟩ := List.mem_filter.mp ha
  have hw := hwalked a hsym
  exact ⟨a, ⟨⟨hhead, hpass, hle⟩, hall, mem_reachedOf hwalked hsym, hw.1.1, hk⟩, hw, hfill⟩

/-- **`run_elf` is all or nothing exactly if** `get_sym` gives up at a symbol that it keeps, or
keeps none that is corrupt in another way. -/
theorem allOrNothing_iff (malloc : Malloc) (img : Image) :
    AllOrNothing malloc img ↔
      (∃ a, Keeps malloc img a ∧ NameBeyond img (symtabOf img).strtab a) ∨
        ∀ a, Keeps malloc img a → ¬ Undetected img (shdrOf img) (symtabOf img).strtab a := by
  constructor
  · rintro ⟨hnull, -⟩
    by_cases hup : ∃ a, Keeps malloc img a ∧ NameBeyond img (symtabOf img).strtab a
    · exact .inl hup
    · right
      intro a hkeeps hund
      apply hup
      rw [← returnsNull_iff hkeeps.called hkeeps.allocated]
      exact hnull a hkeeps ((corrupt_iff _ _ _ _).mpr (.inr hund))
  · intro h
    constructor
    · intro a hkeeps hcorrupt
      rw [returnsNull_iff hkeeps.called hkeeps.allocated]
      rcases h with hup | hok
      · exact hup
      · have hname := ((corrupt_iff _ _ _ _).mp hcorrupt).resolve_right (hok a hkeeps)
        exact ⟨a, hkeeps, hname⟩
    · intro sym es hrun e he
      obtain ⟨a, hkeeps, hw, hfill⟩ := keeps_of_list hrun he
      rcases h with hup | hok
      · -- it would have given up
        rw [← returnsNull_iff hkeeps.called hkeeps.allocated, ReturnsNull, hrun] at hup
        simp at hup
      · refine fillSymbol_letter ?_ hfill
        intro hin
        by_contra hb
        refine hok a hkeeps (.inr ⟨?_, hin, ?_⟩)
        · exact ((hw.1.2 hkeeps.kept).2 (hw.2 hkeeps.kept)).2.1
        · exact (img.outside_iff _).mpr (.inr (Bool.not_eq_false _ ▸ hb))

/-- A symbol table with the null symbol and a function of section 0x1000, in a file with one
section. -/
def corruptImage : Image :=
  .ofFile 0x1000 ([0x7F, 0x45, 0x4C, 0x46] ++ List.replicate 36 0 ++ [64] ++
    List.replicate 19 0 ++ [1, 0, 0, 0] ++ [0, 0, 0, 0, 2, 0, 0, 0] ++ List.replicate 16 0 ++
    [128] ++ List.replicate 7 0 ++ [48] ++ List.replicate 31 0 ++ List.replicate 24 0 ++
    [0, 0, 0, 0, 0x12, 0, 0, 0x10] ++ List.replicate 16 0) (by decide +kernel)

/-- **A corrupt symbol is loaded**, with the type -1. -/
theorem allOrNothing_fails :
    checkMagicNumber corruptImage = true ∧ ¬ AllOrNothing .ample corruptImage := by
  refine ⟨by decide +kernel, ?_⟩
  intro h
  have htypes : (runElf .ample corruptImage).map (fun s => match s with
      | .list _ es => es.map Entry.type
      | _ => []) = some [-1] := by
    decide +kernel
  obtain ⟨s, hrun, htype⟩ := Option.map_eq_some_iff.mp htypes
  cases s with
  | noSymbols => cases htype
  | failed => cases htype
  | list sym es =>
    obtain ⟨e, rfl, he⟩ := List.map_eq_singleton_iff.mp htype
    have hletter := h.2 sym [e] hrun e List.mem_cons_self
    rw [he] at hletter
    exact absurd hletter (by decide)

end Ftrace
