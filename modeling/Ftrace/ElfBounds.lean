/-
# Which files are read within their bounds

The guards of `parse_file`, `run_elf` and `get_sym` compare the START of an object with the
end of the file, by `>`; some reads have no guard at all (`sh_link`, `e_shstrndx`), and an
offset that wraps around lands below the file and is not `>` anything.  So the fields of a
file decide whether the reads stay inside it.  The first parts of this module say, whatever is in
the memory around the file, which reads the functions make: of each section header and each
symbol entry that the loops come to, every field that is used.  `elfInBounds_iff` says it of a
file alone, where a read succeeds exactly if it lies in the file; if all do, what is around the
file makes no difference (`ElfInBounds.eq_alone`).

The smallest file that is left is a header alone, with its section table right behind it
(`bare_header_leaves`).
-/
import Ftrace.LoadInfos

namespace Ftrace

open CText Bytes Mapped

/-! ## 1. One section -/

/-- `SYM_START`, `SYM_END` and `SYM_STR` of section `i`. -/
def symtabAt (img : Image) (shdr : Word) (i : ℕ) : TSym where
  start := advance img.base (img.field (shOffset (shdrAt shdr i)) 8)
  endp := advance (advance img.base (img.field (shOffset (shdrAt shdr i)) 8))
    (img.field (shSize (shdrAt shdr i)) 8)
  strtab := advance img.base
    (img.field (shOffset (shdrAt shdr (img.field (shLink (shdrAt shdr i)) 4))) 8)

/-- Section `i` is a symbol table. -/
def IsSymtab (img : Image) (shdr : Word) (i : ℕ) : Prop :=
  img.field (shType (shdrAt shdr i)) 4 = SHT_SYMTAB

instance (img : Image) (shdr : Word) (i : ℕ) : Decidable (IsSymtab img shdr i) :=
  inferInstanceAs (Decidable (_ = _))

/-- `run_elf` goes on after section `i`: neither its header nor, if it is a symbol table, one
of its three pointers is beyond the end. -/
def SectionPasses (img : Image) (shdr : Word) (i : ℕ) : Prop :=
  img.beyond (shdrAt shdr i) = false ∧ (IsSymtab img shdr i →
    img.beyond (symtabAt img shdr i).start = false ∧
      img.beyond (symtabAt img shdr i).endp = false ∧
        img.beyond (symtabAt img shdr i).strtab = false)

/-- The fields of section `i` that `run_elf` reads are in memory: the type, and of a symbol
table the offset, the size, the link, and the offset of the section that it is linked to. -/
def SectionInBounds (img : Image) (shdr : Word) (i : ℕ) : Prop :=
  img.beyond (shdrAt shdr i) = false → img.Has (shType (shdrAt shdr i)) 4 ∧
    (IsSymtab img shdr i → img.Has (shOffset (shdrAt shdr i)) 8 ∧
      (img.beyond (symtabAt img shdr i).start = false → img.Has (shSize (shdrAt shdr i)) 8 ∧
        (img.beyond (symtabAt img shdr i).endp = false → img.Has (shLink (shdrAt shdr i)) 4 ∧
          img.Has (shOffset (shdrAt shdr (img.field (shLink (shdrAt shdr i)) 4))) 8)))

/-- The symbol table `run_elf` holds after section `i`. -/
def nextSym (img : Image) (shdr : Word) (i : ℕ) (sym : TSym) : TSym :=
  if IsSymtab img shdr i then symtabAt img shdr i else sym

/-- **Everything one round of `run_elf` can do**: fault, give up, or go on. -/
theorem runElfSection_cases (img : Image) (shdr : Word) (i : ℕ) (sym : TSym) :
    (runElfSection img shdr i sym = none ∧ ¬ SectionInBounds img shdr i) ∨
      (runElfSection img shdr i sym = some none ∧ SectionInBounds img shdr i ∧
        ¬ SectionPasses img shdr i) ∨
      (runElfSection img shdr i sym = some (some (nextSym img shdr i sym)) ∧
        SectionInBounds img shdr i ∧ SectionPasses img shdr i) := by
  simp only [runElfSection, SectionInBounds, SectionPasses, nextSym, IsSymtab, symtabAt]
  cases hb : img.beyond (shdrAt shdr i) with
  | true => simp
  | false =>
    by_cases htype : img.Has (shType (shdrAt shdr i)) 4
    · rw [img.read_eq_some htype]
      by_cases hsym : img.field (shType (shdrAt shdr i)) 4 = SHT_SYMTAB
      · by_cases hoff : img.Has (shOffset (shdrAt shdr i)) 8
        · rw [img.read_eq_some hoff]
          cases hstart : img.beyond (advance img.base (img.field (shOffset (shdrAt shdr i)) 8)) with
          | true => simp [htype, hsym, hoff, hstart]
          | false =>
            by_cases hsize : img.Has (shSize (shdrAt shdr i)) 8
            · rw [img.read_eq_some hsize]
              cases hend : img.beyond (advance (advance img.base
                  (img.field (shOffset (shdrAt shdr i)) 8))
                  (img.field (shSize (shdrAt shdr i)) 8)) with
              | true => simp [htype, hsym, hoff, hstart, hsize, hend]
              | false =>
                by_cases hlink : img.Has (shLink (shdrAt shdr i)) 4
                · rw [img.read_eq_some hlink]
                  by_cases hstr : img.Has (shOffset (shdrAt shdr
                      (img.field (shLink (shdrAt shdr i)) 4))) 8
                  · cases hbstr : img.beyond (advance img.base (img.field (shOffset (shdrAt shdr
                        (img.field (shLink (shdrAt shdr i)) 4))) 8)) <;>
                      simp [htype, hsym, hoff, hstart, hsize, hend, hlink, hstr, hbstr,
                        img.read_eq_some hstr]
                  · simp [htype, hsym, hoff, hstart, hsize, hend, hlink, hstr,
                      img.read_eq_none hstr]
                · simp [htype, hsym, hoff, hstart, hsize, hend, hlink, img.read_eq_none hlink]
            · simp [htype, hsym, hoff, hstart, hsize, img.read_eq_none hsize]
        · simp [htype, hsym, hoff, img.read_eq_none hoff]
      · simp [htype, hsym]
    · simp [htype, img.read_eq_none htype]

/-! ## 2. All sections -/

/-- The symbol table `run_elf` holds after these sections, all of which pass. -/
def lastSym (img : Image) (shdr : Word) : List ℕ → TSym → TSym
  | [], sym => sym
  | i :: is, sym => lastSym img shdr is (nextSym img shdr i sym)

/-- **The loop of `run_elf`** over `n` sections from `s` on. -/
theorem runElfLoop_cases (img : Image) (shdr : Word) (n s : ℕ) (sym : TSym) :
    let safe := UpTo (fun i => SectionPasses img shdr (s + i))
      (fun i => SectionInBounds img shdr (s + i)) n
    let all := ∀ i < n, SectionPasses img shdr (s + i)
    (runElfLoop img shdr (List.range' s n) sym = none ∧ ¬ safe) ∨
      (runElfLoop img shdr (List.range' s n) sym = some none ∧ safe ∧ ¬ all) ∨
      (runElfLoop img shdr (List.range' s n) sym
          = some (some (lastSym img shdr (List.range' s n) sym)) ∧ safe ∧ all) := by
  induction n generalizing s sym with
  | zero => exact .inr (.inr ⟨rfl, upTo_zero _ _, fun i hi => absurd hi (Nat.not_lt_zero i)⟩)
  | succ n ih =>
    have hshift : ∀ i, s + (i + 1) = s + 1 + i := fun i => by omega
    have hall : (∀ i < n + 1, SectionPasses img shdr (s + i)) ↔
        SectionPasses img shdr s ∧ ∀ i < n, SectionPasses img shdr (s + 1 + i) := by
      constructor
      · intro h
        exact ⟨h 0 (Nat.succ_pos n), fun i hi => hshift i ▸ h (i + 1) (Nat.succ_lt_succ hi)⟩
      · rintro ⟨h0, h⟩ i hi
        cases i with
        | zero => exact h0
        | succ i => exact hshift i ▸ h i (Nat.lt_of_succ_lt_succ hi)
    have hpasses : (fun i => SectionPasses img shdr (s + (i + 1)))
        = fun i => SectionPasses img shdr (s + 1 + i) := funext fun i => by rw [hshift]
    have hbounds : (fun i => SectionInBounds img shdr (s + (i + 1)))
        = fun i => SectionInBounds img shdr (s + 1 + i) := funext fun i => by rw [hshift]
    simp only [upTo_succ, hall, hpasses, hbounds, List.range'_succ, runElfLoop, lastSym]
    rw [Nat.add_zero]
    rcases runElfSection_cases img shdr s sym with ⟨hr, hin⟩ | ⟨hr, hin, hpass⟩ |
      ⟨hr, hin, hpass⟩
    · rw [hr]
      exact .inl ⟨rfl, fun h => hin h.1⟩
    · rw [hr]
      exact .inr (.inl ⟨rfl, ⟨hin, fun h => absurd h hpass⟩, fun h => hpass h.1⟩)
    · rw [hr]
      rcases ih (s + 1) (nextSym img shdr s sym) with ⟨hl, hsafe⟩ | ⟨hl, hsafe, hnot⟩ |
        ⟨hl, hsafe, hrest⟩
      · exact .inl ⟨hl, fun h => hsafe (h.2 hpass)⟩
      · exact .inr (.inl ⟨hl, ⟨hin, fun _ => hsafe⟩, fun h => hnot h.2⟩)
      · exact .inr (.inr ⟨hl, ⟨hin, fun _ => hsafe⟩, hpass, hrest⟩)

/-! ## 3. One symbol -/

/-- The fields of the section a symbol lies in that `get_type` reads: the type, and the flags
if the type is one of its table. -/
def TypeInBounds (img : Image) (s : Word) : Prop :=
  img.beyond s = false → img.Has (shType s) 4 ∧
    ((∃ t ∈ types, img.field (shType s) 4 = t.type) → img.Has (shFlags s) 8)

/-- The symbol is in a section, and not in one of the three that have no header. -/
def InSection (shndx : ℕ) : Prop := shndx ≠ SHN_UNDEF ∧ shndx ≠ SHN_COMMON ∧ shndx ≠ SHN_ABS

/-- `get_sym` goes on after the symbol at `tmp`: its name, if it is loaded, is not beyond the
end. -/
def SymbolPasses (img : Image) (strtab tmp : Word) : Prop :=
  isKept (img.field (stInfo tmp) 1) = true →
    img.beyond (advance strtab (img.field (stName tmp) 4)) = false

/-- The fields of the symbol at `tmp` that `get_sym` and `fill_symbol` read, and those of its
section, are in memory. -/
def SymbolInBounds (img : Image) (shdr strtab tmp : Word) : Prop :=
  img.Has (stInfo tmp) 1 ∧ (isKept (img.field (stInfo tmp) 1) = true →
    img.Has (stName tmp) 4 ∧
      (img.beyond (advance strtab (img.field (stName tmp) 4)) = false →
        img.Has (stValue tmp) 8 ∧ img.Has (stShndx tmp) 2 ∧
          (InSection (img.field (stShndx tmp) 2) →
            TypeInBounds img (shdrAt shdr (img.field (stShndx tmp) 2)))))

theorem getTypeLoop_isSome (img : Image) (s : Word) (ts : List TType) :
    (getTypeLoop img s ts).isSome ↔ (ts ≠ [] → img.beyond s = false → img.Has (shType s) 4 ∧
      ((∃ t ∈ ts, img.field (shType s) 4 = t.type) → img.Has (shFlags s) 8)) := by
  induction ts with
  | nil => simp [getTypeLoop]
  | cons t ts ih =>
    rw [getTypeLoop]
    cases hb : img.beyond s with
    | true => simp
    | false =>
      rw [hb] at ih
      by_cases htype : img.Has (shType s) 4
      · by_cases ht : img.field (shType s) 4 = t.type
        · by_cases hflags : img.Has (shFlags s) 8
          · have hrest : (getTypeLoop img s ts).isSome := ih.mpr fun _ _ => ⟨htype, fun _ => hflags⟩
            simp only [img.read_eq_some htype, img.read_eq_some hflags, ht, Option.bind_eq_bind,
              Option.bind_some, if_true, Bool.false_eq_true, if_false]
            refine iff_of_true ?_ fun _ _ => ⟨htype, fun _ => hflags⟩
            split
            · rfl
            · exact hrest
          · simp [img.read_eq_some htype, img.read_eq_none hflags, ht, htype, hflags]
        · have hcons : (∃ u ∈ t :: ts, img.field (shType s) 4 = u.type) ↔
              ∃ u ∈ ts, img.field (shType s) 4 = u.type := by
            simp [ht]
          simp only [img.read_eq_some htype, Option.bind_eq_bind, Option.bind_some, if_neg ht,
            Bool.false_eq_true, if_false, hcons]
          cases ts with
          | nil => simp [getTypeLoop, htype]
          | cons u ts => simpa [htype] using ih
      · simp [img.read_eq_none htype, htype]

theorem getType_isSome (img : Image) (shdr tmp : Word) :
    (getType img shdr tmp).isSome ↔ img.Has (stShndx tmp) 2 ∧
      (InSection (img.field (stShndx tmp) 2) →
        TypeInBounds img (shdrAt shdr (img.field (stShndx tmp) 2))) := by
  have hne : types ≠ [] := List.cons_ne_nil _ _
  rw [getType, Option.bind_eq_bind, img.isSome_read_bind]
  refine and_congr_right ?_
  intro _
  by_cases h1 : img.field (stShndx tmp) 2 = SHN_UNDEF
  · simp [h1, InSection]
  · by_cases h2 : img.field (stShndx tmp) 2 = SHN_COMMON
    · simp [h2, InSection, SHN_UNDEF, SHN_COMMON]
    · by_cases h3 : img.field (stShndx tmp) 2 = SHN_ABS
      · simp [h3, InSection, SHN_UNDEF, SHN_COMMON, SHN_ABS]
      · rw [if_neg h1, if_neg h2, if_neg h3, getTypeLoop_isSome]
        have hin : InSection (img.field (stShndx tmp) 2) := ⟨h1, h2, h3⟩
        simp only [hin, hne, TypeInBounds, ne_eq, not_false_eq_true, true_imp_iff]

/-- `fill_symbol` on a symbol whose `st_info` and `st_name` can be read. -/
theorem fillSymbol_isSome {img : Image} {tmp : Word} (hinfo : img.Has (stInfo tmp) 1)
    (hname : img.Has (stName tmp) 4) (shdr strtab : Word) :
    (fillSymbol img shdr strtab tmp).isSome ↔ img.Has (stValue tmp) 8 ∧
      (getType img shdr tmp).isSome := by
  rw [fillSymbol, Option.bind_eq_bind, img.isSome_read_bind]
  refine and_congr_right ?_
  intro _
  cases getType img shdr tmp with
  | none => simp
  | some t => simp [img.read_eq_some hinfo, img.read_eq_some hname]

/-! ## 4. All symbols -/

/-- The symbol `k` places after `tmp`. -/
def symAt (tmp : Word) (k : ℕ) : Word := advance tmp (SYM_SIZE * k)

/-- **One round of `get_sym`**. -/
theorem getSymLoop_step {img : Image} {shdr : Word} {sym : TSym} {n : ℕ} {tmp : Word}
    (hlt : tmp < sym.endp) :
    (getSymLoop img shdr sym (n + 1) tmp).isSome ↔ SymbolInBounds img shdr sym.strtab tmp ∧
      (SymbolPasses img sym.strtab tmp →
        (getSymLoop img shdr sym n (advance tmp SYM_SIZE)).isSome) := by
  simp only [getSymLoop, if_pos hlt, SymbolInBounds, SymbolPasses, Option.bind_eq_bind,
    img.isSome_read_bind]
  by_cases hinfo : img.Has (stInfo tmp) 1
  · cases hk : isKept (img.field (stInfo tmp) 1) with
    | false => simp [hinfo]
    | true =>
      simp only [if_true, img.isSome_read_bind, hinfo, true_and, true_imp_iff]
      by_cases hname : img.Has (stName tmp) 4
      · cases hb : img.beyond (advance sym.strtab (img.field (stName tmp) 4)) with
        | true => simp [hname]
        | false =>
          have hfill := fillSymbol_isSome hinfo hname shdr sym.strtab
          rw [getType_isSome] at hfill
          simp only [hname, true_and, true_imp_iff, ← hfill, Bool.false_eq_true, if_false]
          cases fillSymbol img shdr sym.strtab tmp with
          | none => simp
          | some e =>
            cases getSymLoop img shdr sym n (advance tmp SYM_SIZE) <;> simp
      · simp [hname]
  · simp [hinfo]

/-- The number of symbols the loop comes to, a last incomplete one counted. -/
def symCount (sym : TSym) (tmp : Word) : ℕ :=
  (sym.endp.toNat - tmp.toNat + (SYM_SIZE - 1)) / SYM_SIZE

theorem symCount_eq_zero {sym : TSym} {tmp : Word} (h : ¬ tmp < sym.endp) :
    symCount sym tmp = 0 := by
  have hle : sym.endp.toNat ≤ tmp.toNat := not_lt.mp h
  simp only [symCount, SYM_SIZE]
  omega

theorem advance_toNat {p : Word} {n : ℕ} (h : p.toNat + n < 2 ^ 64) :
    (advance p n).toNat = p.toNat + n := by
  rw [advance, BitVec.toNat_add, BitVec.toNat_ofNat]
  omega

/-- The next symbol, where the section ends well below the wrap. -/
theorem advance_symbol {sym : TSym} (hend : sym.endp.toNat ≤ 2 ^ 47) {tmp : Word}
    (h : tmp < sym.endp) : (advance tmp SYM_SIZE).toNat = tmp.toNat + SYM_SIZE := by
  have hlt : tmp.toNat < sym.endp.toNat := h
  refine advance_toNat ?_
  simp only [SYM_SIZE]
  omega

/-- No round is left. -/
theorem not_lt_of_distance {sym : TSym} {tmp : Word} (hn : sym.endp.toNat - tmp.toNat ≤ 0) :
    ¬ tmp < sym.endp := by
  intro hlt
  have hlt' : tmp.toNat < sym.endp.toNat := hlt
  omega

/-- One round less is left after a symbol. -/
theorem distance_advance {sym : TSym} (hend : sym.endp.toNat ≤ 2 ^ 47) {n : ℕ} {tmp : Word}
    (hlt : tmp < sym.endp) (hn : sym.endp.toNat - tmp.toNat ≤ n + 1) :
    sym.endp.toNat - (advance tmp SYM_SIZE).toNat ≤ n := by
  rw [advance_symbol hend hlt]
  simp only [SYM_SIZE]
  omega

/-- One symbol more than from the next one on. -/
theorem symCount_of_lt {sym : TSym} (hend : sym.endp.toNat ≤ 2 ^ 47) {tmp : Word}
    (h : tmp < sym.endp) : symCount sym tmp = symCount sym (advance tmp SYM_SIZE) + 1 := by
  have hlt : tmp.toNat < sym.endp.toNat := h
  simp only [symCount, advance_symbol hend h]
  simp only [SYM_SIZE]
  omega

theorem symAt_advance (tmp : Word) (k : ℕ) : symAt (advance tmp SYM_SIZE) k = symAt tmp (k + 1) := by
  have hmul : SYM_SIZE * (k + 1) = SYM_SIZE + SYM_SIZE * k := by
    rw [Nat.mul_succ, Nat.add_comm]
  rw [symAt, symAt, advance, advance, advance, hmul, BitVec.ofNat_add, add_assoc]

/-- **The loop of `get_sym`**, with as many rounds as it may need. -/
theorem getSymLoop_isSome {img : Image} {shdr : Word} {sym : TSym} (hend : sym.endp.toNat ≤ 2 ^ 47)
    {n : ℕ} {tmp : Word} (hn : sym.endp.toNat - tmp.toNat ≤ n) :
    (getSymLoop img shdr sym n tmp).isSome ↔
      UpTo (fun k => SymbolPasses img sym.strtab (symAt tmp k))
        (fun k => SymbolInBounds img shdr sym.strtab (symAt tmp k)) (symCount sym tmp) := by
  induction n generalizing tmp with
  | zero =>
    rw [symCount_eq_zero (not_lt_of_distance hn)]
    exact iff_of_true rfl (upTo_zero _ _)
  | succ n ih =>
    by_cases hlt : tmp < sym.endp
    · have hzero : symAt tmp 0 = tmp := BitVec.add_zero tmp
      rw [getSymLoop_step hlt, symCount_of_lt hend hlt, upTo_succ, hzero,
        ih (distance_advance hend hlt hn)]
      simp only [symAt_advance]
    · rw [symCount_eq_zero hlt, getSymLoop, if_neg hlt]
      exact iff_of_true rfl (upTo_zero _ _)

/-! ## 5. Whole files -/

/-- The symbol table that `run_elf` ends up with when every section passes. -/
def symtabOf (img : Image) : TSym :=
  lastSym img (shdrOf img) (List.range (img.field (eShnum img) 2)) {}

/-- What `parse_file` reads is in memory: `e_shoff`, and if the section table does not
start beyond the end, `e_shstrndx` and the offset of the section it names. -/
def ParseInBounds (img : Image) : Prop :=
  img.Has (eShoff img) 8 ∧ (img.beyond (shdrOf img) = false →
    img.Has (eShstrndx img) 2 ∧ img.Has (shOffset (shstrOf img)) 8)

/-- What `run_elf` and `get_sym` read is in memory: the fields of each section whose predecessors
pass, and if all pass and there is an array for the symbols, the fields of each symbol whose
predecessors pass. -/
def RunInBounds (malloc : Malloc) (img : Image) : Prop :=
  img.beyond (shdrOf img) = false →
    UpTo (SectionPasses img (shdrOf img)) (SectionInBounds img (shdrOf img))
        (img.field (eShnum img) 2) ∧
      ((∀ i < img.field (eShnum img) 2, SectionPasses img (shdrOf img) i) →
        (symtabOf img).start ≠ 0 → malloc.gives (symtabOf img).request = true →
          UpTo (fun k => SymbolPasses img (symtabOf img).strtab (symAt (symtabOf img).start k))
            (fun k => SymbolInBounds img (shdrOf img) (symtabOf img).strtab
              (symAt (symtabOf img).start k))
            (symCount (symtabOf img) (symtabOf img).start))

theorem parseFile_isSome (img : Image) (stderr : Bool) :
    (parseFile img stderr).isSome ↔ ParseInBounds img := by
  rcases parseFile_cases img stderr with ⟨hr, hrej, hthrough⟩ | ⟨hr, hoff, hrej⟩ | ⟨hr, hthrough⟩
  · rw [hr]
    refine iff_of_false (by simp) ?_
    rintro ⟨hoff, hrest⟩
    cases hsh : img.beyond (shdrOf img) with
    | true => exact hrej ⟨hoff, .inl hsh⟩
    | false =>
      obtain ⟨hidx, hname⟩ := hrest hsh
      cases hstr : img.beyond (strtabOf img) with
      | true => exact hrej ⟨hoff, .inr ⟨hidx, hname, hstr⟩⟩
      | false => exact hthrough ⟨hoff, hsh, hidx, hname, hstr⟩
  · rw [hr]
    refine iff_of_true rfl ⟨hoff, fun hsh => ?_⟩
    rcases hrej with h | ⟨hidx, hname, -⟩
    · rw [hsh] at h
      cases h
    · exact ⟨hidx, hname⟩
  · rw [hr]
    exact iff_of_true rfl ⟨hthrough.1, fun _ => ⟨hthrough.2.2.1, hthrough.2.2.2.1⟩⟩

/-- **Of a file alone** this means that the file goes on to `e_shoff`, and if the section table does
not start beyond its end, to the end of the header and of the `sh_offset` of that section. -/
theorem parseInBounds_alone_iff (img : Image) :
    ParseInBounds img.alone ↔ 48 ≤ img.bytes.length ∧
      (img.beyond (shdrOf img.alone) = false → 64 ≤ img.bytes.length ∧
        img.off (shOffset (shstrOf img.alone)) + 8 ≤ img.bytes.length) := by
  have hshoff : img.alone.Has (eShoff img) 8 ↔ 48 ≤ img.bytes.length := by
    have hoff : img.off (eShoff img) = 40 := img.off_base_add 40
    rw [Image.has_alone (by decide), hoff]
  have hshstrndx : img.alone.Has (eShstrndx img) 2 ↔ 64 ≤ img.bytes.length := by
    have hoff : img.off (eShstrndx img) = 62 := img.off_base_add 62
    rw [Image.has_alone (by decide), hoff]
  have hname : img.alone.Has (shOffset (shstrOf img.alone)) 8 ↔
      img.off (shOffset (shstrOf img.alone)) + 8 ≤ img.bytes.length :=
    Image.has_alone (by decide)
  exact and_congr hshoff (imp_congr_right fun _ => and_congr hshstrndx hname)

theorem toNat_le_of_not_beyond {img : Image} {p : Word} (h : img.beyond p = false) :
    p.toNat ≤ 2 ^ 47 := by
  have hp := img.placed.2
  simp only [Image.beyond, decide_eq_false_iff_not, BitVec.lt_def, img.toNat_endp] at h
  omega

/-- The end of a symbol table that passes is not beyond the end of the file. -/
theorem beyond_lastSym {img : Image} {shdr : Word} {is : List ℕ}
    (h : ∀ i ∈ is, SectionPasses img shdr i) {sym : TSym} (hsym : img.beyond sym.endp = false) :
    img.beyond (lastSym img shdr is sym).endp = false := by
  induction is generalizing sym with
  | nil => exact hsym
  | cons i is ih =>
    refine ih (fun j hj => h j (List.mem_cons_of_mem _ hj)) ?_
    unfold nextSym
    split
    · rename_i hs
      exact ((h i List.mem_cons_self).2 hs).2.1
    · exact hsym

/-- No symbol table at all: the null pointer is not beyond the end. -/
theorem beyond_zero (img : Image) : img.beyond 0 = false := by
  simp [Image.beyond, BitVec.lt_def]

/-- The symbols of a table that `run_elf` has accepted. -/
theorem getSymEntries_isSome (malloc : Malloc) (img : Image) (shdr : Word) {sym : TSym}
    (hend : sym.endp.toNat ≤ 2 ^ 47) :
    (getSymEntries malloc img shdr sym).isSome ↔
      (sym.start ≠ 0 → malloc.gives sym.request = true →
        UpTo (fun k => SymbolPasses img sym.strtab (symAt sym.start k))
          (fun k => SymbolInBounds img shdr sym.strtab (symAt sym.start k))
          (symCount sym sym.start)) := by
  unfold getSymEntries
  by_cases hstart : sym.start = 0
  · simp [hstart]
  · by_cases h0 : sym.endp = 0
    · have hnone : ¬ sym.start < sym.endp := by
        rw [h0]
        exact BitVec.not_lt_zero
      rw [if_pos (.inl h0), symCount_eq_zero hnone]
      exact iff_of_true rfl fun _ _ => upTo_zero _ _
    · rw [if_neg (not_or.mpr ⟨h0, hstart⟩), forall_prop_of_true hstart]
      cases hgives : malloc.gives sym.request with
      | false => simp
      | true =>
        rw [if_neg (Ne.symm Bool.false_ne_true), getSymLoop_isSome hend (Nat.le_refl _)]
        exact ⟨fun h _ => h, fun h => h rfl⟩

/-- If all sections pass, the end of the symbol table is not beyond the end of the file. -/
theorem beyond_symtabOf {img : Image}
    (h : ∀ i < img.field (eShnum img) 2, SectionPasses img (shdrOf img) i) :
    img.beyond (symtabOf img).endp = false := by
  refine beyond_lastSym ?_ (beyond_zero img)
  intro i hi
  exact h i (List.mem_range.mp hi)

/-- The end of `run_elf`: the table is read if it does not end before it starts. -/
theorem getSym_isSome {malloc : Malloc} {img : Image} {shdr : Word} {sym : TSym}
    (hend : sym.endp.toNat ≤ 2 ^ 47) :
    (if sym.endp < sym.start then some .noSymbols
      else (getSymEntries malloc img shdr sym).bind fun o => match o with
        | none => some .failed
        | some entries => some (Symbols.list sym entries)).isSome ↔
      (sym.start ≠ 0 → malloc.gives sym.request = true →
        UpTo (fun k => SymbolPasses img sym.strtab (symAt sym.start k))
          (fun k => SymbolInBounds img shdr sym.strtab (symAt sym.start k))
          (symCount sym sym.start)) := by
  split
  · rename_i hlt
    have hle : sym.endp.toNat ≤ sym.start.toNat := Nat.le_of_lt hlt
    rw [symCount_eq_zero (not_lt.mpr hle)]
    exact iff_of_true rfl fun _ _ => upTo_zero _ _
  · rw [← getSymEntries_isSome malloc img shdr hend]
    cases getSymEntries malloc img shdr sym with
    | none => rfl
    | some r => cases r <;> rfl

theorem runElf_isSome (malloc : Malloc) {img : Image} (h : checkMagicNumber img = true) :
    (runElf malloc img).isSome ↔ RunInBounds malloc img := by
  have hlen : EHDR_SIZE ≤ img.bytes.length := by
    simp only [checkMagicNumber, Bool.and_eq_true, decide_eq_true_eq] at h
    exact h.1
  have hoff : img.Has (eShoff img) 8 := has_header hlen (o := 40) (by decide) (by decide)
  have hnum : img.Has (eShnum img) 2 := has_header hlen (o := 60) (by decide) (by decide)
  have hloop := runElfLoop_cases img (shdrOf img) (img.field (eShnum img) 2) 0 {}
  simp only [Nat.zero_add, ← List.range_eq_range'] at hloop
  rw [runElf, RunInBounds, Option.bind_eq_bind, img.read_eq_some hoff, Option.bind_some, ← shdrOf]
  dsimp only
  cases hsh : img.beyond (shdrOf img) with
  | true => simp
  | false =>
    rw [if_neg Bool.false_ne_true, img.read_eq_some hnum, Option.bind_eq_bind, Option.bind_some,
      forall_prop_of_true rfl]
    rcases hloop with ⟨hr, hsafe⟩ | ⟨hr, hsafe, hnot⟩ | ⟨hr, hsafe, hall⟩
    · rw [hr]
      exact iff_of_false (by simp) fun hc => hsafe hc.1
    · rw [hr]
      exact iff_of_true rfl ⟨hsafe, fun hall => absurd hall hnot⟩
    · rw [hr, ← symtabOf]
      simp only [Option.bind_some]
      refine (getSym_isSome (toNat_le_of_not_beyond (beyond_symtabOf hall))).trans ?_
      exact ⟨fun h => ⟨hsafe, fun _ => h⟩, fun h => h.2 hall⟩

/-- No read of `parse_file` leaves the file, and once `parse_elf` has accepted it, none of
`run_elf`, `get_sym`, `fill_symbol` and `get_type` does. -/
def ElfInBounds (malloc : Malloc) (img : Image) : Prop :=
  (∀ stderr, (parseFile img.alone stderr).isSome) ∧
    ∀ elf, parseElf (.mapped img) = some (some elf) → (runElf malloc elf.alone).isSome

/-- **The reads stay inside the file exactly if** the fields that are used do: those that
`parse_file` uses, and those that `run_elf` uses of every section and symbol it comes to. -/
theorem elfInBounds_iff (malloc : Malloc) (img : Image) :
    ElfInBounds malloc img ↔ ParseInBounds img.alone ∧
      ∀ elf, parseElf (.mapped img) = some (some elf) → RunInBounds malloc elf.alone := by
  have hrun {elf : Image} (h : parseElf (.mapped img) = some (some elf)) :
      (runElf malloc elf.alone).isSome ↔ RunInBounds malloc elf.alone := by
    -- the magic number is a matter of the file itself
    have hmagic : checkMagicNumber elf.alone = checkMagicNumber elf := rfl
    exact runElf_isSome malloc (hmagic.trans (checkMagicNumber_of_parseElf h))
  refine and_congr ?_ (forall_congr' fun elf => forall_congr' hrun)
  simp only [parseFile_isSome, forall_const]

/-- A header that says there is one section, right behind it: at the end of the file. -/
def bareHeader : Image :=
  .ofFile 0x1000 ([0x7F, 0x45, 0x4C, 0x46, 2, 1, 1, 0] ++ List.replicate 8 0 ++ [2, 0] ++
    List.replicate 22 0 ++ [64] ++ List.replicate 19 0 ++ [1, 0, 0, 0]) (by decide)

/-- **A bare header is read past its end**, by `run_elf` and by `parse_file`. -/
theorem bare_header_leaves : bareHeader.bytes.length = 64 ∧
    parseElf (.mapped bareHeader) = some (some bareHeader) ∧
      runElf .ample bareHeader.alone = none ∧ parseFile bareHeader.alone true = none ∧
        ¬ ElfInBounds .ample bareHeader := by
  have hparse : parseElf (.mapped bareHeader) = some (some bareHeader) := by
    have hlen : bareHeader.bytes.length < 2 ^ 32 := by decide
    have hmagic : checkMagicNumber bareHeader = true := by decide
    have hsized : elfLen bareHeader.bytes.length ≠ 2 ^ 32 - 1 := by decide
    rw [parseElf, elfImage_eq_self hlen, if_neg hsized, if_pos hmagic]
  have hrun : (runElf .ample bareHeader.alone).isSome = false := by decide +kernel
  have hfile : ¬ (parseFile bareHeader.alone true).isSome := by
    rw [parseFile_isSome, parseInBounds_alone_iff]
    decide +kernel
  refine ⟨by decide, hparse, Option.not_isSome_iff_eq_none.mp (by rw [hrun]; decide),
    Option.not_isSome_iff_eq_none.mp hfile, ?_⟩
  rintro ⟨-, hin⟩
  have hsome := hin _ hparse
  rw [hrun] at hsome
  cases hsome

/-! ## 6. What is around the file -/

theorem getTypeLoop_below (img : Image) (s : Word) (ts : List TType) :
    Below (getTypeLoop img.alone s ts) (getTypeLoop img s ts) := by
  induction ts with
  | nil => exact .refl _
  | cons t ts ih =>
    refine .ite (.refl _) (.bind (img.read_alone_below (shType s) 4) fun type => ?_)
    refine .ite (.bind (img.read_alone_below (shFlags s) 8) fun flags => ?_) ih
    exact .ite (.refl _) ih

theorem fillSymbol_below (img : Image) (shdr strtab sym : Word) :
    Below (fillSymbol img.alone shdr strtab sym) (fillSymbol img shdr strtab sym) := by
  have htype : Below (getType img.alone shdr sym) (getType img shdr sym) := by
    refine .bind (img.read_alone_below (stShndx sym) 2) fun shndx => ?_
    exact .ite (.refl _) (.ite (.refl _) (.ite (.refl _) (getTypeLoop_below img _ types)))
  refine .bind (img.read_alone_below (stValue sym) 8) fun value => .bind htype fun type => ?_
  refine .bind (img.read_alone_below (stInfo sym) 1) fun info => ?_
  exact .bind (img.read_alone_below (stName sym) 4) fun name => .refl _

theorem getSymLoop_below (img : Image) (shdr : Word) (sym : TSym) (n : ℕ) (tmp : Word) :
    Below (getSymLoop img.alone shdr sym n tmp) (getSymLoop img shdr sym n tmp) := by
  induction n generalizing tmp with
  | zero => exact .refl _
  | succ n ih =>
    refine .ite (.bind (img.read_alone_below (stInfo tmp) 1) fun info => ?_) (.refl _)
    refine .ite (.bind (img.read_alone_below (stName tmp) 4) fun name => ?_) (ih _)
    refine .ite (.refl _) (.bind (fillSymbol_below img shdr sym.strtab tmp) fun e => ?_)
    exact .bind (ih _) fun rest => .refl _

theorem runElfSection_below (img : Image) (shdr : Word) (i : ℕ) (sym : TSym) :
    Below (runElfSection img.alone shdr i sym) (runElfSection img shdr i sym) := by
  refine .ite (.refl _) (.bind (img.read_alone_below (shType (shdrAt shdr i)) 4) fun type => ?_)
  refine .ite (.bind (img.read_alone_below (shOffset (shdrAt shdr i)) 8) fun offset => ?_) (.refl _)
  refine .ite (.refl _) (.bind (img.read_alone_below (shSize (shdrAt shdr i)) 8) fun size => ?_)
  refine .ite (.refl _) (.bind (img.read_alone_below (shLink (shdrAt shdr i)) 4) fun link => ?_)
  exact .bind (img.read_alone_below (shOffset (shdrAt shdr link)) 8) fun str => .refl _

theorem runElfLoop_below (img : Image) (shdr : Word) (is : List ℕ) (sym : TSym) :
    Below (runElfLoop img.alone shdr is sym) (runElfLoop img shdr is sym) := by
  induction is generalizing sym with
  | nil => exact .refl _
  | cons i is ih =>
    refine .bind (runElfSection_below img shdr i sym) fun o => ?_
    cases o with
    | none => exact .refl _
    | some sym' => exact ih sym'

theorem runElf_below (malloc : Malloc) (img : Image) :
    Below (runElf malloc img.alone) (runElf malloc img) := by
  refine .bind (img.read_alone_below (eShoff img) 8) fun shoff => .ite (.refl _) ?_
  refine .bind (img.read_alone_below (eShnum img) 2) fun shnum => ?_
  refine .bind (runElfLoop_below img _ _ {}) fun o => ?_
  cases o with
  | none => exact .refl _
  | some sym =>
    refine .ite (.refl _) (.bind ?_ fun _ => .refl _)
    exact .ite (.refl _) (.ite (.refl _) (getSymLoop_below img _ sym _ _))

theorem parseFile_below (img : Image) (stderr : Bool) :
    Below (parseFile img.alone stderr) (parseFile img stderr) := by
  rw [parseFile_eq, parseFile_eq]
  refine .bind (img.read_alone_below (eShoff img) 8) fun shoff => .ite (.refl _) ?_
  refine .bind (img.read_alone_below (eShstrndx img) 2) fun shstrndx => ?_
  exact .bind (img.read_alone_below _ 8) fun str => .refl _

/-- **What is around a file that is read within its bounds makes no difference**: each of the
functions comes to what it comes to of the file alone. -/
theorem ElfInBounds.eq_alone {malloc : Malloc} {img : Image} (h : ElfInBounds malloc img) :
    (∀ stderr, parseFile img stderr = parseFile img.alone stderr) ∧
      ∀ elf, parseElf (.mapped img) = some (some elf) →
        runElf malloc elf = runElf malloc elf.alone := by
  constructor
  · intro stderr
    exact (parseFile_below img stderr).eq_of_isSome (h.1 stderr)
  · intro elf helf
    exact (runElf_below malloc elf).eq_of_isSome (h.2 elf helf)

end Ftrace
