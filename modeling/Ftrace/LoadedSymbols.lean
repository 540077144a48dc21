/-
# The list that `get_sym` builds

`get_sym` walks over the symbols of a section and stores an entry for each that it keeps, until
one has a name beyond the end of the file.  Its list is an array with as many places as the
section has whole symbols (`Allocated.room_eq`), all zero at first, and four loops in two files
take the first all-zero entry for the end of it.

* `endMarked_iff`: such an entry is there exactly if fewer entries are stored than there are
  places, so exactly if some symbol is left out;
* `listsByType_iff`: `st_info` holds the type of a symbol and its binding, and the code compares
  the whole of it with a type, so a symbol is left out by its type only if it is local.
-/
import Ftrace.ElfBounds
import Ftrace.SymbolNames

namespace Ftrace

open CText Bytes Mapped

/-! ## 1. The symbols of a section -/

/-- The symbols from `tmp` on, in table order; a last incomplete one is among them. -/
def symbolsOf (sym : TSym) (tmp : Word) : List Word :=
  (List.range (symCount sym tmp)).map (symAt tmp)

/-- The symbol is kept. -/
def keptAt (img : Image) (a : Word) : Bool := isKept (img.field (stInfo a) 1)

instance (img : Image) (s : Word) : Decidable (TypeInBounds img s) :=
  inferInstanceAs (Decidable (_ → _))

instance (shndx : ℕ) : Decidable (InSection shndx) := inferInstanceAs (Decidable (_ ∧ _))

instance (img : Image) (shdr strtab a : Word) : Decidable (SymbolInBounds img shdr strtab a) :=
  inferInstanceAs (Decidable (_ ∧ _))

instance (img : Image) (strtab a : Word) : Decidable (SymbolPasses img strtab a) :=
  inferInstanceAs (Decidable (_ → _))

/-- The walk over the symbols goes on after this one. -/
def Walked (img : Image) (shdr strtab a : Word) : Prop :=
  SymbolInBounds img shdr strtab a ∧ SymbolPasses img strtab a

instance (img : Image) (shdr strtab a : Word) : Decidable (Walked img shdr strtab a) :=
  inferInstanceAs (Decidable (_ ∧ _))

/-- The symbols that the walk comes to; the one at which it ends is the last. -/
def reachedOf (img : Image) (shdr strtab : Word) : List Word → List Word
  | [] => []
  | a :: as => a :: if Walked img shdr strtab a then reachedOf img shdr strtab as else []

/-- A walk that goes to the end comes to every symbol. -/
theorem mem_reachedOf {img : Image} {shdr strtab : Word} {as : List Word}
    (h : ∀ a ∈ as, Walked img shdr strtab a) {a : Word} (ha : a ∈ as) :
    a ∈ reachedOf img shdr strtab as := by
  induction as with
  | nil => exact ha
  | cons b as ih =>
    rw [reachedOf, if_pos (h b List.mem_cons_self)]
    rcases List.mem_cons.mp ha with rfl | hmem
    · exact List.mem_cons_self
    · exact List.mem_cons_of_mem _ (ih (fun c hc => h c (List.mem_cons_of_mem _ hc)) hmem)

/-- The name of a symbol is beyond the end of the file. -/
def NameBeyond (img : Image) (strtab a : Word) : Prop :=
  img.Has (stName a) 4 ∧ img.beyond (advance strtab (img.field (stName a) 4)) = true

/-- `get_sym` gives up at a symbol: it is kept, and has such a name. -/
def GivesUpAt (img : Image) (strtab a : Word) : Prop :=
  (img.Has (stInfo a) 1 ∧ keptAt img a = true) ∧ NameBeyond img strtab a

theorem Walked.not_givesUpAt {img : Image} {shdr strtab a : Word} (h : Walked img shdr strtab a) :
    ¬ GivesUpAt img strtab a := by
  rintro ⟨⟨-, hk⟩, -, hb⟩
  rw [h.2 hk] at hb
  cases hb

/-- The symbols that are stored: those that are kept, as far as the walk goes. -/
def storedOf (img : Image) (shdr strtab : Word) (as : List Word) : List Word :=
  (as.takeWhile fun a => Walked img shdr strtab a).filter (keptAt img)

theorem symbolsOf_of_not_lt {sym : TSym} {tmp : Word} (h : ¬ tmp < sym.endp) :
    symbolsOf sym tmp = [] := by
  rw [symbolsOf, symCount_eq_zero h]
  rfl

theorem symbolsOf_of_lt {sym : TSym} (hend : sym.endp.toNat ≤ 2 ^ 47) {tmp : Word}
    (h : tmp < sym.endp) : symbolsOf sym tmp = tmp :: symbolsOf sym (advance tmp SYM_SIZE) := by
  have hzero : symAt tmp 0 = tmp := BitVec.add_zero tmp
  rw [symbolsOf, symbolsOf, symCount_of_lt hend h, List.range_succ_eq_map, List.map_cons,
    List.map_map, hzero]
  refine congrArg (tmp :: ·) (List.map_congr_left ?_)
  intro k _
  exact (symAt_advance tmp k).symm

/-! ## 2. What is stored when `get_sym` ends -/

/-- How the loop of `get_sym` ends: at the end of the section, at a name beyond the end of the
file, or at a read where there is no memory. -/
inductive Ending where
  | returns
  | givesUp
  | faults
  deriving DecidableEq

/-- The entries that have been stored by then. -/
structure Filled where
  entries : List Entry
  ending : Ending

/-- What `get_sym` comes to. -/
def Filled.result (f : Filled) : Option (Option (List Entry)) :=
  match f.ending with
  | .returns => some (some f.entries)
  | .givesUp => some none
  | .faults => none

/-- The loop of `get_sym` once more, with what it has stored when it ends. -/
def getSymFill (img : Image) (shdr : Word) (sym : TSym) : ℕ → Word → Filled
  | 0, _ => ⟨[], .returns⟩
  | n + 1, tmp =>
    if tmp < sym.endp then
      match img.read (stInfo tmp) 1 with
      | none => ⟨[], .faults⟩
      | some info =>
        if isKept info then
          match img.read (stName tmp) 4 with
          | none => ⟨[], .faults⟩
          | some name =>
            if img.beyond (advance sym.strtab name) then ⟨[], .givesUp⟩
            else
              match fillSymbol img shdr sym.strtab tmp with
              | none => ⟨[], .faults⟩
              | some e =>
                let rest := getSymFill img shdr sym n (advance tmp SYM_SIZE)
                ⟨e :: rest.entries, rest.ending⟩
        else getSymFill img shdr sym n (advance tmp SYM_SIZE)
    else ⟨[], .returns⟩

/-- There is an array for the entries. -/
def Allocated (malloc : Malloc) (sym : TSym) : Prop :=
  (sym.endp ≠ 0 ∧ sym.start ≠ 0) ∧ malloc.gives sym.request = true

instance (malloc : Malloc) (sym : TSym) : Decidable (Allocated malloc sym) :=
  inferInstanceAs (Decidable (_ ∧ _))

/-- `get_sym`, with what it has stored in the array. -/
def getSymFilled (malloc : Malloc) (img : Image) (shdr : Word) (sym : TSym) : Option Filled :=
  if Allocated malloc sym then
    some (getSymFill img shdr sym (sym.endp.toNat - sym.start.toNat) sym.start)
  else none

/-- It is the same loop. -/
theorem getSymLoop_eq_fill (img : Image) (shdr : Word) (sym : TSym) (n : ℕ) (tmp : Word) :
    getSymLoop img shdr sym n tmp = (getSymFill img shdr sym n tmp).result := by
  induction n generalizing tmp with
  | zero => rfl
  | succ n ih =>
    unfold getSymLoop getSymFill
    split
    · simp only [Option.bind_eq_bind]
      cases img.read (stInfo tmp) 1 with
      | none => rfl
      | some info =>
        simp only [Option.bind_some]
        split
        · cases img.read (stName tmp) 4 with
          | none => rfl
          | some name =>
            simp only [Option.bind_some]
            split
            · rfl
            · cases fillSymbol img shdr sym.strtab tmp with
              | none => rfl
              | some e =>
                simp only [Option.bind_some, ih]
                cases getSymFill img shdr sym n (advance tmp SYM_SIZE) with
                | mk entries ending => cases ending <;> rfl
        · exact ih _
    · rfl

/-- **Everything one round can do** to a symbol in the section: pass it over, store it, give up, or
fault. -/
theorem getSymFill_step {img : Image} {shdr : Word} {sym : TSym} {tmp : Word} (n : ℕ)
    (hlt : tmp < sym.endp) :
    let f := getSymFill img shdr sym (n + 1) tmp
    let rest := getSymFill img shdr sym n (advance tmp SYM_SIZE)
    (Walked img shdr sym.strtab tmp ∧ keptAt img tmp = false ∧ f = rest) ∨
      (Walked img shdr sym.strtab tmp ∧ keptAt img tmp = true ∧
        ∃ e, fillSymbol img shdr sym.strtab tmp = some e ∧
          f = ⟨e :: rest.entries, rest.ending⟩) ∨
      (GivesUpAt img sym.strtab tmp ∧ f = ⟨[], .givesUp⟩) ∨
      (¬ Walked img shdr sym.strtab tmp ∧ ¬ GivesUpAt img sym.strtab tmp ∧
        f = ⟨[], .faults⟩) := by
  intro f rest
  have hf : f = getSymFill img shdr sym (n + 1) tmp := rfl
  rw [getSymFill, if_pos hlt] at hf
  by_cases hinfo : img.Has (stInfo tmp) 1
  · simp only [img.read_eq_some hinfo] at hf
    cases hk : isKept (img.field (stInfo tmp) 1) with
    | false =>
      rw [hk, if_neg Bool.false_ne_true] at hf
      have hkept : ¬ isKept (img.field (stInfo tmp) 1) = true := by
        rw [hk]
        exact Bool.false_ne_true
      exact .inl ⟨⟨⟨hinfo, fun h => absurd h hkept⟩, fun h => absurd h hkept⟩, hk, hf⟩
    | true =>
      rw [hk, if_pos rfl] at hf
      by_cases hname : img.Has (stName tmp) 4
      · simp only [img.read_eq_some hname] at hf
        cases hb : img.beyond (advance sym.strtab (img.field (stName tmp) 4)) with
        | true =>
          rw [hb, if_pos rfl] at hf
          exact .inr (.inr (.inl ⟨⟨⟨hinfo, hk⟩, hname, hb⟩, hf⟩))
        | false =>
          rw [hb, if_neg Bool.false_ne_true] at hf
          have hfill := fillSymbol_isSome hinfo hname shdr sym.strtab
          rw [getType_isSome] at hfill
          cases he : fillSymbol img shdr sym.strtab tmp with
          | none =>
            rw [he] at hf hfill
            refine .inr (.inr (.inr ⟨?_, ?_, hf⟩))
            · intro hw
              exact absurd (hfill.mpr ((hw.1.2 hk).2 hb)) Bool.false_ne_true
            · rintro ⟨-, -, hbeyond⟩
              rw [hb] at hbeyond
              cases hbeyond
          | some e =>
            rw [he] at hf hfill
            exact .inr (.inl ⟨⟨⟨hinfo, fun _ => ⟨hname, fun _ => hfill.mp rfl⟩⟩, fun _ => hb⟩, hk,
              e, rfl, hf⟩)
      · simp only [img.read_eq_none hname] at hf
        exact .inr (.inr (.inr ⟨fun hw => hname (hw.1.2 hk).1, fun hup => hname hup.2.1, hf⟩))
  · simp only [img.read_eq_none hinfo] at hf
    exact .inr (.inr (.inr ⟨fun hw => hinfo hw.1.1, fun hup => hinfo hup.1.1, hf⟩))

/-- **What the loop stores**: the entries of the symbols that are kept, as far as the walk goes,
and it returns the list exactly if the walk goes to the end. -/
theorem getSymFill_spec {img : Image} {shdr : Word} {sym : TSym} (hend : sym.endp.toNat ≤ 2 ^ 47)
    {n : ℕ} {tmp : Word} (hn : sym.endp.toNat - tmp.toNat ≤ n) :
    let f := getSymFill img shdr sym n tmp
    (storedOf img shdr sym.strtab (symbolsOf sym tmp)).mapM (fillSymbol img shdr sym.strtab)
        = some f.entries ∧
      (f.ending = .returns ↔ ∀ a ∈ symbolsOf sym tmp, Walked img shdr sym.strtab a) := by
  induction n generalizing tmp with
  | zero =>
    rw [symbolsOf_of_not_lt (not_lt_of_distance hn)]
    exact ⟨rfl, iff_of_true rfl fun a ha => absurd ha List.not_mem_nil⟩
  | succ n ih =>
    by_cases hlt : tmp < sym.endp
    · obtain ⟨hmap, hret⟩ := ih (distance_advance hend hlt hn)
      rw [storedOf] at hmap
      dsimp only
      rw [symbolsOf_of_lt hend hlt, storedOf, List.takeWhile_cons, List.forall_mem_cons]
      rcases getSymFill_step n hlt with ⟨hw, hk, hf⟩ | ⟨hw, hk, e, he, hf⟩ | ⟨hup, hf⟩ |
        ⟨hw, -, hf⟩
      · -- not kept: nothing is stored
        rw [if_pos (decide_eq_true hw), List.filter_cons_of_neg (by rw [hk]; decide), hf]
        exact ⟨hmap, hret.trans (and_iff_right hw).symm⟩
      · rw [if_pos (decide_eq_true hw), List.filter_cons_of_pos hk, List.mapM_cons, he, hmap, hf]
        exact ⟨rfl, hret.trans (and_iff_right hw).symm⟩
      · have hw : ¬ Walked img shdr sym.strtab tmp := fun hw => hw.not_givesUpAt hup
        rw [if_neg (by simpa using hw), hf]
        exact ⟨rfl, iff_of_false (by decide) fun hall => hw hall.1⟩
      · rw [if_neg (by simpa using hw), hf]
        exact ⟨rfl, iff_of_false (by decide) fun hall => hw hall.1⟩
    · rw [getSymFill, if_neg hlt, symbolsOf_of_not_lt hlt]
      exact ⟨rfl, iff_of_true rfl fun a ha => absurd ha List.not_mem_nil⟩

/-- **It gives up exactly if** it comes to a symbol at which it does. -/
theorem getSymFill_givesUp_iff (img : Image) (shdr : Word) {sym : TSym}
    (hend : sym.endp.toNat ≤ 2 ^ 47) {n : ℕ} {tmp : Word} (hn : sym.endp.toNat - tmp.toNat ≤ n) :
    (getSymFill img shdr sym n tmp).ending = .givesUp ↔
      ∃ a ∈ reachedOf img shdr sym.strtab (symbolsOf sym tmp), GivesUpAt img sym.strtab a := by
  induction n generalizing tmp with
  | zero =>
    rw [symbolsOf_of_not_lt (not_lt_of_distance hn), getSymFill]
    refine iff_of_false (by decide) ?_
    rintro ⟨a, ha, -⟩
    exact absurd ha List.not_mem_nil
  | succ n ih =>
    by_cases hlt : tmp < sym.endp
    · have hn' := distance_advance hend hlt hn
      rw [symbolsOf_of_lt hend hlt, reachedOf, List.exists_mem_cons_iff]
      rcases getSymFill_step n hlt with ⟨hw, -, hf⟩ | ⟨hw, -, e, -, hf⟩ | ⟨hup, hf⟩ |
        ⟨hw, hnot, hf⟩
      · rw [if_pos hw, hf, ih hn', or_iff_right hw.not_givesUpAt]
      · rw [if_pos hw, hf, ih hn', or_iff_right hw.not_givesUpAt]
      · rw [hf]
        exact iff_of_true rfl (.inl hup)
      · rw [if_neg hw, hf]
        refine iff_of_false (by decide) ?_
        rintro (hup | ⟨a, ha, -⟩)
        · exact hnot hup
        · cases ha
    · rw [getSymFill, if_neg hlt, symbolsOf_of_not_lt hlt]
      refine iff_of_false (by decide) ?_
      rintro ⟨a, ha, -⟩
      exact absurd ha List.not_mem_nil

/-- What is computed of each element of a list. -/
theorem forall₂_of_mapM {α β : Type} {f : α → Option β} {as : List α} {bs : List β}
    (h : as.mapM f = some bs) : List.Forall₂ (fun a b => f a = some b) as bs := by
  induction as generalizing bs with
  | nil =>
    obtain rfl := Option.some.inj h
    exact List.Forall₂.nil
  | cons a as ih =>
    rw [List.mapM_cons] at h
    obtain ⟨b, hb, h⟩ := Option.bind_eq_some_iff.mp h
    obtain ⟨bs', hbs, h⟩ := Option.bind_eq_some_iff.mp h
    obtain rfl := Option.some.inj h
    exact List.Forall₂.cons hb (ih hbs)

theorem exists_of_mem_mapM {α β : Type} {f : α → Option β} {as : List α} {bs : List β}
    (h : as.mapM f = some bs) {b : β} (hb : b ∈ bs) : ∃ a ∈ as, f a = some b := by
  have hall := forall₂_of_mapM h
  clear h
  induction hall with
  | nil => exact absurd hb List.not_mem_nil
  | cons hab _ ih =>
    rcases List.mem_cons.mp hb with rfl | hb
    · exact ⟨_, List.mem_cons_self, hab⟩
    · obtain ⟨a, ha, hf⟩ := ih hb
      exact ⟨a, List.mem_cons_of_mem _ ha, hf⟩

/-- The whole of `get_sym`, on a section whose end is not beyond the end of the file. -/
theorem getSymFilled_spec {malloc : Malloc} {img : Image} {shdr : Word} {sym : TSym}
    (hend : img.beyond sym.endp = false) {f : Filled}
    (h : getSymFilled malloc img shdr sym = some f) :
    (storedOf img shdr sym.strtab (symbolsOf sym sym.start)).mapM (fillSymbol img shdr sym.strtab)
        = some f.entries ∧
      (f.ending = .returns ↔ ∀ a ∈ symbolsOf sym sym.start, Walked img shdr sym.strtab a) := by
  rw [getSymFilled] at h
  split at h
  · obtain rfl := Option.some.inj h
    exact getSymFill_spec (toNat_le_of_not_beyond hend) (Nat.le_refl _)
  · cases h

theorem exists_filled_iff {malloc : Malloc} (img : Image) (shdr : Word) {sym : TSym} :
    (∃ f, getSymFilled malloc img shdr sym = some f) ↔ Allocated malloc sym := by
  rw [getSymFilled]
  split
  · rename_i h
    exact iff_of_true ⟨_, rfl⟩ h
  · rename_i h
    refine iff_of_false ?_ h
    rintro ⟨f, hf⟩
    cases hf

theorem getSymEntries_eq_filled (malloc : Malloc) (img : Image) (shdr : Word) (sym : TSym) :
    getSymEntries malloc img shdr sym
      = ((getSymFilled malloc img shdr sym).map Filled.result).getD (some none) := by
  unfold getSymEntries getSymFilled
  by_cases h0 : sym.endp = 0 ∨ sym.start = 0
  · have hnot : ¬ Allocated malloc sym := by
      rintro ⟨⟨hendp, hstart⟩, -⟩
      exact h0.elim hendp hstart
    rw [if_pos h0, if_neg hnot]
    rfl
  · by_cases hgives : malloc.gives sym.request = false
    · have hnot : ¬ Allocated malloc sym := by
        rintro ⟨-, h⟩
        rw [hgives] at h
        cases h
      rw [if_neg h0, if_pos hgives, if_neg hnot]
      rfl
    · have hall : Allocated malloc sym := ⟨not_or.mp h0, Bool.not_eq_false _ ▸ hgives⟩
      rw [if_neg h0, if_neg hgives, if_pos hall, getSymLoop_eq_fill]
      rfl

/-- The entries that are returned. -/
theorem getSymEntries_eq_some_iff {malloc : Malloc} {img : Image} {shdr : Word} {sym : TSym}
    {es : List Entry} : getSymEntries malloc img shdr sym = some (some es) ↔
      getSymFilled malloc img shdr sym = some ⟨es, .returns⟩ := by
  rw [getSymEntries_eq_filled]
  cases getSymFilled malloc img shdr sym with
  | none => simp
  | some f =>
    obtain ⟨entries, ending⟩ := f
    cases ending <;> simp [Filled.result]

/-! ## 3. The end marker -/

/-- `get_sym` never stores an entry in the last place, and the first all-zero entry of the list
it returns is the one behind the entries it has stored. -/
def EndMarked (malloc : Malloc) (img : Image) (shdr : Word) (sym : TSym) : Prop :=
  ∀ f, getSymFilled malloc img shdr sym = some f → f.entries.length + 1 ≤ sym.room ∧
    (f.ending = .returns → (symCells sym.room f.entries).length = sym.room ∧
      (symCells sym.room f.entries).findIdx? TSymbol.isEnd = some f.entries.length)

/-- The first all-zero entry, where there is room for one. -/
theorem findIdx?_symCells {room : ℕ} {es : List Entry} (hroom : es.length < room)
    (htype : ∀ e ∈ es, e.type ≠ 0) :
    (symCells room es).findIdx? TSymbol.isEnd = some es.length := by
  obtain ⟨z, rest, hz, hcells⟩ := symCells_eq hroom
  have hnone : (es.map Entry.symbol).findIdx? TSymbol.isEnd = none := by
    rw [List.findIdx?_eq_none_iff]
    intro a ha
    obtain ⟨e, he, rfl⟩ := List.mem_map.mp ha
    exact isEnd_symbol (htype e he)
  rw [hcells, List.findIdx?_append, hnone, List.findIdx?_cons, if_pos hz]
  simp

/-- **The list is ended exactly if** a place is left over: if the array, where there is one, has
more places than symbols are stored.  `run_elf` has made sure that the end of the section is not
beyond the end of the file. -/
theorem endMarked_iff (malloc : Malloc) {img : Image} {shdr : Word} {sym : TSym}
    (hend : img.beyond sym.endp = false) :
    EndMarked malloc img shdr sym ↔ (Allocated malloc sym →
      (storedOf img shdr sym.strtab (symbolsOf sym sym.start)).length < sym.room) := by
  rw [← exists_filled_iff img shdr]
  constructor
  · rintro h ⟨f, hf⟩
    have hlen := (forall₂_of_mapM (getSymFilled_spec hend hf).1).length_eq
    rw [hlen]
    exact (h f hf).1
  · intro h f hf
    have hlen := (forall₂_of_mapM (getSymFilled_spec hend hf).1).length_eq
    have hroom := h ⟨f, hf⟩
    rw [hlen] at hroom
    refine ⟨hroom, ?_⟩
    intro hret
    have hes : getSymEntries malloc img shdr sym = some (some f.entries) := by
      rw [getSymEntries_eq_some_iff, hf, ← hret]
    refine ⟨?_, findIdx?_symCells hroom (getSymEntries_type hes)⟩
    rw [symCells, List.length_append, List.length_map, List.length_replicate]
    omega

/-- **An array has as many places as the section has whole symbols**, and a section that goes on
for eight bytes or more behind the last of them has none. -/
theorem Allocated.room_eq {malloc : Malloc} {sym : TSym} (h : Allocated malloc sym)
    (hle : sym.start.toNat ≤ sym.endp.toNat) (hend : sym.endp.toNat ≤ 2 ^ 47) :
    (sym.endp.toNat - sym.start.toNat) % SYM_SIZE < 8 ∧
      sym.room = (sym.endp.toNat - sym.start.toNat) / SYM_SIZE := by
  obtain ⟨hwhole, hpart⟩ := TSym.request_of_mod hle hend
  have hrest : (sym.endp.toNat - sym.start.toNat) % SYM_SIZE < 8 := by
    by_contra hbig
    have hrefused := malloc.bounded _ (hpart (Nat.le_of_not_lt hbig))
    rw [h.2] at hrefused
    cases hrefused
  refine ⟨hrest, ?_⟩
  rw [TSym.room, hwhole hrest, Nat.mul_div_cancel_left _ (by decide)]

/-- A symbol without a name, with this `st_info`, absolute. -/
def absSymbol (info : BitVec 8) : List (BitVec 8) :=
  [0, 0, 0, 0, info, 0, 0xF1, 0xFF] ++ List.replicate 16 0

/-- Two symbols. -/
def symbolPair (info info' : BitVec 8) : Image :=
  .ofFile 0x1000 (absSymbol info ++ absSymbol info') ⟨by decide, by simp [absSymbol]⟩

/-- Their section, which has an empty string table. -/
def pairTab : TSym := ⟨0x1000, 0x1030, 0x1000⟩

/-- The null symbol and a function. -/
theorem endMarked_iff_function : EndMarked .ample (symbolPair 0x00 0x12) 0x1000 pairTab :=
  (endMarked_iff .ample (by decide)).mpr fun _ => by decide +kernel

/-- Two functions: both places are taken. -/
theorem endMarked_fails : ¬ EndMarked .ample (symbolPair 0x12 0x12) 0x1000 pairTab := by
  intro h
  have hone : (getSymFilled .ample (symbolPair 0x12 0x12) 0x1000 pairTab).map
      (fun f => f.entries.length) = some 2 := by
    decide +kernel
  obtain ⟨f, hf, hlen⟩ := Option.map_eq_some_iff.mp hone
  have hroom := (h f hf).1
  rw [hlen] at hroom
  exact absurd hroom (by decide)

/-! ## 4. The types that are left out -/

/-- The type of a symbol, the low four bits of `st_info`. -/
def elfType (info : ℕ) : ℕ := info % 16

/-- The symbol is of none of the three types that are left out. -/
def keptByType (img : Image) (a : Word) : Bool := isKept (elfType (img.field (stInfo a) 1))

/-- The table is in bounds: so is every field that is read of its symbols, and no name starts
beyond the end of the file. -/
def TableInBounds (img : Image) (shdr : Word) (sym : TSym) : Prop :=
  (img.beyond sym.endp = false ∧ sym.endp ≠ 0 ∧ sym.start ≠ 0) ∧
    ∀ a ∈ symbolsOf sym sym.start, Walked img shdr sym.strtab a

/-- `get_sym` returns the entries of exactly those symbols, in table order. -/
def ListsByType (malloc : Malloc) (img : Image) (shdr : Word) (sym : TSym) : Prop :=
  ∃ es, getSymEntries malloc img shdr sym = some (some es) ∧
    ((symbolsOf sym sym.start).filter (keptByType img)).mapM (fillSymbol img shdr sym.strtab)
      = some es

/-- What is returned for a table in bounds, if there is an array for it. -/
theorem TableInBounds.entries {malloc : Malloc} {img : Image} {shdr : Word} {sym : TSym}
    (h : TableInBounds img shdr sym) (hgives : malloc.gives sym.request = true) :
    ∃ es, getSymEntries malloc img shdr sym = some (some es) ∧
      ((symbolsOf sym sym.start).filter (keptAt img)).mapM (fillSymbol img shdr sym.strtab)
        = some es := by
  obtain ⟨⟨hend, hnull⟩, hall⟩ := h
  obtain ⟨f, hf⟩ := (exists_filled_iff img shdr).mpr ⟨hnull, hgives⟩
  obtain ⟨hmap, hret⟩ := getSymFilled_spec hend hf
  refine ⟨f.entries, ?_, ?_⟩
  · rw [getSymEntries_eq_some_iff, hf, ← hret.mpr hall]
  · have htake : (symbolsOf sym sym.start).takeWhile (fun a => Walked img shdr sym.strtab a)
        = symbolsOf sym sym.start := by
      rw [List.takeWhile_eq_self_iff]
      intro a ha
      exact decide_eq_true (hall a ha)
    rwa [storedOf, htake] at hmap

/-- Without an array nothing is returned. -/
theorem gives_of_entries {malloc : Malloc} {img : Image} {shdr : Word} {sym : TSym}
    {es : List Entry} (h : getSymEntries malloc img shdr sym = some (some es)) :
    Allocated malloc sym :=
  (exists_filled_iff img shdr).mp ⟨_, getSymEntries_eq_some_iff.mp h⟩

theorem isKept_iff (info : ℕ) : isKept info = true ↔ info ≠ 4 ∧ info ≠ 3 ∧ info ≠ 0 := by
  simp only [isKept, Bool.and_eq_true, decide_eq_true_eq, and_assoc]
  exact Iff.rfl

/-- A symbol that is left out is left out by its type. -/
theorem keptAt_of_keptByType {img : Image} {a : Word} (h : keptByType img a = true) :
    keptAt img a = true := by
  unfold keptByType at h
  unfold keptAt
  rw [isKept_iff, elfType] at h
  rw [isKept_iff]
  omega

/-- The other way round if its binding is local. -/
theorem keptByType_of_keptAt_iff (img : Image) (a : Word) :
    (keptAt img a = true → keptByType img a = true) ↔
      (keptByType img a = false → img.field (stInfo a) 1 < 16) := by
  unfold keptByType keptAt
  rw [← Bool.not_eq_true, isKept_iff, isKept_iff, elfType]
  omega

/-- **The list has the right symbols exactly if** there is an array for it, and every symbol of one
of the three types is local: the code compares the whole of `st_info` with the type. -/
theorem listsByType_iff (malloc : Malloc) {img : Image} {shdr : Word} {sym : TSym}
    (hin : TableInBounds img shdr sym) :
    ListsByType malloc img shdr sym ↔ malloc.gives sym.request = true ∧
      ∀ a ∈ symbolsOf sym sym.start,
        keptByType img a = false → img.field (stInfo a) 1 < 16 := by
  constructor
  · rintro ⟨es', hes', hmap'⟩
    have hgives := (gives_of_entries hes').2
    obtain ⟨es, hes, hmap⟩ := hin.entries hgives
    refine ⟨hgives, fun a ha => ?_⟩
    obtain rfl := Option.some.inj (Option.some.inj (hes.symm.trans hes'))
    -- both lists have as many symbols as there are entries
    have hlen := (forall₂_of_mapM hmap').length_eq.trans (forall₂_of_mapM hmap).length_eq.symm
    have hsub : ((symbolsOf sym sym.start).filter (keptByType img)).Sublist
        ((symbolsOf sym sym.start).filter (keptAt img)) :=
      List.monotone_filter_right _ fun a => keptAt_of_keptByType
    have heq := hsub.eq_of_length hlen
    rw [← keptByType_of_keptAt_iff]
    intro hk
    have hmem : a ∈ (symbolsOf sym sym.start).filter (keptByType img) := by
      rw [heq]
      exact List.mem_filter.mpr ⟨ha, hk⟩
    exact (List.mem_filter.mp hmem).2
  · rintro ⟨hgives, hall⟩
    obtain ⟨es, hes, hmap⟩ := hin.entries hgives
    refine ⟨es, hes, ?_⟩
    rw [← hmap]
    refine congrArg _ (List.filter_congr ?_)
    intro a ha
    have hiff : keptByType img a = true ↔ keptAt img a = true :=
      ⟨keptAt_of_keptByType, (keptByType_of_keptAt_iff img a).mpr (hall a ha)⟩
    exact Bool.eq_iff_iff.mpr hiff

/-- The two symbols. -/
theorem symbolsOf_pairTab : symbolsOf pairTab pairTab.start = [0x1000, 0x1018] := by
  decide +kernel

/-- The null symbol, whose binding is local, and a function. -/
theorem listsByType_iff_function : ListsByType .ample (symbolPair 0x00 0x12) 0x1000 pairTab := by
  have hin : TableInBounds (symbolPair 0x00 0x12) 0x1000 pairTab := by
    refine ⟨by decide +kernel, ?_⟩
    rw [symbolsOf_pairTab, List.forall_mem_cons, List.forall_mem_singleton]
    decide +kernel
  refine (listsByType_iff .ample hin).mpr ⟨by decide +kernel, ?_⟩
  rw [symbolsOf_pairTab, List.forall_mem_cons, List.forall_mem_singleton]
  decide +kernel

/-- The null symbol, and a global one without a type: it is loaded. -/
theorem listsByType_fails : ¬ ListsByType .ample (symbolPair 0x00 0x10) 0x1000 pairTab := by
  rintro ⟨es, hes, hmap⟩
  have hone : getSymEntries .ample (symbolPair 0x00 0x10) 0x1000 pairTab ≠ some (some []) := by
    decide +kernel
  have hnone : (symbolsOf pairTab pairTab.start).filter (keptByType (symbolPair 0x00 0x10)) = [] := by
    decide +kernel
  rw [hnone] at hmap
  obtain rfl := Option.some.inj hmap
  exact hone hes

end Ftrace
