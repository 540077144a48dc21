/-
# The tables that `get_syscalls.sh` generates

`g_syscalls` is generated at build time from the kernel's `unistd_64.h` and the man pages: one
entry for each `#define __NR_name num`, in the order of the header.  `is_syscall_defined` looks
an entry up by its number, and `print_type` takes the entry at the position of the number.
These agree in the table of the repository (`gSyscalls_fromOneEntry`), whose numbers are its
positions.  A header may leave numbers out (`fromOneEntry_iff`).

What the script reads of a man page is a prototype (`Proto`): the return type, and the
declarations of the parameters, cut at the commas.
-/
import Ftrace.Syscalls.Lines

namespace Ftrace

open CText

/-! ## 1. The script -/

/-- A line `#define __NR_name num` of the header. -/
structure NR where
  name : Text
  num : ℕ
  deriving DecidableEq

/-- `$SYSCALL.proto`. -/
structure Proto where
  ret : Text
  params : List Text

/-- `tr '[:lower:]' '[:upper:]'`. -/
def upper (t : Text) : Text := t.map Char.toUpper

/-- `sed "s/ \*/ \* /g"`. -/
def starSpaced : Text → Text
  | [] => []
  | ' ' :: '*' :: t => ' ' :: '*' :: ' ' :: starSpaced t
  | c :: t => c :: starSpaced t

/-- `rev | cut -d ' ' -f2- | rev`: a text of one field stays as it is. -/
def dropLastField (t : Text) : Text :=
  if ' ' ∈ t then ((t.reverse.dropWhile fun c => c ≠ ' ').drop 1).reverse else t

/-- The `TYPE` of a parameter. -/
def paramType (decl : Text) : Text :=
  let type := (upper (dropLastField (starSpaced decl))).map fun c =>
    if c = ' ' then '_' else if c = '*' then 'P' else c
  if type = "...".toList then "VARGS".toList else type

/-- `TYPE_RETURN`. -/
def returnType (ret : Text) : Text :=
  let type := upper ret
  let type := if type = "CHAR *".toList then "PCHAR".toList
    else if type = "VOID *".toList then "PVOID".toList
    else type
  (type.map fun c => if c = ' ' then '_' else c).filter fun c => c ≠ ','

/-- A type is added to `ALL_TYPES` unless it is in it. -/
def addType (all : List Text) (type : Text) : List Text := if type ∈ all then all else all ++ [type]

/-- The prototype that the table is made with: that of `vm86` is not used. -/
def protoOf (man : Text → Option Proto) (name : Text) : Option Proto :=
  if name = "vm86".toList then none else man name

/-- `ALL_TYPES`, at the end of the loop. -/
def allTypes (man : Text → Option Proto) (header : List NR) : List Text :=
  header.foldl (fun all nr => match protoOf man nr.name with
    | none => all
    | some p => (p.params.map paramType).foldl addType (addType all (returnType p.ret))) []

/-- `# define $typeid $I`. -/
def typeId (all : List Text) (type : Text) : ℤ := all.idxOf type + 1

/-- The entry of one line. -/
def genEntry (man : Text → Option Proto) (all : List Text) (nr : NR) : TSyscalls :=
  match protoOf man nr.name with
  | none => ⟨nr.num, nr.name, 6, [0, 0, 0, 0, 0, 0]⟩
  | some p =>
    let types := p.params.map fun decl => typeId all (paramType decl)
    ⟨nr.num, nr.name, p.params.length, (types ++ [0, 0, 0, 0, 0, 0]).take 6⟩

/-- The table of a header. -/
def genSyscalls (man : Text → Option Proto) (header : List NR) : List TSyscalls :=
  header.map (genEntry man (allTypes man header))

@[simp] theorem genEntry_num (man : Text → Option Proto) (all : List Text) (nr : NR) :
    (genEntry man all nr).num = nr.num := by
  unfold genEntry
  split <;> rfl

theorem genEntry_nparams_eq_zero (man : Text → Option Proto) (all : List Text) (nr : NR) :
    (genEntry man all nr).nparams = 0 ↔ ∃ p ∈ protoOf man nr.name, p.params = [] := by
  unfold genEntry
  cases protoOf man nr.name with
  | none => simp
  | some p => simp

theorem map_num_genSyscalls (man : Text → Option Proto) (header : List NR) :
    (genSyscalls man header).map TSyscalls.num = header.map NR.num := by
  rw [genSyscalls, List.map_map]
  exact List.map_congr_left fun nr _ => genEntry_num man _ nr

example : paramType "const char *pathname".toList = "CONST_CHAR_P".toList := by decide

/-! ## 2. The entries a call is printed from -/

/-- What `print_type` makes of an entry. -/
def typeText (mem : Mem) (e : TSyscalls) (nparam : ℕ) (value : Word) : Option Text := do
  let type ← e.params[nparam]?
  let text := match (gFunctionsPrint mem).find? fun p => p.1 = type with
    | some p => p.2 value
    | none => "0x".toList ++ hexLow value.toNat
  some ((if 0 < nparam then ", ".toList else []) ++ text)

/-- The entry that `print_type` reads: `g_syscalls[num]`. -/
def typeEntry (tab : List TSyscalls) (num : ℕ) : Option TSyscalls := tab[num]?

theorem printType_eq (tab : List TSyscalls) (mem : Mem) (num nparam : ℕ) (value : Word) :
    printType tab mem num nparam value =
      (typeEntry tab num).bind fun e => typeText mem e nparam value := rfl

/-- The name, the number of parameters and the type of each parameter that is printed are
those of one entry of the table, which has the number `num`. -/
def FromOneEntry (tab : List TSyscalls) (num : ℕ) : Prop :=
  ∃ sys e, isSyscallDefined tab num = some sys ∧ tab[sys]? = some e ∧ e.num = num ∧
    ∀ nparam < min 6 e.nparams, typeEntry tab num = some e

/-- The parameters `k`, …, `k + n - 1`, as one entry describes them. -/
def entryParams (mem : Mem) (regs : UserRegs) (e : TSyscalls) (k n : ℕ) : Option Text :=
  ((List.range' k n).mapM fun i => typeText mem e i (getParam regs i)).map List.flatten

/-- If the types come from the entry `e`, the parameters are printed as `e` describes them. -/
theorem printParams_eq_entryParams {tab : List TSyscalls} {num : ℕ} {e : TSyscalls} (mem : Mem)
    (regs : UserRegs) (k n : ℕ) (h : 0 < n → typeEntry tab num = some e) :
    printParams tab mem regs num k n = entryParams mem regs e k n := by
  induction n generalizing k with
  | zero => rfl
  | succ n ih =>
    have he := h n.succ_pos
    unfold printParams entryParams
    rw [ih (k + 1) fun _ => he, printType_eq, he, Option.bind_some, List.range'_succ,
      List.mapM_cons]
    unfold entryParams
    cases typeText mem e k (getParam regs k) with
    | none => rfl
    | some t =>
      cases (List.range' (k + 1) n).mapM fun i => typeText mem e i (getParam regs i) with
      | none => rfl
      | some ts => rfl

/-- Then the whole call is printed, from that entry alone. -/
theorem FromOneEntry.printGeneric {tab : List TSyscalls} {num : ℕ} (h : FromOneEntry tab num)
    (h6 : ∀ e ∈ tab, e.params.length = 6) (mem : Mem) (regs : UserRegs) (ret : Word) :
    ∃ sys e params, isSyscallDefined tab num = some sys ∧ tab[sys]? = some e ∧ e.num = num ∧
      entryParams mem regs e 0 (min 6 e.nparams) = some params ∧
      printGeneric tab mem regs ret num e =
        let line := e.name ++ "(".toList ++ params ++ ")".toList
        some (line ++ printSspace line.length ++ "= ".toList ++
          (if ret ≠ 0 then "0x".toList else []) ++ hexLow ret.toNat ++ "\n".toList) := by
  obtain ⟨sys, e, hsys, he, hnum, htypes⟩ := h
  have hparams := printParams_eq_entryParams mem regs 0 (min 6 e.nparams) (htypes 0)
  have hsome : ∃ params, printParams tab mem regs num 0 (min 6 e.nparams) = some params := by
    rcases Nat.eq_zero_or_pos (min 6 e.nparams) with hzero | hpos
    · exact ⟨[], by rw [hzero]; rfl⟩
    · have hmem := List.mem_of_getElem? he
      obtain ⟨params, hp, -⟩ := printParams_eq_some (htypes 0 hpos) (h6 e hmem) mem regs 0
        (min 6 e.nparams) (by omega)
      exact ⟨params, hp⟩
  obtain ⟨params, hp⟩ := hsome
  refine ⟨sys, e, params, hsys, he, hnum, hparams ▸ hp, ?_⟩
  simp only [Ftrace.printGeneric, hp, Option.bind_eq_bind, Option.bind_some]

/-- A generated table has six parameter slots in every entry, as this asks for. -/
theorem genSyscalls_params (man : Text → Option Proto) (header : List NR) :
    ∀ e ∈ genSyscalls man header, e.params.length = 6 := by
  intro e he
  obtain ⟨nr, -, rfl⟩ := List.mem_map.mp he
  unfold genEntry
  split
  · rfl
  · simp

/-! ## 3. Positions and numbers -/

/-- In a table of distinct numbers the search finds an entry where it is. -/
theorem isSyscallDefined_eq {tab : List TSyscalls} (hnodup : (tab.map TSyscalls.num).Nodup)
    {i : ℕ} {e : TSyscalls} (he : tab[i]? = some e) : isSyscallDefined tab e.num = some i := by
  obtain ⟨hlt, hget⟩ := List.getElem?_eq_some_iff.mp he
  refine List.findIdx?_eq_some_iff_getElem.mpr ⟨hlt, by simp [hget], ?_⟩
  intro j hj
  have hjlt : j < tab.length := hj.trans hlt
  rw [decide_eq_true_eq]
  intro hnum
  have hsame : (tab.map TSyscalls.num)[j]? = (tab.map TSyscalls.num)[i]? := by
    rw [List.getElem?_map, List.getElem?_map, he, List.getElem?_eq_getElem hjlt, Option.map_some,
      Option.map_some, hnum]
  have hjlt' : j < (tab.map TSyscalls.num).length := by rwa [List.length_map]
  exact absurd ((List.getElem?_inj hjlt' hnodup).mp hsame) hj.ne

/-- **One entry is used** if it stands at the position of its number, or has no parameters. -/
theorem fromOneEntry_iff_position {tab : List TSyscalls}
    (hnodup : (tab.map TSyscalls.num).Nodup) {i : ℕ} {e : TSyscalls} (he : tab[i]? = some e) :
    FromOneEntry tab e.num ↔ i = e.num ∨ e.nparams = 0 := by
  have hfound := isSyscallDefined_eq hnodup he
  constructor
  · rintro ⟨sys, e', hsys, he', -, htypes⟩
    obtain rfl := Option.some.inj (hfound.symm.trans hsys)
    obtain rfl := Option.some.inj (he.symm.trans he')
    by_contra hnot
    rw [not_or] at hnot
    -- the types come from the position of the number, where the entry must be then
    have htype := htypes 0 (by omega)
    obtain ⟨hlt, hget⟩ := List.getElem?_eq_some_iff.mp htype
    have hfound' := isSyscallDefined_eq hnodup htype
    exact hnot.1 (Option.some.inj (hfound.symm.trans hfound'))
  · intro h
    refine ⟨i, e, hfound, he, rfl, ?_⟩
    intro nparam hlt
    rcases h with hpos | hzero
    · exact hpos ▸ he
    · omega

/-- **Name, count and types come from the one entry of the number** exactly if the line of the
number is the one at that position of the header, or its prototype has no parameters. -/
theorem fromOneEntry_iff (man : Text → Option Proto) {header : List NR}
    (hnodup : (header.map NR.num).Nodup) {num : ℕ} (hnum : num ∈ header.map NR.num) :
    FromOneEntry (genSyscalls man header) num ↔
      header[num]?.map NR.num = some num ∨
        ∃ nr ∈ header, nr.num = num ∧ ∃ p ∈ protoOf man nr.name, p.params = [] := by
  obtain ⟨nr, hnr, rfl⟩ := List.mem_map.mp hnum
  obtain ⟨i, hlt, rfl⟩ := List.getElem_of_mem hnr
  have hnodup' : ((genSyscalls man header).map TSyscalls.num).Nodup := by
    rwa [map_num_genSyscalls]
  have hentry : (genSyscalls man header)[i]? =
      some (genEntry man (allTypes man header) header[i]) := by
    rw [genSyscalls, List.getElem?_map, List.getElem?_eq_getElem hlt, Option.map_some]
  have hiff := fromOneEntry_iff_position hnodup' hentry
  rw [genEntry_num, genEntry_nparams_eq_zero] at hiff
  rw [hiff]
  -- two lines with one number are the same line
  have hinj {a b : NR} (ha : a ∈ header) (hb : b ∈ header) (h : a.num = b.num) : a = b :=
    List.inj_on_of_nodup_map hnodup ha hb h
  refine or_congr ?_ ?_
  · constructor
    · intro h
      rw [← h, List.getElem?_eq_getElem hlt, Option.map_some, ← h]
    · intro h
      obtain ⟨nr', hnr', hnum'⟩ := Option.map_eq_some_iff.mp h
      have hsame := hinj (List.getElem_mem hlt) (List.mem_of_getElem? hnr') hnum'.symm
      refine (List.getElem?_inj hlt hnodup.of_map).mp ?_
      rw [hnr', List.getElem?_eq_getElem hlt, hsame]
  · constructor
    · intro h
      exact ⟨header[i], hnr, rfl, h⟩
    · rintro ⟨nr', hmem', hnum', h⟩
      rwa [hinj hmem' hnr hnum'] at h

/-- A build without man pages. -/
def noMan : Text → Option Proto := fun _ => none

theorem fromOneEntry_iff_write :
    FromOneEntry (genSyscalls noMan [⟨"read".toList, 0⟩, ⟨"write".toList, 1⟩]) 1 :=
  (fromOneEntry_iff noMan (by decide) (by decide)).mpr (.inl (by decide))

/-- A header that leaves numbers out. -/
def gapped : List NR := [⟨"read".toList, 0⟩, ⟨"pidfd_send_signal".toList, 424⟩]

/-- **After a gap in the numbers the types are read beyond the table.** -/
theorem fromOneEntry_fails :
    (gapped.map NR.num).Nodup ∧ 424 ∈ gapped.map NR.num ∧
      typeEntry (genSyscalls noMan gapped) 424 = none ∧
      ¬ FromOneEntry (genSyscalls noMan gapped) 424 := by
  refine ⟨by decide, by decide, rfl, ?_⟩
  rintro ⟨sys, e, hsys, he, -, htypes⟩
  have hfound : isSyscallDefined (genSyscalls noMan gapped) 424 = some 1 := by decide
  obtain rfl := Option.some.inj (hfound.symm.trans hsys)
  have hsix : (genSyscalls noMan gapped)[1]?.map TSyscalls.nparams = some 6 := by decide
  rw [he] at hsix
  have hn : e.nparams = 6 := Option.some.inj hsix
  have hnone := htypes 0 (by omega)
  cases hnone

/-- The table of the repository has no gaps. -/
theorem gSyscalls_fromOneEntry {num : ℕ} (h : SyscallDefined num) : FromOneEntry gSyscalls num := by
  obtain ⟨hpos, e, -, he⟩ := gSyscalls_of_defined h
  refine ⟨num, e, hpos, he, ?_, fun _ _ => he⟩
  obtain ⟨hlt, hnum, -⟩ := List.findIdx?_eq_some_iff_getElem.mp hpos
  obtain ⟨hlt', rfl⟩ := List.getElem?_eq_some_iff.mp he
  simpa using hnum

end Ftrace
